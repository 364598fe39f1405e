/-
  POSIX message queues — `mq_queues_count`.

  `mqueue_evict_inode` lowers it only for an inode that has ucounts, which those
  made on a kernel without the symbols have not.

  * `Counted`: the evictions that lower it;
  * `queues_count`: while all do, it is the number of inodes;
  * `queues_miscounted`: on 5.10 it is not.
-/
import Mathlib.Tactic.SplitIfs
import DroidLkm.Mq.Charges

namespace DroidLkm.Mq.Kernel

open Machine

variable {k : Kernel} {s s' : Mqueues} {q : QueueInode} {r : Request} {n : ℕ}

/-- An inode that is evicted from a live namespace has ucounts, and the inodes can
    be counted. -/
def Counted (s : Mqueues) : InodeAct → Prop
  | .create r => (s.queues r.ns).length + 1 < 2 ^ 32
  | .evict q => (s.ns q.ns).live = true → q.ucounts ≠ none
  | _ => True

instance (s : Mqueues) (act : InodeAct) : Decidable (Counted s act) :=
  match act with
  | .create r => inferInstanceAs (Decidable ((s.queues r.ns).length + 1 < 2 ^ 32))
  | .evict q => inferInstanceAs (Decidable ((s.ns q.ns).live = true → q.ucounts ≠ none))
  | .reopen _ | .close _ | .unlink _ | .sysctl _ _ _ | .initNs _ | .clearSbinfo _ =>
    inferInstanceAs (Decidable True)

/-- **The count of a live namespace is the number of its inodes.** -/
def Exact (s : Mqueues) : Prop :=
  ∀ n, (s.ns n).live = true →
    (s.ns n).queuesCount = (s.queues n).length ∧ (s.queues n).length < 2 ^ 32

/-- One namespace changes. -/
theorem Exact.update (h : Exact s) {m : ℕ} (hother : ∀ n, n ≠ m →
      s'.ns n = s.ns n ∧ (s'.queues n).length = (s.queues n).length)
    (hm : (s'.ns m).live = true → (s'.ns m).queuesCount = (s'.queues m).length ∧
      (s'.queues m).length < 2 ^ 32) : Exact s' := by
  intro n hlive
  by_cases hn : n = m
  · subst hn
    exact hm hlive
  · obtain ⟨hns, hlen⟩ := hother n hn
    rw [hns] at hlive ⊢
    rw [hlen]
    exact h n hlive

theorem setNs_other (s : Mqueues) {m : ℕ} (x : MqNs) (hn : n ≠ m) : (s.setNs m x).ns n = s.ns n :=
  Function.update_of_ne hn _ _

theorem setNs_same (s : Mqueues) (m : ℕ) (x : MqNs) : (s.setNs m x).ns m = x :=
  Function.update_self _ _ _

theorem queues_append (s : Mqueues) (q : QueueInode) (n : ℕ) :
    ((s.inodes ++ [q]).filter (·.ns = n)).length =
      (s.queues n).length + if q.ns = n then 1 else 0 := by
  rw [List.filter_append, List.length_append]
  unfold Mqueues.queues
  congr 1
  split <;> simp [*]

theorem queues_erase (hq : q ∈ s.inodes) (n : ℕ) :
    (s.queues n).length =
      ((s.inodes.erase q).filter (·.ns = n)).length + if q.ns = n then 1 else 0 := by
  have hperm := ((List.perm_cons_erase hq).filter (·.ns = n)).length_eq
  unfold Mqueues.queues
  rw [hperm, List.filter_cons]
  split <;> simp_all

theorem queues_modify {f : QueueInode → QueueInode} (hf : ∀ q, (f q).ns = q.ns) (ino n : ℕ) :
    ((s.modify ino f).queues n).length = (s.queues n).length := by
  unfold Mqueues.queues Mqueues.modify
  rw [List.filter_map, List.length_map]
  congr 2
  funext q
  simp only [Function.comp]
  split
  · rw [hf]
  · rfl

theorem incCount_decCount {n : MqNs} (h : n.queuesCount < 2 ^ 32) : n.incCount.decCount = n := by
  have hc : ((n.queuesCount + 1) % 2 ^ 32 + 2 ^ 32 - 1) % 2 ^ 32 = n.queuesCount := by omega
  unfold MqNs.decCount MqNs.incCount
  dsimp only
  rw [hc]

theorem create_exact (h : Exact s) (hlen : (s.queues r.ns).length + 1 < 2 ^ 32) :
    Exact (k.mqueueCreateAttr s r).1 := by
  unfold mqueueCreateAttr
  dsimp only
  split
  · exact h
  next hlive =>
  simp only [Bool.not_eq_true', Bool.not_eq_false] at hlive
  obtain ⟨hcount, hlt⟩ := h r.ns hlive
  split
  · exact h
  split
  · -- the count is lowered again
    refine h.update (m := r.ns) (fun n hn => ⟨setNs_other _ _ hn, rfl⟩) fun _ => ?_
    dsimp only
    rw [setNs_same, incCount_decCount (by omega)]
    exact ⟨hcount, hlt⟩
  · refine h.update (m := r.ns) (fun n hn => ⟨setNs_other _ _ hn, ?_⟩) fun _ => ?_
    · rw [Mqueues.queues, queues_append, if_neg fun he => hn he.symm]
      rfl
    · rw [Mqueues.queues, queues_append, if_pos rfl]
      refine ⟨?_, hlen⟩
      dsimp only
      rw [setNs_same]
      unfold MqNs.incCount
      dsimp only
      rw [hcount, Nat.mod_eq_of_lt hlen]

theorem evict_exact (h : Exact s) (hq : q ∈ s.inodes)
    (huc : (s.ns q.ns).live = true → q.ucounts ≠ none) : Exact (k.mqueueEvictInode s q) := by
  have hlen := queues_erase hq
  have hother : ∀ n, n ≠ q.ns →
      ((s.inodes.erase q).filter (·.ns = n)).length = (s.queues n).length := by
    intro n hn
    rw [hlen n, if_neg fun he => hn he.symm, Nat.add_zero]
  have hsame := hlen q.ns
  rw [if_pos rfl] at hsame
  unfold mqueueEvictInode
  dsimp only
  split
  · next hnone =>
    refine h.update (m := q.ns) (fun n hn => ⟨rfl, hother n hn⟩) fun hlive => ?_
    exact absurd hnone (huc hlive)
  · split
    · next hlive =>
      refine h.update (m := q.ns) (fun n hn => ⟨setNs_other _ _ hn, hother n hn⟩) fun _ => ?_
      obtain ⟨hcount, hlt⟩ := h q.ns hlive
      rw [setNs_same]
      unfold MqNs.decCount Mqueues.queues
      dsimp only [Mqueues.setNs]
      rw [hcount, hsame]
      omega
    · next hdead =>
      refine h.update (m := q.ns) (fun n hn => ⟨rfl, hother n hn⟩) fun hlive => ?_
      exact absurd hlive hdead

theorem modify_exact (h : Exact s) {f : QueueInode → QueueInode} (hf : ∀ q, (f q).ns = q.ns)
    (ino : ℕ) : Exact (s.modify ino f) := by
  intro n hlive
  rw [queues_modify hf]
  exact h n hlive

/-- The count and whether the namespace is live stay. -/
theorem setNs_exact (h : Exact s) {m : ℕ} {x : MqNs}
    (hx : x.live = true → x.queuesCount = (s.queues m).length ∧ (s.queues m).length < 2 ^ 32) :
    Exact (s.setNs m x) := by
  refine h.update (m := m) (fun n hn => ⟨setNs_other _ _ hn, rfl⟩) ?_
  rw [setNs_same]
  exact hx

theorem write_count (x : MqNs) (v : ℤ) (entry : MqEntry) :
    (x.write v entry).live = x.live ∧ (x.write v entry).queuesCount = x.queuesCount := by
  cases entry with
  | queuesMax => exact ⟨rfl, rfl⟩
  | _ =>
    simp only [MqNs.write]
    split <;> exact ⟨rfl, rfl⟩

theorem step_exact {act : InodeAct} (h : Exact s) (hc : Counted s act)
    (hs : k.step s act = some s') : Exact s' := by
  cases act with
  | create r =>
    obtain rfl := Option.some.inj hs
    exact create_exact h hc
  | reopen ino =>
    obtain rfl := Option.some.inj hs
    refine modify_exact h ?_ ino
    exact fun _ => rfl
  | close ino =>
    obtain rfl := Option.some.inj hs
    refine modify_exact h ?_ ino
    exact fun _ => rfl
  | unlink ino =>
    obtain rfl := Option.some.inj hs
    refine modify_exact h ?_ ino
    exact fun _ => rfl
  | evict q =>
    simp only [step] at hs
    split at hs
    · cases hs
    · next hgo =>
      obtain rfl := Option.some.inj hs
      simp only [not_or, Classical.not_not] at hgo
      exact evict_exact h hgo.1 hc
  | sysctl n v entry =>
    obtain rfl := Option.some.inj hs
    obtain ⟨hlive, hcount⟩ := write_count (s.ns n) v entry
    refine setNs_exact h ?_
    rw [hlive, hcount]
    exact h n
  | initNs n =>
    simp only [step] at hs
    split at hs
    · cases hs
    · next hgo =>
      obtain rfl := Option.some.inj hs
      rw [not_or, Classical.not_not] at hgo
      refine setNs_exact h fun _ => ?_
      rw [hgo.2]
      exact ⟨rfl, by decide⟩
  | clearSbinfo n =>
    obtain rfl := Option.some.inj hs
    exact setNs_exact h fun hlive => by cases hlive

theorem attrError_nospc (x : MqNs) (a : Attr) (cap : Bool) : x.attrError a cap ≠ -ENOSPC := by
  have hno : -EINVAL ≠ -ENOSPC ∧ -EOVERFLOW ≠ -ENOSPC ∧ (0 : ℤ) ≠ -ENOSPC := by decide
  unfold MqNs.attrError
  split_ifs
  · exact hno.1
  · exact hno.1
  · exact hno.1
  · exact hno.2.1
  · exact hno.2.1
  · exact hno.2.2

theorem getInode_nospc (k : Kernel) (s : Mqueues) (r : Request) :
    (k.mqueueGetInode s r).2 ≠ .error (-ENOSPC) := by
  have hno : -ENOMEM ≠ -ENOSPC ∧ -EMFILE ≠ -ENOSPC := by decide
  unfold mqueueGetInode
  dsimp only
  split
  · exact fun he => hno.1 (Except.error.inj he)
  split
  · exact fun he => attrError_nospc _ _ _ (Except.error.inj he)
  split
  · nofun
  split
  · exact fun he => hno.2 (Except.error.inj he)
  · nofun

/-- Only the count is a reason for `-ENOSPC`. -/
theorem create_nospc (h : (k.mqueueCreateAttr s r).2 = -ENOSPC) :
    (s.ns r.ns).queuesMax ≤ (s.ns r.ns).queuesCount := by
  have hno : -EACCES ≠ -ENOSPC ∧ (0 : ℤ) ≠ -ENOSPC := by decide
  unfold mqueueCreateAttr at h
  dsimp only at h
  split at h
  · exact absurd h hno.1
  split at h
  · next hmax => exact hmax.1
  split at h
  · next accounts err hg =>
    dsimp only at h
    subst h
    exact absurd (congrArg Prod.snd hg) (getInode_nospc k s r)
  · exact absurd h hno.2

/-- **`mq_queues_count` is exact while every eviction lowers it.**  A task is then
    refused with `-ENOSPC` only where there are `mq_queues_max` queues. -/
theorem queues_count (hrun : RunIf k.step Counted Mqueues.init s)
    (hlive : (s.ns n).live = true) :
    (s.ns n).queuesCount = (s.queues n).length ∧
      ∀ r, r.ns = n → (k.mqueueCreateAttr s r).2 = -ENOSPC →
        (s.ns n).queuesMax ≤ (s.queues n).length := by
  have hexact : Exact s := RunIf.inv hrun nofun fun _ _ _ h hc hs => step_exact h hc hs
  refine ⟨(hexact n hlive).1, ?_⟩
  rintro r rfl hret
  rw [← (hexact r.ns hlive).1]
  exact create_nospc hret

/-- Where the symbols are there and `get_ucounts` takes its references, every
    eviction lowers the count. -/
theorem evict_counted (hk : k.Symbols) (hrun : RunIf k.step Gets Mqueues.init s)
    (hq : q ∈ s.inodes) : Counted s (.evict q) := by
  intro _
  rw [(run_balanced hk hrun).2 q hq]
  nofun

/-- Two queues are made in a namespace, and one goes. -/
theorem queues_count_two : ∃ s : Mqueues, (s.ns 1).queuesCount = 1 := by
  let k : Kernel := ⟨KERNEL_VERSION 6 1 0, true, true, true, flat⟩
  let r : Request := ⟨1, 7, none, false, 200000, true, true, true⟩
  obtain ⟨s, hrun, ht⟩ := execIf_check k.step (fun s act => decide (Counted s act))
    (fun _ _ h => of_decide_eq_true h) Mqueues.init
    [.initNs 1, .create r, .create r, .unlink 0, .close 0,
      .evict ⟨0, 1, 7, ⟨10, 8192⟩, some 7, false, 0⟩]
    (fun s => (s.ns 1).live ∧ (s.queues 1).length = 1) (by decide)
  obtain ⟨hlive, hlen⟩ := of_decide_eq_true ht
  exact ⟨s, (queues_count hrun hlive).1.trans hlen⟩

/-- **On 5.10 the count is never lowered by an eviction.** -/
theorem queues_miscounted : ¬∀ (k : Kernel) (s : Mqueues) (n : ℕ),
    Run k.step Mqueues.init s → (s.ns n).live = true →
      (s.ns n).queuesCount = (s.queues n).length := by
  intro hall
  let k : Kernel := ⟨KERNEL_VERSION 5 10 0, true, true, true, flat⟩
  let r : Request := ⟨1, 7, none, false, 200000, true, true, true⟩
  obtain ⟨s, hrun, ht⟩ := exec_check k.step Mqueues.init
    [.initNs 1, .create r, .unlink 0, .close 0, .evict ⟨0, 1, 7, ⟨10, 8192⟩, none, false, 0⟩]
    (fun s => (s.ns 1).live ∧ (s.ns 1).queuesCount = 1 ∧ s.queues 1 = []) (by decide)
  obtain ⟨hlive, hcount, hnil⟩ := of_decide_eq_true ht
  have := hall k s 1 hrun hlive
  rw [hcount, hnil] at this
  cases this

end DroidLkm.Mq.Kernel
