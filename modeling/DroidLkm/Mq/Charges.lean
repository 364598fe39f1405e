/-
  POSIX message queues — the charges balance.

  * `Attr.bytes`: what a queue is charged, in exact numbers; `Admitted.bytes`:
    where the attributes are admitted, this is what both functions compute;
  * `create_cases`: what `mqueue_create_attr` does;
  * `Balanced`: each account is the sum over the queues charged to it;
  * `charges_balance`: so it is after every run in which `get_ucounts` takes its
    references;
  * `charges_missing`: without one a queue is charged to nobody.
-/
import DroidLkm.Mq.Inodes
import DroidLkm.Lib.Sums

namespace DroidLkm.Mq

open Machine

namespace Attr

/-- What a queue is charged. -/
def bytes (a : Attr) : ℕ :=
  a.maxmsg.toNat * sizeofMsgMsg + min a.maxmsg.toNat MQ_PRIO_MAX * sizeofNode +
    a.maxmsg.toNat * a.msgsize.toNat

/-- The bounds that the checks leave. -/
structure Admitted (a : Attr) : Prop where
  maxmsg : 0 < a.maxmsg ∧ a.maxmsg ≤ DROID_LKM_HARD_MSGMAX
  msgsize : 0 < a.msgsize ∧ a.msgsize ≤ DROID_LKM_HARD_MSGSIZEMAX

variable {a : Attr}

theorem Admitted.lt (h : a.Admitted) : a.bytes < 2 ^ 41 := by
  obtain ⟨⟨-, hm⟩, ⟨-, hs⟩⟩ := h
  unfold DROID_LKM_HARD_MSGMAX at hm
  unfold DROID_LKM_HARD_MSGSIZEMAX at hs
  have hm : a.maxmsg.toNat ≤ 65536 := by omega
  have hs : a.msgsize.toNat ≤ 16 * 1024 * 1024 := by omega
  have hprod := Nat.mul_le_mul hm hs
  have hmin := Nat.min_le_right a.maxmsg.toNat MQ_PRIO_MAX
  unfold bytes sizeofMsgMsg sizeofNode
  unfold MQ_PRIO_MAX at hmin ⊢
  omega

/-- Nothing overflows, not even the 32 bits of the minimum. -/
theorem Admitted.exact (h : a.Admitted) :
    a.msgBytes = a.maxmsg.toNat * a.msgsize.toNat ∧
      a.treesize =
        a.maxmsg.toNat * sizeofMsgMsg + min a.maxmsg.toNat MQ_PRIO_MAX * sizeofNode ∧
      a.mqBytes = a.bytes ∧ a.evictBytes = a.bytes := by
  have hlt := h.lt
  have hm : a.maxmsg.toNat < 2 ^ 32 := by
    have := h.maxmsg.2
    unfold DROID_LKM_HARD_MSGMAX at this
    omega
  unfold bytes at hlt
  have hmsg : a.msgBytes = a.maxmsg.toNat * a.msgsize.toNat := by
    unfold msgBytes
    exact Nat.mod_eq_of_lt (by omega)
  have htree : a.treesize =
      a.maxmsg.toNat * sizeofMsgMsg + min a.maxmsg.toNat MQ_PRIO_MAX * sizeofNode := by
    unfold treesize
    rw [Nat.mod_eq_of_lt hm]
    exact Nat.mod_eq_of_lt (by omega)
  refine ⟨hmsg, htree, ?_, ?_⟩
  · unfold mqBytes bytes
    rw [hmsg, htree, Nat.mod_eq_of_lt (by omega)]
    omega
  · unfold evictBytes bytes
    rw [hmsg, htree, Nat.mod_eq_of_lt (by omega)]

end Attr

namespace MqNs

/-- The bounds of the limits. -/
structure Bounded (n : MqNs) : Prop where
  msgMax : n.msgMax ≤ DROID_LKM_HARD_MSGMAX
  msgsizeMax : n.msgsizeMax ≤ DROID_LKM_HARD_MSGSIZEMAX

variable {n : MqNs} {a : Attr} {cap : Bool}

theorem Bounded.incCount (h : n.Bounded) : n.incCount.Bounded := ⟨h.msgMax, h.msgsizeMax⟩

theorem Bounded.decCount (h : n.Bounded) : n.decCount.Bounded := by
  have hmax := h.msgMax
  have hsize := h.msgsizeMax
  unfold MqNs.decCount
  constructor
  · exact hmax
  · exact hsize

theorem Bounded.write (h : n.Bounded) (v : ℤ) (entry : MqEntry) : (n.write v entry).Bounded := by
  have hv : 0 ≤ DROID_LKM_MIN_MSGMAX ∧ 0 ≤ DROID_LKM_MIN_MSGSIZEMAX := by decide
  cases entry with
  | queuesMax => exact ⟨h.msgMax, h.msgsizeMax⟩
  | msgMax =>
    simp only [MqNs.write]
    split
    · exact ⟨by dsimp only; omega, h.msgsizeMax⟩
    · exact h
  | msgsizeMax =>
    simp only [MqNs.write]
    split
    · exact ⟨h.msgMax, by dsimp only; omega⟩
    · exact h
  | msgDefault =>
    simp only [MqNs.write]
    split
    · exact ⟨h.msgMax, h.msgsizeMax⟩
    · exact h
  | msgsizeDefault =>
    simp only [MqNs.write]
    split
    · exact ⟨h.msgMax, h.msgsizeMax⟩
    · exact h

/-- What the checks of `mqueue_get_inode` leave. -/
theorem Bounded.admitted (h : n.Bounded) (h0 : n.attrError a cap = 0) : a.Admitted := by
  have hmax := h.msgMax
  have hsize := h.msgsizeMax
  unfold attrError at h0
  by_cases hpos : a.maxmsg ≤ 0 ∨ a.msgsize ≤ 0
  · rw [if_pos hpos] at h0
    cases h0
  rw [if_neg hpos] at h0
  by_cases hhard : cap ∧
      (DROID_LKM_HARD_MSGMAX < a.maxmsg ∨ DROID_LKM_HARD_MSGSIZEMAX < a.msgsize)
  · rw [if_pos hhard] at h0
    cases h0
  rw [if_neg hhard] at h0
  by_cases hns : ¬cap ∧ (n.msgMax < a.maxmsg ∨ n.msgsizeMax < a.msgsize)
  · rw [if_pos hns] at h0
    cases h0
  cases cap with
  | true =>
    simp only [true_and, not_or, Int.not_lt] at hhard
    exact ⟨⟨by omega, hhard.1⟩, ⟨by omega, hhard.2⟩⟩
  | false =>
    simp only [Bool.false_eq_true, not_false_eq_true, true_and, not_or, Int.not_lt] at hns
    exact ⟨⟨by omega, by omega⟩, ⟨by omega, by omega⟩⟩

end MqNs

/-! ## The accounts -/

theorem long_of_lt {x : ℤ} (h : -2 ^ 63 ≤ x) (h' : x < 2 ^ 63) : long x = x := by
  unfold long Int.bmod
  dsimp only
  split <;> omega

theorem long_bytes {bytes : ℕ} (h : bytes < 2 ^ 41) : long bytes = bytes :=
  long_of_lt (by omega) (by omega)

/-- Where a `long` is not negative, it has not overflowed. -/
theorem long_nonneg {x : ℤ} (h : 0 ≤ x) (h' : x < 2 ^ 64) (hx : ¬long x < 0) : x < 2 ^ 63 := by
  unfold long Int.bmod at hx
  dsimp only at hx
  split at hx <;> omega

/-- What was added is taken back, overflow or not. -/
theorem long_add_sub {x v : ℤ} (h : -2 ^ 63 ≤ x) (h' : x < 2 ^ 63) :
    long (long (x + v) - v) = x := by
  unfold long Int.bmod
  dsimp only
  split <;> split <;> omega

namespace Kernel

/-- The symbols of the ucounts are there. -/
structure Symbols (k : Kernel) : Prop where
  versionCode : KERNEL_VERSION 5 11 0 ≤ k.versionCode
  get : k.ksUcountsGet ∨ KERNEL_VERSION 6 18 0 ≤ k.versionCode
  inc : k.ksUcountsIncRlimit
  dec : k.ksUcountsDecRlimit

/-- The queue is charged to the account. -/
def chargedTo (k : Kernel) (a : ℕ) (q : QueueInode) : Bool :=
  q.ucounts.any fun u => a ∈ k.ucounts.chain u

/-- What queues are charged to an account. -/
def owed (k : Kernel) (l : List QueueInode) (a : ℕ) : ℕ :=
  ((l.filter (k.chargedTo a)).map fun q => q.attr.bytes).sum

variable {k : Kernel} {s s' : Mqueues} {q : QueueInode} {l : List QueueInode} {r : Request}
  {acc : ℕ → ℤ} {u bytes a : ℕ} {attr : Attr} {ucounts : Option ℕ}

theorem owed_append (l l' : List QueueInode) (a : ℕ) :
    k.owed (l ++ l') a = k.owed l a + k.owed l' a := by
  unfold owed
  rw [List.filter_append, List.map_append, List.sum_append]

theorem owed_perm {l' : List QueueInode} (h : l.Perm l') (a : ℕ) : k.owed l a = k.owed l' a :=
  ((h.filter _).map _).sum_nat

theorem owed_single (q : QueueInode) (a : ℕ) :
    k.owed [q] a = if k.chargedTo a q then q.attr.bytes else 0 := by
  unfold owed
  cases hc : k.chargedTo a q <;> simp [hc]

theorem owed_erase (hq : q ∈ l) (a : ℕ) : k.owed l a = k.owed [q] a + k.owed (l.erase q) a := by
  rw [← owed_append]
  exact owed_perm (List.perm_cons_erase hq) a

/-- The owners of files and names do not matter. -/
theorem owed_map {f : QueueInode → QueueInode}
    (hf : ∀ q, (f q).attr = q.attr ∧ (f q).ucounts = q.ucounts) (l : List QueueInode) (a : ℕ) :
    k.owed (l.map f) a = k.owed l a := by
  unfold owed
  rw [List.filter_map, List.map_map]
  have hp : k.chargedTo a ∘ f = k.chargedTo a := by
    funext q
    simp only [Function.comp, chargedTo, (hf q).2]
  have hb : (fun q : QueueInode => q.attr.bytes) ∘ f = fun q => q.attr.bytes := by
    funext q
    simp only [Function.comp, (hf q).1]
  rw [hp, hb]

/-- No account is over what a `long` holds. -/
def Small (acc : ℕ → ℤ) : Prop := ∀ a, 0 ≤ acc a ∧ acc a < 2 ^ 63

theorem charge_apply (hk : k.Symbols) (hb : bytes < 2 ^ 41) (a : ℕ) :
    (k.ucountsCharge acc u bytes).1 a =
      if a ∈ k.ucounts.chain u then long (acc a + bytes) else acc a := by
  unfold ucountsCharge
  rw [if_pos ⟨hk.versionCode, hk.inc⟩, k.ucounts.inc_apply, long_bytes hb]

theorem uncharge_apply (hk : k.Symbols) (hb : bytes < 2 ^ 41) (a : ℕ) :
    k.ucountsUncharge acc u bytes a =
      if a ∈ k.ucounts.chain u then long (acc a - bytes) else acc a := by
  unfold ucountsUncharge
  rw [if_pos ⟨hk.versionCode, hk.dec⟩, k.ucounts.dec_apply, long_bytes hb]

/-- A charge that does not overflow. -/
theorem charge_fits (hk : k.Symbols) (hb : bytes < 2 ^ 41) (hs : Small acc)
    (hret : (k.ucountsCharge acc u bytes).2 ≠ LONG_MAX) (a : ℕ) :
    (k.ucountsCharge acc u bytes).1 a =
        acc a + (if a ∈ k.ucounts.chain u then (bytes : ℤ) else 0) ∧
      (k.ucountsCharge acc u bytes).1 a < 2 ^ 63 := by
  obtain ⟨h0, h1⟩ := hs a
  rw [charge_apply hk hb]
  split
  · next ha =>
    have hfit : acc a + bytes < 2 ^ 63 := by
      refine long_nonneg (by omega) (by omega) fun hneg => hret ?_
      unfold ucountsCharge
      rw [if_pos ⟨hk.versionCode, hk.inc⟩]
      refine k.ucounts.inc_overflow acc u _ a ha ?_
      rwa [long_bytes hb]
    rw [long_of_lt (by omega) hfit]
    exact ⟨rfl, hfit⟩
  · exact ⟨(add_zero _).symm, h1⟩

/-- **A charge that is refused is taken back.** -/
theorem charge_undone (hk : k.Symbols) (hb : bytes < 2 ^ 41) (hs : Small acc) :
    k.ucountsUncharge (k.ucountsCharge acc u bytes).1 u bytes = acc := by
  funext a
  obtain ⟨h0, h1⟩ := hs a
  rw [uncharge_apply hk hb, charge_apply hk hb]
  split
  · exact long_add_sub (by omega) h1
  · rfl

/-! ## Making a queue -/

/-- What `droid_lkm_mq_ucounts_get` returns. -/
theorem ucountsGet_eq (hk : k.Symbols) (user : ℕ) (get : Bool) :
    k.ucountsGet user get = if get then some user else none := by
  unfold ucountsGet
  rw [if_neg (Nat.not_lt.2 hk.versionCode), if_pos]
  rw [Bool.or_eq_true, decide_eq_true_eq]
  exact hk.get

/-- Where no inode is made, nothing is charged. -/
theorem getInode_error {err : ℤ} (hk : k.Symbols) (hb : (s.ns r.ns).Bounded)
    (hs : Small s.accounts) (h : k.mqueueGetInode s r = (acc, .error err)) :
    acc = s.accounts ∧ err ≠ 0 := by
  unfold mqueueGetInode at h
  dsimp only at h
  split at h
  · cases h
    exact ⟨rfl, by decide⟩
  split at h
  · next hne =>
    cases h
    exact ⟨rfl, hne⟩
  next hadm =>
  split at h
  · cases h
  split at h
  · cases h
    have hadm := hb.admitted (Classical.not_not.1 hadm)
    refine ⟨charge_undone hk ?_ hs, by decide⟩
    rw [hadm.exact.2.2.1]
    exact hadm.lt
  · cases h

/-- An inode is made with attributes that are admitted, and is charged. -/
theorem getInode_ok (hk : k.Symbols) (hb : (s.ns r.ns).Bounded) (hs : Small s.accounts)
    (h : k.mqueueGetInode s r = (acc, .ok (attr, ucounts))) :
    attr.Admitted ∧ ucounts = (if r.get then some r.user else none) ∧
      ∀ a, acc a = s.accounts a +
          (if ucounts.any fun u => a ∈ k.ucounts.chain u then (attr.bytes : ℤ) else 0) ∧
        acc a < 2 ^ 63 := by
  unfold mqueueGetInode at h
  dsimp only at h
  split at h
  · cases h
  split at h
  · cases h
  next hadm =>
  have hadm := hb.admitted (Classical.not_not.1 hadm)
  rw [ucountsGet_eq hk] at h
  cases hg : r.get with
  | false =>
    rw [hg] at h
    cases h
    exact ⟨hadm, rfl, fun a => ⟨(add_zero _).symm, (hs a).2⟩⟩
  | true =>
    rw [hg] at h
    simp only [if_true] at h
    split at h
    · cases h
    next hret =>
    rw [not_or] at hret
    obtain ⟨rfl, hok⟩ := Prod.mk.inj h
    obtain ⟨rfl, rfl⟩ := Prod.mk.inj (Except.ok.inj hok)
    refine ⟨hadm, rfl, fun a => ?_⟩
    rw [hadm.exact.2.2.1] at hret ⊢
    have hfits := charge_fits hk hadm.lt hs hret.1 a
    simpa using hfits

/-- **Accounts in balance.** -/
structure Balanced (k : Kernel) (s : Mqueues) : Prop where
  bounded : ∀ n, (s.ns n).Bounded
  admitted : ∀ q ∈ s.inodes, q.attr.Admitted
  accounts : ∀ a, s.accounts a = k.owed s.inodes a
  lt : ∀ a, s.accounts a < 2 ^ 63

theorem Balanced.small (h : k.Balanced s) : Small s.accounts := by
  intro a
  refine ⟨?_, h.lt a⟩
  rw [h.accounts]
  exact Int.natCast_nonneg _

/-- A namespace changes, but not the limits. -/
theorem bounded_update {ns : ℕ → MqNs} (h : ∀ n, (ns n).Bounded) {m : ℕ} {x : MqNs}
    (hx : x.Bounded) (n : ℕ) : (Function.update ns m x n).Bounded := by
  by_cases hn : n = m
  · subst hn
    rwa [Function.update_self]
  · rw [Function.update_of_ne hn]
    exact h n

/-- **A queue that is refused charges nothing, one that is made is charged.** -/
theorem create_balanced (hk : k.Symbols) (h : k.Balanced s) (r : Request) :
    k.Balanced (k.mqueueCreateAttr s r).1 ∧
      ((k.mqueueCreateAttr s r).2 ≠ 0 →
        (k.mqueueCreateAttr s r).1.accounts = s.accounts) := by
  unfold mqueueCreateAttr
  dsimp only
  split
  · exact ⟨h, fun _ => rfl⟩
  split
  · exact ⟨h, fun _ => rfl⟩
  split
  · next accounts err hg =>
    obtain ⟨rfl, -⟩ := getInode_error hk (h.bounded r.ns) h.small hg
    exact ⟨⟨bounded_update h.bounded (h.bounded r.ns).incCount.decCount, h.admitted, h.accounts,
      h.lt⟩, fun _ => rfl⟩
  · next accounts attr ucounts hg =>
    obtain ⟨hadm, -, hacc⟩ := getInode_ok hk (h.bounded r.ns) h.small hg
    refine ⟨⟨bounded_update h.bounded (h.bounded r.ns).incCount, ?_, ?_, fun a => (hacc a).2⟩,
      fun h0 => absurd rfl h0⟩
    · intro q hq
      rcases List.mem_append.1 hq with hq | hq
      · exact h.admitted q hq
      · rw [List.mem_singleton.1 hq]
        exact hadm
    · intro a
      dsimp only
      rw [owed_append, owed_single, (hacc a).1, h.accounts a, Nat.cast_add]
      congr 1
      unfold chargedTo
      dsimp only
      split <;> rfl

/-- **The refund is what was charged.** -/
theorem evict_balanced (hk : k.Symbols) (h : k.Balanced s) (hq : q ∈ s.inodes) :
    k.Balanced (k.mqueueEvictInode s q) := by
  have hadm := h.admitted q hq
  have hrest : ∀ p ∈ s.inodes.erase q, p.attr.Admitted :=
    fun p hp => h.admitted p (List.mem_of_mem_erase hp)
  have hsplit := fun a => owed_erase (k := k) hq a
  unfold mqueueEvictInode
  dsimp only
  split
  · next hu =>
    -- it was never charged
    refine ⟨h.bounded, hrest, fun a => ?_, h.lt⟩
    rw [h.accounts a, hsplit, owed_single]
    simp [chargedTo, hu]
  · next u hu =>
    have hacc : ∀ a, k.ucountsUncharge s.accounts u q.attr.evictBytes a =
        k.owed (s.inodes.erase q) a := by
      intro a
      have hle := h.lt a
      have ha := h.accounts a
      rw [hsplit, owed_single] at ha
      rw [hadm.exact.2.2.2, uncharge_apply hk hadm.lt]
      simp only [chargedTo, hu, Option.any_some, decide_eq_true_eq] at ha
      split
      · next hmem =>
        rw [if_pos hmem] at ha
        rw [ha, Nat.cast_add, long_of_lt (by omega) (by omega)]
        omega
      · next hmem =>
        rw [if_neg hmem] at ha
        rw [ha, Nat.zero_add]
    have hlt : ∀ a, k.ucountsUncharge s.accounts u q.attr.evictBytes a < 2 ^ 63 := by
      intro a
      have ha := h.accounts a
      have hlt := h.lt a
      rw [hsplit] at ha
      rw [hacc]
      omega
    split
    · exact ⟨bounded_update h.bounded (h.bounded q.ns).decCount, hrest, hacc, hlt⟩
    · exact ⟨h.bounded, hrest, hacc, hlt⟩

theorem modify_balanced {f : QueueInode → QueueInode} (h : k.Balanced s)
    (hf : ∀ q, (f q).attr = q.attr ∧ (f q).ucounts = q.ucounts) (ino : ℕ) :
    k.Balanced (s.modify ino f) := by
  have hg : ∀ q : QueueInode, (if q.ino = ino then f q else q).attr = q.attr ∧
      (if q.ino = ino then f q else q).ucounts = q.ucounts := by
    intro q
    split
    · exact hf q
    · exact ⟨rfl, rfl⟩
  refine ⟨h.bounded, ?_, ?_, h.lt⟩
  · intro q hq
    obtain ⟨p, hp, rfl⟩ := List.mem_map.1 hq
    rw [(hg p).1]
    exact h.admitted p hp
  · intro a
    exact (h.accounts a).trans (congrArg Nat.cast (owed_map hg s.inodes a).symm)

theorem setNs_balanced (h : k.Balanced s) {n : ℕ} {x : MqNs} (hx : x.Bounded) :
    k.Balanced (s.setNs n x) :=
  ⟨bounded_update h.bounded hx, h.admitted, h.accounts, h.lt⟩

theorem init_bounded : MqNs.init.Bounded := ⟨by decide, by decide⟩

theorem dead_bounded {n : MqNs} (h : n.Bounded) : { n with live := false }.Bounded :=
  ⟨h.msgMax, h.msgsizeMax⟩

theorem step_balanced {act : InodeAct} (hk : k.Symbols) (h : k.Balanced s)
    (hs : k.step s act = some s') : k.Balanced s' := by
  cases act with
  | create r =>
    obtain rfl := Option.some.inj hs
    exact (create_balanced hk h r).1
  | reopen ino =>
    obtain rfl := Option.some.inj hs
    refine modify_balanced h ?_ ino
    exact fun _ => ⟨rfl, rfl⟩
  | close ino =>
    obtain rfl := Option.some.inj hs
    refine modify_balanced h ?_ ino
    exact fun _ => ⟨rfl, rfl⟩
  | unlink ino =>
    obtain rfl := Option.some.inj hs
    refine modify_balanced h ?_ ino
    exact fun _ => ⟨rfl, rfl⟩
  | evict q =>
    simp only [step] at hs
    split at hs
    · cases hs
    · next hgo =>
      obtain rfl := Option.some.inj hs
      simp only [not_or, Classical.not_not] at hgo
      exact evict_balanced hk h hgo.1
  | sysctl n v entry =>
    obtain rfl := Option.some.inj hs
    exact setNs_balanced h ((h.bounded n).write v entry)
  | initNs n =>
    simp only [step] at hs
    split at hs
    · cases hs
    · obtain rfl := Option.some.inj hs
      exact setNs_balanced h init_bounded
  | clearSbinfo n =>
    obtain rfl := Option.some.inj hs
    exact setNs_balanced h (dead_bounded (h.bounded n))

/-- `get_ucounts` takes the reference. -/
def gets : InodeAct → Bool
  | .create r => r.get
  | _ => true

def Gets (_ : Mqueues) (act : InodeAct) : Prop := gets act = true

/-- A queue is charged to who made it. -/
def Owned (s : Mqueues) : Prop := ∀ q ∈ s.inodes, q.ucounts = some q.creator

theorem modify_owned {f : QueueInode → QueueInode} (h : Owned s)
    (hf : ∀ q, (f q).creator = q.creator ∧ (f q).ucounts = q.ucounts) (ino : ℕ) :
    Owned (s.modify ino f) := by
  intro q hq
  obtain ⟨p, hp, rfl⟩ := List.mem_map.1 hq
  split
  · rw [(hf p).1, (hf p).2]
    exact h p hp
  · exact h p hp

theorem evict_inodes (k : Kernel) (s : Mqueues) (q : QueueInode) :
    (k.mqueueEvictInode s q).inodes = s.inodes.erase q := by
  unfold mqueueEvictInode
  dsimp only
  split
  · rfl
  split <;> rfl

theorem create_owned (hk : k.Symbols) (hb : k.Balanced s) (h : Owned s) (hget : r.get = true) :
    Owned (k.mqueueCreateAttr s r).1 := by
  unfold mqueueCreateAttr
  dsimp only
  split
  · exact h
  split
  · exact h
  split
  · exact h
  · next accounts attr ucounts hg =>
    intro q hq
    rcases List.mem_append.1 hq with hq | hq
    · exact h q hq
    · rw [List.mem_singleton.1 hq]
      have huc := (getInode_ok hk (hb.bounded r.ns) hb.small hg).2.1
      rwa [hget, if_pos rfl] at huc

theorem step_owned {act : InodeAct} (hk : k.Symbols) (hb : k.Balanced s) (h : Owned s)
    (hget : Gets s act) (hs : k.step s act = some s') : Owned s' := by
  cases act with
  | create r =>
    obtain rfl := Option.some.inj hs
    exact create_owned hk hb h hget
  | reopen ino =>
    obtain rfl := Option.some.inj hs
    refine modify_owned h ?_ ino
    exact fun _ => ⟨rfl, rfl⟩
  | close ino =>
    obtain rfl := Option.some.inj hs
    refine modify_owned h ?_ ino
    exact fun _ => ⟨rfl, rfl⟩
  | unlink ino =>
    obtain rfl := Option.some.inj hs
    refine modify_owned h ?_ ino
    exact fun _ => ⟨rfl, rfl⟩
  | evict q =>
    simp only [step] at hs
    split at hs
    · cases hs
    · obtain rfl := Option.some.inj hs
      intro p hp
      rw [evict_inodes] at hp
      exact h p (List.mem_of_mem_erase hp)
  | sysctl n v entry =>
    obtain rfl := Option.some.inj hs
    exact h
  | initNs n =>
    simp only [step] at hs
    split at hs
    · cases hs
    · obtain rfl := Option.some.inj hs
      exact h
  | clearSbinfo n =>
    obtain rfl := Option.some.inj hs
    exact h

theorem run_balanced (hk : k.Symbols) (hrun : RunIf k.step Gets Mqueues.init s) :
    k.Balanced s ∧ Owned s := by
  refine RunIf.inv (I := fun s => k.Balanced s ∧ Owned s) hrun ?_ ?_
  · have hb : ∀ n, (Mqueues.init.ns n).Bounded := fun _ => dead_bounded init_bounded
    exact ⟨⟨hb, nofun, fun _ => rfl, fun _ => Int.pow_pos (by decide)⟩, nofun⟩
  · rintro s act s' ⟨hb, ho⟩ hget hs
    exact ⟨step_balanced hk hb hs, step_owned hk hb ho hget hs⟩

/-- **The charges balance.**  After every run, an account has been charged what the
    queues cost that were made by its user, or in a user namespace below one of
    theirs, and are there; no product overflows for attributes that are admitted;
    a queue that is refused changes no account; and an account none of whose
    queues is left is at 0. -/
theorem charges_balance (hk : k.Symbols) (hrun : RunIf k.step Gets Mqueues.init s) :
    (∀ a, s.accounts a = ((s.inodes.filter fun q => a ∈ k.ucounts.chain q.creator).map
        fun q => q.attr.bytes).sum) ∧
      (∀ n attr cap, (s.ns n).attrError attr cap = 0 →
        attr.msgBytes = attr.maxmsg.toNat * attr.msgsize.toNat ∧
        attr.treesize = attr.maxmsg.toNat * sizeofMsgMsg +
          min attr.maxmsg.toNat MQ_PRIO_MAX * sizeofNode ∧
        attr.mqBytes = attr.bytes ∧ attr.evictBytes = attr.bytes) ∧
      (∀ r, (k.mqueueCreateAttr s r).2 ≠ 0 →
        (k.mqueueCreateAttr s r).1.accounts = s.accounts) ∧
      ∀ a, (∀ q ∈ s.inodes, a ∉ k.ucounts.chain q.creator) → s.accounts a = 0 := by
  obtain ⟨hb, ho⟩ := run_balanced hk hrun
  have hsum : ∀ a, s.accounts a = ((s.inodes.filter fun q => a ∈ k.ucounts.chain q.creator).map
      fun q => q.attr.bytes).sum := by
    intro a
    rw [hb.accounts a, owed, List.filter_congr]
    intro q hq
    rw [chargedTo, ho q hq, Option.any_some]
  refine ⟨hsum, ?_, fun r => (create_balanced hk hb r).2, ?_⟩
  · exact fun n attr cap h0 => ((hb.bounded n).admitted h0).exact
  · intro a hnone
    rw [hsum a, List.filter_eq_nil_iff.2 fun q hq => by simpa using hnone q hq]
    rfl

/-- One user namespace, without a limit. -/
def flat : Ucounts where
  chain := fun u => [u]
  inc := fun acc u v => (Function.update acc u (long (acc u + v)),
    if long (acc u + v) < 0 then LONG_MAX else long (acc u + v))
  dec := fun acc u v => Function.update acc u (long (acc u - v))
  self_mem := fun u => List.mem_singleton.2 rfl
  inc_apply := fun acc u v a => by
    by_cases ha : a = u
    · simp [ha]
    · simp [ha]
  inc_overflow := fun acc u v a ha hneg => by
    rw [List.mem_singleton.1 ha] at hneg
    exact if_pos hneg
  dec_apply := fun acc u v a => by
    by_cases ha : a = u
    · simp [ha]
    · simp [ha]

/-- A user makes two queues, a third is over the limit, and one of the two goes. -/
theorem charges_balance_two : ∃ s : Mqueues, s.inodes.length = 1 ∧ s.accounts 7 = 82880 := by
  let k : Kernel := ⟨KERNEL_VERSION 6 1 0, true, true, true, flat⟩
  let r : Request := ⟨1, 7, none, false, 200000, true, true, true⟩
  obtain ⟨s, hrun, ht⟩ := execIf_check k.step (fun _ act => gets act) (fun _ _ h => h) Mqueues.init
    [.initNs 1, .create r, .create r, .create r, .unlink 0, .close 0,
      .evict ⟨0, 1, 7, ⟨10, 8192⟩, some 7, false, 0⟩]
    (fun s => s.inodes = [⟨1, 1, 7, ⟨10, 8192⟩, some 7, true, 1⟩]) (by decide)
  have hinodes := of_decide_eq_true ht
  have hk : k.Symbols := ⟨by decide, Or.inl rfl, rfl, rfl⟩
  refine ⟨s, by rw [hinodes]; rfl, ?_⟩
  rw [(charges_balance hk hrun).1, hinodes]
  decide

/-- **A queue for which `get_ucounts` takes no reference is charged to nobody.** -/
theorem charges_missing : ¬∀ (k : Kernel) (s : Mqueues), k.Symbols → Run k.step Mqueues.init s →
    ∀ a, s.accounts a = ((s.inodes.filter fun q => a ∈ k.ucounts.chain q.creator).map
      fun q => q.attr.bytes).sum := by
  intro hall
  let k : Kernel := ⟨KERNEL_VERSION 6 1 0, true, true, true, flat⟩
  obtain ⟨s, hrun, ht⟩ := exec_check k.step Mqueues.init
    [.initNs 1, .create ⟨1, 7, none, false, 200000, true, false, true⟩]
    (fun s => s.inodes = [⟨0, 1, 7, ⟨10, 8192⟩, none, true, 1⟩] ∧ s.accounts 7 = 0) (by decide)
  obtain ⟨hinodes, hzero⟩ := of_decide_eq_true ht
  have hsum := hall k s ⟨by decide, Or.inl rfl, rfl, rfl⟩ hrun 7
  rw [hinodes, hzero] at hsum
  revert hsum
  decide

end Kernel

end DroidLkm.Mq
