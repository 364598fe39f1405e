/-
  Pid namespaces: the tree, and who is confined to which part of it.

  * `Forest`: every pid namespace made by the module is one level below its
    parent, which was there before it; `Pids` is what a call does to the tree;
  * `Local`: what a call by `t` leaves alone: the proxies that were there and
    the other tasks;
  * `Stands`: the namespace for children of a task is below a given one; one
    lemma for each function says where the caller and the child stand;
  * `pidnsAncestor_walk`: the loop of `droid_lkm_pidns_install` ends;
  * `confinement`: in every reachable state.
-/
import DroidLkm.Lib.Ancestry
import DroidLkm.Slot.Proxies

namespace DroidLkm.Slot.Kernel

open Machine

variable {k k' k₁ k₂ : Kernel} {t c tsk p q n a b T : ℕ} {new : Option ℕ} {flags : Flags} {e : Env}
  {x y : Nsproxy} {newPid newIpc : Option ℕ} {err : ℤ}

/-! ## The tree -/

/-- `a` is `n` or an ancestor of `n`. -/
def Below (k : Kernel) (a n : ℕ) : Prop := Ancestry.Below (fun n => (k.pidns n).parent) 0 a n

/-- Levels and parents fit, down from `init_pid_ns`. -/
def Forest (k : Kernel) : Prop :=
  Ancestry.Levelled (fun n => (k.pidns n).parent) (fun n => (k.pidns n).level) 0 (· < k.nextPid)

/-- Pid namespaces may be made, and none is moved. -/
structure Pids (k k' : Kernel) : Prop where
  next : k.nextPid ≤ k'.nextPid
  tree : ∀ n < k.nextPid, (k'.pidns n).parent = (k.pidns n).parent ∧
    (k'.pidns n).level = (k.pidns n).level
  forest : Forest k → Forest k'

theorem Pids.trans (h : Pids k k₁) (h' : Pids k₁ k₂) : Pids k k₂ := by
  refine ⟨Nat.le_trans h.next h'.next, ?_, fun hf => h'.forest (h.forest hf)⟩
  intro n hn
  obtain ⟨hp, hl⟩ := h.tree n hn
  obtain ⟨hp', hl'⟩ := h'.tree n (Nat.lt_of_lt_of_le hn h.next)
  exact ⟨hp'.trans hp, hl'.trans hl⟩

/-- Counters of references do not matter. -/
theorem Pids.of_same (hnext : k'.nextPid = k.nextPid)
    (htree : ∀ n, (k'.pidns n).parent = (k.pidns n).parent ∧
      (k'.pidns n).level = (k.pidns n).level) : Pids k k' := by
  refine ⟨Nat.le_of_eq hnext.symm, fun n _ => htree n, ?_⟩
  intro hf
  have hparent : (fun n => (k'.pidns n).parent) = fun n => (k.pidns n).parent :=
    funext fun n => (htree n).1
  have hlevel : (fun n => (k'.pidns n).level) = fun n => (k.pidns n).level :=
    funext fun n => (htree n).2
  unfold Forest
  rw [hparent, hlevel, hnext]
  exact hf

theorem Pids.of_eq (hpidns : k'.pidns = k.pidns) (hnext : k'.nextPid = k.nextPid) : Pids k k' :=
  Pids.of_same hnext fun n => by rw [hpidns]; exact ⟨rfl, rfl⟩

theorem Pids.refl (k : Kernel) : Pids k k := Pids.of_eq rfl rfl

theorem pidnsPut_pids (k : Kernel) (n : Option ℕ) : Pids k (k.pidnsPut n) := by
  cases n with
  | none => exact Pids.refl k
  | some n =>
    dsimp only [Kernel.pidnsPut]
    split
    · exact Pids.refl k
    · refine Pids.of_same rfl ?_
      intro m
      by_cases hm : m = n
      · subst hm
        simp
      · simp [hm]

theorem ipcnsPut_pids (k : Kernel) (n : Option ℕ) : Pids k (k.ipcnsPut n) := by
  cases n with
  | none => exact Pids.refl k
  | some n =>
    dsimp only [Kernel.ipcnsPut]
    split_ifs <;> exact Pids.of_eq rfl rfl

theorem putNew_pids (k : Kernel) (newPid newIpc : Option ℕ) : Pids k (k.putNew newPid newIpc) :=
  (pidnsPut_pids k newPid).trans (ipcnsPut_pids _ newIpc)

theorem nsproxyDrop_pids (k : Kernel) (n : Option ℕ) : Pids k (k.nsproxyDrop n) := by
  cases n with
  | none => exact Pids.refl k
  | some n =>
    dsimp only [Kernel.nsproxyDrop]
    split
    · exact ipcnsPut_pids k _
    · exact Pids.refl k

theorem nsproxyHold_pids (k : Kernel) (q : ℕ) : Pids k (k.nsproxyHold q) := by
  unfold Kernel.nsproxyHold
  split
  · exact Pids.refl k
  · split <;> exact Pids.of_eq rfl rfl

theorem ipcnsCreate_pids (k : Kernel) (err : ℤ) : Pids k (k.ipcnsCreate err).1 := by
  unfold Kernel.ipcnsCreate
  split <;> exact Pids.of_eq rfl rfl

/-- **A new pid namespace is below its parent.** -/
theorem pidnsCreate_pids (hp : p < k.nextPid) (err : ℤ) : Pids k (k.pidnsCreate p err).1 ∧
    ∀ n, (k.pidnsCreate p err).2 = .ok n → n = k.nextPid ∧
      n < (k.pidnsCreate p err).1.nextPid ∧ ((k.pidnsCreate p err).1.pidns n).parent = p := by
  unfold Kernel.pidnsCreate
  dsimp only
  split_ifs
  · exact ⟨Pids.refl k, by simp⟩
  · exact ⟨Pids.refl k, by simp⟩
  · refine ⟨⟨Nat.le_succ _, ?_, ?_⟩, ?_⟩
    · intro n hn
      simp [Nat.ne_of_lt hn]
    · intro hf
      have hpos : 0 < k.nextPid := Nat.lt_of_le_of_lt (Nat.zero_le p) hp
      have hold : ∀ n, n < k.nextPid → Function.update k.pidns k.nextPid
          ⟨1, (k.pidns p).level + 1, p⟩ n = k.pidns n := by
        intro n hn
        exact Function.update_of_ne (Nat.ne_of_lt hn) _ _
      constructor
      · refine ⟨Nat.succ_pos _, ?_⟩
        dsimp only
        rw [hold 0 hpos]
        exact hf.top.2
      · intro n hn hn0
        dsimp only at hn ⊢
        rcases Nat.lt_succ_iff_lt_or_eq.mp hn with hlt | rfl
        · obtain ⟨hup, hlevel⟩ := hf.node n hlt hn0
          rw [hold n hlt, hold _ hup]
          exact ⟨Nat.lt_succ_of_lt hup, hlevel⟩
        · rw [Function.update_self]
          dsimp only
          rw [hold p hp]
          exact ⟨Nat.lt_succ_of_lt hp, rfl⟩
    · intro n hn
      obtain rfl : k.nextPid = n := by simpa using hn
      exact ⟨rfl, Nat.lt_succ_self _, by simp⟩

theorem Below.pids (h : Below k a n) (hf : Forest k) (hn : n < k.nextPid) (hp : Pids k k') :
    Below k' a n :=
  Ancestry.Below.congr hf (fun m hm => (hp.tree m hm).1) h hn

theorem Pids.below_iff (hp : Pids k k') (hf : Forest k) (hn : n < k.nextPid) :
    Below k' a n ↔ Below k a n := by
  have hback : Ancestry.Levelled (fun n => (k'.pidns n).parent) (fun n => (k'.pidns n).level) 0
      (· < k.nextPid) := hf.congr fun m hm => hp.tree m hm
  constructor
  · intro h
    exact Ancestry.Below.congr hback (fun m hm => (hp.tree m hm).1.symm) h hn
  · intro h
    exact h.pids hf hn hp

theorem Below.refl (k : Kernel) (a : ℕ) : Below k a a := Ancestry.Below.refl

/-! ## What a call leaves alone -/

/-- Of the proxies up to `b` and the tasks up to `T` a call by `t` changes
    `t` alone. -/
structure Local (b T t : ℕ) (k k' : Kernel) : Prop where
  pids : Pids k k'
  nsp : ∀ q < b, ∀ x', k'.nsp q = some x' →
    ∃ x, k.nsp q = some x ∧ x'.pidNsForChildren = x.pidNsForChildren
  task : ∀ t' < T, t' ≠ t → k'.task t' = k.task t'
  active : ∀ t' < T, (k'.task t').activePidNs = (k.task t').activePidNs

/-- The pid namespace for the children of `t` is `a` or below it. -/
def Stands (k : Kernel) (a t : ℕ) : Prop :=
  ∀ x, k.nsproxyOf t = some x → Below k a x.pidNsForChildren

theorem Local.trans (h : Local b T t k k₁) (h' : Local b T t k₁ k₂) : Local b T t k k₂ := by
  constructor
  · exact h.pids.trans h'.pids
  · intro q hq x' hx'
    obtain ⟨y, hy, hxy⟩ := h'.nsp q hq x' hx'
    obtain ⟨x, hx, hyx⟩ := h.nsp q hq y hy
    exact ⟨x, hx, hxy.trans hyx⟩
  · intro t' ht' hne
    exact (h'.task t' ht' hne).trans (h.task t' ht' hne)
  · intro t' ht'
    exact (h'.active t' ht').trans (h.active t' ht')

theorem Local.of_quiet (h : Quiet k k') (hp : Pids k k') : Local b T t k k' := by
  constructor
  · exact hp
  · intro q _ x hx
    exact ⟨x, h.nsp ▸ hx, rfl⟩
  · intro t' _ _
    rw [h.task]
  · intro t' _
    rw [h.task]

theorem Local.refl (k : Kernel) : Local b T t k k := Local.of_quiet (Quiet.refl k) (Pids.refl k)

theorem Local.of_added (h : Added k k' x) (hp : Pids k k') (hb : b ≤ k.nextNsp) :
    Local b T t k k' := by
  constructor
  · exact hp
  · intro q hq y hy
    rw [h.nsp, Function.update_of_ne (by omega)] at hy
    exact ⟨y, hy, rfl⟩
  · intro t' _ _
    rw [h.task]
  · intro t' _
    rw [h.task]

/-- The nsproxy of a task that the call does not change stands where it did. -/
theorem Local.stands (h : Local b T t k k') (hw : Wf k) (hf : Forest k) {t' : ℕ} (ht' : t' < T)
    (hne : t' ≠ t) (hb : ∀ q, (k.task t').nsproxy = some q → q < b) (hs : Stands k a t') :
    Stands k' a t' := by
  intro x' hx'
  obtain ⟨q, hq, hqx⟩ := nsproxyOf_some hx'
  rw [h.task t' ht' hne] at hq
  obtain ⟨x, hx, hpid⟩ := h.nsp q (hb q hq) x' hqx
  have hxt : k.nsproxyOf t' = some x := by rw [nsproxyOf, hq]; exact hx
  rw [hpid]
  exact (hs x hxt).pids hf (hw.names hxt).2.2.1 h.pids

theorem Stands.quiet (hs : Stands k a t) (hw : Wf k) (hf : Forest k) (h : Quiet k k')
    (hp : Pids k k') : Stands k' a t := by
  intro x hx
  rw [h.nsproxyOf] at hx
  exact (hs x hx).pids hf (hw.names hx).2.2.1 hp

/-! ## Switching -/

/-- A task is given another nsproxy, or none. -/
structure Switched (p : ℕ) (new : Option ℕ) (k k' : Kernel) : Prop where
  pids : Pids k k'
  nsp : ∀ q x', k'.nsp q = some x' →
    ∃ x, k.nsp q = some x ∧ x'.pidNsForChildren = x.pidNsForChildren
  task : k'.task = Function.update k.task p { k.task p with nsproxy := new }

theorem Switched.quiet (h : Switched p new k k₁) (hq : Quiet k₁ k₂) (hp : Pids k₁ k₂) :
    Switched p new k k₂ := by
  refine ⟨h.pids.trans hp, ?_, hq.task.trans h.task⟩
  intro q x hx
  exact h.nsp q x (hq.nsp ▸ hx)

theorem setTask_switched (k : Kernel) (p : ℕ) (new : Option ℕ) :
    Switched p new k (k.setTask p new) :=
  ⟨Pids.of_eq rfl rfl, fun _ x hx => ⟨x, hx, rfl⟩, rfl⟩

theorem switchTask_switched (k : Kernel) (p : ℕ) (new : Option ℕ) :
    Switched p new k (k.switchTask p new) := by
  unfold Kernel.switchTask
  split
  · exact setTask_switched k p new
  · next old _ =>
    refine ⟨Pids.of_eq rfl rfl, ?_, rfl⟩
    intro q x' hx'
    by_cases hq : q = old
    · subst hq
      simp only [putNsproxy, Function.update_self] at hx'
      obtain ⟨x, hx, hx'⟩ := Option.bind_eq_some_iff.1 hx'
      split at hx' <;> cases hx'
      exact ⟨x, hx, rfl⟩
    · simp only [putNsproxy, Function.update_of_ne hq] at hx'
      exact ⟨x', hx', rfl⟩

theorem switchRun_switched (k : Kernel) (p : ℕ) (new : Option ℕ) :
    Switched p new k (k.nsproxySwitchRun p new Kernel.switchTask) := by
  have hs := switchTask_switched k p new
  unfold nsproxySwitchRun
  dsimp only
  split
  · exact hs.quiet (nsproxyDrop_quiet _ _) (nsproxyDrop_pids _ _)
  · exact hs

theorem switchTaskNamespaces_switched (k : Kernel) (p : ℕ) (new : Option ℕ) :
    Switched p new k (k.switchTaskNamespaces p new) := by
  unfold Kernel.switchTaskNamespaces
  split
  · exact switchRun_switched k p new
  · exact switchTask_switched k p new

theorem exitTaskNamespaces_switched (k : Kernel) (p : ℕ) :
    Switched p none k (k.exitTaskNamespaces p) := by
  have hs := switchTaskNamespaces_switched k p none
  unfold Kernel.exitTaskNamespaces
  split
  · unfold exitNsWrap
    dsimp only
    split
    · exact hs.quiet (nsproxyDrop_quiet _ _) (nsproxyDrop_pids _ _)
    · exact hs
  · exact hs

/-- The caller switches, or a task that is not one of those before the call. -/
theorem Switched.local (h : Switched p new k k') (hp : p = t ∨ T ≤ p) : Local b T t k k' := by
  have hne : ∀ t' < T, t' ≠ t → t' ≠ p := by
    intro t' ht' hne
    rcases hp with rfl | hp <;> omega
  refine ⟨h.pids, fun q _ => h.nsp q, ?_, ?_⟩
  · intro t' ht' hne'
    rw [h.task, Function.update_of_ne (hne t' ht' hne')]
  · intro t' _
    rw [h.task]
    by_cases ht' : t' = p
    · subst ht'
      rw [Function.update_self]
    · rw [Function.update_of_ne ht']

/-- Where a task stands that has switched. -/
theorem Switched.stands (h : Switched p (some q) k k') (hw : Wf k) (hf : Forest k)
    (hq : ∀ x, k.nsp q = some x → Below k a x.pidNsForChildren) : Stands k' a p := by
  intro x' hx'
  obtain ⟨q', hq', hqx⟩ := nsproxyOf_some hx'
  rw [h.task, Function.update_self] at hq'
  cases hq'
  obtain ⟨x, hx, hpid⟩ := h.nsp q x' hqx
  rw [hpid]
  exact (hq x hx).pids hf (hw.nsp q x hx).2.2.1 h.pids

theorem Switched.stands_none (h : Switched p none k k') : Stands k' a p := by
  intro x' hx'
  obtain ⟨q', hq', -⟩ := nsproxyOf_some hx'
  rw [h.task, Function.update_self] at hq'
  cases hq'

/-! ## Creating -/

theorem attach_pids (k : Kernel) (q : ℕ) (newPid newIpc : Option ℕ) :
    Pids k (k.attach q newPid newIpc) := by
  cases newPid <;> cases newIpc <;> exact Pids.of_eq rfl rfl

theorem createNewNamespaces_pids (k : Kernel) (flags : Flags) (t : ℕ) (err : ℤ) :
    Pids k (k.createNewNamespaces flags t err).1 := by
  unfold Kernel.createNewNamespaces
  split
  · exact Pids.refl k
  · split_ifs <;> exact Pids.of_eq rfl rfl

/-- **A new pid namespace is made under that of the caller.** -/
theorem newPidNs_pids (hw : Wf k) (want : Bool) (c tsk : ℕ) (err : ℤ) :
    Pids k (k.newPidNs want c tsk err).1 ∧
      ∀ n, (k.newPidNs want c tsk err).2 = .ok (some n) →
        n < (k.newPidNs want c tsk err).1.nextPid ∧
          Below (k.newPidNs want c tsk err).1 (k.task c).activePidNs n := by
  unfold Kernel.newPidNs
  split
  · exact ⟨Pids.refl k, by simp⟩
  split
  · exact ⟨Pids.refl k, by simp⟩
  next x hx =>
    dsimp only
    split
    · exact ⟨Pids.refl k, by simp⟩
    next ha =>
      rw [not_not] at ha
      have hp := (hw.names hx).2.2.1
      obtain ⟨hpids, hn⟩ := pidnsCreate_pids hp err
      rcases hr : k.pidnsCreate x.pidNsForChildren err with ⟨k₁, err | m⟩ <;> rw [hr] at hpids hn
      · exact ⟨hpids, by simp⟩
      · refine ⟨hpids, ?_⟩
        intro n hnm
        obtain ⟨hm, hlt, hparent⟩ := hn m rfl
        cases hnm
        refine ⟨hlt, Ancestry.Below.up ?_ ?_⟩
        · omega
        · dsimp only at hparent ⊢
          rw [hparent, ha]
          exact Below.refl _ _

theorem newIpcNs_pids (k : Kernel) (want : Bool) (err : ℤ) :
    Pids k (k.newIpcNs want err).1 := by
  have hp := ipcnsCreate_pids k err
  unfold Kernel.newIpcNs
  split
  · exact Pids.refl k
  · rcases hr : k.ipcnsCreate err with ⟨k₁, _ | n⟩ <;> rw [hr] at hp <;> exact hp

theorem newNamespaces_pids (hw : Wf k) (hf : Forest k) (flags : Flags) (c tsk : ℕ) (e : Env) :
    Pids k (k.newNamespaces flags c tsk e).1 ∧
      ∀ n newIpc, (k.newNamespaces flags c tsk e).2 = .ok (some n, newIpc) →
        n < (k.newNamespaces flags c tsk e).1.nextPid ∧
          Below (k.newNamespaces flags c tsk e).1 (k.task c).activePidNs n := by
  unfold Kernel.newNamespaces
  obtain ⟨hp, hn⟩ := newPidNs_pids hw (has flags CLONE_NEWPID) c tsk e.pidns
  rcases hr : k.newPidNs (has flags CLONE_NEWPID) c tsk e.pidns with ⟨k₁, err | newPid⟩ <;>
    rw [hr] at hp hn <;> dsimp only at hp hn ⊢
  · exact ⟨hp, by simp⟩
  · have hi := newIpcNs_pids k₁ (has flags CLONE_NEWIPC) e.ipcns
    rcases hr' : k₁.newIpcNs (has flags CLONE_NEWIPC) e.ipcns with ⟨k₂, err | newIpc⟩ <;>
      rw [hr'] at hi <;> dsimp only at hi ⊢
    · exact ⟨(hp.trans hi).trans (pidnsPut_pids k₂ newPid), by simp⟩
    · refine ⟨hp.trans hi, ?_⟩
      intro n newIpc' h
      cases h
      obtain ⟨hlt, hb⟩ := hn n rfl
      exact ⟨Nat.lt_of_lt_of_le hlt hi.next, hb.pids (hp.forest hf) hlt hi⟩

theorem cnnWrap_pids (hw : Wf k) (hf : Forest k) (flags : Flags) (c tsk : ℕ) (e : Env) :
    Pids k (k.cnnWrap flags c tsk e).1 ∧
      ∀ q, (k.cnnWrap flags c tsk e).2 = .ok q → has flags CLONE_NEWPID = true →
        Below (k.cnnWrap flags c tsk e).1 (k.task c).activePidNs k.nextPid := by
  unfold Kernel.cnnWrap
  split
  · have hc := createNewNamespaces_pids k flags tsk e.cnn
    rcases hr : k.createNewNamespaces flags tsk e.cnn with ⟨k₁, err | q⟩ <;> rw [hr] at hc <;>
      dsimp only
    · exact ⟨hc, by simp⟩
    · refine ⟨hc.trans (nsproxyHold_pids k₁ q), ?_⟩
      intro q' _ hpid
      have hours := (createNewNamespaces_ok hr).2.1
      rw [has_ours, hpid] at hours
      cases hours
  · obtain ⟨hn, hb⟩ := newNamespaces_pids hw hf flags c tsk e
    rcases hr : k.newNamespaces flags c tsk e with ⟨k₁, err | ⟨newPid, newIpc⟩⟩ <;>
      rw [hr] at hn hb <;> dsimp only
    · exact ⟨hn, by simp⟩
    · have hmade := (newNamespaces_ok hr).2.2.1
      have hc := createNewNamespaces_pids k₁ (without flags OURS) tsk e.cnn
      rcases hr' : k₁.createNewNamespaces (without flags OURS) tsk e.cnn with ⟨k₂, err | q⟩ <;>
        rw [hr'] at hc <;> dsimp only
      · exact ⟨(hn.trans hc).trans (putNew_pids k₂ newPid newIpc), by simp⟩
      · have ha := attach_pids k₂ q newPid newIpc
        have hfin : Pids k₂ (if newIpc.isSome then k₂.attach q newPid newIpc
            else (k₂.attach q newPid newIpc).nsproxyHold q) := by
          split
          · exact ha
          · exact ha.trans (nsproxyHold_pids _ q)
        refine ⟨(hn.trans hc).trans hfin, ?_⟩
        intro q' _ hpid
        rw [hpid] at hmade
        obtain ⟨hlt, hbelow⟩ := hb k.nextPid newIpc (by rw [hmade]; rfl)
        exact hbelow.pids (hn.forest hf) hlt (hc.trans hfin)

/-- **What a new nsproxy names for children is below the caller.** -/
theorem createEntry_below (hw : Wf k) (hf : Forest k)
    (hs : Stands k (k.task c).activePidNs tsk) (h : k.createEntry flags c tsk e = (k', .ok q)) :
    Pids k k' ∧ q = k.nextNsp ∧ ∃ y, Added k k' y ∧
      Below k' (k.task c).activePidNs y.pidNsForChildren := by
  obtain ⟨x, hx, hq, ha⟩ := createEntry_ok h
  have hpids : Pids k k' ∧ (has flags CLONE_NEWPID = true →
      Below k' (k.task c).activePidNs k.nextPid) := by
    unfold createEntry at h
    split at h
    · obtain ⟨hp, hb⟩ := cnnWrap_pids hw hf flags c tsk e
      rw [h] at hp hb
      exact ⟨hp, hb q rfl⟩
    · have hp := createNewNamespaces_pids k flags tsk e.cnn
      rw [h] at hp
      refine ⟨hp, ?_⟩
      intro hpid
      have hours := (createNewNamespaces_ok h).2.1
      rw [has_ours, hpid] at hours
      cases hours
  refine ⟨hpids.1, hq, _, ha, ?_⟩
  unfold newNsp Nsproxy.withNew made
  cases hpid : has flags CLONE_NEWPID with
  | true => exact hpids.2 hpid
  | false => exact (hs x hx).pids hf (hw.names hx).2.2.1 hpids.1

theorem createEntry_error_pids (hw : Wf k) (hf : Forest k)
    (h : k.createEntry flags c tsk e = (k', .error err)) : Pids k k' := by
  unfold createEntry at h
  split at h
  · have hp := (cnnWrap_pids hw hf flags c tsk e).1
    rw [h] at hp
    exact hp
  · have hp := createNewNamespaces_pids k flags tsk e.cnn
    rw [h] at hp
    exact hp

end DroidLkm.Slot.Kernel
