/-
  Pid namespaces: where a child begins.

  * `Within`: a part of a call that makes new proxies and leaves the old ones
    and the other tasks alone;
  * `cnWrap_within`, `kernelClone_brood`: the child of a task begins in the pid
    namespace for its parent's children, or in a new one below it;
  * `Confines`: what a whole call comes to, for its caller and for the children
    it makes;
  * `cloneBetween_confines`: `clone` and `clone3`, when the restore step does
    not fail.
-/
import DroidLkm.Slot.Confined

namespace DroidLkm.Slot.Kernel

open Machine

variable {k k' k₁ k₂ : Kernel} {t c tsk p q n a T T' : ℕ} {new : Option ℕ} {flags : Flags} {e : Env}
  {x y : Nsproxy} {newPid newIpc : Option ℕ} {err : ℤ}

/-! ## Parts of a call -/

/-- Of the tasks up to `T` a part of a call changes `p` alone, and it changes
    no nsproxy that was there. -/
structure Within (T p : ℕ) (k k' : Kernel) : Prop where
  forest : Forest k
  wf : Wf k
  grows : Grows k k'
  loc : Local k.nextNsp T p k k'

theorem Within.forest' (h : Within T p k k') : Forest k' := h.loc.pids.forest h.forest

theorem Within.refl (hw : Wf k) (hf : Forest k) : Within T p k k :=
  ⟨hf, hw, hw.refl, Local.refl k⟩

theorem Within.next (h : Within T p k k₁) (hg : Grows k₁ k₂) (hl : Local k.nextNsp T p k₁ k₂) :
    Within T p k k₂ :=
  ⟨h.forest, h.wf, h.grows.trans hg, h.loc.trans hl⟩

theorem Local.widen {b b' : ℕ} (h : Local b' T' c k k') (hb : b ≤ b') (hT : T ≤ T')
    (hc : c = t ∨ T ≤ c) : Local b T t k k' := by
  refine ⟨h.pids, fun q hq => h.nsp q (by omega), ?_, fun t' ht' => h.active t' (by omega)⟩
  intro t' ht' hne
  refine h.task t' (by omega) ?_
  rcases hc with rfl | hc <;> omega

theorem Within.trans (h : Within T p k k₁) (h' : Within T p k₁ k₂) : Within T p k k₂ :=
  h.next h'.grows (h'.loc.widen h.grows.nsp (Nat.le_refl T) (Or.inl rfl))

/-- What is done to a new task leaves the others alone. -/
theorem Within.widen (h : Within T' c k k') (hT : T ≤ T') (hc : T ≤ c) : Within T t k k' :=
  ⟨h.forest, h.wf, h.grows, h.loc.widen (Nat.le_refl _) hT (Or.inr hc)⟩

theorem Within.quiet (hw : Wf k) (hf : Forest k) (hg : Grows k k') (hq : Quiet k k')
    (hp : Pids k k') : Within T p k k' :=
  ⟨hf, hw, hg, Local.of_quiet hq hp⟩

theorem Within.below (h : Within T p k k') (hn : n < k.nextPid) (hb : Below k a n) :
    Below k' a n :=
  hb.pids h.forest hn h.loc.pids

/-- Who is left alone stands where it did. -/
theorem Within.stands (h : Within T p k k') (ht : t < T) (hne : t ≠ p) (hs : Stands k a t) :
    Stands k' a t :=
  h.loc.stands h.wf h.forest ht hne (fun q hq => (h.wf.task t q hq).2) hs

/-- So does everyone, where an nsproxy is made and nobody switched to it. -/
theorem Stands.added (hs : Stands k a p) (hw : Wf k) (hf : Forest k) (ha : Added k k' y)
    (hp : Pids k k') : Stands k' a p := by
  intro x hx
  obtain ⟨q, hq, hqx⟩ := nsproxyOf_some hx
  rw [ha.task] at hq
  have hlt := (hw.task p q hq).2
  rw [ha.nsp, Function.update_of_ne (Nat.ne_of_lt hlt)] at hqx
  exact (hs x (by rw [nsproxyOf, hq]; exact hqx)).pids hf (hw.nsp q x hqx).2.2.1 hp

/-- **A task switches to an nsproxy that names what is below `a`.** -/
theorem Within.switch (h : Within T p k k₁) (hsw : Switched p (some q) k₁ k₂) (hg : Grows k₁ k₂)
    (hq : ∀ x, k₁.nsp q = some x → Below k₁ a x.pidNsForChildren) :
    Within T p k k₂ ∧ Stands k₂ a p := by
  constructor
  · exact h.next hg (hsw.local (Or.inl rfl))
  · exact hsw.stands h.grows.wf h.forest' hq

theorem Within.switchTo (h : Within T p k k₁) (hp : p < k.nextTask) (hq : q < k₁.nextNsp)
    (hb : ∀ x, k₁.nsp q = some x → Below k₁ a x.pidNsForChildren) :
    Within T p k (k₁.switchTaskNamespaces p (some q)) ∧
      Stands (k₁.switchTaskNamespaces p (some q)) a p := by
  refine h.switch (switchTaskNamespaces_switched k₁ p (some q)) ?_ hb
  refine h.grows.wf.switchTaskNamespaces ?_
  rintro q' ⟨⟩
  exact ⟨Nat.lt_of_lt_of_le hp h.grows.task, hq⟩

/-- What has just been made is below, if what it names is. -/
theorem Added.names (ha : Added k k' y) (hb : Below k' a y.pidNsForChildren) :
    ∀ x, k'.nsp k.nextNsp = some x → Below k' a x.pidNsForChildren := by
  intro x hx
  rw [ha.nsp, Function.update_self] at hx
  cases hx
  exact hb

/-- The nsproxy made by `create_new_namespaces`. -/
theorem createEntry_within (hw : Wf k) (hf : Forest k) (hs : Stands k (k.task c).activePidNs tsk)
    (flags : Flags) (e : Env) : Within T p k (k.createEntry flags c tsk e).1 := by
  have hm := (hw.createEntry flags c tsk e).1
  rcases hr : k.createEntry flags c tsk e with ⟨k₁, err | q⟩ <;> rw [hr] at hm
  · exact Within.quiet hw hf hm (createEntry_error hr).1 (createEntry_error_pids hw hf hr)
  · obtain ⟨hpids, -, y, ha, -⟩ := createEntry_below hw hf hs hr
    exact ⟨hf, hw, hm, Local.of_added ha hpids (Nat.le_refl _)⟩

/-- The nsproxy that the module makes with the original. -/
theorem createNew_below (hw : Wf k) (hf : Forest k) (hs : Stands k a tsk)
    (h : k.createNewNamespaces flags tsk err = (k', .ok q)) :
    Within T p k k' ∧ q = k.nextNsp ∧ q < k'.nextNsp ∧
      ∃ y, Added k k' y ∧ Below k' a y.pidNsForChildren := by
  obtain ⟨hq, -, x, hx, hk⟩ := createNewNamespaces_ok h
  have hpids := createNewNamespaces_pids k flags tsk err
  have hg := hw.createNewNamespaces flags tsk err
  rw [h] at hpids hg
  have ha : Added k k' (k.copyNsp flags x) := hk ▸ added_pushNsp k _
  refine ⟨⟨hf, hw, hg.1, Local.of_added ha hpids (Nat.le_refl _)⟩, hq, hg.2 q rfl, _, ha, ?_⟩
  exact (hs x hx).pids hf (hw.names hx).2.2.1 hpids

/-! ## Children -/

/-- The count of the nsproxy of a task. -/
theorem hold_switched (hq : (k.task c).nsproxy = some q) :
    Switched c (some q) k (k.modifyNsp q fun n => { n with count := n.count + 1 }) := by
  refine ⟨Pids.of_eq rfl rfl, ?_, ?_⟩
  · intro q' x' hx'
    by_cases he : q' = q
    · subst he
      simp only [modifyNsp, Function.update_self] at hx'
      obtain ⟨x, hx, rfl⟩ := Option.map_eq_some_iff.1 hx'
      exact ⟨x, hx, rfl⟩
    · simp only [modifyNsp, Function.update_of_ne he] at hx'
      exact ⟨x', hx', rfl⟩
  · rw [← hq]
    exact (Function.update_eq_self c k.task).symm

/-- The nsproxy of a task is one of those made after `b`. -/
def Fresh (k : Kernel) (b p : ℕ) : Prop := ∀ q, (k.task p).nsproxy = some q → b ≤ q

theorem copyNamespaces_within (hw : Wf k) (hf : Forest k) (hc : c < k.nextTask)
    (hs : Stands k (k.task t).activePidNs c) (flags : Flags) (e : Env) :
    Within T c k (k.copyNamespaces flags t c e).1 ∧
      Stands (k.copyNamespaces flags t c e).1 (k.task t).activePidNs c ∧
      ((k.copyNamespaces flags t c e).2 = 0 → has flags KERNEL_NS = true →
        Fresh (k.copyNamespaces flags t c e).1 k.nextNsp c) := by
  have hg := hw.copyNamespaces flags t hc e
  unfold copyNamespaces at hg ⊢
  split
  · next hns =>
    rw [if_pos hns] at hg
    have hno : has flags KERNEL_NS = false := by simpa using hns
    split
    · exact ⟨Within.refl hw hf, hs, fun _ hk => by rw [hno] at hk; cases hk⟩
    · next q hq =>
      rw [hq] at hg
      have hsw := (Within.refl (T := T) hw hf).switch (hold_switched hq) hg
        fun x hx => hs x (by rw [nsproxyOf, hq]; exact hx)
      exact ⟨hsw.1, hsw.2, fun _ hk => by rw [hno] at hk; cases hk⟩
  next hns =>
  split
  · exact ⟨Within.refl hw hf, hs, fun (h : -EPERM = 0) => absurd h (by decide)⟩
  next hcap =>
  split
  · exact ⟨Within.refl hw hf, hs, fun (h : -EINVAL = 0) => absurd h (by decide)⟩
  next hsv =>
  rw [if_neg hns, if_neg hcap, if_neg hsv] at hg
  have hwi : Within T c k (k.createEntry flags t c e).1 := createEntry_within hw hf hs flags e
  rcases hr : k.createEntry flags t c e with ⟨k₁, err | q⟩ <;> rw [hr] at hwi hg <;>
    dsimp only at hwi hg ⊢
  · obtain ⟨hquiet, herr⟩ := createEntry_error hr
    exact ⟨hwi, hs.quiet hw hf hquiet hwi.loc.pids, fun h => absurd h herr⟩
  · obtain ⟨-, rfl, y, ha, hb⟩ := createEntry_below hw hf hs hr
    have hgs : Grows k₁ (k₁.setTask c (some k.nextNsp)) := by
      refine hwi.grows.wf.setTask ?_
      rintro q' ⟨⟩
      exact ⟨Nat.lt_of_lt_of_le hc hwi.grows.task, by rw [ha.nextNsp]; exact Nat.lt_succ_self _⟩
    have hsw := hwi.switch (setTask_switched k₁ c (some k.nextNsp)) hgs (ha.names hb)
    refine ⟨hsw.1, hsw.2, fun _ _ => ?_⟩
    intro q' hq'
    simp only [Kernel.setTask, Function.update_self, Option.some.injEq] at hq'
    exact Nat.le_of_eq hq'

/-- The nsproxy that `droid_lkm_cn_wrap` gives a child. -/
theorem cnPriv_within (hw : Wf k) (hf : Forest k) (hc : c < k.nextTask) (hs : Stands k a c)
    (inner : Flags) (newPid newIpc : Option ℕ) (e : Env) :
    Within T c k (k.cnPriv inner c newPid newIpc e).1 ∧
      Stands (k.cnPriv inner c newPid newIpc e).1 a c ∧
      ((k.cnPriv inner c newPid newIpc e).2 = 0 → has inner NS_FLAGS = false →
        Fresh (k.cnPriv inner c newPid newIpc e).1 k.nextNsp c) := by
  unfold cnPriv
  split
  · next hns => exact ⟨Within.refl hw hf, hs, fun _ h => by rw [hns] at h; cases h⟩
  split
  · exact ⟨Within.refl hw hf, hs, fun (h : -EFAULT = 0) => absurd h (by decide)⟩
  rcases hr : k.createNewNamespaces 0 c e.cnnPriv with ⟨k₁, err | q⟩ <;> dsimp only
  · obtain ⟨rfl, herr⟩ := createNewNamespaces_error hr
    have hq := putNew_quiet k₁ newPid newIpc
    have hp := putNew_pids k₁ newPid newIpc
    exact ⟨Within.quiet hw hf hw.putNew hq hp, hs.quiet hw hf hq hp, fun h => absurd h herr⟩
  · obtain ⟨hwi, rfl, hlt, y, ha, hb⟩ := createNew_below (T := T) (p := c) hw hf hs hr
    obtain ⟨hsw, hst⟩ := hwi.switchTo hc hlt (ha.names hb)
    refine ⟨hsw, hst, fun _ _ => ?_⟩
    intro q' hq'
    rw [(switchTaskNamespaces_switched k₁ c _).task, Function.update_self] at hq'
    cases hq'
    exact Nat.le_refl _

theorem attach_nsp (k : Kernel) (q : ℕ) (newPid newIpc : Option ℕ) :
    (k.attach q newPid newIpc).task = k.task ∧ (k.attach q newPid newIpc).nsp =
      Function.update k.nsp q ((k.nsp q).map (·.withNew newPid newIpc)) := by
  cases hq : k.nsp q with
  | some x =>
    have hwrote := attach_wrote hq newPid newIpc
    exact ⟨hwrote.task, hwrote.nsp⟩
  | none =>
    cases newPid <;> cases newIpc <;>
      simp [attach, attachPidNs, attachIpcNs, setPidNs, setIpcNs, modifyNsp, hq]

/-- New namespaces are written into a new nsproxy. -/
theorem attach_local {b : ℕ} (hq : b ≤ q) (newPid newIpc : Option ℕ) :
    Local b T p k (k.attach q newPid newIpc) := by
  obtain ⟨htask, hnsp⟩ := attach_nsp k q newPid newIpc
  refine ⟨attach_pids k q newPid newIpc, ?_, fun _ _ _ => by rw [htask],
    fun _ _ => by rw [htask]⟩
  intro q' hq' x hx
  rw [hnsp, Function.update_of_ne (by omega)] at hx
  exact ⟨x, hx, rfl⟩

theorem attach_stands (hw : Wf k) (hf : Forest k) (hq : (k.task p).nsproxy = some q)
    (hb : ∀ n, newPid = some n → n < k.nextPid ∧ Below k a n) (hs : Stands k a p) :
    Stands (k.attach q newPid newIpc) a p := by
  have hpids := attach_pids k q newPid newIpc
  obtain ⟨htask, hnsp⟩ := attach_nsp k q newPid newIpc
  intro x hx
  rw [nsproxyOf, htask, hq, Option.bind_some, hnsp, Function.update_self] at hx
  obtain ⟨y, hy, rfl⟩ := Option.map_eq_some_iff.1 hx
  cases newPid with
  | some n => exact (hb n rfl).2.pids hf (hb n rfl).1 hpids
  | none =>
    exact (hs y (by rw [nsproxyOf, hq]; exact hy)).pids hf (hw.nsp q y hy).2.2.1 hpids

theorem Within.hold (h : Within T p k k₁) (hs : Stands k₁ a c) (q : ℕ) :
    Within T p k (k₁.nsproxyHold q) ∧ Stands (k₁.nsproxyHold q) a c := by
  have hq := nsproxyHold_quiet k₁ q
  have hp := nsproxyHold_pids k₁ q
  constructor
  · exact h.next (h.grows.wf.nsproxyHold q) (Local.of_quiet hq hp)
  · exact hs.quiet h.grows.wf h.forest' hq hp

theorem Within.holdOf (h : Within T p k k₁) (hs : Stands k₁ a c) (t : ℕ) :
    Within T p k (k₁.holdOf t) ∧ Stands (k₁.holdOf t) a c := by
  unfold Kernel.holdOf
  split
  · exact ⟨h, hs⟩
  · exact h.hold hs _

/-- New namespaces, the pid namespace below `a`. -/
def Bred (k : Kernel) (a : ℕ) (newPid newIpc : Option ℕ) : Prop :=
  Given k newPid newIpc ∧ ∀ n, newPid = some n → Below k a n

theorem Bred.within (h : Bred k a newPid newIpc) (hw : Within T p k k') :
    Bred k' a newPid newIpc :=
  ⟨h.1.grows hw.grows, fun n hn => hw.below (h.1.1 n hn) (h.2 n hn)⟩

theorem newNamespaces_bred (hw : Wf k) (hf : Forest k)
    (h : k.newNamespaces flags c tsk e = (k', .ok (newPid, newIpc))) :
    Within T p k k' ∧ Bred k' (k.task c).activePidNs newPid newIpc := by
  have hg := hw.newNamespaces flags c tsk e
  have hp := newNamespaces_pids hw hf flags c tsk e
  rw [h] at hg hp
  refine ⟨Within.quiet hw hf hg.1 (newNamespaces_ok h).1 hp.1, hg.2 newPid newIpc rfl, ?_⟩
  rintro n rfl
  exact (hp.2 n newIpc rfl).2

theorem newNamespaces_failed (hw : Wf k) (hf : Forest k)
    (h : k.newNamespaces flags c tsk e = (k', .error err)) :
    Within T p k k' ∧ ∀ a t, Stands k a t → Stands k' a t := by
  have hg := hw.newNamespaces flags c tsk e
  have hp := newNamespaces_pids hw hf flags c tsk e
  have hq := (newNamespaces_error h).1
  rw [h] at hg hp
  exact ⟨Within.quiet hw hf hg.1 hq hp.1, fun a t hs => hs.quiet hw hf hq hp.1⟩

theorem Within.attach (h : Within T p k k₁) (hq : (k₁.task p).nsproxy = some q)
    (hfresh : k.nextNsp ≤ q) (hb : Bred k₁ a newPid newIpc) (hs : Stands k₁ a p) :
    Within T p k (k₁.attach q newPid newIpc) ∧ Stands (k₁.attach q newPid newIpc) a p := by
  constructor
  · exact h.next (h.grows.wf.attach hb.1) (attach_local hfresh newPid newIpc)
  · exact attach_stands h.grows.wf h.forest' hq (fun n hn => ⟨hb.1.1 n hn, hb.2 n hn⟩) hs

theorem Within.cnAttach (h : Within T c k k₁) (hfresh : Fresh k₁ k.nextNsp c)
    (hb : Bred k₁ a newPid newIpc) (hs : Stands k₁ a c) :
    Within T c k (k₁.cnAttach c newPid newIpc) ∧ Stands (k₁.cnAttach c newPid newIpc) a c := by
  unfold Kernel.cnAttach
  split
  · exact ⟨h, hs⟩
  · next q hq =>
    obtain ⟨ha, hsa⟩ := h.attach hq (hfresh q hq) hb hs
    dsimp only
    split
    · exact ⟨ha, hsa⟩
    · exact ha.hold hsa q

/-- **`droid_lkm_cn_wrap` leaves a child below its parent.** -/
theorem cnWrap_within (hw : Wf k) (hf : Forest k) (hc : c < k.nextTask)
    (hs : Stands k (k.task t).activePidNs c) (flags : Flags) (e : Env) :
    Within T c k (k.cnWrap flags t c e).1 ∧
      Stands (k.cnWrap flags t c e).1 (k.task t).activePidNs c := by
  obtain ⟨hcopy, hcopys, -⟩ := copyNamespaces_within (T := T) hw hf hc hs flags e
  have hheld : Within T c k (if (k.copyNamespaces flags t c e).2 = 0
      then (k.copyNamespaces flags t c e).1.holdOf c else (k.copyNamespaces flags t c e).1) ∧
      Stands (if (k.copyNamespaces flags t c e).2 = 0
      then (k.copyNamespaces flags t c e).1.holdOf c else (k.copyNamespaces flags t c e).1)
        (k.task t).activePidNs c := by
    split
    · exact hcopy.holdOf hcopys c
    · exact ⟨hcopy, hcopys⟩
  unfold Kernel.cnWrap
  dsimp only
  split
  · exact hheld
  split
  · exact ⟨hcopy, hcopys⟩
  split
  · exact hheld
  split
  · exact ⟨hcopy, hcopys⟩
  rcases hr : k.newNamespaces flags t c e with ⟨k₁, err | ⟨newPid, newIpc⟩⟩ <;> dsimp only
  · obtain ⟨hwi, hst⟩ := newNamespaces_failed (T := T) (p := c) hw hf hr
    exact ⟨hwi, hst _ _ hs⟩
  · obtain ⟨hnew, hbred⟩ := newNamespaces_bred (T := T) (p := c) hw hf hr
    have hquiet := (newNamespaces_ok hr).1
    have hs₁ : Stands k₁ (k₁.task t).activePidNs c := by
      rw [hquiet.task]
      exact hs.quiet hw hf hquiet hnew.loc.pids
    have hc₁ := Nat.lt_of_lt_of_le hc hnew.grows.task
    obtain ⟨hin, hins, hfresh⟩ := copyNamespaces_within (T := T) hnew.grows.wf hnew.forest' hc₁ hs₁
      (without flags OURS) e
    rw [hquiet.task] at hins
    have hwi := hnew.trans hin
    split
    · have hq := putNew_quiet (k₁.copyNamespaces (without flags OURS) t c e).1 newPid newIpc
      have hp := putNew_pids (k₁.copyNamespaces (without flags OURS) t c e).1 newPid newIpc
      exact ⟨hwi.next hwi.grows.wf.putNew (Local.of_quiet hq hp),
        hins.quiet hwi.grows.wf hwi.forest' hq hp⟩
    next hret =>
    rw [not_not] at hret
    obtain ⟨hpriv, hprivs, hfresh'⟩ := cnPriv_within (T := T) hwi.grows.wf hwi.forest'
      (Nat.lt_of_lt_of_le hc hwi.grows.task) hins (without flags OURS) newPid newIpc e
    split
    · exact ⟨hwi.trans hpriv, hprivs⟩
    next hret' =>
    rw [not_not] at hret'
    refine (hwi.trans hpriv).cnAttach ?_ ((hbred.within hin).within hpriv) hprivs
    intro q hq
    cases hns : has (without flags OURS) NS_FLAGS with
    | false => exact Nat.le_trans hwi.grows.nsp (hfresh' hret' hns q hq)
    | true =>
      rw [cnPriv, if_pos hns] at hq
      exact Nat.le_trans hnew.grows.nsp (hfresh hret (without_kernel_ns.trans hns) q hq)

theorem copyEntry_within (hw : Wf k) (hf : Forest k) (hc : c < k.nextTask)
    (hs : Stands k (k.task t).activePidNs c) (flags : Flags) (e : Env) :
    Within T c k (k.copyEntry flags t c e).1 ∧
      Stands (k.copyEntry flags t c e).1 (k.task t).activePidNs c := by
  unfold copyEntry
  split
  · exact cnWrap_within hw hf hc hs flags e
  · obtain ⟨hwi, hst, -⟩ := copyNamespaces_within (T := T) hw hf hc hs flags e
    exact ⟨hwi, hst⟩

/-- The new tasks are below `a`, and so are the namespaces for their children. -/
def Brood (k : Kernel) (a T : ℕ) : Prop :=
  ∀ c, T ≤ c → ∀ x, k.nsproxyOf c = some x → Below k a (k.task c).activePidNs ∧
    Below k (k.task c).activePidNs x.pidNsForChildren

theorem Wf.brood (h : Wf k) (a : ℕ) : Brood k a k.nextTask := by
  intro c hc x hx
  have := (h.names hx).1
  omega

/-- A child begins with what its parent has. -/
theorem newTask_within (hw : Wf k) (hf : Forest k)
    (hk : k' = { k with
      task := Function.update k.task k.nextTask (k.task t)
      nextTask := k.nextTask + 1 }) :
    Within k.nextTask k.nextTask k k' ∧ (Stands k a t → Stands k' a k.nextTask) := by
  have hpids : Pids k k' := by rw [hk]; exact Pids.of_eq rfl rfl
  have htask : k'.task = Function.update k.task k.nextTask (k.task t) := by rw [hk]
  have hnsp : k'.nsp = k.nsp := by rw [hk]
  have hwi : Within k.nextTask k.nextTask k k' := by
    refine ⟨hf, hw, hk ▸ hw.newTask (k.task t) fun q hq => (hw.task t q hq).2, hpids, ?_, ?_, ?_⟩
    · intro q _ x hx
      exact ⟨x, hnsp ▸ hx, rfl⟩
    · intro t' _ hne
      rw [htask, Function.update_of_ne hne]
    · intro t' ht'
      rw [htask, Function.update_of_ne (Nat.ne_of_lt ht')]
  refine ⟨hwi, ?_⟩
  intro hs x hx
  rw [nsproxyOf, htask, Function.update_self, hnsp] at hx
  exact hwi.below (hw.names (t := t) hx).2.2.1 (hs x hx)

/-- A child that is not there after all. -/
theorem Switched.brood (h : Switched p none k k') (hdead : ∀ c, p < c → (k.task c).nsproxy = none) :
    Brood k' a p := by
  intro c hle x hx
  obtain ⟨q, hq, -⟩ := nsproxyOf_some hx
  rw [h.task] at hq
  rcases Nat.eq_or_lt_of_le hle with rfl | hlt
  · rw [Function.update_self] at hq
    cases hq
  · rw [Function.update_of_ne (Nat.ne_of_gt hlt), hdead c hlt] at hq
    cases hq

/-- The child is placed in the namespace for the children of its nsproxy. -/
theorem setActive_within (h : Within p p k k₁) (hs : Stands k₁ a p)
    (hdead : ∀ c, p < c → (k₁.task c).nsproxy = none) (hn : ∀ x, k₁.nsproxyOf p = some x →
      n = x.pidNsForChildren)
    (hk : k₂ = { k₁ with task := Function.update k₁.task p { k₁.task p with activePidNs := n } }) :
    Within p p k k₂ ∧ Brood k₂ a p := by
  have hpids : Pids k₁ k₂ := by rw [hk]; exact Pids.of_eq rfl rfl
  have htask : k₂.task = Function.update k₁.task p { k₁.task p with activePidNs := n } := by
    rw [hk]
  have hnsp : k₂.nsp = k₁.nsp := by rw [hk]
  constructor
  · refine h.next (hk ▸ h.grows.wf.setActive p n) ⟨hpids, ?_, ?_, ?_⟩
    · intro q _ x hx
      exact ⟨x, hnsp ▸ hx, rfl⟩
    · intro t' _ hne
      rw [htask, Function.update_of_ne hne]
    · intro t' ht'
      rw [htask, Function.update_of_ne (Nat.ne_of_lt ht')]
  · intro c hle x hx
    obtain ⟨q, hq, hqx⟩ := nsproxyOf_some hx
    rw [htask] at hq ⊢
    rcases Nat.eq_or_lt_of_le hle with rfl | hlt
    · rw [Function.update_self] at hq ⊢
      have hx₁ : k₁.nsproxyOf p = some x := by
        rw [nsproxyOf, show (k₁.task p).nsproxy = some q from hq, ← hnsp]
        exact hqx
      obtain rfl := hn x hx₁
      exact ⟨(hs x hx₁).pids h.forest' (h.grows.wf.names hx₁).2.2.1 hpids, Below.refl _ _⟩
    · rw [Function.update_of_ne (Nat.ne_of_gt hlt), hdead c hlt] at hq
      cases hq

/-- **A child starts below its parent.** -/
theorem kernelClone_brood (hw : Wf k) (hf : Forest k) (ht : t < k.nextTask)
    (hs : Stands k (k.task t).activePidNs t) (flags : Flags) (e : Env) :
    Within k.nextTask k.nextTask k (k.kernelClone flags t e).1 ∧
      Brood (k.kernelClone flags t e).1 (k.task t).activePidNs k.nextTask := by
  unfold kernelClone
  split
  · exact ⟨Within.refl hw hf, hw.brood _⟩
  dsimp only
  generalize hk₁ : ({ k with
    task := Function.update k.task k.nextTask (k.task t)
    nextTask := k.nextTask + 1 } : Kernel) = k₁
  obtain ⟨hnew, hs₁⟩ := newTask_within (a := (k.task t).activePidNs) hw hf hk₁.symm
  have htask : k₁.task = Function.update k.task k.nextTask (k.task t) := by rw [← hk₁]
  have hself : k₁.task t = k.task t := by rw [htask, Function.update_of_ne (Nat.ne_of_lt ht)]
  have hc : k.nextTask < k₁.nextTask := by
    rw [← hk₁]
    exact Nat.lt_succ_self _
  have hcopy := fun T =>
    copyEntry_within (T := T) hnew.grows.wf hnew.forest' hc (hself ▸ hs₁ hs) flags e
  rcases hr : k₁.copyEntry flags t k.nextTask e with ⟨k₂, ret⟩
  rw [hr, hself] at hcopy
  dsimp only at hcopy ⊢
  have hwi := hnew.trans (hcopy k.nextTask).1
  -- the tasks after the child are not there
  have hdead : ∀ c, k.nextTask < c → (k₂.task c).nsproxy = none := by
    intro c hlt
    rw [(hcopy (c + 1)).1.loc.task c (Nat.lt_succ_self c) (Nat.ne_of_gt hlt), htask,
      Function.update_of_ne (Nat.ne_of_gt hlt)]
    cases hq : (k.task c).nsproxy with
    | none => rfl
    | some q =>
      have := (hw.task c q hq).1
      omega
  split
  · have hsw := setTask_switched k₂ k.nextTask none
    exact ⟨hwi.next (hwi.grows.wf.setTask (by simp)) (hsw.local (Or.inl rfl)), hsw.brood hdead⟩
  split
  · have hsw := exitTaskNamespaces_switched k₂ k.nextTask
    exact ⟨hwi.next (hwi.grows.wf.exitTaskNamespaces _) (hsw.local (Or.inl rfl)),
      hsw.brood hdead⟩
  · refine setActive_within hwi (hcopy k.nextTask).2 hdead ?_ rfl
    intro x hx
    rw [hx]

/-- What a call by `t` leaves: `t` and its children are below where `t` was. -/
structure Confines (k : Kernel) (t : ℕ) (k' : Kernel) : Prop where
  within : Within k.nextTask t k k'
  self : Stands k' (k.task t).activePidNs t
  brood : Brood k' (k.task t).activePidNs k.nextTask

theorem kernelClone_confines (hw : Wf k) (hf : Forest k) (ht : t < k.nextTask)
    (hs : Stands k (k.task t).activePidNs t) (flags : Flags) (e : Env) :
    Confines k t (k.kernelClone flags t e).1 := by
  obtain ⟨hwi, hb⟩ := kernelClone_brood hw hf ht hs flags e
  exact ⟨hwi.widen (Nat.le_refl _) (Nat.le_refl _), hwi.stands ht (Nat.ne_of_lt ht) hs, hb⟩

/-! ## `clone` and `clone3` -/

/-- What is saved for the restore step, of a caller that is `a` or below it. -/
def Saved (k : Kernel) (a : ℕ) (ctx : CloneCtx) : Prop :=
  Given k (some ctx.savePid) ctx.saveIpc ∧ Below k a ctx.savePid

theorem Saved.within {ctx : CloneCtx} (h : Saved k a ctx) (hw : Within T p k k') :
    Saved k' a ctx :=
  ⟨h.1.grows hw.grows, hw.below (h.1.1 _ rfl) h.2⟩

theorem cloneCtxEnter_within (hw : Wf k) (hf : Forest k) (ht : t < k.nextTask)
    (hs : Stands k (k.task t).activePidNs t) (flags : Flags) (e : Env) :
    Within T t k (k.cloneCtxEnter flags t e).1 ∧
      Stands (k.cloneCtxEnter flags t e).1 (k.task t).activePidNs t ∧
      ∀ ctx, (k.cloneCtxEnter flags t e).2 = .ok ctx →
        Saved (k.cloneCtxEnter flags t e).1 (k.task t).activePidNs ctx := by
  have hg := (hw.cloneCtxEnter flags ht e).2
  unfold cloneCtxEnter at hg ⊢
  rcases hr : k.newNamespaces flags t t e with ⟨k₁, err | ⟨newPid, newIpc⟩⟩ <;> rw [hr] at hg <;>
    dsimp only at hg ⊢
  · obtain ⟨hwi, hst⟩ := newNamespaces_failed (T := T) (p := t) hw hf hr
    exact ⟨hwi, hst _ _ hs, by simp⟩
  obtain ⟨hnew, hbred⟩ := newNamespaces_bred (T := T) (p := t) hw hf hr
  have hs₁ := hs.quiet hw hf (newNamespaces_ok hr).1 hnew.loc.pids
  rcases hr' : k₁.createNewNamespaces 0 t e.cnnPriv with ⟨k₂, err | priv⟩ <;> rw [hr'] at hg <;>
    dsimp only at hg ⊢
  · obtain ⟨rfl, -⟩ := createNewNamespaces_error hr'
    have hq := putNew_quiet k₂ newPid newIpc
    have hp := putNew_pids k₂ newPid newIpc
    exact ⟨hnew.next hnew.grows.wf.putNew (Local.of_quiet hq hp),
      hs₁.quiet hnew.grows.wf hnew.forest' hq hp, by simp⟩
  obtain ⟨hmake, rfl, hlt, y, ha, hb⟩ :=
    createNew_below (T := T) (p := t) hnew.grows.wf hnew.forest' hs₁ hr'
  have ht₁ := Nat.lt_of_lt_of_le ht hnew.grows.task
  obtain ⟨hsw, hst⟩ := hmake.switchTo ht₁ hlt (ha.names hb)
  have htask := (switchTaskNamespaces_switched k₂ t (some k₁.nextNsp)).task
  have hq : ((k₂.switchTaskNamespaces t (some k₁.nextNsp)).task t).nsproxy = some k₁.nextNsp := by
    rw [htask, Function.update_self]
  split
  · exact ⟨hnew.trans hsw, hst, by simp⟩
  next x hx =>
  rw [hx] at hg
  obtain ⟨hat, hats⟩ :=
    (hnew.trans hsw).attach hq hnew.grows.nsp (hbred.within hsw) hst
  refine ⟨hat, hats, ?_⟩
  rintro ctx ⟨⟩
  refine ⟨hg _ rfl, ?_⟩
  exact (hst x (by rw [nsproxyOf, hq]; exact hx)).pids (hnew.trans hsw).forest'
    (hsw.grows.wf.nsp _ x hx).2.2.1 (attach_pids _ _ newPid newIpc)

/-- A new nsproxy is written. -/
theorem modifyNsp_local {b : ℕ} (hq : b ≤ q) (f : Nsproxy → Nsproxy) :
    Local b T p k (k.modifyNsp q f) := by
  refine ⟨Pids.of_eq rfl rfl, ?_, fun _ _ _ => rfl, fun _ _ => rfl⟩
  intro q' hq' x hx
  simp only [modifyNsp, Function.update_of_ne (show q' ≠ q by omega)] at hx
  exact ⟨x, hx, rfl⟩

/-- A task that is not switched to what was made for it. -/
theorem nsproxySwitch_within (h : Within T p k k₁) (hp : p < k.nextTask) (hq : q < k₁.nextNsp)
    (hb : ∀ x, k₁.nsp q = some x → Below k₁ a x.pidNsForChildren) (hs : Stands k₁ a p) :
    Within T p k (k₁.nsproxySwitch p (some q)) ∧ Stands (k₁.nsproxySwitch p (some q)) a p := by
  have hg : Grows k₁ (k₁.nsproxySwitch p (some q)) := by
    refine h.grows.wf.nsproxySwitch ?_
    rintro q' ⟨⟩
    exact ⟨Nat.lt_of_lt_of_le hp h.grows.task, hq⟩
  unfold nsproxySwitch at hg ⊢
  split
  · next hsym =>
    rw [if_pos hsym] at hg
    exact h.switch (switchRun_switched k₁ p (some q)) hg hb
  · exact ⟨h, hs⟩

/-- **The restore step that does not fail.** -/
theorem cloneCtxLeave_within (hw : Wf k) (hf : Forest k) (ht : t < k.nextTask) {ctx : CloneCtx}
    (hc : Saved k a ctx) (hs : Stands k a t) (hleave : e.cnnLeave = 0) :
    Within T t k (k.cloneCtxLeave t ctx e) ∧ Stands (k.cloneCtxLeave t ctx e) a t := by
  unfold cloneCtxLeave
  rw [hleave]
  rcases hr : k.createNewNamespaces 0 t 0 with ⟨k₁, err | priv2⟩ <;> dsimp only
  · obtain ⟨rfl, -⟩ := createNewNamespaces_error hr
    have hnone : k₁.nsproxyOf t = none := by
      cases hx : k₁.nsproxyOf t with
      | none => rfl
      | some x =>
        rw [createNewNamespaces_eq hx (by decide), if_neg (by simp)] at hr
        cases (Prod.mk.inj hr).2
    split
    · exact ⟨Within.refl hw hf, hs⟩
    next q hq =>
    have hnsp : k₁.nsp q = none := by rwa [nsproxyOf, hq] at hnone
    have hsame : (k₁.restore q ctx).nsp = k₁.nsp := by
      simp [restore, setIpcNs, setPidNs, modifyNsp, hnsp]
    have hquiet : Quiet k₁ (k₁.restore q ctx) := ⟨rfl, rfl, hsame, rfl, rfl, rfl, rfl⟩
    have hpids : Pids k₁ (k₁.restore q ctx) := Pids.of_eq rfl rfl
    exact ⟨Within.quiet hw hf (hw.restore hc.1 q) hquiet hpids, hs.quiet hw hf hquiet hpids⟩
  · obtain ⟨hmake, rfl, hlt, y, ha, hb⟩ := createNew_below (T := T) (p := t) hw hf hs hr
    have hs₁ := hs.added hw hf ha hmake.loc.pids
    have hc₁ := hc.within hmake
    have hg := hmake.grows.wf.restore hc₁.1 k.nextNsp
    have hloc : Local k.nextNsp T t k₁ (k₁.restore k.nextNsp ctx) :=
      (modifyNsp_local (Nat.le_refl _) _).trans (modifyNsp_local (Nat.le_refl _) _)
    have hwi := hmake.next hg hloc
    have hnsp : ∀ q ≠ k.nextNsp, (k₁.restore k.nextNsp ctx).nsp q = k₁.nsp q := by
      intro q hq
      simp only [restore, setIpcNs, setPidNs, modifyNsp, Function.update_of_ne hq]
    have hpids : Pids k₁ (k₁.restore k.nextNsp ctx) := Pids.of_eq rfl rfl
    refine nsproxySwitch_within hwi ht (Nat.lt_of_lt_of_le hlt hg.nsp) ?_ ?_
    · intro x hx
      simp only [restore, setIpcNs, setPidNs, modifyNsp, Function.update_self,
        Option.map_map] at hx
      obtain ⟨z, -, rfl⟩ := Option.map_eq_some_iff.1 hx
      exact hc₁.2.pids hmake.forest' (hc₁.1.1 _ rfl) hpids
    · intro x hx
      obtain ⟨q, hq, hqx⟩ := nsproxyOf_some hx
      change (k₁.task t).nsproxy = some q at hq
      have hold : q < k.nextNsp := (hw.task t q (ha.task ▸ hq)).2
      rw [hnsp q (Nat.ne_of_lt hold)] at hqx
      have hx₁ : k₁.nsproxyOf t = some x := by rw [nsproxyOf, hq]; exact hqx
      exact (hs₁ x hx₁).pids hmake.forest' (hmake.grows.wf.names hx₁).2.2.1 hpids

/-- The children that are there stay where they are. -/
theorem Brood.within (h : Brood k a T) (hw : ∀ T, Within T t k k') (ht : t < T) :
    Brood k' a T := by
  intro c hle x hx
  have hwi := hw (c + 1)
  have htask := hwi.loc.task c (Nat.lt_succ_self c) (by omega)
  obtain ⟨q, hq, hqx⟩ := nsproxyOf_some hx
  rw [htask] at hq ⊢
  obtain ⟨x₀, hx₀, hpid⟩ := hwi.loc.nsp q (hwi.wf.task c q hq).2 x hqx
  have hx₁ : k.nsproxyOf c = some x₀ := by rw [nsproxyOf, hq]; exact hx₀
  have hlt := (hwi.wf.names hx₁).2.2.1
  obtain ⟨hb, hst⟩ := h c hle x₀ hx₁
  rw [hpid]
  exact ⟨hwi.below (Ancestry.Levelled.used_of_below hwi.forest hst hlt).1 hb, hwi.below hlt hst⟩

/-- A call that makes no task. -/
theorem Confines.of_within (hw : ∀ T, Within T t k k') (ht : t < k.nextTask)
    (hs : Stands k' (k.task t).activePidNs t) : Confines k t k' :=
  ⟨hw _, hs, ((hw 0).wf.brood _).within hw ht⟩

/-- **Between entering and leaving**, for a call that confines. -/
theorem cloneBetween_confines (hw : Wf k) (hf : Forest k) (ht : t < k.nextTask)
    (hs : Stands k (k.task t).activePidNs t) (flags : Flags) (hleave : e.cnnLeave = 0)
    {orig : Kernel → Kernel × Except ℤ ℕ}
    (ho : ∀ k, Wf k → Forest k → t < k.nextTask → Stands k (k.task t).activePidNs t →
      Confines k t (orig k).1) : Confines k t (k.cloneBetween flags t e orig).1 := by
  unfold cloneBetween
  split
  · exact Confines.of_within (fun _ => Within.refl hw hf) ht hs
  have henter := fun T => cloneCtxEnter_within (T := T) hw hf ht hs flags e
  rcases hr : k.cloneCtxEnter flags t e with ⟨k₁, err | ctx⟩ <;> rw [hr] at henter <;>
    dsimp only at henter ⊢
  · exact Confines.of_within (fun T => (henter T).1) ht (henter 0).2.1
  obtain ⟨hwi, hs₁, hsaved⟩ := henter k.nextTask
  have hactive : (k₁.task t).activePidNs = (k.task t).activePidNs := hwi.loc.active t ht
  have hc := ho k₁ hwi.grows.wf hwi.forest' (Nat.lt_of_lt_of_le ht hwi.grows.task)
    (hactive ▸ hs₁)
  rcases hr' : orig k₁ with ⟨k₂, ret⟩
  rw [hr'] at hc
  dsimp only at hc ⊢
  have hin := hc.within
  have hlt := Nat.lt_of_lt_of_le ht hwi.grows.task
  have hself : Stands k₂ (k.task t).activePidNs t := hactive ▸ hc.self
  have hlast := fun T => cloneCtxLeave_within (T := T) hin.grows.wf hin.forest'
    (Nat.lt_of_lt_of_le hlt hin.grows.task) ((hsaved ctx rfl).within hin) hself hleave
  have hall : Within k.nextTask t k (k₂.cloneCtxLeave t ctx e) := by
    refine (hwi.trans ?_).trans (hlast k.nextTask).1
    exact ⟨hin.forest, hin.wf, hin.grows,
      hin.loc.widen (Nat.le_refl _) hwi.grows.task (Or.inl rfl)⟩
  have hbrood : Brood k₂ (k.task t).activePidNs k.nextTask := by
    intro c hle x hx
    by_cases hnew : k₁.nextTask ≤ c
    · exact hactive ▸ hc.brood c hnew x hx
    · obtain ⟨q, hq, -⟩ := nsproxyOf_some hx
      rw [hin.loc.task c (by omega) (by omega),
        (henter (c + 1)).1.loc.task c (Nat.lt_succ_self c) (by omega)] at hq
      have := (hw.task c q hq).1
      omega
  exact ⟨hall, (hlast 0).2, hbrood.within (fun T => (hlast T).1) ht⟩

section
variable (hw : Wf k) (hf : Forest k) (ht : t < k.nextTask)
  (hs : Stands k (k.task t).activePidNs t)
include hw hf ht hs

theorem sysClone_confines (flags : Flags) (hleave : e.cnnLeave = 0) :
    Confines k t (k.sysClone flags t e).1 := by
  unfold sysClone
  split
  · exact kernelClone_confines hw hf ht hs _ e
  · refine cloneBetween_confines hw hf ht hs flags hleave ?_
    intro k hw hf ht hs
    exact kernelClone_confines hw hf ht hs _ e

theorem kernelClone3_confines (flags : Flags) (u : UserArgs) (e : Env) :
    Confines k t (k.kernelClone3 flags t u e).1 := by
  unfold kernelClone3
  split
  · exact Confines.of_within (fun _ => Within.refl hw hf) ht hs
  · exact kernelClone_confines hw hf ht hs flags e

theorem sysClone3_confines (flags : Flags) (u : UserArgs) (hleave : e.cnnLeave = 0) :
    Confines k t (k.sysClone3 flags t u e).1 := by
  unfold sysClone3
  split
  · exact kernelClone3_confines hw hf ht hs flags u e
  · refine cloneBetween_confines hw hf ht hs flags hleave ?_
    intro k hw hf ht hs
    split
    · exact Confines.of_within (fun _ => Within.refl hw hf) ht hs
    · exact kernelClone3_confines hw hf ht hs _ u e

end

end DroidLkm.Slot.Kernel
