/-
  Namespaces of tasks — the pid namespace that a task is in.

  `task_active_pid_ns` is fixed at birth: no call writes it in a task that is
  there (`step_active`).

  * `SameActive T`: the tasks before `T` are in the pid namespaces they were
    in; one lemma for each function.
-/
import DroidLkm.Slot.Confined
import DroidLkm.Slot.Entering
import DroidLkm.Slot.Proxies
import DroidLkm.Slot.Spawn

namespace DroidLkm.Slot.Kernel

open Machine

variable {k k' k₁ k₂ : Kernel} {t p q T : ℕ} {new : Option ℕ} {flags : Flags} {e : Env}
  {x : Nsproxy} {act : Act} {cfg : Config}

def SameActive (T : ℕ) (k k' : Kernel) : Prop :=
  ∀ t < T, (k'.task t).activePidNs = (k.task t).activePidNs

theorem SameActive.refl (k : Kernel) : SameActive T k k := fun _ _ => rfl

theorem SameActive.trans (h : SameActive T k k₁) (h' : SameActive T k₁ k₂) : SameActive T k k₂ :=
  fun t ht => (h' t ht).trans (h t ht)

theorem SameActive.of_task (h : k'.task = k.task) : SameActive T k k' := fun t _ => by rw [h]

theorem Quiet.active (h : Quiet k k') : SameActive T k k' := SameActive.of_task h.task

theorem Switched.active (h : Switched p new k k') : SameActive T k k' := by
  intro t _
  rw [h.task, Function.update_apply]
  split
  next ht => rw [ht]
  · rfl

theorem Leaves.active {b : ℕ} (h : Leaves b p k k') (hp : T ≤ p) : SameActive T k k' :=
  fun t ht => by rw [h.task t (Nat.ne_of_lt (Nat.lt_of_lt_of_le ht hp))]

/-! ## Making an nsproxy -/

theorem createNewNamespaces_active (k : Kernel) (flags : Flags) (t : ℕ) (err : ℤ) :
    SameActive T k (k.createNewNamespaces flags t err).1 := by
  unfold createNewNamespaces
  split
  · exact SameActive.refl k
  · split
    · exact SameActive.refl k
    · split <;> exact SameActive.of_task rfl

theorem createEntry_active (k : Kernel) (flags : Flags) (t : ℕ) (e : Env) :
    SameActive T k (k.createEntry flags t t e).1 := by
  rcases hr : k.createEntry flags t t e with ⟨k₁, err | q⟩
  · exact (createEntry_error hr).1.active
  · obtain ⟨x, -, -, ha⟩ := createEntry_ok hr
    exact SameActive.of_task ha.task

/-! ## Calls -/

theorem kernelUnshare_active (k : Kernel) (flags : Flags) (t : ℕ) (e : Env) :
    SameActive T k (k.kernelUnshare flags t e).1 := by
  have hc := createEntry_active (T := T) k flags t e
  unfold kernelUnshare
  split
  · exact SameActive.refl k
  split
  · exact SameActive.refl k
  split
  · exact SameActive.refl k
  rcases hr : k.createEntry flags t t e with ⟨k₁, err | q⟩ <;> rw [hr] at hc <;> dsimp only at hc ⊢
  · exact hc
  · exact hc.trans (switchTaskNamespaces_switched k₁ t (some q)).active

theorem slotInstallIpcns_active (k : Kernel) (t : ℕ) (e : Env) :
    SameActive T k (k.slotInstallIpcns t e).1 := by
  have hc := (ipcnsCreate_quiet k e.ipcns).active (T := T)
  unfold slotInstallIpcns
  rcases hr : k.ipcnsCreate e.ipcns with ⟨k₁, err | n⟩ <;> rw [hr] at hc <;> dsimp only at hc ⊢
  · exact hc
  · split
    · exact hc.trans (ipcnsPut_quiet k₁ (some n)).active
    · exact hc

theorem slotInstallPidns_active (k : Kernel) (t : ℕ) (e : Env) :
    SameActive T k (k.slotInstallPidns t e).1 := by
  have hc : SameActive T k (k.pidnsCreateForCurrent t e.pidns).1 :=
    (pidnsCreate_quiet k _ e.pidns).active
  unfold slotInstallPidns
  rcases hr : k.pidnsCreateForCurrent t e.pidns with ⟨k₁, err | n⟩ <;> rw [hr] at hc <;>
    dsimp only at hc ⊢
  · exact hc
  · split
    · exact hc.trans (pidnsPut_quiet k₁ (some n)).active
    · exact hc

theorem sysUnshare_active (k k₀ : Kernel) (flags : Flags) (t : ℕ) (e : Env) :
    SameActive T k (Slot.sysUnshare (k₀.unshareOps t e) k flags).1 := by
  have hu := fun flags => kernelUnshare_active (T := T) k flags t e
  have hipc : ∀ k, SameActive T k (installIpcns (k₀.unshareOps t e) k flags).1 := by
    intro k
    unfold installIpcns
    split
    · exact slotInstallIpcns_active k t e
    · exact SameActive.refl k
  have hpid : ∀ k, SameActive T k (installPidns (k₀.unshareOps t e) k flags).1 := by
    intro k
    unfold installPidns
    split
    · exact slotInstallPidns_active k t e
    · exact SameActive.refl k
  have hl : SameActive T k (Slot.unshareLegacy (k₀.unshareOps t e) k flags).1 := by
    have hg := (hu (legacyFlags flags)).trans (hipc _)
    unfold Slot.unshareLegacy
    simp only [flushIpc, unshareOps, id_eq, ite_self]
    split
    · exact hu _
    split
    · exact hg
    · exact hg.trans (hpid _)
  unfold Slot.sysUnshare
  simp only [flushIpc, unshareOps, id_eq, ite_self]
  split
  · exact hu flags
  split
  · exact hu flags
  split
  · exact SameActive.refl k
  split
  · exact hl
  · exact hu flags

theorem setnsRun_active (k : Kernel) (t : ℕ) (e : Env) {install : Kernel → ℕ → Kernel × ℤ}
    (hi : ∀ k q, (install k q).1.task = k.task) : SameActive T k (k.setnsRun t e install).1 := by
  have hc := createEntry_active (T := T) k 0 t e
  unfold setnsRun
  rcases hr : k.createEntry 0 t t e with ⟨k₁, err | q⟩ <;> rw [hr] at hc <;> dsimp only at hc ⊢
  · exact hc
  · have hins := hc.trans (SameActive.of_task (hi k₁ q))
    split
    · exact hins
    · exact hins.trans (switchTaskNamespaces_switched _ t (some q)).active

/-! ## `clone` -/

theorem nsproxySwitch_active (k : Kernel) (t : ℕ) (new : Option ℕ) :
    SameActive T k (k.nsproxySwitch t new) := by
  unfold nsproxySwitch
  split
  · exact (switchRun_switched k t new).active
  · exact SameActive.refl k

theorem cloneCtxLeave_active (k : Kernel) (t : ℕ) (ctx : CloneCtx) (e : Env) :
    SameActive T k (k.cloneCtxLeave t ctx e) := by
  have hc := createNewNamespaces_active (T := T) k 0 t e.cnnLeave
  unfold cloneCtxLeave
  rcases hr : k.createNewNamespaces 0 t e.cnnLeave with ⟨k₁, err | q⟩ <;> rw [hr] at hc <;>
    dsimp only at hc ⊢
  · split <;> exact hc
  · exact hc.trans (nsproxySwitch_active (k₁.restore q ctx) t (some q))

theorem kernelClone_active (hw : Wf k) (hx : k.nsproxyOf t = some x) (hT : T ≤ k.nextTask)
    (flags : Flags) (e : Env) : SameActive T k (k.kernelClone flags t e).1 :=
  (kernelClone_spec hw hx flags e).1.active hT

/-- The task has been given a private nsproxy. -/
theorem cloneBetween_active (hw : Wf k) (ht : t < k.nextTask) (hT : T ≤ k.nextTask) (flags : Flags)
    (e : Env) {orig : Kernel → Kernel × Except ℤ ℕ}
    (ho : ∀ k x, Wf k → k.nsproxyOf t = some x → T ≤ k.nextTask → SameActive T k (orig k).1) :
    SameActive T k (k.cloneBetween flags t e orig).1 := by
  have hn := hw.cloneCtxEnter flags ht e
  have hspec := cloneCtxEnter_spec hw flags t e
  unfold cloneBetween
  split
  · exact SameActive.refl k
  rcases hr : k.cloneCtxEnter flags t e with ⟨k₁, err | ctx⟩ <;> rw [hr] at hn hspec <;>
    dsimp only at hn hspec ⊢
  · exact hspec.1.active
  · obtain ⟨-, x, hin⟩ := hspec
    have hx : k₁.nsproxyOf t = some (k.privNsp flags x) := by
      rw [nsproxyOf, hin.task, Function.update_self]
      exact hin.nsp
    have henter : SameActive T k k₁ := by
      intro u _
      rw [hin.task, Function.update_apply]
      split
      next hu => rw [hu]
      · rfl
    have horig := ho k₁ _ hn.1.wf hx (hin.nextTask ▸ hT)
    exact (henter.trans horig).trans (cloneCtxLeave_active _ t ctx e)

theorem sysClone_active (hw : Wf k) (ht : t < k.nextTask) (hx : k.nsproxyOf t = some x)
    (hT : T ≤ k.nextTask) (flags : Flags) (e : Env) : SameActive T k (k.sysClone flags t e).1 := by
  unfold sysClone
  split
  · exact kernelClone_active hw hx hT _ e
  · exact cloneBetween_active hw ht hT flags e fun k₁ x hw₁ hx₁ hT₁ =>
      kernelClone_active hw₁ hx₁ hT₁ _ e

theorem kernelClone3_active (hw : Wf k) (hx : k.nsproxyOf t = some x) (hT : T ≤ k.nextTask)
    (flags : Flags) (u : UserArgs) (e : Env) : SameActive T k (k.kernelClone3 flags t u e).1 := by
  unfold kernelClone3
  split
  · exact SameActive.refl k
  · exact kernelClone_active hw hx hT flags e

theorem sysClone3_active (hw : Wf k) (ht : t < k.nextTask) (hx : k.nsproxyOf t = some x)
    (hT : T ≤ k.nextTask) (flags : Flags) (u : UserArgs) (e : Env) :
    SameActive T k (k.sysClone3 flags t u e).1 := by
  unfold sysClone3
  split
  · exact kernelClone3_active hw hx hT flags u e
  · refine cloneBetween_active hw ht hT flags e ?_
    intro k₁ x hw₁ hx₁ hT₁
    split
    · exact SameActive.refl k₁
    · exact kernelClone3_active hw₁ hx₁ hT₁ _ u e

/-! ## Steps -/

/-- **No call moves a task to another pid namespace.** -/
theorem step_active (hw : Wf k) (hb : Backed k 0) (hs : k.step act = some k') :
    SameActive k.nextTask k k' := by
  have hle := Nat.le_refl k.nextTask
  cases act with
  | fork t flags e =>
    obtain ⟨ht, rfl⟩ := by simpa [step] using hs
    obtain ⟨x, hx⟩ := hb.nsproxyOf hw ht
    exact kernelClone_active hw hx hle _ e
  | clone t flags e =>
    obtain ⟨ht, rfl⟩ := by simpa [step] using hs
    obtain ⟨x, hx⟩ := hb.nsproxyOf hw ht
    exact sysClone_active hw (hw.live ht) hx hle flags e
  | clone3 t flags u e =>
    obtain ⟨ht, rfl⟩ := by simpa [step] using hs
    obtain ⟨x, hx⟩ := hb.nsproxyOf hw ht
    exact sysClone3_active hw (hw.live ht) hx hle flags u e
  | unshare t flags e =>
    obtain ⟨-, rfl⟩ := by simpa [step] using hs
    exact sysUnshare_active k k flags t e
  | unshare32 t flags e =>
    obtain ⟨-, rfl⟩ := by simpa [step] using hs
    exact kernelUnshare_active k flags t e
  | setnsIpc t n e =>
    obtain ⟨-, rfl⟩ := by simpa [step] using hs
    refine setnsRun_active k t e ?_
    intro k q
    unfold ipcnsInstall
    split <;> rfl
  | setnsPid t n e =>
    obtain ⟨-, rfl⟩ := by simpa [step] using hs
    refine setnsRun_active k t e ?_
    intro k q
    unfold pidnsInstall
    dsimp only
    split_ifs <;> rfl
  | setnsHost t e =>
    obtain ⟨-, rfl⟩ := by simpa [step] using hs
    refine setnsRun_active k t e ?_
    intro k q
    unfold hostPidInstall
    dsimp only
    split_ifs <;> rfl
  | setnsOther t other err e =>
    obtain ⟨-, rfl⟩ := by simpa [step] using hs
    refine setnsRun_active k t e ?_
    intro k q
    unfold otherInstall
    split <;> rfl
  | openIpc t =>
    obtain rfl := by simpa [step] using hs
    exact SameActive.of_task rfl
  | closeIpc n =>
    obtain ⟨-, rfl⟩ := by simpa [step] using hs
    exact (ipcnsPut_quiet { k with handles := k.handles.erase n } (some n)).active
  | exit t =>
    obtain ⟨-, rfl⟩ := by simpa [step] using hs
    exact (exitTaskNamespaces_switched k t).active

end DroidLkm.Slot.Kernel
