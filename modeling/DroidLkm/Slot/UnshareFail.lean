/-
  A failed `unshare`.

  `droid_lkm_sys_unshare` flushes the undo list and the list of segments before
  it calls the kernel, and `droid_lkm_unshare_legacy` installs its namespaces
  after the kernel has made others; neither takes anything back.

  * `Harmless`: the call is not served by the module, or there is nothing to
    flush, or it is the kernel's part of the legacy path that fails;
  * `unshare_failed`: a failed call leaves everything alone exactly then;
  * `unshare_failed_flushed`: one that does not.
-/
import DroidLkm.Slot.Effects
import DroidLkm.Slot.Flush
import DroidLkm.Slot.Machine

namespace DroidLkm.Slot

variable {s s' : Sys} {k k' : Kernel} {t q n l : ℕ} {e : Env} {flags : Flags} {x : Nsproxy}

/-! ## The kernel's part -/

namespace Kernel

/-- Names that are in use have been given out, of the other namespaces too. -/
structure Named (k : Kernel) : Prop where
  wf : Wf k
  other : ∀ t x, k.nsproxyOf t = some x → x.other < k.nextOther

/-- The other namespaces of a task. -/
def otherOf (k : Kernel) (t : ℕ) : Option ℕ := (k.nsproxyOf t).map (·.other)

theorem Quiet.namesOf (h : Quiet k k') (t : ℕ) : k'.namesOf t = k.namesOf t := by
  rw [Kernel.namesOf, Kernel.namesOf, h.nsproxyOf]

theorem otherOf_congr (h : k'.namesOf t = k.namesOf t) : k'.otherOf t = k.otherOf t := by
  have := congrArg (Option.map fun y : ℕ × Option ℕ × ℕ => y.2.2) h
  simpa [namesOf, otherOf, Function.comp_def] using this

theorem kernelUnshare_error (h : (k.kernelUnshare flags t e).2 ≠ 0) :
    (k.kernelUnshare flags t e).1.namesOf t = k.namesOf t := by
  unfold kernelUnshare at h ⊢
  split_ifs at h ⊢ with hb hf hc
  · rfl
  · rfl
  · rfl
  · rcases hr : k.createEntry flags t t e with ⟨k₁, err | q⟩ <;> rw [hr] at h <;> dsimp only at h ⊢
    · exact (createEntry_error hr).1.namesOf t
    · exact absurd rfl h

theorem nsproxySwitchRun_quiet (k : Kernel) (t : ℕ) (new : Option ℕ) :
    Quiet (k.switchTask t new) (k.nsproxySwitchRun t new switchTask) := by
  unfold nsproxySwitchRun
  dsimp only
  split
  · exact nsproxyDrop_quiet _ _
  · exact Quiet.refl _

theorem switchTaskNamespaces_quiet (k : Kernel) (t : ℕ) (new : Option ℕ) :
    Quiet (k.switchTask t new) (k.switchTaskNamespaces t new) := by
  unfold switchTaskNamespaces
  split
  · exact nsproxySwitchRun_quiet k t new
  · exact Quiet.refl _

/-- A task that is switched names the new nsproxy. -/
theorem switchTaskNamespaces_nsproxyOf {old : ℕ} (hold : (k.task t).nsproxy = some old)
    (hne : old ≠ q) : (k.switchTaskNamespaces t (some q)).nsproxyOf t = k.nsp q := by
  rw [(switchTaskNamespaces_quiet k t (some q)).nsproxyOf, switchTask, hold]
  show ((Function.update k.task t _ t).nsproxy).bind (Function.update k.nsp old _) = _
  rw [Function.update_self, Option.bind_some, Function.update_of_ne hne.symm]

/-- When the kernel makes namespaces, the other ones of the task are new. -/
theorem kernelUnshare_other (hk : Wf k) (hf : has flags KERNEL_NS = true)
    (ho : has flags OURS = false) (h : (k.kernelUnshare flags t e).2 = 0) :
    (k.nsproxyOf t).isSome ∧ (k.kernelUnshare flags t e).1.otherOf t = some k.nextOther := by
  unfold kernelUnshare at h ⊢
  by_cases hb : e.before = 0
  swap
  · rw [if_pos hb] at h
    exact absurd h hb
  rw [if_neg (by simpa using hb)] at h ⊢
  simp only [hf, Bool.not_true, Bool.false_eq_true, if_false] at h ⊢
  split_ifs at h ⊢ with hc
  · cases h
  · rcases hr : k.createEntry flags t t e with ⟨k₁, err | q⟩ <;> rw [hr] at h <;> dsimp only at h ⊢
    · exact absurd h (createEntry_error hr).2
    · obtain ⟨x, hx, rfl, ha⟩ := createEntry_ok hr
      obtain ⟨old, hold, -⟩ := nsproxyOf_some hx
      have hne : old ≠ k.nextNsp := Nat.ne_of_lt (hk.task t old hold).2
      refine ⟨by rw [hx]; rfl, ?_⟩
      rw [otherOf, switchTaskNamespaces_nsproxyOf (by rw [ha.task]; exact hold) hne, ha.nsp,
        Function.update_self, newNsp_eq ho]
      simp only [copyNsp, hf, if_true, Option.map_some]

/-- A write to an nsproxy that keeps its other namespaces. -/
theorem modifyNsp_other {f : Nsproxy → Nsproxy} (hf : ∀ x, (f x).other = x.other) (k : Kernel)
    (q t : ℕ) : (k.modifyNsp q f).otherOf t = k.otherOf t := by
  unfold otherOf nsproxyOf modifyNsp
  cases (k.task t).nsproxy with
  | none => rfl
  | some p =>
    rw [Option.bind_some, Option.bind_some]
    dsimp only
    rcases eq_or_ne p q with rfl | hne
    · rw [Function.update_self, Option.map_map]
      exact congrArg (fun g => Option.map g (k.nsp p)) (funext hf)
    · rw [Function.update_of_ne hne]

theorem slotInstallIpcns_other (k : Kernel) (t : ℕ) (e : Env) :
    (k.slotInstallIpcns t e).1.otherOf t = k.otherOf t := by
  unfold slotInstallIpcns ipcnsCreate
  by_cases he : e.ipcns = 0
  · rw [if_neg (by simpa using he)]
    dsimp only
    split
    · exact otherOf_congr ((ipcnsPut_quiet _ _).namesOf t)
    · exact modifyNsp_other (f := fun x => { x with ipcNs := some k.nextIpc }) (fun _ => rfl) k _ t
  · rw [if_pos he]

theorem slotInstallPidns_other (k : Kernel) (t : ℕ) (e : Env) :
    (k.slotInstallPidns t e).1.otherOf t = k.otherOf t := by
  unfold slotInstallPidns pidnsCreateForCurrent pidnsCreate
  dsimp only
  split_ifs
  · rfl
  · rfl
  · dsimp only
    split
    · exact otherOf_congr ((pidnsPut_quiet _ _).namesOf t)
    · exact modifyNsp_other (f := fun x => { x with pidNsForChildren := k.nextPid })
        (fun _ => rfl) k _ t

end Kernel

/-! ## The flags of the legacy path -/

/-- What makes the kernel's part of the legacy path fail. -/
def KernelRefuses (k : Kernel) (flags : Flags) (t : ℕ) (e : Env) : Prop :=
  e.before ≠ 0 ∨ Kernel.kernelCapable flags e = false ∨ k.nsproxyOf t = none ∨ e.cnn ≠ 0

theorem kernelRefuses_iff (hh : k.cfg.cnnHooked = false) (hf : has flags KERNEL_NS = true)
    (ho : has flags OURS = false) :
    KernelRefuses k flags t e ↔ (k.kernelUnshare flags t e).2 ≠ 0 := by
  unfold KernelRefuses Kernel.kernelUnshare
  by_cases hb : e.before = 0
  swap
  · rw [if_pos hb]
    exact iff_of_true (Or.inl hb) hb
  rw [if_neg (by simpa using hb)]
  simp only [hf, Bool.not_true, Bool.false_eq_true, if_false]
  by_cases hc : Kernel.kernelCapable flags e = true
  swap
  · have hc' : Kernel.kernelCapable flags e = false := by simpa using hc
    simp only [hc', Bool.not_false, if_true]
    exact iff_of_true (Or.inr (Or.inl trivial)) (by decide)
  simp only [hc, Bool.not_true, Bool.false_eq_true, if_false, Kernel.createEntry, hh]
  cases hx : k.nsproxyOf t with
  | none =>
    simp only [Kernel.createNewNamespaces, hx]
    exact iff_of_true (Or.inr (Or.inr (Or.inl trivial))) (by decide)
  | some x =>
    rw [Kernel.createNewNamespaces_eq hx ho]
    by_cases hcnn : e.cnn = 0
    · rw [if_neg (by simpa using hcnn)]
      simp [hb, hcnn]
    · rw [if_pos hcnn]
      exact iff_of_true (Or.inr (Or.inr (Or.inr hcnn))) hcnn

/-! ## What is flushed -/

namespace Sys

theorem exitSemLoop_kernel (n l : ℕ) (entries : List (ℕ × ℕ)) (s : Sys) :
    (exitSemLoop n l entries s).kernel = s.kernel ∧
      (exitSemLoop n l entries s).undoOf = s.undoOf ∧
      (exitSemLoop n l entries s).shmClist = s.shmClist := by
  induction entries generalizing s with
  | nil => exact ⟨rfl, rfl, rfl⟩
  | cons a rest ih =>
    unfold exitSemLoop
    split
    · exact ⟨rfl, rfl, rfl⟩
    · exact ih _

theorem exitSem_spec (s : Sys) (t : ℕ) : (s.exitSem t).kernel = s.kernel ∧
    (s.exitSem t).shmClist = s.shmClist ∧ (s.exitSem t).undoOf t = none := by
  unfold exitSem
  split
  · rename_i hnone
    exact ⟨rfl, rfl, hnone⟩
  · dsimp only
    split
    · exact ⟨rfl, rfl, Function.update_self ..⟩
    · obtain ⟨hk, hu, hs⟩ := exitSemLoop_kernel (s.kernel.ipcnsTaskNs t) ‹ℕ› (s.lists ‹ℕ›).listProc
        { s with
          undoOf := Function.update s.undoOf t none
          lists := Function.update s.lists ‹ℕ›
            { s.lists ‹ℕ› with refcnt := (s.lists ‹ℕ›).refcnt - 1 } }
      refine ⟨hk, hs, ?_⟩
      rw [hu]
      exact Function.update_self ..

theorem exitSem_none (h : s.undoOf t = none) : s.exitSem t = s := by
  unfold exitSem
  rw [h]

theorem exitShmOne_spec (s : Sys) (id : ℕ) : (s.exitShmOne id).kernel = s.kernel ∧
    (s.exitShmOne id).shmClist = s.shmClist ∧ (s.exitShmOne id).undoOf = s.undoOf := by
  unfold exitShmOne
  split
  · exact ⟨rfl, rfl, rfl⟩
  split <;> exact ⟨rfl, rfl, rfl⟩

theorem foldl_exitShmOne (ids : List ℕ) (s : Sys) :
    (ids.foldl exitShmOne s).kernel = s.kernel ∧
      (ids.foldl exitShmOne s).shmClist = s.shmClist ∧
      (ids.foldl exitShmOne s).undoOf = s.undoOf := by
  induction ids generalizing s with
  | nil => exact ⟨rfl, rfl, rfl⟩
  | cons id ids ih =>
    obtain ⟨hk, hs, hu⟩ := ih (s.exitShmOne id)
    obtain ⟨hk', hs', hu'⟩ := exitShmOne_spec s id
    exact ⟨hk.trans hk', hs.trans hs', hu.trans hu'⟩

theorem exitShm_spec (s : Sys) (t : ℕ) : (s.exitShm t).kernel = s.kernel ∧
    (s.exitShm t).shmClist t = [] ∧ (s.exitShm t).undoOf = s.undoOf := by
  obtain ⟨hk, hs, hu⟩ := foldl_exitShmOne (s.shmClist t)
    { s with shmClist := Function.update s.shmClist t [] }
  refine ⟨hk, ?_, hu⟩
  rw [exitShm, hs]
  exact Function.update_self ..

theorem exitShm_nil (h : s.shmClist t = []) : s.exitShm t = s := by
  unfold exitShm
  rw [h, List.foldl_nil, ← h, Function.update_eq_self]

/-- There is nothing to flush. -/
def NothingToFlush (s : Sys) (t : ℕ) (flags : Flags) : Prop :=
  (has flags (CLONE_NEWIPC ||| CLONE_SYSVSEM) = true → s.undoOf t = none) ∧
    (has flags CLONE_NEWIPC = true → s.shmClist t = [])

theorem flushIpc_kernel (s₀ s : Sys) (t : ℕ) (e : Env) (flags : Flags) :
    (flushIpc (s₀.unshareOps t e) s flags).kernel = s.kernel := by
  unfold flushIpc
  dsimp only [unshareOps]
  split_ifs
  · rw [(exitShm_spec _ t).1, (exitSem_spec s t).1]
  · exact (exitShm_spec s t).1
  · exact (exitSem_spec s t).1
  · rfl

/-- A flush that finds something leaves nothing of it. -/
theorem flushIpc_unchanged (s₀ : Sys)
    (hu : (flushIpc (s₀.unshareOps t e) s flags).undoOf t = s.undoOf t)
    (hs : (flushIpc (s₀.unshareOps t e) s flags).shmClist t = s.shmClist t) :
    NothingToFlush s t flags := by
  unfold flushIpc at hu hs
  dsimp only [unshareOps] at hu hs
  constructor
  · intro hf
    rw [if_pos hf] at hu
    rw [← hu]
    split_ifs
    · rw [(exitShm_spec _ t).2.2]
      exact (exitSem_spec s t).2.2
    · exact (exitSem_spec s t).2.2
  · intro hf
    rw [if_pos hf] at hs
    rw [← hs]
    exact (exitShm_spec _ t).2.1

theorem flushIpc_nothing (s₀ : Sys) (h : NothingToFlush s t flags) :
    flushIpc (s₀.unshareOps t e) s flags = s := by
  unfold flushIpc
  dsimp only [unshareOps]
  split_ifs with h2 h1 h1
  · rw [exitSem_none (h.1 h1), exitShm_nil (h.2 h2)]
  · exact exitShm_nil (h.2 h2)
  · exact exitSem_none (h.1 h1)
  · rfl

/-! ## The call -/

theorem unchanged_onKernel {f : Kernel → Kernel × ℤ}
    (h : (f s.kernel).1.namesOf t = s.kernel.namesOf t) : Unchanged t s (s.onKernel f).1 :=
  ⟨rfl, fun _ _ => rfl, rfl, fun _ _ => rfl, h⟩

/-- A failed call leaves everything alone: it is not the module that serves it,
    or there is nothing to flush; on the legacy path, the kernel's part fails. -/
def Harmless (s : Sys) (t : ℕ) (e : Env) (flags : Flags) : Prop :=
  has flags (OURS ||| CLONE_SYSVSEM) = true → e.gate = true →
    if s.kernel.cfg.cnnHooked then
      s.kernel.unsharePrecheck t e flags = true → s.NothingToFlush t flags
    else KernelRefuses s.kernel (legacyFlags flags) t e

theorem installIpcns_other (s₀ s : Sys) (t : ℕ) (e : Env) (flags : Flags) :
    (installIpcns (s₀.unshareOps t e) s flags).1.kernel.otherOf t = s.kernel.otherOf t := by
  unfold installIpcns
  split
  · exact s.kernel.slotInstallIpcns_other t e
  · rfl

theorem installPidns_other (s₀ s : Sys) (t : ℕ) (e : Env) (flags : Flags) :
    (installPidns (s₀.unshareOps t e) s flags).1.kernel.otherOf t = s.kernel.otherOf t := by
  unfold installPidns
  split
  · exact s.kernel.slotInstallPidns_other t e
  · rfl

/-- Once the kernel has made its namespaces, the rest of the legacy path does
    not take them back. -/
theorem unshareLegacy_other (s₀ : Sys)
    (hr : (s.kernel.kernelUnshare (legacyFlags flags) t e).2 = 0) :
    (unshareLegacy (s₀.unshareOps t e) s flags).1.kernel.otherOf t =
      (s.kernel.kernelUnshare (legacyFlags flags) t e).1.otherOf t := by
  have hflush := flushIpc_kernel s₀ (s.onKernel (·.kernelUnshare (legacyFlags flags) t e)).1 t e
    flags
  have hother : ∀ s' : Sys, s'.kernel = (s.kernel.kernelUnshare (legacyFlags flags) t e).1 →
      s'.kernel.otherOf t = (s.kernel.kernelUnshare (legacyFlags flags) t e).1.otherOf t := by
    intro s' h
    rw [h]
  unfold unshareLegacy
  dsimp only [unshareOps, onKernel, id_eq]
  rw [if_neg (by simpa using hr)]
  split
  · exact (installIpcns_other s₀ _ t e flags).trans (hother _ hflush)
  · refine (installPidns_other s₀ _ t e flags).trans ?_
    exact (installIpcns_other s₀ _ t e flags).trans (hother _ hflush)

theorem legacy_failed (s₀ : Sys) (hk : s.kernel.Named) (hh : s.kernel.cfg.cnnHooked = false) :
    Unchanged t s (unshareLegacy (s₀.unshareOps t e) s flags).1 ↔
      KernelRefuses s.kernel (legacyFlags flags) t e := by
  obtain ⟨hf, ho⟩ := has_legacyFlags flags
  rw [kernelRefuses_iff hh hf ho]
  by_cases hr : (s.kernel.kernelUnshare (legacyFlags flags) t e).2 = 0
  · refine iff_of_false ?_ (by simpa using hr)
    intro hun
    obtain ⟨hsome, hnew⟩ := Kernel.kernelUnshare_other hk.wf hf ho hr
    obtain ⟨x, hx⟩ := Option.isSome_iff_exists.1 hsome
    have hlt := hk.other t x hx
    have heq := Kernel.otherOf_congr hun.names
    rw [unshareLegacy_other s₀ hr, hnew, Kernel.otherOf, hx] at heq
    exact Nat.ne_of_gt hlt (Option.some.inj heq)
  · refine iff_of_true ?_ hr
    unfold unshareLegacy
    dsimp only [unshareOps, onKernel]
    rw [if_pos hr]
    exact unchanged_onKernel (f := (·.kernelUnshare (legacyFlags flags) t e))
      (Kernel.kernelUnshare_error hr)

/-- The call that has flushed fails in the kernel. -/
theorem flushed_failed (s₀ : Sys)
    (hret : ((flushIpc (s₀.unshareOps t e) s flags).onKernel (·.kernelUnshare flags t e)).2 ≠ 0) :
    Unchanged t s
      ((flushIpc (s₀.unshareOps t e) s flags).onKernel (·.kernelUnshare flags t e)).1 ↔
        NothingToFlush s t flags := by
  constructor
  · intro hun
    exact flushIpc_unchanged s₀ hun.undoOf hun.shmClist
  · intro hno
    rw [flushIpc_nothing s₀ hno] at hret ⊢
    exact unchanged_onKernel (f := (·.kernelUnshare flags t e)) (Kernel.kernelUnshare_error hret)

/-- `droid_lkm_sys_unshare`, with what it looks at and calls put in. -/
theorem unshare_eq : s.unshare t e flags =
    if !has flags (OURS ||| CLONE_SYSVSEM) then s.onKernel (·.kernelUnshare flags t e)
    else if !e.gate then s.onKernel (·.kernelUnshare flags t e)
    else if s.kernel.cfg.noFakeNs then (s, 0)
    else if !s.kernel.cfg.cnnHooked then unshareLegacy (s.unshareOps t e) s flags
    else if !s.kernel.unsharePrecheck t e flags then s.onKernel (·.kernelUnshare flags t e)
    else (flushIpc (s.unshareOps t e) s flags).onKernel (·.kernelUnshare flags t e) := by
  unfold unshare sysUnshare
  dsimp only [unshareOps, id_eq]
  simp only [ite_self]

/-- **A failed `unshare` leaves the caller alone exactly when it is harmless.** -/
theorem unshare_failed (hk : s.kernel.Named) (hret : (s.unshare t e flags).2 ≠ 0) :
    Unchanged t s (s.unshare t e flags).1 ↔ s.Harmless t e flags := by
  have horig : (s.onKernel (·.kernelUnshare flags t e)).2 ≠ 0 →
      Unchanged t s (s.onKernel (·.kernelUnshare flags t e)).1 := by
    intro h
    exact unchanged_onKernel (f := (·.kernelUnshare flags t e)) (Kernel.kernelUnshare_error h)
  unfold Harmless
  rw [unshare_eq] at hret ⊢
  cases hserved : has flags (OURS ||| CLONE_SYSVSEM) with
  | false =>
    rw [hserved] at hret
    exact iff_of_true (horig hret) fun h => absurd h Bool.false_ne_true
  | true =>
    rw [hserved, Bool.not_true, if_neg Bool.false_ne_true] at hret
    rw [Bool.not_true, if_neg Bool.false_ne_true]
    cases hgate : e.gate with
    | false =>
      rw [hgate] at hret
      exact iff_of_true (horig hret) fun _ h => absurd h Bool.false_ne_true
    | true =>
      rw [hgate, Bool.not_true, if_neg Bool.false_ne_true] at hret
      rw [Bool.not_true, if_neg Bool.false_ne_true]
      cases hfake : s.kernel.cfg.noFakeNs with
      | true =>
        rw [hfake] at hret
        exact absurd rfl hret
      | false =>
        rw [hfake, if_neg Bool.false_ne_true] at hret
        rw [if_neg Bool.false_ne_true]
        cases hhook : s.kernel.cfg.cnnHooked with
        | false =>
          rw [Bool.not_false, if_pos rfl, if_neg Bool.false_ne_true, legacy_failed s hk hhook]
          exact ⟨fun h _ _ => h, fun h => h rfl rfl⟩
        | true =>
          rw [hhook, Bool.not_true, if_neg Bool.false_ne_true] at hret
          rw [Bool.not_true, if_neg Bool.false_ne_true, if_pos rfl]
          cases hpre : s.kernel.unsharePrecheck t e flags with
          | false =>
            rw [hpre] at hret
            exact iff_of_true (horig hret) fun _ _ h => absurd h Bool.false_ne_true
          | true =>
            rw [hpre, Bool.not_true, if_neg Bool.false_ne_true] at hret
            rw [Bool.not_true, if_neg Bool.false_ne_true, flushed_failed s hret]
            exact ⟨fun h _ _ _ => h, fun h => h rfl rfl rfl⟩

end Sys

/-! ## One task on the host -/

theorem Kernel.init_named (cfg : Config) : (Kernel.init cfg).Named := by
  refine ⟨Kernel.init_wf cfg, ?_⟩
  intro t x hx
  obtain ⟨q, ht, hq⟩ := Kernel.nsproxyOf_some hx
  simp only [Kernel.init] at ht hq ⊢
  split at hq
  · obtain rfl := Option.some.inj hq
    exact Nat.one_pos
  · cases hq

/-- A task with a segment and an undo structure for the array 5 of the host. -/
def Sys.sample (cfg : Config) : Sys where
  kernel := Kernel.init cfg
  undoOf := fun t => if t = 0 then some 0 else none
  lists := fun _ => ⟨1, [(5, 0)]⟩
  sems := fun n id =>
    if n = 0 ∧ id = 5 then
      some { semNsems := 1, semval := fun _ => 0, pending := fun _ => [], listId := [0],
             complexCount := 0, useGlobalLock := 0, semadj := fun _ _ => 1, wakeQ := [] }
    else none
  shmClist := fun t => if t = 0 then [7] else []
  segs := fun _ => none
  rmidForced := fun _ => false
  stuck := false

/-- All hooks are in force. -/
def Config.hooked : Config := ⟨true, true, true, true, false⟩

/-- The kernel has no memory for an nsproxy. -/
def Env.noMemory : Env where
  gate := true
  capable := true
  capableIn := true
  pidns := 0
  ipcns := 0
  cnn := -ENOMEM
  cnnPriv := 0
  cnnLeave := 0
  check := 0
  before := 0
  after := 0
  user := false

/-- **A failed `unshare` has flushed.**  The kernel has no memory for the new
    nsproxy; the undo list is gone and the semaphore adjusted all the same. -/
theorem unshare_failed_flushed :
    ((Sys.sample .hooked).unshare 0 .noMemory CLONE_NEWIPC).2 = -ENOMEM ∧
      ¬Unchanged 0 (Sys.sample .hooked)
        ((Sys.sample .hooked).unshare 0 .noMemory CLONE_NEWIPC).1 ∧
      ((((Sys.sample .hooked).unshare 0 .noMemory CLONE_NEWIPC).1.sems 0 5).map
        (·.semval 0)) = some 1 := by
  refine ⟨by decide, ?_, by decide⟩
  intro h
  have hnone : ((Sys.sample .hooked).unshare 0 .noMemory CLONE_NEWIPC).1.undoOf 0 = none := by
    decide
  have hundo := h.undoOf
  rw [hnone] at hundo
  cases hundo

/-- Without the flags that flush, the same failure is harmless. -/
theorem unshare_failed_newpid : Unchanged 0 (Sys.sample .hooked)
    ((Sys.sample .hooked).unshare 0 .noMemory CLONE_NEWPID).1 := by
  refine (Sys.unshare_failed (Kernel.init_named _) (by decide)).2 ?_
  intro _ _ _
  exact ⟨fun h => absurd h (by decide), fun h => absurd h (by decide)⟩

end DroidLkm.Slot
