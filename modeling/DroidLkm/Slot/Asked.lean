/-
  `unshare` that succeeds — tasks and undo lists.

  * `Seated`: the task is on an nsproxy that the call has made, and the other
    proxies name what they named;
  * `Flushes`: the undo list has been flushed, if the flags ask for it;
  * `Asked`: what the new nsproxy names;
  * `unshare_seated`: a call that succeeds does these, on either path.
-/
import DroidLkm.Slot.Proxies
import DroidLkm.Slot.Spawn
import DroidLkm.Slot.UnshareFail

namespace DroidLkm.Slot

/-! ## A new nsproxy -/

namespace Kernel

variable {k k₁ k₂ : Kernel} {t u q : ℕ} {flags : Flags} {e : Env} {x y : Nsproxy}

/-- The task is on the nsproxy that the call has made, which is `x`; those that
    were there name what they named, if they are there still. -/
structure Seated (t : ℕ) (k k' : Kernel) (x : Nsproxy) : Prop where
  grows : Grows k k'
  backed : Backed k' 0
  task : k'.task = Function.update k.task t { k.task t with nsproxy := some k.nextNsp }
  self : k'.nsp k.nextNsp = some x
  rest : ∀ q < k.nextNsp, ∀ y, k'.nsp q = some y → ∃ x, k.nsp q = some x ∧ y.names = x.names

/-- It is written. -/
theorem Seated.wrote (h : Seated t k k₁ x) (hw : Wrote k₁ k₂ k.nextNsp y) (hg : Grows k₁ k₂)
    (hb : Backed k₂ 0) : Seated t k k₂ y := by
  refine ⟨h.grows.trans hg, hb, hw.task.trans h.task, ?_, ?_⟩
  · rw [hw.nsp, Function.update_self]
  · intro q hq y hy
    rw [hw.nsp, Function.update_of_ne (Nat.ne_of_lt hq)] at hy
    exact h.rest q hq y hy

theorem Seated.nsproxyOf (h : Seated t k k₁ x) : k₁.nsproxyOf t = some x := by
  rw [Kernel.nsproxyOf, h.task, Function.update_self]
  exact h.self

/-- The other tasks are on the nsproxies they were on, and these name what they named. -/
theorem Seated.apart (h : Seated t k k₁ x) (hw : Wf k) (hu : u ≠ t) :
    k₁.task u = k.task u ∧ k₁.namesOf u = k.namesOf u := by
  have htask : k₁.task u = k.task u := by rw [h.task, Function.update_of_ne hu]
  refine ⟨htask, ?_⟩
  unfold namesOf Kernel.nsproxyOf
  rw [htask]
  cases hq : (k.task u).nsproxy with
  | none => rfl
  | some q =>
    have hlt := (hw.task u q hq).2
    have hu₁ : u < k₁.nextTask := Nat.lt_of_lt_of_le (hw.task u q hq).1 h.grows.task
    obtain ⟨y, hy⟩ := h.backed.nsproxy (fun _ => Int.le_refl 0) hu₁ (htask ▸ hq)
    obtain ⟨x, hx, hxy⟩ := h.rest q hlt y hy
    rw [Option.bind_some, Option.bind_some, hy, hx]
    exact congrArg some hxy

theorem putNsproxy_rest (k : Kernel) (p q : ℕ) (hy : (k.putNsproxy p).nsp q = some y) :
    ∃ x, k.nsp q = some x ∧ y.names = x.names := by
  unfold putNsproxy at hy
  dsimp only at hy
  rw [Function.update_apply] at hy
  split at hy
  next hq =>
    obtain ⟨x, hx, hxy⟩ := Option.bind_eq_some_iff.1 hy
    split at hxy
    · cases hxy
    · obtain rfl := Option.some.inj hxy
      exact ⟨x, hq ▸ hx, rfl⟩
  · exact ⟨y, hy, rfl⟩

theorem switchTask_rest (k : Kernel) (t : ℕ) (new : Option ℕ)
    (hy : (k.switchTask t new).nsp q = some y) : ∃ x, k.nsp q = some x ∧ y.names = x.names := by
  unfold switchTask at hy
  split at hy
  · exact ⟨y, hy, rfl⟩
  · exact putNsproxy_rest (k.setTask t new) _ q hy

/-- **The kernel's `unshare` of a namespace.** -/
theorem kernelUnshare_seated (hw : Wf k) (hb : Backed k 0) (ht : t < k.nextTask)
    (hf : has flags KERNEL_NS = true) (h : (k.kernelUnshare flags t e).2 = 0) :
    ∃ x, k.nsproxyOf t = some x ∧
      Seated t k (k.kernelUnshare flags t e).1 (k.newNsp flags x) := by
  have hback := hb.kernelUnshare hw ht flags e
  have hgrows := hw.kernelUnshare flags ht e
  unfold kernelUnshare at h hback hgrows ⊢
  by_cases hbefore : e.before = 0
  swap
  · rw [if_pos hbefore] at h
    exact absurd h hbefore
  rw [if_neg (not_not.2 hbefore)] at h hback hgrows ⊢
  rw [if_neg (by rw [hf]; exact Bool.false_ne_true)] at h hback hgrows ⊢
  by_cases hc : (!kernelCapable flags e) = true
  · rw [if_pos hc] at h
    exact absurd (show (-EPERM : ℤ) = 0 from h) (by decide)
  rw [if_neg hc] at h hback hgrows ⊢
  rcases hr : k.createEntry flags t t e with ⟨k₁, err | q⟩ <;> rw [hr] at h hback hgrows <;>
    dsimp only at h hback hgrows ⊢
  · exact absurd h (createEntry_error hr).2
  obtain ⟨x, hx, rfl, ha⟩ := createEntry_ok hr
  have hne : (k₁.task t).nsproxy ≠ some k.nextNsp := by
    rw [ha.task]
    exact fun hq => Nat.lt_irrefl _ (hw.task t _ hq).2
  obtain ⟨htask, hself⟩ := switchTaskNamespaces_to hne
  refine ⟨x, hx, hgrows, hback, ?_, ?_, ?_⟩
  · rw [htask, ha.task]
  · rw [hself, ha.nsp, Function.update_self]
  · intro q hq y hy
    rw [(switchTaskNamespaces_quiet k₁ t _).nsp] at hy
    obtain ⟨z, hz, hyz⟩ := switchTask_rest k₁ t _ hy
    rw [ha.nsp, Function.update_of_ne (Nat.ne_of_lt hq)] at hz
    exact ⟨z, hz, hyz⟩

/-- Without a flag for a namespace the kernel's `unshare` leaves the nsproxy alone. -/
theorem kernelUnshare_idle (hf : has flags KERNEL_NS = false) (t : ℕ) (e : Env) :
    (k.kernelUnshare flags t e).1 = k := by
  unfold kernelUnshare
  rw [hf]
  split <;> rfl

/-! ## Installation -/

theorem ipcnsCreate_name {err : ℤ} (h : k.ipcnsCreate err = (k₁, .ok q)) : q = k.nextIpc := by
  unfold ipcnsCreate at h
  split at h <;> cases h
  rfl

theorem pidnsCreate_name {p : ℕ} {err : ℤ} (h : k.pidnsCreate p err = (k₁, .ok q)) :
    q = k.nextPid := by
  unfold pidnsCreate at h
  dsimp only at h
  split_ifs at h <;> cases h
  rfl

theorem pidnsCreate_nonzero {p : ℕ} {err err' : ℤ} (h : k.pidnsCreate p err = (k₁, .error err')) :
    err' ≠ 0 := by
  unfold pidnsCreate at h
  dsimp only at h
  split_ifs at h <;> cases h
  · decide
  · assumption

theorem slotInstallIpcns_ok (hq : (k.task t).nsproxy = some q) (hx : k.nsp q = some x)
    (h : (k.slotInstallIpcns t e).2 = 0) :
    Wrote k (k.slotInstallIpcns t e).1 q { x with ipcNs := some k.nextIpc } := by
  unfold slotInstallIpcns at h ⊢
  rcases hr : k.ipcnsCreate e.ipcns with ⟨k₁, err | n⟩ <;> rw [hr] at h <;> dsimp only at h ⊢
  · exact absurd h (ipcnsCreate_error hr).2
  · have hquiet := ipcnsCreate_ok hr
    obtain rfl := ipcnsCreate_name hr
    rw [hquiet.task, hq]
    have hw := attach_wrote (hquiet.nsp ▸ hx) none (some k.nextIpc)
    exact ⟨hw.cfg.trans hquiet.cfg, hw.task.trans hquiet.task, by rw [← hquiet.nsp]; exact hw.nsp,
      hw.nextTask.trans hquiet.nextTask, hw.nextNsp.trans hquiet.nextNsp⟩

theorem slotInstallPidns_ok (hq : (k.task t).nsproxy = some q) (hx : k.nsp q = some x)
    (h : (k.slotInstallPidns t e).2 = 0) :
    Wrote k (k.slotInstallPidns t e).1 q { x with pidNsForChildren := k.nextPid } := by
  unfold slotInstallPidns pidnsCreateForCurrent at h ⊢
  generalize ((k.nsproxyOf t).map (·.pidNsForChildren)).getD 0 = p at h ⊢
  rcases hr : k.pidnsCreate p e.pidns with ⟨k₁, err | n⟩ <;> rw [hr] at h <;> dsimp only at h ⊢
  · exact absurd h (pidnsCreate_nonzero hr)
  · have hquiet := pidnsCreate_ok hr
    obtain rfl := pidnsCreate_name hr
    rw [hquiet.task, hq]
    have hw := attach_wrote (hquiet.nsp ▸ hx) (some k.nextPid) none
    exact ⟨hw.cfg.trans hquiet.cfg, hw.task.trans hquiet.task, by rw [← hquiet.nsp]; exact hw.nsp,
      hw.nextTask.trans hquiet.nextTask, hw.nextNsp.trans hquiet.nextNsp⟩

end Kernel

/-- The flags that the kernel's `unshare` is given. -/
def passedFlags (hooked : Bool) (flags : Flags) : Flags :=
  if has flags (OURS ||| CLONE_SYSVSEM) && !hooked then legacyFlags flags else flags

/-! ## Undo lists -/

namespace Sys

variable {s s₁ s₂ : Sys} {t : ℕ} {e : Env} {flags : Flags} {k : Kernel} {x : Nsproxy}

/-- The undo lists, and the arrays that they were applied to, are the same. -/
structure SameUndo (s s' : Sys) : Prop where
  undoOf : s'.undoOf = s.undoOf
  lists : s'.lists = s.lists
  sems : s'.sems = s.sems
  stuck : s'.stuck = s.stuck

theorem SameUndo.trans (h : SameUndo s s₁) (h' : SameUndo s₁ s₂) : SameUndo s s₂ :=
  ⟨h'.undoOf.trans h.undoOf, h'.lists.trans h.lists, h'.sems.trans h.sems, h'.stuck.trans h.stuck⟩

/-- The undo list of the task has been flushed, if the flags ask for it, and
    nothing else has happened to undo lists. -/
def Flushes (t : ℕ) (flags : Flags) (s s' : Sys) : Prop :=
  SameUndo (if has flags (CLONE_NEWIPC ||| CLONE_SYSVSEM) then s.exitSem t else s) s'

theorem exitShmOne_sameUndo (s : Sys) (id : ℕ) : SameUndo s (s.exitShmOne id) := by
  unfold exitShmOne
  split
  · exact ⟨rfl, rfl, rfl, rfl⟩
  split <;> exact ⟨rfl, rfl, rfl, rfl⟩

theorem exitShm_sameUndo (s : Sys) (t : ℕ) : SameUndo s (s.exitShm t) := by
  have hloop : ∀ (ids : List ℕ) (s : Sys), SameUndo s (ids.foldl exitShmOne s) := by
    intro ids
    induction ids with
    | nil => exact fun _ => ⟨rfl, rfl, rfl, rfl⟩
    | cons id ids ih => exact fun s => (exitShmOne_sameUndo s id).trans (ih _)
  have h := hloop (s.shmClist t) { s with shmClist := Function.update s.shmClist t [] }
  exact ⟨h.undoOf, h.lists, h.sems, h.stuck⟩

/-- The loop does not look at the namespaces. -/
theorem exitSemLoop_withKernel (n l : ℕ) (k : Kernel) (entries : List (ℕ × ℕ)) (s : Sys) :
    exitSemLoop n l entries { s with kernel := k } =
      { exitSemLoop n l entries s with kernel := k } := by
  induction entries generalizing s with
  | nil => rfl
  | cons a rest ih =>
    unfold exitSemLoop
    dsimp only
    cases s.sems n a.1 with
    | none => rfl
    | some sma =>
      exact ih { s with
        sems := Function.update s.sems n
          (Function.update (s.sems n) a.1 (some (Sem.exitSem sma a.2)))
        lists := Function.update s.lists l { s.lists l with listProc := rest } }

/-- `droid_lkm_exit_sem` asks only for the ipc namespace of the task. -/
theorem exitSem_withKernel (hns : k.ipcnsTaskNs t = s.kernel.ipcnsTaskNs t) :
    { s with kernel := k }.exitSem t = { s.exitSem t with kernel := k } := by
  unfold exitSem
  dsimp only
  cases s.undoOf t with
  | none => rfl
  | some l =>
    dsimp only
    rw [hns]
    split
    · rfl
    · exact exitSemLoop_withKernel _ l k _ { s with
        undoOf := Function.update s.undoOf t none
        lists := Function.update s.lists l { s.lists l with refcnt := (s.lists l).refcnt - 1 } }

theorem flushIpc_flushes (s₀ s : Sys) (t : ℕ) (e : Env) (flags : Flags) :
    Flushes t flags s (flushIpc (s₀.unshareOps t e) s flags) := by
  unfold flushIpc Flushes
  dsimp only [unshareOps]
  generalize (if has flags (CLONE_NEWIPC ||| CLONE_SYSVSEM) then s.exitSem t else s) = s₁
  split
  · exact exitShm_sameUndo s₁ t
  · exact ⟨rfl, rfl, rfl, rfl⟩

/-- The flush after the kernel has switched the task to an nsproxy with the same
    ipc namespace. -/
theorem Flushes.withKernel (hns : k.ipcnsTaskNs t = s.kernel.ipcnsTaskNs t)
    (h : Flushes t flags { s with kernel := k } s₁) : Flushes t flags s s₁ := by
  unfold Flushes at h ⊢
  rw [exitSem_withKernel hns] at h
  split
  next hf =>
    rw [if_pos hf] at h
    exact ⟨h.undoOf, h.lists, h.sems, h.stuck⟩
  next hf =>
    rw [if_neg hf] at h
    exact ⟨h.undoOf, h.lists, h.sems, h.stuck⟩

theorem Flushes.onKernel (h : Flushes t flags s s₁) (f : Kernel → Kernel × ℤ) :
    Flushes t flags s (s₁.onKernel f).1 :=
  ⟨h.undoOf, h.lists, h.sems, h.stuck⟩

/-! ## What is asked for -/

/-- `y` names a pid namespace for children and an ipc namespace that were not
    given out in `k`, each if it is asked for, and else those of `x`. -/
structure Asked (k : Kernel) (flags : Flags) (x y : Nsproxy) : Prop where
  pid : if has flags CLONE_NEWPID then k.nextPid ≤ y.pidNsForChildren
    else y.pidNsForChildren = x.pidNsForChildren
  ipc : if has flags CLONE_NEWIPC then ∃ n, y.ipcNs = some n ∧ k.nextIpc ≤ n
    else y.ipcNs = x.ipcNs

theorem asked_newNsp (k : Kernel) (flags : Flags) (x : Nsproxy) :
    Asked k flags x (k.newNsp flags x) := by
  unfold Kernel.newNsp Nsproxy.withNew Kernel.copyNsp Kernel.made
  constructor
  · cases has flags CLONE_NEWPID with
    | false => rfl
    | true => exact Nat.le_refl _
  · cases has flags CLONE_NEWIPC with
    | false => rfl
    | true => exact ⟨k.nextIpc, rfl, Nat.le_refl _⟩

/-- Nothing is asked for. -/
theorem asked_refl (k : Kernel) (ho : has flags OURS = false) (x : Nsproxy) :
    Asked k flags x x := by
  rw [has_ours, Bool.or_eq_false_iff] at ho
  constructor
  · rw [ho.1]
    rfl
  · rw [ho.2]
    rfl

/-- The flags of the legacy path ask for nothing of the module. -/
theorem legacy_names (k : Kernel) (flags : Flags) (x : Nsproxy) :
    (k.newNsp (legacyFlags flags) x).pidNsForChildren = x.pidNsForChildren ∧
      (k.newNsp (legacyFlags flags) x).ipcNs = x.ipcNs := by
  rw [Kernel.newNsp_eq (has_legacyFlags flags).2]
  exact ⟨rfl, rfl⟩

variable {s₀ : Sys} {y : Nsproxy}

open Kernel

/-- The installation of the ipc namespace, on the new nsproxy. -/
theorem installIpcns_seated (h : Seated t k s.kernel x)
    (hret : (installIpcns (s₀.unshareOps t e) s flags).2 = 0) :
    SameUndo s (installIpcns (s₀.unshareOps t e) s flags).1 ∧
      ∃ y, Seated t k (installIpcns (s₀.unshareOps t e) s flags).1.kernel y ∧
        y.pidNsForChildren = x.pidNsForChildren ∧
        if has flags CLONE_NEWIPC then ∃ n, y.ipcNs = some n ∧ k.nextIpc ≤ n
        else y.ipcNs = x.ipcNs := by
  unfold installIpcns at hret ⊢
  split
  next hf =>
    rw [if_pos hf] at hret
    have htask : (s.kernel.task t).nsproxy = some k.nextNsp := by
      rw [h.task, Function.update_self]
    have hw := slotInstallIpcns_ok htask h.self hret
    exact ⟨⟨rfl, rfl, rfl, rfl⟩, _, h.wrote hw (h.grows.wf.slotInstallIpcns t e)
      (h.backed.slotInstallIpcns t e), rfl, _, rfl, h.grows.ipc⟩
  · exact ⟨⟨rfl, rfl, rfl, rfl⟩, x, h, rfl, rfl⟩

/-- The installation of the pid namespace. -/
theorem installPidns_seated (h : Seated t k s.kernel x)
    (hret : (installPidns (s₀.unshareOps t e) s flags).2 = 0) :
    SameUndo s (installPidns (s₀.unshareOps t e) s flags).1 ∧
      ∃ y, Seated t k (installPidns (s₀.unshareOps t e) s flags).1.kernel y ∧
        y.ipcNs = x.ipcNs ∧
        if has flags CLONE_NEWPID then k.nextPid ≤ y.pidNsForChildren
        else y.pidNsForChildren = x.pidNsForChildren := by
  unfold installPidns at hret ⊢
  split
  next hf =>
    rw [if_pos hf] at hret
    have htask : (s.kernel.task t).nsproxy = some k.nextNsp := by
      rw [h.task, Function.update_self]
    have hw := slotInstallPidns_ok htask h.self hret
    exact ⟨⟨rfl, rfl, rfl, rfl⟩, _, h.wrote hw (h.grows.wf.slotInstallPidns t e)
      (h.backed.slotInstallPidns t e), rfl, h.grows.pid⟩
  · exact ⟨⟨rfl, rfl, rfl, rfl⟩, x, h, rfl, rfl⟩

/-- **The legacy path.** -/
theorem unshareLegacy_seated (hw : Wf s.kernel) (hb : Backed s.kernel 0)
    (ht : t < s.kernel.nextTask) (hret : (unshareLegacy (s₀.unshareOps t e) s flags).2 = 0) :
    Flushes t flags s (unshareLegacy (s₀.unshareOps t e) s flags).1 ∧
      ∃ x y, s.kernel.nsproxyOf t = some x ∧ Asked s.kernel flags x y ∧
        Seated t s.kernel (unshareLegacy (s₀.unshareOps t e) s flags).1.kernel y := by
  unfold unshareLegacy at hret ⊢
  dsimp only at hret ⊢
  by_cases hr : ((s₀.unshareOps t e).origUnshare s (legacyFlags flags)).2 ≠ 0
  · rw [if_pos hr] at hret
    exact absurd hret hr
  rw [if_neg hr] at hret ⊢
  obtain ⟨x, hx, hseat⟩ := kernelUnshare_seated hw hb ht (has_legacyFlags flags).1 (not_not.1 hr)
  obtain ⟨hpid, hipc⟩ := legacy_names s.kernel flags x
  -- the flush, while the task has still the old ipc namespace
  have hflush := flushIpc_flushes s₀ ((s₀.unshareOps t e).origUnshare s (legacyFlags flags)).1
    t e flags
  have hkernel : (flushIpc (s₀.unshareOps t e)
      ((s₀.unshareOps t e).origUnshare s (legacyFlags flags)).1 flags).kernel =
      (s.kernel.kernelUnshare (legacyFlags flags) t e).1 := flushIpc_kernel ..
  generalize flushIpc (s₀.unshareOps t e)
    ((s₀.unshareOps t e).origUnshare s (legacyFlags flags)).1 flags = s₁ at *
  have hseat₁ : Seated t s.kernel s₁.kernel (s.kernel.newNsp (legacyFlags flags) x) := by
    rw [hkernel]
    exact hseat
  have hns : (s.kernel.kernelUnshare (legacyFlags flags) t e).1.ipcnsTaskNs t =
      s.kernel.ipcnsTaskNs t := by
    unfold ipcnsTaskNs
    rw [hseat.nsproxyOf, hx, Option.bind_some, Option.bind_some, hipc]
  have hflush₁ : Flushes t flags s s₁ := Flushes.withKernel hns hflush
  by_cases hi : (installIpcns (s₀.unshareOps t e) s₁ flags).2 ≠ 0
  · rw [if_pos hi] at hret
    exact absurd hret hi
  rw [if_neg hi] at hret ⊢
  obtain ⟨hsame, y, hy, hypid, hyipc⟩ := installIpcns_seated hseat₁ (not_not.1 hi)
  obtain ⟨hsame', z, hz, hzipc, hzpid⟩ := installPidns_seated hy hret
  refine ⟨(hflush₁.trans hsame).trans hsame', x, z, hx, ⟨?_, ?_⟩, hz⟩
  · rw [hypid, hpid] at hzpid
    exact hzpid
  · rw [hzipc]
    rw [hipc] at hyipc
    exact hyipc

/-- The call goes to the kernel as it is, or after a flush. -/
theorem unshare_hooked (hserved : has flags (OURS ||| CLONE_SYSVSEM) = true →
      s.kernel.cfg.cnnHooked = true)
    (hgate : e.gate = true) (hfake : s.kernel.cfg.noFakeNs = false) :
    ((s.unshare t e flags).1.kernel, (s.unshare t e flags).2) =
        s.kernel.kernelUnshare flags t e ∧
      ((has flags (OURS ||| CLONE_SYSVSEM) = true → s.kernel.unsharePrecheck t e flags = true) →
        Flushes t flags s (s.unshare t e flags).1) := by
  rw [unshare_eq]
  cases hours : has flags (OURS ||| CLONE_SYSVSEM) with
  | false =>
    refine ⟨rfl, fun _ => ?_⟩
    have hno : has flags (CLONE_NEWIPC ||| CLONE_SYSVSEM) = false := by
      rw [OURS, has_or, has_or, Bool.or_eq_false_iff, Bool.or_eq_false_iff] at hours
      rw [has_or, hours.1.2, hours.2]
      rfl
    unfold Flushes
    rw [hno]
    exact ⟨rfl, rfl, rfl, rfl⟩
  | true =>
    rw [hgate, hfake, hserved hours]
    simp only [Bool.not_true, Bool.false_eq_true, if_false]
    cases hpre : s.kernel.unsharePrecheck t e flags with
    | false => exact ⟨rfl, fun h => absurd (h trivial) Bool.false_ne_true⟩
    | true =>
      have hkernel := flushIpc_kernel s s t e flags
      simp only [Bool.not_true, Bool.false_eq_true, if_false]
      refine ⟨?_, fun _ => (flushIpc_flushes s s t e flags).onKernel _⟩
      unfold onKernel
      rw [hkernel]

/-- **What a successful call does to the tasks and to the undo lists.** -/
theorem unshare_seated (hw : Wf s.kernel) (hb : Backed s.kernel 0) (ht : s.kernel.live t = true)
    (hgate : e.gate = true) (hfake : s.kernel.cfg.noFakeNs = false)
    (hret : (s.unshare t e flags).2 = 0) :
    (if has (passedFlags s.kernel.cfg.cnnHooked flags) KERNEL_NS then
      ∃ x y, s.kernel.nsproxyOf t = some x ∧ Asked s.kernel flags x y ∧
        Seated t s.kernel (s.unshare t e flags).1.kernel y
    else has flags OURS = false ∧ (s.unshare t e flags).1.kernel = s.kernel) ∧
    ((has flags (OURS ||| CLONE_SYSVSEM) = true → s.kernel.cfg.cnnHooked = true →
        s.kernel.unsharePrecheck t e flags = true) →
      Flushes t flags s (s.unshare t e flags).1) := by
  by_cases hserved : has flags (OURS ||| CLONE_SYSVSEM) = true → s.kernel.cfg.cnnHooked = true
  · obtain ⟨hk, hflush⟩ := unshare_hooked (t := t) hserved hgate hfake
    have hkernel := congrArg Prod.fst hk
    have hret' := congrArg Prod.snd hk
    dsimp only at hkernel hret'
    refine ⟨?_, fun hpre => hflush fun h => hpre h (hserved h)⟩
    have hpass : passedFlags s.kernel.cfg.cnnHooked flags = flags := by
      unfold passedFlags
      refine if_neg fun h => ?_
      obtain ⟨h, hhook⟩ := Bool.and_eq_true_iff.1 h
      rw [hserved h] at hhook
      cases hhook
    rw [hpass, hkernel]
    split
    next hf =>
      obtain ⟨x, hx, hseat⟩ := kernelUnshare_seated hw hb (hw.live ht) hf (hret'.symm.trans hret)
      exact ⟨x, _, hx, asked_newNsp s.kernel flags x, hseat⟩
    next hf =>
      rw [Bool.not_eq_true] at hf
      exact ⟨not_ours_of_kernel hf, kernelUnshare_idle hf t e⟩
  · obtain ⟨hours, hhook⟩ := Classical.not_imp.1 hserved
    have heq : s.unshare t e flags = unshareLegacy (s.unshareOps t e) s flags := by
      rw [unshare_eq, hours, hgate, hfake, Bool.eq_false_iff.2 hhook]
      rfl
    have hpass : passedFlags s.kernel.cfg.cnnHooked flags = legacyFlags flags := by
      unfold passedFlags
      rw [hours, Bool.eq_false_iff.2 hhook]
      rfl
    rw [heq] at hret ⊢
    obtain ⟨hflush, hseat⟩ := unshareLegacy_seated hw hb (hw.live ht) hret
    rw [hpass, if_pos (has_legacyFlags flags).1]
    exact ⟨hseat, fun _ => hflush⟩

end Sys

end DroidLkm.Slot
