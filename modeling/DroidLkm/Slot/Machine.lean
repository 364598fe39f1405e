/-
  Namespaces of tasks — the machine.

  One step is one system call, or one exit, by one task; `Env` says what its
  surroundings let it do.  `run_wf`: in every reachable state the names that
  are in use have been given out.
-/
import DroidLkm.Lib.Machine
import DroidLkm.Slot.Wf

namespace DroidLkm.Slot

open Machine

/-- One call by a task, or its exit. -/
inductive Act where
  /-- `fork`, `vfork`, the 32 bit `clone`: the kernel's own entry -/
  | fork (t : ℕ) (flags : Flags) (e : Env)
  | clone (t : ℕ) (flags : Flags) (e : Env)
  | clone3 (t : ℕ) (flags : Flags) (u : Kernel.UserArgs) (e : Env)
  | unshare (t : ℕ) (flags : Flags) (e : Env)
  /-- the 32 bit `unshare`, which the module does not serve -/
  | unshare32 (t : ℕ) (flags : Flags) (e : Env)
  /-- `setns` with an open `/proc/<pid>/ns/ipc` -/
  | setnsIpc (t n : ℕ) (e : Env)
  /-- `setns` to a pid namespace -/
  | setnsPid (t n : ℕ) (e : Env)
  /-- `setns` to the entry of the host's pid namespace -/
  | setnsHost (t : ℕ) (e : Env)
  /-- `setns` to another namespace, whose installation fails with `err` -/
  | setnsOther (t other : ℕ) (err : ℤ) (e : Env)
  /-- `/proc/<pid>/ns/ipc` of a task is opened -/
  | openIpc (t : ℕ)
  /-- and closed -/
  | closeIpc (n : ℕ)
  | exit (t : ℕ)

namespace Kernel

/-- The task is there. -/
def live (k : Kernel) (t : ℕ) : Bool := (k.task t).nsproxy.isSome

/-- The part of a `setns` to another namespace that writes the nsproxy. -/
def otherInstall (other : ℕ) (err : ℤ) (k : Kernel) (q : ℕ) : Kernel × ℤ :=
  if err ≠ 0 then (k, err) else (k.modifyNsp q fun x => { x with other := other }, 0)

def step (k : Kernel) : Act → Option Kernel
  | .fork t flags e => if k.live t then some (k.kernelClone (cloneFlags flags) t e).1 else none
  | .clone t flags e => if k.live t then some (k.sysClone flags t e).1 else none
  | .clone3 t flags u e => if k.live t then some (k.sysClone3 flags t u e).1 else none
  | .unshare t flags e =>
    if k.live t then some (sysUnshare (k.unshareOps t e) k flags).1 else none
  | .unshare32 t flags e => if k.live t then some (k.kernelUnshare flags t e).1 else none
  | .setnsIpc t n e =>
    if k.live t ∧ n ∈ k.handles then some (k.setnsRun t e (ipcnsInstall n e)).1 else none
  | .setnsPid t n e =>
    if k.live t ∧ n < k.nextPid then some (k.setnsRun t e (pidnsInstall t n e)).1 else none
  | .setnsHost t e => if k.live t then some (k.setnsRun t e (hostPidInstall t e)).1 else none
  | .setnsOther t other err e =>
    if k.live t then some (k.setnsRun t e (otherInstall other err)).1 else none
  | .openIpc t => some (k.ipcnsGetTask t)
  | .closeIpc n => if n ∈ k.handles then some (k.ipcnsPutCommon n) else none
  | .exit t => if k.live t then some (k.exitTaskNamespaces t) else none

/-- Task 0 alone, in the namespaces of the host. -/
def init (cfg : Config) : Kernel where
  cfg := cfg
  task := fun t => ⟨if t = 0 then some 0 else none, 0⟩
  nsp := fun q => if q = 0 then some ⟨1, 0, some 0, 0⟩ else none
  ipcns := fun n => if n = 0 then ⟨1, true⟩ else ⟨0, false⟩
  pidns := fun _ => ⟨1, 0, 0⟩
  nextTask := 1
  nextNsp := 1
  nextIpc := 1
  nextPid := 1
  nextOther := 1
  handles := []
  attached := []

variable {k k' : Kernel} {t : ℕ} {act : Act} {cfg : Config}

theorem Wf.live (h : Wf k) (ht : k.live t = true) : t < k.nextTask := by
  obtain ⟨q, hq⟩ := Option.isSome_iff_exists.1 ht
  exact (h.task t q hq).1

theorem Wf.unshareLegacy (h : Wf k) (flags : Flags) (ht : t < k.nextTask) (e : Env)
    (k₀ : Kernel) : Grows k (Slot.unshareLegacy (k₀.unshareOps t e) k flags).1 := by
  have hipc : ∀ k, Wf k → Grows k (installIpcns (k₀.unshareOps t e) k flags).1 := by
    intro k hk
    unfold installIpcns
    split
    · exact hk.slotInstallIpcns t e
    · exact hk.refl
  have hpid : ∀ k, Wf k → Grows k (installPidns (k₀.unshareOps t e) k flags).1 := by
    intro k hk
    unfold installPidns
    split
    · exact hk.slotInstallPidns t e
    · exact hk.refl
  have hu := h.kernelUnshare (legacyFlags flags) ht e
  have hg := hu.trans (hipc _ hu.wf)
  unfold Slot.unshareLegacy
  simp only [flushIpc, unshareOps, id_eq, ite_self]
  split
  · exact hu
  split
  · exact hg
  · exact hg.trans (hpid _ hg.wf)

theorem Wf.sysUnshare (h : Wf k) (flags : Flags) (ht : t < k.nextTask) (e : Env) :
    Grows k (Slot.sysUnshare (k.unshareOps t e) k flags).1 := by
  have hu := h.kernelUnshare flags ht e
  have hl := h.unshareLegacy flags ht e k
  unfold Slot.sysUnshare
  simp only [flushIpc, unshareOps, id_eq, ite_self]
  split
  · exact hu
  split
  · exact hu
  split
  · exact h.refl
  split
  · exact hl
  · exact hu

/-- **A call gives out names and takes none back.** -/
theorem step_grows (h : Wf k) (hs : k.step act = some k') : Grows k k' := by
  cases act with
  | fork t flags e =>
    obtain ⟨-, rfl⟩ := by simpa [step] using hs
    exact h.kernelClone _ t e
  | clone t flags e =>
    obtain ⟨ht, rfl⟩ := by simpa [step] using hs
    exact h.sysClone flags (h.live ht) e
  | clone3 t flags u e =>
    obtain ⟨ht, rfl⟩ := by simpa [step] using hs
    exact h.sysClone3 flags (h.live ht) u e
  | unshare t flags e =>
    obtain ⟨ht, rfl⟩ := by simpa [step] using hs
    exact h.sysUnshare flags (h.live ht) e
  | unshare32 t flags e =>
    obtain ⟨ht, rfl⟩ := by simpa [step] using hs
    exact h.kernelUnshare flags (h.live ht) e
  | setnsIpc t n e =>
    obtain ⟨⟨ht, hn⟩, rfl⟩ := by simpa [step] using hs
    refine h.setnsRun (h.live ht) e ?_
    intro k₁ q hg
    unfold ipcnsInstall
    split
    · exact hg.wf.refl
    · refine hg.wf.setIpcNs ?_
      rintro n' ⟨⟩
      exact Nat.lt_of_lt_of_le (h.handle n hn) hg.ipc
  | setnsPid t n e =>
    obtain ⟨⟨ht, hn⟩, rfl⟩ := by simpa [step] using hs
    refine h.setnsRun (h.live ht) e ?_
    intro k₁ q hg
    unfold pidnsInstall
    dsimp only
    split_ifs
    · exact hg.wf.refl
    · exact hg.wf.refl
    · exact hg.wf.refl
    · exact hg.wf.setPidNs (Nat.lt_of_lt_of_le hn hg.pid)
  | setnsHost t e =>
    obtain ⟨ht, rfl⟩ := by simpa [step] using hs
    refine h.setnsRun (h.live ht) e ?_
    intro k₁ q hg
    unfold hostPidInstall
    dsimp only
    split_ifs
    · exact hg.wf.refl
    · exact hg.wf.refl
    · exact hg.wf.setPidNs hg.wf.host.2
  | setnsOther t other err e =>
    obtain ⟨ht, rfl⟩ := by simpa [step] using hs
    refine h.setnsRun (h.live ht) e ?_
    intro k₁ q hg
    unfold otherInstall
    split
    · exact hg.wf.refl
    · refine hg.wf.modifyNsp ?_
      intro x hx
      exact (hg.wf.nsp q x hx).2
  | openIpc t =>
    obtain rfl := by simpa [step] using hs
    exact h.ipcnsGetTask t
  | closeIpc n =>
    obtain ⟨-, rfl⟩ := by simpa [step] using hs
    exact h.ipcnsPutCommon n
  | exit t =>
    obtain ⟨-, rfl⟩ := by simpa [step] using hs
    exact h.exitTaskNamespaces t

theorem init_wf (cfg : Config) : Wf (init cfg) := by
  refine ⟨?_, ?_, by simp [init], Nat.one_pos, Nat.one_pos⟩
  · intro t q ht
    simp only [init] at ht ⊢
    split at ht
    · exact ⟨by omega, by have := Option.some.inj ht; omega⟩
    · cases ht
  · intro q x hx
    simp only [init] at hx ⊢
    split at hx
    · obtain rfl := Option.some.inj hx
      refine ⟨by omega, Nat.one_pos, Nat.one_pos, ?_⟩
      rintro n ⟨⟩
      exact Nat.one_pos
    · cases hx

theorem run_grows (h : Run step (init cfg) k) : Grows (init cfg) k :=
  h.inv (init_wf cfg).refl fun _ _ _ hi ha => hi.trans (step_grows hi.wf ha)

theorem run_wf (h : Run step (init cfg) k) : Wf k := (run_grows h).wf

end Kernel

end DroidLkm.Slot
