/-
  `unshare` and the IPC state of the caller.

  A task has an undo list for its semaphores and a list of the shared memory
  segments it has created.  Both belong to its ipc namespace, so
  `droid_lkm_sys_unshare` takes them down (`exitSem`, `exitShm`) where the task
  leaves the namespace.

  * `Sys`: the namespaces, the undo lists, the semaphore arrays, the segments;
  * `exitSem`, `exitShm`: the two functions that flush the lists;
  * `sysUnshare`: `unshare` over all of it;
  * `Unchanged`: what a failed call should leave alone.
-/
import DroidLkm.Sem.Array
import DroidLkm.Slot.Calls

namespace DroidLkm.Slot

/-- `struct sem_undo_list`: how many tasks use it, and its `sem_undo`s, each
    with the identifier of its array and its own name there. -/
structure UndoList where
  refcnt : ℕ
  listProc : List (ℕ × ℕ)
  deriving DecidableEq

/-- `struct shmid_kernel`; `dest` is `SHM_DEST`. -/
structure Segment where
  ns : ℕ
  nattch : ℕ
  dest : Bool
  deriving DecidableEq

/-- The system.  `sems n` are the arrays of the ipc namespace `n`, by their
    identifier; `stuck` says that `droid_lkm_exit_sem` waits for an array that
    is not there. -/
structure Sys where
  kernel : Kernel
  undoOf : ℕ → Option ℕ
  lists : ℕ → UndoList
  sems : ℕ → ℕ → Option Sem.Ctx
  shmClist : ℕ → List ℕ
  segs : ℕ → Option Segment
  /-- `shm_rmid_forced` of a namespace -/
  rmidForced : ℕ → Bool
  stuck : Bool

namespace Sys

variable (s : Sys) (t : ℕ) (e : Env)

/-- The loop of `droid_lkm_exit_sem_impl` over the list `l`, in the namespace `n`. -/
def exitSemLoop (n l : ℕ) : List (ℕ × ℕ) → Sys → Sys
  | [], s => s
  | (semid, un) :: rest, s =>
    match s.sems n semid with
    | none => { s with stuck := true }
    | some sma => exitSemLoop n l rest { s with
        sems := Function.update s.sems n
          (Function.update (s.sems n) semid (some (Sem.exitSem sma un)))
        lists := Function.update s.lists l { s.lists l with listProc := rest } }

/-- `droid_lkm_exit_sem` -/
def exitSem : Sys :=
  match s.undoOf t with
  | none => s
  | some l =>
    let s₁ := { s with undoOf := Function.update s.undoOf t none }
    let ulp := s.lists l
    let s₂ := { s₁ with
      lists := Function.update s.lists l { ulp with refcnt := ulp.refcnt - 1 } }
    if ulp.refcnt ≠ 1 then s₂
    else exitSemLoop (s.kernel.ipcnsTaskNs t) l ulp.listProc s₂

/-- `shm_may_destroy` -/
def shmMayDestroy (shp : Segment) : Bool :=
  shp.nattch = 0 && (s.rmidForced shp.ns || shp.dest)

/-- What becomes of a segment that `droid_lkm_exit_shm` has unlinked. -/
def exitShmOne (s : Sys) (id : ℕ) : Sys :=
  match s.segs id with
  | none => s
  | some shp =>
    if s.rmidForced shp.ns && s.shmMayDestroy shp then
      { s with segs := Function.update s.segs id none }
    else s

/-- `droid_lkm_exit_shm` -/
def exitShm : Sys :=
  (s.shmClist t).foldl exitShmOne { s with shmClist := Function.update s.shmClist t [] }

/-- A function of the namespaces alone. -/
def onKernel (f : Kernel → Kernel × ℤ) : Sys × ℤ :=
  ({ s with kernel := (f s.kernel).1 }, (f s.kernel).2)

def unshareOps : UnshareOps Sys where
  gateAllow := e.gate
  noFakeNs := s.kernel.cfg.noFakeNs
  cnnHooked := s.kernel.cfg.cnnHooked
  unsharePrecheck := fun s flags => s.kernel.unsharePrecheck t e flags
  origUnshare := fun s flags => s.onKernel (·.kernelUnshare flags t e)
  exitSem := fun s => s.exitSem t
  exitShm := fun s => s.exitShm t
  slotInstallIpcns := fun s => s.onKernel (·.slotInstallIpcns t e)
  slotInstallPidns := fun s => s.onKernel (·.slotInstallPidns t e)
  keepalivePin := id

/-- `droid_lkm_sys_unshare` -/
def unshare (flags : Flags) : Sys × ℤ := sysUnshare (s.unshareOps t e) s flags

end Sys

/-- The namespaces that the nsproxy of a task names. -/
def Kernel.namesOf (k : Kernel) (t : ℕ) : Option (ℕ × Option ℕ × ℕ) :=
  (k.nsproxyOf t).map fun x => (x.pidNsForChildren, x.ipcNs, x.other)

/-- The undo list of the task, its list of segments, the values of all
    semaphores and the namespaces of the task are what they were. -/
structure Unchanged (t : ℕ) (s s' : Sys) : Prop where
  undoOf : s'.undoOf t = s.undoOf t
  undo : ∀ l, s.undoOf t = some l → s'.lists l = s.lists l
  shmClist : s'.shmClist t = s.shmClist t
  semval : ∀ n id, (s'.sems n id).map (·.semval) = (s.sems n id).map (·.semval)
  names : s'.kernel.namesOf t = s.kernel.namesOf t

end DroidLkm.Slot
