/-
  The IPC entries of tasks (`ipc_shim.c`), in place of fields of `task_struct`.

  * `TaskIpc`, `St.get`, `St.undoList`, `St.undoListSet`, `St.exitDefer`: the entries, in
    a hash table by task;
  * `St.getUndoList`, `St.copySemundo`, `St.exitSem`: the undo lists (`ipc_sem.c`);
  * `St.newseg`, `St.exitShm`: the segments by creator (`ipc_shm.c`);
  * `step`: the calls of the tasks, in any order.

  A task makes one call at a time, and an entry is used by its task only, or by the
  worker when the task has exited: each call is one step, but for an operation on
  semaphores, which may sleep.
-/
import Mathlib.Algebra.Ring.Int.Defs
import Mathlib.Data.Int.Notation
import Mathlib.Data.List.Nodup
import Mathlib.Logic.Function.Basic
import DroidLkm.Errno
import DroidLkm.Lib.Machine

namespace DroidLkm.Tasks

/-- `struct droid_lkm_task_ipc`; undo lists and segments are named by numbers. -/
structure TaskIpc where
  undoList : Option ℕ
  shmClist : List ℕ
  deferQueued : Bool
  deriving DecidableEq

/-- What an operation with `SEM_UNDO` has added to `semadj` of a semaphore.  `task` and
    `group` say who did: the source has no such fields. -/
structure Adj where
  semid : ℕ
  num : ℕ
  val : ℤ
  task : ℕ
  group : ℕ
  deriving DecidableEq

/-- `struct sem_undo_list`, with the `semadj` of its undo structures one by one. -/
structure UndoList where
  refcnt : ℕ
  log : List Adj
  deriving DecidableEq

/-- `semadj[num]` of the undo structure for `semid`. -/
def UndoList.semadj (l : UndoList) (semid num : ℕ) : ℤ :=
  ((l.log.filter fun a => a.semid == semid && a.num == num).map Adj.val).sum

/-- `struct shmid_kernel`; `linked` says that it is on its creator's list. -/
structure Seg where
  creator : ℕ
  linked : Bool
  deriving DecidableEq

/-- `list_del_init` of its node. -/
def Seg.unlink (sg : Seg) : Seg := { sg with linked := false }

/-- An operation with `SEM_UNDO` that has its undo structure. -/
structure Pending where
  undo : ℕ
  semid : ℕ
  deriving DecidableEq

/-- `struct sembuf` -/
structure Sembuf where
  num : ℕ
  op : ℤ
  undo : Bool
  deriving DecidableEq

structure St where
  /-- `droid_lkm_task_ipc_ht` -/
  ht : ℕ → Option TaskIpc
  /-- `droid_lkm_deferred_list` -/
  deferred : List ℕ
  /-- the undo lists that are allocated -/
  undo : ℕ → Option UndoList
  nextUndo : ℕ
  seg : ℕ → Option Seg
  nextSeg : ℕ
  semval : ℕ → ℕ → ℤ
  nextTask : ℕ
  exited : ℕ → Bool
  pending : ℕ → Option Pending
  /-- a list that is not there has been used -/
  oops : Bool
  /-- the tasks that are to share their undo list, by group -/
  group : ℕ → ℕ
  nextGroup : ℕ
  /-- what `exit_sem` has applied -/
  applied : List Adj

def SEMVMX : ℤ := 32767

namespace St

/-- `n` tasks that share nothing. -/
def init (n : ℕ) : St := ⟨fun _ => none, [], fun _ => none, 0, fun _ => none, 0, fun _ _ => 0, n,
  fun _ => false, fun _ => none, false, id, n, []⟩

def running (s : St) (t : ℕ) : Bool := t < s.nextTask && !s.exited t

def setEnt (s : St) (t : ℕ) (e : Option TaskIpc) : St := { s with ht := Function.update s.ht t e }

def setUndo (s : St) (ul : ℕ) (l : Option UndoList) : St :=
  { s with undo := Function.update s.undo ul l }

/-! ## The entries -/

/-- `droid_lkm_task_ipc_get`; the second search finds nothing, as the task makes one call. -/
def get (s : St) (t : ℕ) (create noMem : Bool) : St × Option TaskIpc :=
  match s.ht t with
  | some e => (s, some e)
  | none =>
    if !create || noMem then (s, none)
    else (s.setEnt t (some ⟨none, [], false⟩), some ⟨none, [], false⟩)

/-- `droid_lkm_task_undo_list` -/
def undoList (s : St) (t : ℕ) : Option ℕ := (s.ht t).bind TaskIpc.undoList

/-- `droid_lkm_task_undo_list_set` -/
def undoListSet (s : St) (t : ℕ) (ul : Option ℕ) (noMem : Bool) : St :=
  match s.get t true noMem with
  | (s, some e) => s.setEnt t (some { e with undoList := ul })
  | (s, none) => s

/-- `droid_lkm_task_ipc_exit_defer` -/
def exitDefer (s : St) (t : ℕ) : St :=
  match s.ht t with
  | none => s
  | some e =>
    if e.deferQueued then s
    else { s.setEnt t (some { e with deferQueued := true }) with deferred := s.deferred ++ [t] }

/-! ## Undo lists -/

/-- `get_undo_list` -/
def getUndoList (s : St) (t : ℕ) (noList noEntry : Bool) : St × Except ℤ ℕ :=
  match s.undoList t with
  | some ul => (s, .ok ul)
  | none =>
    if noList then (s, .error (-ENOMEM))
    else
      let ul := s.nextUndo
      let s := { s.setUndo ul (some ⟨1, []⟩) with nextUndo := ul + 1 }
      (s.undoListSet t (some ul) noEntry, .ok ul)

/-- `droid_lkm_copy_semundo`, of the task `t` for its child `c`. -/
def copySemundo (s : St) (t c : ℕ) (sysvsem noList noEntry : Bool) : St × Except ℤ Unit :=
  if sysvsem then
    match s.getUndoList t noList noEntry with
    | (s, .error err) => (s, .error err)
    | (s, .ok ul) =>
      let s := s.setUndo ul ((s.undo ul).map fun l => { l with refcnt := l.refcnt + 1 })
      (s.undoListSet c (some ul) noEntry, .ok ())
  else (s.undoListSet c none noEntry, .ok ())

/-- The adjustments of a list, applied to the semaphores. -/
def adjusted (s : St) (l : UndoList) (semid num : ℕ) : ℤ :=
  if l.semadj semid num ≠ 0 then min SEMVMX (max 0 (s.semval semid num + l.semadj semid num))
  else s.semval semid num

/-- `droid_lkm_exit_sem_impl` -/
def exitSem (s : St) (t : ℕ) : St :=
  match s.undoList t with
  | none => s
  | some ul =>
    let s := s.undoListSet t none false
    match s.undo ul with
    | none => s
    | some l =>
      if l.refcnt - 1 ≠ 0 then s.setUndo ul (some { l with refcnt := l.refcnt - 1 })
      else { s.setUndo ul none with semval := s.adjusted l, applied := s.applied ++ l.log }

/-! ## Segments -/

/-- `newseg` from `ipc_addid` on. -/
def newseg (s : St) (t : ℕ) (noEntry : Bool) : St :=
  let id := s.nextSeg
  let s := { s with nextSeg := id + 1, seg := Function.update s.seg id (some ⟨t, false⟩) }
  match s.get t true noEntry with
  | (s, none) => { s with oops := true }
  | (s, some e) =>
    { s.setEnt t (some { e with shmClist := id :: e.shmClist }) with
      seg := Function.update s.seg id (some ⟨t, true⟩) }

/-- `droid_lkm_exit_shm_impl`; what it has unlinked may be destroyed next. -/
def exitShm (s : St) (t : ℕ) (noEntry : Bool) : St :=
  match s.get t true noEntry with
  | (s, none) => { s with oops := true }
  | (s, some e) =>
    { s.setEnt t (some { e with shmClist := [] }) with
      seg := fun id => if id ∈ e.shmClist then (s.seg id).map Seg.unlink else s.seg id }

/-- `shm_rmid`, with `shm_clist_rm`. -/
def shmRmid (s : St) (id : ℕ) : St :=
  { s with
    seg := Function.update s.seg id none
    ht := fun t => (s.ht t).map fun e => { e with shmClist := e.shmClist.erase id } }

/-- The undo structures lose what `p` picks. -/
def clearAdj (s : St) (p : Adj → Bool) : St :=
  { s with undo := fun ul => (s.undo ul).map fun l => { l with log := l.log.filter (!p ·) } }

end St

/-! ## The machine -/

inductive Act where
  /-- `clone` of a child; the kernel's `copy_semundo` does nothing -/
  | clone (t : ℕ) (sysvsem : Bool)
  | shmget (t : ℕ) (noEntry : Bool)
  /-- an operation with `SEM_UNDO` as far as its undo structure; `err`: it ends there -/
  | semBegin (t semid : ℕ) (noList noEntry err : Bool)
  /-- the operation is performed, at once or after a sleep, or fails -/
  | semEnd (t : ℕ) (sops : List Sembuf) (ok : Bool)
  /-- `unshare` with `CLONE_NEWIPC`, or with `CLONE_SYSVSEM` only -/
  | unshare (t : ℕ) (newipc noEntry : Bool)
  /-- the hook in `do_exit` -/
  | exit (t : ℕ)
  /-- `droid_lkm_task_ipc_deferred_run`, for the next entry -/
  | deferredRun
  | shmRmid (id : ℕ)
  /-- `IPC_RMID` of an array -/
  | semRmid (semid : ℕ)
  /-- `SETVAL` -/
  | setval (semid num : ℕ) (val : ℤ)
  deriving DecidableEq

open St in
def step (s : St) : Act → Option St
  | .clone t sysvsem =>
    if s.running t then
      some { s with
        nextTask := s.nextTask + 1
        group := Function.update s.group s.nextTask (if sysvsem then s.group t else s.nextGroup)
        nextGroup := s.nextGroup + 1 }
    else none
  | .shmget t noEntry =>
    if s.oops = false ∧ s.running t ∧ s.pending t = none then some (s.newseg t noEntry) else none
  | .semBegin t semid noList noEntry err =>
    if s.running t ∧ s.pending t = none then
      match s.getUndoList t noList noEntry with
      | (s, .error _) => some s
      | (s, .ok ul) =>
        if err then some s
        else some { s with pending := Function.update s.pending t (some ⟨ul, semid⟩) }
    else none
  | .semEnd t sops ok =>
    match s.pending t with
    | none => none
    | some p =>
      let s := { s with pending := Function.update s.pending t none }
      if ok then
        match s.undo p.undo with
        | none => none
        | some l =>
          let new := (sops.filter Sembuf.undo).map fun o => ⟨p.semid, o.num, -o.op, t, s.group t⟩
          some { s.setUndo p.undo (some { l with log := l.log ++ new }) with
            semval := Function.update s.semval p.semid fun num =>
              s.semval p.semid num + ((sops.filter (·.num == num)).map Sembuf.op).sum }
      else some s
  | .unshare t newipc noEntry =>
    if s.oops = false ∧ s.running t ∧ s.pending t = none then
      let s := s.exitSem t
      let s := if newipc then s.exitShm t noEntry else s
      some { s with
        group := Function.update s.group t s.nextGroup
        nextGroup := s.nextGroup + 1 }
    else none
  | .exit t =>
    if s.running t ∧ s.pending t = none then
      some { s.exitDefer t with exited := Function.update s.exited t true }
    else none
  | .deferredRun =>
    match s.deferred with
    | [] => none
    | t :: rest =>
      some ((({ s with deferred := rest }.exitSem t).exitShm t false).setEnt t none)
  | .shmRmid id => if (s.seg id).isSome then some (s.shmRmid id) else none
  | .semRmid semid => some { s.clearAdj (·.semid == semid) with
      pending := fun t => (s.pending t).filter (·.semid != semid) }
  | .setval semid num val => some { s.clearAdj fun a => a.semid == semid && a.num == num with
      semval := Function.update s.semval semid (Function.update (s.semval semid) num val) }

end DroidLkm.Tasks
