/-
  SysV semaphores — the array and its wait queues (`ipc_sem.c`: `struct
  sem_array`, `wake_const_ops`, `do_smart_wakeup_zero`, `check_restart`,
  `update_queue`, `do_smart_update`, the locking modes and the queues' merging).

  * `Head` are the list heads of an array: `pending_alter` and
    `pending_const`, and the same two of each semaphore;
  * `Ctx` is what the holder of the array's lock works on: the array, the
    adjustments of the undo structures and the local wake queue;
  * `doSmartUpdate` and what it calls follow the source function by function;
    a scan keeps the list it has passed in `pre`, so the queue scanned is
    `pre ++ rest` throughout, and `goto again` is a turn of `updateLoop`;
  * `semLock`, `semUnlock`, `mergeQueues`, `unmergeQueues` are the locking
    modes.

  `sem_otime` and `sem_ctime`, and with them the `semop_completed` results of
  the update functions, are not modelled.
-/
import DroidLkm.Sem.Perform
import Mathlib.Data.List.Basic

namespace DroidLkm.Sem

/-! ## Arrays -/

/-- The list heads of an array. -/
inductive Head where
  /-- `sma->pending_alter` -/
  | alter
  /-- `sma->pending_const` -/
  | const
  /-- `sma->sems[i].pending_alter` -/
  | semAlter (i : ℕ)
  /-- `sma->sems[i].pending_const` -/
  | semConst (i : ℕ)
  deriving DecidableEq, Repr

/-- `struct sem_array`; `listId` are the undo structures on `list_id`. -/
structure SemArray where
  semNsems : ℕ
  semval : ℕ → ℤ
  pending : Head → List SemQueue
  listId : List ℕ
  complexCount : ℤ
  useGlobalLock : UInt32

/-- What a critical section of the array works on: the array, the adjustments
    `un->semadj`, and its `wake_q`, the entries it has completed with the
    status it gave them. -/
structure Ctx extends SemArray where
  semadj : ℕ → ℕ → ℤ
  wakeQ : List (SemQueue × ℤ)

namespace Ctx

/-- The part that `perform_atomic_semop` reads and writes. -/
def mem (c : Ctx) : SemState := { semval := c.semval, semadj := c.semadj }

def setMem (c : Ctx) (m : SemState) : Ctx := { c with semval := m.semval, semadj := m.semadj }

/-- `list_del` and the rest of `unlink_queue`: `l` is the queue `k` without
    the entry `q`. -/
def unlinkQueue (c : Ctx) (k : Head) (l : List SemQueue) (q : SemQueue) : Ctx :=
  { c with
    pending := Function.update c.pending k l
    complexCount := if 1 < q.sops.length then c.complexCount - 1 else c.complexCount }

/-- `wake_up_sem_queue_prepare`. -/
def wakeUpSemQueuePrepare (c : Ctx) (q : SemQueue) (error : ℤ) : Ctx :=
  { c with wakeQ := c.wakeQ ++ [(q, error)] }

end Ctx

/-! ## Wait-for-zero operations -/

/-- The head that `semnum` selects in `wake_const_ops` (`-1` is `none`). -/
def constHead : Option ℕ → Head
  | none => .const
  | some i => .semConst i

/-- The head that `semnum` selects in `update_queue`. -/
def alterHead : Option ℕ → Head
  | none => .alter
  | some i => .semAlter i

/-- The loop of `wake_const_ops` over the queue `k`, `pre` being the entries
    that go on sleeping. -/
def wakeConstLoop (k : Head) (pre : List SemQueue) : List SemQueue → Ctx → Ctx
  | [], c => c
  | q :: rest, c =>
    let o := performAtomicSemop c.mem q
    let c := c.setMem o.state
    if 0 < o.result then wakeConstLoop k (pre ++ [q]) rest c
    else wakeConstLoop k pre rest
      ((c.unlinkQueue k (pre ++ rest) q).wakeUpSemQueuePrepare q o.result)

/-- `wake_const_ops`. -/
def wakeConstOps (c : Ctx) (semnum : Option ℕ) : Ctx :=
  wakeConstLoop (constHead semnum) [] (c.pending (constHead semnum)) c

/-- The per-semaphore part of `do_smart_wakeup_zero`, with `got_zero`. -/
def wakeZeros (c : Ctx) (nums : List ℕ) : Ctx × Bool :=
  nums.foldl (fun (c, gotZero) num =>
    if c.semval num = 0 then (wakeConstOps c (some num), true) else (c, gotZero)) (c, false)

/-- `do_smart_wakeup_zero`; without `sops` all semaphores are looked at. -/
def doSmartWakeupZero (c : Ctx) (sops : Option (List Sembuf)) : Ctx :=
  let nums := match sops with
    | some sops => sops.map Sembuf.semNum
    | none => List.range c.semNsems
  let (c, gotZero) := wakeZeros c nums
  if gotZero then wakeConstOps c none else c

/-! ## Altering operations -/

/-- `check_restart`. -/
def checkRestart (c : Ctx) (q : SemQueue) : Bool :=
  if c.pending .alter ≠ [] then true else decide (1 < q.sops.length)

/-- Whether a scan may stop: it looks at one semaphore, and that is zero. -/
def scanStops (c : Ctx) : Option ℕ → Bool
  | none => false
  | some i => c.semval i == 0

/-- One scan of `update_queue` from the label `again`; the flag tells whether
    it ended in `goto again`. -/
def updateScan (semnum : Option ℕ) (pre : List SemQueue) : List SemQueue → Ctx → Bool × Ctx
  | [], c => (false, c)
  | q :: rest, c =>
    if scanStops c semnum then (false, c)
    else
      let o := performAtomicSemop c.mem q
      let c := c.setMem o.state
      if 0 < o.result then updateScan semnum (pre ++ [q]) rest c
      else
        let c := c.unlinkQueue (alterHead semnum) (pre ++ rest) q
        if o.result ≠ 0 then updateScan semnum pre rest (c.wakeUpSemQueuePrepare q o.result)
        else
          let c := doSmartWakeupZero c (some q.sops)
          let restart := checkRestart c q
          let c := c.wakeUpSemQueuePrepare q o.result
          if restart then (true, c) else updateScan semnum pre rest c

/-- The scans of `update_queue`, `n` at most. -/
def updateLoop (semnum : Option ℕ) : ℕ → Ctx → Ctx
  | 0, c => c
  | n + 1, c =>
    let (again, c) := updateScan semnum [] (c.pending (alterHead semnum)) c
    if again then updateLoop semnum n c else c

/-- `update_queue`: a scan that restarts has taken an entry off the queue, so
    there is at most one scan for each entry and a last one. -/
def updateQueue (c : Ctx) (semnum : Option ℕ) : Ctx :=
  updateLoop semnum ((c.pending (alterHead semnum)).length + 1) c

/-- `do_smart_update`. -/
def doSmartUpdate (c : Ctx) (sops : Option (List Sembuf)) : Ctx :=
  let c := doSmartWakeupZero c sops
  if c.pending .alter ≠ [] then updateQueue c none
  else match sops with
    | none => (List.range c.semNsems).foldl (fun c i => updateQueue c (some i)) c
    | some sops => sops.foldl
        (fun c sop => if 0 < sop.semOp then updateQueue c (some sop.semNum) else c) c

/-! ## Locking modes -/

def USE_GLOBAL_LOCK_HYSTERESIS : UInt32 := 10

/-- `complexmode_enter`. -/
def complexmodeEnter (c : Ctx) : Ctx := { c with useGlobalLock := USE_GLOBAL_LOCK_HYSTERESIS }

/-- `complexmode_tryleave`. -/
def complexmodeTryleave (c : Ctx) : Ctx :=
  if c.complexCount ≠ 0 then c
  else if c.useGlobalLock = 1 then { c with useGlobalLock := 0 }
  else { c with useGlobalLock := c.useGlobalLock - 1 }

/-- `sem_lock`: `none` is `SEM_GLOBAL_LOCK`, `some i` the lock of one
    semaphore. -/
def semLock (c : Ctx) : List Sembuf → Ctx × Option ℕ
  | [sop] => if c.useGlobalLock = 0 then (c, some sop.semNum) else (c, none)
  | _ => (complexmodeEnter c, none)

/-- One turn of the loop of `unmerge_queues`. -/
def unmergeOne (pending : Head → List SemQueue) (q : SemQueue) : Head → List SemQueue :=
  match q.sops with
  | [] => pending
  | sop :: _ => Function.update pending (.semAlter sop.semNum)
      (pending (.semAlter sop.semNum) ++ [q])

/-- `unmerge_queues`: with no complex operation left, the entries go back to
    the semaphores' own queues. -/
def unmergeQueues (c : Ctx) : Ctx :=
  if c.complexCount ≠ 0 then c
  else { c with
    pending := Function.update ((c.pending .alter).foldl unmergeOne c.pending) .alter [] }

/-- One turn of the loop of `merge_queues`. -/
def mergeOne (c : Ctx) (i : ℕ) : Ctx :=
  { c with
    pending := Function.update
      (Function.update c.pending .alter (c.pending (.semAlter i) ++ c.pending .alter))
      (.semAlter i) [] }

/-- `merge_queues`: the semaphores' queues are spliced into the global one. -/
def mergeQueues (c : Ctx) : Ctx := (List.range c.semNsems).foldl mergeOne c

/-- `sem_unlock`. -/
def semUnlock (c : Ctx) : Option ℕ → Ctx
  | none => complexmodeTryleave (unmergeQueues c)
  | some _ => c

end DroidLkm.Sem
