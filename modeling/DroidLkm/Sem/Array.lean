/-
  SysV semaphores — one array and the tasks that use it.

  The steps are the critical sections of `ipc_sem.c` on a live array, in any
  order and by any number of tasks: a task is outside the calls or asleep in
  `semtimedop`, and what it does between two sections touches nothing shared.

  * `doSemop`, `enqueue`, `dequeue`: the sections of `__do_semtimedop`;
    `linkUndo` that of `find_alloc_undo`; `setval`, `setall` those of `semctl`;
    `exitSem` that of `droid_lkm_exit_sem_impl` for the task's entry on this
    array;
  * `State` is the array, its undo structures and the tasks; `step` is one
    section, `State.init` the array as `newary` leaves it.

  The slow path of a sleeper, which takes the lock, reads its status again and drops
  the lock, is one step: `.interrupted` or `.spurious`; one that finds itself served
  there returns by `.resume`, as it does where it has not taken the lock.

  Permission and security checks are passed; a call they refuse does nothing.
  A task's undo list has at most one entry for the array, its `undoOf`.
-/
import DroidLkm.Lib.Machine
import DroidLkm.Sem.Update

namespace DroidLkm.Sem

/-! ## Critical sections -/

/-- `list_add_tail(&queue.list, k)`. -/
def Ctx.addTail (c : Ctx) (k : Head) (q : SemQueue) : Ctx :=
  { c with pending := Function.update c.pending k (c.pending k ++ [q]) }

/-- The part of `__do_semtimedop` that puts a task into a queue. -/
def enqueue (c : Ctx) (q : SemQueue) : Ctx :=
  match q.sops with
  | [sop] =>
    if q.alter then c.addTail (if c.complexCount ≠ 0 then .alter else .semAlter sop.semNum) q
    else c.addTail (.semConst sop.semNum) q
  | _ =>
    let c := if c.complexCount = 0 then mergeQueues c else c
    let c := c.addTail (if q.alter then .alter else .const) q
    { c with complexCount := c.complexCount + 1 }

/-- The section of `__do_semtimedop` that tries an operation, with the result:
    positive when the task has been queued. -/
def doSemop (c : Ctx) (q : SemQueue) : Ctx × ℤ :=
  let (c, locknum) := semLock c q.sops
  let o := performAtomicSemop c.mem q
  let c := c.setMem o.state
  if o.result = 0 then
    (semUnlock (if q.alter then doSmartUpdate c (some q.sops) else c) locknum, 0)
  else if o.result < 0 then (semUnlock c locknum, o.result)
  else (semUnlock (enqueue c q) locknum, o.result)

/-- The section after the sleep: the lock is taken and dropped, and in between
    a task that was not woken by `wake_up_sem_queue_prepare` may leave the
    queue (`unlink_queue`). -/
def dequeue (c : Ctx) (q : SemQueue) (leave : Bool) : Ctx :=
  let (c, locknum) := semLock c q.sops
  let c := if leave then
      { c with
        pending := fun k => (c.pending k).erase q
        complexCount := if 1 < q.sops.length then c.complexCount - 1 else c.complexCount }
    else c
  semUnlock c locknum

/-- The section of `find_alloc_undo` that links a new undo structure, all of
    whose adjustments are zero. -/
def linkUndo (c : Ctx) (u : ℕ) : Ctx :=
  let (c, locknum) := semLock c []
  semUnlock { c with
    listId := u :: c.listId
    semadj := Function.update c.semadj u fun _ => 0 } locknum

/-- The writes of `semctl_setval`. -/
def setvalWrites (c : Ctx) (semnum : ℕ) (val : ℤ) : Ctx :=
  { c with
    semadj := fun u i => if u ∈ c.listId ∧ i = semnum then 0 else c.semadj u i
    semval := Function.update c.semval semnum val }

/-- The section of `semctl_setval`. -/
def setval (c : Ctx) (semnum : ℕ) (val : ℤ) : Ctx :=
  let (c, locknum) := semLock c []
  semUnlock (doSmartUpdate (setvalWrites c semnum val) none) locknum

/-- The writes of `SETALL` in `semctl_main`. -/
def setallWrites (c : Ctx) (semIo : ℕ → ℕ) : Ctx :=
  { c with
    semval := fun i => if i < c.semNsems then semIo i else c.semval i
    semadj := fun u i => if u ∈ c.listId ∧ i < c.semNsems then 0 else c.semadj u i }

/-- The section of `SETALL`. -/
def setall (c : Ctx) (semIo : ℕ → ℕ) : Ctx :=
  let (c, locknum) := semLock c []
  semUnlock (doSmartUpdate (setallWrites c semIo) none) locknum

/-- The new value of a semaphore at exit. -/
def undoVal (semval semadj : ℤ) : ℤ :=
  if semadj ≠ 0 then
    let v := semval + semadj
    let v := if v < 0 then 0 else v
    if SEMVMX < v then SEMVMX else v
  else semval

/-- The entry is unlinked and its adjustments performed. -/
def exitWrites (c : Ctx) (u : ℕ) : Ctx :=
  { c with
    listId := c.listId.erase u
    semval := fun i =>
      if i < c.semNsems then undoVal (c.semval i) (c.semadj u i) else c.semval i }

/-- The section of `droid_lkm_exit_sem_impl`. -/
def exitSem (c : Ctx) (u : ℕ) : Ctx :=
  let (c, locknum) := semLock c []
  semUnlock (doSmartUpdate (exitWrites c u) none) locknum

/-! ## The machine -/

/-- Where a task is: outside the calls, the last one having returned `ret`, or
    asleep with its `struct sem_queue` and its `status`. -/
inductive Phase where
  | user (ret : ℤ)
  | sleeping (q : SemQueue) (status : ℤ)
  deriving DecidableEq

/-- The array, the undo structures and the tasks; `wakeQ` is the wake queue of
    the last section. -/
structure State where
  array : SemArray
  semadj : ℕ → ℕ → ℤ
  undoOf : ℕ → Option ℕ
  nextUndo : ℕ
  phase : ℕ → Phase
  wakeQ : List (SemQueue × ℤ)

namespace State

/-- What a section starts from. -/
def ctx (s : State) : Ctx := { s.array with semadj := s.semadj, wakeQ := [] }

/-- The `status` of each entry woken is set. -/
def wakeUpQ (phase : ℕ → Phase) (wakeQ : List (SemQueue × ℤ)) : ℕ → Phase :=
  wakeQ.foldl (fun phase (q, error) => Function.update phase q.sleeper (.sleeping q error)) phase

/-- What a section leaves. -/
def commit (s : State) (c : Ctx) : State :=
  { s with
    array := c.toSemArray
    semadj := c.semadj
    wakeQ := c.wakeQ
    phase := wakeUpQ s.phase c.wakeQ }

/-- A task goes to another phase. -/
def setPhase (s : State) (t : ℕ) (p : Phase) : State :=
  { s with phase := Function.update s.phase t p }

/-- A call returns without having entered a section. -/
def ret (s : State) (t : ℕ) (r : ℤ) : State := { s.setPhase t (.user r) with wakeQ := [] }

/-- A new array of `n` semaphores. -/
def init (n : ℕ) : State where
  array := (semUnlock
    { semNsems := n, semval := fun _ => 0, pending := fun _ => [], listId := [],
      complexCount := 0, useGlobalLock := USE_GLOBAL_LOCK_HYSTERESIS, semadj := fun _ _ => 0,
      wakeQ := [] } none).toSemArray
  semadj := fun _ _ => 0
  undoOf := fun _ => none
  nextUndo := 0
  phase := fun _ => .user 0
  wakeQ := []

end State

/-- One section, or one return from a sleep. -/
inductive Act where
  /-- `find_alloc_undo` of a task -/
  | findAllocUndo (t : ℕ)
  /-- the rest of its `semop` or `semtimedop` -/
  | semtimedop (t : ℕ) (sops : List Sembuf)
  /-- a sleeper is woken by its timeout, or else by a signal -/
  | interrupted (t : ℕ) (timedOut : Bool)
  /-- a sleeper is woken for no reason -/
  | spurious (t : ℕ)
  /-- a sleeper that has been served returns -/
  | resume (t : ℕ)
  | setval (t : ℕ) (semnum val : ℤ)
  | setall (t : ℕ) (semIo : ℕ → ℕ)
  /-- the other `semctl` commands, which take and drop the lock -/
  | semctlRead (t : ℕ)
  /-- `sysvipc_sem_proc_show` -/
  | procShow
  /-- `droid_lkm_exit_sem_impl` of a task -/
  | exitSem (t : ℕ)

/-- A task may start a call. -/
def State.inUser (s : State) (t : ℕ) : Bool :=
  match s.phase t with
  | .user _ => true
  | .sleeping _ _ => false

/-- The sections of the calls; a call is refused while its task sleeps. -/
def step (s : State) : Act → Option State
  | .findAllocUndo t =>
    if s.inUser t then
      match s.undoOf t with
      | some _ => some { s with wakeQ := [] }
      | none => some { s.commit (linkUndo s.ctx s.nextUndo) with
          undoOf := Function.update s.undoOf t (some s.nextUndo)
          nextUndo := s.nextUndo + 1 }
    else none
  | .semtimedop t sops =>
    let f := scanSops sops
    let un := if f.undos then s.undoOf t else none
    if !s.inUser t ∨ (f.undos ∧ un.isNone) then none
    else if sops = [] then some (s.ret t (-EINVAL))
    else if s.array.semNsems ≤ f.max then some (s.ret t (-EFBIG))
    else
      let q := { sleeper := t, undo := un, sops, alter := f.alter, dupsop := f.dupsop }
      let (c, result) := doSemop s.ctx q
      some ((s.commit c).setPhase t (if 0 < result then .sleeping q (-EINTR) else .user result))
  | .interrupted t timedOut =>
    match s.phase t with
    | .sleeping q status =>
      if status = -EINTR then
        some ((s.commit (dequeue s.ctx q true)).setPhase t
          (.user (if timedOut then -EAGAIN else -EINTR)))
      else none
    | .user _ => none
  | .spurious t =>
    match s.phase t with
    | .sleeping q status => if status = -EINTR then some (s.commit (dequeue s.ctx q false)) else none
    | .user _ => none
  | .resume t =>
    match s.phase t with
    | .sleeping _ status => if status = -EINTR then none else some (s.ret t status)
    | .user _ => none
  | .setval t semnum val =>
    if !s.inUser t then none
    else if SEMVMX < val ∨ val < 0 then some (s.ret t (-ERANGE))
    else if semnum < 0 ∨ s.array.semNsems ≤ semnum then some (s.ret t (-EINVAL))
    else some ((s.commit (setval s.ctx semnum.toNat val)).setPhase t (.user 0))
  | .setall t semIo =>
    if !s.inUser t then none
    else if ∃ i ∈ List.range s.array.semNsems, SEMVMX < semIo i then some (s.ret t (-ERANGE))
    else some ((s.commit (setall s.ctx semIo)).setPhase t (.user 0))
  | .semctlRead t =>
    if s.inUser t then some (s.commit (semUnlock (semLock s.ctx []).1 none)) else none
  | .procShow => some (s.commit (complexmodeTryleave (complexmodeEnter s.ctx)))
  | .exitSem t =>
    if !s.inUser t then none
    else match s.undoOf t with
      | none => some { s with wakeQ := [] }
      | some u => some { s.commit (exitSem s.ctx u) with
          undoOf := Function.update s.undoOf t none }

end DroidLkm.Sem
