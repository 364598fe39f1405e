/-
  devtmpfs — the requests that callers hand to the thread.

  `device_add` and `device_del` are hooked: each call puts a request, which lies
  on the stack of its caller, at the head of a list, wakes the thread that owns
  the tree and waits.  Releasing the filesystem stops the thread and fails what
  is left on the list.

  * `Req`, `Worker`, `Release`: a request, and where the thread and the task that
    releases are; each step is what happens between two points at which others
    can be seen;
  * `push`, `wake`, `workStep`, `releaseStep`: the functions;
  * `Fault`: what the kernel dies of;
  * `step`: one action of one of them.

  What is done for a request is a parameter: it reads and changes the tree.
-/
import DroidLkm.Errno
import DroidLkm.Lib.Machine
import Mathlib.Data.Nat.Notation
import Mathlib.Logic.Function.Basic

namespace DroidLkm.Devtmpfs

universe u v

/-- Where a caller of `droid_lkm_devtmpfs_submit` is. -/
inductive Stage where
  /-- the request is filled in -/
  | filled
  /-- it is on the list, and `wake_up_process` comes next -/
  | queued
  /-- in `wait_for_completion` -/
  | waiting
  deriving DecidableEq

/-- `struct droid_lkm_devtmpfs_req`, with the number of the call.  `next` and
    `err` are not initialized. -/
structure Req (J : Type v) where
  call : ℕ
  job : J
  stage : Stage
  next : Option ℕ
  done : ℕ
  err : Option ℤ

/-- Where `droid_lkm_devtmpfs_thread_fn` is. -/
inductive Worker where
  /-- before `kthread_should_stop` -/
  | top
  /-- before the lock of the list -/
  | locking
  /-- in the loop over the requests that it has taken -/
  | serving (r : Option ℕ)
  /-- before `complete`, with the `next` that it has read -/
  | completing (r : ℕ) (next : Option ℕ)
  /-- before `schedule`, as `TASK_INTERRUPTIBLE` -/
  | dozing
  | asleep
  | gone
  deriving DecidableEq

/-- Woken, the thread does not sleep, or not any more. -/
def Worker.woken : Worker → Worker
  | dozing | asleep => top
  | w => w

/-- Where `droid_lkm_misc_devtmpfs_release` is. -/
inductive Release where
  | idle
  /-- the hooks are taken out, and the mutex is held -/
  | unhooked
  /-- `droid_lkm_devtmpfs_thread` is `NULL` -/
  | cleared
  /-- in `kthread_stop`, before its wake-up -/
  | flagged
  /-- waiting for the thread to exit -/
  | joining
  | joined
  /-- in the loop of `droid_lkm_devtmpfs_drain` -/
  | draining (r : Option ℕ)
  | failing (r : ℕ) (next : Option ℕ)
  | finished
  deriving DecidableEq

/-- What the kernel dies of. -/
inductive Fault where
  /-- `wake_up_process(NULL)` -/
  | nullWake
  /-- a request is touched whose caller has returned -/
  | deadFrame
  deriving DecidableEq

/-- The state; `calls`, `log` and `answers` are a record of what has been asked, of
    what has been served and of what the callers got. -/
structure State (T : Type u) (J : Type v) where
  tree : T
  reqs : ℕ → Option (Req J)
  requests : Option ℕ
  thread : Bool
  stop : Bool
  worker : Worker
  release : Release
  fault : Option Fault
  calls : List J
  log : List (ℕ × J × ℤ)
  answers : List (ℕ × ℤ)

/-- What a task does. -/
inductive Act (J : Type v) where
  /-- a task comes to `droid_lkm_devtmpfs_create_node` or `…_delete_node` -/
  | enter (t : ℕ) (job : J)
  | push (t : ℕ)
  | wake (t : ℕ)
  /-- it returns from `wait_for_completion` -/
  | ret (t : ℕ)
  | work
  | release

namespace State

variable {T : Type u} {J : Type v}

/-- After `droid_lkm_misc_devtmpfs_init`. -/
def init (tree : T) : State T J where
  tree := tree
  reqs _ := none
  requests := none
  thread := true
  stop := false
  worker := .top
  release := .idle
  fault := none
  calls := []
  log := []
  answers := []

def setReq (s : State T J) (t : ℕ) (r : Option (Req J)) : State T J :=
  { s with reqs := Function.update s.reqs t r }

/-- The request of a call that sees the thread. -/
def enter (s : State T J) (t : ℕ) (job : J) : Option (State T J) :=
  match s.reqs t with
  | some _ => none
  | none =>
    if s.thread then
      some { s.setReq t (some ⟨s.calls.length, job, .filled, none, 0, none⟩) with
        calls := s.calls ++ [job] }
    else none

/-- `droid_lkm_devtmpfs_submit`, under the lock. -/
def push (s : State T J) (t : ℕ) : Option (State T J) :=
  match s.reqs t with
  | none => none
  | some r =>
    if r.stage ≠ .filled then none
    else if !s.thread then
      some { s.setReq t none with answers := s.answers ++ [(r.call, -ENODEV)] }
    else
      some { s.setReq t (some { r with stage := .queued, next := s.requests }) with
        requests := some t }

/-- `wake_up_process`. -/
def wakeUp (s : State T J) : State T J := { s with worker := s.worker.woken }

/-- `wake_up_process(droid_lkm_devtmpfs_thread)`, which reads the pointer again. -/
def wake (s : State T J) (t : ℕ) : Option (State T J) :=
  match s.reqs t with
  | none => none
  | some r =>
    if r.stage ≠ .queued then none
    else if !s.thread then some { s with fault := some .nullWake }
    else some (s.setReq t (some { r with stage := .waiting })).wakeUp

/-- The end of `droid_lkm_devtmpfs_submit`. -/
def ret (s : State T J) (t : ℕ) : Option (State T J) :=
  match s.reqs t with
  | none => none
  | some r =>
    if r.stage ≠ .waiting ∨ r.done = 0 then none
    else some { s.setReq t none with answers := s.answers ++ [(r.call, r.err.getD 0)] }

/-- `complete(&req->done)`. -/
def complete (s : State T J) (t : ℕ) : State T J :=
  match s.reqs t with
  | none => { s with fault := some .deadFrame }
  | some r => s.setReq t (some { r with done := r.done + 1 })

variable (handle : T → J → T × ℤ)

/-- `req->next` is read, and `droid_lkm_devtmpfs_handle` has returned. -/
def serve (s : State T J) (t : ℕ) : State T J :=
  match s.reqs t with
  | none => { s with fault := some .deadFrame }
  | some r =>
    { s.setReq t (some { r with err := some (handle s.tree r.job).2 }) with
      tree := (handle s.tree r.job).1
      log := s.log ++ [(r.call, r.job, (handle s.tree r.job).2)]
      worker := .completing t r.next }

/-- `droid_lkm_devtmpfs_thread_fn`.  Where `kthread_stop` raises a signal, the
    thread does not go to sleep after it. -/
def workStep (notify : Bool) (s : State T J) : Option (State T J) :=
  match s.worker with
  | .top => some { s with worker := if s.stop then .gone else .locking }
  | .locking =>
    match s.requests with
    | some r => some { s with requests := none, worker := .serving (some r) }
    | none => some { s with worker := .dozing }
  | .serving none => some { s with worker := .locking }
  | .serving (some r) => some (s.serve handle r)
  | .completing r next => some { s.complete r with worker := .serving next }
  | .dozing => some { s with worker := if s.stop && notify then .top else .asleep }
  | .asleep | .gone => none

/-- `droid_lkm_misc_devtmpfs_release`, from the unhooking to the end of
    `droid_lkm_devtmpfs_drain`. -/
def releaseStep (s : State T J) : Option (State T J) :=
  match s.release with
  | .idle => some { s with release := .unhooked }
  | .unhooked => some { s with thread := false, release := .cleared }
  | .cleared => some { s with stop := true, release := .flagged }
  | .flagged => some { s.wakeUp with release := .joining }
  | .joining => if s.worker = .gone then some { s with release := .joined } else none
  | .joined => some { s with requests := none, release := .draining s.requests }
  | .draining none => some { s with release := .finished }
  | .draining (some r) =>
    match s.reqs r with
    | none => some { s with fault := some .deadFrame }
    | some q =>
      some { s.setReq r (some { q with err := some (-ENODEV) }) with
        release := .failing r q.next }
  | .failing r next => some { s.complete r with release := .draining next }
  | .finished => none

/-- One action. -/
def act (notify : Bool) (s : State T J) : Act J → Option (State T J)
  | .enter t job => s.enter t job
  | .push t => s.push t
  | .wake t => s.wake t
  | .ret t => s.ret t
  | .work => s.workStep handle notify
  | .release => s.releaseStep

/-- Nothing happens after a fault. -/
def step (notify : Bool) (s : State T J) (a : Act J) : Option (State T J) :=
  if s.fault.isSome then none else s.act handle notify a

end State

end DroidLkm.Devtmpfs
