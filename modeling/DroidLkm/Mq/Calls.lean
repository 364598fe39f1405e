/-
  POSIX message queues — the calls.

  * `State` is one queue and the calls made on it, each under a number of its
    own; a call asleep keeps its `ext_wait_queue`;
  * `pipelinedSend`, `pipelinedReceive`, `wqSleep`, `doMqTimedsend`,
    `doMqTimedreceive`, `mqueueEvictInode`: as in `ipc_mqueue.c`;
  * `step` is one section under `info->lock`, with what surrounds it in the call:
    of that, only the message and the result are seen by others.
-/
import DroidLkm.Lib.Machine
import DroidLkm.Mq.Queue

namespace DroidLkm.Mq

/-- `struct ext_wait_queue`; `ready` is the state `STATE_READY`. -/
structure ExtWaitQueue where
  msg : Option MsgMsg
  ready : Bool
  deriving DecidableEq

/-- Where a call is. -/
inductive Call where
  | idle
  /-- in `wq_sleep` -/
  | sleeping (sr : Side) (wait : ExtWaitQueue)
  /-- returned before it looked at the queue -/
  | refused (ret : ℤ)
  | sent (msg : MsgMsg) (ret : ℤ)
  | received (msg : Option MsgMsg) (ret : ℤ)
  /-- a null pointer was followed -/
  | crashed
  deriving DecidableEq

/-- What the surroundings decide in a call: the errors (0 for none) of the
    descriptor and of `load_msg`, whether the node allocated before the lock and
    the one allocated under it are there, the flags of the file, the priorities
    of the tasks at that time, and whether the user's buffer can be written. -/
structure Env where
  file : ℤ
  load : ℤ
  newLeaf : Bool
  atomic : Bool
  nonblock : Bool
  prio : ℕ → ℤ
  copy : Bool

/-- `users` are the calls that keep the file open in their sleep, `evicted` the
    messages freed with the queue. -/
structure State where
  info : Info
  call : ℕ → Call
  users : List ℕ
  evicted : List MsgMsg
  gone : Bool

namespace State

def setCall (s : State) (c : ℕ) (x : Call) : State :=
  { s with call := Function.update s.call c x }

/-- The `ext_wait_queue` of a call, if it has one. -/
def waitMsg (s : State) (c : ℕ) : Option MsgMsg :=
  match s.call c with
  | .sleeping _ wait => wait.msg
  | _ => none

def modifyWait (s : State) (c : ℕ) (f : ExtWaitQueue → ExtWaitQueue) : State :=
  s.setCall c <| match s.call c with
    | .sleeping sr wait => .sleeping sr (f wait)
    | x => x

/-- `__pipelined_op` -/
def pipelinedOp (s : State) (sr : Side) (c : ℕ) : State :=
  { s with info := s.info.wqDel sr c }.modifyWait c ({ · with ready := true })

/-- `pipelined_send` -/
def pipelinedSend (s : State) (msg : MsgMsg) (receiver : ℕ) : State :=
  (s.modifyWait receiver ({ · with msg := some msg })).pipelinedOp .recv receiver

/-- `pipelined_receive`; a sender in the list has a message. -/
def pipelinedReceive (s : State) (alloc : Bool) : State :=
  match s.info.wqGetFirstWaiter .send with
  | none => s
  | some sender =>
    match s.waitMsg sender with
    | none => s
    | some msg =>
      let (info, err) := s.info.msgInsert msg alloc
      if err ≠ 0 then s else { s with info }.pipelinedOp .send sender

/-- `wq_sleep`, until the call sleeps. -/
def wqSleep (s : State) (sr : Side) (prio : ℕ → ℤ) (c : ℕ) (wait : ExtWaitQueue) : State :=
  { s with
    info := s.info.wqAdd sr prio c
    call := Function.update s.call c (.sleeping sr wait)
    users := c :: s.users }

/-- The part of `do_mq_timedsend` under the lock, after the cache has been filled. -/
def timedsendLocked (s : State) (c : ℕ) (msg : MsgMsg) (e : Env) : State :=
  if s.info.curmsgs = s.info.maxmsg then
    if e.nonblock then s.setCall c (.sent msg (-EAGAIN))
    else s.wqSleep .send e.prio c ⟨some msg, false⟩
  else
    match s.info.wqGetFirstWaiter .recv with
    | some receiver => (s.pipelinedSend msg receiver).setCall c (.sent msg 0)
    | none =>
      let (info, ret) := s.info.msgInsert msg e.atomic
      { s with info }.setCall c (.sent msg ret)

/-- `do_mq_timedsend`, until it returns or sleeps. -/
def doMqTimedsend (s : State) (c len prio : ℕ) (e : Env) : State :=
  if MQ_PRIO_MAX ≤ prio then s.setCall c (.refused (-EINVAL))
  else if e.file ≠ 0 then s.setCall c (.refused e.file)
  else if s.info.msgsize < len then s.setCall c (.refused (-EMSGSIZE))
  else if e.load ≠ 0 then s.setCall c (.refused e.load)
  else { s with info := s.info.cacheLeaf e.newLeaf }.timedsendLocked c ⟨c, prio, len⟩ e

/-- The end of `do_mq_timedreceive` where it has no error. -/
def receiveEnd (s : State) (c : ℕ) (msg : Option MsgMsg) (copy : Bool) : State :=
  s.setCall c <| match msg with
    | none => .crashed
    | some m => .received (some m) (if copy then m.mTs else -EFAULT)

/-- The part of `do_mq_timedreceive` under the lock, likewise. -/
def timedreceiveLocked (s : State) (c : ℕ) (e : Env) : State :=
  if s.info.curmsgs = 0 then
    if e.nonblock then s.setCall c (.received none (-EAGAIN))
    else s.wqSleep .recv e.prio c ⟨none, false⟩
  else
    let (info, msg) := s.info.msgGet
    ({ s with info }.pipelinedReceive e.atomic).receiveEnd c msg e.copy

/-- `do_mq_timedreceive`, until it returns or sleeps. -/
def doMqTimedreceive (s : State) (c len : ℕ) (e : Env) : State :=
  if e.file ≠ 0 then s.setCall c (.refused e.file)
  else if len < s.info.msgsize then s.setCall c (.refused (-EMSGSIZE))
  else { s with info := s.info.cacheLeaf e.newLeaf }.timedreceiveLocked c e

/-- `wq_sleep` has returned `ret`, and the call goes on. -/
def wqReturn (s : State) (c : ℕ) (sr : Side) (wait : ExtWaitQueue) (ret : ℤ) (copy : Bool) :
    State :=
  let s := { s with users := s.users.erase c }
  match sr with
  | .send =>
    s.setCall c <| match wait.msg with
      | none => .crashed
      | some msg => .sent msg ret
  | .recv =>
    if ret = 0 then s.receiveEnd c wait.msg copy else s.setCall c (.received none ret)

/-- A pass of the loop of `wq_sleep`, after `schedule_hrtimeout_range_clock`. -/
def wqWake (s : State) (c : ℕ) (sr : Side) (wait : ExtWaitQueue) (signal timedOut copy : Bool) :
    State :=
  if wait.ready then s.wqReturn c sr wait 0 copy
  else if signal then { s with info := s.info.wqDel sr c }.wqReturn c sr wait (-ERESTARTSYS) copy
  else if timedOut then { s with info := s.info.wqDel sr c }.wqReturn c sr wait (-ETIMEDOUT) copy
  else s

/-- The loop of `mqueue_evict_inode`: the queue, and the messages taken from it. -/
def evictLoop : ℕ → Info → List MsgMsg → Info × List MsgMsg
  | 0, i, tmp => (i, tmp)
  | fuel + 1, i, tmp =>
    match i.msgGet with
    | (i, none) => (i, tmp)
    | (i, some msg) => evictLoop fuel i (tmp ++ [msg])

/-- `mqueue_evict_inode` -/
def mqueueEvictInode (s : State) : State :=
  let (info, tmp) := evictLoop (s.info.curmsgs + 1) s.info []
  { s with
    info := { info with nodeCache := false }
    evicted := s.evicted ++ tmp
    gone := true }

/-- A new queue. -/
def init (maxmsg msgsize : ℕ) : State where
  info := {
    msgTree := .nil
    rightmost := none
    nodeCache := false
    curmsgs := 0
    maxmsg := maxmsg
    msgsize := msgsize
    qsize := 0
    eWaitQ := fun _ => [] }
  call := fun _ => .idle
  users := []
  evicted := []
  gone := false

end State

/-- One section of a call, or the end of the queue. -/
inductive Act where
  | timedsend (c len prio : ℕ) (e : Env)
  | timedreceive (c len : ℕ) (e : Env)
  /-- a call asleep runs again: it was woken, a signal is pending, its time is
      up, or none of these -/
  | wake (c : ℕ) (signal timedOut copy : Bool)
  /-- the last reference to the inode has gone -/
  | evict

open State

def step (s : State) : Act → Option State
  | .timedsend c len prio e =>
    if s.gone ∨ s.call c ≠ .idle then none else some (s.doMqTimedsend c len prio e)
  | .timedreceive c len e =>
    if s.gone ∨ s.call c ≠ .idle then none else some (s.doMqTimedreceive c len e)
  | .wake c signal timedOut copy =>
    match s.call c with
    | .sleeping sr wait => some (s.wqWake c sr wait signal timedOut copy)
    | _ => none
  | .evict => if s.gone ∨ s.users ≠ [] then none else some s.mqueueEvictInode

end DroidLkm.Mq
