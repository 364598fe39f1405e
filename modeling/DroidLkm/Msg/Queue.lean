/-
  SysV message queues — one queue and the tasks that use it.

  The steps are what `ipc_msg.c` does under the lock of the queue, and the
  lockless read of `r_msg`, in any order and by any number of tasks.

  * `ssWakeup`, `expungeAll`, `pipelinedSend`: as in `ipc_msg.c`;
  * `State` is the queue, the `msr_d` of each task and the place in its call
    where each task is; it also keeps a history of the messages;
  * `step` is one section, `State.init` the queue as `newque` leaves it.

  A task asleep may wake at any time, so wake queues are not kept.
-/
import Mathlib.Logic.Function.Basic
import DroidLkm.Errno
import DroidLkm.Lib.Machine
import DroidLkm.Msg.Search

namespace DroidLkm.Msg

def INT_MAX : ℕ := 2147483647

/-- `r_msg`: an error pointer or a message. -/
inductive RMsg where
  | err (e : ℤ)
  | msg (m : MsgMsg)
  deriving DecidableEq

/-- `struct msg_receiver`, less its links. -/
structure MsgReceiver where
  rMode : SearchMode
  rMsgtype : ℤ
  rMaxsize : ℕ
  rMsg : RMsg
  deriving DecidableEq

/-- `struct msg_sender`, less its links. -/
structure MsgSender where
  tsk : ℕ
  msgsz : ℕ
  deriving DecidableEq

/-- `struct msg_queue`: `qReceivers` are the tasks whose `msr_d` is linked,
    `valid` is what `ipc_valid_object` says. -/
structure MsgQueue where
  qCbytes : ℕ
  qQnum : ℕ
  qQbytes : ℕ
  qMessages : List MsgMsg
  qReceivers : List ℕ
  qSenders : List MsgSender
  valid : Bool
  deriving DecidableEq

/-! ## The functions of the queue -/

def msgFitsInqueue (msq : MsgQueue) (msgsz : ℕ) : Bool :=
  msgsz + msq.qCbytes ≤ msq.qQbytes && 1 + msq.qQnum ≤ msq.qQbytes

/-- The loop of `ss_wakeup` where it does not kill: the list is what has been
    passed followed by the entries ahead, of which the first is looked at; the
    result is the list and the tasks woken. -/
def ssWakeupLoop (fits : ℕ → Bool) : ℕ → List MsgSender → List MsgSender → Option ℕ → List ℕ →
    List MsgSender × List ℕ
  | 0, passed, ahead, _, wakeQ => (passed ++ ahead, wakeQ)
  | _, passed, [], _, wakeQ => (passed, wakeQ)
  | fuel + 1, passed, mss :: ahead, stopTsk, wakeQ =>
    if stopTsk = some mss.tsk then (passed ++ mss :: ahead, wakeQ)
    else if !fits mss.msgsz then
      -- the successor has been read before the entry moves to the tail
      if ahead = [] then (passed ++ [mss], wakeQ)
      else ssWakeupLoop fits fuel passed (ahead ++ [mss])
        (if stopTsk.isNone then some mss.tsk else stopTsk) wakeQ
    else ssWakeupLoop fits fuel (passed ++ [mss]) ahead stopTsk (wakeQ ++ [mss.tsk])

/-- `ss_wakeup`; every entry is passed at most once before the loop stops. -/
def ssWakeup (msq : MsgQueue) (kill : Bool) : MsgQueue :=
  if kill then { msq with qSenders := [] }
  else { msq with
    qSenders := (ssWakeupLoop (msgFitsInqueue msq) (2 * msq.qSenders.length + 1) []
      msq.qSenders none []).1 }

/-- `smp_store_release(&msr->r_msg, …)`. -/
def storeRMsg (msr : ℕ → MsgReceiver) (t : ℕ) (r : RMsg) : ℕ → MsgReceiver :=
  Function.update msr t { msr t with rMsg := r }

def expungeAll (msr : ℕ → MsgReceiver) (qReceivers : List ℕ) (res : ℤ) : ℕ → MsgReceiver :=
  qReceivers.foldl (fun msr t => storeRMsg msr t (.err res)) msr

/-- `pipelined_send` over the receivers ahead: the `msr_d` of the tasks, the
    receivers that stay, and who has got the message. -/
def pipelinedSend (msg : MsgMsg) : (ℕ → MsgReceiver) → List ℕ →
    (ℕ → MsgReceiver) × List ℕ × Option ℕ
  | msr, [] => (msr, [], none)
  | msr, t :: ahead =>
    if testmsg msg (msr t).rMsgtype (msr t).rMode then
      if (msr t).rMaxsize < msg.mTs then
        pipelinedSend msg (storeRMsg msr t (.err (-E2BIG))) ahead
      else (storeRMsg msr t (.msg msg), ahead, some t)
    else
      let (msr, stay, got) := pipelinedSend msg msr ahead
      (msr, t :: stay, got)

/-- The message is put at the end of the queue. -/
def enqueueMsg (msq : MsgQueue) (msg : MsgMsg) : MsgQueue :=
  { msq with
    qMessages := msq.qMessages ++ [msg]
    qCbytes := msq.qCbytes + msg.mTs
    qQnum := msq.qQnum + 1 }

/-- `do_msgrcv` unlinks the message it has found. -/
def unlinkMsg (msq : MsgQueue) (msg : MsgMsg) : MsgQueue :=
  ssWakeup { msq with
    qMessages := msq.qMessages.erase msg
    qQnum := msq.qQnum - 1
    qCbytes := msq.qCbytes - msg.mTs } false

/-- `do_msg_fill`; it fails when the user's buffer cannot be written. -/
def doMsgFill (msg : MsgMsg) (bufsz : ℕ) (fault : Bool) : ℤ :=
  if fault then -EFAULT else if msg.mTs < bufsz then msg.mTs else bufsz

/-! ## The machine -/

/-- The arguments of a `msgrcv` after `convert_mode`; `copySz` is the size of
    the message prepared for `MSG_COPY`. -/
structure RcvArgs where
  bufsz : ℕ
  msgtyp : ℤ
  mode : SearchMode
  msgflg : MsgFlg
  copySz : ℕ
  deriving DecidableEq

/-- Where a task is. -/
inductive Phase where
  /-- outside the calls, the last one having returned `ret` -/
  | user (ret : ℤ)
  /-- in `msgsnd`, before it takes the lock -/
  | sending (msg : MsgMsg) (nowait : Bool)
  /-- in `msgsnd`, asleep -/
  | sndAsleep (msg : MsgMsg) (nowait : Bool)
  /-- in `msgrcv`, before it takes the lock -/
  | receiving (a : RcvArgs)
  /-- in `msgrcv`, asleep -/
  | rcvAsleep (a : RcvArgs)
  /-- in `msgrcv`, after a lockless read of `-EAGAIN` -/
  | rcvWoken (a : RcvArgs)
  /-- in `freeque`, after it has dropped the lock -/
  | freeing
  deriving DecidableEq

/-- The queue, the tasks, and the history: the messages accepted, those taken
    and by whom, those returned and to whom, and those freed by the removal of
    the queue, each in order. -/
structure State where
  queue : MsgQueue
  msr : ℕ → MsgReceiver
  phase : ℕ → Phase
  nextMsg : ℕ
  accepted : List MsgMsg
  taken : List (MsgMsg × ℕ)
  received : List (MsgMsg × ℕ)
  freed : List MsgMsg

namespace State

/-- A task goes to another phase. -/
def setPhase (s : State) (t : ℕ) (p : Phase) : State :=
  { s with phase := Function.update s.phase t p }

/-- A call returns. -/
def ret (s : State) (t : ℕ) (r : ℤ) : State := s.setPhase t (.user r)

/-- A `msgrcv` returns with a message. -/
def deliver (s : State) (t : ℕ) (a : RcvArgs) (m : MsgMsg) (fault : Bool) : State :=
  { s.ret t (doMsgFill m a.bufsz fault) with received := s.received ++ [(m, t)] }

/-- A `msgrcv` returns what it has read from `r_msg`. -/
def finish (s : State) (t : ℕ) (a : RcvArgs) (fault : Bool) : State :=
  match (s.msr t).rMsg with
  | .err e => s.ret t e
  | .msg m => s.deliver t a m fault

/-- The end of `do_msgsnd`: the message is handed over or put on the queue. -/
def accept (s : State) (t : ℕ) (msg : MsgMsg) : State :=
  match pipelinedSend msg s.msr s.queue.qReceivers with
  | (msr, stay, some r) =>
    { s.ret t 0 with
      msr
      queue := { s.queue with qReceivers := stay }
      accepted := s.accepted ++ [msg]
      taken := s.taken ++ [(msg, r)] }
  | (msr, stay, none) =>
    { s.ret t 0 with
      msr
      queue := enqueueMsg { s.queue with qReceivers := stay } msg
      accepted := s.accepted ++ [msg] }

/-- One pass of the loop of `do_msgsnd`, under the lock. -/
def sndPass (s : State) (t : ℕ) (msg : MsgMsg) (nowait allowed : Bool) : State :=
  if !allowed then s.ret t (-EACCES)
  else if !s.queue.valid then s.ret t (-EIDRM)
  else if msgFitsInqueue s.queue msg.mTs then s.accept t msg
  else if nowait then s.ret t (-EAGAIN)
  else { s.setPhase t (.sndAsleep msg nowait) with
    queue := { s.queue with qSenders := s.queue.qSenders ++ [⟨t, msg.mTs⟩] } }

/-- The first part of a pass of the loop of `do_msgrcv`, until it sleeps. -/
def rcvPass (s : State) (t : ℕ) (a : RcvArgs) (fault : Bool) : State :=
  if !s.queue.valid then s.ret t (-EIDRM)
  else match findMsg s.queue.qMessages a.msgtyp a.mode with
  | (some msg, _) =>
    if a.bufsz < msg.mTs ∧ !a.msgflg.noerror then s.ret t (-E2BIG)
    else if a.msgflg.copy then
      s.ret t (if a.copySz < msg.mTs then -EINVAL else doMsgFill msg a.bufsz fault)
    else
      { s.deliver t a msg fault with
        queue := unlinkMsg s.queue msg
        taken := s.taken ++ [(msg, t)] }
  | (none, msgtyp) =>
    if a.msgflg.nowait then s.ret t (-ENOMSG)
    else
      let a := { a with msgtyp }
      { s.setPhase t (.rcvAsleep a) with
        queue := { s.queue with qReceivers := s.queue.qReceivers ++ [t] }
        msr := Function.update s.msr t
          { rMode := a.mode, rMsgtype := msgtyp,
            rMaxsize := if a.msgflg.noerror then INT_MAX else a.bufsz,
            rMsg := .err (-EAGAIN) } }

/-- A new queue. -/
def init (qbytes : ℕ) : State where
  queue := { qCbytes := 0, qQnum := 0, qQbytes := qbytes, qMessages := [], qReceivers := [],
             qSenders := [], valid := true }
  msr := fun _ => ⟨.any, 0, 0, .err 0⟩
  phase := fun _ => .user 0
  nextMsg := 0
  accepted := []
  taken := []
  received := []
  freed := []

end State

/-- One section.  `err` is what the checks of a call before its first section
    return, `allowed` what `ipcperms` says, `signal` whether a signal is
    pending, and `fault` whether the user's buffer cannot be written. -/
inductive Act where
  | msgsnd (t : ℕ) (mtype : ℤ) (msgsz : ℕ) (nowait : Bool) (msgCtlmax : ℕ) (err : ℤ)
  | sndLock (t : ℕ) (allowed : Bool)
  | sndRelock (t : ℕ) (signal allowed : Bool)
  | msgrcv (t : ℕ) (bufsz : ℕ) (msgtyp : ℤ) (msgflg : MsgFlg) (msgCtlmax : ℕ) (err : ℤ)
  | rcvLock (t : ℕ) (allowed fault : Bool)
  /-- the lockless read of `r_msg` -/
  | rcvRead (t : ℕ) (fault : Bool)
  | rcvRelock (t : ℕ) (signal fault : Bool)
  | ipcSet (t : ℕ) (qbytes : ℕ) (err : ℤ)
  | ipcRmid (t : ℕ) (err : ℤ)
  /-- one pass of the loop of `freeque` -/
  | freeMsg (t : ℕ)

def step (s : State) : Act → Option State
  | .msgsnd t mtype msgsz nowait msgCtlmax err =>
    match s.phase t with
    | .user _ =>
      if msgCtlmax < msgsz ∨ LONG_MAX < msgsz then some (s.ret t (-EINVAL))
      else if mtype < 1 then some (s.ret t (-EINVAL))
      else if err ≠ 0 then some (s.ret t err)
      else some { s.setPhase t (.sending ⟨s.nextMsg, mtype, msgsz⟩ nowait) with
        nextMsg := s.nextMsg + 1 }
    | _ => none
  | .sndLock t allowed =>
    match s.phase t with
    | .sending msg nowait => some (s.sndPass t msg nowait allowed)
    | _ => none
  | .sndRelock t signal allowed =>
    match s.phase t with
    | .sndAsleep msg nowait =>
      if !s.queue.valid then some (s.ret t (-EIDRM))
      else
        let s := { s with
          queue := { s.queue with qSenders := s.queue.qSenders.erase ⟨t, msg.mTs⟩ } }
        if signal then some (s.ret t (-ERESTARTNOHAND))
        else some (s.sndPass t msg nowait allowed)
    | _ => none
  | .msgrcv t bufsz msgtyp msgflg msgCtlmax err =>
    match s.phase t with
    | .user _ =>
      if LONG_MAX < bufsz then some (s.ret t (-EINVAL))
      else if msgflg.copy ∧ (msgflg.except ∨ !msgflg.nowait) then some (s.ret t (-EINVAL))
      else if err ≠ 0 then some (s.ret t err)
      else
        let (msgtyp, mode) := convertMode msgtyp msgflg
        some (s.setPhase t (.receiving ⟨bufsz, msgtyp, mode, msgflg, min bufsz msgCtlmax⟩))
    | _ => none
  | .rcvLock t allowed fault =>
    match s.phase t with
    | .receiving a => if !allowed then some (s.ret t (-EACCES)) else some (s.rcvPass t a fault)
    | _ => none
  | .rcvRead t fault =>
    match s.phase t with
    | .rcvAsleep a =>
      if (s.msr t).rMsg ≠ .err (-EAGAIN) then some (s.finish t a fault)
      else some (s.setPhase t (.rcvWoken a))
    | _ => none
  | .rcvRelock t signal fault =>
    match s.phase t with
    | .rcvWoken a =>
      if (s.msr t).rMsg ≠ .err (-EAGAIN) then some (s.finish t a fault)
      else
        let s := { s with
          queue := { s.queue with qReceivers := s.queue.qReceivers.erase t } }
        if signal then some (s.ret t (-ERESTARTNOHAND))
        else some (s.setPhase t (.receiving a))
    | _ => none
  | .ipcSet t qbytes err =>
    match s.phase t with
    | .user _ =>
      if err ≠ 0 then some (s.ret t err)
      else if !s.queue.valid then none
      else some { s.ret t 0 with
        queue := ssWakeup { s.queue with qQbytes := qbytes } false
        msr := expungeAll s.msr s.queue.qReceivers (-EAGAIN) }
    | _ => none
  | .ipcRmid t err =>
    match s.phase t with
    | .user _ =>
      if err ≠ 0 then some (s.ret t err)
      else if !s.queue.valid then none
      else some { s.setPhase t .freeing with
        queue := { ssWakeup s.queue true with valid := false }
        msr := expungeAll s.msr s.queue.qReceivers (-EIDRM) }
    | _ => none
  | .freeMsg t =>
    match s.phase t with
    | .freeing =>
      match s.queue.qMessages with
      | [] => some (s.ret t 0)
      | msg :: rest => some { s with
          queue := { s.queue with qMessages := rest }
          freed := s.freed ++ [msg] }
    | _ => none

end DroidLkm.Msg
