/-
  POSIX message queues — notification.

  * `NotifyInfo` is what `struct mqueue_inode_info` has for it; `Notifying` is a
    queue with that and the calls of `mq_notify`, each under a number of its own;
  * `doNotify`, `removeNotification`, `doMqNotify`, `notifyRetry`, `notifyLock`,
    `mqueueFlushFile`: as in `ipc_mqueue.c`, `do_mq_notify` in three parts: up to
    the label `retry`, one pass from there, and from the queue's descriptor on;
  * `spent` has the cookies and the references to sockets that are gone, with
    what was done with them;
  * `step` is one section of a call, or a `close`.

  A cookie goes by the number of the call that allocates it.  As the kernel's
  functions do, `netlink_attachskb` puts its reference where it does not return
  0, and then frees the cookie too unless it returns 1; `netlink_sendskb` and
  `netlink_detachskb` take both.
-/
import DroidLkm.Mq.Calls

namespace DroidLkm.Mq

def NSIG : ℤ := 64

/-- `sigev_notify` -/
inductive SigevNotify where
  | none
  | signal
  | thread
  | other
  deriving DecidableEq

/-- `struct sigevent` -/
structure Sigevent where
  sigevNotify : SigevNotify
  sigevSigno : ℤ
  sigevValue : ℕ
  deriving DecidableEq

/-- A cookie, or a reference to a socket. -/
inductive Res where
  | nc (c : ℕ)
  | sock (r : ℕ)
  deriving DecidableEq

/-- What was done with one: `dev_kfree_skb`, `netlink_detachskb`,
    `netlink_attachskb`, and `netlink_sendskb` with either code. -/
inductive Use where
  | freed
  | detached
  | attached
  | wokenup
  | removed
  deriving DecidableEq

/-- What `struct mqueue_inode_info` has for notification. -/
structure NotifyInfo where
  notify : Sigevent
  notifyOwner : Option ℕ
  notifySelfExecId : ℕ
  notifyUserNs : Option ℕ
  notifySock : Option ℕ
  notifyCookie : Option ℕ
  deriving DecidableEq

/-- `struct kernel_siginfo` of a notification. -/
structure SigInfo where
  siSigno : ℤ
  siValue : ℕ
  siPid : ℕ
  siUid : ℕ
  deriving DecidableEq

/-- Where a call of `do_mq_notify` is. -/
inductive NotifyCall where
  | idle
  /-- at the label `retry` -/
  | retry (tgid : ℕ) (n : Sigevent)
  /-- before `fdget(mqdes)` -/
  | lock (tgid : ℕ) (n : Option Sigevent) (sock nc : Option ℕ)
  | returned (ret : ℤ)
  deriving DecidableEq

/-- What `__do_notify` finds: the `self_exec_id` of a process that is there, and
    the sender in the namespaces of a process and of a user. -/
structure NotifyEnv where
  selfExecId : ℕ → Option ℕ
  pid : ℕ → ℕ
  uid : ℕ → ℕ

/-- A queue, and the calls of `mq_notify`; `skbs` are the cookies allocated,
    `socks` is the number of references given out. -/
structure Notifying where
  queue : State
  info : NotifyInfo
  call : ℕ → NotifyCall
  skbs : List ℕ
  socks : ℕ
  spent : List (Res × Use)
  signals : List (ℕ × SigInfo)

/-- A cookie and a reference. -/
def resOf (sock nc : Option ℕ) : List Res := sock.toList.map .sock ++ nc.toList.map .nc

namespace Notifying

def setCall (s : Notifying) (c : ℕ) (x : NotifyCall) : Notifying :=
  { s with call := Function.update s.call c x }

def spend (s : Notifying) (l : List Res) (u : Use) : Notifying :=
  { s with spent := s.spent ++ l.map (·, u) }

/-! ## `__do_notify` and `remove_notification` -/

/-- `put_pid` and `put_user_ns`, and no process is registered. -/
def unregister (s : Notifying) : Notifying :=
  { s with info := { s.info with notifyOwner := none, notifyUserNs := none } }

/-- The signal of `__do_notify`. -/
def sendSignal (s : Notifying) (owner : ℕ) (e : NotifyEnv) : Notifying :=
  if s.info.notify.sigevSigno = 0 then s
  else if e.selfExecId owner = some s.info.notifySelfExecId then
    { s with signals := s.signals ++ [(owner, {
      siSigno := s.info.notify.sigevSigno
      siValue := s.info.notify.sigevValue
      siPid := e.pid owner
      siUid := s.info.notifyUserNs.elim 0 e.uid })] }
  else s

/-- `__do_notify`; the wake-up for `poll` is left out. -/
def doNotify (s : Notifying) (e : NotifyEnv) : Notifying :=
  match s.info.notifyOwner with
  | none => s
  | some owner =>
    if s.queue.info.curmsgs = 1 then
      match s.info.notify.sigevNotify with
      | .signal => (s.sendSignal owner e).unregister
      | .thread => (s.spend (resOf s.info.notifySock s.info.notifyCookie) .wokenup).unregister
      | _ => s.unregister
    else s

/-- `remove_notification` -/
def removeNotification (s : Notifying) : Notifying :=
  if s.info.notifyOwner ≠ none ∧ s.info.notify.sigevNotify = .thread then
    (s.spend (resOf s.info.notifySock s.info.notifyCookie) .removed).unregister
  else s.unregister

/-! ## The calls on the queue -/

/-- The part of `do_mq_timedsend` under the lock: only the message that it stores
    itself is notified. -/
def timedsendLocked (s : Notifying) (c : ℕ) (msg : MsgMsg) (e : Env) (ne : NotifyEnv) : Notifying :=
  let t := { s with queue := s.queue.timedsendLocked c msg e }
  if s.queue.info.curmsgs = s.queue.info.maxmsg then t
  else
    match s.queue.info.wqGetFirstWaiter .recv with
    | some _ => t
    | none => if (s.queue.info.msgInsert msg e.atomic).2 ≠ 0 then t else t.doNotify ne

/-- `do_mq_timedsend`, until it returns or sleeps. -/
def doMqTimedsend (s : Notifying) (c len prio : ℕ) (e : Env) (ne : NotifyEnv) : Notifying :=
  if MQ_PRIO_MAX ≤ prio ∨ e.file ≠ 0 ∨ s.queue.info.msgsize < len ∨ e.load ≠ 0 then
    { s with queue := s.queue.doMqTimedsend c len prio e }
  else
    { s with queue := { s.queue with info := s.queue.info.cacheLeaf e.newLeaf } }.timedsendLocked c
      ⟨c, prio, len⟩ e ne

/-- `mqueue_flush_file`, called by each `close`. -/
def mqueueFlushFile (s : Notifying) (tgid : ℕ) : Notifying :=
  if s.info.notifyOwner = some tgid then s.removeNotification else s

/-! ## `do_mq_notify` -/

/-- The label `out`; where there is no socket, this is the label `free_skb`. -/
def out (s : Notifying) (c : ℕ) (sock nc : Option ℕ) (ret : ℤ) : Notifying :=
  let use := if sock.isSome then Use.detached else .freed
  (s.spend (resOf sock nc) use).setCall c (.returned ret)

def validSignal (sig : ℤ) : Bool := 0 ≤ sig ∧ sig ≤ NSIG

/-- Up to the label `retry`; `alloc` and `copy` say whether `alloc_skb` and
    `copy_from_user` succeed. -/
def doMqNotify (s : Notifying) (c tgid : ℕ) (notification : Option Sigevent) (alloc copy : Bool) :
    Notifying :=
  match notification with
  | none => s.setCall c (.lock tgid none none none)
  | some n =>
    match n.sigevNotify with
    | .other => s.setCall c (.returned (-EINVAL))
    | .none => s.setCall c (.lock tgid n none none)
    | .signal =>
      if !validSignal n.sigevSigno then s.setCall c (.returned (-EINVAL))
      else s.setCall c (.lock tgid n none none)
    | .thread =>
      if !alloc then s.setCall c (.returned (-ENOMEM))
      else
        let s := { s with skbs := c :: s.skbs }
        if !copy then s.out c none (some c) (-EFAULT) else s.setCall c (.retry tgid n)

/-- From the label `retry` on: `fd` says whether the descriptor is open, `sockErr`
    is the error of `netlink_getsockbyfilp` (0 for none), `attach` what
    `netlink_attachskb` returns. -/
def notifyRetry (s : Notifying) (c tgid : ℕ) (n : Sigevent) (fd : Bool) (sockErr attach : ℤ) :
    Notifying :=
  if !fd then s.out c none (some c) (-EBADF)
  else if sockErr ≠ 0 then s.out c none (some c) sockErr
  else
    let sock := s.socks
    let s := { s with socks := sock + 1 }
    if attach = 1 then s.spend (resOf (some sock) none) .attached
    else if attach ≠ 0 then
      (s.spend (resOf (some sock) (some c)) .attached).setCall c (.returned attach)
    else s.setCall c (.lock tgid n (some sock) (some c))

/-- The registration, and what is left of `sock` and `nc`. -/
def register (i : NotifyInfo) (tgid : ℕ) (n : Sigevent) (sock nc : Option ℕ) (execId userNs : ℕ) :
    NotifyInfo × Option ℕ × Option ℕ :=
  let i := { i with notifyOwner := some tgid, notifyUserNs := some userNs }
  match n.sigevNotify with
  | .none => ({ i with notify := { i.notify with sigevNotify := .none } }, sock, nc)
  | .thread =>
    ({ i with
      notifySock := sock
      notifyCookie := nc
      notify := { i.notify with sigevNotify := .thread } }, none, none)
  | .signal => ({ i with notify := n, notifySelfExecId := execId }, sock, nc)
  | .other => (i, sock, nc)

/-- From `fdget(mqdes)` on; `file` is the error of the descriptor (0 for none). -/
def notifyLock (s : Notifying) (c tgid : ℕ) (notification : Option Sigevent) (sock nc : Option ℕ)
    (file : ℤ) (execId userNs : ℕ) : Notifying :=
  if file ≠ 0 then s.out c sock nc file
  else
    match notification with
    | none =>
      let t := if s.info.notifyOwner = some tgid then s.removeNotification else s
      t.out c sock nc 0
    | some n =>
      if s.info.notifyOwner ≠ none then s.out c sock nc (-EBUSY)
      else
        let r := register s.info tgid n sock nc execId userNs
        { s with info := r.1 }.out c r.2.1 r.2.2 0

/-- A new queue, on which nobody is registered. -/
def init (maxmsg msgsize : ℕ) (i : NotifyInfo) : Notifying where
  queue := State.init maxmsg msgsize
  info := { i with notifyOwner := none, notifyUserNs := none }
  call := fun _ => .idle
  skbs := []
  socks := 0
  spent := []
  signals := []

end Notifying

/-- A section of a call on the queue or of `mq_notify`, or a `close`. -/
inductive NotifyAct where
  | timedsend (c len prio : ℕ) (e : Env) (ne : NotifyEnv)
  | timedreceive (c len : ℕ) (e : Env)
  | wake (c : ℕ) (signal timedOut copy : Bool)
  | evict
  | notify (c tgid : ℕ) (notification : Option Sigevent) (alloc copy : Bool)
  | retry (c : ℕ) (fd : Bool) (sockErr attach : ℤ)
  | lock (c : ℕ) (file : ℤ) (execId userNs : ℕ)
  | flush (tgid : ℕ)

namespace Notifying

def step (s : Notifying) : NotifyAct → Option Notifying
  | .timedsend c len prio e ne =>
    if s.queue.gone ∨ s.queue.call c ≠ .idle then none
    else some (s.doMqTimedsend c len prio e ne)
  | .timedreceive c len e =>
    (Mq.step s.queue (.timedreceive c len e)).map fun queue => { s with queue }
  | .wake c signal timedOut copy =>
    (Mq.step s.queue (.wake c signal timedOut copy)).map fun queue => { s with queue }
  | .evict => (Mq.step s.queue .evict).map fun queue => { s with queue }
  | .notify c tgid notification alloc copy =>
    if s.call c ≠ .idle then none else some (s.doMqNotify c tgid notification alloc copy)
  | .retry c fd sockErr attach =>
    match s.call c with
    | .retry tgid n => some (s.notifyRetry c tgid n fd sockErr attach)
    | _ => none
  | .lock c file execId userNs =>
    match s.call c with
    | .lock tgid n sock nc =>
      if file = 0 ∧ s.queue.gone then none
      else some (s.notifyLock c tgid n sock nc file execId userNs)
    | _ => none
  | .flush tgid => if s.queue.gone then none else some (s.mqueueFlushFile tgid)

end Notifying

end DroidLkm.Mq
