/-
  The exit of the module.

  * `World`: threads and the namespaces their nsproxies name, nsfs inodes, the
    queues of the exit hook, the worker, and how far `droid_lkm_exit` is;
  * `exitStep`: `droid_lkm_exit`, one look or one write at a time;
  * `workerStep`: the worker until it is stopped;
  * `step`: these, the exits of threads, and inodes that go, in any order.

  Objects are named by numbers, 0 among the pid namespaces for `init_pid_ns`.
  The layout is trusted, since else the module makes no namespace.
  Calls that make or enter namespaces are not part of it: their hooks are gone.
-/
import Mathlib.Data.Nat.Notation
import Mathlib.Logic.Function.Basic
import DroidLkm.Lib.Machine

namespace DroidLkm.Unload

/-- `struct pid_namespace`: its count, what its `stashed` says, whether it has an
    nsfs inode, the pids in it, and whether its operations are the neutral ones. -/
structure PidNs where
  refcount : ℕ
  stashed : Bool
  inode : Bool
  idr : ℕ
  neutral : Bool
  deriving DecidableEq

/-- `struct ipc_namespace` likewise, with its objects. -/
structure IpcNs where
  refcount : ℕ
  stashed : Bool
  inode : Bool
  inUse : ℕ
  neutral : Bool
  deriving DecidableEq

/-- `struct droid_lkm_ipcns_entry` -/
structure IpcEntry where
  ns : ℕ
  kernelOwned : Bool
  deriving DecidableEq

/-- What becomes of a namespace when the exit gets to it. -/
inductive Fate where
  | freed
  | neutralized
  /-- neither: it is the host's, or the kernel's to free -/
  | left
  deriving DecidableEq

/-- A record for the proofs, which the code does not keep: what became of a
    namespace, and whether anything named it at that time. -/
structure Verdict where
  ns : ℕ
  named : Bool
  fate : Fate
  deriving DecidableEq

/-- How far the worker is in its loop. -/
inductive Worker where
  | wait
  | zaps
  | zap (n : ℕ)
  | deferred
  /-- in an entry of the queue, with its `exit_ns` -/
  | run (n : ℕ)
  | stopped
  deriving DecidableEq

/-- How far `droid_lkm_exit` is. -/
inductive Pc where
  | start
  /-- `droid_lkm_task_ipc_deferred_run` -/
  | deferred
  | run (n : ℕ)
  /-- `droid_lkm_reset_task_ns_refs` of `droid_lkm_ipcns_exit` -/
  | walkIpc (rest : List ℕ)
  | ipcs
  | ipcStash (n : ℕ)
  | ipcCount (n : ℕ)
  | ipcUse (n : ℕ)
  /-- `droid_lkm_pidns_exit`: the kprobe goes and the reapers are retired -/
  | kprobe
  /-- `kthread_stop` -/
  | stop
  | zapClear
  /-- the second walk -/
  | walkPid (rest : List ℕ)
  | pids
  | pidStash (n : ℕ)
  | pidCount (n : ℕ)
  | pidIdr (n : ℕ)
  | done
  deriving DecidableEq

/-- How the module was loaded: the namespace it serves as the host's, the reaper
    that outlives it, the worker as a thread, `droid_lkm_ipcns_kernel_owned`, and
    whether the hooks on the release of an nsproxy are there. -/
structure Config where
  host : ℕ
  initTask : ℕ
  reaper : ℕ
  kernelOwned : Bool
  releaseHooked : Bool

structure World where
  /-- the list of threads -/
  tasks : List ℕ
  /-- the thread leads its group, and so is on the list of processes -/
  leader : ℕ → Bool
  /-- of a thread, its nsproxy -/
  nsproxy : ℕ → Option ℕ
  /-- of an nsproxy, `pid_ns_for_children` and `ipc_ns` -/
  pidOf : ℕ → ℕ
  ipcOf : ℕ → Option ℕ
  activePidNs : ℕ → ℕ
  childReaper : ℕ → ℕ
  /-- the thread has a `struct droid_lkm_task_ipc` that is not queued -/
  record : ℕ → Bool
  pidns : ℕ → PidNs
  pidnsList : List ℕ
  ipcns : ℕ → IpcNs
  ipcnsList : List IpcEntry
  /-- `droid_lkm_deferred_list`, each entry by its `exit_ns` -/
  deferredList : List ℕ
  zapList : List ℕ
  zapQueued : ℕ → Bool
  worker : Worker
  kprobe : Bool
  pc : Pc
  pidLog : List Verdict
  ipcLog : List Verdict

namespace World

variable (host : ℕ) (w : World)

def pidnsIsOurs (n : ℕ) : Bool := n ≠ 0 && n ∈ w.pidnsList

def ipcnsIsOurs (n : ℕ) : Bool := w.ipcnsList.any (·.ns = n)

/-! ## Who names a namespace -/

/-- An entry is queued, or the worker or the exit is at it. -/
def deferredNames (n : ℕ) : Bool :=
  n ∈ w.deferredList || w.worker = .run n || w.pc = .run n

def tasksNamePid (n : ℕ) : Bool := w.tasks.any fun t => (w.nsproxy t).any fun q => w.pidOf q = n

def tasksNameIpc (n : ℕ) : Bool :=
  w.tasks.any fun t => (w.nsproxy t).any fun q => w.ipcOf q = some n

/-- The nsproxy of a thread, an nsfs inode, or the queue of the zaps. -/
def pidNamed (n : ℕ) : Bool :=
  w.tasksNamePid n || (w.pidns n).inode || n ∈ w.zapList || w.worker = .zap n

/-- The nsproxy of a thread, an nsfs inode, or a deferred entry. -/
def ipcNamed (n : ℕ) : Bool := w.tasksNameIpc n || (w.ipcns n).inode || w.deferredNames n

/-! ## References -/

def setPid (n : ℕ) (x : PidNs) : World := { w with pidns := Function.update w.pidns n x }

def setIpc (n : ℕ) (x : IpcNs) : World := { w with ipcns := Function.update w.ipcns n x }

/-- `droid_lkm_pidns_put`; the last reference is not dropped. -/
def pidnsPut (n : ℕ) : World :=
  if n = 0 ∨ (w.pidns n).refcount ≤ 1 then w
  else w.setPid n { w.pidns n with refcount := (w.pidns n).refcount - 1 }

/-- A count is dropped; what follows at zero is a step of its own. -/
def ipcDec (n : ℕ) : World :=
  w.setIpc n { w.ipcns n with refcount := (w.ipcns n).refcount - 1 }

/-- `droid_lkm_ipcns_put`, up to where the count is zero; the host keeps one. -/
def ipcnsPut (n : ℕ) : World :=
  if n = host ∧ (w.ipcns n).refcount ≤ 1 then w.setIpc n { w.ipcns n with refcount := 1 }
  else w.ipcDec n

/-! ## The exit of the module -/

/-- What `droid_lkm_for_each_process_thread` goes over: the inner loop is made once,
    for the leader. -/
def eachProcessThread : List ℕ := w.tasks.filter w.leader

/-- The body of the loop of `droid_lkm_reset_task_ns_refs`. -/
def resetTask (t : ℕ) : World :=
  match w.nsproxy t with
  | none => w
  | some q =>
    let w := if w.pidnsIsOurs (w.pidOf q) then
      { w.pidnsPut (w.pidOf q) with pidOf := Function.update w.pidOf q 0 } else w
    if (w.ipcOf q).any w.ipcnsIsOurs then { w with ipcOf := Function.update w.ipcOf q none } else w

/-- A namespace has been dealt with. -/
def ipcDone (n : ℕ) (fate : Fate) : World :=
  { w with pc := .ipcs, ipcLog := ⟨n, w.ipcNamed n, fate⟩ :: w.ipcLog }

def pidDone (n : ℕ) (fate : Fate) : World :=
  { w with pc := .pids, pidLog := ⟨n, w.pidNamed n, fate⟩ :: w.pidLog }

/-- `droid_lkm_ns_neutralize` -/
def ipcNeutralize (n : ℕ) : World :=
  (w.ipcDone n .neutralized).setIpc n { w.ipcns n with neutral := true }

def pidNeutralize (n : ℕ) : World :=
  (w.pidDone n .neutralized).setPid n { w.pidns n with neutral := true }

/-- The head of the loop of `droid_lkm_ipcns_exit`. -/
def ipcsStep : World :=
  match w.ipcnsList with
  | [] => { w with pc := .kprobe }
  | e :: rest =>
    let w := { w with ipcnsList := rest }
    if e.kernelOwned then
      -- `put_ipc_ns` of the kernel, which frees at the last reference
      (w.ipcDone e.ns (if (w.ipcns e.ns).refcount = 1 then .freed else .left)).ipcDec e.ns
    else if e.ns = host then w.ipcDone e.ns .left
    else { w with pc := .ipcStash e.ns }

/-- The head of the loop of `droid_lkm_pidns_exit`. -/
def pidsStep : World :=
  match w.pidnsList with
  | [] => { w with pc := .done }
  | n :: rest => { w with pidnsList := rest, pc := .pidStash n }

/-- A step of `droid_lkm_exit`; `initTask` is the reaper that outlives the
    module. -/
def exitStep (initTask : ℕ) : Option World :=
  match w.pc with
  | .start => some { w with pc := .deferred }
  | .deferred =>
    match w.deferredList with
    | [] => some { w with pc := .walkIpc w.eachProcessThread }
    | n :: rest => some { w with deferredList := rest, pc := .run n }
  | .run _ => some { w with pc := .deferred }
  | .walkIpc [] => some { w with pc := .ipcs }
  | .walkIpc (t :: rest) => some { w.resetTask t with pc := .walkIpc rest }
  | .ipcs => some (w.ipcsStep host)
  | .ipcStash n =>
    some (if (w.ipcns n).stashed then w.ipcNeutralize n else { w with pc := .ipcCount n })
  | .ipcCount n =>
    some (if 0 < (w.ipcns n).refcount then w.ipcNeutralize n else { w with pc := .ipcUse n })
  | .ipcUse n => some (if 0 < (w.ipcns n).inUse then w.ipcNeutralize n else w.ipcDone n .freed)
  | .kprobe => some { w with
      kprobe := false
      childReaper := fun n => if n ∈ w.pidnsList then initTask else w.childReaper n
      pc := .stop }
  | .stop => if w.worker = .stopped then some { w with pc := .zapClear } else none
  | .zapClear => some { w with zapList := [], pc := .walkPid w.eachProcessThread }
  | .walkPid [] => some { w with pc := .pids }
  | .walkPid (t :: rest) => some { w.resetTask t with pc := .walkPid rest }
  | .pids => some w.pidsStep
  | .pidStash n =>
    some (if (w.pidns n).stashed then w.pidNeutralize n else { w with pc := .pidCount n })
  | .pidCount n =>
    some (if 1 < (w.pidns n).refcount then w.pidNeutralize n else { w with pc := .pidIdr n })
  | .pidIdr n => some (if 0 < (w.pidns n).idr then w.pidNeutralize n else w.pidDone n .freed)
  | .done => none

/-! ## The worker and the threads -/

/-- `droid_lkm_zap_fn` -/
def workerStep : Option World :=
  match w.worker with
  | .wait => some { w with worker := if w.pc = .stop then .stopped else .zaps }
  | .zaps =>
    match w.zapList with
    | [] => some { w with worker := .deferred }
    | n :: rest => some { w with zapList := rest, worker := .zap n }
  | .zap _ => some { w with worker := .zaps }
  | .deferred =>
    match w.deferredList with
    | [] => some { w with worker := .wait }
    | n :: rest => some { w with deferredList := rest, worker := .run n }
  | .run _ => some { w with worker := .deferred }
  | .stopped => none

/-- `droid_lkm_task_ipc_exit_defer` -/
def exitDefer (t : ℕ) : World :=
  if w.record t then
    { w with
      record := Function.update w.record t false
      deferredList := w.deferredList ++ [((w.nsproxy t).bind w.ipcOf).getD host] }
  else w

/-- `droid_lkm_pidns_queue_zap` -/
def queueZap (n : ℕ) : World :=
  if w.pidnsIsOurs n ∧ !w.zapQueued n then
    { w with
      zapQueued := Function.update w.zapQueued n true
      zapList := w.zapList ++ [n] }
  else w

/-- `droid_lkm_do_exit_pre`; `reaper` is the worker as a thread. -/
def doExitPre (reaper t : ℕ) : World :=
  let w := w.exitDefer host t
  let n := w.activePidNs t
  if w.pidnsIsOurs n ∧ w.childReaper n = t then
    { w with childReaper := Function.update w.childReaper n reaper }.queueZap n
  else w

/-- No other thread has the nsproxy. -/
def nsproxyLast (t q : ℕ) : Bool := w.tasks.all fun u => u = t || w.nsproxy u ≠ some q

/-- `exit_task_namespaces`: with the last user of an nsproxy a kernel that has
    ipc namespaces puts the one it names, and the hook does. -/
def leave (c : Config) (t : ℕ) : World :=
  match w.nsproxy t with
  | none => w
  | some q =>
    let w' := { w with nsproxy := Function.update w.nsproxy t none }
    match w.ipcOf q with
    | none => w'
    | some n =>
      if !w.nsproxyLast t q then w'
      else
        let w' := if c.kernelOwned then w'.ipcDec n else w'
        if !c.releaseHooked || !w.ipcnsIsOurs n then w'
        else if w.ipcnsList.any fun e => e.ns = n && e.kernelOwned then w'.ipcDec n
        else w'.ipcnsPut c.host n

end World

inductive Act where
  /-- `droid_lkm_exit` -/
  | exit
  | worker
  /-- a thread exits: the kprobe on `do_exit`, -/
  | doExit (t : ℕ)
  /-- its namespaces, -/
  | leave (t : ℕ)
  /-- the list of threads, -/
  | unhash (t : ℕ)
  /-- and a pid in a namespace -/
  | freePid (n : ℕ)
  /-- the nsfs dentry of a namespace is pruned, which clears its stash, -/
  | prunePid (n : ℕ)
  | pruneIpc (n : ℕ)
  /-- and its inode evicted, which puts the namespace -/
  | evictPid (n : ℕ)
  | evictIpc (n : ℕ)
  /-- an object is removed -/
  | rmId (n : ℕ)
  /-- a put that has come to zero takes the namespace off the list and frees it -/
  | reap (n : ℕ)

def step (c : Config) (w : World) : Act → Option World
  | .exit => w.exitStep c.host c.initTask
  | .worker => w.workerStep
  | .doExit t => if t ∈ w.tasks ∧ w.kprobe then some (w.doExitPre c.host c.reaper t) else none
  | .leave t => if t ∈ w.tasks then some (w.leave c t) else none
  | .unhash t => if w.nsproxy t = none then some { w with tasks := w.tasks.erase t } else none
  | .freePid n =>
    some (w.setPid n { w.pidns n with idr := (w.pidns n).idr - 1 })
  | .prunePid n => some (w.setPid n { w.pidns n with stashed := false })
  | .pruneIpc n => some (w.setIpc n { w.ipcns n with stashed := false })
  | .evictPid n =>
    if (w.pidns n).inode ∧ !(w.pidns n).stashed then
      let w' := w.setPid n { w.pidns n with inode := false }
      some (if (w.pidns n).neutral then w' else w'.pidnsPut n)
    else none
  | .evictIpc n =>
    if (w.ipcns n).inode ∧ !(w.ipcns n).stashed then
      let w' := w.setIpc n { w.ipcns n with inode := false }
      some (if (w.ipcns n).neutral then w' else w'.ipcnsPut c.host n)
    else none
  | .rmId n => some (w.setIpc n { w.ipcns n with inUse := (w.ipcns n).inUse - 1 })
  | .reap n =>
    if n ≠ c.host ∧ (w.ipcns n).refcount = 0 ∧ ⟨n, false⟩ ∈ w.ipcnsList then
      some { w with ipcnsList := w.ipcnsList.filter (· ≠ ⟨n, false⟩) }
    else none

end DroidLkm.Unload
