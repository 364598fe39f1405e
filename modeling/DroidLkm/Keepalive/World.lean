/-
  The reference that the module takes on itself.

  * `UnshareOps.withPin`: an `unshare` that notes whether it gets to
    `droid_lkm_keepalive_pin`;
  * `World`: the tasks and their namespaces, the pids and objects in them, the
    flag, and where each caller of the keepalive functions is;
  * `syncStep`: `droid_lkm_keepalive_sync` of the worker, one look at a time;
  * `step`: calls of tasks, their pins, and the worker, in any order.

  A call is one step, but for the pin of an `unshare`, which is a step that
  tests the flag and one that takes the reference and sets it; nobody looks at
  the count in between, and the same goes for the release.
-/
import DroidLkm.Slot.Machine

namespace DroidLkm.Slot

/-- The same operations, on a state that says whether the pin was called. -/
def UnshareOps.withPin {σ : Type} (o : UnshareOps σ) : UnshareOps (σ × Bool) where
  gateAllow := o.gateAllow
  noFakeNs := o.noFakeNs
  cnnHooked := o.cnnHooked
  unsharePrecheck := fun s flags => o.unsharePrecheck s.1 flags
  origUnshare := fun s flags => let (k, ret) := o.origUnshare s.1 flags; ((k, s.2), ret)
  exitSem := fun s => (o.exitSem s.1, s.2)
  exitShm := fun s => (o.exitShm s.1, s.2)
  slotInstallIpcns := fun s => let (k, ret) := o.slotInstallIpcns s.1; ((k, s.2), ret)
  slotInstallPidns := fun s => let (k, ret) := o.slotInstallPidns s.1; ((k, s.2), ret)
  keepalivePin := fun s => (o.keepalivePin s.1, true)

end DroidLkm.Slot

namespace DroidLkm.Keepalive

open Slot

/-- How far a task is in `droid_lkm_sys_unshare`. -/
inductive Pin where
  /-- not in it -/
  | out
  /-- at the call of `droid_lkm_keepalive_pin` -/
  | due
  /-- in the pin, which has found the flag not set -/
  | unheld
  deriving DecidableEq

/-- How far the worker is in `droid_lkm_keepalive_sync`; the lists hold what is
    still to be looked at. -/
inductive Sync where
  | out
  /-- `droid_lkm_pidns_busy` -/
  | pids (rest : List ℕ)
  /-- `droid_lkm_ipcns_busy`, with `created_used` -/
  | ids (rest : List ℕ) (createdUsed : Bool)
  /-- `droid_lkm_any_task_ns_refs` -/
  | tasks (rest : List ℕ)
  /-- busy: at the call of the pin -/
  | busy
  | unheld
  /-- not busy: at the test of the flag -/
  | free
  /-- the flag was set -/
  | held
  deriving DecidableEq

structure World where
  kernel : Kernel
  /-- the task leads its thread group -/
  leader : ℕ → Bool
  /-- the tasks whose `struct pid` has not been freed -/
  pids : List ℕ
  /-- `in_use` of the tables of an ipc namespace -/
  inUse : ℕ → Fin 3 → ℕ
  /-- `droid_lkm_keepalive_held` -/
  held : Bool
  /-- the references of the keepalive that have not been put -/
  refs : ℕ
  pin : ℕ → Pin
  sync : Sync

namespace World

variable (w : World)

/-! ## What the worker looks at -/

def pidnsIsOurs (n : ℕ) : Bool := n ≠ 0 && n < w.kernel.nextPid

/-- `droid_lkm_pidns_list` -/
def pidnsList : List ℕ := (List.range w.kernel.nextPid).filter (· ≠ 0)

/-- `droid_lkm_ipcns_list` -/
def ipcnsList : List ℕ := (List.range w.kernel.nextIpc).filter (w.kernel.ipcns · |>.listed)

/-- A pid is in the table of its namespace and of those above it. -/
def idrIsEmpty (n : ℕ) : Bool :=
  w.pids.all fun t =>
    let a := (w.kernel.task t).activePidNs
    w.kernel.pidnsAncestor (w.kernel.pidns n).level (w.kernel.pidns a).level a ≠ n

/-- `droid_lkm_ipcns_ids_used` -/
def idsUsed (n : ℕ) : Bool := 0 < w.inUse n 0 || 0 < w.inUse n 1 || 0 < w.inUse n 2

/-- The body of the loop of `droid_lkm_any_task_ns_refs`. -/
def taskNsRefs (t : ℕ) : Bool :=
  match w.kernel.nsproxyOf t with
  | none => false
  | some x => w.pidnsIsOurs x.pidNsForChildren ||
    x.ipcNs.any fun n => w.kernel.ipcnsIsOurs n && n ≠ 0

def liveTasks : List ℕ := (List.range w.kernel.nextTask).filter w.kernel.live

/-- What `droid_lkm_for_each_process_thread` goes over: the inner loop is made once,
    for the leader. -/
def eachProcessThread : List ℕ := w.liveTasks.filter w.leader

/-- `try_module_get` and the flag; `live` says that the module is not on its
    way out. -/
def take (live : Bool) : World :=
  if live then { w with held := true, refs := w.refs + 1 } else w

/-- A step of `droid_lkm_keepalive_sync`; `trusted` is
    `droid_lkm_layout_trusted()`. -/
def syncStep (trusted live : Bool) : World :=
  match w.sync with
  | .out => { w with sync := .pids w.pidnsList }
  | .pids [] => { w with sync := .ids w.ipcnsList false }
  | .pids (n :: rest) => { w with sync := if w.idrIsEmpty n then .pids rest else .busy }
  | .ids [] createdUsed =>
    { w with sync := if createdUsed && trusted then .tasks w.eachProcessThread else .free }
  | .ids (n :: rest) createdUsed =>
    { w with sync :=
        if !w.idsUsed n then .ids rest createdUsed
        else if n = 0 then .busy
        else .ids rest true }
  | .tasks [] => { w with sync := .free }
  | .tasks (t :: rest) => { w with sync := if w.taskNsRefs t then .busy else .tasks rest }
  | .busy => { w with sync := if w.held then .out else .unheld }
  | .unheld => { w.take live with sync := .out }
  | .free => { w with sync := if w.held then .held else .out }
  | .held => { w with held := false, refs := w.refs - 1, sync := .out }

/-! ## Calls -/

/-- The tasks are as a call leaves them; a new one has a pid, and leads its group
    unless it is a thread. -/
def become (thread : Bool) (k : Kernel) : World :=
  { w with
    kernel := k
    leader := fun c => if w.kernel.nextTask ≤ c then !thread else w.leader c
    pids := w.pids ++ (List.range k.nextTask).filter fun c =>
      decide (w.kernel.nextTask ≤ c) && k.live c }

/-- `droid_lkm_sys_unshare`, up to its pin. -/
def unshare (t : ℕ) (flags : Flags) (e : Env) : World :=
  let s := (sysUnshare (w.kernel.unshareOps t e).withPin (w.kernel, false) flags).1
  { w with
    kernel := s.1
    pin := if s.2 then Function.update w.pin t .due else w.pin }

end World

/-- The task that makes a call. -/
def caller : Slot.Act → Option ℕ
  | .fork t _ _ | .clone t _ _ | .clone3 t _ _ _ | .unshare t _ _ | .unshare32 t _ _
  | .setnsIpc t _ _ | .setnsPid t _ _ | .setnsHost t _ | .setnsOther t _ _ _ | .exit t => some t
  | .openIpc _ | .closeIpc _ => none

/-- The call makes a thread. -/
def thread : Slot.Act → Bool
  | .fork _ flags _ | .clone _ flags _ | .clone3 _ flags _ _ => has flags CLONE_THREAD
  | _ => false

inductive Act where
  /-- a system call or an exit, of a task that is in no other -/
  | call (a : Slot.Act)
  /-- `droid_lkm_keepalive_pin` of an `unshare`: the test of the flag -/
  | pinTest (t : ℕ)
  /-- and the rest -/
  | pinTake (t : ℕ) (live : Bool)
  /-- `msgget`, `semget` or `shmget` makes an object -/
  | newId (t : ℕ) (i : Fin 3)
  /-- an object is removed -/
  | rmId (n : ℕ) (i : Fin 3)
  /-- a POSIX queue is made or removed, which is in no table -/
  | mqueue (t : ℕ)
  /-- the pid of a task that is gone is freed -/
  | freePid (t : ℕ)
  /-- the worker -/
  | sync (live : Bool)
  /-- it meets a process that was made after the walk had begun -/
  | syncMeet (t : ℕ)

def step (trusted : Bool) (w : World) : Act → Option World
  | .call a =>
    if (caller a).any fun t => w.pin t ≠ .out then none
    else match a with
    | .unshare t flags e => if w.kernel.live t then some (w.unshare t flags e) else none
    | a => (w.kernel.step a).map (w.become (thread a))
  | .pinTest t =>
    if w.pin t = .due then
      some { w with pin := Function.update w.pin t (if w.held then .out else .unheld) }
    else none
  | .pinTake t live =>
    if w.pin t = .unheld then
      some { w.take live with pin := Function.update w.pin t .out }
    else none
  | .newId t i =>
    if w.kernel.live t ∧ w.pin t = .out then
      let n := w.kernel.ipcnsTaskNs t
      some { w with inUse :=
        Function.update w.inUse n (Function.update (w.inUse n) i (w.inUse n i + 1)) }
    else none
  | .rmId n i =>
    if 0 < w.inUse n i then
      some { w with inUse :=
        Function.update w.inUse n (Function.update (w.inUse n) i (w.inUse n i - 1)) }
    else none
  | .mqueue t => if w.kernel.live t ∧ w.pin t = .out then some w else none
  | .freePid t =>
    if w.kernel.live t then none else some { w with pids := w.pids.filter (· ≠ t) }
  | .sync live => some (w.syncStep trusted live)
  | .syncMeet t =>
    match w.sync with
    | .tasks _ =>
      if w.leader t then some { w with sync := if w.taskNsRefs t then .busy else w.sync }
      else none
    | _ => none

/-- The module has been loaded, and nothing has happened yet. -/
def World.init (cfg : Config) : World where
  kernel := Kernel.init cfg
  leader _ := true
  pids := [0]
  inUse _ _ := 0
  held := false
  refs := 0
  pin _ := .out
  sync := .out

end DroidLkm.Keepalive
