/-
  Pid namespaces and their init — the exit hook.

  A module pid namespace has a `child_reaper`, which the kernel sets to the
  leader of the first process born in it.  A probe on `do_exit` looks at every
  task that goes through it (`doExitPre`): if it is the reaper of its active
  namespace, no more pids are allocated there, the thread `ds-zap` becomes the
  reaper and the namespace is queued for it to kill what is left.

  * `PidNs`, `Group`, `Task`, `State`: the namespace with its registry entry,
    the thread group (`signal_struct`), the thread, the system;
  * `step`: births of processes and threads, exits of one thread, group exits,
    `exec` in its two halves, and the work of `ds-zap`;
  * `Firing`: what a run of the hook past its test left in the log.
-/
import DroidLkm.Lib.Machine
import Mathlib.Data.Int.Notation
import Mathlib.Data.Nat.Notation
import Mathlib.Logic.Function.Basic

namespace DroidLkm.Pidns

/-- `struct pid_namespace` and the registry entry of it, as far as the hook
    reads and writes them. -/
structure PidNs where
  /-- the bit `PIDNS_ADDING` of `pid_allocated` -/
  adding : Bool
  childReaper : Option ℕ
  reboot : ℤ
  /-- `zap_queued` of the entry -/
  zapQueued : Bool
  /-- the thread group that got pid 1, which no code reads -/
  init : Option ℕ
  deriving DecidableEq

/-- `struct signal_struct`: what the threads of one process share. -/
structure Group where
  /-- `group_leader` of its threads -/
  leader : ℕ
  /-- `SIGNAL_GROUP_EXIT` -/
  groupExit : Bool
  groupExitCode : ℤ
  /-- `group_exec_task`: the thread that waits in `exec` for the others to go -/
  execTask : Option ℕ
  deriving DecidableEq

/-- A thread.  `live` until it has gone through `do_exit`. -/
structure Task where
  group : ℕ
  /-- `task_active_pid_ns` -/
  ns : ℕ
  live : Bool
  deriving DecidableEq

/-- The hook ran past its test: for which namespace, in which task of which
    process, with which other threads of it alive, and whether a group exit was on. -/
structure Firing where
  ns : ℕ
  task : ℕ
  group : ℕ
  others : List ℕ
  groupExit : Bool
  deriving DecidableEq

/-- It ran at the end of the process: a group exit is on, or no other thread is left. -/
def Firing.AtEnd (f : Firing) : Prop := f.groupExit = true ∨ f.others = []

instance (f : Firing) : Decidable f.AtEnd := inferInstanceAs (Decidable (_ ∨ _))

/-- The system.  Namespace 0 is `init_pid_ns`, which is not in the registry. -/
structure State where
  /-- `droid_lkm_reaper_task`, the thread `ds-zap` -/
  reaperTask : Option ℕ
  task : ℕ → Task
  group : ℕ → Group
  /-- the registered namespaces -/
  pidns : ℕ → Option PidNs
  /-- `droid_lkm_zap_list` -/
  zapList : List ℕ
  nextTask : ℕ
  nextGroup : ℕ
  nextNs : ℕ
  /-- the log of the hook -/
  fired : List Firing

namespace State

def setNs (s : State) (n : ℕ) (x : PidNs) : State :=
  { s with pidns := Function.update s.pidns n (some x) }

def setGroup (s : State) (g : ℕ) (x : Group) : State :=
  { s with group := Function.update s.group g x }

def groupOf (s : State) (t : ℕ) : Group := s.group (s.task t).group

/-- The other live threads of the process of `t`. -/
def others (s : State) (t : ℕ) : List ℕ :=
  (List.range s.nextTask).filter fun u =>
    u ≠ t ∧ (s.task u).group = (s.task t).group ∧ (s.task u).live

/-- `droid_lkm_pidns_queue_zap`. -/
def queueZap (s : State) (n : ℕ) : State :=
  match s.pidns n with
  | none => s
  | some x =>
    if x.zapQueued then s
    else { s.setNs n { x with zapQueued := true } with zapList := s.zapList ++ [n] }

/-- `disable_pid_allocation` of the kernel. -/
def disablePidAllocation (s : State) (n : ℕ) : State :=
  match s.pidns n with
  | none => s
  | some x => s.setNs n { x with adding := false }

/-- `droid_lkm_pidns_set_child_reaper`. -/
def setChildReaper (s : State) (n t : ℕ) : State :=
  match s.pidns n with
  | none => s
  | some x => s.setNs n { x with childReaper := some t }

/-- `droid_lkm_do_exit_pre`, without the deferred IPC work.  Beyond the test of
    the reaper it leaves a `Firing` in the log. -/
def doExitPre (s : State) (t : ℕ) : State :=
  let n := (s.task t).ns
  match s.pidns n with
  | none => s
  | some x =>
    if x.childReaper ≠ some t then s
    else
      let s₁ := s.disablePidAllocation n
      let s₂ :=
        match s₁.reaperTask with
        | none => s₁
        | some k => s₁.setChildReaper n k
      let s₃ :=
        if x.reboot ≠ 0 then
          s₂.setGroup (s.task t).group { s.groupOf t with groupExitCode := x.reboot }
        else s₂
      { s₃.queueZap n with
        fired := ⟨n, t, (s.task t).group, s.others t, (s.groupOf t).groupExit⟩ :: s.fired }

/-- The thread is gone. -/
def gone (s : State) (t : ℕ) : State :=
  { s with task := Function.update s.task t { s.task t with live := false } }

/-- `do_exit`, with the probe first.  The kernel would hand the reaper on to
    another thread of the process, if it still were this one. -/
def doExit (s : State) (t : ℕ) : State := (s.doExitPre t).gone t

/-- A thread is born with the next number. -/
def addTask (s : State) (g n : ℕ) : State :=
  { s with
    task := Function.update s.task s.nextTask ⟨g, n, true⟩
    nextTask := s.nextTask + 1 }

/-- `alloc_pid` finds the namespace open. -/
def canAlloc (s : State) (n : ℕ) : Bool :=
  n = 0 || (s.pidns n).any (·.adding)

/-- No fatal signal is pending for the thread. -/
def unsignalled (s : State) (t : ℕ) : Bool :=
  (s.task t).live && !(s.groupOf t).groupExit && ((s.groupOf t).execTask.all (· = t))

/-- `copy_process` of a new process in `n`: the first one is its init. -/
def fork (s : State) (n : ℕ) : State :=
  let s₁ := { (s.setGroup s.nextGroup ⟨s.nextTask, false, 0, none⟩).addTask s.nextGroup n with
    nextGroup := s.nextGroup + 1 }
  match s.pidns n with
  | none => s₁
  | some x =>
    if x.childReaper = none then
      s₁.setNs n { x with childReaper := some s.nextTask, init := some s.nextGroup }
    else s₁

end State

/-- What a task does, or is made to do. -/
inductive Act where
  /-- a pid namespace is made -/
  | create
  /-- a task has a child process in the namespace `n` -/
  | fork (t n : ℕ)
  /-- a task has a new thread in its process -/
  | thread (t : ℕ)
  /-- one thread goes through `do_exit`: of its own accord, or because a group
      exit or an `exec` of another thread has killed it -/
  | exit (t : ℕ)
  /-- `exit_group`, or a fatal signal to the process of `t` -/
  | groupExit (t : ℕ)
  /-- `exec` kills the other threads of the process ... -/
  | exec (t : ℕ)
  /-- ... and when they are gone the thread becomes the leader -/
  | execDone (t : ℕ)
  /-- `droid_lkm_pidns_reboot`; the signal to the reaper is a `groupExit` -/
  | reboot (n : ℕ) (sig : ℤ)
  /-- `ds-zap` takes a namespace off its list; what it kills is a `groupExit` -/
  | zap

namespace State

def step (s : State) : Act → Option State
  | .create =>
    some { s.setNs s.nextNs ⟨true, none, 0, false, none⟩ with nextNs := s.nextNs + 1 }
  | .fork t n => if s.unsignalled t && s.canAlloc n then some (s.fork n) else none
  | .thread t =>
    if s.unsignalled t && s.canAlloc (s.task t).ns then
      some (s.addTask (s.task t).group (s.task t).ns)
    else none
  | .exit t =>
    -- a thread in the middle of `exec` dies of a group exit only, `ds-zap` not at all
    if (s.task t).live ∧ s.reaperTask ≠ some t ∧
        ((s.groupOf t).execTask = some t → (s.groupOf t).groupExit = true) then
      some (s.doExit t)
    else none
  | .groupExit t =>
    if (s.task t).live then
      some (s.setGroup (s.task t).group { s.groupOf t with groupExit := true })
    else none
  | .exec t =>
    if s.unsignalled t then
      some (s.setGroup (s.task t).group { s.groupOf t with execTask := some t })
    else none
  | .execDone t =>
    if s.unsignalled t ∧ (s.groupOf t).execTask = some t ∧ s.others t = [] then
      some (s.setGroup (s.task t).group { s.groupOf t with leader := t, execTask := none })
    else none
  | .reboot n sig =>
    match s.pidns n with
    | none => none
    | some x => some (s.setNs n { x with reboot := sig })
  | .zap =>
    match s.zapList with
    | [] => none
    | n :: rest => some ({ s with zapList := rest }.disablePidAllocation n)

/-- `ds-zap` and one process outside, no namespace made yet. -/
def start : State where
  reaperTask := some 0
  task := fun t => ⟨t, 0, decide (t < 2)⟩
  group := fun g => ⟨g, false, 0, none⟩
  pidns := fun _ => none
  zapList := []
  nextTask := 2
  nextGroup := 2
  nextNs := 1
  fired := []

end State

end DroidLkm.Pidns
