/-
  Namespaces of tasks — the objects and what is done to one of them.

  A kernel without `CONFIG_PID_NS` and `CONFIG_IPC_NS` on which the module is
  loaded: its own copy and put of the two namespaces do nothing, and it refuses
  their clone flags.

  * `Kernel` is the tasks, the `struct nsproxy` objects, the namespaces made by
    the module and the references handed out through `/proc/<pid>/ns/ipc`;
  * `ipcnsCreate`, `ipcnsPut`, `pidnsCreate`, …: as in `ipcns.c` and `pidns.c`;
  * `createNewNamespaces`, `putNsproxy`, `switchTask`: the kernel's own
    functions.

  Objects are named by numbers that are not used again.  The ipc namespace 0
  is the host's, the pid namespace 0 is `init_pid_ns`.
-/
import Mathlib.Data.Int.Notation
import Mathlib.Data.Nat.Notation
import Mathlib.Logic.Function.Basic
import DroidLkm.Errno

namespace DroidLkm.Slot

/-! ## Flags -/

/-- A clone flags word. -/
abbrev Flags := BitVec 64

def CSIGNAL : Flags := 0xff
def CLONE_NEWTIME : Flags := 0x80
def CLONE_FS : Flags := 0x200
def CLONE_THREAD : Flags := 0x10000
def CLONE_NEWNS : Flags := 0x20000
def CLONE_SYSVSEM : Flags := 0x40000
def CLONE_NEWCGROUP : Flags := 0x2000000
def CLONE_NEWUTS : Flags := 0x4000000
def CLONE_NEWIPC : Flags := 0x8000000
def CLONE_NEWUSER : Flags := 0x10000000
def CLONE_NEWPID : Flags := 0x20000000
def CLONE_NEWNET : Flags := 0x40000000

/-- `DROID_LKM_NS_FLAGS` -/
def NS_FLAGS : Flags :=
  CLONE_NEWNS ||| CLONE_NEWUTS ||| CLONE_NEWIPC ||| CLONE_NEWNET ||| CLONE_NEWCGROUP |||
    CLONE_NEWTIME

/-- `DROID_LKM_NS_ALL` -/
def NS_ALL : Flags := NS_FLAGS ||| CLONE_NEWPID ||| CLONE_NEWUSER

/-- The flags for which the kernel makes a `struct nsproxy`. -/
def KERNEL_NS : Flags := NS_FLAGS ||| CLONE_NEWPID

/-- The two flags that the module takes over. -/
def OURS : Flags := CLONE_NEWPID ||| CLONE_NEWIPC

/-- One of the flags of `mask` is given. -/
def has (flags mask : Flags) : Bool := flags &&& mask != 0

/-- `flags & ~mask` -/
def without (flags mask : Flags) : Flags := flags &&& ~~~mask

/-- `(flags & (CLONE_NEWIPC | CLONE_SYSVSEM)) == (CLONE_NEWIPC | CLONE_SYSVSEM)` -/
def ipcWithSysvsem (flags : Flags) : Bool :=
  flags &&& (CLONE_NEWIPC ||| CLONE_SYSVSEM) == CLONE_NEWIPC ||| CLONE_SYSVSEM

/-! ## Objects -/

/-- `struct nsproxy`; `other` names the other namespaces, all in one. -/
structure Nsproxy where
  count : ℕ
  pidNsForChildren : ℕ
  ipcNs : Option ℕ
  other : ℕ
  deriving DecidableEq

/-- `task_struct`: its `nsproxy` and `task_active_pid_ns`. -/
structure Task where
  nsproxy : Option ℕ
  activePidNs : ℕ
  deriving DecidableEq

/-- `listed` says that the namespace is on `droid_lkm_ipcns_list`. -/
structure IpcNs where
  refcount : ℕ
  listed : Bool
  deriving DecidableEq

structure PidNs where
  refcount : ℕ
  level : ℕ
  parent : ℕ
  deriving DecidableEq

/-- Which hooks are in force, whether `switch_task_namespaces` was found, and
    the parameter `no_fake_ns`. -/
structure Config where
  cnnHooked : Bool
  cnHooked : Bool
  releaseHooked : Bool
  switchSym : Bool
  noFakeNs : Bool
  deriving DecidableEq

structure Kernel where
  cfg : Config
  task : ℕ → Task
  nsp : ℕ → Option Nsproxy
  ipcns : ℕ → IpcNs
  pidns : ℕ → PidNs
  nextTask : ℕ
  nextNsp : ℕ
  nextIpc : ℕ
  nextPid : ℕ
  nextOther : ℕ
  /-- the references of `droid_lkm_ipcns_get_task` that have not come back -/
  handles : List ℕ
  /-- the proxies that a namespace just made was written into, the last one
      first; a record for the proofs, which the code does not keep -/
  attached : List ℕ

/-- What the surroundings decide in a call: the caller's standing, and the
    errors (0 for success) of what can fail.  Each function reads its own. -/
structure Env where
  /-- `droid_lkm_gate_allow()` -/
  gate : Bool
  /-- `ns_capable(current_user_ns(), CAP_SYS_ADMIN)` -/
  capable : Bool
  /-- the same in the user namespace of a namespace that is entered -/
  capableIn : Bool
  /-- `droid_lkm_pidns_create`, past its check of the level -/
  pidns : ℤ
  /-- `droid_lkm_ipcns_create` -/
  ipcns : ℤ
  /-- `create_new_namespaces` where the kernel calls it -/
  cnn : ℤ
  /-- where the module calls the original first -/
  cnnPriv : ℤ
  /-- where `droid_lkm_clone_ctx_leave` calls it -/
  cnnLeave : ℤ
  /-- `check_unshare_flags`, 0 where it was not found -/
  check : ℤ
  /-- the checks and copies of the kernel before the namespaces -/
  before : ℤ
  /-- the steps of `copy_process` after the namespaces -/
  after : ℤ
  /-- where `before` fails, whether the user namespace that was asked for had been made -/
  user : Bool
  deriving DecidableEq

/-- The call makes a user namespace: it is asked for, and what fails before the other
    namespaces does so after it. -/
def Env.makesUser (e : Env) (flags : Flags) : Bool :=
  has flags CLONE_NEWUSER && (e.before == 0 || e.user)

namespace Kernel

/-! ## Namespaces -/

/-- `droid_lkm_task_nsproxy`, as the object. -/
def nsproxyOf (k : Kernel) (t : ℕ) : Option Nsproxy := (k.task t).nsproxy.bind k.nsp

def setIpcRefcount (k : Kernel) (n r : ℕ) : Kernel :=
  { k with ipcns := Function.update k.ipcns n { k.ipcns n with refcount := r } }

def ipcnsIsOurs (k : Kernel) (n : ℕ) : Bool := (k.ipcns n).listed

def ipcnsGet (k : Kernel) (n : ℕ) : Kernel := k.setIpcRefcount n ((k.ipcns n).refcount + 1)

/-- `droid_lkm_ipcns_create`, with the error it fails with. -/
def ipcnsCreate (k : Kernel) (err : ℤ) : Kernel × Except ℤ ℕ :=
  if err ≠ 0 then (k, .error err)
  else ({ k with
    ipcns := Function.update k.ipcns k.nextIpc ⟨1, true⟩
    nextIpc := k.nextIpc + 1 }, .ok k.nextIpc)

/-- `droid_lkm_ipcns_put`; a namespace that is freed leaves the list. -/
def ipcnsPut (k : Kernel) : Option ℕ → Kernel
  | none => k
  | some n =>
    let r := (k.ipcns n).refcount
    if r ≠ 1 then k.setIpcRefcount n (r - 1)
    else if n = 0 then k.setIpcRefcount n 1
    else { k with ipcns := Function.update k.ipcns n ⟨0, false⟩ }

def MAX_PID_NS_LEVEL : ℕ := 32

/-- `droid_lkm_pidns_create` -/
def pidnsCreate (k : Kernel) (parent : ℕ) (err : ℤ) : Kernel × Except ℤ ℕ :=
  let level := (k.pidns parent).level + 1
  if MAX_PID_NS_LEVEL < level then (k, .error (-ENOSPC))
  else if err ≠ 0 then (k, .error err)
  else ({ k with
    pidns := Function.update k.pidns k.nextPid ⟨1, level, parent⟩
    nextPid := k.nextPid + 1 }, .ok k.nextPid)

/-- `droid_lkm_pidns_put`; the last reference is not dropped. -/
def pidnsPut (k : Kernel) : Option ℕ → Kernel
  | none => k
  | some n =>
    let p := k.pidns n
    if n = 0 ∨ p.refcount = 1 then k
    else { k with pidns := Function.update k.pidns n { p with refcount := p.refcount - 1 } }

/-! ## Proxies -/

/-- An nsproxy is written, if it is there. -/
def modifyNsp (k : Kernel) (q : ℕ) (f : Nsproxy → Nsproxy) : Kernel :=
  { k with nsp := Function.update k.nsp q ((k.nsp q).map f) }

/-- `droid_lkm_nsproxy_set_pid_ns_for_children` -/
def setPidNs (k : Kernel) (q n : ℕ) : Kernel := k.modifyNsp q ({ · with pidNsForChildren := n })

/-- `droid_lkm_nsproxy_set_ipc_ns` -/
def setIpcNs (k : Kernel) (q : ℕ) (n : Option ℕ) : Kernel := k.modifyNsp q ({ · with ipcNs := n })

def setTask (k : Kernel) (t : ℕ) (q : Option ℕ) : Kernel :=
  { k with task := Function.update k.task t { k.task t with nsproxy := q } }

/-- An nsproxy is allocated. -/
def pushNsp (k : Kernel) (x : Nsproxy) : Kernel :=
  { k with
    nsp := Function.update k.nsp k.nextNsp (some x)
    nextNsp := k.nextNsp + 1
    nextOther := k.nextOther + 1 }

/-- An nsproxy that names what `old` names, but for the other namespaces that
    are asked for. -/
def copyNsp (k : Kernel) (flags : Flags) (old : Nsproxy) : Nsproxy :=
  { old with count := 1, other := if has flags KERNEL_NS then k.nextOther else old.other }

/-- The kernel's `create_new_namespaces`. -/
def createNewNamespaces (k : Kernel) (flags : Flags) (tsk : ℕ) (err : ℤ) :
    Kernel × Except ℤ ℕ :=
  match k.nsproxyOf tsk with
  | none => (k, .error (-EINVAL))
  | some old =>
    if has flags OURS then (k, .error (-EINVAL))
    else if err ≠ 0 then (k, .error err)
    else (k.pushNsp (k.copyNsp flags old), .ok k.nextNsp)

/-- `put_nsproxy`: the count is dropped, and at zero the object freed. -/
def putNsproxy (k : Kernel) (q : ℕ) : Kernel :=
  let left := (k.nsp q).bind fun n =>
    if n.count ≤ 1 then none else some { n with count := n.count - 1 }
  { k with nsp := Function.update k.nsp q left }

/-- The kernel's `switch_task_namespaces`. -/
def switchTask (k : Kernel) (p : ℕ) (new : Option ℕ) : Kernel :=
  match (k.task p).nsproxy with
  | none => k.setTask p new
  | some old => (k.setTask p new).putNsproxy old

/-! ## The references of the module -/

/-- `droid_lkm_nsproxy_hold` -/
def nsproxyHold (k : Kernel) (q : ℕ) : Kernel :=
  match (k.nsp q).bind (·.ipcNs) with
  | none => k
  | some n => if k.ipcnsIsOurs n then k.ipcnsGet n else k

/-- `droid_lkm_nsproxy_drop` -/
def nsproxyDrop (k : Kernel) : Option ℕ → Kernel
  | none => k
  | some n => if k.ipcnsIsOurs n then k.ipcnsPut (some n) else k

/-- `droid_lkm_nsproxy_last` -/
def nsproxyLast (k : Kernel) (q : Option ℕ) : Bool :=
  match q.bind k.nsp with
  | none => false
  | some n => n.count = 1

end Kernel

end DroidLkm.Slot
