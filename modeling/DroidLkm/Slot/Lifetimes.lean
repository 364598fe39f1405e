/-
  Ipc namespaces from the load of the module to its unload.

  * `Boot`: what `droid_lkm_caps_classify` and `droid_lkm_ipcns_init` find;
  * `load`, `exitIpcns`: `droid_lkm_ipcns_init` and `droid_lkm_ipcns_exit`, on
    the books;
  * `Life`, `step`: namespaces are made by the module and by the kernel, held
    and released, in any order.

  The layout is trusted and the load succeeds; the sysctls of the host are left
  out.
-/
import DroidLkm.Lib.Machine
import DroidLkm.Slot.Registry

namespace DroidLkm.Slot

def PROC_IPC_INIT_INO : ℕ := 0xEFFFFFFF

/-- What the module finds when it is loaded. -/
structure Boot where
  /-- `droid_lkm_caps.ipc_ns.owner == DROID_LKM_KERNEL`, as classified -/
  ipcNsKernel : Bool
  /-- `droid_lkm_caps.sysvipc.owner == DROID_LKM_MODULE` -/
  sysvModule : Bool
  /-- the `ipc_ns` of `init_nsproxy` -/
  ipcnsOrig : Option ℕ
  /-- `&init_ipc_ns` -/
  initIpcNs : ℕ
  /-- `copy_ipcs` and `put_ipc_ns` were found -/
  ipcSyms : Bool

namespace Boot

variable (k : Boot)

/-- `droid_lkm_ipcns_kernel_owned` -/
def kernelOwned : Bool := k.ipcNsKernel && k.ipcnsOrig.isSome

/-- `droid_lkm_ipcns_host` -/
def host : ℕ := if k.kernelOwned then k.ipcnsOrig.getD k.initIpcNs else k.initIpcNs

/-- The namespaces that the load runs `msg_init_ns` on. -/
def booted : List ℕ :=
  if k.kernelOwned && k.sysvModule then [k.initIpcNs, k.host] else [k.initIpcNs]

/-- The inputs of a call are those of this kernel. -/
def Fits (i : Inputs) : Prop :=
  i.kernelOwned = k.kernelOwned ∧ i.sysvModule = k.sysvModule ∧ i.host = k.host ∧
    i.ipcSyms = k.ipcSyms

instance (i : Inputs) : Decidable (k.Fits i) := inferInstanceAs (Decidable (_ ∧ _))

end Boot

namespace Books

variable (b : Books)

/-- `droid_lkm_ipc_util_init` and `droid_lkm_ipcns_init`; `acctInit` and
    `acctHost` say whether the records of the two namespaces can be allocated. -/
def load (k : Boot) (i : Inputs) (acctInit acctHost : Bool) : Books :=
  let b := { b with ipcNs := (k.initIpcNs, ⟨1, PROC_IPC_INIT_INO, [.semIds]⟩) :: b.ipcNs }
  let b := (b.msgInitNs { i with msgAcctAlloc := acctInit } k.initIpcNs).1
  let b := b.modifyParts k.initIpcNs (.shmIds :: ·)
  let b := if k.kernelOwned && k.sysvModule then
      (b.msgInitNs { i with msgAcctAlloc := acctHost } k.host).1.modifyParts k.host
        fun l => .shmIds :: .semIds :: l
    else b
  let b := if k.kernelOwned && i.mqueueReady && i.mqCreateMount == 0 then
      b.modifyParts k.host (.mqMnt :: ·)
    else b
  { b with ipcnsList := [⟨k.host, false⟩] }

/-- The loop body of `droid_lkm_ipcns_exit`; `inUse` and `stashed` say of which
    namespaces objects or inodes are left. -/
def exitEntry (k : Boot) (inUse stashed : ℕ → Bool) (b : Books) (e : IpcEntry) : Books :=
  let b := b.ipcSysctlsRetire e.ns
  if e.kernelOwned then b.putIpcNs e.ns
  else if e.ns = k.host then if inUse e.ns then b else b.modifyParts e.ns destroyIds
  else match b.ipcNs.lookup e.ns with
    | none => b
    | some o =>
      -- neutralized, and left behind
      if stashed e.ns || decide (0 < o.refcount) || inUse e.ns then b
      else b.dsFreeIpcNs e.ns

/-- `droid_lkm_ipcns_exit` -/
def exitIpcns (k : Boot) (inUse stashed : ℕ → Bool) : Books :=
  b.ipcnsList.foldl (exitEntry k inUse stashed) { b with ipcnsList := [] }

end Books

/-- The books, and where the module is. -/
structure Life where
  books : Books
  loaded : Bool
  exited : Bool

namespace Life

/-- Before the module: a kernel with ipc namespaces has its first one. -/
def init (k : Boot) : Life where
  books := {
    pidNs := []
    pidnsList := []
    pidCache := []
    ipcNs := if k.kernelOwned then [(k.host, ⟨1, PROC_IPC_INIT_INO, [.kernel]⟩)] else []
    ipcnsList := []
    msgAcct := []
    inums := []
    nsproxies := []
    lost := [] }
  loaded := false
  exited := false

/-- The module is there. -/
def up (s : Life) : Bool := s.loaded && !s.exited

inductive Act where
  | load (i : Inputs) (acctInit acctHost : Bool)
  /-- `droid_lkm_ipcns_create`, for any of its callers -/
  | create (i : Inputs)
  /-- a reference is taken, by the module or the kernel -/
  | get (n : ℕ)
  | put (i : Inputs) (n : ℕ)
  /-- the kernel makes a namespace of its own, at a free address -/
  | kernelCopy (n inum : ℕ)
  /-- the kernel's own `put_ipc_ns`; its first namespace keeps a reference -/
  | kernelPut (n : ℕ)
  | exit (inUse stashed : ℕ → Bool)

open Books

def step (k : Boot) (s : Life) : Act → Option Life
  | .load i acctInit acctHost =>
    if s.loaded ∨ k.initIpcNs ∈ s.books.ipcnsUsed ∨ ¬k.Fits i then none
    else some { s with books := s.books.load k i acctInit acctHost, loaded := true }
  | .create i =>
    if !s.up ∨ ¬k.Fits i then none else some { s with books := (s.books.ipcnsCreate i).1 }
  | .get n => some { s with books := s.books.ipcnsGet n }
  | .put i n =>
    if !s.up ∨ ¬k.Fits i then none else some { s with books := s.books.ipcnsPut i (some n) }
  | .kernelCopy n inum =>
    if !k.ipcNsKernel ∨ n ∈ s.books.ipcnsUsed ∨ n = k.initIpcNs ∨ inum = 0 then none
    else some { s with books :=
      { s.books.allocInum inum with ipcNs := (n, ⟨1, inum, [.kernel]⟩) :: s.books.ipcNs } }
  | .kernelPut n =>
    match s.books.ipcNs.lookup n with
    | none => none
    | some o =>
      if .kernel ∉ o.parts ∨ n = k.host ∧ o.refcount = 1 then none
      else some { s with books := s.books.putIpcNs n }
  | .exit inUse stashed =>
    if !s.up then none
    else some { s with books := s.books.exitIpcns k inUse stashed, exited := true }

end Life

end DroidLkm.Slot
