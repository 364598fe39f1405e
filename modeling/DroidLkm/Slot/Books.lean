/-
  The books of the two namespaces: what is allocated, and what is registered.

  * `Books`: the objects of both kinds, `droid_lkm_pidns_list` and
    `droid_lkm_ipcns_list`, the inode numbers, the caches of pids, the accounts
    of messages, the counts of the nsproxies; `lost` is what was not freed
    before the memory of its namespace was;
  * `Inputs`: what decides how each step of a call ends;
  * `pidnsCreate`, `pidnsPut`, `ipcnsCreate`, `ipcnsPut`: as in `pidns.c` and
    `ipcns.c`;
  * `ops`: with the kernel's own functions, what the creation of namespaces is
    run on.
-/
import DroidLkm.Slot.Creation

namespace DroidLkm.Slot

/-! ## Lists by key -/

section
variable {α : Type}

/-- The first value at a key is changed. -/
def modifyKey (n : ℕ) (f : α → α) : List (ℕ × α) → List (ℕ × α)
  | [] => []
  | (m, x) :: l => if m = n then (m, f x) :: l else (m, x) :: modifyKey n f l

/-- The first value at a key is removed. -/
def eraseKey (n : ℕ) : List (ℕ × α) → List (ℕ × α)
  | [] => []
  | (m, x) :: l => if m = n then l else (m, x) :: eraseKey n l

@[simp] theorem modifyKey_head (n : ℕ) (f : α → α) (x : α) (l : List (ℕ × α)) :
    modifyKey n f ((n, x) :: l) = (n, f x) :: l := by simp [modifyKey]

@[simp] theorem eraseKey_head (n : ℕ) (x : α) (l : List (ℕ × α)) :
    eraseKey n ((n, x) :: l) = l := by simp [eraseKey]

end

/-! ## Objects -/

/-- `struct pid_namespace` -/
structure PidObj where
  refcount : ℕ
  level : ℕ
  inum : ℕ
  deriving DecidableEq

/-- What hangs on an ipc namespace: what the kernel has put there, the
    reference on the user namespace, the tables of the three classes, the mount
    of the message queues, the two sets of sysctls. -/
inductive Part where
  | kernel
  | userRef
  | msgIds
  | semIds
  | shmIds
  | mqMnt
  | mqSysctls
  | ipcSysctls
  deriving DecidableEq

/-- `struct ipc_namespace` -/
structure IpcObj where
  refcount : ℕ
  inum : ℕ
  parts : List Part
  deriving DecidableEq

/-- `struct droid_lkm_ipcns_entry` -/
structure IpcEntry where
  ns : ℕ
  kernelOwned : Bool
  deriving DecidableEq

@[ext]
structure Books where
  /-- the objects of `droid_lkm_pidns_cachep` -/
  pidNs : List (ℕ × PidObj)
  /-- `droid_lkm_pidns_list` -/
  pidnsList : List ℕ
  /-- the levels for which `droid_lkm_pid_cache` has a cache -/
  pidCache : List ℕ
  ipcNs : List (ℕ × IpcObj)
  /-- `droid_lkm_ipcns_list` -/
  ipcnsList : List IpcEntry
  /-- `droid_lkm_msg_acct_list` -/
  msgAcct : List ℕ
  inums : List ℕ
  /-- the nsproxies with their counts -/
  nsproxies : List (ℕ × ℕ)
  lost : List (ℕ × Part)
  deriving DecidableEq

/-- What the surroundings of a call decide.  An allocation that fails is
    `false` or `none`, a step that fails with an error is that error, 0 for
    none. -/
structure Inputs where
  /-- `droid_lkm_gate_allow()` -/
  gate : Bool
  /-- `ns_capable(current_user_ns(), CAP_SYS_ADMIN)` -/
  capable : Bool
  switchSym : Bool
  cnnHooked : Bool
  releaseHooked : Bool
  /-- the nsproxy of the task, its `pid_ns_for_children` and its `ipc_ns` -/
  nsproxy : Option ℕ
  pidNsForChildren : ℕ
  oldIpcNs : Option ℕ
  /-- `task_active_pid_ns(current)` -/
  activePidNs : ℕ
  pidAlloc : Option ℕ
  pidCacheAlloc : Bool
  pidInum : Except ℤ ℕ
  pidEntry : Bool
  /-- `droid_lkm_ipcns_kernel_owned` -/
  kernelOwned : Bool
  /-- `copy_ipcs` and `put_ipc_ns` were found -/
  ipcSyms : Bool
  /-- `droid_lkm_caps.sysvipc.owner == DROID_LKM_MODULE` -/
  sysvModule : Bool
  /-- `droid_lkm_ipcns_host` -/
  host : ℕ
  /-- `copy_ipcs(CLONE_NEWIPC, …)`, from the addresses in use: a namespace and
      its inode number -/
  copyIpcs : List ℕ → Except ℤ (ℕ × ℕ)
  /-- the allocation of an ipc namespace, from the addresses in use -/
  ipcAlloc : List ℕ → Option ℕ
  ipcInum : Except ℤ ℕ
  msgAcctAlloc : Bool
  /-- `droid_lkm_mqueue_ready()` -/
  mqueueReady : Bool
  mqCreateMount : ℤ
  /-- `droid_lkm_sysctl_ready()`; the kernels before 6.1 register nothing -/
  mqSysctlReady : Bool
  mqSysctls : Bool
  /-- `droid_lkm_ipc_sysctls_ok()` -/
  ipcSysctlsOk : Bool
  ipcSysctls : Bool
  ipcEntry : Bool
  /-- `create_new_namespaces` for the caller of the wrap -/
  cnn : Except ℤ ℕ
  /-- and for a private nsproxy -/
  cnnPriv : Except ℤ ℕ
  ipcAlloc_fresh : ∀ used n, ipcAlloc used = some n → n ∉ used
  copyIpcs_fresh : ∀ used n inum, copyIpcs used = .ok (n, inum) → n ∉ used ∧ inum ≠ 0
  ipcInum_ne : ∀ n, ipcInum = .ok n → n ≠ 0

namespace Books

variable (b : Books) (i : Inputs)

def allocInum (n : ℕ) : Books := { b with inums := n :: b.inums }

/-- `proc_free_inum` -/
def freeInum (n : ℕ) : Books := { b with inums := b.inums.erase n }

/-! ## Pid namespaces -/

/-- `droid_lkm_pidns_level`; the level of `init_pid_ns` is 0. -/
def pidnsLevel (n : ℕ) : ℕ := ((b.pidNs.lookup n).map (·.level)).getD 0

/-- `kmem_cache_free(droid_lkm_pidns_cachep, ns)` -/
def freePidNs (n : ℕ) : Books := { b with pidNs := eraseKey n b.pidNs }

/-- `droid_lkm_create_pid_cachep`, for a level that is not too high. -/
def createPidCachep (level : ℕ) : Books × Bool :=
  if level ∈ b.pidCache then (b, true)
  else if !i.pidCacheAlloc then (b, false)
  else ({ b with pidCache := level :: b.pidCache }, true)

/-- `droid_lkm_pidns_create` -/
def pidnsCreate (parent : ℕ) : Books × Except ℤ ℕ :=
  let level := b.pidnsLevel parent + 1
  if Kernel.MAX_PID_NS_LEVEL < level then (b, .error (-ENOSPC))
  else match i.pidAlloc with
    | none => (b, .error (-ENOMEM))
    | some n =>
      let b := { b with pidNs := (n, ⟨0, 0, 0⟩) :: b.pidNs }
      match b.createPidCachep i level with
      | (b, false) => (b.freePidNs n, .error (-ENOMEM))
      | (b, true) =>
        match i.pidInum with
        | .error err => (b.freePidNs n, .error err)
        | .ok inum =>
          let b := { b.allocInum inum with
            pidNs := modifyKey n (fun _ => ⟨1, level, inum⟩) b.pidNs }
          if !i.pidEntry then ((b.freeInum inum).freePidNs n, .error (-ENOMEM))
          else ({ b with pidnsList := b.pidnsList ++ [n] }, .ok n)

/-- `droid_lkm_pidns_put`; `refcount_dec_not_one` leaves the last reference. -/
def pidnsPut : Option ℕ → Books
  | none => b
  | some n =>
    match b.pidNs.lookup n with
    | none => b
    | some o =>
      if o.refcount = 1 then b
      else { b with pidNs := modifyKey n (fun o => { o with refcount := o.refcount - 1 }) b.pidNs }

/-! ## Ipc namespaces -/

def ipcnsUsed : List ℕ := b.ipcNs.map (·.1)

def modifyIpcNs (n : ℕ) (f : IpcObj → IpcObj) : Books :=
  { b with ipcNs := modifyKey n f b.ipcNs }

/-- What hangs on a namespace is changed. -/
def modifyParts (n : ℕ) (f : List Part → List Part) : Books :=
  b.modifyIpcNs n fun o => { o with parts := f o.parts }

/-- The memory of a namespace is freed; what still hangs on it is lost. -/
def kfreeIpcNs (n : ℕ) : Books :=
  match b.ipcNs.lookup n with
  | none => b
  | some o => { b with
    ipcNs := eraseKey n b.ipcNs
    lost := o.parts.map (fun part => (n, part)) ++ b.lost }

/-- `droid_lkm_msg_acct_init` and `ipc_init_ids` -/
def msgInitNs (n : ℕ) : Books × ℤ :=
  if !i.msgAcctAlloc then (b, -ENOMEM)
  else
    let b := if n ∈ b.msgAcct then b else { b with msgAcct := n :: b.msgAcct }
    (b.modifyParts n (.msgIds :: ·), 0)

/-- `droid_lkm_mq_init_ns` and `droid_lkm_setup_mq_sysctls`, where they run. -/
def mqInitNs (n : ℕ) : Books × ℤ :=
  if !i.mqueueReady then (b, 0)
  else if i.mqCreateMount ≠ 0 then (b, i.mqCreateMount)
  else
    let b := b.modifyParts n (.mqMnt :: ·)
    if !i.mqSysctlReady then (b, 0)
    else if !i.mqSysctls then (b, -ENOMEM)
    else (b.modifyParts n (.mqSysctls :: ·), 0)

/-- `droid_lkm_ipc_sysctls_setup`, where it runs. -/
def ipcSysctlsSetup (n : ℕ) : Books × ℤ :=
  if !i.ipcSysctlsOk then (b, 0)
  else if !i.ipcSysctls then (b, -ENOMEM)
  else (b.modifyParts n (.ipcSysctls :: ·), 0)

/-- `droid_lkm_ipc_sysctls_retire` -/
def ipcSysctlsRetire (n : ℕ) : Books := b.modifyParts n (·.erase .ipcSysctls)

/-- `droid_lkm_ipcns_destroy_ids` -/
def destroyIds (parts : List Part) : List Part :=
  let parts := if .mqMnt ∈ parts then (parts.erase .mqSysctls).erase .mqMnt else parts
  ((parts.erase .semIds).erase .msgIds).erase .shmIds

/-- `if (ns->ns.inum) proc_free_inum(ns->ns.inum)` -/
def freeInumOf (n : ℕ) : Books :=
  match b.ipcNs.lookup n with
  | none => b
  | some o => if o.inum = 0 then b else b.freeInum o.inum

/-- `ds_free_ipc_ns`, for a namespace without objects. -/
def dsFreeIpcNs (n : ℕ) : Books :=
  let b := (b.ipcSysctlsRetire n).modifyParts n destroyIds
  let b := b.modifyParts n (·.erase .userRef)
  (b.freeInumOf n).kfreeIpcNs n

/-- The kernel's `put_ipc_ns`, which frees what the kernel has made. -/
def putIpcNs (n : ℕ) : Books :=
  match b.ipcNs.lookup n with
  | none => b
  | some o =>
    if o.refcount ≠ 1 then b.modifyIpcNs n fun o => { o with refcount := o.refcount - 1 }
    else ((b.modifyParts n (·.erase .kernel)).freeInumOf n).kfreeIpcNs n

/-- `droid_lkm_ipcns_create` where the kernel owns ipc namespaces. -/
def ipcnsCreateKernel : Books × Except ℤ ℕ :=
  if !i.ipcSyms then (b, .error (-EOPNOTSUPP))
  else match i.copyIpcs b.ipcnsUsed with
    | .error err => (b, .error err)
    | .ok (n, inum) =>
      let b := { b.allocInum inum with ipcNs := (n, ⟨1, inum, [.kernel]⟩) :: b.ipcNs }
      let (b, err) : Books × ℤ := if i.sysvModule then b.msgInitNs i n else (b, 0)
      if err ≠ 0 then (b.putIpcNs n, .error err)
      else
        let b := if i.sysvModule then b.modifyParts n (fun l => .shmIds :: .semIds :: l) else b
        let (b, err) := b.ipcSysctlsSetup i n
        if err ≠ 0 then ((b.ipcSysctlsRetire n).putIpcNs n, .error err)
        else if !i.ipcEntry then ((b.ipcSysctlsRetire n).putIpcNs n, .error (-ENOMEM))
        else ({ b with ipcnsList := b.ipcnsList ++ [⟨n, true⟩] }, .ok n)

/-- `droid_lkm_ipcns_create` where the module does. -/
def ipcnsCreateModule : Books × Except ℤ ℕ :=
  match i.ipcAlloc b.ipcnsUsed with
  | none => (b, .error (-ENOMEM))
  | some n =>
    let b := { b with ipcNs := (n, ⟨0, 0, []⟩) :: b.ipcNs }
    match i.ipcInum with
    | .error err => (b.kfreeIpcNs n, .error err)
    | .ok inum =>
      let b := (b.allocInum inum).modifyIpcNs n fun _ => ⟨1, inum, [.userRef]⟩
      let (b, err) := b.msgInitNs i n
      if err ≠ 0 then
        (((b.modifyParts n (·.erase .userRef)).freeInum inum).kfreeIpcNs n, .error err)
      else
        let b := b.modifyParts n fun l => .shmIds :: .semIds :: l
        let (b, err) := b.mqInitNs i n
        if err ≠ 0 then (b.dsFreeIpcNs n, .error err)
        else
          let (b, err) := b.ipcSysctlsSetup i n
          if err ≠ 0 then (b.dsFreeIpcNs n, .error err)
          else if !i.ipcEntry then (b.dsFreeIpcNs n, .error (-ENOMEM))
          else ({ b with ipcnsList := b.ipcnsList ++ [⟨n, false⟩] }, .ok n)

/-- `droid_lkm_ipcns_create` -/
def ipcnsCreate : Books × Except ℤ ℕ :=
  if i.kernelOwned then b.ipcnsCreateKernel i else b.ipcnsCreateModule i

/-- The entry of a namespace. -/
def ipcnsEntryOf (n : ℕ) : Option IpcEntry := b.ipcnsList.find? (·.ns == n)

def ipcnsIsOurs (n : ℕ) : Bool := (b.ipcnsEntryOf n).isSome

/-- `droid_lkm_ipcns_get` -/
def ipcnsGet (n : ℕ) : Books := b.modifyIpcNs n fun o => { o with refcount := o.refcount + 1 }

/-- The entry of a namespace leaves the list. -/
def listDel : Option IpcEntry → Books
  | none => b
  | some entry => { b with ipcnsList := b.ipcnsList.erase entry }

/-- `droid_lkm_ipcns_put` of a namespace the module owns. -/
def ipcnsPutModule (n : ℕ) : Books :=
  match b.ipcNs.lookup n with
  | none => b
  | some o =>
    if o.refcount ≠ 1 then b.modifyIpcNs n fun o => { o with refcount := o.refcount - 1 }
    else if n = i.host then b.modifyIpcNs n fun o => { o with refcount := 1 }
    else (b.listDel (b.ipcnsEntryOf n)).dsFreeIpcNs n

/-- `droid_lkm_ipcns_put` -/
def ipcnsPut : Option ℕ → Books
  | none => b
  | some n =>
    if (b.ipcnsEntryOf n).any (·.kernelOwned) then
      if i.ipcSyms then b.putIpcNs n else b
    else b.ipcnsPutModule i n

/-! ## Proxies -/

/-- The kernel's `create_new_namespaces`. -/
def createNewNamespaces : Except ℤ ℕ → Books × Except ℤ ℕ
  | .error err => (b, .error err)
  | .ok q => ({ b with nsproxies := (q, 1) :: b.nsproxies }, .ok q)

/-- `droid_lkm_nsproxy_hold` of an nsproxy with the ipc namespace of the task. -/
def nsproxyHold : Books :=
  match i.oldIpcNs with
  | none => b
  | some n => if b.ipcnsIsOurs n then b.ipcnsGet n else b

/-- `put_nsproxy` of the nsproxy of the task, and what the release hook drops
    with its last reference. -/
def switchTask : Books :=
  match i.nsproxy with
  | none => b
  | some q =>
    match b.nsproxies.lookup q with
    | none => b
    | some count =>
      if count ≠ 1 then { b with nsproxies := modifyKey q (· - 1) b.nsproxies }
      else
        let b := { b with nsproxies := eraseKey q b.nsproxies }
        match i.oldIpcNs with
        | none => b
        | some n => if i.releaseHooked && b.ipcnsIsOurs n then b.ipcnsPut i (some n) else b

/-- All but the kernel's `copy_namespaces`. -/
def baseOps : CreateOps Books where
  gateAllow := i.gate
  switchSym := fun _ => i.switchSym
  cnnHooked := fun _ => i.cnnHooked
  oldPidNs := fun _ =>
    if i.nsproxy = none then .error (-EINVAL)
    else if i.activePidNs ≠ i.pidNsForChildren then .error (-EINVAL)
    else .ok i.pidNsForChildren
  pidnsCreate := fun b old => b.pidnsCreate i old
  pidnsPut := pidnsPut
  ipcnsCreate := fun b => b.ipcnsCreate i
  ipcnsPut := fun b n => b.ipcnsPut i n
  cnnOrig := fun b _ => b.createNewNamespaces i.cnn
  cnnPriv := fun b => b.createNewNamespaces i.cnnPriv
  cnOrig := fun b _ => (b, 0)
  nsproxyHold := fun b _ => b.nsproxyHold i
  -- a namespace just made has one reference, which the nsproxy takes over
  attach := fun b _ _ _ => b
  holdOf := fun b => b.nsproxyHold i
  switchTask := fun b _ => b.switchTask i
  cnAttach := fun b _ newIpc => if newIpc.isSome then b else b.nsproxyHold i

/-- `create_new_namespaces`, by its entry. -/
def createEntry (flags : Flags) : Books × Except ℤ ℕ :=
  if i.cnnHooked then (baseOps i).cnnWrap b flags else (baseOps i).cnnOrig b flags

/-- The kernel's `copy_namespaces`. -/
def copyNamespaces (flags : Flags) : Books × ℤ :=
  if !has flags KERNEL_NS then
    match i.nsproxy with
    | none => (b, 0)
    | some q => ({ b with nsproxies := modifyKey q (· + 1) b.nsproxies }, 0)
  else if !i.capable && !has flags CLONE_NEWUSER then (b, -EPERM)
  else if ipcWithSysvsem flags then (b, -EINVAL)
  else match b.createEntry i flags with
    | (b, .error err) => (b, err)
    | (b, .ok _) => (b, 0)

/-- What the creation of namespaces is run on. -/
def ops : CreateOps Books := { baseOps i with cnOrig := fun b flags => b.copyNamespaces i flags }

end Books

end DroidLkm.Slot
