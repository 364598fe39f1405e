/-
  Namespaces of tasks — the wrapped functions and the system calls.

  * `cnnWrap`, `cnWrap`, `switchWrap`, `exitNsWrap`: what `ds_slot.c` puts in
    front of `create_new_namespaces`, `copy_namespaces`,
    `switch_task_namespaces` and `exit_task_namespaces`; a function of the
    kernel that calls one of these goes through its entry and meets the wrap,
    the module's own `droid_lkm_…_orig` pointers do not;
  * `kernelClone`, `kernelUnshare`, `setnsRun`: the kernel's system calls, as
    far as namespaces go;
  * `sysClone`, `sysClone3`, `unshareOps`: those of the module.
-/
import DroidLkm.Slot.Unshare

namespace DroidLkm.Slot.Kernel

/-! ## Switching -/

/-- `droid_lkm_nsproxy_switch_run` -/
def nsproxySwitchRun (k : Kernel) (p : ℕ) (new : Option ℕ)
    (fn : Kernel → ℕ → Option ℕ → Kernel) : Kernel :=
  let old := (k.task p).nsproxy
  let last := k.nsproxyLast old
  let ipc := if last then (k.nsproxyOf p).bind (·.ipcNs) else none
  let k := fn k p new
  if last then k.nsproxyDrop ipc else k

/-- `droid_lkm_switch_wrap` -/
def switchWrap (k : Kernel) (p : ℕ) (new : Option ℕ) : Kernel :=
  k.nsproxySwitchRun p new switchTask

/-- `switch_task_namespaces`, by its entry. -/
def switchTaskNamespaces (k : Kernel) (p : ℕ) (new : Option ℕ) : Kernel :=
  if k.cfg.releaseHooked then k.switchWrap p new else k.switchTask p new

/-- `droid_lkm_exit_ns_wrap`; the kernel's own `exit_task_namespaces(p)` is
    `switch_task_namespaces(p, NULL)`. -/
def exitNsWrap (k : Kernel) (p : ℕ) : Kernel :=
  let old := (k.task p).nsproxy
  let last := k.nsproxyLast old
  let ipc := if last then (k.nsproxyOf p).bind (·.ipcNs) else none
  let k := k.switchTaskNamespaces p none
  if last then k.nsproxyDrop ipc else k

/-- `exit_task_namespaces`, by its entry. -/
def exitTaskNamespaces (k : Kernel) (p : ℕ) : Kernel :=
  if k.cfg.releaseHooked then k.exitNsWrap p else k.switchTaskNamespaces p none

/-- `droid_lkm_nsproxy_switch` -/
def nsproxySwitch (k : Kernel) (p : ℕ) (new : Option ℕ) : Kernel :=
  if k.cfg.releaseHooked || k.cfg.switchSym then k.nsproxySwitchRun p new switchTask else k

/-! ## Creating -/

/-- The pid namespace of `droid_lkm_cnn_wrap`, `droid_lkm_cn_wrap` and
    `droid_lkm_clone_ctx_enter`, which pass `tsk` or the current task. -/
def newPidNs (k : Kernel) (want : Bool) (current tsk : ℕ) (err : ℤ) :
    Kernel × Except ℤ (Option ℕ) :=
  if !want then (k, .ok none)
  else match k.nsproxyOf tsk with
    | none => (k, .error (-EINVAL))
    | some nsproxy =>
      let old := nsproxy.pidNsForChildren
      if (k.task current).activePidNs ≠ old then (k, .error (-EINVAL))
      else match k.pidnsCreate old err with
        | (k, .error err) => (k, .error err)
        | (k, .ok n) => (k, .ok (some n))

/-- The ipc namespace of the same functions. -/
def newIpcNs (k : Kernel) (want : Bool) (err : ℤ) : Kernel × Except ℤ (Option ℕ) :=
  if !want then (k, .ok none)
  else match k.ipcnsCreate err with
    | (k, .error err) => (k, .error err)
    | (k, .ok n) => (k, .ok (some n))

/-- Both, each if it is wanted. -/
def newNamespaces (k : Kernel) (flags : Flags) (current tsk : ℕ) (e : Env) :
    Kernel × Except ℤ (Option ℕ × Option ℕ) :=
  match k.newPidNs (has flags CLONE_NEWPID) current tsk e.pidns with
  | (k, .error err) => (k, .error err)
  | (k, .ok newPid) =>
    match k.newIpcNs (has flags CLONE_NEWIPC) e.ipcns with
    | (k, .error err) => (k.pidnsPut newPid, .error err)
    | (k, .ok newIpc) => (k, .ok (newPid, newIpc))

/-- The new namespaces are put back. -/
def putNew (k : Kernel) (newPid newIpc : Option ℕ) : Kernel := (k.pidnsPut newPid).ipcnsPut newIpc

/-- A new pid namespace is written into an nsproxy, if there is one. -/
def attachPidNs (k : Kernel) (q : ℕ) : Option ℕ → Kernel
  | none => k
  | some n => { k.setPidNs q n with attached := q :: k.attached }

/-- A new ipc namespace likewise. -/
def attachIpcNs (k : Kernel) (q : ℕ) : Option ℕ → Kernel
  | none => k
  | some n => { k.setIpcNs q (some n) with attached := q :: k.attached }

/-- The namespaces that are new are written into an nsproxy. -/
def attach (k : Kernel) (q : ℕ) (newPid newIpc : Option ℕ) : Kernel :=
  (k.attachPidNs q newPid).attachIpcNs q newIpc

/-- `droid_lkm_cnn_wrap` -/
def cnnWrap (k : Kernel) (flags : Flags) (current tsk : ℕ) (e : Env) : Kernel × Except ℤ ℕ :=
  if !has flags OURS || !e.gate then
    match k.createNewNamespaces flags tsk e.cnn with
    | (k, .error err) => (k, .error err)
    | (k, .ok nsp) => (k.nsproxyHold nsp, .ok nsp)
  else
    match k.newNamespaces flags current tsk e with
    | (k, .error err) => (k, .error err)
    | (k, .ok (newPid, newIpc)) =>
      match k.createNewNamespaces (without flags OURS) tsk e.cnn with
      | (k, .error err) => (k.putNew newPid newIpc, .error err)
      | (k, .ok nsp) =>
        let k := k.attach nsp newPid newIpc
        (if newIpc.isSome then k else k.nsproxyHold nsp, .ok nsp)

/-- `create_new_namespaces`, by its entry. -/
def createEntry (k : Kernel) (flags : Flags) (current tsk : ℕ) (e : Env) : Kernel × Except ℤ ℕ :=
  if k.cfg.cnnHooked then k.cnnWrap flags current tsk e else k.createNewNamespaces flags tsk e.cnn

/-- The kernel's check of a capability in the user namespace of the caller or
    in the one that the same call has made. -/
def kernelCapable (flags : Flags) (e : Env) : Bool := e.capable || e.makesUser flags

/-! ## Children -/

/-- The kernel's `copy_namespaces`; `tsk` has been given the nsproxy of its
    parent, the current task. -/
def copyNamespaces (k : Kernel) (flags : Flags) (current tsk : ℕ) (e : Env) : Kernel × ℤ :=
  if !has flags KERNEL_NS then
    match (k.task tsk).nsproxy with
    | none => (k, 0)
    | some q => (k.modifyNsp q fun n => { n with count := n.count + 1 }, 0)
  else if !kernelCapable flags e then (k, -EPERM)
  else if ipcWithSysvsem flags then (k, -EINVAL)
  else match k.createEntry flags current tsk e with
    | (k, .error err) => (k, err)
    | (k, .ok q) => (k.setTask tsk (some q), 0)

/-- `droid_lkm_nsproxy_hold` of the nsproxy of a task. -/
def holdOf (k : Kernel) (t : ℕ) : Kernel :=
  match (k.task t).nsproxy with
  | none => k
  | some q => k.nsproxyHold q

/-- The part of `droid_lkm_cn_wrap` that gives a child an nsproxy of its own
    when the kernel has left it that of its parent. -/
def cnPriv (k : Kernel) (inner : Flags) (tsk : ℕ) (newPid newIpc : Option ℕ) (e : Env) :
    Kernel × ℤ :=
  if has inner NS_FLAGS then (k, 0)
  else if !k.cfg.cnnHooked then (k, -EFAULT)  -- `droid_lkm_cnn_orig` is not set
  else match k.createNewNamespaces 0 tsk e.cnnPriv with
    | (k, .error err) => (k.putNew newPid newIpc, err)
    | (k, .ok priv) => (k.switchTaskNamespaces tsk (some priv), 0)

/-- The end of `droid_lkm_cn_wrap`. -/
def cnAttach (k : Kernel) (tsk : ℕ) (newPid newIpc : Option ℕ) : Kernel :=
  match (k.task tsk).nsproxy with
  | none => k
  | some q =>
    let k := k.attach q newPid newIpc
    if newIpc.isSome then k else k.nsproxyHold q

/-- `droid_lkm_cn_wrap` -/
def cnWrap (k : Kernel) (flags : Flags) (current tsk : ℕ) (e : Env) : Kernel × ℤ :=
  let inner := without flags OURS
  if !has flags OURS then
    let (k, ret) := k.copyNamespaces flags current tsk e
    (if ret = 0 then k.holdOf tsk else k, ret)
  else if !k.cfg.switchSym then k.copyNamespaces flags current tsk e
  else if !e.gate then
    let (k, ret) := k.copyNamespaces flags current tsk e
    (if ret = 0 then k.holdOf tsk else k, ret)
  else if ipcWithSysvsem flags then k.copyNamespaces flags current tsk e
  else
    match k.newNamespaces flags current tsk e with
    | (k, .error err) => (k, err)
    | (k, .ok (newPid, newIpc)) =>
      let (k, ret) := k.copyNamespaces inner current tsk e
      if ret ≠ 0 then (k.putNew newPid newIpc, ret)
      else
        let (k, ret) := k.cnPriv inner tsk newPid newIpc e
        if ret ≠ 0 then (k, ret) else (k.cnAttach tsk newPid newIpc, 0)

/-- `copy_namespaces`, by its entry. -/
def copyEntry (k : Kernel) (flags : Flags) (current tsk : ℕ) (e : Env) : Kernel × ℤ :=
  if k.cfg.cnHooked then k.cnWrap flags current tsk e else k.copyNamespaces flags current tsk e

/-- The kernel's `copy_process`: a task that begins with what its parent has;
    the result is the child. -/
def kernelClone (k : Kernel) (flags : Flags) (t : ℕ) (e : Env) : Kernel × Except ℤ ℕ :=
  if e.before ≠ 0 then (k, .error e.before)
  else
    let c := k.nextTask
    let k := { k with
      task := Function.update k.task c (k.task t)
      nextTask := c + 1 }
    let (k, ret) := k.copyEntry flags t c e
    if ret ≠ 0 then (k.setTask c none, .error ret)
    else if e.after ≠ 0 then (k.exitTaskNamespaces c, .error e.after)
    else
      let active := match k.nsproxyOf c with
        | none => 0
        | some nsproxy => nsproxy.pidNsForChildren
      ({ k with
        task := Function.update k.task c { k.task c with activePidNs := active } }, .ok c)

/-- The flags of the old system calls, whose low byte is the exit signal. -/
def cloneFlags (flags : Flags) : Flags := without (flags &&& 0xffffffff) CSIGNAL

/-! ## `clone` and `clone3` of the module -/

/-- `struct droid_lkm_clone_ctx` -/
structure CloneCtx where
  priv : ℕ
  savePid : ℕ
  saveIpc : Option ℕ

/-- `droid_lkm_clone_ctx_enter` -/
def cloneCtxEnter (k : Kernel) (flags : Flags) (t : ℕ) (e : Env) : Kernel × Except ℤ CloneCtx :=
  match k.newNamespaces flags t t e with
  | (k, .error err) => (k, .error err)
  | (k, .ok (newPid, newIpc)) =>
    match k.createNewNamespaces 0 t e.cnnPriv with
    | (k, .error err) => (k.putNew newPid newIpc, .error err)
    | (k, .ok priv) =>
      let k := k.switchTaskNamespaces t (some priv)
      match k.nsp priv with
      | none => (k, .error (-EINVAL))
      | some nsproxy =>
        (k.attach priv newPid newIpc, .ok ⟨priv, nsproxy.pidNsForChildren, nsproxy.ipcNs⟩)

/-- What has been saved is written into an nsproxy. -/
def restore (k : Kernel) (q : ℕ) (ctx : CloneCtx) : Kernel :=
  (k.setPidNs q ctx.savePid).setIpcNs q ctx.saveIpc

/-- `droid_lkm_clone_ctx_leave` -/
def cloneCtxLeave (k : Kernel) (t : ℕ) (ctx : CloneCtx) (e : Env) : Kernel :=
  match k.createNewNamespaces 0 t e.cnnLeave with
  | (k, .error _) =>
    match (k.task t).nsproxy with
    | none => k
    | some q => k.restore q ctx
  | (k, .ok priv2) => (k.restore priv2 ctx).nsproxySwitch t (some priv2)

/-- `droid_lkm_clone_ns_check` -/
def cloneNsCheck (flags : Flags) : ℤ :=
  if has flags CLONE_THREAD && has flags (CLONE_NEWUSER ||| CLONE_NEWPID) then -EINVAL
  else if ipcWithSysvsem flags then -EINVAL
  else 0

/-- `droid_lkm_clone_ns_ready` -/
def cloneNsReady (k : Kernel) (flags : Flags) (e : Env) : Bool :=
  has flags OURS && k.cfg.cnnHooked && k.cfg.switchSym && e.gate

/-- The part that `droid_lkm_sys_clone` and `droid_lkm_sys_clone3` share: the
    kernel's call, `orig`, between entering and leaving. -/
def cloneBetween (k : Kernel) (flags : Flags) (t : ℕ) (e : Env)
    (orig : Kernel → Kernel × Except ℤ ℕ) : Kernel × Except ℤ ℕ :=
  if cloneNsCheck flags ≠ 0 then (k, .error (cloneNsCheck flags))
  else match k.cloneCtxEnter flags t e with
    | (k, .error err) => (k, .error err)
    | (k, .ok ctx) =>
      let (k, ret) := orig k
      (k.cloneCtxLeave t ctx e, ret)

/-- `droid_lkm_sys_clone` -/
def sysClone (k : Kernel) (flags : Flags) (t : ℕ) (e : Env) : Kernel × Except ℤ ℕ :=
  if !k.cloneNsReady flags e then k.kernelClone (cloneFlags flags) t e
  else k.cloneBetween flags t e fun k => k.kernelClone (cloneFlags (without flags OURS)) t e

/-- The user memory of a `clone3`: the arguments are there and have a size that
    the module takes, its own copies from and to it succeed, and the kernel's
    copy fails with an error, 0 for none. -/
structure UserArgs where
  given : Bool
  copyFrom : Bool
  copyTo : Bool
  kernelCopy : ℤ
  deriving DecidableEq

/-- The kernel's `clone3`. -/
def kernelClone3 (k : Kernel) (flags : Flags) (t : ℕ) (u : UserArgs) (e : Env) :
    Kernel × Except ℤ ℕ :=
  if u.kernelCopy ≠ 0 then (k, .error u.kernelCopy) else k.kernelClone flags t e

/-- `droid_lkm_sys_clone3` -/
def sysClone3 (k : Kernel) (flags : Flags) (t : ℕ) (u : UserArgs) (e : Env) :
    Kernel × Except ℤ ℕ :=
  if !u.given || !u.copyFrom || !k.cloneNsReady flags e then k.kernelClone3 flags t u e
  else k.cloneBetween flags t e fun k =>
    if !u.copyTo then (k, .error (-EFAULT)) else k.kernelClone3 (without flags OURS) t u e

/-! ## `unshare` and `setns` -/

/-- The kernel's `ksys_unshare`. -/
def kernelUnshare (k : Kernel) (flags : Flags) (t : ℕ) (e : Env) : Kernel × ℤ :=
  if e.before ≠ 0 then (k, e.before)
  else if !has flags KERNEL_NS then (k, 0)
  else if !kernelCapable flags e then (k, -EPERM)
  else match k.createEntry flags t t e with
    | (k, .error err) => (k, err)
    | (k, .ok q) => (k.switchTaskNamespaces t (some q), 0)

/-- `droid_lkm_unshare_precheck` -/
def unsharePrecheck (k : Kernel) (t : ℕ) (e : Env) (flags : Flags) : Bool :=
  if e.check ≠ 0 then false
  else if has flags NS_ALL && !e.capable then false
  else match k.nsproxyOf t with
    | none => true
    | some nsproxy =>
      !(has flags CLONE_NEWPID && (k.task t).activePidNs ≠ nsproxy.pidNsForChildren)

/-- `droid_lkm_slot_install_ipcns` -/
def slotInstallIpcns (k : Kernel) (t : ℕ) (e : Env) : Kernel × ℤ :=
  match k.ipcnsCreate e.ipcns with
  | (k, .error err) => (k, err)
  | (k, .ok n) =>
    match (k.task t).nsproxy with
    | none => (k.ipcnsPut (some n), -EINVAL)
    | some q => (k.attachIpcNs q (some n), 0)

/-- `droid_lkm_pidns_create_for_current` -/
def pidnsCreateForCurrent (k : Kernel) (t : ℕ) (err : ℤ) : Kernel × Except ℤ ℕ :=
  k.pidnsCreate (((k.nsproxyOf t).map (·.pidNsForChildren)).getD 0) err

/-- `droid_lkm_slot_install_pidns` -/
def slotInstallPidns (k : Kernel) (t : ℕ) (e : Env) : Kernel × ℤ :=
  match k.pidnsCreateForCurrent t e.pidns with
  | (k, .error err) => (k, err)
  | (k, .ok n) =>
    match (k.task t).nsproxy with
    | none => (k.pidnsPut (some n), -EINVAL)
    | some q => (k.attachPidNs q (some n), 0)

/-- `unshare` as it acts on the namespaces; undo lists and shared memory are
    not part of this state. -/
def unshareOps (k : Kernel) (t : ℕ) (e : Env) : UnshareOps Kernel where
  gateAllow := e.gate
  noFakeNs := k.cfg.noFakeNs
  cnnHooked := k.cfg.cnnHooked
  unsharePrecheck := fun k flags => k.unsharePrecheck t e flags
  origUnshare := fun k flags => k.kernelUnshare flags t e
  exitSem := id
  exitShm := id
  slotInstallIpcns := fun k => k.slotInstallIpcns t e
  slotInstallPidns := fun k => k.slotInstallPidns t e
  keepalivePin := id

/-- `droid_lkm_ipcns_install`, with the nsproxy being prepared. -/
def ipcnsInstall (n : ℕ) (e : Env) (k : Kernel) (q : ℕ) : Kernel × ℤ :=
  if !e.capableIn || !e.capable then (k, -EPERM) else (k.setIpcNs q (some n), 0)

/-- The ancestor of a pid namespace at a level. -/
def pidnsAncestor (k : Kernel) (level : ℕ) : ℕ → ℕ → ℕ
  | 0, n => n
  | fuel + 1, n =>
    if level < (k.pidns n).level then pidnsAncestor k level fuel (k.pidns n).parent else n

/-- `droid_lkm_pidns_install` -/
def pidnsInstall (t n : ℕ) (e : Env) (k : Kernel) (q : ℕ) : Kernel × ℤ :=
  let active := (k.task t).activePidNs
  if !e.capableIn || !e.capable then (k, -EPERM)
  else if (k.pidns n).level < (k.pidns active).level then (k, -EINVAL)
  else if k.pidnsAncestor (k.pidns active).level (k.pidns n).level n ≠ active then (k, -EINVAL)
  else (k.setPidNs q n, 0)

/-- `droid_lkm_host_pid_install` -/
def hostPidInstall (t : ℕ) (e : Env) (k : Kernel) (q : ℕ) : Kernel × ℤ :=
  let active := (k.task t).activePidNs
  if !e.capableIn || !e.capable then (k, -EPERM)
  else if 0 < (k.pidns active).level ∨ active ≠ 0 then (k, -EINVAL)
  else (k.setPidNs q 0, 0)

/-- The kernel's `setns` on one namespace: an nsproxy is prepared, the
    namespace installed in it, and the task switched to it; when the
    installation fails the kernel frees the nsproxy. -/
def setnsRun (k : Kernel) (t : ℕ) (e : Env) (install : Kernel → ℕ → Kernel × ℤ) : Kernel × ℤ :=
  match k.createEntry 0 t t e with
  | (k, .error err) => (k, err)
  | (k, .ok q) =>
    let (k, err) := install k q
    if err ≠ 0 then ({ k with nsp := Function.update k.nsp q none }, err)
    else (k.switchTaskNamespaces t (some q), 0)

/-! ## `/proc/<pid>/ns/ipc` -/

/-- `droid_lkm_ipcns_task_ns` -/
def ipcnsTaskNs (k : Kernel) (t : ℕ) : ℕ := ((k.nsproxyOf t).bind (·.ipcNs)).getD 0

/-- `droid_lkm_ipcns_get_task` -/
def ipcnsGetTask (k : Kernel) (t : ℕ) : Kernel :=
  let n := k.ipcnsTaskNs t
  { k.ipcnsGet n with handles := n :: k.handles }

/-- `droid_lkm_ipcns_put_common` -/
def ipcnsPutCommon (k : Kernel) (n : ℕ) : Kernel :=
  { k with handles := k.handles.erase n }.ipcnsPut (some n)

end DroidLkm.Slot.Kernel
