/-
  The load of the main module.

  * `pidnsInit`, `ipcnsInit`, `mqueueFsInit`, `slotInit`, `procInit`, `statusInit`,
    `featuresInit` and what takes each back: as in their files, as far as they put
    something in force;
  * `errHk`, `errPidns`, `errIpcns`, `errSlot`: the labels of `droid_lkm_init`;
  * `init`: `droid_lkm_init`;
  * `InForce m s r`: what is there, where `m` is what the syscall tables held.

  What the kernel, the libraries and the memory answer is given by an `Env`.  A
  pointer that the module keeps to an entry or a table is `NULL` exactly when there
  is none, and it is not modelled apart from that.
-/
import DroidLkm.Load.Hooks
import DroidLkm.Tables.Patch

namespace DroidLkm.Load

/-- The entries that `ipc_init` makes: `/proc/sysvipc` and what is in it. -/
inductive Sysv where
  | dir
  | sem
  | msg
  | shm
  deriving DecidableEq

/-- The tables of sysctls. -/
inductive Sysctl where
  | ipc
  | mqueue
  | nsLastPid
  deriving DecidableEq

/-- What a load meets.  An error code is what the function of that name returns. -/
structure Env where
  compatInit : ℤ
  ksymInit : ℤ
  capsInit : ℤ
  munmapInit : ℤ
  hkInit : ℤ
  /-- `droid_lkm_layout_trusted` -/
  trusted : Bool
  /-- `CONFIG_PROC_FS` -/
  procFs : Bool
  /-- the kernel is 6.1 or later, and keeps the tables of sysctls per namespace -/
  perNs : Bool
  /-- `kmem_cache_create` of the pid namespaces -/
  pidnsCache : Bool
  /-- `droid_lkm_ns_ops_alias("pid", ..)` -/
  pidnsOps : Bool
  /-- `kthread_run` -/
  zapThread : ℤ
  skipDoExit : Bool
  /-- `register_kprobe`; `none`: the symbol is missing -/
  registerKprobe : Option ℤ
  /-- the symbol `unregister_kprobe` -/
  unregisterKprobe : Bool
  /-- `proc_mkdir` or `proc_create_data` -/
  sysvCreate : Sysv → Bool
  /-- `droid_lkm_ns_ops_alias("ipc", ..)` -/
  ipcnsOps : Bool
  initNsproxy : Bool
  /-- `setup_sysctl_set`, `retire_sysctl_set` and `__register_sysctl_table` -/
  sysctlHelpers : Bool
  /-- the layout has the fields of the namespace that the table needs -/
  sysctlFields : Sysctl → Bool
  /-- `kmemdup` of the table -/
  sysctlDup : Sysctl → Bool
  /-- the registration gives a header -/
  sysctlHeader : Sysctl → Bool
  /-- the symbol `register_sysctl` -/
  registerSysctl : Bool
  /-- the symbol `unregister_sysctl_table` -/
  unregisterSysctlTable : Bool
  /-- `droid_lkm_mqueue_shim_init` -/
  mqueueShimInit : ℤ
  mqueueCache : Bool
  registerFilesystem : ℤ
  mqInitNs : ℤ
  slots : Tables.Env
  hk : Engine
  /-- `proc_ns_dir_inode_operations` and `proc_pid_make_inode` -/
  procSyms : Bool
  nsOpsHostInit : ℤ
  hostOps : Bool
  /-- `droid_lkm_proc_steal_ns_link_iops` -/
  stealNsLinkIops : ℤ
  origNsLookup : Bool
  tryModuleGet : Bool
  /-- the kernel has `/proc/sys/kernel/ns_last_pid` -/
  nsLastPidThere : Bool
  statusEnable : Bool
  statusHelpers : Bool
  statusLayout : Bool
  featuresDir : Bool
  featuresFile : Bool

structure Pidns where
  cachep : Bool
  /-- `droid_lkm_reaper_task` -/
  thread : Bool
  kprobe : Bool

structure Ipcns where
  proc : Sysv → Bool
  /-- `droid_lkm_ipc_sysctls_ready` -/
  ready : Bool
  sysctl : Bool

structure Mqueue where
  /-- `droid_lkm_mqueue_fs_up` -/
  up : Bool
  filesystem : Bool
  sysctl : Bool

structure Proc where
  /-- the references to the module that `droid_lkm_proc_init` took -/
  refs : ℕ
  sysctl : Bool

structure Features where
  dir : Bool
  file : Bool

structure State where
  pidns : Pidns
  ipcns : Ipcns
  mqueue : Mqueue
  tables : Tables.State
  hooks : Hooks
  proc : Proc
  features : Features

/-- Nothing has been done, and the syscall tables hold `m`. -/
def State.fresh (m : Tables.Tab × ℤ → ℕ) : State where
  pidns := ⟨false, false, false⟩
  ipcns := ⟨fun _ => false, false, false⟩
  mqueue := ⟨false, false, false⟩
  tables := Tables.State.fresh m
  hooks := Hooks.fresh
  proc := ⟨0, false⟩
  features := ⟨false, false⟩

namespace Env

variable (e : Env)

/-! ## The pid namespaces -/

/-- `register_kprobe`, as the module has it -/
def registerKprobeRet : ℤ := e.registerKprobe.getD (-ENOSYS)

/-- `droid_lkm_pidns_init` -/
def pidnsInit (p : Pidns) : ℤ × Pidns :=
  if !e.pidnsCache then (-ENOMEM, p)
  else if !e.pidnsOps then (-ENOMEM, { p with cachep := false })
  else if e.zapThread ≠ 0 then (e.zapThread, { p with cachep := false })
  else if e.skipDoExit then (0, { p with cachep := true, thread := true })
  else if e.registerKprobeRet ≠ 0 then (-ENODATA, { p with cachep := false, thread := false })
  else (0, ⟨true, true, true⟩)

/-- `droid_lkm_pidns_exit`; there is no namespace yet -/
def pidnsExit (p : Pidns) : Pidns :=
  if !p.cachep then p
  else ⟨false, false, p.kprobe && !e.unregisterKprobe⟩

/-! ## The ipc namespaces -/

/-- `ipc_init` -/
def ipcInit (i : Ipcns) : Ipcns :=
  { i with proc := fun x => i.proc x || (e.procFs && e.sysvCreate x) }

/-- `droid_lkm_ipc_sysctls_init`, with `droid_lkm_ipc_sysctls_host_setup` -/
def ipcSysctlsInit (i : Ipcns) : Ipcns :=
  if !e.sysctlHelpers then i
  else if e.perNs then
    if e.sysctlFields .ipc && e.sysctlDup .ipc && e.sysctlHeader .ipc then
      { i with ready := true, sysctl := true }
    else { i with ready := false }
  else { i with ready := true, sysctl := e.registerSysctl && e.sysctlHeader .ipc }

/-- `droid_lkm_ipc_sysctls_exit`, with `droid_lkm_ipc_sysctls_host_teardown` -/
def ipcSysctlsExit (i : Ipcns) : Ipcns :=
  if !i.ready then i
  else { i with ready := false, sysctl := i.sysctl && !(e.perNs || e.unregisterSysctlTable) }

/-- `droid_lkm_ipcns_exit` -/
def ipcnsExit (i : Ipcns) : Ipcns :=
  if !e.trusted then i
  -- `droid_lkm_ipc_proc_exit`
  else e.ipcSysctlsExit { i with proc := fun _ => false }

/-- `droid_lkm_ipcns_init`; `droid_lkm_msgutil_init` and `droid_lkm_ipc_util_init`
    cannot fail -/
def ipcnsInit (i : Ipcns) : ℤ × Ipcns :=
  let i := e.ipcInit i
  if !e.ipcnsOps then (-ENOMEM, i)
  else if !e.initNsproxy then (-ENODATA, e.ipcnsExit i)
  else (0, e.ipcSysctlsInit i)

/-! ## The message queues -/

/-- `droid_lkm_setup_mq_sysctls`; `ready` is `droid_lkm_sysctl_ready` -/
def setupMqSysctls (ready : Bool) (q : Mqueue) : Bool × Mqueue :=
  if !e.perNs then (true, q)
  else if !ready then (true, q)
  else if !e.sysctlFields .mqueue then (false, q)
  else if e.sysctlDup .mqueue && e.sysctlHeader .mqueue then (true, { q with sysctl := true })
  else (false, q)

/-- `droid_lkm_mqueue_fs_init` -/
def mqueueFsInit (ready : Bool) (q : Mqueue) : ℤ × Mqueue :=
  if e.mqueueShimInit ≠ 0 then (e.mqueueShimInit, q)
  else if !e.mqueueCache then (-ENOMEM, q)
  else if e.registerFilesystem ≠ 0 then
    (if e.registerFilesystem = -EBUSY then -ENODATA else e.registerFilesystem, q)
  else
    let r := e.setupMqSysctls ready { q with filesystem := true }
    if !r.1 then (-ENOMEM, { r.2 with filesystem := false })
    else if e.mqInitNs ≠ 0 then (e.mqInitNs, { r.2 with sysctl := false, filesystem := false })
    else (0, r.2)

/-- `droid_lkm_mqueue_fs_teardown` -/
def mqueueFsTeardown (q : Mqueue) : Mqueue := if q.up then ⟨false, false, false⟩ else q

/-! ## The syscall slots -/

/-- `droid_lkm_nsproxy_release_hooks_install` -/
def nsproxyReleaseHooksInstall (s : Hooks) : Hooks :=
  let r := e.hk.hookInstall .switch s
  if r.1 ≠ 0 then r.2
  else
    let q := e.hk.hookInstall .exitNs r.2
    if q.1 ≠ 0 then e.hk.hookRemove .switch q.2 else q.2

/-- `droid_lkm_slot_init` -/
def slotInit (s : State) : ℤ × State :=
  let r := e.slots.slotInit s.tables
  if r.1 ≠ 0 then (r.1, { s with tables := r.2 })
  else
    -- what these return is only warned of
    let h := (e.hk.hookInstallCritical .cnn s.hooks).2
    let h := (e.hk.hookInstallCritical .cn h).2
    (0, { s with tables := r.2, hooks := e.nsproxyReleaseHooksInstall h })

/-- `droid_lkm_slot_exit`; `droid_lkm_cnn_hooked` and `droid_lkm_cn_hooked` say that
    the hook is live -/
def slotExit (s : State) : State :=
  { s with
    tables := e.slots.slotExit s.tables
    hooks := e.hk.hookRemove .cn (e.hk.hookRemove .cnn s.hooks) }

/-! ## The view in `/proc` -/

/-- `droid_lkm_pidns_sysctl_init` -/
def pidnsSysctlInit (ready : Bool) (p : Proc) : Proc :=
  if !ready then p
  else if e.nsLastPidThere then p
  else if !e.sysctlDup .nsLastPid then p
  else { p with sysctl := e.sysctlHeader .nsLastPid }

/-- `droid_lkm_proc_init` -/
def procInit (s : State) : ℤ × State :=
  if !e.procSyms then (-ENODATA, s)
  else if e.nsOpsHostInit ≠ 0 then (e.nsOpsHostInit, s)
  else if !e.hostOps then (-ENODATA, s)
  else if e.stealNsLinkIops ≠ 0 then (e.stealNsLinkIops, s)
  else if !e.origNsLookup then (-ENODATA, s)
  else
    let r := e.hk.hookInstallSlot s.hooks
    if r.1 ≠ 0 then
      (0, { s with hooks := r.2, proc := e.pidnsSysctlInit s.ipcns.ready s.proc })
    else if !e.tryModuleGet then (-EBUSY, { s with hooks := e.hk.hookRemove .nsdir r.2 })
    else
      let p := { s.proc with refs := s.proc.refs + 1 }
      (0, { s with hooks := r.2, proc := e.pidnsSysctlInit s.ipcns.ready p })

/-- `droid_lkm_proc_exit` -/
def procExit (s : State) : State :=
  { s with proc := { s.proc with sysctl := false }, hooks := e.hk.hookRemove .nsdir s.hooks }

/-- `droid_lkm_status_init` -/
def statusInit (s : Hooks) : ℤ × Hooks :=
  if !e.statusEnable then (0, s)
  else if !e.statusHelpers then (-ENODATA, s)
  else if !e.statusLayout then (-ENODATA, s)
  else e.hk.hookInstall .status s

/-- `droid_lkm_features_init` -/
def featuresInit (f : Features) : ℤ × Features :=
  if !e.procFs then (0, f)
  else if !e.featuresDir then (-ENOMEM, f)
  else if !e.featuresFile then (-ENOMEM, ⟨false, false⟩)
  else (0, ⟨true, true⟩)

/-- `droid_lkm_features_exit` -/
def featuresExit (f : Features) : Features := if !f.dir then f else ⟨false, false⟩

/-! ## The load -/

/-- `err_hk` -/
def errHk (s : State) : State := { s with hooks := e.hk.hookExits s.hooks }

/-- `err_pidns` -/
def errPidns (s : State) : State := e.errHk { s with pidns := e.pidnsExit s.pidns }

/-- `err_ipcns` -/
def errIpcns (s : State) : State :=
  e.errPidns { s with
    ipcns := e.ipcnsExit s.ipcns
    mqueue := mqueueFsTeardown s.mqueue }

/-- `err_slot` -/
def errSlot (s : State) : State :=
  e.errIpcns (e.slotExit (e.procExit { s with features := featuresExit s.features }))

/-- `droid_lkm_init` from `status_init` on; none of this fails but the check at the
    end. -/
def initTail (s : State) : ℤ × State :=
  let s := if e.trusted then { s with hooks := (e.statusInit s.hooks).2 } else s
  let s := { s with features := (e.featuresInit s.features).2 }
  if s.hooks.criticalMissing && !e.hk.degrade then (-EOPNOTSUPP, e.errSlot s) else (0, s)

/-- `droid_lkm_init` from `mqueue_fs_init` on -/
def initSlots (s : State) : ℤ × State :=
  let q := e.mqueueFsInit s.ipcns.ready s.mqueue
  let s := if e.trusted then
      { s with mqueue := if q.1 ≠ 0 then q.2 else { q.2 with up := true } }
    else s
  let r := if e.trusted then e.slotInit s else (0, s)
  if r.1 ≠ 0 then (r.1, e.errIpcns r.2)
  else
    let r := if e.trusted then e.procInit r.2 else (0, r.2)
    if r.1 ≠ 0 then (r.1, e.errSlot r.2) else e.initTail r.2

/-- `droid_lkm_init` -/
def init (s : State) : ℤ × State :=
  if e.compatInit ≠ 0 then (e.compatInit, s)
  else if e.ksymInit ≠ 0 then (e.ksymInit, s)
  else if e.capsInit ≠ 0 then (e.capsInit, s)
  else if e.munmapInit ≠ 0 then (e.munmapInit, s)
  else if e.hkInit ≠ 0 then (e.hkInit, s)
  else
    let p := if e.trusted then e.pidnsInit s.pidns else (0, s.pidns)
    let s := { s with pidns := p.2 }
    if p.1 ≠ 0 then (p.1, e.errHk s)
    else
      let i := if e.trusted then e.ipcnsInit s.ipcns else (0, s.ipcns)
      let s := { s with ipcns := i.2 }
      if i.1 ≠ 0 then (i.1, e.errPidns s) else e.initSlots s

end Env

/-! ## What is in force -/

/-- What a load can install. -/
inductive Resource where
  | sysv (x : Sysv)
  | featuresDir
  | featuresFile
  | slot (k : Tables.Tab × ℤ)
  | hook (h : Hook)
  | kprobe
  | thread
  | filesystem
  | sysctl (c : Sysctl)
  | moduleRef

/-- `m` is what the syscall tables held before. -/
def InForce (m : Tables.Tab × ℤ → ℕ) (s : State) : Resource → Prop
  | .sysv x => s.ipcns.proc x = true
  | .featuresDir => s.features.dir = true
  | .featuresFile => s.features.file = true
  | .slot k => s.tables.mem k ≠ m k
  | .hook h => (s.hooks.record h).redir ≠ none ∨ h = .nsdir ∧ s.hooks.field = true
  | .kprobe => s.pidns.kprobe = true
  | .thread => s.pidns.thread = true
  | .filesystem => s.mqueue.filesystem = true
  | .sysctl .ipc => s.ipcns.sysctl = true
  | .sysctl .mqueue => s.mqueue.sysctl = true
  | .sysctl .nsLastPid => s.proc.sysctl = true
  | .moduleRef => 0 < s.proc.refs

end DroidLkm.Load
