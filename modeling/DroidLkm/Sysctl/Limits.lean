/-
  The limits of SysV ipc under /proc/sys/kernel.

  * `Field`, `Entry`: the members of an ipc namespace that are served, and the
    entries of `droid_lkm_ipc_sysctls`;
  * `Kernel`: the build, the places of the members, and the kernel's own
    handlers, of which `Proc` says what is relied on;
  * `procHandler`: the handlers of `ipc_sysctl.c`, on a flat memory;
  * `Sys`, `step`: tasks read and write the entries, move between namespaces,
    and namespaces are made and freed.
-/
import DroidLkm.Errno
import DroidLkm.Lib.Cells
import DroidLkm.Lib.Machine
import DroidLkm.Version

namespace DroidLkm.Sysctl

def INT_MAX : ℤ := 2 ^ 31 - 1
def IPCMNI : ℤ := 2 ^ 15

/-! ## Members and entries -/

/-- The members of `struct ipc_namespace` that hold limits. -/
inductive Field where
  | shmCtlmax
  | shmCtlall
  | shmCtlmni
  | shmRmidForced
  | msgCtlmax
  | msgCtlmni
  | msgCtlmnb
  | semCtls
  deriving DecidableEq

namespace Field

/-- The size of one number. -/
def width : Field → ℕ
  | shmCtlmax | shmCtlall => 8
  | _ => 4

/-- How many numbers the member has. -/
def count : Field → ℕ
  | semCtls => 4
  | _ => 1

def bytes (f : Field) : ℕ := f.width * f.count

/-- What `shm_init_ns`, `msg_init_ns` and `sem_init_ns` set. -/
def initial : Field → List ℤ
  | shmCtlmax | shmCtlall => [2 ^ 64 - 1 - 2 ^ 24]
  | shmCtlmni => [4096]
  | shmRmidForced => [0]
  | msgCtlmax => [8192]
  | msgCtlmnb => [16384]
  | msgCtlmni => [32000]
  | semCtls => [32000, 1024000000, 500, 32000]

theorem width_pos (f : Field) : 0 < f.width := by cases f <;> decide

@[simp] theorem length_initial (f : Field) : f.initial.length = f.count := by cases f <;> rfl

end Field

/-- The entries of `droid_lkm_ipc_sysctls`. -/
inductive Entry where
  | shmmax
  | shmall
  | shmmni
  | shmRmidForced
  | msgmax
  | msgmni
  | autoMsgmni
  | msgmnb
  | sem
  deriving DecidableEq

/-- `struct ctl_table`, as the handlers look at it; `data` is 0 for `NULL`. -/
structure CtlTable where
  data : ℤ
  maxlen : ℕ
  extra1 : Option ℤ
  extra2 : Option ℤ

namespace Entry

/-- `droid_lkm_ipc_sysctl_fields`; `auto_msgmni` keeps a `NULL` data. -/
def field : Entry → Option Field
  | shmmax => some .shmCtlmax
  | shmall => some .shmCtlall
  | shmmni => some .shmCtlmni
  | shmRmidForced => some .shmRmidForced
  | msgmax => some .msgCtlmax
  | msgmni => some .msgCtlmni
  | autoMsgmni => none
  | msgmnb => some .msgCtlmnb
  | sem => some .semCtls

/-- The row of `droid_lkm_ipc_sysctls`, with the data it was given; `mni` is
    `droid_lkm_sysctl_mni`. -/
def table (mni data : ℤ) : Entry → CtlTable
  | shmmax | shmall => ⟨data, 8, none, none⟩
  | shmmni | msgmni => ⟨data, 4, some 0, some mni⟩
  | shmRmidForced => ⟨data, 4, some 0, some 1⟩
  | msgmax | msgmnb => ⟨data, 4, some 0, some INT_MAX⟩
  | autoMsgmni => ⟨0, 4, some 0, some 1⟩
  | sem => ⟨data, 4 * 4, none, none⟩

end Entry

/-! ## The kernel -/

/-- A handler of the kernel's: from the bounds, whether it is a write, the
    buffer and the numbers at `data` it makes the numbers that are there then,
    the buffer and the result. -/
structure Proc (Buf : Type) where
  run : Option ℤ → Option ℤ → Bool → Buf → List ℤ → List ℤ × Buf × ℤ
  /-- it stays within `maxlen` -/
  length_run : ∀ lo hi write buf xs, (run lo hi write buf xs).1.length = xs.length
  /-- a read stores nothing -/
  read_run : ∀ lo hi buf xs, (run lo hi false buf xs).1 = xs

/-- The handler on a table, whose numbers have `w` bytes each. -/
def Proc.apply {Buf : Type} (p : Proc Buf) (w : ℕ) (t : CtlTable) (m : Cells ℤ) (write : Bool)
    (buf : Buf) : Cells ℤ × Buf × ℤ :=
  let r := p.run t.extra1 t.extra2 write buf (m.vec t.data w (t.maxlen / w))
  (m.setVec t.data w r.1, r.2)

/-- The running kernel and the build of the module. -/
structure Kernel (Buf : Type) where
  /-- `LINUX_VERSION_CODE` -/
  versionCode : ℕ
  /-- `proc_dointvec` and `proc_dointvec_minmax` -/
  dointvec : Proc Buf
  dointvecMinmax : Proc Buf
  doulongvecMinmax : Proc Buf
  /-- whether `droid_lkm_ks` has the two handlers -/
  ksDointvecMinmax : Bool
  ksDoulongvecMinmax : Bool
  /-- `&init_ipc_ns` and `droid_lkm_ipcns_host` -/
  initIpcNs : ℤ
  host : ℤ
  /-- `droid_lkm_layout_off` -/
  layoutOff : Field → ℕ
  /-- the offset of the member as compiled, which the rest of the code uses -/
  offsetof : Field → ℕ
  /-- `sizeof(struct ipc_namespace)` -/
  size : ℕ
  ipcMni : ℤ
  ipcMni_le : IPCMNI ≤ ipcMni
  inside : ∀ f, offsetof f + f.bytes ≤ size
  apart : ∀ f g, f ≠ g →
    offsetof f + f.bytes ≤ offsetof g ∨ offsetof g + g.bytes ≤ offsetof f

/-- What a call of a handler leaves: the memory, the buffer, the result, and of
    which namespace the orphaned segments were destroyed. -/
structure Outcome (Buf : Type) where
  mem : Cells ℤ
  buf : Buf
  err : ℤ
  orphans : Option ℤ

namespace Kernel

variable {Buf : Type} (k : Kernel Buf)

/-- `LINUX_VERSION_CODE >= KERNEL_VERSION(6, 1, 0)` -/
def PerNs : Prop := KERNEL_VERSION 6 1 0 ≤ k.versionCode

instance : Decidable k.PerNs := inferInstanceAs (Decidable (_ ≤ _))

/-- `droid_lkm_sysctl_mni` -/
def sysctlMni : ℤ := if k.PerNs then k.ipcMni else IPCMNI

/-- The table that is opened: the copy for a namespace, or the global one. -/
def opened (ns : ℤ) (e : Entry) : CtlTable :=
  match e.field with
  | none => e.table k.sysctlMni 0
  | some f => e.table k.sysctlMni ((if k.PerNs then ns else k.initIpcNs) + k.layoutOff f)

/-- `droid_lkm_ipc_data`, where `taskNs` is the namespace of the task. -/
def ipcData (taskNs : ℤ) (t : CtlTable) : ℤ :=
  if k.PerNs then t.data else t.data - k.initIpcNs + taskNs

/-- `droid_lkm_ipc_ns_of` -/
def ipcNsOf (field : ℤ) (f : Field) : ℤ := field - k.layoutOff f

/-! ## Handlers -/

/-- `droid_lkm_ipc_dointvec_minmax` -/
def ipcDointvecMinmax (taskNs : ℤ) (t : CtlTable) (m : Cells ℤ) (write : Bool) (buf : Buf) :
    Outcome Buf :=
  let copy := { t with data := k.ipcData taskNs t }
  if !k.ksDointvecMinmax then ⟨m, buf, -ENOSYS, none⟩
  else
    let (m, buf, err) := k.dointvecMinmax.apply 4 copy m write buf
    ⟨m, buf, err, none⟩

/-- `droid_lkm_ipc_doulongvec_minmax` -/
def ipcDoulongvecMinmax (taskNs : ℤ) (t : CtlTable) (m : Cells ℤ) (write : Bool) (buf : Buf) :
    Outcome Buf :=
  let copy := { t with data := k.ipcData taskNs t }
  if !k.ksDoulongvecMinmax then ⟨m, buf, -ENOSYS, none⟩
  else
    let (m, buf, err) := k.doulongvecMinmax.apply 8 copy m write buf
    ⟨m, buf, err, none⟩

/-- `droid_lkm_ipc_dointvec_minmax_orphans` -/
def ipcDointvecMinmaxOrphans (taskNs : ℤ) (t : CtlTable) (m : Cells ℤ) (write : Bool)
    (buf : Buf) : Outcome Buf :=
  let ns := k.ipcNsOf (k.ipcData taskNs t) .shmRmidForced
  let copy := { t with data := k.ipcData taskNs t }
  if !k.ksDointvecMinmax then ⟨m, buf, -ENOSYS, none⟩
  else
    let (m, buf, err) := k.dointvecMinmax.apply 4 copy m write buf
    if err < 0 then ⟨m, buf, err, none⟩
    else ⟨m, buf, err, if m (ns + k.layoutOff .shmRmidForced) ≠ 0 then some ns else none⟩

/-- `droid_lkm_ipc_auto_msgmni`, on a number of its own. -/
def ipcAutoMsgmni (t : CtlTable) (m : Cells ℤ) (write : Bool) (buf : Buf) : Outcome Buf :=
  let (_, buf, err) := k.dointvecMinmax.run t.extra1 t.extra2 write buf [0]
  ⟨m, buf, err, none⟩

/-- The address of `sem_ctls[3]`, by the layout. -/
def semmniAt (ns : ℤ) : ℤ := ns + k.layoutOff .semCtls + (4 : ℕ) * (3 : ℕ)

/-- `sem_check_semmni`, which uses the member. -/
def semCheckSemmni (m : Cells ℤ) (ns : ℤ) : ℤ :=
  let semmni := m (ns + k.offsetof .semCtls + (4 : ℕ) * (3 : ℕ))
  if semmni < 0 ∨ k.ipcMni < semmni then -ERANGE else 0

/-- `droid_lkm_ipc_sem_dointvec`; the table goes to `proc_dointvec` as it is. -/
def ipcSemDointvec (taskNs : ℤ) (t : CtlTable) (m : Cells ℤ) (write : Bool) (buf : Buf) :
    Outcome Buf :=
  let ns := k.ipcNsOf (k.ipcData taskNs t) .semCtls
  let semmni := m (k.semmniAt ns)
  let (m, buf, ret) := k.dointvec.apply 4 t m write buf
  let ret := if ret = 0 then k.semCheckSemmni m ns else ret
  if ret ≠ 0 then ⟨m.set (k.semmniAt ns) semmni, buf, ret, none⟩
  else ⟨m, buf, ret, none⟩

/-- The `proc_handler` of an entry. -/
def procHandler (taskNs : ℤ) (t : CtlTable) (m : Cells ℤ) (write : Bool) (buf : Buf) :
    Entry → Outcome Buf
  | .shmmax | .shmall => k.ipcDoulongvecMinmax taskNs t m write buf
  | .shmmni | .msgmax | .msgmni | .msgmnb => k.ipcDointvecMinmax taskNs t m write buf
  | .shmRmidForced => k.ipcDointvecMinmaxOrphans taskNs t m write buf
  | .autoMsgmni => k.ipcAutoMsgmni t m write buf
  | .sem => k.ipcSemDointvec taskNs t m write buf

end Kernel

/-! ## The system -/

/-- A read or a write of an entry. -/
structure Call (Buf : Type) where
  task : ℕ
  /-- the namespace whose table was opened; below 6.1 there is one table -/
  ns : ℤ
  entry : Entry
  write : Bool
  buf : Buf

structure Sys where
  mem : Cells ℤ
  /-- the ipc namespaces, with the host's -/
  spaces : List ℤ
  /-- of each task the `ipc_ns` of its nsproxy -/
  tasks : List ℤ

inductive Act (Buf : Type) where
  | call (c : Call Buf)
  /-- a namespace is made at a free address -/
  | create (ns : ℤ)
  /-- a namespace that no task is in is freed -/
  | free (ns : ℤ)
  | fork (task : ℕ)
  /-- a task enters a namespace: `setns`, `unshare`, `clone` -/
  | enter (task : ℕ) (ns : ℤ)
  | exit (task : ℕ)

namespace Kernel

variable {Buf : Type} (k : Kernel Buf)

/-- `droid_lkm_ipcns_task_ns`; without an nsproxy it is the host. -/
def taskNs (s : Sys) (task : ℕ) : ℤ := s.tasks.getD task k.host

/-- What a call does. -/
def proc (s : Sys) (c : Call Buf) : Outcome Buf :=
  k.procHandler (k.taskNs s c.task) (k.opened c.ns c.entry) s.mem c.write c.buf c.entry

/-- A member of a namespace in memory. -/
def limit (m : Cells ℤ) (ns : ℤ) (f : Field) : List ℤ := m.vec (ns + k.offsetof f) f.width f.count

/-- A member of a namespace is set. -/
def setLimit (m : Cells ℤ) (ns : ℤ) (f : Field) (xs : List ℤ) : Cells ℤ :=
  m.setVec (ns + k.offsetof f) f.width xs

/-- `shm_init_ns`, `msg_init_ns`, `sem_init_ns` -/
def initNs (m : Cells ℤ) (ns : ℤ) : Cells ℤ :=
  [Field.shmCtlmax, .shmCtlall, .shmCtlmni, .shmRmidForced, .msgCtlmax, .msgCtlmnb, .msgCtlmni,
    .semCtls].foldl (fun m f => k.setLimit m ns f f.initial) m

/-- Two objects do not overlap. -/
def Clear (ns ns' : ℤ) : Prop := ns + k.size ≤ ns' ∨ ns' + k.size ≤ ns

instance (ns ns' : ℤ) : Decidable (k.Clear ns ns') := inferInstanceAs (Decidable (_ ∨ _))

def step (s : Sys) : Act Buf → Option Sys
  | .call c => if c.ns ∈ s.spaces then some { s with mem := (k.proc s c).mem } else none
  | .create ns =>
    if ∀ ns' ∈ s.spaces, k.Clear ns ns' then
      some { s with mem := k.initNs s.mem ns, spaces := ns :: s.spaces }
    else none
  | .free ns =>
    if ns = k.initIpcNs ∨ ns = k.host ∨ ns ∈ s.tasks then none
    else some { s with spaces := s.spaces.filter (· ≠ ns) }
  | .fork task => some { s with tasks := s.tasks ++ [k.taskNs s task] }
  | .enter task ns =>
    if ns ∈ s.spaces then some { s with tasks := s.tasks.set task ns } else none
  | .exit task => some { s with tasks := s.tasks.set task k.host }

end Kernel

end DroidLkm.Sysctl
