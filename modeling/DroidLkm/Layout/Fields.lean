/-
  The layout table: where the members of kernel structs are.

  * `FieldId`, `TypeId`: the rows of `droid_lkm_fields` and `droid_lkm_types`;
  * `Build`: what the compiler baked in;
  * `CompatLayout`: the table, with what was found out about the running kernel;
  * `layoutOk`, `layoutPtr`, `pidnsSize`: how the module reads it;
  * `layoutInit`: how it is filled, from the type info of the running kernel or,
    without one, by anchors;
  * `Trusted`: `droid_lkm_layout_trusted`.

  The build options that replace what was found out (a fallback, a table by
  hand, a shift for tests) are off by default and left out.
-/
import DroidLkm.Version

namespace DroidLkm.Layout

/-! ## Rows -/

inductive StructId where
  | ipcNamespace
  | pidNamespace
  | nsproxy
  | taskStruct
  | seqFile
  | pid
  | upid
  deriving DecidableEq

/-- `enum droid_lkm_field_id` -/
inductive FieldId where
  | ipcNsIds
  | ipcNsMqMnt
  | ipcNsUserNs
  | ipcNsUcounts
  | ipcNsNs
  | pidNsIdr
  | pidNsLevel
  | pidNsParent
  | pidNsPidCachep
  | pidNsChildReaper
  | pidNsUserNs
  | pidNsUcounts
  | pidNsPidAllocated
  | pidNsNs
  | pidNsReboot
  | nsproxyIpcNs
  | nsproxyPidNsForChildren
  | nsproxyUtsNs
  | nsproxyMntNs
  | nsproxyNetNs
  | taskPid
  | taskTgid
  | taskComm
  | taskNsproxy
  | taskThreadPid
  | taskTasks
  | taskRealCred
  | taskCred
  | taskGroupLeader
  | taskRealParent
  | taskSignal
  | taskSighand
  | taskMm
  | taskFs
  | taskFlags
  | taskSe
  | seqFileBuf
  | seqFileCount
  | seqFileSize
  | pidLevel
  | pidNumbers
  | upidNr
  | upidNs
  | ipcNsMqQueuesMax
  | ipcNsMqMsgMax
  | ipcNsMqMsgsizeMax
  | ipcNsMqMsgDefault
  | ipcNsMqMsgsizeDefault
  | ipcNsSemCtls
  | ipcNsMsgCtlmax
  | ipcNsMsgCtlmnb
  | ipcNsMsgCtlmni
  | ipcNsShmCtlmax
  | ipcNsShmCtlall
  | ipcNsShmCtlmni
  | ipcNsShmRmidForced
  | ipcNsMqSet
  | ipcNsIpcSet
  | ipcNsMqSysctls
  | ipcNsIpcSysctls
  deriving DecidableEq

/-- The struct of a row. -/
def FieldId.type : FieldId → StructId
  | pidNsIdr | pidNsLevel | pidNsParent | pidNsPidCachep | pidNsChildReaper | pidNsUserNs
  | pidNsUcounts | pidNsPidAllocated | pidNsNs | pidNsReboot => .pidNamespace
  | nsproxyIpcNs | nsproxyPidNsForChildren | nsproxyUtsNs | nsproxyMntNs | nsproxyNetNs => .nsproxy
  | taskPid | taskTgid | taskComm | taskNsproxy | taskThreadPid | taskTasks | taskRealCred
  | taskCred | taskGroupLeader | taskRealParent | taskSignal | taskSighand | taskMm | taskFs
  | taskFlags | taskSe => .taskStruct
  | seqFileBuf | seqFileCount | seqFileSize => .seqFile
  | pidLevel | pidNumbers => .pid
  | upidNr | upidNs => .upid
  | _ => .ipcNamespace

/-- The rows that a build from 6.1 on has. -/
def FieldId.since61 : FieldId → Bool
  | ipcNsMqSet | ipcNsIpcSet | ipcNsMqSysctls | ipcNsIpcSysctls => true
  | _ => false

/-- `enum droid_lkm_type_id` -/
inductive TypeId where
  | upid
  | pidNamespace
  deriving DecidableEq

def TypeId.type : TypeId → StructId
  | upid => .upid
  | pidNamespace => .pidNamespace

/-- What the headers say that the module was built with. -/
structure Build where
  /-- `LINUX_VERSION_CODE` -/
  versionCode : ℕ
  offsetof : FieldId → ℕ
  /-- the size of a member of an ipc namespace -/
  fieldSize : FieldId → ℕ
  sizeof : TypeId → ℕ
  /-- `sizeof(struct ipc_namespace)`, `sizeof(struct idr)`,
      `sizeof(struct ns_common)` -/
  sizeofIpcNs : ℕ
  sizeofIdr : ℕ
  sizeofNsCommon : ℕ
  /-- `offsetof(struct ns_common, inum)` -/
  offsetofInum : ℕ
  inside : ∀ f, f.type = .ipcNamespace → offsetof f + fieldSize f ≤ sizeofIpcNs
  idr_pos : 0 < sizeofIdr
  /-- `ns_common` has two pointers and the number -/
  ns_pointers : 16 ≤ sizeofNsCommon
  inum_inside : offsetofInum + 4 ≤ sizeofNsCommon

namespace Build

variable (b : Build)

/-- `LINUX_VERSION_CODE >= KERNEL_VERSION(6, 1, 0)` -/
def PerNs : Prop := KERNEL_VERSION 6 1 0 ≤ b.versionCode

instance : Decidable b.PerNs := inferInstanceAs (Decidable (_ ≤ _))

/-- The row is in the table. -/
def Has (f : FieldId) : Prop := f.since61 = true → b.PerNs

instance (f : FieldId) : Decidable (b.Has f) := inferInstanceAs (Decidable (_ → _))

end Build

/-! ## The table -/

/-- `enum ds_compat_state` -/
inductive CompatState where
  | ok
  | noType
  | noMember
  | differs
  | unverified
  | anchored
  | verified
  | manual
  | build
  deriving DecidableEq

/-- `struct ds_compat_field`, `struct ds_compat_type`; the build's number is
    that of `Build`. -/
structure CompatField where
  live : ℕ
  state : CompatState
  deriving DecidableEq

/-- `struct ds_compat_layout` -/
@[ext]
structure CompatLayout where
  fields : FieldId → CompatField
  types : TypeId → CompatField

/-- `droid_lkm_layout_state_ok` -/
def stateOk : CompatState → Bool
  | .ok | .verified | .anchored | .manual | .build => true
  | _ => false

/-- `droid_lkm_layout_verified` -/
def verified : CompatState → Bool
  | .ok | .verified | .anchored => true
  | _ => false

namespace CompatLayout

variable (l : CompatLayout) (b : Build)

/-- `droid_lkm_layout_ok` -/
def layoutOk (f : FieldId) : Bool := decide (b.Has f) && stateOk (l.fields f).state

/-- `droid_lkm_layout_off` -/
def layoutOff (f : FieldId) : ℕ := if b.Has f then (l.fields f).live else 0

/-- `droid_lkm_layout_ptr` -/
def layoutPtr (base : ℕ) (f : FieldId) : Option ℕ :=
  if base = 0 ∨ l.layoutOk b f = false then none else some (base + l.layoutOff b f)

/-- `droid_lkm_pidns_size` -/
def pidnsSize : ℕ :=
  let live := if stateOk (l.types .pidNamespace).state then (l.types .pidNamespace).live else 0
  if live < b.sizeof .pidNamespace then b.sizeof .pidNamespace else live

/-- The members that `droid_lkm_layout_required_ok` asks for. -/
def required : List FieldId :=
  [.taskComm, .taskPid, .taskTgid, .taskRealCred, .taskCred, .taskNsproxy, .taskThreadPid,
    .taskTasks, .taskMm, .taskFs, .taskSignal, .taskSighand, .taskFlags, .nsproxyUtsNs,
    .nsproxyIpcNs, .nsproxyMntNs, .nsproxyPidNsForChildren, .nsproxyNetNs, .pidLevel, .pidNumbers,
    .upidNr, .upidNs, .pidNsIdr, .pidNsLevel, .pidNsParent, .pidNsPidCachep, .pidNsPidAllocated,
    .pidNsNs, .pidNsUserNs, .pidNsUcounts, .pidNsChildReaper, .pidNsReboot]

/-- `droid_lkm_layout_required_ok` -/
def requiredOk : Bool :=
  required.all (fun f => verified (l.fields f).state) &&
    verified (l.types .upid).state && verified (l.types .pidNamespace).state

end CompatLayout

/-! ## Filling it -/

/-- `ds_compat_layout_unverified` -/
def layoutUnverified : CompatLayout where
  fields _ := ⟨0, .unverified⟩
  types _ := ⟨0, .unverified⟩

/-- What the type info reader answers about the running kernel. -/
structure Ti where
  /-- `ti_init`, `ti_btf_available` -/
  started : Bool
  available : Bool
  /-- `ti_type_by_name` finds the struct -/
  hasType : StructId → Bool
  /-- `ti_member_off`, in bits -/
  memberOff : FieldId → Option ℕ
  /-- `ti_type_size`, 0 for none -/
  typeSize : TypeId → ℕ

namespace Ti

variable (ti : Ti)

/-- The first loop of `ds_compat_layout_init`. -/
def field (f : FieldId) : CompatField :=
  if !ti.hasType f.type then ⟨0, .noType⟩
  else match ti.memberOff f with
    | none => ⟨0, .noMember⟩
    | some bitOff => ⟨bitOff / 8, .ok⟩

/-- And the second. -/
def type (t : TypeId) : CompatField :=
  if !ti.hasType t.type then ⟨0, .noType⟩
  else if ti.typeSize t = 0 then ⟨0, .noType⟩
  else ⟨ti.typeSize t, .ok⟩

/-- `ds_compat_layout_init`, where `anchor` is `ds_compat_layout_anchor`. -/
def layoutInit (anchor : CompatLayout → CompatLayout) : CompatLayout :=
  if !ti.started then layoutUnverified
  else if !ti.available then anchor layoutUnverified
  else ⟨ti.field, ti.type⟩

end Ti

/-- `droid_lkm_layout_init` -/
structure Loaded where
  layout : CompatLayout
  trusted : Bool

def droidLayoutInit (ti : Ti) (anchor : CompatLayout → CompatLayout) : Loaded :=
  let l := ti.layoutInit anchor
  ⟨l, l.requiredOk⟩

end DroidLkm.Layout
