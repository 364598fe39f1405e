/-
  Layouts found by anchors, for kernels without type info.

  The objects of the first task are scanned for known addresses and numbers.

  * `Env`: the memory of the running kernel, its symbols, and what the reader
    of task structs has found;
  * `anchorTask`, `anchorNsproxy`, `anchorPid`, `anchorPidns`: what each stage
    verifies, or `none` where it refuses;
  * `layoutAnchor`: `ds_compat_layout_anchor`.
-/
import DroidLkm.Layout.Fields
import DroidLkm.Lib.Image

namespace DroidLkm.Layout

open Image

def DS_ANCHOR_TASK_WIN : ℕ := 4096
def DS_ANCHOR_NS_WIN : ℕ := 128
def DS_ANCHOR_PID_WIN : ℕ := 128
def DS_ANCHOR_PIDNS_WIN : ℕ := 256

def PF_KTHREAD : ℕ := 0x00200000
def PF_IDLE : ℕ := 0x00000002
def PROC_PID_INIT_INO : ℕ := 0xEFFFFFFC
def PIDNS_ADDING : ℕ := 2 ^ 31

/-- `"swapper"`, low byte first. -/
def SWAPPER : ℕ := 0x72657070617773

/-- The addresses of the symbols, 0 for none, as `ds_anchor_sym` gives them. -/
structure Syms where
  initTask : ℕ
  initNsproxy : ℕ
  initCred : ℕ
  initStructPid : ℕ
  initPidNs : ℕ
  initUtsNs : ℕ
  initNet : ℕ
  initUserNs : ℕ
  initSignals : ℕ
  initSighand : ℕ
  initFs : ℕ

/-- `struct ti_task_offs`, 0 for what was not found. -/
structure TaskOffs where
  comm : ℕ
  pid : ℕ
  realCred : ℕ
  cred : ℕ
  tasks : ℕ
  mm : ℕ

/-- What the anchors look at. -/
structure Env where
  image : Image
  syms : Syms
  /-- `layout_fault` -/
  fault : Bool
  /-- what `ti_bootstrap_task` fills in, if it is called -/
  boot : Option TaskOffs
  /-- whether the bytes of `comm` that are not read hold a 0, by candidate -/
  junk : ℕ → Bool

namespace Env

variable (e : Env)

/-- `ds_anchor_rd64`, `ds_anchor_rd32` -/
def rd64 (a : ℕ) : Option ℕ := rd e.image a 8
def rd32 (a : ℕ) : Option ℕ := rd e.image a 4

/-! ## Scans of a window -/

def ptrHit (base want j : ℕ) : Bool := e.rd64 (base + 8 * j) == some want

/-- `ds_anchor_find_ptr` -/
def findPtr (base win want : ℕ) : Option ℕ :=
  (scan (e.ptrHit base want) (win / 8)).map (8 * ·)

def u32Hit (base want j : ℕ) : Bool := e.rd32 (base + 4 * j) == some want

/-- `ds_anchor_find_u32` -/
def findU32 (base win want : ℕ) : Option ℕ :=
  (scan (e.u32Hit base want) (win / 4)).map (4 * ·)

def pairHit (base first second j : ℕ) : Bool :=
  e.rd32 (base + 4 * j) == some first && e.rd32 (base + 4 * j + 4) == some second

/-- `ds_anchor_find_u32_pair`, the offset of the second. -/
def findU32Pair (base win first second : ℕ) : Option ℕ :=
  (scan (e.pairHit base first second) (win / 4 - 1)).map (4 * · + 4)

/-- `memchr` of a 0 among the eight bytes of a word. -/
def hasZero (v : ℕ) : Bool := (List.range 8).any fun j => v / 256 ^ j % 256 == 0

/-- The word is the address of a task with this pid and tgid, and a name. -/
def isTask (pidOff commOff pid j cand : ℕ) : Bool :=
  cand != 0 && e.rd32 (cand + pidOff) == some pid && e.rd32 (cand + pidOff + 4) == some pid &&
    (e.rd64 (cand + commOff)).any fun cv => cv % 256 != 0 && (hasZero cv || e.junk j)

def taskHit (base pidOff commOff pid j : ℕ) : Bool :=
  (e.rd64 (base + 8 * j)).any (e.isTask pidOff commOff pid j)

/-- `ds_anchor_find_task` -/
def findTask (base win pidOff commOff pid : ℕ) : Option ℕ :=
  (scan (e.taskHit base pidOff commOff pid) (win / 8)).map (8 * ·)

/-! ## Stages -/

/-- A member that is set only where its offset is not 0. -/
def unlessZero (f : FieldId) (off : ℕ) : List (FieldId × ℕ) := if off = 0 then [] else [(f, off)]

/-- A member that is set where it was found. -/
def ifFound (f : FieldId) : Option ℕ → List (FieldId × ℕ)
  | none => []
  | some off => [(f, off)]

/-- `*task_pid_off` and `*task_comm_off`: what `ds_anchor_task` takes over from
    `ti_bootstrap_task`. -/
def taskOffs : Option TaskOffs :=
  if e.syms.initTask = 0 ∨ e.syms.initNsproxy = 0 ∨ e.syms.initCred = 0 ∨
    e.syms.initStructPid = 0 ∨ e.fault = true then none
  else e.boot.filter fun offs => offs.comm ≠ 0 ∧ offs.pid ≠ 0

/-- The first task is the one whose members the reader has found. -/
def taskChecks (offs : TaskOffs) : Bool :=
  (e.rd64 (e.syms.initTask + offs.comm)).any (· % 2 ^ 56 == SWAPPER) &&
    e.rd64 (e.syms.initTask + offs.pid) == some 0 &&
    e.rd64 (e.syms.initTask + offs.realCred) == some e.syms.initCred &&
    e.rd64 (e.syms.initTask + offs.cred) == some e.syms.initCred

/-- A pointer of the first task, to a symbol that may be missing. -/
def taskPtr (sym : ℕ) : Option ℕ :=
  if sym = 0 then none else e.findPtr e.syms.initTask DS_ANCHOR_TASK_WIN sym

/-- `ds_anchor_task` -/
def anchorTask : Option (List (FieldId × ℕ)) :=
  e.taskOffs.bind fun offs =>
    if !e.taskChecks offs then none
    else
      let offNs := (e.findPtr e.syms.initTask DS_ANCHOR_TASK_WIN e.syms.initNsproxy).getD 0
      let offTp := (e.findPtr e.syms.initTask DS_ANCHOR_TASK_WIN e.syms.initStructPid).getD 0
      some ([(.taskComm, offs.comm), (.taskPid, offs.pid), (.taskTgid, offs.pid + 4),
          (.taskRealCred, offs.realCred), (.taskCred, offs.cred)] ++
        unlessZero .taskNsproxy offNs ++ unlessZero .taskThreadPid offTp ++
        unlessZero .taskTasks offs.tasks ++ unlessZero .taskMm offs.mm ++
        ifFound .taskFs (e.taskPtr e.syms.initFs) ++
        ifFound .taskSignal (e.taskPtr e.syms.initSignals) ++
        ifFound .taskSighand (e.taskPtr e.syms.initSighand) ++
        ifFound .taskFlags
          (e.findU32 e.syms.initTask DS_ANCHOR_TASK_WIN (PF_KTHREAD ||| PF_IDLE)))

/-- `ds_anchor_nsproxy` -/
def anchorNsproxy : Option (List (FieldId × ℕ)) :=
  if e.syms.initNsproxy = 0 ∨ e.syms.initUtsNs = 0 ∨ e.syms.initNet = 0 ∨
    e.syms.initPidNs = 0 ∨ e.fault = true then none
  else match e.findPtr e.syms.initNsproxy DS_ANCHOR_NS_WIN e.syms.initUtsNs,
      e.findPtr e.syms.initNsproxy DS_ANCHOR_NS_WIN e.syms.initNet,
      e.findPtr e.syms.initNsproxy DS_ANCHOR_NS_WIN e.syms.initPidNs with
    | some offUts, some offNet, some offPid =>
      if offPid ≠ offUts + 24 ∨ offNet ≠ offUts + 32 then none
      else if !(e.rd64 (e.syms.initNsproxy + (offUts + 16))).any (· != 0) then none
      else some [(.nsproxyUtsNs, offUts), (.nsproxyIpcNs, offUts + 8), (.nsproxyMntNs, offUts + 16),
        (.nsproxyPidNsForChildren, offUts + 24), (.nsproxyNetNs, offUts + 32)]
    | _, _, _ => none

/-- `ds_anchor_pid` -/
def anchorPid : Option (List (FieldId × ℕ)) :=
  if e.syms.initStructPid = 0 ∨ e.syms.initPidNs = 0 ∨ e.fault = true then none
  else match e.findPtr e.syms.initStructPid DS_ANCHOR_PID_WIN e.syms.initPidNs with
    | none => none
    | some offNs =>
      if offNs < 8 then none
      else if e.rd32 (e.syms.initStructPid + (offNs - 8)) ≠ some 0 then none
      else some ([(.upidNr, 0), (.upidNs, 8), (.pidNumbers, offNs - 8)] ++
        ifFound .pidLevel (e.findU32Pair e.syms.initStructPid DS_ANCHOR_PID_WIN 1 0))

/-- The checks of `ds_anchor_pidns` on what is beside the markers, where
    `pid_allocated` is computed in 32 bits. -/
def pidnsChecks (offUser offReaper : ℕ) : Bool :=
  e.rd32 (e.syms.initPidNs + (offReaper + 16)) == some 0 &&
    e.rd64 (e.syms.initPidNs + (offReaper + 16 + 8)) == some 0 &&
    (e.rd32 (e.syms.initPidNs + (offReaper + 2 ^ 32 - 8) % 2 ^ 32)).any (PIDNS_ADDING ≤ ·) &&
    e.rd64 (e.syms.initPidNs + (offUser + 8)) == some 0 &&
    e.rd32 (e.syms.initPidNs + (offUser + 16)) == some 0

/-- The markers that `ds_anchor_pidns` scans for: the user namespace, the
    reaper and the inode number. -/
def pidnsMarkers (offs : TaskOffs) : Option (ℕ × ℕ × ℕ) :=
  match e.findPtr e.syms.initPidNs DS_ANCHOR_PIDNS_WIN e.syms.initUserNs,
      e.findTask e.syms.initPidNs DS_ANCHOR_PIDNS_WIN offs.pid offs.comm 1,
      e.findU32 e.syms.initPidNs DS_ANCHOR_PIDNS_WIN PROC_PID_INIT_INO with
  | some offUser, some offReaper, some offInum => some (offUser, offReaper, offInum)
  | _, _, _ => none

/-- What `ds_anchor_pidns` sets. -/
def pidnsFound (offUser offReaper offNs : ℕ) : List (FieldId × ℕ) :=
  [(.pidNsIdr, 8), (.pidNsUserNs, offUser), (.pidNsChildReaper, offReaper),
    (.pidNsPidCachep, offReaper + 8), (.pidNsNs, offNs), (.pidNsLevel, offReaper + 16),
    (.pidNsParent, offReaper + 16 + 8), (.pidNsPidAllocated, (offReaper + 2 ^ 32 - 8) % 2 ^ 32),
    (.pidNsUcounts, offUser + 8), (.pidNsReboot, offUser + 16)]

/-- `ds_anchor_pidns`, with the size of the struct. -/
def anchorPidns (b : Build) : Option (List (FieldId × ℕ) × ℕ) :=
  if e.fault = true ∨ e.syms.initUserNs = 0 ∨ e.syms.initPidNs = 0 then none
  else e.taskOffs.bind fun offs =>
    (e.pidnsMarkers offs).bind fun (offUser, offReaper, offInum) =>
      if offInum < b.offsetofInum then none
      else if !e.pidnsChecks offUser offReaper then none
      else
        let offNs := offInum - b.offsetofInum
        some (pidnsFound offUser offReaper offNs, offNs + b.sizeofNsCommon)

end Env

/-! ## The layout -/

namespace CompatLayout

variable (l : CompatLayout)

/-- `ds_anchor_set` -/
def set (f : FieldId) (off : ℕ) : CompatLayout :=
  { l with fields := fun g => if g = f then ⟨off, .verified⟩ else l.fields g }

def setAll (found : List (FieldId × ℕ)) : CompatLayout :=
  found.foldl (fun l x => l.set x.1 x.2) l

/-- `ds_anchor_type` -/
def setType (t : TypeId) (size : ℕ) : CompatLayout :=
  { l with types := fun u => if u = t then ⟨size, .verified⟩ else l.types u }

/-- `ds_anchor_keep_build`, for a struct without a type row. -/
def keepBuild (b : Build) (s : StructId) : CompatLayout :=
  { l with fields := fun f => if f.type = s then ⟨b.offsetof f, .build⟩ else l.fields f }

/-- The loop at the end: what no stage has verified is refused. -/
def refuseRest : CompatLayout :=
  { l with fields := fun f =>
      match (l.fields f).state with
      | .anchored | .verified | .build => l.fields f
      | _ => ⟨0, .unverified⟩ }

end CompatLayout

namespace Env

variable (e : Env)

/-- `ds_compat_layout_anchor` -/
def layoutAnchor (b : Build) (l : CompatLayout) : CompatLayout :=
  let l := (l.keepBuild b .ipcNamespace).keepBuild b .seqFile
  let l := l.setAll (e.anchorTask.getD [])
  let l := l.setAll (e.anchorNsproxy.getD [])
  let l := match e.anchorPid with
    | none => l
    | some found => (l.setAll found).setType .upid (b.sizeof .upid)
  let l := match e.anchorPidns b with
    | none => l
    | some (found, size) => (l.setAll found).setType .pidNamespace size
  l.refuseRest

end Env

end DroidLkm.Layout
