/-
  Loads that fail.

  * `AtIpcns`, `AtSlots`, `AtProc`, `AtCritical`: the steps at which a load can fail
    when it has installed something;
  * `Unwinds`: for each of them, what has to hold of the kernel and the libraries for
    nothing to stay behind;
  * `failed_load_unwinds`: a failed load leaves nothing behind exactly then;
  * `failed_load_leaves`: a load that fails in `droid_lkm_ipcns_init` leaves the
    entries of `ipc_init`, and one that is refused for a hook the reference to the
    module that `droid_lkm_proc_init` took.
-/
import DroidLkm.Load.Unhook
import DroidLkm.Tables.Install

namespace DroidLkm.Load

variable {e : Env} {m : Tables.Tab × ℤ → ℕ} {s : State}

namespace Env

/-! ## The parts of a load -/

/-- `droid_lkm_pidns_init` succeeds. -/
def PidnsUp (e : Env) : Prop :=
  e.pidnsCache = true ∧ e.pidnsOps = true ∧ e.zapThread = 0 ∧
    (e.skipDoExit = true ∨ e.registerKprobeRet = 0)

theorem pidnsInit_up (hup : e.PidnsUp) :
    e.pidnsInit ⟨false, false, false⟩ = (0, ⟨true, true, !e.skipDoExit⟩) := by
  obtain ⟨hc, ho, hz, hk⟩ := hup
  unfold pidnsInit
  cases hs : e.skipDoExit with
  | true => simp [hc, ho, hz]
  | false =>
    have hr : e.registerKprobeRet = 0 := hk.resolve_left fun h => by rw [hs] at h; cases h
    simp [hc, ho, hz, hr]

theorem enomem_ne : -ENOMEM ≠ 0 := by decide

theorem pidnsInit_down (hup : ¬ e.PidnsUp) :
    (e.pidnsInit ⟨false, false, false⟩).1 ≠ 0 ∧
      (e.pidnsInit ⟨false, false, false⟩).2 = ⟨false, false, false⟩ := by
  unfold pidnsInit
  split
  case isTrue => exact ⟨enomem_ne, rfl⟩
  split
  case isTrue => exact ⟨enomem_ne, rfl⟩
  split
  case isTrue hz => exact ⟨hz, rfl⟩
  split
  case isTrue hc ho hz hs =>
    exact absurd ⟨by simpa using hc, by simpa using ho, by simpa using hz, Or.inl hs⟩ hup
  split
  case isTrue => exact ⟨Engine.enodata_ne, rfl⟩
  case isFalse hc ho hz _ hr =>
    exact absurd ⟨by simpa using hc, by simpa using ho, by simpa using hz,
      Or.inr (by simpa using hr)⟩ hup

/-- The kprobe comes back. -/
def KprobeBack (e : Env) : Prop := e.skipDoExit = true ∨ e.unregisterKprobe = true

theorem pidnsExit_up (e : Env) :
    (e.pidnsExit ⟨true, true, !e.skipDoExit⟩).thread = false ∧
      ((e.pidnsExit ⟨true, true, !e.skipDoExit⟩).kprobe = false ↔ e.KprobeBack) := by
  unfold pidnsExit KprobeBack
  cases e.skipDoExit <;> cases e.unregisterKprobe <;> simp

/-- `droid_lkm_ipcns_init` succeeds. -/
def IpcnsUp (e : Env) : Prop := e.ipcnsOps = true ∧ e.initNsproxy = true

/-- What `droid_lkm_ipcns_init` leaves. -/
def ipcnsMade (e : Env) : Ipcns := e.ipcSysctlsInit (e.ipcInit ⟨fun _ => false, false, false⟩)

/-- The table of the limits comes back. -/
def SysctlBack (e : Env) : Prop :=
  e.sysctlHelpers = true → e.perNs = false → e.registerSysctl = true →
    e.sysctlHeader .ipc = true → e.unregisterSysctlTable = true

theorem ipcnsExit_made (ht : e.trusted = true) :
    (∀ x, (e.ipcnsExit e.ipcnsMade).proc x = false) ∧
      ((e.ipcnsExit e.ipcnsMade).sysctl = false ↔ e.SysctlBack) := by
  unfold ipcnsExit ipcSysctlsExit ipcnsMade ipcSysctlsInit ipcInit SysctlBack
  rw [ht]
  cases hh : e.sysctlHelpers
  · simp
  cases hp : e.perNs
  · cases hr : e.registerSysctl <;> cases hi : e.sysctlHeader .ipc <;> simp
  · cases hc : e.sysctlFields .ipc && e.sysctlDup .ipc && e.sysctlHeader .ipc <;> simp

/-- The queues that `droid_lkm_init` leaves behind `droid_lkm_mqueue_fs_init`. -/
def mqueueMade (e : Env) (ready : Bool) : Mqueue :=
  let q := e.mqueueFsInit ready ⟨false, false, false⟩
  if q.1 ≠ 0 then q.2 else { q.2 with up := true }

theorem setupMqSysctls_false {ready : Bool} {q : Mqueue} (h : (e.setupMqSysctls ready q).1 = false) :
    (e.setupMqSysctls ready q).2 = q := by
  unfold setupMqSysctls at h ⊢
  split
  case isTrue => rfl
  split
  case isTrue => rfl
  split
  case isTrue => rfl
  split
  case isTrue hn hr hf hd => rw [if_neg hn, if_neg hr, if_neg hf, if_pos hd] at h; cases h
  case isFalse => rfl

/-- A failing `droid_lkm_mqueue_fs_init` leaves nothing. -/
theorem mqueueFsInit_error {ready : Bool}
    (h : (e.mqueueFsInit ready ⟨false, false, false⟩).1 ≠ 0) :
    (e.mqueueFsInit ready ⟨false, false, false⟩).2 = ⟨false, false, false⟩ := by
  unfold mqueueFsInit at h ⊢
  dsimp only at h ⊢
  split
  case isTrue => rfl
  split
  case isTrue => rfl
  split
  case isTrue => rfl
  have hup : (e.setupMqSysctls ready ⟨false, true, false⟩).2.up = false := by
    unfold setupMqSysctls
    split
    · rfl
    split
    · rfl
    split
    · rfl
    split <;> rfl
  split
  case isTrue hset => rw [setupMqSysctls_false (by simpa using hset)]
  split
  case isTrue => rw [hup]
  case isFalse hs hc hr hset hns =>
    rw [if_neg hs, if_neg hc, if_neg hr, if_neg hset, if_neg hns] at h
    exact absurd rfl h

theorem mqueueTeardown_made (e : Env) (ready : Bool) :
    mqueueFsTeardown (e.mqueueMade ready) = ⟨false, false, false⟩ := by
  unfold mqueueMade
  dsimp only
  split
  case isTrue h => rw [mqueueFsInit_error h]; rfl
  case isFalse => rfl

/-! ## The steps at which a load fails -/

/-- The load gets past `droid_lkm_pidns_init`, and has done it. -/
def Reached (e : Env) : Prop :=
  (e.compatInit = 0 ∧ e.ksymInit = 0 ∧ e.capsInit = 0 ∧ e.munmapInit = 0 ∧ e.hkInit = 0) ∧
    e.trusted = true ∧ e.PidnsUp

def AtIpcns (e : Env) : Prop := e.Reached ∧ ¬ e.IpcnsUp

def AtSlots (e : Env) : Prop := e.Reached ∧ e.IpcnsUp ∧ ¬ e.slots.Up

def AtProc (e : Env) : Prop := e.Reached ∧ e.IpcnsUp ∧ e.slots.Up ∧ e.ProcFails

/-- A critical hook is missing, and `degrade` does not allow that. -/
def AtCritical (e : Env) : Prop :=
  e.Reached ∧ e.IpcnsUp ∧ e.slots.Up ∧ ¬ e.ProcFails ∧
    ¬ (e.hk.Installs .cnn ∧ e.hk.Installs .cn) ∧ e.hk.degrade = false

/-- What has to hold for a failed load to leave nothing behind. -/
structure Unwinds (e : Env) (m : Tables.Tab × ℤ → ℕ) : Prop where
  kprobe : e.AtIpcns ∨ e.AtSlots ∨ e.AtProc ∨ e.AtCritical → e.KprobeBack
  sysv : e.AtIpcns → e.ipcnsOps = false → e.procFs = true → ∀ x, e.sysvCreate x = false
  sysctl : e.AtSlots ∨ e.AtProc ∨ e.AtCritical → e.SysctlBack
  slots : e.AtSlots ∨ e.AtProc ∨ e.AtCritical → e.slots.Restores m
  hooks : e.AtProc ∨ e.AtCritical → e.HooksBack
  nsdir : e.AtProc → e.ProcTried → e.NsdirBack
  pinned : e.AtCritical → ¬ e.NsdirTakes
  critical : e.AtCritical → e.hk.Swept .nsdir ∧ (e.StatusTried → e.hk.Swept .status)

/-- Nothing is in force. -/
def Clean (m : Tables.Tab × ℤ → ℕ) (s : State) : Prop := ∀ r, ¬ InForce m s r

theorem clean_iff (m : Tables.Tab × ℤ → ℕ) (s : State) :
    Clean m s ↔ (s.pidns.thread = false ∧ s.pidns.kprobe = false) ∧
      ((∀ x, s.ipcns.proc x = false) ∧ s.ipcns.sysctl = false) ∧
      (s.mqueue.filesystem = false ∧ s.mqueue.sysctl = false) ∧
      s.tables.mem = m ∧ Unhooked s.hooks ∧ (s.proc.refs = 0 ∧ s.proc.sysctl = false) ∧
      (s.features.dir = false ∧ s.features.file = false) := by
  constructor
  · intro h
    have hhook : ∀ x, (s.hooks.record x).redir = none := fun x => by
      by_contra hne
      exact h (.hook x) (Or.inl hne)
    refine ⟨⟨?_, ?_⟩, ⟨fun x => ?_, ?_⟩, ⟨?_, ?_⟩, funext fun k => ?_, ⟨hhook, ?_⟩, ⟨?_, ?_⟩, ?_, ?_⟩
    · exact Bool.not_eq_true _ ▸ h .thread
    · exact Bool.not_eq_true _ ▸ h .kprobe
    · exact Bool.not_eq_true _ ▸ h (.sysv x)
    · exact Bool.not_eq_true _ ▸ h (.sysctl .ipc)
    · exact Bool.not_eq_true _ ▸ h .filesystem
    · exact Bool.not_eq_true _ ▸ h (.sysctl .mqueue)
    · exact not_not.1 (h (.slot k))
    · exact Bool.not_eq_true _ ▸ fun hf => h (.hook .nsdir) (Or.inr ⟨rfl, hf⟩)
    · exact Nat.eq_zero_of_not_pos (h .moduleRef)
    · exact Bool.not_eq_true _ ▸ h (.sysctl .nsLastPid)
    · exact Bool.not_eq_true _ ▸ h .featuresDir
    · exact Bool.not_eq_true _ ▸ h .featuresFile
  · rintro ⟨⟨hth, hkp⟩, ⟨hproc, hsys⟩, ⟨hfs, hmq⟩, htab, ⟨hhook, hfield⟩, ⟨href, hpid⟩, hdir, hfile⟩
    intro r
    cases r with
    | sysv x => simp [InForce, hproc]
    | featuresDir => simp [InForce, hdir]
    | featuresFile => simp [InForce, hfile]
    | slot k => simp [InForce, htab]
    | hook x => simp [InForce, hhook, hfield]
    | kprobe => simp [InForce, hkp]
    | thread => simp [InForce, hth]
    | filesystem => simp [InForce, hfs]
    | sysctl c => cases c <;> simp [InForce, hsys, hmq, hpid]
    | moduleRef => simp [InForce, href]

theorem clean_fresh (m : Tables.Tab × ℤ → ℕ) : Clean m (State.fresh m) :=
  (clean_iff m _).2 ⟨⟨rfl, rfl⟩, ⟨fun _ => rfl, rfl⟩, ⟨rfl, rfl⟩, rfl,
    ⟨fun _ => rfl, rfl⟩, ⟨rfl, rfl⟩, rfl, rfl⟩

theorem unhooked_exits_fresh (k : Engine) : Unhooked (k.hookExits Hooks.fresh) :=
  ⟨fun h => Engine.exits_fresh k h, rfl⟩

/-- The state behind `droid_lkm_pidns_init`. -/
def pidnsState (e : Env) (m : Tables.Tab × ℤ → ℕ) : State :=
  { State.fresh m with pidns := ⟨true, true, !e.skipDoExit⟩ }

theorem init_reached (h : e.Reached) :
    e.init (State.fresh m) =
      let i := e.ipcnsInit ⟨fun _ => false, false, false⟩
      let s := { e.pidnsState m with ipcns := i.2 }
      if i.1 ≠ 0 then (i.1, e.errPidns s) else e.initSlots s := by
  obtain ⟨⟨hc, hk, hcaps, hmun, hhk⟩, ht, hup⟩ := h
  have hp : e.pidnsInit (State.fresh m).pidns = (0, ⟨true, true, !e.skipDoExit⟩) :=
    pidnsInit_up hup
  unfold init
  simp only [hc, hk, hcaps, hmun, hhk, ht, hp, ne_eq, not_true_eq_false, if_false, if_true]
  rfl

/-- Without a trusted layout nothing is tried that can fail. -/
theorem initSlots_untrusted {s : State} (ht : e.trusted = false)
    (hs : s.hooks.criticalMissing = false) : (e.initSlots s).1 = 0 := by
  unfold initSlots initTail
  simp [ht, hs]

/-- The load failed before that, or the layout is not trusted. -/
theorem init_not_reached (h : ¬ e.Reached) (hret : (e.init (State.fresh m)).1 ≠ 0) :
    Clean m (e.init (State.fresh m)).2 := by
  unfold init at hret ⊢
  split
  case isTrue => exact clean_fresh m
  split
  case isTrue => exact clean_fresh m
  split
  case isTrue => exact clean_fresh m
  split
  case isTrue => exact clean_fresh m
  split
  case isTrue => exact clean_fresh m
  case isFalse hc hk hcaps hmun hhk =>
    rw [if_neg hc, if_neg hk, if_neg hcaps, if_neg hmun, if_neg hhk] at hret
    cases ht : e.trusted with
    | true =>
      have hdown : ¬ e.PidnsUp := fun hup =>
        h ⟨⟨not_not.1 hc, not_not.1 hk, not_not.1 hcaps, not_not.1 hmun, not_not.1 hhk⟩, ht, hup⟩
      obtain ⟨herr, hst⟩ := pidnsInit_down hdown
      have hfresh : (State.fresh m).pidns = ⟨false, false, false⟩ := rfl
      simp only [if_true, hfresh]
      rw [if_pos herr, hst]
      refine (clean_iff m _).2 ⟨⟨rfl, rfl⟩, ⟨fun _ => rfl, rfl⟩, ⟨rfl, rfl⟩, rfl, ?_,
        ⟨rfl, rfl⟩, rfl, rfl⟩
      exact unhooked_exits_fresh e.hk
    | false =>
      simp only [ht] at hret
      exact absurd (initSlots_untrusted ht rfl) hret

/-- **`droid_lkm_ipcns_init` fails.** -/
theorem init_at_ipcns (h : e.AtIpcns) :
    (e.init (State.fresh m)).1 ≠ 0 ∧
      (Clean m (e.init (State.fresh m)).2 ↔
        e.KprobeBack ∧ (e.ipcnsOps = false → e.procFs = true → ∀ x, e.sysvCreate x = false)) := by
  obtain ⟨hr, hdown⟩ := h
  have ht : e.trusted = true := hr.2.1
  obtain ⟨hth, hkp⟩ := e.pidnsExit_up
  obtain ⟨i, hi, hret, hproc, hsys⟩ : ∃ i : Ipcns,
      (e.ipcnsInit ⟨fun _ => false, false, false⟩).2 = i ∧
      (e.ipcnsInit ⟨fun _ => false, false, false⟩).1 ≠ 0 ∧
      ((∀ x, i.proc x = false) ↔
        (e.ipcnsOps = false → e.procFs = true → ∀ x, e.sysvCreate x = false)) ∧
      i.sysctl = false := by
    refine ⟨_, rfl, ?_⟩
    unfold ipcnsInit
    dsimp only
    cases ho : e.ipcnsOps with
    | false =>
      refine ⟨enomem_ne, ?_, rfl⟩
      rw [imp_iff_right rfl]
      cases hp : e.procFs <;> simp [ipcInit, hp]
    | true =>
      have hn : e.initNsproxy = false := by
        rw [← Bool.not_eq_true]
        exact fun hn => hdown ⟨ho, hn⟩
      simp only [hn]
      refine ⟨Engine.enodata_ne, ?_, ?_⟩
      · simp [ipcnsExit, ipcSysctlsExit, ipcInit, ht]
      · simp [ipcnsExit, ipcSysctlsExit, ipcInit, ht]
  rw [init_reached hr]
  dsimp only
  rw [if_pos hret, hi]
  refine ⟨hret, ?_⟩
  rw [clean_iff, ← hproc]
  have hun : Unhooked (e.errPidns { e.pidnsState m with ipcns := i }).hooks :=
    unhooked_exits_fresh e.hk
  constructor
  · intro hclean
    exact ⟨hkp.1 hclean.1.2, hclean.2.1.1⟩
  · rintro ⟨hk, hp⟩
    exact ⟨⟨hth, hkp.2 hk⟩, ⟨hp, hsys⟩, ⟨rfl, rfl⟩, rfl, hun, ⟨rfl, rfl⟩, rfl, rfl⟩

/-- The tables after a `droid_lkm_slot_init` that fails. -/
theorem tables_down (hup : ¬ e.slots.Up) :
    (e.slots.slotInit (Tables.State.fresh m)).1 ≠ 0 ∧
      ((e.slots.slotInit (Tables.State.fresh m)).2.mem = m ↔ e.slots.Restores m) := by
  obtain ⟨hret, -⟩ := Tables.Env.slotInit_down (m := m) hup
  rw [← Tables.Env.restores_iff, Tables.Env.loadUnload, if_pos hret]
  exact ⟨hret, Iff.rfl⟩

/-- The tables after one that succeeds, and `droid_lkm_slot_exit`. -/
theorem tables_up (hup : e.slots.Up) :
    (e.slots.slotInit (Tables.State.fresh m)).1 = 0 ∧
      ((e.slots.slotExit (e.slots.slotInit (Tables.State.fresh m)).2).mem = m ↔
        e.slots.Restores m) := by
  obtain ⟨hret, -⟩ := Tables.Env.slotInit_up (m := m) hup
  rw [← Tables.Env.restores_iff, Tables.Env.loadUnload, if_neg (not_not.2 hret)]
  exact ⟨hret, Iff.rfl⟩

/-- The state behind `droid_lkm_mqueue_fs_init`. -/
def mqueueState (e : Env) (m : Tables.Tab × ℤ → ℕ) : State :=
  { e.pidnsState m with
    ipcns := e.ipcnsMade
    mqueue := e.mqueueMade e.ipcnsMade.ready }

theorem ipcnsInit_up (hup : e.IpcnsUp) :
    e.ipcnsInit ⟨fun _ => false, false, false⟩ = (0, e.ipcnsMade) := by
  simp [ipcnsInit, ipcnsMade, hup.1, hup.2]

theorem init_ipcns_up (hr : e.Reached) (hup : e.IpcnsUp) :
    e.init (State.fresh m) =
      let r := e.slotInit (e.mqueueState m)
      if r.1 ≠ 0 then (r.1, e.errIpcns r.2)
      else
        let r := e.procInit r.2
        if r.1 ≠ 0 then (r.1, e.errSlot r.2) else e.initTail r.2 := by
  have ht : e.trusted = true := hr.2.1
  rw [init_reached hr, ipcnsInit_up hup]
  dsimp only
  rw [if_neg (not_not.2 rfl)]
  unfold initSlots
  simp only [ht, if_true]
  rfl

/-- **`droid_lkm_slot_init` fails.** -/
theorem init_at_slots (h : e.AtSlots) :
    (e.init (State.fresh m)).1 ≠ 0 ∧
      (Clean m (e.init (State.fresh m)).2 ↔
        e.KprobeBack ∧ e.SysctlBack ∧ e.slots.Restores m) := by
  obtain ⟨hr, hup, hdown⟩ := h
  obtain ⟨hret, htab⟩ := tables_down (m := m) hdown
  obtain ⟨hth, hkp⟩ := e.pidnsExit_up
  obtain ⟨hproc, hsys⟩ := ipcnsExit_made (e := e) hr.2.1
  have hmq := e.mqueueTeardown_made e.ipcnsMade.ready
  have hslot : e.slotInit (e.mqueueState m) =
      ((e.slots.slotInit (Tables.State.fresh m)).1,
        { e.mqueueState m with tables := (e.slots.slotInit (Tables.State.fresh m)).2 }) := if_pos hret
  rw [init_ipcns_up hr hup, hslot]
  dsimp only
  rw [if_pos hret]
  refine ⟨hret, ?_⟩
  rw [clean_iff]
  generalize hs : e.errIpcns _ = s
  have hpid : s.pidns = e.pidnsExit ⟨true, true, !e.skipDoExit⟩ := hs ▸ rfl
  have hipc : s.ipcns = e.ipcnsExit e.ipcnsMade := hs ▸ rfl
  have hque : s.mqueue = ⟨false, false, false⟩ := hs ▸ hmq
  have hmem : s.tables = (e.slots.slotInit (Tables.State.fresh m)).2 := hs ▸ rfl
  have hun : Unhooked s.hooks := hs ▸ unhooked_exits_fresh e.hk
  have hpr : s.proc = ⟨0, false⟩ := hs ▸ rfl
  have hfe : s.features = ⟨false, false⟩ := hs ▸ rfl
  rw [hpid, hipc, hque, hmem, hpr, hfe, hkp, hsys, htab]
  constructor
  · rintro ⟨⟨-, hk⟩, ⟨-, hsy⟩, -, hres, -⟩
    exact ⟨hk, hsy, hres⟩
  · rintro ⟨hk, hsy, hres⟩
    exact ⟨⟨hth, hk⟩, ⟨hproc, hsy⟩, ⟨rfl, rfl⟩, hres, hun, ⟨rfl, rfl⟩, rfl, rfl⟩

/-- The state behind `droid_lkm_slot_init`. -/
def slotState (e : Env) (m : Tables.Tab × ℤ → ℕ) : State :=
  { e.mqueueState m with
    tables := (e.slots.slotInit (Tables.State.fresh m)).2
    hooks := e.hooksUp }

theorem slotInit_up (hup : e.slots.Up) : e.slotInit (e.mqueueState m) = (0, e.slotState m) := by
  have hret : (e.slots.slotInit (e.mqueueState m).tables).1 = 0 := (tables_up hup).1
  have hh := slotInit_hooks e
  unfold slotInit slotState
  dsimp only
  rw [if_neg (not_not.2 hret), ← hh]
  rfl

/-- What the labels from `err_slot` on do to each part. -/
theorem errSlot_eq (e : Env) (s : State) :
    e.errSlot s = ⟨e.pidnsExit s.pidns, e.ipcnsExit s.ipcns, mqueueFsTeardown s.mqueue,
      e.slots.slotExit s.tables, e.shut s.hooks, ⟨s.proc.refs, false⟩, featuresExit s.features⟩ := by
  simp only [errSlot, errIpcns, errPidns, errHk, slotExit, procExit, shut]

/-- The states from which `err_slot` is taken. -/
structure Behind (e : Env) (m : Tables.Tab × ℤ → ℕ) (s : State) : Prop where
  pidns : s.pidns = ⟨true, true, !e.skipDoExit⟩
  ipcns : s.ipcns = e.ipcnsMade
  mqueue : s.mqueue = e.mqueueMade e.ipcnsMade.ready
  tables : s.tables = (e.slots.slotInit (Tables.State.fresh m)).2
  features : featuresExit s.features = ⟨false, false⟩

/-- **What `err_slot` leaves.** -/
theorem clean_errSlot (hs : e.Behind m s) (ht : e.trusted = true) (hup : e.slots.Up) :
    Clean m (e.errSlot s) ↔ e.KprobeBack ∧ e.SysctlBack ∧ e.slots.Restores m ∧
      Unhooked (e.shut s.hooks) ∧ s.proc.refs = 0 := by
  obtain ⟨hth, hkp⟩ := e.pidnsExit_up
  obtain ⟨hproc, hsys⟩ := ipcnsExit_made (e := e) ht
  have hmq := e.mqueueTeardown_made e.ipcnsMade.ready
  have htab := (tables_up (m := m) hup).2
  rw [clean_iff, errSlot_eq, hs.pidns, hs.ipcns, hs.mqueue, hs.tables, hs.features]
  dsimp only
  rw [hmq, hkp, hsys, htab]
  constructor
  · rintro ⟨⟨-, hk⟩, ⟨-, hsy⟩, -, hres, hun, ⟨href, -⟩, -⟩
    exact ⟨hk, hsy, hres, hun, href⟩
  · rintro ⟨hk, hsy, hres, hun, href⟩
    exact ⟨⟨hth, hk⟩, ⟨hproc, hsy⟩, ⟨rfl, rfl⟩, hres, hun, ⟨href, rfl⟩, rfl, rfl⟩

theorem ebusy_ne : -EBUSY ≠ 0 := by decide

/-- `droid_lkm_proc_init`, failing -/
theorem procInit_fails (hf : e.ProcFails) :
    (e.procInit (e.slotState m)).1 ≠ 0 ∧
      (e.procInit (e.slotState m)).2 = { e.slotState m with
        hooks := if e.ProcTried then e.hk.hookRemove .nsdir e.hooksProc else e.hooksUp } := by
  obtain ⟨hret, hset⟩ := hookInstallSlot_up e
  have hhooks : (e.slotState m).hooks = e.hooksUp := rfl
  unfold procInit
  by_cases ht : e.ProcTried
  · rw [if_pos ht]
    obtain ⟨hn, hm⟩ := hf.resolve_left (not_not.2 ht)
    obtain ⟨h1, h2, h3, h4, h5⟩ := ht
    simp only [h1, h2, h3, h4, h5, hm, hhooks, hset, hret.2 hn]
    exact ⟨ebusy_ne, rfl⟩
  · rw [if_neg ht]
    split
    case isTrue => exact ⟨Engine.enodata_ne, rfl⟩
    split
    case isTrue hz => exact ⟨hz, rfl⟩
    split
    case isTrue => exact ⟨Engine.enodata_ne, rfl⟩
    split
    case isTrue hz => exact ⟨hz, rfl⟩
    split
    case isTrue => exact ⟨Engine.enodata_ne, rfl⟩
    case isFalse h1 h2 h3 h4 h5 =>
      exact absurd ⟨by simpa using h1, not_not.1 h2, by simpa using h3, not_not.1 h4,
        by simpa using h5⟩ ht

/-- **`droid_lkm_proc_init` fails.** -/
theorem init_at_proc (h : e.AtProc) :
    (e.init (State.fresh m)).1 ≠ 0 ∧
      (Clean m (e.init (State.fresh m)).2 ↔
        e.KprobeBack ∧ e.SysctlBack ∧ e.slots.Restores m ∧ e.HooksBack ∧
          (e.ProcTried → e.NsdirBack)) := by
  obtain ⟨hr, hup, hslots, hf⟩ := h
  obtain ⟨hret, hst⟩ := procInit_fails (m := m) hf
  rw [init_ipcns_up hr hup, slotInit_up hslots]
  dsimp only
  rw [if_neg (not_not.2 rfl), if_pos hret, hst]
  refine ⟨hret, ?_⟩
  have hb : e.Behind m { e.slotState m with
      hooks := if e.ProcTried then e.hk.hookRemove .nsdir e.hooksProc else e.hooksUp } :=
    ⟨rfl, rfl, rfl, rfl, rfl⟩
  rw [clean_errSlot hb hr.2.1 hslots]
  refine and_congr_right fun _ => and_congr_right fun _ => and_congr_right fun _ => ?_
  have hrefs : (e.slotState m).proc.refs = 0 := rfl
  rw [and_iff_left hrefs]
  dsimp only
  split
  case isTrue ht => rw [unhooked_removed, imp_iff_right ht]
  case isFalse ht =>
    rw [unhooked_up]
    exact (and_iff_left fun h => absurd h ht).symm

/-- The state behind `droid_lkm_proc_init`. -/
def procState (e : Env) (m : Tables.Tab × ℤ → ℕ) : State :=
  { e.slotState m with
    hooks := e.hooksProc
    proc := e.pidnsSysctlInit e.ipcnsMade.ready ⟨if e.NsdirTakes then 1 else 0, false⟩ }

/-- `droid_lkm_proc_init`, succeeding: the module is pinned when the hook took. -/
theorem procInit_ok (hok : ¬ e.ProcFails) :
    e.procInit (e.slotState m) = (0, e.procState m) := by
  obtain ⟨hret, hset⟩ := hookInstallSlot_up e
  have hhooks : (e.slotState m).hooks = e.hooksUp := rfl
  obtain ⟨ht, hget⟩ := not_or.1 hok
  have ht : e.ProcTried := not_not.1 ht
  unfold procInit procState
  obtain ⟨h1, h2, h3, h4, h5⟩ := ht
  simp only [h1, h2, h3, h4, h5, hhooks, hset]
  by_cases hn : e.NsdirTakes
  · have hm : e.tryModuleGet = true := by
      rw [← Bool.not_eq_false]
      exact fun hm => hget ⟨hn, hm⟩
    rw [if_pos hn, hm, hret.2 hn]
    rfl
  · rw [if_neg hn, if_pos (mt hret.1 hn)]
    rfl

theorem pidnsSysctlInit_refs (ready : Bool) (p : Proc) :
    (e.pidnsSysctlInit ready p).refs = p.refs := by
  unfold pidnsSysctlInit
  split
  · rfl
  split
  · rfl
  split <;> rfl

theorem featuresExit_made (e : Env) :
    featuresExit (e.featuresInit ⟨false, false⟩).2 = ⟨false, false⟩ := by
  unfold featuresInit
  split
  · rfl
  split
  · rfl
  split <;> rfl

theorem criticalMissing_tail (e : Env) :
    (e.statusInit e.hooksProc).2.criticalMissing =
      !decide (e.hk.Installs .cnn ∧ e.hk.Installs .cn) := by
  have hfresh : e.hooksProc.record .status = Record.fresh := by simp [hooksProc, hooksUp]
  rw [statusInit_hooks e hfresh]
  split <;> rfl

/-- The state behind `droid_lkm_features_init`. -/
def tailState (e : Env) (m : Tables.Tab × ℤ → ℕ) : State :=
  { e.procState m with
    hooks := (e.statusInit e.hooksProc).2
    features := (e.featuresInit ⟨false, false⟩).2 }

/-- What is left of the load once everything else went well. -/
theorem init_tail (hr : e.Reached) (hup : e.IpcnsUp) (hslots : e.slots.Up) (hok : ¬ e.ProcFails) :
    e.init (State.fresh m) =
      if ¬ (e.hk.Installs .cnn ∧ e.hk.Installs .cn) ∧ e.hk.degrade = false then
        (-EOPNOTSUPP, e.errSlot (e.tailState m))
      else (0, e.tailState m) := by
  have hcrit := criticalMissing_tail e
  have htail : e.initTail (e.procState m) =
      if (e.tailState m).hooks.criticalMissing && !e.hk.degrade then
        (-EOPNOTSUPP, e.errSlot (e.tailState m)) else (0, e.tailState m) := by
    unfold initTail
    rw [if_pos hr.2.1]
    rfl
  have hmiss : (e.tailState m).hooks.criticalMissing =
      !decide (e.hk.Installs .cnn ∧ e.hk.Installs .cn) := hcrit
  rw [init_ipcns_up hr hup, slotInit_up hslots]
  dsimp only
  rw [if_neg (not_not.2 rfl), procInit_ok hok]
  dsimp only
  rw [if_neg (not_not.2 rfl), htail, hmiss]
  simp only [← decide_not, Bool.and_eq_true, decide_eq_true_eq, Bool.not_eq_true']

theorem eopnotsupp_ne : -EOPNOTSUPP ≠ 0 := by decide

/-- A hook that did not take, in the end. -/
theorem nsdirBack_of_not_takes (hn : ¬ e.NsdirTakes) : e.NsdirBack ↔ e.hk.Swept .nsdir := by
  obtain ⟨hw, hi⟩ := not_or.1 hn
  have hrem : ¬ e.hk.Removes .nsdir := fun h => hi h.1
  rw [NsdirBack, imp_iff_right hw, or_iff_right hrem]
  exact and_iff_right fun h => absurd h hw

/-- **A critical hook is missing.** -/
theorem init_at_critical (h : e.AtCritical) :
    (e.init (State.fresh m)).1 ≠ 0 ∧
      (Clean m (e.init (State.fresh m)).2 ↔
        e.KprobeBack ∧ e.SysctlBack ∧ e.slots.Restores m ∧ e.HooksBack ∧ ¬ e.NsdirTakes ∧
          e.hk.Swept .nsdir ∧ (e.StatusTried → e.hk.Swept .status)) := by
  obtain ⟨hr, hup, hslots, hok, hmiss⟩ := h
  rw [init_tail hr hup hslots hok, if_pos hmiss]
  refine ⟨eopnotsupp_ne, ?_⟩
  have hb : e.Behind m (e.tailState m) := ⟨rfl, rfl, rfl, rfl, featuresExit_made e⟩
  have hrefs : (e.tailState m).proc.refs = if e.NsdirTakes then 1 else 0 :=
    pidnsSysctlInit_refs _ _
  have hhooks : (e.tailState m).hooks = (e.statusInit e.hooksProc).2 := rfl
  dsimp only
  rw [clean_errSlot hb hr.2.1 hslots, hrefs, hhooks, unhooked_status]
  by_cases hn : e.NsdirTakes
  · rw [if_pos hn]
    refine iff_of_false (fun h => ?_) fun h => h.2.2.2.2.1 hn
    exact Nat.one_ne_zero h.2.2.2.2
  · rw [if_neg hn, nsdirBack_of_not_takes hn]
    refine and_congr_right fun _ => and_congr_right fun _ => and_congr_right fun _ => ?_
    rw [and_iff_left rfl]
    exact and_congr_right fun _ => (and_iff_right hn).symm

/-- The load gets past `droid_lkm_pidns_init` and does not fail. -/
theorem init_ok (hr : e.Reached) (hc : ¬ e.AtIpcns) (hs : ¬ e.AtSlots) (hp : ¬ e.AtProc)
    (hm : ¬ e.AtCritical) : (e.init (State.fresh m)).1 = 0 := by
  have hup : e.IpcnsUp := by_contra fun h => hc ⟨hr, h⟩
  have hslots : e.slots.Up := by_contra fun h => hs ⟨hr, hup, h⟩
  have hok : ¬ e.ProcFails := fun h => hp ⟨hr, hup, hslots, h⟩
  have hmiss : ¬ (¬ (e.hk.Installs .cnn ∧ e.hk.Installs .cn) ∧ e.hk.degrade = false) :=
    fun h => hm ⟨hr, hup, hslots, hok, h⟩
  rw [init_tail hr hup hslots hok, if_neg hmiss]

/-! ## Every load -/

theorem not_slots_of_ipcns (h : e.AtIpcns) : ¬ (e.AtSlots ∨ e.AtProc ∨ e.AtCritical) := by
  rintro (hs | hp | hc)
  · exact h.2 hs.2.1
  · exact h.2 hp.2.1
  · exact h.2 hc.2.1

theorem not_proc_of_slots (h : e.AtSlots) : ¬ (e.AtProc ∨ e.AtCritical) := by
  rintro (hp | hc)
  · exact h.2.2 hp.2.2.1
  · exact h.2.2 hc.2.2.1

theorem not_critical_of_proc (h : e.AtProc) : ¬ e.AtCritical := fun hc => hc.2.2.2.1 h.2.2.2

/-- **A failed load leaves nothing behind exactly when the step at which it fails
    finds all of this.** -/
theorem failed_load_unwinds (e : Env) (m : Tables.Tab × ℤ → ℕ) :
    ((e.init (State.fresh m)).1 ≠ 0 → ∀ r, ¬ InForce m (e.init (State.fresh m)).2 r) ↔
      e.Unwinds m := by
  change ((e.init (State.fresh m)).1 ≠ 0 → Clean m (e.init (State.fresh m)).2) ↔ _
  by_cases hi : e.AtIpcns
  · obtain ⟨hret, hclean⟩ := init_at_ipcns (m := m) hi
    have hno := not_slots_of_ipcns hi
    obtain ⟨-, hno'⟩ := not_or.1 hno
    rw [imp_iff_right hret, hclean]
    constructor
    · rintro ⟨hk, hp⟩
      exact ⟨fun _ => hk, fun _ => hp, fun h => absurd h hno, fun h => absurd h hno,
        fun h => absurd h hno', fun h => absurd (Or.inl h) hno', fun h => absurd (Or.inr h) hno',
        fun h => absurd (Or.inr h) hno'⟩
    · intro h
      exact ⟨h.kprobe (Or.inl hi), h.sysv hi⟩
  by_cases hs : e.AtSlots
  · obtain ⟨hret, hclean⟩ := init_at_slots (m := m) hs
    have hno := not_proc_of_slots hs
    rw [imp_iff_right hret, hclean]
    constructor
    · rintro ⟨hk, hsy, hres⟩
      exact ⟨fun _ => hk, fun h => absurd h hi, fun _ => hsy, fun _ => hres,
        fun h => absurd h hno, fun h => absurd (Or.inl h) hno, fun h => absurd (Or.inr h) hno,
        fun h => absurd (Or.inr h) hno⟩
    · intro h
      exact ⟨h.kprobe (Or.inr (Or.inl hs)), h.sysctl (Or.inl hs), h.slots (Or.inl hs)⟩
  by_cases hp : e.AtProc
  · obtain ⟨hret, hclean⟩ := init_at_proc (m := m) hp
    have hno := not_critical_of_proc hp
    rw [imp_iff_right hret, hclean]
    constructor
    · rintro ⟨hk, hsy, hres, hh, hn⟩
      exact ⟨fun _ => hk, fun h => absurd h hi, fun _ => hsy, fun _ => hres, fun _ => hh,
        fun _ => hn, fun h => absurd h hno, fun h => absurd h hno⟩
    · intro h
      have hat : e.AtProc ∨ e.AtCritical := Or.inl hp
      exact ⟨h.kprobe (Or.inr (Or.inr hat)), h.sysctl (Or.inr hat), h.slots (Or.inr hat),
        h.hooks hat, h.nsdir hp⟩
  by_cases hc : e.AtCritical
  · obtain ⟨hret, hclean⟩ := init_at_critical (m := m) hc
    rw [imp_iff_right hret, hclean]
    constructor
    · rintro ⟨hk, hsy, hres, hh, hn, hw⟩
      exact ⟨fun _ => hk, fun h => absurd h hi, fun _ => hsy, fun _ => hres, fun _ => hh,
        fun h => absurd h hp, fun _ => hn, fun _ => hw⟩
    · intro h
      have hat : e.AtProc ∨ e.AtCritical := Or.inr hc
      exact ⟨h.kprobe (Or.inr (Or.inr hat)), h.sysctl (Or.inr hat), h.slots (Or.inr hat),
        h.hooks hat, h.pinned hc, h.critical hc⟩
  · have hno' : ¬ (e.AtProc ∨ e.AtCritical) := not_or.2 ⟨hp, hc⟩
    have hno : ¬ (e.AtSlots ∨ e.AtProc ∨ e.AtCritical) := not_or.2 ⟨hs, hno'⟩
    refine iff_of_true (fun hret => ?_) ⟨fun h => absurd h (not_or.2 ⟨hi, hno⟩),
      fun h => absurd h hi, fun h => absurd h hno, fun h => absurd h hno, fun h => absurd h hno',
      fun h => absurd h hp, fun h => absurd h hc, fun h => absurd h hc⟩
    by_cases hr : e.Reached
    · exact absurd (init_ok hr hi hs hp hc) hret
    · exact init_not_reached hr hret

end Env

/-- Everything works. -/
def working : Env where
  compatInit := 0
  ksymInit := 0
  capsInit := 0
  munmapInit := 0
  hkInit := 0
  trusted := true
  procFs := true
  perNs := true
  pidnsCache := true
  pidnsOps := true
  zapThread := 0
  skipDoExit := false
  registerKprobe := some 0
  unregisterKprobe := true
  sysvCreate := fun _ => true
  ipcnsOps := true
  initNsproxy := true
  sysctlHelpers := true
  sysctlFields := fun _ => true
  sysctlDup := fun _ => true
  sysctlHeader := fun _ => true
  registerSysctl := true
  unregisterSysctlTable := true
  mqueueShimInit := 0
  mqueueCache := true
  registerFilesystem := 0
  mqInitNs := 0
  slots :=
    { found := fun _ => true
      compat := true
      compat32BitTime := true
      skipSysvipc := false
      caps := ⟨⟨.lkm, ""⟩, ⟨.lkm, ""⟩, ⟨.lkm, ""⟩⟩
      mqueueReady := true
      scInit := 0
      fn := fun _ => 8
      safeRead := fun _ => true
      patchErr := fun _ => 0
      unpatchErr := fun _ => 0 }
  hk :=
    { mode := 0
      degrade := false
      redirInstall := fun _ => 0
      vcInstall := fun _ => 0
      vcRoute := fun _ => .text
      vcHandle := fun _ => true
      redirRemove := fun _ => 0
      vcExit := fun _ => true
      hkExit := fun _ => true
      fieldWrite := 0
      fieldRestore := 0 }
  procSyms := true
  nsOpsHostInit := 0
  hostOps := true
  stealNsLinkIops := 0
  origNsLookup := true
  tryModuleGet := true
  nsLastPidThere := false
  statusEnable := true
  statusHelpers := true
  statusLayout := true
  featuresDir := true
  featuresFile := true

/-- There is no memory for the neutral operations. -/
def noIpcnsOps : Env := { working with ipcnsOps := false }

/-- No route takes the hook on `copy_namespaces`. -/
def noRouteForCn : Env :=
  { working with hk := { working.hk with vcInstall := fun h => if h = .cn then -ENODATA else 0 } }

/-- A failed load leaves `/proc/sysvipc`, and a refused one the reference to the module. -/
theorem failed_load_leaves :
    ((noIpcnsOps.init (State.fresh fun _ => 7)).1 ≠ 0 ∧
      InForce (fun _ => 7) (noIpcnsOps.init (State.fresh fun _ => 7)).2 (.sysv .dir)) ∧
    (noRouteForCn.init (State.fresh fun _ => 7)).1 ≠ 0 ∧
      InForce (fun _ => 7) (noRouteForCn.init (State.fresh fun _ => 7)).2 .moduleRef := by
  have hruns : ((noIpcnsOps.init (State.fresh fun _ => 7)).1 = -ENOMEM ∧
      (noIpcnsOps.init (State.fresh fun _ => 7)).2.ipcns.proc .dir = true) ∧
      (noRouteForCn.init (State.fresh fun _ => 7)).1 = -EOPNOTSUPP ∧
      (noRouteForCn.init (State.fresh fun _ => 7)).2.proc.refs = 1 := by decide +kernel
  obtain ⟨⟨hops, hdir⟩, hroute, hrefs⟩ := hruns
  refine ⟨⟨?_, hdir⟩, ?_, ?_⟩
  · rw [hops]
    exact Env.enomem_ne
  · rw [hroute]
    exact Env.eopnotsupp_ne
  · rw [InForce, hrefs]
    exact Nat.one_pos

end DroidLkm.Load
