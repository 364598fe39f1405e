/-
  Anchored layouts, and where the members really are.

  * `Running`: the memory of a running kernel whose structs have the field
    orders of the kernels that are supported, and in which each marker is in its
    window once, at its member;
  * `anchorTask_real`, …: what a stage verifies is where it was found;
  * `anchors_sound`: every verified offset is right if and only if the idr is
    where the constant says, that is before 5.11, or the stage of the pid
    namespace is not reached.
-/
import DroidLkm.Layout.PidNs

namespace DroidLkm.Layout

open Image

namespace Env

variable {e : Env} {b : Build} {real : FieldId → ℕ} {f : FieldId} {off n : ℕ}

/-- The pointer is in the window once, at this offset. -/
def OnlyPtr (e : Env) (base win want off : ℕ) : Prop :=
  8 ∣ off ∧ off / 8 < win / 8 ∧ e.rd64 (base + off) = some want ∧
    ∀ q, 8 ∣ q → q / 8 < win / 8 → e.rd64 (base + q) = some want → q = off

/-- And so is the number. -/
def OnlyU32 (e : Env) (base win want off : ℕ) : Prop :=
  4 ∣ off ∧ off / 4 < win / 4 ∧ e.rd32 (base + off) = some want ∧
    ∀ q, 4 ∣ q → q / 4 < win / 4 → e.rd32 (base + q) = some want → q = off

/-- The two numbers are in the window once, one behind the other, the second at
    this offset. -/
def OnlyPair (e : Env) (base win first second off : ℕ) : Prop :=
  4 ∣ off ∧ 4 ≤ off ∧ off / 4 < win / 4 ∧ e.rd32 (base + (off - 4)) = some first ∧
    e.rd32 (base + off) = some second ∧
      ∀ q, 4 ∣ q → q / 4 < win / 4 - 1 → e.rd32 (base + q) = some first →
        e.rd32 (base + q + 4) = some second → q + 4 = off

/-- A pointer to a task with this pid is in the window once, at this offset. -/
def OnlyTask (e : Env) (base win pidOff commOff pid off : ℕ) : Prop :=
  8 ∣ off ∧ off / 8 < win / 8 ∧
    (e.rd64 (base + off)).any (e.isTask pidOff commOff pid (off / 8)) = true ∧
    ∀ q, 8 ∣ q → q / 8 < win / 8 →
      (e.rd64 (base + q)).any (e.isTask pidOff commOff pid (q / 8)) = true → q = off

theorem findU32Pair_eq {base win first second : ℕ} :
    e.findU32Pair base win first second = some off ↔ e.OnlyPair base win first second off := by
  unfold findU32Pair OnlyPair
  rw [Option.map_eq_some_iff]
  simp only [scan_eq_some, pairHit, Bool.and_eq_true, beq_iff_eq]
  constructor
  · rintro ⟨j, ⟨hj, ⟨hfst, hsnd⟩, huniq⟩, rfl⟩
    refine ⟨by omega, by omega, by omega, ?_, ?_, ?_⟩
    · rw [Nat.add_sub_cancel]
      exact hfst
    · rw [← Nat.add_assoc]
      exact hsnd
    · rintro q ⟨a, rfl⟩ hlt h₁ h₂
      rw [huniq a (by omega) ⟨h₁, h₂⟩]
  · rintro ⟨⟨j, rfl⟩, hle, hlt, hfst, hsnd, huniq⟩
    obtain ⟨j, rfl⟩ : ∃ i, j = i + 1 := ⟨j - 1, by omega⟩
    have hsub : 4 * (j + 1) - 4 = 4 * j := by omega
    rw [hsub] at hfst
    refine ⟨j, ⟨by omega, ⟨hfst, ?_⟩, ?_⟩, by omega⟩
    · rw [Nat.add_assoc]
      exact hsnd
    · rintro q hq ⟨h₁, h₂⟩
      have := huniq (4 * q) (Nat.dvd_mul_right 4 q) (by omega) h₁ h₂
      omega

/-- Where both symbols are there, the second is pointed to in the window of the first once. -/
def PointsOnce (e : Env) (base win want off : ℕ) : Prop :=
  base ≠ 0 → want ≠ 0 → e.OnlyPtr base win want off

/-- The reader of task structs has found the credentials, or it has not, and then they are not
    in front either. -/
def CredAt (e : Env) (off real : ℕ) : Prop :=
  off = real ∨ off = 0 ∧ (e.syms.initCred ≠ 0 → e.rd64 e.syms.initTask ≠ some e.syms.initCred)

/-- What is at the address of the first pid namespace. -/
structure FirstPidNs (e : Env) (b : Build) (real : FieldId → ℕ) : Prop where
  reaper : e.OnlyTask e.syms.initPidNs DS_ANCHOR_PIDNS_WIN (real .taskPid) (real .taskComm) 1
    (real .pidNsChildReaper)
  inum : e.OnlyU32 e.syms.initPidNs DS_ANCHOR_PIDNS_WIN PROC_PID_INIT_INO
    (real .pidNsNs + b.offsetofInum)
  levelZero : e.rd32 (e.syms.initPidNs + real .pidNsLevel) = some 0
  parentNull : e.rd64 (e.syms.initPidNs + real .pidNsParent) = some 0
  adding : (e.rd32 (e.syms.initPidNs + real .pidNsPidAllocated)).any (PIDNS_ADDING ≤ ·) = true
  ucountsNull : e.rd64 (e.syms.initPidNs + real .pidNsUcounts) = some 0
  rebootZero : e.rd32 (e.syms.initPidNs + real .pidNsReboot) = some 0

/-- The memory of a running kernel, whose members are at the offsets `real`. -/
structure Running (e : Env) (b : Build) (real : FieldId → ℕ) : Prop where
  /-- the reader of task structs finds the members, as far as it does -/
  boot : ∀ offs, e.boot = some offs → offs.comm ≠ 0 → offs.pid ≠ 0 →
    offs.comm = real .taskComm ∧ offs.pid = real .taskPid ∧
      e.CredAt offs.realCred (real .taskRealCred) ∧ e.CredAt offs.cred (real .taskCred) ∧
        (offs.tasks ≠ 0 → offs.tasks = real .taskTasks) ∧ (offs.mm ≠ 0 → offs.mm = real .taskMm)
  tgid : real .taskTgid = real .taskPid + 4
  nsproxy :
    e.PointsOnce e.syms.initTask DS_ANCHOR_TASK_WIN e.syms.initNsproxy (real .taskNsproxy)
  threadPid :
    e.PointsOnce e.syms.initTask DS_ANCHOR_TASK_WIN e.syms.initStructPid (real .taskThreadPid)
  fs : e.PointsOnce e.syms.initTask DS_ANCHOR_TASK_WIN e.syms.initFs (real .taskFs)
  signal : e.PointsOnce e.syms.initTask DS_ANCHOR_TASK_WIN e.syms.initSignals (real .taskSignal)
  sighand : e.PointsOnce e.syms.initTask DS_ANCHOR_TASK_WIN e.syms.initSighand (real .taskSighand)
  flags : e.syms.initTask ≠ 0 →
    e.OnlyU32 e.syms.initTask DS_ANCHOR_TASK_WIN (PF_KTHREAD ||| PF_IDLE) (real .taskFlags)
  /-- `uts_ns`, `ipc_ns`, `mnt_ns`, `pid_ns_for_children`, `net_ns` -/
  utsNs : e.PointsOnce e.syms.initNsproxy DS_ANCHOR_NS_WIN e.syms.initUtsNs (real .nsproxyUtsNs)
  ipcNs : real .nsproxyIpcNs = real .nsproxyUtsNs + 8
  mntNs : real .nsproxyMntNs = real .nsproxyUtsNs + 16
  pidNsForChildren : real .nsproxyPidNsForChildren = real .nsproxyUtsNs + 24
  netNs : real .nsproxyNetNs = real .nsproxyUtsNs + 32
  /-- a number and its namespace, at the end of a pid -/
  upidNr : real .upidNr = 0
  upidNs : real .upidNs = 8
  numbers : e.PointsOnce e.syms.initStructPid DS_ANCHOR_PID_WIN e.syms.initPidNs
    (real .pidNumbers + 8)
  level : e.syms.initStructPid ≠ 0 →
    e.OnlyPair e.syms.initStructPid DS_ANCHOR_PID_WIN 1 0 (real .pidLevel)
  /-- behind a count of its own until 5.11, in front since -/
  idr : real .pidNsIdr = if b.versionCode < KERNEL_VERSION 5 11 0 then 8 else 0
  /-- `pid_allocated`, `child_reaper`, `pid_cachep`, `level`, `parent` -/
  allocated : real .pidNsPidAllocated + 8 = real .pidNsChildReaper
  cachep : real .pidNsPidCachep = real .pidNsChildReaper + 8
  nsLevel : real .pidNsLevel = real .pidNsChildReaper + 16
  parent : real .pidNsParent = real .pidNsLevel + 8
  /-- `user_ns`, `ucounts`, `reboot` -/
  ucounts : real .pidNsUcounts = real .pidNsUserNs + 8
  reboot : real .pidNsReboot = real .pidNsUserNs + 16
  userNs : e.PointsOnce e.syms.initPidNs DS_ANCHOR_PIDNS_WIN e.syms.initUserNs (real .pidNsUserNs)
  first : e.syms.initPidNs ≠ 0 → e.FirstPidNs b real

/-- The symbols are there, the reader has found a task, and nothing is refused
    for a test. -/
def Reaches (e : Env) : Prop :=
  e.fault = false ∧ e.syms.initTask ≠ 0 ∧ e.syms.initNsproxy ≠ 0 ∧ e.syms.initCred ≠ 0 ∧
    e.syms.initStructPid ≠ 0 ∧ e.syms.initUserNs ≠ 0 ∧ e.syms.initPidNs ≠ 0 ∧
      ∃ offs, e.boot = some offs ∧ offs.comm ≠ 0 ∧ offs.pid ≠ 0

/-! ## Stages -/

theorem taskOffs_eq {offs : TaskOffs} (h : e.taskOffs = some offs) :
    e.boot = some offs ∧ offs.comm ≠ 0 ∧ offs.pid ≠ 0 ∧ e.fault = false ∧ e.syms.initTask ≠ 0 ∧
      e.syms.initNsproxy ≠ 0 ∧ e.syms.initCred ≠ 0 ∧ e.syms.initStructPid ≠ 0 := by
  unfold taskOffs at h
  split at h
  · cases h
  next hne =>
  simp only [not_or, Bool.not_eq_true] at hne
  rw [Option.filter_eq_some_iff] at h
  obtain ⟨hboot, hoffs⟩ := h
  rw [decide_eq_true_eq] at hoffs
  exact ⟨hboot, hoffs.1, hoffs.2, hne.2.2.2.2, hne.1, hne.2.1, hne.2.2.1, hne.2.2.2.1⟩

theorem taskOffs_some {offs : TaskOffs} (hboot : e.boot = some offs) (hcomm : offs.comm ≠ 0)
    (hpid : offs.pid ≠ 0) (h : e.Reaches) : e.taskOffs = some offs := by
  obtain ⟨hfault, htask, hns, hcred, hsp, -⟩ := h
  unfold taskOffs
  rw [if_neg (by simp [hfault, htask, hns, hcred, hsp]), hboot, Option.filter_eq_some_iff]
  exact ⟨rfl, by simp [hcomm, hpid]⟩

/-- A pointer of the first task that was found. -/
theorem taskPtr_real {sym : ℕ} (htask : e.syms.initTask ≠ 0)
    (hreal : e.PointsOnce e.syms.initTask DS_ANCHOR_TASK_WIN sym (real f))
    (hoff : e.taskPtr sym = some off) : off = real f := by
  unfold taskPtr at hoff
  split at hoff
  · cases hoff
  next hne =>
  rw [findPtr_eq.2 (hreal htask hne)] at hoff
  exact (Option.some.inj hoff).symm

/-- The credentials that the stage has checked are where it says. -/
theorem CredAt.found (h : e.CredAt off n) (hcred : e.syms.initCred ≠ 0)
    (hrd : e.rd64 (e.syms.initTask + off) = some e.syms.initCred) : off = n := by
  rcases h with rfl | ⟨rfl, hfront⟩
  · rfl
  · exact absurd hrd (hfront hcred)

namespace Running

variable (h : e.Running b real)

include h

theorem anchorTask_real (hmem : (f, off) ∈ e.anchorTask.getD []) : off = real f := by
  cases hres : e.anchorTask with
  | none =>
    rw [hres] at hmem
    cases hmem
  | some found =>
    rw [hres] at hmem
    unfold anchorTask at hres
    obtain ⟨offs, hoffs, hres⟩ := Option.bind_eq_some_iff.1 hres
    split at hres
    · cases hres
    next hchecks =>
    obtain rfl := Option.some.inj hres
    obtain ⟨hboot, hcomm, hpid, -, htask, hns, hcred, hsp⟩ := taskOffs_eq hoffs
    obtain ⟨rcomm, rpid, rrc, rcred, rtasks, rmm⟩ := h.boot offs hboot hcomm hpid
    simp only [taskChecks, Bool.not_eq_true, Bool.not_eq_false', Bool.and_eq_true,
      beq_iff_eq] at hchecks
    rw [findPtr_eq.2 (h.nsproxy htask hns), findPtr_eq.2 (h.threadPid htask hsp),
      findU32_eq.2 (h.flags htask)] at hmem
    simp only [Option.getD_some, List.mem_append, List.mem_cons, List.not_mem_nil, or_false] at hmem
    rcases hmem with ((((((((hm | hm) | hm) | hm) | hm) | hm) | hm) | hm) | hm)
    · rcases hm with hm | hm | hm | hm | hm <;> cases hm
      · exact rcomm
      · exact rpid
      · rw [h.tgid, rpid]
      · exact rrc.found hcred hchecks.1.2
      · exact rcred.found hcred hchecks.2
    · cases (mem_unlessZero hm).1
      rfl
    · cases (mem_unlessZero hm).1
      rfl
    · obtain ⟨heq, hne⟩ := mem_unlessZero hm
      cases heq
      exact rtasks hne
    · obtain ⟨heq, hne⟩ := mem_unlessZero hm
      cases heq
      exact rmm hne
    · obtain ⟨rfl, hoff⟩ := mem_ifFound hm
      exact taskPtr_real htask h.fs hoff
    · obtain ⟨rfl, hoff⟩ := mem_ifFound hm
      exact taskPtr_real htask h.signal hoff
    · obtain ⟨rfl, hoff⟩ := mem_ifFound hm
      exact taskPtr_real htask h.sighand hoff
    · obtain ⟨rfl, hoff⟩ := mem_ifFound hm
      exact (Option.some.inj hoff).symm

theorem anchorNsproxy_real (hmem : (f, off) ∈ e.anchorNsproxy.getD []) : off = real f := by
  unfold anchorNsproxy at hmem
  split at hmem
  · cases hmem
  next hne =>
  rw [not_or, not_or] at hne
  rw [findPtr_eq.2 (h.utsNs hne.1 hne.2.1)] at hmem
  split at hmem
  · next uts net pid huts hnet hpid =>
    obtain rfl := Option.some.inj huts
    split at hmem
    · cases hmem
    split at hmem
    · cases hmem
    simp only [Option.getD_some, List.mem_cons, List.not_mem_nil, or_false] at hmem
    rcases hmem with hm | hm | hm | hm | hm <;> cases hm
    · rfl
    · exact h.ipcNs.symm
    · exact h.mntNs.symm
    · exact h.pidNsForChildren.symm
    · exact h.netNs.symm
  · cases hmem

theorem anchorPid_real (hmem : (f, off) ∈ e.anchorPid.getD []) : off = real f := by
  unfold anchorPid at hmem
  split at hmem
  · cases hmem
  next hne =>
  rw [not_or, not_or] at hne
  rw [findPtr_eq.2 (h.numbers hne.1 hne.2.1), findU32Pair_eq.2 (h.level hne.1)] at hmem
  dsimp only at hmem
  split at hmem
  · cases hmem
  split at hmem
  · cases hmem
  simp only [Option.getD_some, List.mem_append, List.mem_cons, List.not_mem_nil, or_false] at hmem
  rcases hmem with (hm | hm | hm) | hm
  · cases hm
    exact h.upidNr.symm
  · cases hm
    exact h.upidNs.symm
  · cases hm
    exact Nat.add_sub_cancel ..
  · obtain ⟨rfl, hoff⟩ := mem_ifFound hm
    exact (Option.some.inj hoff).symm

/-- The offset of `pid_allocated` has not wrapped. -/
theorem allocated_eq (hpidns : e.syms.initPidNs ≠ 0) :
    (real .pidNsChildReaper + 2 ^ 32 - 8) % 2 ^ 32 = real .pidNsPidAllocated := by
  have hall := h.allocated
  have hlt := (h.first hpidns).reaper.2.1
  simp only [DS_ANCHOR_PIDNS_WIN] at hlt
  omega

theorem pidnsMarkers_real {offs : TaskOffs} (hoffs : e.taskOffs = some offs)
    (huser : e.syms.initUserNs ≠ 0) (hpidns : e.syms.initPidNs ≠ 0) :
    e.pidnsMarkers offs =
      some (real .pidNsUserNs, real .pidNsChildReaper, real .pidNsNs + b.offsetofInum) := by
  obtain ⟨hboot, hcomm, hpid, -⟩ := taskOffs_eq hoffs
  obtain ⟨rcomm, rpid, -⟩ := h.boot offs hboot hcomm hpid
  have hfirst := h.first hpidns
  unfold pidnsMarkers
  rw [findPtr_eq.2 (h.userNs hpidns huser), rcomm, rpid, findTask_eq.2 hfirst.reaper,
    findU32_eq.2 hfirst.inum]

theorem pidnsChecks_real (hpidns : e.syms.initPidNs ≠ 0) :
    e.pidnsChecks (real .pidNsUserNs) (real .pidNsChildReaper) = true := by
  obtain ⟨-, -, hlevel, hparent, hadding, hucounts, hreboot⟩ := h.first hpidns
  rw [h.parent] at hparent
  rw [h.nsLevel] at hlevel hparent
  rw [h.ucounts] at hucounts
  rw [h.reboot] at hreboot
  unfold pidnsChecks
  rw [h.allocated_eq hpidns, hlevel, hparent, hadding, hucounts, hreboot]
  rfl

/-- Where it is reached, the last stage finds the members at their markers. -/
theorem anchorPidns_real (hr : e.Reaches) : e.anchorPidns b = some
    (pidnsFound (real .pidNsUserNs) (real .pidNsChildReaper) (real .pidNsNs),
      real .pidNsNs + b.sizeofNsCommon) := by
  obtain ⟨hfault, -, -, -, -, huser, hpidns, offs, hboot, hcomm, hpid⟩ := id hr
  have hoffs := taskOffs_some hboot hcomm hpid hr
  unfold anchorPidns
  rw [if_neg (by simp [hfault, huser, hpidns]), hoffs, Option.bind_some,
    h.pidnsMarkers_real hoffs huser hpidns, Option.bind_some]
  dsimp only
  rw [if_neg (by omega), h.pidnsChecks_real hpidns, Nat.add_sub_cancel]
  rfl

theorem pidnsFound_real (hpidns : e.syms.initPidNs ≠ 0) (hmem : (f, off) ∈
    pidnsFound (real .pidNsUserNs) (real .pidNsChildReaper) (real .pidNsNs)) :
    off = real f ∨ f = .pidNsIdr ∧ off = 8 := by
  unfold pidnsFound at hmem
  rw [h.allocated_eq hpidns] at hmem
  simp only [List.mem_cons, List.not_mem_nil, or_false] at hmem
  rcases hmem with hm | hm | hm | hm | hm | hm | hm | hm | hm | hm <;> cases hm
  · exact Or.inr ⟨rfl, rfl⟩
  · exact Or.inl rfl
  · exact Or.inl rfl
  · exact Or.inl h.cachep.symm
  · exact Or.inl rfl
  · exact Or.inl h.nsLevel.symm
  · exact Or.inl (by rw [h.parent, h.nsLevel])
  · exact Or.inl rfl
  · exact Or.inl h.ucounts.symm
  · exact Or.inl h.reboot.symm

end Running

/-- The last stage is reached where it verifies anything. -/
theorem reaches_of_anchorPidns {x : List (FieldId × ℕ) × ℕ} (h : e.anchorPidns b = some x) :
    e.Reaches := by
  unfold anchorPidns at h
  split at h
  · cases h
  next hne =>
  simp only [not_or, Bool.not_eq_true] at hne
  obtain ⟨offs, hoffs, -⟩ := Option.bind_eq_some_iff.1 h
  obtain ⟨hboot, hcomm, hpid, hfault, htask, hns, hcred, hsp⟩ := taskOffs_eq hoffs
  exact ⟨hfault, htask, hns, hcred, hsp, hne.2.1, hne.2.2, offs, hboot, hcomm, hpid⟩

/-- What was found is where the member is, but for the idr. -/
theorem Running.found_real (h : e.Running b real) (hmem : (f, off) ∈ e.found b) :
    off = real f ∨ e.Reaches ∧ f = .pidNsIdr ∧ off = 8 := by
  unfold found at hmem
  rw [List.mem_append, List.mem_append, List.mem_append] at hmem
  rcases hmem with ((hm | hm) | hm) | hm
  · exact Or.inl (h.anchorTask_real hm)
  · exact Or.inl (h.anchorNsproxy_real hm)
  · exact Or.inl (h.anchorPid_real hm)
  · cases hres : e.anchorPidns b with
    | none =>
      rw [hres] at hm
      cases hm
    | some x =>
      have hr := reaches_of_anchorPidns hres
      rw [h.anchorPidns_real hr] at hm
      rcases h.pidnsFound_real hr.2.2.2.2.2.2.1 hm with hoff | hidr
      · exact Or.inl hoff
      · exact Or.inr ⟨hr, hidr⟩

/-- Where it is reached, the last stage verifies the idr at its constant. -/
theorem Running.idr_verified (h : e.Running b real) (hr : e.Reaches) :
    (e.layoutAnchor b layoutUnverified).fields .pidNsIdr = ⟨8, .verified⟩ := by
  have hpidns := h.anchorPidns_real hr
  have hmem : FieldId.pidNsIdr ∈ (e.found b).map (·.1) := by
    unfold found
    rw [hpidns]
    simp [pidnsFound]
  have hver := verified_of_found hmem
  obtain ⟨found, size, hres, hidr⟩ :=
    mem_found_pidns (mem_found (b := b) (f := .pidNsIdr) (by rw [hver]; rfl)) rfl
  rw [hpidns] at hres
  cases hres
  have hlive : ((e.layoutAnchor b layoutUnverified).fields .pidNsIdr).live = 8 := by
    simpa [pidnsFound] using hidr
  cases hrow : (e.layoutAnchor b layoutUnverified).fields .pidNsIdr with
  | mk live state =>
    rw [hrow] at hver hlive
    rw [show live = 8 from hlive, show state = .verified from hver]

/-- **In a running kernel every offset that the anchors verify is right, if and
    only if the kernel is older than 5.11 or the last stage is not reached.** -/
theorem anchors_sound (h : e.Running b real) :
    (∀ f, ((e.layoutAnchor b layoutUnverified).fields f).state = .verified →
      ((e.layoutAnchor b layoutUnverified).fields f).live = real f) ↔
        b.versionCode < KERNEL_VERSION 5 11 0 ∨ ¬e.Reaches := by
  constructor
  · intro hall
    by_contra hnot
    rw [not_or, not_not] at hnot
    have hidr := h.idr_verified hnot.2
    have hlive := hall .pidNsIdr (by rw [hidr])
    rw [hidr, h.idr, if_neg hnot.1] at hlive
    cases hlive
  · intro hcond f hver
    rcases h.found_real (mem_found (b := b) (f := f) (by rw [hver]; rfl)) with
      hoff | ⟨hr, rfl, hoff⟩
    · exact hoff
    · rw [hoff, h.idr, if_pos (hcond.resolve_right (not_not_intro hr))]

end Env

/-! ## Kernels of two versions -/

/-- Where the members are in the kernels above: the idr, and from `a`, `u` and
    `n` on what is around the reaper, the user namespace and `ns`. -/
def realOf (idr a u n : ℕ) : FieldId → ℕ
  | .taskComm => 112
  | .taskPid => 80
  | .taskTgid => 84
  | .taskRealCred => 96
  | .taskCred => 104
  | .taskTasks => 64
  | .taskMm => 72
  | .taskNsproxy => 128
  | .taskThreadPid => 152
  | .taskFs => 120
  | .taskSignal => 136
  | .taskSighand => 144
  | .taskFlags => 40
  | .nsproxyUtsNs => 8
  | .nsproxyIpcNs => 16
  | .nsproxyMntNs => 24
  | .nsproxyPidNsForChildren => 32
  | .nsproxyNetNs => 40
  | .upidNs => 8
  | .pidNumbers => 96
  | .pidLevel => 4
  | .pidNsIdr => idr
  | .pidNsPidAllocated => a
  | .pidNsChildReaper => a + 8
  | .pidNsPidCachep => a + 16
  | .pidNsLevel => a + 24
  | .pidNsParent => a + 32
  | .pidNsUserNs => u
  | .pidNsUcounts => u + 8
  | .pidNsReboot => u + 16
  | .pidNsNs => n
  | _ => 0

/-- What the scans outside of the first task find. -/
def scansOk (p : ℕ → ℕ) (a u n : ℕ) : Bool :=
  let e := kernel p
  e.findPtr 0x20000 DS_ANCHOR_NS_WIN 0x70000 == some 8 &&
    e.findPtr 0x30000 DS_ANCHOR_PID_WIN 0x40000 == some (96 + 8) &&
    e.findU32Pair 0x30000 DS_ANCHOR_PID_WIN 1 0 == some 4 &&
    e.findPtr 0x40000 DS_ANCHOR_PIDNS_WIN 0x60000 == some u &&
    e.findTask 0x40000 DS_ANCHOR_PIDNS_WIN 80 112 1 == some (a + 8) &&
    e.findU32 0x40000 DS_ANCHOR_PIDNS_WIN PROC_PID_INIT_INO == some (n + 16)

/-- And that the first pid namespace is as it is made. -/
def valuesOk (p : ℕ → ℕ) (a u : ℕ) : Bool :=
  let e := kernel p
  e.rd32 (0x40000 + (a + 24)) == some 0 && e.rd64 (0x40000 + (a + 32)) == some 0 &&
    (e.rd32 (0x40000 + a)).any (PIDNS_ADDING ≤ ·) && e.rd64 (0x40000 + (u + 8)) == some 0 &&
    e.rd32 (0x40000 + (u + 16)) == some 0

theorem running_kernel {p : ℕ → ℕ} {b : Build} {i a u n : ℕ} (hb : b.offsetofInum = 16)
    (hi : i = if b.versionCode < KERNEL_VERSION 5 11 0 then 8 else 0)
    (hscans : scansOk p a u n = true) (hvalues : valuesOk p a u = true) :
    (kernel p).Running b (realOf i a u n) := by
  simp only [scansOk, valuesOk, Bool.and_eq_true, beq_iff_eq] at hscans hvalues
  obtain ⟨⟨⟨⟨⟨huts, hnum⟩, hlevel⟩, huser⟩, hreaper⟩, hinum⟩ := hscans
  obtain ⟨⟨⟨⟨hzero, hnull⟩, hadding⟩, hucounts⟩, hreboot⟩ := hvalues
  exact {
    boot := by
      rintro offs hoffs - -
      cases hoffs
      exact ⟨rfl, rfl, .inl rfl, .inl rfl, fun _ => rfl, fun _ => rfl⟩
    tgid := rfl
    nsproxy := fun _ _ => Env.findPtr_eq.1 (kernel_nsproxy p)
    threadPid := fun _ _ => Env.findPtr_eq.1 (kernel_threadPid p)
    fs := fun _ _ => Env.findPtr_eq.1 (kernel_fs p)
    signal := fun _ _ => Env.findPtr_eq.1 (kernel_signal p)
    sighand := fun _ _ => Env.findPtr_eq.1 (kernel_sighand p)
    flags := fun _ => Env.findU32_eq.1 (kernel_flags p)
    utsNs := fun _ _ => Env.findPtr_eq.1 huts
    ipcNs := rfl
    mntNs := rfl
    pidNsForChildren := rfl
    netNs := rfl
    upidNr := rfl
    upidNs := rfl
    numbers := fun _ _ => Env.findPtr_eq.1 hnum
    level := fun _ => Env.findU32Pair_eq.1 hlevel
    idr := hi
    allocated := rfl
    cachep := rfl
    nsLevel := rfl
    parent := rfl
    ucounts := rfl
    reboot := rfl
    userNs := fun _ _ => Env.findPtr_eq.1 huser
    first := fun _ => {
      reaper := Env.findTask_eq.1 hreaper
      inum := by
        rw [hb]
        exact Env.findU32_eq.1 hinum
      levelZero := hzero
      parentNull := hnull
      adding := hadding
      ucountsNull := hucounts
      rebootZero := hreboot } }

/-- The first pid namespace from 5.11 on, with the idr in front. -/
def pidns515 : ℕ → ℕ
  | 5 => PIDNS_ADDING + 5
  | 6 => 0xC0000
  | 7 => 0xF0000
  | 10 => 0x60000
  | 14 => 0xF8000
  | 15 => PROC_PID_INIT_INO
  | _ => 0

theorem reaches_kernel (p : ℕ → ℕ) : (kernel p).Reaches := by
  simp [Env.Reaches, kernel]

/-- A build for 5.10. -/
def b510 : Build := { inRow with versionCode := KERNEL_VERSION 5 10 0 }

theorem scans_kernels : (scansOk pidns510 48 88 112 = true ∧ valuesOk pidns510 48 88 = true) ∧
    scansOk pidns515 40 80 104 = true ∧ valuesOk pidns515 40 80 = true := by
  decide +kernel

/-- In 5.10 the idr is where it is verified. -/
theorem anchors_sound_510 : ((kernel pidns510).layoutAnchor b510 layoutUnverified).fields .pidNsIdr =
    ⟨realOf 8 48 88 112 .pidNsIdr, .verified⟩ := by
  have hrun : (kernel pidns510).Running b510 (realOf 8 48 88 112) :=
    running_kernel rfl rfl scans_kernels.1.1 scans_kernels.1.2
  have hidr := hrun.idr_verified (reaches_kernel pidns510)
  have hlive := (Env.anchors_sound hrun).2 (Or.inl (by decide)) .pidNsIdr (by rw [hidr])
  rw [← hlive, hidr]

/-- From 5.11 on it is verified behind a count that is not there. -/
theorem idr_misplaced : ¬∀ (e : Env) (b : Build) (real : FieldId → ℕ), e.Running b real →
    ∀ f, ((e.layoutAnchor b layoutUnverified).fields f).state = .verified →
      ((e.layoutAnchor b layoutUnverified).fields f).live = real f := by
  intro h
  have hrun : (kernel pidns515).Running inRow (realOf 0 40 80 104) :=
    running_kernel rfl rfl scans_kernels.2.1 scans_kernels.2.2
  have hidr := hrun.idr_verified (reaches_kernel pidns515)
  have hlive := h (kernel pidns515) inRow _ hrun .pidNsIdr (by rw [hidr])
  rw [hidr] at hlive
  cases hlive

end DroidLkm.Layout
