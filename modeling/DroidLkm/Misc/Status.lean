/-
  What the status file says of the load.

  * `Env.reports`: what `droid_lkm_misc_init` and what it calls report, in that order;
  * `step`: a release of devtmpfs, or a report that is not about a feature;
  * `Truthful`: a feature is said to be ready if and only if it is in force;
  * `status_truthful`: so it is after every run, and the file says all that was last reported.
-/
import DroidLkm.Misc.Load
import DroidLkm.Misc.Report
import Mathlib.Data.List.Perm.Subperm

namespace DroidLkm.Misc.Load

/-! ## The reports -/

def bytes (s : String) : Str := s.toList.map fun c => UInt8.ofNat c.toNat

def told (name state detail : String) : Report :=
  ⟨bytes name, bytes state, some (bytes detail)⟩

/-- What the reports of a load say beside what the load depends on: the first symbol that is
    missing of devtmpfs and of the id maps, the nodes and the live user namespaces. -/
structure Values where
  devtmpfsMissing : String
  idMapMissing : String
  nodes : ℕ
  live : ℕ

/-- What the sample run reports at its end, with the checks that have failed if it could be
    started, and `droid_lkm_userns_mnt_own` once it has searched for the field. -/
inductive Side
  | selftest (failed : Option ℕ)
  | mountOwner (found : Bool)

def Side.report : Side → Report
  | .selftest none => told "userns selftest" "unsupported" "a symbol for the sample is missing"
  | .selftest (some 0) => told "userns selftest" "ready" "3 layers, no failures"
  | .selftest (some (n + 1)) =>
    told "userns selftest" "failed" (toString (n + 1) ++ " checks failed")
  | .mountOwner true => told "userns mount owner" "ready" "field found and verified"
  | .mountOwner false =>
    told "userns mount owner" "unsupported" "field not found, mounts in the namespace will fail"

namespace Env

variable (e : Env) (v : Values)

/-- Why `droid_lkm_misc_proc_init` fails, if it does. -/
def procWhy : String :=
  if e.procResolve ≠ 0 then "procfs symbols not found"
  else if !e.procMkdir then "mkdir failed"
  else "create failed"

/-- In `droid_lkm_misc_proc_init`; `klnum_val` is not 0 by then. -/
def procReports : List Report :=
  [told "module" "ready" "droid_lkm_misc abi 1", told "kallsyms" "ready" "resolved by name"] ++
    if e.procInit.1 ≠ 0 then [told "control plane" "unsupported" e.procWhy] else []

/-- With the one match that there is, what is registered is not 0 at the end. -/
def xtReports : List Report :=
  if !e.xtEnable then [told "xt" "off" "xt=0"]
  else if e.xtInit.1 ≠ 0 then []
  else [told "xt" "ready" "xt_register_matches available"]

/-- Why `droid_lkm_misc_devtmpfs_init` fails, if it does. -/
def devtmpfsWhy : String :=
  if e.devtmpfsResolve ≠ 0 then v.devtmpfsMissing
  else if e.kernMount ≠ 0 then "internal mount failed"
  else if e.registerFilesystem ≠ 0 then "register failed"
  else if e.kthreadRun ≠ 0 then "no thread"
  else if e.hook .deviceAdd ≠ 0 then "device_add hook failed"
  else "device_del hook failed"

/-- Wherever `droid_lkm_misc_devtmpfs_init` fails, it says so. -/
def devtmpfsReports : List Report :=
  if !e.devtmpfsEnable then [told "devtmpfs" "off" "devtmpfs=0"]
  else if (Devtmpfs.none.devtmpfsInit e).1 ≠ 0 then
    [told "devtmpfs" "unsupported" (e.devtmpfsWhy v)]
  else [told "devtmpfs" "ready" (toString v.nodes ++ " nodes, fs registered")]

/-- In `droid_lkm_userns_proc_init`, which says nothing of a hook that fails. -/
def idMapReports : List Report :=
  if e.usernsProcResolve ≠ 0 then [told "userns id map files" "unsupported" v.idMapMissing]
  else if e.hook .procTgid ≠ 0 then []
  else if e.hook .procTid ≠ 0 then []
  else [told "userns id map files" "ready" "uid_map gid_map setgroups under /proc/<pid>"]

/-- Why `droid_lkm_userns_init` fails, if it does. -/
def usernsWhy : String :=
  if (Userns.none.nsopsInit e).1 ≠ 0 then "namespace entry failed"
  else if ((Userns.none.nsopsInit e).2.ownerInit e).1 ≠ 0 then "owner symbols missing"
  else "a hook failed"

/-- In `droid_lkm_userns_init` from where it is ready; `sides` is what is reported while
    `droid_lkm_userns_selftest_run` goes on. -/
def lateReports (sides : List Side) : List Report :=
  [told "userns cap trace" (if e.captraceOn then "on" else "off") "captrace=<bool>"] ++
    sides.map Side.report ++ [told "userns objects" "ready" (toString v.live ++ " live")]

/-- In `droid_lkm_userns_init` -/
def usernsReports (sides : List Side) : List Report :=
  if !e.usernsEnable then [told "userns" "off" "userns=0"]
  else if (Userns.none.usernsInit e).1 ≠ 0 then [told "userns" "unsupported" e.usernsWhy]
  else e.idMapReports v ++
    [told "userns" "ready" "unshare clone namespace entry credential swap"] ++
    e.lateReports v sides

def reports (sides : List Side) : List Report :=
  e.procReports ++ e.xtReports ++ e.devtmpfsReports v ++ e.usernsReports v sides

end Env

/-- The module, and what it has reported. -/
structure Told where
  state : State
  reports : List Report

/-- A 1 is written to `release`, or something is reported from the side. -/
inductive Act
  | release
  | side (s : Side)

/-- What `droid_lkm_misc_devtmpfs_release` reports. -/
def released (d : Devtmpfs) : Report :=
  told "devtmpfs" "released"
    (if !d.mnt && !d.registered then "already released" else "internal mount dropped")

def step (w : Told) : Act → Told
  | .release => ⟨Load.release w.state, w.reports ++ [released w.state.devtmpfs]⟩
  | .side s => ⟨w.state, w.reports ++ [s.report]⟩

/-- After the load; `given` times a 1 was written to `release` by the arguments of the module,
    which are read before `droid_lkm_misc_init` is called. -/
def loaded (e : Env) (given : ℕ) (v : Values) (sides : List Side) : Told :=
  ⟨(init e).2, List.replicate given (released fresh.devtmpfs) ++ e.reports v sides⟩

/-! ## Who reports what -/

def procNames : List Str := [bytes "module", bytes "kallsyms", bytes "control plane"]

def sideNames : List Str := [bytes "userns selftest", bytes "userns mount owner"]

/-- Without the first two. -/
def usernsLate : List Str := [bytes "userns cap trace", bytes "userns objects"] ++ sideNames

def usernsNames : List Str := [bytes "userns", bytes "userns id map files"] ++ usernsLate

/-- All of them. -/
def allNames : List Str :=
  procNames ++ [bytes "xt", bytes "devtmpfs"] ++ usernsNames

/-- What is said under a name. -/
def said (w : Told) (name : String) : Str := (latest w.reports (bytes name)).state

/-- A feature is said to be ready if and only if it is in force. -/
structure Truthful (w : Told) : Prop where
  known : ∀ r ∈ w.reports, r.name ∈ allNames
  xt : said w "xt" = bytes "ready" ↔ w.state.addrtype = true
  devtmpfs : said w "devtmpfs" = bytes "ready" ↔ w.state.devtmpfs = .all
  userns : said w "userns" = bytes "ready" ↔ w.state.userns.up = true
  idMaps : said w "userns id map files" = bytes "ready" ↔
    w.state.userns.tgid = true ∧ w.state.userns.tid = true

variable {e : Env} {v : Values} {w : Told} {rs rs' : List Report} {name : Str}
  {sides : List Side}

theorem latest_append (h : ∀ r ∈ rs', r.name ≠ name) :
    latest (rs ++ rs') name = latest rs name := by
  induction rs' using List.reverseRecOn with
  | nil => rw [List.append_nil]
  | append_singleton rs' r ih =>
    rw [← List.append_assoc, latest_concat, if_neg (h r (by simp))]
    exact ih fun q hq => h q (by simp [hq])

theorem latest_none (h : ∀ r ∈ rs, r.name ≠ name) : latest rs name = unused := by
  have hnil : latest ([] ++ rs) name = latest [] name := latest_append h
  rwa [List.nil_append] at hnil

/-- What was reported before under other names does not show. -/
theorem latest_prefix (h : ∀ r ∈ rs, r.name ≠ name) :
    latest (rs ++ rs') name = latest rs' name := by
  induction rs' using List.reverseRecOn with
  | nil => rw [List.append_nil, latest_none h, latest_none (by simp)]
  | append_singleton rs' r ih => rw [← List.append_assoc, latest_concat, latest_concat, ih]

theorem latest_told (rs : List Report) (name state detail : String) :
    latest (rs ++ [told name state detail]) (bytes name) = (told name state detail).slot :=
  latest_concat.trans (if_pos rfl)

theorem procReports_names : ∀ r ∈ e.procReports, r.name ∈ procNames := by
  unfold Env.procReports
  split <;> simp [told, procNames]

theorem xtReports_names : ∀ r ∈ e.xtReports, r.name ∈ [bytes "xt"] := by
  unfold Env.xtReports
  split
  · simp [told]
  split <;> simp [told]

theorem devtmpfsReports_names : ∀ r ∈ e.devtmpfsReports v, r.name ∈ [bytes "devtmpfs"] := by
  unfold Env.devtmpfsReports
  split
  · simp [told]
  split <;> simp [told]

theorem idMapReports_names : ∀ r ∈ e.idMapReports v, r.name = bytes "userns id map files" := by
  unfold Env.idMapReports
  split
  · simp [told]
  split
  · simp
  split <;> simp [told]

theorem Side.report_name (s : Side) : s.report.name ∈ sideNames := by
  cases s with
  | selftest failed => rcases failed with _ | _ | n <;> exact List.mem_cons_self
  | mountOwner found => cases found <;> exact List.mem_cons_of_mem _ List.mem_cons_self

theorem late_names : ∀ r ∈ e.lateReports v sides, r.name ∈ usernsLate := by
  intro r hr
  simp only [Env.lateReports, List.mem_append, List.mem_map, List.mem_cons, List.not_mem_nil,
    or_false] at hr
  rcases hr with (rfl | ⟨s, -, rfl⟩) | rfl
  · simp [told, usernsLate]
  · exact List.mem_append_right _ s.report_name
  · simp [told, usernsLate]

theorem usernsReports_names : ∀ r ∈ e.usernsReports v sides, r.name ∈ usernsNames := by
  unfold Env.usernsReports
  split
  · simp [told, usernsNames]
  split
  · simp [told, usernsNames]
  intro r hr
  rcases List.mem_append.1 hr with hr | hr
  · rcases List.mem_append.1 hr with hr | hr
    · rw [idMapReports_names r hr]
      simp [usernsNames]
    · rw [List.mem_singleton.1 hr]
      simp [told, usernsNames]
  · exact List.mem_append_right _ (late_names r hr)

theorem ne_name {ns : List Str} (h : ∀ r ∈ rs, r.name ∈ ns) (hn : name ∉ ns) :
    ∀ r ∈ rs, r.name ≠ name := fun r hr he => hn (he ▸ h r hr)

/-! ## After the load -/

theorem xt_said (h : ¬e.XtFails) (sides : List Side) :
    (latest (e.reports v sides) (bytes "xt")).state = bytes "ready" ↔ e.xtEnable = true := by
  unfold Env.reports
  rw [latest_append (ne_name usernsReports_names (by decide)),
    latest_append (ne_name devtmpfsReports_names (by decide))]
  unfold Env.xtReports
  cases hen : e.xtEnable with
  | false =>
    rw [if_pos (by rfl), latest_told]
    exact iff_of_false (by decide : bytes "off" ≠ bytes "ready") Bool.false_ne_true
  | true =>
    have h0 : e.xtRegister = 0 := by
      by_contra hne
      exact h ⟨hen, hne⟩
    rw [if_neg (by simp), if_neg (by simp [Env.xtInit, h0]), latest_told]
    exact iff_of_true rfl rfl

/-- Whatever was reported before. -/
theorem devtmpfs_said (e : Env) (rs : List Report) (v : Values) (sides : List Side) :
    (latest (rs ++ e.reports v sides) (bytes "devtmpfs")).state = bytes "ready" ↔
      e.devtmpfsLoad = .all := by
  unfold Env.reports
  rw [← List.append_assoc, latest_append (ne_name usernsReports_names (by decide)),
    ← List.append_assoc]
  unfold Env.devtmpfsReports Env.devtmpfsLoad
  cases e.devtmpfsEnable with
  | false =>
    rw [if_pos (by rfl), latest_told]
    exact iff_of_false (by decide : bytes "off" ≠ bytes "ready")
      (by decide : Devtmpfs.none ≠ .all)
  | true =>
    rw [if_neg (by simp)]
    rcases devtmpfsInit_spec e with ⟨r, hr, h⟩ | h <;> rw [h] <;> dsimp only
    · rw [if_pos hr, latest_told]
      exact iff_of_false (by decide : bytes "unsupported" ≠ bytes "ready") (by decide)
    · rw [if_neg (by simp), latest_told]
      exact iff_of_true rfl rfl

theorem userns_said (e : Env) (v : Values) (sides : List Side) :
    (latest (e.reports v sides) (bytes "userns")).state = bytes "ready" ↔
      e.usernsLoad.up = true := by
  unfold Env.reports Env.usernsReports Env.usernsLoad
  cases e.usernsEnable with
  | false =>
    rw [if_pos (by rfl), latest_told]
    exact iff_of_false (by decide : bytes "off" ≠ bytes "ready") Bool.false_ne_true
  | true =>
    rw [if_neg (by simp)]
    rcases Userns.usernsInit_spec e with ⟨r, hr, h⟩ | ⟨cap, h⟩ <;> rw [h] <;> dsimp only
    · rw [if_pos hr, latest_told]
      exact iff_of_false (by decide : bytes "unsupported" ≠ bytes "ready") (by simp [hr]; decide)
    · rw [if_neg (by simp), ← List.append_assoc, latest_append (ne_name late_names (by decide)),
        ← List.append_assoc, latest_told]
      exact iff_of_true rfl rfl

theorem early_names : ∀ r ∈ e.procReports ++ e.xtReports ++ e.devtmpfsReports v,
    r.name ≠ bytes "userns id map files" := by
  intro r hr
  rcases List.mem_append.1 hr with hr | hr
  · rcases List.mem_append.1 hr with hr | hr
    · exact ne_name procReports_names (by decide) r hr
    · exact ne_name xtReports_names (by decide) r hr
  · exact ne_name devtmpfsReports_names (by decide) r hr

theorem idMapReports_said (h : ∀ r ∈ rs, r.name ≠ bytes "userns id map files") :
    (latest (rs ++ e.idMapReports v) (bytes "userns id map files")).state = bytes "ready" ↔
      e.idMapFiles = true := by
  unfold Env.idMapReports Env.idMapFiles
  split
  · next hp =>
    rw [latest_told]
    exact iff_of_false (by decide : bytes "unsupported" ≠ bytes "ready") (by simp [hp])
  split
  · next hp =>
    rw [List.append_nil, latest_none h]
    exact iff_of_false (by decide : [] ≠ bytes "ready") (by simp [hp])
  split
  · next hp =>
    rw [List.append_nil, latest_none h]
    exact iff_of_false (by decide : [] ≠ bytes "ready") (by simp [hp])
  · next h₁ h₂ h₃ =>
    rw [not_not] at h₁ h₂ h₃
    rw [latest_told]
    exact iff_of_true rfl (by simp [h₁, h₂, h₃])

theorem idMaps_said (e : Env) (v : Values) (sides : List Side) :
    (latest (e.reports v sides) (bytes "userns id map files")).state = bytes "ready" ↔
      e.usernsLoad.tgid = true ∧ e.usernsLoad.tid = true := by
  -- where the user namespaces are off or fail, nothing is said of the files
  have hnone (state detail : String) :
      (latest (e.procReports ++ e.xtReports ++ e.devtmpfsReports v ++
        [told "userns" state detail]) (bytes "userns id map files")).state = [] := by
    rw [latest_append (by simp [told]; decide), latest_none early_names]
    rfl
  unfold Env.reports Env.usernsReports Env.usernsLoad
  cases e.usernsEnable with
  | false =>
    rw [if_pos (by rfl), hnone]
    exact iff_of_false (by decide : [] ≠ bytes "ready") fun h => Bool.false_ne_true h.1
  | true =>
    rw [if_neg (by simp)]
    rcases Userns.usernsInit_spec e with ⟨r, hr, h⟩ | ⟨cap, h⟩ <;> rw [h] <;> dsimp only
    · rw [if_pos hr, hnone, if_pos rfl, if_pos hr]
      exact iff_of_false (by decide : [] ≠ bytes "ready") fun h => Bool.false_ne_true h.1
    · rw [if_neg (by simp), ← List.append_assoc, latest_append (ne_name late_names (by decide)),
        ← List.append_assoc, latest_append (by simp [told]; decide),
        idMapReports_said early_names]
      exact and_self_iff.symm

theorem reports_known (e : Env) (v : Values) (sides : List Side) :
    ∀ r ∈ e.reports v sides, r.name ∈ allNames := by
  intro r hr
  simp only [Env.reports, List.mem_append] at hr
  simp only [allNames, List.mem_append]
  rcases hr with ((hr | hr) | hr) | hr
  · exact .inl (.inl (procReports_names r hr))
  · rw [List.mem_singleton.1 (xtReports_names r hr)]
    simp
  · rw [List.mem_singleton.1 (devtmpfsReports_names r hr)]
    simp
  · exact .inr (usernsReports_names r hr)

/-- The module does not have devtmpfs yet when its arguments are read. -/
theorem given_names (given : ℕ) :
    ∀ r ∈ List.replicate given (released fresh.devtmpfs), r.name ∈ [bytes "devtmpfs"] := by
  intro r hr
  rw [List.eq_of_mem_replicate hr]
  exact List.mem_cons_self

theorem loaded_truthful (h : (init e).1 = 0) (given : ℕ) (v : Values) (sides : List Side) :
    Truthful (loaded e given v sides) := by
  have hs : e.Started := by
    by_contra hs
    exact (init_not_started hs).1 h
  have hx : ¬e.XtFails := by
    intro hx
    rw [init_xt_fails hs hx] at h
    exact hx.2 h
  have hinit : (init e).2 = ⟨true, e.procInit.2, e.xtEnable, e.devtmpfsLoad, e.usernsLoad⟩ := by
    rw [init_done hs hx]
  have hskip {name : Str} (hn : name ∉ [bytes "devtmpfs"]) :
      latest (List.replicate given (released fresh.devtmpfs) ++ e.reports v sides) name =
        latest (e.reports v sides) name :=
    latest_prefix (ne_name (given_names given) hn)
  refine ⟨?_, ?_, ?_, ?_, ?_⟩ <;> simp only [said, loaded, hinit]
  · intro r hr
    rcases List.mem_append.1 hr with hr | hr
    · rw [List.mem_singleton.1 (given_names given r hr)]
      simp [allNames]
    · exact reports_known e v sides r hr
  · rw [hskip (by decide)]
    exact xt_said hx sides
  · exact devtmpfs_said e _ v sides
  · rw [hskip (by decide)]
    exact userns_said e v sides
  · rw [hskip (by decide)]
    exact idMaps_said e v sides

/-! ## From then on -/

/-- A report under another name says nothing of a feature. -/
theorem Truthful.say {r : Report} (h : Truthful w) (hr : r.name ∈ sideNames) :
    Truthful ⟨w.state, w.reports ++ [r]⟩ := by
  have hkeep {name : Str} (hn : name ∉ sideNames) :
      latest (w.reports ++ [r]) name = latest w.reports name :=
    latest_append (ne_name (by simpa using hr) hn)
  refine ⟨?_, ?_, ?_, ?_, ?_⟩ <;> simp only [said]
  · intro q hq
    rcases List.mem_append.1 hq with hq | hq
    · exact h.known q hq
    · rw [List.mem_singleton.1 hq]
      exact List.mem_append_right _ (List.mem_append_right _ (List.mem_append_right _ hr))
  · rw [hkeep (by decide)]
    exact h.xt
  · rw [hkeep (by decide)]
    exact h.devtmpfs
  · rw [hkeep (by decide)]
    exact h.userns
  · rw [hkeep (by decide)]
    exact h.idMaps

theorem takeBack_mnt (dev : Devtmpfs) : dev.takeBack.mnt = false := by
  obtain ⟨mnt, registered, thread, addHook, delHook⟩ := dev
  cases mnt <;> cases registered <;> cases thread <;> cases addHook <;> cases delHook <;> rfl

theorem release_devtmpfs (s : State) : (release s).devtmpfs ≠ .all := by
  have hmnt : (release s).devtmpfs.mnt = false := by
    unfold release Devtmpfs.devtmpfsRelease
    dsimp only
    split
    · next h =>
      rw [Bool.and_eq_true, Bool.not_eq_true'] at h
      exact h.1
    · exact takeBack_mnt s.devtmpfs
  intro h
  rw [h] at hmnt
  cases hmnt

/-- A release says that devtmpfs is released, and it is. -/
theorem Truthful.release (h : Truthful w) :
    Truthful ⟨Load.release w.state, w.reports ++ [released w.state.devtmpfs]⟩ := by
  have hkeep {name : Str} (hn : name ∉ [bytes "devtmpfs"]) :
      latest (w.reports ++ [released w.state.devtmpfs]) name = latest w.reports name :=
    latest_append (ne_name (by simp [released, told]) hn)
  refine ⟨?_, ?_, ?_, ?_, ?_⟩ <;> simp only [said]
  · intro q hq
    rcases List.mem_append.1 hq with hq | hq
    · exact h.known q hq
    · rw [List.mem_singleton.1 hq]
      simp [released, told, allNames]
  · rw [hkeep (by decide)]
    exact h.xt
  · rw [released, latest_told]
    exact iff_of_false (by decide : bytes "released" ≠ bytes "ready") (release_devtmpfs w.state)
  · rw [hkeep (by decide)]
    exact h.userns
  · rw [hkeep (by decide)]
    exact h.idMaps

theorem step_truthful (h : Truthful w) (a : Act) : Truthful (step w a) := by
  cases a with
  | release => exact h.release
  | side s => exact h.say s.report_name

theorem run_truthful (h : Truthful w) (acts : List Act) : Truthful (acts.foldl step w) := by
  induction acts generalizing w with
  | nil => exact h
  | cons a acts ih => exact ih (step_truthful h a)

theorem allNames_short : ∀ n ∈ allNames, n.length < DROID_LKM_MISC_REPORT_NAME := by
  decide

/-- A name in the file was reported. -/
theorem mem_names (h : name ∈ names rs) : ∃ r ∈ rs, r.name = name := by
  induction rs using List.reverseRecOn with
  | nil => simp [names] at h
  | append_singleton rs r ih =>
    rw [names_concat] at h
    split at h
    · obtain ⟨q, hq, he⟩ := ih h
      exact ⟨q, List.mem_append_left _ hq, he⟩
    · rcases List.mem_append.1 h with h | h
      · obtain ⟨q, hq, he⟩ := ih h
        exact ⟨q, List.mem_append_left _ hq, he⟩
      · exact ⟨r, by simp, (List.mem_singleton.1 h).symm⟩

/-- The file has a line for each name, and none is cut off. -/
theorem Truthful.text (h : Truthful w) {size : ℕ} (hsize : 4096 ≤ size) :
    reportText (Misc.reports w.reports) size =
      (names w.reports).flatMap fun n => statusLine (latest w.reports n) := by
  have hshort : ∀ r ∈ w.reports, r.Short := fun r hr => allNames_short _ (h.known r hr)
  have hlen : (names w.reports).length ≤ DROID_LKM_MISC_REPORT_SLOTS := by
    have hsub : names w.reports ⊆ allNames := fun n hn => by
      obtain ⟨r, hr, rfl⟩ := mem_names hn
      exact h.known r hr
    exact Nat.le_trans (List.subperm_of_subset (names_nodup _) hsub).length_le (by decide)
  rw [reportText_lines hshort (Nat.lt_of_lt_of_le (by decide) hsize),
    List.take_of_length_le hlen]

/-- **The status file.**  After a load that has succeeded, whatever is released before and since
    and searched for since, `/proc/droid_lkm_misc/status` says what was last reported under each
    name, in full, and a feature is ready there if and only if it is in force. -/
theorem status_truthful (h : (init e).1 = 0) (given : ℕ) (v : Values) (sides : List Side)
    (acts : List Act) {pageSize : ℕ} (hp : 4096 ≤ pageSize) :
    let w := acts.foldl step (loaded e given v sides)
    Truthful w ∧ reportText (Misc.reports w.reports) pageSize =
      (names w.reports).flatMap fun n => statusLine (latest w.reports n) := by
  intro w
  have hw : Truthful w := run_truthful (loaded_truthful h given v sides) acts
  exact ⟨hw, hw.text hp⟩

/-- A load with `release=1`, two releases and a search for the mount owner. -/
theorem status_truthful_plain :
    let w := [Act.release, .side (.mountOwner true), .release].foldl step
      (loaded (plain 0) 1 ⟨"", "", 2, 1⟩ [.selftest (some 0)])
    Truthful w ∧ reportText (Misc.reports w.reports) 4096 =
      (names w.reports).flatMap fun n => statusLine (latest w.reports n) :=
  status_truthful (by decide) 1 ⟨"", "", 2, 1⟩ [.selftest (some 0)]
    [.release, .side (.mountOwner true), .release] (Nat.le_refl 4096)

end DroidLkm.Misc.Load
