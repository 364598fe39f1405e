/-
  The members of a pid namespace, where the anchors have found them.

  * `layoutAnchor_field`: a member is as compiled, found by a stage, or refused;
  * `trusted_pidns`: a trusted layout has the offsets of `pidnsFound`, from the
    markers of `init_pid_ns`;
  * `PidnsFits`: what the module writes stays inside of the object, and apart;
  * `pidns_fits`: this holds if and only if the markers leave room for what is
    put beside them.
-/
import DroidLkm.Layout.Anchor
import DroidLkm.Layout.Btf
import Mathlib.Data.List.Pairwise
import Mathlib.Tactic.ByContra

namespace DroidLkm.Layout

open Image

/-! ## What the stages leave -/

namespace CompatLayout

variable {l : CompatLayout} {f : FieldId} {xs ys : List (FieldId × ℕ)}

theorem setAll_append (l : CompatLayout) (xs ys : List (FieldId × ℕ)) :
    l.setAll (xs ++ ys) = (l.setAll xs).setAll ys :=
  List.foldl_append

/-- A row is as it was, or was set. -/
theorem setAll_field (l : CompatLayout) (xs : List (FieldId × ℕ)) (f : FieldId) :
    (l.setAll xs).fields f = l.fields f ∨
      ∃ off, (f, off) ∈ xs ∧ (l.setAll xs).fields f = ⟨off, .verified⟩ := by
  induction xs generalizing l with
  | nil => exact Or.inl rfl
  | cons x xs ih =>
    rcases ih (l.set x.1 x.2) with h | ⟨off, hmem, h⟩
    · unfold set at h
      dsimp only at h
      split at h
      · next hf =>
        subst hf
        exact Or.inr ⟨x.2, List.mem_cons_self, h⟩
      · exact Or.inl h
    · exact Or.inr ⟨off, List.mem_cons_of_mem _ hmem, h⟩

/-- A row that is set stays set. -/
theorem setAll_verified {l : CompatLayout} {xs : List (FieldId × ℕ)} {f : FieldId}
    (h : (l.fields f).state = .verified ∨ f ∈ xs.map (·.1)) :
    ((l.setAll xs).fields f).state = .verified := by
  induction xs generalizing l with
  | nil => exact h.resolve_right (List.not_mem_nil)
  | cons x xs ih =>
    refine ih ?_
    by_cases hf : f = x.1
    · refine Or.inl ?_
      simp [set, hf]
    · rcases h with h | h
      · refine Or.inl ?_
        simpa [set, hf] using h
      · exact Or.inr ((List.mem_cons.1 h).resolve_left hf)

theorem setAll_types (l : CompatLayout) (xs : List (FieldId × ℕ)) :
    (l.setAll xs).types = l.types := by
  induction xs generalizing l with
  | nil => rfl
  | cons x xs ih => exact ih (l.set x.1 x.2)

theorem setAll_setType (l : CompatLayout) (t : TypeId) (size : ℕ) (xs : List (FieldId × ℕ)) :
    (l.setType t size).setAll xs = (l.setAll xs).setType t size := by
  induction xs generalizing l with
  | nil => rfl
  | cons x xs ih => exact ih (l.set x.1 x.2)

end CompatLayout

namespace Env

variable {e : Env} {b : Build} {l : CompatLayout} {f : FieldId}

/-- What all stages together have found. -/
def found (e : Env) (b : Build) : List (FieldId × ℕ) :=
  e.anchorTask.getD [] ++ e.anchorNsproxy.getD [] ++ e.anchorPid.getD [] ++
    ((e.anchorPidns b).map (·.1)).getD []

theorem layoutAnchor_fields (e : Env) (b : Build) (l : CompatLayout) :
    (e.layoutAnchor b l).fields =
      (((l.keepBuild b .ipcNamespace).keepBuild b .seqFile).setAll (e.found b)).refuseRest.fields := by
  unfold layoutAnchor found
  simp only [CompatLayout.setAll_append]
  cases e.anchorPid with
  | none => rcases e.anchorPidns b with _ | ⟨found, size⟩ <;> rfl
  | some found =>
    rcases e.anchorPidns b with _ | ⟨found', size⟩
    · rfl
    · dsimp only
      rw [CompatLayout.setAll_setType]
      rfl

/-- A row of an anchored layout. -/
theorem layoutAnchor_field (e : Env) (b : Build) (f : FieldId) :
    (e.layoutAnchor b layoutUnverified).fields f = ⟨0, .unverified⟩ ∨
      ((f.type = .ipcNamespace ∨ f.type = .seqFile) ∧
        (e.layoutAnchor b layoutUnverified).fields f = ⟨b.offsetof f, .build⟩) ∨
      ∃ off, (f, off) ∈ e.found b ∧
        (e.layoutAnchor b layoutUnverified).fields f = ⟨off, .verified⟩ := by
  rw [layoutAnchor_fields]
  unfold CompatLayout.refuseRest
  dsimp only
  rcases CompatLayout.setAll_field
    ((layoutUnverified.keepBuild b .ipcNamespace).keepBuild b .seqFile) (e.found b) f with
    h | ⟨off, hmem, h⟩
  · rw [h]
    unfold CompatLayout.keepBuild layoutUnverified
    dsimp only
    by_cases hseq : f.type = .seqFile
    · rw [if_pos hseq]
      exact Or.inr (Or.inl ⟨Or.inr hseq, rfl⟩)
    · rw [if_neg hseq]
      by_cases hipc : f.type = .ipcNamespace
      · rw [if_pos hipc]
        exact Or.inr (Or.inl ⟨Or.inl hipc, rfl⟩)
      · rw [if_neg hipc]
        exact Or.inl rfl
  · rw [h]
    exact Or.inr (Or.inr ⟨off, hmem, rfl⟩)

/-- A verified row was found. -/
theorem mem_found (h : verified ((e.layoutAnchor b layoutUnverified).fields f).state = true) :
    (f, ((e.layoutAnchor b layoutUnverified).fields f).live) ∈ e.found b := by
  rcases layoutAnchor_field e b f with hf | ⟨-, hf⟩ | ⟨off, hmem, hf⟩
  · rw [hf] at h
    cases h
  · rw [hf] at h
    cases h
  · rw [hf]
    exact hmem

/-- And what was found is verified. -/
theorem verified_of_found (h : f ∈ (e.found b).map (·.1)) :
    ((e.layoutAnchor b layoutUnverified).fields f).state = .verified := by
  have hset := CompatLayout.setAll_verified
    (l := (layoutUnverified.keepBuild b .ipcNamespace).keepBuild b .seqFile) (Or.inr h)
  rw [layoutAnchor_fields]
  unfold CompatLayout.refuseRest
  dsimp only
  rw [hset]
  exact hset

/-! ## Each stage has its struct -/

theorem mem_unlessZero {g : FieldId} {off : ℕ} {x : FieldId × ℕ} (h : x ∈ unlessZero g off) :
    x = (g, off) ∧ off ≠ 0 := by
  unfold unlessZero at h
  split at h
  · cases h
  · next hne => exact ⟨List.mem_singleton.1 h, hne⟩

theorem mem_ifFound {g : FieldId} {o : Option ℕ} {x : FieldId × ℕ} (h : x ∈ ifFound g o) :
    x.1 = g ∧ o = some x.2 := by
  cases o with
  | none => cases h
  | some off =>
    rw [List.mem_singleton.1 h]
    exact ⟨rfl, rfl⟩

theorem type_anchorTask {x : FieldId × ℕ} (h : x ∈ e.anchorTask.getD []) :
    x.1.type = .taskStruct := by
  cases hres : e.anchorTask with
  | none =>
    rw [hres] at h
    cases h
  | some found =>
    rw [hres] at h
    unfold anchorTask at hres
    obtain ⟨offs, -, hres⟩ := Option.bind_eq_some_iff.1 hres
    split at hres
    · cases hres
    obtain rfl := Option.some.inj hres
    simp only [Option.getD_some, List.mem_append, List.mem_cons, List.not_mem_nil, or_false] at h
    rcases h with ((((((((h | h) | h) | h) | h) | h) | h) | h) | h)
    · rcases h with rfl | rfl | rfl | rfl | rfl <;> rfl
    · rw [(mem_unlessZero h).1]; rfl
    · rw [(mem_unlessZero h).1]; rfl
    · rw [(mem_unlessZero h).1]; rfl
    · rw [(mem_unlessZero h).1]; rfl
    · rw [(mem_ifFound h).1]; rfl
    · rw [(mem_ifFound h).1]; rfl
    · rw [(mem_ifFound h).1]; rfl
    · rw [(mem_ifFound h).1]; rfl

theorem type_anchorNsproxy {x : FieldId × ℕ} (h : x ∈ e.anchorNsproxy.getD []) :
    x.1.type = .nsproxy := by
  unfold anchorNsproxy at h
  split at h
  · cases h
  split at h
  · split at h
    · cases h
    split at h
    · cases h
    simp only [Option.getD_some, List.mem_cons, List.not_mem_nil, or_false] at h
    rcases h with rfl | rfl | rfl | rfl | rfl <;> rfl
  · cases h

theorem type_anchorPid {x : FieldId × ℕ} (h : x ∈ e.anchorPid.getD []) :
    x.1.type = .pid ∨ x.1.type = .upid := by
  unfold anchorPid at h
  split at h
  · cases h
  split at h
  · cases h
  split at h
  · cases h
  split at h
  · cases h
  simp only [Option.getD_some, List.mem_append, List.mem_cons, List.not_mem_nil, or_false] at h
  rcases h with (rfl | rfl | rfl) | h
  · exact Or.inr rfl
  · exact Or.inr rfl
  · exact Or.inl rfl
  · rw [(mem_ifFound h).1]
    exact Or.inl rfl

/-- A row of a pid namespace is found by the last stage. -/
theorem mem_found_pidns {off : ℕ} (h : (f, off) ∈ e.found b) (hf : f.type = .pidNamespace) :
    ∃ found size, e.anchorPidns b = some (found, size) ∧ (f, off) ∈ found := by
  unfold found at h
  rw [List.mem_append, List.mem_append, List.mem_append] at h
  rcases h with ((h | h) | h) | h
  · have ht := type_anchorTask h
    rw [hf] at ht
    cases ht
  · have ht := type_anchorNsproxy h
    rw [hf] at ht
    cases ht
  · rcases type_anchorPid h with ht | ht <;> rw [hf] at ht <;> cases ht
  · rcases hres : e.anchorPidns b with _ | ⟨found, size⟩
    · rw [hres] at h
      cases h
    · rw [hres] at h
      exact ⟨found, size, rfl, h⟩

/-! ## The markers -/

/-- The image has the markers of `init_pid_ns` at these offsets: the pointer to
    the first user namespace, a pointer to a task with pid 1, the inode number
    of the first pid namespace. -/
structure Marks (e : Env) (u r i : ℕ) : Prop where
  user : 8 ∣ u ∧ u < DS_ANCHOR_PIDNS_WIN ∧
    e.rd64 (e.syms.initPidNs + u) = some e.syms.initUserNs
  reaper : 8 ∣ r ∧ r < DS_ANCHOR_PIDNS_WIN ∧ ∃ offs cand, e.taskOffs = some offs ∧
    e.rd64 (e.syms.initPidNs + r) = some cand ∧ e.isTask offs.pid offs.comm 1 (r / 8) cand = true
  inum : 4 ∣ i ∧ i < DS_ANCHOR_PIDNS_WIN ∧
    e.rd32 (e.syms.initPidNs + i) = some PROC_PID_INIT_INO

theorem findPtr_eq {base win want off : ℕ} : e.findPtr base win want = some off ↔
    8 ∣ off ∧ off / 8 < win / 8 ∧ e.rd64 (base + off) = some want ∧
      ∀ q, 8 ∣ q → q / 8 < win / 8 → e.rd64 (base + q) = some want → q = off := by
  unfold findPtr
  rw [Option.map_eq_some_iff]
  simp only [scan_eq_some, ptrHit, beq_iff_eq]
  constructor
  · rintro ⟨j, ⟨hj, hhit, huniq⟩, rfl⟩
    refine ⟨Nat.dvd_mul_right 8 j, by omega, hhit, ?_⟩
    intro q hq hlt hqhit
    obtain ⟨a, rfl⟩ := hq
    rw [huniq a (by omega) hqhit]
  · rintro ⟨⟨j, rfl⟩, hlt, hhit, huniq⟩
    refine ⟨j, ⟨by omega, hhit, ?_⟩, rfl⟩
    intro q hq hqhit
    have := huniq (8 * q) (Nat.dvd_mul_right 8 q) (by omega) hqhit
    omega

theorem findU32_eq {base win want off : ℕ} : e.findU32 base win want = some off ↔
    4 ∣ off ∧ off / 4 < win / 4 ∧ e.rd32 (base + off) = some want ∧
      ∀ q, 4 ∣ q → q / 4 < win / 4 → e.rd32 (base + q) = some want → q = off := by
  unfold findU32
  rw [Option.map_eq_some_iff]
  simp only [scan_eq_some, u32Hit, beq_iff_eq]
  constructor
  · rintro ⟨j, ⟨hj, hhit, huniq⟩, rfl⟩
    refine ⟨Nat.dvd_mul_right 4 j, by omega, hhit, ?_⟩
    intro q hq hlt hqhit
    obtain ⟨a, rfl⟩ := hq
    rw [huniq a (by omega) hqhit]
  · rintro ⟨⟨j, rfl⟩, hlt, hhit, huniq⟩
    refine ⟨j, ⟨by omega, hhit, ?_⟩, rfl⟩
    intro q hq hqhit
    have := huniq (4 * q) (Nat.dvd_mul_right 4 q) (by omega) hqhit
    omega

theorem findTask_eq {base win pidOff commOff pid off : ℕ} :
    e.findTask base win pidOff commOff pid = some off ↔
      8 ∣ off ∧ off / 8 < win / 8 ∧
        (e.rd64 (base + off)).any (e.isTask pidOff commOff pid (off / 8)) = true ∧
        ∀ q, 8 ∣ q → q / 8 < win / 8 →
          (e.rd64 (base + q)).any (e.isTask pidOff commOff pid (q / 8)) = true → q = off := by
  unfold findTask
  rw [Option.map_eq_some_iff]
  simp only [scan_eq_some, taskHit]
  constructor
  · rintro ⟨j, ⟨hj, hhit, huniq⟩, rfl⟩
    have hdiv : 8 * j / 8 = j := by omega
    refine ⟨Nat.dvd_mul_right 8 j, by omega, by rw [hdiv]; exact hhit, ?_⟩
    rintro q ⟨a, rfl⟩ hlt hqhit
    have hdiv' : 8 * a / 8 = a := by omega
    rw [hdiv'] at hqhit
    rw [huniq a (by omega) hqhit]
  · rintro ⟨⟨j, rfl⟩, hlt, hhit, huniq⟩
    have hdiv : 8 * j / 8 = j := by omega
    rw [hdiv] at hhit
    refine ⟨j, ⟨by omega, hhit, ?_⟩, rfl⟩
    intro q hq hqhit
    have hdiv' : 8 * q / 8 = q := by omega
    have := huniq (8 * q) (Nat.dvd_mul_right 8 q) (by omega) (by rw [hdiv']; exact hqhit)
    omega

/-- What the last stage has found, it found at the only markers. -/
theorem anchorPidns_eq {found : List (FieldId × ℕ)} {size : ℕ}
    (h : e.anchorPidns b = some (found, size)) : ∃ u r i, e.Marks u r i ∧
      b.offsetofInum ≤ i ∧ found = pidnsFound u r (i - b.offsetofInum) ∧
        size = i - b.offsetofInum + b.sizeofNsCommon ∧ e.pidnsChecks u r = true ∧
          ∀ u' r' i', e.Marks u' r' i' → u' = u ∧ r' = r ∧ i' = i := by
  unfold anchorPidns at h
  split at h
  · cases h
  obtain ⟨offs, hoffs, h⟩ := Option.bind_eq_some_iff.1 h
  obtain ⟨⟨u, r, i⟩, hmark, h⟩ := Option.bind_eq_some_iff.1 h
  dsimp only at h
  split at h
  · cases h
  next hinum =>
  split at h
  · cases h
  next hcheck =>
  obtain ⟨rfl, rfl⟩ := Prod.ext_iff.1 (Option.some.inj h)
  unfold pidnsMarkers at hmark
  split at hmark
  · next u₁ r₁ i₁ hu hr hi =>
    obtain ⟨rfl, rfl, rfl⟩ : u₁ = u ∧ r₁ = r ∧ i₁ = i := by
      have := Option.some.inj hmark
      simpa using this
    rw [findPtr_eq] at hu
    rw [findTask_eq] at hr
    rw [findU32_eq] at hi
    obtain ⟨hu8, hulo, huhit, huniq⟩ := hu
    obtain ⟨hr8, hrlo, hrhit, hruniq⟩ := hr
    obtain ⟨hi4, hilo, hihit, hiuniq⟩ := hi
    obtain ⟨cand, hcand, htask⟩ := (Option.any_eq_true _ _).1 hrhit
    have hwin : DS_ANCHOR_PIDNS_WIN = 256 := rfl
    refine ⟨u₁, r₁, i₁, ⟨⟨hu8, by omega, huhit⟩, ⟨hr8, by omega, offs, cand, hoffs, hcand, htask⟩,
      ⟨hi4, by omega, hihit⟩⟩, by omega, rfl, rfl, by simpa using hcheck, ?_⟩
    intro u' r' i' hm
    refine ⟨huniq u' hm.user.1 ?_ hm.user.2.2, ?_, hiuniq i' hm.inum.1 ?_ hm.inum.2.2⟩
    · have := hm.user.2.1
      omega
    · obtain ⟨hr8', hrlt', offs', cand', hoffs', hcand', htask'⟩ := hm.reaper
      rw [hoffs] at hoffs'
      cases hoffs'
      refine hruniq r' hr8' (by omega) ?_
      rw [hcand']
      exact htask'
    · have := hm.inum.2.1
      omega
  · cases hmark

end Env

/-! ## What is written -/

/-- The members that `droid_lkm_pidns_create` fills in. -/
def pidnsFields : List FieldId :=
  [.pidNsIdr, .pidNsPidCachep, .pidNsLevel, .pidNsParent, .pidNsUserNs, .pidNsUcounts,
    .pidNsPidAllocated, .pidNsChildReaper, .pidNsReboot, .pidNsNs]

/-- How much of it is written. -/
def Build.pidnsWidth (b : Build) : FieldId → ℕ
  | .pidNsIdr => b.sizeofIdr
  | .pidNsNs => b.sizeofNsCommon
  | .pidNsLevel | .pidNsPidAllocated | .pidNsReboot => 4
  | _ => 8

/-- What is written stays inside of the object, and apart, and no subtraction has
    wrapped: neither the one below the reaper nor the one below the inode number. -/
structure PidnsFits (e : Env) (l : CompatLayout) (b : Build) : Prop where
  inside : ∀ f ∈ pidnsFields, l.layoutOff b f + b.pidnsWidth f ≤ l.pidnsSize b
  apart : pidnsFields.Pairwise fun f g =>
    l.layoutOff b f + b.pidnsWidth f ≤ l.layoutOff b g ∨
      l.layoutOff b g + b.pidnsWidth g ≤ l.layoutOff b f
  unwrapped : l.layoutOff b .pidNsPidAllocated + 8 = l.layoutOff b .pidNsChildReaper
  unwrapped_ns : ∀ u r i, e.Marks u r i → l.layoutOff b .pidNsNs + b.offsetofInum = i

/-- The markers leave room: for the idr below `pid_allocated` and the user
    namespace, for the members around the reaper and behind the user namespace,
    and for `ns` beside them; and the object ends behind all of them. -/
structure Roomy (b : Build) (u r n : ℕ) : Prop where
  idr_reaper : 8 + b.sizeofIdr + 8 ≤ r
  idr_user : 8 + b.sizeofIdr ≤ u
  user_reaper : u + 28 ≤ r ∨ r + 32 ≤ u
  ns_idr : n + b.sizeofNsCommon ≤ 8 ∨ 8 + b.sizeofIdr ≤ n
  ns_user : n + b.sizeofNsCommon ≤ u ∨ u + 20 ≤ n
  ns_reaper : n + b.sizeofNsCommon + 8 ≤ r ∨ r + 32 ≤ n
  size : max (u + 20) (r + 32) ≤ max (n + b.sizeofNsCommon) (b.sizeof .pidNamespace)

/-- The layout has the offsets that go with these markers. -/
structure AtMarks (l : CompatLayout) (b : Build) (u r n : ℕ) : Prop where
  idr : l.layoutOff b .pidNsIdr = 8
  user : l.layoutOff b .pidNsUserNs = u
  reaper : l.layoutOff b .pidNsChildReaper = r
  cachep : l.layoutOff b .pidNsPidCachep = r + 8
  ns : l.layoutOff b .pidNsNs = n
  level : l.layoutOff b .pidNsLevel = r + 16
  parent : l.layoutOff b .pidNsParent = r + 16 + 8
  alloc : l.layoutOff b .pidNsPidAllocated = (r + 2 ^ 32 - 8) % 2 ^ 32
  ucounts : l.layoutOff b .pidNsUcounts = u + 8
  reboot : l.layoutOff b .pidNsReboot = u + 16
  size : l.pidnsSize b = max (n + b.sizeofNsCommon) (b.sizeof .pidNamespace)

theorem has_of_type {b : Build} {f : FieldId} (h : f.type ≠ .ipcNamespace) : b.Has f := by
  intro h61
  cases f <;> first | exact absurd rfl h | exact absurd h61 Bool.false_ne_true

theorem pidnsSize_eq {l : CompatLayout} {b : Build} {size : ℕ}
    (h : l.types .pidNamespace = ⟨size, .verified⟩) :
    l.pidnsSize b = max size (b.sizeof .pidNamespace) := by
  unfold CompatLayout.pidnsSize
  rw [h]
  simp only [stateOk, if_true]
  split <;> omega

/-- The offsets of a trusted layout. -/
theorem trusted_pidns {e : Env} {b : Build} {ti : Ti} (hs : ti.started = true)
    (ha : ti.available = false) (ht : (droidLayoutInit ti (e.layoutAnchor b)).trusted = true) :
    ∃ u r i, e.Marks u r i ∧ b.offsetofInum ≤ i ∧
      AtMarks (droidLayoutInit ti (e.layoutAnchor b)).layout b u r (i - b.offsetofInum) ∧
        ∀ u' r' i', e.Marks u' r' i' → u' = u ∧ r' = r ∧ i' = i := by
  have hl : (droidLayoutInit ti (e.layoutAnchor b)).layout = e.layoutAnchor b layoutUnverified := by
    simp [droidLayoutInit, Ti.layoutInit, hs, ha]
  change CompatLayout.requiredOk (droidLayoutInit ti (e.layoutAnchor b)).layout = true at ht
  rw [hl] at ht ⊢
  unfold CompatLayout.requiredOk at ht
  rw [Bool.and_eq_true, Bool.and_eq_true, List.all_eq_true] at ht
  obtain ⟨⟨hfields, -⟩, -⟩ := ht
  have hver : ∀ f ∈ pidnsFields, (f, ((e.layoutAnchor b layoutUnverified).fields f).live) ∈
      e.found b ∧ f.type = .pidNamespace := by
    intro f hf
    simp only [pidnsFields, List.mem_cons, List.not_mem_nil, or_false] at hf
    rcases hf with rfl | rfl | rfl | rfl | rfl | rfl | rfl | rfl | rfl | rfl <;>
      exact ⟨Env.mem_found (hfields _ (by decide)), rfl⟩
  obtain ⟨hmem, htype⟩ := hver .pidNsIdr (by decide)
  obtain ⟨found, size, hres, -⟩ := Env.mem_found_pidns hmem htype
  obtain ⟨u, r, i, hmarks, hle, hfound, hsize, -, huniq⟩ := Env.anchorPidns_eq hres
  refine ⟨u, r, i, hmarks, hle, ?_, huniq⟩
  have hoff : ∀ f ∈ pidnsFields, (f, (e.layoutAnchor b layoutUnverified).layoutOff b f) ∈
      Env.pidnsFound u r (i - b.offsetofInum) := by
    intro f hf
    obtain ⟨hmem, htype⟩ := hver f hf
    obtain ⟨found', size', hres', hmem'⟩ := Env.mem_found_pidns hmem htype
    rw [hres] at hres'
    cases hres'
    rw [hfound] at hmem'
    rw [CompatLayout.layoutOff, if_pos (has_of_type (htype ▸ by decide))]
    exact hmem'
  have htypes : (e.layoutAnchor b layoutUnverified).types .pidNamespace = ⟨size, .verified⟩ := by
    unfold Env.layoutAnchor
    rw [hres]
    rfl
  have hval : ∀ f ∈ pidnsFields, ∀ off, (∀ v, (f, v) ∈ Env.pidnsFound u r (i - b.offsetofInum) →
      v = off) → (e.layoutAnchor b layoutUnverified).layoutOff b f = off :=
    fun f hf off h => h _ (hoff f hf)
  refine ⟨?_, ?_, ?_, ?_, ?_, ?_, ?_, ?_, ?_, ?_, ?_⟩
  all_goals first
    | (refine hval _ (by decide) _ ?_; simp [Env.pidnsFound])
    | (rw [pidnsSize_eq htypes, hsize])

/-- A layout whose stages find what is required is trusted. -/
theorem trusted_of_found {e : Env} {b : Build} {ti : Ti} {found found' : List (FieldId × ℕ)}
    {size : ℕ} (hs : ti.started = true) (ha : ti.available = false)
    (hfound : ∀ f ∈ CompatLayout.required, f ∈ (e.found b).map (·.1))
    (hpid : e.anchorPid = some found) (hpidns : e.anchorPidns b = some (found', size)) :
    (droidLayoutInit ti (e.layoutAnchor b)).trusted = true := by
  have hl : ti.layoutInit (e.layoutAnchor b) = e.layoutAnchor b layoutUnverified := by
    simp [Ti.layoutInit, hs, ha]
  have hupid : ((e.layoutAnchor b layoutUnverified).types .upid).state = .verified := by
    unfold Env.layoutAnchor
    rw [hpid, hpidns]
    simp [CompatLayout.refuseRest, CompatLayout.setType, CompatLayout.setAll_types]
  have hpidNamespace :
      ((e.layoutAnchor b layoutUnverified).types .pidNamespace).state = .verified := by
    unfold Env.layoutAnchor
    rw [hpid, hpidns]
    simp [CompatLayout.refuseRest, CompatLayout.setType]
  have hfields : CompatLayout.required.all
      (fun f => verified ((e.layoutAnchor b layoutUnverified).fields f).state) = true := by
    rw [List.all_eq_true]
    intro f hf
    rw [Env.verified_of_found (hfound f hf)]
    rfl
  unfold droidLayoutInit CompatLayout.requiredOk
  dsimp only
  rw [hl, hfields, hupid, hpidNamespace]
  rfl

/-- **With the offsets that go with the markers.** -/
theorem AtMarks.fits_iff {e : Env} {l : CompatLayout} {b : Build} {u r n : ℕ}
    (h : AtMarks l b u r n) (hu : 8 ∣ u) (hr : 8 ∣ r) (hlt : r < 256)
    (hnum : ∀ u r i, e.Marks u r i → n + b.offsetofInum = i) :
    PidnsFits e l b ↔ Roomy b u r n := by
  have hidr := b.idr_pos
  have hns := b.ns_pointers
  obtain ⟨u, rfl⟩ := hu
  obtain ⟨r, rfl⟩ := hr
  constructor
  · rintro ⟨hin, hap, hwrap, -⟩
    have hpair : ∀ f ∈ pidnsFields, ∀ g ∈ pidnsFields, f ≠ g →
        l.layoutOff b f + b.pidnsWidth f ≤ l.layoutOff b g ∨
          l.layoutOff b g + b.pidnsWidth g ≤ l.layoutOff b f := by
      have : Std.Symm fun f g => l.layoutOff b f + b.pidnsWidth f ≤ l.layoutOff b g ∨
          l.layoutOff b g + b.pidnsWidth g ≤ l.layoutOff b f := ⟨fun _ _ => Or.symm⟩
      intro f hf g hg
      exact hap.forall hf hg
    rw [h.alloc, h.reaper] at hwrap
    have hparent := hin .pidNsParent (by decide)
    have hreboot := hin .pidNsReboot (by decide)
    -- the idr, below what is around the two markers
    have p₁ := hpair .pidNsIdr (by decide) .pidNsPidAllocated (by decide) (by decide)
    have p₂ := hpair .pidNsIdr (by decide) .pidNsChildReaper (by decide) (by decide)
    have p₃ := hpair .pidNsIdr (by decide) .pidNsUserNs (by decide) (by decide)
    have p₄ := hpair .pidNsIdr (by decide) .pidNsUcounts (by decide) (by decide)
    -- the two groups
    have q₁ := hpair .pidNsUserNs (by decide) .pidNsChildReaper (by decide) (by decide)
    have q₂ := hpair .pidNsUcounts (by decide) .pidNsChildReaper (by decide) (by decide)
    have q₃ := hpair .pidNsReboot (by decide) .pidNsChildReaper (by decide) (by decide)
    have q₄ := hpair .pidNsReboot (by decide) .pidNsPidAllocated (by decide) (by decide)
    have q₅ := hpair .pidNsUserNs (by decide) .pidNsPidCachep (by decide) (by decide)
    have q₆ := hpair .pidNsUserNs (by decide) .pidNsLevel (by decide) (by decide)
    have q₇ := hpair .pidNsUserNs (by decide) .pidNsParent (by decide) (by decide)
    -- `ns`, beside all of them
    have n₁ := hpair .pidNsNs (by decide) .pidNsIdr (by decide) (by decide)
    have n₂ := hpair .pidNsNs (by decide) .pidNsUserNs (by decide) (by decide)
    have n₃ := hpair .pidNsNs (by decide) .pidNsUcounts (by decide) (by decide)
    have n₄ := hpair .pidNsNs (by decide) .pidNsReboot (by decide) (by decide)
    have m₁ := hpair .pidNsNs (by decide) .pidNsPidAllocated (by decide) (by decide)
    have m₂ := hpair .pidNsNs (by decide) .pidNsChildReaper (by decide) (by decide)
    have m₃ := hpair .pidNsNs (by decide) .pidNsPidCachep (by decide) (by decide)
    have m₄ := hpair .pidNsNs (by decide) .pidNsLevel (by decide) (by decide)
    have m₅ := hpair .pidNsNs (by decide) .pidNsParent (by decide) (by decide)
    simp only [Build.pidnsWidth, h.idr, h.user, h.reaper, h.cachep, h.level, h.parent,
      h.alloc, h.ucounts, h.reboot, h.size] at hparent hreboot p₁ p₂ p₃ p₄ q₁ q₂ q₃ q₄ q₅ q₆ q₇
    simp only [Build.pidnsWidth, h.idr, h.user, h.reaper, h.cachep, h.ns, h.level, h.parent,
      h.alloc, h.ucounts, h.reboot] at n₁ n₂ n₃ n₄ m₁ m₂ m₃ m₄ m₅
    have hwrap' : (8 * r + 2 ^ 32 - 8) % 2 ^ 32 = 8 * r - 8 ∧ 1 ≤ r := by omega
    rw [hwrap'.1] at p₁ q₄ m₁
    clear hin hap hpair hwrap
    refine ⟨by omega, by omega, by omega, n₁, by omega, ?_, by omega⟩
    clear p₁ p₂ p₃ p₄ q₁ q₂ q₃ q₄ q₅ q₆ q₇ n₁ n₂ n₃ n₄
    omega
  · rintro ⟨h₁, h₂, h₃, h₄, h₅, h₆, h₇⟩
    have hwrap : (8 * r + 2 ^ 32 - 8) % 2 ^ 32 = 8 * r - 8 := by omega
    refine ⟨?_, ?_, ?_, by rw [h.ns]; exact hnum⟩
    · intro f hf
      simp only [pidnsFields, List.mem_cons, List.not_mem_nil, or_false] at hf
      rcases hf with rfl | rfl | rfl | rfl | rfl | rfl | rfl | rfl | rfl | rfl <;>
        simp only [Build.pidnsWidth, h.idr, h.user, h.reaper, h.cachep, h.ns, h.level, h.parent,
          h.alloc, h.ucounts, h.reboot, h.size, hwrap] <;> omega
    · simp only [pidnsFields, List.pairwise_cons, List.forall_mem_cons, List.not_mem_nil,
        Build.pidnsWidth, h.idr, h.user, h.reaper, h.cachep, h.ns, h.level, h.parent, h.alloc,
        h.ucounts, h.reboot, hwrap]
      and_intros
      all_goals first
        | omega
        | simp
    · rw [h.alloc, h.reaper, hwrap]
      omega

/-- **What a trusted layout makes the module write into a pid namespace stays
    inside of it and apart, if and only if the markers leave room.** -/
theorem pidns_fits (e : Env) (b : Build) (ti : Ti) (hs : ti.started = true)
    (ha : ti.available = false) (ht : (droidLayoutInit ti (e.layoutAnchor b)).trusted = true) :
    PidnsFits e (droidLayoutInit ti (e.layoutAnchor b)).layout b ↔
      ∀ u r i, e.Marks u r i → Roomy b u r (i - b.offsetofInum) := by
  obtain ⟨u, r, i, hm, hle, hat, huniq⟩ := trusted_pidns hs ha ht
  have hnum : ∀ u' r' i', e.Marks u' r' i' → i - b.offsetofInum + b.offsetofInum = i' := by
    intro u' r' i' hm'
    rw [Nat.sub_add_cancel hle]
    exact (huniq u' r' i' hm').2.2.symm
  rw [hat.fits_iff hm.user.1 hm.reaper.1 hm.reaper.2.1 hnum]
  constructor
  · intro h u' r' i' hm'
    obtain ⟨rfl, rfl, rfl⟩ := huniq u' r' i' hm'
    exact h
  · intro h
    exact h u r i hm

/-! ## Kernels in memory -/

/-- A first task. -/
def taskWords : ℕ → ℕ
  | 5 => PF_KTHREAD ||| PF_IDLE
  | 12 | 13 => 0x50000
  | 14 => SWAPPER
  | 15 => 0xB0000
  | 16 => 0x20000
  | 17 => 0x90000
  | 18 => 0xA0000
  | 19 => 0x30000
  | _ => 0

/-- Its nsproxy. -/
def nsproxyWords : ℕ → ℕ
  | 1 => 0x70000
  | 2 => 0xD0000
  | 3 => 0xE0000
  | 4 => 0x40000
  | 5 => 0x80000
  | _ => 0

/-- Its pid: a count of 1, and the number 0 in the first pid namespace. -/
def pidWords : ℕ → ℕ
  | 0 => 1
  | 13 => 0x40000
  | _ => 0

/-- A task with pid 1 and its name. -/
def initWords : ℕ → ℕ
  | 10 => 1 + 2 ^ 32
  | 14 => 0x74696E69
  | _ => 0

/-- The memory of a kernel, but for its first pid namespace. -/
def words (pidnsWords : ℕ → ℕ) (k : ℕ) : ℕ :=
  match k / 2 ^ 13 with
  | 1 => taskWords (k % 2 ^ 13)
  | 2 => nsproxyWords (k % 2 ^ 13)
  | 3 => pidWords (k % 2 ^ 13)
  | 4 => pidnsWords (k % 2 ^ 13)
  | 12 => initWords (k % 2 ^ 13)
  | _ => 0

/-- What the anchors of such a kernel look at. -/
def kernel (pidnsWords : ℕ → ℕ) : Env where
  image := ofWords (words pidnsWords)
  syms :=
    { initTask := 0x10000
      initNsproxy := 0x20000
      initStructPid := 0x30000
      initPidNs := 0x40000
      initCred := 0x50000
      initUserNs := 0x60000
      initUtsNs := 0x70000
      initNet := 0x80000
      initSignals := 0x90000
      initSighand := 0xA0000
      initFs := 0xB0000 }
  fault := false
  boot := some ⟨112, 80, 96, 104, 64, 72⟩
  junk _ := false

namespace Env

variable {e : Env} {base win want : ℕ} {ws : ℕ → ℕ}

theorem findPtr_words (h : ∀ j < win / 8, e.rd64 (base + 8 * j) = some (ws j)) :
    e.findPtr base win want = (scan (fun j => ws j == want) (win / 8)).map (8 * ·) := by
  unfold findPtr
  congr 1
  refine scan_congr ?_
  intro j hj
  rw [ptrHit, h j hj]
  rfl

theorem findU32_words (h : ∀ j < win / 4, e.rd32 (base + 4 * j) =
    some (ws (j / 2) / 2 ^ (32 * (j % 2)) % 2 ^ 32)) :
    e.findU32 base win want =
      (scan (fun j => ws (j / 2) / 2 ^ (32 * (j % 2)) % 2 ^ 32 == want) (win / 4)).map (4 * ·) := by
  unfold findU32
  congr 1
  refine scan_congr ?_
  intro j hj
  rw [u32Hit, h j hj]
  rfl

end Env

section
variable (p : ℕ → ℕ)

theorem taskWords_lt (j : ℕ) : taskWords j < 2 ^ 64 := by
  unfold taskWords
  split <;> decide

theorem words_task {j : ℕ} (hj : j < 512) : words p (2 ^ 13 + j) = taskWords j := by
  have hdiv : (2 ^ 13 + j) / 2 ^ 13 = 1 := by omega
  have hmod : (2 ^ 13 + j) % 2 ^ 13 = j := by omega
  unfold words
  rw [hdiv, hmod]
  rfl

theorem rd64_task {j : ℕ} (hj : j < 512) :
    (kernel p).rd64 (0x10000 + 8 * j) = some (taskWords j) := by
  have haddr : 0x10000 + 8 * j = 8 * (2 ^ 13 + j) := by omega
  rw [Env.rd64, haddr, ← words_task p hj]
  refine rd_ofWords (by omega) ?_
  rw [words_task p hj]
  exact taskWords_lt j

theorem rd32_task {j : ℕ} (hj : j < 1024) : (kernel p).rd32 (0x10000 + 4 * j) =
    some (taskWords (j / 2) / 2 ^ (32 * (j % 2)) % 2 ^ 32) := by
  have haddr : 0x10000 + 4 * j = 8 * (2 ^ 13 + j / 2) + 4 * (j % 2) := by omega
  rw [Env.rd32, haddr, ← words_task p (by omega : j / 2 < 512)]
  exact rd_ofWords_half (by omega) (by omega)

/-- A pointer of the first task. -/
theorem findPtr_task (want : ℕ) : (kernel p).findPtr 0x10000 DS_ANCHOR_TASK_WIN want =
    (scan (fun j => taskWords j == want) 512).map (8 * ·) :=
  Env.findPtr_words fun _ hj => rd64_task p hj

theorem findU32_task (want : ℕ) : (kernel p).findU32 0x10000 DS_ANCHOR_TASK_WIN want =
    (scan (fun j => taskWords (j / 2) / 2 ^ (32 * (j % 2)) % 2 ^ 32 == want) 1024).map (4 * ·) :=
  Env.findU32_words fun _ hj => rd32_task p hj

theorem taskWords_zero {j : ℕ} (hj : 20 ≤ j) : taskWords j = 0 := by
  unfold taskWords
  split <;> omega

/-- Where the first task has its pointers and its flags. -/
theorem scan_task :
    (∀ wi ∈ [(0x20000, 16), (0x30000, 19), (0xB0000, 15), (0x90000, 17), (0xA0000, 18)],
      scan (fun j => taskWords j == wi.1) 512 = some wi.2) ∧
    scan (fun j => taskWords (j / 2) / 2 ^ (32 * (j % 2)) % 2 ^ 32 ==
      (PF_KTHREAD ||| PF_IDLE)) 1024 = some 10 := by
  refine ⟨fun wi hwi => scan_widen (by decide : 20 ≤ 512) (fun q hq => ?_) ?_,
    scan_widen (by decide : 40 ≤ 1024) (fun q hq => ?_) (by decide +kernel)⟩
  · rw [taskWords_zero hq]
    revert wi
    decide
  · revert wi
    decide +kernel
  · rw [taskWords_zero (by omega), Nat.zero_div]
    rfl

theorem findPtr_scan {want i : ℕ} (h : scan (fun j => taskWords j == want) 512 = some i) :
    (kernel p).findPtr 0x10000 DS_ANCHOR_TASK_WIN want = some (8 * i) := by
  rw [findPtr_task, h, Option.map_some]

theorem kernel_nsproxy : (kernel p).findPtr 0x10000 DS_ANCHOR_TASK_WIN 0x20000 = some 128 :=
  findPtr_scan p (scan_task.1 (0x20000, 16) (by decide))

theorem kernel_threadPid : (kernel p).findPtr 0x10000 DS_ANCHOR_TASK_WIN 0x30000 = some 152 :=
  findPtr_scan p (scan_task.1 (0x30000, 19) (by decide))

theorem kernel_fs : (kernel p).findPtr 0x10000 DS_ANCHOR_TASK_WIN 0xB0000 = some 120 :=
  findPtr_scan p (scan_task.1 (0xB0000, 15) (by decide))

theorem kernel_signal : (kernel p).findPtr 0x10000 DS_ANCHOR_TASK_WIN 0x90000 = some 136 :=
  findPtr_scan p (scan_task.1 (0x90000, 17) (by decide))

theorem kernel_sighand : (kernel p).findPtr 0x10000 DS_ANCHOR_TASK_WIN 0xA0000 = some 144 :=
  findPtr_scan p (scan_task.1 (0xA0000, 18) (by decide))

theorem kernel_flags :
    (kernel p).findU32 0x10000 DS_ANCHOR_TASK_WIN (PF_KTHREAD ||| PF_IDLE) = some 40 := by
  rw [findU32_task, scan_task.2, Option.map_some]

theorem anchorTask_kernel : (kernel p).anchorTask = some
    [(.taskComm, 112), (.taskPid, 80), (.taskTgid, 84), (.taskRealCred, 96), (.taskCred, 104),
      (.taskNsproxy, 128), (.taskThreadPid, 152), (.taskTasks, 64), (.taskMm, 72), (.taskFs, 120),
      (.taskSignal, 136), (.taskSighand, 144), (.taskFlags, 40)] := by
  have hchecks : (kernel p).taskChecks ⟨112, 80, 96, 104, 64, 72⟩ = true := by
    unfold Env.taskChecks
    have h₁ := rd64_task p (by decide : 14 < 512)
    have h₂ := rd64_task p (by decide : 10 < 512)
    have h₃ := rd64_task p (by decide : 12 < 512)
    have h₄ := rd64_task p (by decide : 13 < 512)
    simp only [kernel] at h₁ h₂ h₃ h₄ ⊢
    rw [h₁, h₂, h₃, h₄]
    decide
  have hns := kernel_nsproxy p
  have htp := kernel_threadPid p
  have hfs := kernel_fs p
  have hsig := kernel_signal p
  have hsh := kernel_sighand p
  have hflags := kernel_flags p
  have hoffs : (kernel p).taskOffs = some ⟨112, 80, 96, 104, 64, 72⟩ := rfl
  unfold Env.anchorTask
  rw [hoffs, Option.bind_some, hchecks]
  unfold Env.taskPtr
  simp only [kernel] at hns htp hfs hsig hsh hflags ⊢
  simp only [hns, htp, hfs, hsig, hsh, hflags]
  decide

end

/-- The first pid namespace of 5.10: its count, the idr, and the rest in order. -/
def pidns510 : ℕ → ℕ
  | 6 => PIDNS_ADDING + 5
  | 7 => 0xC0000
  | 8 => 0xF0000
  | 11 => 0x60000
  | 15 => 0xF8000
  | 16 => PROC_PID_INIT_INO
  | _ => 0

/-- And one that has the user namespace in front. -/
def pidnsUserFirst : ℕ → ℕ
  | 1 => 0x60000
  | 6 => PIDNS_ADDING + 5
  | 7 => 0xC0000
  | 8 => 0xF0000
  | 15 => 0xF8000
  | 16 => PROC_PID_INIT_INO
  | _ => 0

/-- No type info: the anchors are asked. -/
def noBtf : Ti := ⟨true, false, fun _ => false, fun _ => none, fun _ => 0⟩

/-- What the stages after the first find in such a kernel. -/
structure Finds (p : ℕ → ℕ) (u r n z : ℕ) : Prop where
  nsproxy : (kernel p).anchorNsproxy = some [(.nsproxyUtsNs, 8), (.nsproxyIpcNs, 16),
    (.nsproxyMntNs, 24), (.nsproxyPidNsForChildren, 32), (.nsproxyNetNs, 40)]
  pid : (kernel p).anchorPid = some [(.upidNr, 0), (.upidNs, 8), (.pidNumbers, 96), (.pidLevel, 4)]
  pidns : (kernel p).anchorPidns inRow = some (Env.pidnsFound u r n, z)

/-- Enough is found to trust the layout. -/
theorem Finds.trusted {p : ℕ → ℕ} {u r n z : ℕ} (h : Finds p u r n z) :
    (droidLayoutInit noBtf ((kernel p).layoutAnchor inRow)).trusted = true := by
  have hfound : ∀ f ∈ CompatLayout.required, f ∈ ((kernel p).found inRow).map (·.1) := by
    rw [Env.found, anchorTask_kernel, h.nsproxy, h.pid, h.pidns]
    simp only [Env.pidnsFound, Option.getD_some, Option.map_some, List.map_append, List.map_cons,
      List.map_nil]
    decide
  exact trusted_of_found rfl rfl hfound h.pid h.pidns

theorem Finds.marks {p : ℕ → ℕ} {u r n z u' r' i' : ℕ} (h : Finds p u r n z)
    (hm : (kernel p).Marks u' r' i') : u' = u ∧ r' = r ∧ i' - inRow.offsetofInum = n := by
  obtain ⟨u₀, r₀, i₀, -, -, hfound, -, -, huniq⟩ := Env.anchorPidns_eq h.pidns
  obtain ⟨rfl, rfl, rfl⟩ := huniq u' r' i' hm
  simp only [Env.pidnsFound, List.cons.injEq, Prod.mk.injEq, true_and] at hfound
  exact ⟨hfound.1.symm, hfound.2.1.symm, hfound.2.2.2.1.symm⟩

/-- The two kernels differ in their pid namespaces only. -/
theorem finds_kernels : (∀ p ∈ [pidns510, pidnsUserFirst],
    (kernel p).anchorNsproxy = some [(.nsproxyUtsNs, 8), (.nsproxyIpcNs, 16),
      (.nsproxyMntNs, 24), (.nsproxyPidNsForChildren, 32), (.nsproxyNetNs, 40)] ∧
    (kernel p).anchorPid =
      some [(.upidNr, 0), (.upidNs, 8), (.pidNumbers, 96), (.pidLevel, 4)]) ∧
    (kernel pidns510).anchorPidns inRow = some (Env.pidnsFound 88 56 112, 136) ∧
    (kernel pidnsUserFirst).anchorPidns inRow = some (Env.pidnsFound 8 56 112, 136) := by
  decide +kernel

theorem finds_510 : Finds pidns510 88 56 112 136 :=
  have h := finds_kernels.1 pidns510 (by simp)
  ⟨h.1, h.2, finds_kernels.2.1⟩

theorem finds_userFirst : Finds pidnsUserFirst 8 56 112 136 :=
  have h := finds_kernels.1 pidnsUserFirst (by simp)
  ⟨h.1, h.2, finds_kernels.2.2⟩

/-- There is room in 5.10. -/
theorem pidns_fits_510 :
    PidnsFits (kernel pidns510)
      (droidLayoutInit noBtf ((kernel pidns510).layoutAnchor inRow)).layout inRow := by
  refine (pidns_fits (kernel pidns510) inRow noBtf rfl rfl finds_510.trusted).2 ?_
  intro u r i hm
  obtain ⟨rfl, rfl, hn⟩ := finds_510.marks hm
  rw [hn]
  constructor <;> decide

/-- With the user namespace in front its pointer is written over by the idr. -/
theorem pidns_overlap : ¬∀ (e : Env) (b : Build) (ti : Ti), ti.started = true →
    ti.available = false → (droidLayoutInit ti (e.layoutAnchor b)).trusted = true →
      PidnsFits e (droidLayoutInit ti (e.layoutAnchor b)).layout b := by
  intro h
  have hfits := h (kernel pidnsUserFirst) inRow noBtf rfl rfl finds_userFirst.trusted
  obtain ⟨u, r, i, hm, hle, hat, huniq⟩ := trusted_pidns (e := kernel pidnsUserFirst) (b := inRow)
    (show noBtf.started = true from rfl) rfl finds_userFirst.trusted
  have hroomy := (hat.fits_iff hm.user.1 hm.reaper.1 hm.reaper.2.1 fun u' r' i' hm' => by
    rw [Nat.sub_add_cancel hle, (huniq u' r' i' hm').2.2]).1 hfits
  obtain ⟨rfl, -, -⟩ := finds_userFirst.marks hm
  have hidr := hroomy.idr_user
  revert hidr
  decide

end DroidLkm.Layout
