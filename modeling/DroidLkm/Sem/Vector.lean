/-
  SysV semaphores — what a completed operation vector does.

  * `attempt_fail`, `attempt_ok`: a nonzero result leaves the state, a zero
    result performs all the operations;
  * `attempt_semval`, `attempt_total`: the value of a semaphore changes by the
    operations on it, and its value plus the adjustments of the array's undo
    structures by those without `SEM_UNDO`;
  * `attempt_ranges`: values stay in `[0, SEMVMX]` and adjustments in the range
    of a `short`;
  * `zero_attempt`, `decrement_blocked`: when a vector of wait-for-zero
    operations and a single decrement have to wait.
-/
import DroidLkm.Lib.Sums
import DroidLkm.Sem.Perform
import Mathlib.Algebra.Order.BigOperators.Group.List
import Mathlib.Algebra.Order.Ring.Int
import Mathlib.Tactic.Ring

namespace DroidLkm.Sem

variable {un : Option ℕ} {m m' : SemState} {sop : Sembuf} {sops : List Sembuf} {i : ℕ}

/-! ## Results -/

theorem blockCode_ne_zero : blockCode sop ≠ 0 := by
  unfold blockCode EAGAIN; split <;> decide

theorem firstStop_ne_ok {v : Verdict} (h : firstStop un m sops = some (sop, v)) : v ≠ .ok := by
  induction sops generalizing m with
  | nil => cases h
  | cons s rest ih =>
    cases hv : verdict un m s with
    | ok => simp only [firstStop, hv] at h; exact ih h
    | wouldBlock => simp only [firstStop, hv] at h; cases h; simp
    | outOfRange => simp only [firstStop, hv] at h; cases h; simp

/-- The result of a vector that is stopped. -/
theorem attempt_stop {v : Verdict} (h : firstStop un m sops = some (sop, v)) :
    (attempt un m sops).result = (if v = .outOfRange then -ERANGE else blockCode sop) ∧
      (attempt un m sops).state = m := by
  cases v with
  | ok => exact absurd rfl (firstStop_ne_ok h)
  | wouldBlock => simp [attempt, h]
  | outOfRange => simp [attempt, h]

theorem attempt_ok_iff : (attempt un m sops).result = 0 ↔ firstStop un m sops = none := by
  rcases h : firstStop un m sops with _ | ⟨s, v⟩
  · simp [attempt, h]
  · rw [(attempt_stop h).1]
    cases v with
    | ok => exact absurd rfl (firstStop_ne_ok h)
    | wouldBlock => simp [blockCode_ne_zero]
    | outOfRange => simp [ERANGE]

/-- A vector that does not complete leaves the state as it is. -/
theorem attempt_fail (h : (attempt un m sops).result ≠ 0) : (attempt un m sops).state = m := by
  rcases hs : firstStop un m sops with _ | ⟨s, v⟩
  · exact absurd (attempt_ok_iff.2 hs) h
  · exact (attempt_stop hs).2

/-- A vector that completes performs all its operations. -/
theorem attempt_ok (h : (attempt un m sops).result = 0) :
    (attempt un m sops).state = sops.foldl (applySop un) m := by
  rw [attempt_ok_iff] at h; simp [attempt, h]

/-! ## Values -/

/-- The operations on `i`, added up. -/
def opSum (sops : List Sembuf) (i : ℕ) : ℤ :=
  (sops.map fun s => if s.semNum = i then s.semOp else 0).sum

/-- The operations on `i` that do not carry `SEM_UNDO`, added up. -/
def plainSum (sops : List Sembuf) (i : ℕ) : ℤ :=
  (sops.map fun s => if s.semNum = i ∧ ¬s.undo then s.semOp else 0).sum

theorem foldl_semval : (sops.foldl (applySop un) m).semval i = m.semval i + opSum sops i := by
  induction sops generalizing m with
  | nil => simp [opSum]
  | cons s rest ih =>
    rw [List.foldl_cons, ih, applySop_semval, Function.update_apply, opSum, opSum, List.map_cons,
      List.sum_cons]
    by_cases h : i = s.semNum
    · subst h; simp; ring
    · simp [h, Ne.symm h]

theorem attempt_semval (h : (attempt un m sops).result = 0) :
    (attempt un m sops).state.semval i = m.semval i + opSum sops i := by
  rw [attempt_ok h, foldl_semval]

theorem opSum_eq_zero (h : ∀ s ∈ sops, s.semNum ≠ i) : opSum sops i = 0 := by
  refine List.sum_eq_zero fun x hx => ?_
  obtain ⟨s, hs, rfl⟩ := List.mem_map.1 hx
  simp [h s hs]

theorem opSum_nonpos (h : ∀ s ∈ sops, s.semNum = i → s.semOp ≤ 0) : opSum sops i ≤ 0 := by
  refine (List.sum_le_card_nsmul _ 0 fun x hx => ?_).trans (nsmul_zero _).le
  obtain ⟨s, hs, rfl⟩ := List.mem_map.1 hx
  split
  · next hi => exact h s hs hi
  · exact le_rfl

/-! ## Values and adjustments -/

/-- The value of semaphore `i` plus its adjustments in the undo structures
    `l`. -/
def total (m : SemState) (l : List ℕ) (i : ℕ) : ℤ :=
  m.semval i + (l.map fun u => m.semadj u i).sum

/-- The undo structure of a vector that carries `SEM_UNDO` is one of `l`. -/
def UndoIn (un : Option ℕ) (sops : List Sembuf) (l : List ℕ) : Prop :=
  (∃ s ∈ sops, s.undo) → ∃ u ∈ l, un = some u

theorem applySop_total {l : List ℕ} (hl : l.Nodup) (hu : sop.undo → ∃ u ∈ l, un = some u) :
    total (applySop un m sop) l i =
      total m l i + if sop.semNum = i ∧ ¬sop.undo then sop.semOp else 0 := by
  have hval : (applySop un m sop).semval i =
      m.semval i + if sop.semNum = i then sop.semOp else 0 := by
    rw [applySop_semval, Function.update_apply]
    by_cases h : i = sop.semNum
    · subst h; simp
    · simp [h, Ne.symm h]
  unfold total
  rw [hval]
  by_cases hundo : sop.undo
  · obtain ⟨u, hul, rfl⟩ := hu hundo
    have hadj : ∀ v, (applySop (some u) m sop).semadj v i =
        m.semadj v i - if v = u ∧ sop.semNum = i then sop.semOp else 0 := by
      intro v
      rw [applySop_semadj_some, if_pos hundo]
      by_cases hv : v = u
      · subst hv
        by_cases h : i = sop.semNum
        · subst h; simp
        · simp [h, Ne.symm h]
      · simp [hv]
    rw [ListSum.sum_change hl hul (f := fun v => m.semadj v i) fun v _ hv => by simp [hadj, hv]]
    simp only [hadj, hundo]
    by_cases h : sop.semNum = i <;> simp [h]; ring
  · have hadj : ∀ v, (applySop un m sop).semadj v i = m.semadj v i := by
      intro v
      cases un with
      | none => rw [applySop_semadj_none]
      | some u => rw [applySop_semadj_some, if_neg hundo]
    simp only [hadj, hundo]
    by_cases h : sop.semNum = i <;> simp [h]; ring

/-- **Conservation.**  A completed vector changes the value of a semaphore plus
    its adjustments by the operations without `SEM_UNDO`. -/
theorem attempt_total {l : List ℕ} (hl : l.Nodup) (hu : UndoIn un sops l)
    (h : (attempt un m sops).result = 0) :
    total (attempt un m sops).state l i = total m l i + plainSum sops i := by
  rw [attempt_ok h]
  clear h
  induction sops generalizing m with
  | nil => simp [plainSum]
  | cons s rest ih =>
    rw [List.foldl_cons, ih fun ⟨t, ht, h⟩ => hu ⟨t, List.mem_cons_of_mem _ ht, h⟩,
      applySop_total hl fun hs => hu ⟨s, List.mem_cons_self, hs⟩, plainSum, plainSum,
      List.map_cons, List.sum_cons, add_assoc]

/-! ## Ranges -/

/-- Values are in `[0, SEMVMX]`, and adjustments fit their `short`. -/
structure Ranges (m : SemState) : Prop where
  val : ∀ i, 0 ≤ m.semval i ∧ m.semval i ≤ SEMVMX
  adj : ∀ u i, -SEMAEM - 1 ≤ m.semadj u i ∧ m.semadj u i ≤ SEMAEM

theorem verdict_ok_iff : verdict un m sop = .ok ↔
    (sop.semOp = 0 → m.semval sop.semNum = 0) ∧ 0 ≤ m.semval sop.semNum + sop.semOp ∧
    m.semval sop.semNum + sop.semOp ≤ SEMVMX ∧
    (sop.undo → -SEMAEM - 1 ≤ m.adj un sop.semNum - sop.semOp ∧
      m.adj un sop.semNum - sop.semOp ≤ SEMAEM) := by
  unfold verdict
  dsimp only
  split_ifs with h1 h2 h3 h4 h5 <;> simp_all; all_goals omega

theorem applySop_ranges (hm : Ranges m) (hv : verdict un m sop = .ok) :
    Ranges (applySop un m sop) := by
  obtain ⟨-, h0, h1, ha⟩ := verdict_ok_iff.1 hv
  refine ⟨fun j => ?_, fun v j => ?_⟩
  · rw [applySop_semval, Function.update_apply]
    split
    · exact ⟨h0, h1⟩
    · exact hm.val j
  · cases un with
    | none => rw [applySop_semadj_none]; exact hm.adj v j
    | some u =>
      rw [applySop_semadj_some]
      split
      · next hu =>
        by_cases hvu : v = u
        · subst hvu
          by_cases hj : j = sop.semNum
          · subst hj; simpa [SemState.adj] using ha hu
          · simpa [hj] using hm.adj v j
        · simpa [hvu] using hm.adj v j
      · exact hm.adj v j

theorem foldl_ranges (hm : Ranges m) (h : firstStop un m sops = none) :
    Ranges (sops.foldl (applySop un) m) := by
  induction sops generalizing m with
  | nil => exact hm
  | cons s rest ih =>
    cases hv : verdict un m s with
    | ok => simp only [firstStop, hv] at h; exact ih (applySop_ranges hm hv) h
    | wouldBlock => simp [firstStop, hv] at h
    | outOfRange => simp [firstStop, hv] at h

/-- **Ranges.**  No vector takes a value or an adjustment out of its range. -/
theorem attempt_ranges (hm : Ranges m) : Ranges (attempt un m sops).state := by
  by_cases h : (attempt un m sops).result = 0
  · rw [attempt_ok h]; exact foldl_ranges hm (attempt_ok_iff.1 h)
  · rw [attempt_fail h]; exact hm

/-! ## When an operation waits -/

theorem applySop_zero (h : sop.semOp = 0) : applySop un m sop = m := by
  obtain ⟨val, adj⟩ := m
  cases un with
  | none => cases hu : sop.undo <;> simp [applySop, SemState.setVal, SemState.setAdj, h, hu]
  | some u =>
    cases hu : sop.undo <;>
      simp [applySop, SemState.setVal, SemState.setAdj, SemState.adj, h, hu]

theorem zero_verdict (hm : Ranges m) (h : sop.semOp = 0) :
    verdict un m sop = if m.semval sop.semNum = 0 then .ok else .wouldBlock := by
  have hadj : -SEMAEM - 1 ≤ m.adj un sop.semNum ∧ m.adj un sop.semNum ≤ SEMAEM := by
    cases un with
    | none => simp [SemState.adj, SEMAEM, SEMVMX]
    | some u => exact hm.adj u _
  split
  · next h0 =>
    rw [verdict_ok_iff, h0, h]
    simpa [SEMVMX] using fun _ => hadj
  · next h0 => simp [verdict, h, h0]

/-- A vector of wait-for-zero operations changes nothing; it completes exactly
    when its semaphores are all zero, and otherwise it blocks. -/
theorem zero_attempt (un : Option ℕ) (hm : Ranges m) (hz : ∀ s ∈ sops, s.semOp = 0) :
    (attempt un m sops).state = m ∧
    ((∀ s ∈ sops, m.semval s.semNum = 0) → (attempt un m sops).result = 0) ∧
    ((∃ s ∈ sops, m.semval s.semNum ≠ 0) →
      ∃ s ∈ sops, m.semval s.semNum ≠ 0 ∧ (attempt un m sops).result = blockCode s) := by
  have hstop : firstStop un m sops =
      (sops.find? fun s => m.semval s.semNum ≠ 0).map fun s => (s, .wouldBlock) := by
    induction sops with
    | nil => rfl
    | cons s rest ih =>
      have hs := hz s List.mem_cons_self
      by_cases h0 : m.semval s.semNum = 0
      · simp [firstStop, zero_verdict hm hs, h0, applySop_zero hs,
          ih fun t ht => hz t (List.mem_cons_of_mem _ ht)]
      · simp [firstStop, zero_verdict hm hs, h0]
  rcases hf : sops.find? fun s => m.semval s.semNum ≠ 0 with _ | s
  · rw [hf, Option.map_none] at hstop
    have hall : ∀ s ∈ sops, m.semval s.semNum = 0 := by simpa using hf
    refine ⟨?_, fun _ => attempt_ok_iff.2 hstop, ?_⟩
    · rw [attempt_ok (attempt_ok_iff.2 hstop)]
      exact List.foldlRecOn (motive := fun m' => m' = m) sops _ rfl
        fun m' h s hs => by rw [h, applySop_zero (hz s hs)]
    · rintro ⟨s, hs, h⟩
      exact absurd (hall s hs) h
  · rw [hf, Option.map_some] at hstop
    have hs := List.mem_of_find?_eq_some hf
    have hne : m.semval s.semNum ≠ 0 := by simpa using List.find?_some hf
    obtain ⟨hres, hst⟩ := attempt_stop hstop
    exact ⟨hst, fun hall => absurd (hall s hs) hne, fun _ => ⟨s, hs, hne, hres⟩⟩

/-- A single decrement without `IPC_NOWAIT` waits exactly when the value is too
    small. -/
theorem decrement_blocked (hop : sop.semOp < 0) (hnw : sop.nowait = false) :
    0 < (attempt un m [sop]).result ↔ m.semval sop.semNum + sop.semOp < 0 := by
  have hne : ¬(sop.semOp = 0 ∧ m.semval sop.semNum ≠ 0) := fun h => hop.ne h.1
  by_cases hlt : m.semval sop.semNum + sop.semOp < 0
  · simp [attempt, firstStop, verdict, hne, hlt, blockCode, hnw]
  · refine iff_of_false ?_ hlt
    cases hv : verdict un m sop with
    | ok => simp [attempt, firstStop, hv]
    | wouldBlock =>
      exfalso
      simp only [verdict, if_neg hne, if_neg hlt] at hv
      split_ifs at hv
    | outOfRange => simp [attempt, firstStop, hv, ERANGE]

end DroidLkm.Sem
