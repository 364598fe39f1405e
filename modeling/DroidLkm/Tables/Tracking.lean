/-
  The table of saved entries says which slots differ from the original.

  * `step`: a patch or an unpatch of either table, with what its write returns;
  * `Tracks m s`: where `m` is the original contents, the saved entries of a
    slot are its original contents, once, if it differs, and none if not;
  * `Good s a`: a patch that gets to its write is one that changes the slot, and
    an unpatch that finds an entry restores it;
  * `tracks_step`: from a state that tracks, these are the steps that keep it so;
  * `slotPatch_saves`: the error of a patch leaves the table of saved entries
    alone, unless it is the error of the write.
-/
import DroidLkm.Tables.Patch
import DroidLkm.Lib.Machine
import Mathlib.Tactic.ByContra

namespace DroidLkm.Tables

open Machine SwapLog

variable {s t : State} {tab : Option Tab} {nr : ℤ} {fn : ℕ} {err : ℤ} {k : Tab × ℤ}

namespace State

/-- The original that is kept of a slot. -/
def saved (s : State) (k : Tab × ℤ) : Option ℕ := (lookup Save.slot s.saves k).map Save.orig

/-- No slot is saved twice. -/
def Once (s : State) : Prop := Keyed Save.slot s.saves

/-- A patch of the slot gets as far as the write. -/
def Free (s : State) (tab : Option Tab) (nr : ℤ) : Prop :=
  ∃ t, tab = some t ∧ 0 ≤ nr ∧ s.saves.length < slotSaveMax ∧ s.saved (t, nr) = none

instance : Decidable (s.Free tab nr) :=
  match tab with
  | none => isFalse fun ⟨_, h, _⟩ => by cases h
  | some t =>
    decidable_of_iff (0 ≤ nr ∧ s.saves.length < slotSaveMax ∧ s.saved (t, nr) = none)
      ⟨fun h => ⟨t, rfl, h⟩, fun ⟨_, ht, h⟩ => Option.some.inj ht ▸ h⟩

/-! ## One slot -/

theorem saved_eq_none : s.saved k = none ↔ ∀ e ∈ s.saves, e.slot ≠ k := by
  rw [saved, Option.map_eq_none_iff, lookup_eq_none]

@[simp] theorem patchWrite_saves (s : State) (k : Tab × ℤ) (v : ℕ) (err : ℤ) :
    (s.patchWrite k v err).2.saves = s.saves := by
  unfold patchWrite; split <;> rfl

@[simp] theorem patchWrite_orig (s : State) (k : Tab × ℤ) (v : ℕ) (err : ℤ) :
    (s.patchWrite k v err).2.orig = s.orig := by
  unfold patchWrite; split <;> rfl

@[simp] theorem patchWrite_patched (s : State) (k : Tab × ℤ) (v : ℕ) (err : ℤ) :
    (s.patchWrite k v err).2.patched = s.patched := by
  unfold patchWrite; split <;> rfl

theorem patchWrite_mem (s : State) (k : Tab × ℤ) (v : ℕ) (err : ℤ) :
    (s.patchWrite k v err).2.mem = if err = 0 then Function.update s.mem k v else s.mem := by
  unfold patchWrite; split <;> rfl

theorem any_slot {t : Tab} : (s.saves.any fun e => e.tab = t ∧ e.nr = nr) = true ↔
    s.saved (t, nr) ≠ none := by
  rw [Ne, saved_eq_none, List.any_eq_true, not_forall]
  simp [Save.slot]

/-- A patch of a free slot: the entry, then the write. -/
theorem slotPatch_free {t : Tab} (h : s.Free (some t) nr) :
    s.slotPatch (some t) nr fn err = (err, some (s.mem (t, nr)),
      (State.patchWrite { s with saves := s.saves ++ [⟨t, nr, s.mem (t, nr)⟩] } (t, nr) fn err).2) := by
  obtain ⟨t', ht, hnr, hlen, hnone⟩ := h
  obtain rfl := Option.some.inj ht
  unfold slotPatch
  dsimp only
  rw [if_neg (Int.not_lt.2 hnr), if_neg (Nat.not_le.2 hlen), if_neg fun h => any_slot.1 h hnone]
  rfl

/-- A patch of a slot that is not free fails and does nothing. -/
theorem slotPatch_not_free (h : ¬ s.Free tab nr) :
    (s.slotPatch tab nr fn err).1 ≠ 0 ∧ (s.slotPatch tab nr fn err).2 = (none, s) := by
  cases tab with
  | none => exact ⟨by simp [slotPatch, EINVAL], rfl⟩
  | some t =>
    unfold slotPatch
    dsimp only
    split
    case isTrue => exact ⟨by simp [EINVAL], rfl⟩
    split
    case isTrue => exact ⟨by simp [ENOSPC], rfl⟩
    split
    case isTrue => exact ⟨by simp [EEXIST], rfl⟩
    case isFalse hnr hlen hany =>
      refine absurd ⟨t, rfl, Int.not_lt.1 hnr, Nat.not_le.1 hlen, ?_⟩ h
      exact Classical.not_not.1 fun hs => hany (any_slot.2 hs)

theorem slotPatch_once (hs : s.Once) : (s.slotPatch tab nr fn err).2.2.Once := by
  by_cases h : s.Free tab nr
  · obtain ⟨t, rfl, -, -, hnone⟩ := id h
    rw [slotPatch_free h, Once, patchWrite_saves]
    exact hs.concat fun e he => saved_eq_none.1 hnone e he
  · rw [(slotPatch_not_free h).2]; exact hs

theorem slotPatch_mem {t : Tab} (h : s.Free (some t) nr) :
    (s.slotPatch (some t) nr fn err).2.2.mem =
      if err = 0 then Function.update s.mem (t, nr) fn else s.mem := by
  rw [slotPatch_free h, patchWrite_mem]

theorem slotPatch_saved {t : Tab} (h : s.Free (some t) nr) (k : Tab × ℤ) :
    (s.slotPatch (some t) nr fn err).2.2.saved k =
      if (t, nr) = k then some (s.mem (t, nr)) else s.saved k := by
  obtain ⟨t', ht, -, -, hnone⟩ := id h
  obtain rfl := Option.some.inj ht
  have hfree : lookup Save.slot s.saves (t, nr) = none := by
    rwa [saved, Option.map_eq_none_iff] at hnone
  have hslot : Save.slot ⟨t, nr, s.mem (t, nr)⟩ = (t, nr) := rfl
  rw [slotPatch_free h, saved, patchWrite_saves, lookup_concat (by rwa [hslot]), hslot,
    apply_ite (Option.map Save.orig)]
  rfl

theorem slotPatch_length : (s.slotPatch tab nr fn err).2.2.saves.length ≤ s.saves.length + 1 := by
  by_cases h : s.Free tab nr
  · obtain ⟨t, rfl, -⟩ := id h
    rw [slotPatch_free h, patchWrite_saves, List.length_append]
    exact Nat.le_refl _
  · rw [(slotPatch_not_free h).2]
    exact Nat.le_succ _

/-- A patch is about the table and the saved entries only. -/
theorem slotPatch_rest : (s.slotPatch tab nr fn err).2.2.orig = s.orig ∧
    (s.slotPatch tab nr fn err).2.2.patched = s.patched := by
  by_cases h : s.Free tab nr
  · obtain ⟨t, rfl, -⟩ := id h
    rw [slotPatch_free h, patchWrite_orig, patchWrite_patched]
    exact ⟨rfl, rfl⟩
  · rw [(slotPatch_not_free h).2]
    exact ⟨rfl, rfl⟩

theorem slotUnpatch_none {t : Tab} (h : s.saved (t, nr) = none) :
    s.slotUnpatch (some t) nr err = s := by
  unfold slotUnpatch
  dsimp only
  rw [take_eq_none.2 (saved_eq_none.1 h)]

/-- An unpatch of a saved slot: the write, and the entry is dropped. -/
theorem slotUnpatch_some {t : Tab} {o : ℕ} (err : ℤ) (hs : s.Once) (h : s.saved (t, nr) = some o) :
    ∃ e saves, take Save.slot s.saves (t, nr) = some (e, saves) ∧ e.orig = o ∧
      s.slotUnpatch (some t) nr err = { (s.patchWrite (t, nr) o err).2 with saves } := by
  obtain ⟨e, he, rfl⟩ := Option.map_eq_some_iff.1 h
  rw [← take_fst hs, Option.map_eq_some_iff] at he
  obtain ⟨⟨e', saves⟩, ht, rfl⟩ := he
  refine ⟨e', saves, ht, rfl, ?_⟩
  unfold slotUnpatch
  dsimp only
  rw [ht]

theorem slotUnpatch_once (hs : s.Once) : (s.slotUnpatch tab nr err).Once := by
  cases tab with
  | none => exact hs
  | some t =>
    cases h : s.saved (t, nr) with
    | none => rw [slotUnpatch_none h]; exact hs
    | some o =>
      obtain ⟨e, saves, ht, -, heq⟩ := slotUnpatch_some err hs h
      rw [heq]
      exact hs.of_take ht

theorem slotUnpatch_mem {t : Tab} {o : ℕ} (hs : s.Once) (h : s.saved (t, nr) = some o) :
    (s.slotUnpatch (some t) nr err).mem =
      if err = 0 then Function.update s.mem (t, nr) o else s.mem := by
  obtain ⟨e, saves, -, -, heq⟩ := slotUnpatch_some err hs h
  rw [heq]
  exact patchWrite_mem s (t, nr) o err

theorem slotUnpatch_saved {t : Tab} (hs : s.Once) (k : Tab × ℤ) :
    (s.slotUnpatch (some t) nr err).saved k = if (t, nr) = k then none else s.saved k := by
  cases h : s.saved (t, nr) with
  | none =>
    rw [slotUnpatch_none h]
    split
    case isTrue hk => rw [← hk, h]
    case isFalse => rfl
  | some o =>
    obtain ⟨e, saves, ht, -, heq⟩ := slotUnpatch_some err hs h
    rw [heq, saved, lookup_take hs ht, apply_ite (Option.map Save.orig)]
    rfl

theorem slotUnpatch_length (hs : s.Once) :
    (s.slotUnpatch tab nr err).saves.length ≤ s.saves.length := by
  cases tab with
  | none => exact Nat.le_refl _
  | some t =>
    cases h : s.saved (t, nr) with
    | none => exact Nat.le_of_eq (congrArg (fun s => s.saves.length) (slotUnpatch_none h))
    | some o =>
      obtain ⟨e, saves, ht, -, heq⟩ := slotUnpatch_some err hs h
      rw [heq, ← (take_eq_some ht).2.length_eq]
      exact Nat.le_succ _

theorem slotUnpatch_rest (hs : s.Once) : (s.slotUnpatch tab nr err).orig = s.orig ∧
    (s.slotUnpatch tab nr err).patched = s.patched := by
  cases tab with
  | none => exact ⟨rfl, rfl⟩
  | some t =>
    cases h : s.saved (t, nr) with
    | none => rw [slotUnpatch_none h]; exact ⟨rfl, rfl⟩
    | some o =>
      obtain ⟨e, saves, -, -, heq⟩ := slotUnpatch_some err hs h
      rw [heq]
      exact ⟨patchWrite_orig .., patchWrite_patched ..⟩

/-- **The error of a patch.**  It leaves the table of saved entries alone, unless
    it is the error of the write. -/
theorem slotPatch_saves :
    ((s.slotPatch tab nr fn err).1 ≠ 0 → (s.slotPatch tab nr fn err).2.2.saves = s.saves) ↔
      ¬ (s.Free tab nr ∧ err ≠ 0) := by
  by_cases h : s.Free tab nr
  · obtain ⟨t, rfl, -⟩ := id h
    rw [slotPatch_free h, patchWrite_saves]
    simp [h]
  · simp [h, (slotPatch_not_free h).2]

end State

/-! ## Sequences of calls -/

/-- A call; `err` is what its write returns. -/
inductive Act where
  | patch (tab : Option Tab) (nr : ℤ) (fn : ℕ) (err : ℤ)
  | unpatch (tab : Option Tab) (nr : ℤ) (err : ℤ)

def step (s : State) : Act → Option State
  | .patch tab nr fn err => some (s.slotPatch tab nr fn err).2.2
  | .unpatch tab nr err => some (s.slotUnpatch tab nr err)

/-- The saved entries of a slot are its original contents, once, if it has others
    now, and none if not. -/
def Tracks (m : Tab × ℤ → ℕ) (s : State) : Prop :=
  ∀ k, (s.saves.filter fun e => e.slot = k) = if s.mem k = m k then [] else [⟨k.1, k.2, m k⟩]

/-- A patch that gets to its write changes the slot, an unpatch that finds an
    entry restores it. -/
def Good (s : State) : Act → Prop
  | .patch tab nr fn err => ∀ t, tab = some t → s.Free tab nr → err = 0 ∧ fn ≠ s.mem (t, nr)
  | .unpatch tab nr err => ∀ t, tab = some t → s.saved (t, nr) ≠ none → err = 0

instance (s : State) : (a : Act) → Decidable (Good s a)
  | .patch none _ _ _ | .unpatch none _ _ => isTrue fun _ h => by cases h
  | .patch (some t) nr fn err =>
    decidable_of_iff (s.Free (some t) nr → err = 0 ∧ fn ≠ s.mem (t, nr))
      ⟨fun h _ ht => Option.some.inj ht ▸ h, fun h => h t rfl⟩
  | .unpatch (some t) nr err =>
    decidable_of_iff (s.saved (t, nr) ≠ none → err = 0)
      ⟨fun h _ ht => Option.some.inj ht ▸ h, fun h => h t rfl⟩

variable {m : Tab × ℤ → ℕ} {a : Act}

/-- What is saved of a slot whose original contents are `m k`. -/
def State.Right (s : State) (m : Tab × ℤ → ℕ) (k : Tab × ℤ) : Prop :=
  s.saved k = if s.mem k = m k then none else some (m k)

theorem tracks_iff (hs : s.Once) : Tracks m s ↔ ∀ k, s.Right m k := by
  refine forall_congr' fun k => ?_
  rw [filter_key hs, State.Right, State.saved]
  cases hl : lookup Save.slot s.saves k with
  | none => split <;> simp
  | some e =>
    obtain ⟨-, rfl⟩ := (lookup_eq_some hs).1 hl
    obtain ⟨t, n, o⟩ := e
    split <;> simp [Save.slot]

theorem step_once (hs : s.Once) (h : step s a = some t) : t.Once := by
  cases a with
  | patch tab nr fn err => obtain rfl := Option.some.inj h; exact State.slotPatch_once hs
  | unpatch tab nr err => obtain rfl := Option.some.inj h; exact State.slotUnpatch_once hs

/-- The slots other than the one that a step is about. -/
theorem right_congr (hsaved : t.saved k = s.saved k) (hmem : t.mem k = s.mem k) :
    t.Right m k ↔ s.Right m k := by
  rw [State.Right, State.Right, hsaved, hmem]

theorem right_patch {tb : Tab} (hr : ∀ k, s.Right m k) (h : s.Free (some tb) nr) :
    (∀ k, (s.slotPatch (some tb) nr fn err).2.2.Right m k) ↔ err = 0 ∧ fn ≠ s.mem (tb, nr) := by
  have hm : s.mem (tb, nr) = m (tb, nr) := by
    obtain ⟨t', ht, -, -, hnone⟩ := h
    obtain rfl := Option.some.inj ht
    have hk := hr (tb, nr)
    rw [State.Right, hnone] at hk
    by_contra hne
    rw [if_neg hne] at hk
    cases hk
  have hk : (s.slotPatch (some tb) nr fn err).2.2.Right m (tb, nr) ↔
      err = 0 ∧ fn ≠ s.mem (tb, nr) := by
    rw [State.Right, State.slotPatch_saved h, State.slotPatch_mem h, if_pos rfl, hm]
    by_cases he : err = 0 <;> simp [he, hm]
  refine ⟨fun hall => hk.1 (hall _), fun hg k => ?_⟩
  by_cases hkk : (tb, nr) = k
  · exact hkk ▸ hk.2 hg
  · refine (right_congr ?_ ?_).2 (hr k)
    · rw [State.slotPatch_saved h, if_neg hkk]
    · rw [State.slotPatch_mem h, if_pos hg.1, Function.update_of_ne (Ne.symm hkk)]

theorem right_unpatch {tb : Tab} {o : ℕ} (hs : s.Once) (hr : ∀ k, s.Right m k)
    (h : s.saved (tb, nr) = some o) :
    (∀ k, (s.slotUnpatch (some tb) nr err).Right m k) ↔ err = 0 := by
  obtain ⟨hne, ho⟩ : s.mem (tb, nr) ≠ m (tb, nr) ∧ o = m (tb, nr) := by
    have hk := hr (tb, nr)
    rw [State.Right, h] at hk
    split at hk
    · cases hk
    · exact ⟨‹_›, Option.some.inj hk⟩
  have hk : (s.slotUnpatch (some tb) nr err).Right m (tb, nr) ↔ err = 0 := by
    rw [State.Right, State.slotUnpatch_saved hs, State.slotUnpatch_mem hs h, if_pos rfl]
    by_cases he : err = 0 <;> simp [he, ho, hne]
  refine ⟨fun hall => hk.1 (hall _), fun hg k => ?_⟩
  by_cases hkk : (tb, nr) = k
  · exact hkk ▸ hk.2 hg
  · refine (right_congr ?_ ?_).2 (hr k)
    · rw [State.slotUnpatch_saved hs, if_neg hkk]
    · rw [State.slotUnpatch_mem hs h, if_pos hg, Function.update_of_ne (Ne.symm hkk)]

/-- **The steps that keep the table right**, from a state where it is. -/
theorem tracks_step (hs : s.Once) (ht : Tracks m s) (h : step s a = some t) :
    Tracks m t ↔ Good s a := by
  rw [tracks_iff (step_once hs h)]
  have hr := (tracks_iff hs).1 ht
  cases a with
  | patch tab nr fn err =>
    obtain rfl := Option.some.inj h
    by_cases hf : s.Free tab nr
    · obtain ⟨tb, rfl, -⟩ := id hf
      rw [right_patch hr hf]
      exact ⟨fun hg t' ht' _ => Option.some.inj ht' ▸ hg, fun hg => hg tb rfl hf⟩
    · rw [(State.slotPatch_not_free hf).2]
      exact iff_of_true hr fun _ _ hf' => absurd hf' hf
  | unpatch tab nr err =>
    obtain rfl := Option.some.inj h
    cases tab with
    | none => exact iff_of_true hr fun _ ht' => by cases ht'
    | some tb =>
      cases hsv : s.saved (tb, nr) with
      | none =>
        rw [State.slotUnpatch_none hsv]
        refine iff_of_true hr fun t' ht' hne => absurd ?_ hne
        exact Option.some.inj ht' ▸ hsv
      | some o =>
        rw [right_unpatch hs hr hsv]
        refine ⟨fun he _ _ _ => he, fun hg => hg tb rfl ?_⟩
        rw [hsv]
        exact Option.some_ne_none o

theorem fresh_once : (State.fresh m).Once := List.nodup_nil

theorem fresh_tracks : Tracks m (State.fresh m) := by
  intro k
  simp [State.fresh]

/-- Every run of good steps keeps the table right. -/
theorem tracks_run (h : RunIf step Good (State.fresh m) s) : Tracks m s := by
  refine (h.inv (I := fun s => s.Once ∧ Tracks m s) ⟨fresh_once, fresh_tracks⟩ ?_).2
  rintro s a t ⟨hs, ht⟩ hg h
  exact ⟨step_once hs h, (tracks_step hs ht h).2 hg⟩

end DroidLkm.Tables
