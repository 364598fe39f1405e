/-
  Singly linked lists in a store.

  A cell of the store has a link to the next one.  `Linked next h l` says that
  from `h` on the links lead over the cells of `l`, and end.
-/
import Mathlib.Data.List.Nodup

universe u
variable {α : Type u} {next next' : α → Option α} {h : Option α} {a : α} {l : List α}

/-- From `h` on, the links lead over `l`. -/
def Linked (next : α → Option α) : Option α → List α → Prop
  | h, [] => h = none
  | h, a :: l => h = some a ∧ Linked next (next a) l

namespace Linked

theorem eq_nil (hl : Linked next none l) : l = [] := by
  cases l with
  | nil => rfl
  | cons a l => cases hl.1

theorem eq_cons (hl : Linked next (some a) l) :
    ∃ l', l = a :: l' ∧ Linked next (next a) l' := by
  cases l with
  | nil => cases hl
  | cons b l =>
    obtain ⟨hb, hl⟩ := hl
    cases hb
    exact ⟨l, rfl, hl⟩

theorem ne_nil_iff (hl : Linked next h l) : l ≠ [] ↔ h ≠ none := by
  cases l with
  | nil => simp [show h = none from hl]
  | cons a l => simp [hl.1]

/-- Only the links of the list matter. -/
theorem congr (hl : Linked next h l) (hn : ∀ a ∈ l, next' a = next a) : Linked next' h l := by
  induction l generalizing h with
  | nil => exact hl
  | cons a l ih =>
    refine ⟨hl.1, ?_⟩
    rw [hn a List.mem_cons_self]
    exact ih hl.2 fun b hb => hn b (List.mem_cons_of_mem _ hb)

/-- A cell is put in front. -/
theorem push (hl : Linked next h l) (ha : next' a = h) (hn : ∀ b ∈ l, next' b = next b) :
    Linked next' (some a) (a :: l) :=
  ⟨rfl, ha ▸ hl.congr hn⟩

end Linked
