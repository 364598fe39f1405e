/-
  How many entries of a table have a property.

  A table is a function from slot numbers; its slots from `n` on are not looked
  at.  `count p n f` is the number of entries among the first `n` slots that
  have the property `p`, as an integer.
-/
import Mathlib.Algebra.Group.Int.Defs
import Mathlib.Logic.Function.Basic
import DroidLkm.Lib.Sums

namespace Census

universe u
variable {β : Type u} {p : β → Bool} {n i : ℕ} {f : ℕ → Option β} {x : Option β} {b : β}

/-- Whether a slot counts. -/
def ind (p : β → Bool) : Option β → ℤ
  | none => 0
  | some b => if p b then 1 else 0

def count (p : β → Bool) (n : ℕ) (f : ℕ → Option β) : ℤ :=
  ((List.range n).map fun i => ind p (f i)).sum

theorem ind_nonneg (p : β → Bool) (x : Option β) : 0 ≤ ind p x := by
  cases x with
  | none => exact Int.le_refl 0
  | some b => unfold ind; split <;> omega

@[simp] theorem count_zero : count p 0 f = 0 := rfl

theorem count_succ : count p (n + 1) f = count p n f + ind p (f n) := by
  simp [count, List.range_succ]

theorem count_nonneg (p : β → Bool) (n : ℕ) (f : ℕ → Option β) : 0 ≤ count p n f := by
  induction n with
  | zero => exact Int.le_refl 0
  | succ n ih => rw [count_succ]; exact Int.add_nonneg ih (ind_nonneg p _)

/-- One slot is written. -/
theorem count_update (h : i < n) :
    count p n (Function.update f i x) = count p n f + (ind p x - ind p (f i)) := by
  have := ListSum.sum_change (f := fun j => ind p (f j))
    (g := fun j => ind p (Function.update f i x j)) List.nodup_range (List.mem_range.2 h)
    fun j _ hj => by rw [Function.update_of_ne hj]
  simpa [count] using this

/-- A slot outside is written. -/
theorem count_update_of_le (h : n ≤ i) : count p n (Function.update f i x) = count p n f := by
  refine ListSum.sum_congr ?_
  intro j hj
  rw [Function.update_of_ne (by have := List.mem_range.1 hj; omega)]

/-- The next slot is filled. -/
theorem count_push : count p (n + 1) (Function.update f n x) = count p n f + ind p x := by
  rw [count_succ, count_update_of_le le_rfl, Function.update_self]

/-- An entry with the property is one of those counted. -/
theorem ind_le_count (h : i < n) : ind p (f i) ≤ count p n f := by
  have hsum := count_update (p := p) (f := f) (x := none) h
  have hnn := count_nonneg p n (Function.update f i none)
  rw [show ind p none = 0 from rfl] at hsum
  omega

theorem count_pos (h : i < n) (hf : f i = some b) (hb : p b = true) : 0 < count p n f := by
  have := ind_le_count (p := p) (f := f) h
  rw [hf, ind, if_pos hb] at this
  omega

end Census
