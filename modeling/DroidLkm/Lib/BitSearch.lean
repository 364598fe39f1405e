/-
  The greatest number that passes a test, bit by bit.

  `search p n r` tries the bits below the `n`-th in turn, the highest first,
  and keeps those with which the test still passes.  `search_spec`: if the
  numbers that pass are an initial segment of the positive ones, the result is
  the greatest of them, or 0.
-/
import Mathlib.Data.Nat.Bitwise
import Mathlib.Tactic.Positivity
import Mathlib.Tactic.Ring

namespace BitSearch

/-- The bits `n - 1`, …, 0 are tried on top of `r`. -/
def search (p : ℕ → Bool) : ℕ → ℕ → ℕ
  | 0, r => r
  | n + 1, r => search p n (if p (r ||| 1 <<< n) then r ||| 1 <<< n else r)

variable {p : ℕ → Bool} {n m r : ℕ}

theorem or_bit (m n : ℕ) : 2 ^ (n + 1) * m ||| 1 <<< n = 2 ^ n * (2 * m + 1) := by
  have hlt : 1 <<< n < 2 ^ (n + 1) := by
    rw [Nat.one_shiftLeft]
    exact Nat.pow_lt_pow_right (by omega) (by omega)
  rw [← Nat.two_pow_add_eq_or_of_lt hlt, Nat.one_shiftLeft]
  ring

/-- What is kept passes, and what is a bit's worth above it does not. -/
theorem search_spec (hp : ∀ a b, 0 < a → a ≤ b → p b = true → p a = true) :
    ∀ {n m : ℕ}, (2 ^ n * m = 0 ∨ p (2 ^ n * m) = true) →
      (∀ x, 2 ^ n * (m + 1) ≤ x → p x = false) →
      (search p n (2 ^ n * m) = 0 ∨ p (search p n (2 ^ n * m)) = true) ∧
        ∀ x, search p n (2 ^ n * m) < x → p x = false
  | 0, m, hr, hx => by
    refine ⟨hr, ?_⟩
    intro x hlt
    exact hx x (by simp only [search] at hlt; omega)
  | n + 1, m, hr, hx => by
    rw [search, or_bit]
    by_cases hb : p (2 ^ n * (2 * m + 1)) = true
    · rw [if_pos hb]
      refine search_spec hp (Or.inr hb) ?_
      intro x hle
      refine hx x (le_trans (le_of_eq ?_) hle)
      ring
    · rw [if_neg hb]
      have he : 2 ^ (n + 1) * m = 2 ^ n * (2 * m) := by ring
      rw [he] at hr ⊢
      refine search_spec hp hr ?_
      intro x hle
      rw [Bool.eq_false_iff]
      intro hpx
      exact hb (hp _ x (Nat.mul_pos (by positivity) (by omega)) hle hpx)

end BitSearch
