/-
  Vectors of cells in a flat memory.

  A memory gives a value at each address; a value of several bytes is kept at
  the address of its first.  `vec m a w n` are the `n` values of width `w` from
  `a` on, and `setVec m a w xs` stores the values `xs` there.

  * `vec_setVec`: what was stored is read;
  * `setVec_eq`: what is at an address then, `storedAt` being what was stored there;
  * `vec_setVec_apart`: a vector that lies apart is not changed;
  * `setVec_vec`: to store what is there changes nothing;
  * `set_setVec`: one value of a stored vector is replaced.
-/
import Mathlib.Tactic.Positivity
import Mathlib.Tactic.Ring

universe u

/-- A value for each address. -/
abbrev Cells (α : Type u) := ℤ → α

namespace Cells

variable {α : Type u} {m m' : Cells α} {a b c : ℤ} {v w n k i : ℕ} {x y : α} {xs : List α}

def set (m : Cells α) (a : ℤ) (x : α) : Cells α := fun b => if b = a then x else m b

/-- The `n` values of width `w` from `a` on. -/
def vec (m : Cells α) (a : ℤ) (w : ℕ) : ℕ → List α
  | 0 => []
  | n + 1 => m a :: vec m (a + w) w n

/-- The values `xs` are stored from `a` on. -/
def setVec (m : Cells α) (a : ℤ) (w : ℕ) : List α → Cells α
  | [] => m
  | x :: xs => setVec (m.set a x) (a + w) w xs

@[simp] theorem set_self (m : Cells α) (a : ℤ) (x : α) : m.set a x a = x := if_pos rfl

theorem set_ne (m : Cells α) (x : α) (h : b ≠ a) : m.set a x b = m b := if_neg h

@[simp] theorem set_same (m : Cells α) (a : ℤ) : m.set a (m a) = m := by
  funext b
  unfold set
  split
  · next h => rw [h]
  · rfl

@[simp] theorem set_set (m : Cells α) (a : ℤ) (x y : α) : (m.set a x).set a y = m.set a y := by
  funext b
  unfold set
  split <;> rfl

theorem set_comm (m : Cells α) (x y : α) (h : a ≠ b) :
    (m.set a x).set b y = (m.set b y).set a x := by
  funext c
  unfold set
  by_cases hb : c = b
  · rw [if_pos hb, if_pos hb, if_neg fun ha => h (ha.symm.trans hb)]
  · rw [if_neg hb, if_neg hb]

@[simp] theorem length_vec (m : Cells α) (a : ℤ) (w n : ℕ) : (vec m a w n).length = n := by
  induction n generalizing a with
  | zero => rfl
  | succ n ih => rw [vec, List.length_cons, ih]

/-- An address outside of the vector keeps its value. -/
theorem setVec_apart (hw : 0 < w) (h : c < a ∨ a + w * xs.length ≤ c) :
    setVec m a w xs c = m c := by
  induction xs generalizing m a with
  | nil => rfl
  | cons x xs ih =>
    rw [List.length_cons] at h
    push_cast [mul_add] at h
    have hlen : (0 : ℤ) ≤ w * xs.length := by positivity
    rw [setVec, ih (by omega), set_ne]
    omega

/-- A vector is read from its own cells. -/
theorem vec_congr (hw : 0 < w) (h : ∀ c, a ≤ c → c < a + w * n → m c = m' c) :
    vec m a w n = vec m' a w n := by
  induction n generalizing a with
  | zero => rfl
  | succ n ih =>
    push_cast [mul_add] at h
    have hlen : (0 : ℤ) ≤ w * n := by positivity
    rw [vec, vec, h a (le_refl a) (by omega), ih]
    intro c hac hc
    exact h c (by omega) (by omega)

theorem vec_setVec_apart (hw : 0 < w) (hv : 0 < v)
    (h : b + v * k ≤ a ∨ a + w * xs.length ≤ b) :
    vec (setVec m a w xs) b v k = vec m b v k := by
  refine vec_congr hv ?_
  intro c hbc hc
  refine setVec_apart hw ?_
  omega

theorem vec_setVec (hw : 0 < w) (hn : xs.length = n) : vec (setVec m a w xs) a w n = xs := by
  induction xs generalizing m a n with
  | nil =>
    subst hn
    rfl
  | cons x xs ih =>
    subst hn
    rw [setVec, List.length_cons, vec, ih rfl, setVec_apart hw (Or.inl (by omega)), set_self]

@[simp] theorem setVec_vec (m : Cells α) (a : ℤ) (w n : ℕ) : setVec m a w (vec m a w n) = m := by
  induction n generalizing a with
  | zero => rfl
  | succ n ih => rw [vec, setVec, set_same, ih]

/-- A cell before the vector. -/
theorem set_setVec_before (h : c < a) : (setVec m a w xs).set c y = setVec (m.set c y) a w xs := by
  induction xs generalizing m a with
  | nil => rfl
  | cons x xs ih => rw [setVec, ih (by omega), setVec, set_comm m x y (by omega)]

/-- A cell of the vector. -/
theorem set_setVec (hw : 0 < w) (hi : i < xs.length) :
    (setVec m a w xs).set (a + w * i) y = setVec m a w (xs.set i y) := by
  induction xs generalizing m a i with
  | nil => cases hi
  | cons x xs ih =>
    cases i with
    | zero =>
      rw [setVec, List.set_cons_zero, setVec]
      push_cast
      rw [mul_zero, add_zero, set_setVec_before (by omega), set_set]
    | succ i =>
      have haddr : a + w * ((i + 1 : ℕ) : ℤ) = a + w + w * i := by
        push_cast
        ring
      rw [setVec, List.set_cons_succ, setVec, haddr]
      exact ih (Nat.lt_of_succ_lt_succ hi)

theorem vec_getD (hi : i < n) (d : α) : (vec m a w n).getD i d = m (a + w * i) := by
  induction n generalizing a i with
  | zero => cases hi
  | succ n ih =>
    cases i with
    | zero =>
      rw [vec, List.getD_cons_zero]
      push_cast
      rw [mul_zero, add_zero]
    | succ i =>
      rw [vec, List.getD_cons_succ, ih (Nat.lt_of_succ_lt_succ hi)]
      congr 1
      push_cast
      ring

/-! ## By address -/

/-- What of the vector is stored at an address. -/
def storedAt (a : ℤ) (w : ℕ) : List α → ℤ → Option α
  | [], _ => none
  | x :: xs, c => if c = a then some x else storedAt (a + w) w xs c

theorem storedAt_apart (hw : 0 < w) (h : c < a ∨ a + w * xs.length ≤ c) :
    storedAt a w xs c = none := by
  induction xs generalizing a with
  | nil => rfl
  | cons x xs ih =>
    rw [List.length_cons] at h
    push_cast [mul_add] at h
    have hlen : (0 : ℤ) ≤ w * xs.length := by positivity
    rw [storedAt, if_neg (by omega), ih (by omega)]

/-- Each value has its place. -/
theorem storedAt_place (hw : 0 < w) (a : ℤ) (xs : List α) (i : ℕ) :
    storedAt a w xs (a + w * i) = xs[i]? := by
  induction xs generalizing a i with
  | nil => rfl
  | cons x xs ih =>
    cases i with
    | zero => simp [storedAt]
    | succ i =>
      have haddr : a + w * ((i + 1 : ℕ) : ℤ) = a + w + w * i := by
        push_cast
        ring
      have hpos : (0 : ℤ) ≤ w * i := by positivity
      rw [haddr, storedAt, if_neg (by omega), ih, List.getElem?_cons_succ]

theorem setVec_eq (hw : 0 < w) (m : Cells α) (a : ℤ) (xs : List α) (c : ℤ) :
    setVec m a w xs c = (storedAt a w xs c).getD (m c) := by
  induction xs generalizing m a with
  | nil => rfl
  | cons x xs ih =>
    rw [setVec, storedAt, ih]
    by_cases hc : c = a
    · rw [if_pos hc, storedAt_apart hw (Or.inl (by omega)), hc, Option.getD_none, set_self,
        Option.getD_some]
    · rw [if_neg hc, set_ne m x hc]

end Cells
