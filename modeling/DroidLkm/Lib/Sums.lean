/-
  Sums over lists of which one summand changes.
-/
import Mathlib.Algebra.BigOperators.Group.List.Basic
import Mathlib.Tactic.Abel

namespace ListSum

universe u v
variable {ι : Type u} {M : Type v} [AddCommGroup M] {l : List ι} {f g : ι → M} {x : ι}

/-- Where no summand changes, the sum does not. -/
theorem sum_congr (h : ∀ y ∈ l, g y = f y) : (l.map g).sum = (l.map f).sum :=
  congrArg List.sum (List.map_congr_left h)

/-- When only the summand of `x` changes, the sum changes by as much. -/
theorem sum_change (hl : l.Nodup) (hx : x ∈ l) (h : ∀ y ∈ l, y ≠ x → g y = f y) :
    (l.map g).sum = (l.map f).sum + (g x - f x) := by
  induction l with
  | nil => simp at hx
  | cons a l ih =>
    obtain ⟨ha, hl⟩ := List.nodup_cons.1 hl
    simp only [List.map_cons, List.sum_cons]
    rcases List.mem_cons.1 hx with rfl | hx
    · rw [sum_congr fun y hy => h y (List.mem_cons_of_mem _ hy) fun he => ha (he ▸ hy)]
      abel
    · rw [ih hl hx fun y hy => h y (List.mem_cons_of_mem _ hy),
        h a List.mem_cons_self fun he => ha (he ▸ hx)]
      abel

/-- A sum that leaves out those without a property is one over the others. -/
theorem sum_filter (p : ι → Bool) (l : List ι) (f : ι → M) :
    (l.map fun x => if p x then f x else 0).sum = ((l.filter p).map f).sum := by
  induction l with
  | nil => rfl
  | cons a l ih =>
    simp only [List.map_cons, List.sum_cons, List.filter_cons, ih]
    split
    · rw [List.map_cons, List.sum_cons]
    · rw [zero_add]

end ListSum
