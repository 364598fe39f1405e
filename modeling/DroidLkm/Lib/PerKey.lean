/-
  Lists that agree on each key.

  Two lists agree when, for every key, they have the same elements with that
  key in the same order.  A queue whose elements may overtake others of a
  different key, but never one of their own, keeps such an agreement between
  what went in and what came out.
-/
import Mathlib.Data.List.Basic
import Mathlib.Data.List.Nodup

namespace PerKey

universe u v
variable {α : Type u} {κ : Type v} [DecidableEq κ] {key : α → κ} {l l' r r' : List α} {a b : α}

/-- The same elements of each key in the same order. -/
def Agree (key : α → κ) (l l' : List α) : Prop :=
  ∀ k, l.filter (key · = k) = l'.filter (key · = k)

theorem Agree.rfl : Agree key l l := fun _ => Eq.refl _

theorem Agree.trans {l'' : List α} (h : Agree key l l') (h' : Agree key l' l'') :
    Agree key l l'' :=
  fun k => (h k).trans (h' k)

theorem Agree.symm (h : Agree key l l') : Agree key l' l := fun k => (h k).symm

theorem Agree.append (h : Agree key l l') (h' : Agree key r r') :
    Agree key (l ++ r) (l' ++ r') := by
  intro k
  rw [List.filter_append, List.filter_append, h k, h' k]

/-- An element moves past elements of other keys. -/
theorem agree_swap (h : ∀ x ∈ l, key x ≠ key a) : Agree key (a :: l) (l ++ [a]) := by
  intro k
  by_cases hk : key a = k
  · have : l.filter (key · = k) = [] :=
      List.filter_eq_nil_iff.2 fun x hx => by simpa [← hk] using h x hx
    simp [hk, this]
  · simp [hk]

/-- An element that no element before it shares the key of comes first. -/
theorem agree_first (h : ∀ x ∈ l, key x ≠ key a) : Agree key (a :: (l ++ r)) (l ++ a :: r) := by
  have := (agree_swap h).append (Agree.rfl (l := r))
  simpa using this

theorem Agree.tail (h : Agree key (a :: l) (a :: l')) : Agree key l l' := by
  intro k
  have hk := h k
  rw [List.filter_cons, List.filter_cons] at hk
  split at hk
  · exact List.tail_eq_of_cons_eq hk
  · exact hk

/-- The first element of its key in one list is the first in the other. -/
theorem Agree.take (h : Agree key (l ++ a :: r) l') (ha : ∀ x ∈ l, key x ≠ key a) :
    ∃ pre post, l' = pre ++ a :: post ∧ (∀ x ∈ pre, key x ≠ key a) ∧
      Agree key (l ++ r) (pre ++ post) := by
  have hk := h (key a)
  have hl : l.filter (key · = key a) = [] :=
    List.filter_eq_nil_iff.2 fun x hx => by simpa using ha x hx
  rw [List.filter_append, hl, List.nil_append, List.filter_cons_of_pos (by simp)] at hk
  obtain ⟨pre, post, rfl, hpre, -, -⟩ := List.filter_eq_cons_iff.1 hk.symm
  have hpre : ∀ x ∈ pre, key x ≠ key a := fun x hx => by simpa using hpre x hx
  exact ⟨pre, post, Eq.refl _, hpre, (((agree_first ha).trans h).trans (agree_first hpre).symm).tail⟩

/-- Lists that agree have the same elements as often. -/
theorem Agree.perm [DecidableEq α] (h : Agree key l l') : l.Perm l' := by
  refine List.perm_iff_count.2 fun x => ?_
  have hx : ∀ l : List α, (l.filter (key · = key x)).count x = l.count x :=
    fun l => List.count_filter (by simp)
  rw [← hx l, ← hx l', h]

/-- Two elements of one key stand in the same order in both. -/
theorem Agree.pair (h : Agree key l l') (hk : key a = key b) (hs : [a, b].Sublist l) :
    [a, b].Sublist l' := by
  have := hs.filter (key · = key b)
  rw [h] at this
  exact (by simpa [hk] using this : [a, b].Sublist _).trans List.filter_sublist

/-- A pair that stands in order in `l ++ r` and whose second element is not in
    `r` stands in order in `l`. -/
theorem pair_of_append (hs : [a, b].Sublist (l ++ r)) (hb : b ∉ r) : [a, b].Sublist l := by
  obtain ⟨u, v, huv, hu, hv⟩ := List.sublist_append_iff.1 hs
  rcases List.eq_nil_or_concat v with rfl | ⟨v, c, rfl⟩
  · rwa [huv, List.append_nil]
  · have hc : b = c := by
      have := congrArg List.getLast? huv
      simpa using this
    exact absurd (hv.subset (by simp [hc])) hb

end PerKey
