/-
  An allocator of small integers.

  `Idr α` gives indices to objects.  `allocCyclic` looks for a free index from
  where it last stopped, and from the beginning when there is none up to the
  end of its window; `getNext` finds the first index in use from some point on;
  `sumOf` adds something up over the objects.
-/
import Mathlib.Algebra.BigOperators.Group.List.Basic
import Mathlib.Data.List.AList
import Mathlib.Tactic.ByContra
import Mathlib.Data.Nat.Notation

/-- Objects by index, and where the next cyclic search begins. -/
structure Idr (α : Type) where
  slots : AList fun _ : ℕ => α
  next : ℕ

namespace Idr

variable {α : Type} {r r' : Idr α} {a b : α} {i j lo hi : ℕ}

def empty : Idr α := ⟨∅, 0⟩

def find (r : Idr α) (i : ℕ) : Option α := r.slots.lookup i

/-- The number of indices in use. -/
def size (r : Idr α) : ℕ := r.slots.keys.length

/-- The first free index from `lo` on and below `hi`. -/
def firstFree (r : Idr α) (lo hi : ℕ) : Option ℕ :=
  (List.range' lo (hi - lo)).find? fun i => (r.find i).isNone

/-- An index below `hi` is given to an object. -/
def allocCyclic (r : Idr α) (a : α) (hi : ℕ) : Option (ℕ × Idr α) :=
  match (r.firstFree r.next hi).or (r.firstFree 0 hi) with
  | none => none
  | some i => some (i, ⟨r.slots.insert i a, i + 1⟩)

def remove (r : Idr α) (i : ℕ) : Idr α := { r with slots := r.slots.erase i }

/-- The first index in use from `i` on. -/
def getNext (r : Idr α) (i : ℕ) : Option ℕ := (r.slots.keys.filter (i ≤ ·)).min?

@[simp] theorem find_empty : (empty : Idr α).find i = none := AList.lookup_empty i

theorem find_isSome : (r.find i).isSome ↔ i ∈ r.slots.keys := AList.lookup_isSome

theorem find_eq_none : r.find i = none ↔ i ∉ r.slots.keys := AList.lookup_eq_none

/-! ## Allocation -/

theorem firstFree_spec (h : r.firstFree lo hi = some i) : r.find i = none ∧ i < hi := by
  have hfree := List.find?_some h
  have hmem := List.mem_of_find?_eq_some h
  rw [List.mem_range'_1] at hmem
  exact ⟨by simpa using hfree, by omega⟩

/-- The index is free and in the window, and only its slot is written. -/
theorem allocCyclic_spec (h : r.allocCyclic a hi = some (i, r')) :
    r.find i = none ∧ i < hi ∧ r' = ⟨r.slots.insert i a, i + 1⟩ := by
  unfold allocCyclic at h
  split at h
  · cases h
  next j hj =>
    cases h
    rcases Option.or_eq_some_iff.1 hj with hj | ⟨-, hj⟩
    · exact ⟨(firstFree_spec hj).1, (firstFree_spec hj).2, rfl⟩
    · exact ⟨(firstFree_spec hj).1, (firstFree_spec hj).2, rfl⟩

/-- More indices in the window than are in use: one of them is free. -/
theorem exists_free (h : r.size < hi) : ∃ i, i < hi ∧ r.find i = none := by
  by_contra hnone
  have hsub : List.range hi ⊆ r.slots.keys := by
    intro i hi'
    by_contra hmem
    exact hnone ⟨i, List.mem_range.1 hi', find_eq_none.2 hmem⟩
  have hle := (List.subperm_of_subset List.nodup_range hsub).length_le
  rw [List.length_range] at hle
  exact absurd h (Nat.not_lt.2 hle)

/-- The search comes round to every index of the window. -/
theorem allocCyclic_isSome (hi' : i < hi) (hfree : r.find i = none) (a : α) :
    (r.allocCyclic a hi).isSome := by
  have hsome : (r.firstFree 0 hi).isSome := by
    rw [firstFree, List.find?_isSome]
    exact ⟨i, List.mem_range'_1.2 (by omega), by rw [hfree]; rfl⟩
  unfold allocCyclic
  cases h : (r.firstFree r.next hi).or (r.firstFree 0 hi) with
  | none =>
    rw [(Option.or_eq_none_iff.1 h).2] at hsome
    cases hsome
  | some j => rfl

theorem find_insert (n : ℕ) : (⟨r.slots.insert i a, n⟩ : Idr α).find j =
    if j = i then some a else r.find j := by
  by_cases h : j = i
  · subst h
    rw [if_pos rfl]
    exact AList.lookup_insert _
  · rw [if_neg h]
    exact AList.lookup_insert_ne h

theorem size_insert (h : r.find i = none) (n : ℕ) :
    (⟨r.slots.insert i a, n⟩ : Idr α).size = r.size + 1 := by
  show (r.slots.insert i a).keys.length = _
  rw [AList.keys_insert, List.length_cons, List.erase_of_not_mem (find_eq_none.1 h)]
  rfl

/-! ## Removal -/

theorem find_remove : (r.remove i).find j = if j = i then none else r.find j := by
  by_cases h : j = i
  · subst h
    rw [if_pos rfl]
    exact AList.lookup_erase _ _
  · rw [if_neg h]
    exact AList.lookup_erase_ne h

theorem size_remove (h : r.find i = some a) : (r.remove i).size + 1 = r.size := by
  have hmem : i ∈ r.slots.keys := find_isSome.1 (by rw [h]; rfl)
  show (r.slots.erase i).keys.length + 1 = r.slots.keys.length
  have hpos := List.length_pos_of_mem hmem
  rw [AList.keys_erase, List.length_erase_of_mem hmem]
  omega

/-! ## The next index in use -/

theorem getNext_isSome : (r.getNext i).isSome ↔ ∃ j, i ≤ j ∧ (r.find j).isSome := by
  rw [getNext, List.isSome_min?_iff]
  constructor
  · intro h
    obtain ⟨j, hj⟩ := List.exists_mem_of_ne_nil _ h
    rw [List.mem_filter, decide_eq_true_eq] at hj
    exact ⟨j, hj.2, find_isSome.2 hj.1⟩
  · rintro ⟨j, hij, hj⟩
    refine List.ne_nil_of_mem (a := j) ?_
    rw [List.mem_filter, decide_eq_true_eq]
    exact ⟨find_isSome.1 hj, hij⟩

/-! ## Sums -/

section
variable {M : Type} [AddCommMonoid M] {f g : α → M}

/-- The sum of `f` over the objects that have an index. -/
def sumOf (r : Idr α) (f : α → M) : M := (r.slots.entries.map fun e => f e.2).sum

theorem sumOf_congr (h : r'.slots = r.slots) (hf : ∀ i a, r.find i = some a → g a = f a) :
    r'.sumOf g = r.sumOf f := by
  unfold sumOf
  rw [h]
  refine congrArg List.sum (List.map_congr_left ?_)
  rintro ⟨i, a⟩ he
  exact hf i a (AList.mem_lookup_iff.2 he)

theorem sumOf_insert (h : r.find i = none) (n : ℕ) :
    (⟨r.slots.insert i a, n⟩ : Idr α).sumOf f = f a + r.sumOf f := by
  unfold sumOf
  rw [AList.insert_of_notMem (AList.lookup_eq_none.1 h)]
  exact List.sum_cons

theorem sumOf_remove (h : r.find i = some a) : r.sumOf f = f a + (r.remove i).sumOf f := by
  obtain ⟨b, l₁, l₂, -, he, hk⟩ := List.exists_of_kerase (find_isSome.1 (by rw [h]; rfl))
  obtain rfl : a = b := by
    have hb : r.find i = some b := AList.mem_lookup_iff.2 (by rw [he]; simp)
    exact Option.some.inj (h.symm.trans hb)
  unfold sumOf
  rw [show (r.remove i).slots.entries = l₁ ++ l₂ from hk, he]
  simp [add_left_comm]

end

end Idr
