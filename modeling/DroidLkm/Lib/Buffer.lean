/-
  Buffers whose accesses are checked.

  A buffer is a list; an access outside of the bounds that it is given has no
  result.

  * `load b lim a n`: the `n` elements from `a` on, all of them below `lim`;
  * `store b a bs`: the buffer with `bs` written at `a`, all of it inside;
  * `store_store_take`: the tail moved away and the gap filled is an insertion.
-/
import Mathlib.Algebra.Order.Ring.Nat

namespace Buffer

universe u
variable {α : Type u} {b b' bs cs : List α} {lim a d n : ℕ}

/-- The `n` elements from `a` on, where all of them are below `lim`. -/
def load (b : List α) (lim a n : ℕ) : Option (List α) :=
  if a + n ≤ lim then some ((b.drop a).take n) else none

/-- Writes `bs` at `a`, where all of it is inside of the buffer. -/
def store (b : List α) (a : ℕ) (bs : List α) : Option (List α) :=
  if a + bs.length ≤ b.length then some (b.take a ++ bs ++ b.drop (a + bs.length)) else none

theorem load_eq (h : a + n ≤ lim) : load b lim a n = some ((b.drop a).take n) := if_pos h

theorem store_eq (h : a + bs.length ≤ b.length) :
    store b a bs = some (b.take a ++ bs ++ b.drop (a + bs.length)) := if_pos h

theorem length_store (h : store b a bs = some b') : b'.length = b.length := by
  simp only [store, Option.ite_none_right_eq_some, Option.some.injEq] at h
  obtain ⟨hle, rfl⟩ := h
  simp only [List.length_append, List.length_take, List.length_drop]
  omega

/-- An element of a bounded prefix is loaded from the buffer. -/
theorem load_one (h : a < lim) (hb : a < b.length) : load b lim a 1 = some [b[a]] := by
  have hdrop : b.drop a = b[a] :: b.drop (a + 1) := List.drop_eq_getElem_cons hb
  rw [load_eq (by omega), hdrop]
  rfl

/-- What is below the limit is what the prefix up to it holds. -/
theorem load_take (h : a + n ≤ lim) : load b lim a n = some (((b.take lim).drop a).take n) := by
  rw [load_eq h, List.drop_take, List.take_take, Nat.min_eq_left (by omega)]

/-- **Insertion.**  The elements from `a` to `lim` are moved up by the length of `bs`,
    and `bs` is written into the gap. -/
theorem store_store_take (bs : List α) (ha : a ≤ lim) (hlim : lim + bs.length ≤ b.length) :
    ∃ b₁ b₂, store b (a + bs.length) ((b.drop a).take (lim - a)) = some b₁ ∧
      store b₁ a bs = some b₂ ∧
      b₂.take (lim + bs.length) = (b.take lim).take a ++ bs ++ (b.take lim).drop a := by
  have hmid : ((b.drop a).take (lim - a)).length = lim - a := by
    simp only [List.length_take, List.length_drop]
    omega
  have hroom : a + bs.length + ((b.drop a).take (lim - a)).length ≤ b.length := by omega
  have hb₁ := store_eq hroom
  refine ⟨_, _, hb₁, store_eq ?_, ?_⟩
  · rw [length_store hb₁]
    omega
  · have htake : (b.take (a + bs.length) ++ (b.drop a).take (lim - a) ++
        b.drop (a + bs.length + ((b.drop a).take (lim - a)).length)).take a = b.take a := by
      rw [List.append_assoc, List.take_append_of_le_length (by simp; omega), List.take_take,
        Nat.min_eq_left (by omega)]
    have hdrop : (b.take (a + bs.length) ++ (b.drop a).take (lim - a) ++
        b.drop (a + bs.length + ((b.drop a).take (lim - a)).length)).drop (a + bs.length) =
        (b.drop a).take (lim - a) ++ b.drop (lim + bs.length) := by
      rw [hmid, List.append_assoc, List.drop_append_of_le_length (by simp; omega),
        List.drop_eq_nil_of_le (by simp), List.nil_append]
      congr 2
      omega
    rw [htake, hdrop, List.take_take, Nat.min_eq_left ha, List.drop_take]
    have hlen : (b.take a ++ bs ++ (b.drop a).take (lim - a)).length = lim + bs.length := by
      simp only [List.length_append, hmid, List.length_take]
      omega
    rw [← List.append_assoc, List.take_append_of_le_length (by omega), ← hlen, List.take_length]

end Buffer
