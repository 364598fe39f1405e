/-
  A list of entries with a key each that closes a gap with its last entry.

  * `swapRemove l i`: the `i`th entry goes, the last one takes its place;
  * `take key l k`: the first entry of the key, and the list without it;
  * `Keyed key l`: no two entries have one key.  Both ways to change the list
    keep that (`Keyed.concat`, `Keyed.of_take`);
  * `lookup key l k`: the entry of the key.  In a keyed list it says which
    entries there are (`lookup_eq_some`), so `lookup_concat` and `lookup_take`
    say all that a reader of the list can see of the two changes, and
    `filter_key` says it as a list.
-/
import Mathlib.Data.List.Nodup
import Mathlib.Data.List.Perm.Basic

namespace SwapLog

universe u v
variable {ε : Type u} {κ : Type v} [DecidableEq κ] (key : ε → κ)

/-- Remove the `i`th entry: the last one takes its place. -/
def swapRemove (l : List ε) (i : ℕ) : List ε :=
  match l.getLast? with
  | none => []
  | some e => (l.set i e).dropLast

/-- The first entry of a key, and what is left without it. -/
def take (l : List ε) (k : κ) : Option (ε × List ε) :=
  match l.findIdx? fun e => key e = k with
  | none => none
  | some i => l[i]?.map fun e => (e, swapRemove l i)

/-- The first entry of a key. -/
def lookup (l : List ε) (k : κ) : Option ε := l.find? fun e => key e = k

/-- No two entries have one key. -/
def Keyed (l : List ε) : Prop := (l.map key).Nodup

variable {key}

/-! ## The entries that are left -/

omit [DecidableEq κ] in
theorem getLast?_set {l : List ε} {e : ε} (he : l.getLast? = some e) (i : ℕ) :
    (l.set i e).getLast? = some e := by
  rw [List.getLast?_eq_getElem?] at he ⊢
  rw [List.length_set, List.getElem?_set]
  split
  case isTrue h =>
    subst h
    rw [if_pos (List.getElem?_eq_some_iff.1 he).1]
  case isFalse => exact he

theorem swapRemove_perm {l : List ε} {i : ℕ} (hi : i < l.length) :
    (l[i] :: swapRemove l i).Perm l := by
  cases he : l.getLast? with
  | none => rw [List.getLast?_eq_none_iff.1 he] at hi; cases hi
  | some e =>
    have hperm : (e :: (l.set i e).dropLast).Perm (e :: l.eraseIdx i) := by
      refine (List.perm_append_singleton _ _).symm.trans ?_
      rw [List.dropLast_append_getLast? e (getLast?_set he i)]
      exact List.set_perm_cons_eraseIdx hi e
    rw [swapRemove, he]
    exact (hperm.cons_inv.cons _).trans (List.getElem_cons_eraseIdx_perm hi)

/-- The entry that is taken, and the list without it, in another order. -/
theorem take_eq_some {l l' : List ε} {k : κ} {e : ε} (h : take key l k = some (e, l')) :
    key e = k ∧ (e :: l').Perm l := by
  unfold take at h
  cases hi : l.findIdx? fun e => key e = k with
  | none => rw [hi] at h; cases h
  | some i =>
    obtain ⟨hlt, hk, -⟩ := List.findIdx?_eq_some_iff_getElem.1 hi
    rw [hi] at h
    simp only [List.getElem?_eq_getElem hlt, Option.map_some, Option.some.injEq,
      Prod.mk.injEq] at h
    obtain ⟨rfl, rfl⟩ := h
    exact ⟨by simpa using hk, swapRemove_perm hlt⟩

theorem take_eq_none {l : List ε} {k : κ} : take key l k = none ↔ ∀ e ∈ l, key e ≠ k := by
  unfold take
  cases hi : l.findIdx? fun e => key e = k with
  | none => simpa using hi
  | some i =>
    obtain ⟨hlt, hk, -⟩ := List.findIdx?_eq_some_iff_getElem.1 hi
    simp only [List.getElem?_eq_getElem hlt, Option.map_some, reduceCtorEq, false_iff]
    exact fun h => h _ (List.getElem_mem hlt) (by simpa using hk)

/-! ## One entry a key -/

omit [DecidableEq κ] in
theorem Keyed.concat {l : List ε} {e : ε} (hl : Keyed key l) (he : ∀ x ∈ l, key x ≠ key e) :
    Keyed key (l ++ [e]) := by
  rw [Keyed, List.map_append, List.nodup_append]
  refine ⟨hl, by simp, fun a ha b hb => ?_⟩
  obtain ⟨x, hx, rfl⟩ := List.mem_map.1 ha
  rw [List.map_singleton, List.mem_singleton] at hb
  exact hb ▸ he x hx

theorem Keyed.of_take {l l' : List ε} {k : κ} {e : ε} (hl : Keyed key l)
    (h : take key l k = some (e, l')) : Keyed key l' := by
  have hperm := ((take_eq_some h).2.map key).nodup_iff.2 hl
  exact (List.nodup_cons.1 hperm).2

theorem lookup_eq_some {l : List ε} (hl : Keyed key l) {k : κ} {e : ε} :
    lookup key l k = some e ↔ e ∈ l ∧ key e = k := by
  refine ⟨fun h => ⟨List.mem_of_find?_eq_some h, by simpa using List.find?_some h⟩, ?_⟩
  rintro ⟨he, rfl⟩
  cases hf : lookup key l (key e) with
  | none => exact absurd (List.find?_eq_none.1 hf e he) (by simp)
  | some x =>
    have hx : key x = key e := by simpa using List.find?_some hf
    rw [List.inj_on_of_nodup_map hl (List.mem_of_find?_eq_some hf) he hx]

theorem lookup_eq_none {l : List ε} {k : κ} : lookup key l k = none ↔ ∀ e ∈ l, key e ≠ k := by
  simp [lookup]

/-- A new entry is found, and the others as before. -/
theorem lookup_concat {l : List ε} {e : ε} (he : lookup key l (key e) = none) (k : κ) :
    lookup key (l ++ [e]) k = if key e = k then some e else lookup key l k := by
  unfold lookup at he ⊢
  rw [List.find?_append]
  split
  case isTrue h => subst h; rw [he]; simp
  case isFalse h => simp [h]

theorem take_fst {l : List ε} (hl : Keyed key l) (k : κ) :
    (take key l k).map Prod.fst = lookup key l k := by
  cases ht : take key l k with
  | none => exact (lookup_eq_none.2 (take_eq_none.1 ht)).symm
  | some p =>
    obtain ⟨hk, hperm⟩ := take_eq_some ht
    exact ((lookup_eq_some hl).2 ⟨hperm.subset List.mem_cons_self, hk⟩).symm

/-- An entry that is taken is not found any more, the others are as before. -/
theorem lookup_take {l l' : List ε} {k : κ} {e : ε} (hl : Keyed key l)
    (h : take key l k = some (e, l')) (k' : κ) :
    lookup key l' k' = if k = k' then none else lookup key l k' := by
  obtain ⟨rfl, hperm⟩ := take_eq_some h
  have hnd := List.nodup_cons.1 ((hperm.map key).nodup_iff.2 hl)
  split
  case isTrue hk =>
    refine lookup_eq_none.2 fun x hx hxk => hnd.1 ?_
    exact List.mem_map.2 ⟨x, hx, hxk.trans hk.symm⟩
  case isFalse hk =>
    refine Option.ext fun x => ?_
    rw [lookup_eq_some (hl.of_take h), lookup_eq_some hl, ← hperm.mem_iff, List.mem_cons]
    refine and_congr_left fun hx => ⟨Or.inr, fun hx' => hx'.resolve_left ?_⟩
    rintro rfl
    exact hk hx

/-- What the list says of a key, as a list. -/
theorem filter_key {l : List ε} (hl : Keyed key l) (k : κ) :
    (l.filter fun e => key e = k) = (lookup key l k).toList := by
  unfold lookup
  induction l with
  | nil => rfl
  | cons e l ih =>
    obtain ⟨he, hl⟩ := List.nodup_cons.1 hl
    rw [List.filter_cons, List.find?_cons]
    by_cases h : key e = k
    · simp only [h, decide_true, if_true, Option.toList_some, List.cons.injEq, true_and,
        List.filter_eq_nil_iff, decide_eq_true_eq]
      exact fun x hx hxk => he (List.mem_map.2 ⟨x, hx, hxk.trans h.symm⟩)
    · simpa [h] using ih hl

end SwapLog
