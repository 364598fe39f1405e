/-
  Objects by index, gone through in ascending order.

  * `Ahead find i es`: `es` are the entries of a table from index `i` on, each
    with its index, in ascending order;
  * `Sweep.run`: a loop over the indices that visits what it finds and stops when
    it has found as many as there are; a visit may take its object out;
  * `run_ends`: it visits all of them, each once and in order;
  * `visits_at`: what it leaves.
-/
import Mathlib.Data.List.Sort
import DroidLkm.Lib.Idr

section
variable {α : Type} {find find' : ℕ → Option α} {i j : ℕ} {a b : α} {e : ℕ × α}
  {es fs : List (ℕ × α)}

/-- The entries from an index on, in ascending order. -/
structure Ahead (find : ℕ → Option α) (i : ℕ) (es : List (ℕ × α)) : Prop where
  asc : es.Pairwise fun x y => x.1 < y.1
  mem : ∀ j a, (j, a) ∈ es ↔ i ≤ j ∧ find j = some a

namespace Ahead

theorem le (h : Ahead find i es) (he : e ∈ es) : i ≤ e.1 := ((h.mem e.1 e.2).1 he).1

theorem find_eq (h : Ahead find i es) (he : e ∈ es) : find e.1 = some e.2 :=
  ((h.mem e.1 e.2).1 he).2

/-- An index at which there is nothing. -/
theorem gap (h : Ahead find i es) (hi : find i = none) : Ahead find (i + 1) es := by
  refine ⟨h.asc, fun j a => ?_⟩
  rw [h.mem]
  constructor
  · rintro ⟨hle, hj⟩
    have hne : i ≠ j := by
      rintro rfl
      rw [hi] at hj
      cases hj
    exact ⟨by omega, hj⟩
  · rintro ⟨hle, hj⟩
    exact ⟨by omega, hj⟩

/-- The entries after the first. -/
theorem tail (h : Ahead find i (e :: es)) : Ahead find (e.1 + 1) es := by
  obtain ⟨hlt, hasc⟩ := List.pairwise_cons.1 h.asc
  refine ⟨hasc, fun j a => ?_⟩
  constructor
  · intro hj
    exact ⟨hlt _ hj, h.find_eq (List.mem_cons_of_mem _ hj)⟩
  · rintro ⟨hle, hj⟩
    have hi := h.le List.mem_cons_self
    rcases List.mem_cons.1 ((h.mem j a).2 ⟨by omega, hj⟩) with rfl | hes
    · dsimp only at hle
      omega
    · exact hes

/-- There is nothing before the first entry. -/
theorem first (h : Ahead find i (e :: es)) : Ahead find e.1 (e :: es) := by
  have hi := h.le List.mem_cons_self
  refine ⟨h.asc, fun j a => ?_⟩
  constructor
  · intro hj
    refine ⟨?_, h.find_eq hj⟩
    rcases List.mem_cons.1 hj with rfl | hes
    · exact Nat.le_refl _
    · have hle := h.tail.le hes
      dsimp only at hle
      omega
  · rintro ⟨hle, hj⟩
    exact (h.mem j a).2 ⟨by omega, hj⟩

/-- An index at which there is something: it is the first entry. -/
theorem hit (h : Ahead find i es) (hi : find i = some a) :
    ∃ fs, es = (i, a) :: fs ∧ Ahead find (i + 1) fs := by
  have hmem : (i, a) ∈ es := (h.mem i a).2 ⟨Nat.le_refl i, hi⟩
  cases es with
  | nil => cases hmem
  | cons e fs =>
    have he : (i, a) = e := by
      rcases List.mem_cons.1 hmem with he | hfs
      · exact he
      · have hle := h.le List.mem_cons_self
        have hlt := h.tail.le hfs
        dsimp only at hlt
        omega
    subst he
    exact ⟨fs, rfl, h.tail⟩

/-- The entries ahead are those of any table that agrees from there on. -/
theorem congr (h : Ahead find i es) (hfind : ∀ j, i ≤ j → find' j = find j) :
    Ahead find' i es := by
  refine ⟨h.asc, fun j a => ?_⟩
  rw [h.mem]
  exact and_congr_right fun hle => by rw [hfind j hle]

/-- Nothing is ahead: there is nothing at any index. -/
theorem nil (h : Ahead find i []) (hle : i ≤ j) : find j = none := by
  by_contra hne
  obtain ⟨a, ha⟩ := Option.ne_none_iff_exists'.1 hne
  cases (h.mem j a).2 ⟨hle, ha⟩

end Ahead

end

/-! ## The entries of a table -/

namespace Idr

variable {α : Type} {r : Idr α} {i : ℕ} {e : ℕ × α} {es : List (ℕ × α)}

/-- All entries, in ascending order. -/
def ascending (r : Idr α) : List (ℕ × α) :=
  (r.slots.keys.insertionSort (· ≤ ·)).filterMap fun i => (r.find i).map fun a => (i, a)

theorem ahead_ascending (r : Idr α) : Ahead r.find 0 r.ascending := by
  have hsorted := List.pairwise_insertionSort (· ≤ ·) r.slots.keys
  have hnodup : (r.slots.keys.insertionSort (· ≤ ·)).Nodup :=
    (List.perm_insertionSort _ _).nodup_iff.2 r.slots.keys_nodup
  constructor
  · rw [ascending, List.pairwise_filterMap]
    refine (hsorted.and hnodup).imp ?_
    rintro i j ⟨hle, hne⟩ x hx y hy
    obtain ⟨-, -, rfl⟩ := Option.map_eq_some_iff.1 hx
    obtain ⟨-, -, rfl⟩ := Option.map_eq_some_iff.1 hy
    exact Nat.lt_of_le_of_ne hle hne
  · intro j a
    simp only [ascending, List.mem_filterMap, List.mem_insertionSort, Option.map_eq_some_iff]
    constructor
    · rintro ⟨k, -, b, hb, he⟩
      cases he
      exact ⟨Nat.zero_le _, hb⟩
    · rintro ⟨-, ha⟩
      exact ⟨j, find_isSome.1 (by rw [ha]; rfl), a, ha, rfl⟩

theorem mem_ascending {a : α} : (i, a) ∈ r.ascending ↔ r.find i = some a := by
  rw [r.ahead_ascending.mem]
  exact and_iff_right (Nat.zero_le i)

/-- There are as many as indices in use. -/
theorem length_ascending (r : Idr α) : r.ascending.length = r.size := by
  have hkeys : r.ascending.map Prod.fst = r.slots.keys.insertionSort (· ≤ ·) := by
    rw [ascending, List.map_filterMap]
    refine (List.filterMap_congr fun i hi => ?_).trans List.filterMap_some
    have hsome : (r.find i).isSome := find_isSome.2 ((List.mem_insertionSort _).1 hi)
    obtain ⟨a, ha⟩ := Option.isSome_iff_exists.1 hsome
    rw [ha]
    rfl
  rw [← List.length_map Prod.fst, hkeys, List.length_insertionSort]
  rfl

/-- `getNext` finds the first entry ahead. -/
theorem getNext_ahead (h : Ahead r.find i es) : r.getNext i = es.head?.map Prod.fst := by
  cases es with
  | nil =>
    cases hn : r.getNext i with
    | none => rfl
    | some n =>
      obtain ⟨j, hle, hj⟩ := getNext_isSome.1 (by rw [hn]; rfl)
      rw [h.nil hle] at hj
      cases hj
  | cons e es =>
    have he := h.find_eq List.mem_cons_self
    refine List.min?_eq_some_iff.2 ⟨?_, fun j hj => ?_⟩
    · rw [List.mem_filter, decide_eq_true_eq]
      exact ⟨find_isSome.1 (by rw [he]; rfl), h.le List.mem_cons_self⟩
    · rw [List.mem_filter, decide_eq_true_eq] at hj
      obtain ⟨a, ha⟩ := Option.isSome_iff_exists.1 (find_isSome.2 hj.1)
      rcases List.mem_cons.1 ((h.mem j a).2 ⟨hj.2, ha⟩) with rfl | hes
      · exact Nat.le_refl _
      · have := h.tail.le hes
        dsimp only at this
        omega

end Idr

/-! ## The loop -/

namespace Sweep

section
variable {σ α : Type} (find : σ → ℕ → Option α) (visit : σ → α → σ)

/-- The indices from `i` on are looked at until `total` is `count`, for as many turns
    as there is fuel; the visits are returned with their indices. -/
def run : ℕ → ℤ → ℕ → ℕ → σ → Option (σ × List (ℕ × α))
  | 0, _, _, _, _ => none
  | fuel + 1, count, total, i, s =>
    if (total : ℤ) < count then
      match find s i with
      | none => run fuel count total (i + 1) s
      | some a =>
        (run fuel count (total + 1) (i + 1) (visit s a)).map fun r => (r.1, (i, a) :: r.2)
    else some (s, [])

/-- What the visits of some entries, one after another, leave. -/
def visits (s : σ) (es : List (ℕ × α)) : σ := es.foldl (fun s e => visit s e.2) s

/-- A visit of what is at an index leaves the other indices alone, and keeps `P`. -/
def Local (P : σ → Prop) : Prop :=
  ∀ s i a, P s → find s i = some a → P (visit s a) ∧ ∀ j, j ≠ i → find (visit s a) j = find s j

end

variable {σ α : Type} {find : σ → ℕ → Option α} {visit : σ → α → σ} {P : σ → Prop}
  {s : σ} {es : List (ℕ × α)} {count : ℤ} {fuel total i : ℕ}

/-- What each visit keeps they all keep. -/
theorem visits_keep (hlocal : Local find visit P) (hs : P s) (hes : Ahead (find s) i es) :
    P (visits visit s es) := by
  induction es generalizing s i with
  | nil => exact hs
  | cons e es ih =>
    have hle := hes.le List.mem_cons_self
    obtain ⟨hvisit, hothers⟩ := hlocal s e.1 e.2 hs (hes.find_eq List.mem_cons_self)
    exact ih hvisit (hes.tail.congr fun j hj => hothers j (by omega))

/-- When there is as much ahead as is still to be found, what is ahead is visited. -/
theorem run_ahead (hlocal : Local find visit P) (hs : P s) (hes : Ahead (find s) i es)
    (hcount : (total : ℤ) + es.length = count) (hfuel : 0 < fuel)
    (hlast : ∀ e ∈ es, e.1 + 1 < i + fuel) :
    run find visit fuel count total i s = some (visits visit s es, es) := by
  induction fuel generalizing s es total i with
  | zero => cases hfuel
  | succ fuel ih =>
    cases es with
    | nil =>
      rw [List.length_nil] at hcount
      rw [run, if_neg (by omega)]
      rfl
    | cons e es =>
      have he := hlast e List.mem_cons_self
      rw [List.length_cons] at hcount
      rw [run, if_pos (by omega)]
      cases hi : find s i with
      | none =>
        have hgap := hes.gap hi
        have hle := hgap.le List.mem_cons_self
        rw [← List.length_cons] at hcount
        exact ih hs hgap hcount (by omega) fun f hf => by
          have := hlast f hf
          omega
      | some a =>
        obtain ⟨fs, hcons, hrest⟩ := hes.hit hi
        cases hcons
        obtain ⟨hvisit, hothers⟩ := hlocal s i a hs hi
        have hlater : Ahead (find (visit s a)) (i + 1) es :=
          hrest.congr fun j hj => hothers j (by omega)
        have hleft : ((total + 1 : ℕ) : ℤ) + es.length = count := by omega
        have hrun := ih hvisit hlater hleft (by omega) fun f hf => by
          have := hlast f (List.mem_cons_of_mem _ hf)
          omega
        dsimp only
        rw [hrun]
        rfl

theorem exists_bound (es : List (ℕ × α)) : ∃ n, ∀ e ∈ es, e.1 < n := by
  induction es with
  | nil => exact ⟨0, fun e he => by cases he⟩
  | cons f es ih =>
    obtain ⟨n, hn⟩ := ih
    refine ⟨max n (f.1 + 1), fun e he => ?_⟩
    rcases List.mem_cons.1 he with rfl | he
    · omega
    · have := hn e he
      omega

/-- **The sweep.**  When `count` is the number of entries, the loop ends, and has
    visited each of them, in ascending order. -/
theorem run_ends (hlocal : Local find visit P) (hs : P s) (hes : Ahead (find s) 0 es)
    (hcount : (es.length : ℤ) = count) :
    ∃ n, ∀ fuel, n ≤ fuel → run find visit fuel count 0 0 s = some (visits visit s es, es) := by
  obtain ⟨n, hn⟩ := exists_bound es
  refine ⟨n + 2, fun fuel hfuel => run_ahead hlocal hs hes (by simpa using hcount) (by omega) ?_⟩
  intro e he
  have := hn e he
  omega

/-- The other indices are left alone. -/
theorem visits_elsewhere {j : ℕ} (hlocal : Local find visit P) (hs : P s)
    (hes : Ahead (find s) i es) (hj : ∀ e ∈ es, j ≠ e.1) :
    find (visits visit s es) j = find s j := by
  induction es generalizing s i with
  | nil => rfl
  | cons e es ih =>
    have hle := hes.le List.mem_cons_self
    obtain ⟨hvisit, hothers⟩ := hlocal s e.1 e.2 hs (hes.find_eq List.mem_cons_self)
    have hrest : Ahead (find (visit s e.2)) (e.1 + 1) es :=
      hes.tail.congr fun j hj => hothers j (by omega)
    calc find (visits visit s (e :: es)) j
        = find (visit s e.2) j := ih hvisit hrest fun f hf => hj f (List.mem_cons_of_mem _ hf)
      _ = find s j := hothers j (hj e List.mem_cons_self)

/-- What is at an index afterwards: what its visit has left there. -/
theorem visits_at {e : ℕ × α} (hlocal : Local find visit P) (hs : P s)
    (hes : Ahead (find s) i es) (he : e ∈ es) :
    ∃ t, P t ∧ find t e.1 = some e.2 ∧ find (visits visit s es) e.1 = find (visit t e.2) e.1 := by
  induction es generalizing s i with
  | nil => cases he
  | cons f es ih =>
    obtain ⟨hvisit, hothers⟩ := hlocal s f.1 f.2 hs (hes.find_eq List.mem_cons_self)
    have hrest : Ahead (find (visit s f.2)) (f.1 + 1) es :=
      hes.tail.congr fun j hj => hothers j (by omega)
    rcases List.mem_cons.1 he with rfl | he
    · refine ⟨s, hs, hes.find_eq List.mem_cons_self, ?_⟩
      exact visits_elsewhere hlocal hvisit hrest fun g hg => by
        have := hrest.le hg
        omega
    · exact ih hvisit hrest he

end Sweep
