/-
  The id maps of a user namespace.

  * `mapIdRangeDown`, `mapIdUp`: as in `userns_map.c`, on 32-bit numbers that wrap;
  * `Proper`: no extent is empty or wraps, and no two of them overlap on either
    side;
  * `maps_back`: on a proper map the two directions undo each other, for ranges
    too, and a range is mapped if and only if one extent holds it;
  * `down_identity`, `up_identity`: the identity map.
-/
import Mathlib.Algebra.Order.Ring.Nat
import Mathlib.Tactic.Common

namespace DroidLkm.Userns

/-! ## The functions -/

/-- `u32` -/
abbrev Id := BitVec 32

/-- `DROID_LKM_UID_UNMAPPED` -/
def UNMAPPED : Id := -1

def UID_GID_MAP_MAX_BASE_EXTENTS : ℕ := 5

/-- `struct uid_gid_extent` -/
structure Extent where
  first : Id
  lowerFirst : Id
  count : Id
  deriving DecidableEq

/-- `struct uid_gid_map`: the extents, `nr_extents` of them. -/
abbrev IdMap := List Extent

/-- `droid_lkm_map_id_range_down_base` -/
def mapIdRangeDownBase (id count : Id) : IdMap → Id
  | [] => UNMAPPED
  | e :: rest =>
    let id2 := id + count - 1
    let last := e.first + e.count - 1
    if id ≥ e.first ∧ id ≤ last ∧ id2 ≥ e.first ∧ id2 ≤ last then id - e.first + e.lowerFirst
    else mapIdRangeDownBase id count rest

/-- `droid_lkm_map_id_range_down` -/
def mapIdRangeDown (map : IdMap) (id count : Id) : Id :=
  if map.length > UID_GID_MAP_MAX_BASE_EXTENTS then UNMAPPED
  else mapIdRangeDownBase id count map

/-- `droid_lkm_map_id_up_base` -/
def mapIdUpBase (id : Id) : IdMap → Id
  | [] => UNMAPPED
  | e :: rest =>
    let last := e.lowerFirst + e.count - 1
    if id ≥ e.lowerFirst ∧ id ≤ last then id - e.lowerFirst + e.first
    else mapIdUpBase id rest

/-- `droid_lkm_map_id_up` -/
def mapIdUp (map : IdMap) (id : Id) : Id :=
  if map.length > UID_GID_MAP_MAX_BASE_EXTENTS then UNMAPPED else mapIdUpBase id map

/-- What `droid_lkm_userns_map_identity` writes into both maps. -/
def identity : IdMap := [⟨0, 0, 4294967295⟩]

/-! ## Proper maps -/

namespace Extent

/-- The extent holds the `n` ids from `id` on. -/
def Holds (e : Extent) (id : Id) (n : ℕ) : Prop :=
  e.first.toNat ≤ id.toNat ∧ id.toNat + n ≤ e.first.toNat + e.count.toNat

/-- `id` is one of those that the extent maps to. -/
def Hits (e : Extent) (id : Id) : Prop :=
  e.lowerFirst.toNat ≤ id.toNat ∧ id.toNat < e.lowerFirst.toNat + e.count.toNat

/-- Not empty, and not up to the last number on either side. -/
structure Proper (e : Extent) : Prop where
  pos : 0 < e.count.toNat
  first : e.first.toNat + e.count.toNat < 2 ^ 32
  lower : e.lowerFirst.toNat + e.count.toNat < 2 ^ 32

/-- The extents overlap on neither side. -/
structure Apart (e f : Extent) : Prop where
  first : e.first.toNat + e.count.toNat ≤ f.first.toNat ∨
    f.first.toNat + f.count.toNat ≤ e.first.toNat
  lower : e.lowerFirst.toNat + e.count.toNat ≤ f.lowerFirst.toNat ∨
    f.lowerFirst.toNat + f.count.toNat ≤ e.lowerFirst.toNat

end Extent

/-- Few enough extents, all of them proper, and apart. -/
structure Proper (map : IdMap) : Prop where
  few : map.length ≤ UID_GID_MAP_MAX_BASE_EXTENTS
  each : ∀ e ∈ map, e.Proper
  apart : map.Pairwise Extent.Apart

variable {map : IdMap} {e f : Extent} {id lower count : Id} {n : ℕ}

theorem identity_proper : Proper identity where
  few := by decide
  each := by
    intro e he
    rw [List.mem_singleton.1 he]
    exact ⟨by decide, by decide, by decide⟩
  apart := List.pairwise_singleton _ _

/-! ## One extent -/

namespace Extent

theorem Proper.holds_iff (h : e.Proper) (hc : 0 < count.toNat)
    (hw : id.toNat + count.toNat ≤ 2 ^ 32) :
    (id ≥ e.first ∧ id ≤ e.first + e.count - 1 ∧ id + count - 1 ≥ e.first ∧
      id + count - 1 ≤ e.first + e.count - 1) ↔ e.Holds id count.toNat := by
  have h1 := h.pos
  have h2 := h.first
  unfold Holds
  have hlast : (e.first + e.count - 1).toNat = e.first.toNat + e.count.toNat - 1 := by bv_omega
  have hid : (id + count - 1).toNat = id.toNat + count.toNat - 1 := by bv_omega
  simp only [ge_iff_le, BitVec.le_def, hlast, hid]
  omega

theorem Proper.hits_iff (h : e.Proper) :
    (id ≥ e.lowerFirst ∧ id ≤ e.lowerFirst + e.count - 1) ↔ e.Hits id := by
  have h1 := h.pos
  have h2 := h.lower
  unfold Hits
  have hlast : (e.lowerFirst + e.count - 1).toNat = e.lowerFirst.toNat + e.count.toNat - 1 := by
    bv_omega
  simp only [ge_iff_le, BitVec.le_def, hlast]
  omega

theorem Apart.holds (h : e.Apart f) (hf : f.Holds id n) (hn : 0 < n) {m : ℕ} (hm : 0 < m) :
    ¬e.Holds id m := by
  have h1 := h.first
  simp only [Holds] at *
  omega

theorem Apart.hits (h : e.Apart f) (hf : f.Hits id) : ¬e.Hits id := by
  have h1 := h.lower
  simp only [Hits] at *
  omega

theorem Holds.one (h : e.Holds id n) {i : Id} (hi : i.toNat < n) (he : e.Proper) :
    e.Holds (id + i) 1 := by
  have h1 := he.first
  simp only [Holds] at *
  have : (id + i).toNat = id.toNat + i.toNat := by bv_omega
  omega

/-- The extent maps what it holds to what it hits. -/
theorem Holds.hits (h : e.Holds id 1) (he : e.Proper) : e.Hits (id - e.first + e.lowerFirst) := by
  have h1 := he.first
  have h2 := he.lower
  simp only [Holds, Hits] at *
  have : (id - e.first + e.lowerFirst).toNat = id.toNat - e.first.toNat + e.lowerFirst.toNat := by
    bv_omega
  omega

theorem Hits.holds (h : e.Hits id) (he : e.Proper) : e.Holds (id - e.lowerFirst + e.first) 1 := by
  have h1 := he.first
  have h2 := he.lower
  simp only [Holds, Hits] at *
  have : (id - e.lowerFirst + e.first).toNat = id.toNat - e.lowerFirst.toNat + e.first.toNat := by
    bv_omega
  omega

theorem Holds.mapped (h : e.Holds id n) (hn : 0 < n) (he : e.Proper) : id ≠ UNMAPPED := by
  have h1 := he.first
  have h2 : UNMAPPED.toNat = 4294967295 := rfl
  simp only [Holds] at *
  rintro rfl
  omega

end Extent

/-! ## The search for an extent -/

namespace Proper

/-- The extent that holds a range is the one that the search ends at. -/
theorem down_mem (h : Proper map) (he : e ∈ map) (hc : 0 < count.toNat)
    (hh : e.Holds id count.toNat) (hw : id.toNat + count.toNat ≤ 2 ^ 32) :
    mapIdRangeDown map id count = id - e.first + e.lowerFirst := by
  rw [mapIdRangeDown, if_neg (Nat.not_lt.2 h.few)]
  have hap := h.apart
  have hpr := h.each
  clear h
  induction map with
  | nil => cases he
  | cons f rest ih =>
    rw [List.pairwise_cons] at hap
    have hf := hpr f List.mem_cons_self
    rw [mapIdRangeDownBase]
    rcases List.mem_cons.1 he with rfl | he
    · exact if_pos ((hf.holds_iff hc hw).2 hh)
    · refine (if_neg fun hf' => ?_).trans (ih he hap.2 fun g hg =>
        hpr g (List.mem_cons_of_mem _ hg))
      exact (hap.1 e he).holds hh hc hc ((hf.holds_iff hc hw).1 hf')

theorem down_one (h : Proper map) (he : e ∈ map) (hh : e.Holds id 1) :
    mapIdRangeDown map id 1 = id - e.first + e.lowerFirst :=
  h.down_mem he (by decide : 0 < (1 : Id).toNat) hh id.isLt

theorem down_none (h : Proper map) (hc : 0 < count.toNat) (hw : id.toNat + count.toNat ≤ 2 ^ 32)
    (hh : ∀ e ∈ map, ¬e.Holds id count.toNat) : mapIdRangeDown map id count = UNMAPPED := by
  rw [mapIdRangeDown, if_neg (Nat.not_lt.2 h.few)]
  have hpr := h.each
  clear h
  induction map with
  | nil => rfl
  | cons f rest ih =>
    rw [mapIdRangeDownBase]
    refine (if_neg fun hf => ?_).trans (ih (fun g hg => hh g (List.mem_cons_of_mem _ hg))
      fun g hg => hpr g (List.mem_cons_of_mem _ hg))
    exact hh f List.mem_cons_self (((hpr f List.mem_cons_self).holds_iff hc hw).1 hf)

theorem up_mem (h : Proper map) (he : e ∈ map) (hh : e.Hits id) :
    mapIdUp map id = id - e.lowerFirst + e.first := by
  rw [mapIdUp, if_neg (Nat.not_lt.2 h.few)]
  have hap := h.apart
  have hpr := h.each
  clear h
  induction map with
  | nil => cases he
  | cons f rest ih =>
    rw [List.pairwise_cons] at hap
    have hf := hpr f List.mem_cons_self
    rw [mapIdUpBase]
    rcases List.mem_cons.1 he with rfl | he
    · exact if_pos (hf.hits_iff.2 hh)
    · refine (if_neg fun hf' => ?_).trans (ih he hap.2 fun g hg =>
        hpr g (List.mem_cons_of_mem _ hg))
      exact (hap.1 e he).hits hh (hf.hits_iff.1 hf')

theorem up_none (h : Proper map) (hh : ∀ e ∈ map, ¬e.Hits id) : mapIdUp map id = UNMAPPED := by
  rw [mapIdUp, if_neg (Nat.not_lt.2 h.few)]
  have hpr := h.each
  clear h
  induction map with
  | nil => rfl
  | cons f rest ih =>
    rw [mapIdUpBase]
    refine (if_neg fun hf => ?_).trans (ih (fun g hg => hh g (List.mem_cons_of_mem _ hg))
      fun g hg => hpr g (List.mem_cons_of_mem _ hg))
    exact hh f List.mem_cons_self ((hpr f List.mem_cons_self).hits_iff.1 hf)

end Proper

/-! ## Both directions -/

/-- What the map makes of an id that an extent holds is mapped back to it. -/
theorem Proper.up_down (h : Proper map) (he : e ∈ map) (hh : e.Holds id 1) :
    mapIdUp map (id - e.first + e.lowerFirst) = id := by
  rw [h.up_mem he (hh.hits (h.each e he))]
  bv_omega

/-- A proper map takes the `count` ids from `id` on to those from `lower` on if and only if
    one of its extents holds them all and each of those is mapped back to its own. -/
theorem Proper.down_iff (h : Proper map) (hc : 0 < count.toNat)
    (hw : id.toNat + count.toNat ≤ 2 ^ 32) (hl : lower ≠ UNMAPPED) :
    mapIdRangeDown map id count = lower ↔
      (∃ e ∈ map, e.Holds id count.toNat) ∧
        ∀ i : Id, i.toNat < count.toNat → mapIdUp map (lower + i) = id + i := by
  constructor
  · intro hd
    by_cases hh : ∃ e ∈ map, e.Holds id count.toNat
    · obtain ⟨e, he, hh⟩ := hh
      rw [h.down_mem he hc hh hw] at hd
      refine ⟨⟨e, he, hh⟩, fun i hi => ?_⟩
      have hup := h.up_down he (hh.one hi (h.each e he))
      rwa [show id + i - e.first + e.lowerFirst = lower + i by rw [← hd]; bv_omega] at hup
    · exact absurd ((h.down_none hc hw (by simpa using hh)).symm.trans hd).symm hl
  · rintro ⟨⟨e, he, hh⟩, hup⟩
    have hone : e.Holds id 1 := by simpa using hh.one (i := 0) (by simpa using hc) (h.each e he)
    have hback : mapIdUp map lower = id := by simpa using hup 0 (by simpa using hc)
    rw [h.down_mem he hc hh hw]
    by_cases hhit : ∃ f ∈ map, f.Hits lower
    · obtain ⟨f, hf, hhit⟩ := hhit
      rw [h.up_mem hf hhit] at hback
      -- both extents hold `id`, and the search ends at one of them only
      have hf' := hhit.holds (h.each f hf)
      rw [hback] at hf'
      have he' := h.down_one he hone
      rw [h.down_one hf hf'] at he'
      rw [← he', ← hback]
      bv_omega
    · rw [h.up_none fun f hf hh => hhit ⟨f, hf, hh⟩] at hback
      exact absurd hback.symm (hone.mapped Nat.one_pos (h.each e he))

/-- **There and back**, on every proper map, such as the identity. -/
theorem maps_back : Proper identity ∧ ∀ (map : IdMap) (id lower count : Id), Proper map →
    0 < count.toNat → id.toNat + count.toNat ≤ 2 ^ 32 → lower ≠ UNMAPPED →
    (mapIdRangeDown map id count = lower ↔
      (∃ e ∈ map, e.Holds id count.toNat) ∧
        ∀ i : Id, i.toNat < count.toNat → mapIdUp map (lower + i) = id + i) :=
  ⟨identity_proper, fun _ _ _ _ h => h.down_iff⟩

/-- Two extents: the ids from 10 on are those from 0 on. -/
theorem maps_back_two : mapIdUp [⟨0, 1000, 10⟩, ⟨10, 0, 5⟩] 2 = 12 := by
  have h : Proper [⟨0, 1000, 10⟩, ⟨10, 0, 5⟩] := by
    refine ⟨by decide, ?_, ?_⟩
    · simp only [List.mem_cons, List.not_mem_nil, or_false, forall_eq_or_imp, forall_eq]
      exact ⟨⟨by decide, by decide, by decide⟩, ⟨by decide, by decide, by decide⟩⟩
    · exact List.pairwise_pair.2 ⟨.inl (by decide), .inr (by decide)⟩
  have hc : 0 < (3 : Id).toNat := by decide
  have hw : (10 : Id).toNat + (3 : Id).toNat ≤ 2 ^ 32 := by decide
  have hl : (0 : Id) ≠ UNMAPPED := by decide
  exact ((maps_back.2 _ _ _ _ h hc hw hl).1 (by decide)).2 2 (by decide)

/-! ## The identity -/

theorem holds_identity (h : id ≠ UNMAPPED) : Extent.Holds ⟨0, 0, 4294967295⟩ id 1 := by
  have h1 : id.toNat ≠ 4294967295 := fun he => h (BitVec.eq_of_toNat_eq he)
  refine ⟨Nat.zero_le _, ?_⟩
  simp
  omega

@[simp] theorem down_identity (id : Id) : mapIdRangeDown identity id 1 = id := by
  by_cases hid : id = UNMAPPED
  · subst hid
    decide
  rw [identity_proper.down_one (List.mem_singleton_self _) (holds_identity hid)]
  simp

@[simp] theorem up_identity (id : Id) : mapIdUp identity id = id := by
  by_cases hid : id = UNMAPPED
  · subst hid
    decide
  simpa using identity_proper.up_down (List.mem_singleton_self _) (holds_identity hid)

end DroidLkm.Userns
