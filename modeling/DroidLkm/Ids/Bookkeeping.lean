/-
  Identifiers of IPC objects — the idr, the counter, the maximum and the keys.

  * `ipcSearchMaxidx_highest`: the bitwise search finds the highest index in
    use, whatever indices are in use;
  * `Booked`: the four structures agree, kept by every step that the callers
    of the table take;
  * `ids_bookkeeping`: they agree in every reachable state, and an `ipc_addid`
    that fails changes none of them.
-/
import DroidLkm.Ids.Aliasing

namespace DroidLkm.Ids

open Machine

variable {l : Limits} {s s' : IpcIds} {new p q i idx limit : ℕ} {r : Idr ℕ} {m : ℤ}
  {act : IpcIds.Act}

/-! ## The highest index -/

/-- `m` is the highest index in use, or -1 if there is none. -/
def Highest (r : Idr ℕ) (m : ℤ) : Prop :=
  (m = -1 ∧ ∀ i, r.find i = none) ∨
    ∃ i : ℕ, m = i ∧ (r.find i).isSome ∧ ∀ j, i < j → r.find j = none

theorem Highest.le (h : Highest r m) (hi : (r.find i).isSome) : i ≤ m := by
  rcases h with ⟨-, hnone⟩ | ⟨k, rfl, -, habove⟩
  · rw [hnone i] at hi
    cases hi
  · by_contra hlt
    rw [habove i (by omega)] at hi
    cases hi

theorem highest_of_le (hm : (r.find i).isSome) (hle : ∀ j, (r.find j).isSome → j ≤ i) :
    Highest r i := by
  refine Or.inr ⟨i, rfl, hm, ?_⟩
  intro j hj
  rw [← Option.not_isSome_iff_eq_none]
  intro hs
  have := hle j hs
  omega

/-- **The bitwise search is right** for any set of indices below the limit. -/
theorem ipcSearchMaxidx_highest (hlim : ∀ i, (r.find i).isSome → i ≤ limit) :
    Highest r (IpcIds.ipcSearchMaxidx r limit) := by
  have hp : ∀ a b, 0 < a → a ≤ b → (r.getNext (b - 1)).isSome = true →
      (r.getNext (a - 1)).isSome = true := by
    intro a b _ hab hb
    obtain ⟨j, hj, hs⟩ := Idr.getNext_isSome.1 hb
    exact Idr.getNext_isSome.2 ⟨j, by omega, hs⟩
  have hbits : limit + 1 < 2 ^ (Nat.log2 (limit + 1) + 1) := Nat.lt_log2_self
  have htop : ∀ x, 2 ^ (Nat.log2 (limit + 1) + 1) * (0 + 1) ≤ x →
      (r.getNext (x - 1)).isSome = false := by
    intro x hx
    rw [Bool.eq_false_iff]
    intro hs
    obtain ⟨j, hj, hs⟩ := Idr.getNext_isSome.1 hs
    have := hlim j hs
    omega
  obtain ⟨hself, habove⟩ := BitSearch.search_spec (m := 0) hp (Or.inl (Nat.mul_zero _)) htop
  rw [Nat.mul_zero] at hself habove
  unfold IpcIds.ipcSearchMaxidx
  generalize BitSearch.search (fun tmp => (r.getNext (tmp - 1)).isSome)
    (Nat.log2 (limit + 1) + 1) 0 = x at hself habove
  -- nothing is in use from `x` on
  have hnone : ∀ j, x ≤ j → r.find j = none := by
    intro j hj
    rw [← Option.not_isSome_iff_eq_none]
    intro hs
    have hx : (r.getNext (x + 1 - 1)).isSome = false := habove (x + 1) (Nat.lt_succ_self x)
    rw [Idr.getNext_isSome.2 ⟨j, by omega, hs⟩] at hx
    cases hx
  rcases x with _ | x
  · exact Or.inl ⟨rfl, fun i => hnone i (Nat.zero_le i)⟩
  · rcases hself with h0 | hx
    · cases h0
    · obtain ⟨j, hj, hs⟩ := Idr.getNext_isSome.1 hx
      have hjx : j = x := by
        by_contra hne
        rw [hnone j (by omega)] at hs
        cases hs
      subst hjx
      refine Or.inr ⟨j, by push_cast; ring, hs, ?_⟩
      intro i hi
      exact hnone i hi

namespace IpcIds

/-! ## The four structures -/

/-- The counter counts the objects, the maximum is the highest index, and the
    key table has the objects that have a key, each key once. -/
structure Booked (s : IpcIds) : Prop where
  inUse : s.inUse = s.idr.size
  maxIdx : Highest s.idr s.maxIdx
  keyed : ∀ p, p ∈ s.keyHt ↔ s.live p = true ∧ (s.perm p).key ≠ IPC_PRIVATE
  nodup : s.keyHt.Nodup
  once : ∀ p ∈ s.keyHt, ∀ q ∈ s.keyHt, (s.perm p).key = (s.perm q).key → p = q

theorem live_congr (h : ∀ i, s'.idr.find i = s.idr.find i) (p : ℕ) : s'.live p = s.live p := by
  rw [Bool.eq_iff_iff, live_iff, live_iff]
  simp only [h]

/-- The key table and the idr stay, and so do the keys of the objects in use. -/
theorem Booked.same (h : Booked s) (hidr : s'.idr.slots = s.idr.slots)
    (hin : s'.inUse = s.inUse) (hmax : s'.maxIdx = s.maxIdx) (hht : s'.keyHt = s.keyHt)
    (hkey : ∀ p, s.live p = true → (s'.perm p).key = (s.perm p).key) : Booked s' := by
  have hfind : ∀ i, s'.idr.find i = s.idr.find i := by
    intro i
    rw [Idr.find, hidr]
    rfl
  have hlive : ∀ p ∈ s.keyHt, (s'.perm p).key = (s.perm p).key := fun p hp =>
    hkey p ((h.keyed p).1 hp).1
  refine ⟨?_, ?_, ?_, by rw [hht]; exact h.nodup, ?_⟩
  · rw [hin, h.inUse, Idr.size, Idr.size, hidr]
  · rw [hmax]
    unfold Highest
    simp only [hfind]
    exact h.maxIdx
  · intro p
    rw [hht, h.keyed, live_congr hfind]
    constructor
    · rintro ⟨hp, hk⟩
      exact ⟨hp, by rw [hkey p hp]; exact hk⟩
    · rintro ⟨hp, hk⟩
      exact ⟨hp, by rw [← hkey p hp]; exact hk⟩
  · intro p hp q hq heq
    rw [hht] at hp hq
    rw [hlive p hp, hlive q hq] at heq
    exact h.once p hp q hq heq

theorem Booked.newPerm (h : Booked s) (hs : Stamped l s) (key : ℤ) : Booked (s.newPerm key) := by
  refine h.same rfl rfl rfl rfl ?_
  intro p hp
  obtain ⟨i, hi⟩ := live_iff.1 hp
  have hne : p ≠ s.fresh := by
    rintro rfl
    exact hs.fresh_free i hi
  exact congrArg Perm.key (Function.update_of_ne hne _ _)

theorem Stamped.newPerm_live (hs : Stamped l s) (key : ℤ) :
    (s.newPerm key).live s.fresh = false := by
  rw [Bool.eq_false_iff]
  intro hl
  obtain ⟨i, hi⟩ := live_iff.1 hl
  exact hs.fresh_free i hi

theorem Booked.failed (h : Booked s) (hf : Failed l s s' new) (hnew : s.live new = false) :
    Booked s' := by
  refine h.same hf.slots hf.inUse hf.maxIdx hf.keyHt ?_
  intro p hp
  rw [hf.perm p]
  rintro rfl
  rw [hp] at hnew
  cases hnew

theorem Booked.inserted (h : Booked s) (hi : Inserted l s s' new idx) (hnew : s.live new = false)
    (hkey : (s.perm new).key = IPC_PRIVATE ∨ ∀ p ∈ s.keyHt, (s.perm p).key ≠ (s.perm new).key) :
    Booked s' := by
  have hfind : ∀ i, s'.idr.find i = if i = idx then some new else s.idr.find i := by
    intro i
    rw [hi.idr, Idr.find_insert]
  have hlive : ∀ p, s'.live p = true ↔ p = new ∨ s.live p = true := by
    intro p
    simp only [live_iff, hfind]
    constructor
    · rintro ⟨i, hp⟩
      split at hp
      · exact Or.inl (Option.some.inj hp).symm
      · exact Or.inr ⟨i, hp⟩
    · rintro (rfl | ⟨i, hp⟩)
      · exact ⟨idx, if_pos rfl⟩
      · refine ⟨i, ?_⟩
        rw [if_neg, hp]
        rintro rfl
        rw [hi.free] at hp
        cases hp
  have hperm : ∀ p, (s'.perm p).key = (s.perm p).key := by
    intro p
    rw [hi.perm]
    by_cases hp : p = new
    · subst hp
      rw [Function.update_self]
    · rw [Function.update_of_ne hp]
  have hnot : new ∉ s.keyHt := by
    intro hmem
    rw [((h.keyed new).1 hmem).1] at hnew
    cases hnew
  refine ⟨?_, ?_, ?_, ?_, ?_⟩
  · rw [hi.inUse, h.inUse, hi.idr, Idr.size_insert hi.free]
    rfl
  · have hsome : (s'.idr.find idx).isSome := by rw [hfind, if_pos rfl]; rfl
    rw [hi.maxIdx]
    split
    next hlt =>
      refine highest_of_le hsome ?_
      intro j hj
      rw [hfind] at hj
      split at hj
      next he => exact le_of_eq he
      · have := h.maxIdx.le hj
        omega
    next hge =>
      rcases h.maxIdx with ⟨hm, -⟩ | ⟨k, hk, hks, habove⟩
      · omega
      · refine Or.inr ⟨k, hk, ?_, ?_⟩
        · rw [hfind]
          split
          · rfl
          · exact hks
        · intro j hj
          rw [hfind, if_neg (by omega)]
          exact habove j hj
  · intro p
    rw [hlive, hperm, hi.keyHt]
    split
    next hk =>
      rw [List.mem_cons, h.keyed]
      constructor
      · rintro (rfl | ⟨hp, hpk⟩)
        · exact ⟨Or.inl rfl, hk⟩
        · exact ⟨Or.inr hp, hpk⟩
      · rintro ⟨rfl | hp, hpk⟩
        · exact Or.inl rfl
        · exact Or.inr ⟨hp, hpk⟩
    next hk =>
      rw [h.keyed]
      constructor
      · rintro ⟨hp, hpk⟩
        exact ⟨Or.inr hp, hpk⟩
      · rintro ⟨rfl | hp, hpk⟩
        · exact absurd hpk hk
        · exact ⟨hp, hpk⟩
  · rw [hi.keyHt]
    split
    · exact List.nodup_cons.2 ⟨hnot, h.nodup⟩
    · exact h.nodup
  · intro p hp q hq heq
    rw [hperm, hperm] at heq
    rw [hi.keyHt] at hp hq
    split at hp
    next hk =>
      rw [if_pos hk] at hq
      have hne := hkey.resolve_left hk
      rcases List.mem_cons.1 hp with rfl | hp' <;> rcases List.mem_cons.1 hq with rfl | hq'
      · rfl
      · exact absurd heq.symm (hne q hq')
      · exact absurd heq (hne p hp')
      · exact h.once p hp' q hq' heq
    next hk =>
      rw [if_neg hk] at hq
      exact h.once p hp q hq heq

theorem Booked.removed (h : Booked s) (hs : Stamped l s) (hp : s.idr.find idx = some p)
    (hr : Removed s s' p idx) : Booked s' := by
  have hfind : ∀ i, s'.idr.find i = if i = idx then none else s.idr.find i := by
    intro i
    rw [hr.idr, Idr.find_remove]
  have hlive : ∀ q, s'.live q = true ↔ q ≠ p ∧ s.live q = true := by
    intro q
    simp only [live_iff, hfind]
    constructor
    · rintro ⟨i, hq⟩
      split at hq
      · cases hq
      next hi =>
        refine ⟨?_, i, hq⟩
        rintro rfl
        refine hi ?_
        rw [← toIdx_mkId (l := l) (n := (s.perm q).seq) (hs.found i q hq).2.1,
          ← (hs.found i q hq).2.2.2, (hs.found idx q hp).2.2.2,
          toIdx_mkId (hs.found idx q hp).2.1]
    · rintro ⟨hne, i, hq⟩
      refine ⟨i, ?_⟩
      rw [if_neg, hq]
      rintro rfl
      rw [hp] at hq
      exact hne (Option.some.inj hq).symm
  have hperm : ∀ q, (s'.perm q).key = (s.perm q).key := by
    intro q
    rw [hr.perm]
    by_cases hq : q = p
    · subst hq
      rw [Function.update_self]
    · rw [Function.update_of_ne hq]
  have hmem : ∀ q, q ∈ s'.keyHt ↔ q ≠ p ∧ q ∈ s.keyHt := by
    intro q
    rw [hr.keyHt]
    split
    · exact h.nodup.mem_erase_iff
    next hk =>
      refine ⟨?_, And.right⟩
      intro hq
      refine ⟨?_, hq⟩
      rintro rfl
      exact hk ((h.keyed q).1 hq).2
  refine ⟨?_, ?_, ?_, ?_, ?_⟩
  · have hsize := Idr.size_remove hp
    rw [hr.inUse, h.inUse, hr.idr]
    omega
  · have hbelow : ∀ j, (s'.idr.find j).isSome → (s.idr.find j).isSome ∧ j ≠ idx := by
      intro j hj
      rw [hfind] at hj
      split at hj
      · cases hj
      next hne => exact ⟨hj, hne⟩
    rw [hr.maxIdx]
    unfold maxIdxWithout
    rw [← hr.idr]
    dsimp only
    split
    next he =>
      -- the object was the highest
      split
      next hpos =>
        refine ipcSearchMaxidx_highest ?_
        intro j hj
        obtain ⟨hj', hne⟩ := hbelow j hj
        have := h.maxIdx.le hj'
        omega
      next hneg =>
        refine Or.inl ⟨by omega, ?_⟩
        intro j
        rw [← Option.not_isSome_iff_eq_none]
        intro hj
        obtain ⟨hj', hne⟩ := hbelow j hj
        have := h.maxIdx.le hj'
        omega
    next hne =>
      rcases h.maxIdx with ⟨-, hnone⟩ | ⟨k, hk, hks, habove⟩
      · rw [hnone] at hp
        cases hp
      · refine Or.inr ⟨k, hk, ?_, ?_⟩
        · rw [hfind, if_neg (by omega)]
          exact hks
        · intro j hj
          rw [hfind, habove j hj, ite_self]
  · intro q
    rw [hmem, hlive, hperm, h.keyed]
    tauto
  · rw [hr.keyHt]
    split
    · exact h.nodup.erase p
    · exact h.nodup
  · intro a ha b hb heq
    rw [hperm, hperm] at heq
    exact h.once a ((hmem a).1 ha).2 b ((hmem b).1 hb).2 heq

theorem Booked.setKeyPrivate (h : Booked s) : Booked (s.ipcSetKeyPrivate p) := by
  have hkey : ∀ q, q ≠ p → ((s.ipcSetKeyPrivate p).perm q).key = (s.perm q).key := by
    intro q hq
    unfold ipcSetKeyPrivate ipcKhtRemove
    dsimp only
    split <;> exact congrArg Perm.key (Function.update_of_ne hq _ _)
  have hself : ((s.ipcSetKeyPrivate p).perm p).key = IPC_PRIVATE := by
    simp [ipcSetKeyPrivate, setPerm]
  have hmem : ∀ q, q ∈ (s.ipcSetKeyPrivate p).keyHt ↔ q ≠ p ∧ q ∈ s.keyHt := by
    intro q
    unfold ipcSetKeyPrivate ipcKhtRemove
    dsimp only
    split
    · exact h.nodup.mem_erase_iff
    next hk =>
      refine ⟨?_, And.right⟩
      intro hq
      refine ⟨?_, hq⟩
      rintro rfl
      exact hk ((h.keyed q).1 hq).2
  have hrest : (s.ipcSetKeyPrivate p).inUse = s.inUse ∧ (s.ipcSetKeyPrivate p).idr = s.idr ∧
      (s.ipcSetKeyPrivate p).maxIdx = s.maxIdx := by
    unfold ipcSetKeyPrivate ipcKhtRemove
    split <;> exact ⟨rfl, rfl, rfl⟩
  obtain ⟨hin, hidr, hmax⟩ := hrest
  refine ⟨?_, ?_, ?_, ?_, ?_⟩
  · rw [hin, hidr, h.inUse]
  · rw [hmax, hidr]
    exact h.maxIdx
  · intro q
    have hlive : (s.ipcSetKeyPrivate p).live q = s.live q := live_congr (fun i => by rw [hidr]) q
    rw [hmem, hlive, h.keyed]
    by_cases hq : q = p
    · subst hq
      simp [hself]
    · rw [hkey q hq]
      tauto
  · unfold ipcSetKeyPrivate ipcKhtRemove
    dsimp only
    split
    · exact h.nodup.erase p
    · exact h.nodup
  · intro a ha b hb heq
    rw [hmem] at ha hb
    rw [hkey a ha.1, hkey b hb.1] at heq
    exact h.once a ha.2 b hb.2 heq

/-! ## A step -/

/-- The calls of the other files: `ipc_addid` is called by `…get` only. -/
def Act.ofCallers : Act → Prop
  | .addid .. => False
  | _ => True

/-- A `…get` that adds an object has not found its key, unless that is
    private. -/
theorem ipcget_key (l : Limits) (s : IpcIds) (a : GetArgs) : (s.ipcget l a).1 = s ∨
    ((s.ipcget l a).1 = ((s.newPerm a.key).ipcAddid l s.fresh a.limit a.env).1 ∧
      (a.key = IPC_PRIVATE ∨ ∀ p ∈ s.keyHt, (s.perm p).key ≠ a.key)) := by
  unfold ipcget
  split
  next hk =>
    rcases getnew_eq l s a with hs | hs
    · exact Or.inl hs
    · exact Or.inr ⟨hs, Or.inl hk⟩
  · unfold ipcgetPublic
    split
    next hfind =>
      split
      · exact Or.inl rfl
      · rcases getnew_eq l s a with hs | hs
        · exact Or.inl hs
        · refine Or.inr ⟨hs, Or.inr ?_⟩
          intro p hp
          simpa using List.find?_eq_none.1 hfind p hp
    · split_ifs <;> exact Or.inl rfl

/-- A new object, of which `ipc_addid` fails, -/
theorem Booked.addFailed {key : ℤ} (h : Booked s) (hs : Stamped l s)
    (hf : Failed l (s.newPerm key) s' s.fresh) : Booked s' :=
  (h.newPerm hs key).failed hf (hs.newPerm_live key)

/-- or succeeds: its key is private or new. -/
theorem Booked.addInserted {key : ℤ} (h : Booked s) (hs : Stamped l s)
    (hi : Inserted l (s.newPerm key) s' s.fresh idx)
    (hkey : key = IPC_PRIVATE ∨ ∀ p ∈ s.keyHt, (s.perm p).key ≠ key) : Booked s' := by
  have hself : ((s.newPerm key).perm s.fresh).key = key := by
    simp [IpcIds.newPerm, setPerm]
  refine (h.newPerm hs key).inserted hi (hs.newPerm_live key) ?_
  rw [hself]
  refine hkey.imp_right ?_
  intro hne p hp
  have hpne : p ≠ s.fresh := by
    rintro rfl
    obtain ⟨i, hi⟩ := live_iff.1 ((h.keyed _).1 hp).1
    exact hs.fresh_free i hi
  rw [show (s.newPerm key).perm p = s.perm p from Function.update_of_ne hpne _ _]
  exact hne p hp

theorem Booked.get (h : Booked s) (hs : Stamped l s) (a : GetArgs) :
    Booked (s.ipcget l a).1 := by
  rcases ipcget_key l s a with he | ⟨he, hkey⟩
  · rw [he]
    exact h
  · rw [he]
    rcases ipcAddid_cases l (s.newPerm a.key) s.fresh a.limit a.env with ⟨-, -, hf⟩ | ⟨idx, -, hi⟩
    · exact h.addFailed hs hf
    · exact h.addInserted hs hi hkey

theorem step_booked (h : Booked s) (hs : Stamped l s) (hact : act.ofCallers)
    (hst : s.step l act = some s') : Booked s' := by
  cases act with
  | get a =>
    obtain rfl : (s.ipcget l a).1 = s' := Option.some.inj hst
    exact h.get hs a
  | addid key limit e => exact absurd hact id
  | rmid p =>
    obtain ⟨hl, rfl⟩ : s.live p = true ∧ s.ipcRmid l p = s' := by simpa [step] using hst
    obtain ⟨idx, hidx⟩ := live_iff.1 hl
    obtain ⟨-, hlt, -, hid⟩ := hs.found idx p hidx
    exact h.removed hs hidx (ipcRmid_removed (by rw [hid]; exact toIdx_mkId hlt))
  | setKeyPrivate p =>
    obtain ⟨-, rfl⟩ : s.live p = true ∧ s.ipcSetKeyPrivate p = s' := by simpa [step] using hst
    exact h.setKeyPrivate

theorem init_booked : Booked init := by
  refine ⟨rfl, Or.inl ⟨rfl, fun i => Idr.find_empty⟩, ?_, List.nodup_nil, ?_⟩
  · intro p
    simp [init, live, Idr.empty]
  · intro p hp
    cases hp

theorem run_booked (h : RunIf (step l) (fun _ act => act.ofCallers) init s) : Booked s := by
  have hinv : Booked s ∧ Stamped l s := by
    refine RunIf.inv (I := fun s => Booked s ∧ Stamped l s) h
      ⟨init_booked, run_stamped Relation.ReflTransGen.refl⟩ ?_
    rintro s act s' ⟨hb, hst⟩ hact hs
    exact ⟨step_booked hb hst hact hs, step_stamped hst hs⟩
  exact hinv.1

/-- What `ipc_get_maxidx` returns without looking is the maximum. -/
theorem ipcGetMaxidx_eq (h : Booked s) (hs : Stamped l s) : s.ipcGetMaxidx l = s.maxIdx := by
  unfold ipcGetMaxidx
  have hkey : ∀ i, (s.idr.find i).isSome ↔ i ∈ s.idr.slots.keys := fun i => Idr.find_isSome
  split
  next h0 =>
    have hsize : s.idr.slots.keys.length = 0 := by
      have := h.inUse
      unfold Idr.size at this
      omega
    rcases h.maxIdx with ⟨hm, -⟩ | ⟨i, -, hi, -⟩
    · exact hm.symm
    · rw [hkey, List.eq_nil_of_length_eq_zero hsize] at hi
      cases hi
  split
  next hfull =>
    have hsize : s.idr.slots.keys.length = l.mni := by
      have := h.inUse
      unfold Idr.size at this
      omega
    have hlt : ∀ i, (s.idr.find i).isSome → i < l.mni := by
      intro i hi
      obtain ⟨p, hp⟩ := Option.isSome_iff_exists.1 hi
      exact (hs.found i p hp).2.1
    -- all indices are in use, for there is no room for so many below the last
    have hlast : (s.idr.find (l.mni - 1)).isSome := by
      rw [hkey]
      by_contra hnot
      have hsub : s.idr.slots.keys ⊆ List.range (l.mni - 1) := by
        intro i hi
        have hi' := hlt i ((hkey i).2 hi)
        have hne : i ≠ l.mni - 1 := by
          rintro rfl
          exact hnot hi
        exact List.mem_range.2 (by omega)
      have hle := (List.subperm_of_subset s.idr.slots.keys_nodup hsub).length_le
      rw [List.length_range, hsize] at hle
      have := l.mni_pos
      omega
    rcases h.maxIdx with ⟨-, hnone⟩ | ⟨i, hi, his, habove⟩
    · rw [hnone] at hlast
      cases hlast
    · have h1 := hlt i his
      have h2 : ¬i < l.mni - 1 := by
        intro hlt
        rw [habove _ hlt] at hlast
        cases hlast
      omega
  · rfl

/-- **The bookkeeping of a table.**  In every state that the callers reach,
    the counter, the maximum and the key table agree with the idr; the search
    for the maximum is right for any set of indices; and an `ipc_addid` that
    fails leaves all four as they were. -/
theorem ids_bookkeeping (l : Limits) :
    (∀ s, RunIf (step l) (fun _ act => act.ofCallers) init s → Booked s) ∧
      (∀ (r : Idr ℕ) (limit : ℕ), (∀ i, (r.find i).isSome → i ≤ limit) →
        Highest r (ipcSearchMaxidx r limit)) ∧
      ∀ (s : IpcIds) (new : ℕ) (limit : ℤ) (e : AddEnv) (err : ℤ),
        (s.ipcAddid l new limit e).2 = .error err →
        (s.ipcAddid l new limit e).1.inUse = s.inUse ∧
          (s.ipcAddid l new limit e).1.maxIdx = s.maxIdx ∧
          (∀ i, (s.ipcAddid l new limit e).1.idr.find i = s.idr.find i) ∧
          (s.ipcAddid l new limit e).1.keyHt = s.keyHt := by
  refine ⟨fun s h => run_booked h, fun r limit h => ipcSearchMaxidx_highest h, ?_⟩
  intro s new limit e err herr
  rcases ipcAddid_cases l s new limit e with ⟨-, -, hf⟩ | ⟨idx, hok, -⟩
  · refine ⟨hf.inUse, hf.maxIdx, ?_, hf.keyHt⟩
    intro i
    rw [Idr.find, hf.slots]
    rfl
  · rw [herr] at hok
    cases hok

/-- Objects with and without a key, the one between them removed; and a key of which the
    insertion fails, in a call and after it. -/
theorem ids_bookkeeping_get : ∃ s, RunIf (step .std) (fun _ act => act.ofCallers) init s ∧
    s.idr.slots.keys = [2, 0] ∧ s.keyHt = [2, 0] ∧ Booked s ∧
      Highest s.idr (ipcSearchMaxidx s.idr 2) ∧
      ((s.setPerm 7 ⟨9, 0, 0, false⟩).ipcAddid .std 7 9 ⟨false, -ENOMEM⟩).1.keyHt = s.keyHt := by
  obtain ⟨s, hrun, hs⟩ := execIf_check (C := fun _ act => act.ofCallers) (step .std)
    (fun _ act => match act with | .addid .. => false | _ => true)
    (fun _ act h => by
      cases act with
      | addid => cases h
      | _ => trivial) init
    [.get ⟨5, true, false, 0, 0, 9, ⟨false, 0⟩⟩,
      .get ⟨IPC_PRIVATE, true, false, 0, 0, 9, ⟨false, 0⟩⟩,
      .get ⟨7, true, false, 0, 0, 9, ⟨false, 0⟩⟩, .rmid 1,
      .get ⟨9, true, false, 0, 0, 9, ⟨false, -ENOMEM⟩⟩]
    (fun s => decide (s.idr.slots.keys = [2, 0] ∧ s.keyHt = [2, 0] ∧
      ((s.setPerm 7 ⟨9, 0, 0, false⟩).ipcAddid .std 7 9 ⟨false, -ENOMEM⟩).2 =
        .error (-ENOMEM))) (by decide)
  obtain ⟨hkeys, hht, herr⟩ := of_decide_eq_true hs
  refine ⟨s, hrun, hkeys, hht, (ids_bookkeeping .std).1 s hrun, ?_, ?_⟩
  · refine (ids_bookkeeping .std).2.1 s.idr 2 fun i hi => ?_
    have hi' := Idr.find_isSome.1 hi
    rw [hkeys] at hi'
    simp only [List.mem_cons, List.not_mem_nil, or_false] at hi'
    omega
  · exact ((ids_bookkeeping .std).2.2 _ 7 9 ⟨false, -ENOMEM⟩ (-ENOMEM) herr).2.2.2

end IpcIds

end DroidLkm.Ids
