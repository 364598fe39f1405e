/-
  Identifiers of IPC objects — what `ipc_addid` and `ipc_rmid` do.

  * `ipcAddid_cases`: it fails and leaves the objects as they are (`Failed`),
    or gives the object a free index (`Inserted`); either way the sequence
    number and the last index move together (`Stamp`);
  * `ipcRmid_removed`: what is left of an object that is removed.
-/
import DroidLkm.Ids.Table

namespace DroidLkm.Ids

variable {l : Limits} {s s' : IpcIds} {new p q i j idx : ℕ} {limit id : ℤ} {e : AddEnv}

namespace IpcIds

/-- The sequence number and the last index after an index was allocated. -/
def Stamp (l : Limits) (s s' : IpcIds) (idx : ℕ) : Prop :=
  s'.seq = s.nextSeq l idx ∧ s'.lastIdx = idx

/-- Nothing has come of it; an index may have been given back. -/
structure Failed (l : Limits) (s s' : IpcIds) (new : ℕ) : Prop where
  inUse : s'.inUse = s.inUse
  maxIdx : s'.maxIdx = s.maxIdx
  slots : s'.idr.slots = s.idr.slots
  keyHt : s'.keyHt = s.keyHt
  perm : ∀ p, p ≠ new → s'.perm p = s.perm p
  fresh : s'.fresh = s.fresh
  stamp : (s'.seq = s.seq ∧ s'.lastIdx = s.lastIdx) ∨ ∃ idx, idx < l.mni ∧ Stamp l s s' idx

/-- The object has been given the index `idx`. -/
structure Inserted (l : Limits) (s s' : IpcIds) (new idx : ℕ) : Prop where
  free : s.idr.find idx = none
  lt : idx < l.mni
  idr : s'.idr = ⟨s.idr.slots.insert idx new, idx + 1⟩
  inUse : s'.inUse = s.inUse + 1
  maxIdx : s'.maxIdx = if s.maxIdx < idx then (idx : ℤ) else s.maxIdx
  keyHt : s'.keyHt = if (s.perm new).key ≠ IPC_PRIVATE then new :: s.keyHt else s.keyHt
  perm : s'.perm = Function.update s.perm new
    ⟨(s.perm new).key, s.nextSeq l idx, s.nextSeq l idx * 2 ^ l.shift + idx, false⟩
  fresh : s'.fresh = s.fresh
  stamp : Stamp l s s' idx

theorem slots_insert_erase {slots : AList fun _ : ℕ => ℕ} (h : idx ∉ slots) :
    (slots.insert idx new).erase idx = slots := by
  refine AList.ext ?_
  rw [AList.insert_of_notMem h]
  exact List.kerase_cons_eq rfl

theorem ipcIdrAlloc_error {noMem : Bool} {err : ℤ}
    (h : s.ipcIdrAlloc l new noMem = (s', .error err)) : s' = s := by
  unfold ipcIdrAlloc at h
  dsimp only at h
  split_ifs at h
  · cases h
    rfl
  · split at h <;> cases h
    rfl

theorem ipcIdrAlloc_ok {noMem : Bool} (h : s.ipcIdrAlloc l new noMem = (s', .ok idx)) :
    s.idr.find idx = none ∧ idx < l.mni ∧ s' = { s with
      seq := s.nextSeq l idx
      lastIdx := idx
      idr := ⟨s.idr.slots.insert idx new, idx + 1⟩
      perm := Function.update s.perm new { s.perm new with
        seq := s.nextSeq l idx
        id := s.nextSeq l idx * 2 ^ l.shift + idx } } := by
  unfold ipcIdrAlloc at h
  dsimp only at h
  split_ifs at h
  · cases h
  split at h
  · cases h
  next i idr ha =>
    cases h
    obtain ⟨hfree, hlt, rfl⟩ := Idr.allocCyclic_spec ha
    refine ⟨hfree, ?_, rfl⟩
    omega

theorem ipcAddid_cases (l : Limits) (s : IpcIds) (new : ℕ) (limit : ℤ) (e : AddEnv) :
    (∃ err, (s.ipcAddid l new limit e).2 = .error err ∧
      Failed l s (s.ipcAddid l new limit e).1 new) ∨
    ∃ idx, (s.ipcAddid l new limit e).2 = .ok idx ∧
      Inserted l s (s.ipcAddid l new limit e).1 new idx := by
  have hne : ∀ (s : IpcIds) (b : Bool) (p : ℕ), p ≠ new →
      (s.setDeleted new b).perm p = s.perm p := by
    intro s b p hp
    exact Function.update_of_ne hp _ _
  unfold ipcAddid
  dsimp only
  generalize (if (l.mni : ℤ) < limit then (l.mni : ℤ) else limit) = limit
  split
  · exact Or.inl ⟨_, rfl, rfl, rfl, rfl, rfl, fun _ _ => rfl, rfl, Or.inl ⟨rfl, rfl⟩⟩
  rcases hr : (s.setDeleted new false).ipcIdrAlloc l new e.noMem with ⟨s₁, err | idx⟩ <;>
    dsimp only
  · obtain rfl := ipcIdrAlloc_error hr
    refine Or.inl ⟨_, rfl, rfl, rfl, rfl, rfl, ?_, rfl, Or.inl ⟨rfl, rfl⟩⟩
    intro p hp
    rw [hne _ _ p hp, hne _ _ p hp]
  · obtain ⟨hfree, hlt, rfl⟩ := ipcIdrAlloc_ok hr
    have hfree' : s.idr.find idx = none := hfree
    split
    · refine Or.inl ⟨_, rfl, rfl, rfl, ?_, rfl, ?_, rfl, Or.inr ⟨idx, hlt, rfl, rfl⟩⟩
      · exact slots_insert_erase (Idr.find_eq_none.1 hfree')
      · intro p hp
        rw [hne _ _ p hp]
        exact (Function.update_of_ne hp _ _).trans (hne _ _ p hp)
    · refine Or.inr ⟨idx, rfl, hfree', hlt, rfl, rfl, rfl, ?_, ?_, rfl, rfl, rfl⟩
      · simp [setDeleted, setPerm]
      · show Function.update (Function.update s.perm new _) new _ = _
        rw [Function.update_idem]
        simp only [setDeleted, setPerm, Function.update_self]
        rfl

/-- The object has lost its index `idx`. -/
structure Removed (s s' : IpcIds) (p idx : ℕ) : Prop where
  idr : s'.idr = s.idr.remove idx
  inUse : s'.inUse = s.inUse - 1
  keyHt : s'.keyHt = if (s.perm p).key ≠ IPC_PRIVATE then s.keyHt.erase p else s.keyHt
  perm : s'.perm = Function.update s.perm p { s.perm p with deleted := true }
  maxIdx : s'.maxIdx = { s with idr := s.idr.remove idx }.maxIdxWithout idx
  seq : s'.seq = s.seq
  lastIdx : s'.lastIdx = s.lastIdx
  fresh : s'.fresh = s.fresh

theorem ipcRmid_removed (hidx : l.toIdx (s.perm p).id = idx) :
    Removed s (s.ipcRmid l p) p idx := by
  subst hidx
  unfold ipcRmid ipcKhtRemove
  dsimp only
  split
  next hk => exact ⟨rfl, rfl, (if_pos hk).symm, rfl, rfl, rfl, rfl, rfl⟩
  next hk => exact ⟨rfl, rfl, (if_neg hk).symm, rfl, rfl, rfl, rfl, rfl⟩

end IpcIds

end DroidLkm.Ids
