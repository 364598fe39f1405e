/-
  Identifiers of IPC objects — when there is no room.

  * `Setting`: the two settings of `ipc_mni`, each with its least window;
  * `Counted`: the counter is the number of indices in use, in every state of
    every run;
  * `window_free`: below the limit the window that `ipc_idr_alloc` asks for has
    more indices than are in use, wherever these and the cursor are;
  * `addid_nospace`: `ipc_addid` finds no space exactly at the limit.
-/
import Mathlib.Algebra.Order.Ring.Nat
import DroidLkm.Ids.Aliasing

namespace DroidLkm.Ids

open Machine

/-- How the kernel was built and booted: the extended mode or not, and
    `RADIX_TREE_MAP_SHIFT`, which is 4 or 6. -/
structure Setting where
  extended : Bool
  radixShift : ℕ
  radixShift_pos : 0 < radixShift

/-- `IPCMNI_SHIFT` and `RADIX_TREE_MAP_SIZE`, or `IPCMNI_EXTEND_SHIFT` and
    `IPCMNI_EXTEND_MIN_CYCLE`. -/
def Setting.limits (c : Setting) : Limits :=
  if c.extended then ⟨24, 2 ^ c.radixShift * 2 ^ c.radixShift, by decide⟩
  else ⟨15, 2 ^ c.radixShift, Limits.std.shift_le⟩

variable {l : Limits} {s s' : IpcIds} {new idx : ℕ} {key limit : ℤ} {e : AddEnv}
  {act : IpcIds.Act}

theorem Setting.two_le_minCycle (c : Setting) : 2 ≤ c.limits.minCycle := by
  have hsize : 2 ≤ 2 ^ c.radixShift := Nat.le_self_pow (Nat.ne_of_gt c.radixShift_pos) 2
  unfold limits
  split
  · exact le_trans hsize (Nat.le_mul_of_pos_left _ (by omega))
  · exact hsize

namespace IpcIds

/-! ## The counter -/

def Counted (s : IpcIds) : Prop := s.inUse = s.idr.size

theorem Counted.addid (h : Counted s) (l : Limits) (key limit : ℤ) (e : AddEnv) :
    Counted ((s.newPerm key).ipcAddid l s.fresh limit e).1 := by
  have hnew : Counted (s.newPerm key) := h
  unfold Counted
  rcases ipcAddid_cases l (s.newPerm key) s.fresh limit e with ⟨-, -, hf⟩ | ⟨idx, -, hi⟩
  · rw [hf.inUse, hnew, Idr.size, Idr.size, hf.slots]
  · rw [hi.inUse, hnew, hi.idr, Idr.size_insert hi.free]
    rfl

theorem Counted.rmid {p : ℕ} (h : Counted s) (hs : Stamped l s) (hp : s.live p = true) :
    Counted (s.ipcRmid l p) := by
  obtain ⟨idx, hidx⟩ := live_iff.1 hp
  obtain ⟨-, hlt, -, hid⟩ := hs.found idx p hidx
  have hr : Removed s (s.ipcRmid l p) p idx :=
    ipcRmid_removed (by rw [hid]; exact toIdx_mkId hlt)
  have hsize := Idr.size_remove hidx
  unfold Counted at h ⊢
  rw [hr.inUse, hr.idr, h]
  omega

theorem step_counted (h : Counted s) (hs : Stamped l s) (hst : s.step l act = some s') :
    Counted s' := by
  cases act with
  | get a =>
    obtain rfl : (s.ipcget l a).1 = s' := Option.some.inj hst
    rcases ipcget_eq l s a with he | he
    · rw [he]
      exact h
    · rw [he]
      exact h.addid l a.key a.limit a.env
  | addid key limit e =>
    obtain rfl : ((s.newPerm key).ipcAddid l s.fresh limit e).1 = s' := Option.some.inj hst
    exact h.addid l key limit e
  | rmid p =>
    obtain ⟨hl, rfl⟩ : s.live p = true ∧ s.ipcRmid l p = s' := by simpa [step] using hst
    exact h.rmid hs hl
  | setKeyPrivate p =>
    obtain ⟨-, rfl⟩ : s.live p = true ∧ s.ipcSetKeyPrivate p = s' := by simpa [step] using hst
    unfold ipcSetKeyPrivate ipcKhtRemove
    dsimp only
    split <;> exact h

theorem run_counted (h : Run (step l) init s) : Counted s := by
  have hinv : Counted s ∧ Stamped l s := by
    refine Run.inv (I := fun s => Counted s ∧ Stamped l s) h
      ⟨rfl, run_stamped Relation.ReflTransGen.refl⟩ ?_
    rintro s act s' ⟨hc, hst⟩ hs
    exact ⟨step_counted hc hst hs, step_stamped hst hs⟩
  exact hinv.1

/-- No more indices are in use than there are. -/
theorem Counted.le_mni (h : Counted s) (hs : Stamped l s) : s.inUse ≤ l.mni := by
  have hsub : s.idr.slots.keys ⊆ List.range l.mni := by
    intro i hi
    obtain ⟨p, hp⟩ := Option.isSome_iff_exists.1 (Idr.find_isSome.2 hi)
    exact List.mem_range.2 (hs.found i p hp).2.1
  have hle := (List.subperm_of_subset s.idr.slots.keys_nodup hsub).length_le
  rw [List.length_range] at hle
  unfold Counted Idr.size at h
  omega

/-! ## The window -/

/-- `max_idx` of `ipc_idr_alloc`. -/
def window (l : Limits) (s : IpcIds) : ℕ :=
  (min (max (Int.tdiv (s.inUse * 3) 2) l.minCycle) l.mni).toNat

/-- The window is larger than the number of indices in use: half as many more
    from two on, and the least window before. -/
theorem Counted.lt_window (h : Counted s) (hc : 2 ≤ l.minCycle) (hlt : s.inUse < l.mni) :
    s.idr.size < window l s := by
  have hdiv : Int.tdiv (s.inUse * 3) 2 = s.inUse * 3 / 2 :=
    Int.tdiv_eq_ediv_of_nonneg (by unfold Counted at h; omega)
  unfold Counted at h
  unfold window
  rw [hdiv]
  omega

/-- **There is a free index in the window.** -/
theorem Counted.window_free (h : Counted s) (hc : 2 ≤ l.minCycle) (hlt : s.inUse < l.mni) :
    ∃ i, i < window l s ∧ s.idr.find i = none :=
  Idr.exists_free (h.lt_window hc hlt)

theorem Counted.idrAlloc (h : Counted s) (hc : 2 ≤ l.minCycle) (hlt : s.inUse < l.mni)
    (new : ℕ) : ∃ s₁ idx, (s.setDeleted new false).ipcIdrAlloc l new false = (s₁, .ok idx) := by
  obtain ⟨i, hi, hfree⟩ := h.window_free hc hlt
  obtain ⟨⟨idx, r⟩, halloc⟩ := Option.isSome_iff_exists.1 (Idr.allocCyclic_isSome hi hfree new)
  have halloc' : (s.setDeleted new false).idr.allocCyclic new
      (window l (s.setDeleted new false)) = some (idx, r) := halloc
  unfold window at halloc'
  unfold ipcIdrAlloc
  dsimp only
  rw [if_neg Bool.false_ne_true, halloc']
  exact ⟨_, _, rfl⟩

/-- **No space exactly when full.**  In every state of every run, where memory
    does not fail and the insertion of the key does not say so either,
    `ipc_addid` returns `-ENOSPC` just when as many objects are there as the
    limit and `ipc_mni` allow; below that it has a free index to give in the
    window that it asks for. -/
theorem addid_nospace (c : Setting) (hrun : Run (step c.limits) init s) (new : ℕ) (limit : ℤ)
    (hmem : e.noMem = false) (hht : e.insertErr ≠ -ENOSPC) :
    ((s.ipcAddid c.limits new limit e).2 = .error (-ENOSPC) ↔ min limit c.limits.mni ≤ s.inUse) ∧
      (s.inUse < min limit c.limits.mni →
        ∃ i, i < window c.limits s ∧ s.idr.find i = none) ∧
      (∀ idx, (s.ipcAddid c.limits new limit e).2 = .ok idx →
        s.idr.find idx = none ∧ idx < c.limits.mni) ∧
      s.inUse * 3 < 2 ^ 31 := by
  have hcount := run_counted hrun
  have hcycle := c.two_le_minCycle
  refine ⟨⟨fun h => ?_, fun h => ?_⟩, fun h => ?_, fun idx hok => ?_, ?_⟩
  · by_contra hlt
    have hmin : (if (c.limits.mni : ℤ) < limit then (c.limits.mni : ℤ) else limit) =
        min limit c.limits.mni := by split <;> omega
    obtain ⟨s₁, idx, halloc⟩ := hcount.idrAlloc hcycle (by omega) new
    unfold ipcAddid at h
    dsimp only at h
    rw [hmin, if_neg hlt, hmem, halloc] at h
    dsimp only at h
    split at h
    · exact hht (Except.error.inj h)
    · cases h
  · unfold ipcAddid
    dsimp only
    rw [if_pos (by split <;> omega)]
  · exact hcount.window_free hcycle (by omega)
  · rcases ipcAddid_cases c.limits s new limit e with ⟨err, herr, -⟩ | ⟨idx', hok', hi⟩
    · rw [herr] at hok
      cases hok
    · rw [hok'] at hok
      obtain rfl := Except.ok.inj hok
      exact ⟨hi.free, hi.lt⟩
  · have hle := hcount.le_mni (run_stamped hrun)
    have hmni : c.limits.mni ≤ 2 ^ 24 := Nat.pow_le_pow_right (by omega) c.limits.shift_le
    omega

/-- The second object where one is allowed. -/
theorem addid_nospace_second :
    ∃ s, Run (step (Setting.limits ⟨false, 6, by decide⟩)) init s ∧
      ((s.ipcAddid (Setting.limits ⟨false, 6, by decide⟩) 7 1 ⟨false, 0⟩).2 =
          .error (-ENOSPC) ↔ min 1 (Setting.limits ⟨false, 6, by decide⟩).mni ≤ s.inUse) ∧
      s.inUse = 1 := by
  have hrun : Run (step (Setting.limits ⟨false, 6, by decide⟩)) init
      (init.ipcget (Setting.limits ⟨false, 6, by decide⟩)
        ⟨5, true, false, 0, 0, 9, ⟨false, 0⟩⟩).1 :=
    Relation.ReflTransGen.single ⟨.get ⟨5, true, false, 0, 0, 9, ⟨false, 0⟩⟩, trivial, rfl⟩
  refine ⟨_, hrun, ?_, by decide⟩
  exact_mod_cast (addid_nospace ⟨false, 6, by decide⟩ hrun 7 1 rfl (by decide)).1

end IpcIds

end DroidLkm.Ids
