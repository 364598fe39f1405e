/-
  Identifiers of IPC objects — references that are kept while the table changes.

  A caller that has found an object under an identifier goes on with it without a lock, and
  looks later whether it has been deleted.

  * `Sound`: a table in which what is found is not deleted;
  * `Held`: an object that was found under an identifier, and may be deleted since;
    `Stands`: it is not;
  * `Extends`: what a change of the table leaves of the references;
    `ipcget_extends`, `ipcRmid_extends`.
-/
import DroidLkm.Ids.Aliasing

namespace DroidLkm.Ids.IpcIds

variable {l : Limits} {s s' : IpcIds} {p q i idx : ℕ} {id : ℤ} {key : ℤ} {a : GetArgs}

structure Sound (l : Limits) (s : IpcIds) : Prop where
  stamped : Stamped l s
  valid : ∀ i p, s.idr.find i = some p → (s.perm p).deleted = false

/-- What was found under an identifier. -/
structure Held (l : Limits) (s : IpcIds) (p : ℕ) (id : ℤ) : Prop where
  lt : p < s.fresh
  found : (s.perm p).deleted = false → s.idr.find (l.toIdx id) = some p ∧ (s.perm p).id = id

/-- It is there still. -/
structure Stands (l : Limits) (s : IpcIds) (p : ℕ) (id : ℤ) : Prop extends Held l s p id where
  valid : (s.perm p).deleted = false

theorem Stands.unique (h : Stands l s p id) (hq : Stands l s q id) : p = q := by
  have hp := (h.found h.valid).1
  rw [(hq.found hq.valid).1] at hp
  exact (Option.some.inj hp).symm

/-! ## Found objects -/

theorem mkId_decode (id : ℤ) (n : ℕ) (h : l.toSeqx id = n) : id = l.mkId n (l.toIdx id) := by
  have hpos : (0 : ℤ) < 2 ^ l.shift := Int.pow_pos (by decide)
  have hidx : ((l.toIdx id : ℕ) : ℤ) = id % 2 ^ l.shift :=
    Int.toNat_of_nonneg (Int.emod_nonneg _ (ne_of_gt hpos))
  rw [Limits.mkId, ← h, hidx, Limits.toSeqx, Int.mul_comm]
  exact (Int.mul_ediv_add_emod id _).symm

/-- **What is found under an identifier** has it and is not deleted. -/
theorem Sound.obtain (h : Sound l s) (ho : s.ipcObtainObjectCheck l id = .ok p) :
    Stands l s p id := by
  unfold ipcObtainObjectCheck ipcObtainObjectIdr at ho
  cases hf : s.idr.find (l.toIdx id) with
  | none =>
    rw [hf] at ho
    cases ho
  | some q =>
    rw [hf] at ho
    dsimp only at ho
    split at ho
    · cases ho
    next hc =>
      cases ho
      obtain ⟨hlt, -, -, hid⟩ := h.stamped.found _ p hf
      have hseq : l.toSeqx id = (s.perm p).seq := by
        simpa [ipcCheckid] using hc
      refine ⟨⟨hlt, fun _ => ⟨hf, ?_⟩⟩, h.valid _ p hf⟩
      rw [hid]
      exact (mkId_decode id _ hseq).symm

/-- And what stands is found. -/
theorem Sound.obtain_eq (h : Sound l s) (hp : Stands l s p id) :
    s.ipcObtainObjectCheck l id = .ok p := by
  obtain ⟨hf, hid⟩ := hp.found hp.valid
  have hd := (h.stamped.unaliased.decode _ p hf).2.2.2.2
  rwa [hid] at hd

/-- An identifier that an object has is not negative. -/
theorem Sound.nonneg (h : Sound l s) (hp : Stands l s p id) : 0 ≤ id := by
  obtain ⟨hf, hid⟩ := hp.found hp.valid
  have hd := (h.stamped.unaliased.decode _ p hf).1
  rwa [hid] at hd

theorem Sound.live (h : Sound l s) (hf : s.idr.find i = some p) : Stands l s p (s.perm p).id := by
  obtain ⟨hlt, hi, -, hid⟩ := h.stamped.found i p hf
  refine ⟨⟨hlt, fun _ => ⟨?_, rfl⟩⟩, h.valid i p hf⟩
  rw [hid, toIdx_mkId hi]
  exact hf

/-! ## Changes of the table -/

/-- Objects may be added and deleted. -/
structure Extends (s s' : IpcIds) : Prop where
  fresh : s.fresh ≤ s'.fresh
  id : ∀ p < s.fresh, (s'.perm p).id = (s.perm p).id
  deleted : ∀ p < s.fresh, (s.perm p).deleted = true → (s'.perm p).deleted = true
  find : ∀ i p, s.idr.find i = some p → s'.idr.find i = some p ∨ (s'.perm p).deleted = true

theorem Extends.refl (s : IpcIds) : Extends s s :=
  ⟨le_rfl, fun _ _ => rfl, fun _ _ h => h, fun _ _ => Or.inl⟩

theorem Held.extends (h : Held l s p id) (hs : Extends s s') : Held l s' p id := by
  refine ⟨lt_of_lt_of_le h.lt hs.fresh, fun hd => ?_⟩
  have hold : (s.perm p).deleted = false := by
    by_contra hdel
    rw [hs.deleted p h.lt (Bool.eq_true_of_not_eq_false hdel)] at hd
    cases hd
  obtain ⟨hf, hid⟩ := h.found hold
  refine ⟨(hs.find _ p hf).resolve_right ?_, (hs.id p h.lt).trans hid⟩
  rw [hd]
  exact Bool.false_ne_true

theorem newPerm_perm (h : p < s.fresh) (key : ℤ) : (s.newPerm key).perm p = s.perm p :=
  Function.update_of_ne (Nat.ne_of_lt h) _ _

/-- What `ipcget` leaves of a table. -/
structure Gets (l : Limits) (s s' : IpcIds) : Prop where
  sound : Sound l s'
  fresh : s.fresh ≤ s'.fresh
  perm : ∀ p < s.fresh, s'.perm p = s.perm p
  find : ∀ i p, s.idr.find i = some p → s'.idr.find i = some p

theorem Gets.extends (h : Gets l s s') : Extends s s' := by
  refine ⟨h.fresh, fun p hp => ?_, fun p hp hd => ?_, fun i p hf => Or.inl (h.find i p hf)⟩
  · rw [h.perm p hp]
  · rw [h.perm p hp]
    exact hd

theorem Sound.failed (h : Sound l s) (hf : Failed l (s.newPerm key) s' s.fresh) :
    Gets l s s' := by
  have hperm : ∀ p < s.fresh, s'.perm p = s.perm p := fun p hp =>
    (hf.perm p (Nat.ne_of_lt hp)).trans (newPerm_perm hp key)
  have hfind : ∀ i, s'.idr.find i = s.idr.find i := fun i => by
    rw [Idr.find, hf.slots]
    rfl
  refine ⟨⟨(h.stamped.newPerm key).failed hf h.stamped.fresh_free, fun i p hi => ?_⟩, ?_, hperm,
    fun i p hi => (hfind i).trans hi⟩
  · rw [hfind] at hi
    rw [hperm p (h.stamped.found i p hi).1]
    exact h.valid i p hi
  · rw [hf.fresh]
    exact Nat.le_succ _

theorem Sound.inserted (h : Sound l s) (hi : Inserted l (s.newPerm key) s' s.fresh idx) :
    Gets l s s' := by
  have hperm : ∀ p < s.fresh, s'.perm p = s.perm p := fun p hp => by
    rw [hi.perm, Function.update_of_ne (Nat.ne_of_lt hp), newPerm_perm hp key]
  have hst := (h.stamped.newPerm key).inserted hi h.stamped.fresh_free (Nat.lt_succ_self _)
  have hfree : s.idr.find idx = none := hi.free
  refine ⟨⟨hst, fun j p hj => ?_⟩, ?_, hperm, fun j p hj => ?_⟩
  · rw [hi.idr, Idr.find_insert] at hj
    split at hj
    · cases hj
      rw [hi.perm, Function.update_self]
    · have hj' : s.idr.find j = some p := hj
      rw [hperm p (h.stamped.found j p hj').1]
      exact h.valid j p hj'
  · rw [hi.fresh]
    exact Nat.le_succ _
  · rw [hi.idr, Idr.find_insert]
    split
    next he =>
      rw [he, hfree] at hj
      cases hj
    · exact hj

theorem Sound.ipcget (h : Sound l s) (a : GetArgs) : Gets l s (s.ipcget l a).1 := by
  rcases ipcget_eq l s a with he | he
  · rw [he]
    exact ⟨h, le_rfl, fun _ _ => rfl, fun _ _ => id⟩
  · rw [he]
    rcases ipcAddid_cases l (s.newPerm a.key) s.fresh a.limit a.env with ⟨-, -, hf⟩ | ⟨idx, -, hi⟩
    · exact h.failed hf
    · exact h.inserted hi

/-- What `ipc_rmid` leaves of a table. -/
structure Rmids (l : Limits) (s s' : IpcIds) (p : ℕ) : Prop where
  sound : Sound l s'
  fresh : s'.fresh = s.fresh
  perm : s'.perm = Function.update s.perm p { s.perm p with deleted := true }
  find : ∀ i q, q ≠ p → s.idr.find i = some q → s'.idr.find i = some q

theorem Rmids.extends (h : Rmids l s s' p) : Extends s s' := by
  refine ⟨le_of_eq h.fresh.symm, fun q _ => ?_, fun q _ hd => ?_, fun i q hf => ?_⟩
  · rw [h.perm]
    by_cases hq : q = p
    · subst hq
      simp
    · simp [hq]
  · rw [h.perm]
    by_cases hq : q = p
    · subst hq
      simp
    · simpa [hq] using hd
  · by_cases hq : q = p
    · right
      rw [h.perm, hq, Function.update_self]
    · exact Or.inl (h.find i q hq hf)

theorem Sound.ipcRmid (h : Sound l s) (hp : s.idr.find idx = some p) :
    Rmids l s (s.ipcRmid l p) p := by
  obtain ⟨-, hlt, -, hid⟩ := h.stamped.found idx p hp
  have hr : Removed s (s.ipcRmid l p) p idx :=
    ipcRmid_removed (by rw [hid]; exact toIdx_mkId hlt)
  have hfind : ∀ i q, q ≠ p → s.idr.find i = some q → (s.ipcRmid l p).idr.find i = some q := by
    intro i q hq hf
    rw [hr.idr, Idr.find_remove, if_neg]
    · exact hf
    · rintro rfl
      rw [hp] at hf
      exact hq (Option.some.inj hf).symm
  have hback : ∀ i q, (s.ipcRmid l p).idr.find i = some q → s.idr.find i = some q ∧ q ≠ p := by
    intro i q hf
    rw [hr.idr, Idr.find_remove] at hf
    split at hf
    · cases hf
    next hne =>
      refine ⟨hf, ?_⟩
      rintro rfl
      obtain ⟨-, hi, -, hid'⟩ := h.stamped.found i q hf
      rw [hid] at hid'
      have hidx := congrArg l.toIdx hid'
      rw [toIdx_mkId hlt, toIdx_mkId hi] at hidx
      exact hne hidx.symm
  refine ⟨⟨?_, fun i q hf => ?_⟩, hr.fresh, hr.perm, hfind⟩
  · refine h.stamped.shrink (fun i q hf => ?_) (le_of_eq hr.fresh.symm) ?_
    · obtain ⟨hf', hq⟩ := hback i q hf
      rw [hr.perm, Function.update_of_ne hq]
      exact ⟨hf', rfl, rfl⟩
    · rw [hr.seq]
      exact h.stamped.seq
  · obtain ⟨hf', hq⟩ := hback i q hf
    rw [hr.perm, Function.update_of_ne hq]
    exact h.valid i q hf'

theorem init_sound (l : Limits) : Sound l init := by
  refine ⟨⟨fun i p hi => ?_, l.seqMax_pos⟩, fun i p hi => ?_⟩
  · simp [init] at hi
  · simp [init] at hi

end DroidLkm.Ids.IpcIds
