/-
  Identifiers of IPC objects — no identifier stands for two objects.

  * `Stamped`: what an object that is in the idr was given, kept by every step;
  * `Past`: as long as the sequence number does not wrap, a pair of sequence
    number and index that has been given out is behind the next ones;
  * `ids_unaliased`: identifiers name one object each, and one that was given
    out is not given to another object before the sequence number has wrapped.
-/
import DroidLkm.Ids.Addid

namespace DroidLkm.Ids

open Machine

variable {l : Limits} {s s' s₁ s₂ : IpcIds} {new p q i j idx : ℕ} {limit id : ℤ} {e : AddEnv}
  {act : IpcIds.Act}

/-! ## Identifiers -/

theorem Limits.mni_pos (l : Limits) : 0 < l.mni := Nat.pow_pos (by omega)

theorem Limits.one_lt_seqMax (l : Limits) : 1 < l.seqMax := by
  have hle : 2 ^ l.shift ≤ 2 ^ 24 := Nat.pow_le_pow_right (by omega) l.shift_le
  refine (Nat.le_div_iff_mul_le l.mni_pos).2 ?_
  unfold mni
  omega

theorem Limits.seqMax_pos (l : Limits) : 0 < l.seqMax := lt_trans Nat.one_pos l.one_lt_seqMax

/-- The identifier that is made of a sequence number and an index. -/
def Limits.mkId (l : Limits) (seq idx : ℕ) : ℤ := seq * 2 ^ l.shift + idx

theorem Limits.mkId_eq (l : Limits) (seq idx : ℕ) :
    l.mkId seq idx = ((seq * l.mni + idx : ℕ) : ℤ) := by
  simp [mkId, mni]

theorem toIdx_mkId {n : ℕ} (h : idx < l.mni) : l.toIdx (l.mkId n idx) = idx := by
  have hm : ((2 : ℤ) ^ l.shift) = ((l.mni : ℕ) : ℤ) := by simp [Limits.mni]
  rw [Limits.toIdx, Limits.mkId_eq, hm, ← Int.natCast_emod, Int.toNat_natCast,
    Nat.mul_add_mod_of_lt h]

theorem toSeqx_mkId {seq : ℕ} (h : idx < l.mni) : l.toSeqx (l.mkId seq idx) = seq := by
  have hm : ((2 : ℤ) ^ l.shift) = ((l.mni : ℕ) : ℤ) := by simp [Limits.mni]
  rw [Limits.toSeqx, Limits.mkId_eq, hm, ← Int.natCast_ediv, Nat.add_comm,
    Nat.add_mul_div_right _ _ l.mni_pos, Nat.div_eq_of_lt h, Nat.zero_add]

/-- An identifier is a nonnegative `int`. -/
theorem mkId_int {seq : ℕ} (hs : seq < l.seqMax) (h : idx < l.mni) :
    0 ≤ l.mkId seq idx ∧ l.mkId seq idx ≤ 2147483647 := by
  have hmul : (seq + 1) * l.mni ≤ 2147483647 :=
    le_trans (Nat.mul_le_mul_right _ hs) (Nat.div_mul_le_self _ _)
  rw [Nat.add_mul] at hmul
  rw [Limits.mkId_eq]
  omega

namespace IpcIds

theorem live_iff : s.live p = true ↔ ∃ i, s.idr.find i = some p := by
  simp only [live, List.any_eq_true, beq_iff_eq]
  constructor
  · rintro ⟨⟨i, q⟩, hmem, rfl⟩
    exact ⟨i, AList.mem_lookup_iff.2 hmem⟩
  · rintro ⟨i, hi⟩
    exact ⟨⟨i, p⟩, AList.mem_lookup_iff.1 hi, rfl⟩

/-! ## What an object was given -/

/-- Objects that are in the idr have an index in the range, a sequence number
    in the range, and the identifier made of both. -/
structure Stamped (l : Limits) (s : IpcIds) : Prop where
  found : ∀ i p, s.idr.find i = some p → p < s.fresh ∧ i < l.mni ∧
    (s.perm p).seq < l.seqMax ∧ (s.perm p).id = l.mkId (s.perm p).seq i
  seq : s.seq < l.seqMax

theorem nextSeq_lt (h : s.seq < l.seqMax) (idx : ℕ) : s.nextSeq l idx < l.seqMax := by
  unfold nextSeq
  split_ifs with h1 h2
  · exact l.seqMax_pos
  · omega
  · exact h

/-- Nothing new is in the idr, and what is there keeps its stamp. -/
theorem Stamped.shrink (h : Stamped l s) (hfind : ∀ i p, s'.idr.find i = some p →
    s.idr.find i = some p ∧ (s'.perm p).seq = (s.perm p).seq ∧ (s'.perm p).id = (s.perm p).id)
    (hfresh : s.fresh ≤ s'.fresh) (hseq : s'.seq < l.seqMax) : Stamped l s' := by
  refine ⟨?_, hseq⟩
  intro i p hi
  obtain ⟨hi', hs, hid⟩ := hfind i p hi
  obtain ⟨h1, h2, h3, h4⟩ := h.found i p hi'
  exact ⟨lt_of_lt_of_le h1 hfresh, h2, by rw [hs]; exact h3, by rw [hs, hid]; exact h4⟩

theorem Stamped.failed (h : Stamped l s) (hf : Failed l s s' new)
    (hnew : ∀ i, s.idr.find i ≠ some new) : Stamped l s' := by
  refine h.shrink ?_ (le_of_eq hf.fresh.symm) ?_
  · intro i p hi
    have hi' : s.idr.find i = some p := by
      rw [Idr.find, ← hf.slots]
      exact hi
    have hp : p ≠ new := by
      rintro rfl
      exact hnew i hi'
    rw [hf.perm p hp]
    exact ⟨hi', rfl, rfl⟩
  · rcases hf.stamp with ⟨hs, -⟩ | ⟨idx, -, hs, -⟩
    · rw [hs]; exact h.seq
    · rw [hs]; exact nextSeq_lt h.seq idx

theorem Stamped.inserted (h : Stamped l s) (hi : Inserted l s s' new idx)
    (hnew : ∀ i, s.idr.find i ≠ some new) (hlt : new < s.fresh) : Stamped l s' := by
  refine ⟨?_, by rw [hi.stamp.1]; exact nextSeq_lt h.seq idx⟩
  intro j p hj
  rw [hi.idr, Idr.find_insert] at hj
  rw [hi.fresh, hi.perm]
  split at hj
  next he =>
    cases hj
    subst he
    rw [Function.update_self]
    exact ⟨hlt, hi.lt, nextSeq_lt h.seq j, rfl⟩
  · have hp : p ≠ new := by
      rintro rfl
      exact hnew j hj
    rw [Function.update_of_ne hp]
    exact h.found j p hj

/-- A new object, on which `ipc_addid` is called. -/
def newPerm (s : IpcIds) (key : ℤ) : IpcIds :=
  { s.setPerm s.fresh ⟨key, 0, 0, false⟩ with fresh := s.fresh + 1 }

theorem Stamped.fresh_free (h : Stamped l s) (i : ℕ) : s.idr.find i ≠ some s.fresh := by
  intro hi
  exact lt_irrefl _ (h.found i _ hi).1

theorem Stamped.newPerm (h : Stamped l s) (key : ℤ) : Stamped l (s.newPerm key) := by
  refine h.shrink ?_ (Nat.le_succ _) h.seq
  intro i p hi
  have hp : p ≠ s.fresh := by
    rintro rfl
    exact h.fresh_free i hi
  have hperm : (s.newPerm key).perm p = s.perm p := Function.update_of_ne hp _ _
  exact ⟨hi, by rw [hperm], by rw [hperm]⟩

/-! ## A step -/

theorem getnew_eq (l : Limits) (s : IpcIds) (a : GetArgs) : (s.getnew l a).1 = s ∨
    (s.getnew l a).1 = ((s.newPerm a.key).ipcAddid l s.fresh a.limit a.env).1 := by
  unfold getnew
  split
  · exact Or.inl rfl
  · right
    have hnew : { s.setPerm s.fresh ⟨a.key, 0, 0, false⟩ with fresh := s.fresh + 1 } =
        s.newPerm a.key := rfl
    dsimp only
    rw [hnew]
    rcases (s.newPerm a.key).ipcAddid l s.fresh a.limit a.env with ⟨s₁, err | idx⟩
    · rfl
    · rfl

theorem ipcget_eq (l : Limits) (s : IpcIds) (a : GetArgs) : (s.ipcget l a).1 = s ∨
    (s.ipcget l a).1 = ((s.newPerm a.key).ipcAddid l s.fresh a.limit a.env).1 := by
  unfold ipcget
  split
  · exact getnew_eq l s a
  · unfold ipcgetPublic
    split
    · split
      · exact Or.inl rfl
      · exact getnew_eq l s a
    · split_ifs <;> exact Or.inl rfl

/-- **What a step does**: nothing to the objects in the idr, or it adds the
    next object, or fails to, or takes one out. -/
theorem step_cases (h : s.step l act = some s') :
    s' = s ∨
    (∃ key, Failed l (s.newPerm key) s' s.fresh) ∨
    (∃ key idx, Inserted l (s.newPerm key) s' s.fresh idx) ∨
    ((∀ i p, s'.idr.find i = some p → s.idr.find i = some p) ∧ s'.fresh = s.fresh ∧
      s'.seq = s.seq ∧ s'.lastIdx = s.lastIdx ∧
      ∀ p, (s'.perm p).seq = (s.perm p).seq ∧ (s'.perm p).id = (s.perm p).id) := by
  have hadd : ∀ key limit e, s' = ((s.newPerm key).ipcAddid l s.fresh limit e).1 →
      (∃ key, Failed l (s.newPerm key) s' s.fresh) ∨
        (∃ key idx, Inserted l (s.newPerm key) s' s.fresh idx) := by
    rintro key limit e rfl
    rcases ipcAddid_cases l (s.newPerm key) s.fresh limit e with ⟨-, -, hf⟩ | ⟨idx, -, hi⟩
    · exact Or.inl ⟨key, hf⟩
    · exact Or.inr ⟨key, idx, hi⟩
  have hset : ∀ (s : IpcIds) (p q : ℕ) (x : Perm), x.seq = (s.perm p).seq → x.id = (s.perm p).id →
      ((s.setPerm p x).perm q).seq = (s.perm q).seq ∧ ((s.setPerm p x).perm q).id = (s.perm q).id := by
    intro s p q x hs hi
    by_cases hq : q = p
    · subst hq
      simp [setPerm, hs, hi]
    · simp [setPerm, hq]
  have hkht : ∀ (s : IpcIds) (p : ℕ), ∃ t, s.ipcKhtRemove p = { s with keyHt := t } := by
    intro s p
    unfold ipcKhtRemove
    split
    · exact ⟨_, rfl⟩
    · exact ⟨s.keyHt, rfl⟩
  cases act with
  | get a =>
    have he : (s.ipcget l a).1 = s' := Option.some.inj h
    rcases ipcget_eq l s a with hs | hs
    · exact Or.inl (he.symm.trans hs)
    · rcases hadd _ _ _ (he.symm.trans hs) with hf | hi
      · exact Or.inr (Or.inl hf)
      · exact Or.inr (Or.inr (Or.inl hi))
  | addid key limit e =>
    have he : ((s.newPerm key).ipcAddid l s.fresh limit e).1 = s' := Option.some.inj h
    rcases hadd key limit e he.symm with hf | hi
    · exact Or.inr (Or.inl hf)
    · exact Or.inr (Or.inr (Or.inl hi))
  | rmid p =>
    obtain ⟨-, rfl⟩ : s.live p = true ∧ s.ipcRmid l p = s' := by simpa [step] using h
    right; right; right
    unfold ipcRmid
    obtain ⟨t, ht⟩ := hkht { s with idr := s.idr.remove (l.toIdx (s.perm p).id) } p
    dsimp only
    rw [ht]
    refine ⟨?_, rfl, rfl, rfl, ?_⟩
    · intro i q hi
      have hi' : (s.idr.remove (l.toIdx (s.perm p).id)).find i = some q := hi
      rw [Idr.find_remove] at hi'
      split at hi'
      · cases hi'
      · exact hi'
    · intro q
      exact hset s p q _ rfl rfl
  | setKeyPrivate p =>
    obtain ⟨-, rfl⟩ : s.live p = true ∧ s.ipcSetKeyPrivate p = s' := by simpa [step] using h
    right; right; right
    unfold ipcSetKeyPrivate
    obtain ⟨t, ht⟩ := hkht s p
    dsimp only
    rw [ht]
    refine ⟨fun _ _ hi => hi, rfl, rfl, rfl, ?_⟩
    intro q
    exact hset s p q _ rfl rfl

theorem step_stamped (h : Stamped l s) (hs : s.step l act = some s') : Stamped l s' := by
  rcases step_cases hs with rfl | ⟨key, hf⟩ | ⟨key, idx, hi⟩ | ⟨hfind, hfresh, hseq, -, hperm⟩
  · exact h
  · exact (h.newPerm key).failed hf h.fresh_free
  · exact (h.newPerm key).inserted hi h.fresh_free (Nat.lt_succ_self _)
  · refine h.shrink ?_ (le_of_eq hfresh.symm) (by rw [hseq]; exact h.seq)
    intro i p hi
    exact ⟨hfind i p hi, hperm p⟩

theorem run_stamped (h : Run (step l) init s) : Stamped l s := by
  refine h.inv ⟨?_, l.seqMax_pos⟩ fun _ _ _ hi ha => step_stamped hi ha
  intro i p hi
  simp [init] at hi

/-! ## Identifiers that were given out -/

/-- The sequence number does not wrap. -/
def NoWrap (l : Limits) (s : IpcIds) (act : Act) : Prop :=
  ∀ s', s.step l act = some s' → s.seq ≤ s'.seq

/-- A pair of sequence number and index is behind those to be given out. -/
def Past (seq idx : ℕ) (s : IpcIds) : Prop := seq < s.seq ∨ seq = s.seq ∧ idx ≤ s.lastIdx

/-- What is given out next differs from what is past, which stays past. -/
theorem Past.stamp {seq : ℕ} (h : Past seq idx s) (hs : Stamp l s s' i) (hle : s.seq ≤ s'.seq) :
    Past seq idx s' ∧ ¬(s'.seq = seq ∧ i = idx) := by
  obtain ⟨hseq, hlast⟩ := hs
  have := l.one_lt_seqMax
  unfold Past at h ⊢
  rw [hlast]
  unfold nextSeq at hseq
  split_ifs at hseq with h1 h2
  · omega
  · omega
  · omega

/-- Of two objects with the same index, the later one has another stamp. -/
structure Superseded (l : Limits) (p seq idx : ℕ) (s : IpcIds) : Prop where
  stamped : Stamped l s
  past : Past seq idx s
  other : ∀ q, s.idr.find idx = some q → q = p ∨ (s.perm q).seq ≠ seq

theorem Superseded.step {seq : ℕ} (h : Superseded l p seq idx s) (hs : s.step l act = some s')
    (hw : NoWrap l s act) : Superseded l p seq idx s' := by
  have hst := step_stamped h.stamped hs
  have hle := hw s' hs
  have hnew : ∀ key q, q ≠ s.fresh → (s.newPerm key).perm q = s.perm q := by
    intro key q hq
    exact Function.update_of_ne hq _ _
  have hne : ∀ q, s.idr.find idx = some q → q ≠ s.fresh := by
    rintro q hq rfl
    exact h.stamped.fresh_free idx hq
  rcases step_cases hs with rfl | ⟨key, hf⟩ | ⟨key, i, hi⟩ | ⟨hfind, -, hseq, hlast, hperm⟩
  · exact h
  · refine ⟨hst, ?_, ?_⟩
    · rcases hf.stamp with ⟨hseq, hlast⟩ | ⟨i, -, hstamp⟩
      · unfold Past
        rw [hseq, hlast]
        exact h.past
      · exact (Past.stamp (s := s.newPerm key) h.past hstamp hle).1
    · intro q hq
      have hq' : s.idr.find idx = some q := by
        rw [Idr.find, hf.slots] at hq
        exact hq
      rw [hf.perm q (hne q hq'), hnew key q (hne q hq')]
      exact h.other q hq'
  · obtain ⟨hpast, hdiff⟩ := Past.stamp (s := s.newPerm key) h.past hi.stamp hle
    refine ⟨hst, hpast, ?_⟩
    intro q hq
    rw [hi.idr, Idr.find_insert] at hq
    rw [hi.perm]
    split at hq
    next he =>
      cases hq
      right
      rw [Function.update_self]
      intro heq
      exact hdiff ⟨hi.stamp.1.trans heq, he.symm⟩
    · have hq' : s.idr.find idx = some q := hq
      rw [Function.update_of_ne (hne q hq'), hnew key q (hne q hq')]
      exact h.other q hq'
  · refine ⟨hst, ?_, ?_⟩
    · unfold Past
      rw [hseq, hlast]
      exact h.past
    · intro q hq
      rw [(hperm q).1]
      exact h.other q (hfind idx q hq)

/-- The step that puts an object into the idr gives it the newest stamp. -/
theorem step_superseded (h : Stamped l s) (hs : s.step l act = some s')
    (hold : s.live p = false) (hp : s'.live p = true) :
    ∃ idx, s'.idr.find idx = some p ∧ Superseded l p (s'.perm p).seq idx s' := by
  have hnot : ∀ i, s.idr.find i ≠ some p := by
    intro i hi
    rw [live_iff.2 ⟨i, hi⟩] at hold
    cases hold
  obtain ⟨i, hi⟩ := live_iff.1 hp
  rcases step_cases hs with rfl | ⟨key, hf⟩ | ⟨key, idx, hins⟩ | ⟨hfind, -⟩
  · exact absurd hi (hnot i)
  · rw [Idr.find, hf.slots] at hi
    exact absurd hi (hnot i)
  · have hi' := hi
    rw [hins.idr, Idr.find_insert] at hi'
    split at hi'
    next he =>
      cases hi'
      subst he
      refine ⟨i, hi, step_stamped h hs, Or.inr ⟨?_, le_of_eq hins.stamp.2.symm⟩, ?_⟩
      · rw [hins.stamp.1, hins.perm, Function.update_self]
      · intro q hq
        rw [hi] at hq
        exact Or.inl (Option.some.inj hq).symm
    · exact absurd hi' (hnot i)
  · exact absurd (hfind i p hi) (hnot i)

/-- What is found under an identifier. -/
theorem obtain_eq {seq : ℕ} (hi : idx < l.mni) :
    s.ipcObtainObjectCheck l (l.mkId seq idx) = .ok q ↔
      s.idr.find idx = some q ∧ (s.perm q).seq = seq := by
  simp only [ipcObtainObjectCheck, ipcObtainObjectIdr, toIdx_mkId hi, ipcCheckid, toSeqx_mkId hi]
  rcases hf : s.idr.find idx with _ | p
  · simp
  · by_cases hs : (s.perm p).seq = seq
    · simp only [hs, bne_self_eq_false, Bool.false_eq_true, if_false, Except.ok.injEq,
        Option.some.injEq]
      constructor
      · rintro rfl
        exact ⟨rfl, hs⟩
      · rintro ⟨rfl, -⟩
        rfl
    · have hne : ((seq : ℤ) != ((s.perm p).seq : ℤ)) = true := by
        simp [Ne.symm hs]
      simp only [hne, if_true, reduceCtorEq, Option.some.injEq, false_iff, not_and]
      rintro rfl
      exact hs

/-- The identifiers of the objects in the idr. -/
structure Unaliased (l : Limits) (s : IpcIds) : Prop where
  decode : ∀ i p, s.idr.find i = some p →
    0 ≤ (s.perm p).id ∧ (s.perm p).id ≤ 2147483647 ∧ l.toIdx (s.perm p).id = i ∧
      l.toSeqx (s.perm p).id = (s.perm p).seq ∧
      s.ipcObtainObjectCheck l (s.perm p).id = .ok p
  distinct : ∀ p q, s.live p = true → s.live q = true → (s.perm p).id = (s.perm q).id → p = q

theorem Stamped.unaliased (h : Stamped l s) : Unaliased l s := by
  refine ⟨?_, ?_⟩
  · intro i p hi
    obtain ⟨-, hlt, hseq, hid⟩ := h.found i p hi
    obtain ⟨h0, hmax⟩ := mkId_int hseq hlt
    rw [hid]
    exact ⟨h0, hmax, toIdx_mkId hlt, toSeqx_mkId hlt, (obtain_eq hlt).2 ⟨hi, rfl⟩⟩
  · intro p q hp hq heq
    obtain ⟨i, hi⟩ := live_iff.1 hp
    obtain ⟨j, hj⟩ := live_iff.1 hq
    obtain ⟨-, hilt, -, hpid⟩ := h.found i p hi
    obtain ⟨-, hjlt, -, hqid⟩ := h.found j q hj
    have hij : i = j := by
      rw [← toIdx_mkId (l := l) (n := (s.perm p).seq) hilt, ← hpid, heq, hqid, toIdx_mkId hjlt]
    rw [hij, hj] at hi
    exact (Option.some.inj hi).symm

/-- **No identifier stands for two objects.**  In every reachable state the
    identifier of an object is a nonnegative `int` that decodes to its index
    and sequence number, names it alone and is resolved to it; and from the
    step that adds an object on, no other object is found under its identifier
    before the sequence number has wrapped. -/
theorem ids_unaliased (l : Limits) :
    (∀ s, Run (step l) init s → Unaliased l s) ∧
      ∀ s act p s₁ s₂ q, Run (step l) init s → s.step l act = some s₁ →
        s.live p = false → s₁.live p = true → RunIf (step l) (NoWrap l) s₁ s₂ →
        s₂.ipcObtainObjectCheck l (s₁.perm p).id = .ok q → q = p := by
  refine ⟨fun s h => (run_stamped h).unaliased, ?_⟩
  intro s act p s₁ s₂ q hrun hs hold hp hrun' hq
  obtain ⟨idx, hidx, hsup⟩ := step_superseded (run_stamped hrun) hs hold hp
  obtain ⟨-, hlt, -, hid⟩ := hsup.stamped.found idx p hidx
  have hsup₂ : Superseded l p (s₁.perm p).seq idx s₂ :=
    hrun'.inv hsup fun _ _ _ hi hw ha => hi.step ha hw
  rw [hid, obtain_eq hlt] at hq
  rcases hsup₂.other q hq.1 with rfl | hne
  · rfl
  · exact absurd hq.2 hne

/-- The table with one more object, of no key. -/
def added (s : IpcIds) : IpcIds :=
  ((s.newPerm IPC_PRIVATE).ipcAddid .std s.fresh 9 ⟨false, 0⟩).1

/-- Two objects, and a third one after the first has been removed. -/
theorem ids_unaliased_first : ∃ s₂, RunIf (step .std) (NoWrap .std) init.added.added s₂ ∧
    (s₂.live 0 = false ∧ s₂.live 1 = true ∧ s₂.live 2 = true) ∧ Unaliased .std s₂ ∧
      (∀ q, s₂.ipcObtainObjectCheck .std (init.added.perm 0).id = .ok q → q = 0) ∧
      ∀ q, s₂.ipcObtainObjectCheck .std (init.added.added.perm 1).id = .ok q → q = 1 := by
  have hadd (s : IpcIds) : s.step .std (.addid IPC_PRIVATE 9 ⟨false, 0⟩) = some s.added := rfl
  have hstay (s : IpcIds) (act : Act)
      (h : (s.step .std act).all (fun s' => s.seq ≤ s'.seq) = true) : NoWrap .std s act := by
    intro s' hs
    rw [hs] at h
    simpa using h
  have hone : Run (step .std) init init.added := .single ⟨_, trivial, hadd init⟩
  have htwo : RunIf (step .std) (NoWrap .std) init.added init.added.added :=
    .single ⟨_, hstay _ (.addid IPC_PRIVATE 9 ⟨false, 0⟩) (by decide), hadd init.added⟩
  obtain ⟨s₂, hrun, hp⟩ := execIf_check (step .std) _ hstay init.added.added
    [.rmid 0, .addid IPC_PRIVATE 9 ⟨false, 0⟩]
    (fun s => !s.live 0 && s.live 1 && s.live 2) (by decide)
  simp only [Bool.and_eq_true, Bool.not_eq_true'] at hp
  obtain ⟨⟨h0, h1⟩, h2⟩ := hp
  refine ⟨s₂, hrun, ⟨h0, h1, h2⟩, ?_, fun q hq => ?_, fun q hq => ?_⟩
  · exact (ids_unaliased .std).1 _ (hone.trans (RunIf.run (htwo.trans hrun)))
  · exact (ids_unaliased .std).2 _ _ 0 _ s₂ q .refl (hadd init) (by decide) (by decide)
      (htwo.trans hrun) hq
  · exact (ids_unaliased .std).2 _ _ 1 _ s₂ q hone (hadd init.added) (by decide) (by decide) hrun hq

end IpcIds

end DroidLkm.Ids
