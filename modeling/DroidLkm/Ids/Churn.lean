/-
  Identifiers of IPC objects — an identifier comes back.

  With the usual limits, an object may get the last sequence number, the
  sequence number may wrap while the object is there, and once the object has
  been removed its identifier is given out again without another wrap.

  * `Idle`: an empty table after `pos + 1` additions, of which each round of 64
    takes the next sequence number;
  * `id_reissued`: the run.
-/
import DroidLkm.Ids.Aliasing

namespace DroidLkm.Ids

open Machine

namespace IpcIds

open Limits

variable {s s' : IpcIds} {p new pos m idx lo hi : ℕ}

/-- An object with a private key is added. -/
def add (s : IpcIds) : IpcIds := ((s.newPerm IPC_PRIVATE).ipcAddid std s.fresh 2 ⟨false, 0⟩).1

theorem step_add (s : IpcIds) : s.step std (.addid IPC_PRIVATE 2 ⟨false, 0⟩) = some s.add := rfl

theorem firstFree_self (hlt : lo < hi) {r : Idr ℕ} (hlo : r.find lo = none) :
    r.firstFree lo hi = some lo := by
  obtain ⟨n, hn⟩ : ∃ n, hi - lo = n + 1 := ⟨hi - lo - 1, by omega⟩
  rw [Idr.firstFree, hn, List.range'_succ, List.find?_cons_of_pos]
  rw [hlo]
  rfl

theorem firstFree_none (hle : hi ≤ lo) (r : Idr ℕ) : r.firstFree lo hi = none := by
  rw [Idr.firstFree, Nat.sub_eq_zero_of_le hle]
  rfl

/-- With hardly an object in the table, the window has 64 indices. -/
theorem add_inserted (h0 : 0 ≤ s.inUse) (h1 : s.inUse ≤ 1)
    (hfree : (s.idr.firstFree s.idr.next 64).or (s.idr.firstFree 0 64) = some idx) :
    Inserted std (s.newPerm IPC_PRIVATE) s.add s.fresh idx := by
  have hwindow : (min (max (Int.tdiv (s.inUse * 3) 2) (std.minCycle : ℤ)) (std.mni : ℤ)).toNat
      = 64 := by
    have hd : Int.tdiv (s.inUse * 3) 2 ≤ 64 := by
      rw [Int.tdiv_eq_ediv_of_nonneg (by omega)]
      omega
    have hc : (std.minCycle : ℤ) = 64 := rfl
    have hm : (std.mni : ℤ) = 32768 := rfl
    rw [hc, hm, max_eq_right hd]
    rfl
  have halloc : s.idr.allocCyclic s.fresh 64 =
      some (idx, ⟨s.idr.slots.insert idx s.fresh, idx + 1⟩) := by
    rw [Idr.allocCyclic, hfree]
  have hok : ((s.newPerm IPC_PRIVATE).ipcAddid std s.fresh 2 ⟨false, 0⟩).2 = .ok idx := by
    have hm : ¬((std.mni : ℤ) < 2) := by decide
    have hin : ¬((2 : ℤ) ≤ (s.newPerm IPC_PRIVATE).inUse) := by
      show ¬((2 : ℤ) ≤ s.inUse)
      omega
    obtain ⟨s₁, hidr⟩ : ∃ s₁, ((s.newPerm IPC_PRIVATE).setDeleted s.fresh false).ipcIdrAlloc std
        s.fresh false = (s₁, .ok idx) := by
      unfold ipcIdrAlloc
      have halloc' : ((s.newPerm IPC_PRIVATE).setDeleted s.fresh false).idr.allocCyclic s.fresh
          (min (max (Int.tdiv (((s.newPerm IPC_PRIVATE).setDeleted s.fresh false).inUse * 3) 2)
            (std.minCycle : ℤ)) (std.mni : ℤ)).toNat = some (idx, _) :=
        (congrArg (s.idr.allocCyclic s.fresh) hwindow).trans halloc
      dsimp only
      rw [if_neg (by decide), halloc']
      exact ⟨_, rfl⟩
    unfold ipcAddid
    dsimp only
    rw [if_neg hm, if_neg hin, hidr]
    dsimp only
    rw [if_neg (by omega)]
  rcases ipcAddid_cases std (s.newPerm IPC_PRIVATE) s.fresh 2 ⟨false, 0⟩ with
    ⟨err, herr, -⟩ | ⟨i, hi, hins⟩
  · rw [hok] at herr
    cases herr
  · rw [hok] at hi
    cases hi
    exact hins

/-- What an addition with a private key does. -/
structure Adds (s : IpcIds) (idx : ℕ) : Prop where
  stamped : Stamped std s.add
  idr : s.add.idr = ⟨s.idr.slots.insert idx s.fresh, idx + 1⟩
  inUse : s.add.inUse = s.inUse + 1
  seq : s.add.seq = s.nextSeq std idx
  lastIdx : s.add.lastIdx = idx
  fresh : s.add.fresh = s.fresh + 1
  given : (s.add.perm s.fresh).seq = s.nextSeq std idx
  perm : ∀ p, p ≠ s.fresh → s.add.perm p = s.perm p

theorem add_spec (h : Stamped std s) (h0 : 0 ≤ s.inUse) (h1 : s.inUse ≤ 1)
    (hfree : (s.idr.firstFree s.idr.next 64).or (s.idr.firstFree 0 64) = some idx) :
    Adds s idx := by
  have hi := add_inserted h0 h1 hfree
  refine ⟨step_stamped h (step_add s), hi.idr, hi.inUse, hi.stamp.1, hi.stamp.2, hi.fresh, ?_, ?_⟩
  · rw [hi.perm, Function.update_self]
    rfl
  · intro p hp
    rw [hi.perm, Function.update_of_ne hp]
    exact Function.update_of_ne hp _ _

theorem Adds.find (h : Adds s idx) : s.add.idr.find idx = some s.fresh := by
  rw [h.idr, Idr.find_insert, if_pos rfl]

/-- What a removal does. -/
theorem rm_spec (h : Stamped std s) (hp : s.idr.find idx = some p) :
    s.step std (.rmid p) = some (s.ipcRmid std p) ∧ Stamped std (s.ipcRmid std p) ∧
      Removed s (s.ipcRmid std p) p idx := by
  obtain ⟨-, hlt, -, hid⟩ := h.found _ _ hp
  have hstep : s.step std (.rmid p) = some (s.ipcRmid std p) := by
    simp only [step, live_iff.2 ⟨_, hp⟩, if_true]
  refine ⟨hstep, step_stamped h hstep, ipcRmid_removed ?_⟩
  rw [hid]
  exact toIdx_mkId hlt

theorem noWrap_of_step {act : Act} (hs : s.step std act = some s') (hle : s.seq ≤ s'.seq) :
    NoWrap std s act := by
  intro s₁ hs₁
  rw [hs] at hs₁
  obtain rfl := Option.some.inj hs₁
  exact hle

/-- An empty table after `pos + 1` additions. -/
structure Idle (s : IpcIds) (pos : ℕ) : Prop where
  stamped : Stamped std s
  slots : s.idr.slots = ∅
  next : s.idr.next = pos % 64 + 1
  inUse : s.inUse = 0
  seq : s.seq = pos / 64
  lastIdx : s.lastIdx = (pos % 64 : ℕ)

theorem Idle.find (h : Idle s pos) (i : ℕ) : s.idr.find i = none := by
  rw [Idr.find, h.slots]
  exact AList.lookup_empty i

/-- The index that comes next. -/
theorem Idle.firstFree (h : Idle s pos) :
    (s.idr.firstFree s.idr.next 64).or (s.idr.firstFree 0 64) = some ((pos + 1) % 64) := by
  by_cases hn : pos % 64 + 1 < 64
  · rw [h.next, firstFree_self hn (h.find _), Option.some_or]
    congr 1
    omega
  · rw [h.next, firstFree_none (by omega), Option.none_or,
      firstFree_self (by omega) (h.find 0)]
    congr 1
    omega

theorem Idle.nextSeq (h : Idle s pos) (hs : (pos + 1) / 64 < 65535) :
    s.nextSeq std ((pos + 1) % 64) = (pos + 1) / 64 := by
  have hmax : std.seqMax = 65535 := by decide
  unfold IpcIds.nextSeq
  rw [h.lastIdx, h.seq, hmax]
  split_ifs with h1 h2 <;> omega

/-- An object is added and removed. -/
theorem Idle.churn (h : Idle s pos) (hs : (pos + 1) / 64 < 65535) :
    ∃ s', RunIf (step std) (NoWrap std) s s' ∧ Idle s' (pos + 1) := by
  have ha := add_spec h.stamped (by rw [h.inUse]) (by rw [h.inUse]; exact Int.one_nonneg)
    h.firstFree
  obtain ⟨hstep, hst, hr⟩ := rm_spec ha.stamped ha.find
  have hseq : s.add.seq = (pos + 1) / 64 := ha.seq.trans (h.nextSeq hs)
  refine ⟨s.add.ipcRmid std s.fresh, ?_, hst, ?_, ?_, ?_, ?_, ?_⟩
  · refine (Relation.ReflTransGen.single ⟨_, ?_, step_add s⟩).tail ⟨_, ?_, hstep⟩
    · exact noWrap_of_step hstep (le_of_eq hr.seq.symm)
    · refine noWrap_of_step (step_add s) ?_
      rw [hseq, h.seq]
      omega
  · rw [hr.idr, ha.idr]
    refine (slots_insert_erase ?_).trans h.slots
    exact Idr.find_eq_none.1 (h.find _)
  · rw [hr.idr, ha.idr]
    rfl
  · rw [hr.inUse, ha.inUse, h.inUse]
    rfl
  · rw [hr.seq, hseq]
  · rw [hr.lastIdx, ha.lastIdx]

/-- Any number of objects, as long as the sequence number does not wrap. -/
theorem Idle.reach (h : Idle s pos) : ∀ n, (pos + n) / 64 < 65535 →
    ∃ s', RunIf (step std) (NoWrap std) s s' ∧ Idle s' (pos + n)
  | 0, _ => ⟨s, Relation.ReflTransGen.refl, h⟩
  | n + 1, hn => by
    obtain ⟨s₁, hr₁, h₁⟩ := h.reach n (by omega)
    obtain ⟨s₂, hr₂, h₂⟩ := h₁.churn (by omega)
    exact ⟨s₂, hr₁.trans hr₂, h₂⟩

/-- The first object, in an empty table. -/
theorem idle_init : ∃ s, Run (step std) init s ∧ Idle s 0 := by
  have hst : Stamped std init := run_stamped Relation.ReflTransGen.refl
  have ha : Adds init 0 := add_spec hst (Int.le_refl _) Int.one_nonneg rfl
  obtain ⟨hstep, hst', hr⟩ := rm_spec ha.stamped ha.find
  refine ⟨init.add.ipcRmid std init.fresh, ?_, hst', ?_, ?_, ?_, ?_, ?_⟩
  · exact (Relation.ReflTransGen.single ⟨_, trivial, step_add init⟩).tail ⟨_, trivial, hstep⟩
  · rw [hr.idr, ha.idr]
    exact slots_insert_erase (AList.notMem_empty 0)
  · rw [hr.idr, ha.idr]
    rfl
  · rw [hr.inUse, ha.inUse]
    rfl
  · rw [hr.seq, ha.seq]
    rfl
  · rw [hr.lastIdx, ha.lastIdx]

/-- The last addition before index 0 of the next round. -/
theorem Idle.add_last {n : ℕ} (h : Idle s (n * 64 + 62)) (hn : n < 65535) :
    Adds s 63 ∧ (s.add.perm s.fresh).seq = n ∧ s.add.seq = n := by
  have hf := h.firstFree
  have hs := h.nextSeq (by omega)
  rw [show (n * 64 + 62 + 1) % 64 = 63 by omega] at hf hs
  rw [show (n * 64 + 62 + 1) / 64 = n by omega] at hs
  have ha := add_spec h.stamped (by rw [h.inUse]) (by rw [h.inUse]; exact Int.one_nonneg) hf
  exact ⟨ha, ha.given.trans hs, ha.seq.trans hs⟩

/-- **An identifier comes back without a wrap.**  An object gets index 63 with
    sequence number 65534, the next one makes the number wrap; both are
    removed, and before the number wraps again the first one's identifier is
    that of a later object. -/
theorem id_reissued : ¬ ∀ s p s₁ s₂ q, Run (step std) init s →
    s.step std (.rmid p) = some s₁ → RunIf (step std) (NoWrap std) s₁ s₂ →
    s₂.ipcObtainObjectCheck std (s.perm p).id ≠ .ok q := by
  intro hall
  obtain ⟨s₀, hrun₀, h₀⟩ := idle_init
  obtain ⟨s, hrun, h⟩ := h₀.reach (65534 * 64 + 62) (by decide)
  rw [Nat.zero_add] at h
  -- the object, and the one with which the number wraps
  obtain ⟨ha, hseq, hnum⟩ := h.add_last (by decide)
  have hfind : ∀ i, s.add.idr.find i = if i = 63 then some s.fresh else none := by
    intro i
    rw [ha.idr, Idr.find_insert, h.find]
  have hb : Adds s.add 0 := by
    refine add_spec ha.stamped (by rw [ha.inUse, h.inUse]; decide)
      (by rw [ha.inUse, h.inUse]; decide) ?_
    have hnext : s.add.idr.next = 64 := by rw [ha.idr]
    rw [hnext, firstFree_none (Nat.le_refl _), Option.none_or,
      firstFree_self (by decide) (by rw [hfind]; rfl)]
  -- both are removed
  obtain ⟨hstep₁, hst₁, hr₁⟩ := rm_spec hb.stamped hb.find
  have hslots₁ : (s.add.add.ipcRmid std s.add.fresh).idr.slots = s.add.idr.slots := by
    rw [hr₁.idr, hb.idr]
    exact slots_insert_erase (Idr.find_eq_none.1 (by rw [hfind]; rfl))
  have hfind₁ : (s.add.add.ipcRmid std s.add.fresh).idr.find 63 = some s.fresh := by
    rw [Idr.find, hslots₁]
    exact (hfind 63).trans (if_pos rfl)
  obtain ⟨hstep₂, hst₂, hr₂⟩ := rm_spec hst₁ hfind₁
  have hidle : Idle ((s.add.add.ipcRmid std s.add.fresh).ipcRmid std s.fresh) 0 := by
    refine ⟨hst₂, ?_, ?_, ?_, ?_, ?_⟩
    · rw [hr₂.idr]
      show AList.erase 63 (s.add.add.ipcRmid std s.add.fresh).idr.slots = ∅
      rw [hslots₁, ha.idr, h.slots]
      exact slots_insert_erase (AList.notMem_empty 63)
    · rw [hr₂.idr, hr₁.idr, hb.idr]
      rfl
    · rw [hr₂.inUse, hr₁.inUse, hb.inUse, ha.inUse, h.inUse]
      rfl
    · have hmax : std.seqMax = 65535 := by decide
      rw [hr₂.seq, hr₁.seq, hb.seq, IpcIds.nextSeq, hnum, ha.lastIdx, hmax]
      rfl
    · rw [hr₂.lastIdx, hr₁.lastIdx, hb.lastIdx]
  -- and the number comes round to where it was
  obtain ⟨t, hrun', h'⟩ := hidle.reach (65534 * 64 + 62) (by decide)
  rw [Nat.zero_add] at h'
  obtain ⟨hc, hseq', hnum'⟩ := h'.add_last (by decide)
  have hperm : ((s.add.add.ipcRmid std s.add.fresh).perm s.fresh).id = std.mkId 65534 63 := by
    have hne : s.fresh ≠ s.add.fresh := by rw [ha.fresh]; omega
    rw [hr₁.perm, Function.update_of_ne hne, hb.perm _ hne, ← hseq]
    exact (ha.stamped.found _ _ ha.find).2.2.2
  refine hall (s.add.add.ipcRmid std s.add.fresh) s.fresh _ t.add t.fresh ?_ hstep₂ ?_ ?_
  · exact (((hrun₀.trans hrun.run).tail ⟨_, trivial, step_add s⟩).tail
      ⟨_, trivial, step_add s.add⟩).tail ⟨_, trivial, hstep₁⟩
  · refine hrun'.tail ⟨_, noWrap_of_step (step_add t) ?_, step_add t⟩
    rw [hnum', h'.seq]
  · rw [hperm, obtain_eq (by decide)]
    exact ⟨hc.find, hseq'⟩

end IpcIds

end DroidLkm.Ids
