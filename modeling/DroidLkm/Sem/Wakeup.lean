/-
  SysV semaphores — what the update functions leave in the queues.

  * `Nonzero`: some semaphore of the vector is not zero, which is why a vector
    of wait-for-zero operations sleeps; `Stuck`: the operation would have to
    wait;
  * `doSmartWakeupZero_spec`: after the zeros have been looked at, the
    wait-for-zero operations have a reason to sleep again;
  * `updateScan_spec`, `updateLoop_spec`, `updateQueue_spec`: one scan of an
    altering queue, its restarts (fuel suffices), and the whole function: the
    queue scanned holds stuck operations only;
  * `doSmartUpdate_spec`: so does every other queue.
-/
import DroidLkm.Sem.Served

namespace DroidLkm.Sem

variable {c c' : Ctx} {m m' : SemState} {k : Head} {q : SemQueue} {i : ℕ}

/-! ## Reasons to sleep -/

/-- Some semaphore of the vector is not zero. -/
def Nonzero (m : SemState) (q : SemQueue) : Prop := ∃ s ∈ q.sops, m.semval s.semNum ≠ 0

/-- The operation would have to wait. -/
def Stuck (m : SemState) (q : SemQueue) : Prop := 0 < (performAtomicSemop m q).result

instance : Decidable (Stuck m q) := inferInstanceAs (Decidable (0 < _))

/-- A head of wait-for-zero operations. -/
def Head.IsConst : Head → Prop
  | .const | .semConst _ => True
  | _ => False

/-- The wait-for-zero operations all have a semaphore to wait for. -/
def ConstOk (c : Ctx) : Prop := ∀ k, k.IsConst → ∀ q ∈ c.pending k, Nonzero c.mem q

theorem Fits.zero (hf : Fits k q) (hk : k.IsConst) : ∀ s ∈ q.sops, s.semOp = 0 := by
  cases k with
  | const => exact hf.1
  | semConst i => obtain ⟨s, hs, -, h0, -⟩ := hf; simpa [hs] using h0
  | alter => exact hk.elim
  | semAlter i => exact hk.elim

/-- What a queued wait-for-zero vector does when it is tried: nothing, and it
    is served exactly when it has no reason to sleep or is told not to wait. -/
theorem Wf.zero (hw : Wf c) (hq : q ∈ c.pending k) (hk : k.IsConst) :
    (performAtomicSemop c.mem q).state = c.mem ∧
    (¬Nonzero c.mem q → (performAtomicSemop c.mem q).result = 0) ∧
    (Nonzero c.mem q → ∃ s ∈ q.sops, (performAtomicSemop c.mem q).result = blockCode s) := by
  have h := zero_attempt q.undo hw.ranges ((hw.entry k q hq).2.zero hk)
  rw [hw.perform hq]
  refine ⟨h.1, fun hn => h.2.1 fun s hs => ?_, fun hn => ?_⟩
  · by_contra h0; exact hn ⟨s, hs, h0⟩
  · obtain ⟨s, hs, -, hr⟩ := h.2.2 hn
    exact ⟨s, hs, hr⟩

theorem Wf.stuck_nonzero (hw : Wf c) (hq : q ∈ c.pending k) (hk : k.IsConst)
    (h : Stuck c.mem q) : Nonzero c.mem q := by
  by_contra hn
  exact absurd h (by rw [Stuck, (hw.zero hq hk).2.1 hn]; decide)

/-- In the queue of semaphore `i`, a decrement is stuck exactly when the value
    is too small. -/
theorem Wf.stuck_semAlter (hw : Wf c) (hq : q ∈ c.pending (.semAlter i)) (m : SemState) :
    Stuck m q ↔ m.semval i + opSum q.sops i < 0 := by
  obtain ⟨s, hs, rfl, hop, hnw⟩ := (hw.entry _ q hq).2
  rw [Stuck, hw.perform hq, hs, decrement_blocked hop hnw]
  simp [opSum]

/-! ## `wake_const_ops` -/

/-- Which queue a scan has left, and how. -/
structure ScannedZero (c : Ctx) (k : Head) (c' : Ctx) : Prop where
  served : ∃ L, Served c L c'
  mem : c'.mem = c.mem
  self : c'.pending k = (c.pending k).filter fun q => Stuck c.mem q
  other : ∀ j, j ≠ k → c'.pending j = c.pending j

theorem wakeConstLoop_spec (pre rest : List SemQueue) (hk : k.IsConst) (hw : Wf c)
    (hp : c.pending k = pre ++ rest) :
    (∃ L, Served c L (wakeConstLoop k pre rest c)) ∧ (wakeConstLoop k pre rest c).mem = c.mem ∧
    (wakeConstLoop k pre rest c).pending k = pre ++ rest.filter (fun q => Stuck c.mem q) ∧
    ∀ j, j ≠ k → (wakeConstLoop k pre rest c).pending j = c.pending j := by
  induction rest generalizing pre c with
  | nil => exact ⟨⟨[], Served.refl⟩, rfl, hp, fun _ _ => rfl⟩
  | cons q rest ih =>
    have hq : q ∈ c.pending k := by simp [hp]
    have hset : c.setMem (performAtomicSemop c.mem q).state = c := by
      rw [(hw.zero hq hk).1]; rfl
    rw [wakeConstLoop]
    simp only [hset]
    by_cases hst : Stuck c.mem q
    · rw [if_pos (show 0 < (performAtomicSemop c.mem q).result from hst),
        List.filter_cons_of_pos (by simpa using hst)]
      simpa using ih (pre ++ [q]) hw (by simp [hp])
    · -- `q` is served; the scan goes on behind `pre` in the shortened queue
      rw [if_neg (show ¬0 < (performAtomicSemop c.mem q).result from hst),
        List.filter_cons_of_neg (by simpa using hst)]
      set r := (performAtomicSemop c.mem q).result with hr
      have htaken : c.unlinkQueue k (pre ++ rest) q = taken c k pre rest q := by
        rw [taken, ← hw.perform hq, hset]
      have hserved : Served c [(q, r)]
          ((c.unlinkQueue k (pre ++ rest) q).wakeUpSemQueuePrepare q r) := by
        rw [htaken]
        exact Served.take (hw.mem_heads hq) hp (by rw [hr, hw.perform hq]) (not_lt.1 hst) Served.refl
      obtain ⟨⟨L, hL⟩, hm, hself, hother⟩ := ih pre (hserved.wf hw)
        (by simp [Ctx.wakeUpSemQueuePrepare, Ctx.unlinkQueue])
      refine ⟨⟨_, hserved.trans hL⟩, hm, hself, fun j hj => (hother j hj).trans ?_⟩
      simp [Ctx.wakeUpSemQueuePrepare, Ctx.unlinkQueue, hj]

theorem isConst_constHead (semnum : Option ℕ) : (constHead semnum).IsConst := by
  cases semnum <;> trivial

theorem wakeConstOps_spec (hw : Wf c) (semnum : Option ℕ) :
    ScannedZero c (constHead semnum) (wakeConstOps c semnum) := by
  obtain ⟨h1, h2, h3, h4⟩ := wakeConstLoop_spec [] _ (isConst_constHead semnum) hw rfl
  exact ⟨h1, h2, h3, h4⟩

/-! ## `do_smart_wakeup_zero` -/

/-- After some queues of wait-for-zero operations have been scanned. -/
structure ZeroScans (c c' : Ctx) : Prop where
  served : ∃ L, Served c L c'
  mem : c'.mem = c.mem
  const : ∀ k, c'.pending k = c.pending k ∨
    c'.pending k = (c.pending k).filter fun q => Stuck c.mem q
  alter : ∀ k, ¬k.IsConst → c'.pending k = c.pending k

theorem ZeroScans.refl : ZeroScans c c :=
  ⟨⟨[], Served.refl⟩, rfl, fun _ => .inl rfl, fun _ _ => rfl⟩

/-- One scan more. -/
theorem ZeroScans.scan {c'' : Ctx} (h : ZeroScans c c') (hk : k.IsConst)
    (h' : ScannedZero c' k c'') : ZeroScans c c'' ∧
      c''.pending k = (c.pending k).filter (fun q => Stuck c.mem q) := by
  obtain ⟨L, hL⟩ := h.served
  obtain ⟨L', hL'⟩ := h'.served
  have hself : c''.pending k = (c.pending k).filter fun q => Stuck c.mem q := by
    rw [h'.self, h.mem]
    rcases h.const k with hc | hc <;> rw [hc]
    simp
  refine ⟨⟨⟨_, hL.trans hL'⟩, h'.mem.trans h.mem, fun j => ?_, fun j hj => ?_⟩, hself⟩
  · by_cases hjk : j = k
    · subst hjk; exact .inr hself
    · rw [h'.other j hjk]; exact h.const j
  · rw [h'.other j (fun he => hj (he ▸ hk)), h.alter j hj]

/-- Once a queue has been scanned it stays scanned. -/
theorem ZeroScans.scan_keeps {c'' : Ctx} {j : Head} (h : ZeroScans c c') (hk : k.IsConst)
    (h' : ScannedZero c' k c'')
    (hj : c'.pending j = (c.pending j).filter fun q => Stuck c.mem q) :
    c''.pending j = (c.pending j).filter fun q => Stuck c.mem q := by
  by_cases hjk : j = k
  · subst hjk; exact (h.scan hk h').2
  · rw [h'.other j hjk, hj]

theorem wakeZeros_spec (hw : Wf c) (nums : List ℕ) (b : Bool) (h : ZeroScans c c') :
    let res := nums.foldl (fun (c, gotZero) num =>
      if c.semval num = 0 then (wakeConstOps c (some num), true) else (c, gotZero)) (c', b)
    ZeroScans c res.1 ∧ (res.2 = false → b = false ∧ ∀ i ∈ nums, c.semval i ≠ 0) ∧
    (∀ i ∈ nums, c.semval i = 0 →
      res.1.pending (.semConst i) = (c.pending (.semConst i)).filter fun q => Stuck c.mem q) ∧
    ∀ j, c'.pending j = ((c.pending j).filter fun q => Stuck c.mem q) →
      res.1.pending j = (c.pending j).filter fun q => Stuck c.mem q := by
  induction nums generalizing c' b with
  | nil => exact ⟨h, fun hb => ⟨hb, by simp⟩, by simp, fun _ hj => hj⟩
  | cons num nums ih =>
    have hval : c'.semval num = c.semval num := congrArg (fun m => m.semval num) h.mem
    obtain ⟨L, hL⟩ := h.served
    simp only [List.foldl_cons, hval]
    by_cases h0 : c.semval num = 0
    · have hscan := wakeConstOps_spec (hL.wf hw) (some num)
      obtain ⟨h1, h2, h3, h4⟩ := ih true (h.scan (isConst_constHead _) hscan).1
      simp only [if_pos h0]
      refine ⟨h1, fun hb => absurd (h2 hb).1 (by simp), fun i hi hi0 => ?_, fun j hj => ?_⟩
      · rcases List.mem_cons.1 hi with rfl | hi
        · exact h4 _ (h.scan (isConst_constHead (some i)) hscan).2
        · exact h3 i hi hi0
      · exact h4 j (h.scan_keeps (isConst_constHead _) hscan hj)
    · obtain ⟨h1, h2, h3, h4⟩ := ih b h
      simp only [if_neg h0]
      refine ⟨h1, fun hb => ⟨(h2 hb).1, ?_⟩, fun i hi hi0 => ?_, h4⟩
      · simpa using ⟨h0, (h2 hb).2⟩
      · rcases List.mem_cons.1 hi with rfl | hi
        · exact absurd hi0 h0
        · exact h3 i hi hi0

/-- The semaphores `do_smart_wakeup_zero` looks at. -/
def touched (n : ℕ) : Option (List Sembuf) → List ℕ
  | some sops => sops.map Sembuf.semNum
  | none => List.range n

/-- **Wait-for-zero operations.**  If each of them has a reason to sleep or a
    semaphore among those looked at is zero, then afterwards each has a reason
    to sleep. -/
theorem doSmartWakeupZero_spec (hw : Wf c) (sops : Option (List Sembuf))
    (h : ∀ k, k.IsConst → ∀ q ∈ c.pending k, Nonzero c.mem q ∨
      ∃ s ∈ q.sops, s.semNum ∈ touched c.semNsems sops ∧ c.semval s.semNum = 0) :
    ZeroScans c (doSmartWakeupZero c sops) ∧ ConstOk (doSmartWakeupZero c sops) := by
  obtain ⟨h1, h2, h3, -⟩ := wakeZeros_spec hw (touched c.semNsems sops) false ZeroScans.refl
  -- a queue that was scanned holds stuck operations only
  have hstuck : ∀ k, k.IsConst → ∀ q ∈ (c.pending k).filter (fun q => Stuck c.mem q),
      Nonzero c.mem q := by
    intro k hk q hq
    rw [List.mem_filter] at hq
    exact hw.stuck_nonzero hq.1 hk (by simpa using hq.2)
  have hunfold : doSmartWakeupZero c sops =
      if (wakeZeros c (touched c.semNsems sops)).2
      then wakeConstOps (wakeZeros c (touched c.semNsems sops)).1 none
      else (wakeZeros c (touched c.semNsems sops)).1 := by
    cases sops <;> rfl
  change ZeroScans c (wakeZeros c (touched c.semNsems sops)).1 at h1
  change (wakeZeros c (touched c.semNsems sops)).2 = false → _ at h2
  change ∀ i ∈ _, _ → (wakeZeros c (touched c.semNsems sops)).1.pending (.semConst i) = _ at h3
  rw [hunfold]
  generalize wakeZeros c (touched c.semNsems sops) = w at h1 h2 h3 ⊢
  obtain ⟨L, hL⟩ := h1.served
  have hscan := wakeConstOps_spec (hL.wf hw) none
  -- the queues of the semaphores
  have hsem : ∀ i, ∀ q ∈ w.1.pending (.semConst i), Nonzero c.mem q := by
    intro i q hq
    rcases h1.const (.semConst i) with hc | hc
    · have hq0 := hc ▸ hq
      rcases h (.semConst i) trivial q hq0 with hn | ⟨s, hs, ht, h0⟩
      · exact hn
      · -- the only semaphore of `q` was zero, so its queue was scanned
        obtain ⟨s', hs', rfl, -, -⟩ := (hw.entry _ q hq0).2
        obtain rfl : s = s' := by simpa [hs'] using hs
        exact hstuck (.semConst s.semNum) trivial q (h3 _ ht h0 ▸ hq)
    · exact hstuck (.semConst i) trivial q (hc ▸ hq)
  by_cases hgot : w.2
  · obtain ⟨hz, hself⟩ := h1.scan (isConst_constHead none) hscan
    rw [if_pos hgot]
    refine ⟨hz, fun k hk q hq => ?_⟩
    rw [hz.mem]
    cases k with
    | const => exact hstuck .const trivial q (hself ▸ hq)
    | semConst i => exact hsem i q (hscan.other (.semConst i) (by simp [constHead]) ▸ hq)
    | alter => exact hk.elim
    | semAlter i => exact hk.elim
  · rw [if_neg hgot]
    obtain ⟨-, hnz⟩ := h2 (by simpa using hgot)
    refine ⟨h1, fun k hk q hq => ?_⟩
    rw [h1.mem]
    cases k with
    | const =>
      rcases h1.const .const with hc | hc
      · rcases h .const trivial q (hc ▸ hq) with hn | ⟨s, -, ht, h0⟩
        · exact hn
        · exact absurd h0 (hnz _ ht)
      · exact hstuck .const trivial q (hc ▸ hq)
    | semConst i => exact hsem i q hq
    | alter => exact hk.elim
    | semAlter i => exact hk.elim

/-! ## `update_queue` -/

/-- After a scan of an altering queue, or a part of one. -/
structure AlterScan (c : Ctx) (semnum : Option ℕ) (c' : Ctx) : Prop where
  served : ∃ L, Served c L c'
  const : ConstOk c'
  /-- in the queue of one semaphore there are only decrements of it -/
  val : ∀ i, semnum = some i → (∀ j, j ≠ i → c'.semval j = c.semval j) ∧ c'.semval i ≤ c.semval i
  alter : ∀ j, ¬j.IsConst → j ≠ alterHead semnum → c'.pending j = c.pending j

section
variable {semnum : Option ℕ} {pre rest : List SemQueue}

theorem AlterScan.refl (h : ConstOk c) : AlterScan c semnum c :=
  ⟨⟨[], Served.refl⟩, h, fun _ _ => ⟨fun _ _ => rfl, le_rfl⟩, fun _ _ _ => rfl⟩

theorem AlterScan.trans {c'' : Ctx} (h : AlterScan c semnum c') (h' : AlterScan c' semnum c'') :
    AlterScan c semnum c'' := by
  obtain ⟨L, hL⟩ := h.served
  obtain ⟨L', hL'⟩ := h'.served
  refine ⟨⟨_, hL.trans hL'⟩, h'.const, fun i hi => ⟨fun j hj => ?_, ?_⟩, fun j hj hne => ?_⟩
  · rw [(h'.val i hi).1 j hj, (h.val i hi).1 j hj]
  · exact (h'.val i hi).2.trans (h.val i hi).2
  · rw [h'.alter j hj hne, h.alter j hj hne]

theorem not_isConst_alterHead : ¬(alterHead semnum).IsConst := by
  cases semnum <;> exact fun h => h

/-- A vector that has completed leaves each wait-for-zero operation a reason to
    sleep, or has made one of its semaphores zero. -/
theorem nonzero_or_touched {sops : List Sembuf}
    (hm : ∀ i, (∀ s ∈ sops, s.semNum ≠ i) → m'.semval i = m.semval i) (h : Nonzero m q) :
    Nonzero m' q ∨ ∃ s ∈ q.sops, s.semNum ∈ sops.map Sembuf.semNum ∧ m'.semval s.semNum = 0 := by
  obtain ⟨s, hs, hne⟩ := h
  by_cases h0 : m'.semval s.semNum = 0
  · refine .inr ⟨s, hs, ?_, h0⟩
    by_contra hmem
    refine hne (hm s.semNum (fun t ht he => hmem (List.mem_map.2 ⟨t, ht, he⟩)) ▸ h0)
  · exact .inl ⟨s, hs, h0⟩

theorem attempt_untouched {un : Option ℕ} {sops : List Sembuf}
    (h : (attempt un m sops).result = 0) :
    ∀ i, (∀ s ∈ sops, s.semNum ≠ i) → (attempt un m sops).state.semval i = m.semval i :=
  fun i hi => by rw [attempt_semval h, opSum_eq_zero hi, add_zero]

/-- A turn of the scan that fails an entry. -/
theorem turn_fail (hw : Wf c) (hc : ConstOk c)
    (hp : c.pending (alterHead semnum) = pre ++ q :: rest)
    (hr : (attempt q.undo c.mem q.sops).result < 0) :
    AlterScan c semnum ((taken c (alterHead semnum) pre rest q).wakeUpSemQueuePrepare q
      (attempt q.undo c.mem q.sops).result) := by
  have hmem : (taken c (alterHead semnum) pre rest q).mem = c.mem := attempt_fail hr.ne
  have hval : (taken c (alterHead semnum) pre rest q).semval = c.semval :=
    congrArg SemState.semval hmem
  refine ⟨⟨_, Served.take (hw.mem_heads (k := alterHead semnum) (q := q) (by simp [hp])) hp rfl
    hr.le Served.refl⟩, fun k hk x hx => ?_, fun i _ => ?_, fun j _ hne => ?_⟩
  · have hkne : k ≠ alterHead semnum := fun he => not_isConst_alterHead (he ▸ hk)
    have hx' : x ∈ c.pending k := by
      simpa [Ctx.wakeUpSemQueuePrepare, hkne] using hx
    exact hmem ▸ hc k hk x hx'
  · exact ⟨fun j _ => congrFun hval j, (congrFun hval i).le⟩
  · simp [Ctx.wakeUpSemQueuePrepare, hne]

/-- A turn of the scan that completes an entry, and then looks at the zeros. -/
theorem turn_ok (hw : Wf c) (hc : ConstOk c)
    (hp : c.pending (alterHead semnum) = pre ++ q :: rest)
    (hr : (attempt q.undo c.mem q.sops).result = 0) :
    let c₂ := doSmartWakeupZero (taken c (alterHead semnum) pre rest q) (some q.sops)
    AlterScan c semnum (c₂.wakeUpSemQueuePrepare q 0) ∧
      c₂.pending (alterHead semnum) = pre ++ rest := by
  have hq : q ∈ c.pending (alterHead semnum) := by simp [hp]
  have hk : alterHead semnum ∈ heads c.semNsems := hw.mem_heads hq
  have hw₁ : Wf (taken c (alterHead semnum) pre rest q) := by
    obtain ⟨h1, h2, h3, h4, h5⟩ := (Served.take hk hp hr le_rfl Served.refl).wf hw
    exact ⟨h1, h2, h3, h4, h5⟩
  obtain ⟨hz, hconst⟩ := doSmartWakeupZero_spec hw₁ (some q.sops) fun k hk x hx => by
    have hkne : k ≠ alterHead semnum := fun he => not_isConst_alterHead (he ▸ hk)
    refine nonzero_or_touched (attempt_untouched hr) (hc k hk x ?_)
    simpa [hkne] using hx
  obtain ⟨L, hL⟩ := hz.served
  have hval : ∀ j, (doSmartWakeupZero (taken c (alterHead semnum) pre rest q)
      (some q.sops)).semval j = c.semval j + opSum q.sops j := fun j =>
    (congrArg (fun m => m.semval j) hz.mem).trans (attempt_semval hr)
  refine ⟨⟨⟨_, Served.take hk hp hr le_rfl hL⟩, hconst, fun i hi => ?_, fun j hj hne => ?_⟩, ?_⟩
  · -- `q` is a single decrement of semaphore `i`
    subst hi
    obtain ⟨s, hs, rfl, hop, -⟩ := (hw.entry (.semAlter i) q hq).2
    refine ⟨fun j hj => (hval j).trans ?_, (hval s.semNum).trans_le ?_⟩
    · simp [hs, opSum, Ne.symm hj]
    · simp [hs, opSum, hop.le]
  · exact (hz.alter j hj).trans (by simp [hne])
  · exact (hz.alter _ not_isConst_alterHead).trans (by simp)

/-- **One scan.**  Either it restarts with a shorter queue, or all that is left
    in the queue is stuck. -/
theorem updateScan_spec (pre rest : List SemQueue) (hw : Wf c) (hc : ConstOk c)
    (hp : c.pending (alterHead semnum) = pre ++ rest) (hpre : ∀ x ∈ pre, Stuck c.mem x) :
    AlterScan c semnum (updateScan semnum pre rest c).2 ∧
    ((updateScan semnum pre rest c).1 = true →
      ((updateScan semnum pre rest c).2.pending (alterHead semnum)).length <
        (c.pending (alterHead semnum)).length) ∧
    ((updateScan semnum pre rest c).1 = false →
      ∀ x ∈ (updateScan semnum pre rest c).2.pending (alterHead semnum),
        Stuck (updateScan semnum pre rest c).2.mem x) := by
  induction rest generalizing pre c with
  | nil =>
    refine ⟨AlterScan.refl hc, fun h => by simp [updateScan] at h, fun _ x hx => hpre x ?_⟩
    simpa [updateScan, hp] using hx
  | cons q rest ih =>
    rw [updateScan]
    by_cases hstop : scanStops c semnum = true
    · -- the semaphore is zero: all its decrements are stuck
      rw [if_pos hstop]
      refine ⟨AlterScan.refl hc, fun h => by simp at h, fun _ x hx => ?_⟩
      cases semnum with
      | none => simp [scanStops] at hstop
      | some i =>
        have h0 : c.semval i = 0 := by simpa [scanStops] using hstop
        obtain ⟨s, hs, rfl, hop, -⟩ := (hw.entry (.semAlter i) x hx).2
        rw [hw.stuck_semAlter hx]
        simpa [Ctx.mem, h0, hs, opSum] using hop
    · rw [if_neg hstop]
      have hq : q ∈ c.pending (alterHead semnum) := by simp [hp]
      simp only [hw.perform hq]
      by_cases hst : Stuck c.mem q
      · -- `q` goes on sleeping
        have hres : 0 < (attempt q.undo c.mem q.sops).result := hw.perform hq c.mem ▸ hst
        have hset : c.setMem (attempt q.undo c.mem q.sops).state = c := by
          rw [attempt_fail hres.ne']; rfl
        rw [if_pos hres, hset]
        exact ih _ hw hc (by simp [hp]) fun x hx => by
          rcases List.mem_append.1 hx with hx | hx
          · exact hpre x hx
          · exact List.mem_singleton.1 hx ▸ hst
      · have hres : ¬0 < (attempt q.undo c.mem q.sops).result := fun h =>
          hst (by rw [Stuck, hw.perform hq]; exact h)
        rw [if_neg hres]
        by_cases h0 : (attempt q.undo c.mem q.sops).result = 0
        · rw [if_neg (by simpa using h0)]
          obtain ⟨hscan, hpend⟩ := turn_ok hw hc hp h0
          change AlterScan c semnum (Ctx.wakeUpSemQueuePrepare (doSmartWakeupZero
            (taken c (alterHead semnum) pre rest q) (some q.sops)) q 0) at hscan
          obtain ⟨L, hL⟩ := hscan.served
          change _ ∧ _ ∧ _
          rw [show (c.setMem (attempt q.undo c.mem q.sops).state).unlinkQueue
            (alterHead semnum) (pre ++ rest) q = taken c (alterHead semnum) pre rest q from rfl, h0]
          generalize hc₂ : doSmartWakeupZero (taken c (alterHead semnum) pre rest q)
            (some q.sops) = c₂ at hscan hpend hL ⊢
          by_cases hre : checkRestart c₂ q = true
          · rw [if_pos hre]
            refine ⟨hscan, fun _ => ?_, fun h => by simp at h⟩
            have : (c₂.wakeUpSemQueuePrepare q 0).pending (alterHead semnum) = pre ++ rest := hpend
            rw [this, hp]; simp
          · -- no restart: the queue is empty, or it belongs to one semaphore
            rw [if_neg hre]
            have hpre' : ∀ x ∈ pre, Stuck (c₂.wakeUpSemQueuePrepare q 0).mem x := by
              intro x hx
              cases semnum with
              | none =>
                simp only [checkRestart, alterHead] at hre hpend
                rw [hpend] at hre
                simp [List.ne_nil_of_mem hx] at hre
              | some i =>
                have hxc : x ∈ c.pending (.semAlter i) := by
                  have := hp; simp only [alterHead] at this; simp [this, hx]
                have hle : (c₂.wakeUpSemQueuePrepare q 0).semval i ≤ c.semval i :=
                  (hscan.val i rfl).2
                have hlt := (hw.stuck_semAlter hxc c.mem).1 (hpre x hx)
                rw [hw.stuck_semAlter hxc]
                simp only [Ctx.mem] at hlt ⊢
                omega
            obtain ⟨h1, h2, h3⟩ := ih pre (hL.wf hw) hscan.const hpend hpre'
            refine ⟨hscan.trans h1, fun h => (h2 h).trans ?_, h3⟩
            have : (c₂.wakeUpSemQueuePrepare q 0).pending (alterHead semnum) = pre ++ rest := hpend
            rw [this, hp]; simp
        · have hneg : (attempt q.undo c.mem q.sops).result < 0 := by omega
          have hscan := turn_fail hw hc hp hneg
          obtain ⟨L, hL⟩ := hscan.served
          rw [if_pos h0]
          obtain ⟨h1, h2, h3⟩ := ih pre (hL.wf hw) hscan.const
            (by simp [Ctx.wakeUpSemQueuePrepare]) fun x hx => by
              have : (Ctx.wakeUpSemQueuePrepare (taken c (alterHead semnum) pre rest q) q
                (attempt q.undo c.mem q.sops).result).mem = c.mem := attempt_fail h0
              rw [this]; exact hpre x hx
          refine ⟨hscan.trans h1, fun h => (h2 h).trans ?_, h3⟩
          simp [Ctx.wakeUpSemQueuePrepare, hp]

theorem updateLoop_spec {n : ℕ} (hw : Wf c) (hc : ConstOk c)
    (hn : (c.pending (alterHead semnum)).length < n) :
    AlterScan c semnum (updateLoop semnum n c) ∧
      ∀ x ∈ (updateLoop semnum n c).pending (alterHead semnum),
        Stuck (updateLoop semnum n c).mem x := by
  induction n generalizing c with
  | zero => omega
  | succ n ih =>
    obtain ⟨h1, h2, h3⟩ := updateScan_spec [] _ hw hc rfl (by simp)
    rw [updateLoop]
    rcases hs : updateScan semnum [] (c.pending (alterHead semnum)) c with ⟨again, c₁⟩
    rw [hs] at h1 h2 h3
    cases again with
    | true =>
      obtain ⟨L, hL⟩ := h1.served
      have hlt : (c₁.pending (alterHead semnum)).length < _ := h2 rfl
      obtain ⟨h4, h5⟩ := ih (c := c₁) (hL.wf hw) h1.const (by omega)
      exact ⟨h1.trans h4, h5⟩
    | false => exact ⟨h1, h3 rfl⟩

/-- **`update_queue`** terminates, and nothing it leaves in the queue could
    complete or fail. -/
theorem updateQueue_spec (semnum : Option ℕ) (hw : Wf c) (hc : ConstOk c) :
    AlterScan c semnum (updateQueue c semnum) ∧
      ∀ x ∈ (updateQueue c semnum).pending (alterHead semnum),
        Stuck (updateQueue c semnum).mem x :=
  updateLoop_spec hw hc (Nat.lt_succ_self _)

end

/-! ## `do_smart_update` -/

/-- Everything that is queued has a reason to sleep. -/
structure Asleep (c : Ctx) : Prop where
  const : ConstOk c
  alter : ∀ k, ¬k.IsConst → ∀ q ∈ c.pending k, Stuck c.mem q

/-- The loop of `do_smart_update` over the semaphores' own queues. -/
theorem updateEach_spec {nums : List ℕ} (hw : Wf c) (hc : ConstOk c)
    (he : c.pending .alter = [])
    (h : ∀ i, ∀ q ∈ c.pending (.semAlter i), Stuck c.mem q ∨ i ∈ nums) :
    let c' := nums.foldl (fun c i => updateQueue c (some i)) c
    (∃ L, Served c L c') ∧ Asleep c' := by
  induction nums generalizing c with
  | nil =>
    refine ⟨⟨[], Served.refl⟩, hc, fun k hk q hq => ?_⟩
    cases k with
    | alter => simp [he] at hq
    | semAlter i => simpa using h i q hq
    | const => exact absurd trivial hk
    | semConst i => exact absurd trivial hk
  | cons i₀ nums ih =>
    obtain ⟨hscan, hstuck⟩ := updateQueue_spec (some i₀) hw hc
    obtain ⟨L, hL⟩ := hscan.served
    obtain ⟨⟨L', hL'⟩, ha⟩ := ih (hL.wf hw) hscan.const
      ((hscan.alter .alter (fun h => h) (by simp [alterHead])).trans he) fun i q hq => by
        by_cases hi : i = i₀
        · subst hi; exact .inl (hstuck q hq)
        · -- another semaphore: neither its queue nor its value has changed
          rw [hscan.alter (.semAlter i) (fun h => h) (by simp [alterHead, hi])] at hq
          rcases h i q hq with hst | hmem
          · left
            rw [hw.stuck_semAlter hq] at hst ⊢
            exact (congrArg (· + opSum q.sops i) ((hscan.val i₀ rfl).1 i hi)).trans_lt hst
          · exact .inr ((List.mem_cons.1 hmem).resolve_left hi)
    exact ⟨⟨_, hL.trans hL'⟩, ha⟩

/-- The semaphores an operation vector may have increased. -/
def raised (n : ℕ) : Option (List Sembuf) → List ℕ
  | some sops => (sops.filter fun s => 0 < s.semOp).map Sembuf.semNum
  | none => List.range n

/-- **`do_smart_update`.**  If before it each wait-for-zero operation has a
    reason to sleep or a touched semaphore that is zero, and each operation in
    a semaphore's own queue is stuck or the semaphore may have been increased,
    then after it everything that is queued has a reason to sleep. -/
theorem doSmartUpdate_spec (hw : Wf c) (sops : Option (List Sembuf))
    (hconst : ∀ k, k.IsConst → ∀ q ∈ c.pending k, Nonzero c.mem q ∨
      ∃ s ∈ q.sops, s.semNum ∈ touched c.semNsems sops ∧ c.semval s.semNum = 0)
    (halter : ∀ i, ∀ q ∈ c.pending (.semAlter i), Stuck c.mem q ∨ i ∈ raised c.semNsems sops) :
    (∃ L, Served c L (doSmartUpdate c sops)) ∧ Asleep (doSmartUpdate c sops) := by
  obtain ⟨hz, hc⟩ := doSmartWakeupZero_spec hw sops hconst
  obtain ⟨L, hL⟩ := hz.served
  unfold doSmartUpdate
  generalize doSmartWakeupZero c sops = c₁ at hz hc hL ⊢
  have hw₁ := hL.wf hw
  by_cases he : c₁.pending .alter = []
  · rw [if_neg (by simpa using he)]
    obtain ⟨⟨L', hL'⟩, ha⟩ := updateEach_spec hw₁ hc he fun i q hq => by
      rw [hz.alter (.semAlter i) fun h => h] at hq
      rw [hz.mem]
      exact halter i q hq
    cases sops with
    | none =>
      rw [raised, ← hL.nsems] at hL' ha
      exact ⟨⟨_, hL.trans hL'⟩, ha⟩
    | some sops =>
      simp only [raised, List.foldl_map, List.foldl_filter, decide_eq_true_eq] at hL' ha
      exact ⟨⟨_, hL.trans hL'⟩, ha⟩
  · obtain ⟨hscan, hstuck⟩ := updateQueue_spec none hw₁ hc
    obtain ⟨L', hL'⟩ := hscan.served
    rw [if_pos he]
    refine ⟨⟨_, hL.trans hL'⟩, hscan.const, fun k hk q hq => ?_⟩
    cases k with
    | alter => exact hstuck q hq
    | semAlter i =>
      -- while the global queue is used, the semaphores' own are empty
      have := hL'.sublist (.semAlter i)
      rw [hw₁.split (.inr he) i] at this
      simp [List.sublist_nil.1 this] at hq
    | const => exact absurd trivial hk
    | semConst i => exact absurd trivial hk

end DroidLkm.Sem
