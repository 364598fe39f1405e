/-
  SysV semaphores — the queues and the mode of the lock agree.

  * `onSem`: the altering entries on one semaphore, in their order;
  * `Regrouped`, `merge_regrouped`, `unmerge_regrouped`: going from one mode to
    the other keeps it, and loses or duplicates no entry;
  * `step_lock`: `use_global_lock` stays within its bounds;
  * `queue_structure`: what holds of the queues whenever the locks are free.
-/
import DroidLkm.Sem.Steps

namespace DroidLkm.Sem

open Machine

variable {c c' : Ctx} {k : Head} {q : SemQueue} {s t : State} {a : Act} {n i : ℕ}
  {pending : Head → List SemQueue}

/-! ## Merging and unmerging -/

/-- The vector has an operation on the semaphore `i`. -/
def SemQueue.names (q : SemQueue) (i : ℕ) : Bool := q.sops.any (·.semNum == i)

/-- The altering entries on the semaphore `i`: those in its own queue, then those
    of the global queue. -/
def onSem (pending : Head → List SemQueue) (i : ℕ) : List SemQueue :=
  pending (.semAlter i) ++ (pending .alter).filter (·.names i)

/-- Altering entries have gone from one kind of queue to the other. -/
structure Regrouped (c c' : Ctx) : Prop where
  /-- in the same order on every semaphore -/
  order : ∀ i, onSem c'.pending i = onSem c.pending i
  /-- each as often as before -/
  queued : ∀ q, queued c.semNsems c'.pending (· = q) = queued c.semNsems c.pending (· = q)
  const : ∀ k, k.IsConst → c'.pending k = c.pending k

/-- What is in the queue of a semaphore is a single operation on it. -/
def Single (pending : Head → List SemQueue) : Prop :=
  ∀ i, ∀ q ∈ pending (.semAlter i), ∃ s, q.sops = [s] ∧ s.semNum = i

theorem Wf.single (hw : Wf c) : Single c.pending := by
  intro i q hq
  obtain ⟨-, s, hs, hi, -⟩ := hw.entry _ q hq
  exact ⟨s, hs, hi⟩

theorem names_single {s : Sembuf} (h : q.sops = [s]) : q.names i = (s.semNum == i) := by
  simp [SemQueue.names, h]

theorem Single.filter (h : Single pending) (i j : ℕ) :
    (pending (.semAlter j)).filter (·.names i) = if j = i then pending (.semAlter i) else [] := by
  split
  · next hj =>
    subst hj
    rw [List.filter_eq_self]
    intro q hq
    obtain ⟨s, hs, hi⟩ := h j q hq
    rw [names_single hs, hi]
    simp
  · next hj =>
    rw [List.filter_eq_nil_iff]
    intro q hq
    obtain ⟨s, hs, hi⟩ := h j q hq
    rw [names_single hs, hi]
    simpa using hj

theorem mergeOne_order (h : Single c.pending) (j : ℕ) :
    Single (mergeOne c j).pending ∧ (∀ i, onSem (mergeOne c j).pending i = onSem c.pending i) ∧
      ∀ k, k.IsConst → (mergeOne c j).pending k = c.pending k := by
  refine ⟨?_, ?_, ?_⟩
  · intro i q hq
    rw [mergeOne_pending] at hq
    split at hq
    · cases hq
    · exact h i q (by simpa using hq)
  · intro i
    have hsem : (mergeOne c j).pending (.semAlter i) =
        if j = i then [] else c.pending (.semAlter i) := by
      rw [mergeOne_pending]
      by_cases hj : j = i
      · simp [hj]
      · simp [hj, Ne.symm hj]
    have halter : (mergeOne c j).pending .alter = c.pending (.semAlter j) ++ c.pending .alter := by
      rw [mergeOne_pending]
      simp
    rw [onSem, hsem, halter, List.filter_append, h.filter, onSem]
    by_cases hj : j = i
    · simp [hj]
    · simp [hj]
  · intro k hk
    rw [mergeOne_pending]
    cases k <;> simp_all [Head.IsConst]

theorem merge_order (is : List ℕ) (h : Single c.pending) :
    (∀ i, onSem (is.foldl mergeOne c).pending i = onSem c.pending i) ∧
      ∀ k, k.IsConst → (is.foldl mergeOne c).pending k = c.pending k := by
  induction is generalizing c with
  | nil => exact ⟨fun _ => rfl, fun _ _ => rfl⟩
  | cons j is ih =>
    obtain ⟨hsingle, horder, hconst⟩ := mergeOne_order h j
    obtain ⟨ih₁, ih₂⟩ := ih hsingle
    refine ⟨?_, ?_⟩
    · intro i
      exact (ih₁ i).trans (horder i)
    · intro k hk
      exact (ih₂ k hk).trans (hconst k hk)

/-- **`merge_queues` keeps every entry and the order on each semaphore.** -/
theorem merge_regrouped (hw : Wf c) : Regrouped c (mergeQueues c) := by
  obtain ⟨horder, hconst⟩ := merge_order (List.range c.semNsems) hw.single
  exact ⟨horder, fun q => (moved_merge hw).1.queued _, hconst⟩

theorem unmerge_order {l : List SemQueue} (hl : ∀ q ∈ l, ∃ s, q.sops = [s])
    (pending : Head → List SemQueue) :
    (∀ i, l.foldl unmergeOne pending (.semAlter i) =
      pending (.semAlter i) ++ l.filter (·.names i)) ∧
      ∀ k, k.IsConst → l.foldl unmergeOne pending k = pending k := by
  induction l generalizing pending with
  | nil => exact ⟨fun i => (List.append_nil _).symm, fun _ _ => rfl⟩
  | cons q l ih =>
    obtain ⟨s, hs⟩ := hl q List.mem_cons_self
    have hone : unmergeOne pending q = Function.update pending (.semAlter s.semNum)
        (pending (.semAlter s.semNum) ++ [q]) := by simp [unmergeOne, hs]
    obtain ⟨ih₁, ih₂⟩ := ih (fun x hx => hl x (List.mem_cons_of_mem _ hx)) (unmergeOne pending q)
    refine ⟨?_, ?_⟩
    · intro i
      rw [List.foldl_cons, ih₁, hone, List.filter_cons, names_single hs]
      by_cases hi : s.semNum = i
      · subst hi
        simp
      · simp [hi, Ne.symm hi]
    · intro k hk
      rw [List.foldl_cons, ih₂ k hk, hone]
      cases k <;> simp_all [Head.IsConst]

/-- What is left in the global queue when no complex operation is. -/
theorem Wf.alter_single (hw : Wf c) (h0 : c.complexCount = 0) :
    ∀ q ∈ c.pending .alter, ∃ s, q.sops = [s] := by
  intro q hq
  have hlen : ¬q.complex := by
    intro hc
    have hpos := queued_pos.2 ⟨.alter, alter_mem_heads (n := c.semNsems), q, hq, hc⟩
    have hcount := hw.count
    omega
  rw [SemQueue.complex, decide_eq_true_eq, Nat.not_lt] at hlen
  have hne := (hw.entry _ q hq).1.ne
  rcases hs : q.sops with _ | ⟨s, _ | ⟨s', rest⟩⟩
  · exact absurd hs hne
  · exact ⟨s, rfl⟩
  · rw [hs] at hlen
    simp at hlen

/-- **And so does `unmerge_queues`.** -/
theorem unmerge_regrouped (hw : Wf c) : Regrouped c (unmergeQueues c) := by
  refine ⟨?_, fun q => (moved_unmerge hw).queued _, ?_⟩
  · intro i
    unfold unmergeQueues
    split
    · rfl
    next h0 =>
    obtain ⟨hsem, -⟩ := unmerge_order (hw.alter_single (not_not.1 h0)) c.pending
    simp [onSem, hsem]
  · intro k hk
    unfold unmergeQueues
    split
    · rfl
    next h0 =>
    obtain ⟨-, hconst⟩ := unmerge_order (hw.alter_single (not_not.1 h0)) c.pending
    have hne : k ≠ .alter := by
      rintro rfl
      exact hk
    dsimp only
    rw [Function.update_of_ne hne, hconst k hk]

/-! ## The mode of the lock -/

theorem wakeConstLoop_lock (k : Head) (l pre : List SemQueue) (c : Ctx) :
    (wakeConstLoop k pre l c).useGlobalLock = c.useGlobalLock := by
  induction l generalizing pre c with
  | nil => rfl
  | cons q l ih =>
    unfold wakeConstLoop
    dsimp only
    split
    · exact ih _ _
    · exact ih _ _

theorem wakeZeros_lock (c : Ctx) (nums : List ℕ) :
    (wakeZeros c nums).1.useGlobalLock = c.useGlobalLock := by
  unfold wakeZeros
  change _ = (c, false).1.useGlobalLock
  generalize (c, false) = x
  induction nums generalizing x with
  | nil => rfl
  | cons num nums ih =>
    rw [List.foldl_cons, ih]
    dsimp only
    split
    · exact wakeConstLoop_lock ..
    · rfl

theorem doSmartWakeupZero_lock (c : Ctx) (sops : Option (List Sembuf)) :
    (doSmartWakeupZero c sops).useGlobalLock = c.useGlobalLock := by
  unfold doSmartWakeupZero
  cases sops <;> dsimp only <;> split
  all_goals first
    | exact (wakeConstLoop_lock ..).trans (wakeZeros_lock c _)
    | exact wakeZeros_lock c _

theorem updateScan_lock (semnum : Option ℕ) (l pre : List SemQueue) (c : Ctx) :
    (updateScan semnum pre l c).2.useGlobalLock = c.useGlobalLock := by
  induction l generalizing pre c with
  | nil => rfl
  | cons q l ih =>
    unfold updateScan
    dsimp only
    split
    · rfl
    split
    · exact ih _ _
    split
    · exact ih _ _
    split
    · exact doSmartWakeupZero_lock _ _
    · exact (ih _ _).trans (doSmartWakeupZero_lock _ _)

theorem updateQueue_lock (c : Ctx) (semnum : Option ℕ) :
    (updateQueue c semnum).useGlobalLock = c.useGlobalLock := by
  have hloop : ∀ (m : ℕ) (c : Ctx),
      (updateLoop semnum m c).useGlobalLock = c.useGlobalLock := by
    intro m
    induction m with
    | zero => exact fun _ => rfl
    | succ m ih =>
      intro c
      have hscan := updateScan_lock semnum (c.pending (alterHead semnum)) [] c
      unfold updateLoop
      dsimp only
      split
      · exact (ih _).trans hscan
      · exact hscan
  exact hloop _ _

/-- The last loop of `do_smart_update`. -/
theorem raised_lock (sops : List Sembuf) (c : Ctx) : (sops.foldl
    (fun c sop => if 0 < sop.semOp then updateQueue c (some sop.semNum) else c) c).useGlobalLock =
      c.useGlobalLock := by
  induction sops generalizing c with
  | nil => rfl
  | cons sop sops ih =>
    rw [List.foldl_cons, ih]
    split
    · exact updateQueue_lock _ _
    · rfl

theorem doSmartUpdate_lock (c : Ctx) (sops : Option (List Sembuf)) :
    (doSmartUpdate c sops).useGlobalLock = c.useGlobalLock := by
  have hzero := doSmartWakeupZero_lock c sops
  unfold doSmartUpdate
  dsimp only
  split
  · exact (updateQueue_lock _ _).trans hzero
  · rw [← hzero]
    split
    · generalize doSmartWakeupZero c none = c₁
      induction List.range c₁.semNsems generalizing c₁ with
      | nil => rfl
      | cons i is ih => exact (ih _).trans (updateQueue_lock _ _)
    · exact raised_lock _ _

theorem enqueue_lock (c : Ctx) (q : SemQueue) : (enqueue c q).useGlobalLock = c.useGlobalLock := by
  have hmerge : (mergeQueues c).useGlobalLock = c.useGlobalLock :=
    (merge_foldl (n := c.semNsems) _ fun i hi => List.mem_range.1 hi).1.2.2.2.2.2
  unfold enqueue
  split
  · split <;> rfl
  · dsimp only
    split
    · exact hmerge
    · rfl

/-- Within its bounds. -/
def LockOk (c : Ctx) : Prop := c.useGlobalLock ≤ USE_GLOBAL_LOCK_HYSTERESIS

theorem tryleave_lock (h : LockOk c) (h0 : c.useGlobalLock ≠ 0) : LockOk (complexmodeTryleave c) := by
  unfold LockOk at h ⊢
  have hne : c.useGlobalLock.toNat ≠ 0 := by
    intro hz
    exact h0 (UInt32.toNat_inj.1 hz)
  rw [UInt32.le_iff_toNat_le] at h ⊢
  unfold complexmodeTryleave
  split
  · exact h
  split
  · exact Nat.zero_le _
  · have hle : 1 ≤ c.useGlobalLock := by
      rw [UInt32.le_iff_toNat_le]
      exact Nat.one_le_iff_ne_zero.2 hne
    dsimp only
    rw [UInt32.toNat_sub_of_le _ _ hle]
    exact (Nat.sub_le _ _).trans h

theorem unmerge_lock : (unmergeQueues c).useGlobalLock = c.useGlobalLock := by
  unfold unmergeQueues
  split <;> rfl

/-- **A section keeps `use_global_lock` within its bounds**: the lock that is
    dropped is the one that was taken. -/
theorem section_lock (h : LockOk c) (sops : List Sembuf)
    (hc : c'.useGlobalLock = (semLock c sops).1.useGlobalLock) :
    LockOk (semUnlock c' (semLock c sops).2) := by
  have henter : LockOk (complexmodeEnter c) ∧ (complexmodeEnter c).useGlobalLock ≠ 0 :=
    ⟨by simp [LockOk, complexmodeEnter], enter_ne_zero⟩
  have hglobal : ∀ c₀ : Ctx, LockOk c₀ ∧ c₀.useGlobalLock ≠ 0 →
      c'.useGlobalLock = c₀.useGlobalLock → LockOk (semUnlock c' none) := by
    rintro c₀ ⟨hok, hne⟩ heq
    rw [semUnlock]
    refine tryleave_lock ?_ ?_
    · rw [LockOk, unmerge_lock, heq]
      exact hok
    · rw [unmerge_lock, heq]
      exact hne
  unfold semLock at hc ⊢
  split at hc
  · split at hc
    · next h0 =>
      rw [if_pos h0]
      rw [semUnlock, LockOk, hc]
      exact h
    · next h0 =>
      rw [if_neg h0]
      exact hglobal c ⟨h, h0⟩ hc
  · exact hglobal _ henter hc

theorem doSemop_lock (h : LockOk c) (q : SemQueue) : LockOk (doSemop c q).1 := by
  unfold doSemop
  dsimp only
  split
  · refine section_lock h q.sops ?_
    split
    · exact doSmartUpdate_lock _ _
    · rfl
  split
  · exact section_lock h q.sops rfl
  · exact section_lock h q.sops (enqueue_lock _ _)

theorem dequeue_lock (h : LockOk c) (q : SemQueue) (leave : Bool) :
    LockOk (dequeue c q leave) := by
  unfold dequeue
  dsimp only
  refine section_lock h q.sops ?_
  split <;> rfl

/-- **So does every step.** -/
theorem step_lock (h : LockOk s.ctx) (hs : step s a = some t) : LockOk t.ctx := by
  cases a with
  | findAllocUndo task =>
    simp only [step] at hs
    split_ifs at hs
    split at hs
    · obtain rfl := Option.some.inj hs
      exact h
    · obtain rfl := Option.some.inj hs
      exact section_lock (c := s.ctx) h [] rfl
  | semtimedop task sops =>
    unfold step at hs
    dsimp only at hs
    generalize (if (scanSops sops).undos = true then s.undoOf task else none) = un at hs
    split at hs
    · cases hs
    split at hs
    · obtain rfl := Option.some.inj hs
      exact h
    split at hs
    · obtain rfl := Option.some.inj hs
      exact h
    · obtain rfl := Option.some.inj hs
      exact doSemop_lock h _
  | interrupted task timedOut =>
    simp only [step] at hs
    split at hs
    · split at hs
      · obtain rfl := Option.some.inj hs
        exact dequeue_lock h _ true
      · cases hs
    · cases hs
  | spurious task =>
    simp only [step] at hs
    split at hs
    · split at hs
      · obtain rfl := Option.some.inj hs
        exact dequeue_lock h _ false
      · cases hs
    · cases hs
  | resume task =>
    simp only [step] at hs
    split at hs
    · split at hs
      · cases hs
      · obtain rfl := Option.some.inj hs
        exact h
    · cases hs
  | setval task semnum val =>
    simp only [step] at hs
    split_ifs at hs
    · obtain rfl := Option.some.inj hs
      exact h
    · obtain rfl := Option.some.inj hs
      exact h
    · obtain rfl := Option.some.inj hs
      exact section_lock (c := s.ctx) h [] (doSmartUpdate_lock _ _)
  | setall task semIo =>
    simp only [step] at hs
    split_ifs at hs
    · obtain rfl := Option.some.inj hs
      exact h
    · obtain rfl := Option.some.inj hs
      exact section_lock (c := s.ctx) h [] (doSmartUpdate_lock _ _)
  | semctlRead task =>
    simp only [step] at hs
    split_ifs at hs
    obtain rfl := Option.some.inj hs
    exact section_lock (c := s.ctx) h [] rfl
  | procShow =>
    obtain rfl := Option.some.inj hs
    exact tryleave_lock (c := complexmodeEnter s.ctx) (by simp [LockOk, complexmodeEnter])
      enter_ne_zero
  | exitSem task =>
    simp only [step] at hs
    split_ifs at hs
    split at hs
    · obtain rfl := Option.some.inj hs
      exact h
    · obtain rfl := Option.some.inj hs
      exact section_lock (c := s.ctx) h [] (doSmartUpdate_lock _ _)

/-! ## The structure -/

/-- The queues of an array whose locks are free. -/
structure QueueStructure (s : State) : Prop where
  count : s.array.complexCount =
    queued s.array.semNsems s.array.pending fun q => decide (1 < q.sops.length)
  /-- with a complex operation asleep, the global queue is the one in use -/
  complex : 0 < s.array.complexCount →
    (∀ i, s.array.pending (.semAlter i) = []) ∧ 0 < s.array.useGlobalLock
  /-- without, each altering operation is with its semaphore -/
  simple : s.array.complexCount = 0 → s.array.pending .alter = [] ∧
    ∀ i, ∀ q ∈ s.array.pending (.semAlter i), ∃ sop, q.sops = [sop] ∧ sop.semNum = i
  altering : ∀ k, ∀ q ∈ s.array.pending k, (q.alter = true ↔ ¬k.IsConst)
  /-- who has not been served is queued, once -/
  queued : ∀ t q, s.phase t = .sleeping q (-EINTR) →
    (∃ k, q ∈ s.array.pending k) ∧
      queued s.array.semNsems s.array.pending (fun x => x.sleeper = t) = 1
  lock : s.array.useGlobalLock ≤ USE_GLOBAL_LOCK_HYSTERESIS

/-- The mode is global while a complex operation sleeps. -/
theorem Unlocked.lock_pos (hu : Unlocked c) (h0 : 0 < c.complexCount) : 0 < c.useGlobalLock := by
  have hne : c.useGlobalLock ≠ 0 := by
    intro hz
    have := hu.mode hz
    omega
  rw [UInt32.lt_iff_toNat_lt]
  refine Nat.pos_of_ne_zero ?_
  intro hz
  exact hne (UInt32.toNat_inj.1 hz)

theorem Fits.alter_iff (hf : Fits k q) (he : Entry n c.listId q) :
    q.alter = true ↔ ¬k.IsConst := by
  rw [he.scanned.1, scan_alter]
  cases k with
  | alter =>
    obtain ⟨s, hs, hne⟩ := scan_alter.1 (he.scanned.1 ▸ hf.1)
    exact iff_of_true ⟨s, hs, hne⟩ id
  | semAlter i =>
    obtain ⟨s, hs, -, hlt, -⟩ := hf
    refine iff_of_true ⟨s, ?_, Int.ne_of_lt hlt⟩ id
    rw [hs]
    exact List.mem_singleton_self s
  | const =>
    refine iff_of_false ?_ (not_not.2 trivial)
    rintro ⟨s, hs, hne⟩
    exact hne (hf.1 s hs)
  | semConst i =>
    obtain ⟨s, hs, -, h0, -⟩ := hf
    refine iff_of_false ?_ (not_not.2 trivial)
    rintro ⟨s', hs', hne⟩
    rw [hs, List.mem_singleton] at hs'
    subst hs'
    exact hne h0

theorem Inv.structure (hi : Inv s) (hl : LockOk s.ctx) : QueueStructure s where
  count := hi.wf.count
  complex := by
    intro h0
    exact ⟨hi.wf.split (Or.inl (Int.ne_of_gt h0)), hi.unlocked.lock_pos h0⟩
  simple := by
    intro h0
    exact ⟨hi.unlocked.quiet h0, hi.wf.single⟩
  altering := by
    intro k q hq
    obtain ⟨he, hf⟩ := hi.wf.entry k q hq
    exact hf.alter_iff he
  queued := by
    intro t q hq
    obtain ⟨rfl, k, hk⟩ := hi.waiting t q hq
    refine ⟨⟨k, hk⟩, le_antisymm (hi.once q.sleeper) ?_⟩
    exact queued_pos.2 ⟨k, hi.wf.mem_heads hk, q, hk, by simp⟩
  lock := hl

theorem run_lock (h : Run step (State.init n) s) : LockOk s.ctx := by
  refine h.inv (I := fun s => LockOk s.ctx) ?_ fun _ _ _ hi ha => step_lock hi ha
  unfold LockOk State.ctx State.init
  dsimp only
  refine tryleave_lock (c := unmergeQueues _) ?_ ?_
  · rw [LockOk, unmerge_lock]
    exact UInt32.le_refl _
  · rw [unmerge_lock]
    show USE_GLOBAL_LOCK_HYSTERESIS ≠ 0
    decide

/-- **The queues and the mode of the lock agree** whenever the locks are free; and
    going from one kind of queue to the other keeps every entry and the order on
    each semaphore. -/
theorem queue_structure (h : Run step (State.init n) s) : QueueStructure s ∧ Wf s.ctx ∧
    ∀ c, Wf c → Regrouped c (mergeQueues c) ∧ Regrouped c (unmergeQueues c) :=
  ⟨(run_inv h).structure (run_lock h), (run_inv h).wf,
    fun _ hw => ⟨merge_regrouped hw, unmerge_regrouped hw⟩⟩

/-- Two tasks sleep, the second with a vector of two operations. -/
theorem queue_structure_mixed : ∃ s, Run step (State.init 2) s ∧ s.array.complexCount = 1 ∧
    (s.array.pending .alter).length = 2 ∧ QueueStructure s ∧ Wf s.ctx ∧
      ∀ c, Wf c → Regrouped c (mergeQueues c) ∧ Regrouped c (unmergeQueues c) := by
  obtain ⟨s, hrun, hs⟩ := exec_check step (State.init 2)
    [.semtimedop 7 [⟨1, -1, false, false⟩],
      .semtimedop 8 [⟨0, -1, false, false⟩, ⟨1, -1, false, false⟩]]
    (fun s => decide (s.array.complexCount = 1 ∧ (s.array.pending .alter).length = 2)) (by decide)
  obtain ⟨hcount, hlen⟩ := of_decide_eq_true hs
  exact ⟨s, hrun, hcount, hlen, queue_structure hrun⟩

end DroidLkm.Sem
