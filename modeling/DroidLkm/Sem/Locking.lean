/-
  SysV semaphores — what the locking modes do to the queues.

  * `Moved c c'`: the entries of `c` are in other queues in `c'`, and nothing
    else has changed; `Moved.wf`, `Moved.asleep`: moving keeps the invariant
    and everybody's reason to sleep;
  * `moved_unmerge`, `moved_merge`: `unmerge_queues` and `merge_queues` move
    entries, and lose or duplicate none;
  * `semUnlock_spec`: when the lock is dropped and no complex operation is
    left, the global queues are empty.
-/
import DroidLkm.Sem.Wakeup

namespace DroidLkm.Sem

variable {c c' c'' : Ctx} {k : Head} {q : SemQueue} {n : ℕ}
variable {pending : Head → List SemQueue} {p : SemQueue → Bool}

/-- The entries of `c` are in other queues in `c'`. -/
structure Moved (c c' : Ctx) : Prop where
  mem : c'.mem = c.mem
  nsems : c'.semNsems = c.semNsems
  listId : c'.listId = c.listId
  complex : c'.complexCount = c.complexCount
  wakeQ : c'.wakeQ = c.wakeQ
  queued : ∀ p, queued c.semNsems c'.pending p = queued c.semNsems c.pending p
  entry : ∀ k, ∀ q ∈ c'.pending k, Fits k q ∧ ∃ j, (j.IsConst ↔ k.IsConst) ∧ q ∈ c.pending j
  split : c'.complexCount ≠ 0 ∨ c'.pending .alter ≠ [] → ∀ i, c'.pending (.semAlter i) = []

theorem Moved.refl (hw : Wf c) : Moved c c where
  mem := rfl
  nsems := rfl
  listId := rfl
  complex := rfl
  wakeQ := rfl
  queued _ := rfl
  entry k q hq := ⟨(hw.entry k q hq).2, k, Iff.rfl, hq⟩
  split := hw.split

/-- **Moving entries keeps the invariant.** -/
theorem Moved.wf (h : Moved c c') (hw : Wf c) : Wf c' where
  ranges := h.mem ▸ hw.ranges
  entry k q hq := by
    obtain ⟨hf, j, -, hj⟩ := h.entry k q hq
    rw [h.nsems, h.listId]
    exact ⟨(hw.entry j q hj).1, hf⟩
  count := by rw [h.complex, h.nsems, h.queued, hw.count]
  split := h.split
  nodup := h.listId ▸ hw.nodup

theorem Moved.asleep (h : Moved c c') (ha : Asleep c) : Asleep c' where
  const k hk q hq := by
    obtain ⟨-, j, hjk, hj⟩ := h.entry k q hq
    exact h.mem ▸ ha.const j (hjk.2 hk) q hj
  alter k hk q hq := by
    obtain ⟨-, j, hjk, hj⟩ := h.entry k q hq
    exact h.mem ▸ ha.alter j (fun hc => hk (hjk.1 hc)) q hj

/-! ## `unmerge_queues` -/

theorem unmerge_foldl (pending : Head → List SemQueue) {l : List SemQueue} (hl : ∀ q ∈ l, ∃ s, q.sops = [s] ∧ s.semNum < n) :
    (∀ k, ∀ q ∈ l.foldl unmergeOne pending k, q ∈ pending k ∨
      q ∈ l ∧ ∃ s, q.sops = [s] ∧ k = .semAlter s.semNum) ∧
    l.foldl unmergeOne pending .alter = pending .alter ∧
    ∀ p, queued n (l.foldl unmergeOne pending) p = queued n pending p + l.countP p := by
  induction l generalizing pending with
  | nil => exact ⟨fun _ _ => .inl, rfl, fun _ => by simp⟩
  | cons x l ih =>
    obtain ⟨s, hs, hlt⟩ := hl x List.mem_cons_self
    have hone : unmergeOne pending x = Function.update pending (.semAlter s.semNum)
        (pending (.semAlter s.semNum) ++ [x]) := by simp [unmergeOne, hs]
    obtain ⟨h1, h2, h3⟩ := ih (unmergeOne pending x)
      fun q hq => hl q (List.mem_cons_of_mem _ hq)
    refine ⟨fun k q hq => ?_, ?_, fun p => ?_⟩
    · rcases h1 k q hq with hq | ⟨hq, hk⟩
      · rw [hone] at hq
        by_cases hk : k = .semAlter s.semNum
        · subst hk
          rw [Function.update_self, List.mem_append, List.mem_singleton] at hq
          rcases hq with hq | rfl
          · exact .inl hq
          · exact .inr ⟨List.mem_cons_self, s, hs, rfl⟩
        · rw [Function.update_of_ne hk] at hq
          exact .inl hq
      · exact .inr ⟨List.mem_cons_of_mem _ hq, hk⟩
    · rw [List.foldl_cons, h2, hone]; simp
    · have hq := queued_update pending p (mem_heads_semAlter.2 hlt)
        (pending (.semAlter s.semNum) ++ [x])
      rw [List.foldl_cons, h3, hone, List.countP_cons]
      rw [List.countP_append, List.countP_singleton] at hq
      omega

/-- Without complex operations the entries go back to their semaphores. -/
theorem moved_unmerge (hw : Wf c) : Moved c (unmergeQueues c) := by
  unfold unmergeQueues
  split
  · exact Moved.refl hw
  · next h0 =>
    have h0 : c.complexCount = 0 := not_not.1 h0
    -- every entry of the global queue is a single decrement
    have hsingle : ∀ q ∈ c.pending .alter, ∃ s, q.sops = [s] ∧ s.semNum < c.semNsems ∧
        s.semOp < 0 ∧ s.nowait = false := by
      intro q hq
      have hc : ¬q.complex := fun hc => by
        have := queued_pos.2 ⟨.alter, alter_mem_heads (n := c.semNsems), q, hq, hc⟩
        have := hw.count
        omega
      have hlen : q.sops.length ≤ 1 := by simpa [SemQueue.complex] using hc
      have he := (hw.entry _ q hq).1
      rcases hs : q.sops with _ | ⟨s, rest⟩
      · exact absurd hs he.ne
      · obtain rfl : rest = [] := by
          rw [hs, List.length_cons] at hlen; exact List.length_eq_zero_iff.1 (by omega)
        exact ⟨s, rfl, he.lt s (by simp [hs]), (hw.entry _ q hq).2.2 s hs⟩
    have hl : ∀ q ∈ c.pending .alter, ∃ s, q.sops = [s] ∧ s.semNum < c.semNsems := fun q hq => by
      obtain ⟨s, hs, hlt, -⟩ := hsingle q hq; exact ⟨s, hs, hlt⟩
    obtain ⟨h1, h2, h3⟩ := unmerge_foldl c.pending hl
    refine ⟨rfl, rfl, rfl, rfl, rfl, fun p => ?_, fun k q hq => ?_, fun h => ?_⟩
    · have hq := queued_update ((c.pending .alter).foldl unmergeOne c.pending) p
        (alter_mem_heads (n := c.semNsems)) []
      rw [h2, h3, List.countP_nil] at hq
      dsimp only
      omega
    · dsimp only at hq
      by_cases hk : k = .alter
      · subst hk; simp at hq
      · rw [Function.update_of_ne hk] at hq
        rcases h1 k q hq with hl | ⟨hl, s, hs, rfl⟩
        · exact ⟨(hw.entry k q hl).2, k, Iff.rfl, hl⟩
        · obtain ⟨s', hs', -, hop⟩ := hsingle q hl
          obtain rfl : s' = s := by simpa [hs] using hs'.symm
          exact ⟨⟨s', hs, rfl, hop⟩, .alter, Iff.rfl, hl⟩
    · simp [h0] at h

/-! ## `merge_queues` -/

theorem mergeOne_queued {i : ℕ} (hi : i < n) :
    queued n (mergeOne c i).pending p = queued n c.pending p := by
  have h1 := queued_update c.pending p (alter_mem_heads (n := n))
    (c.pending (.semAlter i) ++ c.pending .alter)
  have h2 := queued_update (Function.update c.pending .alter
    (c.pending (.semAlter i) ++ c.pending .alter)) p (mem_heads_semAlter.2 hi) []
  rw [List.countP_append] at h1
  rw [Function.update_of_ne (by simp), List.countP_nil] at h2
  change queued n (Function.update _ _ _) p = _
  omega

theorem mergeOne_pending {i : ℕ} : (mergeOne c i).pending k =
    if k = .semAlter i then [] else if k = .alter then c.pending (.semAlter i) ++ c.pending .alter
    else c.pending k := by
  simp only [mergeOne, Function.update_apply]

theorem merge_foldl (is : List ℕ) (his : ∀ i ∈ is, i < n) :
    let c' := is.foldl mergeOne c
    (c'.mem = c.mem ∧ c'.semNsems = c.semNsems ∧ c'.listId = c.listId ∧
      c'.complexCount = c.complexCount ∧ c'.wakeQ = c.wakeQ ∧
      c'.useGlobalLock = c.useGlobalLock) ∧
    (∀ p, queued n c'.pending p = queued n c.pending p) ∧
    (∀ i ∈ is, c'.pending (.semAlter i) = []) ∧
    (∀ k, k ≠ .alter → (c'.pending k).Sublist (c.pending k)) ∧
    ∀ q ∈ c'.pending .alter, q ∈ c.pending .alter ∨ ∃ i, q ∈ c.pending (.semAlter i) := by
  induction is generalizing c with
  | nil => exact ⟨⟨rfl, rfl, rfl, rfl, rfl, rfl⟩, fun _ => rfl, by simp,
      fun _ _ => List.Sublist.refl _, fun _ => .inl⟩
  | cons i is ih =>
    obtain ⟨h1, h2, h3, h4, h5⟩ := ih (c := mergeOne c i)
      fun j hj => his j (List.mem_cons_of_mem _ hj)
    rw [List.foldl_cons]
    refine ⟨h1, fun p => (h2 p).trans (mergeOne_queued (his i List.mem_cons_self)),
      fun j hj => ?_, fun k hk => (h4 k hk).trans ?_, fun q hq => ?_⟩
    · rcases List.mem_cons.1 hj with rfl | hj
      · have := h4 (.semAlter j) (by simp)
        rw [mergeOne_pending, if_pos rfl] at this
        exact List.sublist_nil.1 this
      · exact h3 j hj
    · rw [mergeOne_pending]
      split
      · exact List.nil_sublist _
      · exact List.Sublist.refl _
    · rcases h5 q hq with hq | ⟨j, hj⟩
      · rw [mergeOne_pending, if_neg (by simp), if_pos rfl, List.mem_append] at hq
        rcases hq with hq | hq
        · exact .inr ⟨i, hq⟩
        · exact .inl hq
      · rw [mergeOne_pending] at hj
        split at hj
        · simp at hj
        · exact .inr ⟨j, by simpa using hj⟩

/-- All the altering entries go to the global queue. -/
theorem moved_merge (hw : Wf c) : Moved c (mergeQueues c) ∧
    ∀ i, (mergeQueues c).pending (.semAlter i) = [] := by
  obtain ⟨⟨h1, h2, h3, h4, h5, -⟩, hq, hnil, hsub, halter⟩ := merge_foldl (c := c)
    (n := c.semNsems) (List.range c.semNsems) fun i hi => List.mem_range.1 hi
  unfold mergeQueues
  have hempty : ∀ i, ((List.range c.semNsems).foldl mergeOne c).pending (.semAlter i) = [] := by
    intro i
    by_cases hi : i < c.semNsems
    · exact hnil i (List.mem_range.2 hi)
    · refine List.eq_nil_iff_forall_not_mem.2 fun q hq => hi ?_
      simpa using hw.mem_heads ((hsub (.semAlter i) (by simp)).subset hq)
  refine ⟨⟨h1, h2, h3, h4, h5, hq, fun k q hk => ?_, fun _ => hempty⟩, hempty⟩
  by_cases hka : k = .alter
  · subst hka
    rcases halter q hk with hk | ⟨i, hk⟩
    · exact ⟨(hw.entry _ q hk).2, .alter, Iff.rfl, hk⟩
    · obtain ⟨he, s, hs, -, hop, hnw⟩ := hw.entry _ q hk
      refine ⟨⟨?_, fun s' hs' => ?_⟩, .semAlter i, Iff.rfl, hk⟩
      · rw [he.scanned.1, hs]
        simp [scanSops, SopScan.next, hop.ne]
      · obtain rfl : s' = s := by simpa [hs] using hs'.symm
        exact ⟨hop, hnw⟩
  · have := (hsub k hka).subset hk
    exact ⟨(hw.entry k q this).2, k, Iff.rfl, this⟩

/-! ## `sem_unlock` -/

/-- The state of the queues while nobody holds the lock. -/
structure Unlocked (c : Ctx) : Prop where
  quiet : c.complexCount = 0 → c.pending .alter = []
  mode : c.useGlobalLock = 0 → c.complexCount = 0

/-- Leaving complex mode touches `use_global_lock` only. -/
theorem moved_tryleave (h : Moved c c') : Moved c (complexmodeTryleave c') := by
  unfold complexmodeTryleave
  split_ifs
  · exact h
  · exact ⟨h.mem, h.nsems, h.listId, h.complex, h.wakeQ, h.queued, h.entry, h.split⟩
  · exact ⟨h.mem, h.nsems, h.listId, h.complex, h.wakeQ, h.queued, h.entry, h.split⟩

theorem tryleave_pending : (complexmodeTryleave c).pending = c.pending := by
  unfold complexmodeTryleave; split_ifs <;> rfl

theorem tryleave_complex : (complexmodeTryleave c).complexCount = c.complexCount := by
  unfold complexmodeTryleave; split_ifs <;> rfl

/-- **Dropping the lock.**  The semaphore's own lock is dropped in simple mode
    only, the global one in complex mode only. -/
theorem semUnlock_spec (hw : Wf c) (locknum : Option ℕ)
    (hlock : ∀ i, locknum = some i → c.complexCount = 0 ∧ c.pending .alter = [])
    (hglob : locknum = none → c.useGlobalLock = 0 → c.complexCount = 0) :
    Moved c (semUnlock c locknum) ∧ Unlocked (semUnlock c locknum) := by
  cases locknum with
  | some i =>
    obtain ⟨h0, hnil⟩ := hlock i rfl
    exact ⟨Moved.refl hw, fun _ => hnil, fun _ => h0⟩
  | none =>
    have hm := moved_unmerge hw
    refine ⟨moved_tryleave hm, fun h0 => ?_, fun h0 => ?_⟩
    · rw [semUnlock, tryleave_complex, hm.complex] at h0
      rw [semUnlock, tryleave_pending, unmergeQueues, if_neg (by simpa using h0)]
      simp
    · by_contra hne
      rw [semUnlock, tryleave_complex, hm.complex] at hne
      have hun : unmergeQueues c = c := by rw [unmergeQueues, if_pos hne]
      rw [semUnlock, hun, complexmodeTryleave, if_pos hne] at h0
      exact hne (hglob rfl h0)

/-- What `sem_lock` changes, and what the lock it returns says. -/
theorem semLock_spec (hu : Unlocked c) (sops : List Sembuf) :
    (∃ b, (semLock c sops).1 = { c with useGlobalLock := b }) ∧
    (∀ i, (semLock c sops).2 = some i → (∃ s, sops = [s]) ∧ c.complexCount = 0 ∧
      c.pending .alter = []) ∧
    ((semLock c sops).2 = none → (semLock c sops).1.useGlobalLock ≠ 0) := by
  rcases sops with _ | ⟨s, _ | ⟨s', rest⟩⟩
  · exact ⟨⟨_, rfl⟩, by simp [semLock], fun _ => by simp [semLock, complexmodeEnter,
      USE_GLOBAL_LOCK_HYSTERESIS]⟩
  · by_cases h0 : c.useGlobalLock = 0
    · refine ⟨⟨0, by simp [semLock, ← h0]⟩, fun i _ => ⟨⟨s, rfl⟩, hu.mode h0, hu.quiet (hu.mode h0)⟩,
        fun h => by simp [semLock, h0] at h⟩
    · exact ⟨⟨_, by rw [semLock, if_neg h0]⟩, fun i h => by simp [semLock, h0] at h,
        fun _ => by simp [semLock, h0]⟩
  · exact ⟨⟨_, rfl⟩, by simp [semLock], fun _ => by simp [semLock, complexmodeEnter,
      USE_GLOBAL_LOCK_HYSTERESIS]⟩

end DroidLkm.Sem
