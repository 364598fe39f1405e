/-
  SysV semaphores — joining and leaving the queues.

  * `scan_alter`, `scan_undos`, `scan_max`: what the scan of a vector computes;
  * `enqueue_spec`: an operation that has to wait is put where it fits, behind
    those that wait already;
  * `unlink_spec`: an entry that gives up is taken out, and the others still
    have their reasons to sleep.
-/
import DroidLkm.Sem.Array
import DroidLkm.Sem.Locking

namespace DroidLkm.Sem

variable {c : Ctx} {m : SemState} {k : Head} {q : SemQueue} {sops : List Sembuf}

/-! ## The scan of a vector -/

theorem scan_foldl (sops : List Sembuf) (a : SopScan) :
    ((sops.foldl SopScan.next a).alter = true ↔ a.alter = true ∨ ∃ s ∈ sops, s.semOp ≠ 0) ∧
    ((sops.foldl SopScan.next a).undos = true ↔ a.undos = true ∨ ∃ s ∈ sops, s.undo = true) ∧
    (a.max ≤ (sops.foldl SopScan.next a).max ∧
      ∀ s ∈ sops, s.semNum ≤ (sops.foldl SopScan.next a).max) := by
  induction sops generalizing a with
  | nil => simp
  | cons s rest ih =>
    obtain ⟨h1, h2, h3, h4⟩ := ih (a.next s)
    have hmax : a.max ≤ (a.next s).max ∧ s.semNum ≤ (a.next s).max := by
      simp only [SopScan.next]; split <;> omega
    rw [List.foldl_cons, h1, h2]
    refine ⟨?_, ?_, hmax.1.trans h3, fun t ht => ?_⟩
    · simp [SopScan.next, or_assoc]
    · simp [SopScan.next, or_assoc]
    · rcases List.mem_cons.1 ht with rfl | ht
      · exact hmax.2.trans h3
      · exact h4 t ht

theorem scan_alter : (scanSops sops).alter = true ↔ ∃ s ∈ sops, s.semOp ≠ 0 := by
  simpa [scanSops] using (scan_foldl sops {}).1

theorem scan_undos : (scanSops sops).undos = true ↔ ∃ s ∈ sops, s.undo = true := by
  simpa [scanSops] using (scan_foldl sops {}).2.1

theorem scan_max : ∀ s ∈ sops, s.semNum ≤ (scanSops sops).max :=
  (scan_foldl sops {}).2.2.2

theorem SemQueue.Scanned.zero (hq : q.Scanned) (ha : q.alter = false) :
    ∀ s ∈ q.sops, s.semOp = 0 := by
  intro s hs
  by_contra h0
  have := hq.1.trans (scan_alter.2 ⟨s, hs, h0⟩)
  simp [ha] at this

/-! ## Joining -/

/-- A single operation that has to wait decrements or waits for zero, and may
    wait. -/
theorem stuck_single {un : Option ℕ} {s : Sembuf} (hm : Ranges m)
    (h : 0 < (attempt un m [s]).result) : s.semOp ≤ 0 ∧ s.nowait = false := by
  cases hv : verdict un m s with
  | ok => simp [attempt, firstStop, hv] at h
  | outOfRange => simp [attempt, firstStop, hv, ERANGE] at h
  | wouldBlock =>
    constructor
    · by_contra hop
      have hval := (hm.val s.semNum).1
      rw [verdict, if_neg (by omega), if_neg (by omega)] at hv
      dsimp only at hv
      split_ifs at hv
    · by_contra hnw
      rw [Bool.not_eq_false] at hnw
      simp [attempt, firstStop, hv, blockCode, hnw, EAGAIN] at h

/-- An operation that has to wait fits the queue chosen for it. -/
theorem fits_of_stuck {n : ℕ} {l : List ℕ} (hm : Ranges m) (he : Entry n l q) (hs : Stuck m q) :
    (∀ s, q.sops = [s] → q.alter = true → Fits .alter q ∧ Fits (.semAlter s.semNum) q) ∧
    (∀ s, q.sops = [s] → q.alter = false → Fits (.semConst s.semNum) q) ∧
    (q.complex → q.alter = true → Fits .alter q) ∧ (q.complex → q.alter = false → Fits .const q) := by
  rw [Stuck, perform_eq_attempt he.scanned] at hs
  refine ⟨fun s h1 ha => ?_, fun s h1 ha => ?_, fun hc ha => ⟨ha, fun s h1 => ?_⟩,
    fun hc ha => ⟨he.scanned.zero ha, by simpa [SemQueue.complex] using hc⟩⟩
  · obtain ⟨hle, hnw⟩ := stuck_single hm (h1 ▸ hs)
    obtain ⟨s', hs', hne⟩ := scan_alter.1 (he.scanned.1 ▸ ha)
    obtain rfl : s' = s := by simpa [h1] using hs'
    have hlt : s'.semOp < 0 := by omega
    refine ⟨⟨ha, fun t ht => ?_⟩, s', h1, rfl, hlt, hnw⟩
    obtain rfl : s' = t := by simpa [h1] using ht
    exact ⟨hlt, hnw⟩
  · exact ⟨s, h1, rfl, he.scanned.zero ha s (by simp [h1]), (stuck_single hm (h1 ▸ hs)).2⟩
  · simp [SemQueue.complex, h1] at hc

/-- The entry `q` is put at the end of the queue `k`. -/
def added (c : Ctx) (k : Head) (q : SemQueue) : Ctx :=
  { c.addTail k q with complexCount := c.complexCount + if q.complex then 1 else 0 }

/-- An entry that sleeps for a reason joins a queue it fits. -/
structure Joined (c : Ctx) (q : SemQueue) (c' : Ctx) : Prop where
  wf : Wf c'
  asleep : Asleep c'
  queued : ∀ p : SemQueue → Bool, queued c.semNsems c'.pending p =
    queued c.semNsems c.pending p + if p q then 1 else 0
  entry : ∀ k, ∀ x ∈ c'.pending k, x = q ∨ ∃ j, x ∈ c.pending j
  mem : c'.mem = c.mem
  nsems : c'.semNsems = c.semNsems
  listId : c'.listId = c.listId
  lock : c'.useGlobalLock = c.useGlobalLock
  wakeQ : c'.wakeQ = c.wakeQ

theorem added_joined (hw : Wf c) (ha : Asleep c) (he : Entry c.semNsems c.listId q)
    (hf : Fits k q) (hs : Stuck c.mem q)
    (hsplit : (added c k q).complexCount ≠ 0 ∨ (added c k q).pending .alter ≠ [] →
      ∀ i, (added c k q).pending (.semAlter i) = []) : Joined c q (added c k q) := by
  have hmem : ∀ j, ∀ x ∈ (added c k q).pending j, x ∈ c.pending j ∨ x = q ∧ j = k := by
    intro j x hx
    by_cases hj : j = k
    · subst hj
      have : x ∈ c.pending j ++ [q] := by simpa [added, Ctx.addTail] using hx
      simpa using this
    · left; simpa [added, Ctx.addTail, hj] using hx
  have hqueued : ∀ p : SemQueue → Bool, queued c.semNsems (added c k q).pending p =
      queued c.semNsems c.pending p + if p q then 1 else 0 := fun p => by
    have := queued_update c.pending p (hf.mem_heads he) (c.pending k ++ [q])
    rw [List.countP_append, List.countP_singleton] at this
    change queued c.semNsems (Function.update c.pending k (c.pending k ++ [q])) p = _
    omega
  refine ⟨⟨hw.ranges, fun j x hx => ?_, ?_, hsplit, hw.nodup⟩, ⟨fun j hj x hx => ?_,
    fun j hj x hx => ?_⟩, hqueued, fun j x hx => ?_, rfl, rfl, rfl, rfl, rfl⟩
  · rcases hmem j x hx with hx | ⟨rfl, rfl⟩
    · exact hw.entry j x hx
    · exact ⟨he, hf⟩
  · change c.complexCount + _ = ((queued c.semNsems (added c k q).pending SemQueue.complex : ℕ) : ℤ)
    rw [hqueued, hw.count]
    split <;> simp
  · rcases hmem j x hx with hx | ⟨rfl, rfl⟩
    · exact ha.const j hj x hx
    · by_contra hn
      have hall : ∀ s ∈ x.sops, c.mem.semval s.semNum = 0 := fun s hs => by
        by_contra h0; exact hn ⟨s, hs, h0⟩
      have h0 := (zero_attempt x.undo hw.ranges (hf.zero hj)).2.1 hall
      rw [Stuck, perform_eq_attempt he.scanned, h0] at hs
      exact absurd hs (lt_irrefl 0)
  · rcases hmem j x hx with hx | ⟨rfl, rfl⟩
    · exact ha.alter j hj x hx
    · exact hs
  · rcases hmem j x hx with hx | ⟨rfl, -⟩
    · exact .inr ⟨j, hx⟩
    · exact .inl rfl

/-- **Joining.**  An operation that has to wait is queued where it fits. -/
theorem enqueue_spec (hw : Wf c) (ha : Asleep c) (hq : c.complexCount = 0 → c.pending .alter = [])
    (he : Entry c.semNsems c.listId q) (hs : Stuck c.mem q) : Joined c q (enqueue c q) := by
  obtain ⟨hsa, hsc, hca, hcc⟩ := fits_of_stuck hw.ranges he hs
  rcases h1 : q.sops with _ | ⟨s, _ | ⟨s', rest⟩⟩
  · exact absurd h1 he.ne
  · have hcx : q.complex = false := by simp [SemQueue.complex, h1]
    have hadd : ∀ k, c.addTail k q = added c k q := fun k => by simp [added, hcx, Ctx.addTail]
    unfold enqueue
    simp only [h1]
    by_cases halt : q.alter = true
    · rw [if_pos halt]
      by_cases h0 : c.complexCount = 0
      · rw [if_neg (by simpa using h0), hadd]
        refine added_joined hw ha he (hsa s h1 halt).2 hs fun h => ?_
        simp [added, Ctx.addTail, hcx, h0, hq h0] at h
      · rw [if_pos h0, hadd]
        refine added_joined hw ha he (hsa s h1 halt).1 hs fun _ i => ?_
        simpa [added, Ctx.addTail] using hw.split (.inl h0) i
    · rw [if_neg halt, hadd]
      refine added_joined hw ha he (hsc s h1 (by simpa using halt)) hs fun h i => ?_
      simpa [added, Ctx.addTail] using hw.split (by simpa [added, Ctx.addTail, hcx] using h) i
  · have hcx : q.complex = true := by simp [SemQueue.complex, h1]
    -- merging first: the semaphores' own queues are empty from here on
    obtain ⟨hm, hnil⟩ : Moved c (if c.complexCount = 0 then mergeQueues c else c) ∧
        ∀ i, (if c.complexCount = 0 then mergeQueues c else c).pending (.semAlter i) = [] := by
      split
      · exact moved_merge hw
      · next h0 => exact ⟨Moved.refl hw, hw.split (.inl h0)⟩
    have hlock : (if c.complexCount = 0 then mergeQueues c else c).useGlobalLock =
        c.useGlobalLock := by
      split
      · exact (merge_foldl (n := c.semNsems) _ fun i hi => List.mem_range.1 hi).1.2.2.2.2.2
      · rfl
    unfold enqueue
    simp only [h1]
    generalize (if c.complexCount = 0 then mergeQueues c else c) = c₁ at hm hnil hlock ⊢
    have hfit : Fits (if q.alter then .alter else .const) q := by
      split
      · next halt => exact hca hcx halt
      · next halt => exact hcc hcx (by simpa using halt)
    have hadd : { c₁.addTail (if q.alter then .alter else .const) q with
        complexCount := c₁.complexCount + 1 } =
        added c₁ (if q.alter then .alter else .const) q := by simp [added, hcx]
    have hj := added_joined (hm.wf hw) (hm.asleep ha) (by rw [hm.nsems, hm.listId]; exact he)
      hfit (hm.mem ▸ hs) fun _ i => by
        by_cases halt : q.alter = true <;> simp [added, Ctx.addTail, halt, hnil]
    change Joined c q { c₁.addTail (if q.alter then .alter else .const) q with
        complexCount := c₁.complexCount + 1 }
    rw [hadd]
    refine ⟨hj.wf, hj.asleep, fun p => ?_, fun k x hx => ?_, hj.mem.trans hm.mem,
      hj.nsems.trans hm.nsems, hj.listId.trans hm.listId, hj.lock.trans hlock,
      hj.wakeQ.trans hm.wakeQ⟩
    · have := hj.queued p
      rwa [hm.nsems, hm.queued] at this
    · rcases hj.entry k x hx with rfl | ⟨j, hx⟩
      · exact .inl rfl
      · obtain ⟨-, j', -, hx⟩ := hm.entry j x hx
        exact .inr ⟨j', hx⟩

/-! ## Leaving -/

/-- The array without the entry `q`. -/
def unlinked (c : Ctx) (q : SemQueue) : Ctx :=
  { c with
    pending := fun k => (c.pending k).erase q
    complexCount := if 1 < q.sops.length then c.complexCount - 1 else c.complexCount }

theorem unlinked_sublist : ((unlinked c q).pending k).Sublist (c.pending k) := List.erase_sublist

/-- When the sleeper of `q` is queued once, one entry is taken out. -/
theorem unlinked_queued (hw : Wf c) (hq : q ∈ c.pending k)
    (h1 : queued c.semNsems c.pending (fun x => x.sleeper = q.sleeper) ≤ 1)
    (p : SemQueue → Bool) :
    queued c.semNsems (unlinked c q).pending p + (if p q then 1 else 0) =
      queued c.semNsems c.pending p := by
  have hk := hw.mem_heads hq
  -- `q` is in no other queue
  have hother : ∀ j, j ≠ k → q ∉ c.pending j := by
    intro j hj hqj
    have hsum := queued_update c.pending (fun x => x.sleeper = q.sleeper) hk []
    have hpos : 0 < queued c.semNsems (Function.update c.pending k []) fun x =>
        x.sleeper = q.sleeper :=
      queued_pos.2 ⟨j, hw.mem_heads hqj, q, by simpa [hj] using hqj, by simp⟩
    have hcnt : 0 < (c.pending k).countP fun x => x.sleeper = q.sleeper :=
      List.countP_pos_iff.2 ⟨q, hq, by simp⟩
    simp only [List.countP_nil] at hsum
    omega
  have hupd : (unlinked c q).pending = Function.update c.pending k ((c.pending k).erase q) := by
    funext j
    by_cases hj : j = k
    · subst hj; simp [unlinked]
    · simp [unlinked, hj, List.erase_of_not_mem (hother j hj)]
  have hsum := queued_update c.pending p hk ((c.pending k).erase q)
  have hcnt : (c.pending k).countP p = ((c.pending k).erase q).countP p + if p q then 1 else 0 := by
    rw [(List.perm_cons_erase hq).countP_eq, List.countP_cons]
  rw [hupd]
  omega

/-- **Leaving.**  An entry that gives up leaves the others as they are. -/
theorem unlink_spec (hw : Wf c) (ha : Asleep c) (hq : q ∈ c.pending k)
    (h1 : queued c.semNsems c.pending (fun x => x.sleeper = q.sleeper) ≤ 1) :
    Wf (unlinked c q) ∧ Asleep (unlinked c q) := by
  have hcount : (unlinked c q).complexCount =
      queued c.semNsems (unlinked c q).pending SemQueue.complex := by
    have h2 := unlinked_queued hw hq h1 SemQueue.complex
    have h3 := hw.count
    change (if 1 < q.sops.length then c.complexCount - 1 else c.complexCount) = _
    simp only [SemQueue.complex, decide_eq_true_eq] at h2 h3 ⊢
    split at h2 <;> simp_all
    omega
  refine ⟨⟨hw.ranges, fun k x hx => hw.entry k x (unlinked_sublist.subset hx), hcount,
    fun h i => ?_, hw.nodup⟩, fun j hj x hx => ha.const j hj x (unlinked_sublist.subset hx),
    fun j hj x hx => ha.alter j hj x (unlinked_sublist.subset hx)⟩
  have hnil : c.pending (.semAlter i) = [] := by
    refine hw.split ?_ i
    rcases h with h | h
    · left
      have h2 := unlinked_queued hw hq h1 SemQueue.complex
      have h3 := hw.count
      omega
    · right
      intro h0
      exact h (List.sublist_nil.1 (h0 ▸ unlinked_sublist))
  simp [unlinked, hnil]

end DroidLkm.Sem
