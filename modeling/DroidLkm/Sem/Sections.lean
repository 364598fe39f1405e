/-
  SysV semaphores — the critical sections.

  * `Sec c₁ c₃`: from `c₁`, where values and adjustments have been written, a
    section serves entries until everybody left has a reason to sleep, and
    drops the lock;
  * `update_sec`: the sections that end in `do_smart_update` without knowing
    what has changed (`SETVAL`, `SETALL`, exit), whatever they have written;
  * `semop_sec`, `semop_sleep`: the section of `semop` when the operation
    returns and when it is queued;
  * `dequeue_spec`: the section of a sleeper that leaves.
-/
import DroidLkm.Sem.Queueing

namespace DroidLkm.Sem

variable {c c' c₁ c₂ c₃ : Ctx} {m m' : SemState} {k : Head} {q : SemQueue} {i : ℕ}

/-! ## What an attempt depends on -/

/-- An attempt reads the values and the adjustments of its own undo structure
    only. -/
theorem firstStop_congr {un : Option ℕ} {sops : List Sembuf} (hv : m.semval = m'.semval)
    (ha : ∀ i, m.adj un i = m'.adj un i) : firstStop un m sops = firstStop un m' sops := by
  induction sops generalizing m m' with
  | nil => rfl
  | cons sop rest ih =>
    have h : firstStop un (applySop un m sop) rest = firstStop un (applySop un m' sop) rest :=
      ih (by rw [applySop_semval, applySop_semval, hv]) fun i => by
        rw [applySop_adj, applySop_adj, ha]
    simp only [firstStop, verdict_congr (congrFun hv _) (ha _), h]

theorem stuck_congr (hq : q.Scanned) (hv : m.semval = m'.semval)
    (ha : ∀ i, m.adj q.undo i = m'.adj q.undo i) : Stuck m q ↔ Stuck m' q := by
  rw [Stuck, Stuck, perform_eq_attempt hq, perform_eq_attempt hq]
  simp only [attempt, firstStop_congr hv ha]
  rcases firstStop q.undo m' q.sops with _ | ⟨_, _ | _ | _⟩ <;> rfl

/-! ## Serving and dropping the lock -/

/-- A section, after its writes. -/
def Sec (c₁ c₃ : Ctx) : Prop :=
  ∃ L c₂, Served c₁ L c₂ ∧ Asleep c₂ ∧ Moved c₂ c₃ ∧ Unlocked c₃

theorem Sec.listId (h : Sec c₁ c₃) : c₃.listId = c₁.listId := by
  obtain ⟨L, c₂, hs, -, hm, -⟩ := h
  rw [hm.listId, hs.listId]

/-- The mode of the lock does not matter to the invariant. -/
theorem Wf.setLock (hw : Wf c) (b : UInt32) : Wf { c with useGlobalLock := b } :=
  ⟨hw.ranges, hw.entry, hw.count, hw.split, hw.nodup⟩

theorem Asleep.setLock (ha : Asleep c) (b : UInt32) : Asleep { c with useGlobalLock := b } :=
  ⟨ha.const, ha.alter⟩

/-- Complex operations can only complete. -/
theorem Served.simple {L : List (SemQueue × ℤ)} (h : Served c L c') (hw : Wf c)
    (h0 : c.complexCount = 0 ∧ c.pending .alter = []) :
    c'.complexCount = 0 ∧ c'.pending .alter = [] := by
  have h1 := h.complex
  have h2 := (h.wf hw).count
  exact ⟨by omega, List.sublist_nil.1 (h0.2 ▸ h.sublist .alter)⟩

/-- After serving, the lock that `semLock` has taken is dropped. -/
theorem sec_unlock {L : List (SemQueue × ℤ)} (locknum : Option ℕ) (hw : Wf c₁)
    (hs : Served c₁ L c₂) (ha : Asleep c₂)
    (hlock : ∀ i, locknum = some i → c₁.complexCount = 0 ∧ c₁.pending .alter = [])
    (hglob : locknum = none → c₁.useGlobalLock ≠ 0) : Sec c₁ (semUnlock c₂ locknum) := by
  obtain ⟨hm, hu⟩ := semUnlock_spec (hs.wf hw) locknum (fun i hi => hs.simple hw (hlock i hi))
    fun hn h0 => absurd (hs.lock ▸ h0) (hglob hn)
  exact ⟨L, c₂, hs, ha, hm, hu⟩

theorem enter_ne_zero : (complexmodeEnter c).useGlobalLock ≠ 0 := by
  simp [complexmodeEnter, USE_GLOBAL_LOCK_HYSTERESIS]

/-- Taking and dropping the lock. -/
theorem idle_sec (hw : Wf c) (ha : Asleep c) (hu : Unlocked c) (sops : List Sembuf) :
    ∃ b, Sec { c with useGlobalLock := b } (semUnlock (semLock c sops).1 (semLock c sops).2) := by
  obtain ⟨⟨b, hb⟩, h1, h2⟩ := semLock_spec hu sops
  rw [hb] at h2 ⊢
  exact ⟨b, sec_unlock _ (hw.setLock b) Served.refl (ha.setLock b) (fun i hi => (h1 i hi).2) h2⟩

/-- **Sections that update everything**, whatever has been written. -/
theorem update_sec (hw : Wf c₁) (hl : c₁.useGlobalLock ≠ 0) :
    Sec c₁ (semUnlock (doSmartUpdate c₁ none) none) := by
  obtain ⟨⟨L, hL⟩, ha⟩ := doSmartUpdate_spec hw none
    (fun k _ q hq => by
      -- some semaphore of `q` is zero or it is not
      obtain ⟨s, hs⟩ := List.exists_mem_of_ne_nil _ (hw.entry k q hq).1.ne
      by_cases h0 : c₁.semval s.semNum = 0
      · exact .inr ⟨s, hs, List.mem_range.2 ((hw.entry k q hq).1.lt s hs), h0⟩
      · exact .inl ⟨s, hs, h0⟩)
    (fun i q hq => .inr (List.mem_range.2 (mem_heads_semAlter.1 (hw.mem_heads hq))))
  exact sec_unlock _ hw hL ha (by simp) fun _ => hl

/-! ## `semop` -/

section
variable (hw : Wf c) (ha : Asleep c) (hu : Unlocked c) (he : Entry c.semNsems c.listId q)
include hw ha hu he

/-- **`semop` returns.**  The vector has completed or failed, and what could
    complete because of it has. -/
theorem semop_sec (h : ¬Stuck c.mem q) : ∃ b,
    Sec { c.setMem (attempt q.undo c.mem q.sops).state with useGlobalLock := b } (doSemop c q).1 ∧
    Wf { c.setMem (attempt q.undo c.mem q.sops).state with useGlobalLock := b } ∧
    (doSemop c q).2 = (attempt q.undo c.mem q.sops).result := by
  obtain ⟨⟨b, hb⟩, h1, h2⟩ := semLock_spec hu q.sops
  have hperf : performAtomicSemop c.mem q = attempt q.undo c.mem q.sops :=
    perform_eq_attempt he.scanned
  rw [Stuck, hperf] at h
  have hmem : (semLock c q.sops).1.mem = c.mem := by rw [hb]; rfl
  have hset : ∀ m, (semLock c q.sops).1.setMem m = { c.setMem m with useGlobalLock := b } := by
    intro m; rw [hb]; rfl
  have hw₁ : Wf { c.setMem (attempt q.undo c.mem q.sops).state with useGlobalLock := b } :=
    ⟨attempt_ranges hw.ranges, hw.entry, hw.count, hw.split, hw.nodup⟩
  rw [hb] at h2
  refine ⟨b, ?_, hw₁, ?_⟩
  · unfold doSemop
    simp only [hmem, hperf, hset]
    by_cases h0 : (attempt q.undo c.mem q.sops).result = 0
    · rw [if_pos h0]
      by_cases halt : q.alter = true
      · rw [if_pos halt]
        obtain ⟨⟨L, hL⟩, ha₂⟩ := doSmartUpdate_spec hw₁ (some q.sops)
          (fun k hk x hx => nonzero_or_touched (attempt_untouched h0) (ha.const k hk x hx))
          (fun i x hx => by
            by_cases hi : i ∈ raised c.semNsems (some q.sops)
            · exact .inr hi
            · -- the value has not grown
              left
              have hst := (hw.stuck_semAlter hx c.mem).1 (ha.alter (.semAlter i) (fun h => h) x hx)
              have hle : opSum q.sops i ≤ 0 := opSum_nonpos fun s hs hsi => by
                by_contra hop
                exact hi (List.mem_map.2 ⟨s, List.mem_filter.2 ⟨hs, by simpa using hop⟩, hsi⟩)
              rw [hw₁.stuck_semAlter hx]
              change (attempt q.undo c.mem q.sops).state.semval i + _ < 0
              rw [attempt_semval h0]
              omega)
        exact sec_unlock _ hw₁ hL ha₂ (fun i hi => (h1 i hi).2) h2
      · -- a vector of wait-for-zero operations has changed nothing
        rw [if_neg halt]
        have hz := (zero_attempt q.undo hw.ranges (he.scanned.zero (by simpa using halt))).1
        rw [hz]
        exact sec_unlock _ (hw.setLock b) Served.refl (ha.setLock b) (fun i hi => (h1 i hi).2) h2
    · have hneg : (attempt q.undo c.mem q.sops).result < 0 := by omega
      rw [if_neg h0, if_pos hneg, attempt_fail h0]
      exact sec_unlock _ (hw.setLock b) Served.refl (ha.setLock b) (fun i hi => (h1 i hi).2) h2
  · unfold doSemop
    simp only [hmem, hperf]
    by_cases h0 : (attempt q.undo c.mem q.sops).result = 0
    · rw [if_pos h0, h0]
    · rw [if_neg h0, if_pos (by omega)]

/-- **`semop` sleeps.**  The entry joins the queues. -/
theorem semop_sleep (h : Stuck c.mem q) : ∃ b c₂,
    Joined { c with useGlobalLock := b } q c₂ ∧ Moved c₂ (doSemop c q).1 ∧
    Unlocked (doSemop c q).1 ∧ (doSemop c q).2 = (attempt q.undo c.mem q.sops).result ∧
    0 < (attempt q.undo c.mem q.sops).result := by
  obtain ⟨⟨b, hb⟩, h1, h2⟩ := semLock_spec hu q.sops
  have hperf : performAtomicSemop c.mem q = attempt q.undo c.mem q.sops :=
    perform_eq_attempt he.scanned
  have hpos : 0 < (attempt q.undo c.mem q.sops).result := by rwa [Stuck, hperf] at h
  have hmem : (semLock c q.sops).1.mem = c.mem := by rw [hb]; rfl
  have hset : (semLock c q.sops).1.setMem c.mem = { c with useGlobalLock := b } := by rw [hb]; rfl
  rw [hb] at h2
  have hj : Joined { c with useGlobalLock := b } q (enqueue { c with useGlobalLock := b } q) :=
    enqueue_spec (hw.setLock b) (ha.setLock b) hu.quiet he h
  obtain ⟨hm, hu₃⟩ := semUnlock_spec hj.wf (semLock c q.sops).2
    (fun i hi => by
      obtain ⟨⟨s, hs⟩, h0, hnil⟩ := h1 i hi
      unfold enqueue
      simp only [hs, h0, ne_eq, not_true_eq_false, if_false]
      split <;> exact ⟨rfl, hnil⟩)
    (fun hn h0 => absurd (hj.lock ▸ h0) (h2 hn))
  have hdo : doSemop c q = (semUnlock (enqueue { c with useGlobalLock := b } q)
      (semLock c q.sops).2, (attempt q.undo c.mem q.sops).result) := by
    unfold doSemop
    simp only [hmem, hperf]
    rw [if_neg hpos.ne', if_neg (by omega), attempt_fail hpos.ne', hset]
  rw [hdo]
  exact ⟨b, _, hj, hm, hu₃, rfl, hpos⟩

end

/-! ## Leaving the queue -/

/-- **A sleeper leaves.** -/
theorem dequeue_spec (hw : Wf c) (ha : Asleep c) (hu : Unlocked c) (hq : q ∈ c.pending k)
    (h1 : queued c.semNsems c.pending (fun x => x.sleeper = q.sleeper) ≤ 1) : ∃ b,
    Moved { unlinked c q with useGlobalLock := b } (dequeue c q true) ∧
    Unlocked (dequeue c q true) ∧ Wf (unlinked c q) ∧ Asleep (unlinked c q) := by
  obtain ⟨⟨b, hb⟩, hl, hg⟩ := semLock_spec hu q.sops
  obtain ⟨hw₁, ha₁⟩ := unlink_spec hw ha hq h1
  have hdq : dequeue c q true =
      semUnlock { unlinked c q with useGlobalLock := b } (semLock c q.sops).2 := by
    unfold dequeue
    rcases hsl : semLock c q.sops with ⟨c', locknum⟩
    obtain rfl : c' = _ := (congrArg Prod.fst hsl).symm.trans hb
    rfl
  rw [hb] at hg
  rw [hdq]
  obtain ⟨hm, hu₃⟩ := semUnlock_spec (hw₁.setLock b) (semLock c q.sops).2
    (fun i hi => by
      obtain ⟨⟨s, hs⟩, h0, hnil⟩ := hl i hi
      simp [unlinked, hs, h0, hnil])
    (fun hn h0 => absurd h0 (hg hn))
  exact ⟨b, hm, hu₃, hw₁, ha₁⟩

/-! ## What the other sections write -/

/-- A new undo structure without adjustments. -/
theorem link_wf (hw : Wf c) (ha : Asleep c) {u : ℕ} (hu : u ∉ c.listId) (b : UInt32) :
    let c₁ := { c with
      listId := u :: c.listId
      semadj := Function.update c.semadj u fun _ => 0
      useGlobalLock := b }
    Wf c₁ ∧ Asleep c₁ := by
  have hadj : ∀ v i, v ∈ c.listId →
      Function.update c.semadj u (fun _ => 0) v i = c.semadj v i := by
    intro v i hv
    have hne : v ≠ u := by rintro rfl; exact hu hv
    rw [Function.update_of_ne hne]
  refine ⟨⟨⟨hw.ranges.val, fun v i => ?_⟩, fun k q hq => ?_, hw.count, hw.split,
    List.nodup_cons.2 ⟨hu, hw.nodup⟩⟩, ⟨ha.const, fun k hk q hq => ?_⟩⟩
  · change _ ≤ Function.update c.semadj u (fun _ => 0) v i ∧
      Function.update c.semadj u (fun _ => 0) v i ≤ _
    by_cases hv : v = u
    · subst hv; simp [SEMAEM, SEMVMX]
    · rw [Function.update_of_ne hv]; exact hw.ranges.adj v i
  · obtain ⟨he, hf⟩ := hw.entry k q hq
    exact ⟨⟨he.ne, he.lt, he.scanned, fun v hv => List.mem_cons_of_mem _ (he.own v hv),
      he.carries⟩, hf⟩
  · obtain ⟨he, -⟩ := hw.entry k q hq
    -- no entry uses the new structure
    refine (stuck_congr he.scanned ?_ fun i => ?_).1 (ha.alter k hk q hq)
    · rfl
    rcases hun : q.undo with _ | v
    · rfl
    · exact (hadj v i (he.own v hun)).symm

/-- `SETVAL`, with a value in range. -/
theorem setval_wf (hw : Wf c) {n : ℕ} {v : ℤ} (hv : 0 ≤ v ∧ v ≤ SEMVMX) :
    Wf (setvalWrites c n v) := by
  refine ⟨⟨fun i => ?_, fun u i => ?_⟩, hw.entry, hw.count, hw.split, hw.nodup⟩
  · change 0 ≤ Function.update c.semval n v i ∧ Function.update c.semval n v i ≤ _
    by_cases hi : i = n
    · subst hi; simpa using hv
    · rw [Function.update_of_ne hi]; exact hw.ranges.val i
  · change _ ≤ (if _ then (0 : ℤ) else _) ∧ (if _ then (0 : ℤ) else _) ≤ _
    split
    · simp [SEMAEM, SEMVMX]
    · exact hw.ranges.adj u i

/-- `SETALL`, with values in range. -/
theorem setall_wf (hw : Wf c) {semIo : ℕ → ℕ} (hv : ∀ i < c.semNsems, semIo i ≤ SEMVMX) :
    Wf (setallWrites c semIo) := by
  refine ⟨⟨fun i => ?_, fun u i => ?_⟩, hw.entry, hw.count, hw.split, hw.nodup⟩
  · change 0 ≤ (if i < c.semNsems then (semIo i : ℤ) else c.semval i) ∧
      (if i < c.semNsems then (semIo i : ℤ) else c.semval i) ≤ SEMVMX
    split
    · next hi => exact ⟨Int.natCast_nonneg _, hv i hi⟩
    · exact hw.ranges.val i
  · change _ ≤ (if _ then (0 : ℤ) else _) ∧ (if _ then (0 : ℤ) else _) ≤ _
    split
    · simp [SEMAEM, SEMVMX]
    · exact hw.ranges.adj u i

/-- The value at exit is the value plus the adjustment, capped at both ends. -/
theorem undoVal_eq {v a : ℤ} (hv : 0 ≤ v ∧ v ≤ SEMVMX) :
    undoVal v a = max 0 (min SEMVMX (v + a)) := by
  unfold undoVal
  dsimp only
  simp only [SEMVMX] at hv ⊢
  split_ifs <;> omega

/-- Exit, for an undo structure that no queued entry uses. -/
theorem exit_wf (hw : Wf c) {u : ℕ} (hu : ∀ k, ∀ q ∈ c.pending k, q.undo ≠ some u) :
    Wf (exitWrites c u) := by
  refine ⟨⟨fun i => ?_, hw.ranges.adj⟩, fun k q hq => ?_, hw.count, hw.split, hw.nodup.erase u⟩
  · change 0 ≤ (if i < c.semNsems then undoVal (c.semval i) (c.semadj u i) else c.semval i) ∧
      (if i < c.semNsems then undoVal (c.semval i) (c.semadj u i) else c.semval i) ≤ SEMVMX
    split
    · have hv : 0 ≤ c.semval i ∧ c.semval i ≤ SEMVMX := hw.ranges.val i
      rw [undoVal_eq hv]
      simp only [SEMVMX]
      omega
    · exact hw.ranges.val i
  · obtain ⟨he, hf⟩ := hw.entry k q hq
    refine ⟨⟨he.ne, he.lt, he.scanned, fun v hv => ?_, he.carries⟩, hf⟩
    refine (List.mem_erase_of_ne ?_).2 (he.own v hv)
    rintro rfl
    exact hu k q hq hv

end DroidLkm.Sem
