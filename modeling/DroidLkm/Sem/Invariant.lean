/-
  SysV semaphores — the invariant of one array.

  * `Inv`: the array is well formed, everybody who is queued has a reason to
    sleep, the queued entries are those of the sleepers, and a sleeper's undo
    structure is its own;
  * `section_inv`: a section that changes values and adjustments, serves
    entries and drops the lock keeps it;
  * `step_inv`: so does every step.
-/
import DroidLkm.Sem.Sections

namespace DroidLkm.Sem

variable {c c' c₁ c₂ c₃ : Ctx} {m m' : SemState} {k : Head} {q : SemQueue} {s : State} {t : ℕ}

/-! ## Preliminaries -/

theorem attempt_ne_EINTR {un : Option ℕ} {sops : List Sembuf} :
    (attempt un m sops).result ≠ -EINTR := by
  rcases h : firstStop un m sops with _ | ⟨s, v⟩
  · rw [attempt_ok_iff.2 h]; decide
  · rw [(attempt_stop h).1, blockCode]; split_ifs <;> decide

theorem Performed.ne_EINTR {L : List (SemQueue × ℤ)} (h : Performed m L m') :
    ∀ e ∈ L, e.2 ≠ -EINTR := by
  induction L generalizing m with
  | nil => simp
  | cons e L ih =>
    intro x hx
    rcases List.mem_cons.1 hx with rfl | hx
    · exact h.1 ▸ attempt_ne_EINTR
    · exact ih h.2.2 x hx

theorem wakeUpQ_of_not_mem (phase : ℕ → Phase) {wq : List (SemQueue × ℤ)}
    (h : ∀ e ∈ wq, e.1.sleeper ≠ t) : State.wakeUpQ phase wq t = phase t := by
  induction wq generalizing phase with
  | nil => rfl
  | cons e wq ih =>
    have := ih (Function.update phase e.1.sleeper (.sleeping e.1 e.2))
      fun x hx => h x (List.mem_cons_of_mem _ hx)
    rw [Function.update_of_ne (h e List.mem_cons_self).symm] at this
    exact this

theorem wakeUpQ_of_mem (phase : ℕ → Phase) {wq : List (SemQueue × ℤ)}
    (h : ∃ e ∈ wq, e.1.sleeper = t) : ∃ e ∈ wq, e.1.sleeper = t ∧
      State.wakeUpQ phase wq t = .sleeping e.1 e.2 := by
  induction wq generalizing phase with
  | nil => simp at h
  | cons e wq ih =>
    by_cases hw : ∃ x ∈ wq, x.1.sleeper = t
    · obtain ⟨x, hx, hxt, hph⟩ := ih (Function.update phase e.1.sleeper
        (.sleeping e.1 e.2)) hw
      exact ⟨x, List.mem_cons_of_mem _ hx, hxt, hph⟩
    · obtain ⟨x, hx, hxt⟩ := h
      obtain rfl : x = e := (List.mem_cons.1 hx).resolve_right fun hx => hw ⟨x, hx, hxt⟩
      refine ⟨x, List.mem_cons_self, hxt, ?_⟩
      have := wakeUpQ_of_not_mem (t := t) (Function.update phase x.1.sleeper
        (.sleeping x.1 x.2)) fun y hy he => hw ⟨y, hy, he⟩
      rw [hxt, Function.update_self] at this
      subst hxt
      exact this

/-! ## The invariant -/

/-- The invariant between two sections. -/
structure Inv (s : State) : Prop where
  wf : Wf s.ctx
  unlocked : Unlocked s.ctx
  /-- everything that is queued has a reason to sleep -/
  asleep : Asleep s.ctx
  /-- an entry is queued by a task that sleeps on it -/
  sleeper : ∀ k, ∀ q ∈ s.array.pending k, s.phase q.sleeper = .sleeping q (-EINTR)
  /-- the entry of a sleeper that has not been served is queued -/
  waiting : ∀ t q, s.phase t = .sleeping q (-EINTR) → q.sleeper = t ∧ ∃ k, q ∈ s.array.pending k
  /-- no task is queued twice -/
  once : ∀ t, queued s.array.semNsems s.array.pending (fun q => q.sleeper = t) ≤ 1
  /-- the undo structure of an entry is its sleeper's -/
  owner : ∀ k, ∀ q ∈ s.array.pending k, ∀ u, q.undo = some u → s.undoOf q.sleeper = some u
  linked : ∀ t u, s.undoOf t = some u → u ∈ s.array.listId
  inj : ∀ t t' u, s.undoOf t = some u → s.undoOf t' = some u → t = t'
  fresh : ∀ u ∈ s.array.listId, u < s.nextUndo

@[simp] theorem setPhase_phase {p : Phase} :
    (s.setPhase t p).phase = Function.update s.phase t p := rfl

@[simp] theorem init_pending (n : ℕ) : (State.init n).array.pending k = [] := by
  cases k <;> rfl

/-- A new array satisfies the invariant. -/
theorem init_inv (n : ℕ) : Inv (State.init n) := by
  have hnil : ∀ k, (State.init n).ctx.pending k = [] := fun _ => init_pending n
  have hcount : ∀ p, queued n (State.init n).array.pending p = 0 := by simp [queued]
  refine ⟨⟨⟨fun _ => ?_, fun _ _ => ?_⟩, fun k q hq => ?_, ?_, fun _ i => hnil _, List.nodup_nil⟩,
    ⟨fun _ => hnil _, fun _ => rfl⟩, ⟨fun k _ q hq => ?_, fun k _ q hq => ?_⟩, fun k q hq => ?_,
    fun t q h => ?_, fun t => ?_, fun k q hq => ?_, fun t u h => ?_, fun t t' u h => ?_,
    fun u h => ?_⟩
  · exact ⟨le_rfl, show (0 : ℤ) ≤ SEMVMX by decide⟩
  · exact ⟨show -SEMAEM - 1 ≤ 0 by decide, show (0 : ℤ) ≤ SEMAEM by decide⟩
  · simp [hnil] at hq
  · exact (congrArg Nat.cast (hcount _)).symm
  · simp [hnil] at hq
  · simp [hnil] at hq
  · simp at hq
  · cases h
  · exact (hcount _).le.trans (by decide)
  · simp at hq
  · cases h
  · cases h
  · cases h

/-- A task that is not queued may go to another phase outside the queues. -/
theorem inv_setPhase (hi : Inv s) (ht : ∀ k, ∀ q ∈ s.array.pending k, q.sleeper ≠ t) (r : ℤ) :
    Inv (s.setPhase t (.user r)) where
  wf := hi.wf
  unlocked := hi.unlocked
  asleep := hi.asleep
  sleeper k q hq := by
    rw [setPhase_phase, Function.update_of_ne (ht k q hq)]
    exact hi.sleeper k q hq
  waiting t' q h := by
    by_cases he : t' = t
    · subst he; simp at h
    · rw [setPhase_phase, Function.update_of_ne he] at h
      exact hi.waiting t' q h
  once := hi.once
  owner := hi.owner
  linked := hi.linked
  inj := hi.inj
  fresh := hi.fresh

/-- A call that returns at once. -/
theorem inv_ret (hi : Inv s) (ht : ∀ k, ∀ q ∈ s.array.pending k, q.sleeper ≠ t) (r : ℤ) :
    Inv (s.ret t r) := by
  obtain ⟨h1, h2, h3, h4, h5, h6, h7, h8, h9, h10⟩ := inv_setPhase hi ht r
  exact ⟨h1, h2, h3, h4, h5, h6, h7, h8, h9, h10⟩

/-- A task outside the calls is not queued. -/
theorem Inv.not_queued (hi : Inv s) (ht : s.inUser t) :
    ∀ k, ∀ q ∈ s.array.pending k, q.sleeper ≠ t := by
  rintro k q hq rfl
  simp [State.inUser, hi.sleeper k q hq] at ht

/-! ## Sections -/

/-- **A section that serves.**  It starts from the queues of `s`, with values,
    adjustments and undo structures that may have changed (`c₁`), serves
    entries and drops the lock. -/
theorem section_inv (hi : Inv s) {undo' : ℕ → Option ℕ} {next' : ℕ}
    (hp : c₁.pending = s.array.pending) (hn : c₁.semNsems = s.array.semNsems)
    (hwq : c₁.wakeQ = []) (hw : Wf c₁) (hsec : Sec c₁ c₃)
    (howner : ∀ k, ∀ q ∈ s.array.pending k, ∀ u, q.undo = some u → undo' q.sleeper = some u)
    (hlinked : ∀ t u, undo' t = some u → u ∈ c₁.listId)
    (hinj : ∀ t t' u, undo' t = some u → undo' t' = some u → t = t')
    (hfresh : ∀ u ∈ c₁.listId, u < next') :
    Inv { s.commit c₃ with undoOf := undo', nextUndo := next' } := by
  obtain ⟨L, c₂, hserved, ha, hm, hu⟩ := hsec
  have hw₂ := hserved.wf hw
  obtain ⟨h1, h2, h3, h4, h5⟩ := hm.wf hw₂
  obtain ⟨hc, halt⟩ := hm.asleep ha
  obtain ⟨new, hnew, hperm⟩ := hserved.wakeQ
  have hwq₃ : c₃.wakeQ = new := by rw [hm.wakeQ, hnew, hwq, List.nil_append]
  -- what is queued at the end was queued at the start
  have hmem : ∀ k, ∀ q ∈ c₃.pending k, ∃ j, q ∈ c₂.pending j ∧ q ∈ s.array.pending j := by
    intro k q hq
    obtain ⟨-, j, -, hj⟩ := hm.entry k q hq
    exact ⟨j, hj, hp ▸ (hserved.sublist j).subset hj⟩
  -- and its sleeper has not been served
  have hnot : ∀ k, ∀ q ∈ c₃.pending k, ∀ e ∈ new, e.1.sleeper ≠ q.sleeper := by
    intro k q hq e he hse
    obtain ⟨j, hj, -⟩ := hmem k q hq
    have hcount := hserved.count fun x => x.sleeper = q.sleeper
    have hpos : 0 < queued c₁.semNsems c₂.pending fun x => x.sleeper = q.sleeper :=
      queued_pos.2 ⟨j, hserved.nsems ▸ hw₂.mem_heads hj, q, hj, by simp⟩
    have hL : 0 < L.countP fun x => decide (x.1.sleeper = q.sleeper) :=
      List.countP_pos_iff.2 ⟨e, hperm.subset he, by simpa using hse⟩
    have honce := hi.once q.sleeper
    rw [← hp, ← hn] at honce
    omega
  refine ⟨⟨h1, h2, h3, h4, h5⟩, ⟨hu.quiet, hu.mode⟩, ⟨hc, halt⟩, fun k q hq => ?_,
    fun t q h => ?_, fun t => ?_, fun k q hq u hqu => ?_, fun t u h => ?_, hinj, fun u hmemu => ?_⟩
  · obtain ⟨j, -, hj⟩ := hmem k q hq
    change State.wakeUpQ s.phase c₃.wakeQ q.sleeper = _
    rw [hwq₃, wakeUpQ_of_not_mem _ (hnot k q hq), hi.sleeper j q hj]
  · change State.wakeUpQ s.phase c₃.wakeQ t = _ at h
    rw [hwq₃] at h
    by_cases hex : ∃ e ∈ new, e.1.sleeper = t
    · -- it has been served, with another status
      obtain ⟨e, he, -, hph⟩ := wakeUpQ_of_mem s.phase hex
      rw [hph, Phase.sleeping.injEq] at h
      exact absurd h.2 (hserved.performed.ne_EINTR e (hperm.subset he))
    · rw [wakeUpQ_of_not_mem _ fun e he het => hex ⟨e, he, het⟩] at h
      obtain ⟨hqt, k, hk⟩ := hi.waiting t q h
      refine ⟨hqt, ?_⟩
      rw [← hp] at hk
      have h1 := hserved.count fun x => decide (x = q)
      have h2 := hm.queued fun x => decide (x = q)
      have hpos : 0 < queued c₁.semNsems c₁.pending fun x => decide (x = q) :=
        queued_pos.2 ⟨k, hw.mem_heads hk, q, hk, by simp⟩
      have hL : L.countP (fun e => decide (e.1 = q)) = 0 :=
        List.countP_eq_zero.2 fun e he hd =>
          hex ⟨e, hperm.symm.subset he, (of_decide_eq_true hd) ▸ hqt⟩
      rw [hserved.nsems] at h2
      have hpos₃ : 0 < queued c₁.semNsems c₃.pending fun x => decide (x = q) := by omega
      obtain ⟨j, -, x, hx, hxq⟩ := queued_pos.1 hpos₃
      exact ⟨j, of_decide_eq_true hxq ▸ hx⟩
  · change queued c₃.semNsems c₃.pending _ ≤ 1
    have h1 := hserved.count fun x => decide (x.sleeper = t)
    have h2 := hm.queued fun x => decide (x.sleeper = t)
    have honce := hi.once t
    rw [← hp, ← hn] at honce
    rw [hserved.nsems] at h2
    rw [hm.nsems, hserved.nsems]
    omega
  · obtain ⟨j, -, hj⟩ := hmem k q hq
    exact howner j q hj u hqu
  · change u ∈ c₃.listId
    rw [hm.listId, hserved.listId]
    exact hlinked t u h
  · change u ∈ c₃.listId at hmemu
    rw [hm.listId, hserved.listId] at hmemu
    exact hfresh u hmemu

/-- A section that leaves the undo structures as they are. -/
theorem section_inv_same (hi : Inv s) (hp : c₁.pending = s.array.pending)
    (hn : c₁.semNsems = s.array.semNsems) (hl : c₁.listId = s.array.listId)
    (hwq : c₁.wakeQ = []) (hw : Wf c₁) (hsec : Sec c₁ c₃) : Inv (s.commit c₃) :=
  section_inv hi hp hn hwq hw hsec hi.owner (hl ▸ hi.linked) hi.inj (hl ▸ hi.fresh)

/-- After a section, a task outside the calls is still not queued. -/
theorem commit_not_queued (hp : c₁.pending = s.array.pending) (hsec : Sec c₁ c₃)
    (ht : ∀ k, ∀ q ∈ s.array.pending k, q.sleeper ≠ t) :
    ∀ k, ∀ q ∈ (s.commit c₃).array.pending k, q.sleeper ≠ t := by
  obtain ⟨L, c₂, hserved, -, hm, -⟩ := hsec
  intro k q hq
  obtain ⟨-, j, -, hj⟩ := hm.entry k q hq
  exact ht j q (hp ▸ (hserved.sublist j).subset hj)

/-- **A section that queues** the task `t`. -/
theorem sleep_inv (hi : Inv s) (ht : s.inUser t) {b : UInt32} (hqt : q.sleeper = t)
    (hown : ∀ u, q.undo = some u → s.undoOf t = some u)
    (hj : Joined { s.ctx with useGlobalLock := b } q c₂) (hm : Moved c₂ c₃) (hu : Unlocked c₃) :
    Inv ((s.commit c₃).setPhase t (.sleeping q (-EINTR))) := by
  have hwq : c₃.wakeQ = [] := by rw [hm.wakeQ, hj.wakeQ]; rfl
  have hphase : (s.commit c₃).phase = s.phase := by
    change State.wakeUpQ s.phase c₃.wakeQ = _
    rw [hwq]; rfl
  obtain ⟨h1, h2, h3, h4, h5⟩ := hm.wf hj.wf
  obtain ⟨hc, halt⟩ := hm.asleep hj.asleep
  have hcount : ∀ p : SemQueue → Bool, queued s.array.semNsems c₃.pending p =
      queued s.array.semNsems s.array.pending p + if p q then 1 else 0 := fun p => by
    have := hm.queued p
    rw [hj.nsems] at this
    exact this.trans (hj.queued p)
  have hnsems : c₃.semNsems = s.array.semNsems := hm.nsems.trans hj.nsems
  have hmem : ∀ k, ∀ x ∈ c₃.pending k, x = q ∨ ∃ j, x ∈ s.array.pending j := by
    intro k x hx
    obtain ⟨-, j, -, hxj⟩ := hm.entry k x hx
    exact hj.entry j x hxj
  -- what is queued at the start still is, and `q` is queued
  have hkeep : ∀ x, (x = q ∨ ∃ j, x ∈ s.array.pending j) → ∃ k, x ∈ c₃.pending k := by
    intro x hx
    have hpos : 0 < queued s.array.semNsems c₃.pending fun y => decide (y = x) := by
      rw [hcount]
      rcases hx with rfl | ⟨j, hxj⟩
      · simp
      · have : 0 < queued s.array.semNsems s.array.pending fun y => decide (y = x) :=
          queued_pos.2 ⟨j, hi.wf.mem_heads hxj, x, hxj, by simp⟩
        omega
    obtain ⟨k, -, y, hy, hyx⟩ := queued_pos.1 hpos
    exact ⟨k, of_decide_eq_true hyx ▸ hy⟩
  have hnq := hi.not_queued ht
  refine ⟨⟨h1, h2, h3, h4, h5⟩, ⟨hu.quiet, hu.mode⟩, ⟨hc, halt⟩, fun k x hx => ?_,
    fun t' x h => ?_, fun t' => ?_, fun k x hx u hxu => ?_, fun t' u h => ?_, hi.inj,
    fun u hmemu => ?_⟩
  · rw [setPhase_phase, hphase]
    rcases hmem k x hx with rfl | ⟨j, hxj⟩
    · rw [hqt, Function.update_self]
    · rw [Function.update_of_ne (hnq j x hxj), hi.sleeper j x hxj]
  · rw [setPhase_phase, hphase] at h
    by_cases he : t' = t
    · subst he
      rw [Function.update_self, Phase.sleeping.injEq] at h
      obtain rfl := h.1
      exact ⟨hqt, hkeep q (.inl rfl)⟩
    · rw [Function.update_of_ne he] at h
      obtain ⟨hxt, hk⟩ := hi.waiting t' x h
      exact ⟨hxt, hkeep x (.inr hk)⟩
  · change queued c₃.semNsems c₃.pending _ ≤ 1
    rw [hnsems, hcount]
    by_cases he : q.sleeper = t'
    · -- `t` was not queued before
      have h0 : queued s.array.semNsems s.array.pending (fun x => x.sleeper = t') = 0 := by
        by_contra hne
        obtain ⟨k, -, x, hx, hxt⟩ := queued_pos.1 (Nat.pos_of_ne_zero hne)
        exact hnq k x hx ((of_decide_eq_true hxt).trans (he.symm.trans hqt))
      simp [h0, he]
    · simpa [he] using hi.once t'
  · rcases hmem k x hx with rfl | ⟨j, hxj⟩
    · exact hqt ▸ hown u hxu
    · exact hi.owner j x hxj u hxu
  · change u ∈ c₃.listId
    rw [hm.listId, hj.listId]
    exact hi.linked t' u h
  · change u ∈ c₃.listId at hmemu
    rw [hm.listId, hj.listId] at hmemu
    exact hi.fresh u hmemu

/-- **A sleeper leaves** without having been served. -/
theorem leave_inv (hi : Inv s) (hph : s.phase t = .sleeping q (-EINTR)) (r : ℤ) :
    Inv ((s.commit (dequeue s.ctx q true)).setPhase t (.user r)) := by
  obtain ⟨hqt, k, hk⟩ := hi.waiting t q hph
  obtain ⟨b, hm, hu, hw, ha⟩ := dequeue_spec hi.wf hi.asleep hi.unlocked hk (hi.once q.sleeper)
  generalize dequeue s.ctx q true = c₃ at hm hu ⊢
  have hwq : c₃.wakeQ = [] := hm.wakeQ
  have hphase : (s.commit c₃).phase = s.phase := by
    change State.wakeUpQ s.phase c₃.wakeQ = _
    rw [hwq]; rfl
  obtain ⟨h1, h2, h3, h4, h5⟩ := hm.wf (hw.setLock b)
  obtain ⟨hc, halt⟩ := hm.asleep (ha.setLock b)
  have hnsems : c₃.semNsems = s.array.semNsems := hm.nsems
  have hcount : ∀ p : SemQueue → Bool, queued s.array.semNsems c₃.pending p +
      (if p q then 1 else 0) = queued s.array.semNsems s.array.pending p := fun p => by
    have h1 := hm.queued p
    have h2 := unlinked_queued hi.wf hk (hi.once q.sleeper) p
    change queued s.array.semNsems c₃.pending p = queued s.array.semNsems (unlinked s.ctx q).pending p
      at h1
    change queued s.array.semNsems (unlinked s.ctx q).pending p + _ =
      queued s.array.semNsems s.array.pending p at h2
    omega
  have hmem : ∀ k, ∀ x ∈ c₃.pending k, x.sleeper ≠ t ∧ ∃ j, x ∈ s.array.pending j := by
    intro k x hx
    obtain ⟨-, j, -, hxj⟩ := hm.entry k x hx
    refine ⟨fun hxt => ?_, j, unlinked_sublist.subset hxj⟩
    have hpos : 0 < queued s.array.semNsems c₃.pending fun y => y.sleeper = t :=
      queued_pos.2 ⟨k, hnsems ▸ (hm.wf (hw.setLock b)).mem_heads hx, x, hx, by simpa using hxt⟩
    have hcnt := hcount fun y => y.sleeper = t
    have honce := hi.once t
    rw [if_pos (by simpa using hqt)] at hcnt
    omega
  refine ⟨⟨h1, h2, h3, h4, h5⟩, ⟨hu.quiet, hu.mode⟩, ⟨hc, halt⟩, fun k x hx => ?_,
    fun t' x h => ?_, fun t' => ?_, fun k x hx u hxu => ?_, fun t' u h => ?_, hi.inj,
    fun u hmemu => ?_⟩
  · obtain ⟨hne, j, hxj⟩ := hmem k x hx
    rw [setPhase_phase, hphase, Function.update_of_ne hne, hi.sleeper j x hxj]
  · rw [setPhase_phase, hphase] at h
    by_cases he : t' = t
    · subst he; simp at h
    · rw [Function.update_of_ne he] at h
      obtain ⟨hxt, j, hxj⟩ := hi.waiting t' x h
      refine ⟨hxt, ?_⟩
      have hne : ¬q = x := fun hqx => he (hxt.symm.trans (hqx ▸ hqt))
      have hpos : 0 < queued s.array.semNsems s.array.pending fun y => decide (y = x) :=
        queued_pos.2 ⟨j, hi.wf.mem_heads hxj, x, hxj, by simp⟩
      have hcnt := hcount fun y => decide (y = x)
      rw [if_neg (by simpa using hne)] at hcnt
      have hpos₃ : 0 < queued s.array.semNsems c₃.pending fun y => decide (y = x) := by omega
      obtain ⟨k, -, y, hy, hyx⟩ := queued_pos.1 hpos₃
      exact ⟨k, of_decide_eq_true hyx ▸ hy⟩
  · change queued c₃.semNsems c₃.pending _ ≤ 1
    have hcnt := hcount fun y => y.sleeper = t'
    have honce := hi.once t'
    rw [hnsems]
    omega
  · obtain ⟨-, j, hxj⟩ := hmem k x hx
    exact hi.owner j x hxj u hxu
  · change u ∈ c₃.listId
    rw [hm.listId]
    exact hi.linked t' u h
  · change u ∈ c₃.listId at hmemu
    rw [hm.listId] at hmemu
    exact hi.fresh u hmemu

end DroidLkm.Sem
