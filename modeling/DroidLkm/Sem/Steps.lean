/-
  SysV semaphores — runs of one array.

  * `Writes`: what a step is meant to do to the values, the adjustments and
    the undo structures, before any operation completes because of it;
  * `Ledger`: vectors that complete one after the other, each changing a
    value plus its adjustments by its operations without `SEM_UNDO`;
  * `step_spec`: every step keeps the invariant, and does what it is meant to
    do followed by the vectors it completes;
  * `no_lost_wakeup`, `undo_conservation`: the two results over runs.
-/
import DroidLkm.Sem.Invariant

namespace DroidLkm.Sem

open Machine

variable {s t : State} {m m' : SemState} {a : Act} {n : ℕ}

/-- The values and adjustments in a state. -/
def State.mem (s : State) : SemState := s.ctx.mem

/-! ## What steps are meant to do -/

/-- The values, adjustments and undo structures `m`, `l` after the writes of a
    step: `SETVAL` and `SETALL` set values and clear the adjustments of every
    task for the semaphores they set; exit removes the task's entry and adds
    its adjustments to the values, capped at both ends; a first `SEM_UNDO`
    makes an entry without adjustments; the other steps write nothing of their
    own. -/
def Writes (s : State) (m : SemState) (l : List ℕ) : Act → Prop
  | .setval _ semnum val =>
    l = s.array.listId ∧
    if 0 ≤ val ∧ val ≤ SEMVMX ∧ 0 ≤ semnum ∧ semnum < s.array.semNsems then
      (∀ i : ℕ, m.semval i = if i = semnum then val else s.mem.semval i) ∧
      ∀ u ∈ l, ∀ i : ℕ, m.semadj u i = if i = semnum then 0 else s.mem.semadj u i
    else m = s.mem
  | .setall _ semIo =>
    l = s.array.listId ∧
    if ∀ i < s.array.semNsems, semIo i ≤ SEMVMX then
      ∀ i < s.array.semNsems, m.semval i = semIo i ∧ ∀ u ∈ l, m.semadj u i = 0
    else m = s.mem
  | .exitSem task =>
    match s.undoOf task with
    | some u =>
      l = s.array.listId.erase u ∧ u ∉ l ∧
      (∀ i < s.array.semNsems,
        m.semval i = max 0 (min SEMVMX (s.mem.semval i + s.mem.semadj u i))) ∧
      ∀ v ∈ l, m.semadj v = s.mem.semadj v
    | none => l = s.array.listId ∧ m = s.mem
  | .findAllocUndo task =>
    match s.undoOf task with
    | some _ => l = s.array.listId ∧ m = s.mem
    | none =>
      l = s.nextUndo :: s.array.listId ∧ m.semval = s.mem.semval ∧
      (∀ i, m.semadj s.nextUndo i = 0) ∧ ∀ v ∈ s.array.listId, m.semadj v = s.mem.semadj v
  | _ => l = s.array.listId ∧ m = s.mem

/-- The vectors a step has completed: those in its wake queue, and the one of
    the call itself when it returns `0`. -/
def Served.By (a : Act) (t : State) (L : List (SemQueue × ℤ)) : Prop :=
  match a with
  | .semtimedop task sops =>
    if t.phase task = .user 0 then ∃ q : SemQueue, q.sops = sops ∧ L.Perm ((q, 0) :: t.wakeQ)
    else L.Perm t.wakeQ
  | _ => L.Perm t.wakeQ

/-- The entries of `L` leave the queues one after the other: one that completes
    changes each value plus the adjustments of `l` by its operations without
    `SEM_UNDO`, one that fails changes nothing. -/
def Ledger (l : List ℕ) : SemState → List (SemQueue × ℤ) → SemState → Prop
  | m, [], m' => m' = m
  | m, (q, r) :: L, m' => ∃ m₁,
    (if r = 0 then ∀ i, total m₁ l i = total m l i + plainSum q.sops i else m₁ = m) ∧
    Ledger l m₁ L m'

theorem Performed.ledger {L : List (SemQueue × ℤ)} {l : List ℕ} (h : Performed m L m')
    (hl : l.Nodup) (hu : ∀ e ∈ L, UndoIn e.1.undo e.1.sops l) : Ledger l m L m' := by
  induction L generalizing m with
  | nil => exact h
  | cons e L ih =>
    obtain ⟨hr, -, h⟩ := h
    refine ⟨_, ?_, ih h fun x hx => hu x (List.mem_cons_of_mem _ hx)⟩
    split
    · next h0 => exact fun i => attempt_total hl (hu e List.mem_cons_self) (hr.trans h0)
    · next h0 => exact attempt_fail fun he => h0 (hr ▸ he)

/-- What a step has done. -/
def Effect (s : State) (a : Act) (t : State) : Prop :=
  ∃ m L, Writes s m t.array.listId a ∧ Served.By a t L ∧ Ledger t.array.listId m L t.mem

/-! ## Steps -/

theorem Sec.ledger {c₁ c₃ : Ctx} (h : Sec c₁ c₃) (hw : Wf c₁) (hwq : c₁.wakeQ = []) :
    ∃ L, L.Perm c₃.wakeQ ∧ Ledger c₁.listId c₁.mem L c₃.mem := by
  obtain ⟨L, c₂, hs, -, hm, -⟩ := h
  obtain ⟨new, hnew, hperm⟩ := hs.wakeQ
  refine ⟨L, ?_, ?_⟩
  · rw [hm.wakeQ, hnew, hwq, List.nil_append]; exact hperm.symm
  · rw [hm.mem]
    refine hs.performed.ledger hw.nodup fun e he => ?_
    obtain ⟨k, hk⟩ := hs.mem he
    exact (hw.entry k _ hk).1.undo

/-- A section, with what it was meant to write. -/
theorem effect_of_sec {c₁ c₃ : Ctx} (hsec : Sec c₁ c₃) (hw : Wf c₁) (hwq : c₁.wakeQ = [])
    (hmem : t.mem = c₃.mem) (hl : t.array.listId = c₃.listId) (hwt : t.wakeQ = c₃.wakeQ)
    (hwr : Writes s c₁.mem c₁.listId a) (hby : ∀ L, L.Perm t.wakeQ → Served.By a t L) :
    Effect s a t := by
  obtain ⟨L, hperm, hled⟩ := hsec.ledger hw hwq
  refine ⟨c₁.mem, L, ?_, hby L (hwt ▸ hperm), ?_⟩
  · rw [hl, hsec.listId]; exact hwr
  · rw [hl, hsec.listId, hmem]; exact hled

/-- A step that touches neither the array nor the undo structures. -/
theorem effect_of_same (hc : t.ctx = s.ctx)
    (hwr : Writes s s.mem s.array.listId a) (hby : Served.By a t []) : Effect s a t := by
  have hl : t.array.listId = s.array.listId := congrArg (fun c : Ctx => c.listId) hc
  refine ⟨s.mem, [], hl ▸ hwr, hby, ?_⟩
  exact congrArg Ctx.mem hc

theorem inUser_of {task : ℕ} (h : ¬(!s.inUser task) = true) : s.inUser task = true := by
  simpa using h

/-- An entry as `__do_semtimedop` makes it. -/
theorem Inv.entry (hi : Inv s) {task : ℕ} {sops : List Sembuf} {un : Option ℕ}
    (hun : un = if (scanSops sops).undos then s.undoOf task else none)
    (hsome : ¬((scanSops sops).undos = true ∧ un.isNone = true)) (hne : sops ≠ [])
    (hmax : ¬s.array.semNsems ≤ (scanSops sops).max) :
    Entry s.array.semNsems s.array.listId ⟨task, un, sops, (scanSops sops).alter,
      (scanSops sops).dupsop⟩ := by
  refine ⟨hne, fun x hx => ?_, ⟨rfl, rfl⟩, fun u hu => ?_, fun hc hn => ?_⟩
  · exact (scan_max x hx).trans_lt (not_le.1 hmax)
  · rw [hun] at hu
    split at hu
    · exact hi.linked task u hu
    · cases hu
  · exact hsome ⟨scan_undos.2 hc, by simpa using hn⟩

theorem step_findAllocUndo (hi : Inv s) {task : ℕ} (h : step s (.findAllocUndo task) = some t) :
    Inv t ∧ Effect s (.findAllocUndo task) t := by
  simp only [step] at h
  split_ifs at h with hu
  rcases hun : s.undoOf task with _ | u
  · rw [hun, Option.some.injEq] at h
    subst h
    have hnew : s.nextUndo ∉ s.array.listId := fun hm => lt_irrefl _ (hi.fresh _ hm)
    obtain ⟨hw, ha⟩ := link_wf hi.wf hi.asleep hnew USE_GLOBAL_LOCK_HYSTERESIS
    have hsec := sec_unlock none hw Served.refl ha (by simp) fun _ =>
      enter_ne_zero (c := s.ctx)
    refine ⟨section_inv hi rfl rfl rfl hw hsec (fun k q hq v hv => ?_) (fun t' v hv => ?_)
      (fun t₁ t₂ v h1 h2 => ?_) (fun v hv => ?_), ?_⟩
    · rw [Function.update_of_ne (hi.not_queued hu k q hq)]
      exact hi.owner k q hq v hv
    · by_cases he : t' = task
      · subst he
        obtain rfl : s.nextUndo = v := by simpa using hv
        exact List.mem_cons_self
      · rw [Function.update_of_ne he] at hv
        exact List.mem_cons_of_mem _ (hi.linked t' v hv)
    · -- the new structure is nobody else's
      by_cases he₁ : t₁ = task <;> by_cases he₂ : t₂ = task
      · rw [he₁, he₂]
      · subst he₁
        rw [Function.update_of_ne he₂] at h2
        obtain rfl : s.nextUndo = v := by simpa using h1
        exact absurd (hi.linked t₂ _ h2) hnew
      · subst he₂
        rw [Function.update_of_ne he₁] at h1
        obtain rfl : s.nextUndo = v := by simpa using h2
        exact absurd (hi.linked t₁ _ h1) hnew
      · rw [Function.update_of_ne he₁] at h1
        rw [Function.update_of_ne he₂] at h2
        exact hi.inj t₁ t₂ v h1 h2
    · rcases List.mem_cons.1 hv with rfl | hv
      · exact Nat.lt_succ_self _
      · exact (hi.fresh v hv).trans (Nat.lt_succ_self _)
    · refine effect_of_sec hsec hw rfl rfl rfl rfl ?_ fun L hL => hL
      simp only [Writes, hun]
      refine ⟨rfl, rfl, fun i => ?_, fun v hv => ?_⟩
      · change Function.update s.semadj s.nextUndo (fun _ => 0) s.nextUndo i = 0
        simp
      · have hne : v ≠ s.nextUndo := by rintro rfl; exact hnew hv
        exact Function.update_of_ne hne _ _
  · rw [hun, Option.some.injEq] at h
    subst h
    refine ⟨⟨hi.wf, hi.unlocked, hi.asleep, hi.sleeper, hi.waiting, hi.once, hi.owner,
      hi.linked, hi.inj, hi.fresh⟩, effect_of_same rfl ?_ List.Perm.nil⟩
    simp [Writes, hun]

theorem step_semtimedop (hi : Inv s) {task : ℕ} {sops : List Sembuf}
    (h : step s (.semtimedop task sops) = some t) :
    Inv t ∧ Effect s (.semtimedop task sops) t := by
  unfold step at h
  dsimp only at h
  generalize hun : (if (scanSops sops).undos = true then s.undoOf task else none) = un at h
  by_cases hguard : (!s.inUser task) = true ∨ (scanSops sops).undos = true ∧ un.isNone = true
  · rw [if_pos hguard] at h; cases h
  rw [if_neg hguard] at h
  have hu : s.inUser task := inUser_of fun hn => hguard (.inl hn)
  by_cases hnil : sops = []
  · -- `-EINVAL`
    rw [if_pos hnil] at h
    obtain rfl := Option.some.inj h
    exact ⟨inv_ret hi (hi.not_queued hu) _, effect_of_same rfl ⟨rfl, rfl⟩
      (by simp [Served.By, State.ret, EINVAL])⟩
  rw [if_neg hnil] at h
  by_cases hmax : s.array.semNsems ≤ (scanSops sops).max
  · -- `-EFBIG`
    rw [if_pos hmax] at h
    obtain rfl := Option.some.inj h
    exact ⟨inv_ret hi (hi.not_queued hu) _, effect_of_same rfl ⟨rfl, rfl⟩
      (by simp [Served.By, State.ret, EFBIG])⟩
  · rw [if_neg hmax] at h
    have he := hi.entry hun.symm (fun hn => hguard (.inr hn)) hnil hmax
    generalize hq : (⟨task, un, sops, (scanSops sops).alter, (scanSops sops).dupsop⟩ : SemQueue) =
      q at h he
    have hqt : q.sleeper = task := by rw [← hq]
    have hqs : q.sops = sops := by rw [← hq]
    rcases hd : doSemop s.ctx q with ⟨c₃, r⟩
    rw [hd] at h
    obtain rfl := Option.some.inj h
    by_cases hst : Stuck s.ctx.mem q
    · obtain ⟨b, c₂, hj, hm, hu₃, hres, hpos⟩ := semop_sleep hi.wf hi.asleep hi.unlocked he hst
      rw [hd] at hm hu₃ hres
      have hr : 0 < r := by dsimp only at hres; omega
      rw [if_pos hr]
      refine ⟨sleep_inv hi hu hqt (fun v hv => ?_) hj hm hu₃, s.mem, [], ⟨?_, rfl⟩, ?_, ?_⟩
      · rw [← hq] at hv
        rw [← hun] at hv
        dsimp only at hv
        split at hv
        · exact hv
        · cases hv
      · exact hm.listId.trans hj.listId
      · have hwq : c₃.wakeQ = [] := hm.wakeQ.trans hj.wakeQ
        simp [Served.By, State.setPhase, State.commit, hwq]
      · exact hm.mem.trans hj.mem
    · obtain ⟨b, hsec, hw₁, hres⟩ := semop_sec hi.wf hi.asleep hi.unlocked he hst
      rw [hd] at hsec hres
      dsimp only at hsec hres
      have hle : ¬0 < r := by
        rw [Stuck, perform_eq_attempt he.scanned] at hst
        omega
      rw [if_neg hle]
      refine ⟨inv_setPhase (section_inv_same hi rfl rfl rfl rfl hw₁ hsec)
        (commit_not_queued rfl hsec (hi.not_queued hu)) r, ?_⟩
      obtain ⟨L, hperm, hled⟩ := hsec.ledger hw₁ rfl
      have hlist : c₃.listId = s.array.listId := hsec.listId
      by_cases h0 : r = 0
      · -- the vector of the call itself comes first
        subst h0
        refine ⟨s.mem, (q, 0) :: L, ⟨hlist, rfl⟩, ?_, ?_⟩
        · simp only [Served.By, setPhase_phase, Function.update_self, if_true]
          exact ⟨q, hqs, hperm.cons _⟩
        · change Ledger c₃.listId s.mem ((q, 0) :: L) c₃.mem
          rw [hlist]
          exact ⟨_, fun i => attempt_total hi.wf.nodup he.undo hres.symm, hled⟩
      · refine ⟨s.mem, L, ⟨hlist, rfl⟩, ?_, ?_⟩
        · simp only [Served.By, setPhase_phase, Function.update_self, Phase.user.injEq, h0, if_false]
          exact hperm
        · change Ledger c₃.listId s.mem L c₃.mem
          rw [hlist]
          have hsame : (attempt q.undo s.ctx.mem q.sops).state = s.mem :=
            attempt_fail fun hn => h0 (hres.trans hn)
          exact hsame ▸ hled

theorem step_interrupted (hi : Inv s) {task : ℕ} {timedOut : Bool}
    (h : step s (.interrupted task timedOut) = some t) :
    Inv t ∧ Effect s (.interrupted task timedOut) t := by
  simp only [step] at h
  rcases hph : s.phase task with r | ⟨q, status⟩
  · rw [hph] at h; cases h
  · rw [hph] at h
    dsimp only at h
    by_cases hst : status = -EINTR
    swap
    · rw [if_neg hst] at h; cases h
    rw [if_pos hst] at h
    subst hst
    obtain rfl := Option.some.inj h
    obtain ⟨-, k, hk⟩ := hi.waiting task q hph
    obtain ⟨b, hm, -⟩ := dequeue_spec hi.wf hi.asleep hi.unlocked hk (hi.once q.sleeper)
    refine ⟨leave_inv hi hph _, s.mem, [], ⟨hm.listId, rfl⟩, ?_, hm.mem⟩
    have hwq : (dequeue s.ctx q true).wakeQ = [] := hm.wakeQ
    simp [Served.By, State.setPhase, State.commit, hwq]

/-- A section that takes and drops the lock. -/
theorem idle_spec (hi : Inv s) (sops : List Sembuf)
    (hwr : Writes s s.mem s.array.listId a)
    (hby : ∀ t L, L.Perm t.wakeQ → Served.By a t L) :
    Inv (s.commit (semUnlock (semLock s.ctx sops).1 (semLock s.ctx sops).2)) ∧
    Effect s a (s.commit (semUnlock (semLock s.ctx sops).1 (semLock s.ctx sops).2)) := by
  obtain ⟨b, hsec⟩ := idle_sec hi.wf hi.asleep hi.unlocked sops
  exact ⟨section_inv_same hi rfl rfl rfl rfl (hi.wf.setLock b) hsec,
    effect_of_sec hsec (hi.wf.setLock b) rfl rfl rfl rfl hwr fun L hL => hby _ L hL⟩

theorem step_spurious (hi : Inv s) {task : ℕ} (h : step s (.spurious task) = some t) :
    Inv t ∧ Effect s (.spurious task) t := by
  simp only [step] at h
  rcases hph : s.phase task with r | ⟨q, status⟩
  · rw [hph] at h; cases h
  · rw [hph] at h
    dsimp only at h
    split_ifs at h with hst
    obtain rfl := Option.some.inj h
    exact idle_spec hi q.sops ⟨rfl, rfl⟩ fun _ _ hL => hL

theorem step_resume (hi : Inv s) {task : ℕ} (h : step s (.resume task) = some t) :
    Inv t ∧ Effect s (.resume task) t := by
  simp only [step] at h
  rcases hph : s.phase task with r | ⟨q, status⟩
  · rw [hph] at h; cases h
  · rw [hph] at h
    dsimp only at h
    split_ifs at h with hst
    obtain rfl := Option.some.inj h
    refine ⟨inv_ret hi (fun k x hx hxt => hst ?_) _, effect_of_same rfl ⟨rfl, rfl⟩
      List.Perm.nil⟩
    have := hi.sleeper k x hx
    rw [hxt, hph, Phase.sleeping.injEq] at this
    exact this.2

theorem step_semctlRead (hi : Inv s) {task : ℕ} (h : step s (.semctlRead task) = some t) :
    Inv t ∧ Effect s (.semctlRead task) t := by
  simp only [step] at h
  split_ifs at h
  obtain rfl := Option.some.inj h
  exact idle_spec hi [] ⟨rfl, rfl⟩ fun _ _ hL => hL

theorem step_procShow (hi : Inv s) (h : step s .procShow = some t) :
    Inv t ∧ Effect s .procShow t := by
  obtain rfl := Option.some.inj h
  have hw := hi.wf.setLock USE_GLOBAL_LOCK_HYSTERESIS
  have hm := moved_tryleave (Moved.refl hw)
  have hsec : Sec (complexmodeEnter s.ctx) (complexmodeTryleave (complexmodeEnter s.ctx)) := by
    refine ⟨[], _, Served.refl, hi.asleep.setLock _, hm, fun h0 => ?_, fun h0 => ?_⟩
    · rw [tryleave_complex] at h0
      rw [tryleave_pending]
      exact hi.unlocked.quiet h0
    · by_contra hne
      rw [tryleave_complex] at hne
      rw [complexmodeTryleave, if_pos hne] at h0
      exact enter_ne_zero h0
  exact ⟨section_inv_same hi rfl rfl rfl rfl hw hsec,
    effect_of_sec hsec hw rfl rfl rfl rfl ⟨rfl, rfl⟩ fun L hL => hL⟩

/-- The sections of `semctl` that write and then update everything. -/
theorem semctl_spec (hi : Inv s) {task : ℕ} (hu : s.inUser task) {c₁ : Ctx} (hw : Wf c₁)
    (hl : c₁.useGlobalLock ≠ 0) (hp : c₁.pending = s.array.pending)
    (hn : c₁.semNsems = s.array.semNsems) (hid : c₁.listId = s.array.listId)
    (hwq : c₁.wakeQ = []) (hwr : Writes s c₁.mem c₁.listId a)
    (hby : ∀ t L, L.Perm t.wakeQ → Served.By a t L) :
    Inv ((s.commit (semUnlock (doSmartUpdate c₁ none) none)).setPhase task (.user 0)) ∧
    Effect s a ((s.commit (semUnlock (doSmartUpdate c₁ none) none)).setPhase task (.user 0)) := by
  have hsec := update_sec hw hl
  exact ⟨inv_setPhase (section_inv_same hi hp hn hid hwq hw hsec)
      (commit_not_queued hp hsec (hi.not_queued hu)) 0,
    effect_of_sec hsec hw hwq rfl rfl rfl hwr fun L hL => hby _ L hL⟩

theorem step_setval (hi : Inv s) {task : ℕ} {semnum val : ℤ}
    (h : step s (.setval task semnum val) = some t) :
    Inv t ∧ Effect s (.setval task semnum val) t := by
  simp only [step] at h
  split_ifs at h with hu hval hnum
  · obtain rfl := Option.some.inj h
    refine ⟨inv_ret hi (hi.not_queued (inUser_of hu)) _, effect_of_same rfl ⟨rfl, ?_⟩
      List.Perm.nil⟩
    rw [if_neg (by omega)]
  · obtain rfl := Option.some.inj h
    refine ⟨inv_ret hi (hi.not_queued (inUser_of hu)) _, effect_of_same rfl ⟨rfl, ?_⟩
      List.Perm.nil⟩
    rw [if_neg (by omega)]
  · obtain rfl := Option.some.inj h
    have hw : Wf (setvalWrites (complexmodeEnter s.ctx) semnum.toNat val) :=
      setval_wf (hi.wf.setLock _) (by omega)
    refine semctl_spec hi (inUser_of hu) hw (enter_ne_zero (c := s.ctx)) rfl rfl rfl rfl
      ⟨rfl, ?_⟩ fun _ _ hL => hL
    have hcast : ∀ i : ℕ, i = semnum.toNat ↔ (i : ℤ) = semnum := fun i => by omega
    rw [if_pos (by omega)]
    refine ⟨fun i => ?_, fun u hul i => ?_⟩
    · change Function.update s.array.semval semnum.toNat val i = _
      rw [Function.update_apply]
      simp only [hcast]
      rfl
    · change (if u ∈ s.array.listId ∧ i = semnum.toNat then 0 else s.semadj u i) = _
      simp only [hcast, show u ∈ s.array.listId from hul, true_and]
      rfl

theorem step_setall (hi : Inv s) {task : ℕ} {semIo : ℕ → ℕ}
    (h : step s (.setall task semIo) = some t) :
    Inv t ∧ Effect s (.setall task semIo) t := by
  simp only [step, List.mem_range] at h
  split_ifs at h with hu hval
  · obtain rfl := Option.some.inj h
    refine ⟨inv_ret hi (hi.not_queued (inUser_of hu)) _, effect_of_same rfl ⟨rfl, ?_⟩
      List.Perm.nil⟩
    obtain ⟨i, hin, hlt⟩ := hval
    rw [if_neg fun hall => absurd (hall i hin) (not_le.2 hlt)]
  · obtain rfl := Option.some.inj h
    have hle : ∀ i < s.array.semNsems, (semIo i : ℤ) ≤ SEMVMX := fun i hin =>
      not_lt.1 fun hlt => hval ⟨i, hin, hlt⟩
    have hw : Wf (setallWrites (complexmodeEnter s.ctx) semIo) := setall_wf (hi.wf.setLock _) hle
    refine semctl_spec hi (inUser_of hu) hw (enter_ne_zero (c := s.ctx)) rfl rfl rfl rfl
      ⟨rfl, ?_⟩ fun _ _ hL => hL
    rw [if_pos hle]
    refine fun i hin => ⟨?_, fun u hul => ?_⟩
    · change (if i < s.array.semNsems then (semIo i : ℤ) else s.array.semval i) = _
      rw [if_pos hin]
    · change (if u ∈ s.array.listId ∧ i < s.array.semNsems then 0 else s.semadj u i) = 0
      rw [if_pos ⟨hul, hin⟩]

theorem step_exitSem (hi : Inv s) {task : ℕ} (h : step s (.exitSem task) = some t) :
    Inv t ∧ Effect s (.exitSem task) t := by
  simp only [step] at h
  split_ifs at h with hu
  rcases hun : s.undoOf task with _ | u
  · rw [hun, Option.some.injEq] at h
    subst h
    refine ⟨⟨hi.wf, hi.unlocked, hi.asleep, hi.sleeper, hi.waiting, hi.once, hi.owner,
      hi.linked, hi.inj, hi.fresh⟩, effect_of_same rfl ?_ List.Perm.nil⟩
    simp [Writes, hun]
  · rw [hun, Option.some.injEq] at h
    subst h
    have hnq := hi.not_queued (inUser_of hu)
    -- no entry uses the structure, for its owner is not queued
    have hunused : ∀ k, ∀ q ∈ s.array.pending k, q.undo ≠ some u := fun k q hq hqu =>
      hnq k q hq (hi.inj _ _ u (hi.owner k q hq u hqu) hun)
    have hw : Wf (exitWrites (complexmodeEnter s.ctx) u) := exit_wf (hi.wf.setLock _) hunused
    have hsec := update_sec hw (enter_ne_zero (c := s.ctx))
    have hother : ∀ t' v, Function.update s.undoOf task none t' = some v →
        t' ≠ task ∧ s.undoOf t' = some v := by
      intro t' v hv
      by_cases he : t' = task
      · subst he; simp at hv
      · rw [Function.update_of_ne he] at hv; exact ⟨he, hv⟩
    refine ⟨section_inv hi rfl rfl rfl hw hsec (fun k q hq v hv => ?_) (fun t' v hv => ?_)
      (fun t₁ t₂ v h1 h2 => hi.inj t₁ t₂ v (hother t₁ v h1).2 (hother t₂ v h2).2)
      (fun v hv => hi.fresh v (List.mem_of_mem_erase hv)), ?_⟩
    · rw [Function.update_of_ne (hnq k q hq)]
      exact hi.owner k q hq v hv
    · obtain ⟨he, hv⟩ := hother t' v hv
      refine (List.mem_erase_of_ne ?_).2 (hi.linked t' v hv)
      rintro rfl
      exact he (hi.inj t' task v hv hun)
    · refine effect_of_sec hsec hw rfl rfl rfl rfl ?_ fun L hL => hL
      simp only [Writes, hun]
      refine ⟨rfl, fun hm => ?_, fun i hin => ?_, fun v _ => rfl⟩
      · exact (List.Nodup.mem_erase_iff hi.wf.nodup).1 hm |>.1 rfl
      · change (if i < s.array.semNsems then undoVal (s.array.semval i) (s.semadj u i)
          else s.array.semval i) = _
        rw [if_pos hin]
        exact undoVal_eq (hi.wf.ranges.val i)

/-- **Every step keeps the invariant** and does what it is meant to do,
    followed by the vectors that complete because of it. -/
theorem step_spec (hi : Inv s) (h : step s a = some t) : Inv t ∧ Effect s a t := by
  cases a with
  | findAllocUndo task => exact step_findAllocUndo hi h
  | semtimedop task sops => exact step_semtimedop hi h
  | interrupted task timedOut => exact step_interrupted hi h
  | spurious task => exact step_spurious hi h
  | resume task => exact step_resume hi h
  | setval task semnum val => exact step_setval hi h
  | setall task semIo => exact step_setall hi h
  | semctlRead task => exact step_semctlRead hi h
  | procShow => exact step_procShow hi h
  | exitSem task => exact step_exitSem hi h

/-! ## Runs -/

theorem run_inv (h : Run step (State.init n) s) : Inv s :=
  h.inv (init_inv n) fun _ _ _ hi ha => (step_spec hi ha).1

/-- **`SEM_UNDO` is conserved.**  In every reachable state values are in
    `[0, SEMVMX]` and adjustments fit a `short`; and every step writes what its
    call says, after which each vector it completes changes a value plus its
    adjustments by the operations that do not carry `SEM_UNDO`. -/
theorem undo_conservation (h : Run step (State.init n) s) :
    Ranges s.mem ∧ ∀ a t, step s a = some t → Effect s a t :=
  ⟨(run_inv h).wf.ranges, fun _ _ ha => (step_spec (run_inv h) ha).2⟩

/-- A decrement with `SEM_UNDO`, in an array of one semaphore. -/
theorem undo_conservation_semop : ∃ s, Run step (State.init 1) s ∧
    (s.mem.semval 0 = 3 ∧ s.mem.semadj 0 0 = 2) ∧
    Ranges s.mem ∧ ∀ a t, step s a = some t → Effect s a t := by
  obtain ⟨s, hrun, hs⟩ := exec_check step (State.init 1)
    [.findAllocUndo 7, .setval 8 0 5, .semtimedop 7 [⟨0, -2, true, false⟩]]
    (fun s => s.mem.semval 0 = 3 ∧ s.mem.semadj 0 0 = 2) (by decide)
  exact ⟨s, hrun, of_decide_eq_true hs, undo_conservation hrun⟩

/-- **No lost wakeup.**  An operation that is queued while the lock is free
    would still have to wait; only a vector of several wait-for-zero
    operations may by now be stopped by one that carries `IPC_NOWAIT`. -/
theorem no_lost_wakeup (h : Run step (State.init n) s) (k : Head) :
    ∀ q ∈ s.array.pending k, 0 < (performAtomicSemop s.mem q).result ∨
      (k = .const ∧ 1 < q.sops.length ∧ (∀ sop ∈ q.sops, sop.semOp = 0) ∧
        (∃ sop ∈ q.sops, sop.nowait) ∧ (performAtomicSemop s.mem q).result = -EAGAIN) := by
  intro q hq
  have hi := run_inv h
  have hzero : k.IsConst → ∃ sop ∈ q.sops, (performAtomicSemop s.mem q).result = blockCode sop :=
    fun hk => (hi.wf.zero hq hk).2.2 (hi.asleep.const k hk q hq)
  cases k with
  | alter => exact .inl (hi.asleep.alter .alter (fun h => h) q hq)
  | semAlter i => exact .inl (hi.asleep.alter (.semAlter i) (fun h => h) q hq)
  | semConst i =>
    obtain ⟨sop, hsop, hr⟩ := hzero trivial
    obtain ⟨sop', hs, -, -, hnw⟩ := (hi.wf.entry _ q hq).2
    obtain rfl : sop = sop' := by simpa [hs] using hsop
    left
    rw [hr, blockCode, hnw]
    decide
  | const =>
    obtain ⟨sop, hsop, hr⟩ := hzero trivial
    obtain ⟨hz, hlen⟩ := (hi.wf.entry _ q hq).2
    cases hnw : sop.nowait with
    | false => left; rw [hr, blockCode, hnw]; decide
    | true => right; exact ⟨rfl, hlen, hz, ⟨sop, hsop, hnw⟩, by rw [hr, blockCode, hnw]; rfl⟩

/-- A decrement that waits for a semaphore that is zero. -/
theorem no_lost_wakeup_semop : ∃ s, Run step (State.init 1) s ∧
    ∃ q ∈ s.array.pending (.semAlter 0), 0 < (performAtomicSemop s.mem q).result ∨
      (Head.semAlter 0 = .const ∧ 1 < q.sops.length ∧ (∀ sop ∈ q.sops, sop.semOp = 0) ∧
        (∃ sop ∈ q.sops, sop.nowait) ∧ (performAtomicSemop s.mem q).result = -EAGAIN) := by
  obtain ⟨s, hrun, hs⟩ := exec_check step (State.init 1) [.semtimedop 7 [⟨0, -2, false, false⟩]]
    (fun s => s.array.pending (.semAlter 0) ≠ []) (by decide)
  obtain ⟨q, hq⟩ := List.exists_mem_of_ne_nil _ (of_decide_eq_true hs)
  exact ⟨s, hrun, q, hq, no_lost_wakeup hrun (.semAlter 0) q hq⟩

/-- The exception is real: a task sleeps on two wait-for-zero operations, the
    second of which has to wait; then the first semaphore, for which it has
    said `IPC_NOWAIT`, is incremented.  `wake_const_ops` looks at a queue only
    when a semaphore has become zero. -/
theorem nowait_zero_sleeps : ¬∀ n s, Run step (State.init n) s → ∀ k, ∀ q ∈ s.array.pending k,
    0 < (performAtomicSemop s.mem q).result := by
  intro h
  obtain ⟨s, hrun, hs⟩ := exec_check step (State.init 2)
    [.setval 8 1 1, .semtimedop 7 [⟨0, 0, false, true⟩, ⟨1, 0, false, false⟩],
      .semtimedop 8 [⟨0, 1, false, false⟩]]
    (fun s => ∃ q ∈ s.array.pending .const, (performAtomicSemop s.mem q).result = -EAGAIN)
    (by decide)
  obtain ⟨q, hq, hr⟩ := of_decide_eq_true hs
  exact absurd (h 2 s hrun .const q hq) (by rw [hr]; decide)

end DroidLkm.Sem
