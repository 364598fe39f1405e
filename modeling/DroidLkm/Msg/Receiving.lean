/-
  SysV message queues — `msgrcv` and `msgctl` keep the invariant.

  * `unlink_inv`, `register_inv`, `rcvPass_inv`: a pass of the loop of
    `do_msgrcv`, which takes a message or puts the receiver on the queue;
  * `finish_inv`, `leave_inv`: what a receiver does when it wakes up;
  * `rmid_inv`, `free_inv`: the removal of the queue.
-/
import DroidLkm.Msg.Sending

namespace DroidLkm.Msg

variable {s s' : State} {t : ℕ} {p : Phase} {m msg : MsgMsg} {a : RcvArgs} {fault : Bool}

/-! ## Receiving -/

theorem ne_of_not_waits {t' : ℕ} (h : (s.phase t).waits = false) (h' : (s.phase t').waits = true) :
    t' ≠ t := by
  rintro rfl
  rw [h] at h'
  cases h'

/-- A message goes from the queue to a receiver that returns with it. -/
theorem Handed.take (h : Handed s) (hh : History s) (hm : m ∈ s.queue.qMessages)
    (ht : s'.taken = s.taken ++ [(m, t)]) (hr : s'.received = s.received ++ [(m, t)])
    (hf : ∀ m t, InFlight s' m t ↔ InFlight s m t) : Handed s' := by
  have hnew : ∀ t', (m, t') ∉ s.taken := by
    intro t' ht'
    have hdisj := (List.nodup_append.1 hh.places_nodup).2.2
    exact hdisj m (by simpa using .inl ⟨t', ht'⟩) m hm rfl
  refine ⟨fun m' t' => ?_, ?_, fun m' t' hm' => ?_⟩
  · rw [ht, hr, hf, List.mem_append, List.mem_append, h.taken]
    tauto
  · rw [hr, List.map_append]
    refine List.Nodup.append h.nodup (List.nodup_singleton _) (List.disjoint_singleton.2 ?_)
    intro hrec
    obtain ⟨t', ht'⟩ := h.mem_taken hrec
    exact hnew t' ht'
  · rw [hf] at hm'
    rw [hr, List.map_append, List.mem_append, not_or]
    refine ⟨h.apart m' t' hm', fun he => ?_⟩
    obtain rfl : m' = m := by simpa using he
    exact hnew t' ((h.taken m' t').2 (.inr hm'))

/-- A receiver returns with the message in its `r_msg`. -/
theorem Handed.finish (h : Handed s) (hh : History s) (hm : InFlight s m t)
    (ht : s'.taken = s.taken) (hr : s'.received = s.received ++ [(m, t)])
    (hf : ∀ m' t', InFlight s' m' t' ↔ t' ≠ t ∧ InFlight s m' t') : Handed s' := by
  have hself : ∀ m', InFlight s m' t → m' = m := fun m' h' =>
    RMsg.msg.inj (h'.2.symm.trans hm.2)
  refine ⟨fun m' t' => ?_, ?_, fun m' t' hm' => ?_⟩
  · rw [ht, hr, hf, h.taken, List.mem_append, List.mem_singleton, Prod.mk.injEq]
    constructor
    · rintro (hrec | hfl)
      · exact .inl (.inl hrec)
      · by_cases he : t' = t
        · subst he; exact .inl (.inr ⟨hself m' hfl, rfl⟩)
        · exact .inr ⟨he, hfl⟩
    · rintro ((hrec | ⟨rfl, rfl⟩) | ⟨-, hfl⟩)
      · exact .inl hrec
      · exact .inr hm
      · exact .inr hfl
  · rw [hr, List.map_append]
    exact List.Nodup.append h.nodup (List.nodup_singleton _)
      (List.disjoint_singleton.2 (h.apart m t hm))
  · obtain ⟨hne, hfl⟩ := (hf m' t').1 hm'
    rw [hr, List.map_append, List.mem_append, not_or]
    refine ⟨h.apart m' t' hfl, fun he => hne ?_⟩
    obtain rfl : m' = m := by simpa using he
    exact hh.taken_inj ((h.taken m' t').2 (.inr hfl)) ((h.taken m' t).2 (.inr hm))

/-- **A receiver returns with what it has read** from `r_msg`. -/
theorem finish_inv (hi : Inv s) (hw : (s.phase t).waits = true) (hr : (s.msr t).rMsg ≠ again) :
    Inv (s.finish t a fault) := by
  unfold State.finish
  split
  next e he => exact hi.ret (.inr ⟨e, fun h => hr (by rw [he, h]), he⟩)
  next m hm =>
    refine ⟨hi.history.congr rfl rfl PerKey.Agree.rfl (update_holds (.inl rfl))
      (update_alive hi.history nofun),
      hi.handed.finish hi.history ⟨hw, hm⟩ rfl rfl fun m' t' => ?_,
      hi.waiters.congr rfl rfl rfl (fun _ h => h) (fun t' => ?_) (update_args hi.waiters nofun)⟩
    · by_cases he : t' = t
      · subst he
        simp [InFlight, State.deliver, State.ret, State.setPhase, Phase.waits]
      · simp [InFlight, State.deliver, State.ret, State.setPhase, he]
    · by_cases he : t' = t
      · subst he
        exact .inr ⟨by simp [State.deliver, State.ret, State.setPhase, Phase.waits], hr⟩
      · exact .inl (by simp [State.deliver, State.ret, State.setPhase, he])

/-- A receiver unlinks the message it has found and returns with it. -/
theorem unlink_inv (hi : Inv s) (hv : s.queue.valid = true) (hw : (s.phase t).waits = false)
    (hf : ∃ pre post, s.queue.qMessages = pre ++ m :: post ∧ ∀ x ∈ pre, x.mType ≠ m.mType) :
    Inv { s.deliver t a m fault with
      queue := unlinkMsg s.queue m, taken := s.taken ++ [(m, t)] } := by
  obtain ⟨pre, post, hq, hpre⟩ := hf
  have hfreed := (hi.history.alive hv).1
  have hnw : ∀ t', (Function.update s.phase t (.user (doMsgFill m a.bufsz fault)) t').waits =
      (s.phase t').waits := update_user_waits hw _
  have hmem : m ∈ s.queue.qMessages := by simp [hq]
  have herase : s.queue.qMessages.erase m = pre ++ post := by
    rw [hq, List.erase_append_right _ fun h => hpre m h rfl, List.erase_cons_head]
  refine ⟨hi.history.congr rfl rfl ?_ (update_holds (.inl rfl))
      (update_alive hi.history nofun),
    hi.handed.take hi.history hmem rfl rfl fun m' t' => ?_,
    hi.waiters.congr rfl rfl rfl (fun _ h => List.mem_of_mem_erase h) (fun t' => .inl (hnw t'))
      (update_args hi.waiters nofun)⟩
  · have := (PerKey.Agree.rfl (l := s.taken.map Prod.fst)).append
      (PerKey.agree_first (r := post) hpre)
    change PerKey.Agree _ ((s.taken ++ [(m, t)]).map Prod.fst ++ s.freed ++
      s.queue.qMessages.erase m) (s.taken.map Prod.fst ++ s.freed ++ s.queue.qMessages)
    rw [herase, hq, hfreed]
    simpa using this
  · exact and_congr_left' (by rw [← hnw t']; rfl)

/-- A receiver that has found nothing goes to sleep on the queue. -/
theorem register_inv {rcv : MsgReceiver} (hi : Inv s) (hv : s.queue.valid = true)
    (hw : (s.phase t).waits = false) (ha : a.Ok) (hr : rcv.rMsg = again)
    (hm : ∀ m ∈ s.queue.qMessages, testmsg m rcv.rMsgtype rcv.rMode = false) :
    Inv { s.setPhase t (.rcvAsleep a) with
      queue := { s.queue with qReceivers := s.queue.qReceivers ++ [t] }
      msr := Function.update s.msr t rcv } := by
  have hnot : t ∉ s.queue.qReceivers := fun ht =>
    ne_of_not_waits hw (hi.waiters.asleep hv t ht).1 rfl
  refine ⟨hi.history.congr rfl rfl PerKey.Agree.rfl (update_holds (.inl rfl))
      (update_alive hi.history nofun),
    hi.handed.congr rfl rfl fun m t' => ?_,
    ⟨List.Nodup.append hi.waiters.nodup (List.nodup_singleton _) (List.disjoint_singleton.2 hnot),
      update_args hi.waiters fun a' h => ?_, fun _ t' ht' => ?_, fun t' hwt hrt => ⟨hv, ?_⟩,
      fun _ t' ht' x hx => ?_, fun h => by rw [hv] at h; cases h⟩⟩
  · by_cases he : t' = t
    · subst he; simp [InFlight, hw, hr]
    · simp [InFlight, State.setPhase, he]
  · obtain rfl : a = a' := by simpa [Phase.args] using h
    exact ha
  · by_cases he : t' = t
    · subst he; simp [State.setPhase, Phase.waits, hr]
    · simpa [State.setPhase, he] using hi.waiters.asleep hv t' (by simpa [he] using ht')
  · by_cases he : t' = t
    · subst he; simp
    · have := hi.waiters.listed t' (by simpa [State.setPhase, he] using hwt) (by simpa [he] using hrt)
      simp [this.2]
  · by_cases he : t' = t
    · subst he; simpa using hm x hx
    · simpa [he] using hi.waiters.unmatched hv t' (by simpa [he] using ht') x hx

/-- A pass of the loop of `msgrcv` keeps the invariant. -/
theorem rcvPass_inv (hi : Inv s) (hp : s.phase t = .receiving a) : Inv (s.rcvPass t a fault) := by
  have hw : (s.phase t).waits = false := by rw [hp]; rfl
  have ha : a.Ok := hi.waiters.args t a (by rw [hp]; rfl)
  unfold State.rcvPass
  by_cases hv : s.queue.valid = true
  · rw [if_neg (by simp [hv])]
    split
    next m ty hfind =>
      split
      · exact hi.ret (.inl hw)
      by_cases hcopy : a.msgflg.copy = true
      · rw [if_pos hcopy]
        exact hi.ret (.inl hw)
      · rw [if_neg hcopy]
        exact unlink_inv hi hv hw (find_first (fun hn => hcopy (ha.1 hn)) (by rw [hfind]))
    next ty hfind =>
      by_cases hnowait : a.msgflg.nowait = true
      · rw [if_pos hnowait]
        exact hi.ret (.inl hw)
      · rw [if_neg hnowait]
        obtain ⟨hty, hnone⟩ := find_none (by rw [hfind])
        obtain rfl : ty = a.msgtyp := by rw [← hty, hfind]
        have hmode : a.mode ≠ .number := fun hn => hnowait (ha.2 (ha.1 hn))
        exact register_inv hi hv hw ha rfl (hnone hmode)
  · rw [if_pos (by simp [hv])]
    exact hi.ret (.inl hw)

/-- A receiver that has found `-EAGAIN` under the lock leaves the queue. -/
theorem leave_inv (hi : Inv s) (hw : (s.phase t).waits = true) (hr : (s.msr t).rMsg = again)
    (hh : p.holds = none) (hnw : p.waits = false) (ha : ∀ a, p.args = some a → a.Ok)
    (hf : p ≠ .freeing) :
    Inv { s.setPhase t p with
      queue := { s.queue with qReceivers := s.queue.qReceivers.erase t } } := by
  obtain ⟨hv, hmem⟩ := hi.waiters.listed t hw hr
  have hsub : ∀ t' ∈ s.queue.qReceivers.erase t, t' ≠ t ∧ t' ∈ s.queue.qReceivers := fun t' h =>
    (List.Nodup.mem_erase_iff hi.waiters.nodup).1 h
  refine ⟨hi.history.congr rfl rfl PerKey.Agree.rfl (update_holds (.inl hh))
      (update_alive hi.history hf),
    hi.handed.congr rfl rfl fun m t' => ?_,
    ⟨hi.waiters.nodup.erase t, update_args hi.waiters ha, fun _ t' ht' => ?_,
      fun t' hwt hrt => ⟨hv, ?_⟩,
      fun _ t' ht' => hi.waiters.unmatched hv t' (hsub t' ht').2,
      fun h => by rw [hv] at h; cases h⟩⟩
  · by_cases he : t' = t
    · subst he; simp [InFlight, State.setPhase, hnw, hr]
    · simp [InFlight, State.setPhase, he]
  · obtain ⟨hne, ht'⟩ := hsub t' ht'
    simpa [State.setPhase, hne] using hi.waiters.asleep hv t' ht'
  · by_cases he : t' = t
    · subst he; simp [State.setPhase, hnw] at hwt
    · exact (List.mem_erase_of_ne he).2
        (hi.waiters.listed t' (by simpa [State.setPhase, he] using hwt) hrt).2

/-! ## `msgctl` -/

/-- Registered receivers have read `-EAGAIN`, so storing it again changes
    nothing. -/
theorem expunge_again (hi : Inv s) (hv : s.queue.valid = true) :
    expungeAll s.msr s.queue.qReceivers (-EAGAIN) = s.msr := by
  funext t
  rw [expunge_spec]
  split_ifs with ht
  · have := (hi.waiters.asleep hv t ht).2
    rw [again] at this
    rw [← this]
  · rfl

/-- The queue is removed: its receivers get `-EIDRM`. -/
theorem rmid_inv {q : MsgQueue} (hi : Inv s) (hv : s.queue.valid = true)
    (hnw : (s.phase t).waits = false) (hm : q.qMessages = s.queue.qMessages)
    (hr : q.qReceivers = s.queue.qReceivers) (hq : q.valid = false) :
    Inv { s.setPhase t .freeing with
      queue := q, msr := expungeAll s.msr s.queue.qReceivers (-EIDRM) } := by
  have hidrm : ∀ t ∈ s.queue.qReceivers,
      (expungeAll s.msr s.queue.qReceivers (-EIDRM) t).rMsg = .err (-EIDRM) := by
    intro t ht
    rw [expunge_spec, if_pos ht]
  have hframe : ∀ t, t ∉ s.queue.qReceivers →
      expungeAll s.msr s.queue.qReceivers (-EIDRM) t = s.msr t := by
    intro t ht
    rw [expunge_spec, if_neg ht]
  have hwaits : ∀ t', (Function.update s.phase t .freeing t').waits = (s.phase t').waits := by
    intro t'
    by_cases he : t' = t
    · subst he; rw [Function.update_self, hnw]; rfl
    · rw [Function.update_of_ne he]
  refine ⟨hi.history.congr rfl rfl ?_ (update_holds (.inl rfl)) (by rw [hq]; nofun),
    hi.handed.congr rfl rfl fun m t' => ?_,
    ⟨hr ▸ hi.waiters.nodup, update_args hi.waiters nofun, by rw [hq]; nofun,
      fun t' hwt hrt => ?_, by rw [hq]; nofun, fun _ t' ht' => ?_⟩⟩
  · simp only [State.places, hm]
    exact PerKey.Agree.rfl
  · simp only [InFlight, State.setPhase, hwaits]
    by_cases ht' : t' ∈ s.queue.qReceivers
    · rw [hidrm t' ht', (hi.waiters.asleep hv t' ht').2]
      simp
    · rw [hframe t' ht']
  · exfalso
    simp only [State.setPhase, hwaits] at hwt
    by_cases ht' : t' ∈ s.queue.qReceivers
    · rw [hidrm t' ht'] at hrt
      exact absurd hrt (by decide)
    · have hrt : (s.msr t').rMsg = again := by rwa [← hframe t' ht']
      exact ht' (hi.waiters.listed t' hwt hrt).2
  · rw [hr] at ht'
    rw [hidrm t' ht']
    decide

/-- The first message left is freed. -/
theorem free_inv {rest : List MsgMsg} (hi : Inv s) (hv : s.queue.valid = false)
    (hq : s.queue.qMessages = m :: rest) :
    Inv { s with
      queue := { s.queue with qMessages := rest }, freed := s.freed ++ [m] } := by
  refine ⟨hi.history.congr rfl rfl ?_ (fun _ _ h => h) (fun h => absurd h (by simp [hv])),
    hi.handed.congr rfl rfl fun _ _ => Iff.rfl,
    hi.waiters.congr rfl rfl rfl (fun x hx => by rw [hq]; exact List.mem_cons_of_mem _ hx)
      (fun _ => .inl rfl) hi.waiters.args⟩
  simp only [State.places, hq, List.append_assoc, List.singleton_append]
  exact PerKey.Agree.rfl

end DroidLkm.Msg
