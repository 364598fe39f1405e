/-
  SysV message queues — every message is delivered once, and in order.

  * `step_inv`, `run_inv`: the invariant holds whenever the lock is free;
  * `message_delivery`: at any time an accepted message is in one place, and
    messages of one type are taken in the order in which they were accepted.
-/
import DroidLkm.Msg.Receiving

namespace DroidLkm.Msg

open Machine

variable {s s' : State} {t : ℕ} {m : MsgMsg} {a : RcvArgs} {fault : Bool} {act : Act} {qbytes : ℕ}

/-! ## Steps and runs -/

theorem convert_ok {bufsz copySz : ℕ} {msgtyp : ℤ} {msgflg : MsgFlg}
    (h : ¬(msgflg.copy = true ∧ (msgflg.except = true ∨ (!msgflg.nowait) = true))) :
    RcvArgs.Ok ⟨bufsz, (convertMode msgtyp msgflg).1, (convertMode msgtyp msgflg).2, msgflg,
      copySz⟩ := by
  refine ⟨fun hn => ?_, fun hc => ?_⟩
  · by_contra hc
    simp only [convertMode, if_neg hc] at hn
    split_ifs at hn
  · by_contra hn
    exact h ⟨hc, .inr (by simpa using hn)⟩

/-- A `msgsnd` begins with a message of its own. -/
theorem msgsnd_inv {mtype : ℤ} {msgsz : ℕ} {nowait : Bool} (hi : Inv s)
    (hnw : (s.phase t).waits = false) :
    Inv { s.setPhase t (.sending ⟨s.nextMsg, mtype, msgsz⟩ nowait) with
      nextMsg := s.nextMsg + 1 } := by
  have hh := hi.history
  -- the message is new, so it has no name in common with what there is
  have hheld : ∀ t' m, (Function.update s.phase t
      (.sending ⟨s.nextMsg, mtype, msgsz⟩ nowait) t').holds = some m →
      t' = t ∧ m.id = s.nextMsg ∨ t' ≠ t ∧ m.id < s.nextMsg ∧ (s.phase t').holds = some m := by
    intro t' m hm
    by_cases he : t' = t
    · subst he
      rw [Function.update_self] at hm
      obtain rfl := Option.some.inj hm
      exact .inl ⟨rfl, rfl⟩
    · rw [Function.update_of_ne he] at hm
      exact .inr ⟨he, (hh.held t' m hm).1, hm⟩
  have hmid : Inv (s.setPhase t (.user 0)) := hi.ret (.inl hnw)
  refine ⟨⟨hh.agree, hh.nodup, fun m hm => Nat.lt_succ_of_lt (hh.fresh m hm), fun t' m hm => ?_,
    fun t₁ t₂ m₁ m₂ h₁ h₂ he => ?_, update_alive hh nofun⟩,
    hmid.handed.congr rfl rfl fun m t' => ?_,
    hmid.waiters.congr rfl rfl rfl (fun _ h => h) (fun t' => .inl ?_)
      (update_args hi.waiters nofun)⟩
  · rcases hheld t' m hm with ⟨-, hid⟩ | ⟨-, hid, hm⟩
    · exact ⟨by simp [hid], fun x hx => by have := hh.fresh x hx; omega⟩
    · exact ⟨Nat.lt_succ_of_lt hid, (hh.held t' m hm).2⟩
  · rcases hheld t₁ m₁ h₁ with ⟨h1, i1⟩ | ⟨h1, i1, h₁⟩ <;>
      rcases hheld t₂ m₂ h₂ with ⟨h2, i2⟩ | ⟨h2, i2, h₂⟩
    · rw [h1, h2]
    · omega
    · omega
    · exact hh.heldOnce t₁ t₂ m₁ m₂ h₁ h₂ he
  · by_cases he : t' = t
    · subst he; simp [InFlight, State.setPhase, Phase.waits]
    · simp [InFlight, State.setPhase, he]
  · by_cases he : t' = t
    · subst he; simp [State.setPhase, Phase.waits]
    · simp [State.setPhase, he]

/-- **Every step keeps the invariant.** -/
theorem step_inv (hi : Inv s) (h : step s act = some s') : Inv s' := by
  have hwaits : ∀ t p, s.phase t = p → p.waits = false → (s.phase t).waits = false :=
    fun t p hp hw => hp ▸ hw
  cases act with
  | msgsnd t mtype msgsz nowait msgCtlmax err =>
    simp only [step] at h
    split at h <;> try contradiction
    next hp =>
      have hw := hwaits t _ hp rfl
      split_ifs at h <;> obtain rfl := Option.some.inj h
      · exact hi.ret (.inl hw)
      · exact hi.ret (.inl hw)
      · exact hi.ret (.inl hw)
      · exact msgsnd_inv hi hw
  | sndLock t allowed =>
    simp only [step] at h
    split at h <;> try contradiction
    next msg nowait hp =>
      obtain rfl := Option.some.inj h
      exact sndPass_inv hi (by rw [hp]; rfl)
  | sndRelock t signal allowed =>
    simp only [step] at h
    split at h <;> try contradiction
    next msg nowait hp =>
      have hw := hwaits t _ hp rfl
      -- without its entry among the senders
      have hi' : Inv { s with queue := { s.queue with
          qSenders := s.queue.qSenders.erase ⟨t, msg.mTs⟩ } } := hi.setQueue rfl rfl rfl
      split_ifs at h <;> obtain rfl := Option.some.inj h
      · exact hi.ret (.inl hw)
      · exact hi'.ret (.inl hw)
      · exact sndPass_inv hi' (show (s.phase t).holds = some msg by rw [hp]; rfl)
  | msgrcv t bufsz msgtyp msgflg msgCtlmax err =>
    simp only [step] at h
    split at h <;> try contradiction
    next hp =>
      have hw := hwaits t _ hp rfl
      split_ifs at h with _ hcopy <;> obtain rfl := Option.some.inj h
      · exact hi.ret (.inl hw)
      · exact hi.ret (.inl hw)
      · exact hi.ret (.inl hw)
      · refine hi.setPhase (.inl rfl) (.inl hw.symm) (fun a ha => ?_) nofun
        obtain rfl := Option.some.inj ha
        exact convert_ok hcopy
  | rcvLock t allowed fault =>
    simp only [step] at h
    split at h <;> try contradiction
    next a hp =>
      split_ifs at h <;> obtain rfl := Option.some.inj h
      · exact hi.ret (.inl (hwaits t _ hp rfl))
      · exact rcvPass_inv hi hp
  | rcvRead t fault =>
    simp only [step] at h
    split at h <;> try contradiction
    next a hp =>
      split_ifs at h with hr <;> obtain rfl := Option.some.inj h
      · exact finish_inv hi (by rw [hp]; rfl) hr
      · refine hi.setPhase (.inl rfl) (.inl (by rw [hp]; rfl)) (fun a' ha => ?_) nofun
        obtain rfl := Option.some.inj ha
        exact hi.waiters.args t a (by rw [hp]; rfl)
  | rcvRelock t signal fault =>
    simp only [step] at h
    split at h <;> try contradiction
    next a hp =>
      have hw : (s.phase t).waits = true := by rw [hp]; rfl
      split_ifs at h with hr <;> obtain rfl := Option.some.inj h
      · exact finish_inv hi hw hr
      · exact leave_inv hi hw (not_not.1 hr) rfl rfl nofun nofun
      · refine leave_inv hi hw (not_not.1 hr) rfl rfl (fun a' ha => ?_) nofun
        obtain rfl := Option.some.inj ha
        exact hi.waiters.args t a (by rw [hp]; rfl)
  | ipcSet t qbytes err =>
    simp only [step] at h
    split at h <;> try contradiction
    next hp =>
      have hw := hwaits t _ hp rfl
      split_ifs at h with _ hv <;> obtain rfl := Option.some.inj h
      · exact hi.ret (.inl hw)
      · rw [expunge_again hi (by simpa using hv)]
        exact (hi.ret (.inl hw)).setQueue rfl rfl rfl
  | ipcRmid t err =>
    simp only [step] at h
    split at h <;> try contradiction
    next hp =>
      have hw := hwaits t _ hp rfl
      split_ifs at h with _ hv <;> obtain rfl := Option.some.inj h
      · exact hi.ret (.inl hw)
      · exact rmid_inv hi (by simpa using hv) hw rfl rfl rfl
  | freeMsg t =>
    simp only [step] at h
    split at h <;> try contradiction
    next hp =>
      split at h <;> obtain rfl := Option.some.inj h
      · exact hi.ret (.inl (hwaits t _ hp rfl))
      · next m rest hq =>
        have hv : s.queue.valid = false := by
          by_contra hv
          exact (hi.history.alive (by simpa using hv)).2 t hp
        exact free_inv hi hv hq

theorem run_inv (h : Run step (State.init qbytes) s) : Inv s :=
  h.inv (init_inv qbytes) fun _ _ _ hi ha => step_inv hi ha

/-- Where an accepted message can be: on the queue, with a receiver (in the
    receiver's `r_msg` or returned), or freed with the queue. -/
inductive Place where
  | queued
  | handed (t : ℕ)
  | freed

def At (s : State) (m : MsgMsg) : Place → Prop
  | .queued => m ∈ s.queue.qMessages
  | .handed t => (m, t) ∈ s.received ∨ InFlight s m t
  | .freed => m ∈ s.freed

theorem one_place (hi : Inv s) (hm : m ∈ s.accepted) : ∃! p, At s m p := by
  obtain ⟨h12, -, hd3⟩ := List.nodup_append.1 hi.history.places_nodup
  obtain ⟨-, -, hd12⟩ := List.nodup_append.1 h12
  have htaken : ∀ t, At s m (.handed t) ↔ (m, t) ∈ s.taken := fun t => (hi.handed.taken m t).symm
  have hfst : ∀ t, (m, t) ∈ s.taken → m ∈ s.taken.map Prod.fst := fun t ht =>
    List.mem_map.2 ⟨_, ht, rfl⟩
  rcases List.mem_append.1 (hi.history.mem_places.2 hm) with hm | hq
  · rcases List.mem_append.1 hm with ht | hf
    · obtain ⟨⟨m', t⟩, ht', rfl⟩ := List.mem_map.1 ht
      refine ⟨.handed t, (htaken t).2 ht', fun p hp => ?_⟩
      cases p with
      | queued => exact absurd rfl (hd3 m' hm m' hp)
      | handed t' => rw [hi.history.taken_inj ((htaken t').1 hp) ht']
      | freed => exact absurd rfl (hd12 m' ht m' hp)
    · refine ⟨.freed, hf, fun p hp => ?_⟩
      cases p with
      | queued => exact absurd rfl (hd3 m hm m hp)
      | handed t' => exact absurd rfl (hd12 m (hfst t' ((htaken t').1 hp)) m hf)
      | freed => rfl
  · refine ⟨.queued, hq, fun p hp => ?_⟩
    cases p with
    | queued => rfl
    | handed t' =>
      exact absurd rfl (hd3 m (List.mem_append_left _ (hfst t' ((htaken t').1 hp))) m hq)
    | freed => exact absurd rfl (hd3 m (List.mem_append_right _ hp) m hq)

/-- Two messages of one type are taken in the order in which they were
    accepted. -/
theorem taken_in_order {m₁ m₂ : MsgMsg} (hi : Inv s) (hty : m₁.mType = m₂.mType)
    (hs : [m₁, m₂].Sublist s.accepted) (h₂ : m₂ ∈ s.taken.map Prod.fst) :
    [m₁, m₂].Sublist (s.taken.map Prod.fst) := by
  have hpl := hi.history.agree.symm.pair hty hs
  have hnd := hi.history.places_nodup
  unfold State.places at hpl hnd
  rw [List.append_assoc] at hpl hnd
  exact PerKey.pair_of_append hpl fun h => (List.nodup_append.1 hnd).2.2 m₂ h₂ m₂ h rfl

/-- A receive with `MSG_COPY` changes nothing but where its task is. -/
theorem copy_removes_nothing {allowed : Bool} (hp : s.phase t = .receiving a) (ha : a.Ok)
    (hc : a.msgflg.copy = true) (h : step s (.rcvLock t allowed fault) = some s') :
    ∃ r, s' = s.ret t r := by
  simp only [step, hp] at h
  have hnowait := ha.2 hc
  split_ifs at h <;> obtain rfl := Option.some.inj h
  · exact ⟨_, rfl⟩
  · unfold State.rcvPass
    split
    · exact ⟨_, rfl⟩
    · split
      · split
        · exact ⟨_, rfl⟩
        · exact ⟨_, rfl⟩
      · exact ⟨_, rfl⟩

/-- What a reachable state of a queue promises. -/
structure Delivery (s : State) : Prop where
  /-- an accepted message is in one place -/
  place : ∀ m ∈ s.accepted, ∃! p, At s m p
  /-- what has been returned is returned no second time -/
  once : (s.received.map Prod.fst).Nodup ∧ ∀ m t, InFlight s m t → m ∉ s.received.map Prod.fst
  /-- `MSG_COPY` removes nothing -/
  copy : ∀ t a allowed fault s', s.phase t = .receiving a → a.msgflg.copy = true →
    step s (.rcvLock t allowed fault) = some s' → ∃ r, s' = s.ret t r
  /-- messages of one type are taken in the order in which they were accepted -/
  order : ∀ m₁ m₂, m₁.mType = m₂.mType → [m₁, m₂].Sublist s.accepted →
    m₂ ∈ s.taken.map Prod.fst → [m₁, m₂].Sublist (s.taken.map Prod.fst)
  /-- what has been taken is with its receiver -/
  taken : ∀ m t, (m, t) ∈ s.taken ↔ At s m (.handed t)
  /-- no receiver sleeps on a message that it could take -/
  awake : ∀ t ∈ s.queue.qReceivers, (s.msr t).rMsg = .err (-EAGAIN) →
    ∀ m ∈ s.queue.qMessages, testmsg m (s.msr t).rMsgtype (s.msr t).rMode = false

/-- **Message delivery.**  In every reachable state each accepted message is in
    one place and messages of a type go out in order. -/
theorem message_delivery (h : Run step (State.init qbytes) s) : Delivery s := by
  have hi := run_inv h
  refine ⟨fun m hm => one_place hi hm, ⟨hi.handed.nodup, hi.handed.apart⟩,
    fun t a allowed fault s' hp hc hs =>
      copy_removes_nothing hp (hi.waiters.args t a (by rw [hp]; rfl)) hc hs,
    fun m₁ m₂ hty hs h₂ => taken_in_order hi hty hs h₂, hi.handed.taken, fun t ht hr => ?_⟩
  cases hv : s.queue.valid with
  | true => exact hi.waiters.unmatched hv t ht
  | false => exact absurd hr (hi.waiters.expunged hv t ht)

/-- Two messages for a receiver that sleeps on their type and one for the
    queue. -/
theorem message_delivery_handover : ∃ s, Run step (State.init 64) s ∧
    (s.taken.length = 1 ∧ s.queue.qMessages.length = 1 ∧ s.received = []) ∧ Delivery s := by
  obtain ⟨s, hrun, hs⟩ := exec_check step (State.init 64)
    [.msgrcv 1 16 5 ⟨false, false, false, false⟩ 8192 0, .rcvLock 1 true false,
      .msgsnd 2 5 8 false 8192 0, .msgsnd 3 5 4 false 8192 0, .sndLock 3 true, .sndLock 2 true]
    (fun s => s.taken.length = 1 ∧ s.queue.qMessages.length = 1 ∧ s.received = []) (by decide)
  exact ⟨s, hrun, of_decide_eq_true hs, message_delivery hrun⟩

end DroidLkm.Msg
