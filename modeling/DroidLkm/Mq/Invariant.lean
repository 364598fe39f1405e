/-
  POSIX message queues — what holds whenever the lock is free.

  * `Call.accepts`, `Call.got`: the message that a call has brought or received;
  * `Waits`: the lists are the calls asleep that nobody has served;
  * `Inv`: with `Custody`, an accepted message is stored, freed with the queue,
    or has been given to one receiver; there is room; and nobody waits for a
    message while one is stored.

  Inside a section a message may have left the queue for a call that does not
  have it yet: `Inv` says so of the call and the message in hand.
-/
import DroidLkm.Lib.Custody
import DroidLkm.Mq.Calls

namespace DroidLkm.Mq

/-! ## Calls and messages -/

namespace Call

/-- The message that a send has brought. -/
def accepts : Call → Option MsgMsg
  | .sent msg ret => if ret = 0 then some msg else none
  | .sleeping .send wait => if wait.ready then wait.msg else none
  | _ => none

/-- The message that a receive has been given. -/
def got : Call → Option MsgMsg
  | .received msg _ => msg
  | .sleeping .recv wait => wait.msg
  | _ => none

/-- What a call in that place has. -/
def Ok (c : ℕ) : Call → Prop
  | .sent msg _ => msg.id = c
  | .sleeping .send wait => ∃ msg, wait.msg = some msg ∧ msg.id = c
  | .sleeping .recv wait => wait.ready = wait.msg.isSome
  | .crashed => False
  | _ => True

variable {c : ℕ} {x : Call} {m : MsgMsg}

theorem accepts_id (hx : x.Ok c) (h : x.accepts = some m) : m.id = c := by
  cases x with
  | sent msg ret =>
    simp only [accepts] at h
    split at h <;> cases h
    exact hx
  | sleeping sr wait =>
    cases sr with
    | send =>
      obtain ⟨msg, hmsg, hid⟩ := hx
      simp only [accepts, hmsg] at h
      split at h <;> cases h
      exact hid
    | recv => cases h
  | _ => cases h

end Call

/-- A message was accepted: the send that brought it has returned 0, or will. -/
def Accepted (s : State) (m : MsgMsg) : Prop := (s.call m.id).accepts = some m

/-- A receive has the message, or it is the one in hand. -/
def Held (s : State) (hand : Option (ℕ × MsgMsg)) (r : ℕ) (m : MsgMsg) : Prop :=
  (s.call r).got = some m ∨ hand = some (r, m)

structure Waits (s : State) : Prop where
  calls : ∀ c, (s.call c).Ok c
  nodup : ∀ sr, (s.info.eWaitQ sr).Nodup
  listed : ∀ sr c, c ∈ s.info.eWaitQ sr ↔ ∃ msg, s.call c = .sleeping sr ⟨msg, false⟩
  usersNodup : s.users.Nodup
  users : ∀ c, c ∈ s.users ↔ ∃ sr wait, s.call c = .sleeping sr wait

structure Inv (hand : Option (ℕ × MsgMsg)) (s : State) : Prop where
  ok : s.info.Ok
  waits : Waits s
  mail : Custody (Accepted s) (s.info.stored ++ s.evicted) (Held s hand)
  room : s.info.curmsgs ≤ s.info.maxmsg
  empty : s.info.eWaitQ .recv ≠ [] → s.info.stored = []

variable {s s' : State} {c : ℕ} {x : Call} {m msg : MsgMsg} {hand : Option (ℕ × MsgMsg)}
  {wait : ExtWaitQueue} {sr : Side}

/-! ## One call changes -/

theorem accepted_update (hx : x.Ok c) (hcall : s'.call = Function.update s.call c x) :
    Accepted s' m ↔ x.accepts = some m ∨ m.id ≠ c ∧ Accepted s m := by
  unfold Accepted
  rw [hcall]
  by_cases hm : m.id = c
  · rw [hm, Function.update_self]
    simp
  · rw [Function.update_of_ne hm]
    constructor
    · intro h
      exact Or.inr ⟨hm, h⟩
    · rintro (h | h)
      · exact absurd (Call.accepts_id hx h) hm
      · exact h.2

theorem held_update (hcall : s'.call = Function.update s.call c x) {r : ℕ} :
    Held s' hand r m ↔ (r = c ∧ x.got = some m ∨ r ≠ c ∧ (s.call r).got = some m) ∨
      hand = some (r, m) := by
  unfold Held
  rw [hcall]
  by_cases hr : r = c
  · subst hr
    simp
  · rw [Function.update_of_ne hr]
    simp [hr]

/-- The call brings and has what it did. -/
theorem accepted_same (hx : x.Ok c) (hcall : s'.call = Function.update s.call c x)
    (ha : x.accepts = (s.call c).accepts) (m : MsgMsg) : Accepted s' m ↔ Accepted s m := by
  rw [accepted_update hx hcall, ha]
  constructor
  · rintro (h | h)
    · have hid := Call.accepts_id hx (ha.trans h)
      unfold Accepted
      rw [hid]
      exact h
    · exact h.2
  · intro h
    by_cases hm : m.id = c
    · exact Or.inl (hm ▸ h)
    · exact Or.inr ⟨hm, h⟩

theorem held_same (hcall : s'.call = Function.update s.call c x) (hg : x.got = (s.call c).got)
    (r : ℕ) (m : MsgMsg) : Held s' hand r m ↔ Held s hand r m := by
  unfold Held
  rw [hcall]
  by_cases hr : r = c
  · subst hr
    rw [Function.update_self, hg]
  · rw [Function.update_of_ne hr]

/-- The call has brought its message. -/
theorem accepted_new (hx : x.Ok c) (hcall : s'.call = Function.update s.call c x)
    (hold : (s.call c).accepts = none) (ha : x.accepts = some msg) (m : MsgMsg) :
    Accepted s' m ↔ Accepted s m ∨ m = msg := by
  rw [accepted_update hx hcall, ha]
  have hid := Call.accepts_id hx ha
  constructor
  · rintro (h | h)
    · exact Or.inr (Option.some.inj h).symm
    · exact Or.inl h.2
  · rintro (h | rfl)
    · refine Or.inr ⟨?_, h⟩
      intro hm
      unfold Accepted at h
      rw [hm, hold] at h
      cases h
    · exact Or.inl rfl

theorem not_accepted (hid : msg.id = c) (hold : (s.call c).accepts = none) : ¬Accepted s msg := by
  unfold Accepted
  rw [hid, hold]
  rintro ⟨⟩

/-- The call has been given a message. -/
theorem held_new (hcall : s'.call = Function.update s.call c x) (hold : (s.call c).got = none)
    (hg : x.got = some msg) (r : ℕ) (m : MsgMsg) :
    Held s' hand r m ↔ Held s hand r m ∨ r = c ∧ m = msg := by
  rw [held_update hcall, hg, Held]
  by_cases hr : r = c
  · subst hr
    simp only [true_and, ne_eq, not_true, false_and, or_false, hold, Option.some.injEq, reduceCtorEq,
      false_or]
    rw [or_comm, eq_comm (a := msg)]
  · simp [hr]

/-- The lists and the users after a call has changed. -/
theorem Waits.update (h : Waits s) (hcall : s'.call = Function.update s.call c x) (hx : x.Ok c)
    (hnodup : ∀ sr, (s'.info.eWaitQ sr).Nodup)
    (hother : ∀ sr c', c' ≠ c → (c' ∈ s'.info.eWaitQ sr ↔ c' ∈ s.info.eWaitQ sr))
    (hself : ∀ sr, c ∈ s'.info.eWaitQ sr ↔ ∃ msg, x = .sleeping sr ⟨msg, false⟩)
    (hunodup : s'.users.Nodup) (huother : ∀ c', c' ≠ c → (c' ∈ s'.users ↔ c' ∈ s.users))
    (huself : c ∈ s'.users ↔ ∃ sr wait, x = .sleeping sr wait) : Waits s' := by
  refine ⟨?_, hnodup, ?_, hunodup, ?_⟩
  · intro c'
    rw [hcall]
    by_cases hc : c' = c
    · subst hc
      rw [Function.update_self]
      exact hx
    · rw [Function.update_of_ne hc]
      exact h.calls c'
  · intro sr c'
    rw [hcall]
    by_cases hc : c' = c
    · subst hc
      rw [Function.update_self]
      exact hself sr
    · rw [Function.update_of_ne hc, hother sr c' hc]
      exact h.listed sr c'
  · intro c'
    rw [hcall]
    by_cases hc : c' = c
    · subst hc
      rw [Function.update_self]
      exact huself
    · rw [Function.update_of_ne hc, huother c' hc]
      exact h.users c'

/-- A call that has begun and ended, without sleeping. -/
theorem Waits.idle (h : Waits s) (hidle : s.call c = .idle)
    (hcall : s'.call = Function.update s.call c x) (hx : x.Ok c)
    (hawake : ∀ sr wait, x ≠ .sleeping sr wait) (hq : s'.info.eWaitQ = s.info.eWaitQ)
    (hu : s'.users = s.users) : Waits s' := by
  refine h.update hcall hx ?_ ?_ ?_ ?_ ?_ ?_
  · rw [hq]
    exact h.nodup
  · intro sr c' _
    rw [hq]
  · intro sr
    rw [hq, h.listed, hidle]
    refine iff_of_false (by simp) ?_
    rintro ⟨msg, hmsg⟩
    exact hawake sr _ hmsg
  · rw [hu]
    exact h.usersNodup
  · intro c' _
    rw [hu]
  · rw [hu, h.users, hidle]
    refine iff_of_false (by simp) ?_
    rintro ⟨sr, wait, hwait⟩
    exact hawake sr wait hwait

end DroidLkm.Mq
