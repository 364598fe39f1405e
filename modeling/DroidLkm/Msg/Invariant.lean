/-
  SysV message queues — what holds whenever the lock is free.

  * `History`: the messages taken, freed and queued are those accepted, and
    those of one type are in the order in which they were accepted;
  * `Handed`: a message taken has been returned to its receiver or waits in the
    receiver's `r_msg`, and no message is returned twice;
  * `Waiters`: the receivers on the queue are those asleep with `-EAGAIN`, and
    nothing on the queue matches what they wait for.
-/
import DroidLkm.Lib.PerKey
import DroidLkm.Msg.Queue

namespace DroidLkm.Msg

/-! ## The parts of a phase -/

namespace Phase

/-- The message that a sender brings. -/
def holds : Phase → Option MsgMsg
  | .sending msg _ | .sndAsleep msg _ => some msg
  | _ => none

/-- The arguments of a receive. -/
def args : Phase → Option RcvArgs
  | .receiving a | .rcvAsleep a | .rcvWoken a => some a
  | _ => none

/-- The task has a `msr_d` that others may write. -/
def waits : Phase → Bool
  | .rcvAsleep _ | .rcvWoken _ => true
  | _ => false

end Phase

/-- `MSG_COPY` is the only way to search by number, and never sleeps. -/
def RcvArgs.Ok (a : RcvArgs) : Prop :=
  (a.mode = .number → a.msgflg.copy = true) ∧ (a.msgflg.copy = true → a.msgflg.nowait = true)

/-- `r_msg` says that nothing has happened yet. -/
abbrev again : RMsg := .err (-EAGAIN)

/-- A message in the `r_msg` of a receiver that has not read it yet. -/
def InFlight (s : State) (m : MsgMsg) (t : ℕ) : Prop :=
  (s.phase t).waits = true ∧ (s.msr t).rMsg = .msg m

/-- The messages taken, freed and queued. -/
def State.places (s : State) : List MsgMsg :=
  s.taken.map Prod.fst ++ s.freed ++ s.queue.qMessages

structure History (s : State) : Prop where
  agree : PerKey.Agree MsgMsg.mType s.places s.accepted
  nodup : s.accepted.Nodup
  fresh : ∀ m ∈ s.accepted, m.id < s.nextMsg
  held : ∀ t m, (s.phase t).holds = some m → m.id < s.nextMsg ∧ ∀ x ∈ s.accepted, x.id ≠ m.id
  heldOnce : ∀ t t' m m', (s.phase t).holds = some m → (s.phase t').holds = some m' →
    m.id = m'.id → t = t'
  alive : s.queue.valid = true → s.freed = [] ∧ ∀ t, s.phase t ≠ .freeing

structure Handed (s : State) : Prop where
  taken : ∀ m t, (m, t) ∈ s.taken ↔ (m, t) ∈ s.received ∨ InFlight s m t
  nodup : (s.received.map Prod.fst).Nodup
  apart : ∀ m t, InFlight s m t → m ∉ s.received.map Prod.fst

structure Waiters (s : State) : Prop where
  nodup : s.queue.qReceivers.Nodup
  args : ∀ t a, (s.phase t).args = some a → a.Ok
  asleep : s.queue.valid = true → ∀ t ∈ s.queue.qReceivers,
    (s.phase t).waits = true ∧ (s.msr t).rMsg = again
  listed : ∀ t, (s.phase t).waits = true → (s.msr t).rMsg = again →
    s.queue.valid = true ∧ t ∈ s.queue.qReceivers
  unmatched : s.queue.valid = true → ∀ t ∈ s.queue.qReceivers, ∀ m ∈ s.queue.qMessages,
    testmsg m (s.msr t).rMsgtype (s.msr t).rMode = false
  expunged : s.queue.valid = false → ∀ t ∈ s.queue.qReceivers, (s.msr t).rMsg ≠ again

structure Inv (s : State) : Prop where
  history : History s
  handed : Handed s
  waiters : Waiters s

/-! ## Changes that matter little -/

variable {s s' : State} {t : ℕ} {p : Phase} {m msg : MsgMsg}

theorem History.congr (h : History s) (hacc : s'.accepted = s.accepted)
    (hnext : s'.nextMsg = s.nextMsg) (hagree : PerKey.Agree MsgMsg.mType s'.places s.places)
    (hheld : ∀ t m, (s'.phase t).holds = some m → (s.phase t).holds = some m)
    (halive : s'.queue.valid = true → s'.freed = [] ∧ ∀ t, s'.phase t ≠ .freeing) :
    History s' where
  agree := hacc ▸ hagree.trans h.agree
  nodup := hacc ▸ h.nodup
  fresh := by rw [hacc, hnext]; exact h.fresh
  held t m hm := by rw [hacc, hnext]; exact h.held t m (hheld t m hm)
  heldOnce t t' m m' hm hm' := h.heldOnce t t' m m' (hheld t m hm) (hheld t' m' hm')
  alive := halive

theorem Handed.congr (h : Handed s) (ht : s'.taken = s.taken) (hr : s'.received = s.received)
    (hf : ∀ m t, InFlight s' m t ↔ InFlight s m t) : Handed s' where
  taken m t := by rw [ht, hr, hf]; exact h.taken m t
  nodup := hr ▸ h.nodup
  apart m t hm := hr ▸ h.apart m t ((hf m t).1 hm)

/-- Only the list of messages gets shorter, and receivers leave who have been
    given an answer. -/
theorem Waiters.congr (h : Waiters s) (hq : s'.queue.qReceivers = s.queue.qReceivers)
    (hv : s'.queue.valid = s.queue.valid) (hmsr : s'.msr = s.msr)
    (hsub : ∀ m ∈ s'.queue.qMessages, m ∈ s.queue.qMessages)
    (hw : ∀ t, (s'.phase t).waits = (s.phase t).waits ∨
      (s'.phase t).waits = false ∧ (s.msr t).rMsg ≠ again)
    (ha : ∀ t a, (s'.phase t).args = some a → a.Ok) : Waiters s' where
  nodup := hq ▸ h.nodup
  args := ha
  asleep := by
    rw [hq, hv, hmsr]
    intro hval t ht
    obtain ⟨h1, h2⟩ := h.asleep hval t ht
    rcases hw t with he | ⟨-, hne⟩
    · exact ⟨he ▸ h1, h2⟩
    · exact absurd h2 hne
  listed := by
    rw [hq, hv, hmsr]
    intro t hwt hr
    rcases hw t with he | ⟨hf, -⟩
    · exact h.listed t (he ▸ hwt) hr
    · rw [hf] at hwt; cases hwt
  unmatched := by
    rw [hq, hv, hmsr]
    exact fun hval t ht m hm => h.unmatched hval t ht m (hsub m hm)
  expunged := by rw [hq, hv, hmsr]; exact h.expunged

theorem update_holds (hp : p.holds = none ∨ p.holds = (s.phase t).holds) (t' : ℕ) (m : MsgMsg)
    (h : (Function.update s.phase t p t').holds = some m) : (s.phase t').holds = some m := by
  by_cases he : t' = t
  · subst he
    rw [Function.update_self] at h
    rcases hp with hp | hp
    · rw [hp] at h; cases h
    · rwa [hp] at h
  · rwa [Function.update_of_ne he] at h

theorem update_args (hw : Waiters s) (hp : ∀ a, p.args = some a → a.Ok) (t' : ℕ) (a : RcvArgs)
    (h : (Function.update s.phase t p t').args = some a) : a.Ok := by
  by_cases he : t' = t
  · subst he
    rw [Function.update_self] at h
    exact hp a h
  · rw [Function.update_of_ne he] at h
    exact hw.args t' a h

theorem update_alive (h : History s) (hp : p ≠ .freeing) (hv : s.queue.valid = true) :
    s.freed = [] ∧ ∀ t', Function.update s.phase t p t' ≠ .freeing := by
  refine ⟨(h.alive hv).1, fun t' => ?_⟩
  by_cases he : t' = t
  · subst he; rwa [Function.update_self]
  · rw [Function.update_of_ne he]; exact (h.alive hv).2 t'

/-- A task goes on, with the message it has brought or without, and does not
    leave a `msr_d` behind that holds a message or is on the queue. -/
theorem Inv.setPhase (hi : Inv s) (hp : p.holds = none ∨ p.holds = (s.phase t).holds)
    (hw : p.waits = (s.phase t).waits ∨
      p.waits = false ∧ ∃ e, e ≠ -EAGAIN ∧ (s.msr t).rMsg = .err e)
    (ha : ∀ a, p.args = some a → a.Ok) (hf : p ≠ .freeing) : Inv (s.setPhase t p) := by
  refine ⟨hi.history.congr rfl rfl PerKey.Agree.rfl (update_holds hp) (update_alive hi.history hf),
    hi.handed.congr rfl rfl fun m t' => ?_,
    hi.waiters.congr rfl rfl rfl (fun _ hm => hm) (fun t' => ?_) (update_args hi.waiters ha)⟩
  · by_cases he : t' = t
    · subst he
      simp only [InFlight, State.setPhase, Function.update_self]
      rcases hw with hw | ⟨hw, e, -, hr⟩
      · rw [hw]
      · simp [hw, hr]
    · simp only [InFlight, State.setPhase, Function.update_of_ne he]
  · by_cases he : t' = t
    · subst he
      simp only [State.setPhase, Function.update_self]
      refine hw.imp_right fun ⟨h, e, hne, hr⟩ => ⟨h, ?_⟩
      rw [hr]
      exact fun h => hne (RMsg.err.inj h)
    · exact .inl (by simp only [State.setPhase, Function.update_of_ne he])

/-- The same for a return. -/
theorem Inv.ret (hi : Inv s) {r : ℤ}
    (hw : (s.phase t).waits = false ∨ ∃ e, e ≠ -EAGAIN ∧ (s.msr t).rMsg = .err e) :
    Inv (s.ret t r) :=
  hi.setPhase (.inl rfl) (hw.imp (fun h => h.symm) fun h => ⟨rfl, h⟩) nofun nofun

/-- What a queue is beside its messages and receivers does not matter. -/
theorem Inv.setQueue (hi : Inv s) {q : MsgQueue} (hm : q.qMessages = s.queue.qMessages)
    (hr : q.qReceivers = s.queue.qReceivers) (hv : q.valid = s.queue.valid) :
    Inv { s with queue := q } := by
  refine ⟨hi.history.congr rfl rfl ?_ (fun _ _ h => h) (fun h => hi.history.alive (hv ▸ h)),
    hi.handed.congr rfl rfl fun _ _ => Iff.rfl,
    hi.waiters.congr hr hv rfl (fun _ h => by rwa [← hm]) (fun _ => .inl rfl) hi.waiters.args⟩
  simp only [State.places, hm]
  exact PerKey.Agree.rfl

/-! ## Consequences -/

/-- No message is in two places. -/
theorem History.places_nodup (h : History s) : s.places.Nodup :=
  h.agree.perm.nodup_iff.2 h.nodup

theorem History.mem_places (h : History s) : m ∈ s.places ↔ m ∈ s.accepted :=
  h.agree.perm.mem_iff

/-- A message is taken by one task only. -/
theorem History.taken_inj (h : History s) {t' : ℕ} (ht : (m, t) ∈ s.taken) (ht' : (m, t') ∈ s.taken) :
    t = t' := by
  have hnd : (s.taken.map Prod.fst).Nodup :=
    (List.nodup_append.1 (List.nodup_append.1 h.places_nodup).1).1
  exact congrArg Prod.snd (List.inj_on_of_nodup_map hnd ht ht' rfl)

theorem History.mem_accepted_of_taken (h : History s) (ht : (m, t) ∈ s.taken) : m ∈ s.accepted :=
  h.mem_places.1 (by simpa [State.places] using .inl ⟨t, ht⟩)

theorem Handed.mem_taken (h : Handed s) (hm : m ∈ s.received.map Prod.fst) :
    ∃ t, (m, t) ∈ s.taken := by
  obtain ⟨⟨m', t⟩, hx, rfl⟩ := List.mem_map.1 hm
  exact ⟨t, (h.taken m' t).2 (.inl hx)⟩

theorem init_inv (qbytes : ℕ) : Inv (State.init qbytes) := by
  refine ⟨⟨PerKey.Agree.rfl, List.nodup_nil, by simp [State.init], ?_, ?_, ?_⟩,
    ⟨?_, List.nodup_nil, by simp [State.init]⟩,
    ⟨List.nodup_nil, ?_, by simp [State.init], ?_, by simp [State.init], by simp [State.init]⟩⟩
  all_goals simp [State.init, Phase.holds, Phase.args, Phase.waits, InFlight]

end DroidLkm.Msg
