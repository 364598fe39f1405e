/-
  SysV message queues — `msgsnd` keeps the invariant.

  * `expunge_spec`, `pipelined_spec`: what the two loops over the receivers do;
  * `accept_inv`: the end of `do_msgsnd`, which hands the message over or puts
    it on the queue;
  * `sndPass_inv`: a pass of its loop.
-/
import DroidLkm.Msg.Invariant

namespace DroidLkm.Msg

variable {s s' : State} {t : ℕ} {p : Phase} {m msg : MsgMsg} {msr : ℕ → MsgReceiver} {l : List ℕ}

/-! ## The loops over the receivers -/

@[simp] theorem storeRMsg_self (r : RMsg) :
    storeRMsg msr t r t = { msr t with rMsg := r } :=
  Function.update_self ..

theorem storeRMsg_of_ne {t' : ℕ} (h : t' ≠ t) (r : RMsg) : storeRMsg msr t r t' = msr t' :=
  Function.update_of_ne h ..

theorem expunge_spec (res : ℤ) (t : ℕ) : expungeAll msr l res t =
    if t ∈ l then { msr t with rMsg := .err res } else msr t := by
  induction l generalizing msr with
  | nil => simp [expungeAll]
  | cons r l ih =>
    simp only [expungeAll, List.foldl_cons] at ih ⊢
    rw [ih]
    by_cases hr : t = r
    · subst hr; simp
    · simp [storeRMsg_of_ne hr, hr]

/-- What `pipelined_send` does with the receivers: those that stay match
    nothing, the others have an error or the message. -/
structure Sent (msg : MsgMsg) (msr : ℕ → MsgReceiver) (l : List ℕ) (msr' : ℕ → MsgReceiver)
    (stay : List ℕ) (got : Option ℕ) : Prop where
  sublist : stay.Sublist l
  frame : ∀ t, t ∈ stay ∨ t ∉ l → msr' t = msr t
  gone : ∀ t ∈ l, t ∉ stay → (msr' t).rMsg = if got = some t then .msg msg else .err (-E2BIG)
  receiver : ∀ t, got = some t → t ∈ l ∧ t ∉ stay ∧
    testmsg msg (msr t).rMsgtype (msr t).rMode = true
  unmatched : got = none → ∀ t ∈ stay, testmsg msg (msr t).rMsgtype (msr t).rMode = false

theorem pipelined_spec (msg : MsgMsg) (msr : ℕ → MsgReceiver) (hl : l.Nodup) :
    Sent msg msr l (pipelinedSend msg msr l).1 (pipelinedSend msg msr l).2.1
      (pipelinedSend msg msr l).2.2 := by
  induction l generalizing msr with
  | nil => exact ⟨by simp [pipelinedSend], by simp [pipelinedSend], by simp, by simp [pipelinedSend],
      by simp [pipelinedSend]⟩
  | cons r l ih =>
    obtain ⟨hr, hl⟩ := List.nodup_cons.1 hl
    have hne : ∀ t ∈ l, t ≠ r := fun t ht he => hr (he ▸ ht)
    simp only [pipelinedSend]
    split_ifs with htest hbig
    · -- too small a buffer: the receiver leaves with an error
      obtain ⟨h1, h2, h3, h4, h5⟩ := ih (storeRMsg msr r (.err (-E2BIG))) hl
      have hstay : ∀ t ∈ (pipelinedSend msg (storeRMsg msr r (.err (-E2BIG))) l).2.1, t ≠ r :=
        fun t ht => hne t (h1.subset ht)
      refine ⟨h1.cons r, fun t ht => ?_, fun t ht hs => ?_, fun t ht => ?_, fun hn t ht => ?_⟩
      · have htr : t ≠ r := by
          rintro rfl
          rcases ht with ht | ht
          · exact hstay _ ht rfl
          · exact ht List.mem_cons_self
        rw [h2 t (ht.imp_right fun h hm => h (List.mem_cons_of_mem _ hm)), storeRMsg_of_ne htr]
      · rcases List.mem_cons.1 ht with rfl | ht
        · rw [h2 t (.inr hr), storeRMsg_self, if_neg]
          exact fun h => hr (h4 t h).1
        · exact h3 t ht hs
      · obtain ⟨i1, i2, i3⟩ := h4 t ht
        rw [storeRMsg_of_ne (hne t i1)] at i3
        exact ⟨List.mem_cons_of_mem _ i1, i2, i3⟩
      · have := h5 hn t ht
        rwa [storeRMsg_of_ne (hstay t ht)] at this
    · -- the receiver gets the message
      refine ⟨List.sublist_cons_self r l, fun t ht => ?_, fun t ht hs => ?_, fun t ht => ?_,
        fun hn => by cases hn⟩
      · refine storeRMsg_of_ne ?_ _
        rintro rfl
        rcases ht with ht | ht
        · exact hr ht
        · exact ht List.mem_cons_self
      · obtain rfl := (List.mem_cons.1 ht).resolve_right hs
        simp
      · obtain rfl := Option.some.inj ht
        exact ⟨List.mem_cons_self, hr, htest⟩
    · -- the receiver stays
      obtain ⟨h1, h2, h3, h4, h5⟩ := ih msr hl
      refine ⟨h1.cons_cons r, fun t ht => ?_, fun t ht hs => ?_, fun t ht => ?_, fun hn t ht => ?_⟩
      · by_cases htr : t = r
        · subst htr; exact h2 t (.inr hr)
        · exact h2 t (by simpa [htr] using ht)
      · have htr : t ≠ r := fun he => hs (he ▸ List.mem_cons_self)
        exact h3 t (by simpa [htr] using ht) fun h => hs (List.mem_cons_of_mem _ h)
      · obtain ⟨i1, i2, i3⟩ := h4 t ht
        exact ⟨List.mem_cons_of_mem _ i1, by simpa [hne t i1] using i2, i3⟩
      · rcases List.mem_cons.1 ht with rfl | ht
        · simpa using htest
        · exact h5 hn t ht

/-! ## Sending -/

variable {stay : List ℕ} {got : Option ℕ}

/-- A receiver is in no queue while it sends. -/
theorem not_waits_of_holds (h : p.holds = some m) : p.waits = false := by
  cases p <;> simp [Phase.holds, Phase.waits] at h ⊢

theorem update_user_waits (h : (s.phase t).waits = false) (r : ℤ) (t' : ℕ) :
    (Function.update s.phase t (.user r) t').waits = (s.phase t').waits := by
  by_cases he : t' = t
  · subst he; rw [Function.update_self, h]; rfl
  · rw [Function.update_of_ne he]

/-- The message handed over is the only one that comes to be in flight. -/
theorem Sent.inFlight (hs : Sent msg s.msr s.queue.qReceivers msr stay got) (hw : Waiters s)
    (hv : s.queue.valid = true) (hmsr : s'.msr = msr)
    (hp : ∀ t, (s'.phase t).waits = (s.phase t).waits) (m : MsgMsg) (t : ℕ) :
    InFlight s' m t ↔ InFlight s m t ∨ m = msg ∧ got = some t := by
  by_cases ht : t ∈ s.queue.qReceivers ∧ t ∉ stay
  · obtain ⟨hwt, hr⟩ := hw.asleep hv t ht.1
    have hgone := hs.gone t ht.1 ht.2
    simp only [InFlight, hp, hmsr, hwt, hr, hgone, true_and, reduceCtorEq, false_or]
    by_cases hg : got = some t
    · simp [hg, eq_comm]
    · simp [hg]
  · have hframe := hs.frame t (by tauto)
    have hng : got ≠ some t := fun h => ht ⟨(hs.receiver t h).1, (hs.receiver t h).2.1⟩
    simp only [InFlight, hp, hmsr, hframe, hng, and_false, or_false]

theorem Sent.waiters (hs : Sent msg s.msr s.queue.qReceivers msr stay got) (hw : Waiters s)
    (hv : s.queue.valid = true) (hmsr : s'.msr = msr)
    (hp : ∀ t, (s'.phase t).waits = (s.phase t).waits) (hq : s'.queue.qReceivers = stay)
    (hv' : s'.queue.valid = true)
    (hm : ∀ m ∈ s'.queue.qMessages, m ∈ s.queue.qMessages ∨ m = msg ∧ got = none)
    (ha : ∀ t a, (s'.phase t).args = some a → a.Ok) : Waiters s' := by
  have hframe : ∀ t ∈ stay, msr t = s.msr t := fun t ht => hs.frame t (.inl ht)
  refine ⟨hq ▸ hs.sublist.nodup hw.nodup, ha, fun _ t ht => ?_, fun t hwt hr => ⟨hv', ?_⟩,
    fun _ t ht m hmem => ?_, fun h => by rw [hv'] at h; cases h⟩
  · rw [hq] at ht
    rw [hp, hmsr, hframe t ht]
    exact hw.asleep hv t (hs.sublist.subset ht)
  · rw [hp] at hwt
    rw [hmsr] at hr
    rw [hq]
    by_contra hstay
    by_cases ht : t ∈ s.queue.qReceivers
    · have := hs.gone t ht hstay
      rw [hr] at this
      split_ifs at this
      exact absurd this (by decide)
    · rw [hs.frame t (.inr ht)] at hr
      exact ht (hw.listed t hwt hr).2
  · rw [hq] at ht
    rw [hmsr, hframe t ht]
    rcases hm m hmem with hold | ⟨rfl, hg⟩
    · exact hw.unmatched hv t (hs.sublist.subset ht) m hold
    · exact hs.unmatched hg t ht

/-- A sender's message is accepted, wherever it goes. -/
theorem History.accept (h : History s) (hh : (s.phase t).holds = some msg)
    (hacc : s'.accepted = s.accepted ++ [msg]) (hnext : s'.nextMsg = s.nextMsg)
    (hphase : s'.phase = Function.update s.phase t (.user 0))
    (hagree : PerKey.Agree MsgMsg.mType s'.places (s.places ++ [msg]))
    (hv : s.queue.valid = true) (hfreed : s'.freed = s.freed) : History s' := by
  obtain ⟨hid, hnew⟩ := h.held t msg hh
  have hheld : ∀ t' m, (s'.phase t').holds = some m → t' ≠ t ∧ (s.phase t').holds = some m := by
    intro t' m hm
    rw [hphase] at hm
    refine ⟨?_, update_holds (.inl rfl) t' m hm⟩
    rintro rfl
    rw [Function.update_self] at hm
    cases hm
  refine ⟨?_, ?_, ?_, fun t' m hm => ?_, fun t₁ t₂ m₁ m₂ h₁ h₂ => ?_, fun _ => ?_⟩
  · rw [hacc]
    exact hagree.trans (h.agree.append PerKey.Agree.rfl)
  · rw [hacc]
    exact List.Nodup.append h.nodup (List.nodup_singleton _)
      (List.disjoint_singleton.2 fun hm => hnew msg hm rfl)
  · rw [hacc, hnext]
    intro x hx
    rcases List.mem_append.1 hx with hx | hx
    · exact h.fresh x hx
    · rw [List.mem_singleton.1 hx]; exact hid
  · obtain ⟨hne, hm⟩ := hheld t' m hm
    rw [hacc, hnext]
    refine ⟨(h.held t' m hm).1, fun x hx => ?_⟩
    rcases List.mem_append.1 hx with hx | hx
    · exact (h.held t' m hm).2 x hx
    · rw [List.mem_singleton.1 hx]
      exact fun he => hne (h.heldOnce t' t m msg hm hh he.symm)
  · exact h.heldOnce t₁ t₂ m₁ m₂ (hheld t₁ m₁ h₁).2 (hheld t₂ m₂ h₂).2
  · rw [hfreed, hphase]
    exact update_alive h nofun hv

/-- A message goes to a receiver that has nothing to do with it yet. -/
theorem Handed.handOver {r : ℕ} (h : Handed s) (hh : History s) (hnew : msg ∉ s.accepted)
    (ht : s'.taken = s.taken ++ [(msg, r)]) (hr : s'.received = s.received)
    (hf : ∀ m t, InFlight s' m t ↔ InFlight s m t ∨ m = msg ∧ some r = some t) : Handed s' := by
  refine ⟨fun m t => ?_, hr ▸ h.nodup, fun m t hm => ?_⟩
  · rw [ht, hr, List.mem_append, h.taken, hf, List.mem_singleton, Prod.mk.injEq,
      Option.some.injEq, or_assoc, eq_comm (a := t)]
  · rw [hr]
    rcases (hf m t).1 hm with hm | ⟨rfl, -⟩
    · exact h.apart m t hm
    · intro hrec
      obtain ⟨t', ht'⟩ := h.mem_taken hrec
      exact hnew (hh.mem_accepted_of_taken ht')

/-- **The end of a `msgsnd`** keeps the invariant. -/
theorem accept_inv (hi : Inv s) (hv : s.queue.valid = true)
    (hh : (s.phase t).holds = some msg) : Inv (s.accept t msg) := by
  have hs := pipelined_spec msg s.msr hi.waiters.nodup
  have hnw := update_user_waits (not_waits_of_holds hh) 0
  have hnew : msg ∉ s.accepted := fun hm => (hi.history.held t msg hh).2 msg hm rfl
  have hfreed := (hi.history.alive hv).1
  unfold State.accept
  rcases hsend : pipelinedSend msg s.msr s.queue.qReceivers with ⟨msr, stay, _ | r⟩ <;>
    rw [hsend] at hs
  · refine ⟨hi.history.accept hh rfl rfl rfl ?_ hv rfl,
      hi.handed.congr rfl rfl fun m t' => ?_,
      hs.waiters hi.waiters hv rfl hnw rfl hv (fun m hm => ?_) (update_args hi.waiters nofun)⟩
    · simp only [State.places, enqueueMsg, ← List.append_assoc]
      exact PerKey.Agree.rfl
    · rw [hs.inFlight hi.waiters hv rfl hnw]
      simp
    · simpa [enqueueMsg] using hm
  · refine ⟨hi.history.accept hh rfl rfl rfl ?_ hv rfl,
      hi.handed.handOver hi.history hnew rfl rfl (hs.inFlight hi.waiters hv rfl hnw),
      hs.waiters hi.waiters hv rfl hnw rfl hv (fun m hm => .inl hm) (update_args hi.waiters nofun)⟩
    -- no message of this type is queued, for it would match the receiver too
    obtain ⟨hr, -, htest⟩ := hs.receiver r rfl
    have htype : ∀ x ∈ s.queue.qMessages, x.mType ≠ msg.mType := by
      intro x hx he
      have := hi.waiters.unmatched hv r hr x hx
      rw [testmsg_congr he, htest] at this
      cases this
    have := (PerKey.Agree.rfl (l := s.taken.map Prod.fst)).append (PerKey.agree_swap htype)
    simpa [State.places, State.ret, State.setPhase, hfreed] using this

/-- A pass of the loop of `msgsnd` keeps the invariant. -/
theorem sndPass_inv {nowait allowed : Bool} (hi : Inv s) (hh : (s.phase t).holds = some msg) :
    Inv (s.sndPass t msg nowait allowed) := by
  have hnw := not_waits_of_holds hh
  unfold State.sndPass
  split_ifs with _ hv hfits _
  · exact hi.ret (.inl hnw)
  · exact hi.ret (.inl hnw)
  · exact accept_inv hi (by simpa using hv) hh
  · exact hi.ret (.inl hnw)
  · exact (hi.setPhase (p := .sndAsleep msg nowait) (.inr hh.symm) (.inl hnw.symm)
      nofun nofun).setQueue rfl rfl rfl

end DroidLkm.Msg
