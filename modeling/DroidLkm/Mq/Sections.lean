/-
  POSIX message queues — what each section does to the invariant.

  One lemma for each thing a section does: a call that ends at once, one that
  goes to sleep, one that is served, one that comes back; a message that is
  stored, handed over or taken.
-/
import DroidLkm.Mq.Invariant

namespace DroidLkm.Mq

open Info

variable {s s' : State} {c r : ℕ} {x : Call} {m msg : MsgMsg} {hand : Option (ℕ × MsgMsg)}
  {wait : ExtWaitQueue} {sr : Side} {i : Info} {prio : ℕ → ℤ}

/-! ## The lists -/

theorem wqAddList_perm (prio : ℕ → ℤ) (c : ℕ) (l : List ℕ) :
    (wqAddList prio c l).Perm (c :: l) := by
  induction l with
  | nil => exact List.Perm.refl _
  | cons w rest ih =>
    unfold wqAddList
    split
    · exact List.Perm.refl _
    · exact (ih.cons w).trans (List.Perm.swap c w rest)

theorem wqGetFirstWaiter_mem (h : i.wqGetFirstWaiter sr = some c) : c ∈ i.eWaitQ sr :=
  List.mem_of_getLast? h

theorem wqGetFirstWaiter_none (h : i.wqGetFirstWaiter sr = none) : i.eWaitQ sr = [] :=
  List.getLast?_eq_none_iff.1 h

/-- A call goes to sleep. -/
theorem Waits.sleep (h : Waits s) (hidle : s.call c = .idle) (hx : (Call.sleeping sr wait).Ok c)
    (hready : wait.ready = false) (prio : ℕ → ℤ) : Waits (s.wqSleep sr prio c wait) := by
  have hnot : ∀ sr, c ∉ s.info.eWaitQ sr := by
    intro sr hc
    obtain ⟨msg, hmsg⟩ := (h.listed sr c).1 hc
    rw [hidle] at hmsg
    cases hmsg
  have hq : ∀ sr', (s.wqSleep sr prio c wait).info.eWaitQ sr' =
      if sr' = sr then wqAddList prio c (s.info.eWaitQ sr) else s.info.eWaitQ sr' := by
    intro sr'
    exact Function.update_apply _ _ _ _
  have hperm := wqAddList_perm prio c (s.info.eWaitQ sr)
  refine h.update rfl hx ?_ ?_ ?_ ?_ ?_ ?_
  · intro sr'
    rw [hq]
    split
    · exact hperm.nodup_iff.2 (List.nodup_cons.2 ⟨hnot sr, h.nodup sr⟩)
    · exact h.nodup sr'
  · intro sr' c' hc
    rw [hq]
    split
    · next he => rw [hperm.mem_iff, List.mem_cons, he, or_iff_right hc]
    · exact Iff.rfl
  · intro sr'
    rw [hq]
    obtain ⟨msg, ready⟩ := wait
    obtain rfl : ready = false := hready
    split
    · next he =>
      rw [hperm.mem_iff, he]
      exact iff_of_true List.mem_cons_self ⟨msg, rfl⟩
    · next hne =>
      refine iff_of_false (hnot sr') ?_
      rintro ⟨msg', hmsg⟩
      exact hne (Call.sleeping.inj hmsg).1.symm
  · refine List.nodup_cons.2 ⟨?_, h.usersNodup⟩
    rw [h.users, hidle]
    simp
  · intro c' hc
    exact (List.mem_cons).trans (or_iff_right hc)
  · exact iff_of_true List.mem_cons_self ⟨sr, wait, rfl⟩

/-- What is in a list after an entry has left it. -/
theorem wqDel_eWaitQ (sr sr' : Side) (c : ℕ) : (i.wqDel sr c).eWaitQ sr' =
    if sr' = sr then (i.eWaitQ sr).erase c else i.eWaitQ sr' :=
  Function.update_apply _ _ _ _

theorem Waits.unlinked (h : Waits s) (hq : s'.info.eWaitQ = (s.info.wqDel sr c).eWaitQ) :
    (∀ sr, (s'.info.eWaitQ sr).Nodup) ∧
      (∀ sr' c', c' ≠ c → (c' ∈ s'.info.eWaitQ sr' ↔ c' ∈ s.info.eWaitQ sr')) ∧
        c ∉ s'.info.eWaitQ sr := by
  rw [hq]
  refine ⟨?_, ?_, ?_⟩
  · intro sr'
    rw [wqDel_eWaitQ]
    split
    · exact (h.nodup sr).erase c
    · exact h.nodup sr'
  · intro sr' c' hc
    rw [wqDel_eWaitQ]
    split
    · next he => rw [he, List.mem_erase_of_ne hc]
    · exact Iff.rfl
  · rw [wqDel_eWaitQ, if_pos rfl]
    exact (h.nodup sr).not_mem_erase

/-- A call asleep is served, and leaves its list. -/
theorem Waits.served (h : Waits s) {m₀ : Option MsgMsg} (hc : s.call c = .sleeping sr ⟨m₀, false⟩)
    (hx : (Call.sleeping sr ⟨some msg, true⟩).Ok c)
    (hcall : s'.call = Function.update s.call c (.sleeping sr ⟨some msg, true⟩))
    (hq : s'.info.eWaitQ = (s.info.wqDel sr c).eWaitQ) (hu : s'.users = s.users) : Waits s' := by
  obtain ⟨hnodup, hother, hgone⟩ := h.unlinked hq
  have hsr : ∀ sr', c ∈ s.info.eWaitQ sr' → sr' = sr := by
    intro sr' hmem
    obtain ⟨msg', hmsg⟩ := (h.listed sr' c).1 hmem
    rw [hc] at hmsg
    exact (Call.sleeping.inj hmsg).1.symm
  refine h.update hcall hx hnodup hother ?_ ?_ ?_ ?_
  · intro sr'
    refine iff_of_false ?_ (by simp)
    intro hmem
    by_cases he : sr' = sr
    · subst he
      exact hgone hmem
    · rw [hq, wqDel_eWaitQ, if_neg he] at hmem
      exact he (hsr sr' hmem)
  · rw [hu]
    exact h.usersNodup
  · intro c' _
    rw [hu]
  · rw [hu, h.users]
    exact iff_of_true ⟨sr, _, hc⟩ ⟨sr, _, rfl⟩

/-- A call asleep comes back. -/
theorem Waits.woken (h : Waits s) (hc : s.call c = .sleeping sr wait) (hx : x.Ok c)
    (hawake : ∀ sr wait, x ≠ .sleeping sr wait)
    (hcall : s'.call = Function.update s.call c x)
    (hq : wait.ready = true ∧ s'.info.eWaitQ = s.info.eWaitQ ∨
      s'.info.eWaitQ = (s.info.wqDel sr c).eWaitQ)
    (hu : s'.users = s.users.erase c) : Waits s' := by
  have hsr : ∀ sr', c ∈ s.info.eWaitQ sr' → sr' = sr ∧ wait.ready = false := by
    intro sr' hmem
    obtain ⟨msg', hmsg⟩ := (h.listed sr' c).1 hmem
    rw [hc] at hmsg
    obtain ⟨rfl, rfl⟩ := Call.sleeping.inj hmsg
    exact ⟨rfl, rfl⟩
  have hlists : (∀ sr, (s'.info.eWaitQ sr).Nodup) ∧
      (∀ sr' c', c' ≠ c → (c' ∈ s'.info.eWaitQ sr' ↔ c' ∈ s.info.eWaitQ sr')) ∧
        ∀ sr', c ∉ s'.info.eWaitQ sr' := by
    rcases hq with ⟨hready, hq⟩ | hq
    · rw [hq]
      refine ⟨h.nodup, fun _ _ _ => Iff.rfl, ?_⟩
      intro sr' hmem
      rw [(hsr sr' hmem).2] at hready
      cases hready
    · obtain ⟨hnodup, hother, hgone⟩ := h.unlinked hq
      refine ⟨hnodup, hother, ?_⟩
      intro sr' hmem
      by_cases he : sr' = sr
      · subst he
        exact hgone hmem
      · rw [hq, wqDel_eWaitQ, if_neg he] at hmem
        exact he (hsr sr' hmem).1
  refine h.update hcall hx hlists.1 hlists.2.1 ?_ ?_ ?_ ?_
  · intro sr'
    refine iff_of_false (hlists.2.2 sr') ?_
    rintro ⟨msg', hmsg⟩
    exact hawake _ _ hmsg
  · rw [hu]
    exact h.usersNodup.erase c
  · intro c' hne
    rw [hu, List.mem_erase_of_ne hne]
  · rw [hu]
    refine iff_of_false h.usersNodup.not_mem_erase ?_
    rintro ⟨sr', wait', hwait⟩
    exact hawake _ _ hwait

/-! ## Sections that move no message -/

/-- The tree is left alone. -/
theorem Inv.info (h : Inv hand s) (hok : i.Ok) (hsame : Same s.info i)
    (hst : i.stored = s.info.stored) : Inv hand { s with info := i } := by
  refine ⟨hok, ⟨h.waits.calls, ?_, ?_, h.waits.usersNodup, h.waits.users⟩, ?_, ?_, ?_⟩
  · dsimp only
    rw [hsame.eWaitQ]
    exact h.waits.nodup
  · dsimp only
    rw [hsame.eWaitQ]
    exact h.waits.listed
  · dsimp only
    rw [hst]
    exact h.mail
  · dsimp only
    rw [hok.curmsgs, hst, ← h.ok.curmsgs, hsame.maxmsg]
    exact h.room
  · dsimp only
    rw [hsame.eWaitQ, hst]
    exact h.empty

/-- A call ends at once, and moves no message. -/
theorem Inv.setCall (h : Inv hand s) (hidle : s.call c = .idle) (hx : x.Ok c)
    (hawake : ∀ sr wait, x ≠ .sleeping sr wait) (ha : x.accepts = none) (hg : x.got = none) :
    Inv hand (s.setCall c x) := by
  have ha' : x.accepts = (s.call c).accepts := by rw [ha, hidle]; rfl
  have hg' : x.got = (s.call c).got := by rw [hg, hidle]; rfl
  refine ⟨h.ok, h.waits.idle hidle rfl hx hawake rfl rfl, ?_, h.room, h.empty⟩
  exact h.mail.congr (accepted_same hx rfl ha') (List.Perm.refl _) (held_same rfl hg')

/-- A call goes to sleep. -/
theorem Inv.wqSleep (h : Inv hand s) (hidle : s.call c = .idle)
    (hx : (Call.sleeping sr wait).Ok c) (hready : wait.ready = false)
    (hempty : sr = .recv → s.info.stored = []) (prio : ℕ → ℤ) :
    Inv hand (s.wqSleep sr prio c wait) := by
  have ha : (Call.sleeping sr wait).accepts = (s.call c).accepts := by
    rw [hidle]
    cases sr
    · simp [Call.accepts, hready]
    · rfl
  have hg : (Call.sleeping sr wait).got = (s.call c).got := by
    rw [hidle]
    cases sr with
    | send => rfl
    | recv =>
      have hnone : wait.ready = wait.msg.isSome := hx
      show wait.msg = none
      cases hm : wait.msg with
      | none => rfl
      | some m =>
        rw [hready, hm] at hnone
        cases hnone
  refine ⟨h.ok.congr rfl rfl rfl rfl, h.waits.sleep hidle hx hready prio, ?_, h.room, ?_⟩
  · exact h.mail.congr (accepted_same hx rfl ha) (List.Perm.refl _) (held_same rfl hg)
  · intro hne
    cases sr with
    | recv => exact hempty rfl
    | send =>
      refine h.empty ?_
      intro hnil
      exact hne hnil

/-- A call that sleeps on changes nothing; one that comes back keeps what it
    has. -/
theorem Inv.woken (h : Inv hand s) (hc : s.call c = .sleeping sr wait) (hx : x.Ok c)
    (hawake : ∀ sr wait, x ≠ .sleeping sr wait) (ha : x.accepts = (s.call c).accepts)
    (hg : x.got = (s.call c).got)
    (hq : wait.ready = true ∧ i = s.info ∨ i = s.info.wqDel sr c) :
    Inv hand { s with
      info := i
      users := s.users.erase c
      call := Function.update s.call c x } := by
  have hi : i.Ok ∧ i.stored = s.info.stored ∧ i.curmsgs = s.info.curmsgs ∧
      i.maxmsg = s.info.maxmsg := by
    rcases hq with ⟨-, rfl⟩ | rfl
    · exact ⟨h.ok, rfl, rfl, rfl⟩
    · exact ⟨h.ok.congr rfl rfl rfl rfl, rfl, rfl, rfl⟩
  obtain ⟨hok, hst, hcur, hmax⟩ := hi
  refine ⟨hok, ?_, ?_, ?_, ?_⟩
  · refine h.waits.woken hc hx hawake rfl ?_ rfl
    rcases hq with ⟨hready, rfl⟩ | rfl
    · exact Or.inl ⟨hready, rfl⟩
    · exact Or.inr rfl
  · dsimp only
    rw [hst]
    exact h.mail.congr (accepted_same hx rfl ha) (List.Perm.refl _) (held_same rfl hg)
  · dsimp only
    rw [hcur, hmax]
    exact h.room
  · dsimp only
    rw [hst]
    intro hne
    refine h.empty ?_
    intro hnil
    apply hne
    rcases hq with ⟨-, rfl⟩ | rfl
    · exact hnil
    · rw [wqDel_eWaitQ]
      split
      · next he => rw [← he, hnil]; rfl
      · exact hnil

/-! ## Sections that move a message -/

theorem pipelinedOp_eq (hc : s.call c = .sleeping sr wait) : s.pipelinedOp sr c =
    { s with
      info := s.info.wqDel sr c
      call := Function.update s.call c (.sleeping sr { wait with ready := true }) } := by
  unfold State.pipelinedOp State.modifyWait
  simp only [hc]
  rfl

theorem pipelinedSend_eq (hr : s.call r = .sleeping .recv wait) (msg : MsgMsg) :
    s.pipelinedSend msg r = { s with
      info := s.info.wqDel .recv r
      call := Function.update s.call r (.sleeping .recv ⟨some msg, true⟩) } := by
  have hset : s.modifyWait r ({ · with msg := some msg }) =
      s.setCall r (.sleeping .recv { wait with msg := some msg }) := by
    unfold State.modifyWait
    rw [hr]
  have hcall : (s.setCall r (.sleeping .recv { wait with msg := some msg })).call r =
      .sleeping .recv { wait with msg := some msg } := Function.update_self _ _ _
  unfold State.pipelinedSend
  rw [hset, pipelinedOp_eq hcall]
  simp only [State.setCall, Function.update_idem]

/-- The first receiver sleeps without a message. -/
theorem Waits.first (h : Waits s) (hr : s.info.wqGetFirstWaiter sr = some c) :
    ∃ m, s.call c = .sleeping sr ⟨m, false⟩ :=
  (h.listed sr c).1 (wqGetFirstWaiter_mem hr)

/-- **A message is handed to a receiver asleep.** -/
theorem Inv.handOver (h : Inv none s) (hidle : s.call c = .idle) (hid : msg.id = c)
    (hr : s.info.wqGetFirstWaiter .recv = some r) :
    Inv none ((s.pipelinedSend msg r).setCall c (.sent msg 0)) := by
  obtain ⟨m₀, hcall⟩ := h.waits.first hr
  have hnone : m₀ = none := by
    have hok := h.waits.calls r
    rw [hcall] at hok
    cases m₀ with
    | none => rfl
    | some m => cases hok
  subst hnone
  have hne : c ≠ r := by
    rintro rfl
    rw [hidle] at hcall
    cases hcall
  rw [pipelinedSend_eq hcall]
  generalize hs₁ : ({ s with
    info := s.info.wqDel .recv r
    call := Function.update s.call r (.sleeping .recv ⟨some msg, true⟩) } : State) = s₁
  have hcall₁ : s₁.call = Function.update s.call r (.sleeping .recv ⟨some msg, true⟩) := by
    rw [← hs₁]
  have hinfo₁ : s₁.info = s.info.wqDel .recv r := by rw [← hs₁]
  have hidle₁ : s₁.call c = .idle := by rw [hcall₁, Function.update_of_ne hne, hidle]
  have hwaits₁ : Waits s₁ := by
    refine h.waits.served hcall rfl hcall₁ ?_ ?_
    · rw [hinfo₁]
    · rw [← hs₁]
  have hpool : (s₁.info.stored ++ s₁.evicted) = s.info.stored ++ s.evicted := by rw [← hs₁]; rfl
  refine ⟨?_, hwaits₁.idle hidle₁ rfl hid (by simp) rfl rfl, ?_, ?_, ?_⟩
  · show s₁.info.Ok
    rw [hinfo₁]
    exact h.ok.congr rfl rfl rfl rfl
  · refine h.mail.hand (m := msg) (r := r) (not_accepted hid (by rw [hidle]; rfl)) ?_ ?_ ?_
    · intro m
      rw [accepted_new (s := s₁) (x := .sent msg 0) hid rfl (by rw [hidle₁]; rfl) rfl,
        accepted_same (s := s) (x := .sleeping .recv ⟨some msg, true⟩) rfl hcall₁ (by rw [hcall]; rfl)]
    · exact List.Perm.of_eq hpool
    · intro r' m
      rw [held_same (s := s₁) rfl (by rw [hidle₁]; rfl),
        held_new (s := s) hcall₁ (by rw [hcall]; rfl) rfl]
  · show s₁.info.curmsgs ≤ s₁.info.maxmsg
    rw [hinfo₁]
    exact h.room
  · show s₁.info.eWaitQ .recv ≠ [] → s₁.info.stored = []
    rw [hinfo₁]
    intro hq
    refine h.empty ?_
    intro hnil
    apply hq
    rw [wqDel_eWaitQ, if_pos rfl, hnil]
    rfl

/-- **A message is stored**, where nobody waits for one and there is room. -/
theorem Inv.store (h : Inv hand s) (hidle : s.call c = .idle) (hid : msg.id = c)
    (hst : Stores s.info msg i) (hroom : s.info.curmsgs < s.info.maxmsg)
    (hrecv : s.info.eWaitQ .recv = []) :
    Inv hand ({ s with info := i }.setCall c (.sent msg 0)) := by
  have hwaits : Waits ({ s with info := i }.setCall c (.sent msg 0)) :=
    h.waits.idle hidle rfl hid (by simp) hst.same.eWaitQ rfl
  have hlen : i.stored.length = s.info.stored.length + 1 := hst.perm.length_eq
  refine ⟨hst.ok, hwaits, ?_, ?_, ?_⟩
  · refine h.mail.store (m := msg) (not_accepted hid (by rw [hidle]; rfl)) ?_ ?_ ?_
    · exact accepted_new (x := .sent msg 0) hid rfl (by rw [hidle]; rfl) rfl
    · exact hst.perm.append_right s.evicted
    · exact held_same rfl (by rw [hidle]; rfl)
  · show i.curmsgs ≤ i.maxmsg
    rw [hst.ok.curmsgs, hlen, ← h.ok.curmsgs, hst.same.maxmsg]
    exact hroom
  · show i.eWaitQ .recv ≠ [] → i.stored = []
    rw [hst.same.eWaitQ, hrecv]
    exact fun hne => absurd rfl hne

/-- **A message is taken**, into the hand of `c`. -/
theorem Inv.take (h : Inv none s) (ht : Takes s.info msg i) :
    Inv (some (c, msg)) { s with info := i } ∧ i.curmsgs < i.maxmsg ∧ i.eWaitQ .recv = [] := by
  have hlen : s.info.stored.length = i.stored.length + 1 := ht.perm.length_eq
  have hlt : i.curmsgs < i.maxmsg := by
    have := h.room
    rw [h.ok.curmsgs] at this
    rw [ht.ok.curmsgs, ht.same.maxmsg]
    omega
  have hrecv : i.eWaitQ .recv = [] := by
    rw [ht.same.eWaitQ]
    by_contra hne
    have := h.empty hne
    rw [this] at hlen
    cases hlen
  refine ⟨⟨ht.ok, ⟨h.waits.calls, ?_, ?_, h.waits.usersNodup, h.waits.users⟩, ?_,
    Nat.le_of_lt hlt, fun hne => absurd hrecv hne⟩, hlt, hrecv⟩
  · dsimp only
    rw [ht.same.eWaitQ]
    exact h.waits.nodup
  · dsimp only
    rw [ht.same.eWaitQ]
    exact h.waits.listed
  · refine h.mail.take (m := msg) (r := c) (fun _ => Iff.rfl) (ht.perm.append_right s.evicted) ?_
    intro r' m
    unfold Held
    simp only [reduceCtorEq, or_false, Option.some.injEq, Prod.mk.injEq]
    rw [eq_comm (a := c), eq_comm (a := msg)]

/-- **A sender asleep is served**: its message is stored. -/
theorem Inv.pipelinedReceive (h : Inv hand s) (hroom : s.info.curmsgs < s.info.maxmsg)
    (hrecv : s.info.eWaitQ .recv = []) (alloc : Bool) :
    Inv hand (s.pipelinedReceive alloc) := by
  unfold State.pipelinedReceive
  split
  · exact h
  next sender hsender =>
  obtain ⟨m₀, hcall⟩ := h.waits.first hsender
  obtain ⟨msg, hm₀, hid⟩ : ∃ msg, m₀ = some msg ∧ msg.id = sender := by
    have hok := h.waits.calls sender
    rw [hcall] at hok
    exact hok
  subst hm₀
  have hmsg : s.waitMsg sender = some msg := by rw [State.waitMsg, hcall]
  simp only [hmsg]
  split
  · exact h
  next h0 =>
  rw [not_not] at h0
  have hst := msgInsert_ok h.ok h0
  generalize (s.info.msgInsert msg alloc).1 = i at hst
  have hlen : i.stored.length = s.info.stored.length + 1 := hst.perm.length_eq
  have hcall' : ({ s with info := i } : State).call sender = .sleeping .send ⟨some msg, false⟩ :=
    hcall
  rw [pipelinedOp_eq hcall']
  refine ⟨hst.ok.congr rfl rfl rfl rfl, ?_, ?_, ?_, ?_⟩
  · refine h.waits.served hcall ⟨msg, rfl, hid⟩ rfl ?_ rfl
    show (i.wqDel .send sender).eWaitQ = (s.info.wqDel .send sender).eWaitQ
    rw [wqDel, wqDel, hst.same.eWaitQ]
  · refine h.mail.store (m := msg) (not_accepted hid (by rw [hcall]; rfl)) ?_ ?_ ?_
    · exact accepted_new (x := .sleeping .send ⟨some msg, true⟩) ⟨msg, rfl, hid⟩ rfl
        (by rw [hcall]; rfl) rfl
    · exact hst.perm.append_right s.evicted
    · exact held_same rfl (by rw [hcall]; rfl)
  · show i.curmsgs ≤ i.maxmsg
    rw [hst.ok.curmsgs, hlen, ← h.ok.curmsgs, hst.same.maxmsg]
    exact hroom
  · show (i.wqDel .send sender).eWaitQ .recv ≠ [] → i.stored = []
    rw [wqDel_eWaitQ, if_neg (by simp), hst.same.eWaitQ, hrecv]
    exact fun hne => absurd rfl hne

/-- The call is not one that another is served by. -/
theorem pipelinedReceive_idle (h : Waits s) (hidle : s.call c = .idle) (alloc : Bool) :
    (s.pipelinedReceive alloc).call c = .idle := by
  unfold State.pipelinedReceive
  split
  · exact hidle
  next sender hsender =>
  obtain ⟨m₀, hcall⟩ := h.first hsender
  have hne : c ≠ sender := by
    rintro rfl
    rw [hidle] at hcall
    cases hcall
  split
  · exact hidle
  next msg _ =>
  dsimp only
  split
  · exact hidle
  · rw [pipelinedOp_eq (s := { s with info := (s.info.msgInsert msg alloc).1 }) hcall]
    dsimp only
    rw [Function.update_of_ne hne, hidle]

/-- What is in hand is received. -/
theorem Inv.receiveEnd (h : Inv (some (c, msg)) s) (hidle : s.call c = .idle) (copy : Bool) :
    Inv none (s.receiveEnd c (some msg) copy) := by
  refine ⟨h.ok, h.waits.idle hidle rfl trivial (by simp) rfl rfl, ?_, h.room, h.empty⟩
  have hx : (Call.received (some msg) (if copy then msg.mTs else -EFAULT)).Ok c := trivial
  refine h.mail.congr (accepted_same hx rfl (by rw [hidle]; rfl)) (List.Perm.refl _) ?_
  intro r m
  have hnew : Held (s.receiveEnd c (some msg) copy) none r m ↔ Held s none r m ∨ r = c ∧ m = msg :=
    held_new rfl (by rw [hidle]; rfl) rfl r m
  rw [hnew]
  unfold Held
  simp only [reduceCtorEq, or_false, Option.some.injEq, Prod.mk.injEq]
  rw [eq_comm (a := c), eq_comm (a := msg)]

end DroidLkm.Mq
