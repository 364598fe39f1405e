/-
  POSIX message queues — who is registered, and what becomes of the cookies.

  * `NotifyInv`: with `Custody`, a cookie or a reference to a socket that was
    made has been spent, or is held by one call or by the registration;
  * `timedsendLocked_notify`: when a send ends the registration;
  * `live`: the process that a sequence of events leaves registered;
  * `notify_protocol`: it is the one that is registered after every run.
-/
import DroidLkm.Mq.Notify
import DroidLkm.Mq.Protocol

namespace DroidLkm.Mq

namespace Notifying

/-! ## What is held -/

/-- What a call has not given away. -/
def callRes (c : ℕ) : NotifyCall → List Res
  | .retry _ _ => resOf none (some c)
  | .lock _ _ sock nc => resOf sock nc
  | _ => []

/-- What a registration has. -/
def infoRes (i : NotifyInfo) : List Res :=
  if i.notifyOwner ≠ none ∧ i.notify.sigevNotify = .thread then
    resOf i.notifySock i.notifyCookie
  else []

/-- A call has it, or the registration. -/
def Holds (s : Notifying) (holder : Option ℕ) (x : Res) : Prop :=
  x ∈ holder.elim (infoRes s.info) fun c => callRes c (s.call c)

/-- The cookies allocated and the references given out. -/
def Made (s : Notifying) : Res → Prop
  | .nc c => c ∈ s.skbs
  | .sock r => r < s.socks

/-- All that was made is held by one, or spent once. -/
def Kept (s : Notifying) : Prop := Custody s.Made (s.spent.map Prod.fst) s.Holds

/-- What `do_mq_notify` has checked. -/
def Known : NotifyCall → Prop
  | .retry _ n => n.sigevNotify = .thread
  | .lock _ (some n) _ _ => n.sigevNotify ≠ .other
  | _ => True

structure NotifyInv (s : Notifying) : Prop where
  queue : Inv none s.queue
  fresh : ∀ c ∈ s.skbs, s.call c ≠ .idle
  known : ∀ c, Known (s.call c)
  kept : s.Kept

variable {s s' : Notifying} {c tgid : ℕ} {n : Sigevent} {sock nc : Option ℕ} {x : NotifyCall}
  {l : List Res} {u : Use}

theorem resOf_nodup (sock nc : Option ℕ) : (resOf sock nc).Nodup := by
  cases sock <;> cases nc <;> simp [resOf]

theorem callRes_nodup (c : ℕ) (x : NotifyCall) : (callRes c x).Nodup := by
  cases x with
  | idle => exact List.nodup_nil
  | retry => exact resOf_nodup _ _
  | lock => exact resOf_nodup _ _
  | returned => exact List.nodup_nil

theorem infoRes_nodup (i : NotifyInfo) : (infoRes i).Nodup := by
  unfold infoRes
  split
  · exact resOf_nodup _ _
  · exact List.nodup_nil

@[simp] theorem spend_fst (s : Notifying) (l : List Res) (u : Use) :
    (s.spend l u).spent.map Prod.fst = s.spent.map Prod.fst ++ l := by
  unfold spend
  rw [List.map_append, List.map_map]
  exact congrArg _ (List.map_id l)

/-- What is held by whom, after one call has changed. -/
theorem holds_update (hcall : s'.call = Function.update s.call c x) (hinfo : s'.info = s.info)
    (holder : Option ℕ) (y : Res) :
    s'.Holds holder y ↔ holder = some c ∧ y ∈ callRes c x ∨ holder ≠ some c ∧ s.Holds holder y := by
  unfold Holds
  cases holder with
  | none => simp [hinfo]
  | some d =>
    rw [hcall]
    by_cases hd : d = c
    · subst hd
      simp
    · simp [hd]

/-- A call gives all it has away. -/
theorem Kept.surrender (h : s.Kept) (hcall : s'.call = Function.update s.call c x)
    (hx : callRes c x = []) (hinfo : s'.info = s.info) (hmade : ∀ y, s'.Made y ↔ s.Made y)
    (hl : callRes c (s.call c) = l)
    (hspent : s'.spent.map Prod.fst = s.spent.map Prod.fst ++ l) : s'.Kept := by
  subst hl
  refine Custody.surrender (r := some c) h (callRes_nodup c _) (fun y => Iff.rfl) hmade ?_ ?_
  · rw [hspent]
    exact List.perm_append_comm
  · intro holder y
    rw [holds_update hcall hinfo, hx]
    simp

/-- The registration ends, and what it has is given away. -/
theorem Kept.ends (h : s.Kept) (hcall : s'.call = s.call) (howner : s'.info.notifyOwner = none)
    (hmade : ∀ y, s'.Made y ↔ s.Made y)
    (hspent : s'.spent.map Prod.fst = s.spent.map Prod.fst ++ infoRes s.info) : s'.Kept := by
  refine Custody.surrender (r := none) h (infoRes_nodup _) (fun y => Iff.rfl) hmade ?_ ?_
  · rw [hspent]
    exact List.perm_append_comm
  · intro holder y
    unfold Holds
    rw [hcall]
    cases holder with
    | none => simp [infoRes, howner]
    | some d => simp

/-- A call gives all it has to the registration. -/
theorem Kept.registered (h : s.Kept) (hcall : s'.call = Function.update s.call c x)
    (hx : callRes c x = []) (hfree : s.info.notifyOwner = none)
    (hl : callRes c (s.call c) = l) (hinfo : infoRes s'.info = l)
    (hmade : ∀ y, s'.Made y ↔ s.Made y)
    (hspent : s'.spent.map Prod.fst = s.spent.map Prod.fst) : s'.Kept := by
  unfold Kept
  rw [hspent]
  subst hl
  refine Custody.pass (some c) none h ?_ hmade ?_
  · intro y
    simp [Holds, infoRes, hfree]
  · intro holder y
    unfold Holds
    rw [hcall]
    cases holder with
    | none =>
      have hnone : infoRes s.info = [] := by simp [infoRes, hfree]
      simp [hinfo, hnone]
    | some d =>
      by_cases hd : d = c
      · subst hd
        simp [hx]
      · simp [hd]

/-- Nothing changes hands. -/
theorem Kept.congr (h : s.Kept) (hcall : ∀ d, callRes d (s'.call d) = callRes d (s.call d))
    (hinfo : infoRes s'.info = infoRes s.info) (hmade : ∀ y, s'.Made y ↔ s.Made y)
    (hspent : s'.spent.map Prod.fst = s.spent.map Prod.fst) : s'.Kept := by
  refine Custody.congr h hmade (List.Perm.of_eq hspent) ?_
  intro holder y
  unfold Holds
  cases holder with
  | none => exact (congrArg (y ∈ ·) hinfo).to_iff
  | some d => exact (congrArg (y ∈ ·) (hcall d)).to_iff

/-! ## The end of a registration -/

/-- Nobody is registered any more, and what the registration had is spent. -/
structure Ended (s t : Notifying) : Prop where
  queue : t.queue = s.queue
  call : t.call = s.call
  skbs : t.skbs = s.skbs
  socks : t.socks = s.socks
  notifyOwner : t.info.notifyOwner = none
  spent : t.spent.map Prod.fst = s.spent.map Prod.fst ++ infoRes s.info

theorem Ended.made {t : Notifying} (h : Ended s t) (y : Res) : t.Made y ↔ s.Made y := by
  cases y with
  | nc => rw [Made, Made, h.skbs]
  | sock => rw [Made, Made, h.socks]

/-- Where nothing has to be spent. -/
theorem unregister_ended (h : infoRes s.info = []) : Ended s s.unregister :=
  ⟨rfl, rfl, rfl, rfl, rfl, by rw [h, List.append_nil]; rfl⟩

theorem spend_ended (h : infoRes s.info = l) : Ended s (s.spend l u).unregister := by
  refine ⟨rfl, rfl, rfl, rfl, rfl, ?_⟩
  rw [h]
  exact spend_fst s l u

theorem removeNotification_ended (s : Notifying) : Ended s s.removeNotification := by
  unfold removeNotification
  split
  · next h => exact spend_ended (if_pos h)
  · next h => exact unregister_ended (if_neg h)

theorem sendSignal_spec (s : Notifying) (owner : ℕ) (e : NotifyEnv) :
    ∃ signals, s.sendSignal owner e = { s with signals } := by
  unfold sendSignal
  split
  · exact ⟨_, rfl⟩
  split
  · exact ⟨_, rfl⟩
  · exact ⟨_, rfl⟩

/-- **`__do_notify` ends the registration where the message is the only one.** -/
theorem doNotify_ended (h : s.queue.info.curmsgs = 1) (e : NotifyEnv) : Ended s (s.doNotify e) := by
  unfold doNotify
  split
  · next ho => exact ⟨rfl, rfl, rfl, rfl, ho, by simp [infoRes, ho]⟩
  · next owner ho =>
    rw [if_pos h]
    split
    · next hn =>
      obtain ⟨signals, hs⟩ := sendSignal_spec s owner e
      rw [hs]
      have hnil : infoRes s.info = [] := by simp [infoRes, hn]
      exact ⟨rfl, rfl, rfl, rfl, rfl, by rw [hnil, List.append_nil]; rfl⟩
    · next hn => exact spend_ended (by simp [infoRes, ho, hn])
    · next hn => exact unregister_ended (if_neg fun hi => hn hi.2)

theorem doNotify_other (h : s.queue.info.curmsgs ≠ 1) (e : NotifyEnv) : s.doNotify e = s := by
  unfold doNotify
  split
  · rfl
  · rw [if_neg h]

theorem NotifyInv.ended {t : Notifying} (h : NotifyInv s) (he : Ended s t) : NotifyInv t := by
  refine ⟨he.queue ▸ h.queue, ?_, ?_, h.kept.ends he.call he.notifyOwner he.made he.spent⟩
  · rw [he.skbs, he.call]
    exact h.fresh
  · rw [he.call]
    exact h.known

/-! ## The parts of `do_mq_notify` -/

/-- What a call keeps when it goes on. -/
theorem NotifyInv.update (h : NotifyInv s) (hq : s'.queue = s.queue)
    (hcall : s'.call = Function.update s.call c x) (hbusy : x ≠ .idle)
    (hskbs : ∀ d ∈ s'.skbs, d = c ∨ d ∈ s.skbs)
    (hx : Known x) (hkept : s'.Kept) : NotifyInv s' := by
  refine ⟨hq ▸ h.queue, ?_, ?_, hkept⟩
  · intro d hd
    rw [hcall]
    by_cases hdc : d = c
    · rw [hdc, Function.update_self]
      exact hbusy
    · rw [Function.update_of_ne hdc]
      exact h.fresh d ((hskbs d hd).resolve_left hdc)
  · intro d
    rw [hcall]
    by_cases hdc : d = c
    · rw [hdc, Function.update_self]
      exact hx
    · rw [Function.update_of_ne hdc]
      exact h.known d

theorem NotifyInv.out (h : NotifyInv s) (hl : callRes c (s.call c) = resOf sock nc) (ret : ℤ) :
    NotifyInv (s.out c sock nc ret) := by
  refine h.update rfl rfl nofun (fun d hd => Or.inr hd) trivial ?_
  exact h.kept.surrender rfl rfl rfl (fun y => by cases y <;> exact Iff.rfl) hl (spend_fst _ _ _)

/-- A call that has nothing goes on. -/
theorem NotifyInv.setCall (h : NotifyInv s) (hl : callRes c (s.call c) = []) (hbusy : x ≠ .idle)
    (hx : Known x) (hres : callRes c x = []) : NotifyInv (s.setCall c x) := by
  refine h.update rfl rfl hbusy (fun d hd => Or.inr hd) hx ?_
  exact h.kept.surrender rfl hres rfl (fun y => by cases y <;> exact Iff.rfl) hl
    (List.append_nil _).symm

/-- A cookie has been allocated. -/
theorem NotifyInv.alloc (h : NotifyInv s) (hidle : s.call c = .idle)
    (hn : n.sigevNotify = .thread) (tgid : ℕ) :
    NotifyInv ({ s with skbs := c :: s.skbs }.setCall c (.retry tgid n)) := by
  refine h.update rfl rfl nofun (fun d hd => List.mem_cons.1 hd) hn ?_
  refine Custody.hand (r := some c) (m := .nc c) h.kept ?_ ?_ (List.Perm.refl _) ?_
  · exact fun hc => h.fresh c hc hidle
  · intro y
    cases y with
    | nc d => simp [Made, Notifying.setCall, or_comm]
    | sock r => exact (or_iff_left nofun).symm
  · intro holder y
    have hcall : ({ s with skbs := c :: s.skbs }.setCall c (.retry tgid n)).call =
        Function.update s.call c (.retry tgid n) := rfl
    rw [holds_update hcall rfl]
    by_cases hh : holder = some c
    · subst hh
      simp [Holds, hidle, callRes, resOf]
    · simp [hh]

theorem doMqNotify_inv (h : NotifyInv s) (hidle : s.call c = .idle) (tgid : ℕ)
    (notification : Option Sigevent) (alloc copy : Bool) :
    NotifyInv (s.doMqNotify c tgid notification alloc copy) := by
  have hnil : callRes c (s.call c) = [] := by rw [hidle]; rfl
  have hreturn : ∀ ret, NotifyInv (s.setCall c (.returned ret)) :=
    fun ret => h.setCall hnil nofun trivial rfl
  unfold doMqNotify
  split
  · exact h.setCall hnil nofun trivial rfl
  · next n =>
    split
    · exact hreturn _
    · next hn => exact h.setCall hnil nofun (by simp [Known, hn]) rfl
    · next hn =>
      split
      · exact hreturn _
      · exact h.setCall hnil nofun (by simp [Known, hn]) rfl
    · next hn =>
      split
      · exact hreturn _
      have halloc := h.alloc hidle hn tgid
      dsimp only
      split
      · -- the cookie that has been allocated is freed
        have hl : callRes c (({ s with skbs := c :: s.skbs }.setCall c (.retry tgid n)).call c) =
            resOf none (some c) := by simp [Notifying.setCall, callRes]
        have hout := halloc.out hl (-EFAULT)
        have heq : ({ s with skbs := c :: s.skbs }.setCall c (.retry tgid n)).out c none (some c)
            (-EFAULT) = { s with skbs := c :: s.skbs }.out c none (some c) (-EFAULT) := by
          simp [Notifying.out, Notifying.setCall, spend]
        rwa [heq] at hout
      · exact halloc

/-- A reference that is put at once. -/
theorem NotifyInv.put (h : NotifyInv s) :
    NotifyInv ({ s with socks := s.socks + 1 }.spend (resOf (some s.socks) none) .attached) := by
  refine ⟨h.queue, h.fresh, h.known, ?_⟩
  refine Custody.store (m := .sock s.socks) h.kept (Nat.lt_irrefl _) ?_ ?_ fun _ _ => Iff.rfl
  · intro y
    cases y with
    | nc d => exact (or_iff_left nofun).symm
    | sock r =>
      simp only [Made, spend, Res.sock.injEq]
      exact Nat.lt_succ_iff_lt_or_eq
  · rw [spend_fst]
    exact List.perm_append_comm

/-- A reference and the cookie are attached. -/
theorem NotifyInv.attach (h : NotifyInv s) (hc : s.call c = .retry tgid n) :
    NotifyInv ({ s with socks := s.socks + 1 }.setCall c
      (.lock tgid n (some s.socks) (some c))) := by
  have hn : n.sigevNotify = .thread := by
    have := h.known c
    rwa [hc] at this
  refine h.update rfl rfl nofun (fun d hd => Or.inr hd) (by simp [Known, hn]) ?_
  refine Custody.hand (r := some c) (m := .sock s.socks) h.kept (Nat.lt_irrefl _) ?_
    (List.Perm.refl _) ?_
  · intro y
    cases y with
    | nc d => exact (or_iff_left nofun).symm
    | sock r =>
      simp only [Made, Notifying.setCall, Res.sock.injEq]
      exact Nat.lt_succ_iff_lt_or_eq
  · intro holder y
    have hcall : ({ s with socks := s.socks + 1 }.setCall c
        (.lock tgid n (some s.socks) (some c))).call =
        Function.update s.call c (.lock tgid n (some s.socks) (some c)) := rfl
    rw [holds_update hcall rfl]
    by_cases hh : holder = some c
    · subst hh
      simp [Holds, hc, callRes, resOf, or_comm]
    · simp [hh]

theorem notifyRetry_inv (h : NotifyInv s) (hc : s.call c = .retry tgid n) (fd : Bool) (sockErr attach : ℤ) :
    NotifyInv (s.notifyRetry c tgid n fd sockErr attach) := by
  have hl : callRes c (s.call c) = resOf none (some c) := by rw [hc]; rfl
  unfold notifyRetry
  split
  · exact h.out hl _
  split
  · exact h.out hl _
  dsimp only
  split
  · exact h.put
  split
  · -- both are gone with `netlink_attachskb`
    refine h.put.update rfl rfl nofun (fun d hd => Or.inr hd) trivial ?_
    refine h.put.kept.surrender rfl rfl rfl (fun y => by cases y <;> exact Iff.rfl) hl ?_
    simp [spend, Notifying.setCall, resOf]
  · exact h.attach hc

/-- A process is registered. -/
theorem NotifyInv.register (h : NotifyInv s) (hfree : s.info.notifyOwner = none)
    (hc : s.call c = .lock tgid (some n) sock nc) (execId userNs : ℕ) :
    let r := register s.info tgid n sock nc execId userNs
    NotifyInv ({ s with info := r.1 }.out c r.2.1 r.2.2 0) := by
  have hl : callRes c (s.call c) = resOf sock nc := by rw [hc]; rfl
  have hn : n.sigevNotify ≠ .other := by
    have := h.known c
    rwa [hc] at this
  intro r
  -- where the registration has nothing, the call spends what it has
  have hspend : infoRes r.1 = [] → r.2 = (sock, nc) →
      NotifyInv ({ s with info := r.1 }.out c r.2.1 r.2.2 0) := by
    intro hnil hr
    rw [hr]
    have hi : NotifyInv { s with info := r.1 } := by
      refine ⟨h.queue, h.fresh, h.known, h.kept.congr (fun _ => rfl) ?_ (fun y => ?_) rfl⟩
      · rw [hnil]
        simp [infoRes, hfree]
      · cases y <;> exact Iff.rfl
    exact hi.out hl 0
  cases hs : n.sigevNotify with
  | none => exact hspend (by simp [r, Notifying.register, hs, infoRes]) (by simp [r, Notifying.register, hs])
  | signal => exact hspend (by simp [r, Notifying.register, hs, infoRes]) (by simp [r, Notifying.register, hs])
  | thread =>
    refine h.update rfl rfl nofun (fun d hd => Or.inr hd) trivial ?_
    refine h.kept.registered rfl rfl hfree hl ?_ (fun y => by cases y <;> exact Iff.rfl) ?_
    · simp [r, Notifying.register, hs, infoRes, Notifying.out, spend, Notifying.setCall]
    · simp [r, Notifying.register, hs, Notifying.out, spend, Notifying.setCall, resOf]
  | other => exact absurd hs hn

theorem notifyLock_inv (h : NotifyInv s) {notification : Option Sigevent}
    (hc : s.call c = .lock tgid notification sock nc) (file : ℤ) (execId userNs : ℕ) :
    NotifyInv (s.notifyLock c tgid notification sock nc file execId userNs) := by
  have hl : callRes c (s.call c) = resOf sock nc := by rw [hc]; rfl
  unfold notifyLock
  split
  · exact h.out hl _
  split
  · dsimp only
    split
    · have hend := removeNotification_ended s
      exact (h.ended hend).out (hend.call ▸ hl) _
    · exact h.out hl _
  · split
    · exact h.out hl _
    · next hfree => exact h.register (Classical.not_not.1 hfree) hc execId userNs

/-! ## Sending -/

/-- The call itself stores its message into an empty queue, and no receiver
    waits. -/
def StoresIntoEmpty (q : State) (c len prio : ℕ) (e : Env) : Prop :=
  q.info.stored = [] ∧ q.info.eWaitQ .recv = [] ∧
    ⟨c, prio, len⟩ ∈ (q.doMqTimedsend c len prio e).info.stored

instance (q : State) (c len prio : ℕ) (e : Env) : Decidable (StoresIntoEmpty q c len prio e) :=
  inferInstanceAs (Decidable (_ ∧ _ ∧ _))

/-- **The section of a send ends the registration where it stores its message into
    an empty queue on which no receiver waits**, and else leaves it. -/
theorem timedsendLocked_notify (h : s.queue.info.Ok) (c : ℕ) (msg : MsgMsg) (e : Env)
    (ne : NotifyEnv) :
    let t := { s with queue := s.queue.timedsendLocked c msg e }
    let stores := s.queue.info.stored = [] ∧ s.queue.info.eWaitQ .recv = [] ∧
      msg ∈ t.queue.info.stored
    stores ∧ Ended t (s.timedsendLocked c msg e ne) ∨
      ¬stores ∧ s.timedsendLocked c msg e ne = t := by
  intro t stores
  -- a message that is not stored is not in an empty queue afterwards
  have hnot : t.queue.info.stored = s.queue.info.stored → ¬stores := by
    rintro hs ⟨hnil, -, hmem⟩
    rw [hs, hnil] at hmem
    cases hmem
  unfold timedsendLocked
  by_cases hfull : s.queue.info.curmsgs = s.queue.info.maxmsg
  · rw [if_pos hfull]
    refine Or.inr ⟨hnot ?_, rfl⟩
    simp only [t, State.timedsendLocked, if_pos hfull]
    split <;> rfl
  rw [if_neg hfull]
  cases hr : s.queue.info.wqGetFirstWaiter .recv with
  | some receiver =>
    refine Or.inr ⟨?_, rfl⟩
    rintro ⟨-, hnil, -⟩
    rw [Info.wqGetFirstWaiter, hnil] at hr
    cases hr
  | none =>
    have ht : t.queue = { s.queue with
        info := (s.queue.info.msgInsert msg e.atomic).1 }.setCall c
          (.sent msg (s.queue.info.msgInsert msg e.atomic).2) := by
      simp only [t, State.timedsendLocked, if_neg hfull, hr]
    by_cases h0 : (s.queue.info.msgInsert msg e.atomic).2 = 0
    · dsimp only
      rw [if_neg (Classical.not_not.2 h0)]
      have hst := Info.msgInsert_ok h h0
      have hmem : msg ∈ t.queue.info.stored := by
        rw [ht]
        exact hst.perm.mem_iff.2 List.mem_cons_self
      have hcur : t.queue.info.curmsgs = s.queue.info.stored.length + 1 := by
        rw [ht]
        exact hst.ok.curmsgs.trans hst.perm.length_eq
      by_cases hnil : s.queue.info.stored = []
      · refine Or.inl ⟨⟨hnil, wqGetFirstWaiter_none hr, hmem⟩, doNotify_ended ?_ ne⟩
        rw [hcur, hnil, List.length_nil]
      · refine Or.inr ⟨fun hs => hnil hs.1, doNotify_other ?_ ne⟩
        rw [hcur]
        have := List.length_pos_of_ne_nil hnil
        omega
    · dsimp only
      rw [if_pos h0]
      refine Or.inr ⟨hnot ?_, rfl⟩
      rw [ht, Info.msgInsert_fails h0]
      rfl

theorem doMqTimedsend_notify (h : s.queue.info.Ok) (c len prio : ℕ) (e : Env) (ne : NotifyEnv) :
    let t := { s with queue := s.queue.doMqTimedsend c len prio e }
    StoresIntoEmpty s.queue c len prio e ∧ Ended t (s.doMqTimedsend c len prio e ne) ∨
      ¬StoresIntoEmpty s.queue c len prio e ∧ s.doMqTimedsend c len prio e ne = t := by
  intro t
  unfold doMqTimedsend
  split
  · next hrefuse =>
    refine Or.inr ⟨?_, rfl⟩
    rintro ⟨hnil, -, hmem⟩
    have hs : (s.queue.doMqTimedsend c len prio e).info.stored = s.queue.info.stored := by
      unfold State.doMqTimedsend
      split
      · rfl
      split
      · rfl
      split
      · rfl
      split
      · rfl
      · simp_all
    rw [hs, hnil] at hmem
    cases hmem
  · next hgo =>
    simp only [not_or, not_not] at hgo
    obtain ⟨hprio, hfile, hlen, hload⟩ := hgo
    obtain ⟨hok, hsame, hst⟩ := Info.cacheLeaf_ok h e.newLeaf
    have hlocked := timedsendLocked_notify (s := { s with
      queue := { s.queue with info := s.queue.info.cacheLeaf e.newLeaf } }) hok c ⟨c, prio, len⟩ e ne
    have hq : s.queue.doMqTimedsend c len prio e =
        { s.queue with info := s.queue.info.cacheLeaf e.newLeaf }.timedsendLocked c
          ⟨c, prio, len⟩ e := by
      simp only [State.doMqTimedsend, if_neg hprio, hfile, ne_eq, not_true, if_false, if_neg hlen,
        hload]
    unfold StoresIntoEmpty
    simp only [t]
    rw [hq, ← hst, ← hsame.eWaitQ]
    exact hlocked

/-! ## Every step -/

/-- The queue alone goes on. -/
theorem NotifyInv.congr (h : NotifyInv s) {q : State} (hq : Inv none q) :
    NotifyInv { s with queue := q } :=
  ⟨hq, h.fresh, h.known, h.kept.congr (fun _ => rfl) rfl (fun y => by cases y <;> exact Iff.rfl) rfl⟩

theorem step_inv {a : NotifyAct} (h : NotifyInv s) (hs : s.step a = some s') : NotifyInv s' := by
  have hqueue : ∀ act, (Mq.step s.queue act).map (fun queue => { s with queue }) = some s' →
      NotifyInv s' := by
    intro act hs
    obtain ⟨q, hq, rfl⟩ := Option.map_eq_some_iff.1 hs
    exact h.congr (Mq.step_inv h.queue hq)
  cases a with
  | timedsend c len prio e ne =>
    simp only [step] at hs
    split at hs
    · cases hs
    · next hgo =>
      obtain rfl := Option.some.inj hs
      rw [not_or, Classical.not_not] at hgo
      have hi := h.congr (doMqTimedsend_inv h.queue hgo.2 len prio e)
      rcases doMqTimedsend_notify h.queue.ok c len prio e ne with ⟨-, hend⟩ | ⟨-, heq⟩
      · exact hi.ended hend
      · rw [heq]
        exact hi
  | timedreceive c len e => exact hqueue _ hs
  | wake c signal timedOut copy => exact hqueue _ hs
  | evict => exact hqueue _ hs
  | notify c tgid notification alloc copy =>
    simp only [step] at hs
    split at hs
    · cases hs
    · next hidle =>
      obtain rfl := Option.some.inj hs
      exact doMqNotify_inv h (Classical.not_not.1 hidle) tgid notification alloc copy
  | retry c fd sockErr attach =>
    simp only [step] at hs
    split at hs
    · next hc =>
      obtain rfl := Option.some.inj hs
      exact notifyRetry_inv h hc fd sockErr attach
    · cases hs
  | lock c file execId userNs =>
    simp only [step] at hs
    split at hs
    · next hc =>
      split at hs
      · cases hs
      · obtain rfl := Option.some.inj hs
        exact notifyLock_inv h hc file execId userNs
    · cases hs
  | flush tgid =>
    simp only [step] at hs
    split at hs
    · cases hs
    · obtain rfl := Option.some.inj hs
      unfold mqueueFlushFile
      split
      · exact h.ended (removeNotification_ended s)
      · exact h

theorem init_inv (maxmsg msgsize : ℕ) (i : NotifyInfo) : NotifyInv (init maxmsg msgsize i) := by
  refine ⟨Mq.init_inv maxmsg msgsize, nofun, fun _ => trivial, List.nodup_nil, ?_, ?_, ?_⟩
  · rintro (_ | c) x hx <;> simp [Holds, infoRes, init, callRes] at hx
  · rintro (_ | c) r' x hx <;> simp [Holds, infoRes, init, callRes] at hx
  · intro x
    refine iff_of_false ?_ ?_
    · cases x with
      | nc c => exact List.not_mem_nil
      | sock r => exact Nat.not_lt_zero r
    · rintro (hx | ⟨_ | c, hx⟩)
      · cases hx
      · simp [Holds, infoRes, init] at hx
      · simp [Holds, callRes, init] at hx

end Notifying

/-! ## Who is registered -/

/-- What registration is about: a call of `mq_notify` with a notification succeeds,
    a send stores its message into an empty queue on which no receiver waits, a
    process removes its registration or closes the queue. -/
inductive NotifyEvent where
  | registered (tgid : ℕ)
  | stored
  | removed (tgid : ℕ)
  deriving DecidableEq

/-- The process that is registered after an event. -/
def live : Option ℕ → NotifyEvent → Option ℕ
  | _, .registered tgid => some tgid
  | _, .stored => none
  | owner, .removed tgid => if owner = some tgid then none else owner

/-- A queue with the events on it. -/
structure NotifyHistory where
  state : Notifying
  log : List NotifyEvent

namespace NotifyHistory

/-- The event of a step from `s` to `s'`. -/
def observe (s : Notifying) (s' : Notifying) : NotifyAct → Option NotifyEvent
  | .timedsend c len prio e _ =>
    if Notifying.StoresIntoEmpty s.queue c len prio e then some .stored else none
  | .lock c _ _ _ =>
    match s.call c with
    | .lock tgid n _ _ =>
      if s'.call c = .returned 0 then some (n.elim (.removed tgid) fun _ => .registered tgid)
      else none
    | _ => none
  | .flush tgid => some (.removed tgid)
  | _ => none

def step (h : NotifyHistory) (a : NotifyAct) : Option NotifyHistory :=
  (h.state.step a).map fun s' => ⟨s', h.log ++ (observe h.state s' a).toList⟩

end NotifyHistory

namespace Notifying

open NotifyHistory

variable {s s' : Notifying} {c tgid : ℕ} {sock nc : Option ℕ} {notification : Option Sigevent}

theorem doMqNotify_info (s : Notifying) (c tgid : ℕ) (notification : Option Sigevent)
    (alloc copy : Bool) : (s.doMqNotify c tgid notification alloc copy).info = s.info := by
  unfold doMqNotify
  repeat' first | rfl | split

theorem notifyRetry_info (s : Notifying) (c tgid : ℕ) (n : Sigevent) (fd : Bool)
    (sockErr attach : ℤ) : (s.notifyRetry c tgid n fd sockErr attach).info = s.info := by
  unfold notifyRetry
  repeat' first | rfl | split

@[simp] theorem out_call (s : Notifying) (c : ℕ) (sock nc : Option ℕ) (ret : ℤ) :
    (s.out c sock nc ret).call c = .returned ret :=
  Function.update_self _ _ _

/-- What a call of `mq_notify` with a good descriptor does about registration. -/
theorem notifyLock_owner (s : Notifying) (c tgid : ℕ) (notification : Option Sigevent)
    (sock nc : Option ℕ) (execId userNs : ℕ) :
    let t := s.notifyLock c tgid notification sock nc 0 execId userNs
    match notification with
    | none => t.call c = .returned 0 ∧
        t.info.notifyOwner = live s.info.notifyOwner (.removed tgid)
    | some _ =>
      if s.info.notifyOwner = none then
        t.call c = .returned 0 ∧ t.info.notifyOwner = some tgid
      else t.call c = .returned (-EBUSY) ∧ t.info = s.info := by
  intro t
  cases notification with
  | none =>
    refine ⟨out_call _ _ _ _ _, ?_⟩
    simp only [t, notifyLock, ne_eq, not_true, if_false, live]
    split
    · exact (removeNotification_ended s).notifyOwner
    · rfl
  | some n =>
    simp only [t, notifyLock, ne_eq, not_true, if_false]
    by_cases hfree : s.info.notifyOwner = none
    · simp only [hfree, not_true, if_false, if_true]
      refine ⟨out_call _ _ _ _ _, ?_⟩
      unfold register
      cases n.sigevNotify <;> rfl
    · rw [if_neg hfree, if_pos hfree]
      exact ⟨out_call _ _ _ _ _, rfl⟩

/-- **Each step changes who is registered as its event says.** -/
theorem step_live {a : NotifyAct} (h : NotifyInv s) (hs : s.step a = some s') :
    s'.info.notifyOwner = (observe s s' a).elim s.info.notifyOwner (live s.info.notifyOwner) := by
  have hqueue : ∀ act, (Mq.step s.queue act).map (fun queue => { s with queue }) = some s' →
      s'.info.notifyOwner = s.info.notifyOwner := by
    intro act hs
    obtain ⟨q, hq, rfl⟩ := Option.map_eq_some_iff.1 hs
    rfl
  cases a with
  | timedsend c len prio e ne =>
    simp only [step] at hs
    split at hs
    · cases hs
    · obtain rfl := Option.some.inj hs
      simp only [observe]
      rcases doMqTimedsend_notify h.queue.ok c len prio e ne with ⟨hst, hend⟩ | ⟨hst, heq⟩
      · rw [if_pos hst]
        exact hend.notifyOwner
      · rw [if_neg hst, heq]
        rfl
  | timedreceive c len e => exact hqueue _ hs
  | wake c signal timedOut copy => exact hqueue _ hs
  | evict => exact hqueue _ hs
  | notify c tgid notification alloc copy =>
    simp only [step] at hs
    split at hs
    · cases hs
    · obtain rfl := Option.some.inj hs
      exact congrArg _ (doMqNotify_info s c tgid notification alloc copy)
  | retry c fd sockErr attach =>
    simp only [step] at hs
    split at hs
    · obtain rfl := Option.some.inj hs
      exact congrArg _ (notifyRetry_info s c _ _ fd sockErr attach)
    · cases hs
  | lock c file execId userNs =>
    simp only [step] at hs
    cases hc : s.call c with
    | lock tgid n sock nc =>
      rw [hc] at hs
      dsimp only at hs
      split at hs
      · cases hs
      obtain rfl := Option.some.inj hs
      simp only [observe, hc]
      by_cases hfile : file = 0
      · subst hfile
        have ho := notifyLock_owner s c tgid n sock nc execId userNs
        cases n with
        | none =>
          rw [if_pos ho.1]
          exact ho.2
        | some n =>
          dsimp only at ho
          split at ho
          · rw [if_pos ho.1]
            exact ho.2
          · rw [if_neg, ho.2]
            · rfl
            · rw [ho.1]
              decide
      · have hret : s.notifyLock c tgid n sock nc file execId userNs = s.out c sock nc file :=
          if_pos hfile
        rw [hret, out_call, if_neg fun he => hfile (NotifyCall.returned.inj he)]
        rfl
    | _ =>
      rw [hc] at hs
      cases hs
  | flush tgid =>
    simp only [step] at hs
    split at hs
    · cases hs
    · obtain rfl := Option.some.inj hs
      simp only [observe, mqueueFlushFile, Option.elim_some, live]
      split
      · exact (removeNotification_ended s).notifyOwner
      · rfl

/-- A process is registered where none is. -/
theorem step_registered {a : NotifyAct} (hs : s.step a = some s')
    (ho : observe s s' a = some (.registered tgid)) : s.info.notifyOwner = none := by
  cases a with
  | timedsend c len prio e ne =>
    simp only [observe] at ho
    split at ho <;> cases ho
  | lock c file execId userNs =>
    simp only [step] at hs
    simp only [observe] at ho
    cases hc : s.call c with
    | lock tgid n sock nc =>
      rw [hc] at hs ho
      dsimp only at hs ho
      split at hs
      · cases hs
      obtain rfl := Option.some.inj hs
      split at ho
      · next hret =>
        cases n with
        | none => cases ho
        | some n =>
          by_cases hfile : file = 0
          · subst hfile
            have how := notifyLock_owner s c tgid (some n) sock nc execId userNs
            dsimp only at how
            split at how
            · assumption
            · rw [how.1] at hret
              cases hret
          · have hout : s.notifyLock c tgid n sock nc file execId userNs = s.out c sock nc file :=
              if_pos hfile
            rw [hout, out_call] at hret
            exact absurd (NotifyCall.returned.inj hret) hfile
      · cases ho
    | _ =>
      rw [hc] at hs
      cases hs
  | _ => cases ho

end Notifying

/-- Nobody is registered where a process is registered. -/
def OneAtATime (log : List NotifyEvent) : Prop :=
  ∀ xs tgid ys, log = xs ++ .registered tgid :: ys → xs.foldl live none = none

namespace NotifyHistory

structure Ok (h : NotifyHistory) : Prop where
  inv : h.state.NotifyInv
  live : h.state.info.notifyOwner = h.log.foldl live none
  one : OneAtATime h.log

variable {h h' : NotifyHistory} {maxmsg msgsize : ℕ} {i : NotifyInfo}

theorem OneAtATime.snoc {log : List NotifyEvent} {ev : NotifyEvent} (h : OneAtATime log)
    (hev : ∀ tgid, ev = .registered tgid → log.foldl Mq.live none = none) :
    OneAtATime (log ++ [ev]) := by
  intro xs tgid ys heq
  rcases List.eq_nil_or_concat ys with rfl | ⟨ys, last, rfl⟩
  · obtain ⟨rfl, hlast⟩ := List.append_inj' heq rfl
    exact hev tgid (List.cons.inj hlast).1
  · rw [List.concat_eq_append, ← List.cons_append, ← List.append_assoc] at heq
    exact h xs tgid ys (List.append_inj' heq rfl).1

theorem step_ok {a : NotifyAct} (hok : Ok h) (hs : h.step a = some h') : Ok h' := by
  obtain ⟨s', hs', rfl⟩ := Option.map_eq_some_iff.1 hs
  refine ⟨Notifying.step_inv hok.inv hs', ?_, ?_⟩
  · have hlive := Notifying.step_live hok.inv hs'
    dsimp only
    rw [List.foldl_append, ← hok.live, hlive]
    cases observe h.state s' a <;> rfl
  · dsimp only
    cases ho : observe h.state s' a with
    | none =>
      rw [Option.toList_none, List.append_nil]
      exact hok.one
    | some ev =>
      refine OneAtATime.snoc hok.one ?_
      rintro tgid rfl
      rw [← hok.live]
      exact Notifying.step_registered hs' ho

theorem run_ok (hrun : Machine.Run step ⟨Notifying.init maxmsg msgsize i, []⟩ h) : Ok h := by
  refine hrun.inv ⟨Notifying.init_inv maxmsg msgsize i, rfl, ?_⟩ fun _ _ _ hok hs => step_ok hok hs
  rintro (_ | ⟨x, xs⟩) tgid ys heq <;> cases heq

end NotifyHistory

variable {h : NotifyHistory} {maxmsg msgsize : ℕ} {i : NotifyInfo}

/-- **Notification.**  After every run, the process that is registered is the one
    that the events leave, and a process was registered only where none was;
    another is refused with `-EBUSY`; a send ends the registration exactly where it
    stores its message into an empty queue on which no receiver waits.  A cookie
    or a reference that was made has been spent once and is held by none, or has
    not been spent and is held by one call or by the registration. -/
theorem notify_protocol
    (hrun : Machine.Run NotifyHistory.step ⟨Notifying.init maxmsg msgsize i, []⟩ h) :
    h.state.info.notifyOwner = h.log.foldl live none ∧ OneAtATime h.log ∧
      (∀ c tgid n sock nc execId userNs, h.state.info.notifyOwner ≠ none →
        let t := h.state.notifyLock c tgid (some n) sock nc 0 execId userNs
        t.call c = .returned (-EBUSY) ∧ t.info = h.state.info) ∧
      (∀ c len prio e ne t, h.state.step (.timedsend c len prio e ne) = some t →
        t.info.notifyOwner = if Notifying.StoresIntoEmpty h.state.queue c len prio e then none
          else h.state.info.notifyOwner) ∧
      (∀ x, h.state.Made x →
        (h.state.spent.map Prod.fst).count x = 1 ∧ (∀ r, ¬h.state.Holds r x) ∨
          (h.state.spent.map Prod.fst).count x = 0 ∧ ∃! r, h.state.Holds r x) ∧
      ∀ x, ¬h.state.Made x → x ∉ h.state.spent.map Prod.fst ∧ ∀ r, ¬h.state.Holds r x := by
  have hok := NotifyHistory.run_ok hrun
  refine ⟨hok.live, hok.one, ?_, ?_, fun x => hok.inv.kept.settled, ?_⟩
  · intro c tgid n sock nc execId userNs howner
    have ho := Notifying.notifyLock_owner h.state c tgid (some n) sock nc execId userNs
    dsimp only at ho
    rwa [if_neg howner] at ho
  · intro c len prio e ne t ht
    have hlive := Notifying.step_live hok.inv ht
    simp only [NotifyHistory.observe] at hlive
    rw [hlive]
    split <;> rfl
  · intro x hx
    rw [hok.inv.kept.all, not_or, not_exists] at hx
    exact hx

/-- Of two processes the second is refused while the first is registered; the
    first message, in an empty queue, ends the registration and wakes the socket,
    the second message does nothing. -/
theorem notify_protocol_two : ∃ h : NotifyHistory,
    h.log = [.registered 7, .stored] ∧ h.state.info.notifyOwner = none ∧
      (h.state.spent.map Prod.fst).count (.nc 0) = 1 := by
  let thread : Sigevent := ⟨.thread, 5, 0⟩
  let e : Env := ⟨0, 0, true, true, false, fun _ => 0, true⟩
  let ne : NotifyEnv := ⟨fun _ => none, fun _ => 0, fun _ => 0⟩
  obtain ⟨h, hrun, ht⟩ := Machine.exec_check NotifyHistory.step
    ⟨Notifying.init 4 64 ⟨⟨.none, 0, 0⟩, none, 0, none, none, none⟩, []⟩
    [.notify 0 7 (some thread) true true, .retry 0 true 0 1, .retry 0 true 0 0, .lock 0 0 0 0,
      .notify 1 8 (some thread) true true, .retry 1 true 0 0, .lock 1 0 0 0,
      .timedsend 0 8 3 e ne, .timedsend 1 8 3 e ne]
    (fun h => h.log = [.registered 7, .stored] ∧ (0 ∈ h.state.skbs) ∧
      Res.nc 0 ∈ h.state.spent.map Prod.fst ∧ h.state.call 1 = .returned (-EBUSY)) (by decide)
  obtain ⟨hlog, hskb, hspent, -⟩ := of_decide_eq_true ht
  obtain ⟨hlive, -, -, -, hmade, -⟩ := notify_protocol hrun
  refine ⟨h, hlog, ?_, ?_⟩
  · rw [hlive, hlog]
    rfl
  · rcases hmade (.nc 0) hskb with ⟨hone, -⟩ | ⟨hnone, -⟩
    · exact hone
    · exact absurd hspent (List.count_eq_zero.1 hnone)

end DroidLkm.Mq
