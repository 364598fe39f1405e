/-
  POSIX message queues — every message reaches one place, and nobody waits for
  nothing.

  * `step_inv`, `run_inv`: the invariant holds whenever the lock is free;
  * `step_full`: a sender sleeps on a full queue only, where `msg_insert` does
    not fail inside `pipelined_receive`;
  * `step_serves`: what a receiver is given has the highest priority;
  * `mqueue_protocol`: what a reachable state of a queue promises.
-/
import DroidLkm.Mq.Sections

namespace DroidLkm.Mq

open Machine Info

variable {s s' : State} {c len prio : ℕ} {e : Env} {m msg : MsgMsg} {wait : ExtWaitQueue}
  {sr : Side} {i : Info} {act : Act} {maxmsg msgsize : ℕ}

/-! ## Calls -/

theorem Inv.cacheLeaf (h : Inv none s) (newLeaf : Bool) :
    Inv none { s with info := s.info.cacheLeaf newLeaf } := by
  obtain ⟨hok, hsame, hst⟩ := cacheLeaf_ok h.ok newLeaf
  exact h.info hok hsame hst

theorem timedsendLocked_inv (h : Inv none s) (hidle : s.call c = .idle) (hid : msg.id = c)
    (e : Env) : Inv none (s.timedsendLocked c msg e) := by
  unfold State.timedsendLocked
  split
  · split
    · exact h.setCall hidle (show msg.id = c from hid) (by simp) rfl rfl
    · have hx : (Call.sleeping .send ⟨some msg, false⟩).Ok c := ⟨msg, rfl, hid⟩
      exact h.wqSleep hidle hx rfl (by simp) e.prio
  next hfull =>
  split
  · next r hr => exact h.handOver hidle hid hr
  next hnone =>
  have hrecv := wqGetFirstWaiter_none hnone
  dsimp only
  by_cases h0 : (s.info.msgInsert msg e.atomic).2 = 0
  · rw [h0]
    exact h.store hidle hid (msgInsert_ok h.ok h0) (Nat.lt_of_le_of_ne h.room hfull) hrecv
  · rw [msgInsert_fails h0]
    exact h.setCall hidle (show msg.id = c from hid) (by simp) rfl rfl

theorem doMqTimedsend_inv (h : Inv none s) (hidle : s.call c = .idle) (len prio : ℕ) (e : Env) :
    Inv none (s.doMqTimedsend c len prio e) := by
  have hrefuse : ∀ ret, Inv none (s.setCall c (.refused ret)) := fun ret =>
    h.setCall hidle trivial (by simp) rfl rfl
  unfold State.doMqTimedsend
  split
  · exact hrefuse _
  split
  · exact hrefuse _
  split
  · exact hrefuse _
  split
  · exact hrefuse _
  · exact timedsendLocked_inv (h.cacheLeaf e.newLeaf) hidle rfl e

/-- What a receive takes, if it takes something. -/
theorem takes_of_curmsgs (h : s.info.Ok) (hcur : s.info.curmsgs ≠ 0) :
    ∃ msg i, s.info.msgGet = (i, some msg) ∧ Takes s.info msg i := by
  refine msgGet_ok h ?_
  intro hnil
  rw [h.curmsgs, hnil] at hcur
  exact hcur rfl

theorem timedreceiveLocked_inv (h : Inv none s) (hidle : s.call c = .idle) (e : Env) :
    Inv none (s.timedreceiveLocked c e) := by
  unfold State.timedreceiveLocked
  split
  · next hcur =>
    split
    · exact h.setCall hidle trivial (by simp) rfl rfl
    · have hx : (Call.sleeping .recv ⟨none, false⟩).Ok c := rfl
      refine h.wqSleep hidle hx rfl (fun _ => ?_) e.prio
      rw [← List.length_eq_zero_iff, ← h.ok.curmsgs]
      exact hcur
  · next hcur =>
    obtain ⟨msg, i, hget, ht⟩ := takes_of_curmsgs h.ok hcur
    obtain ⟨htake, hroom, hrecv⟩ := h.take (c := c) ht
    rw [hget]
    refine (htake.pipelinedReceive hroom hrecv e.atomic).receiveEnd ?_ e.copy
    exact pipelinedReceive_idle htake.waits hidle e.atomic

theorem doMqTimedreceive_inv (h : Inv none s) (hidle : s.call c = .idle) (len : ℕ) (e : Env) :
    Inv none (s.doMqTimedreceive c len e) := by
  unfold State.doMqTimedreceive
  split
  · exact h.setCall hidle trivial (by simp) rfl rfl
  split
  · exact h.setCall hidle trivial (by simp) rfl rfl
  · exact timedreceiveLocked_inv (h.cacheLeaf e.newLeaf) hidle e

/-- A call that has slept returns: it was served, or it was not. -/
theorem wqReturn_inv (h : Inv none s) (hc : s.call c = .sleeping sr wait) {ret : ℤ}
    (hi : wait.ready = true ∧ i = s.info ∧ ret = 0 ∨
      wait.ready = false ∧ i = s.info.wqDel sr c ∧ ret ≠ 0) (copy : Bool) :
    Inv none ({ s with info := i }.wqReturn c sr wait ret copy) := by
  have hok := h.waits.calls c
  rw [hc] at hok
  have hq : wait.ready = true ∧ i = s.info ∨ i = s.info.wqDel sr c := by
    rcases hi with ⟨hready, hi, -⟩ | ⟨-, hi, -⟩
    · exact Or.inl ⟨hready, hi⟩
    · exact Or.inr hi
  cases sr with
  | send =>
    obtain ⟨msg, hmsg, hid⟩ := hok
    unfold State.wqReturn
    simp only [hmsg]
    refine h.woken hc (show msg.id = c from hid) (by simp) ?_ (by rw [hc]; rfl) hq
    rw [hc]
    rcases hi with ⟨hready, -, hret⟩ | ⟨hready, -, hret⟩ <;>
      simp [Call.accepts, hready, hret, hmsg]
  | recv =>
    have hmsg : wait.ready = wait.msg.isSome := hok
    unfold State.wqReturn
    dsimp only
    rcases hi with ⟨hready, rfl, rfl⟩ | ⟨hready, rfl, hret⟩
    · rw [if_pos rfl]
      rw [hready] at hmsg
      obtain ⟨msg, hsome⟩ := Option.isSome_iff_exists.1 hmsg.symm
      rw [hsome]
      exact h.woken hc (x := .received (some msg) _) trivial (by simp) (by rw [hc]; rfl)
        (by rw [hc]; exact hsome.symm) hq
    · rw [if_neg hret]
      rw [hready] at hmsg
      have hnone : wait.msg = none := by
        cases hw : wait.msg with
        | none => rfl
        | some m => rw [hw] at hmsg; cases hmsg
      exact h.woken hc (x := .received none ret) trivial (by simp) (by rw [hc]; rfl)
        (by rw [hc]; exact hnone.symm) hq

theorem wqWake_inv (h : Inv none s) (hc : s.call c = .sleeping sr wait)
    (signal timedOut copy : Bool) : Inv none (s.wqWake c sr wait signal timedOut copy) := by
  unfold State.wqWake
  split
  · next hready => exact wqReturn_inv h hc (i := s.info) (Or.inl ⟨hready, rfl, rfl⟩) copy
  next hready =>
  rw [Bool.not_eq_true] at hready
  split
  · exact wqReturn_inv h hc (Or.inr ⟨hready, rfl, by decide⟩) copy
  split
  · exact wqReturn_inv h hc (Or.inr ⟨hready, rfl, by decide⟩) copy
  · exact h

/-! ## The end of the queue -/

/-- **The loop of `mqueue_evict_inode` takes everything.** -/
theorem evictLoop_ok {fuel : ℕ} (h : i.Ok) (hfuel : i.stored.length < fuel) (tmp : List MsgMsg) :
    (State.evictLoop fuel i tmp).1.Ok ∧ Same i (State.evictLoop fuel i tmp).1 ∧
      (State.evictLoop fuel i tmp).1.stored = [] ∧
      (State.evictLoop fuel i tmp).2.Perm (tmp ++ i.stored) := by
  induction fuel generalizing i tmp with
  | zero => exact absurd hfuel (Nat.not_lt_zero _)
  | succ fuel ih =>
    unfold State.evictLoop
    by_cases hs : i.stored = []
    · rw [msgGet_empty h hs]
      refine ⟨h, ⟨rfl, rfl, rfl⟩, hs, ?_⟩
      rw [hs, List.append_nil]
    · obtain ⟨msg, i', hget, ht⟩ := msgGet_ok h hs
      rw [hget]
      have hlen : i.stored.length = i'.stored.length + 1 := ht.perm.length_eq
      obtain ⟨hok, hsame, hnil, hperm⟩ := ih ht.ok (by omega) (tmp ++ [msg])
      refine ⟨hok, ht.same.trans hsame, hnil, hperm.trans ?_⟩
      rw [List.append_assoc]
      exact ht.perm.symm.append_left tmp

theorem mqueueEvictInode_inv (h : Inv none s) : Inv none s.mqueueEvictInode := by
  have hfuel : s.info.stored.length < s.info.curmsgs + 1 := by
    rw [h.ok.curmsgs]
    exact Nat.lt_succ_self _
  obtain ⟨hok, hsame, hnil, hperm⟩ := evictLoop_ok h.ok hfuel []
  unfold State.mqueueEvictInode
  rcases hr : State.evictLoop (s.info.curmsgs + 1) s.info [] with ⟨i, tmp⟩
  rw [hr] at hok hsame hnil hperm
  have hcur : i.curmsgs = 0 := by rw [hok.curmsgs, hnil, List.length_nil]
  refine ⟨hok.congr rfl rfl rfl rfl, ⟨h.waits.calls, ?_, ?_, h.waits.usersNodup, h.waits.users⟩,
    ?_, ?_, ?_⟩
  · dsimp only
    rw [hsame.eWaitQ]
    exact h.waits.nodup
  · dsimp only
    rw [hsame.eWaitQ]
    exact h.waits.listed
  · refine h.mail.congr (fun _ => Iff.rfl) ?_ (fun _ _ => Iff.rfl)
    show (i.stored ++ (s.evicted ++ tmp)).Perm (s.info.stored ++ s.evicted)
    rw [hnil, List.nil_append]
    exact (hperm.append_left s.evicted).trans List.perm_append_comm
  · dsimp only
    rw [hcur]
    exact Nat.zero_le _
  · intro _
    exact hnil

/-! ## Steps and runs -/

/-- **Every step keeps the invariant.** -/
theorem step_inv (h : Inv none s) (hs : step s act = some s') : Inv none s' := by
  cases act with
  | timedsend c len prio e =>
    simp only [step] at hs
    split at hs
    · cases hs
    · next hc =>
      obtain rfl := Option.some.inj hs
      rw [not_or, not_not] at hc
      exact doMqTimedsend_inv h hc.2 len prio e
  | timedreceive c len e =>
    simp only [step] at hs
    split at hs
    · cases hs
    · next hc =>
      obtain rfl := Option.some.inj hs
      rw [not_or, not_not] at hc
      exact doMqTimedreceive_inv h hc.2 len e
  | wake c signal timedOut copy =>
    simp only [step] at hs
    split at hs
    · next hc =>
      obtain rfl := Option.some.inj hs
      exact wqWake_inv h hc signal timedOut copy
    · cases hs
  | evict =>
    simp only [step] at hs
    split at hs
    · cases hs
    · obtain rfl := Option.some.inj hs
      exact mqueueEvictInode_inv h

theorem init_inv (maxmsg msgsize : ℕ) : Inv none (State.init maxmsg msgsize) := by
  refine ⟨⟨SearchTree.ordered_nil, ?_, rfl, rfl, rfl⟩, ⟨fun _ => trivial, fun _ => List.nodup_nil,
    ?_, List.nodup_nil, ?_⟩, ⟨List.nodup_nil, ?_, ?_, ?_⟩, Nat.zero_le _, fun _ => rfl⟩
  · rintro l ⟨⟩
  · intro sr c
    simp [State.init]
  · intro c
    simp [State.init]
  · intro r m _ hm
    cases hm
  · rintro r r' m (h | h) <;> cases h
  · intro m
    simp [Accepted, Held, State.init, Call.accepts, Call.got, Info.stored, SearchTree.Tree.toList]

theorem run_inv (h : Run step (State.init maxmsg msgsize) s) : Inv none s :=
  h.inv (init_inv maxmsg msgsize) fun _ _ _ hi ha => step_inv hi ha

/-! ## Senders asleep -/

/-- A sender is linked on a full queue only. -/
def Full (s : State) : Prop := s.info.eWaitQ .send ≠ [] → s.info.curmsgs = s.info.maxmsg

/-- `msg_insert` fails inside `pipelined_receive`. -/
def pipelinedFails (s : State) (alloc : Bool) : Bool :=
  match s.info.wqGetFirstWaiter .send with
  | none => false
  | some sender =>
    match s.waitMsg sender with
    | none => false
    | some msg => (s.info.msgInsert msg alloc).2 != 0

/-- It does not, in a receive that comes so far. -/
def InsertsOk (s : State) : Act → Prop
  | .timedreceive _ len e => e.file = 0 → s.info.msgsize ≤ len → s.info.curmsgs ≠ 0 →
    pipelinedFails { s with info := (s.info.cacheLeaf e.newLeaf).msgGet.1 } e.atomic = false
  | _ => True

instance : DecidablePred (InsertsOk s) := fun
  | .timedsend .. => inferInstanceAs (Decidable True)
  | .timedreceive _ len e => inferInstanceAs (Decidable (e.file = 0 → s.info.msgsize ≤ len →
      s.info.curmsgs ≠ 0 → pipelinedFails _ e.atomic = false))
  | .wake .. => inferInstanceAs (Decidable True)
  | .evict => inferInstanceAs (Decidable True)

theorem Full.congr (h : Full s) (hq : s'.info.eWaitQ .send ≠ [] → s.info.eWaitQ .send ≠ [])
    (hc : s'.info.curmsgs = s.info.curmsgs) (hm : s'.info.maxmsg = s.info.maxmsg) : Full s' := by
  intro hne
  rw [hc, hm]
  exact h (hq hne)

theorem Full.wqDel (h : Full s) (hs : s'.info = s.info.wqDel sr c) : Full s' := by
  refine h.congr ?_ (by rw [hs]; rfl) (by rw [hs]; rfl)
  rw [hs, wqDel_eWaitQ]
  split
  · next he =>
    subst he
    intro hne hnil
    rw [hnil] at hne
    exact hne rfl
  · exact id

theorem timedsendLocked_full (hi : s.info.Ok) (h : Full s) (c : ℕ) (msg : MsgMsg) (e : Env) :
    Full (s.timedsendLocked c msg e) := by
  unfold State.timedsendLocked
  split
  · next hfull =>
    split
    · exact h
    · exact fun _ => hfull
  next hnot =>
  have hnil : s.info.eWaitQ .send = [] := by
    by_contra hne
    exact hnot (h hne)
  split
  · exact h.wqDel rfl
  dsimp only
  by_cases h0 : (s.info.msgInsert msg e.atomic).2 = 0
  · have hst := msgInsert_ok hi h0
    intro hne
    exfalso
    apply hne
    show (s.info.msgInsert msg e.atomic).1.eWaitQ .send = []
    rw [hst.same.eWaitQ, hnil]
  · rw [msgInsert_fails h0]
    exact h

/-- **The message of a sender takes the place of the one that has been received.** -/
theorem pipelinedReceive_full (hi : Inv (some (c, msg)) s)
    (hroom : s.info.eWaitQ .send ≠ [] → s.info.curmsgs + 1 = s.info.maxmsg) {alloc : Bool}
    (hok : pipelinedFails s alloc = false) : Full (s.pipelinedReceive alloc) := by
  unfold State.pipelinedReceive
  unfold pipelinedFails at hok
  split
  · next hnone =>
    intro hne
    exact absurd (wqGetFirstWaiter_none hnone) hne
  next sender hsender =>
  simp only [hsender] at hok
  have hroom' := hroom (List.ne_nil_of_mem (wqGetFirstWaiter_mem hsender))
  obtain ⟨m₀, hcall⟩ := hi.waits.first hsender
  obtain ⟨msg', hm₀, -⟩ : ∃ msg, m₀ = some msg ∧ msg.id = sender := by
    have hcok := hi.waits.calls sender
    rw [hcall] at hcok
    exact hcok
  subst hm₀
  have hmsg : s.waitMsg sender = some msg' := by rw [State.waitMsg, hcall]
  simp only [hmsg] at hok ⊢
  have h0 : (s.info.msgInsert msg' alloc).2 = 0 := by simpa using hok
  have hst := msgInsert_ok hi.ok h0
  have hlen := hst.perm.length_eq
  rw [if_neg (not_not.2 h0)]
  intro _
  show (s.info.msgInsert msg' alloc).1.curmsgs = (s.info.msgInsert msg' alloc).1.maxmsg
  rw [hst.ok.curmsgs, hlen, List.length_cons, ← hi.ok.curmsgs, hst.same.maxmsg, hroom']

theorem timedreceiveLocked_full (hi : Inv none s) (h : Full s) (c : ℕ) {e : Env}
    (hok : s.info.curmsgs ≠ 0 → pipelinedFails { s with info := s.info.msgGet.1 } e.atomic = false) :
    Full (s.timedreceiveLocked c e) := by
  unfold State.timedreceiveLocked
  split
  · split
    · exact h
    · exact h.congr id rfl rfl
  next hcur =>
  have hok := hok hcur
  obtain ⟨msg, i, hget, ht⟩ := takes_of_curmsgs hi.ok hcur
  rw [hget] at hok ⊢
  have hlen : s.info.stored.length = i.stored.length + 1 := ht.perm.length_eq
  refine pipelinedReceive_full (hi.take (c := c) ht).1 ?_ hok
  show i.eWaitQ .send ≠ [] → i.curmsgs + 1 = i.maxmsg
  rw [ht.same.eWaitQ, ht.same.maxmsg, ht.ok.curmsgs, ← hlen, ← hi.ok.curmsgs]
  exact h

/-- The cache is no part of it. -/
theorem Full.cacheLeaf (h : Full s) (hi : s.info.Ok) (newLeaf : Bool) :
    Full { s with info := s.info.cacheLeaf newLeaf } := by
  obtain ⟨hok, hsame, hst⟩ := cacheLeaf_ok hi newLeaf
  refine h.congr ?_ ?_ hsame.maxmsg
  · dsimp only
    rw [hsame.eWaitQ]
    exact id
  · dsimp only
    rw [hok.curmsgs, hst, hi.curmsgs]

/-- **A step keeps senders awake**, unless memory fails. -/
theorem step_full (hi : Inv none s) (h : Full s) (hok : InsertsOk s act)
    (hs : step s act = some s') : Full s' := by
  cases act with
  | timedsend c len prio e =>
    simp only [step] at hs
    split at hs
    · cases hs
    obtain rfl := Option.some.inj hs
    unfold State.doMqTimedsend
    split
    · exact h
    split
    · exact h
    split
    · exact h
    split
    · exact h
    · exact timedsendLocked_full (hi.cacheLeaf e.newLeaf).ok (h.cacheLeaf hi.ok e.newLeaf) c _ e
  | timedreceive c len e =>
    simp only [step] at hs
    split at hs
    · cases hs
    obtain rfl := Option.some.inj hs
    unfold State.doMqTimedreceive
    split
    · exact h
    next hfile =>
    split
    · exact h
    next hlen =>
    refine timedreceiveLocked_full (hi.cacheLeaf e.newLeaf) (h.cacheLeaf hi.ok e.newLeaf) c ?_
    intro hcur
    have hsame : (s.info.cacheLeaf e.newLeaf).curmsgs = s.info.curmsgs := by
      obtain ⟨hok', -, hst⟩ := cacheLeaf_ok hi.ok e.newLeaf
      rw [hok'.curmsgs, hst, hi.ok.curmsgs]
    exact hok (not_not.1 hfile) (Nat.le_of_not_lt hlen) (hsame ▸ hcur)
  | wake c signal timedOut copy =>
    simp only [step] at hs
    split at hs
    · next sr wait hc =>
      obtain rfl := Option.some.inj hs
      have hret : ∀ (i : Info) ret, (i = s.info ∨ i = s.info.wqDel sr c) →
          Full ({ s with info := i }.wqReturn c sr wait ret copy) := by
        intro i ret hi
        have hinfo : ({ s with info := i }.wqReturn c sr wait ret copy).info = i := by
          unfold State.wqReturn
          cases sr
          · rfl
          · dsimp only
            split <;> rfl
        rcases hi with hi | hi
        · rw [hi] at hinfo
          rw [Full, hi, hinfo]
          exact h
        · exact h.wqDel (hinfo.trans hi)
      unfold State.wqWake
      split
      · exact hret s.info 0 (Or.inl rfl)
      split
      · exact hret _ _ (Or.inr rfl)
      split
      · exact hret _ _ (Or.inr rfl)
      · exact h
    · cases hs
  | evict =>
    simp only [step] at hs
    split at hs
    · cases hs
    next hc =>
    rw [not_or, not_not] at hc
    obtain rfl := Option.some.inj hs
    have hfuel : s.info.stored.length < s.info.curmsgs + 1 := by
      rw [hi.ok.curmsgs]
      exact Nat.lt_succ_self _
    obtain ⟨-, hsame, -, -⟩ := evictLoop_ok hi.ok hfuel []
    intro hne
    exfalso
    apply hne
    show (State.evictLoop (s.info.curmsgs + 1) s.info []).1.eWaitQ .send = []
    rw [hsame.eWaitQ, List.eq_nil_iff_forall_not_mem]
    intro c hmem
    obtain ⟨msg, hmsg⟩ := (hi.waits.listed .send c).1 hmem
    have huser := (hi.waits.users c).2 ⟨.send, _, hmsg⟩
    rw [hc.2] at huser
    cases huser

theorem run_full (h : RunIf step InsertsOk (State.init maxmsg msgsize) s) : Full s := by
  have hi : Inv none s ∧ Full s := by
    refine h.inv (I := fun s => Inv none s ∧ Full s)
      ⟨init_inv maxmsg msgsize, fun hne => absurd rfl hne⟩ ?_
    rintro s act s' ⟨hi, hf⟩ hok hs
    exact ⟨step_inv hi hs, step_full hi hf hok hs⟩
  exact hi.2

/-! ## Who is given what -/

/-- What a receiver is given, as things stand: one of the highest priority, or
    what has just been sent if nothing is stored. -/
def Serves (s : State) (m : MsgMsg) : Prop :=
  s.info.stored = [] ∨ m ∈ s.info.stored ∧ ∀ m' ∈ s.info.stored, m'.mType ≤ m.mType

theorem got_setCall {x : Call} (hx : x.got = none) {r : ℕ} (hnone : (s.call r).got = none) :
    ((s.setCall c x).call r).got = none := by
  unfold State.setCall
  dsimp only
  by_cases hr : r = c
  · rw [hr, Function.update_self, hx]
  · rw [Function.update_of_ne hr, hnone]

theorem timedsendLocked_got (h : Inv none s) (msg : MsgMsg) (e : Env) {r : ℕ}
    (hnone : (s.call r).got = none)
    (hsome : ((s.timedsendLocked c msg e).call r).got ≠ none) : s.info.stored = [] := by
  unfold State.timedsendLocked at hsome
  split at hsome
  · split at hsome
    · exact absurd (got_setCall (by rfl) hnone) hsome
    · exact absurd (got_setCall (x := .sleeping .send ⟨some msg, false⟩) (by rfl) hnone) hsome
  split at hsome
  · next receiver hreceiver =>
    exact h.empty (List.ne_nil_of_mem (wqGetFirstWaiter_mem hreceiver))
  · exact absurd (got_setCall (by rfl) hnone) hsome

/-- The call of a sender that is served has got nothing. -/
theorem pipelinedReceive_got (h : Waits s) (alloc : Bool) (r : ℕ) :
    ((s.pipelinedReceive alloc).call r).got = (s.call r).got := by
  unfold State.pipelinedReceive
  split
  · rfl
  next sender hsender =>
  obtain ⟨m₀, hcall⟩ := h.first hsender
  split
  · rfl
  next msg _ =>
  dsimp only
  split
  · rfl
  · rw [pipelinedOp_eq (s := { s with info := (s.info.msgInsert msg alloc).1 }) hcall]
    dsimp only
    by_cases hr : r = sender
    · rw [hr, Function.update_self, hcall]
      rfl
    · rw [Function.update_of_ne hr]

/-- **A receive that finds messages takes one of the highest priority.** -/
theorem timedreceiveLocked_takes (h : Inv none s) (hne : s.info.stored ≠ []) (c : ℕ) (e : Env) :
    ∃ m ∈ s.info.stored, (∀ m' ∈ s.info.stored, m'.mType ≤ m.mType) ∧
      ((s.timedreceiveLocked c e).call c).got = some m ∧
        ∀ r, r ≠ c → ((s.timedreceiveLocked c e).call r).got = (s.call r).got := by
  have hcur : s.info.curmsgs ≠ 0 := by
    rw [h.ok.curmsgs, ne_eq, List.length_eq_zero_iff]
    exact hne
  obtain ⟨msg, i, hget, ht⟩ := takes_of_curmsgs h.ok hcur
  obtain ⟨hmem, hhigh⟩ := ht.highest
  refine ⟨msg, hmem, hhigh, ?_⟩
  have hwaits := (h.take (c := c) ht).1.waits
  unfold State.timedreceiveLocked
  rw [if_neg hcur, hget]
  unfold State.receiveEnd State.setCall
  dsimp only
  refine ⟨?_, ?_⟩
  · rw [Function.update_self]
    rfl
  · intro r hr
    rw [Function.update_of_ne hr]
    exact pipelinedReceive_got hwaits e.atomic r

theorem timedreceiveLocked_got (h : Inv none s) (e : Env) {r : ℕ} (hnone : (s.call r).got = none)
    (hsome : ((s.timedreceiveLocked c e).call r).got = some m) : Serves s m := by
  by_cases hne : s.info.stored = []
  · exact Or.inl hne
  obtain ⟨m', hmem, hhigh, hgot, hother⟩ := timedreceiveLocked_takes h hne c e
  by_cases hr : r = c
  · rw [hr, hgot] at hsome
    obtain rfl := Option.some.inj hsome
    exact Or.inr ⟨hmem, hhigh⟩
  · rw [hother r hr, hnone] at hsome
    cases hsome

/-- A call that comes back keeps what it has. -/
theorem wqReturn_got (hc : s.call c = .sleeping sr wait) (hok : (s.call c).Ok c) {ret : ℤ}
    (hret : wait.ready = true ∨ ret ≠ 0) (i : Info) (copy : Bool) (r : ℕ)
    (hnone : (s.call r).got = none) :
    (({ s with info := i }.wqReturn c sr wait ret copy).call r).got = none := by
  rw [hc] at hok
  cases sr with
  | send =>
    obtain ⟨msg, hmsg, -⟩ := hok
    unfold State.wqReturn
    simp only [hmsg]
    exact got_setCall (by rfl) hnone
  | recv =>
    have hmsg : wait.ready = wait.msg.isSome := hok
    unfold State.wqReturn
    dsimp only
    split
    · next h0 =>
      have hsome : wait.msg.isSome = true := by
        rcases hret with hret | hret
        · rw [← hmsg, hret]
        · exact absurd h0 hret
      obtain ⟨m, hm⟩ := Option.isSome_iff_exists.1 hsome
      have hne : r ≠ c := by
        rintro rfl
        rw [hc, Call.got, hm] at hnone
        cases hnone
      unfold State.receiveEnd State.setCall
      dsimp only
      rw [Function.update_of_ne hne, hnone]
    · exact got_setCall (by rfl) hnone

/-- **Whoever is given a message is given a right one.** -/
theorem step_serves (h : Inv none s) (hs : step s act = some s') {r : ℕ}
    (hnone : (s.call r).got = none) (hsome : (s'.call r).got = some m) : Serves s m := by
  have hkeep : (s'.call r).got ≠ none := by simp [hsome]
  cases act with
  | timedsend c len prio e =>
    simp only [step] at hs
    split at hs
    · cases hs
    obtain rfl := Option.some.inj hs
    unfold State.doMqTimedsend at hkeep
    have hset : ∀ ret, ((s.setCall c (.refused ret)).call r).got = none := fun ret =>
      got_setCall (by rfl) hnone
    split at hkeep
    · exact absurd (hset _) hkeep
    split at hkeep
    · exact absurd (hset _) hkeep
    split at hkeep
    · exact absurd (hset _) hkeep
    split at hkeep
    · exact absurd (hset _) hkeep
    have hst := timedsendLocked_got (h.cacheLeaf e.newLeaf) _ e hnone hkeep
    rw [(cacheLeaf_ok h.ok e.newLeaf).2.2] at hst
    exact Or.inl hst
  | timedreceive c len e =>
    simp only [step] at hs
    split at hs
    · cases hs
    obtain rfl := Option.some.inj hs
    unfold State.doMqTimedreceive at hsome hkeep
    have hset : ∀ ret, ((s.setCall c (.refused ret)).call r).got = none := fun ret =>
      got_setCall (by rfl) hnone
    split at hsome
    · next hf => exact absurd (by rw [if_pos hf]; exact hset _) hkeep
    next hf =>
    split at hsome
    · next hl => exact absurd (by rw [if_neg hf, if_pos hl]; exact hset _) hkeep
    have hst := timedreceiveLocked_got (h.cacheLeaf e.newLeaf) e hnone hsome
    rw [Serves, (cacheLeaf_ok h.ok e.newLeaf).2.2] at hst
    exact hst
  | wake c signal timedOut copy =>
    simp only [step] at hs
    split at hs
    · next sr wait hc =>
      obtain rfl := Option.some.inj hs
      have hok := h.waits.calls c
      exfalso
      apply hkeep
      unfold State.wqWake
      split
      · next hready => exact wqReturn_got hc hok (Or.inl hready) s.info copy r hnone
      split
      · exact wqReturn_got hc hok (Or.inr (by decide)) _ copy r hnone
      split
      · exact wqReturn_got hc hok (Or.inr (by decide)) _ copy r hnone
      · exact hnone
    · cases hs
  | evict =>
    simp only [step] at hs
    split at hs
    · cases hs
    obtain rfl := Option.some.inj hs
    exact absurd hnone hkeep

/-! ## The protocol -/

/-- Where an accepted message can be. -/
inductive Place where
  | stored
  | handed (r : ℕ)
  | freed
  deriving DecidableEq

/-- The message is at that place. -/
def At (s : State) (m : MsgMsg) : Place → Prop
  | .stored => m ∈ s.info.stored
  | .handed r => (s.call r).got = some m
  | .freed => m ∈ s.evicted

instance (s : State) (m : MsgMsg) : DecidablePred (At s m) := fun
  | .stored => inferInstanceAs (Decidable (m ∈ s.info.stored))
  | .handed r => inferInstanceAs (Decidable ((s.call r).got = some m))
  | .freed => inferInstanceAs (Decidable (m ∈ s.evicted))

theorem accepted_iff (h : Inv none s) : Accepted s m ↔ ∃ p, At s m p := by
  rw [h.mail.all, List.mem_append]
  unfold Held
  simp only [reduceCtorEq, or_false]
  constructor
  · rintro ((hm | hm) | ⟨r, hm⟩)
    · exact ⟨.stored, hm⟩
    · exact ⟨.freed, hm⟩
    · exact ⟨.handed r, hm⟩
  · rintro ⟨p, hm⟩
    cases p with
    | stored => exact Or.inl (Or.inl hm)
    | handed r => exact Or.inr ⟨r, hm⟩
    | freed => exact Or.inl (Or.inr hm)

/-- **It is at one place only.** -/
theorem one_place (h : Inv none s) {p p' : Place} (hp : At s m p) (hp' : At s m p') : p = p' := by
  have hpool := List.nodup_append'.1 h.mail.nodup
  have hstored : m ∈ s.info.stored → m ∉ s.evicted := fun hm hm' => hpool.2.2 hm hm'
  have hheld : ∀ r, (s.call r).got = some m → m ∉ s.info.stored ∧ m ∉ s.evicted := by
    intro r hr
    have := h.mail.apart r m (Or.inl hr)
    rwa [List.mem_append, not_or] at this
  cases p with
  | stored =>
    cases p' with
    | stored => rfl
    | handed r => exact absurd hp (hheld r hp').1
    | freed => exact absurd hp' (hstored hp)
  | handed r =>
    cases p' with
    | stored => exact absurd hp' (hheld r hp).1
    | handed r' => rw [h.mail.once r r' m (Or.inl hp) (Or.inl hp')]
    | freed => exact absurd hp' (hheld r hp).2
  | freed =>
    cases p' with
    | stored => exact absurd hp (hstored hp')
    | handed r => exact absurd hp (hheld r hp').2
    | freed => rfl

/-- What a queue promises whenever its lock is free. -/
structure Protocol (s : State) : Prop where
  counted : s.info.curmsgs = s.info.stored.length
  bounded : s.info.stored.length ≤ s.info.maxmsg
  /-- no message is lost, and none is there twice -/
  place : ∀ m, Accepted s m → ∃ p, At s m p ∧ ∀ p', At s m p' → p' = p
  once : s.info.stored.Nodup ∧ s.evicted.Nodup
  /-- none comes from nowhere -/
  sent : ∀ m p, At s m p → Accepted s m
  receivers : s.info.eWaitQ .recv ≠ [] → s.info.stored = []
  /-- who is given a message is given one of the highest priority stored, or one
      just sent to an empty queue -/
  serves : ∀ act s' r m, step s act = some s' → (s.call r).got = none →
    (s'.call r).got = some m → Serves s m
  /-- a receive that comes as far as the messages is given one -/
  receives : ∀ c len e s', step s (.timedreceive c len e) = some s' → e.file = 0 →
    s.info.msgsize ≤ len → s.info.stored ≠ [] →
      ∃ m ∈ s.info.stored, (∀ m' ∈ s.info.stored, m'.mType ≤ m.mType) ∧
        (s'.call c).got = some m
  crashed : ∀ c, s.call c ≠ .crashed

theorem Inv.receives (h : Inv none s) {c len : ℕ} {e : Env}
    (hs : step s (.timedreceive c len e) = some s') (hfile : e.file = 0)
    (hlen : s.info.msgsize ≤ len) (hne : s.info.stored ≠ []) :
    ∃ m ∈ s.info.stored, (∀ m' ∈ s.info.stored, m'.mType ≤ m.mType) ∧
      (s'.call c).got = some m := by
  simp only [step] at hs
  split at hs
  · cases hs
  obtain rfl := Option.some.inj hs
  have hst := (cacheLeaf_ok h.ok e.newLeaf).2.2
  have hne' : (s.info.cacheLeaf e.newLeaf).stored ≠ [] := by rwa [hst]
  obtain ⟨m, hmem, hhigh, hgot, -⟩ :=
    timedreceiveLocked_takes (h.cacheLeaf e.newLeaf) hne' c e
  refine ⟨m, hst ▸ hmem, hst ▸ hhigh, ?_⟩
  unfold State.doMqTimedreceive
  rw [if_neg (not_not.2 hfile), if_neg (Nat.not_lt.2 hlen)]
  exact hgot

theorem Inv.protocol (h : Inv none s) : Protocol s where
  counted := h.ok.curmsgs
  bounded := h.ok.curmsgs ▸ h.room
  place := by
    intro m hm
    obtain ⟨p, hp⟩ := (accepted_iff h).1 hm
    exact ⟨p, hp, fun p' hp' => one_place h hp' hp⟩
  once := by
    have hpool := List.nodup_append'.1 h.mail.nodup
    exact ⟨hpool.1, hpool.2.1⟩
  sent := fun m p hp => (accepted_iff h).2 ⟨p, hp⟩
  receivers := h.empty
  serves := fun _ _ _ _ hs hnone hsome => step_serves h hs hnone hsome
  receives := fun _ _ _ _ hs hfile hlen hne => h.receives hs hfile hlen hne
  crashed := by
    intro c hc
    have hok := h.waits.calls c
    rw [hc] at hok
    exact hok

/-- **Every message reaches one place, receivers wait on an empty queue only, and
    senders on a full one** unless memory fails. -/
theorem mqueue_protocol (h : Run step (State.init maxmsg msgsize) s) :
    Protocol s ∧ (RunIf step InsertsOk (State.init maxmsg msgsize) s →
      s.info.eWaitQ .send ≠ [] → s.info.stored.length = s.info.maxmsg) := by
  refine ⟨(run_inv h).protocol, ?_⟩
  intro hif hne
  rw [← (run_inv h).ok.curmsgs]
  exact run_full hif hne

/-- A message is handed over, the next is stored, and the one after it waits. -/
theorem mqueue_protocol_sleeps : ∃ s, Run step (State.init 1 8) s ∧ s.info.eWaitQ .send = [3] ∧
    s.info.stored = [⟨2, 5, 4⟩] ∧ At s ⟨1, 3, 4⟩ (.handed 0) ∧ Protocol s ∧
      s.info.stored.length = s.info.maxmsg := by
  let e : Env := ⟨0, 0, true, true, false, fun _ => 0, true⟩
  obtain ⟨s, hrun, hs⟩ := execIf_check step (fun s act => decide (InsertsOk s act))
    (fun s act h => of_decide_eq_true h) (State.init 1 8)
    [.timedreceive 0 8 e, .timedsend 1 4 3 e, .wake 0 false false true, .timedsend 2 4 5 e,
      .timedsend 3 4 7 e]
    (fun s => decide (s.info.eWaitQ .send = [3] ∧ s.info.stored = [⟨2, 5, 4⟩] ∧
      At s ⟨1, 3, 4⟩ (.handed 0))) (by decide)
  obtain ⟨hq, hst, hat⟩ := of_decide_eq_true hs
  obtain ⟨hp, hfull⟩ := mqueue_protocol hrun.run
  exact ⟨s, hrun.run, hq, hst, hat, hp, hfull hrun (by rw [hq]; decide)⟩

end DroidLkm.Mq
