/-
  SysV message queues — the accounts of the namespaces.

  Each namespace has a record of the bytes and messages in its queues, which
  the sections of `do_msgsnd`, `do_msgrcv` and `freeque` find by the address of
  the namespace; without a record they do nothing.

  * `msgAcctInit`, `msgAcctAdd`: as in `ipc_msg.c`;
  * `State.acctSection`: what a section adds, beside what `step` does;
  * `Spaces`: the queues of any number of namespaces, and the list of records;
  * `message_accounts`: the counters of a queue are those of its messages, and
    a record those of the queues.

  Nothing calls `droid_lkm_msg_acct_exit`, so a record is there for good.  The
  counters are numbers without a bound: the messages that would overflow them
  do not fit in memory.
-/
import Mathlib.Algebra.Group.Int.Defs
import Mathlib.Algebra.Group.Prod
import DroidLkm.Lib.Sums
import DroidLkm.Msg.Delivery

namespace DroidLkm.Msg

open Machine

/-! ## The records -/

/-- `struct droid_lkm_msg_acct`, less its link. -/
@[ext]
structure MsgAcct where
  ns : ℕ
  bytes : ℤ
  hdrs : ℤ
  deriving DecidableEq

/-- `droid_lkm_msg_acct_get` -/
def msgAcctGet : List MsgAcct → ℕ → Option MsgAcct
  | [], _ => none
  | a :: l, ns => if a.ns = ns then some a else msgAcctGet l ns

/-- `droid_lkm_msg_acct_init`: the list and what is returned; `nomem` says that
    `kzalloc` fails. -/
def msgAcctInit (l : List MsgAcct) (ns : ℕ) (nomem : Bool) : List MsgAcct × ℤ :=
  if nomem then (l, -ENOMEM)
  else if (msgAcctGet l ns).isSome then (l, 0)
  else (⟨ns, 0, 0⟩ :: l, 0)

/-- `droid_lkm_msg_acct_add` -/
def msgAcctAdd : List MsgAcct → ℕ → ℤ → ℤ → List MsgAcct
  | [], _, _, _ => []
  | a :: l, ns, bytes, hdrs =>
    if a.ns ≠ ns then a :: msgAcctAdd l ns bytes hdrs
    else { a with bytes := a.bytes + bytes, hdrs := a.hdrs + hdrs } :: l

def msgAcctBytes (l : List MsgAcct) (ns : ℕ) (bytes : ℤ) : List MsgAcct := msgAcctAdd l ns bytes 0

def msgAcctHdrs (l : List MsgAcct) (ns : ℕ) (hdrs : ℤ) : List MsgAcct := msgAcctAdd l ns 0 hdrs

/-! ## What the sections add -/

namespace State

variable (s : State) (l : List MsgAcct) (ns : ℕ)

/-- The end of `do_msgsnd`: a message handed over is not counted. -/
def acctAccept (msg : MsgMsg) : List MsgAcct :=
  match pipelinedSend msg s.msr s.queue.qReceivers with
  | (_, _, some _) => l
  | (_, _, none) => msgAcctHdrs (msgAcctBytes l ns msg.mTs) ns 1

/-- One pass of the loop of `do_msgsnd`. -/
def acctSndPass (msg : MsgMsg) (allowed : Bool) : List MsgAcct :=
  if !allowed then l
  else if !s.queue.valid then l
  else if msgFitsInqueue s.queue msg.mTs then s.acctAccept l ns msg
  else l

/-- One pass of the loop of `do_msgrcv`. -/
def acctRcvPass (a : RcvArgs) : List MsgAcct :=
  if !s.queue.valid then l
  else match findMsg s.queue.qMessages a.msgtyp a.mode with
  | (some msg, _) =>
    if a.bufsz < msg.mTs ∧ !a.msgflg.noerror then l
    else if a.msgflg.copy then l
    else msgAcctHdrs (msgAcctBytes l ns (-msg.mTs)) ns (-1)
  | (none, _) => l

/-- The records after a section on a queue of the namespace. -/
def acctSection : Act → List MsgAcct
  | .sndLock t allowed =>
    match s.phase t with
    | .sending msg _ => s.acctSndPass l ns msg allowed
    | _ => l
  | .sndRelock t signal allowed =>
    match s.phase t with
    | .sndAsleep msg _ =>
      if !s.queue.valid then l
      else if signal then l
      else acctSndPass { s with
        queue := { s.queue with qSenders := s.queue.qSenders.erase ⟨t, msg.mTs⟩ } } l ns msg allowed
    | _ => l
  | .rcvLock t allowed _ =>
    match s.phase t with
    | .receiving a => if !allowed then l else s.acctRcvPass l ns a
    | _ => l
  | .freeMsg t =>
    match s.phase t with
    | .freeing =>
      match s.queue.qMessages with
      | [] => msgAcctBytes l ns (-s.queue.qCbytes)
      | _ :: _ => msgAcctHdrs l ns (-1)
    | _ => l
  -- the other sections put no message on a queue and take none off
  | _ => l

end State

/-! ## The namespaces -/

/-- The records, and the queues: how many have been made, the namespace in
    whose table each is, and each with the tasks in a call on it. -/
structure Spaces where
  acctList : List MsgAcct
  made : ℕ
  ns : ℕ → ℕ
  queue : ℕ → State

inductive Event where
  /-- the record that `msg_init_ns` makes -/
  | msgInitNs (ns : ℕ) (nomem : Bool)
  | newque (ns qbytes : ℕ)
  /-- a section on a queue, of a task whose `ns` is the namespace -/
  | call (ns q : ℕ) (act : Act)

namespace Spaces

def init : Spaces := ⟨[], 0, fun _ => 0, fun _ => State.init 0⟩

def step (w : Spaces) : Event → Option Spaces
  | .msgInitNs ns nomem =>
    -- a namespace without a record has no queues when it is initialised
    if (msgAcctGet w.acctList ns).isSome ∨ ∀ q ∈ List.range w.made, w.ns q ≠ ns then
      some { w with acctList := (msgAcctInit w.acctList ns nomem).1 }
    else none
  | .newque ns qbytes =>
    some { w with
      made := w.made + 1
      ns := Function.update w.ns w.made ns
      queue := Function.update w.queue w.made (State.init qbytes) }
  | .call ns q act =>
    if q < w.made ∧ w.ns q = ns then
      (Msg.step (w.queue q) act).map fun s =>
        { w with
          acctList := (w.queue q).acctSection w.acctList ns act
          queue := Function.update w.queue q s }
    else none

/-- The queues in the table of a namespace. -/
def live (w : Spaces) (ns : ℕ) : List MsgQueue :=
  ((List.range w.made).filter fun q => w.ns q = ns ∧ (w.queue q).queue.valid = true).map
    fun q => (w.queue q).queue

/-- No task is in `freeque` on a queue of the namespace. -/
def Idle (w : Spaces) (ns : ℕ) : Prop :=
  ∀ q < w.made, w.ns q = ns → ∀ t, (w.queue q).phase t ≠ .freeing

end Spaces

/-! ## One queue -/

variable {s s' s₁ : State} {t ns : ℕ} {p : Phase} {m msg : MsgMsg} {a : RcvArgs}
  {l l' l₁ : List MsgAcct} {d d' : ℤ × ℤ} {act : Act}

/-- The counters of a queue, and who frees it. -/
structure Books (s : State) : Prop where
  cbytes : s.queue.qCbytes = ((s.freed ++ s.queue.qMessages).map MsgMsg.mTs).sum
  qnum : s.queue.qQnum = (s.freed ++ s.queue.qMessages).length
  once : ∀ t t', s.phase t = .freeing → s.phase t' = .freeing → t = t'

open Classical in
/-- What stands in the record for a queue: its bytes until `freeque` is
    through, and the messages that are left. -/
noncomputable def State.owed (s : State) : ℤ × ℤ :=
  if s.queue.valid = true ∨ ∃ t, s.phase t = .freeing then
    (s.queue.qCbytes, s.queue.qMessages.length)
  else 0

theorem owed_valid (h : s.queue.valid = true) :
    s.owed = ((s.queue.qCbytes : ℤ), (s.queue.qMessages.length : ℤ)) :=
  if_pos (.inl h)

theorem owed_freeing (h : s.phase t = .freeing) :
    s.owed = ((s.queue.qCbytes : ℤ), (s.queue.qMessages.length : ℤ)) :=
  if_pos (.inr ⟨t, h⟩)

theorem owed_gone (hv : s.queue.valid = false) (h : ∀ t, s.phase t ≠ .freeing) : s.owed = 0 := by
  refine if_neg ?_
  rintro (hv' | ⟨t, ht⟩)
  · rw [hv] at hv'
    cases hv'
  · exact h t ht

/-- Nothing that is counted changes. -/
structure Same (s s' : State) : Prop where
  valid : s'.queue.valid = s.queue.valid
  cbytes : s'.queue.qCbytes = s.queue.qCbytes
  qnum : s'.queue.qQnum = s.queue.qQnum
  messages : s'.queue.qMessages = s.queue.qMessages
  freed : s'.freed = s.freed
  freeing : ∀ t, s'.phase t = .freeing ↔ s.phase t = .freeing

theorem Same.owed (h : Same s s') : s'.owed = s.owed := by
  have hiff : (s'.queue.valid = true ∨ ∃ t, s'.phase t = .freeing) ↔
      (s.queue.valid = true ∨ ∃ t, s.phase t = .freeing) := by
    simp only [h.valid, h.freeing]
  unfold State.owed
  by_cases hs : s.queue.valid = true ∨ ∃ t, s.phase t = .freeing
  · rw [if_pos hs, if_pos (hiff.2 hs), h.cbytes, h.messages]
  · rw [if_neg hs, if_neg (mt hiff.1 hs)]

theorem Same.books (h : Same s s') (hb : Books s) : Books s' where
  cbytes := by rw [h.cbytes, h.messages, h.freed]; exact hb.cbytes
  qnum := by rw [h.qnum, h.messages, h.freed]; exact hb.qnum
  once t t' ht ht' := hb.once t t' ((h.freeing t).1 ht) ((h.freeing t').1 ht')

theorem freeing_update (h : s.phase t ≠ .freeing) (hp : p ≠ .freeing) (t' : ℕ) :
    Function.update s.phase t p t' = .freeing ↔ s.phase t' = .freeing := by
  by_cases he : t' = t
  · subst he
    rw [Function.update_self]
    exact iff_of_false hp h
  · rw [Function.update_of_ne he]

theorem Same.setPhase (h : s.phase t ≠ .freeing) (hp : p ≠ .freeing) : Same s (s.setPhase t p) :=
  ⟨rfl, rfl, rfl, rfl, rfl, freeing_update h hp⟩

theorem Same.ret (h : s.phase t ≠ .freeing) (r : ℤ) : Same s (s.ret t r) :=
  Same.setPhase h nofun

theorem Same.finish {fault : Bool} (h : s.phase t ≠ .freeing) : Same s (s.finish t a fault) := by
  unfold State.finish
  split
  · exact Same.ret h _
  · exact ⟨rfl, rfl, rfl, rfl, rfl, freeing_update h nofun⟩

@[simp] theorem ssWakeup_fields (q : MsgQueue) (kill : Bool) :
    (ssWakeup q kill).valid = q.valid ∧ (ssWakeup q kill).qCbytes = q.qCbytes ∧
      (ssWakeup q kill).qQnum = q.qQnum ∧ (ssWakeup q kill).qMessages = q.qMessages := by
  unfold ssWakeup
  split <;> exact ⟨rfl, rfl, rfl, rfl⟩

/-! ## One record -/

/-- Only the record of the namespace changes, by `d`. -/
def Charged (ns : ℕ) (d : ℤ × ℤ) (l l' : List MsgAcct) : Prop :=
  ∀ n, msgAcctGet l' n = if n = ns then
    (msgAcctGet l n).map fun a => { a with bytes := a.bytes + d.1, hdrs := a.hdrs + d.2 }
  else msgAcctGet l n

theorem Charged.none (l : List MsgAcct) : Charged ns 0 l l := by
  intro n
  split
  · simp
  · rfl

theorem Charged.trans (h : Charged ns d l l₁) (h' : Charged ns d' l₁ l') :
    Charged ns (d + d') l l' := by
  intro n
  rw [h' n]
  split
  next he =>
    rw [h n, if_pos he, Option.map_map]
    congr 1
    funext a
    ext
    · rfl
    · exact add_assoc ..
    · exact add_assoc ..
  next he => rw [h n, if_neg he]

theorem charged_add (l : List MsgAcct) (ns : ℕ) (b h : ℤ) :
    Charged ns (b, h) l (msgAcctAdd l ns b h) := by
  intro n
  induction l with
  | nil => simp [msgAcctAdd, msgAcctGet]
  | cons a l ih =>
    unfold msgAcctAdd
    split_ifs with ha hn hn
    · rw [if_pos hn] at ih
      rw [msgAcctGet, msgAcctGet, if_neg (hn ▸ ha), if_neg (hn ▸ ha), ih]
    · rw [if_neg hn] at ih
      rw [msgAcctGet, msgAcctGet, ih]
    · have he : a.ns = n := (not_not.1 ha).trans hn.symm
      simp [msgAcctGet, he]
    · have he : a.ns ≠ n := fun he => hn (he.symm.trans (not_not.1 ha))
      simp [msgAcctGet, he]

theorem charged_bytes (l : List MsgAcct) (ns : ℕ) (b : ℤ) :
    Charged ns (b, 0) l (msgAcctBytes l ns b) := charged_add l ns b 0

theorem charged_hdrs (l : List MsgAcct) (ns : ℕ) (h : ℤ) :
    Charged ns (0, h) l (msgAcctHdrs l ns h) := charged_add l ns 0 h

/-! ## Steps -/

/-- What a section does to a queue is what it does to the record. -/
structure Posts (ns : ℕ) (s s' : State) (l l' : List MsgAcct) : Prop where
  books : Books s'
  charged : Charged ns (s'.owed - s.owed) l l'

theorem Posts.same (hb : Books s) (h : Same s s') : Posts ns s s' l l := by
  refine ⟨h.books hb, ?_⟩
  rw [h.owed, sub_self]
  exact Charged.none l

theorem Posts.of_same (h : Same s s₁) (hp : Posts ns s₁ s' l l') : Posts ns s s' l l' :=
  ⟨hp.books, h.owed ▸ hp.charged⟩

/-- The end of a `msgsnd`. -/
theorem accept_posts (hi : Inv s) (hb : Books s) (hv : s.queue.valid = true)
    (ht : s.phase t ≠ .freeing) : Posts ns s (s.accept t msg) l (s.acctAccept l ns msg) := by
  have hfreed := (hi.history.alive hv).1
  have hnone := fun t' => (freeing_update ht (p := .user 0) nofun t').1
  unfold State.accept State.acctAccept
  rcases pipelinedSend msg s.msr s.queue.qReceivers with ⟨msr, stay, _ | r⟩
  · refine ⟨⟨?_, ?_, fun t₁ t₂ h₁ h₂ => hb.once t₁ t₂ (hnone t₁ h₁) (hnone t₂ h₂)⟩, ?_⟩
    · simp only [enqueueMsg, State.ret, State.setPhase, ← List.append_assoc, List.map_append,
        List.sum_append, List.map_cons, List.map_nil, List.sum_singleton]
      rw [hb.cbytes, List.map_append, List.sum_append]
    · simp only [enqueueMsg, State.ret, State.setPhase, ← List.append_assoc]
      simp [hb.qnum, Nat.add_assoc]
    · have hsum := (charged_bytes l ns msg.mTs).trans (charged_hdrs _ ns 1)
      rw [owed_valid hv, owed_valid (by exact hv)]
      convert hsum using 1
      simp [enqueueMsg]
  · exact Posts.same hb ⟨rfl, rfl, rfl, rfl, rfl, freeing_update ht nofun⟩

/-- A pass of the loop of `msgsnd`. -/
theorem sndPass_posts {nowait allowed : Bool} (hi : Inv s) (hb : Books s)
    (ht : s.phase t ≠ .freeing) : Posts ns s (s.sndPass t msg nowait allowed) l
      (s.acctSndPass l ns msg allowed) := by
  unfold State.sndPass State.acctSndPass
  split_ifs with _ hv hfits _
  · exact .same hb (.ret ht _)
  · exact .same hb (.ret ht _)
  · exact accept_posts hi hb (by simpa using hv) ht
  · exact .same hb (.ret ht _)
  · exact .same hb ⟨rfl, rfl, rfl, rfl, rfl, freeing_update ht nofun⟩

/-- A message leaves the queue. -/
theorem unlink_posts {fault : Bool} (hi : Inv s) (hb : Books s) (hv : s.queue.valid = true)
    (ht : s.phase t ≠ .freeing) (hm : msg ∈ s.queue.qMessages) :
    Posts ns s { s.deliver t a msg fault with
      queue := unlinkMsg s.queue msg, taken := s.taken ++ [(msg, t)] } l
      (msgAcctHdrs (msgAcctBytes l ns (-msg.mTs)) ns (-1)) := by
  have hfreed := (hi.history.alive hv).1
  have hnone := fun t' => (freeing_update ht (p := .user (doMsgFill msg a.bufsz fault)) nofun t').1
  have hsum := List.sum_map_erase MsgMsg.mTs hm
  have hlen := List.length_erase_of_mem hm
  have hpos := List.length_pos_of_mem hm
  have hbytes := hb.cbytes
  have hnum := hb.qnum
  rw [hfreed, List.nil_append] at hbytes hnum
  have hq := ssWakeup_fields { s.queue with
    qMessages := s.queue.qMessages.erase msg
    qQnum := s.queue.qQnum - 1
    qCbytes := s.queue.qCbytes - msg.mTs } false
  obtain ⟨hqv, hqb, hqn, hqm⟩ := hq
  refine ⟨⟨?_, ?_, fun t₁ t₂ h₁ h₂ => hb.once t₁ t₂ (hnone t₁ h₁) (hnone t₂ h₂)⟩, ?_⟩
  · simp only [State.deliver, State.ret, State.setPhase, unlinkMsg, hqb, hqm, hfreed,
      List.nil_append]
    omega
  · simp only [State.deliver, State.ret, State.setPhase, unlinkMsg, hqn, hqm, hfreed,
      List.nil_append]
    omega
  · have hcharge := (charged_bytes l ns (-msg.mTs)).trans (charged_hdrs _ ns (-1))
    rw [owed_valid hv, owed_valid (by exact hqv.trans hv)]
    convert hcharge using 1
    simp only [unlinkMsg, hqb, hqm, Prod.mk_sub_mk, Prod.mk_add_mk, Prod.mk.injEq]
    omega

/-- A pass of the loop of `msgrcv`. -/
theorem rcvPass_posts {fault : Bool} (hi : Inv s) (hb : Books s) (ht : s.phase t ≠ .freeing) :
    Posts ns s (s.rcvPass t a fault) l (s.acctRcvPass l ns a) := by
  unfold State.rcvPass State.acctRcvPass
  by_cases hv : s.queue.valid = true
  · rw [if_neg (by simp [hv]), if_neg (by simp [hv])]
    rcases hfind : findMsg s.queue.qMessages a.msgtyp a.mode with ⟨_ | m, ty⟩
    · dsimp only
      split
      · exact .same hb (.ret ht _)
      · exact .same hb ⟨rfl, rfl, rfl, rfl, rfl, freeing_update ht nofun⟩
    · dsimp only
      split_ifs
      · exact .same hb (.ret ht _)
      · exact .same hb (.ret ht _)
      · exact .same hb (.ret ht _)
      · exact unlink_posts hi hb hv ht (find_mem (by rw [hfind]))
  · rw [if_pos (by simp [hv]), if_pos (by simp [hv])]
    exact .same hb (.ret ht _)

/-- The queue is removed, and its messages are still to be freed. -/
theorem rmid_posts (hi : Inv s) (hb : Books s) (hv : s.queue.valid = true) {msr : ℕ → MsgReceiver} :
    Posts ns s { s.setPhase t .freeing with
      queue := { ssWakeup s.queue true with valid := false }, msr } l l := by
  have halive := (hi.history.alive hv).2
  have hself : ∀ t', Function.update s.phase t .freeing t' = .freeing → t' = t := by
    intro t' h
    by_contra hne
    rw [Function.update_of_ne hne] at h
    exact halive t' h
  refine ⟨⟨hb.cbytes, hb.qnum, fun t₁ t₂ h₁ h₂ => (hself t₁ h₁).trans (hself t₂ h₂).symm⟩, ?_⟩
  have ht : Function.update s.phase t .freeing t = .freeing :=
    Function.update_self t Phase.freeing s.phase
  rw [owed_valid hv, owed_freeing ht]
  exact (sub_self (_ : ℤ × ℤ)).symm ▸ Charged.none l

/-- `freeque` frees a message. -/
theorem free_posts {rest : List MsgMsg} (hb : Books s) (hp : s.phase t = .freeing)
    (hq : s.queue.qMessages = m :: rest) :
    Posts ns s { s with
      queue := { s.queue with qMessages := rest }, freed := s.freed ++ [m] } l
      (msgAcctHdrs l ns (-1)) := by
  refine ⟨⟨?_, ?_, hb.once⟩, ?_⟩
  · rw [hb.cbytes, hq, List.append_assoc, List.singleton_append]
  · rw [hb.qnum, hq, List.append_assoc, List.singleton_append]
  · have hcharge := charged_hdrs l ns (-1)
    rw [owed_freeing hp, owed_freeing (by exact hp), hq]
    convert hcharge using 1
    simp

/-- It is through: what is left on the record are the bytes. -/
theorem freed_posts (hi : Inv s) (hb : Books s) (hp : s.phase t = .freeing)
    (hq : s.queue.qMessages = []) :
    Posts ns s (s.ret t 0) l (msgAcctBytes l ns (-s.queue.qCbytes)) := by
  have hv : s.queue.valid = false := by
    by_contra hv
    exact (hi.history.alive (by simpa using hv)).2 t hp
  have hnone : ∀ t', (s.ret t 0).phase t' ≠ .freeing := by
    intro t' h
    by_cases he : t' = t
    · subst he
      simp [State.ret, State.setPhase] at h
    · simp only [State.ret, State.setPhase, Function.update_of_ne he] at h
      exact he (hb.once t' t h hp)
  refine ⟨⟨hb.cbytes, hb.qnum, fun t₁ _ h₁ => absurd h₁ (hnone t₁)⟩, ?_⟩
  rw [owed_freeing hp, owed_gone (s := s.ret t 0) hv hnone, hq]
  convert charged_bytes l ns (-s.queue.qCbytes) using 1
  simp

/-- **A section posts what it does** to the record of its namespace. -/
theorem section_posts (hi : Inv s) (hb : Books s) (h : step s act = some s') :
    Posts ns s s' l (s.acctSection l ns act) := by
  have hfree : ∀ t p, s.phase t = p → p ≠ .freeing → s.phase t ≠ .freeing :=
    fun t p hp hne => hp ▸ hne
  cases act with
  | msgsnd t mtype msgsz nowait msgCtlmax err =>
    cases hp : s.phase t with
    | user r =>
      have ht := hfree t _ hp (by simp)
      simp only [step, hp] at h
      split_ifs at h <;> obtain rfl := Option.some.inj h
      · exact .same hb (.ret ht _)
      · exact .same hb (.ret ht _)
      · exact .same hb (.ret ht _)
      · exact .same hb ⟨rfl, rfl, rfl, rfl, rfl, freeing_update ht (by simp)⟩
    | _ => simp [step, hp] at h
  | sndLock t allowed =>
    cases hp : s.phase t with
    | sending msg nowait =>
      simp only [step, hp, Option.some.injEq] at h
      subst h
      simp only [State.acctSection, hp]
      exact sndPass_posts hi hb (hfree t _ hp (by simp))
    | _ => simp [step, hp] at h
  | sndRelock t signal allowed =>
    cases hp : s.phase t with
    | sndAsleep msg nowait =>
      have ht := hfree t _ hp (by simp)
      -- without its entry among the senders
      have hsame : Same s { s with queue := { s.queue with
          qSenders := s.queue.qSenders.erase ⟨t, msg.mTs⟩ } } :=
        ⟨rfl, rfl, rfl, rfl, rfl, fun _ => Iff.rfl⟩
      simp only [step, hp] at h
      simp only [State.acctSection, hp]
      split_ifs at h ⊢ <;> obtain rfl := Option.some.inj h
      · exact .same hb (.ret ht _)
      · exact .of_same hsame (.same (hsame.books hb) (.ret (by exact ht) _))
      · exact .of_same hsame (sndPass_posts (hi.setQueue rfl rfl rfl) (hsame.books hb)
          (by exact ht))
    | _ => simp [step, hp] at h
  | msgrcv t bufsz msgtyp msgflg msgCtlmax err =>
    cases hp : s.phase t with
    | user r =>
      have ht := hfree t _ hp (by simp)
      simp only [step, hp] at h
      split_ifs at h <;> obtain rfl := Option.some.inj h
      · exact .same hb (.ret ht _)
      · exact .same hb (.ret ht _)
      · exact .same hb (.ret ht _)
      · exact .same hb (.setPhase ht (by simp))
    | _ => simp [step, hp] at h
  | rcvLock t allowed fault =>
    cases hp : s.phase t with
    | receiving a =>
      have ht := hfree t _ hp (by simp)
      simp only [step, hp] at h
      simp only [State.acctSection, hp]
      split_ifs at h ⊢ <;> obtain rfl := Option.some.inj h
      · exact .same hb (.ret ht _)
      · exact rcvPass_posts hi hb ht
    | _ => simp [step, hp] at h
  | rcvRead t fault =>
    cases hp : s.phase t with
    | rcvAsleep a =>
      have ht := hfree t _ hp (by simp)
      simp only [step, hp] at h
      split_ifs at h <;> obtain rfl := Option.some.inj h
      · exact .same hb (.finish ht)
      · exact .same hb (.setPhase ht (by simp))
    | _ => simp [step, hp] at h
  | rcvRelock t signal fault =>
    cases hp : s.phase t with
    | rcvWoken a =>
      have ht := hfree t _ hp (by simp)
      simp only [step, hp] at h
      split_ifs at h <;> obtain rfl := Option.some.inj h
      · exact .same hb (.finish ht)
      · exact .same hb ⟨rfl, rfl, rfl, rfl, rfl, freeing_update ht (by simp)⟩
      · exact .same hb ⟨rfl, rfl, rfl, rfl, rfl, freeing_update ht (by simp)⟩
    | _ => simp [step, hp] at h
  | ipcSet t qbytes err =>
    cases hp : s.phase t with
    | user r =>
      have ht := hfree t _ hp (by simp)
      simp only [step, hp] at h
      split_ifs at h <;> obtain rfl := Option.some.inj h
      · exact .same hb (.ret ht _)
      · exact .same hb ⟨rfl, rfl, rfl, rfl, rfl, freeing_update ht (by simp)⟩
    | _ => simp [step, hp] at h
  | ipcRmid t err =>
    cases hp : s.phase t with
    | user r =>
      simp only [step, hp] at h
      split_ifs at h with _ hv <;> obtain rfl := Option.some.inj h
      · exact .same hb (.ret (hfree t _ hp (by simp)) _)
      · exact rmid_posts hi hb (by simpa using hv)
    | _ => simp [step, hp] at h
  | freeMsg t =>
    cases hp : s.phase t with
    | freeing =>
      cases hq : s.queue.qMessages with
      | nil =>
        simp only [step, hp, hq, Option.some.injEq] at h
        subst h
        simp only [State.acctSection, hp, hq]
        exact freed_posts hi hb hp hq
      | cons m rest =>
        simp only [step, hp, hq, Option.some.injEq] at h
        subst h
        simp only [State.acctSection, hp, hq]
        exact free_posts hb hp hq
    | _ => simp [step, hp] at h

theorem init_books (qbytes : ℕ) : Books (State.init qbytes) :=
  ⟨rfl, rfl, fun _ _ h => nomatch h⟩

theorem owed_init (qbytes : ℕ) : (State.init qbytes).owed = 0 := owed_valid rfl

/-! ## All queues -/

variable {w w' : Spaces} {e : Event} {q : ℕ}

/-- What the queues of a namespace owe. -/
noncomputable def Spaces.owed (w : Spaces) (ns : ℕ) : ℤ × ℤ :=
  ((List.range w.made).map fun q => if w.ns q = ns then (w.queue q).owed else 0).sum

structure Spaces.Inv (w : Spaces) : Prop where
  queue : ∀ q, Msg.Inv (w.queue q) ∧ Books (w.queue q)
  record : ∀ ns a, msgAcctGet w.acctList ns = some a → (a.bytes, a.hdrs) = w.owed ns

namespace Spaces

/-- A section on a queue changes what its namespace owes. -/
theorem owed_call {l : List MsgAcct} (hq : q < w.made) (n : ℕ) :
    owed { w with acctList := l, queue := Function.update w.queue q s' } n =
      w.owed n + if w.ns q = n then s'.owed - (w.queue q).owed else 0 := by
  have h := ListSum.sum_change (f := fun q => if w.ns q = n then (w.queue q).owed else 0)
    (g := fun q' => if w.ns q' = n then (Function.update w.queue q s' q').owed else 0)
    List.nodup_range (List.mem_range.2 hq) fun q' _ hne => by rw [Function.update_of_ne hne]
  unfold owed
  rw [h]
  congr 1
  simp only [Function.update_self]
  split
  · rfl
  · exact sub_zero 0

theorem owed_newque {n qbytes : ℕ} (m : ℕ) :
    owed { w with
      made := w.made + 1
      ns := Function.update w.ns w.made n
      queue := Function.update w.queue w.made (State.init qbytes) } m = w.owed m := by
  unfold owed
  rw [List.range_succ, List.map_append, List.sum_append, List.map_singleton, List.sum_singleton]
  have hold : ∀ q ∈ List.range w.made, (if Function.update w.ns w.made n q = m then
      (Function.update w.queue w.made (State.init qbytes) q).owed else 0) =
      if w.ns q = m then (w.queue q).owed else 0 := by
    intro q hq
    have hne := (List.mem_range.1 hq).ne
    rw [Function.update_of_ne hne, Function.update_of_ne hne]
  have hlast : (Function.update w.queue w.made (State.init qbytes) w.made).owed = 0 := by
    rw [Function.update_self, owed_init]
  rw [List.map_congr_left hold]
  dsimp only
  rw [hlast, ite_self, add_zero]

theorem init_inv : Spaces.init.Inv :=
  ⟨fun _ => ⟨Msg.init_inv 0, init_books 0⟩, nofun⟩

/-- A new record is for a namespace without queues. -/
theorem msgInitNs_inv {n : ℕ} {nomem : Bool} (hi : w.Inv)
    (h : (msgAcctGet w.acctList n).isSome = true ∨ ∀ q ∈ List.range w.made, w.ns q ≠ n) :
    Inv { w with acctList := (msgAcctInit w.acctList n nomem).1 } := by
  refine ⟨hi.queue, fun ns a ha => ?_⟩
  unfold msgAcctInit at ha
  split_ifs at ha with hmem hsome
  · exact hi.record ns a ha
  · exact hi.record ns a ha
  · by_cases hn : n = ns
    · rw [msgAcctGet, if_pos hn] at ha
      obtain rfl := Option.some.inj ha
      have hzero : ∀ q ∈ List.range w.made, (if w.ns q = ns then (w.queue q).owed else 0) = 0 :=
        fun q hq => if_neg (hn ▸ h.resolve_left hsome q hq)
      unfold owed
      rw [List.map_congr_left hzero]
      simp
    · rw [msgAcctGet, if_neg hn] at ha
      exact hi.record ns a ha

/-- **Every step keeps the accounts.** -/
theorem step_inv (hi : w.Inv) (h : w.step e = some w') : w'.Inv := by
  cases e with
  | msgInitNs n nomem =>
    simp only [step] at h
    split_ifs at h with hn
    obtain rfl := Option.some.inj h
    exact msgInitNs_inv hi hn
  | newque n qbytes =>
    obtain rfl := Option.some.inj h
    refine ⟨fun q => ?_, fun ns a ha => ?_⟩
    · by_cases he : q = w.made
      · subst he
        simp only [Function.update_self]
        exact ⟨Msg.init_inv qbytes, init_books qbytes⟩
      · simp only [Function.update_of_ne he]
        exact hi.queue q
    · rw [owed_newque]
      exact hi.record ns a ha
  | call n q act =>
    simp only [step] at h
    split_ifs at h with hq
    obtain ⟨s', hs, rfl⟩ := Option.map_eq_some_iff.1 h
    obtain ⟨hqi, hqb⟩ := hi.queue q
    have hposts : Posts n (w.queue q) s' w.acctList ((w.queue q).acctSection w.acctList n act) :=
      section_posts hqi hqb hs
    refine ⟨fun q' => ?_, fun ns a ha => ?_⟩
    · by_cases he : q' = q
      · subst he
        simp only [Function.update_self]
        exact ⟨Msg.step_inv hqi hs, hposts.books⟩
      · simp only [Function.update_of_ne he]
        exact hi.queue q'
    · rw [owed_call hq.1, hq.2]
      rw [hposts.charged ns] at ha
      by_cases hn : ns = n
      · rw [if_pos hn] at ha
        obtain ⟨a₀, ha₀, rfl⟩ := Option.map_eq_some_iff.1 ha
        rw [if_pos hn.symm, ← hi.record ns a₀ ha₀]
        rfl
      · rw [if_neg hn] at ha
        rw [if_neg (Ne.symm hn), add_zero]
        exact hi.record ns a ha

theorem run_inv (h : Run step Spaces.init w) : w.Inv :=
  h.inv init_inv fun _ _ _ hi ha => step_inv hi ha

/-- While no queue is being removed, the queues in the table owe what is in
    them. -/
theorem owed_live (hi : w.Inv) {ns : ℕ} (hidle : w.Idle ns) :
    w.owed ns = (((w.live ns).map fun q => (q.qCbytes : ℤ)).sum,
      ((w.live ns).map fun q => (q.qQnum : ℤ)).sum) := by
  have hterm : ∀ q ∈ List.range w.made, (if w.ns q = ns then (w.queue q).owed else 0) =
      if decide (w.ns q = ns ∧ (w.queue q).queue.valid = true) then
        (((w.queue q).queue.qCbytes : ℤ), ((w.queue q).queue.qQnum : ℤ)) else 0 := by
    intro q hq
    obtain ⟨hqi, hqb⟩ := hi.queue q
    by_cases hn : w.ns q = ns
    · cases hv : (w.queue q).queue.valid with
      | true =>
        have hnum := hqb.qnum
        rw [(hqi.history.alive hv).1, List.nil_append] at hnum
        rw [if_pos hn, owed_valid hv, hnum]
        simp [hn]
      | false =>
        rw [if_pos hn, owed_gone hv (hidle q (List.mem_range.1 hq) hn)]
        simp
    · simp [hn]
  unfold owed live
  rw [List.map_congr_left hterm, ListSum.sum_filter, List.map_map, List.map_map]
  generalize (List.range w.made).filter _ = l
  induction l with
  | nil => rfl
  | cons q l ih =>
    simp only [List.map_cons, List.sum_cons, ih]
    rfl

end Spaces

/-- What the counters promise. -/
structure Accounted (w : Spaces) : Prop where
  /-- a queue counts the messages on it -/
  queue : ∀ ns, ∀ q ∈ w.live ns,
    q.qCbytes = (q.qMessages.map MsgMsg.mTs).sum ∧ q.qQnum = q.qMessages.length
  /-- a record counts the queues of its namespace -/
  record : ∀ ns a, msgAcctGet w.acctList ns = some a → w.Idle ns →
    a.bytes = ((w.live ns).map fun q => (q.qCbytes : ℤ)).sum ∧
      a.hdrs = ((w.live ns).map fun q => (q.qQnum : ℤ)).sum
  /-- and is back at zero when they are drained or removed -/
  drained : ∀ ns a, msgAcctGet w.acctList ns = some a → w.Idle ns →
    (∀ q ∈ w.live ns, q.qMessages = []) → a.bytes = 0 ∧ a.hdrs = 0

/-- **Message accounts.**  In every reachable state the counters of a queue are
    those of its messages, and those of a namespace none of whose queues is
    being removed are the sums over its queues. -/
theorem message_accounts (h : Run Spaces.step Spaces.init w) : Accounted w := by
  have hi := Spaces.run_inv h
  have hqueue : ∀ ns, ∀ q ∈ w.live ns,
      q.qCbytes = (q.qMessages.map MsgMsg.mTs).sum ∧ q.qQnum = q.qMessages.length := by
    intro ns q hq
    obtain ⟨i, hmem, rfl⟩ := List.mem_map.1 hq
    obtain ⟨hqi, hqb⟩ := hi.queue i
    have hv : (w.queue i).queue.valid = true := (of_decide_eq_true (List.mem_filter.1 hmem).2).2
    have hfreed := (hqi.history.alive hv).1
    have hbytes := hqb.cbytes
    have hnum := hqb.qnum
    rw [hfreed, List.nil_append] at hbytes hnum
    exact ⟨hbytes, hnum⟩
  have hrecord : ∀ ns a, msgAcctGet w.acctList ns = some a → w.Idle ns →
      a.bytes = ((w.live ns).map fun q => (q.qCbytes : ℤ)).sum ∧
        a.hdrs = ((w.live ns).map fun q => (q.qQnum : ℤ)).sum := by
    intro ns a ha hidle
    have howed := (hi.record ns a ha).trans (Spaces.owed_live hi hidle)
    exact Prod.mk.inj howed
  refine ⟨hqueue, hrecord, fun ns a ha hidle hempty => ?_⟩
  obtain ⟨hb, hh⟩ := hrecord ns a ha hidle
  rw [hb, hh]
  refine ⟨List.sum_eq_zero fun x hx => ?_, List.sum_eq_zero fun x hx => ?_⟩
  · obtain ⟨q, hq, rfl⟩ := List.mem_map.1 hx
    rw [(hqueue ns q hq).1, hempty q hq]
    rfl
  · obtain ⟨q, hq, rfl⟩ := List.mem_map.1 hx
    rw [(hqueue ns q hq).2, hempty q hq]
    rfl

/-- Two namespaces: in one a message is queued, one handed over and a queue
    removed with a message on it, in the other one is queued. -/
theorem message_accounts_two : ∃ w, Run Spaces.step Spaces.init w ∧
    (w.acctList = [⟨8, 4, 1⟩, ⟨7, 16, 1⟩] ∧ (w.live 7).length = 1) ∧ Accounted w := by
  obtain ⟨w, hrun, hw⟩ := exec_check Spaces.step Spaces.init
    [.msgInitNs 7 false, .newque 7 64, .newque 7 64, .msgInitNs 8 false, .newque 8 64,
      .call 7 0 (.msgrcv 1 16 5 ⟨false, false, false, false⟩ 8192 0),
      .call 7 0 (.rcvLock 1 true false), .call 7 0 (.msgsnd 2 5 8 false 8192 0),
      .call 7 0 (.sndLock 2 true), .call 7 0 (.msgsnd 2 5 16 false 8192 0),
      .call 7 0 (.sndLock 2 true), .call 7 1 (.msgsnd 3 1 10 false 8192 0),
      .call 7 1 (.sndLock 3 true), .call 7 1 (.ipcRmid 4 0), .call 7 1 (.freeMsg 4),
      .call 8 2 (.msgsnd 5 1 4 false 8192 0), .call 8 2 (.sndLock 5 true),
      .call 7 1 (.freeMsg 4)]
    (fun w => w.acctList = [⟨8, 4, 1⟩, ⟨7, 16, 1⟩] ∧ (w.live 7).length = 1) (by decide)
  exact ⟨w, hrun, of_decide_eq_true hw, message_accounts hrun⟩

end DroidLkm.Msg
