/-
  devtmpfs — nobody waits for ever.

  * `Timely`: the stop is not raised while the thread is between its test of it
    and its sleep, where `kthread_stop` raises no signal;
  * `not_stuck`: as long as somebody has not returned, somebody can go on;
  * `load`: what there is to do, which every step but a new call makes less;
  * `comes_to_rest`: so the callers return and the release ends;
  * `stop_lost`: a run in which the stop is raised there.
-/
import DroidLkm.Devtmpfs.Service
import Mathlib.Algebra.BigOperators.Group.Finset.Basic

namespace DroidLkm.Devtmpfs

open Machine

universe u v
variable {T : Type u} {J : Type v}

namespace State

variable {handle : T → J → T × ℤ} {notify : Bool} {s s' : State T J} {t n : ℕ} {r r' : Req J}
  {job : J} {qs qs' bs bs' : List ℕ} {a : Act J} {tree₀ : T}

/-! ## The stop -/

/-- The thread has not tested for the stop, or is about to sleep, or does. -/
def Worker.open_ : Worker → Bool
  | .top | .dozing | .asleep | .gone => true
  | _ => false

/-- Where `kthread_stop` raises no signal, it does not come between the test for it
    and the sleep. -/
def Timely (notify : Bool) (s : State T J) (a : Act J) : Prop :=
  a = .release → s.release = .flagged → notify = true ∨ Worker.open_ s.worker = true

/-- What the release has to heed. -/
def Orderly (notify : Bool) (s : State T J) (a : Act J) : Prop := Settled s a ∧ Timely notify s a

/-- Once it has been woken to stop, the thread does not sleep. -/
def Awake (notify : Bool) (s : State T J) : Prop :=
  s.release = .joining → s.worker ≠ .asleep ∧
    (notify = false → s.worker = .top ∨ s.worker = .gone)

theorem Awake.same (h : s.Awake notify) (hr : s'.release = s.release)
    (hw : s'.worker = s.worker ∨ s'.worker = s.worker.woken) : s'.Awake notify := by
  intro hj
  rw [hr] at hj
  obtain ⟨h1, h2⟩ := h hj
  rcases hw with hw | hw
  · rw [hw]
    exact ⟨h1, h2⟩
  · rw [hw]
    refine ⟨fun ha => woken_awake s.worker (Or.inr ha), fun hn => ?_⟩
    rcases h2 hn with hw' | hw' <;> simp [hw', Worker.woken]

theorem complete_same (s : State T J) (t : ℕ) :
    (s.complete t).release = s.release ∧ (s.complete t).worker = s.worker ∧
      (s.complete t).stop = s.stop ∧ (s.complete t).requests = s.requests := by
  unfold State.complete
  split <;> exact ⟨rfl, rfl, rfl, rfl⟩

theorem Awake.workStep (h : s.Awake notify) (hp : s.Phases)
    (hs : s.workStep handle notify = some s') : s'.Awake notify := by
  have hstop : s.release = .joining → s.stop = true := fun hj => hp.stop.2 (by simp [hj])
  unfold State.workStep at hs
  split at hs
  next hw =>
    cases hs
    intro hj
    rw [hstop hj]
    simp
  next hw =>
    split at hs <;> cases hs
    all_goals
      intro hj
      refine ⟨by simp, fun hn => ?_⟩
      have := (h hj).2 hn
      simp [hw] at this
  next hw =>
    cases hs
    intro hj
    refine ⟨by simp, fun hn => ?_⟩
    have := (h hj).2 hn
    simp [hw] at this
  next t hw =>
    cases hs
    unfold State.serve
    split
    · exact h.same rfl (Or.inl rfl)
    · intro hj
      refine ⟨by simp, fun hn => ?_⟩
      have := (h hj).2 hn
      simp [hw] at this
  next t next hw =>
    cases hs
    intro hj
    refine ⟨by simp, fun hn => ?_⟩
    have := (h ((complete_same s t).1 ▸ hj)).2 hn
    simp [hw] at this
  next hw =>
    cases hs
    intro hj
    have hs := hstop hj
    cases hn : notify with
    | true => simp [hs]
    | false =>
      have := (h hj).2 hn
      simp [hw] at this
  · cases hs
  · cases hs

theorem Awake.releaseStep (h : s.Awake notify) (hc : Timely notify s (.release : Act J))
    (hs : s.releaseStep = some s') : s'.Awake notify := by
  unfold State.releaseStep at hs
  split at hs
  · cases hs
    intro hj
    cases hj
  · cases hs
    intro hj
    cases hj
  · cases hs
    intro hj
    cases hj
  next hr =>
    cases hs
    intro _
    refine ⟨fun ha => woken_awake s.worker (Or.inr ha), fun hn => ?_⟩
    have hopen := (hc rfl hr).resolve_left (by simp [hn])
    change s.worker.woken = .top ∨ s.worker.woken = .gone
    cases hw : s.worker <;> simp [hw, Worker.open_, Worker.woken] at hopen ⊢
  · split at hs <;> cases hs
    intro hj
    cases hj
  · cases hs
    intro hj
    cases hj
  · cases hs
    intro hj
    cases hj
  next hr =>
    split at hs <;> cases hs
    · exact h.same rfl (Or.inl rfl)
    · intro hj
      cases hj
  · cases hs
    intro hj
    cases hj
  · cases hs

theorem Awake.step (h : s.Awake notify) (hp : s.Phases) (hc : Timely notify s a)
    (hs : step handle notify s a = some s') : s'.Awake notify := by
  obtain ⟨-, hs⟩ := step_some hs
  cases a with
  | enter t job =>
    obtain ⟨-, -, rfl⟩ := enter_some hs
    exact h.same rfl (Or.inl rfl)
  | push t =>
    obtain ⟨r, -, -, ⟨-, rfl⟩ | ⟨-, rfl⟩⟩ := push_some hs <;> exact h.same rfl (Or.inl rfl)
  | wake t =>
    obtain ⟨r, -, -, ⟨-, rfl⟩ | ⟨-, rfl⟩⟩ := wake_some hs
    · exact h.same rfl (Or.inl rfl)
    · exact h.same rfl (Or.inr rfl)
  | ret t =>
    obtain ⟨r, -, -, -, rfl⟩ := ret_some hs
    exact h.same rfl (Or.inl rfl)
  | work => exact h.workStep hp hs
  | release => exact h.releaseStep hc hs

theorem orderly_inv (h : RunIf (step handle notify) (Orderly notify) (init tree₀) s) :
    s.Inv handle tree₀ ∧ s.fault = none ∧ s.Awake notify := by
  have hawake : s.Inv handle tree₀ ∧ s.Awake notify := by
    refine h.inv (I := fun x => x.Inv handle tree₀ ∧ x.Awake notify) ⟨init_inv tree₀, nofun⟩ ?_
    rintro x a y ⟨hi, ha⟩ hc hs
    exact ⟨step_inv hi hs, ha.step hi.phases hc.2 hs⟩
  have hrun : RunIf (step handle notify) Settled (init tree₀) s :=
    Relation.ReflTransGen.mono (fun _ _ ⟨a, hc, hs⟩ => ⟨a, hc.1, hs⟩) _ _ h
  exact ⟨hawake.1, (settled_inv hrun).2.2, hawake.2⟩

/-! ## Somebody can go on -/

/-- Not a new call, nor a new release. -/
def Inner (s : State T J) : Act J → Prop
  | .enter _ _ => False
  | .release => s.release ≠ .idle
  | _ => True

theorem busy_worker (hf : s.fault = none) (h1 : s.worker ≠ .asleep) (h2 : s.worker ≠ .gone) :
    ∃ s', step handle notify s .work = some s' := by
  simp only [step, hf, act, State.workStep]
  cases hw : s.worker with
  | locking => cases hq : s.requests <;> simp
  | serving r => cases r <;> simp
  | asleep => exact absurd hw h1
  | gone => exact absurd hw h2
  | _ => simp

theorem busy_release (hf : s.fault = none) (h1 : s.release ≠ .idle) (h2 : s.release ≠ .finished)
    (h3 : s.release = .joining → s.worker = .gone) :
    ∃ s', step handle notify s .release = some s' := by
  simp only [step, hf, act, State.releaseStep]
  cases hr : s.release with
  | idle => exact absurd hr h1
  | finished => exact absurd hr h2
  | joining => simp [h3 hr]
  | draining r =>
    cases r with
    | none => simp
    | some r => cases hq : s.reqs r <;> simp [hq]
  | _ => simp

/-- A release under way can go on, or the thread. -/
theorem release_goes_on (hf : s.fault = none) (ha : s.Awake notify)
    (h1 : s.release ≠ .idle) (h2 : s.release ≠ .finished) :
    ∃ a s', Inner s a ∧ step handle notify s a = some s' := by
  by_cases hj : s.release = .joining
  · by_cases hw : s.worker = .gone
    · obtain ⟨s', hs⟩ := busy_release hf h1 h2 fun _ => hw
      exact ⟨.release, s', h1, hs⟩
    · obtain ⟨s', hs⟩ := busy_worker hf (ha hj).1 hw
      exact ⟨.work, s', trivial, hs⟩
  · obtain ⟨s', hs⟩ := busy_release hf h1 h2 fun hj' => absurd hj' hj
    exact ⟨.release, s', h1, hs⟩

theorem call_goes_on (hf : s.fault = none) (hr : s.reqs t = some r)
    (hgo : r.stage ≠ .waiting ∨ r.done ≠ 0) :
    ∃ a s', Inner s a ∧ step handle notify s a = some s' := by
  cases hstage : r.stage with
  | filled =>
    have hs : ∃ s', step handle notify s (.push t) = some s' := by
      cases ht : s.thread <;> simp [step, hf, act, State.push, hr, hstage, ht]
    obtain ⟨s', hs⟩ := hs
    exact ⟨.push t, s', trivial, hs⟩
  | queued =>
    have hs : ∃ s', step handle notify s (.wake t) = some s' := by
      cases ht : s.thread <;> simp [step, hf, act, State.wake, hr, hstage, ht]
    obtain ⟨s', hs⟩ := hs
    exact ⟨.wake t, s', trivial, hs⟩
  | waiting =>
    have hdone : r.done ≠ 0 := hgo.resolve_left (by simp [hstage])
    have hs : ∃ s', step handle notify s (.ret t) = some s' := by
      simp [step, hf, act, State.ret, hr, hstage, hdone]
    obtain ⟨s', hs⟩ := hs
    exact ⟨.ret t, s', trivial, hs⟩

/-- When the release is over nothing is pending. -/
theorem finished_clear (hp : s.Phases) (hq : s.Queues qs bs) (hr : s.release = .finished) :
    qs ++ bs = [] ∧ s.inHand = none := by
  have hstop : s.stop = true := hp.stop.2 (by simp [hr])
  have hw : s.worker = .gone := hp.joined hstop (by simp [hr]) (by simp [hr])
  have hnone := hp.emptied hstop (by simp [hr]) (by simp [hr]) (by simp [hr])
  have h1 := hq.queue
  have h2 := hq.batch
  rw [hnone] at h1
  rw [inLoop, hr, hw] at h2
  refine ⟨by rw [h1.eq_nil, Linked.eq_nil h2, List.append_nil], ?_⟩
  rw [inHand, hr, hw]
  rfl

/-- **As long as somebody has not returned, somebody can go on.** -/
theorem not_stuck (hi : s.Inv handle tree₀) (hf : s.fault = none) (ha : s.Awake notify)
    (hbusy : (∃ t r, s.reqs t = some r) ∨ s.release ≠ .idle ∧ s.release ≠ .finished) :
    ∃ a s', Inner s a ∧ step handle notify s a = some s' := by
  by_cases hrel : s.release ≠ .idle ∧ s.release ≠ .finished
  · exact release_goes_on hf ha hrel.1 hrel.2
  obtain ⟨t, r, hr⟩ := hbusy.resolve_right hrel
  by_cases hgo : r.stage ≠ .waiting ∨ r.done ≠ 0
  · exact call_goes_on hf hr hgo
  -- it waits for an answer
  obtain ⟨hstage, hdone⟩ : r.stage = .waiting ∧ r.done = 0 := by simpa using hgo
  obtain ⟨qs, bs, hq⟩ := hi.queues
  have hpending : t ∈ qs ++ bs ∨ s.inHand = some t := by
    cases herr : r.err with
    | none => exact Or.inl ((hq.pending t).2 ⟨r, hr, by simp [hstage], herr⟩)
    | some e => exact Or.inr ((hq.hand t).2 ⟨r, hr, by simp [herr], hdone⟩)
  have hidle : s.release = .idle := by
    by_contra hno
    have hfin : s.release = .finished := by
      by_contra hfin
      exact hrel ⟨hno, hfin⟩
    obtain ⟨hnil, hhand⟩ := finished_clear hi.phases hq hfin
    rcases hpending with hmem | hmem
    · rw [hnil] at hmem
      cases hmem
    · rw [hhand] at hmem
      cases hmem
  have hgone : s.worker ≠ .gone := fun hw =>
    (hi.phases.stop.1 (hi.phases.gone hw)).1 hidle
  by_cases hw : s.worker = .asleep
  · have hbs : bs = [] := by
      have hb := hq.batch
      rw [inLoop, hidle, hw] at hb
      exact Linked.eq_nil hb
    have hno : s.inHand = none := by
      rw [inHand, hidle, hw]
      rfl
    have hqs : qs ≠ [] := by
      rintro rfl
      rw [hbs, hno] at hpending
      rcases hpending with hmem | hmem <;> cases hmem
    obtain ⟨x, -, q, hx, hqueued⟩ := hq.heard (Or.inr hw) hqs
    exact call_goes_on hf hx (Or.inl (by simp [hqueued]))
  · obtain ⟨s', hs⟩ := busy_worker hf hw hgone
    exact ⟨.work, s', trivial, hs⟩

/-! ## What there is to do -/

/-- What a call has before it. -/
def Stage.load : Stage → ℕ
  | .filled => 40
  | .queued => 20
  | .waiting => 10

def reqLoad : Option (Req J) → ℕ
  | none => 0
  | some r => Stage.load r.stage + if r.done = 0 then 6 else 0

def workerLoad (stop : Bool) : Worker → ℕ
  | .top => if stop then 1 else 4
  | .locking => 3
  | .serving none => 4
  | .serving (some _) => 6
  | .completing _ _ => 5
  | .dozing => 2
  | .asleep | .gone => 0

def releaseLoad : Release → ℕ
  | .idle => 10
  | .unhooked => 9
  | .cleared => 8
  | .flagged => 7
  | .joining => 3
  | .joined => 2
  | .draining none => 1
  | .draining (some _) => 4
  | .failing _ _ => 3
  | .finished => 0

/-- What there is to do, if `q` requests are on the list and the tasks from `n` on
    have none. -/
def load (s : State T J) (q n : ℕ) : ℕ :=
  ((Finset.range n).sum fun t => reqLoad (s.reqs t)) + 8 * q + workerLoad s.stop s.worker +
    releaseLoad s.release + if s.fault = none then 1 else 0

/-- The tasks from `n` on have no request. -/
def Below (s : State T J) (n : ℕ) : Prop := ∀ t, n ≤ t → s.reqs t = none

theorem Below.lt (h : s.Below n) (hr : s.reqs t = some r) : t < n := by
  by_contra hge
  rw [h t (Nat.le_of_not_lt hge)] at hr
  cases hr

theorem Below.set {o : Option (Req J)} (h : s.Below n) (ht : t < n)
    (hs : s'.reqs = Function.update s.reqs t o) : s'.Below n := by
  intro x hx
  rw [hs, Function.update_of_ne (by omega)]
  exact h x hx

/-- One request changes. -/
theorem sum_set {o : Option (Req J)} (ht : t < n) (hs : s'.reqs = Function.update s.reqs t o) :
    ((Finset.range n).sum fun x => reqLoad (s'.reqs x)) + reqLoad (s.reqs t) =
      ((Finset.range n).sum fun x => reqLoad (s.reqs x)) + reqLoad o := by
  have hmem : t ∈ Finset.range n := Finset.mem_range.2 ht
  rw [← Finset.sum_erase_add _ _ hmem, ← Finset.sum_erase_add (Finset.range n)
    (fun x => reqLoad (s.reqs x)) hmem]
  have hrest : ((Finset.range n).erase t).sum (fun x => reqLoad (s'.reqs x)) =
      ((Finset.range n).erase t).sum fun x => reqLoad (s.reqs x) := by
    refine Finset.sum_congr rfl fun x hx => ?_
    rw [hs, Function.update_of_ne (Finset.ne_of_mem_erase hx)]
  rw [hrest, hs, Function.update_self]
  omega

/-- A step makes less what there is to do. -/
def Less (s s' : State T J) (q n : ℕ) (qs' : List ℕ) : Prop :=
  s'.Below n ∧ s'.load qs'.length n < s.load q n

theorem less_same {q : ℕ} (hb : s.Below n) (hr : s'.reqs = s.reqs)
    (hlt : 8 * qs'.length + workerLoad s'.stop s'.worker + releaseLoad s'.release +
        (if s'.fault = none then 1 else 0) <
      8 * q + workerLoad s.stop s.worker + releaseLoad s.release +
        (if s.fault = none then 1 else 0)) : Less s s' q n qs' := by
  refine ⟨fun t ht => by rw [hr]; exact hb t ht, ?_⟩
  rw [load, load, hr]
  omega

theorem less_set {q : ℕ} {o : Option (Req J)} (hb : s.Below n) (hrt : s.reqs t = some r)
    (hs : s'.reqs = Function.update s.reqs t o)
    (hlt : reqLoad o + 8 * qs'.length + workerLoad s'.stop s'.worker + releaseLoad s'.release +
        (if s'.fault = none then 1 else 0) <
      reqLoad (some r) + 8 * q + workerLoad s.stop s.worker + releaseLoad s.release +
        (if s.fault = none then 1 else 0)) : Less s s' q n qs' := by
  have ht := hb.lt hrt
  have hsum := sum_set ht hs
  rw [hrt] at hsum
  refine ⟨hb.set ht hs, ?_⟩
  rw [load, load]
  omega

theorem workerLoad_woken (stop : Bool) (w : Worker) :
    workerLoad stop w.woken ≤ workerLoad stop w + 4 ∧
      (stop = true → workerLoad stop w.woken ≤ workerLoad stop w + 1) := by
  cases w <;> cases stop <;> simp [Worker.woken, workerLoad]

theorem workerLoad_stop (stop : Bool) (w : Worker) : workerLoad true w ≤ workerLoad stop w := by
  cases w with
  | top => cases stop <;> simp [workerLoad]
  | serving r => cases r <;> exact Nat.le_refl _
  | _ => exact Nat.le_refl _

/-- A request that is completed has less before it. -/
theorem reqLoad_complete (hdone : r.done = 0) (r' : Req J) (hs : r'.stage = r.stage)
    (hd : r'.done = r.done + 1) : reqLoad (some r') + 6 = reqLoad (some r) := by
  simp [reqLoad, hs, hd, hdone]

theorem less_work (hp : s.Phases) (hq : s.Queues qs bs) (hb : s.Below n)
    (hs : s.workStep handle notify = some s') :
    Less s s' qs.length n (if s.worker = .locking then [] else qs) := by
  have hne : s.worker ≠ .gone := by
    intro hw
    rw [State.workStep, hw] at hs
    cases hs
  unfold State.workStep at hs
  split at hs
  next hw =>
    cases hs
    refine less_same hb rfl ?_
    rw [hw]
    cases s.stop <;> simp [workerLoad]
  next hw =>
    rw [if_pos hw]
    split at hs
    next r hr =>
      cases hs
      refine less_same hb rfl ?_
      have hpos : 0 < qs.length := by
        refine List.length_pos_iff.2 ?_
        rw [hq.queue.ne_nil_iff, hr]
        simp
      simp only [hw, workerLoad, List.length_nil]
      omega
    next hr =>
      cases hs
      refine less_same hb rfl ?_
      simp only [hw, workerLoad, List.length_nil]
      omega
  next hw =>
    cases hs
    refine less_same hb rfl ?_
    simp [hw, workerLoad]
  next t hw =>
    cases hs
    have hl : s.inLoop = some t := by
      rw [inLoop, (hp.loops hne _).1, hw]
      rfl
    obtain ⟨r, hr, herr⟩ := hq.unanswered hl
    unfold State.serve
    rw [hr]
    refine less_set hb hr rfl ?_
    simp [hw, workerLoad, reqLoad, setReq]
  next t next hw =>
    cases hs
    have hh : s.inHand = some t := by
      rw [inHand, (hp.loops hne _).2, hw]
      rfl
    obtain ⟨r, hr, -, hdone⟩ := (hq.hand t).1 hh
    rw [complete_rest s hr]
    refine less_set hb hr rfl ?_
    have hless := reqLoad_complete hdone { r with done := r.done + 1 } rfl rfl
    have hnext : workerLoad s.stop (.serving next) ≤ 6 := by
      cases next <;> simp [workerLoad]
    rw [if_neg (by simp [hw])]
    simp only [setReq, hw, workerLoad] at hnext ⊢
    omega
  next hw =>
    cases hs
    refine less_same hb rfl ?_
    rw [if_neg (by simp [hw])]
    simp only [hw]
    cases s.stop <;> cases notify <;> simp [workerLoad]
  · cases hs
  · cases hs

theorem less_release (hp : s.Phases) (hq : s.Queues qs bs) (hb : s.Below n)
    (hs : s.releaseStep = some s') :
    Less s s' qs.length n (if s.release = .joined then [] else qs) := by
  unfold State.releaseStep at hs
  split at hs
  next hr =>
    cases hs
    refine less_same hb rfl ?_
    simp [hr, releaseLoad]
  next hr =>
    cases hs
    refine less_same hb rfl ?_
    simp [hr, releaseLoad]
  next hr =>
    cases hs
    refine less_same hb rfl ?_
    have hle := workerLoad_stop s.stop s.worker
    simp only [hr, releaseLoad, reduceCtorEq, if_false]
    omega
  next hr =>
    cases hs
    refine less_same hb rfl ?_
    have hstop : s.stop = true := hp.stop.2 (by simp [hr])
    have hle := (workerLoad_woken s.stop s.worker).2 hstop
    simp only [hr, releaseLoad, reduceCtorEq, if_false, wakeUp]
    omega
  next hr =>
    split at hs <;> cases hs
    refine less_same hb rfl ?_
    simp [hr, releaseLoad]
  next hr =>
    cases hs
    refine less_same hb rfl ?_
    rw [if_pos hr]
    cases hreq : s.requests with
    | none =>
      simp only [hr, releaseLoad, List.length_nil]
      omega
    | some r =>
      have hpos : 0 < qs.length := by
        refine List.length_pos_iff.2 ?_
        rw [hq.queue.ne_nil_iff, hreq]
        simp
      simp only [hr, releaseLoad, List.length_nil]
      omega
  next hr =>
    cases hs
    refine less_same hb rfl ?_
    simp [hr, releaseLoad]
  next t hr =>
    obtain ⟨r, hrt, herr⟩ := hq.unanswered (show s.inLoop = some t by
      rw [inLoop, hr]
      rfl)
    rw [hrt] at hs
    cases hs
    refine less_set hb hrt rfl ?_
    simp [hr, releaseLoad, reqLoad, setReq]
  next t next hr =>
    cases hs
    obtain ⟨r, hrt, -, hdone⟩ := (hq.hand t).1 (by
      rw [inHand, hr]
      rfl)
    rw [complete_rest s hrt]
    refine less_set hb hrt rfl ?_
    have hless := reqLoad_complete hdone { r with done := r.done + 1 } rfl rfl
    have hnext : releaseLoad (.draining next) ≤ 4 := by
      cases next <;> simp [releaseLoad]
    rw [if_neg (by simp [hr])]
    simp only [setReq, hr, releaseLoad] at hnext ⊢
    omega
  · cases hs

/-- **Every step but a new call makes less what there is to do.** -/
theorem step_less (hp : s.Phases) (hq : s.Queues qs bs) (hb : s.Below n) (hin : Inner s a)
    (hs : step handle notify s a = some s') :
    ∃ qs' bs', s'.Queues qs' bs' ∧ Less s s' qs.length n qs' := by
  obtain ⟨hf, hs⟩ := step_some hs
  cases a with
  | enter t job => exact hin.elim
  | push t =>
    refine ⟨_, bs, hq.push hs, ?_⟩
    obtain ⟨r, hr, hstage, ⟨ht, rfl⟩ | ⟨ht, rfl⟩⟩ := push_some hs
    · refine less_set hb hr rfl ?_
      simp only [ht, setReq, reqLoad, hstage, Stage.load, hf, if_true, Bool.false_eq_true,
        if_false]
      omega
    · refine less_set hb hr rfl ?_
      simp only [ht, setReq, reqLoad, hstage, Stage.load, hf, if_true, List.length_cons]
      omega
  | wake t =>
    refine ⟨qs, bs, hq.wake hs, ?_⟩
    obtain ⟨r, hr, hstage, ⟨-, rfl⟩ | ⟨-, rfl⟩⟩ := wake_some hs
    · refine less_same hb rfl ?_
      simp [hf]
    · refine less_set hb hr rfl ?_
      have hle := (workerLoad_woken s.stop s.worker).1
      simp only [wakeUp, setReq, reqLoad, hstage, Stage.load, hf, if_true]
      omega
  | ret t =>
    refine ⟨qs, bs, hq.ret hs, ?_⟩
    obtain ⟨r, hr, hstage, -, rfl⟩ := ret_some hs
    refine less_set hb hr rfl ?_
    simp only [setReq, reqLoad, hstage, Stage.load, hf, if_true]
    omega
  | work =>
    obtain ⟨bs', hq', -⟩ := hq.workStep hp hs
    exact ⟨_, bs', hq', less_work hp hq hb hs⟩
  | release =>
    obtain ⟨bs', hq', -⟩ := hq.releaseStep hp hs
    exact ⟨_, bs', hq', less_release hp hq hb hs⟩

/-! ## Every run -/

instance (s : State T J) (a : Act J) : Decidable (Inner s a) :=
  match a with
  | .enter _ _ => isFalse id
  | .release => inferInstanceAs (Decidable (s.release ≠ .idle))
  | .push _ | .wake _ | .ret _ | .work => isTrue trivial

/-- A step that is neither a new call nor a new release. -/
def inner (handle : T → J → T × ℤ) (notify : Bool) (s : State T J) (a : Act J) :
    Option (State T J) :=
  if Inner s a then step handle notify s a else none

theorem step_below (hi : s.Inv handle tree₀) (hb : s.Below n)
    (hs : step handle notify s a = some s') : ∃ n', s'.Below n' := by
  obtain ⟨qs, bs, hq⟩ := hi.queues
  by_cases hin : Inner s a
  · obtain ⟨-, -, -, hb', -⟩ := step_less hi.phases hq hb hin hs
    exact ⟨n, hb'⟩
  obtain ⟨-, hs⟩ := step_some hs
  cases a with
  | enter t job =>
    obtain ⟨-, -, rfl⟩ := enter_some hs
    refine ⟨max n (t + 1), fun x hx => ?_⟩
    dsimp only [setReq]
    rw [Function.update_of_ne (by omega)]
    exact hb x (by omega)
  | release =>
    have hr : s.release = .idle := not_not.1 hin
    simp only [act, State.releaseStep, hr] at hs
    cases hs
    exact ⟨n, hb⟩
  | _ => exact absurd trivial hin

theorem run_below (h : Run (step handle notify) (init tree₀) s) : ∃ n, s.Below n := by
  have hboth : s.Inv handle tree₀ ∧ ∃ n, s.Below n := by
    refine h.inv (I := fun x => x.Inv handle tree₀ ∧ ∃ n, x.Below n)
      ⟨init_inv tree₀, 0, fun _ _ => rfl⟩ ?_
    rintro x a y ⟨hi, n, hb⟩ hs
    exact ⟨step_inv hi hs, step_below hi hb hs⟩
  exact hboth.2

theorem inner_bounded (hi : s.Inv handle tree₀) (hq : s.Queues qs bs) (hb : s.Below n)
    {as : List (Act J)} (hs : exec (inner handle notify) s as = some s') :
    as.length ≤ s.load qs.length n := by
  induction as generalizing s qs bs with
  | nil => exact Nat.zero_le _
  | cons a as ih =>
    obtain ⟨s₁, h₁, hs⟩ := Option.bind_eq_some_iff.1 hs
    unfold inner at h₁
    split at h₁
    next hin =>
      obtain ⟨qs', bs', hq', hb', hlt⟩ := step_less hi.phases hq hb hin h₁
      exact Nat.lt_of_le_of_lt (ih (step_inv hi h₁) hq' hb' hs) hlt
    · cases h₁

/-- **Nobody waits for ever.**  Without new calls only so many steps are left, in
    whatever order they are taken; and when none can be taken, every call has returned
    and the release has ended, if it has begun.  Once the release is over, a call that
    still waits has its answer. -/
theorem comes_to_rest (h : RunIf (step handle notify) (Orderly notify) (init tree₀) s) :
    (∃ N, ∀ as s', exec (inner handle notify) s as = some s' → as.length ≤ N) ∧
    ((∀ a, inner handle notify s a = none) →
      (∀ t, s.reqs t = none) ∧ (s.release = .idle ∨ s.release = .finished)) ∧
    (s.release = .finished → ∀ t r, s.reqs t = some r → r.stage = .filled ∨ r.done = 1) := by
  obtain ⟨hi, hf, ha⟩ := orderly_inv h
  obtain ⟨qs, bs, hq⟩ := hi.queues
  obtain ⟨n, hb⟩ := run_below h.run
  refine ⟨⟨_, fun as s' hs => inner_bounded hi hq hb hs⟩, fun hnone => ?_, fun hfin t r hr => ?_⟩
  · by_contra hno
    have hbusy : (∃ t r, s.reqs t = some r) ∨ s.release ≠ .idle ∧ s.release ≠ .finished := by
      by_contra hquiet
      rw [not_or, not_and_not_right] at hquiet
      refine hno ⟨fun t => ?_, ?_⟩
      · exact Option.eq_none_iff_forall_not_mem.2 fun r hr => hquiet.1 ⟨t, r, hr⟩
      · by_cases hidle : s.release = .idle
        · exact Or.inl hidle
        · exact Or.inr (hquiet.2 hidle)
    obtain ⟨a, s', hin, hs⟩ := not_stuck hi hf ha hbusy
    have hnone := hnone a
    rw [inner, if_pos hin, hs] at hnone
    cases hnone
  · obtain ⟨hnil, hhand⟩ := finished_clear hi.phases hq hfin
    by_cases hstage : r.stage = .filled
    · exact Or.inl hstage
    refine Or.inr (Nat.le_antisymm (hq.once t r hr) (Nat.one_le_iff_ne_zero.2 fun hdone => ?_))
    cases herr : r.err with
    | none =>
      have hmem := (hq.pending t).2 ⟨r, hr, hstage, herr⟩
      rw [hnil] at hmem
      cases hmem
    | some e =>
      have hmem := (hq.hand t).2 ⟨r, hr, by simp [herr], hdone⟩
      rw [hhand] at hmem
      cases hmem

/-- A call has been served, another waits, and the release begins. -/
theorem comes_to_rest_two : ∃ s : State (List ℕ) ℕ,
    RunIf (step (fun l n => (n :: l, 0)) false) (Orderly false) (init []) s ∧
      s.tree = [5] ∧ s.release = .unhooked ∧
      ∃ N, ∀ as s', exec (inner (fun l n => (n :: l, 0)) false) s as = some s' →
        as.length ≤ N := by
  obtain ⟨s, hrun, hs⟩ := execIf_check (C := Orderly false)
    (step (fun l n => (n :: l, 0)) false)
    (fun s a => match a with
      | .release => s.release == .idle
      | _ => true)
    (by
      intro s a hc
      refine ⟨fun ha hr => ?_, fun ha hr => ?_⟩ <;> subst ha <;> simp [hr] at hc)
    (init [] : State (List ℕ) ℕ)
    [.enter 3 5, .push 3, .wake 3, .work, .work, .work, .work, .ret 3, .enter 4 6, .push 4,
      .release]
    (fun s => s.tree == [5] && s.release == .unhooked) (by decide)
  rw [Bool.and_eq_true, beq_iff_eq, beq_iff_eq] at hs
  exact ⟨s, hrun, hs.1, hs.2, (comes_to_rest hrun).1⟩

/-- **The stop that is lost.**  Where `kthread_stop` raises no signal and comes after
    the test, the thread sleeps, and the release waits for ever. -/
theorem stop_lost (handle : T → J → T × ℤ) (tree₀ : T) :
    ∃ s, Run (step handle false) (init tree₀) s ∧ s.release = .joining ∧
      ∀ a, inner handle false s a = none := by
  refine ⟨{ (init tree₀ : State T J) with
    thread := false, stop := true, worker := .asleep, release := .joining }, ?_, rfl, ?_⟩
  · have hs : exec (step handle false) (init tree₀ : State T J)
        [.work, .release, .release, .release, .release, .work, .work] = some _ := rfl
    exact exec_run hs
  · intro a
    cases a <;> rfl

end State

end DroidLkm.Devtmpfs
