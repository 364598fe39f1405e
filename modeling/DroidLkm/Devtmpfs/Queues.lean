/-
  devtmpfs — where the requests are.

  * `Phases`: how far the release and the thread are;
  * `Queues`: the requests without an answer are those on the list and those in a
    loop over what was on it, each on one of them and once;
  * `Queues.step`: so no request is touched whose caller has returned.
-/
import DroidLkm.Devtmpfs.Requests
import DroidLkm.Lib.Linked

namespace DroidLkm.Devtmpfs

open Machine

universe u v
variable {T : Type u} {J : Type v}

namespace State

variable {handle : T → J → T × ℤ} {notify : Bool} {s s' : State T J} {t t' : ℕ} {r r' : Req J}
  {job : J} {qs qs' bs bs' : List ℕ} {a : Act J} {tree₀ : T}

/-! ## What a call does -/

theorem enter_some (hs : s.enter t job = some s') :
    s.reqs t = none ∧ s.thread = true ∧
      s' = { s.setReq t (some ⟨s.calls.length, job, .filled, none, 0, none⟩) with
        calls := s.calls ++ [job] } := by
  unfold enter at hs
  split at hs
  · cases hs
  next hr =>
    split at hs <;> cases hs
    next ht => exact ⟨hr, ht, rfl⟩

theorem push_some (hs : s.push t = some s') :
    ∃ r, s.reqs t = some r ∧ r.stage = .filled ∧
      (s.thread = false ∧
        s' = { s.setReq t none with answers := s.answers ++ [(r.call, -ENODEV)] } ∨
      s.thread = true ∧
        s' = { s.setReq t (some { r with stage := .queued, next := s.requests }) with
          requests := some t }) := by
  unfold push at hs
  split at hs
  · cases hs
  next r hr =>
    split at hs
    · cases hs
    next hstage =>
      refine ⟨r, hr, by simpa using hstage, ?_⟩
      split at hs <;> cases hs
      next ht => exact Or.inl ⟨by simpa using ht, rfl⟩
      next ht => exact Or.inr ⟨by simpa using ht, rfl⟩

theorem wake_some (hs : s.wake t = some s') :
    ∃ r, s.reqs t = some r ∧ r.stage = .queued ∧
      (s.thread = false ∧ s' = { s with fault := some .nullWake } ∨
      s.thread = true ∧ s' = (s.setReq t (some { r with stage := .waiting })).wakeUp) := by
  unfold wake at hs
  split at hs
  · cases hs
  next r hr =>
    split at hs
    · cases hs
    next hstage =>
      refine ⟨r, hr, by simpa using hstage, ?_⟩
      split at hs <;> cases hs
      next ht => exact Or.inl ⟨by simpa using ht, rfl⟩
      next ht => exact Or.inr ⟨by simpa using ht, rfl⟩

theorem ret_some (hs : s.ret t = some s') :
    ∃ r, s.reqs t = some r ∧ r.stage = .waiting ∧ r.done ≠ 0 ∧
      s' = { s.setReq t none with answers := s.answers ++ [(r.call, r.err.getD 0)] } := by
  unfold ret at hs
  split at hs
  · cases hs
  next r hr =>
    split at hs <;> cases hs
    next hstage =>
    rw [not_or, not_not] at hstage
    exact ⟨r, hr, hstage.1, hstage.2, rfl⟩

theorem step_some (hs : step handle notify s a = some s') :
    s.fault = none ∧ s.act handle notify a = some s' := by
  unfold step at hs
  split at hs
  · cases hs
  next hf => exact ⟨by simpa using hf, hs⟩

theorem woken_gone (w : Worker) : w.woken = .gone ↔ w = .gone := by
  cases w <;> simp [Worker.woken]

theorem woken_awake (w : Worker) : ¬(w.woken = .dozing ∨ w.woken = .asleep) := by
  cases w <;> simp [Worker.woken]

/-! ## How far they are -/

/-- The release and the thread. -/
structure Phases (s : State T J) : Prop where
  thread : s.thread = true ↔ s.release = .idle ∨ s.release = .unhooked
  stop : s.stop = true ↔
    s.release ≠ .idle ∧ s.release ≠ .unhooked ∧ s.release ≠ .cleared
  gone : s.worker = .gone → s.stop = true
  joined : s.stop = true → s.release ≠ .flagged → s.release ≠ .joining → s.worker = .gone
  emptied : s.stop = true → s.release ≠ .flagged → s.release ≠ .joining →
    s.release ≠ .joined → s.requests = none

theorem init_phases (tree : T) : (init tree : State T J).Phases := by
  refine ⟨?_, ?_, ?_, ?_, ?_⟩ <;> simp [init]

/-- Nothing of it is touched. -/
theorem Phases.same (h : s.Phases) (ht : s'.thread = s.thread) (hr : s'.release = s.release)
    (hs : s'.stop = s.stop) (hw : s'.worker = .gone ↔ s.worker = .gone)
    (hq : s.requests = none → s'.requests = none ∨ s.thread = true) : s'.Phases := by
  refine ⟨by rw [ht, hr]; exact h.thread, by rw [hs, hr]; exact h.stop, ?_, ?_, ?_⟩
  · rw [hw, hs]
    exact h.gone
  · rw [hs, hr, hw]
    exact h.joined
  · rw [hs, hr]
    intro hstop h1 h2 h3
    refine (hq (h.emptied hstop h1 h2 h3)).resolve_right fun hthread => ?_
    rcases h.thread.1 hthread with h4 | h4
    · exact (h.stop.1 hstop).1 h4
    · exact (h.stop.1 hstop).2.1 h4

theorem workStep_phases (h : s.Phases) (hs : s.workStep handle notify = some s') : s'.Phases := by
  have hlive : ∀ w, s.worker = w → w ≠ .gone → s.stop = true →
      s.release = .flagged ∨ s.release = .joining := by
    intro w hw hne hstop
    by_contra hno
    rw [not_or] at hno
    exact hne (hw.symm.trans (h.joined hstop hno.1 hno.2))
  unfold workStep at hs
  split at hs
  next hw =>
    cases hs
    have hrel := hlive _ hw nofun
    refine ⟨h.thread, h.stop, ?_, ?_, h.emptied⟩
    · intro hg
      by_contra hstop
      simp [hstop] at hg
    · intro hstop h1 h2
      exact absurd (hrel hstop) (by simp [h1, h2])
  next hw =>
    have hrel := hlive _ hw nofun
    split at hs <;> cases hs
    all_goals
      refine ⟨h.thread, h.stop, nofun, ?_, ?_⟩
      · intro hstop h1 h2
        exact absurd (hrel hstop) (by simp [h1, h2])
      · intro hstop h1 h2
        exact absurd (hrel hstop) (by simp [h1, h2])
  next hw =>
    cases hs
    exact h.same rfl rfl rfl (by simp [hw]) Or.inl
  next q hw =>
    cases hs
    unfold serve
    split
    · exact h.same rfl rfl rfl Iff.rfl Or.inl
    · exact h.same rfl rfl rfl (by simp [hw]) Or.inl
  next q next hw =>
    cases hs
    unfold complete
    split <;> exact h.same rfl rfl rfl (by simp [hw]) Or.inl
  next hw =>
    cases hs
    refine h.same rfl rfl rfl ?_ Or.inl
    dsimp only
    split <;> simp [hw]
  · cases hs
  · cases hs

theorem releaseStep_phases (h : s.Phases) (hs : s.releaseStep = some s') : s'.Phases := by
  obtain ⟨hthread, hstop, hgone, hjoined, hemptied⟩ := h
  unfold releaseStep at hs
  split at hs
  next hr =>
    cases hs
    simp only [hr] at hthread hstop
    refine ⟨?_, ?_, hgone, ?_, ?_⟩ <;> simp_all
  next hr =>
    cases hs
    simp only [hr] at hthread hstop
    refine ⟨?_, ?_, hgone, ?_, ?_⟩ <;> simp_all
  next hr =>
    cases hs
    simp only [hr] at hthread hstop
    refine ⟨?_, ?_, fun _ => rfl, ?_, ?_⟩ <;> simp_all
  next hr =>
    cases hs
    simp only [hr] at hthread hstop
    have hw := woken_gone s.worker
    refine ⟨?_, ?_, ?_, ?_, ?_⟩ <;> simp_all [wakeUp]
  next hr =>
    split at hs <;> cases hs
    next hw =>
    simp only [hr] at hthread hstop
    refine ⟨?_, ?_, hgone, ?_, ?_⟩ <;> simp_all
  next hr =>
    cases hs
    simp only [hr] at hthread hstop
    refine ⟨?_, ?_, hgone, ?_, ?_⟩ <;> simp_all
  next hr =>
    cases hs
    simp only [hr] at hthread hstop
    refine ⟨?_, ?_, hgone, ?_, ?_⟩ <;> simp_all
  next q hr =>
    simp only [hr] at hthread hstop
    split at hs <;> cases hs
    · refine ⟨?_, ?_, hgone, ?_, ?_⟩ <;> simp_all
    · refine ⟨?_, ?_, hgone, ?_, ?_⟩ <;> simp_all [setReq]
  next q next hr =>
    cases hs
    simp only [hr] at hthread hstop
    unfold complete
    split <;> refine ⟨?_, ?_, hgone, ?_, ?_⟩ <;> simp_all [setReq]
  · cases hs

theorem step_phases (h : s.Phases) (hs : step handle notify s a = some s') : s'.Phases := by
  obtain ⟨-, hs⟩ := step_some hs
  cases a with
  | enter t job =>
    obtain ⟨-, -, rfl⟩ := enter_some hs
    exact h.same rfl rfl rfl Iff.rfl Or.inl
  | push t =>
    obtain ⟨r, -, -, ⟨-, rfl⟩ | ⟨ht, rfl⟩⟩ := push_some hs
    · exact h.same rfl rfl rfl Iff.rfl Or.inl
    · exact h.same rfl rfl rfl Iff.rfl fun _ => Or.inr ht
  | wake t =>
    obtain ⟨r, -, -, ⟨-, rfl⟩ | ⟨-, rfl⟩⟩ := wake_some hs
    · exact h.same rfl rfl rfl Iff.rfl Or.inl
    · exact h.same rfl rfl rfl (woken_gone s.worker) Or.inl
  | ret t =>
    obtain ⟨r, -, -, -, rfl⟩ := ret_some hs
    exact h.same rfl rfl rfl Iff.rfl Or.inl
  | work => exact workStep_phases h hs
  | release => exact releaseStep_phases h hs

/-! ## Where the requests are -/

/-- `req->next`. -/
def next (s : State T J) (t : ℕ) : Option ℕ := (s.reqs t).bind (·.next)

/-- The rest of what a loop has taken from the list. -/
def rest : Release → Worker → Option ℕ
  | .draining r, _ => r
  | .failing _ next, _ => next
  | _, .serving r => r
  | _, .completing _ next => next
  | _, _ => none

def inLoop (s : State T J) : Option ℕ := rest s.release s.worker

/-- The request that a loop is about to complete. -/
def held : Release → Worker → Option ℕ
  | .failing r _, _ => some r
  | _, .completing r _ => some r
  | _, _ => none

def inHand (s : State T J) : Option ℕ := held s.release s.worker

theorem rest_woken (r : Release) (w : Worker) : rest r w.woken = rest r w := by
  cases r <;> cases w <;> rfl

theorem held_woken (r : Release) (w : Worker) : held r w.woken = held r w := by
  cases r <;> cases w <;> rfl

/-- The requests without an answer are those on the list and in the loops, and the
    only one with an answer that its caller cannot see is the one at hand. -/
structure Queues (s : State T J) (qs bs : List ℕ) : Prop where
  queue : Linked s.next s.requests qs
  batch : Linked s.next s.inLoop bs
  nodup : (qs ++ bs).Nodup
  pending : ∀ t, t ∈ qs ++ bs ↔ ∃ r, s.reqs t = some r ∧ r.stage ≠ .filled ∧ r.err = none
  hand : ∀ t, s.inHand = some t ↔ ∃ r, s.reqs t = some r ∧ r.err ≠ none ∧ r.done = 0
  fresh : ∀ t r, s.reqs t = some r → r.err = none → r.done = 0
  once : ∀ t r, s.reqs t = some r → r.done ≤ 1
  filled : ∀ t r, s.reqs t = some r → r.stage = .filled → r.err = none
  heard : s.worker = .dozing ∨ s.worker = .asleep → qs ≠ [] →
    ∃ t ∈ qs, ∃ r, s.reqs t = some r ∧ r.stage = .queued

theorem init_queues (tree : T) : (init tree : State T J).Queues [] [] := by
  refine ⟨rfl, rfl, List.nodup_nil, ?_, ?_, nofun, nofun, nofun, fun _ h => absurd rfl h⟩
  · intro t
    simp [init]
  · intro t
    simp [init, inHand, held]

/-- The phases that have no loop. -/
theorem Queues.same (h : s.Queues qs bs) (hr : s'.reqs = s.reqs) (hq : s'.requests = s.requests)
    (hl : s'.inLoop = s.inLoop) (hh : s'.inHand = s.inHand)
    (hw : s'.worker = .dozing ∨ s'.worker = .asleep → qs ≠ [] →
      s.worker = .dozing ∨ s.worker = .asleep) : s'.Queues qs bs := by
  have hn : s'.next = s.next := by
    funext t
    rw [next, next, hr]
  refine ⟨?_, ?_, h.nodup, ?_, ?_, ?_, ?_, ?_, ?_⟩
  · rw [hn, hq]
    exact h.queue
  · rw [hn, hl]
    exact h.batch
  · rw [hr]
    exact h.pending
  · rw [hh, hr]
    exact h.hand
  · rw [hr]
    exact h.fresh
  · rw [hr]
    exact h.once
  · rw [hr]
    exact h.filled
  · rw [hr]
    intro hs hne
    exact h.heard (hw hs hne) hne

/-- A request may be in this state. -/
structure Sound (r : Req J) : Prop where
  fresh : r.err = none → r.done = 0
  once : r.done ≤ 1
  filled : r.stage = .filled → r.err = none

theorem next_of_ne {x : ℕ} {o : Option (Req J)} (hs : s'.reqs = Function.update s.reqs t o)
    (hx : x ≠ t) : s'.next x = s.next x := by
  rw [next, next, hs, Function.update_of_ne hx]

/-- **One request changes.**  It comes and goes as its state says; the others stay
    where they are. -/
theorem Queues.update (h : s.Queues qs bs) {o : Option (Req J)}
    (hs : s'.reqs = Function.update s.reqs t o)
    (hsound : ∀ r, o = some r → Sound r)
    (hqueue : Linked s'.next s'.requests qs') (hbatch : Linked s'.next s'.inLoop bs')
    (hnodup : (qs' ++ bs').Nodup)
    (hself : t ∈ qs' ++ bs' ↔ ∃ r, o = some r ∧ r.stage ≠ .filled ∧ r.err = none)
    (hothers : ∀ x, x ≠ t → (x ∈ qs' ++ bs' ↔ x ∈ qs ++ bs))
    (hhand : s'.inHand = some t ↔ ∃ r, o = some r ∧ r.err ≠ none ∧ r.done = 0)
    (hhands : ∀ x, x ≠ t → (s'.inHand = some x ↔ s.inHand = some x))
    (hheard : s'.worker = .dozing ∨ s'.worker = .asleep → qs' ≠ [] →
      ∃ t ∈ qs', ∃ r, s'.reqs t = some r ∧ r.stage = .queued) : s'.Queues qs' bs' := by
  have hat : ∀ x r, s'.reqs x = some r → Sound r := by
    intro x r hx
    rw [hs] at hx
    by_cases he : x = t
    · rw [he, Function.update_self] at hx
      exact hsound r hx
    · rw [Function.update_of_ne he] at hx
      exact ⟨h.fresh x r hx, h.once x r hx, h.filled x r hx⟩
  refine ⟨hqueue, hbatch, hnodup, ?_, ?_, ?_, ?_, ?_, hheard⟩
  · intro x
    by_cases he : x = t
    · rw [he, hs, Function.update_self]
      exact hself
    · rw [hs, Function.update_of_ne he, hothers x he]
      exact h.pending x
  · intro x
    by_cases he : x = t
    · rw [he, hs, Function.update_self]
      exact hhand
    · rw [hs, Function.update_of_ne he, hhands x he]
      exact h.hand x
  · exact fun x r hx => (hat x r hx).fresh
  · exact fun x r hx => (hat x r hx).once
  · exact fun x r hx => (hat x r hx).filled

/-- What is filled in, or answered, is not on a list. -/
theorem Queues.notMem (h : s.Queues qs bs) (hr : ∀ r, s.reqs t = some r →
    r.stage = .filled ∨ r.err ≠ none) : t ∉ qs ++ bs := by
  rw [h.pending]
  rintro ⟨r, hrt, hstage, herr⟩
  exact (hr r hrt).elim hstage fun hne => hne herr

/-- Only what is answered and not completed is at hand. -/
theorem Queues.notHand (h : s.Queues qs bs) (hr : ∀ r, s.reqs t = some r →
    r.err = none ∨ r.done ≠ 0) : s.inHand ≠ some t := by
  rw [ne_eq, h.hand]
  rintro ⟨r, hrt, herr, hdone⟩
  exact (hr r hrt).elim herr fun hne => hne hdone

/-- A request that is on no list is made, or goes. -/
theorem Queues.apart (h : s.Queues qs bs) {o : Option (Req J)}
    (hs : s'.reqs = Function.update s.reqs t o)
    (hold : t ∉ qs ++ bs) (hhand : s.inHand ≠ some t)
    (hnew : ∀ r, o = some r → r.stage = .filled ∧ r.err = none ∧ r.done = 0)
    (hq : s'.requests = s.requests) (hw : s'.worker = s.worker) (hr : s'.release = s.release) :
    s'.Queues qs bs := by
  have hloop : s'.inLoop = s.inLoop := by rw [inLoop, inLoop, hw, hr]
  have hin : s'.inHand = s.inHand := by rw [inHand, inHand, hw, hr]
  have hne : ∀ x ∈ qs ++ bs, x ≠ t := fun x hx he => hold (he ▸ hx)
  refine h.update hs ?_ ?_ ?_ h.nodup ?_ (fun _ _ => Iff.rfl) ?_ ?_ ?_
  · intro r ho
    obtain ⟨hstage, herr, hdone⟩ := hnew r ho
    exact ⟨fun _ => hdone, by omega, fun _ => herr⟩
  · rw [hq]
    exact h.queue.congr fun x hx => next_of_ne hs (hne x (List.mem_append_left _ hx))
  · rw [hloop]
    exact h.batch.congr fun x hx => next_of_ne hs (hne x (List.mem_append_right _ hx))
  · refine iff_of_false hold ?_
    rintro ⟨r, ho, hstage, -⟩
    exact hstage (hnew r ho).1
  · rw [hin]
    refine iff_of_false hhand ?_
    rintro ⟨r, ho, herr, -⟩
    exact herr (hnew r ho).2.1
  · rw [hin]
    exact fun _ _ => Iff.rfl
  · rw [hw]
    intro hsleep hqs
    obtain ⟨x, hx, r, hxr, hstage⟩ := h.heard hsleep hqs
    refine ⟨x, hx, r, ?_, hstage⟩
    rw [hs, Function.update_of_ne (hne x (List.mem_append_left _ hx))]
    exact hxr

theorem Queues.enter (h : s.Queues qs bs) (hs : s.enter t job = some s') : s'.Queues qs bs := by
  obtain ⟨hnone, -, rfl⟩ := enter_some hs
  have hno : ∀ {p : Req J → Prop}, ∀ r, s.reqs t = some r → p r := by
    intro p r hr
    rw [hnone] at hr
    cases hr
  refine h.apart rfl (h.notMem hno) (h.notHand hno) ?_ rfl rfl rfl
  intro r ho
  cases ho
  exact ⟨rfl, rfl, rfl⟩

theorem Queues.push (h : s.Queues qs bs) (hs : s.push t = some s') :
    s'.Queues (if s.thread then t :: qs else qs) bs := by
  obtain ⟨r, hr, hstage, ⟨ht, rfl⟩ | ⟨ht, rfl⟩⟩ := push_some hs
  all_goals
    have herr := h.filled t r hr hstage
    have hmem : t ∉ qs ++ bs := h.notMem fun q hq => by
      rw [hr] at hq
      cases hq
      exact Or.inl hstage
    have hhand : s.inHand ≠ some t := h.notHand fun q hq => by
      rw [hr] at hq
      cases hq
      exact Or.inl herr
  · rw [ht, if_neg (by decide)]
    exact h.apart rfl hmem hhand nofun rfl rfl rfl
  · have hne : ∀ x ∈ qs ++ bs, x ≠ t := fun x hx he => hmem (he ▸ hx)
    rw [ht, if_pos rfl]
    refine h.update (o := some { r with stage := .queued, next := s.requests }) rfl
      ?_ ?_ ?_ ?_ ?_ ?_ ?_ ?_ ?_
    · rintro q ⟨⟩
      exact ⟨h.fresh t r hr, h.once t r hr, fun hf => nomatch hf⟩
    · refine h.queue.push (by simp [next, setReq]) ?_
      exact fun x hx => next_of_ne rfl (hne x (List.mem_append_left _ hx))
    · exact h.batch.congr fun x hx => next_of_ne rfl (hne x (List.mem_append_right _ hx))
    · exact List.nodup_cons.2 ⟨hmem, h.nodup⟩
    · refine iff_of_true (List.mem_cons_self) ⟨_, rfl, nofun, herr⟩
    · intro x hx
      rw [List.cons_append, List.mem_cons, or_iff_right hx]
    · refine iff_of_false hhand ?_
      rintro ⟨q, ⟨⟩, hq, -⟩
      exact hq herr
    · exact fun _ _ => Iff.rfl
    · intro _ _
      exact ⟨t, List.mem_cons_self, _, Function.update_self _ _ _, rfl⟩

theorem Queues.wakeUp (h : s.Queues qs bs) : s.wakeUp.Queues qs bs :=
  h.same rfl rfl (rest_woken _ _) (held_woken _ _) fun hsleep => absurd hsleep (woken_awake _)

theorem Queues.wake (h : s.Queues qs bs) (hs : s.wake t = some s') : s'.Queues qs bs := by
  obtain ⟨r, hr, hstage, ⟨-, rfl⟩ | ⟨-, rfl⟩⟩ := wake_some hs
  · exact h.same rfl rfl rfl rfl fun hw _ => hw
  have hself := h.pending t
  have hhand := h.hand t
  have hnext : ∀ x, (s.setReq t (some { r with stage := .waiting })).wakeUp.next x = s.next x := by
    intro x
    by_cases hx : x = t
    · simp [next, setReq, State.wakeUp, hx, hr]
    · exact next_of_ne rfl hx
  refine h.update (o := some { r with stage := .waiting }) (t := t) rfl ?_ ?_ ?_ h.nodup ?_
    (fun _ _ => Iff.rfl) ?_ ?_ ?_
  · rintro q ⟨⟩
    exact ⟨h.fresh t r hr, h.once t r hr, fun hf => nomatch hf⟩
  · exact h.queue.congr fun x _ => hnext x
  · rw [inLoop, State.wakeUp, rest_woken]
    exact h.batch.congr fun x _ => hnext x
  · simpa [hr, hstage] using hself
  · rw [inHand, State.wakeUp, held_woken]
    change s.inHand = some t ↔ _
    simpa [hr] using hhand
  · intro x _
    rw [inHand, State.wakeUp, held_woken]
    rfl
  · exact fun hsleep => absurd hsleep (woken_awake _)

theorem Queues.ret (h : s.Queues qs bs) (hs : s.ret t = some s') : s'.Queues qs bs := by
  obtain ⟨r, hr, -, hdone, rfl⟩ := ret_some hs
  refine h.apart rfl ?_ ?_ nofun rfl rfl rfl
  · refine h.notMem fun q hq => ?_
    rw [hr] at hq
    cases hq
    exact Or.inr fun herr => hdone (h.fresh t r hr herr)
  · refine h.notHand fun q hq => ?_
    rw [hr] at hq
    cases hq
    exact Or.inr hdone

/-! ## The loops -/

/-- A loop has come to a request, and answers it. -/
theorem Queues.answer (h : s.Queues qs bs) (hl : s.inLoop = some t) (hh : s.inHand = none)
    {e : ℤ} {f : Req J → Req J} (hf : f = fun r => { r with err := some e }) (s' : State T J)
    (hs : s'.reqs = Function.update s.reqs t ((s.reqs t).map f))
    (hq : s'.requests = s.requests) (hl' : s'.inLoop = s.next t) (hh' : s'.inHand = some t)
    (hheard : ¬(s'.worker = .dozing ∨ s'.worker = .asleep)) :
    ∃ bs', bs = t :: bs' ∧ s'.Queues qs bs' := by
  have hb := h.batch
  rw [hl] at hb
  obtain ⟨bs', rfl, hrest⟩ := hb.eq_cons
  refine ⟨bs', rfl, ?_⟩
  obtain ⟨hqs, hbs, hdis⟩ := List.nodup_append.1 h.nodup
  obtain ⟨hnot, hbs'⟩ := List.nodup_cons.1 hbs
  have hmem : t ∉ qs ++ bs' := by
    rw [List.mem_append, not_or]
    exact ⟨fun hx => hdis t hx t List.mem_cons_self rfl, hnot⟩
  obtain ⟨r, hr, hstage, herr⟩ := (h.pending t).1 (by simp)
  have hne : ∀ x ∈ qs ++ bs', x ≠ t := fun x hx he => hmem (he ▸ hx)
  subst hf
  rw [hr, Option.map_some] at hs
  refine h.update hs ?_ ?_ ?_ ?_ ?_ ?_ ?_ ?_ ?_
  · rintro q ⟨⟩
    have hdone := h.fresh t r hr herr
    exact ⟨fun _ => hdone, h.once t r hr, fun hf => absurd hf hstage⟩
  · rw [hq]
    exact h.queue.congr fun x hx => next_of_ne hs (hne x (List.mem_append_left _ hx))
  · rw [hl']
    exact hrest.congr fun x hx => next_of_ne hs (hne x (List.mem_append_right _ hx))
  · exact List.nodup_append.2 ⟨hqs, hbs', fun a ha b hb =>
      hdis a ha b (List.mem_cons_of_mem _ hb)⟩
  · refine iff_of_false hmem ?_
    rintro ⟨q, ⟨⟩, -, hq⟩
    cases hq
  · intro x hx
    simp only [List.mem_append, List.mem_cons, hx, false_or]
  · refine iff_of_true hh' ⟨_, rfl, nofun, h.fresh t r hr herr⟩
  · intro x hx
    rw [hh', hh]
    simpa using Ne.symm hx
  · exact fun hsleep => absurd hsleep hheard

/-- It completes the request at hand. -/
theorem Queues.complete (h : s.Queues qs bs) (hh : s.inHand = some t)
    (hs : s'.reqs = (s.complete t).reqs) (hq : s'.requests = s.requests)
    (hl' : s'.inLoop = s.inLoop) (hh' : s'.inHand = none)
    (hheard : ¬(s'.worker = .dozing ∨ s'.worker = .asleep)) : s'.Queues qs bs := by
  obtain ⟨r, hr, herr, hdone⟩ := (h.hand t).1 hh
  have hmem : t ∉ qs ++ bs := h.notMem fun q hq => by
    rw [hr] at hq
    cases hq
    exact Or.inr herr
  have hne : ∀ x ∈ qs ++ bs, x ≠ t := fun x hx he => hmem (he ▸ hx)
  rw [State.complete, hr] at hs
  dsimp only [setReq] at hs
  refine h.update hs ?_ ?_ ?_ h.nodup ?_ (fun _ _ => Iff.rfl) ?_ ?_ ?_
  · rintro q ⟨⟩
    exact ⟨fun he => absurd he herr, by simp [hdone], h.filled t r hr⟩
  · rw [hq]
    exact h.queue.congr fun x hx => next_of_ne hs (hne x (List.mem_append_left _ hx))
  · rw [hl']
    exact h.batch.congr fun x hx => next_of_ne hs (hne x (List.mem_append_right _ hx))
  · refine iff_of_false hmem ?_
    rintro ⟨q, ⟨⟩, -, hq⟩
    exact herr hq
  · rw [hh']
    refine iff_of_false nofun ?_
    rintro ⟨q, ⟨⟩, -, hq⟩
    cases hq
  · intro x hx
    rw [hh', hh]
    simpa using Ne.symm hx
  · exact fun hsleep => absurd hsleep hheard

/-- A loop takes the list. -/
theorem Queues.take (h : s.Queues qs bs) (hl : s.inLoop = none) (hs : s'.reqs = s.reqs)
    (hq : s'.requests = none) (hl' : s'.inLoop = s.requests) (hh : s'.inHand = s.inHand) :
    s'.Queues [] qs := by
  have hb := h.batch
  rw [hl] at hb
  have hnil := hb.eq_nil
  subst hnil
  have hn : s'.next = s.next := by
    funext t
    rw [next, next, hs]
  have hnodup := h.nodup
  rw [List.append_nil] at hnodup
  refine ⟨hq, ?_, hnodup, ?_, ?_, ?_, ?_, ?_, fun _ hne => absurd rfl hne⟩
  · rw [hn, hl']
    exact h.queue
  · rw [hs]
    intro t
    rw [List.nil_append, ← h.pending t, List.append_nil]
  · rw [hh, hs]
    exact h.hand
  · rw [hs]
    exact h.fresh
  · rw [hs]
    exact h.once
  · rw [hs]
    exact h.filled

/-- As long as the thread runs, the loop is its own. -/
theorem Phases.loops (h : s.Phases) (hw : s.worker ≠ .gone) (w : Worker) :
    rest s.release w = rest .idle w ∧ held s.release w = held .idle w := by
  have hno := fun hs h1 h2 => hw (h.joined hs h1 h2)
  have hstop := h.stop
  cases hr : s.release with
  | draining q => simp_all
  | failing q next => simp_all
  | _ => cases w <;> exact ⟨rfl, rfl⟩

/-- The request that a loop comes to is there, without an answer. -/
theorem Queues.unanswered (h : s.Queues qs bs) (hl : s.inLoop = some t) :
    ∃ r, s.reqs t = some r ∧ r.err = none := by
  have hb := h.batch
  rw [hl] at hb
  obtain ⟨bs', rfl, -⟩ := hb.eq_cons
  obtain ⟨r, hr, -, herr⟩ := (h.pending t).1 (by simp)
  exact ⟨r, hr, herr⟩

theorem complete_rest (s : State T J) (hr : s.reqs t = some r) :
    s.complete t = s.setReq t (some { r with done := r.done + 1 }) := by
  rw [complete, hr]

theorem Queues.workStep (hp : s.Phases) (h : s.Queues qs bs)
    (hs : s.workStep handle notify = some s') :
    ∃ bs', s'.Queues (if s.worker = .locking then [] else qs) bs' ∧ s'.fault = s.fault := by
  have hne : s.worker ≠ .gone := by
    intro hw
    rw [State.workStep, hw] at hs
    cases hs
  have hloops := hp.loops hne
  have hkeep : s.worker ≠ .locking → (if s.worker = .locking then [] else qs) = qs :=
    fun hw => if_neg hw
  unfold State.workStep at hs
  split at hs
  next hw =>
    cases hs
    rw [hkeep (by simp [hw])]
    refine ⟨bs, h.same rfl rfl ?_ ?_ ?_, rfl⟩
    · rw [inLoop, inLoop, (hloops _).1, (hloops _).1, hw]
      dsimp only
      split <;> rfl
    · rw [inHand, inHand, (hloops _).2, (hloops _).2, hw]
      dsimp only
      split <;> rfl
    · dsimp only
      split <;> simp
  next hw =>
    have hl : s.inLoop = none := by
      rw [inLoop, (hloops _).1, hw]
      rfl
    rw [if_pos hw]
    split at hs
    next r hr =>
      cases hs
      refine ⟨qs, h.take hl rfl rfl ?_ ?_, rfl⟩
      · rw [inLoop, (hloops _).1, hr]
        rfl
      · rw [inHand, inHand, (hloops _).2, (hloops _).2, hw]
        rfl
    next hr =>
      cases hs
      have hqs : qs = [] := by
        have hq := h.queue
        rw [hr] at hq
        exact hq.eq_nil
      subst hqs
      refine ⟨bs, h.same rfl rfl ?_ ?_ fun _ hq => absurd rfl hq, rfl⟩
      · rw [hl, inLoop, (hloops _).1]
        rfl
      · rw [inHand, inHand, (hloops _).2, (hloops _).2, hw]
        rfl
  next hw =>
    cases hs
    rw [hkeep (by simp [hw])]
    refine ⟨bs, h.same rfl rfl ?_ ?_ (by simp), rfl⟩
    · rw [inLoop, inLoop, (hloops _).1, (hloops _).1, hw]
      rfl
    · rw [inHand, inHand, (hloops _).2, (hloops _).2, hw]
      rfl
  next t hw =>
    cases hs
    rw [hkeep (by simp [hw])]
    have hl : s.inLoop = some t := by
      rw [inLoop, (hloops _).1, hw]
      rfl
    obtain ⟨r, hr, -⟩ := h.unanswered hl
    have hh : s.inHand = none := by
      rw [inHand, (hloops _).2, hw]
      rfl
    unfold serve
    rw [hr]
    obtain ⟨bs', -, hq⟩ := h.answer hl hh (e := (handle s.tree r.job).2) rfl
      { s.setReq t (some { r with err := some (handle s.tree r.job).2 }) with
        tree := (handle s.tree r.job).1
        log := s.log ++ [(r.call, r.job, (handle s.tree r.job).2)]
        worker := .completing t r.next }
      (by rw [hr]; rfl) rfl
      (((hloops _).1).trans (by rw [State.next, hr]; rfl)) ((hloops _).2) (by simp)
    exact ⟨bs', hq, rfl⟩
  next t next hw =>
    cases hs
    rw [hkeep (by simp [hw])]
    have hh : s.inHand = some t := by
      rw [inHand, (hloops _).2, hw]
      rfl
    obtain ⟨r, hr, -⟩ := (h.hand t).1 hh
    refine ⟨bs, h.complete hh rfl ?_ ?_ ?_ (by simp), ?_⟩ <;> rw [complete_rest s hr]
    · rfl
    · rw [show s.inLoop = rest s.release s.worker from rfl, hw]
      exact ((hloops (.serving next)).1).trans ((hloops (.completing t next)).1).symm
    · exact (hloops _).2
    · rfl
  next hw =>
    cases hs
    rw [hkeep (by simp [hw])]
    refine ⟨bs, h.same rfl rfl ?_ ?_ ?_, rfl⟩
    · rw [inLoop, inLoop, (hloops _).1, (hloops _).1, hw]
      dsimp only
      split <;> rfl
    · rw [inHand, inHand, (hloops _).2, (hloops _).2, hw]
      dsimp only
      split <;> rfl
    · exact fun _ _ => Or.inl hw
  · cases hs
  · cases hs

theorem Queues.releaseStep (hp : s.Phases) (h : s.Queues qs bs)
    (hs : s.releaseStep = some s') :
    ∃ bs', s'.Queues (if s.release = .joined then [] else qs) bs' ∧ s'.fault = s.fault := by
  unfold State.releaseStep at hs
  have hkeep : s.release ≠ .joined → (if s.release = .joined then [] else qs) = qs :=
    fun hr => if_neg hr
  have hsame : ∀ {s' : State T J}, s'.reqs = s.reqs → s'.requests = s.requests →
      rest s'.release s'.worker = rest s.release s.worker →
      held s'.release s'.worker = held s.release s.worker → s'.worker = s.worker →
      s'.Queues qs bs := by
    intro s' h1 h2 h3 h4 h5
    refine h.same h1 h2 h3 h4 ?_
    rw [h5]
    exact fun hw _ => hw
  split at hs
  next hr =>
    cases hs
    rw [hkeep (by simp [hr])]
    refine ⟨bs, hsame rfl rfl ?_ ?_ rfl, rfl⟩ <;> rw [hr] <;> cases s.worker <;> rfl
  next hr =>
    cases hs
    rw [hkeep (by simp [hr])]
    refine ⟨bs, hsame rfl rfl ?_ ?_ rfl, rfl⟩ <;> rw [hr] <;> cases s.worker <;> rfl
  next hr =>
    cases hs
    rw [hkeep (by simp [hr])]
    refine ⟨bs, hsame rfl rfl ?_ ?_ rfl, rfl⟩ <;> rw [hr] <;> cases s.worker <;> rfl
  next hr =>
    cases hs
    rw [hkeep (by simp [hr])]
    refine ⟨bs, h.same rfl rfl ?_ ?_ fun hw => absurd hw (woken_awake _), rfl⟩
    · rw [inLoop, inLoop, hr]
      exact (rest_woken .joining s.worker).trans (by cases s.worker <;> rfl)
    · rw [inHand, inHand, hr]
      exact (held_woken .joining s.worker).trans (by cases s.worker <;> rfl)
  next hr =>
    split at hs <;> cases hs
    next hw =>
    rw [hkeep (by simp [hr])]
    refine ⟨bs, hsame rfl rfl ?_ ?_ rfl, rfl⟩ <;> rw [hr, hw] <;> rfl
  next hr =>
    cases hs
    have hw : s.worker = .gone := hp.joined (hp.stop.2 (by simp [hr])) (by simp [hr]) (by simp [hr])
    rw [if_pos hr]
    refine ⟨qs, h.take ?_ rfl rfl rfl ?_, rfl⟩
    · rw [inLoop, hr, hw]
      rfl
    · rw [inHand, inHand, hr, hw]
      rfl
  next hr =>
    cases hs
    have hw : s.worker = .gone := hp.joined (hp.stop.2 (by simp [hr])) (by simp [hr]) (by simp [hr])
    rw [hkeep (by simp [hr])]
    refine ⟨bs, hsame rfl rfl ?_ ?_ rfl, rfl⟩ <;> rw [hr, hw] <;> rfl
  next t hr =>
    have hl : s.inLoop = some t := by
      rw [inLoop, hr]
      rfl
    have hw : s.worker = .gone := hp.joined (hp.stop.2 (by simp [hr])) (by simp [hr]) (by simp [hr])
    obtain ⟨r, hrt, -⟩ := h.unanswered hl
    rw [hrt] at hs
    cases hs
    obtain ⟨bs', -, hq⟩ := h.answer hl (by rw [inHand, hr, hw]; rfl) (e := -ENODEV) rfl
      { s.setReq t (some { r with err := some (-ENODEV) }) with
        release := .failing t r.next }
      (by rw [hrt]; rfl) rfl (by rw [State.next, hrt]; rfl) rfl
      (by
        change ¬(s.worker = .dozing ∨ s.worker = .asleep)
        simp [hw])
    rw [hkeep (by simp [hr])]
    exact ⟨bs', hq, rfl⟩
  next t next hr =>
    cases hs
    have hw : s.worker = .gone := hp.joined (hp.stop.2 (by simp [hr])) (by simp [hr]) (by simp [hr])
    have hh : s.inHand = some t := by
      rw [inHand, hr]
      rfl
    obtain ⟨r, hrt, -⟩ := (h.hand t).1 hh
    rw [hkeep (by simp [hr])]
    refine ⟨bs, h.complete hh rfl ?_ ?_ ?_ ?_, ?_⟩ <;> rw [complete_rest s hrt]
    · rfl
    · rw [inLoop, inLoop, hr]
      rfl
    · change held (.draining next) s.worker = none
      rw [hw]
      rfl
    · change ¬(s.worker = .dozing ∨ s.worker = .asleep)
      simp [hw]
    · rfl
  · cases hs

/-- A caller is about to wake the thread, which is not there. -/
def WakesNull (s : State T J) (a : Act J) : Prop :=
  s.thread = false ∧ ∃ t r, a = .wake t ∧ s.reqs t = some r ∧ r.stage = .queued

/-- **Requests are touched as long as they are there.**  What can go wrong is the
    wake-up. -/
theorem Queues.step (hp : s.Phases) (h : s.Queues qs bs)
    (hs : step handle notify s a = some s') :
    ∃ qs' bs', s'.Queues qs' bs' ∧
      (s'.fault = none ∨ s'.fault = some .nullWake ∧ s.WakesNull a) := by
  obtain ⟨hfault, hs⟩ := step_some hs
  cases a with
  | enter t job =>
    refine ⟨qs, bs, h.enter hs, Or.inl ?_⟩
    obtain ⟨-, -, rfl⟩ := enter_some hs
    exact hfault
  | push t =>
    refine ⟨_, bs, h.push hs, Or.inl ?_⟩
    obtain ⟨r, -, -, ⟨-, rfl⟩ | ⟨-, rfl⟩⟩ := push_some hs <;> exact hfault
  | wake t =>
    refine ⟨qs, bs, h.wake hs, ?_⟩
    obtain ⟨r, hr, hstage, ⟨ht, rfl⟩ | ⟨-, rfl⟩⟩ := wake_some hs
    · exact Or.inr ⟨rfl, ht, t, r, rfl, hr, hstage⟩
    · exact Or.inl hfault
  | ret t =>
    refine ⟨qs, bs, h.ret hs, Or.inl ?_⟩
    obtain ⟨r, -, -, -, rfl⟩ := ret_some hs
    exact hfault
  | work =>
    obtain ⟨bs', hq, hf⟩ := h.workStep hp hs
    exact ⟨_, bs', hq, Or.inl (hf.trans hfault)⟩
  | release =>
    obtain ⟨bs', hq, hf⟩ := h.releaseStep hp hs
    exact ⟨_, bs', hq, Or.inl (hf.trans hfault)⟩

end State

end DroidLkm.Devtmpfs
