/-
  devtmpfs — every request is served, once.

  * `Replays`: a tree that comes of requests handled one by one;
  * `Record`: what has been served is what the tree shows, and what the callers
    are told;
  * `served_once`: in every run the calls behave as if each had changed the tree
    at one moment between its beginning and its end, or not at all;
  * `no_null_wake`: what it takes for the thread to be there when it is woken.
-/
import DroidLkm.Devtmpfs.Queues

namespace DroidLkm.Devtmpfs

open Machine

universe u v
variable {T : Type u} {J : Type v}

/-- The tree after requests have been handled one by one, with these results. -/
def Replays (handle : T → J → T × ℤ) : T → List (ℕ × J × ℤ) → T → Prop
  | t, [], t' => t' = t
  | t, (_, job, err) :: l, t' => (handle t job).2 = err ∧ Replays handle (handle t job).1 l t'

theorem Replays.snoc {handle : T → J → T × ℤ} {t t' : T} {l : List (ℕ × J × ℤ)}
    (h : Replays handle t l t') (c : ℕ) (job : J) :
    Replays handle t (l ++ [(c, job, (handle t' job).2)]) (handle t' job).1 := by
  induction l generalizing t with
  | nil =>
    obtain rfl : t' = t := h
    exact ⟨rfl, rfl⟩
  | cons a l ih => exact ⟨h.1, ih h.2⟩

/-- What a caller may be told: what came of its request, or that nothing was done
    for it. -/
def Told (log : List (ℕ × J × ℤ)) (c : ℕ) (e : ℤ) : Prop :=
  (∃ job, (c, job, e) ∈ log) ∨ e = -ENODEV ∧ c ∉ log.map (·.1)

theorem Told.snoc {log : List (ℕ × J × ℤ)} {c : ℕ} {e : ℤ} {x : ℕ × J × ℤ}
    (h : Told log c e) (hx : x.1 ≠ c) : Told (log ++ [x]) c e := by
  rcases h with ⟨job, hj⟩ | ⟨he, hc⟩
  · exact Or.inl ⟨job, List.mem_append_left _ hj⟩
  · refine Or.inr ⟨he, ?_⟩
    simp only [List.map_append, List.mem_append, not_or]
    exact ⟨hc, by simpa using Ne.symm hx⟩

namespace State

variable {handle : T → J → T × ℤ} {notify : Bool} {s s' : State T J} {t t' c : ℕ} {r r' : Req J}
  {job : J} {qs bs : List ℕ} {a : Act J} {tree₀ : T} {e : ℤ}

/-- What is recorded agrees with the tree and with the requests. -/
structure Record (handle : T → J → T × ℤ) (tree₀ : T) (s : State T J) : Prop where
  tree : Replays handle tree₀ s.log s.tree
  logged : (s.log.map (·.1)).Nodup
  asked : ∀ c job e, (c, job, e) ∈ s.log → s.calls[c]? = some job
  open_ : ∀ t r, s.reqs t = some r → s.calls[r.call]? = some r.job
  apart : ∀ t t' r r', s.reqs t = some r → s.reqs t' = some r' → r.call = r'.call → t = t'
  unserved : ∀ t r, s.reqs t = some r → r.err = none → r.call ∉ s.log.map (·.1)
  served : ∀ t r e, s.reqs t = some r → r.err = some e → Told s.log r.call e
  answered : ∀ c e, (c, e) ∈ s.answers → c < s.calls.length ∧ Told s.log c e
  once : (s.answers.map (·.1)).Nodup
  closed : ∀ t r, s.reqs t = some r → r.call ∉ s.answers.map (·.1)

theorem init_record (tree : T) : (init tree : State T J).Record handle tree := by
  refine ⟨rfl, List.nodup_nil, ?_, nofun, nofun, nofun, nofun, ?_, List.nodup_nil, nofun⟩
  · intro c job e h
    cases h
  · intro c e h
    cases h

theorem Record.lt (h : s.Record handle tree₀) (hr : s.reqs t = some r) :
    r.call < s.calls.length :=
  (List.getElem?_eq_some_iff.1 (h.open_ t r hr)).1

theorem Record.lt_of_log (h : s.Record handle tree₀) (hc : c ∈ s.log.map (·.1)) :
    c < s.calls.length := by
  obtain ⟨⟨c, job, e⟩, hmem, rfl⟩ := List.mem_map.1 hc
  exact (List.getElem?_eq_some_iff.1 (h.asked c job e hmem)).1

theorem setReq_some {o : Option (Req J)} {x : ℕ} (hx : (s.setReq t o).reqs x = some r) :
    x = t ∧ o = some r ∨ x ≠ t ∧ s.reqs x = some r := by
  by_cases hxt : x = t
  · subst hxt
    exact Or.inl ⟨rfl, by simpa [setReq] using hx⟩
  · exact Or.inr ⟨hxt, by simpa [setReq, hxt] using hx⟩

/-- Nothing of it is touched. -/
theorem Record.same (h : s.Record handle tree₀) (ht : s'.tree = s.tree) (hr : s'.reqs = s.reqs)
    (hc : s'.calls = s.calls) (hl : s'.log = s.log) (ha : s'.answers = s.answers) :
    s'.Record handle tree₀ := by
  obtain ⟨h1, h2, h3, h4, h5, h6, h7, h8, h9, h10⟩ := h
  refine ⟨?_, ?_, ?_, ?_, ?_, ?_, ?_, ?_, ?_, ?_⟩ <;> simpa only [ht, hr, hc, hl, ha]

/-- A request changes in what is not recorded, or it is answered without having been
    served. -/
theorem Record.setReq (h : s.Record handle tree₀) (hr : s.reqs t = some r) (r' : Req J)
    (hcall : r'.call = r.call) (hjob : r'.job = r.job)
    (herr : r'.err = r.err ∨ r.err = none ∧ r'.err = some (-ENODEV)) :
    (s.setReq t (some r')).Record handle tree₀ := by
  have hback : ∀ x q, (s.setReq t (some r')).reqs x = some q → ∃ q', s.reqs x = some q' ∧
      q.call = q'.call ∧ q.job = q'.job ∧
      (q.err = q'.err ∨ q'.err = none ∧ q.err = some (-ENODEV)) := by
    intro x q hx
    rcases setReq_some hx with ⟨rfl, ⟨⟩⟩ | ⟨-, hxr⟩
    · exact ⟨r, hr, hcall, hjob, herr⟩
    · exact ⟨q, hxr, rfl, rfl, Or.inl rfl⟩
  refine ⟨h.tree, h.logged, h.asked, ?_, ?_, ?_, ?_, h.answered, h.once, ?_⟩
  · intro x q hx
    obtain ⟨q', hq', h1, h2, -⟩ := hback x q hx
    rw [h1, h2]
    exact h.open_ x q' hq'
  · intro x y q p hx hy heq
    obtain ⟨q', hq', h1, -⟩ := hback x q hx
    obtain ⟨p', hp', h2, -⟩ := hback y p hy
    exact h.apart x y q' p' hq' hp' (by rw [← h1, ← h2, heq])
  · intro x q hx hnone
    obtain ⟨q', hq', h1, -, h3 | ⟨-, h3⟩⟩ := hback x q hx
    · rw [h1]
      exact h.unserved x q' hq' (h3 ▸ hnone)
    · rw [h3] at hnone
      cases hnone
  · intro x q e hx he
    obtain ⟨q', hq', h1, -, h3 | ⟨h3, h4⟩⟩ := hback x q hx
    · rw [h1]
      exact h.served x q' e hq' (h3 ▸ he)
    · rw [h4] at he
      cases he
      rw [h1]
      exact Or.inr ⟨rfl, h.unserved x q' hq' h3⟩
  · intro x q hx
    obtain ⟨q', hq', h1, -⟩ := hback x q hx
    rw [h1]
    exact h.closed x q' hq'

/-- A caller returns with what it may be told. -/
theorem Record.leave (h : s.Record handle tree₀) (hr : s.reqs t = some r)
    (he : Told s.log r.call e) :
    ({ s.setReq t none with answers := s.answers ++ [(r.call, e)] } :
      State T J).Record handle tree₀ := by
  have hback : ∀ x q, (s.setReq t none).reqs x = some q → x ≠ t ∧ s.reqs x = some q := by
    intro x q hx
    rcases setReq_some hx with ⟨-, ⟨⟩⟩ | hxr
    exact hxr
  refine ⟨h.tree, h.logged, h.asked, fun x q hx => h.open_ x q (hback x q hx).2, ?_,
    fun x q hx => h.unserved x q (hback x q hx).2, fun x q e hx => h.served x q e (hback x q hx).2,
    ?_, ?_, ?_⟩
  · exact fun x y q p hx hy => h.apart x y q p (hback x q hx).2 (hback y p hy).2
  · intro c e' hmem
    rcases List.mem_append.1 hmem with hmem | hmem
    · exact h.answered c e' hmem
    · cases List.mem_singleton.1 hmem
      exact ⟨h.lt hr, he⟩
  · simp only [List.map_append, List.map_cons, List.map_nil]
    exact List.nodup_append.2 ⟨h.once, by simp, by
      rintro a ha b hb rfl
      rw [List.mem_singleton.1 hb] at ha
      exact h.closed t r hr ha⟩
  · intro x q hx
    obtain ⟨hne, hxr⟩ := hback x q hx
    simp only [List.map_append, List.map_cons, List.map_nil, List.mem_append, not_or]
    refine ⟨h.closed x q hxr, ?_⟩
    intro hmem
    exact hne (h.apart x t q r hxr hr (by simpa using hmem))

theorem Record.enter (h : s.Record handle tree₀) (hs : s.enter t job = some s') :
    s'.Record handle tree₀ := by
  obtain ⟨hnone, -, rfl⟩ := enter_some hs
  have hold : ∀ {c : ℕ}, c < s.calls.length → (s.calls ++ [job])[c]? = s.calls[c]? :=
    fun hc => List.getElem?_append_left hc
  refine ⟨h.tree, h.logged, ?_, ?_, ?_, ?_, ?_, ?_, h.once, ?_⟩
  · intro c j e hmem
    have hlt := h.lt_of_log (List.mem_map_of_mem (f := (·.1)) hmem)
    exact (hold hlt).trans (h.asked c j e hmem)
  · intro x q hx
    rcases setReq_some hx with ⟨rfl, ⟨⟩⟩ | ⟨-, hxr⟩
    · simp
    · exact (hold (h.lt hxr)).trans (h.open_ x q hxr)
  · intro x y q p hx hy heq
    rcases setReq_some hx with ⟨rfl, ⟨⟩⟩ | ⟨-, hxr⟩ <;>
      rcases setReq_some hy with ⟨rfl, ⟨⟩⟩ | ⟨-, hyr⟩
    · rfl
    · exact absurd heq (Nat.ne_of_gt (h.lt hyr))
    · exact absurd heq (Nat.ne_of_lt (h.lt hxr))
    · exact h.apart x y q p hxr hyr heq
  · intro x q hx hnone'
    rcases setReq_some hx with ⟨rfl, ⟨⟩⟩ | ⟨-, hxr⟩
    · exact fun hmem => Nat.lt_irrefl _ (h.lt_of_log hmem)
    · exact h.unserved x q hxr hnone'
  · intro x q e hx he
    rcases setReq_some hx with ⟨rfl, ⟨⟩⟩ | ⟨-, hxr⟩
    · cases he
    · exact h.served x q e hxr he
  · intro c e hmem
    obtain ⟨hlt, htold⟩ := h.answered c e hmem
    exact ⟨by simpa using Nat.lt_succ_of_lt hlt, htold⟩
  · intro x q hx
    rcases setReq_some hx with ⟨rfl, ⟨⟩⟩ | ⟨-, hxr⟩
    · intro hmem
      obtain ⟨⟨c, e⟩, hce, heq⟩ := List.mem_map.1 hmem
      exact Nat.ne_of_lt (h.answered c e hce).1 heq
    · exact h.closed x q hxr

/-- A request is served. -/
theorem Record.serve (h : s.Record handle tree₀) (hr : s.reqs t = some r)
    (hnone : r.err = none) : (s.serve handle t).Record handle tree₀ := by
  unfold State.serve
  rw [hr]
  have hnew := h.unserved t r hr hnone
  refine ⟨h.tree.snoc r.call r.job, ?_, ?_, ?_, ?_, ?_, ?_, ?_, h.once, ?_⟩
  · simp only [List.map_append, List.map_cons, List.map_nil]
    exact List.nodup_append.2 ⟨h.logged, by simp, by
      rintro a ha b hb rfl
      rw [List.mem_singleton.1 hb] at ha
      exact hnew ha⟩
  · intro c j e hmem
    rcases List.mem_append.1 hmem with hmem | hmem
    · exact h.asked c j e hmem
    · cases List.mem_singleton.1 hmem
      exact h.open_ t r hr
  · intro x q hx
    rcases setReq_some hx with ⟨rfl, ⟨⟩⟩ | ⟨-, hxr⟩
    · exact h.open_ x r hr
    · exact h.open_ x q hxr
  · intro x y q p hx hy heq
    rcases setReq_some hx with ⟨rfl, ⟨⟩⟩ | ⟨-, hxr⟩ <;>
      rcases setReq_some hy with ⟨rfl, ⟨⟩⟩ | ⟨-, hyr⟩
    · rfl
    · exact h.apart x y r p hr hyr heq
    · exact h.apart x y q r hxr hr heq
    · exact h.apart x y q p hxr hyr heq
  · intro x q hx hq
    rcases setReq_some hx with ⟨rfl, ⟨⟩⟩ | ⟨hne, hxr⟩
    · cases hq
    · simp only [List.map_append, List.map_cons, List.map_nil, List.mem_append, not_or]
      refine ⟨h.unserved x q hxr hq, fun hmem => hne ?_⟩
      exact h.apart x t q r hxr hr (by simpa using hmem)
  · intro x q e hx hq
    rcases setReq_some hx with ⟨rfl, ⟨⟩⟩ | ⟨hne, hxr⟩
    · cases hq
      exact Or.inl ⟨r.job, List.mem_append_right _ (by simp)⟩
    · refine (h.served x q e hxr hq).snoc fun heq => hne ?_
      exact (h.apart t x r q hr hxr heq).symm
  · intro c e hmem
    obtain ⟨hlt, htold⟩ := h.answered c e hmem
    refine ⟨hlt, htold.snoc ?_⟩
    rintro rfl
    exact h.closed t r hr (List.mem_map_of_mem (f := (·.1)) hmem)
  · intro x q hx
    rcases setReq_some hx with ⟨rfl, ⟨⟩⟩ | ⟨-, hxr⟩
    · exact h.closed x r hr
    · exact h.closed x q hxr

theorem Record.complete (h : s.Record handle tree₀) (t : ℕ) :
    (s.complete t).Record handle tree₀ := by
  unfold State.complete
  split
  · exact h.same rfl rfl rfl rfl rfl
  next r hr => exact h.setReq hr _ rfl rfl (Or.inl rfl)

theorem Record.workStep (h : s.Record handle tree₀) (hp : s.Phases) (hq : s.Queues qs bs)
    (hs : s.workStep handle notify = some s') : s'.Record handle tree₀ := by
  have hne : s.worker ≠ .gone := by
    intro hw
    rw [State.workStep, hw] at hs
    cases hs
  unfold State.workStep at hs
  split at hs
  · cases hs
    exact h.same rfl rfl rfl rfl rfl
  · split at hs <;> cases hs <;> exact h.same rfl rfl rfl rfl rfl
  · cases hs
    exact h.same rfl rfl rfl rfl rfl
  next t hw =>
    cases hs
    obtain ⟨r, hr, herr⟩ := hq.unanswered (show s.inLoop = some t by
      rw [inLoop, (hp.loops hne _).1, hw]
      rfl)
    exact h.serve hr herr
  · cases hs
    exact (h.complete _).same rfl rfl rfl rfl rfl
  · cases hs
    exact h.same rfl rfl rfl rfl rfl
  · cases hs
  · cases hs

theorem Record.releaseStep (h : s.Record handle tree₀) (hq : s.Queues qs bs)
    (hs : s.releaseStep = some s') : s'.Record handle tree₀ := by
  unfold State.releaseStep at hs
  split at hs
  · cases hs
    exact h.same rfl rfl rfl rfl rfl
  · cases hs
    exact h.same rfl rfl rfl rfl rfl
  · cases hs
    exact h.same rfl rfl rfl rfl rfl
  · cases hs
    exact h.same rfl rfl rfl rfl rfl
  · split at hs <;> cases hs
    exact h.same rfl rfl rfl rfl rfl
  · cases hs
    exact h.same rfl rfl rfl rfl rfl
  · cases hs
    exact h.same rfl rfl rfl rfl rfl
  next t hrel =>
    obtain ⟨r, hr, herr⟩ := hq.unanswered (show s.inLoop = some t by
      rw [inLoop, hrel]
      rfl)
    rw [hr] at hs
    cases hs
    have hset := h.setReq hr { r with err := some (-ENODEV) } rfl rfl (Or.inr ⟨herr, rfl⟩)
    exact hset.same rfl rfl rfl rfl rfl
  · cases hs
    exact (h.complete _).same rfl rfl rfl rfl rfl
  · cases hs

theorem Record.step (h : s.Record handle tree₀) (hp : s.Phases) (hq : s.Queues qs bs)
    (hs : step handle notify s a = some s') : s'.Record handle tree₀ := by
  obtain ⟨-, hs⟩ := step_some hs
  cases a with
  | enter t job => exact h.enter hs
  | push t =>
    obtain ⟨r, hr, hstage, ⟨-, rfl⟩ | ⟨-, rfl⟩⟩ := push_some hs
    · exact h.leave hr (Or.inr ⟨rfl, h.unserved t r hr (hq.filled t r hr hstage)⟩)
    · have hset := h.setReq hr { r with stage := .queued, next := s.requests } rfl rfl
        (Or.inl rfl)
      exact hset.same rfl rfl rfl rfl rfl
  | wake t =>
    obtain ⟨r, hr, -, ⟨-, rfl⟩ | ⟨-, rfl⟩⟩ := wake_some hs
    · exact h.same rfl rfl rfl rfl rfl
    · have hset := h.setReq hr { r with stage := .waiting } rfl rfl (Or.inl rfl)
      exact hset.same rfl rfl rfl rfl rfl
  | ret t =>
    obtain ⟨r, hr, -, hdone, rfl⟩ := ret_some hs
    cases herr : r.err with
    | none => exact absurd (hq.fresh t r hr herr) hdone
    | some e => exact h.leave hr (h.served t r e hr herr)
  | work => exact h.workStep hp hq hs
  | release => exact h.releaseStep hq hs

/-! ## Every run -/

/-- What holds in every state. -/
structure Inv (handle : T → J → T × ℤ) (tree₀ : T) (s : State T J) : Prop where
  phases : s.Phases
  queues : ∃ qs bs, s.Queues qs bs
  record : s.Record handle tree₀
  alive : s.fault ≠ some .deadFrame

theorem init_inv (tree : T) : (init tree : State T J).Inv handle tree :=
  ⟨init_phases tree, ⟨[], [], init_queues tree⟩, init_record tree, nofun⟩

theorem step_inv (h : s.Inv handle tree₀) (hs : step handle notify s a = some s') :
    s'.Inv handle tree₀ := by
  obtain ⟨qs, bs, hq⟩ := h.queues
  obtain ⟨qs', bs', hq', halive⟩ := hq.step h.phases hs
  refine ⟨step_phases h.phases hs, ⟨qs', bs', hq'⟩, h.record.step h.phases hq hs, ?_⟩
  rcases halive with halive | ⟨halive, -⟩ <;> simp [halive]

theorem run_inv (h : Run (step handle notify) (init tree₀) s) : s.Inv handle tree₀ :=
  h.inv (init_inv tree₀) fun _ _ _ hi hs => step_inv hi hs

/-- What is served later is not what has been answered. -/
structure Later (s s' : State T J) : Prop where
  answers : s.answers <+: s'.answers
  log : ∃ l, s'.log = s.log ++ l ∧ ∀ x ∈ l, x.1 ∉ s.answers.map (·.1)

theorem Later.of_eq (ha : s.answers <+: s'.answers) (hl : s'.log = s.log) : Later s s' :=
  ⟨ha, [], by simp [hl], nofun⟩

theorem Later.trans {s₁ s₂ : State T J} (h : Later s s₁) (h' : Later s₁ s₂) : Later s s₂ := by
  obtain ⟨ha, l, hl, hx⟩ := h
  obtain ⟨ha', l', hl', hx'⟩ := h'
  refine ⟨ha.trans ha', l ++ l', by rw [hl', hl, List.append_assoc], ?_⟩
  intro x hmem hin
  rcases List.mem_append.1 hmem with hmem | hmem
  · exact hx x hmem hin
  · exact hx' x hmem ((ha.map (·.1)).subset hin)

theorem step_later (h : s.Inv handle tree₀) (hs : step handle notify s a = some s') :
    Later s s' := by
  obtain ⟨-, hs⟩ := step_some hs
  have hrefl : s.answers <+: s.answers := List.prefix_rfl
  have hcomplete : ∀ t, s.answers <+: (s.complete t).answers ∧ (s.complete t).log = s.log := by
    intro t
    unfold State.complete
    split <;> exact ⟨hrefl, rfl⟩
  cases a with
  | enter t job =>
    obtain ⟨-, -, rfl⟩ := enter_some hs
    exact Later.of_eq hrefl rfl
  | push t =>
    obtain ⟨r, -, -, ⟨-, rfl⟩ | ⟨-, rfl⟩⟩ := push_some hs
    · exact Later.of_eq (List.prefix_append _ _) rfl
    · exact Later.of_eq hrefl rfl
  | wake t =>
    obtain ⟨r, -, -, ⟨-, rfl⟩ | ⟨-, rfl⟩⟩ := wake_some hs <;> exact Later.of_eq hrefl rfl
  | ret t =>
    obtain ⟨r, -, -, -, rfl⟩ := ret_some hs
    exact Later.of_eq (List.prefix_append _ _) rfl
  | work =>
    unfold act State.workStep at hs
    dsimp only at hs
    split at hs
    · cases hs
      exact Later.of_eq hrefl rfl
    · split at hs <;> cases hs <;> exact Later.of_eq hrefl rfl
    · cases hs
      exact Later.of_eq hrefl rfl
    next t hw =>
      cases hs
      unfold State.serve
      split
      · exact Later.of_eq hrefl rfl
      next r hr =>
        refine ⟨hrefl, [_], rfl, ?_⟩
        intro x hx
        rw [List.mem_singleton.1 hx]
        exact h.record.closed t r hr
    · cases hs
      exact Later.of_eq (hcomplete _).1 (hcomplete _).2
    · cases hs
      exact Later.of_eq hrefl rfl
    · cases hs
    · cases hs
  | release =>
    unfold act State.releaseStep at hs
    dsimp only at hs
    split at hs
    · cases hs
      exact Later.of_eq hrefl rfl
    · cases hs
      exact Later.of_eq hrefl rfl
    · cases hs
      exact Later.of_eq hrefl rfl
    · cases hs
      exact Later.of_eq hrefl rfl
    · split at hs <;> cases hs
      exact Later.of_eq hrefl rfl
    · cases hs
      exact Later.of_eq hrefl rfl
    · cases hs
      exact Later.of_eq hrefl rfl
    · split at hs <;> cases hs <;> exact Later.of_eq hrefl rfl
    · cases hs
      exact Later.of_eq (hcomplete _).1 (hcomplete _).2
    · cases hs

theorem run_later (h : s.Inv handle tree₀) (hr : Run (step handle notify) s s') : Later s s' := by
  have hboth : Later s s' ∧ s'.Inv handle tree₀ := by
    refine hr.inv (I := fun x => Later s x ∧ x.Inv handle tree₀) ?_ ?_
    · exact ⟨Later.of_eq List.prefix_rfl rfl, h⟩
    · rintro x a y ⟨hl, hi⟩ hs
      exact ⟨hl.trans (step_later hi hs), step_inv hi hs⟩
  exact hboth.1

/-- **Every request is served once, or not at all.**  The tree is the one that comes
    of handling, one after the other, the requests that have been served; each of them
    is what its call asked for, is served once, and is not served after the call has
    returned.  A call returns with what came of its own request, or with `-ENODEV` and
    its request has not been served.  No request is touched after its call has
    returned. -/
theorem served_once (h : Run (step handle notify) (init tree₀) s) :
    s.fault ≠ some .deadFrame ∧
    Replays handle tree₀ s.log s.tree ∧
    (s.log.map (·.1)).Nodup ∧
    (∀ c job e, (c, job, e) ∈ s.log → s.calls[c]? = some job) ∧
    (s.answers.map (·.1)).Nodup ∧
    (∀ c e, (c, e) ∈ s.answers → Told s.log c e) ∧
    ∀ s', Run (step handle notify) s s' →
      ∃ l, s'.log = s.log ++ l ∧ ∀ x ∈ l, x.1 ∉ s.answers.map (·.1) := by
  have hi := run_inv h
  have hr := hi.record
  exact ⟨hi.alive, hr.tree, hr.logged, hr.asked, hr.once, fun c e hc => (hr.answered c e hc).2,
    fun s' hs' => (run_later hi hs').log⟩

/-- Two calls, one of which is served while the other comes too late. -/
theorem served_once_two : ∃ s : State (List ℕ) ℕ,
    Run (step (fun l n => (n :: l, (l.length : ℤ))) true) (init [7]) s ∧
      s.log = [(0, 5, 1)] ∧ s.answers = [(0, 1), (1, -ENODEV)] ∧ s.fault ≠ some .deadFrame ∧
      ∀ s', Run (step (fun l n => (n :: l, (l.length : ℤ))) true) s s' →
        ∃ l, s'.log = s.log ++ l ∧ ∀ x ∈ l, x.1 ∉ s.answers.map (·.1) := by
  obtain ⟨s, hrun, hs⟩ := exec_check (step (fun l n => (n :: l, (l.length : ℤ))) true)
    (init [7] : State (List ℕ) ℕ)
    [.enter 3 5, .push 3, .wake 3, .work, .work, .work, .work, .ret 3, .enter 4 6, .release,
      .release, .push 4]
    (fun s => s.log == [(0, 5, 1)] && s.answers == [(0, 1), (1, -ENODEV)]) (by decide)
  rw [Bool.and_eq_true, beq_iff_eq, beq_iff_eq] at hs
  obtain ⟨h1, -, -, -, -, -, h7⟩ := served_once hrun
  exact ⟨s, hrun, hs.1, hs.2, h1, h7⟩

/-! ## What holds of the tree -/

theorem step_tree (hs : step handle notify s a = some s') :
    s'.tree = s.tree ∨ a = .work ∧ ∃ t r, s.worker = .serving (some t) ∧ s.reqs t = some r ∧
      s'.tree = (handle s.tree r.job).1 := by
  obtain ⟨-, hs⟩ := step_some hs
  have hcomplete : ∀ t, (s.complete t).tree = s.tree := by
    intro t
    unfold State.complete
    split <;> rfl
  cases a with
  | enter t job =>
    obtain ⟨-, -, rfl⟩ := enter_some hs
    exact Or.inl rfl
  | push t =>
    obtain ⟨r, -, -, ⟨-, rfl⟩ | ⟨-, rfl⟩⟩ := push_some hs <;> exact Or.inl rfl
  | wake t =>
    obtain ⟨r, -, -, ⟨-, rfl⟩ | ⟨-, rfl⟩⟩ := wake_some hs <;> exact Or.inl rfl
  | ret t =>
    obtain ⟨r, -, -, -, rfl⟩ := ret_some hs
    exact Or.inl rfl
  | work =>
    unfold act State.workStep at hs
    dsimp only at hs
    split at hs
    · cases hs
      exact Or.inl rfl
    · split at hs <;> cases hs <;> exact Or.inl rfl
    · cases hs
      exact Or.inl rfl
    next t hw =>
      cases hs
      unfold State.serve
      split
      · exact Or.inl rfl
      next r hr => exact Or.inr ⟨rfl, t, r, hw, hr, rfl⟩
    · cases hs
      exact Or.inl (hcomplete _)
    · cases hs
      exact Or.inl rfl
    · cases hs
    · cases hs
  | release =>
    unfold act State.releaseStep at hs
    dsimp only at hs
    split at hs
    · cases hs
      exact Or.inl rfl
    · cases hs
      exact Or.inl rfl
    · cases hs
      exact Or.inl rfl
    · cases hs
      exact Or.inl rfl
    · split at hs <;> cases hs
      exact Or.inl rfl
    · cases hs
      exact Or.inl rfl
    · cases hs
      exact Or.inl rfl
    · split at hs <;> cases hs <;> exact Or.inl rfl
    · cases hs
      exact Or.inl (hcomplete _)
    · cases hs

/-- What is served is such a request, in such a tree. -/
def Serves (C : T → J → Prop) (s : State T J) (a : Act J) : Prop :=
  a = .work → ∀ t r, s.worker = .serving (some t) → s.reqs t = some r → C s.tree r.job

/-- **What every request preserves holds of the tree.** -/
theorem tree_inv {C : T → J → Prop} {I : T → Prop} {s₀ : State T J}
    (h : RunIf (step handle notify) (Serves C) s₀ s) (h₀ : I s₀.tree)
    (hI : ∀ t job, C t job → I t → I (handle t job).1) : I s.tree := by
  refine h.inv (I := fun x => I x.tree) h₀ ?_
  intro x a y hx hc hs
  rcases step_tree hs with heq | ⟨ha, t, r, hw, hr, heq⟩ <;> rw [heq]
  · exact hx
  · exact hI _ _ (hc ha t r hw hr) hx

/-! ## The thread that is woken -/

/-- The thread is not taken away while a caller is about to wake it. -/
def Settled (s : State T J) (a : Act J) : Prop :=
  a = .release → s.release = .unhooked → ∀ t r, s.reqs t = some r → r.stage ≠ .queued

/-- Without a thread nobody is about to wake it. -/
def Quiet (s : State T J) : Prop :=
  s.thread = false → ∀ t r, s.reqs t = some r → r.stage ≠ .queued

theorem Quiet.set {o : Option (Req J)} (h : s.Quiet)
    (hs : s'.reqs = Function.update s.reqs t o) (ht : s'.thread = s.thread)
    (ho : s.thread = false → ∀ r, o = some r → r.stage = .queued →
      ∃ r', s.reqs t = some r' ∧ r'.stage = .queued) : s'.Quiet := by
  intro hthread x q hx hstage
  rw [ht] at hthread
  rw [hs] at hx
  by_cases hxt : x = t
  · rw [hxt, Function.update_self] at hx
    obtain ⟨r', hr', hstage'⟩ := ho hthread q hx hstage
    exact h hthread t r' hr' hstage'
  · rw [Function.update_of_ne hxt] at hx
    exact h hthread x q hx hstage

theorem Quiet.same (h : s.Quiet) (hs : s'.reqs = s.reqs) (ht : s'.thread = s.thread) :
    s'.Quiet := by
  rw [Quiet, hs, ht]
  exact h

theorem Quiet.complete (h : s.Quiet) (t : ℕ) : (s.complete t).Quiet := by
  unfold State.complete
  split
  · exact h.same rfl rfl
  next r hr => exact h.set rfl rfl fun _ q hq hstage => ⟨r, hr, by cases hq; exact hstage⟩

theorem Quiet.workStep (h : s.Quiet) (hs : s.workStep handle notify = some s') : s'.Quiet := by
  unfold State.workStep at hs
  split at hs
  · cases hs
    exact h
  · split at hs <;> cases hs <;> exact h
  · cases hs
    exact h
  next t hw =>
    cases hs
    unfold State.serve
    split
    · exact h
    next r hr => exact h.set rfl rfl fun _ q hq hstage => ⟨r, hr, by cases hq; exact hstage⟩
  · cases hs
    exact (h.complete _).same rfl rfl
  · cases hs
    exact h
  · cases hs
  · cases hs

theorem Quiet.releaseStep (h : s.Quiet) (hc : Settled s (.release : Act J))
    (hs : s.releaseStep = some s') : s'.Quiet := by
  unfold State.releaseStep at hs
  split at hs
  · cases hs
    exact h
  next hr =>
    cases hs
    exact fun _ => hc rfl hr
  · cases hs
    exact h
  · cases hs
    exact h
  · split at hs <;> cases hs
    exact h
  · cases hs
    exact h
  · cases hs
    exact h
  · split at hs <;> cases hs
    · exact h
    next r hr => exact h.set rfl rfl fun _ q hq hstage => ⟨r, hr, by cases hq; exact hstage⟩
  · cases hs
    exact (h.complete _).same rfl rfl
  · cases hs

theorem Quiet.step (h : s.Quiet) (hc : Settled s a) (hs : step handle notify s a = some s') :
    s'.Quiet := by
  obtain ⟨-, hs⟩ := step_some hs
  cases a with
  | enter t job =>
    obtain ⟨-, -, rfl⟩ := enter_some hs
    refine h.set rfl rfl ?_
    rintro - r ⟨⟩ hstage
    cases hstage
  | push t =>
    obtain ⟨r, -, -, ⟨-, rfl⟩ | ⟨ht, rfl⟩⟩ := push_some hs
    · exact h.set rfl rfl nofun
    · refine h.set rfl rfl fun hthread => ?_
      rw [ht] at hthread
      cases hthread
  | wake t =>
    obtain ⟨r, -, -, ⟨-, rfl⟩ | ⟨-, rfl⟩⟩ := wake_some hs
    · exact h
    · refine h.set rfl rfl ?_
      rintro - q ⟨⟩ hstage
      cases hstage
  | ret t =>
    obtain ⟨r, -, -, -, rfl⟩ := ret_some hs
    exact h.set rfl rfl nofun
  | work => exact h.workStep hs
  | release => exact h.releaseStep hc hs

theorem init_quiet (tree : T) : (init tree : State T J).Quiet := nofun

/-- As long as the thread is not taken away too early, nothing goes wrong. -/
theorem settled_inv (h : RunIf (step handle notify) Settled (init tree₀) s) :
    s.Inv handle tree₀ ∧ s.Quiet ∧ s.fault = none := by
  refine h.inv (I := fun x => x.Inv handle tree₀ ∧ x.Quiet ∧ x.fault = none)
    ⟨init_inv tree₀, init_quiet tree₀, rfl⟩ ?_
  rintro x a y ⟨hi, hquiet, -⟩ hc hs
  refine ⟨step_inv hi hs, hquiet.step hc hs, ?_⟩
  obtain ⟨qs, bs, hq⟩ := hi.queues
  obtain ⟨-, -, -, hf | ⟨-, ht, t, r, -, hr, hstage⟩⟩ := hq.step hi.phases hs
  · exact hf
  · exact absurd hstage (hquiet ht t r hr)

/-- **The thread is there when it is woken**, in a run in which the release does not
    take it away between the queueing of a request and the wake-up. -/
theorem no_null_wake (h : RunIf (step handle notify) Settled (init tree₀) s) :
    s.fault = none := (settled_inv h).2.2

/-- A caller waits while the thread is taken away. -/
theorem no_null_wake_released : ∃ s : State (List ℕ) ℕ,
    RunIf (step (fun l n => (n :: l, 0)) true) Settled (init []) s ∧
      s.thread = false ∧ s.requests = some 3 ∧ s.fault = none := by
  have h₁ : RunIf (step (fun l n => (n :: l, 0)) true) Settled
      (init [] : State (List ℕ) ℕ) _ := Relation.ReflTransGen.refl
  have h₂ := h₁.snoc (a := .enter 3 5) nofun rfl
  have h₃ := h₂.snoc (a := .push 3) nofun rfl
  have h₄ := h₃.snoc (a := .release) (fun _ h => nomatch h) rfl
  have h₅ := h₄.snoc (a := .wake 3) nofun rfl
  have h₆ := h₅.snoc (a := .release) (by
    intro _ _ t r hr
    by_cases ht : t = 3
    · subst ht
      cases hr
      exact nofun
    · simp [wakeUp, setReq, init, ht] at hr) rfl
  exact ⟨_, h₆, rfl, rfl, no_null_wake h₆⟩

/-- Taken away in between, it is not. -/
theorem null_wake (hf : s.fault = none) (hrel : s.release = .unhooked)
    (hr : s.reqs t = some r) (hstage : r.stage = .queued) :
    ∃ s₁ s₂, step handle notify s .release = some s₁ ∧
      step handle notify s₁ (.wake t) = some s₂ ∧ s₂.fault = some .nullWake := by
  refine ⟨{ s with thread := false, release := .cleared },
    { s with thread := false, release := .cleared, fault := some .nullWake }, ?_, ?_, rfl⟩
  · simp [step, hf, act, State.releaseStep, hrel]
  · simp [step, hf, act, State.wake, hr, hstage]

end State

end DroidLkm.Devtmpfs
