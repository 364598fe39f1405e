/-
  User namespaces of the module — tasks only go down.

  * `Tasks`: what a task is about to install is right below the namespace it is in;
  * `Goes`: what a step does to credentials, and to who made whom;
  * `Family`: a task and those that it makes from some state on, and they;
  * `stays_below`: they are in the namespace that it was in, or in one below it.
-/
import DroidLkm.Userns.Lifetime

namespace DroidLkm.Userns

open Machine Ancestry

namespace State

variable {s s' : State} {t u i q : ℕ} {c cur : Cred} {e : Alloc}

/-! ## Parents -/

/-- What is known before and after a step has the parent that it had. -/
def Steady (s s' : State) : Prop := ∀ ns, s.Known ns → s'.Known ns → s'.parentOf ns = s.parentOf ns

theorem steady_of_eq (hh : s'.heap = s.heap) : Steady s s' := by
  intro ns _ _
  cases ns <;> simp [parentOf, hh]

theorem destroy_steady (h : s.Inv) (hh : s'.heap = s.heap) (hl : s'.list = s.list) :
    Steady s (s'.destroy u) := by
  intro ns hk hk'
  have hne : ns ≠ .fake u := by
    rintro rfl
    have : u ∈ s.list.erase u := hl ▸ hk'
    exact (h.nodup.mem_erase_iff.1 this).1 rfl
  have hheap : (s'.destroy u).heap = Function.update s.heap u none := by rw [← hh]; rfl
  exact (parentOf_update hheap hne).1

/-- Where the new credentials of a task are, seen from those that they come from: in the same
    namespace, or in one right below. -/
def Descends (s : State) (ns ns' : UserNs) : Prop :=
  ns' = ns ∨ ns' ≠ .init ∧ s.parentOf ns' = ns

/-! ## Tasks -/

/-- Tasks have credentials, were made by older ones, and what one is about to install is right
    below where it is. -/
structure Tasks (s : State) : Prop where
  creds : ∀ t i, s.tasks t = some i → t < s.nextTask ∧ (s.creds i).isSome
  forker : ∀ t, 0 < t → t < s.nextTask → s.forker t < t
  pos : 0 < s.nextTask
  pending : ∀ t u, s.pending t = some u →
    ∃ cur, s.cred t = some cur ∧ s.parentOf (.fake u) = cur.userNs

/-- Old credentials are those from before. -/
theorem cred_update (h : s.Tasks) (hi : s.creds i = none) (ht : s.tasks t = some q) :
    Function.update s.creds i (some c) q = s.creds q := by
  refine Function.update_of_ne ?_ _ _
  rintro rfl
  have := (h.creds t q ht).2
  simp [hi] at this

theorem cred_some (h : s.cred t = some c) : ∃ i, s.tasks t = some i ∧ s.creds i = some c :=
  Option.bind_eq_some_iff.1 h

theorem init_tasks (c : Cred) : (Userns.init c).Tasks := by
  constructor
  · intro t i h
    simp only [Userns.init] at h
    rcases update_some h with ⟨rfl, rfl⟩ | ⟨-, h⟩
    · simp [Userns.init]
    · cases h
  · intro t h0 h1
    simp [Userns.init] at h1
    omega
  · simp [Userns.init]
  · simp [Userns.init]

theorem cred_commit (h : s.Tasks) (hi : s.creds i = none) (q : ℕ) :
    (s.commitCreds t i c).cred q = if q = t then some c else s.cred q := by
  unfold cred commitCreds
  by_cases hq : q = t
  · simp [hq]
  · cases hj : s.tasks q with
    | none => simp [hq, hj]
    | some j => simp [hq, hj, cred_update h hi hj]

/-- The new task has the credentials at `i`, the others theirs. -/
theorem cred_newTask (h : s.Tasks) {cs : ℕ → Option Cred}
    (hcs : ∀ j, (s.creds j).isSome → cs j = s.creds j) (q : ℕ) :
    (({ s with creds := cs } : State).newTask t i).cred q =
      if q = s.nextTask then cs i else s.cred q := by
  unfold cred newTask
  by_cases hq : q = s.nextTask
  · simp [hq]
  · cases hj : s.tasks q with
    | none => simp [hq, hj]
    | some j => simp [hq, hj, hcs j (h.creds q j hj).2]

/-! ## Steps -/

/-- What a step does to credentials, and to who made whom. -/
structure Goes (s s' : State) : Prop where
  steady : Steady s s'
  next : s.nextTask ≤ s'.nextTask
  forker : ∀ q, q < s.nextTask → s'.forker q = s.forker q
  creds : ∀ q c', s'.cred q = some c' → ∃ p cur, s.cred p = some cur ∧
    s'.Descends cur.userNs c'.userNs ∧ (p = q ∨ s.nextTask ≤ q ∧ s'.forker q = p)

/-- Nothing of it changes. -/
theorem Goes.same (hst : Steady s s') (hc : s'.cred = s.cred) (hf : s'.forker = s.forker)
    (hn : s'.nextTask = s.nextTask) : Goes s s' where
  steady := hst
  next := hn.ge
  forker _ _ := by rw [hf]
  creds q c' hq := ⟨q, c', hc ▸ hq, .inl rfl, .inl rfl⟩

/-- What is about to be installed stays where it is, and so does the task. -/
theorem Tasks.next (h : s.Tasks) (hi : s.Inv) (hi' : s'.Inv) (hg : Goes s s')
    (hc : ∀ t i, s'.tasks t = some i → t < s'.nextTask ∧ (s'.creds i).isSome)
    (hf : ∀ t, s.nextTask ≤ t → t < s'.nextTask → s'.forker t < t)
    (hp : ∀ t u, s'.pending t = some u → (∃ cur cur', s.pending t = some u ∧
      s.cred t = some cur ∧ s'.cred t = some cur' ∧ cur'.userNs = cur.userNs) ∨
      ∃ cur, s'.cred t = some cur ∧ s'.parentOf (.fake u) = cur.userNs) : s'.Tasks where
  creds := hc
  forker t h0 ht := by
    by_cases hold : t < s.nextTask
    · rw [hg.forker t hold]
      exact h.forker t h0 hold
    · exact hf t (Nat.not_lt.1 hold) ht
  pos := Nat.lt_of_lt_of_le h.pos hg.next
  pending t u hu := by
    rcases hp t u hu with ⟨cur, cur', hu₀, hcur, hcur', heq⟩ | hnew
    · obtain ⟨cur₀, hcur₀, hpar⟩ := h.pending t u hu₀
      rw [hcur, Option.some.injEq] at hcur₀
      subst hcur₀
      refine ⟨cur', hcur', ?_⟩
      rw [hg.steady (.fake u) (hi.hidden t u hu₀).1 (hi'.hidden t u hu).1, hpar, heq]
    · exact hnew

/-- Steps that leave tasks and credentials alone. -/
theorem Tasks.same (h : s.Tasks) (hi : s.Inv) (hi' : s'.Inv) (hst : Steady s s')
    (hc : s'.creds = s.creds) (ht : s'.tasks = s.tasks) (hf : s'.forker = s.forker)
    (hn : s'.nextTask = s.nextTask)
    (hp : ∀ t u, s'.pending t = some u → s.pending t = some u ∨
      ∃ cur, s.cred t = some cur ∧ s'.parentOf (.fake u) = cur.userNs) :
    s'.Tasks ∧ Goes s s' := by
  have hcred : s'.cred = s.cred := by
    ext1 q
    rw [cred, cred, ht, hc]
  have hg := Goes.same hst hcred hf hn
  refine ⟨h.next hi hi' hg ?_ ?_ ?_, hg⟩
  · rw [ht, hn, hc]
    exact h.creds
  · intro t h1 h2
    rw [hn] at h2
    omega
  · intro t u hu
    rw [hcred]
    rcases hp t u hu with hu | hnew
    · obtain ⟨cur, hcur, -⟩ := h.pending t u hu
      exact .inl ⟨cur, cur, hu, hcur, hcur, rfl⟩
    · exact .inr hnew

/-- A task gets new credentials. -/
theorem Tasks.commit (h : s.Tasks) (hi : s.Inv) {p : ℕ → Option ℕ}
    (hi' : ({ s with pending := p } : State).commitCreds t i c |>.Inv) (hnone : s.creds i = none)
    (hcur : s.cred t = some cur) (hd : s.Descends cur.userNs c.userNs)
    (hp : ∀ r u, p r = some u → s.pending r = some u ∧ (r = t → c.userNs = cur.userNs)) :
    (({ s with pending := p } : State).commitCreds t i c).Tasks ∧
      Goes s (({ s with pending := p } : State).commitCreds t i c) := by
  have hcred (q : ℕ) : (({ s with pending := p } : State).commitCreds t i c).cred q =
      if q = t then some c else s.cred q := cred_commit h hnone q
  have hg : Goes s (({ s with pending := p } : State).commitCreds t i c) := by
    refine ⟨steady_of_eq rfl, le_rfl, fun _ _ => rfl, fun q c' hq => ?_⟩
    rw [hcred] at hq
    split at hq
    · next hqt =>
      cases hq
      exact ⟨t, cur, hcur, hd, .inl hqt.symm⟩
    · exact ⟨q, c', hq, .inl rfl, .inl rfl⟩
  refine ⟨h.next hi hi' hg (fun r j hj => ?_) (fun r h1 h2 => absurd h2 (Nat.not_lt.2 h1))
    fun r u hu => ?_, hg⟩
  · rcases update_some hj with ⟨rfl, rfl⟩ | ⟨-, hj'⟩
    · obtain ⟨k, hk, -⟩ := cred_some hcur
      exact ⟨(h.creds r k hk).1, by simp [commitCreds]⟩
    · refine ⟨(h.creds r j hj').1, ?_⟩
      simp only [commitCreds, cred_update h hnone hj']
      exact (h.creds r j hj').2
  · obtain ⟨hu, ht⟩ := hp r u hu
    obtain ⟨cur', hcur', -⟩ := h.pending r u hu
    refine .inl ⟨cur', if r = t then c else cur', hu, hcur', ?_, ?_⟩
    · rw [hcred]
      split <;> simp [hcur']
    · split
      · next hr =>
        subst hr
        rw [hcur, Option.some.injEq] at hcur'
        rw [ht rfl, hcur']
      · rfl

/-- A task is made. -/
theorem Tasks.fork (h : s.Tasks) (hi : s.Inv) {p : ℕ → Option ℕ} {cs : ℕ → Option Cred}
    (hi' : (({ s with pending := p, creds := cs } : State).newTask t i).Inv)
    (hcs : ∀ j, (s.creds j).isSome → cs j = s.creds j) (hc : cs i = some c)
    (hcur : s.cred t = some cur) (hd : s.Descends cur.userNs c.userNs)
    (hp : ∀ r u, p r = some u → s.pending r = some u) :
    (({ s with pending := p, creds := cs } : State).newTask t i).Tasks ∧
      Goes s (({ s with pending := p, creds := cs } : State).newTask t i) := by
  have hcred (q : ℕ) : (({ s with pending := p, creds := cs } : State).newTask t i).cred q =
      if q = s.nextTask then cs i else s.cred q := cred_newTask (t := t) h hcs q
  obtain ⟨k, hk, -⟩ := cred_some hcur
  have hlt := (h.creds t k hk).1
  have hg : Goes s (({ s with pending := p, creds := cs } : State).newTask t i) := by
    refine ⟨steady_of_eq rfl, Nat.le_succ _, fun q hq => ?_, fun q c' hq => ?_⟩
    · exact Function.update_of_ne (Nat.ne_of_lt hq) _ _
    · rw [hcred] at hq
      split at hq
      · next hqn =>
        rw [hc, Option.some.injEq] at hq
        subst hq
        exact ⟨t, cur, hcur, hd, .inr ⟨hqn.ge, by rw [hqn]; exact Function.update_self ..⟩⟩
      · exact ⟨q, c', hq, .inl rfl, .inl rfl⟩
  refine ⟨h.next hi hi' hg (fun r j hj => ?_) (fun r h1 h2 => ?_) fun r u hu => ?_, hg⟩
  · rcases update_some hj with ⟨rfl, rfl⟩ | ⟨-, hj'⟩
    · exact ⟨Nat.lt_succ_self _, by simp [newTask, hc]⟩
    · obtain ⟨h1, h2⟩ := h.creds r j hj'
      refine ⟨Nat.lt_succ_of_lt h1, ?_⟩
      simp only [newTask, hcs j h2]
      exact h2
  · obtain rfl : r = s.nextTask := Nat.le_antisymm (Nat.lt_succ_iff.1 h2) h1
    have hself : (({ s with pending := p, creds := cs } : State).newTask t i).forker s.nextTask =
        t := Function.update_self ..
    rwa [hself]
  · obtain ⟨cur', hcur', -⟩ := h.pending r u (hp r u hu)
    obtain ⟨j, hj, -⟩ := cred_some hcur'
    have hne : r ≠ s.nextTask := Nat.ne_of_lt (h.creds r j hj).1
    exact .inl ⟨cur', cur', hp r u hu, hcur', by rw [hcred, if_neg hne, hcur'], rfl⟩

/-- A task that is about to install a namespace is right above it. -/
theorem Tasks.installs (h : s.Tasks) (hu : s.pending t = some u) (hcur : s.cred t = some cur) :
    s.Descends cur.userNs (installCred c u).userNs := by
  obtain ⟨cur', hcur', hpar⟩ := h.pending t u hu
  rw [hcur, Option.some.injEq] at hcur'
  exact .inr ⟨nofun, hcur' ▸ hpar⟩

theorem fresh_none (h : freshCred s (some i) = true) : s.creds i = none := by
  simpa [freshCred] using h

theorem freshCred_ne (h : freshCred s (some i) = true) (j : ℕ) (hj : (s.creds j).isSome) :
    Function.update s.creds i (some c) j = s.creds j := by
  refine Function.update_of_ne ?_ _ _
  rintro rfl
  simp [fresh_none h] at hj

theorem Tasks.wrapBegin (h : s.Tasks) (hi : s.Inv) (hf : e.fresh s = true)
    (hcur : s.cred t = some cur) :
    (s.wrapBegin t cur e).Tasks ∧ Goes s (s.wrapBegin t cur e) := by
  have hi' : (s.wrapBegin t cur e).Inv := hi.wrapBegin hf
  revert hi'
  unfold State.wrapBegin
  rcases hi.create (t := t) hf with he | ⟨a, n, uns, ha, -, he, -, -, -, hparent⟩
  · rw [he]
    intro hi'
    exact h.same hi hi (steady_of_eq rfl) rfl rfl rfl rfl fun _ _ hu => .inl hu
  rw [he]
  dsimp only
  intro hi'
  refine h.same hi hi' (fun ns hk _ => ?_) rfl rfl rfl rfl fun r u hu => ?_
  · exact (parentOf_update rfl (hi.known_ne ha hk)).1
  · rcases update_some hu with ⟨rfl, rfl⟩ | ⟨-, hu⟩
    · refine .inr ⟨cur, hcur, ?_⟩
      simp only [parentOf, Function.update_self]
      rcases hparent with ⟨hp, hnone⟩ | ⟨p, hp, hsome⟩
      · rw [hp]
        cases hns : cur.userNs with
        | init => rfl
        | fake v =>
          rw [hi.usernsOf_iff.2 ⟨cur, hcur, hns⟩] at hnone
          cases hnone
      · obtain ⟨-, cur', hcur', hns⟩ := usernsOf_some hsome
        rw [hcur, Option.some.injEq] at hcur'
        rw [hp, hcur', hns]
    · exact .inl hu

theorem Tasks.exit (h : s.Tasks) (hi : s.Inv)
    (hi' : ({ s with tasks := Function.update s.tasks t none } : State).Inv)
    (hu : s.pending t = none) :
    ({ s with tasks := Function.update s.tasks t none } : State).Tasks ∧
      Goes s { s with tasks := Function.update s.tasks t none } := by
  have hcred (q : ℕ) : ({ s with tasks := Function.update s.tasks t none } : State).cred q =
      if q = t then none else s.cred q := by
    unfold cred
    by_cases hq : q = t <;> simp [hq]
  have hg : Goes s { s with tasks := Function.update s.tasks t none } := by
    refine ⟨steady_of_eq rfl, le_rfl, fun _ _ => rfl, fun q c' hq => ?_⟩
    rw [hcred] at hq
    split at hq
    · cases hq
    · exact ⟨q, c', hq, .inl rfl, .inl rfl⟩
  refine ⟨h.next hi hi' hg (fun r j hj => ?_) (fun r h1 h2 => absurd h2 (Nat.not_lt.2 h1))
    fun r u hr => ?_, hg⟩
  · exact h.creds r j (update_none hj).2
  · have hne : r ≠ t := by
      rintro rfl
      rw [hu] at hr
      cases hr
    obtain ⟨cur, hcur, -⟩ := h.pending r u hr
    exact .inl ⟨cur, cur, hr, hcur, by rw [hcred, if_neg hne, hcur], rfl⟩

/-- **One step.** -/
theorem Tasks.step {a : Act} (h : s.Tasks) (hi : s.Inv) (hs : Userns.step s a = some s') :
    s'.Tasks ∧ Goes s s' := by
  have hi' := hi.step hs
  unfold Userns.step at hs
  split at hs
  next j cur hj hcur =>
    split at hs
    · split at hs <;> cases hs
      exact h.wrapBegin hi ‹_› hcur
    next t ret prepare u hu =>
      split at hs <;> cases hs
      next hfresh =>
      revert hi'
      unfold State.unshareEnd
      dsimp only
      split
      · intro hi'
        exact h.same hi hi' (destroy_steady hi rfl rfl) rfl rfl rfl rfl
          fun r v hv => .inl (update_none hv).2
      · intro hi'
        cases prepare with
        | none =>
          exact h.same hi hi' (steady_of_eq rfl) rfl rfl rfl rfl
            fun r v hv => .inl (update_none hv).2
        | some i =>
          exact h.commit hi hi' (fresh_none hfresh) hcur (h.installs hu hcur)
            fun r v hv => ⟨(update_none hv).2, fun hr => absurd hr (update_none hv).1⟩
    next t ret i u hu =>
      split at hs <;> cases hs
      next hfresh =>
      revert hi'
      unfold State.credsEnd
      dsimp only
      split
      · intro hi'
        exact h.same hi hi' (destroy_steady hi rfl rfl) rfl rfl rfl rfl
          fun r v hv => .inl (update_none hv).2
      · intro hi'
        exact h.fork hi hi' (freshCred_ne hfresh) (Function.update_self ..) hcur
          (h.installs hu hcur) fun r v hv => (update_none hv).2
    next t hu =>
      cases hs
      obtain ⟨k, hk, hck⟩ := cred_some hcur
      obtain rfl : k = j := Option.some.inj (hk.symm.trans hj)
      exact h.fork hi hi' (fun _ _ => rfl) hck hcur (.inl rfl) fun _ _ => id
    next t i hu =>
      split at hs <;> cases hs
      next hfresh =>
      exact h.fork hi hi' (freshCred_ne hfresh) (Function.update_self ..) hcur (.inl rfl)
        fun _ _ => id
    next t i c hx =>
      split at hs <;> cases hs
      next hc =>
      exact h.commit hi hi' (fresh_none hc.1) hcur (.inl hc.2) fun _ _ hv => ⟨hv, fun _ => hc.2⟩
    next t hu =>
      cases hs
      exact h.exit hi hi' hu
    all_goals cases hs
    · exact h.same hi hi' (steady_of_eq rfl) rfl rfl rfl rfl fun _ _ => .inl
    · exact h.same hi hi' (steady_of_eq rfl) rfl rfl rfl rfl fun _ _ => .inl
    · exact h.same hi hi' (steady_of_eq rfl) rfl rfl rfl rfl fun _ _ => .inl
    · exact h.same hi hi' (steady_of_eq rfl) rfl rfl rfl rfl fun _ _ => .inl
  · cases hs

/-! ## Only down -/

/-- The task itself and, from `s` on, its children, their children and so on. -/
inductive Family (s s' : State) (t : ℕ) : ℕ → Prop
  | self : Family s s' t t
  | child {q : ℕ} (hq : s.nextTask ≤ q) (hf : Family s s' t (s'.forker q)) : Family s s' t q

/-- A way up is a way up after the step, if it starts at what is still there. -/
theorem Goes.below (h : Goes s s') (hi : s.Inv) (hi' : s'.Inv) {n a : UserNs}
    (hb : Below s.parentOf .init a n) (hn : s.Known n) (hn' : s'.Known n) :
    Below s'.parentOf .init a n := by
  induction hb with
  | refl => exact .refl
  | up hne _ ih =>
    refine .up hne ?_
    have h₁ := (hi.levelled.node _ hn hne).1
    have h₂ := (hi'.levelled.node _ hn' hne).1
    rw [h.steady _ hn hn'] at h₂ ⊢
    exact ih h₁ h₂

theorem Family.back {x y : State} (hg : Goes x y) (ht : x.Tasks) (h0 : 0 < s.nextTask)
    (h : Family s y t q) (hq : q < x.nextTask) : Family s x t q := by
  induction h with
  | self => exact .self
  | child hle _ ih =>
    rw [hg.forker _ hq] at ih
    have := ht.forker _ (by omega) hq
    exact .child hle (ih (by omega))

/-- From `s` on, the task and those that it has made are in `u` or below it, up to `x`. -/
structure Contained (s x : State) (t : ℕ) (u : UserNs) : Prop where
  inv : x.Inv
  tasks : x.Tasks
  next : s.nextTask ≤ x.nextTask
  below : ∀ q c', Family s x t q → x.cred q = some c' → Below x.parentOf .init u c'.userNs

theorem Contained.step {x y : State} {a : Act} {u : UserNs} (h : Contained s x t u)
    (hlt : t < s.nextTask) (hs : Userns.step x a = some y) : Contained s y t u := by
  have h0 : 0 < s.nextTask := Nat.zero_lt_of_lt hlt
  have hiy := h.inv.step hs
  obtain ⟨hty, hg⟩ := h.tasks.step h.inv hs
  refine ⟨hiy, hty, h.next.trans hg.next, fun q c' hf hcq => ?_⟩
  obtain ⟨p, cur, hcur, hd, hpq⟩ := hg.creds q c' hcq
  have hfam : Family s x t p := by
    obtain ⟨j, hj, -⟩ := cred_some hcur
    have hp := (h.tasks.creds p j hj).1
    have hnext := h.next
    rcases hpq with rfl | ⟨hnew, hfork⟩
    · exact hf.back hg h.tasks h0 hp
    · cases hf with
      | self => omega
      | child _ hf =>
        rw [hfork] at hf
        exact hf.back hg h.tasks h0 hp
  have hup := h.below p cur hfam hcur
  have hkx := h.inv.known _ (cred_names hcur)
  have hky' := hiy.known _ (cred_names hcq)
  rcases hd with heq | ⟨hne, hpar⟩
  · rw [heq] at hky' ⊢
    exact hg.below h.inv hiy hup hkx hky'
  · have hky := (hiy.levelled.node _ hky' hne).1
    refine .up hne ?_
    rw [hpar] at hky ⊢
    exact hg.below h.inv hiy hup hkx hky

theorem contained {c₀ : Cred} (hc : c.userNs = .init) (h₀ : Run step (Userns.init c) s)
    (h : Run step s s') (ht : s.cred t = some c₀) : Contained s s' t c₀.userNs := by
  have hboth : s.Inv ∧ s.Tasks := h₀.inv (I := fun x => x.Inv ∧ x.Tasks)
    ⟨init_inv hc, init_tasks c⟩ fun x a y hx hs => ⟨hx.1.step hs, (hx.2.step hx.1 hs).1⟩
  obtain ⟨i, hi, -⟩ := cred_some ht
  have hlt := (hboth.2.creds t i hi).1
  refine h.inv (I := fun x => Contained s x t c₀.userNs) ?_ fun x a y hx hs =>
    hx.step hlt hs
  refine ⟨hboth.1, hboth.2, le_rfl, fun q c' hf hcq => ?_⟩
  cases hf with
  | self =>
    rw [ht, Option.some.injEq] at hcq
    exact hcq ▸ .refl
  | child hle _ =>
    obtain ⟨j, hj, -⟩ := cred_some hcq
    exact absurd (hboth.2.creds q j hj).1 (Nat.not_lt.2 hle)

/-- **Only down.**  Wherever a run leads to, a task and those that it has made since are in
    the namespace that the task was in, or in one below it. -/
theorem stays_below {c₀ c' : Cred} (hc : c.userNs = .init) (h₀ : Run step (Userns.init c) s)
    (h : Run step s s') (ht : s.cred t = some c₀) (hq : Family s s' t q)
    (hc' : s'.cred q = some c') : Below s'.parentOf .init c₀.userNs c'.userNs :=
  (contained hc h₀ h ht).below q c' hq hc'

end State

/-- Root in a namespace of its own. -/
def down : State := ((init root).wrapBegin 0 root ⟨some 64, some 7⟩).unshareEnd 0 64 root 0 (some 1)

theorem down_reached : Run step (init root) down := by
  have h₁ : Run step (init root) _ :=
    RunIf.snoc (a := .wrap 0 ⟨some 64, some 7⟩) Relation.ReflTransGen.refl trivial rfl
  exact h₁.snoc (a := .unshared 0 0 (some 1)) trivial rfl

/-- A child of it in a namespace further down. -/
def child : State :=
  (down.wrapBegin 0 (installCred root 64) ⟨some 128, some 8⟩).credsEnd 0 128 (installCred root 64)
    0 2

theorem child_reached : Run step down child := by
  have h₁ : Run step down _ :=
    RunIf.snoc (a := .wrap 0 ⟨some 128, some 8⟩) Relation.ReflTransGen.refl trivial rfl
  exact h₁.snoc (a := .cloned 0 0 2) trivial rfl

theorem stays_below_clone : ∃ s : State, s.usernsOf 1 = some 128 ∧
    Below s.parentOf .init (.fake 64) (.fake 128) := by
  have hroot : down.cred 0 = some (installCred root 64) := rfl
  refine ⟨child, rfl, State.stays_below (t := 0) (q := 1) rfl down_reached child_reached hroot ?_
    rfl⟩
  exact .child (Nat.le_refl 1) .self

end DroidLkm.Userns
