/-
  User namespaces of the module — lifetime and order.

  * `Names`: somebody holds the pointer; `Known`: it is that of the initial namespace,
    or of one on the list;
  * `Inv`: what is held is known, what a task has not installed yet is not held, and
    the parents and levels are a tree under the initial namespace;
  * `nothing_dangles`: no pointer that is held ever dangles, in whatever order the hooks run,
    fail and are overtaken.
-/
import DroidLkm.Lib.Ancestry
import DroidLkm.Userns.Machine

namespace DroidLkm.Userns

open Machine Ancestry

/-- Somebody holds the pointer: credentials, an inode, an owned object, a link, or a
    child. -/
inductive State.Names (s : State) : UserNs → Prop
  | cred {i : ℕ} {c : Cred} (h : s.creds i = some c) : s.Names c.userNs
  | ref {r : ℕ} {ns : UserNs} (h : s.refs r = some ns) : s.Names ns
  | child {a : ℕ} {u : UserNamespace} (h : s.heap a = some u) : s.Names u.parent

namespace State

variable (s : State)

/-- The initial namespace, or one on the list. -/
def Known : UserNs → Prop
  | .init => True
  | .fake a => a ∈ s.list

def parentOf : UserNs → UserNs
  | .init => .init
  | .fake a => match s.heap a with
    | some u => u.parent
    | none => .init

def levelOf : UserNs → ℕ
  | .init => 0
  | .fake a => match s.heap a with
    | some u => u.level
    | none => 0

end State

/-- What `create` makes: at most 33 levels down, the identity for its maps. -/
structure UserNamespace.Right (u : UserNamespace) : Prop where
  level : 1 ≤ u.level ∧ u.level ≤ 33
  unsLevel : u.unsLevel = u.level
  flags : u.flags = USERNS_INIT_FLAGS
  maps : u.uidMap = identity ∧ u.gidMap = identity ∧ u.mapWritten = true

namespace State

structure Inv (s : State) : Prop where
  heap : ∀ a, a ∈ s.list ↔ (s.heap a).isSome
  nodup : s.list.Nodup
  known : ∀ ns, s.Names ns → s.Known ns
  levelled : Levelled s.parentOf s.levelOf .init s.Known
  object : ∀ a u, s.heap a = some u → u.Right
  numbered : ∀ a u, s.heap a = some u → u.inum ∈ s.inums
  numbers : ∀ a b u v, s.heap a = some u → s.heap b = some v → u.inum = v.inum → a = b
  hidden : ∀ t u, s.pending t = some u → u ∈ s.list ∧ ¬s.Names (.fake u)
  once : ∀ t t' u, s.pending t = some u → s.pending t' = some u → t = t'

variable {s s' : State} {t u i : ℕ} {c cur : Cred} {ns : UserNs} {e : Alloc}

/-! ## Tables -/

theorem update_some {α : Type} {f : ℕ → Option α} {a b : ℕ} {x y : α}
    (h : Function.update f a (some x) b = some y) : b = a ∧ y = x ∨ b ≠ a ∧ f b = some y := by
  by_cases hb : b = a
  · subst hb
    rw [Function.update_self, Option.some.injEq] at h
    exact .inl ⟨rfl, h.symm⟩
  · rw [Function.update_of_ne hb] at h
    exact .inr ⟨hb, h⟩

theorem update_none {α : Type} {f : ℕ → Option α} {a b : ℕ} {y : α}
    (h : Function.update f a none b = some y) : b ≠ a ∧ f b = some y := by
  by_cases hb : b = a
  · subst hb
    rw [Function.update_self] at h
    cases h
  · rw [Function.update_of_ne hb] at h
    exact ⟨hb, h⟩

/-! ## What the hooks find -/

theorem cred_names (h : s.cred t = some c) : s.Names c.userNs := by
  obtain ⟨i, -, hi⟩ := Option.bind_eq_some_iff.1 h
  exact .cred hi

theorem usernsOf_some (h : s.usernsOf t = some u) :
    u ∈ s.list ∧ ∃ c, s.cred t = some c ∧ c.userNs = .fake u := by
  unfold usernsOf at h
  split at h
  · cases h
  next c hc =>
  split at h
  · cases h
  next a ha =>
  split at h
  · next hours =>
    cases h
    exact ⟨by simpa [isOurs] using hours, c, hc, ha⟩
  · cases h

/-- Of a task `droid_lkm_userns_of` finds the namespace, if it is not the initial one. -/
theorem Inv.usernsOf_iff (h : s.Inv) : s.usernsOf t = some u ↔
    ∃ c, s.cred t = some c ∧ c.userNs = .fake u := by
  constructor
  · exact fun hu => (usernsOf_some hu).2
  · rintro ⟨c, hc, hu⟩
    have hk := h.known _ (cred_names hc)
    rw [hu] at hk
    simp only [usernsOf, hc, hu]
    exact if_pos (List.contains_iff_mem.2 hk)

/-- The pointers that the wrappers hand on are those of credentials, or the initial one. -/
theorem owner_names : s.nsproxyOwner t cur = .init ∨ s.Names (s.nsproxyOwner t cur) := by
  unfold nsproxyOwner
  split
  next u hu =>
    obtain ⟨-, c, hc, hns⟩ := usernsOf_some hu
    split
    · exact .inr (hns ▸ cred_names hc)
    · exact .inl rfl
  · exact .inl rfl

theorem fsctx_names : s.fsctxOwner t = .init ∨ s.Names (s.fsctxOwner t) := by
  unfold fsctxOwner
  split
  next u hu =>
    obtain ⟨-, c, hc, hns⟩ := usernsOf_some hu
    exact .inr (hns ▸ cred_names hc)
  · exact .inl rfl

/-! ## Steps that make and free nothing -/

/-- What is newly held is known, and no task is still about to install it. -/
theorem Inv.move (h : s.Inv) (hh : s'.heap = s.heap) (hl : s'.list = s.list)
    (hi : s'.inums = s.inums) (hp : ∀ t u, s'.pending t = some u → s.pending t = some u)
    (hn : ∀ ns, s'.Names ns →
      s.Names ns ∨ s.Known ns ∧ ∀ t u, s'.pending t = some u → ns ≠ .fake u) : s'.Inv := by
  have hk : s'.Known = s.Known := by
    ext ns
    cases ns <;> simp [Known, hl]
  have hparent : s'.parentOf = s.parentOf := by
    ext ns
    cases ns <;> simp [parentOf, hh]
  have hlevel : s'.levelOf = s.levelOf := by
    ext ns
    cases ns <;> simp [levelOf, hh]
  constructor
  · simpa only [hh, hl] using h.heap
  · simpa only [hl] using h.nodup
  · intro ns hns
    rw [hk]
    rcases hn ns hns with hns | hns
    · exact h.known ns hns
    · exact hns.1
  · simpa only [hk, hparent, hlevel] using h.levelled
  · simpa only [hh] using h.object
  · simpa only [hh, hi] using h.numbered
  · simpa only [hh] using h.numbers
  · intro t u hpend
    have hu := h.hidden t u (hp t u hpend)
    refine ⟨hl ▸ hu.1, fun hns => ?_⟩
    rcases hn _ hns with hns | hns
    · exact hu.2 hns
    · exact hns.2 t u hpend rfl
  · exact fun t t' u h₁ h₂ => h.once t t' u (hp t u h₁) (hp t' u h₂)

/-- New credentials hold what they name. -/
theorem names_creds
    (h : ({ s with creds := Function.update s.creds i (some c) } : State).Names ns) :
    s.Names ns ∨ ns = c.userNs := by
  cases h with
  | cred hc =>
    rcases update_some hc with ⟨-, rfl⟩ | ⟨-, hc⟩
    · exact .inr rfl
    · exact .inl (.cred hc)
  | ref hr => exact .inl (.ref hr)
  | child hu => exact .inl (.child hu)

theorem names_setRef {r : ℕ} {ns' : UserNs} (h : (s.setRef r ns').Names ns) :
    s.Names ns ∨ ns = ns' := by
  cases h with
  | cred hc => exact .inl (.cred hc)
  | ref hr =>
    rcases update_some hr with ⟨-, rfl⟩ | ⟨-, hr⟩
    · exact .inr rfl
    · exact .inl (.ref hr)
  | child hu => exact .inl (.child hu)

/-- Where tasks and their parents change, what is held stays. -/
theorem Names.of_eq (h : s'.Names ns) (hh : s'.heap = s.heap) (hc : s'.creds = s.creds)
    (hr : s'.refs = s.refs) : s.Names ns := by
  cases h with
  | cred h => exact .cred (hc ▸ h)
  | ref h => exact .ref (hr ▸ h)
  | child h => exact .child (hh ▸ h)

theorem Inv.setRef (h : s.Inv) {r : ℕ} (hns : ns = .init ∨ s.Names ns) : (s.setRef r ns).Inv := by
  refine h.move rfl rfl rfl (fun _ _ => id) fun ns' hns' => ?_
  rcases names_setRef hns' with hn | rfl
  · exact .inl hn
  · rcases hns with rfl | hns
    · exact .inr ⟨trivial, nofun⟩
    · exact .inl hns

/-! ## Making and freeing -/

/-- `create` gives the task a namespace of its own at a free address, one level below
    that of the task, or leaves all as it was. -/
theorem Inv.create (h : s.Inv) (hf : e.fresh s = true) :
    s.create (s.usernsOf t) cur e = (s, none) ∨ ∃ a n uns, s.heap a = none ∧ n ∉ s.inums ∧
      s.create (s.usernsOf t) cur e = ({ s with
        heap := Function.update s.heap a (some uns)
        list := s.list ++ [a]
        inums := insert n s.inums }, some a) ∧
      uns.Right ∧ uns.inum = n ∧ uns.level = s.levelOf uns.parent + 1 ∧
      ((uns.parent = .init ∧ s.usernsOf t = none) ∨
        ∃ p, uns.parent = .fake p ∧ s.usernsOf t = some p) := by
  simp only [Alloc.fresh, Bool.and_eq_true] at hf
  unfold State.create
  cases hk : e.kzalloc with
  | none => exact .inl (by dsimp only; split <;> rfl)
  | some a =>
    cases hn : e.inum with
    | none => exact .inl (by dsimp only; split <;> rfl)
    | some n =>
      have ha : s.heap a = none := by simpa [hk] using hf.1
      have hin : n ∉ s.inums := by simpa [hn] using hf.2
      cases hp : s.usernsOf t with
      | none =>
        exact .inr ⟨a, n, _, ha, hin, rfl, ⟨by simp, rfl, rfl, rfl, rfl, rfl⟩, rfl, rfl,
          .inl ⟨rfl, rfl⟩⟩
      | some p =>
        obtain ⟨pu, hpu⟩ := Option.isSome_iff_exists.1 ((h.heap p).1 (usernsOf_some hp).1)
        have hr := h.object p pu hpu
        simp only [Option.bind_some, hpu, Option.any_some, decide_eq_true_eq]
        split
        · exact .inl rfl
        next hle =>
          refine .inr ⟨a, n, _, ha, hin, rfl, ⟨?_, rfl, hr.flags, rfl, rfl, rfl⟩, rfl, ?_,
            .inr ⟨p, rfl, rfl⟩⟩
          · have := hr.level
            dsimp only
            omega
          · simp [levelOf, hpu]

/-- Parents and levels are those from before, but for the address that has changed. -/
theorem parentOf_update {a : ℕ} {o : Option UserNamespace}
    (hh : s'.heap = Function.update s.heap a o) (hne : ns ≠ .fake a) :
    s'.parentOf ns = s.parentOf ns ∧ s'.levelOf ns = s.levelOf ns := by
  cases ns with
  | init => exact ⟨rfl, rfl⟩
  | fake b =>
    have hb : b ≠ a := fun hb => hne (hb ▸ rfl)
    simp [parentOf, levelOf, hh, hb]

theorem Inv.known_ne (h : s.Inv) {a : ℕ} (ha : s.heap a = none) (hk : s.Known ns) :
    ns ≠ .fake a := by
  rintro rfl
  have := (h.heap a).1 hk
  simp [ha] at this

/-- A new namespace below one that is held, which the task is about to install. -/
theorem Inv.add (h : s.Inv) {a n : ℕ} {uns : UserNamespace} (ha : s.heap a = none)
    (hn : n ∉ s.inums) (hright : uns.Right) (hnum : uns.inum = n)
    (hlev : uns.level = s.levelOf uns.parent + 1) (hheld : uns.parent = .init ∨ s.Names uns.parent)
    (hheap : s'.heap = Function.update s.heap a (some uns)) (hlist : s'.list = s.list ++ [a])
    (hins : s'.inums = insert n s.inums)
    (hpend : s'.pending = Function.update s.pending t (some a))
    (hcreds : s'.creds = s.creds) (hrefs : s'.refs = s.refs) : s'.Inv := by
  have hnot : a ∉ s.list := by simp [h.heap, ha]
  have hup : s.Known uns.parent := by
    rcases hheld with hp | hp
    · exact hp ▸ trivial
    · exact h.known _ hp
  have hknown (ns : UserNs) : s'.Known ns ↔ s.Known ns ∨ ns = .fake a := by
    cases ns <;> simp [Known, hlist]
  have hold (b : ℕ) (u : UserNamespace) (hu : s'.heap b = some u) :
      b = a ∧ u = uns ∨ b ≠ a ∧ s.heap b = some u := update_some (hheap ▸ hu)
  have hwait (r u : ℕ) (hu : s'.pending r = some u) :
      r = t ∧ u = a ∨ r ≠ t ∧ s.pending r = some u := update_some (hpend ▸ hu)
  have hnames (ns : UserNs) (hns : s'.Names ns) : ns = .init ∨ s.Names ns := by
    cases hns with
    | cred hc => exact .inr (.cred (hcreds ▸ hc))
    | ref hr => exact .inr (.ref (hrefs ▸ hr))
    | child hu =>
      rcases hold _ _ hu with ⟨-, rfl⟩ | ⟨-, hu⟩
      · exact hheld
      · exact .inr (.child hu)
  constructor
  · intro b
    by_cases hb : b = a <;> simp [hlist, hheap, hb, h.heap]
  · rw [hlist, List.nodup_append]
    simp only [List.mem_singleton]
    refine ⟨h.nodup, List.nodup_singleton _, ?_⟩
    rintro b hb _ rfl rfl
    exact hnot hb
  · intro ns hns
    rcases hnames ns hns with rfl | hns
    · trivial
    · exact (hknown ns).2 (.inl (h.known ns hns))
  · refine ⟨⟨trivial, rfl⟩, fun ns hns hne => ?_⟩
    rcases (hknown ns).1 hns with hk | rfl
    · obtain ⟨h₁, h₂⟩ := h.levelled.node ns hk hne
      obtain ⟨hp, hl⟩ := parentOf_update hheap (h.known_ne ha hk)
      rw [hp, hl, (parentOf_update hheap (h.known_ne ha h₁)).2]
      exact ⟨(hknown _).2 (.inl h₁), h₂⟩
    · have hp : s'.parentOf (.fake a) = uns.parent := by simp [parentOf, hheap]
      have hl : s'.levelOf (.fake a) = uns.level := by simp [levelOf, hheap]
      rw [hp, hl, (parentOf_update hheap (h.known_ne ha hup)).2]
      exact ⟨(hknown _).2 (.inl hup), hlev⟩
  · intro b u hu
    rcases hold b u hu with ⟨-, rfl⟩ | ⟨-, hu⟩
    · exact hright
    · exact h.object b u hu
  · intro b u hu
    rw [hins, Finset.mem_insert]
    rcases hold b u hu with ⟨-, rfl⟩ | ⟨-, hu⟩
    · exact .inl hnum
    · exact .inr (h.numbered b u hu)
  · intro b d u v hu hv huv
    rcases hold b u hu with ⟨rfl, rfl⟩ | ⟨-, hu⟩ <;> rcases hold d v hv with ⟨rfl, rfl⟩ | ⟨-, hv⟩
    · rfl
    · exact absurd (h.numbered d v hv) (by rwa [← huv, hnum])
    · exact absurd (h.numbered b u hu) (by rwa [huv, hnum])
    · exact h.numbers b d u v hu hv huv
  · intro r u hu
    rcases hwait r u hu with ⟨-, rfl⟩ | ⟨-, hu⟩
    · refine ⟨by simp [hlist], fun hns => ?_⟩
      rcases hnames _ hns with hns | hns
      · cases hns
      · exact hnot (h.known _ hns)
    · refine ⟨by simp [hlist, (h.hidden r u hu).1], fun hns => ?_⟩
      rcases hnames _ hns with hns | hns
      · cases hns
      · exact (h.hidden r u hu).2 hns
  · intro r q u hr hq
    rcases hwait r u hr with ⟨rfl, rfl⟩ | ⟨-, hr⟩ <;> rcases hwait q _ hq with ⟨rfl, hu⟩ | ⟨-, hq⟩
    · rfl
    · exact absurd (h.hidden q _ hq).1 hnot
    · exact absurd (h.hidden r u hr).1 (hu ▸ hnot)
    · exact h.once r q u hr hq

theorem Inv.wrapBegin (h : s.Inv) (hf : e.fresh s = true) : (s.wrapBegin t cur e).Inv := by
  unfold State.wrapBegin
  rcases h.create (t := t) hf with he | ⟨a, n, uns, ha, hn, he, hright, hnum, hlev, hparent⟩
  · rw [he]
    exact h
  rw [he]
  refine h.add ha hn hright hnum hlev ?_ rfl rfl rfl rfl rfl rfl
  rcases hparent with ⟨hp, -⟩ | ⟨p, hp, ht⟩
  · exact .inl hp
  · obtain ⟨-, c, hc, hns⟩ := usernsOf_some ht
    rw [hp, ← hns]
    exact .inr (cred_names hc)

/-- What nobody holds can be freed. -/
theorem Inv.destroy (h : s.Inv) (hn : ¬s.Names (.fake u)) (hp : ∀ t, s.pending t ≠ some u) :
    (s.destroy u).Inv := by
  have hknown (ns : UserNs) : (s.destroy u).Known ns ↔ s.Known ns ∧ ns ≠ .fake u := by
    cases ns with
    | init => simp [Known]
    | fake a =>
      simp only [Known, State.destroy, h.nodup.mem_erase_iff, ne_eq, UserNs.fake.injEq]
      exact and_comm
  have hnames (ns : UserNs) (hns : (s.destroy u).Names ns) : s.Names ns := by
    cases hns with
    | cred hc => exact .cred hc
    | ref hr => exact .ref hr
    | child hv => exact .child (update_none hv).2
  have hold (b : ℕ) (v : UserNamespace) (hv : (s.destroy u).heap b = some v) :
      b ≠ u ∧ s.heap b = some v := update_none hv
  constructor
  · intro b
    by_cases hb : b = u <;> simp [State.destroy, hb, h.heap, h.nodup.mem_erase_iff]
  · exact h.nodup.erase u
  · intro ns hns
    refine (hknown ns).2 ⟨h.known ns (hnames ns hns), ?_⟩
    rintro rfl
    exact hn (hnames _ hns)
  · refine ⟨⟨trivial, rfl⟩, fun ns hns hne => ?_⟩
    obtain ⟨hk, hu⟩ := (hknown ns).1 hns
    obtain ⟨h₁, h₂⟩ := h.levelled.node ns hk hne
    have hup : s.parentOf ns ≠ .fake u := by
      cases ns with
      | init => exact absurd rfl hne
      | fake b =>
        obtain ⟨v, hv⟩ := Option.isSome_iff_exists.1 ((h.heap b).1 hk)
        have hpar : s.parentOf (.fake b) = v.parent := by simp [parentOf, hv]
        rw [hpar]
        intro he
        exact hn (he ▸ .child hv)
    have hheap : (s.destroy u).heap = Function.update s.heap u none := rfl
    obtain ⟨hpar, hlev⟩ := parentOf_update hheap hu
    rw [hpar, hlev, (parentOf_update hheap hup).2]
    exact ⟨(hknown _).2 ⟨h₁, hup⟩, h₂⟩
  · exact fun b v hv => h.object b v (hold b v hv).2
  · intro b v hv
    obtain ⟨hb, hv⟩ := hold b v hv
    cases hu : s.heap u with
    | none => simpa [State.destroy, hu] using h.numbered b v hv
    | some w =>
      simp only [State.destroy, hu, Finset.mem_erase]
      exact ⟨fun he => hb (h.numbers b u v w hv hu he), h.numbered b v hv⟩
  · exact fun b d v w hv hw => h.numbers b d v w (hold b v hv).2 (hold d w hw).2
  · intro t a ha
    have hau : a ≠ u := fun he => hp t (he ▸ ha)
    obtain ⟨hlist, hhid⟩ := h.hidden t a ha
    exact ⟨by simpa [State.destroy, h.nodup.mem_erase_iff, hau] using hlist,
      fun hns => hhid (hnames _ hns)⟩
  · exact h.once

/-! ## Every step -/

theorem Inv.clear (h : s.Inv) (t : ℕ) :
    ({ s with pending := Function.update s.pending t none } : State).Inv := by
  exact h.move rfl rfl rfl (fun r u hu => (update_none hu).2) fun ns hns =>
    .inl (hns.of_eq rfl rfl rfl)

theorem Inv.cleared (h : s.Inv) (hp : s.pending t = some u) (r : ℕ) :
    Function.update s.pending t none r ≠ some u := by
  intro hu
  obtain ⟨hr, hu⟩ := update_none hu
  exact hr (h.once r t u hu hp)

/-- A namespace that waits for its task is installed in new credentials. -/
theorem Inv.install (h : s.Inv) (hp : s.pending t = some u) (hh : s'.heap = s.heap)
    (hl : s'.list = s.list) (hi : s'.inums = s.inums)
    (hpend : s'.pending = Function.update s.pending t none)
    (hcreds : s'.creds = Function.update s.creds i (some c)) (hc : c.userNs = .fake u)
    (hrefs : s'.refs = s.refs) : s'.Inv := by
  refine (h.clear t).move hh hl hi (fun r v hv => by rwa [hpend] at hv) fun ns hns => ?_
  have hns' : ({ s with creds := Function.update s.creds i (some c) } : State).Names ns :=
    hns.of_eq hh hcreds hrefs
  rcases names_creds hns' with hn | rfl
  · exact .inl (hn.of_eq rfl rfl rfl)
  · refine .inr ⟨by rw [hc]; exact (h.hidden t u hp).1, fun r v hv he => ?_⟩
    rw [hc, UserNs.fake.injEq] at he
    subst he
    rw [hpend] at hv
    exact h.cleared hp r hv

theorem Inv.destroyed (h : s.Inv) (hp : s.pending t = some u) :
    ({ s with pending := Function.update s.pending t none } : State).destroy u |>.Inv :=
  (h.clear t).destroy (fun hn => (h.hidden t u hp).2 (hn.of_eq rfl rfl rfl)) (h.cleared hp)

theorem Inv.unshareEnd (h : s.Inv) (hp : s.pending t = some u) {ret : ℤ} {prepare : Option ℕ} :
    (s.unshareEnd t u cur ret prepare).Inv := by
  unfold State.unshareEnd
  dsimp only
  split
  · exact h.destroyed hp
  · cases prepare with
    | none => exact h.clear t
    | some i => exact h.install hp rfl rfl rfl rfl rfl rfl rfl

theorem Inv.credsEnd (h : s.Inv) (hp : s.pending t = some u) {ret : ℤ} :
    (s.credsEnd t u cur ret i).Inv := by
  unfold State.credsEnd
  dsimp only
  split
  · exact h.destroyed hp
  · exact h.install hp rfl rfl rfl rfl rfl rfl rfl

/-- New credentials in a namespace that is held already. -/
theorem Inv.copied (h : s.Inv) (hc : s.Names c.userNs) (hh : s'.heap = s.heap)
    (hl : s'.list = s.list) (hi : s'.inums = s.inums) (hpend : s'.pending = s.pending)
    (hcreds : s'.creds = Function.update s.creds i (some c)) (hrefs : s'.refs = s.refs) :
    s'.Inv := by
  refine h.move hh hl hi (fun r v hv => hpend ▸ hv) fun ns hns => .inl ?_
  have hns' : ({ s with creds := Function.update s.creds i (some c) } : State).Names ns :=
    hns.of_eq hh hcreds hrefs
  rcases names_creds hns' with hn | rfl
  · exact hn
  · exact hc

theorem Inv.step {a : Act} (h : s.Inv) (hs : Userns.step s a = some s') : s'.Inv := by
  unfold Userns.step at hs
  split at hs
  next j cur hj hcur =>
    have hheld := cred_names hcur
    split at hs
    · split at hs <;> cases hs
      exact h.wrapBegin ‹_›
    · split at hs <;> cases hs
      exact h.unshareEnd ‹_›
    · split at hs <;> cases hs
      exact h.credsEnd ‹_›
    · cases hs
      exact h.move rfl rfl rfl (fun _ _ => id) fun _ hn => .inl (hn.of_eq rfl rfl rfl)
    · split at hs <;> cases hs
      exact h.copied hheld rfl rfl rfl rfl rfl rfl
    · split at hs <;> cases hs
      next hc =>
        exact h.copied (hc.2 ▸ hheld) rfl rfl rfl rfl rfl rfl
    · cases hs
      exact h.move rfl rfl rfl (fun _ _ => id) fun _ hn => .inl (hn.of_eq rfl rfl rfl)
    · cases hs
      exact h.setRef (.inr hheld)
    · cases hs
      exact h.setRef owner_names
    · cases hs
      exact h.setRef fsctx_names
    · cases hs
      exact h.setRef fsctx_names
    · cases hs
  · cases hs

/-! ## Every run -/

theorem init_inv (hc : c.userNs = .init) : (Userns.init c).Inv := by
  have hnames (ns : UserNs) (hns : (Userns.init c).Names ns) : ns = .init := by
    cases hns with
    | cred hi =>
      simp only [Userns.init] at hi
      rcases update_some hi with ⟨-, rfl⟩ | ⟨-, hi⟩
      · exact hc
      · cases hi
    | ref hr => cases hr
    | child hu => cases hu
  constructor
  · intro a
    simp [Userns.init]
  · exact List.nodup_nil
  · intro ns hns
    rw [hnames ns hns]
    trivial
  · refine ⟨⟨trivial, rfl⟩, fun ns hk hne => ?_⟩
    cases ns with
    | init => exact absurd rfl hne
    | fake a => simp [Known, Userns.init] at hk
  all_goals simp [Userns.init]

theorem run_inv (hc : c.userNs = .init) (h : Run step (Userns.init c) s) : s.Inv :=
  h.inv (init_inv hc) fun _ _ _ hi hs => hi.step hs

/-- **Nothing dangles.**  In every run every pointer that somebody holds is that of the
    initial namespace or of one that has not been freed, what is freed is held by nobody, and
    from each namespace the parents lead up to the initial one, level by level. -/
theorem nothing_dangles (hc : c.userNs = .init) (h : Run step (Userns.init c) s) :
    s.Inv ∧ ∀ ns, s.Known ns → Below s.parentOf .init .init ns :=
  ⟨run_inv hc h, fun _ hk => (run_inv hc h).levelled.below_root hk⟩

end State

/-- Root, who unshares its user namespace and then asks for an inode. -/
def root : Cred := ⟨.init, 0, 0, 0, ∅, CAP_FULL_SET, CAP_FULL_SET, ∅, CAP_FULL_SET⟩

theorem nothing_dangles_unshare : ∃ s : State, s.Inv ∧ s.refs 5 = some (.fake 64) ∧
    Below s.parentOf .init .init (.fake 64) := by
  have h₁ : Run step (init root) _ :=
    RunIf.snoc (a := .wrap 0 ⟨some 64, some 7⟩) Relation.ReflTransGen.refl trivial rfl
  have h₂ := h₁.snoc (a := .unshared 0 0 (some 1)) trivial rfl
  have h₃ := h₂.snoc (a := .instantiate 0 5) trivial rfl
  obtain ⟨hinv, hbelow⟩ := State.nothing_dangles rfl h₃
  exact ⟨_, hinv, rfl, hbelow (.fake 64) (List.mem_singleton_self _)⟩

end DroidLkm.Userns
