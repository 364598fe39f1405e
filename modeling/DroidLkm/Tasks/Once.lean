/-
  The deferred cleanup of tasks — each entry is cleaned up once.

  * `Phase`: where an entry is; `At` says what that means for the state;
  * `Agree`: every entry is in one place, kept by every step;
  * `cleaned_once`: what follows when the last drain leaves nothing.
-/
import DroidLkm.Tasks.Drain

namespace DroidLkm.Tasks.Drain

open Machine

variable {s s' : St} {act : Act} {c d e x t : ℕ} {p q : ℕ}

/-- Where an entry is. -/
inductive Phase where
  | unborn
  /-- allocated, with a call of `droid_lkm_task_ipc_get` -/
  | fresh (c : ℕ)
  /-- freed there, as there was one already -/
  | dropped
  | hashed
  | marked
  | held
  | listed
  | inDrain (d : Drainer) (st : Stage)
  | done
  deriving DecidableEq

namespace Phase

def inHt : Phase → Bool
  | hashed | marked | held | listed => true
  | inDrain _ .popped | inDrain _ .undone | inDrain _ .shmDone => true
  | _ => false

def queued : Phase → Bool
  | marked | held | listed | inDrain .. | done => true
  | _ => false

def inDeferred : Phase → Bool
  | listed => true
  | _ => false

def isMarked : Phase → Bool
  | marked => true
  | _ => false

def isHeld : Phase → Bool
  | held => true
  | _ => false

def isUnborn : Phase → Bool
  | unborn => true
  | _ => false

def stage : Phase → Drainer → Option Stage
  | inDrain d st, d' => if d' = d then some st else none
  | _, _ => none

def getter : Phase → Option ℕ
  | fresh c => some c
  | _ => none

def count : Phase → Count
  | dropped => ⟨0, 0, 0, 1, 0, 0⟩
  | held | listed | inDrain _ .popped => ⟨0, 0, 0, 0, 1, 0⟩
  | inDrain _ .undone => ⟨1, 0, 0, 0, 1, 0⟩
  | inDrain _ .shmDone => ⟨1, 1, 0, 0, 1, 0⟩
  | inDrain _ .unhashed => ⟨1, 1, 1, 0, 1, 0⟩
  | inDrain _ .freed => ⟨1, 1, 1, 1, 1, 0⟩
  | done => ⟨1, 1, 1, 1, 1, 1⟩
  | _ => ⟨0, 0, 0, 0, 0, 0⟩

theorem eq_unborn {p : Phase} (h : p.isUnborn = true) : p = unborn := by
  cases p <;> first | rfl | cases h

theorem eq_marked {p : Phase} (h : p.isMarked = true) : p = marked := by
  cases p <;> first | rfl | cases h

theorem eq_held {p : Phase} (h : p.isHeld = true) : p = held := by
  cases p <;> first | rfl | cases h

theorem eq_listed {p : Phase} (h : p.inDeferred = true) : p = listed := by
  cases p <;> first | rfl | cases h

theorem eq_fresh {p : Phase} {c : ℕ} (h : p.getter = some c) : p = fresh c := by
  cases p <;> first | cases h
  rfl

theorem eq_inDrain {p : Phase} {d : Drainer} {st : Stage} (h : p.stage d = some st) :
    p = inDrain d st := by
  cases p with
  | inDrain d' st' =>
    change (if d = d' then some st' else none) = some st at h
    split at h
    next hd =>
      cases h
      rw [hd]
    · cases h
  | _ => cases h

theorem eq_hashed {p : Phase} (h : p.inHt = true) (hq : p.queued = false) : p = hashed := by
  cases p with
  | hashed => rfl
  | unborn | fresh | dropped => cases h
  | marked | held | listed | inDrain | done => cases hq

end Phase

/-- What the phase of an entry means. -/
structure At (s : St) (e : ℕ) (p : Phase) : Prop where
  ht : e ∈ s.ht ↔ p.inHt = true
  deferred : e ∈ s.deferred ↔ p.inDeferred = true
  marked : .marked e ∈ s.hooks ↔ p.isMarked = true
  held : .held e ∈ s.hooks ↔ p.isHeld = true
  drain : ∀ d st, s.drain d = some (st, e) ↔ p.stage d = some st
  getter : ∀ c, s.getter c = .fresh e ↔ p.getter = some c
  queued : s.deferQueued e = p.queued
  count : s.count e = p.count
  next : s.next ≤ e ↔ p.isUnborn = true

/-- Every entry is in one place, and the table has one for each task. -/
structure Agree (s : St) (φ : ℕ → Phase) : Prop where
  «at» : ∀ e, At s e (φ e)
  htNodup : s.ht.Nodup
  deferredNodup : s.deferred.Nodup
  hooksNodup : s.hooks.Nodup
  unique : ∀ e e', e ∈ s.ht → e' ∈ s.ht → s.task e = s.task e' → e = e'

variable {φ : ℕ → Phase} {q : Phase}

/-- One entry moves on. -/
theorem Agree.move (h : Agree s φ) (hat : At s' e q)
    (hother : ∀ x p, x ≠ e → At s x p → At s' x p) (hht : s'.ht.Nodup)
    (hdef : s'.deferred.Nodup) (hhooks : s'.hooks.Nodup)
    (hun : ∀ a b, a ∈ s'.ht → b ∈ s'.ht → s'.task a = s'.task b → a = b) :
    Agree s' (Function.update φ e q) := by
  refine ⟨fun x => ?_, hht, hdef, hhooks, hun⟩
  rw [Function.update_apply]
  split
  next hx => exact hx ▸ hat
  next hx => exact hother x _ hx (h.at x)

theorem findLocked_some (h : s.findLocked t = some e) : e ∈ s.ht ∧ s.task e = t := by
  have htask := List.find?_some h
  exact ⟨List.mem_of_find?_eq_some h, by simpa using htask⟩

theorem findLocked_none (h : s.findLocked t = none) (hx : x ∈ s.ht) : s.task x ≠ t := by
  have := List.find?_eq_none.1 h x hx
  simpa using this

/-- The entry of a task is found. -/
theorem Agree.find (h : Agree s φ) (he : e ∈ s.ht) : s.findLocked (s.task e) = some e := by
  cases hf : s.findLocked (s.task e) with
  | none => exact absurd rfl (findLocked_none hf he)
  | some x =>
    obtain ⟨hx, htask⟩ := findLocked_some hf
    rw [h.unique x e hx he htask]

theorem At.congr (h : At s x q) (hht : x ∈ s'.ht ↔ x ∈ s.ht)
    (hdef : x ∈ s'.deferred ↔ x ∈ s.deferred)
    (hmarked : .marked x ∈ s'.hooks ↔ .marked x ∈ s.hooks)
    (hheld : .held x ∈ s'.hooks ↔ .held x ∈ s.hooks)
    (hdrain : ∀ d st, s'.drain d = some (st, x) ↔ s.drain d = some (st, x))
    (hgetter : ∀ c, s'.getter c = .fresh x ↔ s.getter c = .fresh x)
    (hqueued : s'.deferQueued x = s.deferQueued x) (hcount : s'.count x = s.count x)
    (hnext : s'.next ≤ x ↔ s.next ≤ x) : At s' x q where
  ht := hht.trans h.ht
  deferred := hdef.trans h.deferred
  marked := hmarked.trans h.marked
  held := hheld.trans h.held
  drain := fun d st => (hdrain d st).trans (h.drain d st)
  getter := fun c => (hgetter c).trans (h.getter c)
  queued := hqueued.trans h.queued
  count := hcount.trans h.count
  next := hnext.trans h.next

/-- No entry is touched. -/
theorem Agree.same (h : Agree s φ) (hht : s'.ht = s.ht) (htask : s'.task = s.task)
    (hqueued : s'.deferQueued = s.deferQueued) (hnext : s'.next = s.next)
    (hdef : s'.deferred = s.deferred) (hgetter : s'.getter = s.getter)
    (hhooks : s'.hooks = s.hooks) (hdrain : s'.drain = s.drain) (hcount : s'.count = s.count) :
    Agree s' φ := by
  refine ⟨fun x => (h.at x).congr ?_ ?_ ?_ ?_ ?_ ?_ ?_ ?_ ?_, ?_, ?_, ?_, ?_⟩
  · rw [hht]
  · rw [hdef]
  · rw [hhooks]
  · rw [hhooks]
  · rw [hdrain]
    exact fun _ _ => Iff.rfl
  · rw [hgetter]
    exact fun _ => Iff.rfl
  · rw [hqueued]
  · rw [hcount]
  · rw [hnext]
  · rw [hht]
    exact h.htNodup
  · rw [hdef]
    exact h.deferredNodup
  · rw [hhooks]
    exact h.hooksNodup
  · rw [hht, htask]
    exact h.unique

/-! ## `droid_lkm_task_ipc_get` -/

theorem find_cases (hs : step s (.find c t) = some s') :
    s.getter c = .idle ∧ (s' = s ∨ s' = s.setGetter c (.missed t)) := by
  unfold step at hs
  dsimp only at hs
  split at hs
  next hc =>
    refine ⟨hc, ?_⟩
    split at hs
    · exact .inl (Option.some.inj hs).symm
    · exact .inr (Option.some.inj hs).symm
  · cases hs

theorem alloc_cases {noMem : Bool} (hs : step s (.alloc c noMem) = some s') :
    ∃ t, s.getter c = .missed t ∧ (s' = s.setGetter c .idle ∨
      s' = { s.setGetter c (.fresh s.next) with
        next := s.next + 1
        task := Function.update s.task s.next t
        deferQueued := Function.update s.deferQueued s.next false }) := by
  unfold step at hs
  dsimp only at hs
  split at hs
  next t hc =>
    refine ⟨t, hc, ?_⟩
    split at hs
    · exact .inl (Option.some.inj hs).symm
    · exact .inr (Option.some.inj hs).symm
  · cases hs

theorem add_cases (hs : step s (.add c) = some s') : ∃ e, s.getter c = .fresh e ∧
    (s' = (s.setGetter c .idle).setCount e (fun n => { n with free := n.free + 1 }) ∨
      s.findLocked (s.task e) = none ∧ s' = { s.setGetter c .idle with ht := e :: s.ht }) := by
  unfold step at hs
  dsimp only at hs
  split at hs
  next e hc =>
    refine ⟨e, hc, ?_⟩
    split at hs
    · exact .inl (Option.some.inj hs).symm
    next hfind => exact .inr ⟨hfind, (Option.some.inj hs).symm⟩
  · cases hs

/-- A call lets go of its entry, or has a new one. -/
theorem setGetter_iff {y : Getter} {b : ℕ} (hx : y ≠ .fresh x)
    (hold : s.getter c ≠ .fresh x) :
    (s.setGetter c y).getter b = .fresh x ↔ s.getter b = .fresh x := by
  change Function.update s.getter c y b = _ ↔ _
  rw [Function.update_apply]
  split
  next hb =>
    subst hb
    exact ⟨fun h => absurd h hx, fun h => absurd h hold⟩
  · exact Iff.rfl

theorem Agree.setGetter (h : Agree s φ) {y : Getter} (hy : ∀ x, y ≠ .fresh x)
    (hold : ∀ x, s.getter c ≠ .fresh x) : Agree (s.setGetter c y) φ :=
  ⟨fun x => (h.at x).congr Iff.rfl Iff.rfl Iff.rfl Iff.rfl (fun _ _ => Iff.rfl)
    (fun _ => setGetter_iff (hy x) (hold x)) rfl rfl Iff.rfl,
    h.htNodup, h.deferredNodup, h.hooksNodup, h.unique⟩

theorem Agree.alloc (h : Agree s φ) (hc : s.getter c = .missed t) :
    Agree { s.setGetter c (.fresh s.next) with
      next := s.next + 1
      task := Function.update s.task s.next t
      deferQueued := Function.update s.deferQueued s.next false }
      (Function.update φ s.next (.fresh c)) := by
  have hA := h.at s.next
  rw [Phase.eq_unborn (hA.next.1 (Nat.le_refl _))] at hA
  have hnot : ∀ a, a ∈ s.ht → a ≠ s.next := by
    rintro a ha rfl
    cases hA.ht.1 ha
  refine h.move ⟨hA.ht, hA.deferred, hA.marked, hA.held, hA.drain, fun b => ?_,
    Function.update_self .., hA.count, ?_⟩ (fun x q hx hq => ?_) h.htNodup h.deferredNodup
    h.hooksNodup fun a b ha hb hab => ?_
  · change Function.update s.getter c _ b = _ ↔ some c = some b
    rw [Function.update_apply]
    split
    next hb => simp [hb]
    next hb =>
      constructor
      · intro hg
        cases (hA.getter b).1 hg
      · intro hcb
        exact absurd (Option.some.inj hcb).symm hb
  · constructor
    · intro hle
      exact absurd hle (Nat.not_succ_le_self _)
    · rintro ⟨⟩
  · refine hq.congr Iff.rfl Iff.rfl Iff.rfl Iff.rfl (fun _ _ => Iff.rfl)
      (fun b => setGetter_iff ?_ ?_) (Function.update_of_ne hx ..) rfl ?_
    · simpa using Ne.symm hx
    · rw [hc]
      simp
    · dsimp only
      omega
  · dsimp only at hab
    rw [Function.update_of_ne (hnot a ha), Function.update_of_ne (hnot b hb)] at hab
    exact h.unique a b ha hb hab

/-- A call gives its entry away. -/
theorem setGetter_idle (h : Agree s φ) (hc : s.getter c = .fresh e) :
    (∀ b, ¬(s.setGetter c .idle).getter b = .fresh e) ∧
      ∀ x b, x ≠ e → ((s.setGetter c .idle).getter b = .fresh x ↔ s.getter b = .fresh x) := by
  refine ⟨fun b hb => ?_, fun x b hx => setGetter_iff (fun hf => by cases hf) ?_⟩
  · change Function.update s.getter c .idle b = _ at hb
    rw [Function.update_apply] at hb
    split at hb
    · cases hb
    next hne =>
      have hg := ((h.at e).getter b).1 hb
      rw [((h.at e).getter c).1 hc] at hg
      exact hne (Option.some.inj hg).symm
  · rw [hc]
    simpa using Ne.symm hx

/-- There is an entry for the task already. -/
theorem Agree.drop (h : Agree s φ) (hc : s.getter c = .fresh e) :
    Agree ((s.setGetter c .idle).setCount e fun n => { n with free := n.free + 1 })
      (Function.update φ e .dropped) := by
  have hA := h.at e
  rw [Phase.eq_fresh ((hA.getter c).1 hc)] at hA
  obtain ⟨hgot, hkeep⟩ := setGetter_idle h hc
  refine h.move ⟨hA.ht, hA.deferred, hA.marked, hA.held, hA.drain,
    fun b => iff_of_false (hgot b) (fun hb => by cases hb), hA.queued, ?_, hA.next⟩
    (fun x q hx hq => ?_) h.htNodup h.deferredNodup h.hooksNodup h.unique
  · refine (Function.update_self ..).trans ?_
    change { s.count e with free := (s.count e).free + 1 } = _
    rw [hA.count]
    rfl
  · exact hq.congr Iff.rfl Iff.rfl Iff.rfl Iff.rfl (fun _ _ => Iff.rfl) (hkeep x · hx) rfl
      (Function.update_of_ne hx ..) Iff.rfl

/-- The entry that a call has allocated goes into the table. -/
theorem Agree.add (h : Agree s φ) (hc : s.getter c = .fresh e)
    (hfind : s.findLocked (s.task e) = none) :
    Agree { s.setGetter c .idle with ht := e :: s.ht } (Function.update φ e .hashed) := by
  have hA := h.at e
  rw [Phase.eq_fresh ((hA.getter c).1 hc)] at hA
  obtain ⟨hgot, hkeep⟩ := setGetter_idle h hc
  have hnot : e ∉ s.ht := fun he => by cases hA.ht.1 he
  have hnone : ∀ x, x ∈ s.ht → s.task x ≠ s.task e := fun x hx => findLocked_none hfind hx
  refine h.move ⟨iff_of_true List.mem_cons_self rfl, hA.deferred, hA.marked, hA.held, hA.drain,
    fun b => iff_of_false (hgot b) (fun hb => by cases hb), hA.queued, hA.count, hA.next⟩
    (fun x q hx hq => ?_) (List.nodup_cons.2 ⟨hnot, h.htNodup⟩) h.deferredNodup h.hooksNodup
    fun a b ha hb hab => ?_
  · refine hq.congr ?_ Iff.rfl Iff.rfl Iff.rfl (fun _ _ => Iff.rfl) (hkeep x · hx) rfl rfl Iff.rfl
    exact List.mem_cons.trans (or_iff_right hx)
  · change s.task a = s.task b at hab
    rcases List.mem_cons.1 ha with hae | ha'
    · rcases List.mem_cons.1 hb with hbe | hb'
      · exact hae.trans hbe.symm
      · rw [hae] at hab
        exact absurd hab.symm (hnone b hb')
    · rcases List.mem_cons.1 hb with hbe | hb'
      · rw [hbe] at hab
        exact absurd hab (hnone a ha')
      · exact h.unique a b ha' hb' hab

/-! ## The hook -/

theorem Agree.exit (h : Agree s φ) (he : e ∈ s.ht) (hq : s.deferQueued e = false) :
    Agree { s with
      deferQueued := Function.update s.deferQueued e true
      hooks := .marked e :: s.hooks } (Function.update φ e .marked) := by
  have hA := h.at e
  rw [Phase.eq_hashed (hA.ht.1 he) (hA.queued.symm.trans hq)] at hA
  have hnot : Hook.marked e ∉ s.hooks := fun hm => by cases hA.marked.1 hm
  refine h.move ⟨hA.ht, hA.deferred, iff_of_true List.mem_cons_self rfl, ?_, hA.drain, hA.getter,
    Function.update_self .., hA.count, hA.next⟩ (fun x q hx hq => ?_) h.htNodup h.deferredNodup
    (List.nodup_cons.2 ⟨hnot, h.hooksNodup⟩) h.unique
  · exact (List.mem_cons.trans (or_iff_right (fun hf => by cases hf))).trans hA.held
  · refine hq.congr Iff.rfl Iff.rfl ?_ ?_ (fun _ _ => Iff.rfl) (fun _ => Iff.rfl)
      (Function.update_of_ne hx ..) rfl Iff.rfl
    · exact List.mem_cons.trans (or_iff_right (fun hf => hx (Hook.marked.inj hf)))
    · exact List.mem_cons.trans (or_iff_right (fun hf => by cases hf))

theorem Agree.mem_erase (h : Agree s φ) (y z : Hook) :
    z ∈ s.hooks.erase y ↔ z ≠ y ∧ z ∈ s.hooks := h.hooksNodup.mem_erase_iff

theorem Agree.hookGet (h : Agree s φ) (he : .marked e ∈ s.hooks) :
    Agree ({ s with hooks := .held e :: s.hooks.erase (.marked e) }.setCount e
      fun n => { n with get := n.get + 1 }) (Function.update φ e .held) := by
  have hA := h.at e
  rw [Phase.eq_marked (hA.marked.1 he)] at hA
  have hnot : Hook.held e ∉ s.hooks := fun hm => by cases hA.held.1 hm
  have hmem : ∀ z, z ∈ Hook.held e :: s.hooks.erase (.marked e) ↔
      z = .held e ∨ z ≠ .marked e ∧ z ∈ s.hooks := by
    intro z
    rw [List.mem_cons, h.mem_erase]
  refine h.move ⟨hA.ht, hA.deferred, (hmem _).trans (iff_of_false ?_ (fun hf => by cases hf)),
    iff_of_true List.mem_cons_self rfl, hA.drain, hA.getter, hA.queued, ?_, hA.next⟩
    (fun x q hx hq => ?_) h.htNodup h.deferredNodup
    (List.nodup_cons.2 ⟨fun hm => hnot ((h.mem_erase _ _).1 hm).2, h.hooksNodup.erase _⟩) h.unique
  · rintro (hf | ⟨hf, -⟩)
    · cases hf
    · exact hf rfl
  · refine (Function.update_self ..).trans ?_
    change { s.count e with get := (s.count e).get + 1 } = _
    rw [hA.count]
    rfl
  · refine hq.congr Iff.rfl Iff.rfl ((hmem _).trans ?_) ((hmem _).trans ?_) (fun _ _ => Iff.rfl)
      (fun _ => Iff.rfl) rfl (Function.update_of_ne hx ..) Iff.rfl
    · simp [hx]
    · simp [hx]

theorem Agree.hookAdd (h : Agree s φ) (he : .held e ∈ s.hooks) :
    Agree { s with hooks := s.hooks.erase (.held e), deferred := s.deferred ++ [e] }
      (Function.update φ e .listed) := by
  have hA := h.at e
  rw [Phase.eq_held (hA.held.1 he)] at hA
  have hnot : e ∉ s.deferred := fun hm => by cases hA.deferred.1 hm
  refine h.move ⟨hA.ht, iff_of_true (List.mem_append_right _ List.mem_cons_self) rfl,
    (h.mem_erase _ _).trans ?_, (h.mem_erase _ _).trans (iff_of_false (fun hf => hf.1 rfl) ?_),
    hA.drain, hA.getter, hA.queued, hA.count, hA.next⟩ (fun x q hx hq => ?_) h.htNodup
    (List.nodup_append.2 ⟨h.deferredNodup, List.nodup_singleton e, fun a ha b hb => ?_⟩)
    (h.hooksNodup.erase _) h.unique
  · exact (and_iff_right (fun hf => by cases hf)).trans hA.marked
  · rintro ⟨⟩
  · refine hq.congr Iff.rfl ?_ ((h.mem_erase _ _).trans ?_) ((h.mem_erase _ _).trans ?_)
      (fun _ _ => Iff.rfl) (fun _ => Iff.rfl) rfl rfl Iff.rfl
    · simp [hx]
    · simp
    · simp [hx]
  · rw [List.mem_singleton.1 hb]
    rintro rfl
    exact hnot ha

/-! ## `droid_lkm_task_ipc_deferred_run` -/

theorem setDrain_iff {d d' : Drainer} {st : Stage} {y : Option (Stage × ℕ)}
    (hy : ∀ st', y ≠ some (st', x)) (hold : ∀ st', s.drain d ≠ some (st', x)) :
    Function.update s.drain d y d' = some (st, x) ↔ s.drain d' = some (st, x) := by
  rw [Function.update_apply]
  split
  next hd =>
    subst hd
    exact iff_of_false (hy st) (hold st)
  · exact Iff.rfl

theorem Agree.pop (h : Agree s φ) {d : Drainer} {rest : List ℕ} (hd : s.drain d = none)
    (hdef : s.deferred = e :: rest) :
    Agree ({ s with deferred := rest }.setDrain d (some (.popped, e)))
      (Function.update φ e (.inDrain d .popped)) := by
  have hA := h.at e
  rw [Phase.eq_listed (hA.deferred.1 (by rw [hdef]; exact List.mem_cons_self))] at hA
  have hnodup := h.deferredNodup
  rw [hdef] at hnodup
  obtain ⟨hnot, hrest⟩ := List.nodup_cons.1 hnodup
  refine h.move ⟨hA.ht, iff_of_false hnot (fun hf => by cases hf), hA.marked, hA.held,
    fun d' st' => ?_, hA.getter, hA.queued, hA.count, hA.next⟩ (fun x q hx hq => ?_) h.htNodup
    hrest h.hooksNodup h.unique
  · change Function.update s.drain d _ d' = _ ↔ (if d' = d then some Stage.popped else none) = _
    rw [Function.update_apply]
    split
    · simp
    next hne =>
      refine iff_of_false (fun hf => ?_) (fun hf => by cases hf)
      cases (hA.drain d' st').1 hf
  · refine hq.congr Iff.rfl ?_ Iff.rfl Iff.rfl (fun d' st' => setDrain_iff ?_ ?_)
      (fun _ => Iff.rfl) rfl rfl Iff.rfl
    · rw [hdef]
      exact (List.mem_cons.trans (or_iff_right hx)).symm
    · simp [Ne.symm hx]
    · simp [hd]

/-- Where an entry is when the drainer has done the next thing to it. -/
def Phase.after (d : Drainer) : Option Stage → Phase
  | some st => .inDrain d st
  | none => .done

theorem Agree.stage (h : Agree s φ) {d : Drainer} {st : Stage} (hd : s.drain d = some (st, e))
    (o : Option Stage) {n : Count} (hn : n = (Phase.after d o).count) {ht' : List ℕ}
    (hsub : ht'.Sublist s.ht) (he : e ∈ ht' ↔ (Phase.after d o).inHt = true)
    (hne : ∀ x, x ≠ e → (x ∈ ht' ↔ x ∈ s.ht)) :
    Agree { s with
      ht := ht'
      drain := Function.update s.drain d (o.map (·, e))
      count := Function.update s.count e n } (Function.update φ e (Phase.after d o)) := by
  have hA := h.at e
  rw [Phase.eq_inDrain ((hA.drain d st).1 hd)] at hA
  have hdrain : ∀ d' st', Function.update s.drain d (o.map (·, e)) d' = some (st', e) ↔
      (Phase.after d o).stage d' = some st' := by
    intro d' st'
    rw [Function.update_apply]
    split
    next hdd =>
      cases o with
      | none => exact iff_of_false (fun hf => by cases hf) (fun hf => by cases hf)
      | some st₁ => simp [Phase.after, Phase.stage, hdd]
    next hdd =>
      refine iff_of_false (fun hf => ?_) (fun hf => ?_)
      · have hst := (hA.drain d' st').1 hf
        change (if d' = d then some st else none) = some st' at hst
        rw [if_neg hdd] at hst
        cases hst
      · cases o with
        | none => cases hf
        | some st₁ =>
          change (if d' = d then some st₁ else none) = some st' at hf
          rw [if_neg hdd] at hf
          cases hf
  refine h.move ⟨he, ?_, ?_, ?_, hdrain, fun c => ?_, ?_, (Function.update_self ..).trans hn, ?_⟩
    (fun x q hx hq => ?_) (h.htNodup.sublist hsub) h.deferredNodup h.hooksNodup
    fun a b ha hb hab => h.unique a b (hsub.subset ha) (hsub.subset hb) hab
  · cases o <;> exact hA.deferred
  · cases o <;> exact hA.marked
  · cases o <;> exact hA.held
  · cases o <;> exact hA.getter c
  · cases o <;> exact hA.queued
  · cases o <;> exact hA.next
  · refine hq.congr (hne x hx) Iff.rfl Iff.rfl Iff.rfl (fun d' st' => setDrain_iff ?_ ?_)
      (fun _ => Iff.rfl) rfl (Function.update_of_ne hx ..) Iff.rfl
    · cases o with
      | none => simp
      | some st₁ => simp [Ne.symm hx]
    · simp [hd, Ne.symm hx]

/-- **A step of a drain** keeps every entry in one place. -/
theorem Agree.deferredRun (h : Agree s φ) (d : Drainer) : ∃ φ', Agree (s.deferredRun d) φ' := by
  unfold St.deferredRun
  split
  next hd =>
    split
    · cases d
      · exact ⟨φ, h.same rfl rfl rfl rfl rfl rfl rfl rfl rfl⟩
      · exact ⟨φ, h.same rfl rfl rfl rfl rfl rfl rfl rfl rfl⟩
    next e rest hdef => exact ⟨_, h.pop hd hdef⟩
  next e hd =>
    have hA := h.at e
    rw [Phase.eq_inDrain ((hA.drain _ _).1 hd)] at hA
    have he := hA.ht.2 rfl
    have hfind : (s.setDrain d (some (.undone, e))).findLocked
        ((s.setDrain d (some (.undone, e))).task e) = some e := h.find he
    dsimp only
    rw [hfind]
    refine ⟨_, h.stage hd (some .undone) ?_ (List.Sublist.refl _) (iff_of_true he rfl)
      fun _ _ => Iff.rfl⟩
    change { s.count e with undo := (s.count e).undo + 1 } = _
    rw [hA.count]
    rfl
  next e hd =>
    have hA := h.at e
    rw [Phase.eq_inDrain ((hA.drain _ _).1 hd)] at hA
    have he := hA.ht.2 rfl
    have hfind : (s.setDrain d (some (.shmDone, e))).findLocked
        ((s.setDrain d (some (.shmDone, e))).task e) = some e := h.find he
    dsimp only
    rw [hfind]
    refine ⟨_, h.stage hd (some .shmDone) ?_ (List.Sublist.refl _) (iff_of_true he rfl)
      fun _ _ => Iff.rfl⟩
    change { s.count e with shm := (s.count e).shm + 1 } = _
    rw [hA.count]
    rfl
  next e hd =>
    have hA := h.at e
    rw [Phase.eq_inDrain ((hA.drain _ _).1 hd)] at hA
    refine ⟨_, h.stage hd (some .unhashed) ?_ List.erase_sublist
      (h.htNodup.mem_erase_iff.trans (iff_of_false (fun hf => hf.1 rfl) (fun hf => by cases hf)))
      fun x hx => h.htNodup.mem_erase_iff.trans (and_iff_right hx)⟩
    change { s.count e with hashDel := (s.count e).hashDel + 1 } = _
    rw [hA.count]
    rfl
  next e hd =>
    have hA := h.at e
    rw [Phase.eq_inDrain ((hA.drain _ _).1 hd)] at hA
    refine ⟨_, h.stage hd (some .freed) ?_ (List.Sublist.refl _) hA.ht fun _ _ => Iff.rfl⟩
    change { s.count e with free := (s.count e).free + 1 } = _
    rw [hA.count]
    rfl
  next e hd =>
    have hA := h.at e
    rw [Phase.eq_inDrain ((hA.drain _ _).1 hd)] at hA
    refine ⟨_, h.stage hd none ?_ (List.Sublist.refl _) hA.ht fun _ _ => Iff.rfl⟩
    change { s.count e with put := (s.count e).put + 1 } = _
    rw [hA.count]
    rfl

/-! ## The steps -/

theorem zapFn_cases (hs : s.zapFn = some s') :
    (s.worker = .test ∧
      s' = { s with worker := if s.mod = .stopping then .ended else .waiting }) ∨
    (s.worker = .waiting ∧ s' = { s with worker := .zapping }) ∨
    (s.worker = .zapping ∧ s' = { s with worker := .draining }) ∨
    (∃ p rest, s.worker = .zapping ∧ s.zapList = p :: rest ∧ s' = { s with
      zapList := rest
      zapTaken := Function.update s.zapTaken p (s.zapTaken p + 1) }) ∨
    (s.worker = .keepalive ∧ s' = { s with worker := .test }) := by
  unfold St.zapFn at hs
  split at hs
  next hw => exact .inl ⟨hw, (Option.some.inj hs).symm⟩
  next hw => exact .inr (.inl ⟨hw, (Option.some.inj hs).symm⟩)
  next hw =>
    split at hs
    · exact .inr (.inr (.inl ⟨hw, (Option.some.inj hs).symm⟩))
    next p rest hl =>
      exact .inr (.inr (.inr (.inl ⟨p, rest, hw, hl, (Option.some.inj hs).symm⟩)))
  next hw => exact .inr (.inr (.inr (.inr ⟨hw, (Option.some.inj hs).symm⟩)))
  · cases hs
  · cases hs

theorem exitMod_cases (hs : s.exitMod = some s') :
    (s.mod = .running ∧ s' = { s with mod := .draining }) ∨
    (s.mod = .drained ∧ s.hooks = [] ∧ s' = { s with mod := .unhooked }) ∨
    (s.mod = .unhooked ∧ s' = { s with mod := .stopping }) ∨
    (s.mod = .stopping ∧ s.worker = .ended ∧ s' = { s with mod := .joined }) ∨
    (s.mod = .joined ∧ s' = { s with mod := .finished, zapList := [] }) := by
  unfold St.exitMod at hs
  split at hs
  next hm => exact .inl ⟨hm, (Option.some.inj hs).symm⟩
  · cases hs
  · cases hs
  next hm =>
    split at hs
    next hh => exact .inr (.inl ⟨hm, hh, (Option.some.inj hs).symm⟩)
    · cases hs
  next hm => exact .inr (.inr (.inl ⟨hm, (Option.some.inj hs).symm⟩))
  next hm =>
    split at hs
    next hw => exact .inr (.inr (.inr (.inl ⟨hm, hw, (Option.some.inj hs).symm⟩)))
    · cases hs
  next hm => exact .inr (.inr (.inr (.inr ⟨hm, (Option.some.inj hs).symm⟩)))

theorem exit_cases (hs : step s (.exit t) = some s') : s.hooked = true ∧
    (s' = s ∨ ∃ e, s.findLocked t = some e ∧ s.deferQueued e = false ∧ s' = { s with
      deferQueued := Function.update s.deferQueued e true
      hooks := .marked e :: s.hooks }) := by
  unfold step at hs
  dsimp only at hs
  split at hs
  next hh =>
    refine ⟨hh, ?_⟩
    split at hs
    · exact .inl (Option.some.inj hs).symm
    next e hfind =>
      split at hs
      · exact .inl (Option.some.inj hs).symm
      next hq => exact .inr ⟨e, hfind, Bool.not_eq_true _ ▸ hq, (Option.some.inj hs).symm⟩
  · cases hs

theorem hookGet_cases (hs : step s (.hookGet e) = some s') : .marked e ∈ s.hooks ∧
    s' = { s with hooks := .held e :: s.hooks.erase (.marked e) }.setCount e
      fun n => { n with get := n.get + 1 } := by
  unfold step at hs
  dsimp only at hs
  split at hs
  next he => exact ⟨he, (Option.some.inj hs).symm⟩
  · cases hs

theorem hookAdd_cases (hs : step s (.hookAdd e) = some s') : .held e ∈ s.hooks ∧
    s' = { s with hooks := s.hooks.erase (.held e), deferred := s.deferred ++ [e] } := by
  unfold step at hs
  dsimp only at hs
  split at hs
  next he => exact ⟨he, (Option.some.inj hs).symm⟩
  · cases hs

theorem queueZap_cases (hs : step s (.queueZap p) = some s') : s' = s ∨
    (s.zapQueued p = false ∧ s' = { s with
      zapQueued := Function.update s.zapQueued p true
      zapList := s.zapList ++ [p]
      zapPut := Function.update s.zapPut p (s.zapPut p + 1) }) := by
  unfold step St.queueZap at hs
  dsimp only at hs
  split at hs
  · obtain rfl := Option.some.inj hs
    split
    · exact .inl rfl
    next hq => exact .inr ⟨Bool.not_eq_true _ ▸ hq, rfl⟩
  · cases hs

theorem deferredRun_cases {d : Drainer} (hs : step s (.deferredRun d) = some s') :
    s.inLoop d = true ∧ s' = s.deferredRun d := by
  unfold step at hs
  dsimp only at hs
  split at hs
  next hl => exact ⟨hl, (Option.some.inj hs).symm⟩
  · cases hs

theorem step_agree (h : Agree s φ) (hs : step s act = some s') : ∃ φ', Agree s' φ' := by
  cases act with
  | find c t =>
    obtain ⟨hc, rfl | rfl⟩ := find_cases hs
    · exact ⟨φ, h⟩
    · exact ⟨φ, h.setGetter (fun _ hf => by cases hf) fun _ hf => by cases hc.symm.trans hf⟩
  | alloc c noMem =>
    obtain ⟨t, hc, rfl | rfl⟩ := alloc_cases hs
    · exact ⟨φ, h.setGetter (fun _ hf => by cases hf) fun _ hf => by cases hc.symm.trans hf⟩
    · exact ⟨_, h.alloc hc⟩
  | add c =>
    obtain ⟨e, hc, rfl | ⟨hfind, rfl⟩⟩ := add_cases hs
    · exact ⟨_, h.drop hc⟩
    · exact ⟨_, h.add hc hfind⟩
  | exit t =>
    obtain ⟨-, rfl | ⟨e, hfind, hq, rfl⟩⟩ := exit_cases hs
    · exact ⟨φ, h⟩
    · exact ⟨_, h.exit (findLocked_some hfind).1 hq⟩
  | hookGet e =>
    obtain ⟨he, rfl⟩ := hookGet_cases hs
    exact ⟨_, h.hookGet he⟩
  | hookAdd e =>
    obtain ⟨he, rfl⟩ := hookAdd_cases hs
    exact ⟨_, h.hookAdd he⟩
  | queueZap p =>
    obtain rfl | ⟨-, rfl⟩ := queueZap_cases hs
    · exact ⟨φ, h⟩
    · exact ⟨φ, h.same rfl rfl rfl rfl rfl rfl rfl rfl rfl⟩
  | deferredRun d =>
    obtain ⟨-, rfl⟩ := deferredRun_cases hs
    exact h.deferredRun d
  | zapFn =>
    obtain ⟨-, rfl⟩ | ⟨-, rfl⟩ | ⟨-, rfl⟩ | ⟨p, rest, -, -, rfl⟩ | ⟨-, rfl⟩ := zapFn_cases hs
    · exact ⟨φ, h.same rfl rfl rfl rfl rfl rfl rfl rfl rfl⟩
    · exact ⟨φ, h.same rfl rfl rfl rfl rfl rfl rfl rfl rfl⟩
    · exact ⟨φ, h.same rfl rfl rfl rfl rfl rfl rfl rfl rfl⟩
    · exact ⟨φ, h.same rfl rfl rfl rfl rfl rfl rfl rfl rfl⟩
    · exact ⟨φ, h.same rfl rfl rfl rfl rfl rfl rfl rfl rfl⟩
  | exitMod =>
    obtain ⟨-, rfl⟩ | ⟨-, -, rfl⟩ | ⟨-, rfl⟩ | ⟨-, -, rfl⟩ | ⟨-, rfl⟩ := exitMod_cases hs
    · exact ⟨φ, h.same rfl rfl rfl rfl rfl rfl rfl rfl rfl⟩
    · exact ⟨φ, h.same rfl rfl rfl rfl rfl rfl rfl rfl rfl⟩
    · exact ⟨φ, h.same rfl rfl rfl rfl rfl rfl rfl rfl rfl⟩
    · exact ⟨φ, h.same rfl rfl rfl rfl rfl rfl rfl rfl rfl⟩
    · exact ⟨φ, h.same rfl rfl rfl rfl rfl rfl rfl rfl rfl⟩

/-! ## The end -/

/-- The worker has been told to stop. -/
def ModPc.stopped : ModPc → Bool
  | stopping | joined | finished => true
  | _ => false

/-- The worker is gone. -/
def ModPc.after : ModPc → Bool
  | joined | finished => true
  | _ => false

/-- There is no drain before the next test. -/
def WorkerPc.past : WorkerPc → Bool
  | keepalive | test | ended => true
  | _ => false

/-- Where the worker and `droid_lkm_exit` are, and what that says about the lists. -/
structure Ctl (s : St) : Prop where
  drain : ∀ d, s.inLoop d = false → s.drain d = none
  hooks : s.hooked = false → s.hooks = []
  last : s.mod.stopped = true → s.worker.past = true → s.deferred = []
  joined : s.mod.after = true → s.worker = .ended
  ended : s.worker = .ended → s.mod.stopped = true

/-- Pid namespaces are put on the zap list once. -/
structure Zaps (s : St) : Prop where
  put : ∀ p, s.zapPut p = if s.zapQueued p then 1 else 0
  taken : ∀ p, s.zapTaken p ≤ s.zapPut p
  listed : ∀ p, p ∈ s.zapList → s.zapQueued p = true ∧ s.zapTaken p = 0
  nodup : s.zapList.Nodup

theorem hooked_of_mem (h : Ctl s) {y : Hook} (hy : y ∈ s.hooks) : s.hooked = true := by
  cases hh : s.hooked with
  | true => rfl
  | false =>
    rw [h.hooks hh] at hy
    cases hy

theorem not_stopped (h : s.hooked = true) : s.mod.stopped = false := by
  unfold St.hooked at h
  cases hm : s.mod with
  | running | draining | drained | unhooked => rfl
  | stopping | joined | finished =>
    rw [hm] at h
    cases h

theorem inLoop_worker : s.inLoop .worker = true ↔ s.worker = .draining := decide_eq_true_iff

theorem inLoop_main : s.inLoop .main = true ↔ s.mod = .draining := decide_eq_true_iff

/-- The worker and `droid_lkm_exit` stay where they are. -/
theorem Ctl.stay (h : Ctl s) (hw : s'.worker = s.worker) (hm : s'.mod = s.mod)
    (hdrain : ∀ d, s.inLoop d = false → s.drain d = none → s'.drain d = none)
    (hhooks : s.hooked = false → s.hooks = [] → s'.hooks = [])
    (hdef : s.mod.stopped = true → s.deferred = [] → s'.deferred = []) : Ctl s' := by
  have hin : ∀ d, s'.inLoop d = s.inLoop d := by
    intro d
    cases d
    · unfold St.inLoop
      rw [hw]
    · unfold St.inLoop
      rw [hm]
  have hhook : s'.hooked = s.hooked := by
    unfold St.hooked
    rw [hm]
  refine ⟨fun d hd => ?_, fun hf => ?_, ?_, ?_, ?_⟩
  · rw [hin] at hd
    exact hdrain d hd (h.drain d hd)
  · rw [hhook] at hf
    exact hhooks hf (h.hooks hf)
  · rw [hm, hw]
    exact fun hst hp => hdef hst (h.last hst hp)
  · rw [hm, hw]
    exact h.joined
  · rw [hm, hw]
    exact h.ended

/-- Neither list is touched. -/
theorem Ctl.same (h : Ctl s) (hw : s'.worker = s.worker) (hm : s'.mod = s.mod)
    (hdrain : s'.drain = s.drain) (hhooks : s'.hooks = s.hooks)
    (hdef : s'.deferred = s.deferred) : Ctl s' := by
  refine h.stay hw hm (fun d _ hd => ?_) (fun _ hh => ?_) fun _ hd => ?_
  · rw [hdrain]
    exact hd
  · rw [hhooks]
    exact hh
  · rw [hdef]
    exact hd

/-- The lists of a module that is still hooked may change. -/
theorem Ctl.hooked (h : Ctl s) (hh : s.hooked = true) (hw : s'.worker = s.worker)
    (hm : s'.mod = s.mod) (hdrain : s'.drain = s.drain) : Ctl s' := by
  refine h.stay hw hm (fun d _ hd => ?_) (fun hf => ?_) fun hst => ?_
  · rw [hdrain]
    exact hd
  · cases hh.symm.trans hf
  · cases (not_stopped hh).symm.trans hst

/-- A drainer in its loop goes on. -/
theorem Ctl.inLoop (h : Ctl s) {d : Drainer} {y : Option (Stage × ℕ)} (hl : s.inLoop d = true)
    (hw : s'.worker = s.worker) (hm : s'.mod = s.mod)
    (hdrain : s'.drain = Function.update s.drain d y) (hhooks : s'.hooks = s.hooks)
    (hdef : s.deferred = [] → s'.deferred = []) : Ctl s' := by
  refine h.stay hw hm (fun d' hd hno => ?_) (fun _ hh => ?_) fun _ => hdef
  · have hne : d' ≠ d := by
      rintro rfl
      cases hl.symm.trans hd
    rw [hdrain, Function.update_of_ne hne]
    exact hno
  · rw [hhooks]
    exact hh

theorem Ctl.leaveLoop (h : Ctl s) {d : Drainer} (hl : s.inLoop d = true)
    (hd : s.drain d = none) (hdef : s.deferred = []) : Ctl (s.leaveLoop d) := by
  cases d with
  | worker =>
    have hw := inLoop_worker.1 hl
    refine ⟨fun d hd' => ?_, h.hooks, fun _ _ => hdef, fun hj => ?_, fun he => by cases he⟩
    · cases d with
      | worker => exact hd
      | main => exact h.drain .main hd'
    · cases hw.symm.trans (h.joined hj)
  | main =>
    have hm := inLoop_main.1 hl
    refine ⟨fun d hd' => ?_, fun hf => ?_, fun _ _ => hdef, fun hj => ?_, fun he => ?_⟩
    · cases d with
      | worker => exact h.drain .worker hd'
      | main => exact hd
    · cases hf
    · cases hj
    · have hst := h.ended he
      rw [hm] at hst
      cases hst

theorem Ctl.deferredRun (h : Ctl s) {d : Drainer} (hl : s.inLoop d = true) :
    Ctl (s.deferredRun d) := by
  unfold St.deferredRun
  split
  next hd =>
    split
    next hdef => exact h.leaveLoop hl hd hdef
    next e rest hdef =>
      refine h.inLoop hl rfl rfl rfl rfl fun hnil => ?_
      rw [hdef] at hnil
      cases hnil
  · dsimp only
    split
    · exact h.inLoop hl rfl rfl rfl rfl id
    · exact h.inLoop hl rfl rfl rfl rfl id
  · dsimp only
    split
    · exact h.inLoop hl rfl rfl rfl rfl id
    · exact h.inLoop hl rfl rfl rfl rfl id
  · exact h.inLoop hl rfl rfl rfl rfl id
  · exact h.inLoop hl rfl rfl rfl rfl id
  · exact h.inLoop hl rfl rfl rfl rfl id

/-- The worker goes on, outside its drain. -/
theorem Ctl.setWorker (h : Ctl s) {w : WorkerPc} (hw : s.worker ≠ .draining)
    (hne : s.worker ≠ .ended) (hended : w = .ended → s.mod.stopped = true)
    (hlast : w.past = true → s.worker.past = true) : Ctl { s with worker := w } := by
  refine ⟨fun d hd => ?_, h.hooks, fun hst hp => h.last hst (hlast hp),
    fun hj => absurd (h.joined hj) hne, hended⟩
  cases d with
  | worker => exact h.drain .worker (Bool.not_eq_true _ ▸ fun hl => hw (inLoop_worker.1 hl))
  | main => exact h.drain .main hd

theorem Ctl.zapFn (h : Ctl s) (hs : s.zapFn = some s') : Ctl s' := by
  obtain ⟨hw, rfl⟩ | ⟨hw, rfl⟩ | ⟨hw, rfl⟩ | ⟨p, rest, -, -, rfl⟩ | ⟨hw, rfl⟩ := zapFn_cases hs
  · refine h.setWorker (by rw [hw]; decide) (by rw [hw]; decide) (fun he => ?_)
      fun _ => by rw [hw]; rfl
    split at he
    next hm =>
      rw [hm]
      rfl
    · cases he
  · exact h.setWorker (by rw [hw]; decide) (by rw [hw]; decide) (fun he => by cases he)
      fun hf => by cases hf
  · exact h.setWorker (by rw [hw]; decide) (by rw [hw]; decide) (fun he => by cases he)
      fun hf => by cases hf
  · exact h.same rfl rfl rfl rfl rfl
  · exact h.setWorker (by rw [hw]; decide) (by rw [hw]; decide) (fun he => by cases he)
      fun _ => by rw [hw]; rfl

/-- `droid_lkm_exit` goes on, outside its drain. -/
theorem Ctl.setMod (h : Ctl s) {m : ModPc} (hm : s.mod ≠ .draining)
    (hhooks : { s with mod := m }.hooked = false → s.hooks = [])
    (hlast : m.stopped = true → s.worker.past = true → s.deferred = [])
    (hjoined : m.after = true → s.worker = .ended)
    (hended : s.worker = .ended → m.stopped = true) : Ctl { s with mod := m } := by
  refine ⟨fun d hd => ?_, hhooks, hlast, hjoined, hended⟩
  cases d with
  | worker => exact h.drain .worker hd
  | main => exact h.drain .main (Bool.not_eq_true _ ▸ fun hl => hm (inLoop_main.1 hl))

theorem Ctl.exitMod (h : Ctl s) (hlast : LastDrain s .exitMod) (hs : s.exitMod = some s') :
    Ctl s' := by
  -- the worker has not ended before it was told to stop
  have hno : s.mod.stopped = false → s.worker ≠ .ended := by
    intro hf he
    cases hf.symm.trans (h.ended he)
  obtain ⟨hm, rfl⟩ | ⟨hm, hh, rfl⟩ | ⟨hm, rfl⟩ | ⟨hm, hw, rfl⟩ | ⟨hm, rfl⟩ := exitMod_cases hs
  · have hne := hno (by rw [hm]; rfl)
    refine h.setMod (by rw [hm]; decide) (fun hf => ?_) (fun hf => ?_) (fun hf => ?_)
      fun he => absurd he hne
    · cases hf
    · cases hf
    · cases hf
  · have hne := hno (by rw [hm]; rfl)
    refine h.setMod (by rw [hm]; decide) (fun _ => hh) (fun hf => ?_) (fun hf => ?_)
      fun he => absurd he hne
    · cases hf
    · cases hf
  · have hne := hno (by rw [hm]; rfl)
    have hhooks : s.hooks = [] := h.hooks (by unfold St.hooked; rw [hm]; rfl)
    refine h.setMod (by rw [hm]; decide) (fun _ => hhooks) (fun _ hp => hlast hm ?_)
      (fun hf => ?_) fun _ => rfl
    · cases hw : s.worker with
      | keepalive => exact .inl rfl
      | test => exact .inr rfl
      | ended => exact absurd hw hne
      | waiting | zapping | draining =>
        rw [hw] at hp
        cases hp
    · cases hf
  · have hhooks : s.hooks = [] := h.hooks (by unfold St.hooked; rw [hm]; rfl)
    exact h.setMod (by rw [hm]; decide) (fun _ => hhooks)
      (fun _ hp => h.last (by rw [hm]; rfl) hp) (fun _ => hw) fun _ => rfl
  · have hhooks : s.hooks = [] := h.hooks (by unfold St.hooked; rw [hm]; rfl)
    have hC : Ctl { s with mod := .finished } :=
      h.setMod (by rw [hm]; decide) (fun _ => hhooks)
        (fun _ hp => h.last (by rw [hm]; rfl) hp) (fun _ => h.joined (by rw [hm]; rfl))
        fun _ => rfl
    exact hC.same rfl rfl rfl rfl rfl

theorem step_ctl (h : Ctl s) (hlast : LastDrain s act) (hs : step s act = some s') : Ctl s' := by
  cases act with
  | find c t =>
    obtain ⟨-, rfl | rfl⟩ := find_cases hs
    · exact h
    · exact h.same rfl rfl rfl rfl rfl
  | alloc c noMem =>
    obtain ⟨t, -, rfl | rfl⟩ := alloc_cases hs
    · exact h.same rfl rfl rfl rfl rfl
    · exact h.same rfl rfl rfl rfl rfl
  | add c =>
    obtain ⟨e, -, rfl | ⟨-, rfl⟩⟩ := add_cases hs
    · exact h.same rfl rfl rfl rfl rfl
    · exact h.same rfl rfl rfl rfl rfl
  | exit t =>
    obtain ⟨hh, rfl | ⟨e, -, -, rfl⟩⟩ := exit_cases hs
    · exact h
    · exact h.hooked hh rfl rfl rfl
  | hookGet e =>
    obtain ⟨he, rfl⟩ := hookGet_cases hs
    exact h.hooked (hooked_of_mem h he) rfl rfl rfl
  | hookAdd e =>
    obtain ⟨he, rfl⟩ := hookAdd_cases hs
    exact h.hooked (hooked_of_mem h he) rfl rfl rfl
  | queueZap p =>
    obtain rfl | ⟨-, rfl⟩ := queueZap_cases hs
    · exact h
    · exact h.same rfl rfl rfl rfl rfl
  | deferredRun d =>
    obtain ⟨hl, rfl⟩ := deferredRun_cases hs
    exact h.deferredRun hl
  | zapFn => exact h.zapFn hs
  | exitMod => exact h.exitMod hlast hs

/-! ## The zap list -/

theorem Zaps.same (h : Zaps s) (hq : s'.zapQueued = s.zapQueued) (hl : s'.zapList = s.zapList)
    (hput : s'.zapPut = s.zapPut) (htaken : s'.zapTaken = s.zapTaken) : Zaps s' := by
  refine ⟨?_, ?_, ?_, ?_⟩
  · rw [hput, hq]
    exact h.put
  · rw [htaken, hput]
    exact h.taken
  · rw [hl, hq, htaken]
    exact h.listed
  · rw [hl]
    exact h.nodup

theorem Zaps.queueZap (h : Zaps s) (hq : s.zapQueued p = false) : Zaps { s with
    zapQueued := Function.update s.zapQueued p true
    zapList := s.zapList ++ [p]
    zapPut := Function.update s.zapPut p (s.zapPut p + 1) } := by
  have hnot : p ∉ s.zapList := by
    intro hp
    cases hq.symm.trans (h.listed p hp).1
  have hput := h.put p
  rw [hq] at hput
  have htaken := h.taken p
  refine ⟨fun x => ?_, fun x => ?_, fun x hx => ?_, ?_⟩
  · by_cases hxp : x = p
    · simp [hxp, hput]
    · simp [hxp, h.put x]
  · by_cases hxp : x = p
    · simp only [hxp, Function.update_self]
      omega
    · simp [hxp, h.taken x]
  · by_cases hxp : x = p
    · simp only [hxp, Function.update_self]
      refine ⟨trivial, ?_⟩
      simp only [hput] at htaken
      simpa using htaken
    · simp only [Function.update_of_ne hxp]
      exact h.listed x (by simpa [hxp] using hx)
  · exact List.nodup_append.2 ⟨h.nodup, List.nodup_singleton p, fun a ha b hb => by
      rw [List.mem_singleton.1 hb]
      rintro rfl
      exact hnot ha⟩

theorem Zaps.take (h : Zaps s) {rest : List ℕ} (hl : s.zapList = p :: rest) :
    Zaps { s with zapList := rest, zapTaken := Function.update s.zapTaken p (s.zapTaken p + 1) } := by
  obtain ⟨hq, htaken⟩ := h.listed p (by rw [hl]; exact List.mem_cons_self)
  have hnodup := h.nodup
  rw [hl] at hnodup
  obtain ⟨hnot, hrest⟩ := List.nodup_cons.1 hnodup
  have hput := h.put p
  rw [hq] at hput
  refine ⟨h.put, fun x => ?_, fun x hx => ?_, hrest⟩
  · by_cases hxp : x = p
    · simp [hxp, htaken, hput]
    · simp [hxp, h.taken x]
  · have hxp : x ≠ p := by
      rintro rfl
      exact hnot hx
    simp only [Function.update_of_ne hxp]
    exact h.listed x (by rw [hl]; exact List.mem_cons_of_mem _ hx)

theorem step_zaps (h : Zaps s) (hs : step s act = some s') : Zaps s' := by
  cases act with
  | find c t =>
    obtain ⟨-, rfl | rfl⟩ := find_cases hs
    · exact h
    · exact h.same rfl rfl rfl rfl
  | alloc c noMem =>
    obtain ⟨t, -, rfl | rfl⟩ := alloc_cases hs
    · exact h.same rfl rfl rfl rfl
    · exact h.same rfl rfl rfl rfl
  | add c =>
    obtain ⟨e, -, rfl | ⟨-, rfl⟩⟩ := add_cases hs
    · exact h.same rfl rfl rfl rfl
    · exact h.same rfl rfl rfl rfl
  | exit t =>
    obtain ⟨-, rfl | ⟨e, -, -, rfl⟩⟩ := exit_cases hs
    · exact h
    · exact h.same rfl rfl rfl rfl
  | hookGet e =>
    obtain ⟨-, rfl⟩ := hookGet_cases hs
    exact h.same rfl rfl rfl rfl
  | hookAdd e =>
    obtain ⟨-, rfl⟩ := hookAdd_cases hs
    exact h.same rfl rfl rfl rfl
  | queueZap p =>
    obtain rfl | ⟨hq, rfl⟩ := queueZap_cases hs
    · exact h
    · exact h.queueZap hq
  | deferredRun d =>
    obtain ⟨-, rfl⟩ := deferredRun_cases hs
    unfold St.deferredRun
    split
    · split
      · cases d
        · exact h.same rfl rfl rfl rfl
        · exact h.same rfl rfl rfl rfl
      · exact h.same rfl rfl rfl rfl
    · dsimp only
      split
      · exact h.same rfl rfl rfl rfl
      · exact h.same rfl rfl rfl rfl
    · dsimp only
      split
      · exact h.same rfl rfl rfl rfl
      · exact h.same rfl rfl rfl rfl
    · exact h.same rfl rfl rfl rfl
    · exact h.same rfl rfl rfl rfl
    · exact h.same rfl rfl rfl rfl
  | zapFn =>
    obtain ⟨-, rfl⟩ | ⟨-, rfl⟩ | ⟨-, rfl⟩ | ⟨p, rest, -, hl, rfl⟩ | ⟨-, rfl⟩ := zapFn_cases hs
    · exact h.same rfl rfl rfl rfl
    · exact h.same rfl rfl rfl rfl
    · exact h.same rfl rfl rfl rfl
    · exact h.take hl
    · exact h.same rfl rfl rfl rfl
  | exitMod =>
    obtain ⟨-, rfl⟩ | ⟨-, -, rfl⟩ | ⟨-, rfl⟩ | ⟨-, -, rfl⟩ | ⟨-, rfl⟩ := exitMod_cases hs
    · exact h.same rfl rfl rfl rfl
    · exact h.same rfl rfl rfl rfl
    · exact h.same rfl rfl rfl rfl
    · exact h.same rfl rfl rfl rfl
    · exact ⟨h.put, h.taken, fun x hx => (List.not_mem_nil hx).elim, List.nodup_nil⟩

/-! ## Every run -/

theorem init_agree : Agree St.init fun _ => .unborn where
  «at» := fun e =>
    { ht := iff_of_false List.not_mem_nil (by decide)
      deferred := iff_of_false List.not_mem_nil (by decide)
      marked := iff_of_false List.not_mem_nil (by decide)
      held := iff_of_false List.not_mem_nil (by decide)
      drain := fun d st => iff_of_false (by rintro ⟨⟩) (by rintro ⟨⟩)
      getter := fun c => iff_of_false (by rintro ⟨⟩) (by rintro ⟨⟩)
      queued := rfl
      count := rfl
      next := iff_of_true (Nat.zero_le e) rfl }
  htNodup := List.nodup_nil
  deferredNodup := List.nodup_nil
  hooksNodup := List.nodup_nil
  unique := fun _ _ ha => (List.not_mem_nil ha).elim

theorem init_ctl : Ctl St.init where
  drain := fun _ _ => rfl
  hooks := fun _ => rfl
  last := fun _ _ => rfl
  joined := by rintro ⟨⟩
  ended := by rintro ⟨⟩

theorem init_zaps : Zaps St.init where
  put := fun _ => rfl
  taken := fun _ => Nat.le_refl _
  listed := fun _ hp => (List.not_mem_nil hp).elim
  nodup := List.nodup_nil

theorem run_once (h : RunIf step LastDrain St.init s) : (∃ φ, Agree s φ) ∧ Ctl s ∧ Zaps s := by
  refine h.inv (I := fun s => (∃ φ, Agree s φ) ∧ Ctl s ∧ Zaps s)
    ⟨⟨_, init_agree⟩, init_ctl, init_zaps⟩ ?_
  rintro s a t ⟨⟨φ, hA⟩, hC, hZ⟩ hlast hs
  exact ⟨step_agree hA hs, step_ctl hC hlast hs, step_zaps hZ hs⟩

theorem Phase.count_le (p : Phase) : p.count.undo ≤ 1 ∧ p.count.shm ≤ 1 ∧ p.count.hashDel ≤ 1 ∧
    p.count.free ≤ 1 ∧ p.count.get ≤ 1 ∧ p.count.put ≤ 1 := by
  cases p with
  | inDrain d st => cases st <;> simp [Phase.count]
  | _ => simp [Phase.count]

/-- When the module is gone, an entry that was queued is done with. -/
theorem Agree.finished (h : Agree s φ) (hC : Ctl s) (hm : s.mod = .finished)
    (hq : s.deferQueued e = true) : φ e = .done := by
  have hA := h.at e
  have hhooks : s.hooks = [] := hC.hooks (by unfold St.hooked; rw [hm]; rfl)
  have hw := hC.joined (by rw [hm]; rfl)
  have hdef := hC.last (by rw [hm]; rfl) (by rw [hw]; rfl)
  have hqueued := hA.queued.symm.trans hq
  cases hp : φ e with
  | done => rfl
  | unborn | fresh | dropped | hashed =>
    rw [hp] at hqueued
    cases hqueued
  | marked =>
    have hmem := hA.marked.2 (by rw [hp]; rfl)
    rw [hhooks] at hmem
    cases hmem
  | held =>
    have hmem := hA.held.2 (by rw [hp]; rfl)
    rw [hhooks] at hmem
    cases hmem
  | listed =>
    have hmem := hA.deferred.2 (by rw [hp]; rfl)
    rw [hdef] at hmem
    cases hmem
  | inDrain d st =>
    have hd := (hA.drain d st).2 (by rw [hp]; exact if_pos rfl)
    have hl : s.inLoop d = false := by
      cases d
      · unfold St.inLoop
        rw [hw]
        rfl
      · unfold St.inLoop
        rw [hm]
        rfl
    cases (hC.drain d hl).symm.trans hd

/-- **Deferred cleanup happens once.**  In every run in which the last drain of the worker
    leaves nothing on the deferred list, nothing is done twice to an entry, and when the
    module is gone all is done; no pid namespace is zapped twice. -/
theorem cleaned_once (h : RunIf step LastDrain St.init s) : Once s := by
  obtain ⟨⟨φ, hA⟩, hC, hZ⟩ := run_once h
  refine ⟨fun e => ?_, fun hm => ⟨?_, fun e hq => ?_⟩, fun p => ⟨hZ.taken p, ?_⟩⟩
  · rw [(hA.at e).count]
    exact (φ e).count_le
  · have hw := hC.joined (by rw [hm]; rfl)
    exact hC.last (by rw [hm]; rfl) (by rw [hw]; rfl)
  · have hdone := hA.finished hC hm hq
    have hAt := hA.at e
    rw [hdone] at hAt
    exact ⟨hAt.count, fun he => by cases hAt.ht.1 he⟩
  · rw [hZ.put p]
    split
    · exact Nat.le_refl _
    · exact Nat.zero_le _

instance (s : St) : (act : Act) → Decidable (LastDrain s act)
  | .exitMod => inferInstanceAs (Decidable
    (s.mod = .unhooked → s.worker = .keepalive ∨ s.worker = .test → s.deferred = []))
  | .find .. | .alloc .. | .add _ | .exit _ | .hookGet _ | .hookAdd _ | .queueZap _
  | .deferredRun _ | .zapFn => inferInstanceAs (Decidable True)

/-- A task exits after the drain of `droid_lkm_exit`, and the worker sees to its entry. -/
theorem cleaned_once_late : ∃ s, RunIf step LastDrain St.init s ∧ Once s ∧
    s.mod = .finished ∧ s.count 0 = ⟨1, 1, 1, 1, 1, 1⟩ := by
  obtain ⟨s, hrun, hs⟩ := execIf_check step (fun s act => decide (LastDrain s act))
    (fun _ _ => of_decide_eq_true) St.init
    ([.find 0 7, .alloc 0 false, .add 0, .zapFn, .exitMod, .deferredRun .main, .exit 7, .hookGet 0,
      .hookAdd 0, .exitMod, .exitMod, .zapFn, .zapFn] ++
      List.replicate 7 (.deferredRun .worker) ++ [.zapFn, .zapFn, .exitMod, .exitMod])
    (fun s => decide (s.mod = .finished ∧ s.count 0 = ⟨1, 1, 1, 1, 1, 1⟩)) (by decide +kernel)
  exact ⟨s, hrun, cleaned_once hrun, of_decide_eq_true hs⟩

/-- A task that exits between the worker's drain and its test for stop: its entry is still
    on the deferred list when the module is gone. -/
theorem entry_left : ∃ s, Run step St.init s ∧ (s.mod = .finished ∧ s.deferred = [0] ∧
    s.deferQueued 0 = true ∧ s.count 0 = ⟨0, 0, 0, 0, 1, 0⟩) ∧ ¬Once s := by
  obtain ⟨s, hrun, hs⟩ := exec_check step St.init
    [.find 0 7, .alloc 0 false, .add 0, .zapFn, .exitMod, .deferredRun .main, .zapFn, .zapFn,
      .deferredRun .worker, .exit 7, .hookGet 0, .hookAdd 0, .exitMod, .exitMod, .zapFn, .zapFn,
      .exitMod, .exitMod]
    (fun s => decide (s.mod = .finished ∧ s.deferred = [0] ∧ s.deferQueued 0 = true ∧
      s.count 0 = ⟨0, 0, 0, 0, 1, 0⟩)) (by decide +kernel)
  obtain ⟨hm, hdef, hrest⟩ := of_decide_eq_true hs
  refine ⟨s, hrun, ⟨hm, hdef, hrest⟩, fun ho => ?_⟩
  rw [(ho.finished hm).1] at hdef
  cases hdef

end DroidLkm.Tasks.Drain
