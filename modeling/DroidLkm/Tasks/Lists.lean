/-
  The IPC entries of tasks — what a call does to them.

  * `St.ent`: the entry of a task, empty where there is none, and what each function
    makes of it;
  * `Wf`: an undo list belongs to one task, and the deferred list holds the entries of
    tasks that have exited, kept by every step.
-/
import Mathlib.Tactic.SplitIfs
import DroidLkm.Tasks.Entries

namespace DroidLkm.Tasks

open Machine

variable {s s' : St} {act : Act} {t u ul id : ℕ} {e e' : TaskIpc} {l l' : UndoList}
  {x : Option TaskIpc} {y : Option UndoList} {noList noEntry noMem : Bool}

namespace St

/-- The entry of a task; there may as well be an empty one. -/
def ent (s : St) (t : ℕ) : TaskIpc := (s.ht t).getD ⟨none, [], false⟩

/-- An entry has to be allocated and is not. -/
def Missing (s : St) (t : ℕ) (noEntry : Bool) : Prop := s.ht t = none ∧ noEntry = true

instance : Decidable (s.Missing t noEntry) := inferInstanceAs (Decidable (_ ∧ _))

theorem setEnt_ent (s : St) (t u : ℕ) (x : Option TaskIpc) :
    (s.setEnt t x).ent u = if u = t then x.getD ⟨none, [], false⟩ else s.ent u := by
  unfold ent setEnt
  dsimp only
  rw [Function.update_apply]
  split
  · rfl
  · rfl

theorem setEnt_ht (s : St) (t u : ℕ) (x : Option TaskIpc) :
    (s.setEnt t x).ht u = if u = t then x else s.ht u := Function.update_apply ..

theorem undoList_eq : s.undoList t = (s.ent t).undoList := by
  unfold undoList ent
  cases s.ht t with
  | none => rfl
  | some e => rfl

theorem setEnt_setEnt : (s.setEnt t x).setEnt t (some e) = s.setEnt t (some e) := by
  unfold setEnt
  rw [Function.update_idem]

/-! ## The functions -/

theorem get_eq (s : St) (t : ℕ) (noEntry : Bool) : s.get t true noEntry =
    if s.Missing t noEntry then (s, none) else (s.setEnt t (some (s.ent t)), some (s.ent t)) := by
  rcases h : s.ht t with _ | e
  · cases noEntry with
    | false =>
      rw [if_neg (fun hm => by cases hm.2)]
      unfold get ent
      rw [h]
      rfl
    | true =>
      rw [if_pos ⟨h, rfl⟩]
      unfold get
      rw [h]
      rfl
  · have hself : s.setEnt t (some e) = s := by
      unfold setEnt
      rw [← h, Function.update_eq_self]
    rw [if_neg (fun hm => by cases h.symm.trans hm.1)]
    unfold get ent
    rw [h]
    exact congrArg (·, some e) hself.symm

theorem undoListSet_eq (s : St) (t : ℕ) (ul : Option ℕ) (noEntry : Bool) :
    s.undoListSet t ul noEntry = if s.Missing t noEntry then s
      else s.setEnt t (some { s.ent t with undoList := ul }) := by
  unfold undoListSet
  rw [get_eq]
  split_ifs
  · rfl
  · exact setEnt_setEnt

theorem newseg_eq (s : St) (t : ℕ) (noEntry : Bool) :
    s.newseg t noEntry = if s.Missing t noEntry then
      { s with
        nextSeg := s.nextSeg + 1
        seg := Function.update s.seg s.nextSeg (some ⟨t, false⟩)
        oops := true }
    else
      { s.setEnt t (some { s.ent t with shmClist := s.nextSeg :: (s.ent t).shmClist }) with
        nextSeg := s.nextSeg + 1
        seg := Function.update s.seg s.nextSeg (some ⟨t, true⟩) } := by
  have hget := get_eq { s with
    nextSeg := s.nextSeg + 1
    seg := Function.update s.seg s.nextSeg (some ⟨t, false⟩) } t noEntry
  unfold newseg
  dsimp only
  by_cases h : s.Missing t noEntry
  · rw [if_pos h, hget.trans (if_pos h)]
  · rw [if_neg h, hget.trans (if_neg h)]
    dsimp only [setEnt]
    rw [Function.update_idem, Function.update_idem]
    rfl

theorem exitShm_eq (s : St) (t : ℕ) (noEntry : Bool) :
    s.exitShm t noEntry = if s.Missing t noEntry then { s with oops := true }
    else { s.setEnt t (some { s.ent t with shmClist := [] }) with
      seg := fun id => if id ∈ (s.ent t).shmClist then (s.seg id).map Seg.unlink else s.seg id } := by
  unfold exitShm
  rw [get_eq]
  split_ifs
  · rfl
  · dsimp only
    rw [setEnt_setEnt]
    rfl

theorem exitDefer_eq (s : St) (t : ℕ) : s.exitDefer t = s ∨
    ((s.ht t).isSome ∧ (s.ent t).deferQueued = false ∧
      s.exitDefer t = { s.setEnt t (some { s.ent t with deferQueued := true }) with
        deferred := s.deferred ++ [t] }) := by
  unfold exitDefer ent
  cases s.ht t with
  | none => exact .inl rfl
  | some e =>
    dsimp only
    split
    · exact .inl rfl
    next hq => exact .inr ⟨rfl, Bool.not_eq_true _ ▸ hq, rfl⟩

theorem exitSem_none (h : (s.ent t).undoList = none) : s.exitSem t = s := by
  unfold exitSem
  rw [undoList_eq, h]

/-- The last task of a list exits. -/
theorem exitSem_last (h : (s.ent t).undoList = some ul) (hl : s.undo ul = some l)
    (href : l.refcnt = 1) : s.exitSem t =
      { (s.setEnt t (some { s.ent t with undoList := none })).setUndo ul none with
        semval := s.adjusted l
        applied := s.applied ++ l.log } := by
  unfold exitSem
  rw [undoList_eq, h]
  dsimp only
  rw [undoListSet_eq, if_neg (fun hm => by cases hm.2)]
  dsimp only
  rw [show (s.setEnt t (some { s.ent t with undoList := none })).undo ul = some l from hl]
  dsimp only
  rw [if_neg (by omega)]
  rfl

/-- A new undo list, registered if there is an entry for it. -/
def newUndo (s : St) (t : ℕ) (noEntry : Bool) : St :=
  { s.setUndo s.nextUndo (some ⟨1, []⟩) with nextUndo := s.nextUndo + 1 }.undoListSet t
    (some s.nextUndo) noEntry

theorem newUndo_eq (s : St) (t : ℕ) (noEntry : Bool) : s.newUndo t noEntry =
    { (if s.Missing t noEntry then s
      else s.setEnt t (some { s.ent t with undoList := some s.nextUndo })) with
      undo := Function.update s.undo s.nextUndo (some ⟨1, []⟩)
      nextUndo := s.nextUndo + 1 } := by
  unfold newUndo
  rw [undoListSet_eq]
  by_cases h : s.Missing t noEntry
  · rw [if_pos h]
    exact if_pos h
  · rw [if_neg h]
    exact if_neg h

theorem getUndoList_cases (s : St) (t : ℕ) (noList noEntry : Bool) :
    (∃ ul, (s.ent t).undoList = some ul ∧ s.getUndoList t noList noEntry = (s, .ok ul)) ∨
    ((s.ent t).undoList = none ∧
      ((noList = true ∧ s.getUndoList t noList noEntry = (s, .error (-ENOMEM))) ∨
      (noList = false ∧
        s.getUndoList t noList noEntry = (s.newUndo t noEntry, .ok s.nextUndo)))) := by
  unfold getUndoList
  rw [undoList_eq]
  cases (s.ent t).undoList with
  | some ul => exact .inl ⟨ul, rfl, rfl⟩
  | none =>
    cases noList with
    | true => exact .inr ⟨rfl, .inl ⟨rfl, rfl⟩⟩
    | false => exact .inr ⟨rfl, .inr ⟨rfl, rfl⟩⟩

end St

/-! ## Undo lists and the deferred list -/

/-- An undo list belongs to one task, and the deferred list is that of the entries of tasks
    that have exited. -/
structure Wf (s : St) : Prop where
  held : ∀ t ul, (s.ent t).undoList = some ul → ∃ l, s.undo ul = some l ∧ l.refcnt = 1
  own : ∀ t u ul, (s.ent t).undoList = some ul → (s.ent u).undoList = some ul → t = u
  fresh : ∀ ul l, s.undo ul = some l → ul < s.nextUndo
  pend : ∀ t p, s.pending t = some p → s.running t = true ∧ p.undo < s.nextUndo ∧
    ∀ u, (s.ent u).undoList = some p.undo → u = t
  queued : ∀ t, t ∈ s.deferred ↔ (s.ent t).deferQueued = true
  gone : ∀ t, t ∈ s.deferred → s.exited t = true
  left : ∀ t, s.exited t = true → (s.ht t).isSome → t ∈ s.deferred
  nodup : s.deferred.Nodup
  unborn : ∀ t, s.nextTask ≤ t → s.ht t = none ∧ s.exited t = false

theorem ent_of_none (h : s.ht t = none) : s.ent t = ⟨none, [], false⟩ := by
  unfold St.ent
  rw [h]
  rfl

theorem running_iff : s.running t = true ↔ t < s.nextTask ∧ s.exited t = false := by
  simp [St.running]

theorem init_wf (n : ℕ) : Wf (St.init n) where
  held := by rintro t ul ⟨⟩
  own := by rintro t u ul ⟨⟩
  fresh := by rintro ul l ⟨⟩
  pend := by rintro t p ⟨⟩
  queued := by
    intro t
    constructor
    · rintro ⟨⟩
    · rintro ⟨⟩
  gone := by rintro t ⟨⟩
  left := by rintro t ⟨⟩
  nodup := List.nodup_nil
  unborn := fun _ _ => ⟨rfl, rfl⟩

/-- A task has its entry written, but for the undo list. -/
theorem Wf.setEnt (h : Wf s) (ht : s.running t = true) (hul : e.undoList = (s.ent t).undoList)
    (hq : e.deferQueued = (s.ent t).deferQueued) : Wf (s.setEnt t (some e)) := by
  have hent : ∀ u, ((s.setEnt t (some e)).ent u).undoList = (s.ent u).undoList := by
    intro u
    rw [St.setEnt_ent]
    split
    next hu => exact hu ▸ hul
    · rfl
  obtain ⟨hlt, hlive⟩ := running_iff.1 ht
  refine ⟨fun u ul hu => ?_, fun u v ul hu hv => ?_, h.fresh, fun u p hp => ?_, fun u => ?_,
    h.gone, fun u hu hsome => ?_, h.nodup, fun u hu => ?_⟩
  · rw [hent] at hu
    exact h.held u ul hu
  · rw [hent] at hu hv
    exact h.own u v ul hu hv
  · obtain ⟨hrun, hlt, hown⟩ := h.pend u p hp
    refine ⟨hrun, hlt, fun v hv => ?_⟩
    rw [hent] at hv
    exact hown v hv
  · rw [St.setEnt_ent]
    refine (h.queued u).trans ?_
    split
    next hut => rw [hut, ← hq]; rfl
    · exact Iff.rfl
  · rw [St.setEnt_ht] at hsome
    split at hsome
    next hut =>
      rw [hut] at hu
      cases hlive.symm.trans hu
    · exact h.left u hu hsome
  · obtain ⟨hnone, hex⟩ := h.unborn u hu
    refine ⟨?_, hex⟩
    have hut : u ≠ t := Nat.ne_of_gt (Nat.lt_of_lt_of_le hlt hu)
    rw [St.setEnt_ht, if_neg hut]
    exact hnone

/-- A list is allocated, and registered if there is an entry for it. -/
theorem Wf.newUndo (h : Wf s) (ht : s.running t = true) (noEntry : Bool) :
    Wf (s.newUndo t noEntry) := by
  have hnew : ∀ u, (s.ent u).undoList ≠ some s.nextUndo := by
    intro u hu
    obtain ⟨l, hl, -⟩ := h.held u _ hu
    exact absurd (h.fresh _ l hl) (Nat.lt_irrefl _)
  have hent : ∀ u ul, ((s.newUndo t noEntry).ent u).undoList = some ul →
      (u = t ∧ ul = s.nextUndo) ∨ (s.ent u).undoList = some ul := by
    intro u ul hu
    rw [St.newUndo_eq] at hu
    split at hu
    · exact .inr hu
    · change ((s.setEnt t _).ent u).undoList = some ul at hu
      rw [St.setEnt_ent] at hu
      split at hu
      next hut => exact .inl ⟨hut, (Option.some.inj hu).symm⟩
      · exact .inr hu
  have hq : ∀ u, ((s.newUndo t noEntry).ent u).deferQueued = (s.ent u).deferQueued := by
    intro u
    rw [St.newUndo_eq]
    split
    · rfl
    · change ((s.setEnt t _).ent u).deferQueued = _
      rw [St.setEnt_ent]
      split
      next hut => rw [hut]; rfl
      · rfl
  have hht : ∀ u, u ≠ t → (s.newUndo t noEntry).ht u = s.ht u := by
    intro u hut
    rw [St.newUndo_eq]
    split
    · rfl
    · exact Function.update_of_ne hut ..
  have hundo : ∀ ul, (s.newUndo t noEntry).undo ul =
      if ul = s.nextUndo then some ⟨1, []⟩ else s.undo ul := by
    intro ul
    rw [St.newUndo_eq]
    exact Function.update_apply ..
  have hrest : (s.newUndo t noEntry).nextUndo = s.nextUndo + 1 ∧
      (s.newUndo t noEntry).deferred = s.deferred ∧ (s.newUndo t noEntry).exited = s.exited ∧
      (s.newUndo t noEntry).pending = s.pending ∧
      (s.newUndo t noEntry).nextTask = s.nextTask := by
    rw [St.newUndo_eq]
    split
    · exact ⟨rfl, rfl, rfl, rfl, rfl⟩
    · exact ⟨rfl, rfl, rfl, rfl, rfl⟩
  obtain ⟨hnext, hdef, hex, hpend, htask⟩ := hrest
  obtain ⟨hlt, hlive⟩ := running_iff.1 ht
  refine ⟨fun u ul hu => ?_, fun u v ul hu hv => ?_, fun ul l hl => ?_, fun u p hp => ?_,
    fun u => ?_, fun u hu => ?_, fun u hu hsome => ?_, by rw [hdef]; exact h.nodup,
    fun u hu => ?_⟩
  · rw [hundo]
    rcases hent u ul hu with ⟨-, rfl⟩ | hu
    · exact ⟨⟨1, []⟩, if_pos rfl, rfl⟩
    · have hne : ul ≠ s.nextUndo := by
        rintro rfl
        exact hnew u hu
      rw [if_neg hne]
      exact h.held u ul hu
  · rcases hent u ul hu with ⟨hut, hul⟩ | hu'
    · rcases hent v ul hv with ⟨hvt, -⟩ | hv'
      · exact hut.trans hvt.symm
      · exact absurd (hul ▸ hv') (hnew v)
    · rcases hent v ul hv with ⟨-, hul⟩ | hv'
      · exact absurd (hul ▸ hu') (hnew u)
      · exact h.own u v ul hu' hv'
  · rw [hnext]
    rw [hundo] at hl
    split at hl
    · omega
    · exact Nat.lt_succ_of_lt (h.fresh ul l hl)
  · rw [hpend] at hp
    obtain ⟨hrun, hlt', hown⟩ := h.pend u p hp
    refine ⟨by unfold St.running at *; rw [htask, hex]; exact hrun,
      by rw [hnext]; exact Nat.lt_succ_of_lt hlt', fun v hv => ?_⟩
    rcases hent v _ hv with ⟨-, he⟩ | hv
    · exact absurd he (Nat.ne_of_lt hlt')
    · exact hown v hv
  · rw [hdef, hq]
    exact h.queued u
  · rw [hdef] at hu
    rw [hex]
    exact h.gone u hu
  · rw [hex] at hu
    rw [hdef]
    by_cases hut : u = t
    · rw [hut] at hu
      cases hlive.symm.trans hu
    · rw [hht u hut] at hsome
      exact h.left u hu hsome
  · rw [htask] at hu
    rw [hex, hht u (by omega)]
    exact h.unborn u hu

/-- **`exit_sem`** applies the whole list of its task. -/
theorem Wf.exitSem_cases (h : Wf s) (t : ℕ) :
    ((s.ent t).undoList = none ∧ s.exitSem t = s) ∨
    ∃ ul l, (s.ent t).undoList = some ul ∧ s.undo ul = some l ∧ s.exitSem t =
      { (s.setEnt t (some { s.ent t with undoList := none })).setUndo ul none with
        semval := s.adjusted l
        applied := s.applied ++ l.log } := by
  cases hul : (s.ent t).undoList with
  | none => exact .inl ⟨rfl, St.exitSem_none hul⟩
  | some ul =>
    obtain ⟨l, hl, href⟩ := h.held t ul hul
    exact .inr ⟨ul, l, rfl, hl, St.exitSem_last hul hl href⟩

theorem Wf.exitSem (h : Wf s) (t : ℕ) : Wf (s.exitSem t) := by
  rcases h.exitSem_cases t with ⟨-, hs⟩ | ⟨ul, l, hul, hl, hs⟩
  · rw [hs]
    exact h
  rw [hs]
  have hent : ∀ u v, ((s.setEnt t (some { s.ent t with undoList := none })).ent u).undoList =
      some v → (s.ent u).undoList = some v ∧ v ≠ ul := by
    intro u v hu
    rw [St.setEnt_ent] at hu
    split at hu
    · cases hu
    next hut =>
      refine ⟨hu, ?_⟩
      rintro rfl
      exact hut (h.own u t v hu hul)
  have hpres : ((s.ht t).isSome) := by
    rcases hx : s.ht t with _ | e
    · rw [ent_of_none hx] at hul
      cases hul
    · rfl
  refine ⟨fun u v hu => ?_, fun u v w hu hv => ?_, fun v l' hv => ?_, fun u p hp => ?_,
    fun u => ?_, h.gone, fun u hu hsome => ?_, h.nodup, fun u hu => ?_⟩
  · obtain ⟨hu, hne⟩ := hent u v hu
    obtain ⟨l', hl', href⟩ := h.held u v hu
    exact ⟨l', (Function.update_of_ne hne ..).trans hl', href⟩
  · exact h.own u v w (hent u w hu).1 (hent v w hv).1
  · change Function.update s.undo ul none v = some l' at hv
    rw [Function.update_apply] at hv
    split at hv
    · cases hv
    · exact h.fresh v l' hv
  · obtain ⟨hrun, hlt, hown⟩ := h.pend u p hp
    exact ⟨hrun, hlt, fun v hv => hown v (hent v _ hv).1⟩
  · change _ ↔ ((s.setEnt t _).ent u).deferQueued = true
    rw [St.setEnt_ent]
    refine (h.queued u).trans ?_
    split
    next hut => rw [hut]; rfl
    · exact Iff.rfl
  · change ((s.setEnt t _).ht u).isSome = true at hsome
    rw [St.setEnt_ht] at hsome
    split at hsome
    next hut => exact h.left u hu (hut ▸ hpres)
    · exact h.left u hu hsome
  · obtain ⟨hnone, hex⟩ := h.unborn u hu
    refine ⟨?_, hex⟩
    have hut : u ≠ t := by
      rintro rfl
      rw [hnone] at hpres
      cases hpres
    exact (Function.update_of_ne hut ..).trans hnone

theorem exitSem_clist (h : Wf s) (t u : ℕ) :
    ((s.exitSem t).ent u).shmClist = (s.ent u).shmClist := by
  rcases h.exitSem_cases t with ⟨-, hs⟩ | ⟨ul, l, -, -, hs⟩
  · rw [hs]
  · rw [hs]
    change ((s.setEnt t _).ent u).shmClist = _
    rw [St.setEnt_ent]
    split
    next hut => rw [hut]; rfl
    · rfl

/-- **The worker** has the undo list and the segments of a task seen to, and drops its entry. -/
theorem deferredRun_eq (h : Wf s) {rest : List ℕ} (hd : s.deferred = t :: rest) :
    step s .deferredRun = some { (s.exitSem t).setEnt t none with
      deferred := rest
      seg := fun id => if id ∈ (s.ent t).shmClist then (s.seg id).map Seg.unlink else s.seg id } := by
  have hpop : { s with deferred := rest }.exitSem t = { s.exitSem t with deferred := rest } := by
    rcases h.exitSem_cases t with ⟨hul, hs⟩ | ⟨ul, l, hul, hl, hs⟩
    · rw [hs]
      exact St.exitSem_none hul
    · obtain ⟨l', hl', href⟩ := h.held t ul hul
      obtain rfl := Option.some.inj (hl.symm.trans hl')
      rw [hs]
      exact St.exitSem_last hul hl href
  have hseg : (s.exitSem t).seg = s.seg := by
    rcases h.exitSem_cases t with ⟨-, hs⟩ | ⟨ul, l, -, -, hs⟩
    · rw [hs]
    · rw [hs]
      rfl
  unfold step
  rw [hd]
  dsimp only
  rw [hpop, St.exitShm_eq, if_neg (fun hm => by cases hm.2)]
  change some { ((s.exitSem t).setEnt t (some _)).setEnt t none with
    deferred := rest
    seg := fun id => if id ∈ ((s.exitSem t).ent t).shmClist then
      ((s.exitSem t).seg id).map Seg.unlink else (s.exitSem t).seg id } = _
  rw [exitSem_clist h, hseg]
  unfold St.setEnt
  rw [Function.update_idem]

theorem Wf.deferredRun (h : Wf s) (hs : step s .deferredRun = some s') : Wf s' := by
  rcases hd : s.deferred with _ | ⟨t, rest⟩
  · unfold step at hs
    rw [hd] at hs
    cases hs
  rw [deferredRun_eq h hd] at hs
  obtain rfl := Option.some.inj hs
  have hE := h.exitSem t
  have hdef : (s.exitSem t).deferred = t :: rest := by
    rcases h.exitSem_cases t with ⟨-, hx⟩ | ⟨ul, l, -, -, hx⟩
    · rw [hx]
      exact hd
    · rw [hx]
      exact hd
  generalize s.exitSem t = r at hE hdef
  have hmem : ∀ u, u ∈ rest → u ∈ r.deferred := by
    intro u hu
    rw [hdef]
    exact List.mem_cons_of_mem _ hu
  have hnot : t ∉ rest := by
    have hnd := hE.nodup
    rw [hdef] at hnd
    exact (List.nodup_cons.1 hnd).1
  have hent : ∀ u ul, ((r.setEnt t none).ent u).undoList = some ul →
      (r.ent u).undoList = some ul := by
    intro u ul hu
    rw [St.setEnt_ent] at hu
    split at hu
    · cases hu
    · exact hu
  refine ⟨fun u ul hu => hE.held u ul (hent u ul hu),
    fun u v ul hu hv => hE.own u v ul (hent u ul hu) (hent v ul hv), hE.fresh, fun u p hp => ?_,
    fun u => ?_, fun u hu => hE.gone u (hmem u hu), fun u hu hsome => ?_, ?_, fun u hu => ?_⟩
  · obtain ⟨hrun, hlt, hown⟩ := hE.pend u p hp
    exact ⟨hrun, hlt, fun v hv => hown v (hent v _ hv)⟩
  · change u ∈ rest ↔ ((r.setEnt t none).ent u).deferQueued = true
    rw [St.setEnt_ent]
    split
    next hut =>
      rw [hut]
      exact ⟨fun hu => absurd hu hnot, fun hu => by cases hu⟩
    next hut =>
      rw [← hE.queued u, hdef, List.mem_cons]
      exact ⟨.inr, fun hu => hu.resolve_left hut⟩
  · change ((r.setEnt t none).ht u).isSome = true at hsome
    rw [St.setEnt_ht] at hsome
    split at hsome
    · cases hsome
    next hut =>
      have hu' := hE.left u hu hsome
      rw [hdef, List.mem_cons] at hu'
      exact hu'.resolve_left hut
  · have hnd := hE.nodup
    rw [hdef] at hnd
    exact (List.nodup_cons.1 hnd).2
  · obtain ⟨hnone, hex⟩ := hE.unborn u hu
    refine ⟨?_, hex⟩
    change (r.setEnt t none).ht u = none
    rw [St.setEnt_ht]
    split
    · rfl
    · exact hnone

/-! ## The steps -/

theorem shmget_cases (hs : step s (.shmget t noEntry) = some s') :
    s.running t = true ∧ s.pending t = none ∧ s' = s.newseg t noEntry := by
  unfold step at hs
  dsimp only at hs
  split at hs
  next hc => exact ⟨hc.2.1, hc.2.2, (Option.some.inj hs).symm⟩
  · cases hs

/-- An operation begins with the undo list of its task, or with a new one. -/
theorem semBegin_cases {semid : ℕ} {err : Bool}
    (hs : step s (.semBegin t semid noList noEntry err) = some s') :
    s.running t = true ∧ s.pending t = none ∧ (s' = s ∨ ∃ r ul,
      ((r = s ∧ (s.ent t).undoList = some ul) ∨ ((s.ent t).undoList = none ∧ noList = false ∧
        r = s.newUndo t noEntry ∧ ul = s.nextUndo)) ∧
      (s' = r ∨ s' = { r with pending := Function.update r.pending t (some ⟨ul, semid⟩) })) := by
  unfold step at hs
  dsimp only at hs
  split at hs
  next hc =>
    refine ⟨hc.1, hc.2, ?_⟩
    rcases s.getUndoList_cases t noList noEntry with
      ⟨ul, hul, hg⟩ | ⟨hul, ⟨-, hg⟩ | ⟨hno, hg⟩⟩
    · rw [hg] at hs
      refine .inr ⟨s, ul, .inl ⟨rfl, hul⟩, ?_⟩
      cases err
      · exact .inr (Option.some.inj hs).symm
      · exact .inl (Option.some.inj hs).symm
    · rw [hg] at hs
      exact .inl (Option.some.inj hs).symm
    · rw [hg] at hs
      refine .inr ⟨_, _, .inr ⟨hul, hno, rfl, rfl⟩, ?_⟩
      cases err
      · exact .inr (Option.some.inj hs).symm
      · exact .inl (Option.some.inj hs).symm
  · cases hs

/-- What a performed operation records. -/
def recorded (s : St) (t semid : ℕ) (sops : List Sembuf) : List Adj :=
  (sops.filter Sembuf.undo).map fun o => ⟨semid, o.num, -o.op, t, s.group t⟩

/-- The values after an operation. -/
def performed (s : St) (semid : ℕ) (sops : List Sembuf) : ℕ → ℕ → ℤ :=
  Function.update s.semval semid fun num =>
    s.semval semid num + ((sops.filter (·.num == num)).map Sembuf.op).sum

theorem semEnd_cases {sops : List Sembuf} {ok : Bool}
    (hs : step s (.semEnd t sops ok) = some s') : ∃ p, s.pending t = some p ∧
      ((ok = false ∧ s' = { s with pending := Function.update s.pending t none }) ∨
        ∃ l, s.undo p.undo = some l ∧ s' =
          { s with
            pending := Function.update s.pending t none
            undo := Function.update s.undo p.undo
              (some { l with log := l.log ++ recorded s t p.semid sops })
            semval := performed s p.semid sops }) := by
  unfold step at hs
  dsimp only at hs
  split at hs
  · cases hs
  next p hp =>
    refine ⟨p, hp, ?_⟩
    cases ok with
    | false => exact .inl ⟨rfl, (Option.some.inj hs).symm⟩
    | true =>
      rw [if_pos rfl] at hs
      split at hs
      · cases hs
      next l hl => exact .inr ⟨l, hl, (Option.some.inj hs).symm⟩

theorem unshare_cases {newipc : Bool} (hs : step s (.unshare t newipc noEntry) = some s') :
    s.oops = false ∧ s.running t = true ∧ s.pending t = none ∧ s' =
      { (if newipc then (s.exitSem t).exitShm t noEntry else s.exitSem t) with
        group := Function.update (s.exitSem t).group t (s.exitSem t).nextGroup
        nextGroup := (s.exitSem t).nextGroup + 1 } := by
  unfold step at hs
  dsimp only at hs
  split at hs
  next hc =>
    refine ⟨hc.1, hc.2.1, hc.2.2, (Option.some.inj hs).symm.trans ?_⟩
    cases newipc with
    | false => rfl
    | true =>
      rw [if_pos rfl, St.exitShm_eq]
      split
      · rfl
      · rfl
  · cases hs

theorem exit_cases (hs : step s (.exit t) = some s') : s.running t = true ∧
    s.pending t = none ∧
      s' = { s.exitDefer t with exited := Function.update s.exited t true } := by
  unfold step at hs
  dsimp only at hs
  split at hs
  next hc => exact ⟨hc.1, hc.2, (Option.some.inj hs).symm⟩
  · cases hs

/-- Neither entries nor undo lists have come or gone. -/
theorem Wf.same (h : Wf s) (hul : ∀ u, (s'.ent u).undoList = (s.ent u).undoList)
    (hq : ∀ u, (s'.ent u).deferQueued = (s.ent u).deferQueued)
    (hht : ∀ u, s'.ht u = none ↔ s.ht u = none)
    (hundo : ∀ ul l, s.undo ul = some l → ∃ l', s'.undo ul = some l' ∧ l'.refcnt = l.refcnt)
    (hundo' : ∀ ul l', s'.undo ul = some l' → ∃ l, s.undo ul = some l)
    (hnext : s'.nextUndo = s.nextUndo)
    (hpend : ∀ u p, s'.pending u = some p → s.pending u = some p)
    (hdef : s'.deferred = s.deferred) (hex : s'.exited = s.exited)
    (htask : s'.nextTask = s.nextTask) : Wf s' := by
  refine ⟨fun u ul hu => ?_, fun u v ul hu hv => ?_, fun ul l' hl' => ?_, fun u p hp => ?_,
    fun u => ?_, fun u hu => ?_, fun u hu hsome => ?_, by rw [hdef]; exact h.nodup,
    fun u hu => ?_⟩
  · rw [hul] at hu
    obtain ⟨l, hl, href⟩ := h.held u ul hu
    obtain ⟨l', hl', href'⟩ := hundo ul l hl
    exact ⟨l', hl', href'.trans href⟩
  · rw [hul] at hu hv
    exact h.own u v ul hu hv
  · obtain ⟨l, hl⟩ := hundo' ul l' hl'
    rw [hnext]
    exact h.fresh ul l hl
  · obtain ⟨hrun, hlt, hown⟩ := h.pend u p (hpend u p hp)
    refine ⟨by unfold St.running at *; rw [htask, hex]; exact hrun, by rw [hnext]; exact hlt,
      fun v hv => ?_⟩
    rw [hul] at hv
    exact hown v hv
  · rw [hdef, hq]
    exact h.queued u
  · rw [hdef] at hu
    rw [hex]
    exact h.gone u hu
  · rw [hex] at hu
    rw [hdef]
    refine h.left u hu ?_
    rw [Option.isSome_iff_ne_none] at hsome ⊢
    exact fun hn => hsome ((hht u).2 hn)
  · rw [htask] at hu
    rw [hex, hht]
    exact h.unborn u hu

theorem Wf.clearAdj (h : Wf s) (p : Adj → Bool) : Wf (s.clearAdj p) := by
  refine h.same (fun _ => rfl) (fun _ => rfl) (fun _ => Iff.rfl) (fun ul l hl => ?_)
    (fun ul l' hl' => ?_) rfl (fun _ _ hp => hp) rfl rfl rfl
  · refine ⟨{ l with log := l.log.filter (!p ·) }, ?_, rfl⟩
    unfold St.clearAdj
    dsimp only
    rw [hl]
    rfl
  · obtain ⟨l, hl, -⟩ := Option.map_eq_some_iff.1 hl'
    exact ⟨l, hl⟩

theorem Wf.newseg (h : Wf s) (ht : s.running t = true) : Wf (s.newseg t noEntry) := by
  rw [St.newseg_eq]
  split
  · exact ⟨h.held, h.own, h.fresh, h.pend, h.queued, h.gone, h.left, h.nodup, h.unborn⟩
  · have hE := h.setEnt (e := { s.ent t with shmClist := s.nextSeg :: (s.ent t).shmClist })
      ht rfl rfl
    exact ⟨hE.held, hE.own, hE.fresh, hE.pend, hE.queued, hE.gone, hE.left, hE.nodup, hE.unborn⟩

theorem Wf.exitShm (h : Wf s) (ht : s.running t = true) : Wf (s.exitShm t noEntry) := by
  rw [St.exitShm_eq]
  split
  · exact ⟨h.held, h.own, h.fresh, h.pend, h.queued, h.gone, h.left, h.nodup, h.unborn⟩
  · have hE := h.setEnt (e := { s.ent t with shmClist := [] }) ht rfl rfl
    exact ⟨hE.held, hE.own, hE.fresh, hE.pend, hE.queued, hE.gone, hE.left, hE.nodup, hE.unborn⟩

theorem exitSem_running (h : Wf s) (t u : ℕ) : (s.exitSem t).running u = s.running u := by
  rcases h.exitSem_cases t with ⟨-, hs⟩ | ⟨ul, l, -, -, hs⟩
  · rw [hs]
  · rw [hs]
    rfl

theorem shmRmid_ent (s : St) (id u : ℕ) : (s.shmRmid id).ent u =
    { s.ent u with shmClist := (s.ent u).shmClist.erase id } := by
  unfold St.ent St.shmRmid
  dsimp only
  cases s.ht u with
  | none => rfl
  | some e => rfl

theorem Wf.shmRmid (h : Wf s) (id : ℕ) : Wf (s.shmRmid id) := by
  refine h.same (fun u => by rw [shmRmid_ent]) (fun u => by rw [shmRmid_ent])
    (fun u => Option.map_eq_none_iff)
    (fun ul l hl => ⟨l, hl, rfl⟩) (fun ul l hl => ⟨l, hl⟩) rfl (fun _ _ hp => hp) rfl rfl rfl

theorem Wf.clone (h : Wf s) {g : ℕ → ℕ} {n : ℕ} :
    Wf { s with nextTask := s.nextTask + 1, group := g, nextGroup := n } := by
  refine ⟨h.held, h.own, h.fresh, fun u p hp => ?_, h.queued, h.gone, h.left, h.nodup,
    fun u hu => h.unborn u (Nat.le_of_succ_le hu)⟩
  obtain ⟨hrun, hlt, hown⟩ := h.pend u p hp
  obtain ⟨hlt', hlive⟩ := running_iff.1 hrun
  exact ⟨running_iff.2 ⟨Nat.lt_succ_of_lt hlt', hlive⟩, hlt, hown⟩

theorem Wf.setPending (h : Wf s) (ht : s.running t = true) {p : Pending}
    (hlt : p.undo < s.nextUndo) (hown : ∀ u, (s.ent u).undoList = some p.undo → u = t) :
    Wf { s with pending := Function.update s.pending t (some p) } := by
  refine ⟨h.held, h.own, h.fresh, fun u q hq => ?_, h.queued, h.gone, h.left, h.nodup, h.unborn⟩
  change Function.update s.pending t (some p) u = some q at hq
  rw [Function.update_apply] at hq
  split at hq
  next hut =>
    obtain rfl := Option.some.inj hq
    rw [hut]
    exact ⟨ht, hlt, hown⟩
  · exact h.pend u q hq

theorem newUndo_own (h : Wf s) (t : ℕ) (noEntry : Bool)
    (hu : ((s.newUndo t noEntry).ent u).undoList = some s.nextUndo) : u = t := by
  rw [St.newUndo_eq] at hu
  have hold : (s.ent u).undoList ≠ some s.nextUndo := by
    intro hu
    obtain ⟨l, hl, -⟩ := h.held u _ hu
    exact absurd (h.fresh _ l hl) (Nat.lt_irrefl _)
  split at hu
  · exact absurd hu hold
  · change ((s.setEnt t _).ent u).undoList = _ at hu
    rw [St.setEnt_ent] at hu
    split at hu
    · assumption
    · exact absurd hu hold

theorem newUndo_running (s : St) (t u : ℕ) (noEntry : Bool) :
    (s.newUndo t noEntry).running u = s.running u := by
  rw [St.newUndo_eq]
  split
  · rfl
  · rfl

theorem Wf.exit (h : Wf s) (ht : s.running t = true) (hno : s.pending t = none) :
    Wf { s.exitDefer t with exited := Function.update s.exited t true } := by
  obtain ⟨hlt, hlive⟩ := running_iff.1 ht
  have hnot : t ∉ s.deferred := by
    intro hmem
    cases hlive.symm.trans (h.gone t hmem)
  have hpend : ∀ u p, s.pending u = some p → u ≠ t := by
    rintro u p hp rfl
    cases hno.symm.trans hp
  have hrun : ∀ u, u ≠ t → s.running u = true → u < s.nextTask ∧
      Function.update s.exited t true u = false := by
    intro u hut hu
    obtain ⟨h1, h2⟩ := running_iff.1 hu
    exact ⟨h1, (Function.update_of_ne hut ..).trans h2⟩
  have hunborn : ∀ u, s.nextTask ≤ u → u ≠ t := by
    rintro u hu rfl
    omega
  rcases s.exitDefer_eq t with hs | ⟨hsome, hq, hs⟩
  · rw [hs]
    refine ⟨h.held, h.own, h.fresh, fun u p hp => ?_, h.queued, fun u hu => ?_,
      fun u hu hsome => ?_, h.nodup, fun u hu => ?_⟩
    · obtain ⟨hr, hlt, hown⟩ := h.pend u p hp
      exact ⟨running_iff.2 (hrun u (hpend u p hp) hr), hlt, hown⟩
    · have hut : u ≠ t := by
        rintro rfl
        exact hnot hu
      exact (Function.update_of_ne hut ..).trans (h.gone u hu)
    · by_cases hut : u = t
      · -- an entry that is there would have been queued
        subst hut
        exfalso
        obtain ⟨e, he⟩ := Option.isSome_iff_exists.1 hsome
        have hent : s.ent u = e := by
          unfold St.ent
          rw [he]
          rfl
        have hq : e.deferQueued = false := by
          rw [← hent, ← Bool.not_eq_true]
          exact fun hq => hnot ((h.queued u).2 hq)
        have hd : s.deferred ++ [u] = s.deferred := by
          have hx := congrArg St.deferred hs
          unfold St.exitDefer at hx
          rw [he] at hx
          dsimp only at hx
          rw [hq] at hx
          exact hx
        have hlen := congrArg List.length hd
        rw [List.length_append, List.length_singleton] at hlen
        omega
      · exact h.left u ((Function.update_of_ne hut ..).symm.trans hu) hsome
    · obtain ⟨hnone, hex⟩ := h.unborn u hu
      exact ⟨hnone, (Function.update_of_ne (hunborn u hu) ..).trans hex⟩
  · rw [hs]
    have hent : ∀ u, ((s.setEnt t (some { s.ent t with deferQueued := true })).ent u).undoList =
        (s.ent u).undoList := by
      intro u
      rw [St.setEnt_ent]
      split
      next hut => rw [hut]; rfl
      · rfl
    refine ⟨fun u ul hu => h.held u ul ((hent u).symm.trans hu),
      fun u v ul hu hv => h.own u v ul ((hent u).symm.trans hu) ((hent v).symm.trans hv), h.fresh,
      fun u p hp => ?_, fun u => ?_, fun u hu => ?_, fun u hu hsome' => ?_, ?_, fun u hu => ?_⟩
    · obtain ⟨hr, hlt, hown⟩ := h.pend u p hp
      exact ⟨running_iff.2 (hrun u (hpend u p hp) hr), hlt,
        fun v hv => hown v ((hent v).symm.trans hv)⟩
    · change u ∈ s.deferred ++ [t] ↔ ((s.setEnt t _).ent u).deferQueued = true
      rw [St.setEnt_ent, List.mem_append, List.mem_singleton]
      split
      next hut => exact ⟨fun _ => rfl, fun _ => .inr hut⟩
      next hut => exact ⟨fun hu => (h.queued u).1 (hu.resolve_right hut),
        fun hu => .inl ((h.queued u).2 hu)⟩
    · change u ∈ s.deferred ++ [t] at hu
      change Function.update s.exited t true u = true
      rw [List.mem_append, List.mem_singleton] at hu
      rw [Function.update_apply]
      split
      · rfl
      next hut => exact h.gone u (hu.resolve_right hut)
    · change u ∈ s.deferred ++ [t]
      rw [List.mem_append, List.mem_singleton]
      by_cases hut : u = t
      · exact .inr hut
      · change ((s.setEnt t _).ht u).isSome = true at hsome'
        rw [St.setEnt_ht, if_neg hut] at hsome'
        exact .inl (h.left u ((Function.update_of_ne hut ..).symm.trans hu) hsome')
    · exact List.nodup_append.2 ⟨h.nodup, List.nodup_singleton t, fun a ha b hb => by
        rw [List.mem_singleton.1 hb]
        rintro rfl
        exact hnot ha⟩
    · obtain ⟨hnone, hex⟩ := h.unborn u hu
      have hut := hunborn u hu
      exact ⟨(Function.update_of_ne hut ..).trans hnone,
        (Function.update_of_ne hut ..).trans hex⟩

theorem step_wf (h : Wf s) (hs : step s act = some s') : Wf s' := by
  cases act with
  | clone t sysvsem =>
    unfold step at hs
    dsimp only at hs
    split at hs
    · obtain rfl := Option.some.inj hs
      exact h.clone
    · cases hs
  | shmget t noEntry =>
    obtain ⟨ht, -, rfl⟩ := shmget_cases hs
    exact h.newseg ht
  | semBegin t semid noList noEntry err =>
    obtain ⟨ht, hno, rfl | ⟨r, ul, ⟨rfl, hul⟩ | ⟨hul, -, rfl, rfl⟩, rfl | rfl⟩⟩ :=
      semBegin_cases hs
    · exact h
    · exact h
    · obtain ⟨l, hl, -⟩ := h.held t ul hul
      exact h.setPending ht (h.fresh ul l hl) fun u hu => h.own u t ul hu hul
    · exact h.newUndo ht noEntry
    · refine (h.newUndo ht noEntry).setPending ?_ ?_ fun u hu => newUndo_own h t noEntry hu
      · rw [newUndo_running]
        exact ht
      · rw [St.newUndo_eq]
        exact Nat.lt_succ_self _
  | semEnd t sops ok =>
    have hclear : ∀ u p, Function.update s.pending t none u = some p →
        s.pending u = some p := by
      intro u p hp
      rw [Function.update_apply] at hp
      split at hp
      · cases hp
      · exact hp
    obtain ⟨p, hp, ⟨-, rfl⟩ | ⟨l, hl, rfl⟩⟩ := semEnd_cases hs
    · exact h.same (fun _ => rfl) (fun _ => rfl) (fun _ => Iff.rfl)
        (fun ul l hl => ⟨l, hl, rfl⟩) (fun ul l hl => ⟨l, hl⟩) rfl hclear rfl rfl rfl
    · refine h.same (fun _ => rfl) (fun _ => rfl) (fun _ => Iff.rfl) (fun ul l' hl' => ?_)
        (fun ul l' hl' => ?_) rfl hclear rfl rfl rfl
      · dsimp only
        rw [Function.update_apply]
        split
        next hul =>
          rw [hul] at hl'
          obtain rfl := Option.some.inj (hl.symm.trans hl')
          exact ⟨_, rfl, rfl⟩
        · exact ⟨l', hl', rfl⟩
      · dsimp only at hl'
        rw [Function.update_apply] at hl'
        split at hl'
        next hul => exact ⟨l, hul ▸ hl⟩
        · exact ⟨l', hl'⟩
  | unshare t newipc noEntry =>
    obtain ⟨-, ht, -, rfl⟩ := unshare_cases hs
    have hE : Wf (if newipc then (s.exitSem t).exitShm t noEntry else s.exitSem t) := by
      split
      · exact (h.exitSem t).exitShm ((exitSem_running h t t).trans ht)
      · exact h.exitSem t
    exact ⟨hE.held, hE.own, hE.fresh, hE.pend, hE.queued, hE.gone, hE.left, hE.nodup, hE.unborn⟩
  | exit t =>
    obtain ⟨ht, hno, rfl⟩ := exit_cases hs
    exact h.exit ht hno
  | deferredRun => exact h.deferredRun hs
  | shmRmid id =>
    unfold step at hs
    dsimp only at hs
    split at hs
    · obtain rfl := Option.some.inj hs
      exact h.shmRmid id
    · cases hs
  | semRmid semid =>
    obtain rfl := Option.some.inj hs
    have hC := h.clearAdj (·.semid == semid)
    refine ⟨hC.held, hC.own, hC.fresh, fun u p hp => ?_, hC.queued, hC.gone, hC.left, hC.nodup,
      hC.unborn⟩
    exact hC.pend u p (Option.filter_eq_some_iff.1 hp).1
  | setval semid num val =>
    obtain rfl := Option.some.inj hs
    have hC := h.clearAdj fun a => a.semid == semid && a.num == num
    exact ⟨hC.held, hC.own, hC.fresh, hC.pend, hC.queued, hC.gone, hC.left, hC.nodup, hC.unborn⟩

end DroidLkm.Tasks
