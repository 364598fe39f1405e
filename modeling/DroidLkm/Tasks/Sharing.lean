/-
  The IPC entries of tasks — undo lists and `clone`.

  * `Shared`: what `CLONE_SYSVSEM` asks for: tasks that are to share their undo list do,
    and its adjustments are not applied before the last of them is gone;
  * `Apart`: every task has a group of its own, kept by a `clone` without the flag;
  * `undo_shared`: runs without the flag, and what the flag does;
  * `copySemundo_shares`: what `droid_lkm_copy_semundo` would do, if it were called.
-/
import DroidLkm.Tasks.Lists

namespace DroidLkm.Tasks

open Machine

variable {s s' : St} {act : Act} {t u c ul id semid : ℕ} {l : UndoList} {a : Adj}
  {noList noEntry : Bool}

/-- Tasks that are to share an undo list. -/
structure Shared (s : St) : Prop where
  one : ∀ t u, s.running t = true → s.running u = true → t ≠ u → s.group t = s.group u →
    ∃ ul, s.undoList t = some ul ∧ s.undoList u = some ul
  held : ∀ a ∈ s.applied, ∀ t, s.running t = true → s.group t ≠ a.group

/-- No `clone` with `CLONE_SYSVSEM`. -/
def NoSysvsem (_ : St) : Act → Prop
  | .clone _ sysvsem => sysvsem = false
  | _ => True

/-- Every task has a group of its own, and so have the adjustments. -/
structure Apart (s : St) : Prop where
  inj : ∀ t u, t < s.nextTask → u < s.nextTask → s.group t = s.group u → t = u
  lt : ∀ t, t < s.nextTask → s.group t < s.nextGroup
  tagged : ∀ t ul l a, (s.ent t).undoList = some ul → s.undo ul = some l → a ∈ l.log →
    a.group = s.group t
  applied : ∀ a ∈ s.applied, a.group < s.nextGroup ∧
    ∀ t, s.running t = true → s.group t ≠ a.group

theorem init_apart (n : ℕ) : Apart (St.init n) where
  inj := fun _ _ _ _ h => h
  lt := fun _ h => h
  tagged := by rintro t ul l a ⟨⟩
  applied := by rintro a ⟨⟩

/-- The tasks are the same and nothing is applied. -/
theorem Apart.same (h : Apart s) (htask : s'.nextTask = s.nextTask)
    (hrun : ∀ t, s'.running t = true → s.running t = true) (hgroup : s'.group = s.group)
    (hnext : s'.nextGroup = s.nextGroup) (happ : s'.applied = s.applied)
    (htag : ∀ t ul l a, (s'.ent t).undoList = some ul → s'.undo ul = some l → a ∈ l.log →
      a.group = s.group t) : Apart s' where
  inj := by
    intro t u ht hu hg
    rw [htask] at ht hu
    rw [hgroup] at hg
    exact h.inj t u ht hu hg
  lt := by
    intro t ht
    rw [htask] at ht
    rw [hgroup, hnext]
    exact h.lt t ht
  tagged := by
    rw [hgroup]
    exact htag
  applied := by
    intro a ha
    rw [happ] at ha
    obtain ⟨hlt, hall⟩ := h.applied a ha
    rw [hnext, hgroup]
    exact ⟨hlt, fun t ht => hall t (hrun t ht)⟩

theorem lt_of_undoList (hW : Wf s) (hul : (s.ent t).undoList = some ul) : t < s.nextTask := by
  by_contra hge
  rw [ent_of_none (hW.unborn t (Nat.le_of_not_lt hge)).1] at hul
  cases hul

/-! ## `exit_sem` -/

theorem exitSem_applied (hW : Wf s) (h : Apart s) (ha : a ∈ (s.exitSem t).applied) :
    a ∈ s.applied ∨ (t < s.nextTask ∧ a.group = s.group t) := by
  rcases hW.exitSem_cases t with ⟨-, hs⟩ | ⟨ul, l, hul, hl, hs⟩
  · rw [hs] at ha
    exact .inl ha
  · rw [hs] at ha
    rcases List.mem_append.1 ha with ha | ha
    · exact .inl ha
    · exact .inr ⟨lt_of_undoList hW hul, h.tagged t ul l a hul hl ha⟩

theorem exitSem_tagged (hW : Wf s) (h : Apart s) (hu : ((s.exitSem t).ent u).undoList = some ul)
    (hl : (s.exitSem t).undo ul = some l) (ha : a ∈ l.log) : u ≠ t ∧ a.group = s.group u := by
  rcases hW.exitSem_cases t with ⟨hno, hs⟩ | ⟨v, l', hv, -, hs⟩
  · rw [hs] at hu hl
    refine ⟨?_, h.tagged u ul l a hu hl ha⟩
    rintro rfl
    cases hno.symm.trans hu
  · rw [hs] at hu hl
    change ((s.setEnt t _).ent u).undoList = some ul at hu
    change Function.update s.undo v none ul = some l at hl
    rw [St.setEnt_ent] at hu
    rw [Function.update_apply] at hl
    split at hu
    · cases hu
    next hut =>
      split at hl
      · cases hl
      · exact ⟨hut, h.tagged u ul l a hu hl ha⟩

theorem exitSem_rest (hW : Wf s) (t : ℕ) : (s.exitSem t).group = s.group ∧
    (s.exitSem t).nextGroup = s.nextGroup ∧ (s.exitSem t).nextTask = s.nextTask ∧
      (s.exitSem t).exited = s.exited := by
  rcases hW.exitSem_cases t with ⟨-, hs⟩ | ⟨v, l', -, -, hs⟩
  · rw [hs]
    exact ⟨rfl, rfl, rfl, rfl⟩
  · rw [hs]
    exact ⟨rfl, rfl, rfl, rfl⟩

/-! ## The steps -/

theorem Apart.clone (h : Apart s) (hW : Wf s) :
    Apart { s with
      nextTask := s.nextTask + 1
      group := Function.update s.group s.nextTask s.nextGroup
      nextGroup := s.nextGroup + 1 } := by
  have hold : ∀ t, t < s.nextTask →
      Function.update s.group s.nextTask s.nextGroup t = s.group t := by
    intro t ht
    exact Function.update_of_ne (Nat.ne_of_lt ht) ..
  have hnew : Function.update s.group s.nextTask s.nextGroup s.nextTask = s.nextGroup :=
    Function.update_self ..
  have hcase : ∀ t, t < s.nextTask + 1 → t < s.nextTask ∨ t = s.nextTask := by
    intro t ht
    omega
  refine ⟨fun t u ht hu hg => ?_, fun t ht => ?_, fun t ul l a hul hl ha => ?_, fun a ha => ?_⟩
  · dsimp only at hg
    rcases hcase t ht with ht | rfl
    · rcases hcase u hu with hu | rfl
      · rw [hold t ht, hold u hu] at hg
        exact h.inj t u ht hu hg
      · rw [hold t ht, hnew] at hg
        exact absurd hg (Nat.ne_of_lt (h.lt t ht))
    · rcases hcase u hu with hu | rfl
      · rw [hnew, hold u hu] at hg
        exact absurd hg.symm (Nat.ne_of_lt (h.lt u hu))
      · rfl
  · dsimp only
    rcases hcase t ht with ht | rfl
    · rw [hold t ht]
      exact Nat.lt_succ_of_lt (h.lt t ht)
    · rw [hnew]
      exact Nat.lt_succ_self _
  · dsimp only
    rw [hold t (lt_of_undoList hW hul)]
    exact h.tagged t ul l a hul hl ha
  · obtain ⟨hlt, hall⟩ := h.applied a ha
    refine ⟨Nat.lt_succ_of_lt hlt, fun t ht => ?_⟩
    obtain ⟨ht, hlive⟩ := running_iff.1 ht
    dsimp only
    rcases hcase t ht with ht | rfl
    · rw [hold t ht]
      exact hall t (running_iff.2 ⟨ht, hlive⟩)
    · rw [hnew]
      exact Nat.ne_of_gt hlt

theorem Apart.unshare (h : Apart s) (hW : Wf s) (ht : s.running t = true) {newipc : Bool} :
    Apart { (if newipc then (s.exitSem t).exitShm t noEntry else s.exitSem t) with
      group := Function.update (s.exitSem t).group t (s.exitSem t).nextGroup
      nextGroup := (s.exitSem t).nextGroup + 1 } := by
  obtain ⟨hgroup, hnext, htask, hex⟩ := exitSem_rest hW t
  have htlt := (running_iff.1 ht).1
  rw [hgroup, hnext]
  generalize hr : (if newipc then (s.exitSem t).exitShm t noEntry else s.exitSem t) = r
  have hrest : r.undo = (s.exitSem t).undo ∧ r.applied = (s.exitSem t).applied ∧
      r.nextTask = s.nextTask ∧ r.exited = s.exited ∧
      ∀ u, (r.ent u).undoList = ((s.exitSem t).ent u).undoList := by
    subst hr
    cases newipc with
    | false => exact ⟨rfl, rfl, htask, hex, fun _ => rfl⟩
    | true =>
      rw [if_pos rfl, St.exitShm_eq]
      split
      · exact ⟨rfl, rfl, htask, hex, fun _ => rfl⟩
      · refine ⟨rfl, rfl, htask, hex, fun u => ?_⟩
        change (((s.exitSem t).setEnt t _).ent u).undoList = _
        rw [St.setEnt_ent]
        split
        next hut => rw [hut]; rfl
        · rfl
  obtain ⟨hundo, happ, htask', hex', hul⟩ := hrest
  have hold : ∀ u, u ≠ t → Function.update s.group t s.nextGroup u = s.group u := by
    intro u hu
    exact Function.update_of_ne hu ..
  have hnew : Function.update s.group t s.nextGroup t = s.nextGroup := Function.update_self ..
  refine ⟨fun u v hu hv hg => ?_, fun u hu => ?_, fun u ul l a hu hl ha => ?_, fun a ha => ?_⟩
  · dsimp only at hu hv hg
    rw [htask'] at hu hv
    by_cases hut : u = t
    · by_cases hvt : v = t
      · exact hut.trans hvt.symm
      · rw [hut, hnew, hold v hvt] at hg
        exact absurd hg.symm (Nat.ne_of_lt (h.lt v hv))
    · by_cases hvt : v = t
      · rw [hvt, hnew, hold u hut] at hg
        exact absurd hg (Nat.ne_of_lt (h.lt u hu))
      · rw [hold u hut, hold v hvt] at hg
        exact h.inj u v hu hv hg
  · dsimp only at hu ⊢
    rw [htask'] at hu
    by_cases hut : u = t
    · rw [hut, hnew]
      exact Nat.lt_succ_self _
    · rw [hold u hut]
      exact Nat.lt_succ_of_lt (h.lt u hu)
  · obtain ⟨hut, htag⟩ := exitSem_tagged hW h ((hul u).symm.trans hu) (hundo ▸ hl) ha
    exact htag.trans (hold u hut).symm
  · dsimp only at ha ⊢
    rw [happ] at ha
    -- what was applied before, or has the group that `t` leaves
    have hgr : a.group < s.nextGroup ∧ ∀ u, u ≠ t → s.running u = true →
        s.group u ≠ a.group := by
      rcases exitSem_applied hW h ha with ha | ⟨-, hga⟩
      · exact ⟨(h.applied a ha).1, fun u _ hu => (h.applied a ha).2 u hu⟩
      · rw [hga]
        refine ⟨h.lt t htlt, fun u hut hu hg => ?_⟩
        exact hut (h.inj u t (running_iff.1 hu).1 htlt hg)
    refine ⟨Nat.lt_succ_of_lt hgr.1, fun u hu => ?_⟩
    by_cases hut : u = t
    · rw [hut, hnew]
      exact Nat.ne_of_gt hgr.1
    · rw [hold u hut]
      refine hgr.2 u hut ?_
      obtain ⟨h1, h2⟩ := running_iff.1 hu
      exact running_iff.2 ⟨htask' ▸ h1, by rw [← hex']; exact h2⟩

theorem Apart.deferredRun (h : Apart s) (hW : Wf s) (hs : step s .deferredRun = some s') :
    Apart s' := by
  rcases hd : s.deferred with _ | ⟨t, rest⟩
  · unfold step at hs
    rw [hd] at hs
    cases hs
  rw [deferredRun_eq hW hd] at hs
  obtain rfl := Option.some.inj hs
  obtain ⟨hgroup, hnext, htask, hex⟩ := exitSem_rest hW t
  have hdead : s.exited t = true := hW.gone t (by rw [hd]; exact List.mem_cons_self)
  refine ⟨fun u v hu hv hg => ?_, fun u hu => ?_, fun u ul l a hu hl ha => ?_, fun a ha => ?_⟩
  · exact h.inj u v (htask ▸ hu) (htask ▸ hv) (hgroup ▸ hg)
  · change (s.exitSem t).group u < (s.exitSem t).nextGroup
    rw [hgroup, hnext]
    exact h.lt u (htask ▸ hu)
  · change (((s.exitSem t).setEnt t none).ent u).undoList = some ul at hu
    change a.group = (s.exitSem t).group u
    rw [St.setEnt_ent] at hu
    rw [hgroup]
    split at hu
    · cases hu
    · exact (exitSem_tagged hW h hu hl ha).2
  · change a.group < (s.exitSem t).nextGroup ∧ ∀ u, (s.exitSem t).running u = true →
      (s.exitSem t).group u ≠ a.group
    rw [hgroup, hnext]
    rcases exitSem_applied hW h ha with ha | ⟨ht, hga⟩
    · refine ⟨(h.applied a ha).1, fun u hu => (h.applied a ha).2 u ?_⟩
      rw [← exitSem_running hW t u]
      exact hu
    · rw [hga]
      refine ⟨h.lt t ht, fun u hu hg => ?_⟩
      rw [exitSem_running hW] at hu
      obtain ⟨hlt, hlive⟩ := running_iff.1 hu
      rw [h.inj u t hlt ht hg] at hlive
      cases hlive.symm.trans hdead

theorem newUndo_tagged (h : Apart s)
    (hu : ((s.newUndo t noEntry).ent u).undoList = some ul)
    (hl : (s.newUndo t noEntry).undo ul = some l) (ha : a ∈ l.log) : a.group = s.group u := by
  rw [St.newUndo_eq] at hu hl
  change Function.update s.undo s.nextUndo _ ul = some l at hl
  rw [Function.update_apply] at hl
  split at hl
  · obtain rfl := Option.some.inj hl
    cases ha
  next hne =>
    split at hu
    · exact h.tagged u ul l a hu hl ha
    · change ((s.setEnt t _).ent u).undoList = some ul at hu
      rw [St.setEnt_ent] at hu
      split at hu
      · exact absurd (Option.some.inj hu).symm hne
      · exact h.tagged u ul l a hu hl ha

theorem Apart.semBegin (h : Apart s) {err : Bool}
    (hs : step s (.semBegin t semid noList noEntry err) = some s') : Apart s' := by
  have hrest : (s.newUndo t noEntry).group = s.group ∧
      (s.newUndo t noEntry).nextGroup = s.nextGroup ∧
      (s.newUndo t noEntry).nextTask = s.nextTask ∧
      (s.newUndo t noEntry).applied = s.applied := by
    rw [St.newUndo_eq]
    split
    · exact ⟨rfl, rfl, rfl, rfl⟩
    · exact ⟨rfl, rfl, rfl, rfl⟩
  obtain ⟨hgroup, hnext, htask, happ⟩ := hrest
  obtain ⟨-, -, rfl | ⟨r, ul, ⟨rfl, -⟩ | ⟨-, -, rfl, rfl⟩, rfl | rfl⟩⟩ := semBegin_cases hs
  · exact h
  · exact h
  · exact h.same rfl (fun _ hu => hu) rfl rfl rfl h.tagged
  · refine h.same htask (fun u hu => ?_) hgroup hnext happ
      fun u ul l a hu hl ha => newUndo_tagged h hu hl ha
    rw [← newUndo_running s t u noEntry]
    exact hu
  · refine h.same htask (fun u hu => ?_) hgroup hnext happ
      fun u ul l a hu hl ha => newUndo_tagged h hu hl ha
    rw [← newUndo_running s t u noEntry]
    exact hu

theorem Apart.semEnd (h : Apart s) (hW : Wf s) {sops : List Sembuf} {ok : Bool}
    (hs : step s (.semEnd t sops ok) = some s') : Apart s' := by
  obtain ⟨p, hp, ⟨-, rfl⟩ | ⟨l, hl, rfl⟩⟩ := semEnd_cases hs
  · exact h.same rfl (fun _ hu => hu) rfl rfl rfl h.tagged
  refine h.same rfl (fun _ hu => hu) rfl rfl rfl fun u ul l' a hu hl' ha => ?_
  dsimp only at hl'
  rw [Function.update_apply] at hl'
  split at hl'
  next hul =>
    subst hul
    obtain rfl := Option.some.inj hl'
    rcases List.mem_append.1 ha with ha | ha
    · exact h.tagged u _ l a hu hl ha
    · obtain ⟨o, -, rfl⟩ := List.mem_map.1 ha
      rw [(hW.pend t p hp).2.2 u hu]
  · exact h.tagged u ul l' a hu hl' ha

theorem Apart.clearAdj (h : Apart s) (p : Adj → Bool) : Apart (s.clearAdj p) := by
  refine h.same rfl (fun _ hu => hu) rfl rfl rfl fun u ul l a hu hl ha => ?_
  obtain ⟨l₀, hl₀, rfl⟩ := Option.map_eq_some_iff.1 hl
  exact h.tagged u ul l₀ a hu hl₀ (List.mem_of_mem_filter ha)

theorem Apart.exit (h : Apart s) (t : ℕ) :
    Apart { s.exitDefer t with exited := Function.update s.exited t true } := by
  have hrun : ∀ u, (decide (u < s.nextTask) && !Function.update s.exited t true u) = true →
      s.running u = true := by
    intro u hu
    simp only [Bool.and_eq_true, decide_eq_true_eq, Bool.not_eq_true'] at hu
    obtain ⟨hlt, hex⟩ := hu
    rw [Function.update_apply] at hex
    split at hex
    · cases hex
    · exact running_iff.2 ⟨hlt, hex⟩
  rcases s.exitDefer_eq t with hs | ⟨-, -, hs⟩
  · rw [hs]
    exact h.same rfl hrun rfl rfl rfl h.tagged
  · rw [hs]
    refine h.same rfl hrun rfl rfl rfl fun u ul l a hu hl ha => ?_
    change ((s.setEnt t _).ent u).undoList = some ul at hu
    rw [St.setEnt_ent] at hu
    split at hu
    next hut => exact hut ▸ h.tagged t ul l a hu hl ha
    · exact h.tagged u ul l a hu hl ha

theorem step_apart (hW : Wf s) (h : Apart s) (hc : NoSysvsem s act)
    (hs : step s act = some s') : Apart s' := by
  cases act with
  | clone t sysvsem =>
    obtain rfl : sysvsem = false := hc
    unfold step at hs
    dsimp only at hs
    split at hs
    · obtain rfl := Option.some.inj hs
      exact h.clone hW
    · cases hs
  | shmget t noEntry =>
    obtain ⟨-, -, rfl⟩ := shmget_cases hs
    rw [St.newseg_eq]
    split
    · exact h.same rfl (fun _ hu => hu) rfl rfl rfl h.tagged
    · refine h.same rfl (fun _ hu => hu) rfl rfl rfl fun u ul l a hu hl ha => ?_
      change ((s.setEnt t _).ent u).undoList = some ul at hu
      rw [St.setEnt_ent] at hu
      split at hu
      next hut => exact hut ▸ h.tagged t ul l a hu hl ha
      · exact h.tagged u ul l a hu hl ha
  | semBegin t semid noList noEntry err => exact h.semBegin hs
  | semEnd t sops ok => exact h.semEnd hW hs
  | unshare t newipc noEntry =>
    obtain ⟨-, ht, -, rfl⟩ := unshare_cases hs
    exact h.unshare hW ht
  | exit t =>
    obtain ⟨-, -, rfl⟩ := exit_cases hs
    exact h.exit t
  | deferredRun => exact h.deferredRun hW hs
  | shmRmid id =>
    unfold step at hs
    dsimp only at hs
    split at hs
    · obtain rfl := Option.some.inj hs
      refine h.same rfl (fun _ hu => hu) rfl rfl rfl fun u ul l a hu hl ha => ?_
      rw [shmRmid_ent] at hu
      exact h.tagged u ul l a hu hl ha
    · cases hs
  | semRmid semid =>
    obtain rfl := Option.some.inj hs
    have hC := h.clearAdj (·.semid == semid)
    exact hC.same rfl (fun _ hu => hu) rfl rfl rfl hC.tagged
  | setval semid num val =>
    obtain rfl := Option.some.inj hs
    have hC := h.clearAdj fun a => a.semid == semid && a.num == num
    exact hC.same rfl (fun _ hu => hu) rfl rfl rfl hC.tagged

theorem run_apart {n : ℕ} (h : RunIf step NoSysvsem (St.init n) s) : Wf s ∧ Apart s :=
  h.inv (I := fun s => Wf s ∧ Apart s) ⟨init_wf n, init_apart n⟩
    fun _ _ _ hi hc hs => ⟨step_wf hi.1 hs, step_apart hi.1 hi.2 hc hs⟩

/-- A child has no entry, with the flag or without. -/
theorem clone_undoList (hW : Wf s) {sysvsem : Bool}
    (hs : step s (.clone t sysvsem) = some s') : s'.undoList s.nextTask = none := by
  unfold step at hs
  dsimp only at hs
  split at hs
  · obtain rfl := Option.some.inj hs
    rw [St.undoList_eq]
    exact congrArg TaskIpc.undoList (ent_of_none (hW.unborn _ (Nat.le_refl _)).1)
  · cases hs

theorem clone_not_shared (hW : Wf s) (hs : step s (.clone t true) = some s') : ¬Shared s' := by
  intro hsh
  have hno := clone_undoList hW hs
  unfold step at hs
  dsimp only at hs
  split at hs
  next ht =>
    obtain rfl := Option.some.inj hs
    obtain ⟨hlt, hlive⟩ := running_iff.1 ht
    have hne : t ≠ s.nextTask := Nat.ne_of_lt hlt
    have hgroup : Function.update s.group s.nextTask (s.group t) t =
        Function.update s.group s.nextTask (s.group t) s.nextTask := by
      rw [Function.update_of_ne hne, Function.update_self]
    obtain ⟨ul, -, hul⟩ := hsh.one t s.nextTask
      (running_iff.2 ⟨Nat.lt_succ_of_lt hlt, hlive⟩)
      (running_iff.2 ⟨Nat.lt_succ_self _, (hW.unborn _ (Nat.le_refl _)).2⟩) hne hgroup
    cases hno.symm.trans hul
  · cases hs

/-- **Undo lists and `clone`.**  As long as no task is cloned with `CLONE_SYSVSEM`, the
    undo lists are as they should; a child starts without adjustments; and a `clone` with
    the flag leaves two tasks that are to share an undo list and do not. -/
theorem undo_shared {n : ℕ} (h : RunIf step NoSysvsem (St.init n) s) : Shared s ∧
    (∀ t s', step s (.clone t false) = some s' → s'.undoList s.nextTask = none) ∧
    ∀ t s', step s (.clone t true) = some s' → ¬Shared s' := by
  obtain ⟨hW, hA⟩ := run_apart h
  refine ⟨⟨fun t u ht hu hne hg => ?_, fun a ha t ht => (hA.applied a ha).2 t ht⟩, ?_, ?_⟩
  · exact absurd (hA.inj t u (running_iff.1 ht).1 (running_iff.1 hu).1 hg) hne
  · intro t s' hs
    exact clone_undoList hW hs
  · intro t s' hs
    exact clone_not_shared hW hs

instance (s : St) : (act : Act) → Decidable (NoSysvsem s act)
  | .clone _ sysvsem => inferInstanceAs (Decidable (sysvsem = false))
  | .shmget .. | .semBegin .. | .semEnd .. | .unshare .. | .exit _ | .deferredRun | .shmRmid _
  | .semRmid _ | .setval .. => inferInstanceAs (Decidable True)

/-- A child without the flag records an adjustment and exits, its parent goes on. -/
theorem undo_shared_fork : ∃ s, RunIf step NoSysvsem (St.init 1) s ∧ Shared s ∧
    s.applied = [⟨5, 0, 1, 1, 1⟩] ∧ s.running 0 = true := by
  obtain ⟨s, hrun, hs⟩ := execIf_check step (fun s act => decide (NoSysvsem s act))
    (fun _ _ => of_decide_eq_true) (St.init 1)
    [.clone 0 false, .semBegin 1 5 false false false, .semEnd 1 [⟨0, -1, true⟩] true, .exit 1,
      .deferredRun]
    (fun s => decide (s.applied = [⟨5, 0, 1, 1, 1⟩] ∧ s.running 0 = true)) (by decide +kernel)
  exact ⟨s, hrun, (undo_shared hrun).1, of_decide_eq_true hs⟩

/-- With the flag, the adjustment of the child is applied when the child exits. -/
theorem undo_not_shared : ∃ s, Run step (St.init 1) s ∧
    (s.running 0 = true ∧ s.group 0 = s.group 1 ∧ s.applied = [⟨5, 0, 1, 1, s.group 0⟩]) ∧
      ¬Shared s := by
  obtain ⟨s, hrun, hs⟩ := exec_check step (St.init 1)
    [.clone 0 true, .semBegin 1 5 false false false, .semEnd 1 [⟨0, -1, true⟩] true, .exit 1,
      .deferredRun]
    (fun s => decide (s.running 0 = true ∧ s.group 0 = s.group 1 ∧
      s.applied = [⟨5, 0, 1, 1, s.group 0⟩])) (by decide +kernel)
  have hs := of_decide_eq_true hs
  refine ⟨s, hrun, hs, fun hsh => ?_⟩
  refine hsh.held ⟨5, 0, 1, 1, s.group 0⟩ ?_ 0 hs.1 rfl
  rw [hs.2.2]
  exact List.mem_singleton_self _

/-! ## `droid_lkm_copy_semundo` -/

/-- With the flag and the memory it would give the child its parent's list.  Nothing calls it. -/
theorem copySemundo_shares (hne : t ≠ c) (ht : ¬s.Missing t noEntry) (hc : ¬s.Missing c noEntry)
    (h : s.copySemundo t c true noList noEntry = (s', .ok ())) :
    ∃ ul, s'.undoList t = some ul ∧ s'.undoList c = some ul := by
  have hset : ∀ {r : St} {ul : ℕ}, ¬r.Missing c noEntry → (r.ent t).undoList = some ul →
      (r.undoListSet c (some ul) noEntry).undoList t = some ul ∧
        (r.undoListSet c (some ul) noEntry).undoList c = some ul := by
    intro r ul hr hul
    rw [St.undoListSet_eq, if_neg hr, St.undoList_eq, St.undoList_eq, St.setEnt_ent,
      St.setEnt_ent, if_neg hne, if_pos rfl]
    exact ⟨hul, rfl⟩
  unfold St.copySemundo at h
  rw [if_pos rfl] at h
  rcases s.getUndoList_cases t noList noEntry with
    ⟨ul, hul, hg⟩ | ⟨hul, ⟨-, hg⟩ | ⟨-, hg⟩⟩
  · rw [hg] at h
    obtain rfl := congrArg Prod.fst h
    exact ⟨ul, hset hc hul⟩
  · rw [hg] at h
    cases congrArg Prod.snd h
  · rw [hg] at h
    obtain rfl := congrArg Prod.fst h
    refine ⟨s.nextUndo, hset ?_ ?_⟩
    · rintro ⟨hht, hm⟩
      refine hc ⟨?_, hm⟩
      rw [St.newUndo_eq, if_neg ht] at hht
      exact (Function.update_of_ne hne.symm ..).symm.trans hht
    · change ((s.newUndo t noEntry).ent t).undoList = _
      rw [St.newUndo_eq, if_neg ht]
      change ((s.setEnt t _).ent t).undoList = _
      rw [St.setEnt_ent, if_pos rfl]
      rfl

end DroidLkm.Tasks
