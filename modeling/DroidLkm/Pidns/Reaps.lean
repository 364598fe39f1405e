/-
  Pid namespaces and their init — the invariant.

  Until the hook has run for a namespace, its reaper is a live task, the leader
  of its init process; afterwards it is `ds-zap`.  A leader stays the leader
  while it lives: `exec` in another thread waits for it to be gone.

  * `Open`, `Closed`: a namespace before and after the hook ran for it;
  * `Inv`: the invariant of all runs;
  * `Frame`: what the steps that leave the registry alone have in common;
  * `Inv.exit_cases`, `Fires`: what the exit of a thread does;
  * `step_inv`, `run_inv`: every step keeps the invariant.
-/
import DroidLkm.Pidns.Reaper

namespace DroidLkm.Pidns

open Machine

namespace State

variable {s s' : State} {n t : ℕ} {x y : PidNs} {act : Act}

/-- The namespaces for which the hook ran past its test, the last one first. -/
def zapped (s : State) : List ℕ := s.fired.map Firing.ns

/-- The reaper of a namespace is a live task of it, the leader of its init. -/
structure Reaps (s : State) (n : ℕ) (x : PidNs) (t : ℕ) : Prop where
  reaper : x.childReaper = some t
  live : (s.task t).live = true
  ns : (s.task t).ns = n
  init : x.init = some (s.task t).group
  leader : (s.groupOf t).leader = t

/-- A namespace before the hook has run for it: it has no process yet, or the
    leader of its init is its reaper. -/
structure Open (s : State) (n : ℕ) (x : PidNs) : Prop where
  adding : x.adding = true
  unqueued : x.zapQueued = false
  reaper : x.childReaper = none ∧ x.init = none ∨ ∃ t, s.Reaps n x t

/-- A namespace after that. -/
structure Closed (s : State) (n : ℕ) (x : PidNs) : Prop where
  adding : x.adding = false
  queued : x.zapQueued = true
  reaper : x.childReaper = s.reaperTask
  /-- the process the hook ran in was the init -/
  init : ∀ f ∈ s.fired, f.ns = n → x.init = some f.group

/-- The record of a registered namespace agrees with the log. -/
structure Sound (s : State) (n : ℕ) (x : PidNs) : Prop where
  known : n ≠ 0 ∧ n < s.nextNs
  open' : n ∉ s.zapped → s.Open n x
  closed : n ∈ s.zapped → s.Closed n x

/-- **The invariant of all runs.** -/
structure Inv (s : State) : Prop where
  reaper : s.reaperTask = some 0
  zero : (s.task 0).live = true ∧ (s.task 0).ns = 0
  live : ∀ t, (s.task t).live = true → t < s.nextTask ∧ (s.task t).group < s.nextGroup
  sound : ∀ n x, s.pidns n = some x → s.Sound n x
  zapped : ∀ n ∈ s.zapped, (s.pidns n).isSome
  queued : ∀ n ∈ s.zapList, n ∈ s.zapped
  once : s.zapped.Nodup
  nextNs : 0 < s.nextNs

theorem mem_others {u : ℕ} : u ∈ s.others t ↔ u < s.nextTask ∧ u ≠ t ∧
    (s.task u).group = (s.task t).group ∧ (s.task u).live = true := by
  simp [others, List.mem_filter]

/-! ## Steps that leave the registry alone -/

/-- Live tasks stay what they are and leaders stay leaders; nothing else that
    the invariant is about changes, apart from the records of namespaces. -/
structure Frame (s s' : State) : Prop where
  reaper : s'.reaperTask = s.reaperTask
  task : ∀ t, (s.task t).live = true →
    s'.task t = s.task t ∧ ((s.groupOf t).leader = t → (s'.groupOf t).leader = t)
  live : ∀ t, (s'.task t).live = true → t < s'.nextTask ∧ (s'.task t).group < s'.nextGroup
  nextNs : s.nextNs ≤ s'.nextNs
  zapList : ∀ n ∈ s'.zapList, n ∈ s.zapList
  fired : s'.fired = s.fired

theorem Frame.zapped (h : Frame s s') : s'.zapped = s.zapped :=
  congrArg (List.map Firing.ns) h.fired

theorem Frame.open' (h : Frame s s') (ho : s.Open n x) : s'.Open n x := by
  refine ⟨ho.adding, ho.unqueued, ?_⟩
  rcases ho.reaper with hnone | ⟨t, hr⟩
  · exact Or.inl hnone
  · obtain ⟨htask, hlead⟩ := h.task t hr.live
    refine Or.inr ⟨t, hr.reaper, ?_, ?_, ?_, hlead hr.leader⟩
    · rw [htask]; exact hr.live
    · rw [htask]; exact hr.ns
    · rw [htask]; exact hr.init

theorem Frame.sound (h : Frame s s') (hs : s.Sound n x) : s'.Sound n x := by
  refine ⟨⟨hs.known.1, Nat.lt_of_lt_of_le hs.known.2 h.nextNs⟩, ?_, ?_⟩
  · intro hn
    rw [h.zapped] at hn
    exact h.open' (hs.open' hn)
  · intro hn
    rw [h.zapped] at hn
    obtain ⟨hadd, hq, hr, hinit⟩ := hs.closed hn
    refine ⟨hadd, hq, hr.trans h.reaper.symm, ?_⟩
    rw [h.fired]
    exact hinit

/-- A step within the frame keeps the invariant, if the records it writes are sound. -/
theorem Inv.frame (hi : Inv s) (h : Frame s s')
    (hsome : ∀ n, (s.pidns n).isSome → (s'.pidns n).isSome)
    (hrec : ∀ n x, s'.pidns n = some x → s.pidns n = some x ∨ s'.Sound n x) : Inv s' := by
  refine ⟨h.reaper.trans hi.reaper, ?_, h.live, ?_, ?_, ?_, ?_,
    Nat.lt_of_lt_of_le hi.nextNs h.nextNs⟩
  · rw [(h.task 0 hi.zero.1).1]
    exact hi.zero
  · intro n x hx
    rcases hrec n x hx with hold | hnew
    · exact h.sound (hi.sound n x hold)
    · exact hnew
  · intro n hn
    rw [h.zapped] at hn
    exact hsome n (hi.zapped n hn)
  · intro n hn
    rw [h.zapped]
    exact hi.queued n (h.zapList n hn)
  · rw [h.zapped]
    exact hi.once

/-- The same for a step that writes no record. -/
theorem Inv.frame_same (hi : Inv s) (h : Frame s s') (hp : s'.pidns = s.pidns) : Inv s' := by
  refine hi.frame h ?_ ?_
  · intro n hn
    rw [hp]
    exact hn
  · intro n x hx
    rw [hp] at hx
    exact Or.inl hx

/-- And for one that writes the record of `n`. -/
theorem Inv.setNs (hi : Inv s) (h : Frame s s')
    (hp : s'.pidns = Function.update s.pidns n (some y)) (hy : s'.Sound n y) : Inv s' := by
  refine hi.frame h ?_ ?_
  · intro m hm
    rw [hp]
    rcases eq_or_ne m n with rfl | hne
    · rw [Function.update_self]; rfl
    · rw [Function.update_of_ne hne]; exact hm
  · intro m x hx
    rw [hp] at hx
    rcases eq_or_ne m n with rfl | hne
    · rw [Function.update_self] at hx
      obtain rfl := Option.some.inj hx
      exact Or.inr hy
    · rw [Function.update_of_ne hne] at hx
      exact Or.inl hx

theorem groupOf_setGroup (g : ℕ) (z : Group) (t : ℕ) :
    (s.setGroup g z).groupOf t = if (s.task t).group = g then z else s.groupOf t :=
  Function.update_apply _ _ _ _

theorem unsignalled_live (h : s.unsignalled t = true) : (s.task t).live = true := by
  simp only [unsignalled, Bool.and_eq_true] at h
  exact h.1.1

/-- A group is written, and what is written keeps the leader. -/
theorem Inv.setGroup (hi : Inv s) {g : ℕ} {z : Group}
    (hz : ∀ t, (s.task t).live = true → (s.task t).group = g → (s.groupOf t).leader = t →
      z.leader = t) : Inv (s.setGroup g z) := by
  refine hi.frame_same ⟨rfl, ?_, hi.live, Nat.le_refl _, fun _ h => h, rfl⟩ rfl
  intro t ht
  refine ⟨rfl, ?_⟩
  intro hlead
  rw [groupOf_setGroup]
  split
  · exact hz t ht ‹_› hlead
  · exact hlead

theorem Inv.reaps_ne_zero (hi : Inv s) (hn : n ≠ 0) (h : s.Reaps n x t) : t ≠ 0 := by
  rintro rfl
  exact hn (h.ns.symm.trans hi.zero.2)

/-- A task is born, maybe with a group of its own. -/
theorem Frame.addTask (hi : Inv s) (g n k : ℕ) (f : ℕ → Group)
    (hg : g < k) (hk : s.nextGroup ≤ k) (hf : ∀ i, i < s.nextGroup → f i = s.group i) :
    Frame s { s.addTask g n with
      group := f
      nextGroup := k } := by
  have hne : ∀ t, (s.task t).live = true → t ≠ s.nextTask := by
    rintro t ht rfl
    exact Nat.lt_irrefl _ (hi.live _ ht).1
  refine ⟨rfl, ?_, ?_, Nat.le_refl _, fun _ h => h, rfl⟩
  · intro t ht
    have htask : Function.update s.task s.nextTask ⟨g, n, true⟩ t = s.task t :=
      Function.update_of_ne (hne t ht) _ _
    refine ⟨htask, ?_⟩
    intro hlead
    show (f (Function.update s.task s.nextTask ⟨g, n, true⟩ t).group).leader = t
    rw [htask, hf _ (hi.live t ht).2]
    exact hlead
  · intro t ht
    replace ht : (Function.update s.task s.nextTask ⟨g, n, true⟩ t).live = true := ht
    show t < s.nextTask + 1 ∧ (Function.update s.task s.nextTask ⟨g, n, true⟩ t).group < k
    rcases eq_or_ne t s.nextTask with rfl | hnt
    · rw [Function.update_self]
      exact ⟨Nat.lt_succ_self _, hg⟩
    · rw [Function.update_of_ne hnt] at ht ⊢
      obtain ⟨h1, h2⟩ := hi.live t ht
      exact ⟨Nat.lt_succ_of_lt h1, Nat.lt_of_lt_of_le h2 hk⟩

/-! ## The exit of a thread -/

/-- The exit of `t`, for which the hook ran past its test. -/
structure Fires (s s' : State) (t n : ℕ) (x : PidNs) : Prop where
  ns : (s.task t).ns = n
  found : s.pidns n = some x
  reaper : x.childReaper = some t
  reaperTask : s'.reaperTask = s.reaperTask
  task : s'.task = Function.update s.task t { s.task t with live := false }
  leader : ∀ u, (s'.groupOf u).leader = (s.groupOf u).leader
  pidns : s'.pidns = Function.update s.pidns n
    (some { x with adding := false, childReaper := s.reaperTask, zapQueued := true })
  zapList : s'.zapList = s.zapList ++ [n]
  next : s'.nextTask = s.nextTask ∧ s'.nextGroup = s.nextGroup ∧ s'.nextNs = s.nextNs
  fired : s'.fired = ⟨n, t, (s.task t).group, s.others t, (s.groupOf t).groupExit⟩ :: s.fired

/-- The test fails: the task is not the reaper of a registered namespace. -/
theorem doExitPre_quiet (h : ∀ x, s.pidns (s.task t).ns = some x → x.childReaper ≠ some t) :
    s.doExitPre t = s := by
  unfold doExitPre
  dsimp only
  split
  · rfl
  · rename_i x hx
    rw [if_pos (h x hx)]

theorem disable_reap_queue {k : ℕ} (hx : s.pidns n = some x) (hq : x.zapQueued = false) :
    ((s.disablePidAllocation n).setChildReaper n k).queueZap n =
      { s with
        pidns := Function.update s.pidns n
          (some { x with adding := false, childReaper := some k, zapQueued := true })
        zapList := s.zapList ++ [n] } := by
  simp only [disablePidAllocation, hx, setNs, setChildReaper, Function.update_self,
    Function.update_idem, queueZap, hq, Bool.false_eq_true, if_false]

theorem queueZap_setGroup (g : ℕ) (z : Group) :
    (s.setGroup g z).queueZap n = (s.queueZap n).setGroup g z := by
  have hp : (s.setGroup g z).pidns n = s.pidns n := rfl
  unfold queueZap
  rw [hp]
  cases s.pidns n with
  | none => rfl
  | some x =>
    dsimp only
    split <;> rfl

/-- The test succeeds. -/
theorem doExit_fires (hr : s.reaperTask = some 0) (hx : s.pidns (s.task t).ns = some x)
    (hq : x.zapQueued = false) (hc : x.childReaper = some t) :
    Fires s (s.doExit t) t (s.task t).ns x := by
  have hdis : (s.disablePidAllocation (s.task t).ns).reaperTask = some 0 := by
    rw [disablePidAllocation, hx]
    exact hr
  have hpre : ∃ f : ℕ → Group, (∀ g, (f g).leader = (s.group g).leader) ∧
      s.doExitPre t = { s with
        group := f
        pidns := Function.update s.pidns (s.task t).ns
          (some { x with adding := false, childReaper := s.reaperTask, zapQueued := true })
        zapList := s.zapList ++ [(s.task t).ns]
        fired := ⟨(s.task t).ns, t, (s.task t).group, s.others t,
          (s.groupOf t).groupExit⟩ :: s.fired } := by
    unfold doExitPre
    simp only [hx, hc, ne_eq, not_true, if_false, hdis, hr]
    split
    · refine ⟨Function.update s.group (s.task t).group
        { s.groupOf t with groupExitCode := x.reboot }, ?_, ?_⟩
      · intro g
        rw [Function.update_apply]
        split
        · rename_i hg
          rw [hg]
          rfl
        · rfl
      · rw [queueZap_setGroup, disable_reap_queue hx hq]
        simp only [setGroup, hr]
    · refine ⟨s.group, fun _ => rfl, ?_⟩
      rw [disable_reap_queue hx hq]
      simp only [hr]
  obtain ⟨f, hf, hpre⟩ := hpre
  rw [doExit, hpre]
  refine ⟨rfl, hx, hc, rfl, rfl, ?_, rfl, rfl, ⟨rfl, rfl, rfl⟩, rfl⟩
  intro u
  show (f (Function.update s.task t _ u).group).leader = _
  rw [hf, Function.update_apply]
  split
  · rename_i hu
    rw [hu]
    rfl
  · rfl

theorem Inv.reaps (hi : Inv s) (hx : s.pidns n = some x) (hn : n ∉ s.zapped)
    (hc : x.childReaper = some t) : s.Reaps n x t := by
  rcases ((hi.sound n x hx).open' hn).reaper with ⟨hnone, -⟩ | ⟨u, hu⟩
  · rw [hnone] at hc
    cases hc
  · obtain rfl := Option.some.inj (hu.reaper.symm.trans hc)
    exact hu

/-- The exit of a task that is not `ds-zap`: either no reaper goes, or the hook
    runs past its test for a namespace for which it has not done so before. -/
theorem Inv.exit_cases (hi : Inv s) (ht : t ≠ 0) :
    (∀ n x, s.pidns n = some x → n ∉ s.zapped → x.childReaper ≠ some t) ∧ s.doExitPre t = s ∨
      ∃ n x, n ∉ s.zapped ∧ s.Reaps n x t ∧ Fires s (s.doExit t) t n x := by
  by_cases h : ∃ x, s.pidns (s.task t).ns = some x ∧ x.childReaper = some t
  · obtain ⟨x, hx, hc⟩ := h
    have hn : (s.task t).ns ∉ s.zapped := by
      intro hn
      have hcl := ((hi.sound _ x hx).closed hn).reaper
      rw [hi.reaper, hc] at hcl
      exact ht (Option.some.inj hcl)
    have hq := ((hi.sound _ x hx).open' hn).unqueued
    exact Or.inr ⟨_, x, hn, hi.reaps hx hn hc, doExit_fires hi.reaper hx hq hc⟩
  · refine Or.inl ⟨?_, doExitPre_quiet fun x hx hc => h ⟨x, hx, hc⟩⟩
    intro n x hx hn hc
    exact h ⟨x, (hi.reaps hx hn hc).ns ▸ hx, hc⟩

theorem gone_live : ((s.gone t).task t).live = false := by
  show (Function.update s.task t { s.task t with live := false } t).live = false
  rw [Function.update_self]

/-- A task that reaps nothing is gone. -/
theorem Inv.quiet_exit (hi : Inv s) (ht : t ≠ 0)
    (hq : ∀ n x, s.pidns n = some x → n ∉ s.zapped → x.childReaper ≠ some t) :
    Inv (s.gone t) := by
  have hkeep : ∀ u, u ≠ t → (s.gone t).task u = s.task u :=
    fun u hu => Function.update_of_ne hu _ _
  refine ⟨hi.reaper, ?_, ?_, ?_, hi.zapped, hi.queued, hi.once, hi.nextNs⟩
  · rw [hkeep 0 ht.symm]
    exact hi.zero
  · intro u hu
    have hut : u ≠ t := by
      rintro rfl
      rw [gone_live] at hu
      cases hu
    rw [hkeep u hut] at hu ⊢
    exact hi.live u hu
  · intro n x hx
    obtain ⟨hknown, hopen, hclosed⟩ := hi.sound n x hx
    refine ⟨hknown, ?_, fun hn => ⟨(hclosed hn).1, (hclosed hn).2, (hclosed hn).3, (hclosed hn).4⟩⟩
    intro hn
    refine ⟨(hopen hn).adding, (hopen hn).unqueued, ?_⟩
    rcases (hopen hn).reaper with hnone | ⟨u, hu⟩
    · exact Or.inl hnone
    · have hut : u ≠ t := by
        rintro rfl
        exact hq n x hx hn hu.reaper
      refine Or.inr ⟨u, hu.reaper, ?_, ?_, ?_, ?_⟩
      · rw [hkeep u hut]; exact hu.live
      · rw [hkeep u hut]; exact hu.ns
      · rw [hkeep u hut]; exact hu.init
      · rw [groupOf, hkeep u hut]; exact hu.leader

/-- The reaper is gone and the namespace is closed. -/
theorem Inv.fires (hi : Inv s) (ht : t ≠ 0) (hn : n ∉ s.zapped) (hr : s.Reaps n x t)
    (h : Fires s s' t n x) : Inv s' := by
  have hz : s'.zapped = n :: s.zapped := congrArg (List.map Firing.ns) h.fired
  have hkeep : ∀ u, u ≠ t → s'.task u = s.task u := by
    intro u hu
    rw [h.task, Function.update_of_ne hu]
  have hlive : ∀ u, (s'.task u).live = true → u ≠ t := by
    rintro u hu rfl
    rw [h.task, Function.update_self] at hu
    cases hu
  obtain ⟨hnt, hng, hnn⟩ := h.next
  refine ⟨h.reaperTask.trans hi.reaper, ?_, ?_, ?_, ?_, ?_, ?_, hnn ▸ hi.nextNs⟩
  · rw [hkeep 0 ht.symm]
    exact hi.zero
  · intro u hu
    have hut := hlive u hu
    rw [hkeep u hut] at hu ⊢
    rw [hnt, hng]
    exact hi.live u hu
  · intro m y hy
    rw [h.pidns] at hy
    rcases eq_or_ne m n with rfl | hmn
    · rw [Function.update_self] at hy
      obtain rfl := Option.some.inj hy
      refine ⟨hnn ▸ (hi.sound m x h.found).known, ?_, ?_⟩
      · intro hm
        rw [hz] at hm
        exact absurd List.mem_cons_self hm
      · intro _
        refine ⟨rfl, rfl, h.reaperTask.symm, ?_⟩
        intro f hf hns
        rw [h.fired] at hf
        rcases List.mem_cons.1 hf with rfl | hf
        · exact hr.init
        · exact absurd (List.mem_map.2 ⟨f, hf, hns⟩) hn
    · rw [Function.update_of_ne hmn] at hy
      obtain ⟨hknown, hopen, hclosed⟩ := hi.sound m y hy
      refine ⟨hnn ▸ hknown, ?_, ?_⟩
      · intro hm
        rw [hz, List.mem_cons, not_or] at hm
        refine ⟨(hopen hm.2).adding, (hopen hm.2).unqueued, ?_⟩
        rcases (hopen hm.2).reaper with hnone | ⟨u, hu⟩
        · exact Or.inl hnone
        · have hut : u ≠ t := by
            rintro rfl
            exact hmn (hu.ns.symm.trans hr.ns)
          refine Or.inr ⟨u, hu.reaper, ?_, ?_, ?_, (h.leader u).trans hu.leader⟩
          · rw [hkeep u hut]; exact hu.live
          · rw [hkeep u hut]; exact hu.ns
          · rw [hkeep u hut]; exact hu.init
      · intro hm
        rw [hz, List.mem_cons, or_iff_right hmn] at hm
        obtain ⟨hadd, hq, hre, hinit⟩ := hclosed hm
        refine ⟨hadd, hq, hre.trans h.reaperTask.symm, ?_⟩
        intro f hf hns
        rw [h.fired] at hf
        rcases List.mem_cons.1 hf with rfl | hf
        · exact absurd hns.symm hmn
        · exact hinit f hf hns
  · intro m hm
    rw [hz, List.mem_cons] at hm
    rw [h.pidns]
    rcases eq_or_ne m n with rfl | hmn
    · rw [Function.update_self]
      rfl
    · rw [Function.update_of_ne hmn]
      exact hi.zapped m (hm.resolve_left hmn)
  · intro m hm
    rw [h.zapList, List.mem_append, List.mem_singleton] at hm
    rw [hz, List.mem_cons]
    exact hm.symm.imp_right (hi.queued m)
  · rw [hz]
    exact List.nodup_cons.2 ⟨hn, hi.once⟩

/-! ## The step lemma -/

theorem Inv.fork (hi : Inv s) (n : ℕ) : Inv (s.fork n) := by
  have hborn := Frame.addTask hi s.nextGroup n (s.nextGroup + 1)
    (Function.update s.group s.nextGroup ⟨s.nextTask, false, 0, none⟩)
    (Nat.lt_succ_self _) (Nat.le_succ _)
    (fun i hlt => Function.update_of_ne (Nat.ne_of_lt hlt) _ _)
  unfold State.fork
  dsimp only
  split
  · exact hi.frame_same hborn rfl
  · rename_i x hx
    split
    · rename_i hc
      have hs := hi.sound n x hx
      refine hi.setNs (n := n) (y := { x with
          childReaper := some s.nextTask
          init := some s.nextGroup })
        ⟨hborn.reaper, hborn.task, hborn.live, hborn.nextNs, hborn.zapList, hborn.fired⟩ rfl ?_
      have hopen : n ∉ s.zapped := by
        intro hz
        have hr := (hs.closed hz).reaper
        rw [hc, hi.reaper] at hr
        cases hr
      obtain ⟨hadd, hq, -⟩ := hs.open' hopen
      refine ⟨hs.known, ?_, fun hz => absurd hz hopen⟩
      intro _
      have hself : Function.update s.task s.nextTask ⟨s.nextGroup, n, true⟩ s.nextTask =
          ⟨s.nextGroup, n, true⟩ := Function.update_self ..
      refine ⟨hadd, hq, Or.inr ⟨s.nextTask, rfl, ?_, ?_, ?_, ?_⟩⟩
      · exact congrArg Task.live hself
      · exact congrArg Task.ns hself
      · exact congrArg (fun z : Task => some z.group) hself.symm
      · show (Function.update s.group s.nextGroup ⟨s.nextTask, false, 0, none⟩
          (Function.update s.task s.nextTask ⟨s.nextGroup, n, true⟩ s.nextTask).group).leader = _
        rw [hself, Function.update_self]
    · exact hi.frame_same hborn rfl

/-- **Every step keeps the invariant.** -/
theorem step_inv (hi : Inv s) (hs : s.step act = some s') : Inv s' := by
  cases act with
  | create =>
    obtain rfl := Option.some.inj hs
    have hfresh : s.nextNs ∉ s.zapped := by
      intro hz
      obtain ⟨x, hx⟩ := Option.isSome_iff_exists.1 (hi.zapped _ hz)
      exact Nat.lt_irrefl _ (hi.sound _ x hx).known.2
    refine hi.setNs (n := s.nextNs)
      ⟨rfl, fun t _ => ⟨rfl, id⟩, hi.live, Nat.le_succ _, fun _ h => h, rfl⟩ rfl ?_
    refine ⟨⟨Nat.ne_of_gt hi.nextNs, Nat.lt_succ_self _⟩, ?_, fun hz => absurd hz hfresh⟩
    intro _
    exact ⟨rfl, rfl, Or.inl ⟨rfl, rfl⟩⟩
  | fork t n =>
    simp only [step, Bool.and_eq_true] at hs
    split at hs
    · obtain rfl := Option.some.inj hs
      exact hi.fork n
    · cases hs
  | thread t =>
    simp only [step, Bool.and_eq_true] at hs
    split at hs
    · rename_i hg
      obtain rfl := Option.some.inj hs
      have ht := hi.live t (unsignalled_live hg.1)
      exact hi.frame_same (Frame.addTask hi _ _ s.nextGroup s.group ht.2 (Nat.le_refl _)
        fun _ _ => rfl) rfl
    · cases hs
  | exit t =>
    simp only [step] at hs
    split at hs
    · rename_i hg
      obtain rfl := Option.some.inj hs
      have ht : t ≠ 0 := by
        rintro rfl
        exact hg.2.1 hi.reaper
      rcases hi.exit_cases ht with ⟨hq, hpre⟩ | ⟨n, x, hn, hr, hf⟩
      · rw [doExit, hpre]
        exact hi.quiet_exit ht hq
      · exact hi.fires ht hn hr hf
    · cases hs
  | groupExit t =>
    simp only [step] at hs
    split at hs
    · obtain rfl := Option.some.inj hs
      refine hi.setGroup ?_
      intro u _ hu hlead
      rw [groupOf, hu] at hlead
      exact hlead
    · cases hs
  | exec t =>
    simp only [step] at hs
    split at hs
    · obtain rfl := Option.some.inj hs
      refine hi.setGroup ?_
      intro u _ hu hlead
      rw [groupOf, hu] at hlead
      exact hlead
    · cases hs
  | execDone t =>
    simp only [step] at hs
    split at hs
    · rename_i hg
      obtain rfl := Option.some.inj hs
      refine hi.setGroup ?_
      -- a live leader is one of the others, or the thread itself
      intro u hu hgroup hlead
      by_contra hne
      have hmem : u ∈ s.others t := mem_others.2 ⟨(hi.live u hu).1, fun h => hne h.symm, hgroup, hu⟩
      rw [hg.2.2] at hmem
      cases hmem
    · cases hs
  | reboot n sig =>
    simp only [step] at hs
    split at hs
    · cases hs
    · rename_i x hx
      obtain rfl := Option.some.inj hs
      obtain ⟨hknown, hopen, hclosed⟩ := hi.sound n x hx
      refine hi.setNs (n := n)
        ⟨rfl, fun t _ => ⟨rfl, id⟩, hi.live, Nat.le_refl _, fun _ h => h, rfl⟩ rfl ?_
      refine ⟨hknown, ?_, ?_⟩
      · intro hz
        refine ⟨(hopen hz).adding, (hopen hz).unqueued, (hopen hz).reaper.imp_right ?_⟩
        rintro ⟨t, hr⟩
        exact ⟨t, hr.reaper, hr.live, hr.ns, hr.init, hr.leader⟩
      · intro hz
        exact ⟨(hclosed hz).1, (hclosed hz).2, (hclosed hz).3, (hclosed hz).4⟩
  | zap =>
    simp only [step] at hs
    split at hs
    · cases hs
    · rename_i n rest hlist
      have hn : n ∈ s.zapped := hi.queued n (hlist ▸ List.mem_cons_self)
      obtain ⟨x, hx⟩ := Option.isSome_iff_exists.1 (hi.zapped n hn)
      have hsound := hi.sound n x hx
      obtain ⟨-, hq, hr, hinit⟩ := hsound.closed hn
      rw [disablePidAllocation, hx] at hs
      obtain rfl := Option.some.inj hs
      have hrest : ∀ m ∈ rest, m ∈ s.zapList := by
        intro m hm
        rw [hlist]
        exact List.mem_cons_of_mem n hm
      refine hi.setNs (n := n)
        ⟨rfl, fun t _ => ⟨rfl, id⟩, hi.live, Nat.le_refl _, hrest, rfl⟩ rfl ?_
      exact ⟨hsound.known, fun hz => absurd hn hz, fun _ => ⟨rfl, hq, hr, hinit⟩⟩

theorem start_inv : Inv start := by
  refine ⟨rfl, ⟨rfl, rfl⟩, ?_, ?_, ?_, ?_, List.nodup_nil, Nat.one_pos⟩
  · intro t ht
    exact ⟨of_decide_eq_true ht, of_decide_eq_true ht⟩
  · rintro n x ⟨⟩
  · rintro n ⟨⟩
  · rintro n ⟨⟩

theorem run_inv (h : Run step start s) : Inv s :=
  h.inv start_inv fun _ _ _ hi ha => step_inv hi ha

end State

end DroidLkm.Pidns
