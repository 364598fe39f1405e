/-
  Pid namespaces and their init — when the namespace is zapped.

  The hook compares one task with the reaper, and the reaper is the leader of
  the init process until the hook has run.  So the hook runs past its test
  exactly once in the life of a namespace, namely when that leader goes
  through `do_exit`, whatever the other threads of init do.

  * `LeaderLast`: the leader of an init process goes last, or with the group;
  * `zapped_with_init`: the hook runs at the end of init only, if `LeaderLast`
    holds of every step;
  * `leader_alone`: a run in which it does not.
-/
import DroidLkm.Pidns.Reaps

namespace DroidLkm.Pidns

open Machine

namespace State

variable {s s' : State} {n t : ℕ} {x : PidNs} {act : Act}

/-- The leader of an init process goes through `do_exit` last, or when the
    whole process is made to. -/
def LeaderLast (s : State) : Act → Prop
  | .exit t => ∀ n x, s.pidns n = some x → x.init = some (s.task t).group →
      (s.groupOf t).leader = t → (s.groupOf t).groupExit = true ∨ s.others t = []
  | _ => True

/-- No thread of the init process is left. -/
def InitDead (s : State) (x : PidNs) : Prop :=
  ∃ g, x.init = some g ∧ ∀ t, (s.task t).live = true → (s.task t).group ≠ g

theorem fork_fired : (s.fork n).fired = s.fired := by
  unfold State.fork
  dsimp only
  split
  · rfl
  split <;> rfl

theorem disablePidAllocation_fired : (s.disablePidAllocation n).fired = s.fired := by
  unfold disablePidAllocation
  split <;> rfl

/-- Only an exit adds to the log. -/
theorem step_fired (hi : Inv s) (hs : s.step act = some s') :
    s'.fired = s.fired ∨ ∃ t n x, act = .exit t ∧ n ∉ s.zapped ∧ s.Reaps n x t ∧
      Fires s s' t n x := by
  cases act with
  | exit t =>
    simp only [step] at hs
    split at hs
    · rename_i hg
      obtain rfl := Option.some.inj hs
      have ht : t ≠ 0 := by
        rintro rfl
        exact hg.2.1 hi.reaper
      rcases hi.exit_cases ht with ⟨-, hpre⟩ | ⟨n, x, hn, hr, hf⟩
      · rw [doExit, hpre]
        exact Or.inl rfl
      · exact Or.inr ⟨t, n, x, rfl, hn, hr, hf⟩
    · cases hs
  | create =>
    obtain rfl := Option.some.inj hs
    exact Or.inl rfl
  | fork t n =>
    simp only [step] at hs
    split at hs
    · obtain rfl := Option.some.inj hs
      exact Or.inl fork_fired
    · cases hs
  | zap =>
    simp only [step] at hs
    split at hs
    · cases hs
    · obtain rfl := Option.some.inj hs
      exact Or.inl disablePidAllocation_fired
  | reboot n sig =>
    simp only [step] at hs
    split at hs
    · cases hs
    · obtain rfl := Option.some.inj hs
      exact Or.inl rfl
  | thread t | groupExit t | exec t | execDone t =>
    simp only [step] at hs
    split at hs
    · obtain rfl := Option.some.inj hs
      exact Or.inl rfl
    · cases hs

theorem step_atEnd (hi : Inv s) (hC : LeaderLast s act) (hs : s.step act = some s')
    (h : ∀ f ∈ s.fired, f.AtEnd) : ∀ f ∈ s'.fired, f.AtEnd := by
  rcases step_fired hi hs with heq | ⟨t, n, x, rfl, hn, hr, hf⟩
  · rw [heq]
    exact h
  · intro f hmem
    rw [hf.fired] at hmem
    rcases List.mem_cons.1 hmem with rfl | hmem
    · exact hC n x hf.found hr.init hr.leader
    · exact h f hmem

/-- A namespace whose init is dead has been zapped. -/
theorem Inv.dead_zapped (hi : Inv s) (hx : s.pidns n = some x) (hd : s.InitDead x) :
    n ∈ s.zapped := by
  by_contra hn
  obtain ⟨g, hg, hdead⟩ := hd
  rcases ((hi.sound n x hx).open' hn).reaper with ⟨-, hnone⟩ | ⟨t, hr⟩
  · rw [hnone] at hg
    cases hg
  · exact hdead t hr.live (Option.some.inj (hr.init.symm.trans hg))

/-- What the record of a namespace says is what the log says. -/
theorem Inv.record (hi : Inv s) (hx : s.pidns n = some x) :
    (x.adding = false ↔ n ∈ s.zapped) ∧ (x.childReaper = s.reaperTask ↔ n ∈ s.zapped) ∧
      (x.zapQueued = true ↔ n ∈ s.zapped) := by
  have hs := hi.sound n x hx
  by_cases hn : n ∈ s.zapped
  · obtain ⟨hadd, hq, hr, -⟩ := hs.closed hn
    exact ⟨iff_of_true hadd hn, iff_of_true hr hn, iff_of_true hq hn⟩
  · obtain ⟨hadd, hq, hr⟩ := hs.open' hn
    refine ⟨iff_of_false ?_ hn, iff_of_false ?_ hn, iff_of_false ?_ hn⟩
    · rw [hadd]; exact Bool.noConfusion
    · rw [hi.reaper]
      rcases hr with ⟨hnone, -⟩ | ⟨t, ht⟩
      · rw [hnone]; rintro ⟨⟩
      · rw [ht.reaper]
        intro h0
        exact hi.reaps_ne_zero hs.known.1 ht (Option.some.inj h0)
    · rw [hq]; exact Bool.noConfusion

/-- **A namespace ends with its init.**  In a run in which the leader of an init
    process always goes last, or with the group, the hook runs past its test at
    the end of an init only, once for each namespace, and it has done so when
    the init is dead; the namespace is closed to new pids, given to `ds-zap` and
    queued exactly when it has. -/
theorem zapped_with_init (h : RunIf step LeaderLast start s) :
    (∀ f ∈ s.fired, f.AtEnd ∧ ∃ x, s.pidns f.ns = some x ∧ x.init = some f.group) ∧
      s.zapped.Nodup ∧
      ∀ n x, s.pidns n = some x →
        (x.adding = false ↔ n ∈ s.zapped) ∧ (x.childReaper = s.reaperTask ↔ n ∈ s.zapped) ∧
          (x.zapQueued = true ↔ n ∈ s.zapped) ∧ (s.InitDead x → n ∈ s.zapped) := by
  have hi := run_inv h.run
  have hend : Inv s ∧ ∀ f ∈ s.fired, f.AtEnd := by
    refine h.inv (I := fun s => Inv s ∧ ∀ f ∈ s.fired, f.AtEnd) ⟨start_inv, ?_⟩ ?_
    · rintro f ⟨⟩
    · intro s a s' ⟨hi, hf⟩ hC ha
      exact ⟨step_inv hi ha, step_atEnd hi hC ha hf⟩
  refine ⟨?_, hi.once, ?_⟩
  · intro f hf
    have hmem : f.ns ∈ s.zapped := List.mem_map.2 ⟨f, hf, rfl⟩
    obtain ⟨x, hx⟩ := Option.isSome_iff_exists.1 (hi.zapped _ hmem)
    exact ⟨hend.2 f hf, x, hx, ((hi.sound _ x hx).closed hmem).init f hf rfl⟩
  · intro n x hx
    obtain ⟨h1, h2, h3⟩ := hi.record hx
    exact ⟨h1, h2, h3, hi.dead_zapped hx⟩

/-- The leader of init goes last, after its thread. -/
theorem zapped_with_init_run : ∃ s : State, s.zapped = [1] ∧ ∀ f ∈ s.fired, f.AtEnd := by
  obtain ⟨s, hrun, hs⟩ := execIf_check (C := LeaderLast) step
    (fun s a => match a with
      | .exit t => decide ((s.groupOf t).leader = t → s.others t = [])
      | _ => true)
    (by
      intro s a hc
      cases a with
      | exit t => exact fun n x _ _ hl => Or.inr (of_decide_eq_true hc hl)
      | _ => trivial)
    start [.create, .fork 1 1, .thread 2, .exit 3, .exit 2] (fun s => decide (s.zapped = [1]))
    (by decide)
  exact ⟨s, of_decide_eq_true hs, fun f hf => ((zapped_with_init hrun).1 f hf).1⟩

/-- **The leader of init leaves alone** and the namespace is zapped around the
    thread that is left. -/
theorem leader_alone : ∃ s, Run step start s ∧ ∃ f ∈ s.fired, ¬f.AtEnd ∧
    ∃ u, (s.task u).live = true ∧ (s.task u).ns = f.ns ∧ (s.task u).group = f.group := by
  obtain ⟨s, hrun, hs⟩ := exec_check step start
    [.create, .fork 1 1, .thread 2, .exit 2]
    (fun s => decide (s.fired = [⟨1, 2, 2, [3], false⟩] ∧ s.task 3 = ⟨2, 1, true⟩))
    (by decide)
  obtain ⟨hf, ht⟩ := of_decide_eq_true hs
  refine ⟨s, hrun, ⟨1, 2, 2, [3], false⟩, ?_, ?_, 3, ?_⟩
  · rw [hf]; exact List.mem_cons_self
  · rintro (h | h) <;> cases h
  · rw [ht]; exact ⟨rfl, rfl, rfl⟩

end State

end DroidLkm.Pidns
