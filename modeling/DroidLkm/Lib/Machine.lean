/-
  Runs of a machine given by a partial step function.

  A machine is a function `step : σ → α → Option σ`: in state `s` the action
  `a` is either refused (`none`) or leads to one next state.  Everything the
  environment decides (which task moves, whether an allocation fails) is part
  of the action.

  * `RunIf step C s t`: some finite run leads from `s` to `t`, and every step
    of it is taken from a state where the condition `C` allows the action;
  * `Run step` is the run without a condition;
  * `RunIf.inv`: what holds initially and is preserved by the allowed steps
    holds of every state reached;
  * `exec` runs a given list of actions, `exec_check` looks at where it leads,
    and `execIf_run`, `execIf_check` are the same for a run under a condition.
-/
import Mathlib.Logic.Relation

namespace Machine

universe u v
variable {σ : Type u} {α : Type v} {step : σ → α → Option σ} {C : σ → α → Prop}

/-- One step whose action `C` allows in the state before it. -/
def StepIf (step : σ → α → Option σ) (C : σ → α → Prop) (s t : σ) : Prop :=
  ∃ a, C s a ∧ step s a = some t

/-- A finite run all of whose steps `C` allows. -/
abbrev RunIf (step : σ → α → Option σ) (C : σ → α → Prop) : σ → σ → Prop :=
  Relation.ReflTransGen (StepIf step C)

/-- A finite run. -/
abbrev Run (step : σ → α → Option σ) : σ → σ → Prop :=
  RunIf step fun _ _ => True

/-- **Invariants.**  What holds of the first state and is preserved by every
    allowed step holds of every state of an allowed run. -/
theorem RunIf.inv {I : σ → Prop} {s t : σ} (h : RunIf step C s t) (h₀ : I s)
    (hs : ∀ s a t, I s → C s a → step s a = some t → I t) : I t := by
  induction h with
  | refl => exact h₀
  | tail _ hst ih =>
    obtain ⟨a, hC, ha⟩ := hst
    exact hs _ a _ ih hC ha

/-- The same for runs without a condition. -/
theorem Run.inv {I : σ → Prop} {s t : σ} (h : Run step s t) (h₀ : I s)
    (hs : ∀ s a t, I s → step s a = some t → I t) : I t :=
  RunIf.inv h h₀ fun s a t hi _ ha => hs s a t hi ha

/-- One more step. -/
theorem RunIf.snoc {s t u : σ} {a : α} (h : RunIf step C s t) (hC : C t a)
    (ha : step t a = some u) : RunIf step C s u :=
  Relation.ReflTransGen.tail h ⟨a, hC, ha⟩

/-- A run under a condition is a run. -/
theorem RunIf.run {s t : σ} (h : RunIf step C s t) : Run step s t :=
  Relation.ReflTransGen.mono (r := StepIf step C) (fun _ _ ⟨a, _, ha⟩ => ⟨a, trivial, ha⟩) _ _ h

/-- Run a list of actions. -/
def exec (step : σ → α → Option σ) : σ → List α → Option σ
  | s, [] => some s
  | s, a :: as => (step s a).bind fun t => exec step t as

/-- A successful execution is a run. -/
theorem exec_run : ∀ {as : List α} {s t : σ}, exec step s as = some t → Run step s t
  | [], s, t, h => by
    obtain rfl := Option.some.inj h
    exact Relation.ReflTransGen.refl
  | a :: as, s, t, h => by
    obtain ⟨u, hu, ht⟩ := Option.bind_eq_some_iff.1 h
    exact Relation.ReflTransGen.head ⟨a, trivial, hu⟩ (exec_run ht)

/-- A state with a decidable property that a list of actions leads to. -/
theorem exec_check (step : σ → α → Option σ) (s : σ) (as : List α) (p : σ → Bool)
    (h : (exec step s as).any p = true) : ∃ t, Run step s t ∧ p t = true := by
  rcases ht : exec step s as with _ | t
  · rw [ht] at h; cases h
  · rw [ht] at h; exact ⟨t, exec_run ht, h⟩

/-- An execution whose steps pass a test is a run under the condition that it decides. -/
theorem execIf_run (c : σ → α → Bool) (hc : ∀ s a, c s a = true → C s a) {s t : σ} {as : List α}
    (h : exec (fun s a => if c s a then step s a else none) s as = some t) : RunIf step C s t := by
  refine Relation.ReflTransGen.mono (r := StepIf _ fun _ _ => True) ?_ _ _ (exec_run h)
  rintro u v ⟨a, -, ha⟩
  dsimp only at ha
  split at ha
  · exact ⟨a, hc u a ‹_›, ha⟩
  · cases ha

/-- The same for a run under a condition. -/
theorem execIf_check (step : σ → α → Option σ) (c : σ → α → Bool)
    (hc : ∀ s a, c s a = true → C s a) (s : σ) (as : List α) (p : σ → Bool)
    (h : (exec (fun s a => if c s a then step s a else none) s as).any p = true) :
    ∃ t, RunIf step C s t ∧ p t = true := by
  rcases ht : exec (fun s a => if c s a then step s a else none) s as with _ | t
  · rw [ht] at h; cases h
  · rw [ht] at h; exact ⟨t, execIf_run c hc ht, h⟩

end Machine
