/-
  Programs that work on one component of a family at a time.

  * `amend h k g`: the component at `k` changed by `g`;
  * `sweep g l h`: the components in the list changed in turn, each by its own
    function; every component is seen on its own (`sweep_apply`);
  * `foldl_sweep`: a loop whose body changes the components a key of the loop
    stands for changes those of all its keys.  The body may need an invariant
    with a budget, of which each turn takes `d`.
-/
import Mathlib.Logic.Function.Basic
import Mathlib.Data.List.Basic

namespace Pointwise

universe u v w
variable {κ : Type u} {β : Type v} [DecidableEq κ]

def amend (h : κ → β) (k : κ) (g : β → β) : κ → β := Function.update h k (g (h k))

def sweep (g : κ → β → β) (l : List κ) (h : κ → β) : κ → β :=
  l.foldl (fun h k => amend h k (g k)) h

@[simp] theorem amend_self (h : κ → β) (k : κ) (g : β → β) : amend h k g k = g (h k) :=
  Function.update_self ..

theorem amend_ne (h : κ → β) {j k : κ} (g : β → β) (hjk : j ≠ k) : amend h k g j = h j :=
  Function.update_of_ne hjk ..

theorem amend_apply (h : κ → β) (k j : κ) (g : β → β) :
    amend h k g j = if j = k then g (h j) else h j := by
  split
  case isTrue hj => rw [hj, amend_self]
  case isFalse hj => exact amend_ne h g hj

theorem amend_id (h : κ → β) (k : κ) {g : β → β} (hg : g (h k) = h k) : amend h k g = h := by
  rw [amend, hg, Function.update_eq_self]

/-- A family that differs in one component only. -/
theorem eq_amend {h h' : κ → β} {k : κ} {g : β → β} (hk : h' k = g (h k))
    (hne : ∀ j, j ≠ k → h' j = h j) : h' = amend h k g := by
  funext j
  by_cases hj : j = k
  · subst hj; rw [hk, amend_self]
  · rw [hne j hj, amend_ne h g hj]

theorem amend_amend (h : κ → β) (k : κ) (g g' : β → β) :
    amend (amend h k g) k g' = amend h k (g' ∘ g) :=
  (eq_amend (by simp) fun j hj => by rw [amend_ne _ _ hj, amend_ne _ _ hj])

@[simp] theorem sweep_nil (g : κ → β → β) (h : κ → β) : sweep g [] h = h := rfl

@[simp] theorem sweep_cons (g : κ → β → β) (k : κ) (l : List κ) (h : κ → β) :
    sweep g (k :: l) h = sweep g l (amend h k (g k)) := rfl

theorem sweep_append (g : κ → β → β) (l l' : List κ) (h : κ → β) :
    sweep g (l ++ l') h = sweep g l' (sweep g l h) := List.foldl_append

/-- **A sweep, one component at a time.** -/
theorem sweep_apply (g : κ → β → β) {l : List κ} (hl : l.Nodup) (h : κ → β) (k : κ) :
    sweep g l h k = if k ∈ l then g k (h k) else h k := by
  induction l generalizing h with
  | nil => simp
  | cons a l ih =>
    obtain ⟨ha, hl⟩ := List.nodup_cons.1 hl
    rw [sweep_cons, ih hl]
    by_cases hk : k = a
    · subst hk; simp [ha]
    · simp [hk, amend_ne h (g a) hk]

/-- **Loops.** -/
theorem foldl_sweep {σ α : Type w} (view : σ → κ → β) (keys : α → List κ) (g : κ → β → β)
    (I : ℕ → σ → Prop) (d N : ℕ) {step : σ → α → σ} (l : List α)
    (hstep : ∀ n s, ∀ a ∈ l, I n s → n + d ≤ N →
      I (n + d) (step s a) ∧ view (step s a) = sweep g (keys a) (view s))
    (n : ℕ) (s : σ) (hs : I n s) (hN : n + d * l.length ≤ N) :
    I (n + d * l.length) (l.foldl step s) ∧
      view (l.foldl step s) = sweep g (l.flatMap keys) (view s) := by
  induction l generalizing n s with
  | nil => exact ⟨hs, rfl⟩
  | cons a l ih =>
    rw [List.length_cons, Nat.mul_succ, Nat.add_comm (d * _) d, ← Nat.add_assoc] at hN ⊢
    obtain ⟨ha, hv⟩ := hstep n s a List.mem_cons_self hs (Nat.le_of_add_right_le hN)
    obtain ⟨hl, hvl⟩ := ih (fun n s b hb => hstep n s b (List.mem_cons_of_mem a hb))
      (n + d) (step s a) ha hN
    refine ⟨hl, ?_⟩
    rw [List.foldl_cons, hvl, hv, List.flatMap_cons, sweep_append]

end Pointwise
