/-
  Trees given by parent pointers and levels.

  Every node but the root has a parent one level above it; what the pointer of
  the root holds does not matter.

  * `Below a n`: the node `a` is met on the way up from `n`, without reading
    the pointer of the root;
  * `Levelled.below_root`: the way up is finite and ends at the root;
  * `Walk`: the loop that climbs to a given level, and stops there;
  * `Levelled.walk_eq_iff`: it stops at `a` just if `a` is met.
-/
import Mathlib.Data.Nat.Notation
import Mathlib.Tactic.ByContra

namespace Ancestry

universe u
variable {α : Type u}

/-- The node `a` is met on the way up from a node, which may be `a` itself. -/
inductive Below (parent : α → α) (root a : α) : α → Prop where
  | refl : Below parent root a a
  | up {n : α} (hn : n ≠ root) (h : Below parent root a (parent n)) : Below parent root a n

/-- The loop `while (bound < level(n)) n = parent(n)`, where it never reads the
    pointer of the root. -/
inductive Walk (parent : α → α) (level : α → ℕ) (root : α) (bound : ℕ) : α → α → Prop where
  | stop {n : α} (hn : level n ≤ bound) : Walk parent level root bound n n
  | up {n m : α} (hn : bound < level n) (hroot : n ≠ root)
      (h : Walk parent level root bound (parent n) m) : Walk parent level root bound n m

/-- The levels of the nodes in use. -/
structure Levelled (parent : α → α) (level : α → ℕ) (root : α) (used : α → Prop) : Prop where
  top : used root ∧ level root = 0
  node : ∀ n, used n → n ≠ root → used (parent n) ∧ level n = level (parent n) + 1

variable {parent parent' : α → α} {level level' : α → ℕ} {root a b n m : α} {used : α → Prop}
  {bound : ℕ}

theorem Below.trans (h : Below parent root a b) (h' : Below parent root b n) :
    Below parent root a n := by
  induction h' with
  | refl => exact h
  | up hn _ ih => exact Below.up hn ih

/-- The way up from the root is the root. -/
theorem below_root_iff : Below parent root a root ↔ a = root := by
  constructor
  · intro h
    cases h with
    | refl => rfl
    | up hn _ => exact absurd rfl hn
  · rintro rfl
    exact Below.refl

/-- Only the pointers of the nodes that are passed matter. -/
theorem Below.congr (hl : Levelled parent level root used)
    (hp : ∀ n, used n → parent' n = parent n) (h : Below parent root a n) (hn : used n) :
    Below parent' root a n := by
  induction h with
  | refl => exact Below.refl
  | up hroot _ ih =>
    refine Below.up hroot ?_
    rw [hp _ hn]
    exact ih (hl.node _ hn hroot).1

/-- What agrees with levels and parents that fit has them. -/
theorem Levelled.congr (hl : Levelled parent level root used)
    (hp : ∀ n, used n → parent' n = parent n ∧ level' n = level n) :
    Levelled parent' level' root used := by
  constructor
  · exact ⟨hl.top.1, (hp root hl.top.1).2.trans hl.top.2⟩
  · intro n hn hroot
    obtain ⟨hup, hlevel⟩ := hl.node n hn hroot
    rw [(hp n hn).1, (hp n hn).2, (hp _ hup).2]
    exact ⟨hup, hlevel⟩

namespace Levelled

variable (hl : Levelled parent level root used)
include hl

/-- What is met on the way up is in use, and not further down. -/
theorem used_of_below (h : Below parent root a n) (hn : used n) : used a ∧ level a ≤ level n := by
  induction h with
  | refl => exact ⟨hn, Nat.le_refl _⟩
  | up hroot _ ih =>
    obtain ⟨hup, hlevel⟩ := hl.node _ hn hroot
    obtain ⟨ha, hle⟩ := ih hup
    exact ⟨ha, by omega⟩

/-- **The way up ends at the root.** -/
theorem below_root (hn : used n) : Below parent root root n := by
  induction hk : level n generalizing n with
  | zero =>
    by_contra hnot
    have hroot : n ≠ root := by
      rintro rfl
      exact hnot Below.refl
    have := (hl.node n hn hroot).2
    omega
  | succ k ih =>
    have hroot : n ≠ root := by
      rintro rfl
      rw [hl.top.2] at hk
      omega
    obtain ⟨hup, hlevel⟩ := hl.node n hn hroot
    exact Below.up hroot (ih hup (by omega))

/-- One node is met at each level. -/
theorem below_unique (ha : Below parent root a n) (hb : Below parent root b n) (hn : used n)
    (hab : level a = level b) : a = b := by
  induction ha with
  | refl =>
    cases hb with
    | refl => rfl
    | up hroot h =>
      obtain ⟨hup, hlevel⟩ := hl.node _ hn hroot
      have := (hl.used_of_below h hup).2
      omega
  | up hroot h ih =>
    obtain ⟨hup, hlevel⟩ := hl.node _ hn hroot
    cases hb with
    | refl =>
      have := (hl.used_of_below h hup).2
      omega
    | up _ h' => exact ih h' hup

/-- It ends on the way up, and not above the level asked for. -/
theorem below_of_walk (h : Walk parent level root bound n m) (hn : used n) :
    Below parent root m n ∧ (bound ≤ level n → level m = bound) := by
  induction h with
  | stop hle => exact ⟨Below.refl, fun hge => by omega⟩
  | up hlt hroot _ ih =>
    obtain ⟨hup, hlevel⟩ := hl.node _ hn hroot
    obtain ⟨hb, hm⟩ := ih hup
    exact ⟨Below.up hroot hb, fun _ => hm (by omega)⟩

/-- **It ends at a node of that level just if the node is met.** -/
theorem walk_eq_iff (h : Walk parent level root (level a) n m) (hn : used n)
    (hle : level a ≤ level n) : m = a ↔ Below parent root a n := by
  obtain ⟨hb, hm⟩ := hl.below_of_walk h hn
  constructor
  · rintro rfl
    exact hb
  · intro ha
    exact hl.below_unique hb ha hn (hm hle)

end Levelled

end Ancestry
