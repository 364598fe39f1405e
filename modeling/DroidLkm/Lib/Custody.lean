/-
  Who has what was accepted.

  Things are accepted one by one; each is kept in a common pool until it is
  handed to somebody, or handed over at once.  `Custody` says that nothing is
  lost and nothing is there twice; `store`, `hand`, `take`, `pass` and
  `surrender` are the ways in which it changes, `settled` is what it says about
  one thing where the pool is of those that are done with.
-/
import Mathlib.Data.List.Nodup

universe u v
variable {α : Type u} {β : Type v}

/-- What is accepted is in the pool, once, or with one holder. -/
structure Custody (accepted : α → Prop) (pool : List α) (held : β → α → Prop) : Prop where
  nodup : pool.Nodup
  apart : ∀ r m, held r m → m ∉ pool
  once : ∀ r r' m, held r m → held r' m → r = r'
  all : ∀ m, accepted m ↔ m ∈ pool ∨ ∃ r, held r m

namespace Custody

variable {accepted accepted' : α → Prop} {pool pool' : List α} {held held' : β → α → Prop} {m : α}
  {r : β}

theorem congr (h : Custody accepted pool held) (ha : ∀ x, accepted' x ↔ accepted x)
    (hp : pool'.Perm pool) (hh : ∀ r' x, held' r' x ↔ held r' x) :
    Custody accepted' pool' held' := by
  refine ⟨hp.nodup_iff.2 h.nodup, ?_, ?_, ?_⟩
  · intro r' x hx
    rw [hp.mem_iff]
    exact h.apart r' x ((hh r' x).1 hx)
  · intro r₁ r₂ x h₁ h₂
    exact h.once r₁ r₂ x ((hh r₁ x).1 h₁) ((hh r₂ x).1 h₂)
  · intro x
    rw [ha, h.all, hp.mem_iff]
    simp only [hh]

/-- Something new is put into the pool. -/
theorem store (h : Custody accepted pool held) (hnew : ¬accepted m)
    (ha : ∀ x, accepted' x ↔ accepted x ∨ x = m) (hp : pool'.Perm (m :: pool))
    (hh : ∀ r' x, held' r' x ↔ held r' x) : Custody accepted' pool' held' := by
  rw [h.all, not_or, not_exists] at hnew
  refine ⟨hp.nodup_iff.2 (List.nodup_cons.2 ⟨hnew.1, h.nodup⟩), ?_, ?_, ?_⟩
  · intro r' x hx
    rw [hp.mem_iff, List.mem_cons, not_or]
    refine ⟨?_, h.apart r' x ((hh r' x).1 hx)⟩
    rintro rfl
    exact hnew.2 r' ((hh r' x).1 hx)
  · intro r₁ r₂ x h₁ h₂
    exact h.once r₁ r₂ x ((hh r₁ x).1 h₁) ((hh r₂ x).1 h₂)
  · intro x
    rw [ha, h.all, hp.mem_iff, List.mem_cons]
    simp only [hh]
    constructor
    · rintro ((hx | hx) | hx)
      · exact Or.inl (Or.inr hx)
      · exact Or.inr hx
      · exact Or.inl (Or.inl hx)
    · rintro ((hx | hx) | hx)
      · exact Or.inr hx
      · exact Or.inl (Or.inl hx)
      · exact Or.inl (Or.inr hx)

/-- Something new is handed over. -/
theorem hand (h : Custody accepted pool held) (hnew : ¬accepted m)
    (ha : ∀ x, accepted' x ↔ accepted x ∨ x = m) (hp : pool'.Perm pool)
    (hh : ∀ r' x, held' r' x ↔ held r' x ∨ r' = r ∧ x = m) : Custody accepted' pool' held' := by
  rw [h.all, not_or, not_exists] at hnew
  refine ⟨hp.nodup_iff.2 h.nodup, ?_, ?_, ?_⟩
  · intro r' x hx
    rw [hp.mem_iff]
    rcases (hh r' x).1 hx with hx | ⟨-, rfl⟩
    · exact h.apart r' x hx
    · exact hnew.1
  · intro r₁ r₂ x h₁ h₂
    rcases (hh r₁ x).1 h₁ with h₁ | ⟨rfl, rfl⟩ <;> rcases (hh r₂ _).1 h₂ with h₂ | ⟨rfl, h₂⟩
    · exact h.once r₁ r₂ x h₁ h₂
    · subst h₂
      exact absurd h₁ (hnew.2 r₁)
    · exact absurd h₂ (hnew.2 r₂)
    · rfl
  · intro x
    rw [ha, h.all, hp.mem_iff]
    simp only [hh]
    constructor
    · rintro ((hx | ⟨r', hx⟩) | rfl)
      · exact Or.inl hx
      · exact Or.inr ⟨r', Or.inl hx⟩
      · exact Or.inr ⟨r, Or.inr ⟨rfl, rfl⟩⟩
    · rintro (hx | ⟨r', hx | ⟨-, rfl⟩⟩)
      · exact Or.inl (Or.inl hx)
      · exact Or.inl (Or.inr ⟨r', hx⟩)
      · exact Or.inr rfl

/-- Something is taken out of the pool. -/
theorem take (h : Custody accepted pool held) (ha : ∀ x, accepted' x ↔ accepted x)
    (hp : pool.Perm (m :: pool')) (hh : ∀ r' x, held' r' x ↔ held r' x ∨ r' = r ∧ x = m) :
    Custody accepted' pool' held' := by
  obtain ⟨hm, hnodup⟩ := List.nodup_cons.1 (hp.nodup_iff.1 h.nodup)
  have hmem : ∀ x, x ∈ pool ↔ x = m ∨ x ∈ pool' := by
    intro x
    rw [hp.mem_iff, List.mem_cons]
  have hfree : ∀ r', ¬held r' m := fun r' hx => h.apart r' m hx ((hmem m).2 (Or.inl rfl))
  refine ⟨hnodup, ?_, ?_, ?_⟩
  · intro r' x hx hx'
    rcases (hh r' x).1 hx with hx | ⟨-, rfl⟩
    · exact h.apart r' x hx ((hmem x).2 (Or.inr hx'))
    · exact hm hx'
  · intro r₁ r₂ x h₁ h₂
    rcases (hh r₁ x).1 h₁ with h₁ | ⟨rfl, rfl⟩ <;> rcases (hh r₂ _).1 h₂ with h₂ | ⟨rfl, h₂⟩
    · exact h.once r₁ r₂ x h₁ h₂
    · subst h₂
      exact absurd h₁ (hfree r₁)
    · exact absurd h₂ (hfree r₂)
    · rfl
  · intro x
    rw [ha, h.all, hmem]
    simp only [hh]
    constructor
    · rintro ((rfl | hx) | ⟨r', hx⟩)
      · exact Or.inr ⟨r, Or.inr ⟨rfl, rfl⟩⟩
      · exact Or.inl hx
      · exact Or.inr ⟨r', Or.inl hx⟩
    · rintro (hx | ⟨r', hx | ⟨-, rfl⟩⟩)
      · exact Or.inl (Or.inr hx)
      · exact Or.inr ⟨r', hx⟩
      · exact Or.inl (Or.inl rfl)

/-- A holder passes all it has to one that has nothing. -/
theorem pass (r r' : β) (h : Custody accepted pool held) (hfree : ∀ x, ¬held r' x)
    (ha : ∀ x, accepted' x ↔ accepted x)
    (hh : ∀ q x, held' q x ↔ q = r' ∧ held r x ∨ q ≠ r ∧ held q x) :
    Custody accepted' pool held' := by
  refine ⟨h.nodup, ?_, ?_, ?_⟩
  · intro q x hx
    rcases (hh q x).1 hx with ⟨-, hx⟩ | ⟨-, hx⟩
    · exact h.apart r x hx
    · exact h.apart q x hx
  · intro q₁ q₂ x h₁ h₂
    rcases (hh q₁ x).1 h₁ with ⟨rfl, h₁⟩ | ⟨hne₁, h₁⟩ <;>
      rcases (hh q₂ x).1 h₂ with ⟨rfl, h₂⟩ | ⟨hne₂, h₂⟩
    · rfl
    · exact absurd (h.once q₂ r x h₂ h₁) hne₂
    · exact absurd (h.once q₁ r x h₁ h₂) hne₁
    · exact h.once q₁ q₂ x h₁ h₂
  · intro x
    rw [ha, h.all]
    refine or_congr_right ⟨?_, ?_⟩
    · rintro ⟨q, hx⟩
      by_cases hq : q = r
      · exact ⟨r', (hh r' x).2 (Or.inl ⟨rfl, hq ▸ hx⟩)⟩
      · exact ⟨q, (hh q x).2 (Or.inr ⟨hq, hx⟩)⟩
    · rintro ⟨q, hx⟩
      rcases (hh q x).1 hx with ⟨-, hx⟩ | ⟨-, hx⟩
      · exact ⟨r, hx⟩
      · exact ⟨q, hx⟩

/-- All that a holder has goes into the pool. -/
theorem surrender {l : List α} (h : Custody accepted pool held) (hl : l.Nodup)
    (hmem : ∀ x, held r x ↔ x ∈ l) (ha : ∀ x, accepted' x ↔ accepted x)
    (hp : pool'.Perm (l ++ pool)) (hh : ∀ q x, held' q x ↔ q ≠ r ∧ held q x) :
    Custody accepted' pool' held' := by
  refine ⟨?_, ?_, ?_, ?_⟩
  · rw [hp.nodup_iff, List.nodup_append']
    exact ⟨hl, h.nodup, fun x hx => h.apart r x ((hmem x).2 hx)⟩
  · intro q x hx
    obtain ⟨hq, hx⟩ := (hh q x).1 hx
    rw [hp.mem_iff, List.mem_append, not_or, ← hmem]
    exact ⟨fun hr => hq (h.once q r x hx hr), h.apart q x hx⟩
  · intro q₁ q₂ x h₁ h₂
    exact h.once q₁ q₂ x ((hh q₁ x).1 h₁).2 ((hh q₂ x).1 h₂).2
  · intro x
    rw [ha, h.all, hp.mem_iff, List.mem_append, ← hmem]
    constructor
    · rintro (hx | ⟨q, hx⟩)
      · exact Or.inl (Or.inr hx)
      · by_cases hq : q = r
        · exact Or.inl (Or.inl (hq ▸ hx))
        · exact Or.inr ⟨q, (hh q x).2 ⟨hq, hx⟩⟩
    · rintro ((hx | hx) | ⟨q, hx⟩)
      · exact Or.inr ⟨r, hx⟩
      · exact Or.inl hx
      · exact Or.inr ⟨q, ((hh q x).1 hx).2⟩

/-- Who was given something has it or is done with it, once. -/
theorem settled [DecidableEq α] (h : Custody accepted pool held) (ha : accepted m) :
    pool.count m = 1 ∧ (∀ r, ¬held r m) ∨ pool.count m = 0 ∧ ∃! r, held r m := by
  rcases (h.all m).1 ha with hm | ⟨r, hr⟩
  · exact Or.inl ⟨List.count_eq_one_of_mem h.nodup hm, fun r hr => h.apart r m hr hm⟩
  · exact Or.inr ⟨List.count_eq_zero.2 (h.apart r m hr), r, hr, fun q hq => h.once q r m hq hr⟩

end Custody
