/-
  Binary search trees.

  A tree is searched by a key of its elements, from the root down; how it is
  balanced is not kept, since balancing does not change the order from left to
  right.

  * `find`, `put`, `rightOf`, `erase`, `prev`: the operations, by descent;
  * `Split`: a tree at a key: what is to the left, what has the key, what is to
    the right, and what each operation does in these terms;
  * `Ordered.split`: an ordered tree splits at every key;
  * `map`: the operations on a tree of larger elements with the same keys.
-/
import Mathlib.Order.Lattice
import Mathlib.Tactic.ByContra
import Mathlib.Tactic.SplitIfs

namespace SearchTree

universe u v w
variable {α : Type u} {κ : Type v} {β : Type w}

inductive Tree (α : Type u) where
  | nil
  | node (l : Tree α) (a : α) (r : Tree α)

namespace Tree

/-- The elements from left to right. -/
def toList : Tree α → List α
  | nil => []
  | node l a r => l.toList ++ a :: r.toList

/-- Two trees, all of the first to the left of the second. -/
def join : Tree α → Tree α → Tree α
  | nil, r => r
  | node l a m, r => node l a (m.join r)

def map (g : α → β) : Tree α → Tree β
  | nil => nil
  | node l a r => node (l.map g) (g a) (r.map g)

variable [LinearOrder κ]

def find (key : α → κ) (k : κ) : Tree α → Option α
  | nil => none
  | node l a r => if key a = k then some a else if k < key a then l.find key k else r.find key k

/-- The element with the key `k` is replaced, or one is linked in its place. -/
def put (key : α → κ) (k : κ) (f : Option α → α) : Tree α → Tree α
  | nil => node nil (f none) nil
  | node l a r =>
    if key a = k then node l (f (some a)) r
    else if k < key a then node (l.put key k f) a r
    else node l a (r.put key k f)

/-- The descent to `k` ends outside the tree, and never went to the left. -/
def rightOf (key : α → κ) (k : κ) : Tree α → Bool
  | nil => true
  | node _ a r => if key a = k then false else if k < key a then false else r.rightOf key k

def erase (key : α → κ) (k : κ) : Tree α → Tree α
  | nil => nil
  | node l a r =>
    if key a = k then l.join r
    else if k < key a then node (l.erase key k) a r
    else node l a (r.erase key k)

/-- The last element before the key `k`. -/
def prev (key : α → κ) (k : κ) : Tree α → Option α
  | nil => none
  | node l a r => if key a < k then (r.prev key k).or (some a) else l.prev key k

end Tree

open SearchTree.Tree

/-- The keys go up from left to right. -/
def Ordered [LinearOrder κ] (key : α → κ) (t : Tree α) : Prop :=
  t.toList.Pairwise fun a b => key a < key b

variable [LinearOrder κ] {key : α → κ} {t l r : Tree α} {a b : α} {k : κ} {xs ys : List α}
  {o : Option α}

theorem toList_join (l r : Tree α) : (l.join r).toList = l.toList ++ r.toList := by
  induction l with
  | nil => rfl
  | node l a m _ ih => rw [join, toList, toList, ih, List.append_assoc, List.cons_append]

/-- A tree at the key `k`. -/
structure Split (key : α → κ) (t : Tree α) (k : κ) (xs : List α) (o : Option α)
    (ys : List α) : Prop where
  toList : t.toList = xs ++ (o.toList ++ ys)
  hit : ∀ a, o = some a → key a = k
  below : ∀ x ∈ xs, key x < k
  above : ∀ y ∈ ys, k < key y
  find : t.find key k = o
  put : ∀ f, (t.put key k f).toList = xs ++ f o :: ys
  right : o = none → (t.rightOf key k = true ↔ ys = [])
  erase : (t.erase key k).toList = xs ++ ys
  prev : t.prev key k = xs.getLast?

theorem ordered_nil : Ordered key (nil : Tree α) := List.Pairwise.nil

theorem ordered_node (h : Ordered key (node l a r)) :
    Ordered key l ∧ Ordered key r ∧ (∀ x ∈ l.toList, key x < key a) ∧
      ∀ y ∈ r.toList, key a < key y := by
  obtain ⟨hl, hr, hlr⟩ := List.pairwise_append.1 h
  obtain ⟨har, hr⟩ := List.pairwise_cons.1 hr
  exact ⟨hl, hr, fun x hx => hlr x hx a List.mem_cons_self, har⟩

/-- All of a tree is below `k`: the descent goes to the right. -/
theorem prev_below (h : ∀ x ∈ t.toList, key x < k) : t.prev key k = t.toList.getLast? := by
  induction t with
  | nil => rfl
  | node l a r _ ihr =>
    have hr : ∀ x ∈ r.toList, key x < k := fun x hx =>
      h x (List.mem_append_right _ (List.mem_cons_of_mem _ hx))
    have ha : key a < k := h a (List.mem_append_right _ List.mem_cons_self)
    rw [Tree.prev, if_pos ha, ihr hr, Tree.toList, List.getLast?_append, List.getLast?_cons]
    cases r.toList.getLast? <;> rfl

/-- **An ordered tree splits at every key.** -/
theorem Ordered.split (h : Ordered key t) (k : κ) : ∃ xs o ys, Split key t k xs o ys := by
  induction t with
  | nil =>
    refine ⟨[], none, [], rfl, by simp, by simp, by simp, rfl, fun f => rfl, ?_, rfl, rfl⟩
    intro _
    exact iff_of_true rfl rfl
  | node l a r ihl ihr =>
    obtain ⟨hl, hr, hla, har⟩ := ordered_node h
    by_cases hk : key a = k
    · subst hk
      refine ⟨l.toList, some a, r.toList, rfl, ?_, hla, har, ?_, ?_, ?_, ?_, ?_⟩
      · rintro b ⟨⟩
        rfl
      · rw [Tree.find, if_pos rfl]
      · intro f
        rw [Tree.put, if_pos rfl]
        rfl
      · rintro ⟨⟩
      · rw [Tree.erase, if_pos rfl, toList_join]
      · rw [Tree.prev, if_neg (lt_irrefl _), prev_below hla]
    · by_cases hlt : k < key a
      · obtain ⟨xs, o, ys, hs⟩ := ihl hl
        refine ⟨xs, o, ys ++ a :: r.toList, ?_, hs.hit, hs.below, ?_, ?_, ?_, ?_, ?_, ?_⟩
        · rw [Tree.toList, hs.toList, List.append_assoc, List.append_assoc]
        · intro y hy
          rcases List.mem_append.1 hy with hy | hy
          · exact hs.above y hy
          · rcases List.mem_cons.1 hy with rfl | hy
            · exact hlt
            · exact lt_trans hlt (har y hy)
        · rw [Tree.find, if_neg hk, if_pos hlt, hs.find]
        · intro f
          rw [Tree.put, if_neg hk, if_pos hlt, Tree.toList, hs.put, List.append_assoc,
            List.cons_append]
        · intro _
          rw [Tree.rightOf, if_neg hk, if_pos hlt]
          simp
        · rw [Tree.erase, if_neg hk, if_pos hlt, Tree.toList, hs.erase, List.append_assoc]
        · rw [Tree.prev, if_neg (not_lt_of_gt hlt), hs.prev]
      · have hgt : key a < k := lt_of_le_of_ne (not_lt.1 hlt) hk
        obtain ⟨xs, o, ys, hs⟩ := ihr hr
        refine ⟨l.toList ++ a :: xs, o, ys, ?_, hs.hit, ?_, hs.above, ?_, ?_, ?_, ?_, ?_⟩
        · rw [Tree.toList, hs.toList, List.append_assoc, List.cons_append]
        · intro x hx
          rcases List.mem_append.1 hx with hx | hx
          · exact lt_trans (hla x hx) hgt
          · rcases List.mem_cons.1 hx with rfl | hx
            · exact hgt
            · exact hs.below x hx
        · rw [Tree.find, if_neg hk, if_neg hlt, hs.find]
        · intro f
          rw [Tree.put, if_neg hk, if_neg hlt, Tree.toList, hs.put, List.append_assoc,
            List.cons_append]
        · intro ho
          rw [Tree.rightOf, if_neg hk, if_neg hlt]
          exact hs.right ho
        · rw [Tree.erase, if_neg hk, if_neg hlt, Tree.toList, hs.erase, List.append_assoc,
            List.cons_append]
        · rw [Tree.prev, if_pos hgt, hs.prev, List.getLast?_append, List.getLast?_cons]
          cases xs.getLast? <;> rfl

/-- At the key of its last element, an ordered tree splits into that and what is
    before it. -/
theorem Ordered.split_last (h : Ordered key t) (ht : t.toList = xs ++ [a]) :
    Split key t (key a) xs (some a) [] := by
  obtain ⟨xs', o, ys', hs⟩ := h.split (key a)
  have hlist := hs.toList
  unfold Ordered at h
  rw [ht] at h hlist
  have hbelow : ∀ x ∈ xs, key x < key a := fun x hx =>
    (List.pairwise_append.1 h).2.2 x hx a List.mem_cons_self
  have hys : ys' = [] := by
    by_contra hne
    obtain ⟨y, hy⟩ := List.exists_mem_of_ne_nil _ hne
    have hmem : y ∈ xs ++ [a] := by
      rw [hlist]
      exact List.mem_append_right _ (List.mem_append_right _ hy)
    have habove := hs.above y hy
    rcases List.mem_append.1 hmem with hx | hx
    · exact lt_asymm habove (hbelow y hx)
    · rw [List.mem_singleton.1 hx] at habove
      exact lt_irrefl _ habove
  subst hys
  cases o with
  | none =>
    rw [Option.toList_none, List.append_nil, List.append_nil] at hlist
    have ha : a ∈ xs' := by
      rw [← hlist]
      exact List.mem_append_right _ List.mem_cons_self
    exact absurd (hs.below a ha) (lt_irrefl _)
  | some a' =>
    rw [Option.toList_some, List.append_nil] at hlist
    obtain ⟨rfl, ha⟩ := List.append_inj' hlist rfl
    obtain rfl := List.singleton_inj.1 ha
    exact hs

/-- Replacing what has the key `k` by what has it too keeps the order. -/
theorem Split.ordered_put (hs : Split key t k xs o ys) (h : Ordered key t)
    {f : Option α → α} (hf : key (f o) = k) : Ordered key (t.put key k f) := by
  unfold Ordered at h ⊢
  rw [hs.toList] at h
  rw [hs.put]
  obtain ⟨hx, hoy, -⟩ := List.pairwise_append.1 h
  obtain ⟨-, hy, -⟩ := List.pairwise_append.1 hoy
  refine List.pairwise_append.2 ⟨hx, List.pairwise_cons.2 ⟨?_, hy⟩, ?_⟩
  · intro y hmem
    rw [hf]
    exact hs.above y hmem
  · intro x hxm z hz
    rcases List.mem_cons.1 hz with rfl | hz
    · rw [hf]
      exact hs.below x hxm
    · exact lt_trans (hs.below x hxm) (hs.above z hz)

theorem Split.ordered_erase (hs : Split key t k xs o ys) (h : Ordered key t) :
    Ordered key (t.erase key k) := by
  unfold Ordered at h ⊢
  rw [hs.toList] at h
  rw [hs.erase]
  refine h.sublist ?_
  exact List.Sublist.append (List.Sublist.refl xs) (List.sublist_append_right _ ys)

/-! ## Larger elements -/

theorem toList_map (g : α → β) (t : Tree α) : (t.map g).toList = t.toList.map g := by
  induction t with
  | nil => rfl
  | node l a r ihl ihr =>
    rw [map, Tree.toList, Tree.toList, List.map_append, List.map_cons, ihl, ihr]

theorem map_join (g : α → β) (l r : Tree α) : (l.join r).map g = (l.map g).join (r.map g) := by
  induction l with
  | nil => rfl
  | node l a m _ ih => rw [join, map, map, join, ih]

section
variable {g : α → β} {key' : β → κ}

theorem find_map (hg : ∀ a, key' (g a) = key a) : (t.map g).find key' k = (t.find key k).map g := by
  induction t with
  | nil => rfl
  | node l a r ihl ihr =>
    rw [map, Tree.find, Tree.find, hg, ihl, ihr, apply_ite (Option.map g),
      apply_ite (Option.map g)]
    rfl

theorem put_map (f : Option α → α) (f' : Option β → β) (hg : ∀ a, key' (g a) = key a)
    (hf : f' ((t.find key k).map g) = g (f (t.find key k))) :
    (t.map g).put key' k f' = (t.put key k f).map g := by
  induction t with
  | nil => exact congrArg (node nil · nil) hf
  | node l a r ihl ihr =>
    rw [Tree.find] at hf
    rw [map, Tree.put, Tree.put, hg]
    split_ifs at hf ⊢
    · exact congrArg (node (l.map g) · (r.map g)) hf
    · exact congrArg (node · (g a) (r.map g)) (ihl hf)
    · exact congrArg (node (l.map g) (g a)) (ihr hf)

theorem erase_map (hg : ∀ a, key' (g a) = key a) :
    (t.map g).erase key' k = (t.erase key k).map g := by
  induction t with
  | nil => rfl
  | node l a r ihl ihr =>
    rw [map, Tree.erase, Tree.erase, hg, ihl, ihr, ← map_join]
    split_ifs <;> rfl

theorem ordered_map (hg : ∀ a, key' (g a) = key a) : Ordered key' (t.map g) ↔ Ordered key t := by
  unfold Ordered
  rw [toList_map, List.pairwise_map]
  simp only [hg]

end

end SearchTree
