/-
  devtmpfs — what has been made is removed again.

  * `Closed`, `Neat`: what lies in a directory lies in one that is there; the
    directories of the module's own are as it makes them, and have something in them;
  * `Clean`: nothing fails, no name has an empty or a special component, and what is
    to be removed is there (for what is not, directories would be made);
  * `handle_neat`: such a request leaves a neat tree;
  * `neat_ext`: in a neat tree the directories are those that the nodes ask for;
  * `leaves_no_trace`: after such requests, when the nodes are those of the beginning,
    so is the tree.
-/
import DroidLkm.Devtmpfs.Ours

namespace DroidLkm.Devtmpfs

open Machine

variable {t t' t₁ : Tree} {e : Env} {p q dir up : Path} {i j : Inode} {s leaf : Name}
  {name : Name} {l rest : List Name} {dev : Device} {err : ℤ} {f : Inode → Inode}
  {perm uid gid : ℕ} {fs : Fs} {d d' : Option Path}

/-- The directories that `droid_lkm_devtmpfs_parent` makes. -/
def newDir : Inode := ⟨true, .dir, 0o755, 0, 0⟩

/-- A directory of the module's own. -/
def OwnDir (i : Inode) : Prop := i.mine = true ∧ i.kind = .dir

/-- What is there lies in a directory that is there. -/
def Closed (t : Tree) : Prop := ∀ p i, t.lookup p = some i → p ≠ [] ∧ t.isDir p.tail = true

/-- The directories of the module's own but for one have something in them. -/
def TidyBut (t : Tree) (d : Option Path) : Prop :=
  ∀ p i, t.lookup p = some i → OwnDir i → some p ≠ d → t.hasChild p = true

structure Neat (t : Tree) : Prop where
  closed : Closed t
  tidy : TidyBut t none
  plain : ∀ p i, t.lookup p = some i → OwnDir i → i = newDir

/-! ## Directories -/

theorem hasChild_iff : t.hasChild p = true ↔ ∃ s i, t.lookup (s :: p) = some i := by
  rw [Tree.hasChild, decide_eq_true_eq, ne_eq, ← Finset.not_nonempty_iff_eq_empty, not_not]
  constructor
  · rintro ⟨q, hq⟩
    rw [Finset.mem_filter, Finmap.mem_keys, Finmap.mem_iff] at hq
    obtain ⟨⟨i, hi⟩, htail, hne⟩ := hq
    cases q with
    | nil => exact absurd rfl hne
    | cons s q =>
      cases htail
      exact ⟨s, i, hi⟩
  · rintro ⟨s, i, hi⟩
    refine ⟨s :: p, Finset.mem_filter.2 ⟨?_, rfl, List.cons_ne_nil _ _⟩⟩
    rw [Finmap.mem_keys, Finmap.mem_iff]
    exact ⟨i, hi⟩

theorem isDir_iff (hp : p ≠ []) : t.isDir p = true ↔ ∃ i, t.lookup p = some i ∧ i.kind = .dir := by
  rw [Tree.isDir]
  cases t.lookup p <;> simp [hp]

theorem hasChild_false : t.hasChild p = false ↔ ∀ s, t.lookup (s :: p) = none := by
  rw [← Bool.not_eq_true, hasChild_iff]
  push Not
  constructor
  · intro h s
    exact Option.eq_none_iff_forall_not_mem.2 fun i hi => h s i hi
  · intro h s i
    rw [h s]
    exact nofun

theorem Closed.inDir (h : Closed t) (hi : t.lookup (s :: p) = some i) (hp : p ≠ []) :
    ∃ j, t.lookup p = some j ∧ j.kind = .dir :=
  (isDir_iff hp).1 (h _ _ hi).2

/-- Nothing lies in what is not there. -/
theorem Closed.childless (h : Closed t) (hp : t.lookup p = none) (hne : p ≠ []) :
    t.hasChild p = false := by
  refine hasChild_false.2 fun s => ?_
  by_contra hs
  obtain ⟨i, hi⟩ := Option.ne_none_iff_exists'.1 hs
  obtain ⟨j, hj, -⟩ := h.inDir hi hne
  rw [hp] at hj
  cases hj

theorem Closed.above (h : Closed t) (hi : t.lookup (l ++ p) = some i) (hp : p ≠ []) :
    t.lookup p ≠ none := by
  induction l generalizing i with
  | nil =>
    rw [List.nil_append] at hi
    rw [hi]
    exact nofun
  | cons s l ih =>
    obtain ⟨j, hj, -⟩ := h.inDir hi (by simp [hp])
    exact ih hj

/-! ## Something is put into a directory, or taken out -/

theorem isDir_insert (hq : q ≠ p) : Tree.isDir (t.insert p i) q = t.isDir q := by
  rw [Tree.isDir, Tree.isDir, lookup_insert_if, if_neg hq]

theorem Closed.insert (h : Closed t) (hfree : t.lookup p = none) (hp : p ≠ [])
    (hd : t.isDir p.tail = true) : Closed (t.insert p i) := by
  have hdir : ∀ q, t.isDir q = true → Tree.isDir (t.insert p i) q = true := by
    intro q hq
    by_cases hqp : q = p
    · subst hqp
      obtain ⟨j, hj, -⟩ := (isDir_iff hp).1 hq
      rw [hfree] at hj
      cases hj
    · rw [isDir_insert hqp]
      exact hq
  intro q j hq
  rw [lookup_insert_if] at hq
  split at hq
  next hqp =>
    subst hqp
    exact ⟨hp, hdir _ hd⟩
  · exact ⟨(h q j hq).1, hdir _ (h q j hq).2⟩

theorem hasChild_insert (h : t.hasChild q = true) : Tree.hasChild (t.insert p i) q = true := by
  obtain ⟨s, j, hj⟩ := hasChild_iff.1 h
  refine hasChild_iff.2 ⟨s, if s :: q = p then i else j, ?_⟩
  rw [lookup_insert_if]
  split
  · rfl
  · exact hj

theorem hasChild_insert_self : Tree.hasChild (t.insert (s :: p) i) p = true :=
  hasChild_iff.2 ⟨s, i, by rw [lookup_insert_if, if_pos rfl]⟩

/-- Something is put into the directory that had nothing. -/
theorem TidyBut.insert (h : TidyBut t d) (hd : ∀ x, d = some x → x = p)
    (hd' : OwnDir i → d' = some (s :: p)) :
    TidyBut (t.insert (s :: p) i) d' := by
  intro q j hq hown hne
  rw [lookup_insert_if] at hq
  split at hq
  next hqp =>
    cases hq
    rw [hqp] at hne
    exact absurd (hd' hown).symm hne
  · by_cases hqp : q = p
    · rw [hqp]
      exact hasChild_insert_self
    · refine hasChild_insert (h q j hq hown ?_)
      rintro hqd
      exact hqp (hd q hqd.symm)

theorem hasChild_erase (hne : q ≠ p.tail ∨ p = []) :
    Tree.hasChild (t.erase p) q = t.hasChild q := by
  rw [Bool.eq_iff_iff, hasChild_iff, hasChild_iff]
  refine exists_congr fun s => exists_congr fun j => ?_
  rw [lookup_erase_if, if_neg]
  rintro rfl
  rcases hne with hne | hne
  · exact hne rfl
  · cases hne

/-- What has nothing in it is taken out. -/
theorem Closed.erase (h : Closed t) (hc : t.hasChild p = false) : Closed (t.erase p) := by
  intro q j hq
  rw [lookup_erase_if] at hq
  split at hq
  · cases hq
  obtain ⟨hne, hdir⟩ := h q j hq
  refine ⟨hne, ?_⟩
  rw [Tree.isDir, lookup_erase_if, if_neg]
  · exact hdir
  · intro htail
    cases q with
    | nil => exact hne rfl
    | cons s q =>
      rw [← htail] at hc
      have hnone := hasChild_false.1 hc s
      rw [List.tail_cons, hq] at hnone
      cases hnone

theorem TidyBut.erase (h : TidyBut t d) (hd : ∀ x, d = some x → x = p) :
    TidyBut (t.erase p) (some p.tail) := by
  intro q j hq hown hne
  rw [lookup_erase_if] at hq
  split at hq
  · cases hq
  next hqp =>
    rw [hasChild_erase (Or.inl fun he => hne (by rw [he]))]
    exact h q j hq hown fun hqd => hqp (hd q hqd.symm)

/-! ## On the way to a node -/

/-- A component that `lookup_one_len` takes. -/
def Plain (s : Name) : Prop := s ≠ [] ∧ s ≠ ['.'] ∧ s ≠ ['.', '.']

instance : DecidablePred Plain := fun s =>
  inferInstanceAs (Decidable (s ≠ [] ∧ s ≠ ['.'] ∧ s ≠ ['.', '.']))

theorem lookupOneLen_calm (hs : Plain s) (hd : t.isDir p = true) :
    lookupOneLen t .calm s p = .ok (t.lookup (s :: p)) := by
  have h0 : ¬Env.calm.lookup (s :: p) ≠ 0 := not_not.2 rfl
  rw [lookupOneLen, if_neg (not_or.2 hs.2), if_neg h0, if_neg (by simp [hd])]

theorem vfsMkdir_calm : vfsMkdir t .calm p = (t.insert p newDir, 0) :=
  if_neg (not_not.2 rfl)

/-- An empty directory of the module's own, where the walk stands. -/
structure Fresh (t : Tree) (p : Path) : Prop where
  closed : Closed t
  tidy : TidyBut t (some p)
  plain : ∀ q i, t.lookup q = some i → OwnDir i → i = newDir
  here : t.lookup p = some newDir
  empty : t.hasChild p = false

theorem Fresh.isDir (h : Fresh t p) : t.isDir p = true := by
  rw [Tree.isDir, h.here]
  simp [newDir]

/-- A directory is made in one that is there, which need not have had anything in it. -/
theorem fresh_mkdir (hc : Closed t) (ht : TidyBut t d) (hd : ∀ x, d = some x → x = p)
    (hplain : ∀ q i, t.lookup q = some i → OwnDir i → i = newDir)
    (hfree : t.lookup (s :: p) = none) (hdir : t.isDir p = true) :
    Fresh (t.insert (s :: p) newDir) (s :: p) := by
  have hc' := hc.insert (i := newDir) hfree (List.cons_ne_nil _ _) hdir
  refine ⟨hc', ht.insert hd fun _ => rfl, ?_, by rw [lookup_insert_if, if_pos rfl], ?_⟩
  · intro q i hq hown
    rw [lookup_insert_if] at hq
    split at hq
    · cases hq
      rfl
    · exact hplain q i hq hown
  · refine hasChild_false.2 fun x => ?_
    rw [lookup_insert_if, if_neg (by simp)]
    exact hasChild_false.1 (hc.childless hfree (List.cons_ne_nil _ _)) x

/-- From a directory that it has made, the walk makes all that is left. -/
theorem walk_fresh (h : Fresh t p) (hl : l ≠ []) (hplain : ∀ s ∈ l, Plain s) :
    ∃ t' dir leaf, parentFrom t .calm p l = (t', .ok (dir, leaf)) ∧ Fresh t' dir ∧
      Plain leaf := by
  induction l generalizing t p with
  | nil => exact absurd rfl hl
  | cons s rest ih =>
    have hs := hplain s List.mem_cons_self
    by_cases hr : rest = []
    · subst hr
      exact ⟨t, p, s, parentFrom_one hs.1, h, hs⟩
    have hfree := hasChild_false.1 h.empty s
    have hnext := fresh_mkdir h.closed h.tidy (fun x hx => (Option.some.inj hx).symm) h.plain hfree
      h.isDir
    rw [parentFrom_cons hr hs.1, lookupOneLen_calm hs h.isDir, hfree]
    dsimp only
    rw [vfsMkdir_calm]
    dsimp only
    rw [if_neg (not_not.2 rfl)]
    exact ih hnext hr fun x hx => hplain x (List.mem_cons_of_mem _ hx)

/-- The walk makes nothing, or ends in a directory that it has made. -/
theorem walk_neat (h : Neat t) (hplain : ∀ s ∈ l, Plain s) :
    (parentFrom t .calm p l).1 = t ∨
      ∃ t' dir leaf, parentFrom t .calm p l = (t', .ok (dir, leaf)) ∧ Fresh t' dir ∧
        Plain leaf := by
  induction l generalizing p with
  | nil => exact Or.inl rfl
  | cons s rest ih =>
    have hs := hplain s List.mem_cons_self
    have hrest : ∀ x ∈ rest, Plain x := fun x hx => hplain x (List.mem_cons_of_mem _ hx)
    by_cases hr : rest = []
    · subst hr
      rw [parentFrom_one hs.1]
      exact Or.inl rfl
    rw [parentFrom_cons hr hs.1]
    split
    · exact Or.inl rfl
    · exact ih hrest
    next hl =>
      obtain ⟨hfree, hdir, -⟩ := lookupOneLen_ok hl
      rw [vfsMkdir_calm]
      dsimp only
      rw [if_neg (not_not.2 rfl)]
      refine Or.inr (walk_fresh ?_ hr hrest)
      exact fresh_mkdir h.closed h.tidy nofun h.plain hfree hdir

/-- To what is there the way is there. -/
theorem walk_there (h : Closed t) (e : Env) (hi : t.lookup (l.reverse ++ p) = some i) :
    (parentFrom t e p l).1 = t := by
  induction l generalizing p with
  | nil => rfl
  | cons s rest ih =>
    by_cases hs : s = []
    · subst hs
      rw [parentFrom_empty]
    by_cases hr : rest = []
    · subst hr
      rw [parentFrom_one hs]
    rw [List.reverse_cons, List.append_assoc, List.singleton_append] at hi
    rw [parentFrom_cons hr hs]
    split
    · rfl
    · exact ih hi
    next hl =>
      exact absurd (lookupOneLen_ok hl).1 (h.above hi (List.cons_ne_nil _ _))

/-! ## Making a node -/

theorem Neat.node (h : Neat t) (hfree : t.lookup p = none) (hp : p ≠ [])
    (hd : t.isDir p.tail = true) (hk : i.kind ≠ .dir) : Neat (t.insert p i) := by
  refine ⟨h.closed.insert hfree hp hd, ?_, ?_⟩
  · cases p with
    | nil => exact absurd rfl hp
    | cons s p => exact h.tidy.insert nofun fun hown => absurd hown.2 hk
  · intro q j hq hown
    rw [lookup_insert_if] at hq
    split at hq
    · cases hq
      exact absurd hown.2 hk
    · exact h.plain q j hq hown

/-- A node fills the directory that has been made for it. -/
theorem Fresh.node (h : Fresh t p) (hk : i.kind ≠ .dir) : Neat (t.insert (s :: p) i) := by
  refine ⟨h.closed.insert (hasChild_false.1 h.empty s) (List.cons_ne_nil _ _) h.isDir, ?_, ?_⟩
  · exact h.tidy.insert (fun x hx => (Option.some.inj hx).symm) fun hown => absurd hown.2 hk
  · intro q j hq hown
    rw [lookup_insert_if] at hq
    split at hq
    · cases hq
      exact absurd hown.2 hk
    · exact h.plain q j hq hown

theorem handleCreate_free (hp : parent fs.tree .calm name = (t, .ok (dir, leaf)))
    (hleaf : Plain leaf) (hd : t.isDir dir = true) (hfree : t.lookup (leaf :: dir) = none)
    (perm uid gid : ℕ) (dev : Device) :
    ∃ i, i.kind = dev.kind ∧
      (handleCreate fs .calm name perm uid gid dev).1.tree = t.insert (leaf :: dir) i := by
  have hmade : vfsMknod t .calm (leaf :: dir) dev.kind perm =
      (t.insert (leaf :: dir) ⟨false, dev.kind, perm, 0, 0⟩, 0) := by
    have h0 : ¬Env.calm.mknod (leaf :: dir) ≠ 0 := not_not.2 rfl
    rw [vfsMknod, if_neg (by simp [hfree]), if_neg h0]
  have hnotify : ∀ (t : Tree) p f, notifyChange t .calm p f = t.modify p f := fun _ _ _ =>
    if_neg (not_not.2 rfl)
  unfold handleCreate
  rw [hp]
  dsimp only
  rw [lookupOneLen_calm hleaf hd]
  dsimp only
  rw [hmade]
  dsimp only
  rw [if_neg (not_not.2 rfl), hnotify, modify_insert, modify_insert]
  exact ⟨_, rfl, rfl⟩

theorem create_neat (h : Neat fs.tree) (hplain : ∀ s ∈ name.splitOn '/', Plain s) :
    Neat (handleCreate fs .calm name perm uid gid dev).1.tree := by
  rcases walk_neat (p := []) h hplain with hsame | ⟨t', dir, leaf, hp, hfresh, hleaf⟩
  · obtain ⟨t, ht, -, hr | ⟨i, hfree, hd, hi, hr⟩⟩ :=
      handleCreate_spec fs .calm name perm uid gid dev
    · rw [parent, hsame] at ht
      rw [hr, ← ht]
      exact h
    · rw [parent, hsame] at ht
      subst ht
      rw [hr]
      refine h.node hfree ?_ hd (by rw [hi.kind]; exact kind_ne_dir dev)
      rw [target, ne_eq, List.reverse_eq_nil_iff]
      exact List.splitOn_ne_nil _ _
  · obtain ⟨i, hi, hr⟩ := handleCreate_free hp hleaf hfresh.isDir
      (hasChild_false.1 hfresh.empty leaf) perm uid gid dev
    rw [hr]
    exact hfresh.node (by rw [hi]; exact kind_ne_dir dev)

/-! ## Removing a node -/

theorem modify_back (hm : ∀ i, (f i).mine = i.mine ∧ (f i).kind = i.kind)
    (hi : (t.modify q f).lookup p = some i) :
    ∃ j, t.lookup p = some j ∧ j.mine = i.mine ∧ j.kind = i.kind := by
  rw [lookup_modify_if] at hi
  split at hi
  · obtain ⟨j, hj, rfl⟩ := Option.map_eq_some_iff.1 hi
    exact ⟨j, hj, (hm j).1.symm, (hm j).2.symm⟩
  · exact ⟨i, hi, rfl, rfl⟩

theorem modify_isDir (hm : ∀ i, (f i).kind = i.kind) : Tree.isDir (t.modify q f) p = t.isDir p := by
  rw [Tree.isDir, Tree.isDir, lookup_modify_if]
  split
  · cases t.lookup p <;> simp [hm]
  · rfl

theorem modify_hasChild : Tree.hasChild (t.modify q f) p = t.hasChild p := by
  rw [Bool.eq_iff_iff, hasChild_iff, hasChild_iff]
  refine exists_congr fun s => ?_
  rw [lookup_modify_if]
  split
  · cases t.lookup (s :: p) <;> simp
  · rfl

/-- The attributes of a node do not matter. -/
theorem Neat.modify (h : Neat t) (hm : ∀ i, (f i).mine = i.mine ∧ (f i).kind = i.kind)
    (hi : t.lookup q = some i) (hk : i.kind ≠ .dir) : Neat (t.modify q f) := by
  refine ⟨?_, ?_, ?_⟩
  · intro p j hp
    obtain ⟨j', hj', -, -⟩ := modify_back hm hp
    rw [modify_isDir fun i => (hm i).2]
    exact h.closed p j' hj'
  · intro p j hp hown hne
    obtain ⟨j', hj', h1, h2⟩ := modify_back hm hp
    rw [modify_hasChild]
    exact h.tidy p j' hj' ⟨h1.trans hown.1, h2.trans hown.2⟩ hne
  · intro p j hp hown
    rw [lookup_modify_if] at hp
    split at hp
    next hpq =>
      rw [hpq, hi] at hp
      cases hp
      exact absurd ((hm i).2.symm.trans hown.2) hk
    · exact h.plain p j hp hown

/-- **Pruning** takes away the directories that have nothing in them any more. -/
theorem prune_neat (hc : Closed t) (ht : TidyBut t (some p))
    (hplain : ∀ q i, t.lookup q = some i → OwnDir i → i = newDir) : Neat (prune t .calm p) := by
  induction p generalizing t with
  | nil => exact ⟨hc, fun q i hq hown _ => ht q i hq hown fun he =>
      (hc q i hq).1 (Option.some.inj he), hplain⟩
  | cons s up ih =>
    cases hl : t.lookup (s :: up) with
    | none =>
      rw [prune, hl]
      refine ⟨hc, fun q i hq hown _ => ht q i hq hown fun he => ?_, hplain⟩
      rw [Option.some.inj he, hl] at hq
      cases hq
    | some i =>
      -- it stays if it is not the module's own, or has something in it
      have hstay : (OwnDir i → t.hasChild (s :: up) = true) → Neat t := by
        intro hchild
        refine ⟨hc, fun q j hq hown _ => ?_, hplain⟩
        by_cases he : q = s :: up
        · subst he
          rw [hl] at hq
          cases hq
          exact hchild hown
        · exact ht q j hq hown fun he' => he (Option.some.inj he')
      by_cases hm : (!i.mine) = true
      · rw [prune, hl]
        dsimp only
        rw [if_pos hm]
        exact hstay fun hown => absurd hown.1 (by simpa using hm)
      by_cases hk : i.kind = .dir
      swap
      · rcases prune_cons t .calm s up with heq | ⟨j, hj, -, hd, -⟩
        · rw [heq]
          exact hstay fun hown => absurd hown.2 hk
        · rw [hl] at hj
          cases hj
          exact absurd hd hk
      cases hchild : t.hasChild (s :: up) with
      | true =>
        rcases prune_cons t .calm s up with heq | ⟨j, -, -, -, hno, -⟩
        · rw [heq]
          exact hstay fun _ => hchild
        · rw [hchild] at hno
          cases hno
      | false =>
        have hrm : vfsRmdir t .calm (s :: up) = (t.erase (s :: up), 0) := by
          have h0 : ¬Env.calm.rmdir (s :: up) ≠ 0 := not_not.2 rfl
          rw [vfsRmdir, if_neg h0, if_neg (by simp [Tree.isDir, hl, hk]), if_neg (by simp [hchild])]
        rw [prune, hl]
        dsimp only
        rw [if_neg hm, hrm]
        dsimp only
        rw [if_neg (not_not.2 rfl)]
        refine ih (hc.erase hchild) (ht.erase fun x hx => (Option.some.inj hx).symm) ?_
        intro q j hq hown
        rw [lookup_erase_if] at hq
        split at hq
        · cases hq
        · exact hplain q j hq hown

theorem remove_neat (h : Neat fs.tree) (hi : fs.tree.lookup (target name) = some i) :
    Neat (handleRemove fs .calm name dev).1.tree := by
  have hsame : (parent fs.tree .calm name).1 = fs.tree :=
    walk_there h.closed _ (by rw [List.append_nil]; exact hi)
  obtain ⟨t, ht, -, hr | ⟨j, hj, hmine, hr⟩⟩ := handleRemove_spec fs .calm name dev
  · rw [hr, ← ht, hsame]
    exact h
  rw [hsame] at ht
  subst ht
  rw [mynode, Bool.and_eq_true, decide_eq_true_eq] at hmine
  have hkind : j.kind ≠ .dir := by
    rw [hmine.2]
    exact kind_ne_dir dev
  have hnotify : notifyChange fs.tree .calm (target name) stripped =
      fs.tree.modify (target name) stripped := if_neg (not_not.2 rfl)
  have hneat := h.modify (f := stripped) (fun _ => ⟨rfl, rfl⟩) hj hkind
  have hleaf : Tree.hasChild (fs.tree.modify (target name) stripped) (target name) = false := by
    rw [modify_hasChild]
    refine hasChild_false.2 fun x => ?_
    by_contra hx
    obtain ⟨k, hk⟩ := Option.ne_none_iff_exists'.1 hx
    obtain ⟨k', hk', hdir⟩ := h.closed.inDir hk (h.closed _ _ hj).1
    rw [hj] at hk'
    cases hk'
    exact hkind hdir
  have h0 : Env.calm.unlink (target name) = 0 := rfl
  rw [hr, if_pos h0, hnotify]
  have hc := hneat.closed.erase hleaf
  have htidy := hneat.tidy.erase (p := target name) fun _ hx => by cases hx
  have hplain : ∀ q i, Finmap.lookup q (Tree.modify fs.tree (target name) stripped |>.erase
      (target name)) = some i → OwnDir i → i = newDir := by
    intro q k hq hown
    rw [lookup_erase_if] at hq
    split at hq
    · cases hq
    · exact hneat.plain q k hq hown
  dsimp only
  unfold pruned
  split
  · exact prune_neat hc htidy hplain
  next hslash =>
    -- the directory is the root
    have htail : (target name).tail = [] := by
      rw [target, List.splitOn_eq_singleton hslash]
      rfl
    rw [htail] at htidy
    exact ⟨hc, fun q k hq hown _ => htidy q k hq hown fun he =>
      (hc q k hq).1 (Option.some.inj he), hplain⟩

/-! ## Every run -/

/-- Nothing fails that the tree does not make fail, the components of a new name are
    plain, and what is to be removed is there. -/
def Clean (fs : Fs) (x : Job × Env) : Prop :=
  x.2 = .calm ∧ match x.1 with
    | .create name _ _ _ _ => ∀ s ∈ name.splitOn '/', Plain s
    | .remove name _ => (fs.tree.lookup (target name)).isSome = true

/-- **A clean request leaves a neat tree.** -/
theorem handle_neat {x : Job × Env} (hx : Clean fs x) (h : Neat fs.tree) :
    Neat (handle fs x).1.tree := by
  obtain ⟨job, e⟩ := x
  obtain ⟨rfl, hjob⟩ := hx
  cases job with
  | create name perm uid gid dev => exact create_neat h hjob
  | remove name dev =>
    obtain ⟨i, hi⟩ := Option.isSome_iff_exists.1 hjob
    exact remove_neat h hi

/-- What is in one tree is in the other, if that is so of all but the directories of
    the module's own: they have something in them, and so on down to a node. -/
theorem there_of_nodes (h : Neat t) (h' : Closed t')
    (hsame : ∀ p i, ¬OwnDir i → t.lookup p = some i → t'.lookup p = some i)
    (hi : t.lookup p = some i) : t'.lookup p ≠ none := by
  have hbound : ∀ q j, t.lookup q = some j → q.length ≤ t.keys.sup List.length := by
    intro q j hq
    exact Finset.le_sup (f := List.length)
      (Finmap.mem_keys.2 (Finmap.mem_of_lookup_eq_some hq))
  induction hn : t.keys.sup List.length - p.length using Nat.strongRecOn generalizing p i with
  | ind n ih =>
    by_cases hown : OwnDir i
    · obtain ⟨s, j, hj⟩ := hasChild_iff.1 (h.tidy p i hi hown nofun)
      have hlen := hbound (s :: p) j hj
      rw [List.length_cons] at hlen
      have hthere := ih (t.keys.sup List.length - (s :: p).length)
        (by rw [List.length_cons]; omega) hj rfl
      obtain ⟨k, hk⟩ := Option.ne_none_iff_exists'.1 hthere
      obtain ⟨k', hk', -⟩ := h'.inDir hk (h.closed p i hi).1
      rw [hk']
      exact nofun
    · rw [hsame p i hown hi]
      exact nofun

/-- **Neat trees with the same nodes are the same**: the directories of the module's
    own are those on the way to something else. -/
theorem neat_ext (h : Neat t) (h' : Neat t')
    (hsame : ∀ p i, ¬OwnDir i → (t.lookup p = some i ↔ t'.lookup p = some i)) : t = t' := by
  have hone : ∀ {t t' : Tree}, Neat t → Neat t' →
      (∀ p i, ¬OwnDir i → (t.lookup p = some i ↔ t'.lookup p = some i)) →
      ∀ p i, t.lookup p = some i → t'.lookup p = some i := by
    intro t t' h h' hsame p i hi
    by_cases hown : OwnDir i
    · obtain ⟨j, hj⟩ := Option.ne_none_iff_exists'.1
        (there_of_nodes h h'.closed (fun q k hk => (hsame q k hk).1) hi)
      by_cases hown' : OwnDir j
      · rw [hj, h'.plain p j hj hown', h.plain p i hi hown]
      · have heq := (hsame p j hown').2 hj
        rw [hi] at heq
        cases heq
        exact absurd hown hown'
    · exact (hsame p i hown).1 hi
  refine Finmap.ext_lookup fun p => ?_
  cases hp : t.lookup p with
  | some i => exact (hone h h' hsame p i hp).symm
  | none =>
    cases hp' : t'.lookup p with
    | none => rfl
    | some i =>
      have heq := hone h' h (fun q k hk => (hsame q k hk).symm) p i hp'
      rw [hp] at heq
      cases heq

variable {notify : Bool} {fs₀ : Fs} {s : State Fs (Job × Env)}

/-- **Nothing is left behind.**  In a run whose requests are clean when they are
    served, the tree stays neat: the directories that the module has made are those on
    the way to something else.  When the nodes are those of the beginning again, so is
    the tree. -/
theorem leaves_no_trace
    (h : RunIf (State.step handle notify) (State.Serves Clean) (State.init fs₀) s)
    (h₀ : Neat fs₀.tree) :
    Neat s.tree.tree ∧
      ((∀ p i, i.kind ≠ .dir → (s.tree.tree.lookup p = some i ↔ fs₀.tree.lookup p = some i)) →
        s.tree.tree = fs₀.tree) := by
  have hneat : Neat s.tree.tree :=
    State.tree_inv (I := fun fs => Neat fs.tree) h h₀ fun _ _ hx hn => handle_neat hx hn
  refine ⟨hneat, fun hnodes => neat_ext hneat h₀ fun p i hown => ?_⟩
  by_cases hk : i.kind = .dir
  · have howned := replays_own (State.run_inv h.run).record.tree
    have hmine : i.mine = false := by
      by_contra hmine
      exact hown ⟨by simpa using hmine, hk⟩
    exact ⟨fun hi => (howned.new p i hi).resolve_right (by simp [hmine]),
      fun hi => howned.kept p i hi hmine⟩
  · exact hnodes p i hk

/-- A node in a directory is made, and removed. -/
theorem leaves_no_trace_snd : ∃ s : State Fs (Job × Env),
    RunIf (State.step handle true) (State.Serves Clean) (State.init ⟨∅, 0⟩) s ∧
      s.log.length = 2 ∧ Neat s.tree.tree ∧
      ((∀ p i, i.kind ≠ .dir → (s.tree.tree.lookup p = some i ↔
        Finmap.lookup p (∅ : Tree) = some i)) → s.tree.tree = ∅) := by
  have h₁ : RunIf (State.step handle true) (State.Serves Clean) (State.init ⟨∅, 0⟩) _ :=
    Relation.ReflTransGen.refl
  have h₂ := h₁.snoc
    (a := .enter 3 (.create ['s', '/', 'c'] 0o600 0 0 ⟨false, 29696⟩, .calm)) nofun rfl
  have h₃ := h₂.snoc (a := .push 3) nofun rfl
  have h₄ := h₃.snoc (a := .enter 4 (.remove ['s', '/', 'c'] ⟨false, 29696⟩, .calm)) nofun rfl
  have h₅ := h₄.snoc (a := .work) nofun rfl
  have h₆ := h₅.snoc (a := .work) nofun rfl
  have h₇ := h₆.snoc (a := .work) (by
    rintro - t r ⟨⟩ ⟨⟩
    exact ⟨rfl, (by decide : ∀ s ∈ List.splitOn '/' ['s', '/', 'c'], Plain s)⟩) rfl
  have h₈ := h₇.snoc (a := .push 4) nofun rfl
  have h₉ := h₈.snoc (a := .work) nofun rfl
  have h₁₀ := h₉.snoc (a := .work) nofun rfl
  have h₁₁ := h₁₀.snoc (a := .work) nofun rfl
  have h₁₂ := h₁₁.snoc (a := .work) (by
    rintro - t r ⟨⟩ ⟨⟩
    exact ⟨rfl, rfl⟩) rfl
  have h₀ : Neat ∅ := ⟨nofun, nofun, nofun⟩
  exact ⟨_, h₁₂, rfl, leaves_no_trace h₁₂ h₀⟩

end DroidLkm.Devtmpfs
