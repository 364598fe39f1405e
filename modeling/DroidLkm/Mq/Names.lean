/-
  POSIX message queues — the names.

  The module looks a name up in the root of the mqueue mount by itself, and makes
  the dentry without the directory's own lookup operation.

  * `mqLookup`, `mqOpen`, `mqUnlink`: `droid_lkm_mq_lookup`, `do_mq_open` and the
    system call `mq_unlink`, over the dentries of the root;
  * `Component n`: the names that the kernel's own lookup accepts;
  * `Judged k n`: in every run the name is accepted or refused as it should be,
    and what was opened under it can be unlinked;
  * `judged_iff`: the names for which this is so.
-/
import Mathlib.Algebra.Order.Ring.Nat
import Mathlib.Logic.Function.Basic
import Mathlib.Tactic.ByContra
import DroidLkm.Errno
import DroidLkm.Lib.Machine

namespace DroidLkm.Mq.Names

abbrev Name := List UInt8

def SLASH : UInt8 := 47

def DOT : UInt8 := 46

def NAME_MAX : ℕ := 255

def PATH_MAX : ℕ := 4096

/-- The names of one component, as `lookup_one_len` and `simple_lookup` accept
    them. -/
structure Component (n : Name) : Prop where
  nonempty : n ≠ []
  noSlash : SLASH ∉ n
  notDot : n ≠ [DOT]
  notDotDot : n ≠ [DOT, DOT]
  short : n.length ≤ NAME_MAX

/-- The symbols that the lookup asks for. -/
structure Helpers where
  dAlloc : Bool
  dLookup : Bool
  deriving DecidableEq

/-- The dentries in the root of the mount, the last one first for each name; a
    negative one has no inode. -/
structure Root where
  dentries : Name → List (Option ℕ)
  nextIno : ℕ

def Root.empty : Root := ⟨fun _ => [], 1⟩

/-- The inodes of the queues of a name. -/
def Root.queues (s : Root) (n : Name) : List ℕ := (s.dentries n).filterMap id

def Root.set (s : Root) (n : Name) (ds : List (Option ℕ)) : Root :=
  { s with dentries := Function.update s.dentries n ds }

/-- What the flags of `mq_open` ask for; `acc` is `oflag & O_ACCMODE`. -/
structure Oflag where
  creat : Bool
  excl : Bool
  acc : Fin 4
  deriving DecidableEq

/-- What the kernel answers on the way; the error numbers are 0 for none. -/
structure Env where
  /-- the namespace has a mount for queues -/
  mnt : Bool
  /-- `get_unused_fd_flags` -/
  fd : ℤ
  /-- `mnt_want_write` -/
  ro : ℕ
  /-- there is memory for a dentry -/
  mem : Bool
  /-- `vfs_mkobj` -/
  mkobj : ℕ
  /-- `droid_lkm_mq_inode_permission` -/
  permission : ℕ
  /-- `dentry_open` -/
  dentryOpen : ℕ
  /-- `droid_lkm_mq_vfs_unlink` -/
  unlink : ℕ
  /-- others hold the dentry that is unlinked -/
  busy : Bool
  deriving DecidableEq

/-- `getname`, the error it returns, or 0. -/
def getname (n : Name) : ℤ :=
  if n = [] then -ENOENT else if PATH_MAX < n.length then -ENAMETOOLONG else 0

variable (k : Helpers) (s : Root) (n : Name) (e : Env)

/-! ## The functions of the source -/

/-- `droid_lkm_mq_lookup`; the dentry is then the first one of the name. -/
def mqLookup : Except ℤ Root :=
  if SLASH ∈ n then .error (-EACCES)
  else if !k.dAlloc then .error (-ENOSYS)
  else if k.dLookup ∧ s.dentries n ≠ [] then .ok s
  else if !e.mem then .error (-ENOMEM)
  else .ok (s.set n (none :: s.dentries n))

/-- `prepare_open`, for the first dentry of the name. -/
def prepareOpen (o : Oflag) : Root × ℤ :=
  match s.dentries n with
  | [] => (s, -ENOENT)
  | none :: ds =>
    if !o.creat then (s, -ENOENT)
    else if e.ro ≠ 0 then (s, -e.ro)
    else if e.mkobj ≠ 0 then (s, -e.mkobj)
    else ({ s.set n (some s.nextIno :: ds) with nextIno := s.nextIno + 1 }, 0)
  | some _ :: _ =>
    if o.creat ∧ o.excl then (s, -EEXIST)
    else if o.acc = 3 then (s, -EINVAL)
    else (s, -e.permission)

/-- `do_mq_open` -/
def mqOpen (o : Oflag) : Root × ℤ :=
  if !e.mnt then (s, -ENODEV)
  else if getname n ≠ 0 then (s, getname n)
  else if e.fd < 0 then (s, e.fd)
  else match mqLookup k s n e with
    | .error err => (s, err)
    | .ok s =>
      let (s, error) := prepareOpen s n e o
      if error ≠ 0 then (s, error)
      else if e.dentryOpen ≠ 0 then (s, -e.dentryOpen)
      else (s, e.fd)

/-- `mq_unlink`; `vfs_unlink` leaves the dentry negative, or unhashed where others
    hold it. -/
def mqUnlink : Root × ℤ :=
  if !e.mnt then (s, -ENODEV)
  else if getname n ≠ 0 then (s, getname n)
  else if e.ro ≠ 0 then (s, -e.ro)
  else match mqLookup k s n e with
    | .error err => (s, err)
    | .ok s =>
      match s.dentries n with
      | some _ :: ds =>
        if e.unlink ≠ 0 then (s, -e.unlink)
        else (s.set n (if e.busy then ds else none :: ds), 0)
      | _ => (s, -ENOENT)

/-! ## Runs -/

inductive Act where
  | mqOpen (n : Name) (o : Oflag) (e : Env)
  | mqUnlink (n : Name) (e : Env)
  /-- the kernel drops the negative dentries of a name -/
  | shrink (n : Name)

def step (k : Helpers) (s : Root) : Act → Option Root
  | .mqOpen n o e => some (mqOpen k s n e o).1
  | .mqUnlink n e => some (mqUnlink k s n e).1
  | .shrink n => some (s.set n ((s.dentries n).filter Option.isSome))

def Reachable (k : Helpers) (s : Root) : Prop := Machine.Run (step k) Root.empty s

/-- Nothing but the name can make the call fail. -/
structure Env.Quiet (e : Env) : Prop where
  mnt : e.mnt = true
  fd : 0 ≤ e.fd
  ro : e.ro = 0
  mem : e.mem = true
  mkobj : e.mkobj = 0
  permission : e.permission = 0
  dentryOpen : e.dentryOpen = 0
  unlink : e.unlink = 0

/-- The flags ask for a queue, new or not. -/
structure Oflag.Creates (o : Oflag) : Prop where
  creat : o.creat = true
  excl : o.excl = false
  acc : o.acc ≠ 3

/-- The queues of all names are what they were. -/
def SameQueues (s t : Root) : Prop := ∀ n, t.queues n = s.queues n

/-- A name is judged rightly in every run: a component is opened, any other name is
    refused by both calls and changes nothing, and what was opened is unlinked by the
    same name while it is there. -/
structure Judged (k : Helpers) (n : Name) : Prop where
  accepted : Component n → ∀ s, Reachable k s → ∀ e o, Env.Quiet e → Oflag.Creates o →
    0 ≤ (mqOpen k s n e o).2 ∧ (mqOpen k s n e o).1.queues n ≠ []
  refused : ¬Component n → ∀ s, Reachable k s → ∀ e o,
    (mqOpen k s n e o).2 < 0 ∧ SameQueues s (mqOpen k s n e o).1 ∧
      (mqUnlink k s n e).2 < 0 ∧ SameQueues s (mqUnlink k s n e).1
  removed : ∀ s, Reachable k s → ∀ e o, 0 ≤ (mqOpen k s n e o).2 →
    ∃ ino ∈ (mqOpen k s n e o).1.queues n, ∀ t, Machine.Run (step k) (mqOpen k s n e o).1 t →
      ino ∈ t.queues n → ∀ e', Env.Quiet e' →
        (mqUnlink k t n e').2 = 0 ∧ ino ∉ (mqUnlink k t n e').1.queues n

/-- The names that the code judges rightly: the components, where both symbols are
    found, and of the other names those that something else refuses. -/
def Settled (k : Helpers) (n : Name) : Prop :=
  (Component n ∧ k.dAlloc = true ∧ k.dLookup = true) ∨
    (¬Component n ∧ (n = [] ∨ PATH_MAX < n.length ∨ SLASH ∈ n ∨ k.dAlloc = false))

variable {k : Helpers} {s t : Root} {n m : Name} {e : Env} {o : Oflag} {err : ℤ} {ino : ℕ}

/-! ## One call -/

theorem set_dentries_self (ds : List (Option ℕ)) : (s.set n ds).dentries n = ds := by
  simp [Root.set]

theorem set_dentries_of_ne (ds : List (Option ℕ)) (h : m ≠ n) :
    (s.set n ds).dentries m = s.dentries m := by
  simp [Root.set, h]

theorem getname_eq_zero : getname n = 0 ↔ n ≠ [] ∧ n.length ≤ PATH_MAX := by
  unfold getname
  constructor
  · intro h
    split at h
    · cases h
    · next hnil =>
      split at h
      · cases h
      · next hlen => exact ⟨hnil, Nat.le_of_not_lt hlen⟩
  · rintro ⟨hnil, hlen⟩
    rw [if_neg hnil, if_neg (Nat.not_lt.2 hlen)]

theorem getname_neg (h : getname n ≠ 0) : getname n < 0 := by
  unfold getname at h ⊢
  split
  · decide
  · split
    · decide
    · next hnil hlen =>
      rw [if_neg hnil, if_neg hlen] at h
      exact absurd rfl h

theorem neg_ENODEV : -ENODEV < 0 := by decide

/-- What the lookup itself refuses. -/
theorem mqLookup_refused (h : SLASH ∈ n ∨ k.dAlloc = false) :
    ∃ err < 0, mqLookup k s n e = .error err := by
  unfold mqLookup
  split
  · exact ⟨_, by decide, rfl⟩
  · next hslash =>
    have halloc : (!k.dAlloc) = true := by rw [h.resolve_left hslash]; rfl
    rw [if_pos halloc]
    exact ⟨_, by decide, rfl⟩

theorem mqLookup_neg (h : mqLookup k s n e = .error err) : err < 0 := by
  unfold mqLookup at h
  split at h
  · obtain rfl := Except.error.inj h
    decide
  split at h
  · obtain rfl := Except.error.inj h
    decide
  split at h
  · cases h
  split at h
  · obtain rfl := Except.error.inj h
    decide
  · cases h

/-- Where it has a result there is a dentry, found or new. -/
theorem mqLookup_ok (h : mqLookup k s n e = .ok t) :
    (t = s ∧ k.dLookup = true ∧ s.dentries n ≠ []) ∨
      t = s.set n (none :: s.dentries n) ∧ (k.dLookup = true → s.dentries n = []) := by
  unfold mqLookup at h
  split at h
  · cases h
  split at h
  · cases h
  split at h
  · next hfound =>
    obtain rfl := Except.ok.inj h
    exact .inl ⟨rfl, hfound⟩
  · next hnew =>
    split at h
    · cases h
    · obtain rfl := Except.ok.inj h
      refine .inr ⟨rfl, fun hlookup => ?_⟩
      by_contra hne
      exact hnew ⟨hlookup, hne⟩

theorem mqLookup_dentries (h : mqLookup k s n e = .ok t) : ∃ d ds, t.dentries n = d :: ds := by
  rcases mqLookup_ok h with ⟨rfl, -, hne⟩ | ⟨rfl, -⟩
  · exact List.exists_cons_of_ne_nil hne
  · exact ⟨none, s.dentries n, set_dentries_self _⟩

theorem mqLookup_quiet (hslash : SLASH ∉ n) (halloc : k.dAlloc = true) (he : e.Quiet) :
    ∃ t, mqLookup k s n e = .ok t := by
  unfold mqLookup
  rw [if_neg hslash, halloc, he.mem]
  simp only [Bool.not_true, Bool.false_eq_true, if_false]
  split
  · exact ⟨_, rfl⟩
  · exact ⟨_, rfl⟩

theorem prepareOpen_pos (hd : ∃ d ds, s.dentries n = d :: ds) (h : (prepareOpen s n e o).2 = 0) :
    ∃ ino ds, (prepareOpen s n e o).1.dentries n = some ino :: ds := by
  obtain ⟨d, ds, hd⟩ := hd
  unfold prepareOpen at h ⊢
  rw [hd] at h ⊢
  cases d with
  | none =>
    dsimp only at h ⊢
    split at h
    · cases h
    · next hcreat =>
      rw [if_neg hcreat]
      split at h
      · next hro => exact absurd (Int.natCast_eq_zero.1 (Int.neg_eq_zero.1 h)) hro
      · next hro =>
        rw [if_neg hro]
        split at h
        · next hmk => exact absurd (Int.natCast_eq_zero.1 (Int.neg_eq_zero.1 h)) hmk
        · next hmk =>
          rw [if_neg hmk]
          exact ⟨s.nextIno, ds, set_dentries_self _⟩
  | some i =>
    refine ⟨i, ds, ?_⟩
    dsimp only
    split
    · exact hd
    · split
      · exact hd
      · exact hd

theorem prepareOpen_quiet (hd : ∃ d ds, s.dentries n = d :: ds) (he : e.Quiet) (ho : o.Creates) :
    (prepareOpen s n e o).2 = 0 := by
  obtain ⟨d, ds, hd⟩ := hd
  unfold prepareOpen
  rw [hd]
  cases d with
  | none => simp [ho.creat, he.ro, he.mkobj]
  | some i => simp [ho.excl, ho.acc, he.permission]

theorem prepareOpen_nonpos : (prepareOpen s n e o).2 ≤ 0 := by
  have herrs : -ENOENT ≤ 0 ∧ -EEXIST ≤ 0 ∧ -EINVAL ≤ 0 := by decide
  unfold prepareOpen
  split
  · exact herrs.1
  · split
    · exact herrs.1
    split
    · dsimp only; omega
    split
    · dsimp only; omega
    · exact Int.le_refl 0
  · split
    · exact herrs.2.1
    split
    · exact herrs.2.2
    · dsimp only; omega

/-- What is refused before a dentry is looked for changes nothing. -/
theorem mqOpen_refused (h : n = [] ∨ PATH_MAX < n.length ∨ SLASH ∈ n ∨ k.dAlloc = false) :
    (mqOpen k s n e o).1 = s ∧ (mqOpen k s n e o).2 < 0 := by
  unfold mqOpen
  split
  · exact ⟨rfl, neg_ENODEV⟩
  split
  · next hget => exact ⟨rfl, getname_neg hget⟩
  next hget =>
  obtain ⟨hnil, hlen⟩ := getname_eq_zero.1 (not_not.1 hget)
  split
  · next hfd => exact ⟨rfl, hfd⟩
  obtain ⟨err, hneg, herr⟩ := mqLookup_refused (s := s) (e := e)
    ((h.resolve_left hnil).resolve_left (by omega))
  rw [herr]
  exact ⟨rfl, hneg⟩

theorem mqUnlink_refused (h : n = [] ∨ PATH_MAX < n.length ∨ SLASH ∈ n ∨ k.dAlloc = false) :
    (mqUnlink k s n e).1 = s ∧ (mqUnlink k s n e).2 < 0 := by
  unfold mqUnlink
  split
  · exact ⟨rfl, neg_ENODEV⟩
  split
  · next hget => exact ⟨rfl, getname_neg hget⟩
  next hget =>
  obtain ⟨hnil, hlen⟩ := getname_eq_zero.1 (not_not.1 hget)
  split
  · next hro => exact ⟨rfl, by dsimp only; omega⟩
  obtain ⟨err, hneg, herr⟩ := mqLookup_refused (s := s) (e := e)
    ((h.resolve_left hnil).resolve_left (by omega))
  rw [herr]
  exact ⟨rfl, hneg⟩

/-- An open that returns a descriptor has a queue. -/
theorem mqOpen_pos (h : 0 ≤ (mqOpen k s n e o).2) :
    ∃ ino ds, (mqOpen k s n e o).1.dentries n = some ino :: ds := by
  unfold mqOpen at h ⊢
  split at h
  · exact absurd h (Int.not_le.2 neg_ENODEV)
  next hmnt =>
  rw [if_neg hmnt]
  split at h
  · next hget => exact absurd h (Int.not_le.2 (getname_neg hget))
  next hget =>
  rw [if_neg hget]
  split at h
  · next hfd => exact absurd h (Int.not_le.2 hfd)
  next hfd =>
  rw [if_neg hfd]
  rcases hlook : mqLookup k s n e with err | t
  · rw [hlook] at h
    exact absurd h (Int.not_le.2 (mqLookup_neg hlook))
  rw [hlook] at h
  dsimp only at h ⊢
  have hd := mqLookup_dentries hlook
  split at h
  · next herr =>
    have hneg := prepareOpen_nonpos (s := t) (n := n) (e := e) (o := o)
    dsimp only at h
    omega
  next herr =>
  rw [if_neg herr]
  obtain ⟨ino, ds, hino⟩ := prepareOpen_pos hd (not_not.1 herr)
  refine ⟨ino, ds, ?_⟩
  split
  · exact hino
  · exact hino

/-- Where nothing else is in the way the call returns its descriptor. -/
theorem mqOpen_quiet (hnil : n ≠ []) (hlen : n.length ≤ PATH_MAX) (hslash : SLASH ∉ n)
    (halloc : k.dAlloc = true) (he : e.Quiet) (ho : o.Creates) : (mqOpen k s n e o).2 = e.fd := by
  obtain ⟨t, ht⟩ := mqLookup_quiet (s := s) hslash halloc he
  have hopen := prepareOpen_quiet (mqLookup_dentries ht) he ho
  unfold mqOpen
  rw [he.mnt, getname_eq_zero.2 ⟨hnil, hlen⟩, ht, he.dentryOpen]
  simp [hopen, Int.not_lt.2 he.fd]

/-- The only queue of a name is unlinked. -/
theorem mqUnlink_quiet (hnil : n ≠ []) (hlen : n.length ≤ PATH_MAX) (hslash : SLASH ∉ n)
    (halloc : k.dAlloc = true) (hlookup : k.dLookup = true) (he : e.Quiet)
    (hino : s.dentries n = [some ino]) :
    (mqUnlink k s n e).2 = 0 ∧ (mqUnlink k s n e).1.queues n = [] := by
  have hlook : mqLookup k s n e = .ok s := by
    simp [mqLookup, hslash, halloc, hlookup, hino]
  unfold mqUnlink
  rw [he.mnt, getname_eq_zero.2 ⟨hnil, hlen⟩, hlook, he.ro, he.unlink]
  simp only [Bool.not_true, Bool.false_eq_true, if_false, ne_eq, not_true_eq_false, hino,
    Root.queues, set_dentries_self, true_and]
  cases e.busy <;> rfl

/-! ## The dentries in a run -/

/-- No name has two dentries. -/
def Single (s : Root) : Prop := ∀ n, (s.dentries n).length ≤ 1

theorem Single.set (h : Single s) {ds : List (Option ℕ)} (hds : ds.length ≤ 1) :
    Single (s.set n ds) := by
  intro m
  by_cases hm : m = n
  · rwa [hm, set_dentries_self]
  · rw [set_dentries_of_ne ds hm]
    exact h m

theorem Single.lookup (h : Single s) (hlookup : k.dLookup = true)
    (hlook : mqLookup k s n e = .ok t) : Single t := by
  rcases mqLookup_ok hlook with ⟨rfl, -, -⟩ | ⟨rfl, hnil⟩
  · exact h
  · exact h.set (by rw [hnil hlookup]; exact Nat.le_refl 1)

theorem Single.open (h : Single s) : Single (prepareOpen s n e o).1 := by
  unfold prepareOpen
  split
  · exact h
  · next ds hds =>
    split
    · exact h
    split
    · exact h
    split
    · exact h
    · have hlen := h n
      rw [hds] at hlen
      have hset : Single (s.set n (some s.nextIno :: ds)) := h.set hlen
      exact hset
  · split
    · exact h
    split
    · exact h
    · exact h

theorem Single.mqOpen (h : Single s) (hlookup : k.dLookup = true) :
    Single (mqOpen k s n e o).1 := by
  unfold Names.mqOpen
  split
  · exact h
  split
  · exact h
  split
  · exact h
  split
  · exact h
  · next t ht =>
    have hopen := (h.lookup hlookup ht).open (n := n) (e := e) (o := o)
    dsimp only
    split
    · exact hopen
    split
    · exact hopen
    · exact hopen

theorem Single.mqUnlink (h : Single s) (hlookup : k.dLookup = true) :
    Single (mqUnlink k s n e).1 := by
  unfold Names.mqUnlink
  split
  · exact h
  split
  · exact h
  split
  · exact h
  split
  · exact h
  · next t ht =>
    have hsingle := h.lookup hlookup ht
    split
    · next ino ds hds =>
      have hlen := hsingle n
      rw [hds, List.length_cons] at hlen
      split
      · exact hsingle
      · refine hsingle.set ?_
        split
        · omega
        · rwa [List.length_cons]
    · exact hsingle

theorem step_single {a : Act} (hlookup : k.dLookup = true) (h : Single s)
    (hs : step k s a = some t) : Single t := by
  cases a with
  | mqOpen n o e =>
    obtain rfl := Option.some.inj hs
    exact h.mqOpen hlookup
  | mqUnlink n e =>
    obtain rfl := Option.some.inj hs
    exact h.mqUnlink hlookup
  | shrink n =>
    obtain rfl := Option.some.inj hs
    exact h.set (Nat.le_trans (List.length_filter_le _ _) (h n))

theorem run_single (hlookup : k.dLookup = true) (h : Single s) (hrun : Machine.Run (step k) s t) :
    Single t :=
  hrun.inv h fun _ _ _ hi hs => step_single hlookup hi hs

theorem empty_single : Single Root.empty := fun _ => Nat.zero_le 1

theorem Reachable.single (h : Reachable k s) (hlookup : k.dLookup = true) : Single s :=
  run_single hlookup empty_single h

/-- With one dentry at most, a queue of the name is all there is. -/
theorem Single.of_mem (h : Single s) (hino : ino ∈ s.queues n) : s.dentries n = [some ino] := by
  have hlen := h n
  unfold Root.queues at hino
  rcases hds : s.dentries n with _ | ⟨d, ds⟩
  · rw [hds] at hino
    cases hino
  · rw [hds, List.length_cons] at hlen
    obtain rfl : ds = [] := List.length_eq_zero_iff.1 (by omega)
    rw [hds] at hino
    obtain ⟨d', hd', hsome⟩ := List.mem_filterMap.1 hino
    obtain rfl := List.mem_singleton.1 hd'
    exact congrArg (· :: []) hsome

/-! ## Names -/

theorem Component.fits (h : Component n) : n.length ≤ PATH_MAX :=
  Nat.le_trans h.short (by decide)

/-- A quiet call. -/
def quiet : Env := ⟨true, 3, 0, true, 0, 0, 0, 0, false⟩

theorem quiet_quiet : quiet.Quiet := ⟨rfl, by decide, rfl, rfl, rfl, rfl, rfl, rfl⟩

def creat : Oflag := ⟨true, false, 2⟩

theorem creat_creates : creat.Creates := ⟨rfl, rfl, by decide⟩

theorem judged_of_component (h : Component n) (halloc : k.dAlloc = true)
    (hlookup : k.dLookup = true) : Judged k n where
  accepted _ s _ e o he ho := by
    have hfd := mqOpen_quiet (s := s) h.nonempty h.fits h.noSlash halloc he ho
    have hpos : 0 ≤ (mqOpen k s n e o).2 := hfd ▸ he.fd
    obtain ⟨ino, ds, hino⟩ := mqOpen_pos hpos
    refine ⟨hpos, ?_⟩
    rw [Root.queues, hino]
    exact List.cons_ne_nil ino _
  refused hno := absurd h hno
  removed s hs e o hpos := by
    obtain ⟨ino, ds, hino⟩ := mqOpen_pos hpos
    refine ⟨ino, ?_, fun t ht hmem e' he' => ?_⟩
    · rw [Root.queues, hino]
      exact List.mem_cons_self
    · have hsingle := run_single hlookup ((hs.single hlookup).mqOpen hlookup) ht
      obtain ⟨hret, hgone⟩ := mqUnlink_quiet h.nonempty h.fits h.noSlash halloc hlookup he'
        (hsingle.of_mem hmem)
      rw [hgone]
      exact ⟨hret, List.not_mem_nil⟩

theorem judged_of_refused (hno : ¬Component n)
    (h : n = [] ∨ PATH_MAX < n.length ∨ SLASH ∈ n ∨ k.dAlloc = false) : Judged k n where
  accepted hcomp := absurd hcomp hno
  refused _ s _ e o := by
    obtain ⟨hopen, hneg⟩ := mqOpen_refused (s := s) (e := e) (o := o) h
    obtain ⟨hunlink, hneg'⟩ := mqUnlink_refused (s := s) (e := e) h
    rw [hopen, hunlink]
    exact ⟨hneg, fun _ => rfl, hneg', fun _ => rfl⟩
  removed s _ e o hpos := absurd hpos (Int.not_le.2 (mqOpen_refused h).2)

/-- Without `d_lookup` what was opened is not found. -/
theorem component_of_judged (h : Judged k n) (hcomp : Component n) :
    k.dAlloc = true ∧ k.dLookup = true := by
  obtain ⟨hpos, -⟩ := h.accepted hcomp Root.empty Relation.ReflTransGen.refl quiet creat
    quiet_quiet creat_creates
  have halloc : k.dAlloc = true := by
    by_contra hno
    have hneg := (mqOpen_refused (k := k) (s := Root.empty) (n := n) (e := quiet) (o := creat)
      (.inr (.inr (.inr (Bool.eq_false_iff.2 hno))))).2
    omega
  refine ⟨halloc, ?_⟩
  by_contra hno
  obtain ⟨ino, hino, hlater⟩ :=
    h.removed Root.empty Relation.ReflTransGen.refl quiet creat hpos
  have hret := (hlater _ Relation.ReflTransGen.refl hino quiet quiet_quiet).1
  generalize mqOpen k Root.empty n quiet creat = x at hret
  have hlook : mqLookup k x.1 n quiet = .ok (x.1.set n (none :: x.1.dentries n)) := by
    simp [mqLookup, hcomp.noSlash, halloc, Bool.eq_false_iff.2 hno, quiet]
  rw [mqUnlink, getname_eq_zero.2 ⟨hcomp.nonempty, hcomp.fits⟩, hlook] at hret
  simp [quiet, set_dentries_self] at hret
  cases hret

theorem refused_of_judged (h : Judged k n) (hno : ¬Component n) :
    n = [] ∨ PATH_MAX < n.length ∨ SLASH ∈ n ∨ k.dAlloc = false := by
  by_contra hacc
  simp only [not_or, Nat.not_lt, Bool.not_eq_false] at hacc
  obtain ⟨hnil, hlen, hslash, halloc⟩ := hacc
  have hfd := mqOpen_quiet (s := Root.empty) hnil hlen hslash halloc quiet_quiet creat_creates
  have hneg := (h.refused hno Root.empty Relation.ReflTransGen.refl quiet creat).1
  rw [hfd] at hneg
  cases hneg

/-- **The names.**  A name is judged rightly in every run if and only if it is a
    component and both symbols are found, or it is none and is empty, too long for
    a path, has a slash in it or meets a kernel without `d_alloc`. -/
theorem judged_iff (k : Helpers) (n : Name) : Judged k n ↔ Settled k n := by
  constructor
  · intro h
    by_cases hcomp : Component n
    · exact .inl ⟨hcomp, component_of_judged h hcomp⟩
    · exact .inr ⟨hcomp, refused_of_judged h hcomp⟩
  · rintro (⟨hcomp, halloc, hlookup⟩ | ⟨hno, h⟩)
    · exact judged_of_component hcomp halloc hlookup
    · exact judged_of_refused hno h

/-- A queue called `.` is made. -/
theorem dot_opened : ¬Judged ⟨true, true⟩ [DOT] := by
  intro h
  have hneg := (h.refused (fun hcomp => hcomp.notDot rfl) Root.empty Relation.ReflTransGen.refl
    quiet creat).1
  exact absurd hneg (by decide)

end DroidLkm.Mq.Names
