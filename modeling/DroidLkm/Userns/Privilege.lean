/-
  User namespaces of the module — what the tasks in them may do.

  * `mapDown`, `mapOk`, `inodecapWrap`: as in `userns_map.c` and `userns_hooks.c`;
  * `CapCapable`: the kernel's own check, of which it is used that it grants nothing above
    the caller's namespace and nothing beside it;
  * `inodecapWrap_iff`: what the hook grants, in every state that is reached;
  * `granted_below`: a task and those that it makes are granted nothing above or beside the
    namespace that it was in.
-/
import DroidLkm.Userns.Descent

namespace DroidLkm.Userns

open Machine Ancestry

/-! ## Inodes -/

/-- `droid_lkm_userns_map_down` -/
def UserNamespace.mapDown (u : UserNamespace) (id : Id) : Id := mapIdRangeDown u.uidMap id 1

/-- `droid_lkm_userns_map_ok` -/
def UserNamespace.mapOk (u : UserNamespace) (id : Id) : Bool := u.mapDown id != UNMAPPED

/-- `struct inode` -/
structure Inode where
  uid : Id
  gid : Id

/-- `droid_lkm_userns_inodecap_wrap`, where the kernel's function has said `orig`; `nop` is
    `nop_mnt_idmap`, if it has been found. -/
def State.inodecapWrap (s : State) (t : ℕ) (orig : Bool) (nop : Option ℕ) (idmap : ℕ)
    (inode : Inode) (cap : ℕ) : Bool :=
  if orig then true
  else if nop.any (idmap != ·) then false
  else match s.usernsOf t with
  | none => false
  | some u =>
    match s.heap u, s.cred t with
    | some uns, some cur =>
      if cap ∉ cur.capEffective then false else uns.mapOk inode.uid && uns.mapOk inode.gid
    | _, _ => false

namespace State

variable {s s' : State} {t q u : ℕ} {c c₀ c' : Cred} {ns : UserNs} {orig : Bool} {nop : Option ℕ}
  {idmap cap : ℕ} {inode : Inode}

/-- In the maps of the module there is every id but the one that stands for none. -/
theorem Inv.mapOk_iff (h : s.Inv) {uns : UserNamespace} (hu : s.heap u = some uns) (id : Id) :
    uns.mapOk id = true ↔ id ≠ UNMAPPED := by
  rw [UserNamespace.mapOk, UserNamespace.mapDown, (h.object u uns hu).maps.1, down_identity]
  exact bne_iff_ne

/-- **Inodes.**  Besides what the kernel grants, the hook grants a task in one of the
    module's namespaces each capability that it has, on every mount without an id map of its
    own, unless an id of the inode is the one that stands for none. -/
theorem inodecapWrap_iff (hc : c.userNs = .init) (h : Run step (Userns.init c) s) :
    s.inodecapWrap t orig nop idmap inode cap = true ↔ orig = true ∨
      (∀ n ∈ nop, idmap = n) ∧
        (∃ cur, s.cred t = some cur ∧ cur.userNs ≠ .init ∧ cap ∈ cur.capEffective) ∧
        inode.uid ≠ UNMAPPED ∧ inode.gid ≠ UNMAPPED := by
  have hi := run_inv hc h
  have hany : nop.any (idmap != ·) = true ↔ ¬∀ n ∈ nop, idmap = n := by
    cases nop <;> simp
  unfold inodecapWrap
  split
  · next ho => simp [ho]
  next ho =>
  split
  · next hn =>
    refine iff_of_false Bool.false_ne_true ?_
    rintro (ho' | ⟨hnop, -⟩)
    · exact ho ho'
    · exact hany.1 hn hnop
  next hn =>
  have hnop : ∀ n ∈ nop, idmap = n := by
    by_contra hno
    exact hn (hany.2 hno)
  split
  · next hnone =>
    -- credentials that are not in the initial namespace are in one that is found
    refine iff_of_false Bool.false_ne_true ?_
    rintro (ho' | ⟨-, ⟨cur, hcur, hne, -⟩, -⟩)
    · exact ho ho'
    cases hns : cur.userNs with
    | init => exact hne hns
    | fake v =>
      rw [hi.usernsOf_iff.2 ⟨cur, hcur, hns⟩] at hnone
      cases hnone
  next u hu =>
  obtain ⟨hlist, cur, hcur, hns⟩ := usernsOf_some hu
  obtain ⟨uns, huns⟩ := Option.isSome_iff_exists.1 ((hi.heap u).1 hlist)
  have hfake : cur.userNs ≠ .init := by simp [hns]
  by_cases hcap : cap ∈ cur.capEffective
  · simp only [huns, hcur, hcap, not_true_eq_false, if_false, Bool.and_eq_true,
      hi.mapOk_iff huns]
    constructor
    · exact fun hid => .inr ⟨hnop, ⟨cur, rfl, hfake, hcap⟩, hid⟩
    · exact fun h => (h.resolve_left ho).2.2
  · simp only [huns, hcur, hcap, not_false_eq_true, if_true]
    refine iff_of_false Bool.false_ne_true ?_
    rintro (ho' | ⟨-, ⟨cur', heq, -, hcap'⟩, -⟩)
    · exact ho ho'
    · cases heq
      exact hcap hcap'

end State

/-! ## Capabilities -/

/-- `cap_capable` of the kernel, which answers for a namespace by going up from it: it comes
    to that of the credentials, or to the level of it, where it refuses. -/
structure CapCapable where
  grants : State → Cred → UserNs → ℕ → Bool
  below : ∀ s c ns cap, grants s c ns cap = true → Below s.parentOf .init c.userNs ns

namespace State

variable {s s' : State} {t q cap : ℕ} {c c₀ c' : Cred} {ns : UserNs}

/-- **No way out.**  Whatever a task and those that it has made since are granted is for a
    namespace that is the one the task was in, or below it; so none of them is granted
    anything for the initial namespace, if the task was not in it. -/
theorem granted_below (k : CapCapable) (hc : c.userNs = .init) (h₀ : Run step (Userns.init c) s)
    (h : Run step s s') (ht : s.cred t = some c₀) (hq : Family s s' t q)
    (hc' : s'.cred q = some c') (hg : k.grants s' c' ns cap = true) :
    Below s'.parentOf .init c₀.userNs ns ∧ (c₀.userNs ≠ .init → ns ≠ .init) := by
  have hbelow := ((contained hc h₀ h ht).below q c' hq hc').trans (k.below s' c' ns cap hg)
  refine ⟨hbelow, fun hne hns => ?_⟩
  rw [hns] at hbelow
  exact hne (below_root_iff.1 hbelow)

end State

/-- What is raised, in the caller's own namespace and nowhere else. -/
def ownOnly : CapCapable where
  grants _ c ns cap := decide (ns = c.userNs) && decide (cap ∈ c.capEffective)
  below s c ns cap h := by
    simp only [Bool.and_eq_true, decide_eq_true_eq] at h
    rw [h.1]
    exact .refl

/-- The child of root in a container is granted something in its own namespace. -/
theorem granted_below_clone : ∃ s : State, s.usernsOf 1 = some 128 ∧
    Below s.parentOf .init (.fake 64) (.fake 128) := by
  have hroot : down.cred 0 = some (installCred root 64) := rfl
  have hown : ownOnly.grants child (installCred (installCred root 64) 128) (.fake 128)
      CAP_SYS_ADMIN = true := rfl
  exact ⟨child, rfl, (State.granted_below (t := 0) (q := 1) ownOnly rfl down_reached child_reached
    hroot (.child (Nat.le_refl 1) .self) rfl hown).1⟩

/-- Root in the container has its capabilities over an inode. -/
theorem inodecapWrap_down :
    down.inodecapWrap 0 false (some 1) 1 ⟨1000, 1000⟩ CAP_SYS_ADMIN = true := by
  have hcur : ∃ cur, down.cred 0 = some cur ∧ cur.userNs ≠ .init ∧
      CAP_SYS_ADMIN ∈ cur.capEffective :=
    ⟨installCred root 64, rfl, by decide, by decide⟩
  exact (State.inodecapWrap_iff rfl down_reached).2
    (.inr ⟨by simp, hcur, by decide, by decide⟩)

end DroidLkm.Userns
