/-
  Layouts read from the type info of the running kernel.

  An ipc namespace that the module has made is used in two ways: the SysV code
  accesses its members as compiled, the sysctls through the layout.

  * `Serves`: the two ways lead to the same bytes, inside of the object;
  * `Refuses`: a member that the running kernel has elsewhere is refused;
  * `layout_agrees`: both hold if and only if nothing is elsewhere; the state
    that is there for a difference is never set (`layoutInit_ne_differs`).
-/
import DroidLkm.Layout.Fields
import Mathlib.Tactic.ByContra

namespace DroidLkm.Layout

variable {b : Build} {ti : Ti} {anchor : CompatLayout → CompatLayout} {l : CompatLayout}
  {f : FieldId} {base p bit : ℕ} {ready registered : Bool}

/-! ## Sysctls of a namespace -/

/-- The members that the sysctls of ipc use. -/
def ipcSysctlFields : List FieldId :=
  [.ipcNsIpcSet, .ipcNsIpcSysctls, .ipcNsUserNs, .ipcNsShmCtlmax, .ipcNsShmCtlall,
    .ipcNsShmCtlmni, .ipcNsShmRmidForced, .ipcNsMsgCtlmax, .ipcNsMsgCtlmni, .ipcNsMsgCtlmnb,
    .ipcNsSemCtls]

/-- `droid_lkm_ipc_sysctl_fields_ok` -/
def CompatLayout.ipcSysctlFieldsOk (l : CompatLayout) (b : Build) : Bool :=
  ipcSysctlFields.all (l.layoutOk b)

/-- `droid_lkm_ipc_sysctls_ok() && droid_lkm_ipc_sysctls_setup(ns)`, where
    `registered` says whether the table could be copied and registered. -/
def CompatLayout.ipcSysctlsSetup (l : CompatLayout) (b : Build) (ready registered : Bool) : Bool :=
  ready && if b.PerNs then l.ipcSysctlFieldsOk b && registered else true

theorem type_of_mem (h : f ∈ ipcSysctlFields) : f.type = .ipcNamespace := by
  simp only [ipcSysctlFields, List.mem_cons, List.not_mem_nil, or_false] at h
  rcases h with rfl | rfl | rfl | rfl | rfl | rfl | rfl | rfl | rfl | rfl | rfl <;> rfl

/-- What is reached through the layout is the member as compiled, in the object
    at `base` of the size as compiled. -/
def Serves (l : CompatLayout) (b : Build) (base : ℕ) : Prop :=
  ∀ f ∈ ipcSysctlFields, ∀ p, l.layoutPtr b base f = some p →
    p = base + b.offsetof f ∧ p + b.fieldSize f ≤ base + b.sizeofIpcNs

/-- A member that the running kernel has elsewhere is refused. -/
def Refuses (l : CompatLayout) (b : Build) (ti : Ti) : Prop :=
  ∀ f, b.Has f → ti.hasType f.type = true → ∀ bit, ti.memberOff f = some bit →
    bit / 8 ≠ b.offsetof f → l.layoutOk b f = false

/-- The running kernel has its members where the build does, as far as the type
    info says; one that does not start says nothing. -/
def Agrees (ti : Ti) (b : Build) : Prop :=
  ti.started = true → ∀ f, b.Has f → ti.hasType f.type = true → ∀ bit,
    ti.memberOff f = some bit → bit / 8 = b.offsetof f

/-! ## The layout that is read -/

/-- A member that is found is used where it was found. -/
theorem Ti.field_found (ht : ti.hasType f.type = true) (hm : ti.memberOff f = some bit) :
    ti.field f = ⟨bit / 8, .ok⟩ := by
  rw [Ti.field, ht, hm]
  rfl

/-- And it is found, or refused. -/
theorem Ti.field_ok (h : stateOk (ti.field f).state = true) :
    ∃ bit, ti.hasType f.type = true ∧ ti.memberOff f = some bit ∧ (ti.field f).live = bit / 8 := by
  unfold Ti.field at h ⊢
  split
  · next ht =>
    rw [if_pos ht] at h
    cases h
  · next ht =>
    rw [if_neg ht] at h
    cases hm : ti.memberOff f with
    | none =>
      rw [hm] at h
      cases h
    | some bit => exact ⟨bit, by simpa using ht, rfl, rfl⟩

theorem Ti.field_ne_differs (ti : Ti) (f : FieldId) : (ti.field f).state ≠ .differs := by
  unfold Ti.field
  split
  · simp
  · split <;> simp

/-- No answer makes a difference be seen. -/
theorem layoutInit_ne_differs (ha : ti.available = true) (f : FieldId) :
    ((ti.layoutInit anchor).fields f).state ≠ .differs := by
  unfold Ti.layoutInit
  split
  · simp [layoutUnverified]
  · rw [if_neg (by simp [ha])]
    exact ti.field_ne_differs f

theorem layoutInit_started (hs : ti.started = true) (ha : ti.available = true) :
    ti.layoutInit anchor = ⟨ti.field, ti.type⟩ := by
  simp [Ti.layoutInit, hs, ha]

/-- What is usable was found. -/
theorem layoutOk_found (ha : ti.available = true)
    (h : (ti.layoutInit anchor).layoutOk b f = true) : ti.started = true ∧ b.Has f ∧
      ∃ bit, ti.hasType f.type = true ∧ ti.memberOff f = some bit ∧
        (ti.layoutInit anchor).layoutOff b f = bit / 8 := by
  unfold CompatLayout.layoutOk at h
  rw [Bool.and_eq_true, decide_eq_true_eq] at h
  obtain ⟨hhas, hok⟩ := h
  have hs : ti.started = true := by
    by_contra hs
    rw [Bool.not_eq_true] at hs
    simp [Ti.layoutInit, hs, layoutUnverified, stateOk] at hok
  rw [layoutInit_started hs ha] at hok
  obtain ⟨bit, ht, hm, hlive⟩ := Ti.field_ok hok
  refine ⟨hs, hhas, bit, ht, hm, ?_⟩
  rw [CompatLayout.layoutOff, if_pos hhas, layoutInit_started hs ha]
  exact hlive

theorem layoutPtr_eq (h : l.layoutPtr b base f = some p) :
    l.layoutOk b f = true ∧ p = base + l.layoutOff b f := by
  unfold CompatLayout.layoutPtr at h
  split at h
  · cases h
  · next hne =>
    rw [not_or, Bool.not_eq_false] at hne
    exact ⟨hne.2, (Option.some.inj h).symm⟩

/-- Where the kernels agree the two ways do. -/
theorem Agrees.serves (h : Agrees ti b) (ha : ti.available = true) (base : ℕ) :
    Serves (ti.layoutInit anchor) b base := by
  intro f hf p hp
  obtain ⟨hok, rfl⟩ := layoutPtr_eq hp
  obtain ⟨hs, hhas, bit, ht, hm, hoff⟩ := layoutOk_found ha hok
  rw [hoff, h hs f hhas ht bit hm]
  have hin := b.inside f (type_of_mem hf)
  exact ⟨rfl, by omega⟩

/-- A member elsewhere is usable. -/
theorem layoutOk_of_found (hs : ti.started = true) (ha : ti.available = true) (hhas : b.Has f)
    (ht : ti.hasType f.type = true) (hm : ti.memberOff f = some bit) :
    (ti.layoutInit anchor).layoutOk b f = true := by
  rw [layoutInit_started hs ha]
  simp [CompatLayout.layoutOk, Ti.field_found ht hm, hhas, stateOk]

/-- **The layout is right if and only if the kernels agree**: then the sysctls of
    a trusted layout reach the members as compiled, and else what differs is
    used. -/
theorem layout_agrees (b : Build) (ti : Ti) (anchor : CompatLayout → CompatLayout)
    (ready registered : Bool) (base : ℕ) (ha : ti.available = true) :
    (((droidLayoutInit ti anchor).trusted = true →
        (droidLayoutInit ti anchor).layout.ipcSysctlsSetup b ready registered = true →
          Serves (droidLayoutInit ti anchor).layout b base) ∧
      Refuses (droidLayoutInit ti anchor).layout b ti) ↔ Agrees ti b := by
  constructor
  · rintro ⟨-, hrefuse⟩ hs f hhas ht bit hm
    by_contra hne
    have hbad := hrefuse f hhas ht bit hm hne
    have hok : (droidLayoutInit ti anchor).layout.layoutOk b f = true :=
      layoutOk_of_found hs ha hhas ht hm
    exact Bool.false_ne_true (hbad.symm.trans hok)
  · intro h
    refine ⟨fun _ _ => h.serves ha base, ?_⟩
    intro f hhas ht bit hm hne
    rw [← Bool.not_eq_true]
    intro hok
    obtain ⟨hs, -⟩ := layoutOk_found ha hok
    exact hne (h hs f hhas ht bit hm)

/-- A build for 6.6 with the members one after another, in the order of the table. -/
def inRow : Build where
  versionCode := KERNEL_VERSION 6 6 0
  offsetof f := 16 * f.ctorIdx
  fieldSize _ := 16
  sizeof _ := 16
  sizeofIpcNs := 960
  sizeofIdr := 24
  sizeofNsCommon := 24
  offsetofInum := 16
  inside f _ := by cases f <;> decide
  idr_pos := by decide
  ns_pointers := by decide
  inum_inside := by decide

/-- A kernel with the members where that build has them, but for one. -/
def moved (f : Option FieldId) : Ti where
  started := true
  available := true
  hasType _ := true
  memberOff g := some (if f = some g then 8 * (inRow.offsetof g + 4) else 8 * inRow.offsetof g)
  typeSize _ := 16

/-- With `sem_ctls` moved the layout is trusted and the sysctls are set up, on
    other bytes. -/
theorem layout_disagrees : ¬∀ (b : Build) (ti : Ti) (anchor : CompatLayout → CompatLayout)
    (ready registered : Bool) (base : ℕ), ti.available = true →
      ((droidLayoutInit ti anchor).trusted = true →
        (droidLayoutInit ti anchor).layout.ipcSysctlsSetup b ready registered = true →
          Serves (droidLayoutInit ti anchor).layout b base) ∧
      Refuses (droidLayoutInit ti anchor).layout b ti := by
  intro h
  have hserves := (h inRow (moved (some .ipcNsSemCtls)) id true true 64 rfl).1 (by decide) (by decide)
  have hsem := (hserves .ipcNsSemCtls (by decide) 836 (by decide)).1
  revert hsem
  decide

/-- With nothing moved they reach the same bytes. -/
theorem layout_agrees_inRow :
    (droidLayoutInit (moved none) id).trusted = true ∧
      Serves (droidLayoutInit (moved none) id).layout inRow 64 ∧
        Refuses (droidLayoutInit (moved none) id).layout inRow (moved none) := by
  have hagree : Agrees (moved none) inRow := by
    intro _ f _ _ bit hbit
    cases hbit
    exact Nat.mul_div_cancel_left _ (by decide)
  have h := (layout_agrees inRow (moved none) id true true 64 rfl).2 hagree
  exact ⟨by decide, h.1 (by decide) (by decide), h.2⟩

end DroidLkm.Layout
