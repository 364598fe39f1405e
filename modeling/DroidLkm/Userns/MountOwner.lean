/-
  The owner of a mount namespace.

  `struct mnt_namespace` is private to the kernel, so where its owner lies is found out by
  trying: a word that holds the initial namespace is overwritten, and put back unless the
  kernel's own accessor then gives the new owner.

  * `mntTry`, `mntOwn`, `session`: as in `userns_owner.c`, the last over one namespace
    after another, with the offset that is found `kept` for the next;
  * `own`: what a module that knew the field would do;
  * `mntOwn_eq`: one call does that, and nothing else, whatever is in the object;
  * `session_eq`: so do all of them.
-/
import DroidLkm.Errno
import Mathlib.Data.List.Range
import Mathlib.Logic.Function.Basic

namespace DroidLkm.Userns

/-! ## The functions -/

def ENOTSUPP : ℤ := 524

def DROID_LKM_USERNS_MNT_SCAN : ℕ := 128

/-- `struct mnt_namespace`: `ns.ops`, and its aligned words by their offsets; `none` is a word
    that cannot be read. -/
structure MntNs where
  ops : ℕ
  mem : ℕ → Option ℕ

/-- The kernel: `mntns_operations`, `init_user_ns`, where the owner really is, and the size
    of `struct ns_common`. -/
structure Kernel where
  mntOps : ℕ
  initUns : ℕ
  field : ℕ
  sizeofNs : ℕ
  pos : 0 < sizeofNs

def MntNs.write (ns : MntNs) (off val : ℕ) : MntNs :=
  { ns with mem := Function.update ns.mem off (some val) }

variable (K : Kernel)

/-- `mntns_owner` -/
def Kernel.owner (ns : MntNs) : Option ℕ := ns.mem K.field

/-- `droid_lkm_userns_mnt_try` -/
def mntTry (ns : MntNs) (off want : ℕ) : MntNs × ℤ :=
  match ns.mem off with
  | none => (ns, -EFAULT)
  | some old =>
    if old ≠ K.initUns then (ns, -ENOENT)
    else
      let ns := ns.write off want
      if K.owner ns = some want then (ns, 0) else (ns.write off old, -EINVAL)

/-- The offsets of the loop in `droid_lkm_userns_mnt_own`. -/
def Kernel.offsets : List ℕ :=
  List.range' K.sizeofNs ((DROID_LKM_USERNS_MNT_SCAN + 8 - K.sizeofNs) / 8) 8

/-- The loop: the namespace, and the offset where it stops. -/
def mntScan (want : ℕ) : MntNs → List ℕ → MntNs × Option ℕ
  | ns, [] => (ns, none)
  | ns, off :: offs =>
    match mntTry K ns off want with
    | (ns, ret) => if ret ≠ 0 then mntScan want ns offs else (ns, some off)

/-- `droid_lkm_userns_mnt_own`; `mntOff` is `droid_lkm_userns_mnt_off`, before and after. -/
def mntOwn (mntOff : ℕ) (ns : MntNs) (want : ℕ) : ℕ × MntNs × ℤ :=
  if ns.ops ≠ K.mntOps then (mntOff, ns, -EINVAL)
  else if K.owner ns = some want then (mntOff, ns, 0)
  else if mntOff ≠ 0 then (mntOff, mntTry K ns mntOff want)
  else match mntScan K want ns K.offsets with
    | (ns, some off) => (off, ns, 0)
    | (ns, none) => (mntOff, ns, -ENOTSUPP)

/-- The namespaces that `droid_lkm_userns_copymntns_wrap` hands over, one after another. -/
def session : ℕ → List (MntNs × ℕ) → List (MntNs × ℤ)
  | _, [] => []
  | mntOff, (ns, want) :: calls =>
    let r := mntOwn K mntOff ns want
    r.2 :: session r.1 calls

/-- `droid_lkm_userns_mnt_off` after each of them. -/
def kept : ℕ → List (MntNs × ℕ) → List ℕ
  | _, [] => []
  | mntOff, (ns, want) :: calls =>
    let r := mntOwn K mntOff ns want
    r.1 :: kept r.1 calls

/-! ## One word -/

/-- With the field known: the owner is replaced where it is the initial one and the field
    can be found; whether it is the one that is wanted then. -/
def own (ns : MntNs) (want : ℕ) : MntNs × Bool :=
  if ns.ops ≠ K.mntOps then (ns, false)
  else if K.owner ns = some want then (ns, true)
  else if K.owner ns = some K.initUns ∧ K.field ∈ K.offsets then (ns.write K.field want, true)
  else (ns, false)

variable {K} {ns : MntNs} {off want mntOff : ℕ} {offs : List ℕ}

/-- A try at another word leaves everything as it was. -/
theorem mntTry_other (hne : off ≠ K.field) (how : K.owner ns ≠ some want) :
    (mntTry K ns off want).1 = ns ∧ (mntTry K ns off want).2 ≠ 0 := by
  unfold mntTry
  split
  · exact ⟨rfl, by simp [EFAULT]⟩
  next old hold =>
  split
  · exact ⟨rfl, by simp [ENOENT]⟩
  have hkeep : K.owner (ns.write off want) = K.owner ns :=
    Function.update_of_ne (Ne.symm hne) _ _
  rw [if_neg (by rw [hkeep]; exact how)]
  refine ⟨?_, by simp [EINVAL]⟩
  obtain ⟨ops, mem⟩ := ns
  simp only [MntNs.write, Function.update_idem, MntNs.mk.injEq, true_and]
  exact Function.update_eq_self_iff.2 hold.symm

theorem mntTry_field (K : Kernel) (ns : MntNs) (want : ℕ) :
    (K.owner ns = some K.initUns ∧ mntTry K ns K.field want = (ns.write K.field want, 0)) ∨
      K.owner ns ≠ some K.initUns ∧ (mntTry K ns K.field want).1 = ns ∧
        (mntTry K ns K.field want).2 ≠ 0 := by
  unfold mntTry
  cases hold : ns.mem K.field with
  | none => exact .inr ⟨by simp [Kernel.owner, hold], rfl, by simp [EFAULT]⟩
  | some old =>
    by_cases hinit : old = K.initUns
    · have hnew : K.owner (ns.write K.field want) = some want := Function.update_self ..
      exact .inl ⟨by simp [Kernel.owner, hold, hinit], by simp [hinit, hnew]⟩
    · exact .inr ⟨by simp [Kernel.owner, hold, hinit], by simp [hinit, ENOENT]⟩

theorem mntScan_cons : mntScan K want ns (off :: offs) =
    if (mntTry K ns off want).2 ≠ 0 then mntScan K want (mntTry K ns off want).1 offs
    else ((mntTry K ns off want).1, some off) := rfl

/-- The loop stops at the field or not at all. -/
theorem mntScan_eq (how : K.owner ns ≠ some want) :
    mntScan K want ns offs =
      if K.owner ns = some K.initUns ∧ K.field ∈ offs then (ns.write K.field want, some K.field)
      else (ns, none) := by
  induction offs with
  | nil => simp [mntScan]
  | cons off offs ih =>
    by_cases hoff : off = K.field
    · subst hoff
      rcases mntTry_field K ns want with ⟨hinit, htry⟩ | ⟨hinit, hsame, hret⟩
      · simp [mntScan_cons, htry, hinit]
      · rw [mntScan_cons, if_pos hret, hsame, ih]
        simp [hinit]
    · obtain ⟨hsame, hret⟩ := mntTry_other hoff how
      rw [mntScan_cons, if_pos hret, hsame, ih]
      simp [Ne.symm hoff]

/-! ## All of it -/

theorem field_pos (h : K.field ∈ K.offsets) : K.field ≠ 0 := by
  obtain ⟨i, -, hi⟩ := List.mem_range'.1 h
  have := K.pos
  omega

/-- The offset that is kept is that of the field, once there is one. -/
def Found (K : Kernel) (mntOff : ℕ) : Prop :=
  mntOff = 0 ∨ mntOff = K.field ∧ K.field ∈ K.offsets

/-- **One call.**  It sets the field or leaves everything as it was. -/
theorem mntOwn_eq (h : Found K mntOff) (ns : MntNs) (want : ℕ) :
    Found K (mntOwn K mntOff ns want).1 ∧
      ((mntOwn K mntOff ns want).2.1, decide ((mntOwn K mntOff ns want).2.2 = 0)) =
        own K ns want := by
  unfold mntOwn own
  split
  · exact ⟨h, by simp [EINVAL]⟩
  split
  · exact ⟨h, by simp⟩
  next how =>
  rcases h with rfl | ⟨rfl, hmem⟩
  · rw [if_neg (by simp), mntScan_eq how]
    by_cases hinit : K.owner ns = some K.initUns ∧ K.field ∈ K.offsets
    · rw [if_pos hinit]
      exact ⟨.inr ⟨rfl, hinit.2⟩, by simp [hinit]⟩
    · rw [if_neg hinit]
      exact ⟨.inl rfl, by simp [ENOTSUPP, hinit]⟩
  · rw [if_pos (field_pos hmem)]
    refine ⟨.inr ⟨rfl, hmem⟩, ?_⟩
    rcases mntTry_field K ns want with ⟨hinit, htry⟩ | ⟨hinit, hsame, hret⟩
    · simp [htry, hinit, hmem]
    · simp [hsame, hret, hinit]

/-- **The owner is found by trying.**  Over any namespaces one after another, with anything
    in them, each gets what it would get if the field was known, and the offset that is
    kept is that of the field. -/
theorem session_eq (K : Kernel) (calls : List (MntNs × ℕ)) :
    (session K 0 calls).map (fun r => (r.1, decide (r.2 = 0))) =
        (calls.map fun c => own K c.1 c.2) ∧
      ∀ off ∈ kept K 0 calls, off = 0 ∨ off = K.field ∧ K.field ∈ K.offsets := by
  have hgen : ∀ mntOff, Found K mntOff →
      (session K mntOff calls).map (fun r => (r.1, decide (r.2 = 0))) =
          (calls.map fun c => own K c.1 c.2) ∧
        ∀ off ∈ kept K mntOff calls, Found K off := by
    induction calls with
    | nil => exact fun _ _ => ⟨rfl, fun _ h => absurd h List.not_mem_nil⟩
    | cons c calls ih =>
      intro mntOff h
      obtain ⟨hfound, hown⟩ := mntOwn_eq h c.1 c.2
      obtain ⟨hcalls, hkept⟩ := ih _ hfound
      exact ⟨by rw [session, List.map_cons, List.map_cons, hcalls, ← hown],
        List.forall_mem_cons.2 ⟨hfound, hkept⟩⟩
  exact hgen 0 (.inl rfl)

end DroidLkm.Userns
