/-
  SysV shared memory — `shmdt`.

  * `Mm`: an address space, its mappings in the order of their addresses;
  * `findAttach`, `detachLoop`, `ksysShmdt`: the two loops of `ksys_shmdt`, with
    the lock of the address space held, and whether a mapping is read after it
    has been freed;
  * `Detaches`: what is asked of a `shmdt`; `shmdt_detaches` says when it does so;
  * `shmdt_unmaps`: what it unmaps if the freed mapping reads as before.
-/
import Mathlib.Algebra.Order.Ring.Nat
import Mathlib.Data.Int.Notation
import Mathlib.Data.List.Basic
import Mathlib.Tactic.ByContra
import DroidLkm.Errno

namespace DroidLkm.Shm.Detach

/-! ## Address spaces -/

/-- `struct vm_area_struct`; `shm` is `vm_ops == &shm_vm_ops`. -/
structure Vma where
  vmStart : ℕ
  vmEnd : ℕ
  shm : Bool
  vmPgoff : ℕ
  vmFile : ℕ
  deriving DecidableEq

/-- `struct mm_struct` -/
structure Mm where
  vmas : List Vma
  nonempty : ∀ v ∈ vmas, v.vmStart < v.vmEnd
  below : ∀ v ∈ vmas, v.vmEnd < 2 ^ 64
  sorted : vmas.Pairwise fun v w => v.vmEnd ≤ w.vmStart

namespace Mm

variable {mm : Mm} {v w : Vma} {x : ℕ}

/-- `find_vma` -/
def findVma (mm : Mm) (x : ℕ) : Option Vma := mm.vmas.find? fun v => x < v.vmEnd

/-- `droid_lkm_munmap_locked` of a range that cuts no mapping in two. -/
def munmap (mm : Mm) (start vend : ℕ) : Mm where
  vmas := mm.vmas.filter fun v => v.vmEnd ≤ start || vend ≤ v.vmStart
  nonempty v hv := mm.nonempty v (List.mem_filter.1 hv).1
  below v hv := mm.below v (List.mem_filter.1 hv).1
  sorted := mm.sorted.filter _

/-- What the mappings that end after `x` are. -/
def above (mm : Mm) (x : ℕ) : List Vma := mm.vmas.filter fun v => x < v.vmEnd

/-- `vma->vm_end`, and whether the mapping has been freed: then `junk` is read. -/
def readEnd (mm : Mm) (junk : Vma → ℕ) (v : Vma) : ℕ × Bool :=
  if v ∈ mm.vmas then (v.vmEnd, false) else (junk v, true)

/-- The mapping found has those up to `x` before it and the others after it. -/
theorem findVma_split (h : mm.findVma x = some v) : ∃ l r, mm.vmas = l ++ v :: r ∧
    x < v.vmEnd ∧ (∀ w ∈ l, w.vmEnd ≤ x ∧ w.vmEnd ≤ v.vmStart) ∧
      ∀ w ∈ r, v.vmEnd ≤ w.vmStart ∧ v.vmEnd < w.vmEnd := by
  obtain ⟨hx, l, r, hlr, hl⟩ := List.find?_eq_some_iff_append.1 h
  have hsorted := mm.sorted
  rw [hlr, List.pairwise_append] at hsorted
  obtain ⟨-, hright, hcross⟩ := hsorted
  refine ⟨l, r, hlr, by simpa using hx, fun w hw => ⟨by simpa using hl w hw, ?_⟩,
    fun w hw => ?_⟩
  · exact hcross w hw v List.mem_cons_self
  · have hle := (List.pairwise_cons.1 hright).1 w hw
    have hlt := mm.nonempty w (by rw [hlr]; simp [hw])
    exact ⟨hle, by omega⟩

/-- The search goes on above the mapping that was found. -/
theorem above_lt (h : mm.findVma x = some v) :
    (mm.above v.vmEnd).length < (mm.above x).length := by
  obtain ⟨l, r, hlr, hx, hl, hr⟩ := findVma_split h
  have hbelow : ∀ y, v.vmStart ≤ y ∨ x ≤ y → l.filter (fun w => y < w.vmEnd) = [] := by
    intro y hy
    refine List.filter_eq_nil_iff.2 fun w hw => ?_
    have := hl w hw
    rw [decide_eq_true_eq]
    omega
  have hle : (r.filter fun w => v.vmEnd < w.vmEnd).length ≤
      (r.filter fun w => x < w.vmEnd).length := by
    refine (List.monotone_filter_right r fun w hw => ?_).length_le
    rw [decide_eq_true_eq] at hw ⊢
    omega
  have hstart := mm.nonempty v (by rw [hlr]; simp)
  unfold above
  rw [hlr, List.filter_append, List.filter_append, hbelow _ (.inl (by omega)),
    hbelow _ (.inr (Nat.le_refl x)), List.nil_append, List.nil_append,
    List.filter_cons_of_neg (by simp), List.filter_cons_of_pos (by simpa using hx),
    List.length_cons]
  omega

/-- Nothing but the mapping goes. -/
theorem munmap_split {l r : List Vma} (hlr : mm.vmas = l ++ v :: r)
    (hl : ∀ w ∈ l, w.vmEnd ≤ v.vmStart) (hr : ∀ w ∈ r, v.vmEnd ≤ w.vmStart) :
    (mm.munmap v.vmStart v.vmEnd).vmas = l ++ r := by
  have hv := mm.nonempty v (by rw [hlr]; simp)
  unfold munmap
  dsimp only
  rw [hlr, List.filter_append, List.filter_cons_of_neg (by simp; omega),
    List.filter_eq_self.2 fun w hw => by simp [hl w hw],
    List.filter_eq_self.2 fun w hw => by simp [hr w hw]]

end Mm

/-! ## The system call -/

variable {P addr x : ℕ} {size : ℤ} {file : ℕ} {isize : ℕ → ℕ} {junk : Vma → ℕ} {mm : Mm}
  {v f : Vma}

/-- `PAGE_ALIGN` -/
def pageAlign (P size : ℕ) : ℕ := (size + (P - 1)) / P * P

/-- The test of both loops, in the arithmetic of `unsigned long`. -/
def attachedAt (P addr : ℕ) (v : Vma) : Bool :=
  v.shm && ((v.vmStart + (2 ^ 64 - addr)) % 2 ^ 64 / P == v.vmPgoff)

/-- The first loop, at `vma = find_vma(mm, x)`. -/
def findAttach (P addr : ℕ) (mm : Mm) (x : ℕ) : Option Vma :=
  match _h : mm.findVma x with
  | none => none
  | some vma => if attachedAt P addr vma then some vma else findAttach P addr mm vma.vmEnd
termination_by (mm.above x).length
decreasing_by exact Mm.above_lt _h

theorem above_munmap (mm : Mm) (start vend x : ℕ) :
    ((mm.munmap start vend).above x).length ≤ (mm.above x).length :=
  (List.Sublist.filter _ List.filter_sublist).length_le

/-- The second loop, at `vma = find_vma(mm, x)`. -/
def detachLoop (P addr file : ℕ) (size : ℤ) (mm : Mm) (x : ℕ) : Mm :=
  match _h : mm.findVma x with
  | none => mm
  | some vma =>
    if (vma.vmEnd : ℤ) - addr ≤ size then
      let vend := vma.vmEnd
      if attachedAt P addr vma && vma.vmFile == file then
        detachLoop P addr file size (mm.munmap vma.vmStart vend) vend
      else detachLoop P addr file size mm vend
    else mm
termination_by (mm.above x).length
decreasing_by
  · exact Nat.lt_of_le_of_lt (above_munmap ..) (Mm.above_lt _h)
  · exact Mm.above_lt _h

structure Result where
  mm : Mm
  ret : ℤ
  /-- a mapping was read after it had been unmapped -/
  stale : Bool

/-- `ksys_shmdt`: `isize` gives `i_size_read` of a file. -/
def ksysShmdt (P : ℕ) (isize : ℕ → ℕ) (junk : Vma → ℕ) (mm : Mm) (addr : ℕ) : Result :=
  if addr % P ≠ 0 then ⟨mm, -EINVAL, false⟩
  else match findAttach P addr mm addr with
    | none => ⟨mm, -EINVAL, false⟩
    | some vma =>
      let mm := mm.munmap vma.vmStart vma.vmEnd
      let vend := mm.readEnd junk vma
      ⟨detachLoop P addr vma.vmFile (pageAlign P (isize vma.vmFile)) mm vend.1, 0, vend.2⟩

/-! ## The loops -/

/-- **The first loop finds the first mapping that passes the test.** -/
theorem findAttach_eq (P addr : ℕ) (mm : Mm) (x : ℕ) : findAttach P addr mm x =
    mm.vmas.find? fun v => x < v.vmEnd && attachedAt P addr v := by
  fun_induction findAttach P addr mm x with
  | case1 x h =>
    symm
    rw [List.find?_eq_none]
    intro w hw
    have hx := List.find?_eq_none.1 h w hw
    simp only [Bool.and_eq_true, not_and]
    exact fun hlt => absurd hlt hx
  | case2 x v h hat =>
    obtain ⟨l, r, hlr, hx, hl, -⟩ := Mm.findVma_split h
    symm
    rw [List.find?_eq_some_iff_append]
    refine ⟨by simp [hx, hat], l, r, hlr, fun w hw => ?_⟩
    have := hl w hw
    simp
    omega
  | case3 x v h hat ih =>
    obtain ⟨l, r, hlr, hx, hl, hr⟩ := Mm.findVma_split h
    have hv := mm.nonempty v (by rw [hlr]; simp)
    rw [ih, hlr, List.find?_append, List.find?_append, List.find?_cons_of_neg (by simp),
      List.find?_cons_of_neg (by simp [hat])]
    have hnone : ∀ y, v.vmStart ≤ y ∨ x ≤ y →
        l.find? (fun w => y < w.vmEnd && attachedAt P addr w) = none := by
      intro y hy
      rw [List.find?_eq_none]
      intro w hw
      have := hl w hw
      simp only [Bool.and_eq_true, decide_eq_true_eq, not_and]
      omega
    rw [hnone _ (.inl (Nat.le_of_lt hv)), hnone _ (.inr (Nat.le_refl x))]
    rw [← List.head?_filter, ← List.head?_filter]
    refine congrArg (fun l => Option.or none (List.head? l)) (List.filter_congr fun w hw => ?_)
    have hvw := (hr w hw).2
    have hxw : x < w.vmEnd := by omega
    simp [hvw, hxw]

/-- What the second loop unmaps, when it starts at `x`. -/
def detaches (P addr file : ℕ) (size : ℤ) (x : ℕ) (v : Vma) : Bool :=
  x < v.vmEnd && (v.vmEnd : ℤ) - addr ≤ size && attachedAt P addr v && v.vmFile == file

/-- **The second loop unmaps what passes its test up to the end of the segment.** -/
theorem detachLoop_eq (P addr file : ℕ) (size : ℤ) (mm : Mm) (x : ℕ) :
    (detachLoop P addr file size mm x).vmas =
      mm.vmas.filter fun v => !detaches P addr file size x v := by
  have hlow : ∀ (l : List Vma) (y : ℕ), (∀ w ∈ l, w.vmEnd ≤ y) →
      l.filter (fun v => !detaches P addr file size y v) = l := by
    intro l y hl
    refine List.filter_eq_self.2 fun w hw => ?_
    have := hl w hw
    simp [detaches]
    omega
  have hhigh : ∀ (r : List Vma) (y z : ℕ), (∀ w ∈ r, y < w.vmEnd ∧ z < w.vmEnd) →
      r.filter (fun v => !detaches P addr file size y v) =
        r.filter fun v => !detaches P addr file size z v := by
    intro r y z hr
    refine List.filter_congr fun w hw => ?_
    simp [detaches, hr w hw]
  fun_induction detachLoop P addr file size mm x with
  | case1 mm x h =>
    refine (hlow _ _ fun w hw => ?_).symm
    have hx := List.find?_eq_none.1 h w hw
    simpa using hx
  | case2 mm x v h hle vend hat ih =>
    obtain ⟨l, r, hlr, hx, hl, hr⟩ := Mm.findVma_split h
    have hgone : detaches P addr file size x v = true := by
      rw [Bool.and_eq_true] at hat
      simp [detaches, hx, hle, hat]
    have hv := mm.nonempty v (by rw [hlr]; simp)
    rw [ih, mm.munmap_split hlr (fun w hw => (hl w hw).2) (fun w hw => (hr w hw).1), hlr,
      List.filter_append, List.filter_append, List.filter_cons_of_neg (by simp [hgone]),
      hlow l x fun w hw => (hl w hw).1,
      hlow l v.vmEnd fun w hw => by have := (hl w hw).2; omega,
      hhigh r v.vmEnd x fun w hw => by have := (hr w hw).2; omega]
  | case3 mm x v h hle vend hat ih =>
    obtain ⟨l, r, hlr, hx, hl, hr⟩ := Mm.findVma_split h
    have hstay : detaches P addr file size x v = false := by
      simp only [detaches, Bool.and_assoc]
      rw [Bool.eq_false_iff.2 hat]
      simp
    have hself : detaches P addr file size v.vmEnd v = false := by simp [detaches]
    have hv := mm.nonempty v (by rw [hlr]; simp)
    have ih' : (detachLoop P addr file size mm v.vmEnd).vmas =
        mm.vmas.filter fun w => !detaches P addr file size v.vmEnd w := ih
    rw [ih', hlr, List.filter_append, List.filter_append,
      List.filter_cons_of_pos (by simp [hself]), List.filter_cons_of_pos (by simp [hstay]),
      hlow l x fun w hw => (hl w hw).1,
      hlow l v.vmEnd fun w hw => by have := (hl w hw).2; omega,
      hhigh r v.vmEnd x fun w hw => by have := (hr w hw).2; omega]
  | case4 mm x v h hgt =>
    obtain ⟨l, r, hlr, hx, hl, hr⟩ := Mm.findVma_split h
    rw [List.filter_eq_self.2]
    intro w hw
    rw [hlr, List.mem_append, List.mem_cons] at hw
    have hend : w.vmEnd ≤ x ∨ v.vmEnd ≤ w.vmEnd := by
      rcases hw with hw | rfl | hw
      · exact .inl (hl w hw).1
      · exact .inr (Nat.le_refl _)
      · exact .inr (Nat.le_of_lt (hr w hw).2)
    simp only [detaches]
    rw [Bool.not_eq_true', Bool.and_assoc, Bool.and_eq_false_iff]
    rcases hend with hend | hend
    · left
      simp
      omega
    · left
      simp
      omega

/-! ## What is detached -/

/-- A part of an attach at `addr`: its offset is its distance from there. -/
def PartAt (P addr : ℕ) (v : Vma) : Prop :=
  v.shm = true ∧ addr ≤ v.vmStart ∧ (v.vmStart - addr) / P = v.vmPgoff

instance : DecidablePred (PartAt P addr) := fun v =>
  inferInstanceAs (Decidable (v.shm = true ∧ addr ≤ v.vmStart ∧ _ = v.vmPgoff))

/-- The first attach found at `addr`. -/
def firstAttach (P : ℕ) (mm : Mm) (addr : ℕ) : Option Vma := mm.vmas.find? fun v => PartAt P addr v

/-- `v` is of the same attach as `f`: same file, within the segment's pages. -/
def Belongs (P : ℕ) (isize : ℕ → ℕ) (addr : ℕ) (f v : Vma) : Prop :=
  PartAt P addr v ∧ v.vmFile = f.vmFile ∧ v.vmEnd ≤ addr + pageAlign P (isize f.vmFile)

/-- What is asked of `shmdt`. -/
structure Detaches (P : ℕ) (isize : ℕ → ℕ) (mm : Mm) (addr : ℕ) (r : Result) : Prop where
  unmapped : ∀ v, v ∈ r.mm.vmas ↔
    v ∈ mm.vmas ∧ ∀ f, firstAttach P mm addr = some f → ¬Belongs P isize addr f v
  ret : r.ret = if (firstAttach P mm addr).isSome then 0 else -EINVAL
  fresh : r.stale = false

/-- Above `addr` the test of the code is that of an attach. -/
theorem attachedAt_iff (hle : addr ≤ v.vmStart) (hlt : v.vmStart < 2 ^ 64) :
    attachedAt P addr v = true ↔ PartAt P addr v := by
  have hdist : (v.vmStart + (2 ^ 64 - addr)) % 2 ^ 64 = v.vmStart - addr := by omega
  unfold attachedAt PartAt
  rw [hdist, Bool.and_eq_true, beq_iff_eq]
  exact and_congr_right fun _ => (and_iff_right hle).symm

theorem attachedAt_of_partAt (hv : v ∈ mm.vmas) (h : PartAt P addr v) :
    addr < v.vmEnd ∧ attachedAt P addr v = true := by
  have hne := mm.nonempty v hv
  have hlt := mm.below v hv
  have hle := h.2.1
  exact ⟨by omega, (attachedAt_iff hle (by omega)).2 h⟩

theorem ksysShmdt_found (haddr : addr % P = 0)
    (h : mm.vmas.find? (fun v => addr < v.vmEnd && attachedAt P addr v) = some f) :
    ksysShmdt P isize junk mm addr =
      ⟨detachLoop P addr f.vmFile (pageAlign P (isize f.vmFile)) (mm.munmap f.vmStart f.vmEnd)
        (junk f), 0, true⟩ := by
  have hgone : f ∉ (mm.munmap f.vmStart f.vmEnd).vmas := by
    intro hmem
    obtain ⟨hf, hout⟩ := List.mem_filter.1 hmem
    have := mm.nonempty f hf
    simp at hout
    omega
  rw [ksysShmdt, if_neg (by simp [haddr]), findAttach_eq, h]
  dsimp only
  rw [Mm.readEnd, if_neg hgone]

/-- **When `shmdt` does what is asked of it**: where there is nothing to
    detach, for otherwise it reads the first mapping after it has unmapped it. -/
theorem shmdt_detaches (isize : ℕ → ℕ) (junk : Vma → ℕ) (mm : Mm) (haddr : addr % P = 0) :
    Detaches P isize mm addr (ksysShmdt P isize junk mm addr) ↔
      ∀ v ∈ mm.vmas, addr < v.vmEnd → attachedAt P addr v = false := by
  constructor
  · intro hd
    cases hfind : mm.vmas.find? (fun v => addr < v.vmEnd && attachedAt P addr v) with
    | none =>
      intro v hv hlt
      have hv := List.find?_eq_none.1 hfind v hv
      simpa [hlt] using hv
    | some f =>
      have hfresh := hd.fresh
      rw [ksysShmdt_found haddr hfind] at hfresh
      cases hfresh
  · intro hnone
    have hfind : mm.vmas.find? (fun v => addr < v.vmEnd && attachedAt P addr v) = none := by
      rw [List.find?_eq_none]
      intro v hv
      simp only [Bool.and_eq_true, decide_eq_true_eq, not_and]
      exact fun hlt => by rw [hnone v hv hlt]; exact Bool.false_ne_true
    have hfirst : firstAttach P mm addr = none := by
      rw [firstAttach, List.find?_eq_none]
      intro v hv hpart
      obtain ⟨hlt, hat⟩ := attachedAt_of_partAt hv (of_decide_eq_true hpart)
      rw [hnone v hv hlt] at hat
      cases hat
    rw [ksysShmdt, if_neg (by simp [haddr]), findAttach_eq, hfind]
    dsimp only
    refine ⟨fun v => ?_, by rw [hfirst]; rfl, rfl⟩
    rw [hfirst]
    simp

/-- A segment below the address, a file that is none at it, the segment attached elsewhere
    above it, and another one at an offset of its own. -/
def mmOther : Mm :=
  ⟨[⟨4096, 8192, true, 0, 3⟩, ⟨8192, 12288, false, 0, 5⟩, ⟨12288, 16384, true, 0, 3⟩,
      ⟨16384, 20480, true, 7, 4⟩], by decide, by decide, by decide⟩

theorem shmdt_detaches_none :
    Detaches 4096 (fun _ => 4096) mmOther 8192 (ksysShmdt 4096 (fun _ => 4096) (fun _ => 0)
      mmOther 8192) :=
  (shmdt_detaches (fun _ => 4096) (fun _ => 0) mmOther rfl).2 (by decide)

/-- One segment of one page, attached at one address. -/
def mmShm : Mm :=
  ⟨[⟨4096, 8192, true, 0, 3⟩], by decide, by decide, List.pairwise_singleton _ _⟩

/-- Detaching it reads its mapping after that has been freed. -/
theorem shmdt_reads_freed : ¬Detaches 4096 (fun _ => 4096) mmShm 4096
    (ksysShmdt 4096 (fun _ => 4096) (fun _ => 0) mmShm 4096) := by
  intro hd
  have hfind : mmShm.vmas.find? (fun v => 4096 < v.vmEnd && attachedAt 4096 4096 v) =
      some ⟨4096, 8192, true, 0, 3⟩ := by decide
  have hfresh := hd.fresh
  rw [ksysShmdt_found rfl hfind] at hfresh
  cases hfresh

/-- **What `shmdt` unmaps** if the freed mapping still reads as it did: the
    mapping it finds first, and the others that belong to the same attach. -/
theorem shmdt_unmaps (hjunk : ∀ v, junk v = v.vmEnd) (haddr : addr % P = 0)
    (h : mm.vmas.find? (fun v => addr < v.vmEnd && attachedAt P addr v) = some f) (v : Vma) :
    v ∈ (ksysShmdt P isize junk mm addr).mm.vmas ↔
      v ∈ mm.vmas ∧ v ≠ f ∧ ¬Belongs P isize addr f v := by
  obtain ⟨hf, l, r, hlr, hl⟩ := List.find?_eq_some_iff_append.1 h
  rw [Bool.and_eq_true, decide_eq_true_eq] at hf
  have hsorted := mm.sorted
  rw [hlr, List.pairwise_append] at hsorted
  obtain ⟨-, hright, hcross⟩ := hsorted
  have hlow : ∀ w ∈ l, w.vmEnd ≤ f.vmStart := fun w hw => hcross w hw f List.mem_cons_self
  have hhigh : ∀ w ∈ r, f.vmEnd ≤ w.vmStart := (List.pairwise_cons.1 hright).1
  have hin : ∀ w, w ∈ l ∨ w = f ∨ w ∈ r ↔ w ∈ mm.vmas := by simp [hlr]
  have hlen : ∀ w ∈ mm.vmas, w.vmStart < w.vmEnd := mm.nonempty
  have hfout : ∀ w, w ∈ l ∨ w ∈ r → w ≠ f := by
    rintro w hw rfl
    have := hlen w ((hin w).1 (.inr (.inl rfl)))
    rcases hw with hw | hw
    · have := hlow w hw
      omega
    · have := hhigh w hw
      omega
  rw [ksysShmdt_found haddr h, hjunk, detachLoop_eq,
    mm.munmap_split hlr hlow hhigh, List.mem_filter, List.mem_append]
  constructor
  · rintro ⟨hv, hstay⟩
    have hv' : v ∈ l ∨ v = f ∨ v ∈ r := hv.imp_right .inr
    refine ⟨(hin v).1 hv', hfout v hv, fun ⟨hpart, hfile, hend⟩ => ?_⟩
    obtain ⟨hlt, hat⟩ := attachedAt_of_partAt ((hin v).1 hv') hpart
    rcases hv with hv | hv
    · have hno := hl v hv
      simp [hlt, hat] at hno
    · have hfv := hhigh v hv
      have hvlen := hlen v ((hin v).1 hv')
      have hle : (v.vmEnd : ℤ) - addr ≤ pageAlign P (isize f.vmFile) := by omega
      simp only [detaches, hat, hfile, Bool.not_eq_true', Bool.and_eq_false_iff,
        decide_eq_false_iff_not] at hstay
      simp at hstay
      omega
  · rintro ⟨hv, hne, hnot⟩
    have hv' : v ∈ l ∨ v ∈ r := by
      rcases (hin v).2 hv with hv | rfl | hv
      · exact .inl hv
      · exact absurd rfl hne
      · exact .inr hv
    refine ⟨hv', ?_⟩
    rw [Bool.not_eq_true', Bool.eq_false_iff]
    intro hdet
    simp only [detaches, Bool.and_eq_true, decide_eq_true_eq, beq_iff_eq] at hdet
    obtain ⟨⟨⟨hfv, hend⟩, hat⟩, hfile⟩ := hdet
    have hvr : v ∈ r := by
      refine hv'.resolve_left fun hvl => ?_
      have := hlow v hvl
      have := hlen f ((hin f).1 (.inr (.inl rfl)))
      omega
    have hstart : addr ≤ v.vmStart := Nat.le_trans (Nat.le_of_lt hf.1) (hhigh v hvr)
    have hbelow := mm.below v hv
    have hvlen := hlen v hv
    exact hnot ⟨(attachedAt_iff hstart (by omega)).1 hat, hfile, by omega⟩

end DroidLkm.Shm.Detach
