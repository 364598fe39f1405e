/-
  `/proc/<pid>/status` — the lines of the namespaces.

  The lines are made twice in the source: for the insertion they go through a
  buffer on the stack, with `scnprintf`; at the end of the file they are printed
  one number at a time.

  * `nsBlock`, `statusInsert`: `droid_lkm_ns_block`, `droid_lkm_status_insert`;
  * `statusAppendBlock`: what `droid_lkm_status_append_block` prints;
  * `text`, `fourLines`: the lines in full, with the numbers as the one and as
    the other prints them;
  * `nsBlock_eq`: the block is as much of the text as fits, and never refused;
  * `agrees_iff`: when what is inserted is what would have been appended.
-/
import Mathlib.Data.List.Basic
import DroidLkm.Status.Splice

namespace DroidLkm.Status

inductive PidType where
  | TGID
  | PID
  | PGID
  | SID
  deriving DecidableEq

/-- What the kernel knows: `__task_pid_nr_ns`, and the level of a namespace. -/
structure Kernel (Task Ns : Type) where
  taskNr : Task → PidType → Ns → Int32
  nsLevel : Ns → ℕ

/-- `struct pid`: its level, and the namespace of its number at each level. -/
structure Pid (Ns : Type) where
  level : ℕ
  numbers : ℕ → Ns

/-! ## Numbers -/

def TAB : UInt8 := 9

def MINUS : UInt8 := 45

def digits (n : ℕ) : List UInt8 := (Nat.toDigits 10 n).map fun c => UInt8.ofNat c.toNat

/-- `%d` -/
def fmtD (nr : Int32) : List UInt8 :=
  if nr.toInt < 0 then MINUS :: digits nr.toInt.natAbs else digits nr.toInt.natAbs

/-- `(unsigned long long)nr` -/
def ull (nr : Int32) : ℕ := (nr.toInt % 2 ^ 64).toNat

theorem MINUS_not_mem_digits (n : ℕ) : MINUS ∉ digits n := by
  intro h
  obtain ⟨c, hc, heq⟩ := List.mem_map.1 h
  have hdigit := Nat.isDigit_of_mem_toDigits (by decide) (by decide) hc
  simp only [Char.isDigit, Bool.and_eq_true, decide_eq_true_eq] at hdigit
  obtain ⟨h₁, h₂⟩ := hdigit
  have h₁ : 48 ≤ c.toNat := h₁
  have h₂ : c.toNat ≤ 57 := h₂
  have hnat := congrArg UInt8.toNat heq
  simp only [UInt8.toNat_ofNat', MINUS] at hnat
  have : (45 : UInt8).toNat = 45 := rfl
  omega

theorem length_digits_le {n k : ℕ} (hk : 0 < k) : (digits n).length ≤ k ↔ n < 10 ^ k := by
  rw [digits, List.length_map]
  exact Nat.length_toDigits_le_iff (by decide) hk

variable {x : Int32}

theorem fmtD_of_nonneg (h : 0 ≤ x.toInt) : fmtD x = digits (ull x) := by
  have hlt := x.toInt_lt
  rw [fmtD, if_neg (by omega), ull, Int.emod_eq_of_lt h (by omega)]
  congr 1
  omega

theorem MINUS_mem_fmtD (h : x.toInt < 0) : MINUS ∈ fmtD x := by
  rw [fmtD, if_pos h]
  exact List.mem_cons_self

/-- The sign extended to 64 bits takes more digits than the number itself. -/
theorem length_fmtD_le (x : Int32) : (fmtD x).length ≤ (digits (ull x)).length := by
  rcases Int.lt_or_le x.toInt 0 with hneg | hnonneg
  · have hle := x.le_toInt
    have hshort : (digits x.toInt.natAbs).length ≤ 10 :=
      (length_digits_le (by decide)).2 (by omega)
    have hlong : ¬(digits (ull x)).length ≤ 11 := by
      rw [length_digits_le (by decide), ull]
      omega
    rw [fmtD, if_pos hneg, List.length_cons]
    omega
  · rw [fmtD_of_nonneg hnonneg]

/-! ## The functions of the source -/

/-- What `scnprintf` keeps of a text: one byte is for the end of the string. -/
def scnprintf (size : ℕ) (text : List UInt8) : List UInt8 := text.take (size - 1)

/-- `len += scnprintf(buf + len, size - len, ...)`, where `out` is the first
    `len` bytes. -/
def printTo (size : ℕ) (out text : List UInt8) : List UInt8 :=
  out ++ scnprintf (size - out.length) text

/-- The tags and types of the lines. -/
def lines : List (List UInt8 × PidType) :=
  [(bytes "NStgid:", .TGID), (bytes "NSpid:", .PID), (bytes "NSpgid:", .PGID),
    (bytes "NSsid:", .SID)]

section
variable {Task Ns : Type} (K : Kernel Task Ns) (t : Task) (ns : Ns) (pid : Pid Ns)

/-- `for (g = from; g <= to; g++)` -/
def levels : List ℕ := List.range' (K.nsLevel ns) (pid.level + 1 - K.nsLevel ns)

/-- The number at a level. -/
def nrAt (type : PidType) (g : ℕ) : Int32 := K.taskNr t type (pid.numbers g)

/-- A line of `droid_lkm_ns_block`. -/
def blockLine (size : ℕ) (out : List UInt8) (l : List UInt8 × PidType) : List UInt8 :=
  (levels K ns pid).foldl (fun out g => printTo size out (TAB :: fmtD (nrAt K t pid l.2 g)))
    (printTo size out (NL :: l.1))

/-- The outer loop of `droid_lkm_ns_block`; none is `-ENOSPC`. -/
def blockFrom (size : ℕ) : List (List UInt8 × PidType) → List UInt8 → Option (List UInt8)
  | [], out => some out
  | l :: ls, out =>
    if size ≤ (blockLine K t ns pid size out l).length then none
    else blockFrom size ls (blockLine K t ns pid size out l)

/-- `droid_lkm_ns_block` -/
def nsBlock (size : ℕ) : Option (List UInt8) := blockFrom K t ns pid size lines []

/-- `droid_lkm_status_insert`; the block has 512 bytes on the stack. -/
def statusInsert (pageSize : ℕ) (fl : Flags) (m : SeqFile) : Option Inserted :=
  insertBlock pageSize fl m (nsBlock K t ns pid 512)

/-- What `droid_lkm_ns_lines` prints. -/
def nsLines (type : PidType) : List UInt8 :=
  (levels K ns pid).flatMap fun g => TAB :: digits (ull (nrAt K t pid type g))

/-- What `droid_lkm_status_append_block` prints. -/
def statusAppendBlock : List UInt8 :=
  bytes "\nNStgid:" ++ nsLines K t ns pid .TGID ++ bytes "\nNSpid:" ++ nsLines K t ns pid .PID ++
    bytes "\nNSpgid:" ++ nsLines K t ns pid .PGID ++ bytes "\nNSsid:" ++
    nsLines K t ns pid .SID ++ [NL]

/-! ## The lines in full -/

/-- A line with its numbers as `%d` prints them. -/
def lineText (l : List UInt8 × PidType) : List UInt8 :=
  NL :: l.1 ++ (levels K ns pid).flatMap fun g => TAB :: fmtD (nrAt K t pid l.2 g)

/-- All that the block should hold. -/
def text : List UInt8 := lines.flatMap (lineText K t ns pid)

/-- The four lines: a tag, and a number for each level from the reader's to the
    task's. -/
def fourLines : List UInt8 := lines.flatMap fun l => NL :: l.1 ++ nsLines K t ns pid l.2

/-- No number of the lines is below 0. -/
def NoNegative : Prop :=
  ∀ l ∈ lines, ∀ g ∈ levels K ns pid, 0 ≤ (nrAt K t pid l.2 g).toInt

/-- The other path ends the last line, which is not the caller's. -/
theorem append_eq : statusAppendBlock K t ns pid = fourLines K t ns pid ++ [NL] := by
  have h₁ : bytes "\nNStgid:" = NL :: bytes "NStgid:" := by decide
  have h₂ : bytes "\nNSpid:" = NL :: bytes "NSpid:" := by decide
  have h₃ : bytes "\nNSpgid:" = NL :: bytes "NSpgid:" := by decide
  have h₄ : bytes "\nNSsid:" = NL :: bytes "NSsid:" := by decide
  simp only [statusAppendBlock, fourLines, lines, List.flatMap_cons, List.flatMap_nil, h₁, h₂, h₃,
    h₄, List.append_assoc, List.nil_append]

variable {K t ns pid}

theorem text_eq (h : NoNegative K t ns pid) : text K t ns pid = fourLines K t ns pid := by
  refine List.flatMap_congr fun l hl => ?_
  have hnumbers : ((levels K ns pid).flatMap fun g => TAB :: fmtD (nrAt K t pid l.2 g)) =
      nsLines K t ns pid l.2 :=
    List.flatMap_congr fun g hg => by rw [fmtD_of_nonneg (h l hl g hg)]
  rw [lineText, hnumbers]

theorem MINUS_not_mem_fourLines : MINUS ∉ fourLines K t ns pid := by
  have htags : ∀ l ∈ lines, MINUS ∉ NL :: l.1 := by decide
  intro h
  obtain ⟨l, hl, h⟩ := List.mem_flatMap.1 h
  rcases List.mem_append.1 h with h | h
  · exact htags l hl h
  · obtain ⟨g, -, h⟩ := List.mem_flatMap.1 h
    rcases List.mem_cons.1 h with h | h
    · cases h
    · exact MINUS_not_mem_digits _ h

theorem noNegative_of_text_eq (h : text K t ns pid = fourLines K t ns pid) :
    NoNegative K t ns pid := by
  intro l hl g hg
  by_contra hneg
  have hno : MINUS ∉ fourLines K t ns pid := MINUS_not_mem_fourLines
  rw [← h] at hno
  refine hno (List.mem_flatMap.2
    ⟨l, hl, List.mem_append_right _ (List.mem_flatMap.2 ⟨g, hg, ?_⟩)⟩)
  exact List.mem_cons_of_mem _ (MINUS_mem_fmtD (by omega))

theorem length_flatMap_le {α β : Type} {f f' : α → List β} :
    ∀ {l : List α}, (∀ a ∈ l, (f a).length ≤ (f' a).length) →
      (l.flatMap f).length ≤ (l.flatMap f').length
  | [], _ => Nat.le_refl 0
  | a :: l, h => by
    rw [List.flatMap_cons, List.flatMap_cons, List.length_append, List.length_append]
    exact Nat.add_le_add (h a List.mem_cons_self)
      (length_flatMap_le fun a' ha => h a' (List.mem_cons_of_mem a ha))

theorem length_text_le : (text K t ns pid).length ≤ (fourLines K t ns pid).length := by
  refine length_flatMap_le fun l _ => ?_
  rw [lineText, List.length_append, List.length_append]
  refine Nat.add_le_add_left (length_flatMap_le fun g _ => ?_) _
  exact Nat.succ_le_succ (length_fmtD_le _)

/-! ## What the block holds -/

/-- What was cut stays cut. -/
theorem printTo_take {size : ℕ} (hsize : 0 < size) (T u : List UInt8) :
    printTo size (T.take (size - 1)) u = (T ++ u).take (size - 1) := by
  rw [printTo, scnprintf, List.take_append, List.length_take]
  congr 2
  omega

theorem foldl_printTo {size : ℕ} (hsize : 0 < size) (f : ℕ → List UInt8) :
    ∀ (gs : List ℕ) (T : List UInt8),
      gs.foldl (fun out g => printTo size out (f g)) (T.take (size - 1)) =
        (T ++ gs.flatMap f).take (size - 1)
  | [], T => by simp
  | g :: gs, T => by
    rw [List.foldl_cons, printTo_take hsize, foldl_printTo hsize f gs, List.flatMap_cons,
      List.append_assoc]

theorem blockLine_take {size : ℕ} (hsize : 0 < size) (T : List UInt8) (l : List UInt8 × PidType) :
    blockLine K t ns pid size (T.take (size - 1)) l =
      (T ++ lineText K t ns pid l).take (size - 1) := by
  rw [blockLine, printTo_take hsize, foldl_printTo hsize, lineText, List.append_assoc]

/-- The length is never the size, whatever was cut. -/
theorem blockFrom_take {size : ℕ} (hsize : 0 < size) :
    ∀ (ls : List (List UInt8 × PidType)) (T : List UInt8),
      blockFrom K t ns pid size ls (T.take (size - 1)) =
        some ((T ++ ls.flatMap (lineText K t ns pid)).take (size - 1))
  | [], T => by rw [blockFrom, List.flatMap_nil, List.append_nil]
  | l :: ls, T => by
    have hlt : ¬size ≤ ((T ++ lineText K t ns pid l).take (size - 1)).length := by
      rw [List.length_take]
      omega
    rw [blockFrom, blockLine_take hsize, if_neg hlt, blockFrom_take hsize ls, List.flatMap_cons,
      List.append_assoc]

/-- **The block** is as much of the text as fits, and is never refused. -/
theorem nsBlock_eq {size : ℕ} (hsize : 0 < size) :
    nsBlock K t ns pid size = some ((text K t ns pid).take (size - 1)) := by
  have h : blockFrom K t ns pid size lines (([] : List UInt8).take (size - 1)) = _ :=
    blockFrom_take hsize lines []
  rwa [List.take_nil, List.nil_append] at h

/-! ## The two paths -/

variable (K t ns pid)

/-- What is inserted is what the other path prints; where that does not fit
    nothing is inserted, and what fails leaves the file as it was. -/
structure Agrees (pageSize : ℕ) (fl : Flags) (m : SeqFile) : Prop where
  inserted : ∀ r, statusInsert K t ns pid pageSize fl m = some r → r.ok = true →
    ∃ j, EndsGroups m.content j ∧
      r.file.content = m.content.take j ++ fourLines K t ns pid ++ m.content.drop j
  overflow : 512 ≤ (fourLines K t ns pid).length ∨
      m.size < m.count + (fourLines K t ns pid).length →
    ∀ r, statusInsert K t ns pid pageSize fl m = some r → r.ok = false
  failed : ∀ r, statusInsert K t ns pid pageSize fl m = some r → r.ok = false → r.file = m

/-- The text fits into the block, and its numbers are numbers of processes. -/
structure Whole : Prop where
  short : (text K t ns pid).length < 512
  noNegative : NoNegative K t ns pid

variable {K t ns pid} {pageSize : ℕ} {fl : Flags} {m : SeqFile}

theorem statusInsert_eq : statusInsert K t ns pid pageSize fl m =
    insertBlock pageSize fl m (some ((text K t ns pid).take 511)) := by
  rw [statusInsert, nsBlock_eq (by decide)]

theorem EndsGroups.unique {c : List UInt8} {j j' : ℕ} (h : EndsGroups c j) (h' : EndsGroups c j') :
    j = j' := by
  obtain ⟨i, -, hi, hfirst, -⟩ := h.line
  obtain ⟨hij, hnl, hline⟩ := (endsGroups_iff hi hfirst).1 h
  obtain ⟨hij', hnl', hline'⟩ := (endsGroups_iff hi hfirst).1 h'
  rcases Nat.lt_trichotomy j j' with hlt | heq | hgt
  · exact absurd hnl (hline' j hij hlt)
  · exact heq
  · exact absurd hnl' (hline j' hij' hgt)

theorem Whole.agrees (h : Whole K t ns pid) : Agrees K t ns pid pageSize fl m := by
  have heq := text_eq h.noNegative
  have hlen : (fourLines K t ns pid).length < 512 := heq ▸ h.short
  have htake : (text K t ns pid).take 511 = fourLines K t ns pid := by
    rw [heq, List.take_of_length_le (by omega)]
  rcases insertBlock_cases pageSize fl m (fourLines K t ns pid) with
    ⟨fl', hfail, -⟩ | ⟨m', j, hok, -, hroom, hj, -, -, hcontent⟩
  · have hins := statusInsert_eq.trans ((congrArg _ (congrArg some htake)).trans hfail)
    refine ⟨fun r hr hrok => ?_, fun _ r hr => ?_, fun r hr _ => ?_⟩ <;>
      obtain rfl := Option.some.inj (hins.symm.trans hr)
    · cases hrok
    · rfl
    · rfl
  · have hins := statusInsert_eq.trans ((congrArg _ (congrArg some htake)).trans hok)
    refine ⟨fun r hr _ => ?_, fun hfull => ?_, fun r hr hrok => ?_⟩
    · obtain rfl := Option.some.inj (hins.symm.trans hr)
      exact ⟨j, hj, hcontent⟩
    · have := hroom.fits
      omega
    · obtain rfl := Option.some.inj (hins.symm.trans hr)
      cases hrok

/-- Where the insertion fails anyhow there is nothing to compare. -/
theorem agrees_of_not_room (h : ¬Room pageSize m (min (text K t ns pid).length 511)) :
    Agrees K t ns pid pageSize fl m := by
  rcases insertBlock_cases pageSize fl m ((text K t ns pid).take 511) with
    ⟨fl', hfail, -⟩ | ⟨m', j, -, -, hroom, -⟩
  · have hins := statusInsert_eq.trans hfail
    refine ⟨fun r hr hrok => ?_, fun _ r hr => ?_, fun r hr _ => ?_⟩ <;>
      obtain rfl := Option.some.inj (hins.symm.trans hr)
    · cases hrok
    · rfl
    · rfl
  · rw [List.length_take, Nat.min_comm] at hroom
    exact absurd hroom h

/-- Where it succeeds with anything but the whole text it is wrong. -/
theorem not_agrees (hroom : Room pageSize m (min (text K t ns pid).length 511))
    (hno : ¬Whole K t ns pid) : ¬Agrees K t ns pid pageSize fl m := by
  intro hagrees
  rcases insertBlock_cases pageSize fl m ((text K t ns pid).take 511) with
    ⟨fl', -, hno'⟩ | ⟨m', j, hok, -, -, hj, -, -, hcontent⟩
  · refine hno' ⟨fun hnil => ?_, by rwa [List.length_take, Nat.min_comm]⟩
    have hpos : 0 < ((text K t ns pid).take 511).length := by
      simp [text, lines, lineText]
    rw [hnil] at hpos
    cases hpos
  have hins := statusInsert_eq.trans hok
  obtain ⟨j', hj', hcontent'⟩ := hagrees.inserted _ hins rfl
  obtain rfl := hj.unique hj'
  rw [hcontent] at hcontent'
  have htake : (text K t ns pid).take 511 = fourLines K t ns pid :=
    List.append_cancel_left (List.append_cancel_right hcontent')
  have hfits : (fourLines K t ns pid).length < 512 := by
    by_contra hlong
    cases hagrees.overflow (.inl (by omega)) _ hins
  have hshort : (text K t ns pid).length < 512 := Nat.lt_of_le_of_lt length_text_le hfits
  rw [List.take_of_length_le (by omega)] at htake
  exact hno ⟨hshort, noNegative_of_text_eq htake⟩

/-- **The two paths.**  The appended text is the four lines and a newline.  What is
    inserted agrees with it if and only if the text fits into the block (and no
    number is negative), or the file has no room for as much of it as the block
    holds. -/
theorem agrees_iff {Task Ns : Type} (K : Kernel Task Ns) (t : Task) (ns : Ns) (pid : Pid Ns)
    (pageSize : ℕ) (fl : Flags) (m : SeqFile) :
    statusAppendBlock K t ns pid = fourLines K t ns pid ++ [NL] ∧
      (Agrees K t ns pid pageSize fl m ↔
        Whole K t ns pid ∨ ¬Room pageSize m (min (text K t ns pid).length 511)) := by
  refine ⟨append_eq K t ns pid, fun h => ?_, fun h => ?_⟩
  · by_contra hno
    rw [not_or, not_not] at hno
    exact not_agrees hno.2 hno.1 h
  · rcases h with h | h
    · exact h.agrees
    · exact agrees_of_not_room h

end

/-! ## A deep task -/

/-- A file of one page with the line of the groups in it. -/
def deepFile : SeqFile :=
  ⟨some (bytes "Name:\tx\nGroups:\t\n" ++ List.replicate 4079 0), 17, 4096, by
    rintro b hb
    rw [← Option.some.inj hb, List.length_append, List.length_replicate]
    decide⟩

/-- Each task has the number 1000 everywhere. -/
def deepKernel : Kernel Unit ℕ := ⟨fun _ _ _ => 1000, id⟩

/-- A task 32 levels down, read from the first namespace: the block is cut, and
    what is left of it is inserted. -/
theorem deep_not_agrees : ¬Agrees deepKernel () 0 ⟨32, id⟩ 4096 ⟨false, true⟩ deepFile := by
  have hlen : (text deepKernel () 0 ⟨32, id⟩).length = 690 := by decide +kernel
  refine not_agrees ?_ fun h => ?_
  · rw [hlen]
    have hj : ∃ j, EndsGroups deepFile.content j := by
      have hspec : ∃ r, statusAt (deepFile.buf.getD []) 17 = some r ∧
          ∀ j, r = some j ↔ EndsGroups deepFile.content j := statusAt_spec (by decide +kernel)
      obtain ⟨r, hr, hspec⟩ := hspec
      have hr' : statusAt (deepFile.buf.getD []) 17 = some (some 16) := by decide +kernel
      exact ⟨16, (hspec 16).1 (Option.some.inj (hr.symm.trans hr'))⟩
    exact ⟨by decide +kernel, hj, by decide⟩
  · have := h.short
    rw [hlen] at this
    exact absurd this (by decide)

end DroidLkm.Status
