/-
  `/proc/<pid>/status` — where the namespace lines are put.

  A block of lines is moved into the buffer of the seq file, before the newline
  that ends the line of the groups.

  * `statusAt`, `insertBlock`: `droid_lkm_status_at` and the part of
    `droid_lkm_status_insert` after the block is made; a byte at or past
    `count` that is read, or one at or past `size` that is written, leaves them
    without a result;
  * `EndsGroups u j`: the place the search is for, in the text `u` alone;
  * `statusAt_spec`: the search finds it, and reads nothing else;
  * `insert_frame`: the text before and after the block is what it was.
-/
import DroidLkm.Lib.Buffer

namespace DroidLkm.Status

open Buffer

/-- The characters of a text, one byte each. -/
def bytes (s : String) : List UInt8 := s.toList.map fun c => UInt8.ofNat c.toNat

def NL : UInt8 := 10

def GROUPS : List UInt8 := bytes "Groups:"

/-- `struct seq_file`: the text is the first `count` bytes of the buffer, which
    has `size` bytes where there is one. -/
structure SeqFile where
  buf : Option (List UInt8)
  count : ℕ
  size : ℕ
  length_buf : ∀ b, buf = some b → b.length = size

/-- The text that was printed so far. -/
def SeqFile.content (m : SeqFile) : List UInt8 := (m.buf.getD []).take m.count

/-- `droid_lkm_status_seq_bad` and `droid_lkm_status_can_insert` -/
structure Flags where
  seqBad : Bool
  canInsert : Bool
  deriving DecidableEq

/-! ## The functions of the source -/

/-- A newline at `i`, and `memcmp` finds the tag after it. -/
def groupsAt (b : List UInt8) (count i : ℕ) : Option Bool :=
  (load b count i 1).bind fun u =>
    if u = [NL] then (load b count (i + 1) 7).map (· == GROUPS) else some false

/-- The inner loop of `droid_lkm_status_at`, for the `n` places from `i` on. -/
def lineEnd (b : List UInt8) (count : ℕ) : ℕ → ℕ → Option (Option ℕ)
  | 0, _ => some none
  | n + 1, i => (load b count i 1).bind fun u =>
    if u = [NL] then some (some i) else lineEnd b count n (i + 1)

/-- Its outer loop, which runs while `i + 8 < count`; `n` places are left. -/
def statusAtFrom (b : List UInt8) (count : ℕ) : ℕ → ℕ → Option (Option ℕ)
  | 0, _ => some none
  | n + 1, i => (groupsAt b count i).bind fun hit =>
    if hit then lineEnd b count (count - (i + 1)) (i + 1) else statusAtFrom b count n (i + 1)

/-- `droid_lkm_status_at` -/
def statusAt (b : List UInt8) (count : ℕ) : Option (Option ℕ) := statusAtFrom b count (count - 8) 0

/-- What `droid_lkm_status_insert` leaves. -/
structure Inserted where
  ok : Bool
  file : SeqFile
  flags : Flags

/-- The `seq_file` is refused, and not looked at again. -/
def refuse (fl : Flags) : Flags := if fl.seqBad then fl else ⟨true, false⟩

/-- The sanity pass over the three members. -/
def Sane (pageSize : ℕ) (m : SeqFile) : Prop :=
  m.buf.isSome ∧ m.count ≤ m.size ∧ pageSize ≤ m.size ∧ m.size ≤ 2 ^ 20

instance (pageSize : ℕ) (m : SeqFile) : Decidable (Sane pageSize m) := by
  unfold Sane
  infer_instance

/-- `memmove` and `memcpy`: the buffer after the block went in at `j`. -/
def splice (b : List UInt8) (count j : ℕ) (block : List UInt8) : Option (List UInt8) :=
  (load b count j (count - j)).bind fun tail =>
    (store b (j + block.length) tail).bind fun b => store b j block

/-- A file whose buffer was written to. -/
def SeqFile.written (m : SeqFile) (b : List UInt8) (count : ℕ) (h : b.length = m.size) : SeqFile :=
  ⟨some b, count, m.size, fun _ hb => Option.some.inj hb ▸ h⟩

theorem length_splice {b b' block : List UInt8} {count j : ℕ}
    (h : splice b count j block = some b') : b'.length = b.length := by
  obtain ⟨tail, -, h⟩ := Option.bind_eq_some_iff.1 h
  obtain ⟨b₁, h₁, h₂⟩ := Option.bind_eq_some_iff.1 h
  rw [length_store h₂, length_store h₁]

/-- The splice, with the file that it leaves. -/
def spliceFile (m : SeqFile) (b : List UInt8) (hb : m.buf = some b) (j : ℕ) (block : List UInt8) :
    Option SeqFile :=
  match h : splice b m.count j block with
  | none => none
  | some b' => some (m.written b' (m.count + block.length)
      ((length_splice h).trans (m.length_buf b hb)))

/-- `droid_lkm_status_insert`, with the block that `droid_lkm_ns_block` made, or
    none where its length is negative. -/
def insertBlock (pageSize : ℕ) (fl : Flags) (m : SeqFile) (block : Option (List UInt8)) :
    Option Inserted :=
  match block with
  | none => some ⟨false, m, fl⟩
  | some block =>
    if block.length = 0 then some ⟨false, m, fl⟩
    else if Sane pageSize m then
      match hb : m.buf with
      | none => some ⟨false, m, fl⟩
      | some b => (statusAt b m.count).bind fun
        | none => some ⟨false, m, fl⟩
        | some j =>
          if m.size < m.count + block.length then some ⟨false, m, fl⟩
          else (spliceFile m b hb j block).map fun m' => ⟨true, m', fl⟩
    else some ⟨false, m, refuse fl⟩

/-! ## Where the block belongs -/

/-- A line that starts with the tag begins after the newline at `i`. -/
def StartsGroups (u : List UInt8) (i : ℕ) : Prop := u[i]? = some NL ∧ GROUPS <+: u.drop (i + 1)

/-- The newline at `j` ends the first line after the first one that starts with
    the tag. -/
structure EndsGroups (u : List UInt8) (j : ℕ) : Prop where
  newline : u[j]? = some NL
  line : ∃ i < j, StartsGroups u i ∧ (∀ k < i, ¬StartsGroups u k) ∧
    ∀ k, i < k → k < j → u[k]? ≠ some NL

instance (u : List UInt8) (i : ℕ) : Decidable (StartsGroups u i) := by
  unfold StartsGroups
  infer_instance

variable {b u block : List UInt8} {count i j k n : ℕ} {m : SeqFile} {pageSize : ℕ}

theorem NL_not_mem_GROUPS : NL ∉ GROUPS := by decide

/-- The tag itself holds no newline. -/
theorem StartsGroups.not_newline (h : StartsGroups u i) (hk : i < k) (hk' : k < i + 8) :
    u[k]? ≠ some NL := by
  obtain ⟨-, t, ht⟩ := h
  have hlen : k - (i + 1) < GROUPS.length := by
    have : GROUPS.length = 7 := by decide
    omega
  have hc : u[k]? = GROUPS[k - (i + 1)]? := by
    have happ : (GROUPS ++ t)[k - (i + 1)]? = GROUPS[k - (i + 1)]? := List.getElem?_append_left hlen
    rw [← happ, ht, List.getElem?_drop]
    congr 1
    omega
  rw [hc]
  exact fun hnl => NL_not_mem_GROUPS (List.mem_of_getElem? hnl)

/-- The newline is past the tag. -/
theorem StartsGroups.le_of_newline (h : StartsGroups u i) (hij : i < j) (hj : u[j]? = some NL) :
    i + 8 ≤ j := by
  by_contra hlt
  exact h.not_newline hij (by omega) hj

/-- The place is told by the first line with the tag. -/
theorem endsGroups_iff (hi : StartsGroups u i) (hfirst : ∀ k < i, ¬StartsGroups u k) :
    EndsGroups u j ↔ i < j ∧ u[j]? = some NL ∧ ∀ k, i < k → k < j → u[k]? ≠ some NL := by
  constructor
  · rintro ⟨hnl, p, hpj, hp, hpfirst, hline⟩
    have hip : p = i := by
      rcases Nat.lt_trichotomy p i with hlt | heq | hgt
      · exact absurd hp (hfirst p hlt)
      · exact heq
      · exact absurd hi (hpfirst i hgt)
    subst hip
    exact ⟨hpj, hnl, hline⟩
  · rintro ⟨hij, hnl, hline⟩
    exact ⟨hnl, i, hij, hi, hfirst, hline⟩

theorem EndsGroups.lt (h : EndsGroups (b.take count) j) : j < count := by
  obtain ⟨hlt, -⟩ := List.getElem?_eq_some_iff.1 h.newline
  rw [List.length_take] at hlt
  omega

/-! ## The search -/

theorem newline_iff (hi : i < count) (hb : count ≤ b.length) :
    [b[i]] = [NL] ↔ (b.take count)[i]? = some NL := by
  rw [List.getElem?_take_of_lt hi, List.getElem?_eq_getElem (by omega)]
  simp

theorem groupsAt_eq (hi : i + 8 < count) (hb : count ≤ b.length) :
    groupsAt b count i = some (decide (StartsGroups (b.take count) i)) := by
  have h7 : GROUPS.length = 7 := by decide
  unfold groupsAt
  rw [load_one (by omega) (by omega), Option.bind_some, load_take (by omega)]
  by_cases hnl : [b[i]] = [NL]
  · rw [if_pos hnl, Option.map_some, Option.some.injEq, Bool.eq_iff_iff]
    simp only [beq_iff_eq, decide_eq_true_eq, StartsGroups, List.prefix_iff_eq_take, h7,
      (newline_iff (by omega) hb).1 hnl, true_and]
    exact eq_comm
  · rw [if_neg hnl, Option.some.injEq]
    symm
    rw [decide_eq_false_iff_not]
    exact fun h => hnl ((newline_iff (by omega) hb).2 h.1)

/-- The inner loop finds the first newline from `i` on. -/
theorem lineEnd_spec (hn : i + n = count) (hb : count ≤ b.length) :
    ∃ r, lineEnd b count n i = some r ∧ ∀ j, r = some j ↔
      i ≤ j ∧ (b.take count)[j]? = some NL ∧ ∀ k, i ≤ k → k < j → (b.take count)[k]? ≠ some NL := by
  induction n generalizing i with
  | zero =>
    refine ⟨none, rfl, fun j => ⟨fun h => (by cases h), ?_⟩⟩
    rintro ⟨hij, hnl, -⟩
    obtain ⟨hlt, -⟩ := List.getElem?_eq_some_iff.1 hnl
    rw [List.length_take] at hlt
    omega
  | succ n ih =>
    rw [lineEnd, load_one (by omega) (by omega), Option.bind_some]
    by_cases hnl : [b[i]] = [NL]
    · have hi := (newline_iff (by omega) hb).1 hnl
      rw [if_pos hnl]
      refine ⟨some i, rfl, fun j => ?_⟩
      rw [Option.some.injEq]
      constructor
      · rintro rfl
        exact ⟨Nat.le_refl i, hi, fun k h₁ h₂ => absurd h₂ (by omega)⟩
      · rintro ⟨hij, -, hfirst⟩
        by_contra hne
        exact hfirst i (Nat.le_refl i) (by omega) hi
    · have hi : (b.take count)[i]? ≠ some NL := fun h => hnl ((newline_iff (by omega) hb).2 h)
      rw [if_neg hnl]
      obtain ⟨r, hr, hspec⟩ := ih (i := i + 1) (by omega)
      refine ⟨r, hr, fun j => (hspec j).trans ?_⟩
      constructor
      · rintro ⟨hij, hj, hfirst⟩
        refine ⟨by omega, hj, fun k h₁ h₂ => ?_⟩
        rcases Nat.eq_or_lt_of_le h₁ with rfl | hlt
        · exact hi
        · exact hfirst k hlt h₂
      · rintro ⟨hij, hj, hfirst⟩
        have hne : i ≠ j := by
          rintro rfl
          exact hi hj
        exact ⟨by omega, hj, fun k h₁ h₂ => hfirst k (by omega) h₂⟩

/-- The outer loop, where no line with the tag began before `i`. -/
theorem statusAtFrom_spec (hn : n = count - 8 - i) (hb : count ≤ b.length)
    (hfirst : ∀ k < i, ¬StartsGroups (b.take count) k) :
    ∃ r, statusAtFrom b count n i = some r ∧ ∀ j, r = some j ↔ EndsGroups (b.take count) j := by
  induction n generalizing i with
  | zero =>
    refine ⟨none, rfl, fun j => ⟨fun h => (by cases h), fun h => ?_⟩⟩
    obtain ⟨p, hpj, hp, -, -⟩ := h.line
    have hip : i ≤ p := by
      by_contra hlt
      exact hfirst p (by omega) hp
    have := hp.le_of_newline hpj h.newline
    have := h.lt
    omega
  | succ n ih =>
    rw [statusAtFrom, groupsAt_eq (by omega) hb, Option.bind_some]
    by_cases hi : StartsGroups (b.take count) i
    · rw [decide_eq_true hi, if_pos rfl]
      obtain ⟨r, hr, hspec⟩ := lineEnd_spec (i := i + 1) (n := count - (i + 1)) (by omega) hb
      exact ⟨r, hr, fun j => (hspec j).trans (endsGroups_iff hi hfirst).symm⟩
    · rw [decide_eq_false hi, if_neg Bool.false_ne_true]
      refine ih (by omega) fun k hk => ?_
      rcases Nat.lt_succ_iff_lt_or_eq.1 hk with hlt | rfl
      · exact hfirst k hlt
      · exact hi

/-- **The search** reads below `count` and finds the place, if there is one. -/
theorem statusAt_spec (hb : count ≤ b.length) :
    ∃ r, statusAt b count = some r ∧ ∀ j, r = some j ↔ EndsGroups (b.take count) j :=
  statusAtFrom_spec (Nat.sub_zero _).symm hb fun _ hk => absurd hk (Nat.not_lt_zero _)

/-! ## The frame -/

/-- There is room for `n` bytes, and a line to put them after. -/
structure Room (pageSize : ℕ) (m : SeqFile) (n : ℕ) : Prop where
  sane : Sane pageSize m
  anchor : ∃ j, EndsGroups m.content j
  fits : m.count + n ≤ m.size

theorem content_eq (hb : m.buf = some b) : m.content = b.take m.count := by
  rw [SeqFile.content, hb]
  rfl

/-- The file with the block before the newline at `j`. -/
theorem spliceFile_spec (block : List UInt8) (hb : m.buf = some b) (hj : j ≤ m.count)
    (hfits : m.count + block.length ≤ m.size) :
    ∃ m', spliceFile m b hb j block = some m' ∧ m'.count = m.count + block.length ∧
      m'.size = m.size ∧ m'.content = m.content.take j ++ block ++ m.content.drop j := by
  have hlen := m.length_buf b hb
  obtain ⟨b₁, b₂, h₁, h₂, htake⟩ := store_store_take (b := b) block hj (by omega)
  have hsplice : splice b m.count j block = some b₂ := by
    rw [splice, load_eq (by omega), Option.bind_some, h₁, Option.bind_some, h₂]
  unfold spliceFile
  split
  · next h => rw [hsplice] at h; cases h
  · next b' h =>
    obtain rfl : b₂ = b' := by
      rw [hsplice] at h
      exact Option.some.inj h
    refine ⟨_, rfl, rfl, rfl, ?_⟩
    rw [content_eq hb, ← htake]
    rfl

/-- Every way out of the insertion. -/
theorem insertBlock_cases (pageSize : ℕ) (fl : Flags) (m : SeqFile) (block : List UInt8) :
    (∃ fl', insertBlock pageSize fl m (some block) = some ⟨false, m, fl'⟩ ∧
      ¬(block ≠ [] ∧ Room pageSize m block.length)) ∨
    ∃ m' j, insertBlock pageSize fl m (some block) = some ⟨true, m', fl⟩ ∧
      block ≠ [] ∧ Room pageSize m block.length ∧ EndsGroups m.content j ∧
      m'.count = m.count + block.length ∧ m'.size = m.size ∧
      m'.content = m.content.take j ++ block ++ m.content.drop j := by
  unfold insertBlock
  dsimp only
  by_cases hnil : block.length = 0
  · rw [if_pos hnil]
    exact .inl ⟨fl, rfl, fun h => h.1 (List.length_eq_zero_iff.1 hnil)⟩
  rw [if_neg hnil]
  by_cases hsane : Sane pageSize m
  swap
  · rw [if_neg hsane]
    exact .inl ⟨_, rfl, fun h => hsane h.2.sane⟩
  rw [if_pos hsane]
  split
  · next hb =>
    have := hsane.1
    rw [hb] at this
    cases this
  next b hb =>
  have hcount : m.count ≤ b.length := (m.length_buf b hb).symm ▸ hsane.2.1
  obtain ⟨r, hr, hspec⟩ := statusAt_spec hcount
  rw [← content_eq hb] at hspec
  rw [hr, Option.bind_some]
  rcases r with _ | j
  · refine .inl ⟨fl, rfl, fun h => ?_⟩
    obtain ⟨j, hj⟩ := h.2.anchor
    cases (hspec j).2 hj
  have hj : EndsGroups m.content j := (hspec j).1 rfl
  dsimp only
  by_cases hfits : m.size < m.count + block.length
  · rw [if_pos hfits]
    exact .inl ⟨fl, rfl, fun h => absurd h.2.fits (by omega)⟩
  rw [if_neg hfits]
  have hjc : j < m.count := by
    rw [content_eq hb] at hj
    exact hj.lt
  obtain ⟨m', hm', hcount', hsize', hcontent⟩ :=
    spliceFile_spec block hb hjc.le (by omega)
  rw [hm', Option.map_some]
  exact .inr ⟨m', j, rfl, fun h => hnil (h ▸ rfl), ⟨hsane, ⟨j, hj⟩, by omega⟩, hj, hcount', hsize',
    hcontent⟩

/-- **Frame and bounds.**  For every buffer and every block the insertion stays
    inside of the bounds.  If it succeeds the block is before the newline that
    ends the first line after the first one that starts with the tag, the text
    before and after it is what it was, and the count has grown by its length and
    is within the size; if it fails the file is what it was. -/
theorem insert_frame (pageSize : ℕ) (fl : Flags) (m : SeqFile) (block : List UInt8) :
    ∃ r, insertBlock pageSize fl m (some block) = some r ∧
      (r.ok = true ↔ block ≠ [] ∧ Room pageSize m block.length) ∧
      (r.ok = true → ∃ j, EndsGroups m.content j ∧
        r.file.content = m.content.take j ++ block ++ m.content.drop j ∧
        r.file.count = m.count + block.length ∧ r.file.count ≤ r.file.size ∧
        r.file.size = m.size) ∧
      (r.ok = false → r.file = m) := by
  rcases insertBlock_cases pageSize fl m block with
    ⟨fl', h, hno⟩ | ⟨m', j, h, hne, hroom, hj, hcount, hsize, hcontent⟩
  · exact ⟨_, h, iff_of_false Bool.false_ne_true hno, fun hok => (by cases hok), fun _ => rfl⟩
  · refine ⟨_, h, iff_of_true rfl ⟨hne, hroom⟩, fun _ => ?_, fun hok => (by cases hok)⟩
    have hfits := hroom.fits
    exact ⟨j, hj, hcontent, hcount, by dsimp only; omega, hsize⟩

end DroidLkm.Status
