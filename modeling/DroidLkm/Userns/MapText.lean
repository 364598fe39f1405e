/-
  The texts of `uid_map` and `gid_map`.

  * `mapIsIdentity`: the parser of what is written, on the bytes before the NUL;
    `IdentityText` is what it accepts, and `mapSums` what it computes on the way
    (`mapIsIdentity_iff`);
  * `mapText`: what is read, cut off where the buffer ends;
  * `mapRead`, `mapWrite`: the two calls, on the memory of the process;
  * `mapWrite_iff`: when a write is accepted;
  * `written_back`: a text that was read is accepted if and only if the map is the
    identity.
-/
import DroidLkm.Lib.Decimal
import DroidLkm.Misc.ReadText
import DroidLkm.Userns.Map

namespace DroidLkm.Userns

open Decimal Msg.Segments

/-! ## The parser -/

def SPACE : UInt8 := 32

def TAB : UInt8 := 9

def NEWLINE : UInt8 := 10

def isBlank (c : UInt8) : Bool := c == SPACE || c == TAB

def isSpace (c : UInt8) : Bool := isBlank c || c == NEWLINE

/-- The loop over the digits of a number: `v[i]`, the count of the digits and the
    rest of the text. -/
def mapDigits (v digits : ℕ) : List UInt8 → Option (ℕ × ℕ × List UInt8)
  | [] => some (v, digits, [])
  | c :: s =>
    if c ≥ 48 ∧ c ≤ 57 then
      let v := (v * 10 + (c.toNat - 48)) % 2 ^ 64
      if v > 4294967295 then none else mapDigits v (digits + 1) s
    else some (v, digits, c :: s)

/-- What `v[i] * 10 + (*s - '0')` comes to in the passes of that loop, in exact numbers. -/
def digitSums (v : ℕ) : List UInt8 → List ℕ
  | [] => []
  | c :: s =>
    if c ≥ 48 ∧ c ≤ 57 then
      let sum := v * 10 + (c.toNat - 48)
      let v := sum % 2 ^ 64
      sum :: if v > 4294967295 then [] else digitSums v s
    else []

/-- One pass of the loop over the numbers. -/
def mapNumber (s : List UInt8) : Option (ℕ × List UInt8) :=
  match mapDigits 0 0 (s.dropWhile isBlank) with
  | none => none
  | some (v, digits, s) => if digits = 0 then none else some (v, s)

def mapNumbers : ℕ → List UInt8 → Option (List ℕ × List UInt8)
  | 0, s => some ([], s)
  | i + 1, s => (mapNumber s).bind fun r => (mapNumbers i r.2).map fun t => (r.1 :: t.1, t.2)

/-- The same for all of these loops. -/
def mapSums : ℕ → List UInt8 → List ℕ
  | 0, _ => []
  | i + 1, s => digitSums 0 (s.dropWhile isBlank) ++
      (mapNumber s).elim [] fun r => mapSums i r.2

/-- `droid_lkm_userns_map_is_identity` -/
def mapIsIdentity (text : List UInt8) : Bool :=
  match mapNumbers 3 text with
  | none => false
  | some (v, s) =>
    let s := s.dropWhile isSpace
    s.headD 0 == 0 && v == [0, 0, 4294967295]

/-! ## The files -/

def DROID_LKM_USERNS_MAP_TEXT : ℕ := 64

/-- `"%10u %10u %10u\n"` -/
def line (e : Extent) : List UInt8 :=
  padded 10 e.first.toNat ++ SPACE :: (padded 10 e.lowerFirst.toNat ++ SPACE ::
    (padded 10 e.count.toNat ++ [NEWLINE]))

/-- The loop of `droid_lkm_userns_map_text`; `text` is in the buffer by now. -/
def mapTextFrom (size : ℕ) (text : List UInt8) : IdMap → List UInt8
  | [] => text
  | e :: rest =>
    if e.count = 0 then mapTextFrom size text rest
    else mapTextFrom size (text ++ (line e).take (size - text.length - 1)) rest

/-- `droid_lkm_userns_map_text` -/
def mapText (map : IdMap) (size : ℕ) : List UInt8 := mapTextFrom size [] map

/-- A `struct user_namespace *`: the initial one, or one of this module's. -/
inductive UserNs
  | init
  | fake (addr : ℕ)
  deriving DecidableEq

/-- `droid_lkm_userns_map_read` -/
def mapRead (u : User) (ubuf count : ℕ) (pos : ℤ) (map : Option IdMap) : Misc.Outcome :=
  match map with
  | none => ⟨pos, u, - EIO, pos⟩
  | some map => Misc.readText u ubuf count pos (mapText map DROID_LKM_USERNS_MAP_TEXT)

/-- `droid_lkm_userns_map_write`: the result and the position. -/
def mapWrite (ns : Option UserNs) (u : User) (ubuf count : ℕ) (pos : ℤ) : ℤ × ℤ :=
  if pos ≠ 0 ∨ count ≥ DROID_LKM_USERNS_MAP_TEXT then (-EINVAL, pos)
  else if ns = none ∨ ns = some .init then (-EPERM, pos)
  else if count = 0 then (-EINVAL, pos)
  else match copyFromUser u ubuf count with
    | none => (-EFAULT, pos)
    | some text => if !mapIsIdentity text then (-EPERM, pos) else (count, pos + count)

variable {s t text blanks ds rest : List UInt8} {v n : ℕ} {vs : List ℕ} {c : UInt8}

/-! ## Numbers -/

def Blanks (bs : List UInt8) : Prop := ∀ b ∈ bs, isBlank b = true

def Digits (ds : List UInt8) : Prop := ∀ b ∈ ds, isDigit b = true

/-- The text does not go on with a digit. -/
def Stops (rest : List UInt8) : Prop := ∀ b ∈ rest.head?, isDigit b = false

/-- Digits that say `v`. -/
structure Says (ds : List UInt8) (v : ℕ) : Prop where
  digits : Digits ds
  nonempty : ds ≠ []
  value : value 0 ds = v

theorem digit_iff : (c ≥ 48 ∧ c ≤ 57) ↔ isDigit c = true := by
  simp [isDigit]

theorem isBlank_of_isDigit (h : isDigit c = true) : isBlank c = false := by
  have := isDigit_iff.1 h
  simp only [isBlank, SPACE, TAB, Bool.or_eq_false_iff, beq_eq_false_iff_ne]
  constructor <;> rintro rfl <;> simp at this

theorem isDigit_of_isBlank (h : isBlank c = true) : isDigit c = false := by
  cases hd : isDigit c with
  | false => rfl
  | true => simp [isBlank_of_isDigit hd] at h

/-- A search ends where its test fails first. -/
theorem dropWhile_stops {p : UInt8 → Bool} (h : ∀ b ∈ s.head?, p b = false) :
    s.dropWhile p = s ∧ s.takeWhile p = [] := by
  cases s with
  | nil => exact ⟨rfl, rfl⟩
  | cons c s => simp [h c (by simp)]

/-- The loop ends after the last digit; no number that it goes on with is too large, so
    none of them wraps. -/
theorem mapDigits_append (hd : Digits ds) (hr : Stops rest) (hv : v ≤ 4294967295) :
    mapDigits v n (ds ++ rest) =
      if value v ds ≤ 4294967295 then some (value v ds, n + ds.length, rest) else none := by
  induction ds generalizing v n with
  | nil =>
    rw [value_nil, if_pos hv]
    cases rest with
    | nil => rfl
    | cons c rest =>
      have hc : ¬(c ≥ 48 ∧ c ≤ 57) := by simp [digit_iff, hr c (by simp)]
      exact if_neg hc
  | cons c ds ih =>
    have hc : isDigit c = true := hd c List.mem_cons_self
    have hb := isDigit_iff.1 hc
    have hmod : (v * 10 + (c.toNat - 48)) % 2 ^ 64 = v * 10 + (c.toNat - 48) :=
      Nat.mod_eq_of_lt (by omega)
    rw [List.cons_append, mapDigits, if_pos (digit_iff.2 hc), value_cons]
    dsimp only
    rw [hmod]
    split
    · have hle : v * 10 + (c.toNat - 48) ≤ value (v * 10 + (c.toNat - 48)) ds := le_value
      rw [if_neg (by omega)]
    · rw [ih (fun b hb => hd b (List.mem_cons_of_mem _ hb)) (by omega)]
      simp [Nat.add_assoc, Nat.add_comm 1]

theorem digitSums_lt (hv : v ≤ 4294967295) : ∀ sum ∈ digitSums v s, sum < 2 ^ 64 := by
  induction s generalizing v with
  | nil => exact fun _ h => absurd h List.not_mem_nil
  | cons c s ih =>
    intro sum hsum
    rw [digitSums] at hsum
    split at hsum
    next hc =>
      have hb := isDigit_iff.1 (digit_iff.1 hc)
      dsimp only at hsum
      rcases List.mem_cons.1 hsum with rfl | hsum
      · omega
      · split at hsum
        · cases hsum
        next hle => exact ih (by omega) sum hsum
    next => cases hsum

theorem mapSums_lt : ∀ sum ∈ mapSums n s, sum < 2 ^ 64 := by
  induction n generalizing s with
  | zero => exact fun _ h => absurd h List.not_mem_nil
  | succ n ih =>
    intro sum hsum
    rcases List.mem_append.1 hsum with hsum | hsum
    · exact digitSums_lt (Nat.zero_le _) sum hsum
    · cases hnum : mapNumber s with
      | none =>
        rw [hnum] at hsum
        cases hsum
      | some r =>
        rw [hnum] at hsum
        exact ih sum hsum

theorem all_takeWhile (p : UInt8 → Bool) (s : List UInt8) : ∀ b ∈ s.takeWhile p, p b = true :=
  List.all_eq_true.1 List.all_takeWhile

theorem dropWhile_digits (s : List UInt8) : Stops (s.dropWhile isDigit) := by
  intro b hb
  have := List.head?_dropWhile_not isDigit s
  rwa [hb] at this

/-- What is read for a number are the blanks, and then the digits. -/
theorem mapNumber_eq (s : List UInt8) :
    mapNumber s =
      let ds := (s.dropWhile isBlank).takeWhile isDigit
      if ds ≠ [] ∧ value 0 ds ≤ 4294967295 then
        some (value 0 ds, (s.dropWhile isBlank).dropWhile isDigit)
      else none := by
  have h := mapDigits_append (n := 0) (all_takeWhile isDigit (s.dropWhile isBlank))
    (dropWhile_digits (s.dropWhile isBlank)) (Nat.zero_le _)
  rw [List.takeWhile_append_dropWhile] at h
  rw [mapNumber, h]
  dsimp only
  by_cases hne : (s.dropWhile isBlank).takeWhile isDigit = []
  · simp [hne]
  · by_cases hv : value 0 ((s.dropWhile isBlank).takeWhile isDigit) ≤ 4294967295
    · simp [hne, hv]
    · simp [hv]

theorem mapNumber_append (hb : Blanks blanks) (hs : Says ds v) (hv : v ≤ 4294967295)
    (hr : Stops rest) : mapNumber (blanks ++ (ds ++ rest)) = some (v, rest) := by
  obtain ⟨hd, hne, rfl⟩ := hs
  have hdrop : (blanks ++ (ds ++ rest)).dropWhile isBlank = ds ++ rest := by
    rw [List.dropWhile_append_of_pos hb]
    refine (dropWhile_stops fun b hb => ?_).1
    cases ds with
    | nil => exact absurd rfl hne
    | cons c ds =>
      obtain rfl : c = b := by simpa using hb
      exact isBlank_of_isDigit (hd c List.mem_cons_self)
  rw [mapNumber_eq, hdrop]
  simp [List.takeWhile_append_of_pos hd, List.dropWhile_append_of_pos hd,
    (dropWhile_stops hr).1, (dropWhile_stops hr).2, hne, hv]

theorem mapNumber_some (h : mapNumber s = some (v, rest)) :
    ∃ blanks ds, s = blanks ++ (ds ++ rest) ∧ Blanks blanks ∧ Says ds v ∧ Stops rest := by
  rw [mapNumber_eq] at h
  dsimp only at h
  split at h
  · next hne =>
    obtain ⟨rfl, rfl⟩ := Prod.mk.inj (Option.some.inj h)
    exact ⟨s.takeWhile isBlank, _, by simp, all_takeWhile isBlank s,
      ⟨all_takeWhile isDigit _, hne.1, rfl⟩, dropWhile_digits _⟩
  · cases h

theorem mapNumbers_succ : mapNumbers (n + 1) s = some (vs, rest) ↔
    ∃ v t ws, mapNumber s = some (v, t) ∧ mapNumbers n t = some (ws, rest) ∧ vs = v :: ws := by
  constructor
  · intro h
    obtain ⟨⟨v, t⟩, hv, h⟩ := Option.bind_eq_some_iff.1 h
    obtain ⟨⟨ws, r⟩, hws, h⟩ := Option.map_eq_some_iff.1 h
    obtain ⟨rfl, rfl⟩ := Prod.mk.inj h
    exact ⟨v, t, ws, hv, hws, rfl⟩
  · rintro ⟨v, t, ws, hv, hws, rfl⟩
    simp [mapNumbers, hv, hws]

/-! ## What is accepted -/

/-- Three numbers with blanks between them, 0, 0 and 4294967295, and after them blanks
    and ends of lines; what follows a NUL does not matter. -/
def IdentityText (text : List UInt8) : Prop :=
  ∃ b₀ d₀ b₁ d₁ b₂ d₂ tail rest,
    text = b₀ ++ (d₀ ++ (b₁ ++ (d₁ ++ (b₂ ++ (d₂ ++ (tail ++ rest)))))) ∧
      Blanks b₀ ∧ Blanks b₁ ∧ b₁ ≠ [] ∧ Blanks b₂ ∧ b₂ ≠ [] ∧
      Says d₀ 0 ∧ Says d₁ 0 ∧ Says d₂ 4294967295 ∧
      (∀ c ∈ tail, isSpace c = true) ∧ rest.headD 0 = 0

/-- What stops a number before another one is a blank. -/
theorem blanks_ne_nil (hs : Says ds v) (h : Stops (blanks ++ (ds ++ rest))) : blanks ≠ [] := by
  rintro rfl
  obtain ⟨hd, hne, -⟩ := hs
  cases ds with
  | nil => exact hne rfl
  | cons c ds =>
    have hc := h c (by simp)
    rw [hd c List.mem_cons_self] at hc
    cases hc

theorem stops_of_blanks (hb : Blanks blanks) (hne : blanks ≠ []) : Stops (blanks ++ s) := by
  cases blanks with
  | nil => exact absurd rfl hne
  | cons c bs =>
    intro b h
    obtain rfl : c = b := by simpa using h
    exact isDigit_of_isBlank (hb c List.mem_cons_self)

theorem stops_of_end (ht : ∀ c ∈ s, isSpace c = true) (hr : rest.headD 0 = 0) :
    Stops (s ++ rest) ∧ ∀ b ∈ rest.head?, isSpace b = false := by
  have hrest : ∀ b ∈ rest.head?, b = 0 := by
    intro b hb
    cases rest with
    | nil => cases hb
    | cons c rest => simp_all
  refine ⟨fun b hb => ?_, fun b hb => by rw [hrest b hb]; decide⟩
  cases s with
  | nil =>
    rw [hrest b hb]
    decide
  | cons c s =>
    obtain rfl : c = b := by simpa using hb
    have hc := ht c List.mem_cons_self
    simp only [isSpace, Bool.or_eq_true, beq_iff_eq] at hc
    rcases hc with hc | rfl
    · exact isDigit_of_isBlank hc
    · decide

/-- What is accepted is in the grammar. -/
theorem identityText_of_mapIsIdentity (h : mapIsIdentity text = true) : IdentityText text := by
  unfold mapIsIdentity at h
  split at h
  · cases h
  next vs s hs =>
  simp only [Bool.and_eq_true, beq_iff_eq] at h
  obtain ⟨v₀, t₀, _, h₀, hs₀, rfl⟩ := mapNumbers_succ.1 hs
  obtain ⟨v₁, t₁, _, h₁, hs₁, rfl⟩ := mapNumbers_succ.1 hs₀
  obtain ⟨v₂, t₂, _, h₂, hs₂, rfl⟩ := mapNumbers_succ.1 hs₁
  obtain ⟨rfl, rfl⟩ := Prod.mk.inj (Option.some.inj hs₂)
  obtain ⟨hend, hv⟩ := h
  obtain ⟨rfl, rfl, rfl⟩ : v₀ = 0 ∧ v₁ = 0 ∧ v₂ = 4294967295 := by simpa using hv
  obtain ⟨b₀, d₀, rfl, hb₀, hd₀, hr₀⟩ := mapNumber_some h₀
  obtain ⟨b₁, d₁, rfl, hb₁, hd₁, hr₁⟩ := mapNumber_some h₁
  obtain ⟨b₂, d₂, rfl, hb₂, hd₂, -⟩ := mapNumber_some h₂
  refine ⟨b₀, d₀, b₁, d₁, b₂, d₂, t₂.takeWhile isSpace, t₂.dropWhile isSpace, ?_, hb₀, hb₁,
    blanks_ne_nil hd₁ hr₀, hb₂, blanks_ne_nil hd₂ hr₁, hd₀, hd₁, hd₂, all_takeWhile _ _, hend⟩
  rw [List.takeWhile_append_dropWhile]

/-- What is in the grammar is accepted. -/
theorem mapIsIdentity_of_identityText : IdentityText text → mapIsIdentity text = true := by
  rintro ⟨b₀, d₀, b₁, d₁, b₂, d₂, tail, rest, rfl, hb₀, hb₁, hn₁, hb₂, hn₂, hd₀, hd₁, hd₂, ht,
    hr⟩
  have hstop := stops_of_end ht hr
  have h₂ := mapNumber_append hb₂ hd₂ (Nat.le_refl _) hstop.1
  have h₁ : mapNumber (b₁ ++ (d₁ ++ (b₂ ++ (d₂ ++ (tail ++ rest))))) = some (0, _) :=
    mapNumber_append hb₁ hd₁ (Nat.zero_le _) (stops_of_blanks hb₂ hn₂)
  have h₀ : mapNumber (b₀ ++ (d₀ ++ (b₁ ++ (d₁ ++ (b₂ ++ (d₂ ++ (tail ++ rest))))))) =
      some (0, _) :=
    mapNumber_append hb₀ hd₀ (Nat.zero_le _) (stops_of_blanks hb₁ hn₁)
  have hdrop : (tail ++ rest).dropWhile isSpace = rest := by
    rw [List.dropWhile_append_of_pos ht, (dropWhile_stops hstop.2).1]
  have hs : mapNumbers 3 _ = some _ := mapNumbers_succ.2 ⟨_, _, _, h₀, mapNumbers_succ.2
    ⟨_, _, _, h₁, mapNumbers_succ.2 ⟨_, _, _, h₂, rfl, rfl⟩, rfl⟩, rfl⟩
  unfold mapIsIdentity
  rw [hs]
  change ((tail ++ rest).dropWhile isSpace).headD 0 == 0 && _
  rw [hdrop, hr]
  rfl

/-- **The grammar of the map files**, in the parser of which nothing wraps. -/
theorem mapIsIdentity_iff (text : List UInt8) :
    (mapIsIdentity text = true ↔ IdentityText text) ∧ ∀ sum ∈ mapSums 3 text, sum < 2 ^ 64 :=
  ⟨⟨identityText_of_mapIsIdentity, mapIsIdentity_of_identityText⟩, mapSums_lt⟩

/-- The write is one that a map can be set with. -/
structure Accepted (ns : Option UserNs) (u : User) (ubuf count : ℕ) (pos : ℤ) : Prop where
  start : pos = 0
  pos : 0 < count
  short : count < DROID_LKM_USERNS_MAP_TEXT
  fake : ∃ addr, ns = some (.fake addr)
  text : ∃ text, copyFromUser u ubuf count = some text ∧ IdentityText text

theorem mapWrite_accepted (ha : Accepted ns u ubuf count pos) :
    mapWrite ns u ubuf count pos = ((count : ℤ), (count : ℤ)) := by
  obtain ⟨hpos, h0, hshort, ⟨addr, rfl⟩, text, htext, hgram⟩ := ha
  have hstart : ¬(pos ≠ 0 ∨ count ≥ DROID_LKM_USERNS_MAP_TEXT) := by omega
  unfold mapWrite
  rw [if_neg hstart, if_neg (by simp), if_neg (by omega), htext]
  simp [mapIsIdentity_of_identityText hgram, hpos]

theorem mapWrite_refused (hn : ¬Accepted ns u ubuf count pos) :
    (mapWrite ns u ubuf count pos).1 < 0 ∧ (mapWrite ns u ubuf count pos).2 = pos := by
  unfold mapWrite
  split
  next h => exact ⟨by simp [EINVAL], rfl⟩
  next h =>
  split
  next hns => exact ⟨by simp [EPERM], rfl⟩
  next hns =>
  split
  next hc => exact ⟨by simp [EINVAL], rfl⟩
  next hc =>
  have hfake : ∃ addr, ns = some (.fake addr) := by
    rcases ns with _ | _ | addr
    · simp at hns
    · simp at hns
    · exact ⟨addr, rfl⟩
  cases htext : copyFromUser u ubuf count with
  | none => exact ⟨by simp [EFAULT], rfl⟩
  | some text =>
    cases hid : mapIsIdentity text with
    | false => exact ⟨by simp [hid, EPERM], by simp [hid]⟩
    | true =>
      exact absurd ⟨by omega, by omega, by omega, hfake, text, htext,
        identityText_of_mapIsIdentity hid⟩ hn

/-- **Writes.**  A write is taken whole or refused, and then the position stays. -/
theorem mapWrite_iff (ns : Option UserNs) (u : User) (ubuf count : ℕ) (pos : ℤ) :
    (Accepted ns u ubuf count pos ∧ mapWrite ns u ubuf count pos = ((count : ℤ), (count : ℤ))) ∨
      ¬Accepted ns u ubuf count pos ∧ (mapWrite ns u ubuf count pos).1 < 0 ∧
        (mapWrite ns u ubuf count pos).2 = pos := by
  by_cases ha : Accepted ns u ubuf count pos
  · exact .inl ⟨ha, mapWrite_accepted ha⟩
  · exact .inr ⟨ha, mapWrite_refused ha⟩

/-! ## There and back -/

theorem length_line (e : Extent) : (line e).length = 33 := by
  have h (x : Id) : (padded 10 x.toNat).length = 10 :=
    length_padded (by decide) (by have := x.isLt; omega)
  simp [line, h]

/-- Cutting off a piece that does not fit changes nothing of what fits. -/
theorem take_cut (h : text.length ≤ n) :
    (text ++ s.take (n - text.length) ++ t).take n = (text ++ s ++ t).take n := by
  by_cases hs : s.length ≤ n - text.length
  · rw [List.take_of_length_le hs]
  · have hl : (text ++ s.take (n - text.length)).length = n := by
      simp
      omega
    rw [List.take_append_of_le_length (by omega), List.take_of_length_le (by omega),
      List.take_append_of_le_length (by simp; omega), List.take_append, List.take_of_length_le h]

/-- The text is that of the extents that are not empty, as far as the buffer goes. -/
theorem mapText_eq (map : IdMap) {size : ℕ} (hs : 0 < size) :
    mapText map size = ((map.filter (·.count ≠ 0)).flatMap line).take (size - 1) := by
  have hgen : ∀ text : List UInt8, text.length ≤ size - 1 → mapTextFrom size text map =
      (text ++ (map.filter (·.count ≠ 0)).flatMap line).take (size - 1) := by
    induction map with
    | nil =>
      intro text hl
      simp [mapTextFrom, List.take_of_length_le hl]
    | cons e rest ih =>
      intro text hl
      by_cases hc : e.count = 0
      · simp [mapTextFrom, hc, ih text hl]
      · have hk : size - text.length - 1 = size - 1 - text.length := by omega
        have hl' : (text ++ (line e).take (size - 1 - text.length)).length ≤ size - 1 := by
          simp
          omega
        rw [mapTextFrom, if_neg hc, hk, ih _ hl', List.filter_cons_of_pos (by simpa using hc),
          List.flatMap_cons, take_cut hl, List.append_assoc]
  exact hgen [] (Nat.zero_le _)

theorem says_numeral (n : ℕ) : Says (numeral n) n :=
  ⟨fun _ hb => isDigit_of_mem_numeral hb, numeral_ne_nil, value_numeral⟩

theorem blanks_replicate (n : ℕ) : Blanks (List.replicate n 32) := by
  intro b hb
  rw [List.eq_of_mem_replicate hb]
  decide

theorem mapNumber_padded {w : ℕ} {x : Id} (hs : Stops s) :
    mapNumber (padded w x.toNat ++ s) = some (x.toNat, s) := by
  rw [padded, List.append_assoc]
  exact mapNumber_append (blanks_replicate _) (says_numeral _) (by have := x.isLt; omega) hs

theorem mapNumber_space (s : List UInt8) : mapNumber (SPACE :: s) = mapNumber s := by
  rw [mapNumber, mapNumber, List.dropWhile_cons_of_pos (by decide)]

theorem stops_cons (hc : isDigit c = false) : Stops (c :: s) := by
  intro b hb
  obtain rfl : c = b := by simpa using hb
  exact hc

/-- The parser takes one line for the three numbers in it. -/
theorem mapNumbers_line (e : Extent) (s : List UInt8) :
    mapNumbers 3 (line e ++ s) =
      some ([e.first.toNat, e.lowerFirst.toNat, e.count.toNat], NEWLINE :: s) := by
  have hs (s : List UInt8) : Stops (SPACE :: s) := stops_cons (by decide)
  have hn (s : List UInt8) : Stops (NEWLINE :: s) := stops_cons (by decide)
  simp [line, mapNumbers, mapNumber_padded, mapNumber_space, hs, hn]

/-- Text after the line, and not only blanks and ends of lines, is not accepted. -/
theorem mapIsIdentity_line (e : Extent) (s : List UInt8) :
    mapIsIdentity (line e ++ s) = true ↔
      (s.dropWhile isSpace).headD 0 = 0 ∧ e = ⟨0, 0, 4294967295⟩ := by
  have hdrop : (NEWLINE :: s).dropWhile isSpace = s.dropWhile isSpace :=
    List.dropWhile_cons_of_pos (by decide)
  have he : e = ⟨0, 0, 4294967295⟩ ↔
      e.first.toNat = 0 ∧ e.lowerFirst.toNat = 0 ∧ e.count.toNat = 4294967295 := by
    constructor
    · rintro rfl
      decide
    · rintro ⟨h₁, h₂, h₃⟩
      cases e
      simp only [Extent.mk.injEq]
      exact ⟨BitVec.eq_of_toNat_eq h₁, BitVec.eq_of_toNat_eq h₂, BitVec.eq_of_toNat_eq h₃⟩
  simp only [mapIsIdentity, mapNumbers_line, hdrop, he, Bool.and_eq_true, beq_iff_eq,
    List.cons.injEq, and_true]

theorem isSpace_of_isDigit (h : isDigit c = true) : isSpace c = false ∧ c ≠ 0 := by
  have hn : c ≠ NEWLINE ∧ c ≠ 0 := by
    constructor <;> rintro rfl <;> revert h <;> decide
  simp [isSpace, isBlank_of_isDigit h, hn]

/-- A number is not skipped. -/
theorem headD_padded {w : ℕ} : (((padded w n ++ s).dropWhile isSpace).headD 0) ≠ 0 := by
  have hb : ∀ b ∈ List.replicate (w - (numeral n).length) (32 : UInt8), isSpace b = true := by
    intro b hb
    rw [List.eq_of_mem_replicate hb]
    decide
  rw [padded, List.append_assoc, List.dropWhile_append_of_pos hb]
  have hd : Digits (numeral n) := fun _ h => isDigit_of_mem_numeral h
  cases hnum : numeral n with
  | nil => exact absurd hnum numeral_ne_nil
  | cons c ds =>
    have hc := isSpace_of_isDigit (hd c (by simp [hnum]))
    rw [List.cons_append, List.dropWhile_cons_of_neg (by simp [hc.1])]
    exact hc.2

theorem accepts_lines (l : IdMap) :
    mapIsIdentity ((l.flatMap line).take 63) = true ↔ l = identity := by
  rcases l with _ | ⟨e, _ | ⟨f, rest⟩⟩
  · simp only [identity]
    decide
  · have hl := length_line e
    have h := mapIsIdentity_line e []
    rw [List.append_nil] at h
    rw [List.flatMap_singleton, List.take_of_length_le (by omega), h]
    simp [identity]
  · have hl := length_line e
    have hp : (padded 10 f.first.toNat).length = 10 :=
      length_padded (by decide) (by have := f.first.isLt; omega)
    -- what is left of the second line has the first number in it
    have htake : ∃ s, (List.flatMap line (e :: f :: rest)).take 63 =
        line e ++ (padded 10 f.first.toNat ++ s) := by
      obtain ⟨t, hf⟩ : ∃ t, line f = padded 10 f.first.toNat ++ t := ⟨_, rfl⟩
      rw [List.flatMap_cons, List.flatMap_cons, List.take_append, List.take_of_length_le (by omega),
        hl, hf, List.append_assoc, List.take_append, List.take_of_length_le (by omega)]
      exact ⟨_, rfl⟩
    obtain ⟨s, hs⟩ := htake
    rw [hs, mapIsIdentity_line]
    exact ⟨fun h => absurd h.1 headD_padded, nofun⟩

/-- **Parser and printer.**  The text of a map is accepted if and only if the map is the
    identity, but for extents that are empty. -/
theorem accepts_mapText (map : IdMap) :
    mapIsIdentity (mapText map DROID_LKM_USERNS_MAP_TEXT) = true ↔
      map.filter (·.count ≠ 0) = identity := by
  rw [mapText_eq map (by decide)]
  exact accepts_lines _

/-- **Written back.**  What one read from the start has put into a buffer of a text's size
    is accepted from there if and only if the file is that of one of this module's
    namespaces and the map is the identity, but for extents that are empty. -/
theorem written_back (ns : Option UserNs) (u : User) (ubuf count : ℕ) (map : IdMap)
    (hc : DROID_LKM_USERNS_MAP_TEXT ≤ count) (hmap : ∀ i < count, (u (ubuf + i)).isSome) :
    let r := mapRead u ubuf count 0 (some map)
    mapWrite ns r.mem ubuf r.ret.toNat 0 = (r.ret, r.ret) ↔
      (∃ addr, ns = some (.fake addr)) ∧ map.filter (·.count ≠ 0) = identity := by
  intro r
  obtain ⟨text, htext⟩ : ∃ text, text = mapText map DROID_LKM_USERNS_MAP_TEXT := ⟨_, rfl⟩
  have hlen : text.length < DROID_LKM_USERNS_MAP_TEXT := by
    rw [htext, mapText_eq map (by decide), List.length_take]
    exact Nat.lt_of_le_of_lt (Nat.min_le_left _ _) (by decide)
  have hstart : (0 : ℕ) = 0 ∨ text.length ≤ 0 ∨ count = 0 := .inl rfl
  obtain ⟨v, hr, -, hread⟩ := Misc.readText_served hstart hmap
  rw [Nat.sub_zero, Nat.min_eq_right (by omega)] at hr hread
  rw [List.drop_zero, List.take_length] at hread
  have hret : r.mem = v ∧ r.ret = text.length := by
    have : r = Misc.readText u ubuf count (0 : ℕ) text := by
      rw [htext]
      rfl
    rw [this, hr]
    exact ⟨rfl, rfl⟩
  rw [hret.1, hret.2, Int.toNat_natCast, ← accepts_mapText, ← htext]
  have hiff : Accepted ns v ubuf text.length 0 ↔
      (∃ addr, ns = some (.fake addr)) ∧ mapIsIdentity text = true := by
    constructor
    · intro ha
      obtain ⟨text', htext', hgram⟩ := ha.text
      rw [hread, Option.some.injEq] at htext'
      exact ⟨ha.fake, mapIsIdentity_of_identityText (htext' ▸ hgram)⟩
    · rintro ⟨hfake, hid⟩
      refine ⟨rfl, List.length_pos_of_ne_nil ?_, hlen, hfake, text, hread,
        identityText_of_mapIsIdentity hid⟩
      rintro rfl
      revert hid
      decide
  rw [← hiff]
  refine ⟨fun he => ?_, mapWrite_accepted⟩
  by_contra hn
  have hneg := (mapWrite_refused hn).1
  rw [he] at hneg
  simp at hneg
  omega

/-- The identity is read and written back. -/
theorem written_back_identity :
    let r := mapRead (fun _ => some 0) 64 64 0 (some identity)
    mapWrite (some (.fake 1)) r.mem 64 r.ret.toNat 0 = (r.ret, r.ret) :=
  (written_back _ _ 64 64 identity (Nat.le_refl _) fun _ _ => rfl).2 ⟨⟨1, rfl⟩, by decide⟩

end DroidLkm.Userns
