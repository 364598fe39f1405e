/-
  Memory images, and scans for a marker.

  An image gives the byte at each address that can be read; addresses have 64
  bits.

  * `rd m a n`: the `n` bytes at `a` as a number, low byte first;
  * `ofWords`: the image of a list of words, and what is read from it;
  * `scan hit n`: the only place below `n` that is a hit, found in one pass.
-/
import Mathlib.Algebra.Order.Ring.Nat
import Mathlib.Tactic.ByContra

/-- The byte at each address, where it can be read. -/
abbrev Image := ℕ → Option UInt8

namespace Image

/-- The number in the `n` bytes at `a`, unless one of them cannot be read. -/
def rd (m : Image) (a : ℕ) : ℕ → Option ℕ
  | 0 => some 0
  | n + 1 => (m (a % 2 ^ 64)).bind fun b => (rd m (a + 1) n).map fun v => b.toNat + 256 * v

/-- The image whose words of 8 bytes are given, word by word. -/
def ofWords (w : ℕ → ℕ) : Image := fun a => some (UInt8.ofNat (w (a / 8) / 2 ^ (8 * (a % 8))))

variable {w : ℕ → ℕ} {k : ℕ}

theorem ofWords_byte (w : ℕ → ℕ) {k j : ℕ} (hj : j < 8) (hk : 8 * k + j < 2 ^ 64) :
    ofWords w ((8 * k + j) % 2 ^ 64) = some (UInt8.ofNat (w k / 2 ^ (8 * j))) := by
  unfold ofWords
  rw [Nat.mod_eq_of_lt hk]
  congr 3
  · congr 1
    omega
  · congr 2
    omega

/-- A whole word. -/
theorem rd_ofWords (hk : 8 * k + 8 ≤ 2 ^ 64) (hw : w k < 2 ^ 64) :
    rd (ofWords w) (8 * k) 8 = some (w k) := by
  have h : ∀ j < 8, ofWords w ((8 * k + j) % 2 ^ 64) =
      some (UInt8.ofNat (w k / 2 ^ (8 * j))) := fun j hj => ofWords_byte w hj (by omega)
  have h₀ : ofWords w (8 * k % 2 ^ 64) = some (UInt8.ofNat (w k / 2 ^ (8 * 0))) :=
    h 0 (by decide)
  simp only [rd, h₀, h 1 (by decide), h 2 (by decide), h 3 (by decide), h 4 (by decide),
    h 5 (by decide), h 6 (by decide), h 7 (by decide), Nat.add_assoc, Nat.reduceAdd,
    Option.bind_some, Option.map_some, UInt8.toNat_ofNat', Option.some.injEq]
  simp only [Nat.reduceMul, Nat.reducePow]
  omega

/-- Half of a word. -/
theorem rd_ofWords_half (hk : 8 * k + 8 ≤ 2 ^ 64) {i : ℕ} (hi : i < 2) :
    rd (ofWords w) (8 * k + 4 * i) 4 = some (w k / 2 ^ (32 * i) % 2 ^ 32) := by
  have h : ∀ j < 8, ofWords w ((8 * k + j) % 2 ^ 64) =
      some (UInt8.ofNat (w k / 2 ^ (8 * j))) := fun j hj => ofWords_byte w hj (by omega)
  have h₀ : ofWords w (8 * k % 2 ^ 64) = some (UInt8.ofNat (w k / 2 ^ (8 * 0))) :=
    h 0 (by decide)
  have hcases : i = 0 ∨ i = 1 := by omega
  rcases hcases with rfl | rfl
  · simp only [rd, Nat.mul_zero, Nat.add_zero, h₀, h 1 (by decide), h 2 (by decide),
      h 3 (by decide), Nat.add_assoc, Nat.reduceAdd, Option.bind_some, Option.map_some,
      UInt8.toNat_ofNat', Option.some.injEq]
    simp only [Nat.reduceMul, Nat.reducePow]
    omega
  · simp only [rd, Nat.mul_one, h 4 (by decide), h 5 (by decide), h 6 (by decide),
      h 7 (by decide), Nat.add_assoc, Nat.reduceAdd, Option.bind_some, Option.map_some,
      UInt8.toNat_ofNat', Option.some.injEq]
    simp only [Nat.reduceMul, Nat.reducePow]
    omega

/-! ## Scans -/

/-- From the place `j` on, `n` places, with what was found so far; a second hit
    ends the scan without a result. -/
def scanFrom (hit : ℕ → Bool) : ℕ → ℕ → Option ℕ → Option ℕ
  | 0, _, at? => at?
  | n + 1, j, at? =>
    if hit j then
      match at? with
      | some _ => none
      | none => scanFrom hit n (j + 1) (some j)
    else scanFrom hit n (j + 1) at?

/-- The only hit below `n`. -/
def scan (hit : ℕ → Bool) (n : ℕ) : Option ℕ := scanFrom hit n 0 none

variable {hit hit' : ℕ → Bool} {n i j : ℕ}

theorem scanFrom_congr {at? : Option ℕ} (h : ∀ q, j ≤ q → q < j + n → hit q = hit' q) :
    scanFrom hit n j at? = scanFrom hit' n j at? := by
  induction n generalizing j at? with
  | zero => rfl
  | succ n ih =>
    have hrest : ∀ at?, scanFrom hit n (j + 1) at? = scanFrom hit' n (j + 1) at? := fun at? =>
      ih fun q hjq hq => h q (by omega) (by omega)
    unfold scanFrom
    rw [h j (Nat.le_refl j) (by omega), hrest, hrest]

theorem scan_congr (h : ∀ q < n, hit q = hit' q) : scan hit n = scan hit' n :=
  scanFrom_congr fun q _ hq => h q (by omega)

/-- After a hit there must not be another. -/
theorem scanFrom_some {a : ℕ} : scanFrom hit n j (some a) = some i ↔
    i = a ∧ ∀ q, j ≤ q → q < j + n → hit q = false := by
  induction n generalizing j with
  | zero =>
    rw [scanFrom, Option.some.injEq]
    refine ⟨fun h => ⟨h.symm, ?_⟩, fun h => h.1.symm⟩
    intro q hjq hq
    omega
  | succ n ih =>
    unfold scanFrom
    split
    · next hj =>
      refine ⟨fun h => (by cases h), ?_⟩
      rintro ⟨-, h⟩
      rw [h j (Nat.le_refl j) (by omega)] at hj
      cases hj
    · next hj =>
      rw [ih]
      refine and_congr_right fun _ => ⟨?_, ?_⟩
      · intro h q hjq hq
        by_cases hqj : q = j
        · simpa [hqj] using hj
        · exact h q (by omega) (by omega)
      · intro h q hjq hq
        exact h q (by omega) (by omega)

theorem scanFrom_none : scanFrom hit n j none = some i ↔
    j ≤ i ∧ i < j + n ∧ hit i = true ∧ ∀ q, j ≤ q → q < j + n → hit q = true → q = i := by
  induction n generalizing j with
  | zero =>
    refine ⟨fun h => (by cases h), ?_⟩
    rintro ⟨hji, hi, -⟩
    omega
  | succ n ih =>
    unfold scanFrom
    split
    · next hj =>
      rw [scanFrom_some]
      constructor
      · rintro ⟨rfl, h⟩
        refine ⟨Nat.le_refl _, by omega, hj, ?_⟩
        intro q hjq hq hhit
        by_cases hqj : q = i
        · exact hqj
        · rw [h q (by omega) (by omega)] at hhit
          cases hhit
      · rintro ⟨-, -, -, h⟩
        have hij := h j (Nat.le_refl j) (by omega) hj
        refine ⟨hij.symm, ?_⟩
        intro q hjq hq
        by_cases hhit : hit q = true
        · have := h q (by omega) (by omega) hhit
          omega
        · simpa using hhit
    · next hj =>
      rw [ih]
      constructor
      · rintro ⟨hji, hi, hhit, h⟩
        refine ⟨by omega, by omega, hhit, ?_⟩
        intro q hjq hq hhitq
        by_cases hqj : q = j
        · rw [hqj] at hhitq
          exact absurd hhitq hj
        · exact h q (by omega) (by omega) hhitq
      · rintro ⟨hji, hi, hhit, h⟩
        have hne : i ≠ j := by
          rintro rfl
          exact hj hhit
        exact ⟨by omega, by omega, hhit, fun q hjq hq => h q (by omega) (by omega)⟩

/-- **The scan finds the only hit**, if there is one only. -/
theorem scan_eq_some : scan hit n = some i ↔
    i < n ∧ hit i = true ∧ ∀ q < n, hit q = true → q = i := by
  rw [scan, scanFrom_none]
  constructor
  · rintro ⟨-, hi, hhit, h⟩
    exact ⟨by omega, hhit, fun q hq => h q (Nat.zero_le q) (by omega)⟩
  · rintro ⟨hi, hhit, h⟩
    exact ⟨Nat.zero_le i, by omega, hhit, fun q _ hq => h q (by omega)⟩

/-- Places that are no hits do not matter. -/
theorem scan_widen {m : ℕ} (hm : m ≤ n) (hq : ∀ q, m ≤ q → hit q = false)
    (h : scan hit m = some i) : scan hit n = some i := by
  rw [scan_eq_some] at h ⊢
  obtain ⟨hi, hhit, huniq⟩ := h
  refine ⟨Nat.lt_of_lt_of_le hi hm, hhit, fun q _ hhitq => huniq q ?_ hhitq⟩
  by_contra hmq
  rw [hq q (not_lt.1 hmq)] at hhitq
  cases hhitq

end Image
