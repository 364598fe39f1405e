/-
  Decimal numbers as bytes.

  * `value v ds`: the number that the digits `ds` make, after those that made `v`;
  * `numeral n`: the digits of `n`, which read back as `n` (`value_numeral`);
  * `padded w n`: with blanks before it up to the width `w`.
-/
import Mathlib.Algebra.Order.Ring.Nat
import Mathlib.Tactic.Common

namespace Decimal

def isDigit (b : UInt8) : Bool := 48 ≤ b && b ≤ 57

def value (v : ℕ) (ds : List UInt8) : ℕ := ds.foldl (fun v b => v * 10 + (b.toNat - 48)) v

def numeral (n : ℕ) : List UInt8 := (Nat.toDigits 10 n).map fun c => UInt8.ofNat c.toNat

def padded (w n : ℕ) : List UInt8 :=
  List.replicate (w - (numeral n).length) 32 ++ numeral n

variable {v n : ℕ} {b : UInt8} {ds es : List UInt8}

theorem isDigit_iff : isDigit b = true ↔ 48 ≤ b.toNat ∧ b.toNat ≤ 57 := by
  simp [isDigit, UInt8.le_iff_toNat_le]

@[simp] theorem value_nil : value v [] = v := List.foldl_nil

@[simp] theorem value_cons : value v (b :: ds) = value (v * 10 + (b.toNat - 48)) ds :=
  List.foldl_cons ..

/-- More digits, no smaller number. -/
theorem le_value : v ≤ value v ds := by
  induction ds generalizing v with
  | nil => simp
  | cons b bs ih =>
    rw [value_cons]
    exact Nat.le_trans (by omega) ih

theorem byte_digit {c : Char} (h : c.isDigit = true) :
    isDigit (UInt8.ofNat c.toNat) = true ∧ (UInt8.ofNat c.toNat).toNat = c.toNat := by
  simp only [Char.isDigit, Bool.and_eq_true, decide_eq_true_eq] at h
  have h1 : 48 ≤ c.toNat := h.1
  have h2 : c.toNat ≤ 57 := h.2
  have h3 : (UInt8.ofNat c.toNat).toNat = c.toNat := by
    rw [UInt8.toNat_ofNat']
    omega
  exact ⟨isDigit_iff.2 (by omega), h3⟩

theorem isDigit_of_mem_numeral (h : b ∈ numeral n) : isDigit b = true := by
  obtain ⟨c, hc, rfl⟩ := List.mem_map.1 h
  exact (byte_digit (Nat.isDigit_of_mem_toDigits (by decide) (by decide) hc)).1

@[simp] theorem numeral_ne_nil : numeral n ≠ [] := by
  simp [numeral]

theorem value_map {cs : List Char} (h : ∀ c ∈ cs, c.isDigit = true) :
    value v (cs.map fun c => UInt8.ofNat c.toNat) = Nat.ofDigitChars 10 cs v := by
  induction cs generalizing v with
  | nil => simp
  | cons c cs ih =>
    have hc := (byte_digit (h c List.mem_cons_self)).2
    have hzero : '0'.toNat = 48 := by decide
    rw [List.map_cons, value_cons, hc, Nat.ofDigitChars_cons, hzero, Nat.mul_comm]
    exact ih fun d hd => h d (List.mem_cons_of_mem _ hd)

/-- **What is written reads back.** -/
@[simp] theorem value_numeral : value 0 (numeral n) = n := by
  rw [numeral, value_map fun c hc => Nat.isDigit_of_mem_toDigits (by decide) (by decide) hc]
  exact Nat.ofDigitChars_ten_toDigits

theorem length_numeral_le {k : ℕ} (hk : 0 < k) : (numeral n).length ≤ k ↔ n < 10 ^ k := by
  rw [numeral, List.length_map]
  exact Nat.length_toDigits_le_iff (by decide) hk

theorem length_padded {w : ℕ} (hw : 0 < w) (h : n < 10 ^ w) : (padded w n).length = w := by
  have := (length_numeral_le hw).2 h
  simp [padded]
  omega

end Decimal
