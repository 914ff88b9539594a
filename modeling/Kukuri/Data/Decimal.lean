import Mathlib

/-!
# Decimal texts

Natural numbers are written with the least number of digits. Reading also accepts leading zeros
and a plus sign, and refuses numbers above a bound. What has been written is read back, and texts
of the same length have the order of the numbers.
-/

namespace Decimal

open List String

/-- The digits of a number. -/
def write (n : ℕ) : String := String.ofList (Nat.toDigits 10 n)

/-- The digits after an optional plus sign. -/
def unsigned : List Char → List Char
  | '+' :: digits => digits
  | digits => digits

/-- The number up to the bound that the digits stand for. -/
def read (greatest : ℕ) (text : String) : Option ℕ :=
  let digits := unsigned text.toList
  if digits ≠ [] ∧ ∀ c ∈ digits, c.isDigit then
    let n := Nat.ofDigitChars 10 digits 0
    if n ≤ greatest then some n else none
  else none

theorem isDigit_of_mem_write {n : ℕ} {c : Char} (h : c ∈ (write n).toList) :
  c.isDigit
  := by
  rw [write, toList_ofList] at h
  apply Nat.isDigit_of_mem_toDigits (by decide) (by decide) h

theorem unsigned_of_isDigit {digits : List Char} (h : ∀ c ∈ digits, c.isDigit) :
  unsigned digits = digits
  := by
  unfold unsigned
  split
  case h_1 rest => exact absurd (h '+' (by simp)) (by decide)
  case h_2 => rfl

theorem read_write {greatest n : ℕ} (h : n ≤ greatest) :
  read greatest (write n) = some n
  := by
  have hdigits : ∀ c ∈ (write n).toList, c.isDigit := fun c => isDigit_of_mem_write
  rw [read, unsigned_of_isDigit hdigits]
  have hsome : (write n).toList ≠ [] := by
    rw [write, toList_ofList]
    apply Nat.toDigits_ne_nil
  have hvalue : Nat.ofDigitChars 10 (write n).toList 0 = n := by
    rw [write, toList_ofList, Nat.ofDigitChars_ten_toDigits]
  simp only [hsome, hvalue, ne_eq, not_false_eq_true, true_and, h, if_true]
  rw [if_pos hdigits]

theorem length_write_le {n k : ℕ} (hk : 0 < k) (h : n < 10 ^ k) :
  (write n).toList.length ≤ k
  := by
  rw [write, toList_ofList]
  apply (Nat.length_toDigits_le_iff (by decide) hk).mpr h

/-! ### Order -/

/-- The number that digits stand for. -/
def value (digits : List Char) : ℕ := Nat.ofDigitChars 10 digits 0

theorem value_cons (c : Char) (digits : List Char) :
  value (c :: digits) = 10 ^ digits.length * (c.toNat - 48) + value digits
  := by
  have hzero : '0'.toNat = 48 := rfl
  rw [value, Nat.ofDigitChars_cons, Nat.ofDigitChars_eq_ofDigitChars_zero, value, hzero,
    Nat.mul_zero, Nat.zero_add]

@[simp]
theorem value_write (n : ℕ) :
  value (write n).toList = n
  := by
  rw [value, write, String.toList_ofList, Nat.ofDigitChars_ten_toDigits]

theorem toNat_of_isDigit {c : Char} (h : c.isDigit) :
  48 ≤ c.toNat ∧ c.toNat ≤ 57
  := by
  simp only [Char.isDigit, Bool.and_eq_true, decide_eq_true_eq] at h
  exact h

theorem value_lt {digits : List Char} (h : ∀ c ∈ digits, c.isDigit) :
  value digits < 10 ^ digits.length
  := by
  induction digits with
  | nil => simp [value]
  | cons c digits ih =>
    have hc := toNat_of_isDigit (h c (by simp))
    have hrest := ih fun c hmem => h c (mem_cons_of_mem _ hmem)
    have hmul : 10 ^ digits.length * (c.toNat - 48) ≤ 10 ^ digits.length * 9 :=
      Nat.mul_le_mul_left _ (by omega)
    rw [value_cons, length_cons, pow_succ]
    omega

/-- A smaller first digit makes a smaller number. -/
theorem value_cons_lt {c c' : Char} {digits digits' : List Char}
    (h : ∀ a ∈ c :: digits, a.isDigit) (hlength : digits.length = digits'.length)
    (hlt : c < c') :
  value (c :: digits) < value (c' :: digits')
  := by
  have hc := toNat_of_isDigit (h c (by simp))
  have hlt' : c.toNat < c'.toNat := hlt
  have hrest : value digits < 10 ^ digits.length :=
    value_lt fun a hmem => h a (mem_cons_of_mem _ hmem)
  have hmul : 10 ^ digits.length * (c.toNat - 48 + 1) ≤ 10 ^ digits.length * (c'.toNat - 48) :=
    Nat.mul_le_mul_left _ (by omega)
  rw [value_cons, value_cons, ← hlength]
  rw [Nat.mul_add, Nat.mul_one] at hmul
  omega

/-- Equally many digits have the order of the numbers that they stand for. -/
theorem lt_iff_value_lt {digits digits' : List Char} (h : ∀ c ∈ digits, c.isDigit)
    (h' : ∀ c ∈ digits', c.isDigit) (hlength : digits.length = digits'.length) :
  digits < digits' ↔ value digits < value digits'
  := by
  induction digits generalizing digits' with
  | nil =>
    obtain rfl := length_eq_zero_iff.mp hlength.symm
    simp
  | cons c digits ih =>
    obtain ⟨c', digits', rfl⟩ := exists_cons_of_length_pos (l := digits')
      (by rw [← hlength]; simp)
    have hlength' : digits.length = digits'.length := by simpa using hlength
    rw [cons_lt_cons_iff]
    rcases lt_trichotomy c c' with hlt | rfl | hlt
    · have hvalue := value_cons_lt h hlength' hlt
      simp [hlt, hvalue]
    · rw [ih (fun a ha => h a (mem_cons_of_mem _ ha))
        (fun a ha => h' a (mem_cons_of_mem _ ha)) hlength', value_cons, value_cons, hlength']
      simp
    · have hvalue := value_cons_lt h' hlength'.symm hlt
      simp [hlt.not_gt, hlt.ne', hvalue.not_gt]

/-- Numbers with equally many digits have the order of their texts. -/
theorem write_lt_write_iff {n m : ℕ}
    (hlength : (write n).toList.length = (write m).toList.length) :
  write n < write m ↔ n < m
  := by
  rw [lt_iff_toList_lt, lt_iff_value_lt (fun c => isDigit_of_mem_write)
    (fun c => isDigit_of_mem_write) hlength, value_write, value_write]

end Decimal
