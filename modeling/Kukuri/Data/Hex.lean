import Mathlib

/-!
# Hexadecimal texts

Bytes are written with two digits each, in lower case. Reading accepts upper case as well. What
has been written is read back, and a text in lower case that can be read is what is written for
the bytes that it stands for.
-/

namespace Hex

open Option

/-! ### Digits -/

/-- The digit of a number below sixteen. -/
def digit (n : ℕ) : Char := Nat.digitChar n

/-- The number that a digit stands for, in either case. -/
def value (c : Char) : Option ℕ :=
  if '0' ≤ c ∧ c ≤ '9' then some (c.toNat - 48)
  else if 'a' ≤ c ∧ c ≤ 'f' then some (c.toNat - 87)
  else if 'A' ≤ c ∧ c ≤ 'F' then some (c.toNat - 55)
  else none

/-- The digits that are written. -/
def isDigit (c : Char) : Bool := ('0' ≤ c && c ≤ '9') || ('a' ≤ c && c ≤ 'f')

theorem value_digit {n : ℕ} (h : n < 16) :
  value (digit n) = some n
  := by
  interval_cases n <;> decide

theorem isDigit_digit {n : ℕ} (h : n < 16) :
  isDigit (digit n)
  := by
  interval_cases n <;> decide

theorem value_lt {c : Char} {n : ℕ} (h : value c = some n) :
  n < 16
  := by
  have hle : ∀ {a b : Char}, a ≤ b → a.toNat ≤ b.toNat := fun hab => hab
  unfold value at h
  split_ifs at h with h₁ h₂ h₃
  · have h₁' : c.toNat ≤ 57 := hle h₁.2
    cases h
    omega
  · have h₂' : c.toNat ≤ 102 := hle h₂.2
    cases h
    omega
  · have h₃' : c.toNat ≤ 70 := hle h₃.2
    cases h
    omega

theorem isDigit_lt {c : Char} (h : isDigit c) :
  c.toNat < 103
  := by
  simp only [isDigit, Bool.or_eq_true, Bool.and_eq_true, decide_eq_true_eq] at h
  rcases h with ⟨-, h⟩ | ⟨-, h⟩
  · have hle : c.toNat ≤ 57 := h
    omega
  · have hle : c.toNat ≤ 102 := h
    omega

theorem digit_of_value {c : Char} {n : ℕ} (hdigit : isDigit c) (h : value c = some n) :
  digit n = c
  := by
  have hall : ∀ k < 103, isDigit (Char.ofNat k) →
      (value (Char.ofNat k)).map digit = some (Char.ofNat k) := by
    decide
  have hc := hall c.toNat (isDigit_lt hdigit)
  rw [Char.ofNat_toNat, h] at hc
  apply some.inj (hc hdigit)

/-! ### Bytes -/

/-- The digits of the bytes. -/
def encodeBytes : List UInt8 → List Char
  | [] => []
  | byte :: bytes => digit (byte.toNat / 16) :: digit (byte.toNat % 16) :: encodeBytes bytes

/-- The bytes that the digits stand for. -/
def decodeBytes : List Char → Option (List UInt8)
  | [] => some []
  | [_] => none
  | high :: low :: text => do
    let h ← value high
    let l ← value low
    let bytes ← decodeBytes text
    return UInt8.ofNat (16 * h + l) :: bytes

theorem decodeBytes_encodeBytes (bytes : List UInt8) :
  decodeBytes (encodeBytes bytes) = some bytes
  := by
  induction bytes with
  | nil => rfl
  | cons byte bytes ih =>
    have hbyte := byte.toNat_lt
    have hhigh : value (digit (byte.toNat / 16)) = some (byte.toNat / 16) :=
      value_digit (by omega)
    have hlow : value (digit (byte.toNat % 16)) = some (byte.toNat % 16) :=
      value_digit (by omega)
    have hsum : 16 * (byte.toNat / 16) + byte.toNat % 16 = byte.toNat := by omega
    simp only [encodeBytes, decodeBytes, hhigh, hlow, ih, hsum, bind_eq_bind,
      bind_some, pure_def, UInt8.ofNat_toNat]

theorem isDigit_of_mem_encodeBytes {bytes : List UInt8} {c : Char} (h : c ∈ encodeBytes bytes) :
  isDigit c
  := by
  induction bytes with
  | nil => simp [encodeBytes] at h
  | cons byte bytes ih =>
    have hbyte := byte.toNat_lt
    rw [encodeBytes, List.mem_cons, List.mem_cons] at h
    rcases h with rfl | rfl | h
    · apply isDigit_digit (by omega)
    · apply isDigit_digit (by omega)
    · apply ih h

theorem length_encodeBytes (bytes : List UInt8) :
  (encodeBytes bytes).length = 2 * bytes.length
  := by
  induction bytes with
  | nil => rfl
  | cons byte bytes ih =>
    simp only [encodeBytes, List.length_cons, ih]
    omega

/-- Digits in lower case that can be read are the digits of the bytes. -/
theorem encodeBytes_of_decodeBytes {text : List Char} {bytes : List UInt8}
    (hdigits : ∀ c ∈ text, isDigit c) (h : decodeBytes text = some bytes) :
  encodeBytes bytes = text
  := by
  induction text using decodeBytes.induct generalizing bytes with
  | case1 =>
    cases h
    rfl
  | case2 c => cases h
  | case3 high low text ih =>
    simp only [decodeBytes, bind_eq_bind, bind_eq_some_iff, pure_def,
      some.injEq] at h
    obtain ⟨h, hhigh, l, hlow, rest, hrest, rfl⟩ := h
    have hh := value_lt hhigh
    have hl := value_lt hlow
    have hbyte : (UInt8.ofNat (16 * h + l)).toNat = 16 * h + l := by
      rw [UInt8.toNat_ofNat']
      omega
    rw [encodeBytes, hbyte, show (16 * h + l) / 16 = h by omega,
      show (16 * h + l) % 16 = l by omega]
    rw [digit_of_value (hdigits high (by simp)) hhigh,
      digit_of_value (hdigits low (by simp)) hlow,
      ih (fun c hc => hdigits c (by simp [hc])) hrest]

/-! ### Texts -/

theorem decodeBytes_ofList (bytes : List UInt8) :
  decodeBytes (String.ofList (encodeBytes bytes)).toList = some bytes
  := by
  rw [String.toList_ofList, decodeBytes_encodeBytes]

/-- The bytes of a text, in hexadecimal. -/
def encode (text : String) : String := String.ofList (encodeBytes text.toByteArray.data.toList)

/-- The text whose bytes the digits stand for. -/
def decode (digits : String) : Option String := do
  let bytes ← decodeBytes digits.toList
  String.fromUTF8? ⟨bytes.toArray⟩

theorem decode_encode (text : String) :
  decode (encode text) = some text
  := by
  have hbytes : (⟨text.toByteArray.data.toList.toArray⟩ : ByteArray) = text.toByteArray := by
    rw [Array.toArray_toList]
  rw [decode, encode, decodeBytes_ofList]
  simp only [bind_eq_bind, bind_some, hbytes]
  rw [String.fromUTF8?, dif_pos text.isValidUTF8]
  rfl

theorem encode_injective :
  Function.Injective encode
  := by
  intro text text' h
  have hdecode := decode_encode text
  rw [h, decode_encode] at hdecode
  exact (some.inj hdecode).symm

/-- Digits in lower case that can be read are what is written for the text. -/
theorem encode_of_decode {digits text : String} (hdigits : ∀ c ∈ digits.toList, isDigit c)
    (h : decode digits = some text) :
  encode text = digits
  := by
  rw [decode, bind_eq_bind, bind_eq_some_iff] at h
  obtain ⟨bytes, hbytes, h⟩ := h
  rw [String.fromUTF8?] at h
  split at h
  case isFalse => cases h
  cases h
  rw [← String.toList_inj, encode, String.toList_ofList]
  apply encodeBytes_of_decodeBytes hdigits hbytes

theorem isDigit_of_mem_encode {text : String} {c : Char} (h : c ∈ (encode text).toList) :
  isDigit c
  := by
  rw [encode, String.toList_ofList] at h
  apply isDigit_of_mem_encodeBytes h

theorem length_encode (text : String) :
  (encode text).toList.length = 2 * text.utf8ByteSize
  := by
  rw [encode, String.toList_ofList, length_encodeBytes]
  rfl

end Hex
