import Kukuri.Data.Result

/-!
# Bytes

Numbers are written with a fixed number of bytes, the least or the most significant first. Reading
takes a given number of bytes from the front of the input. What is read is what was written, and
the input is what was read followed by what is left. Messages that follow their lengths can be told
apart on a stream.
-/

abbrev Bytes := List UInt8

theorem countable_uint8 :
  Countable UInt8
  := Function.Injective.countable fun _ _ h => UInt8.toNat_inj.mp h

theorem countable_string :
  Countable String
  := by
  have hchar : Countable Char := Function.Injective.countable fun _ _ h => Char.toNat_inj.mp h
  exact Function.Injective.countable fun _ _ h => String.toList_inj.mp h

attribute [instance] countable_uint8 countable_string

namespace Bytes

open List

/-! ### Numbers -/

/-- The number in the given number of bytes, the least significant one first. -/
def littleEndian : ℕ → ℕ → Bytes
  | 0, _ => []
  | width + 1, n => UInt8.ofNat n :: littleEndian width (n / 256)

/-- The number that the bytes stand for. -/
def ofLittleEndian : Bytes → ℕ
  | [] => 0
  | byte :: bytes => byte.toNat + 256 * ofLittleEndian bytes

@[simp]
theorem length_littleEndian (width n : ℕ) :
  (littleEndian width n).length = width
  := by
  induction width generalizing n with
  | zero => rfl
  | succ width ih => rw [littleEndian, List.length_cons, ih]

theorem ofLittleEndian_littleEndian {width n : ℕ} (h : n < 256 ^ width) :
  ofLittleEndian (littleEndian width n) = n
  := by
  induction width generalizing n with
  | zero =>
    rw [pow_zero, Nat.lt_one_iff] at h
    exact h.symm
  | succ width ih =>
    have hrest : n / 256 < 256 ^ width := by
      rw [Nat.div_lt_iff_lt_mul (by norm_num), ← pow_succ]
      exact h
    rw [littleEndian, ofLittleEndian, ih hrest, UInt8.toNat_ofNat']
    omega

theorem ofLittleEndian_lt (bytes : Bytes) :
  ofLittleEndian bytes < 256 ^ bytes.length
  := by
  induction bytes with
  | nil => decide
  | cons byte bytes ih =>
    have hbyte := byte.toNat_lt
    rw [ofLittleEndian, length_cons, pow_succ]
    omega

theorem littleEndian_ofLittleEndian (bytes : Bytes) :
  littleEndian bytes.length (ofLittleEndian bytes) = bytes
  := by
  induction bytes with
  | nil => rfl
  | cons byte bytes ih =>
    have hbyte := byte.toNat_lt
    have hdiv : (byte.toNat + 256 * ofLittleEndian bytes) / 256 = ofLittleEndian bytes := by omega
    have hmod : UInt8.ofNat (byte.toNat + 256 * ofLittleEndian bytes) = byte := by
      rw [← UInt8.toNat_inj, UInt8.toNat_ofNat']
      omega
    rw [ofLittleEndian, length_cons, littleEndian, hdiv, ih, hmod]

theorem littleEndian_inj {width m n : ℕ} (hm : m < 256 ^ width) (hn : n < 256 ^ width)
    (h : littleEndian width m = littleEndian width n) :
  m = n
  := by
  rw [← ofLittleEndian_littleEndian hm, h, ofLittleEndian_littleEndian hn]

/-- The number in the given number of bytes, the most significant one first. -/
def bigEndian (width n : ℕ) : Bytes := (littleEndian width n).reverse

def ofBigEndian (bytes : Bytes) : ℕ := ofLittleEndian bytes.reverse

@[simp]
theorem length_bigEndian (width n : ℕ) :
  (bigEndian width n).length = width
  := by
  rw [bigEndian, List.length_reverse, length_littleEndian]

theorem bigEndian_ofBigEndian (bytes : Bytes) :
  bigEndian bytes.length (ofBigEndian bytes) = bytes
  := by
  have hreverse := littleEndian_ofLittleEndian bytes.reverse
  rw [length_reverse] at hreverse
  rw [bigEndian, ofBigEndian, hreverse, reverse_reverse]

theorem ofBigEndian_bigEndian {width n : ℕ} (h : n < 256 ^ width) :
  ofBigEndian (bigEndian width n) = n
  := by
  rw [ofBigEndian, bigEndian, reverse_reverse, ofLittleEndian_littleEndian h]

theorem bigEndian_inj {width m n : ℕ} (hm : m < 256 ^ width) (hn : n < 256 ^ width)
    (h : bigEndian width m = bigEndian width n) :
  m = n
  := littleEndian_inj hm hn (reverse_inj.mp h)

/-! ### Reading -/

/-- The given number of bytes, and those that are left. -/
def readExact (n : ℕ) (input : Bytes) (message : String) : Result (Bytes × Bytes) :=
  if n ≤ input.length then .ok (input.take n, input.drop n) else .error (.bail message)

theorem readExact_eq_ok {n : ℕ} {input bytes rest : Bytes} {message : String} :
  readExact n input message = .ok (bytes, rest) ↔ input = bytes ++ rest ∧ bytes.length = n
  := by
  unfold readExact
  split
  case isTrue h =>
    rw [Except.ok.injEq, Prod.mk.injEq]
    constructor
    · rintro ⟨rfl, rfl⟩
      exact ⟨(take_append_drop n input).symm, length_take_of_le h⟩
    · rintro ⟨rfl, rfl⟩
      exact ⟨take_left, drop_left⟩
  case isFalse h =>
    constructor
    · rintro ⟨⟩
    · rintro ⟨rfl, rfl⟩
      rw [length_append] at h
      omega

/-! ### Chunks -/

/-- The bytes in chunks of the given size, of which the last one may be shorter. -/
def chunks (size : ℕ) (bytes : Bytes) : List Bytes :=
  if _hdone : bytes = [] ∨ size = 0 then []
  else bytes.take size :: chunks size (bytes.drop size)
  termination_by bytes.length
  decreasing_by
    have hpos := List.length_pos_iff.mpr (not_or.mp _hdone).1
    have hsize := (not_or.mp _hdone).2
    rw [List.length_drop]
    omega

theorem chunks_nil (size : ℕ) :
  chunks size [] = []
  := by
  rw [chunks, dif_pos (.inl rfl)]

theorem chunks_of_ne_nil {size : ℕ} (hsize : 0 < size) {bytes : Bytes} (h : bytes ≠ []) :
  chunks size bytes = bytes.take size :: chunks size (bytes.drop size)
  := by
  rw [chunks, dif_neg]
  rintro (hnil | hzero)
  · exact h hnil
  · omega

/-- The chunks are all there is, none of them is empty, and none is too long. -/
theorem chunks_spec {size : ℕ} (hsize : 0 < size) (bytes : Bytes) :
  (chunks size bytes).flatten = bytes ∧
    ∀ chunk ∈ chunks size bytes, chunk ≠ [] ∧ chunk.length ≤ size
  := by
  induction hn : bytes.length using Nat.strong_induction_on generalizing bytes with
  | _ n ih =>
    by_cases hnil : bytes = []
    · subst hnil
      rw [chunks_nil]
      simp
    · have hpos := length_pos_iff.mpr hnil
      have hshorter : (bytes.drop size).length < n := by
        rw [length_drop]
        omega
      obtain ⟨hflatten, hchunks⟩ := ih _ hshorter (bytes.drop size) rfl
      rw [chunks_of_ne_nil hsize hnil]
      constructor
      · rw [flatten_cons, hflatten, take_append_drop]
      · intro chunk hchunk
        rcases mem_cons.mp hchunk with rfl | hchunk
        · refine ⟨?_, length_take_le _ _⟩
          intro htake
          rcases take_eq_nil_iff.mp htake with hzero | hempty
          · omega
          · exact hnil hempty
        · exact hchunks chunk hchunk

theorem length_chunks_le {size : ℕ} (hsize : 0 < size) (bytes : Bytes) :
  (chunks size bytes).length ≤ bytes.length
  := by
  obtain ⟨hflatten, hchunks⟩ := chunks_spec hsize bytes
  calc (chunks size bytes).length
      ≤ (chunks size bytes).flatten.length := by
        have hone : ∀ n ∈ (chunks size bytes).map length, 1 ≤ n := by
          intro n hn
          obtain ⟨chunk, hchunk, rfl⟩ := mem_map.mp hn
          exact length_pos_iff.mpr (hchunks chunk hchunk).1
        have hsum := card_nsmul_le_sum _ 1 hone
        simpa using hsum
    _ = bytes.length := by rw [hflatten]

/-! ### Lists with commas -/

/-- The parts with single commas between them. -/
def commas : List Bytes → Bytes
  | [] => []
  | [part] => part
  | part :: parts => part ++ 44 :: commas parts

theorem commas_append_singleton {parts : List Bytes} (h : parts ≠ []) (part : Bytes) :
  commas (parts ++ [part]) = commas parts ++ 44 :: part
  := by
  induction parts with
  | nil => exact absurd rfl h
  | cons first parts ih =>
    cases parts with
    | nil => rfl
    | cons second parts =>
      have hrest := ih (cons_ne_nil second parts)
      simp only [cons_append, commas, append_assoc, cons_append] at hrest ⊢
      rw [hrest]

/-- Splitting at the commas gives back the parts without commas. -/
theorem splitOn_commas {parts : List Bytes} (hsome : parts ≠ [])
    (hparts : ∀ part ∈ parts, 44 ∉ part) :
  (commas parts).splitOn 44 = parts
  := by
  induction parts using commas.induct with
  | case1 => exact absurd rfl hsome
  | case2 part => exact splitOn_eq_singleton (hparts part (.head _))
  | case3 part parts hmore ih =>
    have hrest := ih hmore fun part hpart => hparts part (.tail _ hpart)
    rw [commas, splitOn_append_cons_self_of_not_mem (hparts part (.head _)), hrest]
    exact hmore

/-- Parts without commas are told apart. -/
theorem commas_inj {parts parts' : List Bytes} (hparts : ∀ part ∈ parts, part ≠ [] ∧ 44 ∉ part)
    (hparts' : ∀ part ∈ parts', part ≠ [] ∧ 44 ∉ part) (h : commas parts = commas parts') :
  parts = parts'
  := by
  have hsplit : ∀ {parts : List Bytes}, (∀ part ∈ parts, part ≠ [] ∧ 44 ∉ part) →
      ((commas parts).splitOn 44).filter (· ≠ []) = parts := by
    intro parts hparts
    cases parts with
    | nil => rfl
    | cons part parts =>
      rw [splitOn_commas (cons_ne_nil _ _) fun part hpart => (hparts part hpart).2]
      exact filter_eq_self.mpr fun part hpart => decide_eq_true (hparts part hpart).1
  rw [← hsplit hparts, h, hsplit hparts']

/-! ### Messages on a stream -/

/-- A message after its length. -/
def framed (message : Bytes) : Bytes := bigEndian 4 message.length ++ message

def framedAll (messages : List Bytes) : Bytes := messages.flatMap framed

theorem framedAll_append (messages messages' : List Bytes) :
  framedAll (messages ++ messages') = framedAll messages ++ framedAll messages'
  := flatMap_append

theorem framedAll_singleton (message : Bytes) :
  framedAll [message] = framed message
  := flatMap_singleton framed message

/-- The messages at the front of a stream are the first ones that were written. -/
theorem isPrefix_of_framedAll {messages messages' : List Bytes}
    (hlength : ∀ message ∈ messages, message.length < 256 ^ 4)
    (hlength' : ∀ message ∈ messages', message.length < 256 ^ 4)
    (h : framedAll messages <+: framedAll messages') :
  messages <+: messages'
  := by
  induction messages generalizing messages' with
  | nil => exact nil_prefix
  | cons message messages ih =>
    obtain ⟨rest, hrest⟩ := h
    cases messages' with
    | nil =>
      have hempty := congrArg length hrest
      simp [framedAll, framed] at hempty
    | cons message' messages' =>
      simp only [framedAll, flatMap_cons, framed, append_assoc] at hrest
      obtain ⟨hheader, hbody⟩ := append_inj hrest (by simp)
      have hsame := bigEndian_inj (hlength message (.head _)) (hlength' message' (.head _)) hheader
      obtain ⟨rfl, hmore⟩ := append_inj hbody hsame
      rw [cons_prefix_cons]
      exact ⟨rfl, ih (fun m hm => hlength m (.tail _ hm)) (fun m hm => hlength' m (.tail _ hm))
        ⟨rest, hmore⟩⟩

end Bytes
