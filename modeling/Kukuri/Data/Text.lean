import Kukuri.Data.Scan

/-!
# Texts

Taking texts apart: the rest after a given start, the two sides of the first separator, and the
pieces between doubled separators. Each function comes with a description by concatenation, so
that proofs need not look at characters.
-/

namespace Text

open String

variable {start start' text rest rest' left right : String} {c : Char}

/-! ### Concatenation -/

theorem append_right_inj :
  start ++ rest = start ++ rest' ↔ rest = rest'
  := by
  rw [← toList_inj, toList_append, toList_append, List.append_cancel_left_eq, toList_inj]

/-- Texts that differ in their starts differ, if neither start continues the other. -/
theorem append_ne_append (h : ¬ start.toList <+: start'.toList)
    (h' : ¬ start'.toList <+: start.toList) :
  start ++ rest ≠ start' ++ rest'
  := by
  intro heq
  rw [← toList_inj, toList_append, toList_append] at heq
  rcases le_total start.toList.length start'.toList.length with hlength | hlength
  · apply h
    apply List.prefix_of_prefix_length_le (List.prefix_append _ rest.toList) _ hlength
    rw [heq]
    apply List.prefix_append
  · apply h'
    apply List.prefix_of_prefix_length_le (List.prefix_append _ rest'.toList) _ hlength
    rw [← heq]
    apply List.prefix_append

theorem append_ne (h : ¬ start.toList <+: text.toList) :
  start ++ rest ≠ text
  := by
  rintro rfl
  apply h
  rw [toList_append]
  apply List.prefix_append

/-! ### Starts -/

/-- The rest of a list after a given start. -/
def dropStart {α : Type} [DecidableEq α] : List α → List α → Option (List α)
  | [], text => some text
  | _ :: _, [] => none
  | a :: start, b :: text => if a = b then dropStart start text else none

theorem dropStart_eq_some {α : Type} [DecidableEq α] {start text rest : List α} :
  dropStart start text = some rest ↔ text = start ++ rest
  := by
  induction start generalizing text with
  | nil => simp [dropStart]
  | cons a start ih =>
    cases text with
    | nil => simp [dropStart]
    | cons b text =>
      by_cases hab : a = b
      · simp [dropStart, hab, ih]
      · simp [dropStart, hab, Ne.symm hab]

/-- The rest of a text after a given start. -/
def stripPrefix (start text : String) : Option String :=
  (dropStart start.toList text.toList).map String.ofList

theorem stripPrefix_eq_some :
  stripPrefix start text = some rest ↔ text = start ++ rest
  := by
  rw [stripPrefix, Option.map_eq_some_iff]
  constructor
  · rintro ⟨l, hl, rfl⟩
    rw [← toList_inj, toList_append, toList_ofList]
    apply dropStart_eq_some.mp hl
  · rintro rfl
    refine ⟨rest.toList, ?_, ofList_toList⟩
    rw [dropStart_eq_some, toList_append]

@[simp]
theorem stripPrefix_append (start rest : String) :
  stripPrefix start (start ++ rest) = some rest
  := stripPrefix_eq_some.mpr rfl

/-- A text with another start does not have this one. -/
theorem stripPrefix_append_of_not (h : ¬ start.toList <+: start'.toList)
    (h' : ¬ start'.toList <+: start.toList) :
  stripPrefix start (start' ++ rest) = none
  := by
  rw [Option.eq_none_iff_forall_ne_some]
  intro rest' hrest
  apply append_ne_append h h' (stripPrefix_eq_some.mp hrest).symm

/-- Whether a text has the given start. -/
def startsWith (start text : String) : Bool := (stripPrefix start text).isSome

theorem startsWith_iff :
  startsWith start text ↔ ∃ rest, text = start ++ rest
  := by
  rw [startsWith, Option.isSome_iff_exists]
  simp only [stripPrefix_eq_some]

theorem not_startsWith (h : startsWith start text) (hstart : ¬ start.toList <+: start'.toList)
    (hstart' : ¬ start'.toList <+: start.toList) :
  ¬ startsWith start' text
  := by
  obtain ⟨rest, rfl⟩ := startsWith_iff.mp h
  rw [startsWith, stripPrefix_append_of_not hstart' hstart]
  exact Bool.false_ne_true

theorem startsWith_append (start rest : String) :
  startsWith start (start ++ rest)
  := startsWith_iff.mpr ⟨rest, rfl⟩

/-! ### Order -/

theorem append_lt_append_iff :
  start ++ left < start ++ right ↔ left < right
  := by
  rw [lt_iff_toList_lt, lt_iff_toList_lt, toList_append, toList_append, Scan.append_lt_append_iff]

theorem append_le_append_iff :
  start ++ left ≤ start ++ right ↔ left ≤ right
  := by
  rw [← not_lt, ← not_lt, append_lt_append_iff]

theorem empty_le (text : String) :
  "" ≤ text
  := by
  exact List.not_lt_nil _

theorem le_append (start rest : String) :
  start ≤ start ++ rest
  := by
  nth_rewrite 1 [← append_empty (s := start)]
  rw [append_le_append_iff]
  apply empty_le

/-- Between two texts with a common start all texts have it. -/
theorem startsWith_of_between (hleft : start ++ left ≤ text) (hright : text ≤ start ++ right) :
  startsWith start text
  := by
  rw [← not_lt, lt_iff_toList_lt, not_lt, toList_append] at hleft hright
  obtain ⟨rest, hrest⟩ := Scan.isPrefix_of_between hleft hright
  refine startsWith_iff.mpr ⟨ofList rest, ?_⟩
  rw [← toList_inj, ← hrest]
  simp

/-- The two sides of the first separator. -/
def cut (c : Char) : List Char → Option (List Char × List Char)
  | [] => none
  | a :: text =>
    if a = c then some ([], text) else (cut c text).map fun sides => (a :: sides.1, sides.2)

theorem cut_eq_some {text left right : List Char} :
  cut c text = some (left, right) ↔ text = left ++ c :: right ∧ c ∉ left
  := by
  induction text generalizing left with
  | nil => simp [cut]
  | cons a text ih =>
    by_cases hac : a = c
    · subst hac
      rw [cut, if_pos rfl]
      cases left with
      | nil => simp [eq_comm]
      | cons b left =>
        simp only [Option.some.injEq, Prod.mk.injEq, List.cons_append, List.cons.injEq]
        constructor
        · rintro ⟨h, -⟩
          cases h
        · rintro ⟨⟨rfl, -⟩, hnot⟩
          exact absurd List.mem_cons_self hnot
    · rw [cut, if_neg hac, Option.map_eq_some_iff]
      cases left with
      | nil => simp [hac]
      | cons b left =>
        constructor
        · rintro ⟨⟨l, r⟩, hsides, hboth⟩
          obtain ⟨hleft, rfl⟩ := Prod.mk.inj hboth
          obtain ⟨rfl, rfl⟩ := List.cons.inj hleft
          obtain ⟨rfl, hnot⟩ := ih.mp hsides
          exact ⟨rfl, by simp [Ne.symm hac, hnot]⟩
        · rintro ⟨heq, hnot⟩
          obtain ⟨rfl, rfl⟩ := List.cons.inj heq
          refine ⟨(left, right), ?_, rfl⟩
          apply ih.mpr
          exact ⟨rfl, fun h => hnot (List.mem_cons_of_mem _ h)⟩

/-- The two sides of the first separator of a text. -/
def splitOnce (c : Char) (text : String) : Option (String × String) :=
  (cut c text.toList).map fun sides => (String.ofList sides.1, String.ofList sides.2)

theorem splitOnce_eq_some :
  splitOnce c text = some (left, right) ↔
    text = left ++ (String.singleton c ++ right) ∧ c ∉ left.toList
  := by
  rw [splitOnce, Option.map_eq_some_iff]
  constructor
  · rintro ⟨⟨l, r⟩, hsides, heq⟩
    cases heq
    obtain ⟨htext, hnot⟩ := cut_eq_some.mp hsides
    rw [← toList_inj]
    simpa using ⟨htext, hnot⟩
  · rintro ⟨rfl, hnot⟩
    refine ⟨(left.toList, right.toList), ?_, by simp⟩
    apply cut_eq_some.mpr
    simpa using hnot

theorem splitOnce_append (h : c ∉ left.toList) :
  splitOnce c (left ++ (String.singleton c ++ right)) = some (left, right)
  := splitOnce_eq_some.mpr ⟨rfl, h⟩

/-! ### Blanks -/

/-- The characters with the Unicode property `White_Space`. -/
def isWhitespace (c : Char) : Bool :=
  (0x09 ≤ c.toNat && c.toNat ≤ 0x0D) || c.toNat = 0x20 || c.toNat = 0x85 || c.toNat = 0xA0 ||
    c.toNat = 0x1680 || (0x2000 ≤ c.toNat && c.toNat ≤ 0x200A) || c.toNat = 0x2028 ||
    c.toNat = 0x2029 || c.toNat = 0x202F || c.toNat = 0x205F || c.toNat = 0x3000

/-- The text without the blanks at its two ends. -/
def trim (text : String) : String :=
  String.ofList ((text.toList.dropWhile isWhitespace).reverse.dropWhile isWhitespace).reverse

/-! ### Doubled separators -/

/-- The pieces between doubled separators, which are found from the left. -/
def pieces (c : Char) : List Char → List (List Char)
  | [] => [[]]
  | [a] => [[a]]
  | a :: b :: text =>
    if a = c ∧ b = c then [] :: pieces c text
    else (pieces c (b :: text)).modifyHead (a :: ·)

/-- The text with the given pieces. -/
def join (between : List Char) : List (List Char) → List Char
  | [] => []
  | [piece] => piece
  | piece :: rest => piece ++ (between ++ join between rest)

theorem pieces_ne_nil (c : Char) (text : List Char) :
  pieces c text ≠ []
  := by
  induction text using pieces.induct c with
  | case1 => simp [pieces]
  | case2 a => simp [pieces]
  | case3 a b text hab ih => simp [pieces, hab]
  | case4 a b text hab ih => simpa [pieces, hab] using ih

theorem join_nil_cons {between : List Char} {rest : List (List Char)} (h : rest ≠ []) :
  join between ([] :: rest) = between ++ join between rest
  := by
  cases rest with
  | nil => exact absurd rfl h
  | cons piece rest => rfl

theorem join_modifyHead {between : List Char} {rest : List (List Char)} (a : Char)
    (h : rest ≠ []) :
  join between (rest.modifyHead (a :: ·)) = a :: join between rest
  := by
  match rest with
  | [] => exact absurd rfl h
  | [piece] => rfl
  | piece :: other :: rest => rfl

/-- The pieces make up the text. -/
theorem join_pieces (c : Char) (text : List Char) :
  join [c, c] (pieces c text) = text
  := by
  induction text using pieces.induct c with
  | case1 => rfl
  | case2 a => rfl
  | case3 a b text hab ih =>
    obtain ⟨rfl, rfl⟩ := hab
    rw [pieces, if_pos ⟨rfl, rfl⟩, join_nil_cons (pieces_ne_nil _ _), ih]
    rfl
  | case4 a b text hab ih =>
    rw [pieces, if_neg hab, join_modifyHead a (pieces_ne_nil _ _), ih]

theorem pieces_of_notMem {text : List Char} (h : c ∉ text) :
  pieces c text = [text]
  := by
  induction text using pieces.induct c with
  | case1 => rfl
  | case2 a => rfl
  | case3 a b text hab ih =>
    obtain ⟨rfl, -⟩ := hab
    exact absurd List.mem_cons_self h
  | case4 a b text hab ih =>
    rw [pieces, if_neg hab, ih fun hmem => h (List.mem_cons_of_mem a hmem)]
    rfl

/-- Where no doubled separator starts, the first piece goes on. -/
theorem pieces_cons {a : Char} {text : List Char} (h : ¬ (a = c ∧ text.head? = some c)) :
  pieces c (a :: text) = (pieces c text).modifyHead (a :: ·)
  := by
  cases text with
  | nil => rfl
  | cons b text => rw [pieces, if_neg (by simpa using h)]

theorem pieces_append {left : List Char} (h : c ∉ left) (right : List Char) :
  pieces c (left ++ c :: c :: right) = left :: pieces c right
  := by
  induction left with
  | nil => simp [pieces]
  | cons a left ih =>
    have hac : ¬ a = c := fun hac => h (by simp [hac])
    have hleft := ih fun hmem => h (List.mem_cons_of_mem a hmem)
    rw [List.cons_append, pieces_cons fun hab => hac hab.1, hleft]
    rfl

/-- In front of the first doubled separator there is none, whatever stands behind it. -/
theorem pieces_eq_cons_cons {text piece next : List Char} {rest : List (List Char)}
    (h : pieces c text = piece :: next :: rest) :
  (∃ right, text = piece ++ c :: c :: right) ∧
    ∀ right, pieces c (piece ++ c :: c :: right) = piece :: pieces c right
  := by
  induction text using pieces.induct c generalizing piece with
  | case1 | case2 a => simp [pieces] at h
  | case3 a b text hab ih =>
    obtain ⟨rfl, rfl⟩ := hab
    rw [pieces, if_pos ⟨rfl, rfl⟩] at h
    obtain ⟨rfl, -⟩ := List.cons.inj h
    exact ⟨⟨text, rfl⟩, fun right => by simp [pieces]⟩
  | case4 a b text hab ih =>
    rw [pieces, if_neg hab] at h
    obtain ⟨piece', pieces', hpieces⟩ := List.exists_cons_of_ne_nil (pieces_ne_nil c (b :: text))
    rw [hpieces, List.modifyHead_cons] at h
    obtain ⟨rfl, rfl⟩ := List.cons.inj h
    obtain ⟨⟨right, hright⟩, hall⟩ := ih hpieces
    refine ⟨⟨right, by rw [hright, List.cons_append]⟩, ?_⟩
    intro right'
    have hhead : (piece' ++ c :: c :: right').head? = some b := by
      rw [List.head?_append, List.head?_cons, ← List.head?_cons (l := c :: right),
        ← List.head?_append, ← hright, List.head?_cons]
    rw [List.cons_append, pieces_cons (by simpa [hhead] using hab), hall right']
    rfl

/-- The pieces of a text between doubled separators. -/
def splitDoubled (c : Char) (text : String) : List String :=
  (pieces c text.toList).map String.ofList

theorem splitDoubled_of_notMem (h : c ∉ text.toList) :
  splitDoubled c text = [text]
  := by
  rw [splitDoubled, pieces_of_notMem h, List.map_singleton, ofList_toList]

theorem splitDoubled_append (h : c ∉ left.toList) :
  splitDoubled c (left ++ (String.ofList [c, c] ++ right)) = left :: splitDoubled c right
  := by
  rw [splitDoubled, toList_append, toList_append, toList_ofList,
    List.cons_append, List.cons_append, List.nil_append, pieces_append h, List.map_cons,
    ofList_toList, splitDoubled]

theorem toList_of_splitDoubled {parts : List String} (h : splitDoubled c text = parts) :
  text.toList = join [c, c] (parts.map String.toList)
  := by
  rw [← h, splitDoubled, List.map_map]
  have hid : toList ∘ ofList = id := funext fun l => toList_ofList
  rw [hid, List.map_id, join_pieces]

/-- What stands in front of the first doubled separator. -/
def beforeDoubled (c : Char) (text : String) : Option String :=
  match splitDoubled c text with
  | piece :: _ :: _ => some piece
  | _ => none

theorem beforeDoubled_append (h : c ∉ left.toList) :
  beforeDoubled c (left ++ (String.ofList [c, c] ++ right)) = some left
  := by
  obtain ⟨piece, rest, hpieces⟩ := List.exists_cons_of_ne_nil (pieces_ne_nil c right.toList)
  rw [beforeDoubled, splitDoubled_append h, splitDoubled, hpieces]
  rfl

/-- Two texts that start with the same text and a doubled separator have the same text in front
of their first one, if one of them has it there. -/
theorem beforeDoubled_eq_some (h : beforeDoubled c text = some left) :
  (∃ right, text = left ++ (String.ofList [c, c] ++ right)) ∧
    ∀ right, beforeDoubled c (left ++ (String.ofList [c, c] ++ right)) = some left
  := by
  unfold beforeDoubled at h
  split at h <;> cases h
  case h_1 piece next rest hsplit =>
    obtain ⟨piece', pieces', hpieces, rfl, hrest⟩ := List.map_eq_cons_iff.mp hsplit
    obtain ⟨next', rest', rfl, -, -⟩ := List.map_eq_cons_iff.mp hrest
    obtain ⟨⟨right, hright⟩, hall⟩ := pieces_eq_cons_cons hpieces
    constructor
    · refine ⟨ofList right, ?_⟩
      rw [← toList_inj, hright]
      simp
    · intro right'
      obtain ⟨p, ps, hps⟩ := List.exists_cons_of_ne_nil (pieces_ne_nil c right'.toList)
      have hsplit' : splitDoubled c (ofList piece' ++ (ofList [c, c] ++ right')) =
          ofList piece' :: ofList p :: ps.map ofList := by
        have hlist := hall right'.toList
        rw [hps] at hlist
        simp only [splitDoubled, toList_append, toList_ofList, List.cons_append,
          List.nil_append, hlist, List.map_cons]
      rw [beforeDoubled, hsplit']

/-! ### Bytes -/

/-- Texts of ASCII characters have a byte for each character. -/
theorem utf8ByteSize_of_ascii (h : ∀ c ∈ text.toList, c.toNat < 128) :
  text.utf8ByteSize = text.toList.length
  := by
  rw [← ofList_toList (s := text), utf8ByteSize_ofList, toList_ofList]
  generalize text.toList = l at h ⊢
  induction l with
  | nil => rfl
  | cons c l ih =>
    have hc : c.utf8Size = 1 := by
      rw [Char.utf8Size_eq_one_iff, UInt32.le_iff_toNat_le]
      exact Nat.le_of_lt_succ (h c (by simp))
    rw [utf8Len_cons, ih fun c hc => h c (List.mem_cons_of_mem _ hc), hc, List.length_cons]

end Text
