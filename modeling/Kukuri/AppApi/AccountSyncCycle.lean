import Kukuri.Data.BTree
import Kukuri.Data.Text

/-!
# The cycle through the items of a device

A device that has fallen behind reads all items of another device. It asks for the keys with a
given start, at most 64 at a time, and refines the start by a further letter where there are too
many. Where the cycle stands is told by the start alone. The positions of keys (`position`) are
the order in which the cycle goes through them.

The main result is `cycle_covers`: the cycle ends, returns every key once and root by root, and
misses no key that is there all the time.
-/

namespace Kukuri

open Text List BTreeSet

variable {i j : ℕ} {start text key : String} {letters u v : List Char} {c : Char}
  {keys : BTreeSet String}

def accountSyncPage : ℕ := 64

def ownEdgesRoot : String := "graph/"

def cycleRoots : List String :=
  ["profile", "trust/always-visible/", "follow/", ownEdgesRoot, "channel/"]

def keyAlphabet : String := "-/0123456789abcdefghijklmnopqrstuvwxyz"

/-! ### Steps of the cycle -/

/-- The letter that follows in the alphabet. -/
def nextLetter (letter : Char) : Option Char :=
  (keyAlphabet.toList.dropWhile (· ≠ letter))[1]?

/-- The start after the one whose letters are given in reverse. -/
def nextCyclePrefixOf : List Char → Option String
  | [] => none
  | last :: parent =>
    match cycleRoots.idxOf? (String.ofList (last :: parent).reverse) with
    | some index => cycleRoots[index + 1]?
    | none =>
      match nextLetter last with
      | some next => some (String.ofList (next :: parent).reverse)
      | none => nextCyclePrefixOf parent

/-- The start that the cycle goes on with when it is done with one. -/
def nextCyclePrefix (start : String) : Option String := nextCyclePrefixOf start.toList.reverse

structure DocKeyPage where
  entries : List String
  reachedLimit : Bool
  deriving DecidableEq, Repr

/-- The keys with the given start, in ascending order. -/
def queryReplicaKeys (keys : BTreeSet String) (start : String) (limit : ℕ) : DocKeyPage where
  entries := (keys.toList.filter (startsWith start)).take limit
  reachedLimit := limit ≤ (keys.toList.filter (startsWith start)).length

/-- The keys that the cycle returns for a start, and where it goes on. -/
def accountSyncCycleKeys (keys : BTreeSet String) (start : String) :
    List String × Option String :=
  let page := queryReplicaKeys keys start accountSyncPage
  let complete := !page.reachedLimit
  (page.entries.filter fun key => complete || key = start,
    if complete then nextCyclePrefix start
    else some (start ++ String.ofList (keyAlphabet.toList.take 1)))

/-! ### Positions -/

/-- The position of a text, given the roots from a number on. -/
def positionFrom (text : String) : List String → ℕ → ℕ ×ₗ List Char
  | [], i => toLex (i, text.toList)
  | root :: roots, i =>
    match stripPrefix root text with
    | some rest => toLex (i, rest.toList)
    | none => positionFrom text roots (i + 1)

/-- The position of a text: the root that it starts with, and what follows. -/
def position (text : String) : ℕ ×ₗ List Char := positionFrom text cycleRoots 0

/-- The letters are those of keys. -/
def Spelled (letters : List Char) : Prop := ∀ c ∈ letters, c ∈ keyAlphabet.toList

/-- The text is that of a root and further letters. -/
structure Placed (text : String) (i : ℕ) (letters : List Char) : Prop where
  spelled : Spelled letters
  text_eq : ∃ root, cycleRoots[i]? = some root ∧ text = root ++ String.ofList letters

/-- Keys that the cycle can reach: a root followed by letters of the alphabet. -/
def IsCycleKey (key : String) : Prop := ∃ i letters, Placed key i letters

theorem position_append {root : String} (hroot : cycleRoots[i]? = some root) (rest : String) :
  position (root ++ rest) = toLex (i, rest.toList)
  := by
  rcases i with _ | _ | _ | _ | _ | i
  case succ.succ.succ.succ.succ => cases hroot
  all_goals
    cases hroot
    simp (disch := decide) only [position, cycleRoots, positionFrom, ownEdgesRoot,
      stripPrefix_append_of_not, stripPrefix_append]

section

variable (h : Placed text i letters)
include h

theorem Placed.position_eq :
  position text = toLex (i, letters)
  := by
  obtain ⟨root, hroot, rfl⟩ := h.text_eq
  rw [position_append hroot, String.toList_ofList]

theorem Placed.lt :
  i < 5
  := by
  obtain ⟨root, hroot, -⟩ := h.text_eq
  apply (List.getElem?_eq_some_iff.mp hroot).1

/-- Texts at one position are equal. -/
theorem Placed.text_unique {text' : String} (h' : Placed text' i letters) :
  text = text'
  := by
  obtain ⟨root, hroot, rfl⟩ := h.text_eq
  obtain ⟨root', hroot', rfl⟩ := h'.text_eq
  rw [hroot] at hroot'
  rw [Option.some.inj hroot']

/-- A text that continues another is further on under the same root. -/
theorem Placed.append {more : List Char} (hmore : Spelled more) :
  Placed (text ++ String.ofList more) i (letters ++ more)
  := by
  obtain ⟨root, hroot, rfl⟩ := h.text_eq
  refine ⟨?_, root, hroot, ?_⟩
  · intro c hc
    rcases mem_append.mp hc with hc | hc
    · apply h.spelled c hc
    · apply hmore c hc
  · rw [← String.toList_inj]
    simp

theorem Placed.startsWith_iff {text' : String} {letters' : List Char}
    (h' : Placed text' j letters') :
  startsWith text text' ↔ j = i ∧ letters <+: letters'
  := by
  rw [Text.startsWith_iff]
  obtain ⟨root, hroot, rfl⟩ := h.text_eq
  constructor
  · rintro ⟨rest, rfl⟩
    have hposition := h'.position_eq
    rw [String.append_assoc, position_append hroot] at hposition
    obtain ⟨rfl, rfl⟩ := Prod.mk.inj (toLex_inj.mp hposition)
    simp
  · rintro ⟨rfl, more, rfl⟩
    have happend : Placed (root ++ String.ofList letters ++ String.ofList more) j
        (letters ++ more) := by
      apply h.append
      intro c hc
      apply h'.spelled c (mem_append_right letters hc)
    exact ⟨String.ofList more, h'.text_unique happend⟩

end

/-! ### Where the cycle goes on -/

theorem toList_keyAlphabet :
  keyAlphabet.toList = ['-', '/', '0', '1', '2', '3', '4', '5', '6', '7', '8', '9', 'a', 'b', 'c',
    'd', 'e', 'f', 'g', 'h', 'i', 'j', 'k', 'l', 'm', 'n', 'o', 'p', 'q', 'r', 's', 't', 'u', 'v',
    'w', 'x', 'y', 'z']
  := by
  decide

/-- The letters are in ascending order. -/
theorem pairwise_keyAlphabet :
  keyAlphabet.toList.Pairwise (· < ·)
  := by
  decide

/-- The alphabet around a letter: the lesser ones, and the greater ones of which the first is the
next letter. -/
theorem exists_alphabet_around (hc : c ∈ keyAlphabet.toList) :
  ∃ before after, keyAlphabet.toList = before ++ c :: after ∧ nextLetter c = after.head? ∧
    (∀ d ∈ before, d < c) ∧ (c :: after).Pairwise (· < ·)
  := by
  obtain ⟨before, after, halphabet⟩ := append_of_mem hc
  have hsorted := pairwise_keyAlphabet
  rw [halphabet, pairwise_append] at hsorted
  have hbefore : ∀ d ∈ before, d < c := fun d hd => hsorted.2.2 d hd c (by simp)
  refine ⟨before, after, halphabet, ?_, hbefore, hsorted.2.1⟩
  have hdrop : (before ++ c :: after).dropWhile (· ≠ c) = c :: after := by
    rw [dropWhile_append_of_pos]
    · simp
    · intro d hd
      simpa using ne_of_lt (hbefore d hd)
  rw [nextLetter, halphabet, hdrop]
  cases after <;> rfl

theorem nextLetter_eq_some {c' : Char} (hc : c ∈ keyAlphabet.toList) (h : nextLetter c = some c') :
  c' ∈ keyAlphabet.toList ∧ c < c' ∧ ∀ d ∈ keyAlphabet.toList, c < d → c' ≤ d
  := by
  obtain ⟨before, after, halphabet, hnext, hbefore, hsorted⟩ := exists_alphabet_around hc
  rw [h] at hnext
  obtain ⟨rest, rfl⟩ := head?_eq_some_iff.mp hnext.symm
  obtain ⟨hfirst, hafter⟩ := pairwise_cons.mp hsorted
  rw [halphabet]
  refine ⟨by simp, hfirst c' (by simp), ?_⟩
  intro d hd hcd
  rcases mem_append.mp hd with hd | hd
  · exact absurd (hbefore d hd) (not_lt.mpr (le_of_lt hcd))
  · rcases mem_cons.mp hd with rfl | hd
    · exact absurd hcd (lt_irrefl _)
    · rcases mem_cons.mp hd with rfl | hd
      · exact le_refl _
      · exact le_of_lt ((pairwise_cons.mp hafter).1 d hd)

theorem nextLetter_eq_none (hc : c ∈ keyAlphabet.toList) (h : nextLetter c = none) :
  ∀ d ∈ keyAlphabet.toList, d ≤ c
  := by
  obtain ⟨before, after, halphabet, hnext, hbefore, -⟩ := exists_alphabet_around hc
  rw [h] at hnext
  obtain rfl := head?_eq_none_iff.mp hnext.symm
  intro d hd
  rw [halphabet] at hd
  rcases mem_append.mp hd with hd | hd
  · exact le_of_lt (hbefore d hd)
  · rw [mem_singleton.mp hd]

theorem dash_le {d : Char} (hd : d ∈ keyAlphabet.toList) :
  '-' ≤ d
  := by
  have hsorted := pairwise_keyAlphabet
  rcases mem_cons.mp hd with rfl | hd
  · exact le_refl _
  · exact le_of_lt ((pairwise_cons.mp hsorted).1 d hd)

theorem nextCyclePrefix_root {root : String} (hroot : cycleRoots[i]? = some root) :
  nextCyclePrefix root = cycleRoots[i + 1]?
  := by
  rcases i with _ | _ | _ | _ | _ | i
  case succ.succ.succ.succ.succ => cases hroot
  all_goals
    cases hroot
    decide

/-- A root is followed by the next root, another start by the start with the next letter, or by
that which follows its parent. -/
theorem nextCyclePrefix_append (h : Placed start i letters) (hc : c ∈ keyAlphabet.toList) :
  nextCyclePrefix (start ++ String.ofList [c]) =
    match nextLetter c with
    | some c' => some (start ++ String.ofList [c'])
    | none => nextCyclePrefix start
  := by
  have hreverse : (start ++ String.ofList [c]).toList.reverse = c :: start.toList.reverse := by
    simp
  have htext : ∀ d, String.ofList (d :: start.toList.reverse).reverse
      = start ++ String.ofList [d] := by
    intro d
    simp
  -- The text is not a root: it has a letter more than the root that it starts with.
  have hnot : cycleRoots.idxOf? (start ++ String.ofList [c]) = none := by
    rw [idxOf?_eq_none_iff]
    intro hmem
    obtain ⟨j, hj⟩ := mem_iff_getElem?.mp hmem
    have hplaced : Placed (start ++ String.ofList [c]) i (letters ++ [c]) := by
      apply h.append
      simpa [Spelled] using hc
    have hposition := position_append hj ""
    rw [String.append_empty, hplaced.position_eq] at hposition
    have hletters := (Prod.mk.inj (toLex_inj.mp hposition)).2
    simp at hletters
  rw [nextCyclePrefix, hreverse, nextCyclePrefixOf, htext, hnot]
  cases nextLetter c with
  | some c' => simp only [htext]
  | none => rfl

/-- Where the cycle goes on: after everything with the start, and before everything else that is
still ahead. -/
structure Follows (i : ℕ) (letters : List Char) (next : Option String) : Prop where
  placed : ∀ q ∈ next, ∃ j letters', Placed q j letters' ∧ letters'.length ≤ letters.length ∧
    toLex (i, letters) < toLex (j, letters')
  ahead : ∀ j letters', j < 5 → Spelled letters' → toLex (i, letters) ≤ toLex (j, letters') →
    ((∀ q ∈ next, toLex (j, letters') < position q) ↔ j = i ∧ letters <+: letters')

theorem lex_le_iff :
  toLex (i, u) ≤ toLex (j, v) ↔ i < j ∨ i = j ∧ u ≤ v
  := Prod.Lex.toLex_le_toLex

theorem lex_lt_iff :
  toLex (i, u) < toLex (j, v) ↔ i < j ∨ i = j ∧ u < v
  := Prod.Lex.toLex_lt_toLex

theorem lex_between {w : List Char} (hle : toLex (i, u) ≤ toLex (j, v))
    (hlt : toLex (j, v) < toLex (i, w)) :
  i = j ∧ u ≤ v ∧ v < w
  := by
  rcases lex_le_iff.mp hle with hij | ⟨rfl, huv⟩
  · rcases lex_lt_iff.mp hlt with hji | ⟨rfl, -⟩
    · omega
    · exact absurd hij (lt_irrefl _)
  · exact ⟨rfl, huv, ((lex_lt_iff.mp hlt).resolve_left (lt_irrefl _)).2⟩

theorem follows_root {root : String} (hroot : cycleRoots[i]? = some root) :
  Follows i [] (nextCyclePrefix root)
  := by
  rw [nextCyclePrefix_root hroot]
  have hplaced : ∀ q ∈ cycleRoots[i + 1]?, Placed q (i + 1) [] := by
    intro q hq
    refine ⟨by simp [Spelled], q, hq, ?_⟩
    simp
  constructor
  · intro q hq
    refine ⟨i + 1, [], hplaced q hq, le_refl _, ?_⟩
    left
    apply Nat.lt_succ_self
  · intro j letters' hj hspelled hle
    have hij : i ≤ j := by
      rcases lex_le_iff.mp hle with hlt | ⟨rfl, -⟩
      · exact le_of_lt hlt
      · exact le_refl _
    constructor
    · intro hbefore
      refine ⟨?_, nil_prefix⟩
      cases hq : cycleRoots[i + 1]? with
      | none =>
        have hlast := getElem?_eq_none_iff.mp hq
        have hlength : cycleRoots.length = 5 := rfl
        omega
      | some q =>
        have hlt := hbefore q hq
        rw [(hplaced q hq).position_eq, lex_lt_iff] at hlt
        rcases hlt with hlt | ⟨-, hlt⟩
        · omega
        · exact absurd hlt (not_lt_nil _)
    · rintro ⟨rfl, -⟩ q hq
      rw [(hplaced q hq).position_eq, lex_lt_iff]
      left
      apply Nat.lt_succ_self

/-- A word between one and its continuation by a letter is that word, or it goes on with a lesser
letter. -/
theorem between_cases (hle : u ≤ v) (hlt : v < u ++ [c]) :
  v = u ∨ ∃ d rest, v = u ++ d :: rest ∧ d < c
  := by
  by_cases hstart : u <+: v
  · obtain ⟨rest, rfl⟩ := hstart
    cases rest with
    | nil => simp
    | cons d rest =>
      right
      refine ⟨d, rest, rfl, ?_⟩
      rcases cons_lt_cons_iff.mp (Scan.append_lt_append_iff.mp hlt) with hdc | ⟨-, hrest⟩
      · exact hdc
      · exact absurd hrest (not_lt_nil _)
  · have hne : u ≠ v := by
      rintro rfl
      apply hstart prefix_rfl
    have hafter := Scan.append_lt_of_lt (lt_of_le_of_ne hle hne) hstart [c]
    exact absurd hlt (not_lt.mpr (le_of_lt hafter))

/-- A word that is not before the continuation of a start by a letter, but has the start, goes on
with that letter or a greater one. -/
theorem letter_of_le (hstart : u <+: v) (hle : u ++ [c] ≤ v) :
  ∃ d rest, v = u ++ d :: rest ∧ c ≤ d
  := by
  obtain ⟨rest, rfl⟩ := hstart
  have hrest := Scan.append_le_append_iff.mp hle
  cases rest with
  | nil => exact absurd hrest (by simp)
  | cons d rest =>
    refine ⟨d, rest, rfl, ?_⟩
    by_contra hdc
    apply absurd hrest
    rw [not_le]
    exact cons_lt_cons_iff.mpr (.inl (not_le.mp hdc))

theorem follows_letter (h : Placed start i letters) (hc : c ∈ keyAlphabet.toList)
    (ih : Follows i letters (nextCyclePrefix start)) :
  Follows i (letters ++ [c]) (nextCyclePrefix (start ++ String.ofList [c]))
  := by
  rw [nextCyclePrefix_append h hc]
  have hextends : letters <+: letters ++ [c] := prefix_append _ _
  cases hnext : nextLetter c with
  | some c' =>
    obtain ⟨hc', hlt, hleast⟩ := nextLetter_eq_some hc hnext
    have hplaced : Placed (start ++ String.ofList [c']) i (letters ++ [c']) := by
      apply h.append
      simpa [Spelled] using hc'
    constructor
    · intro q hq
      cases hq
      refine ⟨i, letters ++ [c'], hplaced, by simp, ?_⟩
      rw [lex_lt_iff]
      right
      refine ⟨rfl, Scan.append_lt_append_iff.mpr ?_⟩
      exact cons_lt_cons_iff.mpr (.inl hlt)
    · intro j letters' hj hspelled hle
      constructor
      · intro hbefore
        have hlt' := hbefore _ rfl
        rw [hplaced.position_eq] at hlt'
        obtain ⟨rfl, hle, hlt'⟩ := lex_between hle hlt'
        refine ⟨rfl, ?_⟩
        obtain rfl | ⟨d, rest, rfl, hdc'⟩ :=
          between_cases (le_trans (Scan.le_of_prefix hextends) hle) hlt'
        · exact absurd hle (not_le.mpr (Scan.lt_append_cons _ _ _))
        · obtain ⟨d', rest', heq, hcd⟩ := letter_of_le (prefix_append _ _) hle
          obtain ⟨rfl, rfl⟩ := cons.inj (append_cancel_left heq)
          have hd : d ∈ keyAlphabet.toList := hspelled d (by simp)
          -- There is no letter between a letter and the next one.
          obtain rfl : c = d := by
            by_contra hne
            exact absurd hdc' (not_lt.mpr (hleast d hd (lt_of_le_of_ne hcd hne)))
          simp
      · rintro ⟨rfl, rest, rfl⟩ q hq
        cases hq
        rw [hplaced.position_eq, lex_lt_iff]
        right
        refine ⟨rfl, ?_⟩
        rw [append_assoc]
        apply Scan.append_lt_append_iff.mpr
        exact cons_lt_cons_iff.mpr (.inl hlt)
  | none =>
    have hlast := nextLetter_eq_none hc hnext
    have hspelled : Spelled (letters ++ [c]) :=
      forall_mem_append.mpr ⟨h.spelled, forall_mem_singleton.mpr hc⟩
    have hle : toLex (i, letters) ≤ toLex (i, letters ++ [c]) := by
      rw [lex_le_iff]
      exact .inr ⟨rfl, Scan.le_of_prefix hextends⟩
    constructor
    · intro q hq
      obtain ⟨j, letters', hplaced, hlength, -⟩ := ih.placed q hq
      refine ⟨j, letters', hplaced, ?_, ?_⟩
      · rw [length_append]
        omega
      · rw [← hplaced.position_eq]
        apply (ih.ahead i (letters ++ [c]) h.lt hspelled hle).mpr ⟨rfl, hextends⟩ q hq
    · intro j letters' hj hspelled' hle'
      rw [ih.ahead j letters' hj hspelled' (le_trans hle hle')]
      constructor
      · rintro ⟨rfl, hstart⟩
        rw [lex_le_iff] at hle'
        obtain ⟨d, rest, rfl, hcd⟩ := letter_of_le hstart
          (hle'.resolve_left (lt_irrefl _)).2
        obtain rfl := le_antisymm hcd (hlast d (hspelled' d (by simp)))
        simp
      · rintro ⟨rfl, hstart⟩
        exact ⟨rfl, hextends.trans hstart⟩

/-- The cycle goes on after everything with the start. -/
theorem Placed.follows (h : Placed start i letters) :
  Follows i letters (nextCyclePrefix start)
  := by
  induction letters using reverseRecOn generalizing start with
  | nil =>
    obtain ⟨root, hroot, rfl⟩ := h.text_eq
    have hempty : root ++ String.ofList [] = root := by
      simp
    rw [hempty]
    apply follows_root hroot
  | append_singleton letters c ih =>
    obtain ⟨root, hroot, rfl⟩ := h.text_eq
    have hparent : Placed (root ++ String.ofList letters) i letters :=
      ⟨fun d hd => h.spelled d (by simp [hd]), root, hroot, rfl⟩
    have hlast : root ++ String.ofList (letters ++ [c])
        = root ++ String.ofList letters ++ String.ofList [c] := by
      rw [← String.toList_inj]
      simp
    rw [hlast]
    apply follows_letter hparent (h.spelled c (by simp)) (ih hparent)

/-! ### Pages -/

/-- The keys with the start. -/
def keysAt (keys : BTreeSet String) (start : String) : List String :=
  keys.toList.filter (startsWith start)

theorem mem_keysAt :
  key ∈ keysAt keys start ↔ key ∈ keys ∧ startsWith start key
  := by
  rw [keysAt, mem_filter, Std.ExtTreeSet.mem_toList]

theorem nodup_keysAt (keys : BTreeSet String) (start : String) :
  (keysAt keys start).Nodup
  := (nodup_toList keys).filter _

/-- Keys with a common start are in the order of their positions. -/
theorem pairwise_keysAt (h : Placed start i letters) (hkeys : ∀ key ∈ keys, IsCycleKey key) :
  (keysAt keys start).Pairwise fun a b => position a < position b
  := by
  have hsorted : (keysAt keys start).Pairwise (· < ·) :=
    (pairwise_lt_toList keys).filter _
  apply hsorted.imp_of_mem
  intro a b ha hb hab
  obtain ⟨ha, hstart⟩ := mem_keysAt.mp ha
  obtain ⟨hb, hstart'⟩ := mem_keysAt.mp hb
  obtain ⟨j, u, hu⟩ := hkeys a ha
  obtain ⟨j', u', hu'⟩ := hkeys b hb
  obtain ⟨rfl, -⟩ := (h.startsWith_iff hu).mp hstart
  obtain ⟨rfl, -⟩ := (h.startsWith_iff hu').mp hstart'
  rw [hu.position_eq, hu'.position_eq, lex_lt_iff]
  right
  refine ⟨rfl, ?_⟩
  obtain ⟨root, hroot, rfl⟩ := hu.text_eq
  obtain ⟨root', hroot', rfl⟩ := hu'.text_eq
  rw [hroot] at hroot'
  cases hroot'
  rw [String.lt_iff_toList_lt, String.toList_append, String.toList_append,
    String.toList_ofList, String.toList_ofList] at hab
  apply Scan.append_lt_append_iff.mp hab

/-- The keys with a start are those up to where the cycle goes on. -/
theorem startsWith_iff_before (h : Placed start i letters) (hkey : IsCycleKey key) :
  startsWith start key ↔ position start ≤ position key ∧
    ∀ q ∈ nextCyclePrefix start, position key < position q
  := by
  obtain ⟨j, letters', hplaced⟩ := hkey
  rw [h.startsWith_iff hplaced, h.position_eq, hplaced.position_eq]
  constructor
  · rintro ⟨rfl, hstart⟩
    have hle : toLex (j, letters) ≤ toLex (j, letters') := by
      rw [lex_le_iff]
      exact .inr ⟨rfl, Scan.le_of_prefix hstart⟩
    exact ⟨hle, (h.follows.ahead j letters' hplaced.lt hplaced.spelled hle).mpr ⟨rfl, hstart⟩⟩
  · rintro ⟨hle, hbefore⟩
    apply (h.follows.ahead j letters' hplaced.lt hplaced.spelled hle).mp hbefore

theorem cycleKeys_of_complete (hcomplete : (keysAt keys start).length < accountSyncPage) :
  accountSyncCycleKeys keys start = (keysAt keys start, nextCyclePrefix start)
  := by
  have hlimit : (queryReplicaKeys keys start accountSyncPage).reachedLimit = false :=
    decide_eq_false (not_le.mpr hcomplete)
  have hentries : (queryReplicaKeys keys start accountSyncPage).entries = keysAt keys start :=
    take_of_length_le (le_of_lt hcomplete)
  simp [accountSyncCycleKeys, hlimit, hentries]

theorem cycleKeys_of_full (hfull : accountSyncPage ≤ (keysAt keys start).length) :
  accountSyncCycleKeys keys start =
    (((keysAt keys start).take accountSyncPage).filter (· = start),
      some (start ++ String.ofList ['-']))
  := by
  have hlimit : (queryReplicaKeys keys start accountSyncPage).reachedLimit = true :=
    decide_eq_true hfull
  have hfirst : keyAlphabet.toList.take 1 = ['-'] := by
    rfl
  have hentries : (queryReplicaKeys keys start accountSyncPage).entries
    = (keysAt keys start).take accountSyncPage := rfl
  simp [accountSyncCycleKeys, hlimit, hfirst, hentries]

theorem Placed.dash (h : Placed start i letters) :
  Placed (start ++ String.ofList ['-']) i (letters ++ ['-'])
  := by
  apply h.append
  rw [Spelled, toList_keyAlphabet]
  simp

/-- A start that is a key is the first of its keys. -/
theorem mem_take_of_start (hstart : start ∈ keys) :
  start ∈ (keysAt keys start).take accountSyncPage
  := by
  have hmem : start ∈ keysAt keys start :=
    mem_keysAt.mpr ⟨hstart, startsWith_iff.mpr ⟨"", String.append_empty.symm⟩⟩
  have hsorted : (keysAt keys start).Pairwise (· < ·) :=
    (pairwise_lt_toList keys).filter _
  cases hkeysAt : keysAt keys start with
  | nil =>
    rw [hkeysAt] at hmem
    cases hmem
  | cons first rest =>
    rw [hkeysAt] at hmem hsorted
    rcases mem_cons.mp hmem with rfl | hrest
    · simp [accountSyncPage]
    · have hfirst : first ∈ keysAt keys start := by
        rw [hkeysAt]
        simp
      obtain ⟨more, rfl⟩ := startsWith_iff.mp (mem_keysAt.mp hfirst).2
      have hlt := (pairwise_cons.mp hsorted).1 start hrest
      rw [String.lt_iff_toList_lt, String.toList_append] at hlt
      exact absurd hlt (not_lt.mpr (Scan.le_of_prefix (prefix_append _ _)))

/-- A step of the cycle is a page of a scan. -/
theorem isPage_cycleKeys (h : Placed start i letters) (hkeys : ∀ key ∈ keys, IsCycleKey key) :
  Scan.IsPage position {key | key ∈ keys} start (accountSyncCycleKeys keys start).1
    (accountSyncCycleKeys keys start).2
  := by
  rcases lt_or_ge (keysAt keys start).length accountSyncPage with hcomplete | hfull
  · rw [cycleKeys_of_complete hcomplete]
    constructor
    · intro q hq
      obtain ⟨j, letters', hplaced, -, hlt⟩ := h.follows.placed q hq
      rw [h.position_eq, hplaced.position_eq]
      exact hlt
    · intro key
      rw [mem_keysAt]
      constructor
      · rintro ⟨hkey, hstart⟩
        exact ⟨hkey, (startsWith_iff_before h (hkeys key hkey)).mp hstart⟩
      · rintro ⟨hkey, hbetween⟩
        exact ⟨hkey, (startsWith_iff_before h (hkeys key hkey)).mpr hbetween⟩
    · apply pairwise_keysAt h hkeys
  · rw [cycleKeys_of_full hfull]
    constructor
    · intro q hq
      cases hq
      rw [h.position_eq, h.dash.position_eq, lex_lt_iff]
      exact .inr ⟨rfl, Scan.lt_append_cons _ _ _⟩
    · intro key
      rw [mem_filter, decide_eq_true_eq]
      constructor
      · rintro ⟨hmem, rfl⟩
        refine ⟨(mem_keysAt.mp (mem_of_mem_take hmem)).1, le_refl _, ?_⟩
        intro q hq
        cases hq
        rw [h.position_eq, h.dash.position_eq, lex_lt_iff]
        exact .inr ⟨rfl, Scan.lt_append_cons _ _ _⟩
      · rintro ⟨hkey, hle, hbefore⟩
        obtain ⟨j, letters', hplaced⟩ := hkeys key hkey
        have hlt := hbefore _ rfl
        rw [h.position_eq, hplaced.position_eq] at hle
        rw [h.dash.position_eq, hplaced.position_eq] at hlt
        obtain ⟨rfl, hle, hlt⟩ := lex_between hle hlt
        obtain rfl | ⟨d, rest, rfl, hd⟩ := between_cases hle hlt
        · obtain rfl := h.text_unique hplaced
          exact ⟨mem_take_of_start hkey, rfl⟩
        · exact absurd hd (not_lt.mpr (dash_le (hplaced.spelled d (by simp))))
    · apply ((pairwise_keysAt h hkeys).sublist (take_sublist _ _)).filter

/-- The cycle goes on with a start that is spelled like a key. -/
theorem isCycleKey_next (h : Placed start i letters) :
  ∀ q ∈ (accountSyncCycleKeys keys start).2, IsCycleKey q
  := by
  intro q hq
  rcases lt_or_ge (keysAt keys start).length accountSyncPage with hcomplete | hfull
  · rw [cycleKeys_of_complete hcomplete] at hq
    obtain ⟨j, letters', hplaced, -⟩ := h.follows.placed q hq
    exact ⟨j, letters', hplaced⟩
  · rw [cycleKeys_of_full hfull] at hq
    cases hq
    exact ⟨i, _, h.dash⟩

/-- A page has at most 64 keys. -/
theorem length_cycleKeys_le (keys : BTreeSet String) (start : String) :
  (accountSyncCycleKeys keys start).1.length ≤ accountSyncPage
  := by
  apply le_trans (length_filter_le _ _)
  apply length_take_le

/-! ### Runs of the cycle -/

/-- The starts with at most the given number of letters after the root. -/
def startsUpTo (n : ℕ) : Set String :=
  {text | ∃ i letters, Placed text i letters ∧ letters.length ≤ n}

theorem finite_startsUpTo (n : ℕ) :
  (startsUpTo n).Finite
  := by
  apply ((cycleRoots.toFinset.finite_toSet.prod
    (Scan.finite_words keyAlphabet.toList.toFinset n)).image
      fun cell => cell.1 ++ String.ofList cell.2).subset
  rintro text ⟨i, letters, hplaced, hlength⟩
  obtain ⟨root, hroot, rfl⟩ := hplaced.text_eq
  refine ⟨(root, letters), ⟨?_, hlength, ?_⟩, rfl⟩
  · simpa using mem_of_getElem? hroot
  · intro c hc
    simpa using hplaced.spelled c hc

/-- The cycle does not go deeper than the keys. -/
theorem next_mem_startsUpTo {keys : BTreeSet String} (hkeys : ∀ key ∈ keys, IsCycleKey key)
    {n : ℕ} (hn : ∀ key ∈ keys, ∀ i letters, Placed key i letters → letters.length ≤ n)
    (hstart : start ∈ startsUpTo n) :
  ∀ q ∈ (accountSyncCycleKeys keys start).2, q ∈ startsUpTo n
  := by
  obtain ⟨i, letters, hplaced, hlength⟩ := hstart
  intro q hq
  rcases lt_or_ge (keysAt keys start).length accountSyncPage with hcomplete | hfull
  · rw [cycleKeys_of_complete hcomplete] at hq
    obtain ⟨j, letters', hplaced', hlength', -⟩ := hplaced.follows.placed q hq
    exact ⟨j, letters', hplaced', le_trans hlength' hlength⟩
  · rw [cycleKeys_of_full hfull] at hq
    cases hq
    -- Among 64 keys there is one that is longer than the start.
    obtain ⟨key, hkey, hne⟩ : ∃ key ∈ keysAt keys start, key ≠ start := by
      by_contra hall
      push Not at hall
      have hone := eq_replicate_iff.mpr ⟨rfl, hall⟩
      have hnodup := nodup_keysAt keys start
      rw [hone, nodup_replicate] at hnodup
      have hpage : accountSyncPage = 64 := rfl
      omega
    obtain ⟨hmem, hstarts⟩ := mem_keysAt.mp hkey
    obtain ⟨j, letters', hplaced'⟩ := hkeys key hmem
    obtain ⟨rfl, more, rfl⟩ := (hplaced.startsWith_iff hplaced').mp hstarts
    have hmore : more ≠ [] := by
      rintro rfl
      rw [append_nil] at hplaced'
      apply hne (hplaced'.text_unique hplaced)
    have hlength' := hn key hmem j _ hplaced'
    refine ⟨j, letters ++ ['-'], hplaced.dash, ?_⟩
    rw [length_append] at hlength' ⊢
    have hpos := length_pos_iff.mpr hmore
    simp only [length_singleton]
    omega

/-- The number of the root that a key is under. -/
def rootIndex (key : String) : ℕ := (ofLex (position key)).1

/-- Steps of the cycle one after the other, each with the keys that there are at its time. -/
inductive CycleRun (start : String) : List (BTreeSet String × List String) → Option String → Prop
  | nil : CycleRun start [] (some start)
  | snoc {steps : List (BTreeSet String × List String)} {q : String}
      (keys : BTreeSet String) : CycleRun start steps (some q) →
      CycleRun start (steps ++ [(keys, (accountSyncCycleKeys keys q).1)])
        (accountSyncCycleKeys keys q).2

theorem placed_first :
  Placed "profile" 0 []
  := ⟨by simp [Spelled], "profile", rfl, rfl⟩

theorem position_first_le (hkey : IsCycleKey key) :
  position "profile" ≤ position key
  := by
  obtain ⟨i, letters, hplaced⟩ := hkey
  rw [placed_first.position_eq, hplaced.position_eq, lex_le_iff]
  rcases Nat.eq_zero_or_pos i with rfl | hpos
  · exact .inr ⟨rfl, Scan.le_of_prefix nil_prefix⟩
  · exact .inl hpos

/-- A run of the cycle is a run of a scan. -/
theorem CycleRun.scan {steps : List (BTreeSet String × List String)} {next : Option String}
    (hrun : CycleRun "profile" steps next)
    (hkeys : ∀ step ∈ steps, ∀ key ∈ step.1, IsCycleKey key) :
  Scan.Run position "profile" (steps.map fun step => ({key | key ∈ step.1}, step.2)) next ∧
    ∀ q ∈ next, IsCycleKey q
  := by
  induction hrun with
  | nil =>
    refine ⟨.nil, ?_⟩
    intro q hq
    cases hq
    exact ⟨0, [], placed_first⟩
  | @snoc steps q keys _ ih =>
    obtain ⟨hscan, hplaced⟩ := ih fun step hstep => hkeys step (mem_append_left _ hstep)
    obtain ⟨i, letters, hplaced⟩ := hplaced q rfl
    have hpage := isPage_cycleKeys hplaced
      (hkeys (keys, (accountSyncCycleKeys keys q).1) (by simp))
    rw [map_append]
    refine ⟨hscan.snoc hpage, ?_⟩
    apply isCycleKey_next hplaced

/-- A cycle that has ended has made a step. -/
theorem CycleRun.exists_step {steps : List (BTreeSet String × List String)}
    (hrun : CycleRun start steps none) :
  ∃ step, step ∈ steps
  := by
  generalize hnext : (none : Option String) = next at hrun
  cases hrun with
  | nil => cases hnext
  | snoc keys _ => exact ⟨_, mem_append_right _ (mem_singleton_self _)⟩

/-- The cycle over keys that do not change ends, returns every key once, at most 64 at a time and
root by root. A cycle over keys that change returns every key that is there all the time. -/
theorem cycle_covers :
  (∀ keys : BTreeSet String, (∀ key ∈ keys, IsCycleKey key) →
      ∃ fuel pages, Scan.collect (accountSyncCycleKeys keys) fuel "profile" = some pages ∧
        pages.flatten.Perm keys.toList ∧ (∀ page ∈ pages, page.length ≤ accountSyncPage) ∧
        pages.flatten.Pairwise fun key key' => rootIndex key ≤ rootIndex key') ∧
    ∀ steps, CycleRun "profile" steps none →
      (∀ step ∈ steps, ∀ key ∈ step.1, IsCycleKey key) →
      ∀ key, (∀ step ∈ steps, key ∈ step.1) → ∃ step ∈ steps, key ∈ step.2
  := by
  constructor
  · intro keys hkeys
    obtain ⟨n, hn⟩ := (keys.toList.map fun key => key.toList.length).toFinset.bddAbove
    have hn' : ∀ key ∈ keys, ∀ i letters, Placed key i letters → letters.length ≤ n := by
      intro key hkey i letters hplaced
      have hlength : key.toList.length ≤ n := by
        apply hn
        simpa using ⟨key, hkey, rfl⟩
      obtain ⟨root, -, rfl⟩ := hplaced.text_eq
      rw [String.toList_append, String.toList_ofList, length_append] at hlength
      omega
    have hpage : ∀ start ∈ startsUpTo n, Scan.IsPage position {key | key ∈ keys} start
        (accountSyncCycleKeys keys start).1 (accountSyncCycleKeys keys start).2 := by
      rintro start ⟨i, letters, hplaced, -⟩
      apply isPage_cycleKeys hplaced hkeys
    have hnext : ∀ start ∈ startsUpTo n, ∀ q ∈ (accountSyncCycleKeys keys start).2,
        q ∈ startsUpTo n := fun start hstart => next_mem_startsUpTo hkeys hn' hstart
    have hfirst : "profile" ∈ startsUpTo n := ⟨0, [], placed_first, by simp⟩
    obtain ⟨fuel, pages, hpages⟩ := Scan.exists_collect (finite_startsUpTo n) hpage hnext hfirst
    obtain ⟨hsorted, hmem, hfrom⟩ := Scan.collect_eq_some hpage hnext hfirst hpages
    refine ⟨fuel, pages, hpages, ?_, ?_, ?_⟩
    · have hnodup : pages.flatten.Nodup := hsorted.imp fun hlt heq => by simp [heq] at hlt
      apply (perm_ext_iff_of_nodup hnodup (nodup_toList keys)).mpr
      intro key
      rw [hmem, Std.ExtTreeSet.mem_toList]
      exact ⟨fun h => h.1, fun h => ⟨h, position_first_le (hkeys key h)⟩⟩
    · intro page hpage
      obtain ⟨start, -, rfl⟩ := hfrom page hpage
      apply length_cycleKeys_le
    · apply hsorted.imp
      intro key key' hlt
      rcases Prod.Lex.lt_iff.mp hlt with hlt | ⟨heq, -⟩
      · exact le_of_lt hlt
      · exact le_of_eq heq
  · intro steps hrun hkeys key hstays
    obtain ⟨hscan, -⟩ := hrun.scan hkeys
    have hkey : IsCycleKey key := by
      obtain ⟨step, hstep⟩ := hrun.exists_step
      apply hkeys step hstep key (hstays step hstep)
    have hstays' : ∀ page ∈ steps.map fun step => ({key | key ∈ step.1}, step.2),
        key ∈ page.1 := by
      intro page hpage
      obtain ⟨step, hstep, rfl⟩ := mem_map.mp hpage
      apply hstays step hstep
    obtain ⟨page, hpage, hreturned⟩ := hscan.covers hstays' (position_first_le hkey)
    obtain ⟨step, hstep, rfl⟩ := mem_map.mp hpage
    exact ⟨step, hstep, hreturned⟩

end Kukuri
