import Mathlib

/-!
# Least elements of lists

`minBy order l` is the first of the least elements of a list. When the order compares the
values of a key in a linear order, the key of the result is the least one
(`minBy_spec`). Taking an element out of a list leaves a permutation (`perm_cons_eraseIdx`).
-/

open List

universe u v

/-- The first of the least elements of a list. -/
def minBy {α : Type u} (order : α → α → Ordering) : List α → Option α
  | [] => none
  | a :: l => some (l.foldl (fun least b => if order least b = .gt then b else least) a)

section

variable {α : Type u} {K : Type v} [LinearOrder K]

theorem minBy_eq_none {order : α → α → Ordering} {l : List α} :
  minBy order l = none ↔ l = []
  := by
  cases l <;> simp [minBy]

/-- The least element that the loop of `minBy` finds. -/
theorem foldl_min_spec (key : α → K) (l : List α) (a : α) :
  let least := l.foldl (fun least b => if compare (key least) (key b) = .gt then b else least) a
  (least = a ∨ least ∈ l) ∧ key least ≤ key a ∧ ∀ b ∈ l, key least ≤ key b
  := by
  induction l generalizing a with
  | nil => simp
  | cons b l ih =>
    simp only [foldl_cons]
    by_cases hgt : compare (key a) (key b) = .gt
    · obtain ⟨hmem, hle, hall⟩ := ih b
      rw [if_pos hgt]
      have hba := (compare_gt_iff_gt.mp hgt).le
      refine ⟨?_, hle.trans hba, ?_⟩
      · right
        rcases hmem with hmem | hmem
        · rw [hmem]
          simp
        · apply mem_cons_of_mem b hmem
      · intro c hc
        rcases mem_cons.mp hc with rfl | hc
        · apply hle
        · apply hall c hc
    · obtain ⟨hmem, hle, hall⟩ := ih a
      rw [if_neg hgt]
      have hab : key a ≤ key b := not_lt.mp fun h => hgt (compare_gt_iff_gt.mpr h)
      refine ⟨?_, hle, ?_⟩
      · rcases hmem with hmem | hmem
        · exact .inl hmem
        · exact .inr (mem_cons_of_mem b hmem)
      · intro c hc
        rcases mem_cons.mp hc with rfl | hc
        · apply hle.trans hab
        · apply hall c hc

/-- The result is an element with the least key. -/
theorem minBy_spec {order : α → α → Ordering} {key : α → K}
    (horder : ∀ a b, order a b = compare (key a) (key b)) {l : List α} {a : α}
    (h : minBy order l = some a) :
  a ∈ l ∧ ∀ b ∈ l, key a ≤ key b
  := by
  obtain rfl : order = fun a b => compare (key a) (key b) := by
    funext a b
    apply horder
  match l with
  | [] => cases h
  | b :: l =>
    cases h
    obtain ⟨hmem, hle, hall⟩ := foldl_min_spec key l b
    constructor
    · rcases hmem with hmem | hmem
      · rw [hmem]
        simp
      · apply mem_cons_of_mem b hmem
    · intro c hc
      rcases mem_cons.mp hc with rfl | hc
      · apply hle
      · apply hall c hc

/-- Taking out the element at an index. -/
theorem perm_cons_eraseIdx {l : List α} {i : ℕ} {a : α} (h : l[i]? = some a) :
  (a :: l.eraseIdx i).Perm l
  := by
  obtain ⟨hi, rfl⟩ := List.getElem?_eq_some_iff.mp h
  exact getElem_cons_eraseIdx_perm hi

/-- A property that some element has and no two elements share is had by exactly one. -/
theorem countP_eq_one {l : List α} {p : α → Bool}
    (hpair : l.Pairwise fun a b => ¬ (p a ∧ p b)) (hexists : ∃ a ∈ l, p a) :
  l.countP p = 1
  := by
  induction l with
  | nil => simp at hexists
  | cons a l ih =>
    rw [pairwise_cons] at hpair
    by_cases ha : p a
    · have hrest : l.countP p = 0 := by
        rw [countP_eq_zero]
        intro b hb hpb
        apply hpair.1 b hb ⟨ha, hpb⟩
      rw [countP_cons_of_pos ha, hrest]
    · rw [countP_cons_of_neg ha]
      apply ih hpair.2
      obtain ⟨b, hb, hpb⟩ := hexists
      rcases mem_cons.mp hb with rfl | hb
      · exact absurd hpb ha
      · exact ⟨b, hb, hpb⟩

end
