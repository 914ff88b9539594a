import Mathlib

/-!
# Paging

A source answers with pages: some rows, and the cursor at which the next page starts unless the
rows are at their end. Such a source is described by the rows that remain from a cursor on. If
every page consists of the first of the remaining rows, the pages together are exactly the rows
that remained at the start (`Exact.exists_pages`), and a cursor on the way splits them into those
that have been returned and those that remain (`Exact.reached`).

The last section is about rows in the order of their positions, where the rows that remain are
those behind a position.
-/

namespace Paging

open List

variable {C R : Type}

/-! ### Pages -/

/-- The pages from a cursor on, if there are not more than the given number. -/
def pages (pageAt : C → List R × Option C) : ℕ → C → Option (List (List R))
  | 0, _ => none
  | n + 1, cursor =>
    match (pageAt cursor).2 with
    | none => some [(pageAt cursor).1]
    | some next => (pages pageAt n next).map ((pageAt cursor).1 :: ·)

/-- The pages up to a cursor. -/
inductive Reached (pageAt : C → List R × Option C) (start : C) : List (List R) → C → Prop
  | start : Reached pageAt start [] start
  | next {before : List (List R)} {cursor next : C} : Reached pageAt start before cursor →
      (pageAt cursor).2 = some next →
      Reached pageAt start (before ++ [(pageAt cursor).1]) next

/-- Every page consists of the first of the remaining rows, and less work remains after it. -/
structure Exact (pageAt : C → List R × Option C) (remaining : C → List R) (work : C → ℕ)
    (cursors : Set C) : Prop where
  rows : ∀ c ∈ cursors, (pageAt c).1 ++ (pageAt c).2.elim [] remaining = remaining c
  next : ∀ c ∈ cursors, ∀ c', (pageAt c).2 = some c' → c' ∈ cursors ∧ work c' < work c

section

variable {pageAt : C → List R × Option C} {remaining : C → List R} {work : C → ℕ}
  {cursors : Set C}

/-- The pages come to an end, and hold the remaining rows. -/
theorem Exact.exists_pages (h : Exact pageAt remaining work cursors) {c : C}
    (hc : c ∈ cursors) :
  ∃ n result, pages pageAt n c = some result ∧ result.flatten = remaining c
  := by
  -- Each page leaves less work, so the induction is on a bound of the work.
  suffices hbound : ∀ bound c, c ∈ cursors → work c < bound →
      ∃ result, pages pageAt bound c = some result ∧ result.flatten = remaining c by
    obtain ⟨result, hpages, hrows⟩ := hbound (work c + 1) c hc (Nat.lt_succ_self _)
    exact ⟨work c + 1, result, hpages, hrows⟩
  intro bound
  induction bound with
  | zero => intro c _ hwork; omega
  | succ bound ih =>
    intro c hc hwork
    have hrows := h.rows c hc
    cases hnext : (pageAt c).2 with
    | none =>
      rw [hnext, Option.elim_none, append_nil] at hrows
      refine ⟨[(pageAt c).1], ?_, ?_⟩
      · simp only [pages, hnext]
      · simpa using hrows
    | some c' =>
      obtain ⟨hc', hless⟩ := h.next c hc c' hnext
      obtain ⟨result, hpages, hflatten⟩ := ih c' hc' (by omega)
      rw [hnext, Option.elim_some] at hrows
      refine ⟨(pageAt c).1 :: result, ?_, ?_⟩
      · simp only [pages, hnext, hpages, Option.map_some]
      · rw [flatten_cons, hflatten, hrows]

/-- What has been returned and what remains are the rows that remained at the start. -/
theorem Exact.reached (h : Exact pageAt remaining work cursors) {start c : C}
    {before : List (List R)} (hstart : start ∈ cursors) (hreached : Reached pageAt start before c) :
  c ∈ cursors ∧ before.flatten ++ remaining c = remaining start
  := by
  induction hreached with
  | start => exact ⟨hstart, rfl⟩
  | @next before c c' _ hnext ih =>
    obtain ⟨hc, hrows⟩ := ih
    have hpage := h.rows c hc
    rw [hnext, Option.elim_some] at hpage
    refine ⟨(h.next c hc c' hnext).1, ?_⟩
    rw [flatten_append, flatten_singleton, append_assoc, hpage, hrows]

end

/-! ### Rows in order -/

section

variable {P : Type} [LinearOrder P] (pos : R → P)

/-- The rows behind a position. -/
def behind (rows : List R) (p : P) : List R := rows.filter fun r => p < pos r

variable {pos}

theorem mem_behind {rows : List R} {p : P} {r : R} :
  r ∈ behind pos rows p ↔ r ∈ rows ∧ p < pos r
  := by
  simp [behind]

theorem behind_behind {rows : List R} {p q : P} (h : p ≤ q) :
  behind pos (behind pos rows p) q = behind pos rows q
  := by
  rw [behind, behind, behind, filter_filter]
  apply filter_congr
  intro r _
  by_cases hq : q < pos r
  · simp [hq, lt_of_le_of_lt h hq]
  · simp [hq]

/-- Behind the first of the rows are the others. -/
theorem behind_of_eq_cons {rows l : List R} {p : P} {r : R}
    (hsorted : rows.Pairwise fun a b => pos a < pos b) (h : behind pos rows p = r :: l) :
  behind pos rows (pos r) = l
  := by
  have hr : p < pos r := (mem_behind.mp (h ▸ mem_cons_self)).2
  have hrest : (r :: l).Pairwise fun a b => pos a < pos b := by
    rw [← h]
    apply hsorted.filter
  rw [← behind_behind hr.le, h, behind, filter_cons_of_neg (by simp)]
  apply filter_eq_self.mpr
  intro b hb
  exact decide_eq_true ((pairwise_cons.mp hrest).1 b hb)

/-- Behind the first rows are the others. -/
theorem behind_of_eq_append {rows first rest : List R} {p : P}
    (hsorted : rows.Pairwise fun a b => pos a < pos b) (h : behind pos rows p = first ++ rest) :
  behind pos rows ((first.map pos).getLastD p) = rest
  := by
  induction first generalizing p with
  | nil => exact h
  | cons r first ih =>
    have hrest := ih (behind_of_eq_cons hsorted h)
    rwa [map_cons, getLastD_cons]

/-- Behind a later position there are fewer rows if one of them has been passed. -/
theorem length_behind_lt {rows : List R} {p q : P} {r : R} (hr : r ∈ behind pos rows p)
    (h : p ≤ q) (hq : pos r ≤ q) :
  (behind pos rows q).length < (behind pos rows p).length
  := by
  rw [← behind_behind h]
  apply length_filter_lt_length_iff_exists.mpr
  exact ⟨r, hr, by simpa using hq⟩

end

end Paging
