import Mathlib

/-!
# Scans

A scan goes through keys in pages. Every key has a position in a linear order. The page at a
cursor returns the keys between the position of the cursor and that of the cursor at which the
scan goes on. Such a scan misses no key that stays (`Run.covers`), and over keys that do not
change it ends with every key once and in order (`exists_collect`).

The last section is about words in lexicographic order, where the words with a common start lie
together.
-/

namespace Scan

open List

variable {K P : Type} [LinearOrder P]

/-- A page returns the keys from the cursor up to the next one. -/
structure IsPage (pos : K → P) (keys : Set K) (cursor : K) (page : List K) (next : Option K) :
    Prop where
  progress : ∀ q ∈ next, pos cursor < pos q
  mem : ∀ k, k ∈ page ↔ k ∈ keys ∧ pos cursor ≤ pos k ∧ ∀ q ∈ next, pos k < pos q
  sorted : page.Pairwise fun a b => pos a < pos b

/-! ### Keys that change -/

/-- Pages one after the other, each over the keys that there are at its time. -/
inductive Run (pos : K → P) (cursor : K) : List (Set K × List K) → Option K → Prop
  | nil : Run pos cursor [] (some cursor)
  | snoc {pages : List (Set K × List K)} {q : K} {keys : Set K} {page : List K}
      {next : Option K} : Run pos cursor pages (some q) → IsPage pos keys q page next →
      Run pos cursor (pages ++ [(keys, page)]) next

/-- A key that stays has been returned, or the scan has not reached it yet. -/
theorem Run.returned_or_ahead {pos : K → P} {cursor k : K} {pages : List (Set K × List K)}
    {next : Option K} (hrun : Run pos cursor pages next) (hstays : ∀ page ∈ pages, k ∈ page.1)
    (hk : pos cursor ≤ pos k) :
  (∃ page ∈ pages, k ∈ page.2) ∨ ∃ q, next = some q ∧ pos q ≤ pos k
  := by
  induction hrun with
  | nil => exact .inr ⟨cursor, rfl, hk⟩
  | @snoc pages q keys page next _ hpage ih =>
    rcases ih fun page hmem => hstays page (mem_append_left _ hmem) with
      ⟨earlier, hmem, hreturned⟩ | ⟨_, hq, hahead⟩
    · exact .inl ⟨earlier, mem_append_left _ hmem, hreturned⟩
    cases hq
    by_cases hbefore : ∀ q' ∈ next, pos k < pos q'
    · left
      refine ⟨(keys, page), by simp, ?_⟩
      apply (hpage.mem k).mpr
      exact ⟨hstays (keys, page) (by simp), hahead, hbefore⟩
    · right
      push Not at hbefore
      exact hbefore

/-- A scan that ends has returned every key that stayed. -/
theorem Run.covers {pos : K → P} {cursor k : K} {pages : List (Set K × List K)}
    (hrun : Run pos cursor pages none) (hstays : ∀ page ∈ pages, k ∈ page.1)
    (hk : pos cursor ≤ pos k) :
  ∃ page ∈ pages, k ∈ page.2
  := by
  rcases hrun.returned_or_ahead hstays hk with hreturned | ⟨_, hnone, -⟩
  · exact hreturned
  · cases hnone

/-! ### Keys that do not change -/

/-- The pages from a cursor to the end, if there are not too many. -/
def collect (pageAt : K → List K × Option K) : ℕ → K → Option (List (List K))
  | 0, _ => none
  | fuel + 1, cursor =>
    match (pageAt cursor).2 with
    | none => some [(pageAt cursor).1]
    | some next => (collect pageAt fuel next).map ((pageAt cursor).1 :: ·)

section

variable {pageAt : K → List K × Option K} {pos : K → P} {keys : Set K} {S : Set K}

/-- The pages that are collected return the keys from the cursor on, each once and in order. -/
theorem collect_eq_some (hpage : ∀ c ∈ S, IsPage pos keys c (pageAt c).1 (pageAt c).2)
    (hnext : ∀ c ∈ S, ∀ q ∈ (pageAt c).2, q ∈ S) {fuel : ℕ} {cursor : K} (hcursor : cursor ∈ S)
    {pages : List (List K)} (h : collect pageAt fuel cursor = some pages) :
  (pages.flatten.Pairwise fun a b => pos a < pos b) ∧
    (∀ k, k ∈ pages.flatten ↔ k ∈ keys ∧ pos cursor ≤ pos k) ∧
    ∀ page ∈ pages, ∃ c ∈ S, page = (pageAt c).1
  := by
  induction fuel generalizing cursor pages with
  | zero => cases h
  | succ fuel ih =>
    have hthis := hpage cursor hcursor
    rw [collect] at h
    generalize hq : (pageAt cursor).2 = current at h hthis
    cases current with
    | none =>
      cases h
      refine ⟨by simpa using hthis.sorted, ?_, by simpa using ⟨cursor, hcursor, rfl⟩⟩
      intro k
      simpa using hthis.mem k
    | some q =>
      obtain ⟨rest, hrest, rfl⟩ := Option.map_eq_some_iff.mp h
      obtain ⟨hsorted, hmem, hfrom⟩ := ih (hnext cursor hcursor q hq) hrest
      rw [flatten_cons]
      refine ⟨?_, ?_, ?_⟩
      · refine pairwise_append.mpr ⟨hthis.sorted, hsorted, ?_⟩
        intro a ha b hb
        apply lt_of_lt_of_le (((hthis.mem a).mp ha).2.2 q rfl) ((hmem b).mp hb).2
      · intro k
        rw [mem_append, hthis.mem, hmem]
        constructor
        · rintro (⟨hk, hfrom, -⟩ | ⟨hk, hfrom⟩)
          · exact ⟨hk, hfrom⟩
          · exact ⟨hk, le_trans (le_of_lt (hthis.progress q rfl)) hfrom⟩
        · rintro ⟨hk, hfrom⟩
          rcases lt_or_ge (pos k) (pos q) with hlt | hge
          · left
            refine ⟨hk, hfrom, ?_⟩
            intro q' hq'
            cases hq'
            exact hlt
          · exact .inr ⟨hk, hge⟩
      · intro page hpage
        rcases mem_cons.mp hpage with rfl | hpage
        · exact ⟨cursor, hcursor, rfl⟩
        · apply hfrom page hpage

/-- A scan through finitely many cursors ends. -/
theorem exists_collect (hfinite : S.Finite)
    (hpage : ∀ c ∈ S, IsPage pos keys c (pageAt c).1 (pageAt c).2)
    (hnext : ∀ c ∈ S, ∀ q ∈ (pageAt c).2, q ∈ S) {cursor : K} (hcursor : cursor ∈ S) :
  ∃ fuel pages, collect pageAt fuel cursor = some pages
  := by
  -- Every cursor is followed by one with fewer cursors ahead.
  induction hn : {c ∈ S | pos cursor < pos c}.ncard using Nat.strong_induction_on
    generalizing cursor with
  | _ n ih =>
    cases hq : (pageAt cursor).2 with
    | none =>
      refine ⟨1, [(pageAt cursor).1], ?_⟩
      rw [collect, hq]
    | some q =>
      have hqS := hnext cursor hcursor q hq
      have hprogress := (hpage cursor hcursor).progress q hq
      have hfewer : {c ∈ S | pos q < pos c}.ncard < n := by
        rw [← hn]
        apply Set.ncard_lt_ncard _ (hfinite.subset (Set.sep_subset S _))
        refine ⟨fun c hc => ⟨hc.1, lt_trans hprogress hc.2⟩, ?_⟩
        intro hsubset
        exact absurd (hsubset ⟨hqS, hprogress⟩).2 (lt_irrefl _)
      obtain ⟨fuel, pages, hpages⟩ := ih _ hfewer hqS rfl
      refine ⟨fuel + 1, (pageAt cursor).1 :: pages, ?_⟩
      rw [collect, hq]
      apply Option.map_eq_some_iff.mpr ⟨pages, hpages, rfl⟩

end

/-! ### Words -/

/-- There are finitely many short words over finitely many letters. -/
theorem finite_words {α : Type} (letters : Finset α) (n : ℕ) :
  {word : List α | word.length ≤ n ∧ ∀ a ∈ word, a ∈ letters}.Finite
  := by
  apply ((finite_length_le letters n).image (map Subtype.val)).subset
  rintro word ⟨hlength, hletters⟩
  refine ⟨word.attachWith _ hletters, ?_, attachWith_map_subtype_val hletters⟩
  simpa using hlength

section

variable {α : Type} [LinearOrder α]

/-- A word that is after another and does not continue it is after everything that does. -/
theorem append_lt_of_lt {u v : List α} (h : u < v) (hnot : ¬ u <+: v) (w : List α) :
  u ++ w < v
  := by
  induction u generalizing v with
  | nil => exact absurd nil_prefix hnot
  | cons a u ih =>
    cases v with
    | nil => exact absurd h (not_lt_nil _)
    | cons b v =>
      rw [cons_append, cons_lt_cons_iff]
      rcases cons_lt_cons_iff.mp h with hab | ⟨rfl, huv⟩
      · exact .inl hab
      · right
        refine ⟨rfl, ih huv ?_⟩
        intro hstart
        apply hnot
        apply cons_prefix_cons.mpr ⟨rfl, hstart⟩

theorem append_lt_append_iff {u v w : List α} :
  u ++ v < u ++ w ↔ v < w
  := by
  induction u with
  | nil => rfl
  | cons a u ih =>
    simp [ih]

theorem append_le_append_iff {u v w : List α} :
  u ++ v ≤ u ++ w ↔ v ≤ w
  := by
  rw [← not_lt, ← not_lt, append_lt_append_iff]

theorem lt_append_cons (u : List α) (a : α) (w : List α) :
  u < u ++ a :: w
  := by
  nth_rewrite 1 [← append_nil u]
  apply append_lt_append_iff.mpr
  exact nil_lt_cons a w

theorem le_of_prefix {u v : List α} (h : u <+: v) :
  u ≤ v
  := by
  obtain ⟨w, rfl⟩ := h
  rw [← not_lt]
  intro hlt
  nth_rewrite 2 [← append_nil u] at hlt
  apply not_lt_nil w (append_lt_append_iff.mp hlt)

/-- Between two words with a common start all words have it. -/
theorem isPrefix_of_between {u v w t : List α} (hleft : u ++ v ≤ t) (hright : t ≤ u ++ w) :
  u <+: t
  := by
  by_contra hnot
  have hstart : u ≤ u ++ v := le_of_prefix (prefix_append u v)
  have hle : u ≤ t := hstart.trans hleft
  have hne : u ≠ t := fun heq => hnot (heq ▸ prefix_rfl)
  exact (append_lt_of_lt (lt_of_le_of_ne hle hne) hnot w).not_ge hright

end

end Scan
