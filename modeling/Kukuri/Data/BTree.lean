import Mathlib

/-!
# Ordered maps and sets

`BTreeMap K V` and `BTreeSet K` are the extensional tree maps and sets whose order is the
linear order of `K`. On top of the standard library this file has

* `first` and `popFirst`: the least element of a set,
* `lastKeyValue`: the row of a map with the greatest key,
* `sumOver` and `countOver`: sums over the rows of a map, and how they change when a row is
  inserted, replaced or erased,
* `setOf`: the set of the elements of a list.
-/

open List Option Std.ExtTreeMap Std.ExtTreeSet

universe u v

/-- The comparison of a linear order tells its elements apart. -/
instance lawfulEqCmpOfLinearOrder {K : Type u} [order : LinearOrder K] :
    Std.LawfulEqCmp order.toOrd.compare :=
  ⟨compare_eq_iff_eq.mp⟩

instance transCmpOfLinearOrder {K : Type u} [order : LinearOrder K] :
    Std.TransCmp order.toOrd.compare :=
  inferInstance

/-- Maps ordered by their keys. -/
abbrev BTreeMap (K : Type u) (V : Type v) [order : LinearOrder K] :=
  Std.ExtTreeMap K V order.toOrd.compare

/-- Sets ordered by their elements. -/
abbrev BTreeSet (K : Type u) [order : LinearOrder K] :=
  Std.ExtTreeSet K order.toOrd.compare

variable {K : Type u} {V : Type v} [LinearOrder K]

namespace BTreeSet

variable {s t : BTreeSet K} {k : K}

/-! ### The least element -/

theorem pairwise_lt_toList (s : BTreeSet K) :
  s.toList.Pairwise (· < ·)
  := by
  apply s.ordered_toList.imp
  intro a b h
  apply compare_lt_iff_lt.mp h

theorem nodup_toList (s : BTreeSet K) :
  s.toList.Nodup
  := (pairwise_lt_toList s).imp ne_of_lt

/-- The least element. -/
def first (s : BTreeSet K) : Option K := s.toList.head?

theorem first_eq_none :
  first s = none ↔ s = ∅
  := by
  simp [first]

/-- The least element is an element below all others. -/
theorem first_eq_some {a : K} :
  first s = some a ↔ a ∈ s ∧ ∀ b ∈ s, a ≤ b
  := by
  have horder := pairwise_lt_toList s
  have hmem : ∀ b, b ∈ s ↔ b ∈ s.toList := fun b => mem_toList.symm
  simp only [first, hmem]
  cases hl : s.toList with
  | nil => simp
  | cons c cs =>
    rw [hl, pairwise_cons] at horder
    simp only [head?_cons, some.injEq, mem_cons, forall_eq_or_imp]
    constructor
    · rintro rfl
      exact ⟨.inl rfl, le_refl _, fun b hb => (horder.1 b hb).le⟩
    · rintro ⟨rfl | ha, hac, -⟩
      · rfl
      · exact absurd (horder.1 a ha) (not_lt.mpr hac)

/-- The least element and the set without it. -/
def popFirst (s : BTreeSet K) : Option (K × BTreeSet K) :=
  (first s).map fun a => (a, s.erase a)

theorem popFirst_eq_none :
  popFirst s = none ↔ s = ∅
  := by
  rw [popFirst, map_eq_none_iff, first_eq_none]

theorem popFirst_eq_some {a : K} :
  popFirst s = some (a, t) ↔ (a ∈ s ∧ ∀ b ∈ s, a ≤ b) ∧ t = s.erase a
  := by
  rw [popFirst, map_eq_some_iff, ← first_eq_some]
  constructor
  · rintro ⟨b, hb, hab⟩
    cases hab
    exact ⟨hb, rfl⟩
  · rintro ⟨ha, rfl⟩
    exact ⟨a, ha, rfl⟩

/-- The elements are the least one and those of the set without it. -/
theorem toList_of_popFirst {a : K} (h : popFirst s = some (a, t)) :
  s.toList = a :: t.toList
  := by
  obtain ⟨⟨ha, hleast⟩, rfl⟩ := popFirst_eq_some.mp h
  apply List.Pairwise.eq_of_mem_iff (pairwise_lt_toList s)
  · rw [List.pairwise_cons]
    refine ⟨fun b hb => ?_, pairwise_lt_toList _⟩
    obtain ⟨hne, hb⟩ : a ≠ b ∧ b ∈ s := by simpa using hb
    apply lt_of_le_of_ne (hleast b hb) hne
  · intro b
    simp only [List.mem_cons, Std.ExtTreeSet.mem_toList, Std.ExtTreeSet.mem_erase]
    grind

/-! ### The set of a list -/

/-- The set of the elements of a list. -/
def setOf (l : List K) : BTreeSet K := l.foldl (fun s a => s.insert a) ∅

theorem mem_foldl_insert (l : List K) (s : BTreeSet K) (a : K) :
  a ∈ l.foldl (fun s a => s.insert a) s ↔ a ∈ l ∨ a ∈ s
  := by
  induction l generalizing s with
  | nil => simp
  | cons b l ih =>
    rw [foldl_cons, ih]
    grind

@[simp]
theorem mem_setOf {l : List K} {a : K} :
  a ∈ setOf l ↔ a ∈ l
  := by
  simp [setOf, mem_foldl_insert]

/-- Taking the elements of a list out of a set. -/
theorem mem_foldl_erase (l : List K) (s : BTreeSet K) (a : K) :
  a ∈ l.foldl (fun s a => s.erase a) s ↔ a ∈ s ∧ a ∉ l
  := by
  induction l generalizing s with
  | nil => simp
  | cons b l ih =>
    rw [foldl_cons, ih]
    grind

/-- A list without repetition that has the elements of a set has its length. -/
theorem size_eq_length {l : List K} (hnodup : l.Nodup) (hmem : ∀ a, a ∈ l ↔ a ∈ s) :
  s.size = l.length
  := by
  rw [← Std.ExtTreeSet.length_toList]
  apply List.Perm.length_eq
  apply (perm_ext_iff_of_nodup (nodup_toList s) hnodup).mpr
  intro a
  rw [Std.ExtTreeSet.mem_toList, hmem]

theorem size_le_of_subset (h : ∀ a ∈ s, a ∈ t) :
  s.size ≤ t.size
  := by
  rw [← Std.ExtTreeSet.length_toList, ← Std.ExtTreeSet.length_toList]
  apply ((nodup_toList s).subperm _).length_le
  intro a ha
  rw [Std.ExtTreeSet.mem_toList] at ha ⊢
  apply h a ha

end BTreeSet

namespace BTreeMap

variable {m : BTreeMap K V} {k k' : K} {v : V}

theorem pairwise_lt_toList (m : BTreeMap K V) :
  m.toList.Pairwise (fun a b => a.1 < b.1)
  := by
  apply m.ordered_keys_toList.imp
  intro a b h
  apply compare_lt_iff_lt.mp h

theorem nodup_toList (m : BTreeMap K V) :
  m.toList.Nodup
  := by
  apply (pairwise_lt_toList m).imp
  rintro a _ h rfl
  exact lt_irrefl _ h

theorem mem_toList :
  (k, v) ∈ m.toList ↔ m[k]? = some v
  := mem_toList_iff_getElem?_eq_some

theorem mem_iff_exists :
  k ∈ m ↔ ∃ v, m[k]? = some v
  := by
  rw [mem_iff_isSome_getElem?, isSome_iff_exists]

theorem nodup_keys (m : BTreeMap K V) :
  m.keys.Nodup
  := by
  apply m.ordered_keys.imp
  intro a b h
  apply ne_of_lt (compare_lt_iff_lt.mp h)

theorem keys_eq_map (m : BTreeMap K V) :
  m.keys = m.toList.map Prod.fst
  := map_fst_toList_eq_keys.symm

theorem size_le_of_subset {W : Type v} {m' : BTreeMap K W} (h : ∀ k ∈ m, k ∈ m') :
  m.size ≤ m'.size
  := by
  rw [← length_keys, ← length_keys]
  apply ((nodup_keys m).subperm _).length_le
  intro k hk
  rw [Std.ExtTreeMap.mem_keys] at hk ⊢
  apply h k hk

/-- Erasing the elements of a list. -/
theorem mem_foldl_erase (l : List K) (m : BTreeMap K V) (k : K) :
  k ∈ l.foldl (fun m k => m.erase k) m ↔ k ∈ m ∧ k ∉ l
  := by
  induction l generalizing m with
  | nil => simp
  | cons k' l ih =>
    rw [foldl_cons, ih]
    grind

theorem getElem?_insert_of_ne (h : k ≠ k') :
  (m.insert k v)[k']? = m[k']?
  := by
  rw [Std.ExtTreeMap.getElem?_insert, if_neg]
  rw [Std.LawfulEqCmp.compare_eq_iff_eq]
  apply h

/-- The row that is found is the new one or an old one. -/
theorem getElem?_of_insert {w : V} (h : (m.insert k v)[k']? = some w) :
  k = k' ∧ v = w ∨ k ≠ k' ∧ m[k']? = some w
  := by
  by_cases hk : k = k'
  · subst hk
    rw [getElem?_insert_self] at h
    exact .inl ⟨rfl, some.inj h⟩
  · rw [getElem?_insert_of_ne hk] at h
    exact .inr ⟨hk, h⟩

theorem getElem?_erase_of_ne (h : k ≠ k') :
  (m.erase k)[k']? = m[k']?
  := by
  rw [getElem?_erase, if_neg]
  rw [Std.LawfulEqCmp.compare_eq_iff_eq]
  apply h

theorem getElem?_of_erase (h : (m.erase k)[k']? = some v) :
  m[k']? = some v
  := by
  rw [getElem?_erase] at h
  split at h
  · cases h
  · apply h

/-- The rows of a filtered map are rows of the map that pass the filter. -/
theorem getElem?_of_filter {p : K → V → Bool} (h : (m.filter p)[k]? = some v) :
  m[k]? = some v ∧ p k v
  := by
  rw [getElem?_filter'] at h
  apply filter_eq_some_iff.mp h

theorem getElem?_filter_of_pos {p : K → V → Bool} (h : m[k]? = some v) (hp : p k v) :
  (m.filter p)[k]? = some v
  := by
  rw [getElem?_filter']
  apply filter_eq_some_iff.mpr ⟨h, hp⟩

theorem erase_of_getElem?_eq_none (h : m[k]? = none) :
  m.erase k = m
  := by
  apply Std.ExtTreeMap.ext_getElem?
  intro k'
  grind

theorem size_insert_of_not_mem (h : k ∉ m) (v : V) :
  (m.insert k v).size = m.size + 1
  := by
  rw [Std.ExtTreeMap.size_insert, if_neg]
  apply h

/-! ### The greatest row -/

/-- The row with the greatest key. -/
def lastKeyValue (m : BTreeMap K V) : Option (K × V) := m.toList.getLast?

theorem lastKeyValue_eq_none :
  lastKeyValue m = none ↔ m = ∅
  := by
  rw [lastKeyValue, List.getLast?_eq_none_iff, Std.ExtTreeMap.toList_eq_nil_iff]

theorem lastKeyValue_eq_some (h : lastKeyValue m = some (k, v)) :
  m[k]? = some v ∧ ∀ k' ∈ m, k' ≤ k
  := by
  obtain ⟨rows, hrows⟩ := getLast?_eq_some_iff.mp h
  have horder := pairwise_lt_toList m
  rw [hrows, pairwise_append] at horder
  constructor
  · rw [← mem_toList, hrows]
    simp
  · intro k' hk'
    obtain ⟨v', hv'⟩ := mem_iff_exists.mp hk'
    rw [← mem_toList, hrows, mem_append, mem_singleton] at hv'
    rcases hv' with hv' | hv'
    · apply (horder.2.2 _ hv' _ (mem_singleton.mpr rfl)).le
    · apply (congrArg Prod.fst hv').le

/-- A map with more than one row has rows with different keys. -/
theorem exists_ne_of_size_ne_one (hk : k ∈ m) (hsize : m.size ≠ 1) :
  ∃ k' ∈ m, k' ≠ k
  := by
  by_contra! hall
  apply hsize
  rw [← length_keys]
  have hperm : m.keys.Perm [k] := by
    apply (perm_ext_iff_of_nodup (nodup_keys m) (nodup_singleton k)).mpr
    intro k'
    rw [Std.ExtTreeMap.mem_keys, List.mem_singleton]
    constructor
    · apply hall k'
    · rintro rfl
      apply hk
  apply hperm.length_eq

/-! ### Sums over the rows -/

/-- The sum of `f` over the rows of a map. -/
def sumOver (f : K → V → ℕ) (m : BTreeMap K V) : ℕ :=
  (m.toList.map fun row => f row.1 row.2).sum

/-- The number of rows that satisfy `p`. -/
def countOver (p : K → V → Bool) (m : BTreeMap K V) : ℕ :=
  sumOver (fun k v => if p k v then 1 else 0) m

@[simp]
theorem sumOver_empty (f : K → V → ℕ) :
  sumOver f (∅ : BTreeMap K V) = 0
  := rfl

@[simp]
theorem countOver_empty (p : K → V → Bool) :
  countOver p (∅ : BTreeMap K V) = 0
  := sumOver_empty _

/-- The rows of a map with a new row are the new row and the old ones. -/
theorem toList_insert_perm (v : V) (h : m[k]? = none) :
  (m.insert k v).toList.Perm ((k, v) :: m.toList)
  := by
  apply (List.perm_ext_iff_of_nodup (nodup_toList _) _).mpr
  · rintro ⟨a, b⟩
    simp only [List.mem_cons, mem_toList, Prod.mk.injEq, Std.ExtTreeMap.getElem?_insert,
      Std.LawfulEqCmp.compare_eq_iff_eq]
    by_cases hka : k = a
    · subst hka
      simp [h, eq_comm]
    · simp [hka, Ne.symm hka]
  · rw [List.nodup_cons]
    refine ⟨?_, nodup_toList m⟩
    rw [mem_toList, h]
    simp

/-- A new row adds its value to the sum. -/
theorem sumOver_insert (f : K → V → ℕ) (v : V) (h : m[k]? = none) :
  sumOver f (m.insert k v) = f k v + sumOver f m
  := by
  rw [sumOver, ((toList_insert_perm v h).map _).sum_eq]
  simp [sumOver]

theorem insert_erase_self (h : m[k]? = some v) :
  (m.erase k).insert k v = m
  := by
  apply Std.ExtTreeMap.ext_getElem?
  intro a
  grind

theorem erase_insert_self (m : BTreeMap K V) (k : K) (v : V) :
  (m.insert k v).erase k = m.erase k
  := by
  apply Std.ExtTreeMap.ext_getElem?
  intro a
  grind

/-- An erased row takes its value from the sum. -/
theorem sumOver_erase (f : K → V → ℕ) (h : m[k]? = some v) :
  sumOver f m = f k v + sumOver f (m.erase k)
  := by
  have herase : (m.erase k)[k]? = none := by simp
  rw [← sumOver_insert f v herase, insert_erase_self h]

/-- A replaced row changes the sum by the difference of the values. -/
theorem sumOver_replace (f : K → V → ℕ) (w : V) (h : m[k]? = some v) :
  sumOver f (m.insert k w) + f k v = sumOver f m + f k w
  := by
  have hinsert : (m.insert k w)[k]? = some w := by simp
  rw [sumOver_erase f hinsert, erase_insert_self, sumOver_erase f h]
  omega

theorem countOver_insert (p : K → V → Bool) (v : V) (h : m[k]? = none) :
  countOver p (m.insert k v) = (if p k v then 1 else 0) + countOver p m
  := sumOver_insert _ v h

theorem countOver_erase (p : K → V → Bool) (h : m[k]? = some v) :
  countOver p m = (if p k v then 1 else 0) + countOver p (m.erase k)
  := sumOver_erase _ h

theorem countOver_replace (p : K → V → Bool) (w : V) (h : m[k]? = some v) :
  countOver p (m.insert k w) + (if p k v then 1 else 0)
    = countOver p m + (if p k w then 1 else 0)
  := sumOver_replace _ w h

/-- Changing the values does not change how many rows satisfy `p` when it keeps `p`. -/
theorem countOver_map {p : K → V → Bool} {f : K → V → V} (h : ∀ k v, p k (f k v) = p k v) :
  countOver p (m.map f) = countOver p m
  := by
  simp [countOver, sumOver, h, Function.comp_def]

theorem countOver_erase_le (p : K → V → Bool) (m : BTreeMap K V) (k : K) :
  countOver p (m.erase k) ≤ countOver p m
  := by
  cases h : m[k]? with
  | none => rw [erase_of_getElem?_eq_none h]
  | some v =>
    rw [countOver_erase p h]
    omega

/-- At most all rows satisfy `p`. -/
theorem countOver_le_size (p : K → V → Bool) (m : BTreeMap K V) :
  countOver p m ≤ m.size
  := by
  rw [← Std.ExtTreeMap.length_toList, countOver, sumOver]
  have hle : ∀ row ∈ m.toList.map fun row => if p row.1 row.2 then 1 else 0, row ≤ 1 := by
    intro row hrow
    obtain ⟨⟨k, v⟩, -, rfl⟩ := mem_map.mp hrow
    split <;> simp
  have hsum := sum_le_card_nsmul _ _ hle
  simpa using hsum

theorem size_erase_of_mem (h : k ∈ m) :
  (m.erase k).size = m.size - 1
  := by
  rw [Std.ExtTreeMap.size_erase, if_pos]
  apply h

theorem size_insert_of_mem (h : k ∈ m) (v : V) :
  (m.insert k v).size = m.size
  := by
  rw [Std.ExtTreeMap.size_insert, if_pos]
  apply h

end BTreeMap
