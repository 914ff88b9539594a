import Kukuri.Data.BTree

/-!
# The rotating sample of fetch sources

A call takes the keys behind the cursor, goes on with the first keys if there are too few, and
moves the cursor to the last key that it took. So it takes the first of the keys in their cyclic
order, and the next call starts where it ended (`windows_cover`).
-/

namespace Kukuri.FetchWindow

open List

variable {Key EndpointAddr : Type} [LinearOrder Key]

/-- The keys of a call, and the cursor after it. -/
def fetchSourceWindow (source : BTreeMap Key EndpointAddr) (cursor : Option Key) (limit : ℕ) :
    List Key × Option Key :=
  let keys := match cursor with
    | some after =>
      let keys := (source.keys.filter (after < ·)).take limit
      if keys.length < limit then
        keys ++ (source.keys.filter (· ≤ after)).take (limit - keys.length)
      else keys
    | none => source.keys.take limit
  (keys, keys.getLast?.or cursor)

/-- The cursor after a number of calls. -/
def cursorAfter (source : BTreeMap Key EndpointAddr) (limit : ℕ) (cursor : Option Key) :
    ℕ → Option Key
  | 0 => cursor
  | calls + 1 => (fetchSourceWindow source (cursorAfter source limit cursor calls) limit).2

/-- The keys in cyclic order, from the first one behind the cursor on. -/
def cyclicKeys (source : BTreeMap Key EndpointAddr) (cursor : Option Key) : List Key :=
  source.keys.rotate (source.keys.countP fun key => cursor.any (key ≤ ·))

variable {source : BTreeMap Key EndpointAddr} {cursor : Option Key} {limit : ℕ}

theorem pairwise_lt_keys (source : BTreeMap Key EndpointAddr) :
  source.keys.Pairwise (· < ·)
  := by
  rw [BTreeMap.keys_eq_map, pairwise_map]
  exact BTreeMap.pairwise_lt_toList source

/-- A value cuts a sorted list in two. -/
theorem filter_of_pairwise_lt {keys : List Key} (hsorted : keys.Pairwise (· < ·)) (after : Key) :
  keys.filter (· ≤ after) = keys.take (keys.countP (· ≤ after)) ∧
    keys.filter (after < ·) = keys.drop (keys.countP (· ≤ after))
  := by
  induction keys with
  | nil => simp
  | cons key keys ih =>
    obtain ⟨hkey, hsorted⟩ := pairwise_cons.mp hsorted
    obtain ⟨hle, hlt⟩ := ih hsorted
    by_cases hafter : key ≤ after
    · simp [hafter, hafter.not_gt, hle, hlt]
    · have hbehind : ∀ key' ∈ key :: keys, after < key' := by
        rw [forall_mem_cons]
        exact ⟨not_le.mp hafter, fun key' hmem => (not_le.mp hafter).trans (hkey key' hmem)⟩
      have hzero : (key :: keys).countP (· ≤ after) = 0 := by simpa using hbehind
      rw [hzero]
      simpa using hbehind

theorem fetchSourceWindow_fst :
  (fetchSourceWindow source cursor limit).1 = (cyclicKeys source cursor).take limit
  := by
  cases cursor with
  | none => simp [fetchSourceWindow, cyclicKeys]
  | some after =>
    obtain ⟨hle, hlt⟩ := filter_of_pairwise_lt (pairwise_lt_keys source) after
    simp only [fetchSourceWindow, cyclicKeys, Option.any_some, hle, hlt,
      rotate_eq_drop_append_take countP_le_length, take_append]
    rw [length_take]
    split
    case isTrue hfew => rw [min_eq_right (by omega)]
    case isFalse hfull => rw [Nat.sub_eq_zero_of_le (by omega), take_zero, append_nil]

theorem length_cyclicKeys :
  (cyclicKeys source cursor).length = source.size
  := by simp [cyclicKeys]

theorem countP_of_pairwise_lt {before behind : List Key} {key : Key}
    (hsorted : (before ++ key :: behind).Pairwise (· < ·)) :
  (before ++ key :: behind).countP (· ≤ key) = before.length + 1
  := by
  rw [pairwise_append, pairwise_cons] at hsorted
  obtain ⟨-, ⟨hbehind, -⟩, hbefore⟩ := hsorted
  have hall : before.countP (· ≤ key) = before.length :=
    countP_eq_length.mpr fun k hk => decide_eq_true (hbefore k hk key (.head _)).le
  have hnone : behind.countP (· ≤ key) = 0 :=
    countP_eq_zero.mpr fun k hk => by simpa using hbehind k hk
  simp [hall, hnone]

/-- Behind a key the cyclic order starts with the next one. -/
theorem cyclicKeys_of_getElem? {i : ℕ} {key : Key} (hkey : source.keys[i]? = some key) :
  cyclicKeys source (some key) = source.keys.rotate (i + 1)
  := by
  obtain ⟨hi, rfl⟩ := List.getElem?_eq_some_iff.mp hkey
  have hsplit := take_append_drop i source.keys
  rw [drop_eq_getElem_cons hi] at hsplit
  have hcount := countP_of_pairwise_lt (hsplit ▸ pairwise_lt_keys source)
  rw [hsplit, length_take, min_eq_left hi.le] at hcount
  simp [cyclicKeys, hcount]

/-- The next call starts where a call ended. -/
theorem cyclicKeys_next (hsize : 0 < source.size) (hlimit : 1 ≤ limit) :
  cyclicKeys source (fetchSourceWindow source cursor limit).2 =
    (cyclicKeys source cursor).rotate (min limit source.size)
  := by
  obtain ⟨offset, hoffset⟩ : ∃ offset, cyclicKeys source cursor = source.keys.rotate offset :=
    ⟨_, rfl⟩
  have hlast : (fetchSourceWindow source cursor limit).1.getLast? =
      source.keys[(min limit source.size - 1 + offset) % source.keys.length]? := by
    rw [fetchSourceWindow_fst, getLast?_eq_getElem?, length_take, length_cyclicKeys,
      getElem?_take_of_lt (by omega), hoffset, getElem?_rotate]
    rw [Std.ExtTreeMap.length_keys]
    omega
  have hlt : (min limit source.size - 1 + offset) % source.keys.length < source.keys.length := by
    apply Nat.mod_lt
    rwa [Std.ExtTreeMap.length_keys]
  obtain ⟨key, hkey⟩ : ∃ key, source.keys[_]? = some key := ⟨_, getElem?_eq_getElem hlt⟩
  have hcursor : (fetchSourceWindow source cursor limit).2 = some key := by
    change (fetchSourceWindow source cursor limit).1.getLast?.or cursor = some key
    rw [hlast, hkey, Option.some_or]
  calc cyclicKeys source (fetchSourceWindow source cursor limit).2
      = source.keys.rotate
          ((min limit source.size - 1 + offset) % source.keys.length + 1) := by
        rw [hcursor, cyclicKeys_of_getElem? hkey]
    _ = (source.keys.rotate offset).rotate (min limit source.size) := by
        rw [← rotate_rotate, rotate_mod, rotate_rotate, rotate_rotate]
        congr 1
        omega
    _ = (cyclicKeys source cursor).rotate (min limit source.size) := by rw [hoffset]

theorem cyclicKeys_cursorAfter (hsize : 0 < source.size) (hlimit : 1 ≤ limit) (calls : ℕ) :
  cyclicKeys source (cursorAfter source limit cursor calls) =
    (cyclicKeys source cursor).rotate (calls * min limit source.size)
  := by
  induction calls with
  | zero => simp [cursorAfter]
  | succ calls ih =>
    rw [cursorAfter, cyclicKeys_next hsize hlimit, ih, rotate_rotate, Nat.succ_mul]

/-- A call takes different keys, the first of the cyclic order, and so many calls as the keys need
take all of them. -/
theorem windows_cover (source : BTreeMap Key EndpointAddr) (cursor : Option Key) {limit : ℕ}
    (hlimit : 1 ≤ limit) :
  (fetchSourceWindow source cursor limit).1 = (cyclicKeys source cursor).take limit ∧
    (fetchSourceWindow source cursor limit).1.length = min limit source.size ∧
    (fetchSourceWindow source cursor limit).1.Nodup ∧
    ∀ key ∈ source, ∃ calls < (source.size + limit - 1) / limit,
      key ∈ (fetchSourceWindow source (cursorAfter source limit cursor calls) limit).1
  := by
  refine ⟨fetchSourceWindow_fst, ?_, ?_, ?_⟩
  · rw [fetchSourceWindow_fst, length_take, length_cyclicKeys]
  · rw [fetchSourceWindow_fst]
    apply List.Nodup.sublist (take_sublist _ _)
    simpa [cyclicKeys] using BTreeMap.nodup_keys source
  · intro key hkey
    have hmem : key ∈ cyclicKeys source cursor := by simpa [cyclicKeys] using hkey
    obtain ⟨i, hi, rfl⟩ := getElem_of_mem hmem
    rw [length_cyclicKeys] at hi
    have hwidth : 0 < min limit source.size := by omega
    refine ⟨i / min limit source.size, ?_, ?_⟩
    · rw [Nat.lt_iff_add_one_le, Nat.le_div_iff_mul_le hlimit, Nat.add_mul]
      have hstart : i / min limit source.size * limit ≤ i := by
        rcases le_total limit source.size with hle | hle
        · rw [min_eq_left hle]
          exact Nat.div_mul_le_self i limit
        · rw [min_eq_right hle, Nat.div_eq_of_lt hi, Nat.zero_mul]
          exact Nat.zero_le i
      omega
    · rw [fetchSourceWindow_fst, cyclicKeys_cursorAfter (by omega) hlimit, mem_iff_getElem]
      refine ⟨i % min limit source.size, ?_, ?_⟩
      · have := Nat.mod_lt i hwidth
        simp [length_cyclicKeys]
        omega
      · rw [getElem_take, getElem_rotate]
        congr 1
        rw [length_cyclicKeys, mul_comm, Nat.mod_add_div, Nat.mod_eq_of_lt hi]

def oneSource : BTreeMap String Unit := (∅ : BTreeMap String Unit).insert "a" ()

/-- A cursor that is not a key. -/
theorem windows_cover_one :
  1 ≤ 2 ∧ ∃ calls < 1,
    "a" ∈ (fetchSourceWindow oneSource (cursorAfter oneSource 2 (some "b") calls) 2).1
  := by
  refine ⟨by decide, ?_⟩
  apply (windows_cover oneSource (some "b") (show 1 ≤ 2 by decide)).2.2.2
  simp [oneSource]

end Kukuri.FetchWindow
