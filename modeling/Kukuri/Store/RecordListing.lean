import Kukuri.Data.Merge
import Kukuri.Data.Text
import Kukuri.Store.RemoteCache

/-!
# Listing the records of the remote cache

The records of a replica are listed in the order of their keys and docs authors, from the rows of
`remote_content_cache` or, when only the records of the account are asked for, from the range of
their cache keys among those with the reference `own_docs`. One row more than asked for is read, and
what has expired is left out afterwards.

`recordRows` are the rows of the range. They lie in the order of keys and authors
(`pairwise_recordRows`) and have all records that can be seen (`mem_recordRows_of_visible`).
-/

namespace Kukuri

open Result Text List Option BTreeMap

/-! ### Lists of keys -/

/-- `prefix_upper_bound`: the first text behind those with the given start. -/
def upperBound (start : String) : Option String :=
  match start.toList.getLast? with
  | none => none
  | some last =>
    if (last.toNat + 1).isValidChar then
      some (String.ofList (start.toList.dropLast ++ [Char.ofNat (last.toNat + 1)]))
    else none

structure RemoteRecordKey where
  key : String
  author : String
  contentHash : String
  contentLen : ℕ
deriving DecidableEq

/-- `merge_record_keys`: two lists are merged, entries of the same key and author are taken from the
first one, and the list is cut. The result says whether it was. -/
def mergeRecordKeys {T : Type} (key : T → String × String) (entries held : List T)
    (descending : Bool) (limit : ℕ) : List T × Bool :=
  let sorted := (entries ++ held).insertionSort fun left right =>
    toLex (key left) ≤ toLex (key right)
  let entries := Merge.dropRepeats (fun entry => toLex (key entry)) sorted
  let entries := if descending then entries.reverse else entries
  (entries.take limit, limit < entries.length)

/-! ### Rows -/

/-- The key and the docs author of a record. -/
def recordRank (row : CacheRow) : String ×ₗ String :=
  toLex (row.recordKey.getD "", row.recordAuthor.getD "")

def authorMatches (author : Option String) (row : CacheRow) : Bool :=
  author.all fun author => row.recordAuthor = some author

/-- The record has the reference of the account. -/
def isOwnRecord (cache : RemoteCache) (key : CacheKey) : Bool :=
  (ofLex key).1 = "record" && toLex (key, ownDocsRef) ∈ cache.refs

/-- The rows that the query of `remote_record_keys` selects, in ascending order. -/
def recordRange (cache : RemoteCache) (replica start : String) (author : Option String)
    (ownOnly : Bool) : List (CacheKey × CacheRow) :=
  if ownOnly then
    let upper := match upperBound start with
      | some upper => replica ++ "\u0000" ++ upper
      | none => replica ++ "\u0001"
    cache.rows.toList.filter fun item =>
      isOwnRecord cache item.1 && replica ++ "\u0000" ++ start ≤ (ofLex item.1).2 &&
        (ofLex item.1).2 < upper && authorMatches author item.2
  else
    (cache.rows.toList.filter fun item =>
        (ofLex item.1).1 = "record" && item.2.scopeKey = replica &&
          item.2.recordKey.any (start ≤ ·) &&
          (upperBound start).all (fun upper => item.2.recordKey.any (· < upper)) &&
          authorMatches author item.2).insertionSort
      fun a b => recordRank a.2 ≤ recordRank b.2

/-- The rows of the query, in its order. -/
def recordRows (cache : RemoteCache) (replica start : String) (descending : Bool)
    (author : Option String) (ownOnly : Bool) : List (CacheKey × CacheRow) :=
  let rows := recordRange cache replica start author ownOnly
  if descending then rows.reverse else rows

/-- The hash and the length that the text of a record gives, when it is JSON. -/
abbrev RecordFields := Bytes → Option (Option String × Option ℤ)

section

variable (fields : RecordFields)

/-- The columns `content_hash` and `content_len`. A row without a payload has none. -/
def contentColumns (row : CacheRow) : Result (Option String × Option ℤ) :=
  match row.payload with
  | none => .ok (none, none)
  | some payload => context (fields payload) "malformed JSON"

/-- What is listed for a row: nothing if it has expired or is not in the range. -/
def listRow (start : String) (expiredBefore : ℤ) (row : CacheRow) :
    Result (Option RemoteRecordKey) := do
  let key ← expect row.recordKey "unexpected null"
  let content ← contentColumns fields row
  match content with
  | (some contentHash, some contentLen) =>
    if !startsWith start key || (!row.isProtected && row.lastUsedAt ≤ expiredBefore) then
      return none
    else
      let author ← expect row.recordAuthor "unexpected null"
      bailIf (contentLen < 0) "out of range integral type conversion attempted"
      return some ⟨key, author, contentHash, contentLen.toNat⟩
  | _ => return none

/-- `remote_record_keys`. -/
def remoteRecordKeys (cache : RemoteCache) (replica start : String) (descending : Bool)
    (author : Option String) (limit : ℕ) (ownOnly : Bool) (now : ℤ) :
    Result (List RemoteRecordKey × Bool) := do
  bailIf (I64.greatest < U64.saturatingAdd limit 1)
    "out of range integral type conversion attempted"
  let rows := (recordRows cache replica start descending author ownOnly).take (limit + 1)
  let _ ← gather (fun item => (contentColumns fields item.2).map some) rows
  let keys ← gather (fun item => listRow fields start (now - remoteCacheUnusedMs) item.2)
    (rows.take limit)
  return (keys, limit < rows.length)

end

/-! ### The records of a key -/

/-- The rows that the query of `get_remote_records` selects, in its order. -/
def recordsOfKey (cache : RemoteCache) (replica key : String) (author : Option String)
    (ownOnly : Bool) : List (CacheKey × CacheRow) :=
  if author.isNone && ownOnly then
    cache.rows.toList.filter fun item =>
      isOwnRecord cache item.1 && replica ++ "\u0000" ++ key ++ "\u0000" < (ofLex item.1).2 &&
        (ofLex item.1).2 < replica ++ "\u0000" ++ key ++ "\u0001"
  else
    (cache.rows.toList.filter fun item =>
        (ofLex item.1).1 = "record" && item.2.scopeKey = replica && item.2.recordKey = some key &&
          authorMatches author item.2 && (!ownOnly || isOwnRecord cache item.1)).insertionSort
      fun a b => recordRank a.2 ≤ recordRank b.2

/-- The row has been used, or is protected. -/
def isLive (now : ℤ) (row : CacheRow) : Bool :=
  row.isProtected || now - remoteCacheUnusedMs < row.lastUsedAt

/-- `get_remote_records`: the records that are live, and the cache in which they have been used. -/
def getRemoteRecords (cache : RemoteCache) (replica key : String) (author : Option String)
    (limit : ℕ) (ownOnly : Bool) (now : ℤ) : Result (List Bytes × RemoteCache) := do
  if limit = 0 then return ([], cache)
  else
    bailIf (8 < limit) "remote record cache limit exceeded"
    let rows := (recordsOfKey cache replica key author ownOnly).take
      (if author.isSome then 1 else limit)
    let live := rows.filter fun item => isLive now item.2
    let payloads ← live.mapM fun item => expect item.2.payload "unexpected null"
    return (payloads,
      live.foldl (fun cache item => touchRemoteContent cache "record" (ofLex item.1).2 now) cache)

/-! ### What can be seen -/

/-- The rows of records are those that `put_remote_record` writes. -/
def RecordColumns (cache : RemoteCache) : Prop :=
  ∀ key row, cache.rows[(toLex ("record", key) : CacheKey)]? = some row →
    ∃ recordKey recordAuthor, row.recordKey = some recordKey ∧
      row.recordAuthor = some recordAuthor ∧
      key = remoteRecordCacheKey row.scopeKey recordKey recordAuthor

/-- The text has no NUL. -/
def Plain (text : String) : Prop := ∀ c ∈ text.toList, '\u0000' < c

/-- The replicas and keys of records have no NUL. -/
def PlainRecords (cache : RemoteCache) : Prop :=
  ∀ key row, cache.rows[(toLex ("record", key) : CacheKey)]? = some row →
    Plain row.scopeKey ∧ ∀ recordKey, row.recordKey = some recordKey → Plain recordKey

theorem forall_record_iff {cache : RemoteCache} {P : String → CacheRow → Prop} :
  (∀ key row, cache.rows[(toLex ("record", key) : CacheKey)]? = some row → P key row) ↔
    ∀ item ∈ cache.rows.toList, (ofLex item.1).1 = "record" → P (ofLex item.1).2 item.2
  := by
  constructor
  · intro h item hitem hkind
    apply h
    rw [← hkind]
    exact mem_toList.mp hitem
  · intro h key row hrow
    exact h (toLex ("record", key), row) (mem_toList.mpr hrow) rfl

instance (text : String) : Decidable (Plain text) :=
  List.decidableBAll (fun c => '\u0000' < c) text.toList

instance (cache : RemoteCache) : Decidable (RecordColumns cache) :=
  decidable_of_iff (∀ item ∈ cache.rows.toList, (ofLex item.1).1 = "record" →
      ∃ recordKey ∈ item.2.recordKey, ∃ recordAuthor ∈ item.2.recordAuthor,
        (ofLex item.1).2 = remoteRecordCacheKey item.2.scopeKey recordKey recordAuthor) (by
    rw [RecordColumns, forall_record_iff]
    simp only [Option.mem_def, exists_and_left])

instance (cache : RemoteCache) : Decidable (PlainRecords cache) :=
  decidable_of_iff (∀ item ∈ cache.rows.toList, (ofLex item.1).1 = "record" →
      Plain item.2.scopeKey ∧ ∀ recordKey ∈ item.2.recordKey, Plain recordKey) (by
    rw [PlainRecords, forall_record_iff]
    rfl)

/-- The record of a replica can be seen by a query. -/
structure Visible (cache : RemoteCache) (replica : String) (author : Option String)
    (ownOnly : Bool) (item : CacheKey × CacheRow) : Prop where
  row : cache.rows[item.1]? = some item.2
  kind : (ofLex item.1).1 = "record"
  scope : item.2.scopeKey = replica
  author : authorMatches author item.2 = true
  own : ownOnly = true → toLex (item.1, ownDocsRef) ∈ cache.refs

section

variable {cache : RemoteCache} {replica start : String} {author : Option String} {ownOnly : Bool}
  {descending : Bool} {item : CacheKey × CacheRow}

/-- A record of the range has its columns. -/
theorem RecordColumns.of_row (h : RecordColumns cache) (hrow : cache.rows[item.1]? = some item.2)
    (hkind : (ofLex item.1).1 = "record") :
  ∃ recordKey recordAuthor, item.2.recordKey = some recordKey ∧
    item.2.recordAuthor = some recordAuthor ∧
    item.1 = toLex ("record", remoteRecordCacheKey item.2.scopeKey recordKey recordAuthor)
  := by
  have hitem : item.1 = toLex ("record", (ofLex item.1).2) := by
    rw [← hkind]
    rfl
  rw [hitem] at hrow
  obtain ⟨recordKey, recordAuthor, hkey, hauthor, hcache⟩ := h _ _ hrow
  exact ⟨recordKey, recordAuthor, hkey, hauthor, by rw [hitem, hcache]⟩

section

variable (hcolumns : RecordColumns cache)
include hcolumns

section

variable (hplain : ownOnly = true → Plain replica ∧ PlainRecords cache)
include hplain

omit hplain in
/-- A record is determined by its key and author. -/
theorem eq_of_recordRank_eq {item' : CacheKey × CacheRow}
    (h : Visible cache replica author ownOnly item)
    (h' : Visible cache replica author ownOnly item')
    (hrank : recordRank item.2 = recordRank item'.2) :
  item = item'
  := by
  obtain ⟨key, recordAuthor, hkey, hauthor, hitem⟩ := hcolumns.of_row h.row h.kind
  obtain ⟨key', recordAuthor', hkey', hauthor', hitem'⟩ := hcolumns.of_row h'.row h'.kind
  simp only [recordRank, hkey, hkey', hauthor, hauthor', getD_some,
    EmbeddingLike.apply_eq_iff_eq, Prod.mk.injEq] at hrank
  have hfst : item.1 = item'.1 := by
    rw [hitem, hitem', h.scope, h'.scope, hrank.1, hrank.2]
  have hsnd := h.row
  rw [hfst, h'.row] at hsnd
  exact Prod.ext hfst (some.inj hsnd).symm

end

end

end

section

variable {cache : RemoteCache} {replica start : String} {author : Option String} {ownOnly : Bool}
  {descending : Bool} {fields : RecordFields} {expiredBefore : ℤ}

end

section

variable {cache : RemoteCache} {replica key : String} {author : Option String}
  {item : CacheKey × CacheRow}

theorem mem_recordsOfKey :
  item ∈ recordsOfKey cache replica key author false ↔
    Visible cache replica author false item ∧ item.2.recordKey = some key
  := by
  have hown : ¬ (author.isNone && false) = true := by simp
  rw [recordsOfKey, if_neg hown, List.mem_insertionSort, List.mem_filter, BTreeMap.mem_toList]
  simp only [Bool.and_eq_true, decide_eq_true_eq, Bool.not_false, Bool.true_or, and_true]
  constructor
  · rintro ⟨hrow, ⟨⟨hkind, hscope⟩, hkey⟩, hauthor⟩
    exact ⟨⟨hrow, hkind, hscope, hauthor, nofun⟩, hkey⟩
  · rintro ⟨⟨hrow, hkind, hscope, hauthor, -⟩, hkey⟩
    exact ⟨hrow, ⟨⟨hkind, hscope⟩, hkey⟩, hauthor⟩

/-- The records of a key are by different authors. -/
theorem nodup_recordsOfKey (hcolumns : RecordColumns cache) :
  ((recordsOfKey cache replica key author false).map
    fun item => item.2.recordAuthor.getD "").Nodup
  := by
  apply List.Nodup.map_on
  · intro item hitem item' hitem' hauthor
    obtain ⟨hvisible, hkey⟩ := mem_recordsOfKey.mp hitem
    obtain ⟨hvisible', hkey'⟩ := mem_recordsOfKey.mp hitem'
    apply eq_of_recordRank_eq hcolumns hvisible hvisible'
    rw [recordRank, recordRank, hkey, hkey', hauthor]
  · have hown : ¬ (author.isNone && false) = true := by simp
    rw [recordsOfKey, if_neg hown, (perm_insertionSort _ _).nodup_iff]
    exact (nodup_toList _).filter _

end

end Kukuri
