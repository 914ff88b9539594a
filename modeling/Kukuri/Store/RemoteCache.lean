import Kukuri.Data.Ledger
import Kukuri.Data.Bytes
import Kukuri.Data.Hex
import Kukuri.Data.Machine
import Kukuri.Data.Order

/-!
# The cache of remote content

The SQLite store keeps remote content in `remote_content_cache`, the references that protect it in
`remote_content_cache_protected_ref`, and the bytes of the unprotected rows as one running total in
`remote_content_cache_usage`: a `Ledger`. Bytes that are being fetched are reserved in memory. Each
function below is one transaction. It returns the ledger that it commits and the names of the files
that are removed afterwards.
-/

namespace Kukuri

open Result

def remoteCacheCapacityBytes : ℤ := 3 * 1024 * 1024 * 1024

def remoteCacheReclaimStep : ℕ := 128

def remoteCacheUnusedMs : ℤ := 7 * 24 * 60 * 60 * 1000

def remoteCacheTouchIntervalMs : ℤ := 60 * 60 * 1000

/-- The reference that protects the records of the account. -/
def ownDocsRef : String := "own_docs"

/-- The scope of blobs that are kept only while adult content is shown. -/
def remoteAdultBlobScope : String := "adult"

/-- The primary key: kind and cache key. -/
abbrev CacheKey := String ×ₗ String

instance lawfulBEqCacheKey : LawfulBEq CacheKey := inferInstance

instance transCmpCacheKey : Std.TransCmp (inferInstance : LinearOrder CacheKey).toOrd.compare :=
  transCmpOfLinearOrder

instance transCmpCacheRef :
    Std.TransCmp (inferInstance : LinearOrder (CacheKey ×ₗ String)).toOrd.compare :=
  transCmpOfLinearOrder

/-- A row of `remote_content_cache`. -/
structure CacheRow where
  scopeKey : String
  recordKey : Option String
  recordAuthor : Option String
  payload : Option Bytes
  fileName : Option String
  chargedBytes : ℕ
  isProtected : Bool
  lastUsedAt : ℤ
deriving DecidableEq

/-- The charge and the mark of a row. -/
def cacheColumns : Charging CacheRow where
  charge row := row.chargedBytes
  isProtected row := row.isProtected
  protect flag row := { row with isProtected := flag }
  charge_protect _ _ := rfl
  isProtected_protect _ _ := rfl

@[simp]
theorem cacheColumns_charge (row : CacheRow) :
  cacheColumns.charge row = row.chargedBytes
  := rfl

@[simp]
theorem cacheColumns_isProtected (row : CacheRow) :
  cacheColumns.isProtected row = row.isProtected
  := rfl

abbrev RemoteCache := Ledger CacheKey CacheRow String

/-- What is stored: bytes in the row, or a file of its own. -/
inductive CachePayload where
  | bytes (content : Bytes)
  | file (name : String) (bytes : ℕ)
deriving DecidableEq

namespace CachePayload

def length : CachePayload → ℕ
  | bytes content => content.length
  | file _ length => length

def inline : CachePayload → Option Bytes
  | bytes content => some content
  | file .. => none

def fileName : CachePayload → Option String
  | bytes _ => none
  | file name _ => some name

end CachePayload

/-- The bytes that a row is charged for. -/
def contentCharge (kind key scope : String) (payload : CachePayload) : Result ℕ :=
  let charge := payload.length + (kind.utf8ByteSize + key.utf8ByteSize + scope.utf8ByteSize) + 64
  if I64.greatest < charge then .error (.panic "attempt to add with overflow") else .ok charge

/-- The key of the row of a record. -/
def remoteRecordCacheKey (replica key author : String) : String :=
  replica ++ "\u0000" ++ key ++ "\u0000" ++ author

/-! ### Rows that are deleted -/

/-- The rows, the total and the files of a transaction that deletes rows. -/
structure Eviction where
  rows : BTreeMap CacheKey CacheRow
  used : ℤ
  removedFiles : List String

namespace Eviction

/-- `delete_cache_item`, with the total that its callers keep. -/
def deleteCacheItem (state : Eviction) (key : CacheKey) (row : CacheRow) : Eviction where
  rows := state.rows.erase key
  used := state.used - row.chargedBytes
  removedFiles := state.removedFiles ++ row.fileName.toList

/-- `ORDER BY last_used_at, kind, cache_key`. -/
def rank (item : CacheKey × CacheRow) : ℤ ×ₗ CacheKey := toLex (item.2.lastUsedAt, item.1)

/-- The row that was used least recently, of those that satisfy `p`. -/
def oldest (rows : BTreeMap CacheKey CacheRow) (p : CacheKey → CacheRow → Bool) :
    Option (CacheKey × CacheRow) :=
  minBy (fun a b => compare (rank a) (rank b))
    (rows.toList.filter fun item => p item.1 item.2)

/-- Delete the rows that are picked, one after the other and at most so many. -/
def evictWhile (pick : Eviction → Option (CacheKey × CacheRow)) : ℕ → Eviction → Eviction
  | 0, state => state
  | count + 1, state =>
    match pick state with
    | some (key, row) => evictWhile pick count (state.deleteCacheItem key row)
    | none => state

end Eviction

open Eviction

/-! ### Writing content -/

/-- `add_remote_protected_ref`. -/
def addRemoteProtectedRef (cache : RemoteCache) (kind key reference : String) : RemoteCache where
  rows := Ledger.protectRow cacheColumns cache.rows (toLex (kind, key)) true
  refs := cache.refs.insert (toLex (toLex (kind, key), reference))
  used := cache.used - cacheColumns.countedIn cache.rows[toLex (kind, key)]?

/-- `claim_retained_scope`: a record of a retained day gets the reference of the day before it is
written. `retained` is the reference of the day that is open for the scope of the record. -/
def claimRetainedScope (cache : RemoteCache) (key : String) (retained : Option String) :
    RemoteCache :=
  match retained with
  | none => cache
  | some reference =>
    if toLex (toLex ("record", key), reference) ∈ cache.refs then cache
    else addRemoteProtectedRef cache "record" key reference

def cacheKinds : List String := ["blob", "record", "projection", "adult_marker", "public_channel"]

/-- An unprotected row other than the one that is written, which is expired or, while the total is
beyond the budget, any. -/
def pickForContent (item : CacheKey) (budget expired : ℤ) (state : Eviction) :
    Option (CacheKey × CacheRow) :=
  match oldest state.rows fun key row => !row.isProtected && row.lastUsedAt ≤ expired && key ≠ item
    with
  | some victim => some victim
  | none =>
    if budget < state.used then oldest state.rows fun key row => !row.isProtected && key ≠ item
    else none

/-- The part of `put_remote_content_in_tx` behind its checks: whether the row is admitted, the
ledger and the removed files. The row is marked as protected when its key has a reference. -/
def placeContent (cache : RemoteCache) (item : CacheKey) (row : CacheRow) (budget : ℤ) :
    Bool × RemoteCache × List String :=
  let isProtected := cache.held item
  let charge := row.chargedBytes
  if !isProtected && budget < charge then (false, cache, [])
  else
    let old := cache.rows[item]?
    let oldUnprotected := cacheColumns.countedIn old
    let newCharge := if isProtected then 0 else charge
    let evicted := evictWhile (pickForContent item budget (row.lastUsedAt - remoteCacheUnusedMs))
      remoteCacheReclaimStep ⟨cache.rows, cache.used - oldUnprotected + newCharge, []⟩
    if budget < evicted.used then
      (false,
        { cache with rows := evicted.rows, used := evicted.used - newCharge + oldUnprotected },
        evicted.removedFiles)
    else
      let oldFile := (old.bind (·.fileName)).filter (row.fileName ≠ some ·)
      (true,
        { cache with
          rows := evicted.rows.insert item { row with isProtected := isProtected }
          used := evicted.used },
        evicted.removedFiles ++ oldFile.toList)

/-- `put_remote_content_in_tx`. -/
def putRemoteContentInTx (cache : RemoteCache) (kind key scope : String) (payload : CachePayload)
    (recordKey recordAuthor : Option String) (budget now : ℤ) (chargedBytes : Option ℕ)
    (retained : Option String) : Result (Bool × RemoteCache × List String) := do
  bailIf (kind ∉ cacheKinds) "unknown remote cache kind"
  let charge ← chargedBytes.elim (contentCharge kind key scope payload) .ok
  let cache := if kind = "record" then claimRetainedScope cache key retained else cache
  return placeContent cache (toLex (kind, key))
    { scopeKey := scope
      recordKey := recordKey
      recordAuthor := recordAuthor
      payload := payload.inline
      fileName := payload.fileName
      chargedBytes := charge
      isProtected := false
      lastUsedAt := now }
    budget

/-! ### Taking references away -/

/-- `remove_remote_protected_ref`. -/
def removeRemoteProtectedRef (cache : RemoteCache) (kind key reference : String) (budget : ℤ) :
    RemoteCache × List String :=
  let item : CacheKey := toLex (kind, key)
  let cache := { cache with refs := cache.refs.erase (toLex (item, reference)) }
  if cache.held item then (cache, [])
  else match cache.rows[item]?.filter (·.isProtected) with
    | none => (cache, [])
    | some row =>
      if I64.saturatingAdd cache.used row.chargedBytes ≤ budget then
        ({ cache with
            rows := cache.rows.insert item { row with isProtected := false }
            used := cache.used + row.chargedBytes }, [])
      else ({ cache with rows := cache.rows.erase item }, row.fileName.toList)

/-- The keys that a reference protects. -/
def refsOf (cache : RemoteCache) (reference : String) : List CacheKey :=
  (cache.refs.toList.filter fun item => (ofLex item).2 = reference).map fun item => (ofLex item).1

/-- The reference to one key is taken away, with the files that are removed so far. -/
def releaseRef (reference : String) (budget : ℤ) (state : RemoteCache × List String)
    (item : CacheKey) : RemoteCache × List String :=
  let released :=
    removeRemoteProtectedRef state.1 (ofLex item).1 (ofLex item).2 reference budget
  (released.1, state.2 ++ released.2)

/-- `replace_remote_protected_refs`. The sets of keys are walked in the orders `removed` and
`added`. -/
def replaceRemoteProtectedRefs (cache : RemoteCache) (reference : String)
    (removed added : List CacheKey) (budget : ℤ) : RemoteCache × List String :=
  let released := removed.foldl (releaseRef reference budget) (cache, [])
  (added.foldl (fun cache item =>
    addRemoteProtectedRef cache (ofLex item).1 (ofLex item).2 reference) released.1, released.2)

/-! ### Deleting content -/

/-- `remove_remote_content`. -/
def removeRemoteContent (cache : RemoteCache) (kind key : String) : RemoteCache × List String :=
  match cache.rows[toLex (kind, key)]?.filter (!·.isProtected) with
  | none => (cache, [])
  | some row =>
    ({ cache with
        rows := cache.rows.erase (toLex (kind, key)), used := cache.used - row.chargedBytes },
      row.fileName.toList)

/-- `delete_remote_cache_step`, for the rows that its query returns. -/
def deleteRemoteCacheStep (cache : RemoteCache) (victims : List (CacheKey × CacheRow)) :
    RemoteCache × List String :=
  let evicted := victims.foldl (fun state victim => state.deleteCacheItem victim.1 victim.2)
    (⟨cache.rows, cache.used, []⟩ : Eviction)
  ({ cache with rows := evicted.rows, used := evicted.used }, evicted.removedFiles)

/-- The rows of `reclaim_remote_cache_step`: unprotected and not used for long, the oldest first. -/
def reclaimable (cache : RemoteCache) (now : ℤ) : List (CacheKey × CacheRow) :=
  ((cache.rows.toList.filter fun item =>
      !item.2.isProtected && item.2.lastUsedAt ≤ now - remoteCacheUnusedMs).mergeSort
    fun a b => rank a ≤ rank b).take remoteCacheReclaimStep

/-- The rows that `forget_adult_remote_blobs_step` chooses from. -/
def forgettable (cache : RemoteCache) : List (CacheKey × CacheRow) :=
  cache.rows.toList.filter fun item =>
    (ofLex item.1).1 = "blob" && item.2.scopeKey = remoteAdultBlobScope && !item.2.isProtected

/-- `mark_remote_blob_adult`. -/
def markRemoteBlobAdult (cache : RemoteCache) (hash : String) : RemoteCache :=
  match cache.rows[(toLex ("blob", hash) : CacheKey)]? with
  | none => cache
  | some row =>
    let row := { row with scopeKey := remoteAdultBlobScope }
    { cache with rows := cache.rows.insert (toLex ("blob", hash)) row }

/-- `touch_remote_content`. -/
def touchRemoteContent (cache : RemoteCache) (kind key : String) (now : ℤ) : RemoteCache :=
  match cache.rows[(toLex (kind, key) : CacheKey)]? with
  | none => cache
  | some row =>
    if row.lastUsedAt ≤ now - remoteCacheTouchIntervalMs then
      { cache with rows := cache.rows.insert (toLex (kind, key)) { row with lastUsedAt := now } }
    else cache

/-- The names of cached files: 64 lower-case hex digits. -/
def isBlobFileName (name : String) : Bool :=
  name.utf8ByteSize = 64 && name.toList.all Hex.isDigit

/-! ### The store -/

/-- The ledger, the bytes reserved in memory and the tokens that hold them. -/
structure CacheStore where
  cache : RemoteCache
  reserved : ℕ
  reservations : BTreeMap ℕ ℕ

/-- `used as u64`. -/
def asU64 (n : ℤ) : ℕ := (n % 2 ^ 64).toNat

namespace CacheStore

def empty : CacheStore := ⟨.empty, 0, ∅⟩

/-- The bytes that unprotected content may take. -/
def budget (store : CacheStore) : Result ℤ := do
  bailIf (I64.greatest < store.reserved) "out of range integral type conversion attempted"
  return I64.saturatingSub remoteCacheCapacityBytes store.reserved

/-- Beyond the capacity with the reservation. -/
def pickForReservation (target : ℕ) (state : Eviction) : Option (CacheKey × CacheRow) :=
  if remoteCacheCapacityBytes < U64.saturatingAdd (asU64 state.used) target then
    oldest state.rows fun _ row => !row.isProtected
  else none

/-- `reserve_remote_cache_bytes`, with the files that it removes. -/
def reserveRemoteCacheBytes (store : CacheStore) (token bytes : ℕ) :
    Bool × CacheStore × List String :=
  let target := U64.saturatingAdd store.reserved bytes
  if remoteCacheCapacityBytes < target then (false, store, [])
  else
    let evicted := evictWhile (pickForReservation target) remoteCacheReclaimStep
      ⟨store.cache.rows, store.cache.used, []⟩
    let store :=
      { store with cache := { store.cache with rows := evicted.rows, used := evicted.used } }
    if remoteCacheCapacityBytes < U64.saturatingAdd (asU64 evicted.used) target then
      (false, store, evicted.removedFiles)
    else
      (true,
        { store with
          reserved := store.reserved + bytes
          reservations :=
            store.reservations.insert token (store.reservations[token]?.getD 0 + bytes) },
        evicted.removedFiles)

/-- The drop of a reservation. -/
def dropReservation (store : CacheStore) (token : ℕ) : CacheStore :=
  { store with
    reserved := store.reserved - store.reservations[token]?.getD 0
    reservations := store.reservations.erase token }

/-- `put_remote_content_with_budget`. -/
def putRemoteContentWithBudget (store : CacheStore) (kind key scope : String)
    (payload : CachePayload) (recordKey recordAuthor : Option String) (now : ℤ)
    (retained : Option String) : Result (Bool × CacheStore × List String) := do
  let budget ← store.budget
  let (admitted, cache, files) ← putRemoteContentInTx store.cache kind key scope payload recordKey
    recordAuthor budget now none retained
  return (admitted, { store with cache := cache }, files)

/-- `put_remote_record`. -/
def putRemoteRecord (store : CacheStore) (replica key author : String) (payload : Bytes) (now : ℤ)
    (retained : Option String) : Result (Bool × CacheStore × List String) :=
  store.putRemoteContentWithBudget "record" (remoteRecordCacheKey replica key author) replica
    (.bytes payload) (some key) (some author) now retained

/-- The transaction of `put_remote_blob_file`, for a file of the given length. -/
def putRemoteBlobFile (store : CacheStore) (hash : String) (length : ℕ) (now : ℤ) :
    Result (CacheStore × List String) := do
  bailIf (isBlobFileName hash = false) "invalid remote blob hash"
  let budget ← store.budget
  let (admitted, cache, files) ← putRemoteContentInTx store.cache "blob" hash "blob"
    (.file hash length) none none budget now none none
  bailIf (admitted = false) "remote blob cache capacity exceeded"
  return ({ store with cache := cache }, files)

/-- `add_protected_ref`. -/
def addProtectedRef (store : CacheStore) (reference kind key : String) : CacheStore :=
  { store with cache := addRemoteProtectedRef store.cache kind key reference }

/-- `put_owned_record`: the reference first, then the record, in two transactions. -/
def putOwnedRecord (store : CacheStore) (replica key author : String) (payload : Bytes) (now : ℤ)
    (retained : Option String) : Result Unit × CacheStore × List String :=
  let store := store.addProtectedRef ownDocsRef "record" (remoteRecordCacheKey replica key author)
  match store.putRemoteRecord replica key author payload now retained with
  | .ok (true, store, files) => (.ok (), store, files)
  | .ok (false, store, files) => (.error (.bail "owned record was not stored"), store, files)
  | .error failure => (.error failure, store, [])

end CacheStore

end Kukuri
