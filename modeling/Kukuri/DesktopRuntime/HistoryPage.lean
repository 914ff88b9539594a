import Kukuri.Core.AccountTransfer
import Kukuri.DocsSync.Buckets

/-!
# Pages of the history of an account

The device that an account is transferred from reads the records of the account page by page. The
protected records lie in the order of their reference, replica, key and author. A query reads the
records behind a position. The first record outside the range of the transfer makes the page go on
at a position behind the records that are certainly outside as well, without reading them. A page
makes a bounded number of queries, and returns the position at which the next page starts.
-/

namespace Kukuri

open Text Result

/-! ### Positions -/

namespace AccountHistoryCursor

/-- Texts have the order of their UTF-8 bytes, which is that of their characters. -/
def rank (cursor : AccountHistoryCursor) : String ×ₗ String ×ₗ String ×ₗ String :=
  toLex (cursor.reference, toLex (cursor.replica, toLex (cursor.key, cursor.author)))

theorem rank_injective :
  Function.Injective rank
  := by
  intro cursor cursor' h
  have hparts := toLex.injective h
  simp only [Prod.mk.injEq, EmbeddingLike.apply_eq_iff_eq] at hparts
  exact AccountHistoryCursor.ext hparts.1 hparts.2.1 hparts.2.2.1 hparts.2.2.2

instance : LinearOrder AccountHistoryCursor := LinearOrder.lift' rank rank_injective

theorem lt_iff {cursor cursor' : AccountHistoryCursor} :
  cursor < cursor' ↔ cursor.reference < cursor'.reference ∨
    cursor.reference = cursor'.reference ∧ (cursor.replica < cursor'.replica ∨
      cursor.replica = cursor'.replica ∧ (cursor.key < cursor'.key ∨
        cursor.key = cursor'.key ∧ cursor.author < cursor'.author))
  := by
  change rank cursor < rank cursor' ↔ _
  simp only [rank, Prod.Lex.toLex_lt_toLex]

end AccountHistoryCursor

/-- The protected references of records that the account has written. -/
def ownDocs : String := "own_docs"

/-- The start of the protected references of the older form. -/
def legacyOwn : String := "own:"

/-- A key behind all keys, which are ASCII. -/
def pastKeys : String := "\uffff"

def pageRecords : ℕ := 64

def pageQueries : ℕ := 8

/-- The first position of a key. -/
def cursorAt (reference replica key : String) : AccountHistoryCursor :=
  ⟨reference, replica, key, ""⟩

/-! ### Places -/

/-- What the range of a transfer does with a record. -/
inductive Place where
  | take
  /-- The record is outside. Go on behind this position. -/
  | seek (target : AccountHistoryCursor)
  /-- The range ends here. -/
  | ended
  deriving DecidableEq, Repr

/-- The replica belongs to the author, or to no author. -/
def BucketReplica.writtenBy (replica : BucketReplica) (account : String) : Bool :=
  match replica.scope with
  | .author authorPubkey => authorPubkey = account
  | _ => true

/-- The first replica of the scope within the range. -/
def firstReplica (scope : BucketScope) (since : ℕ) : Result BucketReplica := do
  let first ← TimeBucket.fromIndex since
  BucketReplica.new scope first

/-- The place of a record in a replica of a day. -/
def placeBucket (position : AccountHistoryCursor) (account : String) (since : Option ℕ)
    (bucket : BucketReplica) : Place :=
  let past := Place.seek (cursorAt position.reference position.replica pastKeys)
  if ¬ bucket.writtenBy account then past
  else match since.filter (bucket.bucket.index < ·) with
    | none => .take
    | some since =>
      match firstReplica bucket.scope since with
      | .ok first =>
        if position.replica < first.replicaId then
          .seek (cursorAt position.reference first.replicaId "")
        else past
      | .error _ => past

/-- The place of a record that is not in a replica of a day, if the range is everything. -/
def placeOther (position : AccountHistoryCursor) (account : String) : Place :=
  if startsWith "topic::" position.replica ∨ startsWith "channel::" position.replica ∨
      stripPrefix "author::" position.replica = some account then
    .take
  else
    match beforeDoubled ':' position.replica with
    | some kind =>
      if startsWith "author::" position.replica then
        .seek (cursorAt position.reference position.replica pastKeys)
      else .seek (cursorAt position.reference (kind ++ ":;") "")
    | none => .seek (cursorAt position.reference position.replica pastKeys)

/-- The place of a record in the range from a day on, or in the range of everything. -/
def place (position : AccountHistoryCursor) (account : String) (since : Option ℕ) : Place :=
  if startsWith "bucket::" position.replica then
    match BucketReplica.parse position.replica with
    | .ok bucket => placeBucket position account since bucket
    | .error _ => .seek (cursorAt position.reference position.replica pastKeys)
  else if since.isSome then
    if position.replica < "bucket::" then .seek (cursorAt position.reference "bucket::" "")
    else .ended
  else placeOther position account

/-! ### Pages -/

/-- A protected record: its position and its payload. -/
abbrev ProtectedRow := AccountHistoryCursor × List UInt8

/-- The rows that a page has taken, where the next page starts, and the queries that were made. -/
structure HistoryRows where
  found : List ProtectedRow
  next : Option AccountHistoryCursor
  queries : ℕ

/-- What the rows of a query lead to. -/
inductive RowsOutcome where
  /-- All rows have been taken. -/
  | through (position : AccountHistoryCursor) (found : List ProtectedRow)
  | moved (target : AccountHistoryCursor) (found : List ProtectedRow)
  | ended (found : List ProtectedRow)

section

variable (account : String) (since : Option ℕ)

def placeRows : List ProtectedRow → AccountHistoryCursor → List ProtectedRow → RowsOutcome
  | [], position, found => .through position found
  | row :: rows, _, found =>
    match place row.1 account since with
    | .take => placeRows rows row.1 (found ++ [row])
    | .seek target => .moved target found
    | .ended => .ended found

/-- The references that are read at a position. -/
def referenceAt (position : AccountHistoryCursor) : String :=
  if startsWith legacyOwn position.reference then legacyOwn else ownDocs

variable (read : String → AccountHistoryCursor → ℕ → Result (List ProtectedRow))

/-- Make queries until the page is full, the range is at its end, or no query is left. -/
def queryRows : ℕ → AccountHistoryCursor → List ProtectedRow → ℕ → Result HistoryRows
  | 0, position, found, queries => .ok ⟨found, some position, queries⟩
  | left + 1, position, found, queries => do
    let reference := referenceAt position
    let limit := pageRecords - found.length
    let rows ← read reference position limit
    match placeRows account since rows position found with
    | .ended found => return ⟨found, none, queries + 1⟩
    | .moved target found =>
      if found.length = pageRecords then return ⟨found, some target, queries + 1⟩
      else queryRows left target found (queries + 1)
    | .through position found =>
      if found.length = pageRecords then return ⟨found, some position, queries + 1⟩
      else if rows.length < limit then
        -- The reference is at its end. If the range is everything, the older form follows.
        if reference = ownDocs ∧ since = none then
          queryRows left (cursorAt legacyOwn "" "") found (queries + 1)
        else return ⟨found, none, queries + 1⟩
      else queryRows left position found (queries + 1)

/-- The rows of a page. -/
def pageRows (cursor : Option AccountHistoryCursor) : Result HistoryRows :=
  queryRows account since read pageQueries (cursor.getD (cursorAt ownDocs "" "")) [] 0

end

/-! ### Records -/

/-- The fields of a stored record that a page uses. -/
structure DocReadRecord where
  key : String
  value : List UInt8
  docsAuthor : String

structure AccountHistoryPage where
  records : List AccountHistoryRecord
  blobs : List String
  posts : ℕ
  unavailable : ℕ
  next : Option AccountHistoryCursor

def isPostEnvelope (key : String) : Bool :=
  match stripPrefix "objects/" key with
  | some rest => "/envelope".toList.isSuffixOf rest.toList
  | none => false

section

variable (readRecord : List UInt8 → Option DocReadRecord) (postBlobs : List UInt8 → List String)

/-- The hashes that are not there yet are added. -/
def addBlobs (blobs hashes : List String) : List String :=
  hashes.foldl (fun blobs hash => if hash ∈ blobs then blobs else blobs ++ [hash]) blobs

/-- A page with one more row. A row that cannot be read or does not fit is counted. -/
def addRow (page : AccountHistoryPage) (row : ProtectedRow) : AccountHistoryPage :=
  match readRecord row.2 with
  | some record =>
    if record.value.length ≤ maxAccountHistoryBlobPartBytes then
      let entry := ⟨row.1.replica, record.key, record.docsAuthor, record.value⟩
      if isPostEnvelope record.key then
        { page with
          posts := page.posts + 1
          blobs := addBlobs page.blobs (postBlobs record.value)
          records := page.records ++ [entry] }
      else { page with records := page.records ++ [entry] }
    else { page with unavailable := page.unavailable + 1 }
  | none => { page with unavailable := page.unavailable + 1 }

/-- The page that is made of the rows. -/
def finish (found : List ProtectedRow) (next : Option AccountHistoryCursor) :
    AccountHistoryPage :=
  found.foldl (addRow readRecord postBlobs) ⟨[], [], 0, 0, next⟩

def historyPage (read : String → AccountHistoryCursor → ℕ → Result (List ProtectedRow))
    (account : String) (since : Option ℕ) (cursor : Option AccountHistoryCursor) :
    Result AccountHistoryPage := do
  let rows ← pageRows account since read cursor
  return finish readRecord postBlobs rows.found rows.next

end

end Kukuri
