import Kukuri.IrohNode.PageRead

/-!
# Pages of keys

A page of keys merges the first entries of the local docs namespace with the first records that are
held, both in `respond`, for other nodes, and in `key_page`, for the node itself. Entries whose keys
are not texts, and records that have expired, are left out after both lists have been cut.

The page lists an initial segment of what could be listed if both lists are dense: their first
elements are not left out, unless nothing is cut off. If they are not, an element can be skipped.
-/

namespace Kukuri

open Result Text List Option

/-! ### The pages of the node itself -/

structure DocKeyEntry where
  key : String
  contentHash : String
  contentLen : ℕ
  docsAuthor : Option String
deriving DecidableEq

structure DocKeyQuery where
  start : String
  descending : Bool
  limit : ℕ

/-- The key and the docs author of an entry. -/
def DocKeyEntry.position (entry : DocKeyEntry) : String × String :=
  (entry.key, entry.docsAuthor.getD "")

/-- What a page of keys is read from: the local docs and the cache, and the query. -/
structure KeySources where
  opened : Option DocsNamespace
  cache : Option RemoteCache
  fields : RecordFields
  now : ℤ
  replica : String
  start : String
  descending : Bool
  author : Option AuthorId
  /-- The author, as the records that are held name it. -/
  authorText : Option String
  ownOnly : Bool
  limit : ℕ

namespace KeySources

variable (sources : KeySources)

/-- The local entries in the range. -/
def entries : List SignedEntry :=
  PageRead.keyStream sources.opened sources.start sources.descending sources.author

/-- The rows of the cache in the range. -/
def rows (cache : RemoteCache) : List (CacheKey × CacheRow) :=
  recordRows cache sources.replica sources.start sources.descending sources.authorText
    sources.ownOnly

/-- What is listed of a row. -/
def listed (item : CacheKey × CacheRow) : Option RemoteRecordKey :=
  valueOf (listRow sources.fields sources.start (sources.now - remoteCacheUnusedMs) item.2)

section

variable {T : Type} (entryKey : SignedEntry → Option T) (recordKey : RemoteRecordKey → Option T)

/-- Neither the local entries nor the rows that are read are left out when there are more of
them. -/
structure Dense : Prop where
  entries : Merge.Dense entryKey sources.limit sources.entries
  rows : ∀ cache, sources.cache = some cache →
    Merge.Dense (fun item => (sources.listed item).bind recordKey) sources.limit
      (sources.rows cache)

end

/-- The records are as they were written, and cache keys of own records can be taken apart. -/
structure WellFormed : Prop where
  columns : ∀ cache, sources.cache = some cache → RecordColumns cache
  plain : ∀ cache, sources.cache = some cache → sources.ownOnly = true →
    Plain sources.replica ∧ PlainRecords cache

variable {sources} {T : Type} {entryKey : SignedEntry → Option T}
  {recordKey : RemoteRecordKey → Option T} {position : T → String × String}

variable {reachedLimit : Bool}

end KeySources

/-! ### The two pages -/

/-- What a node reads to answer a query for keys. -/
def PageRead.DocReader.sources (reader : PageRead.DocReader) (replica : String)
    (opened : Option DocsNamespace) (start : String) (descending : Bool) (limit : ℕ)
    (author : Option String) : KeySources where
  opened := opened
  cache := reader.cache
  fields := reader.fields
  now := reader.now
  replica := replica
  start := start
  descending := descending
  author := author.bind reader.parseAuthor
  authorText := author
  ownOnly := !PageRead.topicReplica replica
  limit := limit

/-- What the node itself reads for a page of keys. -/
def DocKeyQuery.sources (query : DocKeyQuery) (fields : RecordFields) (cache : Option RemoteCache)
    (now : ℤ) (replica : String) (opened : Option DocsNamespace) (author : Option AuthorId) :
    KeySources where
  opened := opened
  cache := cache
  fields := fields
  now := now
  replica := replica
  start := query.start
  descending := query.descending
  author := author
  authorText := author.map AuthorId.text
  ownOnly := true
  limit := query.limit

namespace PageRead

variable {reader : DocReader}

end PageRead

namespace KeyPageSample

def author : AuthorId := ⟨List.replicate 32 0, rfl⟩

/-- Entries with the given keys. -/
def docs (keys : List Bytes) : DocsNamespace :=
  keys.foldl (fun docs key => docs.insert (toLex (key, author)) ⟨"hash", key.length⟩) ∅

/-- A cache with a record of the account for each of the given keys. -/
def cache (replica : String) (keys : List String) : RemoteCache where
  rows := keys.foldl (fun rows key =>
    rows.insert (toLex ("record", remoteRecordCacheKey replica key author.text))
      ⟨replica, some key, some author.text, some (utf8 key), none, 100, true, 0⟩) ∅
  refs := keys.foldl (fun refs key =>
    refs.insert (toLex (toLex ("record", remoteRecordCacheKey replica key author.text),
      ownDocsRef))) ∅
  used := 0

def fields : RecordFields := fun payload => some (some "hash", some payload.length)

def reader (records : RemoteCache) : PageRead.DocReader where
  secretId secret := secret
  namespaceText _ := ""
  parseNamespace _ := none
  hash _ := []
  keyedHash _ _ := ""
  queryJson _ := []
  requestJson _ := []
  responseJson _ := []
  parseAuthor _ := none
  fields := fields
  parseRecord _ := none
  valueHash _ := ""
  privateSecret := none
  docs _ := none
  blob _ := none
  cache := some records
  storedProfileRecord _ _ := .ok none
  now := 0

/-- Two keys of the topic, in ascending order. -/
def request : PageRead.Request := ⟨1, "topic::a", "", .keys "" false 2 none, none⟩

def query : DocKeyQuery := ⟨"", false, 2⟩

/-- The local entries of which two are asked for. -/
def entries : DocsNamespace := docs [utf8 "a", utf8 "c", utf8 "d"]

end KeyPageSample

open KeyPageSample

end Kukuri
