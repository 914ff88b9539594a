import Kukuri.IrohNode.DocsNamespace
import Kukuri.Store.RecordListing

/-!
# Reads of docs by other nodes

A node answers two queries about a replica: a page of keys, and the records of one key. It reads the
entries of its local docs namespace, if it has it, and the records that it holds in its cache. A
private replica is read only with a proof that the reader has its secret.
-/

namespace Kukuri

open Result Text

namespace PageRead

def maxRequestBytes : ℕ := 4 * 1024

def maxResponseBytes : ℕ := 1024 * 1024

def maxRecordBytes : ℕ := 64 * 1024

def maxKeyBytes : ℕ := 2048

def maxKeys : ℕ := 512

def maxRecords : ℕ := 8

def privateReplica (replica : String) : Bool :=
  startsWith "bucket::v1::channel::" replica || startsWith "channel::" replica ||
    startsWith "account::v1::" replica

def topicReplica (replica : String) : Bool :=
  startsWith "bucket::v1::topic::" replica || startsWith "topic::" replica

def publicReplica (replica : String) : Bool :=
  startsWith "bucket::v1::topic::" replica || startsWith "topic::" replica ||
    startsWith "bucket::v1::author::" replica || startsWith "author::" replica

inductive DocReadQuery where
  | keys (start : String) (descending : Bool) (limit : ℕ) (author : Option String)
  | exact (key : String) (limit : ℕ) (author : Option String)
deriving DecidableEq

structure DocReadKey where
  key : String
  contentHash : String
  contentLen : ℕ
  docsAuthor : String
deriving DecidableEq

structure DocReadRecord where
  key : String
  value : Bytes
  contentHash : String
  contentLen : ℕ
  docsAuthor : String
deriving DecidableEq

inductive DocReadResponse where
  | keys (entries : List DocReadKey) (reachedLimit : Bool)
  | records (records : List DocReadRecord)
deriving DecidableEq

structure Request where
  version : ℕ
  replica : String
  namespaceId : String
  query : DocReadQuery
  capabilityProof : Option String
deriving DecidableEq

namespace Request

/-- `check_budget`. -/
def checkBudget (request : Request) : Result Unit := do
  bailIf (request.version ≠ 1) "unsupported docs read version"
  bailIf (¬ ((privateReplica request.replica || publicReplica request.replica) = true ∧
      request.replica.utf8ByteSize ≤ maxKeyBytes))
    "only topic, author and private channel replicas are readable"
  bailIf (request.capabilityProof.isSome ≠ privateReplica request.replica)
    "private bucket capability proof is required"
  match request.query with
  | .keys start _ limit author =>
    bailIf (¬ (1 ≤ limit ∧ limit ≤ maxKeys)) "docs key page limit exceeded"
    bailIf (maxKeyBytes < start.utf8ByteSize) "docs key prefix too long"
    bailIf (author.any (128 < ·.utf8ByteSize)) "docs author id too long"
  | .exact key limit author =>
    bailIf (¬ (1 ≤ limit ∧ limit ≤ maxRecords)) "docs exact limit exceeded"
    bailIf (maxKeyBytes < key.utf8ByteSize) "docs exact key too long"
    bailIf (author.any (128 < ·.utf8ByteSize)) "docs author id too long"

end Request

/-- The functions of other crates that are used. -/
structure DocCodec where
  /-- The identifier of the namespace of a secret. -/
  secretId : Bytes → Bytes
  namespaceText : Bytes → String
  parseNamespace : String → Option Bytes
  hash : Bytes → Bytes
  /-- The text of the hash of a message under a key. -/
  keyedHash : Bytes → Bytes → String
  queryJson : String × String × DocReadQuery → Bytes
  requestJson : Request → Bytes
  responseJson : DocReadResponse → Bytes
  parseAuthor : String → Option AuthorId
  /-- The hash and the length that the JSON of a record gives. -/
  fields : RecordFields
  parseRecord : Bytes → Option DocReadRecord
  /-- The text of the hash of a value. -/
  valueHash : Bytes → String

/-- `private_capability_proof`. -/
def privateCapabilityProof (codec : DocCodec) (secret : Bytes) (replica namespaceId : String)
    (query : DocReadQuery) : String :=
  codec.keyedHash secret
    (utf8 "kukuri:private-doc-read:v1\u0000" ++ codec.queryJson (replica, namespaceId, query))

/-- `Request::new`. -/
def Request.new (codec : DocCodec) (replica : String) (secret : Bytes) (query : DocReadQuery) :
    Result Request := do
  let namespaceId := codec.namespaceText (codec.secretId secret)
  let request : Request :=
    { version := 1
      replica := replica
      namespaceId := namespaceId
      query := query
      capabilityProof :=
        if privateReplica replica then
          some (privateCapabilityProof codec secret replica namespaceId query)
        else none }
  request.checkBudget
  return request

/-! ### The answers -/

/-- A node that answers reads. -/
structure DocReader extends DocCodec where
  /-- The secrets of private replicas. -/
  privateSecret : Option (String → Option Bytes)
  docs : Bytes → Option DocsNamespace
  blob : String → Option Bytes
  cache : Option RemoteCache
  /-- The record of a profile that an older version has stored. -/
  storedProfileRecord : String → String → Result (Option DocReadRecord)
  now : ℤ

variable (reader : DocReader)

/-- The checks of `respond`. -/
def authorize (request : Request) (namespaceId : Bytes) : Result Unit :=
  if privateReplica request.replica then do
    let lookup ← context reader.privateSecret "private replica capability is not registered"
    let secret ← context (lookup request.replica) "private replica capability is not registered"
    bailIf (reader.secretId secret ≠ namespaceId)
      "docs namespace is not the requested private replica"
    bailIf (request.capabilityProof ≠ some (privateCapabilityProof reader.toDocCodec secret
        request.replica request.namespaceId request.query))
      "private bucket capability proof did not match"
  else
    let publicSecret := reader.hash (utf8 ("kukuri-docs:" ++ request.replica))
    bailIf (reader.secretId publicSecret ≠ namespaceId)
      "docs namespace is not the requested public bucket"

/-- Whether a private replica without local docs has records of the account. -/
def holdsPrivate (replica : String) (opened : Option DocsNamespace) : Result Bool :=
  if opened.isNone && privateReplica replica then
    match reader.cache with
    | some cache =>
      (remoteRecordKeys reader.fields cache replica "" false none 1 true reader.now).map
        fun held => !held.1.isEmpty
    | none => .ok false
  else .ok false

/-- The author that a query asks for. -/
def authorFilter (author : Option String) : Result (Option AuthorId) :=
  match author with
  | none => .ok none
  | some author => (context (reader.parseAuthor author) "invalid author id").map some

/-- A local entry as a key, if its key is a text that is not too long. -/
def localKey (entry : SignedEntry) : Option DocReadKey :=
  match ofUtf8 (ofLex entry.1).1 with
  | none => none
  | some key =>
    if maxKeyBytes < key.utf8ByteSize then none
    else some ⟨key, entry.2.contentHash, entry.2.contentLen, (ofLex entry.1).2.text⟩

/-- A record that is held, as a key. -/
def heldKey (held : RemoteRecordKey) : Option DocReadKey :=
  if held.key.utf8ByteSize ≤ maxKeyBytes then
    some ⟨held.key, held.contentHash, held.contentLen, held.author⟩
  else none

/-- The key and the docs author of an entry. -/
def DocReadKey.position (entry : DocReadKey) : String × String := (entry.key, entry.docsAuthor)

/-- The local entries of a page of keys, without its limit. -/
def keyStream (opened : Option DocsNamespace) (start : String) (descending : Bool)
    (author : Option AuthorId) : List SignedEntry :=
  opened.elim [] fun docs => docs.getMany (utf8 start).isPrefixOf author descending

/-- The part of `respond` for a page of keys. -/
def respondKeys (replica : String) (opened : Option DocsNamespace) (heldPrivate : Bool)
    (start : String) (descending : Bool) (limit : ℕ) (author : Option String) :
    Result (List DocReadKey × Bool) := do
  let authorId ← authorFilter reader author
  let stream := (keyStream opened start descending authorId).take (limit + 1)
  let entries := (stream.take limit).filterMap localKey
  let topic := topicReplica replica
  match reader.cache with
  | none =>
    bailIf (¬ (opened.isSome || topic || heldPrivate)) "docs namespace is not held"
    return (entries, limit < stream.length)
  | some cache =>
    let (held, more) ← remoteRecordKeys reader.fields cache replica start descending author limit
      (!topic) reader.now
    let (merged, truncated) := mergeRecordKeys DocReadKey.position entries (held.filterMap heldKey)
      descending limit
    bailIf (¬ (opened.isSome || topic || !held.isEmpty || heldPrivate)) "docs namespace is not held"
    return (merged, limit < stream.length || more || truncated)

/-- The record of a local entry. -/
def localRecord (entry : SignedEntry) : Result DocReadRecord := do
  bailIf (maxRecordBytes < entry.2.contentLen) "docs record too large"
  let content ← context (reader.blob entry.2.contentHash) "blob is missing"
  let value := content.take (maxRecordBytes + 1)
  bailIf (maxRecordBytes < value.length) "docs record too large"
  let key ← context (ofUtf8 (ofLex entry.1).1) "invalid utf-8 sequence"
  return ⟨key, value, entry.2.contentHash, entry.2.contentLen, (ofLex entry.1).2.text⟩

/-- A record that is held is added, unless there is one of its author. -/
def addCached (key : String) (author : Option String) (records : List DocReadRecord)
    (payload : Bytes) : Result (List DocReadRecord) := do
  let record ← context (reader.parseRecord payload) "malformed JSON"
  bailIf (¬ (record.key = key ∧ record.value.length ≤ maxRecordBytes ∧
      author.all (record.docsAuthor = ·) ∧ record.contentLen = record.value.length ∧
      reader.valueHash record.value = record.contentHash))
    "cached docs record is invalid"
  return if records.any (·.docsAuthor = record.docsAuthor) then records else records ++ [record]

/-- The local entries of a key, without the limit. -/
def exactStream (opened : Option DocsNamespace) (key : String) (author : Option AuthorId) :
    List SignedEntry :=
  opened.elim [] fun docs => docs.getMany (· = utf8 key) author false

/-- The records of a key that the cache has. -/
def cachedRecords (replica key : String) (limit : ℕ) (author : Option String) :
    Result (List Bytes) :=
  match reader.cache with
  | none => .ok []
  | some cache =>
    (getRemoteRecords cache replica key author limit false reader.now).map fun read => read.1

/-- The profile that is stored, if it is asked for and nothing else is there. -/
def storedProfile (replica key : String) (limit : ℕ) (stream : List SignedEntry)
    (cached : List Bytes) : Result (Option DocReadRecord) :=
  if 0 < limit && stream.isEmpty && cached.isEmpty then reader.storedProfileRecord replica key
  else .ok none

/-- The part of `respond` for the records of a key. -/
def respondExact (replica : String) (opened : Option DocsNamespace) (heldPrivate : Bool)
    (key : String) (limit : ℕ) (author : Option String) : Result (List DocReadRecord) := do
  let cached ← cachedRecords reader replica key limit author
  let authorId ← authorFilter reader author
  let stream := (exactStream opened key authorId).take limit
  let stored ← storedProfile reader replica key limit stream cached
  bailIf (¬ (opened.isSome || topicReplica replica || heldPrivate || !cached.isEmpty ||
      stored.isSome))
    "docs namespace is not held"
  let profile := (stored.filter fun record => author.all (record.docsAuthor = ·)).toList
  let entries ← stream.mapM (localRecord reader)
  let records := profile ++ entries
  if records.length < limit then
    (cached.take (limit - records.length)).foldlM (addCached reader key author) records
  else return records

/-- `respond`. -/
def respond (request : Request) (namespaceId : Bytes) (opened : Option DocsNamespace) :
    Result DocReadResponse := do
  authorize reader request namespaceId
  let heldPrivate ← holdsPrivate reader request.replica opened
  match request.query with
  | .keys start descending limit author =>
    let (entries, reachedLimit) ← respondKeys reader request.replica opened heldPrivate start
      descending limit author
    return .keys entries reachedLimit
  | .exact key limit author =>
    let records ← respondExact reader request.replica opened heldPrivate key limit author
    return .records records

/-- `serve`, for a request that has been read. -/
def serve (request : Request) : Result DocReadResponse := do
  request.checkBudget
  let namespaceId ← context (reader.parseNamespace request.namespaceId) "invalid namespace id"
  let response ← respond reader request namespaceId (reader.docs namespaceId)
  bailIf (maxResponseBytes < (reader.responseJson response).length) "docs response budget exceeded"
  return response

end PageRead

end Kukuri
