import Kukuri.Data.Trace
import Kukuri.DesktopRuntime.HistoryPage

/-!
# Staging of the history of an account

The device that an account is transferred to stores the history in files before it is merged: a
file for the records of each page, files for the parts of its blobs, and a journal with the number
of pages that are stored and of those that are merged. A staging writes one page after the other.
A task of the runtime merges the pages of the journal in order and deletes their files.

Stagings and merges may be in progress at once. A step of the model is one file operation of one
of them, which may also fail; an update of the journal is one operation, since it is made under a
lock. A staging that is dropped leaves a task that deletes the parts of its page later. The process
may stop at any time.
-/

namespace Kukuri

/-! ### Files -/

structure HistoryJournal where
  history : Option AccountTransferHistory
  peer : Option String
  since : Option ℕ
  cursor : Option AccountHistoryCursor
  pages : ℕ
  merged : ℕ
  finished : Bool

def HistoryJournal.default : HistoryJournal := ⟨none, none, none, none, 0, 0, false⟩

/-- A blob of a page, in the given number of part files from the first one on. -/
structure StagedBlob where
  hash : String
  first : ℕ
  parts : ℕ
  deriving DecidableEq, Repr

structure StagedPage where
  records : List AccountHistoryRecord
  blobs : List StagedBlob
  deriving DecidableEq, Repr

/-- The files of an account. -/
structure HistoryFiles where
  journal : Option HistoryJournal
  page : ℕ → Option StagedPage
  part : ℕ → ℕ → Option (List UInt8)

namespace HistoryFiles

def writePage (files : HistoryFiles) (index : ℕ) (page : Option StagedPage) : HistoryFiles :=
  { files with page := Function.update files.page index page }

def writePart (files : HistoryFiles) (page part : ℕ) (bytes : Option (List UInt8)) :
    HistoryFiles :=
  let parts := Function.update (files.part page) part bytes
  { files with part := Function.update files.part page parts }

end HistoryFiles

/-- The first day of a range that starts the given number of days ago. -/
def sinceDays (nowSeconds days : ℤ) : ℕ :=
  match TimeBucket.fromUnixSeconds (max (nowSeconds - days * 86400) 0) with
  | .ok bucket => bucket.index
  | .error _ => 0

/-- The journal when a transfer begins. A transfer of the same range from the same device goes on
where it stopped. -/
def HistoryJournal.begin (journal : Option HistoryJournal) (history : AccountTransferHistory)
    (peer : String) (nowSeconds : ℤ) : HistoryJournal :=
  let journal := journal.getD .default
  let otherPeer := journal.peer.any (· ≠ peer)
  let journal :=
    if journal.history ≠ some history ∨ journal.finished ∨ otherPeer then
      { journal with
        history := some history
        since := history.days.map (sinceDays nowSeconds)
        cursor := none
        finished := false }
    else journal
  { journal with peer := some peer }

/-- The journal when a page has been stored. -/
def HistoryJournal.commit (journal : Option HistoryJournal) (pages : ℕ)
    (next : Option AccountHistoryCursor) : HistoryJournal :=
  { journal.getD .default with pages := pages, finished := next.isNone, cursor := next }

/-! ### Stagings -/

/-- A blob that is being received: what has been passed to the hash, and its length. -/
structure CurrentBlob where
  blob : StagedBlob
  total : ℕ
  received : ℕ
  hashed : List UInt8

structure HistoryStage where
  since : Option ℕ
  page : ℕ
  records : List AccountHistoryRecord
  blobs : List StagedBlob
  blob : Option CurrentBlob
  parts : ℕ

def HistoryStage.new (since : Option ℕ) (page : ℕ) : HistoryStage := ⟨since, page, [], [], none, 0⟩

inductive StagingFailure where
  | invalid
  | storage
  deriving DecidableEq, Repr

/-- What a staging does next. -/
inductive StagingTask where
  | idle
  | begin (history : AccountTransferHistory) (peer : String) (nowSeconds : ℤ)
  /-- Delete the file of the page that the staging starts with, and then its parts. -/
  | clearPage (since : Option ℕ) (page : ℕ)
  | clearPart (since : Option ℕ) (page part : ℕ)
  | clearDelete (since : Option ℕ) (page part : ℕ)
  /-- Between two calls. -/
  | ready (stage : HistoryStage)
  | writePart (stage : HistoryStage) (current : CurrentBlob) (bytes : List UInt8)
  | commitPage (stage : HistoryStage) (page : StagedPage) (next : Option AccountHistoryCursor)
  | commitJournal (stage : HistoryStage) (page : StagedPage) (next : Option AccountHistoryCursor)
  /-- The staging has been dropped. Its parts are deleted, from the given one on. -/
  | deleting (page part parts : ℕ)

inductive StagingCall where
  | begin (history : AccountTransferHistory) (peer : String) (nowSeconds : ℤ)
  | records (records : List AccountHistoryRecord)
  | blob (hash : String) (len offset : ℕ) (bytes : List UInt8)
  | commit (next : Option AccountHistoryCursor)
  | drop
  /-- The next operation succeeds. -/
  | advance
  | fail
  /-- The call that opens the staging is given up. -/
  | halt

inductive HistoryReturn where
  | none
  | begun (since : Option ℕ) (page : ℕ)
  | failed (failure : StagingFailure)
  /-- The page has been stored: `commit` returns. -/
  | committed (index : ℕ) (page : StagedPage)
  /-- The account already holds the record. -/
  | held (record : AccountHistoryRecord)
  | storedRecord (record : AccountHistoryRecord)
  | storedBlob (hash : String) (bytes : List UInt8)
  deriving DecidableEq, Repr

def hasNul (text : String) : Bool := '\x00' ∈ text.toList

/-- A record of the range with proper fields. -/
def validRecord (account : String) (since : Option ℕ) (record : AccountHistoryRecord) : Bool :=
  ([record.replica, record.key, record.docsAuthor].all fun field => field ≠ "" && ! hasNul field) &&
    decide (place (cursorAt ownDocs record.replica record.key) account since = .take)

def validHash (hash : String) : Bool :=
  hash.utf8ByteSize = 64 && hash.toList.all fun c => (Hex.value c).isSome

/-- The blob that is being received, or a new one at its first part. -/
def HistoryStage.current (stage : HistoryStage) (hash : String) (len offset : ℕ) :
    Option CurrentBlob :=
  match stage.blob with
  | some current => some current
  | none =>
    if offset = 0 ∧ validHash hash then some ⟨⟨hash, stage.parts, 0⟩, len, 0, []⟩ else none

/-- A part of a blob is received. -/
def HistoryStage.receive (stage : HistoryStage) (hash : String) (len offset : ℕ)
    (bytes : List UInt8) : HistoryReturn × StagingTask :=
  match stage.current hash len offset with
  | none => (.failed .invalid, .ready stage)
  | some current =>
    if current.blob.hash ≠ hash ∨ current.total ≠ len ∨ current.received ≠ offset then
      (.failed .invalid, .ready { stage with blob := some current })
    else (.none, .writePart { stage with blob := some current } current bytes)

/-- The part has been written. -/
def HistoryStage.written (blake3Hex : List UInt8 → String) (stage : HistoryStage)
    (current : CurrentBlob) (bytes : List UInt8) : HistoryReturn × HistoryStage :=
  let blob := { current.blob with parts := current.blob.parts + 1 }
  let hashed := current.hashed ++ bytes
  let received := current.received + bytes.length
  let stage := { stage with parts := stage.parts + 1 }
  if received = current.total then
    if blake3Hex hashed = blob.hash then
      (.none, { stage with blob := none, blobs := stage.blobs ++ [blob] })
    else (.failed .invalid, { stage with blob := none })
  else (.none, { stage with blob := some ⟨blob, current.total, received, hashed⟩ })

/-- The next part to delete, if there is one. -/
def StagingTask.deleteFrom (page part parts : ℕ) : StagingTask :=
  if part < parts then .deleting page part parts else .idle

/-- A staging after it has been dropped. -/
def StagingTask.drop : StagingTask → Option StagingTask
  | .ready stage | .writePart stage _ _ | .commitPage stage _ _ | .commitJournal stage _ _ =>
    some (deleteFrom stage.page 0 stage.parts)
  | _ => none

/-- The next operation of a staging, if it succeeds. -/
def StagingTask.next (blake3Hex : List UInt8 → String) (files : HistoryFiles) :
    StagingTask → Option (HistoryReturn × HistoryFiles × StagingTask)
  | .begin history peer nowSeconds =>
    let journal := HistoryJournal.begin files.journal history peer nowSeconds
    some (.none, { files with journal := some journal }, .clearPage journal.since journal.pages)
  | .clearPage since page => some (.none, files.writePage page none, .clearPart since page 0)
  | .clearPart since page part =>
    match files.part page part with
    | some _ => some (.none, files, .clearDelete since page part)
    | none => some (.begun since page, files, .ready (.new since page))
  | .clearDelete since page part =>
    some (.none, files.writePart page part none, .clearPart since page (part + 1))
  | .writePart stage current bytes =>
    let result := stage.written blake3Hex current bytes
    some (result.1, files.writePart stage.page stage.parts (some bytes), .ready result.2)
  | .commitPage stage page next =>
    some (.none, files.writePage stage.page (some page), .commitJournal stage page next)
  | .commitJournal stage page next =>
    let journal := HistoryJournal.commit files.journal (stage.page + 1) next
    some (.committed stage.page page, { files with journal := some journal },
      .ready { stage with page := stage.page + 1, parts := 0 })
  | .deleting page part parts =>
    some (.none, files.writePart page part none, deleteFrom page (part + 1) parts)
  | .idle | .ready _ => none

/-- A staging after its next operation has failed. -/
def StagingTask.fail : StagingTask → Option (HistoryReturn × StagingTask)
  | .writePart stage _ _ | .commitPage stage _ _ | .commitJournal stage _ _ =>
    some (.failed .storage, .ready stage)
  -- The deletion goes on with the next part.
  | .deleting page part parts => some (.none, deleteFrom page (part + 1) parts)
  | .begin _ _ _ | .clearPage _ _ | .clearPart _ _ _ | .clearDelete _ _ _ => some (.none, .idle)
  | .idle | .ready _ => none

/-- What a call does to a staging and the files. -/
def StagingTask.perform (account : String) (blake3Hex : List UInt8 → String)
    (files : HistoryFiles) (task : StagingTask) :
    StagingCall → Option (HistoryReturn × HistoryFiles × StagingTask)
  | .begin history peer nowSeconds => match task with
    | .idle => some (.none, files, .begin history peer nowSeconds)
    | _ => none
  | .records records => match task with
    | .ready stage =>
      if records.all (validRecord account stage.since) then
        some (.none, files, .ready { stage with records := stage.records ++ records })
      else some (.failed .invalid, files, .ready stage)
    | _ => none
  | .blob hash len offset bytes => match task with
    | .ready stage =>
      let result := stage.receive hash len offset bytes
      some (result.1, files, result.2)
    | _ => none
  | .commit next => match task with
    | .ready stage =>
      if stage.blob.isSome then some (.failed .invalid, files, .ready stage)
      else
        -- The records and blobs are taken out of the staging before they are written.
        some (.none, files,
          .commitPage { stage with records := [], blobs := [] } ⟨stage.records, stage.blobs⟩ next)
    | _ => none
  | .drop => task.drop.map (.none, files, ·)
  | .advance => task.next blake3Hex files
  | .fail => task.fail.map fun result => (result.1, files, result.2)
  | .halt => match task with
    | .begin _ _ _ | .clearPage _ _ | .clearPart _ _ _ | .clearDelete _ _ _ =>
      some (.none, files, .idle)
    | _ => none

/-! ### Merges -/

/-- What a merge does next. -/
inductive MergeTask where
  | idle
  /-- Read the journal. -/
  | start
  | readPage (index : ℕ)
  | lookUp (index : ℕ) (record : AccountHistoryRecord) (records : List AccountHistoryRecord)
      (blobs : List StagedBlob)
  | putRecord (index : ℕ) (record : AccountHistoryRecord) (records : List AccountHistoryRecord)
      (blobs : List StagedBlob)
  | readPart (index : ℕ) (blob : StagedBlob) (count : ℕ) (bytes : List UInt8)
      (blobs : List StagedBlob)
  | putBlob (index : ℕ) (blob : StagedBlob) (bytes : List UInt8) (blobs : List StagedBlob)
  | deletePart (index : ℕ) (blob : StagedBlob) (count : ℕ) (blobs : List StagedBlob)
  | deletePage (index : ℕ)
  | advance (index : ℕ)

inductive MergeCall where
  | merge
  /-- The next operation succeeds. -/
  | advance
  /-- Whether the account holds the record. -/
  | answer (held : Bool)
  | fail
  | halt

namespace MergeTask

/-- Read the rest of the parts of a blob, and then store it. -/
def readFrom (index : ℕ) (blob : StagedBlob) (count : ℕ) (bytes : List UInt8)
    (blobs : List StagedBlob) : MergeTask :=
  if count < blob.parts then .readPart index blob count bytes blobs
  else .putBlob index blob bytes blobs

def nextBlob (index : ℕ) : List StagedBlob → MergeTask
  | [] => .deletePage index
  | blob :: blobs => readFrom index blob 0 [] blobs

/-- Delete the rest of the parts of a blob, and then go on with the next. -/
def deleteFrom (index : ℕ) (blob : StagedBlob) (count : ℕ) (blobs : List StagedBlob) : MergeTask :=
  if count < blob.parts then .deletePart index blob count blobs else nextBlob index blobs

def nextRecord (index : ℕ) (records : List AccountHistoryRecord) (blobs : List StagedBlob) :
    MergeTask :=
  match records with
  | [] => nextBlob index blobs
  | record :: records => .lookUp index record records blobs

/-- The next operation of a merge, if it succeeds. -/
def next (blake3Hex : List UInt8 → String) (files : HistoryFiles) :
    MergeTask → Option (HistoryReturn × HistoryFiles × MergeTask)
  | .start =>
    match files.journal with
    | none => some (.none, files, .idle)
    | some journal =>
      if journal.merged < journal.pages then some (.none, files, .readPage journal.merged)
      else if journal.finished then some (.none, { files with journal := none }, .idle)
      else some (.none, files, .idle)
  | .readPage index =>
    match files.page index with
    | some page => some (.none, files, nextRecord index page.records page.blobs)
    | none => some (.none, files, .advance index)
  | .putRecord index record records blobs =>
    some (.storedRecord record, files, nextRecord index records blobs)
  | .readPart index blob count bytes blobs =>
    match files.part index (blob.first + count) with
    | some chunk => some (.none, files, readFrom index blob (count + 1) (bytes ++ chunk) blobs)
    | none => some (.none, files, .putBlob index blob bytes blobs)
  | .putBlob index blob bytes blobs =>
    -- Parts that are missing have been deleted after the blob was stored.
    if blake3Hex bytes = blob.hash then
      some (.storedBlob blob.hash bytes, files, deleteFrom index blob 0 blobs)
    else some (.none, files, deleteFrom index blob 0 blobs)
  | .deletePart index blob count blobs =>
    some (.none, files.writePart index (blob.first + count) none,
      deleteFrom index blob (count + 1) blobs)
  | .deletePage index => some (.none, files.writePage index none, .advance index)
  | .advance index =>
    let journal := files.journal.map fun journal =>
      { journal with merged := max journal.merged (index + 1) }
    some (.none, { files with journal := journal }, .start)
  | .idle | .lookUp _ _ _ _ => none

/-- What a call does to a merge and the files. -/
def perform (blake3Hex : List UInt8 → String) (files : HistoryFiles) (task : MergeTask) :
    MergeCall → Option (HistoryReturn × HistoryFiles × MergeTask)
  | .merge => match task with
    | .idle => some (.none, files, .start)
    | _ => none
  | .advance => task.next blake3Hex files
  | .answer held => match task with
    | .lookUp index record records blobs =>
      if held then some (.held record, files, nextRecord index records blobs)
      else some (.none, files, .putRecord index record records blobs)
    | _ => none
  | .fail | .halt => match task with
    | .idle => none
    | _ => some (.none, files, .idle)

end MergeTask

/-! ### Steps -/

structure HistoryState where
  files : HistoryFiles
  stagings : ℕ → StagingTask
  merges : ℕ → MergeTask

inductive HistoryOp where
  | staging (task : ℕ) (call : StagingCall)
  | merge (task : ℕ) (call : MergeCall)
  /-- The process stops. -/
  | stop

def HistoryState.perform (account : String) (blake3Hex : List UInt8 → String)
    (state : HistoryState) : HistoryOp → Option (HistoryReturn × HistoryState)
  | .staging i call =>
    ((state.stagings i).perform account blake3Hex state.files call).map fun result =>
      (result.1, ⟨result.2.1, Function.update state.stagings i result.2.2, state.merges⟩)
  | .merge i call =>
    ((state.merges i).perform blake3Hex state.files call).map fun result =>
      (result.1, ⟨result.2.1, state.stagings, Function.update state.merges i result.2.2⟩)
  | .stop => some (.none, ⟨state.files, fun _ => .idle, fun _ => .idle⟩)

def HistoryStep (account : String) (blake3Hex : List UInt8 → String) (before : HistoryState)
    (op : HistoryOp) (ret : HistoryReturn) (after : HistoryState) : Prop :=
  before.perform account blake3Hex op = some (ret, after)

abbrev HistoryEvent := Event HistoryState HistoryOp HistoryReturn

end Kukuri
