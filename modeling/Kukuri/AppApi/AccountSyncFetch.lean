import Kukuri.AppApi.AccountSyncDevice

/-!
# Fetching the items of another device

A device follows the changes of another device of the account by a cursor: the last change that it
has read. A device without a cursor, or one that the window of changes has overtaken, goes through
all items instead (the cycle), and then follows the changes from the head at which it began.

A fetch is interrupted wherever it waits for the other device or the store, and the other device
writes on meanwhile.
-/

namespace Kukuri

/-! ### The reader -/

structure AccountSyncCursor where
  /-- The last change that has been read. -/
  seq : ℕ
  /-- The head that was seen last. -/
  head : ℕ
  /-- Where the cycle stands. -/
  cyclePrefix : Option String
  /-- The head at which the cycle began. -/
  cycleHead : ℕ
  deriving DecidableEq, Repr

def newCursor (head : ℕ) : AccountSyncCursor := ⟨0, head, some "profile", head⟩

/-- What a device has of another device. -/
structure AccountSyncReader where
  rows : BTreeMap String AccountSyncRow
  cursor : Option AccountSyncCursor

/-- Keep the newer one of the row and the item. -/
def AccountSyncReader.merge (reader : AccountSyncReader) (item : AccountSyncRow) :
    AccountSyncReader :=
  if reader.rows[item.key]?.all fun current => decide (current.version < item.version) then
    { reader with rows := reader.rows.insert item.key item }
  else reader

/-- What a fetch does next. -/
inductive FetchStage where
  | idle
  /-- Read the head of the other device. -/
  | readHead
  /-- Read the cursor. -/
  | load (head : ℕ)
  /-- Ask for the keys of a step of the cycle. -/
  | query (cursor : AccountSyncCursor) (cyclePrefix : String)
  /-- Read the items of a step of the cycle. -/
  | items (cursor : AccountSyncCursor) (next : Option String) (keys : List String)
  | merge (cursor : AccountSyncCursor) (next : Option String) (keys : List String)
      (item : AccountSyncRow)
  /-- Read the change after the cursor. -/
  | slot (cursor : AccountSyncCursor) (last : ℕ)
  /-- Read the item of the change. -/
  | readItem (cursor : AccountSyncCursor) (last : ℕ) (docsKey : String)
  | adopt (cursor : AccountSyncCursor) (last : ℕ) (item : AccountSyncRow)
  /-- Store that the change has been read. -/
  | put (cursor : AccountSyncCursor) (last : ℕ)
  /-- Store the cursor at the end of a step. -/
  | finish (cursor : AccountSyncCursor)
  deriving DecidableEq, Repr

namespace FetchStage

/-- How a step of the fetch goes on with the cursor. -/
def dispatch (cursor : AccountSyncCursor) : FetchStage :=
  match cursor.cyclePrefix with
  | some start => .query cursor start
  | none =>
    if accountSyncChangeWindow < cursor.head - cursor.seq then .finish (newCursor cursor.head)
    else .slot cursor (min cursor.head (cursor.seq + accountSyncPage))

/-- One step of a fetch from the writer. -/
def next (writer : AccountSyncDevice) (reader : AccountSyncReader) :
    FetchStage → Option (AccountSyncReader × FetchStage)
  | .idle => none
  | .readHead => some (reader, .load writer.headSeq)
  | .load head => some (reader, dispatch { reader.cursor.getD (newCursor head) with head })
  | .query cursor start =>
    let (keys, next) := accountSyncCycleKeys (BTreeSet.setOf writer.entries.keys) start
    some (reader, .items cursor next keys)
  | .items cursor next [] =>
    let seq := if next.isNone then cursor.cycleHead else cursor.seq
    some (reader, .finish { cursor with cyclePrefix := next, seq })
  | .items cursor next (key :: keys) =>
    match writer.entries[key]? with
    | some item => some (reader, .merge cursor next keys item)
    | none => some (reader, .items cursor next keys)
  | .merge cursor next keys item => some (reader.merge item, .items cursor next keys)
  | .slot cursor last =>
    if cursor.seq < last then
      match writer.slots[(cursor.seq + 1) % accountSyncChangeWindow]?.filter
          fun change => decide (change.seq = cursor.seq + 1) with
      | some change => some (reader, .readItem cursor last change.docsKey)
      | none => some (reader, .finish (newCursor cursor.head))
    else some (reader, .finish cursor)
  | .readItem cursor last docsKey =>
    match writer.entries[docsKey]? with
    | some item => some (reader, .adopt cursor last item)
    | none => some (reader, .put cursor last)
  | .adopt cursor last item => some (reader.merge item, .put cursor last)
  | .put cursor last =>
    let cursor := { cursor with seq := cursor.seq + 1 }
    some ({ reader with cursor := some cursor }, .slot cursor last)
  | .finish cursor =>
    some ({ reader with cursor := some cursor },
      if cursor.cyclePrefix.isSome ∨ cursor.seq < cursor.head then .readHead else .idle)

end FetchStage

/-! ### The two devices -/

/-- A device that writes, and one that reads from it. -/
structure SyncState where
  writer : DeviceState
  reader : AccountSyncReader
  fetches : ℕ → FetchStage

inductive SyncCall where
  /-- A step of the writer. -/
  | write (call : DeviceCall)
  | start (i : ℕ)
  | advance (i : ℕ)
  /-- The fetch stops: it fails, or the reader is restarted. -/
  | stop (i : ℕ)
  /-- The reader has an item from elsewhere. -/
  | merge (item : AccountSyncRow)
  /-- The cursor is dropped in favour of those of other devices. -/
  | dropCursor
  deriving DecidableEq, Repr

/-- One step of the two devices. -/
inductive SyncStep : SyncState → SyncCall → Unit → SyncState → Prop
  | write {state : SyncState} {call : DeviceCall} {writer : DeviceState}
      (hstep : DeviceStep state.writer call () writer) :
      SyncStep state (.write call) () { state with writer }
  | start {state : SyncState} {i : ℕ} (hidle : state.fetches i = .idle) :
      SyncStep state (.start i) ()
        { state with fetches := Function.update state.fetches i .readHead }
  | advance {state : SyncState} {i : ℕ} {reader : AccountSyncReader} {stage : FetchStage}
      (hnext : (state.fetches i).next state.writer.device state.reader = some (reader, stage)) :
      SyncStep state (.advance i) ()
        { state with reader, fetches := Function.update state.fetches i stage }
  | stop {state : SyncState} {i : ℕ} :
      SyncStep state (.stop i) () { state with fetches := Function.update state.fetches i .idle }
  | merge {state : SyncState} {item : AccountSyncRow} :
      SyncStep state (.merge item) () { state with reader := state.reader.merge item }
  | dropCursor {state : SyncState} :
      SyncStep state .dropCursor () { state with reader := { state.reader with cursor := none } }

/-- The step of a call, when it can be made. -/
def SyncState.perform (state : SyncState) : SyncCall → Option (Unit × SyncState)
  | .write call => (state.writer.perform call).map fun (_, writer) => ((), { state with writer })
  | .start i =>
    if state.fetches i = .idle then
      some ((), { state with fetches := Function.update state.fetches i .readHead })
    else none
  | .advance i =>
    ((state.fetches i).next state.writer.device state.reader).map fun (reader, stage) =>
      ((), { state with reader, fetches := Function.update state.fetches i stage })
  | .stop i => some ((), { state with fetches := Function.update state.fetches i .idle })
  | .merge item => some ((), { state with reader := state.reader.merge item })
  | .dropCursor => some ((), { state with reader := { state.reader with cursor := none } })

theorem syncStep_of_perform {before after : SyncState} {call : SyncCall} {ret : Unit}
    (hstarts : ∀ i stage, call = .write (.start i stage) → Starts stage)
    (hperform : before.perform call = some (ret, after)) :
  SyncStep before call ret after
  := by
  cases call with
  | write call =>
    obtain ⟨⟨_, writer⟩, hwriter, hafter⟩ := Option.map_eq_some_iff.mp hperform
    cases hafter
    apply SyncStep.write
    apply deviceStep_of_perform _ hwriter
    rintro i stage rfl
    apply hstarts i stage rfl
  | start i =>
    obtain ⟨hidle, hafter⟩ := Option.ite_none_right_eq_some.mp hperform
    cases hafter
    exact .start hidle
  | advance i =>
    obtain ⟨⟨reader, stage⟩, hnext, hafter⟩ := Option.map_eq_some_iff.mp hperform
    cases hafter
    exact .advance hnext
  | stop i =>
    cases hperform
    exact .stop
  | merge item =>
    cases hperform
    exact .merge
  | dropCursor =>
    cases hperform
    exact .dropCursor

abbrev SyncEvent := Event SyncState SyncCall Unit

/-- A writer that has done nothing, and a reader that knows nothing of it. -/
structure SyncState.Initial (state : SyncState) : Prop where
  fresh : Fresh state.writer
  entries : state.writer.device.entries = ∅
  slots : state.writer.device.slots = ∅
  head : state.writer.device.head = none
  cursor : state.reader.cursor = none
  fetches : ∀ i, state.fetches i = .idle

end Kukuri
