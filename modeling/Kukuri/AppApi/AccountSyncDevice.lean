import Kukuri.AppApi.AccountSyncCycle
import Kukuri.Core.AccountSync
import Kukuri.Data.Trace

/-!
# A device of an account

A device keeps a row for every item that it has adopted, and a replica from which the other
devices read. An item is written into the replica in three steps: the entry of the item, a slot of
the window of changes, and the head of the window. A row is unwritten until all of them are done.

Several tasks work on a device at once. A task is interrupted wherever it waits for the store or
the replica, so a step of the model is what a task does between two such places. Only the writes
into the replica are done under a lock.
-/

namespace Kukuri

/-! ### Data -/

/-- The state of an item that a device has adopted, or the item that the replica has. -/
structure AccountSyncRow where
  key : String
  opId : String
  updatedAt : ℤ
  value : Option String
  deriving DecidableEq, Repr

/-- Of two states of an item the one with the greater version is kept. -/
def AccountSyncRow.version (row : AccountSyncRow) : ℤ ×ₗ String :=
  toLex (row.updatedAt, row.opId)

structure AccountSyncChange where
  seq : ℕ
  docsKey : String
  deriving DecidableEq, Repr

structure AccountSyncDevice where
  rows : BTreeMap String AccountSyncRow
  unwritten : BTreeSet String
  /-- The items of the replica. -/
  entries : BTreeMap String AccountSyncRow
  /-- The window of changes of the replica. -/
  slots : BTreeMap ℕ AccountSyncChange
  /-- The last change in the window. -/
  head : Option ℕ
  /-- The task that holds the lock of writes. -/
  writing : Option ℕ

namespace AccountSyncDevice

def headSeq (device : AccountSyncDevice) : ℕ := device.head.getD 0

def adoptAccountSyncRow (device : AccountSyncDevice) (row : AccountSyncRow) :
    Bool × AccountSyncDevice :=
  if device.rows[row.key]?.all fun current => decide (current.version < row.version) then
    (true, { device with
      rows := device.rows.insert row.key row
      unwritten := device.unwritten.insert row.key })
  else (false, device)

def markAccountSyncWritten (device : AccountSyncDevice) (row : AccountSyncRow) :
    AccountSyncDevice :=
  if device.rows[row.key]?.any fun current => decide (current.version = row.version) then
    { device with unwritten := device.unwritten.erase row.key }
  else device

def listUnwrittenAccountSyncRows (device : AccountSyncDevice) (limit : ℕ) :
    List AccountSyncRow :=
  (device.unwritten.toList.take limit).filterMap fun key => device.rows[key]?

end AccountSyncDevice

/-! ### Tasks -/

/-- What a task does next. -/
inductive SyncStage where
  | idle
  /-- Adopt an edit of this device and write it. -/
  | publish (row : AccountSyncRow)
  /-- Adopt an item without writing it. -/
  | adopt (row : AccountSyncRow)
  /-- Adopt an item that was read, from the replica of this device or from another one. What
  follows the adoption may fail. -/
  | merge (row : AccountSyncRow) (fromOwnReplica commits : Bool)
  /-- Read an item from the replica of this device. -/
  | rebuild (key : String) (commits : Bool)
  /-- List the unwritten rows. -/
  | list
  /-- Compare an unwritten row with the replica. -/
  | compare (row : AccountSyncRow)
  /-- Wait for the lock. -/
  | wait (row : AccountSyncRow)
  | setEntry (row : AccountSyncRow)
  | readHead (row : AccountSyncRow)
  | setSlot (row : AccountSyncRow) (seq : ℕ)
  | setHead (row : AccountSyncRow) (seq : ℕ)
  | mark (row : AccountSyncRow)
  deriving DecidableEq, Repr

structure SyncTask where
  stage : SyncStage
  /-- Rows that are to be sent again after this one. -/
  queue : List AccountSyncRow
  /-- Whether the unwritten rows are listed again at the end. -/
  relists : Bool
  deriving DecidableEq, Repr

namespace SyncTask

def idle : SyncTask := ⟨.idle, [], false⟩

def goto (task : SyncTask) (stage : SyncStage) : SyncTask := { task with stage }

/-- Go on with the next row. -/
def finish (task : SyncTask) : SyncTask :=
  match task.queue with
  | row :: queue => { task with stage := .compare row, queue }
  | [] => if task.relists then { task with stage := .list } else .idle

/-- One step of the task with the given number. A task that waits for the lock makes none. -/
def next (i : ℕ) (device : AccountSyncDevice) (task : SyncTask) :
    Option (AccountSyncDevice × SyncTask) :=
  match task.stage with
  | .idle => none
  | .publish row =>
    let (adopted, device) := device.adoptAccountSyncRow row
    some (device, if adopted then task.goto (.wait row) else task.finish)
  | .adopt row => some ((device.adoptAccountSyncRow row).2, task.finish)
  | .merge row fromOwnReplica commits =>
    let (adopted, device) := device.adoptAccountSyncRow row
    some (device, if adopted && commits then
      task.goto (if fromOwnReplica then .mark row else .wait row) else task.finish)
  | .rebuild key commits =>
    match device.entries[key]? with
    | some row => some (device, task.goto (.merge row true commits))
    | none => some (device, task.finish)
  | .list =>
    match device.listUnwrittenAccountSyncRows accountSyncPage with
    | [] => some (device, .idle)
    | row :: queue => some (device, ⟨.compare row, queue, true⟩)
  | .compare row =>
    some (device, task.goto (if device.entries[row.key]?.any fun entry =>
      decide (entry.version = row.version) then .mark row else .wait row))
  | .wait row =>
    match device.writing with
    | some _ => none
    | none => some ({ device with writing := some i }, task.goto (.setEntry row))
  | .setEntry row =>
    some ({ device with entries := device.entries.insert row.key row }, task.goto (.readHead row))
  | .readHead row => some (device, task.goto (.setSlot row (device.headSeq + 1)))
  | .setSlot row seq =>
    let slots := device.slots.insert (seq % accountSyncChangeWindow) ⟨seq, row.key⟩
    some ({ device with slots }, task.goto (.setHead row seq))
  | .setHead row seq =>
    some ({ device with head := some seq, writing := none }, task.goto (.mark row))
  | .mark row => some (device.markAccountSyncWritten row, task.finish)

end SyncTask

/-! ### Steps -/

/-- A device and its tasks. -/
structure DeviceState where
  device : AccountSyncDevice
  tasks : ℕ → SyncTask

inductive DeviceCall where
  | start (i : ℕ) (stage : SyncStage)
  | advance (i : ℕ)
  /-- The task stops: it is cancelled, the replica fails, or the device is restarted. -/
  | stop (i : ℕ)
  deriving DecidableEq, Repr

def DeviceCall.task : DeviceCall → ℕ
  | .start i _ | .advance i | .stop i => i

/-- Keys of items that are not adopted by their version: the keys and the controllers of
channels. -/
def IsExempt (key : String) : Prop :=
  (∃ channelId epochId, key = (AccountSyncItemKey.channelCapability channelId epochId).docsKey) ∨
    ∃ channelId, key = (AccountSyncItemKey.channelController channelId).docsKey

/-- How a task may start. Exempt items are written when they have been merged by the rules of
their own. -/
def Starts : SyncStage → Prop
  | .publish _ | .adopt _ | .merge _ false _ | .rebuild _ _ | .list => True
  | .wait row => IsExempt row.key
  | _ => False

namespace DeviceState

def start (state : DeviceState) (i : ℕ) (stage : SyncStage) : DeviceState :=
  { state with tasks := Function.update state.tasks i (SyncTask.idle.goto stage) }

def advance (state : DeviceState) (i : ℕ) : Option DeviceState :=
  ((state.tasks i).next i state.device).map fun (device, task) =>
    ⟨device, Function.update state.tasks i task⟩

def stop (state : DeviceState) (i : ℕ) : DeviceState where
  device := { state.device with
    writing := if state.device.writing = some i then none else state.device.writing }
  tasks := Function.update state.tasks i .idle

end DeviceState

/-- One step of a device. -/
def DeviceStep (before : DeviceState) (call : DeviceCall) (_ : Unit) (after : DeviceState) :
    Prop :=
  match call with
  | .start i stage =>
    before.tasks i = .idle ∧ Starts stage ∧ after = before.start i stage
  | .advance i => before.advance i = some after
  | .stop i => after = before.stop i

abbrev DeviceEvent := Event DeviceState DeviceCall Unit

/-- The step of a call, when it can be made. -/
def DeviceState.perform (state : DeviceState) : DeviceCall → Option (Unit × DeviceState)
  | .start i stage => if state.tasks i = .idle then some ((), state.start i stage) else none
  | .advance i => (state.advance i).map fun after => ((), after)
  | .stop i => some ((), state.stop i)

theorem deviceStep_of_perform {before after : DeviceState} {call : DeviceCall} {ret : Unit}
    (hstarts : ∀ i stage, call = .start i stage → Starts stage)
    (hperform : before.perform call = some (ret, after)) :
  DeviceStep before call ret after
  := by
  cases call with
  | start i stage =>
    obtain ⟨hidle, hafter⟩ := Option.ite_none_right_eq_some.mp hperform
    cases hafter
    exact ⟨hidle, hstarts i stage rfl, rfl⟩
  | advance i =>
    obtain ⟨_, hadvance, hafter⟩ := Option.map_eq_some_iff.mp hperform
    cases hafter
    exact hadvance
  | stop i =>
    cases hperform
    rfl

/-- A step does not change the other tasks. -/
theorem DeviceStep.tasks_of_ne {before after : DeviceState} {call : DeviceCall} {ret : Unit}
    (hstep : DeviceStep before call ret after) {j : ℕ} (hj : call.task ≠ j) :
  after.tasks j = before.tasks j
  := by
  cases call with
  | start i stage =>
    obtain ⟨_, _, rfl⟩ := hstep
    exact Function.update_of_ne (Ne.symm hj) _ _
  | advance i =>
    obtain ⟨_, _, rfl⟩ := Option.map_eq_some_iff.mp hstep
    exact Function.update_of_ne (Ne.symm hj) _ _
  | stop i =>
    obtain rfl := hstep
    exact Function.update_of_ne (Ne.symm hj) _ _

/-- A device without rows and tasks. Its replica may have been written before. -/
structure Fresh (state : DeviceState) : Prop where
  rows : state.device.rows = ∅
  unwritten : state.device.unwritten = ∅
  writing : state.device.writing = none
  tasks : ∀ i, state.tasks i = .idle

/-! ### Rules -/

section

variable {device : AccountSyncDevice} {row : AccountSyncRow}

theorem adoptAccountSyncRow_cases (device : AccountSyncDevice) (row : AccountSyncRow) :
  (device.adoptAccountSyncRow row = (true, { device with
      rows := device.rows.insert row.key row
      unwritten := device.unwritten.insert row.key }) ∧
    ∀ current, device.rows[row.key]? = some current → current.version < row.version) ∨
    device.adoptAccountSyncRow row = (false, device)
  := by
  unfold AccountSyncDevice.adoptAccountSyncRow
  split
  case isTrue hnewer =>
    left
    refine ⟨rfl, ?_⟩
    intro current hcurrent
    rw [hcurrent] at hnewer
    exact of_decide_eq_true hnewer
  case isFalse => exact .inr rfl

theorem markAccountSyncWritten_cases (device : AccountSyncDevice) (row : AccountSyncRow) :
  (device.markAccountSyncWritten row =
      { device with unwritten := device.unwritten.erase row.key } ∧
    ∃ current, device.rows[row.key]? = some current ∧ current.version = row.version) ∨
    device.markAccountSyncWritten row = device
  := by
  unfold AccountSyncDevice.markAccountSyncWritten
  split
  case isTrue hsame =>
    left
    refine ⟨rfl, ?_⟩
    obtain ⟨current, hcurrent, hsame⟩ := (Option.any_eq_true _ _).mp hsame
    exact ⟨current, hcurrent, of_decide_eq_true hsame⟩
  case isFalse => exact .inr rfl

end

namespace Sample

/-- A device that has done nothing. -/
def newDevice : DeviceState where
  device := ⟨∅, ∅, ∅, ∅, none, none⟩
  tasks := fun _ => .idle

/-- An edit of the profile. -/
def edit (updatedAt : ℤ) : AccountSyncRow := ⟨"profile", "edit", updatedAt, some "name"⟩

/-- One task publishes an edit. -/
def publishing : List DeviceCall :=
  .start 0 (.publish (edit 1)) :: List.replicate 7 (.advance 0)

theorem fresh_newDevice : Fresh newDevice := ⟨rfl, rfl, rfl, fun _ => rfl⟩

end Sample

end Kukuri
