import Kukuri.Data.Trace

/-!
# Staging of an account bundle

The items of an account that is transferred are stored in chunk files before they are merged. A
manifest file says how many chunks there are, how many have been merged, and whether the bundle is
complete. All transfers of an account share these files. A transfer clears them when it begins and
when it is given up, and a task of the runtime merges a complete bundle.

Several transfers and merges may be in progress at once. A step of the model is one file operation
of one of them, which may also fail. The process may stop at any time. A transfer that is dropped
leaves a task that clears the files later.
-/

namespace Kukuri

structure Manifest where
  complete : Bool
  chunks : ℕ
  merged : ℕ
  deriving DecidableEq, Repr

def Manifest.default : Manifest := ⟨false, 0, 0⟩

/-- The files of an account. -/
structure TransferFiles (Item : Type) where
  manifest : Option Manifest
  chunk : ℕ → Option (List Item)

/-! ### Tasks -/

/-- What clears the files. -/
inductive ClearReason where
  | begin
  | abort
  | dropped
  | incomplete
  deriving DecidableEq, Repr

/-- What the clearing of the files does next. -/
inductive ClearStage where
  | readManifest
  | deleteChunks (index chunks : ℕ)
  | deleteManifest
  deriving DecidableEq, Repr

/-- A transfer or a merge. The chunks that a transfer has staged are kept by number, without those
that could not be written. -/
inductive TransferTask (Item : Type) where
  | idle
  | clear (reason : ClearReason) (stage : ClearStage)
  /-- Write the first manifest. -/
  | beginManifest
  /-- Between two calls. -/
  | staging (staged : List (Option (List Item)))
  | stageManifest (staged : List (Option (List Item))) (items : List Item)
  | stageChunk (staged : List (Option (List Item))) (items : List Item)
  | commitManifest (staged : List (Option (List Item)))
  /-- The bundle has been completed. -/
  | settled
  | mergeManifest
  /-- Read the next chunk, or delete the manifest if there is none. -/
  | mergeNext (manifest : Manifest)
  | mergeItems (manifest : Manifest) (items : List Item)
  | mergeDelete (manifest : Manifest)
  | mergeAdvance (manifest : Manifest)
  deriving DecidableEq, Repr

inductive TransferCall (Item : Type) where
  | begin
  /-- Stage items that can be opened. Other ones are refused at once. -/
  | stage (items : List Item)
  | commit
  | abort
  /-- The transfer is dropped. -/
  | drop
  | merge
  /-- The next operation of the task succeeds. -/
  | advance
  | fail
  /-- The manifest of a complete bundle is written, but the account is not registered. -/
  | failRegistration
  /-- A task that is not a transfer with staged items is stopped where it waits. -/
  | halt
  deriving DecidableEq, Repr

inductive TransferReturn (Item : Type) where
  | none
  /-- The account of a complete bundle has been registered: `commit` returns the account. -/
  | committed (staged : List (Option (List Item)))
  /-- Items have been passed to the account. -/
  | merged (items : List Item)
  deriving DecidableEq, Repr

section

variable {Item : Type}

namespace ClearStage

/-- The next chunk to delete, or the manifest. -/
def deleteFrom (index chunks : ℕ) : ClearStage :=
  if index < chunks then .deleteChunks index chunks else .deleteManifest

end ClearStage

namespace TransferFiles

def deleteChunk (files : TransferFiles Item) (index : ℕ) : TransferFiles Item :=
  { files with chunk := Function.update files.chunk index none }

def writeChunk (files : TransferFiles Item) (index : ℕ) (items : List Item) :
    TransferFiles Item :=
  { files with chunk := Function.update files.chunk index (some items) }

end TransferFiles

open ClearStage

/-- The next operation of a task that clears the files. -/
def clearNext (files : TransferFiles Item) (reason : ClearReason) :
    ClearStage → TransferFiles Item × TransferTask Item
  | .readManifest =>
    match files.manifest with
    | some manifest => (files, .clear reason (deleteFrom manifest.merged manifest.chunks))
    | none => (files, .clear reason .deleteManifest)
  | .deleteChunks index chunks =>
    (files.deleteChunk index, .clear reason (deleteFrom (index + 1) chunks))
  | .deleteManifest =>
    ({ files with manifest := none }, if reason = .begin then .beginManifest else .idle)

/-- The next operation of a task, if it succeeds. -/
def TransferTask.next (files : TransferFiles Item) :
    TransferTask Item → Option (TransferReturn Item × TransferFiles Item × TransferTask Item)
  | .clear reason stage => some (.none, clearNext files reason stage)
  | .beginManifest => some (.none, { files with manifest := some .default }, .staging [])
  | .stageManifest staged items =>
    some (.none, { files with manifest := some ⟨false, staged.length + 1, 0⟩ },
      .stageChunk staged items)
  | .stageChunk staged items =>
    some (.none, files.writeChunk staged.length items, .staging (staged ++ [some items]))
  | .commitManifest staged =>
    some (.committed staged, { files with manifest := some ⟨true, staged.length, 0⟩ }, .settled)
  | .mergeManifest =>
    match files.manifest with
    | none => some (.none, files, .idle)
    | some manifest =>
      if manifest.complete then some (.none, files, .mergeNext manifest)
      else some (.none, files, .clear .incomplete .readManifest)
  | .mergeNext manifest =>
    if manifest.merged < manifest.chunks then
      match files.chunk manifest.merged with
      | some items => some (.none, files, .mergeItems manifest items)
      | none => some (.none, files, .mergeAdvance manifest)
    else some (.none, { files with manifest := none }, .idle)
  | .mergeItems manifest items => some (.merged items, files, .mergeDelete manifest)
  | .mergeDelete manifest =>
    some (.none, files.deleteChunk manifest.merged, .mergeAdvance manifest)
  | .mergeAdvance manifest =>
    let manifest := { manifest with merged := manifest.merged + 1 }
    some (.none, { files with manifest := some manifest }, .mergeNext manifest)
  | .idle | .staging _ | .settled => none

/-- A task after its next operation has failed. -/
def TransferTask.fail : TransferTask Item → Option (TransferTask Item)
  | .stageManifest staged _ | .stageChunk staged _ => some (.staging (staged ++ [none]))
  | .commitManifest staged => some (.staging staged)
  | .idle | .staging _ | .settled => none
  | _ => some .idle

/-- A task after its transfer has been dropped. A bundle that has not been completed is cleared
later. -/
def TransferTask.drop : TransferTask Item → Option (TransferTask Item)
  | .staging _ | .stageManifest _ _ | .stageChunk _ _ | .commitManifest _ =>
    some (.clear .dropped .readManifest)
  | .settled => some .idle
  | _ => none

/-- A task after it has been stopped. -/
def TransferTask.halt : TransferTask Item → Option (TransferTask Item)
  | .clear _ _ | .beginManifest | .mergeManifest | .mergeNext _ | .mergeItems _ _
  | .mergeDelete _ | .mergeAdvance _ => some .idle
  | _ => none

/-- What a call does to a task and the files. -/
def TransferTask.perform (files : TransferFiles Item) (task : TransferTask Item) :
    TransferCall Item →
      Option (TransferReturn Item × TransferFiles Item × TransferTask Item)
  | .begin => match task with
    | .idle => some (.none, files, .clear .begin .readManifest)
    | _ => none
  | .stage items => match task with
    | .staging staged => some (.none, files, .stageManifest staged items)
    | _ => none
  | .commit => match task with
    | .staging staged => some (.none, files, .commitManifest staged)
    | _ => none
  | .abort => match task with
    | .staging _ | .settled => some (.none, files, .clear .abort .readManifest)
    | _ => none
  | .drop => task.drop.map (.none, files, ·)
  | .merge => match task with
    | .idle => some (.none, files, .mergeManifest)
    | _ => none
  | .advance => task.next files
  | .fail => task.fail.map (.none, files, ·)
  | .failRegistration => match task with
    | .commitManifest staged =>
      some (.none, { files with manifest := some ⟨true, staged.length, 0⟩ }, .settled)
    | _ => none
  | .halt => task.halt.map (.none, files, ·)

/-! ### Steps -/

structure TransferState (Item : Type) where
  files : TransferFiles Item
  tasks : ℕ → TransferTask Item

inductive TransferOp (Item : Type) where
  | call (task : ℕ) (call : TransferCall Item)
  /-- The process stops. -/
  | stop
  deriving DecidableEq, Repr

def TransferState.perform (state : TransferState Item) :
    TransferOp Item → Option (TransferReturn Item × TransferState Item)
  | .call i call => ((state.tasks i).perform state.files call).map fun result =>
      (result.1, ⟨result.2.1, Function.update state.tasks i result.2.2⟩)
  | .stop => some (.none, ⟨state.files, fun _ => .idle⟩)

def TransferStep (before : TransferState Item) (op : TransferOp Item)
    (ret : TransferReturn Item) (after : TransferState Item) : Prop :=
  before.perform op = some (ret, after)

abbrev TransferEvent (Item : Type) :=
  Event (TransferState Item) (TransferOp Item) (TransferReturn Item)

end

end Kukuri
