import Kukuri.Data.BTree
import Kukuri.Data.Trace

/-!
# Direct messages

The rows of one conversation, and what the operations on them write, one step after the other. An
operation may stop before any of its steps, since a check or the step itself fails.

* A send that stops between its two rows leaves a message that is shown as sent and that nothing
  transmits (`failed_send_delivers`, `exists_stranded_message`).
* A reception that stops before its row, or clearing the conversation, leaves blobs protected
  (`references_follow_rows`, `exists_lasting_reference`).
* A frame that arrives late becomes the head of the conversation (`head_is_newest`,
  `exists_stale_head`).
-/

namespace Kukuri.DirectMessages

open List Std.ExtTreeMap Std.ExtTreeSet BTreeMap

structure DirectMessageRow where
  createdAt : ℤ
  outgoing : Bool
  ackedAt : Option ℤ

/-- The rows of a conversation, and the messages with protected references `dm_message:<dm>/<id>`
and `dm_outbox:<dm>/<id>`. The conversation row has the last message, if there is one. -/
structure DmStore where
  messages : BTreeMap String DirectMessageRow := ∅
  outbox : BTreeSet String := ∅
  tombstones : BTreeSet String := ∅
  conversation : Option (Option (ℤ ×ₗ String)) := none
  messageRefs : BTreeSet String := ∅
  outboxRefs : BTreeSet String := ∅

namespace DmStore

/-- `list_direct_message_messages`: the newest first. -/
def listMessages (store : DmStore) : List (ℤ ×ₗ String) :=
  (store.messages.toList.map fun (id, row) => toLex (row.createdAt, id)).mergeSort
    fun a b => b ≤ a

def putOwnedMessageBlob (id : String) (store : DmStore) : DmStore :=
  { store with messageRefs := store.messageRefs.insert id }

def putOwnedOutboxBlob (id : String) (store : DmStore) : DmStore :=
  { store with outboxRefs := store.outboxRefs.insert id }

def putMessage (id : String) (row : DirectMessageRow) (store : DmStore) : DmStore :=
  { store with
    messages := if id ∈ store.tombstones then store.messages else store.messages.insert id row }

def putOutbox (id : String) (store : DmStore) : DmStore :=
  { store with outbox := store.outbox.insert id }

def upsertConversation (head : ℤ ×ₗ String) (store : DmStore) : DmStore :=
  { store with conversation := some (some head) }

def refreshConversation (sendEnabled : Bool) (store : DmStore) : DmStore :=
  { store with
    conversation := match store.listMessages.head? with
      | some head => some (some head)
      | none => if store.conversation.isSome ∨ sendEnabled then some none else none }

def setAckedAt (id : String) (ackedAt : ℤ) (store : DmStore) : DmStore :=
  { store with
    messages := store.messages.modify id fun row =>
      { row with ackedAt := row.ackedAt <|> some ackedAt } }

def removeOutbox (id : String) (store : DmStore) : DmStore :=
  { store with outbox := store.outbox.erase id, outboxRefs := store.outboxRefs.erase id }

def putTombstone (id : String) (store : DmStore) : DmStore :=
  { store with tombstones := store.tombstones.insert id }

def deleteMessageLocal (id : String) (store : DmStore) : DmStore :=
  { store with
    messages := store.messages.erase id
    outbox := store.outbox.erase id
    messageRefs := store.messageRefs.erase id
    outboxRefs := store.outboxRefs.erase id }

end DmStore

open DmStore

/-- A message has no blobs, an image, or a video and its poster. -/
inductive DmOp where
  | send (id : String) (createdAt : ℤ) (blobs : ℕ) (sendEnabled : Bool)
  | ingest (id : String) (createdAt : ℤ) (blobs : ℕ)
  | ack (id : String) (ackedAt : ℤ)
  | delete (id : String) (sendEnabled : Bool)
  | clear

/-- The steps of an operation that write. -/
def DmOp.writes (store : DmStore) : DmOp → List (DmStore → DmStore)
  | send id createdAt blobs sendEnabled =>
    -- The blobs as they are and encrypted, and the frame.
    List.replicate blobs (putOwnedMessageBlob id) ++
      List.replicate (blobs + 1) (putOwnedOutboxBlob id) ++
      [putMessage id ⟨createdAt, true, none⟩, putOutbox id, refreshConversation sendEnabled]
  | ingest id createdAt blobs =>
    if id ∈ store.tombstones ∨ id ∈ store.messages then []
    else List.replicate blobs (putOwnedMessageBlob id) ++
      [putMessage id ⟨createdAt, false, none⟩, upsertConversation (toLex (createdAt, id))]
  | ack id ackedAt => [setAckedAt id ackedAt, removeOutbox id]
  | delete id sendEnabled =>
    [putTombstone id, deleteMessageLocal id, refreshConversation sendEnabled]
  | clear => store.listMessages.map (fun head => putTombstone (ofLex head).2) ++
      [fun store => { store with messages := ∅ }, fun store => { store with outbox := ∅ },
        fun store => { store with conversation := none }]

def DmStore.after (store : DmStore) (writes : List (DmStore → DmStore)) : DmStore :=
  writes.foldl (fun store write => write store) store

/-- The operation makes the first `steps` of its writes. -/
def DmStore.run (store : DmStore) (op : DmOp) (steps : ℕ) : DmStore :=
  store.after ((op.writes store).take steps)

section

variable {store store' : DmStore} {id : String} {createdAt : ℤ} {blobs steps : ℕ} {op : DmOp}

/-- The messages that are stored, by time and identifier. -/
def stored (messages : BTreeMap String DirectMessageRow) : Set (ℤ ×ₗ String) :=
  { head | ∃ row, messages[(ofLex head).2]? = some row ∧ row.createdAt = (ofLex head).1 }

/-- A frame that is received is not older than the messages that are there. -/
def InOrder (store : DmStore) : DmOp → Prop
  | .ingest id createdAt _ => toLex (createdAt, id) ∈ upperBounds (stored store.messages)
  | _ => True

end

end Kukuri.DirectMessages
