import Kukuri.Data.Bytes
import Kukuri.Data.Trace

/-!
# Channels of a game session

Each end of a game session has queues of datagrams and of stream messages in both directions.
Four tasks move them: two send what is queued, and two queue what is received. Datagrams may be
lost. The messages of the stream are written one after the other, each after its length, on one
stream per direction, which may break at any point.

All access to the queues is under a lock. A step of the model is a call, or what a task does
between two places where it waits. A write or a read of the stream may be in several parts.
-/

namespace Kukuri

open Bytes

def gameDatagramMaxBytes : ℕ := 1100
def gameStreamMessageMaxBytes : ℕ := 64 * 1024
def queuedDatagrams : ℕ := 64
def queuedStreamBytes : ℕ := 256 * 1024

/-! ### Data -/

inductive GameDelivery where
  | datagram
  | stream
  deriving DecidableEq, Repr

inductive GameSendRefused where
  | tooLarge
  | backpressure
  | closed
  deriving DecidableEq, Repr

structure GamePacket where
  delivery : GameDelivery
  bytes : Bytes
  deriving DecidableEq, Repr

structure Queues where
  outDatagrams : List Bytes
  outStream : List Bytes
  /-- The size of the queued messages and of the one that is being written. -/
  outStreamBytes : ℕ
  inDatagrams : List Bytes
  inStream : List Bytes
  inStreamBytes : ℕ
  deriving DecidableEq, Repr

def Queues.empty : Queues := ⟨[], [], 0, [], [], 0⟩

/-- What the task that sends datagrams is about to do. -/
inductive DatagramStage where
  | idle
  | sending (datagram : Bytes)
  | stopped
  deriving DecidableEq, Repr

/-- What the task that writes the stream is about to do. -/
inductive SendStage where
  | idle (opened : Bool)
  | opening (message : Bytes)
  /-- Write the rest of a message. -/
  | writing (message rest : Bytes)
  /-- Nothing, after it has lost a message. -/
  | stopped (lost : Bytes)
  deriving DecidableEq, Repr

/-- What the task that reads the stream is about to do. -/
inductive ReceiveStage where
  | accepting
  /-- Read the rest of a length. -/
  | header (got : Bytes)
  /-- Read the rest of a message. -/
  | body (length : ℕ) (got : Bytes)
  /-- Wait for space in the queue. -/
  | waiting (message : Bytes)
  | stopped
  deriving DecidableEq, Repr

structure GameSessionChannel where
  isOpen : Bool
  queues : Queues
  sendDatagrams : DatagramStage
  sendStream : SendStage
  /-- Whether datagrams are still received. -/
  receiveDatagrams : Bool
  receiveStream : ReceiveStage
  deriving DecidableEq, Repr

/-- Decides whether a packet of the given size fits, knowing the sizes that it was asked about
before. -/
abbrev Fits := List ℕ → ℕ → Bool

/-! ### Calls -/

namespace GameSessionChannel

def new : GameSessionChannel where
  isOpen := true
  queues := .empty
  sendDatagrams := .idle
  sendStream := .idle false
  receiveDatagrams := true
  receiveStream := .accepting

/-- Queue a datagram. The oldest one makes place. -/
def pushDatagram (queue : List Bytes) (datagram : Bytes) : List Bytes :=
  (if queuedDatagrams ≤ queue.length then queue.tail else queue) ++ [datagram]

def send (channel : GameSessionChannel) (maxDatagramSize : Option ℕ) (delivery : GameDelivery)
    (bytes : Bytes) : Except GameSendRefused Unit × GameSessionChannel :=
  if ¬ channel.isOpen then (.error .closed, channel)
  else
    match delivery with
    | .datagram =>
      if min (maxDatagramSize.getD 0) gameDatagramMaxBytes < bytes.length then
        (.error .tooLarge, channel)
      else
        (.ok (), { channel with queues := { channel.queues with
          outDatagrams := pushDatagram channel.queues.outDatagrams bytes } })
    | .stream =>
      if gameStreamMessageMaxBytes < bytes.length then (.error .tooLarge, channel)
      else if queuedStreamBytes < channel.queues.outStreamBytes + bytes.length then
        (.error .backpressure, channel)
      else
        (.ok (), { channel with queues := { channel.queues with
          outStreamBytes := channel.queues.outStreamBytes + bytes.length
          outStream := channel.queues.outStream ++ [bytes] } })

/-- The packets at the front of a queue as long as they fit, those that are left, and the sizes
that have been asked about. -/
def takeFitting (fits : Fits) : List ℕ → List Bytes → List Bytes × List Bytes × List ℕ
  | asked, [] => ([], [], asked)
  | asked, packet :: queue =>
    let asked' := asked ++ [packet.length]
    if fits asked packet.length then
      let (taken, left, asked'') := takeFitting fits asked' queue
      (packet :: taken, left, asked'')
    else ([], packet :: queue, asked')

def totalBytes (messages : List Bytes) : ℕ := (messages.map List.length).sum

def take (channel : GameSessionChannel) (accept : Bool) (fits : Fits) :
    List GamePacket × GameSessionChannel :=
  let queues := channel.queues
  if ¬ accept then ([], { channel with queues := { queues with inDatagrams := [] } })
  else
    let (messages, inStream, asked) := takeFitting fits [] queues.inStream
    let (datagrams, inDatagrams, _) := takeFitting fits asked queues.inDatagrams
    (messages.map (⟨.stream, ·⟩) ++ datagrams.map (⟨.datagram, ·⟩),
      { channel with queues := { queues with
        inStream
        inStreamBytes := queues.inStreamBytes - totalBytes messages
        inDatagrams } })

end GameSessionChannel

/-! ### Steps -/

inductive GameCall where
  /-- A call of `send`, with the size of a datagram that the connection allows. -/
  | send (maxDatagramSize : Option ℕ) (delivery : GameDelivery) (bytes : Bytes)
  | take (accept : Bool) (fits : Fits)
  /-- The connection closes. -/
  | close
  -- The task that sends datagrams.
  | nextDatagram
  | datagramSent (ok : Bool)
  -- The task that writes the stream.
  | nextMessage
  | streamOpened (ok : Bool)
  | write (count : ℕ)
  | writeFailed
  | written
  -- The task that receives datagrams.
  | datagramReceived (datagram : Bytes)
  | datagramsFailed
  -- The task that reads the stream.
  | streamAccepted (ok : Bool)
  | read (bytes : Bytes)
  | readFailed
  | headerRead
  | bodyRead
  | push

inductive GameReturn where
  | unit
  | sent (result : Except GameSendRefused Unit)
  | took (packets : List GamePacket)
  /-- Bytes have been written to the stream. -/
  | wrote (bytes : Bytes)

namespace GameSessionChannel

/-- The task that sends datagrams. -/
def stepSendDatagrams (channel : GameSessionChannel) :
    GameCall → Option GameSessionChannel
  | .nextDatagram =>
    match channel.sendDatagrams, channel.queues.outDatagrams with
    | .idle, datagram :: outDatagrams => some { channel with
        queues := { channel.queues with outDatagrams }
        sendDatagrams := .sending datagram }
    | _, _ => none
  | .datagramSent ok =>
    match channel.sendDatagrams with
    | .sending _ => some { channel with sendDatagrams := if ok then .idle else .stopped }
    | _ => none
  | _ => none

/-- The task that writes the stream. -/
def stepSendStream (channel : GameSessionChannel) :
    GameCall → Option (GameReturn × GameSessionChannel)
  | .nextMessage =>
    match channel.sendStream, channel.queues.outStream with
    | .idle opened, message :: outStream => some (.unit, { channel with
        queues := { channel.queues with outStream }
        sendStream := if opened then .writing message (framed message) else .opening message })
    | _, _ => none
  | .streamOpened ok =>
    match channel.sendStream with
    | .opening message => some (.unit, { channel with
        sendStream := if ok then .writing message (framed message) else .stopped message })
    | _ => none
  | .write count =>
    match channel.sendStream with
    | .writing message rest => some (.wrote (rest.take count), { channel with
        sendStream := .writing message (rest.drop count) })
    | _ => none
  | .writeFailed =>
    match channel.sendStream with
    | .writing message _ => some (.unit, { channel with sendStream := .stopped message })
    | _ => none
  | .written =>
    match channel.sendStream with
    | .writing message [] => some (.unit, { channel with
        queues := { channel.queues with
          outStreamBytes := channel.queues.outStreamBytes - message.length }
        sendStream := .idle true })
    | _ => none
  | _ => none

/-- The task that receives datagrams. -/
def stepReceiveDatagrams (channel : GameSessionChannel) :
    GameCall → Option GameSessionChannel
  | .datagramReceived datagram =>
    if channel.receiveDatagrams then some { channel with
      queues := { channel.queues with
        inDatagrams := pushDatagram channel.queues.inDatagrams datagram } }
    else none
  | .datagramsFailed => some { channel with receiveDatagrams := false }
  | _ => none

/-- The task that reads the stream. -/
def stepReceiveStream (channel : GameSessionChannel) :
    GameCall → Option GameSessionChannel
  | .streamAccepted ok =>
    match channel.receiveStream with
    | .accepting => some { channel with receiveStream := if ok then .header [] else .stopped }
    | _ => none
  | .read bytes =>
    match channel.receiveStream with
    | .header got =>
      if got.length + bytes.length ≤ 4 then
        some { channel with receiveStream := .header (got ++ bytes) }
      else none
    | .body length got =>
      if got.length + bytes.length ≤ length then
        some { channel with receiveStream := .body length (got ++ bytes) }
      else none
    | _ => none
  | .readFailed =>
    match channel.receiveStream with
    | .header _ | .body _ _ => some { channel with receiveStream := .stopped }
    | _ => none
  | .headerRead =>
    match channel.receiveStream with
    | .header got =>
      if got.length ≠ 4 then none
      else if gameStreamMessageMaxBytes < ofBigEndian got then
        some { channel with isOpen := false, receiveStream := .stopped }
      else some { channel with receiveStream := .body (ofBigEndian got) [] }
    | _ => none
  | .bodyRead =>
    match channel.receiveStream with
    | .body length got =>
      if got.length = length then some { channel with receiveStream := .waiting got } else none
    | _ => none
  | .push =>
    match channel.receiveStream with
    | .waiting message =>
      if channel.queues.inStream = [] ∨
          channel.queues.inStreamBytes + message.length ≤ queuedStreamBytes then
        some { channel with
          queues := { channel.queues with
            inStreamBytes := channel.queues.inStreamBytes + message.length
            inStream := channel.queues.inStream ++ [message] }
          receiveStream := .header [] }
      else none
    | _ => none
  | _ => none

/-- What a call does, if it can be made now. -/
def perform (channel : GameSessionChannel) (call : GameCall) :
    Option (GameReturn × GameSessionChannel) :=
  match call with
  | .send maxDatagramSize delivery bytes =>
    let sent := channel.send maxDatagramSize delivery bytes
    some (.sent sent.1, sent.2)
  | .take accept fits =>
    let took := channel.take accept fits
    some (.took took.1, took.2)
  | .close => some (.unit, { channel with isOpen := false })
  | .nextDatagram | .datagramSent _ => (channel.stepSendDatagrams call).map (.unit, ·)
  | .nextMessage | .streamOpened _ | .write _ | .writeFailed | .written =>
    channel.stepSendStream call
  | .datagramReceived _ | .datagramsFailed => (channel.stepReceiveDatagrams call).map (.unit, ·)
  | .streamAccepted _ | .read _ | .readFailed | .headerRead | .bodyRead | .push =>
    (channel.stepReceiveStream call).map (.unit, ·)

end GameSessionChannel

def GameStep (before : GameSessionChannel) (call : GameCall) (ret : GameReturn)
    (after : GameSessionChannel) : Prop :=
  before.perform call = some (ret, after)

end Kukuri
