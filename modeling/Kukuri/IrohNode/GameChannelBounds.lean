import Kukuri.IrohNode.GameChannel

/-!
# What the queues of a game session hold

The stream of a channel is seen in two halves: what goes out and what comes in. `OutgoingStep` and
`IncomingStep` say once what a step can do to each half. From them follows that the counts of
bytes are exact and bounded.

The main result, `queues_bounded`, bounds the number of packets as long as no stream message is
empty. Empty messages count nothing, so `queues_unbounded` makes any number of them.
-/

namespace Kukuri

open Bytes GameSessionChannel List Option

/-! ### Two halves of a stream -/

structure Outgoing where
  queue : List Bytes
  bytes : ℕ
  stage : SendStage

structure Incoming where
  queue : List Bytes
  bytes : ℕ
  stage : ReceiveStage

def GameSessionChannel.outgoing (channel : GameSessionChannel) : Outgoing :=
  ⟨channel.queues.outStream, channel.queues.outStreamBytes, channel.sendStream⟩

def GameSessionChannel.incoming (channel : GameSessionChannel) : Incoming :=
  ⟨channel.queues.inStream, channel.queues.inStreamBytes, channel.receiveStream⟩

/-- The stream message that a call has queued. -/
def sentMessage : GameCall → GameReturn → Option Bytes
  | .send _ .stream bytes, .sent (.ok ()) => some bytes
  | _, _ => none

/-- The bytes that a call has written to the stream. -/
def writtenBytes : GameReturn → Bytes
  | .wrote bytes => bytes
  | _ => []

/-- The bytes that a call has read from the stream. -/
def readBytes : GameCall → Bytes
  | .read bytes => bytes
  | _ => []

/-- The messages of the stream among the packets. -/
def streamMessages (packets : List GamePacket) : List Bytes :=
  (packets.filter (·.delivery = .stream)).map GamePacket.bytes

/-- The stream messages that a call has taken. -/
def takenMessages : GameReturn → List Bytes
  | .took packets => streamMessages packets
  | _ => []

/-- What a step does to the outgoing half, with the message it has queued and the bytes it has
written. -/
inductive OutgoingStep (outgoing : Outgoing) : Option Bytes → Bytes → Outgoing → Prop
  | same : OutgoingStep outgoing none [] outgoing
  | queue {message : Bytes} : message.length ≤ gameStreamMessageMaxBytes →
      outgoing.bytes + message.length ≤ queuedStreamBytes →
      OutgoingStep outgoing (some message) [] { outgoing with
        queue := outgoing.queue ++ [message], bytes := outgoing.bytes + message.length }
  | next {message : Bytes} {queue : List Bytes} {opened : Bool} :
      outgoing.queue = message :: queue → outgoing.stage = .idle opened →
      OutgoingStep outgoing none [] { outgoing with
        queue, stage := if opened then .writing message (framed message) else .opening message }
  | opened {message : Bytes} : outgoing.stage = .opening message →
      OutgoingStep outgoing none [] { outgoing with stage := .writing message (framed message) }
  | openFailed {message : Bytes} : outgoing.stage = .opening message →
      OutgoingStep outgoing none [] { outgoing with stage := .stopped message }
  | write {message rest : Bytes} (count : ℕ) : outgoing.stage = .writing message rest →
      OutgoingStep outgoing none (rest.take count) { outgoing with
        stage := .writing message (rest.drop count) }
  | writeFailed {message rest : Bytes} : outgoing.stage = .writing message rest →
      OutgoingStep outgoing none [] { outgoing with stage := .stopped message }
  | written {message : Bytes} : outgoing.stage = .writing message [] →
      OutgoingStep outgoing none [] { outgoing with
        bytes := outgoing.bytes - message.length, stage := .idle true }

/-- What a step does to the incoming half, with the messages it has taken and the bytes it has
read. -/
inductive IncomingStep (incoming : Incoming) : List Bytes → Bytes → Incoming → Prop
  | same : IncomingStep incoming [] [] incoming
  | take {taken left : List Bytes} : incoming.queue = taken ++ left →
      IncomingStep incoming taken [] { incoming with
        queue := left, bytes := incoming.bytes - totalBytes taken }
  | accepted : incoming.stage = .accepting →
      IncomingStep incoming [] [] { incoming with stage := .header [] }
  | stop : IncomingStep incoming [] [] { incoming with stage := .stopped }
  | readHeader {got bytes : Bytes} : incoming.stage = .header got →
      IncomingStep incoming [] bytes { incoming with stage := .header (got ++ bytes) }
  | readBody {length : ℕ} {got bytes : Bytes} : incoming.stage = .body length got →
      IncomingStep incoming [] bytes { incoming with stage := .body length (got ++ bytes) }
  | headerRead {got : Bytes} : incoming.stage = .header got → got.length = 4 →
      ofBigEndian got ≤ gameStreamMessageMaxBytes →
      IncomingStep incoming [] [] { incoming with stage := .body (ofBigEndian got) [] }
  | bodyRead {got : Bytes} : incoming.stage = .body got.length got →
      IncomingStep incoming [] [] { incoming with stage := .waiting got }
  | push {message : Bytes} : incoming.stage = .waiting message →
      incoming.queue = [] ∨ incoming.bytes + message.length ≤ queuedStreamBytes →
      IncomingStep incoming [] [] { incoming with
        queue := incoming.queue ++ [message], bytes := incoming.bytes + message.length
        stage := .header [] }

/-- A queue of datagrams loses the oldest ones, or gets one more. -/
def DatagramsStep (queue queue' : List Bytes) : Prop :=
  queue' <:+ queue ∨ ∃ datagram, queue' = pushDatagram queue datagram

theorem DatagramsStep.refl (queue : List Bytes) :
  DatagramsStep queue queue
  := .inl (suffix_refl queue)

/-! ### Taking -/

/-- Packets are taken from the front of a queue as long as they fit. The first that does not fit
stays at the front. -/
structure TakesInOrder (fits : Fits) (asked : List ℕ) (queue taken left : List Bytes) : Prop where
  front : queue = taken ++ left
  fit : ∀ i packet, taken[i]? = some packet →
    fits (asked ++ (taken.take i).map List.length) packet.length
  stop : ∀ packet ∈ left.head?, ¬ fits (asked ++ taken.map List.length) packet.length

theorem takeFitting_takesInOrder (fits : Fits) (asked : List ℕ) (queue : List Bytes) :
  TakesInOrder fits asked queue (takeFitting fits asked queue).1
    (takeFitting fits asked queue).2.1
  := by
  induction queue generalizing asked with
  | nil => exact ⟨rfl, nofun, nofun⟩
  | cons packet queue ih =>
    rw [takeFitting]
    by_cases hfits : fits asked packet.length
    · obtain ⟨hfront, hfit, hstop⟩ := ih (asked ++ [packet.length])
      simp only [hfits, if_true]
      refine ⟨congrArg _ hfront, ?_, ?_⟩
      · intro i packet' hget
        cases i with
        | zero =>
          cases hget
          simpa using hfits
        | succ i =>
          have hrest := hfit i packet' hget
          rwa [append_assoc] at hrest
      · rwa [append_assoc] at hstop
    · simp only [hfits, Bool.false_eq_true, if_false]
      refine ⟨rfl, nofun, ?_⟩
      rintro packet' ⟨⟩
      simpa using hfits

theorem streamMessages_append (messages datagrams : List Bytes) :
  streamMessages (messages.map (⟨.stream, ·⟩) ++ datagrams.map (⟨.datagram, ·⟩)) = messages
  := by
  rw [streamMessages, List.filter_append, List.filter_map, List.filter_map]
  simp [Function.comp_def]

section

variable {channel before after : GameSessionChannel} {call : GameCall} {ret : GameReturn}

/-- The messages that are taken are at the front of the queue, and their bytes are uncounted. -/
theorem take_incoming (channel : GameSessionChannel) (accept : Bool) (fits : Fits) :
  ∃ taken left, channel.queues.inStream = taken ++ left ∧
    streamMessages (channel.take accept fits).1 = taken ∧
    (channel.take accept fits).2.incoming =
      ⟨left, channel.queues.inStreamBytes - totalBytes taken, channel.receiveStream⟩ ∧
    (accept → TakesInOrder fits [] channel.queues.inStream taken left)
  := by
  cases accept with
  | false => exact ⟨[], _, rfl, rfl, rfl, nofun⟩
  | true =>
    have horder := takeFitting_takesInOrder fits [] channel.queues.inStream
    exact ⟨_, _, horder.front, streamMessages_append _ _, rfl, fun _ => horder⟩

/-! ### What a step does -/

/-- What a step does to the queues and to the tasks of the stream. -/
structure StepEffect (before : GameSessionChannel) (call : GameCall) (ret : GameReturn)
    (after : GameSessionChannel) : Prop where
  outgoing : OutgoingStep before.outgoing (sentMessage call ret) (writtenBytes ret) after.outgoing
  incoming : IncomingStep before.incoming (takenMessages ret) (readBytes call) after.incoming
  outDatagrams : DatagramsStep before.queues.outDatagrams after.queues.outDatagrams
  inDatagrams : DatagramsStep before.queues.inDatagrams after.queues.inDatagrams

/-- A step of the tasks of the stream leaves the datagrams. -/
def SameDatagrams (before after : GameSessionChannel) : Prop :=
  after.queues.outDatagrams = before.queues.outDatagrams ∧
    after.queues.inDatagrams = before.queues.inDatagrams

theorem send_cases (maxDatagramSize : Option ℕ) (delivery : GameDelivery) (bytes : Bytes) :
  (∃ refused, channel.send maxDatagramSize delivery bytes = (.error refused, channel)) ∨
  (delivery = .datagram ∧ channel.send maxDatagramSize delivery bytes =
    (.ok (), { channel with queues := { channel.queues with
      outDatagrams := pushDatagram channel.queues.outDatagrams bytes } })) ∨
  (delivery = .stream ∧ bytes.length ≤ gameStreamMessageMaxBytes ∧
    channel.queues.outStreamBytes + bytes.length ≤ queuedStreamBytes ∧
    channel.send maxDatagramSize delivery bytes =
      (.ok (), { channel with queues := { channel.queues with
        outStreamBytes := channel.queues.outStreamBytes + bytes.length
        outStream := channel.queues.outStream ++ [bytes] } }))
  := by
  unfold GameSessionChannel.send
  by_cases hopen : ¬ channel.isOpen
  · rw [if_pos hopen]
    exact .inl ⟨_, rfl⟩
  rw [if_neg hopen]
  cases delivery with
  | datagram =>
    by_cases hsize : min (maxDatagramSize.getD 0) gameDatagramMaxBytes < bytes.length
    · exact .inl ⟨_, if_pos hsize⟩
    · exact .inr (.inl ⟨rfl, if_neg hsize⟩)
  | stream =>
    by_cases hsize : gameStreamMessageMaxBytes < bytes.length
    · exact .inl ⟨_, if_pos hsize⟩
    by_cases hspace : queuedStreamBytes < channel.queues.outStreamBytes + bytes.length
    · exact .inl ⟨_, (if_neg hsize).trans (if_pos hspace)⟩
    · exact .inr (.inr ⟨rfl, not_lt.mp hsize, not_lt.mp hspace,
        (if_neg hsize).trans (if_neg hspace)⟩)

theorem send_effect (maxDatagramSize : Option ℕ) (delivery : GameDelivery) (bytes : Bytes) :
  StepEffect channel (.send maxDatagramSize delivery bytes)
    (.sent (channel.send maxDatagramSize delivery bytes).1)
    (channel.send maxDatagramSize delivery bytes).2
  := by
  rcases send_cases maxDatagramSize delivery bytes with
    ⟨refused, hsend⟩ | ⟨rfl, hsend⟩ | ⟨rfl, hsize, hspace, hsend⟩
  · rw [hsend]
    cases delivery <;> exact ⟨.same, .same, .refl _, .refl _⟩
  · rw [hsend]
    exact ⟨.same, .same, .inr ⟨bytes, rfl⟩, .refl _⟩
  · rw [hsend]
    exact ⟨.queue hsize hspace, .same, .refl _, .refl _⟩

theorem take_effect (accept : Bool) (fits : Fits) :
  StepEffect channel (.take accept fits) (.took (channel.take accept fits).1)
    (channel.take accept fits).2
  := by
  obtain ⟨taken, left, hqueue, htaken, hincoming, _⟩ := take_incoming channel accept fits
  refine ⟨?_, ?_, ?_, ?_⟩
  · cases accept <;> exact .same
  · rw [hincoming, takenMessages, htaken]
    exact .take hqueue
  · cases accept <;> exact .refl _
  · cases accept with
    | false => exact .inl nil_suffix
    | true => exact .inl ⟨_, (takeFitting_takesInOrder fits _ _).front.symm⟩

theorem stepSendStream_outgoing (h : before.stepSendStream call = some (ret, after)) :
  OutgoingStep before.outgoing none (writtenBytes ret) after.outgoing ∧
    after.incoming = before.incoming ∧ takenMessages ret = [] ∧ SameDatagrams before after
  := by
  cases call <;> try cases h
  all_goals
    simp only [stepSendStream] at h
  case nextMessage =>
    split at h <;> cases h
    next hstage hqueue => exact ⟨.next hqueue hstage, rfl, rfl, rfl, rfl⟩
  case streamOpened ok =>
    split at h <;> cases h
    next hstage =>
      cases ok with
      | true => exact ⟨.opened hstage, rfl, rfl, rfl, rfl⟩
      | false => exact ⟨.openFailed hstage, rfl, rfl, rfl, rfl⟩
  case write count =>
    split at h <;> cases h
    next hstage => exact ⟨.write count hstage, rfl, rfl, rfl, rfl⟩
  case writeFailed =>
    split at h <;> cases h
    next hstage => exact ⟨.writeFailed hstage, rfl, rfl, rfl, rfl⟩
  case written =>
    split at h <;> cases h
    next hstage => exact ⟨.written hstage, rfl, rfl, rfl, rfl⟩

theorem stepReceiveStream_incoming (h : before.stepReceiveStream call = some after) :
  IncomingStep before.incoming [] (readBytes call) after.incoming ∧
    after.outgoing = before.outgoing ∧ SameDatagrams before after
  := by
  cases call <;> try cases h
  all_goals
    simp only [stepReceiveStream] at h
  case streamAccepted ok =>
    split at h <;> cases h
    next hstage =>
      cases ok with
      | true => exact ⟨.accepted hstage, rfl, rfl, rfl⟩
      | false => exact ⟨.stop, rfl, rfl, rfl⟩
  case read bytes =>
    split at h
    case h_1 got hstage =>
      obtain ⟨_, hafter⟩ := ite_none_right_eq_some.mp h
      cases hafter
      exact ⟨.readHeader hstage, rfl, rfl, rfl⟩
    case h_2 length got hstage =>
      obtain ⟨_, hafter⟩ := ite_none_right_eq_some.mp h
      cases hafter
      exact ⟨.readBody hstage, rfl, rfl, rfl⟩
    case h_3 => cases h
  case readFailed =>
    split at h <;> cases h
    all_goals exact ⟨.stop, rfl, rfl, rfl⟩
  case headerRead =>
    split at h
    case h_1 got hstage =>
      obtain ⟨hlength, h⟩ := ite_none_left_eq_some.mp h
      split at h <;> cases h
      case isTrue => exact ⟨.stop, rfl, rfl, rfl⟩
      case isFalse hsize =>
        exact ⟨.headerRead hstage (not_not.mp hlength) (not_lt.mp hsize), rfl, rfl, rfl⟩
    case h_2 => cases h
  case bodyRead =>
    split at h
    case h_1 length got hstage =>
      obtain ⟨hlength, h⟩ := ite_none_right_eq_some.mp h
      cases h
      rw [← hlength] at hstage
      exact ⟨.bodyRead hstage, rfl, rfl, rfl⟩
    case h_2 => cases h
  case push =>
    split at h
    case h_1 message hstage =>
      obtain ⟨hspace, h⟩ := ite_none_right_eq_some.mp h
      cases h
      exact ⟨.push hstage hspace, rfl, rfl, rfl⟩
    case h_2 => cases h

theorem stepSendDatagrams_effect (h : before.stepSendDatagrams call = some after) :
  after.outgoing = before.outgoing ∧ after.incoming = before.incoming ∧
    DatagramsStep before.queues.outDatagrams after.queues.outDatagrams ∧
    after.queues.inDatagrams = before.queues.inDatagrams
  := by
  cases call <;> try cases h
  all_goals
    simp only [stepSendDatagrams] at h
  case nextDatagram =>
    split at h <;> cases h
    next hqueue =>
      refine ⟨rfl, rfl, .inl ?_, rfl⟩
      rw [hqueue]
      exact suffix_cons _ _
  case datagramSent ok =>
    split at h <;> cases h
    exact ⟨rfl, rfl, .refl _, rfl⟩

theorem stepReceiveDatagrams_effect (h : before.stepReceiveDatagrams call = some after) :
  after.outgoing = before.outgoing ∧ after.incoming = before.incoming ∧
    after.queues.outDatagrams = before.queues.outDatagrams ∧
    DatagramsStep before.queues.inDatagrams after.queues.inDatagrams
  := by
  cases call with
  | datagramReceived datagram =>
    obtain ⟨_, h⟩ := ite_none_right_eq_some.mp h
    cases h
    exact ⟨rfl, rfl, rfl, .inr ⟨datagram, rfl⟩⟩
  | datagramsFailed =>
    cases h
    exact ⟨rfl, rfl, rfl, .refl _⟩
  | _ => cases h

theorem GameStep.effect (h : GameStep before call ret after) :
  StepEffect before call ret after
  := by
  unfold GameStep at h
  cases call with
  | send maxDatagramSize delivery bytes =>
    obtain ⟨rfl, rfl⟩ := h
    exact send_effect maxDatagramSize delivery bytes
  | take accept fits =>
    obtain ⟨rfl, rfl⟩ := h
    exact take_effect accept fits
  | close =>
    cases h
    exact ⟨.same, .same, .refl _, .refl _⟩
  | nextDatagram | datagramSent ok =>
    obtain ⟨_, hstep, hret⟩ := map_eq_some_iff.mp h
    cases hret
    obtain ⟨houtgoing, hincoming, hout, hin⟩ := stepSendDatagrams_effect hstep
    exact ⟨houtgoing ▸ .same, hincoming ▸ .same, hout, hin ▸ .refl _⟩
  | nextMessage | streamOpened ok | write count | writeFailed | written =>
    simp only [perform] at h
    obtain ⟨houtgoing, hincoming, htaken, hout, hin⟩ := stepSendStream_outgoing h
    refine ⟨houtgoing, ?_, hout ▸ .refl _, hin ▸ .refl _⟩
    rw [hincoming, htaken]
    exact .same
  | datagramReceived datagram | datagramsFailed =>
    simp only [perform] at h
    obtain ⟨_, hstep, hret⟩ := map_eq_some_iff.mp h
    cases hret
    obtain ⟨houtgoing, hincoming, hout, hin⟩ := stepReceiveDatagrams_effect hstep
    exact ⟨houtgoing ▸ .same, hincoming ▸ .same, hout ▸ .refl _, hin⟩
  | streamAccepted ok | read bytes | readFailed | headerRead | bodyRead | push =>
    obtain ⟨_, hstep, hret⟩ := map_eq_some_iff.mp h
    cases hret
    obtain ⟨hincoming, houtgoing, hout, hin⟩ := stepReceiveStream_incoming hstep
    exact ⟨houtgoing ▸ .same, hincoming, hout ▸ .refl _, hin ▸ .refl _⟩

/-! ### Counts of bytes -/

/-- The size of the message that has been taken out of the queue and is still counted. -/
def SendStage.heldBytes : SendStage → ℕ
  | .idle _ => 0
  | .opening message | .writing message _ | .stopped message => message.length

/-- A message that is being read is not too large. -/
def ReceiveStage.Small : ReceiveStage → Prop
  | .body length _ => length ≤ gameStreamMessageMaxBytes
  | .waiting message => message.length ≤ gameStreamMessageMaxBytes
  | _ => True

structure Outgoing.Accounted (outgoing : Outgoing) : Prop where
  bytes_eq : outgoing.bytes = totalBytes outgoing.queue + outgoing.stage.heldBytes
  bytes_le : outgoing.bytes ≤ queuedStreamBytes

structure Incoming.Accounted (incoming : Incoming) : Prop where
  bytes_eq : incoming.bytes = totalBytes incoming.queue
  bytes_le : incoming.bytes ≤ queuedStreamBytes
  small : ∀ message ∈ incoming.queue, message.length ≤ gameStreamMessageMaxBytes
  stage : incoming.stage.Small

@[simp]
theorem totalBytes_nil : totalBytes [] = 0 := rfl

@[simp]
theorem totalBytes_cons (message : Bytes) (messages : List Bytes) :
  totalBytes (message :: messages) = message.length + totalBytes messages
  := by
  rfl

@[simp]
theorem totalBytes_append (messages messages' : List Bytes) :
  totalBytes (messages ++ messages') = totalBytes messages + totalBytes messages'
  := by
  rw [totalBytes, List.map_append, List.sum_append]
  rfl

theorem OutgoingStep.accounted {outgoing outgoing' : Outgoing} {sent : Option Bytes}
    {written : Bytes} (h : OutgoingStep outgoing sent written outgoing')
    (hcount : outgoing.Accounted) :
  outgoing'.Accounted
  := by
  obtain ⟨heq, hle⟩ := hcount
  cases h with
  | same => exact ⟨heq, hle⟩
  | queue _ hspace =>
    refine ⟨?_, hspace⟩
    simp only [totalBytes_append, totalBytes_cons, totalBytes_nil]
    omega
  | @next message queue opened hqueue hstage =>
    refine ⟨?_, hle⟩
    rw [hqueue, hstage, totalBytes_cons] at heq
    cases opened <;> simp only [SendStage.heldBytes, if_true, Bool.false_eq_true, if_false] at * <;>
      omega
  | opened hstage | openFailed hstage | write _ hstage | writeFailed hstage =>
    rw [hstage] at heq
    exact ⟨heq, hle⟩
  | written hstage =>
    rw [hstage] at heq
    simp only [SendStage.heldBytes] at heq
    refine ⟨?_, (Nat.sub_le _ _).trans hle⟩
    simp only [SendStage.heldBytes]
    omega

theorem messageLimit : gameStreamMessageMaxBytes ≤ queuedStreamBytes := by decide

theorem IncomingStep.accounted {incoming incoming' : Incoming} {taken : List Bytes}
    {read : Bytes} (h : IncomingStep incoming taken read incoming')
    (hcount : incoming.Accounted) :
  incoming'.Accounted
  := by
  obtain ⟨heq, hle, hsmall, hstage'⟩ := hcount
  cases h with
  | same => exact ⟨heq, hle, hsmall, hstage'⟩
  | @take taken left hqueue =>
    rw [hqueue, totalBytes_append] at heq
    rw [hqueue] at hsmall
    refine ⟨?_, (Nat.sub_le _ _).trans hle, ?_, hstage'⟩
    · dsimp only
      omega
    · intro message hmem
      exact hsmall message (mem_append_right _ hmem)
  | accepted | stop | readHeader => exact ⟨heq, hle, hsmall, trivial⟩
  | readBody hstage | bodyRead hstage =>
    rw [hstage] at hstage'
    exact ⟨heq, hle, hsmall, hstage'⟩
  | headerRead _ _ hsize => exact ⟨heq, hle, hsmall, hsize⟩
  | @push message hstage hspace =>
    rw [hstage] at hstage'
    have hmessage : message.length ≤ gameStreamMessageMaxBytes := hstage'
    have hlimit := messageLimit
    refine ⟨?_, ?_, ?_, trivial⟩
    · simp only [totalBytes_append, totalBytes_cons, totalBytes_nil]
      omega
    · rcases hspace with hempty | hspace
      · rw [hempty, totalBytes_nil] at heq
        dsimp only
        omega
      · exact hspace
    · exact forall_mem_append.mpr ⟨hsmall, forall_mem_singleton.mpr hmessage⟩

/-! ### Counts of packets -/

theorem DatagramsStep.length_le {queue queue' : List Bytes} (h : DatagramsStep queue queue')
    (hle : queue.length ≤ queuedDatagrams) :
  queue'.length ≤ queuedDatagrams
  := by
  rcases h with hsuffix | ⟨datagram, rfl⟩
  · exact hsuffix.length_le.trans hle
  · unfold pushDatagram
    have hpos : 0 < queuedDatagrams := by decide
    split
    · rw [length_append, length_tail, length_singleton]
      omega
    · rw [length_append, length_singleton]
      omega

/-- The number of packets in the queues. -/
def Queues.packetCount (queues : Queues) : ℕ :=
  queues.inStream.length + queues.outStream.length + queues.inDatagrams.length +
    queues.outDatagrams.length

/-- The counts of bytes are exact, and there are not too many datagrams. -/
structure GameSessionChannel.Accounted (channel : GameSessionChannel) : Prop where
  outgoing : channel.outgoing.Accounted
  incoming : channel.incoming.Accounted
  outDatagrams : channel.queues.outDatagrams.length ≤ queuedDatagrams
  inDatagrams : channel.queues.inDatagrams.length ≤ queuedDatagrams

theorem accounted_new :
  GameSessionChannel.new.Accounted
  := ⟨⟨rfl, Nat.zero_le _⟩, ⟨rfl, Nat.zero_le _, nofun, trivial⟩, Nat.zero_le _, Nat.zero_le _⟩

theorem GameStep.accounted (h : GameStep before call ret after) (hcount : before.Accounted) :
  after.Accounted
  := ⟨h.effect.outgoing.accounted hcount.outgoing, h.effect.incoming.accounted hcount.incoming,
    h.effect.outDatagrams.length_le hcount.outDatagrams,
    h.effect.inDatagrams.length_le hcount.inDatagrams⟩

/-! ### Messages that are not empty -/

/-- A message that is being read is not empty. -/
def ReceiveStage.Filled : ReceiveStage → Prop
  | .body length _ => 0 < length
  | .waiting message => message ≠ []
  | _ => True

/-- No message of the stream is empty. -/
structure GameSessionChannel.Filled (channel : GameSessionChannel) : Prop where
  outgoing : ∀ message ∈ channel.outgoing.queue, message ≠ []
  incoming : ∀ message ∈ channel.incoming.queue, message ≠ []
  stage : channel.incoming.stage.Filled

/-- A call that does not queue an empty message, nor read the length of one. -/
structure Substantial (e : Event GameSessionChannel GameCall GameReturn) : Prop where
  sent : ∀ message, sentMessage e.op e.ret = some message → message ≠ []
  received : e.after.receiveStream ≠ .body 0 []

theorem OutgoingStep.filled {outgoing outgoing' : Outgoing} {sent : Option Bytes}
    {written : Bytes} (h : OutgoingStep outgoing sent written outgoing')
    (hsent : ∀ message, sent = some message → message ≠ [])
    (hfilled : ∀ message ∈ outgoing.queue, message ≠ []) :
  ∀ message ∈ outgoing'.queue, message ≠ []
  := by
  intro message hmem
  cases h with
  | @queue message' =>
    rcases mem_append.mp hmem with hmem | hmem
    · exact hfilled message hmem
    · rw [mem_singleton.mp hmem]
      exact hsent message' rfl
  | next hqueue =>
    apply hfilled
    rw [hqueue]
    exact .tail _ hmem
  | _ => exact hfilled message hmem

theorem IncomingStep.filled {incoming incoming' : Incoming} {taken : List Bytes}
    {read : Bytes} (h : IncomingStep incoming taken read incoming')
    (hreceived : incoming'.stage ≠ .body 0 [])
    (hfilled : ∀ message ∈ incoming.queue, message ≠ []) (hstage' : incoming.stage.Filled) :
  (∀ message ∈ incoming'.queue, message ≠ []) ∧ incoming'.stage.Filled
  := by
  cases h with
  | same => exact ⟨hfilled, hstage'⟩
  | take hqueue =>
    refine ⟨fun message hmem => ?_, hstage'⟩
    apply hfilled
    rw [hqueue]
    exact mem_append_right _ hmem
  | accepted | stop | readHeader => exact ⟨hfilled, trivial⟩
  | readBody hstage =>
    rw [hstage] at hstage'
    exact ⟨hfilled, hstage'⟩
  | @headerRead got =>
    refine ⟨hfilled, Nat.pos_of_ne_zero fun hzero => hreceived ?_⟩
    rw [hzero]
  | bodyRead hstage =>
    rw [hstage] at hstage'
    exact ⟨hfilled, length_pos_iff.mp hstage'⟩
  | @push message hstage =>
    rw [hstage] at hstage'
    exact ⟨forall_mem_append.mpr ⟨hfilled, forall_mem_singleton.mpr hstage'⟩, trivial⟩

theorem length_le_totalBytes {messages : List Bytes} (h : ∀ message ∈ messages, message ≠ []) :
  messages.length ≤ totalBytes messages
  := by
  induction messages with
  | nil => exact Nat.zero_le _
  | cons message messages ih =>
    have hpos := length_pos_iff.mpr (h message (.head _))
    have hrest := ih fun m hm => h m (.tail _ hm)
    rw [length_cons, totalBytes_cons]
    omega

end

/-- As long as no stream message is empty, the number of packets in the queues is bounded. -/
theorem queues_bounded {h : List (Event GameSessionChannel GameCall GameReturn)}
    {s : GameSessionChannel} (htrace : Trace GameStep .new h s)
    (hsubstantial : ∀ e ∈ h, Substantial e) :
  s.queues.packetCount ≤ 2 * queuedStreamBytes + 2 * queuedDatagrams
  := by
  have hinvariant : s.Accounted ∧ s.Filled := by
    apply htrace.invariant_of_forall (P := fun s => s.Accounted ∧ s.Filled) hsubstantial
    · exact ⟨accounted_new, nofun, nofun, trivial⟩
    · rintro before call ret after ⟨hcount, hfilled⟩ hstep hevent
      obtain ⟨hincoming, hstage⟩ :=
        hstep.effect.incoming.filled hevent.received hfilled.incoming hfilled.stage
      exact ⟨hstep.accounted hcount,
        hstep.effect.outgoing.filled hevent.sent hfilled.outgoing, hincoming, hstage⟩
  obtain ⟨hcount, hfilled⟩ := hinvariant
  have hout := length_le_totalBytes hfilled.outgoing
  have hin := length_le_totalBytes hfilled.incoming
  have houtBytes := hcount.outgoing.bytes_eq
  have houtLe := hcount.outgoing.bytes_le
  have hinBytes := hcount.incoming.bytes_eq
  have hinLe := hcount.incoming.bytes_le
  have houtDatagrams := hcount.outDatagrams
  have hinDatagrams := hcount.inDatagrams
  simp only [GameSessionChannel.outgoing, GameSessionChannel.incoming] at *
  unfold Queues.packetCount
  omega

/-! ### Empty messages -/

namespace GameSample

/-- A channel that has received empty messages. -/
def withEmpty (count : ℕ) : GameSessionChannel :=
  { GameSessionChannel.new with
    queues := { Queues.empty with inStream := List.replicate count [] }
    receiveStream := .header [] }

theorem exists_trace_withEmpty (count : ℕ) :
  ∃ h, Trace GameStep .new h (withEmpty count)
  := by
  induction count with
  | zero =>
    have haccepted : GameStep .new (.streamAccepted true) .unit (withEmpty 0) := rfl
    exact ⟨_, Trace.nil.snoc haccepted⟩
  | succ count ih =>
    obtain ⟨h, htrace⟩ := ih
    let reading (stage : ReceiveStage) : GameSessionChannel :=
      { withEmpty count with receiveStream := stage }
    have hread : GameStep (withEmpty count) (.read [0, 0, 0, 0]) .unit
        (reading (.header [0, 0, 0, 0])) := rfl
    have hheader : GameStep (reading (.header [0, 0, 0, 0])) .headerRead .unit
        (reading (.body 0 [])) := rfl
    have hbody : GameStep (reading (.body 0 [])) .bodyRead .unit (reading (.waiting [])) := rfl
    have hpush : GameStep (reading (.waiting [])) .push .unit (withEmpty (count + 1)) := by
      simp [GameStep, perform, stepReceiveStream, reading, withEmpty, Queues.empty, replicate_succ']
    exact ⟨_, (((htrace.snoc hread).snoc hheader).snoc hbody).snoc hpush⟩

end GameSample

/-- A peer can queue any number of empty messages. -/
theorem queues_unbounded :
  ¬ ∃ bound, ∀ h s, Trace GameStep .new h s → s.queues.packetCount ≤ bound
  := by
  rintro ⟨bound, hbound⟩
  obtain ⟨h, htrace⟩ := GameSample.exists_trace_withEmpty (bound + 1)
  have hcount := hbound h _ htrace
  have hlength : (GameSample.withEmpty (bound + 1)).queues.packetCount = bound + 1 := by
    simp [GameSample.withEmpty, Queues.packetCount, Queues.empty]
  omega

theorem queues_bounded_one :
  ∃ h s, Trace GameStep .new h s ∧ s.queues.outStream = [[7]] ∧
    s.queues.packetCount ≤ 2 * queuedStreamBytes + 2 * queuedDatagrams
  := by
  let queued : GameSessionChannel := { GameSessionChannel.new with
    queues := { Queues.empty with outStream := [[7]], outStreamBytes := 1 } }
  have hsend : GameStep .new (.send none .stream [7]) (.sent (.ok ())) queued := rfl
  have htrace := Trace.nil.snoc hsend
  refine ⟨_, _, htrace, rfl, queues_bounded htrace ?_⟩
  intro e he
  obtain rfl := mem_singleton.mp he
  exact ⟨by rintro message ⟨⟩; decide, nofun⟩

end Kukuri
