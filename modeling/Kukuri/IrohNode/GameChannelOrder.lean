import Kukuri.IrohNode.GameChannelBounds

/-!
# Messages of a game session arrive in order

Two ends of a session are connected by two streams of bytes. The main result, `streams_faithful`,
says that what an end has taken is the beginning of what the other end has sent, that the counts
of bytes are exact and bounded, and that nothing is taken past a message that does not fit.

The proof follows the bytes. Those that an end has read, those on the way and those that are still
to be written of the current message are together the frames of the messages that the sender has
taken out of its queue. So the frames that were read to the end are the first of these.
-/

namespace Kukuri

open Bytes GameSessionChannel List Function

/-! ### Two ends -/

inductive GameSide where
  | host
  | guest
  deriving DecidableEq, Repr

def GameSide.other : GameSide → GameSide
  | .host => .guest
  | .guest => .host

theorem GameSide.other_other (side : GameSide) : side.other.other = side := by
  cases side <;> rfl

theorem GameSide.other_ne (side : GameSide) : side.other ≠ side := by
  cases side <;> nofun

theorem GameSide.eq_or_eq_other (side side' : GameSide) : side' = side ∨ side' = side.other := by
  cases side <;> cases side' <;> simp [GameSide.other]

structure GamePair where
  channels : GameSide → GameSessionChannel
  /-- The bytes that an end has written and the other one has not read. -/
  wires : GameSide → Bytes

def GamePair.new : GamePair := ⟨fun _ => .new, fun _ => []⟩

/-- A step of an end. What it writes is added to its wire, and what it reads is taken from the
other one. -/
def GamePair.perform (pair : GamePair) (call : GameSide × GameCall) :
    Option (GameReturn × GamePair) :=
  if readBytes call.2 <+: pair.wires call.1.other then
    ((pair.channels call.1).perform call.2).map fun result =>
      (result.1,
        { channels := Function.update pair.channels call.1 result.2
          wires := Function.update
            (Function.update pair.wires call.1 (pair.wires call.1 ++ writtenBytes result.1))
            call.1.other ((pair.wires call.1.other).drop (readBytes call.2).length) })
  else none

def PairStep (before : GamePair) (call : GameSide × GameCall) (ret : GameReturn)
    (after : GamePair) : Prop :=
  before.perform call = some (ret, after)

theorem PairStep.effect {before after : GamePair} {call : GameSide × GameCall}
    {ret : GameReturn} (h : PairStep before call ret after) :
  ∃ channel, GameStep (before.channels call.1) call.2 ret channel ∧
    readBytes call.2 <+: before.wires call.1.other ∧
    after.channels = Function.update before.channels call.1 channel ∧
    after.wires call.1 = before.wires call.1 ++ writtenBytes ret ∧
    after.wires call.1.other = (before.wires call.1.other).drop (readBytes call.2).length
  := by
  obtain ⟨hread, h⟩ := Option.ite_none_right_eq_some.mp h
  obtain ⟨⟨ret', channel⟩, hchannel, hafter⟩ := Option.map_eq_some_iff.mp h
  cases hafter
  refine ⟨channel, hchannel, hread, rfl, ?_, ?_⟩
  · simp only [update_of_ne call.1.other_ne.symm, update_self]
  · simp only [update_self]

abbrev GameEvent := Event GamePair (GameSide × GameCall) GameReturn

/-- The stream messages that a side has sent. -/
def sentBy (side : GameSide) (h : List GameEvent) : List Bytes :=
  h.flatMap fun e => if e.op.1 = side then (sentMessage e.op.2 e.ret).toList else []

/-- The stream messages that a side has taken. -/
def takenBy (side : GameSide) (h : List GameEvent) : List Bytes :=
  h.flatMap fun e => if e.op.1 = side then takenMessages e.ret else []

/-! ### Bytes of a direction -/

/-- What is still to be written of a message that has been taken out of the queue. -/
def SendStage.Pending : SendStage → Bytes → Prop
  | .idle _, bytes => bytes = []
  | .opening message, bytes => bytes = framed message
  | .writing _ rest, bytes => bytes = rest
  | .stopped _, _ => True

/-- What has been read of a message that is not yet in the queue. -/
def ReceiveStage.Part : ReceiveStage → Bytes → Prop
  | .accepting, bytes => bytes = []
  | .header got, bytes => bytes = got
  | .body length got, bytes => bytes = bigEndian 4 length ++ got
  | .waiting message, bytes => bytes = framed message
  | .stopped, _ => True

/-- The bytes of a direction are the frames of the messages that were sent. -/
structure Flow (sent taken : List Bytes) (outgoing : Outgoing) (wire : Bytes)
    (incoming : Incoming) : Prop where
  sent_small : ∀ message ∈ sent, message.length ≤ gameStreamMessageMaxBytes
  taken_small : ∀ message ∈ taken, message.length ≤ gameStreamMessageMaxBytes
  frames : ∃ popped part pending, sent = popped ++ outgoing.queue ∧
    incoming.stage.Part part ∧ outgoing.stage.Pending pending ∧
    framedAll (taken ++ incoming.queue) ++ part ++ wire ++ pending = framedAll popped

section

variable {sent taken : List Bytes} {outgoing outgoing' : Outgoing} {wire : Bytes}
  {incoming incoming' : Incoming}

theorem Flow.sends {message : Option Bytes} {written : Bytes}
    (hstep : OutgoingStep outgoing message written outgoing')
    (h : Flow sent taken outgoing wire incoming) :
  Flow (sent ++ message.toList) taken outgoing' (wire ++ written) incoming
  := by
  obtain ⟨hsent, htaken, popped, part, pending, hpopped, hpart, hpending, hframes⟩ := h
  cases hstep
  case queue message hsize _ =>
    rw [append_nil]
    refine ⟨?_, htaken, popped, part, pending, ?_, hpart, hpending, hframes⟩
    · intro message' hmem
      rcases mem_append.mp hmem with hmem | hmem
      · exact hsent message' hmem
      · rw [mem_singleton.mp hmem]
        exact hsize
    · rw [hpopped, append_assoc]
      rfl
  all_goals rw [Option.toList_none, append_nil]
  case write message rest count hstage =>
    rw [hstage] at hpending
    obtain rfl : pending = rest := hpending
    refine ⟨hsent, htaken, popped, part, pending.drop count, hpopped, hpart, rfl, ?_⟩
    rw [← hframes, ← append_assoc _ wire, append_assoc _ _ (pending.drop count), take_append_drop]
  all_goals rw [append_nil]
  case same => exact ⟨hsent, htaken, popped, part, pending, hpopped, hpart, hpending, hframes⟩
  case next message queue opened hqueue hstage =>
    rw [hstage] at hpending
    obtain rfl : pending = [] := hpending
    refine ⟨hsent, htaken, popped ++ [message], part, framed message, ?_, hpart, ?_, ?_⟩
    · rw [hpopped, hqueue, append_assoc]
      rfl
    · cases opened <;> rfl
    · rw [framedAll_append popped, framedAll_singleton, ← hframes, append_nil]
  case opened hstage | written hstage =>
    rw [hstage] at hpending
    exact ⟨hsent, htaken, popped, part, pending, hpopped, hpart, hpending, hframes⟩
  case openFailed | writeFailed =>
    exact ⟨hsent, htaken, popped, part, pending, hpopped, hpart, trivial, hframes⟩

theorem Flow.receives {messages : List Bytes} {read : Bytes}
    (hstep : IncomingStep incoming messages read incoming') (hcount : incoming.Accounted)
    (hread : read <+: wire) (h : Flow sent taken outgoing wire incoming) :
  Flow sent (taken ++ messages) outgoing (wire.drop read.length) incoming'
  := by
  obtain ⟨hsent, htaken, popped, part, pending, hpopped, hpart, hpending, hframes⟩ := h
  cases hstep
  case take left hqueue =>
    refine ⟨hsent, ?_, popped, part, pending, hpopped, hpart, hpending, ?_⟩
    · intro message hmem
      rcases mem_append.mp hmem with hmem | hmem
      · exact htaken message hmem
      · apply hcount.small
        rw [hqueue]
        exact mem_append_left _ hmem
    · rw [hqueue, ← append_assoc] at hframes
      exact hframes
  all_goals rw [append_nil]
  case same => exact ⟨hsent, htaken, popped, part, pending, hpopped, hpart, hpending, hframes⟩
  case accepted hstage | bodyRead hstage =>
    rw [hstage] at hpart
    exact ⟨hsent, htaken, popped, part, pending, hpopped, hpart, hpending, hframes⟩
  case stop => exact ⟨hsent, htaken, popped, part, pending, hpopped, trivial, hpending, hframes⟩
  case readHeader got hstage =>
    rw [hstage] at hpart
    obtain rfl : part = got := hpart
    obtain ⟨rest, rfl⟩ := hread
    refine ⟨hsent, htaken, popped, part ++ read, pending, hpopped, rfl, hpending, ?_⟩
    rw [drop_left, ← hframes]
    simp only [append_assoc]
  case readBody length got hstage =>
    rw [hstage] at hpart
    obtain rfl : part = bigEndian 4 length ++ got := hpart
    obtain ⟨rest, rfl⟩ := hread
    refine ⟨hsent, htaken, popped, bigEndian 4 length ++ (got ++ read), pending, hpopped, rfl,
      hpending, ?_⟩
    rw [drop_left, ← hframes]
    simp only [append_assoc]
  case headerRead got hstage hlength _ =>
    rw [hstage] at hpart
    obtain rfl : part = got := hpart
    refine ⟨hsent, htaken, popped, part, pending, hpopped, ?_, hpending, hframes⟩
    have hheader := bigEndian_ofBigEndian part
    rw [hlength] at hheader
    exact hheader.symm.trans (append_nil _).symm
  case push message hstage _ =>
    rw [hstage] at hpart
    obtain rfl : part = framed message := hpart
    refine ⟨hsent, htaken, popped, [], pending, hpopped, rfl, hpending, ?_⟩
    rw [← append_assoc, framedAll_append, framedAll_singleton, append_nil]
    exact hframes

/-- What has been taken is the beginning of what was sent. -/
theorem Flow.isPrefix (hcount : incoming.Accounted)
    (h : Flow sent taken outgoing wire incoming) :
  taken <+: sent
  := by
  obtain ⟨hsent, htaken, popped, part, pending, hpopped, _, _, hframes⟩ := h
  have hlimit : gameStreamMessageMaxBytes < 256 ^ 4 := by decide
  have hreceived : taken ++ incoming.queue <+: popped := by
    apply isPrefix_of_framedAll
    · intro message hmem
      apply lt_of_le_of_lt _ hlimit
      rcases mem_append.mp hmem with hmem | hmem
      · exact htaken message hmem
      · exact hcount.small message hmem
    · intro message hmem
      apply lt_of_le_of_lt _ hlimit
      apply hsent
      rw [hpopped]
      exact mem_append_left _ hmem
    · refine ⟨part ++ wire ++ pending, ?_⟩
      rw [← hframes]
      simp only [append_assoc]
  rw [hpopped]
  exact (prefix_append _ _).trans (hreceived.trans (prefix_append _ _))

end

/-! ### Runs -/

/-- What holds of two ends after a history. -/
structure PairInvariant (h : List GameEvent) (s : GamePair) : Prop where
  accounted : ∀ side, (s.channels side).Accounted
  flow : ∀ side, Flow (sentBy side h) (takenBy side.other h) (s.channels side).outgoing
    (s.wires side) (s.channels side.other).incoming

theorem pairInvariant_new :
  PairInvariant [] .new
  := by
  refine ⟨fun _ => accounted_new, fun side => ⟨nofun, nofun, [], [], [], rfl, rfl, rfl, rfl⟩⟩

theorem sentBy_snoc (side : GameSide) (h : List GameEvent) (e : GameEvent) :
  sentBy side (h ++ [e]) =
    sentBy side h ++ if e.op.1 = side then (sentMessage e.op.2 e.ret).toList else []
  := by
  rw [sentBy, flatMap_append, flatMap_singleton]
  rfl

theorem takenBy_snoc (side : GameSide) (h : List GameEvent) (e : GameEvent) :
  takenBy side (h ++ [e]) = takenBy side h ++ if e.op.1 = side then takenMessages e.ret else []
  := by
  rw [takenBy, flatMap_append, flatMap_singleton]
  rfl

theorem PairInvariant.step {h : List GameEvent} {before after : GamePair}
    {call : GameSide × GameCall} {ret : GameReturn} (hinv : PairInvariant h before)
    (hstep : PairStep before call ret after) :
  PairInvariant (h ++ [⟨before, call, ret, after⟩]) after
  := by
  obtain ⟨actor, op⟩ := call
  obtain ⟨channel, hchannel, hread, hchannels, hwire, hother⟩ := hstep.effect
  have heffect := hchannel.effect
  constructor
  · intro side
    rw [hchannels]
    by_cases hside : side = actor
    · subst hside
      rw [update_self]
      exact hchannel.accounted (hinv.accounted side)
    · rw [update_of_ne hside]
      exact hinv.accounted side
  · intro side
    rw [sentBy_snoc, takenBy_snoc, hchannels]
    rcases actor.eq_or_eq_other side with rfl | rfl
    · -- The actor is the sender.
      have hne := side.other_ne
      rw [if_pos rfl, if_neg hne.symm, append_nil, update_self, update_of_ne hne, hwire]
      exact (hinv.flow side).sends heffect.outgoing
    · -- The actor is the receiver.
      have hne := actor.other_ne
      have hflow := hinv.flow actor.other
      rw [GameSide.other_other] at hflow ⊢
      rw [if_neg hne.symm, if_pos rfl, append_nil, update_self, update_of_ne hne, hother]
      exact hflow.receives heffect.incoming (hinv.accounted actor).incoming hread

/-- A call of `take` takes from the front of the queue as long as the messages fit. -/
theorem PairStep.takesInOrder {before after : GamePair} {side : GameSide} {fits : Fits}
    {ret : GameReturn} (hstep : PairStep before (side, .take true fits) ret after) :
  TakesInOrder fits [] (before.channels side).queues.inStream (takenMessages ret)
    (after.channels side).queues.inStream
  := by
  obtain ⟨channel, hchannel, _, hchannels, _⟩ := hstep.effect
  obtain ⟨taken, left, _, htaken, hincoming, horder⟩ :=
    take_incoming (before.channels side) true fits
  obtain ⟨rfl, rfl⟩ := hchannel
  have hleft : ((before.channels side).take true fits).2.queues.inStream = left :=
    congrArg Incoming.queue hincoming
  rw [hchannels, update_self, takenMessages, htaken, hleft]
  exact horder rfl

/-- Along every run of two ends, what one has taken is the beginning of what the other one has
sent. The counts of bytes are exact and bounded, and messages are taken in order. -/
theorem streams_faithful {h : List GameEvent} {s : GamePair} (htrace : Trace PairStep .new h s)
    (side : GameSide) :
  takenBy side.other h <+: sentBy side h ∧
  (s.channels side).queues.outStreamBytes =
    totalBytes (s.channels side).queues.outStream + (s.channels side).sendStream.heldBytes ∧
  (s.channels side).queues.inStreamBytes = totalBytes (s.channels side).queues.inStream ∧
  (s.channels side).queues.outStreamBytes ≤ queuedStreamBytes ∧
  (s.channels side).queues.inStreamBytes ≤ queuedStreamBytes ∧
  ∀ e ∈ h, ∀ fits, e.op = (side, .take true fits) →
    TakesInOrder fits [] (e.before.channels side).queues.inStream (takenMessages e.ret)
      (e.after.channels side).queues.inStream
  := by
  have hinv : PairInvariant h s := by
    apply htrace.history_invariant pairInvariant_new
    intro h s op ret s' _ hinv hstep
    exact hinv.step hstep
  have hcount := hinv.accounted side
  refine ⟨(hinv.flow side).isPrefix (hinv.accounted side.other).incoming,
    hcount.outgoing.bytes_eq, hcount.incoming.bytes_eq, hcount.outgoing.bytes_le,
    hcount.incoming.bytes_le, ?_⟩
  intro e he fits hop
  obtain ⟨h₁, h₂, rfl⟩ := append_of_mem he
  obtain ⟨_, hstep, _⟩ := htrace.split_event
  rw [hop] at hstep
  exact hstep.takesInOrder

namespace GameSample

/-- The host sends a message of one byte, and the guest takes it. -/
def delivery : List (GameSide × GameCall) :=
  [(.host, .send none .stream [7]), (.host, .nextMessage), (.host, .streamOpened true),
    (.host, .write 3), (.guest, .streamAccepted true), (.guest, .read [0, 0]), (.host, .write 2),
    (.host, .written), (.guest, .read [0, 1]), (.guest, .headerRead), (.guest, .read [7]),
    (.guest, .bodyRead), (.guest, .push), (.guest, .take true fun _ _ => true)]

end GameSample

theorem streams_faithful_delivery :
  takenBy .guest (Trace.replay GamePair.perform .new GameSample.delivery).1 = [[7]] ∧
  takenBy .guest (Trace.replay GamePair.perform .new GameSample.delivery).1 <+:
    sentBy .host (Trace.replay GamePair.perform .new GameSample.delivery).1
  := by
  have htrace : Trace PairStep .new (Trace.replay GamePair.perform .new GameSample.delivery).1
      (Trace.replay GamePair.perform .new GameSample.delivery).2 :=
    Trace.of_replay (fun _ _ _ _ _ h => h) GamePair.new
  exact ⟨by decide, (streams_faithful htrace .host).1⟩

end Kukuri
