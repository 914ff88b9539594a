import Kukuri.Core.AccountTransfer
import Kukuri.Data.Trace

/-!
# Transfer of a bundle

After both devices have confirmed, the device with the account opens a stream on the connection and
sends the key, the items of its pages and their number. The other device stores the items as they
come, completes the bundle if the number is right, and answers with one byte. Between the devices of
one account no key is sent.

Bytes arrive in the order in which they are written. The connection may fail wherever a device
waits, and also in the middle of a frame. The main result is `bundle_agreement`: the items of a
bundle that is completed are those of the pages, the sender succeeds only if the bundle has been
completed, and a bundle that is not completed is given up.
-/

namespace Kukuri

open Result List

def acceptedByte : UInt8 := 1
def rejectedByte : UInt8 := 0

/-! ### Sending -/

/-- Where the sender waits. -/
inductive BundleSender where
  | opening
  | key
  /-- Read the page at the position. -/
  | page (cursor : Option String) (count : ℕ)
  /-- Write the frames of a page. -/
  | frames (frames : List AccountTransferFrame) (next : Option String) (count : ℕ)
  | ending (count : ℕ)
  | ack
  | returned (result : Except AccountTransferFailure Unit)
  deriving DecidableEq

/-- What the sender has been waiting for. -/
inductive SenderInput where
  /-- The stream has been opened, or the frame has been written. -/
  | done
  /-- The source has read a page. -/
  | page (items : List AccountTransferItem) (next : Option String)
  | pageFailed
  /-- The stream of the other device has ended with these bytes. -/
  | ack (bytes : Bytes)
  /-- The connection has failed or it took too long, after some bytes of the frame. -/
  | interrupted (written : ℕ)
  deriving DecidableEq

namespace AccountTransferFrame

/-- The items of a frame. -/
def bundleItems : AccountTransferFrame → List AccountTransferItem
  | items chunk => chunk
  | _ => []

end AccountTransferFrame

namespace BundleSender

/-- The frame that is being written, and where the sender waits next. -/
def writing (stage : BundleSender) (secretHex : String) :
    Option (AccountTransferFrame × BundleSender) :=
  match stage with
  | key => some (.key secretHex, page none 0)
  | frames (frame :: rest) next count =>
    some (frame, frames rest next ((count + frame.bundleItems.length) % 2 ^ 64))
  | ending count => some (.ending count, ack)
  | _ => none

/-- The sender fails. If the other device has closed the connection because it could not store the
bundle, that is the reason. -/
def failed (closedForStorage : Bool) (reason : AccountTransferFailure) : BundleSender :=
  returned (.error (if closedForStorage then .storage else reason))

/-- The bytes that are written and where the sender waits next. -/
def step (json : FrameJson) (role : AccountTransferRole) (secretHex : String)
    (closedForStorage : Bool) (stage : BundleSender) (input : SenderInput) :
    Option (Bytes × BundleSender) :=
  match stage, input with
  | returned _, _ => none
  | opening, .done => some ([], if role = .source then key else page none 0)
  | page _ count, .page items next =>
    match AccountTransferFrame.chunks json items with
    | .ok chunks => some ([], frames chunks next count)
    | .error _ => some ([], failed closedForStorage .invalid)
  | page _ _, .pageFailed => some ([], failed closedForStorage .storage)
  | frames [] next count, .done =>
    some ([], match next with
      | some cursor => page (some cursor) count
      | none => ending count)
  | ack, .ack bytes =>
    some ([], if bytes = [acceptedByte] then returned (.ok ())
      else failed closedForStorage .interrupted)
  | _, .done =>
    match stage.writing secretHex with
    | some (frame, next) =>
      match frame.encode json with
      | .ok bytes => some (Bytes.framed bytes, next)
      | .error _ => some ([], failed closedForStorage .invalid)
    | none => none
  | _, .interrupted written =>
    match stage.writing secretHex with
    | some (frame, _) =>
      match frame.encode json with
      | .ok bytes =>
        -- Writing fails only if bytes are missing.
        if written < (Bytes.framed bytes).length then
          some ((Bytes.framed bytes).take written, failed closedForStorage .interrupted)
        else none
      | .error _ => none
    | none => some ([], failed closedForStorage .interrupted)
  | _, _ => none

end BundleSender

/-! ### Receiving -/

/-- Where the receiver waits. -/
inductive BundleReceiver where
  | opening
  | key
  | begin (secretHex : String)
  | reading (count : ℕ)
  | stage (count : ℕ)
  | commit
  | abort (reason : AccountTransferFailure)
  | ack (accountId : String)
  | returned (result : Except AccountTransferFailure String)
  deriving DecidableEq

/-- What the receiver has been waiting for. -/
inductive ReceiverInput where
  | done
  /-- A frame has arrived. -/
  | frame
  | committed (accountId : String)
  /-- The storage has failed. -/
  | failed (reason : AccountTransferFailure)
  | interrupted
  deriving DecidableEq

/-- The calls that the storage of the bundle has received. -/
structure StagingCalls where
  begun : Bool
  staged : List (List AccountTransferItem)
  commitCalled : Bool
  /-- The call has returned the account. -/
  committed : Bool
  aborted : Bool
  deriving DecidableEq

/-- Read the frame at the front, once it has arrived. -/
def readFrame (json : FrameJson) (unread : Bytes) :
    Option (Except AccountTransferFailure AccountTransferFrame × Bytes) :=
  if unread.length < 4 then none
  else
    let len := Bytes.ofBigEndian (unread.take 4)
    let body := unread.drop 4
    if maxAccountTransferFrameBytes < len then some (.error .invalid, body)
    else if body.length < len then none
    else some ((AccountTransferFrame.decode json (body.take len)).mapError fun _ => .invalid,
      body.drop len)

/-- What the receiver changes. The answer is the stream to the sender, once it has ended. -/
structure ReceiverState where
  receiver : BundleReceiver
  unread : Bytes
  staging : StagingCalls
  answer : Option Bytes

namespace ReceiverState

/-- The receiver returns a failure. The stream to the sender ends without a byte. -/
def fail (state : ReceiverState) (reason : AccountTransferFailure) : ReceiverState :=
  { state with receiver := .returned (.error reason), answer := some [] }

def step (json : FrameJson) (role : AccountTransferRole) (ownSecretHex : String)
    (state : ReceiverState) (input : ReceiverInput) : Option ReceiverState :=
  match state.receiver, input with
  | .opening, .done =>
    some { state with receiver := if role = .sync then .begin ownSecretHex else .key }
  | .opening, .interrupted => some (state.fail .interrupted)
  | .key, .frame =>
    match readFrame json state.unread with
    | some (.ok (.key secretHex), rest) =>
      some { state with receiver := .begin secretHex, unread := rest }
    | some (_, rest) => some { state.fail .invalid with unread := rest }
    | none => none
  | .key, .interrupted => some (state.fail .interrupted)
  | .begin _, .done =>
    some { state with receiver := .reading 0, staging := { state.staging with begun := true } }
  | .begin _, .failed reason => some (state.fail reason)
  | .reading count, .frame =>
    match readFrame json state.unread with
    | some (.ok (.items items), rest) =>
      some { state with
        receiver := .stage ((count + items.length) % 2 ^ 64)
        unread := rest
        staging := { state.staging with staged := state.staging.staged ++ [items] } }
    | some (.ok (.ending sent), rest) =>
      if sent = count then
        some { state with
          receiver := .commit
          unread := rest
          staging := { state.staging with commitCalled := true } }
      else some { state with receiver := .abort .invalid, unread := rest }
    | some (_, rest) => some { state with receiver := .abort .invalid, unread := rest }
    | none => none
  | .reading _, .interrupted => some { state with receiver := .abort .interrupted }
  | .stage count, .done => some { state with receiver := .reading count }
  | .stage _, .failed reason => some { state with receiver := .abort reason }
  | .commit, .committed accountId =>
    some { state with
      receiver := .ack accountId
      staging := { state.staging with committed := true } }
  | .commit, .failed reason => some { state with receiver := .abort reason }
  | .abort reason, .done =>
    some { state.fail reason with staging := { state.staging with aborted := true } }
  | .ack accountId, .done =>
    some { state with receiver := .returned (.ok accountId), answer := some [acceptedByte] }
  | .ack accountId, .interrupted =>
    some { state with receiver := .returned (.ok accountId), answer := some [] }
  | _, _ => none

end ReceiverState

/-! ### Both devices -/

/-- What the two devices start from: the roles, the key and the pages of the sender, and the key
that the receiver has already. -/
structure BundleEnds where
  json : FrameJson
  sync : Bool
  secretHex : String
  page : Option String → List AccountTransferItem × Option String
  ownSecretHex : String

structure BundleState where
  sender : BundleSender
  side : ReceiverState

inductive BundleCall where
  | send (closedForStorage : Bool) (input : SenderInput)
  | receive (input : ReceiverInput)
  deriving DecidableEq

namespace BundleState

def start : BundleState :=
  ⟨.opening, ⟨.opening, [], ⟨false, [], false, false, false⟩, none⟩⟩

/-- The pages are those of the source, and the answer is that of the receiver. -/
def honest (ends : BundleEnds) (state : BundleState) : SenderInput → Bool
  | .page items next =>
    match state.sender with
    | .page cursor _ => ends.page cursor = (items, next)
    | _ => false
  | .ack bytes => state.side.answer = some bytes
  | _ => true

/-- A step of one of the devices. -/
def perform (ends : BundleEnds) (state : BundleState) : BundleCall → Option (Unit × BundleState)
  | .send closedForStorage input =>
    if state.honest ends input then
      (state.sender.step ends.json (if ends.sync then .sync else .source) ends.secretHex
        closedForStorage input).map fun (bytes, sender) =>
          ((), ⟨sender, { state.side with unread := state.side.unread ++ bytes }⟩)
    else none
  | .receive input =>
    (state.side.step ends.json (if ends.sync then .sync else .target) ends.ownSecretHex input).map
      fun side => ((), ⟨state.sender, side⟩)

end BundleState

def BundleStep (ends : BundleEnds) (before : BundleState) (call : BundleCall) (ret : Unit)
    (after : BundleState) : Prop :=
  before.perform ends call = some (ret, after)

/-- The pages from a position on. -/
inductive PagesFrom (page : Option String → List AccountTransferItem × Option String) :
    Option String → List (List AccountTransferItem) → Prop
  | last {cursor : Option String} {items : List AccountTransferItem}
      (hpage : page cursor = (items, none)) : PagesFrom page cursor [items]
  | next {cursor : Option String} {items : List AccountTransferItem} {position : String}
      {rest : List (List AccountTransferItem)} (hpage : page cursor = (items, some position))
      (hrest : PagesFrom page (some position) rest) : PagesFrom page cursor (items :: rest)

/-! ### Frames on the stream -/

section

variable {json : FrameJson} {page : Option String → List AccountTransferItem × Option String}
  {role : AccountTransferRole} {secretHex : String} {closedForStorage : Bool} {ends : BundleEnds}
  {before after sender : BundleSender} {bundle staged : List AccountTransferItem}
  {frame : AccountTransferFrame} {queue : List AccountTransferFrame} {unread bytes : Bytes}
  {side side' : ReceiverState}

/-- A frame that is accepted is the one that the text stands for. -/
theorem read_of_decode (h : AccountTransferFrame.decode json bytes = .ok frame) :
  json.read bytes = some frame
  := by
  simp only [AccountTransferFrame.decode, bind_eq_ok, bailIf_eq_ok, exists_const,
    context_eq_ok] at h
  obtain ⟨-, frame', hread, h⟩ := h
  rw [hread]
  cases frame' with
  | items chunk | records chunk =>
    simp only [AccountTransferFrame.checkCount, bind_eq_ok] at h
    obtain ⟨-, -, h⟩ := h
    exact congrArg some (Except.ok.inj h)
  | blob hash len offset bytes =>
    simp only [bind_eq_ok] at h
    obtain ⟨-, -, h⟩ := h
    exact congrArg some (Except.ok.inj h)
  | key secretHex | ending count | history since cursor | page next posts unavailable =>
    exact congrArg some (Except.ok.inj h)

theorem readFrame_framed {message : Bytes} (h : message.length ≤ maxAccountTransferFrameBytes)
    (rest : Bytes) :
  readFrame json (Bytes.framed message ++ rest) =
    some ((AccountTransferFrame.decode json message).mapError fun _ => .invalid, rest)
  := by
  have hlength : message.length < 256 ^ 4 := lt_of_le_of_lt h (by decide)
  have htake : (Bytes.framed message ++ rest).take 4 = Bytes.bigEndian 4 message.length := by
    rw [Bytes.framed, append_assoc, take_left' (by simp)]
  have hdrop : (Bytes.framed message ++ rest).drop 4 = message ++ rest := by
    rw [Bytes.framed, append_assoc, drop_left' (by simp)]
  have hlong : ¬ (Bytes.framed message ++ rest).length < 4 := by
    simp [Bytes.framed]
  unfold readFrame
  rw [if_neg hlong, htake, hdrop, Bytes.ofBigEndian_bigEndian hlength, if_neg (not_lt.mpr h),
    if_neg (by simp), take_left, drop_left]

/-- Nothing is read while the end of a frame is missing. -/
theorem readFrame_of_isPrefix {message part : Bytes}
    (h : message.length ≤ maxAccountTransferFrameBytes) (hpart : part <+: Bytes.framed message)
    (hcut : part.length < (Bytes.framed message).length) :
  readFrame json part = none
  := by
  have hlength : message.length < 256 ^ 4 := lt_of_le_of_lt h (by decide)
  unfold readFrame
  split
  case isTrue => rfl
  case isFalse hlong =>
    have htake : part.take 4 = Bytes.bigEndian 4 message.length := by
      obtain ⟨rest, hrest⟩ := hpart
      have hfour : (part ++ rest).take 4 = part.take 4 :=
        take_append_of_le_length (by omega)
      rw [← hfour, hrest, Bytes.framed, take_left' (by simp)]
    rw [Bytes.framed, length_append, Bytes.length_bigEndian] at hcut
    rw [htake, Bytes.ofBigEndian_bigEndian hlength, if_neg (not_lt.mpr h), if_pos]
    rw [length_drop]
    omega

/-! ### What a step of the sender does -/

/-- What the sender writes, and where it waits next. -/
inductive SenderEffect (json : FrameJson) (secretHex : String) (before : BundleSender) :
    SenderInput → Bytes → BundleSender → Prop
  | opened {after : BundleSender} (hbefore : before = .opening)
      (hafter : after = .key ∨ after = .page none 0) :
      SenderEffect json secretHex before .done [] after
  | read {cursor : Option String} {count : ℕ} {items : List AccountTransferItem}
      {next : Option String} {chunks : List AccountTransferFrame}
      (hbefore : before = .page cursor count)
      (hchunks : AccountTransferFrame.chunks json items = .ok chunks) :
      SenderEffect json secretHex before (.page items next) [] (.frames chunks next count)
  | more {cursor : String} {count : ℕ} (hbefore : before = .frames [] (some cursor) count) :
      SenderEffect json secretHex before .done [] (.page (some cursor) count)
  | last {count : ℕ} (hbefore : before = .frames [] none count) :
      SenderEffect json secretHex before .done [] (.ending count)
  | write {frame : AccountTransferFrame} {after : BundleSender}
      (hwriting : before.writing secretHex = some (frame, after))
      (hsize : (json.ofFrame frame).length ≤ maxAccountTransferFrameBytes) :
      SenderEffect json secretHex before .done (Bytes.framed (json.ofFrame frame)) after
  | acknowledged (hbefore : before = .ack) :
      SenderEffect json secretHex before (.ack [acceptedByte]) [] (.returned (.ok ()))
  | failed {input : SenderInput} {reason : AccountTransferFailure}
      (hbefore : ∀ result, before ≠ .returned result) :
      SenderEffect json secretHex before input [] (.returned (.error reason))
  | cut {frame : AccountTransferFrame} {next : BundleSender} {written : ℕ}
      {reason : AccountTransferFailure} (hwriting : before.writing secretHex = some (frame, next))
      (hsize : (json.ofFrame frame).length ≤ maxAccountTransferFrameBytes)
      (hwritten : written < (Bytes.framed (json.ofFrame frame)).length) :
      SenderEffect json secretHex before (.interrupted written)
        ((Bytes.framed (json.ofFrame frame)).take written) (.returned (.error reason))

/-- What becomes of a frame that is being written. -/
theorem effect_of_write {next : BundleSender}
    (hwriting : before.writing secretHex = some (frame, next))
    (hbefore : ∀ result, before ≠ .returned result)
    (h : (match frame.encode json with
      | .ok bytes => some (Bytes.framed bytes, next)
      | .error _ => some ([], BundleSender.failed closedForStorage .invalid)) =
        some (bytes, after)) :
  SenderEffect json secretHex before .done bytes after
  := by
  split at h
  case h_2 =>
    cases h
    exact .failed hbefore
  case h_1 text hencode =>
    obtain ⟨rfl, hsize⟩ := AccountTransferFrame.encode_eq_ok.mp hencode
    cases h
    exact .write hwriting hsize

theorem effect_of_cut {next : BundleSender} {written : ℕ}
    (hwriting : before.writing secretHex = some (frame, next))
    (h : (match frame.encode json with
      | .ok bytes =>
        if written < (Bytes.framed bytes).length then
          some ((Bytes.framed bytes).take written,
            BundleSender.failed closedForStorage .interrupted)
        else none
      | .error _ => none) = some (bytes, after)) :
  SenderEffect json secretHex before (.interrupted written) bytes after
  := by
  cases hencode : frame.encode json with
  | error e =>
    rw [hencode] at h
    cases h
  | ok text =>
    rw [hencode] at h
    obtain ⟨rfl, hsize⟩ := AccountTransferFrame.encode_eq_ok.mp hencode
    dsimp only at h
    split at h
    case isTrue hwritten =>
      cases h
      exact .cut hwriting hsize hwritten
    case isFalse => cases h

theorem senderEffect_of_step {input : SenderInput}
    (h : before.step json role secretHex closedForStorage input = some (bytes, after)) :
  SenderEffect json secretHex before input bytes after
  := by
  cases before with
  | returned result => cases h
  | opening =>
    cases input with
    | done =>
      cases h
      apply SenderEffect.opened rfl
      split
      · exact .inl rfl
      · exact .inr rfl
    | interrupted written =>
      cases h
      exact .failed nofun
    | page | pageFailed | ack => cases h
  | key | ending count =>
    cases input with
    | done => exact effect_of_write rfl nofun h
    | interrupted written => exact effect_of_cut rfl h
    | page | pageFailed | ack => cases h
  | page cursor count =>
    cases input with
    | page items next =>
      simp only [BundleSender.step] at h
      split at h <;> cases h
      case h_1 chunks hchunks => exact .read rfl hchunks
      case h_2 => exact .failed nofun
    | pageFailed | interrupted =>
      cases h
      exact .failed nofun
    | done | ack => cases h
  | frames frames next count =>
    cases frames with
    | nil =>
      cases input with
      | done =>
        cases next with
        | none =>
          cases h
          exact .last rfl
        | some cursor =>
          cases h
          exact .more rfl
      | interrupted written =>
        cases h
        exact .failed nofun
      | page | pageFailed | ack => cases h
    | cons frame frames =>
      cases input with
      | done => exact effect_of_write rfl nofun h
      | interrupted written => exact effect_of_cut rfl h
      | page | pageFailed | ack => cases h
  | ack =>
    cases input with
    | ack bytes =>
      obtain ⟨rfl, rfl⟩ := h
      split
      case isTrue haccepted =>
        rw [haccepted]
        exact .acknowledged rfl
      case isFalse => exact .failed nofun
    | interrupted written =>
      cases h
      exact .failed nofun
    | done | page | pageFailed => cases h

/-! ### What is on the way -/

def AccountTransferFrame.IsEnding (frame : AccountTransferFrame) : Prop := ∃ n, frame = ending n

/-- The items that the sender has not written yet. -/
inductive Unsent (page : Option String → List AccountTransferItem × Option String) :
    BundleSender → List AccountTransferItem → Prop
  | opening {pages : List (List AccountTransferItem)} (hpages : PagesFrom page none pages) :
      Unsent page .opening pages.flatten
  | key {pages : List (List AccountTransferItem)} (hpages : PagesFrom page none pages) :
      Unsent page .key pages.flatten
  | page {cursor : Option String} {count : ℕ} {pages : List (List AccountTransferItem)}
      (hpages : PagesFrom page cursor pages) : Unsent page (.page cursor count) pages.flatten
  | last {frames : List AccountTransferFrame} {count : ℕ}
      (hframes : ∀ frame ∈ frames, ¬ frame.IsEnding) :
      Unsent page (.frames frames none count) (frames.flatMap (·.bundleItems))
  | more {frames : List AccountTransferFrame} {cursor : String} {count : ℕ}
      {pages : List (List AccountTransferItem)} (hframes : ∀ frame ∈ frames, ¬ frame.IsEnding)
      (hpages : PagesFrom page (some cursor) pages) :
      Unsent page (.frames frames (some cursor) count)
        (frames.flatMap (·.bundleItems) ++ pages.flatten)
  | ending {count : ℕ} : Unsent page (.ending count) []

/-- The frames that have been written and not read, and the start of a frame in which the sender
failed. -/
structure OnStream (json : FrameJson) (sender : BundleSender) (unread : Bytes)
    (queue : List AccountTransferFrame) (part : Bytes) : Prop where
  unread : unread = Bytes.framedAll (queue.map json.ofFrame) ++ part
  sizes : ∀ frame ∈ queue, (json.ofFrame frame).length ≤ maxAccountTransferFrameBytes
  cut : part = [] ∨ (∃ reason, sender = .returned (.error reason)) ∧
    ∃ message : Bytes, message.length ≤ maxAccountTransferFrameBytes ∧
      part <+: Bytes.framed message ∧ part.length < (Bytes.framed message).length

/-- The items that have been staged, those on the stream and those that are still to be written are
the whole bundle. -/
inductive WholeBundle (page : Option String → List AccountTransferItem × Option String)
    (bundle staged : List AccountTransferItem) (queue : List AccountTransferFrame) :
    BundleSender → Prop
  | ended {sender : BundleSender} {front rest : List AccountTransferFrame} {n : ℕ}
      (hqueue : queue = front ++ .ending n :: rest) (hfront : ∀ frame ∈ front, ¬ frame.IsEnding)
      (hitems : staged ++ front.flatMap (·.bundleItems) = bundle) :
      WholeBundle page bundle staged queue sender
  | pending {sender : BundleSender} {items : List AccountTransferItem}
      (hqueue : ∀ frame ∈ queue, ¬ frame.IsEnding) (hpending : Unsent page sender items)
      (hitems : staged ++ (queue.flatMap (·.bundleItems) ++ items) = bundle) :
      WholeBundle page bundle staged queue sender
  | failed {reason : AccountTransferFailure} (hqueue : ∀ frame ∈ queue, ¬ frame.IsEnding) :
      WholeBundle page bundle staged queue (.returned (.error reason))

def Carries (ends : BundleEnds) (bundle staged : List AccountTransferItem) (sender : BundleSender)
    (unread : Bytes) : Prop :=
  ∃ queue part, OnStream ends.json sender unread queue part ∧
    WholeBundle ends.page bundle staged queue sender

theorem not_isEnding_of_chunks {items : List AccountTransferItem}
    {frames : List AccountTransferFrame}
    (h : AccountTransferFrame.chunks json items = .ok frames) :
  (∀ frame ∈ frames, ¬ frame.IsEnding) ∧ frames.flatMap (·.bundleItems) = items
  := by
  obtain ⟨chunks, rfl, rfl, -⟩ := split_eq_ok (AccountTransferFrame.sized_items json) h
  constructor
  · rintro frame hframe ⟨n, rfl⟩
    obtain ⟨chunk, -, hchunk⟩ := mem_map.mp hframe
    cases hchunk
  · rw [flatMap_map]
    simp [AccountTransferFrame.bundleItems, flatMap_id']

section

variable (h : WholeBundle page bundle staged queue before)
include h

theorem WholeBundle.fail (reason : AccountTransferFailure) :
  WholeBundle page bundle staged queue (.returned (.error reason))
  := by
  cases h with
  | ended hqueue hfront hitems => exact .ended hqueue hfront hitems
  | pending hqueue | failed hqueue => exact .failed hqueue

theorem WholeBundle.write (hwriting : before.writing secretHex = some (frame, after)) :
  WholeBundle page bundle staged (queue ++ [frame]) after
  := by
  cases h with
  | @ended _ front rest n hqueue hfront hitems =>
    have hlonger : queue ++ [frame] = front ++ .ending n :: (rest ++ [frame]) := by
      rw [hqueue, append_assoc, cons_append]
    exact .ended hlonger hfront hitems
  | failed => cases hwriting
  | pending hqueue hpending hitems =>
    have hmore : ∀ {frame}, ¬ AccountTransferFrame.IsEnding frame →
        ∀ g ∈ queue ++ [frame], ¬ g.IsEnding := by
      intro frame hframe
      exact forall_mem_append.mpr ⟨hqueue, forall_mem_singleton.mpr hframe⟩
    cases hpending with
    | opening | page => cases hwriting
    | key hpages =>
      cases hwriting
      refine .pending (hmore (by rintro ⟨n, hn⟩; cases hn)) (.page hpages) ?_
      simpa [AccountTransferFrame.bundleItems] using hitems
    | @ending count =>
      cases hwriting
      have hlonger : queue ++ [.ending count] = queue ++ .ending count :: [] := rfl
      refine .ended hlonger hqueue ?_
      simpa using hitems
    | @last frames count hframes =>
      cases frames with
      | nil => cases hwriting
      | cons first frames =>
        cases hwriting
        refine .pending (hmore (hframes _ (.head _)))
          (.last fun g hg => hframes g (.tail _ hg)) ?_
        simpa using hitems
    | @more frames cursor count pages hframes hpages =>
      cases frames with
      | nil => cases hwriting
      | cons first frames =>
        cases hwriting
        refine .pending (hmore (hframes _ (.head _)))
          (.more (fun g hg => hframes g (.tail _ hg)) hpages) ?_
        simpa using hitems

end

/-- A sender that has not failed has written whole frames only. -/
theorem OnStream.part_eq_nil {part : Bytes} (h : OnStream json sender unread queue part)
    (hsender : ∀ result, sender ≠ .returned result) :
  part = []
  := by
  rcases h.cut with hpart | ⟨⟨reason, hreason⟩, -⟩
  · exact hpart
  · exact absurd hreason (hsender _)

/-- A step of the sender that writes nothing. -/
theorem Carries.quiet (h : Carries ends bundle staged before unread)
    (hbefore : ∀ result, before ≠ .returned result)
    (hafter : ∀ queue, WholeBundle ends.page bundle staged queue before →
      WholeBundle ends.page bundle staged queue after) :
  Carries ends bundle staged after (unread ++ [])
  := by
  obtain ⟨queue, part, hstream, hcomplete⟩ := h
  refine ⟨queue, part, ⟨?_, hstream.sizes, .inl (hstream.part_eq_nil hbefore)⟩,
    hafter queue hcomplete⟩
  rw [append_nil, hstream.unread]

/-- The sender goes on without writing, and what it has not written yet stays the same. -/
theorem Carries.advance (h : Carries ends bundle staged before unread)
    (hbefore : ∀ result, before ≠ .returned result)
    (hpending : ∀ items, Unsent ends.page before items → Unsent ends.page after items) :
  Carries ends bundle staged after (unread ++ [])
  := by
  apply h.quiet hbefore
  intro queue hcomplete
  cases hcomplete with
  | ended hqueue hfront hitems => exact .ended hqueue hfront hitems
  | pending hqueue hitems hbundle => exact .pending hqueue (hpending _ hitems) hbundle
  | failed => exact absurd rfl (hbefore _)

theorem Carries.send {input : SenderInput} (h : Carries ends bundle staged before unread)
    (heffect : SenderEffect ends.json secretHex before input bytes after)
    (hpage : ∀ items next, input = .page items next →
      ∃ cursor count, before = .page cursor count ∧ ends.page cursor = (items, next)) :
  Carries ends bundle staged after (unread ++ bytes)
  := by
  cases heffect with
  | opened hbefore hafter =>
    subst hbefore
    apply h.advance nofun
    intro items hitems
    cases hitems with
    | opening hpages =>
      rcases hafter with rfl | rfl
      · exact .key hpages
      · exact .page hpages
  | @read cursor count items next chunks hbefore hchunks =>
    obtain ⟨cursor', count', hbefore', hitems⟩ := hpage items next rfl
    rw [hbefore] at hbefore'
    cases hbefore'
    subst hbefore
    obtain ⟨hframes, hflat⟩ := not_isEnding_of_chunks hchunks
    apply h.advance nofun
    intro pending hpending
    cases hpending with
    | page hpages =>
      cases hpages with
      | last hlast =>
        rw [hitems] at hlast
        cases hlast
        rw [flatten_singleton, ← hflat]
        exact .last hframes
      | next hnext hrest =>
        rw [hitems] at hnext
        cases hnext
        rw [flatten_cons, ← hflat]
        exact .more hframes hrest
  | more hbefore =>
    subst hbefore
    apply h.advance nofun
    intro pending hpending
    cases hpending with
    | more hframes hpages =>
      exact .page hpages
  | last hbefore =>
    subst hbefore
    apply h.advance nofun
    intro pending hpending
    cases hpending with
    | last hframes =>
      exact .ending
  | @write frame after hwriting hsize =>
    have hbefore : ∀ result, before ≠ .returned result := by
      rintro result rfl
      cases hwriting
    obtain ⟨queue, part, hstream, hcomplete⟩ := h
    obtain rfl := hstream.part_eq_nil hbefore
    refine ⟨queue ++ [frame], [], ⟨?_, ?_, .inl rfl⟩, hcomplete.write hwriting⟩
    · rw [hstream.unread, map_append, map_singleton, Bytes.framedAll_append,
        Bytes.framedAll_singleton, append_nil, append_nil]
    · exact forall_mem_append.mpr ⟨hstream.sizes, forall_mem_singleton.mpr hsize⟩
  | acknowledged hbefore =>
    subst hbefore
    apply h.advance nofun
    intro pending hpending
    cases hpending
  | failed hbefore =>
    apply h.quiet hbefore
    intro queue hcomplete
    exact hcomplete.fail _
  | @cut frame next written reason hwriting hsize hwritten =>
    have hbefore : ∀ result, before ≠ .returned result := by
      rintro result rfl
      cases hwriting
    obtain ⟨queue, part, hstream, hcomplete⟩ := h
    obtain rfl := hstream.part_eq_nil hbefore
    refine ⟨queue, _, ⟨?_, hstream.sizes, .inr ⟨⟨reason, rfl⟩, _, hsize,
      take_prefix written _, ?_⟩⟩, hcomplete.fail reason⟩
    · rw [hstream.unread, append_nil]
    · rwa [length_take, Nat.min_eq_left hwritten.le]

/-- The frame that is read is the first one on the stream. -/
theorem Carries.read {result : Except AccountTransferFailure AccountTransferFrame} {rest : Bytes}
    (h : Carries ends bundle staged sender unread)
    (hread : readFrame ends.json unread = some (result, rest)) :
  (∃ reason, result = .error reason) ∨
    (∃ n, result = .ok (.ending n) ∧ staged = bundle) ∨
    ∃ frame, result = .ok frame ∧ ¬ frame.IsEnding ∧
      Carries ends bundle (staged ++ frame.bundleItems) sender rest
  := by
  obtain ⟨queue, part, hstream, hcomplete⟩ := h
  rw [hstream.unread] at hread
  cases queue with
  | nil =>
    rw [map_nil, Bytes.framedAll, flatMap_nil, nil_append] at hread
    rcases hstream.cut with rfl | ⟨-, message, hsize, hpart, hcut⟩
    · cases hread
    · rw [readFrame_of_isPrefix hsize hpart hcut] at hread
      cases hread
  | cons frame queue =>
    rw [map_cons, Bytes.framedAll, flatMap_cons, append_assoc,
      readFrame_framed (hstream.sizes frame (.head _))] at hread
    cases hread
    cases hdecode : AccountTransferFrame.decode ends.json (ends.json.ofFrame frame) with
    | error e => exact .inl ⟨_, rfl⟩
    | ok frame' =>
      have hsame := read_of_decode hdecode
      rw [ends.json.read_ofFrame] at hsame
      cases hsame
      right
      have hrest : OnStream ends.json sender
          (Bytes.framedAll (queue.map ends.json.ofFrame) ++ part) queue part :=
        ⟨rfl, fun g hg => hstream.sizes g (.tail _ hg), hstream.cut⟩
      cases hcomplete with
      | @ended _ front tail n hqueue hfront hitems =>
        cases front with
        | nil =>
          cases hqueue
          exact .inl ⟨n, rfl, by simpa using hitems⟩
        | cons first front =>
          cases hqueue
          refine .inr ⟨_, rfl, hfront _ (.head _), _, part, hrest, ?_⟩
          refine .ended rfl (fun g hg => hfront g (.tail _ hg)) ?_
          simpa using hitems
      | pending hqueue hpending hitems =>
        refine .inr ⟨frame, rfl, hqueue frame (.head _), queue, part, hrest, ?_⟩
        refine .pending (fun g hg => hqueue g (.tail _ hg)) hpending ?_
        simpa using hitems
      | failed hqueue =>
        refine .inr ⟨frame, rfl, hqueue frame (.head _), queue, part, hrest, ?_⟩
        exact .failed fun g hg => hqueue g (.tail _ hg)

/-! ### Agreement -/

/-- The receiver has not read the end of the bundle. -/
def BundleReceiver.Reads : BundleReceiver → Prop
  | opening | key | begin _ | reading _ | stage _ => True
  | _ => False

/-- The calls that the storage has received by then. -/
def BundleReceiver.Calls (calls : StagingCalls) : BundleReceiver → Prop
  | opening | key | begin _ => calls = ⟨false, [], false, false, false⟩
  | reading _ | stage _ => calls.commitCalled = false ∧ calls.committed = false ∧
      calls.aborted = false
  | commit | abort _ => calls.committed = false ∧ calls.aborted = false
  | ack _ | returned (.ok _) => calls.committed = true ∧ calls.aborted = false
  | returned (.error _) => calls.committed = false ∧ (calls.begun → calls.aborted)

/-- What holds of the receiver, while the sender waits and after it. -/
structure ReceiverAgrees (ends : BundleEnds) (bundle : List AccountTransferItem)
    (sender : BundleSender) (side : ReceiverState) : Prop where
  carries : side.receiver.Reads → Carries ends bundle side.staging.staged.flatten sender side.unread
  commit : side.staging.commitCalled → side.staging.staged.flatten = bundle
  calls : side.receiver.Calls side.staging
  answer : side.answer = some [acceptedByte] → side.staging.committed

section

variable (h : ReceiverAgrees ends bundle sender side)
include h

/-- The storage has been told to complete the bundle or has not begun, and the receiver gives up. -/
theorem ReceiverAgrees.fail (hcalls : side.staging = ⟨false, [], false, false, false⟩)
    (reason : AccountTransferFailure) (unread : Bytes) :
  ReceiverAgrees ends bundle sender { side.fail reason with unread := unread }
  := by
  refine ⟨nofun, h.commit, ?_, nofun⟩
  simp [ReceiverState.fail, BundleReceiver.Calls, hcalls]

/-- The storage has begun, and the receiver gives up. -/
theorem ReceiverAgrees.giveUp (hcommitted : side.staging.committed = false)
    (haborted : side.staging.aborted = false) (reason : AccountTransferFailure) (unread : Bytes) :
  ReceiverAgrees ends bundle sender { side with receiver := .abort reason, unread := unread }
  := ⟨nofun, h.commit, ⟨hcommitted, haborted⟩, h.answer⟩

theorem ReceiverAgrees.step {input : ReceiverInput}
    (hstep : side.step ends.json role ends.ownSecretHex input = some side') :
  ReceiverAgrees ends bundle sender side'
  := by
  obtain ⟨receiver, unread, staging, answer⟩ := side
  have hcalls := h.calls
  -- Most inputs are not expected where they come, and such a step is not made.
  cases receiver <;> cases input <;> try cases hstep
  case opening.done =>
    refine ⟨fun _ => h.carries trivial, h.commit, ?_, h.answer⟩
    split <;> exact hcalls
  case opening.interrupted | key.interrupted => exact h.fail hcalls .interrupted unread
  case key.frame =>
    simp only [ReceiverState.step] at hstep
    split at hstep <;> cases hstep
    case h_1 secretHex rest hread =>
      refine ⟨fun _ => ?_, h.commit, hcalls, h.answer⟩
      rcases (h.carries trivial).read hread with ⟨_, hno⟩ | ⟨_, hno, _⟩ | ⟨_, hkey, -, hrest⟩
      · cases hno
      · cases hno
      · cases hkey
        simpa [AccountTransferFrame.bundleItems] using hrest
    case h_2 => exact h.fail hcalls .invalid _
  case begin.done secretHex =>
    obtain rfl : staging = ⟨false, [], false, false, false⟩ := hcalls
    exact ⟨fun _ => h.carries trivial, h.commit, ⟨rfl, rfl, rfl⟩, h.answer⟩
  case begin.failed secretHex reason => exact h.fail hcalls reason unread
  case reading.frame count =>
    obtain ⟨hcommit, hcommitted, haborted⟩ := hcalls
    simp only [ReceiverState.step] at hstep
    split at hstep <;> try cases hstep
    case h_1 items rest hread =>
      refine ⟨fun _ => ?_, ?_, ⟨hcommit, hcommitted, haborted⟩, h.answer⟩
      · rcases (h.carries trivial).read hread with ⟨_, hno⟩ | ⟨_, hno, _⟩ | ⟨_, hitems, -, hrest⟩
        · cases hno
        · cases hno
        · cases hitems
          simpa [AccountTransferFrame.bundleItems] using hrest
      · intro hcalled
        exact absurd (hcommit.symm.trans hcalled) nofun
    case h_2 sent rest hread =>
      split at hstep <;> cases hstep
      case isTrue =>
        refine ⟨nofun, fun _ => ?_, ⟨hcommitted, haborted⟩, h.answer⟩
        rcases (h.carries trivial).read hread with ⟨_, hno⟩ | ⟨_, -, hall⟩ | ⟨_, hending, hnot, -⟩
        · cases hno
        · exact hall
        · cases hending
          exact absurd ⟨sent, rfl⟩ hnot
      case isFalse => exact h.giveUp hcommitted haborted .invalid rest
    case h_3 => exact h.giveUp hcommitted haborted .invalid _
  case reading.interrupted count => exact h.giveUp hcalls.2.1 hcalls.2.2 .interrupted unread
  case stage.done count => exact ⟨fun _ => h.carries trivial, h.commit, hcalls, h.answer⟩
  case stage.failed count reason => exact h.giveUp hcalls.2.1 hcalls.2.2 reason unread
  case commit.committed accountId => exact ⟨nofun, h.commit, ⟨rfl, hcalls.2⟩, fun _ => rfl⟩
  case commit.failed reason => exact h.giveUp hcalls.1 hcalls.2 reason unread
  case abort.done reason => exact ⟨nofun, h.commit, ⟨hcalls.1, fun _ => rfl⟩, nofun⟩
  case ack.done accountId => exact ⟨nofun, h.commit, hcalls, fun _ => hcalls.1⟩
  case ack.interrupted accountId => exact ⟨nofun, h.commit, hcalls, nofun⟩

end

theorem committed_of_step {input : ReceiverInput}
    (hstep : side.step json role secretHex input = some side') (h : side.staging.committed) :
  side'.staging.committed
  := by
  unfold ReceiverState.step at hstep
  split at hstep
  case h_3 | h_7 =>
    split at hstep <;> (try split at hstep) <;> first | cases hstep; exact h | cases hstep
  case h_11 =>
    cases hstep
    rfl
  all_goals first | cases hstep; exact h | cases hstep

end

/-- What holds of both devices. -/
structure BundleAgrees (ends : BundleEnds) (bundle : List AccountTransferItem)
    (state : BundleState) : Prop where
  receiver : ReceiverAgrees ends bundle state.sender state.side
  sender : state.sender = .returned (.ok ()) → state.side.staging.committed

theorem bundleAgrees_start {ends : BundleEnds} {pages : List (List AccountTransferItem)}
    (hpages : PagesFrom ends.page none pages) :
  BundleAgrees ends pages.flatten .start
  := by
  refine ⟨⟨fun _ => ?_, nofun, rfl, nofun⟩, nofun⟩
  exact ⟨[], [], ⟨rfl, by simp, .inl rfl⟩, .pending (by simp) (.opening hpages) rfl⟩

theorem BundleAgrees.step {ends : BundleEnds} {bundle : List AccountTransferItem}
    {before after : BundleState} {call : BundleCall} {ret : Unit}
    (h : BundleAgrees ends bundle before) (hstep : BundleStep ends before call ret after) :
  BundleAgrees ends bundle after
  := by
  cases call with
  | receive input =>
    simp only [BundleStep, BundleState.perform, Option.map_eq_some_iff] at hstep
    obtain ⟨side, hside, hafter⟩ := hstep
    cases hafter
    exact ⟨h.receiver.step hside, fun hsender => committed_of_step hside (h.sender hsender)⟩
  | send closedForStorage input =>
    simp only [BundleStep, BundleState.perform] at hstep
    split at hstep
    case isFalse => cases hstep
    case isTrue hhonest =>
      obtain ⟨⟨bytes, sender⟩, hsender, hafter⟩ := Option.map_eq_some_iff.mp hstep
      cases hafter
      have heffect := senderEffect_of_step hsender
      refine ⟨⟨fun hreads => ?_, h.receiver.commit, h.receiver.calls, h.receiver.answer⟩, ?_⟩
      · apply (h.receiver.carries hreads).send heffect
        rintro items next rfl
        simp only [BundleState.honest] at hhonest
        split at hhonest
        case h_1 cursor count hpage => exact ⟨cursor, count, hpage, of_decide_eq_true hhonest⟩
        case h_2 => cases hhonest
      · rintro rfl
        cases heffect with
        | opened hbefore hafter => rcases hafter with hafter | hafter <;> cases hafter
        | write hwriting =>
          exfalso
          unfold BundleSender.writing at hwriting
          split at hwriting <;> cases hwriting
        | acknowledged => exact h.receiver.answer (of_decide_eq_true hhonest)

/-- The items that are completed are those of the pages in order. The sender succeeds only if they
have been completed. Otherwise the receiver gives them up if it had begun to store them. A list of
items is divided among frames that can be sent and are accepted, unless one of the items alone is
too large for a frame. -/
theorem bundle_agreement (ends : BundleEnds) {pages : List (List AccountTransferItem)}
    (hpages : PagesFrom ends.page none pages)
    {history : List (Event BundleState BundleCall Unit)} {state : BundleState}
    (htrace : Trace (BundleStep ends) .start history state) :
  (state.side.staging.commitCalled → state.side.staging.staged.flatten = pages.flatten) ∧
  (state.sender = .returned (.ok ()) → state.side.staging.committed) ∧
  (∀ result, state.side.receiver = .returned result → state.side.staging.begun →
    (∃ accountId, result = .ok accountId) ∧ state.side.staging.committed ∧
        ¬ state.side.staging.aborted ∨
      state.side.staging.aborted ∧ ¬ state.side.staging.committed) ∧
  ∀ items,
    ((∃ e, AccountTransferFrame.chunks ends.json items = .error e) ↔
      ∃ item ∈ items,
        maxAccountTransferFrameBytes < (ends.json.ofFrame (.items [item])).length) ∧
    ∀ frames, AccountTransferFrame.chunks ends.json items = .ok frames →
      frames.flatMap (·.bundleItems) = items ∧
      ∀ frame ∈ frames, ∃ chunk bytes, frame = .items chunk ∧ 1 ≤ chunk.length ∧
        chunk.length ≤ 64 ∧ frame.encode ends.json = .ok bytes ∧ bytes.length ≤ 1024 * 1024 ∧
        AccountTransferFrame.decode ends.json bytes = .ok frame
  := by
  have h : BundleAgrees ends pages.flatten state :=
    htrace.invariant (bundleAgrees_start hpages) fun _ _ _ _ hagrees hstep => hagrees.step hstep
  refine ⟨h.receiver.commit, h.sender, ?_, fun items => ⟨?_, fun frames hframes => ⟨?_, ?_⟩⟩⟩
  · intro result hresult hbegun
    have hcalls := h.receiver.calls
    rw [hresult] at hcalls
    cases result with
    | ok accountId => exact .inl ⟨⟨accountId, rfl⟩, hcalls.1, by simp [hcalls.2]⟩
    | error reason => exact .inr ⟨hcalls.2 hbegun, by simp [hcalls.1]⟩
  · exact split_eq_error (AccountTransferFrame.sized_items ends.json) items
  · exact (not_isEnding_of_chunks hframes).2
  · intro frame hframe
    obtain ⟨chunks, rfl, -, hfits⟩ :=
      split_eq_ok (AccountTransferFrame.sized_items ends.json) hframes
    obtain ⟨chunk, hchunk, rfl⟩ := mem_map.mp hframe
    have hfit := hfits chunk hchunk
    exact ⟨chunk, _, rfl, hfit.pos, hfit.length,
      AccountTransferFrame.encode_eq_ok.mpr ⟨rfl, hfit.bytes⟩, hfit.bytes,
      AccountTransferFrame.decode_items hfit⟩

/-! ### A bundle of one item -/

namespace BundleSample

deriving instance Countable for AccountHistoryCursor

deriving instance Countable for AccountHistoryRecord

deriving instance Countable for SealedAccountSyncItem

deriving instance Countable for AccountTransferItem

deriving instance Countable for AccountTransferFrame

/-- Numbers for all values of a type. -/
noncomputable def number (T : Type) [Countable T] : T → ℕ := (exists_injective_nat T).choose

theorem number_injective (T : Type) [Countable T] :
  Function.Injective (number T)
  := (exists_injective_nat T).choose_spec

def sampleItem : AccountTransferItem := ⟨"profile", ⟨1, "", ""⟩⟩

noncomputable def itemText (item : AccountTransferItem) : Bytes :=
  if item = sampleItem then [5] else 6 :: List.replicate (number _ item) 7

noncomputable def recordText (record : AccountHistoryRecord) : Bytes :=
  6 :: List.replicate (number _ record) 7

noncomputable def frameText : AccountTransferFrame → Bytes
  | .items chunk => 1 :: Bytes.commas (chunk.map itemText)
  | .records chunk => 2 :: Bytes.commas (chunk.map recordText)
  | frame =>
    if frame = .key "" then [3] else if frame = .ending 1 then [4]
    else 5 :: List.replicate (number _ frame) 7

theorem replicate_injective :
  Function.Injective fun n => List.replicate n (7 : UInt8)
  := replicate_left_injective 7

theorem itemText_injective :
  Function.Injective itemText
  := by
  intro item item' h
  unfold itemText at h
  by_cases hitem : item = sampleItem
  · by_cases hitem' : item' = sampleItem
    · rw [hitem, hitem']
    · rw [if_pos hitem, if_neg hitem'] at h
      cases h
  · by_cases hitem' : item' = sampleItem
    · rw [if_neg hitem, if_pos hitem'] at h
      cases h
    · rw [if_neg hitem, if_neg hitem'] at h
      exact number_injective _ (replicate_injective (cons.inj h).2)

theorem recordText_injective :
  Function.Injective recordText
  := fun _ _ h => number_injective _ (replicate_injective (cons.inj h).2)

theorem itemText_spec (item : AccountTransferItem) :
  itemText item ≠ [] ∧ 44 ∉ itemText item
  := by
  unfold itemText
  split
  · decide
  · simp [mem_replicate]

theorem recordText_spec (record : AccountHistoryRecord) :
  recordText record ≠ [] ∧ 44 ∉ recordText record
  := by
  simp [recordText, mem_replicate]

/-- Lists of texts without commas are told apart. -/
theorem commas_map_injective {T : Type} {text : T → Bytes} (htext : Function.Injective text)
    (hspec : ∀ t, text t ≠ [] ∧ 44 ∉ text t) :
  Function.Injective fun chunk : List T => Bytes.commas (chunk.map text)
  := by
  intro chunk chunk' h
  apply map_injective_iff.mpr htext
  apply Bytes.commas_inj _ _ h
  · simpa using fun t _ => hspec t
  · simpa using fun t _ => hspec t

/-- The value with the text. -/
noncomputable def readText {T : Type} (text : T → Bytes) (bytes : Bytes) : Option T :=
  open Classical in if h : ∃ t, text t = bytes then some h.choose else none

theorem readText_text {T : Type} {text : T → Bytes} (htext : Function.Injective text) (t : T) :
  readText text (text t) = some t
  := Function.partialInv_left htext t

noncomputable def readFrameText (bytes : Bytes) : Option AccountTransferFrame :=
  if bytes = [1, 5] then some (.items [sampleItem])
  else if bytes = [3] then some (.key "")
  else if bytes = [4] then some (.ending 1)
  else match bytes with
    | 1 :: bytes => (readText (fun chunk => Bytes.commas (chunk.map itemText)) bytes).map .items
    | 2 :: bytes =>
      (readText (fun chunk => Bytes.commas (chunk.map recordText)) bytes).map .records
    | 5 :: bytes => readText (fun frame => List.replicate (number _ frame) 7) bytes
    | _ => none

theorem readFrameText_items (chunk : List AccountTransferItem) :
  readFrameText (frameText (.items chunk)) = some (.items chunk)
  := by
  have hinjective := commas_map_injective itemText_injective itemText_spec
  have hread := readText_text hinjective chunk
  unfold readFrameText frameText
  by_cases hsample : 1 :: Bytes.commas (chunk.map itemText) = [1, 5]
  · have hchunk : (fun chunk => Bytes.commas (chunk.map itemText)) chunk =
        (fun chunk => Bytes.commas (chunk.map itemText)) [sampleItem] := by
      simpa [Bytes.commas, itemText] using hsample
    rw [if_pos hsample, hinjective hchunk]
  · rw [if_neg hsample, if_neg (by simp), if_neg (by simp)]
    exact congrArg (Option.map AccountTransferFrame.items) hread

theorem readFrameText_records (chunk : List AccountHistoryRecord) :
  readFrameText (frameText (.records chunk)) = some (.records chunk)
  := by
  have hinjective := commas_map_injective recordText_injective recordText_spec
  have hread := readText_text hinjective chunk
  unfold readFrameText frameText
  exact congrArg (Option.map AccountTransferFrame.records) hread

theorem readFrameText_other {frame : AccountTransferFrame}
    (h : frameText frame = if frame = .key "" then [3] else if frame = .ending 1 then [4]
      else 5 :: List.replicate (number _ frame) 7) :
  readFrameText (frameText frame) = some frame
  := by
  have hinjective : Function.Injective fun frame : AccountTransferFrame =>
      replicate (number _ frame) (7 : UInt8) :=
    fun _ _ h => number_injective _ (replicate_injective h)
  have hread := readText_text hinjective frame
  rw [h]
  unfold readFrameText
  split
  case isTrue hkey => rw [if_neg (by decide), if_pos rfl, hkey]
  case isFalse =>
    split
    case isTrue hending => rw [if_neg (by decide), if_neg (by decide), if_pos rfl, hending]
    case isFalse =>
      exact hread

theorem readFrameText_frameText (frame : AccountTransferFrame) :
  readFrameText (frameText frame) = some frame
  := by
  cases frame with
  | items chunk => exact readFrameText_items chunk
  | records chunk => exact readFrameText_records chunk
  | key | ending | history | blob | page => exact readFrameText_other rfl

noncomputable def json : FrameJson where
  ofFrame := frameText
  ofItem := itemText
  ofRecord := recordText
  read := readFrameText
  read_ofFrame := readFrameText_frameText
  itemsFrame := ([1], [])
  ofFrame_items chunk := by simp [frameText]
  recordsFrame := ([2], [])
  ofFrame_records chunk := by simp [frameText]

/-- A source with one page of one item. -/
noncomputable def ends : BundleEnds := ⟨json, false, "", fun _ => ([sampleItem], none), ""⟩

/-- The bundle is sent, completed and acknowledged. -/
def calls : List BundleCall :=
  [.send false .done, .send false .done, .send false (.page [sampleItem] none),
    .send false .done, .send false .done, .send false .done,
    .receive .done, .receive .frame, .receive .done, .receive .frame, .receive .done,
    .receive .frame, .receive (.committed ""), .receive .done, .send false (.ack [acceptedByte])]

end BundleSample

open BundleSample

theorem bundle_agreement_sample :
  ∃ history state, Trace (BundleStep BundleSample.ends) .start history state ∧
    state.sender = .returned (.ok ()) ∧ state.side.staging.committed ∧
    state.side.staging.staged.flatten = [BundleSample.sampleItem]
  := by
  have hpages : PagesFrom ends.page none [[sampleItem]] := .last rfl
  have htrace : Trace (BundleStep ends) .start
      (Trace.replay (BundleState.perform ends) .start calls).1
      (Trace.replay (BundleState.perform ends) .start calls).2 :=
    Trace.of_replay (fun _ _ _ _ _ h => h) _
  have hagree := bundle_agreement ends hpages htrace
  have hsender : (Trace.replay (BundleState.perform ends) .start
      calls).2.sender = .returned (.ok ()) := by decide +kernel
  have hcommit : (Trace.replay (BundleState.perform ends) .start
      calls).2.side.staging.commitCalled := by decide +kernel
  exact ⟨_, _, htrace, hsender, hagree.2.1 hsender, hagree.1 hcommit⟩

end Kukuri
