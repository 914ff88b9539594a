import Kukuri.Data.Bytes
import Kukuri.Data.Machine

/-!
# Invites and frames of a transfer

An account is moved to another device over a connection that both devices confirm. The device with
the account issues an invite with a secret. The other one proves that it has the invite by a hash
that is keyed with the secret and bound to both devices. Both devices show a code that is derived
from the secret and the devices as well.

The account is sent in frames, which are texts of JSON of a bounded size. `split_eq_ok` and
`split_eq_error` say how a list of items is divided among frames, and when it is not.
-/

namespace Kukuri

open Result List

/-! ### Invites -/

def accountTransferInviteTtlMs : ℤ := 5 * 60 * 1000
def maxAccountTransferDirectAddrs : ℕ := 4
def maxRelayUrlBytes : ℕ := 256
def helloDomain : Bytes := "kukuri account transfer hello v1\x00".toUTF8.toList
def codeContext : String := "kukuri.app 2026-10-02 account transfer code v1"

/-- The hash function: with a key, and for the derivation of a key. -/
structure Blake3 where
  keyed (key message : Bytes) : Bytes
  deriveKey (context : String) (material : Bytes) : Bytes

structure AccountTransferInvite where
  issuer : String
  relayUrl : Option String
  directAddrs : List String
  secret : Bytes
  expiresAtMs : ℤ
  deriving DecidableEq, Repr

namespace AccountTransferInvite

def isAsciiHexdigit (byte : UInt8) : Bool :=
  48 ≤ byte && byte ≤ 57 || 65 ≤ byte && byte ≤ 70 || 97 ≤ byte && byte ≤ 102

def validate (invite : AccountTransferInvite) : Result Unit := do
  bailIf (¬ (invite.issuer.utf8ByteSize = 64 ∧ invite.issuer.toUTF8.toList.all isAsciiHexdigit))
    "invalid account transfer issuer"
  bailIf (invite.relayUrl.any fun url => decide (maxRelayUrlBytes < url.utf8ByteSize))
    "account transfer relay url is too long"
  bailIf (maxAccountTransferDirectAddrs < invite.directAddrs.length)
    "too many account transfer addresses"

/-- An invite with a new secret. -/
def issue (issuer : String) (relayUrl : Option String) (directAddrs : List String)
    (secret : Bytes) (nowMs : ℤ) : Result AccountTransferInvite := do
  let invite : AccountTransferInvite :=
    ⟨issuer, relayUrl, directAddrs.take maxAccountTransferDirectAddrs, secret,
      nowMs + accountTransferInviteTtlMs⟩
  invite.validate
  .ok invite

variable (blake3 : Blake3) (invite : AccountTransferInvite) (target : Bytes)

/-- The proof that the device `target` sends. -/
def helloProof : Bytes :=
  blake3.keyed invite.secret (helloDomain ++ invite.issuer.toUTF8.toList ++ target)

def verifyHello (proof : Bytes) : Bool := invite.helloProof blake3 target = proof

/-- The six digits that both devices show. -/
def verificationCode : String :=
  let key := blake3.deriveKey codeContext (invite.secret ++ invite.issuer.toUTF8.toList ++ target)
  let value := Bytes.ofLittleEndian (key.take 4) % 1000000
  String.ofList ((Nat.toDigits 10 value).leftpad 6 '0')

end AccountTransferInvite

/-! ### The state of a transfer -/

inductive AccountTransferRole where
  | source
  | target
  | sync
  deriving DecidableEq, Repr

inductive AccountTransferFailure where
  | expired
  | invalid
  | unreachable
  | rejected
  | cancelled
  | interrupted
  | storage
  deriving DecidableEq, Repr

structure AccountTransferHistoryResult where
  posts : ℕ
  unavailable : ℕ
  stopped : Option AccountTransferFailure
  deriving DecidableEq, Repr

/-- The range of the history that is moved. -/
inductive AccountTransferHistory where
  | month
  | year
  | all
  deriving DecidableEq, Repr

def AccountTransferHistory.days : AccountTransferHistory → Option ℤ
  | month => some 30
  | year => some 365
  | all => none

inductive AccountTransferStatus where
  | waiting (expiresAtMs : ℤ)
  | connecting
  | confirming (role : AccountTransferRole) (code : String) (localAccepted : Bool)
  | transferring (role : AccountTransferRole) (items : ℕ)
  | history (role : AccountTransferRole) (accountId : Option String) (posts unavailable : ℕ)
  | completed (role : AccountTransferRole) (accountId : Option String)
      (history : Option AccountTransferHistoryResult)
  | failed (role : AccountTransferRole) (reason : AccountTransferFailure)
  deriving DecidableEq, Repr

def AccountTransferStatus.isTerminal : AccountTransferStatus → Bool
  | completed .. | failed .. => true
  | _ => false

/-! ### Frames -/

def maxAccountTransferChunkItems : ℕ := 64
def maxAccountTransferFrameBytes : ℕ := 1024 * 1024
def maxAccountHistoryBlobPartBytes : ℕ := 512 * 1024

/-- A position among the protected records. -/
@[ext]
structure AccountHistoryCursor where
  reference : String
  replica : String
  key : String
  author : String
  deriving DecidableEq, Repr

/-- A record of the history. -/
structure AccountHistoryRecord where
  replica : String
  key : String
  docsAuthor : String
  value : List UInt8
  deriving DecidableEq, Repr

structure SealedAccountSyncItem where
  v : ℕ
  nonceHex : String
  ciphertextHex : String
  deriving DecidableEq, Repr

structure AccountTransferItem where
  key : String
  sealed : SealedAccountSyncItem
  deriving DecidableEq, Repr

inductive AccountTransferFrame where
  | key (secret : String)
  | items (items : List AccountTransferItem)
  /-- The number of all items. -/
  | ending (count : ℕ)
  | history (since : Option ℕ) (cursor : Option AccountHistoryCursor)
  | records (records : List AccountHistoryRecord)
  | blob (hash : String) (len offset : ℕ) (bytes : Bytes)
  | page (next : Option AccountHistoryCursor) (posts unavailable : ℕ)
  deriving DecidableEq, Repr

/-- The JSON texts of frames, items and records. An array is its elements with single commas between
them, and a text that has been written is read back. -/
structure FrameJson where
  ofFrame : AccountTransferFrame → Bytes
  ofItem : AccountTransferItem → Bytes
  ofRecord : AccountHistoryRecord → Bytes
  read : Bytes → Option AccountTransferFrame
  read_ofFrame : ∀ frame, read (ofFrame frame) = some frame
  itemsFrame : Bytes × Bytes
  ofFrame_items : ∀ items, ofFrame (.items items) =
    itemsFrame.1 ++ Bytes.commas (items.map ofItem) ++ itemsFrame.2
  recordsFrame : Bytes × Bytes
  ofFrame_records : ∀ records, ofFrame (.records records) =
    recordsFrame.1 ++ Bytes.commas (records.map ofRecord) ++ recordsFrame.2

namespace AccountTransferFrame

variable (json : FrameJson)

def encode (frame : AccountTransferFrame) : Result Bytes := do
  let bytes := json.ofFrame frame
  bailIf (maxAccountTransferFrameBytes < bytes.length) "account transfer frame is too large"
  .ok bytes

/-- The number of elements is within the bounds of a chunk. -/
def checkCount (frame : AccountTransferFrame) (count : ℕ) : Result AccountTransferFrame := do
  bailIf (¬ (1 ≤ count ∧ count ≤ maxAccountTransferChunkItems))
    "account transfer chunk must contain 1..=64 items"
  .ok frame

def decode (bytes : Bytes) : Result AccountTransferFrame := do
  bailIf (maxAccountTransferFrameBytes < bytes.length) "account transfer frame is too large"
  let frame ← context (json.read bytes) "invalid account transfer frame"
  match frame with
  | .items chunk => frame.checkCount chunk.length
  | .records chunk => frame.checkCount chunk.length
  | .blob _ len offset bytes => do
    bailIf (¬ (1 ≤ bytes.length ∧ bytes.length ≤ maxAccountHistoryBlobPartBytes ∧
        offset + bytes.length ≤ U64.greatest ∧ offset + bytes.length ≤ len))
      "account history blob part is out of range"
    .ok frame
  | _ => .ok frame

end AccountTransferFrame

/-! ### Division into frames -/

section

variable {T : Type}

/-- The frames that are complete, the elements of the next one, and the size of that one. -/
structure Split (T : Type) where
  frames : List AccountTransferFrame
  chunk : List T
  bytes : ℕ

/-- Start another frame if the element does not fit. -/
def Split.flush (state : Split T) (wrap : List T → AccountTransferFrame) (empty size : ℕ) :
    Split T :=
  if state.chunk ≠ [] ∧ (state.chunk.length = maxAccountTransferChunkItems ∨
      maxAccountTransferFrameBytes < state.bytes + 1 + size) then
    ⟨state.frames ++ [wrap state.chunk], [], empty⟩
  else state

def Split.push (wrap : List T → AccountTransferFrame) (write : T → Bytes) (empty : ℕ)
    (state : Split T) (item : T) : Result (Split T) := do
  let size := (write item).length
  let state := state.flush wrap empty size
  -- From the second element on there is a comma.
  let bytes := state.bytes + (if state.chunk = [] then 0 else 1) + size
  bailIf (maxAccountTransferFrameBytes < bytes) "account transfer item is too large"
  .ok ⟨state.frames, state.chunk ++ [item], bytes⟩

def Split.finish (state : Split T) (wrap : List T → AccountTransferFrame) :
    List AccountTransferFrame :=
  if state.chunk = [] then state.frames else state.frames ++ [wrap state.chunk]

def split (json : FrameJson) (wrap : List T → AccountTransferFrame) (write : T → Bytes)
    (items : List T) : Result (List AccountTransferFrame) := do
  let empty := (json.ofFrame (wrap [])).length
  let state ← items.foldlM (Split.push wrap write empty) ⟨[], [], empty⟩
  .ok (state.finish wrap)

end

namespace AccountTransferFrame

def chunks (json : FrameJson) (items : List AccountTransferItem) :
    Result (List AccountTransferFrame) :=
  split json .items json.ofItem items

def recordChunks (json : FrameJson) (records : List AccountHistoryRecord) :
    Result (List AccountTransferFrame) :=
  split json .records json.ofRecord records

end AccountTransferFrame

/-! ### The frames of a list -/

section

variable {T : Type} {json : FrameJson} {wrap : List T → AccountTransferFrame}
  {write : T → Bytes}

/-- The sizes of the frames that are made of elements. -/
structure Sized (json : FrameJson) (wrap : List T → AccountTransferFrame) (write : T → Bytes) :
    Prop where
  single : ∀ item, (json.ofFrame (wrap [item])).length =
    (json.ofFrame (wrap [])).length + (write item).length
  more : ∀ chunk item, chunk ≠ [] → (json.ofFrame (wrap (chunk ++ [item]))).length =
    (json.ofFrame (wrap chunk)).length + 1 + (write item).length

theorem sized_of_commas {frame : Bytes × Bytes} (h : ∀ items, json.ofFrame (wrap items) =
    frame.1 ++ Bytes.commas (items.map write) ++ frame.2) :
  Sized json wrap write
  := by
  constructor
  · intro item
    rw [h, h]
    simp [Bytes.commas]
    omega
  · intro chunk item hchunk
    have hmap : chunk.map write ≠ [] := by simpa using hchunk
    rw [h, h, map_append, map_singleton, Bytes.commas_append_singleton hmap]
    simp
    omega

/-- A frame of these elements can be sent. -/
structure ChunkFits (json : FrameJson) (wrap : List T → AccountTransferFrame) (chunk : List T) :
    Prop where
  pos : 1 ≤ chunk.length
  length : chunk.length ≤ maxAccountTransferChunkItems
  bytes : (json.ofFrame (wrap chunk)).length ≤ maxAccountTransferFrameBytes

/-- The state of the division after some elements. -/
structure Divides (json : FrameJson) (wrap : List T → AccountTransferFrame) (done : List T)
    (state : Split T) (chunks : List (List T)) : Prop where
  frames : state.frames = chunks.map wrap
  flatten : chunks.flatten ++ state.chunk = done
  fits : ∀ chunk ∈ chunks, ChunkFits json wrap chunk
  last : state.chunk ≠ [] → ChunkFits json wrap state.chunk
  bytes : state.bytes = (json.ofFrame (wrap state.chunk)).length

theorem Divides.flush {done : List T} {state : Split T} {chunks : List (List T)}
    (h : Divides json wrap done state chunks) (size : ℕ) :
  (∃ chunks, Divides json wrap done
      (state.flush wrap (json.ofFrame (wrap [])).length size) chunks) ∧
    ((state.flush wrap (json.ofFrame (wrap [])).length size).chunk ≠ [] →
      (state.flush wrap (json.ofFrame (wrap [])).length size).chunk.length <
          maxAccountTransferChunkItems ∧
        (state.flush wrap (json.ofFrame (wrap [])).length size).bytes + 1 + size ≤
          maxAccountTransferFrameBytes)
  := by
  unfold Split.flush
  split
  case isTrue hfull =>
    refine ⟨⟨chunks ++ [state.chunk], ?_⟩, by simp⟩
    constructor
    · simp [h.frames]
    · simpa using h.flatten
    · exact forall_mem_append.mpr ⟨h.fits, forall_mem_singleton.mpr (h.last hfull.1)⟩
    · simp
    · rfl
  case isFalse hroom =>
    refine ⟨⟨chunks, h⟩, fun hchunk => ?_⟩
    have hlength := (h.last hchunk).length
    simp only [hchunk, ne_eq, not_false_eq_true, true_and, not_or, not_lt] at hroom
    omega

section

variable (hsized : Sized json wrap write)
include hsized

/-- The size of the frame with one more element. -/
theorem Sized.append (chunk : List T) (item : T) :
  (json.ofFrame (wrap (chunk ++ [item]))).length =
    (json.ofFrame (wrap chunk)).length + (if chunk = [] then 0 else 1) + (write item).length
  := by
  by_cases hchunk : chunk = []
  · subst hchunk
    simpa using hsized.single item
  · rw [if_neg hchunk]
    exact hsized.more chunk item hchunk

theorem Divides.push {done : List T} {state state' : Split T} {chunks : List (List T)} {item : T}
    (h : Divides json wrap done state chunks)
    (hpush : Split.push wrap write (json.ofFrame (wrap [])).length state item = .ok state') :
  ∃ chunks, Divides json wrap (done ++ [item]) state' chunks
  := by
  obtain ⟨⟨chunks', hflush⟩, hroom⟩ := h.flush (write item).length
  simp only [Split.push, bind_eq_ok, bailIf_eq_ok, exists_const, not_lt, Except.ok.injEq] at hpush
  obtain ⟨hsmall, rfl⟩ := hpush
  rw [hflush.bytes, ← hsized.append] at hsmall
  refine ⟨chunks', hflush.frames, ?_, hflush.fits, ?_, ?_⟩
  · rw [← append_assoc, hflush.flatten]
  · intro _
    refine ⟨by simp, ?_, hsmall⟩
    rw [length_append, length_singleton]
    by_cases hchunk :
        (state.flush wrap (json.ofFrame (wrap [])).length (write item).length).chunk = []
    · rw [hchunk, length_nil]
      decide
    · exact (hroom hchunk).1
  · rw [hflush.bytes, hsized.append]

/-- An element is refused because a frame of it alone is too large. -/
theorem Divides.push_eq_error {done : List T} {state : Split T} {chunks : List (List T)}
    {item : T} {e : Failure} (h : Divides json wrap done state chunks)
    (hpush : Split.push wrap write (json.ofFrame (wrap [])).length state item = .error e) :
  maxAccountTransferFrameBytes < (json.ofFrame (wrap [item])).length
  := by
  obtain ⟨⟨chunks', hflush⟩, hroom⟩ := h.flush (write item).length
  simp only [Split.push, bind_eq_error, bailIf_eq_error, reduceCtorEq, and_false, exists_false,
    or_false] at hpush
  have hlarge := hpush.1
  by_cases hchunk :
      (state.flush wrap (json.ofFrame (wrap [])).length (write item).length).chunk = []
  · rw [hflush.bytes, hchunk, if_pos rfl, Nat.add_zero, ← hsized.single] at hlarge
    exact hlarge
  · rw [if_neg hchunk] at hlarge
    exact absurd hlarge (not_lt.mpr (hroom hchunk).2)

theorem Sized.empty_le (chunk : List T) :
  (json.ofFrame (wrap [])).length ≤ (json.ofFrame (wrap chunk)).length
  := by
  induction chunk using reverseRecOn with
  | nil => rfl
  | append_singleton chunk last ih =>
    rw [hsized.append]
    omega

/-- The frame of one element is no larger than a frame with it. -/
theorem Sized.single_le {chunk : List T} {item : T} (hitem : item ∈ chunk) :
  (json.ofFrame (wrap [item])).length ≤ (json.ofFrame (wrap chunk)).length
  := by
  induction chunk using reverseRecOn with
  | nil => cases hitem
  | append_singleton chunk last ih =>
    have hempty := hsized.empty_le chunk
    rw [hsized.append]
    rcases mem_append.mp hitem with hitem | hitem
    · have hchunk := ih hitem
      omega
    · rw [mem_singleton.mp hitem, hsized.single]
      omega

theorem divides_of_foldlM {items : List T} {state : Split T}
    (h : items.foldlM (Split.push wrap write (json.ofFrame (wrap [])).length)
      ⟨[], [], (json.ofFrame (wrap [])).length⟩ = .ok state) :
  ∃ chunks, Divides json wrap items state chunks
  := by
  apply foldlM_invariant (P := fun done state => ∃ chunks, Divides json wrap done state chunks) h
  · exact ⟨[], rfl, rfl, by simp, by simp, rfl⟩
  · rintro done item state state' - ⟨chunks, hdivides⟩ hpush
    exact hdivides.push hsized hpush

/-- What the division returns. -/
theorem split_eq_ok {items : List T} {frames : List AccountTransferFrame}
    (h : split json wrap write items = .ok frames) :
  ∃ chunks : List (List T), frames = chunks.map wrap ∧ chunks.flatten = items ∧
    ∀ chunk ∈ chunks, ChunkFits json wrap chunk
  := by
  obtain ⟨state, hstate, hfinish⟩ := bind_eq_ok.mp h
  cases hfinish
  obtain ⟨chunks, hdivides⟩ := divides_of_foldlM hsized hstate
  unfold Split.finish
  split
  case isTrue hlast =>
    refine ⟨chunks, hdivides.frames, ?_, hdivides.fits⟩
    have hflatten := hdivides.flatten
    rwa [hlast, append_nil] at hflatten
  case isFalse hlast =>
    refine ⟨chunks ++ [state.chunk], ?_, ?_, ?_⟩
    · rw [map_append, map_singleton, hdivides.frames]
    · rw [flatten_append, flatten_singleton, hdivides.flatten]
    · exact forall_mem_append.mpr
        ⟨hdivides.fits, forall_mem_singleton.mpr (hdivides.last hlast)⟩

/-- The division fails exactly if some element does not fit into a frame of its own. -/
theorem split_eq_error (items : List T) :
  (∃ e, split json wrap write items = .error e) ↔
    ∃ item ∈ items, maxAccountTransferFrameBytes < (json.ofFrame (wrap [item])).length
  := by
  constructor
  · rintro ⟨e, h⟩
    simp only [split, bind_eq_error, reduceCtorEq, and_false, exists_false, or_false] at h
    obtain ⟨done, item, rest, state, rfl, hdone, hpush⟩ := foldlM_eq_error h
    obtain ⟨chunks, hdivides⟩ := divides_of_foldlM hsized hdone
    exact ⟨item, by simp, hdivides.push_eq_error hsized hpush⟩
  · rintro ⟨item, hitem, hlarge⟩
    cases hsplit : split json wrap write items with
    | error e => exact ⟨e, rfl⟩
    | ok frames =>
      obtain ⟨chunks, -, rfl, hfits⟩ := split_eq_ok hsized hsplit
      obtain ⟨chunk, hchunk, hitem⟩ := mem_flatten.mp hitem
      have hle := hsized.single_le hitem
      have hbytes := (hfits chunk hchunk).bytes
      omega

end

end

namespace AccountTransferFrame

variable {json : FrameJson}

theorem sized_items (json : FrameJson) :
  Sized json items json.ofItem
  := sized_of_commas json.ofFrame_items

theorem encode_eq_ok {frame : AccountTransferFrame} {bytes : Bytes} :
  frame.encode json = .ok bytes ↔
    bytes = json.ofFrame frame ∧ bytes.length ≤ maxAccountTransferFrameBytes
  := by
  simp only [encode, bind_eq_ok, bailIf_eq_ok, exists_const, not_lt, Except.ok.injEq]
  constructor
  · rintro ⟨hlength, rfl⟩
    exact ⟨rfl, hlength⟩
  · rintro ⟨rfl, hlength⟩
    exact ⟨hlength, rfl⟩

/-- A frame of a chunk is encoded and accepted. -/
theorem decode_items {chunk : List AccountTransferItem} (h : ChunkFits json items chunk) :
  decode json (json.ofFrame (items chunk)) = .ok (items chunk)
  := by
  simp only [decode, bind_eq_ok, bailIf_eq_ok, exists_const, not_lt, context_eq_ok]
  refine ⟨h.bytes, _, json.read_ofFrame _, ?_⟩
  simp only [checkCount, bind_eq_ok, bailIf_eq_ok, exists_const, not_not, and_true]
  exact ⟨h.pos, h.length⟩

end AccountTransferFrame

end Kukuri
