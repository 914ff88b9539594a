import Kukuri.Data.Decimal
import Kukuri.Data.Hex
import Kukuri.Data.Machine
import Kukuri.Data.Result
import Kukuri.Data.Text

/-!
# Buckets

Records of a scope are kept in one replica for each day. The identifier of such a replica names
the version, the scope and the day. The texts of the scope are written in hexadecimal, so that
no part contains the separator, and the day is written without leading zeros. Identifiers and
bucket replicas correspond to each other one to one.
-/

namespace Kukuri

open Result Text

/-! ### Days -/

def bucketSecondsV1 : ℕ := 86400

def maxScopeBytes : ℕ := 1024

def maxReplicaBytes : ℕ := 4 * maxScopeBytes + 96

/-- The greatest day with a timestamp. -/
def maxBucketIndex : ℕ := (2 ^ 63 - 1) / bucketSecondsV1

/-- A day whose first second is a timestamp. -/
@[ext]
structure TimeBucket where
  index : ℕ
  inRange : index ≤ maxBucketIndex
  deriving DecidableEq

namespace TimeBucket

def fromIndex (index : ℕ) : Result TimeBucket :=
  if h : index ≤ maxBucketIndex then .ok ⟨index, h⟩
  else .error (.bail "bucket index exceeds the timestamp range")

def fromUnixSeconds (seconds : ℤ) : Result TimeBucket := do
  bailIf (seconds < 0) "bucket timestamp must not be negative"
  fromIndex (seconds.toNat / bucketSecondsV1)

def startSeconds (bucket : TimeBucket) : ℕ := bucket.index * bucketSecondsV1

def endSeconds (bucket : TimeBucket) : ℕ := (bucket.index + 1) * bucketSecondsV1

def previous (bucket : TimeBucket) : Option TimeBucket :=
  if 0 < bucket.index then
    some ⟨bucket.index - 1, Nat.le_trans (Nat.sub_le _ _) bucket.inRange⟩
  else none

/-- The day and the one before it. -/
def liveWindow (bucket : TimeBucket) : List TimeBucket := bucket :: bucket.previous.toList

def contains (bucket : TimeBucket) (unixSeconds : ℤ) : Bool :=
  0 ≤ unixSeconds && bucket.startSeconds ≤ unixSeconds.toNat &&
    unixSeconds.toNat < bucket.endSeconds

theorem fromIndex_eq_ok {index : ℕ} {bucket : TimeBucket} :
  fromIndex index = .ok bucket ↔ bucket.index = index
  := by
  unfold fromIndex
  split
  case isTrue h =>
    rw [Except.ok.injEq, TimeBucket.ext_iff]
    exact eq_comm
  case isFalse h =>
    constructor
    · nofun
    · rintro rfl
      exact absurd bucket.inRange h

/-- The end of every day fits in 64 bits. -/
theorem endSeconds_le (bucket : TimeBucket) :
  bucket.endSeconds ≤ U64.greatest
  := by
  have hindex := bucket.inRange
  simp only [maxBucketIndex, bucketSecondsV1] at hindex
  simp only [endSeconds, bucketSecondsV1, U64.greatest]
  omega

end TimeBucket

/-! ### Scopes -/

/-- What the records of a bucket belong to. -/
inductive BucketScope where
  | topic (topicId : String)
  | privateChannel (channelId epochId : String)
  | author (authorPubkey : String)
  deriving DecidableEq

namespace BucketScope

def validatePart (value : String) : Result Unit :=
  bailIf (¬ (value ≠ "" ∧ value.utf8ByteSize ≤ maxScopeBytes))
    "bucket scope must contain 1..=1024 UTF-8 bytes"

def validate : BucketScope → Result Unit
  | topic topicId => validatePart topicId
  | author authorPubkey => validatePart authorPubkey
  | privateChannel channelId epochId => do
    validatePart channelId
    validatePart epochId

/-- The texts of a scope. -/
def parts : BucketScope → List String
  | topic topicId => [topicId]
  | author authorPubkey => [authorPubkey]
  | privateChannel channelId epochId => [channelId, epochId]

theorem validatePart_eq_ok {value : String} {u : Unit} :
  validatePart value = .ok u ↔ 1 ≤ value.utf8ByteSize ∧ value.utf8ByteSize ≤ maxScopeBytes
  := by
  rw [validatePart, bailIf_eq_ok, not_not, Nat.one_le_iff_ne_zero, ne_eq, ne_eq,
    String.utf8ByteSize_eq_zero_iff]

theorem validate_eq_ok {scope : BucketScope} {u : Unit} :
  scope.validate = .ok u ↔
    ∀ part ∈ scope.parts, 1 ≤ part.utf8ByteSize ∧ part.utf8ByteSize ≤ maxScopeBytes
  := by
  cases scope with
  | topic topicId | author authorPubkey => simp [validate, parts, validatePart_eq_ok]
  | privateChannel channelId epochId =>
    simp [validate, parts, validatePart_eq_ok, bind_eq_ok]

/-- The kind and the digits of the texts. -/
def pieces : BucketScope → List String
  | topic topicId => ["topic", Hex.encode topicId]
  | author authorPubkey => ["author", Hex.encode authorPubkey]
  | privateChannel channelId epochId => ["channel", Hex.encode channelId, Hex.encode epochId]

/-- The pieces with separators between them. -/
def written : BucketScope → String
  | topic topicId => "topic" ++ ("::" ++ Hex.encode topicId)
  | author authorPubkey => "author" ++ ("::" ++ Hex.encode authorPubkey)
  | privateChannel channelId epochId =>
    "channel" ++ ("::" ++ (Hex.encode channelId ++ ("::" ++ Hex.encode epochId)))

end BucketScope

/-! ### Replicas -/

/-- The replica of a day of a scope whose texts are in the bounds. -/
@[ext]
structure BucketReplica where
  scope : BucketScope
  bucket : TimeBucket
  valid : scope.validate = .ok ()

namespace BucketReplica

def new (scope : BucketScope) (bucket : TimeBucket) : Result BucketReplica :=
  match h : scope.validate with
  | .ok () => .ok ⟨scope, bucket, h⟩
  | .error e => .error e

def isPrivate (replica : BucketReplica) : Bool :=
  match replica.scope with
  | .privateChannel _ _ => true
  | _ => false

def replicaId (replica : BucketReplica) : String :=
  "bucket::v1::" ++ (replica.scope.written ++ ("::" ++ Decimal.write replica.bucket.index))

/-- A text of a scope, from its digits. -/
def decode (value : String) : Result String := do
  bailIf (¬ (value ≠ "" ∧ value.utf8ByteSize ≤ maxScopeBytes * 2 ∧
      ∀ c ∈ value.toList, Hex.isDigit c))
    "bucket scope is not canonical hexadecimal"
  let bytes ← context (Hex.decodeBytes value.toList) "invalid hexadecimal digits"
  context (String.fromUTF8? ⟨bytes.toArray⟩) "bucket scope is not UTF-8"

/-- The scope and the digits of the day. -/
def readParts : List String → Result (BucketScope × String)
  | ["topic", topic, index] => do
    let topicId ← decode topic
    return (.topic topicId, index)
  | ["author", author, index] => do
    let authorPubkey ← decode author
    return (.author authorPubkey, index)
  | ["channel", channel, epoch, index] => do
    let channelId ← decode channel
    let epochId ← decode epoch
    return (.privateChannel channelId epochId, index)
  | _ => .error (.bail "invalid bucket replica shape")

def parse (replicaId : String) : Result BucketReplica := do
  bailIf (¬ replicaId.utf8ByteSize ≤ maxReplicaBytes) "bucket replica id is too long"
  let rest ← context (stripPrefix "bucket::v1::" replicaId) "unsupported bucket replica version"
  let (scope, digits) ← readParts (splitDoubled ':' rest)
  let index ← context (Decimal.read U64.greatest digits) "bucket index is not a number"
  let bucket ← TimeBucket.fromIndex index
  bailIf (¬ digits = Decimal.write bucket.index) "bucket index is not canonical"
  new scope bucket

theorem new_eq_ok {scope : BucketScope} {bucket : TimeBucket} {replica : BucketReplica} :
  new scope bucket = .ok replica ↔ replica.scope = scope ∧ replica.bucket = bucket
  := by
  have hvalid := replica.valid
  unfold new
  split
  case h_1 h =>
    rw [Except.ok.injEq, BucketReplica.ext_iff]
    exact and_congr eq_comm eq_comm
  case h_2 e h =>
    constructor
    · nofun
    · rintro ⟨rfl, -⟩
      rw [hvalid] at h
      cases h

/-! ### Parts -/

/-- Digits are no separators. -/
theorem colon_notMem_encode (text : String) :
  ':' ∉ (Hex.encode text).toList
  := by
  intro h
  exact absurd (Hex.isDigit_of_mem_encode h) (by decide)

theorem colon_notMem_write (n : ℕ) :
  ':' ∉ (Decimal.write n).toList
  := by
  intro h
  exact absurd (Decimal.isDigit_of_mem_write h) (by decide)

theorem utf8ByteSize_encode (text : String) :
  (Hex.encode text).utf8ByteSize = 2 * text.utf8ByteSize
  := by
  rw [utf8ByteSize_of_ascii, Hex.length_encode]
  intro c hc
  have hlt := Hex.isDigit_lt (Hex.isDigit_of_mem_encode hc)
  omega

/-- A part is read when it is written for a text in the bounds. -/
theorem decode_eq_ok {value text : String} :
  decode value = .ok text ↔
    value = Hex.encode text ∧ 1 ≤ text.utf8ByteSize ∧ text.utf8ByteSize ≤ maxScopeBytes
  := by
  have hdecode : decode value = .ok text ↔ (value ≠ "" ∧
      value.utf8ByteSize ≤ maxScopeBytes * 2 ∧ ∀ c ∈ value.toList, Hex.isDigit c) ∧
      Hex.decode value = some text := by
    simp only [decode, bind_eq_ok, bailIf_eq_ok, not_not, exists_const, context_eq_ok,
      Hex.decode, Option.bind_eq_bind, Option.bind_eq_some_iff]
  rw [hdecode, ne_eq, ← String.utf8ByteSize_eq_zero_iff]
  constructor
  · rintro ⟨⟨hempty, hsize, hdigits⟩, htext⟩
    have hvalue := Hex.encode_of_decode hdigits htext
    rw [← hvalue, utf8ByteSize_encode] at hempty hsize
    exact ⟨hvalue.symm, by omega, by omega⟩
  · rintro ⟨rfl, hempty, hsize⟩
    rw [utf8ByteSize_encode]
    exact ⟨⟨by omega, by omega, fun c => Hex.isDigit_of_mem_encode⟩, Hex.decode_encode text⟩

/-- The parts of a scope in the bounds, and the digits of the day behind them, are read. -/
theorem readParts_eq_ok {parts : List String} {scope : BucketScope} {digits : String} :
  readParts parts = .ok (scope, digits) ↔
    parts = scope.pieces ++ [digits] ∧ scope.validate = .ok ()
  := by
  rw [BucketScope.validate_eq_ok]
  constructor
  · intro h
    unfold readParts at h
    split at h
    case h_1 topic index =>
      obtain ⟨topicId, htopic, hpair⟩ := bind_eq_ok.mp h
      obtain ⟨rfl, hsize⟩ := decode_eq_ok.mp htopic
      obtain ⟨rfl, rfl⟩ := Prod.mk.inj (pure_eq_ok.mp hpair)
      exact ⟨rfl, by simpa [BucketScope.parts] using hsize⟩
    case h_2 author index =>
      obtain ⟨authorPubkey, hauthor, hpair⟩ := bind_eq_ok.mp h
      obtain ⟨rfl, hsize⟩ := decode_eq_ok.mp hauthor
      obtain ⟨rfl, rfl⟩ := Prod.mk.inj (pure_eq_ok.mp hpair)
      exact ⟨rfl, by simpa [BucketScope.parts] using hsize⟩
    case h_3 channel epoch index =>
      obtain ⟨channelId, hchannel, hrest⟩ := bind_eq_ok.mp h
      obtain ⟨epochId, hepoch, hpair⟩ := bind_eq_ok.mp hrest
      obtain ⟨rfl, hsize⟩ := decode_eq_ok.mp hchannel
      obtain ⟨rfl, hsize'⟩ := decode_eq_ok.mp hepoch
      obtain ⟨rfl, rfl⟩ := Prod.mk.inj (pure_eq_ok.mp hpair)
      exact ⟨rfl, by simpa [BucketScope.parts] using ⟨hsize, hsize'⟩⟩
    case h_4 => cases h
  · rintro ⟨rfl, hsize⟩
    cases scope with
    | topic topicId =>
      have htopic := decode_eq_ok.mpr ⟨rfl, hsize topicId (by simp [BucketScope.parts])⟩
      exact bind_eq_ok.mpr ⟨topicId, htopic, rfl⟩
    | author authorPubkey =>
      have hauthor := decode_eq_ok.mpr ⟨rfl, hsize authorPubkey (by simp [BucketScope.parts])⟩
      exact bind_eq_ok.mpr ⟨authorPubkey, hauthor, rfl⟩
    | privateChannel channelId epochId =>
      have hchannel := decode_eq_ok.mpr ⟨rfl, hsize channelId (by simp [BucketScope.parts])⟩
      have hepoch := decode_eq_ok.mpr ⟨rfl, hsize epochId (by simp [BucketScope.parts])⟩
      refine bind_eq_ok.mpr ⟨channelId, hchannel, ?_⟩
      exact bind_eq_ok.mpr ⟨epochId, hepoch, rfl⟩

/-- A scope as it is written is split into its pieces. -/
theorem splitDoubled_written (scope : BucketScope) (right : String) :
  splitDoubled ':' (scope.written ++ ("::" ++ right)) = scope.pieces ++ splitDoubled ':' right
  := by
  have hcolons : "::" = String.ofList [':', ':'] := rfl
  cases scope with
  | topic topicId =>
    simp only [BucketScope.written, String.append_assoc, hcolons]
    rw [splitDoubled_append (by decide), splitDoubled_append (colon_notMem_encode topicId)]
    rfl
  | author authorPubkey =>
    simp only [BucketScope.written, String.append_assoc, hcolons]
    rw [splitDoubled_append (by decide), splitDoubled_append (colon_notMem_encode authorPubkey)]
    rfl
  | privateChannel channelId epochId =>
    simp only [BucketScope.written, String.append_assoc, hcolons]
    rw [splitDoubled_append (by decide), splitDoubled_append (colon_notMem_encode channelId),
      splitDoubled_append (colon_notMem_encode epochId)]
    rfl

/-- What is split into the pieces of a scope and a last one is the scope as it is written, and
the last piece behind it. -/
theorem splitDoubled_eq_pieces {rest digits : String} {scope : BucketScope}
    (hdigits : ':' ∉ digits.toList) :
  splitDoubled ':' rest = scope.pieces ++ [digits] ↔ rest = scope.written ++ ("::" ++ digits)
  := by
  constructor
  · intro h
    rw [← String.toList_inj, toList_of_splitDoubled h]
    cases scope with
    | topic topicId | author authorPubkey | privateChannel channelId epochId =>
      simp [BucketScope.pieces, BucketScope.written, join]
  · rintro rfl
    rw [splitDoubled_written, splitDoubled_of_notMem hdigits]

/-! ### Identifiers -/

theorem utf8ByteSize_write_le (bucket : TimeBucket) :
  (Decimal.write bucket.index).utf8ByteSize ≤ 15
  := by
  rw [utf8ByteSize_of_ascii]
  · apply Decimal.length_write_le (by decide)
    apply lt_of_le_of_lt bucket.inRange
    decide
  · intro c hc
    have hdigit := Decimal.isDigit_of_mem_write hc
    simp only [Char.isDigit, Bool.and_eq_true, decide_eq_true_eq] at hdigit
    have hle : c.toNat ≤ 57 := hdigit.2
    omega

theorem utf8ByteSize_written_le {scope : BucketScope} (h : scope.validate = .ok ()) :
  scope.written.utf8ByteSize ≤ 4 * maxScopeBytes + 11
  := by
  rw [BucketScope.validate_eq_ok] at h
  have htopic : "topic".utf8ByteSize = 5 := rfl
  have hauthor : "author".utf8ByteSize = 6 := rfl
  have hchannel : "channel".utf8ByteSize = 7 := rfl
  have hcolons : "::".utf8ByteSize = 2 := rfl
  cases scope with
  | topic topicId =>
    have hsize := h topicId (by simp [BucketScope.parts])
    simp only [BucketScope.written, String.utf8ByteSize_append, utf8ByteSize_encode]
    omega
  | author authorPubkey =>
    have hsize := h authorPubkey (by simp [BucketScope.parts])
    simp only [BucketScope.written, String.utf8ByteSize_append, utf8ByteSize_encode]
    omega
  | privateChannel channelId epochId =>
    have hsize := h channelId (by simp [BucketScope.parts])
    have hsize' := h epochId (by simp [BucketScope.parts])
    simp only [BucketScope.written, String.utf8ByteSize_append, utf8ByteSize_encode]
    omega

theorem utf8ByteSize_replicaId_le (replica : BucketReplica) :
  replica.replicaId.utf8ByteSize ≤ maxReplicaBytes
  := by
  have hstart : "bucket::v1::".utf8ByteSize = 12 := rfl
  have hcolons : "::".utf8ByteSize = 2 := rfl
  have hscope := utf8ByteSize_written_le replica.valid
  have hindex := utf8ByteSize_write_le replica.bucket
  simp only [replicaId, String.utf8ByteSize_append, maxReplicaBytes]
  omega

/-- An identifier is read as a replica exactly when it is written for the replica. -/
theorem parse_eq_ok {id : String} {replica : BucketReplica} :
  parse id = .ok replica ↔ id = replica.replicaId
  := by
  simp only [parse, bind_eq_ok, bailIf_eq_ok, not_not, exists_const, context_eq_ok,
    stripPrefix_eq_some, Prod.exists, readParts_eq_ok, TimeBucket.fromIndex_eq_ok, new_eq_ok]
  constructor
  · rintro ⟨-, rest, rfl, scope, digits, ⟨hparts, -⟩, index, -, bucket, rfl, rfl, rfl, rfl⟩
    rw [splitDoubled_eq_pieces (colon_notMem_write _)] at hparts
    rw [hparts, replicaId]
  · rintro rfl
    have hparts := (splitDoubled_eq_pieces (colon_notMem_write replica.bucket.index)).mpr
      (rfl : replica.scope.written ++ ("::" ++ Decimal.write replica.bucket.index) = _)
    have hread : Decimal.read U64.greatest (Decimal.write replica.bucket.index) =
        some replica.bucket.index := by
      apply Decimal.read_write
      apply le_trans replica.bucket.inRange
      decide
    exact ⟨utf8ByteSize_replicaId_le replica, _, rfl, _, _, ⟨hparts, replica.valid⟩, _, hread,
      replica.bucket, rfl, rfl, rfl, rfl⟩

theorem replicaId_injective :
  Function.Injective replicaId
  := by
  intro replica replica' h
  have hparse := parse_eq_ok.mpr h
  rw [parse_eq_ok.mpr rfl] at hparse
  exact Except.ok.inj hparse

theorem startsWith_replicaId (replica : BucketReplica) :
  startsWith "bucket::" replica.replicaId
  := by
  have hstart : "bucket::v1::" = "bucket::" ++ "v1::" := rfl
  rw [replicaId, hstart, String.append_assoc]
  apply startsWith_append

/-- A scope and what stands behind it are found in the identifier. -/
theorem eq_of_replicaId_eq {replica : BucketReplica} {scope : BucketScope} {right : String}
    (h : replica.replicaId = "bucket::v1::" ++ (scope.written ++ ("::" ++ right))) :
  replica.scope = scope ∧ Decimal.write replica.bucket.index = right
  := by
  have hsplit : replica.scope.pieces ++ [Decimal.write replica.bucket.index] =
      scope.pieces ++ splitDoubled ':' right := by
    rw [← splitDoubled_written, ← append_right_inj.mp h, splitDoubled_written,
      splitDoubled_of_notMem (colon_notMem_write _)]
  have hlast : ∀ digits, [digits] = splitDoubled ':' right → digits = right := by
    intro digits hdigits
    rw [← String.toList_inj, toList_of_splitDoubled hdigits.symm]
    rfl
  cases hscope : replica.scope with
  | topic topicId =>
    cases scope with
    | topic topicId' =>
      simp only [hscope, BucketScope.pieces, List.cons_append, List.nil_append, List.cons.injEq,
        true_and, Hex.encode_injective.eq_iff] at hsplit
      exact ⟨congrArg _ hsplit.1, hlast _ hsplit.2⟩
    | author _ | privateChannel _ _ => simp [hscope, BucketScope.pieces] at hsplit
  | author authorPubkey =>
    cases scope with
    | author authorPubkey' =>
      simp only [hscope, BucketScope.pieces, List.cons_append, List.nil_append, List.cons.injEq,
        true_and, Hex.encode_injective.eq_iff] at hsplit
      exact ⟨congrArg _ hsplit.1, hlast _ hsplit.2⟩
    | topic _ | privateChannel _ _ => simp [hscope, BucketScope.pieces] at hsplit
  | privateChannel channelId epochId =>
    cases scope with
    | privateChannel channelId' epochId' =>
      simp only [hscope, BucketScope.pieces, List.cons_append, List.nil_append, List.cons.injEq,
        true_and, Hex.encode_injective.eq_iff] at hsplit
      exact ⟨by rw [hsplit.1, hsplit.2.1], hlast _ hsplit.2.2⟩
    | topic _ | author _ => simp [hscope, BucketScope.pieces] at hsplit

/-- Identifiers and bucket replicas correspond to each other: an identifier stays within the
limit and is read back, only such identifiers are read, two replicas never share one, and that
of a private replica is read as a private one only. -/
theorem replicaId_codec :
  (∀ (scope : BucketScope) (index : ℕ) (bucket : TimeBucket),
    (∀ part ∈ scope.parts, 1 ≤ part.utf8ByteSize ∧ part.utf8ByteSize ≤ maxScopeBytes) →
    TimeBucket.fromIndex index = .ok bucket →
    ∃ replica, new scope bucket = .ok replica ∧ replica.scope = scope ∧
      replica.bucket = bucket ∧ replica.replicaId.utf8ByteSize ≤ maxReplicaBytes ∧
      replica.bucket.endSeconds ≤ U64.greatest ∧ parse replica.replicaId = .ok replica) ∧
  (∀ (id : String) (replica : BucketReplica),
    parse id = .ok replica → replica.replicaId = id) ∧
  (∀ replica replica' : BucketReplica,
    (replica.scope, replica.bucket) ≠ (replica'.scope, replica'.bucket) →
    replica.replicaId ≠ replica'.replicaId) ∧
  (∀ replica replica' : BucketReplica, replica.isPrivate →
    parse replica.replicaId = .ok replica' → replica'.isPrivate)
  := by
  refine ⟨?_, ?_, ?_, ?_⟩
  · intro scope index bucket hparts hbucket
    have hvalid : scope.validate = .ok () := BucketScope.validate_eq_ok.mpr hparts
    let replica : BucketReplica := ⟨scope, bucket, hvalid⟩
    refine ⟨replica, new_eq_ok.mpr ⟨rfl, rfl⟩, rfl, rfl, ?_⟩
    exact ⟨utf8ByteSize_replicaId_le replica, bucket.endSeconds_le, parse_eq_ok.mpr rfl⟩
  · intro id replica hparse
    exact (parse_eq_ok.mp hparse).symm
  · intro replica replica' hne hid
    obtain rfl := replicaId_injective hid
    exact hne rfl
  · intro replica replica' hprivate hparse
    obtain rfl := replicaId_injective (parse_eq_ok.mp hparse)
    exact hprivate

theorem replicaId_codec_topic :
  ∃ replica : BucketReplica, replica.scope = .topic "rust" ∧ replica.bucket.index = 20000 ∧
    parse replica.replicaId = .ok replica
  := by
  have hparts : ∀ part ∈ (BucketScope.topic "rust").parts,
      1 ≤ part.utf8ByteSize ∧ part.utf8ByteSize ≤ maxScopeBytes := by
    decide
  obtain ⟨replica, -, hscope, hbucket, -, -, hparse⟩ :=
    replicaId_codec.1 (.topic "rust") 20000 ⟨20000, by decide⟩ hparts rfl
  refine ⟨replica, hscope, ?_, hparse⟩
  rw [hbucket]

end BucketReplica

end Kukuri
