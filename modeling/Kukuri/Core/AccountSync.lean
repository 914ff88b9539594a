import Kukuri.Core.Dome
import Kukuri.Data.Hex
import Kukuri.Data.Text

/-!
# Items of the account

The devices of an account keep their items in a replica each, under a key that says what the item
is. Identifiers are written into the key in hexadecimal; public keys and devices are written as
they are. The main result is `docsKeys_faithful`: the keys of different items are different, and
the key of an item can be read back.
-/

namespace Kukuri

open Result Text

def maxItemIdBytes : ℕ := 256
def accountSyncChangeWindow : ℕ := 256

/-- Texts of public keys. The library that reads them accepts 64 hexadecimal digits which are the
coordinate of a point. -/
structure PublicKeys where
  isKey : String → Bool
  hexadecimal : ∀ text, isKey text →
    text.toList.length = 64 ∧ ∀ c ∈ text.toList, (Hex.value c).isSome

/-! ### Keys -/

inductive AccountSyncItemKey where
  | profile
  | trustAlwaysVisible (author : Pubkey)
  | channelCapability (channelId epochId : String)
  | channelMembership (channelId : String)
  | channelController (channelId : String)
  | channelRotationRequest (channelId : String)
  | channelControllerRequest (channelId : String)
  | channelParticipant (channelId : String) (participant : Pubkey)
  | participantFollow (subject target : Pubkey)
  | ownFollow (target : Pubkey)
  | ownBlock (target : Pubkey)
  | followerEdge (subject : Pubkey)
  | changeSlot (deviceId : String) (slot : ℕ)
  | changeHead (deviceId : String)
  deriving DecidableEq, Repr

/-- A number with at least three digits. -/
def threeDigits (n : ℕ) : String := String.ofList ((Nat.toDigits 10 n).leftpad 3 '0')

/-- The key of an item of a channel. -/
def channelKey (channelId item : String) : String :=
  "channel/" ++ (Hex.encode channelId ++ ("/" ++ item))

/-- The key of a change of a device. -/
def changeKey (deviceId change : String) : String :=
  "changes/" ++ (deviceId ++ ("/" ++ change))

namespace AccountSyncItemKey

def docsKey : AccountSyncItemKey → String
  | profile => "profile"
  | trustAlwaysVisible author => "trust/always-visible/" ++ author
  | channelCapability channelId epochId =>
    channelKey channelId ("epoch" ++ ("/" ++ Hex.encode epochId))
  | channelMembership channelId => channelKey channelId "membership"
  | channelController channelId => channelKey channelId "controller"
  | channelRotationRequest channelId => channelKey channelId "rotation"
  | channelControllerRequest channelId => channelKey channelId "controller-request"
  | channelParticipant channelId participant =>
    channelKey channelId ("participant" ++ ("/" ++ participant))
  | participantFollow subject target => "follow/" ++ (subject ++ ("/" ++ target))
  | ownFollow target => "graph/follows/" ++ target
  | ownBlock target => "graph/blocks/" ++ target
  | followerEdge subject => "graph/followers/" ++ subject
  | changeSlot deviceId slot => changeKey deviceId (threeDigits slot)
  | changeHead deviceId => changeKey deviceId "head"

/-- The slot of the window of changes that a change is put into. -/
def changeSlotOf (deviceId : String) (seq : ℕ) : AccountSyncItemKey :=
  changeSlot deviceId (seq % accountSyncChangeWindow)

/-! ### Checks -/

def validateId (value : String) : Result Unit :=
  bailIf (value.utf8ByteSize = 0 ∨ maxItemIdBytes < value.utf8ByteSize)
    "account sync item id must contain 1..=256 bytes"

def validatePubkey (keys : PublicKeys) (value : String) : Result Unit :=
  bailIf (¬ keys.isKey value) "invalid x-only public key"

def validateDeviceId (deviceId : String) : Result Unit :=
  bailIf (deviceId.utf8ByteSize = 0 ∨ maxItemIdBytes < deviceId.utf8ByteSize ∨
      ¬ deviceId.toList.all fun c => c.isAlphanum || c = '-' || c = '_')
    "account sync device id must be alphanumeric"

def validate (keys : PublicKeys) : AccountSyncItemKey → Result Unit
  | profile => .ok ()
  | trustAlwaysVisible author => validatePubkey keys author
  | channelCapability channelId epochId => do
    validateId channelId
    validateId epochId
  | channelMembership channelId | channelController channelId
  | channelRotationRequest channelId | channelControllerRequest channelId =>
    validateId channelId
  | channelParticipant channelId participant => do
    validateId channelId
    validatePubkey keys participant
  | participantFollow subject target => do
    validatePubkey keys subject
    validatePubkey keys target
  | ownFollow key | ownBlock key | followerEdge key => validatePubkey keys key
  | changeSlot deviceId slot => do
    bailIf (¬ slot < accountSyncChangeWindow) "account sync change slot is outside the window"
    validateDeviceId deviceId
  | changeHead deviceId => validateDeviceId deviceId

/-! ### Reading keys -/

/-- An identifier that is written in hexadecimal. -/
def readId (value : String) : Result String := do
  let bytes ← context (Hex.decodeBytes value.toList) "invalid hexadecimal digits"
  context (String.fromUTF8? ⟨bytes.toArray⟩) "account sync item id is not UTF-8"

/-- The key of an item of the channel. -/
def readItemOf (channelId item : String) : Result AccountSyncItemKey :=
  match splitOnce '/' item with
  | some ("epoch", epoch) => do return channelCapability channelId (← readId epoch)
  | some ("participant", participant) => .ok (channelParticipant channelId participant)
  | some _ => .error (.bail "unknown channel item")
  | none =>
    if item = "membership" then .ok (channelMembership channelId)
    else if item = "controller" then .ok (channelController channelId)
    else if item = "rotation" then .ok (channelRotationRequest channelId)
    else if item = "controller-request" then .ok (channelControllerRequest channelId)
    else .error (.bail "unknown channel item")

def readChannelItem (rest : String) : Result AccountSyncItemKey := do
  let (channel, item) ← context (splitOnce '/' rest) "missing channel item"
  let channelId ← readId channel
  readItemOf channelId item

/-- The key whose text is given, before it is checked. -/
def readKey (docsKey : String) : Result AccountSyncItemKey :=
  if docsKey = "profile" then .ok profile
  else match stripPrefix "trust/always-visible/" docsKey with
  | some author => .ok (trustAlwaysVisible author)
  | none => match stripPrefix "channel/" docsKey with
  | some rest => readChannelItem rest
  | none => match stripPrefix "graph/follows/" docsKey with
  | some target => .ok (ownFollow target)
  | none => match stripPrefix "graph/blocks/" docsKey with
  | some target => .ok (ownBlock target)
  | none => match stripPrefix "graph/followers/" docsKey with
  | some subject => .ok (followerEdge subject)
  | none => match stripPrefix "follow/" docsKey with
  | some rest => do
    let (subject, target) ← context (splitOnce '/' rest) "missing follow target"
    return participantFollow subject target
  | none => .error (.bail "unknown account sync item key")

def fromDocsKey (keys : PublicKeys) (docsKey : String) : Result AccountSyncItemKey := do
  let key ← readKey docsKey
  key.validate keys
  bailIf (key.docsKey ≠ docsKey) "account sync item key is not canonical"
  return key

/-- Keys of items that are merged, which are all but those of the window of changes. -/
def isMerged : AccountSyncItemKey → Bool
  | changeSlot _ _ | changeHead _ => false
  | _ => true

/-! ### Reading back -/

variable {keys : PublicKeys} {key key' : AccountSyncItemKey} {text : String} {n : ℕ} {u : Unit}

theorem splitOnce_slash {left right : String} (h : '/' ∉ left.toList) :
  splitOnce '/' (left ++ ("/" ++ right)) = some (left, right)
  := by
  apply splitOnce_append h

theorem slash_not_mem_encode (text : String) :
  '/' ∉ (Hex.encode text).toList
  := by
  intro h
  cases Hex.isDigit_of_mem_encode h

theorem slash_not_mem_key (h : keys.isKey text) :
  '/' ∉ text.toList
  := by
  intro hmem
  cases (keys.hexadecimal text h).2 _ hmem

theorem slash_not_mem_deviceId {deviceId : String} (h : validateDeviceId deviceId = .ok u) :
  '/' ∉ deviceId.toList
  := by
  intro hmem
  have hall := bailIf_eq_ok.mp h
  push Not at hall
  have hslash := List.all_eq_true.mp hall.2.2 _ hmem
  cases hslash

theorem validatePubkey_eq_ok {value : String} :
  validatePubkey keys value = .ok u ↔ keys.isKey value
  := by
  rw [validatePubkey, bailIf_eq_ok, not_not]

theorem readId_encode (id : String) :
  readId (Hex.encode id) = .ok id
  := by
  have hdecode := Hex.decode_encode id
  rw [Hex.decode, Option.bind_eq_bind, Option.bind_eq_some_iff] at hdecode
  obtain ⟨bytes, hbytes, htext⟩ := hdecode
  apply bind_eq_ok.mpr
  exact ⟨bytes, context_eq_ok.mpr hbytes, context_eq_ok.mpr htext⟩

theorem readKey_channelKey {channelId item : String} (h : readItemOf channelId item = .ok key) :
  readKey (channelKey channelId item) = .ok key
  := by
  simp (disch := decide) only [channelKey, readKey, append_ne, if_false,
    stripPrefix_append_of_not, stripPrefix_append]
  apply bind_eq_ok.mpr
  refine ⟨_, context_eq_ok.mpr (splitOnce_slash (slash_not_mem_encode channelId)), ?_⟩
  apply bind_eq_ok.mpr ⟨channelId, readId_encode channelId, h⟩

theorem readKey_trust (author : String) :
  readKey ("trust/always-visible/" ++ author) = .ok (trustAlwaysVisible author)
  := by
  simp (disch := decide) only [readKey, append_ne, if_false, stripPrefix_append]

theorem readKey_follows (target : String) :
  readKey ("graph/follows/" ++ target) = .ok (ownFollow target)
  := by
  simp (disch := decide) only [readKey, append_ne, if_false, stripPrefix_append_of_not,
    stripPrefix_append]

theorem readKey_blocks (target : String) :
  readKey ("graph/blocks/" ++ target) = .ok (ownBlock target)
  := by
  simp (disch := decide) only [readKey, append_ne, if_false, stripPrefix_append_of_not,
    stripPrefix_append]

theorem readKey_followers (subject : String) :
  readKey ("graph/followers/" ++ subject) = .ok (followerEdge subject)
  := by
  simp (disch := decide) only [readKey, append_ne, if_false, stripPrefix_append_of_not,
    stripPrefix_append]

theorem readKey_follow {subject target : String} (h : '/' ∉ subject.toList) :
  readKey ("follow/" ++ (subject ++ ("/" ++ target))) = .ok (participantFollow subject target)
  := by
  simp (disch := decide) only [readKey, append_ne, if_false, stripPrefix_append_of_not,
    stripPrefix_append]
  apply bind_eq_ok.mpr
  exact ⟨_, context_eq_ok.mpr (splitOnce_slash h), rfl⟩

theorem readKey_changes (rest : String) :
  readKey ("changes/" ++ rest) = .error (.bail "unknown account sync item key")
  := by
  simp (disch := decide) only [readKey, append_ne, if_false, stripPrefix_append_of_not]

/-- The key of a merged item is read back. -/
theorem readKey_docsKey (hmerged : key.isMerged) (hvalid : key.validate keys = .ok ()) :
  readKey key.docsKey = .ok key
  := by
  cases key with
  | profile => rfl
  | trustAlwaysVisible author => apply readKey_trust
  | channelCapability channelId epochId =>
    apply readKey_channelKey
    rw [readItemOf, splitOnce_slash (by decide)]
    change (readId (Hex.encode epochId) >>= fun id => pure (channelCapability channelId id)) = _
    exact bind_eq_ok.mpr ⟨epochId, readId_encode epochId, rfl⟩
  | channelMembership channelId | channelController channelId | channelRotationRequest channelId
  | channelControllerRequest channelId =>
    apply readKey_channelKey
    rfl
  | channelParticipant channelId participant =>
    apply readKey_channelKey
    rw [readItemOf, splitOnce_slash (by decide)]
    rfl
  | participantFollow subject target =>
    obtain ⟨_, hsubject, -⟩ := bind_eq_ok.mp hvalid
    apply readKey_follow (slash_not_mem_key (validatePubkey_eq_ok.mp hsubject))
  | ownFollow target => apply readKey_follows
  | ownBlock target => apply readKey_blocks
  | followerEdge subject => apply readKey_followers
  | changeSlot deviceId slot => cases hmerged
  | changeHead deviceId => cases hmerged

theorem fromDocsKey_docsKey (hmerged : key.isMerged) (hvalid : key.validate keys = .ok ()) :
  fromDocsKey keys key.docsKey = .ok key
  := by
  refine bind_eq_ok.mpr ⟨key, readKey_docsKey hmerged hvalid, ?_⟩
  refine bind_eq_ok.mpr ⟨(), hvalid, ?_⟩
  exact bailIf_bind_eq_ok.mpr ⟨not_not.mpr rfl, rfl⟩

theorem fromDocsKey_eq_ok (h : fromDocsKey keys text = .ok key) :
  readKey text = .ok key ∧ key.validate keys = .ok () ∧ key.docsKey = text
  := by
  obtain ⟨key', hread, h⟩ := bind_eq_ok.mp h
  obtain ⟨_, hvalid, h⟩ := bind_eq_ok.mp h
  obtain ⟨hcanonical, h⟩ := bailIf_bind_eq_ok.mp h
  obtain rfl := pure_eq_ok.mp h
  exact ⟨hread, hvalid, not_not.mp hcanonical⟩

/-- Keys of changes are not read back. -/
theorem fromDocsKey_changes_ne (keys : PublicKeys) (rest : String) (key : AccountSyncItemKey) :
  fromDocsKey keys ("changes/" ++ rest) ≠ .ok key
  := by
  intro h
  have hread := (fromDocsKey_eq_ok h).1
  rw [readKey_changes] at hread
  cases hread

/-! ### Changes -/

/-- The number that decimal digits stand for. -/
def numberOf (text : String) : ℕ :=
  text.toList.foldl (fun n c => 10 * n + (c.toNat - 48)) 0

theorem numberOf_threeDigits (h : n < accountSyncChangeWindow) :
  numberOf (threeDigits n) = n
  := by
  have hall : ∀ n < 256, numberOf (threeDigits n) = n := by
    decide +kernel
  apply hall n h

theorem threeDigits_ne_head (h : n < accountSyncChangeWindow) :
  threeDigits n ≠ "head"
  := by
  intro hhead
  have hnumber := numberOf_threeDigits h
  rw [hhead] at hnumber
  have hlarge : ¬ numberOf "head" < accountSyncChangeWindow := by
    decide
  rw [hnumber] at hlarge
  apply hlarge h

theorem changeKey_inj {deviceId deviceId' change change' : String}
    (h : '/' ∉ deviceId.toList) (h' : '/' ∉ deviceId'.toList)
    (heq : changeKey deviceId change = changeKey deviceId' change') :
  deviceId = deviceId' ∧ change = change'
  := by
  have hrest := append_right_inj.mp heq
  have hsplit : splitOnce '/' (deviceId ++ ("/" ++ change)) = some (deviceId, change) :=
    splitOnce_slash h
  rw [hrest, splitOnce_slash h'] at hsplit
  cases hsplit
  exact ⟨rfl, rfl⟩

/-- The keys of different changes are different. -/
theorem docsKey_inj_of_change (hchange : ¬ key.isMerged) (hchange' : ¬ key'.isMerged)
    (hvalid : key.validate keys = .ok ()) (hvalid' : key'.validate keys = .ok ())
    (heq : key.docsKey = key'.docsKey) :
  key = key'
  := by
  cases key with
  | changeSlot deviceId slot =>
    obtain ⟨hslot, hdevice⟩ := bailIf_bind_eq_ok.mp hvalid
    cases key' with
    | changeSlot deviceId' slot' =>
      obtain ⟨hslot', hdevice'⟩ := bailIf_bind_eq_ok.mp hvalid'
      obtain ⟨rfl, hdigits⟩ := changeKey_inj (slash_not_mem_deviceId hdevice)
        (slash_not_mem_deviceId hdevice') heq
      rw [← numberOf_threeDigits (not_not.mp hslot), hdigits,
        numberOf_threeDigits (not_not.mp hslot')]
    | changeHead deviceId' =>
      obtain ⟨-, hdigits⟩ := changeKey_inj (slash_not_mem_deviceId hdevice)
        (slash_not_mem_deviceId hvalid') heq
      exact absurd hdigits (threeDigits_ne_head (not_not.mp hslot))
    | _ => exact absurd rfl hchange'
  | changeHead deviceId =>
    cases key' with
    | changeSlot deviceId' slot' =>
      obtain ⟨hslot', hdevice'⟩ := bailIf_bind_eq_ok.mp hvalid'
      obtain ⟨-, hdigits⟩ := changeKey_inj (slash_not_mem_deviceId hvalid)
        (slash_not_mem_deviceId hdevice') heq
      exact absurd hdigits.symm (threeDigits_ne_head (not_not.mp hslot'))
    | changeHead deviceId' =>
      obtain ⟨rfl, -⟩ := changeKey_inj (slash_not_mem_deviceId hvalid)
        (slash_not_mem_deviceId hvalid') heq
      rfl
    | _ => exact absurd rfl hchange'
  | _ => exact absurd rfl hchange

theorem docsKey_ne_of_change (hmerged : key.isMerged) (hchange' : ¬ key'.isMerged)
    (hvalid : key.validate keys = .ok ()) :
  key.docsKey ≠ key'.docsKey
  := by
  intro heq
  have hread := fromDocsKey_docsKey hmerged hvalid
  rw [heq] at hread
  cases key' with
  | changeSlot deviceId slot | changeHead deviceId => apply fromDocsKey_changes_ne keys _ _ hread
  | _ => apply hchange' rfl

end AccountSyncItemKey

open AccountSyncItemKey

/-- The keys of items are a faithful key space: a merged item is read back from its key,
different items have different keys, only keys of items are read, and none of a change. -/
theorem docsKeys_faithful (keys : PublicKeys) :
  (∀ key : AccountSyncItemKey, key.isMerged → key.validate keys = .ok () →
      fromDocsKey keys key.docsKey = .ok key) ∧
    (∀ key key' : AccountSyncItemKey, key.validate keys = .ok () → key'.validate keys = .ok () →
      key.docsKey = key'.docsKey → key = key') ∧
    (∀ text key, fromDocsKey keys text = .ok key → key.docsKey = text) ∧
    ∀ rest key, fromDocsKey keys ("changes/" ++ rest) ≠ .ok key
  := by
  refine ⟨?_, ?_, ?_, ?_⟩
  · intro key hmerged hvalid
    apply fromDocsKey_docsKey hmerged hvalid
  · intro key key' hvalid hvalid' heq
    by_cases hmerged : key.isMerged
    · by_cases hmerged' : key'.isMerged
      · have hread := fromDocsKey_docsKey hmerged hvalid
        rw [heq, fromDocsKey_docsKey hmerged' hvalid'] at hread
        exact (Except.ok.inj hread).symm
      · exact absurd heq (docsKey_ne_of_change hmerged hmerged' hvalid)
    · by_cases hmerged' : key'.isMerged
      · exact absurd heq.symm (docsKey_ne_of_change hmerged' hmerged hvalid')
      · apply docsKey_inj_of_change hmerged hmerged' hvalid hvalid' heq
  · intro text key h
    apply (fromDocsKey_eq_ok h).2.2
  · intro rest key
    apply fromDocsKey_changes_ne

end Kukuri
