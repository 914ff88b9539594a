import Kukuri.Core.AccountSync
import Kukuri.Data.Bytes
import Kukuri.Data.Machine

/-!
# Archives of a device

A backup of a device is a stream of bytes: a magic text, a header in the clear, the manifest, the
entries in chunks, and an end mark. The manifest and the chunks are frames. A frame is encrypted
with its number as nonce, and authenticates the header and the number. All lengths are in the
clear.
-/

namespace Kukuri

open Result Bytes

def deviceBackupFormatVersion : ℕ := 1
def deviceBackupComponentVersion : ℕ := 2
def deviceBackupMinPassphraseChars : ℕ := 8
def deviceBackupChunkBytes : ℕ := 64 * 1024
def deviceBackupMaxEntryCount : ℕ := 100000
def deviceBackupMaxEntryBytes : ℕ := 8 * 1024 * 1024 * 1024
def deviceBackupMaxTotalBytes : ℕ := 16 * 1024 * 1024 * 1024

def magic : Bytes := "KUKURI-DEVICE-BACKUP".toUTF8.toList
def kdf : String := "argon2id"
def kdfMCostKib : ℕ := 65536
def kdfTCost : ℕ := 3
def kdfPCost : ℕ := 1
def kdfMaxMCostKib : ℕ := 2 ^ 20
def kdfMaxTCost : ℕ := 16
def kdfMaxPCost : ℕ := 8
def saltLen : ℕ := 16
def noncePrefixLen : ℕ := 16
def headerMaxBytes : ℕ := 4 * 1024
def manifestMaxBytes : ℕ := 8 * 1024 * 1024
def aeadTagBytes : ℕ := 16

/-! ### Data -/

structure DeviceBackupEntry where
  name : String
  bytes : ℕ
  blake3 : String
  deriving DecidableEq, Repr

structure DeviceBackupManifest where
  formatVersion : ℕ
  componentVersion : ℕ
  createdAt : ℤ
  appVersion : String
  publicKey : String
  accountLabel : Option String
  included : List String
  requiresReconsent : List String
  entries : List DeviceBackupEntry
  deriving DecidableEq, Repr

structure DeviceBackupHeader where
  version : ℕ
  kdf : String
  mCostKib : ℕ
  tCost : ℕ
  pCost : ℕ
  saltHex : String
  noncePrefixHex : String
  deriving DecidableEq, Repr

/-- The header of an archive that is written. -/
def newHeader (salt noncePrefix : Bytes) : DeviceBackupHeader where
  version := deviceBackupFormatVersion
  kdf := kdf
  mCostKib := kdfMCostKib
  tCost := kdfTCost
  pCost := kdfPCost
  saltHex := String.ofList (Hex.encodeBytes salt)
  noncePrefixHex := String.ofList (Hex.encodeBytes noncePrefix)

/-- What the archive is made with: the derivation of keys, the hash, the cipher, and JSON. -/
structure BackupPrimitives (Key : Type) where
  keys : PublicKeys
  /-- Whether the derivation accepts the costs. -/
  argon2Params : ℕ → ℕ → ℕ → Bool
  argon2 : String → Bytes → ℕ → ℕ → ℕ → Option Key
  blake3 : Bytes → Bytes
  /-- The ciphertext of a plaintext under a nonce and authenticated data, with its tag. -/
  encrypt : Key → Bytes → Bytes → Bytes → Bytes
  decrypt : Key → Bytes → Bytes → Bytes → Option Bytes
  encodeHeader : DeviceBackupHeader → Bytes
  decodeHeader : Bytes → Option DeviceBackupHeader
  encodeManifest : DeviceBackupManifest → Bytes
  decodeManifest : Bytes → Option DeviceBackupManifest
  length_blake3 : ∀ bytes, (blake3 bytes).length = 32
  length_encrypt : ∀ key nonce aad plaintext,
    (encrypt key nonce aad plaintext).length = plaintext.length + aeadTagBytes
  decode_encodeHeader : ∀ header, decodeHeader (encodeHeader header) = some header
  decode_encodeManifest : ∀ manifest, decodeManifest (encodeManifest manifest) = some manifest
  /-- The header has two texts of 32 digits, and everything else is fixed. -/
  length_newHeader : ∀ salt noncePrefix, salt.length = saltLen →
    noncePrefix.length = noncePrefixLen →
    0 < (encodeHeader (newHeader salt noncePrefix)).length ∧
      (encodeHeader (newHeader salt noncePrefix)).length ≤ headerMaxBytes

/-! ### Checks -/

def validateHeader (header : DeviceBackupHeader) : Result Unit := do
  bailIf (header.version ≠ deviceBackupFormatVersion)
    ("unsupported device backup version `" ++ toString header.version ++ "`")
  bailIf (header.kdf ≠ kdf) ("unsupported device backup kdf `" ++ header.kdf ++ "`")
  bailIf (kdfMaxMCostKib < header.mCostKib ∨ kdfMaxTCost < header.tCost ∨
      kdfMaxPCost < header.pCost)
    "device backup kdf parameters exceed supported bounds"

/-- Check the entries, given the names and the size of those before. -/
def validateEntries (names : List String) (total : ℕ) :
    List DeviceBackupEntry → Result Unit
  | [] => .ok ()
  | entry :: entries => do
    bailIf (entry.name = "" ∨ 512 < entry.name.utf8ByteSize ∨ entry.name ∈ names)
      "device backup contains an invalid or duplicate entry name"
    bailIf (deviceBackupMaxEntryBytes < entry.bytes)
      ("device backup entry `" ++ entry.name ++ "` exceeds supported size")
    bailIf (U64.greatest < total + entry.bytes) "device backup total size overflow"
    bailIf (deviceBackupMaxTotalBytes < total + entry.bytes)
      "device backup total size exceeds supported bounds"
    let hash ← context (Hex.decodeBytes entry.blake3.toList)
      ("invalid hash for device backup entry `" ++ entry.name ++ "`")
    bailIf (hash.length ≠ 32) ("invalid hash for device backup entry `" ++ entry.name ++ "`")
    validateEntries (entry.name :: names) (total + entry.bytes) entries

def validateManifest (keys : PublicKeys) (manifest : DeviceBackupManifest) : Result Unit := do
  bailIf (manifest.formatVersion ≠ deviceBackupFormatVersion)
    ("unsupported device backup manifest version `" ++ toString manifest.formatVersion ++ "`")
  bailIf (manifest.componentVersion ≠ deviceBackupComponentVersion)
    ("unsupported device backup component version `" ++ toString manifest.componentVersion ++ "`")
  bailIf (¬ keys.isKey manifest.publicKey) "invalid device backup public key"
  bailIf (manifest.entries = [] ∨ deviceBackupMaxEntryCount < manifest.entries.length)
    "device backup entry count exceeds supported bounds"
  validateEntries [] 0 manifest.entries

/-! ### Keys, nonces and authenticated data -/

section

variable {Key : Type} (primitives : BackupPrimitives Key)

def deriveKey (passphrase : String) (salt : Bytes) (mCostKib tCost pCost : ℕ) : Result Key := do
  bailIf (kdfMaxMCostKib < mCostKib ∨ kdfMaxTCost < tCost ∨ kdfMaxPCost < pCost)
    "device backup kdf parameters exceed supported bounds"
  bailIf (¬ primitives.argon2Params mCostKib tCost pCost) "invalid device backup kdf parameters"
  context (primitives.argon2 passphrase salt mCostKib tCost pCost)
    "failed to derive device backup key"

def nonce (noncePrefix : Bytes) (counter : ℕ) : Bytes := noncePrefix ++ littleEndian 8 counter

def frameAad (headerDigest : Bytes) (counter : ℕ) : Bytes :=
  headerDigest ++ littleEndian 8 counter

def decodeFixed (n : ℕ) (value label : String) : Result Bytes := do
  let decoded ← context (Hex.decodeBytes value.toList) ("invalid " ++ label)
  bailIf (decoded.length ≠ n) ("invalid " ++ label ++ " length")
  return decoded

/-- Bytes that have been written or are left, with the key and the number of the next frame. -/
structure DeviceBackupStream (Key : Type) where
  bytes : Bytes
  key : Key
  headerDigest : Bytes
  noncePrefix : Bytes
  counter : ℕ
  manifest : DeviceBackupManifest
  nextEntry : ℕ

def readU32 (input : Bytes) : Result (ℕ × Bytes) := do
  let (bytes, rest) ← readExact 4 input "truncated device backup framing"
  return (ofLittleEndian bytes, rest)

/-- The number of the next frame. -/
def nextCounter (counter : ℕ) : Result ℕ :=
  if counter + 1 ≤ U64.greatest then .ok (counter + 1)
  else .error (.bail "device backup frame counter overflow")

/-! ### The writer -/

namespace DeviceBackupStream

def writeEncryptedFrame (writer : DeviceBackupStream Key) (plaintext : Bytes) :
    Result (DeviceBackupStream Key) := do
  let ciphertext := primitives.encrypt writer.key (nonce writer.noncePrefix writer.counter)
    (frameAad writer.headerDigest writer.counter) plaintext
  let counter ← nextCounter writer.counter
  return { writer with
    bytes := writer.bytes ++ (littleEndian 4 ciphertext.length ++ ciphertext)
    counter }

/-- Start an archive with the given random bytes. -/
def new (passphrase : String) (salt noncePrefix : Bytes) (manifest : DeviceBackupManifest) :
    Result (DeviceBackupStream Key) := do
  validateManifest primitives.keys manifest
  bailIf (passphrase.length < deviceBackupMinPassphraseChars)
    "device backup passphrase must be at least 8 characters"
  let header := newHeader salt noncePrefix
  let headerBytes := primitives.encodeHeader header
  bailIf (headerMaxBytes < headerBytes.length) "device backup header exceeds supported size"
  let key ← deriveKey primitives passphrase salt header.mCostKib header.tCost header.pCost
  let headerDigest := primitives.blake3 headerBytes
  let manifestBytes := primitives.encodeManifest manifest
  bailIf (manifestMaxBytes < manifestBytes.length) "device backup manifest exceeds supported size"
  writeEncryptedFrame primitives
    { bytes := magic ++ (littleEndian 4 headerBytes.length ++ headerBytes)
      key, headerDigest, noncePrefix, manifest, counter := 0, nextEntry := 0 }
    manifestBytes

/-- Write what remains of an entry. Returns the rest of the data and the bytes that were hashed. -/
def writeChunks (name : String) (remaining : ℕ) (writer : DeviceBackupStream Key)
    (data hashed : Bytes) : Result (DeviceBackupStream Key × Bytes × Bytes) :=
  if _hdone : remaining = 0 then .ok (writer, data, hashed)
  else do
    let wanted := min remaining deviceBackupChunkBytes
    let (chunk, data) ← readExact wanted data ("device backup entry `" ++ name ++ "` is truncated")
    let writer ← writer.writeEncryptedFrame primitives chunk
    writeChunks name (remaining - wanted) writer data (hashed ++ chunk)
  termination_by remaining
  decreasing_by
    have hpos : 0 < deviceBackupChunkBytes := by decide
    omega

def writeEntry (writer : DeviceBackupStream Key) (data : Bytes) :
    Result (DeviceBackupStream Key) := do
  let expected ← context writer.manifest.entries[writer.nextEntry]?
    "device backup contains more entry data than its manifest"
  let (writer, extra, hashed) ← writeChunks primitives expected.name expected.bytes writer data []
  bailIf (extra ≠ []) ("device backup entry `" ++ expected.name ++ "` exceeds declared length")
  let actualHash := String.ofList (Hex.encodeBytes (primitives.blake3 hashed))
  bailIf (actualHash ≠ expected.blake3)
    ("device backup entry `" ++ expected.name ++ "` changed while it was read")
  return { writer with nextEntry := writer.nextEntry + 1 }

def finishWriting (writer : DeviceBackupStream Key) : Result Bytes := do
  bailIf (writer.nextEntry ≠ writer.manifest.entries.length)
    "device backup is missing declared entries"
  return writer.bytes ++ littleEndian 4 0

/-! ### The reader -/

def readEncryptedFrame (reader : DeviceBackupStream Key) (plaintextLimit : ℕ) :
    Result (Bytes × DeviceBackupStream Key) := do
  let (ciphertextLen, input) ← readU32 reader.bytes
  bailIf (ciphertextLen < aeadTagBytes ∨ plaintextLimit + aeadTagBytes < ciphertextLen)
    "device backup frame exceeds supported size"
  let (ciphertext, input) ← readExact ciphertextLen input "truncated device backup frame"
  let plaintext ← context
    (primitives.decrypt reader.key (nonce reader.noncePrefix reader.counter)
      (frameAad reader.headerDigest reader.counter) ciphertext)
    "failed to decrypt device backup: wrong passphrase or corrupted data"
  let counter ← nextCounter reader.counter
  return (plaintext, { reader with bytes := input, counter })

/-- The manifest of a reader that has not read it yet. -/
def emptyManifest : DeviceBackupManifest := ⟨0, 0, 0, "", "", none, [], [], []⟩

/-- Read the header and the manifest. -/
def openArchive (input : Bytes) (passphrase : String) : Result (DeviceBackupStream Key) := do
  let (start, input) ← readExact magic.length input "invalid or truncated device backup"
  bailIf (start ≠ magic) "unsupported device backup format or version"
  let (headerLen, input) ← readU32 input
  bailIf (headerLen = 0 ∨ headerMaxBytes < headerLen) "device backup header exceeds supported size"
  let (headerBytes, input) ← readExact headerLen input "truncated device backup header"
  let header ← context (primitives.decodeHeader headerBytes) "invalid device backup header"
  validateHeader header
  let salt ← decodeFixed saltLen header.saltHex "device backup salt"
  let noncePrefix ←
    decodeFixed noncePrefixLen header.noncePrefixHex "device backup nonce prefix"
  let key ← deriveKey primitives passphrase salt header.mCostKib header.tCost header.pCost
  let (plaintext, reader) ← readEncryptedFrame primitives
    { bytes := input, key, headerDigest := primitives.blake3 headerBytes, noncePrefix,
      manifest := emptyManifest, counter := 0, nextEntry := 0 }
    manifestMaxBytes
  let manifest ← context (primitives.decodeManifest plaintext) "invalid device backup manifest"
  validateManifest primitives.keys manifest
  return { reader with manifest }

/-- Read what remains of an entry, after the given bytes. -/
def readChunks (name : String) (remaining : ℕ) (reader : DeviceBackupStream Key)
    (written : Bytes) : Result (Bytes × DeviceBackupStream Key) :=
  if _hdone : remaining = 0 then .ok (written, reader)
  else
    match reader.readEncryptedFrame primitives deviceBackupChunkBytes with
    | .error e => .error e
    | .ok (plaintext, reader) =>
      if _hchunk : plaintext = [] ∨ remaining < plaintext.length then
        .error (.bail ("device backup entry `" ++ name ++ "` has an invalid chunk length"))
      else readChunks name (remaining - plaintext.length) reader (written ++ plaintext)
  termination_by remaining
  decreasing_by
    have hpos := List.length_pos_iff.mpr (not_or.mp _hchunk).1
    omega

def readEntry (reader : DeviceBackupStream Key) : Result (Bytes × DeviceBackupStream Key) := do
  let expected ← context reader.manifest.entries[reader.nextEntry]?
    "device backup contains more entry data than its manifest"
  let (data, reader) ← readChunks primitives expected.name expected.bytes reader []
  let actualHash := String.ofList (Hex.encodeBytes (primitives.blake3 data))
  bailIf (actualHash ≠ expected.blake3)
    ("device backup entry `" ++ expected.name ++ "` failed its integrity check")
  return (data, { reader with nextEntry := reader.nextEntry + 1 })

def finishReading (reader : DeviceBackupStream Key) : Result Unit := do
  bailIf (reader.nextEntry ≠ reader.manifest.entries.length)
    "device backup is missing declared entries"
  let (marker, input) ← readU32 reader.bytes
  bailIf (marker ≠ 0) "device backup contains undeclared entry data"
  bailIf (input ≠ []) "device backup contains trailing data"

/-! ### Whole archives -/

/-- Write the entries one after the other. -/
def writeEntries (writer : DeviceBackupStream Key) : List Bytes → Result (DeviceBackupStream Key)
  | [] => .ok writer
  | data :: entries => do
    let writer ← writer.writeEntry primitives data
    writeEntries writer entries

/-- Read the given number of entries. -/
def readEntries (reader : DeviceBackupStream Key) :
    ℕ → Result (List Bytes × DeviceBackupStream Key)
  | 0 => .ok ([], reader)
  | n + 1 => do
    let (data, reader) ← reader.readEntry primitives
    let (entries, reader) ← readEntries reader n
    return (data :: entries, reader)

end DeviceBackupStream

open DeviceBackupStream

/-- The archive of the entries. -/
def writeArchive (passphrase : String) (salt noncePrefix : Bytes)
    (manifest : DeviceBackupManifest) (entries : List Bytes) : Result Bytes := do
  let writer ← DeviceBackupStream.new primitives passphrase salt noncePrefix manifest
  let writer ← writer.writeEntries primitives entries
  writer.finishWriting

/-- The manifest and the entries of an archive. -/
def readArchive (passphrase : String) (input : Bytes) :
    Result (DeviceBackupManifest × List Bytes) := do
  let reader ← openArchive primitives input passphrase
  let (entries, reader) ← reader.readEntries primitives reader.manifest.entries.length
  reader.finishReading
  return (reader.manifest, entries)

end

end Kukuri
