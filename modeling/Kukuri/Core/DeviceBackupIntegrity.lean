import Kukuri.Core.DeviceBackup

/-!
# Archives are read back, and only these

The main result, `archives_faithful`, says that an archive is read back as it was written, and
that under the same passphrase no other bytes are accepted. The cipher is idealised: a ciphertext
is accepted only if it is a frame of the archive, with its nonce and authenticated data.
-/

namespace Kukuri

open Result Bytes List Option Except

variable {Key : Type} {primitives : BackupPrimitives Key}

/-! ### Frames -/

namespace DeviceBackupStream

/-- The bytes of a frame. -/
def frame (primitives : BackupPrimitives Key) (stream : DeviceBackupStream Key) (counter : ℕ)
    (plaintext : Bytes) : Bytes :=
  let ciphertext := primitives.encrypt stream.key (nonce stream.noncePrefix counter)
    (frameAad stream.headerDigest counter) plaintext
  littleEndian 4 ciphertext.length ++ ciphertext

/-- The bytes of frames one after the other. -/
def frames (primitives : BackupPrimitives Key) (stream : DeviceBackupStream Key) :
    ℕ → List Bytes → Bytes
  | _, [] => []
  | counter, plaintext :: plaintexts =>
    stream.frame primitives counter plaintext ++ stream.frames primitives (counter + 1) plaintexts

/-- The writer after the frames. -/
def wrote (primitives : BackupPrimitives Key) (writer : DeviceBackupStream Key)
    (plaintexts : List Bytes) : DeviceBackupStream Key :=
  { writer with
    bytes := writer.bytes ++ writer.frames primitives writer.counter plaintexts
    counter := writer.counter + plaintexts.length }

/-- The stream at an entry. -/
def atEntry (stream : DeviceBackupStream Key) (nextEntry : ℕ) : DeviceBackupStream Key :=
  { stream with nextEntry }

variable {stream writer reader : DeviceBackupStream Key}

theorem frames_append (counter : ℕ) (plaintexts plaintexts' : List Bytes) :
  stream.frames primitives counter (plaintexts ++ plaintexts') =
    stream.frames primitives counter plaintexts ++
      stream.frames primitives (counter + plaintexts.length) plaintexts'
  := by
  induction plaintexts generalizing counter with
  | nil => rfl
  | cons plaintext plaintexts ih =>
    rw [cons_append, frames, frames, ih, length_cons, append_assoc,
      Nat.add_right_comm, Nat.add_assoc]

/-- Frames depend on the key, the header and the nonces only. -/
theorem frames_congr {stream' : DeviceBackupStream Key} (hkey : stream'.key = stream.key)
    (hdigest : stream'.headerDigest = stream.headerDigest)
    (hnonce : stream'.noncePrefix = stream.noncePrefix) :
  stream'.frames primitives = stream.frames primitives
  := by
  funext counter plaintexts
  induction plaintexts generalizing counter with
  | nil => rfl
  | cons plaintext plaintexts ih => rw [frames, frames, ih, frame, frame, hkey, hdigest, hnonce]

theorem wrote_nil :
  writer.wrote primitives [] = writer
  := by
  rw [wrote, frames, append_nil]
  rfl

theorem wrote_append (plaintexts plaintexts' : List Bytes) :
  (writer.wrote primitives plaintexts).wrote primitives plaintexts' =
    writer.wrote primitives (plaintexts ++ plaintexts')
  := by
  have hframes : (writer.wrote primitives plaintexts).frames primitives =
      writer.frames primitives := frames_congr rfl rfl rfl
  rw [wrote, hframes]
  simp only [wrote, frames_append, append_assoc, length_append, Nat.add_assoc]

theorem wrote_atEntry (nextEntry : ℕ) (plaintexts : List Bytes) :
  (writer.atEntry nextEntry).wrote primitives plaintexts =
    (writer.wrote primitives plaintexts).atEntry nextEntry
  := by
  have hframes : (writer.atEntry nextEntry).frames primitives = writer.frames primitives :=
    frames_congr rfl rfl rfl
  rw [wrote, hframes]
  rfl

end DeviceBackupStream

open DeviceBackupStream

/-! ### What the writer writes -/

section

variable {passphrase : String} {salt noncePrefix : Bytes} {manifest : DeviceBackupManifest}
  {entries plaintexts next : List Bytes} {key : Key}
  {stream writer reader reader' : DeviceBackupStream Key}
  {plaintext rest written data input : Bytes} {limit : ℕ} {entry : DeviceBackupEntry} {u : Unit}

theorem nextCounter_eq {counter : ℕ} (h : counter < U64.greatest) :
  nextCounter counter = .ok (counter + 1)
  := if_pos h

theorem writeEncryptedFrame_eq (primitives : BackupPrimitives Key) (plaintext : Bytes)
    (h : writer.counter < U64.greatest) :
  writer.writeEncryptedFrame primitives plaintext = .ok (writer.wrote primitives [plaintext])
  := by
  simp only [writeEncryptedFrame, nextCounter_eq h, wrote, frames, frame, append_nil,
    length_singleton]
  rfl

theorem chunkBytes_pos : 0 < deviceBackupChunkBytes := by decide

/-- The data is written in chunks. -/
theorem writeChunks_eq (primitives : BackupPrimitives Key) (name : String)
    (data rest hashed : Bytes) (h : writer.counter + data.length ≤ U64.greatest) :
  writeChunks primitives name data.length writer (data ++ rest) hashed =
    .ok (writer.wrote primitives (chunks deviceBackupChunkBytes data), rest, hashed ++ data)
  := by
  induction hn : data.length using Nat.strong_induction_on generalizing data writer hashed with
  | _ n ih =>
    subst hn
    by_cases hnil : data = []
    · subst hnil
      rw [length_nil, writeChunks, dif_pos rfl, chunks_nil, wrote_nil, nil_append, append_nil]
    · have hpos := length_pos_iff.mpr hnil
      have hchunk := chunkBytes_pos
      have hread : readExact (min data.length deviceBackupChunkBytes) (data ++ rest)
          ("device backup entry `" ++ name ++ "` is truncated") =
          .ok (data.take deviceBackupChunkBytes, data.drop deviceBackupChunkBytes ++ rest) := by
        rw [readExact_eq_ok, ← append_assoc, take_append_drop, length_take, Nat.min_comm]
        exact ⟨rfl, rfl⟩
      have hrest : data.length - min data.length deviceBackupChunkBytes =
          (data.drop deviceBackupChunkBytes).length := by
        rw [length_drop]
        omega
      have hshorter : (data.drop deviceBackupChunkBytes).length < data.length := by
        omega
      have hcounter : (writer.wrote primitives [data.take deviceBackupChunkBytes]).counter +
          (data.drop deviceBackupChunkBytes).length ≤ U64.greatest := by
        simp only [wrote, length_singleton]
        omega
      have hstart : writer.counter < U64.greatest := by omega
      have hframe := writeEncryptedFrame_eq primitives (data.take deviceBackupChunkBytes) hstart
      rw [writeChunks, dif_neg (by omega)]
      refine bind_eq_ok.mpr ⟨_, hread, bind_eq_ok.mpr ⟨_, hframe, ?_⟩⟩
      rw [hrest, ih _ hshorter _ _ hcounter rfl, wrote_append, chunks_of_ne_nil hchunk hnil,
        append_assoc, take_append_drop]
      rfl

/-- The data is that of the entry. -/
structure EntryMatches (primitives : BackupPrimitives Key) (entry : DeviceBackupEntry)
    (data : Bytes) : Prop where
  bytes : entry.bytes = data.length
  blake3 : entry.blake3 = String.ofList (Hex.encodeBytes (primitives.blake3 data))

/-- The plaintexts of the frames of the entries. -/
def entryChunks (entries : List Bytes) : List Bytes :=
  entries.flatMap (chunks deviceBackupChunkBytes)

theorem entryChunks_cons (data : Bytes) (entries : List Bytes) :
  entryChunks (data :: entries) = chunks deviceBackupChunkBytes data ++ entryChunks entries
  := flatMap_cons

/-- The next entry has the next data. -/
theorem next_of_matches {declared : List DeviceBackupEntry} {n : ℕ}
    (h : List.Forall₂ (EntryMatches primitives) (declared.drop n) (data :: entries)) :
  ∃ entry, declared[n]? = some entry ∧ EntryMatches primitives entry data ∧
    List.Forall₂ (EntryMatches primitives) (declared.drop (n + 1)) entries
  := by
  obtain ⟨entry, rest, hentry, hrest, hdrop⟩ := forall₂_cons_right_iff.mp h
  refine ⟨entry, ?_, hentry, ?_⟩
  · rw [← head?_drop, hdrop]
    rfl
  · rw [← tail_drop, hdrop]
    exact hrest

theorem writeEntry_eq (hentry : writer.manifest.entries[writer.nextEntry]? = some entry)
    (hmatches : EntryMatches primitives entry data)
    (hcounter : writer.counter + data.length ≤ U64.greatest) :
  writer.writeEntry primitives data =
    .ok ((writer.wrote primitives (chunks deviceBackupChunkBytes data)).atEntry
      (writer.nextEntry + 1))
  := by
  have hchunks := writeChunks_eq primitives entry.name data [] [] hcounter
  rw [append_nil, ← hmatches.bytes, nil_append] at hchunks
  refine bind_eq_ok.mpr ⟨entry, context_eq_ok.mpr hentry, bind_eq_ok.mpr ⟨_, hchunks, ?_⟩⟩
  refine bailIf_bind_eq_ok.mpr ⟨fun h => h rfl, bailIf_bind_eq_ok.mpr ⟨?_, rfl⟩⟩
  exact fun h => h hmatches.blake3.symm

theorem writeEntries_eq
    (hmatches : List.Forall₂ (EntryMatches primitives)
      (writer.manifest.entries.drop writer.nextEntry) entries)
    (hcounter : writer.counter + (entries.map List.length).sum ≤ U64.greatest) :
  writer.writeEntries primitives entries =
    .ok ((writer.wrote primitives (entryChunks entries)).atEntry
      (writer.nextEntry + entries.length))
  := by
  induction entries generalizing writer with
  | nil => rw [writeEntries, entryChunks, flatMap_nil, wrote_nil, length_nil]; rfl
  | cons data entries ih =>
    obtain ⟨entry, hnext, hentry, hrest⟩ := next_of_matches hmatches
    rw [map_cons, sum_cons] at hcounter
    have hwritten := writeEntry_eq hnext hentry (by omega)
    have hlength := length_chunks_le chunkBytes_pos data
    have hremaining : List.Forall₂ (EntryMatches primitives)
        (((writer.wrote primitives (chunks deviceBackupChunkBytes data)).atEntry
          (writer.nextEntry + 1)).manifest.entries.drop (writer.nextEntry + 1)) entries := hrest
    refine bind_eq_ok.mpr ⟨_, hwritten, (ih hremaining ?_).trans ?_⟩
    · simp only [atEntry, wrote]
      omega
    · rw [wrote_atEntry, wrote_append, ← entryChunks_cons, length_cons, Nat.add_comm
        entries.length]
      simp only [atEntry, Nat.add_assoc]

/-! ### Sizes -/

/-- The entries of a manifest that is accepted are not too large together. -/
theorem sum_le_of_validateEntries {names : List String} {total : ℕ}
    {entries : List DeviceBackupEntry} (h : validateEntries names total entries = .ok u)
    (htotal : total ≤ deviceBackupMaxTotalBytes) :
  total + (entries.map DeviceBackupEntry.bytes).sum ≤ deviceBackupMaxTotalBytes
  := by
  induction entries generalizing names total with
  | nil => simpa using htotal
  | cons entry entries ih =>
    obtain ⟨_, h⟩ := bailIf_bind_eq_ok.mp h
    obtain ⟨_, h⟩ := bailIf_bind_eq_ok.mp h
    obtain ⟨_, h⟩ := bailIf_bind_eq_ok.mp h
    obtain ⟨hsize, h⟩ := bailIf_bind_eq_ok.mp h
    obtain ⟨_, _, h⟩ := bind_eq_ok.mp h
    obtain ⟨_, h⟩ := bailIf_bind_eq_ok.mp h
    rw [map_cons, sum_cons, ← Nat.add_assoc]
    exact ih h (not_lt.mp hsize)

theorem sum_le_of_validateManifest {keys : PublicKeys}
    (h : validateManifest keys manifest = .ok u) :
  (manifest.entries.map DeviceBackupEntry.bytes).sum ≤ deviceBackupMaxTotalBytes
  := by
  obtain ⟨_, h⟩ := bailIf_bind_eq_ok.mp h
  obtain ⟨_, h⟩ := bailIf_bind_eq_ok.mp h
  obtain ⟨_, h⟩ := bailIf_bind_eq_ok.mp h
  obtain ⟨_, h⟩ := bailIf_bind_eq_ok.mp h
  have hsum := sum_le_of_validateEntries h (Nat.zero_le _)
  rwa [Nat.zero_add] at hsum

theorem sum_bytes_eq {entries : List DeviceBackupEntry} {data : List Bytes}
    (h : List.Forall₂ (EntryMatches primitives) entries data) :
  (data.map List.length).sum = (entries.map DeviceBackupEntry.bytes).sum
  := by
  induction h with
  | nil => rfl
  | cons hentry _ ih => rw [map_cons, map_cons, sum_cons, sum_cons, ih, hentry.bytes]

/-! ### The archive -/

/-- The writer before the first frame. -/
def archiveStart (primitives : BackupPrimitives Key) (key : Key) (salt noncePrefix : Bytes)
    (manifest : DeviceBackupManifest) : DeviceBackupStream Key :=
  let headerBytes := primitives.encodeHeader (newHeader salt noncePrefix)
  { bytes := magic ++ (littleEndian 4 headerBytes.length ++ headerBytes)
    key, noncePrefix, manifest
    headerDigest := primitives.blake3 headerBytes
    counter := 0
    nextEntry := 0 }

/-- The plaintexts of all frames. -/
def archivePlaintexts (primitives : BackupPrimitives Key) (manifest : DeviceBackupManifest)
    (entries : List Bytes) : List Bytes :=
  primitives.encodeManifest manifest :: entryChunks entries

/-- The bytes of an archive. -/
def archiveBytes (primitives : BackupPrimitives Key) (key : Key) (salt noncePrefix : Bytes)
    (manifest : DeviceBackupManifest) (entries : List Bytes) : Bytes :=
  ((archiveStart primitives key salt noncePrefix manifest).wrote primitives
    (archivePlaintexts primitives manifest entries)).bytes ++ littleEndian 4 0

/-- What an archive is made of: a manifest that is accepted and not too large, the data of its
entries, a passphrase that is long enough, and the key that is derived from it. -/
structure Archivable (primitives : BackupPrimitives Key) (passphrase : String)
    (salt noncePrefix : Bytes) (manifest : DeviceBackupManifest) (entries : List Bytes)
    (key : Key) : Prop where
  accepted : validateManifest primitives.keys manifest = .ok ()
  size : (primitives.encodeManifest manifest).length ≤ manifestMaxBytes
  matching : List.Forall₂ (EntryMatches primitives) manifest.entries entries
  longEnough : deviceBackupMinPassphraseChars ≤ passphrase.length
  salt_length : salt.length = saltLen
  nonce_length : noncePrefix.length = noncePrefixLen
  derived : deriveKey primitives passphrase salt kdfMCostKib kdfTCost kdfPCost = .ok key

section

variable (h : Archivable primitives passphrase salt noncePrefix manifest entries key)
include h

/-- There are not too many frames. -/
theorem Archivable.sum_le :
  1 + (entries.map List.length).sum ≤ U64.greatest
  := by
  have hsum := sum_le_of_validateManifest h.accepted
  rw [← sum_bytes_eq h.matching] at hsum
  have hbound : 1 + deviceBackupMaxTotalBytes ≤ U64.greatest := by decide
  omega

theorem new_eq :
  DeviceBackupStream.new primitives passphrase salt noncePrefix manifest =
    .ok ((archiveStart primitives key salt noncePrefix manifest).wrote primitives
      [primitives.encodeManifest manifest])
  := by
  obtain ⟨_, hheader⟩ := primitives.length_newHeader salt noncePrefix h.salt_length h.nonce_length
  have hcounter : (archiveStart primitives key salt noncePrefix manifest).counter
      < U64.greatest := by
    change 0 < U64.greatest
    decide
  refine bind_eq_ok.mpr ⟨(), h.accepted, bailIf_bind_eq_ok.mpr ⟨not_lt.mpr h.longEnough, ?_⟩⟩
  refine bailIf_bind_eq_ok.mpr ⟨not_lt.mpr hheader, bind_eq_ok.mpr ⟨key, h.derived, ?_⟩⟩
  refine bailIf_bind_eq_ok.mpr ⟨not_lt.mpr h.size, ?_⟩
  exact writeEncryptedFrame_eq primitives _ hcounter

theorem writeArchive_eq :
  writeArchive primitives passphrase salt noncePrefix manifest entries =
    .ok (archiveBytes primitives key salt noncePrefix manifest entries)
  := by
  have hmatching : List.Forall₂ (EntryMatches primitives)
      (((archiveStart primitives key salt noncePrefix manifest).wrote primitives
        [primitives.encodeManifest manifest]).manifest.entries.drop 0) entries := h.matching
  have hcounter : ((archiveStart primitives key salt noncePrefix manifest).wrote primitives
      [primitives.encodeManifest manifest]).counter + (entries.map length).sum
        ≤ U64.greatest := h.sum_le
  have hwritten := writeEntries_eq hmatching hcounter
  refine bind_eq_ok.mpr ⟨_, new_eq h, bind_eq_ok.mpr ⟨_, hwritten, ?_⟩⟩
  rw [wrote_append]
  refine bailIf_bind_eq_ok.mpr ⟨?_, rfl⟩
  intro hmissing
  apply hmissing
  exact (Nat.zero_add _).trans h.matching.length_eq.symm

end

/-! ### What the reader reads -/

/-- The reader after frames. -/
def DeviceBackupStream.past (reader : DeviceBackupStream Key) (rest : Bytes)
    (plaintexts : List Bytes) : DeviceBackupStream Key :=
  { reader with bytes := rest, counter := reader.counter + plaintexts.length }

theorem readU32_eq_ok {n : ℕ} :
  readU32 input = .ok (n, rest) ↔ input = littleEndian 4 n ++ rest ∧ n < 256 ^ 4
  := by
  constructor
  · intro h
    obtain ⟨⟨bytes, rest'⟩, hread, hpair⟩ := bind_eq_ok.mp h
    obtain ⟨rfl, rfl⟩ := Prod.mk.inj (pure_eq_ok.mp hpair)
    obtain ⟨rfl, hlength⟩ := readExact_eq_ok.mp hread
    have hbytes := littleEndian_ofLittleEndian bytes
    have hlt := ofLittleEndian_lt bytes
    rw [hlength] at hbytes hlt
    rw [hbytes]
    exact ⟨rfl, hlt⟩
  · rintro ⟨rfl, hn⟩
    have hread : readExact 4 (littleEndian 4 n ++ rest) "truncated device backup framing" =
        .ok (littleEndian 4 n, rest) := readExact_eq_ok.mpr ⟨rfl, length_littleEndian 4 n⟩
    refine bind_eq_ok.mpr ⟨_, hread, pure_eq_ok.mpr ?_⟩
    rw [ofLittleEndian_littleEndian hn]

theorem nextCounter_eq_ok {counter next : ℕ} :
  nextCounter counter = .ok next ↔ counter < U64.greatest ∧ next = counter + 1
  := by
  unfold nextCounter
  split
  case isTrue h =>
    rw [ok.injEq]
    constructor
    · rintro rfl
      exact ⟨h, rfl⟩
    · rintro ⟨_, rfl⟩
      rfl
  case isFalse h =>
    constructor
    · rintro ⟨⟩
    · rintro ⟨hlt, _⟩
      exact absurd hlt h

/-- A frame is read: its length is in bounds, and it decrypts. -/
theorem readEncryptedFrame_eq_ok (hlimit : limit + aeadTagBytes < 256 ^ 4) :
  reader.readEncryptedFrame primitives limit = .ok (plaintext, reader') ↔
    ∃ ciphertext rest, reader.bytes = littleEndian 4 ciphertext.length ++ (ciphertext ++ rest) ∧
      aeadTagBytes ≤ ciphertext.length ∧ ciphertext.length ≤ limit + aeadTagBytes ∧
      primitives.decrypt reader.key (nonce reader.noncePrefix reader.counter)
        (frameAad reader.headerDigest reader.counter) ciphertext = some plaintext ∧
      reader.counter < U64.greatest ∧ reader' = reader.past rest [plaintext]
  := by
  constructor
  · intro h
    obtain ⟨⟨length, input⟩, hlength, h⟩ := bind_eq_ok.mp h
    obtain ⟨hbounds, h⟩ := bailIf_bind_eq_ok.mp h
    obtain ⟨⟨ciphertext, rest⟩, hread, h⟩ := bind_eq_ok.mp h
    obtain ⟨plaintext', hdecrypt, h⟩ := bind_eq_ok.mp h
    obtain ⟨counter, hcounter, h⟩ := bind_eq_ok.mp h
    obtain ⟨rfl, rfl⟩ := Prod.mk.inj (pure_eq_ok.mp h)
    obtain ⟨hinput, _⟩ := readU32_eq_ok.mp hlength
    obtain ⟨rfl, rfl⟩ := readExact_eq_ok.mp hread
    obtain ⟨hlt, rfl⟩ := nextCounter_eq_ok.mp hcounter
    rw [not_or, not_lt, not_lt] at hbounds
    exact ⟨ciphertext, rest, hinput, hbounds.1, hbounds.2, context_eq_ok.mp hdecrypt, hlt, rfl⟩
  · rintro ⟨ciphertext, rest, hinput, htag, hlength, hdecrypt, hlt, rfl⟩
    have hread : readU32 reader.bytes = .ok (ciphertext.length, ciphertext ++ rest) :=
      readU32_eq_ok.mpr ⟨hinput, by omega⟩
    refine bind_eq_ok.mpr ⟨_, hread, bailIf_bind_eq_ok.mpr ⟨?_, ?_⟩⟩
    · rw [not_or, not_lt, not_lt]
      exact ⟨htag, hlength⟩
    · have hciphertext : readExact ciphertext.length (ciphertext ++ rest)
          "truncated device backup frame" = .ok (ciphertext, rest) :=
        readExact_eq_ok.mpr ⟨rfl, rfl⟩
      refine bind_eq_ok.mpr ⟨_, hciphertext, bind_eq_ok.mpr ⟨_, context_eq_ok.mpr hdecrypt, ?_⟩⟩
      exact bind_eq_ok.mpr ⟨_, nextCounter_eq_ok.mpr ⟨hlt, rfl⟩, rfl⟩

/-! ### Reading back -/

/-- The frames of the stream decrypt to the plaintexts that they were made of. -/
def Decrypts (primitives : BackupPrimitives Key) (stream : DeviceBackupStream Key)
    (plaintexts : List Bytes) : Prop :=
  ∀ i plaintext, plaintexts[i]? = some plaintext →
    primitives.decrypt stream.key (nonce stream.noncePrefix i) (frameAad stream.headerDigest i)
      (primitives.encrypt stream.key (nonce stream.noncePrefix i)
        (frameAad stream.headerDigest i) plaintext) = some plaintext

/-- The reader has the key, the header and the nonces of the stream. -/
structure Unlocks (reader stream : DeviceBackupStream Key) : Prop where
  key : reader.key = stream.key
  headerDigest : reader.headerDigest = stream.headerDigest
  noncePrefix : reader.noncePrefix = stream.noncePrefix

theorem Unlocks.past (h : Unlocks reader stream) (rest : Bytes) (plaintexts : List Bytes) :
  Unlocks (reader.past rest plaintexts) stream
  := ⟨h.key, h.headerDigest, h.noncePrefix⟩

theorem past_past (rest rest' : Bytes) (plaintexts plaintexts' : List Bytes) :
  (reader.past rest plaintexts).past rest' plaintexts' =
    reader.past rest' (plaintexts ++ plaintexts')
  := by
  simp only [DeviceBackupStream.past, length_append, Nat.add_assoc]

/-- The next plaintexts of the stream, from the frame that the reader is at. -/
def NextAre (reader : DeviceBackupStream Key) (plaintexts next : List Bytes) : Prop :=
  next <+: plaintexts.drop reader.counter

theorem NextAre.head (h : NextAre reader plaintexts (plaintext :: next)) :
  plaintexts[reader.counter]? = some plaintext
  := by
  obtain ⟨more, hmore⟩ := h
  rw [← head?_drop, ← hmore]
  rfl

theorem NextAre.past {more : List Bytes} (h : NextAre reader plaintexts (next ++ more))
    (rest : Bytes) :
  NextAre (reader.past rest next) plaintexts more
  := by
  obtain ⟨after, hafter⟩ := h
  refine ⟨after, ?_⟩
  simp only [DeviceBackupStream.past]
  rw [← drop_drop, ← hafter, append_assoc, drop_left]

theorem NextAre.left {more : List Bytes} (h : NextAre reader plaintexts (next ++ more)) :
  NextAre reader plaintexts next
  := (prefix_append next more).trans h

theorem chunkLimit : deviceBackupChunkBytes + aeadTagBytes < 256 ^ 4 := by decide

theorem Unlocks.atEntry (h : Unlocks reader stream) (nextEntry : ℕ) :
  Unlocks (reader.atEntry nextEntry) stream
  := ⟨h.key, h.headerDigest, h.noncePrefix⟩

section

variable (hdecrypts : Decrypts primitives stream plaintexts)
  (hcounter : plaintexts.length ≤ U64.greatest)
include hdecrypts hcounter

/-- A frame of the stream is read. -/
theorem readEncryptedFrame_of_frame (hunlocks : Unlocks reader stream)
    (hnext : plaintexts[reader.counter]? = some plaintext)
    (hbytes : reader.bytes = stream.frame primitives reader.counter plaintext ++ rest)
    (hlimit : limit + aeadTagBytes < 256 ^ 4) (hlength : plaintext.length ≤ limit) :
  reader.readEncryptedFrame primitives limit = .ok (plaintext, reader.past rest [plaintext])
  := by
  apply (readEncryptedFrame_eq_ok hlimit).mpr
  refine ⟨_, rest, hbytes.trans (append_assoc _ _ _), ?_, ?_, ?_, ?_, rfl⟩
  · rw [primitives.length_encrypt]
    omega
  · rw [primitives.length_encrypt]
    omega
  · rw [hunlocks.key, hunlocks.headerDigest, hunlocks.noncePrefix]
    exact hdecrypts _ _ hnext
  · exact lt_of_lt_of_le (List.getElem?_eq_some_iff.mp hnext).1 hcounter

/-- The chunks of an entry are read one after the other. -/
theorem readChunks_of_frames (name : String) (written : Bytes)
    (hchunks : ∀ chunk ∈ next, chunk ≠ [] ∧ chunk.length ≤ deviceBackupChunkBytes)
    (hunlocks : Unlocks reader stream) (hnext : NextAre reader plaintexts next)
    (hbytes : reader.bytes = stream.frames primitives reader.counter next ++ rest) :
  readChunks primitives name next.flatten.length reader written =
    .ok (written ++ next.flatten, reader.past rest next)
  := by
  induction next generalizing reader written with
  | nil =>
    rw [flatten_nil, length_nil, readChunks, dif_pos rfl, append_nil]
    rw [frames, nil_append] at hbytes
    simp only [DeviceBackupStream.past, ← hbytes, length_nil, Nat.add_zero]
  | cons chunk next ih =>
    obtain ⟨hne, hle⟩ := hchunks chunk (.head _)
    have hpos := length_pos_iff.mpr hne
    have hlength : (chunk :: next).flatten.length = chunk.length + next.flatten.length := by
      rw [flatten_cons, length_append]
    rw [frames, append_assoc] at hbytes
    have hread := readEncryptedFrame_of_frame hdecrypts hcounter hunlocks hnext.head hbytes
      chunkLimit hle
    have hvalid : ¬ (chunk = [] ∨ (chunk :: next).flatten.length < chunk.length) := by
      rw [not_or, not_lt]
      exact ⟨hne, by omega⟩
    have hrest : NextAre reader plaintexts ([chunk] ++ next) := hnext
    rw [readChunks, dif_neg (by omega)]
    simp only [hread]
    rw [dif_neg hvalid, hlength, Nat.add_sub_cancel_left,
      ih _ (fun c hc => hchunks c (.tail _ hc)) (hunlocks.past _ _) (hrest.past _) rfl, past_past]
    rw [flatten_cons, append_assoc, singleton_append]

/-- The data of an entry is read. -/
theorem readEntry_of_frames (hentry : reader.manifest.entries[reader.nextEntry]? = some entry)
    (hmatches : EntryMatches primitives entry data) (hunlocks : Unlocks reader stream)
    (hnext : NextAre reader plaintexts (chunks deviceBackupChunkBytes data))
    (hbytes : reader.bytes =
      stream.frames primitives reader.counter (chunks deviceBackupChunkBytes data) ++ rest) :
  reader.readEntry primitives =
    .ok (data, (reader.past rest (chunks deviceBackupChunkBytes data)).atEntry
      (reader.nextEntry + 1))
  := by
  obtain ⟨hflatten, hchunks⟩ := chunks_spec chunkBytes_pos data
  have hread := readChunks_of_frames hdecrypts hcounter entry.name [] hchunks hunlocks hnext hbytes
  rw [hflatten, ← hmatches.bytes, nil_append] at hread
  refine bind_eq_ok.mpr ⟨entry, context_eq_ok.mpr hentry, bind_eq_ok.mpr ⟨_, hread, ?_⟩⟩
  refine bailIf_bind_eq_ok.mpr ⟨fun h => h hmatches.blake3.symm, rfl⟩

/-- The entries are read one after the other. -/
theorem readEntries_of_frames
    (hmatches : List.Forall₂ (EntryMatches primitives)
      (reader.manifest.entries.drop reader.nextEntry) entries)
    (hunlocks : Unlocks reader stream) (hnext : NextAre reader plaintexts (entryChunks entries))
    (hbytes : reader.bytes =
      stream.frames primitives reader.counter (entryChunks entries) ++ rest) :
  reader.readEntries primitives entries.length =
    .ok (entries, (reader.past rest (entryChunks entries)).atEntry
      (reader.nextEntry + entries.length))
  := by
  induction entries generalizing reader with
  | nil =>
    rw [entryChunks, flatMap_nil, frames, nil_append] at hbytes
    rw [length_nil, readEntries, ← hbytes]
    rfl
  | cons data entries ih =>
    obtain ⟨entry, hentry, hdata, hrest⟩ := next_of_matches hmatches
    rw [entryChunks_cons] at hnext hbytes ⊢
    rw [frames_append, append_assoc] at hbytes
    have hread := readEntry_of_frames hdecrypts hcounter hentry hdata hunlocks hnext.left hbytes
    set next := stream.frames primitives
      (reader.counter + (chunks deviceBackupChunkBytes data).length) (entryChunks entries) ++ rest
    have hunlocks' := (hunlocks.past next (chunks deviceBackupChunkBytes data)).atEntry
      (reader.nextEntry + 1)
    have hentries := ih hrest hunlocks' (hnext.past next) rfl
    refine bind_eq_ok.mpr ⟨_, hread, bind_eq_ok.mpr ⟨_, hentries, ?_⟩⟩
    rw [← past_past next, length_cons, Nat.add_comm entries.length, ← Nat.add_assoc]
    rfl

end

/-! ### Round trip -/

theorem decodeFixed_encodeBytes {n : ℕ} {bytes : Bytes} (h : bytes.length = n) (label : String) :
  decodeFixed n (String.ofList (Hex.encodeBytes bytes)) label = .ok bytes
  := by
  refine bind_eq_ok.mpr ⟨bytes, context_eq_ok.mpr (Hex.decodeBytes_ofList bytes), ?_⟩
  exact bailIf_bind_eq_ok.mpr ⟨fun hne => hne h, rfl⟩

/-- The reader before the first frame. -/
def opened (primitives : BackupPrimitives Key) (key : Key) (headerBytes noncePrefix rest : Bytes) :
    DeviceBackupStream Key :=
  { bytes := rest, key, headerDigest := primitives.blake3 headerBytes, noncePrefix,
    manifest := emptyManifest, counter := 0, nextEntry := 0 }

/-- An archive is opened: it starts with the magic and a header that is accepted, and the first
frame is a manifest that is accepted. -/
theorem openArchive_eq_ok :
  openArchive primitives input passphrase = .ok reader ↔
    ∃ headerBytes rest header salt noncePrefix key plaintext reader' manifest,
      input = magic ++ (littleEndian 4 headerBytes.length ++ (headerBytes ++ rest)) ∧
      0 < headerBytes.length ∧ headerBytes.length ≤ headerMaxBytes ∧
      primitives.decodeHeader headerBytes = some header ∧ validateHeader header = .ok () ∧
      decodeFixed saltLen header.saltHex "device backup salt" = .ok salt ∧
      decodeFixed noncePrefixLen header.noncePrefixHex "device backup nonce prefix" =
        .ok noncePrefix ∧
      deriveKey primitives passphrase salt header.mCostKib header.tCost header.pCost = .ok key ∧
      (opened primitives key headerBytes noncePrefix rest).readEncryptedFrame primitives
        manifestMaxBytes = .ok (plaintext, reader') ∧
      primitives.decodeManifest plaintext = some manifest ∧
      validateManifest primitives.keys manifest = .ok () ∧ reader = { reader' with manifest }
  := by
  constructor
  · intro h
    obtain ⟨⟨start, input⟩, hstart, h⟩ := bind_eq_ok.mp h
    obtain ⟨hmagic, h⟩ := bailIf_bind_eq_ok.mp h
    obtain ⟨⟨headerLen, input⟩, hlen, h⟩ := bind_eq_ok.mp h
    obtain ⟨hbounds, h⟩ := bailIf_bind_eq_ok.mp h
    obtain ⟨⟨headerBytes, rest⟩, hbytes, h⟩ := bind_eq_ok.mp h
    obtain ⟨header, hdecode, h⟩ := bind_eq_ok.mp h
    obtain ⟨_, hvalid, h⟩ := bind_eq_ok.mp h
    obtain ⟨salt, hsalt, h⟩ := bind_eq_ok.mp h
    obtain ⟨noncePrefix, hnonce, h⟩ := bind_eq_ok.mp h
    obtain ⟨key, hkey, h⟩ := bind_eq_ok.mp h
    obtain ⟨⟨plaintext, reader'⟩, hframe, h⟩ := bind_eq_ok.mp h
    obtain ⟨manifest, hmanifest, h⟩ := bind_eq_ok.mp h
    obtain ⟨_, haccepted, h⟩ := bind_eq_ok.mp h
    have hreader := pure_eq_ok.mp h
    obtain ⟨rfl, _⟩ := readExact_eq_ok.mp hstart
    obtain ⟨rfl, _⟩ := readU32_eq_ok.mp hlen
    obtain ⟨rfl, rfl⟩ := readExact_eq_ok.mp hbytes
    rw [ne_eq, not_not] at hmagic
    rw [not_or, not_lt] at hbounds
    exact ⟨headerBytes, rest, header, salt, noncePrefix, key, plaintext, reader', manifest,
      by rw [hmagic], Nat.pos_of_ne_zero hbounds.1, hbounds.2, context_eq_ok.mp hdecode, hvalid,
      hsalt, hnonce, hkey, hframe, context_eq_ok.mp hmanifest, haccepted,
      hreader.symm⟩
  · rintro ⟨headerBytes, rest, header, salt, noncePrefix, key, plaintext, reader', manifest,
      rfl, hpos, hle, hdecode, hvalid, hsalt, hnonce, hkey, hframe, hmanifest, haccepted, rfl⟩
    have hsize : headerBytes.length < 256 ^ 4 := by
      have hmax : headerMaxBytes < 256 ^ 4 := by decide
      omega
    refine bind_eq_ok.mpr ⟨_, readExact_eq_ok.mpr ⟨rfl, rfl⟩, ?_⟩
    refine bailIf_bind_eq_ok.mpr ⟨fun h => h rfl, ?_⟩
    refine bind_eq_ok.mpr ⟨_, readU32_eq_ok.mpr ⟨rfl, hsize⟩, ?_⟩
    refine bailIf_bind_eq_ok.mpr ⟨by rw [not_or, not_lt]; exact ⟨hpos.ne', hle⟩, ?_⟩
    refine bind_eq_ok.mpr ⟨_, readExact_eq_ok.mpr ⟨rfl, rfl⟩, ?_⟩
    refine bind_eq_ok.mpr ⟨header, context_eq_ok.mpr hdecode, bind_eq_ok.mpr ⟨(), hvalid, ?_⟩⟩
    refine bind_eq_ok.mpr ⟨salt, hsalt, bind_eq_ok.mpr ⟨noncePrefix, hnonce, ?_⟩⟩
    refine bind_eq_ok.mpr ⟨key, hkey, bind_eq_ok.mpr ⟨_, hframe, ?_⟩⟩
    exact bind_eq_ok.mpr ⟨manifest, context_eq_ok.mpr hmanifest,
      bind_eq_ok.mpr ⟨(), haccepted, rfl⟩⟩

theorem finishReading_eq_ok :
  reader.finishReading = .ok u ↔
    reader.nextEntry = reader.manifest.entries.length ∧ reader.bytes = littleEndian 4 0
  := by
  constructor
  · intro h
    obtain ⟨hentries, h⟩ := bailIf_bind_eq_ok.mp h
    obtain ⟨⟨marker, input⟩, hread, h⟩ := bind_eq_ok.mp h
    obtain ⟨hmarker, h⟩ := bailIf_bind_eq_ok.mp h
    obtain ⟨hbytes, _⟩ := readU32_eq_ok.mp hread
    rw [ne_eq, not_not] at hentries hmarker
    have hinput := not_not.mp (bailIf_eq_ok.mp h)
    subst hmarker hinput
    exact ⟨hentries, hbytes.trans (append_nil _)⟩
  · rintro ⟨hentries, hbytes⟩
    have hread : readU32 reader.bytes = .ok (0, []) :=
      readU32_eq_ok.mpr ⟨hbytes.trans (append_nil _).symm, by decide⟩
    refine bailIf_bind_eq_ok.mpr ⟨fun h => h hentries, bind_eq_ok.mpr ⟨_, hread, ?_⟩⟩
    exact bailIf_bind_eq_ok.mpr ⟨fun h => h rfl, bailIf_eq_ok.mpr fun h => h rfl⟩

theorem archiveBytes_eq (primitives : BackupPrimitives Key) (key : Key) (salt noncePrefix : Bytes)
    (manifest : DeviceBackupManifest) (entries : List Bytes) :
  archiveBytes primitives key salt noncePrefix manifest entries =
    magic ++ (littleEndian 4 (primitives.encodeHeader (newHeader salt noncePrefix)).length ++
      (primitives.encodeHeader (newHeader salt noncePrefix) ++
        ((archiveStart primitives key salt noncePrefix manifest).frames primitives 0
          (archivePlaintexts primitives manifest entries) ++ littleEndian 4 0)))
  := by
  simp only [archiveBytes, wrote, archiveStart, append_assoc]

theorem length_entryChunks_le (entries : List Bytes) :
  (entryChunks entries).length ≤ (entries.map List.length).sum
  := by
  induction entries with
  | nil => exact Nat.zero_le _
  | cons data entries ih =>
    rw [entryChunks_cons, length_append, map_cons, sum_cons]
    exact Nat.add_le_add (length_chunks_le chunkBytes_pos data) ih

theorem Archivable.length_le
    (h : Archivable primitives passphrase salt noncePrefix manifest entries key) :
  (archivePlaintexts primitives manifest entries).length ≤ U64.greatest
  := by
  have hsum := h.sum_le
  have hchunks := length_entryChunks_le entries
  rw [archivePlaintexts, length_cons]
  omega

theorem manifestLimit : manifestMaxBytes + aeadTagBytes < 256 ^ 4 := by decide

theorem validateHeader_newHeader (salt noncePrefix : Bytes) :
  validateHeader (newHeader salt noncePrefix) = .ok ()
  := by
  refine bailIf_bind_eq_ok.mpr ⟨fun h => h rfl, bailIf_bind_eq_ok.mpr ⟨fun h => h rfl, ?_⟩⟩
  apply bailIf_eq_ok.mpr
  simp only [newHeader]
  decide

/-- An archive is read back. -/
theorem readArchive_archiveBytes
    (h : Archivable primitives passphrase salt noncePrefix manifest entries key)
    (hdecrypts : Decrypts primitives (archiveStart primitives key salt noncePrefix manifest)
      (archivePlaintexts primitives manifest entries)) :
  readArchive primitives passphrase
    (archiveBytes primitives key salt noncePrefix manifest entries) = .ok (manifest, entries)
  := by
  set start := archiveStart primitives key salt noncePrefix manifest
  set headerBytes := primitives.encodeHeader (newHeader salt noncePrefix)
  set rest := start.frames primitives 1 (entryChunks entries) ++ littleEndian 4 0
  set reader := opened primitives key headerBytes noncePrefix
    (start.frames primitives 0 (archivePlaintexts primitives manifest entries) ++ littleEndian 4 0)
  have hunlocks : Unlocks reader start := ⟨rfl, rfl, rfl⟩
  obtain ⟨hpos, hle⟩ := primitives.length_newHeader salt noncePrefix h.salt_length h.nonce_length
  have hframe : reader.readEncryptedFrame primitives manifestMaxBytes =
      .ok (primitives.encodeManifest manifest,
        reader.past rest [primitives.encodeManifest manifest]) := by
    apply readEncryptedFrame_of_frame hdecrypts h.length_le hunlocks rfl _ manifestLimit h.size
    exact append_assoc _ _ _
  have hopen : openArchive primitives
      (archiveBytes primitives key salt noncePrefix manifest entries) passphrase =
      .ok { reader.past rest [primitives.encodeManifest manifest] with manifest } := by
    apply openArchive_eq_ok.mpr
    exact ⟨headerBytes, _, newHeader salt noncePrefix, salt, noncePrefix, key,
      primitives.encodeManifest manifest, _, manifest, archiveBytes_eq .., hpos, hle,
      primitives.decode_encodeHeader _, validateHeader_newHeader _ _,
      decodeFixed_encodeBytes h.salt_length _, decodeFixed_encodeBytes h.nonce_length _,
      h.derived, hframe, primitives.decode_encodeManifest _, h.accepted, rfl⟩
  set reader' : DeviceBackupStream Key :=
    { reader.past rest [primitives.encodeManifest manifest] with manifest }
  have hentries : reader'.readEntries primitives entries.length =
      .ok (entries, (reader'.past (littleEndian 4 0) (entryChunks entries)).atEntry
        (0 + entries.length)) :=
    readEntries_of_frames hdecrypts h.length_le h.matching ⟨rfl, rfl, rfl⟩ (prefix_refl _) rfl
  rw [← h.matching.length_eq] at hentries
  refine bind_eq_ok.mpr ⟨_, hopen, bind_eq_ok.mpr ⟨_, hentries, bind_eq_ok.mpr ⟨(), ?_, rfl⟩⟩⟩
  apply finishReading_eq_ok.mpr
  exact ⟨Nat.zero_add _, rfl⟩

/-! ### Tampering -/

/-- The cipher is ideal: what decrypts under a nonce and authenticated data is a frame that was
made with them. -/
def Genuine (primitives : BackupPrimitives Key) (stream : DeviceBackupStream Key)
    (plaintexts : List Bytes) : Prop :=
  ∀ key nonce' aad ciphertext plaintext,
    primitives.decrypt key nonce' aad ciphertext = some plaintext →
    ∃ i original, plaintexts[i]? = some original ∧ nonce' = nonce stream.noncePrefix i ∧
      aad = frameAad stream.headerDigest i ∧
      ciphertext = primitives.encrypt stream.key nonce' aad original

/-- The authenticated data has the header and the number of the frame. -/
theorem frameAad_inj {digest digest' : Bytes} {i j : ℕ} (hi : i ≤ U64.greatest)
    (hj : j ≤ U64.greatest) (hlength : digest.length = digest'.length)
    (h : frameAad digest i = frameAad digest' j) :
  digest = digest' ∧ i = j
  := by
  obtain ⟨hdigest, hcounter⟩ := append_inj h hlength
  have hbound : U64.greatest < 256 ^ 8 := by decide
  exact ⟨hdigest, littleEndian_inj (by omega) (by omega) hcounter⟩

section

variable (hgenuine : Genuine primitives stream plaintexts)
  (hdecrypts : Decrypts primitives stream plaintexts) (hcounter : plaintexts.length ≤ U64.greatest)
include hgenuine hdecrypts hcounter

/-- A frame that is accepted is the frame with that number. -/
theorem frame_of_readEncryptedFrame (hunlocks : Unlocks reader stream)
    (hlimit : limit + aeadTagBytes < 256 ^ 4)
    (hread : reader.readEncryptedFrame primitives limit = .ok (plaintext, reader')) :
  ∃ rest, plaintexts[reader.counter]? = some plaintext ∧
    reader.bytes = stream.frame primitives reader.counter plaintext ++ rest ∧
    reader' = reader.past rest [plaintext]
  := by
  obtain ⟨ciphertext, rest, hbytes, _, _, hplaintext, hlt, hreader'⟩ :=
    (readEncryptedFrame_eq_ok hlimit).mp hread
  obtain ⟨i, original, hi, _, haad, hciphertext⟩ := hgenuine _ _ _ _ _ hplaintext
  have hsmall := (List.getElem?_eq_some_iff.mp hi).1
  rw [hunlocks.headerDigest] at haad
  obtain ⟨_, rfl⟩ := frameAad_inj hlt.le (by omega) rfl haad
  have horiginal := hdecrypts _ _ hi
  rw [hunlocks.key, hunlocks.headerDigest, hunlocks.noncePrefix] at hplaintext
  rw [hunlocks.headerDigest, hunlocks.noncePrefix] at hciphertext
  rw [← hciphertext, hplaintext, Option.some.injEq] at horiginal
  subst horiginal
  refine ⟨rest, hi, ?_, hreader'⟩
  rw [hbytes, frame, ← hciphertext, List.append_assoc]

/-- What is read of an entry are its chunks. -/
theorem frames_of_readChunks {name : String} (hchunks : ∀ chunk ∈ next, chunk ≠ [])
    (hunlocks : Unlocks reader stream) (hnext : NextAre reader plaintexts next)
    (hread : readChunks primitives name next.flatten.length reader written =
      .ok (data, reader')) :
  ∃ rest, reader.bytes = stream.frames primitives reader.counter next ++ rest ∧
    data = written ++ next.flatten ∧ reader' = reader.past rest next
  := by
  induction next generalizing reader written with
  | nil =>
    rw [flatten_nil, length_nil, readChunks, dif_pos rfl, ok.injEq] at hread
    obtain ⟨rfl, rfl⟩ := Prod.mk.inj hread
    exact ⟨reader.bytes, rfl, (append_nil _).symm, rfl⟩
  | cons chunk next ih =>
    have hpos := length_pos_iff.mpr (hchunks chunk (.head _))
    have hlength : (chunk :: next).flatten.length = chunk.length + next.flatten.length := by
      rw [flatten_cons, length_append]
    rw [readChunks, dif_neg (by omega)] at hread
    cases hframe : reader.readEncryptedFrame primitives deviceBackupChunkBytes with
    | error e =>
      rw [hframe] at hread
      cases hread
    | ok frame =>
      obtain ⟨plaintext, reader''⟩ := frame
      obtain ⟨rest, hplaintext, hbytes, rfl⟩ :=
        frame_of_readEncryptedFrame hgenuine hdecrypts hcounter hunlocks chunkLimit hframe
      rw [hnext.head, some.injEq] at hplaintext
      subst hplaintext
      simp only [hframe] at hread
      split at hread
      case isTrue h => cases hread
      case isFalse h =>
        have hrest : NextAre reader plaintexts ([chunk] ++ next) := hnext
        rw [hlength, Nat.add_sub_cancel_left] at hread
        obtain ⟨rest', hbytes', hdata, hreader'⟩ := ih (fun c hc => hchunks c (.tail _ hc))
          (hunlocks.past _ _) (hrest.past _) hread
        refine ⟨rest', ?_, ?_, ?_⟩
        · rw [hbytes, frames, append_assoc]
          exact congrArg _ hbytes'
        · rw [hdata, flatten_cons, append_assoc]
        · rw [hreader', past_past]
          rfl

/-- What is read of an entry is its data. -/
theorem frames_of_readEntry {original : Bytes}
    (hentry : reader.manifest.entries[reader.nextEntry]? = some entry)
    (hmatches : EntryMatches primitives entry original) (hunlocks : Unlocks reader stream)
    (hnext : NextAre reader plaintexts (chunks deviceBackupChunkBytes original))
    (hread : reader.readEntry primitives = .ok (data, reader')) :
  ∃ rest, reader.bytes =
      stream.frames primitives reader.counter (chunks deviceBackupChunkBytes original) ++ rest ∧
    data = original ∧
    reader' = (reader.past rest (chunks deviceBackupChunkBytes original)).atEntry
      (reader.nextEntry + 1)
  := by
  obtain ⟨hflatten, hchunks⟩ := chunks_spec chunkBytes_pos original
  obtain ⟨expected, hexpected, hread⟩ := bind_eq_ok.mp hread
  obtain ⟨⟨data', reader''⟩, hchunked, hread⟩ := bind_eq_ok.mp hread
  obtain ⟨_, hread⟩ := bailIf_bind_eq_ok.mp hread
  obtain ⟨rfl, rfl⟩ := Prod.mk.inj (pure_eq_ok.mp hread)
  have hsame := context_eq_ok.mp hexpected
  rw [hentry, some.injEq] at hsame
  subst hsame
  rw [hmatches.bytes, ← congrArg length hflatten] at hchunked
  obtain ⟨rest, hbytes, hdata, rfl⟩ := frames_of_readChunks hgenuine hdecrypts hcounter
    (fun chunk hchunk => (hchunks chunk hchunk).1) hunlocks hnext hchunked
  rw [nil_append, hflatten] at hdata
  exact ⟨rest, hbytes, hdata, rfl⟩

theorem frames_of_readEntries {read : List Bytes}
    (hmatches : List.Forall₂ (EntryMatches primitives)
      (reader.manifest.entries.drop reader.nextEntry) entries)
    (hunlocks : Unlocks reader stream) (hnext : NextAre reader plaintexts (entryChunks entries))
    (hread : reader.readEntries primitives entries.length = .ok (read, reader')) :
  ∃ rest, reader.bytes =
      stream.frames primitives reader.counter (entryChunks entries) ++ rest ∧
    read = entries ∧
    reader' = (reader.past rest (entryChunks entries)).atEntry (reader.nextEntry + entries.length)
  := by
  induction entries generalizing reader read with
  | nil =>
    rw [length_nil, readEntries, ok.injEq] at hread
    obtain ⟨rfl, rfl⟩ := Prod.mk.inj hread
    exact ⟨reader.bytes, rfl, rfl, rfl⟩
  | cons data entries ih =>
    obtain ⟨entry, hentry, hdata, hrest⟩ := next_of_matches hmatches
    rw [entryChunks_cons] at hnext ⊢
    obtain ⟨⟨data', reader₁⟩, hfirst, hread⟩ := bind_eq_ok.mp hread
    obtain ⟨⟨read', reader₂⟩, hlater, hread⟩ := bind_eq_ok.mp hread
    obtain ⟨rfl, rfl⟩ := Prod.mk.inj (pure_eq_ok.mp hread)
    obtain ⟨rest, hbytes, rfl, rfl⟩ :=
      frames_of_readEntry hgenuine hdecrypts hcounter hentry hdata hunlocks hnext.left hfirst
    obtain ⟨rest', hbytes', rfl, rfl⟩ := ih hrest
      ((hunlocks.past rest _).atEntry (reader.nextEntry + 1)) (hnext.past rest) hlater
    refine ⟨rest', ?_, rfl, ?_⟩
    · rw [hbytes, frames_append, append_assoc]
      exact congrArg _ hbytes'
    · rw [← past_past rest, length_cons, Nat.add_comm read'.length, ← Nat.add_assoc]
      rfl

end

/-- No part of the input collides with the header. -/
def HeaderUnmatched (primitives : BackupPrimitives Key) (headerBytes input : Bytes) : Prop :=
  ∀ part, part <:+: input → primitives.blake3 part = primitives.blake3 headerBytes →
    part = headerBytes

section

variable (h : Archivable primitives passphrase salt noncePrefix manifest entries key)
  (hdecrypts : Decrypts primitives (archiveStart primitives key salt noncePrefix manifest)
    (archivePlaintexts primitives manifest entries))
  (hgenuine : Genuine primitives (archiveStart primitives key salt noncePrefix manifest)
    (archivePlaintexts primitives manifest entries))
  (hfree : HeaderUnmatched primitives (primitives.encodeHeader (newHeader salt noncePrefix)) input)
include h hdecrypts hgenuine hfree

/-- An input that is opened has the header and the manifest of the archive. -/
theorem openArchive_genuine (hopen : openArchive primitives input passphrase = .ok reader) :
  ∃ rest, input =
      magic ++ (littleEndian 4 (primitives.encodeHeader (newHeader salt noncePrefix)).length ++
        (primitives.encodeHeader (newHeader salt noncePrefix) ++
          ((archiveStart primitives key salt noncePrefix manifest).frame primitives 0
            (primitives.encodeManifest manifest) ++ rest))) ∧
    reader =
      { archiveStart primitives key salt noncePrefix manifest with bytes := rest, counter := 1 }
  := by
  set start := archiveStart primitives key salt noncePrefix manifest
  set originalBytes := primitives.encodeHeader (newHeader salt noncePrefix)
  obtain ⟨headerBytes, rest, header, salt', noncePrefix', key', plaintext, reader', manifest',
    rfl, _, _, hheader, _, hsalt, hnonce, hkey, hframe, hmanifest, _, rfl⟩ :=
    openArchive_eq_ok.mp hopen
  -- The first frame authenticates the header.
  have hsameHeader : headerBytes = originalBytes := by
    obtain ⟨ciphertext, _, _, _, _, hplaintext, hlt, _⟩ :=
      (readEncryptedFrame_eq_ok manifestLimit).mp hframe
    obtain ⟨i, _, hi, _, haad, _⟩ := hgenuine _ _ _ _ _ hplaintext
    have hsmall := (List.getElem?_eq_some_iff.mp hi).1
    have hlength : (opened primitives key' headerBytes noncePrefix' rest).headerDigest.length =
        start.headerDigest.length :=
      (primitives.length_blake3 _).trans (primitives.length_blake3 _).symm
    obtain ⟨hdigest, _⟩ := frameAad_inj hlt.le (hsmall.le.trans h.length_le) hlength haad
    refine hfree headerBytes ⟨magic ++ littleEndian 4 headerBytes.length, rest, ?_⟩ hdigest
    simp only [append_assoc]
  subst hsameHeader
  rw [primitives.decode_encodeHeader, some.injEq] at hheader
  subst hheader
  have hsalt' : salt' = salt :=
    ok.inj (hsalt.symm.trans (decodeFixed_encodeBytes h.salt_length _))
  have hnonce' : noncePrefix' = noncePrefix :=
    ok.inj (hnonce.symm.trans (decodeFixed_encodeBytes h.nonce_length _))
  subst hsalt' hnonce'
  have hkey' : key' = key := ok.inj (hkey.symm.trans h.derived)
  subst hkey'
  have hunlocks : Unlocks (opened primitives key' originalBytes noncePrefix' rest) start :=
    ⟨rfl, rfl, rfl⟩
  obtain ⟨rest', hplaintext, hbytes, rfl⟩ := frame_of_readEncryptedFrame hgenuine hdecrypts
    h.length_le hunlocks manifestLimit hframe
  have hplaintext' : primitives.encodeManifest manifest = plaintext := some.inj hplaintext
  subst hplaintext'
  rw [primitives.decode_encodeManifest, some.injEq] at hmanifest
  subst hmanifest
  refine ⟨rest', ?_, rfl⟩
  change rest = _ at hbytes
  rw [hbytes]
  rfl

/-- Only the archive is read. -/
theorem archiveBytes_of_readArchive {result : DeviceBackupManifest × List Bytes}
    (hread : readArchive primitives passphrase input = .ok result) :
  input = archiveBytes primitives key salt noncePrefix manifest entries
  := by
  obtain ⟨reader, hopen, hread⟩ := bind_eq_ok.mp hread
  obtain ⟨⟨read, reader'⟩, hentries, hread⟩ := bind_eq_ok.mp hread
  obtain ⟨_, hfinish, _⟩ := bind_eq_ok.mp hread
  obtain ⟨rest, rfl, rfl⟩ := openArchive_genuine h hdecrypts hgenuine hfree hopen
  rw [archiveBytes_eq]
  set start := archiveStart primitives key salt noncePrefix manifest
  have hunlocks : Unlocks { start with bytes := rest, counter := 1 } start := ⟨rfl, rfl, rfl⟩
  have hnext : NextAre { start with bytes := rest, counter := 1 }
      (archivePlaintexts primitives manifest entries) (entryChunks entries) := prefix_refl _
  have hmatching : List.Forall₂ (EntryMatches primitives) (start.manifest.entries.drop 0)
      entries := h.matching
  have hlength : start.manifest.entries.length = entries.length := h.matching.length_eq
  rw [hlength] at hentries
  obtain ⟨rest', hbytes, _, rfl⟩ :=
    frames_of_readEntries hgenuine hdecrypts h.length_le hmatching hunlocks hnext hentries
  obtain ⟨_, hend⟩ := finishReading_eq_ok.mp hfinish
  change rest = _ at hbytes
  change rest' = _ at hend
  rw [hbytes, hend, archivePlaintexts, frames]
  simp only [append_assoc]

end

/-- An archive is read back as it was written. If the cipher is ideal and the hash has no
collision, no other bytes are read under the same passphrase. -/
theorem archives_faithful
    (h : Archivable primitives passphrase salt noncePrefix manifest entries key)
    (hdecrypts : Decrypts primitives (archiveStart primitives key salt noncePrefix manifest)
      (archivePlaintexts primitives manifest entries)) :
  ∃ bytes, writeArchive primitives passphrase salt noncePrefix manifest entries = .ok bytes ∧
    readArchive primitives passphrase bytes = .ok (manifest, entries) ∧
    (Genuine primitives (archiveStart primitives key salt noncePrefix manifest)
      (archivePlaintexts primitives manifest entries) →
    ∀ input result,
      HeaderUnmatched primitives (primitives.encodeHeader (newHeader salt noncePrefix)) input →
      readArchive primitives passphrase input = .ok result → input = bytes)
  := by
  refine ⟨_, writeArchive_eq h, readArchive_archiveBytes h hdecrypts, ?_⟩
  intro hgenuine input result hfree hread
  exact archiveBytes_of_readArchive h hdecrypts hgenuine hfree hread

end

/-! ### An archive of one note -/

namespace BackupSample

deriving instance Countable for DeviceBackupHeader

deriving instance Countable for DeviceBackupEntry

deriving instance Countable for DeviceBackupManifest

theorem countable_header : Countable DeviceBackupHeader := inferInstance

theorem countable_manifest : Countable DeviceBackupManifest := inferInstance

section

variable {α : Type} (hcountable : Countable α) (short : α → Option Bytes)

/-- Bytes for a value: the short ones if there are some, and a number otherwise. -/
noncomputable def code (x : α) : Bytes :=
  match short x with
  | some bytes => 0 :: bytes
  | none => 1 :: List.replicate (hcountable.exists_injective_nat.choose x) 0

open Classical in
noncomputable def decode (bytes : Bytes) : Option α :=
  if h : ∃ x, code hcountable short x = bytes then some h.choose else none

theorem decode_code (hshort : ∀ x y bytes, short x = some bytes → short y = some bytes → x = y)
    (x : α) :
  decode hcountable short (code hcountable short x) = some x
  := by
  apply Function.partialInv_left
  intro y x hcode
  unfold code at hcode
  cases hy : short y with
  | some bytes =>
    cases hx : short x with
    | some bytes' =>
      simp only [hx, hy, cons.injEq, true_and] at hcode
      subst hcode
      exact hshort y x bytes hy hx
    | none => simp [hx, hy] at hcode
  | none =>
    cases hx : short x with
    | some bytes' => simp [hx, hy] at hcode
    | none =>
      simp only [hx, hy, cons.injEq, true_and] at hcode
      apply hcountable.exists_injective_nat.choose_spec
      simpa using congrArg length hcode

end

def shortHeader (header : DeviceBackupHeader) : Option Bytes := do
  let salt ← Hex.decodeBytes header.saltHex.toList
  let noncePrefix ← Hex.decodeBytes header.noncePrefixHex.toList
  if salt.length = saltLen ∧ header = newHeader salt noncePrefix then some (salt ++ noncePrefix)
  else none

theorem shortHeader_eq_some {header : DeviceBackupHeader} {bytes : Bytes} :
  shortHeader header = some bytes ↔ ∃ salt noncePrefix, salt.length = saltLen ∧
    header = newHeader salt noncePrefix ∧ bytes = salt ++ noncePrefix
  := by
  constructor
  · intro h
    obtain ⟨salt, _, h⟩ := bind_eq_some_iff.mp h
    obtain ⟨noncePrefix, _, h⟩ := bind_eq_some_iff.mp h
    split at h
    case isTrue hheader => exact ⟨salt, noncePrefix, hheader.1, hheader.2, (some.inj h).symm⟩
    case isFalse => cases h
  · rintro ⟨salt, noncePrefix, hlength, rfl, rfl⟩
    refine bind_eq_some_iff.mpr ⟨_, Hex.decodeBytes_ofList salt, ?_⟩
    refine bind_eq_some_iff.mpr ⟨_, Hex.decodeBytes_ofList noncePrefix, ?_⟩
    exact if_pos ⟨hlength, rfl⟩

noncomputable def encodeHeader : DeviceBackupHeader → Bytes := code countable_header shortHeader

def blake3 (bytes : Bytes) : Bytes := (bytes ++ List.replicate 32 0).take 32

def keys : PublicKeys where
  isKey text := text == String.ofList (List.replicate 64 'a')
  hexadecimal text htext := by
    rw [beq_iff_eq] at htext
    subst htext
    rw [String.toList_ofList]
    refine ⟨List.length_replicate, fun c hc => ?_⟩
    rw [List.eq_of_mem_replicate hc]
    decide

def manifest : DeviceBackupManifest where
  formatVersion := 1
  componentVersion := 2
  createdAt := 0
  appVersion := ""
  publicKey := String.ofList (List.replicate 64 'a')
  accountLabel := none
  included := []
  requiresReconsent := []
  entries := [⟨"note", 1, String.ofList (Hex.encodeBytes (blake3 [7]))⟩]

def shortManifest (m : DeviceBackupManifest) : Option Bytes :=
  if m = manifest then some [] else none

noncomputable def encodeManifest : DeviceBackupManifest → Bytes :=
  code countable_manifest shortManifest

def salt : Bytes := List.replicate 16 1
def noncePrefix : Bytes := List.replicate 16 2

def encrypt (plaintext : Bytes) : Bytes := plaintext ++ List.replicate 16 0

/-- The frames of the archive. -/
def Made (nonce' aad ciphertext : Bytes) : Prop :=
  ∃ i original, [encodeManifest manifest, [7]][i]? = some original ∧
    nonce' = nonce noncePrefix i ∧
    aad = frameAad (blake3 (encodeHeader (newHeader salt noncePrefix))) i ∧
    ciphertext = encrypt original

open Classical in
/-- A cipher that accepts the frames of the archive only. -/
noncomputable def idealPrimitives : BackupPrimitives Unit where
  keys := keys
  argon2Params _ _ _ := true
  argon2 _ _ _ _ _ := some ()
  blake3 := blake3
  encrypt _ _ _ := encrypt
  decrypt _ nonce' aad ciphertext :=
    if Made nonce' aad ciphertext then some (ciphertext.take (ciphertext.length - 16)) else none
  encodeHeader := encodeHeader
  decodeHeader := decode countable_header shortHeader
  encodeManifest := encodeManifest
  decodeManifest := decode countable_manifest shortManifest
  length_blake3 bytes := by simp [blake3]
  length_encrypt _ _ _ plaintext := by simp [encrypt, aeadTagBytes]
  decode_encodeHeader := by
    apply decode_code
    intro header header' bytes h h'
    obtain ⟨salt, noncePrefix, hlength, rfl, rfl⟩ := shortHeader_eq_some.mp h
    obtain ⟨salt', noncePrefix', hlength', rfl, hbytes⟩ := shortHeader_eq_some.mp h'
    obtain ⟨rfl, rfl⟩ := List.append_inj hbytes (hlength.trans hlength'.symm)
    rfl
  decode_encodeManifest := by
    apply decode_code
    intro m m' bytes h h'
    unfold shortManifest at h h'
    split at h <;> split at h' <;> simp_all
  length_newHeader salt noncePrefix hsalt hnonce := by
    have hshort := shortHeader_eq_some.mpr ⟨salt, noncePrefix, hsalt, rfl, rfl⟩
    rw [encodeHeader, code, hshort, List.length_cons, List.length_append, hsalt, hnonce]
    decide

theorem archivable :
  Archivable idealPrimitives "passphrase" salt noncePrefix manifest [[7]] ()
  := by
  constructor
  · have hhash := Hex.decodeBytes_ofList (blake3 [7])
    refine bailIf_bind_eq_ok.mpr ⟨by decide, bailIf_bind_eq_ok.mpr ⟨by decide, ?_⟩⟩
    refine bailIf_bind_eq_ok.mpr ⟨by simp [idealPrimitives, keys, manifest], ?_⟩
    refine bailIf_bind_eq_ok.mpr ⟨by decide, bailIf_bind_eq_ok.mpr ⟨by decide, ?_⟩⟩
    refine bailIf_bind_eq_ok.mpr ⟨by decide, bailIf_bind_eq_ok.mpr ⟨by decide, ?_⟩⟩
    refine bailIf_bind_eq_ok.mpr ⟨by decide, bind_eq_ok.mpr ⟨_, context_eq_ok.mpr hhash, ?_⟩⟩
    exact bailIf_bind_eq_ok.mpr ⟨by decide, rfl⟩
  · have hshort : shortManifest manifest = some [] := if_pos rfl
    change (code countable_manifest shortManifest manifest).length ≤ _
    decide
  · exact .cons ⟨rfl, rfl⟩ .nil
  · decide
  · rfl
  · rfl
  · rfl

theorem chunks_note : chunks deviceBackupChunkBytes [7] = [[7]] := by
  rw [chunks_of_ne_nil chunkBytes_pos (by simp)]
  simp [deviceBackupChunkBytes, chunks_nil]

theorem archivePlaintexts_eq :
  archivePlaintexts idealPrimitives manifest [[7]] = [encodeManifest manifest, [7]]
  := by
  rw [archivePlaintexts, entryChunks_cons, chunks_note]
  rfl

theorem decrypts :
  Decrypts idealPrimitives (archiveStart idealPrimitives () salt noncePrefix manifest)
    (archivePlaintexts idealPrimitives manifest [[7]])
  := by
  intro i plaintext hi
  rw [archivePlaintexts_eq] at hi
  refine (if_pos ⟨i, plaintext, hi, rfl, rfl, rfl⟩).trans ?_
  simp [idealPrimitives, encrypt]

theorem genuine :
  Genuine idealPrimitives (archiveStart idealPrimitives () salt noncePrefix manifest)
    (archivePlaintexts idealPrimitives manifest [[7]])
  := by
  intro key nonce' aad ciphertext plaintext h
  have hmade : Made nonce' aad ciphertext := by
    by_contra hnot
    have hnone : idealPrimitives.decrypt key nonce' aad ciphertext = none := if_neg hnot
    rw [hnone] at h
    cases h
  rw [archivePlaintexts_eq]
  exact hmade

end BackupSample

open BackupSample in
theorem archives_faithful_note :
  Archivable idealPrimitives "passphrase" salt noncePrefix manifest [[7]] () ∧
  Genuine idealPrimitives (archiveStart idealPrimitives () salt noncePrefix manifest)
    (archivePlaintexts idealPrimitives manifest [[7]]) ∧
  ∃ bytes,
    writeArchive idealPrimitives "passphrase" salt noncePrefix manifest [[7]] = .ok bytes ∧
    readArchive idealPrimitives "passphrase" bytes = .ok (manifest, [[7]]) ∧
    ∀ input result,
      HeaderUnmatched idealPrimitives
        (idealPrimitives.encodeHeader (newHeader salt noncePrefix)) input →
      readArchive idealPrimitives "passphrase" input = .ok result → input = bytes
  := by
  obtain ⟨bytes, hwrite, hread, honly⟩ := archives_faithful archivable decrypts
  exact ⟨archivable, genuine, bytes, hwrite, hread, honly genuine⟩

end Kukuri
