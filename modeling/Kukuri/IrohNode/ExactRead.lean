import Kukuri.IrohNode.PageRead

/-!
# The records of a key

A node answers a read of one key with the local entries, and fills them up with records that it
holds. No author is answered twice. All authors are answered, up to the limit, if the records that
are read are new: they are cut before those whose author has a local entry are left out.
-/

namespace Kukuri

open Result List Option

namespace PageRead

section

variable (reader : DocReader) (replica : String) (opened : Option DocsNamespace) (key : String)
  (limit : ℕ) (author : Option String)

/-- The docs authors that have a local entry or a live record that is held. -/
inductive HasAuthor : String → Prop
  | entry {docs : DocsNamespace} {id : AuthorId} {entry : DocEntry} (hopened : opened = some docs)
      (hentry : docs[(toLex (utf8 key, id) : Bytes ×ₗ AuthorId)]? = some entry)
      (hauthor : ∀ a, author = some a → reader.parseAuthor a = some id) : HasAuthor id.text
  | held {cache : RemoteCache} {item : CacheKey × CacheRow} {name : String}
      (hcache : reader.cache = some cache) (hvisible : Visible cache replica author false item)
      (hkey : item.2.recordKey = some key) (hname : item.2.recordAuthor = some name)
      (hlive : isLive reader.now item.2 = true) : HasAuthor name

/-- The authors of the local entries. -/
def localAuthors : List String :=
  (exactStream opened key (author.bind reader.parseAuthor)).map fun entry => (ofLex entry.1).2.text

/-- The records of the key that are held. -/
def heldRows : List (CacheKey × CacheRow) :=
  reader.cache.elim [] fun cache => recordsOfKey cache replica key author false

/-- The authors of those that are live. -/
def heldAuthors : List String :=
  ((heldRows reader replica key author).filter fun item => isLive reader.now item.2).map
    fun item => item.2.recordAuthor.getD ""

/-- The records that are held are as they were written: the columns are those of the JSON. -/
structure RecordsWritten : Prop where
  columns : ∀ cache, reader.cache = some cache → RecordColumns cache
  payloads : ∀ cache, reader.cache = some cache →
    ∀ (item : CacheKey × CacheRow) (payload : Bytes) (record : DocReadRecord),
      cache.rows[item.1]? = some item.2 → (ofLex item.1).1 = "record" →
      item.2.payload = some payload → reader.parseRecord payload = some record →
      item.2.recordAuthor = some record.docsAuthor

/-- The records that are read are live and new, unless all of them are read. -/
structure Unhidden : Prop where
  live : Merge.Dense (Option.guard fun item => isLive reader.now item.2) limit
    (heldRows reader replica key author)
  new : limit - (localAuthors reader opened key author).length <
      (heldAuthors reader replica key author).length →
    ∀ name ∈ (heldAuthors reader replica key author).take
      (limit - (localAuthors reader opened key author).length),
      name ∉ localAuthors reader opened key author
  profile : localAuthors reader opened key author = [] →
    heldAuthors reader replica key author = [] →
    ∀ record, reader.storedProfileRecord replica key = .ok (some record) →
      author.all (record.docsAuthor = ·) = false

variable {reader replica opened key limit author}

/-! ### Local entries -/

theorem mem_exactStream {id : Option AuthorId} {entry : SignedEntry} :
  entry ∈ exactStream opened key id ↔
    ∃ docs, opened = some docs ∧ docs[entry.1]? = some entry.2 ∧ (ofLex entry.1).1 = utf8 key ∧
      ∀ a, id = some a → (ofLex entry.1).2 = a
  := by
  unfold exactStream
  cases opened with
  | none => simp
  | some docs =>
    rw [elim_some, DocsNamespace.mem_getMany, decide_eq_true_eq]
    simp

theorem nodup_localAuthors :
  (localAuthors reader opened key author).Nodup
  := by
  apply List.Nodup.map_on
  · intro entry hentry entry' hentry' hauthor
    obtain ⟨docs, rfl, hrow, hkey, -⟩ := mem_exactStream.mp hentry
    obtain ⟨_, ⟨⟩, hrow', hkey', -⟩ := mem_exactStream.mp hentry'
    have hfst : entry.1 = entry'.1 :=
      ofLex.injective (Prod.ext (hkey.trans hkey'.symm) (AuthorId.text_injective hauthor))
    rw [hfst, hrow'] at hrow
    exact Prod.ext hfst (some.inj hrow).symm
  · unfold exactStream
    cases opened with
    | none => exact .nil
    | some docs =>
      rw [elim_some]
      apply (DocsNamespace.pairwise_getMany ..).imp
      rintro entry _ h rfl
      exact Merge.not_precedes_self _ h

theorem nodup_heldAuthors (hwritten : RecordsWritten reader) :
  (heldAuthors reader replica key author).Nodup
  := by
  unfold heldAuthors heldRows
  cases hcache : reader.cache with
  | none => exact .nil
  | some cache =>
    exact (filter_sublist.map _).nodup (nodup_recordsOfKey (hwritten.columns cache hcache))

/-- The authors are those of the two lists. -/
theorem hasAuthor_iff (hwritten : RecordsWritten reader)
    (hparse : ∀ a, author = some a → (reader.parseAuthor a).isSome) {name : String} :
  HasAuthor reader replica opened key author name ↔
    name ∈ localAuthors reader opened key author ∨ name ∈ heldAuthors reader replica key author
  := by
  constructor
  · intro h
    cases h with
    | @entry docs id entry hopened hentry hauthor =>
      left
      apply List.mem_map.mpr
      refine ⟨(toLex (utf8 key, id), entry), ?_, rfl⟩
      refine mem_exactStream.mpr ⟨docs, hopened, hentry, rfl, ?_⟩
      intro a ha
      obtain ⟨text, htext, hid⟩ := Option.bind_eq_some_iff.mp ha
      exact Option.some.inj ((hauthor text htext).symm.trans hid)
    | @held cache item name hcache hvisible hkey hname hlive =>
      right
      apply List.mem_map.mpr
      refine ⟨item, List.mem_filter.mpr ⟨?_, hlive⟩, by rw [hname]; rfl⟩
      unfold heldRows
      rw [hcache]
      exact mem_recordsOfKey.mpr ⟨hvisible, hkey⟩
  · rintro (h | h)
    · obtain ⟨entry, hentry, rfl⟩ := List.mem_map.mp h
      obtain ⟨docs, hopened, hrow, hkey, hauthor⟩ := mem_exactStream.mp hentry
      apply HasAuthor.entry hopened
      · rw [← hkey]
        exact hrow
      · intro a ha
        obtain ⟨id, hid⟩ := Option.isSome_iff_exists.mp (hparse a ha)
        rw [hid, hauthor id (Option.bind_eq_some_iff.mpr ⟨a, ha, hid⟩)]
    · obtain ⟨item, hitem, rfl⟩ := List.mem_map.mp h
      obtain ⟨hrow, hlive⟩ := List.mem_filter.mp hitem
      unfold heldRows at hrow
      generalize hcache : reader.cache = current at hrow
      cases current with
      | none =>
        cases hrow
      | some cache =>
        obtain ⟨hvisible, hkey⟩ := mem_recordsOfKey.mp hrow
        obtain ⟨_, name, -, hname, -⟩ :=
          (hwritten.columns cache hcache).of_row hvisible.row hvisible.kind
        rw [hname]
        exact .held hcache hvisible hkey hname hlive

/-! ### Adding records -/

def DocReadRecord.authors (records : List DocReadRecord) : List String :=
  records.map DocReadRecord.docsAuthor

open DocReadRecord

theorem addCached_eq_ok {records records' : List DocReadRecord} {payload : Bytes}
    (h : addCached reader key author records payload = .ok records') :
  ∃ record, reader.parseRecord payload = some record ∧
    authors records' = authors records ++ [record.docsAuthor].filter (· ∉ authors records)
  := by
  obtain ⟨record, hrecord, h⟩ := bind_eq_ok.mp h
  obtain ⟨-, h⟩ := bailIf_bind_eq_ok.mp h
  refine ⟨record, context_eq_ok.mp hrecord, ?_⟩
  obtain rfl := pure_eq_ok.mp h
  have hmem : (records.any fun found => found.docsAuthor = record.docsAuthor) = true ↔
      record.docsAuthor ∈ authors records := by
    simp [authors]
  by_cases hfound : record.docsAuthor ∈ authors records
  · rw [if_pos (hmem.mpr hfound)]
    simp [hfound]
  · have hkept : [record.docsAuthor].filter (· ∉ authors records) = [record.docsAuthor] := by
      simp [hfound]
    rw [if_neg (hmem.not.mpr hfound), hkept]
    exact map_append

/-- The authors that are added, when the payloads are records of the given authors. -/
theorem authors_foldlM_addCached {payloads : List Bytes} {names : List String}
    (hnames : List.Forall₂ (fun payload name => ∀ record, reader.parseRecord payload = some record →
      record.docsAuthor = name) payloads names)
    (hnodup : names.Nodup) {records records' : List DocReadRecord}
    (h : payloads.foldlM (addCached reader key author) records = .ok records') :
  authors records' = authors records ++ names.filter (· ∉ authors records)
  := by
  induction hnames generalizing records with
  | nil =>
    cases h
    simp
  | @cons payload name payloads names hname _ ih =>
    obtain ⟨next, hnext, h⟩ := bind_eq_ok.mp h
    obtain ⟨record, hrecord, hauthors⟩ := addCached_eq_ok hnext
    obtain ⟨hnew, hnodup⟩ := nodup_cons.mp hnodup
    rw [hname record hrecord] at hauthors
    -- The author that has just been added is not among the names that follow.
    have hrest : names.filter (· ∉ authors next) = names.filter (· ∉ authors records) := by
      apply filter_congr
      intro other hother
      have hne : other ≠ name := fun heq => hnew (heq ▸ hother)
      simp [hauthors, hne]
    rw [ih hnodup h, hrest, hauthors, append_assoc, ← filter_append]
    rfl

/-! ### The answer -/

/-- The rows whose records are read from the cache. -/
def cachedRows (reader : DocReader) (replica key : String) (limit : ℕ) (author : Option String) :
    List (CacheKey × CacheRow) :=
  ((heldRows reader replica key author).take (if author.isSome then 1 else limit)).filter
    fun item => isLive reader.now item.2

/-- An answer: the stored profile, or local entries that are filled up with records. -/
structure Answer (reader : DocReader) (replica : String) (opened : Option DocsNamespace)
    (key : String) (limit : ℕ) (author : Option String) (profile entries : List DocReadRecord)
    (cached : List Bytes) (records : List DocReadRecord) : Prop where
  parses : ∀ a, author = some a → (reader.parseAuthor a).isSome
  payloads : List.Forall₂ (fun item payload => item.2.payload = some payload)
    (cachedRows reader replica key limit author) cached
  names : authors entries = (localAuthors reader opened key author).take limit
  stored : profile = [] ∨ ∃ record, profile = [record] ∧ entries = [] ∧ cached = [] ∧
    reader.storedProfileRecord replica key = .ok (some record) ∧
    author.all (record.docsAuthor = ·) = true
  filled : if (profile ++ entries).length < limit then
      (cached.take (limit - (profile ++ entries).length)).foldlM (addCached reader key author)
        (profile ++ entries) = .ok records
    else records = profile ++ entries

section

variable {profile entries records : List DocReadRecord} {cached : List Bytes}

section

variable (hwritten : RecordsWritten reader)
include hwritten

/-- The payloads that are read are records of the authors of their rows. -/
theorem Answer.cached_names
    (h : Answer reader replica opened key limit author profile entries cached records) :
  List.Forall₂ (fun payload name => ∀ record, reader.parseRecord payload = some record →
      record.docsAuthor = name) cached
    ((cachedRows reader replica key limit author).map fun item => item.2.recordAuthor.getD "")
  := by
  have hrows : ∀ item ∈ cachedRows reader replica key limit author, ∀ payload record,
      item.2.payload = some payload → reader.parseRecord payload = some record →
      record.docsAuthor = item.2.recordAuthor.getD "" := by
    intro item hitem payload record hpayload hrecord
    have hrow := mem_of_mem_take (mem_filter.mp hitem).1
    unfold heldRows at hrow
    generalize hcache : reader.cache = current at hrow
    cases current with
    | none =>
      cases hrow
    | some cache =>
      obtain ⟨hvisible, -⟩ := mem_recordsOfKey.mp hrow
      rw [hwritten.payloads cache hcache item payload record hvisible.row hvisible.kind hpayload
        hrecord]
      rfl
  apply forall₂_map_right_iff.mpr
  apply List.Forall₂.flip
  have hpayloads := h.payloads
  clear h
  generalize cachedRows reader replica key limit author = rows at hrows hpayloads
  induction hpayloads with
  | nil => exact .nil
  | @cons item payload rows payloads hpayload _ ih =>
    refine .cons (fun record => hrows item (.head _) payload record hpayload) (ih ?_)
    intro item hitem
    exact hrows item (.tail _ hitem)

theorem nodup_cachedNames :
  ((cachedRows reader replica key limit author).map
    fun item => item.2.recordAuthor.getD "").Nodup
  := by
  have hheld : (heldAuthors reader replica key author).Nodup := nodup_heldAuthors hwritten
  refine List.Sublist.nodup ?_ hheld
  exact ((take_sublist ..).filter _).map _

/-- The authors of an answer without a stored profile. -/
theorem Answer.authors_eq
    (h : Answer reader replica opened key limit author [] entries cached records) :
  authors records = authors entries ++
    (((cachedRows reader replica key limit author).map
      fun item => item.2.recordAuthor.getD "").take (limit - entries.length)).filter
        (· ∉ authors entries)
  := by
  have hfilled := h.filled
  rw [nil_append] at hfilled
  split at hfilled
  case isTrue =>
    apply authors_foldlM_addCached _ _ hfilled
    · exact forall₂_take _ (h.cached_names hwritten)
    · exact (nodup_cachedNames hwritten).sublist (take_sublist ..)
  case isFalse hfull =>
    rw [Nat.sub_eq_zero_of_le (not_lt.mp hfull)]
    simpa using congrArg authors hfilled

theorem Answer.nodup
    (h : Answer reader replica opened key limit author profile entries cached records) :
  (authors records).Nodup
  := by
  rcases h.stored with rfl | ⟨record, rfl, rfl, rfl, -⟩
  · rw [h.authors_eq hwritten]
    refine nodup_append.mpr ⟨?_, ?_, ?_⟩
    · rw [h.names]
      exact nodup_localAuthors.sublist (take_sublist ..)
    · exact ((nodup_cachedNames hwritten).sublist (take_sublist ..)).filter _
    · rintro name hleft _ hright rfl
      exact of_decide_eq_true (mem_filter.mp hright).2 hleft
  · have hfilled := h.filled
    rw [take_nil] at hfilled
    split at hfilled
    case isTrue =>
      cases hfilled
      exact nodup_singleton _
    case isFalse =>
      rw [hfilled]
      exact nodup_singleton _

/-- An author has at most one record of a key. -/
theorem length_heldRows_le {name : String} :
  (heldRows reader replica key (some name)).length ≤ 1
  := by
  unfold heldRows
  cases hcache : reader.cache with
  | none => exact Nat.zero_le _
  | some cache =>
    rw [elim_some]
    have hnodup : ((recordsOfKey cache replica key (some name) false).map
        fun item => item.2.recordAuthor.getD "").Nodup :=
      nodup_recordsOfKey (hwritten.columns cache hcache)
    have hname : ∀ author ∈ (recordsOfKey cache replica key (some name) false).map
        (fun item => item.2.recordAuthor.getD ""), author = name := by
      intro author hauthor
      obtain ⟨item, hitem, rfl⟩ := mem_map.mp hauthor
      have hmatches := (mem_recordsOfKey.mp hitem).1.author
      simp only [authorMatches, all_some, decide_eq_true_eq] at hmatches
      rw [hmatches]
      rfl
    rw [eq_replicate_of_mem hname] at hnodup
    simpa using hnodup

/-- What is read from the cache is as good as all live records. -/
theorem take_cachedNames (hunhidden : Unhidden reader replica opened key limit author) (n : ℕ) :
  ((cachedRows reader replica key limit author).map
      fun item => item.2.recordAuthor.getD "").take (limit - n) =
    (heldAuthors reader replica key author).take (limit - n)
  := by
  unfold cachedRows heldAuthors
  cases author with
  | none =>
    rw [isSome_none, if_neg Bool.false_ne_true, Merge.filter_take_of_dense hunhidden.live,
      map_take, take_take, Nat.min_eq_left (Nat.sub_le limit n)]
  | some name =>
    rw [isSome_some, if_pos rfl, take_of_length_le (length_heldRows_le hwritten)]

end

/-- A stored profile is not answered. -/
theorem Answer.profile_eq_nil (hlimit : 1 ≤ limit) (hwritten : RecordsWritten reader)
    (hunhidden : Unhidden reader replica opened key limit author)
    (h : Answer reader replica opened key limit author profile entries cached records) :
  profile = []
  := by
  rcases h.stored with hnil | ⟨record, -, rfl, rfl, hstored, hauthor⟩
  · exact hnil
  · have hpositive : limit ≠ 0 := Nat.one_le_iff_ne_zero.mp hlimit
    have hlocal : localAuthors reader opened key author = [] :=
      (take_eq_nil_iff.mp h.names.symm).resolve_left hpositive
    have hrows : cachedRows reader replica key limit author = [] :=
      forall₂_nil_right_iff.mp h.payloads
    have hheld := take_cachedNames hwritten hunhidden 0
    rw [hrows, map_nil, take_nil, Nat.sub_zero] at hheld
    have hnone := (take_eq_nil_iff.mp hheld.symm).resolve_left hpositive
    rw [hunhidden.profile hlocal hnone record hstored] at hauthor
    cases hauthor

theorem Answer.length_eq (hlimit : 1 ≤ limit) (hwritten : RecordsWritten reader)
    (hunhidden : Unhidden reader replica opened key limit author)
    (h : Answer reader replica opened key limit author profile entries cached records) :
  records.length = min limit {name | HasAuthor reader replica opened key author name}.ncard
  := by
  obtain rfl := h.profile_eq_nil hlimit hwritten hunhidden
  have hauthors := h.authors_eq hwritten
  rw [take_cachedNames hwritten hunhidden, h.names] at hauthors
  have hset : {name | HasAuthor reader replica opened key author name} =
      {name | name ∈ localAuthors reader opened key author ∨
        name ∈ heldAuthors reader replica key author} := by
    ext name
    exact hasAuthor_iff hwritten h.parses
  have hentries : entries.length = min limit (localAuthors reader opened key author).length := by
    rw [← length_take, ← h.names]
    exact (length_map _).symm
  have hlocal : (localAuthors reader opened key author).Nodup := nodup_localAuthors
  have hheld : (heldAuthors reader replica key author).Nodup := nodup_heldAuthors hwritten
  have hlength : records.length = (authors records).length := (length_map _).symm
  rw [hset, hlength, hauthors]
  rcases Nat.lt_or_ge limit (localAuthors reader opened key author).length with hmany | hfew
  · -- There are enough local entries, and nothing is read from the cache.
    rw [hentries, Nat.min_eq_left hmany.le, Nat.sub_self, take_zero, filter_nil,
      append_nil, length_take, Merge.ncard_union hlocal hheld]
    omega
  · rw [hentries, Nat.min_eq_right hfew, take_of_length_le hfew, length_append]
    exact Merge.length_fill hlocal hheld hfew hunhidden.new

end

end

/-! ### Samples -/

namespace ExactSample

def author (n : UInt8) : AuthorId := ⟨n :: List.replicate 31 0, rfl⟩

/-- A local entry for the key `k` of each author. -/
def docs (authors : List UInt8) : DocsNamespace :=
  authors.foldl (fun docs n => docs.insert (toLex (utf8 "k", author n)) ⟨"hash", 0⟩) ∅

/-- A protected record of the key `k` for each author. Its payload is the author. -/
def cache (authors : List UInt8) : RemoteCache where
  rows := authors.foldl (fun rows n =>
    rows.insert (toLex ("record", remoteRecordCacheKey "topic::a" "k" (author n).text))
      ⟨"topic::a", some "k", some (author n).text, some [n], none, 100, true, 0⟩) ∅
  refs := ∅
  used := 0

def reader (held : List UInt8) : DocReader where
  secretId secret := secret
  namespaceText _ := ""
  parseNamespace _ := none
  hash _ := []
  keyedHash _ _ := ""
  queryJson _ := []
  requestJson _ := []
  responseJson _ := []
  parseAuthor _ := none
  fields _ := none
  parseRecord payload := payload.head?.map fun n => ⟨"k", [], "hash", 0, (author n).text⟩
  valueHash _ := "hash"
  privateSecret := none
  docs _ := none
  blob _ := some []
  cache := some (cache held)
  storedProfileRecord _ _ := .ok none
  now := 0

def request : Request := ⟨1, "topic::a", "", .exact "k" 2 none, none⟩

def record (n : UInt8) : DocReadRecord := ⟨"k", [], "hash", 0, (author n).text⟩

end ExactSample

open ExactSample

end PageRead

end Kukuri
