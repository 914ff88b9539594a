import Kukuri.DesktopRuntime.HistoryStaging

/-!
# What the steps of stagings and merges do

A step changes the files of one page and the journal. `StagingTask.effect` and `MergeTask.effect`
say once how the journal changes. `StagingTask.Sound` says that the parts of the blobs which a
staging has received are in their files and have their hashes; the staging's own steps keep it
(`StagingTask.Sound.perform`).
-/

namespace Kukuri

open List

/-! ### What a step does -/

namespace StagingTask

/-- The page that a staging works on. -/
def page? : StagingTask → Option ℕ
  | .clearPage _ page | .clearPart _ page _ | .clearDelete _ page _ | .deleting page _ _ =>
    some page
  | .ready stage | .writePart stage _ _ | .commitPage stage _ _ | .commitJournal stage _ _ =>
    some stage.page
  | .idle | .begin _ _ _ => none

end StagingTask

namespace MergeTask

/-- The page that a merge works on. -/
def index? : MergeTask → Option ℕ
  | .readPage index | .lookUp index _ _ _ | .putRecord index _ _ _ | .readPart index _ _ _ _
  | .putBlob index _ _ _ | .deletePart index _ _ _ | .deletePage index | .advance index =>
    some index
  | .idle | .start => none

@[simp]
theorem index?_readFrom (index : ℕ) (blob : StagedBlob) (count : ℕ) (bytes : List UInt8)
    (blobs : List StagedBlob) :
  (readFrom index blob count bytes blobs).index? = some index
  := by
  unfold readFrom
  split <;> rfl

@[simp]
theorem index?_nextBlob (index : ℕ) (blobs : List StagedBlob) :
  (nextBlob index blobs).index? = some index
  := by
  cases blobs with
  | nil => rfl
  | cons blob blobs => simp [nextBlob]

@[simp]
theorem index?_deleteFrom (index : ℕ) (blob : StagedBlob) (count : ℕ) (blobs : List StagedBlob) :
  (deleteFrom index blob count blobs).index? = some index
  := by
  unfold deleteFrom
  split
  · rfl
  · simp

@[simp]
theorem index?_nextRecord (index : ℕ) (records : List AccountHistoryRecord)
    (blobs : List StagedBlob) :
  (nextRecord index records blobs).index? = some index
  := by
  cases records with
  | nil => simp [nextRecord]
  | cons record records => rfl

end MergeTask

/-- The files of all pages but one are the same. -/
structure SameBut (page : Option ℕ) (files files' : HistoryFiles) : Prop where
  pageFile : ∀ p, page ≠ some p → files'.page p = files.page p
  partFiles : ∀ p, page ≠ some p → files'.part p = files.part p

namespace SameBut

variable {files : HistoryFiles}

theorem refl (page : Option ℕ) :
  SameBut page files files
  := ⟨fun _ _ => rfl, fun _ _ => rfl⟩

theorem writeJournal (page : Option ℕ) (journal : Option HistoryJournal) :
  SameBut page files { files with journal := journal }
  := ⟨fun _ _ => rfl, fun _ _ => rfl⟩

theorem writePage (index : ℕ) (page : Option StagedPage) :
  SameBut (some index) files (files.writePage index page)
  where
  pageFile := fun _ hp => Function.update_of_ne (fun h => hp (congrArg some h.symm)) _ _
  partFiles := fun _ _ => rfl

theorem writePart (index part : ℕ) (bytes : Option (List UInt8)) :
  SameBut (some index) files (files.writePart index part bytes)
  where
  pageFile := fun _ _ => rfl
  partFiles := fun _ hp => Function.update_of_ne (fun h => hp (congrArg some h.symm)) _ _

end SameBut

/-- What a step of a staging does to the journal. -/
inductive StagingEffect (files files' : HistoryFiles) (task task' : StagingTask) : Prop
  | same : files'.journal = files.journal → (∀ p, task'.page? = some p → task.page? = some p) →
      StagingEffect files files' task task'
  | begin (journal : HistoryJournal) : files'.journal = some journal →
      journal.pages = (files.journal.getD .default).pages →
      journal.merged = (files.journal.getD .default).merged →
      task'.page? = some journal.pages → StagingEffect files files' task task'
  | commit (journal : HistoryJournal) (page : ℕ) : files'.journal = some journal →
      task.page? = some page → journal.pages = page + 1 →
      journal.merged = (files.journal.getD .default).merged →
      task'.page? = some (page + 1) → StagingEffect files files' task task'

theorem StagingTask.page?_deleteFrom {page part parts p : ℕ}
    (h : (deleteFrom page part parts).page? = some p) :
  p = page
  := by
  unfold deleteFrom at h
  split at h
  · exact (Option.some.inj h).symm
  · cases h

theorem HistoryJournal.begin_pages (journal : Option HistoryJournal)
    (history : AccountTransferHistory) (peer : String) (nowSeconds : ℤ) :
  (HistoryJournal.begin journal history peer nowSeconds).pages =
      (journal.getD .default).pages ∧
    (HistoryJournal.begin journal history peer nowSeconds).merged =
      (journal.getD .default).merged
  := by
  unfold HistoryJournal.begin
  simp only
  split <;> exact ⟨rfl, rfl⟩

section

variable {account : String} {blake3Hex : List UInt8 → String}
variable {files files' : HistoryFiles} {stage : HistoryStage} {page : ℕ} {ret : HistoryReturn}

theorem HistoryStage.page?_receive (stage : HistoryStage) (hash : String) (len offset : ℕ)
    (bytes : List UInt8) :
  (stage.receive hash len offset bytes).2.page? = some stage.page
  := by
  unfold HistoryStage.receive
  split
  · rfl
  · split <;> rfl

theorem HistoryStage.written_page (stage : HistoryStage) (current : CurrentBlob)
    (bytes : List UInt8) :
  (stage.written blake3Hex current bytes).2.page = stage.page
  := by
  unfold HistoryStage.written
  simp only
  split_ifs <;> rfl

theorem StagingTask.effect {task task' : StagingTask} {call : StagingCall}
    (h : task.perform account blake3Hex files call = some (ret, files', task')) :
  SameBut task.page? files files' ∧ StagingEffect files files' task task'
  := by
  cases call <;> cases task <;> try cases h
  case begin.idle | halt.begin | halt.clearPage | halt.clearPart | halt.clearDelete | fail.begin |
      fail.clearPage | fail.clearPart | fail.clearDelete => exact ⟨.refl _, .same rfl nofun⟩
  case records.ready | commit.ready =>
    simp only [perform] at h
    split at h <;> (cases h; exact ⟨.refl _, .same rfl fun _ hp => hp⟩)
  case blob.ready stage =>
    refine ⟨.refl _, .same rfl fun p hp => ?_⟩
    rw [HistoryStage.page?_receive] at hp
    exact hp
  case drop.ready | drop.writePart | drop.commitPage | drop.commitJournal | fail.deleting =>
    refine ⟨.refl _, .same rfl fun p hp => ?_⟩
    rw [page?_deleteFrom hp]
    rfl
  case fail.writePart | fail.commitPage | fail.commitJournal =>
    exact ⟨.refl _, .same rfl fun _ hp => hp⟩
  case advance.begin history peer nowSeconds =>
    obtain ⟨hpages, hmerged⟩ := HistoryJournal.begin_pages files.journal history peer nowSeconds
    exact ⟨.writeJournal _ _, .begin _ rfl hpages hmerged rfl⟩
  case advance.clearPage | advance.commitPage => exact ⟨.writePage _ _, .same rfl fun _ hp => hp⟩
  case advance.clearPart since page part =>
    simp only [perform, next] at h
    split at h <;> (cases h; exact ⟨.refl _, .same rfl fun _ hp => hp⟩)
  case advance.clearDelete => exact ⟨.writePart _ _ _, .same rfl fun _ hp => hp⟩
  case advance.writePart stage current bytes =>
    refine ⟨.writePart _ _ _, .same rfl fun p hp => ?_⟩
    rw [page?, HistoryStage.written_page] at hp
    exact hp
  case advance.commitJournal stage page next =>
    exact ⟨.writeJournal _ _, .commit _ stage.page rfl rfl rfl rfl rfl⟩
  case advance.deleting page part parts =>
    refine ⟨.writePart _ _ _, .same rfl fun p hp => ?_⟩
    rw [page?_deleteFrom hp]
    rfl

/-- What a step of a merge does to the journal. -/
inductive MergeEffect (files files' : HistoryFiles) (task task' : MergeTask) : Prop
  | same : files'.journal = files.journal → (∀ k, task'.index? = some k → task.index? = some k) →
      MergeEffect files files' task task'
  | start (journal : HistoryJournal) : files.journal = some journal →
      files'.journal = some journal → journal.merged < journal.pages →
      task' = .readPage journal.merged → MergeEffect files files' task task'
  | remove (journal : HistoryJournal) : files.journal = some journal → files'.journal = none →
      ¬ journal.merged < journal.pages → task = .start → task' = .idle →
      MergeEffect files files' task task'
  | advance (k : ℕ) : task = .advance k →
      files'.journal = files.journal.map (fun journal =>
        { journal with merged := max journal.merged (k + 1) }) → task' = .start →
      MergeEffect files files' task task'

theorem MergeTask.effect {task task' : MergeTask} {call : MergeCall}
    (h : task.perform blake3Hex files call = some (ret, files', task')) :
  SameBut task.index? files files' ∧ MergeEffect files files' task task'
  := by
  have hkeeps : ∀ {after : MergeTask}, after.index? = task.index? →
      ∀ k, after.index? = some k → task.index? = some k := fun hindex _ hk => hindex.symm.trans hk
  cases call <;> cases task <;> try cases h
  case answer.lookUp index record records blobs =>
    simp only [perform] at h
    split at h <;> cases h
    · exact ⟨.refl _, .same rfl (hkeeps (index?_nextRecord _ _ _))⟩
    · exact ⟨.refl _, .same rfl (hkeeps rfl)⟩
  case advance.start =>
    simp only [perform, next] at h
    split at h
    · cases h
      exact ⟨.refl _, .same rfl nofun⟩
    · next journal hjournal =>
      split_ifs at h with hlt hfinished
      · cases h
        exact ⟨.refl _, .start journal hjournal hjournal hlt rfl⟩
      · cases h
        exact ⟨.writeJournal _ _, .remove journal hjournal rfl hlt rfl rfl⟩
      · cases h
        exact ⟨.refl _, .same rfl nofun⟩
  case advance.readPage index =>
    simp only [perform, next] at h
    split at h <;> cases h
    · exact ⟨.refl _, .same rfl (hkeeps (index?_nextRecord _ _ _))⟩
    · exact ⟨.refl _, .same rfl (hkeeps rfl)⟩
  case advance.putRecord => exact ⟨.refl _, .same rfl (hkeeps (index?_nextRecord _ _ _))⟩
  case advance.readPart index blob count bytes blobs =>
    simp only [perform, next] at h
    split at h <;> cases h
    · exact ⟨.refl _, .same rfl (hkeeps (index?_readFrom _ _ _ _ _))⟩
    · exact ⟨.refl _, .same rfl (hkeeps rfl)⟩
  case advance.putBlob index blob bytes blobs =>
    simp only [perform, next] at h
    split at h <;> cases h
    · exact ⟨.refl _, .same rfl (hkeeps (index?_deleteFrom _ _ _ _))⟩
    · exact ⟨.refl _, .same rfl (hkeeps (index?_deleteFrom _ _ _ _))⟩
  case advance.deletePart =>
    exact ⟨.writePart _ _ _, .same rfl (hkeeps (index?_deleteFrom _ _ _ _))⟩
  case advance.deletePage => exact ⟨.writePage _ _, .same rfl (hkeeps rfl)⟩
  case advance.advance index => exact ⟨.writeJournal _ _, .advance index rfl rfl rfl⟩
  -- The merge starts, fails or halts.
  all_goals exact ⟨.refl _, .same rfl nofun⟩

end

/-! ### Blobs in their parts -/

/-- The chunks are in the part files from the first one on. -/
def PartsAre (files : HistoryFiles) (page first : ℕ) (chunks : List (List UInt8)) : Prop :=
  ∀ k chunk, chunks[k]? = some chunk → files.part page (first + k) = some chunk

/-- The parts of a blob are in their files, and have its hash. -/
def BlobStored (blake3Hex : List UInt8 → String) (files : HistoryFiles) (page : ℕ)
    (blob : StagedBlob) : Prop :=
  ∃ chunks, chunks.length = blob.parts ∧ PartsAre files page blob.first chunks ∧
    blake3Hex chunks.flatten = blob.hash

/-- The parts of blobs one after the other, up to a limit. -/
structure Layout (blobs : List StagedBlob) (limit : ℕ) : Prop where
  ordered : blobs.Pairwise fun blob blob' => blob.first + blob.parts ≤ blob'.first
  below : ∀ blob ∈ blobs, blob.first + blob.parts ≤ limit

theorem PartsAre.congr {files files' : HistoryFiles} {page first : ℕ} {chunks : List (List UInt8)}
    (h : PartsAre files page first chunks)
    (hsame : ∀ k < chunks.length, files'.part page (first + k) = files.part page (first + k)) :
  PartsAre files' page first chunks
  := by
  intro k chunk hk
  rw [hsame k (List.getElem?_eq_some_iff.mp hk).1]
  exact h k chunk hk

theorem PartsAre.snoc {files : HistoryFiles} {page first : ℕ} {chunks : List (List UInt8)}
    {bytes : List UInt8} (h : PartsAre files page first chunks)
    (hlast : files.part page (first + chunks.length) = some bytes) :
  PartsAre files page first (chunks ++ [bytes])
  := by
  intro k chunk hk
  rcases Nat.lt_trichotomy k chunks.length with hlt | rfl | hgt
  · rw [getElem?_append_left hlt] at hk
    exact h k chunk hk
  · rw [getElem?_concat_length, Option.some.injEq] at hk
    rw [hlast, hk]
  · rw [getElem?_eq_none (by simp; omega)] at hk
    cases hk

/-- The chunks of a blob that have been read are the first of its chunks. -/
theorem PartsAre.take_eq {files : HistoryFiles} {page first : ℕ}
    {chunks read : List (List UInt8)} (h : PartsAre files page first chunks)
    (hread : PartsAre files page first read) (hlength : read.length ≤ chunks.length) :
  read = chunks.take read.length
  := by
  apply ext_getElem?
  intro k
  by_cases hk : k < read.length
  · rw [getElem?_take_of_lt hk, getElem?_eq_getElem hk, getElem?_eq_getElem (hk.trans_le hlength)]
    have hone := hread k _ (getElem?_eq_getElem hk)
    have hother := h k _ (getElem?_eq_getElem (hk.trans_le hlength))
    exact hone.symm.trans hother
  · rw [getElem?_eq_none (by omega), getElem?_eq_none (by simp; omega)]

theorem BlobStored.congr {blake3Hex : List UInt8 → String} {files files' : HistoryFiles}
    {page : ℕ} {blob : StagedBlob} (h : BlobStored blake3Hex files page blob)
    (hsame : ∀ part, blob.first ≤ part → part < blob.first + blob.parts →
      files'.part page part = files.part page part) :
  BlobStored blake3Hex files' page blob
  := by
  obtain ⟨chunks, hlength, hparts, hhash⟩ := h
  refine ⟨chunks, hlength, hparts.congr fun k hk => ?_, hhash⟩
  exact hsame _ (by omega) (by omega)

/-- What a staging has written of its page: the given blobs, and the one that is being received. -/
structure HistoryStage.Sound (blake3Hex : List UInt8 → String) (files : HistoryFiles)
    (stage : HistoryStage) (blobs : List StagedBlob) : Prop where
  stored : ∀ blob ∈ blobs, BlobStored blake3Hex files stage.page blob
  layout : Layout blobs (stage.blob.elim stage.parts fun current => current.blob.first)
  current : ∀ current, stage.blob = some current →
    current.blob.first + current.blob.parts = stage.parts ∧
    ∃ chunks, chunks.length = current.blob.parts ∧
      PartsAre files stage.page current.blob.first chunks ∧ chunks.flatten = current.hashed

/-- A staging finds what it has written. -/
def StagingTask.Sound (blake3Hex : List UInt8 → String) (files : HistoryFiles) :
    StagingTask → Prop
  | .ready stage => stage.Sound blake3Hex files stage.blobs
  | .writePart stage current _ =>
    stage.blob = some current ∧ stage.Sound blake3Hex files stage.blobs
  | .commitPage stage page _ =>
    stage.blob = none ∧ stage.blobs = [] ∧ stage.Sound blake3Hex files page.blobs
  | .commitJournal stage page _ =>
    stage.blob = none ∧ stage.blobs = [] ∧ stage.Sound blake3Hex files page.blobs ∧
      files.page stage.page = some page
  | _ => True

section

variable {blake3Hex : List UInt8 → String} {files files' : HistoryFiles}
variable {stage : HistoryStage} {blobs : List StagedBlob} {chunks : List (List UInt8)}
  {bytes : List UInt8} {page first : ℕ}

theorem HistoryStage.Sound.congr (h : stage.Sound blake3Hex files blobs)
    (hsame : files'.part stage.page = files.part stage.page) :
  stage.Sound blake3Hex files' blobs
  := by
  refine ⟨fun blob hblob => (h.stored blob hblob).congr fun _ _ _ => by rw [hsame], h.layout, ?_⟩
  intro current hcurrent
  obtain ⟨hparts, chunks, hlength, hchunks, hhashed⟩ := h.current current hcurrent
  exact ⟨hparts, chunks, hlength, hchunks.congr fun _ _ => by rw [hsame], hhashed⟩

theorem StagingTask.Sound.congr {task : StagingTask} (h : task.Sound blake3Hex files)
    (hpage : ∀ p, task.page? = some p → files'.page p = files.page p)
    (hpart : ∀ p, task.page? = some p → files'.part p = files.part p) :
  task.Sound blake3Hex files'
  := by
  cases task with
  | ready stage => exact HistoryStage.Sound.congr h (hpart _ rfl)
  | writePart stage current bytes => exact ⟨h.1, h.2.congr (hpart _ rfl)⟩
  | commitPage stage page next => exact ⟨h.1, h.2.1, h.2.2.congr (hpart _ rfl)⟩
  | commitJournal stage page next =>
    refine ⟨h.1, h.2.1, h.2.2.1.congr (hpart _ rfl), ?_⟩
    rw [hpage _ rfl]
    exact h.2.2.2
  | _ => trivial

theorem HistoryStage.sound_of_empty (hblob : stage.blob = none) :
  stage.Sound blake3Hex files []
  where
  stored := nofun
  layout := ⟨.nil, nofun⟩
  current := by
    intro current hcurrent
    rw [hblob] at hcurrent
    cases hcurrent

/-- Receiving a part keeps what has been written. -/
theorem HistoryStage.Sound.receive {hash : String} {len offset : ℕ}
    (h : stage.Sound blake3Hex files stage.blobs) :
  (stage.receive hash len offset bytes).2.Sound blake3Hex files
  := by
  have hcurrent : ∀ current, stage.current hash len offset = some current →
      ({ stage with blob := some current } : HistoryStage).Sound blake3Hex files stage.blobs := by
    intro current hcurrent
    unfold HistoryStage.current at hcurrent
    split at hcurrent
    case h_1 previous hblob =>
      obtain rfl := Option.some.inj hcurrent
      have hstage : ({ stage with blob := some previous } : HistoryStage) = stage := by
        rw [← hblob]
      rw [hstage]
      exact h
    case h_2 hblob =>
      split_ifs at hcurrent with hnew
      cases hcurrent
      have hlayout := h.layout
      rw [hblob] at hlayout
      refine ⟨h.stored, hlayout, ?_⟩
      rintro _ ⟨⟩
      exact ⟨rfl, [], rfl, nofun, rfl⟩
  unfold HistoryStage.receive
  split
  case h_1 => exact h
  case h_2 current hsome =>
    split
    · exact hcurrent current hsome
    · exact ⟨rfl, hcurrent current hsome⟩

/-- Writing a part keeps what has been written. -/
theorem HistoryStage.Sound.written {current : CurrentBlob} (hblob : stage.blob = some current)
    (h : stage.Sound blake3Hex files stage.blobs) :
  (stage.written blake3Hex current bytes).2.Sound blake3Hex
    (files.writePart stage.page stage.parts (some bytes))
    (stage.written blake3Hex current bytes).2.blobs
  := by
  obtain ⟨hparts, chunks, hlength, hchunks, hhashed⟩ := h.current current hblob
  have hlayout := h.layout
  rw [hblob] at hlayout
  -- The new part is behind all others.
  have hself : (files.writePart stage.page stage.parts (some bytes)).part stage.page stage.parts =
      some bytes := by
    simp [HistoryFiles.writePart]
  have hother : ∀ part, part < stage.parts →
      (files.writePart stage.page stage.parts (some bytes)).part stage.page part =
        files.part stage.page part := by
    intro part hpart
    simp [HistoryFiles.writePart, hpart.ne]
  have hchunks' : PartsAre (files.writePart stage.page stage.parts (some bytes)) stage.page
      current.blob.first (chunks ++ [bytes]) := by
    apply PartsAre.snoc
    · exact hchunks.congr fun k hk => hother _ (by omega)
    · rw [hlength, hparts]
      exact hself
  have hstored : ∀ blob ∈ stage.blobs, BlobStored blake3Hex
      (files.writePart stage.page stage.parts (some bytes)) stage.page blob := by
    intro blob hmem
    have hbelow : blob.first + blob.parts ≤ current.blob.first := hlayout.below blob hmem
    exact (h.stored blob hmem).congr fun part _ hpart => hother part (by omega)
  have hcount : (chunks ++ [bytes]).length = current.blob.parts + 1 := by simp [hlength]
  have hflatten : (chunks ++ [bytes]).flatten = current.hashed ++ bytes := by simp [hhashed]
  have hbelow : ∀ blob ∈ stage.blobs, blob.first + blob.parts ≤ current.blob.first :=
    fun blob hmem => hlayout.below blob hmem
  unfold HistoryStage.written
  simp only
  split_ifs with hreceived hhash
  · refine ⟨?_, ⟨?_, ?_⟩, nofun⟩
    · refine forall_mem_append.mpr ⟨hstored, forall_mem_singleton.mpr ?_⟩
      refine ⟨chunks ++ [bytes], hcount, hchunks', ?_⟩
      rw [hflatten]
      exact hhash
    · apply pairwise_append.mpr
      refine ⟨hlayout.ordered, pairwise_singleton _ _, fun blob hmem last hlast => ?_⟩
      rw [mem_singleton.mp hlast]
      exact hbelow blob hmem
    · intro blob hmem
      change blob.first + blob.parts ≤ stage.parts + 1
      rcases mem_append.mp hmem with hmem | hmem
      · have hle := hbelow blob hmem
        omega
      · rw [mem_singleton.mp hmem]
        change current.blob.first + (current.blob.parts + 1) ≤ stage.parts + 1
        omega
  · refine ⟨hstored, ⟨hlayout.ordered, fun blob hmem => ?_⟩, nofun⟩
    change blob.first + blob.parts ≤ stage.parts + 1
    have hle := hbelow blob hmem
    omega
  · refine ⟨hstored, ⟨hlayout.ordered, hbelow⟩, ?_⟩
    rintro _ ⟨⟩
    refine ⟨?_, chunks ++ [bytes], hcount, hchunks', hflatten⟩
    change current.blob.first + (current.blob.parts + 1) = stage.parts + 1
    omega

theorem StagingTask.sound_deleteFrom (page part parts : ℕ) :
  (deleteFrom page part parts).Sound blake3Hex files
  := by
  unfold deleteFrom
  split <;> trivial

/-- A step of a staging keeps what it has written. -/
theorem StagingTask.Sound.perform {account : String} {task task' : StagingTask}
    {call : StagingCall} {ret : HistoryReturn}
    (h : task.perform account blake3Hex files call = some (ret, files', task'))
    (hsound : task.Sound blake3Hex files) :
  task'.Sound blake3Hex files'
  := by
  cases call <;> cases task <;> try cases h
  case begin.idle | halt.begin | halt.clearPage | halt.clearPart | halt.clearDelete | fail.begin |
      fail.clearPage | fail.clearPart | fail.clearDelete | advance.begin | advance.clearPage |
      advance.clearDelete => trivial
  case records.ready stage =>
    simp only [StagingTask.perform] at h
    split at h <;> cases h
    · exact ⟨hsound.stored, hsound.layout, hsound.current⟩
    · exact hsound
  case blob.ready stage => exact HistoryStage.Sound.receive hsound
  case commit.ready stage =>
    simp only [StagingTask.perform] at h
    split at h
    case isTrue => cases h; exact hsound
    case isFalse hblob =>
      cases h
      have hnone : stage.blob = none := by simpa using hblob
      exact ⟨hnone, rfl, hsound.stored, hsound.layout, hsound.current⟩
  case drop.ready | drop.writePart | drop.commitPage | drop.commitJournal | fail.deleting |
      advance.deleting => exact sound_deleteFrom _ _ _
  case fail.writePart stage current bytes => exact hsound.2
  case fail.commitPage stage page next | fail.commitJournal stage page next |
      advance.commitJournal stage page next =>
    obtain ⟨hblob, hblobs, -⟩ := hsound
    change HistoryStage.Sound blake3Hex _ _ stage.blobs
    rw [hblobs]
    exact HistoryStage.sound_of_empty hblob
  case advance.clearPart since page part =>
    simp only [StagingTask.perform, StagingTask.next] at h
    split at h <;> cases h
    · trivial
    · exact HistoryStage.sound_of_empty rfl
  case advance.writePart stage current bytes => exact hsound.2.written hsound.1
  case advance.commitPage stage page next =>
    refine ⟨hsound.1, hsound.2.1, hsound.2.2.congr rfl, ?_⟩
    exact Function.update_self _ _ _

end

end Kukuri
