import Kukuri.DesktopRuntime.HistoryStagingSound

/-!
# A page of the history is kept until it is merged

The main result, `pages_kept`, says that a page that has been committed stays in the journal until
its records have been stored or found, and its blobs have been stored, as long as a staging begins
only after the one before it has been dropped and its parts have been deleted, and merges do not
overlap. Otherwise the parts of a later page may be deleted for a staging that was dropped, which
`exists_discarded_blob` shows.
-/

namespace Kukuri

open List Option Function Prod MergeTask

/-! ### Exclusive use of the files -/

/-- A staging begins while no other is open and no parts are left to delete, and a merge begins
while no other is in progress. -/
structure HistoryExclusive (e : HistoryEvent) : Prop where
  staging : ∀ i history peer nowSeconds, e.op = .staging i (.begin history peer nowSeconds) →
    ∀ j, e.before.stagings j = .idle
  merge : ∀ i, e.op = .merge i .merge → ∀ j, e.before.merges j = .idle

/-- The tasks do not disturb each other. -/
structure Undisturbed (blake3Hex : List UInt8 → String) (s : HistoryState) : Prop where
  oneStaging : ∀ i j, s.stagings i ≠ .idle → s.stagings j ≠ .idle → i = j
  oneMerge : ∀ i j, s.merges i ≠ .idle → s.merges j ≠ .idle → i = j
  /-- A staging works on the page behind those of the journal. -/
  behind : ∀ i page, (s.stagings i).page? = some page →
    ∀ journal, s.files.journal = some journal → journal.pages = page
  /-- A merge works on the first page of the journal that is not merged. -/
  first : ∀ i index, (s.merges i).index? = some index →
    ∃ journal, s.files.journal = some journal ∧ journal.merged = index ∧ index < journal.pages
  merged_le : ∀ journal, s.files.journal = some journal → journal.merged ≤ journal.pages
  sound : ∀ i, (s.stagings i).Sound blake3Hex s.files

section

variable {account : String} {blake3Hex : List UInt8 → String}
  {before after : HistoryState} {op : HistoryOp} {ret : HistoryReturn}
variable {i : ℕ}

theorem HistoryStep.staging_cases {call : StagingCall}
    (h : HistoryStep account blake3Hex before (.staging i call) ret after) :
  ∃ task, (before.stagings i).perform account blake3Hex before.files call =
      some (ret, after.files, task) ∧
    after.stagings = Function.update before.stagings i task ∧ after.merges = before.merges
  := by
  obtain ⟨⟨ret', files, task⟩, hperform, hafter⟩ := map_eq_some_iff.mp h
  cases hafter
  exact ⟨task, hperform, rfl, rfl⟩

theorem HistoryStep.merge_cases {call : MergeCall}
    (h : HistoryStep account blake3Hex before (.merge i call) ret after) :
  ∃ task, (before.merges i).perform blake3Hex before.files call =
      some (ret, after.files, task) ∧
    after.stagings = before.stagings ∧ after.merges = Function.update before.merges i task
  := by
  obtain ⟨⟨ret', files, task⟩, hperform, hafter⟩ := map_eq_some_iff.mp h
  cases hafter
  exact ⟨task, hperform, rfl, rfl⟩

theorem StagingTask.eq_idle_or {files files' : HistoryFiles} {task' : StagingTask}
    {call : StagingCall}
    (h : StagingTask.perform account blake3Hex files .idle call = some (ret, files', task')) :
  ∃ history peer nowSeconds, call = .begin history peer nowSeconds
  := by
  cases call with
  | begin history peer nowSeconds => exact ⟨history, peer, nowSeconds, rfl⟩
  | _ => cases h

theorem MergeTask.eq_merge_of_idle {files files' : HistoryFiles} {task' : MergeTask}
    {call : MergeCall}
    (h : MergeTask.perform blake3Hex files .idle call = some (ret, files', task')) :
  call = .merge
  := by
  cases call with
  | merge => rfl
  | _ => cases h

section

variable {α : Type} {tasks : ℕ → α} {idle task : α}
  (hone : ∀ i j, tasks i ≠ idle → tasks j ≠ idle → i = j)
  (hstart : tasks i = idle → ∀ j, tasks j = idle)

include hone hstart

/-- If at most one task is in progress, and a task starts only while none is, then the others are
not in progress during a step. -/
theorem idle_of_ne :
  ∀ j, j ≠ i → tasks j = idle
  := by
  intro j hj
  by_contra hnot
  by_cases hi : tasks i = idle
  · exact hnot (hstart hi j)
  · exact hj (hone j i hnot hi)

/-- At most one task is in progress after the step. -/
theorem one_update :
  ∀ j k, Function.update tasks i task j ≠ idle → Function.update tasks i task k ≠ idle → j = k
  := by
  have hothers := idle_of_ne hone hstart
  intro j k hj hk
  have hj' : j = i := by
    by_contra hne
    rw [update_of_ne hne] at hj
    exact hj (hothers j hne)
  have hk' : k = i := by
    by_contra hne
    rw [update_of_ne hne] at hk
    exact hk (hothers k hne)
  rw [hj', hk']

end

section

variable (h : Undisturbed blake3Hex before)
include h

/-- A staging's step keeps the tasks apart. -/
theorem Undisturbed.staging {call : StagingCall}
    (hstep : HistoryStep account blake3Hex before (.staging i call) ret after)
    (hexclusive : HistoryExclusive ⟨before, .staging i call, ret, after⟩) :
  Undisturbed blake3Hex after
  := by
  obtain ⟨task, hperform, hstagings, hmerges⟩ := hstep.staging_cases
  obtain ⟨hsame, heffect⟩ := StagingTask.effect hperform
  have hstart : before.stagings i = .idle → ∀ j, before.stagings j = .idle := by
    intro hidle
    rw [hidle] at hperform
    obtain ⟨history, peer, nowSeconds, rfl⟩ := StagingTask.eq_idle_or hperform
    exact hexclusive.staging i history peer nowSeconds rfl
  have hothers := idle_of_ne h.oneStaging hstart
  refine ⟨?_, ?_, ?_, ?_, ?_, ?_⟩
  · rw [hstagings]
    exact one_update h.oneStaging hstart
  · rw [hmerges]
    exact h.oneMerge
  · intro j page hpage journal hjournal
    rw [hstagings] at hpage
    by_cases hj : j = i
    · subst hj
      rw [update_self] at hpage
      cases heffect with
      | same hsame htask =>
        rw [hsame] at hjournal
        exact h.behind j page (htask page hpage) journal hjournal
      | begin journal' hjournal' _ _ htask =>
        rw [hjournal'] at hjournal
        cases hjournal
        exact some.inj (htask.symm.trans hpage)
      | commit journal' page' hjournal' _ hpages _ htask =>
        rw [hjournal'] at hjournal
        cases hjournal
        rw [hpages]
        exact some.inj (htask.symm.trans hpage)
    · rw [update_of_ne hj, hothers j hj] at hpage
      cases hpage
  · intro j index hindex
    rw [hmerges] at hindex
    obtain ⟨journal, hjournal, hmerged, hlt⟩ := h.first j index hindex
    cases heffect with
    | same hsame _ => exact ⟨journal, hsame.trans hjournal, hmerged, hlt⟩
    | begin journal' hjournal' hpages' hmerged' _ =>
      rw [hjournal, getD_some] at hpages' hmerged'
      exact ⟨journal', hjournal', hmerged'.trans hmerged, by omega⟩
    | commit journal' page hjournal' hpage hpages' hmerged' _ =>
      rw [hjournal, getD_some] at hmerged'
      have hpages := h.behind i page hpage journal hjournal
      exact ⟨journal', hjournal', hmerged'.trans hmerged, by omega⟩
  · intro journal hjournal
    cases heffect with
    | same hsame _ =>
      rw [hsame] at hjournal
      exact h.merged_le journal hjournal
    | begin journal' hjournal' hpages' hmerged' _ =>
      rw [hjournal'] at hjournal
      cases hjournal
      rw [hpages', hmerged']
      cases hbefore : before.files.journal with
      | none => exact le_rfl
      | some journal => exact h.merged_le journal hbefore
    | commit journal' page hjournal' hpage hpages' hmerged' _ =>
      rw [hjournal'] at hjournal
      cases hjournal
      rw [hpages', hmerged']
      cases hbefore : before.files.journal with
      | none => exact Nat.zero_le _
      | some journal =>
        have hle := h.merged_le journal hbefore
        have hpages := h.behind i page hpage journal hbefore
        rw [getD_some]
        omega
  · intro j
    rw [hstagings]
    by_cases hj : j = i
    · subst hj
      rw [update_self]
      exact (h.sound j).perform hperform
    · rw [update_of_ne hj, hothers j hj]
      trivial

/-- A merge's step keeps the tasks apart. -/
theorem Undisturbed.merge {call : MergeCall}
    (hstep : HistoryStep account blake3Hex before (.merge i call) ret after)
    (hexclusive : HistoryExclusive ⟨before, .merge i call, ret, after⟩) :
  Undisturbed blake3Hex after
  := by
  obtain ⟨task, hperform, hstagings, hmerges⟩ := hstep.merge_cases
  obtain ⟨hsame, heffect⟩ := effect hperform
  have hstart : before.merges i = .idle → ∀ j, before.merges j = .idle := by
    intro hidle
    rw [hidle] at hperform
    obtain rfl := eq_merge_of_idle hperform
    exact hexclusive.merge i rfl
  have hothers := idle_of_ne h.oneMerge hstart
  -- The staging works on another page than the merge.
  have hapart : ∀ j page, (before.stagings j).page? = some page →
      (before.merges i).index? ≠ some page := by
    intro j page hpage hindex
    obtain ⟨journal, hjournal, -, hlt⟩ := h.first i page hindex
    have hpages := h.behind j page hpage journal hjournal
    omega
  refine ⟨?_, ?_, ?_, ?_, ?_, ?_⟩
  · rw [hstagings]
    exact h.oneStaging
  · rw [hmerges]
    exact one_update h.oneMerge hstart
  · intro j page hpage journal hjournal
    rw [hstagings] at hpage
    cases heffect with
    | same hsame _ =>
      rw [hsame] at hjournal
      exact h.behind j page hpage journal hjournal
    | start journal' hbefore hafter _ _ =>
      rw [hafter] at hjournal
      cases hjournal
      exact h.behind j page hpage _ hbefore
    | remove _ _ hnone _ _ _ =>
      rw [hnone] at hjournal
      cases hjournal
    | advance k _ hafter _ =>
      rw [hafter] at hjournal
      obtain ⟨journal', hbefore, rfl⟩ := map_eq_some_iff.mp hjournal
      exact h.behind j page hpage journal' hbefore
  · intro j index hindex
    rw [hmerges] at hindex
    by_cases hj : j = i
    · subst hj
      rw [update_self] at hindex
      cases heffect with
      | same hsame htask =>
        rw [hsame]
        exact h.first j index (htask index hindex)
      | start journal hbefore hafter hlt htask =>
        rw [htask] at hindex
        cases hindex
        exact ⟨journal, hafter, rfl, hlt⟩
      | remove _ _ _ _ _ htask | advance k _ _ htask =>
        rw [htask] at hindex
        cases hindex
    · rw [update_of_ne hj, hothers j hj] at hindex
      cases hindex
  · intro journal hjournal
    cases heffect with
    | same hsame _ =>
      rw [hsame] at hjournal
      exact h.merged_le journal hjournal
    | start journal' hbefore hafter _ _ =>
      rw [hafter] at hjournal
      cases hjournal
      exact h.merged_le _ hbefore
    | remove _ _ hnone _ _ _ =>
      rw [hnone] at hjournal
      cases hjournal
    | advance k htask hafter _ =>
      rw [hafter] at hjournal
      obtain ⟨journal', hbefore, rfl⟩ := map_eq_some_iff.mp hjournal
      have hindex : (before.merges i).index? = some k := by
        rw [htask]
        rfl
      obtain ⟨journal, hjournal, hmerged, hlt⟩ := h.first i k hindex
      rw [hbefore] at hjournal
      cases hjournal
      change max journal'.merged (k + 1) ≤ journal'.pages
      omega
  · intro j
    rw [hstagings]
    refine (h.sound j).congr ?_ ?_
    · intro p hp
      exact hsame.pageFile p (hapart j p hp)
    · intro p hp
      exact hsame.partFiles p (hapart j p hp)

theorem Undisturbed.step (hstep : HistoryStep account blake3Hex before op ret after)
    (hexclusive : HistoryExclusive ⟨before, op, ret, after⟩) :
  Undisturbed blake3Hex after
  := by
  cases op with
  | staging i call => exact h.staging hstep hexclusive
  | merge i call => exact h.merge hstep hexclusive
  | stop =>
    obtain ⟨_, rfl⟩ := mk.inj (some.inj hstep)
    exact ⟨fun _ _ hi => absurd rfl hi, fun _ _ hi => absurd rfl hi, nofun, nofun, h.merged_le,
      fun _ => trivial⟩

end

end

/-! ### Until the page is merged -/

/-- The record has been stored or found. -/
def RecordSeen (seen : HistoryReturn → Prop) (record : AccountHistoryRecord) : Prop :=
  seen (.held record) ∨ seen (.storedRecord record)

/-- The blob has been stored. -/
def BlobSeen (seen : HistoryReturn → Prop) (blob : StagedBlob) : Prop :=
  ∃ bytes, seen (.storedBlob blob.hash bytes)

/-- The page has been merged. -/
structure PageSettled (seen : HistoryReturn → Prop) (page : StagedPage) : Prop where
  records : ∀ record ∈ page.records, RecordSeen seen record
  blobs : ∀ blob ∈ page.blobs, BlobSeen seen blob

/-- The merge has come to the given blob of the page. -/
structure AtBlob (seen : HistoryReturn → Prop) (page : StagedPage) (blob : StagedBlob)
    (blobs : List StagedBlob) : Prop where
  records : ∀ record ∈ page.records, RecordSeen seen record
  split : ∃ earlier, page.blobs = earlier ++ blob :: blobs ∧ ∀ blob ∈ earlier, BlobSeen seen blob

/-- What a merge may do with a page that it has not yet merged. -/
def MergeTask.Keeps (blake3Hex : List UInt8 → String) (files : HistoryFiles)
    (seen : HistoryReturn → Prop) (p : ℕ) (page : StagedPage) : MergeTask → Prop
  | .lookUp index record records blobs | .putRecord index record records blobs =>
    index = p → blobs = page.blobs ∧ ∃ earlier, page.records = earlier ++ record :: records ∧
      ∀ record ∈ earlier, RecordSeen seen record
  | .readPart index blob count bytes blobs =>
    index = p → AtBlob seen page blob blobs ∧ count < blob.parts ∧ (BlobSeen seen blob ∨
      ∃ chunks, chunks.length = count ∧ PartsAre files p blob.first chunks ∧
        chunks.flatten = bytes)
  | .putBlob index blob bytes blobs =>
    index = p → AtBlob seen page blob blobs ∧ (BlobSeen seen blob ∨ blake3Hex bytes = blob.hash)
  | .deletePart index blob count blobs =>
    index = p → AtBlob seen page blob blobs ∧ count < blob.parts ∧ BlobSeen seen blob
  | .deletePage index | .advance index => index = p → PageSettled seen page
  | .idle | .start | .readPage _ => True

/-- The page is in its files. -/
structure Pending (blake3Hex : List UInt8 → String) (seen : HistoryReturn → Prop) (p : ℕ)
    (page : StagedPage) (s : HistoryState) : Prop where
  journal : ∃ journal, s.files.journal = some journal ∧ journal.merged ≤ p ∧ p < journal.pages
  file : s.files.page p = some page
  ordered : page.blobs.Pairwise fun blob blob' => blob.first + blob.parts ≤ blob'.first
  blobs : ∀ blob ∈ page.blobs, BlobStored blake3Hex s.files p blob ∨ BlobSeen seen blob
  merges : ∀ i, (s.merges i).Keeps blake3Hex s.files seen p page

/-- The page has been merged, or is in its files. -/
def PageKept (blake3Hex : List UInt8 → String) (seen : HistoryReturn → Prop) (p : ℕ)
    (page : StagedPage) (s : HistoryState) : Prop :=
  PageSettled seen page ∨ Pending blake3Hex seen p page s

section

variable {account : String} {blake3Hex : List UInt8 → String} {seen seen' : HistoryReturn → Prop}
  {p : ℕ} {page : StagedPage} {files files' : HistoryFiles}
  {before after s : HistoryState} {op : HistoryOp} {ret : HistoryReturn}
variable {i count : ℕ} {call : MergeCall} {task task' : MergeTask} {blobs : List StagedBlob}
  {blob : StagedBlob} {record : AccountHistoryRecord}

section

variable (hseen : ∀ ret, seen ret → seen' ret)
include hseen

theorem RecordSeen.mono (h : RecordSeen seen record) :
  RecordSeen seen' record
  := h.imp (hseen _) (hseen _)

theorem BlobSeen.mono (h : BlobSeen seen blob) :
  BlobSeen seen' blob
  := h.imp fun _ => hseen _

theorem PageSettled.mono (h : PageSettled seen page) :
  PageSettled seen' page
  := ⟨fun record hrecord => (h.records record hrecord).mono hseen,
    fun blob hblob => (h.blobs blob hblob).mono hseen⟩

theorem AtBlob.mono (h : AtBlob seen page blob blobs) :
  AtBlob seen' page blob blobs
  := by
  obtain ⟨earlier, hsplit, hearlier⟩ := h.split
  exact ⟨fun record hrecord => (h.records record hrecord).mono hseen,
    earlier, hsplit, fun blob hblob => (hearlier blob hblob).mono hseen⟩

theorem MergeTask.Keeps.mono (h : task.Keeps blake3Hex files seen p page) :
  task.Keeps blake3Hex files seen' p page
  := by
  cases task with
  | lookUp index record records blobs | putRecord index record records blobs =>
    intro hindex
    obtain ⟨hblobs, earlier, hsplit, hearlier⟩ := h hindex
    exact ⟨hblobs, earlier, hsplit, fun record hrecord => (hearlier record hrecord).mono hseen⟩
  | readPart index blob count bytes blobs =>
    intro hindex
    obtain ⟨hat, hcount, hblob⟩ := h hindex
    exact ⟨hat.mono hseen, hcount, hblob.imp_left (BlobSeen.mono hseen)⟩
  | putBlob index blob bytes blobs =>
    intro hindex
    obtain ⟨hat, hblob⟩ := h hindex
    exact ⟨hat.mono hseen, hblob.imp_left (BlobSeen.mono hseen)⟩
  | deletePart index blob count blobs =>
    intro hindex
    obtain ⟨hat, hcount, hblob⟩ := h hindex
    exact ⟨hat.mono hseen, hcount, hblob.mono hseen⟩
  | deletePage index | advance index => exact fun hindex => (h hindex).mono hseen
  | idle | start | readPage _ => trivial

theorem Pending.mono (h : Pending blake3Hex seen p page s) :
  Pending blake3Hex seen' p page s
  := ⟨h.journal, h.file, h.ordered, fun blob hblob => (h.blobs blob hblob).imp_right
    (BlobSeen.mono hseen), fun i => (h.merges i).mono hseen⟩

end

/-- Whether a merge keeps a page depends on the parts of the page. -/
theorem MergeTask.Keeps.congr (h : task.Keeps blake3Hex files seen p page)
    (hpart : files'.part p = files.part p) :
  task.Keeps blake3Hex files' seen p page
  := by
  cases task with
  | readPart index blob count bytes blobs =>
    intro hindex
    obtain ⟨hat, hcount, hblob⟩ := h hindex
    refine ⟨hat, hcount, hblob.imp_right ?_⟩
    rintro ⟨chunks, hlength, hchunks, hbytes⟩
    exact ⟨chunks, hlength, hchunks.congr fun _ _ => by rw [hpart], hbytes⟩
  | _ => exact h

theorem MergeTask.keeps_of_ne (h : task.index? ≠ some p) :
  task.Keeps blake3Hex files seen p page
  := by
  cases task with
  | idle | start | readPage _ => trivial
  | _ => exact fun hindex => absurd (congrArg some hindex) h

section

variable (h : Pending blake3Hex seen p page before)
include h

/-- Files of other pages do not matter. -/
theorem Pending.files_congr
    (hjournal : ∃ journal, after.files.journal = some journal ∧ journal.merged ≤ p ∧
      p < journal.pages)
    (hpage : after.files.page p = before.files.page p)
    (hpart : after.files.part p = before.files.part p)
    (hmerges : ∀ i, (after.merges i).Keeps blake3Hex before.files seen p page) :
  Pending blake3Hex seen p page after
  where
  journal := hjournal
  file := hpage.trans h.file
  ordered := h.ordered
  blobs := fun blob hblob =>
    (h.blobs blob hblob).imp_left fun hstored => hstored.congr fun _ _ _ => by rw [hpart]
  merges := fun i => (hmerges i).congr hpart

/-- A staging leaves the pages of the journal alone. -/
theorem Pending.staging (hundisturbed : Undisturbed blake3Hex before) {call : StagingCall}
    (hstep : HistoryStep account blake3Hex before (.staging i call) ret after) :
  Pending blake3Hex seen p page after
  := by
  obtain ⟨task, hperform, -, hmerges⟩ := hstep.staging_cases
  obtain ⟨hsame, heffect⟩ := StagingTask.effect hperform
  obtain ⟨journal, hjournal, hmerged, hlt⟩ := h.journal
  have hapart : (before.stagings i).page? ≠ some p := by
    intro hpage
    have hpages := hundisturbed.behind i p hpage journal hjournal
    omega
  apply h.files_congr
  · cases heffect with
    | same hsame _ => exact ⟨journal, hsame.trans hjournal, hmerged, hlt⟩
    | begin journal' hjournal' hpages' hmerged' _ =>
      rw [hjournal, getD_some] at hpages' hmerged'
      exact ⟨journal', hjournal', by omega, by omega⟩
    | commit journal' page hjournal' hpage hpages' hmerged' _ =>
      rw [hjournal, getD_some] at hmerged'
      have hpages := hundisturbed.behind i page hpage journal hjournal
      exact ⟨journal', hjournal', by omega, by omega⟩
  · exact hsame.pageFile p hapart
  · exact hsame.partFiles p hapart
  · rw [hmerges]
    exact h.merges

/-- A merge leaves the other pages of the journal alone. -/
theorem Pending.merge_of_ne (hundisturbed : Undisturbed blake3Hex before)
    (hstep : HistoryStep account blake3Hex before (.merge i call) ret after)
    (hne : (before.merges i).index? ≠ some p) :
  Pending blake3Hex seen p page after
  := by
  obtain ⟨task, hperform, -, hmerges⟩ := hstep.merge_cases
  obtain ⟨hsame, heffect⟩ := effect hperform
  obtain ⟨journal, hjournal, hmerged, hlt⟩ := h.journal
  apply h.files_congr
  · cases heffect with
    | same hsame _ => exact ⟨journal, hsame.trans hjournal, hmerged, hlt⟩
    | start journal' hbefore hafter _ _ =>
      rw [hbefore] at hjournal
      obtain rfl := some.inj hjournal
      exact ⟨journal', hafter, hmerged, hlt⟩
    | remove journal' hbefore _ hnot _ _ =>
      rw [hbefore] at hjournal
      cases hjournal
      omega
    | advance k htask hafter _ =>
      have hindex : (before.merges i).index? = some k := by
        rw [htask]
        rfl
      obtain ⟨journal', hjournal', hmerged', -⟩ := hundisturbed.first i k hindex
      rw [hjournal] at hjournal'
      cases hjournal'
      rw [hjournal, map_some] at hafter
      have hk : k ≠ p := fun hk => hne (hk ▸ hindex)
      refine ⟨_, hafter, ?_, hlt⟩
      change max journal.merged (k + 1) ≤ p
      omega
  · exact hsame.pageFile p hne
  · exact hsame.partFiles p hne
  · intro j
    rw [hmerges]
    by_cases hj : j = i
    · subst hj
      rw [update_self]
      cases heffect with
      | same _ htask => exact keeps_of_ne fun hindex => hne (htask p hindex)
      | start _ _ _ _ htask | remove _ _ _ _ _ htask | advance _ _ _ htask => rw [htask]; trivial
    · rw [update_of_ne hj]
      exact h.merges j

/-! ### The merge of the page -/

omit h in
theorem MergeTask.keeps_readFrom {bytes : List UInt8} (hat : AtBlob seen page blob blobs)
    (hblob : BlobStored blake3Hex files p blob ∨ BlobSeen seen blob)
    (hread : BlobSeen seen blob ∨ ∃ chunks, chunks.length = count ∧
      PartsAre files p blob.first chunks ∧ chunks.flatten = bytes)
    (hcount : count ≤ blob.parts) :
  (readFrom p blob count bytes blobs).Keeps blake3Hex files seen p page
  := by
  unfold readFrom
  split
  case isTrue hlt => exact fun _ => ⟨hat, hlt, hread⟩
  case isFalse hge =>
    refine fun _ => ⟨hat, ?_⟩
    rcases hread with hseen | ⟨chunks, hlength, hchunks, rfl⟩
    · exact .inl hseen
    rcases hblob with ⟨all, hall, hparts, hhash⟩ | hseen
    · -- All parts have been read.
      right
      have htake := hparts.take_eq hchunks (by omega)
      rw [take_of_length_le (by omega)] at htake
      rw [htake]
      exact hhash
    · exact .inl hseen

omit h in
theorem MergeTask.keeps_nextBlob {earlier : List StagedBlob}
    (hrecords : ∀ record ∈ page.records, RecordSeen seen record)
    (hsplit : page.blobs = earlier ++ blobs) (hearlier : ∀ blob ∈ earlier, BlobSeen seen blob)
    (hblobs : ∀ blob ∈ page.blobs, BlobStored blake3Hex files p blob ∨ BlobSeen seen blob) :
  (nextBlob p blobs).Keeps blake3Hex files seen p page
  := by
  cases blobs with
  | nil =>
    rw [append_nil] at hsplit
    exact fun _ => ⟨hrecords, hsplit ▸ hearlier⟩
  | cons blob blobs =>
    have hmem : blob ∈ page.blobs := by simp [hsplit]
    apply keeps_readFrom ⟨hrecords, earlier, hsplit, hearlier⟩ (hblobs blob hmem)
    · exact .inr ⟨[], rfl, nofun, rfl⟩
    · exact Nat.zero_le _

omit h in
theorem MergeTask.keeps_nextRecord {earlier records : List AccountHistoryRecord}
    (hsplit : page.records = earlier ++ records)
    (hearlier : ∀ record ∈ earlier, RecordSeen seen record)
    (hblobs : ∀ blob ∈ page.blobs, BlobStored blake3Hex files p blob ∨ BlobSeen seen blob) :
  (nextRecord p records page.blobs).Keeps blake3Hex files seen p page
  := by
  cases records with
  | nil =>
    rw [append_nil] at hsplit
    have hnone : page.blobs = [] ++ page.blobs := rfl
    exact keeps_nextBlob (hsplit ▸ hearlier) hnone nofun hblobs
  | cons record records => exact fun _ => ⟨rfl, earlier, hsplit, hearlier⟩

omit h in
theorem MergeTask.keeps_deleteFrom (hat : AtBlob seen page blob blobs)
    (hblob : BlobSeen seen blob)
    (hblobs : ∀ blob ∈ page.blobs, BlobStored blake3Hex files p blob ∨ BlobSeen seen blob) :
  (deleteFrom p blob count blobs).Keeps blake3Hex files seen p page
  := by
  unfold deleteFrom
  split
  case isTrue hcount => exact fun _ => ⟨hat, hcount, hblob⟩
  case isFalse =>
    obtain ⟨earlier, hsplit, hearlier⟩ := hat.split
    rw [append_cons] at hsplit
    apply keeps_nextBlob hat.records hsplit _ hblobs
    exact forall_mem_append.mpr ⟨hearlier, forall_mem_singleton.mpr hblob⟩

/-- The task of a merge changes, and the files do not. -/
theorem Pending.goto (hfiles : after.files = before.files)
    (hmerges : after.merges = Function.update before.merges i task)
    (htask : task.Keeps blake3Hex before.files seen p page) :
  Pending blake3Hex seen p page after
  := by
  apply h.files_congr
  · rw [hfiles]
    exact h.journal
  · rw [hfiles]
  · rw [hfiles]
  · intro j
    rw [hmerges]
    by_cases hj : j = i
    · subst hj
      rw [update_self]
      exact htask
    · rw [update_of_ne hj]
      exact h.merges j

/-- The deletion of a part of a blob that has been stored. -/
theorem Pending.deletePart (hundisturbed : Undisturbed blake3Hex before)
    (htask : before.merges i = .deletePart p blob count blobs)
    (hfiles : after.files = before.files.writePart p (blob.first + count) none)
    (hmerges : after.merges =
      Function.update before.merges i (.deleteFrom p blob (count + 1) blobs)) :
  Pending blake3Hex seen p page after
  := by
  have hkeeps := h.merges i
  rw [htask] at hkeeps
  obtain ⟨hat, hcount, hseen⟩ := hkeeps rfl
  have hblobs : ∀ blob ∈ page.blobs, BlobStored blake3Hex after.files p blob ∨
      BlobSeen seen blob := by
    intro blob' hmem
    obtain ⟨earlier, hsplit, hearlier⟩ := hat.split
    have hordered := h.ordered
    rw [hsplit] at hmem hordered
    rcases mem_append.mp hmem with hmem' | hmem'
    · exact .inr (hearlier blob' hmem')
    rcases mem_cons.mp hmem' with rfl | hlater
    · exact .inr hseen
    -- The parts of later blobs are behind those of this one.
    have hbehind : blob.first + blob.parts ≤ blob'.first :=
      (pairwise_cons.mp (pairwise_append.mp hordered).2.1).1 blob' hlater
    refine (h.blobs blob' (hsplit ▸ hmem)).imp_left fun hstored => hstored.congr ?_
    intro part hfirst _
    have hne : part ≠ blob.first + count := by omega
    rw [hfiles]
    simp [HistoryFiles.writePart, hne]
  refine ⟨?_, ?_, h.ordered, hblobs, ?_⟩
  · rw [hfiles]
    exact h.journal
  · rw [hfiles]
    exact h.file
  · intro j
    rw [hmerges]
    by_cases hj : j = i
    · subst hj
      rw [update_self]
      exact keeps_deleteFrom hat hseen hblobs
    · have hidle : before.merges j = .idle := by
        by_contra hnot
        exact hj (hundisturbed.oneMerge j i hnot (by simp [htask]))
      rw [update_of_ne hj, hidle]
      trivial

omit h in
theorem MergeTask.stopped (hcall : call = .fail ∨ call = .halt)
    (h : task.perform blake3Hex files call = some (ret, files', task')) :
  files' = files ∧ task' = .idle
  := by
  rcases hcall with rfl | rfl <;> cases task <;> first | cases h; done | (cases h; exact ⟨rfl, rfl⟩)

/-- The next operation of the merge of the page keeps it, or completes the merge. -/
theorem Pending.advance (hundisturbed : Undisturbed blake3Hex before)
    (hnext : (before.merges i).next blake3Hex before.files = some (ret, after.files, task))
    (hmerges : after.merges = Function.update before.merges i task) (hret : seen ret)
    (hindex : (before.merges i).index? = some p) :
  PageKept blake3Hex seen p page after
  := by
  have hkeeps := h.merges i
  have hgoto : ∀ {task'}, after.files = before.files → task = task' →
      task'.Keeps blake3Hex before.files seen p page → Pending blake3Hex seen p page after := by
    rintro _ hfiles rfl htask
    exact h.goto hfiles hmerges htask
  generalize hcurrent : before.merges i = current at hindex hnext hkeeps
  cases current with
  | idle | start =>
    cases hindex
  | lookUp _ _ _ _ =>
    cases hnext
  | readPage index =>
    cases hindex
    simp only [MergeTask.next, h.file, some.injEq, mk.injEq] at hnext
    have hnone : page.records = [] ++ page.records := rfl
    exact .inr (hgoto hnext.2.1.symm hnext.2.2.symm
      (keeps_nextRecord hnone (by simp) h.blobs))
  | putRecord index record records blobs =>
    cases hindex
    simp only [MergeTask.next, some.injEq, mk.injEq] at hnext
    obtain ⟨rfl, hfiles, htask⟩ := hnext
    obtain ⟨rfl, earlier, hsplit, hearlier⟩ := hkeeps rfl
    refine .inr (hgoto hfiles.symm htask.symm ?_)
    rw [append_cons] at hsplit
    apply keeps_nextRecord hsplit _ h.blobs
    exact forall_mem_append.mpr ⟨hearlier, forall_mem_singleton.mpr (.inr hret)⟩
  | readPart index blob count bytes blobs =>
    cases hindex
    obtain ⟨hat, hcount, hread⟩ := hkeeps rfl
    obtain ⟨earlier, hsplit, -⟩ := hat.split
    have hblob := h.blobs blob (by simp [hsplit])
    simp only [MergeTask.next] at hnext
    split at hnext
    case h_1 chunk hchunk =>
      simp only [some.injEq, mk.injEq] at hnext
      refine .inr (hgoto hnext.2.1.symm hnext.2.2.symm ?_)
      apply keeps_readFrom hat hblob _ hcount
      refine hread.imp_right ?_
      rintro ⟨chunks, hlength, hchunks, hbytes⟩
      refine ⟨chunks ++ [chunk], by simp [hlength], hchunks.snoc ?_, by simp [hbytes]⟩
      rw [hlength]
      exact hchunk
    case h_2 hmissing =>
      simp only [some.injEq, mk.injEq] at hnext
      refine .inr (hgoto hnext.2.1.symm hnext.2.2.symm fun _ => ⟨hat, .inl ?_⟩)
      -- A part is missing only after the blob has been stored.
      rcases hblob with ⟨chunks, hlength, hparts, -⟩ | hseen
      · have hget := getElem?_eq_getElem (l := chunks) (i := count) (by omega)
        rw [hparts count _ hget] at hmissing
        cases hmissing
      · exact hseen
  | putBlob index blob bytes blobs =>
    cases hindex
    obtain ⟨hat, hblob⟩ := hkeeps rfl
    simp only [MergeTask.next] at hnext
    split at hnext
    case isTrue =>
      simp only [some.injEq, mk.injEq] at hnext
      obtain ⟨rfl, hfiles, htask⟩ := hnext
      exact .inr (hgoto hfiles.symm htask.symm
        (keeps_deleteFrom hat ⟨bytes, hret⟩ h.blobs))
    case isFalse hhash =>
      simp only [some.injEq, mk.injEq] at hnext
      exact .inr (hgoto hnext.2.1.symm hnext.2.2.symm
        (keeps_deleteFrom hat (hblob.resolve_right hhash) h.blobs))
  | deletePart index blob count blobs =>
    cases hindex
    simp only [MergeTask.next, some.injEq, mk.injEq] at hnext
    exact .inr (h.deletePart hundisturbed hcurrent hnext.2.1.symm (hnext.2.2 ▸ hmerges))
  | deletePage index | advance index =>
    cases hindex
    exact .inl (hkeeps rfl)

/-- A step of the merge of the page keeps it, or completes the merge. -/
theorem Pending.merge_self (hundisturbed : Undisturbed blake3Hex before)
    (hstep : HistoryStep account blake3Hex before (.merge i call) ret after) (hret : seen ret)
    (hindex : (before.merges i).index? = some p) :
  PageKept blake3Hex seen p page after
  := by
  obtain ⟨task, hperform, -, hmerges⟩ := hstep.merge_cases
  cases call with
  | merge =>
    generalize before.merges i = current at hindex hperform
    cases current with
    | idle =>
      cases hindex
    | _ =>
      cases hperform
  | fail =>
    obtain ⟨hfiles, rfl⟩ := stopped (.inl rfl) hperform
    exact .inr (h.goto hfiles hmerges trivial)
  | halt =>
    obtain ⟨hfiles, rfl⟩ := stopped (.inr rfl) hperform
    exact .inr (h.goto hfiles hmerges trivial)
  | advance => exact h.advance hundisturbed hperform hmerges hret hindex
  | answer held =>
    have hkeeps := h.merges i
    generalize before.merges i = found at hindex hperform hkeeps
    cases found with
    | lookUp index record records blobs =>
      cases hindex
      obtain ⟨rfl, earlier, hsplit, hearlier⟩ := hkeeps rfl
      simp only [perform] at hperform
      split at hperform <;> simp only [some.injEq, mk.injEq] at hperform
      · obtain ⟨rfl, hfiles, rfl⟩ := hperform
        refine .inr (h.goto hfiles.symm hmerges ?_)
        rw [append_cons] at hsplit
        apply keeps_nextRecord hsplit _ h.blobs
        exact forall_mem_append.mpr ⟨hearlier, forall_mem_singleton.mpr (.inl hret)⟩
      · obtain ⟨-, hfiles, rfl⟩ := hperform
        exact .inr (h.goto hfiles.symm hmerges fun _ => ⟨rfl, earlier, hsplit, hearlier⟩)
    | _ =>
      cases hperform

end

theorem PageKept.step (h : PageKept blake3Hex seen p page before)
    (hundisturbed : Undisturbed blake3Hex before)
    (hstep : HistoryStep account blake3Hex before op ret after)
    (hseen : ∀ ret, seen ret → seen' ret) (hret : seen' ret) :
  PageKept blake3Hex seen' p page after
  := by
  rcases h with hsettled | hpending
  · exact .inl (hsettled.mono hseen)
  replace hpending := hpending.mono hseen
  cases op with
  | stop =>
    obtain ⟨_, rfl⟩ := mk.inj (some.inj hstep)
    exact .inr ⟨hpending.journal, hpending.file, hpending.ordered, hpending.blobs, fun _ => trivial⟩
  | staging i call => exact .inr (hpending.staging hundisturbed hstep)
  | merge i call =>
    by_cases hindex : (before.merges i).index? = some p
    · exact hpending.merge_self hundisturbed hstep hret hindex
    · exact .inr (hpending.merge_of_ne hundisturbed hstep hindex)

/-! ### The commit -/

theorem StagingTask.perform_committed {task task' : StagingTask} {call : StagingCall}
    (h : task.perform account blake3Hex files call = some (.committed p page, files', task')) :
  ∃ stage next, task = .commitJournal stage page next ∧ stage.page = p ∧
    files' = { files with
      journal := some (HistoryJournal.commit files.journal (p + 1) next) }
  := by
  cases call with
  | advance =>
    cases task with
    | commitJournal stage page next => cases h; exact ⟨stage, next, rfl, rfl, rfl⟩
    | clearPart since index part =>
      simp only [perform, next] at h
      split at h <;> cases h
    | writePart stage current bytes =>
      obtain ⟨hret, -⟩ := mk.inj (some.inj h)
      unfold HistoryStage.written at hret
      simp only at hret
      split_ifs at hret
    | _ => cases h
  | records records | commit next =>
    cases task with
    | ready stage =>
      simp only [perform] at h
      split at h <;> cases h
    | _ => cases h
  | blob hash len offset bytes =>
    cases task with
    | ready stage =>
      obtain ⟨hret, -⟩ := mk.inj (some.inj h)
      unfold HistoryStage.receive at hret
      split at hret
      · cases hret
      · split at hret <;> cases hret
    | _ => cases h
  | _ => cases task <;> cases h

theorem MergeTask.perform_ne_committed :
  task.perform blake3Hex files call ≠ some (.committed p page, files', task')
  := by
  intro h
  cases call with
  | advance =>
    cases task with
    | start =>
      simp only [perform, next] at h
      split at h
      · cases h
      · split_ifs at h <;> cases h
    | readPage _ | readPart _ _ _ _ _ | putBlob _ _ _ _ =>
      simp only [perform, next] at h
      split at h <;> cases h
    | _ => cases h
  | answer held =>
    cases task with
    | lookUp _ _ _ _ =>
      simp only [perform] at h
      split at h <;> cases h
    | _ => cases h
  | _ => cases task <;> cases h

/-- A page is in its files when it is committed. -/
theorem pending_of_commit (h : Undisturbed blake3Hex before)
    (hstep : HistoryStep account blake3Hex before op (.committed p page) after) :
  Pending blake3Hex seen p page after
  := by
  cases op with
  | stop =>
    obtain ⟨hret, _⟩ := mk.inj (some.inj hstep)
    cases hret
  | merge i call =>
    obtain ⟨task, hperform, -⟩ := hstep.merge_cases
    exact absurd hperform perform_ne_committed
  | staging i call =>
    obtain ⟨task, hperform, -, hmerges⟩ := hstep.staging_cases
    obtain ⟨stage, next, htask, rfl, hfiles⟩ := StagingTask.perform_committed hperform
    have hpage : (before.stagings i).page? = some stage.page := by
      rw [htask]
      rfl
    have hsound := h.sound i
    rw [htask] at hsound
    obtain ⟨-, -, hsound, hfile⟩ := hsound
    have hmerged : (HistoryJournal.commit before.files.journal (stage.page + 1) next).merged ≤
        stage.page := by
      change (before.files.journal.getD .default).merged ≤ stage.page
      cases hjournal : before.files.journal with
      | none => exact Nat.zero_le _
      | some journal =>
        have hle := h.merged_le journal hjournal
        rw [h.behind i stage.page hpage journal hjournal] at hle
        exact hle
    refine ⟨⟨_, by rw [hfiles], hmerged, Nat.lt_succ_self _⟩, ?_, hsound.layout.ordered, ?_, ?_⟩
    · rw [hfiles]
      exact hfile
    · intro blob hblob
      rw [hfiles]
      exact .inl ((hsound.stored blob hblob).congr fun _ _ _ => rfl)
    · intro j
      rw [hmerges]
      apply keeps_of_ne
      intro hindex
      obtain ⟨journal, hjournal, -, hlt⟩ := h.first j stage.page hindex
      have hpages := h.behind i stage.page hpage journal hjournal
      omega

end

/-- A page that has been committed is in the journal until it is merged, as long as stagings and
merges have the files for themselves: before it leaves the journal every record has been stored or
found, and every blob has been stored. -/
theorem pages_kept {account : String} {blake3Hex : List UInt8 → String} {s₀ s : HistoryState}
    {h h' : List HistoryEvent} {e : HistoryEvent} {p : ℕ} {page : StagedPage}
    (htrace : Trace (HistoryStep account blake3Hex) s₀ (h ++ e :: h') s)
    (hidle : (∀ i, s₀.stagings i = .idle) ∧ ∀ i, s₀.merges i = .idle)
    (hjournal : ∀ journal, s₀.files.journal = some journal → journal.merged ≤ journal.pages)
    (hexclusive : ∀ e' ∈ h ++ e :: h', HistoryExclusive e')
    (hcommit : e.ret = .committed p page) :
  (∃ journal, s.files.journal = some journal ∧ journal.merged ≤ p ∧ p < journal.pages) ∨
  (∀ record ∈ page.records,
    (∃ e' ∈ h', e'.ret = .held record) ∨ ∃ e' ∈ h', e'.ret = .storedRecord record) ∧
  ∀ blob ∈ page.blobs, ∃ bytes, ∃ e' ∈ h', e'.ret = .storedBlob blob.hash bytes
  := by
  obtain ⟨hbefore, hstep, hafter⟩ := htrace.split_event
  have hstart : Undisturbed blake3Hex s₀ := by
    refine ⟨fun i _ hi => absurd (hidle.1 i) hi, fun i _ hi => absurd (hidle.2 i) hi, ?_, ?_,
      hjournal, ?_⟩
    · intro i page hpage
      rw [hidle.1 i] at hpage
      cases hpage
    · intro i index hindex
      rw [hidle.2 i] at hindex
      cases hindex
    · intro i
      rw [hidle.1 i]
      trivial
  have hundisturbed : Undisturbed blake3Hex e.before :=
    hbefore.invariant_of_forall (fun e' he' => hexclusive e' (mem_append_left _ he')) hstart
      fun _ _ _ _ hundisturbed hstep hevent => hundisturbed.step hstep hevent
  have hcommitted : PageKept blake3Hex (fun ret => ∃ e' ∈ ([] : List HistoryEvent), e'.ret = ret) p
      page e.after := by
    apply Or.inr
    rw [hcommit] at hstep
    exact pending_of_commit hundisturbed hstep
  have hboth : Undisturbed blake3Hex s ∧
      PageKept blake3Hex (fun ret => ∃ e' ∈ h', e'.ret = ret) p page s := by
    have hnext : Undisturbed blake3Hex e.after :=
      hundisturbed.step hstep (hexclusive e (mem_append_right _ (.head _)))
    have hrest : ∀ e' ∈ h', HistoryExclusive e' :=
      fun e' he' => hexclusive e' (mem_append_right _ (.tail _ he'))
    clear htrace hexclusive
    induction hafter with
    | nil => exact ⟨hnext, hcommitted⟩
    | @snoc h' s op ret s' _ hstep ih =>
      obtain ⟨hundisturbed, hkept⟩ := ih fun e' he' => hrest e' (mem_append_left _ he')
      refine ⟨hundisturbed.step hstep (hrest _ (by simp)), hkept.step hundisturbed hstep ?_ ?_⟩
      · rintro ret ⟨e', he', hret⟩
        exact ⟨e', mem_append_left _ he', hret⟩
      · exact ⟨_, mem_append_right _ (.head _), rfl⟩
  rcases hboth.2 with hsettled | hpending
  · exact .inr ⟨hsettled.records, hsettled.blobs⟩
  · exact .inl hpending.journal

/-! ### Two runs -/

namespace HistorySample

/-- A hash that tells the empty text from others. -/
def digest (bytes : List UInt8) : String :=
  String.ofList (List.replicate 64 (if bytes = [] then '0' else '1'))

def start : HistoryState :=
  ⟨⟨none, fun _ => none, fun _ _ => none⟩, fun _ => .idle, fun _ => .idle⟩

/-- A page with one blob of one part. -/
def page : StagedPage := ⟨[], [⟨digest [7], 0, 1⟩]⟩

/-- A staging receives the part. -/
def staged : List StagingCall :=
  [.begin .all "peer" 0, .advance, .advance, .advance, .blob (digest [7]) 1 0 [7], .advance]

/-- The page is committed, up to the journal. -/
def committing : List StagingCall := [.commit none, .advance]

/-- A staging finds the part, deletes it, and receives it again. -/
def stagedAgain : List StagingCall :=
  [.begin .all "peer" 0, .advance, .advance, .advance, .advance, .advance,
    .blob (digest [7]) 1 0 [7], .advance]

def dropped : List StagingCall := [.drop]

def committed : List HistoryOp := (staged ++ committing).map (.staging 0)

/-- A staging is dropped, and another one commits the same page. -/
def committedAfterDrop : List HistoryOp :=
  (staged ++ dropped).map (.staging 0) ++ (stagedAgain ++ committing).map (.staging 1)

/-- A page with one blob is merged. -/
def merging : List HistoryOp :=
  [.merge, .advance, .advance, .advance, .advance, .advance, .advance, .advance].map (.merge 0)

/-- The part is deleted for the staging that was dropped, and the page is merged. -/
def deletedAndMerged : List HistoryOp := .staging 0 .advance :: merging

def storesNothing (e : HistoryEvent) : Bool :=
  match e.ret with
  | .storedBlob _ _ => false
  | _ => true

def run (s : HistoryState) (ops : List HistoryOp) : List HistoryEvent × HistoryState :=
  Trace.replay (HistoryState.perform "" digest) s ops

/-- A single staging and a single merge have the files for themselves. -/
theorem exclusive_of_single {s₀ s : HistoryState} {h : List HistoryEvent}
    (htrace : Trace (HistoryStep "" digest) s₀ h s)
    (hidle : (∀ i, s₀.stagings i = .idle) ∧ ∀ i, s₀.merges i = .idle)
    (hop : ∀ e ∈ h, (∃ call, e.op = .staging 0 call) ∨ ∃ call, e.op = .merge 0 call) :
  ∀ e ∈ h, HistoryExclusive e
  := by
  intro e he
  obtain ⟨h₁, h₂, rfl⟩ := append_of_mem he
  obtain ⟨hbefore, hstep, _⟩ := htrace.split_event
  have hothers : ∀ j, j ≠ 0 → e.before.stagings j = .idle ∧ e.before.merges j = .idle := by
    apply hbefore.invariant_of_forall
      (P := fun s => ∀ j, j ≠ 0 → s.stagings j = .idle ∧ s.merges j = .idle)
      (fun e' he' => hop e' (mem_append_left _ he'))
    · intro j _
      exact ⟨hidle.1 j, hidle.2 j⟩
    · rintro s op ret s' hothers hstep (⟨call, rfl⟩ | ⟨call, rfl⟩) j hj
      · obtain ⟨task, _, hstagings, hmerges⟩ := hstep.staging_cases
        rw [hstagings, hmerges, update_of_ne hj]
        exact hothers j hj
      · obtain ⟨task, _, hstagings, hmerges⟩ := hstep.merge_cases
        rw [hstagings, hmerges, update_of_ne hj]
        exact hothers j hj
  constructor
  · intro i history peer nowSeconds hi j
    rcases hop e he with ⟨call, hcall⟩ | ⟨call, hcall⟩
    · obtain ⟨rfl, rfl⟩ := HistoryOp.staging.inj (hcall.symm.trans hi)
      by_cases hj : j = 0
      · subst hj
        rw [hcall] at hstep
        obtain ⟨task, hperform, _⟩ := hstep.staging_cases
        cases hcurrent : e.before.stagings 0 with
        | idle => rfl
        | _ =>
          rw [hcurrent] at hperform
          cases hperform
      · exact (hothers j hj).1
    · rw [hcall] at hi
      cases hi
  · intro i hi j
    rcases hop e he with ⟨call, hcall⟩ | ⟨call, hcall⟩
    · rw [hcall] at hi
      cases hi
    · obtain ⟨rfl, rfl⟩ := HistoryOp.merge.inj (hcall.symm.trans hi)
      by_cases hj : j = 0
      · subst hj
        rw [hcall] at hstep
        obtain ⟨task, hperform, _⟩ := hstep.merge_cases
        cases hcurrent : e.before.merges 0 with
        | idle => rfl
        | _ =>
          rw [hcurrent] at hperform
          cases hperform
      · exact (hothers j hj).2

end HistorySample

open HistorySample in
/-- The parts of a page are deleted for a staging that was dropped before, and the page is merged
without its blob. -/
theorem exists_discarded_blob :
  ∃ h h' e s, Trace (HistoryStep "" digest) start (h ++ e :: h') s ∧
    e.ret = .committed 0 page ∧ s.files.journal.map HistoryJournal.merged = some 1 ∧
    ∀ e' ∈ h', ∀ hash bytes, e'.ret ≠ .storedBlob hash bytes
  := by
  have hcommit : ∃ after, (run start committedAfterDrop).2.perform "" digest
      (.staging 1 .advance) = some (.committed 0 page, after) ∧
      (run after deletedAndMerged).2.files.journal.map HistoryJournal.merged = some 1 ∧
      (run after deletedAndMerged).1.all storesNothing :=
    ⟨_, rfl, by decide, by decide⟩
  obtain ⟨after, hcommit, hmerged, hstores⟩ := hcommit
  refine ⟨_, _, _, _, Trace.of_replay_cons (fun _ _ _ _ h => h) hcommit, rfl, hmerged, ?_⟩
  intro e' he' hash bytes hret
  have hnothing := all_eq_true.mp hstores e' he'
  simp [storesNothing, hret] at hnothing

open HistorySample in
theorem pages_kept_single :
  ∃ h h' e s, Trace (HistoryStep "" digest) start (h ++ e :: h') s ∧
    (∀ e' ∈ h ++ e :: h', HistoryExclusive e') ∧ e.ret = .committed 0 page ∧
    s.files.journal = none ∧ ∃ bytes, ∃ e' ∈ h', e'.ret = .storedBlob (digest [7]) bytes
  := by
  have hcommit : ∃ after, (run start committed).2.perform "" digest
      (.staging 0 .advance) = some (.committed 0 page, after) ∧
      (run after (merging ++ [.merge 0 .advance])).2.files.journal.isNone :=
    ⟨_, rfl, by decide⟩
  obtain ⟨after, hcommit, hnone⟩ := hcommit
  have htrace : Trace (HistoryStep "" digest) start
      ((run start committed).1 ++
        ⟨(run start committed).2, .staging 0 .advance, .committed 0 page, after⟩ ::
          (run after (merging ++ [.merge 0 .advance])).1)
      (run after (merging ++ [.merge 0 .advance])).2 :=
    Trace.of_replay_cons (fun _ _ _ _ h => h) hcommit
  have hidle : (∀ i, start.stagings i = .idle) ∧ ∀ i, start.merges i = .idle :=
    ⟨fun _ => rfl, fun _ => rfl⟩
  have hexclusive := exclusive_of_single htrace hidle ?_
  · have hkept := pages_kept htrace hidle nofun hexclusive rfl
    rw [isNone_iff_eq_none] at hnone
    rcases hkept with ⟨journal, hjournal, _⟩ | ⟨_, hblobs⟩
    · rw [hnone] at hjournal
      cases hjournal
    · exact ⟨_, _, _, _, htrace, hexclusive, rfl, hnone, hblobs ⟨digest [7], 0, 1⟩ (.head _)⟩
  · intro e he
    rcases mem_append.mp he with he | he
    · obtain ⟨call, _, hcall⟩ := mem_map.mp (Trace.op_mem_of_mem_replay he)
      exact .inl ⟨call, hcall.symm⟩
    · cases he with
      | head => exact .inl ⟨_, rfl⟩
      | tail _ he =>
        rcases mem_append.mp (Trace.op_mem_of_mem_replay he) with hop | hop
        · obtain ⟨call, _, hcall⟩ := mem_map.mp hop
          exact .inr ⟨call, hcall.symm⟩
        · exact .inr ⟨_, mem_singleton.mp hop⟩

end Kukuri
