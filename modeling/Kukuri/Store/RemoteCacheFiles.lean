import Kukuri.Store.RemoteCacheAccounting

/-!
# What the transactions of the remote cache do to files

A large blob is a file that is named by its hash, and its row says so. A transaction returns the
files that are to be unlinked once it has committed. `FileEffect` says what that means for the rows:
none of them gets a file but the one that is written, none is left with a file that is unlinked, and
a row that keeps a reference keeps its file.
-/

namespace Kukuri

open Result Ledger Eviction List Option Std.ExtTreeMap BTreeMap

/-- The key of a blob. -/
abbrev blobKey (hash : String) : CacheKey := toLex ("blob", hash)

/-- Files are named by the key of their row. -/
def Named (rows : BTreeMap CacheKey CacheRow) : Prop :=
  ∀ key row name, rows[key]? = some row → row.fileName = some name → key = blobKey name

/-- The row of a blob says that it is a file. -/
def HasFile (rows : BTreeMap CacheKey CacheRow) (name : String) : Prop :=
  ∃ row, rows[blobKey name]? = some row ∧ row.fileName = some name

/-- What a transaction does to files: `write` is the key and the file name of the row that it
writes, if any. -/
structure FileEffect (write : Option (CacheKey × Option String)) (cache cache' : RemoteCache)
    (removed : List String) : Prop where
  named : Named cache'.rows
  before : ∀ name, HasFile cache'.rows name →
    HasFile cache.rows name ∨ write = some (blobKey name, some name)
  removed : ∀ name ∈ removed, HasFile cache.rows name ∧ ¬ HasFile cache'.rows name
  kept : ∀ name reference, toLex (blobKey name, reference) ∈ cache.refs →
    toLex (blobKey name, reference) ∈ cache'.refs → HasFile cache.rows name →
    write ≠ some (blobKey name, none) → HasFile cache'.rows name

namespace FileEffect

variable {cache cache' cache'' : RemoteCache} {removed removed' : List String}
  {write : Option (CacheKey × Option String)}

theorem refl (hnamed : Named cache.rows) :
  FileEffect none cache cache []
  := ⟨hnamed, fun _ => .inl, by simp, fun _ _ _ _ hfile _ => hfile⟩

/-- Nothing is written by either of two changes, and no reference is taken away and put back. -/
theorem trans (h : FileEffect none cache cache' removed)
    (h' : FileEffect none cache' cache'' removed')
    (hrefs : ∀ item ∈ cache.refs, item ∈ cache''.refs → item ∈ cache'.refs) :
  FileEffect none cache cache'' (removed ++ removed')
  := by
  have hback : ∀ {name}, HasFile cache'.rows name → HasFile cache.rows name := by
    intro name hfile
    exact (h.before name hfile).resolve_right nofun
  have hback' : ∀ {name}, HasFile cache''.rows name → HasFile cache'.rows name := by
    intro name hfile
    exact (h'.before name hfile).resolve_right nofun
  refine ⟨h'.named, fun name hfile => .inl (hback (hback' hfile)), ?_, ?_⟩
  · intro name hname
    rcases mem_append.mp hname with hfirst | hsecond
    · exact ⟨(h.removed name hfirst).1, fun hfile => (h.removed name hfirst).2 (hback' hfile)⟩
    · exact ⟨hback (h'.removed name hsecond).1, (h'.removed name hsecond).2⟩
  · intro name reference href href' hfile _
    have hmid := hrefs _ href href'
    exact h'.kept name reference hmid href' (h.kept name reference href hmid hfile nofun) nofun

theorem exists_of_fileName_eq {row row' : Option CacheRow} {found : CacheRow}
    (h : row'.map CacheRow.fileName = row.map CacheRow.fileName) (hfound : row' = some found) :
  ∃ found', row = some found' ∧ found'.fileName = found.fileName
  := by
  rw [hfound] at h
  exact map_eq_some_iff.mp h.symm

/-- The rows stay as they are, but for columns other than the file. -/
theorem of_same (hnamed : Named cache.rows)
    (hsame : ∀ key : CacheKey,
      cache'.rows[key]?.map CacheRow.fileName = cache.rows[key]?.map CacheRow.fileName) :
  FileEffect none cache cache' []
  := by
  refine ⟨?_, ?_, by simp, ?_⟩
  · intro key row' name hrow' hname
    obtain ⟨row, hrow, hfile⟩ := exists_of_fileName_eq (hsame key) hrow'
    exact hnamed key row name hrow (hfile.trans hname)
  · rintro name ⟨row', hrow', hname⟩
    obtain ⟨row, hrow, hfile⟩ := exists_of_fileName_eq (hsame _) hrow'
    exact .inl ⟨row, hrow, hfile.trans hname⟩
  · rintro name reference - - ⟨row, hrow, hname⟩ -
    obtain ⟨row', hrow', hfile⟩ := exists_of_fileName_eq (hsame _).symm hrow
    exact ⟨row', hrow', hfile.trans hname⟩

/-- A row without a reference is erased, and its file is removed. -/
theorem of_erase {key : CacheKey} {row : CacheRow} (hnamed : Named cache.rows)
    (hrow : cache.rows[key]? = some row) (hrows : cache'.rows = cache.rows.erase key)
    (hfree : ∀ reference, toLex (key, reference) ∈ cache.refs →
      toLex (key, reference) ∉ cache'.refs) :
  FileEffect none cache cache' row.fileName.toList
  := by
  have hback : ∀ {key' : CacheKey} {row' : CacheRow}, cache'.rows[key']? = some row' →
      cache.rows[key']? = some row' := by
    intro key' row' hrow'
    rw [hrows] at hrow'
    exact getElem?_of_erase hrow'
  refine ⟨?_, ?_, ?_, ?_⟩
  · intro key' row' name hrow' hname
    exact hnamed key' row' name (hback hrow') hname
  · rintro name ⟨row', hrow', hname⟩
    exact .inl ⟨row', hback hrow', hname⟩
  · intro name hname
    rw [mem_toList] at hname
    cases hnamed key row name hrow hname
    refine ⟨⟨row, hrow, hname⟩, ?_⟩
    rintro ⟨row', hrow', -⟩
    rw [hrows, getElem?_erase_self] at hrow'
    cases hrow'
  · rintro name reference href href' ⟨row', hrow', hname⟩ -
    refine ⟨row', ?_, hname⟩
    have hne : key ≠ blobKey name := by
      rintro rfl
      exact hfree reference href href'
    rw [hrows, getElem?_erase_of_ne hne]
    exact hrow'

/-- Rows are deleted, and then one of the others is written. -/
theorem insert {key : CacheKey} (row : CacheRow) {old : Option CacheRow}
    (h : FileEffect none cache cache' removed) (hrow : ∀ name, row.fileName = some name →
      key = blobKey name) (hrefs : cache''.refs = cache'.refs)
    (hrows : cache''.rows = cache'.rows.insert key row) (hold : cache.rows[key]? = old)
    (hold' : cache'.rows[key]? = old) (hnamed : Named cache.rows) :
  FileEffect (some (key, row.fileName)) cache cache''
    (removed ++ ((old.bind CacheRow.fileName).filter (row.fileName ≠ some ·)).toList)
  := by
  have hself : cache''.rows[key]? = some row := by
    rw [hrows, getElem?_insert_self]
  have hother : ∀ {key' : CacheKey}, key ≠ key' →
      cache''.rows[key']? = cache'.rows[key']? := by
    intro key' hne
    rw [hrows, getElem?_insert_of_ne hne]
  refine ⟨?_, ?_, ?_, ?_⟩
  · intro key' row' name hrow' hname
    by_cases hkey : key = key'
    · subst hkey
      cases hself.symm.trans hrow'
      exact hrow name hname
    · rw [hother hkey] at hrow'
      exact h.named key' row' name hrow' hname
  · rintro name ⟨row', hrow', hname⟩
    by_cases hkey : key = blobKey name
    · subst hkey
      cases hself.symm.trans hrow'
      exact .inr (by rw [hname])
    · rw [hother hkey] at hrow'
      exact .inl ((h.before name ⟨row', hrow', hname⟩).resolve_right nofun)
  · intro name hname
    rcases mem_append.mp hname with hremoved | hreplaced
    · obtain ⟨⟨row', hrow', hfile⟩, hgone⟩ := h.removed name hremoved
      refine ⟨⟨row', hrow', hfile⟩, ?_⟩
      -- The row that is written was not deleted before.
      have hne : key ≠ blobKey name := by
        rintro rfl
        exact hgone ⟨row', hold'.trans (hold.symm.trans hrow'), hfile⟩
      rintro ⟨row'', hrow'', hfile'⟩
      rw [hother hne] at hrow''
      exact hgone ⟨row'', hrow'', hfile'⟩
    · rw [mem_toList] at hreplaced
      obtain ⟨hbind, hne⟩ := filter_eq_some_iff.mp hreplaced
      obtain ⟨row', hrow', hfile⟩ := bind_eq_some_iff.mp hbind
      rw [← hold] at hrow'
      cases hnamed key row' name hrow' hfile
      refine ⟨⟨row', hrow', hfile⟩, ?_⟩
      rintro ⟨row'', hrow'', hfile'⟩
      cases hself.symm.trans hrow''
      simp [hfile'] at hne
  · intro name reference href href' hfile hwrite
    rw [hrefs] at href'
    have hkept := h.kept name reference href href' hfile nofun
    by_cases hkey : key = blobKey name
    · subst hkey
      refine ⟨row, hself, ?_⟩
      cases hname : row.fileName with
      | none => simp [hname] at hwrite
      | some name' =>
        have hkey := hrow name' hname
        simp only [blobKey, EmbeddingLike.apply_eq_iff_eq, Prod.mk.injEq, true_and] at hkey
        rw [hkey]
    · obtain ⟨row', hrow', hname⟩ := hkept
      exact ⟨row', (hother hkey).trans hrow', hname⟩

end FileEffect

variable {cache : RemoteCache} {rows : BTreeMap CacheKey CacheRow} {row : CacheRow}
  {refs : BTreeSet (CacheKey ×ₗ String)} {victims : List (CacheKey × CacheRow)}

/-! ### Deleting rows -/

/-- Rows that are not protected have no reference. -/
def FreeRows (rows : BTreeMap CacheKey CacheRow) (refs : BTreeSet (CacheKey ×ₗ String)) : Prop :=
  ∀ key row, rows[key]? = some row → row.isProtected = false →
    ∀ reference, toLex (key, reference) ∉ refs

theorem freeRows_of_sound (h : Sound cacheColumns cache) :
  FreeRows cache.rows cache.refs
  := by
  intro key row hrow hfree reference href
  have hheld : cache.held key = true := held_iff.mpr ⟨reference, href⟩
  rw [← h.flagged key row hrow, cacheColumns_isProtected, hfree] at hheld
  cases hheld

theorem FreeRows.erase (h : FreeRows rows refs) (key : CacheKey) :
  FreeRows (rows.erase key) refs
  := fun key' row hrow => h key' row (getElem?_of_erase hrow)

/-- A free row is deleted. -/
theorem fileEffect_deleteCacheItem {state : Eviction} {key : CacheKey} (hnamed : Named state.rows)
    (hfree : FreeRows state.rows refs) (hrow : state.rows[key]? = some row)
    (hflag : row.isProtected = false) (used used' : ℤ) :
  FileEffect none ⟨state.rows, refs, used⟩ ⟨(state.deleteCacheItem key row).rows, refs, used'⟩
    row.fileName.toList
  := .of_erase hnamed hrow rfl fun reference href =>
      absurd href (hfree key row hrow hflag reference)

theorem fileEffect_evictWhile {pick : Eviction → Option (CacheKey × CacheRow)} (hpick : Picks pick)
    (count : ℕ) (state : Eviction) (hnamed : Named state.rows) (hfree : FreeRows state.rows refs)
    (used used' : ℤ) :
  ∃ removed, (evictWhile pick count state).removedFiles = state.removedFiles ++ removed ∧
    FileEffect none ⟨state.rows, refs, used⟩ ⟨(evictWhile pick count state).rows, refs, used'⟩
      removed
  := by
  induction count generalizing state used with
  | zero => exact ⟨[], (append_nil _).symm, .of_same hnamed fun _ => rfl⟩
  | succ count ih =>
    simp only [evictWhile]
    split
    case h_1 key row hvictim =>
      obtain ⟨hrow, hflag⟩ := hpick state key row hvictim
      have hdelete := fileEffect_deleteCacheItem hnamed hfree hrow hflag used used
      obtain ⟨removed, hremoved, heffect⟩ := ih (state.deleteCacheItem key row) hdelete.named
        (hfree.erase key) used
      refine ⟨row.fileName.toList ++ removed, ?_, hdelete.trans heffect fun _ hitem _ => hitem⟩
      rw [hremoved, ← append_assoc]
      rfl
    case h_2 => exact ⟨[], (append_nil _).symm, .of_same hnamed fun _ => rfl⟩

theorem fileEffect_deleteAll (hnodup : (victims.map Prod.fst).Nodup) (state : Eviction)
    (hnamed : Named state.rows) (hfree : FreeRows state.rows refs)
    (hrows : ∀ victim ∈ victims,
      state.rows[victim.1]? = some victim.2 ∧ victim.2.isProtected = false) (used used' : ℤ) :
  let state' := victims.foldl (fun state victim => state.deleteCacheItem victim.1 victim.2) state
  ∃ removed, state'.removedFiles = state.removedFiles ++ removed ∧
    FileEffect none ⟨state.rows, refs, used⟩ ⟨state'.rows, refs, used'⟩ removed
  := by
  induction victims generalizing state used with
  | nil => exact ⟨[], (append_nil _).symm, .of_same hnamed fun _ => rfl⟩
  | cons victim victims ih =>
    rw [map_cons, nodup_cons] at hnodup
    obtain ⟨hrow, hflag⟩ := hrows victim (by simp)
    have hdelete := fileEffect_deleteCacheItem hnamed hfree hrow hflag used used
    obtain ⟨removed, hremoved, heffect⟩ := ih hnodup.2 (state.deleteCacheItem victim.1 victim.2)
      hdelete.named (hfree.erase victim.1) (by
        intro other hother
        obtain ⟨hrow', hflag'⟩ := hrows other (mem_cons_of_mem _ hother)
        have hne : victim.1 ≠ other.1 := by
          intro heq
          exact hnodup.1 (heq ▸ mem_map_of_mem hother)
        exact ⟨(getElem?_erase_of_ne hne).trans hrow', hflag'⟩) used
    refine ⟨victim.2.fileName.toList ++ removed, ?_, hdelete.trans heffect fun _ hitem _ => hitem⟩
    rw [foldl_cons, hremoved, ← append_assoc]
    rfl

theorem fileEffect_deleteRemoteCacheStep (hsound : Sound cacheColumns cache)
    (hnamed : Named cache.rows) (h : Deletable cache victims) :
  FileEffect none cache (deleteRemoteCacheStep cache victims).1
    (deleteRemoteCacheStep cache victims).2
  := by
  obtain ⟨removed, hremoved, heffect⟩ := fileEffect_deleteAll h.nodup_keys
    ⟨cache.rows, cache.used, []⟩ hnamed (freeRows_of_sound hsound) h.rows cache.used
    (deleteRemoteCacheStep cache victims).1.used
  unfold deleteRemoteCacheStep
  dsimp only
  rw [hremoved]
  exact heffect

theorem fileEffect_removeRemoteContent (hsound : Sound cacheColumns cache)
    (hnamed : Named cache.rows) (kind key : String) :
  FileEffect none cache (removeRemoteContent cache kind key).1
    (removeRemoteContent cache kind key).2
  := by
  unfold removeRemoteContent
  split
  case h_1 => exact .refl hnamed
  case h_2 row hrow =>
    obtain ⟨hsome, hflag⟩ := filter_eq_some_iff.mp hrow
    refine .of_erase hnamed hsome rfl fun reference href => absurd href ?_
    exact freeRows_of_sound hsound _ row hsome (by simpa using hflag) reference

/-- A removal removes no file but the one of its row. -/
theorem eq_of_mem_removeRemoteContent (hnamed : Named cache.rows) {kind key name : String}
    (hname : name ∈ (removeRemoteContent cache kind key).2) :
  name = key
  := by
  unfold removeRemoteContent at hname
  split at hname
  case h_1 => cases hname
  case h_2 row hrow =>
    obtain ⟨hsome, -⟩ := filter_eq_some_iff.mp hrow
    have hkey := hnamed _ row name hsome (mem_toList.mp hname)
    exact (Prod.mk.inj (toLex.injective hkey)).2.symm

/-! ### Writing rows -/

/-- A row is written, and one that is admitted is there afterwards. -/
theorem fileEffect_placeContent (hsound : Sound cacheColumns cache) (hnamed : Named cache.rows)
    (item : CacheKey) (row : CacheRow) (budget : ℤ)
    (hitem : ∀ name, row.fileName = some name → item = blobKey name) :
  if (placeContent cache item row budget).1 then
    FileEffect (some (item, row.fileName)) cache (placeContent cache item row budget).2.1
      (placeContent cache item row budget).2.2 ∧
    ∃ row', (placeContent cache item row budget).2.1.rows[item]? = some row' ∧
      row'.fileName = row.fileName
  else FileEffect none cache (placeContent cache item row budget).2.1
      (placeContent cache item row budget).2.2
  := by
  unfold placeContent
  dsimp only
  split
  case isTrue => simpa using .refl hnamed
  case isFalse =>
    generalize hevicted : evictWhile (pickForContent item budget _) remoteCacheReclaimStep _ =
      evicted
    have heffect : ∀ used', FileEffect none cache ⟨evicted.rows, cache.refs, used'⟩
        evicted.removedFiles := by
      intro used'
      obtain ⟨removed, hremoved, heffect⟩ := fileEffect_evictWhile
        (picks_content item budget (row.lastUsedAt - remoteCacheUnusedMs)) remoteCacheReclaimStep
        ⟨cache.rows, _, []⟩ hnamed (freeRows_of_sound hsound) cache.used used'
      rw [hevicted, nil_append] at hremoved
      rw [hevicted] at heffect
      rw [hremoved]
      exact heffect
    have hkept : evicted.rows[item]? = cache.rows[item]? := by
      rw [← hevicted]
      exact getElem?_evictWhile (fun state row' h => (pickForContent_spec h).2.2 rfl) ..
    split
    case isTrue => simpa using heffect _
    case isFalse =>
      refine ⟨?_, _, getElem?_insert_self, rfl⟩
      exact FileEffect.insert { row with isProtected := cache.held item } (heffect 0) hitem rfl rfl
        rfl hkept hnamed

/-! ### References -/

theorem fileName_protectRow (rows : BTreeMap CacheKey CacheRow) (key key' : CacheKey)
    (flag : Bool) :
  (protectRow cacheColumns rows key flag)[key']?.map CacheRow.fileName =
    rows[key']?.map CacheRow.fileName
  := by
  unfold protectRow
  split
  case h_1 row hrow =>
    by_cases hkey : key = key'
    · subst hkey
      rw [getElem?_insert_self, hrow]
      rfl
    · rw [getElem?_insert_of_ne hkey]
  case h_2 => rfl

section

variable (hnamed : Named cache.rows)
include hnamed

theorem fileEffect_addRemoteProtectedRef (kind key reference : String) :
  FileEffect none cache (addRemoteProtectedRef cache kind key reference) []
  := .of_same hnamed fun _ => fileName_protectRow ..

omit hnamed in
theorem refs_removeRemoteProtectedRef (cache : RemoteCache) (kind key reference : String)
    (budget : ℤ) :
  (removeRemoteProtectedRef cache kind key reference budget).1.refs =
    cache.refs.erase (toLex (toLex (kind, key), reference))
  := by
  unfold removeRemoteProtectedRef
  dsimp only
  split
  case isTrue => rfl
  case isFalse =>
    split
    case h_1 => rfl
    case h_2 => split <;> rfl

/-- A row loses its file only with its last reference. -/
theorem fileEffect_removeRemoteProtectedRef (kind key reference : String) (budget : ℤ) :
  FileEffect none cache (removeRemoteProtectedRef cache kind key reference budget).1
    (removeRemoteProtectedRef cache kind key reference budget).2
  := by
  unfold removeRemoteProtectedRef
  dsimp only
  split
  case isTrue => exact .of_same hnamed fun _ => rfl
  case isFalse hlast =>
    split
    case h_1 => exact .of_same hnamed fun _ => rfl
    case h_2 row hrow =>
      obtain ⟨hsome, -⟩ := filter_eq_some_iff.mp hrow
      split
      case isTrue =>
        apply FileEffect.of_same hnamed
        intro key'
        by_cases hkey : toLex (kind, key) = key'
        · subst hkey
          rw [getElem?_insert_self]
          change cache.rows[_]? = _ at hsome
          rw [hsome]
          rfl
        · rw [getElem?_insert_of_ne hkey]
      case isFalse =>
        apply FileEffect.of_erase hnamed hsome rfl
        intro reference' _ href'
        exact hlast (held_iff.mpr ⟨reference', href'⟩)

/-- References are taken away one after the other. -/
theorem fileEffect_release (reference : String) (budget : ℤ) (removed : List CacheKey) :
  let state := removed.foldl (releaseRef reference budget) (cache, [])
  FileEffect none cache state.1 state.2 ∧
    ∀ item, item ∈ state.1.refs ↔ item ∈ cache.refs ∧
      ∀ key ∈ removed, item ≠ toLex (key, reference)
  := by
  induction removed using reverseRecOn with
  | nil => exact ⟨.refl hnamed, by simp⟩
  | append_singleton removed last ih =>
    obtain ⟨heffect, hrefs⟩ := ih
    rw [foldl_append, foldl_cons, foldl_nil]
    generalize removed.foldl (releaseRef reference budget) (cache, []) = state at heffect hrefs ⊢
    have hlast : (releaseRef reference budget state last).1.refs =
        state.1.refs.erase (toLex (last, reference)) := refs_removeRemoteProtectedRef ..
    refine ⟨heffect.trans (fileEffect_removeRemoteProtectedRef heffect.named ..) ?_, ?_⟩
    · intro item _ hitem
      rw [hlast] at hitem
      exact Std.ExtTreeSet.mem_of_mem_erase hitem
    · intro item
      rw [hlast, Std.ExtTreeSet.mem_erase, hrefs]
      simp only [mem_append, mem_singleton, or_imp, forall_and, forall_eq]
      constructor
      · rintro ⟨hne, hitem, hall⟩
        refine ⟨hitem, hall, fun heq => hne ?_⟩
        rw [heq]
        exact compare_eq_iff_eq.mpr rfl
      · rintro ⟨hitem, hall, hne⟩
        exact ⟨fun heq => hne (compare_eq_iff_eq.mp heq).symm, hitem, hall⟩

/-- References are added one after the other. -/
theorem fileEffect_hold (reference : String) (added : List CacheKey) :
  let cache' := added.foldl (fun cache item =>
    addRemoteProtectedRef cache (ofLex item).1 (ofLex item).2 reference) cache
  FileEffect none cache cache' [] ∧
    ∀ item, item ∈ cache'.refs ↔ item ∈ cache.refs ∨ ∃ key ∈ added, item = toLex (key, reference)
  := by
  induction added generalizing cache with
  | nil => exact ⟨.refl hnamed, by simp⟩
  | cons first added ih =>
    have hfirst := fileEffect_addRemoteProtectedRef hnamed (ofLex first).1 (ofLex first).2 reference
    have hmem : ∀ item, item ∈ (addRemoteProtectedRef cache (ofLex first).1 (ofLex first).2
        reference).refs ↔ item = toLex (first, reference) ∨ item ∈ cache.refs := by
      intro item
      show item ∈ cache.refs.insert (toLex (first, reference)) ↔ _
      rw [Std.ExtTreeSet.mem_insert, compare_eq_iff_eq, eq_comm]
    obtain ⟨heffect, hrefs⟩ := ih hfirst.named
    refine ⟨hfirst.trans heffect fun item hitem _ => (hmem item).mpr (.inr hitem), ?_⟩
    intro item
    rw [foldl_cons, hrefs, hmem]
    simp only [mem_cons, or_and_right, exists_or, exists_eq_left]
    tauto

/-- References are replaced. None is taken away and put back. -/
theorem fileEffect_replaceRemoteProtectedRefs (reference : String) (removed added : List CacheKey)
    (budget : ℤ) (hdisjoint : ∀ key ∈ removed, key ∉ added) :
  let result := replaceRemoteProtectedRefs cache reference removed added budget
  FileEffect none cache result.1 result.2 ∧
    ∀ item, item ∈ result.1.refs ↔
      (item ∈ cache.refs ∧ ∀ key ∈ removed, item ≠ toLex (key, reference)) ∨
        ∃ key ∈ added, item = toLex (key, reference)
  := by
  obtain ⟨hrelease, hkept⟩ := fileEffect_release hnamed reference budget removed
  obtain ⟨hhold, hrefs⟩ := fileEffect_hold hrelease.named reference added
  constructor
  · rw [← append_nil (replaceRemoteProtectedRefs cache reference removed added budget).2]
    refine hrelease.trans hhold fun item hitem hitem' => ?_
    rcases (hrefs item).mp hitem' with hreleased | ⟨key, hkey, rfl⟩
    · exact hreleased
    · refine (hkept _).mpr ⟨hitem, fun key' hkey' heq => ?_⟩
      cases (Prod.mk.inj (toLex.injective heq)).1
      exact hdisjoint key hkey' hkey
  · intro item
    exact (hrefs item).trans (or_congr_left (hkept item))

end

end Kukuri
