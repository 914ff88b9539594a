import Kukuri.Data.Trace
import Kukuri.Store.RemoteCache

/-!
# The accounts of the remote cache

Every transaction of the cache changes its ledger by the rules of `Ledger.Grow` and
`Ledger.Release`, and keeps the total within the budget. The main result, `remote_cache_accounts`,
is about every sequence of operations that starts from an empty cache: the total is the sum of the
unprotected charges, the protected rows are those with a reference, no such row is deleted while it
has one, the total and the reservations stay within the capacity, and content with a reference is
never refused.
-/

namespace Kukuri

open Result Ledger Eviction List Option BTreeMap Bool CacheStore

variable {cache cache' : RemoteCache} {budget now : ℤ} {kind key scope hash : String}
  {recordKey recordAuthor retained : Option String} {payload : CachePayload}
  {victims : List (CacheKey × CacheRow)} {store store' : CacheStore} {op : CacheOp}
  {ret : Result Bool}

/-! ### Eviction -/

/-- The rows that are picked are rows that are not protected. -/
def Picks (pick : Eviction → Option (CacheKey × CacheRow)) : Prop :=
  ∀ state key row, pick state = some (key, row) →
    state.rows[key]? = some row ∧ row.isProtected = false

theorem oldest_spec {rows : BTreeMap CacheKey CacheRow} {p : CacheKey → CacheRow → Bool}
    {key : CacheKey} {row : CacheRow} (h : oldest rows p = some (key, row)) :
  rows[key]? = some row ∧ p key row = true
  := by
  obtain ⟨hmem, -⟩ := minBy_spec (fun _ _ => rfl) h
  obtain ⟨hrow, hp⟩ := mem_filter.mp hmem
  exact ⟨mem_toList.mp hrow, hp⟩

/-- The row that is picked for content is not protected and is not the one that is written. -/
theorem pickForContent_spec {item : CacheKey} {expired : ℤ} {state : Eviction} {key : CacheKey}
    {row : CacheRow} (h : pickForContent item budget expired state = some (key, row)) :
  state.rows[key]? = some row ∧ row.isProtected = false ∧ key ≠ item
  := by
  unfold pickForContent at h
  split at h
  case h_1 victim hexpired =>
    cases h
    obtain ⟨hrow, hp⟩ := oldest_spec hexpired
    simp only [and_eq_true, not_eq_true', decide_eq_true_eq] at hp
    exact ⟨hrow, hp.1.1, hp.2⟩
  case h_2 =>
    split at h
    case isTrue =>
      obtain ⟨hrow, hp⟩ := oldest_spec h
      simp only [and_eq_true, not_eq_true', decide_eq_true_eq] at hp
      exact ⟨hrow, hp.1, hp.2⟩
    case isFalse => cases h

theorem picks_content (item : CacheKey) (budget expired : ℤ) :
  Picks (pickForContent item budget expired)
  := by
  intro state key row h
  obtain ⟨hrow, hfree, -⟩ := pickForContent_spec h
  exact ⟨hrow, hfree⟩

theorem picks_reservation (target : ℕ) :
  Picks (CacheStore.pickForReservation target)
  := by
  intro state key row h
  unfold pickForReservation at h
  split at h
  case isTrue =>
    obtain ⟨hrow, hp⟩ := oldest_spec h
    exact ⟨hrow, by simpa using hp⟩
  case isFalse => cases h

/-- Deleting an unprotected row sheds it from a ledger, whatever else the total counts. -/
theorem grow_deleteCacheItem {state : Eviction} {key : CacheKey} {row : CacheRow}
    (hrow : state.rows[key]? = some row) (hfree : row.isProtected = false)
    (refs : BTreeSet (CacheKey ×ₗ String)) (rest : ℤ) :
  Grow cacheColumns ⟨state.rows, refs, state.used + rest⟩
    ⟨(state.deleteCacheItem key row).rows, refs, (state.deleteCacheItem key row).used + rest⟩
  := by
  have hshed : Grow cacheColumns (⟨state.rows, refs, state.used + rest⟩ : RemoteCache) _ :=
    .shed hrow hfree
  have hused : state.used + rest - (cacheColumns.charge row : ℤ) =
      (state.deleteCacheItem key row).used + rest := by
    show _ = state.used - (row.chargedBytes : ℤ) + rest
    rw [cacheColumns_charge]
    omega
  rw [hused] at hshed
  exact hshed

/-- A loop that evicts sheds rows. -/
theorem grows_evictWhile {pick : Eviction → Option (CacheKey × CacheRow)} (hpick : Picks pick)
    (count : ℕ) (state : Eviction) (refs : BTreeSet (CacheKey ×ₗ String)) (rest : ℤ) :
  Grows cacheColumns ⟨state.rows, refs, state.used + rest⟩
    ⟨(evictWhile pick count state).rows, refs, (evictWhile pick count state).used + rest⟩
  := by
  induction count generalizing state with
  | zero => exact .refl
  | succ count ih =>
    simp only [evictWhile]
    split
    case h_1 key row hvictim =>
      obtain ⟨hrow, hfree⟩ := hpick state key row hvictim
      exact .head (grow_deleteCacheItem hrow hfree refs rest) (ih _)
    case h_2 => exact .refl

theorem used_evictWhile_le (pick : Eviction → Option (CacheKey × CacheRow)) (count : ℕ)
    (state : Eviction) :
  (evictWhile pick count state).used ≤ state.used
  := by
  induction count generalizing state with
  | zero => exact le_rfl
  | succ count ih =>
    simp only [evictWhile]
    split
    case h_1 key row _ =>
      apply (ih _).trans
      show state.used - (row.chargedBytes : ℤ) ≤ state.used
      omega
    case h_2 => exact le_rfl

/-- A row that is never picked stays. -/
theorem getElem?_evictWhile {pick : Eviction → Option (CacheKey × CacheRow)} {key : CacheKey}
    (hnever : ∀ state row, pick state ≠ some (key, row)) (count : ℕ) (state : Eviction) :
  (evictWhile pick count state).rows[key]? = state.rows[key]?
  := by
  induction count generalizing state with
  | zero => rfl
  | succ count ih =>
    simp only [evictWhile]
    split
    case h_1 key' row hvictim =>
      have hne : key' ≠ key := by
        rintro rfl
        exact hnever state row hvictim
      rw [ih]
      exact getElem?_erase_of_ne hne
    case h_2 => rfl

/-! ### References -/

theorem grow_addRemoteProtectedRef (cache : RemoteCache) (kind key reference : String) :
  Grow cacheColumns cache (addRemoteProtectedRef cache kind key reference)
  := .hold

theorem used_addRemoteProtectedRef_le (cache : RemoteCache) (kind key reference : String) :
  (addRemoteProtectedRef cache kind key reference).used ≤ cache.used
  := by
  show cache.used - (cacheColumns.countedIn _ : ℤ) ≤ cache.used
  omega

theorem claimRetainedScope_spec (cache : RemoteCache) (key : String) (retained : Option String) :
  Grows cacheColumns cache (claimRetainedScope cache key retained) ∧
    (claimRetainedScope cache key retained).used ≤ cache.used
  := by
  unfold claimRetainedScope
  split
  case h_1 => exact ⟨.refl, le_rfl⟩
  case h_2 reference =>
    split
    case isTrue => exact ⟨.refl, le_rfl⟩
    case isFalse =>
      exact ⟨.single (grow_addRemoteProtectedRef ..), used_addRemoteProtectedRef_le ..⟩

/-- A reference is taken away within the budget. -/
theorem removeRemoteProtectedRef_spec (hused : cache.used ≤ budget)
    (hbudget : budget < I64.greatest) :
  Release cacheColumns (toLex (kind, key)) reference cache
      (removeRemoteProtectedRef cache kind key reference budget).1 ∧
    (removeRemoteProtectedRef cache kind key reference budget).1.used ≤ budget
  := by
  unfold removeRemoteProtectedRef
  dsimp only
  split
  case isTrue hheld => exact ⟨.keep rfl (.inl hheld), hused⟩
  case isFalse hheld =>
    rw [not_eq_true] at hheld
    split
    case h_1 hrow =>
      refine ⟨.keep rfl (.inr ?_), hused⟩
      intro row hsome
      change cache.rows[_]? = some row at hsome
      change cache.rows[_]?.filter _ = none at hrow
      have hfree : row.isProtected = false := by simpa [hsome] using hrow
      exact hfree
    case h_2 row hrow =>
      obtain ⟨hsome, hflag⟩ := filter_eq_some_iff.mp hrow
      split
      case isTrue hfits =>
        refine ⟨.free rfl hheld hsome hflag, ?_⟩
        show cache.used + (row.chargedBytes : ℤ) ≤ budget
        change I64.saturatingAdd cache.used row.chargedBytes ≤ budget at hfits
        unfold I64.saturatingAdd I64.clamp at hfits
        omega
      case isFalse => exact ⟨.drop rfl hheld hsome hflag, hused⟩

/-! ### Transactions -/

/-- What a transaction that takes no reference away does: it grows the ledger and keeps the total
within the budget. -/
structure KeepsBudget (budget : ℤ) (cache cache' : RemoteCache) : Prop where
  grows : Grows cacheColumns cache cache'
  within : cache.used ≤ budget → cache'.used ≤ budget

theorem KeepsBudget.refl (budget : ℤ) (cache : RemoteCache) :
  KeepsBudget budget cache cache
  := ⟨.refl, id⟩

theorem KeepsBudget.trans {cache'' : RemoteCache} (h : KeepsBudget budget cache cache')
    (h' : KeepsBudget budget cache' cache'') :
  KeepsBudget budget cache cache''
  := ⟨h.grows.trans h'.grows, h'.within ∘ h.within⟩

theorem keeps_addRemoteProtectedRef (budget : ℤ) (cache : RemoteCache)
    (kind key reference : String) :
  KeepsBudget budget cache (addRemoteProtectedRef cache kind key reference)
  := ⟨.single (grow_addRemoteProtectedRef ..), (used_addRemoteProtectedRef_le ..).trans⟩

theorem keeps_claimRetainedScope (budget : ℤ) (cache : RemoteCache) (key : String)
    (retained : Option String) :
  KeepsBudget budget cache (claimRetainedScope cache key retained)
  := ⟨(claimRetainedScope_spec ..).1, (claimRetainedScope_spec ..).2.trans⟩

/-- A row is written within the budget, and one with a reference is admitted. -/
theorem placeContent_spec (item : CacheKey) (row : CacheRow) (hsound : Sound cacheColumns cache)
    (hused : cache.used ≤ budget) :
  KeepsBudget budget cache (placeContent cache item row budget).2.1 ∧
    (cache.held item = true → (placeContent cache item row budget).1 = true)
  := by
  unfold placeContent
  dsimp only
  split
  case isTrue hrefused =>
    refine ⟨.refl .., fun hheld => ?_⟩
    simp [hheld] at hrefused
  case isFalse hadmitted =>
    generalize hnew : (if cache.held item = true then 0 else row.chargedBytes) = newCharge
    generalize hcounted : cacheColumns.countedIn cache.rows[item]? = oldUnprotected
    generalize hevicted : evictWhile (pickForContent item budget _) remoteCacheReclaimStep _ =
      evicted
    -- The total that the loop keeps is the one of the ledger, with the new charge for the old.
    have hgrows : Grows cacheColumns cache
        { cache with rows := evicted.rows, used := evicted.used - newCharge + oldUnprotected } := by
      have hloop := grows_evictWhile
        (picks_content item budget (row.lastUsedAt - remoteCacheUnusedMs)) remoteCacheReclaimStep
        ⟨cache.rows, cache.used - oldUnprotected + newCharge, []⟩ cache.refs
        ((oldUnprotected : ℤ) - newCharge)
      rw [hevicted] at hloop
      convert hloop using 1
      · cases cache
        simp
      · congr 1
        omega
    have hle : evicted.used ≤ cache.used - oldUnprotected + newCharge := by
      rw [← hevicted]
      exact used_evictWhile_le ..
    have hkept : evicted.rows[item]? = cache.rows[item]? := by
      rw [← hevicted]
      exact getElem?_evictWhile (fun state row' h => (pickForContent_spec h).2.2 rfl) ..
    split
    case isTrue hbeyond =>
      refine ⟨⟨hgrows, fun _ => ?_⟩, fun hheld => ?_⟩
      · show evicted.used - (newCharge : ℤ) + oldUnprotected ≤ budget
        omega
      · rw [if_pos hheld] at hnew
        omega
    case isFalse hwithin =>
      refine ⟨⟨?_, fun _ => not_lt.mp hwithin⟩, fun _ => rfl⟩
      apply hgrows.tail
      apply Grow.write_of_used
      · rfl
      · have hcount : cacheColumns.counted { row with isProtected := cache.held item } =
            newCharge := hnew
        show evicted.used = evicted.used - (newCharge : ℤ) + oldUnprotected -
          cacheColumns.countedIn evicted.rows[item]? +
          cacheColumns.counted { row with isProtected := cache.held item }
        rw [hkept, hcounted, hcount]
        omega

theorem putRemoteContentInTx_spec {chargedBytes : Option ℕ} {admitted : Bool}
    {files : List String} (hsound : Sound cacheColumns cache) (hused : cache.used ≤ budget)
    (h : putRemoteContentInTx cache kind key scope payload recordKey recordAuthor budget now
      chargedBytes retained = .ok (admitted, cache', files)) :
  KeepsBudget budget cache cache' ∧ (cache.held (toLex (kind, key)) = true → admitted = true)
  := by
  obtain ⟨-, -, h⟩ := bind_eq_ok.mp h
  obtain ⟨charge, -, h⟩ := bind_eq_ok.mp h
  generalize hclaim : (if kind = "record" then claimRetainedScope cache key retained else cache) =
    claimed at h
  have hkeeps : KeepsBudget budget cache claimed := by
    rw [← hclaim]
    split
    · exact keeps_claimRetainedScope ..
    · exact .refl ..
  have hplace := pure_eq_ok.mp h
  obtain ⟨hplaced, hadmitted⟩ := placeContent_spec (toLex (kind, key)) _
    (hkeeps.grows.sound hsound) (hkeeps.within hused)
  rw [hplace] at hplaced hadmitted
  exact ⟨hkeeps.trans hplaced, fun hheld => hadmitted (hkeeps.grows.held hheld)⟩

/-- Deleting unprotected rows of the cache sheds them. -/
theorem grows_deleteAll (hnodup : (victims.map Prod.fst).Nodup)
    (refs : BTreeSet (CacheKey ×ₗ String)) (state : Eviction)
    (hrows : ∀ victim ∈ victims,
      state.rows[victim.1]? = some victim.2 ∧ victim.2.isProtected = false) :
  let state' := victims.foldl (fun state victim => state.deleteCacheItem victim.1 victim.2) state
  Grows cacheColumns ⟨state.rows, refs, state.used⟩ ⟨state'.rows, refs, state'.used⟩ ∧
    state'.used ≤ state.used
  := by
  induction victims generalizing state with
  | nil => exact ⟨.refl, le_rfl⟩
  | cons victim victims ih =>
    rw [map_cons, nodup_cons] at hnodup
    obtain ⟨hrow, hfree⟩ := hrows victim (by simp)
    have hgrow := grow_deleteCacheItem hrow hfree refs 0
    rw [add_zero, add_zero] at hgrow
    obtain ⟨hgrows, hle⟩ := ih hnodup.2 (state.deleteCacheItem victim.1 victim.2) (by
      intro other hother
      obtain ⟨hrow', hfree'⟩ := hrows other (mem_cons_of_mem _ hother)
      have hne : victim.1 ≠ other.1 := by
        intro heq
        exact hnodup.1 (heq ▸ mem_map_of_mem hother)
      exact ⟨(getElem?_erase_of_ne hne).trans hrow', hfree'⟩)
    refine ⟨.head hgrow hgrows, hle.trans ?_⟩
    show state.used - (victim.2.chargedBytes : ℤ) ≤ state.used
    omega

/-- The rows that a step deletes: different unprotected rows of the cache. -/
structure Deletable (cache : RemoteCache) (victims : List (CacheKey × CacheRow)) : Prop where
  nodup : victims.Nodup
  rows : ∀ victim ∈ victims, cache.rows[victim.1]? = some victim.2 ∧ victim.2.isProtected = false

theorem Deletable.nodup_keys (h : Deletable cache victims) :
  (victims.map Prod.fst).Nodup
  := by
  apply (nodup_map_iff_inj_on h.nodup).mpr
  rintro ⟨key, row⟩ hmem ⟨key', row'⟩ hmem' hkey
  cases hkey
  cases (h.rows _ hmem).1.symm.trans (h.rows _ hmem').1
  rfl

theorem keeps_deleteRemoteCacheStep (budget : ℤ) (h : Deletable cache victims) :
  KeepsBudget budget cache (deleteRemoteCacheStep cache victims).1
  := by
  obtain ⟨hgrows, hle⟩ := grows_deleteAll h.nodup_keys cache.refs ⟨cache.rows, cache.used, []⟩
    h.rows
  exact ⟨hgrows, hle.trans⟩

theorem deletable_reclaimable (cache : RemoteCache) (now : ℤ) :
  Deletable cache (reclaimable cache now)
  := by
  constructor
  · apply (take_sublist _ _).nodup
    exact (mergeSort_perm _ _).nodup_iff.mpr ((nodup_toList _).filter _)
  · intro victim hmem
    have hsorted := mem_mergeSort.mp (mem_of_mem_take hmem)
    obtain ⟨hrow, hp⟩ := mem_filter.mp hsorted
    simp only [and_eq_true, not_eq_true'] at hp
    exact ⟨mem_toList.mp hrow, hp.1⟩

theorem deletable_of_forgettable (hnodup : victims.Nodup) (hsub : victims ⊆ forgettable cache) :
  Deletable cache victims
  := by
  refine ⟨hnodup, fun victim hmem => ?_⟩
  obtain ⟨hrow, hp⟩ := mem_filter.mp (hsub hmem)
  simp only [and_eq_true, not_eq_true'] at hp
  exact ⟨mem_toList.mp hrow, hp.2⟩

theorem keeps_removeRemoteContent (budget : ℤ) (cache : RemoteCache) (kind key : String) :
  KeepsBudget budget cache (removeRemoteContent cache kind key).1
  := by
  unfold removeRemoteContent
  split
  case h_1 => exact .refl ..
  case h_2 row hrow =>
    obtain ⟨hsome, hfree⟩ := filter_eq_some_iff.mp hrow
    refine ⟨.single (.shed hsome (by simpa using hfree)), fun hused => ?_⟩
    show cache.used - (row.chargedBytes : ℤ) ≤ budget
    omega

theorem keeps_markRemoteBlobAdult (budget : ℤ) (cache : RemoteCache) (hash : String) :
  KeepsBudget budget cache (markRemoteBlobAdult cache hash)
  := by
  unfold markRemoteBlobAdult
  split
  case h_1 => exact .refl ..
  case h_2 row hrow => exact ⟨.single (.rewrite hrow rfl rfl), id⟩

theorem keeps_touchRemoteContent (budget : ℤ) (cache : RemoteCache) (kind key : String) (now : ℤ) :
  KeepsBudget budget cache (touchRemoteContent cache kind key now)
  := by
  unfold touchRemoteContent
  split
  case h_1 => exact .refl ..
  case h_2 row hrow =>
    split
    case isTrue => exact ⟨.single (.rewrite hrow rfl rfl), id⟩
    case isFalse => exact .refl ..

/-- References are replaced within the budget. -/
theorem replaceRemoteProtectedRefs_spec (hsound : Sound cacheColumns cache)
    (hused : cache.used ≤ budget) (hbudget : budget < I64.greatest) (reference : String)
    (removed added : List CacheKey) :
  Sound cacheColumns (replaceRemoteProtectedRefs cache reference removed added budget).1 ∧
    (replaceRemoteProtectedRefs cache reference removed added budget).1.used ≤ budget
  := by
  have hreleased := foldlRecOn
    (motive := fun state : RemoteCache × List String =>
      Sound cacheColumns state.1 ∧ state.1.used ≤ budget)
    removed (releaseRef reference budget) (b := (cache, [])) ⟨hsound, hused⟩ (by
      rintro state ⟨hstate, hwithin⟩ item -
      obtain ⟨hrelease, hle⟩ := removeRemoteProtectedRef_spec hwithin hbudget
      exact ⟨hrelease.sound hstate, hle⟩)
  exact foldlRecOn
    (motive := fun cache : RemoteCache => Sound cacheColumns cache ∧ cache.used ≤ budget)
    added _ hreleased (by
      rintro cache ⟨hcache, hwithin⟩ item -
      have hkeeps := keeps_addRemoteProtectedRef budget cache (ofLex item).1 (ofLex item).2
        reference
      exact ⟨hkeeps.grows.sound hcache, hkeeps.within hwithin⟩)

/-! ### The store -/

/-- The operations of the store. Where a query or a set leaves an order open, the operation says
which it is. -/
inductive CacheOp where
  | reserveRemoteCacheBytes (token bytes : ℕ)
  | dropReservation (token : ℕ)
  | putRemoteContent (kind key scope : String) (payload : Bytes) (now : ℤ)
      (retained : Option String)
  | putRemoteRecord (replica key author : String) (payload : Bytes) (now : ℤ)
      (retained : Option String)
  | putRemoteBlobFile (hash : String) (length : ℕ) (now : ℤ)
  | addProtectedRef (reference kind key : String)
  | putOwnedRecord (replica key author : String) (payload : Bytes) (now : ℤ)
      (retained : Option String)
  | replaceProtectedRefs (reference : String) (desired removed added : List CacheKey)
  | removeRemoteContent (kind key : String)
  | reclaimRemoteCacheStep (now : ℤ)
  | forgetAdultRemoteBlobsStep (victims : List (CacheKey × CacheRow))
  | markRemoteBlobAdult (hash : String)
  | touchRemoteContent (kind key : String) (now : ℤ)

namespace CacheStore

/-- The store after a transaction, or the same store after a failure. -/
def committed (store : CacheStore) (result : Result (Bool × CacheStore × List String)) :
    Result Bool × CacheStore :=
  match result with
  | .ok (admitted, store', _) => (.ok admitted, store')
  | .error failure => (.error failure, store)

/-- The result of an operation and the store after it. -/
def perform (store : CacheStore) : CacheOp → Option (Result Bool × CacheStore)
  | .reserveRemoteCacheBytes token bytes =>
    let (granted, store, _) := store.reserveRemoteCacheBytes token bytes
    some (.ok granted, store)
  | .dropReservation token => some (.ok true, store.dropReservation token)
  | .putRemoteContent kind key scope payload now retained =>
    some (store.committed (store.putRemoteContentWithBudget kind key scope (.bytes payload) none
      none now retained))
  | .putRemoteRecord replica key author payload now retained =>
    some (store.committed (store.putRemoteRecord replica key author payload now retained))
  | .putRemoteBlobFile hash length now =>
    match store.putRemoteBlobFile hash length now with
    | .ok (store, _) => some (.ok true, store)
    | .error failure => some (.error failure, store)
  | .addProtectedRef reference kind key =>
    some (.ok true, store.addProtectedRef reference kind key)
  | .putOwnedRecord replica key author payload now retained =>
    let (result, store, _) := store.putOwnedRecord replica key author payload now retained
    some (result.map fun _ => true, store)
  | .replaceProtectedRefs reference desired removed added =>
    let old := refsOf store.cache reference
    if removed.Perm (old.filter (· ∉ desired)) ∧ added.Perm (desired.dedup.filter (· ∉ old)) then
      match store.budget with
      | .ok budget =>
        let (cache, _) := replaceRemoteProtectedRefs store.cache reference removed added budget
        some (.ok true, { store with cache := cache })
      | .error failure => some (.error failure, store)
    else none
  | .removeRemoteContent kind key =>
    some (.ok true, { store with cache := (Kukuri.removeRemoteContent store.cache kind key).1 })
  | .reclaimRemoteCacheStep now =>
    some (.ok true,
      { store with cache := (deleteRemoteCacheStep store.cache (reclaimable store.cache now)).1 })
  | .forgetAdultRemoteBlobsStep victims =>
    if victims.Nodup ∧ victims ⊆ forgettable store.cache ∧
        victims.length = min remoteCacheReclaimStep (forgettable store.cache).length then
      some (.ok true, { store with cache := (deleteRemoteCacheStep store.cache victims).1 })
    else none
  | .markRemoteBlobAdult hash =>
    some (.ok true, { store with cache := Kukuri.markRemoteBlobAdult store.cache hash })
  | .touchRemoteContent kind key now =>
    some (.ok true, { store with cache := Kukuri.touchRemoteContent store.cache kind key now })

end CacheStore

/-- One operation of the store. -/
def CacheStep (store : CacheStore) (op : CacheOp) (ret : Result Bool) (store' : CacheStore) :
    Prop :=
  store.perform op = some (ret, store')

/-- The reserved bytes are those of the tokens, and fit beside the total. -/
structure CacheStore.Accounts (store : CacheStore) : Prop where
  sound : Sound cacheColumns store.cache
  tokens : store.reserved = BTreeMap.sumOver (fun _ bytes => bytes) store.reservations
  bounded : store.cache.used + store.reserved ≤ remoteCacheCapacityBytes

/-- The content that an operation writes. -/
def CacheOp.Writes (item : CacheKey) : CacheOp → Prop
  | putRemoteContent kind key .. => item = toLex (kind, key)
  | putRemoteRecord replica key author .. | putOwnedRecord replica key author .. =>
    item = toLex ("record", remoteRecordCacheKey replica key author)
  | putRemoteBlobFile hash .. => item = toLex ("blob", hash)
  | _ => False

/-- The operation takes references away. -/
def CacheOp.replaces : CacheOp → Bool
  | replaceProtectedRefs .. => true
  | _ => false

/-- The content was refused because it does not fit. -/
def Refused (ret : Result Bool) : Prop :=
  ret = .ok false ∨ ret = .error (.bail "remote blob cache capacity exceeded") ∨
    ret = .error (.bail "owned record was not stored")

/-- What an operation does to the accounts. -/
structure Accounted (before : CacheStore) (op : CacheOp) (ret : Result Bool) (after : CacheStore) :
    Prop where
  accounts : after.Accounts
  grows : op.replaces = false → Grows cacheColumns before.cache after.cache
  admitted : ∀ item, op.Writes item → before.cache.held item = true → ¬ Refused ret

theorem accounts_empty :
  CacheStore.empty.Accounts
  := ⟨sound_empty, by simp [CacheStore.empty], by decide⟩

theorem CacheStore.Accounts.within (h : store.Accounts) :
  store.cache.used ≤ remoteCacheCapacityBytes - store.reserved
  := by
  have := h.bounded
  omega

theorem CacheStore.Accounts.budget_eq (h : store.Accounts) :
  store.budget = .ok (remoteCacheCapacityBytes - store.reserved)
  := by
  have hused := h.sound.used_nonneg
  have hbounded := h.bounded
  have hcapacity : remoteCacheCapacityBytes = 3221225472 := rfl
  have hgreatest : I64.greatest = 9223372036854775807 := rfl
  have hleast : I64.least = -9223372036854775808 := rfl
  unfold budget
  rw [bind_eq_ok]
  refine ⟨⟨⟩, bailIf_eq_ok.mpr (by omega), ?_⟩
  rw [pure_eq_ok]
  unfold I64.saturatingSub I64.clamp
  omega

/-- A transaction that keeps the budget keeps the accounts. -/
theorem CacheStore.Accounts.of_keeps (h : store.Accounts)
    (hkeeps : KeepsBudget (remoteCacheCapacityBytes - store.reserved) store.cache cache) :
  CacheStore.Accounts { store with cache := cache }
  := by
  refine ⟨hkeeps.grows.sound h.sound, h.tokens, ?_⟩
  have hwithin := hkeeps.within h.within
  show cache.used + (store.reserved : ℤ) ≤ remoteCacheCapacityBytes
  omega

/-- An operation that is one such transaction and writes no content. -/
theorem accounted_of_keeps (h : store.Accounts)
    (hkeeps : KeepsBudget (remoteCacheCapacityBytes - store.reserved) store.cache cache)
    (hwrites : ∀ item, op.Writes item → store.cache.held item = true → ¬ Refused ret) :
  Accounted store op ret { store with cache := cache }
  := ⟨h.of_keeps hkeeps, fun _ => hkeeps.grows, hwrites⟩

/-- The ways in which writing content fails. -/
theorem putRemoteContentInTx_eq_error {chargedBytes : Option ℕ} {failure : Failure}
    (h : putRemoteContentInTx cache kind key scope payload recordKey recordAuthor budget now
      chargedBytes retained = .error failure) :
  failure = .bail "unknown remote cache kind" ∨ failure = .panic "attempt to add with overflow"
  := by
  rcases bind_eq_error.mp h with hkind | ⟨-, -, h⟩
  · exact .inl (bailIf_eq_error.mp hkind).2
  · rcases bind_eq_error.mp h with hcharge | ⟨charge, -, h⟩
    · right
      cases chargedBytes with
      | some charge => cases hcharge
      | none =>
        simp only [elim_none, contentCharge] at hcharge
        split at hcharge <;> cases hcharge
        rfl
    · cases h

theorem not_refused_of_failure {failure : Failure}
    (h : failure = .bail "unknown remote cache kind" ∨
      failure = .panic "attempt to add with overflow") :
  ¬ Refused (.error failure)
  := by
  rcases h with rfl | rfl <;> simp [Refused]

/-- Writing content keeps the accounts, and does not refuse content with a reference. -/
theorem putRemoteContentWithBudget_spec (h : store.Accounts) (kind key scope : String)
    (payload : CachePayload) (recordKey recordAuthor : Option String) (now : ℤ)
    (retained : Option String) :
  (∃ admitted cache files,
    store.putRemoteContentWithBudget kind key scope payload recordKey recordAuthor now retained =
      .ok (admitted, { store with cache := cache }, files) ∧
    KeepsBudget (remoteCacheCapacityBytes - store.reserved) store.cache cache ∧
    (store.cache.held (toLex (kind, key)) = true → admitted = true)) ∨
  ∃ failure,
    store.putRemoteContentWithBudget kind key scope payload recordKey recordAuthor now retained =
      .error failure ∧ ¬ Refused (.error failure)
  := by
  unfold putRemoteContentWithBudget
  rw [h.budget_eq]
  cases hput : putRemoteContentInTx store.cache kind key scope payload recordKey recordAuthor
    (remoteCacheCapacityBytes - store.reserved) now none retained with
  | ok result =>
    obtain ⟨admitted, cache, files⟩ := result
    obtain ⟨hkeeps, hadmitted⟩ := putRemoteContentInTx_spec h.sound h.within hput
    refine .inl ⟨admitted, cache, files, ?_, hkeeps, hadmitted⟩
    exact bind_eq_ok.mpr ⟨_, rfl, bind_eq_ok.mpr ⟨_, hput, rfl⟩⟩
  | error failure =>
    refine .inr ⟨failure, ?_, not_refused_of_failure (putRemoteContentInTx_eq_error hput)⟩
    exact bind_eq_error.mpr (.inr ⟨_, rfl, bind_eq_error.mpr (.inl hput)⟩)

theorem accounted_putRemoteContent (h : store.Accounts)
    (hop : ∀ item, op.Writes item → item = toLex (kind, key))
    (hresult : store.committed (store.putRemoteContentWithBudget kind key scope payload recordKey
      recordAuthor now retained) = (ret, store')) :
  Accounted store op ret store'
  := by
  rcases putRemoteContentWithBudget_spec h kind key scope payload recordKey recordAuthor now
      retained with
    ⟨admitted, cache, files, hput, hkeeps, hadmitted⟩ | ⟨failure, hput, hrefused⟩
  · rw [hput] at hresult
    cases hresult
    apply accounted_of_keeps h hkeeps
    intro item hwrites hheld
    rw [hop item hwrites] at hheld
    simp [Refused, hadmitted hheld]
  · rw [hput] at hresult
    cases hresult
    exact accounted_of_keeps h (.refl ..) fun _ _ _ => hrefused

theorem accounted_putRemoteBlobFile {length : ℕ} (h : store.Accounts)
    (hstep : CacheStep store (.putRemoteBlobFile hash length now) ret store') :
  Accounted store (.putRemoteBlobFile hash length now) ret store'
  := by
  simp only [CacheStep, perform] at hstep
  split at hstep <;> cases hstep
  case h_1 after files hput =>
    unfold putRemoteBlobFile at hput
    rw [bailIf_bind_eq_ok, h.budget_eq, ok_bind] at hput
    obtain ⟨-, hput⟩ := hput
    obtain ⟨⟨admitted, cache, files'⟩, hput, hrest⟩ := bind_eq_ok.mp hput
    obtain ⟨-, hafter⟩ := bailIf_bind_eq_ok.mp hrest
    cases hafter
    obtain ⟨hkeeps, -⟩ := putRemoteContentInTx_spec h.sound h.within hput
    exact accounted_of_keeps h hkeeps fun _ _ _ => by simp [Refused]
  case h_2 failure hput =>
    apply accounted_of_keeps h (.refl ..)
    intro item hitem hheld
    cases hitem
    unfold putRemoteBlobFile at hput
    rw [h.budget_eq, ok_bind] at hput
    rcases bind_eq_error.mp hput with hname | ⟨-, -, hput⟩
    · rw [(bailIf_eq_error.mp hname).2]
      simp [Refused]
    rcases bind_eq_error.mp hput with hfailure | ⟨⟨admitted, cache, files⟩, hput, hrest⟩
    · exact not_refused_of_failure (putRemoteContentInTx_eq_error hfailure)
    · -- Content with a reference is admitted.
      obtain ⟨-, hadmitted⟩ := putRemoteContentInTx_spec h.sound h.within hput
      rcases bind_eq_error.mp hrest with hcapacity | ⟨-, -, hafter⟩
      · have hnot := (bailIf_eq_error.mp hcapacity).1
        rw [hadmitted hheld] at hnot
        cases hnot
      · cases hafter

theorem accounted_putOwnedRecord {replica author : String} {payload : Bytes} (h : store.Accounts)
    (hstep : CacheStep store (.putOwnedRecord replica key author payload now retained) ret store') :
  Accounted store (.putOwnedRecord replica key author payload now retained) ret store'
  := by
  have hhold := keeps_addRemoteProtectedRef (remoteCacheCapacityBytes - store.reserved) store.cache
    "record" (remoteRecordCacheKey replica key author) ownDocsRef
  -- The reference is there when the record is written.
  have hheld : (store.addProtectedRef ownDocsRef "record"
      (remoteRecordCacheKey replica key author)).cache.held
      (toLex ("record", remoteRecordCacheKey replica key author)) = true := held_insert_self
  simp only [CacheStep, perform, putOwnedRecord, putRemoteRecord] at hstep
  rcases putRemoteContentWithBudget_spec (h.of_keeps hhold) "record"
      (remoteRecordCacheKey replica key author) replica (.bytes payload) (some key) (some author)
      now retained with
    ⟨admitted, cache, files, hput, hkeeps, hadmitted⟩ | ⟨failure, hput, hrefused⟩
  · cases hadmitted hheld
    rw [addProtectedRef, hput] at hstep
    cases hstep
    refine accounted_of_keeps h (hhold.trans hkeeps) fun _ _ _ => ?_
    simp [Refused, Except.map]
  · rw [addProtectedRef, hput] at hstep
    cases hstep
    exact accounted_of_keeps h hhold fun _ _ _ => hrefused

/-- The bytes of the tokens after one gets more. -/
theorem tokens_insert (tokens : BTreeMap ℕ ℕ) (token bytes : ℕ) :
  BTreeMap.sumOver (fun _ bytes => bytes)
      (tokens.insert token (tokens[token]?.getD 0 + bytes)) =
    BTreeMap.sumOver (fun _ bytes => bytes) tokens + bytes
  := by
  cases hold : tokens[token]? with
  | none =>
    rw [sumOver_insert _ _ hold, getD_none]
    omega
  | some old =>
    have hsum := sumOver_replace (fun _ bytes => bytes) (old + bytes) hold
    rw [getD_some]
    omega

/-- The bytes of the tokens after one is dropped. -/
theorem tokens_erase (tokens : BTreeMap ℕ ℕ) (token : ℕ) :
  BTreeMap.sumOver (fun _ bytes => bytes) tokens =
    tokens[token]?.getD 0 + BTreeMap.sumOver (fun _ bytes => bytes) (tokens.erase token)
  := by
  cases hold : tokens[token]? with
  | none => rw [erase_of_getElem?_eq_none hold, getD_none, zero_add]
  | some old => exact sumOver_erase _ hold

/-- A reservation is granted within the capacity. -/
theorem accounts_reserveRemoteCacheBytes (h : store.Accounts) (token bytes : ℕ) :
  (store.reserveRemoteCacheBytes token bytes).2.1.Accounts ∧
    Grows cacheColumns store.cache (store.reserveRemoteCacheBytes token bytes).2.1.cache
  := by
  unfold reserveRemoteCacheBytes
  dsimp only
  split
  case isTrue => exact ⟨h, .refl⟩
  case isFalse htarget =>
    generalize hevicted : evictWhile (pickForReservation _) remoteCacheReclaimStep _ =
      evicted
    have hgrows : Grows cacheColumns store.cache
        { store.cache with rows := evicted.rows, used := evicted.used } := by
      have hloop := grows_evictWhile
        (picks_reservation (U64.saturatingAdd store.reserved bytes)) remoteCacheReclaimStep
        ⟨store.cache.rows, store.cache.used, []⟩ store.cache.refs 0
      rw [hevicted, add_zero, add_zero] at hloop
      exact hloop
    have hle : evicted.used ≤ store.cache.used := by
      rw [← hevicted]
      exact used_evictWhile_le ..
    have hsound := hgrows.sound h.sound
    have hbounded := h.bounded
    split
    case isTrue =>
      refine ⟨⟨hsound, h.tokens, ?_⟩, hgrows⟩
      show evicted.used + (store.reserved : ℤ) ≤ remoteCacheCapacityBytes
      omega
    case isFalse hfits =>
      refine ⟨⟨hsound, ?_, ?_⟩, hgrows⟩
      · show store.reserved + bytes = _
        rw [tokens_insert, ← h.tokens]
      · have hcapacity : remoteCacheCapacityBytes = 3221225472 := rfl
        have hgreatest : U64.greatest = 18446744073709551615 := rfl
        show evicted.used + ((store.reserved + bytes : ℕ) : ℤ) ≤ remoteCacheCapacityBytes
        unfold U64.saturatingAdd asU64 at *
        omega

theorem accounts_dropReservation (h : store.Accounts) (token : ℕ) :
  (store.dropReservation token).Accounts
  := by
  have htokens := h.tokens
  rw [tokens_erase _ token] at htokens
  refine ⟨h.sound, ?_, ?_⟩
  · show store.reserved - store.reservations[token]?.getD 0 = _
    rw [htokens, Nat.add_sub_cancel_left]
    rfl
  · have hbounded := h.bounded
    show store.cache.used + ((store.reserved - _ : ℕ) : ℤ) ≤ remoteCacheCapacityBytes
    omega

theorem accounted_of_step (h : store.Accounts) (hstep : CacheStep store op ret store') :
  Accounted store op ret store'
  := by
  cases op with
  | putRemoteBlobFile => exact accounted_putRemoteBlobFile h hstep
  | putOwnedRecord => exact accounted_putOwnedRecord h hstep
  | reserveRemoteCacheBytes token bytes =>
    obtain ⟨haccounts, hgrows⟩ := accounts_reserveRemoteCacheBytes h token bytes
    cases hstep
    exact ⟨haccounts, fun _ => hgrows, nofun⟩
  | dropReservation token =>
    cases hstep
    exact ⟨accounts_dropReservation h token, fun _ => .refl, nofun⟩
  | putRemoteContent | putRemoteRecord =>
    exact accounted_putRemoteContent h (fun _ => id) (some.inj hstep)
  | addProtectedRef reference kind key =>
    cases hstep
    exact accounted_of_keeps h (keeps_addRemoteProtectedRef ..) nofun
  | removeRemoteContent =>
    cases hstep
    exact accounted_of_keeps h (keeps_removeRemoteContent ..) nofun
  | reclaimRemoteCacheStep now =>
    cases hstep
    exact accounted_of_keeps h (keeps_deleteRemoteCacheStep _ (deletable_reclaimable ..)) nofun
  | forgetAdultRemoteBlobsStep victims =>
    simp only [CacheStep, perform] at hstep
    split at hstep
    case isTrue hvictims =>
      cases hstep
      obtain ⟨hnodup, hsub, -⟩ := hvictims
      exact accounted_of_keeps h
        (keeps_deleteRemoteCacheStep _ (deletable_of_forgettable hnodup hsub)) nofun
    case isFalse => cases hstep
  | markRemoteBlobAdult =>
    cases hstep
    exact accounted_of_keeps h (keeps_markRemoteBlobAdult ..) nofun
  | touchRemoteContent =>
    cases hstep
    exact accounted_of_keeps h (keeps_touchRemoteContent ..) nofun
  | replaceProtectedRefs reference desired removed added =>
    simp only [CacheStep, perform, h.budget_eq] at hstep
    split at hstep
    case isTrue =>
      cases hstep
      have hcapacity : remoteCacheCapacityBytes = 3221225472 := rfl
      have hgreatest : I64.greatest = 9223372036854775807 := rfl
      obtain ⟨hsound, hle⟩ := replaceRemoteProtectedRefs_spec h.sound h.within (by omega) reference
        removed added
      refine ⟨⟨hsound, h.tokens, ?_⟩, nofun, nofun⟩
      show (replaceRemoteProtectedRefs ..).1.used + (store.reserved : ℤ) ≤ remoteCacheCapacityBytes
      omega
    case isFalse => cases hstep

/-- In every run from an empty cache, the total is the sum of the charges of the unprotected rows,
the protected rows are those with a reference, and the total fits into the capacity beside the
reservations. No operation but the replacement of references deletes a row with a reference, and
content with a reference is never refused. -/
theorem remote_cache_accounts {h : List (Event CacheStore CacheOp (Result Bool))}
    {store : CacheStore} (htrace : Trace CacheStep .empty h store) :
  (store.cache.used = BTreeMap.sumOver
      (fun _ row => if row.isProtected then 0 else row.chargedBytes) store.cache.rows) ∧
    (∀ key row, store.cache.rows[key]? = some row →
      (row.isProtected = true ↔ ∃ ref, toLex (key, ref) ∈ store.cache.refs)) ∧
    store.cache.used + store.reserved ≤ remoteCacheCapacityBytes ∧
    ∀ e ∈ h,
      (e.op.replaces = false → ∀ key, (∃ row, e.before.cache.rows[key]? = some row) →
        (∃ ref, toLex (key, ref) ∈ e.before.cache.refs) →
        ∃ row, e.after.cache.rows[key]? = some row) ∧
      ∀ item, e.op.Writes item → (∃ ref, toLex (item, ref) ∈ e.before.cache.refs) →
        ¬ Refused e.ret
  := by
  have hall : store.Accounts ∧
      ∀ e ∈ h, e.before.Accounts ∧ Accounted e.before e.op e.ret e.after := by
    apply htrace.history_invariant (P := fun h store =>
      store.Accounts ∧ ∀ e ∈ h, e.before.Accounts ∧ Accounted e.before e.op e.ret e.after)
    · exact ⟨accounts_empty, by simp⟩
    · rintro h before op ret after - ⟨haccounts, hevents⟩ hstep
      have haccounted := accounted_of_step haccounts hstep
      exact ⟨haccounted.accounts, forall_mem_append.mpr
        ⟨hevents, forall_mem_singleton.mpr ⟨haccounts, haccounted⟩⟩⟩
  obtain ⟨haccounts, hevents⟩ := hall
  refine ⟨haccounts.sound.balanced, ?_, haccounts.bounded, ?_⟩
  · intro key row hrow
    rw [← held_iff, ← haccounts.sound.flagged key row hrow]
    rfl
  · intro e he
    obtain ⟨hbefore, haccounted⟩ := hevents e he
    constructor
    · intro hop key hrow hheld
      exact Grows.keeps hbefore.sound (haccounted.grows hop) hrow (held_iff.mpr hheld)
    · intro item hwrites hheld
      exact haccounted.admitted item hwrites (held_iff.mpr hheld)

namespace CacheSample

/-- Bytes are reserved, a blob gets a reference and is written, and the reservation is dropped. -/
def ops : List CacheOp :=
  [.reserveRemoteCacheBytes 0 100, .addProtectedRef "own_blob" "blob" "a",
    .putRemoteContent "blob" "a" "blob" [1, 2, 3] 0 none,
    .putRemoteContent "blob" "b" "blob" [4] 0 none, .dropReservation 0]

/-- The run of the operations. -/
theorem trace_ops :
  Trace CacheStep .empty (Trace.replay CacheStore.perform .empty ops).1
    (Trace.replay CacheStore.perform .empty ops).2
  := by
  apply Trace.of_replay
  intro _ _ _ _ _ hstep
  exact hstep

end CacheSample

open CacheSample in
theorem remote_cache_accounts_sample :
  (Trace.replay CacheStore.perform .empty ops).1.length = 5 ∧
    (Trace.replay CacheStore.perform .empty ops).2.cache.used = 74 ∧
    BTreeMap.sumOver (fun _ row => if row.isProtected then 0 else row.chargedBytes)
      (Trace.replay CacheStore.perform .empty ops).2.cache.rows = 74
  := by
  have hused : (Trace.replay perform .empty ops).2.cache.used = 74 := by decide +kernel
  have hbalanced := (remote_cache_accounts trace_ops).1
  exact ⟨by decide +kernel, hused, by exact_mod_cast hbalanced.symm.trans hused⟩

end Kukuri
