import Kukuri.Data.Paging
import Kukuri.DesktopRuntime.HistoryPage

/-!
# The pages of a history are complete and exact

`Selects` says which replicas the range of a transfer selects. The pages that follow each other
from the start hold the rows of these replicas, in order and each once (`pages_exact`). The position
at which a page goes on after a row outside the range has no selected row between itself and that
row (`place_eq_seek`).

A position with an empty key is in front of the rows of its replica only if none of them has an
empty key and an empty author, which `exists_skipped_row` shows.
-/

namespace Kukuri

open Text Result Paging List Option Prod BucketReplica

/-! ### The range -/

/-- The range of a transfer selects the replica: from the given day on the replicas of days, and
if no day is given also those of the older form. -/
def Selects (account : String) (since : Option ℕ) (replica : String) : Prop :=
  (∃ bucket, BucketReplica.parse replica = .ok bucket ∧ bucket.writtenBy account ∧
    ∀ first ∈ since, first ≤ bucket.bucket.index) ∨
  (since = none ∧ (startsWith "topic::" replica ∨ startsWith "channel::" replica ∨
    replica = "author::" ++ account))

section

variable {account replica : String} {since : Option ℕ} {bucket : BucketReplica}
  {position row row' : AccountHistoryCursor}

theorem startsWith_of_parse (h : BucketReplica.parse replica = .ok bucket) :
  startsWith "bucket::" replica
  := by
  rw [parse_eq_ok.mp h]
  apply startsWith_replicaId

theorem placeBucket_eq_take :
  placeBucket position account since bucket = .take ↔
    bucket.writtenBy account ∧ ∀ first ∈ since, first ≤ bucket.bucket.index
  := by
  by_cases hwritten : bucket.writtenBy account
  · cases since with
    | none => simp [placeBucket, hwritten]
    | some first =>
      by_cases hfirst : bucket.bucket.index < first
      · have hfilter : (some first).filter (bucket.bucket.index < ·) = some first := by
          simp [hfirst]
        simp only [placeBucket, hwritten, not_true_eq_false, if_false, hfilter, true_and,
          mem_some_iff, forall_eq', not_le.mpr hfirst, iff_false]
        split
        · split <;> nofun
        · nofun
      · have hfilter : (some first).filter (bucket.bucket.index < ·) = none := by
          simpa using hfirst
        simpa [placeBucket, hwritten, hfilter] using hfirst
  · simp [placeBucket, hwritten]

theorem placeOther_eq_take :
  placeOther position account = .take ↔
    startsWith "topic::" position.replica ∨ startsWith "channel::" position.replica ∨
      position.replica = "author::" ++ account
  := by
  rw [← stripPrefix_eq_some]
  unfold placeOther
  split
  case isTrue h => simpa using h
  case isFalse h =>
    constructor
    · intro htake
      split at htake
      · split at htake <;> cases htake
      · cases htake
    · exact fun hselected => absurd hselected h

theorem place_eq_take :
  place position account since = .take ↔ Selects account since position.replica
  := by
  unfold place Selects
  by_cases hbucket : startsWith "bucket::" position.replica
  · -- A replica of a day is none of the older form.
    have hother : ¬ (startsWith "topic::" position.replica ∨
        startsWith "channel::" position.replica ∨ position.replica = "author::" ++ account) := by
      rintro (h | h | h)
      · exact not_startsWith hbucket (by decide) (by decide) h
      · exact not_startsWith hbucket (by decide) (by decide) h
      · have hauthor : startsWith "author::" position.replica := h ▸ startsWith_append _ _
        exact not_startsWith hbucket (by decide) (by decide) hauthor
    simp only [hbucket, if_true, hother, and_false, or_false]
    cases hparse : parse position.replica with
    | ok bucket => simp [placeBucket_eq_take]
    | error e => simp
  · have hparse : ∀ bucket, parse position.replica ≠ .ok bucket :=
      fun bucket h => hbucket (startsWith_of_parse h)
    simp only [hbucket, Bool.false_eq_true, if_false, hparse, false_and, exists_false, false_or]
    cases since with
    | none => simp [placeOther_eq_take]
    | some first =>
      simp only [isSome_some, if_true, reduceCtorEq, false_and, iff_false]
      split <;> nofun

instance (replica : String) : Decidable (Selects account since replica) :=
  decidable_of_iff (place (cursorAt "" replica "") account since = .take) place_eq_take

/-- A selected replica starts with one of four kinds, and if a day is given with the first. -/
theorem Selects.kind (h : Selects account since replica) :
  ∃ kind ∈ ["bucket", "topic", "channel", "author"], startsWith (kind ++ "::") replica ∧
    (since.isSome → kind = "bucket")
  := by
  rcases h with ⟨bucket, hparse, -⟩ | ⟨rfl, htopic | hchannel | rfl⟩
  · exact ⟨"bucket", by simp, startsWith_of_parse hparse, fun _ => rfl⟩
  · exact ⟨"topic", by simp, htopic, nofun⟩
  · exact ⟨"channel", by simp, hchannel, nofun⟩
  · exact ⟨"author", by simp, startsWith_append _ _, nofun⟩

theorem not_selects_empty :
  ¬ Selects account since ""
  := by
  intro h
  obtain ⟨kind, -, hstart, -⟩ := h.kind
  obtain ⟨rest, hrest⟩ := startsWith_iff.mp hstart
  have hlength := congrArg String.length hrest
  have hcolons : "::".length = 2 := rfl
  simp only [String.length_empty, String.length_append] at hlength
  omega

/-! ### Rows -/

/-- What is assumed of a protected row: the key is ASCII, and a day that a replica belongs to has
as many digits as the first day of the range. -/
structure AccountHistoryCursor.WellFormed (since : Option ℕ) (position : AccountHistoryCursor) :
    Prop where
  ascii : ∀ c ∈ position.key.toList, c.toNat < 128
  digits : ∀ bucket, BucketReplica.parse position.replica = .ok bucket → ∀ first ∈ since,
    (Decimal.write bucket.bucket.index).toList.length = (Decimal.write first).toList.length

/-- The key or the author is not empty. -/
def AccountHistoryCursor.Named (position : AccountHistoryCursor) : Prop :=
  position.key = "" → position.author ≠ ""

theorem reference_eq_of_between {first last : AccountHistoryCursor} (hfirst : first ≤ row)
    (hlast : row ≤ last) (h : last.reference = first.reference) :
  row.reference = first.reference
  := by
  rw [← not_lt, AccountHistoryCursor.lt_iff, not_or] at hfirst hlast
  apply le_antisymm
  · rw [← h]
    exact not_lt.mp hlast.1
  · exact not_lt.mp hfirst.1

/-- Between positions of one reference the replicas are between theirs. -/
theorem replica_le_of_le (h : row ≤ row') (hreference : row.reference = row'.reference) :
  row.replica ≤ row'.replica
  := by
  rw [← not_lt, AccountHistoryCursor.lt_iff] at h
  by_contra hlt
  exact h (.inr ⟨hreference.symm, .inl (not_le.mp hlt)⟩)

theorem lt_of_replica_lt (hreference : row.reference = row'.reference)
    (h : row.replica < row'.replica) :
  row < row'
  := AccountHistoryCursor.lt_iff.mpr (.inr ⟨hreference, .inl h⟩)

/-- No row of a replica is at or in front of the position with an empty key. -/
theorem replica_lt_of_le_cursorAt {reference : String} (hnamed : row.Named)
    (hreference : row.reference = reference) (h : row ≤ cursorAt reference replica "") :
  row.replica < replica
  := by
  have hle : row.replica ≤ replica := replica_le_of_le h hreference
  apply lt_of_le_of_ne hle
  intro heq
  rw [← not_lt, AccountHistoryCursor.lt_iff] at h
  apply h
  right
  refine ⟨hreference.symm, .inr ⟨heq.symm, ?_⟩⟩
  by_cases hkey : row.key = ""
  · right
    exact ⟨hkey.symm, lt_of_le_of_ne (empty_le _) (hnamed hkey).symm⟩
  · left
    exact lt_of_le_of_ne (empty_le _) (Ne.symm hkey)

theorem lt_pastKeys {key : String} (h : ∀ c ∈ key.toList, c.toNat < 128) :
  key < pastKeys
  := by
  rw [String.lt_iff_toList_lt]
  have hpast : pastKeys.toList = ['\uffff'] := rfl
  rw [hpast]
  cases hkey : key.toList with
  | nil => exact nil_lt_cons _ _
  | cons c rest =>
    rw [cons_lt_cons_iff]
    left
    have hc : c.toNat < 128 := h c (by simp [hkey])
    change c.toNat < 65535
    omega

/-! ### Seeks -/

/-- The position behind a row outside the range has no selected row up to it. -/
structure SeeksPast (account : String) (since : Option ℕ) (position target : AccountHistoryCursor) :
    Prop where
  reference : target.reference = position.reference
  forward : position < target
  skips : ∀ row : AccountHistoryCursor, row.WellFormed since → row.Named →
    row.reference = position.reference → position ≤ row → row ≤ target →
    ¬ Selects account since row.replica

theorem seeksPast_replica (hascii : ∀ c ∈ position.key.toList, c.toNat < 128)
    (hnot : ¬ Selects account since position.replica) :
  SeeksPast account since position (cursorAt position.reference position.replica pastKeys)
  where
  reference := rfl
  forward := AccountHistoryCursor.lt_iff.mpr
    (.inr ⟨rfl, .inr ⟨rfl, .inl (lt_pastKeys hascii)⟩⟩)
  skips := by
    intro row _ _ hreference hfirst hlast
    have hle := replica_le_of_le hlast hreference
    have hge := replica_le_of_le hfirst hreference.symm
    have hreplica : row.replica = position.replica := le_antisymm hle hge
    rwa [hreplica]

/-- Up to the first replica of the scope within the range there is none of another scope. -/
theorem seeksPast_first {first : BucketReplica}
    (hbucket : BucketReplica.parse position.replica = .ok bucket)
    (hfirst : firstReplica bucket.scope first.bucket.index = .ok first)
    (hlt : position.replica < first.replicaId) (hsince : since = some first.bucket.index) :
  SeeksPast account since position (cursorAt position.reference first.replicaId "")
  where
  reference := rfl
  forward := lt_of_replica_lt rfl hlt
  skips := by
    rintro row hrow hnamed hreference hposition hlast hselects
    have hbefore := replica_lt_of_le_cursorAt hnamed hreference hlast
    have hafter := replica_le_of_le hposition hreference.symm
    -- The two replicas are in the same scope, and so is every one between them.
    have hscope : first.scope = bucket.scope := by
      obtain ⟨time, -, hnew⟩ := bind_eq_ok.mp hfirst
      exact (new_eq_ok.mp hnew).1
    let start := "bucket::v1::" ++ (bucket.scope.written ++ "::")
    have hstart : ∀ replica : BucketReplica, replica.scope = bucket.scope →
        replica.replicaId = start ++ Decimal.write replica.bucket.index := by
      intro replica hreplica
      simp only [start, replicaId, hreplica, String.append_assoc]
    rw [parse_eq_ok.mp hbucket, hstart bucket rfl] at hafter
    rw [hstart first hscope] at hbefore
    obtain ⟨right, hright⟩ := startsWith_iff.mp (startsWith_of_between hafter hbefore.le)
    rcases hselects with ⟨replica, hparse, -, hsince'⟩ | ⟨hnone, -⟩
    · have hid : replica.replicaId =
          "bucket::v1::" ++ (bucket.scope.written ++ ("::" ++ right)) := by
        rw [← parse_eq_ok.mp hparse, hright]
        simp only [start, String.append_assoc]
      obtain ⟨-, rfl⟩ := eq_of_replicaId_eq hid
      rw [hright, append_lt_append_iff,
        Decimal.write_lt_write_iff (hrow.digits replica hparse _ hsince)] at hbefore
      exact (hsince' _ hsince).not_gt hbefore
    · rw [hsince] at hnone
      cases hnone

/-- In front of the replicas of days there is nothing to select if a day is given. -/
theorem seeksPast_buckets (hsince : since.isSome) (hlt : position.replica < "bucket::") :
  SeeksPast account since position (cursorAt position.reference "bucket::" "")
  where
  reference := rfl
  forward := lt_of_replica_lt rfl hlt
  skips := by
    intro row _ hnamed hreference _ hlast hselects
    have hbefore := replica_lt_of_le_cursorAt hnamed hreference hlast
    obtain ⟨kind, -, hstart, hkind⟩ := hselects.kind
    obtain rfl := hkind hsince
    obtain ⟨rest, hrest⟩ := startsWith_iff.mp hstart
    rw [hrest] at hbefore
    exact (le_append _ _).not_gt hbefore

/-- The replicas of one kind lie together. -/
theorem startsWith_of_kind_between {kind right : String}
    (hafter : kind ++ ("::" ++ right) ≤ replica) (hbefore : replica < kind ++ ":;") :
  startsWith (kind ++ "::") replica
  := by
  have hleft : kind ++ ("::" ++ right) = (kind ++ ":") ++ (":" ++ right) := by
    rw [← String.toList_inj]
    simp
  have hright : kind ++ ":;" = (kind ++ ":") ++ ";" := by
    rw [← String.toList_inj]
    simp
  rw [hleft] at hafter
  rw [hright] at hbefore
  obtain ⟨rest, rfl⟩ := startsWith_iff.mp (startsWith_of_between hafter hbefore.le)
  rw [append_le_append_iff, ← not_lt, String.lt_iff_toList_lt, not_lt] at hafter
  rw [append_lt_append_iff, String.lt_iff_toList_lt] at hbefore
  -- Only one character is between the two.
  have hsemicolon : (";" : String).toList = [';'] := rfl
  have hcolon : (":" ++ right).toList = ':' :: right.toList := by simp
  rw [hcolon] at hafter
  refine startsWith_iff.mpr ⟨String.ofList rest.toList.tail, ?_⟩
  generalize hrest : rest.toList = current at hafter hbefore
  cases current with
  | nil =>
    exact absurd (nil_lt_cons _ _) hafter.not_gt
  | cons c tail =>
    have hlt : c < ';' := by
      rcases cons_lt_cons_iff.mp hbefore with hlt | ⟨-, hnil⟩
      · exact hlt
      · exact absurd hnil (not_lt_nil _)
    have hge : ':' ≤ c := by
      rw [← not_lt]
      intro hc
      exact hafter.not_gt (cons_lt_cons_iff.mpr (.inl hc))
    have hlt' : c.toNat < 59 := hlt
    have hge' : 58 ≤ c.toNat := hge
    obtain rfl : c = ':' := by
      apply Char.toNat_inj.mp
      change c.toNat = 58
      omega
    rw [← String.toList_inj]
    simp [hrest]

/-- Of a kind that is not selected no replica is. -/
theorem seeksPast_kind {kind : String} (hkind : beforeDoubled ':' position.replica = some kind)
    (hnot : ∀ kind ∈ ["bucket", "topic", "channel", "author"],
      ¬ startsWith (kind ++ "::") position.replica) :
  SeeksPast account since position (cursorAt position.reference (kind ++ ":;") "")
  := by
  obtain ⟨⟨right, hright⟩, hbefore⟩ := beforeDoubled_eq_some hkind
  refine ⟨rfl, lt_of_replica_lt rfl ?_, ?_⟩
  · change position.replica < kind ++ ":;"
    rw [hright, append_lt_append_iff, String.lt_iff_toList_lt, String.toList_append]
    apply cons_lt_cons_iff.mpr
    right
    refine ⟨rfl, cons_lt_cons_iff.mpr (.inl (by decide))⟩
  · intro row _ hnamed hreference hposition hlast hselects
    have hlt := replica_lt_of_le_cursorAt hnamed hreference hlast
    have hle := replica_le_of_le hposition hreference.symm
    rw [hright] at hle
    obtain ⟨selected, hselected, hstart, -⟩ := hselects.kind
    -- The row has the kind of the position in front of its first separator, and its own.
    obtain ⟨rest, hrest⟩ := startsWith_iff.mp (startsWith_of_kind_between hle hlt)
    obtain ⟨rest', hrest'⟩ := startsWith_iff.mp hstart
    have hone := hbefore rest
    have hother : beforeDoubled ':' row.replica = some selected := by
      rw [hrest', String.append_assoc]
      have hcolon : ∀ kind ∈ ["bucket", "topic", "channel", "author"], ':' ∉ kind.toList := by
        decide
      exact beforeDoubled_append (hcolon selected hselected)
    rw [hrest, String.append_assoc] at hother
    cases hone.symm.trans hother
    apply hnot kind hselected
    rw [hright, ← String.append_assoc]
    apply startsWith_append

theorem place_eq_seek {target : AccountHistoryCursor}
    (hascii : ∀ c ∈ position.key.toList, c.toNat < 128)
    (h : place position account since = .seek target) :
  SeeksPast account since position target
  := by
  have hpast : ¬ Selects account since position.replica := by
    rw [← place_eq_take, h]
    nofun
  have hreplica := seeksPast_replica hascii hpast
  unfold place at h
  split at h
  case isTrue hbucket =>
    split at h
    case h_1 bucket hparse =>
      unfold placeBucket at h
      split at h
      case isTrue => exact Place.seek.inj h ▸ hreplica
      case isFalse =>
        split at h
        case h_1 => cases h
        case h_2 first hfilter =>
          split at h
          case h_1 replica hfirst =>
            split at h
            case isTrue hlt =>
              obtain rfl := Place.seek.inj h
              have hindex : replica.bucket.index = first := by
                obtain ⟨time, htime, hnew⟩ := bind_eq_ok.mp hfirst
                rw [(new_eq_ok.mp hnew).2, TimeBucket.fromIndex_eq_ok.mp htime]
              subst hindex
              apply seeksPast_first hparse hfirst hlt
              exact (filter_eq_some_iff.mp hfilter).1
            case isFalse => exact Place.seek.inj h ▸ hreplica
          case h_2 => exact Place.seek.inj h ▸ hreplica
    case h_2 => exact Place.seek.inj h ▸ hreplica
  case isFalse hbucket =>
    split at h
    case isTrue hsince =>
      split at h
      case isTrue hlt =>
        obtain rfl := Place.seek.inj h
        exact seeksPast_buckets hsince hlt
      case isFalse => cases h
    case isFalse hsince =>
      unfold placeOther at h
      split at h
      case isTrue => cases h
      case isFalse hother =>
        split at h
        case h_1 kind hkind =>
          split at h
          case isTrue => exact Place.seek.inj h ▸ hreplica
          case isFalse hauthor =>
            obtain rfl := Place.seek.inj h
            apply seeksPast_kind hkind
            push Not at hother
            intro kind' hkind'
            fin_cases hkind'
            · exact hbucket
            · exact hother.1
            · exact hother.2.1
            · exact hauthor
        case h_2 => exact Place.seek.inj h ▸ hreplica

/-- The range ends behind the replicas of days. -/
theorem place_eq_ended (h : place position account since = .ended) :
  since.isSome ∧ ∀ row : AccountHistoryCursor, row.reference = position.reference →
    position ≤ row → ¬ Selects account since row.replica
  := by
  unfold place at h
  split at h
  case isTrue hbucket =>
    split at h
    case h_1 bucket hparse =>
      unfold placeBucket at h
      split_ifs at h
      split at h
      · cases h
      · split at h
        · split at h <;> cases h
        · cases h
    case h_2 => cases h
  case isFalse hbucket =>
    split at h
    case isTrue hsince =>
      split at h
      case isTrue => cases h
      case isFalse hlt =>
        refine ⟨hsince, ?_⟩
        intro row hreference hposition hselects
        obtain ⟨kind, -, hstart, hkind⟩ := hselects.kind
        obtain rfl := hkind hsince
        obtain ⟨rest, hrest⟩ := startsWith_iff.mp hstart
        have hleft : "bucket::" ++ "" ≤ position.replica := by
          exact not_lt.mp hlt
        have hright : position.replica ≤ "bucket::" ++ rest :=
          (replica_le_of_le hposition hreference.symm).trans hrest.le
        exact hbucket (startsWith_of_between hleft hright)
    case isFalse hsince =>
      unfold placeOther at h
      split at h
      · cases h
      · split at h
        · split at h <;> cases h
        · cases h

end

/-! ### Queries -/

/-- The references that are read under a name: one, or all of the older form. -/
def inReference (reference : String) (row : ProtectedRow) : Bool :=
  if reference = ownDocs then row.1.reference = ownDocs
  else startsWith reference row.1.reference

def rowsOf (rows : List ProtectedRow) (reference : String) : List ProtectedRow :=
  rows.filter (inReference reference)

/-- The first rows of the references behind a position. -/
def readRows (rows : List ProtectedRow) (reference : String) (position : AccountHistoryCursor)
    (limit : ℕ) : Result (List ProtectedRow) :=
  .ok ((behind Prod.fst (rowsOf rows reference) position).take limit)

section

variable (account : String) (since : Option ℕ)

/-- The rows that the range selects. -/
def selectedOf (rows : List ProtectedRow) : List ProtectedRow :=
  rows.filter fun row => Selects account since row.1.replica

/-- The rows of a query are taken up to the first one that is outside the range. -/
theorem placeRows_cases (rows : List ProtectedRow) (position : AccountHistoryCursor)
    (found : List ProtectedRow) :
  (placeRows account since rows position found =
      .through ((rows.map Prod.fst).getLastD position) (found ++ rows) ∧
    ∀ row ∈ rows, Selects account since row.1.replica) ∨
  ∃ taken row rest, rows = taken ++ row :: rest ∧
    (∀ row ∈ taken, Selects account since row.1.replica) ∧
    ((∃ target, place row.1 account since = .seek target ∧
        placeRows account since rows position found = .moved target (found ++ taken)) ∨
      place row.1 account since = .ended ∧
        placeRows account since rows position found = .ended (found ++ taken))
  := by
  induction rows generalizing position found with
  | nil => simp [placeRows]
  | cons row rows ih =>
    cases hplace : place row.1 account since with
    | take =>
      have hrow : Selects account since row.1.replica := place_eq_take.mp hplace
      have hcons : placeRows account since (row :: rows) position found =
          placeRows account since rows row.1 (found ++ [row]) := by
        simp only [placeRows, hplace]
      rw [hcons]
      rcases ih row.1 (found ++ [row]) with ⟨hall, hrows⟩ | ⟨taken, next, rest, rfl, htaken, h⟩
      · left
        rw [hall, map_cons, getLastD_cons, append_assoc, singleton_append]
        exact ⟨rfl, forall_mem_cons.mpr ⟨hrow, hrows⟩⟩
      · right
        refine ⟨row :: taken, next, rest, rfl, forall_mem_cons.mpr ⟨hrow, htaken⟩, ?_⟩
        rw [append_assoc, singleton_append] at h
        exact h
    | seek target =>
      right
      refine ⟨[], row, rows, rfl, nofun, .inl ⟨target, hplace, ?_⟩⟩
      simp [placeRows, hplace]
    | ended =>
      right
      refine ⟨[], row, rows, rfl, nofun, .inr ⟨hplace, ?_⟩⟩
      simp [placeRows, hplace]

variable {account since} {rows taken rest found found' : List ProtectedRow} {row : ProtectedRow}
  {position position' target : AccountHistoryCursor}

theorem selectedOf_append_of_forall (h : ∀ row ∈ taken, Selects account since row.1.replica) :
  selectedOf account since (taken ++ rest) = taken ++ selectedOf account since rest
  := by
  rw [selectedOf, filter_append, filter_eq_self.mpr (by simpa using h), selectedOf]

/-- What is assumed of the protected rows: they lie in order, and are well formed. -/
structure Protected (since : Option ℕ) (rows : List ProtectedRow) : Prop where
  sorted : rows.Pairwise fun a b => a.1 < b.1
  wellFormed : ∀ row ∈ rows, row.1.WellFormed since

theorem Protected.filter (h : Protected since rows) (p : ProtectedRow → Bool) :
  Protected since (rows.filter p)
  where
  sorted := h.sorted.filter p
  wellFormed := fun row hrow => h.wellFormed row (mem_filter.mp hrow).1

/-- The rest of the rows is not in front of its first. -/
theorem le_of_mem_rest (hsorted : rows.Pairwise fun a b => a.1 < b.1)
    (hbehind : behind Prod.fst rows position = taken ++ row :: rest) {other : ProtectedRow}
    (hother : other ∈ row :: rest) :
  row.1 ≤ other.1
  := by
  have hpairs : (taken ++ row :: rest).Pairwise fun a b => a.1 < b.1 := by
    rw [← hbehind]
    apply hsorted.filter
  rcases mem_cons.mp hother with rfl | hmem
  · exact le_rfl
  · exact ((pairwise_cons.mp (pairwise_append.mp hpairs).2.1).1 other hmem).le

/-- Behind the position that a page moves to, the selected rows are those that were not taken. -/
theorem selectedOf_behind_moved (hrows : Protected since rows)
    (hnamed : ∀ row ∈ rows, row.1.Named)
    (hbehind : behind Prod.fst rows position = taken ++ row :: rest)
    (hplace : place row.1 account since = .seek target) :
  selectedOf account since (behind Prod.fst rows target) =
    selectedOf account since (row :: rest)
  := by
  have hmem : ∀ other ∈ row :: rest, other ∈ rows := by
    intro other hother
    exact (mem_behind.mp (hbehind ▸ List.mem_append_right taken hother)).1
  have hseek := place_eq_seek (hrows.wellFormed row (hmem row (by simp))).ascii hplace
  have hlast := behind_of_eq_append hrows.sorted hbehind
  have hle : (taken.map Prod.fst).getLastD position ≤ target := by
    have hrow : row ∈ behind Prod.fst rows ((taken.map Prod.fst).getLastD position) := by
      rw [hlast]
      exact List.mem_cons_self
    exact ((mem_behind.mp hrow).2.trans hseek.forward).le
  rw [← behind_behind hle, hlast, selectedOf, selectedOf, behind, List.filter_filter]
  apply List.filter_congr
  intro other hother
  have hskip : Selects account since other.1.replica → target < other.1 := by
    intro hselects
    by_contra hnot
    have hfirst := le_of_mem_rest hrows.sorted hbehind hother
    have hreference := reference_eq_of_between hfirst (not_lt.mp hnot) hseek.reference
    exact hseek.skips other.1 (hrows.wellFormed other (hmem other hother))
      (hnamed other (hmem other hother)) hreference hfirst (not_lt.mp hnot) hselects
  by_cases hselects : Selects account since other.1.replica
  · simp [hselects, hskip hselects]
  · simp [hselects]

/-- Where the range ends, no selected row is left. -/
theorem selectedOf_ended (hrows : Protected since rows)
    (hreference : since.isSome → ∀ row ∈ rows, row.1.reference = ownDocs)
    (hbehind : behind Prod.fst rows position = taken ++ row :: rest)
    (hplace : place row.1 account since = .ended) :
  selectedOf account since (row :: rest) = []
  := by
  obtain ⟨hsince, hnone⟩ := place_eq_ended hplace
  have hmem : ∀ other ∈ row :: rest, other ∈ rows := by
    intro other hother
    exact (mem_behind.mp (hbehind ▸ mem_append_right taken hother)).1
  apply filter_eq_nil_iff.mpr
  intro other hother
  have hsame : other.1.reference = row.1.reference := by
    rw [hreference hsince other (hmem other hother), hreference hsince row (hmem row (by simp))]
  simpa using hnone other.1 hsame (le_of_mem_rest hrows.sorted hbehind hother)

/-! ### Pages -/

/-- The positions of a range: in the one reference, or in those of the older form if the range is
everything. -/
def positions (since : Option ℕ) : Set AccountHistoryCursor :=
  {position | position.reference = ownDocs ∨
    since = none ∧ startsWith legacyOwn position.reference}

variable (account since) in
/-- The selected rows behind a position. The older form follows the one reference. -/
def remaining (rows : List ProtectedRow) (position : AccountHistoryCursor) :
    List ProtectedRow :=
  selectedOf account since (behind Prod.fst (rowsOf rows (referenceAt position)) position) ++
    if referenceAt position = ownDocs ∧ since = none then
      selectedOf account since (rowsOf rows legacyOwn)
    else []

/-- The rows behind a position. Going over to the older form counts as one. -/
def work (rows : List ProtectedRow) (position : AccountHistoryCursor) : ℕ :=
  (behind Prod.fst (rowsOf rows (referenceAt position)) position).length +
    if referenceAt position = ownDocs then (rowsOf rows legacyOwn).length + 1 else 0

theorem referenceAt_of_ownDocs (h : position.reference = ownDocs) :
  referenceAt position = ownDocs
  := by
  rw [referenceAt, h]
  rfl

theorem referenceAt_of_legacyOwn (h : startsWith legacyOwn position.reference) :
  referenceAt position = legacyOwn
  := by
  rw [referenceAt, if_pos h]

theorem mem_rowsOf_ownDocs :
  row ∈ rowsOf rows ownDocs ↔ row ∈ rows ∧ row.1.reference = ownDocs
  := by
  simp [rowsOf, inReference]

theorem mem_rowsOf_legacyOwn :
  row ∈ rowsOf rows legacyOwn ↔ row ∈ rows ∧ startsWith legacyOwn row.1.reference
  := by
  have hne : legacyOwn ≠ ownDocs := by decide
  simp [rowsOf, inReference, hne]

/-- A position in the reference of a row that is read there is read in the same way. -/
theorem positions_of_row (hposition : position ∈ positions since)
    (hrow : row ∈ rowsOf rows (referenceAt position))
    (hreference : position'.reference = row.1.reference) :
  position' ∈ positions since ∧ referenceAt position' = referenceAt position
  := by
  rcases hposition with hown | ⟨hnone, hlegacy⟩
  · rw [referenceAt_of_ownDocs hown] at hrow ⊢
    have hown' : position'.reference = ownDocs :=
      hreference.trans (mem_rowsOf_ownDocs.mp hrow).2
    exact ⟨.inl hown', referenceAt_of_ownDocs hown'⟩
  · rw [referenceAt_of_legacyOwn hlegacy] at hrow ⊢
    have hlegacy' : startsWith legacyOwn position'.reference := by
      rw [hreference]
      exact (mem_rowsOf_legacyOwn.mp hrow).2
    exact ⟨.inr ⟨hnone, hlegacy'⟩, referenceAt_of_legacyOwn hlegacy'⟩

/-- A step within a reference, after which the rows that remain are those that were not taken. -/
theorem remaining_of_step (hreference : referenceAt position' = referenceAt position)
    (hrows : taken ++ selectedOf account since
        (behind Prod.fst (rowsOf rows (referenceAt position)) position') =
      selectedOf account since (behind Prod.fst (rowsOf rows (referenceAt position)) position)) :
  taken ++ remaining account since rows position' = remaining account since rows position
  := by
  rw [remaining, remaining, hreference, ← append_assoc, hrows]

theorem work_lt_of_step (hreference : referenceAt position' = referenceAt position)
    (hlength : (behind Prod.fst (rowsOf rows (referenceAt position)) position').length <
      (behind Prod.fst (rowsOf rows (referenceAt position)) position).length) :
  work rows position' < work rows position
  := by
  rw [work, work, hreference]
  omega

/-- The first position of a reference is in front of all selected rows. -/
theorem selectedOf_behind_start {reference : String}
    (h : ∀ row ∈ rows, reference ≤ row.1.reference) :
  selectedOf account since (behind Prod.fst rows (cursorAt reference "" "")) =
    selectedOf account since rows
  := by
  rw [selectedOf, selectedOf, behind, List.filter_filter]
  apply List.filter_congr
  intro row hrow
  have hbehind : Selects account since row.1.replica → cursorAt reference "" "" < row.1 := by
    intro hselects
    have hreplica : row.1.replica ≠ "" := by
      intro hempty
      exact not_selects_empty (hempty ▸ hselects)
    rcases (h row hrow).lt_or_eq with hlt | heq
    · exact AccountHistoryCursor.lt_iff.mpr (.inl hlt)
    · exact lt_of_replica_lt heq (lt_of_le_of_ne (empty_le _) hreplica.symm)
  by_cases hselects : Selects account since row.1.replica
  · simp [hselects, hbehind hselects]
  · simp [hselects]

/-- All rows that the range selects: those of the one reference, and if the range is everything
also those of the older form. -/
def historyRows (account : String) (since : Option ℕ) (rows : List ProtectedRow) :
    List ProtectedRow :=
  selectedOf account since (rowsOf rows ownDocs) ++
    if since = none then selectedOf account since (rowsOf rows legacyOwn) else []

theorem remaining_start (rows : List ProtectedRow) :
  remaining account since rows (cursorAt ownDocs "" "") = historyRows account since rows
  := by
  have hreference : referenceAt (cursorAt ownDocs "" "") = ownDocs := referenceAt_of_ownDocs rfl
  rw [remaining, historyRows, hreference, selectedOf_behind_start]
  · simp
  · intro row hrow
    exact (mem_rowsOf_ownDocs.mp hrow).2.ge

theorem referenceAt_legacyStart :
  referenceAt (cursorAt legacyOwn "" "") = legacyOwn
  := rfl

theorem remaining_legacyStart (rows : List ProtectedRow) :
  remaining account since rows (cursorAt legacyOwn "" "") =
    selectedOf account since (rowsOf rows legacyOwn)
  := by
  have hne : ¬ (legacyOwn = ownDocs ∧ since = none) := fun h => absurd h.1 (by decide)
  rw [remaining, referenceAt_legacyStart, if_neg hne, append_nil, selectedOf_behind_start]
  intro row hrow
  obtain ⟨rest, hrest⟩ := startsWith_iff.mp (mem_rowsOf_legacyOwn.mp hrow).2
  rw [hrest]
  apply le_append

/-- What queries from a position on add to a page. -/
structure PageOf (account : String) (since : Option ℕ) (rows : List ProtectedRow) (left : ℕ)
    (position : AccountHistoryCursor) (found : List ProtectedRow) (queries : ℕ)
    (result : HistoryRows) : Prop where
  exact_rows : result.found ++ result.next.elim [] (remaining account since rows) =
    found ++ remaining account since rows position
  next_mem : ∀ next, result.next = some next → next ∈ positions since
  work_le : ∀ next, result.next = some next → work rows next ≤ work rows position
  work_lt : 0 < left → ∀ next, result.next = some next → work rows next < work rows position
  found_le : result.found.length ≤ pageRecords
  queries_le : result.queries ≤ queries + left

variable {left left' queries : ℕ} {result : HistoryRows}

theorem PageOf.stop (hposition : position ∈ positions since)
    (hfound : found.length ≤ pageRecords) :
  PageOf account since rows 0 position found queries ⟨found, some position, queries⟩
  where
  exact_rows := rfl
  next_mem := fun _ hnext => some.inj hnext ▸ hposition
  work_le := fun _ hnext => some.inj hnext ▸ le_rfl
  work_lt := nofun
  found_le := hfound
  queries_le := le_rfl

theorem PageOf.last (hfound : found'.length ≤ pageRecords)
    (hrows : found' = found ++ remaining account since rows position) :
  PageOf account since rows (left + 1) position found queries ⟨found', none, queries + 1⟩
  where
  exact_rows := by simpa using hrows
  next_mem := nofun
  work_le := nofun
  work_lt := nofun
  found_le := hfound
  queries_le := by
    change queries + 1 ≤ _
    omega

/-- One query, and the queries after it. -/
theorem PageOf.query (h : PageOf account since rows left' position' found' (queries + 1) result)
    (hleft : left' ≤ left)
    (hrows : found' ++ remaining account since rows position' =
      found ++ remaining account since rows position)
    (hwork : work rows position' < work rows position) :
  PageOf account since rows (left + 1) position found queries result
  where
  exact_rows := h.exact_rows.trans hrows
  next_mem := h.next_mem
  work_le := fun next hnext => ((h.work_le next hnext).trans_lt hwork).le
  work_lt := fun _ next hnext => (h.work_le next hnext).trans_lt hwork
  found_le := h.found_le
  queries_le := by
    have hle := h.queries_le
    omega

section

variable (hrows : Protected since rows)
include hrows

/-- A query that meets a row outside the range goes on behind it. -/
theorem query_moved (hnamed : ∀ row ∈ rows, row.1.Named) (hposition : position ∈ positions since)
    (hbehind : behind Prod.fst (rowsOf rows (referenceAt position)) position =
      taken ++ row :: rest)
    (htaken : ∀ row ∈ taken, Selects account since row.1.replica)
    (hplace : place row.1 account since = .seek target) :
  target ∈ positions since ∧
    taken ++ remaining account since rows target = remaining account since rows position ∧
    work rows target < work rows position
  := by
  have hsource : Protected since (rowsOf rows (referenceAt position)) := hrows.filter _
  have hrow : row ∈ behind fst (rowsOf rows (referenceAt position)) position := by
    simp [hbehind]
  obtain ⟨hmem, hafter⟩ := mem_behind.mp hrow
  have hseek := place_eq_seek (hsource.wellFormed row hmem).ascii hplace
  obtain ⟨htarget, hreference⟩ := positions_of_row hposition hmem hseek.reference
  refine ⟨htarget, ?_, ?_⟩
  · apply remaining_of_step hreference
    rw [selectedOf_behind_moved hsource (fun row h => hnamed row (mem_filter.mp h).1)
      hbehind hplace, hbehind, selectedOf_append_of_forall htaken]
  · apply work_lt_of_step hreference
    exact length_behind_lt hrow (hafter.trans hseek.forward).le hseek.forward.le

/-- A query that meets the end of the range has taken all rows that remained. -/
theorem query_ended (hposition : position ∈ positions since)
    (hbehind : behind Prod.fst (rowsOf rows (referenceAt position)) position =
      taken ++ row :: rest)
    (htaken : ∀ row ∈ taken, Selects account since row.1.replica)
    (hplace : place row.1 account since = .ended) :
  taken = remaining account since rows position
  := by
  have hsome := (place_eq_ended hplace).1
  have hnot : ¬ since = none := by
    rintro rfl
    cases hsome
  have hown : position.reference = ownDocs := hposition.resolve_right fun h => hnot h.1
  have hreference : since.isSome → ∀ row ∈ rowsOf rows (referenceAt position),
      row.1.reference = ownDocs := by
    intro _ row hrow
    rw [referenceAt_of_ownDocs hown] at hrow
    exact (mem_rowsOf_ownDocs.mp hrow).2
  rw [remaining, if_neg fun h => hnot h.2, append_nil, hbehind, selectedOf_append_of_forall htaken,
    selectedOf_ended (hrows.filter _) hreference hbehind hplace, append_nil]

/-- A query all of whose rows are taken goes on behind the last. -/
theorem query_through (hposition : position ∈ positions since)
    (hbehind : behind Prod.fst (rowsOf rows (referenceAt position)) position = taken ++ rest)
    (hsome : taken ≠ []) (htaken : ∀ row ∈ taken, Selects account since row.1.replica)
    (htarget : target = (taken.map Prod.fst).getLastD position) :
  target ∈ positions since ∧
    taken ++ remaining account since rows target = remaining account since rows position ∧
    work rows target < work rows position
  := by
  have hlast : target = (taken.getLast hsome).1 := by
    rw [htarget, getLastD_eq_getLast?, getLast?_map, getLast?_eq_some_getLast hsome]
    rfl
  have hmem : taken.getLast hsome ∈
      behind fst (rowsOf rows (referenceAt position)) position := by
    rw [hbehind]
    exact mem_append_left rest (getLast_mem hsome)
  have hmem' := mem_behind.mp hmem
  obtain ⟨hpositions, hreference⟩ :=
    positions_of_row hposition hmem'.1 (congrArg AccountHistoryCursor.reference hlast)
  have hsource : Protected since (rowsOf rows (referenceAt position)) := hrows.filter _
  refine ⟨hpositions, ?_, ?_⟩
  · apply remaining_of_step hreference
    rw [htarget, behind_of_eq_append hsource.sorted hbehind, hbehind,
      selectedOf_append_of_forall htaken]
  · apply work_lt_of_step hreference
    rw [hlast]
    exact length_behind_lt hmem hmem'.2.le le_rfl

omit hrows in
/-- A query that takes all rows of the reference is followed by the older form if the range is
everything. -/
theorem query_exhausted
    (hbehind : behind Prod.fst (rowsOf rows (referenceAt position)) position = taken)
    (htaken : ∀ row ∈ taken, Selects account since row.1.replica) :
  if referenceAt position = ownDocs ∧ since = none then
    taken ++ remaining account since rows (cursorAt legacyOwn "" "") =
        remaining account since rows position ∧
      work rows (cursorAt legacyOwn "" "") < work rows position
  else taken = remaining account since rows position
  := by
  have hselected : selectedOf account since taken = taken :=
    filter_eq_self.mpr (by simpa using htaken)
  split
  case isTrue h =>
    constructor
    · rw [remaining_legacyStart, remaining, if_pos h, hbehind, hselected]
    · have hle : (behind fst (rowsOf rows legacyOwn) (cursorAt legacyOwn "" "")).length ≤
          (rowsOf rows legacyOwn).length := length_filter_le _ _
      have hne : ¬ legacyOwn = ownDocs := by decide
      rw [work, work, referenceAt_legacyStart, if_neg hne, if_pos h.1]
      omega
  case isFalse h => rw [remaining, if_neg h, append_nil, hbehind, hselected]

/-- The rows of a page are the first of those that remain. -/
theorem queryRows_spec (hnamed : ∀ row ∈ rows, row.1.Named) (left : ℕ) (queries : ℕ)
    (hposition : position ∈ positions since) (hfound : found.length < pageRecords) :
  ∃ result, queryRows account since (readRows rows) left position found queries = .ok result ∧
    PageOf account since rows left position found queries result
  := by
  induction left generalizing position found queries with
  | zero => exact ⟨_, rfl, .stop hposition hfound.le⟩
  | succ left ih =>
    let ahead := behind fst (rowsOf rows (referenceAt position)) position
    let limit := pageRecords - found.length
    have hread : readRows rows (referenceAt position) position limit = .ok (ahead.take limit) :=
      rfl
    have hahead : ahead = ahead.take limit ++ ahead.drop limit :=
      (take_append_drop limit ahead).symm
    have hlength : (ahead.take limit).length ≤ limit := length_take_le _ _
    rcases placeRows_cases account since (ahead.take limit) position found with
      ⟨hthrough, hall⟩ | ⟨taken, row, rest, hsplit, htaken, hcase⟩
    · by_cases hfull : (found ++ ahead.take limit).length = pageRecords
      · -- The page is full.
        have hsome : ahead.take limit ≠ [] := by
          intro hnil
          rw [hnil, append_nil] at hfull
          omega
        obtain ⟨htarget, hremaining, hwork⟩ :=
          query_through hrows hposition hahead hsome hall rfl
        refine ⟨_, ?_, (PageOf.stop htarget hfull.le).query (Nat.zero_le left) ?_ hwork⟩
        · refine bind_eq_ok.mpr ⟨ahead.take limit, hread, ?_⟩
          simp only [hthrough, hfull, if_true]
          rfl
        · rw [append_assoc, hremaining]
      · -- The reference is at its end, since it returned fewer rows than the page had room for.
        have hshort : (ahead.take limit).length < limit := by
          rw [length_append] at hfull
          omega
        have hbehind : ahead = ahead.take limit := by
          rw [length_take] at hshort
          rw [take_of_length_le (by omega)]
        have hcount : (found ++ ahead.take limit).length < pageRecords := by
          rw [length_append]
          omega
        have hexhausted := query_exhausted hbehind hall
        split_ifs at hexhausted with hnext
        · obtain ⟨hremaining, hwork⟩ := hexhausted
          have hlegacy : cursorAt legacyOwn "" "" ∈ positions since :=
            .inr ⟨hnext.2, by decide⟩
          obtain ⟨result, hresult, hpage⟩ := ih (queries + 1) hlegacy hcount
          refine ⟨result, ?_, hpage.query le_rfl ?_ hwork⟩
          · refine bind_eq_ok.mpr ⟨ahead.take limit, hread, ?_⟩
            simp only [hthrough, hfull, if_false]
            rw [if_pos hshort, if_pos hnext]
            exact hresult
          · rw [append_assoc, hremaining]
        · refine ⟨⟨found ++ ahead.take limit, none, queries + 1⟩, ?_, .last hcount.le ?_⟩
          · refine bind_eq_ok.mpr ⟨ahead.take limit, hread, ?_⟩
            simp only [hthrough, hfull, if_false]
            rw [if_pos hshort, if_neg hnext]
            rfl
          · rw [← hexhausted]
    · have hbehind : ahead = taken ++ row :: (rest ++ ahead.drop limit) := by
        rw [hsplit, append_assoc, cons_append] at hahead
        exact hahead
      have hcount : (found ++ taken).length < pageRecords := by
        rw [hsplit] at hlength
        simp only [length_append, length_cons] at hlength ⊢
        omega
      rcases hcase with ⟨target, hplace, hmoved⟩ | ⟨hplace, hended⟩
      · obtain ⟨htarget, hremaining, hwork⟩ :=
          query_moved hrows hnamed hposition hbehind htaken hplace
        obtain ⟨result, hresult, hpage⟩ := ih (queries + 1) htarget hcount
        refine ⟨result, ?_, hpage.query le_rfl ?_ hwork⟩
        · refine bind_eq_ok.mpr ⟨ahead.take limit, hread, ?_⟩
          simp only [hmoved, hcount.ne, if_false]
          exact hresult
        · rw [append_assoc, hremaining]
      · refine ⟨⟨found ++ taken, none, queries + 1⟩, ?_, .last hcount.le ?_⟩
        · refine bind_eq_ok.mpr ⟨ahead.take limit, hread, ?_⟩
          simp only [hended]
          rfl
        · rw [← query_ended hrows hposition hbehind htaken hplace]

end

/-- The rows of the page at a cursor, and the cursor of the next. -/
def pageAt (account : String) (since : Option ℕ) (rows : List ProtectedRow)
    (cursor : Option AccountHistoryCursor) :
    List ProtectedRow × Option (Option AccountHistoryCursor) :=
  match pageRows account since (readRows rows) cursor with
  | .ok result => (result.found, result.next.map some)
  | .error _ => ([], none)

/-- The position at which the page at a cursor starts. -/
def startOf (cursor : Option AccountHistoryCursor) : AccountHistoryCursor :=
  cursor.getD (cursorAt ownDocs "" "")

variable (account) in
theorem pageRows_spec (hrows : Protected since rows) (hnamed : ∀ row ∈ rows, row.1.Named)
    {cursor : Option AccountHistoryCursor} (hcursor : startOf cursor ∈ positions since) :
  ∃ result, pageRows account since (readRows rows) cursor = .ok result ∧
    PageOf account since rows pageQueries (startOf cursor) [] 0 result
  := queryRows_spec hrows hnamed pageQueries 0 hcursor (by decide)

variable (account) in
theorem pageAt_exact (hrows : Protected since rows) (hnamed : ∀ row ∈ rows, row.1.Named) :
  Exact (pageAt account since rows) (fun cursor => remaining account since rows (startOf cursor))
    (fun cursor => work rows (startOf cursor)) {cursor | startOf cursor ∈ positions since}
  where
  rows := by
    intro cursor hcursor
    obtain ⟨result, hresult, hpage⟩ := pageRows_spec account hrows hnamed hcursor
    have hexact := hpage.exact_rows
    simp only [pageAt, hresult]
    cases hnext : result.next with
    | none => simpa [hnext] using hexact
    | some next => simpa [hnext, startOf] using hexact
  next := by
    intro cursor hcursor cursor' hcursor'
    obtain ⟨result, hresult, hpage⟩ := pageRows_spec account hrows hnamed hcursor
    simp only [pageAt, hresult] at hcursor'
    obtain ⟨next, hnext, rfl⟩ := map_eq_some_iff.mp hcursor'
    exact ⟨hpage.next_mem next hnext, hpage.work_lt (by decide) next hnext⟩

end

/-- The pages from the start come to an end and hold the rows that the range selects, in order
and each once. Every page makes a bounded number of queries and takes a bounded number of rows,
and the pages from its cursor hold the rows that the pages in front of it do not. -/
theorem pages_exact {since : Option ℕ} {rows : List ProtectedRow} (account : String)
    (hrows : Protected since rows) (hnamed : ∀ row ∈ rows, row.1.Named) :
  (∃ n result, pages (pageAt account since rows) n none = some result ∧
    result.flatten = historyRows account since rows) ∧
  ∀ before cursor, Reached (pageAt account since rows) none before cursor →
    (∃ result, pageRows account since (readRows rows) cursor = .ok result ∧
      result.queries ≤ pageQueries ∧ result.found.length ≤ pageRecords) ∧
    ∃ n rest, pages (pageAt account since rows) n cursor = some rest ∧
      before.flatten ++ rest.flatten = historyRows account since rows
  := by
  have hexact := pageAt_exact account hrows hnamed
  have hstart : startOf none ∈ positions since := .inl rfl
  have hall : remaining account since rows (startOf none) = historyRows account since rows :=
    remaining_start rows
  constructor
  · obtain ⟨n, result, hpages, hflatten⟩ := hexact.exists_pages hstart
    exact ⟨n, result, hpages, hflatten.trans hall⟩
  · intro before cursor hreached
    obtain ⟨hcursor, hrest⟩ := hexact.reached hstart hreached
    constructor
    · obtain ⟨result, hresult, hpage⟩ := pageRows_spec account hrows hnamed hcursor
      have hqueries := hpage.queries_le
      exact ⟨result, hresult, hqueries, hpage.found_le⟩
    · obtain ⟨n, rest, hpages, hflatten⟩ := hexact.exists_pages hcursor
      refine ⟨n, rest, hpages, ?_⟩
      rw [hflatten, hrest, hall]

/-! ### Two days of a scope -/

namespace TwoDays

/-- Replicas of a scope on a day before the range and on its first day, for an account that has
written them. -/
structure Days (account : String) (early late : BucketReplica) : Prop where
  scope : late.scope = early.scope
  written : early.writtenBy account
  lt : early.bucket.index < late.bucket.index
  digits : (Decimal.write early.bucket.index).toList.length =
    (Decimal.write late.bucket.index).toList.length

/-- A record of each of the two days. -/
def rows (early late : BucketReplica) (key author : String) : List ProtectedRow :=
  [(⟨ownDocs, early.replicaId, "k", "a"⟩, []), (⟨ownDocs, late.replicaId, key, author⟩, [])]

section

variable {account : String} {early late : BucketReplica} (h : Days account early late)

include h

theorem replicaId_lt :
  early.replicaId < late.replicaId
  := by
  rw [replicaId, replicaId, h.scope, append_lt_append_iff,
    append_lt_append_iff, append_lt_append_iff, Decimal.write_lt_write_iff h.digits]
  exact h.lt

theorem rows_protected {key author : String} (hkey : ∀ c ∈ key.toList, c.toNat < 128) :
  Protected (some late.bucket.index) (rows early late key author)
  where
  sorted := pairwise_pair.mpr (lt_of_replica_lt rfl (replicaId_lt h))
  wellFormed := by
    intro row hrow
    rcases mem_pair.mp hrow with rfl | rfl
    · refine ⟨by simp, ?_⟩
      intro bucket hbucket first hfirst
      obtain rfl := replicaId_injective (parse_eq_ok.mp hbucket)
      obtain rfl := mem_some_iff.mp hfirst
      exact h.digits
    · refine ⟨hkey, ?_⟩
      intro bucket hbucket first hfirst
      obtain rfl := replicaId_injective (parse_eq_ok.mp hbucket)
      obtain rfl := mem_some_iff.mp hfirst
      rfl

theorem late_mem_historyRows (key author : String) :
  (⟨ownDocs, late.replicaId, key, author⟩, []) ∈
    historyRows account (some late.bucket.index) (rows early late key author)
  := by
  have hwritten : late.writtenBy account := by
    rw [writtenBy, h.scope]
    exact h.written
  have hselects : Selects account (some late.bucket.index) late.replicaId := by
    refine .inl ⟨late, parse_eq_ok.mpr rfl, hwritten, ?_⟩
    intro first hfirst
    exact (mem_some_iff.mp hfirst).ge
  apply mem_append_left
  refine mem_filter.mpr ⟨mem_rowsOf_ownDocs.mpr ⟨?_, rfl⟩, decide_eq_true hselects⟩
  simp [rows]

/-- The first record is outside the range, which goes on at the first day. -/
theorem place_early (key author : String) :
  place ⟨ownDocs, early.replicaId, key, author⟩ account (some late.bucket.index) =
    .seek (cursorAt ownDocs late.replicaId "")
  := by
  have hparse : parse early.replicaId = .ok early :=
    parse_eq_ok.mpr rfl
  have hfirst : firstReplica early.scope late.bucket.index = .ok late :=
    bind_eq_ok.mpr ⟨late.bucket, TimeBucket.fromIndex_eq_ok.mpr rfl,
      new_eq_ok.mpr ⟨h.scope, rfl⟩⟩
  have hfilter : (some late.bucket.index).filter (early.bucket.index < ·) =
      some late.bucket.index := by
    simp [h.lt]
  simp only [place, startsWith_of_parse hparse, if_true, hparse, placeBucket, h.written,
    not_true_eq_false, if_false, hfilter, hfirst, replicaId_lt h]

/-- A record without key and author on the first day is at the position where the page goes on,
and is not read. -/
theorem pageRows_eq :
  pageRows account (some late.bucket.index) (readRows (rows early late "" "")) none =
    .ok ⟨[], none, 2⟩
  := by
  have hown : rowsOf (rows early late "" "") ownDocs = rows early late "" "" := by
    simp [rowsOf, inReference, rows]
  have hempty : ∀ replica : BucketReplica, "" < replica.replicaId := by
    intro replica
    apply lt_of_le_of_ne (empty_le _)
    intro heq
    have hstart := startsWith_replicaId replica
    rw [← heq] at hstart
    exact absurd hstart (by decide)
  have hfirst : readRows (rows early late "" "") ownDocs (cursorAt ownDocs "" "") 64 =
      .ok (rows early late "" "") := by
    have hearly : cursorAt ownDocs "" "" < ⟨ownDocs, early.replicaId, "k", "a"⟩ :=
      lt_of_replica_lt rfl (hempty early)
    have hlate : cursorAt ownDocs "" "" < ⟨ownDocs, late.replicaId, "", ""⟩ :=
      lt_of_replica_lt rfl (hempty late)
    rw [readRows, hown]
    simp [rows, behind, hearly, hlate]
  have hsecond : readRows (rows early late "" "") ownDocs
      (cursorAt ownDocs late.replicaId "") 64 = .ok [] := by
    have hearly : (⟨ownDocs, early.replicaId, "k", "a"⟩ : AccountHistoryCursor) <
        cursorAt ownDocs late.replicaId "" := lt_of_replica_lt rfl (replicaId_lt h)
    have hlate : ¬ cursorAt ownDocs late.replicaId "" < ⟨ownDocs, late.replicaId, "", ""⟩ :=
      lt_irrefl _
    rw [readRows, hown]
    simp [rows, behind, hearly.not_gt, hlate]
  have hmoved : placeRows account (some late.bucket.index) (rows early late "" "")
      (cursorAt ownDocs "" "") [] = .moved (cursorAt ownDocs late.replicaId "") [] := by
    simp only [rows, placeRows, place_early h]
  refine bind_eq_ok.mpr ⟨rows early late "" "", hfirst, ?_⟩
  rw [getD_none, hmoved]
  change queryRows account _ (readRows (rows early late "" "")) 7 _ [] 1 = _
  rw [queryRows, referenceAt_of_ownDocs rfl]
  exact bind_eq_ok.mpr ⟨[], hsecond, rfl⟩

end

/-- The days `10` and `11` of a topic. -/
theorem exists_days :
  ∃ early late, Days "" early late
  := by
  let early : BucketReplica := ⟨.topic "t", ⟨10, by decide⟩, rfl⟩
  let late : BucketReplica := ⟨.topic "t", ⟨11, by decide⟩, rfl⟩
  have hdigits : (Decimal.write 10).toList.length = (Decimal.write 11).toList.length := by
    decide
  exact ⟨early, late, rfl, rfl, by decide, hdigits⟩

end TwoDays

open TwoDays in
theorem pages_exact_topic :
  ∃ (since : Option ℕ) (rows : List ProtectedRow) (n : ℕ) (result : List (List ProtectedRow)),
    pages (pageAt "" since rows) n none = some result ∧ result.flatten ≠ []
  := by
  obtain ⟨early, late, h⟩ := exists_days
  have hnamed : ∀ row ∈ rows early late "k" "a", row.1.Named := by
    intro row hrow hkey
    rcases mem_pair.mp hrow with rfl | rfl <;> simp at hkey
  obtain ⟨n, result, hpages, hrows⟩ :=
    (pages_exact "" (rows_protected h (by simp)) hnamed).1
  refine ⟨_, _, n, result, hpages, ?_⟩
  rw [hrows]
  exact ne_nil_of_mem (late_mem_historyRows h "k" "a")

open TwoDays in
/-- Without key and author a selected row may be missed. -/
theorem exists_skipped_row :
  ∃ (account : String) (since : Option ℕ) (rows : List ProtectedRow), Protected since rows ∧
    (∃ result, pageRows account since (readRows rows) none = .ok result ∧ result.found = [] ∧
      result.next = none) ∧
    historyRows account since rows ≠ []
  := by
  obtain ⟨early, late, h⟩ := exists_days
  refine ⟨"", _, _, rows_protected h (by simp), ⟨_, pageRows_eq h, rfl, rfl⟩, ?_⟩
  exact ne_nil_of_mem (late_mem_historyRows h "" "")

end Kukuri
