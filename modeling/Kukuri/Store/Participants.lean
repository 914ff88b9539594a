import Kukuri.Data.BTree

/-!
# Participants of private channels

The stores keep a row for each channel, epoch and participant. A record replaces the row of its own
epoch if it is newer, and a record of a leave also ends the older rows of the other epochs that the
store holds. Of one channel and participant both stores therefore keep the same `Epochs`, which
`MemoryParticipants.epochs_put` and `SqliteParticipants.epochs_put` say.

A leave does not reach a row that arrives after it. The main result, `active_iff_newest_joins`, says
that the newest record decides when no join is overtaken by the leave of another epoch, and
`exists_overtaken_join` that it need not decide otherwise.
-/

namespace Kukuri

open List Function BTreeMap

/-- A record of a participant: a join, or a leave with the time of leaving. -/
structure PrivateChannelParticipantRow where
  channelId : String
  epochId : String
  participantPubkey : String
  leftAt : Option ℤ
  updatedAt : ℤ
deriving DecidableEq

/-- The primary key: channel, epoch and participant. -/
abbrev ParticipantKey := String ×ₗ String ×ₗ String

/-- The key of a row of a channel, an epoch and a participant. -/
def participantKey (channelId epochId participantPubkey : String) : ParticipantKey :=
  toLex (channelId, toLex (epochId, participantPubkey))

theorem participantKey_inj {channel channel' epoch epoch' participant participant' : String} :
  participantKey channel epoch participant = participantKey channel' epoch' participant' ↔
    channel = channel' ∧ epoch = epoch' ∧ participant = participant'
  := by
  simp [participantKey]

def PrivateChannelParticipantRow.key (row : PrivateChannelParticipantRow) : ParticipantKey :=
  participantKey row.channelId row.epochId row.participantPubkey

/-! ### The memory store -/

/-- The rows of the memory store, each under its own key. -/
structure MemoryParticipants where
  rows : BTreeMap ParticipantKey PrivateChannelParticipantRow
  keyed : ∀ key (row : PrivateChannelParticipantRow), rows[key]? = some row → row.key = key

namespace MemoryParticipants

def empty : MemoryParticipants where
  rows := ∅
  keyed key row h := by simp at h

/-- A leave ends the older rows of the channel and the participant. -/
def leave (row : PrivateChannelParticipantRow) (leftAt : ℤ)
    (existing : PrivateChannelParticipantRow) : PrivateChannelParticipantRow :=
  if existing.channelId = row.channelId ∧ existing.participantPubkey = row.participantPubkey ∧
      existing.leftAt = none ∧ existing.updatedAt < leftAt then
    { existing with leftAt := some leftAt, updatedAt := leftAt }
  else existing

theorem key_leave (row : PrivateChannelParticipantRow) (leftAt : ℤ)
    (existing : PrivateChannelParticipantRow) :
  (leave row leftAt existing).key = existing.key
  := by
  unfold leave
  split <;> rfl

/-- The rows after a leave, or the same rows after a join. -/
def leaveAll (store : MemoryParticipants) (row : PrivateChannelParticipantRow) :
    MemoryParticipants :=
  match row.leftAt with
  | none => store
  | some leftAt =>
    { rows := store.rows.map fun _ existing => leave row leftAt existing
      keyed := by
        intro key row' h
        rw [Std.ExtTreeMap.getElem?_map] at h
        obtain ⟨existing, hexisting, rfl⟩ := Option.map_eq_some_iff.mp h
        rw [key_leave]
        exact store.keyed key existing hexisting }

def insert (store : MemoryParticipants) (row : PrivateChannelParticipantRow) :
    MemoryParticipants where
  rows := store.rows.insert row.key row
  keyed key row' h := by
    rcases BTreeMap.getElem?_of_insert h with ⟨hkey, rfl⟩ | ⟨-, h⟩
    · exact hkey
    · exact store.keyed key row' h

/-- `put_private_channel_participant`: whether the record is stored, and the rows after it. -/
def putPrivateChannelParticipant (store : MemoryParticipants)
    (row : PrivateChannelParticipantRow) : Bool × MemoryParticipants :=
  if store.rows[row.key]?.any fun existing => row.updatedAt ≤ existing.updatedAt then
    (false, store)
  else (true, (store.leaveAll row).insert row)

def isActivePrivateChannelParticipant (store : MemoryParticipants)
    (channelId participantPubkey : String) : Bool :=
  store.rows.toList.any fun (_, row) =>
    row.channelId = channelId ∧ row.participantPubkey = participantPubkey ∧ row.leftAt = none

/-- The rows after some records. -/
def putAll (store : MemoryParticipants) (records : List PrivateChannelParticipantRow) :
    MemoryParticipants :=
  records.foldl (fun store row => (store.putPrivateChannelParticipant row).2) store

end MemoryParticipants

/-! ### The SQLite store -/

/-- The columns of a row beside the primary key. -/
structure ParticipantColumns where
  leftAt : Option ℤ
  updatedAt : ℤ
  stale : Bool
deriving DecidableEq

/-- The table `private_channel_participants`. -/
abbrev SqliteParticipants := BTreeMap ParticipantKey ParticipantColumns

namespace SqliteParticipants

/-- `INSERT … ON CONFLICT … DO UPDATE … WHERE excluded.updated_at > updated_at`. The mark of an
existing row stays. -/
def upsert (table : SqliteParticipants) (row : PrivateChannelParticipantRow) (stale : Bool) :
    Bool × SqliteParticipants :=
  match table[row.key]? with
  | none => (true, table.insert row.key ⟨row.leftAt, row.updatedAt, stale⟩)
  | some old =>
    if old.updatedAt < row.updatedAt then
      (true, table.insert row.key { old with leftAt := row.leftAt, updatedAt := row.updatedAt })
    else (false, table)

/-- `UPDATE … SET left_at, updated_at WHERE … left_at IS NULL AND updated_at < left_at`. -/
def leaveAll (table : SqliteParticipants) (row : PrivateChannelParticipantRow) (leftAt : ℤ) :
    SqliteParticipants :=
  table.map fun key old =>
    if (ofLex key).1 = row.channelId ∧ (ofLex (ofLex key).2).2 = row.participantPubkey ∧
        old.leftAt = none ∧ old.updatedAt < leftAt then
      { old with leftAt := some leftAt, updatedAt := leftAt }
    else old

/-- `put_private_channel_participant`. The mark `stale` is what the query reads from other
tables. -/
def putPrivateChannelParticipant (table : SqliteParticipants) (row : PrivateChannelParticipantRow)
    (stale : Bool) : Bool × SqliteParticipants :=
  let (changed, table) := table.upsert row stale
  match changed, row.leftAt with
  | true, some leftAt => (changed, table.leaveAll row leftAt)
  | _, _ => (changed, table)

def isActivePrivateChannelParticipant (table : SqliteParticipants)
    (channelId participantPubkey : String) : Bool :=
  table.toList.any fun (key, columns) =>
    (ofLex key).1 = channelId ∧ (ofLex (ofLex key).2).2 = participantPubkey ∧
      columns.leftAt = none

/-- The table after some records, each with the mark that is read when it arrives. -/
def putAll (table : SqliteParticipants) (arrivals : List (PrivateChannelParticipantRow × Bool)) :
    SqliteParticipants :=
  arrivals.foldl (fun table arrival =>
    (table.putPrivateChannelParticipant arrival.1 arrival.2).2) table

end SqliteParticipants

/-! ### The epochs of one participant -/

/-- What a store knows of a participant in an epoch. -/
structure EpochMembership where
  leftAt : Option ℤ
  updatedAt : ℤ
deriving DecidableEq

/-- What a store knows of one channel and participant. -/
abbrev Epochs := String → Option EpochMembership

/-- A leave ends an older join. -/
def EpochMembership.leave (leftAt : Option ℤ) (old : EpochMembership) : EpochMembership :=
  match leftAt with
  | none => old
  | some leftAt =>
    if old.leftAt = none ∧ old.updatedAt < leftAt then ⟨some leftAt, leftAt⟩ else old

namespace Epochs

/-- The record is newer than the row of its epoch. -/
def stores (epochs : Epochs) (row : PrivateChannelParticipantRow) : Bool :=
  !(epochs row.epochId).any fun old => row.updatedAt ≤ old.updatedAt

/-- The epochs after a record that is stored. -/
def put (epochs : Epochs) (row : PrivateChannelParticipantRow) : Epochs := fun epoch =>
  if epoch = row.epochId then some ⟨row.leftAt, row.updatedAt⟩
  else (epochs epoch).map (·.leave row.leftAt)

/-- The epochs after a record. -/
def receive (epochs : Epochs) (row : PrivateChannelParticipantRow) : Epochs :=
  if epochs.stores row then epochs.put row else epochs

/-- The participant is active in some epoch. -/
def Active (epochs : Epochs) : Prop :=
  ∃ epoch membership, epochs epoch = some membership ∧ membership.leftAt = none

end Epochs

/-- What the memory store knows of a channel and a participant. -/
def MemoryParticipants.epochs (store : MemoryParticipants) (channel participant : String) :
    Epochs := fun epoch =>
  store.rows[participantKey channel epoch participant]?.map fun row =>
    ⟨row.leftAt, row.updatedAt⟩

/-- What the table knows of a channel and a participant. -/
def SqliteParticipants.epochs (table : SqliteParticipants) (channel participant : String) :
    Epochs := fun epoch =>
  table[participantKey channel epoch participant]?.map fun columns =>
    ⟨columns.leftAt, columns.updatedAt⟩

section

variable {channel participant : String}

theorem MemoryParticipants.active_iff (store : MemoryParticipants) :
  store.isActivePrivateChannelParticipant channel participant = true ↔
    (store.epochs channel participant).Active
  := by
  simp only [isActivePrivateChannelParticipant, any_eq_true, decide_eq_true_eq, Epochs.Active,
    epochs, Option.map_eq_some_iff]
  constructor
  · rintro ⟨⟨key, row⟩, hmem, rfl, rfl, hleft⟩
    have hrow := mem_toList.mp hmem
    have hkey := store.keyed key row hrow
    subst hkey
    exact ⟨row.epochId, _, ⟨row, hrow, rfl⟩, hleft⟩
  · rintro ⟨epoch, _, ⟨row, hrow, rfl⟩, hleft⟩
    have hkey := store.keyed _ row hrow
    obtain ⟨hchannel, -, hparticipant⟩ := participantKey_inj.mp hkey
    exact ⟨(_, row), mem_toList.mpr hrow, hchannel, hparticipant, hleft⟩

theorem SqliteParticipants.active_iff (table : SqliteParticipants) :
  table.isActivePrivateChannelParticipant channel participant = true ↔
    (table.epochs channel participant).Active
  := by
  simp only [isActivePrivateChannelParticipant, any_eq_true, decide_eq_true_eq, Epochs.Active,
    epochs, Option.map_eq_some_iff]
  constructor
  · rintro ⟨⟨key, columns⟩, hmem, rfl, rfl, hleft⟩
    exact ⟨(ofLex (ofLex key).2).1, _, ⟨columns, mem_toList.mp hmem, rfl⟩, hleft⟩
  · rintro ⟨epoch, _, ⟨columns, hcolumns, rfl⟩, hleft⟩
    exact ⟨(_, columns), mem_toList.mpr hcolumns, rfl, rfl, hleft⟩

/-- A leave ends the older joins of the participant in the memory store. -/
theorem MemoryParticipants.epochs_leaveAll (store : MemoryParticipants)
    (row : PrivateChannelParticipantRow) (epoch : String) :
  (store.leaveAll row).epochs row.channelId row.participantPubkey epoch =
    (store.epochs row.channelId row.participantPubkey epoch).map (·.leave row.leftAt)
  := by
  unfold leaveAll epochs
  cases row.leftAt with
  | none =>
    rw [Option.map_map]
    rfl
  | some leftAt =>
    simp only [Std.ExtTreeMap.getElem?_map, Option.map_map]
    apply Option.map_congr
    intro existing hexisting
    have hkey := store.keyed _ existing (Option.mem_def.mp hexisting)
    obtain ⟨hchannel, -, hparticipant⟩ := participantKey_inj.mp hkey
    simp only [comp_apply, leave, hchannel, hparticipant, true_and, EpochMembership.leave]
    split <;> rfl

variable {row : PrivateChannelParticipantRow}

/-- The memory store keeps the epochs of the participant of a record. -/
theorem MemoryParticipants.epochs_put {store : MemoryParticipants}
    (hchannel : row.channelId = channel)
    (hparticipant : row.participantPubkey = participant) :
  (store.putPrivateChannelParticipant row).1 = (store.epochs channel participant).stores row ∧
    (store.putPrivateChannelParticipant row).2.epochs channel participant =
      (store.epochs channel participant).receive row
  := by
  subst hchannel hparticipant
  have hstores : (store.epochs row.channelId row.participantPubkey).stores row =
      !store.rows[row.key]?.any fun existing => row.updatedAt ≤ existing.updatedAt := by
    simp [Epochs.stores, epochs, PrivateChannelParticipantRow.key, Option.any_map]
  unfold putPrivateChannelParticipant Epochs.receive
  rw [hstores]
  split
  case isTrue hold =>
    rw [hold]
    exact ⟨rfl, rfl⟩
  case isFalse hnew =>
    rw [Bool.not_eq_true] at hnew
    rw [hnew]
    refine ⟨rfl, ?_⟩
    funext epoch
    change ((store.leaveAll row).rows.insert row.key row)[_]?.map _ = _
    by_cases hepoch : epoch = row.epochId
    · subst hepoch
      simp [Epochs.put, PrivateChannelParticipantRow.key]
    · have hkey : row.key ≠ participantKey row.channelId epoch row.participantPubkey :=
        fun h => hepoch (participantKey_inj.mp h).2.1.symm
      rw [getElem?_insert_of_ne hkey]
      exact (store.epochs_leaveAll row epoch).trans (if_neg hepoch).symm

/-- A leave ends the older joins of the participant in the table. -/
theorem SqliteParticipants.epochs_leaveAll (table : SqliteParticipants)
    (row : PrivateChannelParticipantRow) (leftAt : ℤ) (epoch : String) :
  (table.leaveAll row leftAt).epochs row.channelId row.participantPubkey epoch =
    (table.epochs row.channelId row.participantPubkey epoch).map (·.leave (some leftAt))
  := by
  unfold leaveAll epochs
  simp only [Std.ExtTreeMap.getElem?_map, Option.map_map]
  apply Option.map_congr
  intro columns _
  simp only [participantKey, ofLex_toLex, true_and, comp_apply, EpochMembership.leave]
  split <;> rfl

/-- The row of a record is written, whether or not there is one. -/
theorem SqliteParticipants.epochs_upsert (table : SqliteParticipants)
    (row : PrivateChannelParticipantRow) (stale : Bool) :
  (table.upsert row stale).1 = (table.epochs row.channelId row.participantPubkey).stores row ∧
    (table.upsert row stale).2.epochs row.channelId row.participantPubkey =
      if (table.upsert row stale).1 then
        Function.update (table.epochs row.channelId row.participantPubkey) row.epochId
          (some ⟨row.leftAt, row.updatedAt⟩)
      else table.epochs row.channelId row.participantPubkey
  := by
  have hinsert : ∀ columns : ParticipantColumns,
      columns.leftAt = row.leftAt → columns.updatedAt = row.updatedAt →
      SqliteParticipants.epochs (table.insert row.key columns) row.channelId
        row.participantPubkey = update
          (table.epochs row.channelId row.participantPubkey) row.epochId
          (some ⟨row.leftAt, row.updatedAt⟩) := by
    intro columns hleft hupdated
    funext epoch
    by_cases hepoch : epoch = row.epochId
    · subst hepoch
      simp [epochs, PrivateChannelParticipantRow.key, hleft, hupdated]
    · rw [update_of_ne hepoch, epochs, getElem?_insert_of_ne]
      · rfl
      · exact fun h => hepoch (participantKey_inj.mp h).2.1.symm
  have hstores : (table.epochs row.channelId row.participantPubkey).stores row =
      !table[row.key]?.any fun old => row.updatedAt ≤ old.updatedAt := by
    simp [Epochs.stores, epochs, PrivateChannelParticipantRow.key, Option.any_map]
  rw [hstores]
  unfold upsert
  cases hold : table[row.key]? with
  | none => exact ⟨rfl, hinsert _ rfl rfl⟩
  | some old =>
    by_cases hnewer : old.updatedAt < row.updatedAt
    · simp only [if_pos hnewer]
      exact ⟨by simp [hnewer], hinsert _ rfl rfl⟩
    · simp only [if_neg hnewer]
      exact ⟨by simpa using hnewer, rfl⟩

theorem SqliteParticipants.epochs_put {table : SqliteParticipants}
    {stale : Bool} (hchannel : row.channelId = channel)
    (hparticipant : row.participantPubkey = participant) :
  (table.putPrivateChannelParticipant row stale).1 =
      (table.epochs channel participant).stores row ∧
    (table.putPrivateChannelParticipant row stale).2.epochs channel participant =
      (table.epochs channel participant).receive row
  := by
  subst hchannel hparticipant
  obtain ⟨hchanged, hepochs⟩ := table.epochs_upsert row stale
  unfold putPrivateChannelParticipant Epochs.receive
  rw [← hchanged]
  cases hupsert : table.upsert row stale with
  | mk changed table' =>
  rw [hupsert] at hchanged hepochs
  cases changed with
  | false => exact ⟨rfl, hepochs⟩
  | true =>
    cases hleft : row.leftAt with
    | none =>
      refine ⟨rfl, hepochs.trans ?_⟩
      funext epoch
      by_cases hepoch : epoch = row.epochId
      · subst hepoch
        simp [Epochs.put]
      · simp [Epochs.put, hepoch, hleft, EpochMembership.leave]
    | some leftAt =>
      refine ⟨rfl, ?_⟩
      funext epoch
      change (table'.leaveAll row leftAt).epochs _ _ epoch = _
      rw [epochs_leaveAll, hepochs]
      by_cases hepoch : epoch = row.epochId
      · subst hepoch
        simp [Epochs.put, hleft, EpochMembership.leave]
      · simp [Epochs.put, hepoch, hleft]

end

/-! ### The newest record -/

/-- The record is the newest of those received. -/
def Newest (received : List PrivateChannelParticipantRow) (newest : PrivateChannelParticipantRow) :
    Prop :=
  newest ∈ received ∧ ∀ row ∈ received, row.updatedAt ≤ newest.updatedAt

/-- A leave is recorded with the time of leaving. -/
def PrivateChannelParticipantRow.Timed (row : PrivateChannelParticipantRow) : Prop :=
  ∀ leftAt, row.leftAt = some leftAt → leftAt = row.updatedAt

/-- The record is a join that is the newest record of its epoch, while the newest of all that have
been received is a newer leave. -/
def Overtaken (received : List PrivateChannelParticipantRow) (row : PrivateChannelParticipantRow) :
    Prop :=
  row.leftAt = none ∧
    (∃ newest, Newest received newest ∧ newest.leftAt ≠ none ∧
      row.updatedAt < newest.updatedAt) ∧
    ∀ earlier ∈ received, earlier.epochId = row.epochId → earlier.updatedAt < row.updatedAt

theorem Newest.of_append {received : List PrivateChannelParticipantRow}
    {row newest : PrivateChannelParticipantRow} (h : Newest (received ++ [row]) newest) :
  newest = row ∧ (∀ earlier ∈ received, earlier.updatedAt ≤ row.updatedAt) ∨
    Newest received newest ∧ row.updatedAt ≤ newest.updatedAt
  := by
  have hrow := h.2 row (by simp)
  have hearlier : ∀ earlier ∈ received, earlier.updatedAt ≤ newest.updatedAt :=
    fun earlier hmem => h.2 earlier (mem_append_left _ hmem)
  rcases mem_append.mp h.1 with hmem | hlast
  · exact .inr ⟨⟨hmem, hearlier⟩, hrow⟩
  · cases mem_singleton.mp hlast
    exact .inl ⟨rfl, hearlier⟩

theorem exists_newest {received : List PrivateChannelParticipantRow} (h : received ≠ []) :
  ∃ newest, Newest received newest
  := by
  obtain ⟨newest, hmem, hmax⟩ :=
    received.toFinset.exists_max_image (·.updatedAt) (by simpa using h)
  exact ⟨newest, by simpa using hmem, fun row hrow => hmax row (by simpa using hrow)⟩

namespace EpochMembership

theorem updatedAt_le_leave (leftAt : Option ℤ) (old : EpochMembership) :
  old.updatedAt ≤ (old.leave leftAt).updatedAt
  := by
  cases leftAt with
  | none => exact le_rfl
  | some leftAt =>
    simp only [leave]
    split
    case isTrue h => exact h.2.le
    case isFalse => exact le_rfl

/-- A leave changes a row to the time of leaving, or not at all. -/
theorem leave_eq (leftAt : Option ℤ) (old : EpochMembership) :
  old.leave leftAt = old ∨ ∃ time, leftAt = some time ∧ old.leave leftAt = ⟨some time, time⟩
  := by
  cases leftAt with
  | none => exact .inl rfl
  | some time =>
    simp only [leave]
    split
    case isTrue => exact .inr ⟨time, rfl, rfl⟩
    case isFalse => exact .inl rfl

theorem leftAt_leave_ne {leftAt : Option ℤ} {old : EpochMembership} (h : old.leftAt ≠ none) :
  (old.leave leftAt).leftAt ≠ none
  := by
  rcases old.leave_eq leftAt with hsame | ⟨time, -, hleave⟩
  · rw [hsame]
    exact h
  · rw [hleave]
    nofun

end EpochMembership

/-- The epochs of a participant agree with the records received: no record is newer than the row of
its epoch, every row has the time of a record, and the newest record decides. -/
structure Epochs.Holds (received : List PrivateChannelParticipantRow) (epochs : Epochs) :
    Prop where
  known : ∀ row ∈ received,
    ∃ membership, epochs row.epochId = some membership ∧ row.updatedAt ≤ membership.updatedAt
  dated : ∀ epoch membership, epochs epoch = some membership →
    ∃ row ∈ received, membership.updatedAt = row.updatedAt
  joined : ∀ newest, Newest received newest → newest.leftAt = none →
    epochs newest.epochId = some ⟨none, newest.updatedAt⟩
  left : ∀ newest, Newest received newest → newest.leftAt ≠ none →
    ∀ epoch membership, epochs epoch = some membership → membership.leftAt ≠ none

namespace Epochs

theorem stores_iff {epochs : Epochs} :
  epochs.stores row = true ↔
    ∀ old, epochs row.epochId = some old → old.updatedAt < row.updatedAt
  := by
  unfold stores
  cases epochs row.epochId <;> simp

/-- A row after a record is the row of the record, or a row that the record may have ended. -/
theorem put_eq_some {epochs : Epochs} {epoch : String}
    {membership : EpochMembership} (h : epochs.put row epoch = some membership) :
  epoch = row.epochId ∧ membership = ⟨row.leftAt, row.updatedAt⟩ ∨
    epoch ≠ row.epochId ∧ ∃ old, epochs epoch = some old ∧ membership = old.leave row.leftAt
  := by
  unfold put at h
  split at h
  case isTrue hepoch => exact .inl ⟨hepoch, (Option.some.inj h).symm⟩
  case isFalse hepoch =>
    obtain ⟨old, hold, hleave⟩ := Option.map_eq_some_iff.mp h
    exact .inr ⟨hepoch, old, hold, hleave.symm⟩

section

variable {received : List PrivateChannelParticipantRow} {row : PrivateChannelParticipantRow}
  {epochs : Epochs}

/-- A record that is not stored is older than the newest. -/
theorem Holds.skip (h : Holds received epochs)
    (hnew : ∀ earlier ∈ received, earlier.updatedAt ≠ row.updatedAt)
    {old : EpochMembership} (hold : epochs row.epochId = some old)
    (hle : row.updatedAt ≤ old.updatedAt) :
  Holds (received ++ [row]) epochs
  := by
  obtain ⟨source, hsource, hdate⟩ := h.dated _ old hold
  have holder : row.updatedAt < source.updatedAt := by
    have hne := hnew source hsource
    omega
  have hnewest : ∀ newest, Newest (received ++ [row]) newest → Newest received newest := by
    intro newest hnewest
    rcases hnewest.of_append with ⟨rfl, hmax⟩ | ⟨hearlier, -⟩
    · have := hmax source hsource
      omega
    · exact hearlier
  constructor
  · exact forall_mem_append.mpr ⟨h.known, forall_mem_singleton.mpr ⟨old, hold, hle⟩⟩
  · intro epoch membership hmembership
    obtain ⟨earlier, hmem, htime⟩ := h.dated epoch membership hmembership
    exact ⟨earlier, mem_append_left _ hmem, htime⟩
  · intro newest hlast
    exact h.joined newest (hnewest newest hlast)
  · intro newest hlast
    exact h.left newest (hnewest newest hlast)

/-- A record that is stored is the newest, or leaves the newest as it is. -/
theorem Holds.store (h : Holds received epochs)
    (hnew : ∀ earlier ∈ received, earlier.updatedAt ≠ row.updatedAt) (htimed : row.Timed)
    (horder : ¬ Overtaken received row)
    (hstores : ∀ old, epochs row.epochId = some old → old.updatedAt < row.updatedAt) :
  Holds (received ++ [row]) (epochs.put row)
  := by
  constructor
  case known =>
    intro earlier hmem
    rcases mem_append.mp hmem with hmem | hlast
    · obtain ⟨old, hold, hle⟩ := h.known earlier hmem
      by_cases hepoch : earlier.epochId = row.epochId
      · have hlt := hstores old (hepoch ▸ hold)
        exact ⟨_, if_pos hepoch, hle.trans hlt.le⟩
      · refine ⟨old.leave row.leftAt, ?_, hle.trans (old.updatedAt_le_leave _)⟩
        rw [put, if_neg hepoch, hold, Option.map_some]
    · cases mem_singleton.mp hlast
      exact ⟨_, if_pos rfl, le_rfl⟩
  case dated =>
    intro epoch membership hmembership
    rcases put_eq_some hmembership with ⟨-, rfl⟩ | ⟨-, old, hold, rfl⟩
    · exact ⟨row, by simp, rfl⟩
    · rcases old.leave_eq row.leftAt with hsame | ⟨time, hleft, hleave⟩
      · rw [hsame]
        obtain ⟨earlier, hmem, htime⟩ := h.dated epoch old hold
        exact ⟨earlier, mem_append_left _ hmem, htime⟩
      · rw [hleave]
        exact ⟨row, by simp, htimed time hleft⟩
  case joined =>
    intro newest hnewest hjoin
    rcases hnewest.of_append with ⟨rfl, -⟩ | ⟨hearlier, hle⟩
    · rw [put, if_pos rfl, hjoin]
    · have hlt : row.updatedAt < newest.updatedAt := by
        have hne := hnew newest hearlier.1
        omega
      have hrow := h.joined newest hearlier hjoin
      have hepoch : newest.epochId ≠ row.epochId := by
        intro hepoch
        have := hstores _ (hepoch ▸ hrow)
        exact absurd hlt this.not_gt
      rw [put, if_neg hepoch, hrow, Option.map_some]
      rcases EpochMembership.leave_eq row.leftAt ⟨none, newest.updatedAt⟩ with
        hsame | ⟨time, hleft, -⟩
      · rw [hsame]
      · -- The leave is older than the newest join.
        cases htimed time hleft
        rw [hleft, EpochMembership.leave, if_neg fun hended => absurd hended.2 hlt.not_gt]
  case left =>
    intro newest hnewest hleave epoch membership hmembership
    rcases hnewest.of_append with ⟨rfl, hmax⟩ | ⟨hearlier, hle⟩
    · rcases put_eq_some hmembership with ⟨-, rfl⟩ | ⟨-, old, hold, rfl⟩
      · exact hleave
      · -- Every row is older than the leave.
        obtain ⟨source, hsource, hdate⟩ := h.dated epoch old hold
        obtain ⟨time, htime⟩ := Option.ne_none_iff_exists'.mp hleave
        have holder : old.updatedAt < time := by
          have hne := hnew source hsource
          have hle := hmax source hsource
          rw [htimed time htime]
          omega
        intro hactive
        rw [htime, EpochMembership.leave] at hactive
        split at hactive
        case isTrue => cases hactive
        case isFalse hended => exact hended ⟨hactive, holder⟩
    · have hlt : row.updatedAt < newest.updatedAt := by
        have hne := hnew newest hearlier.1
        omega
      rcases put_eq_some hmembership with ⟨-, rfl⟩ | ⟨-, old, hold, rfl⟩
      · intro hjoin
        refine horder ⟨hjoin, ⟨newest, hearlier, hleave, hlt⟩, ?_⟩
        intro earlier hmem hepoch
        obtain ⟨old, hold, hle⟩ := h.known earlier hmem
        exact hle.trans_lt (hstores old (hepoch ▸ hold))
      · exact EpochMembership.leftAt_leave_ne (h.left newest hearlier hleave epoch old hold)

theorem Holds.receive (h : Holds received epochs)
    (hnew : ∀ earlier ∈ received, earlier.updatedAt ≠ row.updatedAt) (htimed : row.Timed)
    (horder : ¬ Overtaken received row) :
  Holds (received ++ [row]) (epochs.receive row)
  := by
  unfold Epochs.receive
  split
  case isTrue hstores => exact h.store hnew htimed horder (stores_iff.mp hstores)
  case isFalse hstores =>
    rw [stores_iff] at hstores
    push Not at hstores
    obtain ⟨old, hold, hle⟩ := hstores
    exact h.skip hnew hold hle

theorem holds_empty :
  Holds [] fun _ => none
  := ⟨by simp, by simp, fun _ h => absurd h.1 (by simp), fun _ h => absurd h.1 (by simp)⟩

/-- The newest record decides whether the participant is active. -/
theorem Holds.active_iff (h : Holds received epochs) :
  epochs.Active ↔ ∃ newest, Newest received newest ∧ newest.leftAt = none
  := by
  constructor
  · rintro ⟨epoch, membership, hmembership, hactive⟩
    obtain ⟨source, hsource, -⟩ := h.dated epoch membership hmembership
    obtain ⟨newest, hnewest⟩ := exists_newest (ne_nil_of_mem hsource)
    refine ⟨newest, hnewest, ?_⟩
    by_contra hleave
    exact h.left newest hnewest hleave epoch membership hmembership hactive
  · rintro ⟨newest, hnewest, hjoin⟩
    exact ⟨newest.epochId, _, h.joined newest hnewest hjoin, rfl⟩

end

end Epochs

/-! ### Records in any order -/

/-- No join is overtaken when it arrives. -/
def NeverOvertaken (records : List PrivateChannelParticipantRow) : Prop :=
  ∀ earlier row later, records = earlier ++ row :: later → ¬ Overtaken earlier row

theorem holds_of_records {records : List PrivateChannelParticipantRow}
    (htimed : ∀ row ∈ records, row.Timed) (hdistinct : (records.map (·.updatedAt)).Nodup)
    (horder : NeverOvertaken records) :
  Epochs.Holds records (records.foldl Epochs.receive fun _ => none)
  := by
  induction records using reverseRecOn with
  | nil => exact Epochs.holds_empty
  | append_singleton records row ih =>
    rw [map_append, nodup_append] at hdistinct
    have hearlier := ih (fun earlier hmem => htimed earlier (mem_append_left _ hmem))
      hdistinct.1 fun earlier row' later hsplit =>
        horder earlier row' (later ++ [row]) (by rw [hsplit]; simp)
    rw [foldl_append]
    apply hearlier.receive
    · intro earlier hmem
      exact hdistinct.2.2 _ (mem_map_of_mem hmem) _ (by simp)
    · exact htimed row (by simp)
    · exact horder records row [] rfl

section

variable {channel participant : String}

theorem MemoryParticipants.epochs_putAll (store : MemoryParticipants)
    {records : List PrivateChannelParticipantRow}
    (hof : ∀ row ∈ records, row.channelId = channel ∧ row.participantPubkey = participant) :
  (store.putAll records).epochs channel participant =
    records.foldl Epochs.receive (store.epochs channel participant)
  := by
  induction records generalizing store with
  | nil => rfl
  | cons row records ih =>
    obtain ⟨hchannel, hparticipant⟩ := hof row (by simp)
    have hrest := ih (store.putPrivateChannelParticipant row).2
      fun row' hmem => hof row' (mem_cons_of_mem _ hmem)
    rw [(epochs_put hchannel hparticipant).2] at hrest
    exact hrest

theorem SqliteParticipants.epochs_putAll (table : SqliteParticipants)
    {arrivals : List (PrivateChannelParticipantRow × Bool)}
    (hof : ∀ row ∈ arrivals.map Prod.fst,
      row.channelId = channel ∧ row.participantPubkey = participant) :
  (table.putAll arrivals).epochs channel participant =
    (arrivals.map Prod.fst).foldl Epochs.receive (table.epochs channel participant)
  := by
  induction arrivals generalizing table with
  | nil => rfl
  | cons arrival arrivals ih =>
    obtain ⟨hchannel, hparticipant⟩ := hof arrival.1 (by simp)
    have hrest := ih (table.putPrivateChannelParticipant arrival.1 arrival.2).2
      fun row hmem => hof row (mem_cons_of_mem _ hmem)
    rw [(epochs_put hchannel hparticipant).2] at hrest
    exact hrest

/-- Both stores agree on the participant, in whatever order the records arrive. -/
theorem participant_stores_agree {arrivals : List (PrivateChannelParticipantRow × Bool)}
    (hof : ∀ row ∈ arrivals.map Prod.fst,
      row.channelId = channel ∧ row.participantPubkey = participant) :
  (SqliteParticipants.putAll ∅ arrivals).isActivePrivateChannelParticipant channel participant =
    (MemoryParticipants.empty.putAll (arrivals.map Prod.fst)).isActivePrivateChannelParticipant
      channel participant
  := by
  apply Bool.eq_iff_iff.mpr
  rw [SqliteParticipants.active_iff, MemoryParticipants.active_iff,
    SqliteParticipants.epochs_putAll ∅ hof, MemoryParticipants.epochs_putAll _ hof]
  have hempty : SqliteParticipants.epochs ∅ channel participant =
      MemoryParticipants.empty.epochs channel participant := by
    funext epoch
    simp [SqliteParticipants.epochs, MemoryParticipants.epochs, MemoryParticipants.empty]
  rw [hempty]

end

/-- In whatever order the records of a participant arrive, if no join is overtaken, the participant
is active in both stores when the newest record is a join. -/
theorem active_iff_newest_joins {channel participant : String}
    {arrivals : List (PrivateChannelParticipantRow × Bool)}
    (hof : ∀ row ∈ arrivals.map Prod.fst,
      row.channelId = channel ∧ row.participantPubkey = participant)
    (htimed : ∀ row ∈ arrivals.map Prod.fst, row.Timed)
    (hdistinct : ((arrivals.map Prod.fst).map (·.updatedAt)).Nodup)
    (horder : NeverOvertaken (arrivals.map Prod.fst)) :
  ((MemoryParticipants.empty.putAll (arrivals.map Prod.fst)).isActivePrivateChannelParticipant
      channel participant = true ↔
    ∃ newest, Newest (arrivals.map Prod.fst) newest ∧ newest.leftAt = none) ∧
  (SqliteParticipants.putAll ∅ arrivals).isActivePrivateChannelParticipant channel participant =
    (MemoryParticipants.empty.putAll (arrivals.map Prod.fst)).isActivePrivateChannelParticipant
      channel participant
  := by
  refine ⟨?_, participant_stores_agree hof⟩
  have hempty : MemoryParticipants.empty.epochs channel participant = fun _ => none := by
    funext epoch
    simp [MemoryParticipants.epochs, MemoryParticipants.empty]
  rw [MemoryParticipants.active_iff, MemoryParticipants.epochs_putAll _ hof, hempty]
  exact (holds_of_records htimed hdistinct horder).active_iff

namespace ParticipantSample

/-- A join, then a leave in another epoch, then a join. -/
def inOrder : List (PrivateChannelParticipantRow × Bool) :=
  [(⟨"channel", "e1", "a", none, 10⟩, false), (⟨"channel", "e2", "a", some 20, 20⟩, false),
    (⟨"channel", "e1", "a", none, 30⟩, true)]

/-- A leave, then an older join of another epoch. -/
def overtaken : List (PrivateChannelParticipantRow × Bool) :=
  [(⟨"channel", "e1", "a", some 20, 20⟩, false), (⟨"channel", "e2", "a", none, 10⟩, false)]

theorem neverOvertaken_inOrder :
  NeverOvertaken (inOrder.map Prod.fst)
  := by
  intro earlier row later hsplit hovertaken
  obtain ⟨-, ⟨newest, hnewest, -, hlt⟩, -⟩ := hovertaken
  have hsorted : (inOrder.map Prod.fst).Pairwise fun a b => a.updatedAt < b.updatedAt := by decide
  rw [hsplit, pairwise_append] at hsorted
  exact absurd hlt (hsorted.2.2 newest hnewest.1 row (by simp)).not_gt

end ParticipantSample

open ParticipantSample in
theorem active_iff_newest_joins_sample :
  (∃ newest, Newest (inOrder.map Prod.fst) newest ∧ newest.leftAt = none) ∧
    (MemoryParticipants.empty.putAll (inOrder.map Prod.fst)).isActivePrivateChannelParticipant
      "channel" "a" = true
  := by
  have hnewest : ∃ newest, Newest (inOrder.map Prod.fst) newest ∧ newest.leftAt = none :=
    ⟨⟨"channel", "e1", "a", none, 30⟩, ⟨by decide, by decide⟩, rfl⟩
  refine ⟨hnewest, (active_iff_newest_joins (by decide) ?_ (by decide)
    neverOvertaken_inOrder).1.mpr hnewest⟩
  simp [inOrder, PrivateChannelParticipantRow.Timed]

open ParticipantSample in
/-- A join that arrives after the leave of another epoch keeps the participant active, although the
leave is newer. -/
theorem exists_overtaken_join :
  (∀ row ∈ overtaken.map Prod.fst, row.channelId = "channel" ∧ row.participantPubkey = "a") ∧
    (∀ row ∈ overtaken.map Prod.fst, row.Timed) ∧
    ((overtaken.map Prod.fst).map (·.updatedAt)).Nodup ∧
    (∃ newest, Newest (overtaken.map Prod.fst) newest ∧ newest.leftAt = some 20) ∧
    (MemoryParticipants.empty.putAll (overtaken.map Prod.fst)).isActivePrivateChannelParticipant
      "channel" "a" = true ∧
    (SqliteParticipants.putAll ∅ overtaken).isActivePrivateChannelParticipant "channel" "a" = true
  := by
  refine ⟨by decide, ?_, by decide, ⟨_, ⟨mem_cons_self .., by decide⟩, rfl⟩, ?_, ?_⟩
  · simp [overtaken, PrivateChannelParticipantRow.Timed]
  · decide +kernel
  · decide +kernel

end Kukuri
