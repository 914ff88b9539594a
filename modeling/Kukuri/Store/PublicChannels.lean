import Kukuri.Data.BTree

/-!
# Rows of public channels

The merge of a row with the one that is stored is written twice: as a method that starts from the
new row, which the stores in memory and in the browser use, and as the conflict clause of an SQL
statement, which starts from the old row. They agree on rows that have the same topic, creator,
creation time and first post, and on no others (`sqlite_put_merges_iff`).
-/

namespace Kukuri.PublicChannels

structure PublicChannelRow where
  channelId : String
  topicId : String
  title : String
  creatorPubkey : String
  createdAt : ℤ
  firstPostId : Option String
  lastPostAt : ℤ
  revision : ℕ
  deleted : Bool
deriving DecidableEq

def PublicChannelRow.mergedOnto (row previous : PublicChannelRow) : PublicChannelRow :=
  let row := { row with lastPostAt := max row.lastPostAt previous.lastPostAt }
  if row.revision ≤ previous.revision then
    { row with
      title := previous.title
      revision := previous.revision
      deleted := previous.deleted }
  else row

/-- The conflict clause: the columns that it does not set keep what is stored. -/
def PublicChannelRow.onConflict (stored excluded : PublicChannelRow) : PublicChannelRow :=
  { stored with
    lastPostAt := max stored.lastPostAt excluded.lastPostAt
    title := if excluded.revision > stored.revision then excluded.title else stored.title
    deleted := if excluded.revision > stored.revision then excluded.deleted else stored.deleted
    revision := max stored.revision excluded.revision }

/-- `put_public_channel` of the SQLite store, when the remote cache has room. -/
def putSqlite (rows : BTreeMap String PublicChannelRow) (row : PublicChannelRow) :
    BTreeMap String PublicChannelRow :=
  rows.insert row.channelId (rows[row.channelId]?.elim row (·.onConflict row))

/-- `put_public_channel` of the store in memory. -/
def putMemory (rows : BTreeMap String PublicChannelRow) (row : PublicChannelRow) :
    BTreeMap String PublicChannelRow :=
  rows.insert row.channelId (rows[row.channelId]?.elim row row.mergedOnto)

/-- The columns that a channel never changes are the same. -/
@[mk_iff]
structure SameChannel (row previous : PublicChannelRow) : Prop where
  channelId : previous.channelId = row.channelId
  topicId : previous.topicId = row.topicId
  creatorPubkey : previous.creatorPubkey = row.creatorPubkey
  createdAt : previous.createdAt = row.createdAt
  firstPostId : previous.firstPostId = row.firstPostId

variable {row previous : PublicChannelRow} {rows : BTreeMap String PublicChannelRow}

theorem onConflict_eq_mergedOnto_iff :
  previous.onConflict row = row.mergedOnto previous ↔ SameChannel row previous
  := by
  unfold PublicChannelRow.onConflict PublicChannelRow.mergedOnto
  rw [sameChannel_iff]
  by_cases hrevision : row.revision ≤ previous.revision
  case pos => simp [hrevision, hrevision.not_gt, max_comm]
  case neg => simp [hrevision, not_le.mp hrevision, (not_le.mp hrevision).le, max_comm]

/-- A put leaves the merged row in SQLite if the rows are of the same channel. The store in memory
has it always. -/
theorem sqlite_put_merges_iff (hprevious : rows[row.channelId]? = some previous) :
  ((putSqlite rows row)[row.channelId]? = some (row.mergedOnto previous) ↔
      SameChannel row previous) ∧
    (putMemory rows row)[row.channelId]? = some (row.mergedOnto previous)
  := by
  simp [putSqlite, putMemory, hprevious, onConflict_eq_mergedOnto_iff]

/-! ### Samples -/

namespace Sample

def created : PublicChannelRow := ⟨"c", "t", "title", "creator", 1, none, 1, 0, false⟩

def stored : BTreeMap String PublicChannelRow :=
  (∅ : BTreeMap String PublicChannelRow).insert "c" created

end Sample

/-- A new title is taken. -/
theorem sqlite_put_merges_revised :
  Sample.stored["c"]? = some Sample.created ∧
    (putSqlite Sample.stored { Sample.created with title := "new", revision := 1 })["c"]? =
      some ({ Sample.created with title := "new", revision := 1 }.mergedOnto Sample.created)
  := ⟨rfl, (sqlite_put_merges_iff rfl).1.mpr ⟨rfl, rfl, rfl, rfl, rfl⟩⟩

/-- A first post that is known later is not. -/
theorem exists_unmerged_put :
  Sample.stored["c"]? = some Sample.created ∧
    (putSqlite Sample.stored { Sample.created with firstPostId := some "p" })["c"]? ≠
      some ({ Sample.created with firstPostId := some "p" }.mergedOnto Sample.created)
  := ⟨rfl, by decide⟩

end Kukuri.PublicChannels
