import Kukuri.Data.BTree
import Kukuri.Data.Merge
import Kukuri.Data.Utf8

/-!
# Docs namespaces

The local store has one entry for each key and docs author of a namespace, and gives the entries
that a query selects in the order of their keys and authors, which are compared as bytes. Texts of
keys and authors are in the same order (`entry_precedes`).
-/

namespace Kukuri

/-- The public key of a docs author. -/
abbrev AuthorId := { bytes : Bytes // bytes.length = 32 }

/-- The text of an author: lower-case digits. -/
def AuthorId.text (author : AuthorId) : String := String.ofList (Hex.encodeBytes author.1)

/-- The content of an entry. -/
structure DocEntry where
  contentHash : String
  contentLen : ℕ
deriving DecidableEq

instance transCmpDocKey :
    Std.TransCmp (inferInstance : LinearOrder (Bytes ×ₗ AuthorId)).toOrd.compare :=
  transCmpOfLinearOrder

/-- A docs namespace: the content for each key and author. Entries that have been deleted are not
in it. -/
abbrev DocsNamespace := BTreeMap (Bytes ×ₗ AuthorId) DocEntry

/-- An entry with its key and author. -/
abbrev SignedEntry := (Bytes ×ₗ AuthorId) × DocEntry

namespace DocsNamespace

/-- `get_many`: the entries that a query selects, in its order. -/
def getMany (docs : DocsNamespace) (matching : Bytes → Bool) (author : Option AuthorId)
    (descending : Bool) : List SignedEntry :=
  let entries := docs.toList.filter fun entry =>
    matching (ofLex entry.1).1 && author.all ((ofLex entry.1).2 = ·)
  if descending then entries.reverse else entries

variable {docs : DocsNamespace} {matching : Bytes → Bool} {author : Option AuthorId}
  {descending : Bool} {entry : SignedEntry}

theorem mem_getMany :
  entry ∈ getMany docs matching author descending ↔
    docs[entry.1]? = some entry.2 ∧ matching (ofLex entry.1).1 = true ∧
      ∀ a, author = some a → (ofLex entry.1).2 = a
  := by
  have hmem : entry ∈ getMany docs matching author descending ↔
      entry ∈ docs.toList.filter fun entry =>
        matching (ofLex entry.1).1 && author.all ((ofLex entry.1).2 = ·) := by
    unfold getMany
    split
    · exact List.mem_reverse
    · rfl
  rw [hmem, List.mem_filter, BTreeMap.mem_toList, Bool.and_eq_true, Option.all_eq_true]
  simp only [decide_eq_true_eq]

theorem pairwise_getMany (docs : DocsNamespace) (matching : Bytes → Bool)
    (author : Option AuthorId) (descending : Bool) :
  (getMany docs matching author descending).Pairwise
    fun entry entry' => Merge.Precedes descending entry.1 entry'.1
  := by
  have hpairwise : (docs.toList.filter fun entry =>
      matching (ofLex entry.1).1 && author.all ((ofLex entry.1).2 = ·)).Pairwise
        fun entry entry' => entry.1 < entry'.1 :=
    (BTreeMap.pairwise_lt_toList docs).sublist List.filter_sublist
  cases descending with
  | true => exact List.pairwise_reverse.mpr hpairwise
  | false => exact hpairwise

/-- A query for keys with a given start selects the entry. -/
structure Selects (docs : DocsNamespace) (start : String) (author : Option AuthorId)
    (entry : SignedEntry) : Prop where
  present : docs[entry.1]? = some entry.2
  starts : utf8 start <+: (ofLex entry.1).1
  author : ∀ a, author = some a → (ofLex entry.1).2 = a

end DocsNamespace

theorem AuthorId.text_lt_text {a b : AuthorId} :
  a.text < b.text ↔ a < b
  := by
  rw [String.lt_iff_toList_lt]
  simp only [AuthorId.text, String.toList_ofList, encodeBytes_lt_encodeBytes]
  rfl

theorem AuthorId.text_injective :
  Function.Injective AuthorId.text
  := by
  intro a b h
  apply le_antisymm
  · exact not_lt.mp fun hlt => (AuthorId.text_lt_text.mpr hlt).ne h.symm
  · exact not_lt.mp fun hlt => (AuthorId.text_lt_text.mpr hlt).ne h

end Kukuri
