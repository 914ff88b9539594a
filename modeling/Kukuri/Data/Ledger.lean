import Kukuri.Data.BTree

/-!
# Ledgers of charged rows

A `Ledger` is a table of rows with charges, a set of references to its keys and one running total.
Rows with a reference are protected and do not count. `Sound` says that the total is the sum of the
charges that count and that the protected rows are those with a reference.

`Grows` is a change that takes no reference away: unprotected rows are shed, rows are written or
protected. `Releases` takes one reference away. Both keep a sound ledger sound (`Grows.sound`,
`Releases.sound`), and a change that takes no reference away keeps every row with a reference
(`Grows.keeps`).
-/

universe u v w

/-- The charge and the mark of a row. -/
structure Charging (V : Type v) where
  charge : V → ℕ
  isProtected : V → Bool
  protect : Bool → V → V
  charge_protect : ∀ flag row, charge (protect flag row) = charge row
  isProtected_protect : ∀ flag row, isProtected (protect flag row) = flag

namespace Charging

attribute [simp] charge_protect isProtected_protect

variable {V : Type v} (columns : Charging V)

/-- What a row counts. -/
def counted (row : V) : ℕ := if columns.isProtected row then 0 else columns.charge row

/-- What a row counts that may be absent. -/
def countedIn (row : Option V) : ℕ := row.elim 0 columns.counted

@[simp]
theorem countedIn_none :
  columns.countedIn none = 0
  := rfl

@[simp]
theorem countedIn_some (row : V) :
  columns.countedIn (some row) = columns.counted row
  := rfl

theorem counted_of_free {row : V} (h : columns.isProtected row = false) :
  columns.counted row = columns.charge row
  := by
  simp [counted, h]

theorem counted_of_protected {row : V} (h : columns.isProtected row = true) :
  columns.counted row = 0
  := by
  simp [counted, h]

end Charging

variable {K : Type u} {V : Type v} {R : Type w} [LinearOrder K] [LinearOrder R]

/-- Rows, references to them and a running total. -/
structure Ledger (K : Type u) (V : Type v) (R : Type w) [LinearOrder K] [LinearOrder R] where
  rows : BTreeMap K V
  refs : BTreeSet (K ×ₗ R)
  used : ℤ

namespace Ledger

def empty : Ledger K V R := ⟨∅, ∅, 0⟩

/-- The key has a reference. -/
def held (l : Ledger K V R) (key : K) : Bool := l.refs.toList.any fun item => (ofLex item).1 = key

theorem held_iff {l : Ledger K V R} {key : K} :
  l.held key = true ↔ ∃ ref, toLex (key, ref) ∈ l.refs
  := by
  simp only [held, List.any_eq_true, decide_eq_true_eq, Std.ExtTreeSet.mem_toList]
  constructor
  · rintro ⟨item, hitem, rfl⟩
    exact ⟨(ofLex item).2, hitem⟩
  · rintro ⟨ref, href⟩
    exact ⟨_, href, rfl⟩

/-- The row of a key is marked as protected, if there is one. -/
def protectRow (columns : Charging V) (rows : BTreeMap K V) (key : K) (flag : Bool) :
    BTreeMap K V :=
  match rows[key]? with
  | some row => rows.insert key (columns.protect flag row)
  | none => rows

section

variable (columns : Charging V)

/-- What the rows count together. -/
def usage (rows : BTreeMap K V) : ℕ := BTreeMap.sumOver (fun _ row => columns.counted row) rows

/-- The total is the sum of what the rows count, and the protected rows are those with a
reference. -/
structure Sound (l : Ledger K V R) : Prop where
  balanced : l.used = usage columns l.rows
  flagged : ∀ key row, l.rows[key]? = some row → columns.isProtected row = l.held key

/-- A change that takes no reference away. -/
inductive Grow : Ledger K V R → Ledger K V R → Prop
  | shed {l : Ledger K V R} {key : K} {row : V} (hrow : l.rows[key]? = some row)
      (hfree : columns.isProtected row = false) :
      Grow l { l with rows := l.rows.erase key, used := l.used - columns.charge row }
  | write {l : Ledger K V R} {key : K} {row : V} (hflag : columns.isProtected row = l.held key) :
      Grow l { l with
        rows := l.rows.insert key row
        used := l.used - columns.countedIn l.rows[key]? + columns.counted row }
  | hold {l : Ledger K V R} {key : K} {ref : R} :
      Grow l
        { rows := protectRow columns l.rows key true
          refs := l.refs.insert (toLex (key, ref))
          used := l.used - columns.countedIn l.rows[key]? }
  | rewrite {l : Ledger K V R} {key : K} {row row' : V} (hrow : l.rows[key]? = some row)
      (hcharge : columns.charge row' = columns.charge row)
      (hflag : columns.isProtected row' = columns.isProtected row) :
      Grow l { l with rows := l.rows.insert key row' }

/-- Some changes that take no reference away. -/
abbrev Grows : Ledger K V R → Ledger K V R → Prop := Relation.ReflTransGen (Grow columns)

/-- The reference is taken away, and with the last one the row loses its mark or is dropped. -/
inductive Release (key : K) (ref : R) : Ledger K V R → Ledger K V R → Prop
  | keep {l : Ledger K V R} {refs : BTreeSet (K ×ₗ R)}
      (hrefs : refs = l.refs.erase (toLex (key, ref)))
      (hkeep : held { l with refs := refs } key = true ∨
        ∀ row, l.rows[key]? = some row → columns.isProtected row = false) :
      Release key ref l { l with refs := refs }
  | free {l : Ledger K V R} {refs : BTreeSet (K ×ₗ R)} {row : V}
      (hrefs : refs = l.refs.erase (toLex (key, ref)))
      (hlast : held { l with refs := refs } key = false) (hrow : l.rows[key]? = some row)
      (hflag : columns.isProtected row = true) :
      Release key ref l
        { rows := l.rows.insert key (columns.protect false row)
          refs := refs
          used := l.used + columns.charge row }
  | drop {l : Ledger K V R} {refs : BTreeSet (K ×ₗ R)} {row : V}
      (hrefs : refs = l.refs.erase (toLex (key, ref)))
      (hlast : held { l with refs := refs } key = false) (hrow : l.rows[key]? = some row)
      (hflag : columns.isProtected row = true) :
      Release key ref l { l with rows := l.rows.erase key, refs := refs }

end

section

variable {columns : Charging V} {l l' : Ledger K V R}
variable {rows : BTreeMap K V} {key key' : K} {row : V} {ref : R} {used : ℤ}

theorem sound_empty :
  Sound columns (empty : Ledger K V R)
  := by
  refine ⟨by simp [empty, usage], ?_⟩
  intro key row hrow
  simp [empty] at hrow

/-! ### The sum of the charges -/

/-- The total after a row is written. -/
theorem usage_insert (columns : Charging V) (rows : BTreeMap K V) (key : K) (row : V) :
  (usage columns (rows.insert key row) : ℤ) =
    usage columns rows - columns.countedIn rows[key]? + columns.counted row
  := by
  cases hold : rows[key]? with
  | none =>
    have hsum := BTreeMap.sumOver_insert (fun _ row => columns.counted row) row hold
    simp only [usage, hsum, Charging.countedIn_none]
    omega
  | some old =>
    have hsum := BTreeMap.sumOver_replace (fun _ row => columns.counted row) row hold
    simp only [usage, Charging.countedIn_some]
    omega

/-- The total after a row is erased. -/
theorem usage_erase (hrow : rows[key]? = some row) :
  usage columns rows = columns.counted row + usage columns (rows.erase key)
  := BTreeMap.sumOver_erase _ hrow

theorem usage_protectRow (rows : BTreeMap K V) (key : K) :
  (usage columns (protectRow columns rows key true) : ℤ) =
    usage columns rows - columns.countedIn rows[key]?
  := by
  unfold protectRow
  split
  case h_1 row hrow =>
    rw [usage_insert, hrow, columns.counted_of_protected (columns.isProtected_protect true row)]
    simp
  case h_2 hrow => simp [hrow]

theorem Sound.used_nonneg (h : Sound columns l) :
  0 ≤ l.used
  := by
  rw [h.balanced]
  exact Int.natCast_nonneg _

/-! ### Changes of a sound ledger -/

/-- The rows after the mark of one is set. -/
theorem getElem?_protectRow (rows : BTreeMap K V) (key key' : K) (flag : Bool) :
  (protectRow columns rows key flag)[key']? =
    if key = key' then rows[key']?.map (columns.protect flag) else rows[key']?
  := by
  unfold protectRow
  split
  case h_1 row hrow =>
    by_cases hkey : key = key'
    · subst hkey
      simp [hrow]
    · rw [if_neg hkey, BTreeMap.getElem?_insert_of_ne hkey]
  case h_2 hrow =>
    by_cases hkey : key = key'
    · subst hkey
      simp [hrow]
    · rw [if_neg hkey]

theorem held_insert_self :
  held ⟨rows, l.refs.insert (toLex (key, ref)), used⟩ key = true
  := by
  rw [held_iff]
  exact ⟨ref, by simp⟩

/-- Other keys keep their references. -/
theorem held_insert_of_ne (h : key ≠ key') :
  held ⟨rows, l.refs.insert (toLex (key, ref)), used⟩ key' = l.held key'
  := by
  apply Bool.eq_iff_iff.mpr
  simp only [held_iff, Std.ExtTreeSet.mem_insert, Std.LawfulEqCmp.compare_eq_iff_eq,
    toLex_inj, Prod.mk.injEq]
  constructor
  · rintro ⟨ref', ⟨heq, -⟩ | href⟩
    · exact absurd heq h
    · exact ⟨ref', href⟩
  · rintro ⟨ref', href⟩
    exact ⟨ref', .inr href⟩

/-- Other keys keep their references. -/
theorem held_erase_of_ne (h : key ≠ key') :
  held ⟨rows, l.refs.erase (toLex (key, ref)), used⟩ key' = l.held key'
  := by
  apply Bool.eq_iff_iff.mpr
  simp only [held_iff, Std.ExtTreeSet.mem_erase, ne_eq, Std.LawfulEqCmp.compare_eq_iff_eq,
    toLex_inj, Prod.mk.injEq]
  constructor
  · rintro ⟨ref', -, href⟩
    exact ⟨ref', href⟩
  · rintro ⟨ref', href⟩
    exact ⟨ref', fun heq => h heq.1, href⟩

theorem held_of_erase (h : held ⟨rows, l.refs.erase (toLex (key, ref)), used⟩ key' = true) :
  l.held key' = true
  := by
  obtain ⟨ref', href⟩ := held_iff.mp h
  exact held_iff.mpr ⟨ref', Std.ExtTreeSet.mem_of_mem_erase href⟩

/-- The marks are right after one row is replaced, if its mark is and no other key changes. -/
theorem flagged_insert {l l' : Ledger K V R} (hsound : Sound columns l)
    (hrows : l'.rows = l.rows.insert key row) (hflag : columns.isProtected row = l'.held key)
    (hothers : ∀ key', key ≠ key' → l'.held key' = l.held key') (key' : K) (row' : V)
    (hrow' : l'.rows[key']? = some row') :
  columns.isProtected row' = l'.held key'
  := by
  rw [hrows] at hrow'
  rcases BTreeMap.getElem?_of_insert hrow' with ⟨rfl, rfl⟩ | ⟨hkey, hrow'⟩
  · exact hflag
  · rw [hothers key' hkey]
    exact hsound.flagged key' row' hrow'

/-- A row is written, with the total that is due. -/
theorem Grow.write_of_used (hflag : columns.isProtected row = l.held key)
    (hused : used = l.used - columns.countedIn l.rows[key]? + columns.counted row) :
  Grow columns l { l with rows := l.rows.insert key row, used := used }
  := by
  rw [hused]
  exact .write hflag

theorem Grow.sound (hsound : Sound columns l) (h : Grow columns l l') :
  Sound columns l'
  := by
  have hbalanced := hsound.balanced
  cases h with
  | @shed key row hrow hfree =>
    constructor
    · have hsum : usage columns l.rows = _ := usage_erase hrow
      rw [columns.counted_of_free hfree] at hsum
      show l.used - (columns.charge row : ℤ) = ((usage columns (l.rows.erase key) : ℕ) : ℤ)
      omega
    · intro key' row' hrow'
      exact hsound.flagged key' row' (BTreeMap.getElem?_of_erase hrow')
  | @write key row hflag =>
    constructor
    · show _ = ((usage columns (l.rows.insert key row) : ℕ) : ℤ)
      rw [usage_insert, ← hbalanced]
    · exact flagged_insert hsound rfl hflag fun _ _ => rfl
  | @hold key ref =>
    constructor
    · show _ = ((usage columns (protectRow columns l.rows key true) : ℕ) : ℤ)
      rw [usage_protectRow, ← hbalanced]
    · intro key' row' hrow'
      change (protectRow columns l.rows key true)[key']? = some row' at hrow'
      rw [getElem?_protectRow] at hrow'
      split at hrow'
      case isTrue hkey =>
        subst hkey
        obtain ⟨row, -, rfl⟩ := Option.map_eq_some_iff.mp hrow'
        rw [columns.isProtected_protect, held_insert_self]
      case isFalse hkey =>
        rw [held_insert_of_ne hkey]
        exact hsound.flagged key' row' hrow'
  | @rewrite key row row' hrow hcharge hflag =>
    constructor
    · show l.used = ((usage columns (l.rows.insert key row') : ℕ) : ℤ)
      have hcounted : columns.counted row' = columns.counted row := by
        simp [Charging.counted, hcharge, hflag]
      rw [usage_insert, hrow, Charging.countedIn_some, hcounted, hbalanced]
      omega
    · exact flagged_insert hsound rfl (hflag.trans (hsound.flagged key row hrow)) fun _ _ => rfl

theorem Grows.sound (hsound : Sound columns l) (h : Grows columns l l') :
  Sound columns l'
  := by
  induction h with
  | refl => exact hsound
  | tail _ hgrow ih => exact hgrow.sound ih

theorem Grow.held (h : Grow columns l l') (hheld : l.held key = true) :
  l'.held key = true
  := by
  cases h with
  | shed | write | rewrite => exact hheld
  | @hold key' ref =>
    by_cases hkey : key' = key
    · subst hkey
      exact held_insert_self
    · rw [held_insert_of_ne hkey]
      exact hheld

theorem Grows.held (h : Grows columns l l') (hheld : l.held key = true) :
  l'.held key = true
  := by
  induction h with
  | refl => exact hheld
  | tail _ hgrow ih => exact hgrow.held ih

/-- A row with a reference stays. -/
theorem Grow.keeps (hsound : Sound columns l) (h : Grow columns l l')
    (hrow : l.rows[key]? = some row) (hheld : l.held key = true) :
  ∃ row', l'.rows[key]? = some row'
  := by
  have hinsert : ∀ (key' : K) (row' : V),
      ∃ row'', (l.rows.insert key' row')[key]? = some row'' := by
    intro key' row'
    by_cases hkey : key' = key
    · subst hkey
      exact ⟨row', Std.ExtTreeMap.getElem?_insert_self⟩
    · exact ⟨row, (BTreeMap.getElem?_insert_of_ne hkey).trans hrow⟩
  cases h with
  | @shed key' row' hrow' hfree =>
    have hne : key' ≠ key := by
      rintro rfl
      rw [hsound.flagged key' row' hrow', hheld] at hfree
      cases hfree
    exact ⟨row, (BTreeMap.getElem?_erase_of_ne hne).trans hrow⟩
  | write => exact hinsert _ _
  | rewrite => exact hinsert _ _
  | @hold key' ref =>
    change ∃ row', (protectRow columns l.rows key' true)[key]? = some row'
    rw [getElem?_protectRow, hrow]
    split
    · exact ⟨_, rfl⟩
    · exact ⟨row, rfl⟩

theorem Grows.keeps (hsound : Sound columns l) (h : Grows columns l l')
    (hrow : ∃ row, l.rows[key]? = some row) (hheld : l.held key = true) :
  ∃ row', l'.rows[key]? = some row'
  := by
  have hall : l'.held key = true ∧ ∃ row', l'.rows[key]? = some row' := by
    induction h with
    | refl => exact ⟨hheld, hrow⟩
    | @tail middle last hgrows hgrow ih =>
      obtain ⟨row', hrow'⟩ := ih.2
      exact ⟨hgrow.held ih.1, hgrow.keeps (Grows.sound hsound hgrows) hrow' ih.1⟩
  exact hall.2

theorem Release.sound (hsound : Sound columns l) (h : Release columns key ref l l') :
  Sound columns l'
  := by
  have hbalanced := hsound.balanced
  cases h with
  | keep hrefs hkeep =>
    subst hrefs
    refine ⟨hbalanced, ?_⟩
    intro key' row' hrow'
    have hflag := hsound.flagged key' row' hrow'
    by_cases hkey : key = key'
    · subst hkey
      rcases hkeep with hheld | hfree
      · rw [hflag, held_of_erase hheld]
        exact hheld.symm
      · have hnot : l.held key = false := hflag.symm.trans (hfree row' hrow')
        rw [hfree row' hrow']
        cases hheld : held { l with refs := l.refs.erase (toLex (key, ref)) } key with
        | false => rfl
        | true => exact absurd (held_of_erase hheld) (by simp [hnot])
    · rw [held_erase_of_ne hkey]
      exact hflag
  | @free refs row hrefs hlast hrow hflag =>
    constructor
    · show l.used + (columns.charge row : ℤ) =
        ((usage columns (l.rows.insert key (columns.protect false row)) : ℕ) : ℤ)
      rw [usage_insert, hrow, Charging.countedIn_some, columns.counted_of_protected hflag,
        columns.counted_of_free (columns.isProtected_protect false row), columns.charge_protect,
        hbalanced]
      simp
    · subst hrefs
      apply flagged_insert hsound rfl
      · rw [columns.isProtected_protect]
        exact hlast.symm
      · exact fun key' hkey => held_erase_of_ne hkey
  | @drop refs row hrefs hlast hrow hflag =>
    subst hrefs
    constructor
    · have hsum : usage columns l.rows = _ := usage_erase hrow
      rw [columns.counted_of_protected hflag] at hsum
      show l.used = ((usage columns (l.rows.erase key) : ℕ) : ℤ)
      omega
    · intro key' row' hrow'
      have hkey : key ≠ key' := by
        rintro rfl
        simp at hrow'
      rw [held_erase_of_ne hkey]
      exact hsound.flagged key' row' (BTreeMap.getElem?_of_erase hrow')

end

end Ledger
