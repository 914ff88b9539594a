import Kukuri.CnCore.LoginTokens

/-!
# Admission to a community node

An account becomes a member by a verification that commits: because the node is open, because the
account is on the allowlist, or with a use of an invite code. A transaction holds the rows of its
code and of its account until it ends, so that what it has read of them is so when it commits
(`AuthNode.Sound`). `admission_is_sound` says what follows for every run, whatever operators do in
between.
-/

namespace Kukuri

open List Option Function

variable {I : Type} {primitives : EnvelopePrimitives} {node node' : AuthNode I} {op : AuthOp I}
  {ret : Option Login} {h : List (AuthEvent I)} {id : I} {phase phase' : LoginPhase}

/-- The code has been redeemed. -/
def Passage.uses (codeHash : String) : Passage → Bool
  | .redeemed used _ => codeHash = used
  | _ => false

/-- The event commits a verification that has redeemed the code. -/
def redeems (codeHash : String) (e : AuthEvent I) : Bool :=
  match e.op with
  | .commit id =>
    match e.before.calls id with
    | .admitted _ passage _ => passage.uses codeHash
    | _ => false
  | _ => false

/-- Why a verification has been admitted, according to what it has read. -/
def Justified (h : List (AuthEvent I)) (node : AuthNode I) (id : I) (login : Login) :
    Passage → Prop
  | .member => node.Admitted login.pubkey
  | .openToAll => login.mode = .openToAll
  | .allowlisted => ∃ e ∈ h, e.op = .next id ∧ e.before.calls id = .undecided login ∧
      e.before.allowlist login.pubkey = true
  | .redeemed codeHash checkedAt => login.mode = .invite ∧
      ∃ row, node.codes codeHash = some row ∧ row.Redeemable checkedAt

/-! ### The invariant -/

/-- What holds of a verification, according to what it has read. -/
def PhaseSound (h : List (AuthEvent I)) (node : AuthNode I) (id : I) : LoginPhase → Prop
  | .undecided login => login.mode ≠ .openToAll
  | .redeeming login _ => login.mode = .invite
  | .admitted login passage writes => Justified h node id login passage ∧
      (writes = .account → ¬ node.Banned login.pubkey)
  | _ => True

structure AuthNode.Sound (h : List (AuthEvent I)) (node : AuthNode I) : Prop where
  disjoint : ∀ id other, id ≠ other → ∀ row ∈ (node.calls id).locks,
    row ∉ (node.calls other).locks
  phases : ∀ id, PhaseSound h node id (node.calls id)
  uses : ∀ codeHash row, node.codes codeHash = some row →
    row.usedCount = h.countP (redeems codeHash) ∧ ∀ maxUses ∈ row.maxUses, row.usedCount ≤ maxUses

theorem code_mem_locks (login : Login) (codeHash : String) (checkedAt : ℤ) (writes : LoginWrites) :
  .code codeHash ∈ (LoginPhase.admitted login (.redeemed codeHash checkedAt) writes).locks
  := by
  simp [LoginPhase.locks]

theorem account_mem_locks (login : Login) (passage : Passage) :
  .account login.pubkey ∈ (LoginPhase.admitted login passage .account).locks
  := by
  simp [LoginPhase.locks]

/-- A statement keeps the locks, and adds the row that it waits for. -/
theorem locks_of_next (hnext : NextPhase node phase phase') {row : AuthRow}
    (hrow : row ∈ phase'.locks) :
  row ∈ phase.locks ∨ phase.target = some row
  := by
  cases hnext
  all_goals
    simp only [LoginPhase.locks, LoginPhase.target, mem_append, mem_cons,
      not_mem_nil, or_false, false_or, some.injEq] at hrow ⊢
  all_goals tauto

/-- The tables change, but not the rows that the verification has locked. -/
theorem PhaseSound.of_tables (hphase : PhaseSound h node id phase) (e : AuthEvent I)
    (hadmitted : ∀ pubkey, node.Admitted pubkey → node'.Admitted pubkey)
    (hbanned : ∀ pubkey, .account pubkey ∈ phase.locks → node'.Banned pubkey → node.Banned pubkey)
    (hcodes : ∀ codeHash, .code codeHash ∈ phase.locks →
      node'.codes codeHash = node.codes codeHash) :
  PhaseSound (h ++ [e]) node' id phase
  := by
  cases phase with
  | admitted login passage writes =>
    obtain ⟨hjustified, hwritten⟩ := hphase
    constructor
    · cases passage with
      | member => exact hadmitted _ hjustified
      | openToAll => exact hjustified
      | allowlisted =>
        obtain ⟨e', he', hrest⟩ := hjustified
        exact ⟨e', mem_append_left _ he', hrest⟩
      | redeemed codeHash checkedAt =>
        obtain ⟨hmode, row, hrow, hredeemable⟩ := hjustified
        exact ⟨hmode, row, (hcodes codeHash (code_mem_locks ..)).trans hrow, hredeemable⟩
    · rintro rfl hbanned'
      exact hwritten rfl (hbanned _ (account_mem_locks ..) hbanned')
  | _ => exact hphase

/-- What the transaction of a verification reads is so when it is admitted. -/
theorem PhaseSound.of_next (hphase : PhaseSound h node id phase)
    (hnext : NextPhase node phase phase') {e : AuthEvent I} (hop : e.op = .next id)
    (hbefore : e.before = node) (hcall : node.calls id = phase) :
  PhaseSound (h ++ [e]) node id phase'
  := by
  have hphase : PhaseSound (h ++ [e]) node id phase :=
    hphase.of_tables e (fun _ h => h) (fun _ _ h => h) fun _ _ => rfl
  cases hnext with
  | member hadmitted => exact ⟨hadmitted, by rintro ⟨⟩⟩
  | openToAll hmode => exact ⟨hmode, by rintro ⟨⟩⟩
  | undecided hmode => exact hmode
  | allowlisted hlisted =>
    refine ⟨⟨e, by simp, hop, ?_, ?_⟩, by rintro ⟨⟩⟩
    · rw [hbefore, hcall]
    · rwa [hbefore]
  | @redeeming login _ hmode =>
    cases hlogin : login.mode with
    | openToAll => exact absurd hlogin hphase
    | invite => exact hlogin
    | whitelist => exact absurd hlogin hmode
  | redeemed hrow hredeemable => exact ⟨⟨hphase, _, hrow, hredeemable⟩, by rintro ⟨⟩⟩
  | marked => exact ⟨hphase.1, by rintro ⟨⟩⟩
  | written hbanned => exact ⟨hphase.1, fun _ => hbanned⟩

namespace AuthNode.Sound

variable (hsound : node.Sound h) {e : AuthEvent I}
include hsound

/-- The tables change, but not the rows that are locked. -/
theorem of_tables (hcalls : node'.calls = node.calls)
    (hadmitted : ∀ pubkey, node.Admitted pubkey → node'.Admitted pubkey)
    (hbanned : ∀ pubkey, node.Unlocked (.account pubkey) ∨
      (node'.Banned pubkey → node.Banned pubkey))
    (hcodes : ∀ codeHash, node.Unlocked (.code codeHash) ∨
      node'.codes codeHash = node.codes codeHash)
    (huses : ∀ codeHash row, node'.codes codeHash = some row →
      row.usedCount = (h ++ [e]).countP (redeems codeHash) ∧
        ∀ maxUses ∈ row.maxUses, row.usedCount ≤ maxUses) :
  node'.Sound (h ++ [e])
  := by
  refine ⟨hcalls ▸ hsound.disjoint, fun id => ?_, huses⟩
  rw [hcalls]
  apply (hsound.phases id).of_tables e hadmitted
  · exact fun pubkey hlock => (hbanned pubkey).resolve_left fun hfree => hfree id hlock
  · exact fun codeHash hlock => (hcodes codeHash).resolve_left fun hfree => hfree id hlock

/-- A verification goes on. -/
theorem of_withCall [DecidableEq I] (hphase : PhaseSound h node id phase)
    (hlocks : ∀ row ∈ phase.locks, node.Free id row) :
  (node.withCall id phase).Sound h
  := by
  refine ⟨fun id' other hne row hrow => ?_, fun other => ?_, hsound.uses⟩
  · rw [calls_withCall] at hrow ⊢
    split at hrow
    case isTrue heq =>
      rw [if_neg (heq ▸ hne.symm)]
      exact hlocks row hrow other (heq ▸ hne.symm)
    case isFalse =>
      split
      case isTrue heq => exact fun hother => hlocks row hother id' (heq ▸ hne) hrow
      case isFalse => exact hsound.disjoint id' other hne row hrow
  · rw [calls_withCall]
    split
    case isTrue heq => exact heq ▸ hphase
    case isFalse => exact hsound.phases other

end AuthNode.Sound

/-! ### Steps -/

/-- What an event may do to accounts, codes and challenges, after the events before it. -/
structure EventSound (h : List (AuthEvent I)) (e : AuthEvent I) : Prop where
  /-- An account becomes a member by a verification that has been admitted. -/
  admits : ∀ pubkey, ¬ e.before.Admitted pubkey → e.after.Admitted pubkey →
    ∃ id login passage, e.op = .commit id ∧ login.pubkey = pubkey ∧ passage ≠ .member ∧
      e.before.calls id = .admitted login passage .account ∧ Justified h e.before id login passage
  /-- A ban ends by `unban_subscriber`. -/
  bans : ∀ pubkey, e.before.Banned pubkey → ¬ e.after.Banned pubkey → e.op = .unban pubkey
  /-- A verification that commits is not of a banned account, and has used its code once. -/
  commits : ∀ id, e.op = .commit id → ∃ login passage,
    e.before.calls id = .admitted login passage .account ∧ ¬ e.before.Banned login.pubkey ∧
    e.after.calls id = .committed login ∧
    ∀ codeHash checkedAt, passage = .redeemed codeHash checkedAt →
      ∃ row, e.before.codes codeHash = some row ∧ row.Redeemable checkedAt ∧
        e.after.codes codeHash = some { row with usedCount := row.usedCount + 1 }
  /-- Nothing else uses a code or a challenge. -/
  rejects : (∀ id, e.op ≠ .commit id) →
    (∀ codeHash row', e.after.codes codeHash = some row' →
      ∃ row, e.before.codes codeHash = some row ∧ row'.usedCount = row.usedCount ∧
        row'.maxUses = row.maxUses) ∧
    ∀ challenge row, e.after.challenges challenge = some row → row.used = true →
      e.before.challenges challenge = some row

theorem redeems_eq_false {e : AuthEvent I} (hop : ∀ id, e.op ≠ .commit id) (codeHash : String) :
  redeems codeHash e = false
  := by
  unfold redeems
  split
  case h_1 id hcommit => exact absurd hcommit (hop id)
  case h_2 => rfl

section

variable (hop : ∀ id, op ≠ .commit id)
  (hadmitted : ∀ pubkey, node'.Admitted pubkey ↔ node.Admitted pubkey)
  (hunban : ∀ pubkey, node.Banned pubkey → node'.Banned pubkey ∨ op = .unban pubkey)
  (hrows : ∀ codeHash row', node'.codes codeHash = some row' → ∃ row,
    node.codes codeHash = some row ∧ row'.usedCount = row.usedCount ∧ row'.maxUses = row.maxUses)
  (hused : ∀ challenge row, node'.challenges challenge = some row → row.used = true →
    node.challenges challenge = some row)
include hop hadmitted hunban hrows hused

/-- An event that is not a commit. -/
theorem eventSound_of_quiet :
  EventSound h ⟨node, op, ret, node'⟩
  := by
  refine ⟨fun pubkey hbefore hafter => absurd ((hadmitted pubkey).mp hafter) hbefore, ?_, ?_, ?_⟩
  · exact fun pubkey hbefore hafter => (hunban pubkey hbefore).resolve_left hafter
  · exact fun id hcommit => absurd hcommit (hop id)
  · exact fun _ => ⟨hrows, hused⟩

/-- An operator changes rows that are not locked. -/
theorem sound_of_quiet (hsound : node.Sound h) (hcalls : node'.calls = node.calls)
    (hbanned : ∀ pubkey, node.Unlocked (.account pubkey) ∨
      (node'.Banned pubkey → node.Banned pubkey))
    (hcodes : ∀ codeHash, node.Unlocked (.code codeHash) ∨
      node'.codes codeHash = node.codes codeHash) :
  node'.Sound (h ++ [⟨node, op, ret, node'⟩]) ∧ EventSound h ⟨node, op, ret, node'⟩
  := by
  refine ⟨?_, eventSound_of_quiet hop hadmitted hunban hrows hused⟩
  apply hsound.of_tables hcalls (fun pubkey => (hadmitted pubkey).mpr) hbanned hcodes
  intro codeHash row' hrow'
  obtain ⟨row, hrow, hcount, hmax⟩ := hrows codeHash row' hrow'
  rw [countP_append, countP_singleton, redeems_eq_false hop, hcount, hmax]
  exact hsound.uses codeHash row hrow

end

/-- An operator writes an account. -/
theorem sound_of_account {pubkey : Pubkey} {row : Option SubscriberAccount} (hsound : node.Sound h)
    (hop : ∀ id, op ≠ .commit id) (hfree : node.Unlocked (.account pubkey))
    (hadmitted : (∃ account, row = some account ∧ account.admitted = true) ↔ node.Admitted pubkey)
    (hunban : (∃ account, row = some account ∧ account.status = .banned) ∨ op = .unban pubkey)
    (hafter : node' = { node with accounts := Function.update node.accounts pubkey row }) :
  node'.Sound (h ++ [⟨node, op, ret, node'⟩]) ∧ EventSound h ⟨node, op, ret, node'⟩
  := by
  subst hafter
  have hself : update node.accounts pubkey row pubkey = row := update_self ..
  have hother : ∀ other ≠ pubkey,
      update node.accounts pubkey row other = node.accounts other :=
    fun other hne => update_of_ne hne ..
  refine sound_of_quiet hop (fun other => ?_) (fun other hbanned => ?_)
    (fun _ row hrow => ⟨row, hrow, rfl, rfl⟩) (fun _ _ h _ => h) hsound rfl (fun other => ?_)
    fun _ => .inr rfl
  · by_cases heq : other = pubkey
    · subst heq
      simpa only [AuthNode.Admitted, hself] using hadmitted
    · simp only [AuthNode.Admitted, hother other heq]
  · by_cases heq : other = pubkey
    · subst heq
      simpa only [AuthNode.Banned, hself] using hunban
    · left
      simpa only [AuthNode.Banned, hother other heq] using hbanned
  · by_cases heq : other = pubkey
    · exact .inl (heq ▸ hfree)
    · right
      simp only [AuthNode.Banned, hother other heq, imp_self]

/-- Nothing changes but a verification. -/
theorem sound_of_withCall [DecidableEq I] (hsound : node.Sound h) (hop : ∀ id, op ≠ .commit id)
    (hphase : PhaseSound (h ++ [⟨node, op, ret, node.withCall id phase⟩]) node id phase)
    (hlocks : ∀ row ∈ phase.locks, node.Free id row) :
  (node.withCall id phase).Sound (h ++ [⟨node, op, ret, node.withCall id phase⟩]) ∧
    EventSound h ⟨node, op, ret, node.withCall id phase⟩
  := by
  constructor
  · apply AuthNode.Sound.of_withCall _ hphase hlocks
    apply hsound.of_tables rfl (fun _ h => h) (fun _ => .inr fun h => h) fun _ => .inr rfl
    intro codeHash row hrow
    rw [countP_append, countP_singleton, redeems_eq_false hop]
    exact hsound.uses codeHash row hrow
  · exact eventSound_of_quiet hop (fun _ => Iff.rfl) (fun _ h => .inl h)
      (fun _ row hrow => ⟨row, hrow, rfl, rfl⟩) fun _ _ h _ => h

variable (login : Login) (passage : Passage)

theorem accounts_commit (node : AuthNode I) (pubkey : Pubkey) :
  (node.commit login passage).accounts pubkey
    = if pubkey = login.pubkey then some ⟨.active, true⟩ else node.accounts pubkey
  := update_apply ..

/-- A code that has been redeemed has one use more. -/
theorem codes_commit (node : AuthNode I) (codeHash : String) :
  (node.commit login passage).codes codeHash
    = (node.codes codeHash).map fun row => { row with
        usedCount := row.usedCount + if passage.uses codeHash then 1 else 0 }
  := by
  cases passage with
  | redeemed used checkedAt =>
    by_cases heq : codeHash = used
    · subst heq
      simp [AuthNode.commit, Passage.uses]
    · simp [AuthNode.commit, Passage.uses, heq]
  | _ => simp [AuthNode.commit, Passage.uses]

theorem admitted_commit (node : AuthNode I) (pubkey : Pubkey) :
  (node.commit login passage).Admitted pubkey ↔ pubkey = login.pubkey ∨ node.Admitted pubkey
  := by
  unfold AuthNode.Admitted
  rw [accounts_commit]
  by_cases heq : pubkey = login.pubkey <;> simp [heq]

variable {login}

theorem banned_commit (hbanned : ¬ node.Banned login.pubkey) (pubkey : Pubkey) :
  (node.commit login passage).Banned pubkey ↔ node.Banned pubkey
  := by
  by_cases heq : pubkey = login.pubkey
  · subst heq
    refine iff_of_false ?_ hbanned
    rintro ⟨row, hrow, hstatus⟩
    rw [accounts_commit, if_pos rfl] at hrow
    cases hrow
    cases hstatus
  · unfold AuthNode.Banned
    rw [accounts_commit, if_neg heq]

variable {passage} [DecidableEq I]

/-- The rows that a verification writes when it commits are locked by no other. -/
theorem sound_of_commit (hsound : node.Sound h)
    (hcall : node.calls id = .admitted login passage .account)
    (hafter : node' = (node.commit login passage).withCall id (.committed login)) :
  node'.Sound (h ++ [⟨node, .commit id, ret, node'⟩]) ∧
    EventSound h ⟨node, .commit id, ret, node'⟩
  := by
  subst hafter
  have hphase := hsound.phases id
  rw [hcall] at hphase
  obtain ⟨hjustified, hwritten⟩ := hphase
  have hbanned := hwritten rfl
  constructor
  · have hended : (node.withCall id (.committed login)).Sound h :=
      hsound.of_withCall trivial (by simp [LoginPhase.locks])
    have hcalls : ((node.commit login passage).withCall id (.committed login)).calls
        = (node.withCall id (.committed login)).calls := rfl
    apply hended.of_tables hcalls
    · exact fun pubkey h => (admitted_commit login passage node pubkey).mpr (.inr h)
    · exact fun pubkey => .inr (banned_commit passage hbanned pubkey).mp
    · intro codeHash
      change _ ∨ (node.commit login passage).codes codeHash = node.codes codeHash
      rw [codes_commit]
      cases huses : passage.uses codeHash with
      | false => simp
      | true =>
        left
        intro other
        rw [AuthNode.calls_withCall]
        split
        case isTrue => simp [LoginPhase.locks]
        case isFalse hother =>
          apply hsound.disjoint id other (Ne.symm hother)
          rw [hcall]
          cases passage with
          | redeemed used checkedAt =>
            obtain rfl := of_decide_eq_true huses
            apply code_mem_locks
          | _ => cases huses
    · intro codeHash row' hrow'
      change (node.commit login passage).codes codeHash = some row' at hrow'
      rw [codes_commit] at hrow'
      obtain ⟨row, hrow, rfl⟩ := map_eq_some_iff.mp hrow'
      obtain ⟨hcount, hmax⟩ := hsound.uses codeHash row hrow
      have hredeems : redeems codeHash ⟨node, .commit id, ret,
          (node.commit login passage).withCall id (.committed login)⟩ = passage.uses codeHash := by
        simp [redeems, hcall]
      rw [countP_append, countP_singleton, hredeems, ← hcount]
      refine ⟨rfl, fun maxUses hmem => ?_⟩
      cases passage with
      | redeemed used checkedAt =>
        by_cases heq : codeHash = used
        · subst heq
          obtain ⟨-, redeemed, hredeemed, hredeemable⟩ := hjustified
          cases hrow.symm.trans hredeemed
          simpa [Passage.uses] using hredeemable.maxUses maxUses hmem
        · simpa [Passage.uses, heq] using hmax maxUses hmem
      | _ => simpa [Passage.uses] using hmax maxUses hmem
  · refine ⟨?_, ?_, ?_, fun hop => absurd rfl (hop id)⟩
    · intro pubkey hbefore hafter
      obtain rfl := ((admitted_commit login passage node pubkey).mp hafter).resolve_right hbefore
      refine ⟨id, login, passage, rfl, rfl, ?_, hcall, hjustified⟩
      rintro rfl
      exact hbefore hjustified
    · intro pubkey hbefore hafter
      exact absurd ((banned_commit passage hbanned pubkey).mpr hbefore) hafter
    · intro other hother
      obtain rfl := AuthOp.commit.inj hother
      refine ⟨login, passage, hcall, hbanned, update_self .., ?_⟩
      rintro codeHash checkedAt rfl
      obtain ⟨-, row, hrow, hredeemable⟩ := hjustified
      refine ⟨row, hrow, hredeemable, ?_⟩
      change (node.commit login (.redeemed codeHash checkedAt)).codes codeHash = _
      rw [codes_commit, hrow]
      simp [Passage.uses]

variable [Fintype I]

theorem sound_of_step (hsound : node.Sound h) (hstep : AuthStep primitives node op ret node') :
  node'.Sound (h ++ [⟨node, op, ret, node'⟩]) ∧ EventSound h ⟨node, op, ret, node'⟩
  := by
  have hsame : ∀ codeHash row', node.codes codeHash = some row' → ∃ row,
      node.codes codeHash = some row ∧ row'.usedCount = row.usedCount ∧
        row'.maxUses = row.maxUses := fun _ row hrow => ⟨row, hrow, rfl, rfl⟩
  rw [AuthStep] at hstep
  cases op with
  | tick =>
    obtain ⟨-, hstep⟩ := ite_none_right_eq_some.mp hstep
    cases hstep
    exact sound_of_quiet (by rintro _ ⟨⟩) (fun _ => Iff.rfl) (fun _ h => .inl h) hsame
      (fun _ _ h _ => h) hsound rfl (fun _ => .inr fun h => h) fun _ => .inr rfl
  | addAllowlist | removeAllowlist | setAdmissionMode =>
    cases hstep
    exact sound_of_quiet (by rintro _ ⟨⟩) (fun _ => Iff.rfl) (fun _ h => .inl h) hsame
      (fun _ _ h _ => h) hsound rfl (fun _ => .inr fun h => h) fun _ => .inr rfl
  | pruneExpired =>
    obtain ⟨-, hstep⟩ := ite_none_right_eq_some.mp hstep
    cases hstep
    exact sound_of_quiet (by rintro _ ⟨⟩) (fun _ => Iff.rfl) (fun _ h => .inl h) hsame
      (fun _ _ h _ => (filter_eq_some_iff.mp h).1) hsound rfl (fun _ => .inr fun h => h)
      fun _ => .inr rfl
  | createChallenge challenge pubkey =>
    rw [AuthNode.perform] at hstep
    split at hstep <;> cases hstep
    case h_1 =>
      refine sound_of_quiet (by rintro _ ⟨⟩) (fun _ => Iff.rfl) (fun _ h => .inl h) hsame
        (fun other row hrow hused => ?_) hsound rfl (fun _ => .inr fun h => h) fun _ => .inr rfl
      by_cases heq : other = challenge
      · subst heq
        have hrow := (update_self (f := node.challenges) ..).symm.trans hrow
        cases hrow
        cases hused
      · exact (update_of_ne heq ..).symm.trans hrow
  | verify id request | issueToken id =>
    rw [AuthNode.perform] at hstep
    split at hstep <;> cases hstep
    case h_1 => exact sound_of_withCall hsound (by rintro _ ⟨⟩) trivial (by simp [LoginPhase.locks])
  | next id =>
    obtain ⟨hfree, hstep⟩ := ite_none_right_eq_some.mp hstep
    split at hstep <;> cases hstep
    case h_1 phase hnext =>
      have hnext := nextPhase_of_next hnext
      apply sound_of_withCall hsound (by rintro _ ⟨⟩)
      · exact (hsound.phases id).of_next hnext rfl rfl rfl
      · intro row hrow
        rcases locks_of_next hnext hrow with hold | htarget
        · exact fun other hother => hsound.disjoint id other hother.symm row hold
        · exact hfree row htarget
    case h_2 => exact sound_of_withCall hsound (by rintro _ ⟨⟩) trivial (by simp [LoginPhase.locks])
  | commit id =>
    rw [AuthNode.perform] at hstep
    split at hstep
    case h_2 => cases hstep
    case h_1 login passage hcall =>
      obtain ⟨rfl, hafter⟩ := Prod.mk.inj (some.inj hstep)
      exact sound_of_commit hsound hcall hafter.symm
  | ban pubkey =>
    obtain ⟨hfree, hstep⟩ := ite_none_right_eq_some.mp hstep
    cases hstep
    apply sound_of_account hsound (by rintro _ ⟨⟩) hfree _ (.inl ⟨_, rfl, rfl⟩) rfl
    cases hrow : node.accounts pubkey <;> simp [AuthNode.Admitted, hrow]
  | unban pubkey =>
    obtain ⟨hfree, hstep⟩ := ite_none_right_eq_some.mp hstep
    cases hstep
    apply sound_of_account hsound (by rintro _ ⟨⟩) hfree _ (.inr rfl) rfl
    cases hrow : node.accounts pubkey <;> simp [AuthNode.Admitted, hrow]
  | revoke codeHash =>
    obtain ⟨hfree, hstep⟩ := ite_none_right_eq_some.mp hstep
    cases hstep
    refine sound_of_quiet (by rintro _ ⟨⟩) (fun _ => Iff.rfl) (fun _ h => .inl h)
      (fun other row' hrow' => ?_) (fun _ _ h _ => h) hsound rfl (fun _ => .inr fun h => h)
      (fun other => ?_)
    · by_cases heq : other = codeHash
      · subst heq
        have hrow' := (update_self (f := node.codes) ..).symm.trans hrow'
        obtain ⟨row, hrow, rfl⟩ := map_eq_some_iff.mp hrow'
        exact ⟨row, hrow, rfl, rfl⟩
      · exact ⟨row', (update_of_ne heq ..).symm.trans hrow', rfl, rfl⟩
    · by_cases heq : other = codeHash
      · exact .inl (heq ▸ hfree)
      · exact .inr (update_of_ne heq ..)

/-- In every run, whatever operators do: accounts become members only by verifications that have
been admitted, the uses of a code are counted and limited, bans are kept, and a verification that is
rejected uses nothing. -/
theorem admission_is_sound {start : AuthNode I}
    (htrace : Trace (AuthStep primitives) start h node) (hidle : ∀ id, start.calls id = .idle)
    (hunused : ∀ codeHash row, start.codes codeHash = some row → row.usedCount = 0) :
  (∀ codeHash row, node.codes codeHash = some row →
    row.usedCount = h.countP (redeems codeHash) ∧
      ∀ maxUses ∈ row.maxUses, row.usedCount ≤ maxUses) ∧
  ∀ before e after, h = before ++ e :: after → EventSound before e
  := by
  have hstart : start.Sound [] := by
    refine ⟨?_, fun id => ?_, fun codeHash row hrow => ?_⟩
    · simp [hidle, LoginPhase.locks]
    · rw [hidle]
      trivial
    · simp [hunused codeHash row hrow]
  have hsound : ∀ {h : List (AuthEvent I)} {node}, Trace (AuthStep primitives) start h node →
      node.Sound h := by
    intro h node htrace
    apply htrace.history_invariant hstart
    exact fun _ _ _ _ _ _ hsound hstep => (sound_of_step hsound hstep).1
  refine ⟨(hsound htrace).uses, ?_⟩
  rintro before e after rfl
  obtain ⟨hbefore, hstep, -⟩ := htrace.split_event
  exact (sound_of_step (hsound hbefore) hstep).2

theorem admission_is_sound_single :
  (LoginSample.run LoginSample.single).1.length = 7 ∧
    ∀ before e after, (LoginSample.run LoginSample.single).1 = before ++ e :: after →
      EventSound before e
  := ⟨by decide +kernel, (admission_is_sound (LoginSample.trace_run LoginSample.single)
    (fun _ => rfl) (by rintro _ _ ⟨⟩)).2⟩

end Kukuri
