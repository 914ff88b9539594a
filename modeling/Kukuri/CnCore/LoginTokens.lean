import Kukuri.CnCore.Auth

/-!
# Tokens for challenges

The challenge is read before the transaction that marks it, and it is marked whatever it then is:
two verifications that read the same challenge before either commits both get a token
(`exists_second_token`). If no two verifications of a challenge are at work together, and none is
when it expires, then a challenge is worth one token (`one_token_per_challenge`).
-/

namespace Kukuri

open Result Option Function

variable {I : Type} {primitives : EnvelopePrimitives} {node node' : AuthNode I}
  {op : AuthOp I} {ret : Option Login}

/-! ### What a step does to challenges -/

theorem checkLogin_eq_ok {challenges : String → Option AuthChallenge} {now : ℤ}
    {request : LoginRequest} {login : Login}
    (h : checkLogin primitives challenges now request = .ok login) :
  ∃ row, challenges login.challenge = some row ∧ row.used = false ∧ row.pubkey = login.pubkey
  := by
  simp only [checkLogin, bind_eq_ok, bailIf_eq_ok, context_eq_ok, pure_eq_ok] at h
  obtain ⟨_, -, _, -, _, -, _, -, _, -, challenge, -, row, hrow, _, hlive, pubkey, -, _, hkey,
    rfl⟩ := h
  exact ⟨row, hrow, Bool.of_not_eq_true fun hused => hlive (.inl hused), (not_not.mp hkey).symm⟩

/-- The statements of a transaction are about the same login. -/
theorem login_of_next {phase phase' : LoginPhase} (h : NextPhase node phase phase') :
  phase'.login = phase.login ∧ ∀ login, phase' ≠ .committed login
  := by
  cases h with
  | _ => exact ⟨rfl, by rintro _ ⟨⟩⟩

/-- What a step does to challenges and verifications. -/
structure LoginMove (node : AuthNode I) (ret : Option Login) (node' : AuthNode I) : Prop where
  created : ∀ challenge row, node.created challenge = some row →
    node'.created challenge = some row
  rows : ∀ challenge row, node'.challenges challenge = some row →
    (∃ old, node.challenges challenge = some old ∧ (row = old ∨ row = { old with used := true })) ∨
      node.created challenge = none ∧ row.used = false ∧ node'.created challenge = some row
  calls : ∀ id login, (node'.calls id).login = some login →
    (node.calls id).login = some login ∨
      ∃ row, node.challenges login.challenge = some row ∧ row.used = false ∧
        row.pubkey = login.pubkey
  committed : ∀ id login, node'.calls id = .committed login →
    node.calls id = .committed login ∨
      ∀ row, node'.challenges login.challenge = some row → row.used = true
  issued : ∀ login, ret = some login → ∃ id, node.calls id = .committed login ∧
    ∀ other, (node'.calls other).login ≠ none → other ≠ id

/-! ### Challenges that are spent -/

/-- No two verifications of a challenge are at work, and none whose challenge has expired. -/
def AuthNode.InTurn (node : AuthNode I) : Prop :=
  (∀ id other, ∀ login ∈ (node.calls id).login, ∀ login' ∈ (node.calls other).login,
    login.challenge = login'.challenge → id = other) ∧
  ∀ id, ∀ login ∈ (node.calls id).login, ∀ row ∈ node.created login.challenge,
    node.clock ≤ row.expiresAt

instance [DecidableEq I] [Fintype I] (node : AuthNode I) : Decidable node.InTurn :=
  inferInstanceAs (Decidable (_ ∧ _))

/-- Rows and verifications are of challenges as they were created, and a committed verification has
marked its challenge. -/
structure AuthNode.Genuine (node : AuthNode I) : Prop where
  rows : ∀ challenge row, node.challenges challenge = some row →
    node.created challenge = some { row with used := false }
  calls : ∀ id login, (node.calls id).login = some login →
    ∃ row, node.created login.challenge = some row ∧ row.pubkey = login.pubkey
  committed : ∀ id login, node.calls id = .committed login →
    ∀ row, node.challenges login.challenge = some row → row.used = true

/-- A challenge for which a token has been issued. -/
structure AuthNode.Spent (node : AuthNode I) (challenge : String) : Prop where
  created : node.created challenge ≠ none
  used : ∀ row, node.challenges challenge = some row → row.used = true
  calls : ∀ id login, (node.calls id).login = some login → login.challenge ≠ challenge

theorem LoginMove.used (hmove : LoginMove node ret node') {challenge : String}
    (hcreated : node.created challenge ≠ none)
    (hused : ∀ row, node.challenges challenge = some row → row.used = true) :
  ∀ row, node'.challenges challenge = some row → row.used = true
  := by
  intro row hrow
  rcases hmove.rows challenge row hrow with ⟨old, hold, rfl | rfl⟩ | ⟨hnone, -⟩
  · exact hused _ hold
  · rfl
  · exact absurd hnone hcreated

theorem AuthNode.Genuine.of_move (hgenuine : node.Genuine) (hmove : LoginMove node ret node') :
  node'.Genuine
  := by
  refine ⟨fun challenge row hrow => ?_, fun id login hlogin => ?_, fun id login hcommitted => ?_⟩
  · rcases hmove.rows challenge row hrow with ⟨old, hold, rfl | rfl⟩ | ⟨-, hunused, hcreated⟩
    · exact hmove.created _ _ (hgenuine.rows _ _ hold)
    · exact hmove.created _ _ (hgenuine.rows _ old hold)
    · rw [hcreated, ← hunused]
  · rcases hmove.calls id login hlogin with hbefore | ⟨row, hrow, -, hkey⟩
    · obtain ⟨row, hcreated, hkey⟩ := hgenuine.calls id login hbefore
      exact ⟨row, hmove.created _ _ hcreated, hkey⟩
    · exact ⟨_, hmove.created _ _ (hgenuine.rows _ _ hrow), hkey⟩
  · rcases hmove.committed id login hcommitted with hbefore | hused
    · apply hmove.used _ (hgenuine.committed id login hbefore)
      obtain ⟨row, hcreated, -⟩ := hgenuine.calls id login (by rw [hbefore]; rfl)
      simp [hcreated]
    · exact hused

theorem AuthNode.Spent.of_move {challenge : String} (hspent : node.Spent challenge)
    (hmove : LoginMove node ret node') :
  node'.Spent challenge
  := by
  refine ⟨?_, hmove.used hspent.created hspent.used, fun id login hlogin heq => ?_⟩
  · obtain ⟨row, hrow⟩ := ne_none_iff_exists'.mp hspent.created
    rw [hmove.created challenge row hrow]
    simp
  · rcases hmove.calls id login hlogin with hbefore | ⟨row, hrow, hunused, -⟩
    · exact hspent.calls id login hbefore heq
    · rw [heq] at hrow
      exact absurd (hspent.used row hrow) (by simp [hunused])

/-- The verification that a token is issued for is the last one of its challenge. -/
theorem spent_of_issued (hgenuine : node.Genuine) (hturn : node.InTurn)
    (hmove : LoginMove node ret node') {login : Login} (hret : ret = some login) :
  ¬ node.Spent login.challenge ∧ node'.Spent login.challenge
  := by
  obtain ⟨id, hcall, hothers⟩ := hmove.issued login hret
  have hlogin : (node.calls id).login = some login := by
    rw [hcall]
    rfl
  obtain ⟨row, hcreated, -⟩ := hgenuine.calls id login hlogin
  have hused := hgenuine.committed id login hcall
  refine ⟨fun hspent => hspent.calls id login hlogin rfl, ?_, ?_, fun other login' hother heq => ?_⟩
  · simp [hmove.created _ _ hcreated]
  · exact hmove.used (by simp [hcreated]) hused
  · rcases hmove.calls other login' hother with hbefore | ⟨row', hrow', hunused, -⟩
    · exact hothers other (by simp [hother])
        (hturn.1 other id login' hbefore login hlogin heq)
    · rw [heq] at hrow'
      exact absurd (hused row' hrow') (by simp [hunused])

/-! ### Steps -/

namespace LoginMove

theorem of_same (hcreated : node'.created = node.created)
    (hrows : ∀ challenge row, node'.challenges challenge = some row →
      node.challenges challenge = some row)
    (hcalls : node'.calls = node.calls) :
  LoginMove node none node'
  := by
  refine ⟨by simp [hcreated], fun challenge row hrow => ?_, ?_, ?_, by simp⟩
  · exact .inl ⟨row, hrows challenge row hrow, .inl rfl⟩
  · rw [hcalls]
    exact fun _ _ h => .inl h
  · rw [hcalls]
    exact fun _ _ h => .inl h

variable [DecidableEq I]

/-- Only one verification goes on. -/
theorem of_withCall {id : I} {phase : LoginPhase}
    (hcall : ∀ login, phase.login = some login → (node.calls id).login = some login ∨
      ∃ row, node.challenges login.challenge = some row ∧ row.used = false ∧
        row.pubkey = login.pubkey)
    (hphase : ∀ login, phase ≠ .committed login)
    (hissued : ∀ login, ret = some login → node.calls id = .committed login ∧ phase = .idle) :
  LoginMove node ret (node.withCall id phase)
  := by
  refine ⟨fun _ _ h => h, fun _ row hrow => .inl ⟨row, hrow, .inl rfl⟩, ?_, ?_, ?_⟩
  · intro other login hlogin
    rw [AuthNode.calls_withCall] at hlogin
    split at hlogin
    case isTrue heq => exact heq ▸ hcall login hlogin
    case isFalse => exact .inl hlogin
  · intro other login hcommitted
    rw [AuthNode.calls_withCall] at hcommitted
    split at hcommitted
    case isTrue => exact absurd hcommitted (hphase login)
    case isFalse => exact .inl hcommitted
  · intro login hret
    obtain ⟨hcommitted, rfl⟩ := hissued login hret
    refine ⟨id, hcommitted, fun other hother heq => hother ?_⟩
    rw [AuthNode.calls_withCall, if_pos heq]
    rfl

theorem of_commit {id : I} {login : Login} {passage : Passage} {writes : LoginWrites}
    (hcall : node.calls id = .admitted login passage writes) :
  LoginMove node none ((node.commit login passage).withCall id (.committed login))
  := by
  have hrows : ∀ challenge,
      ((node.commit login passage).withCall id (.committed login)).challenges challenge
        = if challenge = login.challenge then
            (node.challenges login.challenge).map fun row => { row with used := true }
          else node.challenges challenge := update_apply _ _ _
  refine ⟨fun _ _ h => h, fun challenge row hrow => ?_, ?_, ?_, by simp⟩
  · rw [hrows] at hrow
    split at hrow
    case isTrue heq =>
      obtain ⟨old, hold, rfl⟩ := map_eq_some_iff.mp hrow
      exact .inl ⟨old, heq ▸ hold, .inr rfl⟩
    case isFalse => exact .inl ⟨row, hrow, .inl rfl⟩
  · intro other login' hlogin
    rw [AuthNode.calls_withCall] at hlogin
    split at hlogin
    case isTrue heq =>
      cases hlogin
      rw [heq, hcall]
      exact .inl rfl
    case isFalse => exact .inl hlogin
  · intro other login' hcommitted
    rw [AuthNode.calls_withCall] at hcommitted
    split at hcommitted
    case isTrue =>
      obtain rfl := LoginPhase.committed.inj hcommitted
      right
      intro row hrow
      rw [hrows, if_pos rfl] at hrow
      obtain ⟨old, -, rfl⟩ := map_eq_some_iff.mp hrow
      rfl
    case isFalse => exact .inl hcommitted

end LoginMove

variable [DecidableEq I] [Fintype I]

theorem loginMove_of_step (hstep : AuthStep primitives node op ret node') :
  LoginMove node ret node'
  := by
  rw [AuthStep] at hstep
  cases op with
  | tick | ban | unban | revoke =>
    obtain ⟨-, hstep⟩ := ite_none_right_eq_some.mp hstep
    cases hstep
    exact .of_same rfl (fun _ _ h => h) rfl
  | addAllowlist | removeAllowlist | setAdmissionMode =>
    cases hstep
    exact .of_same rfl (fun _ _ h => h) rfl
  | pruneExpired =>
    obtain ⟨-, hstep⟩ := ite_none_right_eq_some.mp hstep
    cases hstep
    exact .of_same rfl (fun _ _ h => (filter_eq_some_iff.mp h).1) rfl
  | createChallenge challenge pubkey =>
    rw [AuthNode.perform] at hstep
    split at hstep <;> cases hstep
    case h_1 pubkey _ hfresh =>
      refine ⟨fun other row hrow => ?_, fun other row hrow => ?_, fun _ _ h => .inl h,
        fun _ _ h => .inl h, by simp⟩
      · apply (update_of_ne _ ..).trans hrow
        rintro rfl
        cases hfresh.symm.trans hrow
      · by_cases heq : other = challenge
        · subst heq
          have hsame := (update_self (f := node.challenges) ..).symm.trans hrow
          cases hsame
          exact .inr ⟨hfresh, rfl, update_self ..⟩
        · exact .inl ⟨row, (update_of_ne heq ..).symm.trans hrow, .inl rfl⟩
  | verify id request =>
    rw [AuthNode.perform] at hstep
    split at hstep <;> cases hstep
    case h_1 login _ hcheck =>
      apply LoginMove.of_withCall _ (by rintro _ ⟨⟩) (by simp)
      intro login' hlogin
      cases hlogin
      exact .inr (checkLogin_eq_ok hcheck)
  | next id =>
    obtain ⟨-, hstep⟩ := ite_none_right_eq_some.mp hstep
    split at hstep <;> cases hstep
    case h_1 phase hnext =>
      obtain ⟨hlogin, hphase⟩ := login_of_next (nextPhase_of_next hnext)
      exact .of_withCall (fun _ h => .inl (hlogin ▸ h)) hphase (by simp)
    case h_2 => exact .of_withCall (by rintro _ ⟨⟩) (by rintro _ ⟨⟩) (by simp)
  | commit id =>
    rw [AuthNode.perform] at hstep
    split at hstep <;> cases hstep
    case h_1 login passage hcall => exact .of_commit hcall
  | issueToken id =>
    rw [AuthNode.perform] at hstep
    split at hstep <;> cases hstep
    case h_1 login hcall =>
      refine .of_withCall (by rintro _ ⟨⟩) (by rintro _ ⟨⟩) fun login' hlogin => ?_
      exact ⟨some.inj hlogin ▸ hcall, rfl⟩

/-- In every run in which the verifications of a challenge are made in turn, and before it expires,
at most one token is issued for a challenge, to the account for which it was created, before it
expires. -/
theorem one_token_per_challenge {start : AuthNode I} {h : List (AuthEvent I)}
    (htrace : Trace (AuthStep primitives) start h node) (hidle : ∀ id, start.calls id = .idle)
    (hstart : ∀ challenge, start.challenges challenge = none)
    (hturn : ∀ e ∈ h, e.after.InTurn) (challenge : String) :
  (h.countP fun e => e.ret.any (·.challenge = challenge)) ≤ 1 ∧
    ∀ e ∈ h, ∀ login, e.ret = some login → ∃ row, e.before.created login.challenge = some row ∧
      row.pubkey = login.pubkey ∧ e.before.clock ≤ row.expiresAt
  := by
  have hnone : ∀ id login, (start.calls id).login ≠ some login := by simp [hidle, LoginPhase.login]
  have hinit : start.Genuine ∧ start.InTurn := by
    refine ⟨⟨?_, ?_, ?_⟩, ?_, ?_⟩
    · simp [hstart]
    · exact fun id login hlogin => absurd hlogin (hnone id login)
    · simp [hidle]
    · exact fun id _ login hlogin => absurd hlogin (hnone id login)
    · exact fun id login hlogin => absurd hlogin (hnone id login)
  have hkeep : ∀ (node : AuthNode I) op ret node', node.Genuine ∧ node.InTurn →
      AuthStep primitives node op ret node' ∧ node'.InTurn → node'.Genuine ∧ node'.InTurn :=
    fun _ _ _ _ hinv hstep => ⟨hinv.1.of_move (loginMove_of_step hstep.1), hstep.2⟩
  have htrace := htrace.restrict hturn
  constructor
  · apply htrace.countP_le_one (I := fun node => node.Genuine ∧ node.InTurn)
      (P := fun node => node.Spent challenge) _ hinit hkeep
    · exact fun _ _ _ _ _ hspent hstep => hspent.of_move (loginMove_of_step hstep.1)
    · rintro node op ret node' hinv hstep hissued
      cases ret with
      | none => cases hissued
      | some login =>
        obtain rfl := of_decide_eq_true hissued
        exact spent_of_issued hinv.1 hinv.2 (loginMove_of_step hstep.1) rfl
  · intro e he login hret
    obtain ⟨before, after, rfl⟩ := List.append_of_mem he
    obtain ⟨hbefore, hstep, -⟩ := htrace.split_event
    obtain ⟨hgenuine, hturn⟩ := hbefore.invariant hinit hkeep
    obtain ⟨id, hcall, -⟩ := (loginMove_of_step hstep.1).issued login hret
    have hlogin : (e.before.calls id).login = some login := by
      rw [hcall]
      rfl
    obtain ⟨row, hcreated, hkey⟩ := hgenuine.calls id login hlogin
    exact ⟨row, hcreated, hkey, hturn.2 id login hlogin row hcreated⟩

namespace LoginSample

def alice : Pubkey := String.ofList (List.replicate 64 'a')

/-- Every envelope without an identifier is genuine. -/
def trusting : EnvelopePrimitives := ⟨fun _ _ _ _ _ => "", id, fun _ => true, fun _ => true,
  fun _ _ _ => true⟩

def request : LoginRequest where
  publicBaseUrl := "https://node"
  envelope := ⟨"", alice, 0, authEnvelopeKind,
    [["capability_url", "https://node"], ["challenge", "c"]], "", ""⟩
  mode := .openToAll
  inviteCode := none

def start : AuthNode Bool :=
  ⟨fun _ => none, fun _ => none, fun _ => none, fun _ => false, .openToAll, 0, fun _ => none,
    fun _ => .idle⟩

def run (ops : List (AuthOp Bool)) : List (AuthEvent Bool) × AuthNode Bool :=
  Trace.replay (fun node op => node.perform trusting op) start ops

theorem trace_run (ops : List (AuthOp Bool)) :
  Trace (AuthStep trusting) start (run ops).1 (run ops).2
  := Trace.of_replay (fun _ _ _ _ _ h => h) _

/-- The transaction of a verification, and its token. -/
def transaction (id : Bool) : List (AuthOp Bool) :=
  [.next id, .next id, .next id, .commit id, .issueToken id]

def single : List (AuthOp Bool) :=
  [.createChallenge "c" alice, .verify false request] ++ transaction false

def overlapping : List (AuthOp Bool) :=
  [.createChallenge "c" alice, .verify false request, .verify true request] ++
    transaction false ++ transaction true

end LoginSample

/-- Two verifications read the challenge before either marks it, and both get a token. -/
theorem exists_second_token :
  ∃ (h : List (AuthEvent Bool)) (node : AuthNode Bool),
    Trace (AuthStep LoginSample.trusting) LoginSample.start h node ∧
    (h.countP fun e => e.ret.any (·.challenge = "c")) = 2
  := ⟨_, _, LoginSample.trace_run LoginSample.overlapping, by decide +kernel⟩

theorem one_token_per_challenge_single :
  ((LoginSample.run LoginSample.single).1.countP fun e => e.ret.any (·.challenge = "c")) ≤ 1 ∧
    ∀ e ∈ (LoginSample.run LoginSample.single).1, ∀ login, e.ret = some login →
      ∃ row, e.before.created login.challenge = some row ∧ row.pubkey = login.pubkey ∧
        e.before.clock ≤ row.expiresAt
  := by
  apply one_token_per_challenge (LoginSample.trace_run LoginSample.single)
  · exact fun _ => rfl
  · exact fun _ => rfl
  · decide +kernel

end Kukuri
