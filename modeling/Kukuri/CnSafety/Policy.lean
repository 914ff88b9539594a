import Mathlib.Data.List.Perm.Basic

/-!
# Routing of safety scans

The providers of a community node scan a subject, and a router makes one verdict of their results.
Only a verdict that allows a subject puts it into the index. The rules of the router are tried in
order, and the first that applies decides.

The main result, `route_failsClosed`, says exactly which results allow a subject, and draws from
it that neither their order nor a further result or a stricter policy allows more.
-/

namespace Kukuri

open List Option

/-! ### Data -/

inductive SafetyProviderCapability where
  | knownCsamHashMatch
  | perceptualHashMatch
  | novelCsamImageClassifier
  | novelCsamVideoClassifier
  | cseTextClassifier
  | groomingTextClassifier
  | generalMediaModeration
  | spamAbuseModeration
  | malwarePhishingDetection
  | reportingWorkflow
  deriving DecidableEq, Repr

def SafetyProviderCapability.isCriticalSafety : SafetyProviderCapability → Bool
  | .knownCsamHashMatch | .perceptualHashMatch | .novelCsamImageClassifier
  | .novelCsamVideoClassifier | .cseTextClassifier | .groomingTextClassifier => true
  | _ => false

inductive SafetyAction where
  | allow
  | hold
  | quarantine
  | exclude
  deriving DecidableEq, Repr

def SafetyAction.allowsIndexing : SafetyAction → Bool
  | .allow => true
  | _ => false

inductive SafetyCategory where
  | csam
  | cse
  | grooming
  | nsfw
  | objectionable
  | spam
  | malware
  | phishing
  | providerTest
  deriving DecidableEq, Repr

def SafetyCategory.isCriticalSafety : SafetyCategory → Bool
  | .csam | .cse | .grooming => true
  | _ => false

def SafetyCategory.isAdvisoryOnly : SafetyCategory → Bool
  | .nsfw | .objectionable => true
  | _ => false

inductive ReasonCode where
  | csamConfirmed
  | csamSuspected
  | cseSuspected
  | generalModeration
  | scanFailed
  | providerUnavailable
  | unscanned
  | providerTestMatch
  | noKnownMatch
  | clean
  deriving DecidableEq, Repr

structure SafetyLabel where
  category : SafetyCategory
  confidence : Option ℕ
  providerCapability : Option SafetyProviderCapability
  deriving DecidableEq, Repr

inductive ScanOutcome where
  | completed
  | noKnownMatch
  | failed
  | unavailable
  deriving DecidableEq, Repr

def ScanOutcome.isFailClosed : ScanOutcome → Bool
  | .failed | .unavailable => true
  | _ => false

inductive ProviderDecisionBasis where
  | scoreThreshold
  | categoryFlags
  deriving DecidableEq, Repr

structure ProviderScanResult where
  decisionBasis : ProviderDecisionBasis
  provider : String
  capability : SafetyProviderCapability
  outcome : ScanOutcome
  knownHashMatch : Bool
  score : Option ℕ
  labels : List SafetyLabel
  deriving DecidableEq, Repr

structure SafetyVerdict where
  action : SafetyAction
  labels : List SafetyLabel
  advisoryLabels : List SafetyLabel
  critical : Bool
  reasonCode : ReasonCode
  confidence : Option ℕ
  provider : Option String
  providerCapability : Option SafetyProviderCapability
  policyVersion : String
  scannedAt : String
  deriving DecidableEq, Repr

def SafetyVerdict.isIndexable (verdict : SafetyVerdict) : Bool := verdict.action.allowsIndexing

inductive GeneralAction where
  | label
  | hold
  | exclude
  deriving DecidableEq, Repr

def GeneralAction.toSafetyAction : GeneralAction → SafetyAction
  | .label => .allow
  | .hold => .hold
  | .exclude => .exclude

structure SafetyPolicy where
  policyVersion : String
  onScanError : SafetyAction
  suspectedThreshold : ℕ
  suspectedCriticalAction : SafetyAction
  generalAction : GeneralAction
  onSpam : SafetyAction
  onMalwarePhishing : SafetyAction
  requireKnownCsam : Bool
  deriving DecidableEq, Repr

def SafetyPolicy.publicNodeDefault : SafetyPolicy where
  policyVersion := "2026-09-public-node-v3"
  onScanError := .hold
  suspectedThreshold := 70
  suspectedCriticalAction := .quarantine
  generalAction := .label
  onSpam := .exclude
  onMalwarePhishing := .exclude
  requireKnownCsam := true

/-! ### Actions -/

/-- The action, unless it puts the subject into the index. -/
def ensureNonIndexing (action fallback : SafetyAction) : SafetyAction :=
  if action.allowsIndexing then fallback else action

def SafetyPolicy.failClosedAction (policy : SafetyPolicy) : SafetyAction :=
  ensureNonIndexing policy.onScanError .hold

def suspectedAction (policy : SafetyPolicy) : SafetyAction :=
  ensureNonIndexing policy.suspectedCriticalAction .quarantine

def generalAction (policy : SafetyPolicy) : SafetyCategory → SafetyAction
  | .spam => policy.onSpam
  | .malware | .phishing => policy.onMalwarePhishing
  | .providerTest => .exclude
  | .nsfw | .objectionable => policy.generalAction.toSafetyAction
  | .csam | .cse | .grooming => .exclude

/-! ### What a result says -/

section

variable (result : ProviderScanResult) (policy : SafetyPolicy)

def isCriticalDetection : Bool :=
  (result.capability.isCriticalSafety && result.score.isSome) ||
    result.labels.any (·.category.isCriticalSafety)

def criticalCategoryForCapability : SafetyProviderCapability → Option SafetyCategory
  | .knownCsamHashMatch | .perceptualHashMatch | .novelCsamImageClassifier
  | .novelCsamVideoClassifier => some .csam
  | .cseTextClassifier => some .cse
  | .groomingTextClassifier => some .grooming
  | _ => none

def criticalCategory : Option SafetyCategory :=
  ((result.labels.map SafetyLabel.category).find? (·.isCriticalSafety)).or
    (criticalCategoryForCapability result.capability)

/-- The greatest confidence of the labels whose category is chosen. -/
def maxConfidence (chosen : SafetyCategory → Bool) : Option ℕ :=
  ((result.labels.filter (chosen ·.category)).filterMap SafetyLabel.confidence).max?

def effectiveCriticalScore : Option ℕ :=
  if result.decisionBasis = .categoryFlags then
    (criticalCategory result).bind fun category => maxConfidence result (· == category)
  else
    result.score.or (maxConfidence result (·.isCriticalSafety))

def effectiveGeneralScore : Option ℕ :=
  result.score.or (maxConfidence result (! ·.isCriticalSafety))

/-- The category of a result of general moderation: one that keeps the subject out of the index,
if there is one. -/
def generalCategory : Option SafetyCategory :=
  if result.outcome ≠ .completed then none
  else
    let general := (result.labels.map SafetyLabel.category).filter (! ·.isCriticalSafety)
    (general.find? fun category => ! (generalAction policy category).allowsIndexing).or
      general.head?

/-- The labels of a result, or one for the category if there are none. -/
def nonEmptyLabels (category : SafetyCategory) : List SafetyLabel :=
  if result.labels = [] then [⟨category, result.score, some result.capability⟩]
  else result.labels

end

def hasKnownCsamScanResult (scanOutcomes : List ProviderScanResult) : Bool :=
  scanOutcomes.any (·.capability = .knownCsamHashMatch)

/-! ### The rules -/

section

variable (scanOutcomes : List ProviderScanResult) (policy : SafetyPolicy) (scannedAt : String)

/-- A verdict without a result. -/
def baseVerdict (action : SafetyAction) (reason : ReasonCode) (critical : Bool) :
    SafetyVerdict where
  action := action
  labels := []
  advisoryLabels := []
  critical := critical
  reasonCode := reason
  confidence := none
  provider := none
  providerCapability := none
  policyVersion := policy.policyVersion
  scannedAt := scannedAt

/-- A verdict because of a result. -/
def verdictOf (action : SafetyAction) (reason : ReasonCode) (critical : Bool)
    (result : ProviderScanResult) : SafetyVerdict :=
  { baseVerdict policy scannedAt action reason critical with
    provider := some result.provider
    providerCapability := some result.capability }

def routeUnscanned : Option SafetyVerdict :=
  if scanOutcomes = [] then
    some (baseVerdict policy scannedAt policy.failClosedAction .unscanned false)
  else none

def routeKnownHash : Option SafetyVerdict :=
  (scanOutcomes.find? (·.knownHashMatch)).map fun result =>
    { verdictOf policy scannedAt .exclude .csamConfirmed true result with
      confidence := result.score
      labels := nonEmptyLabels result .csam }

def routeProviderTest : Option SafetyVerdict :=
  (scanOutcomes.find? fun result =>
    result.outcome = .completed && result.labels.any (·.category = .providerTest)).map fun result =>
      { verdictOf policy scannedAt .exclude .providerTestMatch false result with
        confidence := result.score
        labels := nonEmptyLabels result .providerTest }

/-- The verdict of a critical detection. -/
def criticalVerdict (action : SafetyAction) (result : ProviderScanResult) : SafetyVerdict :=
  let category := (criticalCategory result).getD .csam
  let reason := if category = .cse then ReasonCode.cseSuspected else .csamSuspected
  { verdictOf policy scannedAt action reason true result with
    confidence := effectiveCriticalScore result
    labels := nonEmptyLabels result category }

def routeSuspected : Option SafetyVerdict :=
  let critical := scanOutcomes.filter fun result =>
    result.outcome = .completed && isCriticalDetection result
  let suspected := critical.find? fun result => result.decisionBasis = .categoryFlags ||
    (effectiveCriticalScore result).any (policy.suspectedThreshold ≤ ·)
  suspected.map (criticalVerdict policy scannedAt (suspectedAction policy))

def routeFailed : Option SafetyVerdict :=
  (scanOutcomes.find? (·.outcome.isFailClosed)).map fun result =>
    let reason := match result.outcome with
      | .unavailable => ReasonCode.providerUnavailable
      | _ => .scanFailed
    verdictOf policy scannedAt policy.failClosedAction reason false result

def routeCritical : Option SafetyVerdict :=
  (scanOutcomes.find? fun result =>
    result.outcome = .completed && isCriticalDetection result).map
    (criticalVerdict policy scannedAt (ensureNonIndexing policy.suspectedCriticalAction .hold))

def routeMissingKnownCsam : Option SafetyVerdict :=
  if policy.requireKnownCsam && ! hasKnownCsamScanResult scanOutcomes then
    some (baseVerdict policy scannedAt policy.failClosedAction .providerUnavailable false)
  else none

/-- Whether a result of general moderation counts. -/
def passesThreshold (result : ProviderScanResult) : Bool :=
  result.decisionBasis = .categoryFlags ||
    (effectiveGeneralScore result).all (policy.suspectedThreshold ≤ ·)

def generalCandidates : List (ProviderScanResult × SafetyCategory) :=
  scanOutcomes.filterMap fun result =>
    ((generalCategory result policy).filter fun _ => passesThreshold policy result).map (result, ·)

/-- The verdict of general moderation. A subject that is allowed in spite of it has advice. -/
def generalVerdict (result : ProviderScanResult) (category : SafetyCategory) : SafetyVerdict :=
  let action := generalAction policy category
  let labels := nonEmptyLabels result category
  { verdictOf policy scannedAt action .generalModeration false result with
    confidence :=
      if result.decisionBasis = .categoryFlags then maxConfidence result (· == category)
      else result.score
    labels
    advisoryLabels :=
      if action.allowsIndexing && category.isAdvisoryOnly then
        labels.filter (·.category.isAdvisoryOnly)
      else [] }

def routeGeneral : Option SafetyVerdict :=
  let candidates := generalCandidates scanOutcomes policy
  let chosen := (candidates.find? fun candidate =>
    ! (generalAction policy candidate.2).allowsIndexing).or candidates.head?
  chosen.map fun candidate => generalVerdict policy scannedAt candidate.1 candidate.2

def routeClean : SafetyVerdict :=
  let reason := if scanOutcomes.any (·.outcome = .noKnownMatch) then ReasonCode.noKnownMatch
    else .clean
  baseVerdict policy scannedAt .allow reason false

/-- The verdict of the first rule that applies. -/
def route : SafetyVerdict :=
  (routeUnscanned scanOutcomes policy scannedAt).or
    ((routeKnownHash scanOutcomes policy scannedAt).or
      ((routeProviderTest scanOutcomes policy scannedAt).or
        ((routeSuspected scanOutcomes policy scannedAt).or
          ((routeFailed scanOutcomes policy scannedAt).or
            ((routeCritical scanOutcomes policy scannedAt).or
              ((routeMissingKnownCsam scanOutcomes policy scannedAt).or
                (routeGeneral scanOutcomes policy scannedAt))))))) |>.getD
    (routeClean scanOutcomes policy scannedAt)

end

/-! ### Rules that keep a subject out -/

/-- A verdict of the rule keeps the subject out of the index, without advice. -/
def HoldsBack (rule : Option SafetyVerdict) : Prop :=
  ∀ verdict ∈ rule, ¬ verdict.isIndexable ∧ verdict.advisoryLabels = []

section

variable {scanOutcomes : List ProviderScanResult} {policy : SafetyPolicy} {scannedAt : String}
  {rule rest : Option SafetyVerdict} {last : SafetyVerdict}

theorem isIndexable_or (h : HoldsBack rule) :
  ((rule.or rest).getD last).isIndexable ↔ rule = none ∧ (rest.getD last).isIndexable
  := by
  cases rule with
  | none => simp
  | some verdict =>
    obtain ⟨hverdict, _⟩ := h verdict rfl
    simpa using hverdict

theorem advisoryLabels_or (h : HoldsBack rule)
    (hrest : (rest.getD last).advisoryLabels ≠ [] → (rest.getD last).isIndexable) :
  ((rule.or rest).getD last).advisoryLabels ≠ [] → ((rule.or rest).getD last).isIndexable
  := by
  cases rule with
  | none => simpa using hrest
  | some verdict =>
    obtain ⟨_, hverdict⟩ := h verdict rfl
    intro hne
    exact absurd hverdict hne

theorem not_allowsIndexing_ensureNonIndexing {action fallback : SafetyAction}
    (h : ¬ fallback.allowsIndexing) :
  ¬ (ensureNonIndexing action fallback).allowsIndexing
  := by
  unfold ensureNonIndexing
  split
  case isTrue => exact h
  case isFalse haction => exact haction

theorem not_allowsIndexing_failClosedAction (policy : SafetyPolicy) :
  ¬ policy.failClosedAction.allowsIndexing
  := not_allowsIndexing_ensureNonIndexing (by decide)

theorem holdsBack_map {found : Option ProviderScanResult}
    {verdictOf : ProviderScanResult → SafetyVerdict}
    (h : ∀ result, ¬ (verdictOf result).isIndexable ∧ (verdictOf result).advisoryLabels = []) :
  HoldsBack (found.map verdictOf)
  := by
  intro verdict hverdict
  obtain ⟨result, _, rfl⟩ := map_eq_some_iff.mp hverdict
  exact h result

theorem holdsBack_ite {p : Prop} [Decidable p] {verdict : SafetyVerdict}
    (h : ¬ verdict.isIndexable ∧ verdict.advisoryLabels = []) :
  HoldsBack (if p then some verdict else none)
  := by
  intro verdict' hverdict
  split at hverdict <;> cases hverdict
  case isTrue => exact h

variable (scanOutcomes policy scannedAt)

theorem holdsBack_routeUnscanned : HoldsBack (routeUnscanned scanOutcomes policy scannedAt) :=
  holdsBack_ite ⟨not_allowsIndexing_failClosedAction policy, rfl⟩

theorem holdsBack_routeKnownHash : HoldsBack (routeKnownHash scanOutcomes policy scannedAt) := by
  apply holdsBack_map
  intro result
  exact ⟨Bool.false_ne_true, rfl⟩

theorem holdsBack_routeProviderTest :
  HoldsBack (routeProviderTest scanOutcomes policy scannedAt)
  := by
  apply holdsBack_map
  intro result
  exact ⟨Bool.false_ne_true, rfl⟩

theorem holdsBack_routeSuspected : HoldsBack (routeSuspected scanOutcomes policy scannedAt) := by
  apply holdsBack_map
  intro result
  have haction : ¬ (suspectedAction policy).allowsIndexing :=
    not_allowsIndexing_ensureNonIndexing (by decide)
  exact ⟨haction, rfl⟩

theorem holdsBack_routeFailed : HoldsBack (routeFailed scanOutcomes policy scannedAt) := by
  apply holdsBack_map
  intro result
  exact ⟨not_allowsIndexing_failClosedAction policy, rfl⟩

theorem holdsBack_routeCritical : HoldsBack (routeCritical scanOutcomes policy scannedAt) := by
  apply holdsBack_map
  intro result
  have haction : ¬ (ensureNonIndexing policy.suspectedCriticalAction .hold).allowsIndexing :=
    not_allowsIndexing_ensureNonIndexing (by decide)
  exact ⟨haction, rfl⟩

theorem holdsBack_routeMissingKnownCsam :
  HoldsBack (routeMissingKnownCsam scanOutcomes policy scannedAt)
  := holdsBack_ite ⟨not_allowsIndexing_failClosedAction policy, rfl⟩

/-! ### General moderation -/

/-- A result keeps the subject out: it has a general label whose action does, and it counts. -/
def Objects (policy : SafetyPolicy) (result : ProviderScanResult) : Prop :=
  (∃ label ∈ result.labels, ¬ label.category.isCriticalSafety ∧
    ¬ (generalAction policy label.category).allowsIndexing) ∧
  (result.decisionBasis = .categoryFlags ∨ effectiveGeneralScore result = none ∨
    ∃ score, effectiveGeneralScore result = some score ∧ policy.suspectedThreshold ≤ score)

variable {result : ProviderScanResult}

theorem passesThreshold_iff :
  passesThreshold policy result ↔ result.decisionBasis = .categoryFlags ∨
    effectiveGeneralScore result = none ∨
    ∃ score, effectiveGeneralScore result = some score ∧ policy.suspectedThreshold ≤ score
  := by
  unfold passesThreshold
  cases effectiveGeneralScore result with
  | none => simp
  | some score => simp

/-- The category of a result keeps the subject out if one of its labels does. -/
theorem exists_generalCategory_iff :
  (∃ category ∈ generalCategory result policy, ¬ (generalAction policy category).allowsIndexing) ↔
    result.outcome = .completed ∧ ∃ label ∈ result.labels, ¬ label.category.isCriticalSafety ∧
      ¬ (generalAction policy label.category).allowsIndexing
  := by
  unfold generalCategory
  split
  case isTrue houtcome =>
    constructor
    · rintro ⟨category, hcategory, _⟩
      cases hcategory
    · rintro ⟨hcompleted, _⟩
      exact absurd hcompleted houtcome
  case isFalse houtcome =>
    rw [ne_eq, not_not] at houtcome
    set general := (result.labels.map SafetyLabel.category).filter (! ·.isCriticalSafety)
    constructor
    · rintro ⟨category, hcategory, haction⟩
      have hgeneral : category ∈ general := by
        rcases or_eq_some_iff.mp hcategory with hfound | ⟨_, hhead⟩
        · exact mem_of_find?_eq_some hfound
        · exact mem_of_head? hhead
      obtain ⟨hlabel, hcritical⟩ := mem_filter.mp hgeneral
      obtain ⟨label, hmem, rfl⟩ := mem_map.mp hlabel
      refine ⟨houtcome, label, hmem, ?_, haction⟩
      simpa using hcritical
    · rintro ⟨_, label, hmem, hcritical, haction⟩
      have hgeneral : label.category ∈ general :=
        mem_filter.mpr ⟨mem_map_of_mem hmem, by simpa using hcritical⟩
      have hexists : (general.find? fun category =>
          ! (generalAction policy category).allowsIndexing).isSome := by
        rw [find?_isSome]
        exact ⟨label.category, hgeneral, by simpa using haction⟩
      obtain ⟨category, hfound⟩ := isSome_iff_exists.mp hexists
      refine ⟨category, or_eq_some_iff.mpr (.inl hfound), ?_⟩
      simpa using find?_some hfound

theorem isIndexable_generalVerdict (result : ProviderScanResult) (category : SafetyCategory) :
  (generalVerdict policy scannedAt result category).isIndexable =
    (generalAction policy category).allowsIndexing
  := rfl

theorem exists_candidate_iff :
  (∃ candidate ∈ generalCandidates scanOutcomes policy,
    ¬ (generalAction policy candidate.2).allowsIndexing) ↔
  ∃ result ∈ scanOutcomes, result.outcome = .completed ∧ Objects policy result
  := by
  constructor
  · rintro ⟨candidate, hcandidate, haction⟩
    obtain ⟨result, hmem, hresult⟩ := mem_filterMap.mp hcandidate
    obtain ⟨category, hcategory, rfl⟩ := map_eq_some_iff.mp hresult
    obtain ⟨hcategory, hpasses⟩ := filter_eq_some_iff.mp hcategory
    obtain ⟨hcompleted, hlabel⟩ :=
      (exists_generalCategory_iff policy).mp ⟨category, hcategory, haction⟩
    exact ⟨result, hmem, hcompleted, hlabel, (passesThreshold_iff policy).mp hpasses⟩
  · rintro ⟨result, hmem, hcompleted, hlabel, hpasses⟩
    obtain ⟨category, hcategory, haction⟩ :=
      (exists_generalCategory_iff policy).mpr ⟨hcompleted, hlabel⟩
    refine ⟨(result, category), mem_filterMap.mpr ⟨result, hmem, ?_⟩, haction⟩
    refine map_eq_some_iff.mpr ⟨category, ?_, rfl⟩
    exact filter_eq_some_iff.mpr ⟨hcategory, (passesThreshold_iff policy).mpr hpasses⟩

/-- The rule of general moderation takes a candidate that keeps the subject out, if there is
one. -/
theorem routeGeneral_cases :
  (∃ candidate ∈ generalCandidates scanOutcomes policy,
    ¬ (generalAction policy candidate.2).allowsIndexing ∧
    routeGeneral scanOutcomes policy scannedAt =
      some (generalVerdict policy scannedAt candidate.1 candidate.2)) ∨
  (∀ candidate ∈ generalCandidates scanOutcomes policy,
    (generalAction policy candidate.2).allowsIndexing) ∧
    routeGeneral scanOutcomes policy scannedAt =
      (generalCandidates scanOutcomes policy).head?.map
        fun candidate => generalVerdict policy scannedAt candidate.1 candidate.2
  := by
  cases hfind : (generalCandidates scanOutcomes policy).find? fun candidate =>
      ! (generalAction policy candidate.2).allowsIndexing with
  | some candidate =>
    have haction := find?_some hfind
    refine .inl ⟨candidate, mem_of_find?_eq_some hfind, by simpa using haction, ?_⟩
    simp only [routeGeneral, hfind, some_or, map_some]
  | none =>
    refine .inr ⟨?_, ?_⟩
    · intro candidate hmem
      have haction := find?_eq_none.mp hfind candidate hmem
      simpa using haction
    · simp only [routeGeneral, hfind, none_or]

/-- General moderation allows the subject unless a result keeps it out. -/
theorem isIndexable_routeGeneral :
  ((routeGeneral scanOutcomes policy scannedAt).getD
      (routeClean scanOutcomes policy scannedAt)).isIndexable ↔
    ∀ result ∈ scanOutcomes, result.outcome = .completed → ¬ Objects policy result
  := by
  rcases routeGeneral_cases scanOutcomes policy scannedAt with
    ⟨candidate, hmem, haction, hroute⟩ | ⟨hall, hroute⟩
  · rw [hroute, getD_some, isIndexable_generalVerdict]
    constructor
    · intro h
      exact absurd h haction
    · intro h
      obtain ⟨result, hmem, hcompleted, hobjects⟩ :=
        (exists_candidate_iff scanOutcomes policy).mp ⟨candidate, hmem, haction⟩
      exact absurd hobjects (h result hmem hcompleted)
  · rw [hroute]
    constructor
    · intro _ result hmem hcompleted hobjects
      obtain ⟨candidate, hcandidate, haction⟩ :=
        (exists_candidate_iff scanOutcomes policy).mpr ⟨result, hmem, hcompleted, hobjects⟩
      exact haction (hall candidate hcandidate)
    · intro _
      cases hhead : (generalCandidates scanOutcomes policy).head? with
      | none => rfl
      | some candidate => exact hall candidate (mem_of_head? hhead)

/-- Advice comes with an allowed subject. -/
theorem advisoryLabels_routeGeneral :
  ((routeGeneral scanOutcomes policy scannedAt).getD
      (routeClean scanOutcomes policy scannedAt)).advisoryLabels ≠ [] →
    ((routeGeneral scanOutcomes policy scannedAt).getD
      (routeClean scanOutcomes policy scannedAt)).isIndexable
  := by
  cases hroute : routeGeneral scanOutcomes policy scannedAt with
  | none =>
    intro h
    exact absurd rfl h
  | some verdict =>
    obtain ⟨candidate, _, rfl⟩ := map_eq_some_iff.mp hroute
    intro h
    rw [getD_some, isIndexable_generalVerdict]
    by_contra haction
    apply h
    simp [generalVerdict, haction]

/-! ### What is allowed -/

/-- A result that does not keep the subject out. -/
structure ResultClear (policy : SafetyPolicy) (result : ProviderScanResult) : Prop where
  unknown : ¬ result.knownHashMatch
  scanned : ¬ result.outcome.isFailClosed
  noTest : result.outcome = .completed → ∀ label ∈ result.labels, label.category ≠ .providerTest
  noCriticalLabel : result.outcome = .completed →
    ∀ label ∈ result.labels, ¬ label.category.isCriticalSafety
  noCriticalScore : result.outcome = .completed →
    ¬ (result.capability.isCriticalSafety ∧ result.score.isSome)
  noObjection : result.outcome = .completed → ¬ Objects policy result

/-- Results that allow the subject. -/
structure Cleared (scanOutcomes : List ProviderScanResult) (policy : SafetyPolicy) : Prop where
  scanned : scanOutcomes ≠ []
  clear : ∀ result ∈ scanOutcomes, ResultClear policy result
  knownCsam : policy.requireKnownCsam →
    ∃ result ∈ scanOutcomes, result.capability = .knownCsamHashMatch

theorem not_isCriticalDetection_iff :
  ¬ isCriticalDetection result ↔
    (∀ label ∈ result.labels, ¬ label.category.isCriticalSafety) ∧
    ¬ (result.capability.isCriticalSafety ∧ result.score.isSome)
  := by
  unfold isCriticalDetection
  rw [Bool.or_eq_true, Bool.and_eq_true, List.any_eq_true, not_or, and_comm]
  push Not
  exact Iff.rfl

theorem routeUnscanned_eq_none :
  routeUnscanned scanOutcomes policy scannedAt = none ↔ scanOutcomes ≠ []
  := by
  simp [routeUnscanned]

theorem routeKnownHash_eq_none :
  routeKnownHash scanOutcomes policy scannedAt = none ↔
    ∀ result ∈ scanOutcomes, ¬ result.knownHashMatch
  := by
  rw [routeKnownHash, map_eq_none_iff, find?_eq_none]

theorem routeProviderTest_eq_none :
  routeProviderTest scanOutcomes policy scannedAt = none ↔
    ∀ result ∈ scanOutcomes, result.outcome = .completed →
      ∀ label ∈ result.labels, label.category ≠ .providerTest
  := by
  rw [routeProviderTest, map_eq_none_iff, find?_eq_none]
  simp

theorem routeFailed_eq_none :
  routeFailed scanOutcomes policy scannedAt = none ↔
    ∀ result ∈ scanOutcomes, ¬ result.outcome.isFailClosed
  := by
  rw [routeFailed, map_eq_none_iff, find?_eq_none]

theorem routeCritical_eq_none :
  routeCritical scanOutcomes policy scannedAt = none ↔
    ∀ result ∈ scanOutcomes, result.outcome = .completed → ¬ isCriticalDetection result
  := by
  rw [routeCritical, map_eq_none_iff, find?_eq_none]
  simp

theorem routeMissingKnownCsam_eq_none :
  routeMissingKnownCsam scanOutcomes policy scannedAt = none ↔
    (policy.requireKnownCsam → ∃ result ∈ scanOutcomes, result.capability = .knownCsamHashMatch)
  := by
  simp [routeMissingKnownCsam, hasKnownCsamScanResult]

theorem routeSuspected_eq_none
    (h : ∀ result ∈ scanOutcomes, result.outcome = .completed → ¬ isCriticalDetection result) :
  routeSuspected scanOutcomes policy scannedAt = none
  := by
  have hcritical : (scanOutcomes.filter fun result =>
      result.outcome = .completed && isCriticalDetection result) = [] := by
    rw [filter_eq_nil_iff]
    intro result hmem hresult
    rw [Bool.and_eq_true, decide_eq_true_iff] at hresult
    exact h result hmem hresult.1 hresult.2
  simp only [routeSuspected, hcritical, find?_nil, map_none]

theorem isIndexable_route :
  (route scanOutcomes policy scannedAt).isIndexable ↔ Cleared scanOutcomes policy
  := by
  unfold route
  rw [isIndexable_or (holdsBack_routeUnscanned _ _ _),
    isIndexable_or (holdsBack_routeKnownHash _ _ _),
    isIndexable_or (holdsBack_routeProviderTest _ _ _),
    isIndexable_or (holdsBack_routeSuspected _ _ _),
    isIndexable_or (holdsBack_routeFailed _ _ _),
    isIndexable_or (holdsBack_routeCritical _ _ _),
    isIndexable_or (holdsBack_routeMissingKnownCsam _ _ _), isIndexable_routeGeneral,
    routeUnscanned_eq_none, routeKnownHash_eq_none, routeProviderTest_eq_none,
    routeFailed_eq_none, routeCritical_eq_none, routeMissingKnownCsam_eq_none]
  constructor
  · rintro ⟨hscanned, hunknown, htest, _, hfailed, hcritical, hknownCsam, hobjects⟩
    refine ⟨hscanned, fun result hmem => ?_, hknownCsam⟩
    have hresult := fun hcompleted =>
      not_isCriticalDetection_iff.mp (hcritical result hmem hcompleted)
    exact ⟨hunknown result hmem, hfailed result hmem, htest result hmem,
      fun hcompleted => (hresult hcompleted).1, fun hcompleted => (hresult hcompleted).2,
      hobjects result hmem⟩
  · intro h
    have hcritical : ∀ result ∈ scanOutcomes, result.outcome = .completed →
        ¬ isCriticalDetection result := by
      intro result hmem hcompleted
      have hclear := h.clear result hmem
      exact not_isCriticalDetection_iff.mpr
        ⟨hclear.noCriticalLabel hcompleted, hclear.noCriticalScore hcompleted⟩
    exact ⟨h.scanned, fun result hmem => (h.clear result hmem).unknown,
      fun result hmem => (h.clear result hmem).noTest,
      routeSuspected_eq_none scanOutcomes policy scannedAt hcritical,
      fun result hmem => (h.clear result hmem).scanned, hcritical, h.knownCsam,
      fun result hmem => (h.clear result hmem).noObjection⟩

theorem advisoryLabels_route :
  (route scanOutcomes policy scannedAt).advisoryLabels ≠ [] →
    (route scanOutcomes policy scannedAt).isIndexable
  := by
  apply advisoryLabels_or (holdsBack_routeUnscanned _ _ _)
  apply advisoryLabels_or (holdsBack_routeKnownHash _ _ _)
  apply advisoryLabels_or (holdsBack_routeProviderTest _ _ _)
  apply advisoryLabels_or (holdsBack_routeSuspected _ _ _)
  apply advisoryLabels_or (holdsBack_routeFailed _ _ _)
  apply advisoryLabels_or (holdsBack_routeCritical _ _ _)
  apply advisoryLabels_or (holdsBack_routeMissingKnownCsam _ _ _)
  exact advisoryLabels_routeGeneral scanOutcomes policy scannedAt

variable {scanOutcomes policy scannedAt}

/-! ### What does not matter -/

theorem Cleared.perm {scanOutcomes' : List ProviderScanResult}
    (hperm : scanOutcomes.Perm scanOutcomes') (h : Cleared scanOutcomes policy) :
  Cleared scanOutcomes' policy
  := by
  refine ⟨?_, fun result hmem => h.clear result (hperm.mem_iff.mpr hmem), ?_⟩
  · intro hnil
    subst hnil
    exact h.scanned hperm.eq_nil
  · intro hrequired
    obtain ⟨result, hmem, hresult⟩ := h.knownCsam hrequired
    exact ⟨result, hperm.mem_iff.mp hmem, hresult⟩

/-- A policy that has no higher threshold, and no action that allows more. Whether a scan for
known material is required may differ. -/
structure Stricter (policy' policy : SafetyPolicy) : Prop where
  suspectedThreshold : policy'.suspectedThreshold ≤ policy.suspectedThreshold
  onScanError : policy'.onScanError.allowsIndexing → policy.onScanError.allowsIndexing
  suspectedCriticalAction : policy'.suspectedCriticalAction.allowsIndexing →
    policy.suspectedCriticalAction.allowsIndexing
  generalAction : policy'.generalAction.toSafetyAction.allowsIndexing →
    policy.generalAction.toSafetyAction.allowsIndexing
  onSpam : policy'.onSpam.allowsIndexing → policy.onSpam.allowsIndexing
  onMalwarePhishing : policy'.onMalwarePhishing.allowsIndexing →
    policy.onMalwarePhishing.allowsIndexing

theorem Stricter.allowsIndexing {policy' : SafetyPolicy} (h : Stricter policy' policy)
    (category : SafetyCategory)
    (hallows : (Kukuri.generalAction policy' category).allowsIndexing) :
  (Kukuri.generalAction policy category).allowsIndexing
  := by
  cases category with
  | spam => exact h.onSpam hallows
  | malware | phishing => exact h.onMalwarePhishing hallows
  | nsfw | objectionable => exact h.generalAction hallows
  | csam | cse | grooming | providerTest => cases hallows

theorem Stricter.objects {policy' : SafetyPolicy} (h : Stricter policy' policy)
    (hobjects : Objects policy result) :
  Objects policy' result
  := by
  obtain ⟨⟨label, hmem, hcritical, haction⟩, hcounts⟩ := hobjects
  refine ⟨⟨label, hmem, hcritical, fun hallows => haction (h.allowsIndexing _ hallows)⟩, ?_⟩
  rcases hcounts with hflags | hnone | ⟨score, hscore, hle⟩
  · exact .inl hflags
  · exact .inr (.inl hnone)
  · exact .inr (.inr ⟨score, hscore, Nat.le_trans h.suspectedThreshold hle⟩)

theorem ResultClear.of_stricter {policy' : SafetyPolicy} (h : Stricter policy' policy)
    (hclear : ResultClear policy' result) :
  ResultClear policy result
  := { hclear with
    noObjection := fun hcompleted hobjects => hclear.noObjection hcompleted (h.objects hobjects) }

/-- A subject is allowed exactly if the results clear it. So it does not matter in which order
they are. If one is a scan for known material, neither a further result nor a stricter policy
allows more. Only what is allowed has advice. -/
theorem route_failsClosed (scanOutcomes : List ProviderScanResult) (policy : SafetyPolicy)
    (scannedAt : String) :
  ((route scanOutcomes policy scannedAt).isIndexable ↔ Cleared scanOutcomes policy) ∧
  (∀ scanOutcomes', scanOutcomes.Perm scanOutcomes' →
    ((route scanOutcomes' policy scannedAt).isIndexable ↔
      (route scanOutcomes policy scannedAt).isIndexable)) ∧
  ((∃ result ∈ scanOutcomes, result.capability = .knownCsamHashMatch) →
    ∀ scanOutcomes' policy', scanOutcomes ⊆ scanOutcomes' → Stricter policy' policy →
      (route scanOutcomes' policy' scannedAt).isIndexable →
      (route scanOutcomes policy scannedAt).isIndexable) ∧
  ((route scanOutcomes policy scannedAt).advisoryLabels ≠ [] →
    (route scanOutcomes policy scannedAt).isIndexable)
  := by
  refine ⟨isIndexable_route .., ?_, ?_, advisoryLabels_route _ _ _⟩
  · intro scanOutcomes' hperm
    rw [isIndexable_route, isIndexable_route]
    exact ⟨Cleared.perm hperm.symm, Cleared.perm hperm⟩
  · intro hknown scanOutcomes' policy' hsubset hstricter
    rw [isIndexable_route, isIndexable_route]
    intro h
    have hscanned : scanOutcomes ≠ [] := by
      obtain ⟨result, hmem, _⟩ := hknown
      exact ne_nil_of_mem hmem
    exact ⟨hscanned, fun result hmem => (h.clear result (hsubset hmem)).of_stricter hstricter,
      fun _ => hknown⟩

end

namespace SafetySample

def unmatched : ProviderScanResult :=
  ⟨.scoreThreshold, "hashes", .knownCsamHashMatch, .noKnownMatch, false, none, []⟩

def adult : ProviderScanResult :=
  ⟨.scoreThreshold, "images", .generalMediaModeration, .completed, false, some 90,
    [⟨.nsfw, some 90, none⟩]⟩

end SafetySample

open SafetySample in
theorem route_failsClosed_adult :
  Cleared [unmatched] SafetyPolicy.publicNodeDefault ∧
    (route [unmatched, adult] SafetyPolicy.publicNodeDefault "now").advisoryLabels ≠ []
  := by
  have hallowed : (route [unmatched, adult] SafetyPolicy.publicNodeDefault "now").isIndexable := by
    decide
  have hstricter : Stricter SafetyPolicy.publicNodeDefault SafetyPolicy.publicNodeDefault :=
    ⟨Nat.le_refl _, id, id, id, id, id⟩
  obtain ⟨hcleared, _, hmore, _⟩ :=
    route_failsClosed [unmatched] SafetyPolicy.publicNodeDefault "now"
  refine ⟨hcleared.mp (hmore ⟨unmatched, .head _, rfl⟩ _ _ ?_ hstricter hallowed), by decide⟩
  exact subset_append_left [unmatched] [adult]

end Kukuri
