import Kukuri.Metaverse.SessionIntegrity

/-!
# Safety of transitions

Somebody who comes from another instance asks for a place, gets the ticket of a reservation and
presents it on arrival. Requests, arrivals and aborts may be repeated and may come in any order,
and reservations expire. The main result, `transitions_safe`, is about all runs of a session:

* the ticket of the current reservation is the only one that lets anybody in;
* between two arrivals with a ticket the ticket has been issued again, and so it has after an
  abort or after it has expired;
* an arrival or a request that is repeated gets the same answer.
-/

namespace Kukuri

open Result Command Option Std.ExtTreeMap BTreeMap

variable {World Handle : Type} {physics : Physics World Handle}
variable {primitives : SessionPrimitives} {session : DomeSession}
variable {s t : DomeSessionState World Handle} {e : SessionEvent World Handle}
variable {ticket : DomeTransitionAdmissionTicket}

/-! ### Tickets -/

/-- The event makes a reservation with the ticket. -/
def Issues (e : SessionEvent World Handle) (ticket : DomeTransitionAdmissionTicket) : Prop :=
  (∃ access, e.op.call = .prepareTransitionAdmission ticket.request access) ∧
    e.ret = .ok (.ticket ticket) ∧
    knownTicket (expireTransitionReservations e.op.nowMillis e.before)
      ticket.request.transitionId = none

/-- The event leaves the ticket of an arrival on the table. -/
structure Keeps (e : SessionEvent World Handle) (ticket : DomeTransitionAdmissionTicket) :
    Prop where
  stays : ¬ Departs e ticket.request.participantPubkey
  access : ¬ Revokes e ticket
  /-- The participant does not arrive again with another ticket. -/
  single : ∀ ticket', Redeems e ticket' →
    ticket'.request.participantPubkey = ticket.request.participantPubkey → ticket' = ticket

/-- The event leaves the ticket on the table, whether it is reserved or committed. -/
structure Upholds (e : SessionEvent World Handle) (ticket : DomeTransitionAdmissionTicket) : Prop
    extends Keeps e ticket where
  alive : ¬ Ends e ticket.request.transitionId ticket
  connected : ¬ Drains e ticket

/-- The tickets of a session are its own, under the identifiers of their transitions. -/
def Native (session : DomeSession) (s : DomeSessionState World Handle) : Prop :=
  ∀ (id : String) (ticket : DomeTransitionAdmissionTicket),
    s.transitionReservations[id]? = some ticket ∨ s.committedTransitions[id]? = some ticket →
    ticket.request.transitionId = id ∧ ticket.targetLeaseEpoch = session.lease.epoch ∧
      ticket.targetSessionId = session.sessionId

theorem Native.of_subset (hs : Native session s)
    (hreservations : ∀ (id : String) (ticket : DomeTransitionAdmissionTicket),
      t.transitionReservations[id]? = some ticket → s.transitionReservations[id]? = some ticket)
    (hcommitted : ∀ (id : String) (ticket : DomeTransitionAdmissionTicket),
      t.committedTransitions[id]? = some ticket → s.committedTransitions[id]? = some ticket) :
  Native session t
  := by
  intro id ticket hticket
  apply hs id ticket
  rcases hticket with hticket | hticket
  · exact .inl (hreservations id ticket hticket)
  · exact .inr (hcommitted id ticket hticket)

theorem Native.move (hs : Native session s) (hmove : Move physics session e s t) :
  Native session t
  := by
  cases hmove with
  | settle h =>
    apply hs.of_subset
    · intro id ticket hticket
      rw [← h.reservations]
      apply hticket
    · intro id ticket hticket
      rw [← h.committed]
      apply hticket
  | withdraw hreservations hcommitted hexits hreserved hremembered =>
    apply hs.of_subset hreservations hcommitted
  | @reserve request access hcall hreservable =>
    intro id ticket hticket
    rcases hticket with hticket | hticket
    · rcases getElem?_of_insert hticket with ⟨rfl, rfl⟩ | ⟨-, hticket⟩
      · exact ⟨rfl, rfl, rfl⟩
      · apply hs id ticket (.inl hticket)
    · apply hs id ticket (.inr hticket)
  | enter hadmits hafter hparticipants hbodies hafterBodies hentered =>
    obtain ⟨world, bodiesById, high, -, rfl⟩ := hentered
    apply hs
  | @redeem redeemed hpresent hredeems hreserved hfresh =>
    intro id ticket hticket
    rcases hticket with hticket | hticket
    · apply hs id ticket (.inl (getElem?_of_erase hticket))
    · rcases getElem?_of_insert hticket with ⟨rfl, rfl⟩ | ⟨-, hticket⟩
      · apply hs _ _ (.inl hreserved)
      · apply hs id ticket (.inr (getElem?_of_filter hticket).1)
  | @leave id hdeparts hretires =>
    obtain ⟨world, hevict⟩ := evictParticipant_eq physics session id s
    rw [hevict]
    apply hs.of_subset
    · intro id ticket hticket
      apply (getElem?_of_filter hticket).1
    · intro id ticket hticket
      apply (getElem?_of_filter hticket).1
  | _ => apply hs

/-! ### Where tickets come from and go to -/

theorem of_expired {nowMillis : ℤ} {id : String}
    (h : (expireTransitionReservations nowMillis s).transitionReservations[id]? = some ticket) :
  s.transitionReservations[id]? = some ticket ∧ nowMillis < ticket.expiresAt
  := by
  obtain ⟨hticket, halive⟩ := getElem?_of_filter h
  exact ⟨hticket, of_decide_eq_true halive⟩

/-- Only a request makes a reservation. -/
theorem reservation_of_move {id : String}
    (hcall : ∀ request access, e.op.call ≠ .prepareTransitionAdmission request access)
    (hmove : Move physics session e s t) (ht : t.transitionReservations[id]? = some ticket) :
  s.transitionReservations[id]? = some ticket
  := by
  cases hmove with
  | settle h =>
    rw [← h.reservations]
    apply ht
  | withdraw hreservations => apply hreservations id ticket ht
  | reserve hprepare => exact absurd hprepare (hcall _ _)
  | enter hadmits hafter hparticipants hbodies hafterBodies hentered =>
    obtain ⟨world, bodiesById, high, -, rfl⟩ := hentered
    apply ht
  | redeem => apply getElem?_of_erase ht
  | @leave id' hdeparts hretires =>
    obtain ⟨world, hevict⟩ := evictParticipant_eq physics session id' s
    rw [hevict] at ht
    apply (getElem?_of_filter ht).1
  | _ => apply ht

/-- The ticket of an arrival stays on the table. -/
theorem committed_of_move (hkeeps : Keeps e ticket) (hmove : Move physics session e s t)
    (hs : s.committedTransitions[ticket.request.transitionId]? = some ticket) :
  t.committedTransitions[ticket.request.transitionId]? = some ticket
  := by
  cases hmove with
  | settle h =>
    rw [h.committed]
    apply hs
  | withdraw hreservations hcommitted hexits hreserved hremembered =>
    apply (hremembered _ ticket hs).resolve_right hkeeps.access
  | enter hadmits hafter hparticipants hbodies hafterBodies hentered =>
    obtain ⟨world, bodiesById, high, -, rfl⟩ := hentered
    apply hs
  | @redeem redeemed hpresent hredeems hreserved hfresh =>
    -- Another ticket is redeemed: this one is not fresh.
    have hid : redeemed.request.transitionId ≠ ticket.request.transitionId := by
      intro hid
      rw [hid, hs] at hfresh
      cases hfresh
    have hother : ticket.request.participantPubkey ≠ redeemed.request.participantPubkey := by
      intro hsame
      apply hid
      rw [hkeeps.single redeemed hredeems hsame.symm]
    rw [redeem, getElem?_insert_of_ne hid]
    apply getElem?_filter_of_pos hs
    apply decide_eq_true hother
  | @leave id hdeparts hretires =>
    obtain ⟨world, hevict⟩ := evictParticipant_eq physics session id s
    rw [hevict]
    apply getElem?_filter_of_pos hs
    apply decide_eq_true
    rintro rfl
    apply hkeeps.stays hdeparts
  | _ => apply hs

/-- A ticket stays on the table when it is redeemed. -/
theorem known_of_move (hupholds : Upholds e ticket) (hmove : Move physics session e s t)
    (hs : knownTicket s ticket.request.transitionId = some ticket) :
  knownTicket t ticket.request.transitionId = some ticket
  := by
  rcases or_eq_some_iff.mp hs with hs | ⟨hnone, hs⟩
  · apply or_eq_some_iff.mpr
    exact .inl (committed_of_move hupholds.toKeeps hmove hs)
  apply or_eq_some_iff.mpr
  cases hmove with
  | settle h =>
    rw [h.reservations, h.committed]
    exact .inr ⟨hnone, hs⟩
  | @withdraw transitionReservations committedTransitions _ hreservations hcommitted hexits
      hreserved hremembered =>
    right
    constructor
    · cases hticket : committedTransitions[ticket.request.transitionId]? with
      | none => rfl
      | some ticket' =>
        rw [hcommitted _ _ hticket] at hnone
        cases hnone
    · rcases hreserved _ ticket hs with hkept | hends | hrevokes | hdrains
      · apply hkept
      · exact absurd hends hupholds.alive
      · exact absurd hrevokes hupholds.access
      · exact absurd hdrains hupholds.connected
  | @reserve request access hcall hreservable =>
    right
    have hid : request.transitionId ≠ ticket.request.transitionId := by
      intro hid
      have hunknown := hreservable.unknown
      rw [hid, knownTicket, hnone, hs] at hunknown
      cases hunknown
    exact ⟨hnone, (getElem?_insert_of_ne hid).trans hs⟩
  | enter hadmits hafter hparticipants hbodies hafterBodies hentered =>
    obtain ⟨world, bodiesById, high, -, rfl⟩ := hentered
    exact .inr ⟨hnone, hs⟩
  | @redeem redeemed hpresent hredeems hreserved hfresh =>
    by_cases hid : redeemed.request.transitionId = ticket.request.transitionId
    · left
      rw [hid, hs] at hreserved
      cases hreserved
      rw [redeem, getElem?_insert_self]
    · right
      rw [redeem, getElem?_insert_of_ne hid, getElem?_erase_of_ne hid]
      refine ⟨?_, hs⟩
      rw [getElem?_filter', hnone]
      rfl
  | @leave id hdeparts hretires =>
    right
    obtain ⟨world, hevict⟩ := evictParticipant_eq physics session id s
    rw [hevict]
    constructor
    · rw [getElem?_filter', hnone]
      rfl
    · apply getElem?_filter_of_pos hs
      apply decide_eq_true
      rintro rfl
      apply hupholds.stays hdeparts
  | _ => exact .inr ⟨hnone, hs⟩

/-! ### Calls -/

section

variable (h : SessionStep physics primitives session e.before e.op e.ret e.after)
include h

theorem performed {call : SessionCall} (hcall : e.op.call = call) :
  TimedCall.perform physics primitives session ⟨e.op.nowMillis, call⟩ e.before
    = (e.ret, e.after)
  := by
  rw [← hcall]
  apply h

/-- A commit lets somebody in only with the ticket of a reservation that is not over. -/
theorem reserved_of_commit {position rotation : Vec3}
    (hcall : e.op.call = .commitTransitionAdmission ticket position rotation)
    (henters : Redeems e ticket ∨ ticket.request.participantPubkey ∉ e.before.participants ∧
      ticket.request.participantPubkey ∈ e.after.participants) :
  e.before.transitionReservations[ticket.request.transitionId]? = some ticket ∧
    e.op.nowMillis < ticket.expiresAt
  := by
  obtain ⟨r, hcommit, hreply⟩ := of_bind_pure (performed h hcall)
  obtain ⟨hafter, hcommitted⟩ | ⟨-, -, hreserved, -⟩ := commitTransitionAdmission_eq hcommit
  · exfalso
    rcases henters with ⟨-, hok, hfresh⟩ | ⟨habsent, hpresent⟩
    · rw [hok] at hreply
      cases r with
      | error error => cases hreply
      | ok _ =>
        rw [hcommitted rfl] at hfresh
        cases hfresh
    · rw [hafter] at hpresent
      apply habsent hpresent
  · apply of_expired hreserved

/-- A ticket that lets somebody in is on the table of arrivals. -/
theorem committed_of_redeems (hredeems : Redeems e ticket) :
  e.after.committedTransitions[ticket.request.transitionId]? = some ticket ∧
    e.after.transitionReservations[ticket.request.transitionId]? = none
  := by
  obtain ⟨⟨position, rotation, hcall⟩, hok, hfresh⟩ := hredeems
  obtain ⟨r, hcommit, hreply⟩ := of_bind_pure (performed h hcall)
  obtain rfl : r = .ok () := by
    rw [hok] at hreply
    cases r with
    | error error => cases hreply
    | ok _ => rfl
  obtain ⟨-, hcommitted⟩ | ⟨-, -, -, hredeem⟩ := commitTransitionAdmission_eq hcommit
  · rw [hcommitted rfl] at hfresh
    cases hfresh
  · obtain ⟨s', -, world, transitionEntries, high, -, hafter⟩ := redeemTransition_eq_ok hredeem
    rw [hafter]
    exact ⟨getElem?_insert_self, getElem?_erase_self⟩

end

/-- A reservation that is there after the old ones have been dropped is not over, and ends by an
abort only. -/
theorem kept_of_expired (hredeems : ¬ Redeems e ticket)
    (hexpired : (expireTransitionReservations e.op.nowMillis e.before).transitionReservations[
      ticket.request.transitionId]? = some ticket)
    (habort : ∀ participantPubkey,
      e.op.call = .abortTransitionAdmission ticket.request.transitionId participantPubkey →
      e.ret = .ok .done → ticket.request.transitionId ∈ e.before.committedTransitions) :
  e.before.transitionReservations[ticket.request.transitionId]? = some ticket ∧
    ¬ Redeems e ticket ∧ ¬ Ends e ticket.request.transitionId ticket
  := by
  obtain ⟨hbefore, halive⟩ := of_expired hexpired
  refine ⟨hbefore, hredeems, ?_⟩
  rintro (⟨-, hlate⟩ | ⟨hcall, hok, hopen⟩)
  · apply absurd halive (not_lt.mpr hlate)
  · apply hopen (habort _ hcall hok)

/-- A reservation has been made by the event, or it was there before and the event has neither
redeemed nor ended it. -/
theorem reservation_of_step
    (h : SessionStep physics primitives session e.before e.op e.ret e.after)
    (hticket : e.after.transitionReservations[ticket.request.transitionId]? = some ticket) :
  (Issues e ticket ∧ ticket = newTicket session ticket.request e.op.nowMillis) ∨
    e.before.transitionReservations[ticket.request.transitionId]? = some ticket ∧
      ¬ Redeems e ticket ∧ ¬ Ends e ticket.request.transitionId ticket
  := by
  have hnotRedeems : ¬ Redeems e ticket := by
    intro hredeems
    rw [(committed_of_redeems h hredeems).2] at hticket
    cases hticket
  cases hcall : e.op.call with
  | prepareTransitionAdmission request access =>
    obtain ⟨r, hprepare, hreply⟩ := of_bind_pure (performed h hcall)
    have hkept hexpired := kept_of_expired hnotRedeems hexpired fun _ habort =>
      nomatch hcall.symm.trans habort
    cases r with
    | error error =>
      right
      rw [prepareTransitionAdmission_eq_error hprepare] at hticket
      apply hkept hticket
    | ok answer =>
      obtain ⟨-, ⟨-, -, hafter⟩ | ⟨hreservable, rfl, hafter⟩⟩ :=
        prepareTransitionAdmission_eq_ok hprepare
      · right
        rw [hafter] at hticket
        apply hkept hticket
      · rw [hafter] at hticket
        rcases getElem?_of_insert hticket with ⟨-, rfl⟩ | ⟨-, hticket⟩
        · exact .inl ⟨⟨⟨access, hcall⟩, hreply, hreservable.unknown⟩, rfl⟩
        · exact .inr (hkept hticket)
  | commitTransitionAdmission other position rotation =>
    right
    obtain ⟨r, hcommit, hreply⟩ := of_bind_pure (performed h hcall)
    refine kept_of_expired hnotRedeems ?_ fun _ habort => nomatch hcall.symm.trans habort
    obtain ⟨hafter, -⟩ | ⟨-, -, -, hredeem⟩ := commitTransitionAdmission_eq hcommit
    · rw [hafter] at hticket
      apply hticket
    cases r with
    | error error =>
      rcases redeemTransition_eq_error hredeem with hafter | ⟨_, _, _, -, hafter⟩
      · rw [hafter] at hticket
        apply hticket
      · rw [hafter] at hticket
        apply hticket
    | ok _ =>
      obtain ⟨s', ⟨_, _, _, -, rfl⟩, _, _, _, -, hafter⟩ := redeemTransition_eq_ok hredeem
      rw [hafter] at hticket
      apply getElem?_of_erase hticket
  | abortTransitionAdmission transitionId participantPubkey =>
    right
    obtain ⟨r, habort, hreply⟩ := of_bind_pure (performed h hcall)
    obtain ⟨hafter, hcommitted⟩ | ⟨-, hopen, hafter⟩ := abortTransitionAdmission_eq habort
    · rw [hafter] at hticket
      apply kept_of_expired hnotRedeems hticket
      intro _ hcall' hok
      rw [hcall] at hcall'
      obtain ⟨rfl, rfl⟩ := SessionCall.abortTransitionAdmission.inj hcall'
      rw [hok] at hreply
      cases r with
      | error error => cases hreply
      | ok _ => apply hcommitted rfl
    · rw [hafter] at hticket
      have hid : transitionId ≠ ticket.request.transitionId := by
        rintro rfl
        rw [getElem?_erase_self] at hticket
        cases hticket
      rw [getElem?_erase_of_ne hid] at hticket
      apply kept_of_expired hnotRedeems hticket
      intro _ hcall'
      rw [hcall] at hcall'
      exact absurd (SessionCall.abortTransitionAdmission.inj hcall').1 hid
  | _ =>
    right
    have hbefore : e.before.transitionReservations[ticket.request.transitionId]? = some ticket := by
      refine (moves_of_step h).invariant (P := fun s =>
        s.transitionReservations[ticket.request.transitionId]? = some ticket →
        e.before.transitionReservations[ticket.request.transitionId]? = some ticket) id ?_ hticket
      intro s t hs hmove ht
      apply hs
      apply reservation_of_move _ hmove ht
      intro request access hprepare
      rw [hcall] at hprepare
      cases hprepare
    refine ⟨hbefore, hnotRedeems, ?_⟩
    rintro (⟨harrives, -⟩ | ⟨habort, -, -⟩)
    · rw [hcall] at harrives
      cases harrives
    · rw [hcall] at habort
      cases habort

/-! ### Runs -/

/-- The ticket has been issued in the history, and neither redeemed nor ended since. -/
def IssuedIn (session : DomeSession) (h : List (SessionEvent World Handle))
    (ticket : DomeTransitionAdmissionTicket) : Prop :=
  ∃ h₁ e h₂, h = h₁ ++ e :: h₂ ∧ Issues e ticket ∧
    ticket = newTicket session ticket.request e.op.nowMillis ∧
    ∀ e' ∈ h₂, ¬ Redeems e' ticket ∧ ¬ Ends e' ticket.request.transitionId ticket

theorem IssuedIn.snoc {h : List (SessionEvent World Handle)} (hissued : IssuedIn session h ticket)
    (hredeems : ¬ Redeems e ticket) (hends : ¬ Ends e ticket.request.transitionId ticket) :
  IssuedIn session (h ++ [e]) ticket
  := by
  obtain ⟨h₁, e₁, h₂, rfl, hissues, hnew, hsince⟩ := hissued
  refine ⟨h₁, e₁, h₂ ++ [e], by simp, hissues, hnew, ?_⟩
  exact List.forall_mem_append.mpr ⟨hsince, List.forall_mem_singleton.mpr ⟨hredeems, hends⟩⟩

section

variable {s₀ : DomeSessionState World Handle} {h : List (SessionEvent World Handle)}

section

variable (htrace : Trace (SessionStep physics primitives session) s₀ h s)
include htrace

/-- Every reservation has been issued in the run. -/
theorem issuedIn_of_reserved (hempty : s₀.transitionReservations = ∅)
    (hticket : s.transitionReservations[ticket.request.transitionId]? = some ticket) :
  IssuedIn session h ticket
  := by
  refine htrace.history_invariant (P := fun h s =>
    s.transitionReservations[ticket.request.transitionId]? = some ticket →
      IssuedIn session h ticket) ?_ ?_ hticket
  · intro hticket
    rw [hempty] at hticket
    simp at hticket
  · intro h s op ret s' _ ih hstep hticket
    obtain ⟨hissues, hnew⟩ | ⟨hbefore, hredeems, hends⟩ :=
      reservation_of_step (e := ⟨s, op, ret, s'⟩) hstep hticket
    · exact ⟨h, _, [], rfl, hissues, hnew, by simp⟩
    · apply (ih hbefore).snoc hredeems hends

theorem native_of_trace (hs₀ : Native session s₀) :
  Native session s
  := by
  apply htrace.invariant hs₀
  intro s timed result s' hs hstep
  apply (moves_of_step hstep).invariant hs
  intro s t hs hmove
  apply hs.move hmove

theorem committed_of_trace (hkeeps : ∀ e ∈ h, Keeps e ticket)
    (hs₀ : s₀.committedTransitions[ticket.request.transitionId]? = some ticket) :
  s.committedTransitions[ticket.request.transitionId]? = some ticket
  := by
  apply htrace.invariant_of_forall (P := fun s =>
    s.committedTransitions[ticket.request.transitionId]? = some ticket) hkeeps hs₀
  intro s op ret s' hs hstep hkeeps
  apply (moves_of_step hstep).invariant (P := fun s =>
    s.committedTransitions[ticket.request.transitionId]? = some ticket) hs
  intro s t hs hmove
  apply committed_of_move hkeeps hmove hs

theorem known_of_trace (hupholds : ∀ e ∈ h, Upholds e ticket)
    (hs₀ : knownTicket s₀ ticket.request.transitionId = some ticket) :
  knownTicket s ticket.request.transitionId = some ticket
  := by
  apply htrace.invariant_of_forall (P := fun s =>
    knownTicket s ticket.request.transitionId = some ticket) hupholds hs₀
  intro s op ret s' hs hstep hupholds
  apply (moves_of_step hstep).invariant (P := fun s =>
    knownTicket s ticket.request.transitionId = some ticket) hs
  intro s t hs hmove
  apply known_of_move hupholds hmove hs

end

/-- The ticket that answers a request is on the table. -/
theorem known_of_prepare {request : DomeTransitionAdmissionRequest}
    {access : DomeTransitionAccessDecision}
    (h : SessionStep physics primitives session e.before e.op e.ret e.after)
    (hcall : e.op.call = .prepareTransitionAdmission request access)
    (hok : e.ret = .ok (.ticket ticket)) :
  Current session request ∧ ticket.request = request ∧
    knownTicket e.after request.transitionId = some ticket
  := by
  obtain ⟨r, hprepare, hreply⟩ := of_bind_pure (performed h hcall)
  rw [hok] at hreply
  cases r with
  | error error => cases hreply
  | ok answer =>
    obtain rfl := SessionReply.ticket.inj (Except.ok.inj hreply)
    obtain ⟨hcurrent, ⟨hknown, hrequest, hafter⟩ | ⟨hreservable, hnew, hafter⟩⟩ :=
      prepareTransitionAdmission_eq_ok hprepare
    · rw [hafter]
      exact ⟨hcurrent, hrequest, hknown⟩
    · refine ⟨hcurrent, by rw [hnew]; rfl, ?_⟩
      rw [hafter]
      apply or_eq_some_iff.mpr
      right
      refine ⟨?_, getElem?_insert_self⟩
      apply (or_eq_none_iff.mp hreservable.unknown).1

/-- A request whose ticket is on the table is answered with it. -/
theorem ret_of_prepare {request : DomeTransitionAdmissionRequest}
    (h : SessionStep physics primitives session e.before e.op e.ret e.after)
    (hcall : e.op.call = .prepareTransitionAdmission request .allowed)
    (hcurrent : Current session request) (hrequest : ticket.request = request)
    (hknown : knownTicket e.before request.transitionId = some ticket)
    (halive : e.op.nowMillis < ticket.expiresAt) :
  e.ret = .ok (.ticket ticket)
  := by
  have hknown' : knownTicket (expireTransitionReservations e.op.nowMillis e.before)
      request.transitionId = some ticket := by
    apply or_eq_some_iff.mpr
    rcases or_eq_some_iff.mp hknown with hcommitted | ⟨hnone, hreserved⟩
    · exact .inl hcommitted
    · refine .inr ⟨hnone, ?_⟩
      apply getElem?_filter_of_pos hreserved
      apply decide_eq_true halive
  obtain ⟨r, hprepare, hreply⟩ := of_bind_pure (performed h hcall)
  rw [prepareTransitionAdmission_of_known hcurrent hknown' hrequest] at hprepare
  rw [hreply, ← (Prod.mk.inj hprepare).1]
  rfl

end

/-- What holds of the arrivals in a history. -/
structure SafeTransitions (session : DomeSession) (h : List (SessionEvent World Handle)) :
    Prop where
  /-- A commit lets somebody in only with the ticket of the current reservation, which is not
  over. -/
  reserved : ∀ e ∈ h, ∀ ticket position rotation,
    e.op.call = .commitTransitionAdmission ticket position rotation →
    (Redeems e ticket ∨ ticket.request.participantPubkey ∉ e.before.participants ∧
      ticket.request.participantPubkey ∈ e.after.participants) →
    e.before.transitionReservations[ticket.request.transitionId]? = some ticket ∧
      e.op.nowMillis < ticket.expiresAt
  /-- A ticket that lets somebody in has neither been redeemed nor ended since it was issued. -/
  issued : ∀ h₁ e h₂ ticket, h = h₁ ++ e :: h₂ → Redeems e ticket → IssuedIn session h₁ ticket
  /-- A commit that is repeated while its participant stays changes nothing but that
  reservations expire. -/
  repeated : ∀ h₁ e h₂ e' h₃ ticket position rotation, h = h₁ ++ e :: (h₂ ++ e' :: h₃) →
    Redeems e ticket → (∀ e'' ∈ h₂, Keeps e'' ticket) →
    e'.op.call = .commitTransitionAdmission ticket position rotation →
    e'.ret = .ok .done ∧ e'.after = expireTransitionReservations e'.op.nowMillis e'.before
  /-- A request that is repeated before the ticket is over gets the same ticket. -/
  resent : ∀ h₁ e h₂ e' h₃ request access ticket, h = h₁ ++ e :: (h₂ ++ e' :: h₃) →
    e.op.call = .prepareTransitionAdmission request access → e.ret = .ok (.ticket ticket) →
    (∀ e'' ∈ h₂, Upholds e'' ticket) →
    e'.op.call = .prepareTransitionAdmission request .allowed →
    e'.op.nowMillis < ticket.expiresAt → e'.ret = .ok (.ticket ticket)
  /-- An abort changes nothing but reservations. -/
  aborted : ∀ e ∈ h, ∀ transitionId participantPubkey,
    e.op.call = .abortTransitionAdmission transitionId participantPubkey →
    e.after = { e.before with transitionReservations := e.after.transitionReservations }

theorem step_of_mem {s₀ : DomeSessionState World Handle} {h : List (SessionEvent World Handle)}
    (htrace : Trace (SessionStep physics primitives session) s₀ h s) (he : e ∈ h) :
  SessionStep physics primitives session e.before e.op e.ret e.after
  := by
  obtain ⟨h₁, h₂, rfl⟩ := List.append_of_mem he
  apply htrace.split_event.2.1

/-- In every run of a session the arrivals are safe. -/
theorem transitions_safe (physics : Physics World Handle) (primitives : SessionPrimitives)
    (lease : SignedDomeHostingLease) (hostPubkey : Pubkey) (manifest : DomeInstanceManifest)
    (preset : DomePresetManifest) (sessionId : String) (startedAt : ℤ)
    (budget : MetaverseResourceBudgetConfig) (session : DomeSession)
    (s₀ s : DomeSessionState World Handle) (h : List (SessionEvent World Handle))
    (hstart : startWithBudget physics primitives lease hostPubkey manifest preset sessionId
      startedAt budget = .ok (session, s₀))
    (htrace : Trace (SessionStep physics primitives session) s₀ h s) :
  SafeTransitions session h
  := by
  obtain ⟨hreservations, hcommitted⟩ : s₀.transitionReservations = ∅ ∧
      s₀.committedTransitions = ∅ := by
    obtain ⟨_, _, _, _, rfl⟩ := (startWithBudget_eq_ok hstart).state
    exact ⟨rfl, rfl⟩
  have hnative : Native session s₀ := by
    intro id ticket hticket
    rw [hreservations, hcommitted] at hticket
    simp at hticket
  constructor
  case reserved =>
    intro e he ticket position rotation hcall henters
    apply reserved_of_commit (step_of_mem htrace he) hcall henters
  case issued =>
    rintro h₁ e h₂ ticket rfl hredeems
    obtain ⟨hbefore, hstep, -⟩ := htrace.split_event
    obtain ⟨position, rotation, hcall⟩ := hredeems.1
    apply issuedIn_of_reserved hbefore hreservations
    apply (reserved_of_commit hstep hcall (.inl hredeems)).1
  case repeated =>
    rintro h₁ e h₂ e' h₃ ticket position rotation rfl hredeems hkeeps hcall
    obtain ⟨hbefore, hstep, hrest⟩ := htrace.split_event
    obtain ⟨hbetween, hstep', -⟩ := hrest.split_event
    have hafter := (committed_of_redeems hstep hredeems).1
    have hticket := committed_of_trace hbetween hkeeps hafter
    obtain ⟨-, hepoch, hsession⟩ :=
      native_of_trace ((hbefore.snoc hstep).append hbetween) hnative _ ticket (.inr hticket)
    obtain ⟨r, hcommit, hreply⟩ := of_bind_pure (performed hstep' hcall)
    rw [commitTransitionAdmission_of_committed hticket hepoch hsession] at hcommit
    obtain ⟨rfl, hstate⟩ := Prod.mk.inj hcommit
    exact ⟨hreply, hstate.symm⟩
  case resent =>
    rintro h₁ e h₂ e' h₃ request access ticket rfl hcall hok hupholds hcall' halive
    obtain ⟨-, hstep, hrest⟩ := htrace.split_event
    obtain ⟨hbetween, hstep', -⟩ := hrest.split_event
    obtain ⟨hcurrent, rfl, hknown⟩ := known_of_prepare hstep hcall hok
    apply ret_of_prepare hstep' hcall' hcurrent rfl (known_of_trace hbetween hupholds hknown)
      halive
  case aborted =>
    intro e he transitionId participantPubkey hcall
    obtain ⟨r, habort, -⟩ := of_bind_pure (performed (step_of_mem htrace he) hcall)
    obtain ⟨hafter, -⟩ | ⟨-, -, hafter⟩ := abortTransitionAdmission_eq habort <;> rw [hafter]
    · rfl
    · rfl

/-! ### A ticket that is redeemed twice -/

namespace Sample

def aoiTicket (session : DomeSession) : DomeTransitionAdmissionTicket :=
  newTicket session (request "aoi" "one") 20

def leaveAoi := signedInput "aoi" "aoi leaves" 1 20 .leave

/-- A participant arrives, leaves and arrives again within one millisecond. -/
def returning (session : DomeSession) : List TimedCall :=
  [⟨20, .prepareTransitionAdmission (request "aoi" "one") .allowed⟩,
    ⟨20, .commitTransitionAdmission (aoiTicket session) ⟨0, 0, 0⟩ ⟨0, 0, 0⟩⟩,
    ⟨20, .applySignedInput leaveAoi⟩,
    ⟨20, .prepareTransitionAdmission (request "aoi" "one") .allowed⟩,
    ⟨20, .commitTransitionAdmission (aoiTicket session) ⟨0, 0, 0⟩ ⟨0, 0, 0⟩⟩]

/-- The result of the event at the place, and the arrival that its transition had before. -/
def arrivalAt (events : List (SessionEvent StillWorld ℕ)) (i : ℕ) :
    Option (SessionResult × Option DomeTransitionAdmissionTicket) :=
  events[i]?.map fun e => (e.ret, e.before.committedTransitions["one"]?)

end Sample

open Sample

/-- The arrivals of somebody who leaves and returns are safe. -/
theorem transitions_safe_returning :
  ∃ session s₀ h s, Sample.start [Sample.leaveAoi] 2 = .ok (session, s₀) ∧
    Trace (SessionStep Sample.still (Sample.readInputs [Sample.leaveAoi]) session) s₀ h s ∧
    h.length = 5 ∧ SafeTransitions session h
  := by
  have hrun : (start [leaveAoi] 2).isOk = true := by
    decide +kernel
  obtain ⟨⟨session, s₀⟩, hstart⟩ := Result.isOk_iff.mp hrun
  have htrace := trace_runEvents still (readInputs [leaveAoi]) session s₀
    (returning session)
  refine ⟨session, s₀, _, _, hstart, htrace, rfl, ?_⟩
  apply transitions_safe _ _ _ _ _ _ _ _ _ _ _ _ _ hstart htrace

/-- A ticket is redeemed twice: it was issued again in the millisecond in which it was issued
first. -/
theorem exists_ticket_redeemed_twice :
  ∃ session s₀ h s ticket, Sample.start [Sample.leaveAoi] 2 = .ok (session, s₀) ∧
    Trace (SessionStep Sample.still (Sample.readInputs [Sample.leaveAoi]) session) s₀ h s ∧
    (∃ e, h[1]? = some e ∧ Redeems e ticket) ∧ ∃ e, h[4]? = some e ∧ Redeems e ticket
  := by
  have hrun : (start [leaveAoi] 2).map (fun started =>
      let events := runEvents still (readInputs [leaveAoi]) started.1
        started.2 (returning started.1)
      (arrivalAt events 1, arrivalAt events 4)) =
        .ok (some (.ok .done, none), some (.ok .done, none)) := by
    decide +kernel
  obtain ⟨⟨session, s₀⟩, hstart, hrun⟩ := Result.map_eq_ok.mp hrun
  obtain ⟨hfirst, hsecond⟩ := Prod.mk.inj hrun
  obtain ⟨hdone, hfresh⟩ := Prod.mk.inj (some.inj hfirst)
  obtain ⟨hdone', hfresh'⟩ := Prod.mk.inj (some.inj hsecond)
  refine ⟨session, s₀, _, _, aoiTicket session, hstart,
    trace_runEvents _ _ _ _ (returning session), ?_, ?_⟩
  · exact ⟨_, rfl, ⟨⟨0, 0, 0⟩, ⟨0, 0, 0⟩, rfl⟩, hdone, hfresh⟩
  · exact ⟨_, rfl, ⟨⟨0, 0, 0⟩, ⟨0, 0, 0⟩, rfl⟩, hdone', hfresh'⟩

end Kukuri
