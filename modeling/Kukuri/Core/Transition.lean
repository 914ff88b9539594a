import Kukuri.Core.Dome
import Kukuri.Data.Machine

/-!
# Transitions between Domes

A participant who walks through a connection asks the host on the other side for a ticket.
-/

namespace Kukuri

open Result

def domeTransitionTicketTtlMillis : ℤ := 15000

inductive DomeTransitionDenialReason where
  | hostUnavailable | accessDenied | ownersBlocked | visitorBlocked | capacityFull
  | assetsUnavailable | staleTopology | staleSession | invalidTicket
  deriving DecidableEq, Repr

def DomeTransitionDenialReason.code : DomeTransitionDenialReason → String
  | .hostUnavailable => "DOME_TRANSITION_HOST_UNAVAILABLE"
  | .accessDenied => "DOME_TRANSITION_ACCESS_DENIED"
  | .ownersBlocked => "DOME_TRANSITION_OWNERS_BLOCKED"
  | .visitorBlocked => "DOME_TRANSITION_VISITOR_BLOCKED"
  | .capacityFull => "DOME_TRANSITION_CAPACITY_FULL"
  | .assetsUnavailable => "DOME_TRANSITION_ASSETS_UNAVAILABLE"
  | .staleTopology => "DOME_TRANSITION_STALE_TOPOLOGY"
  | .staleSession => "DOME_TRANSITION_STALE_SESSION"
  | .invalidTicket => "DOME_TRANSITION_INVALID_TICKET"

inductive DomeTransitionAccessDecision where
  | allowed
  | denied (reason : DomeTransitionDenialReason)
  deriving DecidableEq, Repr

structure DomeTransitionAdmissionRequest where
  transitionId : String
  connectionId : String
  topologyDigest : String
  spatialContext : SpatialContext
  sourceInstanceId : String
  sourceInstanceGeneration : ℕ
  targetInstanceId : String
  targetInstanceGeneration : ℕ
  participantPubkey : Pubkey
  direction : DomeDirection
  requestedAt : ℤ
  deriving DecidableEq, Repr

structure DomeTransitionAdmissionTicket where
  request : DomeTransitionAdmissionRequest
  targetLeaseEpoch : ℕ
  targetSessionId : String
  expiresAt : ℤ
  deriving DecidableEq, Repr

def DomeTransitionAdmissionRequest.validate (request : DomeTransitionAdmissionRequest) :
    Result Unit :=
  bailIf (isBlank request.transitionId ∨ isBlank request.connectionId ∨
      isBlank request.topologyDigest ∨ isBlank request.sourceInstanceId ∨
      isBlank request.targetInstanceId ∨ request.sourceInstanceId = request.targetInstanceId ∨
      request.sourceInstanceGeneration = 0 ∨ request.targetInstanceGeneration = 0 ∨
      request.requestedAt ≤ 0)
    "Dome transition admission request is invalid"

def DomeTransitionAdmissionTicket.validateFor (ticket : DomeTransitionAdmissionTicket)
    (request : DomeTransitionAdmissionRequest) (leaseEpoch : ℕ) (sessionId : String)
    (nowMillis : ℤ) : Result Unit := do
  request.validate
  bailIf (ticket.request ≠ request ∨ ticket.targetLeaseEpoch ≠ leaseEpoch ∨
      ticket.targetSessionId ≠ sessionId ∨ ticket.expiresAt ≤ nowMillis)
    "Dome transition admission ticket is invalid or expired"

end Kukuri
