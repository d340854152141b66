import DeMls.Queues
import DeMls.Scoring

/-!
# Applying a consensus outcome to the queues

`applyConsensusResult` classifies the resolved request, deduplicates it against the approved queue
and stages it, and tells the conversation which follow-up it calls for.
-/

namespace DeMls

/-- The follow-up an outcome calls for. -/
inductive ConsensusApplyResult
  | noAction
  | electionAccepted (election : StewardElectionProposal)
  | electionRejected
  | rejectedMembership (target : Bytes)
  | recoveryModeOpened
  | urgentRemoval (target : Bytes)
  | queuedRemoval (target : Bytes)
deriving DecidableEq, Repr

def applyElectionResult (approved : Bool) (election : StewardElectionProposal) :
    ConsensusApplyResult :=
  if approved then .electionAccepted election else .electionRejected

def extractEmergencyEvidence (req : ConversationUpdateRequest) : Option ViolationEvidence :=
  match req.payload with
  | some (.emergencyCriteria evidence) => evidence
  | _ => none

def extractElectionProposal (req : ConversationUpdateRequest) : Option StewardElectionProposal :=
  match req.payload with
  | some (.stewardElection election) => some election
  | _ => none

def isScoreBelowThreshold (evidence : ViolationEvidence) : Bool :=
  ViolationType.ofWire evidence.violationType = some .scoreBelowThreshold

def isDeadlock (evidence : ViolationEvidence) : Bool :=
  ViolationType.ofWire evidence.violationType = some .deadlock

def removalRequestFor (evidence : ViolationEvidence) : ConversationUpdateRequest :=
  .removeMember evidence.targetMemberId

/-- Whom the outcome queues for removal. -/
def pendingRemovalTarget (request : ConversationUpdateRequest) (evidence : Option ViolationEvidence)
    (approved isEmergency transformsToRemoval : Bool) : Option Bytes :=
  if !approved then none
  else if transformsToRemoval then evidence.map (·.targetMemberId)
  else if isEmergency then none
  else
    match request.payload with
    | some (.removeMember memberId) => some memberId
    | _ => none

/-- The joiner of an invite, when its key package can be read. -/
def inviteKeyOf (O : OpenMls) (request : ConversationUpdateRequest) : Option Bytes :=
  match request.payload with
  | some (.memberInvite keyPackageBytes) => (signatureKeyOfKeyPackage O keyPackageBytes).toOption
  | _ => none

/-- Stage an approved outcome; the first entry for a target stays and a second is dropped. -/
def applyConsensusResult (O : OpenMls) (q : ConversationQueues) (proposalId : ProposalId)
    (approved : Bool) (request : ConversationUpdateRequest) :
    ConsensusApplyResult × ConversationQueues :=
  let q := q.removeVotingProposal proposalId
  match extractElectionProposal request with
  | some election => (applyElectionResult approved election, q)
  | none =>
    let evidence := extractEmergencyEvidence request
    let isEmergency := evidence.isSome
    let transformsToRemoval := approved && isEmergency && evidence.any isScoreBelowThreshold
    let removalTarget :=
      pendingRemovalTarget request evidence approved isEmergency transformsToRemoval
    if removalTarget.any q.hasApprovedRemoval then (.noAction, q)
    else if approved && (inviteKeyOf O request).any (q.hasApprovedInvite O) then (.noAction, q)
    else
      match evidence.filter fun _ => transformsToRemoval with
      | some ev =>
        -- The removal is committed alone: the urgent target restricts the next batch to it.
        let q := q.insertApprovedProposal proposalId (removalRequestFor ev)
        (.urgentRemoval ev.targetMemberId, q.setUrgentCommitTarget ev.targetMemberId)
      | none =>
        let q := if approved && !isEmergency then q.insertApprovedProposal proposalId request else q
        if evidence.any isDeadlock && approved then (.recoveryModeOpened, q)
        else
          match removalTarget with
          | some target => (.queuedRemoval target, q)
          | none =>
            if approved then (.noAction, q)
            else
              match targetMemberIdOf O request with
              | some target => (.rejectedMembership target, q)
              | none => (.noAction, q)

end DeMls
