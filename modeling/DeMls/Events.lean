import DeMls.Mls.Service

/-!
# Results and events

What processing an inbound packet yields (`ProcessResult`), and what the conversation reports to
its integrator (`ConversationEvent`).
-/

namespace DeMls

/-- Why an inbound packet needs no action. -/
inductive NoopReason
  | unknownAppMessage
  | fastPathRejected
  | banTargetNotMember
  | decryptIgnored
  | alreadyCommitted
  | emptyCandidatePayload
  | emptyStewardMemberId
  | wireKindMismatch
  | duplicateBufferedHash
  | candidateBufferFull
  | candidateStashedEarly
  | emptyWelcomePayload
  | duplicateWelcomeBroadcast
deriving DecidableEq, Repr

/-- Outcome of processing one inbound packet. -/
inductive ProcessResult
  | appMessage (message : AppMessage) (sender : Member)
  | proposal (proposal : Proposal)
  | vote (vote : Vote)
  | leaveConversation
  | membershipChangeReceived (request : ConversationUpdateRequest)
  | conversationUpdated
  | commitCandidateReceived (stewardId : Bytes)
  | conversationSyncReceived (sync : ConversationSync)
  | conversationSyncRequested (requester : Bytes)
  | welcomeBroadcastReceived (welcome : MemberWelcome)
  | noop (reason : NoopReason)
deriving DecidableEq, Repr

/-- `TryFrom<AppMessage>`: the variants core dispatch consumes. -/
def ProcessResult.ofAppMessage (m : AppMessage) : ProcessResult :=
  match m.payload with
  | some (.proposal p) => .proposal p
  | some (.vote v) => .vote v
  | some (.banRequest memberId _) =>
    .membershipChangeReceived (ConversationUpdateRequest.removeMember memberId)
  | some (.conversationSync sync) => .conversationSyncReceived sync
  | _ => .noop .unknownAppMessage

/-- The error payload of an `Error` event is its text; here, the operation and the error's kind. -/
inductive ConversationEvent
  | conversationMessage (message : AppMessage) (sender : Member)
  | leaving
  | error (operation : String) (message : ConversationError)
  | expiredOnArrival (proposalId : ProposalId) (expirationTimestamp localNow : Nat)
  | ownProposalSubmitted (proposalId : ProposalId) (request : ConversationUpdateRequest)
  | voteRequested (proposalId : ProposalId) (request : ConversationUpdateRequest)
  /-- A commit merged; `batch` holds the proposals that landed, in the order they applied. -/
  | commitApplied (batch : List ConversationUpdateRequest)
  | phaseChange (state : ConversationState)
  | welcomeReady (welcome : MemberWelcome) (mintedLocally : Bool)
  | consensusReached (proposalId : ProposalId) (approved : Bool) (timestamp : Nat)
  | commitRoundProgress (received expected : Nat)
  | recoveryModeOpened
  | recoveryExhausted
  | conversationSyncMissing
  | conversationSyncApplied
  | memberScoreChanged (memberId : Bytes) (previous score : Int)
  | membersChanged (added : List Member) (removed : List MemberId)
deriving DecidableEq, Repr

end DeMls
