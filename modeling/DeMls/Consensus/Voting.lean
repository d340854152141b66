import DeMls.Conversation.Handle

/-!
# Proposals and votes

Opening a proposal, casting and forwarding votes, the self-leave fast path, and the timeout of a
session.
-/

namespace DeMls

open Program

/-- How the creator's own vote is handled at submit. -/
inductive CreatorVote
  /-- YES, bundled with the proposal. -/
  | yes
  /-- Unbundled: the creator votes like any other member. -/
  | deferred
deriving DecidableEq, Repr

namespace Conversation

variable {P : Platform}

/-! ## Opening a proposal -/

/-- Phase and partial-freeze gate of a local proposal; the expected voters are all members. -/
def checkProposalAllowed (kind : ProposalKind) : ConvM P Nat := do
  let c ← get
  match c.state with
  | .reelection =>
    if !kind.isEmergency && !kind.isStewardElection then throw (.conversationBlocked c.state)
    else if c.queues.partialFreezeBlocks kind then throw .partialFreeze
    else pure (c.members.length % 2 ^ 32)
  | .freezing | .selection => throw (.conversationBlocked c.state)
  | .working =>
    if c.queues.partialFreezeBlocks kind then throw .partialFreeze
    else pure (c.members.length % 2 ^ 32)

/-- Open the session of a proposal; its id and the unbundled message. -/
def submitProposal (request : ConversationUpdateRequest) (expectedVoters : Nat) :
    ConvM P (ProposalId × AppMessage) := do
  let c ← get
  let createRequest : CreateProposalRequest :=
    { payload := P.codec.encodeRequest request
      proposalOwner := c.selfMemberId
      expectedVotersCount := expectedVoters
      expirationSecs := asSecs c.config.proposalExpiration
      livenessCriteriaYes := c.config.livenessCriteriaYes
      timeout := c.config.consensusTimeout }
  let proposal ← onConsensus fun st =>
    P.consensus.createProposalWithConfig st createRequest (asSecs c.now)
  pure (proposal.proposalId, ⟨some (.proposal proposal)⟩)

/-- Encrypt a message and queue it. -/
def sendApp (message : AppMessage) : ConvM P Unit := do
  let payload ← onMls (MlsService.buildMessage (P.codec.encodeApp message))
  broadcast payload

/-- Open a proposal: one in-flight change per member, then the gate, the session, and the
creator's vote. -/
def initiateProposal (request : ConversationUpdateRequest) (creatorVote : CreatorVote) :
    ConvM P Unit := do
  let c ← get
  if (inFlightTarget P.mls request).any fun t => t ∈ c.queues.activeProposalTargets P.mls then
    pure ()
  else do
    let kind := ProposalKind.of request
    let expectedVoters ← checkProposalAllowed kind
    let (proposalId, unbundled) ← submitProposal request expectedVoters
    modifyQueues fun q =>
      let q := q.trackVotingProposal P.mls proposalId request
      if kind.isEmergency then q.insertEmergency proposalId else q
    registerConsensusTimeout proposalId c.config.consensusTimeout
    match creatorVote with
    | .yes => do
      let proposal ← onConsensus fun st =>
        P.consensus.castVoteAndGetProposal st proposalId true (asSecs c.now)
      sendApp ⟨some (.proposal proposal)⟩
      emitEvent (.ownProposalSubmitted proposalId request)
    | .deferred => do
      sendApp unbundled
      emitEvent (.voteRequested proposalId request)
      registerAutoVote proposalId c.config.votingDelay c.config.livenessCriteriaYes

/-! ## Votes -/

def broadcastVote (proposalId : ProposalId) (vote : Bool) : ConvM P Unit := do
  let c ← get
  let voteMsg ← onConsensus fun st => P.consensus.castVote st proposalId vote (asSecs c.now)
  sendApp ⟨some (.vote voteMsg)⟩

/-- The integrator's vote; refused while an epoch rotation is under way. -/
def vote (proposalId : ProposalId) (vote : Bool) : ConvM P Unit := do
  let c ← get
  if c.state = .freezing ∨ c.state = .selection then throw (.conversationBlocked c.state)
  else do
    cancelAutoVote proposalId
    broadcastVote proposalId vote

/-- A peer's vote; one for a session that is gone is dropped. -/
def forwardIncomingVote (vote : Vote) : ConvM P Unit := do
  let c ← get
  match ← (attempt (onConsensus fun st =>
      P.consensus.processIncomingVote st vote (asSecs c.now)) : ConvM P _) with
  | .ok () => pure ()
  | .error (.consensus .sessionNotActive) => pure ()
  | .error (.consensus .sessionNotFound) => pure ()
  | .error e => throw e

/-- The deadline of a session: resolve it when it is still active. Errors are only logged. -/
def resolveOnTimeout (proposalId : ProposalId) : ConvM P Unit := do
  let c ← get
  let stillActive := match P.consensus.getActiveProposals c.consensus with
    | .ok active => active.any fun p => p.proposalId = proposalId
    | .error _ => false
  if !stillActive then pure ()
  else do
    let _ ← (attempt (onConsensus fun st =>
      P.consensus.handleConsensusTimeout st proposalId (asSecs c.now)) : ConvM P _)
    pure ()

/-! ## Self-leave -/

/-- Submit our own removal with the YES vote bundled, one expected voter and a deterministic id;
`none` when a session for that id exists. -/
def submitSelfLeaveProposal : ConvM P (Option (ProposalId × AppMessage)) := do
  let c ← get
  let now := asSecs c.now
  let proposalId := selfLeaveProposalId P c.selfMemberId
  let unsigned : Proposal :=
    { name := textBytes s!"self-leave:{proposalId}"
      payload := P.codec.encodeRequest (.removeMember c.selfMemberId)
      proposalId := proposalId
      proposalOwner := c.selfMemberId
      votes := []
      expectedVotersCount := 1
      round := 1
      timestamp := now
      expirationTimestamp := min (now + asSecs c.config.proposalExpiration) (2 ^ 64 - 1)
      livenessCriteriaYes := true }
  let yesVote ← ofResult
    ((P.consensus.buildVote c.consensus unsigned true now).mapError .consensus)
  let proposal := { unsigned with votes := unsigned.votes ++ [yesVote] }
  match ← (attempt (onConsensus fun st =>
      P.consensus.processIncomingProposal st proposal now) : ConvM P _) with
  | .ok () => pure (some (proposalId, ⟨some (.proposal proposal)⟩))
  | .error (.consensus .proposalAlreadyExist) => pure none
  | .error e => throw e

def initiateSelfLeave : ConvM P Unit := do
  let c ← get
  if c.queues.isPendingSelfLeave P c.selfMemberId then pure ()
  else do
    -- Tracked before the session opens: the bundled YES resolves it at once.
    modifyQueues fun q => q.trackVotingProposal P.mls (selfLeaveProposalId P c.selfMemberId)
      (.removeMember c.selfMemberId)
    match ← submitSelfLeaveProposal with
    | none => pure ()
    | some (_, message) => sendApp message

/-- Ask to leave; the removal lands with a later commit. -/
def leave : ConvM P Unit := initiateSelfLeave

end Conversation

end DeMls
