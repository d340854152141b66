import DeMls.Consensus.ApplyResult
import DeMls.Conversation.Steward

/-!
# Handling an outcome

What a resolved proposal does to the conversation, and the tick that fires due deadlines and
drains the outcomes.
-/

namespace DeMls

open Program

/-- `(id, approved, timestamp)`; a failed vote counts as a rejection. -/
def ConsensusEvent.fields : ConsensusEvent → ProposalId × Bool × Nat
  | .consensusReached proposalId result timestamp => (proposalId, result, timestamp)
  | .consensusFailed proposalId timestamp => (proposalId, false, timestamp)

namespace Conversation

variable {P : Platform}

def startFreezingAndEmit : ConvM P Unit := do
  let transition ← startFreezing
  emitPhaseChange transition

/-- A steward is on its way out: ask for a list without it. -/
def refreshStewardsAfterRemoval (target : Bytes) : ConvM P Unit := do
  let c ← get
  if !c.stewardList.isSteward target then pure ()
  else do
    let _ ← (attempt (initiateStewardElection true) : ConvM P _)
    pure ()

/-- Out of `Reelection`, with the short recovery window kept until the next commit. -/
def resumeFromReelection : ConvM P Unit := do
  let c ← get
  if c.state = .reelection then do
    modifyTiming fun t => { t with reelectionRecovered := true }
    let event ← startWorking
    emitPhaseChange (some event)
  else pure ()

/-- Install an accepted list that this node derives too; the epoch steward broadcasts it. -/
def handleElectionAccepted (election : StewardElectionProposal) : ConvM P Unit := do
  let c ← get
  let isValid ← ofResult (c.validateElectionList election)
  if !isValid then pure ()
  else do
    let stewardList ← ofResult (c.stewardList.installList P election.electionEpoch
      election.proposedStewards election.proposedStewards.length election.retryRound)
    modify fun c => { c with stewardList := stewardList }
    exitRecoveryMode
    resumeFromReelection
    let c ← get
    let shared ← (if c.isEpochSteward then attempt shareConversationSync
      else pure (.ok ()) : ConvM P (Except ConversationError Unit))
    processBufferedUpdates
    ofResult shared

/-- A finished emergency: scores, the end of the partial freeze, back to work from
`Reelection`. -/
def handleEmergencyScored (proposalId : ProposalId) (scoreOps : List ScoreOp) : ConvM P Unit := do
  applyScoreOps scoreOps
  modifyQueues fun q => q.removeEmergency proposalId
  let c ← get
  if c.state = .reelection then do
    let event ← startWorking
    emitPhaseChange (some event)
  else pure ()

/-- The follow-up an outcome calls for. -/
def followUp : ConsensusApplyResult → ConvM P Unit
  | .noAction => pure ()
  | .electionAccepted election => handleElectionAccepted election
  | .electionRejected => advanceElectionRetry
  | .recoveryModeOpened => do
    enterRecoveryMode
    startFreezingAndEmit
    emitEvent .recoveryModeOpened
  | .urgentRemoval target => do
    match ← startFreezing with
    | some event => do
      onFreezeEntered event
      refreshStewardsAfterRemoval target
    | none => refreshStewardsAfterRemoval target
  | .queuedRemoval target => refreshStewardsAfterRemoval target
  | .rejectedMembership target => modifyQueues fun q => q.removePendingUpdate target

/-- Once the queues took an outcome: replay early candidates, follow up, score, free the
session. -/
def finishOutcome (proposalId : ProposalId) (result : ConsensusApplyResult)
    (scoreOps : List ScoreOp) : ConvM P Unit := do
  replayEarlyCandidates
  followUp result
  if scoreOps ≠ [] then handleEmergencyScored proposalId scoreOps else pure ()
  onConsensus fun st =>
    ((P.consensus.removeSession st proposalId).1, (P.consensus.removeSession st proposalId).2, [])

/-- The first outcome of a proposal: apply it to the queues and finish it. -/
def applyOutcome (proposalId : ProposalId) (approved : Bool) : ConvM P Unit := do
  let c ← get
  let proposal ← ofResult ((P.consensus.getProposal c.consensus proposalId).mapError .consensus)
  let request ← ofResult ((P.codec.decodeRequest proposal.payload).mapError .message)
  let r := applyConsensusResult P.mls (c.queues.markConsensusOutcomeApplied proposalId) proposalId
    approved request
  modify fun c => { c with queues := r.2 }
  finishOutcome proposalId r.1 (emergencyScoreOps request approved)

/-- Handle one outcome of the bus; a repeated one is dropped. -/
def handleConsensusOutcome (event : ConsensusEvent) : ConvM P Unit := do
  let (proposalId, approved, timestamp) := event.fields
  cancelAutoVote proposalId
  unregisterConsensusTimeout proposalId
  let c ← get
  if c.queues.isConsensusOutcomeApplied proposalId then pure ()
  else do
    emitEvent (.consensusReached proposalId approved timestamp)
    applyOutcome proposalId approved

/-! ## The tick -/

def castAll : List (ProposalId × AutoVoteEntry) → ConvM P Unit
  | [] => pure ()
  | (proposalId, entry) :: rest => do
    let _ ← (attempt (broadcastVote proposalId entry.vote) : ConvM P _)
    castAll rest

def resolveAll : List (ProposalId × Nat) → ConvM P Unit
  | [] => pure ()
  | (proposalId, _) :: rest => do
    resolveOnTimeout proposalId
    resolveAll rest

/-- Receive outcomes until the bus is empty or `fuel` runs out: handling one may publish more. -/
def drainOutcomes : Nat → ConvM P Unit
  | 0 => pure ()
  | fuel + 1 => do
    let c ← get
    match c.outcomes with
    | [] => pure ()
    | event :: rest => do
      modify fun c => { c with outcomes := rest }
      let _ ← (attempt (handleConsensusOutcome event) : ConvM P _)
      drainOutcomes fuel

/-- Fire due auto-votes and timeouts, then drain the outcomes. -/
def tickDeadlines (fuel : Nat) : ConvM P Unit := do
  let c ← get
  let autoVotesDue := c.timing.pendingAutoVotes.entries.filter fun e => decide (e.2.fireAt ≤ c.now)
  let timeoutsDue := c.timing.pendingConsensusTimeouts.entries.filter fun e => decide (e.2 ≤ c.now)
  modifyTiming fun t => { t with
    pendingAutoVotes := t.pendingAutoVotes.retain fun e => !decide (e.2.fireAt ≤ c.now)
    pendingConsensusTimeouts := t.pendingConsensusTimeouts.retain fun e => !decide (e.2 ≤ c.now) }
  castAll autoVotesDue
  resolveAll timeoutsDue
  drainOutcomes fuel

end Conversation

end DeMls
