import DeMls.Conversation.Steward

/-!
# Inbound packets

Decoding a packet and dispatching what it holds: proposals, votes, membership changes, commit
candidates, syncs, and the follow-up of a merged commit.
-/

namespace DeMls

open Program

/-- What the dispatch asks of the caller. -/
inductive DispatchOutcome
  | done
  | dropped
  | leaveRequested
deriving DecidableEq, Repr

/-! ## Decoding -/

/-- A proposal that one vote resolves must be its sender's own removal. -/
def authorizeFastPathProposal (P : Platform) (proposal : Proposal) (mlsSender : Bytes) : Bool :=
  if proposal.expectedVotersCount ≠ 1 then true
  else if proposal.proposalOwner ≠ mlsSender then false
  else
    match P.codec.decodeRequest proposal.payload with
    | .error _ => false
    | .ok request => removesMember request mlsSender

/-- Convert a decrypted message, after the checks of its variant. -/
def classifyAppMessage {P : Platform} (mls : MlsService P.mls) (message : AppMessage)
    (member : Member) : ProcessResult :=
  match message.payload with
  | some (.proposal proposal) =>
    if authorizeFastPathProposal P proposal (memberIdOf member.index) then .ofAppMessage message
    else .noop .fastPathRejected
  | some .conversationSyncRequest => .conversationSyncRequested (memberIdOf member.index)
  | some (.banRequest memberId _) =>
    if mls.isMember memberId then .ofAppMessage message else .noop .banTargetNotMember
  | some (.conversationMessage _ _) | some (.membershipChange _ _ _) => .appMessage message member
  | _ => .ofAppMessage message

namespace Conversation

variable {P : Platform}

/-- Decrypt an application message and classify it. -/
def decodeEncrypted (payload : Bytes) : ConvM P ProcessResult := do
  match ← onMls (MlsService.decryptApplicationOnly payload) with
  | none => pure (.noop .decryptIgnored)
  | some decrypted => do
    let message ← ofResult ((P.codec.decodeApp decrypted.payload).mapError .message)
    let c ← get
    pure (classifyAppMessage c.mls message decrypted.member)

/-- The plaintext envelopes first, commit candidate and welcome; else an encrypted message. -/
def decodeInbound (payload : Bytes) : ConvM P ProcessResult := do
  let c ← get
  match P.codec.decodeApp payload with
  | .ok ⟨some (.commitCandidate candidate)⟩ =>
    modify fun c => { c with queues := (receiveCommitCandidate P c.queues c.mls candidate).2 }
    pure (receiveCommitCandidate P c.queues c.mls candidate).1
  | .ok ⟨some (.memberWelcome welcome)⟩ =>
    if welcome.welcomeBytes = [] then pure (.noop .emptyWelcomePayload)
    else
      let hash := computeCommitHash P welcome.welcomeBytes
      modifyQueues fun q => (q.recordWelcomeBroadcast hash).2
      if (c.queues.recordWelcomeBroadcast hash).1 then pure (.welcomeBroadcastReceived welcome)
      else pure (.noop .duplicateWelcomeBroadcast)
  | _ => decodeEncrypted payload

/-! ## Proposals -/

/-- Mirror an accepted proposal in the queues: in flight, an emergency, or a buffered update. -/
def mirrorProposal (O : OpenMls) (proposalId : ProposalId) (currentEpoch : Nat)
    (req : ConversationUpdateRequest) (q : ConversationQueues) : ConversationQueues :=
  let q := q.trackVotingProposal O proposalId req
  match req.payload with
  | some (.emergencyCriteria _) => q.insertEmergency proposalId
  | some (.memberInvite _) | some (.removeMember _) => q.insertPendingUpdate O req currentEpoch
  | _ => q

/-- The vote of a received proposal: an election list is checked and voted on at once, anything
else waits for the integrator. -/
def scheduleVote (proposalId : ProposalId) (decoded : Option ConversationUpdateRequest) :
    ConvM P Unit := do
  let c ← get
  match decoded with
  | some ⟨some (.stewardElection election)⟩ => do
    let verdict ← ofResult (c.validateElectionList election)
    registerAutoVote proposalId 0 verdict
  | some request => do
    emitEvent (.voteRequested proposalId request)
    registerAutoVote proposalId c.config.votingDelay c.config.livenessCriteriaYes
  | none => registerAutoVote proposalId c.config.votingDelay c.config.livenessCriteriaYes

/-- A peer's proposal. The consensus service validates it before the queues mirror it; an
undecodable payload is a commit proposal nothing is known about. -/
def onIncomingProposal (proposal : Proposal) : ConvM P Unit := do
  let c ← get
  let decoded := (P.codec.decodeRequest proposal.payload).toOption
  let kind := (decoded.map ProposalKind.of).getD .commit
  if c.queues.partialFreezeBlocks kind then pure ()
  else do
    let localNow := asSecs c.now
    match ← (attempt (onConsensus fun st =>
        P.consensus.processIncomingProposal st proposal localNow) : ConvM P _) with
    | .error e =>
      if e = .consensus .proposalExpired then do
        emitEvent (.expiredOnArrival proposal.proposalId proposal.expirationTimestamp localNow)
        throw e
      else throw e
    | .ok () => do
      (match decoded with
        | some req => modifyQueues (mirrorProposal P.mls proposal.proposalId c.epoch req)
        | none => pure ())
      if 1 < proposal.expectedVotersCount then do
        scheduleVote proposal.proposalId decoded
        registerConsensusTimeout proposal.proposalId c.config.consensusTimeout
      else pure ()

/-! ## After a commit -/

/-- Follow the merged delta: scores by leaf, the age of buffered updates, one event. -/
def reconcileMembershipAfterCommit : ConvM P Unit := do
  let c ← get
  let delta := c.queues.takeMembershipDelta.1
  modifyQueues fun q => q.takeMembershipDelta.2
  removeScored (delta.removed.map fun m => memberIdOf m.leaf)
  addScored (delta.added.map fun m => memberIdOf m.index)
  modifyQueues fun q => q.expirePendingUpdates c.epoch c.config.pendingUpdateMaxEpochs
  if delta.added ≠ [] ∨ delta.removed ≠ [] then
    emitEvent (.membersChanged delta.added delta.removed)
  else pure ()

/-- In recovery still: ask for a fresh list. -/
def maybeCloseRecoveryWindow : ConvM P Unit := do
  let c ← get
  if c.isInRecoveryMode then do
    let _ ← (attempt (initiateStewardElection true) : ConvM P _)
    pure ()
  else pure ()

/-- The group advanced: back to work, then membership, steward list and buffered updates. -/
def onConversationUpdated : ConvM P Unit := do
  modify fun c => { c with
    stewardList := c.stewardList.resetRetry
    timing := { c.timing with reelectionRecovered := false } }
  let event ← startWorking
  emitEvent (.phaseChange event)
  reconcileMembershipAfterCommit
  stewardListHousekeeping
  processBufferedUpdates
  maybeCloseRecoveryWindow

/-- Our own removal landed; a failed delete is only logged. -/
def prepareSelfLeave : ConvM P Unit := do
  emitEvent .leaving
  cancelAllAutoVotes
  let _ ← (attempt (onMls MlsService.delete) : ConvM P _)
  pure ()

/-- A peer's candidate opens the freeze from `Working` and `Reelection`. -/
def onCommitCandidateReceived : ConvM P Unit := do
  let c ← get
  if c.state ≠ .working ∧ c.state ≠ .reelection then pure ()
  else do
    match ← startFreezing with
    | none => pure ()
    | some event => onFreezeEntered event

/-! ## Sync -/

def syncedDefaultPeerScore (sync : ConversationSync) : Int :=
  if sync.defaultPeerScore = 0 then DeMls.defaultPeerScore else sync.defaultPeerScore

def firstZeroTimingField (t : TimingConfig) : Option String :=
  if t.commitBatchWindowMs = 0 then some "commit_batch_window_ms"
  else if t.freezeDurationMs = 0 then some "freeze_duration_ms"
  else if t.proposalExpirationMs = 0 then some "proposal_expiration_ms"
  else if t.consensusTimeoutMs = 0 then some "consensus_timeout_ms"
  else if t.retryWindowMs = 0 then some "retry_window_ms"
  else none

/-- Whether a sync may be applied: an ordering its pool gives, over members, with usable timing
and scoring. -/
def validateConversationSync (P : Platform) (conversationId : Bytes) (sync : ConversationSync)
    (currentEpoch : Nat) (members : List Bytes) : Except ConversationError Bool :=
  if currentEpoch < sync.electionEpoch then .ok false
  else if ¬ sync.unsettledMembers.all fun u => u ∈ members then .ok false
  else
    match StewardListConfig.new sync.snMin sync.snMax with
    | .error e => .error e
    | .ok config =>
      let pool := members.filter fun m => m ∉ sync.unsettledMembers
      match StewardList.validate P sync.stewardMembers sync.electionEpoch conversationId pool config
          sync.retryRound with
      | .error e => .error e
      | .ok orderingValid =>
        let anyPresent := sync.stewardMembers.any fun s => s ∈ members
        let score : ScoringConfig := ⟨syncedDefaultPeerScore sync, sync.thresholdPeerScore⟩
        .ok (anyPresent && orderingValid &&
          (sync.timing.bind firstZeroTimingField).isNone && score.validate.toOption.isSome)

/-- Adopt a sync: the list and its configuration, the scores, the timing. -/
def applyConversationSyncToEntry (sync : ConversationSync) : ConvM P Unit := do
  let base ← ofResult (StewardListConfig.new sync.snMin sync.snMax)
  let config := { base with allowSubsetCandidates := sync.allowSubsetCandidates }
  modify fun c => { c with stewardList := { c.stewardList with config := config } }
  let c ← get
  let stewardList ← ofResult (c.stewardList.installList P sync.electionEpoch sync.stewardMembers
    sync.stewardMembers.length sync.retryRound)
  modify fun c => { c with
    stewardList := { stewardList with maxRetries := sync.maxReelectionAttempts } }
  onScoring (PeerScoringService.setThreshold sync.thresholdPeerScore)
  onScoring (PeerScoringService.setDefaultScore (syncedDefaultPeerScore sync))
  applyScoreSnapshot ⟨sync.peerScores.map fun ps => (ps.memberId, ps.score)⟩
  modify fun c =>
    let config := { c.config with
      livenessCriteriaYes := sync.livenessCriteriaYes
      pendingUpdateMaxEpochs := sync.pendingUpdateMaxEpochs }
    { c with config := match sync.timing with
        | some timing => config.applyTiming timing
        | none => config }

/-- Install a first list, or replace an exhausted one with a newer election. -/
def onConversationSync (sync : ConversationSync) : ConvM P Unit := do
  modifyTiming fun t => { t with syncResendAnchor := none }
  let c ← get
  let refused := match c.stewardList.list with
    | some mine => !mine.isExhausted c.epoch || decide (sync.electionEpoch ≤ mine.electionEpoch)
    | none => false
  if refused then pure ()
  else do
    let valid ← ofResult (validateConversationSync P c.conversationId sync c.epoch c.members)
    if !valid then pure ()
    else do
      applyConversationSyncToEntry sync
      emitEvent .conversationSyncApplied

/-- The epoch steward answers a request; another steward arms its takeover timer. -/
def onConversationSyncRequest : ConvM P Unit := do
  let c ← get
  if c.isEpochSteward then do
    modifyTiming fun t => { t with syncResendAnchor := none }
    shareConversationSync
  else if c.isSteward && c.timing.syncResendAnchor.isNone then
    modifyTiming fun t => { t with syncResendAnchor := some c.now }
  else pure ()

/-! ## Dispatch -/

def dispatchInboundResult : ProcessResult → ConvM P DispatchOutcome
  | .appMessage message sender => do
    emitEvent (.conversationMessage message sender)
    pure .done
  | .proposal proposal => do
    onIncomingProposal proposal
    pure .done
  | .vote vote => do
    forwardIncomingVote vote
    pure .done
  | .membershipChangeReceived request => do
    handleIncomingUpdateRequest request
    pure .done
  | .conversationUpdated => do
    onConversationUpdated
    pure .done
  | .leaveConversation => do
    prepareSelfLeave
    pure .leaveRequested
  | .commitCandidateReceived _ => do
    onCommitCandidateReceived
    pure .done
  | .conversationSyncReceived sync => do
    onConversationSync sync
    pure .done
  | .conversationSyncRequested _ => do
    onConversationSyncRequest
    pure .done
  | .welcomeBroadcastReceived welcome => do
    emitEvent (.welcomeReady welcome false)
    pure .done
  | .noop _ => pure .done

/-- One inbound packet; our own echo is dropped. -/
def processInbound (sender payload : Bytes) : ConvM P DispatchOutcome := do
  let c ← get
  if sender = c.appId then pure .dropped
  else do
    let result ← decodeInbound payload
    dispatchInboundResult result

/-- The bootstrap that came with a welcome. -/
def applyWelcomeSync (syncBytes : Bytes) : ConvM P Unit := do
  if syncBytes = [] then emitEvent .conversationSyncMissing
  else do
    let result ← decodeInbound syncBytes
    let _ ← dispatchInboundResult result
    pure ()

end Conversation

end DeMls
