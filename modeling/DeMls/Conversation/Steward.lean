import DeMls.Consensus.Voting

/-!
# Steward duties

The steward list over the epochs: local reconciles, elections and their retries, the buffered
updates a steward proposes, the bootstrap sync, and the emergency proposals a member files.
-/

namespace DeMls

open Program

/-- What a reconcile of the steward list found. -/
inductive StewardListReconcile
  | settled
  | needsElection
deriving DecidableEq, Repr

namespace Conversation

variable {P : Platform}

/-! ## The list -/

/-- Bring an exhausted list up to the current epoch over the settled members, unless the pool
needs an election. -/
def reconcileStewardList : ConvM P StewardListReconcile := do
  let c ← get
  if !c.stewardList.isExhausted c.epoch then pure .settled
  else
    let settled := c.settledPool c.epoch
    if c.stewardList.electionRequired settled.length then pure .needsElection
    else do
      let sn := c.stewardList.config.computeListSize settled.length
      let stewardList ← ofResult (c.stewardList.installList P c.epoch settled sn 0)
      modify fun c => { c with stewardList := stewardList }
      pure .settled

/-- Whether a proposed list is the one the settled pool of its epoch gives. -/
def validateElectionList (c : Conversation P) (election : StewardElectionProposal) :
    Except ConversationError Bool :=
  c.stewardList.validateProposed P election.proposedStewards election.electionEpoch
    (c.settledPool election.electionEpoch) election.retryRound

/-- Propose the next list when it is due and ours to propose. -/
def initiateStewardElection (recovery : Bool) : ConvM P Unit := do
  let c ← get
  if c.queues.hasElectionInFlight then pure ()
  else do
    let eligible := fun id : Bytes => !(recovery && c.queues.hasApprovedRemoval id)
    let decision ← ofResult (c.stewardList.proposeElection P c.epoch (c.settledPool c.epoch)
      c.selfMemberId eligible recovery)
    match decision with
    | .skip _ => pure ()
    | .proposed proposedStewards electionEpoch retryRound =>
      initiateProposal (.stewardElection ⟨proposedStewards, electionEpoch, retryRound⟩) .yes

/-- After a commit: reconcile the list, and open an election when it takes one. -/
def stewardListHousekeeping : ConvM P Unit := do
  match ← reconcileStewardList with
  | .needsElection => do
    let _ ← (attempt (initiateStewardElection false) : ConvM P _)
    pure ()
  | .settled => pure ()

/-- The members of the roster that may still act: not queued for removal. -/
def isDeadlockProposer (c : Conversation P) : Bool :=
  decide (c.stewardList.responsibleProposer c.stewardList.nextElectionRound c.members
    (fun id => decide (id ∈ c.members) && !c.queues.hasApprovedRemoval id) = some c.selfMemberId)

/-- File a Deadlock emergency; nothing to do in recovery. -/
def requestRecovery : ConvM P Unit := do
  let c ← get
  if c.isInRecoveryMode then pure ()
  else do
    let request ← ofResult
      ((ViolationEvidence.deadlock c.epoch).withCreator c.selfMemberId).intoUpdateRequest
    initiateProposal request .yes

/-- File a score-below-threshold emergency against a scored member. -/
def proposeScoreRemoval (target : Bytes) : ConvM P Unit := do
  let c ← get
  match ← onScoring (PeerScoringService.scoreFor target) with
  | none => throw .invalidConversationUpdateRequest
  | some score => do
    let request ← ofResult
      ((ViolationEvidence.scoreBelowThreshold target c.epoch score).withCreator
        c.selfMemberId).intoUpdateRequest
    initiateProposal request .yes

/-- A failed election round: retry with the next seed, or escalate once retries are spent. -/
def advanceElectionRetry : ConvM P Unit := do
  modify fun c => { c with stewardList := c.stewardList.bumpRetry }
  let c ← get
  if c.stewardList.maxRetries < c.stewardList.nextElectionRound then
    if c.isDeadlockProposer then do
      match ← (attempt requestRecovery : ConvM P _) with
      | .ok () => pure ()
      | .error e => emitEvent (.error "Reelection stuck" e)
    else pure ()
  else do
    let _ ← (attempt (initiateStewardElection true) : ConvM P _)
    pure ()

/-! ## Buffered updates -/

/-- Buffered updates without a live proposal that still apply to the roster. -/
def actionableBufferedUpdates (c : Conversation P) : List ConversationUpdateRequest :=
  let active := c.queues.activeProposalTargets P.mls
  (c.queues.pendingUpdates.entries.filter fun e =>
    decide (e.1 ∉ active) &&
      match e.2.request.payload with
      | some (.memberInvite _) => decide (e.1 ∉ c.members)
      | some (.removeMember _) => decide (e.1 ∈ c.members)
      | _ => false).map fun e => e.2.request

/-- Propose each request; one that is refused stays buffered. -/
def proposeAll : List ConversationUpdateRequest → ConvM P Unit
  | [] => pure ()
  | request :: rest => do
    let _ ← (attempt (initiateProposal request .deferred) : ConvM P _)
    proposeAll rest

def drainBufferedUpdates : ConvM P Unit := do
  let c ← get
  proposeAll c.actionableBufferedUpdates

def processBufferedUpdates : ConvM P Unit := do
  let c ← get
  if c.isEpochSteward then drainBufferedUpdates else pure ()

/-- A peer's membership change is buffered; the epoch steward proposes it at once. -/
def handleIncomingUpdateRequest (request : ConversationUpdateRequest) : ConvM P Unit := do
  let c ← get
  if targetMemberIdOf P.mls request = none then pure ()
  else do
    modifyQueues fun q => q.insertPendingUpdate P.mls request c.epoch
    let isEpochSteward := decide (c.stewardList.epochSteward c.epoch
      (c.queues.stewardEligibility c.members) = some c.selfMemberId)
    if isEpochSteward && decide (c.state = .working) then do
      let _ ← (attempt (initiateProposal request .deferred) : ConvM P _)
      pure ()
    else pure ()

/-! ## The bootstrap sync -/

def addScored : List Bytes → ConvM P Unit
  | [] => pure ()
  | memberId :: rest => do
    onScoring (PeerScoringService.addMember memberId)
    addScored rest

def removeScored : List Bytes → ConvM P Unit
  | [] => pure ()
  | memberId :: rest => do
    onScoring (PeerScoringService.removeMember memberId)
    removeScored rest

/-- Make the score table's keys the members. -/
def syncScoringMembers (mlsMembers : List Bytes) : ConvM P Unit := do
  let scored ← onScoring PeerScoringService.allMembersWithScores
  let diff := scoringMemberDiff (scored.map Prod.fst) mlsMembers
  addScored diff.toAdd
  removeScored diff.toRemove

/-- The encrypted `ConversationSync` of the installed list; `none` without one. -/
def buildConversationSyncPayload : ConvM P (Option Bytes) := do
  let snapshot ← onScoring PeerScoringService.snapshot
  let c ← get
  match c.stewardList.list with
  | none => pure none
  | some list => do
    let sync : ConversationSync :=
      { stewardMembers := list.members
        electionEpoch := list.electionEpoch
        snMin := list.config.snMin % 2 ^ 32
        snMax := list.config.snMax % 2 ^ 32
        allowSubsetCandidates := c.stewardList.config.allowSubsetCandidates
        peerScores := snapshot.diverged.map fun e => ⟨e.1, e.2⟩
        timing := some c.config.toTiming
        retryRound := list.retryRound
        maxReelectionAttempts := c.stewardList.maxRetries
        livenessCriteriaYes := c.config.livenessCriteriaYes
        thresholdPeerScore := c.scoring.config.threshold
        pendingUpdateMaxEpochs := c.config.pendingUpdateMaxEpochs
        unsettledMembers := c.members.filter fun m => !c.queues.isSettled m list.electionEpoch
        defaultPeerScore := c.scoring.config.defaultScore }
    let payload ← onMls (MlsService.buildMessage
      (P.codec.encodeApp ⟨some (.conversationSync sync)⟩))
    pure (some payload)

def shareConversationSync : ConvM P Unit := do
  match ← buildConversationSyncPayload with
  | some payload => broadcast payload
  | none => pure ()

end Conversation

end DeMls
