import DeMls.Conversation.Inbound
import DeMls.Consensus.HandleOutcome

/-!
# The poll

The drivers one poll runs: the tick of the deadlines, the commit round (`advanceFreezing`), the
buffered proposals, the syncs, the inactivity freeze and the re-election retry.
-/

namespace DeMls

open Program

structure PollOutcome where
  nextWakeupIn : Option Nat
  leaveRequested : Bool
deriving DecidableEq, Repr

namespace Conversation

variable {P : Platform}

/-! ## The commit round -/

/-- A recovery round without a commit: reopen the window, or give up at the stop line. -/
def retryOrExhaustRecovery : ConvM P DispatchOutcome := do
  modify fun c => { c with recoveryRounds := c.recoveryRounds + 1 }
  let c ← get
  if c.config.recoveryMaxRounds ≠ 0 ∧ c.config.recoveryMaxRounds ≤ c.recoveryRounds then do
    exitRecoveryMode
    let resumed ← startWorking
    emitEvent .recoveryExhausted
    emitEvent (.phaseChange resumed)
    pure .done
  else do
    let reopened ← reopenRecoveryWindow
    emitPhaseChange reopened
    pure .done

/-- Our own error, not the steward's failure: retry without a penalty or a re-election. -/
def recoverFromFinalizeError : ConvM P DispatchOutcome := do
  let c ← get
  if c.isInRecoveryMode then retryOrExhaustRecovery
  else do
    let resumed ← startWorking
    emitEvent (.phaseChange resumed)
    pure .done

/-- Past the manual grace of recovery every node mints. -/
def maybeAutoCommitRecovery : ConvM P Unit := do
  let c ← get
  match c.config.recoveryAutoCommitDelay with
  | none => pure ()
  | some delay =>
    if !elapsedSinceAnchor c.timing.phaseTimer c.now delay ||
        c.queues.commitRound.hasLocalCandidate then pure ()
    else do
      let _ ← (attempt mintAndBroadcastCandidate : ConvM P _)
      pure ()

/-- Attach the bootstrap sync to a welcome, report it and broadcast it. -/
def deliverWelcome (welcome : MemberWelcome) : ConvM P Unit := do
  let reconciled ← (attempt reconcileStewardList : ConvM P _)
  let sync ← (match reconciled with
    | .ok _ => attempt buildConversationSyncPayload
    | .error e => pure (.error e) : ConvM P (Except ConversationError (Option Bytes)))
  match sync with
  | .ok syncBytes => do
    let welcome := { welcome with conversationSyncBytes := syncBytes.getD [] }
    emitEvent (.welcomeReady welcome true)
    broadcast (P.codec.encodeApp ⟨some (.memberWelcome welcome)⟩)
  | .error e => do
    emitEvent (.error "welcome_conversation_sync" e)
    emitEvent (.welcomeReady welcome true)
    broadcast (P.codec.encodeApp ⟨some (.memberWelcome welcome)⟩)

/-- The scores of a round; the commit has merged, so a failure is reported and not propagated. -/
def applyRoundScores (scoreOps : List ScoreOp) : ConvM P Unit := do
  if scoreOps = [] then pure ()
  else do
    match ← (attempt (applyScoreOps scoreOps) : ConvM P _) with
    | .ok () => pure ()
    | .error e => emitEvent (.error "apply_commit_round_score_ops" e)

/-- A round that applied: out of recovery, the welcome, then the terminal transition whatever
the dispatch says. -/
def finishApplied (inRecovery : Bool) (result : ProcessResult) (welcome : Option MemberWelcome) :
    ConvM P DispatchOutcome := do
  modify fun c => if inRecovery then { c with operatingMode := .normal } else c
  (match welcome with
    | some welcome => deliverWelcome welcome
    | none => pure ())
  match ← (attempt (dispatchInboundResult result) : ConvM P _) with
  | .ok outcome => pure outcome
  | .error _ => pure .done

/-- Whom to blame for an unanswered batch: the epoch steward, unless it is us. -/
def absentSteward (c : Conversation P) : Option Bytes :=
  (c.stewardList.epochSteward c.epoch (c.queues.stewardEligibility c.members)).filter fun id =>
    decide (id ≠ [] ∧ id ≠ c.selfMemberId)

/-- A round without a candidate outside recovery: re-election over approved work, else back to
work. -/
def finishNoCandidate (hasProposals : Bool) : ConvM P DispatchOutcome := do
  if hasProposals then do
    let event ← startReelection
    let c ← get
    (match c.absentSteward with
      | some stewardId => applyScoreOps [⟨stewardId, .censorshipInactivity⟩]
      | none => pure ())
    emitEvent (.phaseChange event)
    let _ ← (attempt (initiateStewardElection true) : ConvM P _)
    pure .done
  else do
    modifyQueues fun q => { q with commitRound := q.commitRound.clear }
    let event ← startWorking
    emitEvent (.phaseChange event)
    pure .done

/-- A recovery round without a candidate: with nothing approved there is nothing to recover. -/
def finishRecoveryRound (hasProposals : Bool) : ConvM P DispatchOutcome := do
  if !hasProposals then do
    modifyQueues fun q => { q with commitRound := q.commitRound.clear }
    exitRecoveryMode
    let resumed ← startWorking
    emitEvent (.phaseChange resumed)
    pure .done
  else retryOrExhaustRecovery

/-- What follows a round that finalized. -/
def finishRound (inRecovery hasProposals : Bool) (result : CommitRoundResult P.mls) :
    ConvM P DispatchOutcome := do
  applyRoundScores result.scoreOps
  (if result.committedBatch = [] then pure ()
    else emitEvent (.commitApplied result.committedBatch))
  match result.outcome with
  | .applied r welcome => finishApplied inRecovery r welcome
  | .noCandidate =>
    if inRecovery then finishRecoveryRound hasProposals else finishNoCandidate hasProposals

/-- What follows the finalization, failed or not. -/
def afterFinalize (inRecovery hasProposals : Bool) :
    Except ConversationError (CommitRoundResult P.mls) → ConvM P DispatchOutcome
  | .error e => do
    emitEvent (.error "commit_round_finalize" e)
    recoverFromFinalizeError
  | .ok result => finishRound inRecovery hasProposals result

/-- Close the collection window: select, finalize, follow up. -/
def selectAndFinalize (inRecovery : Bool) : ConvM P DispatchOutcome := do
  modifyTiming fun t => { t with lastCommitRoundProgress := none }
  let selectionEvent ← startSelection
  let c ← get
  let hasProposals := decide (0 < c.queues.approvedProposalsCount)
  emitEvent (.phaseChange selectionEvent)
  let allowSubset := inRecovery || c.stewardList.config.allowSubsetCandidates
  let result ← (attempt (finalizeCommitRound allowSubset c.selfMemberId) : ConvM P _)
  afterFinalize inRecovery hasProposals result

/-- Whether the collection window is over: every steward answered, or the time ran out. -/
def roundOver (c : Conversation P) : Bool :=
  let allCandidatesIn := !c.isInRecoveryMode && match c.stewardList.list with
    | some list => decide (list.members.length ≤ c.commitCandidateCount.1)
    | none => false
  let windowElapsed :=
    if c.isInRecoveryMode then
      elapsedSinceAnchor c.timing.phaseTimer c.now
        (c.config.recoveryAutoCommitDelay.getD 0 + c.config.retryWindow)
    else c.isFreezeWindowElapsed
  allCandidatesIn || windowElapsed

/-- Still collecting: report progress when it changed. -/
def reportProgress : ConvM P DispatchOutcome := do
  let c ← get
  if c.timing.lastCommitRoundProgress ≠ some c.commitCandidateCount then do
    modifyTiming fun t => { t with lastCommitRoundProgress := some c.commitCandidateCount }
    emitEvent (.commitRoundProgress c.commitCandidateCount.1 c.commitCandidateCount.2)
    pure .done
  else pure .done

/-- Drive a commit round that is collecting candidates. -/
def advanceFreezing : ConvM P DispatchOutcome := do
  let c ← get
  if c.state ≠ .freezing then do
    modifyTiming fun t => { t with lastCommitRoundProgress := none }
    pure .done
  else do
    (if c.isInRecoveryMode then maybeAutoCommitRecovery else pure ())
    let c' ← get
    if c'.roundOver then selectAndFinalize c.isInRecoveryMode else reportProgress

/-! ## The other drivers -/

/-- Propose buffered updates: the epoch steward at once, another steward after a grace. -/
def driveBufferedProposals : ConvM P Unit := do
  let c ← get
  if c.state ≠ .working ∨ 0 < c.queues.approvedProposalsCount ∨
      c.actionableBufferedUpdates = [] then
    modifyTiming fun t => { t with bufferedProposeAnchor := none }
  else if c.isEpochSteward then do
    modifyTiming fun t => { t with bufferedProposeAnchor := none }
    drainBufferedUpdates
  else if !c.isSteward then pure ()
  else
    match c.timing.bufferedProposeAnchor with
    | none => modifyTiming fun t => { t with bufferedProposeAnchor := some c.now }
    | some anchor =>
      if c.now < anchor + c.config.backupTakeoverWindow then pure ()
      else do
        modifyTiming fun t => { t with bufferedProposeAnchor := none }
        drainBufferedUpdates

/-- A backup steward re-sends the sync the epoch steward left unanswered. -/
def driveSyncResend : ConvM P Unit := do
  let c ← get
  match c.timing.syncResendAnchor with
  | none => pure ()
  | some anchor =>
    if c.isEpochSteward || !c.isSteward then
      modifyTiming fun t => { t with syncResendAnchor := none }
    else if c.now < anchor + c.config.backupTakeoverWindow then pure ()
    else do
      modifyTiming fun t => { t with syncResendAnchor := none }
      shareConversationSync

def requestConversationSync : ConvM P Unit := sendApp ⟨some .conversationSyncRequest⟩

/-- Ask for a sync while the list is missing or exhausted. -/
def driveSyncRequest : ConvM P Unit := do
  let c ← get
  let needsSync := match c.stewardList.list with
    | none => true
    | some l => l.isExhausted c.epoch
  if !needsSync || c.queues.hasElectionInFlight then
    modifyTiming fun t => { t with syncRequestAnchor := none }
  else if c.timing.syncRequestAnchor.any fun anchor =>
      decide (c.now < anchor + c.config.backupTakeoverWindow) then pure ()
  else do
    modifyTiming fun t => { t with syncRequestAnchor := some c.now }
    requestConversationSync

/-- Freeze over approved work a steward left waiting. -/
def startFreezeOnInactivity : ConvM P Unit := do
  let c ← get
  if c.queues.hasElectionInFlight then pure ()
  else do
    let inRecovery := c.isInRecoveryMode || decide (0 < c.stewardList.nextElectionRound) ||
      c.timing.reelectionRecovered
    let inactivity := if inRecovery then c.config.retryWindow else c.config.commitBatchWindow
    match ← checkStewardInactivity c.queues.approvedProposalsCount inactivity with
    | none => pure ()
    | some event => onFreezeEntered event

/-- A silent re-election counts as a rejected round. -/
def driveReelectionRetry : ConvM P Unit := do
  let c ← get
  if c.state ≠ .reelection ∨ c.queues.hasElectionInFlight then
    modifyTiming fun t => { t with reelectionSilenceAnchor := none }
  else
    match c.timing.reelectionSilenceAnchor with
    | none => modifyTiming fun t => { t with reelectionSilenceAnchor := some c.now }
    | some anchor =>
      if c.now < anchor + c.config.retryWindow then pure ()
      else do
        modifyTiming fun t => { t with reelectionSilenceAnchor := none }
        advanceElectionRetry

/-- One poll: every driver once, each one's error logged only. -/
def poll (fuel : Nat) : ConvM P PollOutcome := do
  tickDeadlines fuel
  let outcome ← (attempt advanceFreezing : ConvM P _)
  let _ ← (attempt driveBufferedProposals : ConvM P _)
  let _ ← (attempt driveSyncResend : ConvM P _)
  let _ ← (attempt driveSyncRequest : ConvM P _)
  let _ ← (attempt startFreezeOnInactivity : ConvM P _)
  let _ ← (attempt driveReelectionRetry : ConvM P _)
  let c ← get
  pure ⟨c.nextWakeupIn, match outcome with
    | .ok .leaveRequested => true
    | _ => false⟩

end Conversation

end DeMls
