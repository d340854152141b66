import DeMls.CommitRound.Validate
import DeMls.Events

/-!
# The commit round

Receiving and replaying candidates, the best-first apply loop with its local and remote paths,
and the finalization of a round.
-/

namespace DeMls

open Program RoundState

variable {P : Platform}

/-! ## Results -/

/-- The commit a round merged. Not in the source: it records which candidate won and the commit
the group merged, so that a result about the merge can name them; nothing reads it. -/
structure MergedCommit (O : OpenMls) where
  candidate : BufferedCommitCandidate
  /-- The merged commit; `none` when the winner was our own and nothing was pending. -/
  staged : Option O.StagedCommit

inductive CommitRoundOutcome
  | applied (result : ProcessResult) (welcome : Option MemberWelcome)
  | noCandidate
deriving DecidableEq, Repr

def CommitRoundOutcome.isApplied : CommitRoundOutcome → Bool
  | .applied _ _ => true
  | .noCandidate => false

/-- What `finalizeCommitRound` hands back. -/
structure CommitRoundResult (O : OpenMls) where
  outcome : CommitRoundOutcome
  scoreOps : List ScoreOp
  /-- Just-committed approvals in FIFO order; empty on a no-op and on an urgent-target commit. -/
  committedBatch : List ConversationUpdateRequest
  merged : Option (MergedCommit O)

/-- Outcome of applying one candidate: `terminal` ends the round, `drop` skips to the next. -/
inductive CandidateOutcome (O : OpenMls)
  | terminal (outcome : CommitRoundOutcome) (committer : Bytes)
      (committedBatch : List ConversationUpdateRequest) (merged : MergedCommit O)
  | drop (penalty : Option ScoreOp)

/-! ## Receiving candidates -/

def CommitBufferOutcome.intoProcessResult (o : CommitBufferOutcome) (stewardId : Bytes) :
    ProcessResult :=
  match o with
  | .buffered => .commitCandidateReceived stewardId
  | .duplicateHash => .noop .duplicateBufferedHash
  | .capReached => .noop .candidateBufferFull

/-- Validate a peer's candidate and buffer it; before any approval it is stashed instead. -/
def receiveCommitCandidate (P : Platform) (q : ConversationQueues) (mls : MlsService P.mls)
    (candidateMsg : CommitCandidate) : ProcessResult × ConversationQueues :=
  let isKind (kind : MlsMessageKind) (bytes : Bytes) : Bool :=
    (MlsService.inspectMessageKind P.mls bytes).toOption = some kind
  if q.hasCommittedHash (computeCommitHash P candidateMsg.commitMessage) then
    (.noop .alreadyCommitted, q)
  else if candidateMsg.mlsProposals = [] ∨ candidateMsg.commitMessage = [] then
    (.noop .emptyCandidatePayload, q)
  else if candidateMsg.stewardMemberId = [] then
    (.noop .emptyStewardMemberId, q)
  else if ¬ (candidateMsg.mlsProposals.all (isKind .proposal) ∧
      isKind .commit candidateMsg.commitMessage) then
    (.noop .wireKindMismatch, q)
  else
    let epoch := mls.group.epoch
    let maxCandidates := mls.members.length
    if q.approvedProposalsCount = 0 then
      (.noop .candidateStashedEarly, q.stashEarlyCandidate epoch candidateMsg maxCandidates)
    else
      let r := q.commitRound.add P candidateMsg false none [] epoch maxCandidates
      (r.1.intoProcessResult candidateMsg.stewardMemberId, { q with commitRound := r.2 })

/-- Re-buffer the candidates stashed before their proposal was approved. -/
def replayEarlyCandidates (P : Platform) (q : ConversationQueues) (mls : MlsService P.mls) :
    ConversationQueues :=
  let r := q.takeEarlyCandidates mls.group.epoch
  r.1.foldl (fun q candidate => (receiveCommitCandidate P q mls candidate).2) r.2

/-! ## Applying one candidate -/

/-- Post-commit bookkeeping: the cleared batch, empty when an urgent commit drops only its
target. -/
def finalizeCommittedBatch (q : ConversationQueues) (commitHash : CommitHash) (currentEpoch : Nat) :
    List ConversationUpdateRequest × ConversationQueues :=
  let q := q.insertCommittedHash commitHash
  let q := q.applyMembershipDeltaBookkeeping currentEpoch
  match q.takeUrgentCommitTarget with
  | (some target, q) => ([], q.dropApprovedRemovalsFor target)
  | (none, q) => q.drainApprovedProposals

/-- A merged commit either ejected the local member or advanced the group. -/
def leaveOrUpdate (selfRemoved : Bool) : ProcessResult :=
  if selfRemoved then .leaveConversation else .conversationUpdated

/-- Merge our own commit and surface the welcome held back until the merge. -/
def applyLocalCandidate (chosen : BufferedCommitCandidate) (ctx : RoundContext) :
    RoundM P (CandidateOutcome P.mls) := do
  let before ← get
  let delta ← onMls MlsService.mergeOwnCommit
  onQueues fun q => ((), q.storeMembershipDelta delta)
  let committedBatch ← onQueues fun q =>
    finalizeCommittedBatch q chosen.commitHash (ctx.currentEpoch + 1)
  let welcome := chosen.welcomeBytes.map fun w => ⟨w, [], chosen.joinerIdentities⟩
  pure (.terminal (.applied (leaveOrUpdate ctx.selfRemovePending) welcome)
    chosen.candidateMsg.stewardMemberId committedBatch
    ⟨chosen, P.mls.pendingCommit before.mls.group.secrets⟩)

/-- Roll back a staged remote candidate and drop it, optionally with a penalty. -/
def rejectStaged (penalty : Option ScoreOp) : RoundM P (CandidateOutcome P.mls) := do
  onMls MlsService.discardStagedCommit
  pure (.drop penalty)

/-- The remote candidate passed every gate: clear our own pending commit and merge the staged
one. -/
def mergeIncomingCandidate (chosen : BufferedCommitCandidate) (ctx : RoundContext)
    (commitSender : Bytes) (selfRemoved : Bool) : RoundM P (CandidateOutcome P.mls) := do
  onMls MlsService.discardOwnCommit
  let before ← get
  let delta ← onMls MlsService.mergeStagedCommit
  onQueues fun q => ((), q.storeMembershipDelta delta)
  let committedBatch ← onQueues fun q =>
    finalizeCommittedBatch q chosen.commitHash (ctx.currentEpoch + 1)
  pure (.terminal (.applied (leaveOrUpdate selfRemoved) none) commitSender committedBatch
    ⟨chosen, before.mls.pendingStagedCommit⟩)

/-- Stage, validate and merge another steward's candidate: stage, authorize the sender, match the
actions. The first failing gate rolls the staging back and drops the candidate. -/
def applyIncomingCandidate (stewardList : StewardListService) (chosen : BufferedCommitCandidate)
    (ctx : RoundContext) : RoundM P (CandidateOutcome P.mls) := do
  match ← stageCandidate chosen.candidateMsg ctx with
  | .abort => rejectStaged none
  | .violation v => rejectStaged v.targetScoreOp
  | .staged commitSender selfRemoved commitActions => do
    let s ← get
    match checkCommitSenderAuthorized stewardList commitSender ctx with
    | some violation => rejectStaged violation.targetScoreOp
    | none =>
      match validateCommitCandidate P.mls s.queues commitSender commitActions ctx with
      | some violation => rejectStaged violation.targetScoreOp
      | none => mergeIncomingCandidate chosen ctx commitSender selfRemoved

/-- Apply a candidate on its path: our own is merged as it is, a remote one validated first. -/
def applyCandidate (stewardList : StewardListService) (chosen : BufferedCommitCandidate)
    (ctx : RoundContext) : RoundM P (CandidateOutcome P.mls) :=
  if chosen.isLocalCandidate then applyLocalCandidate chosen ctx
  else applyIncomingCandidate stewardList chosen ctx

/-! ## The round -/

/-- Scores of a winning commit: its committer, an absent epoch steward, and the losers. -/
def winnerScores (committer selfMemberId : Bytes) (ctx : RoundContext)
    (losers : List BufferedCommitCandidate) (stewardList : StewardListService) : List ScoreOp :=
  let winner := [⟨committer, .successfulCommit⟩]
  let absent := match ctx.epochStewardId with
    | some expected =>
      if expected ≠ committer ∧ expected ≠ selfMemberId then
        [⟨expected, .censorshipInactivity⟩]
      else []
    | none => []
  winner ++ absent ++ losers.map fun loser =>
    let claimed := loser.candidateMsg.stewardMemberId
    ⟨claimed, if stewardList.isSteward claimed then .honestCommitAttempt else .misbehavingCommit⟩

/-- No candidate applied: drop any own pending commit and report a no-op with its penalties. -/
def discardAndFinish (scoreOps : List ScoreOp) : RoundM P (CommitRoundResult P.mls) := do
  onMls MlsService.discardOwnCommit
  pure ⟨.noCandidate, scoreOps, [], none⟩

/-- Walk the ranked candidates best-first; the first that applies wins. -/
def applyInPriorityOrder (stewardList : StewardListService) (ctx : RoundContext)
    (selfMemberId : Bytes) :
    List BufferedCommitCandidate → List ScoreOp → RoundM P (CommitRoundResult P.mls)
  | [], scoreOps => discardAndFinish scoreOps
  | chosen :: remaining, scoreOps => do
    match ← applyCandidate stewardList chosen ctx with
    | .terminal outcome committer committedBatch merged =>
      pure ⟨outcome,
        scoreOps ++ winnerScores committer selfMemberId ctx remaining stewardList,
        committedBatch, some merged⟩
    | .drop op =>
      applyInPriorityOrder stewardList ctx selfMemberId remaining (scoreOps ++ op.toList)

/-- Snapshot the round, rank the buffered candidates and apply them best-first. -/
def finalizeCommitRound (stewardList : StewardListService) (inRecovery allowSubset : Bool)
    (selfMemberId : Bytes) : RoundM P (CommitRoundResult P.mls) := do
  let s ← get
  let currentEpoch := s.mls.group.epoch
  let candidates ← onQueues fun q =>
    ((q.commitRound.take currentEpoch).1,
      { q with commitRound := (q.commitRound.take currentEpoch).2 })
  if candidates = [] then discardAndFinish []
  else do
    let s ← get
    let ctx := RoundContext.snapshot s.queues s.mls stewardList currentEpoch inRecovery selfMemberId
    let sorted := rankApplicableCandidates candidates ctx allowSubset
    if sorted = [] then discardAndFinish []
    else applyInPriorityOrder stewardList ctx selfMemberId sorted []

end DeMls
