import DeMls.CommitRound.Round

/-!
# The conversation

Configuration, timers and state of one conversation, the programs that run on it, and its
primitive operations: phase transitions, deadlines, the event and outbound buffers.

Times are nanoseconds. The clock is read once per call: it is a field, moved between calls only.
-/

namespace DeMls

open Program

/-! ## Configuration -/

def milliseconds (n : Nat) : Nat := n * 10 ^ 6

def seconds (n : Nat) : Nat := n * 10 ^ 9

/-- `Timestamp::as_secs`. -/
def asSecs (t : Nat) : Nat := t / 10 ^ 9

structure ConversationConfig where
  commitBatchWindow : Nat
  freezeDuration : Nat
  retryWindow : Nat
  backupTakeoverWindow : Nat
  proposalExpiration : Nat
  consensusTimeout : Nat
  votingDelay : Nat
  pendingUpdateMaxEpochs : Nat
  maxReelectionAttempts : Nat
  livenessCriteriaYes : Bool
  maxConsensusSessions : Nat
  commitBatchMax : Nat
  dedupWindow : Nat
  recoveryAutoCommitDelay : Option Nat
  recoveryMaxRounds : Nat
  stewardList : StewardListConfig
deriving DecidableEq, Repr

namespace ConversationConfig

def default : ConversationConfig where
  commitBatchWindow := seconds 60
  freezeDuration := seconds 30
  retryWindow := seconds 5
  backupTakeoverWindow := seconds 20
  proposalExpiration := seconds 600
  consensusTimeout := seconds 30
  votingDelay := seconds 10
  pendingUpdateMaxEpochs := 3
  maxReelectionAttempts := 2
  livenessCriteriaYes := true
  maxConsensusSessions := 128
  commitBatchMax := 50
  dedupWindow := 10
  recoveryAutoCommitDelay := some (seconds 5)
  recoveryMaxRounds := 0
  stewardList := ⟨1, 2, false⟩

def applyNonzeroMs (field wireMs : Nat) : Nat := if wireMs ≠ 0 then milliseconds wireMs else field

/-- Adopt the group's timing; a zero field keeps the local one. -/
def applyTiming (c : ConversationConfig) (t : TimingConfig) : ConversationConfig :=
  { c with
    commitBatchWindow := applyNonzeroMs c.commitBatchWindow t.commitBatchWindowMs
    freezeDuration := applyNonzeroMs c.freezeDuration t.freezeDurationMs
    retryWindow := applyNonzeroMs c.retryWindow t.retryWindowMs
    backupTakeoverWindow := applyNonzeroMs c.backupTakeoverWindow t.backupTakeoverWindowMs
    proposalExpiration := applyNonzeroMs c.proposalExpiration t.proposalExpirationMs
    consensusTimeout := applyNonzeroMs c.consensusTimeout t.consensusTimeoutMs }

def validate (c : ConversationConfig) : Except ConversationError Unit :=
  if c.consensusTimeout ≤ c.votingDelay then
    .error (.invalidConfig "voting_delay must be < consensus_timeout")
  else if c.proposalExpiration ≤ c.consensusTimeout then
    .error (.invalidConfig "proposal_expiration must be > consensus_timeout")
  else if c.freezeDuration = 0 then
    .error (.invalidConfig "freeze_duration must be non-zero")
  else if c.stewardList.snMin < 1 ∨ c.stewardList.snMax < c.stewardList.snMin then
    .error (.invalidConfig "steward_list requires 1 <= sn_min <= sn_max")
  else .ok ()

/-- The wire form, in whole milliseconds. -/
def toTiming (c : ConversationConfig) : TimingConfig where
  commitBatchWindowMs := c.commitBatchWindow / 10 ^ 6 % 2 ^ 64
  freezeDurationMs := c.freezeDuration / 10 ^ 6 % 2 ^ 64
  proposalExpirationMs := c.proposalExpiration / 10 ^ 6 % 2 ^ 64
  consensusTimeoutMs := c.consensusTimeout / 10 ^ 6 % 2 ^ 64
  retryWindowMs := c.retryWindow / 10 ^ 6 % 2 ^ 64
  backupTakeoverWindowMs := c.backupTakeoverWindow / 10 ^ 6 % 2 ^ 64

end ConversationConfig

/-! ## State -/

inductive OperatingMode
  | normal
  | recovery
deriving DecidableEq, Repr

structure AutoVoteEntry where
  fireAt : Nat
  vote : Bool
deriving DecidableEq, Repr

/-- One item for the transport. -/
structure Outbound where
  conversationId : Bytes
  sender : Bytes
  payload : Bytes
deriving DecidableEq, Repr

/-- Timers, and the maps of pending deadlines in order of registration. -/
structure Timing where
  /-- `PhaseTimer`: the anchor of the current phase. -/
  phaseTimer : Option Nat
  pendingAutoVotes : OrderedMap ProposalId AutoVoteEntry
  pendingConsensusTimeouts : OrderedMap ProposalId Nat
  lastCommitRoundProgress : Option (Nat × Nat)
  bufferedProposeAnchor : Option Nat
  syncResendAnchor : Option Nat
  syncRequestAnchor : Option Nat
  reelectionSilenceAnchor : Option Nat
  reelectionRecovered : Bool

def Timing.new : Timing where
  phaseTimer := none
  pendingAutoVotes := .empty
  pendingConsensusTimeouts := .empty
  lastCommitRoundProgress := none
  bufferedProposeAnchor := none
  syncResendAnchor := none
  syncRequestAnchor := none
  reelectionSilenceAnchor := none
  reelectionRecovered := false

/-- `PhaseTimer::elapsed_since_anchor`. -/
def elapsedSinceAnchor (anchor : Option Nat) (now duration : Nat) : Bool :=
  match anchor with
  | some t => decide (t + duration ≤ now)
  | none => false

structure Conversation (P : Platform) where
  conversationId : Bytes
  now : Nat
  queues : ConversationQueues
  mls : MlsService P.mls
  scoring : PeerScoringService P.scores
  stewardList : StewardListService
  consensus : P.consensus.State
  /-- Outcomes published on the bus and not yet received. -/
  outcomes : List ConsensusEvent
  state : ConversationState
  config : ConversationConfig
  operatingMode : OperatingMode
  recoveryRounds : Nat
  timing : Timing
  selfMemberId : Bytes
  appId : Bytes
  pendingEvents : List ConversationEvent
  pendingOutbound : List Outbound

abbrev ConvM (P : Platform) := EStateM ConversationError (Conversation P)

namespace Conversation

variable {P : Platform} {α : Type}

/-! ## Parts -/

def mlsPart : Part (Conversation P) (MlsService P.mls) where
  get := Conversation.mls
  set m c := { c with mls := m }
  get_set _ _ := rfl

def scoringPart : Part (Conversation P) (PeerScoringService P.scores) where
  get := Conversation.scoring
  set s c := { c with scoring := s }
  get_set _ _ := rfl

/-- What a commit round works on. -/
def roundPart : Part (Conversation P) (RoundState P) where
  get c := ⟨c.queues, c.mls⟩
  set r c := { c with queues := r.queues, mls := r.mls }
  get_set _ _ := rfl

def onMls (x : EStateM MlsError (MlsService P.mls) α) : ConvM P α := zoom mlsPart .mls x

def onScoring (x : PeerScoringService.ScoringM P.scores α) : ConvM P α := zoom scoringPart id x

def onRound (x : RoundM P α) : ConvM P α := zoom roundPart id x

/-- A call of the consensus service; the outcomes it publishes join the queue. -/
def onConsensus
    (f : P.consensus.State → Except ConsensusError α × P.consensus.State × List ConsensusEvent) :
    ConvM P α :=
  ofPair fun c => ((f c.consensus).1.mapError .consensus,
    { c with consensus := (f c.consensus).2.1, outcomes := c.outcomes ++ (f c.consensus).2.2 })

/-- The state a call of the consensus service leaves. -/
def answered (st : P.consensus.State) (outs : List ConsensusEvent) (c : Conversation P) :
    Conversation P :=
  { c with consensus := st, outcomes := c.outcomes ++ outs }

theorem onConsensus_ok
    {f : P.consensus.State → Except ConsensusError α × P.consensus.State × List ConsensusEvent}
    {c : Conversation P} {a : α} {st : P.consensus.State} {outs : List ConsensusEvent}
    (h : f c.consensus = (.ok a, st, outs)) :
    (onConsensus f : ConvM P α) c = .ok a (c.answered st outs) := by
  unfold onConsensus ofPair
  simp only [h]
  rfl

theorem onConsensus_error
    {f : P.consensus.State → Except ConsensusError α × P.consensus.State × List ConsensusEvent}
    {c : Conversation P} {e : ConsensusError} {st : P.consensus.State} {outs : List ConsensusEvent}
    (h : f c.consensus = (.error e, st, outs)) :
    (onConsensus f : ConvM P α) c = .error (.consensus e) (c.answered st outs) := by
  unfold onConsensus ofPair
  simp only [h]
  rfl

def modifyQueues (f : ConversationQueues → ConversationQueues) : ConvM P Unit :=
  modify fun c => { c with queues := f c.queues }

def modifyTiming (f : Timing → Timing) : ConvM P Unit :=
  modify fun c => { c with timing := f c.timing }

/-! ## Buffers -/

def emitEvent (event : ConversationEvent) : ConvM P Unit :=
  modify fun c => { c with pendingEvents := c.pendingEvents ++ [event] }

/-- Queue a payload for the transport. -/
def broadcast (payload : Bytes) : ConvM P Unit :=
  modify fun c => { c with
    pendingOutbound := c.pendingOutbound ++ [⟨c.conversationId, c.appId, payload⟩] }

def emitScoreChanges : List ScoreChange → ConvM P Unit
  | [] => pure ()
  | change :: rest => do
    emitEvent (.memberScoreChanged change.memberId change.previous change.score)
    emitScoreChanges rest

theorem emitScoreChanges_succeeds (changes : List ScoreChange) :
    Succeeds (emitScoreChanges changes : ConvM P Unit) := by
  induction changes with
  | nil => exact succeeds_pure _
  | cons change rest ih => exact succeeds_bind (succeeds_modify _) fun _ => ih

def applyScoreOps (ops : List ScoreOp) : ConvM P Unit := do
  let changes ← onScoring (PeerScoringService.applyOps ops)
  emitScoreChanges changes

def applyScoreSnapshot (snapshot : ScoreSnapshot) : ConvM P Unit := do
  let changes ← onScoring (PeerScoringService.applySnapshot snapshot)
  emitScoreChanges changes

/-! ## Modes and phases -/

def isInRecoveryMode (c : Conversation P) : Bool := c.operatingMode = .recovery

def enterRecoveryMode : ConvM P Unit :=
  modify fun c => { c with operatingMode := .recovery, recoveryRounds := 0 }

def exitRecoveryMode : ConvM P Unit := modify fun c => { c with operatingMode := .normal }

def startWorking : ConvM P ConversationState := do
  modify fun c => { c with state := .working, timing := { c.timing with phaseTimer := none } }
  pure .working

/-- Legal from `Working` and `Reelection` only. -/
def startFreezing : ConvM P (Option ConversationState) := do
  let c ← get
  if c.state = .working ∨ c.state = .reelection then do
    modify fun c => { c with
      state := .freezing
      timing := { c.timing with phaseTimer := some c.now } }
    pure (some .freezing)
  else pure none

def startSelection : ConvM P ConversationState := do
  modify fun c => { c with state := .selection }
  pure .selection

def startReelection : ConvM P ConversationState := do
  modify fun c => { c with state := .reelection, timing := { c.timing with phaseTimer := none } }
  pure .reelection

/-- Back from `Selection` to a fresh freeze window. -/
def reopenRecoveryWindow : ConvM P (Option ConversationState) := do
  let c ← get
  if c.state = .selection then do
    modify fun c => { c with
      state := .freezing
      timing := { c.timing with phaseTimer := some c.now } }
    pure (some .freezing)
  else pure none

def emitPhaseChange (transition : Option ConversationState) : ConvM P Unit :=
  match transition with
  | some state => emitEvent (.phaseChange state)
  | none => pure ()

def isFreezeWindowElapsed (c : Conversation P) : Bool :=
  decide (c.state = .freezing) &&
    elapsedSinceAnchor c.timing.phaseTimer c.now c.config.freezeDuration

/-- Start the inactivity timer over approved work, or enter the freeze once it has run out. -/
def checkStewardInactivity (approvedProposalsCount inactivityDuration : Nat) :
    ConvM P (Option ConversationState) := do
  let c ← get
  if c.state ≠ .working ∨ approvedProposalsCount = 0 then pure none
  else if c.timing.phaseTimer = none then do
    modifyTiming fun t => { t with phaseTimer := some c.now }
    pure none
  else if ¬ elapsedSinceAnchor c.timing.phaseTimer c.now inactivityDuration then pure none
  else startFreezing

/-! ## Deadlines -/

def registerAutoVote (proposalId : ProposalId) (delay : Nat) (vote : Bool) : ConvM P Unit :=
  modify fun c => { c with timing := { c.timing with
    pendingAutoVotes := c.timing.pendingAutoVotes.insert proposalId ⟨c.now + delay, vote⟩ } }

def cancelAutoVote (proposalId : ProposalId) : ConvM P Unit :=
  modifyTiming fun t => { t with pendingAutoVotes := t.pendingAutoVotes.erase proposalId }

def cancelAllAutoVotes : ConvM P Unit :=
  modifyTiming fun t => { t with pendingAutoVotes := .empty }

def registerConsensusTimeout (proposalId : ProposalId) (delay : Nat) : ConvM P Unit :=
  modify fun c => { c with timing := { c.timing with
    pendingConsensusTimeouts := c.timing.pendingConsensusTimeouts.insert proposalId
      (c.now + delay) } }

def unregisterConsensusTimeout (proposalId : ProposalId) : ConvM P Unit :=
  modifyTiming fun t => { t with
    pendingConsensusTimeouts := t.pendingConsensusTimeouts.erase proposalId }

/-- When the current phase runs out. -/
def phaseDeadline (c : Conversation P) : Option Nat :=
  match c.timing.phaseTimer with
  | none => none
  | some anchor =>
    match c.state with
    | .freezing => some (anchor + c.config.freezeDuration)
    | .working =>
      if c.queues.approvedProposalsCount = 0 then none
      else if c.isInRecoveryMode then some (anchor + c.config.retryWindow)
      else some (anchor + c.config.commitBatchWindow)
    | .selection | .reelection => none

def syncRequestDeadline (c : Conversation P) : Option Nat :=
  c.timing.syncRequestAnchor.map (· + c.config.backupTakeoverWindow)

/-- How long the integrator may sleep; `none` when no deadline is pending. -/
def nextWakeupIn (c : Conversation P) : Option Nat :=
  let deadlines := c.timing.pendingConsensusTimeouts.values ++
    c.timing.pendingAutoVotes.values.map (·.fireAt) ++
    c.phaseDeadline.toList ++ c.syncRequestDeadline.toList
  deadlines.min?.map (· - c.now)

/-! ## Queries -/

def epoch (c : Conversation P) : Nat := c.mls.group.epoch

def members (c : Conversation P) : List Bytes := c.mls.members

def isSteward (c : Conversation P) : Bool := c.stewardList.isSteward c.selfMemberId

def isEpochSteward (c : Conversation P) : Bool :=
  decide ((c.stewardList.epochAndBackup c.epoch (c.queues.stewardEligibility c.members)).1 =
    some c.selfMemberId)

/-- Candidates received, and stewards on the installed list. -/
def commitCandidateCount (c : Conversation P) : Nat × Nat :=
  (c.queues.commitRound.candidateCount,
    match c.stewardList.list with
    | some l => l.members.length
    | none => 0)

/-- The members settled at `epoch`, in roster order. -/
def settledPool (c : Conversation P) (epoch : Nat) : List Bytes :=
  c.queues.settledMembers c.members epoch

end Conversation

end DeMls
