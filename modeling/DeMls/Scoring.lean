import DeMls.Lib.Program
import DeMls.Lib.OrderedMap
import DeMls.Error

/-!
# Peer scoring

Score events and operations, the violation evidence that carries them, and the service that
applies them to a storage backend.
-/

namespace DeMls

/-! ## Events and operations -/

/-- An action by a group member that affects its peer score. -/
inductive ScoreEvent
  | brokenCommit
  | brokenMlsProposal
  | censorshipInactivity
  | emergencyYesCreator
  | emergencyNoCreator
  | successfulCommit
  | honestCommitAttempt
  | misbehavingCommit
deriving DecidableEq, Repr

def ScoreEvent.defaultDelta : ScoreEvent → Int
  | .brokenCommit => -50
  | .brokenMlsProposal => -30
  | .censorshipInactivity => -40
  | .emergencyYesCreator => 20
  | .emergencyNoCreator => -50
  | .successfulCommit => 10
  | .honestCommitAttempt => 5
  | .misbehavingCommit => -10

structure ScoreOp where
  memberId : Bytes
  event : ScoreEvent
deriving DecidableEq, Repr

/-! ## Violation evidence -/

namespace ViolationEvidence

/-- The shared shape of the constructors below; the creator is set before a vote. -/
def ofType (t : ViolationType) (target : Bytes) (epoch : Nat) (payload : Bytes) :
    ViolationEvidence where
  violationType := t.toWire
  targetMemberId := target
  evidencePayload := payload
  epoch := epoch
  creatorMemberId := []

def brokenCommit := ofType .brokenCommit

def brokenMlsProposal := ofType .brokenMlsProposal

def misbehavingCommit := ofType .misbehavingCommit

def scoreBelowThreshold (target : Bytes) (epoch : Nat) (currentScore : Int) : ViolationEvidence :=
  ofType .scoreBelowThreshold target epoch (i64LeBytes currentScore)

def deadlock (epoch : Nat) : ViolationEvidence := ofType .deadlock [] epoch []

def withCreator (ev : ViolationEvidence) (creator : Bytes) : ViolationEvidence :=
  { ev with creatorMemberId := creator }

/-- Wrap the evidence into a request for a vote; every emergency proposal names its creator. -/
def intoUpdateRequest (ev : ViolationEvidence) : Except ConversationError ConversationUpdateRequest :=
  if ev.creatorMemberId = [] then .error .invalidConversationUpdateRequest
  else .ok ⟨some (.emergencyCriteria (some ev))⟩

/-- The penalty the target takes; `none` for the types without a target-side score and for
unknown wire values. -/
def targetScoreEvent (ev : ViolationEvidence) : Option ScoreEvent :=
  match ViolationType.ofWire ev.violationType with
  | some .brokenCommit => some .brokenCommit
  | some .brokenMlsProposal => some .brokenMlsProposal
  | some .censorshipInactivity => some .censorshipInactivity
  | some .misbehavingCommit => some .misbehavingCommit
  | some .scoreBelowThreshold | some .deadlock | some .violationUnspecified | none => none

def targetScoreOp (ev : ViolationEvidence) : Option ScoreOp :=
  ev.targetScoreEvent.map fun event => ⟨ev.targetMemberId, event⟩

def creatorReward (ev : ViolationEvidence) : ScoreOp := ⟨ev.creatorMemberId, .emergencyYesCreator⟩

def creatorPenalty (ev : ViolationEvidence) : ScoreOp := ⟨ev.creatorMemberId, .emergencyNoCreator⟩

end ViolationEvidence

/-- The peer-score changes a finished emergency vote implies. -/
def emergencyScoreOps (request : ConversationUpdateRequest) (approved : Bool) : List ScoreOp :=
  match request.payload with
  | some (.emergencyCriteria (some evidence)) =>
    if approved then
      evidence.creatorReward :: evidence.targetScoreOp.toList
    else
      [evidence.creatorPenalty]
  | _ => []

/-! ## The scoring service -/

structure ScoringConfig where
  defaultScore : Int
  threshold : Int
deriving DecidableEq, Repr

def defaultPeerScore : Int := 100

/-- A starting score is positive and above the removal threshold. -/
def ScoringConfig.validate (c : ScoringConfig) : Except ConversationError Unit :=
  if c.defaultScore ≤ 0 then
    .error (.invalidConfig s!"default_peer_score must be positive, got {c.defaultScore}")
  else if c.defaultScore ≤ c.threshold then
    .error (.invalidConfig "default_peer_score must be greater than threshold")
  else .ok ()

/-- A member whose score changed, net of the batch that changed it. -/
structure ScoreChange where
  memberId : Bytes
  previous : Int
  score : Int
deriving DecidableEq, Repr

/-- Scores off the default, for a bootstrap. -/
structure ScoreSnapshot where
  diverged : List (Bytes × Int)
deriving DecidableEq, Repr

structure ScoringMemberDiff where
  toAdd : List Bytes
  toRemove : List Bytes
deriving DecidableEq, Repr

/-- Members to add to and to remove from a scoring table to match the MLS member set. -/
def scoringMemberDiff (scored mlsMembers : List Bytes) : ScoringMemberDiff where
  toAdd := mlsMembers.filter fun m => m ∉ scored
  toRemove := scored.filter fun m => m ∉ mlsMembers

/-- `i64::saturating_add`. -/
def saturatingAdd (a b : Int) : Int := max (-2 ^ 63) (min (2 ^ 63 - 1) (a + b))

structure PeerScoringService (S : PeerScoreStorage) where
  storage : S.Store
  /-- The default table with the integrator's overrides laid on top: total by construction. -/
  scoreDelta : ScoreEvent → Int
  config : ScoringConfig

namespace PeerScoringService

variable {S : PeerScoreStorage}

abbrev ScoringM (S : PeerScoreStorage) := EStateM ConversationError (PeerScoringService S)

/-- Read the storage, lifting the backend's error. -/
def readStorage {α : Type} (f : S.Store → Except String α) : ScoringM S α := fun svc =>
  match f svc.storage with
  | .ok a => .ok a svc
  | .error e => .error (.scoreStorage e) svc

/-- Write the storage, lifting the backend's error. -/
def writeStorage (f : S.Store → Except String Unit × S.Store) : ScoringM S Unit := fun svc =>
  match f svc.storage with
  | (.ok (), st) => .ok () { svc with storage := st }
  | (.error e, st) => .error (.scoreStorage e) { svc with storage := st }

/-- Start tracking a member at the configured default score. -/
def addMember (memberId : Bytes) : ScoringM S Unit := do
  let svc ← get
  writeStorage fun st => S.set st memberId svc.config.defaultScore

def removeMember (memberId : Bytes) : ScoringM S Unit := writeStorage fun st => S.remove st memberId

/-- One step of a batch. `touched` holds member, score before the batch and score so far, in
first-touch order. An op for an untracked member is dropped. -/
def applyOp (op : ScoreOp) (touched : List (Bytes × Int × Int)) :
    ScoringM S (List (Bytes × Int × Int)) := do
  let svc ← get
  match touched.find? fun t => t.1 = op.memberId with
  | some (_, _, soFar) =>
    let score := saturatingAdd soFar (svc.scoreDelta op.event)
    writeStorage fun st => S.set st op.memberId score
    pure (touched.map fun t => if t.1 = op.memberId then (t.1, t.2.1, score) else t)
  | none =>
    match ← readStorage fun st => S.get st op.memberId with
    | none => pure touched
    | some before =>
      let score := saturatingAdd before (svc.scoreDelta op.event)
      writeStorage fun st => S.set st op.memberId score
      pure (touched ++ [(op.memberId, before, score)])

def applyOpsLoop : List ScoreOp → List (Bytes × Int × Int) → ScoringM S (List (Bytes × Int × Int))
  | [], touched => pure touched
  | op :: ops, touched => do applyOpsLoop ops (← applyOp op touched)

/-- Apply a batch and report each member whose score moved, net. -/
def applyOps (ops : List ScoreOp) : ScoringM S (List ScoreChange) := do
  let touched ← applyOpsLoop ops []
  pure ((touched.filter fun t => t.2.1 ≠ t.2.2).map fun t => ⟨t.1, t.2.1, t.2.2⟩)

def applySnapshotLoop (defaultScore : Int) :
    List (Bytes × Int) → List ScoreChange → ScoringM S (List ScoreChange)
  | [], changes => pure changes
  | (memberId, score) :: rest, changes => do
    let previous := (← readStorage fun st => S.get st memberId).getD defaultScore
    writeStorage fun st => S.set st memberId score
    applySnapshotLoop defaultScore rest
      (if score ≠ previous then changes ++ [⟨memberId, previous, score⟩] else changes)

/-- Adopt the scores of a snapshot, tracking unknown members too. -/
def applySnapshot (snapshot : ScoreSnapshot) : ScoringM S (List ScoreChange) := do
  let svc ← get
  applySnapshotLoop svc.config.defaultScore snapshot.diverged []

/-- Scores off the default. -/
def snapshot : ScoringM S ScoreSnapshot := do
  let svc ← get
  let all ← readStorage S.allScores
  pure ⟨all.filter fun e => e.2 ≠ svc.config.defaultScore⟩

def scoreFor (memberId : Bytes) : ScoringM S (Option Int) := readStorage fun st => S.get st memberId

def allMembersWithScores : ScoringM S (List (Bytes × Int)) := readStorage S.allScores

def setThreshold (threshold : Int) : ScoringM S Unit :=
  modify fun svc => { svc with config := { svc.config with threshold := threshold } }

def rebaseLoop (previous defaultScore : Int) : List (Bytes × Int) → ScoringM S Unit
  | [] => pure ()
  | (memberId, score) :: rest => do
    if score = previous then
      writeStorage fun st => S.set st memberId defaultScore
      rebaseLoop previous defaultScore rest
    else
      rebaseLoop previous defaultScore rest

/-- Move the group's default; members still at the old default follow it. -/
def setDefaultScore (defaultScore : Int) : ScoringM S Unit := do
  let svc ← get
  let previous := svc.config.defaultScore
  set { svc with config := { svc.config with defaultScore := defaultScore } }
  if previous = defaultScore then pure ()
  else do
    let all ← readStorage S.allScores
    rebaseLoop previous defaultScore all

end PeerScoringService

end DeMls
