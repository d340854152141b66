import DeMls.Lib.Selection
import DeMls.Queues
import DeMls.Scoring
import DeMls.StewardList

/-!
# Commit validation

The pre-merge snapshot of a round, the ranking of its candidates, and the three gates a remote
candidate passes: staging, the committer's authority, the match of its actions against the
approved set.
-/

namespace DeMls

open Program Selection

/-! ## The state of a round -/

/-- The conversation state a commit round reads and writes. -/
structure RoundState (P : Platform) where
  queues : ConversationQueues
  mls : MlsService P.mls

abbrev RoundM (P : Platform) := EStateM ConversationError (RoundState P)

namespace RoundState

variable {P : Platform} {α : Type}

def mlsPart : Part (RoundState P) (MlsService P.mls) where
  get := RoundState.mls
  set m s := { s with mls := m }
  get_set _ _ := rfl

/-- Run an MLS operation inside the round. -/
def onMls (x : EStateM MlsError (MlsService P.mls) α) : RoundM P α := zoom mlsPart .mls x

/-- Update the queues, returning a value. -/
def onQueues (f : ConversationQueues → α × ConversationQueues) : RoundM P α := fun s =>
  .ok (f s.queues).1 { s with queues := (f s.queues).2 }

@[simp] theorem onQueues_apply (f : ConversationQueues → α × ConversationQueues) (s : RoundState P) :
    onQueues f s = .ok (f s.queues).1 { s with queues := (f s.queues).2 } := rfl

end RoundState

open RoundState

/-! ## The round context -/

/-- Pre-merge round state that candidate apply reads from. -/
structure RoundContext where
  /-- Number of MLS-producing approvals. -/
  mlsCount : Nat
  /-- Our own removal is in the approved batch. -/
  selfRemovePending : Bool
  currentEpoch : Nat
  inRecovery : Bool
  /-- The eligible steward expected at `currentEpoch`. -/
  epochStewardId : Option Bytes
deriving DecidableEq, Repr

def RoundContext.snapshot {P : Platform} (q : ConversationQueues) (mls : MlsService P.mls)
    (stewardList : StewardListService) (currentEpoch : Nat) (inRecovery : Bool)
    (selfMemberId : Bytes) : RoundContext where
  mlsCount := (q.approvedProposals.values.filter (·.producesMlsAction)).length
  selfRemovePending := q.hasApprovedRemoval selfMemberId
  currentEpoch := currentEpoch
  inRecovery := inRecovery
  epochStewardId := stewardList.epochSteward currentEpoch (q.stewardEligibility mls.members)

/-! ## Selection -/

/-- Tier 0 for the epoch steward, 1 for everyone else. -/
def candidateTier (epochStewardId : Option Bytes) (c : BufferedCommitCandidate) : Nat :=
  if epochStewardId = some c.candidateMsg.stewardMemberId then 0 else 1

/-- Priority: largest proposal count, then the epoch steward, then the smallest
`steward_member_id`, then the lowest commit hash. -/
def compareCandidatePriority (epochStewardId : Option Bytes) (a b : BufferedCommitCandidate) :
    Ordering :=
  (compare b.candidateMsg.mlsProposals.length a.candidateMsg.mlsProposals.length).then <|
  (compare (candidateTier epochStewardId a) (candidateTier epochStewardId b)).then <|
  (compare a.candidateMsg.stewardMemberId b.candidateMsg.stewardMemberId).then <|
  compare a.commitHash b.commitHash

/-- The count filter: the whole voted set, or at most that many in subset mode. -/
def countApplicable (ctx : RoundContext) (allowSubset : Bool) (c : BufferedCommitCandidate) : Bool :=
  if allowSubset then decide (c.candidateMsg.mlsProposals.length ≤ ctx.mlsCount)
  else decide (c.candidateMsg.mlsProposals.length = ctx.mlsCount)

/-- Filter the candidates by action count, then sort the survivors best-first. -/
def rankApplicableCandidates (candidates : List BufferedCommitCandidate) (ctx : RoundContext)
    (allowSubset : Bool) : List BufferedCommitCandidate :=
  sortBy (compareCandidatePriority ctx.epochStewardId)
    (candidates.filter (countApplicable ctx allowSubset))

/-! ## Staging -/

inductive StagingOutcome
  | staged (commitSender : Bytes) (selfRemoved : Bool) (commitActions : List MlsProposalOutput)
  | abort
  | violation (evidence : ViolationEvidence)
deriving DecidableEq, Repr

/-- Stage proposals and commit; the wire-claimed steward must be the MLS-verified sender. -/
def stageCandidate {P : Platform} (candidate : CommitCandidate) (ctx : RoundContext) :
    RoundM P StagingOutcome := do
  let r : Except ConversationError StagedCandidateResult ← attempt
    (onMls (MlsService.stageRemoteCommit candidate.mlsProposals candidate.commitMessage))
  match r with
  | .ok (.staged commitSender selfRemoved actions) =>
    if candidate.stewardMemberId ≠ commitSender then
      pure (.violation (.brokenCommit commitSender ctx.currentEpoch
        (textBytes "commit candidate's steward_member_id doesn't match MLS commit sender")))
    else
      pure (.staged commitSender selfRemoved actions)
  | .ok (.bundleSenderMismatch commitSender) =>
    pure (.violation (.brokenCommit commitSender ctx.currentEpoch
      (textBytes "commit bundles proposals not signed by the committer")))
  | .ok .aborted => pure .abort
  | .error _ => pure .abort

/-! ## Authority and actions -/

/-- The membership change an action performs. -/
inductive ActionKind
  | add
  | remove
deriving DecidableEq, Repr

def ActionKind.ordinal : ActionKind → Nat
  | .add => 0
  | .remove => 1

/-- `(kind, id)`: an add keys on the joiner's signature key, a remove on the target's id. -/
abbrev Action := ActionKind × Bytes

def compareAction (a b : Action) : Ordering :=
  (compare a.1.ordinal b.1.ordinal).then (compare a.2 b.2)

/-- Projection of an approved request; `none` for payloads without an MLS action. -/
def actionProjectionFromRequest (O : OpenMls) (req : ConversationUpdateRequest) : Option Action :=
  match req.payload with
  | some (.memberInvite keyPackageBytes) =>
    match signatureKeyOfKeyPackage O keyPackageBytes with
    | .ok key => some (.add, key)
    | .error _ => none
  | some (.removeMember memberId) => some (.remove, memberId)
  | _ => none

/-- Projection of an MLS-staged action. -/
def actionProjectionFromMls : MlsProposalOutput → Action
  | .add id => (.add, id)
  | .remove id => (.remove, id)

/-- The voted-approved membership changes, in queue order. -/
def votedActions (O : OpenMls) (q : ConversationQueues) : List Action :=
  q.approvedProposals.values.filterMap (actionProjectionFromRequest O)

/-- Display text of an action, `Add([1, 2])`. -/
def MlsProposalOutput.display : MlsProposalOutput → String
  | .add id => s!"Add({id})"
  | .remove id => s!"Remove({id})"

/-- Display text of a projection, `(Add, [1, 2])`. -/
def Action.display (a : Action) : String :=
  match a.1 with
  | .add => s!"(Add, {a.2})"
  | .remove => s!"(Remove, {a.2})"

/-- Check that a commit's MLS actions match the voted-approved set, both as deduplicated sets. -/
def validateCommitCandidate (O : OpenMls) (q : ConversationQueues) (senderId : Bytes)
    (mlsActions : List MlsProposalOutput) (ctx : RoundContext) : Option ViolationEvidence :=
  let expected := sortDedup compareAction (votedActions O q)
  let actual := sortDedup compareAction (mlsActions.map actionProjectionFromMls)
  if expected = actual then none
  else some (.brokenMlsProposal senderId ctx.currentEpoch (textBytes
    s!"MLS actions {mlsActions.map (·.display)} != voted {expected.map Action.display}"))

/-- Any steward-list member may commit; in recovery, and before a list is installed, anyone. -/
def checkCommitSenderAuthorized (stewardList : StewardListService) (commitSender : Bytes)
    (ctx : RoundContext) : Option ViolationEvidence :=
  if ctx.inRecovery then none
  else if stewardList.list = none then none
  else if stewardList.isSteward commitSender then none
  else some (.misbehavingCommit commitSender ctx.currentEpoch
    (textBytes "commit from unauthorized sender (not on the steward list)"))

/-! ## Facts about the comparison -/

theorem compareAction_eq : compareAction =
    compareLex (compareOn fun a : Action => a.1.ordinal) (compareOn fun a : Action => a.2) := rfl

instance : Std.TransCmp compareAction := by
  rw [compareAction_eq]
  infer_instance

instance : Std.LawfulEqCmp compareAction where
  eq_of_compare := by
    rintro ⟨ka, ia⟩ ⟨kb, ib⟩ h
    unfold compareAction at h
    rw [Ordering.then_eq_eq] at h
    obtain ⟨hk, hi⟩ := h
    have hi := Std.LawfulEqCmp.eq_of_compare hi
    have hk := Std.LawfulEqCmp.eq_of_compare hk
    cases ka <;> cases kb <;> simp_all [ActionKind.ordinal]

theorem compareCandidatePriority_eq (es : Option Bytes) : compareCandidatePriority es =
    compareLex (fun a b => compareOn (fun c => c.candidateMsg.mlsProposals.length) b a)
      (compareLex (compareOn (candidateTier es))
        (compareLex (compareOn fun c => c.candidateMsg.stewardMemberId)
          (compareOn fun c => c.commitHash))) := rfl

instance (es : Option Bytes) : Std.TransCmp (compareCandidatePriority es) := by
  rw [compareCandidatePriority_eq]
  infer_instance

/-- Candidates that compare equal have one commit hash. -/
theorem commitHash_eq_of_compare {es : Option Bytes} {a b : BufferedCommitCandidate}
    (h : compareCandidatePriority es a b = .eq) : a.commitHash = b.commitHash := by
  unfold compareCandidatePriority at h
  simp only [Ordering.then_eq_eq] at h
  exact Std.LawfulEqCmp.eq_of_compare h.2.2.2

/-- **The action gate.** A commit passes exactly when its actions and the voted ones are one
set. -/
theorem validateCommitCandidate_eq_none_iff {O : OpenMls} {q : ConversationQueues} {id : Bytes}
    {actions : List MlsProposalOutput} {ctx : RoundContext} :
    validateCommitCandidate O q id actions ctx = none ↔
      ∀ a, a ∈ votedActions O q ↔ a ∈ actions.map actionProjectionFromMls := by
  unfold validateCommitCandidate
  simp only [ite_eq_left_iff, reduceCtorEq, imp_false, not_not]
  exact sortDedup_eq_iff

end DeMls
