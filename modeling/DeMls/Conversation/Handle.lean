import DeMls.Conversation.State

/-!
# Minting and the round entry points

The local commit candidate: the packing loop, its minting on freeze entry and in recovery, and the
conversation's side of a commit round.
-/

namespace DeMls

open Program

/-- The approved updates a batch packs, with the joiners it admits in Add order. With an urgent
target set only its removal is packed; an Add of a member and a Remove of a non-member are
skipped. -/
def packUpdates (O : OpenMls) (g : MlsGroup O.Secrets) (urgentTarget : Option Bytes) :
    List ConversationUpdateRequest → Except ConversationError (List MlsCommitInput × List Bytes)
  | [] => .ok ([], [])
  | proposal :: rest =>
    match proposal.payload with
    | some (.memberInvite keyPackageBytes) =>
      if urgentTarget.isSome then packUpdates O g urgentTarget rest
      else
        match signatureKeyOfKeyPackage O keyPackageBytes with
        | .error e => .error (.mls e)
        | .ok joinerKey =>
          if g.members.any fun m => m.signatureKey = joinerKey then
            packUpdates O g urgentTarget rest
          else
            match packUpdates O g urgentTarget rest with
            | .error e => .error e
            | .ok (updates, joiners) => .ok (.add keyPackageBytes :: updates, joinerKey :: joiners)
    | some (.removeMember memberId) =>
      if urgentTarget.any fun target => memberId ≠ target then packUpdates O g urgentTarget rest
      else if memberId ∉ g.memberIds then packUpdates O g urgentTarget rest
      else
        match packUpdates O g urgentTarget rest with
        | .error e => .error e
        | .ok (updates, joiners) => .ok (.remove memberId :: updates, joiners)
    | _ => .error .invalidConversationUpdateRequest

namespace Conversation

variable {P : Platform}

/-- What a mint packs: the first `commit_batch_max` approvals, in FIFO order. -/
def packedBatch (c : Conversation P) : Except ConversationError (List MlsCommitInput × List Bytes) :=
  packUpdates P.mls c.mls.group c.queues.urgentCommitTarget
    (c.queues.approvedProposals.values.take c.config.commitBatchMax)

/-- Approved proposals that are not a membership change; there must be none at batch creation. -/
def nonMlsIds (c : Conversation P) : List ProposalId :=
  (c.queues.approvedProposals.entries.filter fun e => (ProposalKind.of e.2).isGovernance).map
    Prod.fst

/-- Build our commit candidate and buffer it; `none` when there is nothing to commit. A batch with
our own removal is left to another steward. -/
def localCandidate (selfMemberId : Bytes) : ConvM P (Option CommitCandidate) := do
  let c ← get
  if !c.stewardList.isSteward selfMemberId && !c.isInRecoveryMode then throw .notASteward
  else if c.queues.approvedProposals.entries = [] then throw .noProposals
  else if c.queues.hasApprovedRemoval selfMemberId then pure none
  else if c.nonMlsIds ≠ [] then throw (.unexpectedNonMlsProposals c.nonMlsIds)
  else do
    let (updates, joinerIdentities) ← ofResult c.packedBatch
    if updates = [] then pure none
    else do
      let artifacts ← onMls (MlsService.createCommitCandidate updates)
      let candidate : CommitCandidate :=
        ⟨c.queues.conversationId, artifacts.proposals, artifacts.commit, selfMemberId⟩
      modify fun c => { c with queues := { c.queues with
        commitRound := (c.queues.commitRound.add P candidate true artifacts.welcome
          joinerIdentities c.epoch c.members.length).2 } }
      pure (some candidate)

/-- The wire bytes of the candidate just built. -/
def buildLocalCandidate (selfMemberId : Bytes) : ConvM P (Option Bytes) := do
  match ← localCandidate selfMemberId with
  | none => pure none
  | some candidate => pure (some (P.codec.encodeApp ⟨some (.commitCandidate candidate)⟩))

/-- Mint and broadcast our candidate; `false` when there was nothing to commit. -/
def mintAndBroadcastCandidate : ConvM P Bool := do
  let c ← get
  match ← buildLocalCandidate c.selfMemberId with
  | some payload => do
    broadcast payload
    pure true
  | none => pure false

/-- Entering the freeze: stewards mint, and a failed mint is reported, not propagated. -/
def onFreezeEntered (event : ConversationState) : ConvM P Unit := do
  let c ← get
  if c.isSteward then do
    match ← (attempt mintAndBroadcastCandidate : ConvM P _) with
    | .ok _ => emitEvent (.phaseChange event)
    | .error e => do
      emitEvent (.error "commit_candidate_build" e)
      emitEvent (.phaseChange event)
  else emitEvent (.phaseChange event)

/-- The manual commit of recovery mode. -/
def commitInRecovery : ConvM P Bool := do
  let c ← get
  if !c.isInRecoveryMode then throw .notInRecovery else mintAndBroadcastCandidate

/-- Rebroadcast our buffered candidate. -/
def resendCommit : ConvM P Bool := do
  let c ← get
  match c.queues.commitRound.localCandidateBytes P with
  | some payload => do
    broadcast payload
    pure true
  | none => pure false

def finalizeCommitRound (allowSubsetCandidates : Bool) (selfMemberId : Bytes) :
    ConvM P (CommitRoundResult P.mls) := do
  let c ← get
  onRound (DeMls.finalizeCommitRound c.stewardList c.isInRecoveryMode allowSubsetCandidates selfMemberId)

def replayEarlyCandidates : ConvM P Unit :=
  modify fun c => { c with queues := DeMls.replayEarlyCandidates P c.queues c.mls }

end Conversation

end DeMls
