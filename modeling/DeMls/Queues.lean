import Mathlib.Data.Finset.Basic
import DeMls.Lib.OrderedMap
import DeMls.Mls.Service
import DeMls.CommitRound.Buffer

/-!
# The conversation queues

Per-conversation protocol state: the approved and voting proposals, the commit-round buffer, the
pending updates, the urgent commit target and the join epochs.
-/

namespace DeMls

/-! ## Requests -/

/-- Protocol role of a request, in priority order. -/
inductive ProposalKind
  | commit
  | stewardElection
  | emergency
deriving DecidableEq, Repr

namespace ProposalKind

/-- The ordinal of a kind. -/
def ordinal : ProposalKind → Nat
  | .commit => 0
  | .stewardElection => 1
  | .emergency => 2

/-- Classify a request; an absent payload is a `commit`. -/
def of (req : ConversationUpdateRequest) : ProposalKind :=
  match req.payload with
  | some (.emergencyCriteria _) => .emergency
  | some (.stewardElection _) => .stewardElection
  | _ => .commit

def isEmergency (k : ProposalKind) : Bool := k = .emergency

def isStewardElection (k : ProposalKind) : Bool := k = .stewardElection

/-- The kinds that are not a membership change. -/
def isGovernance (k : ProposalKind) : Bool := k ≠ .commit

end ProposalKind

/-- Deterministic proposal id of a self-leave: the first four bytes of the id's hash. -/
def selfLeaveProposalId (P : Platform) (memberId : Bytes) : ProposalId :=
  match P.sha256 memberId with
  | a :: b :: c :: d :: _ => (fromBeBytes a b c d).toNat
  | _ => 0

/-- The target of a membership change: a removal's `member_id`, or an invite's signature key. -/
def targetMemberIdOf (O : OpenMls) (request : ConversationUpdateRequest) : Option Bytes :=
  match request.payload with
  | some (.memberInvite keyPackageBytes) => (signatureKeyOfKeyPackage O keyPackageBytes).toOption
  | some (.removeMember memberId) => some memberId
  | _ => none

/-- The member a proposal will add or remove once it lands, a score-below-threshold emergency
included. -/
def inFlightTarget (O : OpenMls) (request : ConversationUpdateRequest) : Option Bytes :=
  match targetMemberIdOf O request with
  | some id => some id
  | none =>
    match request.payload with
    | some (.emergencyCriteria (some ev)) =>
      if ViolationType.ofWire ev.violationType = some .scoreBelowThreshold then
        some ev.targetMemberId
      else none
    | _ => none

/-- True iff `req` is a `RemoveMember` targeting `memberId`. -/
def removesMember (req : ConversationUpdateRequest) (memberId : Bytes) : Bool :=
  req.payload = some (.removeMember memberId)

@[simp] theorem removesMember_removeMember (id memberId : Bytes) :
    removesMember (.removeMember id) memberId = decide (id = memberId) := by
  simp [removesMember, ConversationUpdateRequest.removeMember]

/-- True when `req` admits `memberId`, whatever key package it carries. -/
def invitesMember (O : OpenMls) (req : ConversationUpdateRequest) (memberId : Bytes) : Bool :=
  match req.payload with
  | some (.memberInvite keyPackageBytes) =>
    (signatureKeyOfKeyPackage O keyPackageBytes).toOption = some memberId
  | _ => false

/-! ## State -/

/-- What the queues keep of an in-flight proposal: whom it targets and its kind. -/
structure VotingMeta where
  target : Option Bytes
  kind : ProposalKind
deriving DecidableEq, Repr

/-- A membership update that may not be committed yet. -/
structure PendingUpdate where
  request : ConversationUpdateRequest
  firstSeenEpoch : Nat
deriving DecidableEq, Repr

/-- Capacity of the resolved-outcome dedup set. -/
def resolvedProposalCacheCapacity : Nat := 256

structure ConversationQueues where
  conversationId : Bytes
  /-- Proposals that passed consensus, waiting for a steward to commit, in FIFO order. -/
  approvedProposals : OrderedMap ProposalId ConversationUpdateRequest
  votingProposals : OrderedMap ProposalId VotingMeta
  activeEmergencyIds : Finset ProposalId
  committedBatchHashes : BoundedSet CommitHash
  commitRound : CommitRoundBuffer
  pendingUpdates : OrderedMap Bytes PendingUpdate
  resolvedProposals : BoundedSet ProposalId
  /-- When set, the next freeze cycle commits only the removal of this member. -/
  urgentCommitTarget : Option Bytes
  earlyCandidates : List (Nat × CommitCandidate)
  memberJoinEpoch : OrderedMap Bytes Nat
  welcomeBroadcastHashes : BoundedSet CommitHash
  pendingMembershipDelta : Option MembershipDelta

namespace ConversationQueues

def new (conversationId : Bytes) (dedupWindow : Nat) : ConversationQueues where
  conversationId := conversationId
  approvedProposals := .empty
  votingProposals := .empty
  activeEmergencyIds := ∅
  committedBatchHashes := .new dedupWindow
  commitRound := .default
  pendingUpdates := .empty
  resolvedProposals := .new resolvedProposalCacheCapacity
  urgentCommitTarget := none
  earlyCandidates := []
  memberJoinEpoch := .empty
  welcomeBroadcastHashes := .new dedupWindow
  pendingMembershipDelta := none

/-! ## Approved proposals -/

def approvedProposalsCount (q : ConversationQueues) : Nat := q.approvedProposals.length

/-- True iff the approved queue carries any `RemoveMember(memberId)`. -/
def hasApprovedRemoval (q : ConversationQueues) (memberId : Bytes) : Bool :=
  q.approvedProposals.values.any fun req => removesMember req memberId

/-- True iff the approved queue already admits `memberId`. -/
def hasApprovedInvite (O : OpenMls) (q : ConversationQueues) (memberId : Bytes) : Bool :=
  q.approvedProposals.values.any fun req => invitesMember O req memberId

/-- True if `memberId` has a self-leave waiting for the next commit. -/
def isPendingSelfLeave (P : Platform) (q : ConversationQueues) (memberId : Bytes) : Bool :=
  match q.approvedProposals.find? (selfLeaveProposalId P memberId) with
  | some req => removesMember req memberId
  | none => false

def insertApprovedProposal (q : ConversationQueues) (proposalId : ProposalId)
    (proposal : ConversationUpdateRequest) : ConversationQueues :=
  { q with approvedProposals := q.approvedProposals.insert proposalId proposal }

/-- Clear the approved queue and return it in FIFO order. -/
def drainApprovedProposals (q : ConversationQueues) :
    List ConversationUpdateRequest × ConversationQueues :=
  (q.approvedProposals.values, { q with approvedProposals := .empty })

/-- Drop every `RemoveMember(target)` entry; other approvals stay. -/
def dropApprovedRemovalsFor (q : ConversationQueues) (target : Bytes) : ConversationQueues :=
  { q with approvedProposals := q.approvedProposals.retain fun e => !removesMember e.2 target }

/-- An MLS member without a queued removal may serve as steward. -/
def stewardEligibility (q : ConversationQueues) (mlsMembers : List Bytes) (candidate : Bytes) :
    Bool :=
  !q.hasApprovedRemoval candidate && decide (candidate ∈ mlsMembers)

/-! ## Settled membership -/

def storeMembershipDelta (q : ConversationQueues) (delta : MembershipDelta) : ConversationQueues :=
  { q with pendingMembershipDelta := some delta }

def takeMembershipDelta (q : ConversationQueues) : MembershipDelta × ConversationQueues :=
  (q.pendingMembershipDelta.getD .empty, { q with pendingMembershipDelta := none })

/-- A departed member: its buffered update, its queued removals and its join epoch go. -/
def forgetRemoved (q : ConversationQueues) (member : MemberId) : ConversationQueues :=
  let id := memberIdOf member.leaf
  let q := { q with pendingUpdates := q.pendingUpdates.erase id }
  let q := q.dropApprovedRemovalsFor id
  { q with memberJoinEpoch := q.memberJoinEpoch.erase id }

/-- A joined member: its buffered invite goes and `epoch` becomes its join epoch. -/
def recordAdded (epoch : Nat) (q : ConversationQueues) (m : Member) : ConversationQueues :=
  { q with
    pendingUpdates := q.pendingUpdates.erase m.signatureKey
    memberJoinEpoch := q.memberJoinEpoch.insert (memberIdOf m.index) epoch }

/-- Update the queues from the saved membership delta, removals first. -/
def applyMembershipDeltaBookkeeping (q : ConversationQueues) (epoch : Nat) : ConversationQueues :=
  match q.pendingMembershipDelta with
  | none => q
  | some delta => delta.added.foldl (recordAdded epoch) (delta.removed.foldl forgetRemoved q)

/-- Settled once the epoch has advanced past the member's join epoch; a member never tracked is
settled. -/
def isSettled (q : ConversationQueues) (memberId : Bytes) (currentEpoch : Nat) : Bool :=
  match q.memberJoinEpoch.find? memberId with
  | some joinEpoch => joinEpoch < currentEpoch
  | none => true

def settledMembers (q : ConversationQueues) (members : List Bytes) (currentEpoch : Nat) :
    List Bytes :=
  members.filter fun m => q.isSettled m currentEpoch

/-! ## Voting proposals and emergencies -/

/-- Record a proposal as in flight; a later sighting leaves the first entry untouched. -/
def trackVotingProposal (O : OpenMls) (q : ConversationQueues) (proposalId : ProposalId)
    (proposal : ConversationUpdateRequest) : ConversationQueues :=
  if q.votingProposals.contains proposalId then q
  else { q with
    votingProposals :=
      q.votingProposals.insert proposalId ⟨inFlightTarget O proposal, .of proposal⟩ }

def removeVotingProposal (q : ConversationQueues) (proposalId : ProposalId) : ConversationQueues :=
  { q with votingProposals := q.votingProposals.erase proposalId }

def hasElectionInFlight (q : ConversationQueues) : Bool :=
  q.votingProposals.values.any fun m => m.kind.isStewardElection

/-- Members targeted by a live proposal, voting or approved. -/
def activeProposalTargets (O : OpenMls) (q : ConversationQueues) : List Bytes :=
  q.votingProposals.values.filterMap (·.target) ++
    q.approvedProposals.values.filterMap (targetMemberIdOf O)

def insertEmergency (q : ConversationQueues) (proposalId : ProposalId) : ConversationQueues :=
  { q with activeEmergencyIds := insert proposalId q.activeEmergencyIds }

def removeEmergency (q : ConversationQueues) (proposalId : ProposalId) : ConversationQueues :=
  { q with activeEmergencyIds := q.activeEmergencyIds.erase proposalId }

def hasActiveEmergency (q : ConversationQueues) : Bool := q.activeEmergencyIds ≠ ∅

/-- While an emergency is active, proposals of strictly lower priority are blocked. -/
def partialFreezeBlocks (q : ConversationQueues) (kind : ProposalKind) : Bool :=
  q.hasActiveEmergency && decide (kind.ordinal < ProposalKind.emergency.ordinal)

/-! ## Dedup windows and early candidates -/

def hasCommittedHash (q : ConversationQueues) (h : CommitHash) : Bool :=
  q.committedBatchHashes.contains h

def insertCommittedHash (q : ConversationQueues) (h : CommitHash) : ConversationQueues :=
  { q with committedBatchHashes := (q.committedBatchHashes.insert h).2 }

/-- Record a welcome broadcast; `true` when its hash is new. -/
def recordWelcomeBroadcast (q : ConversationQueues) (h : CommitHash) : Bool × ConversationQueues :=
  ((q.welcomeBroadcastHashes.insert h).1,
    { q with welcomeBroadcastHashes := (q.welcomeBroadcastHashes.insert h).2 })

/-- Stash a candidate that arrived before its proposal was approved: stale epochs are dropped,
duplicates and everything past `max` refused. -/
def stashEarlyCandidate (q : ConversationQueues) (epoch : Nat) (candidate : CommitCandidate)
    (max : Nat) : ConversationQueues :=
  let kept := q.earlyCandidates.filter fun e => e.1 = epoch
  if (kept.any fun e => e.2.commitMessage = candidate.commitMessage) ∨ max ≤ kept.length then
    { q with earlyCandidates := kept }
  else
    { q with earlyCandidates := kept ++ [(epoch, candidate)] }

/-- Take the candidates stashed for `epoch`, clearing the stash. -/
def takeEarlyCandidates (q : ConversationQueues) (epoch : Nat) :
    List CommitCandidate × ConversationQueues :=
  ((q.earlyCandidates.filter fun e => e.1 = epoch).map Prod.snd, { q with earlyCandidates := [] })

/-! ## Pending updates -/

/-- Buffer a membership update under its target; the first sighting stays. -/
def insertPendingUpdate (O : OpenMls) (q : ConversationQueues)
    (request : ConversationUpdateRequest) (currentEpoch : Nat) : ConversationQueues :=
  match targetMemberIdOf O request with
  | none => q
  | some key =>
    if q.pendingUpdates.contains key then q
    else { q with pendingUpdates := q.pendingUpdates.insert key ⟨request, currentEpoch⟩ }

def removePendingUpdate (q : ConversationQueues) (memberId : Bytes) : ConversationQueues :=
  { q with pendingUpdates := q.pendingUpdates.erase memberId }

/-- Drop the entries first seen before `currentEpoch - maxAge`. -/
def expirePendingUpdates (q : ConversationQueues) (currentEpoch maxAge : Nat) :
    ConversationQueues :=
  { q with
    pendingUpdates :=
      q.pendingUpdates.retain fun e => !decide (e.2.firstSeenEpoch < currentEpoch - maxAge) }

/-! ## Urgent target and resolved outcomes -/

def setUrgentCommitTarget (q : ConversationQueues) (target : Bytes) : ConversationQueues :=
  { q with urgentCommitTarget := some target }

def takeUrgentCommitTarget (q : ConversationQueues) : Option Bytes × ConversationQueues :=
  (q.urgentCommitTarget, { q with urgentCommitTarget := none })

def isConsensusOutcomeApplied (q : ConversationQueues) (proposalId : ProposalId) : Bool :=
  q.resolvedProposals.contains proposalId

def markConsensusOutcomeApplied (q : ConversationQueues) (proposalId : ProposalId) :
    ConversationQueues :=
  { q with resolvedProposals := (q.resolvedProposals.insert proposalId).2 }

/-! ## What the membership bookkeeping does -/

@[simp] theorem approvedProposals_recordAdded (epoch : Nat) (q : ConversationQueues) (m : Member) :
    (recordAdded epoch q m).approvedProposals = q.approvedProposals := rfl

@[simp] theorem urgentCommitTarget_recordAdded (epoch : Nat) (q : ConversationQueues) (m : Member) :
    (recordAdded epoch q m).urgentCommitTarget = q.urgentCommitTarget := rfl

@[simp] theorem urgentCommitTarget_forgetRemoved (q : ConversationQueues) (m : MemberId) :
    (forgetRemoved q m).urgentCommitTarget = q.urgentCommitTarget := rfl

@[simp] theorem memberJoinEpoch_forgetRemoved (q : ConversationQueues) (m : MemberId) :
    (forgetRemoved q m).memberJoinEpoch = q.memberJoinEpoch.erase (memberIdOf m.leaf) := rfl

theorem approvedProposals_foldl_recordAdded (epoch : Nat) (added : List Member)
    (q : ConversationQueues) :
    (added.foldl (recordAdded epoch) q).approvedProposals = q.approvedProposals := by
  induction added generalizing q with
  | nil => rfl
  | cons m rest ih =>
    rw [List.foldl_cons, ih]
    rfl

theorem urgentCommitTarget_foldl_recordAdded (epoch : Nat) (added : List Member)
    (q : ConversationQueues) :
    (added.foldl (recordAdded epoch) q).urgentCommitTarget = q.urgentCommitTarget := by
  induction added generalizing q with
  | nil => rfl
  | cons m rest ih =>
    rw [List.foldl_cons, ih]
    rfl

theorem urgentCommitTarget_foldl_forgetRemoved (removed : List MemberId) (q : ConversationQueues) :
    (removed.foldl forgetRemoved q).urgentCommitTarget = q.urgentCommitTarget := by
  induction removed generalizing q with
  | nil => rfl
  | cons m rest ih =>
    rw [List.foldl_cons, ih]
    rfl

/-- The removals queued for a departed member go; everything else stays in order. -/
theorem entries_foldl_forgetRemoved (removed : List MemberId) (q : ConversationQueues) :
    (removed.foldl forgetRemoved q).approvedProposals.entries =
      q.approvedProposals.entries.filter fun e =>
        decide (∀ m ∈ removed, removesMember e.2 (memberIdOf m.leaf) = false) := by
  induction removed generalizing q with
  | nil => simp
  | cons m rest ih =>
    rw [List.foldl_cons, ih]
    have h : (forgetRemoved q m).approvedProposals.entries =
        q.approvedProposals.entries.filter fun e => !removesMember e.2 (memberIdOf m.leaf) := rfl
    rw [h, List.filter_filter]
    apply List.filter_congr
    intro e _
    simp [Bool.and_comm]

/-- **Bookkeeping, approved queue.** It loses exactly the removals queued for departed leaves. -/
theorem entries_bookkeeping (q : ConversationQueues) (epoch : Nat) :
    (q.applyMembershipDeltaBookkeeping epoch).approvedProposals.entries =
      q.approvedProposals.entries.filter fun e =>
        decide (∀ m ∈ (q.pendingMembershipDelta.getD .empty).removed,
          removesMember e.2 (memberIdOf m.leaf) = false) := by
  unfold applyMembershipDeltaBookkeeping
  cases q.pendingMembershipDelta with
  | none => simp [MembershipDelta.empty]
  | some delta =>
    simp only [approvedProposals_foldl_recordAdded, entries_foldl_forgetRemoved, Option.getD_some]

theorem urgentCommitTarget_bookkeeping (q : ConversationQueues) (epoch : Nat) :
    (q.applyMembershipDeltaBookkeeping epoch).urgentCommitTarget = q.urgentCommitTarget := by
  unfold applyMembershipDeltaBookkeeping
  cases q.pendingMembershipDelta with
  | none => rfl
  | some delta =>
    rw [urgentCommitTarget_foldl_recordAdded, urgentCommitTarget_foldl_forgetRemoved]

theorem joinEpoch_foldl_forgetRemoved (removed : List MemberId) (q : ConversationQueues)
    (id : Bytes) :
    (removed.foldl forgetRemoved q).memberJoinEpoch.find? id =
      if ∃ m ∈ removed, memberIdOf m.leaf = id then none else q.memberJoinEpoch.find? id := by
  induction removed generalizing q with
  | nil => simp
  | cons m rest ih =>
    rw [List.foldl_cons, ih, memberJoinEpoch_forgetRemoved, OrderedMap.find?_erase]
    by_cases hm : memberIdOf m.leaf = id
    · simp [hm]
    · simp [hm, Ne.symm hm]

theorem joinEpoch_foldl_recordAdded (epoch : Nat) (added : List Member) (q : ConversationQueues)
    (id : Bytes) :
    (added.foldl (recordAdded epoch) q).memberJoinEpoch.find? id =
      if ∃ m ∈ added, memberIdOf m.index = id then some epoch else q.memberJoinEpoch.find? id := by
  induction added generalizing q with
  | nil => simp
  | cons m rest ih =>
    rw [List.foldl_cons, ih]
    have h : (recordAdded epoch q m).memberJoinEpoch =
        q.memberJoinEpoch.insert (memberIdOf m.index) epoch := rfl
    rw [h, OrderedMap.find?_insert]
    by_cases hm : memberIdOf m.index = id
    · simp [hm]
    · simp [hm, Ne.symm hm]

/-- **Bookkeeping, join epochs.** An added leaf joins at `epoch`, a departed one is forgotten,
every other keeps its record. -/
theorem joinEpoch_bookkeeping (q : ConversationQueues) (epoch : Nat) (id : Bytes) :
    (q.applyMembershipDeltaBookkeeping epoch).memberJoinEpoch.find? id =
      if ∃ m ∈ (q.pendingMembershipDelta.getD .empty).added, memberIdOf m.index = id then
        some epoch
      else if ∃ m ∈ (q.pendingMembershipDelta.getD .empty).removed, memberIdOf m.leaf = id then
        none
      else q.memberJoinEpoch.find? id := by
  unfold applyMembershipDeltaBookkeeping
  cases q.pendingMembershipDelta with
  | none => simp [MembershipDelta.empty]
  | some delta =>
    simp only [joinEpoch_foldl_recordAdded, joinEpoch_foldl_forgetRemoved, Option.getD_some]

theorem pendingMembershipDelta_bookkeeping (q : ConversationQueues) (epoch : Nat) :
    (q.applyMembershipDeltaBookkeeping epoch).pendingMembershipDelta =
      q.pendingMembershipDelta := by
  have hremoved : ∀ (removed : List MemberId) (q : ConversationQueues),
      (removed.foldl forgetRemoved q).pendingMembershipDelta = q.pendingMembershipDelta := by
    intro removed
    induction removed with
    | nil => exact fun _ => rfl
    | cons m rest ih => exact fun q => ih (forgetRemoved q m)
  have hadded : ∀ (added : List Member) (q : ConversationQueues),
      (added.foldl (recordAdded epoch) q).pendingMembershipDelta = q.pendingMembershipDelta := by
    intro added
    induction added with
    | nil => exact fun _ => rfl
    | cons m rest ih => exact fun q => ih (recordAdded epoch q m)
  unfold applyMembershipDeltaBookkeeping
  cases h : q.pendingMembershipDelta with
  | none => exact h
  | some delta => exact (hadded _ _).trans ((hremoved _ _).trans h)

/-! ## Reading the approved queue -/

theorem hasApprovedRemoval_iff {q : ConversationQueues} {memberId : Bytes} :
    q.hasApprovedRemoval memberId = true ↔
      ∃ e ∈ q.approvedProposals.entries, e.2.payload = some (.removeMember memberId) := by
  simp [hasApprovedRemoval, OrderedMap.values, removesMember]

end ConversationQueues

end DeMls
