import Mathlib.Algebra.Group.Int.Defs
import Mathlib.Algebra.Group.Nat.Defs

/-!
# Wire messages

The protobuf messages of `application.proto` and `consensus.proto` that the conversation reads
and writes, with the constructors of `protos.rs` and `process_result.rs`. A message field of
protobuf is an `Option`, a `oneof` an inductive type under an `Option`. Encoding and decoding
are the codec's (`DeMls.Platform`).
-/

namespace DeMls

abbrev Bytes := List UInt8

instance : LawfulBEq Bytes := inferInstance

/-- The UTF-8 bytes of a text. -/
def textBytes (s : String) : Bytes := s.toUTF8.data.toList

/-- `u32::to_be_bytes`. -/
def toBeBytes (n : UInt32) : Bytes :=
  [UInt8.ofNat (n.toNat / 2 ^ 24), UInt8.ofNat (n.toNat / 2 ^ 16), UInt8.ofNat (n.toNat / 2 ^ 8),
    UInt8.ofNat n.toNat]

/-- `u32::from_be_bytes`. -/
def fromBeBytes (a b c d : UInt8) : UInt32 :=
  UInt32.ofNat (a.toNat * 2 ^ 24 + b.toNat * 2 ^ 16 + c.toNat * 2 ^ 8 + d.toNat)

/-- `u64::to_be_bytes` of an epoch. -/
def u64BeBytes (n : Nat) : Bytes :=
  (List.range 8).map fun i => UInt8.ofNat (n / 256 ^ (7 - i))

/-- `i64::to_le_bytes` of a score. -/
def i64LeBytes (n : Int) : Bytes :=
  (List.range 8).map fun i => UInt8.ofNat ((n % 2 ^ 64).toNat / 256 ^ i)

/-- Consensus proposal identifier, assigned by the consensus service. -/
abbrev ProposalId := Nat

/-! ## Conversation update requests -/

inductive ViolationType
  | violationUnspecified
  | brokenCommit
  | brokenMlsProposal
  | censorshipInactivity
  | scoreBelowThreshold
  | deadlock
  | misbehavingCommit
deriving DecidableEq, Repr

/-- The wire value of an enumeration is a plain `i32`. -/
def ViolationType.toWire : ViolationType → Int
  | .violationUnspecified => 0
  | .brokenCommit => 1
  | .brokenMlsProposal => 2
  | .censorshipInactivity => 3
  | .scoreBelowThreshold => 4
  | .deadlock => 5
  | .misbehavingCommit => 6

/-- `ViolationType::try_from`; `none` on an unknown wire value. -/
def ViolationType.ofWire (n : Int) : Option ViolationType :=
  if n = 0 then some .violationUnspecified
  else if n = 1 then some .brokenCommit
  else if n = 2 then some .brokenMlsProposal
  else if n = 3 then some .censorshipInactivity
  else if n = 4 then some .scoreBelowThreshold
  else if n = 5 then some .deadlock
  else if n = 6 then some .misbehavingCommit
  else none

@[simp] theorem ViolationType.ofWire_toWire (t : ViolationType) : ofWire t.toWire = some t := by
  cases t <;> rfl

structure ViolationEvidence where
  violationType : Int
  targetMemberId : Bytes
  evidencePayload : Bytes
  epoch : Nat
  creatorMemberId : Bytes
deriving DecidableEq, Repr

structure StewardElectionProposal where
  proposedStewards : List Bytes
  electionEpoch : Nat
  retryRound : Nat
deriving DecidableEq, Repr

/-- The `oneof` of a `ConversationUpdateRequest`. -/
inductive UpdatePayload
  | memberInvite (keyPackageBytes : Bytes)
  | removeMember (memberId : Bytes)
  | emergencyCriteria (evidence : Option ViolationEvidence)
  | stewardElection (election : StewardElectionProposal)
deriving DecidableEq, Repr

structure ConversationUpdateRequest where
  payload : Option UpdatePayload
deriving DecidableEq, Repr

namespace ConversationUpdateRequest

/-- `RemoveMember` request targeting `memberId`. -/
def removeMember (memberId : Bytes) : ConversationUpdateRequest := ⟨some (.removeMember memberId)⟩

/-- `MemberInvite` request carrying a joiner's key package. -/
def memberInvite (keyPackageBytes : Bytes) : ConversationUpdateRequest :=
  ⟨some (.memberInvite keyPackageBytes)⟩

/-- `StewardElection` request proposing `election`. -/
def stewardElection (election : StewardElectionProposal) : ConversationUpdateRequest :=
  ⟨some (.stewardElection election)⟩

/-- True iff the request is a membership change that produces an MLS proposal. -/
def producesMlsAction (req : ConversationUpdateRequest) : Bool :=
  match req.payload with
  | some (.memberInvite _) => true
  | some (.removeMember _) => true
  | _ => false

end ConversationUpdateRequest

/-! ## Consensus messages -/

structure Vote where
  voteId : Nat
  voteOwner : Bytes
  proposalId : ProposalId
  timestamp : Nat
  vote : Bool
  parentHash : Bytes
  receivedHash : Bytes
  voteHash : Bytes
  signature : Bytes
deriving DecidableEq, Repr

structure Proposal where
  name : Bytes
  payload : Bytes
  proposalId : ProposalId
  proposalOwner : Bytes
  votes : List Vote
  expectedVotersCount : Nat
  round : Nat
  timestamp : Nat
  expirationTimestamp : Nat
  livenessCriteriaYes : Bool
deriving DecidableEq, Repr

/-! ## Application messages -/

structure CommitCandidate where
  conversationId : Bytes
  mlsProposals : List Bytes
  commitMessage : Bytes
  stewardMemberId : Bytes
deriving DecidableEq, Repr

structure MemberWelcome where
  welcomeBytes : Bytes
  conversationSyncBytes : Bytes
  joinerIdentities : List Bytes
deriving DecidableEq, Repr

structure PeerScore where
  memberId : Bytes
  score : Int
deriving DecidableEq, Repr

structure TimingConfig where
  commitBatchWindowMs : Nat
  freezeDurationMs : Nat
  proposalExpirationMs : Nat
  consensusTimeoutMs : Nat
  retryWindowMs : Nat
  backupTakeoverWindowMs : Nat
deriving DecidableEq, Repr

structure ConversationSync where
  stewardMembers : List Bytes
  electionEpoch : Nat
  snMin : Nat
  snMax : Nat
  allowSubsetCandidates : Bool
  peerScores : List PeerScore
  timing : Option TimingConfig
  retryRound : Nat
  maxReelectionAttempts : Nat
  livenessCriteriaYes : Bool
  thresholdPeerScore : Int
  pendingUpdateMaxEpochs : Nat
  unsettledMembers : List Bytes
  defaultPeerScore : Int
deriving DecidableEq, Repr

/-- The `oneof` of an `AppMessage`. The variants the conversation neither reads nor writes
(`vote_payload`, `user_vote`, `proposal_added`) are one case. -/
inductive AppPayload
  | conversationMessage (message conversationId : Bytes)
  | banRequest (memberId conversationId : Bytes)
  | proposal (proposal : Proposal)
  | vote (vote : Vote)
  | commitCandidate (candidate : CommitCandidate)
  | conversationSync (sync : ConversationSync)
  | memberWelcome (welcome : MemberWelcome)
  | membershipChange (conversationId member : Bytes) (changeType : Int)
  | conversationSyncRequest
  | other (raw : Bytes)
deriving DecidableEq, Repr

structure AppMessage where
  payload : Option AppPayload
deriving DecidableEq, Repr

end DeMls
