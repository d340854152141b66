import DeMls.Wire

/-!
# The platform

What the conversation calls and this repository does not contain: OpenMLS, the consensus crate,
the score storage backend, the protobuf codec and SHA-256. Each is a structure of operations
over types of its own, and `Platform` bundles them; the model is parametric in it, and a result
that relies on documented behaviour of one of them names that behaviour as a hypothesis.

The provider and the signer arrive by reference on every call and stand inside the operations.
Error values are only displayed, so they are texts.
-/

namespace DeMls

/-! ## OpenMLS -/

/-- A leaf of the ratchet tree, a `u32`. -/
abbrev LeafNodeIndex := UInt32

structure Member where
  index : LeafNodeIndex
  signatureKey : Bytes
deriving DecidableEq, Repr

/-- The public part of a group beside everything the conversation cannot see (`secrets`: the key
schedule, the stored proposals, the own pending commit). -/
structure MlsGroup (Secrets : Type) where
  groupId : Bytes
  epoch : Nat
  ownLeafIndex : LeafNodeIndex
  members : List Member
  secrets : Secrets

inductive ContentType
  | application
  | proposal
  | commit
deriving DecidableEq, Repr

structure ProtocolMessage where
  groupId : Bytes
  epoch : Nat
  contentType : ContentType
  body : Bytes
deriving DecidableEq, Repr

/-- What processing a protocol message yields. -/
inductive ProcessedContent (QueuedProposal StagedCommit : Type)
  | applicationMessage (bytes : Bytes)
  | proposalMessage (proposal : QueuedProposal)
  | stagedCommitMessage (staged : StagedCommit)
  | other

structure ProcessedMessage (QueuedProposal StagedCommit : Type) where
  /-- The leaf of a member sender; `none` for external senders. -/
  sender : Option LeafNodeIndex
  content : ProcessedContent QueuedProposal StagedCommit

/-- The operations of OpenMLS the engine calls. Only a merge moves the epoch or the member list;
every other operation returns new secrets and leaves the public part of the group alone. -/
structure OpenMls where
  Secrets : Type
  StagedCommit : Type
  QueuedProposal : Type
  KeyPackageIn : Type
  KeyPackage : Type
  MessageOut : Type
  MessageIn : Type
  /-- `KeyPackageIn::tls_deserialize_bytes`. -/
  deserializeKeyPackage : Bytes → Except String KeyPackageIn
  /-- The signature key of the unverified credential. -/
  unverifiedSignatureKey : KeyPackageIn → Bytes
  /-- `KeyPackageIn::validate`. -/
  validate : KeyPackageIn → Except String KeyPackage
  /-- The signature key of a key package's leaf node. -/
  signatureKey : KeyPackage → Bytes
  toBytes : MessageOut → Except String Bytes
  deserializeMessage : Bytes → Except String MessageIn
  /-- The private or public protocol message inside, if it is one. -/
  protocolMessage : MessageIn → Option ProtocolMessage
  /-- Signature keys admitted by the Add proposals of a staged commit. -/
  addProposals : StagedCommit → List Bytes
  /-- Leaves vacated by the Remove proposals of a staged commit. -/
  removeProposals : StagedCommit → List LeafNodeIndex
  selfRemoved : StagedCommit → Bool
  pendingCommit : Secrets → Option StagedCommit
  proposeAddMember : MlsGroup Secrets → KeyPackage → Except String MessageOut × Secrets
  proposeRemoveMember : MlsGroup Secrets → LeafNodeIndex → Except String MessageOut × Secrets
  commitToPendingProposals :
    MlsGroup Secrets → Except String (MessageOut × Option MessageOut) × Secrets
  /-- Merge the own pending commit: the new member list, or `none` when nothing was pending. -/
  mergePendingCommit : MlsGroup Secrets → Except String (Option (List Member)) × Secrets
  /-- Merge a staged commit: the new member list. -/
  mergeStagedCommit : MlsGroup Secrets → StagedCommit → Except String (List Member) × Secrets
  clearPendingCommit : Secrets → Except String Unit × Secrets
  clearPendingProposals : Secrets → Except String Unit × Secrets
  processMessage : MlsGroup Secrets → ProtocolMessage →
    Except String (ProcessedMessage QueuedProposal StagedCommit) × Secrets
  storePendingProposal : Secrets → QueuedProposal → Except String Unit × Secrets
  createMessage : MlsGroup Secrets → Bytes → Except String MessageOut × Secrets
  delete : Secrets → Except String Unit × Secrets

/-! ## The consensus crate -/

/-- The errors the conversation tells apart. -/
inductive ConsensusError
  | userAlreadyVoted
  | sessionNotActive
  | sessionNotFound
  | proposalExpired
  | proposalAlreadyExist
  | other (message : String)
deriving DecidableEq, Repr

inductive ConsensusEvent
  | consensusReached (proposalId : ProposalId) (result : Bool) (timestamp : Nat)
  | consensusFailed (proposalId : ProposalId) (timestamp : Nat)
deriving DecidableEq, Repr

/-- A request to open a session. Its random name is drawn by the service. -/
structure CreateProposalRequest where
  payload : Bytes
  proposalOwner : Bytes
  expectedVotersCount : Nat
  expirationSecs : Nat
  livenessCriteriaYes : Bool
  /-- The session timeout, in nanoseconds. -/
  timeout : Nat
deriving DecidableEq, Repr

/-- The consensus service of one conversation with its storage. A call returns its result, the
new state and the outcomes it published on the bus. Times are whole seconds. -/
structure ConsensusService where
  State : Type
  processIncomingProposal :
    State → Proposal → Nat → Except ConsensusError Unit × State × List ConsensusEvent
  processIncomingVote :
    State → Vote → Nat → Except ConsensusError Unit × State × List ConsensusEvent
  castVote :
    State → ProposalId → Bool → Nat → Except ConsensusError Vote × State × List ConsensusEvent
  castVoteAndGetProposal :
    State → ProposalId → Bool → Nat → Except ConsensusError Proposal × State × List ConsensusEvent
  /-- `create_proposal_with_config`, with the checks of the request and of its timeout. -/
  createProposalWithConfig :
    State → CreateProposalRequest → Nat → Except ConsensusError Proposal × State × List ConsensusEvent
  handleConsensusTimeout :
    State → ProposalId → Nat → Except ConsensusError Bool × State × List ConsensusEvent
  /-- `build_vote` with the service's signer. -/
  buildVote : State → Proposal → Bool → Nat → Except ConsensusError Vote
  getProposal : State → ProposalId → Except ConsensusError Proposal
  getActiveProposals : State → Except ConsensusError (List Proposal)
  removeSession : State → ProposalId → Except ConsensusError Unit × State

/-! ## Storage, codec, hash -/

/-- A peer-score table backend. -/
structure PeerScoreStorage where
  Store : Type
  get : Store → Bytes → Except String (Option Int)
  set : Store → Bytes → Int → Except String Unit × Store
  remove : Store → Bytes → Except String Unit × Store
  allScores : Store → Except String (List (Bytes × Int))

/-- The protobuf encoder and decoder. -/
structure Codec where
  encodeApp : AppMessage → Bytes
  decodeApp : Bytes → Except String AppMessage
  encodeRequest : ConversationUpdateRequest → Bytes
  decodeRequest : Bytes → Except String ConversationUpdateRequest

structure Platform where
  mls : OpenMls
  consensus : ConsensusService
  scores : PeerScoreStorage
  codec : Codec
  sha256 : Bytes → Bytes

end DeMls
