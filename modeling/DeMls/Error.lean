import DeMls.Platform

/-!
# Errors

`MlsError` of the MLS engine and `ConversationError` of the conversation. A variant that wraps a
foreign error holds its display text.
-/

namespace DeMls

inductive MlsError
  | keyPackageTls (e : String)
  | mlsMessageDeserialize (e : String)
  | protocolMessage
  | mlsMessageSerialize (e : String)
  | processMessage (e : String)
  | createMessage (e : String)
  | mergeCommit (e : String)
  | mergePendingCommit (e : String)
  | commitToPendingProposals (e : String)
  | proposeAddMember (e : String)
  | proposeRemoveMember (e : String)
  | welcome (e : String)
  | mlsStorage (e : String)
  | noPendingStagedCommit (conversationId : Bytes)
  | unknownLeafIndex (index : LeafNodeIndex)
deriving DecidableEq, Repr

/-- Lifecycle state of a conversation. -/
inductive ConversationState
  | working
  | freezing
  | selection
  | reelection
deriving DecidableEq, Repr

inductive ConversationError
  /-- Carries the name of the state that forbids the operation. -/
  | conversationBlocked (state : ConversationState)
  | partialFreeze
  | mls (e : MlsError)
  | consensus (e : ConsensusError)
  | message (e : String)
  | scoreStorage (e : String)
  | notASteward
  | notInRecovery
  | noProposals
  | invalidConversationUpdateRequest
  | emptyMembersList
  | memberGone
  | alreadyMember
  | invalidConfigSize
  | invalidConfig (message : String)
  | unexpectedNonMlsProposals (proposalIds : List ProposalId)
deriving DecidableEq, Repr

end DeMls
