import DeMls.Conversation.Poll

/-!
# The integrator's calls

Messages and membership requests of the local member, and the assembly of a conversation.
-/

namespace DeMls

open Program

namespace Conversation

variable {P : Platform}

def sendMessage (message : Bytes) : ConvM P Unit := do
  let c ← get
  if c.state = .freezing ∨ c.state = .selection then throw (.conversationBlocked c.state)
  else sendApp ⟨some (.conversationMessage message c.conversationId)⟩

def holdsSignatureKey (c : Conversation P) (key : Bytes) : Bool :=
  c.mls.group.members.any fun m => m.signatureKey = key

/-- Propose to admit the holder of a key package that is not a member yet. -/
def proposeAdd (keyPackageBytes : Bytes) (creatorVote : CreatorVote) : ConvM P Unit := do
  let keyPackage ← ofResult ((validateKeyPackage P.mls keyPackageBytes).mapError .mls)
  let c ← get
  if c.holdsSignatureKey (P.mls.signatureKey keyPackage) then throw .alreadyMember
  else initiateProposal (.memberInvite keyPackageBytes) creatorVote

def addMember (keyPackageBytes : Bytes) : ConvM P Unit := do
  let c ← get
  if c.state ≠ .working then throw (.conversationBlocked c.state)
  else proposeAdd keyPackageBytes .yes

/-- Sponsor a joiner: the epoch steward proposes, everyone else buffers the invite. -/
def sponsorMember (keyPackageBytes : Bytes) : ConvM P Unit := do
  let c ← get
  if c.state ≠ .working then pure ()
  else if c.isEpochSteward then proposeAdd keyPackageBytes .deferred
  else do
    let keyPackage ← ofResult ((validateKeyPackage P.mls keyPackageBytes).mapError .mls)
    if c.holdsSignatureKey (P.mls.signatureKey keyPackage) then pure ()
    else modifyQueues fun q =>
      q.insertPendingUpdate P.mls (.memberInvite keyPackageBytes) c.epoch

def removeMember (member : MemberId) : ConvM P Unit := do
  let c ← get
  if c.state ≠ .working then throw (.conversationBlocked c.state)
  else
    match c.mls.leafOf member with
    | none => throw .memberGone
    | some leaf => initiateProposal (.removeMember (memberIdOf leaf)) .yes

/-! ## Assembly -/

/-- The conversation both constructors start from. The creator's list is itself, at epoch 0. -/
def assemble (mls : MlsService P.mls) (scoring : PeerScoringService P.scores)
    (consensus : P.consensus.State) (now : Nat) (appId : Bytes) (config : ConversationConfig)
    (isCreation : Bool) : Except ConversationError (Conversation P) := do
  config.validate
  scoring.config.validate
  let selfMemberId := memberIdOf mls.group.ownLeafIndex
  let stewardList : StewardListService :=
    ⟨none, config.stewardList, mls.conversationId, 0, config.maxReelectionAttempts⟩
  let base : Conversation P :=
    { conversationId := mls.conversationId
      now := now
      queues := .new mls.conversationId config.dedupWindow
      mls := mls
      scoring := scoring
      stewardList := stewardList
      consensus := consensus
      outcomes := []
      state := .working
      config := config
      operatingMode := .normal
      recoveryRounds := 0
      timing := .new
      selfMemberId := selfMemberId
      appId := appId
      pendingEvents := [.phaseChange .working]
      pendingOutbound := [] }
  if isCreation then do
    let stewardList ← stewardList.installList P 0 [selfMemberId] 1 0
    match PeerScoringService.addMember selfMemberId scoring with
    | .ok () scoring => .ok { base with stewardList := stewardList, scoring := scoring }
    | .error e _ => .error e
  else .ok base

/-- The signature keys of the initial joiners. -/
def joinerIdentitiesOf (O : OpenMls) : List Bytes → Except ConversationError (List Bytes)
  | [] => .ok []
  | kp :: rest => do
    let key ← (signatureKeyOfKeyPackage O kp).mapError .mls
    let others ← joinerIdentitiesOf O rest
    pure (key :: others)

/-- Genesis: the creator admits the initial members on its own authority, in one commit. -/
def seedInitialMembers (initialMembers : List Bytes) : ConvM P Unit := do
  if initialMembers = [] then pure ()
  else do
    let joinerIdentities ← ofResult (joinerIdentitiesOf P.mls initialMembers)
    let artifacts ← onMls (MlsService.createCommitCandidate (initialMembers.map .add))
    let delta ← onMls MlsService.mergeOwnCommit
    addScored (delta.added.map fun m => memberIdOf m.index)
    let c ← get
    let settled := c.settledPool c.epoch
    let sn := c.stewardList.config.computeListSize settled.length
    let stewardList ← ofResult (c.stewardList.installList P c.epoch settled sn 0)
    modify fun c => { c with stewardList := stewardList }
    match artifacts.welcome with
    | some welcomeBytes => deliverWelcome ⟨welcomeBytes, [], joinerIdentities⟩
    | none => pure ()

/-- A joiner announces itself and tracks the scores of the roster. -/
def onJoined : ConvM P Unit := do
  let c ← get
  sendApp ⟨some (.membershipChange c.conversationId c.selfMemberId 0)⟩
  syncScoringMembers c.members

end Conversation

end DeMls
