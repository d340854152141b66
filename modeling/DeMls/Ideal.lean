import DeMls.Conversation.Messaging

/-!
# A platform over plain data

A concrete platform on which the model runs: messages in the clear, a group that follows the
commit rules of MLS, a consensus service with one-shot sessions, a score table, SHA-256 replaced
by the identity. Results about an arbitrary platform are evaluated on it.

The group keeps what the conversation relies on: a member stages the proposals and the commit of
another one, a commit carries exactly the proposals in the store, nobody commits its own removal,
and a merge vacates the removed leaves before it seats the joiners on the lowest free ones.
Leaves and epochs of a message are one byte each.
-/

namespace DeMls.Ideal

/-! ## Group messages -/

/-- One proposed change of the group. -/
inductive Change
  | add (key : Bytes)
  | remove (leaf : LeafNodeIndex)
deriving DecidableEq, Repr

/-- A proposal of the store, or a commit with its changes. -/
structure QueuedProposal where
  sender : LeafNodeIndex
  change : Change
deriving DecidableEq, Repr

structure StagedCommit where
  sender : LeafNodeIndex
  own : LeafNodeIndex
  changes : List Change
deriving DecidableEq, Repr

structure Secrets where
  proposals : List QueuedProposal
  pending : Option StagedCommit
deriving DecidableEq, Repr

def byte (n : Nat) : UInt8 := UInt8.ofNat n

def encodeChange : Change → Bytes
  | .add key => 0 :: byte key.length :: key
  | .remove leaf => [1, byte leaf.toNat]

/-- Read changes off a commit body; `fuel` bounds the number of changes. -/
def decodeChanges : Nat → Bytes → Option (List Change)
  | _, [] => some []
  | fuel + 1, 0 :: n :: rest =>
    if n.toNat ≤ rest.length then
      (decodeChanges fuel (rest.drop n.toNat)).map (.add (rest.take n.toNat) :: ·)
    else none
  | fuel + 1, 1 :: leaf :: rest =>
    (decodeChanges fuel rest).map (.remove (UInt32.ofNat leaf.toNat) :: ·)
  | _, _ => none

/-- Tag, epoch, sender, body. -/
def frameOf (tag epoch : Nat) (sender : LeafNodeIndex) (body : Bytes) : Bytes :=
  byte tag :: byte epoch :: byte sender.toNat :: body

def parseFrame : Bytes → Option ProtocolMessage
  | 1 :: epoch :: sender :: body => some ⟨[], epoch.toNat, .proposal, sender :: body⟩
  | 2 :: epoch :: sender :: body => some ⟨[], epoch.toNat, .commit, sender :: body⟩
  | 3 :: epoch :: sender :: body => some ⟨[], epoch.toNat, .application, sender :: body⟩
  | _ => none

/-! ## The group -/

abbrev Group := MlsGroup Secrets

def Change.key : Change → Option Bytes
  | .add key => some key
  | .remove _ => none

def Change.leaf : Change → Option LeafNodeIndex
  | .add _ => none
  | .remove leaf => some leaf

/-- Seat a joiner on the lowest free leaf. -/
def seat (members : List Member) (key : Bytes) : List Member :=
  let free := (List.range (members.length + 1)).find? fun i =>
    !members.any fun m => m.index.toNat = i
  members ++ [⟨UInt32.ofNat (free.getD 0), key⟩]

/-- The roster a commit leaves. -/
def rosterAfter (members : List Member) (changes : List Change) : List Member :=
  let stay := members.filter fun m => m.index ∉ changes.filterMap Change.leaf
  (changes.filterMap Change.key).foldl seat stay

/-- Removals name distinct members other than the committer, joiners are distinct and new. -/
def acceptable (g : Group) (committer : LeafNodeIndex) (changes : List Change) : Bool :=
  let leaves := changes.filterMap Change.leaf
  let keys := changes.filterMap Change.key
  decide leaves.Nodup && decide keys.Nodup && decide (committer ∉ leaves) &&
    leaves.all (fun l => g.members.any fun m => m.index = l) &&
    keys.all fun k => !g.members.any fun m => m.signatureKey = k

def propose (g : Group) (change : Change) : Except String Bytes × Secrets :=
  (.ok (frameOf 1 g.epoch g.ownLeafIndex (encodeChange change)),
    { g.secrets with proposals := g.secrets.proposals ++ [⟨g.ownLeafIndex, change⟩] })

/-- Commit the stored proposals; one pending commit at a time. -/
def commitToPendingProposals (g : Group) : Except String (Bytes × Option Bytes) × Secrets :=
  let changes := g.secrets.proposals.map (·.change)
  if g.secrets.pending.isSome then (.error "pending commit", g.secrets)
  else if !acceptable g g.ownLeafIndex changes then (.error "invalid proposals", g.secrets)
  else
    let keys := changes.filterMap Change.key
    (.ok (frameOf 2 g.epoch g.ownLeafIndex (changes.flatMap encodeChange),
        if keys = [] then none else some (4 :: keys.flatten)),
      { g.secrets with pending := some ⟨g.ownLeafIndex, g.ownLeafIndex, changes⟩ })

/-- Process a peer's message: nobody processes its own, and a commit needs every proposal it
carries in the store. -/
def processMessage (g : Group) (m : ProtocolMessage) :
    Except String (ProcessedMessage QueuedProposal StagedCommit) :=
  match m.body with
  | [] => .error "empty message"
  | s :: body =>
    let sender : LeafNodeIndex := UInt32.ofNat s.toNat
    if m.epoch ≠ g.epoch then .error "wrong epoch"
    else if sender = g.ownLeafIndex then .error "own message"
    else if !g.members.any fun m => m.index = sender then .error "unknown sender"
    else
      match m.contentType with
      | .application => .ok ⟨some sender, .applicationMessage body⟩
      | .proposal =>
        match decodeChanges 1 body with
        | some [change] => .ok ⟨some sender, .proposalMessage ⟨sender, change⟩⟩
        | _ => .error "malformed proposal"
      | .commit =>
        match decodeChanges body.length body with
        | none => .error "malformed commit"
        | some changes =>
          if !changes.all fun c => g.secrets.proposals.any fun p => p.change = c then
            .error "missing proposal"
          else if !acceptable g sender changes then .error "invalid proposals"
          else .ok ⟨some sender, .stagedCommitMessage ⟨sender, g.ownLeafIndex, changes⟩⟩

def mls : OpenMls where
  Secrets := Secrets
  StagedCommit := StagedCommit
  QueuedProposal := QueuedProposal
  KeyPackageIn := Bytes
  KeyPackage := Bytes
  MessageOut := Bytes
  MessageIn := Bytes
  deserializeKeyPackage b := if b = [] ∨ b.head? = some 255 then .error "malformed" else .ok b
  unverifiedSignatureKey kp := kp
  validate kp := .ok kp
  signatureKey kp := kp
  toBytes m := .ok m
  deserializeMessage b := .ok b
  protocolMessage := parseFrame
  addProposals c := c.changes.filterMap Change.key
  removeProposals c := c.changes.filterMap Change.leaf
  selfRemoved c := c.changes.any fun change => change = .remove c.own
  pendingCommit := Secrets.pending
  proposeAddMember g kp := propose g (.add kp)
  proposeRemoveMember g leaf := propose g (.remove leaf)
  commitToPendingProposals := commitToPendingProposals
  mergePendingCommit g :=
    match g.secrets.pending with
    | none => (.ok none, g.secrets)
    | some c => (.ok (some (rosterAfter g.members c.changes)), ⟨[], none⟩)
  mergeStagedCommit g c := (.ok (rosterAfter g.members c.changes), ⟨[], none⟩)
  clearPendingCommit s := (.ok (), { s with pending := none })
  clearPendingProposals s := (.ok (), { s with proposals := [] })
  processMessage g m := (processMessage g m, g.secrets)
  storePendingProposal s p := (.ok (), { s with proposals := s.proposals ++ [p] })
  createMessage g b := (.ok (frameOf 3 g.epoch g.ownLeafIndex b), g.secrets)
  delete s := (.ok (), s)

/-! ## Consensus, scores, codec -/

/-- A session resolves when its expected votes are in; a deadline resolves it to its liveness
criterion. -/
def resolve (p : Proposal) : List ConsensusEvent :=
  if p.expectedVotersCount ≤ p.votes.length then
    [.consensusReached p.proposalId (p.votes.all (·.vote)) p.timestamp]
  else []

def voteOf (p : Proposal) (choice : Bool) (now : Nat) : Vote :=
  ⟨p.votes.length, p.proposalOwner, p.proposalId, now, choice, [], [], [], []⟩

def castIn (st : List Proposal) (id : ProposalId) (choice : Bool) (now : Nat) :
    Except ConsensusError (Vote × Proposal) × List Proposal × List ConsensusEvent :=
  match st.find? fun p => p.proposalId = id with
  | none => (.error .sessionNotFound, st, [])
  | some p =>
    let vote := voteOf p choice now
    let p' := { p with votes := p.votes ++ [vote] }
    (.ok (vote, p'), st.map fun q => if q.proposalId = id then p' else q, resolve p')

def consensus : ConsensusService where
  State := List Proposal
  processIncomingProposal st p now :=
    if st.any fun q => q.proposalId = p.proposalId then (.error .proposalAlreadyExist, st, [])
    else if p.expirationTimestamp ≤ now then (.error .proposalExpired, st, [])
    else (.ok (), st ++ [p], resolve p)
  processIncomingVote st v _ :=
    match st.find? fun p => p.proposalId = v.proposalId with
    | none => (.error .sessionNotFound, st, [])
    | some p =>
      let p' := { p with votes := p.votes ++ [v] }
      (.ok (), st.map fun q => if q.proposalId = v.proposalId then p' else q, resolve p')
  castVote st id choice now :=
    let r := castIn st id choice now
    (r.1.map Prod.fst, r.2)
  castVoteAndGetProposal st id choice now :=
    let r := castIn st id choice now
    (r.1.map Prod.snd, r.2)
  createProposalWithConfig st r now :=
    let p : Proposal := ⟨[], r.payload, st.length + 1, r.proposalOwner, [], r.expectedVotersCount,
      1, now, now + r.expirationSecs, r.livenessCriteriaYes⟩
    (.ok p, st ++ [p], [])
  handleConsensusTimeout st id now :=
    match st.find? fun p => p.proposalId = id with
    | none => (.error .sessionNotFound, st, [])
    | some p => (.ok p.livenessCriteriaYes, st, [.consensusReached id p.livenessCriteriaYes now])
  buildVote _ p choice now := .ok (voteOf p choice now)
  getProposal st id :=
    match st.find? fun p => p.proposalId = id with
    | some p => .ok p
    | none => .error .sessionNotFound
  getActiveProposals st := .ok st
  removeSession st id := (.ok (), st.filter fun p => p.proposalId ≠ id)

def scores : PeerScoreStorage where
  Store := List (Bytes × Int)
  get st id := .ok ((st.find? fun e => e.1 = id).map Prod.snd)
  set st id score := (.ok (), st.filter (fun e => e.1 ≠ id) ++ [(id, score)])
  remove st id := (.ok (), st.filter fun e => e.1 ≠ id)
  allScores st := .ok st

/-- Length-prefixed bytes. -/
def prefixed (b : Bytes) : Bytes := byte b.length :: b

/-- Requests by a tag byte; no bytes are a request without a payload. -/
def encodeRequest (r : ConversationUpdateRequest) : Bytes :=
  match r.payload with
  | none => []
  | some (.memberInvite kp) => 1 :: kp
  | some (.removeMember id) => 2 :: id
  | some (.emergencyCriteria none) => [3]
  | some (.emergencyCriteria (some ev)) =>
    4 :: byte ev.violationType.toNat :: byte ev.epoch :: prefixed ev.targetMemberId ++
      ev.creatorMemberId
  | some (.stewardElection e) =>
    5 :: byte e.electionEpoch :: byte e.retryRound :: e.proposedStewards.flatten

/-- Split bytes into member ids of four bytes. -/
def splitIds : Bytes → List Bytes
  | a :: b :: c :: d :: rest => [a, b, c, d] :: splitIds rest
  | _ => []

def decodeRequest : Bytes → Except String ConversationUpdateRequest
  | [] => .ok ⟨none⟩
  | 1 :: kp => .ok (.memberInvite kp)
  | 2 :: id => .ok (.removeMember id)
  | [3] => .ok ⟨some (.emergencyCriteria none)⟩
  | 4 :: t :: epoch :: n :: rest => .ok ⟨some (.emergencyCriteria (some
      ⟨t.toNat, rest.take n.toNat, [], epoch.toNat, rest.drop n.toNat⟩))⟩
  | 5 :: epoch :: round :: rest => .ok (.stewardElection ⟨splitIds rest, epoch.toNat, round.toNat⟩)
  | _ => .error "unknown request"

/-- Undo a concatenation of `prefixed` pieces; `fuel` bounds their number. -/
def splitPrefixed : Nat → Bytes → Option (List Bytes)
  | _, [] => some []
  | fuel + 1, n :: rest =>
    if n.toNat ≤ rest.length then
      (splitPrefixed fuel (rest.drop n.toNat)).map (rest.take n.toNat :: ·)
    else none
  | 0, _ :: _ => none

/-- Commit candidates and chat in full; the other messages by their tag, and not read back. -/
def encodeApp (m : AppMessage) : Bytes :=
  match m.payload with
  | some (.commitCandidate c) =>
    6 :: prefixed c.conversationId ++ prefixed c.stewardMemberId ++ prefixed c.commitMessage ++
      c.mlsProposals.flatMap prefixed
  | some (.conversationMessage message _) => 7 :: message
  | some (.proposal p) => 8 :: prefixed p.payload
  | some (.vote v) => [9, byte v.proposalId, if v.vote then 1 else 0]
  | _ => [10]

def decodeApp : Bytes → Except String AppMessage
  | 6 :: rest =>
    match splitPrefixed rest.length rest with
    | some (conversationId :: steward :: commit :: proposals) =>
      .ok ⟨some (.commitCandidate ⟨conversationId, proposals, commit, steward⟩)⟩
    | _ => .error "malformed candidate"
  | 7 :: message => .ok ⟨some (.conversationMessage message [])⟩
  | _ => .error "unknown message"

def codec : Codec where
  encodeApp := encodeApp
  decodeApp := decodeApp
  encodeRequest := encodeRequest
  decodeRequest := decodeRequest

/-- The platform of this file. -/
def platform : Platform where
  mls := mls
  consensus := consensus
  scores := scores
  codec := codec
  sha256 b := b

/-! ## Conversations to evaluate -/

/-- A group at `epoch` over members with leaves `0, 1, …` and the given signature keys. -/
def groupOf (own : LeafNodeIndex) (epoch : Nat) (keys : List Bytes) : MlsGroup mls.Secrets where
  groupId := []
  epoch := epoch
  ownLeafIndex := own
  members := keys.zipIdx.map fun k => ⟨UInt32.ofNat k.2, k.1⟩
  secrets := (⟨[], none⟩ : Secrets)

/-- Approvals under the ids `1, 2, …`. -/
def approvedOf (requests : List ConversationUpdateRequest) :
    OrderedMap ProposalId ConversationUpdateRequest :=
  (requests.zipIdx 1).foldl (fun m e => m.insert e.2 e.1) .empty

/-- A steward list over leaves, elected at `epoch`. -/
def stewardsOf (leaves : List LeafNodeIndex) (epoch : Nat) : StewardListService :=
  ⟨some ⟨leaves.map memberIdOf, ⟨1, 2, false⟩, epoch, 0⟩, ⟨1, 2, false⟩, [], 0, 2⟩

/-- The conversation of the member at leaf `own`, at work, with the default configuration. -/
def conversationOf (own : LeafNodeIndex) (epoch : Nat) (keys : List Bytes)
    (stewardList : StewardListService) (approved : List ConversationUpdateRequest)
    (urgentTarget : Option Bytes) : Conversation platform where
  conversationId := []
  now := 0
  queues := { ConversationQueues.new [] 10 with
    approvedProposals := approvedOf approved
    urgentCommitTarget := urgentTarget }
  mls := ⟨[], groupOf own epoch keys, none⟩
  scoring := ⟨[], ScoreEvent.defaultDelta, ⟨100, 0⟩⟩
  stewardList := stewardList
  consensus := []
  outcomes := []
  state := .working
  config := .default
  operatingMode := .normal
  recoveryRounds := 0
  timing := .new
  selfMemberId := memberIdOf own
  appId := [byte own.toNat]
  pendingEvents := []
  pendingOutbound := []

/-- Mint our candidate and let the freeze window run out. -/
def readyToSelect (c : Conversation platform) : Conversation platform :=
  let c := Program.after (Conversation.buildLocalCandidate c.selfMemberId) c
  { c with
    state := .freezing
    now := c.now + c.config.freezeDuration
    timing := { c.timing with phaseTimer := some c.now } }

/-- A peer's proposal, open to three votes. -/
def proposalOf (id : ProposalId) (request : ConversationUpdateRequest) : Proposal :=
  ⟨[], encodeRequest request, id, memberIdOf 1, [], 3, 1, 0, 1000, true⟩

/-- Three members at work, nothing proposed. -/
def start : Conversation platform :=
  conversationOf 0 1 [[10], [11], [12]] (stewardsOf [0, 1] 1) [] none

/-- A proposal arrives. -/
def tracked (id : ProposalId) (request : ConversationUpdateRequest) (c : Conversation platform) :
    Conversation platform :=
  Program.after (Conversation.onIncomingProposal (proposalOf id request)) c

/-- Its vote ends with a yes. -/
def approve (id : ProposalId) (c : Conversation platform) : Conversation platform :=
  Program.after (Conversation.handleConsensusOutcome (.consensusReached id true 0)) c

/-- The candidate a conversation mints; empty when it mints none. -/
def minted (c : Conversation platform) : CommitCandidate :=
  match Conversation.localCandidate c.selfMemberId c with
  | .ok (some candidate) _ => candidate
  | _ => ⟨[], [], [], []⟩

/-- What a node's round works on after these candidates arrived. -/
def receiving (c : Conversation platform) (candidates : List CommitCandidate) :
    RoundState platform where
  queues := candidates.foldl (fun q candidate =>
    (receiveCommitCandidate platform q c.mls candidate).2) c.queues
  mls := c.mls

theorem reliable : MlsService.Reliable mls where
  clearPendingCommit _ := ⟨_, rfl⟩
  clearPendingProposals _ := ⟨_, rfl⟩
  mergePendingCommit g _ := by
    show ∃ merged secrets, (match g.secrets.pending with
      | none => (.ok none, g.secrets)
      | some c => (.ok (some (rosterAfter g.members c.changes)), ⟨[], none⟩) :
        Except String (Option (List Member)) × Secrets) = (.ok merged, secrets)
    cases g.secrets.pending <;> exact ⟨_, _, rfl⟩
  mergeStagedCommit _ _ _ := ⟨_, _, rfl⟩

/-- Seating joiners leaves the seats taken as they are. -/
theorem find?_foldl_seat (p : Member → Bool) (keys : List Bytes) (members : List Member)
    {m : Member} (h : members.find? p = some m) : (keys.foldl seat members).find? p = some m := by
  induction keys generalizing members with
  | nil => exact h
  | cons key rest ih =>
    rw [List.foldl_cons]
    apply ih
    unfold seat
    rw [List.find?_append, h, Option.some_or]

theorem mem_foldl_seat (keys : List Bytes) (members : List Member) {m : Member}
    (h : m ∈ keys.foldl seat members) : m ∈ members ∨ m.signatureKey ∈ keys := by
  induction keys generalizing members with
  | nil => exact .inl h
  | cons key rest ih =>
    rw [List.foldl_cons] at h
    rcases ih (seat members key) h with hm | hm
    · unfold seat at hm
      rcases List.mem_append.mp hm with hold | hnew
      · exact .inl hold
      · rw [List.mem_singleton] at hnew
        rw [hnew]
        exact .inr List.mem_cons_self
    · exact .inr (List.mem_cons_of_mem key hm)

theorem reseats_rosterAfter (c : StagedCommit) (members : List Member) :
    Reseats mls (some c) members (rosterAfter members c.changes) where
  stays l m hm hl := by
    have hl : l ∉ c.changes.filterMap Change.leaf := hl
    unfold rosterAfter
    apply find?_foldl_seat
    rw [List.find?_filter, ← hm]
    congr 1
    funext x
    simp only [decide_eq_true_eq, decide_eq_decide, and_iff_right_iff_imp]
    rintro rfl
    exact hl
  origin m hm := by
    unfold rosterAfter at hm
    rcases mem_foldl_seat _ _ hm with hold | hnew
    · exact .inl (List.mem_of_mem_filter hold)
    · exact .inr hnew

theorem followsCommits : FollowsCommits mls where
  own g members secrets h := by
    have h : (match g.secrets.pending with
      | none => (.ok none, g.secrets)
      | some c => (.ok (some (rosterAfter g.members c.changes)), ⟨[], none⟩) :
        Except String (Option (List Member)) × Secrets) = (.ok (some members), secrets) := h
    show Reseats mls g.secrets.pending g.members members
    cases hpending : g.secrets.pending with
    | none =>
      rw [hpending] at h
      cases h
    | some c =>
      rw [hpending] at h
      cases h
      exact reseats_rosterAfter c g.members
  remote g staged members secrets _ h := by
    cases h
    exact reseats_rosterAfter staged g.members

end DeMls.Ideal
