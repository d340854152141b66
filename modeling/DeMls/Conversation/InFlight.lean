import DeMls.Lib.Paths
import DeMls.Conversation.Standing

/-!
# Proposals in flight

The bookkeeping of a proposal from its first sighting to its outcome: the four tables it is in, the
sessions and the bus. Few programs touch it. `Drift` names what the drivers, the follow-ups and the
steward's duties do to it: they leave it alone, change the phase, or open a proposal of their own.
-/

namespace DeMls

open Program

variable {P : Platform} {α : Type}

/-! ## The queues -/

namespace ConversationQueues

/-- What the queues keep of proposals in flight. -/
def tracked (q : ConversationQueues) :
    OrderedMap ProposalId VotingMeta × Finset ProposalId × BoundedSet ProposalId :=
  (q.votingProposals, q.activeEmergencyIds, q.resolvedProposals)

theorem tracked_stashEarlyCandidate (q : ConversationQueues) (epoch max : Nat)
    (c : CommitCandidate) : (q.stashEarlyCandidate epoch c max).tracked = q.tracked := by
  unfold stashEarlyCandidate
  simp only
  split_ifs <;> rfl

theorem tracked_insertPendingUpdate (O : OpenMls) (q : ConversationQueues)
    (req : ConversationUpdateRequest) (epoch : Nat) :
    (q.insertPendingUpdate O req epoch).tracked = q.tracked := by
  unfold insertPendingUpdate
  split
  · rfl
  · split_ifs <;> rfl

theorem tracked_applyMembershipDeltaBookkeeping (q : ConversationQueues) (epoch : Nat) :
    (q.applyMembershipDeltaBookkeeping epoch).tracked = q.tracked := by
  have hremoved : ∀ (removed : List MemberId) (q : ConversationQueues),
      (removed.foldl forgetRemoved q).tracked = q.tracked := by
    intro removed
    induction removed with
    | nil => exact fun _ => rfl
    | cons m rest ih => exact fun q => (ih _).trans rfl
  have hadded : ∀ (added : List Member) (q : ConversationQueues),
      (added.foldl (recordAdded epoch) q).tracked = q.tracked := by
    intro added
    induction added with
    | nil => exact fun _ => rfl
    | cons m rest ih => exact fun q => (ih _).trans rfl
  unfold applyMembershipDeltaBookkeeping
  cases q.pendingMembershipDelta with
  | none => rfl
  | some delta => exact (hadded _ _).trans (hremoved _ _)

end ConversationQueues

open ConversationQueues

theorem tracked_receiveCommitCandidate (q : ConversationQueues) (mls : MlsService P.mls)
    (c : CommitCandidate) : (receiveCommitCandidate P q mls c).2.tracked = q.tracked := by
  unfold receiveCommitCandidate
  simp only
  split_ifs
  · rfl
  · rfl
  · rfl
  · exact tracked_stashEarlyCandidate _ _ _ _
  · rfl
  · rfl

theorem tracked_replayEarlyCandidates (q : ConversationQueues) (mls : MlsService P.mls) :
    (replayEarlyCandidates P q mls).tracked = q.tracked := by
  have hfold : ∀ (cs : List CommitCandidate) (q : ConversationQueues),
      (cs.foldl (fun q c => (receiveCommitCandidate P q mls c).2) q).tracked = q.tracked := by
    intro cs
    induction cs with
    | nil => exact fun _ => rfl
    | cons c rest ih =>
      intro q
      rw [List.foldl_cons, ih, tracked_receiveCommitCandidate]
  exact hfold _ _

theorem tracked_finalizeCommittedBatch (q : ConversationQueues) (hash : CommitHash) (epoch : Nat) :
    (finalizeCommittedBatch q hash epoch).2.tracked = q.tracked := by
  have hbooked := tracked_applyMembershipDeltaBookkeeping (q.insertCommittedHash hash) epoch
  unfold finalizeCommittedBatch takeUrgentCommitTarget
  simp only
  cases ((q.insertCommittedHash hash).applyMembershipDeltaBookkeeping epoch).urgentCommitTarget with
  | none => exact hbooked
  | some target => exact hbooked

/-! ## A commit round -/

section Round

open RoundState

/-- What a round could touch of it. -/
def RoundState.tracked (s : RoundState P) :
    OrderedMap ProposalId VotingMeta × Finset ProposalId × BoundedSet ProposalId :=
  s.queues.tracked

theorem tracked_onMls (x : EStateM MlsError (MlsService P.mls) α) :
    Frame RoundState.tracked (onMls x : RoundM P α) :=
  frame_zoom fun _ _ => rfl

theorem tracked_onQueues {f : ConversationQueues → α × ConversationQueues}
    (h : ∀ q, (f q).2.tracked = q.tracked) : Frame RoundState.tracked (onQueues f : RoundM P α) :=
  fun s => h s.queues

theorem tracked_of_visible {x : RoundM P α} (h : Frame visible x) : Frame RoundState.tracked x :=
  fun s => congrArg (fun v : ConversationQueues × MlsGroup Unit => v.1.tracked) (h s)

theorem tracked_applyCandidate (stewardList : StewardListService) (c : BufferedCommitCandidate)
    (ctx : RoundContext) : Frame RoundState.tracked (applyCandidate stewardList c ctx : RoundM P _) := by
  have hreject : ∀ penalty, Frame RoundState.tracked (rejectStaged penalty : RoundM P _) :=
    fun penalty => tracked_of_visible (frame_rejectStaged penalty)
  unfold applyCandidate
  split_ifs
  · unfold applyLocalCandidate
    refine frame_bind (frame_get _) fun _ => frame_bind (tracked_onMls _) fun delta => ?_
    refine frame_bind (tracked_onQueues fun _ => rfl) fun _ => ?_
    exact frame_bind (tracked_onQueues fun _ => tracked_finalizeCommittedBatch _ _ _) fun _ =>
      frame_pure _ _
  · unfold applyIncomingCandidate
    refine frame_bind (tracked_of_visible (frame_stageCandidate _ _)) fun o => ?_
    split
    · exact hreject _
    · exact hreject _
    · refine frame_bind (frame_get _) fun s => ?_
      split
      · exact hreject _
      · split
        · exact hreject _
        · unfold mergeIncomingCandidate
          refine frame_bind (tracked_onMls _) fun _ => frame_bind (frame_get _) fun _ => ?_
          refine frame_bind (tracked_onMls _) fun delta => ?_
          refine frame_bind (tracked_onQueues fun _ => rfl) fun _ => ?_
          exact frame_bind (tracked_onQueues fun _ => tracked_finalizeCommittedBatch _ _ _)
            fun _ => frame_pure _ _

theorem tracked_applyInPriorityOrder (stewardList : StewardListService) (ctx : RoundContext)
    (self : Bytes) (cs : List BufferedCommitCandidate) (ops : List ScoreOp) :
    Frame RoundState.tracked (applyInPriorityOrder stewardList ctx self cs ops : RoundM P _) := by
  induction cs generalizing ops with
  | nil => exact tracked_of_visible (frame_discardAndFinish ops)
  | cons c rest ih =>
    refine frame_bind (tracked_applyCandidate _ _ _) fun o => ?_
    cases o with
    | terminal _ _ _ _ => exact frame_pure _ _
    | drop op => exact ih _

/-- A round touches no proposal in flight. -/
theorem tracked_finalizeCommitRound (stewardList : StewardListService)
    (inRecovery allowSubset : Bool) (self : Bytes) : Frame RoundState.tracked
      (finalizeCommitRound stewardList inRecovery allowSubset self : RoundM P _) := by
  have hdiscard : Frame RoundState.tracked (discardAndFinish [] : RoundM P _) :=
    tracked_of_visible (frame_discardAndFinish [])
  unfold finalizeCommitRound
  refine frame_bind (frame_get _) fun s => frame_bind (tracked_onQueues fun _ => rfl) fun cs => ?_
  split_ifs
  · exact hdiscard
  · refine frame_bind (frame_get _) fun t => ?_
    simp only
    split_ifs
    · exact hdiscard
    · exact tracked_applyInPriorityOrder _ _ _ _ _

end Round

namespace Conversation

/-! ## The bookkeeping -/

/-- Everything kept of proposals in flight. -/
structure InFlight (P : Platform) where
  tracked : OrderedMap ProposalId VotingMeta × Finset ProposalId × BoundedSet ProposalId
  autoVotes : OrderedMap ProposalId AutoVoteEntry
  timeouts : OrderedMap ProposalId Nat
  consensus : P.consensus.State
  outcomes : List ConsensusEvent

def inFlight (c : Conversation P) : InFlight P :=
  ⟨c.queues.tracked, c.timing.pendingAutoVotes, c.timing.pendingConsensusTimeouts, c.consensus,
    c.outcomes⟩

/-- The bookkeeping, with the phase. -/
def flight (c : Conversation P) : InFlight P × ConversationState := (c.inFlight, c.state)

theorem inFlight_of_flight {x : ConvM P α} (h : Frame flight x) : Frame inFlight x :=
  fun c => congrArg Prod.fst (h c)

/-! ## Programs that touch neither -/

theorem flight_modifyQueues {f : ConversationQueues → ConversationQueues}
    (h : ∀ q, (f q).tracked = q.tracked) : Frame flight (modifyQueues f : ConvM P Unit) :=
  frame_modify fun c => by
    unfold flight inFlight
    simp only [h]

theorem flight_onMls (x : EStateM MlsError (MlsService P.mls) α) :
    Frame flight (onMls x : ConvM P α) :=
  frame_zoom fun _ _ => rfl

theorem flight_onScoring (x : PeerScoringService.ScoringM P.scores α) :
    Frame flight (onScoring x : ConvM P α) :=
  frame_zoom fun _ _ => rfl

theorem flight_emitEvent (event : ConversationEvent) :
    Frame flight (emitEvent event : ConvM P Unit) :=
  frame_modify fun _ => rfl

theorem flight_broadcast (payload : Bytes) : Frame flight (broadcast payload : ConvM P Unit) :=
  frame_modify fun _ => rfl

theorem flight_sendApp (message : AppMessage) : Frame flight (sendApp message : ConvM P Unit) :=
  frame_bind (flight_onMls _) fun _ => flight_broadcast _

theorem flight_emitScoreChanges (changes : List ScoreChange) :
    Frame flight (emitScoreChanges changes : ConvM P Unit) := by
  induction changes with
  | nil => exact frame_pure _ _
  | cons change rest ih => exact frame_bind (flight_emitEvent _) fun _ => ih

theorem flight_applyScoreOps (ops : List ScoreOp) :
    Frame flight (applyScoreOps ops : ConvM P Unit) :=
  frame_bind (flight_onScoring _) fun _ => flight_emitScoreChanges _

theorem flight_applyRoundScores (ops : List ScoreOp) :
    Frame flight (applyRoundScores ops : ConvM P Unit) := by
  unfold applyRoundScores
  refine frame_ite (frame_pure _ _) ?_
  refine frame_bind (frame_attempt (flight_applyScoreOps _)) fun r => ?_
  cases r with
  | ok _ => exact frame_pure _ _
  | error e => exact flight_emitEvent _

theorem flight_emitPhaseChange (transition : Option ConversationState) :
    Frame flight (emitPhaseChange transition : ConvM P Unit) := by
  cases transition with
  | none => exact frame_pure _ _
  | some state => exact flight_emitEvent _

theorem flight_mintAndBroadcastCandidate :
    Frame flight (mintAndBroadcastCandidate : ConvM P Bool) := by
  unfold mintAndBroadcastCandidate
  refine frame_bind (frame_get _) fun c => ?_
  have hlocal : Frame flight (localCandidate c.selfMemberId : ConvM P _) := by
    unfold localCandidate
    refine frame_bind (frame_get _) fun c => ?_
    split_ifs
    · exact frame_throw _ _
    · exact frame_throw _ _
    · exact frame_pure _ _
    · exact frame_throw _ _
    · refine frame_bind (frame_ofResult _ _) fun ⟨updates, joiners⟩ => ?_
      refine frame_ite (frame_pure _ _) (frame_bind (flight_onMls _) fun _ => ?_)
      exact frame_bind (frame_modify fun _ => rfl) fun _ => frame_pure _ _
  have hbuild : Frame flight (buildLocalCandidate c.selfMemberId : ConvM P _) := by
    refine frame_bind hlocal fun o => ?_
    cases o <;> exact frame_pure _ _
  refine frame_bind hbuild fun o => ?_
  cases o with
  | none => exact frame_pure _ _
  | some payload => exact frame_bind (flight_broadcast _) fun _ => frame_pure _ _

theorem flight_onFreezeEntered (event : ConversationState) :
    Frame flight (onFreezeEntered event : ConvM P Unit) := by
  unfold onFreezeEntered
  refine frame_bind (frame_get _) fun c => frame_ite ?_ (flight_emitEvent _)
  refine frame_bind (frame_attempt flight_mintAndBroadcastCandidate) fun r => ?_
  cases r with
  | ok _ => exact flight_emitEvent _
  | error e => exact frame_bind (flight_emitEvent _) fun _ => flight_emitEvent _

theorem flight_replayEarlyCandidates : Frame flight (replayEarlyCandidates : ConvM P Unit) :=
  frame_modify fun c => by
    unfold flight inFlight
    simp only [tracked_replayEarlyCandidates]

theorem flight_finalizeCommitRound (allowSubset : Bool) (self : Bytes) :
    Frame flight (finalizeCommitRound allowSubset self : ConvM P _) := by
  refine frame_bind (frame_get _) fun c => ?_
  refine frame_zoom_of_frame (tracked_finalizeCommitRound _ _ _ _) fun t s h => ?_
  unfold flight inFlight
  rw [show (roundPart.set t s).queues.tracked = s.queues.tracked from h]
  rfl

theorem flight_reconcileStewardList : Frame flight (reconcileStewardList : ConvM P _) := by
  unfold reconcileStewardList
  refine frame_bind (frame_get _) fun c => frame_ite (frame_pure _ _) ?_
  refine frame_ite (frame_pure _ _) (frame_bind (frame_ofResult _ _) fun l => ?_)
  exact frame_bind (frame_modify fun _ => rfl) fun _ => frame_pure _ _

theorem flight_addScored (ids : List Bytes) : Frame flight (addScored ids : ConvM P Unit) := by
  induction ids with
  | nil => exact frame_pure _ _
  | cons id rest ih => exact frame_bind (flight_onScoring _) fun _ => ih

theorem flight_removeScored (ids : List Bytes) :
    Frame flight (removeScored ids : ConvM P Unit) := by
  induction ids with
  | nil => exact frame_pure _ _
  | cons id rest ih => exact frame_bind (flight_onScoring _) fun _ => ih

theorem flight_buildConversationSyncPayload :
    Frame flight (buildConversationSyncPayload : ConvM P _) := by
  unfold buildConversationSyncPayload
  refine frame_bind (flight_onScoring _) fun _ => frame_bind (frame_get _) fun c => ?_
  split
  · exact frame_pure _ _
  · exact frame_bind (flight_onMls _) fun _ => frame_pure _ _

theorem flight_shareConversationSync : Frame flight (shareConversationSync : ConvM P Unit) := by
  unfold shareConversationSync
  refine frame_bind flight_buildConversationSyncPayload fun o => ?_
  cases o with
  | none => exact frame_pure _ _
  | some payload => exact flight_broadcast _

theorem flight_deliverWelcome (welcome : MemberWelcome) :
    Frame flight (deliverWelcome welcome : ConvM P Unit) := by
  unfold deliverWelcome
  refine frame_bind (frame_attempt flight_reconcileStewardList) fun reconciled => ?_
  refine frame_bind ?_ fun sync => ?_
  · cases reconciled with
    | ok _ => exact frame_attempt flight_buildConversationSyncPayload
    | error e => exact frame_pure _ _
  · cases sync with
    | ok bytes => exact frame_bind (flight_emitEvent _) fun _ => flight_broadcast _
    | error e =>
      exact frame_bind (flight_emitEvent _) fun _ =>
        frame_bind (flight_emitEvent _) fun _ => flight_broadcast _

theorem flight_reconcileMembershipAfterCommit :
    Frame flight (reconcileMembershipAfterCommit : ConvM P Unit) := by
  unfold reconcileMembershipAfterCommit
  refine frame_bind (frame_get _) fun c => ?_
  refine frame_bind (flight_modifyQueues fun _ => rfl) fun _ => ?_
  refine frame_bind (flight_removeScored _) fun _ => frame_bind (flight_addScored _) fun _ => ?_
  refine frame_bind (flight_modifyQueues fun _ => rfl) fun _ => ?_
  exact frame_ite (flight_emitEvent _) (frame_pure _ _)

/-! ## Opening a proposal -/

/-- The session a request asks the consensus service for. -/
def openingOf (c : Conversation P) (request : ConversationUpdateRequest) : CreateProposalRequest where
  payload := P.codec.encodeRequest request
  proposalOwner := c.selfMemberId
  expectedVotersCount := c.members.length % 2 ^ 32
  expirationSecs := asSecs c.config.proposalExpiration
  livenessCriteriaYes := c.config.livenessCriteriaYes
  timeout := c.config.consensusTimeout

/-- The service's answer to it. -/
def opening (c : Conversation P) (request : ConversationUpdateRequest) :
    Except ConsensusError Proposal × P.consensus.State × List ConsensusEvent :=
  P.consensus.createProposalWithConfig c.consensus (c.openingOf request) (asSecs c.now)

/-- The queues with a proposal of our own in flight. -/
def trackOwn (O : OpenMls) (id : ProposalId) (request : ConversationUpdateRequest)
    (q : ConversationQueues) : ConversationQueues :=
  let q := q.trackVotingProposal O id request
  if (ProposalKind.of request).isEmergency then q.insertEmergency id else q

/-- What opening a proposal does to the bookkeeping: nothing, a call of the service that fails, or a
session with its entry and its timeout. -/
inductive OpeningEffect (c : Conversation P) (request : ConversationUpdateRequest) :
    InFlight P → Prop
  | refused : OpeningEffect c request c.inFlight
  | failed {e : ConsensusError} {st : P.consensus.State} {outs : List ConsensusEvent}
      (hopening : c.opening request = (.error e, st, outs)) :
      OpeningEffect c request { c.inFlight with consensus := st, outcomes := c.outcomes ++ outs }
  | opened {proposal : Proposal} {st st' : P.consensus.State} {outs more : List ConsensusEvent}
      {autoVotes : OrderedMap ProposalId AutoVoteEntry}
      (hgate : c.queues.partialFreezeBlocks (.of request) = false)
      (hopening : c.opening request = (.ok proposal, st, outs))
      (hconsensus : st' = st ∨ st' = (P.consensus.castVoteAndGetProposal st proposal.proposalId true
        (asSecs c.now)).2.1)
      (hvotes : autoVotes = c.timing.pendingAutoVotes ∨
        ∃ entry, autoVotes = c.timing.pendingAutoVotes.insert proposal.proposalId entry) :
      OpeningEffect c request
        ⟨(trackOwn P.mls proposal.proposalId request c.queues).tracked, autoVotes,
          c.timing.pendingConsensusTimeouts.insert proposal.proposalId
            (c.now + c.config.consensusTimeout),
          st', c.outcomes ++ outs ++ more⟩

/-- The gate reads the state only; it lets a request through over all members, if no freeze blocks
it. -/
theorem checkProposalAllowed_cases (kind : ProposalKind) (c : Conversation P) :
    (∃ e, (checkProposalAllowed kind : ConvM P Nat) c = .error e c) ∨
      c.queues.partialFreezeBlocks kind = false ∧
        (checkProposalAllowed kind : ConvM P Nat) c = .ok (c.members.length % 2 ^ 32) c := by
  unfold checkProposalAllowed
  rw [bind_run _ (get_apply c)]
  cases c.state with
  | working =>
    dsimp only
    split_ifs with hblocked
    · exact .inl ⟨_, rfl⟩
    · exact .inr ⟨Bool.eq_false_iff.mpr hblocked, rfl⟩
  | reelection =>
    dsimp only
    split_ifs with hkind hblocked
    · exact .inl ⟨_, rfl⟩
    · exact .inl ⟨_, rfl⟩
    · exact .inr ⟨Bool.eq_false_iff.mpr hblocked, rfl⟩
  | freezing => exact .inl ⟨_, rfl⟩
  | selection => exact .inl ⟨_, rfl⟩

/-- At work, the gate is open to what no partial freeze blocks. -/
theorem checkProposalAllowed_working {kind : ProposalKind} {c : Conversation P}
    (hstate : c.state = .working) (hopen : c.queues.partialFreezeBlocks kind = false) :
    (checkProposalAllowed kind : ConvM P Nat) c = .ok (c.members.length % 2 ^ 32) c := by
  unfold checkProposalAllowed
  rw [bind_run _ (get_apply c), hstate]
  dsimp only
  rw [hopen, if_neg Bool.false_ne_true]
  rfl

/-- What is left of opening a proposal once its session is. -/
def announceOwn (id : ProposalId) (unbundled : AppMessage) (request : ConversationUpdateRequest)
    (v : CreatorVote) (now votingDelay : Nat) (livenessCriteriaYes : Bool) : ConvM P Unit :=
  match v with
  | .yes => do
    let proposal ← onConsensus fun st =>
      P.consensus.castVoteAndGetProposal st id true (asSecs now)
    sendApp ⟨some (.proposal proposal)⟩
    emitEvent (.ownProposalSubmitted id request)
  | .deferred => do
    sendApp unbundled
    emitEvent (.voteRequested id request)
    registerAutoVote id votingDelay livenessCriteriaYes

/-- Announcing casts one vote at most and schedules one at most. -/
theorem announceOwn_effect (id : ProposalId) (unbundled : AppMessage)
    (request : ConversationUpdateRequest) (v : CreatorVote) (now votingDelay : Nat)
    (livenessCriteriaYes : Bool) (c : Conversation P) :
    ∃ st autoVotes more,
      (after (announceOwn id unbundled request v now votingDelay livenessCriteriaYes) c).inFlight =
        { c.inFlight with
          consensus := st
          outcomes := c.outcomes ++ more
          autoVotes := autoVotes } ∧
      (st = c.consensus ∨
        st = (P.consensus.castVoteAndGetProposal c.consensus id true (asSecs now)).2.1) ∧
      (autoVotes = c.timing.pendingAutoVotes ∨
        ∃ entry, autoVotes = c.timing.pendingAutoVotes.insert id entry) := by
  cases v with
  | yes =>
    rcases hcall : P.consensus.castVoteAndGetProposal c.consensus id true (asSecs now)
      with ⟨r, st, outs⟩
    refine ⟨st, _, outs, ?_, .inr rfl, .inl rfl⟩
    unfold announceOwn
    cases r with
    | error e =>
      rw [after_bind_error _ (onConsensus_error hcall)]
      rfl
    | ok proposal =>
      rw [after_bind_ok _ (onConsensus_ok hcall)]
      exact inFlight_of_flight (frame_bind (flight_sendApp _) fun _ => flight_emitEvent _)
        (c.answered st outs)
  | deferred =>
    unfold announceOwn
    cases hsend : (sendApp unbundled : ConvM P Unit) c with
    | error e d =>
      rw [after_bind_error _ hsend]
      refine ⟨c.consensus, c.timing.pendingAutoVotes, [], ?_, .inl rfl, .inl rfl⟩
      rw [(inFlight_of_flight (flight_sendApp unbundled)).error hsend, List.append_nil]
      rfl
    | ok _ d =>
      rw [after_bind_ok _ hsend]
      have hd := (inFlight_of_flight (flight_sendApp unbundled)).ok hsend
      let entry : AutoVoteEntry := ⟨d.now + votingDelay, livenessCriteriaYes⟩
      refine ⟨c.consensus, c.timing.pendingAutoVotes.insert id entry, [], ?_, .inl rfl,
        .inr ⟨entry, rfl⟩⟩
      have hlast : (after (do
          emitEvent (.voteRequested id request)
          registerAutoVote id votingDelay livenessCriteriaYes : ConvM P Unit) d).inFlight =
            { d.inFlight with autoVotes := d.inFlight.autoVotes.insert id entry } := rfl
      rw [hlast, hd, List.append_nil]
      rfl

/-- A change for the target of the request is in flight. -/
def skips (c : Conversation P) (request : ConversationUpdateRequest) : Bool :=
  (inFlightTarget P.mls request).any fun t => t ∈ c.queues.activeProposalTargets P.mls

/-- The conversation with the session of a proposal of ours. -/
def opened (c : Conversation P) (request : ConversationUpdateRequest) (proposal : Proposal)
    (st : P.consensus.State) (outs : List ConsensusEvent) : Conversation P :=
  { c.answered st outs with
    queues := trackOwn P.mls proposal.proposalId request c.queues
    timing := { c.timing with
      pendingConsensusTimeouts := c.timing.pendingConsensusTimeouts.insert proposal.proposalId
        (c.now + c.config.consensusTimeout) } }

/-- Opening a proposal, step by step. -/
theorem initiateProposal_eq (request : ConversationUpdateRequest) (v : CreatorVote)
    (c : Conversation P) : initiateProposal request v c =
      (if c.skips request then pure ()
      else do
        let voters ← checkProposalAllowed (.of request)
        let (proposalId, unbundled) ← submitProposal request voters
        modifyQueues (trackOwn P.mls proposalId request)
        registerConsensusTimeout proposalId c.config.consensusTimeout
        announceOwn proposalId unbundled request v c.now c.config.votingDelay
          c.config.livenessCriteriaYes : ConvM P Unit) c := rfl

/-- An opened session is announced, or the opening failed at its call. -/
theorem initiateProposal_opening {c : Conversation P} {request : ConversationUpdateRequest}
    (v : CreatorVote) {voters : Nat} {d : Conversation P} (hskips : c.skips request = false)
    (hgate : (checkProposalAllowed (.of request) : ConvM P Nat) c = .ok voters d) :
    (∃ proposal st outs, c.opening request = (.ok proposal, st, outs) ∧
      initiateProposal request v c = announceOwn proposal.proposalId ⟨some (.proposal proposal)⟩
        request v c.now c.config.votingDelay c.config.livenessCriteriaYes
        (c.opened request proposal st outs)) ∨
    ∃ e st outs, c.opening request = (.error e, st, outs) ∧
      initiateProposal request v c = .error (.consensus e) (c.answered st outs) := by
  obtain ⟨rfl, rfl⟩ : voters = c.members.length % 2 ^ 32 ∧ d = c := by
    rcases checkProposalAllowed_cases (.of request) c with ⟨e, h⟩ | ⟨-, h⟩
    · rw [hgate] at h
      cases h
    · rw [hgate] at h
      cases h
      exact ⟨rfl, rfl⟩
  rw [initiateProposal_eq, hskips, if_neg Bool.false_ne_true, bind_run _ hgate]
  rcases hopening : d.opening request with ⟨e | proposal, st, outs⟩
  · refine .inr ⟨e, st, outs, rfl, (bind_error _ _ _ _ _).mpr (.inl ?_)⟩
    refine (bind_error _ _ _ _ _).mpr (.inr ⟨_, _, get_apply d, ?_⟩)
    exact (bind_error _ _ _ _ _).mpr (.inl (onConsensus_error hopening))
  · refine .inl ⟨proposal, st, outs, rfl, ?_⟩
    have hsubmit : (submitProposal request (d.members.length % 2 ^ 32) : ConvM P _) d =
        .ok (proposal.proposalId, ⟨some (.proposal proposal)⟩) (d.answered st outs) := by
      refine (bind_run _ (get_apply d)).trans ?_
      exact (bind_run _ (onConsensus_ok hopening)).trans rfl
    rw [bind_run _ hsubmit]
    rfl

/-- Opening a proposal is refused, fails at the service, or goes on to the creator's vote. -/
theorem after_initiateProposal (request : ConversationUpdateRequest) (v : CreatorVote)
    (c : Conversation P) :
    after (initiateProposal request v) c = c ∨
    (∃ e st outs, c.opening request = (.error e, st, outs) ∧
      after (initiateProposal request v) c = c.answered st outs) ∨
    ∃ proposal st outs, c.queues.partialFreezeBlocks (.of request) = false ∧
      c.opening request = (.ok proposal, st, outs) ∧
      after (initiateProposal request v) c =
        after (announceOwn proposal.proposalId ⟨some (.proposal proposal)⟩ request v c.now
          c.config.votingDelay c.config.livenessCriteriaYes)
          (c.opened request proposal st outs) := by
  by_cases hskips : c.skips request = true
  · have hrun : initiateProposal request v c = .ok () c := by
      rw [initiateProposal_eq, if_pos hskips]
      rfl
    exact .inl (after_of_ok hrun)
  rcases checkProposalAllowed_cases (.of request) c with ⟨e, hgate⟩ | ⟨hopen, hgate⟩
  · have hrun : initiateProposal request v c = .error e c := by
      rw [initiateProposal_eq, if_neg hskips]
      exact (bind_error _ _ _ _ _).mpr (.inl hgate)
    exact .inl (after_of_error hrun)
  rcases initiateProposal_opening v (Bool.eq_false_iff.mpr hskips) hgate with
    ⟨proposal, st, outs, hopening, hrun⟩ | ⟨e, st, outs, hopening, hrun⟩
  · refine .inr (.inr ⟨proposal, st, outs, hopen, hopening, ?_⟩)
    unfold after
    rw [hrun]
  · exact .inr (.inl ⟨e, st, outs, hopening, after_of_error hrun⟩)

/-- **Opening a proposal.** -/
theorem initiateProposal_effect (request : ConversationUpdateRequest) (v : CreatorVote)
    (c : Conversation P) :
    OpeningEffect c request (after (initiateProposal request v) c).inFlight := by
  rcases after_initiateProposal request v c with hrefused | ⟨e, st, outs, hopening, hfailed⟩ |
    ⟨proposal, st, outs, hgate, hopening, hopened⟩
  · rw [hrefused]
    exact .refused
  · rw [hfailed]
    exact .failed hopening
  · obtain ⟨st', autoVotes, more, heq, hconsensus, hvotes⟩ := announceOwn_effect
      proposal.proposalId ⟨some (.proposal proposal)⟩ request v c.now c.config.votingDelay
      c.config.livenessCriteriaYes (c.opened request proposal st outs)
    rw [hopened, heq]
    exact .opened hgate hopening hconsensus hvotes

end Conversation

end DeMls
