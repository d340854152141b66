import DeMls.CommitRound.Spec
import DeMls.Conversation.Messaging

/-!
# What the conversation leaves alone

Most of the conversation's programs move timers, buffers and sessions only. `membership` is the
part the approved work and the group live in, `standing` adds the installed steward list; every
program is proved to keep one of the two, whatever it does and whether or not it fails. What is
left after this file are the few programs that do change them: an applied outcome, a merged
commit, an installed list.
-/

namespace DeMls

open Program

/-! ## The queues -/

namespace ConversationQueues

variable {P : Platform} {O : OpenMls}

/-- The approved work, the urgent target and the join epochs. -/
def ledger (q : ConversationQueues) :
    OrderedMap ProposalId ConversationUpdateRequest × Option Bytes × OrderedMap Bytes Nat :=
  (q.approvedProposals, q.urgentCommitTarget, q.memberJoinEpoch)

@[simp] theorem ledger_trackVotingProposal (q : ConversationQueues) (id : ProposalId)
    (req : ConversationUpdateRequest) : (q.trackVotingProposal O id req).ledger = q.ledger := by
  unfold trackVotingProposal
  split_ifs <;> rfl

@[simp] theorem ledger_insertPendingUpdate (q : ConversationQueues)
    (req : ConversationUpdateRequest) (epoch : Nat) :
    (q.insertPendingUpdate O req epoch).ledger = q.ledger := by
  unfold insertPendingUpdate
  split
  · rfl
  · split_ifs <;> rfl

theorem ledger_stashEarlyCandidate (q : ConversationQueues) (epoch max : Nat)
    (c : CommitCandidate) : (q.stashEarlyCandidate epoch c max).ledger = q.ledger := by
  unfold stashEarlyCandidate
  simp only
  split_ifs <;> rfl

end ConversationQueues

open ConversationQueues

variable {P : Platform} {α : Type}

theorem ledger_receiveCommitCandidate (q : ConversationQueues) (mls : MlsService P.mls)
    (c : CommitCandidate) : (receiveCommitCandidate P q mls c).2.ledger = q.ledger := by
  unfold receiveCommitCandidate
  simp only
  split_ifs
  · rfl
  · rfl
  · rfl
  · exact ledger_stashEarlyCandidate _ _ _ _
  · rfl
  · rfl

theorem ledger_replayEarlyCandidates (q : ConversationQueues) (mls : MlsService P.mls) :
    (replayEarlyCandidates P q mls).ledger = q.ledger := by
  have hfold : ∀ (cs : List CommitCandidate) (q : ConversationQueues),
      (cs.foldl (fun q c => (receiveCommitCandidate P q mls c).2) q).ledger = q.ledger := by
    intro cs
    induction cs with
    | nil => exact fun _ => rfl
    | cons c rest ih =>
      intro q
      rw [List.foldl_cons, ih, ledger_receiveCommitCandidate]
  exact hfold _ _

theorem ledger_mirrorProposal (O : OpenMls) (id : ProposalId) (epoch : Nat)
    (req : ConversationUpdateRequest) (q : ConversationQueues) :
    (Conversation.mirrorProposal O id epoch req q).ledger = q.ledger := by
  unfold Conversation.mirrorProposal
  simp only
  split
  · exact ledger_trackVotingProposal _ _ _
  · rw [ledger_insertPendingUpdate, ledger_trackVotingProposal]
  · rw [ledger_insertPendingUpdate, ledger_trackVotingProposal]
  · exact ledger_trackVotingProposal _ _ _

namespace Conversation

/-! ## The two projections -/

/-- The batch a `CommitApplied` event reports. -/
def committedBatchOf : ConversationEvent → Option (List ConversationUpdateRequest)
  | .commitApplied batch => some batch
  | _ => none

/-- The batches reported as committed and not drained yet. -/
def reported (c : Conversation P) : List (List ConversationUpdateRequest) :=
  c.pendingEvents.filterMap committedBatchOf

/-- The approved work and the group: what a commit round reads and writes, with its reports. -/
structure Membership where
  ledger : OrderedMap ProposalId ConversationUpdateRequest × Option Bytes × OrderedMap Bytes Nat
  group : MlsGroup Unit
  reported : List (List ConversationUpdateRequest)

def membership (c : Conversation P) : Membership := ⟨c.queues.ledger, c.mls.publicPart, c.reported⟩

/-- The membership and the installed steward list. -/
def standing (c : Conversation P) : Membership × Option StewardList :=
  (c.membership, c.stewardList.list)

theorem frame_membership {x : ConvM P α} (h : Frame standing x) : Frame membership x :=
  fun c => congrArg Prod.fst (h c)

theorem frame_modifyQueues {f : ConversationQueues → ConversationQueues}
    (h : ∀ q, (f q).ledger = q.ledger) : Frame standing (modifyQueues f : ConvM P Unit) :=
  frame_modify fun c => by simp only [standing, membership, reported, h]

theorem frame_modifyTiming (f : Timing → Timing) : Frame standing (modifyTiming f : ConvM P Unit) :=
  frame_modify fun _ => rfl

theorem frame_onMls {x : EStateM MlsError (MlsService P.mls) α}
    (h : Frame MlsService.publicPart x) : Frame standing (onMls x : ConvM P α) :=
  frame_zoom_of_frame h fun m c hm => by
    unfold standing membership
    rw [show (mlsPart.set m c).mls.publicPart = c.mls.publicPart from hm]
    rfl

theorem frame_onScoring (x : PeerScoringService.ScoringM P.scores α) :
    Frame standing (onScoring x : ConvM P α) :=
  frame_zoom fun _ _ => rfl

theorem frame_onConsensus
    (f : P.consensus.State → Except ConsensusError α × P.consensus.State × List ConsensusEvent) :
    Frame standing (onConsensus f : ConvM P α) :=
  frame_ofPair fun _ => rfl

theorem frame_emitEvent {event : ConversationEvent} (h : committedBatchOf event = none) :
    Frame standing (emitEvent event : ConvM P Unit) :=
  frame_modify fun c => by simp [standing, membership, reported, h]

theorem frame_broadcast (payload : Bytes) : Frame standing (broadcast payload : ConvM P Unit) :=
  frame_modify fun _ => rfl

/-- A branch on the state that keeps `p` on both sides. -/
theorem frame_ite {ρ : Type} {p : Conversation P → ρ} {b : Prop} [Decidable b]
    {x y : ConvM P α} (hx : Frame p x) (hy : Frame p y) : Frame p (if b then x else y) := by
  split_ifs
  · exact hx
  · exact hy

/-- A program run for its effect, its result dropped. -/
theorem frame_attempted {ρ : Type} {p : Conversation P → ρ} {x : ConvM P α} (hx : Frame p x) :
    Frame p (do
      let _ ← (attempt x : ConvM P (Except ConversationError α))
      pure ()) :=
  frame_bind (frame_attempt hx) fun _ => frame_pure _ _

/-! ## Scores, phases and deadlines -/

theorem frame_emitScoreChanges (changes : List ScoreChange) :
    Frame standing (emitScoreChanges changes : ConvM P Unit) := by
  induction changes with
  | nil => exact frame_pure _ _
  | cons change rest ih => exact frame_bind (frame_emitEvent rfl) fun _ => ih

theorem frame_applyScoreOps (ops : List ScoreOp) :
    Frame standing (applyScoreOps ops : ConvM P Unit) :=
  frame_bind (frame_onScoring _) fun _ => frame_emitScoreChanges _

theorem frame_applyScoreSnapshot (s : ScoreSnapshot) :
    Frame standing (applyScoreSnapshot s : ConvM P Unit) :=
  frame_bind (frame_onScoring _) fun _ => frame_emitScoreChanges _

theorem frame_startWorking : Frame standing (startWorking : ConvM P _) :=
  frame_bind (frame_modify fun _ => rfl) fun _ => frame_pure _ _

theorem frame_startReelection : Frame standing (startReelection : ConvM P _) :=
  frame_bind (frame_modify fun _ => rfl) fun _ => frame_pure _ _

theorem frame_startFreezing : Frame standing (startFreezing : ConvM P _) := by
  unfold startFreezing
  refine frame_bind (frame_get _) fun c => ?_
  split_ifs
  · exact frame_bind (frame_modify fun _ => rfl) fun _ => frame_pure _ _
  · exact frame_pure _ _

theorem frame_reopenRecoveryWindow : Frame standing (reopenRecoveryWindow : ConvM P _) := by
  unfold reopenRecoveryWindow
  refine frame_bind (frame_get _) fun c => ?_
  split_ifs
  · exact frame_bind (frame_modify fun _ => rfl) fun _ => frame_pure _ _
  · exact frame_pure _ _

theorem frame_emitPhaseChange (transition : Option ConversationState) :
    Frame standing (emitPhaseChange transition : ConvM P Unit) := by
  cases transition with
  | none => exact frame_pure _ _
  | some state => exact frame_emitEvent rfl

theorem frame_checkStewardInactivity (count duration : Nat) :
    Frame standing (checkStewardInactivity count duration : ConvM P _) := by
  unfold checkStewardInactivity
  refine frame_bind (frame_get _) fun c => ?_
  split_ifs
  · exact frame_pure _ _
  · exact frame_bind (frame_modifyTiming _) fun _ => frame_pure _ _
  · exact frame_startFreezing
  · exact frame_pure _ _

theorem frame_registerAutoVote (id : ProposalId) (delay : Nat) (vote : Bool) :
    Frame standing (registerAutoVote id delay vote : ConvM P Unit) :=
  frame_modify fun _ => rfl

theorem frame_registerConsensusTimeout (id : ProposalId) (delay : Nat) :
    Frame standing (registerConsensusTimeout id delay : ConvM P Unit) :=
  frame_modify fun _ => rfl

/-! ## Minting -/

theorem frame_localCandidate (self : Bytes) :
    Frame standing (localCandidate self : ConvM P _) := by
  unfold localCandidate
  refine frame_bind (frame_get _) fun c => ?_
  split_ifs
  · exact frame_throw _ _
  · exact frame_throw _ _
  · exact frame_pure _ _
  · exact frame_throw _ _
  · refine frame_bind (frame_ofResult _ _) fun ⟨updates, joiners⟩ => ?_
    refine frame_ite (frame_pure _ _) ?_
    refine frame_bind (frame_onMls (MlsService.frame_createCommitCandidate _)) fun _ => ?_
    exact frame_bind (frame_modify fun _ => rfl) fun _ => frame_pure _ _

theorem frame_buildLocalCandidate (self : Bytes) :
    Frame standing (buildLocalCandidate self : ConvM P _) := by
  unfold buildLocalCandidate
  refine frame_bind (frame_localCandidate _) fun o => ?_
  cases o <;> exact frame_pure _ _

theorem frame_mintAndBroadcastCandidate :
    Frame standing (mintAndBroadcastCandidate : ConvM P Bool) := by
  unfold mintAndBroadcastCandidate
  refine frame_bind (frame_get _) fun c => frame_bind (frame_buildLocalCandidate _) fun o => ?_
  cases o with
  | none => exact frame_pure _ _
  | some payload => exact frame_bind (frame_broadcast _) fun _ => frame_pure _ _

theorem frame_onFreezeEntered (event : ConversationState) :
    Frame standing (onFreezeEntered event : ConvM P Unit) := by
  unfold onFreezeEntered
  refine frame_bind (frame_get _) fun c => frame_ite ?_ (frame_emitEvent rfl)
  refine frame_bind (frame_attempt frame_mintAndBroadcastCandidate) fun r => ?_
  cases r with
  | ok _ => exact frame_emitEvent rfl
  | error e => exact frame_bind (frame_emitEvent rfl) fun _ => frame_emitEvent rfl

theorem frame_replayEarlyCandidates : Frame standing (replayEarlyCandidates : ConvM P Unit) :=
  frame_modify fun c => by
    simp only [standing, membership, reported, ledger_replayEarlyCandidates]

/-! ## Proposals and votes -/

theorem frame_sendApp (message : AppMessage) : Frame standing (sendApp message : ConvM P Unit) :=
  frame_bind (frame_onMls (MlsService.frame_buildMessage _)) fun _ => frame_broadcast _

theorem frame_checkProposalAllowed (kind : ProposalKind) :
    Frame standing (checkProposalAllowed kind : ConvM P Nat) := by
  unfold checkProposalAllowed
  refine frame_bind (frame_get _) fun c => ?_
  split
  · split_ifs
    · exact frame_throw _ _
    · exact frame_throw _ _
    · exact frame_pure _ _
  · exact frame_throw _ _
  · exact frame_throw _ _
  · split_ifs
    · exact frame_throw _ _
    · exact frame_pure _ _

theorem frame_initiateProposal (request : ConversationUpdateRequest) (v : CreatorVote) :
    Frame standing (initiateProposal request v : ConvM P Unit) := by
  unfold initiateProposal
  refine frame_bind (frame_get _) fun c => frame_ite (frame_pure _ _) ?_
  refine frame_bind (frame_checkProposalAllowed _) fun voters => ?_
  have hsubmit : Frame standing (submitProposal request voters : ConvM P _) :=
    frame_bind (frame_get _) fun _ => frame_bind (frame_onConsensus _) fun _ => frame_pure _ _
  refine frame_bind hsubmit fun ⟨id, unbundled⟩ => ?_
  refine frame_bind (frame_modifyQueues fun q => ?_) fun _ => ?_
  · simp only
    split_ifs
    · exact ledger_trackVotingProposal _ _ _
    · exact ledger_trackVotingProposal _ _ _
  refine frame_bind (frame_registerConsensusTimeout _ _) fun _ => ?_
  cases v with
  | yes =>
    refine frame_bind (frame_onConsensus _) fun _ => ?_
    exact frame_bind (frame_sendApp _) fun _ => frame_emitEvent rfl
  | deferred =>
    refine frame_bind (frame_sendApp _) fun _ => ?_
    exact frame_bind (frame_emitEvent rfl) fun _ => frame_registerAutoVote _ _ _

theorem frame_broadcastVote (id : ProposalId) (vote : Bool) :
    Frame standing (broadcastVote id vote : ConvM P Unit) :=
  frame_bind (frame_get _) fun _ => frame_bind (frame_onConsensus _) fun _ => frame_sendApp _

theorem frame_vote (id : ProposalId) (b : Bool) : Frame standing (vote id b : ConvM P Unit) :=
  frame_bind (frame_get _) fun _ => frame_ite (frame_throw _ _)
    (frame_bind (frame_modifyTiming _) fun _ => frame_broadcastVote _ _)

theorem frame_forwardIncomingVote (vote : Vote) :
    Frame standing (forwardIncomingVote vote : ConvM P Unit) := by
  unfold forwardIncomingVote
  refine frame_bind (frame_get _) fun c => ?_
  refine frame_bind (frame_attempt (frame_onConsensus _)) fun r => ?_
  split
  · exact frame_pure _ _
  · exact frame_pure _ _
  · exact frame_pure _ _
  · exact frame_throw _ _

theorem frame_resolveOnTimeout (id : ProposalId) :
    Frame standing (resolveOnTimeout id : ConvM P Unit) := by
  unfold resolveOnTimeout
  refine frame_bind (frame_get _) fun c => ?_
  exact frame_ite (frame_pure _ _) (frame_attempted (frame_onConsensus _))

theorem frame_initiateSelfLeave : Frame standing (initiateSelfLeave : ConvM P Unit) := by
  unfold initiateSelfLeave
  refine frame_bind (frame_get _) fun c => frame_ite (frame_pure _ _) ?_
  refine frame_bind (frame_modifyQueues fun q => ledger_trackVotingProposal _ _ _) fun _ => ?_
  have hsubmit : Frame standing (submitSelfLeaveProposal : ConvM P _) := by
    unfold submitSelfLeaveProposal
    refine frame_bind (frame_get _) fun c => frame_bind (frame_ofResult _ _) fun v => ?_
    refine frame_bind (frame_attempt (frame_onConsensus _)) fun r => ?_
    split
    · exact frame_pure _ _
    · exact frame_pure _ _
    · exact frame_throw _ _
  refine frame_bind hsubmit fun o => ?_
  cases o with
  | none => exact frame_pure _ _
  | some m => exact frame_sendApp _

/-! ## Steward duties that install nothing -/

/-- An election only opens a vote. -/
theorem frame_election {ρ : Type} {p : Conversation P → ρ}
    (hproposal : ∀ election v, Frame p (initiateProposal (.stewardElection election) v : ConvM P Unit))
    (recovery : Bool) : Frame p (initiateStewardElection recovery : ConvM P Unit) := by
  unfold initiateStewardElection
  refine frame_bind (frame_get _) fun c => frame_ite (frame_pure _ _) ?_
  refine frame_bind (frame_ofResult _ _) fun decision => ?_
  cases decision with
  | skip _ => exact frame_pure _ _
  | proposed _ _ _ => exact hproposal _ _

theorem frame_initiateStewardElection (recovery : Bool) :
    Frame standing (initiateStewardElection recovery : ConvM P Unit) :=
  frame_election (fun _ => frame_initiateProposal _) recovery

theorem frame_requestRecovery : Frame standing (requestRecovery : ConvM P Unit) := by
  unfold requestRecovery
  refine frame_bind (frame_get _) fun c => frame_ite (frame_pure _ _) ?_
  exact frame_bind (frame_ofResult _ _) fun _ => frame_initiateProposal _ _

theorem frame_proposeScoreRemoval (target : Bytes) :
    Frame standing (proposeScoreRemoval target : ConvM P Unit) := by
  unfold proposeScoreRemoval
  refine frame_bind (frame_get _) fun c => frame_bind (frame_onScoring _) fun o => ?_
  cases o with
  | none => exact frame_throw _ _
  | some score => exact frame_bind (frame_ofResult _ _) fun _ => frame_initiateProposal _ _

theorem frame_advanceElectionRetry : Frame standing (advanceElectionRetry : ConvM P Unit) := by
  unfold advanceElectionRetry
  refine frame_bind (frame_modify fun _ => rfl) fun _ => frame_bind (frame_get _) fun c => ?_
  refine frame_ite (frame_ite ?_ (frame_pure _ _))
    (frame_attempted (frame_initiateStewardElection _))
  refine frame_bind (frame_attempt frame_requestRecovery) fun r => ?_
  cases r with
  | ok _ => exact frame_pure _ _
  | error e => exact frame_emitEvent rfl

theorem frame_drainBufferedUpdates : Frame standing (drainBufferedUpdates : ConvM P Unit) := by
  refine frame_bind (frame_get _) fun c => ?_
  generalize c.actionableBufferedUpdates = requests
  induction requests with
  | nil => exact frame_pure _ _
  | cons request rest ih =>
    exact frame_bind (frame_attempt (frame_initiateProposal _ _)) fun _ => ih

theorem frame_processBufferedUpdates : Frame standing (processBufferedUpdates : ConvM P Unit) :=
  frame_bind (frame_get _) fun _ => frame_ite frame_drainBufferedUpdates (frame_pure _ _)

theorem frame_handleIncomingUpdateRequest (request : ConversationUpdateRequest) :
    Frame standing (handleIncomingUpdateRequest request : ConvM P Unit) := by
  unfold handleIncomingUpdateRequest
  refine frame_bind (frame_get _) fun c => frame_ite (frame_pure _ _) ?_
  refine frame_bind (frame_modifyQueues fun q => ledger_insertPendingUpdate _ _ _) fun _ => ?_
  exact frame_ite (frame_attempted (frame_initiateProposal _ _)) (frame_pure _ _)

theorem frame_addScored (ids : List Bytes) : Frame standing (addScored ids : ConvM P Unit) := by
  induction ids with
  | nil => exact frame_pure _ _
  | cons id rest ih => exact frame_bind (frame_onScoring _) fun _ => ih

theorem frame_removeScored (ids : List Bytes) :
    Frame standing (removeScored ids : ConvM P Unit) := by
  induction ids with
  | nil => exact frame_pure _ _
  | cons id rest ih => exact frame_bind (frame_onScoring _) fun _ => ih

theorem frame_buildConversationSyncPayload :
    Frame standing (buildConversationSyncPayload : ConvM P _) := by
  unfold buildConversationSyncPayload
  refine frame_bind (frame_onScoring _) fun _ => frame_bind (frame_get _) fun c => ?_
  split
  · exact frame_pure _ _
  · exact frame_bind (frame_onMls (MlsService.frame_buildMessage _)) fun _ => frame_pure _ _

theorem frame_shareConversationSync : Frame standing (shareConversationSync : ConvM P Unit) := by
  unfold shareConversationSync
  refine frame_bind frame_buildConversationSyncPayload fun o => ?_
  cases o with
  | none => exact frame_pure _ _
  | some payload => exact frame_broadcast _

/-! ## Inbound -/

theorem frame_scheduleVote (id : ProposalId) (decoded : Option ConversationUpdateRequest) :
    Frame standing (scheduleVote id decoded : ConvM P Unit) := by
  unfold scheduleVote
  refine frame_bind (frame_get _) fun c => ?_
  split
  · exact frame_bind (frame_ofResult _ _) fun _ => frame_registerAutoVote _ _ _
  · exact frame_bind (frame_emitEvent rfl) fun _ => frame_registerAutoVote _ _ _
  · exact frame_registerAutoVote _ _ _

theorem frame_onIncomingProposal (proposal : Proposal) :
    Frame standing (onIncomingProposal proposal : ConvM P Unit) := by
  unfold onIncomingProposal
  refine frame_bind (frame_get _) fun c => frame_ite (frame_pure _ _) ?_
  refine frame_bind (frame_attempt (frame_onConsensus _)) fun r => ?_
  cases r with
  | error e =>
    simp only
    split_ifs
    · exact frame_bind (frame_emitEvent rfl) fun _ => frame_throw _ _
    · exact frame_throw _ _
  | ok _ =>
    simp only
    refine frame_bind ?_ fun _ => ?_
    · split
      · exact frame_modifyQueues (ledger_mirrorProposal _ _ _ _)
      · exact frame_pure _ _
    · refine frame_ite ?_ (frame_pure _ _)
      exact frame_bind (frame_scheduleVote _ _) fun _ => frame_registerConsensusTimeout _ _

theorem frame_decodeInbound (payload : Bytes) :
    Frame standing (decodeInbound payload : ConvM P _) := by
  unfold decodeInbound
  refine frame_bind (frame_get _) fun c => ?_
  split
  · refine frame_bind (frame_modify fun d => ?_) fun _ => frame_pure _ _
    simp only [standing, membership, reported, ledger_receiveCommitCandidate]
  · refine frame_ite (frame_pure _ _) ?_
    exact frame_bind (frame_modifyQueues fun _ => rfl) fun _ =>
      frame_ite (frame_pure _ _) (frame_pure _ _)
  · unfold decodeEncrypted
    refine frame_bind (frame_onMls (MlsService.frame_decryptApplicationOnly _)) fun o => ?_
    cases o with
    | none => exact frame_pure _ _
    | some d =>
      exact frame_bind (frame_ofResult _ _) fun _ => frame_bind (frame_get _) fun _ => frame_pure _ _

theorem frame_reconcileMembershipAfterCommit :
    Frame standing (reconcileMembershipAfterCommit : ConvM P Unit) := by
  unfold reconcileMembershipAfterCommit
  refine frame_bind (frame_get _) fun c => ?_
  refine frame_bind (frame_modifyQueues fun _ => rfl) fun _ => ?_
  refine frame_bind (frame_removeScored _) fun _ => frame_bind (frame_addScored _) fun _ => ?_
  refine frame_bind (frame_modifyQueues fun _ => rfl) fun _ => ?_
  exact frame_ite (frame_emitEvent rfl) (frame_pure _ _)

theorem frame_maybeCloseRecoveryWindow :
    Frame standing (maybeCloseRecoveryWindow : ConvM P Unit) :=
  frame_bind (frame_get _) fun _ =>
    frame_ite (frame_attempted (frame_initiateStewardElection _)) (frame_pure _ _)

theorem frame_prepareSelfLeave : Frame standing (prepareSelfLeave : ConvM P Unit) :=
  frame_bind (frame_emitEvent rfl) fun _ => frame_bind (frame_modifyTiming _) fun _ =>
    frame_attempted (frame_onMls MlsService.frame_delete)

theorem frame_onCommitCandidateReceived :
    Frame standing (onCommitCandidateReceived : ConvM P Unit) := by
  unfold onCommitCandidateReceived
  refine frame_bind (frame_get _) fun c => frame_ite (frame_pure _ _) ?_
  refine frame_bind frame_startFreezing fun o => ?_
  cases o with
  | none => exact frame_pure _ _
  | some event => exact frame_onFreezeEntered _

theorem frame_onConversationSyncRequest :
    Frame standing (onConversationSyncRequest : ConvM P Unit) := by
  unfold onConversationSyncRequest
  refine frame_bind (frame_get _) fun c => frame_ite ?_ (frame_ite ?_ (frame_pure _ _))
  · exact frame_bind (frame_modifyTiming _) fun _ => frame_shareConversationSync
  · exact frame_modifyTiming _

/-! ## Programs that may install a list -/

theorem frame_installList (stewardList : StewardListService) :
    Frame membership (modify fun c => { c with stewardList := stewardList } : ConvM P PUnit) :=
  frame_modify fun _ => rfl

theorem frame_reconcileStewardList : Frame membership (reconcileStewardList : ConvM P _) := by
  unfold reconcileStewardList
  refine frame_bind (frame_get _) fun c => frame_ite (frame_pure _ _) ?_
  refine frame_ite (frame_pure _ _) (frame_bind (frame_ofResult _ _) fun l => ?_)
  exact frame_bind (frame_installList l) fun _ => frame_pure _ _

theorem frame_stewardListHousekeeping :
    Frame membership (stewardListHousekeeping : ConvM P Unit) := by
  unfold stewardListHousekeeping
  refine frame_bind frame_reconcileStewardList fun r => ?_
  cases r with
  | settled => exact frame_pure _ _
  | needsElection => exact frame_membership (frame_attempted (frame_initiateStewardElection _))

theorem frame_onConversationUpdated : Frame membership (onConversationUpdated : ConvM P Unit) := by
  unfold onConversationUpdated
  refine frame_bind (frame_modify fun _ => rfl) fun _ => ?_
  refine frame_bind (frame_membership frame_startWorking) fun event => ?_
  refine frame_bind (frame_membership (frame_emitEvent rfl)) fun _ => ?_
  refine frame_bind (frame_membership frame_reconcileMembershipAfterCommit) fun _ => ?_
  refine frame_bind frame_stewardListHousekeeping fun _ => ?_
  refine frame_bind (frame_membership frame_processBufferedUpdates) fun _ => ?_
  exact frame_membership frame_maybeCloseRecoveryWindow

/-- What follows an accepted list once it is installed. -/
theorem frame_electionInstalled : Frame standing (do
    exitRecoveryMode
    resumeFromReelection
    let c ← get
    let shared ← (if c.isEpochSteward then attempt shareConversationSync
      else pure (.ok ()) : ConvM P (Except ConversationError Unit))
    processBufferedUpdates
    ofResult shared : ConvM P Unit) := by
  refine frame_bind (frame_modify fun _ => rfl) fun _ => ?_
  have hresume : Frame standing (resumeFromReelection : ConvM P Unit) := by
    refine frame_bind (frame_get _) fun c => frame_ite ?_ (frame_pure _ _)
    refine frame_bind (frame_modifyTiming _) fun _ => frame_bind frame_startWorking fun _ => ?_
    exact frame_emitPhaseChange _
  refine frame_bind hresume fun _ => frame_bind (frame_get _) fun c => ?_
  refine frame_bind (frame_ite (frame_attempt frame_shareConversationSync) (frame_pure _ _))
    fun shared => ?_
  exact frame_bind frame_processBufferedUpdates fun _ => frame_ofResult _ _

theorem frame_handleElectionAccepted (election : StewardElectionProposal) :
    Frame membership (handleElectionAccepted election : ConvM P Unit) := by
  unfold handleElectionAccepted
  refine frame_bind (frame_get _) fun c => frame_bind (frame_ofResult _ _) fun valid => ?_
  split_ifs
  · exact frame_pure _ _
  · refine frame_bind (frame_ofResult _ _) fun l => frame_bind (frame_installList l) fun _ => ?_
    exact frame_membership frame_electionInstalled

theorem frame_applyConversationSyncToEntry (sync : ConversationSync) :
    Frame membership (applyConversationSyncToEntry sync : ConvM P Unit) := by
  unfold applyConversationSyncToEntry
  refine frame_bind (frame_ofResult _ _) fun base => ?_
  refine frame_bind (frame_modify fun _ => rfl) fun _ => frame_bind (frame_get _) fun c => ?_
  refine frame_bind (frame_ofResult _ _) fun l => frame_bind (frame_modify fun _ => rfl) fun _ => ?_
  refine frame_bind (frame_membership (frame_onScoring _)) fun _ => ?_
  refine frame_bind (frame_membership (frame_onScoring _)) fun _ => ?_
  refine frame_bind (frame_membership (frame_applyScoreSnapshot _)) fun _ => ?_
  exact frame_modify fun _ => rfl

theorem frame_onConversationSync (sync : ConversationSync) :
    Frame membership (onConversationSync sync : ConvM P Unit) := by
  unfold onConversationSync
  refine frame_bind (frame_membership (frame_modifyTiming _)) fun _ => ?_
  refine frame_bind (frame_get _) fun c => ?_
  simp only
  split_ifs
  · exact frame_pure _ _
  · refine frame_bind (frame_ofResult _ _) fun valid => ?_
    split_ifs
    · exact frame_pure _ _
    · refine frame_bind (frame_applyConversationSyncToEntry _) fun _ => ?_
      exact frame_membership (frame_emitEvent rfl)

theorem frame_dispatchInboundResult (r : ProcessResult) :
    Frame membership (dispatchInboundResult r : ConvM P _) := by
  cases r with
  | appMessage message sender =>
    exact frame_bind (frame_membership (frame_emitEvent rfl)) fun _ => frame_pure _ _
  | proposal proposal =>
    exact frame_bind (frame_membership (frame_onIncomingProposal _)) fun _ => frame_pure _ _
  | vote vote =>
    exact frame_bind (frame_membership (frame_forwardIncomingVote _)) fun _ => frame_pure _ _
  | leaveConversation =>
    exact frame_bind (frame_membership frame_prepareSelfLeave) fun _ => frame_pure _ _
  | membershipChangeReceived request =>
    exact frame_bind (frame_membership (frame_handleIncomingUpdateRequest _)) fun _ =>
      frame_pure _ _
  | conversationUpdated => exact frame_bind frame_onConversationUpdated fun _ => frame_pure _ _
  | commitCandidateReceived _ =>
    exact frame_bind (frame_membership frame_onCommitCandidateReceived) fun _ => frame_pure _ _
  | conversationSyncReceived sync =>
    exact frame_bind (frame_onConversationSync _) fun _ => frame_pure _ _
  | conversationSyncRequested _ =>
    exact frame_bind (frame_membership frame_onConversationSyncRequest) fun _ => frame_pure _ _
  | welcomeBroadcastReceived welcome =>
    exact frame_bind (frame_membership (frame_emitEvent rfl)) fun _ => frame_pure _ _
  | noop _ => exact frame_pure _ _

theorem frame_deliverWelcome (welcome : MemberWelcome) :
    Frame membership (deliverWelcome welcome : ConvM P Unit) := by
  unfold deliverWelcome
  refine frame_bind (frame_attempt frame_reconcileStewardList) fun reconciled => ?_
  refine frame_bind ?_ fun sync => ?_
  · cases reconciled with
    | ok _ => exact frame_membership (frame_attempt frame_buildConversationSyncPayload)
    | error e => exact frame_pure _ _
  · cases sync with
    | ok bytes =>
      exact frame_membership (frame_bind (frame_emitEvent rfl) fun _ => frame_broadcast _)
    | error e =>
      exact frame_membership (frame_bind (frame_emitEvent rfl) fun _ =>
        frame_bind (frame_emitEvent rfl) fun _ => frame_broadcast _)

/-! ## The round's follow-up -/

theorem frame_retryOrExhaustRecovery : Frame standing (retryOrExhaustRecovery : ConvM P _) := by
  unfold retryOrExhaustRecovery
  refine frame_bind (frame_modify fun _ => rfl) fun _ => frame_bind (frame_get _) fun c => ?_
  refine frame_ite ?_ ?_
  · refine frame_bind (frame_modify fun _ => rfl) fun _ => frame_bind frame_startWorking fun _ => ?_
    exact frame_bind (frame_emitEvent rfl) fun _ => frame_bind (frame_emitEvent rfl) fun _ =>
      frame_pure _ _
  · exact frame_bind frame_reopenRecoveryWindow fun _ =>
      frame_bind (frame_emitPhaseChange _) fun _ => frame_pure _ _

theorem frame_recoverFromFinalizeError :
    Frame standing (recoverFromFinalizeError : ConvM P _) :=
  frame_bind (frame_get _) fun _ => frame_ite frame_retryOrExhaustRecovery
    (frame_bind frame_startWorking fun _ => frame_bind (frame_emitEvent rfl) fun _ =>
      frame_pure _ _)

theorem frame_applyRoundScores (ops : List ScoreOp) :
    Frame standing (applyRoundScores ops : ConvM P Unit) := by
  unfold applyRoundScores
  refine frame_ite (frame_pure _ _) ?_
  refine frame_bind (frame_attempt (frame_applyScoreOps _)) fun r => ?_
  cases r with
  | ok _ => exact frame_pure _ _
  | error e => exact frame_emitEvent rfl

theorem frame_finishApplied (inRecovery : Bool) (r : ProcessResult) (w : Option MemberWelcome) :
    Frame membership (finishApplied inRecovery r w : ConvM P _) := by
  unfold finishApplied
  refine frame_bind (frame_modify fun c => ?_) fun _ => frame_bind ?_ fun _ => ?_
  · split_ifs <;> rfl
  · cases w with
    | some welcome => exact frame_deliverWelcome _
    | none => exact frame_pure _ _
  · refine frame_bind (frame_attempt (frame_dispatchInboundResult _)) fun r => ?_
    cases r <;> exact frame_pure _ _

theorem frame_finishNoCandidate (hasProposals : Bool) :
    Frame standing (finishNoCandidate hasProposals : ConvM P _) := by
  unfold finishNoCandidate
  refine frame_ite ?_ ?_
  · refine frame_bind frame_startReelection fun _ => frame_bind (frame_get _) fun c => ?_
    refine frame_bind ?_ fun _ => frame_bind (frame_emitEvent rfl) fun _ => ?_
    · split
      · exact frame_applyScoreOps _
      · exact frame_pure _ _
    · exact frame_bind (frame_attempt (frame_initiateStewardElection _)) fun _ => frame_pure _ _
  · refine frame_bind (frame_modifyQueues fun _ => rfl) fun _ => ?_
    exact frame_bind frame_startWorking fun _ => frame_bind (frame_emitEvent rfl) fun _ =>
      frame_pure _ _

theorem frame_finishRecoveryRound (hasProposals : Bool) :
    Frame standing (finishRecoveryRound hasProposals : ConvM P _) := by
  unfold finishRecoveryRound
  refine frame_ite ?_ frame_retryOrExhaustRecovery
  refine frame_bind (frame_modifyQueues fun _ => rfl) fun _ => ?_
  refine frame_bind (frame_modify fun _ => rfl) fun _ => frame_bind frame_startWorking fun _ => ?_
  exact frame_bind (frame_emitEvent rfl) fun _ => frame_pure _ _

theorem frame_maybeAutoCommitRecovery :
    Frame standing (maybeAutoCommitRecovery : ConvM P Unit) := by
  unfold maybeAutoCommitRecovery
  refine frame_bind (frame_get _) fun c => ?_
  split
  · exact frame_pure _ _
  · exact frame_ite (frame_pure _ _) (frame_attempted frame_mintAndBroadcastCandidate)

theorem frame_reportProgress : Frame standing (reportProgress : ConvM P _) := by
  unfold reportProgress
  refine frame_bind (frame_get _) fun c => frame_ite ?_ (frame_pure _ _)
  exact frame_bind (frame_modifyTiming _) fun _ => frame_bind (frame_emitEvent rfl) fun _ =>
    frame_pure _ _

end Conversation

end DeMls
