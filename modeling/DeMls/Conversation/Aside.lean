import DeMls.Conversation.Standing

/-!
# What proposing and minting leave aside

Opening a proposal and minting a candidate work on the queues, the group, the timers, the sessions
and the buffers. A projection that reads none of these (`Aside`) is kept by both.
-/

namespace DeMls

open Program

variable {P : Platform} {α ρ : Type}

namespace Conversation

/-- The projection reads nothing that a proposal or a mint writes. -/
structure Aside (p : Conversation P → ρ) : Prop where
  queues : ∀ q c, p { c with queues := q } = p c
  mls : ∀ m c, p { c with mls := m } = p c
  timing : ∀ t c, p { c with timing := t } = p c
  answered : ∀ st outs c, p (c.answered st outs) = p c
  events : ∀ l c, p { c with pendingEvents := l } = p c
  outbound : ∀ l c, p { c with pendingOutbound := l } = p c

theorem aside_state : Aside (Conversation.state : Conversation P → ConversationState) := by
  constructor <;> intros <;> rfl

theorem aside_scoring : Aside (Conversation.scoring : Conversation P → _) := by
  constructor <;> intros <;> rfl

variable {p : Conversation P → ρ}

theorem Aside.onMls (hp : Aside p) (x : EStateM MlsError (MlsService P.mls) α) :
    Frame p (onMls x : ConvM P α) :=
  frame_zoom fun m c => hp.mls m c

theorem Aside.onConsensus (hp : Aside p)
    (f : P.consensus.State → Except ConsensusError α × P.consensus.State × List ConsensusEvent) :
    Frame p (onConsensus f : ConvM P α) :=
  frame_ofPair fun c => hp.answered _ _ c

theorem Aside.emitEvent (hp : Aside p) (event : ConversationEvent) :
    Frame p (emitEvent event : ConvM P Unit) :=
  frame_modify fun c => hp.events _ c

theorem Aside.broadcast (hp : Aside p) (payload : Bytes) :
    Frame p (broadcast payload : ConvM P Unit) :=
  frame_modify fun c => hp.outbound _ c

theorem Aside.sendApp (hp : Aside p) (message : AppMessage) :
    Frame p (sendApp message : ConvM P Unit) :=
  frame_bind (hp.onMls _) fun _ => hp.broadcast _

/-- The gate reads the state only. -/
theorem frame_gate (p : Conversation P → ρ) (kind : ProposalKind) :
    Frame p (checkProposalAllowed kind : ConvM P Nat) := by
  intro c
  unfold checkProposalAllowed
  rw [after_bind_ok _ (get_apply c)]
  cases c.state with
  | working =>
    dsimp only
    split_ifs <;> rfl
  | reelection =>
    dsimp only
    split_ifs <;> rfl
  | freezing => rfl
  | selection => rfl

theorem Aside.initiateProposal (hp : Aside p) (request : ConversationUpdateRequest)
    (v : CreatorVote) : Frame p (initiateProposal request v : ConvM P Unit) := by
  unfold Conversation.initiateProposal
  refine frame_bind (frame_get _) fun c => frame_ite (frame_pure _ _) ?_
  refine frame_bind (frame_gate p _) fun voters => ?_
  have hsubmit : Frame p (submitProposal request voters : ConvM P _) :=
    frame_bind (frame_get _) fun _ => frame_bind (hp.onConsensus _) fun _ => frame_pure _ _
  refine frame_bind hsubmit fun ⟨id, unbundled⟩ => ?_
  refine frame_bind (frame_modify fun c => hp.queues _ c) fun _ => ?_
  refine frame_bind (frame_modify fun c => hp.timing _ c) fun _ => ?_
  cases v with
  | yes =>
    refine frame_bind (hp.onConsensus _) fun _ => ?_
    exact frame_bind (hp.sendApp _) fun _ => hp.emitEvent _
  | deferred =>
    refine frame_bind (hp.sendApp _) fun _ => ?_
    exact frame_bind (hp.emitEvent _) fun _ => frame_modify fun c => hp.timing _ c

theorem Aside.initiateStewardElection (hp : Aside p) (recovery : Bool) :
    Frame p (initiateStewardElection recovery : ConvM P Unit) := by
  unfold Conversation.initiateStewardElection
  refine frame_bind (frame_get _) fun c => frame_ite (frame_pure _ _) ?_
  refine frame_bind (frame_ofResult _ _) fun decision => ?_
  cases decision with
  | skip _ => exact frame_pure _ _
  | proposed _ _ _ => exact hp.initiateProposal _ _

theorem Aside.mintAndBroadcastCandidate (hp : Aside p) :
    Frame p (mintAndBroadcastCandidate : ConvM P Bool) := by
  unfold Conversation.mintAndBroadcastCandidate
  refine frame_bind (frame_get _) fun c => ?_
  have hlocal : Frame p (localCandidate c.selfMemberId : ConvM P _) := by
    unfold localCandidate
    refine frame_bind (frame_get _) fun c => ?_
    split_ifs
    · exact frame_throw _ _
    · exact frame_throw _ _
    · exact frame_pure _ _
    · exact frame_throw _ _
    · refine frame_bind (frame_ofResult _ _) fun ⟨updates, joiners⟩ => ?_
      refine frame_ite (frame_pure _ _) (frame_bind (hp.onMls _) fun _ => ?_)
      exact frame_bind (frame_modify fun c => hp.queues _ c) fun _ => frame_pure _ _
  have hbuild : Frame p (buildLocalCandidate c.selfMemberId : ConvM P _) := by
    refine frame_bind hlocal fun o => ?_
    cases o <;> exact frame_pure _ _
  refine frame_bind hbuild fun o => ?_
  cases o with
  | none => exact frame_pure _ _
  | some payload => exact frame_bind (hp.broadcast _) fun _ => frame_pure _ _

theorem Aside.onFreezeEntered (hp : Aside p) (event : ConversationState) :
    Frame p (onFreezeEntered event : ConvM P Unit) := by
  unfold Conversation.onFreezeEntered
  refine frame_bind (frame_get _) fun c => frame_ite ?_ (hp.emitEvent _)
  refine frame_bind (frame_attempt hp.mintAndBroadcastCandidate) fun r => ?_
  cases r with
  | ok _ => exact hp.emitEvent _
  | error e => exact frame_bind (hp.emitEvent _) fun _ => hp.emitEvent _

theorem Aside.drainBufferedUpdates (hp : Aside p) :
    Frame p (drainBufferedUpdates : ConvM P Unit) := by
  refine frame_bind (frame_get _) fun c => ?_
  generalize c.actionableBufferedUpdates = requests
  induction requests with
  | nil => exact frame_pure _ _
  | cons request rest ih => exact frame_bind (frame_attempt (hp.initiateProposal _ _)) fun _ => ih

theorem Aside.processBufferedUpdates (hp : Aside p) :
    Frame p (processBufferedUpdates : ConvM P Unit) :=
  frame_bind (frame_get _) fun _ => frame_ite hp.drainBufferedUpdates (frame_pure _ _)

/-! ## What a steward's duties leave aside -/

/-- The projection reads nothing that a steward's duties write either: neither the scores, nor the
list, nor the phase. -/
structure Aloof (p : Conversation P → ρ) : Prop extends Aside p where
  scoring : ∀ s c, p { c with scoring := s } = p c
  stewardList : ∀ s c, p { c with stewardList := s } = p c
  state : ∀ st c, p { c with state := st } = p c

namespace Aloof

theorem modifyTiming (hp : Aloof p) (f : Timing → Timing) :
    Frame p (modifyTiming f : ConvM P Unit) :=
  frame_modify fun c => hp.timing _ c

theorem modifyQueues (hp : Aloof p) (f : ConversationQueues → ConversationQueues) :
    Frame p (modifyQueues f : ConvM P Unit) :=
  frame_modify fun c => hp.queues _ c

theorem onScoring (hp : Aloof p) (x : PeerScoringService.ScoringM P.scores α) :
    Frame p (onScoring x : ConvM P α) :=
  frame_zoom fun s c => hp.scoring s c

theorem phase (hp : Aloof p) (state : ConversationState) (anchor : Option Nat)
    (c : Conversation P) :
    p { c with state := state, timing := { c.timing with phaseTimer := anchor } } = p c :=
  (hp.state state { c with timing := { c.timing with phaseTimer := anchor } }).trans (hp.timing _ c)

theorem startWorking (hp : Aloof p) : Frame p (startWorking : ConvM P _) :=
  frame_bind (frame_modify fun c => hp.phase .working none c) fun _ => frame_pure _ _

theorem startReelection (hp : Aloof p) : Frame p (startReelection : ConvM P _) :=
  frame_bind (frame_modify fun c => hp.phase .reelection none c) fun _ => frame_pure _ _

theorem startFreezing (hp : Aloof p) : Frame p (startFreezing : ConvM P _) := by
  unfold Conversation.startFreezing
  refine frame_bind (frame_get _) fun c => frame_ite ?_ (frame_pure _ _)
  exact frame_bind (frame_modify fun c => hp.phase .freezing (some c.now) c) fun _ =>
    frame_pure _ _

theorem reopenRecoveryWindow (hp : Aloof p) : Frame p (reopenRecoveryWindow : ConvM P _) := by
  unfold Conversation.reopenRecoveryWindow
  refine frame_bind (frame_get _) fun c => frame_ite ?_ (frame_pure _ _)
  exact frame_bind (frame_modify fun c => hp.phase .freezing (some c.now) c) fun _ =>
    frame_pure _ _

theorem emitPhaseChange (hp : Aloof p) (transition : Option ConversationState) :
    Frame p (emitPhaseChange transition : ConvM P Unit) := by
  cases transition with
  | none => exact frame_pure _ _
  | some state => exact hp.emitEvent _

theorem emitScoreChanges (hp : Aloof p) (changes : List ScoreChange) :
    Frame p (emitScoreChanges changes : ConvM P Unit) := by
  induction changes with
  | nil => exact frame_pure _ _
  | cons change rest ih => exact frame_bind (hp.emitEvent _) fun _ => ih

theorem applyScoreOps (hp : Aloof p) (ops : List ScoreOp) :
    Frame p (applyScoreOps ops : ConvM P Unit) :=
  frame_bind (hp.onScoring _) fun _ => hp.emitScoreChanges _

theorem applyRoundScores (hp : Aloof p) (ops : List ScoreOp) :
    Frame p (applyRoundScores ops : ConvM P Unit) := by
  unfold Conversation.applyRoundScores
  refine frame_ite (frame_pure _ _) (frame_bind (frame_attempt (hp.applyScoreOps _)) fun r => ?_)
  cases r with
  | ok _ => exact frame_pure _ _
  | error e => exact hp.emitEvent _

theorem reconcileStewardList (hp : Aloof p) : Frame p (reconcileStewardList : ConvM P _) := by
  unfold Conversation.reconcileStewardList
  refine frame_bind (frame_get _) fun c => frame_ite (frame_pure _ _) ?_
  refine frame_ite (frame_pure _ _) (frame_bind (frame_ofResult _ _) fun l => ?_)
  exact frame_bind (frame_modify fun c => hp.stewardList l c) fun _ => frame_pure _ _

theorem stewardListHousekeeping (hp : Aloof p) :
    Frame p (stewardListHousekeeping : ConvM P Unit) := by
  unfold Conversation.stewardListHousekeeping
  refine frame_bind hp.reconcileStewardList fun r => ?_
  cases r with
  | settled => exact frame_pure _ _
  | needsElection => exact frame_attempted (hp.initiateStewardElection _)

theorem buildConversationSyncPayload (hp : Aloof p) :
    Frame p (buildConversationSyncPayload : ConvM P _) := by
  unfold Conversation.buildConversationSyncPayload
  refine frame_bind (hp.onScoring _) fun _ => frame_bind (frame_get _) fun c => ?_
  split
  · exact frame_pure _ _
  · exact frame_bind (hp.onMls _) fun _ => frame_pure _ _

theorem shareConversationSync (hp : Aloof p) :
    Frame p (shareConversationSync : ConvM P Unit) := by
  unfold Conversation.shareConversationSync
  refine frame_bind hp.buildConversationSyncPayload fun o => ?_
  cases o with
  | none => exact frame_pure _ _
  | some payload => exact hp.broadcast _

theorem deliverWelcome (hp : Aloof p) (welcome : MemberWelcome) :
    Frame p (deliverWelcome welcome : ConvM P Unit) := by
  unfold Conversation.deliverWelcome
  refine frame_bind (frame_attempt hp.reconcileStewardList) fun reconciled => ?_
  refine frame_bind ?_ fun sync => ?_
  · cases reconciled with
    | ok _ => exact frame_attempt hp.buildConversationSyncPayload
    | error e => exact frame_pure _ _
  · cases sync with
    | ok bytes => exact frame_bind (hp.emitEvent _) fun _ => hp.broadcast _
    | error e =>
      exact frame_bind (hp.emitEvent _) fun _ => frame_bind (hp.emitEvent _) fun _ => hp.broadcast _

theorem scoredAll (hp : Aloof p) (ids : List Bytes) : Frame p (addScored ids : ConvM P Unit) ∧
    Frame p (removeScored ids : ConvM P Unit) := by
  induction ids with
  | nil => exact ⟨frame_pure _ _, frame_pure _ _⟩
  | cons id rest ih =>
    exact ⟨frame_bind (hp.onScoring _) fun _ => ih.1, frame_bind (hp.onScoring _) fun _ => ih.2⟩

theorem reconcileMembershipAfterCommit (hp : Aloof p) :
    Frame p (reconcileMembershipAfterCommit : ConvM P Unit) := by
  unfold Conversation.reconcileMembershipAfterCommit
  refine frame_bind (frame_get _) fun c => frame_bind (hp.modifyQueues _) fun _ => ?_
  refine frame_bind (hp.scoredAll _).2 fun _ => frame_bind (hp.scoredAll _).1 fun _ => ?_
  exact frame_bind (hp.modifyQueues _) fun _ => frame_ite (hp.emitEvent _) (frame_pure _ _)

end Aloof

end Conversation

end DeMls
