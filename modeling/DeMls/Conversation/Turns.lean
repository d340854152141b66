import DeMls.Conversation.Run
import DeMls.Lib.Paths

/-!
# Turns

`Step` leaves the installed list alone outside elections and commits; a sync may replace it. A turn
is a step, or any handler that keeps the approved work and the group. Every packet, every poll and
every call of the integrator is a path of turns (`processInbound_turns`, `poll_turns`).
-/

namespace DeMls

open Program

variable {P : Platform} {α : Type}

namespace Conversation

/-- The approved work and the group. -/
def estate (c : Conversation P) : (OrderedMap ProposalId ConversationUpdateRequest × Option Bytes ×
    OrderedMap Bytes Nat) × MlsGroup Unit :=
  (c.queues.ledger, c.mls.publicPart)

/-- A step, or a handler that keeps the approved work and the group. -/
inductive Turn : Conversation P → Event P → Conversation P → Prop
  | step {c d : Conversation P} {e : Event P} (h : Step c e d) : Turn c e d
  | kept {c d : Conversation P} (h : d.estate = c.estate) : Turn c .environment d

/-- **A turn** keeps the approved work and the group, applies one outcome, or merges one commit. -/
theorem Turn.effect {c d : Conversation P} {e : Event P} (h : Turn c e d) : Effect c d e := by
  cases h with
  | step h => exact h.effect
  | kept h => exact .kept (quiet_of_not_outcome rfl) (congrArg Prod.fst h) (congrArg Prod.snd h)

/-- Some turn leads from `c` to `d`. -/
def TakesTurn (c d : Conversation P) : Prop := ∃ e, Turn c e d

theorem turns_of_estate {x : ConvM P α} (h : Frame estate x) : Along TakesTurn x :=
  along_frame (fun _ _ heq => ⟨_, .kept heq⟩) h

theorem turns_of_frame {x : ConvM P α} (h : Frame membership x) : Along TakesTurn x :=
  turns_of_estate fun c => congrArg (fun m : Membership => (m.ledger, m.group)) (h c)

theorem turns_of_standing {x : ConvM P α} (h : Frame standing x) : Along TakesTurn x :=
  turns_of_frame (frame_membership h)

/-! ## What polls and calls are made of -/

/-- The programs below the drivers and the integrator's calls take steps of `r`. -/
structure Parts (r : Conversation P → Conversation P → Prop) : Prop where
  timing : ∀ {f : Timing → Timing}, (∀ t, (f t).pendingAutoVotes = t.pendingAutoVotes ∧
    (f t).pendingConsensusTimeouts = t.pendingConsensusTimeouts) →
      Along r (modifyTiming f : ConvM P Unit)
  send : ∀ message, Along r (sendApp message : ConvM P Unit)
  share : Along r (shareConversationSync : ConvM P Unit)
  propose : ∀ request v, Along r (initiateProposal request v : ConvM P Unit)
  buffer : ∀ request epoch, Along r (modifyQueues fun q =>
    q.insertPendingUpdate P.mls request epoch : ConvM P Unit)
  drain : Along r (drainBufferedUpdates : ConvM P Unit)
  inactivity : ∀ approved window, Along r (checkStewardInactivity approved window : ConvM P _)
  freeze : ∀ event, Along r (onFreezeEntered event : ConvM P Unit)
  retry : Along r (advanceElectionRetry : ConvM P Unit)

variable {r : Conversation P → Conversation P → Prop}

/-- The drivers beside the round arm and disarm their anchors, and run one of the parts. -/
theorem Parts.drivers (hr : Parts r) : Along r (driveBufferedProposals : ConvM P Unit) ∧
    Along r (driveSyncResend : ConvM P Unit) ∧ Along r (driveSyncRequest : ConvM P Unit) ∧
    Along r (startFreezeOnInactivity : ConvM P Unit) ∧
    Along r (driveReelectionRetry : ConvM P Unit) := by
  refine ⟨?_, ?_, ?_, ?_, ?_⟩
  · have hdisarm : Along r (modifyTiming fun t => { t with bufferedProposeAnchor := none } :
        ConvM P Unit) := hr.timing fun _ => ⟨rfl, rfl⟩
    unfold driveBufferedProposals
    refine along_bind along_get fun c => along_ite hdisarm ?_
    refine along_ite (along_bind hdisarm fun _ => hr.drain) (along_ite (along_pure _) ?_)
    split
    · exact hr.timing fun _ => ⟨rfl, rfl⟩
    · exact along_ite (along_pure _) (along_bind hdisarm fun _ => hr.drain)
  · have hdisarm : Along r (modifyTiming fun t => { t with syncResendAnchor := none } :
        ConvM P Unit) := hr.timing fun _ => ⟨rfl, rfl⟩
    unfold driveSyncResend
    refine along_bind along_get fun c => ?_
    split
    · exact along_pure _
    · exact along_ite hdisarm (along_ite (along_pure _) (along_bind hdisarm fun _ => hr.share))
  · unfold driveSyncRequest
    refine along_bind along_get fun c => along_ite (hr.timing fun _ => ⟨rfl, rfl⟩) ?_
    refine along_ite (along_pure _) (along_bind (hr.timing fun _ => ⟨rfl, rfl⟩) fun _ => ?_)
    exact hr.send _
  · unfold startFreezeOnInactivity
    refine along_bind along_get fun c => along_ite (along_pure _) ?_
    refine along_bind (hr.inactivity _ _) fun o => ?_
    cases o with
    | none => exact along_pure _
    | some event => exact hr.freeze _
  · have hdisarm : Along r (modifyTiming fun t => { t with reelectionSilenceAnchor := none } :
        ConvM P Unit) := hr.timing fun _ => ⟨rfl, rfl⟩
    unfold driveReelectionRetry
    refine along_bind along_get fun c => along_ite hdisarm ?_
    split
    · exact hr.timing fun _ => ⟨rfl, rfl⟩
    · exact along_ite (along_pure _) (along_bind hdisarm fun _ => hr.retry)

/-- A poll is a tick, the round and the other drivers. -/
theorem Parts.poll (hr : Parts r) {fuel : Nat} (htick : Along r (tickDeadlines fuel : ConvM P Unit))
    (hround : Along r (advanceFreezing : ConvM P DispatchOutcome)) :
    Along r (poll fuel : ConvM P PollOutcome) := by
  obtain ⟨hbuffered, hresend, hrequest, hinactivity, hretry⟩ := hr.drivers
  unfold Conversation.poll
  refine along_bind htick fun _ => along_bind (along_attempt hround) fun _ => ?_
  refine along_bind (along_attempt hbuffered) fun _ => along_bind (along_attempt hresend) fun _ => ?_
  refine along_bind (along_attempt hrequest) fun _ => ?_
  refine along_bind (along_attempt hinactivity) fun _ => ?_
  exact along_bind (along_attempt hretry) fun _ => along_bind along_get fun _ => along_pure _

theorem Parts.proposeAdd (hr : Parts r) (keyPackageBytes : Bytes) (v : CreatorVote) :
    Along r (proposeAdd keyPackageBytes v : ConvM P Unit) := by
  unfold Conversation.proposeAdd
  refine along_bind (along_ofResult _) fun _ => along_bind along_get fun c => ?_
  exact along_ite (along_throw _) (hr.propose _ _)

theorem Parts.addMember (hr : Parts r) (keyPackageBytes : Bytes) :
    Along r (addMember keyPackageBytes : ConvM P Unit) :=
  along_bind along_get fun _ => along_ite (along_throw _) (hr.proposeAdd _ _)

theorem Parts.sponsorMember (hr : Parts r) (keyPackageBytes : Bytes) :
    Along r (sponsorMember keyPackageBytes : ConvM P Unit) := by
  unfold Conversation.sponsorMember
  refine along_bind along_get fun c => along_ite (along_pure _) ?_
  refine along_ite (hr.proposeAdd _ _) (along_bind (along_ofResult _) fun _ => ?_)
  exact along_ite (along_pure _) (hr.buffer _ _)

theorem Parts.removeMember (hr : Parts r) (member : MemberId) :
    Along r (removeMember member : ConvM P Unit) := by
  unfold Conversation.removeMember
  refine along_bind along_get fun c => along_ite (along_throw _) ?_
  split
  · exact along_throw _
  · exact hr.propose _ _

theorem parts_turns : Parts (P := P) TakesTurn where
  timing _ := turns_of_standing (frame_modifyTiming _)
  send _ := turns_of_standing (frame_sendApp _)
  share := turns_of_standing frame_shareConversationSync
  propose _ _ := turns_of_standing (frame_initiateProposal _ _)
  buffer _ _ := turns_of_standing (frame_modifyQueues fun _ =>
    ConversationQueues.ledger_insertPendingUpdate _ _ _)
  drain := turns_of_standing frame_drainBufferedUpdates
  inactivity _ _ := turns_of_standing (frame_checkStewardInactivity _ _)
  freeze _ := turns_of_standing (frame_onFreezeEntered _)
  retry := turns_of_standing frame_advanceElectionRetry

/-! ## A packet -/

/-- **Packets.** -/
theorem processInbound_turns (sender payload : Bytes) :
    Along TakesTurn (processInbound sender payload : ConvM P DispatchOutcome) := by
  unfold processInbound
  refine along_bind along_get fun c => along_ite (along_pure _) ?_
  exact along_bind (turns_of_standing (frame_decodeInbound _)) fun _ =>
    turns_of_frame (frame_dispatchInboundResult _)

/-! ## A poll -/

theorem drainOutcomes_turns (fuel : Nat) : Along TakesTurn (drainOutcomes fuel : ConvM P Unit) := by
  induction fuel with
  | zero => exact along_pure _
  | succ fuel ih =>
    unfold drainOutcomes
    refine along_bind along_get fun c => ?_
    cases c.outcomes with
    | nil => exact along_pure _
    | cons event rest =>
      refine along_bind (turns_of_standing (frame_modify fun _ => rfl)) fun _ => ?_
      refine along_bind (along_attempt ?_) fun _ => ih
      exact along_step fun c => ⟨_, .step (.outcome c event)⟩

theorem tickDeadlines_turns (fuel : Nat) :
    Along TakesTurn (tickDeadlines fuel : ConvM P Unit) := by
  unfold tickDeadlines
  refine along_bind along_get fun c => ?_
  refine along_bind (turns_of_standing (frame_modifyTiming _)) fun _ => ?_
  refine along_bind ?_ fun _ => along_bind ?_ fun _ => drainOutcomes_turns fuel
  · generalize c.timing.pendingAutoVotes.entries.filter _ = due
    induction due with
    | nil => exact along_pure _
    | cons e rest ih =>
      exact along_bind (along_attempt (turns_of_standing (frame_broadcastVote _ _))) fun _ => ih
  · generalize c.timing.pendingConsensusTimeouts.entries.filter _ = due
    induction due with
    | nil => exact along_pure _
    | cons e rest ih =>
      exact along_bind (turns_of_standing (frame_resolveOnTimeout _)) fun _ => ih

theorem finishRound_turns (inRecovery hasProposals : Bool) (r : CommitRoundResult P.mls) :
    Along TakesTurn (finishRound inRecovery hasProposals r : ConvM P _) := by
  unfold finishRound
  refine along_bind (turns_of_standing (frame_applyRoundScores _)) fun _ => ?_
  refine along_bind (along_ite (along_pure _) (turns_of_estate (frame_modify fun _ => rfl)))
    fun _ => ?_
  split
  · exact turns_of_frame (frame_finishApplied _ _ _)
  · exact along_ite (turns_of_standing (frame_finishRecoveryRound _))
      (turns_of_standing (frame_finishNoCandidate _))

theorem selectAndFinalize_turns (inRecovery : Bool) :
    Along TakesTurn (selectAndFinalize inRecovery : ConvM P _) := by
  intro c
  have hselecting : TakesTurn c c.selecting := ⟨_, .kept rfl⟩
  refine .head hselecting ?_
  rw [selectAndFinalize_after]
  cases hround : DeMls.finalizeCommitRound c.stewardList c.isInRecoveryMode
      (inRecovery || c.stewardList.config.allowSubsetCandidates) c.selfMemberId c.roundState with
  | ok r t =>
    have hfin : finalizeCommitRound _ c.selecting.selfMemberId c.selecting = _ :=
      finalizeCommitRound_of_ok (c := c.selecting) hround
    exact .head ⟨_, .step (.round hfin)⟩ (finishRound_turns _ _ r _)
  | error e t =>
    have hfin : finalizeCommitRound _ c.selecting.selfMemberId c.selecting = _ :=
      finalizeCommitRound_of_error (c := c.selecting) hround
    refine .head ⟨_, .step (.roundFailed hfin)⟩ ?_
    exact turns_of_standing (frame_bind (frame_emitEvent rfl) fun _ =>
      frame_recoverFromFinalizeError) _

theorem advanceFreezing_turns : Along TakesTurn (advanceFreezing : ConvM P _) := by
  unfold advanceFreezing
  refine along_bind along_get fun c => along_ite ?_ ?_
  · exact along_bind (turns_of_standing (frame_modifyTiming _)) fun _ => along_pure _
  · refine along_bind (along_ite (turns_of_standing frame_maybeAutoCommitRecovery) (along_pure _))
      fun _ => along_bind along_get fun c' => ?_
    exact along_ite (selectAndFinalize_turns _) (turns_of_standing frame_reportProgress)

/-- **Polls.** -/
theorem poll_turns (fuel : Nat) : Along TakesTurn (poll fuel : ConvM P PollOutcome) :=
  parts_turns.poll (tickDeadlines_turns fuel) advanceFreezing_turns

/-! ## The integrator's calls -/

/-- **Membership requests.** -/
theorem membership_calls_turns (keyPackageBytes : Bytes) (member : MemberId) :
    Along TakesTurn (addMember keyPackageBytes : ConvM P Unit) ∧
    Along TakesTurn (sponsorMember keyPackageBytes : ConvM P Unit) ∧
    Along TakesTurn (removeMember member : ConvM P Unit) ∧
    Along TakesTurn (leave : ConvM P Unit) :=
  ⟨parts_turns.addMember _, parts_turns.sponsorMember _, parts_turns.removeMember _,
    turns_of_standing frame_initiateSelfLeave⟩

/-- **Messages, votes and commits.** -/
theorem calls_turns (message target : Bytes) (id : ProposalId) (choice : Bool) :
    Along TakesTurn (sendMessage message : ConvM P Unit) ∧
    Along TakesTurn (vote id choice : ConvM P Unit) ∧
    Along TakesTurn (requestRecovery : ConvM P Unit) ∧
    Along TakesTurn (proposeScoreRemoval target : ConvM P Unit) ∧
    Along TakesTurn (commitInRecovery : ConvM P Bool) ∧
    Along TakesTurn (resendCommit : ConvM P Bool) := by
  refine ⟨?_, turns_of_standing (frame_vote _ _), turns_of_standing frame_requestRecovery,
    turns_of_standing (frame_proposeScoreRemoval _), ?_, ?_⟩
  · exact along_bind along_get fun _ =>
      along_ite (along_throw _) (turns_of_standing (frame_sendApp _))
  · exact along_bind along_get fun _ =>
      along_ite (along_throw _) (turns_of_standing frame_mintAndBroadcastCandidate)
  · unfold resendCommit
    refine along_bind along_get fun c => ?_
    split
    · exact along_bind (turns_of_standing (frame_broadcast _)) fun _ => along_pure _
    · exact along_pure _

end Conversation

end DeMls
