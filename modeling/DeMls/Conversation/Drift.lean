import DeMls.CommitRound.Leaving
import DeMls.Conversation.InFlight

/-!
# Drift

What the drivers, the follow-ups and a steward's duties do to the proposals in flight. Each of
these programs is a path of `Drift` steps, over the phases it may enter.
-/

namespace DeMls

open Program

variable {P : Platform} {α : Type}

/-- What a round reports: nothing was applied, or a commit was, with the member's own verdict. -/
theorem finalizeCommitRound_outcome {stewardList : StewardListService}
    {inRecovery allowSubset : Bool} {self : Bytes} {s t : RoundState P} {r : CommitRoundResult P.mls}
    (h : finalizeCommitRound stewardList inRecovery allowSubset self s = .ok r t) :
    r.outcome = .noCandidate ∨
      ∃ verdict welcome, r.outcome = .applied (leaveOrUpdate verdict) welcome := by
  rw [finalizeCommitRound_eq] at h
  rcases applyInPriorityOrder_ok h with ⟨ops, u, _, hdone⟩ |
    ⟨pre, c, post, ops, u, outcome, committer, batch, merged, _, hrun, hc, rfl⟩
  · obtain ⟨_, _, _, rfl⟩ := discardAndFinish_steps hdone
    exact .inl rfl
  · exact .inr (applyCandidate_verdict hc)

namespace Conversation

/-- The steps of a driver, over the phases it may enter. -/
inductive Drift (phases : ConversationState → Prop) : Conversation P → Conversation P → Prop
  | still {c d : Conversation P} (h : d.flight = c.flight) : Drift phases c d
  | enter {c d : Conversation P} (h : d.inFlight = c.inFlight) (hphase : phases d.state) :
      Drift phases c d
  | propose (c : Conversation P) (request : ConversationUpdateRequest) (v : CreatorVote) :
      Drift phases c (after (initiateProposal request v) c)
  | unschedule (c : Conversation P) : Drift phases c (after cancelAllAutoVotes c)

variable {phases : ConversationState → Prop}

theorem drift_flight {x : ConvM P α} (h : Frame flight x) : Along (Drift phases) x :=
  along_frame (fun _ _ => .still) h

theorem drift_modifyTiming {f : Timing → Timing}
    (h : ∀ t, (f t).pendingAutoVotes = t.pendingAutoVotes ∧
      (f t).pendingConsensusTimeouts = t.pendingConsensusTimeouts) :
    Along (Drift phases) (modifyTiming f : ConvM P Unit) :=
  drift_flight (frame_modify fun c => by
    obtain ⟨hvotes, htimeouts⟩ := h c.timing
    unfold flight inFlight
    simp only [hvotes, htimeouts])

/-! ## Phases -/

theorem drift_startWorking (h : phases .working) :
    Along (Drift phases) (startWorking : ConvM P _) :=
  along_step fun _ => .enter rfl h

theorem drift_startReelection (h : phases .reelection) :
    Along (Drift phases) (startReelection : ConvM P _) :=
  along_step fun _ => .enter rfl h

theorem drift_startFreezing (h : phases .freezing) :
    Along (Drift phases) (startFreezing : ConvM P _) := by
  unfold startFreezing
  refine along_bind along_get fun c => along_ite ?_ (along_pure _)
  exact along_bind (along_step fun _ => .enter rfl h) fun _ => along_pure _

theorem drift_reopenRecoveryWindow (h : phases .freezing) :
    Along (Drift phases) (reopenRecoveryWindow : ConvM P _) := by
  unfold reopenRecoveryWindow
  refine along_bind along_get fun c => along_ite ?_ (along_pure _)
  exact along_bind (along_step fun _ => .enter rfl h) fun _ => along_pure _

/-! ## A steward's duties -/

theorem drift_initiateProposal (request : ConversationUpdateRequest) (v : CreatorVote) :
    Along (Drift phases) (initiateProposal request v : ConvM P Unit) :=
  along_step fun c => .propose c request v

/-- An election opens a vote at most. -/
theorem along_election {r : Conversation P → Conversation P → Prop}
    (hproposal : ∀ election v, Along r (initiateProposal (.stewardElection election) v : ConvM P Unit))
    (recovery : Bool) : Along r (initiateStewardElection recovery : ConvM P Unit) := by
  unfold initiateStewardElection
  refine along_bind along_get fun c => along_ite (along_pure _) ?_
  refine along_bind (along_ofResult _) fun decision => ?_
  cases decision with
  | skip _ => exact along_pure _
  | proposed _ _ _ => exact hproposal _ _

theorem drift_initiateStewardElection (recovery : Bool) :
    Along (Drift phases) (initiateStewardElection recovery : ConvM P Unit) :=
  along_election (fun _ => drift_initiateProposal _) recovery

theorem drift_requestRecovery : Along (Drift phases) (requestRecovery : ConvM P Unit) := by
  unfold requestRecovery
  refine along_bind along_get fun c => along_ite (along_pure _) ?_
  exact along_bind (along_ofResult _) fun _ => drift_initiateProposal _ _

theorem drift_proposeScoreRemoval (target : Bytes) :
    Along (Drift phases) (proposeScoreRemoval target : ConvM P Unit) := by
  unfold proposeScoreRemoval
  refine along_bind along_get fun c => along_bind (drift_flight (flight_onScoring _)) fun o => ?_
  cases o with
  | none => exact along_throw _
  | some score => exact along_bind (along_ofResult _) fun _ => drift_initiateProposal _ _

theorem drift_advanceElectionRetry :
    Along (Drift phases) (advanceElectionRetry : ConvM P Unit) := by
  unfold advanceElectionRetry
  refine along_bind (along_step fun _ => .still rfl) fun _ => along_bind along_get fun c => ?_
  refine along_ite (along_ite ?_ (along_pure _))
    (along_attempted (drift_initiateStewardElection _))
  refine along_bind (along_attempt drift_requestRecovery) fun r => ?_
  cases r with
  | ok _ => exact along_pure _
  | error e => exact drift_flight (flight_emitEvent _)

theorem drift_proposeAll (requests : List ConversationUpdateRequest) :
    Along (Drift phases) (proposeAll requests : ConvM P Unit) := by
  induction requests with
  | nil => exact along_pure _
  | cons request rest ih =>
    exact along_bind (along_attempt (drift_initiateProposal _ _)) fun _ => ih

theorem drift_drainBufferedUpdates :
    Along (Drift phases) (drainBufferedUpdates : ConvM P Unit) :=
  along_bind along_get fun _ => drift_proposeAll _

theorem drift_processBufferedUpdates :
    Along (Drift phases) (processBufferedUpdates : ConvM P Unit) :=
  along_bind along_get fun _ => along_ite drift_drainBufferedUpdates (along_pure _)

theorem drift_handleIncomingUpdateRequest (request : ConversationUpdateRequest) :
    Along (Drift phases) (handleIncomingUpdateRequest request : ConvM P Unit) := by
  unfold handleIncomingUpdateRequest
  refine along_bind along_get fun c => along_ite (along_pure _) ?_
  refine along_bind (drift_flight (flight_modifyQueues fun q => ?_)) fun _ => ?_
  · exact ConversationQueues.tracked_insertPendingUpdate _ _ _ _
  · exact along_ite (along_attempted (drift_initiateProposal _ _)) (along_pure _)

theorem drift_maybeCloseRecoveryWindow :
    Along (Drift phases) (maybeCloseRecoveryWindow : ConvM P Unit) :=
  along_bind along_get fun _ =>
    along_ite (along_attempted (drift_initiateStewardElection _)) (along_pure _)

theorem drift_stewardListHousekeeping :
    Along (Drift phases) (stewardListHousekeeping : ConvM P Unit) := by
  unfold stewardListHousekeeping
  refine along_bind (drift_flight flight_reconcileStewardList) fun r => ?_
  cases r with
  | settled => exact along_pure _
  | needsElection => exact along_attempted (drift_initiateStewardElection _)

/-! ## After a commit -/

theorem drift_onConversationUpdated (h : phases .working) :
    Along (Drift phases) (onConversationUpdated : ConvM P Unit) := by
  unfold onConversationUpdated
  refine along_bind (along_step fun _ => .still rfl) fun _ => ?_
  refine along_bind (drift_startWorking h) fun event => ?_
  refine along_bind (drift_flight (flight_emitEvent _)) fun _ => ?_
  refine along_bind (drift_flight flight_reconcileMembershipAfterCommit) fun _ => ?_
  refine along_bind drift_stewardListHousekeeping fun _ => ?_
  exact along_bind drift_processBufferedUpdates fun _ => drift_maybeCloseRecoveryWindow

theorem drift_prepareSelfLeave : Along (Drift phases) (prepareSelfLeave : ConvM P Unit) :=
  along_bind (drift_flight (flight_emitEvent _)) fun _ =>
    along_bind (along_step .unschedule) fun _ =>
      along_attempted (drift_flight (flight_onMls _))

theorem drift_onCommitCandidateReceived (h : phases .freezing) :
    Along (Drift phases) (onCommitCandidateReceived : ConvM P Unit) := by
  unfold onCommitCandidateReceived
  refine along_bind along_get fun c => along_ite (along_pure _) ?_
  refine along_bind (drift_startFreezing h) fun o => ?_
  cases o with
  | none => exact along_pure _
  | some event => exact drift_flight (flight_onFreezeEntered _)

/-- The verdicts a round hands to the dispatch. -/
theorem drift_dispatchVerdict (h : phases .working) (verdict : Bool) :
    Along (Drift phases) (dispatchInboundResult (leaveOrUpdate verdict) : ConvM P _) := by
  cases verdict with
  | true => exact along_bind drift_prepareSelfLeave fun _ => along_pure _
  | false => exact along_bind (drift_onConversationUpdated h) fun _ => along_pure _

theorem drift_finishApplied (h : phases .working) (inRecovery verdict : Bool)
    (w : Option MemberWelcome) :
    Along (Drift phases) (finishApplied inRecovery (leaveOrUpdate verdict) w : ConvM P _) := by
  unfold finishApplied
  refine along_bind (drift_flight (frame_modify fun c => ?_)) fun _ => along_bind ?_ fun _ => ?_
  · split_ifs <;> rfl
  · cases w with
    | some welcome => exact drift_flight (flight_deliverWelcome _)
    | none => exact along_pure _
  · refine along_bind (along_attempt (drift_dispatchVerdict h verdict)) fun r => ?_
    cases r <;> exact along_pure _

theorem drift_finishNoCandidate (hwork : phases .working) (hretry : phases .reelection)
    (hasProposals : Bool) :
    Along (Drift phases) (finishNoCandidate hasProposals : ConvM P _) := by
  unfold finishNoCandidate
  refine along_ite ?_ ?_
  · refine along_bind (drift_startReelection hretry) fun _ => along_bind along_get fun c => ?_
    refine along_bind ?_ fun _ => along_bind (drift_flight (flight_emitEvent _)) fun _ => ?_
    · split
      · exact drift_flight (flight_applyScoreOps _)
      · exact along_pure _
    · exact along_bind (along_attempt (drift_initiateStewardElection _)) fun _ => along_pure _
  · refine along_bind (drift_flight (flight_modifyQueues fun _ => rfl)) fun _ => ?_
    exact along_bind (drift_startWorking hwork) fun _ =>
      along_bind (drift_flight (flight_emitEvent _)) fun _ => along_pure _

theorem drift_retryOrExhaustRecovery (hwork : phases .working) (hfreeze : phases .freezing) :
    Along (Drift phases) (retryOrExhaustRecovery : ConvM P _) := by
  unfold retryOrExhaustRecovery
  refine along_bind (along_step fun _ => .still rfl) fun _ => along_bind along_get fun c => ?_
  refine along_ite ?_ ?_
  · refine along_bind (along_step fun _ => .still rfl) fun _ => ?_
    refine along_bind (drift_startWorking hwork) fun _ => ?_
    exact along_bind (drift_flight (flight_emitEvent _)) fun _ =>
      along_bind (drift_flight (flight_emitEvent _)) fun _ => along_pure _
  · exact along_bind (drift_reopenRecoveryWindow hfreeze) fun _ =>
      along_bind (drift_flight (flight_emitPhaseChange _)) fun _ => along_pure _

theorem drift_finishRecoveryRound (hwork : phases .working) (hfreeze : phases .freezing)
    (hasProposals : Bool) :
    Along (Drift phases) (finishRecoveryRound hasProposals : ConvM P _) := by
  unfold finishRecoveryRound
  refine along_ite ?_ (drift_retryOrExhaustRecovery hwork hfreeze)
  refine along_bind (drift_flight (flight_modifyQueues fun _ => rfl)) fun _ => ?_
  refine along_bind (along_step fun _ => .still rfl) fun _ => ?_
  exact along_bind (drift_startWorking hwork) fun _ =>
    along_bind (drift_flight (flight_emitEvent _)) fun _ => along_pure _

theorem drift_recoverFromFinalizeError (hwork : phases .working) (hfreeze : phases .freezing) :
    Along (Drift phases) (recoverFromFinalizeError : ConvM P _) :=
  along_bind along_get fun _ =>
    along_ite (drift_retryOrExhaustRecovery hwork hfreeze)
      (along_bind (drift_startWorking hwork) fun _ =>
        along_bind (drift_flight (flight_emitEvent _)) fun _ => along_pure _)

/-- What a finalized round reports can be followed up; in recovery the window may reopen. -/
theorem drift_finishRound (hwork : phases .working) (hretry : phases .reelection)
    {inRecovery : Bool} (hfreeze : inRecovery = true → phases .freezing) (hasProposals : Bool)
    {r : CommitRoundResult P.mls}
    (hr : r.outcome = .noCandidate ∨
      ∃ verdict welcome, r.outcome = .applied (leaveOrUpdate verdict) welcome) :
    Along (Drift phases) (finishRound inRecovery hasProposals r : ConvM P _) := by
  unfold finishRound
  refine along_bind (drift_flight (flight_applyRoundScores _)) fun _ => along_bind ?_ fun _ => ?_
  · exact along_ite (along_pure _) (drift_flight (flight_emitEvent _))
  · rcases hr with hr | ⟨verdict, welcome, hr⟩
    · rw [hr]
      cases inRecovery with
      | true => exact drift_finishRecoveryRound hwork (hfreeze rfl) _
      | false => exact drift_finishNoCandidate hwork hretry _
    · rw [hr]
      exact drift_finishApplied hwork _ _ _

/-! ## What an outcome calls for -/

theorem drift_refreshStewardsAfterRemoval (target : Bytes) :
    Along (Drift phases) (refreshStewardsAfterRemoval target : ConvM P Unit) :=
  along_bind along_get fun _ =>
    along_ite (along_pure _) (along_attempted (drift_initiateStewardElection _))

theorem drift_handleElectionAccepted (h : phases .working) (election : StewardElectionProposal) :
    Along (Drift phases) (handleElectionAccepted election : ConvM P Unit) := by
  have hresume : Along (Drift phases) (resumeFromReelection : ConvM P Unit) := by
    refine along_bind along_get fun c => along_ite ?_ (along_pure _)
    refine along_bind (drift_modifyTiming fun _ => ⟨rfl, rfl⟩) fun _ => ?_
    exact along_bind (drift_startWorking h) fun _ => drift_flight (flight_emitPhaseChange _)
  unfold handleElectionAccepted
  refine along_bind along_get fun c => along_bind (along_ofResult _) fun valid => ?_
  refine along_ite (along_pure _) (along_bind (along_ofResult _) fun l => ?_)
  refine along_bind (along_step fun _ => .still rfl) fun _ => ?_
  refine along_bind (along_step fun _ => .still rfl) fun _ => ?_
  refine along_bind hresume fun _ => along_bind along_get fun c => ?_
  refine along_bind ?_ fun shared => ?_
  · exact along_ite (along_attempt (drift_flight flight_shareConversationSync)) (along_pure _)
  · exact along_bind drift_processBufferedUpdates fun _ => along_ofResult _

theorem drift_followUp (hwork : phases .working) (hfreeze : phases .freezing)
    (r : ConsensusApplyResult) :
    Along (Drift phases) (followUp r : ConvM P Unit) := by
  cases r with
  | noAction => exact along_pure _
  | electionAccepted election => exact drift_handleElectionAccepted hwork election
  | electionRejected => exact drift_advanceElectionRetry
  | recoveryModeOpened =>
    refine along_bind (along_step fun _ => .still rfl) fun _ => along_bind ?_ fun _ => ?_
    · exact along_bind (drift_startFreezing hfreeze) fun _ =>
        drift_flight (flight_emitPhaseChange _)
    · exact drift_flight (flight_emitEvent _)
  | urgentRemoval target =>
    refine along_bind (drift_startFreezing hfreeze) fun o => ?_
    cases o with
    | none => exact drift_refreshStewardsAfterRemoval target
    | some event =>
      exact along_bind (drift_flight (flight_onFreezeEntered _)) fun _ =>
        drift_refreshStewardsAfterRemoval target
  | queuedRemoval target => exact drift_refreshStewardsAfterRemoval target
  | rejectedMembership target => exact drift_flight (flight_modifyQueues fun _ => rfl)

end Conversation

end DeMls
