import DeMls.Conversation.Scored
import DeMls.Conversation.Turns

/-!
# After a commit

Between the merge of a commit and the reconciliation of its membership a node applies the scores of
the round, hands out the welcome and goes back to work. `finishRound_after` cuts the follow-up of a
round there, `tenure_handOver` says what this leaves alone, and `reconcileMembership_run` is the
reconciliation itself.
-/

namespace DeMls

open Program

namespace Conversation

variable {P : Platform} {α : Type}

/-! ## What keeps the tenures -/

theorem tenure_onMls {x : EStateM MlsError (MlsService P.mls) α}
    (h : Frame MlsService.publicPart x) : Frame tenure (onMls x : ConvM P α) :=
  frame_zoom_of_frame h fun m c hm => by
    unfold tenure records
    rw [show (mlsPart.set m c).mls.publicPart = c.mls.publicPart from hm]
    rfl

/-- Reading the scores changes none. -/
theorem tenure_onScoring {x : PeerScoringService.ScoringM P.scores α} (h : Frame id x) :
    Frame tenure (onScoring x : ConvM P α) :=
  frame_zoom_of_frame h fun s c hs => by
    have hs : s = c.scoring := hs
    rw [hs]
    rfl

theorem frame_snapshot : Frame id (PeerScoringService.snapshot :
    PeerScoringService.ScoringM P.scores ScoreSnapshot) := by
  refine frame_bind (frame_get _) fun s => frame_bind ?_ fun _ => frame_pure _ _
  intro t
  unfold after PeerScoringService.readStorage
  cases P.scores.allScores t.storage <;> rfl

theorem tenure_reconcileStewardList : Frame tenure (reconcileStewardList : ConvM P _) := by
  unfold reconcileStewardList
  refine frame_bind (frame_get _) fun c => frame_ite (frame_pure _ _) ?_
  refine frame_ite (frame_pure _ _) (frame_bind (frame_ofResult _ _) fun l => ?_)
  exact frame_bind (frame_modify fun _ => rfl) fun _ => frame_pure _ _

theorem tenure_buildConversationSyncPayload :
    Frame tenure (buildConversationSyncPayload : ConvM P _) := by
  unfold buildConversationSyncPayload
  refine frame_bind (tenure_onScoring frame_snapshot) fun _ => frame_bind (frame_get _) fun c => ?_
  split
  · exact frame_pure _ _
  · exact frame_bind (tenure_onMls (MlsService.frame_buildMessage _)) fun _ => frame_pure _ _

theorem tenure_deliverWelcome (welcome : MemberWelcome) :
    Frame tenure (deliverWelcome welcome : ConvM P Unit) := by
  unfold deliverWelcome
  refine frame_bind (frame_attempt tenure_reconcileStewardList) fun reconciled => ?_
  refine frame_bind ?_ fun sync => ?_
  · cases reconciled with
    | ok _ => exact frame_attempt tenure_buildConversationSyncPayload
    | error e => exact frame_pure _ _
  · cases sync with
    | ok bytes => exact frame_bind (frame_modify fun _ => rfl) fun _ => frame_modify fun _ => rfl
    | error e =>
      exact frame_bind (frame_modify fun _ => rfl) fun _ =>
        frame_bind (frame_modify fun _ => rfl) fun _ => frame_modify fun _ => rfl

/-! ## The follow-up of a round that applied -/

/-- The scores of the round and the report of its batch. -/
def reward (inRecovery : Bool) (result : CommitRoundResult P.mls) : ConvM P Unit := do
  applyRoundScores result.scoreOps
  (if result.committedBatch = [] then pure ()
    else emitEvent (.commitApplied result.committedBatch))
  modify fun c => if inRecovery then { c with operatingMode := .normal } else c

/-- The welcome, and back to work. -/
def handOver (welcome : Option MemberWelcome) : ConvM P Unit := do
  (match welcome with
    | some welcome => deliverWelcome welcome
    | none => pure ())
  modify fun c => { c with
    stewardList := c.stewardList.resetRetry
    timing := { c.timing with reelectionRecovered := false } }
  let event ← startWorking
  emitEvent (.phaseChange event)

/-- What is left once the membership is reconciled. -/
def housekeep : ConvM P Unit := do
  stewardListHousekeeping
  processBufferedUpdates
  maybeCloseRecoveryWindow

theorem tenure_handOver (welcome : Option MemberWelcome) :
    Frame tenure (handOver welcome : ConvM P Unit) := by
  unfold handOver
  refine frame_bind ?_ fun _ => frame_bind (frame_modify fun _ => rfl) fun _ =>
    frame_bind (frame_bind (frame_modify fun _ => rfl) fun _ => frame_pure _ _) fun _ =>
      frame_modify fun _ => rfl
  cases welcome with
  | none => exact frame_pure _ _
  | some welcome => exact tenure_deliverWelcome welcome

theorem succeeds_deliverWelcome (welcome : MemberWelcome) :
    Succeeds (deliverWelcome welcome : ConvM P Unit) := by
  unfold deliverWelcome
  refine succeeds_bind (succeeds_attempt _) fun reconciled => ?_
  refine succeeds_bind ?_ fun sync => ?_
  · cases reconciled with
    | ok _ => exact succeeds_attempt _
    | error e => exact succeeds_pure _
  · cases sync with
    | ok bytes => exact succeeds_bind (succeeds_modify _) fun _ => succeeds_modify _
    | error e =>
      exact succeeds_bind (succeeds_modify _) fun _ =>
        succeeds_bind (succeeds_modify _) fun _ => succeeds_modify _

/-- **The follow-up of a commit.** The round is rewarded, the welcome handed over, and then the
membership is reconciled. -/
theorem finishRound_after {inRecovery hasProposals : Bool} {result : CommitRoundResult P.mls}
    {welcome : Option MemberWelcome} (h : result.outcome = .applied .conversationUpdated welcome)
    (c : Conversation P) :
    after (finishRound inRecovery hasProposals result) c = after (do
      reconcileMembershipAfterCommit
      housekeep : ConvM P Unit) (after (handOver welcome) (after (reward inRecovery result) c)) := by
  obtain ⟨outcome, ops, batch, merged⟩ := result
  dsimp only at h
  subst h
  have hreported : Succeeds (if batch = [] then pure () else emitEvent (.commitApplied batch) :
      ConvM P Unit) := succeeds_ite (succeeds_pure _) (succeeds_modify _)
  unfold finishRound reward
  dsimp only
  rw [after_seq _ (applyRoundScores_succeeds ops), after_seq _ hreported,
    after_seq _ (applyRoundScores_succeeds ops), after_seq _ hreported]
  generalize after (if batch = [] then pure () else emitEvent (.commitApplied batch) :
    ConvM P Unit) _ = d
  unfold finishApplied
  rw [after_seq _ (succeeds_modify _)]
  generalize after (modify _ : ConvM P Unit) d = e
  have hdone : ∀ e : Conversation P, after (dispatchInboundResult .conversationUpdated) e =
      after onConversationUpdated e :=
    fun e => after_bind_of_frame (p := id) (fun _ => frame_pure _ _) e
  -- The dispatch swallows errors; its program is the rest of `handOver` and what follows it.
  have hdispatched : ∀ (f : Except ConversationError DispatchOutcome → ConvM P DispatchOutcome)
      (_ : ∀ o, Frame id (f o)) (e : Conversation P),
      after (attempt (dispatchInboundResult .conversationUpdated) >>= f) e =
        after onConversationUpdated e :=
    fun f hf e => (after_bind_of_frame hf e).trans ((after_attempt _ e).trans (hdone e))
  cases welcome with
  | none =>
    refine hdispatched _ (fun o => ?_) e
    cases o <;> exact frame_pure _ _
  | some welcome =>
    rw [after_seq _ (succeeds_deliverWelcome welcome)]
    refine (hdispatched _ (fun o => ?_) _).trans ?_
    · cases o <;> exact frame_pure _ _
    · unfold handOver
      rw [after_seq _ (succeeds_deliverWelcome welcome)]
      rfl

/-! ## What each part leaves -/

/-- A round that merged leaves the scores alone. -/
theorem round_merges {c d : Conversation P} {r : CommitRoundResult P.mls}
    {merged : MergedCommit P.mls} {allowSubset : Bool}
    (hround : finalizeCommitRound allowSubset c.selfMemberId c = .ok r d)
    (hm : r.merged = some merged) : d.scoring = c.scoring ∧
      Merges merged.candidate.commitHash (c.epoch + 1) c.roundState.taken d.roundState merged.staged
        r.committedBatch := by
  rw [finalizeCommitRound_roundState, onRound, zoom_ok] at hround
  obtain ⟨t, hround, rfl⟩ := hround
  exact ⟨rfl, (finalizeCommitRound_merged hround hm).1⟩

/-- Beside the scores of the round, its reward changes no tenure. -/
theorem tenure_reward (inRecovery : Bool) (result : CommitRoundResult P.mls) (c : Conversation P) :
    (after (reward inRecovery result) c).tenure =
      (after (applyScoreOps result.scoreOps : ConvM P Unit) c).tenure := by
  have hrest : Frame tenure (do
      (if result.committedBatch = [] then pure ()
        else emitEvent (.commitApplied result.committedBatch))
      modify fun c => if inRecovery then { c with operatingMode := .normal } else c :
      ConvM P Unit) := by
    refine frame_bind (frame_ite (frame_pure _ _) (frame_modify fun _ => rfl)) fun _ =>
      frame_modify fun c => ?_
    split_ifs <;> rfl
  refine (after_bind_of_frame (fun _ => hrest) c).trans ?_
  unfold applyRoundScores
  split_ifs with hnone
  · rw [hnone]
    rfl
  · refine (after_bind_of_frame (fun r => ?_) c).trans (congrArg tenure (after_attempt _ c))
    cases r with
    | ok _ => exact frame_pure _ _
    | error e => exact frame_modify fun _ => rfl

section
variable (hS : P.scores.Lawful)
include hS

/-- **The scores of a round** fold into the table. -/
theorem reward_run (inRecovery : Bool) (result : CommitRoundResult P.mls) (c : Conversation P) :
    (after (reward inRecovery result) c).scoreTable =
        PeerScoringService.tableAfter c.scoring.scoreDelta result.scoreOps c.scoreTable ∧
      (after (reward inRecovery result) c).scoring.parameters = c.scoring.parameters ∧
      (after (reward inRecovery result) c).records = c.records := by
  obtain ⟨d, hrun, htable, hparameters, hrecords⟩ := applyScoreOps_run hS result.scoreOps c
  have hkept := tenure_reward inRecovery result c
  rw [after_of_ok hrun] at hkept
  obtain ⟨hscoring, hsame⟩ := Prod.mk.inj hkept
  refine ⟨?_, ?_, hsame.trans hrecords⟩
  · unfold scoreTable
    rw [hscoring]
    exact htable
  · rw [hscoring]
    exact hparameters

/-- **The reconciliation** forgets the removed members, starts the added ones at the default, and
consumes the delta. -/
theorem reconcileMembership_run {c : Conversation P} {delta : MembershipDelta}
    (hdelta : c.queues.pendingMembershipDelta = some delta) :
    ∃ d, (reconcileMembershipAfterCommit : ConvM P Unit) c = .ok () d ∧
      (∀ id, d.scoreTable id =
        if id ∈ delta.added.map (fun m => memberIdOf m.index) then
          some c.scoring.config.defaultScore
        else if id ∈ delta.removed.map (fun m => memberIdOf m.leaf) then none
        else c.scoreTable id) ∧
      d.scoring.parameters = c.scoring.parameters ∧
      d.records = (c.queues.memberJoinEpoch, none, c.mls.publicPart) := by
  let removed := delta.removed.map fun m => memberIdOf m.leaf
  let added := delta.added.map fun m => memberIdOf m.index
  let c₁ : Conversation P := { c with queues := c.queues.takeMembershipDelta.2 }
  obtain ⟨s₁, hremove, hremoved, hparameters₁⟩ :=
    PeerScoringService.removeMembers_run hS removed c.scoring
  obtain ⟨s₂, hadd, hadded, hparameters₂⟩ := PeerScoringService.addMembers_run hS added s₁
  let c₂ : Conversation P := { c₁ with scoring := s₂ }
  have hrest : Succeeds (do
      modifyQueues fun q => q.expirePendingUpdates c.epoch c.config.pendingUpdateMaxEpochs
      if delta.added ≠ [] ∨ delta.removed ≠ [] then
        emitEvent (.membersChanged delta.added delta.removed)
      else pure () : ConvM P Unit) :=
    succeeds_bind (succeeds_modify _) fun _ => succeeds_ite (succeeds_modify _) (succeeds_pure _)
  have hkept : Frame tenure (do
      modifyQueues fun q => q.expirePendingUpdates c.epoch c.config.pendingUpdateMaxEpochs
      if delta.added ≠ [] ∨ delta.removed ≠ [] then
        emitEvent (.membersChanged delta.added delta.removed)
      else pure () : ConvM P Unit) :=
    frame_bind (frame_modify fun _ => rfl) fun _ =>
      frame_ite (frame_modify fun _ => rfl) (frame_pure _ _)
  obtain ⟨⟨⟩, hrun⟩ := hrest c₂
  obtain ⟨hscoring, hrecords⟩ := Prod.mk.inj (hkept.ok hrun)
  have htaken : c.queues.takeMembershipDelta.1 = delta := by
    unfold ConversationQueues.takeMembershipDelta
    rw [hdelta]
    rfl
  refine ⟨_, ?_, fun id => ?_, ?_, hrecords⟩
  · unfold reconcileMembershipAfterCommit
    rw [bind_run _ (get_apply c), htaken]
    rw [bind_run _ (show (modifyQueues fun q => q.takeMembershipDelta.2 : ConvM P Unit) c =
      .ok () c₁ from rfl), removeScored_eq, addScored_eq,
      bind_run _ (onScoring_run (c := c₁) hremove),
      bind_run _ (onScoring_run (c := { c₁ with scoring := s₁ }) hadd)]
    exact hrun
  · have hdefault : s₁.config = c.scoring.config := congrArg Prod.snd hparameters₁
    show PeerScoringService.table _ id = _
    rw [hscoring]
    show s₂.table id = _
    rw [hadded, hremoved, hdefault]
    rfl
  · rw [hscoring]
    exact hparameters₂.trans hparameters₁

end

end Conversation

end DeMls
