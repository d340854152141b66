import DeMls.Conversation.Aside
import DeMls.Conversation.Traffic
import DeMls.Ideal

/-!
# The partial freeze

An emergency in flight blocks every proposal of lower priority. `emergency_lifted_iff` says when its
outcome ends the freeze.
-/

namespace DeMls

open Program

variable {P : Platform}

/-! ## What an emergency calls for -/

/-- An emergency with evidence calls for nothing, for recovery or for an urgent removal. -/
theorem applyConsensusResult_emergency (O : OpenMls) (q : ConversationQueues) (id : ProposalId)
    (approved : Bool) {request : ConversationUpdateRequest} {ev : ViolationEvidence}
    (h : request.payload = some (.emergencyCriteria (some ev))) :
    let r := (applyConsensusResult O q id approved request).1
    r = .noAction ∨ r = .recoveryModeOpened ∨ ∃ target, r = .urgentRemoval target := by
  have helection : extractElectionProposal request = none := by simp [extractElectionProposal, h]
  have htarget : targetMemberIdOf O request = none := by simp [targetMemberIdOf, h]
  have hinvite : inviteKeyOf O request = none := by simp [inviteKeyOf, h]
  have hevidence : extractEmergencyEvidence request = some ev := by
    simp [extractEmergencyEvidence, h]
  unfold applyConsensusResult
  simp only [helection, htarget, hinvite, hevidence, Option.isSome_some, Option.any_some]
  cases approved with
  | false => simp [pendingRemovalTarget]
  | true =>
    cases hscore : isScoreBelowThreshold ev with
    | true =>
      have hremoval : pendingRemovalTarget request (some ev) true true true =
          some ev.targetMemberId := rfl
      by_cases hqueued : (q.removeVotingProposal id).hasApprovedRemoval ev.targetMemberId = true
      · simp [hremoval, hqueued]
      · simp [hremoval, hqueued, Option.filter_some]
    | false =>
      have hremoval : pendingRemovalTarget request (some ev) true true false = none := rfl
      cases hdeadlock : isDeadlock ev with
      | true => simp [hremoval]
      | false => simp [hremoval]

namespace Conversation

/-! ## Active emergencies -/

theorem activeEmergencyIds_of_inFlight {c d : Conversation P} (h : d.inFlight = c.inFlight) :
    d.queues.activeEmergencyIds = c.queues.activeEmergencyIds :=
  congrArg (fun f : InFlight P => f.tracked.2.1) h

/-- Opening a proposal ends no emergency. -/
theorem OpeningEffect.keeps_emergency {c : Conversation P} {request : ConversationUpdateRequest}
    {f : InFlight P} (h : OpeningEffect c request f) {id : ProposalId}
    (hid : id ∈ c.queues.activeEmergencyIds) : id ∈ f.tracked.2.1 := by
  cases h with
  | refused => exact hid
  | failed _ => exact hid
  | opened =>
    rw [tracked_trackOwn]
    dsimp only
    split_ifs
    · exact Finset.mem_insert_of_mem hid
    · exact hid

/-- No driver ends an emergency. -/
theorem Drift.keeps_emergency {phases : ConversationState → Prop} {c d : Conversation P}
    (h : Drift phases c d) {id : ProposalId} (hid : id ∈ c.queues.activeEmergencyIds) :
    id ∈ d.queues.activeEmergencyIds := by
  cases h with
  | still h => rwa [activeEmergencyIds_of_inFlight (congrArg Prod.fst h)]
  | enter h _ => rwa [activeEmergencyIds_of_inFlight h]
  | propose request v => exact (initiateProposal_effect request v c).keeps_emergency hid
  | unschedule => exact hid

theorem activeEmergencyIds_handed (event : ConsensusEvent) (request : ConversationUpdateRequest)
    (c : Conversation P) :
    (c.handed event request).queues.activeEmergencyIds = c.queues.activeEmergencyIds :=
  congrArg (fun f : InFlight P => f.tracked.2.1) (inFlight_handed event request c)

/-- A program that keeps the active emergencies ends none. -/
theorem keeps_emergency_of_frame {α : Type} {x : ConvM P α}
    (h : Frame (fun d : Conversation P => d.queues.activeEmergencyIds) x) (id : ProposalId) :
    Preserves (fun d : Conversation P => id ∈ d.queues.activeEmergencyIds) x :=
  h.preserves fun _ _ heq hid => by rwa [heq]

theorem frame_activeEmergencyIds {α : Type} {x : ConvM P α} (h : Frame inFlight x) :
    Frame (fun d : Conversation P => d.queues.activeEmergencyIds) x :=
  fun c => activeEmergencyIds_of_inFlight (h c)

/-- An outcome without scores ends no emergency. -/
theorem finishOutcome_keeps_emergency (pid id : ProposalId) (r : ConsensusApplyResult) :
    Preserves (fun d : Conversation P => id ∈ d.queues.activeEmergencyIds)
      (finishOutcome pid r [] : ConvM P Unit) := by
  unfold finishOutcome
  refine preserves_bind (keeps_emergency_of_frame
    (frame_activeEmergencyIds (inFlight_of_flight flight_replayEarlyCandidates)) id) fun _ => ?_
  refine preserves_bind ?_ fun _ => ?_
  · have hpath : Along (Drift fun _ => True) (followUp r : ConvM P Unit) :=
      drift_followUp trivial trivial r
    exact hpath.preserves fun _ _ h => h.keeps_emergency
  · rw [if_neg (not_not.mpr rfl)]
    exact keeps_emergency_of_frame (frame_ofPair fun _ => rfl) id

/-! ## The end of a partial freeze -/

/-- The score storage takes the operations of a verdict. -/
def ScoresTaken (c : Conversation P) (ops : List ScoreOp) : Prop :=
  ∃ changes scoring, PeerScoringService.applyOps ops c.scoring = .ok changes scoring

/-- The follow-ups of an emergency do not fail. -/
theorem followUp_succeeds {r : ConsensusApplyResult}
    (h : r = .noAction ∨ r = .recoveryModeOpened ∨ ∃ target, r = .urgentRemoval target) :
    Succeeds (followUp r : ConvM P Unit) := by
  have hfreezing : Succeeds (startFreezing : ConvM P _) :=
    succeeds_get_bind fun _ => succeeds_ite
      (succeeds_bind (succeeds_modify _) fun _ => succeeds_pure _) (succeeds_pure _)
  have hrefresh : ∀ target, Succeeds (refreshStewardsAfterRemoval target : ConvM P Unit) :=
    fun _ => succeeds_get_bind fun _ => succeeds_ite (succeeds_pure _)
      (succeeds_bind (succeeds_attempt _) fun _ => succeeds_pure _)
  rcases h with rfl | rfl | ⟨target, rfl⟩
  · exact succeeds_pure _
  · refine succeeds_bind (succeeds_modify _) fun _ => succeeds_bind ?_ fun _ => succeeds_modify _
    refine succeeds_bind hfreezing fun o => ?_
    cases o with
    | none => exact succeeds_pure _
    | some state => exact succeeds_modify _
  · refine succeeds_bind hfreezing fun o => ?_
    cases o with
    | none => exact hrefresh target
    | some event =>
      refine succeeds_bind (succeeds_get_bind fun c => succeeds_ite ?_ (succeeds_modify _))
        fun _ => hrefresh target
      refine succeeds_bind (succeeds_attempt _) fun r => ?_
      cases r with
      | ok _ => exact succeeds_modify _
      | error e => exact succeeds_bind (succeeds_modify _) fun _ => succeeds_modify _

/-- The follow-ups of an emergency write no score. -/
theorem scoring_followUp {r : ConsensusApplyResult}
    (h : r = .noAction ∨ r = .recoveryModeOpened ∨ ∃ target, r = .urgentRemoval target) :
    Frame Conversation.scoring (followUp r : ConvM P Unit) := by
  have hfreezing : Frame Conversation.scoring (startFreezing : ConvM P _) :=
    frame_bind (frame_get _) fun _ => frame_ite
      (frame_bind (frame_modify fun _ => rfl) fun _ => frame_pure _ _) (frame_pure _ _)
  have hrefresh : ∀ target,
      Frame Conversation.scoring (refreshStewardsAfterRemoval target : ConvM P Unit) :=
    fun _ => frame_bind (frame_get _) fun _ => frame_ite (frame_pure _ _)
      (frame_attempted (aside_scoring.initiateStewardElection _))
  rcases h with rfl | rfl | ⟨target, rfl⟩
  · exact frame_pure _ _
  · refine frame_bind (frame_modify fun _ => rfl) fun _ => frame_bind ?_ fun _ => ?_
    · refine frame_bind hfreezing fun o => ?_
      cases o with
      | none => exact frame_pure _ _
      | some state => exact aside_scoring.emitEvent _
    · exact aside_scoring.emitEvent _
  · refine frame_bind hfreezing fun o => ?_
    cases o with
    | none => exact hrefresh target
    | some event => exact frame_bind (aside_scoring.onFreezeEntered _) fun _ => hrefresh target

/-- What is left of an emergency after its follow-up ends it exactly when the storage takes its
scores. -/
theorem scored_ends_emergency_iff {c : Conversation P} {id : ProposalId} {ops : List ScoreOp}
    (hops : ops ≠ []) (hid : id ∈ c.queues.activeEmergencyIds) :
    id ∉ (after (do
        if ops ≠ [] then handleEmergencyScored id ops else pure ()
        onConsensus fun st =>
          ((P.consensus.removeSession st id).1, (P.consensus.removeSession st id).2, []) :
        ConvM P Unit) c).queues.activeEmergencyIds ↔ c.ScoresTaken ops := by
  rw [if_pos hops]
  cases hscores : PeerScoringService.applyOps ops c.scoring with
  | error e s =>
    have hfail : (onScoring (PeerScoringService.applyOps ops) : ConvM P _) c =
        .error e (scoringPart.set s c) :=
      (zoom_error _ _ _ _ _ _).mpr ⟨e, s, hscores, rfl, rfl⟩
    have happly : (applyScoreOps ops : ConvM P Unit) c = .error e (scoringPart.set s c) :=
      (bind_error _ _ _ _ _).mpr (.inl hfail)
    have hscored : (handleEmergencyScored id ops : ConvM P Unit) c =
        .error e (scoringPart.set s c) := (bind_error _ _ _ _ _).mpr (.inl happly)
    rw [after_bind_error _ hscored]
    refine ⟨fun h => absurd hid h, ?_⟩
    rintro ⟨changes, s', h⟩
    rw [hscores] at h
    cases h
  | ok changes s =>
    refine ⟨fun _ => ⟨changes, s, hscores⟩, fun _ => ?_⟩
    have hrun : (onScoring (PeerScoringService.applyOps ops) : ConvM P _) c =
        .ok changes (scoringPart.set s c) := (zoom_ok _ _ _ _ _ _).mpr ⟨s, hscores, rfl⟩
    obtain ⟨_, hemit⟩ := emitScoreChanges_succeeds changes (scoringPart.set s c)
    have happly : (applyScoreOps ops : ConvM P Unit) c = .ok () _ := (bind_run _ hrun).trans hemit
    -- Here the emergency goes; nothing after it writes the set.
    have hlifted : Frame (fun d : Conversation P => d.queues.activeEmergencyIds) (do
        let c ← get
        if c.state = .reelection then do
          let event ← startWorking
          emitPhaseChange (some event)
        else pure () : ConvM P Unit) := by
      refine frame_bind (frame_get _) fun c => frame_ite ?_ (frame_pure _ _)
      refine frame_bind (frame_bind (frame_modify fun _ => rfl) fun _ => frame_pure _ _) fun _ => ?_
      exact frame_modify fun _ => rfl
    have hfree : ∀ _ : Unit, Frame (fun d : Conversation P => d.queues.activeEmergencyIds)
        (onConsensus fun st =>
          ((P.consensus.removeSession st id).1, (P.consensus.removeSession st id).2, []) :
          ConvM P Unit) := fun _ => frame_ofPair fun _ => rfl
    have hscored := after_bind_of_frame (x := handleEmergencyScored id ops) hfree c
    dsimp only at hscored ⊢
    rw [hscored]
    unfold handleEmergencyScored
    rw [after_bind_ok _ happly]
    let d := after (emitScoreChanges changes : ConvM P Unit) (scoringPart.set s c)
    have hset := hlifted { d with queues := d.queues.removeEmergency id }
    intro hmem
    have hmem : id ∈ d.queues.activeEmergencyIds.erase id := by
      rw [← show _ = d.queues.activeEmergencyIds.erase id from hset]
      exact hmem
    exact absurd hmem (Finset.notMem_erase _ _)

/-- **The end of a partial freeze.** The first outcome of an emergency ends it exactly when its
session gives a request with evidence and the score storage takes the scores of the verdict. -/
theorem emergency_lifted_iff {c : Conversation P} {event : ConsensusEvent}
    (hfirst : c.queues.isConsensusOutcomeApplied event.fields.1 = false)
    (hactive : event.fields.1 ∈ c.queues.activeEmergencyIds) :
    event.fields.1 ∉ (after (handleConsensusOutcome event) c).queues.activeEmergencyIds ↔
      ∃ request ev, c.resolved event.fields.1 = some request ∧
        request.payload = some (.emergencyCriteria (some ev)) ∧
        c.ScoresTaken (emergencyScoreOps request event.fields.2.1) := by
  cases hresolved : c.resolved event.fields.1 with
  | none =>
    obtain ⟨e, herror⟩ := handleConsensusOutcome_unresolved hfirst hresolved
    rw [after_of_error herror]
    constructor
    · exact fun h => absurd hactive h
    · rintro ⟨_, _, ⟨⟩, _⟩
  | some request =>
    rw [after_handleConsensusOutcome_resolved hresolved]
    have hhanded : event.fields.1 ∈ (c.handed event request).queues.activeEmergencyIds := by
      rw [activeEmergencyIds_handed]
      exact hactive
    by_cases hev : ∃ ev, request.payload = some (.emergencyCriteria (some ev))
    · obtain ⟨ev, hpayload⟩ := hev
      have hops : emergencyScoreOps request event.fields.2.1 ≠ [] := by
        unfold emergencyScoreOps
        rw [hpayload]
        dsimp only
        split_ifs <;> simp
      have hkind : (c.applied event request).1 = .noAction ∨
          (c.applied event request).1 = .recoveryModeOpened ∨
          ∃ target, (c.applied event request).1 = .urgentRemoval target :=
        applyConsensusResult_emergency P.mls _ _ _ hpayload
      -- The follow-up of an emergency runs through and leaves set and scores as they were.
      let d := after (replayEarlyCandidates : ConvM P Unit) (c.handed event request)
      have hreplay : (replayEarlyCandidates : ConvM P Unit) (c.handed event request) = .ok () d := rfl
      obtain ⟨_, hfollow⟩ := followUp_succeeds hkind d
      have hset : event.fields.1 ∈
          (after (followUp (c.applied event request).1) d).queues.activeEmergencyIds := by
        have hpath : Along (Drift fun _ => True)
            (followUp (c.applied event request).1 : ConvM P Unit) := drift_followUp trivial trivial _
        refine hpath.preserves (I := fun d => event.fields.1 ∈ d.queues.activeEmergencyIds)
          (fun _ _ h => h.keeps_emergency) d ?_
        exact keeps_emergency_of_frame (frame_activeEmergencyIds
          (inFlight_of_flight flight_replayEarlyCandidates)) _ _ hhanded
      have hscoring : (after (followUp (c.applied event request).1) d).scoring = c.scoring :=
        scoring_followUp hkind d
      unfold finishOutcome
      rw [after_bind_ok _ hreplay, after_bind_ok _ hfollow, scored_ends_emergency_iff hops hset]
      unfold ScoresTaken
      rw [hscoring]
      constructor
      · exact fun h => ⟨request, ev, rfl, hpayload, h⟩
      · rintro ⟨_, _, ⟨⟩, _, h⟩
        exact h
    · have hops : emergencyScoreOps request event.fields.2.1 = [] := by
        unfold emergencyScoreOps
        split
        · rename_i ev hpayload
          exact absurd ⟨ev, hpayload⟩ hev
        · rfl
      rw [hops]
      constructor
      · exact fun h => absurd (finishOutcome_keeps_emergency _ _ _ _ hhanded) h
      · rintro ⟨_, ev, ⟨⟩, hpayload, _⟩
        exact absurd ⟨ev, hpayload⟩ hev

end Conversation

/-- An emergency without evidence never ends its freeze. -/
theorem evidenceless_emergency_stays :
    let c := Ideal.tracked 7 ⟨some (.emergencyCriteria none)⟩ Ideal.start
    c.queues.isConsensusOutcomeApplied 7 = false ∧ 7 ∈ c.queues.activeEmergencyIds ∧
    7 ∈ (Ideal.approve 7 c).queues.activeEmergencyIds := by
  refine ⟨rfl, ?_, ?_⟩ <;> decide

/-- One with evidence does, over a table that takes the scores. -/
theorem evidenced_emergency_ends :
    let request : ConversationUpdateRequest := ⟨some (.emergencyCriteria (some
      ⟨3, memberIdOf 2, [], 1, memberIdOf 1⟩))⟩
    let c := Ideal.tracked 7 request Ideal.start
    7 ∉ (Ideal.approve 7 c).queues.activeEmergencyIds ↔
      ∃ request ev, c.resolved 7 = some request ∧
        request.payload = some (.emergencyCriteria (some ev)) ∧
        c.ScoresTaken (emergencyScoreOps request true) :=
  @Conversation.emergency_lifted_iff _ _ (.consensusReached 7 true 0) rfl (by decide)

end DeMls
