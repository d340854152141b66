import DeMls.Lib.Runs
import DeMls.CommitRound.Report

/-!
# Runs of a conversation

A conversation takes steps at the granularity of its handlers, in any order. `Step.effect` says
once what a step can do to the approved work and the group: nothing, one outcome applied, or one
commit merged. Every invariant over runs is derived from it.
-/

namespace DeMls

open Program Runs

/-! ## What an outcome does to the approved work -/

/-- An approved membership request that is not queued yet joins the queue. -/
structure Joins (O : OpenMls) (q : ConversationQueues) (request : ConversationUpdateRequest) :
    Prop where
  election : extractElectionProposal request = none
  evidence : extractEmergencyEvidence request = none
  removal : ∀ l, request.payload = some (.removeMember l) → q.hasApprovedRemoval l = false
  invite : ∀ key, inviteKeyOf O request = some key → q.hasApprovedInvite O key = false

/-- The approved work, the urgent target and the join epochs after an outcome that calls for the
follow-up `r`. -/
inductive OutcomeEffect (O : OpenMls) (q : ConversationQueues) (id : ProposalId) (approved : Bool)
    (request : ConversationUpdateRequest) (r : ConsensusApplyResult) :
    OrderedMap ProposalId ConversationUpdateRequest × Option Bytes × OrderedMap Bytes Nat → Prop
  /-- Nothing is queued. -/
  | kept (hresult : ∀ t, r ≠ .urgentRemoval t) : OutcomeEffect O q id approved request r q.ledger
  /-- A score removal is queued and becomes the urgent target. -/
  | urgent {ev : ViolationEvidence} (hresult : r = .urgentRemoval ev.targetMemberId)
      (happroved : approved = true)
      (hpayload : request.payload = some (.emergencyCriteria (some ev)))
      (hscore : isScoreBelowThreshold ev = true)
      (hfresh : q.hasApprovedRemoval ev.targetMemberId = false) :
      OutcomeEffect O q id approved request r
        (q.approvedProposals.insert id (removalRequestFor ev), some ev.targetMemberId,
          q.memberJoinEpoch)
  /-- The request itself is queued. -/
  | queued (hresult : ∀ t, r ≠ .urgentRemoval t) (happroved : approved = true)
      (hjoins : Joins O q request) :
      OutcomeEffect O q id approved request r
        (q.approvedProposals.insert id request, q.urgentCommitTarget, q.memberJoinEpoch)

theorem payload_of_evidence {request : ConversationUpdateRequest} {ev : ViolationEvidence}
    (h : extractEmergencyEvidence request = some ev) :
    request.payload = some (.emergencyCriteria (some ev)) := by
  unfold extractEmergencyEvidence at h
  split at h
  · rename_i hpayload
    rw [hpayload, h]
  · cases h

/-- A rejection queues nothing. -/
theorem applyConsensusResult_rejected (O : OpenMls) (q : ConversationQueues) (id : ProposalId)
    (request : ConversationUpdateRequest) :
    (applyConsensusResult O q id false request).2.ledger = q.ledger ∧
      ∀ t, (applyConsensusResult O q id false request).1 ≠ .urgentRemoval t := by
  unfold applyConsensusResult
  cases extractElectionProposal request with
  | some election => exact ⟨rfl, fun _ h => nomatch h⟩
  | none =>
    cases extractEmergencyEvidence request with
    | none => cases targetMemberIdOf O request <;> exact ⟨rfl, fun _ h => nomatch h⟩
    | some ev =>
      simp only [pendingRemovalTarget, Bool.not_false, if_true, Option.any_none, Bool.false_and,
        Bool.and_false, Option.filter_some, Bool.false_eq_true, if_false]
      cases targetMemberIdOf O request <;> exact ⟨rfl, fun _ h => nomatch h⟩

theorem applyConsensusResult_effect (O : OpenMls) (q : ConversationQueues) (id : ProposalId)
    (approved : Bool) (request : ConversationUpdateRequest) :
    OutcomeEffect O q id approved request (applyConsensusResult O q id approved request).1
      (applyConsensusResult O q id approved request).2.ledger := by
  cases approved with
  | false =>
    obtain ⟨hledger, hresult⟩ := applyConsensusResult_rejected O q id request
    rw [hledger]
    exact .kept hresult
  | true =>
    unfold applyConsensusResult
    cases helection : extractElectionProposal request with
    | some election => exact .kept fun _ h => nomatch h
    | none =>
      cases hevidence : extractEmergencyEvidence request with
      | some ev =>
        have hinvite : inviteKeyOf O request = none := by
          unfold inviteKeyOf
          rw [payload_of_evidence hevidence]
        simp only [hinvite, Option.any_none, Bool.and_false, Bool.false_eq_true, if_false,
          Option.isSome_some, Bool.true_and, Option.any_some, Bool.not_true]
        by_cases hscore : isScoreBelowThreshold ev = true
        · simp only [pendingRemovalTarget, hscore, Bool.not_true, Bool.false_eq_true, if_false,
            if_true, Option.map_some, Option.any_some, Option.filter_some]
          split_ifs with hqueued
          · exact .kept fun _ h => nomatch h
          · exact .urgent rfl rfl (payload_of_evidence hevidence) hscore
              (Bool.eq_false_iff.mpr hqueued)
        · rw [Bool.not_eq_true] at hscore
          simp only [pendingRemovalTarget, hscore, Bool.not_true, Bool.false_eq_true, if_false,
            if_true, Option.any_none, Option.filter_some]
          split_ifs
          · exact .kept fun _ h => nomatch h
          · exact .kept fun _ h => nomatch h
      | none =>
        simp only [Option.isSome_none, Option.any_none, Bool.and_false, Bool.true_and,
          Bool.not_false, if_true, Option.filter_none, Bool.false_and, Bool.false_eq_true, if_false]
        split_ifs with hremoval hinvite
        · exact .kept fun _ h => nomatch h
        · exact .kept fun _ h => nomatch h
        · have hjoins : Joins O q request := by
            refine ⟨helection, hevidence, ?_, ?_⟩
            · intro l hl
              rw [pendingRemovalTarget] at hremoval
              simp only [Bool.not_true, Bool.false_eq_true, if_false, hl, Option.any_some]
                at hremoval
              exact Bool.eq_false_iff.mpr hremoval
            · intro key hkey
              rw [hkey, Option.any_some] at hinvite
              exact Bool.eq_false_iff.mpr hinvite
          cases pendingRemovalTarget request none true false false with
          | none => exact .queued (fun _ h => nomatch h) rfl hjoins
          | some target => exact .queued (fun _ h => nomatch h) rfl hjoins

/-- Marking an outcome as applied touches no part of the approved work. -/
theorem OutcomeEffect.of_marked {O : OpenMls} {q : ConversationQueues} {id i : ProposalId}
    {approved : Bool} {request : ConversationUpdateRequest} {r : ConsensusApplyResult}
    {ledger : OrderedMap ProposalId ConversationUpdateRequest × Option Bytes × OrderedMap Bytes Nat}
    (h : OutcomeEffect O (q.markConsensusOutcomeApplied i) id approved request r ledger) :
    OutcomeEffect O q id approved request r ledger := by
  cases h with
  | kept hresult => exact .kept hresult
  | urgent hresult happroved hpayload hscore hfresh =>
    exact .urgent hresult happroved hpayload hscore hfresh
  | queued hresult happroved hjoins =>
    exact .queued hresult happroved
      ⟨hjoins.election, hjoins.evidence, hjoins.removal, hjoins.invite⟩

/-- No outcome touches the join epochs. -/
theorem OutcomeEffect.joinEpoch {O : OpenMls} {q : ConversationQueues} {id : ProposalId}
    {approved : Bool} {request : ConversationUpdateRequest} {r : ConsensusApplyResult}
    {ledger : OrderedMap ProposalId ConversationUpdateRequest × Option Bytes × OrderedMap Bytes Nat}
    (h : OutcomeEffect O q id approved request r ledger) : ledger.2.2 = q.memberJoinEpoch := by
  cases h <;> rfl

namespace Conversation

variable {P : Platform}

/-- The request an outcome applies: not applied before, with a session whose payload decodes. -/
def resolved (c : Conversation P) (id : ProposalId) : Option ConversationUpdateRequest :=
  if c.queues.isConsensusOutcomeApplied id then none
  else (P.consensus.getProposal c.consensus id).toOption.bind fun proposal =>
    (P.codec.decodeRequest proposal.payload).toOption

/-- A follow-up installs a list only when it accepts an election. -/
theorem frame_followUp_other {r : ConsensusApplyResult} (hr : ∀ e, r ≠ .electionAccepted e) :
    Frame standing (followUp r : ConvM P Unit) := by
  have hfreeze : Frame standing (startFreezingAndEmit : ConvM P Unit) :=
    frame_bind frame_startFreezing fun _ => frame_emitPhaseChange _
  have hrefresh : ∀ target, Frame standing (refreshStewardsAfterRemoval target : ConvM P Unit) :=
    fun _ => frame_bind (frame_get _) fun _ => frame_ite (frame_pure _ _)
      (frame_attempted (frame_initiateStewardElection _))
  cases r with
  | noAction => exact frame_pure _ _
  | electionAccepted election => exact absurd rfl (hr election)
  | electionRejected => exact frame_advanceElectionRetry
  | rejectedMembership target => exact frame_modifyQueues fun _ => rfl
  | recoveryModeOpened =>
    refine frame_bind (frame_modify fun _ => rfl) fun _ => ?_
    exact frame_bind hfreeze fun _ => frame_emitEvent rfl
  | urgentRemoval target =>
    refine frame_bind frame_startFreezing fun o => ?_
    cases o with
    | none => exact hrefresh target
    | some event => exact frame_bind (frame_onFreezeEntered _) fun _ => hrefresh target
  | queuedRemoval target => exact hrefresh target

theorem frame_followUp (r : ConsensusApplyResult) : Frame membership (followUp r : ConvM P Unit) := by
  cases r with
  | electionAccepted election => exact frame_handleElectionAccepted _
  | _ => exact frame_membership (frame_followUp_other (by simp))

theorem frame_handleEmergencyScored (id : ProposalId) (ops : List ScoreOp) :
    Frame standing (handleEmergencyScored id ops : ConvM P Unit) := by
  refine frame_bind (frame_applyScoreOps _) fun _ => ?_
  refine frame_bind (frame_modifyQueues fun _ => rfl) fun _ => frame_bind (frame_get _) fun c => ?_
  exact frame_ite (frame_bind frame_startWorking fun _ => frame_emitPhaseChange _) (frame_pure _ _)

/-- What is left of an outcome after its follow-up. -/
theorem frame_afterFollowUp (id : ProposalId) (ops : List ScoreOp) :
    Frame standing (do
      if ops ≠ [] then handleEmergencyScored id ops else pure ()
      onConsensus fun st =>
        ((P.consensus.removeSession st id).1, (P.consensus.removeSession st id).2, []) :
      ConvM P Unit) :=
  frame_ite (frame_bind (frame_handleEmergencyScored _ _) fun _ => frame_onConsensus _)
    (frame_onConsensus _)

theorem frame_finishOutcome (id : ProposalId) (r : ConsensusApplyResult) (ops : List ScoreOp) :
    Frame membership (finishOutcome id r ops : ConvM P Unit) :=
  frame_bind (frame_membership frame_replayEarlyCandidates) fun _ =>
    frame_bind (frame_followUp _) fun _ => frame_membership (frame_afterFollowUp id ops)

/-- What applying an outcome to the queues gives: the follow-up it calls for, and the queues. -/
def applied (c : Conversation P) (event : ConsensusEvent) (request : ConversationUpdateRequest) :
    ConsensusApplyResult × ConversationQueues :=
  applyConsensusResult P.mls (c.queues.markConsensusOutcomeApplied event.fields.1) event.fields.1
    event.fields.2.1 request

/-- The pending deadlines of a proposal are moot. -/
def dropDeadlines (id : ProposalId) (c : Conversation P) : Conversation P :=
  { c with timing := { c.timing with
    pendingAutoVotes := c.timing.pendingAutoVotes.erase id
    pendingConsensusTimeouts := c.timing.pendingConsensusTimeouts.erase id } }

/-- A first outcome is reported before anything else. -/
def announced (event : ConsensusEvent) (c : Conversation P) : Conversation P :=
  let d := c.dropDeadlines event.fields.1
  { d with pendingEvents := d.pendingEvents ++
      [.consensusReached event.fields.1 event.fields.2.1 event.fields.2.2] }

/-- The queues took a first outcome. -/
def handed (event : ConsensusEvent) (request : ConversationUpdateRequest) (c : Conversation P) :
    Conversation P :=
  { c.announced event with queues := (c.applied event request).2 }

theorem standing_announced (event : ConsensusEvent) (c : Conversation P) :
    (c.announced event).standing = c.standing :=
  @frame_emitEvent P (.consensusReached event.fields.1 event.fields.2.1 event.fields.2.2) rfl
    (c.dropDeadlines event.fields.1)

/-- A repeated outcome drops the deadlines and nothing else. -/
theorem handleConsensusOutcome_repeated {event : ConsensusEvent} {c : Conversation P}
    (h : c.queues.isConsensusOutcomeApplied event.fields.1 = true) :
    handleConsensusOutcome event c = .ok () (c.dropDeadlines event.fields.1) := by
  show (if c.queues.isConsensusOutcomeApplied event.fields.1 then pure () else do
    emitEvent (.consensusReached event.fields.1 event.fields.2.1 event.fields.2.2)
    applyOutcome event.fields.1 event.fields.2.1 : ConvM P Unit) (c.dropDeadlines event.fields.1) = _
  rw [if_pos h]
  rfl

theorem handleConsensusOutcome_first {event : ConsensusEvent} {c : Conversation P}
    (h : c.queues.isConsensusOutcomeApplied event.fields.1 = false) :
    handleConsensusOutcome event c =
      applyOutcome event.fields.1 event.fields.2.1 (c.announced event) := by
  show (if c.queues.isConsensusOutcomeApplied event.fields.1 then pure () else do
    emitEvent (.consensusReached event.fields.1 event.fields.2.1 event.fields.2.2)
    applyOutcome event.fields.1 event.fields.2.1 : ConvM P Unit) (c.dropDeadlines event.fields.1) = _
  rw [h, if_neg Bool.false_ne_true]
  rfl

/-- A first outcome without a session, or whose payload does not decode, fails. -/
theorem handleConsensusOutcome_unresolved {event : ConsensusEvent} {c : Conversation P}
    (hfirst : c.queues.isConsensusOutcomeApplied event.fields.1 = false)
    (h : c.resolved event.fields.1 = none) :
    ∃ e, handleConsensusOutcome event c = .error e (c.announced event) := by
  rw [handleConsensusOutcome_first hfirst]
  unfold resolved at h
  rw [hfirst, if_neg Bool.false_ne_true] at h
  unfold applyOutcome
  cases hproposal : P.consensus.getProposal c.consensus event.fields.1 with
  | error e =>
    refine ⟨.consensus e, (bind_error _ _ _ _ _).mpr (.inr ⟨_, _, get_apply _, ?_⟩)⟩
    exact (bind_error _ _ _ _ _).mpr (.inl (ofResult_of_error hproposal _ _))
  | ok proposal =>
    rw [hproposal] at h
    cases hrequest : P.codec.decodeRequest proposal.payload with
    | error e =>
      refine ⟨.message e, (bind_error _ _ _ _ _).mpr (.inr ⟨_, _, get_apply _, ?_⟩)⟩
      refine (bind_error _ _ _ _ _).mpr
        (.inr ⟨proposal, c.announced event, ofResult_of_ok hproposal _ _, ?_⟩)
      exact (bind_error _ _ _ _ _).mpr (.inl (ofResult_of_error hrequest _ _))
    | ok request => simp [Except.toOption, hrequest] at h

/-- A first outcome with a request is handed to the queues and finished. -/
theorem handleConsensusOutcome_resolved {event : ConsensusEvent} {c : Conversation P}
    {request : ConversationUpdateRequest} (h : c.resolved event.fields.1 = some request) :
    handleConsensusOutcome event c = finishOutcome event.fields.1 (c.applied event request).1
      (emergencyScoreOps request event.fields.2.1) (c.handed event request) := by
  unfold resolved at h
  split_ifs at h with hrepeated
  rw [handleConsensusOutcome_first (Bool.eq_false_iff.mpr hrepeated)]
  obtain ⟨proposal, hproposal, hrequest⟩ := Option.bind_eq_some_iff.mp h
  unfold Except.toOption at hproposal hrequest
  split at hproposal
  case h_2 => cases hproposal
  case h_1 p hgot =>
    cases hproposal
    split at hrequest
    case h_2 => cases hrequest
    case h_1 r hdecoded =>
      cases hrequest
      unfold applyOutcome
      refine (bind_run _ (get_apply _)).trans ?_
      refine (bind_run _ (ofResult_of_ok hgot _ _)).trans ?_
      refine (bind_run _ (ofResult_of_ok hdecoded _ _)).trans ?_
      rfl

/-- An outcome without a request to apply drops the deadlines, and is reported if it is the first. -/
theorem after_handleConsensusOutcome_unresolved {event : ConsensusEvent} {c : Conversation P}
    (h : c.resolved event.fields.1 = none) :
    after (handleConsensusOutcome event) c = c.dropDeadlines event.fields.1 ∨
      after (handleConsensusOutcome event) c = c.announced event := by
  cases hrepeated : c.queues.isConsensusOutcomeApplied event.fields.1 with
  | true => exact .inl (after_of_ok (handleConsensusOutcome_repeated hrepeated))
  | false =>
    obtain ⟨e, herror⟩ := handleConsensusOutcome_unresolved hrepeated h
    exact .inr (after_of_error herror)

theorem after_handleConsensusOutcome_resolved {event : ConsensusEvent} {c : Conversation P}
    {request : ConversationUpdateRequest} (h : c.resolved event.fields.1 = some request) :
    after (handleConsensusOutcome event) c = after (finishOutcome event.fields.1
      (c.applied event request).1 (emergencyScoreOps request event.fields.2.1))
        (c.handed event request) := by
  unfold after
  rw [handleConsensusOutcome_resolved h]

/-- A request to apply says that the outcome is the first. -/
theorem not_applied_of_resolved {c : Conversation P} {id : ProposalId}
    {request : ConversationUpdateRequest} (h : c.resolved id = some request) :
    c.queues.isConsensusOutcomeApplied id = false := by
  unfold resolved at h
  split_ifs at h with hrepeated
  exact Bool.eq_false_iff.mpr hrepeated

/-- **Handling an outcome.** Without a request to apply nothing but timers and events change; with
one the queues take it, and the rest runs on the state that leaves. -/
theorem handleConsensusOutcome_after (event : ConsensusEvent) (c : Conversation P) :
    match c.resolved event.fields.1 with
    | none => (after (handleConsensusOutcome event) c).standing = c.standing
    | some request => ∃ d : Conversation P, d.queues = (c.applied event request).2 ∧
        d.mls = c.mls ∧ d.stewardList = c.stewardList ∧
        after (handleConsensusOutcome event) c = after (finishOutcome event.fields.1
          (c.applied event request).1 (emergencyScoreOps request event.fields.2.1)) d := by
  cases hresolved : c.resolved event.fields.1 with
  | none =>
    dsimp only
    rcases after_handleConsensusOutcome_unresolved hresolved with h | h
    · rw [h]
      rfl
    · rw [h]
      exact standing_announced event c
  | some request =>
    exact ⟨c.handed event request, rfl, rfl, rfl, after_handleConsensusOutcome_resolved hresolved⟩

/-- An outcome applies the resolved request to the queues, and leaves the group and the rest of the
approved work alone. -/
theorem handleConsensusOutcome_effect (event : ConsensusEvent) (c : Conversation P) :
    (after (handleConsensusOutcome event) c).mls.publicPart = c.mls.publicPart ∧
    (after (handleConsensusOutcome event) c).queues.ledger =
      match c.resolved event.fields.1 with
      | none => c.queues.ledger
      | some request => (c.applied event request).2.ledger := by
  have hafter := handleConsensusOutcome_after event c
  cases hresolved : c.resolved event.fields.1 with
  | none =>
    rw [hresolved] at hafter
    exact ⟨congrArg (fun s => s.1.group) hafter, congrArg (fun s => s.1.ledger) hafter⟩
  | some request =>
    rw [hresolved] at hafter
    obtain ⟨d, hqueues, hmls, _, hafter⟩ := hafter
    have hframe := frame_finishOutcome event.fields.1 (c.applied event request).1
      (emergencyScoreOps request event.fields.2.1) d
    rw [← hafter] at hframe
    dsimp only
    rw [← hqueues, ← hmls]
    exact ⟨congrArg Membership.group hframe, congrArg Membership.ledger hframe⟩

/-! ## Steps -/

/-- The steps of a conversation. -/
inductive Event (P : Platform)
  | incomingProposal (proposal : Proposal)
  | localProposal (request : ConversationUpdateRequest) (creatorVote : CreatorVote)
  | selfLeave
  | outcome (event : ConsensusEvent)
  | mint
  /-- A finalized round, with the commit it merged and the roster OpenMLS gives the group then. -/
  | round (allowSubset : Bool) (merged : Option (MergedCommit P.mls)) (roster : List Member)
  | updated
  | reconcile
  /-- Anything else: votes, timers, buffers, messages, time. -/
  | environment

def Event.isOutcome : Event P → Bool
  | .outcome _ => true
  | _ => false

/-- The approved work, the public group and the installed list. -/
def basis (c : Conversation P) : (OrderedMap ProposalId ConversationUpdateRequest × Option Bytes ×
    OrderedMap Bytes Nat) × MlsGroup Unit × Option StewardList :=
  (c.queues.ledger, c.mls.publicPart, c.stewardList.list)

inductive Step : Conversation P → Event P → Conversation P → Prop
  | incomingProposal (c : Conversation P) (proposal : Proposal) :
      Step c (.incomingProposal proposal) (after (onIncomingProposal proposal) c)
  | localProposal (c : Conversation P) (request : ConversationUpdateRequest) (v : CreatorVote) :
      Step c (.localProposal request v) (after (initiateProposal request v) c)
  | selfLeave (c : Conversation P) : Step c .selfLeave (after initiateSelfLeave c)
  | outcome (c : Conversation P) (event : ConsensusEvent) :
      Step c (.outcome event) (after (handleConsensusOutcome event) c)
  | mint (c : Conversation P) : Step c .mint (after mintAndBroadcastCandidate c)
  | round {c d : Conversation P} {r : CommitRoundResult P.mls} {allowSubset : Bool}
      (h : finalizeCommitRound allowSubset c.selfMemberId c = .ok r d) :
      Step c (.round allowSubset r.merged d.mls.group.members) d
  | roundFailed {c d : Conversation P} {e : ConversationError} {allowSubset : Bool}
      (h : finalizeCommitRound allowSubset c.selfMemberId c = .error e d) :
      Step c (.round allowSubset none d.mls.group.members) d
  | updated (c : Conversation P) : Step c .updated (after onConversationUpdated c)
  | reconcile (c : Conversation P) : Step c .reconcile (after reconcileStewardList c)
  | environment {c d : Conversation P} (h : d.basis = c.basis) : Step c .environment d

/-- A handler that keeps the standing of the conversation is a step of the environment. -/
theorem Step.of_frame {α : Type} {x : ConvM P α} (h : Frame standing x) (c : Conversation P) :
    Step c .environment (after x c) := by
  have hc := h c
  refine .environment ?_
  unfold basis
  rw [show (after x c).queues.ledger = c.queues.ledger from
      congrArg (fun s => s.1.ledger) hc,
    show (after x c).mls.publicPart = c.mls.publicPart from congrArg (fun s => s.1.group) hc,
    show (after x c).stewardList.list = c.stewardList.list from congrArg Prod.snd hc]

/-- A conversation with nothing tracked, approved or committed. -/
def Fresh (c : Conversation P) : Prop :=
  ∃ id window, c.queues = ConversationQueues.new id window

/-- What a step does to the approved work and the group. -/
inductive Effect (c d : Conversation P) : Event P → Prop
  /-- Neither changes; an outcome has no request to apply. -/
  | kept {e : Event P} (hquiet : ∀ event, e = .outcome event → c.resolved event.fields.1 = none)
      (hledger : d.queues.ledger = c.queues.ledger)
      (hgroup : d.mls.publicPart = c.mls.publicPart) : Effect c d e
  /-- An outcome is applied, over the same group. -/
  | outcome {event : ConsensusEvent} {request : ConversationUpdateRequest}
      (hresolved : c.resolved event.fields.1 = some request)
      (hgroup : d.mls.publicPart = c.mls.publicPart)
      (heffect : OutcomeEffect P.mls c.queues event.fields.1 event.fields.2.1 request
        (c.applied event request).1 d.queues.ledger) : Effect c d (.outcome event)
  /-- A commit is merged. -/
  | merged {allowSubset : Bool} {merged : MergedCommit P.mls}
      {batch : List ConversationUpdateRequest}
      (hmerge : Merges merged.candidate.commitHash (c.epoch + 1) c.roundState.taken d.roundState
        merged.staged batch) :
      Effect c d (.round allowSubset (some merged) d.mls.group.members)

theorem quiet_of_not_outcome {c : Conversation P} {e : Event P} (he : e.isOutcome = false) :
    ∀ event, e = .outcome event → c.resolved event.fields.1 = none := by
  rintro event rfl
  cases he

theorem Effect.of_membership {c d : Conversation P} {e : Event P} (he : e.isOutcome = false)
    (h : d.membership = c.membership) : Effect c d e :=
  .kept (quiet_of_not_outcome he) (congrArg Membership.ledger h) (congrArg Membership.group h)

theorem Effect.of_visible {c d : Conversation P} {e : Event P} (he : e.isOutcome = false)
    (h : d.roundState.visible = c.roundState.taken.visible) : Effect c d e := by
  obtain ⟨hqueues, hgroup⟩ := Prod.mk.inj h
  refine .kept (quiet_of_not_outcome he) ?_ hgroup
  have hqueues : d.queues = c.roundState.taken.queues := hqueues
  rw [hqueues]
  rfl

/-- A round of the conversation is a round of its queues and its group. -/
theorem finalizeCommitRound_roundState (allowSubset : Bool) (self : Bytes) (c : Conversation P) :
    (finalizeCommitRound allowSubset self : ConvM P _) c =
      (onRound (DeMls.finalizeCommitRound c.stewardList c.isInRecoveryMode allowSubset self) :
        ConvM P _) c := rfl

/-- **A step** keeps the approved work and the group, applies one outcome, or merges one commit. -/
theorem Step.effect {c d : Conversation P} {e : Event P} (h : Step c e d) : Effect c d e := by
  cases h with
  | incomingProposal proposal =>
    exact .of_membership rfl (frame_membership (frame_onIncomingProposal proposal) c)
  | localProposal request v =>
    exact .of_membership rfl (frame_membership (frame_initiateProposal request v) c)
  | selfLeave => exact .of_membership rfl (frame_membership frame_initiateSelfLeave c)
  | outcome event =>
    obtain ⟨hgroup, hledger⟩ := handleConsensusOutcome_effect event c
    cases hresolved : c.resolved event.fields.1 with
    | none =>
      rw [hresolved] at hledger
      refine .kept ?_ hledger hgroup
      rintro _ ⟨⟩
      exact hresolved
    | some request =>
      rw [hresolved] at hledger
      refine .outcome hresolved hgroup ?_
      rw [hledger]
      exact (applyConsensusResult_effect _ _ _ _ _).of_marked
  | mint => exact .of_membership rfl (frame_membership frame_mintAndBroadcastCandidate c)
  | round h =>
    rename_i r allowSubset
    rw [finalizeCommitRound_roundState, onRound, zoom_ok] at h
    obtain ⟨t, h, rfl⟩ := h
    cases hmerged : r.merged with
    | none => exact .of_visible rfl (finalizeCommitRound_not_merged h hmerged).1
    | some merged => exact .merged (finalizeCommitRound_merged h hmerged).1
  | roundFailed h =>
    rw [finalizeCommitRound_roundState, onRound, zoom_error] at h
    obtain ⟨e, t, h, _, rfl⟩ := h
    exact .of_visible rfl (finalizeCommitRound_error h)
  | updated => exact .of_membership rfl (frame_onConversationUpdated c)
  | reconcile => exact .of_membership rfl (frame_reconcileStewardList c)
  | environment h =>
    obtain ⟨hledger, hrest⟩ := Prod.mk.inj h
    exact .kept (quiet_of_not_outcome rfl) hledger (Prod.mk.inj hrest).1

end Conversation

end DeMls
