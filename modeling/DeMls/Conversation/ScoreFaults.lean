import DeMls.Conversation.AfterCommit
import DeMls.Conversation.PartialFreeze
import DeMls.Conversation.SyncReplay
import DeMls.Conversation.Twins

/-!
# Failing scores
-/

namespace DeMls

open Program Relation

variable {P : Platform} {α : Type}

namespace Conversation

variable {K : SenderRatchet P.mls} {I : P.scores.Store → Prop}

/-! ## Beside the protocol -/

variable (K I) in
/-- Nothing changed that twins share, and a storage that did not fail does not fail now. -/
structure Offstage (c d : Conversation P) : Prop where
  alike : Alike K d c
  relies : I c.scoring.storage → I d.scoring.storage

theorem offstage_of_path {c d : Conversation P} (h : ReflTransGen (Offstage K I) c d) :
    Offstage K I c d := by
  induction h with
  | refl => exact ⟨.refl c, id⟩
  | tail _ hstep ih => exact ⟨hstep.alike.trans ih.alike, hstep.relies ∘ ih.relies⟩

theorem Offstage.twins {c c' d d' : Conversation P} (hc : Offstage K I c c')
    (hd : Offstage K I d d') (h : Twins K I c d) : Twins K I c' d' :=
  ⟨hc.alike.trans (h.alike.trans hd.alike.symm), hc.relies h.reliable⟩

/-- Such a program leaves twins, whatever it returns. -/
theorem beside_offstage {x : ConvM P α} (hx : Along (Offstage K I) x) :
    Holds (Beside (Twins K I)) x :=
  fun d c h => (offstage_of_path (hx c)).twins (offstage_of_path (hx d)) h

/-- It runs alike on twins where it succeeds on both. -/
theorem twin_offstage {x : ConvM P Unit} (hx : Along (Offstage K I) x)
    (hserved : SucceedsIn (fun c : Conversation P => I c.scoring.storage) x) {d e : Conversation P}
    (h : x d = .ok () e) : Twin (Twins K I) Unit x d := by
  intro c hc
  have hleft := beside_offstage hx d c hc
  obtain ⟨⟨⟩, c', hrun, -⟩ := hserved c hc.reliable
  rw [after_of_ok h, after_of_ok hrun] at hleft
  rw [h, hrun]
  exact .ok hleft

/-- So does one that never fails. -/
theorem twin_offstage_succeeds {x : ConvM P Unit} (hx : Along (Offstage K I) x)
    (hsucceeds : Succeeds x) : Holds (Twin (Twins K I)) x := by
  intro d c hc
  have hleft := beside_offstage hx d c hc
  obtain ⟨⟨⟩, hrun⟩ := hsucceeds c
  obtain ⟨⟨⟩, hrun'⟩ := hsucceeds d
  rw [hrun, hrun']
  exact .ok hleft

/-! ## The scores -/

theorem offstage_onScoring {x : PeerScoringService.ScoringM P.scores α}
    (hx : SucceedsIn (PeerScoringService.Relies I) x) :
    Along (Offstage K I) (onScoring x : ConvM P α) := by
  refine along_step fun c => ?_
  have hset : ∀ s, Alike K { c with scoring := s } c := fun s =>
    ⟨⟨c.mls.group.secrets, s, c.pendingEvents, c.pendingOutbound⟩, rfl, rfl, rfl⟩
  unfold onScoring
  rw [after_zoom]
  refine ⟨hset _, fun hc => ?_⟩
  obtain ⟨_, s, hrun, hs⟩ := hx c.scoring hc
  rw [show after x (scoringPart.get c) = s from after_of_ok hrun]
  exact hs

theorem served_onScoring {x : PeerScoringService.ScoringM P.scores α}
    (hx : SucceedsIn (PeerScoringService.Relies I) x) :
    SucceedsIn (fun c : Conversation P => I c.scoring.storage) (onScoring x : ConvM P α) := by
  intro c hc
  obtain ⟨a, s, hrun, hs⟩ := hx c.scoring hc
  exact ⟨a, { c with scoring := s }, (zoom_ok scoringPart _ _ _ _ _).mpr ⟨s, hrun, rfl⟩, hs⟩

theorem offstage_emitEvent {event : ConversationEvent} (h : event.isProtocol = false) :
    Along (Offstage K I) (emitEvent event : ConvM P Unit) := by
  refine along_step fun c => ⟨⟨⟨c.mls.group.secrets, c.scoring, c.pendingEvents ++ [event],
    c.pendingOutbound⟩, rfl, rfl, ?_⟩, id⟩
  show (c.pendingEvents ++ [event]).filter (·.isProtocol) = c.protocolEvents
  rw [List.filter_append, List.filter_cons_of_neg (by simp [h]), List.filter_nil, List.append_nil]
  rfl

theorem offstage_broadcast (payload : Bytes) :
    Along (Offstage K I) (broadcast payload : ConvM P Unit) :=
  along_step fun c => ⟨⟨⟨c.mls.group.secrets, c.scoring, c.pendingEvents, _⟩, rfl, rfl, rfl⟩, id⟩

theorem offstage_emitScoreChanges (changes : List ScoreChange) :
    Along (Offstage K I) (emitScoreChanges changes : ConvM P Unit) := by
  induction changes with
  | nil => exact along_pure _
  | cons change rest ih => exact along_bind (offstage_emitEvent rfl) fun _ => ih

theorem served_emitScoreChanges (changes : List ScoreChange) :
    SucceedsIn (fun c : Conversation P => I c.scoring.storage)
      (emitScoreChanges changes : ConvM P Unit) := by
  induction changes with
  | nil => exact succeedsIn_pure _
  | cons change rest ih => exact succeedsIn_bind (succeedsIn_modify fun _ h => h) fun _ => ih

variable (hI : Reliable P.scores I)

include hI

theorem offstage_applyScoreOps (ops : List ScoreOp) :
    Along (Offstage K I) (applyScoreOps ops : ConvM P Unit) :=
  along_bind (offstage_onScoring (PeerScoringService.succeedsIn_applyOps hI ops)) fun _ =>
    offstage_emitScoreChanges _

theorem served_applyScoreOps (ops : List ScoreOp) :
    SucceedsIn (fun c : Conversation P => I c.scoring.storage)
      (applyScoreOps ops : ConvM P Unit) :=
  succeedsIn_bind (served_onScoring (PeerScoringService.succeedsIn_applyOps hI ops)) fun _ =>
    served_emitScoreChanges _

theorem offstage_scored (ids : List Bytes) :
    Along (Offstage K I) (addScored ids : ConvM P Unit) ∧
      Along (Offstage K I) (removeScored ids : ConvM P Unit) := by
  induction ids with
  | nil => exact ⟨along_pure _, along_pure _⟩
  | cons id rest ih =>
    exact ⟨along_bind (offstage_onScoring (PeerScoringService.succeedsIn_addMember hI id))
      fun _ => ih.1, along_bind
        (offstage_onScoring (PeerScoringService.succeedsIn_removeMember hI id)) fun _ => ih.2⟩

theorem served_scored (ids : List Bytes) :
    SucceedsIn (fun c : Conversation P => I c.scoring.storage) (addScored ids : ConvM P Unit) ∧
      SucceedsIn (fun c : Conversation P => I c.scoring.storage)
        (removeScored ids : ConvM P Unit) := by
  induction ids with
  | nil => exact ⟨succeedsIn_pure _, succeedsIn_pure _⟩
  | cons id rest ih =>
    exact ⟨succeedsIn_bind (served_onScoring (PeerScoringService.succeedsIn_addMember hI id))
      fun _ => ih.1, succeedsIn_bind
        (served_onScoring (PeerScoringService.succeedsIn_removeMember hI id)) fun _ => ih.2⟩

/-- The scores of a round are applied or not, and the round goes on. -/
theorem twins_applyRoundScores (ops : List ScoreOp) :
    Holds (Twin (Twins K I)) (applyRoundScores ops : ConvM P Unit) := by
  refine twin_offstage_succeeds ?_ (applyRoundScores_succeeds ops)
  unfold applyRoundScores
  refine along_ite (along_pure _) (along_bind (along_attempt (offstage_applyScoreOps hI _)) fun o => ?_)
  cases o with
  | ok _ => exact along_pure _
  | error e => exact offstage_emitEvent rfl

theorem offstage_adoptScores (sync : ConversationSync) :
    Along (Offstage K I) (adoptScores sync : ConvM P Unit) := by
  refine along_bind (offstage_onScoring (succeedsIn_modify fun _ h => h)) fun _ => ?_
  refine along_bind (offstage_onScoring (PeerScoringService.succeedsIn_setDefaultScore hI _))
    fun _ => ?_
  exact along_bind (offstage_onScoring (PeerScoringService.succeedsIn_applySnapshot hI _)) fun _ =>
    offstage_emitScoreChanges _

theorem served_adoptScores (sync : ConversationSync) :
    SucceedsIn (fun c : Conversation P => I c.scoring.storage)
      (adoptScores sync : ConvM P Unit) := by
  refine succeedsIn_bind (served_onScoring (succeedsIn_modify fun _ h => h)) fun _ => ?_
  refine succeedsIn_bind (served_onScoring (PeerScoringService.succeedsIn_setDefaultScore hI _))
    fun _ => ?_
  exact succeedsIn_bind (served_onScoring (PeerScoringService.succeedsIn_applySnapshot hI _))
    fun _ => served_emitScoreChanges _

/-! ## The syncs that are sent -/

theorem offstage_buildConversationSyncPayload :
    Along (Offstage K I) (buildConversationSyncPayload : ConvM P _) := by
  have hsent : ∀ message, Along (Offstage K I)
      (onMls (MlsService.buildMessage message) : ConvM P Bytes) := by
    refine fun message => along_step fun c => ?_
    obtain ⟨secrets, hmls, hrest⟩ := K.alike_buildMessage c.mls message
    have hafter : after (onMls (MlsService.buildMessage message) : ConvM P Bytes) c =
        { c with mls := after (MlsService.buildMessage message) c.mls } := after_zoom _ _ _ c
    rw [hafter, hmls]
    exact ⟨⟨⟨secrets, c.scoring, c.pendingEvents, c.pendingOutbound⟩, rfl, hrest, rfl⟩, id⟩
  unfold buildConversationSyncPayload
  refine along_bind (offstage_onScoring (PeerScoringService.succeedsIn_snapshot hI)) fun _ => ?_
  refine along_bind along_get fun c => ?_
  split
  · exact along_pure _
  · exact along_bind (hsent _) fun _ => along_pure _

theorem offstage_shareConversationSync :
    Along (Offstage K I) (shareConversationSync : ConvM P Unit) := by
  unfold shareConversationSync
  refine along_bind (offstage_buildConversationSyncPayload hI) fun o => ?_
  cases o with
  | none => exact along_pure _
  | some payload => exact offstage_broadcast payload

/-- A welcome goes out with the sync or without it. -/
theorem offstage_welcomeSync (reconciled : Except ConversationError StewardListReconcile) :
    Along (Offstage K I) (match reconciled with
      | .ok _ => attempt buildConversationSyncPayload
      | .error e => pure (.error e) : ConvM P (Except ConversationError (Option Bytes))) := by
  cases reconciled with
  | ok _ => exact along_attempt (offstage_buildConversationSyncPayload hI)
  | error e => exact along_pure _

theorem twins_deliverWelcome (welcome : MemberWelcome) :
    Holds (Twin (Twins K I)) (deliverWelcome welcome : ConvM P Unit) := by
  have hq := moded_twins (K := K) (I := I)
  unfold deliverWelcome
  refine hq.seq (hq.caught hq.reconcileStewardList) fun reconciled => ?_
  refine twin_offstage_succeeds ?_ ?_
  · refine along_bind (offstage_welcomeSync hI reconciled) fun sync => ?_
    cases sync with
    | ok bytes => exact along_bind (offstage_emitEvent rfl) fun _ => offstage_broadcast _
    | error e => exact along_bind (offstage_emitEvent rfl) fun _ =>
        along_bind (offstage_emitEvent rfl) fun _ => offstage_broadcast _
  · refine succeeds_bind ?_ fun sync => ?_
    · cases reconciled with
      | ok _ => exact succeeds_attempt _
      | error e => exact succeeds_pure _
    · cases sync with
      | ok bytes => exact succeeds_bind (succeeds_modify _) fun _ => succeeds_modify _
      | error e => exact succeeds_bind (succeeds_modify _) fun _ =>
          succeeds_bind (succeeds_modify _) fun _ => succeeds_modify _

omit hI in
/-- The scores can be listed. -/
def Lists (c : Conversation P) : Prop := ∃ all, P.scores.allScores c.scoring.storage = .ok all

omit hI in
/-- With the scores listed, a share encrypts one message, or there is nothing to share. -/
theorem shareConversationSync_run {c : Conversation P} (h : c.Lists) :
    (c.stewardList.list = none → (shareConversationSync : ConvM P Unit) c = .ok () c) ∧
      ∀ l, c.stewardList.list = some l → ∃ message, (shareConversationSync : ConvM P Unit) c =
        (onMls (MlsService.buildMessage message) >>= fun payload => broadcast payload :
          ConvM P Unit) c := by
  obtain ⟨all, hall⟩ := h
  have hsnapshot : ∃ snapshot, (onScoring PeerScoringService.snapshot : ConvM P _) c =
      .ok snapshot c := by
    refine ⟨_, (zoom_ok scoringPart _ _ _ _ _).mpr ⟨c.scoring, (bind_run _ (get_apply _)).trans
      ((bind_run _ (PeerScoringService.readStorage_ok.mpr ⟨hall, rfl⟩)).trans rfl), rfl⟩⟩
  obtain ⟨snapshot, hrun⟩ := hsnapshot
  unfold shareConversationSync buildConversationSyncPayload
  simp only [bind_assoc]
  rw [bind_run _ hrun, bind_run _ (get_apply c)]
  constructor
  · intro hnone
    rw [hnone]
    rfl
  · intro l hl
    rw [hl]
    refine ⟨P.codec.encodeApp ⟨some (.conversationSync (c.syncOf l snapshot.diverged))⟩, ?_⟩
    simp only [bind_assoc, pure_bind]
    rfl

/-- **Shares.** With the scores listed, twins share alike. -/
theorem twin_shareConversationSync {d : Conversation P} (h : d.Lists) :
    Twin (Twins K I) Unit (shareConversationSync : ConvM P Unit) d := by
  intro c hc
  have hlisted : c.Lists := hI.allScores _ hc.reliable
  have hsame : c.stewardList = d.stewardList := by
    obtain ⟨v, rfl, -⟩ := hc.alike
    rfl
  obtain ⟨hnone, hsome⟩ := shareConversationSync_run h
  obtain ⟨hnone', hsome'⟩ := shareConversationSync_run hlisted
  cases hlist : d.stewardList.list with
  | none =>
    rw [hnone hlist, hnone' ((congrArg _ hsame).trans hlist)]
    exact .ok hc
  | some l =>
    obtain ⟨message, hrun⟩ := hsome l hlist
    obtain ⟨message', hrun'⟩ := hsome' l ((congrArg _ hsame).trans hlist)
    rw [hrun, hrun']
    exact twins_sendBytes hc message' message

/-! ## Outcomes -/

omit hI in
/-- An election that seats us as the epoch steward is followed by a share: the scores can be
listed. -/
def ElectionSpared (election : StewardElectionProposal) (c : Conversation P) : Prop :=
  ∀ l, c.validateElectionList election = .ok true →
    c.stewardList.installList P election.electionEpoch election.proposedStewards
      election.proposedStewards.length election.retryRound = .ok l →
    ({ c with stewardList := l } : Conversation P).isEpochSteward = true → c.Lists

theorem twin_handleElectionAccepted {election : StewardElectionProposal} {d : Conversation P}
    (h : d.ElectionSpared election) :
    Twin (Twins K I) Unit (handleElectionAccepted election : ConvM P Unit) d := by
  have hq := moded_twins (K := K) (I := I)
  unfold handleElectionAccepted
  refine hq.reads_at (fun _ => rfl) (hq.result_bind fun valid hvalid => ?_)
  refine Compositional.branch (fun _ => hq.done _ d) fun hv => hq.result_bind fun l hl => ?_
  have hround := nextElectionRound_installList hl
  refine hq.bind (hq.list (g := fun _ => l) (fun _ _ => rfl) hround) fun _ e he => ?_
  cases he
  -- Back at work, the node is the steward it was made, and its scores are the ones it had.
  let part := fun c : Conversation P => (c.stewardList, c.queues, c.mls, c.selfMemberId, c.scoring)
  have hresume : Frame part (do
      exitRecoveryMode
      resumeFromReelection : ConvM P Unit) := by
    refine frame_bind (frame_modify fun _ => rfl) fun _ => frame_bind (frame_get _) fun c => ?_
    refine frame_ite ?_ (frame_pure _ _)
    refine frame_bind (frame_modify fun _ => rfl) fun _ => frame_bind ?_ fun _ => frame_modify fun _ => rfl
    exact frame_bind (frame_modify fun _ => rfl) fun _ => frame_pure _ _
  have hresumed : Holds (Twin (Twins K I)) (do
      exitRecoveryMode
      resumeFromReelection : ConvM P Unit) :=
    hq.seq hq.exitRecoveryMode fun _ => hq.resumeFromReelection
  rw [← bind_assoc]
  refine hq.bind (hresumed _) fun _ e he => ?_
  have hpart : part e = part { d with stewardList := l } := hresume.ok he
  have hsteward : e.isEpochSteward = ({ d with stewardList := l } : Conversation P).isEpochSteward := by
    obtain ⟨hlist, hqueues, hmls, hself, -⟩ := by simpa only [part, Prod.mk.injEq] using hpart
    unfold isEpochSteward epoch members
    rw [hlist, hqueues, hmls, hself]
  have hscoring : e.scoring = d.scoring := congrArg (fun t => t.2.2.2.2) hpart
  refine hq.reads_at (fun _ => rfl) (hq.bind ?_ fun shared e' _ => ?_)
  · refine Compositional.branch (fun hours => ?_) fun _ => hq.done _ e
    refine hq.attempt (twin_shareConversationSync hI ?_)
    unfold Lists
    rw [hscoring]
    refine h l ?_ hl (hsteward.symm.trans hours)
    rw [hvalid]
    simpa using hv
  · exact hq.seq hq.processBufferedUpdates (fun _ => hq.result _) e'

omit hI in
theorem applyScoreOps_taken {c : Conversation P} {ops : List ScoreOp} (h : c.ScoresTaken ops) :
    ∃ d, (applyScoreOps ops : ConvM P Unit) c = .ok () d := by
  obtain ⟨changes, s, hscores⟩ := h
  have hrun : (onScoring (PeerScoringService.applyOps ops) : ConvM P _) c =
      .ok changes (scoringPart.set s c) := (zoom_ok _ _ _ _ _ _).mpr ⟨s, hscores, rfl⟩
  obtain ⟨⟨⟩, hemit⟩ := emitScoreChanges_succeeds changes (scoringPart.set s c)
  exact ⟨_, (bind_run _ hrun).trans hemit⟩

theorem twin_applyScoreOps {d : Conversation P} {ops : List ScoreOp} (h : d.ScoresTaken ops) :
    Twin (Twins K I) Unit (applyScoreOps ops : ConvM P Unit) d := by
  obtain ⟨e, hrun⟩ := applyScoreOps_taken h
  exact twin_offstage (offstage_applyScoreOps hI ops) (served_applyScoreOps hI ops) hrun

theorem twin_handleEmergencyScored {d : Conversation P} {id : ProposalId} {ops : List ScoreOp}
    (h : d.ScoresTaken ops) :
    Twin (Twins K I) Unit (handleEmergencyScored id ops : ConvM P Unit) d := by
  have hq := moded_twins (K := K) (I := I)
  refine hq.bind (twin_applyScoreOps hI h) fun _ e _ => ?_
  refine hq.seq (hq.modifyQueues ?_) (fun _ => hq.reads (fun _ _ => rfl) fun c => ?_) e
  · exact fun _ => rfl
  exact Holds.ite (hq.seq twins_startWorking fun _ => hq.emitPhaseChange _) (hq.done _)

omit hI in
/-- What handling this outcome asks of the storage: the scores to share for a steward it seats, and
to take those of a verdict. -/
def OutcomeSpared (event : ConsensusEvent) (c : Conversation P) : Prop :=
  ∀ request, c.resolved event.fields.1 = some request →
    (∀ election, (c.applied event request).1 = .electionAccepted election →
      (after replayEarlyCandidates (c.handed event request)).ElectionSpared election) ∧
    (emergencyScoreOps request event.fields.2.1 ≠ [] →
      c.ScoresTaken (emergencyScoreOps request event.fields.2.1))

theorem twin_followUp {o : ConsensusApplyResult} {d : Conversation P}
    (h : ∀ election, o = .electionAccepted election → d.ElectionSpared election) :
    Twin (Twins K I) Unit (followUp o : ConvM P Unit) d := by
  have hq := moded_twins (K := K) (I := I)
  by_cases haccepted : ∃ election, o = .electionAccepted election
  · obtain ⟨election, rfl⟩ := haccepted
    exact twin_handleElectionAccepted hI (h election rfl)
  · by_cases hrejected : o = .electionRejected
    · subst hrejected
      refine hq.advanceElectionRetry ?_ d
      exact twins_write (fun _ _ => rfl) (fun _ => rfl) fun _ => rfl
    · refine hq.followUp (fun election he => haccepted ⟨election, he⟩) hrejected (fun _ _ => ?_) d
      exact twins_write (fun _ _ => rfl) (fun _ => rfl) fun _ => rfl

omit hI in
theorem twins_announced {c d : Conversation P} (h : Twins K I c d) (event : ConsensusEvent) :
    Twins K I (c.announced event) (d.announced event) := by
  have hq := moded_twins (K := K) (I := I)
  have hprogram : Holds (Twin (Twins K I)) (do
      cancelAutoVote event.fields.1
      unregisterConsensusTimeout event.fields.1
      emitEvent (.consensusReached event.fields.1 event.fields.2.1 event.fields.2.2) :
      ConvM P Unit) :=
    hq.seq (hq.modifyTiming fun _ => rfl) fun _ => hq.seq (hq.modifyTiming fun _ => rfl) fun _ =>
      hq.emitEvent ConversationEvent.noConfusion
  exact (hprogram d c h).after

omit hI in
theorem twins_handed {c d : Conversation P} (h : Twins K I c d) (event : ConsensusEvent)
    (request : ConversationUpdateRequest) :
    Twins K I (c.handed event request) (d.handed event request) := by
  have hannounced := twins_announced h event
  obtain ⟨v, rfl, -⟩ := h.alike
  exact (twins_write (f := fun c => { c with queues := (d.applied event request).2 })
    (fun _ _ => rfl) (fun _ => rfl) (fun _ => rfl) _ _ hannounced).after

theorem twin_finishOutcome {event : ConsensusEvent} {request : ConversationUpdateRequest}
    {d : Conversation P} (hresolved : d.resolved event.fields.1 = some request)
    (h : d.OutcomeSpared event) :
    Twin (Twins K I) Unit (finishOutcome event.fields.1 (d.applied event request).1
      (emergencyScoreOps request event.fields.2.1) : ConvM P Unit) (d.handed event request) := by
  have hq := moded_twins (K := K) (I := I)
  obtain ⟨helection, hscores⟩ := h request hresolved
  unfold finishOutcome
  have hreplay : Holds (Twin (Twins K I)) (replayEarlyCandidates : ConvM P Unit) :=
    hq.queues (fun _ _ => rfl) fun c => pendingUpdates_replayEarlyCandidates c.queues c.mls
  refine hq.bind (hreplay _) fun _ e he => ?_
  cases he
  refine hq.bind (twin_followUp hI helection) fun _ e' hfollowed => ?_
  refine Compositional.branch (fun hops => ?_) fun _ => hq.consensus _ e'
  refine hq.bind (twin_handleEmergencyScored hI ?_) fun _ e'' _ => hq.consensus _ e''
  -- Only an emergency with evidence scores, and its follow-up leaves the scores alone.
  have hevidence : ∃ ev, request.payload = some (.emergencyCriteria (some ev)) := by
    unfold emergencyScoreOps at hops
    split at hops
    · rename_i ev hpayload
      exact ⟨ev, hpayload⟩
    · exact absurd rfl hops
  obtain ⟨ev, hpayload⟩ := hevidence
  have hframe : Frame Conversation.scoring (followUp (d.applied event request).1 : ConvM P Unit) :=
    scoring_followUp (applyConsensusResult_emergency P.mls _ _ _ hpayload)
  have hkept := hframe.ok hfollowed
  unfold ScoresTaken
  rw [show e'.scoring = d.scoring from hkept]
  exact hscores hops

/-- **Outcomes.** Twins handle an outcome alike when the storage serves it. -/
theorem beside_handleConsensusOutcome {event : ConsensusEvent} {d : Conversation P}
    (h : d.OutcomeSpared event) :
    Beside (Twins K I) Unit (handleConsensusOutcome event : ConvM P Unit) d := by
  intro c hc
  have hannounced := twins_announced hc event
  have hdropped : Twins K I (c.dropDeadlines event.fields.1) (d.dropDeadlines event.fields.1) := by
    have hq := moded_twins (K := K) (I := I)
    exact ((hq.timers (g := fun c => (c.dropDeadlines event.fields.1).timing) (fun _ _ => rfl)
      fun _ => rfl) d c hc).after
  have hhanded := fun request => twins_handed hc event request
  obtain ⟨v, rfl, -⟩ := hc.alike
  cases hresolved : d.resolved event.fields.1 with
  | none =>
    cases hrepeated : d.queues.isConsensusOutcomeApplied event.fields.1 with
    | true =>
      rw [after_of_ok (handleConsensusOutcome_repeated hrepeated),
        after_of_ok (handleConsensusOutcome_repeated (c := d.veiled v) hrepeated)]
      exact hdropped
    | false =>
      obtain ⟨e, herror⟩ := handleConsensusOutcome_unresolved hrepeated hresolved
      obtain ⟨e', herror'⟩ :=
        handleConsensusOutcome_unresolved (c := d.veiled v) hrepeated hresolved
      rw [after_of_error herror, after_of_error herror']
      exact hannounced
  | some request =>
    have hagree := twin_finishOutcome hI hresolved h _ (hhanded request)
    rw [← handleConsensusOutcome_resolved hresolved] at hagree
    have hrun : (handleConsensusOutcome event : ConvM P Unit) (d.veiled v) =
        finishOutcome event.fields.1 (d.applied event request).1
          (emergencyScoreOps request event.fields.2.1) ((d.veiled v).handed event request) :=
      handleConsensusOutcome_resolved hresolved
    rw [← hrun] at hagree
    exact hagree.after

end Conversation

end DeMls
