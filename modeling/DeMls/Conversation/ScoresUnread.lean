import DeMls.Conversation.Drift
import DeMls.Conversation.ScoreFaults
import DeMls.Conversation.Walk

/-!
# Scores are not read
-/

namespace DeMls

open Program Relation

variable {P : Platform} {α : Type}

namespace Conversation

variable {K : SenderRatchet P.mls} {I : P.scores.Store → Prop}

/-! ## The tick -/

/-- A drain asks of the storage what the outcomes it handles ask. -/
def DrainSpared : Nat → Conversation P → Prop
  | 0, _ => True
  | fuel + 1, c =>
    match c.outcomes with
    | [] => True
    | event :: rest => OutcomeSpared event { c with outcomes := rest } ∧
        DrainSpared fuel (after (handleConsensusOutcome event) { c with outcomes := rest })

variable (hI : Reliable P.scores I)

include hI

theorem beside_drainOutcomes (fuel : Nat) {d : Conversation P} (h : d.DrainSpared fuel) :
    Beside (Twins K I) Unit (drainOutcomes fuel : ConvM P Unit) d := by
  induction fuel generalizing d with
  | zero => exact fun _ hc => hc
  | succ fuel ih =>
    unfold DrainSpared at h
    unfold drainOutcomes
    refine beside_read ?_ ?_
    · intro c hc
      obtain ⟨v, rfl, -⟩ := hc.alike
      rfl
    · cases hnext : d.outcomes with
      | nil => exact fun _ hc => hc
      | cons event rest =>
        rw [hnext] at h
        have hpop : Holds (Twin (Twins K I))
            (modify fun c => { c with outcomes := rest } : ConvM P PUnit) :=
          twins_write (fun _ _ => rfl) (fun _ => rfl) fun _ => rfl
        refine beside_bind (hpop d) fun _ e he => ?_
        cases he
        exact beside_attempted (beside_handleConsensusOutcome hI h.1) (ih h.2)

theorem beside_tickDeadlines (fuel : Nat) {d : Conversation P}
    (h : (after (tickDeadlines 0) d).DrainSpared fuel) :
    Beside (Twins K I) Unit (tickDeadlines fuel : ConvM P Unit) d := by
  intro c hc
  rw [after_tickDeadlines fuel c, after_tickDeadlines fuel d]
  exact beside_drainOutcomes hI fuel h _ ((moded_twins.fires twins_sendApp d).beside c hc)

/-! ## The round -/

omit hI in
/-- The storage takes the members of a merge. -/
def MembersTaken (c : Conversation P) : Prop :=
  let delta := c.queues.takeMembershipDelta.1
  ∃ s, (do
    PeerScoringService.removeMembers (delta.removed.map fun m => memberIdOf m.leaf)
    PeerScoringService.addMembers (delta.added.map fun m => memberIdOf m.index) :
    PeerScoringService.ScoringM P.scores Unit) c.scoring = .ok () s

theorem twin_reconcileMembershipAfterCommit {d : Conversation P} (h : d.MembersTaken) :
    Twin (Twins K I) Unit (reconcileMembershipAfterCommit : ConvM P Unit) d := by
  have hq := moded_twins (K := K) (I := I)
  obtain ⟨s, hserved⟩ := h
  obtain ⟨_, s', hremoved, hadded⟩ := (bind_ok _ _ _ _ _).mp hserved
  let d₁ : Conversation P := { d with queues := d.queues.takeMembershipDelta.2 }
  have hrun : (do
      removeScored (d.queues.takeMembershipDelta.1.removed.map fun m => memberIdOf m.leaf)
      addScored (d.queues.takeMembershipDelta.1.added.map fun m => memberIdOf m.index) :
      ConvM P Unit) d₁ = .ok () { d₁ with scoring := s } := by
    rw [removeScored_eq, addScored_eq]
    refine (bind_run _ (onScoring_run (c := d₁) hremoved)).trans ?_
    exact onScoring_run (c := { d₁ with scoring := s' }) hadded
  unfold reconcileMembershipAfterCommit
  have htaken : Holds (Twin (Twins K I))
      (modifyQueues fun q => q.takeMembershipDelta.2 : ConvM P Unit) :=
    hq.modifyQueues fun _ => rfl
  have hexpired : ∀ epoch maxAge, Holds (Twin (Twins K I))
      (modifyQueues fun q => q.expirePendingUpdates epoch maxAge : ConvM P Unit) := fun _ _ =>
    twins_write (fun _ _ => rfl) (fun _ => rfl) fun _ => rfl
  refine hq.reads_at (fun _ => rfl) (hq.bind (htaken d) fun _ e he => ?_)
  cases he
  rw [← bind_assoc]
  refine hq.bind (twin_offstage (along_bind (offstage_scored hI _).2 fun _ =>
    (offstage_scored hI _).1) (succeedsIn_bind (served_scored hI _).2 fun _ =>
      (served_scored hI _).1) hrun) fun _ e _ => ?_
  refine hq.seq (hexpired _ _) (fun _ => ?_) e
  exact Holds.ite (hq.emitEvent ConversationEvent.noConfusion) (hq.done _)

omit hI in
/-- What follows up a round asks of the storage: to take the members of a merge, and the penalty for
a batch that nobody committed. -/
def FollowUpSpared (inRecovery hasProposals : Bool) (r : CommitRoundResult P.mls)
    (c : Conversation P) : Prop :=
  (∀ welcome, r.outcome = .applied .conversationUpdated welcome →
    (after (handOver welcome) (after (reward inRecovery r) c)).MembersTaken) ∧
  (r.outcome = .noCandidate → inRecovery = false → hasProposals = true →
    ∀ steward, (after (reward inRecovery r) c).absentSteward = some steward →
      (after (reward inRecovery r) c).ScoresTaken [⟨steward, .censorshipInactivity⟩])

omit hI in
/-- And so does a poll whose round finalizes. -/
def RoundSpared (c : Conversation P) : Prop :=
  ∀ s r t, c.pollRound = some (s, r, t) → FollowUpSpared c.isInRecoveryMode
    (decide (0 < c.freezingState.queues.approvedProposalsCount)) r
    (roundPart.set t c.freezingState.selecting)

theorem twins_reward (inRecovery : Bool) (r : CommitRoundResult P.mls) :
    Holds (Twin (Twins K I)) (reward inRecovery r : ConvM P Unit) := by
  have hq := moded_twins (K := K) (I := I)
  refine hq.seq (twins_applyRoundScores hI _) fun _ => ?_
  refine hq.seq (Holds.ite (hq.done _) (hq.emitEvent ConversationEvent.noConfusion)) fun _ => ?_
  cases inRecovery <;> exact twins_write (fun _ _ => rfl) (fun _ => rfl) fun _ => rfl

theorem twins_welcome (welcome : Option MemberWelcome) :
    Holds (Twin (Twins K I)) (match welcome with
      | some welcome => deliverWelcome welcome
      | none => pure () : ConvM P Unit) := by
  cases welcome with
  | some welcome => exact twins_deliverWelcome hI welcome
  | none => exact compositional_twins.done _

theorem twins_handOver (welcome : Option MemberWelcome) :
    Holds (Twin (Twins K I)) (handOver welcome : ConvM P Unit) := by
  have hq := moded_twins (K := K) (I := I)
  refine hq.seq (twins_welcome hI welcome) fun _ => ?_
  refine hq.seq (twins_write (fun _ _ => rfl) (fun _ => rfl) fun _ => rfl) fun _ => ?_
  exact hq.seq twins_startWorking fun _ => hq.emitEvent ConversationEvent.noConfusion

omit hI in
theorem twins_housekeep : Holds (Twin (Twins K I)) (housekeep : ConvM P Unit) := by
  have hq := moded_twins (K := K) (I := I)
  exact hq.seq hq.stewardListHousekeeping fun _ => hq.seq hq.processBufferedUpdates fun _ =>
    hq.maybeCloseRecoveryWindow

theorem twin_finishNoCandidate {hasProposals : Bool} {d : Conversation P}
    (h : hasProposals = true → ∀ steward, d.absentSteward = some steward →
      d.ScoresTaken [⟨steward, .censorshipInactivity⟩]) :
    Twin (Twins K I) _ (finishNoCandidate hasProposals : ConvM P _) d := by
  have hq := moded_twins (K := K) (I := I)
  unfold finishNoCandidate
  refine Compositional.branch (fun hproposals => ?_) fun _ => ?_
  · refine hq.bind (twins_startReelection d) fun event e he => ?_
    cases he
    refine hq.reads_at (fun _ => rfl) (hq.bind ?_ fun _ e _ => ?_)
    · split
      · rename_i steward hsteward
        exact twin_applyScoreOps hI (h hproposals steward hsteward)
      · exact hq.done _ _
    · exact hq.seq (hq.emitEvent ConversationEvent.noConfusion) (fun _ => hq.seq
        (hq.caught (hq.initiateStewardElection _)) fun _ => hq.done _) e
  · refine hq.seq (hq.modifyQueues ?_) (fun _ => hq.seq twins_startWorking fun _ => ?_) d
    · exact fun _ => rfl
    exact hq.seq (hq.emitEvent ConversationEvent.noConfusion) fun _ => hq.done _

/-- **The follow-up of a round.** -/
theorem beside_finishRound {inRecovery hasProposals : Bool} {r : CommitRoundResult P.mls}
    {d : Conversation P} (hresult : r.outcome = .noCandidate ∨
      ∃ verdict welcome, r.outcome = .applied (leaveOrUpdate verdict) welcome)
    (h : FollowUpSpared inRecovery hasProposals r d) :
    Beside (Twins K I) _ (finishRound inRecovery hasProposals r : ConvM P _) d := by
  have hq := moded_twins (K := K) (I := I)
  obtain ⟨hmerge, hpenalty⟩ := h
  rcases hresult with hnone | ⟨_ | _, welcome, hmerged⟩
  · unfold finishRound
    refine beside_bind (twins_applyRoundScores hI _ d) fun _ e he => ?_
    refine beside_bind (Holds.ite (hq.done _) (hq.emitEvent ConversationEvent.noConfusion) e)
      fun _ e' he' => ?_
    rw [hnone]
    dsimp only
    refine Compositional.branch (fun _ => (twins_finishRecoveryRound _ e').beside) fun hnormal => ?_
    have hnormal : inRecovery = false := Bool.eq_false_iff.mpr hnormal
    subst hnormal
    have hrewarded : after (reward false r) d = e' := by
      unfold reward
      rw [after_bind_ok _ he, after_bind_ok _ he']
      rfl
    rw [hrewarded] at hpenalty
    exact (twin_finishNoCandidate hI (hpenalty hnone rfl)).beside
  · intro c hc
    rw [finishRound_after hmerged, finishRound_after hmerged]
    have hrewarded := (twins_reward hI inRecovery r d).beside c hc
    have hhanded := (twins_handOver hI welcome _).beside _ hrewarded
    refine (hq.bind ?_ fun _ e _ => twins_housekeep e : Twin _ _ _ _).beside _ hhanded
    exact twin_reconcileMembershipAfterCommit hI (hmerge welcome hmerged)
  · unfold finishRound
    refine Twin.beside (hq.seq (twins_applyRoundScores hI _) (fun _ => ?_) d)
    refine hq.seq (Holds.ite (hq.done _) (hq.emitEvent ConversationEvent.noConfusion)) fun _ => ?_
    rw [hmerged]
    dsimp only
    unfold finishApplied
    refine hq.seq ?_ fun _ => hq.seq (twins_welcome hI welcome) fun _ => ?_
    · cases inRecovery <;> exact twins_write (fun _ _ => rfl) (fun _ => rfl) fun _ => rfl
    · refine hq.seq (hq.caught (hq.seq hq.prepareSelfLeave fun _ => hq.done _)) fun o => ?_
      cases o with
      | ok outcome => exact hq.done _
      | error e => exact hq.done _

omit hI in
/-- What twins share of what a round reads. -/
theorem Twins.reads {c d : Conversation P} (h : Twins K I c d) : c.stewardList = d.stewardList ∧
    c.isInRecoveryMode = d.isInRecoveryMode ∧ c.selfMemberId = d.selfMemberId ∧
      c.queues = d.queues := by
  obtain ⟨⟨v, rfl, -⟩, -⟩ := h
  exact ⟨rfl, rfl, rfl, rfl⟩

/-- **Selection.** Twins finalize one round and follow it up. -/
theorem beside_selectAndFinalize {inRecovery : Bool} {d : Conversation P}
    (h : ∀ r t, DeMls.finalizeCommitRound d.stewardList d.isInRecoveryMode
        (inRecovery || d.stewardList.config.allowSubsetCandidates) d.selfMemberId d.roundState =
          .ok r t → FollowUpSpared inRecovery (decide (0 < d.queues.approvedProposalsCount)) r
            (roundPart.set t d.selecting)) :
    Beside (Twins K I) _ (selectAndFinalize inRecovery : ConvM P _) d := by
  have hq := moded_twins (K := K) (I := I)
  intro c hc
  have hselecting : Twins K I c.selecting d.selecting := by
    have hprogram : Holds (Twin (Twins K I)) (do
        modify fun c => { c with
          timing := { c.timing with lastCommitRoundProgress := none }
          state := .selection }
        emitEvent (.phaseChange .selection) : ConvM P Unit) :=
      hq.seq (twins_write (fun _ _ => rfl) (fun _ => rfl) fun _ => rfl) fun _ =>
        hq.emitEvent ConversationEvent.noConfusion
    exact (hprogram d).beside c hc
  have hround := K.finalizeCommitRound d.stewardList d.isInRecoveryMode
    (inRecovery || d.stewardList.config.allowSubsetCandidates) d.selfMemberId d.roundState
    c.roundState hc.roundState
  obtain ⟨hlist, hmode, hself, hqueues⟩ := hc.reads
  rw [selectAndFinalize_after, selectAndFinalize_after, hlist, hmode, hself, hqueues]
  generalize DeMls.finalizeCommitRound _ _ _ _ c.roundState = u at hround ⊢
  cases hv : DeMls.finalizeCommitRound d.stewardList d.isInRecoveryMode
      (inRecovery || d.stewardList.config.allowSubsetCandidates) d.selfMemberId d.roundState with
  | ok r t =>
    rw [hv] at hround
    cases hround with
    | ok hstates =>
      exact beside_finishRound hI (finalizeCommitRound_outcome hv) (h r t hv) _
        (hselecting.withRound hstates)
  | error e t =>
    rw [hv] at hround
    cases hround with
    | error hstates =>
      exact (hq.seq (hq.emitEvent ConversationEvent.noConfusion)
        (fun _ => twins_recoverFromFinalizeError) _).beside _ (hselecting.withRound hstates)

/-- **The round.** -/
theorem beside_advanceFreezing {d : Conversation P} (h : d.RoundSpared) :
    Beside (Twins K I) _ (advanceFreezing : ConvM P _) d := by
  have hq := moded_twins (K := K) (I := I)
  unfold advanceFreezing
  refine beside_read ?_ (Compositional.branch (fun _ => ?_) fun hstate => ?_)
  · intro c hc
    obtain ⟨v, rfl, -⟩ := hc.alike
    rfl
  · refine Twin.beside (hq.seq ?_ (fun _ => hq.done _) d)
    exact hq.modifyTiming fun _ => rfl
  · refine beside_bind (Holds.ite hq.maybeAutoCommitRecovery (hq.done _) d) fun _ e he => ?_
    have hfreezing : e = d.freezingState := (after_of_ok he).symm
    subst hfreezing
    refine beside_read ?_ (Compositional.branch (fun hover => ?_) fun _ =>
      (hq.reportProgress _).beside)
    · intro c hc
      obtain ⟨v, rfl, -⟩ := hc.alike
      rfl
    · refine beside_selectAndFinalize hI fun r t hfinalized => h d.freezingState.roundState r t ?_
      unfold pollRound
      rw [if_pos ⟨not_not.mp hstate, hover⟩, hfinalized]

/-! ## A poll -/

theorem beside_driveSyncResend : Holds (Beside (Twins K I)) (driveSyncResend : ConvM P Unit) := by
  have hdisarm : Holds (Twin (Twins K I)) (modifyTiming fun t => { t with
      syncResendAnchor := none } : ConvM P Unit) := moded_twins.modifyTiming fun _ => rfl
  intro d
  unfold driveSyncResend
  refine beside_read ?_ ?_
  · intro c hc
    obtain ⟨v, rfl, -⟩ := hc.alike
    rfl
  · cases d.timing.syncResendAnchor with
    | none => exact fun _ hc => hc
    | some anchor =>
      refine Compositional.branch (fun _ => (hdisarm d).beside) fun _ => ?_
      refine Compositional.branch (fun _ _ hc => hc) fun _ => ?_
      refine beside_bind (hdisarm d) fun _ e _ => ?_
      exact beside_offstage (offstage_shareConversationSync hI) e

omit hI in
/-- What a poll asks of the storage: for the outcomes it drains, and for the round. -/
def PollSpared (fuel : Nat) (c : Conversation P) : Prop :=
  (after (tickDeadlines 0) c).DrainSpared fuel ∧ (after (tickDeadlines fuel) c).RoundSpared

/-- **Polls.** -/
theorem beside_poll {fuel : Nat} {d : Conversation P} (h : d.PollSpared fuel) :
    Beside (Twins K I) _ (poll fuel : ConvM P _) d := by
  have hq := moded_twins (K := K) (I := I)
  have hbump : Holds (Twin (Twins K I))
      (modify fun c => { c with stewardList := c.stewardList.bumpRetry } : ConvM P PUnit) :=
    twins_write (fun _ _ => rfl) (fun _ => rfl) fun _ => rfl
  intro c hc
  rw [after_poll, after_poll]
  have hticked := beside_tickDeadlines hI fuel h.1 c hc
  have hround := beside_advanceFreezing hI h.2 _ hticked
  have hbuffered := (hq.driveBufferedProposals _).beside _ hround
  have hresent := beside_driveSyncResend hI _ _ hbuffered
  have hrequested := (hq.driveSyncRequest _).beside _ hresent
  have hfrozen := (hq.startFreezeOnInactivity _).beside _ hrequested
  exact (hq.driveReelectionRetry hbump _).beside _ hfrozen

/-! ## Packets -/

theorem twin_onConversationSync {sync : ConversationSync} {d : Conversation P}
    (h : d.Takes sync → d.ScoresServed sync) :
    Twin (Twins K I) Unit (onConversationSync sync : ConvM P Unit) d := by
  have hq := moded_twins (K := K) (I := I)
  intro c hc
  have hanswered : Twins K I c.answeredSync d.answeredSync := by
    have hprogram : Holds (Twin (Twins K I)) (modifyTiming fun t => { t with
        syncResendAnchor := none } : ConvM P Unit) := hq.modifyTiming fun _ => rfl
    exact (hprogram d c hc).after
  obtain ⟨v, rfl, -⟩ := hc.alike
  by_cases htakes : d.Takes sync
  · obtain ⟨e, hadopt⟩ := (adoptScores_ok_iff sync (d.answeredSync.seated sync)).mpr (h htakes)
    have hseated : Twins K I ((d.veiled v).answeredSync.seated sync)
        (d.answeredSync.seated sync) := by
      have hprogram : Holds (Twin (Twins K I)) (modify fun c => c.seated sync : ConvM P PUnit) :=
        twins_write (fun _ _ => rfl) (fun _ => rfl) fun _ => rfl
      exact (hprogram d.answeredSync _ hanswered).after
    have hrest : Holds (Twin (Twins K I)) (do
        modify fun c => { c with config := syncedConfig c.config sync }
        emitEvent .conversationSyncApplied : ConvM P Unit) :=
      hq.seq (twins_write (fun _ _ => rfl) (fun _ => rfl) fun _ => rfl) fun _ =>
        hq.emitEvent ConversationEvent.noConfusion
    have hadopted : Twin (Twins K I) Unit (adoptScores sync) (d.answeredSync.seated sync) :=
      twin_offstage (offstage_adoptScores hI sync) (served_adoptScores hI sync) hadopt
    rw [onConversationSync_takes htakes, onConversationSync_takes (c := d.veiled v) htakes]
    exact hq.bind hadopted (fun _ e _ => hrest e) _ hseated
  · rw [onConversationSync_eq, onConversationSync_eq]
    change Agree _ (if d.RefusesSync sync then _ else _) _
    split_ifs with hrefuses
    · exact .ok hanswered
    · rw [show validateConversationSync P (d.veiled v).conversationId sync (d.veiled v).epoch
        (d.veiled v).members = validateConversationSync P d.conversationId sync d.epoch d.members
          from rfl]
      cases hvalid : validateConversationSync P d.conversationId sync d.epoch d.members with
      | error e => exact .error hanswered
      | ok valid =>
        cases valid with
        | false => exact .ok hanswered
        | true => exact absurd ⟨hrefuses, hvalid⟩ htakes

theorem beside_onConversationSyncRequest :
    Holds (Beside (Twins K I)) (onConversationSyncRequest : ConvM P Unit) := by
  have hq := moded_twins (K := K) (I := I)
  have hdisarm : Holds (Twin (Twins K I)) (modifyTiming fun t => { t with
      syncResendAnchor := none } : ConvM P Unit) := hq.modifyTiming fun _ => rfl
  intro d
  have harm : Holds (Twin (Twins K I)) (modifyTiming fun t => { t with
      syncResendAnchor := some d.now } : ConvM P Unit) := hq.modifyTiming fun _ => rfl
  unfold onConversationSyncRequest
  refine beside_read ?_ (Compositional.branch (fun _ => ?_) fun _ => ?_)
  · intro c hc
    obtain ⟨v, rfl, -⟩ := hc.alike
    rfl
  · refine beside_bind (hdisarm d) fun _ e _ => ?_
    exact beside_offstage (offstage_shareConversationSync hI) e
  · exact (Holds.ite harm (hq.done _) d).beside

omit hI in
/-- What a packet asks of the storage: to take the scores of a sync that the node takes. -/
def PacketSpared (payload : Bytes) (c : Conversation P) : Prop :=
  ∀ sync d, (decodeInbound payload : ConvM P _) c = .ok (.conversationSyncReceived sync) d →
    d.Takes sync → d.ScoresServed sync

theorem beside_dispatchInboundResult {result : ProcessResult}
    (hresult : result ≠ .conversationUpdated) {d : Conversation P}
    (h : ∀ sync, result = .conversationSyncReceived sync → d.Takes sync → d.ScoresServed sync) :
    Beside (Twins K I) _ (dispatchInboundResult result : ConvM P _) d := by
  have hq := moded_twins (K := K) (I := I)
  have hanswered : ∀ {x : ConvM P Unit} {o : DispatchOutcome}, Holds (Twin (Twins K I)) x →
      Beside (Twins K I) _ (x >>= fun _ => pure o) d := fun hx =>
    (hq.seq hx fun _ => hq.done _ : Holds _ _) d |>.beside
  cases result with
  | appMessage message sender => exact hanswered (hq.emitEvent ConversationEvent.noConfusion)
  | proposal proposal => exact hanswered (hq.onIncomingProposal buffers_twins _)
  | vote vote => exact hanswered (hq.forwardIncomingVote _)
  | membershipChangeReceived request => exact hanswered (hq.handleIncomingUpdateRequest buffers_twins _)
  | conversationUpdated => exact absurd rfl hresult
  | leaveConversation => exact hanswered hq.prepareSelfLeave
  | commitCandidateReceived sender => exact hanswered hq.onCommitCandidateReceived
  | conversationSyncReceived sync =>
    refine (hq.bind (twin_onConversationSync hI (h sync rfl)) fun _ e _ => ?_ : Twin _ _ _ _).beside
    exact hq.done _ e
  | conversationSyncRequested sender =>
    exact beside_dropped (fun _ => frame_pure _ _) (beside_onConversationSyncRequest hI d)
  | welcomeBroadcastReceived welcome => exact hanswered (hq.emitEvent ConversationEvent.noConfusion)
  | noop reason => exact (hq.done _ d).beside

/-- **Packets.** -/
theorem beside_processInbound {sender payload : Bytes} {d : Conversation P}
    (h : sender ≠ d.appId → d.PacketSpared payload) :
    Beside (Twins K I) _ (processInbound sender payload : ConvM P _) d := by
  have hq := moded_twins (K := K) (I := I)
  unfold processInbound
  refine beside_read ?_ (Compositional.branch (fun _ => (hq.done _ d).beside) fun hpeer => ?_)
  · intro c hc
    obtain ⟨v, rfl, -⟩ := hc.alike
    rfl
  · refine beside_bind (hq.decodeInbound payload d) fun result e hdecoded => ?_
    refine beside_dispatchInboundResult hI (yields_decodeInbound payload d _ e hdecoded) ?_
    rintro sync rfl
    exact h hpeer sync e hdecoded

/-- The sync of a welcome. -/
theorem beside_applyWelcomeSync {syncBytes : Bytes} {d : Conversation P}
    (h : syncBytes ≠ [] → d.PacketSpared syncBytes) :
    Beside (Twins K I) _ (applyWelcomeSync syncBytes : ConvM P _) d := by
  have hq := moded_twins (K := K) (I := I)
  unfold applyWelcomeSync
  refine Compositional.branch (fun _ => (hq.emitEvent ConversationEvent.noConfusion d).beside)
    fun hsync => ?_
  refine beside_bind (hq.decodeInbound syncBytes d) fun result e hdecoded => ?_
  refine beside_dropped (fun _ => frame_pure _ _) ?_
  refine beside_dispatchInboundResult hI (yields_decodeInbound syncBytes d _ e hdecoded) ?_
  rintro sync rfl
  exact h hsync sync e hdecoded

end Conversation

end DeMls
