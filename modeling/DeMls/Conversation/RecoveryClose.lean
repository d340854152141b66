import DeMls.Conversation.AfterCommit
import DeMls.Conversation.EntryPoints
import DeMls.Conversation.Proposers
import DeMls.Conversation.Stages

/-!
# Closing the recovery window

A commit that lands in recovery is to be followed by an election: the last step after a merged
commit opens one while the node is in recovery. But the round leaves recovery before it hands the
commit on, so that step finds the window closed. `recovery_election_iff` says that the election it
owes is never opened in that poll.
-/

namespace DeMls

open Program

variable {P : Platform}

/-! ## Elections in flight -/

theorem ConversationQueues.hasElectionInFlight_track (O : OpenMls) (q : ConversationQueues)
    (id : ProposalId) {request : ConversationUpdateRequest}
    (h : (ProposalKind.of request).isStewardElection = false) :
    (q.trackVotingProposal O id request).hasElectionInFlight = q.hasElectionInFlight := by
  unfold trackVotingProposal
  split_ifs with htracked
  · rfl
  · rw [Bool.not_eq_true] at htracked
    unfold hasElectionInFlight OrderedMap.values
    dsimp only
    rw [OrderedMap.entries_insert_of_not_contains _ htracked, List.map_append, List.any_append]
    simp [h]

namespace Conversation

/-- Opening a proposal of another kind opens no election. -/
theorem hasElectionInFlight_initiateProposal {request : ConversationUpdateRequest}
    (h : (ProposalKind.of request).isStewardElection = false) (v : CreatorVote)
    (c : Conversation P) :
    (after (initiateProposal request v) c).queues.hasElectionInFlight =
      c.queues.hasElectionInFlight := by
  have heffect := initiateProposal_effect request v c
  generalize after (initiateProposal request v) c = d at heffect
  have hvoting : d.queues.hasElectionInFlight =
      d.inFlight.tracked.1.values.any fun m => m.kind.isStewardElection := rfl
  rw [hvoting]
  generalize d.inFlight = m at heffect
  cases heffect with
  | refused => rfl
  | failed _ => rfl
  | @opened proposal =>
    have htracked := ConversationQueues.hasElectionInFlight_track P.mls c.queues
      proposal.proposalId h
    unfold trackOwn
    dsimp only
    split_ifs
    · exact htracked
    · exact htracked

/-- Outside re-election, and nobody is voting on a list. -/
structure Unelecting (c : Conversation P) : Prop where
  phase : c.state ≠ .reelection
  idle : c.queues.hasElectionInFlight = false

theorem unelecting_of_flight {c d : Conversation P} (h : d.flight = c.flight)
    (hc : c.Unelecting) : d.Unelecting := by
  obtain ⟨hphase, hidle⟩ := hc
  refine ⟨?_, ?_⟩
  · rw [show d.state = c.state from congrArg Prod.snd h]
    exact hphase
  · rw [← hidle]
    exact congrArg (fun f : InFlight P × ConversationState =>
      f.1.tracked.1.values.any fun m => m.kind.isStewardElection) h

theorem unelecting_flight {α : Type} {x : ConvM P α} (h : Frame flight x) :
    Preserves Unelecting x :=
  fun c hc => unelecting_of_flight (h c) hc

theorem unelecting_proposeAll {requests : List ConversationUpdateRequest}
    (h : ∀ request ∈ requests, (ProposalKind.of request).isStewardElection = false) :
    Preserves Unelecting (proposeAll requests : ConvM P Unit) := by
  induction requests with
  | nil => exact fun _ hc => hc
  | cons request rest ih =>
    rw [List.forall_mem_cons] at h
    intro c hc
    unfold proposeAll
    rw [after_attempted]
    refine ih h.2 _ ⟨?_, ?_⟩
    · rw [aside_state.initiateProposal request .deferred c]
      exact hc.phase
    · rw [hasElectionInFlight_initiateProposal h.1]
      exact hc.idle

/-- Buffered updates are membership changes. -/
theorem actionable_kind {c : Conversation P} {request : ConversationUpdateRequest}
    (h : request ∈ c.actionableBufferedUpdates) :
    (ProposalKind.of request).isStewardElection = false := by
  unfold actionableBufferedUpdates at h
  obtain ⟨e, he, rfl⟩ := List.mem_map.mp h
  obtain ⟨_, hactionable⟩ := List.mem_filter.mp he
  obtain ⟨_, hactionable⟩ := (Bool.and_eq_true _ _).mp hactionable
  unfold ProposalKind.of
  split at hactionable
  · rename_i hpayload
    rw [hpayload]
    rfl
  · rename_i hpayload
    rw [hpayload]
    rfl
  · cases hactionable

/-! ## The drivers after a round -/

/-- Working through the buffered updates opens no election. -/
theorem unelecting_drainBufferedUpdates :
    Preserves Unelecting (drainBufferedUpdates : ConvM P Unit) :=
  preserves_get_bind fun c hc => unelecting_proposeAll (fun _ => actionable_kind) c hc

theorem unelecting_modifyTiming (f : Timing → Timing) :
    Preserves Unelecting (modifyTiming f : ConvM P Unit) :=
  fun _ hc => ⟨hc.phase, hc.idle⟩

theorem unelecting_driveBufferedProposals :
    Preserves Unelecting (driveBufferedProposals : ConvM P Unit) := by
  have hdrain : ∀ f : Timing → Timing, Preserves Unelecting (do
      modifyTiming f
      drainBufferedUpdates : ConvM P Unit) :=
    fun f => preserves_bind (unelecting_modifyTiming f) fun _ => unelecting_drainBufferedUpdates
  unfold driveBufferedProposals
  refine preserves_bind preserves_get fun c => preserves_ite (unelecting_modifyTiming _) ?_
  refine preserves_ite (hdrain _) (preserves_ite (preserves_pure _) ?_)
  split
  · exact unelecting_modifyTiming _
  · exact preserves_ite (preserves_pure _) (hdrain _)

theorem unelecting_driveSyncResend : Preserves Unelecting (driveSyncResend : ConvM P Unit) := by
  unfold driveSyncResend
  refine preserves_bind preserves_get fun c => ?_
  split
  · exact preserves_pure _
  · refine preserves_ite (unelecting_modifyTiming _) (preserves_ite (preserves_pure _) ?_)
    exact preserves_bind (unelecting_modifyTiming _) fun _ =>
      unelecting_flight flight_shareConversationSync

theorem unelecting_driveSyncRequest : Preserves Unelecting (driveSyncRequest : ConvM P Unit) := by
  unfold driveSyncRequest
  refine preserves_bind preserves_get fun c => preserves_ite (unelecting_modifyTiming _) ?_
  refine preserves_ite (preserves_pure _) ?_
  exact preserves_bind (unelecting_modifyTiming _) fun _ => unelecting_flight (flight_sendApp _)

theorem unelecting_startFreezing : Preserves Unelecting (startFreezing : ConvM P _) := by
  unfold startFreezing
  refine preserves_bind preserves_get fun c => preserves_ite ?_ (preserves_pure _)
  exact preserves_bind (fun _ hd => ⟨fun h => (nomatch h), hd.idle⟩) fun _ => preserves_pure _

theorem unelecting_startFreezeOnInactivity :
    Preserves Unelecting (startFreezeOnInactivity : ConvM P Unit) := by
  have hcheck : ∀ approved window,
      Preserves Unelecting (checkStewardInactivity approved window : ConvM P _) := by
    intro approved window
    unfold checkStewardInactivity
    refine preserves_bind preserves_get fun c => preserves_ite (preserves_pure _) ?_
    refine preserves_ite ?_ (preserves_ite (preserves_pure _) unelecting_startFreezing)
    exact preserves_bind (unelecting_modifyTiming _) fun _ => preserves_pure _
  unfold startFreezeOnInactivity
  refine preserves_bind preserves_get fun c => preserves_ite (preserves_pure _) ?_
  refine preserves_bind (hcheck _ _) fun o => ?_
  cases o with
  | none => exact preserves_pure _
  | some event => exact unelecting_flight (flight_onFreezeEntered event)

/-- Outside re-election nothing is retried. -/
theorem unelecting_driveReelectionRetry :
    Preserves Unelecting (driveReelectionRetry : ConvM P Unit) := by
  unfold driveReelectionRetry
  refine preserves_get_bind fun c hc => ?_
  rw [if_pos (.inl hc.phase)]
  exact unelecting_modifyTiming _ c hc

/-- No driver after the round opens an election. -/
theorem unelecting_afterDrivers {c : Conversation P} (h : c.Unelecting) :
    c.afterDrivers.Unelecting :=
  afterDrivers_keeps unelecting_driveBufferedProposals unelecting_driveSyncResend
    unelecting_driveSyncRequest unelecting_startFreezeOnInactivity
    unelecting_driveReelectionRetry h

/-! ## The follow-up of a commit -/

/-- What follows the membership of a merged commit, up to the recovery window. -/
def settleMerge : ConvM P Unit := do
  reconcileMembershipAfterCommit
  stewardListHousekeeping
  processBufferedUpdates

/-- Where the follow-up of an applied round comes to the recovery window: it has rewarded the
committer, handed the welcome over, gone back to work and settled in. -/
def atRecoveryWindow (c : Conversation P) (r : CommitRoundResult P.mls) (t : RoundState P)
    (welcome : Option MemberWelcome) : Conversation P :=
  after settleMerge (after (handOver welcome)
    (after (reward c.isInRecoveryMode r) (roundPart.set t c.freezingState.selecting)))

/-- The operating mode is nothing a steward's duties touch. -/
theorem aloof_mode : Aloof (Conversation.operatingMode : Conversation P → OperatingMode) := by
  constructor
  · constructor <;> intros <;> rfl
  · intros; rfl
  · intros; rfl
  · intros; rfl

variable {ρ : Type} {p : Conversation P → ρ}

theorem Aloof.handOver (hp : Aloof p) (welcome : Option MemberWelcome) :
    Frame p (handOver welcome : ConvM P Unit) := by
  unfold Conversation.handOver
  refine frame_bind ?_ fun _ => frame_bind (frame_modify fun c => ?_) fun _ => ?_
  · cases welcome with
    | none => exact frame_pure _ _
    | some welcome => exact hp.deliverWelcome welcome
  · let timing := { c.timing with reelectionRecovered := false }
    exact (hp.stewardList c.stewardList.resetRetry { c with timing := timing }).trans
      (hp.timing timing c)
  · exact frame_bind hp.startWorking fun _ => hp.emitEvent _

theorem Aloof.settleMerge (hp : Aloof p) : Frame p (settleMerge : ConvM P Unit) :=
  frame_bind hp.reconcileMembershipAfterCommit fun _ =>
    frame_bind hp.stewardListHousekeeping fun _ => hp.processBufferedUpdates

/-- A round of recovery that applied is out of recovery before anything follows. -/
theorem mode_reward (r : CommitRoundResult P.mls) (c : Conversation P) :
    (after (reward true r) c).operatingMode = .normal := by
  have hreported : Succeeds (if r.committedBatch = [] then pure () else
      emitEvent (.commitApplied r.committedBatch) : ConvM P Unit) :=
    succeeds_ite (succeeds_pure _) (succeeds_modify _)
  unfold reward
  rw [after_seq _ (applyRoundScores_succeeds _), after_seq _ hreported]
  rfl

/-- Outside recovery there is no window to close. -/
theorem after_closed {x : ConvM P Unit} {c : Conversation P}
    (h : (after x c).operatingMode = .normal) :
    after (do
      x
      maybeCloseRecoveryWindow) c = after x c := by
  cases hx : x c with
  | error e d => rw [after_bind_error _ hx, after_of_error hx]
  | ok u d =>
    rw [after_of_ok hx] at h ⊢
    rw [after_bind_ok _ hx]
    unfold maybeCloseRecoveryWindow isInRecoveryMode
    rw [after_bind_ok _ (get_apply d), h, if_neg (by decide)]
    rfl

/-- **The window is closed.** What an applied round of recovery leaves is what it has when it comes
to the recovery window. -/
theorem after_recovery_round {c : Conversation P} {s t : RoundState P}
    {r : CommitRoundResult P.mls} {welcome : Option MemberWelcome}
    (hrecovery : c.isInRecoveryMode = true) (hround : c.pollRound = some (s, r, t))
    (happlied : r.outcome = .applied .conversationUpdated welcome) :
    after advanceFreezing c = c.atRecoveryWindow r t welcome := by
  rw [after_round hround, finishRound_after happlied, hrecovery]
  unfold atRecoveryWindow
  rw [hrecovery]
  have hmode : (after settleMerge (after (handOver welcome)
      (after (reward true r) (roundPart.set t c.freezingState.selecting)))).operatingMode =
        .normal := by
    rw [aloof_mode.settleMerge _, aloof_mode.handOver welcome _, mode_reward]
  refine Eq.trans ?_ (after_closed hmode)
  unfold settleMerge housekeep
  rw [bind_assoc, bind_assoc]

/-- It is back at work by then. -/
theorem state_atRecoveryWindow (c : Conversation P) (r : CommitRoundResult P.mls)
    (t : RoundState P) (welcome : Option MemberWelcome) :
    (c.atRecoveryWindow r t welcome).state = .working := by
  have hdone : ∀ d : Conversation P, (after (handOver welcome) d).state = .working := by
    intro d
    unfold handOver
    cases welcome with
    | none => rfl
    | some welcome =>
      rw [after_seq _ (succeeds_deliverWelcome welcome)]
      rfl
  have hsettled : Frame Conversation.state (settleMerge : ConvM P Unit) := by
    refine frame_bind (fun d => congrArg Prod.snd (flight_reconcileMembershipAfterCommit d))
      fun _ => frame_bind (frame_bind (fun d => congrArg Prod.snd (flight_reconcileStewardList d))
        fun o => ?_) fun _ => ?_
    · cases o with
      | settled => exact frame_pure _ _
      | needsElection => exact frame_attempted (aside_state.initiateStewardElection _)
    · exact aside_state.processBufferedUpdates
  exact (hsettled _).trans (hdone _)

/-- An election that recovery asks for is this node's to open: it is the responsible proposer, none
is in flight, and the gate lets it through. -/
def OwesElection (c : Conversation P) : Prop :=
  c.GetsProposal true ∧ ∃ voters,
    (checkProposalAllowed .stewardElection : ConvM P Nat) c = .ok voters c

/-- **Recovery without an election.** A round of recovery that applied is never followed by the
election the node owes: the poll that committed ends with none in flight. -/
theorem recovery_leaves_unelected {c : Conversation P} {fuel : Nat} {s t : RoundState P}
    {r : CommitRoundResult P.mls} {welcome : Option MemberWelcome}
    (hrecovery : (after (tickDeadlines fuel) c).isInRecoveryMode = true)
    (hround : (after (tickDeadlines fuel) c).pollRound = some (s, r, t))
    (happlied : r.outcome = .applied .conversationUpdated welcome)
    (howed : ((after (tickDeadlines fuel) c).atRecoveryWindow r t welcome).OwesElection) :
    (after (poll fuel) c).queues.hasElectionInFlight = false := by
  rw [after_poll, after_recovery_round hrecovery hround happlied,
    (unelecting_afterDrivers ⟨_, howed.1.1⟩).idle]
  rw [state_atRecoveryWindow]
  decide

end Conversation

/-! ## A recovery that commits -/

namespace Ideal

/-- The emergency that opens recovery. -/
def deadlocked : ConversationUpdateRequest :=
  ⟨some (.emergencyCriteria (some ⟨ViolationType.deadlock.toWire, [], [], 1, memberIdOf 1⟩))⟩

/-- Recovery was voted over an approved removal, the node has minted, and the window is over. -/
def recoveryDue : Conversation platform :=
  let c := approve 8 (tracked 8 deadlocked (approve 7 (tracked 7 (.removeMember (memberIdOf 2)) start)))
  { after (Conversation.poll 4) { c with now := seconds 5 } with now := seconds 10 }

/-- The removal is committed in recovery; the committer is the responsible proposer, no vote on a
list is open and the gate is. -/
theorem recoveryDue_commits : ∃ s r t,
    (after (Conversation.tickDeadlines 4) recoveryDue).pollRound = some (s, r, t) ∧
    r.outcome = .applied .conversationUpdated none ∧
    ((after (Conversation.tickDeadlines 4) recoveryDue).atRecoveryWindow r t none).OwesElection := by
  have hround : (after (Conversation.tickDeadlines 4) recoveryDue).pollRound.any fun x =>
      let e := (after (Conversation.tickDeadlines 4) recoveryDue).atRecoveryWindow x.2.1 x.2.2 none
      decide (x.2.1.outcome = .applied .conversationUpdated none) &&
        decide (e.electionDecision true = .ok (.proposed ([0, 1].map memberIdOf) 2 0)) &&
        !e.queues.hasElectionInFlight && !e.queues.partialFreezeBlocks .stewardElection := by
    decide +kernel
  obtain ⟨⟨s, r, t⟩, hpoll, htest⟩ := (Option.any_eq_true _ _).mp hround
  simp only [Bool.and_eq_true, decide_eq_true_eq, Bool.not_eq_true'] at htest
  obtain ⟨⟨⟨happlied, hdecision⟩, hidle⟩, hopen⟩ := htest
  exact ⟨s, r, t, hpoll, happlied, ⟨hidle, _, _, _, hdecision⟩, _,
    Conversation.checkProposalAllowed_working (Conversation.state_atRecoveryWindow _ _ _ _) hopen⟩

end Ideal

/-- The election this recovery owes is not opened in the poll that committed. -/
theorem recovery_unelected : ∃ s r t,
    (after (Conversation.tickDeadlines 4) Ideal.recoveryDue).isInRecoveryMode = true ∧
    (after (Conversation.tickDeadlines 4) Ideal.recoveryDue).pollRound = some (s, r, t) ∧
    r.outcome = .applied .conversationUpdated none ∧
    ((after (Conversation.tickDeadlines 4) Ideal.recoveryDue).atRecoveryWindow r t
      none).OwesElection ∧
    (after (Conversation.poll 4) Ideal.recoveryDue).queues.hasElectionInFlight = false := by
  obtain ⟨s, r, t, hpoll, happlied, howed⟩ := Ideal.recoveryDue_commits
  exact ⟨s, r, t, by decide +kernel, hpoll, happlied, howed, by decide +kernel⟩

/-- The same of every recovery, at this one. -/
theorem recoveryDue_leaves_unelected : ∃ s r t,
    (after (Conversation.tickDeadlines 4) Ideal.recoveryDue).pollRound = some (s, r, t) ∧
    ((after (Conversation.tickDeadlines 4) Ideal.recoveryDue).atRecoveryWindow r t
      none).OwesElection ∧
    (after (Conversation.poll 4) Ideal.recoveryDue).queues.hasElectionInFlight = false := by
  obtain ⟨s, r, t, hpoll, happlied, howed⟩ := Ideal.recoveryDue_commits
  exact ⟨s, r, t, hpoll, howed,
    Conversation.recovery_leaves_unelected (by decide +kernel) hpoll happlied howed⟩

end DeMls
