import DeMls.Conversation.Turns

/-!
# A poll in stages

What a poll leaves is what its drivers leave one after the other (`after_poll`), and the round is
cut at its own branches (`after_advanceFreezing`): no round, still collecting, or a finalized round
with its follow-up (`after_round`).
-/

namespace DeMls

open Program

variable {P : Platform} {α : Type}

namespace Conversation

/-! ## The tick -/

theorem castAll_succeeds (due : List (ProposalId × AutoVoteEntry)) :
    Succeeds (castAll due : ConvM P Unit) := by
  induction due with
  | nil => exact succeeds_pure _
  | cons e rest ih => exact succeeds_bind (succeeds_attempt _) fun _ => ih

theorem resolveOnTimeout_succeeds (id : ProposalId) :
    Succeeds (resolveOnTimeout id : ConvM P Unit) := by
  unfold resolveOnTimeout
  refine succeeds_get_bind fun c => succeeds_ite (succeeds_pure _) ?_
  exact succeeds_bind (succeeds_attempt _) fun _ => succeeds_pure _

theorem resolveAll_succeeds (due : List (ProposalId × Nat)) :
    Succeeds (resolveAll due : ConvM P Unit) := by
  induction due with
  | nil => exact succeeds_pure _
  | cons e rest ih => exact succeeds_bind (resolveOnTimeout_succeeds _) fun _ => ih

theorem drainOutcomes_succeeds (fuel : Nat) : Succeeds (drainOutcomes fuel : ConvM P Unit) := by
  induction fuel with
  | zero => exact succeeds_pure _
  | succ fuel ih =>
    unfold drainOutcomes
    refine succeeds_get_bind fun c => ?_
    cases c.outcomes with
    | nil => exact succeeds_pure _
    | cons event rest =>
      exact succeeds_bind (succeeds_modify _) fun _ =>
        succeeds_bind (succeeds_attempt _) fun _ => ih

/-- A tick never fails: every deadline and every outcome is handled for its effect. -/
theorem tickDeadlines_succeeds (fuel : Nat) : Succeeds (tickDeadlines fuel : ConvM P Unit) := by
  unfold tickDeadlines
  refine succeeds_get_bind fun c => succeeds_bind (succeeds_modify _) fun _ => ?_
  refine succeeds_bind (castAll_succeeds _) fun _ => ?_
  exact succeeds_bind (resolveAll_succeeds _) fun _ => drainOutcomes_succeeds fuel

/-- A tick fires what is due, and drains what that leaves. -/
theorem after_tickDeadlines (fuel : Nat) (c : Conversation P) :
    after (tickDeadlines fuel) c = after (drainOutcomes fuel) (after (tickDeadlines 0) c) := by
  have hfires : ∀ f : Timing → Timing, Succeeds (modifyTiming f : ConvM P Unit) :=
    fun _ => succeeds_modify _
  unfold tickDeadlines
  rw [after_bind_ok _ (get_apply c), after_bind_ok _ (get_apply c), after_seq _ (hfires _),
    after_seq _ (hfires _), after_seq _ (castAll_succeeds _), after_seq _ (castAll_succeeds _),
    after_seq _ (resolveAll_succeeds _), after_seq _ (resolveAll_succeeds _)]
  rfl

/-! ## The drivers -/

/-- What the drivers after the round leave. -/
def afterDrivers (c : Conversation P) : Conversation P :=
  after driveReelectionRetry <| after startFreezeOnInactivity <| after driveSyncRequest <|
    after driveSyncResend <| after driveBufferedProposals c

/-- **Polls.** A tick, the round, the other drivers: each starts from what the one before left. -/
theorem after_poll (fuel : Nat) (c : Conversation P) :
    after (poll fuel) c = (after advanceFreezing (after (tickDeadlines fuel) c)).afterDrivers := by
  unfold poll
  rw [after_seq _ (tickDeadlines_succeeds fuel)]
  obtain ⟨r, hround⟩ : ∃ r, (attempt advanceFreezing : ConvM P _) (after (tickDeadlines fuel) c) =
      .ok r (after advanceFreezing (after (tickDeadlines fuel) c)) := attempt_total _ _
  rw [after_bind_ok _ hround, after_attempted, after_attempted, after_attempted, after_attempted,
    after_attempted]
  rfl

/-- A poll never fails: each driver's error is logged only. -/
theorem poll_succeeds (fuel : Nat) : Succeeds (poll fuel : ConvM P PollOutcome) := by
  unfold poll
  refine succeeds_bind (tickDeadlines_succeeds fuel) fun _ => ?_
  refine succeeds_bind (succeeds_attempt _) fun _ => succeeds_bind (succeeds_attempt _) fun _ => ?_
  refine succeeds_bind (succeeds_attempt _) fun _ => succeeds_bind (succeeds_attempt _) fun _ => ?_
  refine succeeds_bind (succeeds_attempt _) fun _ => succeeds_bind (succeeds_attempt _) fun _ => ?_
  exact succeeds_get_bind fun c => succeeds_pure _

/-- What the drivers keep, a poll keeps. -/
theorem afterDrivers_keeps {I : Conversation P → Prop}
    (hbuffered : Preserves I (driveBufferedProposals : ConvM P Unit))
    (hresend : Preserves I (driveSyncResend : ConvM P Unit))
    (hrequest : Preserves I (driveSyncRequest : ConvM P Unit))
    (hinactivity : Preserves I (startFreezeOnInactivity : ConvM P Unit))
    (hretry : Preserves I (driveReelectionRetry : ConvM P Unit)) {c : Conversation P} (h : I c) :
    I c.afterDrivers :=
  hretry _ (hinactivity _ (hrequest _ (hresend _ (hbuffered _ h))))

/-! ## The round -/

theorem freezingState_run (c : Conversation P) :
    (if c.isInRecoveryMode then maybeAutoCommitRecovery else pure () : ConvM P Unit) c =
      .ok () c.freezingState := by
  obtain ⟨⟨⟩, h⟩ := succeeds_ite (b := c.isInRecoveryMode = true)
    (maybeAutoCommitRecovery_succeeds (P := P)) (succeeds_pure ()) c
  exact h

/-- The three ways a round can go. -/
theorem after_advanceFreezing (c : Conversation P) : after advanceFreezing c =
    if c.state ≠ .freezing then
      { c with timing := { c.timing with lastCommitRoundProgress := none } }
    else if c.freezingState.roundOver = true then
      after (selectAndFinalize c.isInRecoveryMode) c.freezingState
    else after reportProgress c.freezingState := by
  unfold advanceFreezing
  rw [after_bind_ok _ (get_apply c)]
  by_cases hstate : c.state ≠ .freezing
  · rw [if_pos hstate, if_pos hstate]
    rfl
  · rw [if_neg hstate, if_neg hstate, after_bind_ok _ (freezingState_run c),
      after_bind_ok _ (get_apply _)]
    by_cases hover : c.freezingState.roundOver = true
    · rw [if_pos hover, if_pos hover]
    · rw [if_neg hover, if_neg hover]

/-- A round that finalized is followed up. -/
theorem after_round {c : Conversation P} {s t : RoundState P} {r : CommitRoundResult P.mls}
    (h : c.pollRound = some (s, r, t)) : after advanceFreezing c =
      after (finishRound c.isInRecoveryMode
          (decide (0 < c.freezingState.queues.approvedProposalsCount)) r)
        (roundPart.set t c.freezingState.selecting) := by
  unfold pollRound at h
  split_ifs at h with hover
  rw [after_advanceFreezing, if_neg (not_not.mpr hover.1), if_pos hover.2, selectAndFinalize_after]
  cases hfin : DeMls.finalizeCommitRound c.freezingState.stewardList
      c.freezingState.isInRecoveryMode
      (c.isInRecoveryMode || c.freezingState.stewardList.config.allowSubsetCandidates)
      c.freezingState.selfMemberId c.freezingState.roundState with
  | error e u => simp [hfin] at h
  | ok r' u =>
    rw [hfin] at h
    cases h
    rfl

/-- A round that is over and finalizes nothing is recovered from. -/
theorem after_unfinalized {c : Conversation P} (h : c.pollRound = none)
    (hstate : c.state = .freezing) (hover : c.freezingState.roundOver = true) :
    ∃ e t, DeMls.finalizeCommitRound c.freezingState.stewardList c.freezingState.isInRecoveryMode
        (c.isInRecoveryMode || c.freezingState.stewardList.config.allowSubsetCandidates)
        c.freezingState.selfMemberId c.freezingState.roundState = .error e t ∧
      after advanceFreezing c = after (do
          emitEvent (.error "commit_round_finalize" e)
          recoverFromFinalizeError : ConvM P DispatchOutcome)
        (roundPart.set t c.freezingState.selecting) := by
  unfold pollRound at h
  rw [if_pos ⟨hstate, hover⟩] at h
  rw [after_advanceFreezing, if_neg (not_not.mpr hstate), if_pos hover, selectAndFinalize_after]
  cases hfin : DeMls.finalizeCommitRound c.freezingState.stewardList
      c.freezingState.isInRecoveryMode
      (c.isInRecoveryMode || c.freezingState.stewardList.config.allowSubsetCandidates)
      c.freezingState.selfMemberId c.freezingState.roundState with
  | ok r t => simp [hfin] at h
  | error e t => exact ⟨e, t, rfl, rfl⟩

/-- What a finalized round is. -/
theorem finalized_of_pollRound {c : Conversation P} {s t : RoundState P}
    {r : CommitRoundResult P.mls} (h : c.pollRound = some (s, r, t)) :
    c.state = .freezing ∧ s = c.freezingState.roundState ∧
      DeMls.finalizeCommitRound c.freezingState.stewardList c.freezingState.isInRecoveryMode
        (c.isInRecoveryMode || c.freezingState.stewardList.config.allowSubsetCandidates)
        c.freezingState.selfMemberId s = .ok r t := by
  unfold pollRound at h
  split_ifs at h with hover
  split at h
  · rename_i r' u hfin
    cases h
    exact ⟨hover.1, rfl, hfin⟩
  · cases h

end Conversation

end DeMls
