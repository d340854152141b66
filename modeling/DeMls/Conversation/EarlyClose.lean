import DeMls.CommitRound.OwnCandidate
import DeMls.CommitRound.Report
import DeMls.Conversation.Aside
import DeMls.Conversation.Drift

/-!
# Closing the window early

Outside recovery the freeze ends before its time once as many candidates arrived as there are
stewards. `early_close_iff` says when that means that every steward answered.
-/

namespace DeMls

open Program

variable {P : Platform}

namespace Conversation

/-! ## Leaving the freeze -/

/-- A path that may enter any phase but the freeze stays out of it. -/
theorem Drift.not_freezing {c d : Conversation P} (h : Drift (· ≠ .freezing) c d)
    (hc : c.state ≠ .freezing) : d.state ≠ .freezing := by
  cases h with
  | still h => rwa [show d.state = c.state from congrArg Prod.snd h]
  | enter _ hphase => exact hphase
  | propose request v => rwa [aside_state.initiateProposal request v c]
  | unschedule => exact hc

/-- Outside recovery a round whose window is over does not come back to the freeze. -/
theorem selectAndFinalize_leaves {c : Conversation P} (hmode : c.isInRecoveryMode = false) :
    (after (selectAndFinalize false) c).state ≠ .freezing := by
  have hselecting : ∀ t, (roundPart.set t c.selecting).state ≠ .freezing := by
    rintro t ⟨⟩
  rw [selectAndFinalize_after]
  cases hround : DeMls.finalizeCommitRound c.stewardList c.isInRecoveryMode
      (false || c.stewardList.config.allowSubsetCandidates) c.selfMemberId c.roundState with
  | ok r t =>
    have hpath : Along (Drift (· ≠ .freezing)) (finishRound false
        (decide (0 < c.queues.approvedProposalsCount)) r : ConvM P _) :=
      drift_finishRound (by simp) (by simp) (by simp) _ (finalizeCommitRound_outcome hround)
    exact hpath.preserves (I := fun d => d.state ≠ .freezing) (fun _ _ => Drift.not_freezing) _
      (hselecting t)
  | error e t =>
    let d := roundPart.set t c.selecting
    let d' : Conversation P :=
      { d with pendingEvents := d.pendingEvents ++ [.error "commit_round_finalize" e] }
    have hrecover : after (recoverFromFinalizeError : ConvM P DispatchOutcome) d' =
        after (do
          let resumed ← startWorking
          emitEvent (.phaseChange resumed)
          pure .done : ConvM P DispatchOutcome) d' := by
      unfold recoverFromFinalizeError
      rw [after_bind_ok _ (get_apply d'), show d'.isInRecoveryMode = false from hmode,
        if_neg Bool.false_ne_true]
    show (after (recoverFromFinalizeError : ConvM P DispatchOutcome) d').state ≠ .freezing
    rw [hrecover]
    rintro ⟨⟩

/-- **Leaving the freeze.** Outside recovery a poll leaves it exactly when the window is over. -/
theorem leaves_freezing_iff {c : Conversation P} (hstate : c.state = .freezing)
    (hmode : c.isInRecoveryMode = false) :
    (after advanceFreezing c).state ≠ .freezing ↔ c.roundOver = true := by
  have hrun : after advanceFreezing c =
      after (if c.roundOver then selectAndFinalize false else reportProgress :
        ConvM P DispatchOutcome) c := by
    unfold advanceFreezing
    rw [after_bind_ok _ (get_apply c), if_neg (not_not.mpr hstate), hmode]
    rfl
  rw [hrun]
  by_cases hover : c.roundOver = true
  · rw [if_pos hover]
    exact ⟨fun _ => hover, fun _ => selectAndFinalize_leaves hmode⟩
  · rw [if_neg hover]
    refine ⟨fun h => absurd ?_ h, fun h => absurd h hover⟩
    unfold reportProgress
    rw [after_bind_ok _ (get_apply c)]
    split_ifs <;> exact hstate

/-! ## Who answered -/

/-- The stewards the buffered candidates claim to come from. -/
def claimedStewards (c : Conversation P) : List Bytes :=
  c.queues.commitRound.candidates.map (·.candidateMsg.stewardMemberId)

/-- The stewards of a list that some candidate claims. -/
def answering (c : Conversation P) (list : StewardList) : List Bytes :=
  list.members.filter fun id => decide (id ∈ c.claimedStewards)

/-- The stewards of a list that no candidate claims. -/
def silent (c : Conversation P) (list : StewardList) : List Bytes :=
  list.members.filter fun id => !decide (id ∈ c.claimedStewards)

/-- The candidates beyond one for each answering steward: repeated claims, and claims of members
that are no stewards. -/
def surplusCount (c : Conversation P) (list : StewardList) : Nat :=
  c.queues.commitRound.candidateCount - (c.answering list).length

theorem answering_length_add_silent_length (c : Conversation P) (list : StewardList) :
    (c.answering list).length + (c.silent list).length = list.members.length := by
  unfold answering silent
  have h := List.length_eq_length_filter_add (fun id => decide (id ∈ c.claimedStewards))
    (l := list.members)
  omega

theorem silent_eq_nil_iff {c : Conversation P} {list : StewardList} :
    c.silent list = [] ↔ ∀ id ∈ list.members, id ∈ c.claimedStewards := by
  unfold silent
  rw [List.filter_eq_nil_iff]
  refine forall₂_congr fun id _ => ?_
  simp

/-- Before its time the window is over when there are as many candidates as stewards. -/
theorem roundOver_early {c : Conversation P} (hmode : c.isInRecoveryMode = false)
    (hwindow : c.isFreezeWindowElapsed = false) :
    c.roundOver = true ↔ ∃ list, c.stewardList.list = some list ∧
      list.members.length ≤ c.queues.commitRound.candidateCount := by
  unfold roundOver commitCandidateCount
  simp only [hmode, hwindow, Bool.not_false, Bool.true_and, Bool.false_eq_true, if_false,
    Bool.or_false]
  cases c.stewardList.list with
  | none => simp
  | some list => simp

/-- **Closing early.** Before its time a poll outside recovery leaves the freeze only over the
answers of all stewards, if and only if nobody is silent or the surplus candidates are fewer than the
silent stewards. -/
theorem early_close_iff {c : Conversation P} (hstate : c.state = .freezing)
    (hmode : c.isInRecoveryMode = false) (hwindow : c.isFreezeWindowElapsed = false) :
    ((after advanceFreezing c).state ≠ .freezing →
      ∀ list, c.stewardList.list = some list → ∀ id ∈ list.members, id ∈ c.claimedStewards) ↔
    ∀ list, c.stewardList.list = some list →
      c.silent list = [] ∨ c.surplusCount list < (c.silent list).length := by
  rw [leaves_freezing_iff hstate hmode, roundOver_early hmode hwindow]
  constructor
  · intro h list hlist
    by_cases hsilent : c.silent list = []
    · exact .inl hsilent
    · right
      have hcount := c.answering_length_add_silent_length list
      have hsome : 0 < (c.silent list).length := List.length_pos_of_ne_nil hsilent
      have hfew : ¬ list.members.length ≤ c.queues.commitRound.candidateCount := fun hmany =>
        hsilent (silent_eq_nil_iff.mpr (h ⟨list, hlist, hmany⟩ list hlist))
      unfold surplusCount
      omega
  · rintro h ⟨list', hlist', hmany⟩ list hlist
    obtain rfl : list = list' := Option.some.inj (hlist.symm.trans hlist')
    rcases h list hlist with hsilent | hfew
    · exact silent_eq_nil_iff.mp hsilent
    · have hcount := c.answering_length_add_silent_length list
      unfold surplusCount at hfew
      omega

end Conversation

/-! ## Evaluations -/

namespace Ideal

/-- Two stewards of three members, freezing over a removal, with the given candidates delivered. -/
def collecting (messages : List CommitCandidate) : Conversation platform :=
  let c := conversationOf 0 1 [[10], [11], [12]] (stewardsOf [0, 1] 1)
    [.removeMember (memberIdOf 2)] none
  { c with
    state := .freezing
    timing := { c.timing with phaseTimer := some 0 }
    queues := delivered platform c.queues c.mls messages }

end Ideal

/-- One steward is claimed twice, the other never: the freeze ends on the spot. -/
theorem claimed_twice_closes :
    let c := Ideal.collecting [Ideal.forged 30, Ideal.forged 31]
    c.state = .freezing ∧ c.isInRecoveryMode = false ∧ c.isFreezeWindowElapsed = false ∧
    (after Conversation.advanceFreezing c).state ≠ .freezing ∧
    ∃ list, c.stewardList.list = some list ∧ ∃ id ∈ list.members, id ∉ c.claimedStewards := by
  refine ⟨rfl, rfl, by decide, ?_, _, rfl, memberIdOf 0, by decide, by decide⟩
  exact (Conversation.leaves_freezing_iff rfl rfl).mpr (by decide)

/-- With one candidate the freeze goes on. -/
theorem claimed_once_waits :
    let c := Ideal.collecting [Ideal.forged 30]
    ((after Conversation.advanceFreezing c).state ≠ .freezing →
      ∀ list, c.stewardList.list = some list → ∀ id ∈ list.members, id ∈ c.claimedStewards) ↔
    ∀ list, c.stewardList.list = some list →
      c.silent list = [] ∨ c.surplusCount list < (c.silent list).length :=
  Conversation.early_close_iff rfl rfl (by decide)

end DeMls
