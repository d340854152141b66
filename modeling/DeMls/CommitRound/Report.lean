import DeMls.Conversation.Standing
import DeMls.Ideal

/-!
# What a merge does to the approved queue

A merged commit carries out some of the queued approvals. `approved_after_merge_iff` says when the
queue loses exactly those, `committed_report` what the round reports of them.
-/

namespace DeMls

open Program RoundState

/-! ## Carrying out an approval -/

/-- The merged commit carried out the action of a request: it admits the invite's joiner, or it
vacates the leaf to remove. -/
def carriedOut (O : OpenMls) (g : MlsGroup O.Secrets) (staged : Option O.StagedCommit)
    (req : ConversationUpdateRequest) : Bool :=
  match req.payload with
  | some (.memberInvite keyPackageBytes) =>
    (signatureKeyOfKeyPackage O keyPackageBytes).toOption.any fun key =>
      decide (key ∈ admittedBy O staged)
  | some (.removeMember memberId) =>
    (vacatedBy O g staged).any fun m => decide (memberIdOf m.leaf = memberId)
  | _ => false

def isInvite (req : ConversationUpdateRequest) : Bool :=
  match req.payload with
  | some (.memberInvite _) => true
  | _ => false

/-- The commit and the queue agree on a request: with no urgent target the commit carried it out;
with one, it carried out the target's removal and admitted nobody queued. -/
def settles (O : OpenMls) (g : MlsGroup O.Secrets) (staged : Option O.StagedCommit)
    (urgentTarget : Option Bytes) (req : ConversationUpdateRequest) : Prop :=
  match urgentTarget with
  | none => carriedOut O g staged req = true
  | some target =>
    (removesMember req target = true → carriedOut O g staged req = true) ∧
      (isInvite req = true → carriedOut O g staged req = false)

section Merge

variable {P : Platform} {hash : CommitHash} {epoch : Nat} {s t : RoundState P}
  {staged : Option P.mls.StagedCommit} {batch : List ConversationUpdateRequest}

/-- A removal of a vacated leaf is the one kind of entry the bookkeeping drops. -/
theorem removes_vacated_iff {O : OpenMls} {g : MlsGroup O.Secrets} {staged : Option O.StagedCommit}
    {req : ConversationUpdateRequest} :
    (∃ m ∈ vacatedBy O g staged, removesMember req (memberIdOf m.leaf) = true) ↔
      isInvite req = false ∧ carriedOut O g staged req = true := by
  unfold removesMember isInvite carriedOut
  cases req.payload with
  | none => simp
  | some payload =>
    cases payload with
    | memberInvite kp => simp
    | removeMember id =>
      simp only [decide_eq_true_eq, Option.some.injEq, UpdatePayload.removeMember.injEq,
        List.any_eq_true, true_and]
      constructor
      · rintro ⟨m, hm, rfl⟩
        exact ⟨m, hm, rfl⟩
      · rintro ⟨m, hm, rfl⟩
        exact ⟨m, hm, rfl⟩
    | emergencyCriteria ev => simp
    | stewardElection e => simp

/-- The queues after the bookkeeping of a merge. -/
def booked (P : Platform) (s t : RoundState P) (hash : CommitHash) (epoch : Nat)
    (staged : Option P.mls.StagedCommit) : ConversationQueues :=
  ((s.queues.storeMembershipDelta (MlsService.delta t.mls.group s.mls.group.populatedLeaves
    (vacatedBy P.mls s.mls.group staged))).insertCommittedHash
      hash).applyMembershipDeltaBookkeeping epoch

theorem urgentCommitTarget_booked (s t : RoundState P) (hash : CommitHash) (epoch : Nat)
    (staged : Option P.mls.StagedCommit) :
    (booked P s t hash epoch staged).urgentCommitTarget = s.queues.urgentCommitTarget := by
  unfold booked
  rw [ConversationQueues.urgentCommitTarget_bookkeeping]
  rfl

/-- The queue loses the removals the commit carried out. -/
theorem approved_booked (s t : RoundState P) (hash : CommitHash) (epoch : Nat)
    (staged : Option P.mls.StagedCommit) :
    (booked P s t hash epoch staged).approvedProposals.entries =
      s.queues.approvedProposals.entries.filter fun e =>
        !(!isInvite e.2 && carriedOut P.mls s.mls.group staged e.2) := by
  unfold booked
  rw [ConversationQueues.entries_bookkeeping]
  apply List.filter_congr
  intro e _
  rw [Bool.eq_iff_iff, decide_eq_true_eq, Bool.not_eq_true', Bool.and_eq_false_imp]
  have hiff := @removes_vacated_iff P.mls s.mls.group staged e.2
  constructor
  · intro hkept hinvite
    by_contra hcarried
    rw [Bool.not_eq_false] at hcarried
    obtain ⟨m, hm, hrm⟩ := hiff.mpr ⟨by simpa using hinvite, hcarried⟩
    have := hkept m hm
    simp [hrm] at this
  · intro himp m hm
    by_contra hrm
    rw [Bool.not_eq_false] at hrm
    obtain ⟨hinvite, hcarried⟩ := hiff.mp ⟨m, hm, hrm⟩
    have := himp (by simp [hinvite])
    simp [hcarried] at this

/-- A merge drains the booked queue into the report; with an urgent target it drops the target's
removals and reports nothing. -/
theorem Merges.drained (h : Merges hash epoch s t staged batch) :
    (s.queues.urgentCommitTarget = none ∧
      batch = (booked P s t hash epoch staged).approvedProposals.values ∧
      t.queues = { booked P s t hash epoch staged with
        urgentCommitTarget := none
        approvedProposals := .empty }) ∨
    ∃ target, s.queues.urgentCommitTarget = some target ∧ batch = [] ∧
      t.queues = { booked P s t hash epoch staged with
        urgentCommitTarget := none }.dropApprovedRemovalsFor target := by
  have hq := h.queues
  have hu := urgentCommitTarget_booked s t hash epoch staged
  unfold booked at hu ⊢
  unfold finalizeCommittedBatch ConversationQueues.takeUrgentCommitTarget at hq
  dsimp only at hq
  rw [hu] at hq
  cases hurgent : s.queues.urgentCommitTarget with
  | none =>
    rw [hurgent] at hq
    exact .inl ⟨rfl, (congrArg Prod.fst hq).symm, (congrArg Prod.snd hq).symm⟩
  | some target =>
    rw [hurgent] at hq
    exact .inr ⟨target, rfl, (congrArg Prod.fst hq).symm, (congrArg Prod.snd hq).symm⟩

/-- The queue and the report a merge leaves: with no urgent target the queue is drained into the
report, with one the target's removals go too and nothing is reported. -/
theorem Merges.approved (h : Merges hash epoch s t staged batch) :
    t.queues.approvedProposals.entries =
      (match s.queues.urgentCommitTarget with
        | none => []
        | some target => s.queues.approvedProposals.entries.filter fun e =>
            !(!isInvite e.2 && carriedOut P.mls s.mls.group staged e.2) &&
              !removesMember e.2 target) ∧
    batch =
      (match s.queues.urgentCommitTarget with
        | none => (s.queues.approvedProposals.entries.filter fun e =>
            !(!isInvite e.2 && carriedOut P.mls s.mls.group staged e.2)).map Prod.snd
        | some _ => []) ∧
    t.queues.urgentCommitTarget = none := by
  have hbook := approved_booked s t hash epoch staged
  rcases h.drained with ⟨hurgent, hbatch, ht⟩ | ⟨target, hurgent, hbatch, ht⟩
  · rw [hurgent, hbatch, ht, ← hbook]
    exact ⟨rfl, rfl, rfl⟩
  · rw [hurgent, hbatch, ht]
    refine ⟨?_, rfl, rfl⟩
    show ((booked P s t hash epoch staged).approvedProposals.entries.filter fun e =>
      !removesMember e.2 target) = _
    rw [hbook, List.filter_filter]
    apply List.filter_congr
    intro e _
    exact Bool.and_comm _ _

/-- The join epochs a merge leaves: a newcomer joins at `epoch`, a departed leaf is forgotten, every
other keeps its record. -/
theorem Merges.joinEpoch (h : Merges hash epoch s t staged batch) (id : Bytes) :
    t.queues.memberJoinEpoch.find? id =
      if ∃ m ∈ t.mls.group.members, (m.index ∉ s.mls.group.populatedLeaves ∨
          m.index ∈ (vacatedBy P.mls s.mls.group staged).map MemberId.leaf) ∧
          memberIdOf m.index = id then some epoch
      else if ∃ v ∈ vacatedBy P.mls s.mls.group staged, memberIdOf v.leaf = id then none
      else s.queues.memberJoinEpoch.find? id := by
  have hsame : t.queues.memberJoinEpoch = (booked P s t hash epoch staged).memberJoinEpoch := by
    rcases h.drained with ⟨_, _, ht⟩ | ⟨_, _, _, ht⟩
    · rw [ht]
    · rw [ht]
      rfl
  rw [hsame]
  unfold booked
  rw [ConversationQueues.joinEpoch_bookkeeping]
  show (if ∃ m ∈ (MlsService.delta t.mls.group s.mls.group.populatedLeaves
      (vacatedBy P.mls s.mls.group staged)).added, memberIdOf m.index = id then some epoch
    else _) = _
  simp only [MlsService.delta, List.mem_filter, decide_eq_true_eq, and_assoc]
  rfl

/-- The membership delta a merge leaves for the conversation to follow. -/
theorem Merges.membershipDelta (h : Merges hash epoch s t staged batch) :
    t.queues.pendingMembershipDelta = some (MlsService.delta t.mls.group
      s.mls.group.populatedLeaves (vacatedBy P.mls s.mls.group staged)) := by
  have hsame : t.queues.pendingMembershipDelta =
      (booked P s t hash epoch staged).pendingMembershipDelta := by
    rcases h.drained with ⟨_, _, ht⟩ | ⟨_, _, _, ht⟩
    · rw [ht]
    · rw [ht]
      rfl
  rw [hsame]
  exact ConversationQueues.pendingMembershipDelta_bookkeeping _ _

/-- An approval still queued after a merge was queued before it, beside an urgent target it does not
remove, and the commit vacated no leaf it names. -/
theorem Merges.still_queued (h : Merges hash epoch s t staged batch)
    {e : ProposalId × ConversationUpdateRequest} (he : e ∈ t.queues.approvedProposals.entries) :
    ∃ target, s.queues.urgentCommitTarget = some target ∧
      e ∈ s.queues.approvedProposals.entries ∧ removesMember e.2 target = false ∧
      ∀ v ∈ vacatedBy P.mls s.mls.group staged, removesMember e.2 (memberIdOf v.leaf) = false := by
  rw [h.approved.1] at he
  cases hurgent : s.queues.urgentCommitTarget with
  | none =>
    rw [hurgent] at he
    cases he
  | some target =>
    rw [hurgent, List.mem_filter, Bool.and_eq_true, Bool.not_eq_true', Bool.not_eq_true'] at he
    obtain ⟨hold, hnot, htarget⟩ := he
    refine ⟨target, rfl, hold, htarget, fun v hv => ?_⟩
    by_contra hremoves
    rw [Bool.not_eq_false] at hremoves
    obtain ⟨hinvite, hcarried⟩ := removes_vacated_iff.mp ⟨v, hv, hremoves⟩
    simp [hinvite, hcarried] at hnot

end Merge

/-! ## The queue after a round -/

section Round

variable {P : Platform} {stewardList : StewardListService} {inRecovery allowSubset : Bool}
  {self : Bytes} {s t : RoundState P} {r : CommitRoundResult P.mls} {merged : MergedCommit P.mls}

/-- The queue before a round, less the approvals the merged commit carried out. -/
def approvedLess (s : RoundState P) (staged : Option P.mls.StagedCommit) :
    List (ProposalId × ConversationUpdateRequest) :=
  s.queues.approvedProposals.entries.filter fun e => !carriedOut P.mls s.mls.group staged e.2

/-- **Exactly the carried-out approvals leave the queue** when, and only when, the commit settles
every queued request: the code drains the queue, or drops the urgent target, whatever the commit
contained. -/
theorem approved_after_merge_iff
    (h : finalizeCommitRound stewardList inRecovery allowSubset self s = .ok r t)
    (hm : r.merged = some merged) :
    t.queues.approvedProposals.entries = approvedLess s merged.staged ↔
      ∀ e ∈ s.queues.approvedProposals.entries,
        settles P.mls s.mls.group merged.staged s.queues.urgentCommitTarget e.2 := by
  have hafter := (finalizeCommitRound_merged h hm).1.approved.1
  have hq : s.taken.queues.approvedProposals = s.queues.approvedProposals := rfl
  have hu : s.taken.queues.urgentCommitTarget = s.queues.urgentCommitTarget := rfl
  have hg : s.taken.mls = s.mls := rfl
  rw [hq, hu, hg] at hafter
  rw [hafter]
  unfold approvedLess settles
  cases s.queues.urgentCommitTarget with
  | none =>
    rw [eq_comm, List.filter_eq_nil_iff]
    apply forall₂_congr
    intro e _
    simp
  | some target =>
    simp only
    rw [Selection.filter_eq_filter_iff]
    apply forall₂_congr
    intro e _
    -- An invite is never dropped here, and a removal is dropped when carried out or urgent.
    have hremoves : isInvite e.2 = true → removesMember e.2 target = false := by
      unfold isInvite removesMember
      split <;> simp_all
    cases hi : isInvite e.2 <;> cases hc : carriedOut P.mls s.mls.group merged.staged e.2 <;>
      cases hr : removesMember e.2 target <;> simp_all

end Round

/-- Recovery: `[20]` was approved and our commit minted, then `[30]` is approved too. -/
def Ideal.lateApproval : RoundState Ideal.platform :=
  let c := after (Conversation.buildLocalCandidate (memberIdOf 0))
    (Ideal.conversationOf 0 1 [[10], [11]] (Ideal.stewardsOf [0, 1] 1) [.memberInvite [20]] none)
  ⟨c.queues.insertApprovedProposal 2 (.memberInvite [30]), c.mls⟩

/-- The late approval leaves the queue with a commit that did not carry it out. -/
theorem late_approval_dropped : ∃ r t merged,
    finalizeCommitRound (Ideal.stewardsOf [0, 1] 1) true true (memberIdOf 0) Ideal.lateApproval =
      .ok r t ∧ r.merged = some merged ∧
    t.queues.approvedProposals.entries ≠ approvedLess Ideal.lateApproval merged.staged := by
  refine ⟨_, _, _, rfl, rfl, ?_⟩
  decide

/-- The law, at that round. -/
theorem late_approval_law : ∃ r t merged,
    finalizeCommitRound (Ideal.stewardsOf [0, 1] 1) true true (memberIdOf 0) Ideal.lateApproval =
      .ok r t ∧ r.merged = some merged ∧
    (t.queues.approvedProposals.entries = approvedLess Ideal.lateApproval merged.staged ↔
      ∀ e ∈ Ideal.lateApproval.queues.approvedProposals.entries,
        settles Ideal.mls Ideal.lateApproval.mls.group merged.staged
          Ideal.lateApproval.queues.urgentCommitTarget e.2) := by
  obtain ⟨r, t, merged, h, hm⟩ : ∃ r t merged,
      finalizeCommitRound (Ideal.stewardsOf [0, 1] 1) true true (memberIdOf 0) Ideal.lateApproval =
        .ok r t ∧ r.merged = some merged := ⟨_, _, _, rfl, rfl⟩
  exact ⟨r, t, merged, h, hm, approved_after_merge_iff h hm⟩

/-! ## The report -/

namespace Conversation

variable {P : Platform}

/-- The state a poll of a freezing conversation decides on: in recovery it may have minted. -/
def freezingState (c : Conversation P) : Conversation P :=
  after (if c.isInRecoveryMode then maybeAutoCommitRecovery else pure () : ConvM P Unit) c

/-- What the round of a state works on. -/
def roundState (c : Conversation P) : RoundState P := ⟨c.queues, c.mls⟩

/-- The round a poll finalizes: its state before, its result and its state after. `none` when the
poll finalizes none. -/
def pollRound (c : Conversation P) :
    Option (RoundState P × CommitRoundResult P.mls × RoundState P) :=
  if c.state = .freezing ∧ c.freezingState.roundOver = true then
    match DeMls.finalizeCommitRound c.freezingState.stewardList c.freezingState.isInRecoveryMode
        (c.isInRecoveryMode || c.freezingState.stewardList.config.allowSubsetCandidates)
        c.freezingState.selfMemberId c.freezingState.roundState with
    | .ok r t => some (c.freezingState.roundState, r, t)
    | .error _ _ => none
  else none

theorem applyRoundScores_succeeds (ops : List ScoreOp) :
    Succeeds (applyRoundScores ops : ConvM P Unit) := by
  unfold applyRoundScores
  refine succeeds_ite (succeeds_pure _) (succeeds_bind (succeeds_attempt _) fun r => ?_)
  cases r with
  | ok u => exact succeeds_pure _
  | error e => exact succeeds_modify _

theorem maybeAutoCommitRecovery_succeeds : Succeeds (maybeAutoCommitRecovery : ConvM P Unit) := by
  unfold maybeAutoCommitRecovery
  refine succeeds_get_bind fun c => ?_
  cases c.config.recoveryAutoCommitDelay with
  | none => exact succeeds_pure _
  | some delay =>
    exact succeeds_ite (succeeds_pure _)
      (succeeds_bind (succeeds_attempt _) fun _ => succeeds_pure _)

/-- The state handed to the round: the phase, its event and a timer apart, nothing changed. -/
def selecting (c : Conversation P) : Conversation P :=
  { c with
    timing := { c.timing with lastCommitRoundProgress := none }
    state := .selection
    pendingEvents := c.pendingEvents ++ [.phaseChange .selection] }

/-- A round of the conversation is the round of its queues and its group. -/
theorem finalizeCommitRound_of_ok {c : Conversation P} {allowSubset : Bool} {self : Bytes}
    {r : CommitRoundResult P.mls} {t : RoundState P}
    (h : DeMls.finalizeCommitRound c.stewardList c.isInRecoveryMode allowSubset self c.roundState =
      .ok r t) : finalizeCommitRound allowSubset self c = .ok r (roundPart.set t c) := by
  change onRound _ c = _
  rw [onRound, zoom_ok]
  exact ⟨t, h, rfl⟩

theorem finalizeCommitRound_of_error {c : Conversation P} {allowSubset : Bool} {self : Bytes}
    {e : ConversationError} {t : RoundState P}
    (h : DeMls.finalizeCommitRound c.stewardList c.isInRecoveryMode allowSubset self c.roundState =
      .error e t) : finalizeCommitRound allowSubset self c = .error e (roundPart.set t c) := by
  change onRound _ c = _
  rw [onRound, zoom_error]
  exact ⟨e, t, h, rfl, rfl⟩

/-- Collecting is over: the round of the state is finalized and followed up. -/
theorem selectAndFinalize_after (inRecovery : Bool) (c : Conversation P) :
    after (selectAndFinalize inRecovery) c =
      match DeMls.finalizeCommitRound c.stewardList c.isInRecoveryMode
          (inRecovery || c.stewardList.config.allowSubsetCandidates) c.selfMemberId c.roundState with
      | .ok r t => after (finishRound inRecovery (decide (0 < c.queues.approvedProposalsCount)) r)
          (roundPart.set t c.selecting)
      | .error e t => after (do
          emitEvent (.error "commit_round_finalize" e)
          recoverFromFinalizeError : ConvM P DispatchOutcome) (roundPart.set t c.selecting) := by
  have hrun : after (selectAndFinalize inRecovery) c =
      after ((attempt (finalizeCommitRound (inRecovery || c.stewardList.config.allowSubsetCandidates)
        c.selfMemberId) : ConvM P _) >>= afterFinalize inRecovery
          (decide (0 < c.queues.approvedProposalsCount))) c.selecting := rfl
  rw [hrun]
  cases hround : DeMls.finalizeCommitRound c.stewardList c.isInRecoveryMode
      (inRecovery || c.stewardList.config.allowSubsetCandidates) c.selfMemberId c.roundState with
  | ok r t =>
    have hfin := finalizeCommitRound_of_ok (c := c.selecting) hround
    exact after_bind_ok _ ((attempt_ok _ _ _ _).mpr (.inl ⟨r, rfl, hfin⟩))
  | error e t =>
    have hfin := finalizeCommitRound_of_error (c := c.selecting) hround
    exact after_bind_ok _ ((attempt_ok _ _ _ _).mpr (.inr ⟨e, rfl, hfin⟩))

end Conversation

end DeMls
