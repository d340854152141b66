import DeMls.CommitRound.Spec
import DeMls.Ideal

/-!
# Leaving

What a merged commit tells the local member: to leave, or that the group moved on. The remote path
reads it off the staged commit, the local path off the approved queue (`leave_iff_removed_iff`).
-/

namespace DeMls

open Program RoundState

variable {P : Platform}

/-- Our own commit: the verdict is the one of the snapshot. -/
theorem applyLocalCandidate_result {c : BufferedCommitCandidate} {ctx : RoundContext}
    {s t : RoundState P} {outcome : CommitRoundOutcome} {committer : Bytes}
    {batch : List ConversationUpdateRequest} {merged : MergedCommit P.mls}
    (h : applyLocalCandidate c ctx s = .ok (.terminal outcome committer batch merged) t) :
    ∃ welcome, outcome = .applied (leaveOrUpdate ctx.selfRemovePending) welcome := by
  obtain ⟨_, _, _, _, ho⟩ := applyLocalCandidate_steps h
  cases ho
  exact ⟨_, rfl⟩

/-- A peer's commit: the verdict is the one of staging. -/
theorem mergeIncomingCandidate_result {c : BufferedCommitCandidate} {ctx : RoundContext}
    {sender committer : Bytes} {selfRemoved : Bool} {s t : RoundState P}
    {outcome : CommitRoundOutcome} {batch : List ConversationUpdateRequest}
    {merged : MergedCommit P.mls}
    (h : mergeIncomingCandidate c ctx sender selfRemoved s =
      .ok (.terminal outcome committer batch merged) t) :
    outcome = .applied (leaveOrUpdate selfRemoved) none := by
  obtain ⟨_, _, _, _, _, _, ho⟩ := mergeIncomingCandidate_steps h
  cases ho
  rfl

/-- A candidate that ends the round hands over a verdict. -/
theorem applyCandidate_verdict {stewardList : StewardListService} {c : BufferedCommitCandidate}
    {ctx : RoundContext} {s t : RoundState P} {outcome : CommitRoundOutcome} {committer : Bytes}
    {batch : List ConversationUpdateRequest} {merged : MergedCommit P.mls}
    (h : applyCandidate stewardList c ctx s = .ok (.terminal outcome committer batch merged) t) :
    ∃ verdict welcome, outcome = .applied (leaveOrUpdate verdict) welcome := by
  obtain ⟨_, _, _, _, hremote⟩ := applyCandidate_terminal h
  unfold applyCandidate at h
  split_ifs at h with hlocal
  · exact ⟨_, applyLocalCandidate_result h⟩
  · obtain ⟨sender, selfRemoved, actions, u, staged, hstage, hl, _⟩ := hremote (by simpa using hlocal)
    have hu := (frame_stageCandidate _ _).ok hstage
    rw [applyIncomingCandidate_eq stewardList c ctx s hstage, (members_of_visible hu).1, hl] at h
    exact ⟨_, none, mergeIncomingCandidate_result h⟩

/-- OpenMLS reports a staged commit as removing the local member when one of its Remove proposals
names our leaf. -/
def NamesSelf (O : OpenMls) : Prop :=
  ∀ (g : MlsGroup Unit) staged, MlsService.Processed O g staged →
    (O.selfRemoved staged = true ↔ g.ownLeafIndex ∈ O.removeProposals staged)

theorem leaveOrUpdate_eq_leave_iff {selfRemoved : Bool} :
    leaveOrUpdate selfRemoved = .leaveConversation ↔ selfRemoved = true := by
  cases selfRemoved <;> simp [leaveOrUpdate]

/-- **One candidate.** A merge on the remote path reports what the commit does to our leaf, a merge
on the local path what the approved queue holds. -/
theorem applyCandidate_result (hself : NamesSelf P.mls) {stewardList : StewardListService}
    {c : BufferedCommitCandidate} {ctx : RoundContext} {s t : RoundState P}
    {outcome : CommitRoundOutcome} {committer : Bytes} {batch : List ConversationUpdateRequest}
    {merged : MergedCommit P.mls}
    (h : applyCandidate stewardList c ctx s = .ok (.terminal outcome committer batch merged) t) :
    ∃ verdict welcome, outcome = .applied (leaveOrUpdate verdict) welcome ∧
      (c.isLocalCandidate = true → verdict = ctx.selfRemovePending) ∧
      (c.isLocalCandidate = false →
        (verdict = true ↔ s.mls.group.ownLeafIndex ∈ removedBy P.mls merged.staged)) := by
  obtain ⟨_, _, _, _, hremote⟩ := applyCandidate_terminal h
  unfold applyCandidate at h
  split_ifs at h with hlocal
  · obtain ⟨welcome, ho⟩ := applyLocalCandidate_result h
    exact ⟨_, welcome, ho, fun _ => rfl, fun hf => absurd hlocal (by simp [hf])⟩
  · obtain ⟨sender, selfRemoved, actions, u, staged, hstage, hl, hmerged, _⟩ :=
      hremote (by simpa using hlocal)
    have hu := (frame_stageCandidate _ _).ok hstage
    rw [applyIncomingCandidate_eq stewardList c ctx s hstage, (members_of_visible hu).1, hl] at h
    obtain ⟨_, _, staged', ht, _, hslot, _⟩ := mergeIncomingCandidate_ok (processed_of_staged hstage) h
    obtain ⟨_, staged'', hslot', hverdict, _, hprocessed⟩ := stageCandidate_staged hstage
    cases ht
    cases hmerged
    cases hslot.symm.trans hslot'
    refine ⟨selfRemoved, none, mergeIncomingCandidate_result h, fun hf => absurd hf hlocal,
      fun _ => ?_⟩
    rw [hverdict]
    exact hself _ _ hprocessed

section Round

variable {stewardList : StewardListService} {inRecovery allowSubset : Bool} {self : Bytes}
  {s t : RoundState P} {r : CommitRoundResult P.mls} {merged : MergedCommit P.mls}

/-- The verdict of a round that merges. -/
theorem finalizeCommitRound_result (hself : NamesSelf P.mls)
    (h : finalizeCommitRound stewardList inRecovery allowSubset self s = .ok r t)
    (hm : r.merged = some merged) :
    ∃ verdict welcome, r.outcome = .applied (leaveOrUpdate verdict) welcome ∧
      (merged.candidate.isLocalCandidate = true → verdict = s.queues.hasApprovedRemoval self) ∧
      (merged.candidate.isLocalCandidate = false →
        (verdict = true ↔ s.mls.group.ownLeafIndex ∈ removedBy P.mls merged.staged)) := by
  rw [finalizeCommitRound_eq] at h
  rcases applyInPriorityOrder_ok h with ⟨ops, u, _, hdone⟩ |
    ⟨pre, c, post, ops, u, outcome, committer, batch, merged', _, hrun, hc, rfl⟩
  · obtain ⟨_, _, _, rfl⟩ := discardAndFinish_steps hdone
    cases hm
  · cases hm
    obtain ⟨rfl, _⟩ := applyCandidate_terminal hc
    obtain ⟨verdict, welcome, ho, hlocal, hremote⟩ := applyCandidate_result hself hc
    have hown : u.mls.group.ownLeafIndex = s.mls.group.ownLeafIndex :=
      (members_of_visible hrun.visible).2.2.2
    rw [hown] at hremote
    exact ⟨verdict, welcome, ho, hlocal, hremote⟩

/-- **Leaving.** MLS lets nobody commit its own removal. A round that merges then tells the member
to leave exactly when the commit removes it, if and only if the winner is a peer's commit or our own
removal is not among the approvals. -/
theorem leave_iff_removed_iff (hself : NamesSelf P.mls)
    (h : finalizeCommitRound stewardList inRecovery allowSubset self s = .ok r t)
    (hm : r.merged = some merged)
    (hown : merged.candidate.isLocalCandidate = true →
      s.mls.group.ownLeafIndex ∉ removedBy P.mls merged.staged) :
    ((∃ welcome, r.outcome = .applied .leaveConversation welcome) ↔
        s.mls.group.ownLeafIndex ∈ removedBy P.mls merged.staged) ↔
      (merged.candidate.isLocalCandidate = true → s.queues.hasApprovedRemoval self = false) := by
  obtain ⟨verdict, welcome, ho, hlocal, hremote⟩ := finalizeCommitRound_result hself h hm
  have hleave : (∃ welcome, r.outcome = .applied .leaveConversation welcome) ↔ verdict = true := by
    rw [ho, ← leaveOrUpdate_eq_leave_iff]
    constructor
    · rintro ⟨_, heq⟩
      exact (CommitRoundOutcome.applied.inj heq).1
    · exact fun heq => ⟨welcome, by rw [heq]⟩
  rw [hleave]
  cases hwinner : merged.candidate.isLocalCandidate with
  | false => exact ⟨fun _ hf => absurd hf (by simp), fun _ => hremote hwinner⟩
  | true =>
    rw [hlocal hwinner]
    have hkept := hown hwinner
    constructor
    · intro hiff _
      exact Bool.eq_false_iff.mpr fun hqueued => hkept (hiff.mp hqueued)
    · intro hqueued
      rw [hqueued rfl]
      exact ⟨fun hf => absurd hf Bool.false_ne_true, fun hmem => absurd hmem hkept⟩

end Round

/-! ## Evaluations -/

namespace Ideal

/-- A commit processed on a group reports what it does to the group's own leaf. -/
theorem namesSelf : NamesSelf mls := by
  rintro g staged ⟨h, message, sender, secrets, rfl, hprocess⟩
  have hprocess : processMessage h message = .ok ⟨sender, .stagedCommitMessage staged⟩ :=
    congrArg Prod.fst hprocess
  have hown : staged.own = h.ownLeafIndex := by
    unfold processMessage at hprocess
    split at hprocess
    · cases hprocess
    · dsimp only at hprocess
      split_ifs at hprocess
      split at hprocess
      · cases hprocess
      · split at hprocess <;> cases hprocess
      · split at hprocess
        · cases hprocess
        · split_ifs at hprocess
          cases hprocess
          rfl
  show (staged.changes.any fun change => change = .remove staged.own) = true ↔
    h.ownLeafIndex ∈ staged.changes.filterMap Change.leaf
  rw [hown, List.any_eq_true, List.mem_filterMap]
  refine exists_congr fun change => and_congr_right fun _ => ?_
  rw [decide_eq_true_eq]
  cases change <;> simp [Change.leaf]

/-- Our commit removes leaf 2; then our own removal is approved. -/
def ownRemovalApprovedLate : RoundState platform :=
  let c := after (Conversation.buildLocalCandidate (memberIdOf 0))
    (conversationOf 0 1 [[10], [11], [12]] (stewardsOf [0, 1] 1) [.removeMember (memberIdOf 2)] none)
  ⟨c.queues.insertApprovedProposal 2 (.removeMember (memberIdOf 0)), c.mls⟩

end Ideal

/-- With subsets allowed our commit wins, leaves us in the group and tells us to leave. -/
theorem live_member_leaves : ∃ r t merged,
    finalizeCommitRound (Ideal.stewardsOf [0, 1] 1) false true (memberIdOf 0)
      Ideal.ownRemovalApprovedLate = .ok r t ∧ r.merged = some merged ∧
    ¬ ((∃ welcome, r.outcome = .applied .leaveConversation welcome) ↔
      (0 : LeafNodeIndex) ∈ removedBy Ideal.mls merged.staged) := by
  refine ⟨_, _, _, rfl, rfl, fun h => ?_⟩
  have hmem := h.mp ⟨none, rfl⟩
  revert hmem
  decide

/-- The law, at that round. -/
theorem live_member_law : ∃ r t merged,
    finalizeCommitRound (Ideal.stewardsOf [0, 1] 1) false true (memberIdOf 0)
      Ideal.ownRemovalApprovedLate = .ok r t ∧ r.merged = some merged ∧
    (((∃ welcome, r.outcome = .applied .leaveConversation welcome) ↔
        (0 : LeafNodeIndex) ∈ removedBy Ideal.mls merged.staged) ↔
      (merged.candidate.isLocalCandidate = true →
        Ideal.ownRemovalApprovedLate.queues.hasApprovedRemoval (memberIdOf 0) = false)) := by
  obtain ⟨r, t, merged, h, hm, hown⟩ : ∃ r t merged,
      finalizeCommitRound (Ideal.stewardsOf [0, 1] 1) false true (memberIdOf 0)
        Ideal.ownRemovalApprovedLate = .ok r t ∧ r.merged = some merged ∧
      (0 : LeafNodeIndex) ∉ removedBy Ideal.mls merged.staged := ⟨_, _, _, rfl, rfl, by decide⟩
  exact ⟨r, t, merged, h, hm, leave_iff_removed_iff Ideal.namesSelf h hm fun _ => hown⟩

end DeMls
