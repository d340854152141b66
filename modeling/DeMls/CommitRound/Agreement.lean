import Mathlib.Data.List.Find
import DeMls.CommitRound.Packing
import DeMls.Ideal

/-!
# Two nodes, one round

Two nodes that finalize a round over one set of candidates walk one ranking, each with candidates
of its own that it merges without validation. `round_agreement_iff` says when they end on the same
commit.
-/

namespace DeMls

open Program Selection RoundState

variable {P : Platform}

/-! ## Verdicts -/

/-- Who committed a candidate and what it does, when it stages. -/
def StagingOutcome.verdict : StagingOutcome → Option (Bytes × List MlsProposalOutput)
  | .staged commitSender _ commitActions => some (commitSender, commitActions)
  | _ => none

/-- The ladder lets a candidate with this verdict merge. -/
def admits (O : OpenMls) (stewardList : StewardListService) (q : ConversationQueues)
    (ctx : RoundContext) : Option (Bytes × List MlsProposalOutput) → Bool
  | some (commitSender, commitActions) =>
    (checkCommitSenderAuthorized stewardList commitSender ctx).isNone &&
      (validateCommitCandidate O q commitSender commitActions ctx).isNone
  | none => false

theorem ladder_eq_none_iff_admits {O : OpenMls} {stewardList : StewardListService}
    {q : ConversationQueues} {ctx : RoundContext} {o : StagingOutcome} :
    ladder O stewardList q ctx o = none ↔ admits O stewardList q ctx o.verdict = true := by
  rw [ladder_eq_none_iff]
  cases o with
  | abort => simp [admits, StagingOutcome.verdict]
  | violation v => simp [admits, StagingOutcome.verdict]
  | staged sender selfRemoved actions =>
    simp only [admits, StagingOutcome.verdict, Bool.and_eq_true, Option.isNone_iff_eq_none]
    constructor
    · rintro ⟨_, _, _, heq, hauth, hact⟩
      cases heq
      exact ⟨hauth, hact⟩
    · rintro ⟨hauth, hact⟩
      exact ⟨sender, selfRemoved, actions, rfl, hauth, hact⟩

/-- Staging gives every remote candidate this verdict when the loop of the round reaches it. -/
def VerdictIs (stewardList : StewardListService) (inRecovery allowSubset : Bool) (self : Bytes)
    (s : RoundState P) (v : CommitCandidate → Option (Bytes × List MlsProposalOutput)) : Prop :=
  ∀ pre c post ops u o t, s.ranking stewardList inRecovery allowSubset self = pre ++ c :: post →
    RejectRun stewardList (s.context stewardList inRecovery self) pre ops s.taken u →
    c.isLocalCandidate = false →
    stageCandidate c.candidateMsg (s.context stewardList inRecovery self) u = .ok o t →
    o.verdict = v c.candidateMsg

/-- For the only ranked candidate, that is one run of staging. -/
theorem verdictIs_of_ranking {stewardList : StewardListService} {inRecovery allowSubset : Bool}
    {self : Bytes} {s : RoundState P} {b : BufferedCommitCandidate}
    {v : CommitCandidate → Option (Bytes × List MlsProposalOutput)}
    (hrank : s.ranking stewardList inRecovery allowSubset self = [b])
    (hstage : b.isLocalCandidate = false → ∀ o t,
      stageCandidate b.candidateMsg (s.context stewardList inRecovery self) s.taken = .ok o t →
      o.verdict = v b.candidateMsg) :
    VerdictIs stewardList inRecovery allowSubset self s v := by
  intro pre c post ops u o t hsplit hrun hremote h
  rw [hrank, List.singleton_eq_append_iff] at hsplit
  rcases hsplit with ⟨rfl, hc⟩ | ⟨_, hnil⟩
  · cases hrun
    cases hc
    exact hstage hremote o t h
  · cases hnil

/-! ## The winner of a round -/

/-- A run of drops drops each of its candidates. -/
theorem RejectRun.split {stewardList : StewardListService} {ctx : RoundContext}
    {pre post : List BufferedCommitCandidate} {c : BufferedCommitCandidate} {ops : List ScoreOp}
    {s t : RoundState P} (h : RejectRun stewardList ctx (pre ++ c :: post) ops s t) :
    ∃ ops' u op u', RejectRun stewardList ctx pre ops' s u ∧
      applyCandidate stewardList c ctx u = .ok (.drop op) u' := by
  induction pre generalizing ops s with
  | nil =>
    cases h with
    | cons hdrop _ => exact ⟨[], s, _, _, .nil s, hdrop⟩
  | cons d rest ih =>
    cases h with
    | cons hdrop hrest =>
      obtain ⟨ops', u, op, u', hrun, hc⟩ := ih hrest
      exact ⟨_, u, op, u', .cons hdrop hrun, hc⟩

/-- **The winner** is the first ranked candidate that is our own or passes the ladder. -/
theorem winner_eq_find? {stewardList : StewardListService} {inRecovery allowSubset : Bool}
    {self : Bytes} {s t : RoundState P} {r : CommitRoundResult P.mls} {merged : MergedCommit P.mls}
    {v : CommitCandidate → Option (Bytes × List MlsProposalOutput)}
    (hv : VerdictIs stewardList inRecovery allowSubset self s v)
    (h : finalizeCommitRound stewardList inRecovery allowSubset self s = .ok r t)
    (hm : r.merged = some merged) :
    (s.ranking stewardList inRecovery allowSubset self).find? (fun c =>
      admits P.mls stewardList s.queues (s.context stewardList inRecovery self) (v c.candidateMsg) ||
        c.isLocalCandidate) = some merged.candidate := by
  rw [finalizeCommitRound_eq] at h
  rcases applyInPriorityOrder_ok h with ⟨ops, u, _, hdone⟩ |
    ⟨pre, c, post, ops, u, outcome, committer, batch, merged', hrank, hrun, hc, rfl⟩
  · obtain ⟨_, _, _, rfl⟩ := discardAndFinish_steps hdone
    cases hm
  · cases hm
    obtain ⟨hmerged, _, _, _, hremote⟩ := applyCandidate_terminal hc
    have hu := (members_of_visible hrun.visible).1
    have hadmits : ∀ (w : RoundState P) verdict, w.queues = s.taken.queues →
        admits P.mls stewardList w.queues (s.context stewardList inRecovery self) verdict =
          admits P.mls stewardList s.queues (s.context stewardList inRecovery self) verdict := by
      intro w verdict hw
      rw [hw]
      rfl
    rw [List.find?_eq_some_iff_append, hmerged]
    refine ⟨?_, pre, post, hrank, ?_⟩
    · cases hlocal : c.isLocalCandidate with
      | true => simp
      | false =>
        obtain ⟨sender, selfRemoved, actions, w, staged, hstage, hladder, _⟩ := hremote hlocal
        rw [Bool.or_false, ← hv pre c post ops u _ w hrank hrun hlocal hstage,
          ← hadmits u _ hu]
        exact ladder_eq_none_iff_admits.mp hladder
    · intro d hd
      obtain ⟨p₁, p₂, rfl⟩ := List.append_of_mem hd
      obtain ⟨ops', w, op, w', hrun', hdrop⟩ := hrun.split
      obtain ⟨hlocal, _, o, x, hstage, hladder⟩ := applyCandidate_drop hdrop
      have hw := (members_of_visible hrun'.visible).1
      have hverdict := hv p₁ d (p₂ ++ c :: post) ops' w o x (by rw [hrank]; simp) hrun' hlocal hstage
      rw [hlocal, Bool.or_false, ← hverdict, ← hadmits w _ hw, Bool.not_eq_true', ← Bool.not_eq_true]
      intro hpass
      rw [ladder_eq_none_iff_admits.mpr hpass] at hladder
      cases hladder

/-! ## One ranking for both nodes -/

namespace BufferedCommitCandidate

/-- What every node sees of a candidate. -/
def shared (c : BufferedCommitCandidate) : BufferedCommitCandidate :=
  { c with isLocalCandidate := false, welcomeBytes := none, joinerIdentities := [] }

@[simp] theorem shared_candidateMsg (c : BufferedCommitCandidate) :
    c.shared.candidateMsg = c.candidateMsg := rfl

@[simp] theorem shared_commitHash (c : BufferedCommitCandidate) :
    c.shared.commitHash = c.commitHash := rfl

end BufferedCommitCandidate

open BufferedCommitCandidate

/-- Two nodes enter one round: same epoch, members, approvals, steward list and candidates, each
candidate local on one node at most. The hashes of a buffer are distinct
(`CommitRoundBuffer.Distinct`). -/
structure SameRound (listX listY : StewardListService) (x y : RoundState P) : Prop where
  epoch : x.mls.group.epoch = y.mls.group.epoch
  members : ∀ id, id ∈ x.mls.members ↔ id ∈ y.mls.members
  approved : x.queues.approvedProposals.values.Perm y.queues.approvedProposals.values
  stewards : listX.list = listY.list
  candidates : (x.roundCandidates.map shared).Perm (y.roundCandidates.map shared)
  hashes : (x.roundCandidates.map (·.commitHash)).Nodup
  owners : ∀ c ∈ x.roundCandidates, ∀ d ∈ y.roundCandidates, c.shared = d.shared →
    ¬ (c.isLocalCandidate = true ∧ d.isLocalCandidate = true)

/-- The ranking of a round as every node sees it. -/
def sharedRanking (stewardList : StewardListService) (inRecovery allowSubset : Bool) (self : Bytes)
    (s : RoundState P) : List BufferedCommitCandidate :=
  (s.ranking stewardList inRecovery allowSubset self).map shared

/-- This node minted the candidate. -/
def mintedAt (s : RoundState P) (z : BufferedCommitCandidate) : Bool :=
  s.roundCandidates.any fun c => c.isLocalCandidate && decide (c.shared = z)

theorem sharedRanking_eq (stewardList : StewardListService) (inRecovery allowSubset : Bool)
    (self : Bytes) (s : RoundState P) :
    sharedRanking stewardList inRecovery allowSubset self s =
      rankApplicableCandidates (s.roundCandidates.map shared)
        (s.context stewardList inRecovery self) allowSubset := by
  unfold sharedRanking RoundState.ranking rankApplicableCandidates
  let ctx := s.context stewardList inRecovery self
  let l := s.roundCandidates.filter (countApplicable ctx allowSubset)
  have hcmp : ∀ a ∈ l, ∀ b ∈ l, compareCandidatePriority ctx.epochStewardId a b =
      compareCandidatePriority ctx.epochStewardId a.shared b.shared := fun _ _ _ _ => rfl
  rw [map_sortBy shared l hcmp, List.filter_map]
  rfl

section Peers

variable {listX listY : StewardListService} {x y : RoundState P}

theorem SameRound.hashes_right (h : SameRound listX listY x y) :
    (y.roundCandidates.map (·.commitHash)).Nodup := by
  have hperm := (h.candidates.map (·.commitHash))
  rw [List.map_map, List.map_map] at hperm
  exact hperm.nodup_iff.mp h.hashes

theorem approvedRemoval_congr (h : SameRound listX listY x y) (id : Bytes) :
    x.queues.hasApprovedRemoval id = y.queues.hasApprovedRemoval id := by
  unfold ConversationQueues.hasApprovedRemoval
  rw [Bool.eq_iff_iff, List.any_eq_true, List.any_eq_true]
  simp only [h.approved.mem_iff]

theorem epochSteward_congr (h : SameRound listX listY x y) (inRecovery : Bool)
    (selfX selfY : Bytes) :
    (x.context listX inRecovery selfX).epochStewardId =
      (y.context listY inRecovery selfY).epochStewardId := by
  have heligible : x.queues.stewardEligibility x.mls.members =
      y.queues.stewardEligibility y.mls.members := by
    funext id
    unfold ConversationQueues.stewardEligibility
    rw [approvedRemoval_congr h]
    simp only [h.members]
  show listX.list.bind _ = listY.list.bind _
  rw [h.stewards, h.epoch, heligible]

theorem mlsCount_congr (h : SameRound listX listY x y) (inRecovery : Bool)
    (selfX selfY : Bytes) :
    (x.context listX inRecovery selfX).mlsCount = (y.context listY inRecovery selfY).mlsCount :=
  (h.approved.filter _).length_eq

/-- The two nodes rank alike. -/
theorem sharedRanking_congr (h : SameRound listX listY x y) (inRecovery allowSubset : Bool)
    (selfX selfY : Bytes) :
    sharedRanking listX inRecovery allowSubset selfX x =
      sharedRanking listY inRecovery allowSubset selfY y := by
  rw [sharedRanking_eq, sharedRanking_eq]
  have hcount : countApplicable (x.context listX inRecovery selfX) allowSubset =
      countApplicable (y.context listY inRecovery selfY) allowSubset := by
    funext c
    unfold countApplicable
    rw [mlsCount_congr h inRecovery selfX selfY]
  unfold rankApplicableCandidates
  rw [epochSteward_congr h inRecovery selfX selfY, hcount]
  apply sortBy_eq_of_perm (h.candidates.filter _)
  intro a ha b hb hab
  have ha := (List.mem_filter.mp ha).1
  have hb := (List.mem_filter.mp hb).1
  rw [List.mem_map] at ha hb
  obtain ⟨c, hc, rfl⟩ := ha
  obtain ⟨d, hd, rfl⟩ := hb
  have hhash : c.commitHash = d.commitHash := commitHash_eq_of_compare hab
  rw [List.inj_on_of_nodup_map h.hashes hc hd hhash]

/-- The ladder of the two nodes admits alike. -/
theorem admits_congr (h : SameRound listX listY x y) (inRecovery : Bool) (selfX selfY : Bytes)
    (verdict : Option (Bytes × List MlsProposalOutput)) :
    admits P.mls listX x.queues (x.context listX inRecovery selfX) verdict =
      admits P.mls listY y.queues (y.context listY inRecovery selfY) verdict := by
  cases verdict with
  | none => rfl
  | some verdict =>
    obtain ⟨sender, actions⟩ := verdict
    have hsteward : listX.isSteward sender = listY.isSteward sender := by
      unfold StewardListService.isSteward
      rw [h.stewards]
    have hauth : (checkCommitSenderAuthorized listX sender
        (x.context listX inRecovery selfX)).isNone = (checkCommitSenderAuthorized listY sender
          (y.context listY inRecovery selfY)).isNone := by
      unfold checkCommitSenderAuthorized
      rw [h.stewards, hsteward]
      show (if inRecovery = true then none else _ : Option ViolationEvidence).isNone =
        (if inRecovery = true then none else _ : Option ViolationEvidence).isNone
      split_ifs <;> rfl
    have hvoted : ∀ a, a ∈ votedActions P.mls x.queues ↔ a ∈ votedActions P.mls y.queues :=
      fun a => (h.approved.filterMap _).mem_iff
    have hact : (validateCommitCandidate P.mls x.queues sender actions
        (x.context listX inRecovery selfX)).isNone = (validateCommitCandidate P.mls y.queues sender
          actions (y.context listY inRecovery selfY)).isNone := by
      rw [Bool.eq_iff_iff, Option.isNone_iff_eq_none, Option.isNone_iff_eq_none,
        validateCommitCandidate_eq_none_iff, validateCommitCandidate_eq_none_iff]
      simp only [hvoted]
    show (_ && _) = (_ && _)
    rw [hauth, hact]

end Peers

/-- A ranked candidate is local exactly when this node minted it. -/
theorem mintedAt_shared {s : RoundState P} (hhashes : (s.roundCandidates.map (·.commitHash)).Nodup)
    {c : BufferedCommitCandidate} (hc : c ∈ s.roundCandidates) :
    mintedAt s c.shared = c.isLocalCandidate := by
  unfold mintedAt
  rw [Bool.eq_iff_iff, List.any_eq_true]
  constructor
  · rintro ⟨d, hd, hdc⟩
    rw [Bool.and_eq_true, decide_eq_true_eq] at hdc
    have hhash : d.commitHash = c.commitHash := congrArg (·.commitHash) hdc.2
    rw [← List.inj_on_of_nodup_map hhashes hd hc hhash]
    exact hdc.1
  · intro hlocal
    exact ⟨c, hc, by simp [hlocal]⟩

/-- The hash tells the candidates of the shared ranking apart. -/
theorem shared_inj {stewardList : StewardListService} {inRecovery allowSubset : Bool}
    {self : Bytes} {s : RoundState P} {a b : BufferedCommitCandidate}
    (hhashes : (s.roundCandidates.map (·.commitHash)).Nodup)
    (ha : a ∈ sharedRanking stewardList inRecovery allowSubset self s)
    (hb : b ∈ sharedRanking stewardList inRecovery allowSubset self s)
    (hhash : a.commitHash = b.commitHash) : a = b := by
  rw [sharedRanking_eq] at ha hb
  unfold rankApplicableCandidates at ha hb
  rw [mem_sortBy] at ha hb
  obtain ⟨c, hc, rfl⟩ := List.mem_map.mp (List.mem_of_mem_filter ha)
  obtain ⟨d, hd, rfl⟩ := List.mem_map.mp (List.mem_of_mem_filter hb)
  rw [List.inj_on_of_nodup_map hhashes hc hd hhash]

/-- The winner, in the shared ranking. -/
theorem shared_winner {stewardList : StewardListService} {inRecovery allowSubset : Bool}
    {self : Bytes} {s t : RoundState P} {r : CommitRoundResult P.mls} {merged : MergedCommit P.mls}
    {v : CommitCandidate → Option (Bytes × List MlsProposalOutput)}
    (hhashes : (s.roundCandidates.map (·.commitHash)).Nodup)
    (hv : VerdictIs stewardList inRecovery allowSubset self s v)
    (h : finalizeCommitRound stewardList inRecovery allowSubset self s = .ok r t)
    (hm : r.merged = some merged) :
    (sharedRanking stewardList inRecovery allowSubset self s).find? (fun z =>
      admits P.mls stewardList s.queues (s.context stewardList inRecovery self) (v z.candidateMsg) ||
        mintedAt s z) = some merged.candidate.shared := by
  have hwin := winner_eq_find? hv h hm
  unfold sharedRanking
  rw [List.find?_map]
  have hcongr : (s.ranking stewardList inRecovery allowSubset self).find?
      ((fun z => admits P.mls stewardList s.queues (s.context stewardList inRecovery self)
        (v z.candidateMsg) || mintedAt s z) ∘ shared) =
      (s.ranking stewardList inRecovery allowSubset self).find? (fun c =>
        admits P.mls stewardList s.queues (s.context stewardList inRecovery self)
          (v c.candidateMsg) || c.isLocalCandidate) := by
    apply List.find?_congr
    intro c hc
    have hmem : c ∈ s.roundCandidates := by
      unfold RoundState.ranking rankApplicableCandidates at hc
      rw [mem_sortBy] at hc
      exact List.mem_of_mem_filter hc
    show (_ || mintedAt s c.shared) = _
    rw [mintedAt_shared hhashes hmem]
    rfl
  rw [hcongr, hwin]
  rfl

/-- **Agreement of two rounds.** Both nodes merge the same commit exactly when the first ranked
candidate that either of them minted, or that passes the ladder, passes the ladder: a node merges
its own candidate unvalidated. -/
theorem round_agreement_iff {listX listY : StewardListService} {inRecovery allowSubset : Bool}
    {selfX selfY : Bytes} {x y tX tY : RoundState P} {rX rY : CommitRoundResult P.mls}
    {mergedX mergedY : MergedCommit P.mls}
    {v : CommitCandidate → Option (Bytes × List MlsProposalOutput)}
    (hround : SameRound listX listY x y)
    (hvX : VerdictIs listX inRecovery allowSubset selfX x v)
    (hvY : VerdictIs listY inRecovery allowSubset selfY y v)
    (hX : finalizeCommitRound listX inRecovery allowSubset selfX x = .ok rX tX)
    (hmX : rX.merged = some mergedX)
    (hY : finalizeCommitRound listY inRecovery allowSubset selfY y = .ok rY tY)
    (hmY : rY.merged = some mergedY) :
    mergedX.candidate.commitHash = mergedY.candidate.commitHash ↔
      ∃ z, (sharedRanking listX inRecovery allowSubset selfX x).find? (fun z =>
          admits P.mls listX x.queues (x.context listX inRecovery selfX) (v z.candidateMsg) ||
            mintedAt x z || mintedAt y z) = some z ∧
        admits P.mls listX x.queues (x.context listX inRecovery selfX)
          (v z.candidateMsg) = true := by
  have hwinX := shared_winner hround.hashes hvX hX hmX
  have hwinY := shared_winner hround.hashes_right hvY hY hmY
  rw [← sharedRanking_congr hround inRecovery allowSubset selfX selfY] at hwinY
  simp only [← admits_congr hround inRecovery selfX selfY] at hwinY
  rw [← find?_agree_iff (fun z _ => ?_) hwinX hwinY]
  · constructor
    · exact shared_inj hround.hashes (List.mem_of_find?_eq_some hwinX)
        (List.mem_of_find?_eq_some hwinY)
    · exact congrArg BufferedCommitCandidate.commitHash
  · rintro ⟨hown, hown'⟩
    unfold mintedAt at hown hown'
    rw [List.any_eq_true] at hown hown'
    obtain ⟨c, hc, hcz⟩ := hown
    obtain ⟨d, hd, hdz⟩ := hown'
    rw [Bool.and_eq_true, decide_eq_true_eq] at hcz hdz
    exact hround.owners c hc d hd (hcz.2.trans hdz.2.symm) ⟨hcz.1, hdz.1⟩

/-- Two members in recovery, both with the joiner `[20]` approved. -/
def Ideal.peer (own : LeafNodeIndex) : Conversation Ideal.platform :=
  Ideal.conversationOf own 1 [[10], [11]] (Ideal.stewardsOf [0, 1] 1) [.memberInvite [20]] none

/-- Both minted and exchanged their candidates, then the joiner `[30]` was approved too. -/
def Ideal.forkSide (own other : LeafNodeIndex) : RoundState Ideal.platform :=
  let s := Ideal.receiving (after (Conversation.buildLocalCandidate (memberIdOf own))
    (Ideal.peer own)) [Ideal.minted (Ideal.peer other)]
  { s with queues := s.queues.insertApprovedProposal 2 (.memberInvite [30]) }

/-- Each drops the other's candidate and merges its own. -/
theorem late_approval_forks : ∃ rX tX mergedX rY tY mergedY,
    SameRound (Ideal.stewardsOf [0, 1] 1) (Ideal.stewardsOf [0, 1] 1) (Ideal.forkSide 0 1)
      (Ideal.forkSide 1 0) ∧
    finalizeCommitRound (Ideal.stewardsOf [0, 1] 1) true true (memberIdOf 0)
      (Ideal.forkSide 0 1) = .ok rX tX ∧ rX.merged = some mergedX ∧
    finalizeCommitRound (Ideal.stewardsOf [0, 1] 1) true true (memberIdOf 1)
      (Ideal.forkSide 1 0) = .ok rY tY ∧ rY.merged = some mergedY ∧
    mergedX.candidate.commitHash ≠ mergedY.candidate.commitHash := by
  refine ⟨_, _, _, _, _, _, ?_, rfl, rfl, rfl, rfl, ?_⟩
  · exact ⟨rfl, fun _ => Iff.rfl, by decide, rfl, by decide, by decide, by decide⟩
  · decide

/-- Leaf 0 minted, leaf 1 received. -/
def Ideal.minterSide : RoundState Ideal.platform :=
  Ideal.receiving (after (Conversation.buildLocalCandidate (memberIdOf 0)) (Ideal.peer 0)) []

def Ideal.receiverSide : RoundState Ideal.platform :=
  Ideal.receiving (Ideal.peer 1) [Ideal.minted (Ideal.peer 0)]

/-- The law, at that round. -/
theorem minter_and_receiver_agree : ∃ rX tX mergedX rY tY mergedY,
    finalizeCommitRound (Ideal.stewardsOf [0, 1] 1) false false (memberIdOf 0)
      Ideal.minterSide = .ok rX tX ∧ rX.merged = some mergedX ∧
    finalizeCommitRound (Ideal.stewardsOf [0, 1] 1) false false (memberIdOf 1)
      Ideal.receiverSide = .ok rY tY ∧ rY.merged = some mergedY ∧
    (mergedX.candidate.commitHash = mergedY.candidate.commitHash ↔
      ∃ z, (sharedRanking (Ideal.stewardsOf [0, 1] 1) false false (memberIdOf 0)
          Ideal.minterSide).find? (fun z =>
            admits Ideal.mls (Ideal.stewardsOf [0, 1] 1) Ideal.minterSide.queues
              (Ideal.minterSide.context (Ideal.stewardsOf [0, 1] 1) false (memberIdOf 0))
              (some (z.candidateMsg.stewardMemberId, [.add [20]])) ||
            mintedAt Ideal.minterSide z || mintedAt Ideal.receiverSide z) = some z ∧
        admits Ideal.mls (Ideal.stewardsOf [0, 1] 1) Ideal.minterSide.queues
          (Ideal.minterSide.context (Ideal.stewardsOf [0, 1] 1) false (memberIdOf 0))
          (some (z.candidateMsg.stewardMemberId, [.add [20]])) = true) := by
  obtain ⟨rX, tX, mergedX, rY, tY, mergedY, b, d, w, hX, hmX, hY, hmY, hrankX, hlocal, hrankY,
      hstage⟩ : ∃ rX tX mergedX rY tY mergedY b d w,
      finalizeCommitRound (Ideal.stewardsOf [0, 1] 1) false false (memberIdOf 0)
        Ideal.minterSide = .ok rX tX ∧ rX.merged = some mergedX ∧
      finalizeCommitRound (Ideal.stewardsOf [0, 1] 1) false false (memberIdOf 1)
        Ideal.receiverSide = .ok rY tY ∧ rY.merged = some mergedY ∧
      Ideal.minterSide.ranking (Ideal.stewardsOf [0, 1] 1) false false (memberIdOf 0) = [b] ∧
      b.isLocalCandidate = true ∧
      Ideal.receiverSide.ranking (Ideal.stewardsOf [0, 1] 1) false false (memberIdOf 1) = [d] ∧
      stageCandidate d.candidateMsg (Ideal.receiverSide.context (Ideal.stewardsOf [0, 1] 1) false
          (memberIdOf 1)) Ideal.receiverSide.taken =
        .ok (.staged d.candidateMsg.stewardMemberId false [.add [20]]) w :=
    ⟨_, _, _, _, _, _, _, _, _, rfl, rfl, rfl, rfl, rfl, rfl, rfl, rfl⟩
  have hround : SameRound (Ideal.stewardsOf [0, 1] 1) (Ideal.stewardsOf [0, 1] 1) Ideal.minterSide
      Ideal.receiverSide :=
    ⟨rfl, fun _ => Iff.rfl, by decide, rfl, by decide, by decide, by decide⟩
  refine ⟨rX, tX, mergedX, rY, tY, mergedY, hX, hmX, hY, hmY, ?_⟩
  refine round_agreement_iff (v := fun c => some (c.stewardMemberId, [.add [20]])) hround
    (verdictIs_of_ranking hrankX fun h => ?_) (verdictIs_of_ranking hrankY fun _ o t h => ?_)
    hX hmX hY hmY
  · rw [hlocal] at h
    cases h
  · rw [hstage] at h
    cases h
    rfl

end DeMls
