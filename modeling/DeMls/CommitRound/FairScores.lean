import DeMls.CommitRound.Spec
import DeMls.Ideal

/-!
# Whom a round penalizes

A round that applies scores three kinds of candidates: those it dropped on the way to the winner,
the one of an epoch steward it did not get, and those it did not look at. Only the first were
staged, so only for them it knows who made them. The scores are fair (`FairScores`) when nobody
else is accused of what nobody verified, and they are exactly where `scores_fair_iff` says.
-/

namespace DeMls

open Program RoundState Selection

variable {P : Platform}

/-- The event lowers a score. -/
def ScoreEvent.isPenalty (e : ScoreEvent) : Bool := decide (e.defaultDelta < 0)

/-- Who made a candidate: we, or the sender MLS verifies when it is staged on this group. -/
def RoundState.verifiedSender (s : RoundState P) (c : BufferedCommitCandidate) : Option Bytes :=
  if c.isLocalCandidate then some c.candidateMsg.stewardMemberId
  else
    match MlsService.stageRemoteCommit c.candidateMsg.mlsProposals c.candidateMsg.commitMessage
        s.mls with
    | .ok (.staged sender _ _) _ => some sender
    | .ok (.bundleSenderMismatch sender) _ => some sender
    | _ => none

/-! ## How a round is decided -/

/-- How a round went: the penalties of the candidates dropped before the winner, the member that
committed, the candidates ranked after it, and the scores recorded with the win. -/
structure Verdict where
  dropped : List ScoreOp
  committer : Bytes
  losers : List BufferedCommitCandidate
  recorded : List ScoreOp

/-- The round from `s` to `t` went that way. -/
structure Verdict.Of (v : Verdict) (stewardList : StewardListService) (inRecovery allowSubset : Bool)
    (me : Bytes) (s t : RoundState P) (r : CommitRoundResult P.mls) : Prop where
  scored : r.scoreOps = v.dropped ++ v.recorded
  recorded : v.recorded = winnerScores v.committer me (s.context stewardList inRecovery me)
    v.losers stewardList
  decided : ∃ pre winner u merged,
    s.ranking stewardList inRecovery allowSubset me = pre ++ winner :: v.losers ∧
    RejectRun stewardList (s.context stewardList inRecovery me) pre v.dropped s.taken u ∧
    applyCandidate stewardList winner (s.context stewardList inRecovery me) u =
      .ok (.terminal r.outcome v.committer r.committedBatch merged) t

/-- A round that applied has gone some way. -/
theorem exists_verdict {stewardList : StewardListService} {inRecovery allowSubset : Bool}
    {self : Bytes} {s t : RoundState P} {r : CommitRoundResult P.mls}
    (h : finalizeCommitRound stewardList inRecovery allowSubset self s = .ok r t)
    (happlied : r.outcome.isApplied = true) :
    ∃ v : Verdict, v.Of stewardList inRecovery allowSubset self s t r := by
  rw [finalizeCommitRound_eq] at h
  rcases applyInPriorityOrder_ok h with ⟨ops, u, -, hdone⟩ |
    ⟨pre, winner, losers, ops, u, outcome, committer, batch, merged, hrank, hrun, hwins, rfl⟩
  · obtain ⟨_, _, _, rfl⟩ := discardAndFinish_steps hdone
    cases happlied
  · let wins := winnerScores committer self (s.context stewardList inRecovery self) losers stewardList
    exact ⟨⟨ops, committer, losers, wins⟩, rfl, rfl, pre, winner, u, merged, hrank, hrun, hwins⟩

/-- A dropped candidate is accused of what staging it has shown, never of inactivity. -/
theorem event_of_ladder {stewardList : StewardListService} {c : CommitCandidate}
    {ctx : RoundContext} {s u : RoundState P} {o : StagingOutcome} {op : ScoreOp}
    (hstage : stageCandidate c ctx s = .ok o u)
    (hladder : ladder P.mls stewardList s.queues ctx o = some (some op)) :
    op.event ≠ .censorshipInactivity := by
  cases o with
  | abort => cases hladder
  | violation v =>
    have hop : v.targetScoreOp = some op := Option.some.inj hladder
    unfold ViolationEvidence.targetScoreOp at hop
    rw [stageCandidate_violation hstage] at hop
    cases hop
    exact ScoreEvent.noConfusion
  | staged sender selfRemoved actions =>
    unfold ladder checkCommitSenderAuthorized validateCommitCandidate at hladder
    dsimp only at hladder
    split at hladder
    · rename_i violation hauth
      split_ifs at hauth
      cases hauth
      cases hladder
      exact ScoreEvent.noConfusion
    · split at hladder
      · rename_i violation hact
        split_ifs at hact
        cases hact
        cases hladder
        exact ScoreEvent.noConfusion
      · cases hladder

theorem event_of_dropped {stewardList : StewardListService} {ctx : RoundContext}
    {cs : List BufferedCommitCandidate} {ops : List ScoreOp} {s t : RoundState P} {op : ScoreOp}
    (h : RejectRun stewardList ctx cs ops s t) (hop : op ∈ ops) :
    op.event ≠ .censorshipInactivity := by
  induction h with
  | nil => cases hop
  | cons hdrop _ ih =>
    rcases List.mem_append.mp hop with hop | hop
    · rw [Option.mem_toList] at hop
      cases hop
      obtain ⟨-, -, o, u, hstage, hladder⟩ := applyCandidate_drop hdrop
      exact event_of_ladder hstage hladder
    · exact ih hop

/-! ## Fair scores -/

section Fair
variable (stewardList : StewardListService) (inRecovery : Bool) (me : Bytes) (s : RoundState P)
  (v : Verdict)

/-- Staging has shown the member to the round, or the list expects it. -/
def Vouched (id : Bytes) : Prop :=
  id = v.committer ∨ (∃ op ∈ v.dropped, op.memberId = id) ∨
    (s.context stewardList inRecovery me).epochStewardId = some id

/-- The member may commit in the mode of the round. -/
def Authorized (id : Bytes) : Prop :=
  checkCommitSenderAuthorized stewardList id (s.context stewardList inRecovery me) = none

/-- What a round owes the members: an authorized competitor that lost is not penalized, nor is a
member that only the unverified claim of a candidate names, and only an expected steward without a
candidate in the round is inactive. -/
structure FairScores : Prop where
  competitors : ∀ loser ∈ v.losers, ∀ id, s.taken.verifiedSender loser = some id →
    Authorized stewardList inRecovery me s id →
      ∀ op ∈ v.recorded, op.memberId = id → op.event.isPenalty = false
  claims : ∀ op ∈ v.dropped ++ v.recorded, op.event.isPenalty = true →
    ∀ c ∈ s.roundCandidates, c.candidateMsg.stewardMemberId = op.memberId →
      Vouched stewardList inRecovery me s v op.memberId
  absent : ∀ id, ⟨id, .censorshipInactivity⟩ ∈ v.dropped ++ v.recorded →
    (s.context stewardList inRecovery me).epochStewardId = some id ∧
      ∀ c ∈ s.roundCandidates, s.taken.verifiedSender c ≠ some id

/-- A loser claims a seat on the list; or a name off it that staging has shown, and that no
authorized loser bears. The expected steward committed, is this node, or sent no candidate. -/
structure Unambiguous : Prop where
  losers : ∀ loser ∈ v.losers, stewardList.isSteward loser.candidateMsg.stewardMemberId = true ∨
    (loser.candidateMsg.stewardMemberId = v.committer ∨
      ∃ op ∈ v.dropped, op.memberId = loser.candidateMsg.stewardMemberId) ∧
    ∀ other ∈ v.losers,
      s.taken.verifiedSender other = some loser.candidateMsg.stewardMemberId →
        ¬ Authorized stewardList inRecovery me s loser.candidateMsg.stewardMemberId
  steward : ∀ id, (s.context stewardList inRecovery me).epochStewardId = some id →
    id = v.committer ∨ id = me ∨ ∀ c ∈ s.roundCandidates, s.taken.verifiedSender c ≠ some id

end Fair

section
variable {stewardList : StewardListService} {inRecovery allowSubset : Bool} {me : Bytes}
  {s t : RoundState P} {r : CommitRoundResult P.mls} {v : Verdict}

/-- The steward of an epoch is on the list. -/
theorem isSteward_of_context {id : Bytes}
    (h : (s.context stewardList inRecovery me).epochStewardId = some id) :
    stewardList.isSteward id = true := by
  have h : stewardList.epochSteward s.mls.group.epoch
      (s.queues.stewardEligibility s.mls.members) = some id := h
  unfold StewardListService.epochSteward at h
  unfold StewardListService.isSteward
  cases hlist : stewardList.list with
  | none =>
    rw [hlist] at h
    cases h
  | some l =>
    rw [hlist] at h
    exact decide_eq_true (StewardList.stewardFrom_mem h).1

/-- What is recorded with a win, taken apart. -/
theorem mem_recorded_iff (hv : v.Of stewardList inRecovery allowSubset me s t r) {op : ScoreOp} :
    op ∈ v.recorded ↔ op = ⟨v.committer, .successfulCommit⟩ ∨
      (∃ id, (s.context stewardList inRecovery me).epochStewardId = some id ∧ id ≠ v.committer ∧
        id ≠ me ∧ op = ⟨id, .censorshipInactivity⟩) ∨
      ∃ loser ∈ v.losers, op = ⟨loser.candidateMsg.stewardMemberId,
        if stewardList.isSteward loser.candidateMsg.stewardMemberId then .honestCommitAttempt
        else .misbehavingCommit⟩ := by
  rw [hv.recorded]
  unfold winnerScores
  simp only [List.mem_append, List.mem_singleton, List.mem_map, or_assoc]
  refine or_congr Iff.rfl (or_congr ?_ ?_)
  · cases hexpected : (s.context stewardList inRecovery me).epochStewardId with
    | none => simp
    | some expected =>
      dsimp only
      split_ifs with hmissed
      · simp [hmissed.1, hmissed.2]
      · simp only [List.not_mem_nil, false_iff, not_exists]
        rintro id ⟨hid, hcommitter, hme, -⟩
        cases hid
        exact hmissed ⟨hcommitter, hme⟩
  · exact ⟨fun ⟨l, hl, h⟩ => ⟨l, hl, h.symm⟩, fun ⟨l, hl, h⟩ => ⟨l, hl, h.symm⟩⟩

/-- The losers were in the round. -/
theorem losers_subset (hv : v.Of stewardList inRecovery allowSubset me s t r) :
    ∀ loser ∈ v.losers, loser ∈ s.roundCandidates := by
  obtain ⟨pre, winner, u, merged, hrank, -, -⟩ := hv.decided
  intro loser hloser
  have hmem : loser ∈ s.ranking stewardList inRecovery allowSubset me := by
    rw [hrank]
    exact List.mem_append_right _ (List.mem_cons_of_mem _ hloser)
  exact (List.mem_filter.mp (mem_sortBy.mp hmem)).1

/-- A listed loser is not penalized for losing, another one is. -/
theorem isPenalty_loser_iff {id : Bytes} :
    (if stewardList.isSteward id then ScoreEvent.honestCommitAttempt
      else ScoreEvent.misbehavingCommit).isPenalty = true ↔ stewardList.isSteward id = false := by
  cases stewardList.isSteward id <;> decide

/-- **When the scores are fair.** -/
theorem fairScores_iff (hv : v.Of stewardList inRecovery allowSubset me s t r) :
    FairScores stewardList inRecovery me s v ↔ Unambiguous stewardList inRecovery me s v := by
  constructor
  · intro hfair
    constructor
    · intro loser hloser
      by_cases hlisted : stewardList.isSteward loser.candidateMsg.stewardMemberId = true
      · exact .inl hlisted
      · have hrecorded := (mem_recorded_iff hv).mpr (.inr (.inr ⟨loser, hloser, rfl⟩))
        have hpenalty := isPenalty_loser_iff.mpr (Bool.not_eq_true _ ▸ hlisted)
        refine .inr ⟨?_, fun other hother hsender hauthorized => ?_⟩
        · rcases hfair.claims _ (List.mem_append_right _ hrecorded) hpenalty loser
            (losers_subset hv loser hloser) rfl with hcommitter | hdropped | hexpected
          · exact .inl hcommitter
          · exact .inr hdropped
          · exact absurd (isSteward_of_context hexpected) hlisted
        · have hspared := hfair.competitors other hother _ hsender hauthorized _ hrecorded rfl
          rw [hpenalty] at hspared
          cases hspared
    · intro id hexpected
      by_cases hcommitter : id = v.committer
      · exact .inl hcommitter
      by_cases hme : id = me
      · exact .inr (.inl hme)
      · have hrecorded := (mem_recorded_iff hv).mpr
          (.inr (.inl ⟨id, hexpected, hcommitter, hme, rfl⟩))
        exact .inr (.inr (hfair.absent id (List.mem_append_right _ hrecorded)).2)
  · intro hclear
    obtain ⟨pre, winner, u, merged, -, hdropped, -⟩ := hv.decided
    -- A loser off the list is penalized, and then staging has shown its name.
    have hshown : ∀ loser ∈ v.losers,
        stewardList.isSteward loser.candidateMsg.stewardMemberId = false →
          (loser.candidateMsg.stewardMemberId = v.committer ∨
            ∃ op ∈ v.dropped, op.memberId = loser.candidateMsg.stewardMemberId) ∧
          ∀ other ∈ v.losers,
            s.taken.verifiedSender other = some loser.candidateMsg.stewardMemberId →
              ¬ Authorized stewardList inRecovery me s loser.candidateMsg.stewardMemberId := by
      intro loser hloser hunlisted
      refine (hclear.losers loser hloser).resolve_left fun hlisted => ?_
      rw [hunlisted] at hlisted
      cases hlisted
    constructor
    · intro loser hloser id hsender hauthorized op hop hid
      rcases (mem_recorded_iff hv).mp hop with rfl | ⟨absentee, hexpected, hcommitter, hme, rfl⟩ |
        ⟨other, hother, rfl⟩
      · rfl
      · subst hid
        rcases hclear.steward absentee hexpected with h | h | hsent
        · exact absurd h hcommitter
        · exact absurd h hme
        · exact absurd hsender (hsent loser (losers_subset hv loser hloser))
      · subst hid
        refine Bool.eq_false_iff.mpr fun hpenalty => ?_
        exact (hshown other hother (isPenalty_loser_iff.mp hpenalty)).2 loser hloser hsender
          hauthorized
    · intro op hop hpenalty c _ _
      rcases List.mem_append.mp hop with hop | hop
      · exact .inr (.inl ⟨op, hop, rfl⟩)
      · rcases (mem_recorded_iff hv).mp hop with rfl | ⟨absentee, hexpected, -, -, rfl⟩ |
          ⟨loser, hloser, rfl⟩
        · cases hpenalty
        · exact .inr (.inr hexpected)
        · rcases (hshown loser hloser (isPenalty_loser_iff.mp hpenalty)).1 with h | h
          · exact .inl h
          · exact .inr (.inl h)
    · intro id hop
      rcases List.mem_append.mp hop with hop | hop
      · exact absurd rfl (event_of_dropped hdropped hop)
      · rcases (mem_recorded_iff hv).mp hop with h | ⟨absentee, hexpected, hcommitter, hme, h⟩ |
          ⟨loser, -, h⟩
        · cases h
        · cases h
          rcases hclear.steward id hexpected with h | h | hsent
          · exact absurd h hcommitter
          · exact absurd h hme
          · exact ⟨hexpected, hsent⟩
        · split_ifs at h <;> cases h

/-- **Fair rounds.** A round that applies has a verdict, and its scores are fair exactly when the
losers claim nothing that nobody verified and the expected steward, if it did not commit, sent no
candidate. -/
theorem scores_fair_iff
    (h : finalizeCommitRound stewardList inRecovery allowSubset me s = .ok r t)
    (happlied : r.outcome.isApplied = true) :
    (∃ v : Verdict, v.Of stewardList inRecovery allowSubset me s t r) ∧
    ∀ v : Verdict, v.Of stewardList inRecovery allowSubset me s t r →
      (FairScores stewardList inRecovery me s v ↔ Unambiguous stewardList inRecovery me s v) :=
  ⟨exists_verdict h happlied, fun _ hv => fairScores_iff hv⟩

end

/-! ## A crowded recovery round -/

namespace Ideal

/-- Five members with stewards 0 and 1, in recovery mode, and approved removals of some leaves. -/
def fiveRecovering (own : LeafNodeIndex) (leaves : List LeafNodeIndex) : Conversation platform :=
  { conversationOf own 1 [[10], [11], [12], [13], [14]] (stewardsOf [0, 1] 1)
      (leaves.map fun leaf => .removeMember (memberIdOf leaf)) none with operatingMode := .recovery }

/-- Steward 1 carries both removals; steward 0 and members 3 and 4 carry one each, member 4 under
the name of a steward nobody knows. -/
def crowd : List CommitCandidate :=
  [minted (fiveRecovering 1 [3, 4]), minted (fiveRecovering 0 [4]), minted (fiveRecovering 3 [4]),
    { minted (fiveRecovering 4 [3]) with stewardMemberId := [9] }]

/-- The round of member 2 with these candidates. -/
def crowdedRound : RoundState platform := receiving (fiveRecovering 2 [3, 4]) crowd

/-- What member 2 gets from it in recovery mode. -/
def crowdedResult :
    EStateM.Result ConversationError (RoundState platform) (CommitRoundResult platform.mls) :=
  finalizeCommitRound (fiveRecovering 2 [3, 4]).stewardList true true (memberIdOf 2) crowdedRound

end Ideal

/-- The round of steward 1 applies. Steward 0, whose candidate lost, is inactive; member 3, who may
commit in recovery mode, and the unknown steward 9 misbehave. -/
theorem crowdedRound_applies : ∃ r t, Ideal.crowdedResult = .ok r t ∧ r.outcome.isApplied = true ∧
    r.scoreOps = [⟨memberIdOf 1, .successfulCommit⟩, ⟨memberIdOf 0, .censorshipInactivity⟩,
      ⟨memberIdOf 0, .honestCommitAttempt⟩, ⟨memberIdOf 3, .misbehavingCommit⟩,
      ⟨[9], .misbehavingCommit⟩] := by
  have h : (match Ideal.crowdedResult with
      | .ok r _ => r.outcome.isApplied && decide (r.scoreOps =
          [⟨memberIdOf 1, .successfulCommit⟩, ⟨memberIdOf 0, .censorshipInactivity⟩,
            ⟨memberIdOf 0, .honestCommitAttempt⟩, ⟨memberIdOf 3, .misbehavingCommit⟩,
            ⟨[9], .misbehavingCommit⟩])
      | .error _ _ => false) = true := by decide +kernel
  cases hresult : Ideal.crowdedResult with
  | ok r t =>
    rw [hresult] at h
    exact ⟨r, t, rfl, (Bool.and_eq_true_iff.mp h).1, of_decide_eq_true (Bool.and_eq_true_iff.mp h).2⟩
  | error e t =>
    rw [hresult] at h
    cases h

/-- Its scores are not fair. -/
theorem crowdedRound_unfair : ∃ r t, Ideal.crowdedResult = .ok r t ∧ r.outcome.isApplied = true ∧
    ∀ v : Verdict,
      v.Of (Ideal.fiveRecovering 2 [3, 4]).stewardList true true (memberIdOf 2) Ideal.crowdedRound
        t r →
      ¬ FairScores (Ideal.fiveRecovering 2 [3, 4]).stewardList true (memberIdOf 2)
        Ideal.crowdedRound v := by
  obtain ⟨r, t, hresult, happlied, hops⟩ := crowdedRound_applies
  refine ⟨r, t, hresult, happlied, fun v hv hfair => ?_⟩
  have hop : ⟨memberIdOf 0, .censorshipInactivity⟩ ∈ v.dropped ++ v.recorded := by
    rw [← hv.scored, hops]
    simp
  have hsent : ∃ c ∈ Ideal.crowdedRound.roundCandidates,
      Ideal.crowdedRound.taken.verifiedSender c = some (memberIdOf 0) := by decide +kernel
  obtain ⟨c, hc, hsender⟩ := hsent
  exact (hfair.absent _ hop).2 c hc hsender

/-- The theorem on that round: a verdict, and its scores are as fair as the round is clear. -/
theorem crowdedRound_iff : ∃ r t, Ideal.crowdedResult = .ok r t ∧ r.outcome.isApplied = true ∧
    (∃ v : Verdict, v.Of (Ideal.fiveRecovering 2 [3, 4]).stewardList true true (memberIdOf 2)
      Ideal.crowdedRound t r) ∧
    ∀ v : Verdict, v.Of (Ideal.fiveRecovering 2 [3, 4]).stewardList true true (memberIdOf 2)
      Ideal.crowdedRound t r →
      (FairScores (Ideal.fiveRecovering 2 [3, 4]).stewardList true (memberIdOf 2)
          Ideal.crowdedRound v ↔
        Unambiguous (Ideal.fiveRecovering 2 [3, 4]).stewardList true (memberIdOf 2)
          Ideal.crowdedRound v) := by
  obtain ⟨r, t, hresult, happlied, -⟩ := crowdedRound_applies
  exact ⟨r, t, hresult, happlied, scores_fair_iff hresult happlied⟩

end DeMls
