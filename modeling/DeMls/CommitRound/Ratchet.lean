import DeMls.CommitRound.Round
import DeMls.Mls.SenderRatchet

/-!
# A round does not read the sender ratchet

Two rounds over one queue and over services that differ in the sender ratchet only
(`RoundAlike`) finalize alike: one result, the queues of one state, and again services that differ
there only.
-/

namespace DeMls

open Program

variable {P : Platform} {α : Type}

namespace SenderRatchet

variable (K : SenderRatchet P.mls)

/-- The rounds differ in the sender ratchet only. -/
def RoundAlike (s t : RoundState P) : Prop :=
  ∃ secrets, s = { t with mls := t.mls.setSecrets secrets } ∧ K.rest secrets = K.rest t.mls.group.secrets

theorem roundAlike_of {s t : RoundState P} (hqueues : s.queues = t.queues)
    (h : K.Alike s.mls t.mls) : K.RoundAlike s t := by
  obtain ⟨secrets, hmls, hrest⟩ := h
  refine ⟨secrets, ?_, hrest⟩
  rw [← hqueues, ← hmls]

/-- Rounds that differ in the ratchet only. -/
abbrev SameRounds : Judgement ConversationError (RoundState P) := Twin K.RoundAlike

theorem compositional_sameRounds : Compositional K.RoundAlike K.SameRounds :=
  compositional_twin K.RoundAlike

theorem round_onMls {x : EStateM MlsError (MlsService P.mls) α} (hx : Holds K.Same x) :
    Holds K.SameRounds (RoundState.onMls x) := by
  refine fun t => twin_zoom (fun s hs => ?_) (fun s u v hs huv => ?_) (hx t.mls)
  · obtain ⟨secrets, rfl, hrest⟩ := hs
    exact ⟨secrets, rfl, hrest⟩
  · obtain ⟨secrets, rfl, -⟩ := hs
    exact K.roundAlike_of rfl huv

theorem round_onQueues (f : ConversationQueues → α × ConversationQueues) :
    Holds K.SameRounds (RoundState.onQueues f : RoundM P α) := by
  rintro t _ ⟨secrets, rfl, hrest⟩
  exact .ok ⟨secrets, rfl, hrest⟩

theorem round_reads {f : RoundState P → RoundM P α}
    (h : ∀ t secrets, K.rest secrets = K.rest t.mls.group.secrets →
      f { t with mls := t.mls.setSecrets secrets } = f t)
    (hf : ∀ t, Holds K.SameRounds (f t)) : Holds K.SameRounds (get >>= f) := by
  intro t
  refine K.compositional_sameRounds.read ?_ (hf t t)
  rintro _ ⟨secrets, rfl, hrest⟩
  exact h t secrets hrest

/-! ## Applying one candidate -/

theorem stageCandidate (candidate : CommitCandidate) (ctx : RoundContext) :
    Holds K.SameRounds (stageCandidate candidate ctx : RoundM P _) := by
  have hq := K.compositional_sameRounds
  unfold DeMls.stageCandidate
  refine hq.seq (hq.caught (K.round_onMls (K.stageRemoteCommit _ _))) fun r => ?_
  split
  · exact Holds.ite (hq.done _) (hq.done _)
  · exact hq.done _
  · exact hq.done _
  · exact hq.done _

theorem rejectStaged (penalty : Option ScoreOp) :
    Holds K.SameRounds (rejectStaged penalty : RoundM P _) :=
  K.compositional_sameRounds.seq (K.round_onMls K.discardStagedCommit) fun _ =>
    K.compositional_sameRounds.done _

theorem applyLocalCandidate (chosen : BufferedCommitCandidate) (ctx : RoundContext) :
    Holds K.SameRounds (applyLocalCandidate chosen ctx : RoundM P _) := by
  have hq := K.compositional_sameRounds
  unfold DeMls.applyLocalCandidate
  refine K.round_reads (fun t secrets h => ?_) fun before => ?_
  · dsimp only [MlsService.setSecrets]
    rw [K.pendingCommit secrets t.mls.group.secrets h]
  · refine hq.seq (K.round_onMls K.mergeOwnCommit) fun delta => ?_
    exact hq.seq (K.round_onQueues _) fun _ => hq.seq (K.round_onQueues _) fun _ => hq.done _

theorem mergeIncomingCandidate (chosen : BufferedCommitCandidate) (ctx : RoundContext)
    (commitSender : Bytes) (selfRemoved : Bool) :
    Holds K.SameRounds (mergeIncomingCandidate chosen ctx commitSender selfRemoved :
      RoundM P _) := by
  have hq := K.compositional_sameRounds
  unfold DeMls.mergeIncomingCandidate
  refine hq.seq (K.round_onMls K.discardOwnCommit) fun _ => ?_
  refine K.round_reads (fun _ _ _ => rfl) fun before => ?_
  refine hq.seq (K.round_onMls K.mergesStagedCommit) fun delta => ?_
  exact hq.seq (K.round_onQueues _) fun _ => hq.seq (K.round_onQueues _) fun _ => hq.done _

theorem applyCandidate (stewardList : StewardListService) (chosen : BufferedCommitCandidate)
    (ctx : RoundContext) : Holds K.SameRounds (applyCandidate stewardList chosen ctx :
      RoundM P _) := by
  have hq := K.compositional_sameRounds
  refine Holds.ite (K.applyLocalCandidate chosen ctx) ?_
  unfold applyIncomingCandidate
  refine hq.seq (K.stageCandidate _ ctx) fun o => ?_
  cases o with
  | abort => exact K.rejectStaged _
  | violation v => exact K.rejectStaged _
  | staged commitSender selfRemoved commitActions =>
    refine K.round_reads (fun _ _ _ => rfl) fun s => ?_
    split
    · exact K.rejectStaged _
    · split
      · exact K.rejectStaged _
      · exact K.mergeIncomingCandidate _ _ _ _

/-! ## The round -/

theorem discardAndFinish (ops : List ScoreOp) :
    Holds K.SameRounds (discardAndFinish ops : RoundM P _) :=
  K.compositional_sameRounds.seq (K.round_onMls K.discardOwnCommit) fun _ =>
    K.compositional_sameRounds.done _

theorem applyInPriorityOrder (stewardList : StewardListService) (ctx : RoundContext)
    (selfMemberId : Bytes) (candidates : List BufferedCommitCandidate) (ops : List ScoreOp) :
    Holds K.SameRounds (applyInPriorityOrder stewardList ctx selfMemberId candidates ops :
      RoundM P _) := by
  have hq := K.compositional_sameRounds
  induction candidates generalizing ops with
  | nil => exact K.discardAndFinish ops
  | cons chosen remaining ih =>
    unfold DeMls.applyInPriorityOrder
    refine hq.seq (K.applyCandidate stewardList chosen ctx) fun o => ?_
    cases o with
    | terminal outcome committer batch merged => exact hq.done _
    | drop op => exact ih _

/-- **A round.** The sender ratchet does not decide it. -/
theorem finalizeCommitRound (stewardList : StewardListService) (inRecovery allowSubset : Bool)
    (selfMemberId : Bytes) :
    Holds K.SameRounds (finalizeCommitRound stewardList inRecovery allowSubset selfMemberId :
      RoundM P _) := by
  have hq := K.compositional_sameRounds
  unfold DeMls.finalizeCommitRound
  refine K.round_reads (fun _ _ _ => rfl) fun s => hq.seq (K.round_onQueues _) fun candidates => ?_
  refine Holds.ite (K.discardAndFinish _) (K.round_reads (fun _ _ _ => rfl) fun t => ?_)
  exact Holds.ite (K.discardAndFinish _) (K.applyInPriorityOrder _ _ _ _ _)

end SenderRatchet

end DeMls
