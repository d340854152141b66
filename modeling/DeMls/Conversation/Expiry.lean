import DeMls.Conversation.NoWedge

/-!
# Proposals that outlive their session

A valid configuration has a proposal expire after its session's timeout. On the wire both are
seconds: the expiry is the second of the creation plus the whole seconds of the expiration, and votes are
checked against the second they are cast in. So a proposal outlives its session just if the whole
seconds of the timeout, and the one that the two fractions may fill, are fewer than those of the
expiration (`expiry_outlives_session_iff`).
-/

namespace DeMls

open Program

variable {P : Platform}

/-! ## Whole seconds -/

/-- The second that the fractions of two durations fill together. -/
def carry (t d : Nat) : Nat := if seconds 1 ≤ t % seconds 1 + d % seconds 1 then 1 else 0

theorem asSecs_add (t d : Nat) : asSecs (t + d) = asSecs t + asSecs d + carry t d := by
  unfold asSecs carry
  show (t + d) / seconds 1 = t / seconds 1 + d / seconds 1 + _
  exact Nat.add_div (by decide)

theorem asSecs_mono {t u : Nat} (h : t ≤ u) : asSecs t ≤ asSecs u := Nat.div_le_div_right h

/-- A duration in seconds, rounded up. -/
def ceilSecs (d : Nat) : Nat := asSecs (d + (seconds 1 - 1))

/-- Past every instant, a duration fills at most its seconds rounded up, and past some it does. -/
theorem forall_carry_lt_iff (d bound : Nat) :
    (∀ t, asSecs d + carry t d < bound) ↔ ceilSecs d < bound := by
  have hceil : ceilSecs d = asSecs d + carry (seconds 1 - 1) d := by
    unfold ceilSecs
    rw [Nat.add_comm, asSecs_add, show asSecs (seconds 1 - 1) = 0 from by decide]
    omega
  rw [hceil]
  constructor
  · exact fun h => h _
  · intro h t
    have hle : carry t d ≤ carry (seconds 1 - 1) d := by
      have hfraction : t % seconds 1 ≤ (seconds 1 - 1) % seconds 1 :=
        Nat.le_pred_of_lt (Nat.mod_lt _ (by decide))
      unfold carry
      split_ifs <;> omega
    omega

/-! ## Expiry -/

/-- No vote is taken at this second any more. -/
def Proposal.ExpiredAt (p : Proposal) (second : Nat) : Prop := p.expirationTimestamp ≤ second

/-- No reading of the clock from its creation to the end of its session finds the proposal
expired. -/
def Proposal.Outlives (p : Proposal) (created timeout : Nat) : Prop :=
  ∀ t, created ≤ t → t ≤ created + timeout → ¬ p.ExpiredAt (asSecs t)

/-- The last reading decides. -/
theorem Proposal.outlives_iff {p : Proposal} {created timeout : Nat} :
    p.Outlives created timeout ↔ asSecs (created + timeout) < p.expirationTimestamp := by
  unfold Outlives ExpiredAt
  constructor
  · exact fun h => Nat.lt_of_not_le (h _ (Nat.le_add_right _ _) (Nat.le_refl _))
  · intro h t _ hlast
    have hle := asSecs_mono hlast
    omega

/-- In whole seconds, the timeout of a session opened at `t` ends before the expiration. -/
def ConversationConfig.Spans (config : ConversationConfig) (t : Nat) : Prop :=
  asSecs config.consensusTimeout + carry t config.consensusTimeout <
    asSecs config.proposalExpiration

/-- A proposal expires the number of seconds it was given after the second it is created in. -/
def StampsSeconds (K : ConsensusService) : Prop :=
  ∀ st request now p st' outs, K.createProposalWithConfig st request now = (.ok p, st', outs) →
    p.expirationTimestamp = now + request.expirationSecs

namespace Conversation

/-- The stamp of a proposal of ours. -/
theorem expiration_submitProposal (hP : StampsSeconds P.consensus) {c d : Conversation P}
    {request : ConversationUpdateRequest} {voters : Nat} {id : ProposalId} {p : Proposal}
    (h : submitProposal request voters c = .ok (id, ⟨some (.proposal p)⟩) d) :
    p.expirationTimestamp = asSecs c.now + asSecs c.config.proposalExpiration := by
  unfold submitProposal at h
  rw [bind_run _ (get_apply c), bind_ok] at h
  obtain ⟨q, e, hcreate, hpure⟩ := h
  obtain ⟨hmessage, -⟩ := (pure_ok _ _ _ _).mp hpure
  cases hmessage
  rcases hcall : P.consensus.createProposalWithConfig c.consensus _ (asSecs c.now) with
    ⟨_ | q, st, outs⟩
  · rw [onConsensus_error hcall] at hcreate
    cases hcreate
  · rw [onConsensus_ok hcall] at hcreate
    cases hcreate
    exact hP _ _ _ _ _ _ hcall

/-- That of our leave, which is held down to what the wire can carry. -/
theorem expiration_submitSelfLeaveProposal {c d : Conversation P} {id : ProposalId} {p : Proposal}
    (h : submitSelfLeaveProposal c = .ok (some (id, ⟨some (.proposal p)⟩)) d) :
    p.expirationTimestamp =
      min (asSecs c.now + asSecs c.config.proposalExpiration) (2 ^ 64 - 1) := by
  unfold submitSelfLeaveProposal at h
  rw [bind_run _ (get_apply c), bind_ok] at h
  obtain ⟨v, e, -, h⟩ := h
  rw [bind_ok] at h
  obtain ⟨o, f, -, h⟩ := h
  split at h
  · obtain ⟨hmessage, -⟩ := (pure_ok _ _ _ _).mp h
    cases hmessage
    rfl
  · simp at h
  · simp at h

/-- **Expiry.** A proposal of ours outlives its session exactly if, in whole seconds, its timeout
from now ends before its expiration; a leave, if that second can be written down as well. This is so at
every instant exactly if the timeout rounded up is shorter than the expiration rounded down. -/
theorem expiry_outlives_session_iff (hP : StampsSeconds P.consensus) (c : Conversation P) :
    (∀ request voters id p d, submitProposal request voters c = .ok (id, ⟨some (.proposal p)⟩) d →
      (p.Outlives c.now c.config.consensusTimeout ↔ c.config.Spans c.now)) ∧
    (∀ id p d, submitSelfLeaveProposal c = .ok (some (id, ⟨some (.proposal p)⟩)) d →
      (p.Outlives c.now c.config.consensusTimeout ↔
        c.config.Spans c.now ∧ asSecs (c.now + c.config.consensusTimeout) < 2 ^ 64 - 1)) ∧
    ((∀ t, c.config.Spans t) ↔
      ceilSecs c.config.consensusTimeout < asSecs c.config.proposalExpiration) := by
  refine ⟨fun request voters id p d h => ?_, fun id p d h => ?_, ?_⟩
  · rw [Proposal.outlives_iff, expiration_submitProposal hP h, asSecs_add]
    unfold ConversationConfig.Spans
    omega
  · rw [Proposal.outlives_iff, expiration_submitSelfLeaveProposal h, lt_min_iff, asSecs_add]
    unfold ConversationConfig.Spans
    omega
  · exact forall_carry_lt_iff _ _

end Conversation

namespace Ideal

theorem stampsSeconds : StampsSeconds platform.consensus := by
  intro st request now p st' outs h
  cases h
  rfl

/-- A timeout of a second and an expiration of a second and a half. -/
def hasty : ConversationConfig :=
  { ConversationConfig.default with
    votingDelay := milliseconds 500
    consensusTimeout := milliseconds 1000
    proposalExpiration := milliseconds 1500 }

/-- A lone creator with such a configuration. -/
def hurried : Conversation platform := { alone with config := hasty }

theorem constructed_hurried : Conversation.Constructed hurried := by
  have hbase : Conversation.assemble (⟨[], groupOf 0 0 [[10]], none⟩ : MlsService platform.mls)
      ⟨[], ScoreEvent.defaultDelta, ⟨100, 0⟩⟩ [] 0 [0] hasty true = .ok hurried := by
    rfl
  have hseed : (Conversation.seedInitialMembers [] : ConvM platform Unit) hurried =
    .ok () hurried := rfl
  exact .create hbase hseed

end Ideal

open Conversation

/-- Under the default configuration a proposal outlives its session, whenever it is created. -/
theorem default_outlives : (∀ t, Ideal.alone.config.Spans t) ∧
    ∃ id p d, submitProposal (.memberInvite [11]) 1 Ideal.alone =
        .ok (id, ⟨some (.proposal p)⟩) d ∧ p.Outlives 0 (seconds 30) := by
  obtain ⟨hown, -, hall⟩ := expiry_outlives_session_iff Ideal.stampsSeconds Ideal.alone
  have hspans := hall.mpr (by decide)
  exact ⟨hspans, _, _, _, rfl, (hown _ 1 _ _ _ rfl).mpr (hspans _)⟩

/-- The hasty one is valid, and its proposals are found expired at the end of their session. -/
theorem hasty_proposal_expires : Ideal.hasty.validate = .ok () ∧ Constructed Ideal.hurried ∧
    ∃ id p d, submitProposal (.memberInvite [11]) 1 Ideal.hurried =
        .ok (id, ⟨some (.proposal p)⟩) d ∧
      p.ExpiredAt (asSecs (Ideal.hurried.now + Ideal.hasty.consensusTimeout)) ∧
      ¬ p.Outlives Ideal.hurried.now Ideal.hasty.consensusTimeout := by
  refine ⟨by decide, Ideal.constructed_hurried, _, _, _, rfl, ?_, ?_⟩
  · show 1 ≤ _
    decide
  · rw [Proposal.outlives_iff]
    show ¬ _ < 1
    decide

end DeMls
