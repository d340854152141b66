import DeMls.Conversation.Turns
import DeMls.Ideal

/-!
# The approved set during a freeze

A freeze is to close the approved set until its round has run. A history keeps the set a node froze
with; `approved_set_frozen` says which outcomes must stay away for the set to stay as it is.
-/

namespace DeMls

open Program Runs

variable {P : Platform}

namespace Conversation

/-- The approved proposals and the urgent target. -/
def approvedSet (c : Conversation P) :
    OrderedMap ProposalId ConversationUpdateRequest × Option Bytes :=
  (c.queues.approvedProposals, c.queues.urgentCommitTarget)

/-- What a node froze with, from its entry into `Freezing` until a round has run. -/
abbrev Frozen : Type := Option (OrderedMap ProposalId ConversationUpdateRequest × Option Bytes)

def Event.isRound : Event P → Bool
  | .round _ _ _ => true
  | _ => false

/-- The history after a step from `c` to `d`. -/
def freeze (h : Frozen) (c : Conversation P) (e : Event P) (d : Conversation P) : Frozen :=
  if e.isRound then none
  else
    match h with
    | some frozen => some frozen
    | none => if c.state ≠ .freezing ∧ d.state = .freezing then some d.approvedSet else none

/-- A yes on the request queues an approval: it joins as it is, or as an urgent removal. -/
def QueuesOnYes (O : OpenMls) (q : ConversationQueues) (request : ConversationUpdateRequest) : Prop :=
  Joins O q request ∨ ∃ ev, request.payload = some (.emergencyCriteria (some ev)) ∧
    isScoreBelowThreshold ev = true ∧ q.hasApprovedRemoval ev.targetMemberId = false

/-- No outcome handled while the node is frozen queues an approval. -/
def KeepsFrozen (s : Conversation P × Frozen) : Event P → Prop
  | .outcome event => s.2.isSome = true → event.fields.2.1 = true →
      ∀ request, s.1.resolved event.fields.1 = some request →
        ¬ QueuesOnYes P.mls s.1.queues request
  | _ => True

/-- The approved set is the one the node froze with. -/
def Unchanged (s : Conversation P × Frozen) : Prop :=
  ∀ frozen, s.2 = some frozen → s.1.approvedSet = frozen

theorem approvedSet_of_ledger {c d : Conversation P} (h : d.queues.ledger = c.queues.ledger) :
    d.approvedSet = c.approvedSet := by
  have happroved : d.queues.approvedProposals = c.queues.approvedProposals := congrArg Prod.fst h
  have hurgent : d.queues.urgentCommitTarget = c.queues.urgentCommitTarget :=
    congrArg (fun l => l.2.1) h
  unfold approvedSet
  rw [happroved, hurgent]

/-- A step that leaves the approved set of a frozen node alone keeps it unchanged. -/
theorem Unchanged.of_kept {c d : Conversation P} {h : Frozen} {e : Event P} (hI : Unchanged (c, h))
    (hkept : h.isSome = true → d.approvedSet = c.approvedSet) : Unchanged (d, freeze h c e d) := by
  intro frozen hfrozen
  have hfrozen : freeze h c e d = some frozen := hfrozen
  unfold freeze at hfrozen
  by_cases hround : e.isRound = true
  · rw [if_pos hround] at hfrozen
    cases hfrozen
  · rw [if_neg hround] at hfrozen
    cases h with
    | some f =>
      cases hfrozen
      exact (hkept rfl).trans (hI frozen rfl)
    | none =>
      dsimp only at hfrozen
      split_ifs at hfrozen
      exact Option.some.inj hfrozen

/-- **A step** whose outcome, if it is one, queues nothing keeps the approved set of a frozen
node. -/
theorem Unchanged.step {c d : Conversation P} {h : Frozen} {e : Event P} (hI : Unchanged (c, h))
    (hcond : KeepsFrozen (c, h) e) (hstep : Turn c e d) : Unchanged (d, freeze h c e d) := by
  cases hstep.effect with
  | kept _ hledger _ => exact hI.of_kept fun _ => approvedSet_of_ledger hledger
  | @outcome event request hresolved _ heffect =>
    refine hI.of_kept fun hfrozen => approvedSet_of_ledger ?_
    generalize d.queues.ledger = ledger at heffect ⊢
    cases heffect with
    | kept _ => rfl
    | urgent _ happroved hpayload hscore hfresh =>
      exact absurd (.inr ⟨_, hpayload, hscore, hfresh⟩) (hcond hfrozen happroved request hresolved)
    | queued _ happroved hjoins =>
      exact absurd (.inl hjoins) (hcond hfrozen happroved request hresolved)
  | merged _ =>
    rintro frozen ⟨⟩

/-- **The approved set is frozen** in every run whose outcomes, while a node is frozen, queue
nothing: until the round has run, the approved proposals and the urgent target are the ones the node
entered `Freezing` with. -/
theorem approved_set_frozen {s : Conversation P × Frozen}
    (h : Reaches (fun s => s.2 = none) (watch freeze Turn) KeepsFrozen s) : Unchanged s := by
  refine h.invariant ?_ ?_
  · rintro ⟨c, history⟩ hnone frozen hfrozen
    cases (show history = none from hnone).symm.trans hfrozen
  · rintro ⟨c, history⟩ e ⟨d, history'⟩ hI hcond ⟨hstep, hfreeze⟩
    have hfreeze : history' = freeze history c e d := hfreeze
    subst hfreeze
    exact hI.step hcond hstep

end Conversation

/-! ## Evaluations -/

/-- A removal is approved, a joiner still in voting, and the freeze begins. -/
def Ideal.frozenEarly : Conversation Ideal.platform :=
  Program.after Conversation.startFreezing (Ideal.approve 1 (Ideal.tracked 2 (.memberInvite [20])
    (Ideal.tracked 1 (.removeMember (memberIdOf 2)) Ideal.start)))

/-- The run that freezes. -/
theorem Ideal.frozenEarly_reached {cond : Conversation Ideal.platform × Conversation.Frozen →
    Conversation.Event Ideal.platform → Prop} (hcond : ∀ c e, cond (c, none) e) :
    Reaches (fun s => s.2 = none) (watch Conversation.freeze Conversation.Turn) cond
      (Ideal.frozenEarly, some Ideal.frozenEarly.approvedSet) :=
  .next (.next (.next (.next (.start (s := (Ideal.start, none)) rfl) (hcond _ _)
    ⟨.step (.incomingProposal _ (Ideal.proposalOf 1 (.removeMember (memberIdOf 2)))), rfl⟩) (hcond _ _)
    ⟨.step (.incomingProposal _ (Ideal.proposalOf 2 (.memberInvite [20]))), rfl⟩) (hcond _ _)
    ⟨.step (.outcome _ (.consensusReached 1 true 0)), rfl⟩) (hcond _ _)
    ⟨.step (.of_frame Conversation.frame_startFreezing _), rfl⟩

/-- The joiner's vote ends during the freeze, and the approved set grows. -/
theorem approved_during_freeze : ∃ frozen, Reaches (fun s => s.2 = none)
      (watch Conversation.freeze Conversation.Turn) (fun _ _ => True)
      (Ideal.approve 2 Ideal.frozenEarly, some frozen) ∧
    ¬ Conversation.Unchanged (Ideal.approve 2 Ideal.frozenEarly, some frozen) := by
  refine ⟨Ideal.frozenEarly.approvedSet, .next (Ideal.frozenEarly_reached fun _ _ => trivial) trivial
    ⟨.step (.outcome _ (.consensusReached 2 true 0)), rfl⟩, fun h => ?_⟩
  have hsame := congrArg (fun s => s.1.entries.length) (h _ rfl)
  revert hsame
  decide

/-- The law, where the joiner is voted down during the freeze. -/
theorem rejected_during_freeze : Conversation.Unchanged (Program.after
    (Conversation.handleConsensusOutcome (.consensusReached 2 false 0)) Ideal.frozenEarly,
      some Ideal.frozenEarly.approvedSet) := by
  refine Conversation.approved_set_frozen (.next (Ideal.frozenEarly_reached ?_) ?_
    ⟨.step (.outcome _ (.consensusReached 2 false 0)), rfl⟩)
  · intro c e
    cases e <;> simp [Conversation.KeepsFrozen]
  · rintro _ ⟨⟩

end DeMls
