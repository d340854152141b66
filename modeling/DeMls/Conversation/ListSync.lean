import DeMls.Conversation.StewardSeats
import DeMls.Conversation.Sync
import DeMls.Conversation.Turns
import DeMls.IdealWire

/-!
# A steward list reaches a joiner

A receiver rebuilds the order of a list from the members of today without those its sender calls
unsettled. `settledWithin_of_turns` says that over any history these are members the list was drawn
from, and `sync_reproduced_iff` when that is enough to find the same list again.
-/

namespace DeMls

open Program Relation

variable {P : Platform}

/-- A merge never sets the epoch back. -/
theorem TreeStep.epoch_le {O : OpenMls} {g g' : MlsGroup O.Secrets} {staged : Option O.StagedCommit}
    (h : TreeStep O g g' staged) : g.epoch ≤ g'.epoch := by
  cases h with
  | @own _ merged _ _ _ hafter =>
    cases merged with
    | none => exact (congrArg (fun g : MlsGroup Unit => g.epoch) hafter).ge
    | some members =>
      have hnext : g'.epoch = g.epoch + 1 := congrArg (fun g : MlsGroup Unit => g.epoch) hafter
      exact hnext ▸ Nat.le_succ _
  | remote _ _ _ hafter =>
    have hnext : g'.epoch = g.epoch + 1 := congrArg (fun g : MlsGroup Unit => g.epoch) hafter
    exact hnext ▸ Nat.le_succ _

namespace Conversation

/-! ## The members a list was drawn from -/

/-- Whoever counts as settled at `epoch`, which is not ahead, is in `pool`. -/
def SettledWithin (epoch : Nat) (pool : List Bytes) (c : Conversation P) : Prop :=
  epoch ≤ c.epoch ∧ ∀ id ∈ c.settledPool epoch, id ∈ pool

/-- A merge makes nobody settled at an epoch already reached. -/
theorem settledWithin_of_merges {c d : Conversation P} {merged : MergedCommit P.mls}
    {batch : List ConversationUpdateRequest} {epoch : Nat} {pool : List Bytes}
    (h : c.SettledWithin epoch pool)
    (hmerge : Merges merged.candidate.commitHash (c.epoch + 1) c.roundState.taken d.roundState
      merged.staged batch) : d.SettledWithin epoch pool := by
  obtain ⟨hreached, hpool⟩ := h
  refine ⟨hreached.trans hmerge.tree.epoch_le, fun id hid => hpool id ?_⟩
  obtain ⟨hmember, hsettled⟩ := List.mem_filter.mp hid
  obtain ⟨m, hm, rfl⟩ := List.mem_map.mp hmember
  unfold ConversationQueues.isSettled at hsettled
  by_cases hnew : c.SeatsAnew merged m.index
  · rw [joinEpoch_of_seatsAnew hmerge hm hnew] at hsettled
    have := of_decide_eq_true hsettled
    omega
  · obtain ⟨hbefore, hjoin⟩ := joinEpoch_of_stays hmerge hnew
    rw [hjoin] at hsettled
    exact List.mem_filter.mpr ⟨hbefore, hsettled⟩

/-- What keeps the group and the join epochs keeps who is settled. -/
theorem settledWithin_of_kept {c d : Conversation P} {epoch : Nat} {pool : List Bytes}
    (h : c.SettledWithin epoch pool)
    (hjoin : d.queues.memberJoinEpoch = c.queues.memberJoinEpoch)
    (hgroup : d.mls.publicPart = c.mls.publicPart) : d.SettledWithin epoch pool := by
  have hepoch : d.epoch = c.epoch := congrArg (fun g : MlsGroup Unit => g.epoch) hgroup
  have hmembers : d.mls.group.members = c.mls.group.members := members_of_publicPart hgroup
  have hpool : d.settledPool epoch = c.settledPool epoch := by
    unfold settledPool members MlsService.members MlsGroup.memberIds
      ConversationQueues.settledMembers ConversationQueues.isSettled
    rw [hjoin, hmembers]
  unfold SettledWithin
  rw [hepoch, hpool]
  exact h

/-- **One turn** makes nobody settled at an epoch already reached. -/
theorem SettledWithin.turn {c d : Conversation P} {epoch : Nat} {pool : List Bytes}
    (h : c.SettledWithin epoch pool) (hturn : TakesTurn c d) : d.SettledWithin epoch pool := by
  obtain ⟨e, hturn⟩ := hturn
  cases hturn.effect with
  | kept _ hledger hgroup =>
    exact settledWithin_of_kept h (congrArg (fun l => l.2.2) hledger) hgroup
  | outcome _ hgroup heffect => exact settledWithin_of_kept h heffect.joinEpoch hgroup
  | merged hmerge => exact settledWithin_of_merges h hmerge

/-- **Any history.** Whoever is settled at an epoch of the past was so when that epoch was read. -/
theorem settledWithin_of_turns {origin c : Conversation P} {epoch : Nat}
    (hreached : epoch ≤ origin.epoch) (h : ReflTransGen TakesTurn origin c) :
    c.SettledWithin epoch (origin.settledPool epoch) := by
  induction h with
  | refl => exact ⟨hreached, fun _ hid => hid⟩
  | tail _ hturn ih => exact ih.turn hturn

/-! ## Sender and receiver -/

/-- The same node, had it no list yet. -/
def unlisted (c : Conversation P) : Conversation P :=
  { c with stewardList := { c.stewardList with list := none } }

theorem frame_adoptScores (sync : ConversationSync) :
    Frame standing (adoptScores sync : ConvM P Unit) :=
  frame_bind (frame_onScoring _) fun _ => frame_bind (frame_onScoring _) fun _ =>
    frame_applyScoreSnapshot _

end Conversation

namespace Ideal

/-- The list of three members that seats the first two. -/
def firstTwo : StewardList := ⟨[memberIdOf 0, memberIdOf 1], ⟨1, 2, false⟩, 1, 0⟩

/-- Its holder, when the list is new. -/
def listed : Conversation wired := { start with now := 0 }

/-- The removal of a leaf is approved and minted. -/
def mintedRemoval (leaf : LeafNodeIndex) : Conversation wired :=
  after Conversation.mintAndBroadcastCandidate
    (after (Conversation.handleConsensusOutcome (.consensusReached 1 true 0))
      (after (Conversation.onIncomingProposal (proposalOf 1 (.removeMember (memberIdOf leaf))))
        listed))

/-- The commit that removes it is merged. -/
def removed (leaf : LeafNodeIndex) : Conversation wired :=
  after (Conversation.finalizeCommitRound false (mintedRemoval leaf).selfMemberId) (mintedRemoval leaf)

end Ideal

end DeMls
