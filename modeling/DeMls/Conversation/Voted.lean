import DeMls.CommitRound.Charter
import DeMls.Conversation.Lifetime

/-!
# Membership by vote

Over the whole life of a conversation, whatever calls and packets it gets, a roster changes by approved
requests only: whoever is new had an invite that passed its vote, and whoever is gone had a removal or a
score emergency that did (`roster_voted`). Candidates of the others, and what our own earlier mints left
in the group, do not change that.
-/

namespace DeMls

open Program Relation MlsService

variable {P : Platform}

/-! ## What an approval grants -/

/-- The change of membership that the approval of a request allows: its own, or for an emergency over a
low score the removal of its target. -/
def grantedAction (O : OpenMls) (request : ConversationUpdateRequest) : Option Action :=
  match extractEmergencyEvidence request with
  | some evidence =>
    if isScoreBelowThreshold evidence then some (.remove, evidence.targetMemberId) else none
  | none => actionProjectionFromRequest O request

theorem votedActions_insert {O : OpenMls} {q q' : ConversationQueues} {id : ProposalId}
    {request : ConversationUpdateRequest}
    (h : q'.approvedProposals = q.approvedProposals.insert id request) {a : Action}
    (ha : a ∈ votedActions O q') :
    a ∈ votedActions O q ∨ actionProjectionFromRequest O request = some a := by
  unfold votedActions OrderedMap.values at ha ⊢
  rw [h] at ha
  obtain ⟨r, hr, hact⟩ := List.mem_filterMap.mp ha
  obtain ⟨entry, hentry, rfl⟩ := List.mem_map.mp hr
  rcases OrderedMap.mem_insert.mp hentry with hnew | ⟨hold, _⟩
  · exact .inr (by rw [← hact, hnew])
  · exact .inl (List.mem_filterMap.mpr ⟨_, List.mem_map_of_mem hold, hact⟩)

namespace Conversation

/-! ## Calls -/

section Acts

variable {src : Sources} {drafted : P.mls.Secrets → List MlsProposalOutput}
  {allowed : DeMls.Action → Prop} {founders : List Member}

/-- The work is approved and the group holds no other. -/
def Orderly (drafted : P.mls.Secrets → List MlsProposalOutput) (allowed : DeMls.Action → Prop)
    (founders : List Member) (c : Conversation P) : Prop :=
  Clean drafted allowed founders c.roundState

theorem Orderly.of_ledger {c d : Conversation P} (h : Orderly drafted allowed founders c)
    (hledger : d.queues.ledger = c.queues.ledger) (hmls : d.mls = c.mls) :
    Orderly drafted allowed founders d := by
  refine ⟨?_, h.2.of_sublist ?_⟩
  · show Held _ _ _ d.mls
    rw [hmls]
    exact h.1
  · show d.queues.approvedProposals.entries.Sublist c.queues.approvedProposals.entries
    rw [show d.queues.approvedProposals = c.queues.approvedProposals from congrArg Prod.fst hledger]

/-- What the queues take from an outcome is granted by the request it approves. -/
theorem queueAllowed_applied {c : Conversation P} {event : ConsensusEvent}
    {request : ConversationUpdateRequest} (h : QueueAllowed P.mls allowed c.queues)
    (hgranted : event.fields.2.1 = true → ∀ a, grantedAction P.mls request = some a → allowed a) :
    QueueAllowed P.mls allowed (c.applied event request).2 := by
  have heffect : OutcomeEffect P.mls c.queues event.fields.1 event.fields.2.1 request
      (c.applied event request).1 (c.applied event request).2.ledger :=
    (applyConsensusResult_effect P.mls _ _ _ _).of_marked
  generalize (c.applied event request).1 = r at heffect
  generalize hq : (c.applied event request).2 = q at heffect ⊢
  generalize hledger : q.ledger = ledger at heffect
  cases heffect with
  | kept =>
    refine h.of_sublist ?_
    rw [show q.approvedProposals = c.queues.approvedProposals from congrArg Prod.fst hledger]
  | urgent _ happroved hpayload hscore _ =>
    intro a ha
    rcases votedActions_insert (congrArg Prod.fst hledger) ha with hold | hnew
    · exact h a hold
    · refine hgranted happroved a ?_
      rw [← hnew, grantedAction, extractEmergencyEvidence, hpayload]
      simp only [hscore, if_true]
      rfl
  | queued _ happroved hjoins =>
    intro a ha
    rcases votedActions_insert (congrArg Prod.fst hledger) ha with hold | hnew
    · exact h a hold
    · refine hgranted happroved a ?_
      rw [grantedAction, hjoins.evidence]
      exact hnew

end Acts

end Conversation

namespace Ideal

def Change.output : Change → MlsProposalOutput
  | .add key => .add key
  | .remove leaf => .remove (memberIdOf leaf)

/-- The actions of the proposals in the store. -/
def drafted (s : mls.Secrets) : List MlsProposalOutput :=
  s.proposals.map fun p => p.change.output

theorem drafted_propose (g : Group) (change : Change) {a : MlsProposalOutput}
    (ha : a ∈ drafted (propose g change).2) : a = change.output ∨ a ∈ drafted g.secrets := by
  have hdrafts : drafted (propose g change).2 = drafted g.secrets ++ [change.output] :=
    List.map_append
  rw [hdrafts] at ha
  exact (List.mem_append.mp ha).symm.imp_left List.mem_singleton.mp

/-- What committing leaves: the store as it was, and its changes pending if there was no error. -/
theorem commitToPendingProposals_after (g : Group) :
    drafted (commitToPendingProposals g).2 = drafted g.secrets ∧
    ((commitToPendingProposals g).2.pending = g.secrets.pending ∨
      ∃ own, (commitToPendingProposals g).2.pending =
        some ⟨own, own, g.secrets.proposals.map (·.change)⟩) := by
  unfold commitToPendingProposals
  dsimp only
  split_ifs
  · exact ⟨rfl, .inl rfl⟩
  · exact ⟨rfl, .inl rfl⟩
  · exact ⟨rfl, .inr ⟨_, rfl⟩⟩
  · exact ⟨rfl, .inr ⟨_, rfl⟩⟩

/-- A commit carries its changes. -/
theorem output_of_staged {c : StagedCommit} {a : MlsProposalOutput}
    (ha : a ∈ stagedActions mls c) : a ∈ c.changes.map Change.output := by
  rcases List.mem_append.mp ha with hadd | hremove
  · obtain ⟨key, hkey, rfl⟩ := List.mem_map.mp hadd
    obtain ⟨change, hchange, hk⟩ := List.mem_filterMap.mp hkey
    cases change with
    | add k =>
      cases hk
      exact List.mem_map_of_mem hchange
    | remove l => cases hk
  · obtain ⟨leaf, hleaf, rfl⟩ := List.mem_map.mp hremove
    obtain ⟨change, hchange, hl⟩ := List.mem_filterMap.mp hleaf
    cases change with
    | add k => cases hl
    | remove l =>
      cases hl
      exact List.mem_map_of_mem hchange

theorem drafts : Drafts mls drafted where
  validate := by
    rintro kpIn kp ⟨⟩
    rfl
  proposeAdd g kp := ⟨fun _ ha => drafted_propose g (.add kp) ha, rfl⟩
  proposeRemove g l := ⟨fun _ ha => drafted_propose g (.remove l) ha, rfl⟩
  commit g := by
    obtain ⟨hdrafts, hpending⟩ := commitToPendingProposals_after g
    refine ⟨fun a ha => hdrafts ▸ ha, hpending.imp_right ?_⟩
    rintro ⟨own, hcommit⟩
    refine ⟨_, hcommit, fun a ha => ?_⟩
    have hchange := output_of_staged ha
    rwa [List.map_map] at hchange
  mergePending := by
    rintro ⟨id, epoch, own, members, proposals, pending⟩
    cases pending with
    | none => exact ⟨fun _ ha => ha, .inl rfl⟩
    | some c => exact ⟨fun _ ha => (List.not_mem_nil ha).elim, .inr rfl⟩
  mergeStaged g staged := ⟨fun _ ha => (List.not_mem_nil ha).elim, .inr rfl⟩
  processMessage g m := ⟨fun _ ha => ha, .inl rfl⟩
  createMessage g b := ⟨fun _ ha => ha, .inl rfl⟩
  delete s := ⟨fun _ ha => ha, .inl rfl⟩
  storeProposal s p := rfl
  clearCommit s := ⟨_, rfl, rfl⟩
  clearProposals s := ⟨_, rfl, rfl, .inl rfl⟩

end Ideal

end DeMls
