import DeMls.CommitRound.ApplyLoop
import DeMls.CommitRound.Packing
import DeMls.Lib.Triples

/-!
# Whom a round lets in

`Chartered` compares two rosters: whoever is new is admitted by an allowed action, and whoever left is
removed by one. A round keeps the roster chartered whatever candidates it is offered. A remote commit
carries the voted actions, and a commit of ours carries what was drafted when it was made. Staging fills
the store of proposals with a peer's drafts; the roll back empties it before we commit again.
-/

namespace DeMls

open Program RoundState

/-! ## Rosters -/

/-- Whoever is new was admitted, and whoever is gone was removed, by an allowed action. -/
structure Chartered (allowed : Action → Prop) (before after : List Member) : Prop where
  joined : ∀ m ∈ after, m ∈ before ∨ allowed (.add, m.signatureKey)
  stayed : ∀ l m, before.find? (fun m => m.index = l) = some m →
    after.find? (fun m => m.index = l) = some m ∨ allowed (.remove, memberIdOf l)

namespace Chartered

variable {allowed allowed' : Action → Prop} {before mid after : List Member}

theorem refl (roster : List Member) : Chartered allowed roster roster :=
  ⟨fun _ h => .inl h, fun _ _ h => .inl h⟩

theorem mono (h : Chartered allowed before after) (himp : ∀ a, allowed a → allowed' a) :
    Chartered allowed' before after :=
  ⟨fun m hm => (h.joined m hm).imp_right (himp _), fun l m hm => (h.stayed l m hm).imp_right (himp _)⟩

theorem trans (h : Chartered allowed before mid) (h' : Chartered allowed mid after) :
    Chartered allowed before after := by
  refine ⟨fun m hm => ?_, fun l m hm => ?_⟩
  · rcases h'.joined m hm with hmid | hallowed
    · exact h.joined m hmid
    · exact .inr hallowed
  · rcases h.stayed l m hm with hmid | hallowed
    · exact h'.stayed l m hmid
    · exact .inr hallowed

end Chartered

namespace MlsService

variable {O : OpenMls} {α : Type}

/-- Every action of the list is allowed. -/
def Allows (allowed : Action → Prop) (actions : List MlsProposalOutput) : Prop :=
  ∀ a ∈ actions, allowed (actionProjectionFromMls a)

/-- Nothing new is pending. -/
structure Wanes (drafted : O.Secrets → List MlsProposalOutput) (s s' : O.Secrets) : Prop where
  drafts : ∀ a ∈ drafted s', a ∈ drafted s
  pending : O.pendingCommit s' = O.pendingCommit s ∨ O.pendingCommit s' = none

/-- What OpenMLS promises of the proposals in its store, whose actions `drafted` reads: a commit of ours
carries some of them, a proposal of ours adds its own action, reading or sending adds none, and the
clears empty what they name and do not fail. -/
structure Drafts (O : OpenMls) (drafted : O.Secrets → List MlsProposalOutput) : Prop where
  validate : ∀ kpIn kp, O.validate kpIn = .ok kp →
    O.signatureKey kp = O.unverifiedSignatureKey kpIn
  proposeAdd : ∀ g kp,
    (∀ a ∈ drafted (O.proposeAddMember g kp).2,
      a = .add (O.signatureKey kp) ∨ a ∈ drafted g.secrets) ∧
    O.pendingCommit (O.proposeAddMember g kp).2 = O.pendingCommit g.secrets
  proposeRemove : ∀ g l,
    (∀ a ∈ drafted (O.proposeRemoveMember g l).2,
      a = .remove (memberIdOf l) ∨ a ∈ drafted g.secrets) ∧
    O.pendingCommit (O.proposeRemoveMember g l).2 = O.pendingCommit g.secrets
  commit : ∀ g,
    (∀ a ∈ drafted (O.commitToPendingProposals g).2, a ∈ drafted g.secrets) ∧
    (O.pendingCommit (O.commitToPendingProposals g).2 = O.pendingCommit g.secrets ∨
      ∃ commit, O.pendingCommit (O.commitToPendingProposals g).2 = some commit ∧
        ∀ a ∈ stagedActions O commit, a ∈ drafted g.secrets)
  mergePending : ∀ g, Wanes drafted g.secrets (O.mergePendingCommit g).2
  mergeStaged : ∀ g staged, Wanes drafted g.secrets (O.mergeStagedCommit g staged).2
  processMessage : ∀ g m, Wanes drafted g.secrets (O.processMessage g m).2
  createMessage : ∀ g b, Wanes drafted g.secrets (O.createMessage g b).2
  delete : ∀ s, Wanes drafted s (O.delete s).2
  storeProposal : ∀ s p, O.pendingCommit (O.storePendingProposal s p).2 = O.pendingCommit s
  clearCommit : ∀ s, ∃ s', O.clearPendingCommit s = (.ok (), s') ∧ O.pendingCommit s' = none
  clearProposals : ∀ s, ∃ s', O.clearPendingProposals s = (.ok (), s') ∧ drafted s' = [] ∧
    (O.pendingCommit s' = O.pendingCommit s ∨ O.pendingCommit s' = none)

section Held

variable {drafted : O.Secrets → List MlsProposalOutput} {allowed : Action → Prop}
  {founders : List Member}

/-- Our pending commit carries allowed actions. -/
def OwnAllowed (allowed : Action → Prop) (s : O.Secrets) : Prop :=
  ∀ commit, O.pendingCommit s = some commit → Allows allowed (stagedActions O commit)

/-- So will every commit we make. -/
def AllAllowed (drafted : O.Secrets → List MlsProposalOutput) (allowed : Action → Prop)
    (s : O.Secrets) : Prop :=
  Allows allowed (drafted s) ∧ OwnAllowed allowed s

/-- A condition on the secrets, over a roster that is chartered. -/
def Held (Q : O.Secrets → Prop) (allowed : Action → Prop) (founders : List Member)
    (m : MlsService O) : Prop :=
  Q m.group.secrets ∧ Chartered allowed founders m.group.members

theorem Held.mono {Q R : O.Secrets → Prop} {allowed' : Action → Prop} {m : MlsService O}
    (h : Held Q allowed founders m) (hQ : ∀ s, Q s → R s) (himp : ∀ a, allowed a → allowed' a) :
    Held R allowed' founders m :=
  ⟨hQ _ h.1, h.2.mono himp⟩

/-! ### Operations on the secrets -/

end Held

end MlsService

/-! ## The round -/

variable {P : Platform} {α : Type}

/-- The queue of approved work holds allowed actions. -/
def QueueAllowed (O : OpenMls) (allowed : Action → Prop) (q : ConversationQueues) : Prop :=
  ∀ a ∈ votedActions O q, allowed a

theorem QueueAllowed.of_sublist {O : OpenMls} {allowed : Action → Prop} {q q' : ConversationQueues}
    (h : QueueAllowed O allowed q)
    (hsub : q'.approvedProposals.entries.Sublist q.approvedProposals.entries) :
    QueueAllowed O allowed q' :=
  fun a ha => h a (((hsub.map Prod.snd).filterMap _).subset ha)

namespace RoundState

/-- A condition on the group, over queues that hold allowed work. -/
def Over (I : MlsService P.mls → Prop) (allowed : Action → Prop) (s : RoundState P) : Prop :=
  I s.mls ∧ QueueAllowed P.mls allowed s.queues

end RoundState

section Round

open MlsService

variable {drafted : P.mls.Secrets → List MlsProposalOutput} {allowed : Action → Prop}
  {founders : List Member} {stewardList : StewardListService}

/-- Before and after a candidate. -/
def Clean (drafted : P.mls.Secrets → List MlsProposalOutput) (allowed : Action → Prop)
    (founders : List Member) : RoundState P → Prop :=
  Over (Held (AllAllowed drafted allowed) allowed founders) allowed

end Round

end DeMls
