import DeMls.Conversation.Packets
import DeMls.Conversation.Traffic
import DeMls.IdealWire

/-!
# Who sets the quorum

A session resolves by the number of voters its proposal expects, and that number comes from the
wire. The gate of the fast path looks at one value of it. `quorum_fixed_iff` says which of the
proposals a member may send reach a session under a count that member did not choose.
-/

namespace DeMls

open Program

variable {P : Platform}

/-! ## A service that logs what it is handed -/

/-- The service, with the proposals handed to it in order of arrival. -/
def ConsensusService.logged (S : ConsensusService) : ConsensusService where
  State := S.State × List Proposal
  processIncomingProposal st p now :=
    ((S.processIncomingProposal st.1 p now).1,
      ((S.processIncomingProposal st.1 p now).2.1, st.2 ++ [p]),
      (S.processIncomingProposal st.1 p now).2.2)
  processIncomingVote st v now :=
    ((S.processIncomingVote st.1 v now).1, ((S.processIncomingVote st.1 v now).2.1, st.2),
      (S.processIncomingVote st.1 v now).2.2)
  castVote st id choice now :=
    ((S.castVote st.1 id choice now).1, ((S.castVote st.1 id choice now).2.1, st.2),
      (S.castVote st.1 id choice now).2.2)
  castVoteAndGetProposal st id choice now :=
    ((S.castVoteAndGetProposal st.1 id choice now).1,
      ((S.castVoteAndGetProposal st.1 id choice now).2.1, st.2),
      (S.castVoteAndGetProposal st.1 id choice now).2.2)
  createProposalWithConfig st r now :=
    ((S.createProposalWithConfig st.1 r now).1, ((S.createProposalWithConfig st.1 r now).2.1, st.2),
      (S.createProposalWithConfig st.1 r now).2.2)
  handleConsensusTimeout st id now :=
    ((S.handleConsensusTimeout st.1 id now).1, ((S.handleConsensusTimeout st.1 id now).2.1, st.2),
      (S.handleConsensusTimeout st.1 id now).2.2)
  buildVote st := S.buildVote st.1
  getProposal st := S.getProposal st.1
  getActiveProposals st := S.getActiveProposals st.1
  removeSession st id := ((S.removeSession st.1 id).1, ((S.removeSession st.1 id).2, st.2))

/-- The platform whose consensus service logs. -/
def Platform.logged (P : Platform) : Platform := { P with consensus := P.consensus.logged }

namespace Conversation

/-- The proposals handed to the consensus service so far. -/
def submitted (c : Conversation P.logged) : List Proposal := c.consensus.2

/-- Handling the packet hands `proposal` to the consensus service. -/
def Submits (c : Conversation P.logged) (sender payload : Bytes) (proposal : Proposal) : Prop :=
  (after (processInbound sender payload) c).submitted = c.submitted ++ [proposal]

instance (c : Conversation P.logged) (sender payload : Bytes) (proposal : Proposal) :
    Decidable (c.Submits sender payload proposal) :=
  inferInstanceAs (Decidable (_ = _))

/-- A count nobody picks: the size of the group, or the one vote of a member that leaves. -/
def QuorumFixed (c : Conversation P) (proposal : Proposal) (member : Member) : Prop :=
  proposal.expectedVotersCount = c.members.length ∨
    proposal.expectedVotersCount = 1 ∧
      requestOf P proposal = some (.removeMember (memberIdOf member.index))

/-- A received proposal reaches the service unless the partial freeze drops it. -/
theorem submitted_onIncomingProposal (proposal : Proposal) (c : Conversation P.logged) :
    (after (onIncomingProposal proposal) c).submitted =
      if c.queues.partialFreezeBlocks (kindOf P.logged proposal) then c.submitted
      else c.submitted ++ [proposal] := by
  have hlog : (c.admission proposal).2.1.2 = c.submitted ++ [proposal] := rfl
  have hsame : (after (onIncomingProposal proposal) c).submitted =
      (after (onIncomingProposal proposal) c).inFlight.consensus.2 := rfl
  have heffect := onIncomingProposal_effect proposal c
  rw [hsame]
  generalize (after (onIncomingProposal proposal) c).inFlight = f at heffect ⊢
  cases heffect with
  | blocked hgate =>
    rw [if_pos hgate]
    rfl
  | refused hgate hcall | accepted hgate hcall | scheduled hgate hcall =>
    rw [hcall] at hlog
    rw [hgate, if_neg Bool.false_ne_true]
    exact hlog

/-- One vote is enough only for the removal of the sender itself. -/
theorem authorizeFastPathProposal_iff {proposal : Proposal} {sender : Bytes} :
    authorizeFastPathProposal P proposal sender = true ↔
      (proposal.expectedVotersCount = 1 → proposal.proposalOwner = sender ∧
        requestOf P proposal = some (.removeMember sender)) := by
  unfold authorizeFastPathProposal requestOf
  by_cases hone : proposal.expectedVotersCount = 1
  · rw [if_neg (not_not.mpr hone)]
    by_cases howner : proposal.proposalOwner = sender
    · rw [if_neg (not_not.mpr howner)]
      cases hdecode : P.codec.decodeRequest proposal.payload with
      | error e => simp [hone, Except.toOption]
      | ok request =>
        rcases request with ⟨payload⟩
        simp [hone, howner, Except.toOption, removesMember, ConversationUpdateRequest.removeMember]
    · simp [hone, howner]
  · simp [hone]

/-- **A packet with a proposal** hands it on when it is no echo of our own, passes the fast path
gate and is not frozen out. -/
theorem submits_iff {c : Conversation P.logged} {payload : Bytes} {proposal : Proposal}
    {member : Member} (hopens : c.Opens payload ⟨some (.proposal proposal)⟩ member)
    (sender : Bytes) :
    c.Submits sender payload proposal ↔ sender ≠ c.appId ∧
      authorizeFastPathProposal P.logged proposal (memberIdOf member.index) = true ∧
      c.queues.partialFreezeBlocks (kindOf P.logged proposal) = false := by
  have hgrown : c.submitted ≠ c.submitted ++ [proposal] := fun h => by
    have := congrArg List.length h
    simp at this
  unfold Submits processInbound
  rw [after_bind_ok _ (get_apply c)]
  by_cases hecho : sender = c.appId
  · rw [if_pos hecho]
    exact ⟨fun h => absurd h hgrown, fun h => absurd hecho h.1⟩
  rw [if_neg hecho]
  obtain ⟨mls, _, hdecode⟩ := decodeInbound_opens hopens
  rw [after_bind_ok _ hdecode]
  unfold classifyAppMessage
  dsimp only
  by_cases hauth : authorizeFastPathProposal P.logged proposal (memberIdOf member.index) = true
  · rw [if_pos hauth]
    have hdispatch := submitted_onIncomingProposal proposal { c with mls := mls }
    have hdone : Frame submitted (pure DispatchOutcome.done : ConvM P.logged _) := frame_pure _ _
    have hrun : (after (dispatchInboundResult (.ofAppMessage ⟨some (.proposal proposal)⟩))
        { c with mls := mls }).submitted =
          (after (onIncomingProposal proposal) { c with mls := mls }).submitted :=
      after_bind_of_frame (fun _ => hdone) _
    rw [hrun, hdispatch]
    show (if c.queues.partialFreezeBlocks (kindOf P.logged proposal) = true then c.submitted
      else c.submitted ++ [proposal]) = c.submitted ++ [proposal] ↔ _
    split_ifs with hgate
    · exact ⟨fun h => absurd h hgrown, fun h => by rw [hgate] at h; cases h.2.2⟩
    · exact ⟨fun _ => ⟨hecho, hauth, Bool.eq_false_iff.mpr hgate⟩, fun _ => rfl⟩
  · rw [if_neg hauth]
    exact ⟨fun h => absurd h hgrown, fun h => absurd h.2.1 hauth⟩

/-- **The quorum** of a proposal that reaches a session is not its sender's choice exactly when the
count is the size of the group or one, or the proposal is dropped on the way: an echo of our own, or
frozen out. -/
theorem quorum_fixed_iff {c : Conversation P.logged} {payload : Bytes} {proposal : Proposal}
    {member : Member} (hopens : c.Opens payload ⟨some (.proposal proposal)⟩ member)
    (sender : Bytes) :
    (c.Submits sender payload proposal → c.QuorumFixed proposal member) ↔
      proposal.expectedVotersCount = c.members.length ∨ proposal.expectedVotersCount = 1 ∨
        sender = c.appId ∨ c.queues.partialFreezeBlocks (kindOf P.logged proposal) = true := by
  rw [submits_iff hopens, authorizeFastPathProposal_iff]
  constructor
  · intro h
    by_contra hother
    obtain ⟨hsize, hone, hecho, hgate⟩ := by simpa only [not_or] using hother
    rcases h ⟨hecho, fun h => absurd h hone, Bool.eq_false_iff.mpr hgate⟩ with hfixed | hfixed
    · exact hsize hfixed
    · exact hone hfixed.1
  · rintro (hsize | hone | hecho | hgate) ⟨hforeign, hauth, hopen⟩
    · exact .inl hsize
    · exact .inr ⟨hone, (hauth hone).2⟩
    · exact absurd hecho hforeign
    · rw [hgate] at hopen
      cases hopen

end Conversation

namespace Ideal

/-- Three members at work; the service logs. -/
def listening : Conversation wired.logged := { start with consensus := ([], []) }

/-- The member at leaf 1 proposes to remove leaf 2, under a count of its choice. -/
def removalOf2 (count : Nat) : Proposal :=
  { proposalOf 1 (.removeMember (memberIdOf 2)) with expectedVotersCount := count }

/-- The packet it sends. -/
def packetOf (proposal : Proposal) : Bytes :=
  frameOf 3 1 1 (wired.codec.encodeApp ⟨some (.proposal proposal)⟩)

end Ideal

/-- Two votes are to remove a member of three, because the member that asks for it says so. -/
theorem quorum_chosen_by_sender :
    Ideal.listening.Opens (Ideal.packetOf (Ideal.removalOf2 2))
      ⟨some (.proposal (Ideal.removalOf2 2))⟩ ⟨1, [11]⟩ ∧
    Ideal.listening.Submits [1] (Ideal.packetOf (Ideal.removalOf2 2)) (Ideal.removalOf2 2) ∧
    ¬ Ideal.listening.QuorumFixed (Ideal.removalOf2 2) ⟨1, [11]⟩ := by
  refine ⟨⟨by decide, _, _, rfl, rfl⟩, by decide, ?_⟩
  rintro (hsize | ⟨hone, _⟩)
  · exact absurd hsize (by decide)
  · exact absurd hone (by decide)

/-- The law, where the sender states the size of the group. -/
theorem quorum_of_three_fixed :
    Ideal.listening.Submits [1] (Ideal.packetOf (Ideal.removalOf2 3)) (Ideal.removalOf2 3) ∧
    Ideal.listening.QuorumFixed (Ideal.removalOf2 3) ⟨1, [11]⟩ := by
  have hopens : Ideal.listening.Opens (Ideal.packetOf (Ideal.removalOf2 3))
      ⟨some (.proposal (Ideal.removalOf2 3))⟩ ⟨1, [11]⟩ := ⟨by decide, _, _, rfl, rfl⟩
  have hsubmits : Ideal.listening.Submits [1] (Ideal.packetOf (Ideal.removalOf2 3))
      (Ideal.removalOf2 3) := by decide
  exact ⟨hsubmits, (Conversation.quorum_fixed_iff hopens [1]).mpr (.inl rfl) hsubmits⟩

end DeMls
