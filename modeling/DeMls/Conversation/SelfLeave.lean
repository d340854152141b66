import DeMls.Conversation.Seats
import DeMls.Conversation.Settled

/-!
# Leaves of recycled leaves

The id of a self-leave is a hash of the leaf alone, so the members that sit on a leaf one after the
other all leave under the same id. `self_leave_applied_iff` says when the outcome of a leave reaches
the approved queue: when the id is not among the last outcomes the node remembers.
-/

namespace DeMls

open Program Runs

variable {P : Platform}

namespace Conversation

/-! ## The history of a run -/

/-- What a run resolved, and what it approved since the occupant of a leaf arrived. -/
structure Past where
  resolved : List ProposalId
  stay : Bytes → List ProposalId

def Past.empty : Past := ⟨[], fun _ => []⟩

/-- The history after a move from `c` to `d`. -/
def chronicle (h : Past) (c : Conversation P) (m : Move P) (d : Conversation P) : Past where
  resolved :=
    match m with
    | .outcome event =>
      if (c.resolved event.fields.1).isSome then h.resolved ++ [event.fields.1] else h.resolved
    | _ => h.resolved
  stay l :=
    if d.keyAt l = c.keyAt l then
      match m with
      | .outcome event => if event.fields.2.1 then h.stay l ++ [event.fields.1] else h.stay l
      | _ => h.stay l
    else []

/-- The last resolved proposals, as many as the queues remember. -/
def Past.recent (h : Past) : List ProposalId :=
  BoundedSet.window resolvedProposalCacheCapacity h.resolved

/-- A conversation with nothing tracked, and nothing recorded. -/
def Unwritten (s : Conversation P × Past) : Prop := Fresh s.1 ∧ s.2 = .empty

/-! ## The law -/

/-- The self-leave of the member seated at `leaf` is accepted, for the first time in its stay. -/
structure FirstYes (s : Conversation P × Past) (event : ConsensusEvent) (leaf : LeafNodeIndex) :
    Prop where
  id : event.fields.1 = selfLeaveProposalId P (memberIdOf leaf)
  approved : event.fields.2.1 = true
  removal : ∃ proposal, P.consensus.getProposal s.1.consensus event.fields.1 = .ok proposal ∧
    requestOf P proposal = some (.removeMember (memberIdOf leaf))
  first : event.fields.1 ∉ s.2.stay (memberIdOf leaf)

/-- A self-leave that is accepted, and whose outcome is handled, is queued for the next commit. -/
def AppliesLeave (s : Conversation P × Past) (m : Move P) (t : Conversation P × Past) : Prop :=
  match m with
  | .outcome event => ∀ leaf, FirstYes s event leaf →
      handleConsensusOutcome event { s.1 with outcomes := s.1.outcomes.tail } = .ok () t.1 →
        t.1.queues.hasApprovedRemoval (memberIdOf leaf) = true
  | _ => True

/-- No proposal under its id was resolved lately, unless its removal is queued already. -/
def NotRecent (s : Conversation P × Past) (m : Move P) : Prop :=
  match m with
  | .outcome event => ∀ leaf, FirstYes s event leaf →
      event.fields.1 ∉ s.2.recent ∨ s.1.queues.hasApprovedRemoval (memberIdOf leaf) = true
  | _ => True

/-! ## One move -/

/-- The queues remember the end of what the run resolved. -/
def Recorded (s : Conversation P × Past) : Prop :=
  s.1.queues.resolvedProposals = ⟨s.2.recent, resolvedProposalCacheCapacity⟩

theorem recorded_of_unwritten {s : Conversation P × Past} (h : Unwritten s) : Recorded s := by
  obtain ⟨⟨id, window, hqueues⟩, hpast⟩ := h
  unfold Recorded
  rw [hqueues, hpast]
  simp [ConversationQueues.new, BoundedSet.new, Past.recent, Past.empty, BoundedSet.window,
    resolvedProposalCacheCapacity]

theorem Recorded.applied_iff {s : Conversation P × Past} (h : Recorded s) {id : ProposalId} :
    s.1.queues.isConsensusOutcomeApplied id = true ↔ id ∈ s.2.recent := by
  unfold ConversationQueues.isConsensusOutcomeApplied
  unfold Recorded at h
  rw [h, BoundedSet.contains_iff]

/-- A move records what it makes the queues remember. -/
theorem Recorded.next {s t : Conversation P × Past} {m : Move P} (h : Recorded s)
    (hmove : watch chronicle Moves s m t) : Recorded t := by
  obtain ⟨hmove, hpast⟩ := hmove
  unfold Recorded
  rw [hmove.cache, hpast]
  unfold remembering chronicle Past.recent
  cases m with
  | outcome event =>
    dsimp only
    split_ifs with hsome
    · obtain ⟨request, hresolved⟩ := Option.isSome_iff_exists.mp hsome
      have hnew : event.fields.1 ∉ s.2.recent := by
        rw [← h.applied_iff, not_applied_of_resolved hresolved]
        exact Bool.false_ne_true
      rw [show s.1.queues.resolvedProposals = _ from h]
      exact BoundedSet.insert_window hnew
    · exact h
  | _ => exact h

/-- An accepted removal is in the approved queue, from this outcome or from an earlier one. -/
theorem hasApprovedRemoval_applyConsensusResult (O : OpenMls) (q : ConversationQueues)
    (id : ProposalId) (memberId : Bytes) :
    (applyConsensusResult O q id true (.removeMember memberId)).2.hasApprovedRemoval memberId =
      true := by
  cases hqueued : (q.removeVotingProposal id).hasApprovedRemoval memberId with
  | true =>
    have hkept : applyConsensusResult O q id true (.removeMember memberId) =
        (.noAction, q.removeVotingProposal id) := by
      simp [applyConsensusResult, extractElectionProposal, extractEmergencyEvidence,
        pendingRemovalTarget, ConversationUpdateRequest.removeMember, hqueued]
    rw [hkept]
    exact hqueued
  | false =>
    have hjoins : applyConsensusResult O q id true (.removeMember memberId) =
        (.queuedRemoval memberId,
          (q.removeVotingProposal id).insertApprovedProposal id (.removeMember memberId)) := by
      simp [applyConsensusResult, extractElectionProposal, extractEmergencyEvidence,
        pendingRemovalTarget, ConversationUpdateRequest.removeMember, inviteKeyOf, hqueued]
    rw [hjoins, ConversationQueues.hasApprovedRemoval_iff]
    exact ⟨(id, .removeMember memberId), OrderedMap.mem_insert.mpr (.inl rfl), rfl⟩

theorem hasApprovedRemoval_congr {q q' : ConversationQueues} (h : q.ledger = q'.ledger)
    (memberId : Bytes) : q.hasApprovedRemoval memberId = q'.hasApprovedRemoval memberId := by
  unfold ConversationQueues.hasApprovedRemoval
  rw [show q.approvedProposals = q'.approvedProposals from congrArg Prod.fst h]

/-- **An accepted removal.** It is queued after its outcome exactly when the outcome is not a
repeated one, or the removal was queued before. -/
theorem removal_queued_iff {c : Conversation P} {event : ConsensusEvent} {memberId : Bytes}
    {proposal : Proposal} (happroved : event.fields.2.1 = true)
    (hget : P.consensus.getProposal c.consensus event.fields.1 = .ok proposal)
    (hrequest : requestOf P proposal = some (.removeMember memberId)) :
    (after (handleConsensusOutcome event) c).queues.hasApprovedRemoval memberId = true ↔
      ¬ c.queues.isConsensusOutcomeApplied event.fields.1 = true ∨
        c.queues.hasApprovedRemoval memberId = true := by
  obtain ⟨_, hledger⟩ := handleConsensusOutcome_effect event c
  by_cases hrepeated : c.queues.isConsensusOutcomeApplied event.fields.1 = true
  · have hresolved : c.resolved event.fields.1 = none := by
      unfold resolved
      rw [if_pos hrepeated]
    rw [hresolved] at hledger
    rw [hasApprovedRemoval_congr hledger]
    simp [hrepeated]
  · have hresolved : c.resolved event.fields.1 = some (.removeMember memberId) := by
      unfold resolved
      rw [if_neg hrepeated, hget]
      exact hrequest
    rw [hresolved] at hledger
    refine iff_of_true ?_ (.inl hrepeated)
    rw [hasApprovedRemoval_congr hledger]
    unfold applied
    rw [happroved]
    exact hasApprovedRemoval_applyConsensusResult _ _ _ _

/-- **A move** applies an accepted leave exactly when the id is not among those remembered. -/
theorem applies_iff {s t : Conversation P × Past} {m : Move P} (h : Recorded s)
    (hmove : watch chronicle Moves s m t) : AppliesLeave s m t ↔ NotRecent s m := by
  obtain ⟨c, past⟩ := s
  obtain ⟨d, past'⟩ := t
  obtain ⟨hmove, _⟩ := hmove
  cases hmove with
  | @outcome event rest hnext =>
    dsimp only at hnext
    refine forall_congr' fun leaf => forall_congr' fun hyes => ?_
    obtain ⟨proposal, hget, hrequest⟩ := hyes.removal
    have hqueued := @removal_queued_iff P { c with outcomes := rest } event _ _ hyes.approved hget
      hrequest
    have hcached : c.queues.isConsensusOutcomeApplied event.fields.1 = true ↔
        event.fields.1 ∈ past.recent := h.applied_iff
    dsimp only at hqueued ⊢
    rw [hcached] at hqueued
    rw [hnext, List.tail_cons, ← hqueued]
    refine ⟨fun happlies => ?_, fun hd _ => hd⟩
    by_cases hrecent : event.fields.1 ∈ past.recent
    · -- A repeated outcome is dropped with `Ok`.
      have hrepeated := @handleConsensusOutcome_repeated P event { c with outcomes := rest }
        (hcached.mpr hrecent)
      exact happlies (hrepeated.trans (congrArg _ (after_of_ok hrepeated).symm))
    · exact hqueued.mpr (.inl hrecent)
  | _ => exact Iff.rfl

/-- **Accepted leaves are applied** throughout a run exactly when none of them is accepted while its
id is remembered from an earlier occupant of the leaf, or from an earlier vote on it. -/
theorem self_leave_applied_iff
    {moves : List ((Conversation P × Past) × Move P × (Conversation P × Past))}
    {s : Conversation P × Past} (h : Trace Unwritten (watch chronicle Moves) moves s) :
    (∀ e ∈ moves, AppliesLeave e.1 e.2.1 e.2.2) ↔ ∀ e ∈ moves, NotRecent e.1 e.2.1 := by
  refine h.all_iff (I := Recorded) AppliesLeave (fun _ h => recorded_of_unwritten h) ?_ ?_
  · exact fun _ _ _ hs hmove _ => hs.next hmove
  · exact fun _ _ _ hs hmove => applies_iff hs hmove

end Conversation

/-! ## Evaluations -/

namespace Ideal

/-- The proposal with which the member at leaf 2 leaves, in the group with these keys. -/
def leaveOf (keys : List Bytes) : Proposal :=
  let c := conversationOf 2 1 keys (stewardsOf [0, 1] 1) [] none
  c.signedLeave (voteOf c.unsignedLeave true 0)

/-- The next outcome of the bus is handled. -/
def handled (event : ConsensusEvent) (c : Conversation platform) : Conversation platform :=
  Program.after (Conversation.handleConsensusOutcome event) { c with outcomes := c.outcomes.tail }

/-- The member at leaf 2 asks to leave. -/
def leaveReceived : Conversation platform :=
  Program.after (Conversation.onIncomingProposal (leaveOf [[10], [11], [12]])) start

/-- Its leave is accepted, and a joiner is voted on. -/
def joinerProposed : Conversation platform :=
  tracked 3 (.memberInvite [20]) (handled (.consensusReached 2 true 0) leaveReceived)

def joinerVoted : Conversation platform :=
  { joinerProposed with outcomes := joinerProposed.outcomes ++ [.consensusReached 3 true 0] }

/-- The candidate for both approvals. -/
def leaveMinted : Conversation platform :=
  Program.after Conversation.mintAndBroadcastCandidate (handled (.consensusReached 3 true 0) joinerVoted)

/-- The commit removes leaf 2 and seats the joiner on it. -/
def leafReused : Conversation platform :=
  Program.after (Conversation.finalizeCommitRound false leaveMinted.selfMemberId) leaveMinted

/-- The joiner asks to leave. -/
def leaveReceivedAgain : Conversation platform :=
  Program.after (Conversation.onIncomingProposal (leaveOf [[10], [11], [20]])) leafReused

end Ideal

/-- The leave of the next member at leaf 2 is accepted and handled, and not queued. -/
theorem second_leave_dropped : ∃ moves, ∃ h : Conversation.Past,
    Trace Conversation.Unwritten (watch Conversation.chronicle Conversation.Moves) moves
      (Ideal.handled (.consensusReached 2 true 0) Ideal.leaveReceivedAgain, h) ∧
    Ideal.leaveReceived.keyAt (memberIdOf 2) = some [12] ∧
    Ideal.leaveReceivedAgain.keyAt (memberIdOf 2) = some [20] ∧
    ¬ ∀ e ∈ moves, Conversation.AppliesLeave e.1 e.2.1 e.2.2 := by
  have hstart : Trace Conversation.Unwritten (watch Conversation.chronicle Conversation.Moves) []
      (Ideal.start, .empty) := .start ⟨⟨[], 10, rfl⟩, rfl⟩
  have hleft := (hstart.watched (.incomingProposal _ (Ideal.leaveOf [[10], [11], [12]]))).watched
    (@Conversation.Moves.outcome _ Ideal.leaveReceived (.consensusReached 2 true 0) [] rfl)
  have hjoined := ((hleft.watched (.incomingProposal _ (Ideal.proposalOf 3 (.memberInvite [20])))).watched
    (.publish _ (.consensusReached 3 true 0))).watched
    (@Conversation.Moves.outcome _ Ideal.joinerVoted (.consensusReached 3 true 0) [] rfl)
  have hreused := (hjoined.watched (@Conversation.Moves.driver _ _ Ideal.leaveMinted
    (.still rfl))).watched (@Conversation.Moves.driver _ _ Ideal.leafReused (.still rfl))
  have hagain := (hreused.watched (.incomingProposal _ (Ideal.leaveOf [[10], [11], [20]]))).watched
    (@Conversation.Moves.outcome _ Ideal.leaveReceivedAgain (.consensusReached 2 true 0) [] rfl)
  refine ⟨_, _, hagain, by decide, by decide, fun happlies => ?_⟩
  have hlast := happlies _ (List.mem_append_right _ (List.mem_singleton_self _))
  have hqueued := hlast 2 ⟨by decide, rfl, ⟨Ideal.leaveOf [[10], [11], [20]], rfl, rfl⟩, by decide⟩ rfl
  exact absurd hqueued (by decide)

/-- The law, on the leave of the first. -/
theorem first_leave_applied : ∃ moves, ∃ h : Conversation.Past,
    Trace Conversation.Unwritten (watch Conversation.chronicle Conversation.Moves) moves
      (Ideal.handled (.consensusReached 2 true 0) Ideal.leaveReceived, h) ∧
    (Ideal.handled (.consensusReached 2 true 0) Ideal.leaveReceived).queues.hasApprovedRemoval
      (memberIdOf 2) = true ∧
    ∀ e ∈ moves, Conversation.AppliesLeave e.1 e.2.1 e.2.2 := by
  have hstart : Trace Conversation.Unwritten (watch Conversation.chronicle Conversation.Moves) []
      (Ideal.start, .empty) := .start ⟨⟨[], 10, rfl⟩, rfl⟩
  have hleft := (hstart.watched (.incomingProposal _ (Ideal.leaveOf [[10], [11], [12]]))).watched
    (@Conversation.Moves.outcome _ Ideal.leaveReceived (.consensusReached 2 true 0) [] rfl)
  refine ⟨_, _, hleft, by decide, (Conversation.self_leave_applied_iff hleft).mpr ?_⟩
  rw [List.nil_append, List.forall_mem_append, List.forall_mem_singleton,
    List.forall_mem_singleton]
  exact ⟨trivial, fun _ _ => .inl (by decide)⟩

end DeMls
