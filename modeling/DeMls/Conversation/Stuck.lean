import DeMls.Conversation.Traffic
import DeMls.Ideal

/-!
# Entries that nothing will resolve

An entry of the voting proposals blocks its target, or every election, until an outcome resolves it.
It is stuck when neither a deadline nor an outcome on the bus is left for it. `none_stuck_iff` says
which moves of a run leave none.
-/

namespace DeMls

open Program Runs Relation

variable {P : Platform}

namespace Conversation

/-- Something will resolve `id`: its deadline, or an outcome on the bus. -/
def InFlight.Pending (f : InFlight P) (id : ProposalId) : Prop :=
  f.timeouts.contains id = true ∨ ∃ event ∈ f.outcomes, event.fields.1 = id

/-- Every proposal in voting has something that will resolve it. -/
def InFlight.NoneStuck (f : InFlight P) : Prop := ∀ id, f.tracked.1.contains id = true → f.Pending id

/-- A call publishes an outcome of `id`. -/
def Publishes (outs : List ConsensusEvent) (id : ProposalId) : Prop :=
  ∃ event ∈ outs, event.fields.1 = id

/-- A proposal that is let in and tracked has a deadline, or something that resolves it already. -/
def IncomingKept (c : Conversation P) (proposal : Proposal) : Prop :=
  c.queues.partialFreezeBlocks (kindOf P proposal) = false → (c.admission proposal).1 = .ok () →
    (requestOf P proposal).isSome = true → c.schedules proposal = true ∨
      c.inFlight.Pending proposal.proposalId ∨
        Publishes (c.admission proposal).2.2 proposal.proposalId

/-- A leave that is submitted is resolved by that, unless something resolves it already. -/
def LeaveKept (c : Conversation P) : Prop :=
  c.queues.isPendingSelfLeave P c.selfMemberId = false →
    c.inFlight.Pending (selfLeaveProposalId P c.selfMemberId) ∨
      ∃ v, c.leaveVote = .ok v ∧
        Publishes (c.admission (c.signedLeave v)).2.2 (selfLeaveProposalId P c.selfMemberId)

/-- A deadline that is consumed resolves its session, unless an outcome has. -/
def TimeoutKept (c : Conversation P) (id : ProposalId) : Prop :=
  c.queues.votingProposals.contains id = true →
    Publishes c.outcomes id ∨ c.stillActive id = true ∧
      Publishes (P.consensus.handleConsensusTimeout c.consensus id (asSecs c.now)).2.2 id

/-- An outcome that is consumed can be applied, or is not the last one. -/
def OutcomeKept (c : Conversation P) (event : ConsensusEvent) : Prop :=
  c.queues.votingProposals.contains event.fields.1 = true →
    (c.resolved event.fields.1).isSome = true ∨ Publishes c.outcomes.tail event.fields.1

/-- The move leaves no entry stuck that was not. -/
def KeepsPending (c : Conversation P) : Move P → Prop
  | .incomingProposal proposal => c.IncomingKept proposal
  | .leave => c.LeaveKept
  | .timeout id => c.TimeoutKept id
  | .outcome event => c.OutcomeKept event
  | _ => True

theorem publishes_append {outs more : List ConsensusEvent} {id : ProposalId} :
    Publishes (outs ++ more) id ↔ Publishes outs id ∨ Publishes more id := by
  simp [Publishes, or_and_right, exists_or]

namespace InFlight

/-- More deadlines and outcomes resolve more. -/
theorem Pending.mono {f g : InFlight P} {id : ProposalId} (h : f.Pending id)
    (htimeouts : ∀ j, f.timeouts.contains j = true → g.timeouts.contains j = true)
    (houtcomes : ∀ event ∈ f.outcomes, event ∈ g.outcomes) : g.Pending id := by
  rcases h with h | ⟨event, hmem, hid⟩
  · exact .inl (htimeouts id h)
  · exact .inr ⟨event, houtcomes event hmem, hid⟩

/-- Where the only new entry can be that of `id`, it is enough to look at it. -/
theorem noneStuck_iff_of_tracked {f g : InFlight P} {id : ProposalId} {p : Prop} (h : f.NoneStuck)
    (htracked : ∀ j, g.tracked.1.contains j = true ↔
      (j = id ∧ p) ∨ f.tracked.1.contains j = true)
    (htimeouts : ∀ j, f.timeouts.contains j = true → g.timeouts.contains j = true)
    (houtcomes : ∀ event ∈ f.outcomes, event ∈ g.outcomes) : g.NoneStuck ↔ (p → g.Pending id) := by
  constructor
  · exact fun hg hp => hg id ((htracked id).mpr (.inl ⟨rfl, hp⟩))
  · intro hid j hj
    rcases (htracked j).mp hj with ⟨rfl, hp⟩ | hj
    · exact hid hp
    · exact (h j hj).mono htimeouts houtcomes

/-- No new entry: nothing gets stuck while deadlines and outcomes only grow. -/
theorem NoneStuck.mono {f g : InFlight P} (h : f.NoneStuck)
    (htracked : ∀ j, g.tracked.1.contains j = true → f.tracked.1.contains j = true)
    (htimeouts : ∀ j, f.timeouts.contains j = true → g.timeouts.contains j = true)
    (houtcomes : ∀ event ∈ f.outcomes, event ∈ g.outcomes) : g.NoneStuck :=
  fun j hj => (h j (htracked j hj)).mono htimeouts houtcomes

/-- A call of the service only adds outcomes. -/
theorem NoneStuck.call {f : InFlight P} (h : f.NoneStuck) (st : P.consensus.State)
    (outs : List ConsensusEvent) (autoVotes : OrderedMap ProposalId AutoVoteEntry) :
    NoneStuck { f with autoVotes := autoVotes, consensus := st, outcomes := f.outcomes ++ outs } :=
  h.mono (fun _ hj => hj) (fun _ hj => hj) fun _ hmem => List.mem_append_left outs hmem

end InFlight

/-! ## Programs that leave nothing stuck -/

/-- A proposal of our own has its deadline. -/
theorem OpeningEffect.noneStuck {c : Conversation P} {request : ConversationUpdateRequest}
    {f : InFlight P} (h : OpeningEffect c request f) (hc : c.inFlight.NoneStuck) : f.NoneStuck := by
  cases h with
  | refused => exact hc
  | @failed e st outs _ => exact hc.call st outs _
  | @opened proposal =>
    have htracked : ∀ j, (trackOwn P.mls proposal.proposalId request c.queues).tracked.1.contains j =
        true ↔ (j = proposal.proposalId ∧ True) ∨ c.inFlight.tracked.1.contains j = true := by
      intro j
      rw [tracked_trackOwn, and_true]
      exact contains_trackVotingProposal _ _ _ _ _
    refine (InFlight.noneStuck_iff_of_tracked hc htracked ?_ ?_).mpr fun _ => ?_
    · exact fun j hj => OrderedMap.contains_insert_iff.mpr (.inr hj)
    · intro event hmem
      exact List.mem_append_left _ (List.mem_append_left _ hmem)
    · exact .inl (OrderedMap.contains_insert_iff.mpr (.inl rfl))

theorem Drift.noneStuck {phases : ConversationState → Prop} {c d : Conversation P}
    (h : Drift phases c d) (hc : c.inFlight.NoneStuck) : d.inFlight.NoneStuck := by
  cases h with
  | still h =>
    rw [show d.inFlight = c.inFlight from congrArg Prod.fst h]
    exact hc
  | enter h _ =>
    rw [h]
    exact hc
  | propose request v => exact (initiateProposal_effect request v c).noneStuck hc
  | unschedule => exact hc

theorem Finish.noneStuck {id : ProposalId} {c d : Conversation P} (h : Finish id c d)
    (hc : c.inFlight.NoneStuck) : d.inFlight.NoneStuck := by
  cases h with
  | drift h => exact h.noneStuck hc
  | lift => exact hc
  | free => exact hc

theorem finish_noneStuck {id : ProposalId} {c d : Conversation P}
    (h : ReflTransGen (Finish id) c d) (hc : c.inFlight.NoneStuck) : d.inFlight.NoneStuck := by
  induction h with
  | refl => exact hc
  | tail _ hstep ih => exact hstep.noneStuck ih

/-! ## The four moves that can -/

theorem pending_call {f : InFlight P} {id : ProposalId} {outs : List ConsensusEvent}
    {tracked : OrderedMap ProposalId VotingMeta × Finset ProposalId × BoundedSet ProposalId}
    {st : P.consensus.State} :
    InFlight.Pending { f with
        tracked := tracked
        consensus := st
        outcomes := f.outcomes ++ outs } id ↔ f.Pending id ∨ Publishes outs id := by
  unfold InFlight.Pending
  dsimp only
  rw [show (∃ event ∈ f.outcomes ++ outs, event.fields.1 = id) ↔
    Publishes f.outcomes id ∨ Publishes outs id from publishes_append, ← or_assoc]
  rfl

/-- **A received proposal.** -/
theorem incoming_noneStuck_iff {c : Conversation P} {proposal : Proposal} {f : InFlight P}
    (h : IncomingEffect c proposal f) (hc : c.inFlight.NoneStuck) :
    f.NoneStuck ↔ c.IncomingKept proposal := by
  unfold IncomingKept
  cases h with
  | blocked hgate =>
    rw [hgate]
    exact ⟨fun _ h => absurd h (by simp), fun _ => hc⟩
  | @refused e st outs hgate hcall =>
    rw [hcall]
    exact ⟨fun _ _ h => absurd h (by simp), fun _ => hc.call st outs _⟩
  | @accepted st outs hgate hcall hnone =>
    refine Iff.trans (InFlight.noneStuck_iff_of_tracked hc (contains_mirrored c proposal)
      (fun _ hj => hj) fun _ hmem => List.mem_append_left outs hmem) ?_
    refine Iff.trans (imp_congr_right fun _ => pending_call) ?_
    rw [hcall, hgate, hnone]
    simp
  | @scheduled st outs entry hgate hcall htimed =>
    rw [htimed]
    refine ⟨fun _ _ _ _ => .inl rfl, fun _ => ?_⟩
    refine (InFlight.noneStuck_iff_of_tracked hc (contains_mirrored c proposal) ?_ ?_).mpr fun _ => ?_
    · exact fun _ hj => OrderedMap.contains_insert_iff.mpr (.inr hj)
    · exact fun _ hmem => List.mem_append_left outs hmem
    · exact .inl (OrderedMap.contains_insert_iff.mpr (.inl rfl))

/-- **A leave.** -/
theorem leave_noneStuck_iff {c : Conversation P} {f : InFlight P} (h : LeaveEffect c f)
    (hc : c.inFlight.NoneStuck) : f.NoneStuck ↔ c.LeaveKept := by
  have htracked : ∀ j, c.leaving.tracked.1.contains j = true ↔
      (j = selfLeaveProposalId P c.selfMemberId ∧ True) ∨
        c.inFlight.tracked.1.contains j = true := by
    intro j
    rw [and_true]
    exact contains_trackVotingProposal _ _ _ _ _
  unfold LeaveKept
  cases h with
  | pending h =>
    rw [h]
    exact ⟨fun _ h => absurd h (by simp), fun _ => hc⟩
  | @unsigned e h hvote =>
    refine Iff.trans (InFlight.noneStuck_iff_of_tracked hc htracked (fun _ hj => hj)
      fun _ hmem => hmem) ?_
    rw [h, hvote]
    simp only [true_imp_iff, reduceCtorEq, false_and, exists_false, or_false]
    rfl
  | @submitted v r st outs h hvote hcall =>
    refine Iff.trans (InFlight.noneStuck_iff_of_tracked hc htracked (fun _ hj => hj)
      fun _ hmem => List.mem_append_left outs hmem) ?_
    refine Iff.trans (imp_congr_right fun _ => pending_call) ?_
    rw [h, hvote]
    simp only [true_imp_iff, Except.ok.injEq, exists_eq_left', hcall]

/-- Where only the deadline and the outcomes of `id` can go, it is enough to look at its entry. -/
theorem noneStuck_iff_of_dropped {f g : InFlight P} {id : ProposalId} (h : f.NoneStuck)
    (htracked : g.tracked = f.tracked)
    (htimeouts : ∀ j, g.timeouts.contains j = true ↔ j ≠ id ∧ f.timeouts.contains j = true)
    (houtcomes : ∀ event ∈ f.outcomes, event.fields.1 ≠ id → event ∈ g.outcomes) :
    g.NoneStuck ↔ (f.tracked.1.contains id = true → Publishes g.outcomes id) := by
  have hpending : g.Pending id ↔ Publishes g.outcomes id := by
    unfold InFlight.Pending
    rw [htimeouts]
    simp [Publishes]
  unfold InFlight.NoneStuck
  rw [htracked, ← hpending]
  constructor
  · exact fun hg => hg id
  · intro hid j hj
    by_cases hne : j = id
    · rw [hne] at hj ⊢
      exact hid hj
    · rcases h j hj with ht | ⟨event, hmem, hevent⟩
      · exact .inl ((htimeouts j).mpr ⟨hne, ht⟩)
      · exact .inr ⟨event, houtcomes event hmem (hevent ▸ hne), hevent⟩

/-- **A deadline.** -/
theorem timeout_noneStuck_iff {c : Conversation P} (id : ProposalId) (hc : c.inFlight.NoneStuck) :
    (after (do
      unregisterConsensusTimeout id
      resolveOnTimeout id) c).inFlight.NoneStuck ↔ c.TimeoutKept id := by
  rw [expire_effect]
  refine Iff.trans (noneStuck_iff_of_dropped hc rfl (fun _ => OrderedMap.contains_erase_iff)
    fun _ hmem _ => List.mem_append_left _ hmem) ?_
  rw [publishes_append]
  unfold TimeoutKept
  cases c.stillActive id with
  | false =>
    simp only [Bool.false_eq_true, if_false, false_and, or_false]
    rw [show Publishes [] id ↔ False from by simp [Publishes], or_false]
    rfl
  | true =>
    rw [if_pos rfl, eq_self, true_and]
    rfl

/-- **An outcome.** -/
theorem outcome_noneStuck_iff {c : Conversation P} {event : ConsensusEvent}
    {rest : List ConsensusEvent} (hnext : c.outcomes = event :: rest) (hc : c.inFlight.NoneStuck) :
    (after (handleConsensusOutcome event) { c with outcomes := rest }).inFlight.NoneStuck ↔
      c.OutcomeKept event := by
  let d : Conversation P := { c with outcomes := rest }
  have hqueued : ∀ other ∈ c.outcomes, other.fields.1 ≠ event.fields.1 → other ∈ rest := by
    intro other hmem hne
    rw [hnext] at hmem
    rcases List.mem_cons.mp hmem with rfl | hmem
    · exact absurd rfl hne
    · exact hmem
  have hresolved : d.resolved event.fields.1 = c.resolved event.fields.1 := rfl
  unfold OutcomeKept
  rw [hnext, List.tail_cons]
  cases hrequest : c.resolved event.fields.1 with
  | none =>
    rw [inFlight_unresolved (hresolved.trans hrequest)]
    refine Iff.trans (noneStuck_iff_of_dropped hc rfl (fun _ => OrderedMap.contains_erase_iff)
      hqueued) ?_
    simp only [Option.isSome_none, Bool.false_eq_true, false_or]
    rfl
  | some request =>
    refine ⟨fun _ _ => .inl rfl, fun _ => ?_⟩
    refine finish_noneStuck (finish_resolved (hresolved.trans hrequest)) ?_
    rw [inFlight_handed]
    intro j hj
    obtain ⟨hne, hj⟩ := OrderedMap.contains_erase_iff.mp hj
    rcases hc j hj with ht | ⟨other, hmem, hother⟩
    · exact .inl (OrderedMap.contains_erase_iff.mpr ⟨hne, ht⟩)
    · exact .inr ⟨other, hqueued other hmem (hother ▸ hne), hother⟩

/-! ## Runs -/

/-- **A move** leaves nothing stuck exactly when it keeps what it consumes or adds pending. -/
theorem Moves.noneStuck_iff {c d : Conversation P} {m : Move P} (h : Moves c m d)
    (hc : c.inFlight.NoneStuck) : d.inFlight.NoneStuck ↔ KeepsPending c m := by
  cases h with
  | incomingProposal proposal => exact incoming_noneStuck_iff (onIncomingProposal_effect proposal c) hc
  | incomingVote v =>
    rw [forwardIncomingVote_effect]
    exact iff_of_true (hc.call _ _ _) trivial
  | vote id choice =>
    refine iff_of_true ?_ trivial
    rcases vote_cases id choice c with h | h
    · rwa [h]
    · rw [h, castNow_effect]
      exact hc.call _ _ _
  | leave => exact leave_noneStuck_iff (initiateSelfLeave_effect c) hc
  | autoVote hentry hdue =>
    rw [castNow_effect]
    exact iff_of_true (hc.call _ _ _) trivial
  | timeout hentry hdue => exact timeout_noneStuck_iff _ hc
  | outcome hnext => exact outcome_noneStuck_iff hnext hc
  | publish event => exact iff_of_true (hc.call c.consensus [event] _) trivial
  | driver h => exact iff_of_true (h.noneStuck hc) trivial

/-- **No entry is stuck** in any state of a run exactly when every move of it keeps what it consumes
or adds pending. -/
theorem none_stuck_iff {moves : List (Conversation P × Move P × Conversation P)}
    {c : Conversation P} (h : Trace Fresh Moves moves c) :
    (∀ e ∈ moves, e.2.2.inFlight.NoneStuck) ↔ ∀ e ∈ moves, KeepsPending e.1 e.2.1 := by
  refine h.all_iff (fun _ _ d => d.inFlight.NoneStuck) ?_ (fun _ _ _ _ _ h => h)
    fun _ _ _ hc hmove => hmove.noneStuck_iff hc
  rintro c ⟨id, window, hqueues⟩ j hj
  have hvoting : c.inFlight.tracked.1 = .empty := by
    show c.queues.votingProposals = .empty
    rw [hqueues]
    rfl
  rw [hvoting] at hj
  cases hj

end Conversation

/-! ## Evaluations -/

/-- Leaf 2 asks for its own removal, with one expected voter and no vote. -/
def Ideal.unvotedLeave : Proposal :=
  { Ideal.proposalOf 7 (.removeMember (memberIdOf 2)) with
    proposalOwner := memberIdOf 2
    expectedVotersCount := 1 }

/-- It is tracked, has no deadline, and no outcome is published. -/
theorem unvoted_leave_stuck :
    let c := after (Conversation.onIncomingProposal Ideal.unvotedLeave) Ideal.start
    Trace Conversation.Fresh Conversation.Moves
      [(Ideal.start, .incomingProposal Ideal.unvotedLeave, c)] c ∧ ¬ c.inFlight.NoneStuck := by
  refine ⟨.next (.start ⟨[], 10, rfl⟩) (.incomingProposal _ _), fun h => ?_⟩
  rcases h 7 (by decide) with htimeout | ⟨event, hmem, _⟩
  · revert htimeout
    decide
  · cases hmem

/-- A removal over three voters comes in, its outcome is published and handled. -/
def Ideal.removalMoves : List (Conversation Ideal.platform × Conversation.Move Ideal.platform ×
    Conversation Ideal.platform) :=
  let proposal := Ideal.proposalOf 7 (.removeMember (memberIdOf 2))
  let event : ConsensusEvent := .consensusReached 7 true 0
  let c := after (Conversation.onIncomingProposal proposal) Ideal.start
  let d := { c with outcomes := [event] }
  [(Ideal.start, .incomingProposal proposal, c), (c, .publish event, d),
    (d, .outcome event, after (Conversation.handleConsensusOutcome event) c)]

/-- The law, on that run. -/
theorem voted_removal_resolved :
    (∃ c, Trace Conversation.Fresh Conversation.Moves Ideal.removalMoves c) ∧
      ∀ e ∈ Ideal.removalMoves, e.2.2.inFlight.NoneStuck := by
  have hrun : Trace Conversation.Fresh Conversation.Moves Ideal.removalMoves _ :=
    .next (.next (.next (.start ⟨[], 10, rfl⟩) (.incomingProposal _ _)) (.publish _ _))
      (@Conversation.Moves.outcome _ _ _ [] rfl)
  refine ⟨⟨_, hrun⟩, (Conversation.none_stuck_iff hrun).mpr ?_⟩
  unfold Ideal.removalMoves
  rw [List.forall_mem_cons, List.forall_mem_cons, List.forall_mem_singleton]
  refine ⟨fun _ _ _ => .inl (by decide), trivial, fun _ => .inl (by decide)⟩

end DeMls
