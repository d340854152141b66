import DeMls.Conversation.Drift
import DeMls.Conversation.Run

/-!
# Traffic

The moves of a conversation as its proposals in flight see them: what peers send, what the
integrator asks, the deadlines, the outcomes, and the drivers. `IncomingEffect`, `LeaveEffect` and
the equations of votes and deadlines say once what each move does to the bookkeeping; every law over
the runs of `Moves` is derived from them.
-/

namespace DeMls

open Program Relation

variable {P : Platform} {α : Type}

/-! ## What an outcome does to the tables of the queues -/

/-- The queues take an outcome: its voting entry goes, no other table of the proposals in flight
changes. -/
theorem tracked_applyConsensusResult (O : OpenMls) (q : ConversationQueues) (id : ProposalId)
    (approved : Bool) (request : ConversationUpdateRequest) :
    (applyConsensusResult O q id approved request).2.tracked =
      (q.removeVotingProposal id).tracked := by
  unfold applyConsensusResult
  cases extractElectionProposal request with
  | some election => rfl
  | none =>
    dsimp only
    -- Whatever the branch, at most an approval and the urgent target are written.
    repeat' first | rfl | split

namespace Conversation

/-! ## A call of the service -/

/-- A call whose error is handed over. -/
theorem attempt_onConsensus
    (f : P.consensus.State → Except ConsensusError α × P.consensus.State × List ConsensusEvent)
    (c : Conversation P) :
    (attempt (onConsensus f) : ConvM P (Except ConversationError α)) c =
      .ok ((f c.consensus).1.mapError .consensus)
        (c.answered (f c.consensus).2.1 (f c.consensus).2.2) := by
  rcases hcall : f c.consensus with ⟨r, st, outs⟩
  unfold attempt
  cases r with
  | ok a => rw [onConsensus_ok hcall]; rfl
  | error e => rw [onConsensus_error hcall]; rfl

/-- A call whose answer is dropped. -/
theorem after_onConsensus
    (f : P.consensus.State → Except ConsensusError α × P.consensus.State × List ConsensusEvent)
    (c : Conversation P) : after (onConsensus f : ConvM P α) c =
      c.answered (f c.consensus).2.1 (f c.consensus).2.2 := by
  rcases hcall : f c.consensus with ⟨r, st, outs⟩
  cases r with
  | ok a => rw [after_of_ok (onConsensus_ok hcall)]
  | error e => rw [after_of_error (onConsensus_error hcall)]

/-! ## Tracking a proposal -/

/-- The first sighting of a proposal makes its entry. -/
theorem find?_trackVotingProposal (O : OpenMls) (q : ConversationQueues) (id : ProposalId)
    (request : ConversationUpdateRequest) (j : ProposalId) :
    (q.trackVotingProposal O id request).votingProposals.find? j =
      if j = id ∧ q.votingProposals.contains id = false then
        some ⟨inFlightTarget O request, .of request⟩
      else q.votingProposals.find? j := by
  unfold ConversationQueues.trackVotingProposal
  by_cases hid : q.votingProposals.contains id = true
  · rw [if_pos hid, if_neg (by simp [hid])]
  · rw [if_neg hid, OrderedMap.find?_insert]
    simp [hid]

theorem contains_trackVotingProposal (O : OpenMls) (q : ConversationQueues) (id : ProposalId)
    (request : ConversationUpdateRequest) (j : ProposalId) :
    (q.trackVotingProposal O id request).votingProposals.contains j = true ↔
      j = id ∨ q.votingProposals.contains j = true := by
  unfold ConversationQueues.trackVotingProposal
  by_cases hid : q.votingProposals.contains id = true
  · rw [if_pos hid]
    exact ⟨.inr, fun h => h.elim (fun hj => hj ▸ hid) fun h => h⟩
  · rw [if_neg hid]
    exact OrderedMap.contains_insert_iff

/-- A proposal of our own is tracked as an entry, and as an emergency if it is one. -/
theorem tracked_trackOwn (O : OpenMls) (id : ProposalId) (request : ConversationUpdateRequest)
    (q : ConversationQueues) :
    (trackOwn O id request q).tracked = ((q.trackVotingProposal O id request).votingProposals,
      if (ProposalKind.of request).isEmergency then insert id q.activeEmergencyIds
      else q.activeEmergencyIds, q.resolvedProposals) := by
  have htrack : (q.trackVotingProposal O id request).activeEmergencyIds = q.activeEmergencyIds ∧
      (q.trackVotingProposal O id request).resolvedProposals = q.resolvedProposals := by
    unfold ConversationQueues.trackVotingProposal
    split_ifs <;> exact ⟨rfl, rfl⟩
  unfold trackOwn ConversationQueues.tracked ConversationQueues.insertEmergency
  dsimp only
  split_ifs
  · rw [htrack.1, htrack.2]
  · rw [htrack.1, htrack.2]

/-- A peer's proposal is tracked like one of our own. -/
theorem tracked_mirrorProposal (O : OpenMls) (id : ProposalId) (epoch : Nat)
    (request : ConversationUpdateRequest) (q : ConversationQueues) :
    (mirrorProposal O id epoch request q).tracked = (trackOwn O id request q).tracked := by
  rcases request with ⟨payload⟩
  cases payload with
  | none => rfl
  | some payload =>
    cases payload with
    | memberInvite _ => exact ConversationQueues.tracked_insertPendingUpdate _ _ _ _
    | removeMember _ => exact ConversationQueues.tracked_insertPendingUpdate _ _ _ _
    | emergencyCriteria _ => rfl
    | stewardElection _ => rfl

/-! ## A received proposal -/

/-- The request a proposal carries, if its payload decodes. -/
def requestOf (P : Platform) (proposal : Proposal) : Option ConversationUpdateRequest :=
  (P.codec.decodeRequest proposal.payload).toOption

/-- An undecodable payload counts as a commit proposal. -/
def kindOf (P : Platform) (proposal : Proposal) : ProposalKind :=
  ((requestOf P proposal).map ProposalKind.of).getD .commit

/-- The service's answer to a proposal. -/
def admission (c : Conversation P) (proposal : Proposal) :
    Except ConsensusError Unit × P.consensus.State × List ConsensusEvent :=
  P.consensus.processIncomingProposal c.consensus proposal (asSecs c.now)

/-- The queues once an accepted proposal is mirrored. -/
def mirrored (c : Conversation P) (proposal : Proposal) : ConversationQueues :=
  match requestOf P proposal with
  | some request => mirrorProposal P.mls proposal.proposalId c.epoch request c.queues
  | none => c.queues

theorem contains_mirrored (c : Conversation P) (proposal : Proposal) (j : ProposalId) :
    (c.mirrored proposal).tracked.1.contains j = true ↔
      (j = proposal.proposalId ∧ (requestOf P proposal).isSome = true) ∨
        c.queues.votingProposals.contains j = true := by
  unfold mirrored
  cases requestOf P proposal with
  | none => simp [ConversationQueues.tracked]
  | some request =>
    dsimp only
    rw [tracked_mirrorProposal, tracked_trackOwn, contains_trackVotingProposal]
    simp

theorem cache_mirrored (c : Conversation P) (proposal : Proposal) :
    (c.mirrored proposal).tracked.2.2 = c.queues.resolvedProposals := by
  unfold mirrored
  cases requestOf P proposal with
  | none => rfl
  | some request =>
    dsimp only
    rw [tracked_mirrorProposal, tracked_trackOwn]

/-- Whether an accepted proposal gets its deadlines: it expects several votes, and its list can be
checked if it is an election. -/
def schedules (c : Conversation P) (proposal : Proposal) : Bool :=
  decide (1 < proposal.expectedVotersCount) &&
    match requestOf P proposal with
    | some ⟨some (.stewardElection election)⟩ => (c.validateElectionList election).toOption.isSome
    | _ => true

/-- What a received proposal does to the bookkeeping. -/
inductive IncomingEffect (c : Conversation P) (proposal : Proposal) : InFlight P → Prop
  | blocked (hgate : c.queues.partialFreezeBlocks (kindOf P proposal) = true) :
      IncomingEffect c proposal c.inFlight
  | refused {e : ConsensusError} {st : P.consensus.State} {outs : List ConsensusEvent}
      (hgate : c.queues.partialFreezeBlocks (kindOf P proposal) = false)
      (hcall : c.admission proposal = (.error e, st, outs)) :
      IncomingEffect c proposal { c.inFlight with consensus := st, outcomes := c.outcomes ++ outs }
  | accepted {st : P.consensus.State} {outs : List ConsensusEvent}
      (hgate : c.queues.partialFreezeBlocks (kindOf P proposal) = false)
      (hcall : c.admission proposal = (.ok (), st, outs)) (hnone : c.schedules proposal = false) :
      IncomingEffect c proposal { c.inFlight with
        tracked := (c.mirrored proposal).tracked
        consensus := st
        outcomes := c.outcomes ++ outs }
  | scheduled {st : P.consensus.State} {outs : List ConsensusEvent} {entry : AutoVoteEntry}
      (hgate : c.queues.partialFreezeBlocks (kindOf P proposal) = false)
      (hcall : c.admission proposal = (.ok (), st, outs)) (htimed : c.schedules proposal = true) :
      IncomingEffect c proposal ⟨(c.mirrored proposal).tracked,
        c.timing.pendingAutoVotes.insert proposal.proposalId entry,
        c.timing.pendingConsensusTimeouts.insert proposal.proposalId
          (c.now + c.config.consensusTimeout),
        st, c.outcomes ++ outs⟩

theorem validateElectionList_congr {c d : Conversation P} (election : StewardElectionProposal)
    (hqueues : d.queues.memberJoinEpoch = c.queues.memberJoinEpoch) (hmls : d.mls = c.mls)
    (hlist : d.stewardList = c.stewardList) :
    d.validateElectionList election = c.validateElectionList election := by
  unfold validateElectionList settledPool members ConversationQueues.settledMembers
    ConversationQueues.isSettled
  rw [hqueues, hmls, hlist]

/-- Scheduling the vote of a proposal fails when the list of an election cannot be checked, and
registers an auto-vote otherwise. -/
theorem scheduleVote_cases (proposalId : ProposalId) (decoded : Option ConversationUpdateRequest)
    (c : Conversation P) :
    ((∃ election e, decoded = some ⟨some (.stewardElection election)⟩ ∧
        c.validateElectionList election = .error e ∧
        (scheduleVote proposalId decoded : ConvM P Unit) c = .error e c)) ∨
      (∀ election, decoded = some ⟨some (.stewardElection election)⟩ →
        (c.validateElectionList election).toOption.isSome = true) ∧
      ∃ d entry, (scheduleVote proposalId decoded : ConvM P Unit) c = .ok () d ∧
        d.now = c.now ∧
        d.inFlight = { c.inFlight with
          autoVotes := c.timing.pendingAutoVotes.insert proposalId entry } := by
  unfold scheduleVote
  rw [bind_run _ (get_apply c)]
  split
  · rename_i election
    cases hcheck : c.validateElectionList election with
    | error e => exact .inl ⟨election, e, rfl, hcheck, rfl⟩
    | ok verdict =>
      refine .inr ⟨?_, _, ⟨c.now + 0, verdict⟩, rfl, rfl, rfl⟩
      rintro _ ⟨⟩
      rw [hcheck]
      rfl
  · rename_i request hother
    refine .inr ⟨?_, _, ⟨c.now + c.config.votingDelay, c.config.livenessCriteriaYes⟩, rfl, rfl, rfl⟩
    rintro election ⟨⟩
    exact absurd rfl (hother election)
  · refine .inr ⟨?_, _, ⟨c.now + c.config.votingDelay, c.config.livenessCriteriaYes⟩, rfl, rfl, rfl⟩
    rintro election ⟨⟩

/-- Mirror what an accepted proposal carries. -/
def mirrorRequest (id : ProposalId) (epoch : Nat) : Option ConversationUpdateRequest → ConvM P Unit
  | some request => modifyQueues (mirrorProposal P.mls id epoch request)
  | none => pure ()

/-- What is left of a received proposal once the service has accepted it. -/
def enlist (proposal : Proposal) (epoch consensusTimeout : Nat) : ConvM P Unit := do
  mirrorRequest proposal.proposalId epoch (requestOf P proposal)
  if 1 < proposal.expectedVotersCount then do
    scheduleVote proposal.proposalId (requestOf P proposal)
    registerConsensusTimeout proposal.proposalId consensusTimeout
  else pure ()

/-- The state an accepted proposal leaves before its deadlines: answered by the service, and
mirrored in the queues. -/
def admitted (c : Conversation P) (proposal : Proposal) (st : P.consensus.State)
    (outs : List ConsensusEvent) : Conversation P :=
  { c.answered st outs with queues := c.mirrored proposal }

theorem mirrorRequest_run (c : Conversation P) (proposal : Proposal) (st : P.consensus.State)
    (outs : List ConsensusEvent) :
    (mirrorRequest proposal.proposalId c.epoch (requestOf P proposal) : ConvM P Unit)
      (c.answered st outs) = .ok () (c.admitted proposal st outs) := by
  unfold admitted mirrored
  cases requestOf P proposal <;> rfl

/-- Mirroring a proposal changes nothing an election is checked against. -/
theorem validateElectionList_admitted (c : Conversation P) (proposal : Proposal)
    (st : P.consensus.State) (outs : List ConsensusEvent) (election : StewardElectionProposal) :
    (c.admitted proposal st outs).validateElectionList election =
      c.validateElectionList election := by
  refine validateElectionList_congr election ?_ rfl rfl
  unfold admitted mirrored
  cases requestOf P proposal with
  | none => rfl
  | some request =>
    exact congrArg (fun l => l.2.2) (ledger_mirrorProposal P.mls proposal.proposalId c.epoch
      request c.queues)

/-- A proposal that the service takes is enlisted. -/
theorem onIncomingProposal_accepted {c : Conversation P} {proposal : Proposal}
    {st : P.consensus.State} {outs : List ConsensusEvent}
    (hgate : c.queues.partialFreezeBlocks (kindOf P proposal) = false)
    (hcall : c.admission proposal = (.ok (), st, outs)) :
    (onIncomingProposal proposal : ConvM P Unit) c =
      enlist proposal c.epoch c.config.consensusTimeout (c.answered st outs) := by
  have hgate : ¬ c.queues.partialFreezeBlocks
      (((P.codec.decodeRequest proposal.payload).toOption.map ProposalKind.of).getD .commit) = true :=
    Bool.eq_false_iff.mp hgate
  have hservice : (attempt (onConsensus fun st =>
      P.consensus.processIncomingProposal st proposal (asSecs c.now)) :
        ConvM P (Except ConversationError Unit)) c = .ok (.ok ()) (c.answered st outs) := by
    have hcall' : P.consensus.processIncomingProposal c.consensus proposal (asSecs c.now) =
        (.ok (), st, outs) := hcall
    rw [attempt_onConsensus, hcall']
    rfl
  unfold onIncomingProposal
  rw [bind_run _ (get_apply c)]
  dsimp only
  rw [if_neg hgate, bind_run _ hservice]
  rfl

/-- An accepted proposal is mirrored, and gets both deadlines or none. -/
theorem enlist_effect (proposal : Proposal) (st : P.consensus.State) (outs : List ConsensusEvent)
    (c : Conversation P) : ∃ autoVotes timeouts,
      (after (enlist proposal c.epoch c.config.consensusTimeout) (c.answered st outs)).inFlight =
        ⟨(c.mirrored proposal).tracked, autoVotes, timeouts, st, c.outcomes ++ outs⟩ ∧
      if c.schedules proposal then
        (∃ entry, autoVotes = c.timing.pendingAutoVotes.insert proposal.proposalId entry) ∧
          timeouts = c.timing.pendingConsensusTimeouts.insert proposal.proposalId
            (c.now + c.config.consensusTimeout)
      else autoVotes = c.timing.pendingAutoVotes ∧ timeouts = c.timing.pendingConsensusTimeouts := by
  -- The mirror is in place before anything is scheduled.
  let d := c.admitted proposal st outs
  have hcheck : ∀ election, d.validateElectionList election = c.validateElectionList election :=
    validateElectionList_admitted c proposal st outs
  unfold enlist
  rw [after_bind_ok _ (mirrorRequest_run c proposal st outs)]
  by_cases hvoters : 1 < proposal.expectedVotersCount
  · rw [if_pos hvoters]
    rcases scheduleVote_cases proposal.proposalId (requestOf P proposal) d with
      ⟨election, e, hrequest, herror, hrun⟩ | ⟨hvalid, d', entry, hrun, hnow, hflight⟩
    · rw [after_bind_error _ hrun]
      have hnone : c.schedules proposal = false := by
        rw [hcheck] at herror
        unfold schedules
        rw [hrequest]
        dsimp only
        rw [herror]
        exact Bool.and_false _
      refine ⟨_, _, rfl, ?_⟩
      rw [hnone]
      exact ⟨rfl, rfl⟩
    · rw [after_bind_ok _ hrun]
      have htimed : c.schedules proposal = true := by
        unfold schedules
        rw [Bool.and_eq_true]
        refine ⟨decide_eq_true hvoters, ?_⟩
        split
        · rename_i election hrequest
          rw [← hcheck]
          exact hvalid election hrequest
        · rfl
      have hlast : (after (registerConsensusTimeout proposal.proposalId c.config.consensusTimeout :
          ConvM P Unit) d').inFlight = { d'.inFlight with
            timeouts := d'.inFlight.timeouts.insert proposal.proposalId
              (d'.now + c.config.consensusTimeout) } := rfl
      refine ⟨c.timing.pendingAutoVotes.insert proposal.proposalId entry,
        c.timing.pendingConsensusTimeouts.insert proposal.proposalId
          (c.now + c.config.consensusTimeout), hlast.trans ?_, ?_⟩
      · rw [hflight, hnow]
        rfl
      · rw [if_pos htimed]
        exact ⟨⟨entry, rfl⟩, rfl⟩
  · rw [if_neg hvoters]
    have hnone : c.schedules proposal = false := by
      unfold schedules
      rw [decide_eq_false hvoters]
      rfl
    refine ⟨_, _, rfl, ?_⟩
    rw [hnone]
    exact ⟨rfl, rfl⟩

/-- **A received proposal.** -/
theorem onIncomingProposal_effect (proposal : Proposal) (c : Conversation P) :
    IncomingEffect c proposal (after (onIncomingProposal proposal) c).inFlight := by
  unfold onIncomingProposal
  rw [after_bind_ok _ (get_apply c)]
  dsimp only
  split
  · rename_i hgate
    exact .blocked hgate
  · rename_i hgate
    have hgate : c.queues.partialFreezeBlocks (kindOf P proposal) = false :=
      Bool.eq_false_iff.mpr hgate
    rw [after_bind_ok _ (attempt_onConsensus _ c)]
    rcases hcall : c.admission proposal with ⟨r, st, outs⟩
    have hcall' : P.consensus.processIncomingProposal c.consensus proposal (asSecs c.now) =
        (r, st, outs) := hcall
    rw [hcall']
    cases r with
    | error e =>
      dsimp only [Except.mapError]
      split_ifs with hexpired
      · exact .refused hgate hcall
      · exact .refused hgate hcall
    | ok _ =>
      obtain ⟨autoVotes, timeouts, heq, htimers⟩ := enlist_effect proposal st outs c
      show IncomingEffect c proposal (after (enlist proposal c.epoch c.config.consensusTimeout)
        (c.answered st outs)).inFlight
      rw [heq]
      cases hscheduled : c.schedules proposal with
      | false =>
        rw [hscheduled] at htimers
        obtain ⟨rfl, rfl⟩ := htimers
        exact .accepted hgate hcall hscheduled
      | true =>
        rw [hscheduled] at htimers
        obtain ⟨⟨entry, rfl⟩, rfl⟩ := htimers
        exact .scheduled hgate hcall hscheduled

/-! ## Votes and deadlines -/

/-- **A cast vote** is one call of the service. -/
theorem broadcastVote_effect (id : ProposalId) (choice : Bool) (c : Conversation P) :
    let r := P.consensus.castVote c.consensus id choice (asSecs c.now)
    (after (broadcastVote id choice) c).inFlight =
      { c.inFlight with consensus := r.2.1, outcomes := c.outcomes ++ r.2.2 } := by
  intro r
  unfold broadcastVote
  rw [after_bind_ok _ (get_apply c)]
  rcases hcall : P.consensus.castVote c.consensus id choice (asSecs c.now) with ⟨a, st, outs⟩
  have hr : r = (a, st, outs) := hcall
  rw [hr]
  cases a with
  | error e =>
    rw [after_bind_error _ (onConsensus_error hcall)]
    rfl
  | ok voteMsg =>
    rw [after_bind_ok _ (onConsensus_ok hcall)]
    exact inFlight_of_flight (flight_sendApp _) (c.answered st outs)

/-- A vote of ours takes the place of the scheduled one. -/
theorem castNow_effect (id : ProposalId) (choice : Bool) (c : Conversation P) :
    let r := P.consensus.castVote c.consensus id choice (asSecs c.now)
    (after (do
      cancelAutoVote id
      broadcastVote id choice) c).inFlight =
      { c.inFlight with
        autoVotes := c.timing.pendingAutoVotes.erase id
        consensus := r.2.1
        outcomes := c.outcomes ++ r.2.2 } := by
  intro r
  let d : Conversation P := { c with timing := { c.timing with
    pendingAutoVotes := c.timing.pendingAutoVotes.erase id } }
  have hcancel : (cancelAutoVote id : ConvM P Unit) c = .ok () d := rfl
  rw [after_bind_ok _ hcancel]
  exact broadcastVote_effect id choice d

/-- **The integrator's vote** is refused, or one of ours. -/
theorem vote_cases (id : ProposalId) (choice : Bool) (c : Conversation P) :
    (after (vote id choice) c).inFlight = c.inFlight ∨
      (after (vote id choice) c).inFlight = (after (do
        cancelAutoVote id
        broadcastVote id choice) c).inFlight := by
  unfold vote
  rw [after_bind_ok _ (get_apply c)]
  split_ifs with hrotating
  · exact .inl rfl
  · exact .inr rfl

/-- **A received vote** is one call of the service. -/
theorem forwardIncomingVote_effect (v : Vote) (c : Conversation P) :
    let r := P.consensus.processIncomingVote c.consensus v (asSecs c.now)
    (after (forwardIncomingVote v) c).inFlight =
      { c.inFlight with consensus := r.2.1, outcomes := c.outcomes ++ r.2.2 } := by
  intro r
  unfold forwardIncomingVote
  rw [after_bind_ok _ (get_apply c), after_bind_ok _ (attempt_onConsensus _ c)]
  split <;> rfl

/-- Whether the service still lists the session of a deadline. -/
def stillActive (c : Conversation P) (id : ProposalId) : Bool :=
  match P.consensus.getActiveProposals c.consensus with
  | .ok active => active.any fun p => p.proposalId = id
  | .error _ => false

/-- **A deadline** resolves its session when the service still lists it, and does nothing else. -/
theorem after_resolveOnTimeout (id : ProposalId) (c : Conversation P) :
    let r := P.consensus.handleConsensusTimeout c.consensus id (asSecs c.now)
    after (resolveOnTimeout id) c =
      if c.stillActive id then c.answered r.2.1 r.2.2 else c := by
  intro r
  unfold resolveOnTimeout
  rw [after_bind_ok _ (get_apply c)]
  show after (if (!c.stillActive id) = true then pure () else do
    let _ ← (attempt (onConsensus fun st =>
      P.consensus.handleConsensusTimeout st id (asSecs c.now)) : ConvM P _)
    pure ()) c = _
  cases c.stillActive id with
  | false => rfl
  | true =>
    rw [Bool.not_true, if_neg Bool.false_ne_true, after_bind_ok _ (attempt_onConsensus _ c)]
    rfl

/-- A deadline that fires is gone, whatever becomes of its session. -/
theorem expire_effect (id : ProposalId) (c : Conversation P) :
    let r := P.consensus.handleConsensusTimeout c.consensus id (asSecs c.now)
    (after (do
      unregisterConsensusTimeout id
      resolveOnTimeout id) c).inFlight =
      { c.inFlight with
        timeouts := c.timing.pendingConsensusTimeouts.erase id
        consensus := if c.stillActive id then r.2.1 else c.consensus
        outcomes := c.outcomes ++ if c.stillActive id then r.2.2 else [] } := by
  intro r
  let d : Conversation P := { c with timing := { c.timing with
    pendingConsensusTimeouts := c.timing.pendingConsensusTimeouts.erase id } }
  have hdrop : (unregisterConsensusTimeout id : ConvM P Unit) c = .ok () d := rfl
  have hactive : d.stillActive id = c.stillActive id := rfl
  rw [after_bind_ok _ hdrop, after_resolveOnTimeout, hactive]
  split_ifs
  · rfl
  · rw [List.append_nil]
    rfl

/-! ## A leave -/

/-- The self-leave proposal a leave submits, its vote aside. -/
def unsignedLeave (c : Conversation P) : Proposal where
  name := textBytes s!"self-leave:{selfLeaveProposalId P c.selfMemberId}"
  payload := P.codec.encodeRequest (.removeMember c.selfMemberId)
  proposalId := selfLeaveProposalId P c.selfMemberId
  proposalOwner := c.selfMemberId
  votes := []
  expectedVotersCount := 1
  round := 1
  timestamp := asSecs c.now
  expirationTimestamp := min (asSecs c.now + asSecs c.config.proposalExpiration) (2 ^ 64 - 1)
  livenessCriteriaYes := true

/-- The leaver's vote on it. -/
def leaveVote (c : Conversation P) : Except ConsensusError Vote :=
  P.consensus.buildVote c.consensus c.unsignedLeave true (asSecs c.now)

/-- The proposal that goes out. -/
def signedLeave (c : Conversation P) (yesVote : Vote) : Proposal :=
  { c.unsignedLeave with votes := c.unsignedLeave.votes ++ [yesVote] }

/-- The queues with our own leave in flight. -/
def leaving (c : Conversation P) : ConversationQueues :=
  c.queues.trackVotingProposal P.mls (selfLeaveProposalId P c.selfMemberId)
    (.removeMember c.selfMemberId)

/-- A leave adds an entry and nothing else to the queues. -/
theorem tracked_leaving (c : Conversation P) : c.leaving.tracked.2 = c.queues.tracked.2 := by
  unfold leaving ConversationQueues.trackVotingProposal
  split_ifs <;> rfl

/-- What a leave does to the bookkeeping: its entry comes before its session. -/
inductive LeaveEffect (c : Conversation P) : InFlight P → Prop
  | pending (h : c.queues.isPendingSelfLeave P c.selfMemberId = true) : LeaveEffect c c.inFlight
  | unsigned {e : ConsensusError} (h : c.queues.isPendingSelfLeave P c.selfMemberId = false)
      (hvote : c.leaveVote = .error e) :
      LeaveEffect c { c.inFlight with tracked := c.leaving.tracked }
  | submitted {v : Vote} {r : Except ConsensusError Unit} {st : P.consensus.State}
      {outs : List ConsensusEvent} (h : c.queues.isPendingSelfLeave P c.selfMemberId = false)
      (hvote : c.leaveVote = .ok v) (hcall : c.admission (c.signedLeave v) = (r, st, outs)) :
      LeaveEffect c { c.inFlight with
        tracked := c.leaving.tracked
        consensus := st
        outcomes := c.outcomes ++ outs }

/-- **A leave.** -/
theorem initiateSelfLeave_effect (c : Conversation P) :
    LeaveEffect c (after initiateSelfLeave c).inFlight := by
  unfold initiateSelfLeave
  rw [after_bind_ok _ (get_apply c)]
  by_cases hpending : c.queues.isPendingSelfLeave P c.selfMemberId = true
  · rw [if_pos hpending]
    exact .pending hpending
  · rw [if_neg hpending]
    have hpending := Bool.eq_false_iff.mpr hpending
    let d : Conversation P := { c with queues := c.leaving }
    have htrack : (modifyQueues fun q => q.trackVotingProposal P.mls
        (selfLeaveProposalId P c.selfMemberId) (.removeMember c.selfMemberId) : ConvM P Unit) c =
          .ok () d := rfl
    rw [after_bind_ok _ htrack]
    cases hvote : c.leaveVote with
    | error e =>
      have hbuild : (ofResult (c.leaveVote.mapError .consensus) : ConvM P Vote) d =
          .error (.consensus e) d := ofResult_of_error hvote _ d
      have hsubmit : (submitSelfLeaveProposal : ConvM P _) d = .error (.consensus e) d :=
        (bind_error _ _ _ _ _).mpr (.inr ⟨_, _, get_apply d, (bind_error _ _ _ _ _).mpr (.inl hbuild)⟩)
      rw [after_bind_error _ hsubmit]
      exact .unsigned hpending hvote
    | ok v =>
      rcases hcall : c.admission (c.signedLeave v) with ⟨r, st, outs⟩
      have hbuild : (ofResult (c.leaveVote.mapError .consensus) : ConvM P Vote) d = .ok v d :=
        ofResult_of_ok hvote _ d
      have hcall' : (attempt (onConsensus fun st =>
          P.consensus.processIncomingProposal st (c.signedLeave v) (asSecs c.now)) : ConvM P _) d =
            .ok (r.mapError .consensus) (d.answered st outs) := by
        rw [attempt_onConsensus]
        show EStateM.Result.ok ((c.admission (c.signedLeave v)).1.mapError ConversationError.consensus)
          (d.answered (c.admission (c.signedLeave v)).2.1 (c.admission (c.signedLeave v)).2.2) = _
        rw [hcall]
      have hsubmit : after (submitSelfLeaveProposal : ConvM P _) d = d.answered st outs := by
        unfold submitSelfLeaveProposal
        refine (after_bind_ok _ (get_apply d)).trans ?_
        refine (after_bind_ok _ hbuild).trans ?_
        refine (after_bind_ok _ hcall').trans ?_
        split <;> rfl
      refine (congrArg (LeaveEffect c) ?_).mpr (.submitted hpending hvote hcall)
      refine (after_bind_of_frame (fun o => ?_) d).trans (congrArg inFlight hsubmit)
      cases o with
      | none => exact frame_pure _ _
      | some m => exact inFlight_of_flight (flight_sendApp _)

/-! ## An outcome -/

/-- The steps that finish the outcome of `id`: a driver's, the end of its emergency, and the end of
its session. -/
inductive Finish (id : ProposalId) : Conversation P → Conversation P → Prop
  | drift {c d : Conversation P} (h : Drift (fun _ => True) c d) : Finish id c d
  | lift (c : Conversation P) : Finish id c { c with queues := c.queues.removeEmergency id }
  | free (c : Conversation P) :
      Finish id c { c with consensus := (P.consensus.removeSession c.consensus id).2 }

theorem finish_drift {id : ProposalId} {x : ConvM P α} (h : Along (Drift fun _ => True) x) :
    Along (Finish id) x :=
  h.mono fun _ _ => .drift

theorem finish_handleEmergencyScored (id : ProposalId) (ops : List ScoreOp) :
    Along (Finish id) (handleEmergencyScored id ops : ConvM P Unit) := by
  unfold handleEmergencyScored
  refine along_bind (finish_drift (drift_flight (flight_applyScoreOps _))) fun _ => ?_
  refine along_bind (along_step fun c => .lift c) fun _ => along_bind along_get fun c => ?_
  refine along_ite (finish_drift ?_) (along_pure _)
  exact along_bind (drift_startWorking trivial) fun _ => drift_flight (flight_emitPhaseChange _)

/-- **The end of an outcome.** -/
theorem finish_finishOutcome (id : ProposalId) (r : ConsensusApplyResult) (ops : List ScoreOp) :
    Along (Finish id) (finishOutcome id r ops : ConvM P Unit) := by
  have hfree : Along (Finish id) (onConsensus fun st =>
      ((P.consensus.removeSession st id).1, (P.consensus.removeSession st id).2, []) :
      ConvM P Unit) := by
    refine along_step fun c => ?_
    rw [after_onConsensus]
    unfold answered
    rw [List.append_nil]
    exact .free c
  unfold finishOutcome
  refine along_bind (finish_drift (drift_flight flight_replayEarlyCandidates)) fun _ => ?_
  refine along_bind (finish_drift (drift_followUp trivial trivial r)) fun _ => ?_
  exact along_ite (along_bind (finish_handleEmergencyScored id ops) fun _ => hfree) hfree

/-- Handed to the queues, an outcome drops its deadlines and its entry, and is remembered. -/
theorem inFlight_handed (event : ConsensusEvent) (request : ConversationUpdateRequest)
    (c : Conversation P) : (c.handed event request).inFlight =
      { (c.dropDeadlines event.fields.1).inFlight with
        tracked := (c.queues.votingProposals.erase event.fields.1, c.queues.activeEmergencyIds,
          (c.queues.resolvedProposals.insert event.fields.1).2) } := by
  have htracked := tracked_applyConsensusResult P.mls
    (c.queues.markConsensusOutcomeApplied event.fields.1) event.fields.1 event.fields.2.1 request
  show (⟨(c.applied event request).2.tracked, _, _, _, _⟩ : InFlight P) = _
  rw [show (c.applied event request).2.tracked = _ from htracked]
  rfl

/-- An outcome without a request to apply drops the deadlines. -/
theorem inFlight_unresolved {event : ConsensusEvent} {c : Conversation P}
    (h : c.resolved event.fields.1 = none) :
    (after (handleConsensusOutcome event) c).inFlight = (c.dropDeadlines event.fields.1).inFlight := by
  rcases after_handleConsensusOutcome_unresolved h with h | h
  · rw [h]
  · rw [h]
    rfl

/-- Any other is handed to the queues and finished. -/
theorem finish_resolved {event : ConsensusEvent} {c : Conversation P}
    {request : ConversationUpdateRequest} (h : c.resolved event.fields.1 = some request) :
    Relation.ReflTransGen (Finish event.fields.1) (c.handed event request)
      (after (handleConsensusOutcome event) c) := by
  rw [after_handleConsensusOutcome_resolved h]
  exact finish_finishOutcome _ _ _ (c.handed event request)

/-! ## Moves -/

/-- The moves of a conversation. -/
inductive Move (P : Platform)
  | incomingProposal (proposal : Proposal)
  | incomingVote (v : Vote)
  | vote (id : ProposalId) (choice : Bool)
  | leave
  | autoVote (id : ProposalId)
  | timeout (id : ProposalId)
  | outcome (event : ConsensusEvent)
  /-- An outcome joins the bus, again perhaps. -/
  | publish (event : ConsensusEvent)
  /-- A driver's step: a proposal of our own, a phase, the end of all auto-votes, or anything that
  no proposal in flight sees. -/
  | driver

inductive Moves : Conversation P → Move P → Conversation P → Prop
  | incomingProposal (c : Conversation P) (proposal : Proposal) :
      Moves c (.incomingProposal proposal) (after (onIncomingProposal proposal) c)
  | incomingVote (c : Conversation P) (v : Vote) :
      Moves c (.incomingVote v) (after (forwardIncomingVote v) c)
  | vote (c : Conversation P) (id : ProposalId) (choice : Bool) :
      Moves c (.vote id choice) (after (Conversation.vote id choice) c)
  | leave (c : Conversation P) : Moves c .leave (after initiateSelfLeave c)
  | autoVote {c : Conversation P} {id : ProposalId} {entry : AutoVoteEntry}
      (hentry : c.timing.pendingAutoVotes.find? id = some entry) (hdue : entry.fireAt ≤ c.now) :
      Moves c (.autoVote id) (after (do
        cancelAutoVote id
        broadcastVote id entry.vote) c)
  | timeout {c : Conversation P} {id : ProposalId} {fireAt : Nat}
      (hentry : c.timing.pendingConsensusTimeouts.find? id = some fireAt) (hdue : fireAt ≤ c.now) :
      Moves c (.timeout id) (after (do
        unregisterConsensusTimeout id
        resolveOnTimeout id) c)
  | outcome {c : Conversation P} {event : ConsensusEvent} {rest : List ConsensusEvent}
      (hnext : c.outcomes = event :: rest) :
      Moves c (.outcome event) (after (handleConsensusOutcome event) { c with outcomes := rest })
  | publish (c : Conversation P) (event : ConsensusEvent) :
      Moves c (.publish event) { c with outcomes := c.outcomes ++ [event] }
  | driver {c d : Conversation P} (h : Drift (fun _ => True) c d) : Moves c .driver d

/-! ## Calls of the service -/

/-- One call that may change the state of the service. -/
inductive ServiceCall (S : ConsensusService) : S.State → S.State → Prop
  | receiveProposal (st : S.State) (proposal : Proposal) (now : Nat) :
      ServiceCall S st (S.processIncomingProposal st proposal now).2.1
  | receiveVote (st : S.State) (v : Vote) (now : Nat) :
      ServiceCall S st (S.processIncomingVote st v now).2.1
  | cast (st : S.State) (id : ProposalId) (choice : Bool) (now : Nat) :
      ServiceCall S st (S.castVote st id choice now).2.1
  | castAndGet (st : S.State) (id : ProposalId) (choice : Bool) (now : Nat) :
      ServiceCall S st (S.castVoteAndGetProposal st id choice now).2.1
  | create (st : S.State) (request : CreateProposalRequest) (now : Nat) :
      ServiceCall S st (S.createProposalWithConfig st request now).2.1
  | timeout (st : S.State) (id : ProposalId) (now : Nat) :
      ServiceCall S st (S.handleConsensusTimeout st id now).2.1
  | remove (st : S.State) (id : ProposalId) : ServiceCall S st (S.removeSession st id).2

/-- Some calls lead from one state of the service to another. -/
abbrev Calls (S : ConsensusService) : S.State → S.State → Prop := ReflTransGen (ServiceCall S)

theorem OpeningEffect.calls {c : Conversation P} {request : ConversationUpdateRequest}
    {f : InFlight P} (h : OpeningEffect c request f) : Calls P.consensus c.consensus f.consensus := by
  have hcreate : ServiceCall P.consensus c.consensus (c.opening request).2.1 := .create _ _ _
  cases h with
  | refused => exact .refl
  | failed hopening =>
    rw [hopening] at hcreate
    exact .single hcreate
  | opened _ hopening hconsensus _ =>
    rw [hopening] at hcreate
    rcases hconsensus with rfl | rfl
    · exact .single hcreate
    · exact .tail (.single hcreate) (.castAndGet _ _ _ _)

theorem Drift.calls {phases : ConversationState → Prop} {c d : Conversation P}
    (h : Drift phases c d) : Calls P.consensus c.consensus d.consensus := by
  cases h with
  | still h =>
    rw [show d.consensus = c.consensus from congrArg (fun f => f.1.consensus) h]
  | enter h _ =>
    rw [show d.consensus = c.consensus from congrArg InFlight.consensus h]
  | propose request v => exact (initiateProposal_effect request v c).calls
  | unschedule => exact .refl

theorem Finish.calls {id : ProposalId} {c d : Conversation P} (h : Finish id c d) :
    Calls P.consensus c.consensus d.consensus := by
  cases h with
  | drift h => exact h.calls
  | lift => exact .refl
  | free => exact .single (.remove _ _)

theorem calls_handleConsensusOutcome (event : ConsensusEvent) (c : Conversation P) :
    Calls P.consensus c.consensus (after (handleConsensusOutcome event) c).consensus := by
  cases hresolved : c.resolved event.fields.1 with
  | none =>
    rw [show (after (handleConsensusOutcome event) c).consensus = c.consensus from
      congrArg InFlight.consensus (inFlight_unresolved hresolved)]
  | some request =>
    have hpath := finish_resolved hresolved
    generalize after (handleConsensusOutcome event) c = d at hpath ⊢
    have hhanded : (c.handed event request).consensus = c.consensus := rfl
    rw [← hhanded]
    induction hpath with
    | refl => exact .refl
    | tail _ hstep ih => exact ih.trans hstep.calls

theorem IncomingEffect.calls {c : Conversation P} {proposal : Proposal} {f : InFlight P}
    (h : IncomingEffect c proposal f) : Calls P.consensus c.consensus f.consensus := by
  have hcall : ServiceCall P.consensus c.consensus (c.admission proposal).2.1 :=
    .receiveProposal _ _ _
  cases h with
  | blocked _ => exact .refl
  | refused _ hadmission =>
    rw [hadmission] at hcall
    exact .single hcall
  | accepted _ hadmission _ =>
    rw [hadmission] at hcall
    exact .single hcall
  | scheduled _ hadmission _ =>
    rw [hadmission] at hcall
    exact .single hcall

theorem LeaveEffect.calls {c : Conversation P} {f : InFlight P} (h : LeaveEffect c f) :
    Calls P.consensus c.consensus f.consensus := by
  cases h with
  | pending _ => exact .refl
  | unsigned _ _ => exact .refl
  | @submitted v r st outs _ _ hadmission =>
    have hcall : ServiceCall P.consensus c.consensus (c.admission (c.signedLeave v)).2.1 :=
      .receiveProposal _ _ _
    rw [hadmission] at hcall
    exact .single hcall

/-- **A move** calls the service only. -/
theorem Moves.calls {c d : Conversation P} {m : Move P} (h : Moves c m d) :
    Calls P.consensus c.consensus d.consensus := by
  have hcast : ∀ id choice, Calls P.consensus c.consensus (after (do
      cancelAutoVote id
      broadcastVote id choice) c).consensus := by
    intro id choice
    rw [show (after (do
        cancelAutoVote id
        broadcastVote id choice) c).consensus = _ from
      congrArg InFlight.consensus (castNow_effect id choice c)]
    exact .single (.cast _ _ _ _)
  cases h with
  | incomingProposal proposal => exact (onIncomingProposal_effect proposal c).calls
  | incomingVote v =>
    rw [show (after (forwardIncomingVote v) c).consensus = _ from
      congrArg InFlight.consensus (forwardIncomingVote_effect v c)]
    exact .single (.receiveVote _ _ _)
  | vote id choice =>
    rcases vote_cases id choice c with h | h
    · rw [show (after (Conversation.vote id choice) c).consensus = c.consensus from
        congrArg InFlight.consensus h]
    · rw [show (after (Conversation.vote id choice) c).consensus = _ from
        congrArg InFlight.consensus h]
      exact hcast id choice
  | leave => exact (initiateSelfLeave_effect c).calls
  | autoVote hentry hdue => exact hcast _ _
  | @timeout id _ hentry hdue =>
    rw [show (after (do
        unregisterConsensusTimeout id
        resolveOnTimeout id) c).consensus = _ from congrArg InFlight.consensus (expire_effect id c)]
    dsimp only
    split_ifs
    · exact .single (.timeout _ _ _)
    · exact .refl
  | @outcome event rest hnext => exact calls_handleConsensusOutcome event { c with outcomes := rest }
  | publish event => exact .refl
  | driver h => exact h.calls

/-! ## The memory of outcomes -/

theorem OpeningEffect.cache {c : Conversation P} {request : ConversationUpdateRequest}
    {f : InFlight P} (h : OpeningEffect c request f) :
    f.tracked.2.2 = c.queues.resolvedProposals := by
  cases h with
  | refused => rfl
  | failed _ => rfl
  | opened =>
    rw [tracked_trackOwn]

theorem Drift.cache {phases : ConversationState → Prop} {c d : Conversation P}
    (h : Drift phases c d) : d.queues.resolvedProposals = c.queues.resolvedProposals := by
  cases h with
  | still h => exact congrArg (fun f => f.1.tracked.2.2) h
  | enter h _ => exact congrArg (fun f => f.tracked.2.2) h
  | propose request v => exact (initiateProposal_effect request v c).cache
  | unschedule => rfl

theorem finish_cache {id : ProposalId} {c d : Conversation P} (h : ReflTransGen (Finish id) c d) :
    d.queues.resolvedProposals = c.queues.resolvedProposals := by
  induction h with
  | refl => rfl
  | tail _ hstep ih =>
    rw [← ih]
    cases hstep with
    | drift h => exact h.cache
    | lift => rfl
    | free => rfl

theorem IncomingEffect.cache {c : Conversation P} {proposal : Proposal} {f : InFlight P}
    (h : IncomingEffect c proposal f) : f.tracked.2.2 = c.queues.resolvedProposals := by
  cases h with
  | blocked _ => rfl
  | refused _ _ => rfl
  | accepted _ _ _ => exact cache_mirrored c proposal
  | scheduled _ _ _ => exact cache_mirrored c proposal

theorem LeaveEffect.cache {c : Conversation P} {f : InFlight P} (h : LeaveEffect c f) :
    f.tracked.2.2 = c.queues.resolvedProposals := by
  have htracked : c.leaving.tracked.2.2 = c.queues.resolvedProposals :=
    congrArg Prod.snd (tracked_leaving c)
  cases h with
  | pending _ => rfl
  | unsigned _ _ => exact htracked
  | submitted _ _ _ => exact htracked

/-- What the queues remember after a move: a first outcome that has a request to apply joins. -/
def remembering (c : Conversation P) : Move P → BoundedSet ProposalId
  | .outcome event =>
    if (c.resolved event.fields.1).isSome then
      (c.queues.resolvedProposals.insert event.fields.1).2
    else c.queues.resolvedProposals
  | _ => c.queues.resolvedProposals

/-- **The memory of outcomes.** -/
theorem Moves.cache {c d : Conversation P} {m : Move P} (h : Moves c m d) :
    d.queues.resolvedProposals = c.remembering m := by
  cases h with
  | incomingProposal proposal => exact (onIncomingProposal_effect proposal c).cache
  | incomingVote v => exact congrArg (fun f => f.tracked.2.2) (forwardIncomingVote_effect v c)
  | vote id choice =>
    rcases vote_cases id choice c with h | h
    · exact congrArg (fun f => f.tracked.2.2) h
    · exact congrArg (fun f => f.tracked.2.2) (h.trans (castNow_effect id choice c))
  | leave => exact (initiateSelfLeave_effect c).cache
  | @autoVote id entry hentry hdue =>
    exact congrArg (fun f => f.tracked.2.2) (castNow_effect id entry.vote c)
  | @timeout id _ hentry hdue => exact congrArg (fun f => f.tracked.2.2) (expire_effect id c)
  | @outcome event rest hnext =>
    let d : Conversation P := { c with outcomes := rest }
    have hd : d.resolved event.fields.1 = c.resolved event.fields.1 := rfl
    unfold remembering
    dsimp only
    cases hresolved : c.resolved event.fields.1 with
    | none => exact congrArg (fun f => f.tracked.2.2) (inFlight_unresolved (hd.trans hresolved))
    | some request =>
      rw [finish_cache (finish_resolved (hd.trans hresolved))]
      exact congrArg (fun f => f.tracked.2.2) (inFlight_handed event request d)
  | publish event => rfl
  | driver h => exact h.cache

end Conversation

end DeMls
