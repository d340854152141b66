import DeMls.Conversation.Traffic
import DeMls.Ideal

/-!
# The seed of an election

A list is ordered by a hash of the epoch and the round its proposal names, over the members settled
at that epoch. `validateElectionList_iff` says which list a node endorses for a seed;
`election_seed_iff` says that it asks for no particular seed, when it votes and when it installs.
-/

namespace DeMls

open Program

variable {P : Platform}

namespace Conversation

/-! ## What a node endorses -/

/-- The seed is the one this node would propose with: its epoch and its next round. -/
def CurrentSeed (c : Conversation P) (election : StewardElectionProposal) : Prop :=
  election.electionEpoch = c.epoch ∧ election.retryRound = c.stewardList.nextElectionRound

/-- The list this node derives from the seed. -/
def derivedStewards (c : Conversation P) (epoch round : Nat) : List Bytes :=
  electedFrom P c.stewardList.config epoch round c.stewardList.conversationId (c.settledPool epoch)

/-- The proposal holds the list this node derives from its seed. -/
def Derives (c : Conversation P) (election : StewardElectionProposal) : Prop :=
  c.settledPool election.electionEpoch ≠ [] ∧
    election.proposedStewards = c.derivedStewards election.electionEpoch election.retryRound

instance (c : Conversation P) (election : StewardElectionProposal) :
    Decidable (c.Derives election) :=
  inferInstanceAs (Decidable (_ ∧ _))

/-- **Endorsement.** One list for an epoch, a round and a settled pool. -/
theorem validateElectionList_iff {c : Conversation P} {election : StewardElectionProposal} :
    c.validateElectionList election = .ok true ↔ c.Derives election :=
  StewardList.validate_iff

/-! ## The automatic verdict -/

/-- The node has to judge this election by itself: the proposal is open to several votes, the
service took it, and no emergency stands in its way. -/
structure Judges (c : Conversation P) (proposal : Proposal) (election : StewardElectionProposal) :
    Prop where
  decodes : requestOf P proposal = some (.stewardElection election)
  unblocked : c.queues.partialFreezeBlocks (kindOf P proposal) = false
  accepted : (c.admission proposal).1 = .ok ()
  open_to_votes : 1 < proposal.expectedVotersCount

/-- Its vote is armed, and it is a yes. -/
def VotesYes (c : Conversation P) (proposal : Proposal) : Prop :=
  ∃ d, onIncomingProposal proposal c = .ok () d ∧
    d.timing.pendingAutoVotes.find? proposal.proposalId = some ⟨c.now, true⟩

/-- An accepted election is checked once it is mirrored, and the check is the vote. -/
theorem onIncomingProposal_judges {c : Conversation P} {proposal : Proposal}
    {election : StewardElectionProposal} (h : c.Judges proposal election) :
    match c.validateElectionList election with
    | .error e => ∃ d, onIncomingProposal proposal c = .error e d
    | .ok verdict => ∃ d, onIncomingProposal proposal c = .ok () d ∧
        d.timing.pendingAutoVotes.find? proposal.proposalId = some ⟨c.now, verdict⟩ := by
  rcases hcall : c.admission proposal with ⟨r, st, outs⟩
  have haccepted := h.accepted
  rw [hcall] at haccepted
  dsimp only at haccepted
  subst haccepted
  let d := c.admitted proposal st outs
  have hcheck : d.validateElectionList election = c.validateElectionList election :=
    validateElectionList_admitted c proposal st outs election
  have hschedule : (scheduleVote proposal.proposalId (some (.stewardElection election)) :
      ConvM P Unit) d = (do
        let verdict ← ofResult (d.validateElectionList election)
        registerAutoVote proposal.proposalId 0 verdict : ConvM P Unit) d := rfl
  rw [onIncomingProposal_accepted h.unblocked hcall]
  unfold enlist
  rw [bind_run _ (mirrorRequest_run c proposal st outs), if_pos h.open_to_votes, h.decodes]
  cases hverdict : c.validateElectionList election with
  | error e =>
    refine ⟨d, (bind_error _ _ _ _ _).mpr (.inl ?_)⟩
    rw [hschedule, hcheck, hverdict]
    rfl
  | ok verdict =>
    rw [hverdict] at hcheck
    have hvote : (scheduleVote proposal.proposalId (some (.stewardElection election)) :
        ConvM P Unit) d = (registerAutoVote proposal.proposalId 0 verdict : ConvM P Unit) d := by
      rw [hschedule, hcheck]
      rfl
    refine ⟨_, bind_run _ hvote, ?_⟩
    show ((c.timing.pendingAutoVotes.insert proposal.proposalId ⟨c.now + 0, verdict⟩).find?
      proposal.proposalId) = _
    rw [OrderedMap.find?_insert, if_pos rfl]
    rfl

/-- **The verdict** is a yes exactly on the list the node derives from the seed. -/
theorem votesYes_iff {c : Conversation P} {proposal : Proposal} {election : StewardElectionProposal}
    (h : c.Judges proposal election) : c.VotesYes proposal ↔ c.Derives election := by
  have hrun := onIncomingProposal_judges h
  rw [← validateElectionList_iff]
  unfold VotesYes
  cases hverdict : c.validateElectionList election with
  | error e =>
    rw [hverdict] at hrun
    obtain ⟨d, hrun⟩ := hrun
    rw [hrun]
    simp
  | ok verdict =>
    rw [hverdict] at hrun
    obtain ⟨d, hrun, hvote⟩ := hrun
    rw [hrun]
    simp [hvote]

/-! ## The installed list -/

/-- The list of an accepted election. -/
def installedBy (c : Conversation P) (election : StewardElectionProposal) : StewardList :=
  ⟨election.proposedStewards, c.stewardList.config, election.electionEpoch, election.retryRound⟩

/-- An accepted election installs its list when the node derives the same, and nothing else. -/
theorem list_handleElectionAccepted {c : Conversation P} (hconfig : c.stewardList.config.Valid)
    (election : StewardElectionProposal) :
    (after (handleElectionAccepted election) c).stewardList.list =
      if c.Derives election then some (c.installedBy election) else c.stewardList.list := by
  unfold handleElectionAccepted
  rw [after_bind_ok _ (get_apply c)]
  cases hvalid : c.validateElectionList election with
  | error e =>
    rw [if_neg fun h => by simp [validateElectionList_iff.mpr h] at hvalid]
    rfl
  | ok valid =>
    cases valid with
    | false =>
      rw [if_neg fun h => by simp [validateElectionList_iff.mpr h] at hvalid]
      rfl
    | true =>
      have hderives := validateElectionList_iff.mp hvalid
      have hgenerate : StewardList.generate P election.electionEpoch c.stewardList.conversationId
          election.proposedStewards election.proposedStewards.length c.stewardList.config
          election.retryRound = .ok (c.installedBy election) := by
        unfold installedBy
        rw [hderives.2]
        exact StewardList.generate_electedFrom hconfig hderives.1
      have hinstall : c.stewardList.installList P election.electionEpoch election.proposedStewards
          election.proposedStewards.length election.retryRound =
            .ok { c.stewardList with list := some (c.installedBy election) } := by
        unfold StewardListService.installList
        rw [hgenerate]
      have hok : ∀ {α : Type} (a : α), (ofResult (.ok a) : ConvM P α) c = .ok a c := fun _ => rfl
      rw [if_pos hderives, after_bind_ok _ (hok true), Bool.not_true, if_neg Bool.false_ne_true,
        hinstall, after_bind_ok _ (hok _), after_bind_ok _ (modify_apply _ _)]
      exact congrArg Prod.snd (frame_electionInstalled
        { c with stewardList := { c.stewardList with list := some (c.installedBy election) } })

/-- The outcome accepts this election, for the first time. -/
structure Elects (c : Conversation P) (event : ConsensusEvent)
    (election : StewardElectionProposal) : Prop where
  resolved : c.resolved event.fields.1 = some (.stewardElection election)
  approved : event.fields.2.1 = true

/-- **The outcome of an election** installs its list when the node derives the same. -/
theorem list_handleConsensusOutcome {c : Conversation P} (hconfig : c.stewardList.config.Valid)
    {event : ConsensusEvent} {election : StewardElectionProposal} (h : c.Elects event election) :
    (after (handleConsensusOutcome event) c).stewardList.list =
      if c.Derives election then some (c.installedBy election) else c.stewardList.list := by
  -- The list is checked after the outcome is booked and the early candidates are replayed.
  let d : Conversation P := after replayEarlyCandidates (c.handed event (.stewardElection election))
  have happlied : c.applied event (.stewardElection election) =
      (.electionAccepted election, (c.queues.markConsensusOutcomeApplied
        event.fields.1).removeVotingProposal event.fields.1) := by
    unfold applied
    rw [h.approved]
    rfl
  have hfollow : after (handleConsensusOutcome event) c =
      after (do
        followUp (.electionAccepted election)
        (if emergencyScoreOps (.stewardElection election) event.fields.2.1 ≠ [] then
          handleEmergencyScored event.fields.1
            (emergencyScoreOps (.stewardElection election) event.fields.2.1) else pure ())
        onConsensus fun st => ((P.consensus.removeSession st event.fields.1).1,
          (P.consensus.removeSession st event.fields.1).2, []) : ConvM P Unit) d := by
    unfold after
    rw [handleConsensusOutcome_resolved h.resolved, happlied]
    rfl
  have hledger : d.queues.memberJoinEpoch = c.queues.memberJoinEpoch := by
    have hreplay := frame_replayEarlyCandidates (c.handed event (.stewardElection election))
    have hhanded : (c.handed event (.stewardElection election)).queues.memberJoinEpoch =
        c.queues.memberJoinEpoch := by
      unfold handed
      rw [happlied]
      rfl
    exact (congrArg (fun s => s.1.ledger.2.2) hreplay).trans hhanded
  have hderives : d.Derives election ↔ c.Derives election := by
    rw [← validateElectionList_iff, ← validateElectionList_iff]
    rw [validateElectionList_congr election hledger rfl rfl]
  have hrest := frame_afterFollowUp (P := P) event.fields.1
    (emergencyScoreOps (.stewardElection election) event.fields.2.1)
  have hlist := after_bind_of_frame (x := followUp (.electionAccepted election))
    (fun _ => hrest) d
  rw [hfollow]
  refine (congrArg Prod.snd hlist).trans ?_
  refine (list_handleElectionAccepted hconfig election (c := d)).trans ?_
  rw [if_congr hderives rfl rfl]
  rfl

/-- Handling the outcome changes the installed list. -/
def Installs (c : Conversation P) (event : ConsensusEvent) : Prop :=
  (after (handleConsensusOutcome event) c).stewardList.list ≠ c.stewardList.list

instance (c : Conversation P) (event : ConsensusEvent) : Decidable (c.Installs event) :=
  inferInstanceAs (Decidable (_ ≠ _))

/-- The installed list serves the epoch it was installed in. -/
def ServesNow (c : Conversation P) (event : ConsensusEvent) : Prop :=
  (after (handleConsensusOutcome event) c).stewardList.isExhausted c.epoch = false

instance (c : Conversation P) (event : ConsensusEvent) : Decidable (c.ServesNow event) :=
  inferInstanceAs (Decidable (_ = _))

/-- A list derived for this epoch serves it. -/
theorem servesNow_of_current {c : Conversation P} (hconfig : c.stewardList.config.Valid)
    {event : ConsensusEvent} {election : StewardElectionProposal} (h : c.Elects event election)
    (hderives : c.Derives election) (hcurrent : c.CurrentSeed election) : c.ServesNow event := by
  have hlength : 1 ≤ election.proposedStewards.length := by
    rw [hderives.2, derivedStewards, length_electedFrom]
    exact (hconfig.legal (List.length_pos_iff.mpr hderives.1)).1
  unfold ServesNow StewardListService.isExhausted
  rw [list_handleConsensusOutcome hconfig h, if_pos hderives]
  have hspan : ¬ (c.epoch < election.electionEpoch ∨
      election.proposedStewards.length ≤ c.epoch - election.electionEpoch) := by
    rw [hcurrent.1]
    omega
  exact decide_eq_false hspan

/-- **Seeds.** A node endorses one list for each seed and settled pool. But its own vote is bound to
its own seed, and so is what it installs, only for proposals that hold no list it derives: any
other seed a proposer picks gets the same yes. -/
theorem election_seed_iff {c : Conversation P} (hconfig : c.stewardList.config.Valid)
    (election : StewardElectionProposal) :
    (c.validateElectionList election = .ok true ↔ c.settledPool election.electionEpoch ≠ [] ∧
      election.proposedStewards = electedFrom P c.stewardList.config election.electionEpoch
        election.retryRound c.stewardList.conversationId (c.settledPool election.electionEpoch)) ∧
    (∀ proposal, c.Judges proposal election →
      ((c.VotesYes proposal → c.CurrentSeed election) ↔
        c.CurrentSeed election ∨ ¬ c.Derives election)) ∧
    ∀ event, c.Elects event election →
      ((c.Installs event → c.CurrentSeed election ∧ c.ServesNow event) ↔
        c.CurrentSeed election ∨ ¬ c.Derives election ∨
          c.stewardList.list = some (c.installedBy election)) := by
  refine ⟨validateElectionList_iff, fun proposal hjudges => ?_, fun event helects => ?_⟩
  · rw [votesYes_iff hjudges]
    exact ⟨fun h => (em (c.Derives election)).imp_left h,
      fun h hderives => h.resolve_right (not_not.mpr hderives)⟩
  · have hlist := list_handleConsensusOutcome hconfig helects
    constructor
    · intro h
      by_cases hderives : c.Derives election
      · by_cases hsame : c.stewardList.list = some (c.installedBy election)
        · exact .inr (.inr hsame)
        · have hinstalls : c.Installs event := by
            unfold Installs
            rw [hlist, if_pos hderives]
            exact Ne.symm hsame
          exact .inl (h hinstalls).1
      · exact .inr (.inl hderives)
    · intro h hinstalls
      unfold Installs at hinstalls
      rw [hlist] at hinstalls
      by_cases hderives : c.Derives election
      · rw [if_pos hderives] at hinstalls
        rcases h with hcurrent | hother | hsame
        · exact ⟨hcurrent, servesNow_of_current hconfig helects hderives hcurrent⟩
        · exact absurd hderives hother
        · exact absurd hsame.symm hinstalls
      · rw [if_neg hderives] at hinstalls
        exact absurd rfl hinstalls

end Conversation

namespace Ideal

/-- A hash that the seed goes into. -/
def mixing (b : Bytes) : Bytes := [b.foldl (fun h x => 5 * (h ^^^ x) + 1) 7]

/-- The plain platform under that hash. -/
def hashed : Platform := { platform with sha256 := mixing }

/-- Three members at epoch 5 with a list of epoch 4. -/
def electing : Conversation hashed :=
  { conversationOf 0 5 [[10], [11], [12]] (stewardsOf [0, 1] 4) [] none with consensus := [] }

/-- The list of a seed. -/
def electionOf (epoch round : Nat) : StewardElectionProposal :=
  ⟨electing.derivedStewards epoch round, epoch, round⟩

/-- The election is proposed. -/
def proposed (epoch round : Nat) : Conversation hashed :=
  after (Conversation.onIncomingProposal (proposalOf 1 (.stewardElection (electionOf epoch round))))
    electing

end Ideal

/-- The member at leaf 2 is not on the list of the current seed. Under round 1 of epoch 1 it comes
first: the node votes for that list, and installs it when it is spent already. -/
theorem election_seed_ground :
    memberIdOf 2 ∉ Ideal.electing.derivedStewards 5 0 ∧
    (Ideal.electionOf 1 1).proposedStewards.head? = some (memberIdOf 2) ∧
    Ideal.electing.Judges (Ideal.proposalOf 1 (.stewardElection (Ideal.electionOf 1 1)))
      (Ideal.electionOf 1 1) ∧
    Ideal.electing.VotesYes (Ideal.proposalOf 1 (.stewardElection (Ideal.electionOf 1 1))) ∧
    (Ideal.proposed 1 1).Elects (.consensusReached 1 true 0) (Ideal.electionOf 1 1) ∧
    (Ideal.proposed 1 1).Installs (.consensusReached 1 true 0) ∧
    ¬ (Ideal.proposed 1 1).ServesNow (.consensusReached 1 true 0) ∧
    ¬ Ideal.electing.CurrentSeed (Ideal.electionOf 1 1) := by
  refine ⟨by decide, by decide, ⟨by decide, by decide, rfl, by decide⟩, ⟨_, rfl, by decide⟩,
    ⟨by decide, rfl⟩, by decide, by decide, ?_⟩
  rintro ⟨hepoch, _⟩
  exact absurd hepoch (by decide)

/-- The law, where the current seed is proposed. -/
theorem current_seed_endorsed :
    (Ideal.electing.VotesYes (Ideal.proposalOf 1 (.stewardElection (Ideal.electionOf 5 0))) →
      Ideal.electing.CurrentSeed (Ideal.electionOf 5 0)) ∧
    (Ideal.proposed 5 0).Installs (.consensusReached 1 true 0) ∧
    (Ideal.proposed 5 0).CurrentSeed (Ideal.electionOf 5 0) ∧
    (Ideal.proposed 5 0).ServesNow (.consensusReached 1 true 0) := by
  have hjudges : Ideal.electing.Judges (Ideal.proposalOf 1 (.stewardElection
      (Ideal.electionOf 5 0))) (Ideal.electionOf 5 0) := ⟨by decide, by decide, rfl, by decide⟩
  have helects : (Ideal.proposed 5 0).Elects (.consensusReached 1 true 0)
      (Ideal.electionOf 5 0) := ⟨by decide, rfl⟩
  have hinstalls : (Ideal.proposed 5 0).Installs (.consensusReached 1 true 0) := by decide
  have hproposed := Conversation.election_seed_iff (c := Ideal.electing) (by decide)
    (Ideal.electionOf 5 0)
  have haccepted := Conversation.election_seed_iff (c := Ideal.proposed 5 0) (by decide)
    (Ideal.electionOf 5 0)
  have hsound := (haccepted.2.2 _ helects).mpr (.inl ⟨rfl, rfl⟩) hinstalls
  exact ⟨(hproposed.2.1 _ hjudges).mpr (.inl ⟨rfl, rfl⟩), hinstalls, hsound.1, hsound.2⟩

end DeMls
