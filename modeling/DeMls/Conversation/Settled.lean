import DeMls.Conversation.PartialFreeze
import DeMls.Lib.Runs

/-!
# Settled proposals

Once its first outcome is applied, a proposal is to be gone: no entry, no emergency, no deadline,
for as long as the queues remember that it is resolved. Its session is freed, so the service takes
the same proposal again. `resolution_final_iff` says which moves of a run keep resolution final.
-/

namespace DeMls

open Program Runs Relation

variable {P : Platform} {used : P.consensus.State → ProposalId → Prop}

namespace Conversation

/-! ## Unique ids -/

/-- Ids are unique: `used` knows the ids of all sessions a service had so far, and the service hands
out none of them again. -/
structure UniqueIds (S : ConsensusService) (used : S.State → ProposalId → Prop) : Prop where
  session : ∀ {st : S.State} {id : ProposalId} {proposal : Proposal},
    S.getProposal st id = .ok proposal → used st id
  fresh : ∀ {st st' : S.State} {request : CreateProposalRequest} {now : Nat} {proposal : Proposal}
    {outs : List ConsensusEvent}, S.createProposalWithConfig st request now =
      (.ok proposal, st', outs) → ¬ used st proposal.proposalId
  kept : ∀ {st st' : S.State} {id : ProposalId}, ServiceCall S st st' → used st id → used st' id

theorem UniqueIds.calls {S : ConsensusService} {used : S.State → ProposalId → Prop}
    (h : UniqueIds S used) {st st' : S.State} {id : ProposalId} (hcalls : Calls S st st')
    (hid : used st id) : used st' id := by
  induction hcalls with
  | refl => exact hid
  | tail _ hcall ih => exact h.kept hcall ih

/-! ## Gone -/

/-- No entry and no deadline. -/
structure InFlight.Idle (f : InFlight P) (id : ProposalId) : Prop where
  voting : ¬ f.tracked.1.contains id = true
  autoVote : ¬ f.autoVotes.contains id = true
  timeout : ¬ f.timeouts.contains id = true

/-- No entry, no deadline, no emergency. -/
structure InFlight.Gone (f : InFlight P) (id : ProposalId) : Prop extends f.Idle id where
  emergency : id ∉ f.tracked.2.1

/-- Every proposal remembered as resolved is gone. -/
def InFlight.Final (f : InFlight P) : Prop :=
  ∀ id, f.tracked.2.2.contains id = true → f.Gone id

/-! ## The conditions -/

/-- A received proposal that is resolved is turned away, or leaves no trace: it does not decode, and
it does not ask for votes. -/
def IncomingFinal (c : Conversation P) (proposal : Proposal) : Prop :=
  c.queues.isConsensusOutcomeApplied proposal.proposalId = true →
    c.queues.partialFreezeBlocks (kindOf P proposal) = false → (c.admission proposal).1 = .ok () →
      requestOf P proposal = none ∧ c.schedules proposal = false

/-- A leave whose id is resolved still waits for its commit. -/
def LeaveFinal (c : Conversation P) : Prop :=
  c.queues.isConsensusOutcomeApplied (selfLeaveProposalId P c.selfMemberId) = true →
    c.queues.isPendingSelfLeave P c.selfMemberId = true

/-- The outcome of an active emergency comes with evidence, and its scores are taken. -/
def OutcomeFinal (c : Conversation P) (event : ConsensusEvent) : Prop :=
  event.fields.1 ∈ c.queues.activeEmergencyIds → ∀ request,
    c.resolved event.fields.1 = some request →
      (∃ ev, request.payload = some (.emergencyCriteria (some ev))) ∧
        c.ScoresTaken (emergencyScoreOps request event.fields.2.1)

/-- The move brings no resolved proposal back, and ends what it resolves. -/
def KeepsFinal (c : Conversation P) : Move P → Prop
  | .incomingProposal proposal => c.IncomingFinal proposal
  | .leave => c.LeaveFinal
  | .outcome event => c.OutcomeFinal event
  | _ => True

/-! ## Programs that bring nothing back -/

/-- What a program may do to a proposal whose id is used. -/
structure Apart (id : ProposalId) (f g : InFlight P) : Prop where
  idle : f.Idle id → g.Idle id
  emergency : id ∉ f.tracked.2.1 → id ∉ g.tracked.2.1

theorem Apart.gone {id : ProposalId} {f g : InFlight P} (h : Apart id f g) (hf : f.Gone id) :
    g.Gone id :=
  ⟨h.idle hf.toIdle, h.emergency hf.emergency⟩

theorem Apart.refl (id : ProposalId) (f : InFlight P) : Apart id f f := ⟨fun h => h, fun h => h⟩

theorem Apart.trans {id : ProposalId} {f g k : InFlight P} (h : Apart id f g) (h' : Apart id g k) :
    Apart id f k :=
  ⟨fun hf => h'.idle (h.idle hf), fun hf => h'.emergency (h.emergency hf)⟩

/-- A proposal of our own has a new id. -/
theorem OpeningEffect.apart (hids : UniqueIds P.consensus used) {c : Conversation P}
    {request : ConversationUpdateRequest} {f : InFlight P} (h : OpeningEffect c request f)
    {id : ProposalId} (hid : used c.consensus id) : Apart id c.inFlight f := by
  cases h with
  | refused => exact .refl id _
  | failed _ => exact ⟨fun h => ⟨h.voting, h.autoVote, h.timeout⟩, fun h => h⟩
  | @opened proposal st st' outs more autoVotes hgate hopening hconsensus hvotes =>
    have hne : id ≠ proposal.proposalId := by
      rintro rfl
      exact hids.fresh hopening hid
    have htracked := tracked_trackOwn P.mls proposal.proposalId request c.queues
    refine ⟨fun h => ⟨?_, ?_, ?_⟩, fun h => ?_⟩
    · rw [htracked, contains_trackVotingProposal]
      rintro (hj | hj)
      · exact hne hj
      · exact h.voting hj
    · rcases hvotes with rfl | ⟨entry, rfl⟩
      · exact h.autoVote
      · rw [OrderedMap.contains_insert_iff]
        rintro (hj | hj)
        · exact hne hj
        · exact h.autoVote hj
    · rw [OrderedMap.contains_insert_iff]
      rintro (hj | hj)
      · exact hne hj
      · exact h.timeout hj
    · rw [htracked]
      dsimp only
      split_ifs
      · rw [Finset.mem_insert]
        rintro (hj | hj)
        · exact hne hj
        · exact h hj
      · exact h

theorem Drift.apart (hids : UniqueIds P.consensus used) {phases : ConversationState → Prop}
    {c d : Conversation P} (h : Drift phases c d) {id : ProposalId} (hid : used c.consensus id) :
    Apart id c.inFlight d.inFlight := by
  cases h with
  | still h =>
    rw [show d.inFlight = c.inFlight from congrArg Prod.fst h]
    exact .refl id _
  | enter h _ =>
    rw [h]
    exact .refl id _
  | propose request v => exact (initiateProposal_effect request v c).apart hids hid
  | unschedule => exact ⟨fun h => ⟨h.voting, Bool.false_ne_true, h.timeout⟩, fun h => h⟩

theorem Finish.apart (hids : UniqueIds P.consensus used) {i : ProposalId} {c d : Conversation P}
    (h : Finish i c d) {id : ProposalId} (hid : used c.consensus id) :
    Apart id c.inFlight d.inFlight := by
  cases h with
  | drift h => exact h.apart hids hid
  | lift =>
    exact ⟨fun h => ⟨h.voting, h.autoVote, h.timeout⟩,
      fun h hmem => h (Finset.mem_of_mem_erase hmem)⟩
  | free => exact ⟨fun h => ⟨h.voting, h.autoVote, h.timeout⟩, fun h => h⟩

theorem finish_apart (hids : UniqueIds P.consensus used) {i : ProposalId} {c d : Conversation P}
    (h : ReflTransGen (Finish i) c d) {id : ProposalId} (hid : used c.consensus id) :
    Apart id c.inFlight d.inFlight ∧ used d.consensus id := by
  induction h with
  | refl => exact ⟨.refl id _, hid⟩
  | tail _ hstep ih =>
    obtain ⟨hpath, hused⟩ := ih
    exact ⟨hpath.trans (hstep.apart hids hused), hids.calls hstep.calls hused⟩

/-! ## The three moves that can -/

/-- Over the same memory, a move that keeps apart from what is resolved keeps it gone. -/
theorem InFlight.Final.of_apart {f g : InFlight P} (hf : f.Final)
    (h : ∀ id, f.tracked.2.2.contains id = true → Apart id f g)
    (hcache : g.tracked.2.2 = f.tracked.2.2) : g.Final := by
  intro id hid
  rw [hcache] at hid
  exact (h id hid).gone (hf id hid)

theorem emergency_mirrored {c : Conversation P} {proposal : Proposal} {id : ProposalId}
    (hid : id ≠ proposal.proposalId) (h : id ∉ c.queues.activeEmergencyIds) :
    id ∉ (c.mirrored proposal).tracked.2.1 := by
  unfold mirrored
  cases requestOf P proposal with
  | none => exact h
  | some request =>
    dsimp only
    rw [tracked_mirrorProposal, tracked_trackOwn]
    dsimp only
    split_ifs
    · rw [Finset.mem_insert]
      exact fun hmem => hmem.elim hid h
    · exact h

/-- Mirroring another proposal, or one that does not decode. -/
theorem apart_mirrored {c : Conversation P} {proposal : Proposal} {id : ProposalId} {g : InFlight P}
    (hid : id ≠ proposal.proposalId ∨ requestOf P proposal = none)
    (htracked : g.tracked = (c.mirrored proposal).tracked)
    (hvotes : ¬ c.timing.pendingAutoVotes.contains id = true → ¬ g.autoVotes.contains id = true)
    (htimeouts : ¬ c.timing.pendingConsensusTimeouts.contains id = true →
      ¬ g.timeouts.contains id = true) : Apart id c.inFlight g := by
  refine ⟨fun h => ⟨?_, hvotes h.autoVote, htimeouts h.timeout⟩, fun h => ?_⟩
  · rw [htracked, contains_mirrored]
    rintro (⟨hj, hsome⟩ | hj)
    · rcases hid with hid | hid
      · exact hid hj
      · rw [hid] at hsome
        cases hsome
    · exact h.voting hj
  · rw [htracked]
    rcases hid with hid | hid
    · exact emergency_mirrored hid h
    · unfold mirrored
      rw [hid]
      exact h

/-- **A received proposal.** -/
theorem incoming_final_iff {c : Conversation P} {proposal : Proposal} {f : InFlight P}
    (h : IncomingEffect c proposal f) (hc : c.inFlight.Final) :
    f.Final ↔ c.IncomingFinal proposal := by
  unfold IncomingFinal
  cases h with
  | blocked hgate =>
    rw [hgate]
    exact ⟨fun _ _ h => absurd h (by simp), fun _ => hc⟩
  | refused hgate hcall =>
    rw [hcall]
    refine ⟨fun _ _ _ h => absurd h (by simp), fun _ => ?_⟩
    exact hc.of_apart (fun id _ => ⟨fun h => ⟨h.voting, h.autoVote, h.timeout⟩, fun h => h⟩) rfl
  | accepted hgate hcall hnone =>
    rw [hgate, hcall, hnone]
    constructor
    · intro hf hcached _ _
      have hgone := (hf proposal.proposalId (by rwa [cache_mirrored])).voting
      rw [contains_mirrored] at hgone
      refine ⟨?_, rfl⟩
      cases hrequest : requestOf P proposal with
      | none => rfl
      | some request => exact absurd (.inl ⟨rfl, by rw [hrequest]; rfl⟩) hgone
    · intro hcond
      refine hc.of_apart (fun id hid => ?_) (cache_mirrored c proposal)
      refine apart_mirrored ?_ rfl (fun h => h) fun h => h
      by_cases heq : id = proposal.proposalId
      · rw [heq] at hid
        exact .inr (hcond hid rfl rfl).1
      · exact .inl heq
  | scheduled hgate hcall htimed =>
    rw [hgate, hcall, htimed]
    constructor
    · intro hf hcached _ _
      have hgone := (hf proposal.proposalId (by rwa [cache_mirrored])).timeout
      exact absurd (OrderedMap.contains_insert_iff.mpr (.inl rfl)) hgone
    · intro hcond
      refine hc.of_apart (fun id hid => ?_) (cache_mirrored c proposal)
      have hne : id ≠ proposal.proposalId := by
        rintro rfl
        exact absurd (hcond hid rfl rfl).2 (by simp)
      have hinsert : ∀ {ν : Type} {m : OrderedMap ProposalId ν} {v : ν}, ¬ m.contains id = true →
          ¬ (m.insert proposal.proposalId v).contains id = true := by
        intro ν m v hm hmem
        rcases OrderedMap.contains_insert_iff.mp hmem with heq | hmem
        · exact hne heq
        · exact hm hmem
      exact apart_mirrored (.inl hne) rfl hinsert hinsert

/-- **A leave.** -/
theorem leave_final_iff {c : Conversation P} {f : InFlight P} (h : LeaveEffect c f)
    (hc : c.inFlight.Final) : f.Final ↔ c.LeaveFinal := by
  have hvoting : ∀ j, c.leaving.tracked.1.contains j = true ↔
      j = selfLeaveProposalId P c.selfMemberId ∨ c.queues.votingProposals.contains j = true :=
    contains_trackVotingProposal _ _ _ _
  -- What a leave that is not pending leaves behind, whatever the service answers.
  have hiff : ∀ g : InFlight P, g.tracked = c.leaving.tracked →
      g.autoVotes = c.timing.pendingAutoVotes → g.timeouts = c.timing.pendingConsensusTimeouts →
      (g.Final ↔
        ¬ c.queues.isConsensusOutcomeApplied (selfLeaveProposalId P c.selfMemberId) = true) := by
    intro g htrack hvotes htimeouts
    have hcache : g.tracked.2.2 = c.inFlight.tracked.2.2 := by
      rw [htrack, tracked_leaving]
      rfl
    constructor
    · intro hg hcached
      have hgone := (hg (selfLeaveProposalId P c.selfMemberId) (by rwa [hcache])).voting
      rw [htrack, hvoting] at hgone
      exact hgone (.inl rfl)
    · intro hcond
      refine hc.of_apart (fun id hid => ⟨fun h => ⟨?_, ?_, ?_⟩, fun h => ?_⟩) hcache
      · rw [htrack, hvoting]
        rintro (rfl | hj)
        · exact hcond hid
        · exact h.voting hj
      · rw [hvotes]
        exact h.autoVote
      · rw [htimeouts]
        exact h.timeout
      · rw [htrack, tracked_leaving]
        exact h
  unfold LeaveFinal
  cases h with
  | pending h =>
    rw [h]
    exact iff_of_true hc fun _ => rfl
  | unsigned h _ =>
    rw [h]
    refine Iff.trans (hiff _ rfl rfl rfl) ?_
    simp
  | submitted h _ _ =>
    rw [h]
    refine Iff.trans (hiff _ rfl rfl rfl) ?_
    simp

/-- An outcome with a request to apply has a session. -/
theorem used_of_resolved (hids : UniqueIds P.consensus used) {c : Conversation P} {id : ProposalId}
    {request : ConversationUpdateRequest} (h : c.resolved id = some request) :
    used c.consensus id := by
  unfold resolved at h
  split_ifs at h
  obtain ⟨proposal, hproposal, _⟩ := Option.bind_eq_some_iff.mp h
  cases hget : P.consensus.getProposal c.consensus id with
  | ok p => exact hids.session hget
  | error e =>
    rw [hget] at hproposal
    cases hproposal

/-- Dropping deadlines and entries keeps apart. -/
theorem apart_handed (event : ConsensusEvent) (request : ConversationUpdateRequest)
    (c : Conversation P) (id : ProposalId) (h : c.inFlight.Gone id) :
    (c.handed event request).inFlight.Gone id := by
  rw [inFlight_handed]
  exact ⟨⟨fun hj => h.voting (OrderedMap.contains_erase_iff.mp hj).2,
    fun hj => h.autoVote (OrderedMap.contains_erase_iff.mp hj).2,
    fun hj => h.timeout (OrderedMap.contains_erase_iff.mp hj).2⟩, h.emergency⟩

/-- Its own entry and deadlines are dropped. -/
theorem idle_handed (event : ConsensusEvent) (request : ConversationUpdateRequest)
    (c : Conversation P) : (c.handed event request).inFlight.Idle event.fields.1 := by
  rw [inFlight_handed]
  exact ⟨fun hj => (OrderedMap.contains_erase_iff.mp hj).1 rfl,
    fun hj => (OrderedMap.contains_erase_iff.mp hj).1 rfl,
    fun hj => (OrderedMap.contains_erase_iff.mp hj).1 rfl⟩

/-- **An outcome.** -/
theorem outcome_final_iff (hids : UniqueIds P.consensus used) {c : Conversation P}
    {event : ConsensusEvent} (hc : c.inFlight.Final)
    (hused : ∀ id, c.queues.isConsensusOutcomeApplied id = true → used c.consensus id)
    (hroom : 1 ≤ c.queues.resolvedProposals.capacity) :
    (after (handleConsensusOutcome event) c).inFlight.Final ↔ c.OutcomeFinal event := by
  unfold OutcomeFinal
  cases hresolved : c.resolved event.fields.1 with
  | none =>
    rw [inFlight_unresolved hresolved]
    refine iff_of_true ?_ fun _ _ h => absurd h (by simp)
    refine hc.of_apart (fun id _ => ⟨fun h => ⟨h.voting, ?_, ?_⟩, fun h => h⟩) rfl
    · exact fun hj => h.autoVote (OrderedMap.contains_erase_iff.mp hj).2
    · exact fun hj => h.timeout (OrderedMap.contains_erase_iff.mp hj).2
  | some request =>
    have hfirst := not_applied_of_resolved hresolved
    have hpath := finish_resolved hresolved
    have hown := used_of_resolved hids hresolved
    have hapart := fun id (hid : used c.consensus id) => (finish_apart hids hpath hid).1
    have hcache : (after (handleConsensusOutcome event) c).inFlight.tracked.2.2 =
        (c.queues.resolvedProposals.insert event.fields.1).2 := by
      refine (finish_cache hpath).trans ?_
      exact congrArg (fun f => f.tracked.2.2) (inFlight_handed event request c)
    have hlifted := fun hactive => emergency_lifted_iff (c := c) hfirst hactive
    constructor
    · intro hf hactive request' hrequest'
      cases hrequest'
      have hgone := (hf event.fields.1 ?_).emergency
      · obtain ⟨request', ev, hrequest', hpayload, hscores⟩ := (hlifted hactive).mp hgone
        rw [hresolved] at hrequest'
        cases hrequest'
        exact ⟨⟨ev, hpayload⟩, hscores⟩
      · rw [hcache]
        exact BoundedSet.contains_iff.mpr (BoundedSet.mem_insert_self hroom)
    · intro hcond id hid
      rw [hcache] at hid
      rcases BoundedSet.mem_of_mem_insert (BoundedSet.contains_iff.mp hid) with rfl | hid
      · refine ⟨(hapart _ hown).idle (idle_handed event request c), ?_⟩
        by_cases hactive : event.fields.1 ∈ c.queues.activeEmergencyIds
        · obtain ⟨⟨ev, hpayload⟩, hscores⟩ := hcond hactive request rfl
          exact (hlifted hactive).mpr ⟨request, ev, hresolved, hpayload, hscores⟩
        · refine (hapart _ hown).emergency ?_
          rw [inFlight_handed]
          exact hactive
      · have hid := BoundedSet.contains_iff.mpr hid
        exact (hapart id (hused id hid)).gone (apart_handed event request c id (hc id hid))

/-! ## Runs -/

/-- What a run keeps: the resolved proposals are gone, and the service has seen them. -/
structure Remembers (used : P.consensus.State → ProposalId → Prop) (c : Conversation P) : Prop where
  final : c.inFlight.Final
  used : ∀ id, c.queues.isConsensusOutcomeApplied id = true → used c.consensus id
  room : 1 ≤ c.queues.resolvedProposals.capacity

theorem remembers_of_fresh {c : Conversation P} (h : Fresh c) : Remembers used c := by
  obtain ⟨id, window, hqueues⟩ := h
  have hcache : c.queues.resolvedProposals = .new resolvedProposalCacheCapacity := by
    rw [hqueues]
    rfl
  have hnone : ∀ id, ¬ c.queues.isConsensusOutcomeApplied id = true := by
    intro id hid
    unfold ConversationQueues.isConsensusOutcomeApplied at hid
    rw [hcache] at hid
    exact absurd hid (by simp [BoundedSet.new, BoundedSet.contains])
  refine ⟨fun id hid => absurd hid (hnone id), fun id hid => absurd hid (hnone id), ?_⟩
  rw [hcache]
  decide

/-- **A move** keeps resolution final exactly when it brings nothing back and ends what it
resolves. -/
theorem Moves.final_iff (hids : UniqueIds P.consensus used) {c d : Conversation P} {m : Move P}
    (h : Moves c m d) (hc : Remembers used c) : d.inFlight.Final ↔ KeepsFinal c m := by
  have hcast : ∀ id choice, (after (do
      cancelAutoVote id
      broadcastVote id choice) c).inFlight.Final := by
    intro id choice
    rw [castNow_effect]
    refine hc.final.of_apart (fun _ _ => ⟨fun h => ⟨h.voting, ?_, h.timeout⟩, fun h => h⟩) rfl
    exact fun hj => h.autoVote (OrderedMap.contains_erase_iff.mp hj).2
  have hcall : ∀ (st : P.consensus.State) (outs : List ConsensusEvent), InFlight.Final
      { c.inFlight with consensus := st, outcomes := outs } := by
    intro st outs
    exact hc.final.of_apart (fun _ _ => ⟨fun h => ⟨h.voting, h.autoVote, h.timeout⟩, fun h => h⟩) rfl
  cases h with
  | incomingProposal proposal => exact incoming_final_iff (onIncomingProposal_effect proposal c) hc.final
  | incomingVote v =>
    rw [forwardIncomingVote_effect]
    exact iff_of_true (hcall _ _) trivial
  | vote id choice =>
    refine iff_of_true ?_ trivial
    rcases vote_cases id choice c with h | h
    · rw [h]
      exact hc.final
    · rw [h]
      exact hcast id choice
  | leave => exact leave_final_iff (initiateSelfLeave_effect c) hc.final
  | autoVote hentry hdue => exact iff_of_true (hcast _ _) trivial
  | timeout hentry hdue =>
    rw [expire_effect]
    refine iff_of_true ?_ trivial
    refine hc.final.of_apart (fun _ _ => ⟨fun h => ⟨h.voting, h.autoVote, ?_⟩, fun h => h⟩) rfl
    exact fun hj => h.timeout (OrderedMap.contains_erase_iff.mp hj).2
  | @outcome event rest hnext =>
    exact @outcome_final_iff _ _ hids { c with outcomes := rest } event (hcall _ _) hc.used hc.room
  | publish event => exact iff_of_true (hcall _ _) trivial
  | driver h =>
    refine iff_of_true ?_ trivial
    exact hc.final.of_apart (fun id hid => h.apart hids (hc.used id hid)) h.cache

/-- What the service has seen stays seen, and it has seen what a move resolves. -/
theorem Remembers.next (hids : UniqueIds P.consensus used) {c d : Conversation P} {m : Move P}
    (hc : Remembers used c) (h : Moves c m d) (hd : d.inFlight.Final) : Remembers used d := by
  have hcache := h.cache
  have hkept : ∀ id, used c.consensus id → used d.consensus id := fun id => hids.calls h.calls
  refine ⟨hd, fun id hid => ?_, ?_⟩
  · unfold ConversationQueues.isConsensusOutcomeApplied at hid
    rw [hcache] at hid
    unfold remembering at hid
    cases m with
    | outcome event =>
      dsimp only at hid
      split_ifs at hid with hresolved
      · obtain ⟨request, hrequest⟩ := Option.isSome_iff_exists.mp hresolved
        rcases BoundedSet.mem_of_mem_insert (BoundedSet.contains_iff.mp hid) with rfl | hold
        · exact hkept _ (used_of_resolved hids hrequest)
        · exact hkept id (hc.used id (BoundedSet.contains_iff.mpr hold))
      · exact hkept id (hc.used id hid)
    | _ => exact hkept id (hc.used id hid)
  · rw [hcache]
    unfold remembering
    cases m with
    | outcome event =>
      dsimp only
      split_ifs
      · rw [BoundedSet.capacity_insert]
        exact hc.room
      · exact hc.room
    | _ => exact hc.room

/-- **Resolution is final** in every state of a run exactly when every move of it brings nothing back
and ends what it resolves. -/
theorem resolution_final_iff (hids : UniqueIds P.consensus used)
    {moves : List (Conversation P × Move P × Conversation P)} {c : Conversation P}
    (h : Trace Fresh Moves moves c) :
    (∀ e ∈ moves, e.2.2.inFlight.Final) ↔ ∀ e ∈ moves, KeepsFinal e.1 e.2.1 := by
  refine h.all_iff (I := Remembers used) (fun _ _ d => d.inFlight.Final)
    (fun _ h => remembers_of_fresh h) ?_ ?_
  · exact fun _ _ _ hc hmove hd => hc.next hids hmove hd
  · exact fun _ _ _ hc hmove => hmove.final_iff hids hc

end Conversation

/-! ## Evaluations -/

namespace Ideal

/-- The highest id a service has seen. -/
def top (st : Nat × List Proposal) : Nat := st.2.foldr (fun p n => max p.proposalId n) st.1

theorem le_top (n : Nat) (sessions : List Proposal) : n ≤ top (n, sessions) := by
  induction sessions with
  | nil => exact le_refl n
  | cons p rest ih => exact le_max_of_le_right ih

theorem le_top_of_mem {n : Nat} {sessions : List Proposal} {p : Proposal} (h : p ∈ sessions) :
    p.proposalId ≤ top (n, sessions) := by
  induction sessions with
  | nil => cases h
  | cons q rest ih =>
    rcases List.mem_cons.mp h with rfl | h
    · exact le_max_left _ _
    · exact le_max_of_le_right (ih h)

/-- The one-shot sessions, with ids drawn past all that were seen. -/
def numbered : ConsensusService where
  State := Nat × List Proposal
  processIncomingProposal st p now :=
    let r := consensus.processIncomingProposal st.2 p now
    (r.1, (top st, r.2.1), r.2.2)
  processIncomingVote st v now :=
    let r := consensus.processIncomingVote st.2 v now
    (r.1, (top st, r.2.1), r.2.2)
  castVote st id choice now :=
    let r := consensus.castVote st.2 id choice now
    (r.1, (top st, r.2.1), r.2.2)
  castVoteAndGetProposal st id choice now :=
    let r := consensus.castVoteAndGetProposal st.2 id choice now
    (r.1, (top st, r.2.1), r.2.2)
  createProposalWithConfig st r now :=
    let p : Proposal := ⟨[], r.payload, top st + 1, r.proposalOwner, [], r.expectedVotersCount,
      1, now, now + r.expirationSecs, r.livenessCriteriaYes⟩
    (.ok p, (top st, st.2 ++ [p]), [])
  handleConsensusTimeout st id now :=
    let r := consensus.handleConsensusTimeout st.2 id now
    (r.1, (top st, r.2.1), r.2.2)
  buildVote st := consensus.buildVote st.2
  getProposal st := consensus.getProposal st.2
  getActiveProposals st := consensus.getActiveProposals st.2
  removeSession st id :=
    let r := consensus.removeSession st.2 id
    (r.1, (top st, r.2))

theorem uniqueIds_numbered : Conversation.UniqueIds numbered fun st id => id ≤ top st where
  session {st id proposal} h := by
    dsimp only [numbered, consensus] at h
    split at h
    · rename_i p hfind
      have hid : p.proposalId = id := by simpa using List.find?_some hfind
      rw [← hid]
      exact le_top_of_mem (List.mem_of_find?_eq_some hfind)
    · cases h
  fresh h := by
    cases h
    exact Nat.not_succ_le_self _
  kept {st st' id} h hid := by
    have hnext : ∀ sessions, id ≤ top (top st, sessions) := fun _ => hid.trans (le_top _ _)
    cases h <;> exact hnext _

def numberedPlatform : Platform := { platform with consensus := numbered }

def numberedStart : Conversation numberedPlatform := { start with consensus := (0, []) }

/-- A proposal comes in, its outcome is published and handled, and the same proposal comes again. -/
def redeliveredMoves (request : ConversationUpdateRequest) : List (Conversation numberedPlatform ×
    Conversation.Move numberedPlatform × Conversation numberedPlatform) :=
  let proposal := proposalOf 7 request
  let event : ConsensusEvent := .consensusReached 7 true 0
  let c := after (Conversation.onIncomingProposal proposal) numberedStart
  let d := after (Conversation.handleConsensusOutcome event) c
  [(numberedStart, .incomingProposal proposal, c), (c, .publish event, { c with outcomes := [event] }),
    ({ c with outcomes := [event] }, .outcome event, d),
    (d, .incomingProposal proposal, after (Conversation.onIncomingProposal proposal) d)]

end Ideal

/-- The service takes the removal again, and it is back in voting. -/
theorem redelivered_removal_returns :
    let moves := Ideal.redeliveredMoves (.removeMember (memberIdOf 2))
    (∃ c, Trace Conversation.Fresh Conversation.Moves moves c) ∧
      ¬ ∀ e ∈ moves, e.2.2.inFlight.Final := by
  refine ⟨⟨_, .next (.next (.next (.next (.start ⟨[], 10, rfl⟩) (.incomingProposal _ _))
    (.publish _ _)) (@Conversation.Moves.outcome _ _ _ [] rfl)) (.incomingProposal _ _)⟩, ?_⟩
  intro h
  have hlast := h _ (List.mem_cons_of_mem _ (List.mem_cons_of_mem _ (List.mem_cons_of_mem _
    List.mem_cons_self)))
  refine (hlast 7 ?_).voting ?_ <;> decide

/-- An emergency with evidence comes in, and its outcome is published and handled twice. -/
def Ideal.repeatedMoves : List (Conversation Ideal.numberedPlatform ×
    Conversation.Move Ideal.numberedPlatform × Conversation Ideal.numberedPlatform) :=
  let proposal := Ideal.proposalOf 7 ⟨some (.emergencyCriteria (some
    ⟨3, memberIdOf 2, [], 1, memberIdOf 1⟩))⟩
  let event : ConsensusEvent := .consensusReached 7 true 0
  let c := after (Conversation.onIncomingProposal proposal) Ideal.numberedStart
  let d := after (Conversation.handleConsensusOutcome event) c
  [(Ideal.numberedStart, .incomingProposal proposal, c),
    (c, .publish event, { c with outcomes := [event] }),
    ({ c with outcomes := [event] }, .outcome event, d),
    (d, .publish event, { d with outcomes := [event] }),
    ({ d with outcomes := [event] }, .outcome event,
      after (Conversation.handleConsensusOutcome event) d)]

/-- The law, on that run. -/
theorem repeated_outcome_final :
    (∃ c, Trace Conversation.Fresh Conversation.Moves Ideal.repeatedMoves c) ∧
      ∀ e ∈ Ideal.repeatedMoves, e.2.2.inFlight.Final := by
  have hrun : Trace Conversation.Fresh Conversation.Moves Ideal.repeatedMoves _ :=
    .next (.next (.next (.next (.next (.start ⟨[], 10, rfl⟩) (.incomingProposal _ _))
      (.publish _ _)) (@Conversation.Moves.outcome _ _ _ [] rfl)) (.publish _ _))
      (@Conversation.Moves.outcome _ _ _ [] rfl)
  refine ⟨⟨_, hrun⟩, (Conversation.resolution_final_iff Ideal.uniqueIds_numbered hrun).mpr ?_⟩
  unfold Ideal.repeatedMoves
  rw [List.forall_mem_cons, List.forall_mem_cons, List.forall_mem_cons, List.forall_mem_cons,
    List.forall_mem_singleton]
  refine ⟨fun h => absurd h (by decide), trivial, fun _ request hrequest => ?_, trivial,
    fun h => absurd h (by decide)⟩
  cases (show _ = some (⟨some (.emergencyCriteria (some ⟨3, memberIdOf 2, [], 1, memberIdOf 1⟩))⟩ :
    ConversationUpdateRequest) from rfl).symm.trans hrequest
  exact ⟨⟨_, rfl⟩, _, _, rfl⟩

end DeMls
