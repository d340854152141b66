import DeMls.CommitRound.Delivery
import DeMls.Conversation.Aside
import DeMls.Conversation.Run

/-!
# Candidates that beat their approval

A peer's candidate may arrive before this node sees the outcome that approves its proposal. It is
stashed then, and replayed when the outcome is handled. A candidate that arrives right after the
outcome is dispatched instead: it opens the freeze, and a steward mints beside it. The replay does
neither, so the two orders agree when there is nothing to open the freeze for
(`early_candidates_iff`).
-/

namespace DeMls

open Program Intake

variable {P : Platform}

/-! ## One candidate -/

/-- The candidate would not be buffered beside these: it fails a check, its commit is there
already, or there is no room. -/
def Refused (P : Platform) (q : ConversationQueues) (cap : Nat) (held : List BufferedCommitCandidate)
    (m : CommitCandidate) : Prop :=
  admissible P q m = false ∨
    computeCommitHash P m.commitMessage ∈ keys (·.commitHash) held ∨ cap ≤ held.length

theorem any_hash_iff {l : List BufferedCommitCandidate} {h : CommitHash} :
    (l.any fun c => c.commitHash = h) = true ↔ h ∈ keys (·.commitHash) l := by
  simp [mem_keys]

/-- A buffer with candidates of the epoch is at that epoch. -/
theorem atEpoch_of_take {b : CommitRoundBuffer} {epoch : Nat} (h : (b.take epoch).1 ≠ []) :
    b.atEpoch epoch = b := by
  unfold CommitRoundBuffer.take at h
  unfold CommitRoundBuffer.atEpoch
  split_ifs at h with hepoch
  · exact absurd rfl h
  · exact if_neg hepoch

theorem take_atEpoch (b : CommitRoundBuffer) (epoch : Nat) :
    ((b.atEpoch epoch).take epoch).1 = (b.take epoch).1 := by
  rw [take_eq_atEpoch, take_eq_atEpoch, atEpoch_atEpoch]

/-- A refused candidate is reported as such and leaves the candidates of the epoch alone; the
buffer too, unless it has no room at all. -/
theorem receive_refused {q : ConversationQueues} {mls : MlsService P.mls} {m : CommitCandidate}
    (happroved : q.approvedProposalsCount ≠ 0)
    (h : Refused P q mls.members.length (q.commitRound.take mls.group.epoch).1 m) :
    ∃ reason b, receiveCommitCandidate P q mls m = (.noop reason, { q with commitRound := b }) ∧
      (b = q.commitRound ∨ mls.members.length = 0 ∧ b = q.commitRound.atEpoch mls.group.epoch) := by
  rcases receiveCommitCandidate_cases q mls m with ⟨-, reason, hnoop⟩ | ⟨hm, hadd⟩
  · exact ⟨reason, q.commitRound, hnoop, .inl rfl⟩
  rw [if_neg happroved] at hadd
  rw [hadd]
  have hfull : computeCommitHash P m.commitMessage ∈
        keys (·.commitHash) (q.commitRound.take mls.group.epoch).1 ∨
      mls.members.length ≤ (q.commitRound.take mls.group.epoch).1.length :=
    h.resolve_left fun hfails => by rw [hm] at hfails; cases hfails
  have hstays : q.commitRound.atEpoch mls.group.epoch = q.commitRound ∨ mls.members.length = 0 := by
    by_cases hempty : (q.commitRound.take mls.group.epoch).1 = []
    · rw [hempty] at hfull
      rcases hfull with hfull | hfull
      · simp [keys] at hfull
      · exact .inr (Nat.le_zero.mp hfull)
    · exact .inl (atEpoch_of_take hempty)
  rw [take_eq_atEpoch] at hfull
  unfold CommitRoundBuffer.add
  simp only
  split_ifs with hdup hcap
  · exact ⟨.duplicateBufferedHash, _, rfl, hstays.imp_right fun hnone => ⟨hnone, rfl⟩⟩
  · exact ⟨.candidateBufferFull, _, rfl, hstays.imp_right fun hnone => ⟨hnone, rfl⟩⟩
  · rw [any_hash_iff] at hdup
    exact absurd (hfull.resolve_left hdup) hcap

/-- Any other candidate is buffered. -/
theorem receive_buffered {q : ConversationQueues} {mls : MlsService P.mls} {m : CommitCandidate}
    (happroved : q.approvedProposalsCount ≠ 0)
    (h : ¬ Refused P q mls.members.length (q.commitRound.take mls.group.epoch).1 m) :
    (receiveCommitCandidate P q mls m).1 = .commitCandidateReceived m.stewardMemberId := by
  obtain ⟨hm, hnew, hroom⟩ : admissible P q m ≠ false ∧
      computeCommitHash P m.commitMessage ∉
        keys (·.commitHash) (q.commitRound.take mls.group.epoch).1 ∧
      ¬ mls.members.length ≤ (q.commitRound.take mls.group.epoch).1.length := by
    unfold Refused at h
    rw [not_or, not_or] at h
    exact h
  rcases receiveCommitCandidate_cases q mls m with ⟨hfails, -⟩ | ⟨-, hadd⟩
  · exact absurd hfails hm
  rw [if_neg happroved] at hadd
  rw [hadd]
  rw [take_eq_atEpoch] at hnew hroom
  unfold CommitRoundBuffer.add
  simp only
  rw [if_neg fun hdup => hnew (any_hash_iff.mp hdup), if_neg hroom]
  rfl

/-- Refused candidates leave a round with room for one as it is. -/
theorem delivered_refused {q : ConversationQueues} {mls : MlsService P.mls}
    {messages : List CommitCandidate} (happroved : q.approvedProposalsCount ≠ 0)
    (hroom : messages ≠ [] → 0 < mls.members.length)
    (h : ∀ m ∈ messages, Refused P q mls.members.length (q.commitRound.take mls.group.epoch).1 m) :
    delivered P q mls messages = q := by
  induction messages with
  | nil => rfl
  | cons m rest ih =>
    obtain ⟨reason, b, hreceive, hb⟩ := receive_refused happroved (h m List.mem_cons_self)
    have hsame : b = q.commitRound :=
      hb.resolve_right fun hnone => (hroom (List.cons_ne_nil _ _)).ne' hnone.1
    show delivered P (receiveCommitCandidate P q mls m).2 mls rest = q
    rw [hreceive, hsame]
    refine ih (fun _ => hroom (List.cons_ne_nil _ _)) fun m' hm' => ?_
    exact h m' (List.mem_cons_of_mem _ hm')

/-! ## What a membership approval does -/

/-- The request adds or removes a member. -/
def ConversationUpdateRequest.IsMembership (request : ConversationUpdateRequest) : Prop :=
  (∃ keyPackageBytes, request.payload = some (.memberInvite keyPackageBytes)) ∨
    ∃ memberId, request.payload = some (.removeMember memberId)

/-- The follow-up of an approved one. -/
def membershipFollowUp (request : ConversationUpdateRequest) : ConsensusApplyResult :=
  match request.payload with
  | some (.removeMember memberId) => .queuedRemoval memberId
  | _ => .noAction

namespace ConversationQueues

theorem values_of_count {q : ConversationQueues} (h : q.approvedProposalsCount = 0) :
    q.approvedProposals.values = [] := by
  unfold OrderedMap.values
  rw [List.eq_nil_of_length_eq_zero (show q.approvedProposals.entries.length = 0 from h)]
  rfl

theorem count_insert_ne_zero (q : ConversationQueues) (id : ProposalId)
    (request : ConversationUpdateRequest) :
    (q.insertApprovedProposal id request).approvedProposalsCount ≠ 0 := by
  intro h
  have hmem : (id, request) ∈ (q.approvedProposals.insert id request).entries :=
    OrderedMap.mem_insert.mpr (.inl rfl)
  have hnil : (q.approvedProposals.insert id request).entries = [] :=
    List.eq_nil_of_length_eq_zero h
  rw [hnil] at hmem
  cases hmem

end ConversationQueues

open ConversationQueues

/-- Into an empty queue, an approved membership change is always taken. -/
theorem applyConsensusResult_membership {q : ConversationQueues} {request : ConversationUpdateRequest}
    (hempty : q.approvedProposalsCount = 0) (hmember : request.IsMembership) (id : ProposalId) :
    applyConsensusResult P.mls q id true request =
      (membershipFollowUp request, (q.removeVotingProposal id).insertApprovedProposal id request) := by
  have hvalues : (q.removeVotingProposal id).approvedProposals.values = [] := values_of_count hempty
  have hremoval : ∀ target, (q.removeVotingProposal id).hasApprovedRemoval target = false := by
    intro target
    unfold hasApprovedRemoval
    rw [hvalues]
    rfl
  have hinvite : ∀ key, (q.removeVotingProposal id).hasApprovedInvite P.mls key = false := by
    intro key
    unfold hasApprovedInvite
    rw [hvalues]
    rfl
  rcases request with ⟨payload⟩
  rcases hmember with ⟨keyPackageBytes, rfl⟩ | ⟨memberId, rfl⟩
  · have hnew : (inviteKeyOf P.mls ⟨some (.memberInvite keyPackageBytes)⟩).any
        ((q.removeVotingProposal id).hasApprovedInvite P.mls) = false := by
      cases inviteKeyOf P.mls ⟨some (.memberInvite keyPackageBytes)⟩ with
      | none => rfl
      | some key => exact hinvite key
    unfold applyConsensusResult extractElectionProposal extractEmergencyEvidence
      pendingRemovalTarget membershipFollowUp
    simp [hnew]
  · have hnew : (some memberId).any (q.removeVotingProposal id).hasApprovedRemoval = false :=
      hremoval memberId
    unfold applyConsensusResult extractElectionProposal extractEmergencyEvidence
      pendingRemovalTarget membershipFollowUp inviteKeyOf
    simp [hremoval]

namespace Conversation

/-! ## Two orders of delivery -/

/-- A peer's candidate, received and dispatched. -/
def deliverCandidate (candidate : CommitCandidate) : ConvM P DispatchOutcome := do
  let c ← get
  modify fun c => { c with queues := (receiveCommitCandidate P c.queues c.mls candidate).2 }
  dispatchInboundResult (receiveCommitCandidate P c.queues c.mls candidate).1

/-- It is what an inbound packet with that candidate does. -/
theorem processInbound_candidate {sender payload : Bytes} {candidate : CommitCandidate}
    {c : Conversation P} (hsender : sender ≠ c.appId)
    (hpayload : P.codec.decodeApp payload = .ok ⟨some (.commitCandidate candidate)⟩) :
    processInbound sender payload c = deliverCandidate candidate c := by
  unfold processInbound decodeInbound
  rw [bind_run _ (get_apply c), if_neg hsender]
  simp only [hpayload]
  rfl

/-- Candidates delivered one after another. -/
def deliverAll (candidates : List CommitCandidate) (c : Conversation P) : Conversation P :=
  candidates.foldl (fun c candidate => after (deliverCandidate candidate) c) c

/-- The candidates of the round. -/
def roundContent (c : Conversation P) : List BufferedCommitCandidate :=
  (c.queues.commitRound.take c.epoch).1

/-- The candidates of the round once those of the stash are in it. -/
def held (c : Conversation P) : List BufferedCommitCandidate :=
  offers (·.commitHash) c.members.length c.roundContent
    (((c.queues.takeEarlyCandidates c.epoch).1.filter (admissible P c.queues)).map (peerEntry P))

/-- The same candidates in the round, the same phase, and the same own commit, pending and sent. -/
structure SameRound (c d : Conversation P) : Prop where
  content : c.roundContent = d.roundContent
  phase : c.state = d.state
  pending : P.mls.pendingCommit c.mls.group.secrets = P.mls.pendingCommit d.mls.group.secrets
  sent : c.pendingOutbound = d.pendingOutbound

/-! ## Before the approval -/

theorem admissible_congr {q q' : ConversationQueues}
    (h : q'.committedBatchHashes = q.committedBatchHashes) : admissible P q' = admissible P q := by
  funext m
  unfold admissible hasCommittedHash
  rw [h]

/-- Before any approval a candidate reaches the stash at most, and nothing is dispatched. -/
theorem deliver_stashed {c : Conversation P} (hempty : c.queues.approvedProposalsCount = 0)
    (m : CommitCandidate) : ∃ e kept,
      after (deliverCandidate m) c = { c with queues := { c.queues with earlyCandidates := e } } ∧
      (e.filter fun entry => entry.1 = c.epoch).map Prod.snd =
        (c.queues.takeEarlyCandidates c.epoch).1 ++ kept ∧
      kept ⊆ [m] ∧ (kept ≠ [] → 0 < c.members.length) := by
  have hnoop : ∀ {reason} {q : ConversationQueues},
      receiveCommitCandidate P c.queues c.mls m = (.noop reason, q) →
        after (deliverCandidate m) c = { c with queues := q } := by
    intro reason q h
    unfold deliverCandidate
    rw [after_bind_ok _ (get_apply c), after_bind_ok _ (modify_apply _ c), h]
    rfl
  have hsame : ∀ l : List (Nat × CommitCandidate),
      ((l.filter fun entry => entry.1 = c.epoch).filter fun entry => entry.1 = c.epoch) =
        l.filter fun entry => entry.1 = c.epoch := fun l => by
    rw [List.filter_filter]
    simp
  rcases receiveCommitCandidate_cases c.queues c.mls m with ⟨-, reason, hfails⟩ | ⟨-, hstash⟩
  · refine ⟨c.queues.earlyCandidates, [], hnoop hfails, (List.append_nil _).symm, ?_, ?_⟩
    · exact List.nil_subset _
    · exact fun h => absurd rfl h
  · rw [if_pos hempty] at hstash
    rw [hnoop hstash]
    unfold stashEarlyCandidate
    simp only
    split_ifs with hfull
    · refine ⟨_, [], rfl, ?_, List.nil_subset _, fun h => absurd rfl h⟩
      rw [List.append_nil]
      exact congrArg (List.map Prod.snd) (hsame _)
    · rw [not_or, not_le] at hfull
      refine ⟨_, [m], rfl, ?_, fun _ h => h, fun _ => Nat.zero_lt_of_lt hfull.2⟩
      have hmine : ([(c.mls.group.epoch, m)].filter fun entry => entry.1 = c.epoch) =
          [(c.mls.group.epoch, m)] :=
        List.filter_cons_of_pos (decide_eq_true rfl)
      rw [List.filter_append, hmine, List.map_append]
      exact congrArg (· ++ [m]) (congrArg (List.map Prod.snd) (hsame _))

/-- So do several, one after another. -/
theorem deliverAll_stashed {c : Conversation P} (hempty : c.queues.approvedProposalsCount = 0)
    (candidates : List CommitCandidate) : ∃ e kept,
      deliverAll candidates c = { c with queues := { c.queues with earlyCandidates := e } } ∧
      (e.filter fun entry => entry.1 = c.epoch).map Prod.snd =
        (c.queues.takeEarlyCandidates c.epoch).1 ++ kept ∧
      kept ⊆ candidates ∧ (kept ≠ [] → 0 < c.members.length) := by
  induction candidates generalizing c with
  | nil =>
    refine ⟨c.queues.earlyCandidates, [], rfl, (List.append_nil _).symm, fun _ h => h, ?_⟩
    exact fun h => absurd rfl h
  | cons m rest ih =>
    obtain ⟨e, kept, hrun, hlist, hkept, hroom⟩ := deliver_stashed hempty m
    obtain ⟨e', kept', hrun', hlist', hkept', hroom'⟩ :=
      ih (c := { c with queues := { c.queues with earlyCandidates := e } }) hempty
    refine ⟨e', kept ++ kept', ?_, ?_, ?_, ?_⟩
    · unfold deliverAll
      rw [List.foldl_cons, hrun]
      exact hrun'
    · rw [← List.append_assoc, ← hlist]
      exact hlist'
    · exact List.append_subset.mpr
        ⟨fun x hx => List.mem_cons.mpr (.inl (List.mem_singleton.mp (hkept hx))),
          fun x hx => List.mem_cons_of_mem _ (hkept' hx)⟩
    · intro hne
      by_cases hnil : kept = []
      · refine hroom' fun hnil' => hne ?_
        rw [hnil, hnil']
        rfl
      · exact hroom hnil

/-! ## After the approval -/

/-- Refused candidates leave everything but the buffer's epoch alone. -/
theorem deliverAll_refused {c : Conversation P} {candidates : List CommitCandidate}
    (happroved : c.queues.approvedProposalsCount ≠ 0)
    (h : ∀ m ∈ candidates, Refused P c.queues c.members.length c.roundContent m) :
    ∃ b, deliverAll candidates c = { c with queues := { c.queues with commitRound := b } } ∧
      (b.take c.epoch).1 = c.roundContent := by
  induction candidates generalizing c with
  | nil => exact ⟨c.queues.commitRound, rfl, rfl⟩
  | cons m rest ih =>
    obtain ⟨reason, b, hreceive, hb⟩ := receive_refused happroved (h m List.mem_cons_self)
    have hcontent : (b.take c.epoch).1 = c.roundContent := by
      rcases hb with rfl | ⟨-, rfl⟩
      · rfl
      · exact take_atEpoch _ _
    have hrun : after (deliverCandidate m) c =
        { c with queues := { c.queues with commitRound := b } } := by
      unfold deliverCandidate
      rw [after_bind_ok _ (get_apply c), after_bind_ok _ (modify_apply _ c), hreceive]
      rfl
    obtain ⟨b', hrest, hcontent'⟩ :=
      ih (c := { c with queues := { c.queues with commitRound := b } }) happroved fun m' hm' => by
        show Refused P { c.queues with commitRound := b } _ (b.take c.epoch).1 m'
        rw [hcontent]
        exact h m' (List.mem_cons_of_mem _ hm')
    refine ⟨b', ?_, hcontent'.trans hcontent⟩
    unfold deliverAll
    rw [List.foldl_cons, hrun]
    exact hrest

/-- A buffered candidate opens the freeze from `Working` and `Reelection`. -/
theorem state_dispatch_received (steward : Bytes) (c : Conversation P) :
    (after (dispatchInboundResult (.commitCandidateReceived steward)) c).state =
      if c.state = .working ∨ c.state = .reelection then .freezing else c.state := by
  have hdispatch := after_bind_of_frame (p := (Conversation.state : Conversation P → _))
    (x := onCommitCandidateReceived) (fun _ => frame_pure _ DispatchOutcome.done) c
  refine hdispatch.trans ?_
  unfold onCommitCandidateReceived
  rw [after_bind_ok _ (get_apply c)]
  by_cases hopen : c.state = .working ∨ c.state = .reelection
  · rw [if_pos hopen, if_neg fun h => hopen.elim h.1 h.2]
    have hstart : (startFreezing : ConvM P _) c = .ok (some .freezing)
        { c with state := .freezing, timing := { c.timing with phaseTimer := some c.now } } := by
      unfold startFreezing
      rw [bind_run _ (get_apply c), if_pos hopen]
      rfl
    rw [after_bind_ok _ hstart]
    exact aside_state.onFreezeEntered _ _
  · rw [if_neg hopen, if_pos (not_or.mp hopen)]
    rfl

/-- A delivery from a frozen conversation leaves it frozen. -/
theorem deliver_frozen {c : Conversation P} (hfrozen : c.state = .freezing) (m : CommitCandidate) :
    (after (deliverCandidate m) c).state = .freezing := by
  unfold deliverCandidate
  rw [after_bind_ok _ (get_apply c), after_bind_ok _ (modify_apply _ c)]
  rcases receiveCommitCandidate_cases c.queues c.mls m with ⟨-, reason, hfails⟩ | ⟨-, hpasses⟩
  · rw [hfails]
    exact hfrozen
  · rw [hpasses]
    split_ifs
    · exact hfrozen
    · dsimp only
      cases (c.queues.commitRound.add P m false none [] c.mls.group.epoch
        c.mls.members.length).1 with
      | buffered =>
        rw [CommitBufferOutcome.intoProcessResult, state_dispatch_received, if_neg]
        · exact hfrozen
        · rw [show _ = ConversationState.freezing from hfrozen]
          simp
      | duplicateHash => exact hfrozen
      | capReached => exact hfrozen

theorem deliverAll_frozen {c : Conversation P} (hfrozen : c.state = .freezing)
    (candidates : List CommitCandidate) : (deliverAll candidates c).state = .freezing := by
  induction candidates generalizing c with
  | nil => exact hfrozen
  | cons m rest ih => exact ih (deliver_frozen hfrozen m)

/-- The first candidate that is not refused opens the freeze. -/
theorem deliverAll_opens {c : Conversation P} {candidates : List CommitCandidate}
    (happroved : c.queues.approvedProposalsCount ≠ 0)
    (hopen : c.state = .working ∨ c.state = .reelection)
    (h : ∃ m ∈ candidates, ¬ Refused P c.queues c.members.length c.roundContent m) :
    (deliverAll candidates c).state = .freezing := by
  induction candidates generalizing c with
  | nil =>
    obtain ⟨m, hm, -⟩ := h
    cases hm
  | cons m rest ih =>
    have hcons : deliverAll (m :: rest) c = deliverAll rest (after (deliverCandidate m) c) := rfl
    rw [hcons]
    by_cases hm : Refused P c.queues c.members.length c.roundContent m
    · obtain ⟨b, hrun, hcontent⟩ := deliverAll_refused happroved fun m' (hm' : m' ∈ [m]) => by
        rw [List.mem_singleton.mp hm']
        exact hm
      change after (deliverCandidate m) c = _ at hrun
      rw [hrun]
      refine ih happroved hopen ?_
      obtain ⟨m', hm', hnew⟩ := h
      refine ⟨m', ?_, ?_⟩
      · rcases List.mem_cons.mp hm' with rfl | hrest
        · exact absurd hm hnew
        · exact hrest
      · show ¬ Refused P { c.queues with commitRound := b } _ (b.take c.epoch).1 m'
        rw [hcontent]
        exact hnew
    · refine deliverAll_frozen ?_ rest
      unfold deliverCandidate
      rw [after_bind_ok _ (get_apply c), after_bind_ok _ (modify_apply _ c),
        receive_buffered happroved hm, state_dispatch_received, if_pos]
      exact hopen

/-! ## The approval -/

/-- What the outcome leaves of the round beside its candidates: the buffer and the committed
commits. -/
def bench (c : Conversation P) : CommitRoundBuffer × BoundedSet CommitHash :=
  (c.queues.commitRound, c.queues.committedBatchHashes)

/-- What follows the replay. -/
def settle (id : ProposalId) (result : ConsensusApplyResult) : ConvM P Unit := do
  followUp result
  onConsensus fun st => ((P.consensus.removeSession st id).1, (P.consensus.removeSession st id).2, [])

theorem bench_initiateProposal (request : ConversationUpdateRequest) (v : CreatorVote) :
    Frame bench (initiateProposal request v : ConvM P Unit) := by
  have hsend : ∀ message, Frame bench (sendApp message : ConvM P Unit) := fun _ =>
    frame_bind (frame_zoom fun _ _ => rfl) fun _ => frame_modify fun _ => rfl
  unfold initiateProposal
  refine frame_bind (frame_get _) fun c => frame_ite (frame_pure _ _) ?_
  refine frame_bind (frame_gate _ _) fun voters => ?_
  have hsubmit : Frame bench (submitProposal request voters : ConvM P _) :=
    frame_bind (frame_get _) fun _ => frame_bind (frame_ofPair fun _ => rfl) fun _ => frame_pure _ _
  refine frame_bind hsubmit fun ⟨id, unbundled⟩ => ?_
  refine frame_bind (frame_modify fun c => ?_) fun _ => ?_
  · show bench { c with queues := _ } = bench c
    unfold bench trackVotingProposal
    dsimp only
    split_ifs <;> rfl
  refine frame_bind (frame_modify fun _ => rfl) fun _ => ?_
  cases v with
  | yes =>
    refine frame_bind (frame_ofPair fun _ => rfl) fun _ => ?_
    exact frame_bind (hsend _) fun _ => frame_modify fun _ => rfl
  | deferred =>
    refine frame_bind (hsend _) fun _ => ?_
    exact frame_bind (frame_modify fun _ => rfl) fun _ => frame_modify fun _ => rfl

/-- A membership follow-up proposes an election at most, so what a proposal frames it frames. -/
theorem frame_settle {ρ : Type} {p : Conversation P → ρ} (request : ConversationUpdateRequest)
    (hproposal : ∀ request v, Frame p (initiateProposal request v : ConvM P Unit))
    (hconsensus : ∀ st outs c, p (c.answered st outs) = p c) (id : ProposalId) :
    Frame p (settle id (membershipFollowUp request) : ConvM P Unit) := by
  have helection : Frame p (initiateStewardElection true : ConvM P Unit) :=
    frame_election (fun _ => hproposal _) true
  refine frame_bind ?_ fun _ => frame_ofPair fun c => hconsensus _ _ c
  unfold membershipFollowUp
  split
  · exact frame_bind (frame_get _) fun _ => frame_ite (frame_pure _ _)
      (frame_bind (frame_attempt helection) fun _ => frame_pure _ _)
  · exact frame_pure _ _

/-- The queues right after the approval, before the replay. -/
def approvedQueues (q : ConversationQueues) (id : ProposalId) (request : ConversationUpdateRequest) :
    ConversationQueues :=
  ((q.markConsensusOutcomeApplied id).removeVotingProposal id).insertApprovedProposal id request

/-- Once the outcome is booked and the stash replayed. -/
def replayed (c : Conversation P) (event : ConsensusEvent) (request : ConversationUpdateRequest) :
    Conversation P :=
  { c.announced event with queues :=
    DeMls.replayEarlyCandidates P (approvedQueues c.queues event.fields.1 request) c.mls }

/-- A first approval of a membership change books it, replays the stash and settles the rest. -/
theorem handleConsensusOutcome_membership {c : Conversation P} (event : ConsensusEvent)
    {request : ConversationUpdateRequest} (hempty : c.queues.approvedProposalsCount = 0)
    (happroved : event.fields.2.1 = true) (hmember : request.IsMembership)
    (hresolved : c.resolved event.fields.1 = some request) :
    handleConsensusOutcome event c =
      settle event.fields.1 (membershipFollowUp request) (c.replayed event request) := by
  have hops : emergencyScoreOps request true = [] := by
    unfold emergencyScoreOps
    rcases hmember with ⟨_, h⟩ | ⟨_, h⟩ <;> rw [h]
  have happlied : c.applied event request =
      (membershipFollowUp request, approvedQueues c.queues event.fields.1 request) := by
    unfold applied
    rw [happroved]
    exact applyConsensusResult_membership (q := c.queues.markConsensusOutcomeApplied event.fields.1)
      hempty hmember _
  rw [handleConsensusOutcome_resolved hresolved, happroved, hops]
  unfold handed
  rw [happlied]
  rfl

/-- The candidates of the round after the approval: those held before it. -/
theorem roundContent_replayed (c : Conversation P) (event : ConsensusEvent)
    (request : ConversationUpdateRequest) : (c.replayed event request).roundContent = c.held :=
  take_delivered c.mls _ (count_insert_ne_zero
    ((c.queues.markConsensusOutcomeApplied event.fields.1).removeVotingProposal event.fields.1) _ _)

theorem count_replayed (c : Conversation P) (event : ConsensusEvent)
    (request : ConversationUpdateRequest) :
    (c.replayed event request).queues.approvedProposalsCount ≠ 0 := by
  have hledger := ledger_replayEarlyCandidates (approvedQueues c.queues event.fields.1 request) c.mls
  have hcount : (c.replayed event request).queues.approvedProposalsCount =
      (approvedQueues c.queues event.fields.1 request).approvedProposalsCount :=
    congrArg OrderedMap.length (congrArg Prod.fst hledger)
  rw [hcount]
  exact count_insert_ne_zero _ _ _

/-- Buffering commits none. -/
theorem committed_delivered {q : ConversationQueues} (mls : MlsService P.mls)
    (happroved : q.approvedProposalsCount ≠ 0) (messages : List CommitCandidate) :
    (delivered P q mls messages).committedBatchHashes = q.committedBatchHashes := by
  induction messages generalizing q with
  | nil => rfl
  | cons m rest ih =>
    show (delivered P (receiveCommitCandidate P q mls m).2 mls rest).committedBatchHashes = _
    rw [receiveCommitCandidate_eq mls happroved]
    split_ifs
    · exact ih happroved
    · exact ih happroved

theorem committed_replayed (c : Conversation P) (event : ConsensusEvent)
    (request : ConversationUpdateRequest) :
    (c.replayed event request).queues.committedBatchHashes = c.queues.committedBatchHashes :=
  committed_delivered (q := { approvedQueues c.queues event.fields.1 request with
    earlyCandidates := [] }) c.mls (count_insert_ne_zero _ _ _) _

/-- Candidates that are refused after the approval may as well be stashed before it. -/
theorem replayed_of_stashed {c : Conversation P} {event : ConsensusEvent}
    {request : ConversationUpdateRequest} {e : List (Nat × CommitCandidate)}
    {kept : List CommitCandidate}
    (hlist : (e.filter fun entry => entry.1 = c.epoch).map Prod.snd =
      (c.queues.takeEarlyCandidates c.epoch).1 ++ kept)
    (hroom : kept ≠ [] → 0 < c.members.length)
    (hrefused : ∀ m ∈ kept, Refused P c.queues c.members.length c.held m) :
    replayed { c with queues := { c.queues with earlyCandidates := e } } event request =
      c.replayed event request := by
  let taken := (c.queues.takeEarlyCandidates c.epoch).1
  let q : ConversationQueues :=
    { approvedQueues c.queues event.fields.1 request with earlyCandidates := [] }
  have hqueues : delivered P q c.mls (taken ++ kept) = delivered P q c.mls taken := by
    have happend : delivered P q c.mls (taken ++ kept) =
        delivered P (delivered P q c.mls taken) c.mls kept := List.foldl_append
    rw [happend]
    refine delivered_refused (count_replayed c event request) hroom fun m hm => ?_
    have hcontent : ((delivered P q c.mls taken).commitRound.take c.epoch).1 = c.held :=
      roundContent_replayed c event request
    have hchecks : admissible P (delivered P q c.mls taken) = admissible P c.queues :=
      admissible_congr (committed_replayed c event request)
    unfold Refused
    rw [hchecks]
    show _ ∨ _ ∈ keys _ ((delivered P q c.mls taken).commitRound.take c.epoch).1 ∨
      _ ≤ ((delivered P q c.mls taken).commitRound.take c.epoch).1.length
    rw [hcontent]
    exact hrefused m hm
  have hreplay : DeMls.replayEarlyCandidates P
        { approvedQueues c.queues event.fields.1 request with earlyCandidates := e } c.mls =
      DeMls.replayEarlyCandidates P (approvedQueues c.queues event.fields.1 request) c.mls := by
    show delivered P q c.mls ((e.filter fun entry => entry.1 = c.epoch).map Prod.snd) = _
    rw [hlist]
    exact hqueues
  unfold replayed
  exact congrArg (fun queues => { c.announced event with queues := queues }) hreplay

/-- What the settling leaves of a round. -/
theorem settle_keeps (id : ProposalId) (request : ConversationUpdateRequest) (c : Conversation P) :
    let d := after (settle id (membershipFollowUp request)) c
    d.state = c.state ∧ d.bench = c.bench ∧ d.standing = c.standing :=
  ⟨frame_settle request (fun _ _ => aside_state.initiateProposal _ _) (fun _ _ _ => rfl) id c,
    frame_settle request bench_initiateProposal (fun _ _ _ => rfl) id c,
    frame_settle request frame_initiateProposal (fun _ _ _ => rfl) id c⟩

/-- A conversation after a first approval: at the phase it was, with approved work, and refusing
what it refused before. -/
theorem after_membership {c : Conversation P} (event : ConsensusEvent)
    {request : ConversationUpdateRequest} (hempty : c.queues.approvedProposalsCount = 0)
    (happroved : event.fields.2.1 = true) (hmember : request.IsMembership)
    (hresolved : c.resolved event.fields.1 = some request) :
    let d := after (handleConsensusOutcome event) c
    d.state = c.state ∧ d.queues.approvedProposalsCount ≠ 0 ∧ d.roundContent = c.held ∧
      ∀ m, Refused P d.queues d.members.length d.roundContent m ↔
        Refused P c.queues c.members.length c.held m := by
  have hrun := handleConsensusOutcome_membership event hempty happroved hmember hresolved
  have hafter : after (handleConsensusOutcome event) c =
      after (settle event.fields.1 (membershipFollowUp request)) (c.replayed event request) := by
    unfold after
    rw [hrun]
  obtain ⟨hstate, hbench, hstanding⟩ :=
    settle_keeps event.fields.1 request (c.replayed event request)
  rw [← hafter] at hstate hbench hstanding
  have hgroup : (after (handleConsensusOutcome event) c).mls.publicPart = c.mls.publicPart :=
    congrArg (fun s => s.1.group) hstanding
  have hepoch : (after (handleConsensusOutcome event) c).epoch = c.epoch :=
    congrArg (fun g : MlsGroup Unit => g.epoch) hgroup
  have hmembers : (after (handleConsensusOutcome event) c).members = c.members :=
    congrArg (fun g : MlsGroup Unit => g.memberIds) hgroup
  have hcontent : (after (handleConsensusOutcome event) c).roundContent = c.held := by
    rw [← roundContent_replayed c event request]
    unfold roundContent
    rw [hepoch]
    exact congrArg (fun bench => (bench.1.take c.epoch).1) hbench
  refine ⟨hstate, ?_, hcontent, fun m => ?_⟩
  · have hledger := congrArg (fun s => OrderedMap.length s.1.ledger.1) hstanding
    exact hledger.trans_ne (count_replayed c event request)
  · have hchecks : admissible P (after (handleConsensusOutcome event) c).queues =
        admissible P c.queues :=
      admissible_congr ((congrArg Prod.snd hbench).trans (committed_replayed c event request))
    unfold Refused
    rw [hchecks, hcontent, hmembers]

/-- **Early candidates.** Delivered before the approval or right after it, candidates lead to the
same round exactly when the outcome is a repeated one or all of them are refused. -/
theorem early_candidates_iff {c : Conversation P} {id : ProposalId} {timestamp : Nat}
    {proposal : Proposal} {request : ConversationUpdateRequest}
    (hempty : c.queues.approvedProposalsCount = 0)
    (hphase : c.state = .working ∨ c.state = .reelection)
    (hproposal : P.consensus.getProposal c.consensus id = .ok proposal)
    (hrequest : P.codec.decodeRequest proposal.payload = .ok request)
    (hmember : request.IsMembership) (candidates : List CommitCandidate) :
    SameRound
        (after (handleConsensusOutcome (.consensusReached id true timestamp))
          (deliverAll candidates c))
        (deliverAll candidates
          (after (handleConsensusOutcome (.consensusReached id true timestamp)) c)) ↔
      c.queues.isConsensusOutcomeApplied id = true ∨
        ∀ m ∈ candidates, Refused P c.queues c.members.length c.held m := by
  obtain ⟨e, kept, hearly, hlist, hkept, hroom⟩ := deliverAll_stashed hempty candidates
  rw [hearly]
  by_cases hrepeated : c.queues.isConsensusOutcomeApplied id = true
  · -- A repeated outcome approves nothing: the candidates are stashed in either order.
    refine iff_of_true ?_ (.inl hrepeated)
    obtain ⟨e', kept', hlate, -⟩ := deliverAll_stashed (c := c.dropDeadlines id) hempty candidates
    have hdrops : ∀ d : Conversation P, d.queues.isConsensusOutcomeApplied id = true →
        after (handleConsensusOutcome (.consensusReached id true timestamp)) d =
          d.dropDeadlines id :=
      fun d hd => after_of_ok (handleConsensusOutcome_repeated hd)
    rw [hdrops c hrepeated, hlate,
      hdrops { c with queues := { c.queues with earlyCandidates := e } } hrepeated]
    exact ⟨rfl, rfl, rfl, rfl⟩
  have hresolved : ∀ d : Conversation P, d.consensus = c.consensus →
      d.queues.isConsensusOutcomeApplied id = c.queues.isConsensusOutcomeApplied id →
        d.resolved id = some request := by
    intro d hconsensus happlied
    unfold resolved
    rw [happlied, if_neg hrepeated, hconsensus, hproposal]
    show (P.codec.decodeRequest proposal.payload).toOption = _
    rw [hrequest]
    rfl
  obtain ⟨hstate, hcount, hcontent, hrefuses⟩ := after_membership
    (.consensusReached id true timestamp) hempty rfl hmember (hresolved c rfl rfl)
  obtain ⟨hstate', -⟩ := after_membership (.consensusReached id true timestamp)
    (c := { c with queues := { c.queues with earlyCandidates := e } }) hempty rfl hmember
    (hresolved _ rfl rfl)
  constructor
  · intro hsame
    by_contra hnew
    push Not at hnew
    obtain ⟨-, m, hm, hnew⟩ := hnew
    have hfrozen := deliverAll_opens hcount (hphase.imp hstate.trans hstate.trans)
      ⟨m, hm, fun h => hnew ((hrefuses m).mp h)⟩
    have hphases := hsame.phase
    rw [hfrozen, hstate'] at hphases
    rcases hphase with h | h
    · cases h.symm.trans hphases
    · cases h.symm.trans hphases
  · rintro (h | hall)
    · exact absurd h hrepeated
    have hrun : after (handleConsensusOutcome (.consensusReached id true timestamp))
          { c with queues := { c.queues with earlyCandidates := e } } =
        after (handleConsensusOutcome (.consensusReached id true timestamp)) c := by
      unfold after
      rw [handleConsensusOutcome_membership (.consensusReached id true timestamp) hempty rfl hmember
          (hresolved c rfl rfl),
        handleConsensusOutcome_membership (.consensusReached id true timestamp)
          (c := { c with queues := { c.queues with earlyCandidates := e } }) hempty rfl hmember
          (hresolved _ rfl rfl),
        replayed_of_stashed hlist hroom fun m hm => hall m (hkept hm)]
    obtain ⟨b, hlate, hb⟩ := deliverAll_refused hcount fun m hm => (hrefuses m).mpr (hall m hm)
    rw [hlate, hrun]
    exact ⟨hb.symm, rfl, rfl, rfl⟩

end Conversation

/-! ## One candidate, before and after -/

namespace Ideal

/-- A steward at work knows of a removal that is voted on. -/
def voting : Conversation platform := tracked 1 (.removeMember (memberIdOf 2)) start

/-- The vote passes. -/
def passed : ConsensusEvent := .consensusReached 1 true 0

end Ideal

open Conversation

/-- The commit of the other steward beats the approval: it is buffered, but the freeze is not
opened and the own candidate not minted. -/
theorem beaten_approval_differs :
    Ideal.voting.queues.approvedProposalsCount = 0 ∧ Ideal.voting.state = .working ∧
    [Ideal.claimedBy 1].length ≤ Ideal.voting.members.length ∧
    ¬ Conversation.SameRound (after (handleConsensusOutcome Ideal.passed)
        (deliverAll [Ideal.claimedBy 1] Ideal.voting))
      (deliverAll [Ideal.claimedBy 1]
        (after (handleConsensusOutcome Ideal.passed) Ideal.voting)) := by
  refine ⟨by decide, by decide, by decide, fun h => ?_⟩
  have hphase := h.phase
  revert hphase
  decide +kernel

/-- The theorem on that conversation. -/
theorem voting_candidates_iff :
    Conversation.SameRound (after (handleConsensusOutcome Ideal.passed)
        (deliverAll [Ideal.claimedBy 1] Ideal.voting))
      (deliverAll [Ideal.claimedBy 1]
        (after (handleConsensusOutcome Ideal.passed) Ideal.voting)) ↔
    Ideal.voting.queues.isConsensusOutcomeApplied 1 = true ∨
      ∀ m ∈ [Ideal.claimedBy 1], Refused Ideal.platform Ideal.voting.queues
        Ideal.voting.members.length Ideal.voting.held m :=
  early_candidates_iff (by decide) (.inl (by decide))
    (show Ideal.platform.consensus.getProposal Ideal.voting.consensus 1 =
      .ok (Ideal.proposalOf 1 (.removeMember (memberIdOf 2))) from rfl) rfl
    (.inr ⟨memberIdOf 2, rfl⟩) _

end DeMls
