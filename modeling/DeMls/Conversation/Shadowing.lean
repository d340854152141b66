import DeMls.Conversation.Drain
import DeMls.Conversation.FollowUps

/-!
# Removals that shadow a join

Buffered updates, proposals in flight and the dedup of our own proposals go by the target of a
change: a removal's member id, an invite's signature key, both plain bytes. Member ids are leaves of
four bytes, but nothing checks those of a peer's removal. The queues keep the target of a proposal
in voting and not the request, so an `Agenda` keeps the requests beside them, and a step `TakesIn`
some. In every run an invite that nothing names is taken exactly if no removal names its key, and so
it is as long as the run takes in no removal of that key (`invite_unshadowed_iff`).
-/

namespace DeMls

open Program Relation Runs

variable {P : Platform} {α : Type}

/-! ## Targets -/

/-- The request takes this target out: a removal, or a score emergency, which becomes one. -/
def Ousts (request : ConversationUpdateRequest) (target : Bytes) : Prop :=
  removesMember request target = true ∨ ∃ evidence : ViolationEvidence,
    request.payload = some (.emergencyCriteria (some evidence)) ∧
      isScoreBelowThreshold evidence = true ∧ evidence.targetMemberId = target

theorem invitesMember_memberInvite {O : OpenMls} {keyPackageBytes key : Bytes} :
    invitesMember O (.memberInvite keyPackageBytes) key = true ↔
      signatureKeyOfKeyPackage O keyPackageBytes = .ok key := by
  show decide ((signatureKeyOfKeyPackage O keyPackageBytes).toOption = some key) = true ↔ _
  rw [decide_eq_true_eq]
  cases signatureKeyOfKeyPackage O keyPackageBytes with
  | error e => simp [Except.toOption]
  | ok k => simp [Except.toOption]

/-- A change of the members is of the joiner it invites or of the member it removes. -/
theorem targetMemberIdOf_eq_some_iff {O : OpenMls} {request : ConversationUpdateRequest}
    {target : Bytes} : targetMemberIdOf O request = some target ↔
      invitesMember O request target = true ∨ removesMember request target = true := by
  unfold targetMemberIdOf invitesMember removesMember
  cases request.payload with
  | none => simp
  | some payload => cases payload <;> simp

/-- A proposal in flight is too, or a score emergency. -/
theorem inFlightTarget_eq_some_iff {O : OpenMls} {request : ConversationUpdateRequest}
    {target : Bytes} : inFlightTarget O request = some target ↔
      invitesMember O request target = true ∨ Ousts request target := by
  unfold inFlightTarget Ousts
  rw [← or_assoc, ← targetMemberIdOf_eq_some_iff]
  cases htarget : targetMemberIdOf O request with
  | some id =>
    dsimp only
    rw [or_iff_left]
    rintro ⟨evidence, hpayload, -, -⟩
    unfold targetMemberIdOf at htarget
    rw [hpayload] at htarget
    cases htarget
  | none =>
    dsimp only
    split
    · rename_i evidence hpayload
      split_ifs with hscore
      · simp [hpayload, isScoreBelowThreshold, hscore]
      · simp [hpayload, isScoreBelowThreshold, hscore]
    · rename_i hother
      refine iff_of_false (fun h => nomatch h) ?_
      rintro (h | ⟨evidence, hpayload, -, -⟩)
      · cases h
      · exact hother evidence hpayload

namespace ConversationQueues

/-- What `insert_pending_update` returns. -/
def isNewUpdate (O : OpenMls) (q : ConversationQueues) (request : ConversationUpdateRequest) :
    Bool :=
  match targetMemberIdOf O request with
  | none => false
  | some key => !q.pendingUpdates.contains key

/-- What the queues keep of a request in voting. -/
def metaOf (O : OpenMls) (request : ConversationUpdateRequest) : VotingMeta :=
  ⟨inFlightTarget O request, .of request⟩

end ConversationQueues

/-- The requests behind the entries in voting. -/
abbrev Agenda := ProposalId → Option ConversationUpdateRequest

namespace ConversationQueues

/-- The entries in voting are those of the agenda. -/
def Describes (O : OpenMls) (agenda : Agenda) (q : ConversationQueues) : Prop :=
  ∀ id, q.votingProposals.find? id = (agenda id).map (metaOf O)

/-! ## Agendas that go on -/

/-- Every agenda of the queues goes on, by requests of this kind. -/
def Continues (O : OpenMls) (enters : ConversationUpdateRequest → Prop)
    (q q' : ConversationQueues) : Prop :=
  ∀ agenda, Describes O agenda q → ∃ agenda', Describes O agenda' q' ∧
    ∀ id request, agenda' id = some request → agenda id = some request ∨ enters request

variable {O : OpenMls} {enters enters' : ConversationUpdateRequest → Prop}
  {q q' q'' : ConversationQueues}

theorem continues_of_voting (h : q'.votingProposals = q.votingProposals) :
    Continues O enters q q' := by
  intro agenda hagenda
  refine ⟨agenda, fun id => ?_, fun _ _ => .inl⟩
  rw [h]
  exact hagenda id

theorem Continues.trans (h : Continues O enters q q') (h' : Continues O enters q' q'') :
    Continues O enters q q'' := by
  intro agenda hagenda
  obtain ⟨agenda', hagenda', henters⟩ := h agenda hagenda
  obtain ⟨agenda'', hagenda'', henters'⟩ := h' agenda' hagenda'
  refine ⟨agenda'', hagenda'', fun id request hrequest => ?_⟩
  rcases henters' id request hrequest with hrequest | hrequest
  · exact henters id request hrequest
  · exact .inr hrequest

theorem Continues.mono (hle : ∀ request, enters request → enters' request)
    (h : Continues O enters q q') : Continues O enters' q q' := by
  intro agenda hagenda
  obtain ⟨agenda', hagenda', henters⟩ := h agenda hagenda
  refine ⟨agenda', hagenda', fun id request hrequest => ?_⟩
  exact (henters id request hrequest).imp_right (hle request)

/-- An entry goes. -/
theorem continues_of_erase {id : ProposalId} (h : q'.votingProposals = q.votingProposals.erase id) :
    Continues O enters q q' := by
  intro agenda hagenda
  refine ⟨fun j => if j = id then none else agenda j, fun j => ?_, fun j r hr => .inl ?_⟩
  · rw [h, OrderedMap.find?_erase, hagenda]
    dsimp only
    split_ifs <;> rfl
  · by_cases hj : j = id
    · simp [hj] at hr
    · simpa [hj] using hr

/-- A request enters, unless its id is taken. -/
theorem continues_track {id : ProposalId} {request : ConversationUpdateRequest}
    (henters : enters request) : Continues O enters q (q.trackVotingProposal O id request) := by
  unfold trackVotingProposal
  split_ifs
  · exact continues_of_voting rfl
  · intro agenda hagenda
    refine ⟨fun j => if j = id then some request else agenda j, fun j => ?_, fun j r hr => ?_⟩
    · rw [OrderedMap.find?_insert, hagenda]
      dsimp only
      split_ifs <;> rfl
    · by_cases hj : j = id
      · simp only [hj, if_true, Option.some.injEq] at hr
        exact .inr (hr ▸ henters)
      · simp only [hj, if_false] at hr
        exact .inl hr

/-! ## What the queues take in -/

/-- The tables of the changes of the members. -/
def changes (q : ConversationQueues) : OrderedMap ProposalId VotingMeta ×
    OrderedMap Bytes PendingUpdate × OrderedMap ProposalId ConversationUpdateRequest :=
  (q.votingProposals, q.pendingUpdates, q.approvedProposals)

/-- The queues take in requests: some enter the vote, and those brought along are buffered under
their target, or approved, as the removals they ask for. -/
structure TakesIn (O : OpenMls) (enters brought : ConversationUpdateRequest → Prop)
    (q q' : ConversationQueues) : Prop where
  agenda : Continues O enters q q'
  buffered : ∀ e ∈ q'.pendingUpdates.entries, e ∈ q.pendingUpdates.entries ∨
    targetMemberIdOf O e.2.request = some e.1 ∧ brought e.2.request
  approved : ∀ r ∈ q'.approvedProposals.values, r ∈ q.approvedProposals.values ∨
    ∃ request, brought request ∧ ∀ target, Ousts r target → Ousts request target

variable {brought : ConversationUpdateRequest → Prop}

theorem takesIn_of_changes (h : q'.changes = q.changes) : TakesIn O enters brought q q' := by
  obtain ⟨hvoting, hrest⟩ := Prod.mk.inj h
  obtain ⟨hbuffered, happroved⟩ := Prod.mk.inj hrest
  refine ⟨continues_of_voting hvoting, fun e he => .inl ?_, fun r hr => .inl ?_⟩
  · exact hbuffered ▸ he
  · exact happroved ▸ hr

theorem TakesIn.trans (h : TakesIn O enters brought q q') (h' : TakesIn O enters brought q' q'') :
    TakesIn O enters brought q q'' where
  agenda := h.agenda.trans h'.agenda
  buffered e he := (h'.buffered e he).elim (h.buffered e) .inr
  approved r hr := (h'.approved r hr).elim (h.approved r) .inr

theorem takesIn_track {id : ProposalId} {request : ConversationUpdateRequest}
    (henters : enters request) :
    TakesIn O enters brought q (q.trackVotingProposal O id request) where
  agenda := continues_track henters
  buffered e he := by
    unfold trackVotingProposal at he
    split_ifs at he <;> exact .inl he
  approved r hr := by
    unfold trackVotingProposal at hr
    split_ifs at hr <;> exact .inl hr

theorem takesIn_insertPendingUpdate {request : ConversationUpdateRequest} {epoch : Nat}
    (hbrought : brought request) :
    TakesIn O enters brought q (q.insertPendingUpdate O request epoch) where
  agenda := continues_of_voting (congrArg Prod.fst (tracked_insertPendingUpdate O q request epoch))
  buffered e he := by
    rcases entries_insertPendingUpdate O q request epoch with h | ⟨target, htarget, -, h⟩
    · exact .inl (h ▸ he)
    · rw [h] at he
      rcases List.mem_append.mp he with he | he
      · exact .inl he
      · rw [List.mem_singleton.mp he]
        exact .inr ⟨htarget, hbrought⟩
  approved r hr := by
    unfold insertPendingUpdate at hr
    split at hr
    · exact .inl hr
    · split_ifs at hr <;> exact .inl hr

end ConversationQueues

open ConversationQueues

namespace Conversation

section Intake

variable {enters brought : ConversationUpdateRequest → Prop}

/-- A proposal of our own enters. -/
theorem takesIn_trackOwn {O : OpenMls} {q : ConversationQueues} {id : ProposalId}
    {request : ConversationUpdateRequest} (henters : enters request) :
    TakesIn O enters brought q (trackOwn O id request q) := by
  unfold trackOwn
  dsimp only
  split_ifs
  · exact (takesIn_track henters).trans (takesIn_of_changes rfl)
  · exact takesIn_track henters

/-- A peer's proposal enters, and is buffered. -/
theorem takesIn_mirrorProposal {O : OpenMls} {q : ConversationQueues} {id : ProposalId}
    {epoch : Nat} {request : ConversationUpdateRequest} (henters : enters request)
    (hbrought : brought request) :
    TakesIn O enters brought q (mirrorProposal O id epoch request q) := by
  have htracked : TakesIn O enters brought q (q.trackVotingProposal O id request) :=
    takesIn_track henters
  refine htracked.trans ?_
  unfold mirrorProposal
  dsimp only
  split
  · exact takesIn_of_changes rfl
  · exact takesIn_insertPendingUpdate hbrought
  · exact takesIn_insertPendingUpdate hbrought
  · exact takesIn_of_changes rfl

/-! ## Programs -/

/-- The program takes in requests. -/
def Admits (enters brought : ConversationUpdateRequest → Prop) (c d : Conversation P) : Prop :=
  TakesIn P.mls enters brought c.queues d.queues

theorem admits_of_path {c d : Conversation P} (h : ReflTransGen (Admits enters brought) c d) :
    Admits enters brought c d := by
  induction h with
  | refl => exact takesIn_of_changes rfl
  | tail _ hstep ih => exact ih.trans hstep

theorem admits_frame {x : ConvM P α} (h : Frame (fun c : Conversation P => c.queues) x) :
    Along (Admits enters brought) x :=
  along_frame (fun _ _ hq => takesIn_of_changes (congrArg changes hq)) h

theorem queues_onConsensus
    (f : P.consensus.State → Except ConsensusError α × P.consensus.State × List ConsensusEvent) :
    Frame (fun c : Conversation P => c.queues) (onConsensus f : ConvM P α) :=
  frame_ofPair fun _ => rfl

theorem queues_sendApp (message : AppMessage) :
    Frame (fun c : Conversation P => c.queues) (sendApp message : ConvM P Unit) :=
  frame_bind (frame_zoom fun _ _ => rfl) fun _ => frame_modify fun _ => rfl

theorem queues_announceOwn (id : ProposalId) (unbundled : AppMessage)
    (request : ConversationUpdateRequest) (v : CreatorVote) (now votingDelay : Nat)
    (livenessCriteriaYes : Bool) : Frame (fun c : Conversation P => c.queues)
      (announceOwn id unbundled request v now votingDelay livenessCriteriaYes) := by
  cases v with
  | yes =>
    refine frame_bind (queues_onConsensus _) fun proposal => ?_
    exact frame_bind (queues_sendApp _) fun _ => frame_modify fun _ => rfl
  | deferred =>
    refine frame_bind (queues_sendApp _) fun _ => ?_
    exact frame_bind (frame_modify fun _ => rfl) fun _ => frame_modify fun _ => rfl

/-- **A proposal of our own.** -/
theorem admits_initiateProposal {request : ConversationUpdateRequest} (henters : enters request)
    (v : CreatorVote) (c : Conversation P) :
    Admits enters brought c (after (initiateProposal request v) c) := by
  rcases after_initiateProposal request v c with h | ⟨e, st, outs, -, h⟩ |
    ⟨proposal, st, outs, -, -, h⟩
  · rw [h]
    exact takesIn_of_changes rfl
  · rw [h]
    exact takesIn_of_changes rfl
  · have hannounced := queues_announceOwn proposal.proposalId ⟨some (.proposal proposal)⟩ request v
      c.now c.config.votingDelay c.config.livenessCriteriaYes (c.opened request proposal st outs)
    dsimp only at hannounced
    unfold Admits
    rw [h, hannounced]
    exact takesIn_trackOwn henters

/-- **A peer's proposal.** -/
theorem admits_onIncomingProposal {proposal : Proposal}
    (henters : ∀ request, requestOf P proposal = some request → enters request ∧ brought request) :
    Along (Admits enters brought) (onIncomingProposal proposal : ConvM P Unit) := by
  have hvote : ∀ decoded : Option ConversationUpdateRequest, Frame
      (fun c : Conversation P => c.queues) (scheduleVote proposal.proposalId decoded) := by
    intro decoded
    refine frame_bind (frame_get _) fun c => ?_
    split
    · exact frame_bind (frame_ofResult _ _) fun _ => frame_modify fun _ => rfl
    · exact frame_bind (frame_modify fun _ => rfl) fun _ => frame_modify fun _ => rfl
    · exact frame_modify fun _ => rfl
  unfold onIncomingProposal
  refine along_bind along_get fun c => along_ite (along_pure _) ?_
  refine along_bind (admits_frame (frame_attempt (queues_onConsensus _))) fun o => ?_
  cases o with
  | error e =>
    refine along_ite (along_bind ?_ fun _ => along_throw _) (along_throw _)
    exact admits_frame (frame_modify fun _ => rfl)
  | ok _ =>
    refine along_bind ?_ fun _ => along_ite ?_ (along_pure _)
    · cases hrequest : requestOf P proposal with
      | none =>
        rw [show (P.codec.decodeRequest proposal.payload).toOption = none from hrequest]
        exact along_pure _
      | some request =>
        rw [show (P.codec.decodeRequest proposal.payload).toOption = some request from hrequest]
        obtain ⟨henters, hbrought⟩ := henters request hrequest
        exact along_step fun d => takesIn_mirrorProposal henters hbrought
    · refine along_bind (admits_frame (hvote _)) fun _ => ?_
      exact admits_frame (frame_modify fun _ => rfl)

/-- **A request.** -/
theorem admits_handleIncomingUpdateRequest {request : ConversationUpdateRequest}
    (henters : enters request) (hbrought : brought request) :
    Along (Admits enters brought) (handleIncomingUpdateRequest request : ConvM P Unit) := by
  unfold handleIncomingUpdateRequest
  refine along_bind along_get fun c => along_ite (along_pure _) ?_
  refine along_bind (along_step fun d => takesIn_insertPendingUpdate hbrought) fun _ => ?_
  refine along_ite (along_bind ?_ fun _ => along_pure _) (along_pure _)
  exact along_attempt (along_step fun d => admits_initiateProposal henters _ d)

/-- **Our own leave.** -/
theorem admits_initiateSelfLeave {c : Conversation P}
    (henters : enters (.removeMember c.selfMemberId)) :
    Admits enters brought c (after initiateSelfLeave c) := by
  have hsubmit : Frame (fun c : Conversation P => c.queues)
      (submitSelfLeaveProposal : ConvM P _) := by
    unfold submitSelfLeaveProposal
    refine frame_bind (frame_get _) fun c => frame_bind (frame_ofResult _ _) fun v => ?_
    refine frame_bind (frame_attempt (queues_onConsensus _)) fun o => ?_
    split
    · exact frame_pure _ _
    · exact frame_pure _ _
    · exact frame_throw _ _
  refine admits_of_path ?_
  unfold initiateSelfLeave
  refine path_get_bind (path_ite (fun _ => .refl) fun _ => ?_)
  refine path_modify_bind (takesIn_track henters) ?_
  refine along_bind (admits_frame hsubmit) fun o => ?_
  cases o with
  | none => exact along_pure _
  | some m => exact admits_frame (queues_sendApp _)

end Intake

/-! ## Outcomes -/

/-- What the follow-ups of an outcome propose: a change that is buffered, or nobody's. -/
def Follows (c : Conversation P) (request : ConversationUpdateRequest) : Prop :=
  inFlightTarget P.mls request = none ∨ ∃ e ∈ c.buffer, e.2.request = request

/-- A follow-up goes on with the agenda, and buffers nothing. -/
structure Pursues (c d : Conversation P) : Prop where
  agenda : Continues P.mls c.Follows c.queues d.queues
  buffer : Thins c d

theorem Pursues.trans {b c d : Conversation P} (h : Pursues b c) (h' : Pursues c d) :
    Pursues b d where
  agenda := h.agenda.trans (h'.agenda.mono fun _ hfollows =>
    hfollows.imp_right fun ⟨e, he, heq⟩ => ⟨e, h.buffer e he, heq⟩)
  buffer e he := h.buffer e (h'.buffer e he)

theorem pursues_of_path {c d : Conversation P} (h : ReflTransGen Pursues c d) : Pursues c d := by
  induction h with
  | refl => exact ⟨continues_of_voting rfl, thins_of_kept rfl⟩
  | tail _ hstep ih => exact ih.trans hstep

theorem pursuit_pursues : Pursuit (P := P) Pursues where
  still h := by
    refine ⟨continues_of_voting (congrArg Docket.voting h), thins_of_kept ?_⟩
    exact congrArg (fun k : Docket P => k.buffered.entries) h
  unbuffered c target := ⟨continues_of_voting rfl, fun e he => (List.mem_filter.mp he).1⟩
  freed c id := ⟨continues_of_voting rfl, thins_of_kept rfl⟩

/-- A proposal of ours that follows. -/
theorem pursues_initiateProposal {c : Conversation P} {request : ConversationUpdateRequest}
    (hfollows : c.Follows request) (v : CreatorVote) :
    Pursues c (after (initiateProposal request v) c) := by
  have h : Admits c.Follows (fun _ => False) c (after (initiateProposal request v) c) :=
    admits_initiateProposal hfollows v c
  exact ⟨h.agenda, fun e he => (h.buffered e he).resolve_right fun h => h.2⟩

theorem pursues_proposeAll (requests : List ConversationUpdateRequest) (c : Conversation P)
    (hbuffered : ∀ request ∈ requests, ∃ e ∈ c.buffer, e.2.request = request) :
    ReflTransGen Pursues c (after (proposeAll requests) c) := by
  induction requests generalizing c with
  | nil => exact .refl
  | cons request rest ih =>
    unfold proposeAll
    rw [after_attempted]
    have hfirst : Pursues c (after (initiateProposal request .deferred) c) :=
      pursues_initiateProposal (.inr (hbuffered request List.mem_cons_self)) _
    refine .head hfirst (ih _ fun r hr => ?_)
    have hbuffer : (after (initiateProposal request .deferred) c).buffer = c.buffer :=
      (rounds_buffer.posted.initiateProposal request .deferred).frame c
    rw [hbuffer]
    exact hbuffered r (List.mem_cons_of_mem _ hr)

/-- The drain proposes what is buffered. -/
theorem pursues_processBufferedUpdates : Along Pursues (processBufferedUpdates : ConvM P Unit) := by
  intro c
  unfold processBufferedUpdates
  refine path_get_bind (path_ite (fun _ => ?_) fun _ => .refl)
  unfold drainBufferedUpdates
  refine path_get_bind (pursues_proposeAll _ c fun request hrequest => ?_)
  obtain ⟨e, he, -, -, heq⟩ := mem_actionableBufferedUpdates.mp hrequest
  exact ⟨e, he, heq⟩

/-- A list and a deadlock are nobody's change. -/
theorem inFlightTarget_deadlock {O : OpenMls} {epoch : Nat} {creator : Bytes}
    {request : ConversationUpdateRequest}
    (h : ((ViolationEvidence.deadlock epoch).withCreator creator).intoUpdateRequest = .ok request) :
    inFlightTarget O request = none := by
  unfold ViolationEvidence.intoUpdateRequest at h
  split_ifs at h
  cases h
  rfl

theorem pursues_initiateStewardElection (recovery : Bool) :
    Along Pursues (initiateStewardElection recovery : ConvM P Unit) :=
  along_election (fun _ _ => along_step fun _ => pursues_initiateProposal (.inl rfl) _) recovery

theorem pursues_requestRecovery : Along Pursues (requestRecovery : ConvM P Unit) := by
  intro c
  unfold requestRecovery
  refine path_get_bind (path_ite (fun _ => .refl) fun _ => ?_)
  refine path_ofResult_bind fun request hrequest => .single ?_
  exact pursues_initiateProposal (.inl (inFlightTarget_deadlock hrequest)) _

theorem pursues_refreshStewardsAfterRemoval (target : Bytes) :
    Along Pursues (refreshStewardsAfterRemoval target : ConvM P Unit) := by
  unfold refreshStewardsAfterRemoval
  refine along_bind along_get fun c => along_ite (along_pure _) ?_
  exact along_bind (along_attempt (pursues_initiateStewardElection _)) fun _ => along_pure _

theorem pursues_advanceElectionRetry : Along Pursues (advanceElectionRetry : ConvM P Unit) := by
  unfold advanceElectionRetry
  refine along_bind (along_step fun c => ⟨continues_of_voting rfl, thins_of_kept rfl⟩) fun _ => ?_
  refine along_bind along_get fun c => along_ite (along_ite ?_ (along_pure _)) ?_
  · refine along_bind (along_attempt pursues_requestRecovery) fun o => ?_
    cases o with
    | ok _ => exact along_pure _
    | error e => exact pursuit_pursues.emitEvent _
  · exact along_bind (along_attempt (pursues_initiateStewardElection _)) fun _ => along_pure _

/-- **Follow-ups.** -/
theorem pursues_followUp (o : ConsensusApplyResult) :
    Along Pursues (followUp o : ConvM P Unit) := by
  cases o with
  | electionRejected => exact pursues_advanceElectionRetry
  | urgentRemoval target =>
    refine along_bind pursuit_pursues.startFreezing fun o => ?_
    cases o with
    | none => exact pursues_refreshStewardsAfterRemoval target
    | some event =>
      exact along_bind (pursuit_pursues.onFreezeEntered _) fun _ =>
        pursues_refreshStewardsAfterRemoval target
  | queuedRemoval target => exact pursues_refreshStewardsAfterRemoval target
  | _ => exact pursuit_pursues.followUp pursues_processBufferedUpdates rfl

/-- **Outcomes.** -/
theorem pursues_handleConsensusOutcome (event : ConsensusEvent) (c : Conversation P) :
    Pursues c (after (handleConsensusOutcome event) c) := by
  cases hresolved : c.resolved event.fields.1 with
  | none =>
    have hqueues : (after (handleConsensusOutcome event) c).queues = c.queues := by
      rcases after_handleConsensusOutcome_unresolved hresolved with h | h
      · rw [h]
        rfl
      · rw [h]
        rfl
    refine ⟨continues_of_voting (by rw [hqueues]), thins_of_kept ?_⟩
    unfold buffer
    rw [hqueues]
  | some request =>
    have hvoting : (c.handed event request).queues.votingProposals =
        c.queues.votingProposals.erase event.fields.1 :=
      congrArg Prod.fst (tracked_applyConsensusResult P.mls
        (c.queues.markConsensusOutcomeApplied event.fields.1) event.fields.1 event.fields.2.1
        request)
    have hbuffer : (c.handed event request).buffer = c.buffer :=
      congrArg OrderedMap.entries (pendingUpdates_applyConsensusResult P.mls
        (c.queues.markConsensusOutcomeApplied event.fields.1) event.fields.1 event.fields.2.1
        request)
    have hhanded : Pursues c (c.handed event request) :=
      ⟨continues_of_erase hvoting, thins_of_kept hbuffer⟩
    refine hhanded.trans (pursues_of_path ?_)
    rw [after_handleConsensusOutcome_resolved hresolved]
    refine along_bind pursuit_pursues.replayEarlyCandidates (fun _ => ?_) (c.handed event request)
    exact along_bind (pursues_followUp _) fun _ => pursuit_pursues.afterFollowUp _ _

/-- An outcome approves the request it is of, or the removal it asks for. -/
theorem approved_handleConsensusOutcome {event : ConsensusEvent} {c : Conversation P}
    {r : ConversationUpdateRequest}
    (hr : r ∈ (after (handleConsensusOutcome event) c).queues.approvedProposals.values) :
    r ∈ c.queues.approvedProposals.values ∨ ∃ request, c.resolved event.fields.1 = some request ∧
      ∀ target, Ousts r target → Ousts request target := by
  have hledger := (handleConsensusOutcome_effect event c).2
  cases hresolved : c.resolved event.fields.1 with
  | none =>
    rw [hresolved] at hledger
    rw [show (after (handleConsensusOutcome event) c).queues.approvedProposals =
      c.queues.approvedProposals from congrArg Prod.fst hledger] at hr
    exact .inl hr
  | some request =>
    rw [hresolved] at hledger
    have heffect : OutcomeEffect P.mls c.queues event.fields.1 event.fields.2.1 request
        (c.applied event request).1 (after (handleConsensusOutcome event) c).queues.ledger := by
      rw [hledger]
      exact (applyConsensusResult_effect _ _ _ _ _).of_marked
    rw [show (after (handleConsensusOutcome event) c).queues.approvedProposals =
      (after (handleConsensusOutcome event) c).queues.ledger.1 from rfl] at hr
    generalize (after (handleConsensusOutcome event) c).queues.ledger = ledger at heffect hr
    have hinserted : ∀ r', r ∈ (c.queues.approvedProposals.insert event.fields.1 r').values →
        r ∈ c.queues.approvedProposals.values ∨ r = r' := by
      intro r' hr'
      obtain ⟨id, hid⟩ := OrderedMap.mem_values.mp hr'
      rcases OrderedMap.mem_insert.mp hid with h | ⟨h, -⟩
      · exact .inr (congrArg Prod.snd h)
      · exact .inl (OrderedMap.mem_values.mpr ⟨id, h⟩)
    cases heffect with
    | kept => exact .inl hr
    | @urgent ev _ _ hpayload hscore _ =>
      rcases hinserted _ hr with hr | rfl
      · exact .inl hr
      · refine .inr ⟨request, rfl, fun target hremoves => .inr ⟨ev, hpayload, hscore, ?_⟩⟩
        rcases hremoves with hremoves | ⟨evidence, hpayload, -, -⟩
        · simpa [removalRequestFor] using hremoves
        · cases hpayload
    | queued =>
      rcases hinserted _ hr with hr | rfl
      · exact .inl hr
      · exact .inr ⟨r, rfl, fun _ => id⟩

/-! ## Runs -/

/-- What a member does with the changes it hears of, and its own. -/
inductive Dealing
  | incomingProposal (proposal : Proposal)
  | updateRequest (request : ConversationUpdateRequest)
  | ownProposal (request : ConversationUpdateRequest) (v : CreatorVote)
  | sponsor (keyPackageBytes : Bytes)
  | leave
  | outcome (event : ConsensusEvent)
  /-- Anything that takes no change in. -/
  | other

inductive Deals : Conversation P → Dealing → Conversation P → Prop
  | incomingProposal (c : Conversation P) (proposal : Proposal) :
      Deals c (.incomingProposal proposal) (after (onIncomingProposal proposal) c)
  | updateRequest (c : Conversation P) (request : ConversationUpdateRequest) :
      Deals c (.updateRequest request) (after (handleIncomingUpdateRequest request) c)
  | ownProposal (c : Conversation P) (request : ConversationUpdateRequest) (v : CreatorVote) :
      Deals c (.ownProposal request v) (after (initiateProposal request v) c)
  | sponsor (c : Conversation P) (keyPackageBytes : Bytes) :
      Deals c (.sponsor keyPackageBytes) (after (sponsorMember keyPackageBytes) c)
  | leave (c : Conversation P) : Deals c .leave (after initiateSelfLeave c)
  | outcome (c : Conversation P) (event : ConsensusEvent) :
      Deals c (.outcome event) (after (handleConsensusOutcome event) c)
  | other {c d : Conversation P} (hvoting : d.queues.votingProposals = c.queues.votingProposals)
      (hbuffer : ∀ e ∈ d.buffer, e ∈ c.buffer)
      (happroved : ∀ r ∈ d.queues.approvedProposals.values, r ∈ c.queues.approvedProposals.values) :
      Deals c .other d

/-- The change a step takes in from outside. -/
def Dealing.brings (c : Conversation P) : Dealing → ConversationUpdateRequest → Prop
  | .incomingProposal proposal, request => requestOf P proposal = some request
  | .updateRequest request', request => request = request'
  | .ownProposal request' _, request => request = request'
  | .sponsor keyPackageBytes, request => request = .memberInvite keyPackageBytes
  | .leave, request => request = .removeMember c.selfMemberId
  | .outcome event, request => c.resolved event.fields.1 = some request
  | .other, _ => False

/-- The changes that may enter the vote in a step. -/
def Dealing.enters (c : Conversation P) : Dealing → ConversationUpdateRequest → Prop
  | .outcome _, request => c.Follows request
  | i, request => i.brings c request

/-- A step, with the agendas around it. -/
def Books (s : Conversation P × Agenda) (i : Dealing) (t : Conversation P × Agenda) : Prop :=
  Deals s.1 i t.1 ∧ t.1.queues.Describes P.mls t.2 ∧
    ∀ id request, t.2 id = some request → s.2 id = some request ∨ i.enters s.1 request

/-- **Steps.** -/
theorem Deals.takesIn {c d : Conversation P} {i : Dealing} (h : Deals c i d) :
    Admits (i.enters c) (i.brings c) c d := by
  cases h with
  | incomingProposal proposal =>
    exact admits_of_path (admits_onIncomingProposal (fun request h => ⟨h, h⟩) c)
  | updateRequest request =>
    have hown : Dealing.brings c (.updateRequest request) request := rfl
    exact admits_of_path (admits_handleIncomingUpdateRequest hown hown c)
  | ownProposal request v =>
    have hown : Dealing.brings c (.ownProposal request v) request := rfl
    exact admits_initiateProposal hown v c
  | sponsor keyPackageBytes =>
    have hown : Dealing.brings c (.sponsor keyPackageBytes) (.memberInvite keyPackageBytes) := rfl
    refine admits_of_path ?_
    unfold sponsorMember
    refine along_bind along_get (fun d => along_ite (along_pure _) (along_ite ?_ ?_)) c
    · unfold proposeAdd
      refine along_bind (along_ofResult _) fun keyPackage => along_bind along_get fun d => ?_
      exact along_ite (along_throw _) (along_step fun d => admits_initiateProposal hown _ d)
    · refine along_bind (along_ofResult _) fun keyPackage => along_ite (along_pure _) ?_
      exact along_step fun d => takesIn_insertPendingUpdate hown
  | leave => exact admits_initiateSelfLeave rfl
  | outcome event =>
    have hpursues := pursues_handleConsensusOutcome event c
    exact ⟨hpursues.agenda, fun e he => .inl (hpursues.buffer e he),
      fun r hr => approved_handleConsensusOutcome hr⟩
  | other hvoting hbuffer happroved =>
    exact ⟨continues_of_voting hvoting, fun e he => .inl (hbuffer e he),
      fun r hr => .inl (happroved r hr)⟩

/-! ## Joins -/

/-- No invite buffered, in voting or approved is of this key. -/
structure Uninvited (agenda : Agenda) (c : Conversation P) (key : Bytes) : Prop where
  buffered : ∀ e ∈ c.buffer, invitesMember P.mls e.2.request key = false
  voting : ∀ id request, agenda id = some request → invitesMember P.mls request key = false
  approved : c.queues.hasApprovedInvite P.mls key = false

/-- No removal buffered, in voting or approved is of these bytes. -/
structure Unremoved (agenda : Agenda) (c : Conversation P) (key : Bytes) : Prop where
  buffered : ∀ e ∈ c.buffer, removesMember e.2.request key = false
  voting : ∀ id request, agenda id = some request → ¬ Ousts request key
  approved : c.queues.hasApprovedRemoval key = false

/-- The conversation with an invite buffered. -/
def buffering (keyPackageBytes : Bytes) (epoch : Nat) (c : Conversation P) : Conversation P :=
  { c with queues := c.queues.insertPendingUpdate P.mls (.memberInvite keyPackageBytes) epoch }

/-- The invite is taken: the buffer stores it, the dedup of our own proposals lets it pass, and the
drain returns it unless its key is a member's id. -/
structure Unshadowed (c : Conversation P) (keyPackageBytes key : Bytes) : Prop where
  stored : ∀ epoch, (c.buffering keyPackageBytes epoch).queues.pendingUpdates.find? key =
    some ⟨.memberInvite keyPackageBytes, epoch⟩
  returned : c.queues.isNewUpdate P.mls (.memberInvite keyPackageBytes) = true
  proposed : c.skips (.memberInvite keyPackageBytes) = false
  drained : ∀ epoch, .memberInvite keyPackageBytes ∈
    (c.buffering keyPackageBytes epoch).actionableBufferedUpdates ↔ key ∉ c.members

/-- Neither the buffer nor a proposal in flight goes by the key. -/
def Free (c : Conversation P) (key : Bytes) : Prop :=
  c.queues.pendingUpdates.contains key = false ∧ key ∉ c.queues.activeProposalTargets P.mls

theorem targetMemberIdOf_memberInvite {O : OpenMls} {keyPackageBytes key : Bytes}
    (hkey : signatureKeyOfKeyPackage O keyPackageBytes = .ok key) :
    targetMemberIdOf O (.memberInvite keyPackageBytes) = some key :=
  targetMemberIdOf_eq_some_iff.mpr (.inl (invitesMember_memberInvite.mpr hkey))

/-- An invite is taken exactly if its key is free. -/
theorem unshadowed_iff_free {c : Conversation P} {keyPackageBytes key : Bytes} (hc : c.Keyed)
    (hkey : signatureKeyOfKeyPackage P.mls keyPackageBytes = .ok key) :
    c.Unshadowed keyPackageBytes key ↔ c.Free key := by
  have htarget := targetMemberIdOf_memberInvite hkey
  have hflight : inFlightTarget P.mls (.memberInvite keyPackageBytes) = some key :=
    inFlightTarget_eq_some_iff.mpr (.inl (invitesMember_memberInvite.mpr hkey))
  have hnew : c.queues.isNewUpdate P.mls (.memberInvite keyPackageBytes) =
      !c.queues.pendingUpdates.contains key := by
    unfold isNewUpdate
    rw [htarget]
  have hskips : c.skips (.memberInvite keyPackageBytes) =
      decide (key ∈ c.queues.activeProposalTargets P.mls) := by
    unfold skips
    rw [hflight]
    rfl
  constructor
  · intro h
    refine ⟨by simpa [hnew] using h.returned, ?_⟩
    simpa [hskips] using h.proposed
  · rintro ⟨hempty, hidle⟩
    have hbuffering : ∀ epoch, (c.buffering keyPackageBytes epoch).queues =
        { c.queues with pendingUpdates :=
            c.queues.pendingUpdates.insert key ⟨.memberInvite keyPackageBytes, epoch⟩ } := by
      intro epoch
      unfold buffering ConversationQueues.insertPendingUpdate
      simp [htarget, hempty]
    refine ⟨fun epoch => ?_, by simp [hnew, hempty], by simp [hskips, hidle], fun epoch => ?_⟩
    · rw [hbuffering, OrderedMap.find?_insert, if_pos rfl]
    · rw [mem_actionableBufferedUpdates]
      have hmem : ∀ e, e ∈ (c.buffering keyPackageBytes epoch).buffer ↔
          e = (key, ⟨.memberInvite keyPackageBytes, epoch⟩) ∨ e ∈ c.buffer ∧ e.1 ≠ key := by
        intro e
        unfold buffer
        rw [hbuffering]
        exact OrderedMap.mem_insert
      constructor
      · rintro ⟨e, he, -, hpasses, hrequest⟩
        rw [hrequest] at hpasses
        rcases (hmem e).mp he with rfl | ⟨he, hother⟩
        · exact hpasses
        · -- The buffer is keyed, so no other entry holds the invite.
          have hheld := hc e he
          rw [hrequest, htarget] at hheld
          exact absurd (Option.some.inj hheld).symm hother
      · intro hout
        refine ⟨_, (hmem _).mpr (.inl rfl), ?_, hout, rfl⟩
        rw [hbuffering]
        exact hidle

/-- A key that no invite is of is free exactly if no removal is of it. -/
theorem free_iff_unremoved {c : Conversation P} {agenda : Agenda} {key : Bytes} (hc : c.Keyed)
    (hagenda : c.queues.Describes P.mls agenda) (huninvited : Uninvited agenda c key) :
    c.Free key ↔ Unremoved agenda c key := by
  have hcontains : c.queues.pendingUpdates.contains key = true ↔ ∃ e ∈ c.buffer, e.1 = key := by
    simp [OrderedMap.contains, buffer]
  have hentry : ∀ m, m ∈ c.queues.votingProposals.values ↔
      ∃ id request, agenda id = some request ∧ metaOf P.mls request = m := by
    intro m
    rw [OrderedMap.mem_values]
    refine exists_congr fun id => ?_
    rw [← OrderedMap.find?_eq_some_iff, hagenda id, Option.map_eq_some_iff]
  constructor
  · rintro ⟨hempty, hidle⟩
    refine ⟨fun e he => ?_, fun id request hrequest housts => hidle ?_, ?_⟩
    · rw [Bool.eq_false_iff]
      intro hremoves
      have htarget : targetMemberIdOf P.mls e.2.request = some key :=
        targetMemberIdOf_eq_some_iff.mpr (.inr hremoves)
      have hkey : e.1 = key := Option.some.inj ((hc e he).symm.trans htarget)
      rw [hcontains.mpr ⟨e, he, hkey⟩] at hempty
      cases hempty
    · have hvoting : metaOf P.mls request ∈ c.queues.votingProposals.values :=
        (hentry _).mpr ⟨id, request, hrequest, rfl⟩
      refine mem_activeProposalTargets.mpr (.inl ⟨_, hvoting, ?_⟩)
      exact inFlightTarget_eq_some_iff.mpr (.inr housts)
    · rw [Bool.eq_false_iff]
      intro hremoval
      obtain ⟨r, hr, hremoves⟩ := List.any_eq_true.mp hremoval
      refine hidle (mem_activeProposalTargets.mpr (.inr ⟨r, hr, ?_⟩))
      exact targetMemberIdOf_eq_some_iff.mpr (.inr hremoves)
  · rintro ⟨hbuffered, hvoting, happroved⟩
    refine ⟨Bool.eq_false_iff.mpr fun hheld => ?_, fun hactive => ?_⟩
    · obtain ⟨e, he, hkey⟩ := hcontains.mp hheld
      have htarget := hc e he
      rw [hkey] at htarget
      rcases targetMemberIdOf_eq_some_iff.mp htarget with hinvites | hremoves
      · rw [huninvited.buffered e he] at hinvites
        cases hinvites
      · rw [hbuffered e he] at hremoves
        cases hremoves
    · rcases mem_activeProposalTargets.mp hactive with ⟨m, hm, htarget⟩ | ⟨r, hr, htarget⟩
      · obtain ⟨id, request, hrequest, rfl⟩ := (hentry m).mp hm
        rcases inFlightTarget_eq_some_iff.mp htarget with hinvites | housts
        · rw [huninvited.voting id request hrequest] at hinvites
          cases hinvites
        · exact hvoting id request hrequest housts
      · rcases targetMemberIdOf_eq_some_iff.mp htarget with hinvites | hremoves
        · have hinvite := huninvited.approved
          rw [show c.queues.hasApprovedInvite P.mls key = true from
            List.any_eq_true.mpr ⟨r, hr, hinvites⟩] at hinvite
          cases hinvite
        · rw [show c.queues.hasApprovedRemoval key = true from
            List.any_eq_true.mpr ⟨r, hr, hremoves⟩] at happroved
          cases happroved

/-! ## What a run keeps -/

/-- In every state of a run the agenda is that of the queues, and the buffer is keyed. -/
structure InBooks (s : Conversation P × Agenda) : Prop where
  agenda : s.1.queues.Describes P.mls s.2
  keyed : s.1.Keyed

/-- No change that is buffered, in voting or approved takes the key out. -/
structure Spares (key : Bytes) (s : Conversation P × Agenda) : Prop where
  buffered : ∀ e ∈ s.1.buffer, ¬ Ousts e.2.request key
  voting : ∀ id request, s.2 id = some request → ¬ Ousts request key
  approved : ∀ r ∈ s.1.queues.approvedProposals.values, ¬ Ousts r key

/-- A run starts with nothing in the queues. -/
def Blank (s : Conversation P × Agenda) : Prop := s.1.Fresh ∧ s.2 = fun _ => none

theorem inBooks_of_blank {s : Conversation P × Agenda} (h : Blank s) : InBooks s := by
  obtain ⟨⟨id, window, hqueues⟩, hagenda⟩ := h
  refine ⟨fun j => ?_, fun e he => ?_⟩
  · rw [hqueues, hagenda]
    rfl
  · unfold buffer at he
    rw [hqueues] at he
    cases he

theorem spares_of_blank {s : Conversation P × Agenda} (h : Blank s) (key : Bytes) :
    Spares key s := by
  obtain ⟨⟨id, window, hqueues⟩, hagenda⟩ := h
  refine ⟨fun e he => ?_, fun j request hrequest => ?_, fun r hr => ?_⟩
  · unfold buffer at he
    rw [hqueues] at he
    cases he
  · rw [hagenda] at hrequest
    cases hrequest
  · rw [hqueues] at hr
    cases hr

theorem InBooks.step {s t : Conversation P × Agenda} {i : Dealing} (hs : InBooks s)
    (h : Books s i t) : InBooks t := by
  obtain ⟨hdeals, hagenda, -⟩ := h
  refine ⟨hagenda, fun e he => ?_⟩
  rcases hdeals.takesIn.buffered e he with he | ⟨htarget, -⟩
  · exact hs.keyed e he
  · exact htarget

theorem Dealing.enters_cases {i : Dealing} {c : Conversation P}
    {request : ConversationUpdateRequest} (h : i.enters c request) :
    i.brings c request ∨ c.Follows request := by
  cases i with
  | outcome event => exact .inr h
  | _ => exact .inl h

/-- A step that brings no removal of the key leaves none. -/
theorem Spares.step {key : Bytes} {s t : Conversation P × Agenda} {i : Dealing}
    (hs : Spares key s) (h : Books s i t)
    (hbrings : ∀ request, i.brings s.1 request → ¬ Ousts request key) : Spares key t := by
  obtain ⟨hdeals, -, henters⟩ := h
  refine ⟨fun e he => ?_, fun id request hrequest => ?_, fun r hr => ?_⟩
  · rcases hdeals.takesIn.buffered e he with he | ⟨-, hbrought⟩
    · exact hs.buffered e he
    · exact hbrings _ hbrought
  · rcases henters id request hrequest with hheld | hentered
    · exact hs.voting id request hheld
    rcases Dealing.enters_cases hentered with hbrought | hnobody | ⟨e, he, rfl⟩
    · exact hbrings request hbrought
    · intro housts
      rw [inFlightTarget_eq_some_iff.mpr (.inr housts)] at hnobody
      cases hnobody
    · exact hs.buffered e he
  · rcases hdeals.takesIn.approved r hr with hr | ⟨request, hbrought, housts⟩
    · exact hs.approved r hr
    · exact fun h => hbrings request hbrought (housts key h)

theorem Spares.unremoved {key : Bytes} {c : Conversation P} {agenda : Agenda}
    (h : Spares key (c, agenda)) : Unremoved agenda c key where
  buffered e he := Bool.eq_false_iff.mpr fun hremoves => h.buffered e he (.inl hremoves)
  voting := h.voting
  approved := by
    rw [Bool.eq_false_iff]
    intro hremoval
    obtain ⟨r, hr, hremoves⟩ := List.any_eq_true.mp hremoval
    exact h.approved r hr (.inl hremoves)

/-- **Joins.** In every run an invite that nothing names is taken exactly if no removal buffered, in
voting or approved is of its key; it is if the run brought none. Every step has its agenda. -/
theorem invite_unshadowed_iff
    {steps : List ((Conversation P × Agenda) × Dealing × Conversation P × Agenda)}
    {c : Conversation P} {agenda : Agenda} (h : Trace Blank Books steps (c, agenda)) :
    (∀ i d, Deals c i d → ∃ agenda', Books (c, agenda) i (d, agenda')) ∧
    ∀ keyPackageBytes key, signatureKeyOfKeyPackage P.mls keyPackageBytes = .ok key →
      Uninvited agenda c key →
      (c.Unshadowed keyPackageBytes key ↔ Unremoved agenda c key) ∧
      ((∀ e ∈ steps, ∀ request, e.2.1.brings e.1.1 request → ¬ Ousts request key) →
        c.Unshadowed keyPackageBytes key) := by
  have hbooks : InBooks (c, agenda) := by
    generalize (c, agenda) = s at h
    induction h with
    | start hblank => exact inBooks_of_blank hblank
    | next _ hstep ih => exact ih.step hstep
  refine ⟨fun i d hdeals => ?_, fun keyPackageBytes key hkey huninvited => ?_⟩
  · obtain ⟨agenda', hagenda', henters⟩ := hdeals.takesIn.agenda agenda hbooks.agenda
    exact ⟨agenda', hdeals, hagenda', henters⟩
  have hexact : c.Unshadowed keyPackageBytes key ↔ Unremoved agenda c key :=
    (unshadowed_iff_free hbooks.keyed hkey).trans
      (free_iff_unremoved hbooks.keyed hbooks.agenda huninvited)
  refine ⟨hexact, fun hbrings => hexact.mpr (Spares.unremoved ?_)⟩
  generalize (c, agenda) = s at h
  clear hexact huninvited hbooks
  induction h with
  | start hblank => exact spares_of_blank hblank key
  | next _ hstep ih =>
    have hpast := ih fun e he => hbrings e (List.mem_append_left _ he)
    exact hpast.step hstep (hbrings _ (List.mem_append_right _ (List.mem_singleton_self _)))

end Conversation

namespace Ideal

/-- A peer's removal of these bytes is in voting. -/
def ousting (target : Bytes) : Conversation platform := tracked 2 (.removeMember target) start

def oustingAgenda (target : Bytes) : Agenda :=
  fun id => if id = 2 then some (.removeMember target) else none

/-- The removal is the first thing a member hears of. -/
theorem trace_ousting (target : Bytes) : Trace Conversation.Blank Conversation.Books
    [((start, fun _ => none), .incomingProposal (proposalOf 2 (.removeMember target)),
      (ousting target, oustingAgenda target))] (ousting target, oustingAgenda target) := by
  have hdeals : Conversation.Deals start (.incomingProposal (proposalOf 2 (.removeMember target)))
      (ousting target) := .incomingProposal _ _
  refine Trace.next (.start ⟨⟨[], 10, rfl⟩, rfl⟩) ⟨hdeals, fun id => ?_, fun id request h => ?_⟩
  · show (OrderedMap.empty.insert 2 _).find? id = _
    rw [OrderedMap.find?_insert, OrderedMap.find?_empty]
    dsimp only [oustingAgenda]
    split_ifs <;> rfl
  · dsimp only [oustingAgenda] at h
    split_ifs at h
    cases h
    exact .inr rfl

end Ideal

/-- A removal of a member is in voting, and the invite of a joiner is taken. -/
theorem joiner_unshadowed : (Ideal.ousting (memberIdOf 2)).Unshadowed [13] [13] := by
  refine ((Conversation.invite_unshadowed_iff (Ideal.trace_ousting (memberIdOf 2))).2 [13] [13] rfl
    ⟨by decide, fun id request h => ?_, by decide⟩).2 fun e he request hrequest => ?_
  · dsimp only [Ideal.oustingAgenda] at h
    split_ifs at h
    cases h
    decide
  · rw [List.mem_singleton.mp he] at hrequest
    cases hrequest
    rintro (h | ⟨evidence, hpayload, -, -⟩)
    · revert h
      decide
    · cases hpayload

/-- A peer proposes the removal of the joiner's key, which is no member's id. The invite of the
joiner is not stored, not proposed and not returned by the drain, although no invite names it. -/
theorem joiner_shadowed : ∃ steps, ∃ agenda,
    Trace Conversation.Blank Conversation.Books steps (Ideal.ousting [13], agenda) ∧
    [13] ∉ (Ideal.ousting [13]).members ∧
    Conversation.Uninvited agenda (Ideal.ousting [13]) [13] ∧
    (Ideal.ousting [13]).queues.isNewUpdate Ideal.mls (.memberInvite [13]) = false ∧
    ((Ideal.ousting [13]).buffering [13] 1).queues.pendingUpdates.find? [13] =
      some ⟨.removeMember [13], 1⟩ ∧
    (Ideal.ousting [13]).skips (.memberInvite [13]) = true ∧
    .memberInvite [13] ∉ ((Ideal.ousting [13]).buffering [13] 1).actionableBufferedUpdates := by
  refine ⟨_, _, Ideal.trace_ousting [13], by decide,
    ⟨by decide, fun id request h => ?_, by decide⟩, by decide, by decide, by decide, by decide⟩
  dsimp only [Ideal.oustingAgenda] at h
  split_ifs at h
  cases h
  decide

end DeMls
