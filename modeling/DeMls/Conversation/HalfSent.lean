import DeMls.Conversation.Traffic
import DeMls.Conversation.Walk
import DeMls.Ideal

/-!
# Half-sent deeds

A proposal or a vote of our own goes to the local session first and to the wire last, with a
fallible encryption in between. A deed is whole (`Whole`) when the records and the wire agree and
a failed one leaves nothing behind. That depends on where it fails (`whole_iff`): the encryption
fails after the session took the deed, a vote gives its pending auto-vote up before it is cast,
and a leave is tracked before it is submitted.
-/

namespace DeMls

open Program

variable {P : Platform}

/-- Tracking a proposal that is tracked already changes nothing, and another one the table. -/
theorem trackVotingProposal_eq_iff {O : OpenMls} {q : ConversationQueues} {id : ProposalId}
    {request : ConversationUpdateRequest} :
    (q.trackVotingProposal O id request).votingProposals = q.votingProposals ↔
      q.votingProposals.contains id = true := by
  unfold ConversationQueues.trackVotingProposal
  by_cases h : q.votingProposals.contains id = true
  · rw [if_pos h]
    exact iff_of_true rfl h
  · rw [if_neg h]
    refine iff_of_false (fun hsame => h ?_) h
    rw [← hsame]
    exact OrderedMap.contains_insert_iff.mpr (.inl rfl)

/-- A consensus call that fails changes nothing on its side. -/
structure ConsensusService.Atomic (C : ConsensusService) : Prop where
  create : ∀ {st r now e}, (C.createProposalWithConfig st r now).1 = .error e →
    (C.createProposalWithConfig st r now).2 = (st, [])
  castVote : ∀ {st id choice now e}, (C.castVote st id choice now).1 = .error e →
    (C.castVote st id choice now).2 = (st, [])
  processIncomingProposal : ∀ {st proposal now e},
    (C.processIncomingProposal st proposal now).1 = .error e →
      (C.processIncomingProposal st proposal now).2 = (st, [])

namespace Conversation

/-! ## Sending -/

/-- The group encrypts the message. -/
def Seals (c : Conversation P) (message : AppMessage) : Prop :=
  ∃ payload m, MlsService.buildMessage (P.codec.encodeApp message) c.mls = .ok payload m

/-- The conversation with a packet in the outbound buffer. -/
def posting (payload : Bytes) (m : MlsService P.mls) (c : Conversation P) : Conversation P :=
  { c with
    mls := m
    pendingOutbound := c.pendingOutbound ++ [⟨c.conversationId, c.appId, payload⟩] }

theorem sendApp_of_seals {c : Conversation P} {message : AppMessage} {payload : Bytes}
    {m : MlsService P.mls}
    (h : MlsService.buildMessage (P.codec.encodeApp message) c.mls = .ok payload m) :
    (sendApp message : ConvM P Unit) c = .ok () (c.posting payload m) := by
  have hseal : (onMls (MlsService.buildMessage (P.codec.encodeApp message)) : ConvM P _) c =
      .ok payload { c with mls := m } :=
    (zoom_ok _ _ _ _ _ _).mpr ⟨m, h, rfl⟩
  unfold sendApp
  rw [bind_run _ hseal]
  rfl

theorem sendApp_of_not_seals {c : Conversation P} {message : AppMessage} (h : ¬ c.Seals message) :
    ∃ e m, (sendApp message : ConvM P Unit) c = .error e { c with mls := m } := by
  cases hseal : MlsService.buildMessage (P.codec.encodeApp message) c.mls with
  | ok payload m => exact absurd ⟨payload, m, hseal⟩ h
  | error e m =>
    refine ⟨.mls e, m, (bind_error _ _ _ _ _).mpr (.inl ?_)⟩
    exact (zoom_error _ _ _ _ _ _).mpr ⟨e, m, hseal, rfl, rfl⟩

/-! ## Deeds -/

/-- What a member does about a proposal: open one, vote, let the auto-vote fire, or leave. -/
inductive Deed
  | initiate (request : ConversationUpdateRequest) (v : CreatorVote)
  | vote (id : ProposalId) (choice : Bool)
  | autoVote (id : ProposalId) (choice : Bool)
  | leave

/-- Its program; the tick drops an auto-vote before it casts it. -/
def Deed.run : Deed → ConvM P Unit
  | .initiate request v => initiateProposal request v
  | .vote id choice => Conversation.vote id choice
  | .autoVote id choice => do
    cancelAutoVote id
    broadcastVote id choice
  | .leave => Conversation.leave

/-- What the session says to it. -/
inductive Answer
  | unasked
  | refused
  /-- Taken, with the message for the peers; `none` when the vote to bundle is refused. -/
  | taken (message : Option AppMessage)

/-- The proposal a creator sends. -/
def submission (c : Conversation P) (v : CreatorVote) (proposal : Proposal)
    (st : P.consensus.State) : Option AppMessage :=
  match v with
  | .deferred => some ⟨some (.proposal proposal)⟩
  | .yes => (P.consensus.castVoteAndGetProposal st proposal.proposalId true
      (asSecs c.now)).1.toOption.map fun p => ⟨some (.proposal p)⟩

/-- The answer to a vote. -/
def ballot (c : Conversation P) (id : ProposalId) (choice : Bool) : Answer :=
  match (P.consensus.castVote c.consensus id choice (asSecs c.now)).1 with
  | .ok v => .taken (some ⟨some (.vote v)⟩)
  | .error _ => .refused

/-- The answer to a leave. -/
def farewell (c : Conversation P) : Answer :=
  match c.leaveVote with
  | .error _ => .refused
  | .ok v =>
    match (c.admission (c.signedLeave v)).1 with
    | .ok () => .taken (some ⟨some (.proposal (c.signedLeave v))⟩)
    | .error _ => .refused

/-- The answer to a proposal, if it comes to asking. -/
def reception (c : Conversation P) (request : ConversationUpdateRequest) (v : CreatorVote) : Answer :=
  if c.skips request then .unasked
  else
    match (checkProposalAllowed (.of request) : ConvM P Nat) c with
    | .error _ _ => .unasked
    | .ok _ _ =>
      match c.opening request with
      | (.error _, _, _) => .refused
      | (.ok proposal, st, _) => .taken (c.submission v proposal st)

/-- The answer of the local session to a deed. -/
def Deed.answer (a : Deed) (c : Conversation P) : Answer :=
  match a with
  | .initiate request v => c.reception request v
  | .vote id choice => if c.rotating then .unasked else c.ballot id choice
  | .autoVote id choice => c.ballot id choice
  | .leave => if c.queues.isPendingSelfLeave P c.selfMemberId then .unasked else c.farewell

/-- The session took the deed, or the table of proposals in flight did. -/
def Noted (a : Deed) (c d : Conversation P) : Prop :=
  (∃ message, a.answer c = .taken message) ∨ d.queues.votingProposals ≠ c.queues.votingProposals

/-- The message of the deed joined the outbound buffer. -/
def Sent (a : Deed) (c d : Conversation P) : Prop :=
  ∃ message payload m, a.answer c = .taken (some message) ∧
    MlsService.buildMessage (P.codec.encodeApp message) c.mls = .ok payload m ∧
    d.pendingOutbound = c.pendingOutbound ++ [⟨c.conversationId, c.appId, payload⟩]

/-- **No half-sent deed.** What is recorded is sent and what is sent is recorded; and a failed
deed leaves the conversation as it was, so that a later attempt, ours or that of the pending
auto-vote, is a first one. -/
structure Whole (a : Deed) (c : Conversation P) : Prop where
  recorded : Noted a c (after a.run c) ↔ Sent a c (after a.run c)
  undone : ∀ e d, a.run c = .error e d → d = c

/-- The deed has put nothing aside by the time it is refused: no pending auto-vote is given up,
and no leave newly tracked. -/
def Deed.Bare (a : Deed) (c : Conversation P) : Prop :=
  match a with
  | .initiate _ _ => True
  | .vote id _ => c.rotating = true ∨ c.timing.pendingAutoVotes.contains id = false
  | .autoVote id _ => c.timing.pendingAutoVotes.contains id = false
  | .leave => c.queues.isPendingSelfLeave P c.selfMemberId = true ∨
      c.queues.votingProposals.contains (selfLeaveProposalId P c.selfMemberId) = true

/-- Taken, the deed can be bundled and encrypted; not taken, `bare` holds. -/
def Answer.Settles (c : Conversation P) (bare : Prop) : Answer → Prop
  | .taken (some message) => c.Seals message
  | .taken none => False
  | .unasked | .refused => bare

/-- Taken, the deed can be bundled and encrypted; not taken, it has put nothing aside. -/
def Deed.Clear (a : Deed) (c : Conversation P) : Prop := (a.answer c).Settles c (a.Bare c)

/-! ## What a deed does -/

theorem answered_nil (c : Conversation P) : c.answered c.consensus [] = c := by
  unfold answered
  rw [List.append_nil]

/-- A deed that is not taken and changes no proposal in flight is whole when a failure leaves the
conversation as it was. -/
theorem whole_of_untaken {a : Deed} {c : Conversation P}
    (hanswer : ∀ message, a.answer c ≠ .taken message)
    (htable : (after a.run c).queues.votingProposals = c.queues.votingProposals)
    (hundone : ∀ e d, a.run c = .error e d → d = c) : Whole a c where
  recorded := by
    constructor
    · rintro (⟨message, h⟩ | h)
      · exact absurd h (hanswer message)
      · exact absurd htable h
    · rintro ⟨message, -, -, h, -⟩
      exact absurd h (hanswer _)
  undone := hundone

/-- So is one that leaves the conversation as it was in any case. -/
theorem whole_of_idle {a : Deed} {c : Conversation P}
    (hanswer : ∀ message, a.answer c ≠ .taken message)
    (hrun : a.run c = .ok () c ∨ ∃ e, a.run c = .error e c) : Whole a c := by
  rcases hrun with hrun | ⟨e, hrun⟩
  · refine whole_of_untaken hanswer (by rw [after_of_ok hrun]) fun e d herror => ?_
    rw [hrun] at herror
    cases herror
  · refine whole_of_untaken hanswer (by rw [after_of_error hrun]) fun e' d herror => ?_
    rw [hrun] at herror
    cases herror
    rfl

/-- A deed that is taken, sent and succeeds is whole. -/
theorem whole_of_sent {a : Deed} {c d : Conversation P} {message : AppMessage} {payload : Bytes}
    {m : MlsService P.mls} (hanswer : a.answer c = .taken (some message))
    (hseal : MlsService.buildMessage (P.codec.encodeApp message) c.mls = .ok payload m)
    (hrun : a.run c = .ok () d)
    (hbuffer : d.pendingOutbound = c.pendingOutbound ++ [⟨c.conversationId, c.appId, payload⟩]) :
    Whole a c where
  recorded := by
    rw [after_of_ok hrun]
    exact iff_of_true (.inl ⟨_, hanswer⟩) ⟨message, payload, m, hanswer, hseal, hbuffer⟩
  undone := by
    intro e d' herror
    rw [hrun] at herror
    cases herror

/-- A deed that is taken and fails before the wire is not. -/
theorem not_whole_of_unsent {a : Deed} {c d : Conversation P} {message : Option AppMessage}
    {e : ConversationError} (hanswer : a.answer c = .taken message) (hrun : a.run c = .error e d)
    (hbuffer : d.pendingOutbound = c.pendingOutbound) : ¬ Whole a c := by
  intro h
  obtain ⟨_, _, _, _, _, hgrown⟩ := h.recorded.mp (.inl ⟨message, hanswer⟩)
  rw [after_of_error hrun, hbuffer] at hgrown
  exact absurd hgrown (by simp)

/-! ### Votes -/

/-- A vote of ours, cast and sent. -/
theorem broadcastVote_run (id : ProposalId) (choice : Bool) (c : Conversation P) :
    (∃ v st outs, P.consensus.castVote c.consensus id choice (asSecs c.now) = (.ok v, st, outs) ∧
      broadcastVote id choice c = sendApp ⟨some (.vote v)⟩ (c.answered st outs)) ∨
    ∃ e st outs, P.consensus.castVote c.consensus id choice (asSecs c.now) = (.error e, st, outs) ∧
      broadcastVote id choice c = .error (.consensus e) (c.answered st outs) := by
  rcases hcall : P.consensus.castVote c.consensus id choice (asSecs c.now) with ⟨_ | v, st, outs⟩
  · refine .inr ⟨_, st, outs, rfl, ?_⟩
    unfold broadcastVote
    rw [bind_run _ (get_apply c)]
    exact (bind_error _ _ _ _ _).mpr (.inl (onConsensus_error hcall))
  · refine .inl ⟨v, st, outs, rfl, ?_⟩
    unfold broadcastVote
    rw [bind_run _ (get_apply c), bind_run _ (onConsensus_ok hcall)]

/-- The pending auto-vote of a proposal is given up. -/
def withoutAutoVote (id : ProposalId) (c : Conversation P) : Conversation P :=
  { c with timing := { c.timing with pendingAutoVotes := c.timing.pendingAutoVotes.erase id } }

theorem withoutAutoVote_eq_iff {id : ProposalId} {c : Conversation P} :
    c.withoutAutoVote id = c ↔ c.timing.pendingAutoVotes.contains id = false := by
  rw [← OrderedMap.erase_eq_self_iff]
  constructor
  · exact fun h => congrArg (fun c => c.timing.pendingAutoVotes) h
  · intro h
    unfold withoutAutoVote
    rw [h]

/-- Giving the auto-vote up and voting: whole exactly when the vote is cast and encrypted, or
refused with no auto-vote given up. -/
theorem whole_ballot_iff (hC : P.consensus.Atomic) {a : Deed} {c : Conversation P}
    {id : ProposalId} {choice : Bool} (hanswer : a.answer c = c.ballot id choice)
    (hrun : (a.run : ConvM P Unit) c = broadcastVote id choice (c.withoutAutoVote id)) :
    Whole a c ↔
      (c.ballot id choice).Settles c (c.timing.pendingAutoVotes.contains id = false) := by
  rcases broadcastVote_run id choice (c.withoutAutoVote id) with
    ⟨v, st, outs, hcall, hcast⟩ | ⟨e, st, outs, hcall, hcast⟩
  · have hcall : P.consensus.castVote c.consensus id choice (asSecs c.now) = (.ok v, st, outs) := hcall
    have hballot : c.ballot id choice = .taken (some ⟨some (.vote v)⟩) := by
      unfold ballot
      rw [hcall]
    rw [hballot] at hanswer ⊢
    by_cases hseals : c.Seals ⟨some (.vote v)⟩
    · refine iff_of_true ?_ hseals
      obtain ⟨payload, m, hseal⟩ := hseals
      have hsent := sendApp_of_seals (c := (c.withoutAutoVote id).answered st outs) hseal
      exact whole_of_sent hanswer hseal (hrun.trans (hcast.trans hsent)) rfl
    · obtain ⟨e, m, hfail⟩ :=
        sendApp_of_not_seals (c := (c.withoutAutoVote id).answered st outs) hseals
      exact iff_of_false (not_whole_of_unsent hanswer (hrun.trans (hcast.trans hfail)) rfl) hseals
  · have hcall : P.consensus.castVote c.consensus id choice (asSecs c.now) = (.error e, st, outs) :=
      hcall
    have hballot : c.ballot id choice = .refused := by
      unfold ballot
      rw [hcall]
    have hatomic := hC.castVote (congrArg Prod.fst hcall)
    rw [hcall] at hatomic
    cases hatomic
    have hfails : (a.run : ConvM P Unit) c = .error (.consensus e) (c.withoutAutoVote id) :=
      (hrun.trans hcast).trans (congrArg _ (answered_nil (c.withoutAutoVote id)))
    rw [hballot] at hanswer ⊢
    show Whole a c ↔ c.timing.pendingAutoVotes.contains id = false
    rw [← withoutAutoVote_eq_iff]
    constructor
    · exact fun h => h.undone _ _ hfails
    · intro hsame
      rw [hsame] at hfails
      refine whole_of_untaken (fun _ h => ?_) ?_ fun e' d herror => ?_
      · rw [hanswer] at h
        cases h
      · rw [after_of_error hfails]
      · rw [hfails] at herror
        cases herror
        rfl

/-! ### Proposals -/

/-- A proposal that is not taken leaves the conversation as it was. -/
theorem initiateProposal_untaken (hC : P.consensus.Atomic) {request : ConversationUpdateRequest}
    {v : CreatorVote} {c : Conversation P}
    (hanswer : ∀ message, c.reception request v ≠ .taken message) :
    initiateProposal request v c = .ok () c ∨ ∃ e, initiateProposal request v c = .error e c := by
  by_cases hskips : c.skips request = true
  · rw [initiateProposal_eq, if_pos hskips]
    exact .inl rfl
  rw [Bool.not_eq_true] at hskips
  cases hgate : (checkProposalAllowed (.of request) : ConvM P Nat) c with
  | error e d =>
    right
    have hsame := (frame_gate id (.of request)).error hgate
    rw [initiateProposal_eq, hskips, if_neg Bool.false_ne_true]
    exact ⟨e, (bind_error _ _ _ _ _).mpr (.inl (hgate.trans (congrArg _ hsame)))⟩
  | ok voters d =>
    rcases initiateProposal_opening v hskips hgate with
      ⟨proposal, st, outs, hopening, hrun⟩ | ⟨e, st, outs, hopening, hrun⟩
    · refine absurd ?_ (hanswer (c.submission v proposal st))
      unfold reception
      rw [hskips, if_neg Bool.false_ne_true, hgate, hopening]
    · have hatomic := hC.create (congrArg Prod.fst hopening)
      have hsame : (st, outs) = (c.consensus, []) := (congrArg Prod.snd hopening).symm.trans hatomic
      cases hsame
      rw [answered_nil] at hrun
      exact .inr ⟨_, hrun⟩

/-- A proposal that is taken is announced by the message to send, or not bundled. -/
theorem initiateProposal_taken {request : ConversationUpdateRequest} {v : CreatorVote}
    {c : Conversation P} {message : Option AppMessage}
    (hanswer : c.reception request v = .taken message) :
    ∃ d : Conversation P, d.mls = c.mls ∧ d.pendingOutbound = c.pendingOutbound ∧
      d.conversationId = c.conversationId ∧ d.appId = c.appId ∧
      ((message = none ∧ ∃ e, initiateProposal request v c = .error e d) ∨
        ∃ (m : AppMessage) (announce : ConvM P Unit), message = some m ∧
          (∀ d, ∃ d', announce d = .ok () d' ∧ d'.pendingOutbound = d.pendingOutbound) ∧
          initiateProposal request v c = (do
            sendApp m
            announce : ConvM P Unit) d) := by
  unfold reception at hanswer
  split_ifs at hanswer with hskips
  rw [Bool.not_eq_true] at hskips
  split at hanswer
  · cases hanswer
  · rename_i voters d hgate
    rcases initiateProposal_opening v hskips hgate with
      ⟨proposal, st, outs, hopening, hrun⟩ | ⟨e, st, outs, hopening, -⟩
    · rw [hopening] at hanswer
      obtain rfl : c.submission v proposal st = message := Answer.taken.inj hanswer
      let opened := c.opened request proposal st outs
      cases v with
      | deferred =>
        refine ⟨opened, rfl, rfl, rfl, rfl, .inr ⟨_, do
          emitEvent (.voteRequested proposal.proposalId request)
          registerAutoVote proposal.proposalId c.config.votingDelay c.config.livenessCriteriaYes,
          rfl, fun d => ⟨_, rfl, rfl⟩, hrun⟩⟩
      | yes =>
        rcases hcast : P.consensus.castVoteAndGetProposal st proposal.proposalId true
          (asSecs c.now) with ⟨e | signed, st', more⟩
        · refine ⟨opened.answered st' more, rfl, rfl, rfl, rfl, .inl ⟨?_, .consensus e, ?_⟩⟩
          · unfold submission
            rw [hcast]
            rfl
          · exact hrun.trans ((bind_error _ _ _ _ _).mpr (.inl (onConsensus_error hcast)))
        · refine ⟨opened.answered st' more, rfl, rfl, rfl, rfl, .inr ⟨_,
            emitEvent (.ownProposalSubmitted proposal.proposalId request), ?_,
            fun d => ⟨_, rfl, rfl⟩, hrun.trans (bind_run _ (onConsensus_ok hcast))⟩⟩
          unfold submission
          rw [hcast]
          rfl
    · rw [hopening] at hanswer
      cases hanswer

/-- A proposal of ours is whole unless its session is opened and it cannot be bundled or
encrypted. -/
theorem whole_initiate_iff (hC : P.consensus.Atomic) (request : ConversationUpdateRequest)
    (v : CreatorVote) (c : Conversation P) :
    Whole (.initiate request v) c ↔ Deed.Clear (.initiate request v) c := by
  have hanswer : Deed.answer (.initiate request v) c = c.reception request v := rfl
  unfold Deed.Clear
  cases hreception : c.reception request v with
  | taken message =>
    obtain ⟨d, hmls, hbuffer, hid, happ, hrun⟩ := initiateProposal_taken hreception
    rw [hreception] at hanswer
    rw [hanswer]
    rcases hrun with ⟨rfl, e, hrun⟩ | ⟨m, announce, rfl, hannounce, hrun⟩
    · exact iff_of_false (not_whole_of_unsent hanswer hrun hbuffer) id
    · by_cases hseals : c.Seals m
      · refine iff_of_true ?_ hseals
        obtain ⟨payload, mls, hseal⟩ := hseals
        have hseal' := hseal
        rw [← hmls] at hseal'
        obtain ⟨d', hd', hgrown⟩ := hannounce (d.posting payload mls)
        refine whole_of_sent hanswer hseal
          (hrun.trans ((bind_run _ (sendApp_of_seals hseal')).trans hd')) ?_
        rw [hgrown, ← hbuffer, ← hid, ← happ]
        rfl
      · have hseals' : ¬ d.Seals m := by
          unfold Seals
          rw [hmls]
          exact hseals
        obtain ⟨e, mls, hfail⟩ := sendApp_of_not_seals hseals'
        have hfails := hrun.trans ((bind_error _ _ _ _ _).mpr (.inl hfail))
        exact iff_of_false (not_whole_of_unsent hanswer hfails hbuffer) hseals
  | unasked =>
    rw [hreception] at hanswer
    rw [hanswer]
    refine iff_of_true (whole_of_idle (fun message h => ?_)
      (initiateProposal_untaken hC fun message h => ?_)) trivial
    · rw [hanswer] at h
      cases h
    · rw [hreception] at h
      cases h
  | refused =>
    rw [hreception] at hanswer
    rw [hanswer]
    refine iff_of_true (whole_of_idle (fun message h => ?_)
      (initiateProposal_untaken hC fun message h => ?_)) trivial
    · rw [hanswer] at h
      cases h
    · rw [hreception] at h
      cases h

/-! ### Leaving -/

/-- The conversation with its leave tracked. -/
def departing (c : Conversation P) : Conversation P := { c with queues := c.leaving }

/-- A leave is tracked, and then sent, or refused or known to the session already. -/
theorem leave_cases {c : Conversation P}
    (hpending : c.queues.isPendingSelfLeave P c.selfMemberId = false) :
    (∃ v st outs, c.leaveVote = .ok v ∧
      c.admission (c.signedLeave v) = (.ok (), st, outs) ∧
      leave c = sendApp ⟨some (.proposal (c.signedLeave v))⟩ (c.departing.answered st outs)) ∨
    (c.farewell = .refused ∧ ∃ st outs,
      (leave c = .ok () (c.departing.answered st outs) ∨
        ∃ e, leave c = .error e (c.departing.answered st outs)) ∧
      (P.consensus.Atomic → (st, outs) = (c.consensus, []))) := by
  have htrack : (modifyQueues fun q => q.trackVotingProposal P.mls
      (selfLeaveProposalId P c.selfMemberId) (.removeMember c.selfMemberId) : ConvM P Unit) c =
        .ok () c.departing := rfl
  unfold leave initiateSelfLeave
  rw [bind_run _ (get_apply c), hpending, if_neg Bool.false_ne_true, bind_run _ htrack]
  cases hvote : c.leaveVote with
  | error e =>
    have hbuild : (ofResult (c.leaveVote.mapError .consensus) : ConvM P Vote) c.departing =
        .error (.consensus e) c.departing := ofResult_of_error hvote _ _
    have hsubmit : (submitSelfLeaveProposal : ConvM P _) c.departing =
        .error (.consensus e) c.departing :=
      (bind_error _ _ _ _ _).mpr
        (.inr ⟨_, _, get_apply _, (bind_error _ _ _ _ _).mpr (.inl hbuild)⟩)
    refine .inr ⟨?_, c.consensus, [], .inr ⟨.consensus e, ?_⟩, fun _ => rfl⟩
    · unfold farewell
      rw [hvote]
    · rw [show c.departing.answered c.consensus [] = c.departing from answered_nil c.departing]
      exact (bind_error _ _ _ _ _).mpr (.inl hsubmit)
  | ok v =>
    have hbuild : (ofResult (c.leaveVote.mapError .consensus) : ConvM P Vote) c.departing =
        .ok v c.departing := ofResult_of_ok hvote _ _
    rcases hcall : c.admission (c.signedLeave v) with ⟨r, st, outs⟩
    have hcall' : (attempt (onConsensus fun st =>
        P.consensus.processIncomingProposal st (c.signedLeave v) (asSecs c.now)) :
          ConvM P (Except ConversationError Unit)) c.departing =
        .ok (r.mapError .consensus) (c.departing.answered st outs) := by
      rw [attempt_onConsensus]
      show EStateM.Result.ok ((c.admission (c.signedLeave v)).1.mapError ConversationError.consensus)
        (c.departing.answered (c.admission (c.signedLeave v)).2.1
          (c.admission (c.signedLeave v)).2.2) = _
      rw [hcall]
    cases r with
    | ok u =>
      have hsubmit : (submitSelfLeaveProposal : ConvM P _) c.departing =
          .ok (some (selfLeaveProposalId P c.selfMemberId, ⟨some (.proposal (c.signedLeave v))⟩))
            (c.departing.answered st outs) :=
        (bind_run _ (get_apply _)).trans ((bind_run _ hbuild).trans (bind_run _ hcall'))
      exact .inl ⟨v, st, outs, rfl, hcall, bind_run _ hsubmit⟩
    | error e =>
      refine .inr ⟨?_, st, outs, ?_, fun hC => ?_⟩
      · unfold farewell
        rw [hvote]
        dsimp only
        rw [hcall]
      · by_cases hknown : e = .proposalAlreadyExist
        · subst hknown
          have hsubmit : (submitSelfLeaveProposal : ConvM P _) c.departing =
              .ok none (c.departing.answered st outs) :=
            (bind_run _ (get_apply _)).trans ((bind_run _ hbuild).trans (bind_run _ hcall'))
          exact .inl (bind_run _ hsubmit)
        · have hsubmit : (submitSelfLeaveProposal : ConvM P _) c.departing =
              .error (.consensus e) (c.departing.answered st outs) := by
            refine (bind_run _ (get_apply _)).trans ((bind_run _ hbuild).trans
              ((bind_run _ hcall').trans ?_))
            cases e <;> first | exact absurd rfl hknown | rfl
          exact .inr ⟨.consensus e, (bind_error _ _ _ _ _).mpr (.inl hsubmit)⟩
      · exact (congrArg Prod.snd hcall).symm.trans (hC.processIncomingProposal (congrArg Prod.fst hcall))

/-- Refused by a service that is atomic, it is tracked and no more. -/
theorem leave_run (hC : P.consensus.Atomic) {c : Conversation P}
    (hpending : c.queues.isPendingSelfLeave P c.selfMemberId = false) :
    (∃ v st outs, c.leaveVote = .ok v ∧
      c.admission (c.signedLeave v) = (.ok (), st, outs) ∧
      leave c = sendApp ⟨some (.proposal (c.signedLeave v))⟩ (c.departing.answered st outs)) ∨
    (c.farewell = .refused ∧
      (leave c = .ok () c.departing ∨ ∃ e, leave c = .error e c.departing)) := by
  rcases leave_cases hpending with hsent | ⟨hrefused, st, outs, hrun, hatomic⟩
  · exact .inl hsent
  · cases hatomic hC
    rw [show c.departing.answered c.consensus [] = c.departing from answered_nil c.departing] at hrun
    exact .inr ⟨hrefused, hrun⟩

/-- A leave is whole unless it is tracked anew and not taken, or taken and not encrypted. -/
theorem whole_leave_iff (hC : P.consensus.Atomic) (c : Conversation P) :
    Whole .leave c ↔ Deed.Clear .leave c := by
  by_cases hpending : c.queues.isPendingSelfLeave P c.selfMemberId = true
  · have hanswer : Deed.leave.answer c = .unasked := if_pos hpending
    unfold Deed.Clear
    rw [hanswer]
    refine iff_of_true (whole_of_idle (fun message h => ?_) (.inl ?_)) (.inl hpending)
    · rw [hanswer] at h
      cases h
    · show leave c = _
      unfold leave initiateSelfLeave
      rw [bind_run _ (get_apply c), if_pos hpending]
      rfl
  have hanswer : Deed.leave.answer c = c.farewell := if_neg hpending
  rw [Bool.not_eq_true] at hpending
  unfold Deed.Clear
  rcases leave_run hC hpending with ⟨v, st, outs, hvote, hcall, hrun⟩ | ⟨hrefused, hrun⟩
  · have htaken : c.farewell = .taken (some ⟨some (.proposal (c.signedLeave v))⟩) := by
      unfold farewell
      rw [hvote]
      dsimp only
      rw [hcall]
    rw [htaken] at hanswer
    rw [hanswer]
    by_cases hseals : c.Seals ⟨some (.proposal (c.signedLeave v))⟩
    · refine iff_of_true ?_ hseals
      obtain ⟨payload, m, hseal⟩ := hseals
      have hsent := sendApp_of_seals (c := c.departing.answered st outs) hseal
      exact whole_of_sent hanswer hseal (hrun.trans hsent) rfl
    · obtain ⟨e, m, hfail⟩ := sendApp_of_not_seals (c := c.departing.answered st outs) hseals
      exact iff_of_false (not_whole_of_unsent hanswer (hrun.trans hfail) rfl) hseals
  · rw [hrefused] at hanswer
    rw [hanswer]
    have hafter : after Deed.leave.run c = c.departing := by
      rcases hrun with hrun | ⟨e, hrun⟩
      · exact after_of_ok hrun
      · exact after_of_error hrun
    have htracked : c.leaving.votingProposals = c.queues.votingProposals ↔
        c.queues.votingProposals.contains (selfLeaveProposalId P c.selfMemberId) = true :=
      trackVotingProposal_eq_iff
    constructor
    · intro h
      refine .inr (htracked.mp ?_)
      by_contra hchanged
      obtain ⟨_, _, _, htaken, -⟩ := h.recorded.mp (.inr (by rw [hafter]; exact hchanged))
      rw [hanswer] at htaken
      cases htaken
    · intro hbare
      have hknown : c.queues.votingProposals.contains (selfLeaveProposalId P c.selfMemberId) = true :=
        hbare.resolve_left (Bool.eq_false_iff.mp hpending)
      have hsame : c.departing = c := by
        unfold departing leaving ConversationQueues.trackVotingProposal
        rw [if_pos hknown]
      rw [hsame] at hrun
      refine whole_of_idle (fun message h => ?_) hrun
      rw [hanswer] at h
      cases h

/-! ### All deeds -/

/-- **No half-sent deed.** A deed is whole exactly when, taken by the session, it can be bundled
and encrypted, and not taken, has put nothing aside. -/
theorem whole_iff (hC : P.consensus.Atomic) (a : Deed) (c : Conversation P) :
    Whole a c ↔ a.Clear c := by
  cases a with
  | initiate request v => exact whole_initiate_iff hC request v c
  | leave => exact whole_leave_iff hC c
  | autoVote id choice => exact whole_ballot_iff hC rfl rfl
  | vote id choice =>
    by_cases hrotating : c.rotating = true
    · have hanswer : Deed.answer (.vote id choice) c = .unasked := if_pos hrotating
      unfold Deed.Clear
      rw [hanswer]
      refine iff_of_true (whole_of_idle (fun message h => ?_) (.inr ?_)) (.inl hrotating)
      · rw [hanswer] at h
        cases h
      · refine ⟨.conversationBlocked c.state, ?_⟩
        show Conversation.vote id choice c = _
        unfold Conversation.vote
        rw [bind_run _ (get_apply c), if_pos (of_decide_eq_true hrotating)]
        rfl
    · have hanswer : Deed.answer (.vote id choice) c = c.ballot id choice := if_neg hrotating
      have hrun : (Deed.run (.vote id choice) : ConvM P Unit) c =
          broadcastVote id choice (c.withoutAutoVote id) := by
        show Conversation.vote id choice c = _
        unfold Conversation.vote
        rw [bind_run _ (get_apply c), if_neg fun h => hrotating (decide_eq_true h)]
        rfl
      have hbare : Deed.Bare (.vote id choice) c ↔
          c.timing.pendingAutoVotes.contains id = false := or_iff_right hrotating
      rw [whole_ballot_iff hC hanswer hrun]
      unfold Deed.Clear
      rw [hanswer, hbare]

end Conversation

/-! ## A group that cannot encrypt -/

namespace Ideal

theorem atomic : ConsensusService.Atomic consensus where
  create h := by cases h
  castVote {st id choice now e} h := by
    change (castIn st id choice now).1.map Prod.fst = .error e at h
    show ((castIn st id choice now).2 : List Proposal × List ConsensusEvent) = (st, [])
    unfold castIn at h ⊢
    split at h
    · rfl
    · cases h
  processIncomingProposal {st proposal now e} h := by
    unfold consensus at h ⊢
    dsimp only at h ⊢
    split_ifs at h ⊢
    · rfl
    · rfl

/-- The plain platform, with a group whose messages cannot be encrypted. -/
def silent : Platform :=
  { platform with mls := { mls with createMessage := fun g _ => (.error "no message", g.secrets) } }

/-- The creator of a group, alone in it. -/
def mute : Conversation silent :=
  { conversationOf 0 0 [[10]] (stewardsOf [0] 0) [] none with
    mls := ⟨[], groupOf 0 0 [[10]], none⟩
    scoring := ⟨[(memberIdOf 0, 100)], ScoreEvent.defaultDelta, ⟨100, 0⟩⟩
    pendingEvents := [.phaseChange .working] }

theorem constructed_mute : Conversation.Constructed mute := by
  have hbase : Conversation.assemble (⟨[], groupOf 0 0 [[10]], none⟩ : MlsService silent.mls)
      ⟨[], ScoreEvent.defaultDelta, ⟨100, 0⟩⟩ [] 0 [0] .default true = .ok mute := by
    rfl
  have hseed : (Conversation.seedInitialMembers [] : ConvM silent Unit) mute = .ok () mute := rfl
  exact .create hbase hseed

end Ideal

open Conversation

/-- An invite opens its session, is tracked, and fails before it is sent. -/
theorem mute_invite_half_sent : Constructed Ideal.mute ∧
    (after (Deed.run (.initiate (.memberInvite [11]) .deferred)) Ideal.mute).consensus.length = 1 ∧
    (after (Deed.run (.initiate (.memberInvite [11]) .deferred)) Ideal.mute).pendingOutbound = [] ∧
    ¬ Whole (.initiate (.memberInvite [11]) .deferred) Ideal.mute := by
  refine ⟨Ideal.constructed_mute, rfl, rfl, fun h => ?_⟩
  obtain ⟨_, _, _, _, _, hgrown⟩ := h.recorded.mp (.inl ⟨_, rfl⟩)
  have hbuffer : (after (Deed.run (.initiate (.memberInvite [11]) .deferred))
      Ideal.mute).pendingOutbound = [] := rfl
  rw [hbuffer] at hgrown
  cases hgrown

/-- A removal that is encrypted is whole. -/
theorem start_removal_whole :
    Whole (.initiate (.removeMember (memberIdOf 2)) .yes) Ideal.start :=
  (whole_iff Ideal.atomic _ _).mpr ⟨_, _, rfl⟩

end DeMls
