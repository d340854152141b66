import DeMls.Conversation.PartialFreeze
import DeMls.Lib.Runs

/-!
# The gates of the partial freeze

While an emergency is active no proposal of lower priority is to be opened here. Proposals of our
own and proposals of peers pass a gate that says so; a self-leave passes none.
`partial_freeze_respected_iff` says which leaves open nothing.
-/

namespace DeMls

open Program Runs Relation

variable {P : Platform}

/-- The kind of a request survives the codec. -/
def Codec.KeepsKind (C : Codec) : Prop :=
  ∀ request, (C.decodeRequest (C.encodeRequest request)).toOption.map ProposalKind.of =
    some (.of request)

namespace Conversation

/-! ## Sessions -/

/-- A session of `st'` is one of `st`, with its payload. -/
def Stays (S : ConsensusService) (st : S.State) (id : ProposalId) (q : Proposal) : Prop :=
  ∃ before, S.getProposal st id = .ok before ∧ q.payload = before.payload

/-- A call opens the session it is asked for, if any, under an id that has none; the payload of a
session stays. -/
structure OpensAsked (S : ConsensusService) : Prop where
  receive : ∀ {st : S.State} {p : Proposal} {now : Nat} {id : ProposalId} {q : Proposal},
    S.getProposal (S.processIncomingProposal st p now).2.1 id = .ok q →
      Stays S st id q ∨
        id = p.proposalId ∧ q.payload = p.payload ∧ ∀ before, S.getProposal st id ≠ .ok before
  refuse : ∀ {st st' : S.State} {r : CreateProposalRequest} {now : Nat} {e : ConsensusError}
    {outs : List ConsensusEvent} {id : ProposalId} {q : Proposal},
    S.createProposalWithConfig st r now = (.error e, st', outs) → S.getProposal st' id = .ok q →
      Stays S st id q
  create : ∀ {st st' : S.State} {r : CreateProposalRequest} {now : Nat} {p : Proposal}
    {outs : List ConsensusEvent} {id : ProposalId} {q : Proposal},
    S.createProposalWithConfig st r now = (.ok p, st', outs) → S.getProposal st' id = .ok q →
      Stays S st id q ∨ q.payload = r.payload
  cast : ∀ {st : S.State} {id j : ProposalId} {choice : Bool} {now : Nat} {q : Proposal},
    S.getProposal (S.castVoteAndGetProposal st id choice now).2.1 j = .ok q → Stays S st j q

theorem kindOf_congr {p q : Proposal} (h : p.payload = q.payload) : kindOf P p = kindOf P q := by
  unfold kindOf requestOf
  rw [h]

theorem kindOf_encodeRequest (hcodec : P.codec.KeepsKind) {proposal : Proposal}
    {request : ConversationUpdateRequest}
    (h : proposal.payload = P.codec.encodeRequest request) : kindOf P proposal = .of request := by
  unfold kindOf requestOf
  rw [h, hcodec request]
  rfl

/-! ## Nothing of lower priority -/

/-- Every entry and every session below an emergency was there before. -/
structure OpensNoLower (f g : InFlight P) : Prop where
  voting : ∀ id entry, g.tracked.1.find? id = some entry → entry.kind ≠ .emergency →
    f.tracked.1.find? id = some entry
  session : ∀ id proposal, P.consensus.getProposal g.consensus id = .ok proposal →
    kindOf P proposal ≠ .emergency → Stays P.consensus f.consensus id proposal

theorem OpensNoLower.of_eq {f g : InFlight P} (htracked : g.tracked.1 = f.tracked.1)
    (hconsensus : g.consensus = f.consensus) : OpensNoLower f g := by
  refine ⟨fun id entry h _ => ?_, fun id proposal h _ => ?_⟩
  · rw [← htracked]
    exact h
  · rw [hconsensus] at h
    exact ⟨proposal, h, rfl⟩

theorem OpensNoLower.trans {f g k : InFlight P} (h : OpensNoLower f g) (h' : OpensNoLower g k) :
    OpensNoLower f k := by
  refine ⟨fun id entry he hkind => h.voting id entry (h'.voting id entry he hkind) hkind, ?_⟩
  intro id proposal hget hkind
  obtain ⟨between, hbetween, hsame⟩ := h'.session id proposal hget hkind
  rw [kindOf_congr hsame] at hkind
  obtain ⟨before, hbefore, hpayload⟩ := h.session id between hbetween hkind
  exact ⟨before, hbefore, hsame.trans hpayload⟩

/-- What the freeze lets through is an emergency. -/
theorem emergency_of_gate {q : ConversationQueues} {kind : ProposalKind}
    (hactive : q.hasActiveEmergency = true) (hgate : q.partialFreezeBlocks kind = false) :
    kind = .emergency := by
  unfold ConversationQueues.partialFreezeBlocks at hgate
  rw [hactive] at hgate
  cases kind with
  | emergency => rfl
  | commit => cases hgate
  | stewardElection => cases hgate

/-- Tracking an emergency makes no entry below one. -/
theorem voting_trackEmergency {O : OpenMls} {q : ConversationQueues} {id : ProposalId}
    {request : ConversationUpdateRequest} (hkind : ProposalKind.of request = .emergency)
    {j : ProposalId} {entry : VotingMeta}
    (h : (trackOwn O id request q).tracked.1.find? j = some entry) (hentry : entry.kind ≠ .emergency) :
    q.votingProposals.find? j = some entry := by
  rw [tracked_trackOwn, find?_trackVotingProposal] at h
  split_ifs at h
  · cases h
    exact absurd hkind hentry
  · exact h

/-! ## The gated operations -/

/-- **A proposal of our own** passes the gate. -/
theorem OpeningEffect.opensNoLower (hsessions : OpensAsked P.consensus)
    (hcodec : P.codec.KeepsKind) {c : Conversation P} {request : ConversationUpdateRequest}
    {f : InFlight P} (h : OpeningEffect c request f) (hactive : c.queues.hasActiveEmergency = true) :
    OpensNoLower c.inFlight f := by
  cases h with
  | refused => exact .of_eq rfl rfl
  | failed hopening =>
    exact ⟨fun _ _ h _ => h, fun _ _ hget _ => hsessions.refuse hopening hget⟩
  | @opened proposal st st' outs more autoVotes hgate hopening hconsensus hvotes =>
    have hkind : ProposalKind.of request = .emergency := emergency_of_gate hactive hgate
    refine ⟨fun id entry h => voting_trackEmergency hkind h, fun id q hget hq => ?_⟩
    -- The creator's vote keeps the payloads.
    have hstays : Stays P.consensus st id q := by
      rcases hconsensus with rfl | rfl
      · exact ⟨q, hget, rfl⟩
      · exact hsessions.cast hget
    obtain ⟨between, hbetween, hsame⟩ := hstays
    rcases hsessions.create hopening hbetween with ⟨before, hbefore, hpayload⟩ | hnew
    · exact ⟨before, hbefore, hsame.trans hpayload⟩
    · exact absurd ((kindOf_encodeRequest hcodec (hsame.trans hnew)).trans hkind) hq

/-- **A received proposal** passes the gate. -/
theorem IncomingEffect.opensNoLower (hsessions : OpensAsked P.consensus) {c : Conversation P}
    {proposal : Proposal} {f : InFlight P} (h : IncomingEffect c proposal f)
    (hactive : c.queues.hasActiveEmergency = true) : OpensNoLower c.inFlight f := by
  have hsession : kindOf P proposal = .emergency → ∀ {r st outs}, c.admission proposal = (r, st, outs) →
      ∀ id q, P.consensus.getProposal st id = .ok q → kindOf P q ≠ .emergency →
        Stays P.consensus c.consensus id q := by
    intro hkind r st outs hcall id q hget hq
    have hst : st = (P.consensus.processIncomingProposal c.consensus proposal (asSecs c.now)).2.1 :=
      congrArg (fun a => a.2.1) hcall.symm
    rw [hst] at hget
    rcases hsessions.receive hget with hstays | ⟨_, hpayload, _⟩
    · exact hstays
    · exact absurd ((kindOf_congr hpayload).trans hkind) hq
  have hvoting : kindOf P proposal = .emergency → ∀ id entry,
      (c.mirrored proposal).tracked.1.find? id = some entry → entry.kind ≠ .emergency →
        c.queues.votingProposals.find? id = some entry := by
    intro hkind id entry h hentry
    unfold mirrored at h
    unfold kindOf at hkind
    cases hrequest : requestOf P proposal with
    | none =>
      rw [hrequest] at h
      exact h
    | some request =>
      rw [hrequest] at h hkind
      dsimp only at h
      rw [tracked_mirrorProposal] at h
      exact voting_trackEmergency hkind h hentry
  cases h with
  | blocked _ => exact .of_eq rfl rfl
  | refused hgate hcall =>
    exact ⟨fun _ _ h _ => h, hsession (emergency_of_gate hactive hgate) hcall⟩
  | accepted hgate hcall _ =>
    have hkind := emergency_of_gate hactive hgate
    exact ⟨hvoting hkind, hsession hkind hcall⟩
  | scheduled hgate hcall _ =>
    have hkind := emergency_of_gate hactive hgate
    exact ⟨hvoting hkind, hsession hkind hcall⟩

theorem hasActiveEmergency_iff {q : ConversationQueues} :
    q.hasActiveEmergency = true ↔ ∃ id, id ∈ q.activeEmergencyIds := by
  unfold ConversationQueues.hasActiveEmergency
  rw [decide_eq_true_eq]
  exact Finset.nonempty_iff_ne_empty.symm

/-- A driver's step opens nothing lower, and ends no emergency. -/
theorem Drift.opensNoLower (hsessions : OpensAsked P.consensus) (hcodec : P.codec.KeepsKind)
    {phases : ConversationState → Prop} {c d : Conversation P} (h : Drift phases c d)
    (hactive : c.queues.hasActiveEmergency = true) :
    OpensNoLower c.inFlight d.inFlight ∧ d.queues.hasActiveEmergency = true := by
  constructor
  · cases h with
    | still h =>
      rw [show d.inFlight = c.inFlight from congrArg Prod.fst h]
      exact .of_eq rfl rfl
    | enter h _ =>
      rw [h]
      exact .of_eq rfl rfl
    | propose request v =>
      exact (initiateProposal_effect request v c).opensNoLower hsessions hcodec hactive
    | unschedule => exact .of_eq rfl rfl
  · obtain ⟨id, hid⟩ := hasActiveEmergency_iff.mp hactive
    exact hasActiveEmergency_iff.mpr ⟨id, h.keeps_emergency hid⟩

/-- **A driver** opens nothing lower. -/
theorem opensNoLower_of_drift (hsessions : OpensAsked P.consensus) (hcodec : P.codec.KeepsKind)
    {α : Type} {x : ConvM P α} (hx : Along (Drift fun _ => True) x) {c : Conversation P}
    (hactive : c.queues.hasActiveEmergency = true) :
    OpensNoLower c.inFlight (after x c).inFlight := by
  have hkept : Preserves (fun d : Conversation P => OpensNoLower c.inFlight d.inFlight ∧
      d.queues.hasActiveEmergency = true) x := by
    refine hx.preserves ?_
    rintro d d' hstep ⟨hpath, hd⟩
    obtain ⟨hnext, hd'⟩ := hstep.opensNoLower hsessions hcodec hd
    exact ⟨hpath.trans hnext, hd'⟩
  exact (hkept c ⟨.of_eq rfl rfl, hactive⟩).1

/-! ## The leave -/

/-- A leave opens a session of its own. -/
def OpensLeave (c : Conversation P) : Prop :=
  ∃ v q, c.leaveVote = .ok v ∧
    P.consensus.getProposal (c.admission (c.signedLeave v)).2.1
      (selfLeaveProposalId P c.selfMemberId) = .ok q ∧
    ∀ before, P.consensus.getProposal c.consensus (selfLeaveProposalId P c.selfMemberId) ≠ .ok before

/-- A leave is held back: the removal is queued already, or the leave is in voting and opens no
session. -/
def LeaveHeld (c : Conversation P) : Prop :=
  c.queues.isPendingSelfLeave P c.selfMemberId = true ∨
    c.queues.votingProposals.contains (selfLeaveProposalId P c.selfMemberId) = true ∧ ¬ c.OpensLeave

/-- Tracking our own leave makes no entry exactly when it has one. -/
theorem voting_leaving_iff (c : Conversation P) :
    (∀ id entry, c.leaving.tracked.1.find? id = some entry → entry.kind ≠ .emergency →
      c.queues.votingProposals.find? id = some entry) ↔
      c.queues.votingProposals.contains (selfLeaveProposalId P c.selfMemberId) = true := by
  have hfind : ∀ id, c.leaving.tracked.1.find? id =
      if id = selfLeaveProposalId P c.selfMemberId ∧
          c.queues.votingProposals.contains (selfLeaveProposalId P c.selfMemberId) = false then
        some ⟨inFlightTarget P.mls (.removeMember c.selfMemberId), .commit⟩
      else c.queues.votingProposals.find? id := find?_trackVotingProposal _ _ _ _
  constructor
  · intro h
    by_contra hnew
    have hnew := Bool.eq_false_iff.mpr hnew
    have hentry := h (selfLeaveProposalId P c.selfMemberId) _
      ((hfind _).trans (if_pos ⟨rfl, hnew⟩)) (by simp)
    rw [OrderedMap.contains_eq_isSome, hentry] at hnew
    cases hnew
  · intro hold id entry h _
    rw [hfind, hold] at h
    simpa using h

/-- A session that a submitted leave leaves behind was there before, unless it is its own. -/
theorem session_leave_iff (hsessions : OpensAsked P.consensus) (hcodec : P.codec.KeepsKind)
    {c : Conversation P} {v : Vote} (hvote : c.leaveVote = .ok v) :
    (∀ id q, P.consensus.getProposal (c.admission (c.signedLeave v)).2.1 id = .ok q →
      kindOf P q ≠ .emergency → Stays P.consensus c.consensus id q) ↔ ¬ c.OpensLeave := by
  constructor
  · rintro h ⟨v', q, hvote', hget, hnew⟩
    cases hvote.symm.trans hvote'
    rcases hsessions.receive hget with ⟨before, hbefore, _⟩ | ⟨_, hpayload, _⟩
    · exact hnew before hbefore
    · have hkind : kindOf P q = .commit := kindOf_encodeRequest hcodec hpayload
      obtain ⟨before, hbefore, _⟩ := h _ q hget (by rw [hkind]; decide)
      exact hnew before hbefore
  · intro h id q hget _
    rcases hsessions.receive hget with hstays | ⟨hid, _, hnew⟩
    · exact hstays
    · have hid : id = selfLeaveProposalId P c.selfMemberId := hid
      rw [hid] at hget hnew
      exact absurd ⟨v, q, hvote, hget, hnew⟩ h

/-- **A leave** passes no gate: it opens nothing lower exactly when it is held back. -/
theorem LeaveEffect.opensNoLower_iff (hsessions : OpensAsked P.consensus)
    (hcodec : P.codec.KeepsKind) {c : Conversation P} {f : InFlight P} (h : LeaveEffect c f) :
    OpensNoLower c.inFlight f ↔ c.LeaveHeld := by
  have hunheld : c.queues.isPendingSelfLeave P c.selfMemberId = false → (c.LeaveHeld ↔
      c.queues.votingProposals.contains (selfLeaveProposalId P c.selfMemberId) = true ∧
        ¬ c.OpensLeave) := by
    intro hpending
    unfold LeaveHeld
    rw [hpending]
    simp
  cases h with
  | pending h => exact iff_of_true (.of_eq rfl rfl) (.inl h)
  | unsigned h hvote =>
    have hnone : ¬ c.OpensLeave := by
      rintro ⟨v, q, hvote', _⟩
      cases hvote.symm.trans hvote'
    rw [hunheld h]
    constructor
    · exact fun hopens => ⟨(voting_leaving_iff c).mp hopens.voting, hnone⟩
    · rintro ⟨hold, _⟩
      exact ⟨(voting_leaving_iff c).mpr hold, fun _ q hget _ => ⟨q, hget, rfl⟩⟩
  | @submitted v r st outs h hvote hcall =>
    have hst : st = (c.admission (c.signedLeave v)).2.1 := congrArg (fun a => a.2.1) hcall.symm
    have hsession := session_leave_iff hsessions hcodec hvote
    rw [hunheld h, ← voting_leaving_iff, ← hsession, hst]
    exact ⟨fun hopens => ⟨hopens.voting, hopens.session⟩, fun h => ⟨h.1, h.2⟩⟩

/-! ## Runs -/

/-- What may ask for a proposal. -/
inductive Operation
  | initiateProposal (request : ConversationUpdateRequest) (creatorVote : CreatorVote)
  | leave
  | initiateStewardElection (recovery : Bool)
  | drainBufferedUpdates
  | advanceElectionRetry
  | incomingProposal (proposal : Proposal)

def Operation.run : Operation → ConvM P Unit
  | .initiateProposal request creatorVote => Conversation.initiateProposal request creatorVote
  | .leave => Conversation.leave
  | .initiateStewardElection recovery => Conversation.initiateStewardElection recovery
  | .drainBufferedUpdates => Conversation.drainBufferedUpdates
  | .advanceElectionRetry => Conversation.advanceElectionRetry
  | .incomingProposal proposal => onIncomingProposal proposal

/-- The steps of a run: the operations, and any other move. -/
inductive Action (P : Platform)
  | operation (op : Operation)
  | move (m : Move P)

inductive Acts : Conversation P → Action P → Conversation P → Prop
  | operation (c : Conversation P) (op : Operation) : Acts c (.operation op) (after op.run c)
  | move {c d : Conversation P} {m : Move P} (h : Moves c m d) : Acts c (.move m) d

/-- Under an active emergency an operation opens nothing lower. -/
def RespectsFreeze (c : Conversation P) (a : Action P) (d : Conversation P) : Prop :=
  match a with
  | .operation _ => c.queues.hasActiveEmergency = true → OpensNoLower c.inFlight d.inFlight
  | .move _ => True

/-- Under an active emergency a leave is held back. -/
def HoldsLeave (c : Conversation P) (a : Action P) : Prop :=
  match a with
  | .operation .leave => c.queues.hasActiveEmergency = true → c.LeaveHeld
  | _ => True

/-- **An operation** respects the freeze, unless it is a leave that is not held back. -/
theorem Acts.respects_iff (hsessions : OpensAsked P.consensus) (hcodec : P.codec.KeepsKind)
    {c d : Conversation P} {a : Action P} (h : Acts c a d) :
    RespectsFreeze c a d ↔ HoldsLeave c a := by
  cases h with
  | move h => exact iff_of_true trivial trivial
  | operation op =>
    cases op with
    | leave =>
      have hleave : OpensNoLower c.inFlight (after (Operation.run .leave) c).inFlight ↔ c.LeaveHeld :=
        (initiateSelfLeave_effect c).opensNoLower_iff hsessions hcodec
      exact ⟨fun h hactive => hleave.mp (h hactive), fun h hactive => hleave.mpr (h hactive)⟩
    | initiateProposal request v =>
      exact iff_of_true (fun hactive =>
        (initiateProposal_effect request v c).opensNoLower hsessions hcodec hactive) trivial
    | incomingProposal proposal =>
      exact iff_of_true (fun hactive =>
        (onIncomingProposal_effect proposal c).opensNoLower hsessions hactive) trivial
    | initiateStewardElection recovery =>
      exact iff_of_true (fun hactive => opensNoLower_of_drift hsessions hcodec
        (drift_initiateStewardElection recovery) hactive) trivial
    | drainBufferedUpdates =>
      exact iff_of_true (fun hactive => opensNoLower_of_drift hsessions hcodec
        drift_drainBufferedUpdates hactive) trivial
    | advanceElectionRetry =>
      exact iff_of_true (fun hactive => opensNoLower_of_drift hsessions hcodec
        drift_advanceElectionRetry hactive) trivial

/-- **The partial freeze is respected** throughout a run exactly when every leave under it is held
back. -/
theorem partial_freeze_respected_iff (hsessions : OpensAsked P.consensus)
    (hcodec : P.codec.KeepsKind)
    {actions : List (Conversation P × Action P × Conversation P)} {c : Conversation P}
    (h : Trace Fresh Acts actions c) :
    (∀ e ∈ actions, RespectsFreeze e.1 e.2.1 e.2.2) ↔ ∀ e ∈ actions, HoldsLeave e.1 e.2.1 := by
  refine h.all_iff (I := fun _ => True) RespectsFreeze (fun _ _ => trivial) ?_ ?_
  · exact fun _ _ _ _ _ _ => trivial
  · exact fun _ _ _ _ hact => hact.respects_iff hsessions hcodec

end Conversation

/-! ## Evaluations -/

namespace Ideal

theorem keepsKind_codec : codec.KeepsKind := by
  rintro ⟨payload⟩
  cases payload with
  | none => rfl
  | some payload =>
    cases payload with
    | memberInvite kp => rfl
    | removeMember id => rfl
    | stewardElection election => rfl
    | emergencyCriteria evidence =>
      cases evidence with
      | none => rfl
      | some ev => rfl

theorem getProposal_eq (st : List Proposal) (id : ProposalId) (q : Proposal) :
    consensus.getProposal st id = .ok q ↔ st.find? (fun p => p.proposalId = id) = some q := by
  unfold consensus
  dsimp only
  cases st.find? fun p => p.proposalId = id with
  | none => simp
  | some p => simp

/-- A session after one more is that one, under an id that has none, or one of before. -/
theorem stays_append {st : List Proposal} {p q : Proposal} {id : ProposalId}
    (h : consensus.getProposal (st ++ [p]) id = .ok q) :
    Conversation.Stays consensus st id q ∨
      id = p.proposalId ∧ q = p ∧ ∀ before, consensus.getProposal st id ≠ .ok before := by
  rw [getProposal_eq, List.find?_append] at h
  cases hold : st.find? fun p => p.proposalId = id with
  | some before =>
    rw [hold, Option.some_or] at h
    cases h
    exact .inl ⟨q, (getProposal_eq st id q).mpr hold, rfl⟩
  | none =>
    rw [hold, Option.none_or, List.find?_singleton] at h
    split_ifs at h with hid
    cases h
    refine .inr ⟨(of_decide_eq_true hid).symm, rfl, fun before hbefore => ?_⟩
    rw [getProposal_eq, hold] at hbefore
    cases hbefore

/-- A vote that joins a session leaves the payloads. -/
theorem stays_map {st : List Proposal} {p q : Proposal} {votes : List Vote} {id j : ProposalId}
    (hp : st.find? (fun p => p.proposalId = id) = some p)
    (h : consensus.getProposal (st.map fun q => if q.proposalId = id then
      { p with votes := votes } else q) j = .ok q) : Conversation.Stays consensus st j q := by
  have hid : p.proposalId = id := by simpa using List.find?_some hp
  rw [getProposal_eq, List.find?_map, Option.map_eq_some_iff] at h
  obtain ⟨before, hbefore, rfl⟩ := h
  have hsame : (fun x : Proposal => decide ((if x.proposalId = id then { p with votes := votes }
      else x).proposalId = j)) = fun x => decide (x.proposalId = j) := by
    funext x
    by_cases hx : x.proposalId = id
    · rw [if_pos hx, hx]
      simp [hid]
    · rw [if_neg hx]
  have hbefore : st.find? (fun p => p.proposalId = j) = some before := by
    rw [← hsame]
    exact hbefore
  refine ⟨before, (getProposal_eq st j before).mpr hbefore, ?_⟩
  by_cases hx : before.proposalId = id
  · rw [if_pos hx]
    have hj : before.proposalId = j := by simpa using List.find?_some hbefore
    rw [← hj, hx, hp] at hbefore
    cases hbefore
    rfl
  · rw [if_neg hx]

theorem opensAsked_consensus : Conversation.OpensAsked consensus where
  receive {st p now id q} h := by
    unfold consensus at h
    dsimp only at h
    split_ifs at h
    · exact .inl ⟨q, h, rfl⟩
    · exact .inl ⟨q, h, rfl⟩
    · rcases stays_append h with hstays | ⟨hid, rfl, hnew⟩
      · exact .inl hstays
      · exact .inr ⟨hid, rfl, hnew⟩
  refuse h := by cases h
  create h hget := by
    cases h
    rcases stays_append hget with hstays | ⟨_, rfl, _⟩
    · exact .inl hstays
    · exact .inr rfl
  cast {st id j choice now q} h := by
    unfold consensus castIn at h
    dsimp only at h
    cases hp : st.find? fun p => p.proposalId = id with
    | none =>
      rw [hp] at h
      exact ⟨q, h, rfl⟩
    | some p =>
      rw [hp] at h
      exact stays_map hp h

/-- An emergency is in voting. -/
def emergency : Proposal := proposalOf 7 ⟨some (.emergencyCriteria (some
  ⟨3, memberIdOf 2, [], 1, memberIdOf 1⟩))⟩

def emergencyTracked : Conversation platform :=
  Program.after (Conversation.Operation.run (.incomingProposal emergency)) start

def frozenRun (op : Conversation.Operation) : List (Conversation platform ×
    Conversation.Action platform × Conversation platform) :=
  [(start, .operation (.incomingProposal emergency), emergencyTracked),
    (emergencyTracked, .operation op, Program.after op.run emergencyTracked)]

theorem trace_frozenRun (op : Conversation.Operation) : Trace Conversation.Fresh Conversation.Acts
    (frozenRun op) (Program.after op.run emergencyTracked) :=
  .next (.next (.start ⟨[], 10, rfl⟩) (.operation _ _)) (.operation _ _)

end Ideal

/-- A leave under an active emergency makes its entry and opens its session. -/
theorem frozen_leave_opens :
    (∃ c, Trace Conversation.Fresh Conversation.Acts (Ideal.frozenRun .leave) c) ∧
    Ideal.emergencyTracked.queues.hasActiveEmergency = true ∧
    ¬ ∀ e ∈ Ideal.frozenRun .leave, Conversation.RespectsFreeze e.1 e.2.1 e.2.2 := by
  refine ⟨⟨_, Ideal.trace_frozenRun .leave⟩, by decide, fun h => ?_⟩
  have hlast := h _ (List.mem_cons_of_mem _ List.mem_cons_self) (by decide)
  have hentry := hlast.voting 0 ⟨some (memberIdOf 0), .commit⟩ (by decide) (by decide)
  exact absurd hentry (by decide)

/-- The law, on a removal proposed under an active emergency. -/
theorem frozen_proposal_refused :
    let actions := Ideal.frozenRun (.initiateProposal (.removeMember (memberIdOf 2)) .yes)
    (∃ c, Trace Conversation.Fresh Conversation.Acts actions c) ∧
      ∀ e ∈ actions, Conversation.RespectsFreeze e.1 e.2.1 e.2.2 := by
  refine ⟨⟨_, Ideal.trace_frozenRun _⟩, (Conversation.partial_freeze_respected_iff
    Ideal.opensAsked_consensus Ideal.keepsKind_codec (Ideal.trace_frozenRun _)).mpr ?_⟩
  unfold Ideal.frozenRun
  rw [List.forall_mem_cons, List.forall_mem_singleton]
  exact ⟨trivial, trivial⟩

end DeMls
