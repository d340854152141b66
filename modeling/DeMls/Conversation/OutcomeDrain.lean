import DeMls.Conversation.FollowUps
import DeMls.Conversation.FreezeGate
import DeMls.Conversation.NoWedge
import DeMls.Conversation.Settled
import DeMls.Lib.Worklist

/-!
# Draining the outcomes

A tick handles outcomes until the bus is empty, and handling one may open a proposal of our own
whose bundled YES settles it at once: an election after a removal or a rejected election, a deadlock once
the retries are spent. Outcomes of our own proposals are of two kinds (`Duty`), and each costs less
than what it follows from, so the drain ends (`outcome_drain_ends`).
-/

namespace DeMls

open Program Relation

variable {P : Platform} {α β : Type}

/-! ## The consensus service -/

/-- The calls a node makes of the service while it handles outcomes. -/
inductive DrainCall (S : ConsensusService) : S.State → S.State → Prop
  | create (st : S.State) (request : CreateProposalRequest) (now : Nat) :
      DrainCall S st (S.createProposalWithConfig st request now).2.1
  | cast (st : S.State) (id : ProposalId) (now : Nat) :
      DrainCall S st (S.castVoteAndGetProposal st id true now).2.1
  | remove (st : S.State) (id : ProposalId) : DrainCall S st (S.removeSession st id).2

/-- Every session keeps its payload and publishes one outcome at most: none when it opens, at most
one when its creator votes YES. -/
structure SettlesOnce (S : ConsensusService) (used : S.State → ProposalId → Prop) : Prop
    extends Conversation.UniqueIds S used where
  opened : ∀ {st st' : S.State} {request : CreateProposalRequest} {now : Nat} {p : Proposal}
    {outs : List ConsensusEvent}, S.createProposalWithConfig st request now = (.ok p, st', outs) →
      used st' p.proposalId ∧
        ∀ q, S.getProposal st' p.proposalId = .ok q → q.payload = request.payload
  stays : ∀ {st st' : S.State} {id : ProposalId} {q : Proposal}, DrainCall S st st' → used st id →
    S.getProposal st' id = .ok q → Conversation.Stays S st id q
  silent : ∀ st request now, (S.createProposalWithConfig st request now).2.2 = []
  once : ∀ st id now, (S.castVoteAndGetProposal st id true now).2.2 = [] ∨
    ∃ event : ConsensusEvent, (S.castVoteAndGetProposal st id true now).2.2 = [event] ∧
      event.fields.1 = id

/-- The YES of a creator, the first vote of its session, does not reject it. -/
def AcceptsYes (S : ConsensusService) : Prop :=
  ∀ {st st' : S.State} {request : CreateProposalRequest} {now : Nat} {p : Proposal}
    {outs : List ConsensusEvent}, S.createProposalWithConfig st request now = (.ok p, st', outs) →
      ∀ later, ∀ event ∈ (S.castVoteAndGetProposal st' p.proposalId true later).2.2,
        event.fields.2.1 = true

variable {S : ConsensusService} {used : S.State → ProposalId → Prop}

theorem DrainCall.serviceCall {st st' : S.State} (h : DrainCall S st st') :
    Conversation.ServiceCall S st st' := by
  cases h with
  | create request now => exact .create _ _ _
  | cast id now => exact .castAndGet _ _ _ _
  | remove id => exact .remove _ _

/-- The session of this id, as long as there is one, has this payload. -/
def Carries (S : ConsensusService) (used : S.State → ProposalId → Prop) (st : S.State)
    (id : ProposalId) (payload : Bytes) : Prop :=
  used st id ∧ ∀ q, S.getProposal st id = .ok q → q.payload = payload

theorem Carries.calls (hS : SettlesOnce S used) {st st' : S.State} {id : ProposalId}
    {payload : Bytes}
    (hcalls : ReflTransGen (DrainCall S) st st') (h : Carries S used st id payload) :
    Carries S used st' id payload := by
  induction hcalls with
  | refl => exact h
  | tail _ hcall ih =>
    refine ⟨hS.kept hcall.serviceCall ih.1, fun q hq => ?_⟩
    obtain ⟨before, hbefore, hsame⟩ := hS.stays hcall ih.1 hq
    exact hsame.trans (ih.2 before hbefore)

/-! ## Duties -/

/-- What an outcome on the bus is the outcome of. -/
inductive Duty
  | foreign
  /-- An election this node opened while it drained. -/
  | election
  /-- A deadlock emergency it opened. -/
  | deadlock
deriving DecidableEq, Repr

/-- The requests of a duty. -/
def Duty.Asks : Duty → ConversationUpdateRequest → Prop
  | .foreign, _ => True
  | .election, request => ∃ election, request = .stewardElection election
  | .deadlock, request => ∃ evidence, isDeadlock evidence = true ∧
      request = ⟨some (.emergencyCriteria (some evidence))⟩

/-- What the codec reads back of a request asks for the same. -/
def Codec.KeepsDuty (C : Codec) : Prop :=
  ∀ (duty : Duty) (request read : ConversationUpdateRequest), duty.Asks request →
    C.decodeRequest (C.encodeRequest request) = .ok read → duty.Asks read

/-- An election is accepted or rejected. -/
theorem applyConsensusResult_election (O : OpenMls) (q : ConversationQueues) (id : ProposalId)
    (approved : Bool) (election : StewardElectionProposal) :
    (applyConsensusResult O q id approved (.stewardElection election)).1 =
      applyElectionResult approved election := rfl

/-- The outcome of a deadlock opens nothing. -/
theorem opens_applyConsensusResult_deadlock {O : OpenMls} {q : ConversationQueues} {id : ProposalId}
    {approved : Bool} {evidence : ViolationEvidence} (h : isDeadlock evidence = true) :
    (applyConsensusResult O q id approved ⟨some (.emergencyCriteria (some evidence))⟩).1.opens =
      false := by
  have hscore : isScoreBelowThreshold evidence = false := by
    unfold isDeadlock at h
    unfold isScoreBelowThreshold
    rw [of_decide_eq_true h]
    rfl
  cases approved with
  | true => simp [applyConsensusResult, extractElectionProposal, extractEmergencyEvidence,
      pendingRemovalTarget, inviteKeyOf, hscore, h, ConsensusApplyResult.opens]
  | false =>
    simp only [applyConsensusResult, extractElectionProposal, extractEmergencyEvidence,
      pendingRemovalTarget, inviteKeyOf]
    simp
    split <;> rfl

namespace Conversation

/-! ## What a program publishes -/

/-- The retries there are, and those that are spent. -/
def ladder (c : Conversation P) : Nat × Nat :=
  (c.stewardList.maxRetries, c.stewardList.nextElectionRound)

/-- The program calls the service and publishes `more`. -/
structure Issues (more : List ConsensusEvent) (c d : Conversation P) : Prop where
  ladder : d.ladder = c.ladder
  outcomes : d.outcomes = c.outcomes ++ more
  calls : ReflTransGen (DrainCall P.consensus) c.consensus d.consensus

/-- It publishes nothing. -/
abbrev Idle (c d : Conversation P) : Prop := Issues [] c d

theorem Issues.trans {more more' : List ConsensusEvent} {c d e : Conversation P}
    (h : Issues more c d) (h' : Issues more' d e) : Issues (more ++ more') c e where
  ladder := h'.ladder.trans h.ladder
  outcomes := by rw [h'.outcomes, h.outcomes, List.append_assoc]
  calls := h.calls.trans h'.calls

/-- What leaves the service, the bus and the list alone publishes nothing. -/
theorem Idle.of_eq {c d : Conversation P} (hconsensus : d.consensus = c.consensus)
    (houtcomes : d.outcomes = c.outcomes) (hladder : d.ladder = c.ladder) : Idle c d where
  ladder := hladder
  outcomes := by rw [houtcomes, List.append_nil]
  calls := by rw [hconsensus]

theorem Idle.refl (c : Conversation P) : Idle c c := .of_eq rfl rfl rfl

theorem idle_of_path {c d : Conversation P} (h : ReflTransGen Idle c d) : Idle c d := by
  induction h with
  | refl => exact .refl c
  | tail _ hstep ih => exact ih.trans hstep

theorem pursuit_idle : Pursuit (P := P) Idle where
  still h := .of_eq (congrArg Docket.consensus h) (congrArg Docket.outcomes h)
    (congrArg Docket.ladder h)
  unbuffered _ _ := .of_eq rfl rfl rfl
  freed _ _ := ⟨rfl, rfl, .single (.remove _ _)⟩

/-! ## Opening a proposal -/

section

variable {used : P.consensus.State → ProposalId → Prop} (trusting : Bool)

/-- The outcome is one of the duty's, and of a session opened while draining; an acceptance, if the
service is trusted with that. -/
def Due (used : P.consensus.State → ProposalId → Prop) (trusting : Bool) (c : Conversation P)
    (event : ConsensusEvent) (duty : Duty) : Prop :=
  duty ≠ .foreign → (∃ request, duty.Asks request ∧ Carries P.consensus used c.consensus
      event.fields.1 (P.codec.encodeRequest request)) ∧
    (trusting = true → event.fields.2.1 = true)

/-- One outcome of the duty is published at most. -/
def Incurs (used : P.consensus.State → ProposalId → Prop) (trusting : Bool) (duty : Duty)
    (c d : Conversation P) : Prop :=
  ∃ more, Issues more c d ∧
    (more = [] ∨ ∃ event, more = [event] ∧ Due used trusting d event duty)

theorem Idle.incurs {c d : Conversation P} (h : Idle c d) (duty : Duty) :
    Incurs used trusting duty c d :=
  ⟨[], h, .inl rfl⟩

variable {trusting : Bool}

theorem Due.calls (hS : SettlesOnce P.consensus used) {c d : Conversation P}
    {event : ConsensusEvent} {duty : Duty} (hcalls : ReflTransGen (DrainCall P.consensus) c.consensus d.consensus)
    (h : Due used trusting c event duty) : Due used trusting d event duty := by
  intro hown
  obtain ⟨⟨request, hasks, hcarries⟩, hyes⟩ := h hown
  exact ⟨⟨request, hasks, hcarries.calls hS hcalls⟩, hyes⟩

theorem Incurs.after (hS : SettlesOnce P.consensus used) {duty : Duty} {c d e : Conversation P}
    (h : Incurs used trusting duty c d) (hidle : Idle d e) : Incurs used trusting duty c e := by
  obtain ⟨more, hpublishes, hmore⟩ := h
  refine ⟨more, ?_, ?_⟩
  · rw [← List.append_nil more]
    exact hpublishes.trans hidle
  · rcases hmore with hnone | ⟨event, hone, hdue⟩
    · exact .inl hnone
    · exact .inr ⟨event, hone, hdue.calls hS hidle.calls⟩

theorem Incurs.before {duty : Duty} {c d e : Conversation P} (hidle : Idle c d)
    (h : Incurs used trusting duty d e) : Incurs used trusting duty c e := by
  obtain ⟨more, hpublishes, hmore⟩ := h
  exact ⟨more, hidle.trans hpublishes, hmore⟩

/-- The answer to a call of ours publishes what it says. -/
theorem publishes_answered {c : Conversation P} {st : P.consensus.State}
    {outs : List ConsensusEvent}
    (hcall : DrainCall P.consensus c.consensus st) : Issues outs c (c.answered st outs) :=
  ⟨rfl, rfl, .single hcall⟩

/-- Opening a session publishes nothing. -/
theorem idle_opening (hS : SettlesOnce P.consensus used) {c : Conversation P}
    {request : ConversationUpdateRequest} {r : Except ConsensusError Proposal}
    {st : P.consensus.State} {outs : List ConsensusEvent} (h : c.opening request = (r, st, outs)) :
    Idle c (c.answered st outs) := by
  have hcall : DrainCall P.consensus c.consensus (c.opening request).2.1 := .create _ _ _
  have hsilent : (c.opening request).2.2 = [] := hS.silent _ _ _
  rw [h] at hcall hsilent
  dsimp only at hcall hsilent
  rw [hsilent]
  exact publishes_answered hcall

/-- The creator's vote is one call; without it nothing is published. -/
theorem publishes_announceOwn_yes {id : ProposalId} {unbundled : AppMessage}
    {request : ConversationUpdateRequest} {now delay : Nat} {liveness : Bool} {c : Conversation P}
    {r : Except ConsensusError Proposal} {st : P.consensus.State} {outs : List ConsensusEvent}
    (hcall : P.consensus.castVoteAndGetProposal c.consensus id true (asSecs now) = (r, st, outs)) :
    Issues outs c (after (announceOwn id unbundled request .yes now delay liveness) c) := by
  have hcast : DrainCall P.consensus c.consensus st := by
    rw [show st = (P.consensus.castVoteAndGetProposal c.consensus id true (asSecs now)).2.1 by
      rw [hcall]]
    exact .cast _ _ _
  have hanswered : Issues outs c (c.answered st outs) := publishes_answered hcast
  unfold announceOwn
  cases r with
  | error e =>
    rw [after_bind_error _ (onConsensus_error hcall)]
    exact hanswered
  | ok proposal =>
    have hsent : Along Idle (do
        sendApp ⟨some (.proposal proposal)⟩
        emitEvent (.ownProposalSubmitted id request) : ConvM P Unit) :=
      along_bind (pursuit_idle.sendApp _) fun _ => pursuit_idle.emitEvent _
    have hpublishes := hanswered.trans (idle_of_path (hsent (c.answered st outs)))
    rw [List.append_nil] at hpublishes
    rw [after_bind_ok _ (onConsensus_ok hcall)]
    exact hpublishes

theorem idle_announceOwn_deferred (id : ProposalId) (unbundled : AppMessage)
    (request : ConversationUpdateRequest) (now delay : Nat) (liveness : Bool) :
    Along Idle (announceOwn id unbundled request .deferred now delay liveness : ConvM P Unit) :=
  along_bind (pursuit_idle.sendApp _) fun _ => along_bind (pursuit_idle.emitEvent _) fun _ =>
    pursuit_idle.modify fun _ => rfl

/-- **A deferred proposal** publishes nothing. -/
theorem idle_initiateProposal (hS : SettlesOnce P.consensus used)
    (request : ConversationUpdateRequest) :
    Along Idle (initiateProposal request .deferred : ConvM P Unit) := by
  refine along_step fun c => ?_
  rcases after_initiateProposal request .deferred c with hrefused |
    ⟨e, st, outs, hopening, hfailed⟩ | ⟨proposal, st, outs, -, hopening, hopened⟩
  · rw [hrefused]
    exact .refl c
  · rw [hfailed]
    exact idle_opening hS hopening
  · rw [hopened]
    have hopen : Idle c (c.opened request proposal st outs) :=
      (idle_opening hS hopening).trans (Idle.of_eq rfl rfl rfl)
    exact hopen.trans (idle_of_path (idle_announceOwn_deferred _ _ _ _ _ _ _))

/-- **A proposal with its YES** publishes its own outcome at most. -/
theorem incurs_initiateProposal (hS : SettlesOnce P.consensus used)
    (hyes : trusting = true → AcceptsYes P.consensus) {duty : Duty}
    {request : ConversationUpdateRequest} (hasks : duty.Asks request) (c : Conversation P) :
    Incurs used trusting duty c (after (initiateProposal request .yes) c) := by
  rcases after_initiateProposal request .yes c with hrefused | ⟨e, st, outs, hopening, hfailed⟩ |
    ⟨proposal, st, outs, -, hopening, hopened⟩
  · rw [hrefused]
    exact (Idle.refl c).incurs trusting duty
  · rw [hfailed]
    exact (idle_opening hS hopening).incurs trusting duty
  · rw [hopened]
    have hopen : Idle c (c.opened request proposal st outs) :=
      (idle_opening hS hopening).trans (Idle.of_eq rfl rfl rfl)
    rcases hcall : P.consensus.castVoteAndGetProposal (c.opened request proposal st outs).consensus
      proposal.proposalId true (asSecs c.now) with ⟨r, st', more⟩
    have hpublishes : Issues more (c.opened request proposal st outs)
        (after (announceOwn proposal.proposalId ⟨some (.proposal proposal)⟩ request .yes c.now
          c.config.votingDelay c.config.livenessCriteriaYes) (c.opened request proposal st outs)) :=
      publishes_announceOwn_yes hcall
    refine .before hopen ⟨more, hpublishes, ?_⟩
    have honce := hS.once (c.opened request proposal st outs).consensus proposal.proposalId
      (asSecs c.now)
    rw [hcall] at honce
    rcases honce with hnone | ⟨event, hone, hid⟩
    · exact .inl hnone
    · refine .inr ⟨event, hone, fun _ => ⟨⟨request, hasks, ?_⟩, fun htrusting => ?_⟩⟩
      · have hcarries : Carries P.consensus used st event.fields.1
            (P.codec.encodeRequest request) := by
          rw [hid]
          exact hS.opened hopening
        exact hcarries.calls hS hpublishes.calls
      · refine hyes htrusting hopening (asSecs c.now) event ?_
        rw [show (P.consensus.castVoteAndGetProposal st proposal.proposalId true
          (asSecs c.now)).2.2 = more from congrArg (fun x => x.2.2) hcall]
        rw [show more = [event] from hone]
        exact List.mem_singleton_self event

theorem Incurs.bind (hS : SettlesOnce P.consensus used) {duty : Duty} {c : Conversation P}
    {x : ConvM P α} {f : α → ConvM P β} (hx : Incurs used trusting duty c (Program.after x c))
    (hf : ∀ a, Along Idle (f a)) : Incurs used trusting duty c (Program.after (x >>= f) c) := by
  cases hrun : x c with
  | ok a d =>
    rw [after_of_ok hrun] at hx
    rw [after_bind_ok f hrun]
    exact hx.after hS (idle_of_path (hf a d))
  | error e d =>
    rw [after_of_error hrun] at hx
    rw [after_bind_error f hrun]
    exact hx

theorem Incurs.attempted (hS : SettlesOnce P.consensus used) {duty : Duty} {c : Conversation P}
    {x : ConvM P α} {f : Except ConversationError α → ConvM P β}
    (hx : Incurs used trusting duty c (Program.after x c)) (hf : ∀ o, Along Idle (f o)) :
    Incurs used trusting duty c (Program.after ((attempt x : ConvM P _) >>= f) c) := by
  refine Incurs.bind hS ?_ hf
  rw [after_attempt]
  exact hx

theorem Incurs.ofResult {duty : Duty} {c : Conversation P} {o : Except ConversationError α}
    {f : α → ConvM P β}
    (h : ∀ a, o = .ok a → Incurs used trusting duty c (Program.after (f a) c)) :
    Incurs used trusting duty c (Program.after ((Program.ofResult o : ConvM P α) >>= f) c) := by
  cases o with
  | ok a => exact h a rfl
  | error e => exact (Idle.refl c).incurs trusting duty

/-! ## Follow-ups -/

theorem idle_processBufferedUpdates (hS : SettlesOnce P.consensus used) :
    Along Idle (processBufferedUpdates : ConvM P Unit) := by
  have hall : ∀ requests, Along Idle (proposeAll requests : ConvM P Unit) := by
    intro requests
    induction requests with
    | nil => exact along_pure _
    | cons request rest ih =>
      exact along_bind (along_attempt (idle_initiateProposal hS request)) fun _ => ih
  exact along_bind along_get fun _ =>
    along_ite (along_bind along_get fun _ => hall _) (along_pure _)

variable (hS : SettlesOnce P.consensus used) (hyes : trusting = true → AcceptsYes P.consensus)

include hS hyes

theorem incurs_initiateStewardElection (recovery : Bool) (c : Conversation P) :
    Incurs used trusting .election c (after (initiateStewardElection recovery) c) := by
  have hidle : Incurs used trusting .election c c := (Idle.refl c).incurs trusting .election
  unfold initiateStewardElection
  rw [after_bind_ok _ (get_apply c)]
  split_ifs with hflight
  · exact hidle
  · refine Incurs.ofResult fun decision _ => ?_
    cases decision with
    | skip reason => exact hidle
    | proposed stewards epoch round =>
      have hasks : Duty.election.Asks (.stewardElection ⟨stewards, epoch, round⟩) := ⟨_, rfl⟩
      exact incurs_initiateProposal hS hyes hasks c

theorem incurs_requestRecovery (c : Conversation P) :
    Incurs used trusting .deadlock c (after requestRecovery c) := by
  unfold requestRecovery
  rw [after_bind_ok _ (get_apply c)]
  split_ifs with hrecovery
  · exact (Idle.refl c).incurs trusting .deadlock
  · refine Incurs.ofResult fun request hrequest => ?_
    have hasks : Duty.deadlock.Asks request := by
      unfold ViolationEvidence.intoUpdateRequest at hrequest
      split_ifs at hrequest
      cases hrequest
      exact ⟨_, rfl, rfl⟩
    exact incurs_initiateProposal hS hyes hasks c

theorem incurs_refreshStewardsAfterRemoval (target : Bytes) (c : Conversation P) :
    Incurs used trusting .election c (after (refreshStewardsAfterRemoval target) c) := by
  unfold refreshStewardsAfterRemoval
  rw [after_bind_ok _ (get_apply c)]
  split_ifs with hsteward
  · exact (Idle.refl c).incurs trusting .election
  · exact Incurs.attempted hS (incurs_initiateStewardElection hS hyes true c) fun _ => along_pure _

/-- **A retry** opens an election, or the deadlock once the retries are spent. -/
theorem incurs_advanceElectionRetry (c : Conversation P) :
    let bumped : Conversation P := { c with stewardList := c.stewardList.bumpRetry }
    if bumped.stewardList.maxRetries < bumped.stewardList.nextElectionRound then
      Incurs used trusting .deadlock bumped (after advanceElectionRetry c)
    else Incurs used trusting .election bumped (after advanceElectionRetry c) := by
  intro bumped
  unfold advanceElectionRetry
  rw [after_bind_ok _ (modify_apply _ _), after_bind_ok _ (get_apply bumped)]
  split_ifs with hspent hproposer
  · refine Incurs.attempted hS (incurs_requestRecovery hS hyes bumped) fun o => ?_
    cases o with
    | ok _ => exact along_pure _
    | error e => exact pursuit_idle.emitEvent _
  · exact (Idle.refl bumped).incurs trusting .deadlock
  · exact Incurs.attempted hS (incurs_initiateStewardElection hS hyes true bumped) fun _ =>
      along_pure _

/-- **A removal** opens an election. -/
theorem incurs_followUp {o : ConsensusApplyResult} (hopens : o.opens = true)
    (hremoval : o ≠ .electionRejected) (c : Conversation P) :
    Incurs used trusting .election c (after (followUp o) c) := by
  cases o with
  | electionRejected => exact absurd rfl hremoval
  | queuedRemoval target => exact incurs_refreshStewardsAfterRemoval hS hyes target c
  | urgentRemoval target =>
    have hrefresh := incurs_refreshStewardsAfterRemoval hS hyes (P := P) target
    have hfreeze := idle_of_path (pursuit_idle.startFreezing c)
    show Incurs used trusting .election c (after (startFreezing >>= _) c)
    cases hrun : (startFreezing : ConvM P _) c with
    | error e d =>
      rw [after_bind_error _ hrun, ← after_of_error hrun]
      exact hfreeze.incurs trusting .election
    | ok entered d =>
      rw [after_of_ok hrun] at hfreeze
      rw [after_bind_ok _ hrun]
      cases entered with
      | none => exact .before hfreeze (hrefresh d)
      | some event =>
        have hentered : Idle c _ :=
          hfreeze.trans (idle_of_path (pursuit_idle.onFreezeEntered event d))
        dsimp only
        cases hrun' : (onFreezeEntered event : ConvM P Unit) d with
        | error e f =>
          rw [after_bind_error _ hrun', ← after_of_error hrun']
          exact hentered.incurs trusting .election
        | ok _ f =>
          rw [after_of_ok hrun'] at hentered
          rw [after_bind_ok _ hrun']
          exact .before hentered (hrefresh f)
  | noAction => cases hopens
  | electionAccepted election => cases hopens
  | recoveryModeOpened => cases hopens
  | rejectedMembership target => cases hopens

end

/-! ## Handling an outcome -/

section

variable {used : P.consensus.State → ProposalId → Prop} {trusting : Bool}

/-- What handling an outcome publishes. -/
inductive Handles (used : P.consensus.State → ProposalId → Prop) (trusting : Bool)
    (event : ConsensusEvent) (c d : Conversation P) : Prop
  | idle (h : Idle c d)
  | removal {request : ConversationUpdateRequest}
      (hresolved : c.resolved event.fields.1 = some request)
      (hopens : (c.applied event request).1.opens = true)
      (hremoval : (c.applied event request).1 ≠ .electionRejected)
      (h : Incurs used trusting .election c d)
  /-- A rejected election is counted. -/
  | deadlock {request : ConversationUpdateRequest}
      (hresolved : c.resolved event.fields.1 = some request)
      (hrejected : (c.applied event request).1 = .electionRejected)
      (h : Incurs used trusting .deadlock { c with stewardList := c.stewardList.bumpRetry } d)
  | retry {request : ConversationUpdateRequest}
      (hresolved : c.resolved event.fields.1 = some request)
      (hrejected : (c.applied event request).1 = .electionRejected)
      (hleft : c.stewardList.bumpRetry.nextElectionRound ≤ c.stewardList.maxRetries)
      (h : Incurs used trusting .election { c with stewardList := c.stewardList.bumpRetry } d)

/-- **Handling an outcome.** -/
theorem handles_handleConsensusOutcome (hS : SettlesOnce P.consensus used)
    (hyes : trusting = true → AcceptsYes P.consensus) (event : ConsensusEvent)
    (c : Conversation P) : Handles used trusting event c (after (handleConsensusOutcome event) c) := by
  cases hresolved : c.resolved event.fields.1 with
  | none =>
    rcases after_handleConsensusOutcome_unresolved hresolved with h | h
    · rw [h]
      exact .idle (Idle.of_eq rfl rfl rfl)
    · rw [h]
      exact .idle (Idle.of_eq rfl rfl rfl)
  | some request =>
    -- The queues take the outcome and the early candidates are replayed.
    let replayed := after replayEarlyCandidates (c.handed event request)
    have hreplayed : Idle c replayed := Idle.of_eq rfl rfl rfl
    have hlast := pursuit_idle.afterFollowUp (P := P) event.fields.1
      (emergencyScoreOps request event.fields.2.1)
    have hrun : after (handleConsensusOutcome event) c = after (followUp (c.applied event request).1 >>=
        fun _ => do
          if emergencyScoreOps request event.fields.2.1 ≠ [] then
            handleEmergencyScored event.fields.1 (emergencyScoreOps request event.fields.2.1)
          else pure ()
          onConsensus fun st => ((P.consensus.removeSession st event.fields.1).1,
            (P.consensus.removeSession st event.fields.1).2, []) : ConvM P Unit) replayed :=
      after_handleConsensusOutcome_resolved hresolved
    rw [hrun]
    by_cases hopens : (c.applied event request).1.opens = true
    · by_cases hrejected : (c.applied event request).1 = .electionRejected
      · have hbumped : Idle { c with stewardList := c.stewardList.bumpRetry }
            { replayed with stewardList := replayed.stewardList.bumpRetry } :=
          Idle.of_eq rfl rfl rfl
        have hretry := incurs_advanceElectionRetry hS hyes replayed
        dsimp only at hretry
        rw [hrejected]
        split_ifs at hretry with hspent
        · refine .deadlock hresolved hrejected (.before hbumped ?_)
          exact Incurs.bind hS hretry fun _ => hlast
        · refine .retry hresolved hrejected (Nat.le_of_not_lt hspent) ?_
          exact .before hbumped (Incurs.bind hS hretry fun _ => hlast)
      · refine .removal hresolved hopens hrejected (.before hreplayed ?_)
        exact Incurs.bind hS (incurs_followUp hS hyes hopens hrejected replayed) fun _ => hlast
    · have hfollow := along_bind (pursuit_idle.followUp (idle_processBufferedUpdates hS)
        (Bool.eq_false_iff.mpr hopens)) fun _ => hlast
      exact .idle (hreplayed.trans (idle_of_path (hfollow replayed)))

/-! ## Costs -/

/-- The rungs of the ladder up to the deadlock. -/
def rungsLeft (c : Conversation P) : Nat :=
  c.stewardList.maxRetries + 1 - c.stewardList.nextElectionRound

/-- What the outcome of an election of ours may cost. -/
def electionCost (trusting : Bool) (c : Conversation P) : Nat :=
  if trusting then 1 else c.rungsLeft + 2

/-- What an outcome may cost, its own turn included. -/
def cost (trusting : Bool) (c : Conversation P) : Duty → Nat
  | .foreign => electionCost trusting c + 1
  | .election => electionCost trusting c
  | .deadlock => 1

/-- The retries are counted up to the deadlock. -/
def Counts (trusting : Bool) (c : Conversation P) : Prop :=
  trusting = false → c.stewardList.maxRetries < 2 ^ 32 - 1

theorem electionCost_pos (c : Conversation P) : 0 < electionCost trusting c := by
  unfold electionCost
  split_ifs <;> omega

theorem cost_pos (c : Conversation P) (duty : Duty) : 0 < cost trusting c duty := by
  have hpos : 0 < electionCost trusting c := electionCost_pos c
  cases duty with
  | foreign => exact Nat.succ_pos _
  | election => exact hpos
  | deadlock => exact Nat.one_pos

theorem cost_mono {c d : Conversation P} (h : electionCost trusting d ≤ electionCost trusting c)
    (duty : Duty) : cost trusting d duty ≤ cost trusting c duty := by
  cases duty with
  | foreign => exact Nat.succ_le_succ h
  | election => exact h
  | deadlock => exact Nat.le_refl 1

theorem electionCost_of_ladder {c d : Conversation P} (h : d.ladder = c.ladder) :
    electionCost trusting d = electionCost trusting c := by
  obtain ⟨hmax, hnext⟩ := Prod.mk.inj h
  unfold electionCost rungsLeft
  rw [hmax, hnext]

/-- A retry that is counted leaves one rung less, as long as there is one. -/
theorem electionCost_bumpRetry {c d : Conversation P} (hcounts : Counts trusting c)
    (h : d.ladder = ({ c with stewardList := c.stewardList.bumpRetry } : Conversation P).ladder) :
    electionCost trusting d ≤ electionCost trusting c ∧
      (trusting = false → c.stewardList.bumpRetry.nextElectionRound ≤ c.stewardList.maxRetries →
        electionCost trusting d < electionCost trusting c) := by
  obtain ⟨hmax, hnext⟩ := Prod.mk.inj h
  have hmax : d.stewardList.maxRetries = c.stewardList.maxRetries := hmax
  have hnext : d.stewardList.nextElectionRound =
      min (c.stewardList.nextElectionRound + 1) (2 ^ 32 - 1) := hnext
  have hround : c.stewardList.bumpRetry.nextElectionRound =
      min (c.stewardList.nextElectionRound + 1) (2 ^ 32 - 1) := rfl
  unfold electionCost rungsLeft
  cases trusting with
  | true => exact ⟨Nat.le_refl 1, fun h => Bool.noConfusion h⟩
  | false =>
    have hlimit := hcounts rfl
    simp only [Bool.false_eq_true, if_false]
    omega

/-- What a program incurs is an entry of its duty at most. -/
theorem Incurs.refills {duty : Duty} {c d : Conversation P} (h : Incurs used trusting duty c d)
    (cost : Duty → Nat) :
    ∃ more kinds, d.outcomes = c.outcomes ++ more ∧
      List.Forall₂ (Due used trusting d) more kinds ∧ (kinds.map cost).sum ≤ cost duty := by
  obtain ⟨more, hpublishes, hmore⟩ := h
  rcases hmore with rfl | ⟨event, rfl, hdue⟩
  · exact ⟨[], [], hpublishes.outcomes, .nil, Nat.zero_le _⟩
  · exact ⟨[event], [duty], hpublishes.outcomes, .cons hdue .nil, by simp⟩

/-- An outcome of ours that is resolved is one of its duty. -/
theorem asks_of_due (hcodec : P.codec.KeepsDuty) {c : Conversation P} {event : ConsensusEvent}
    {duty : Duty} (hdue : Due used trusting c event duty) {request : ConversationUpdateRequest}
    (hresolved : c.resolved event.fields.1 = some request) : duty.Asks request := by
  by_cases hown : duty = .foreign
  · rw [hown]
    trivial
  obtain ⟨⟨asked, hasks, -, hcarries⟩, -⟩ := hdue hown
  unfold resolved at hresolved
  split_ifs at hresolved with hrepeated
  obtain ⟨proposal, hproposal, hrequest⟩ := Option.bind_eq_some_iff.mp hresolved
  cases hgot : P.consensus.getProposal c.consensus event.fields.1 with
  | error e => simp [hgot, Except.toOption] at hproposal
  | ok p =>
    obtain rfl : p = proposal := by simpa [hgot, Except.toOption] using hproposal
    rw [hcarries p hgot] at hrequest
    cases hread : P.codec.decodeRequest (P.codec.encodeRequest asked) with
    | error e => simp [hread, Except.toOption] at hrequest
    | ok read =>
      obtain rfl : read = request := by simpa [hread, Except.toOption] using hrequest
      exact hcodec duty asked read hasks hread

/-- Only an outcome that is not ours removes a member. -/
theorem foreign_of_removal {c : Conversation P} {event : ConsensusEvent} {duty : Duty}
    {request : ConversationUpdateRequest} (hasks : duty.Asks request)
    (hopens : (c.applied event request).1.opens = true)
    (hremoval : (c.applied event request).1 ≠ .electionRejected) : duty = .foreign := by
  cases duty with
  | foreign => rfl
  | election =>
    obtain ⟨election, rfl⟩ := hasks
    unfold applied at hopens hremoval
    rw [applyConsensusResult_election, applyElectionResult] at hopens hremoval
    split_ifs at hopens hremoval
    · cases hopens
    · exact absurd rfl hremoval
  | deadlock =>
    obtain ⟨evidence, hdeadlock, rfl⟩ := hasks
    unfold applied at hopens
    rw [opens_applyConsensusResult_deadlock hdeadlock] at hopens
    cases hopens

/-- Only an election is rejected as one, and not where a YES is trusted. -/
theorem duty_of_rejected {c : Conversation P} {event : ConsensusEvent} {duty : Duty}
    {request : ConversationUpdateRequest} (hdue : Due used trusting c event duty)
    (hasks : duty.Asks request) (hrejected : (c.applied event request).1 = .electionRejected) :
    duty = .foreign ∨ duty = .election ∧ trusting = false := by
  cases duty with
  | foreign => exact .inl rfl
  | election =>
    refine .inr ⟨rfl, Bool.eq_false_iff.mpr fun htrusting => ?_⟩
    obtain ⟨election, rfl⟩ := hasks
    have haccepted := (hdue (by decide)).2 htrusting
    unfold applied at hrejected
    rw [applyConsensusResult_election, haccepted] at hrejected
    cases hrejected
  | deadlock =>
    obtain ⟨evidence, hdeadlock, rfl⟩ := hasks
    have hquiet : (c.applied event ⟨some (.emergencyCriteria (some evidence))⟩).1.opens = false :=
      opens_applyConsensusResult_deadlock hdeadlock
    rw [hrejected] at hquiet
    cases hquiet

/-- **An outcome pays** for what it publishes. -/
theorem Handles.pays (hcodec : P.codec.KeepsDuty) {c d : Conversation P} {event : ConsensusEvent}
    {duty : Duty} (hcounts : Counts trusting c) (hdue : Due used trusting c event duty)
    (h : Handles used trusting event c d) :
    electionCost trusting d ≤ electionCost trusting c ∧ ∃ more kinds,
      d.outcomes = c.outcomes ++ more ∧ List.Forall₂ (Due used trusting d) more kinds ∧
        (kinds.map (cost trusting d)).sum < cost trusting c duty := by
  have hpos : 0 < electionCost trusting c := electionCost_pos c
  cases h with
  | idle h =>
    exact ⟨(electionCost_of_ladder h.ladder).le, [], [], h.outcomes, .nil, cost_pos c duty⟩
  | removal hresolved hopens hremoval h =>
    obtain rfl := foreign_of_removal (asks_of_due hcodec hdue hresolved) hopens hremoval
    obtain ⟨more, kinds, houtcomes, hkinds, hsum⟩ := h.refills (cost trusting d)
    obtain ⟨_, hpublishes, _⟩ := h
    have hcost : electionCost trusting d = electionCost trusting c :=
      electionCost_of_ladder hpublishes.ladder
    refine ⟨hcost.le, more, kinds, houtcomes, hkinds, ?_⟩
    show _ < electionCost trusting c + 1
    have hsum : (kinds.map (cost trusting d)).sum ≤ electionCost trusting d := hsum
    omega
  | deadlock hresolved hrejected h =>
    have hduty := duty_of_rejected hdue (asks_of_due hcodec hdue hresolved) hrejected
    obtain ⟨more, kinds, houtcomes, hkinds, hsum⟩ := h.refills (cost trusting d)
    obtain ⟨_, hpublishes, _⟩ := h
    have hcost := electionCost_bumpRetry hcounts hpublishes.ladder
    refine ⟨hcost.1, more, kinds, houtcomes, hkinds, ?_⟩
    refine lt_of_le_of_lt hsum ?_
    show 1 < cost trusting c duty
    rcases hduty with rfl | ⟨rfl, rfl⟩
    · show 1 < electionCost trusting c + 1
      omega
    · show 1 < c.rungsLeft + 2
      omega
  | retry hresolved hrejected hleft h =>
    have hduty := duty_of_rejected hdue (asks_of_due hcodec hdue hresolved) hrejected
    obtain ⟨more, kinds, houtcomes, hkinds, hsum⟩ := h.refills (cost trusting d)
    obtain ⟨_, hpublishes, _⟩ := h
    obtain ⟨hle, hlt⟩ := electionCost_bumpRetry hcounts hpublishes.ladder
    refine ⟨hle, more, kinds, houtcomes, hkinds, ?_⟩
    have hsum : (kinds.map (cost trusting d)).sum ≤ electionCost trusting d := hsum
    rcases hduty with rfl | ⟨rfl, htrusting⟩
    · show _ < electionCost trusting c + 1
      omega
    · exact lt_of_le_of_lt hsum (hlt htrusting hleft)

/-- The service is only called, and the number of retries stays. -/
theorem Handles.keeps {c d : Conversation P} {event : ConsensusEvent}
    (h : Handles used trusting event c d) :
    ReflTransGen (DrainCall P.consensus) c.consensus d.consensus ∧
      d.stewardList.maxRetries = c.stewardList.maxRetries := by
  have hof : ∀ {c' : Conversation P} {duty : Duty}, Incurs used trusting duty c' d →
      ReflTransGen (DrainCall P.consensus) c'.consensus d.consensus ∧
        d.stewardList.maxRetries = c'.stewardList.maxRetries := by
    rintro c' duty ⟨_, hpublishes, _⟩
    exact ⟨hpublishes.calls, congrArg Prod.fst hpublishes.ladder⟩
  cases h with
  | idle h => exact ⟨h.calls, congrArg Prod.fst h.ladder⟩
  | removal _ _ _ h => exact hof h
  | deadlock _ _ h =>
    have hkept := hof h
    exact hkept
  | retry _ _ _ h =>
    have hkept := hof h
    exact hkept

/-! ## The drain -/

/-- One turn of the loop: the head of the bus is handled. -/
def handleNext (c : Conversation P) : Conversation P :=
  match c.outcomes with
  | [] => c
  | event :: rest => after (handleConsensusOutcome event) { c with outcomes := rest }

theorem handleNext_nil {c : Conversation P} (h : c.outcomes = []) : c.handleNext = c := by
  unfold handleNext
  rw [h]

theorem handleNext_cons {c : Conversation P} {event : ConsensusEvent} {rest : List ConsensusEvent}
    (h : c.outcomes = event :: rest) :
    c.handleNext = after (handleConsensusOutcome event) { c with outcomes := rest } := by
  unfold handleNext
  rw [h]

theorem after_drainOutcomes (fuel : Nat) (c : Conversation P) :
    after (drainOutcomes fuel) c = handleNext^[fuel] c := by
  induction fuel generalizing c with
  | zero => rfl
  | succ fuel ih =>
    rw [Function.iterate_succ_apply]
    unfold drainOutcomes
    rw [after_bind_ok _ (get_apply c)]
    cases houtcomes : c.outcomes with
    | nil =>
      rw [handleNext_nil houtcomes, ← ih c]
      cases fuel with
      | zero => rfl
      | succ fuel =>
        unfold drainOutcomes
        rw [after_bind_ok _ (get_apply c), houtcomes]
    | cons event rest =>
      dsimp only
      rw [after_bind_ok _ (modify_apply _ _), after_attempted, ih, handleNext_cons houtcomes]

/-- **The drain** spends what its bus costs. -/
theorem spends_handleNext (hS : SettlesOnce P.consensus used) (hcodec : P.codec.KeepsDuty)
    (hyes : trusting = true → AcceptsYes P.consensus) :
    Worklist.Spends (σ := Conversation P) outcomes handleNext (Counts trusting)
      (Due used trusting) (cost trusting) := by
  have hturn : ∀ {c : Conversation P} {event : ConsensusEvent} {rest : List ConsensusEvent},
      c.outcomes = event :: rest →
        Handles used trusting event { c with outcomes := rest } c.handleNext := by
    intro c event rest h
    rw [handleNext_cons h]
    exact handles_handleConsensusOutcome hS hyes _ _
  constructor
  · exact fun _ => handleNext_nil
  · intro c event rest duty hcounts h _ htrusting
    rw [(hturn h).keeps.2]
    exact hcounts htrusting
  · intro c event rest duty _ h _ event' duty' hdue
    exact Due.calls hS (hturn h).keeps.1 hdue
  · intro c event rest duty hcounts h hdue
    have hpays := (hturn h).pays hcodec (c := { c with outcomes := rest }) hcounts hdue
    exact cost_mono hpays.1
  · intro c event rest duty hcounts h hdue
    have hpays := (hturn h).pays hcodec (c := { c with outcomes := rest }) hcounts hdue
    exact hpays.2

end

/-- What one outcome may cost: itself and one proposal of ours, if the service settles no session
against its creator's YES; else every rung of the ladder up to the deadlock, of which there is a
last one unless the retries saturate. -/
def Allows (c : Conversation P) (bound : Nat) : Prop :=
  AcceptsYes P.consensus ∧ bound = 2 ∨
    c.stewardList.maxRetries < 2 ^ 32 - 1 ∧ bound = c.rungsLeft + 3

/-- The origins of the outcomes a drain handles: the outcomes on the bus are numbered, and what
handling an outcome publishes has its origin. -/
def origins (fuel : Nat) (c : Conversation P) : List Nat :=
  Worklist.lineage outcomes handleNext fuel (List.range c.outcomes.length) c

/-- **The drain ends.** Whatever the state and the bus, the loop empties the bus within as many
turns as its outcomes are allowed, and none of them causes more than its own allowance. -/
theorem outcome_drain_ends {used : P.consensus.State → ProposalId → Prop}
    (hS : SettlesOnce P.consensus used) (hcodec : P.codec.KeepsDuty) (c : Conversation P)
    {bound : Nat} (hbound : c.Allows bound) :
    (∀ fuel, c.outcomes.length * bound ≤ fuel → (after (drainOutcomes fuel) c).outcomes = [] ∧
      ∀ before, after (tickDeadlines 0) before = c →
        (after (tickDeadlines fuel) before).outcomes = []) ∧
    ∀ fuel i, (c.origins fuel).count i ≤ bound := by
  obtain ⟨trusting, hyes, hcounts, hcost⟩ : ∃ trusting, (trusting = true → AcceptsYes P.consensus) ∧
      Counts trusting c ∧ cost trusting c .foreign = bound := by
    rcases hbound with ⟨hyes, rfl⟩ | ⟨hlimit, rfl⟩
    · exact ⟨true, fun _ => hyes, fun h => Bool.noConfusion h, rfl⟩
    · exact ⟨false, fun h => Bool.noConfusion h, fun _ => hlimit, rfl⟩
  have hspends := spends_handleNext hS hcodec hyes
  have hforeign : ∀ event, Due used trusting c event .foreign := fun _ h => absurd rfl h
  rw [← hcost]
  constructor
  · intro fuel hfuel
    have hempty : (after (drainOutcomes fuel) c).outcomes = [] := by
      rw [after_drainOutcomes]
      exact hspends.ends hcounts hforeign hfuel
    refine ⟨hempty, fun before hfired => ?_⟩
    rw [after_tickDeadlines, hfired]
    exact hempty
  · exact hspends.count_le hcounts hforeign List.length_range List.nodup_range

end Conversation

/-! ## Evaluations -/

namespace Ideal

/-- A session past the ids a service has seen is the one that was just opened. -/
theorem getProposal_opened {st : Nat × List Proposal} {p q : Proposal} (hid : top st < p.proposalId)
    (h : consensus.getProposal (st.2 ++ [p]) p.proposalId = .ok q) : q = p := by
  rcases stays_append h with ⟨before, hbefore, -⟩ | ⟨-, hsame, -⟩
  · have hused : p.proposalId ≤ top st := uniqueIds_numbered.session hbefore
    exact absurd hused (Nat.not_le_of_lt hid)
  · exact hsame

theorem stays_filter {st : List Proposal} {id removed : ProposalId} {q : Proposal}
    (h : consensus.getProposal (st.filter fun p => p.proposalId ≠ removed) id = .ok q) :
    Conversation.Stays consensus st id q := by
  rw [getProposal_eq, List.find?_filter] at h
  have hq : q.proposalId ≠ removed ∧ q.proposalId = id := by simpa using List.find?_some h
  refine ⟨q, (getProposal_eq st id q).mpr ?_, rfl⟩
  rw [← h]
  congr 1
  funext p
  by_cases hp : p.proposalId = id
  · simp [hp, ← hq.2, hq.1]
  · simp [hp]

theorem settlesOnce_numbered : SettlesOnce numbered fun st id => id ≤ top st where
  toUniqueIds := uniqueIds_numbered
  opened {st st' request now p outs} h := by
    cases h
    refine ⟨le_top_of_mem (List.mem_append_right _ List.mem_cons_self), fun q hq => ?_⟩
    rw [getProposal_opened (Nat.lt_succ_self (top st)) hq]
  stays {st st' id q} hcall hid hget := by
    cases hcall with
    | create request now =>
      rcases stays_append hget with hstays | ⟨hnew, -, -⟩
      · exact hstays
      · exact absurd (hnew ▸ hid) (Nat.not_succ_le_self _)
    | cast j now =>
      have hcast : consensus.getProposal (consensus.castVoteAndGetProposal st.2 j true now).2.1 id =
        .ok q := hget
      exact opensAsked_consensus.cast hcast
    | remove j => exact stays_filter hget
  silent _ _ _ := rfl
  once st id now := by
    show (castIn st.2 id true now).2.2 = [] ∨ ∃ event, (castIn st.2 id true now).2.2 = [event] ∧ _
    unfold castIn
    cases hp : st.2.find? fun p => p.proposalId = id with
    | none => exact .inl rfl
    | some p =>
      have hid : p.proposalId = id := by simpa using List.find?_some hp
      dsimp only [resolve]
      split_ifs
      · exact .inr ⟨_, rfl, hid⟩
      · exact .inl rfl

theorem acceptsYes_numbered : AcceptsYes numbered := by
  intro st st' request now p outs h later event hevent
  cases h
  let p : Proposal := ⟨[], request.payload, top st + 1, request.proposalOwner, [],
    request.expectedVotersCount, 1, now, now + request.expirationSecs, request.livenessCriteriaYes⟩
  have hcast : event ∈ (castIn (st.2 ++ [p]) (top st + 1) true later).2.2 := hevent
  unfold castIn at hcast
  cases hp : (st.2 ++ [p]).find? fun q => q.proposalId = top st + 1 with
  | none =>
    rw [hp] at hcast
    cases hcast
  | some q =>
    obtain rfl : q = p :=
      getProposal_opened (Nat.lt_succ_self (top st)) ((getProposal_eq _ _ q).mpr hp)
    rw [hp] at hcast
    dsimp only [resolve] at hcast
    split_ifs at hcast
    · rw [List.mem_singleton.mp hcast]
      rfl
    · cases hcast

theorem keepsDuty_codec : codec.KeepsDuty := by
  rintro duty request read hasks hread
  cases duty with
  | foreign => trivial
  | election =>
    obtain ⟨election, rfl⟩ := hasks
    cases hread
    exact ⟨_, rfl⟩
  | deadlock =>
    obtain ⟨evidence, hdeadlock, rfl⟩ := hasks
    have hwire : evidence.violationType = 5 := by
      have hdeadlock := of_decide_eq_true hdeadlock
      unfold ViolationType.ofWire at hdeadlock
      split_ifs at hdeadlock <;> first | assumption | cases hdeadlock
    cases hread
    refine ⟨_, ?_, rfl⟩
    rw [hwire]
    rfl

/-- A lone member whose election was rejected. -/
def outvoted : Conversation numberedPlatform :=
  { alone with
    consensus := (1, [proposalOf 1 (.stewardElection ⟨[memberIdOf 0], 0, 0⟩)])
    outcomes := [.consensusReached 1 false 0] }

end Ideal

open Conversation

/-- It elects again, accepts that at once, and is done. -/
theorem outvoted_drains : (after (drainOutcomes 2) Ideal.outvoted).outcomes = [] ∧
    ∀ i, (Ideal.outvoted.origins 5).count i ≤ 2 := by
  have hdrain := outcome_drain_ends Ideal.settlesOnce_numbered Ideal.keepsDuty_codec Ideal.outvoted
    (.inl ⟨Ideal.acceptsYes_numbered, rfl⟩)
  exact ⟨(hdrain.1 2 (Nat.le_refl 2)).1, hdrain.2 5⟩

example : Ideal.outvoted.origins 2 = [0, 0] := rfl

end DeMls
