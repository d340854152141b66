import DeMls.Conversation.ApprovedQueue
import DeMls.Conversation.Traffic
import DeMls.Conversation.Voted

/-!
# The order of outcomes

A node holds a commit against the set of changes it has approved. An outcome adds to that set what it
grants, and two outcomes that grant one change add it once, whichever is first. So nodes that saw the
same approvals, in any order and each any number of times, judge every commit alike
(`verdicts_agree`).
-/

namespace DeMls

open Program Selection

variable {P : Platform} {O : OpenMls}

/-! ## The approved changes -/

theorem mem_votedActions {q : ConversationQueues} {a : Action} :
    a ∈ votedActions O q ↔
      ∃ entry ∈ q.approvedProposals.entries, actionProjectionFromRequest O entry.2 = some a := by
  unfold votedActions OrderedMap.values
  rw [List.mem_filterMap]
  constructor
  · rintro ⟨request, hrequest, ha⟩
    obtain ⟨entry, hentry, rfl⟩ := List.mem_map.mp hrequest
    exact ⟨entry, hentry, ha⟩
  · rintro ⟨entry, hentry, ha⟩
    exact ⟨entry.2, List.mem_map_of_mem hentry, ha⟩

/-- Two nodes with the same approved changes judge a commit alike. -/
theorem validateCommitCandidate_congr {q q' : ConversationQueues}
    (h : ∀ a, a ∈ votedActions O q ↔ a ∈ votedActions O q') (senderId : Bytes)
    (mlsActions : List MlsProposalOutput) (ctx : RoundContext) :
    validateCommitCandidate O q senderId mlsActions ctx =
      validateCommitCandidate O q' senderId mlsActions ctx := by
  unfold validateCommitCandidate
  rw [sortDedup_eq_iff.mpr h]

/-- What a YES grants is queued afterwards, by this outcome or by an earlier one. -/
theorem granted_of_approved (q : ConversationQueues) (id : ProposalId)
    {request : ConversationUpdateRequest} {a : Action} (h : grantedAction O request = some a) :
    a ∈ votedActions O (applyConsensusResult O q id true request).2 := by
  have hinserted : ∀ (q' : ConversationQueues) (r : ConversationUpdateRequest),
      actionProjectionFromRequest O r = some a →
        a ∈ votedActions O (q'.insertApprovedProposal id r) :=
    fun q' r hr => mem_votedActions.mpr ⟨(id, r), OrderedMap.mem_insert.mpr (.inl rfl), hr⟩
  obtain ⟨payload⟩ := request
  unfold grantedAction extractEmergencyEvidence at h
  unfold applyConsensusResult extractElectionProposal extractEmergencyEvidence
  cases payload with
  | none => cases h
  | some payload =>
    cases payload with
    | stewardElection election => cases h
    | removeMember target =>
      cases h
      simp only [pendingRemovalTarget, Option.isSome_none, Option.any_none, Bool.and_false,
        Bool.not_true, Bool.false_eq_true, if_false, Option.any_some, Bool.not_false, if_true,
        Bool.and_true, Option.filter_none, inviteKeyOf]
      split_ifs with hqueued
      · exact hasApprovedRemoval_iff_action.mp hqueued
      · exact hinserted _ _ rfl
    | memberInvite kp =>
      cases hkey : signatureKeyOfKeyPackage O kp with
      | error e => simp [actionProjectionFromRequest, hkey] at h
      | ok key =>
        have hinvite : inviteKeyOf O ⟨some (.memberInvite kp)⟩ = some key := by
          simp [inviteKeyOf, hkey, Except.toOption]
        have ha : (.add, key) = a := by simpa [actionProjectionFromRequest, hkey] using h
        simp only [pendingRemovalTarget, Option.isSome_none, Option.any_none, Bool.and_false,
          Bool.not_true, Bool.false_eq_true, if_false, Bool.not_false, if_true, Bool.true_and,
          Bool.and_true, Option.filter_none, hinvite, Option.any_some]
        split_ifs with hqueued
        · exact ha ▸ hasApprovedInvite_iff_action.mp hqueued
        · exact hinserted _ _ h
    | emergencyCriteria evidence =>
      cases evidence with
      | none => cases h
      | some ev =>
        dsimp only at h
        split_ifs at h with hscore
        cases h
        simp only [pendingRemovalTarget, hscore, Option.isSome_some, Option.any_some, Bool.and_true,
          Bool.not_true, Bool.false_eq_true, if_false, if_true, Option.map_some, inviteKeyOf,
          Option.any_none, Bool.and_false, Option.filter_some]
        split_ifs with hqueued
        · exact hasApprovedRemoval_iff_action.mp hqueued
        · exact hinserted _ _ rfl

/-! ## Entries under their ids -/

/-- Each entry is queued under the id that its request was voted on. -/
def ConversationQueues.UnderIds (O : OpenMls) (requestOf : ProposalId → ConversationUpdateRequest)
    (q : ConversationQueues) : Prop :=
  ∀ entry ∈ q.approvedProposals.entries,
    actionProjectionFromRequest O entry.2 = grantedAction O (requestOf entry.1)

variable {requestOf : ProposalId → ConversationUpdateRequest}

/-- An outcome files what it queues, and takes no approved change back. -/
theorem underIds_applied {c : Conversation P} {event : ConsensusEvent}
    (h : c.queues.UnderIds P.mls requestOf)
    (hrequest : c.resolved event.fields.1 = some (requestOf event.fields.1)) :
    (after (Conversation.handleConsensusOutcome event) c).queues.UnderIds P.mls requestOf ∧
    ∀ a, a ∈ votedActions P.mls c.queues →
      a ∈ votedActions P.mls (after (Conversation.handleConsensusOutcome event) c).queues := by
  have hledger := (Conversation.handleConsensusOutcome_effect event c).2
  rw [hrequest] at hledger
  have heffect : OutcomeEffect P.mls c.queues event.fields.1 event.fields.2.1
      (requestOf event.fields.1) (c.applied event (requestOf event.fields.1)).1
      (after (Conversation.handleConsensusOutcome event) c).queues.ledger := by
    rw [hledger]
    exact (applyConsensusResult_effect _ _ _ _ _).of_marked
  generalize (after (Conversation.handleConsensusOutcome event) c).queues = q at heffect ⊢
  generalize hq : q.ledger = ledger at heffect
  have hinsert : ∀ r, q.approvedProposals = c.queues.approvedProposals.insert event.fields.1 r →
      actionProjectionFromRequest P.mls r = grantedAction P.mls (requestOf event.fields.1) →
      q.UnderIds P.mls requestOf ∧
        ∀ a, a ∈ votedActions P.mls c.queues → a ∈ votedActions P.mls q := by
    intro r hqueue hr
    refine ⟨fun entry hentry => ?_, fun a ha => ?_⟩
    · rw [hqueue] at hentry
      rcases OrderedMap.mem_insert.mp hentry with rfl | ⟨hold, _⟩
      · exact hr
      · exact h entry hold
    · obtain ⟨entry, hentry, haction⟩ := mem_votedActions.mp ha
      rw [mem_votedActions, hqueue]
      by_cases hid : entry.1 = event.fields.1
      · -- The entry goes, and the new one does the same.
        refine ⟨_, OrderedMap.mem_insert.mpr (.inl rfl), ?_⟩
        rw [hr, ← hid, ← h entry hentry, haction]
      · exact ⟨entry, OrderedMap.mem_insert.mpr (.inr ⟨hentry, hid⟩), haction⟩
  cases heffect with
  | kept =>
    have hqueue : q.approvedProposals = c.queues.approvedProposals := congrArg Prod.fst hq
    unfold ConversationQueues.UnderIds votedActions
    rw [hqueue]
    exact ⟨h, fun _ ha => ha⟩
  | urgent _ _ hpayload hscore _ =>
    refine hinsert _ (congrArg Prod.fst hq) ?_
    rw [grantedAction, extractEmergencyEvidence, hpayload]
    simp only [hscore, if_true]
    rfl
  | queued _ _ hjoins =>
    refine hinsert _ (congrArg Prod.fst hq) ?_
    rw [grantedAction, hjoins.evidence]

namespace Conversation

/-! ## Handling outcomes -/

/-- From one state to another these outcomes are handled, one after the other. The session of a first
outcome holds the request that was voted on. What happens in between leaves the approved queue and the
memory of outcomes alone. -/
inductive Processes (requestOf : ProposalId → ConversationUpdateRequest) :
    List ConsensusEvent → Conversation P → Conversation P → Prop
  | done (c : Conversation P) : Processes requestOf [] c c
  | aside {events : List ConsensusEvent} {c d e : Conversation P}
      (happroved : d.queues.approvedProposals = c.queues.approvedProposals)
      (hmemory : d.queues.resolvedProposals = c.queues.resolvedProposals)
      (h : Processes requestOf events d e) : Processes requestOf events c e
  | outcome {event : ConsensusEvent} {rest : List ConsensusEvent} {c e : Conversation P}
      (hanswer : c.queues.isConsensusOutcomeApplied event.fields.1 = false →
        c.resolved event.fields.1 = some (requestOf event.fields.1))
      (h : Processes requestOf rest (after (handleConsensusOutcome event) c) e) :
      Processes requestOf (event :: rest) c e

/-- The proposals that the outcomes approve. -/
def approvedIds (events : List ConsensusEvent) : List ProposalId :=
  (events.filter fun event => event.fields.2.1).map fun event => event.fields.1

/-- A proposal has one verdict. -/
def OneVerdict (events : List ConsensusEvent) : Prop :=
  ∀ event ∈ events, ∀ other ∈ events, event.fields.1 = other.fields.1 →
    event.fields.2.1 = other.fields.2.1

theorem mem_approvedIds {events : List ConsensusEvent} {id : ProposalId} :
    id ∈ approvedIds events ↔
      ∃ event ∈ events, event.fields.2.1 = true ∧ event.fields.1 = id := by
  unfold approvedIds
  simp [and_assoc]

/-- Handling an outcome makes the queues remember it and no other. -/
theorem applied_of_handled {event : ConsensusEvent} {c : Conversation P} {id : ProposalId}
    (h : (after (handleConsensusOutcome event) c).queues.isConsensusOutcomeApplied id = true) :
    id = event.fields.1 ∨ c.queues.isConsensusOutcomeApplied id = true := by
  unfold ConversationQueues.isConsensusOutcomeApplied at h ⊢
  cases hresolved : c.resolved event.fields.1 with
  | none =>
    have hcache : (after (handleConsensusOutcome event) c).queues.resolvedProposals =
        c.queues.resolvedProposals :=
      congrArg (fun f => f.tracked.2.2) (inFlight_unresolved hresolved)
    rw [hcache] at h
    exact .inr h
  | some request =>
    have hcache : (after (handleConsensusOutcome event) c).queues.resolvedProposals =
        (c.queues.resolvedProposals.insert event.fields.1).2 :=
      (finish_cache (finish_resolved hresolved)).trans
        (congrArg (fun f => f.tracked.2.2) (inFlight_handed event request c))
    rw [hcache, BoundedSet.contains_iff] at h
    exact (BoundedSet.mem_of_mem_insert h).imp_right BoundedSet.contains_iff.mpr

/-- **One outcome.** What it grants is approved, and nothing else changes. -/
theorem votedActions_outcome {event : ConsensusEvent} {c : Conversation P}
    (h : c.queues.UnderIds P.mls requestOf)
    (hrequest : c.resolved event.fields.1 = some (requestOf event.fields.1)) (a : DeMls.Action) :
    a ∈ votedActions P.mls (after (handleConsensusOutcome event) c).queues ↔
      a ∈ votedActions P.mls c.queues ∨
        event.fields.2.1 = true ∧ grantedAction P.mls (requestOf event.fields.1) = some a := by
  have hledger := (handleConsensusOutcome_effect event c).2
  rw [hrequest] at hledger
  have happroved : (after (handleConsensusOutcome event) c).queues.approvedProposals =
      (c.applied event (requestOf event.fields.1)).2.approvedProposals := congrArg Prod.fst hledger
  constructor
  · intro ha
    by_contra hnot
    push Not at hnot
    -- Were the change allowed to anyone else, the queue would not hold it.
    have hallowed : QueueAllowed P.mls (· ≠ a) (c.applied event (requestOf event.fields.1)).2 := by
      refine queueAllowed_applied (fun b hb hba => hnot.1 (hba ▸ hb)) fun hyes b hb hba => ?_
      exact hnot.2 hyes (hba ▸ hb)
    refine hallowed a ?_ rfl
    unfold votedActions at ha ⊢
    rwa [← happroved]
  · rintro (hold | ⟨hyes, hgranted⟩)
    · exact (underIds_applied h hrequest).2 a hold
    · have ha := granted_of_approved
        (c.queues.markConsensusOutcomeApplied event.fields.1) event.fields.1 hgranted
      unfold votedActions at ha ⊢
      rw [happroved]
      unfold applied
      rwa [hyes]

/-- An outcome whose proposal was resolved has its changes approved by now. -/
def Caught (requestOf : ProposalId → ConversationUpdateRequest) (events : List ConsensusEvent)
    (c : Conversation P) : Prop :=
  ∀ event ∈ events, c.queues.isConsensusOutcomeApplied event.fields.1 = true →
    event.fields.2.1 = true → ∀ a, grantedAction P.mls (requestOf event.fields.1) = some a →
      a ∈ votedActions P.mls c.queues

/-- **Several outcomes.** The approved changes are those before and those that a YES grants. -/
theorem Processes.votedActions {events : List ConsensusEvent} {c d : Conversation P}
    (h : Processes requestOf events c d) (hunder : c.queues.UnderIds P.mls requestOf)
    (hverdict : OneVerdict events) (hcaught : Caught requestOf events c) (a : DeMls.Action) :
    a ∈ DeMls.votedActions P.mls d.queues ↔
      a ∈ DeMls.votedActions P.mls c.queues ∨
        ∃ id ∈ approvedIds events, grantedAction P.mls (requestOf id) = some a := by
  induction h with
  | done c => simp [approvedIds]
  | @aside events c d e happroved hmemory _ ih =>
    have hsame : DeMls.votedActions P.mls d.queues = DeMls.votedActions P.mls c.queues := by
      unfold DeMls.votedActions
      rw [happroved]
    rw [ih ?_ hverdict ?_, hsame]
    · unfold ConversationQueues.UnderIds
      rw [happroved]
      exact hunder
    · intro event hevent happlied
      rw [hsame]
      refine hcaught event hevent ?_
      unfold ConversationQueues.isConsensusOutcomeApplied at happlied ⊢
      rwa [← hmemory]
  | @outcome event rest c e hanswer _ ih =>
    have hone : OneVerdict rest := fun e he other hother =>
      hverdict e (List.mem_cons_of_mem _ he) other (List.mem_cons_of_mem _ hother)
    have hids : (∃ id ∈ approvedIds (event :: rest), grantedAction P.mls (requestOf id) = some a) ↔
        (event.fields.2.1 = true ∧ grantedAction P.mls (requestOf event.fields.1) = some a) ∨
          ∃ id ∈ approvedIds rest, grantedAction P.mls (requestOf id) = some a := by
      simp only [mem_approvedIds, List.mem_cons]
      constructor
      · rintro ⟨id, ⟨e, rfl | he, hyes, rfl⟩, ha⟩
        · exact .inl ⟨hyes, ha⟩
        · exact .inr ⟨_, ⟨e, he, hyes, rfl⟩, ha⟩
      · rintro (⟨hyes, ha⟩ | ⟨id, ⟨e, he, hyes, hid⟩, ha⟩)
        · exact ⟨_, ⟨event, .inl rfl, hyes, rfl⟩, ha⟩
        · exact ⟨id, ⟨e, .inr he, hyes, hid⟩, ha⟩
    cases hfirst : c.queues.isConsensusOutcomeApplied event.fields.1 with
    | true =>
      -- A repeated outcome: what it grants is approved already.
      have hafter : after (handleConsensusOutcome event) c = c.dropDeadlines event.fields.1 :=
        after_of_ok (handleConsensusOutcome_repeated hfirst)
      rw [hafter] at ih
      rw [ih hunder hone fun e he => hcaught e (List.mem_cons_of_mem _ he), hids]
      constructor
      · exact Or.imp_right .inr
      · rintro (hold | ⟨hyes, ha⟩ | hlater)
        · exact .inl hold
        · exact .inl (hcaught event List.mem_cons_self hfirst hyes a ha)
        · exact .inr hlater
    | false =>
      have hrequest := hanswer hfirst
      obtain ⟨hunder', hkept⟩ := underIds_applied hunder hrequest
      rw [ih hunder' hone ?_, votedActions_outcome hunder hrequest, hids, or_assoc]
      intro e he happlied hyes b hb
      rcases applied_of_handled happlied with hsame | hbefore
      · refine (votedActions_outcome hunder hrequest b).mpr (.inr ⟨?_, hsame ▸ hb⟩)
        rw [← hverdict e (List.mem_cons_of_mem _ he) event List.mem_cons_self hsame]
        exact hyes
      · exact hkept b (hcaught e (List.mem_cons_of_mem _ he) hbefore hyes b hb)

/-- A state that has approvals under their ids, and knows none of these outcomes yet. -/
structure Expects (requestOf : ProposalId → ConversationUpdateRequest) (events : List ConsensusEvent)
    (c : Conversation P) : Prop where
  underIds : c.queues.UnderIds P.mls requestOf
  verdict : OneVerdict events
  unknown : ∀ event ∈ events, c.queues.isConsensusOutcomeApplied event.fields.1 = false

theorem Expects.caught {events : List ConsensusEvent} {c : Conversation P}
    (h : c.Expects requestOf events) : Caught requestOf events c := by
  intro event hevent happlied
  rw [h.unknown event hevent] at happlied
  cases happlied

/-- **One verdict on a commit.** Two nodes with the same approved changes handle outcomes that approve
the same proposals, each in the order in which it saw them and with any repetitions and rejections in
between. Then they hold every commit against the same changes. -/
theorem verdicts_agree {events more : List ConsensusEvent} {c c' d d' : Conversation P}
    (hc : c.Expects requestOf events) (hd : d.Expects requestOf more)
    (hsame : ∀ a, a ∈ votedActions P.mls c.queues ↔ a ∈ votedActions P.mls d.queues)
    (happroved : ∀ id, id ∈ approvedIds events ↔ id ∈ approvedIds more)
    (hevents : Processes requestOf events c c') (hmore : Processes requestOf more d d')
    (senderId : Bytes) (mlsActions : List MlsProposalOutput) (ctx : RoundContext) :
    validateCommitCandidate P.mls c'.queues senderId mlsActions ctx =
      validateCommitCandidate P.mls d'.queues senderId mlsActions ctx := by
  refine validateCommitCandidate_congr (fun a => ?_) senderId mlsActions ctx
  rw [hevents.votedActions hc.underIds hc.verdict hc.caught,
    hmore.votedActions hd.underIds hd.verdict hd.caught, hsame]
  simp only [happroved]

/-! ## The drain of a poll -/

/-- The outcomes that a drain handles. -/
def drained : Nat → Conversation P → List ConsensusEvent
  | 0, _ => []
  | fuel + 1, c =>
    match c.outcomes with
    | [] => []
    | event :: rest =>
      event :: drained fuel (after (handleConsensusOutcome event) { c with outcomes := rest })

/-- Each of them has its request while it is not resolved. -/
def Answered (requestOf : ProposalId → ConversationUpdateRequest) : Nat → Conversation P → Prop
  | 0, _ => True
  | fuel + 1, c =>
    match c.outcomes with
    | [] => True
    | event :: rest =>
      (c.queues.isConsensusOutcomeApplied event.fields.1 = false →
        c.resolved event.fields.1 = some (requestOf event.fields.1)) ∧
      Answered requestOf fuel (after (handleConsensusOutcome event) { c with outcomes := rest })

/-- The drain handles the outcomes of the bus in their order. -/
theorem processes_drainOutcomes (fuel : Nat) {c : Conversation P} (h : Answered requestOf fuel c) :
    Processes requestOf (drained fuel c) c (after (drainOutcomes fuel) c) := by
  induction fuel generalizing c with
  | zero => exact .done c
  | succ fuel ih =>
    unfold drainOutcomes drained
    unfold Answered at h
    rw [after_bind_ok _ (get_apply c)]
    cases houtcomes : c.outcomes with
    | nil => exact .done c
    | cons event rest =>
      rw [houtcomes] at h
      obtain ⟨hanswer, hrest⟩ := h
      dsimp only
      rw [after_bind_ok _ (modify_apply _ _), after_attempted]
      exact .aside (d := { c with outcomes := rest }) rfl rfl (.outcome hanswer (ih hrest))

end Conversation

/-! ## Two invites -/

namespace Ideal

/-- A lone creator that has voted for two joiners. -/
def invitingTwo : Conversation platform :=
  Conversation.afterCalls [.addMember [11], .addMember [12]] alone

/-- The request of each vote. -/
def inviteOf (id : ProposalId) : ConversationUpdateRequest :=
  .memberInvite (if id = 1 then [11] else [12])

def approval (id : ProposalId) : ConsensusEvent := .consensusReached id true 0

def handleEach (events : List ConsensusEvent) : Conversation platform :=
  events.foldl (fun c event => after (Conversation.handleConsensusOutcome event) c) invitingTwo

theorem expects_invites {events : List ConsensusEvent}
    (h : ∀ event ∈ events, event = approval 1 ∨ event = approval 2) :
    invitingTwo.Expects inviteOf events where
  underIds _ hentry := (List.not_mem_nil hentry).elim
  verdict event hevent other hother _ := by
    rcases h event hevent with rfl | rfl <;> rcases h other hother with rfl | rfl <;> rfl
  unknown event hevent := by
    rcases h event hevent with rfl | rfl <;> rfl

theorem processes_inTurn : Conversation.Processes inviteOf [approval 1, approval 2] invitingTwo
    (handleEach [approval 1, approval 2]) :=
  .outcome (fun _ => by decide +kernel) (.outcome (fun _ => by decide +kernel) (.done _))

theorem processes_outOfTurn : Conversation.Processes inviteOf [approval 2, approval 1, approval 2]
    invitingTwo (handleEach [approval 2, approval 1, approval 2]) :=
  .outcome (fun _ => by decide +kernel) (.outcome (fun _ => by decide +kernel)
    (.outcome (fun h => absurd h (by decide +kernel)) (.done _)))

end Ideal

/-- The approvals in turn, and out of turn with one of them repeated. -/
theorem two_invites_agree :
    (Ideal.handleEach [Ideal.approval 1, Ideal.approval 2]).queues.approvedProposals.keys = [1, 2] ∧
    (Ideal.handleEach [Ideal.approval 2, Ideal.approval 1,
      Ideal.approval 2]).queues.approvedProposals.keys = [2, 1] ∧
    validateCommitCandidate Ideal.mls
        (Ideal.handleEach [Ideal.approval 1, Ideal.approval 2]).queues [] [.add [11]]
        ⟨2, false, 0, false, none⟩ =
      validateCommitCandidate Ideal.mls
        (Ideal.handleEach [Ideal.approval 2, Ideal.approval 1, Ideal.approval 2]).queues []
        [.add [11]] ⟨2, false, 0, false, none⟩ := by
  refine ⟨by decide +kernel, by decide +kernel, ?_⟩
  refine Conversation.verdicts_agree (Ideal.expects_invites ?_) (Ideal.expects_invites ?_)
    (fun _ => Iff.rfl) (fun id => ?_) Ideal.processes_inTurn Ideal.processes_outOfTurn _ _ _
  · simp
  · simp
  · simp only [Conversation.mem_approvedIds, List.mem_cons, List.not_mem_nil, or_false]
    aesop

end DeMls
