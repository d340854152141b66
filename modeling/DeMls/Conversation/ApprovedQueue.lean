import DeMls.CommitRound.Packing
import DeMls.Ideal
import DeMls.Conversation.Run

/-!
# The approved queue over whole runs

Whether the queue stays packable (`approved_stays_packable`) and whether it stays current with the
group (`approved_stays_current`), in every state a run reaches.
-/

namespace DeMls

open Program Runs

variable {P : Platform}

/-! ## Actions of a queue -/

/-- The actions of the approvals under a map. -/
def actionsOf (O : OpenMls) (m : OrderedMap ProposalId ConversationUpdateRequest) : List Action :=
  m.values.filterMap (actionProjectionFromRequest O)

theorem hasApprovedRemoval_iff_action {O : OpenMls} {q : ConversationQueues} {l : Bytes} :
    q.hasApprovedRemoval l = true ↔ (.remove, l) ∈ actionsOf O q.approvedProposals := by
  unfold ConversationQueues.hasApprovedRemoval actionsOf
  rw [List.any_eq_true, List.mem_filterMap]
  apply exists_congr
  rintro ⟨payload⟩
  apply and_congr_right
  intro _
  unfold removesMember actionProjectionFromRequest
  rw [decide_eq_true_eq]
  cases payload with
  | none => simp
  | some payload =>
    cases payload with
    | memberInvite kp =>
      cases hkey : signatureKeyOfKeyPackage O kp <;> simp [hkey]
    | removeMember id => simp
    | emergencyCriteria ev => simp
    | stewardElection e => simp

theorem hasApprovedInvite_iff_action {O : OpenMls} {q : ConversationQueues} {key : Bytes} :
    q.hasApprovedInvite O key = true ↔ (.add, key) ∈ actionsOf O q.approvedProposals := by
  unfold ConversationQueues.hasApprovedInvite actionsOf
  rw [List.any_eq_true, List.mem_filterMap]
  apply exists_congr
  rintro ⟨payload⟩
  apply and_congr_right
  intro _
  unfold invitesMember actionProjectionFromRequest
  cases payload with
  | none => simp
  | some payload =>
    cases payload with
    | memberInvite kp =>
      cases hkey : signatureKeyOfKeyPackage O kp <;> simp [hkey, Except.toOption]
    | removeMember id => simp
    | emergencyCriteria ev => simp
    | stewardElection e => simp

/-- An approval whose action is not queued yet keeps the actions distinct, even where it replaces
an entry. -/
theorem nodup_actionsOf_insert {O : OpenMls} {m : OrderedMap ProposalId ConversationUpdateRequest}
    {id : ProposalId} {request : ConversationUpdateRequest} (h : (actionsOf O m).Nodup)
    (hfresh : ∀ a, actionProjectionFromRequest O request = some a → a ∉ actionsOf O m) :
    (actionsOf O (m.insert id request)).Nodup := by
  have hperm : (actionsOf O (m.insert id request)).Perm
      ((request :: (m.erase id).values).filterMap (actionProjectionFromRequest O)) :=
    ((m.insert_perm id request).map Prod.snd).filterMap _
  have hsub : (actionsOf O (m.erase id)).Sublist (actionsOf O m) :=
    (List.filter_sublist.map _).filterMap _
  rw [hperm.nodup_iff]
  cases haction : actionProjectionFromRequest O request with
  | none =>
    rw [List.filterMap_cons_none haction]
    exact h.sublist hsub
  | some a =>
    rw [List.filterMap_cons_some haction, List.nodup_cons]
    exact ⟨fun hmem => hfresh a haction (hsub.subset hmem), h.sublist hsub⟩

namespace Conversation

/-! ## The queue stays packable -/

/-- Every approval can be packed, and no two do the same. -/
structure Packed (c : Conversation P) : Prop where
  packable : ∀ req ∈ c.queues.approvedProposals.values, Packable P.mls req
  distinct : (actionsOf P.mls c.queues.approvedProposals).Nodup

/-- A request that says what it asks for: a payload, evidence for an emergency, a key package that
yields a signature key. -/
def Readable (O : OpenMls) (request : ConversationUpdateRequest) : Prop :=
  match request.payload with
  | none => False
  | some (.emergencyCriteria evidence) => evidence.isSome = true
  | some (.memberInvite keyPackageBytes) =>
    (signatureKeyOfKeyPackage O keyPackageBytes).toOption.isSome = true
  | some (.removeMember _) | some (.stewardElection _) => True

/-- Only readable requests are approved. -/
def ReadableOutcome (c : Conversation P) : Event P → Prop
  | .outcome event => ∀ request, c.resolved event.fields.1 = some request →
      event.fields.2.1 = true → Readable P.mls request
  | _ => True

/-- A readable request that is neither an election nor an emergency can be packed. -/
theorem packable_of_readable {O : OpenMls} {request : ConversationUpdateRequest}
    (h : Readable O request) (helection : extractElectionProposal request = none)
    (hevidence : extractEmergencyEvidence request = none) : Packable O request := by
  obtain ⟨payload⟩ := request
  unfold Readable at h
  cases payload with
  | none => exact h.elim
  | some payload =>
    cases payload with
    | memberInvite kp =>
      cases hkey : signatureKeyOfKeyPackage O kp with
      | error e => simp [hkey, Except.toOption] at h
      | ok key => exact .invite hkey
    | removeMember id => exact .removal id
    | emergencyCriteria ev =>
      have hnone : ev = none := hevidence
      simp [hnone] at h
    | stewardElection e => cases helection

theorem Packed.of_ledger {c d : Conversation P} (h : c.Packed)
    (hledger : d.queues.ledger = c.queues.ledger) : d.Packed := by
  have happroved : d.queues.approvedProposals = c.queues.approvedProposals :=
    congrArg Prod.fst hledger
  exact ⟨by rw [happroved]; exact h.packable, by rw [happroved]; exact h.distinct⟩

/-- A queue with fewer approvals stays packed. -/
theorem Packed.of_sublist {c d : Conversation P} (h : c.Packed)
    (hsub : d.queues.approvedProposals.entries.Sublist c.queues.approvedProposals.entries) :
    d.Packed := by
  have hvalues := hsub.map Prod.snd
  exact ⟨fun req hreq => h.packable req (hvalues.subset hreq),
    h.distinct.sublist (hvalues.filterMap _)⟩

/-- An approval that can be packed and is not queued yet keeps the queue packed. -/
theorem Packed.of_insert {c d : Conversation P} (h : c.Packed) {id : ProposalId}
    {request : ConversationUpdateRequest} (hpack : Packable P.mls request)
    (hfresh : ∀ a, actionProjectionFromRequest P.mls request = some a →
      a ∉ actionsOf P.mls c.queues.approvedProposals)
    (happroved : d.queues.approvedProposals = c.queues.approvedProposals.insert id request) :
    d.Packed := by
  refine ⟨fun req hreq => ?_, ?_⟩
  · rw [happroved, OrderedMap.mem_values] at hreq
    obtain ⟨k, hk⟩ := hreq
    rcases OrderedMap.mem_insert.mp hk with heq | ⟨hold, _⟩
    · cases heq
      exact hpack
    · exact h.packable req (OrderedMap.mem_values.mpr ⟨k, hold⟩)
  · rw [happroved]
    exact nodup_actionsOf_insert h.distinct hfresh

/-- The queue after a merge is a part of the queue before it. -/
theorem approved_sublist_of_merges {hash : CommitHash} {epoch : Nat} {s t : RoundState P}
    {staged : Option P.mls.StagedCommit} {batch : List ConversationUpdateRequest}
    (h : Merges hash epoch s t staged batch) :
    t.queues.approvedProposals.entries.Sublist s.queues.approvedProposals.entries := by
  rw [h.approved.1]
  cases s.queues.urgentCommitTarget with
  | none => exact List.nil_sublist _
  | some target => exact List.filter_sublist

/-- A step that approves readable requests only keeps the queue packed. -/
theorem Packed.step {c d : Conversation P} {e : Event P} (h : c.Packed)
    (hcond : ReadableOutcome c e) (hstep : Step c e d) : d.Packed := by
  cases hstep.effect with
  | kept _ hledger _ => exact h.of_ledger hledger
  | @outcome event request hresolved _ heffect =>
    have hreadable := hcond request hresolved
    generalize hl : d.queues.ledger = ledger at heffect
    cases heffect with
    | kept _ => exact h.of_ledger hl
    | @urgent ev _ happroved hpayload hscore hfresh =>
      refine h.of_insert (.removal ev.targetMemberId) ?_ (congrArg Prod.fst hl)
      rintro a ⟨⟩ hmem
      rw [hasApprovedRemoval_iff_action.mpr hmem] at hfresh
      cases hfresh
    | queued _ happroved hjoins =>
      have hpack := packable_of_readable (hreadable happroved) hjoins.election hjoins.evidence
      refine h.of_insert hpack ?_ (congrArg Prod.fst hl)
      intro a ha hmem
      cases hpack with
      | @invite kp key hkey =>
        have ha : (.add, key) = a := by
          simpa [actionProjectionFromRequest, ConversationUpdateRequest.memberInvite, hkey] using ha
        have hnot := hjoins.invite key (by
          simp [inviteKeyOf, ConversationUpdateRequest.memberInvite, hkey, Except.toOption])
        rw [hasApprovedInvite_iff_action.mpr (ha ▸ hmem)] at hnot
        cases hnot
      | removal id =>
        cases ha
        have hnot := hjoins.removal id rfl
        rw [hasApprovedRemoval_iff_action.mpr hmem] at hnot
        cases hnot
  | merged hmerge => exact h.of_sublist (approved_sublist_of_merges hmerge)

theorem packed_of_fresh {c : Conversation P} (h : Fresh c) : c.Packed := by
  obtain ⟨id, window, hqueues⟩ := h
  refine ⟨?_, ?_⟩
  · rw [hqueues]
    exact fun _ hreq => absurd hreq List.not_mem_nil
  · rw [hqueues]
    exact List.nodup_nil

/-- **The approved queue stays packable** in every run that approves readable requests only, and no
mint fails on what is queued. -/
theorem approved_stays_packable {c : Conversation P} (h : Reaches Fresh Step ReadableOutcome c) :
    c.Packed ∧ ∀ self e c', localCandidate self c = .error e c' →
      (∀ ids, e ≠ .unexpectedNonMlsProposals ids) ∧ e ≠ .invalidConversationUpdateRequest ∧
        ∀ text, e ≠ .mls (.keyPackageTls text) := by
  have hpacked : c.Packed := h.invariant (fun _ => packed_of_fresh)
    fun _ _ _ hI hcond hstep => hI.step hcond hstep
  exact ⟨hpacked, fun _ _ _ hmint => localCandidate_error hpacked.packable hmint⟩

end Conversation

/-- A peer's proposal without a payload is approved and queued, and no mint gets past it. -/
theorem empty_proposal_stuck : ∃ c : Conversation Ideal.platform,
    Reaches Conversation.Fresh Conversation.Step (fun _ _ => True) c ∧ ¬ c.Packed ∧
    ∃ c', Conversation.localCandidate (memberIdOf 0) c =
      .error .invalidConversationUpdateRequest c' := by
  have hrun : Reaches Conversation.Fresh Conversation.Step (fun _ _ => True)
      (Ideal.approve 1 (Ideal.tracked 1 ⟨none⟩ Ideal.start)) :=
    .next (.next (.start ⟨[], 10, rfl⟩) trivial (.incomingProposal _ (Ideal.proposalOf 1 ⟨none⟩)))
      trivial (.outcome _ (.consensusReached 1 true 0))
  refine ⟨_, hrun, fun h => ?_, _, rfl⟩
  cases h.packable ⟨none⟩ List.mem_cons_self

/-- The law, where a joiner is proposed and approved. -/
theorem joiner_packable : Ideal.approve 1 (Ideal.tracked 1 (.memberInvite [20]) Ideal.start)
    |>.Packed := by
  have hrun : Reaches Conversation.Fresh Conversation.Step Conversation.ReadableOutcome
      (Ideal.approve 1 (Ideal.tracked 1 (.memberInvite [20]) Ideal.start)) := by
    refine .next (.next (.start ⟨[], 10, rfl⟩) (by exact trivial)
      (.incomingProposal _ (Ideal.proposalOf 1 (.memberInvite [20])))) ?_
        (.outcome _ (.consensusReached 1 true 0))
    intro request hresolved _
    have hrequest : (Ideal.tracked 1 (.memberInvite [20]) Ideal.start).resolved 1 =
        some (.memberInvite [20]) := rfl
    cases hrequest.symm.trans hresolved
    rfl
  exact (Conversation.approved_stays_packable hrun).1

namespace Conversation

/-! ## The queue stays current -/

/-- Every approval still applies to the group: invites admit new keys, removals name seated leaves,
and the urgent target is queued for removal. -/
structure Current (c : Conversation P) : Prop where
  invites : ∀ req ∈ c.queues.approvedProposals.values, ∀ key, inviteKeyOf P.mls req = some key →
    ∀ m ∈ c.mls.group.members, m.signatureKey ≠ key
  removals : ∀ req ∈ c.queues.approvedProposals.values, ∀ id,
    req.payload = some (.removeMember id) → id ∈ c.members
  urgent : ∀ target, c.queues.urgentCommitTarget = some target →
    c.queues.hasApprovedRemoval target = true

/-- The request still applies when its vote ends, and does not take the place of the urgent
removal. -/
structure Timely (c : Conversation P) (id : ProposalId) (request : ConversationUpdateRequest) :
    Prop where
  invite : Joins P.mls c.queues request → ∀ key, inviteKeyOf P.mls request = some key →
    ∀ m ∈ c.mls.group.members, m.signatureKey ≠ key
  removal : Joins P.mls c.queues request → ∀ l, request.payload = some (.removeMember l) →
    l ∈ c.members
  place : Joins P.mls c.queues request → ∀ target, c.queues.urgentCommitTarget = some target →
    c.queues.approvedProposals.find? id ≠ some (.removeMember target)
  score : ∀ ev, request.payload = some (.emergencyCriteria (some ev)) →
    isScoreBelowThreshold ev = true → c.queues.hasApprovedRemoval ev.targetMemberId = false →
    ev.targetMemberId ∈ c.members

/-- Approved requests are timely, and no commit merged under an urgent target admits a queued
joiner. -/
def KeepsCurrent (c : Conversation P) : Event P → Prop
  | .outcome event => ∀ request, c.resolved event.fields.1 = some request →
      event.fields.2.1 = true → c.Timely event.fields.1 request
  | .round _ (some merged) _ => c.queues.urgentCommitTarget ≠ none →
      ∀ key ∈ admittedBy P.mls merged.staged, c.queues.hasApprovedInvite P.mls key = false
  | _ => True

theorem Current.of_kept {c d : Conversation P} (h : c.Current)
    (hledger : d.queues.ledger = c.queues.ledger) (hgroup : d.mls.publicPart = c.mls.publicPart) :
    d.Current := by
  have happroved : d.queues.approvedProposals = c.queues.approvedProposals :=
    congrArg Prod.fst hledger
  have hurgent : d.queues.urgentCommitTarget = c.queues.urgentCommitTarget :=
    congrArg (fun l => l.2.1) hledger
  have hmembers : d.mls.group.members = c.mls.group.members := members_of_publicPart hgroup
  refine ⟨?_, ?_, ?_⟩
  · rw [happroved, hmembers]
    exact h.invites
  · rw [happroved]
    unfold members MlsService.members MlsGroup.memberIds
    rw [hmembers]
    exact h.removals
  · rw [hurgent]
    unfold ConversationQueues.hasApprovedRemoval
    rw [happroved]
    exact h.urgent

/-- An approval that applies to the group joins a current queue. -/
theorem Current.of_insert {c d : Conversation P} (h : c.Current) {id : ProposalId}
    {request : ConversationUpdateRequest} (hgroup : d.mls.publicPart = c.mls.publicPart)
    (happroved : d.queues.approvedProposals = c.queues.approvedProposals.insert id request)
    (hinvite : ∀ key, inviteKeyOf P.mls request = some key →
      ∀ m ∈ c.mls.group.members, m.signatureKey ≠ key)
    (hremoval : ∀ l, request.payload = some (.removeMember l) → l ∈ c.members)
    (hurgent : ∀ target, d.queues.urgentCommitTarget = some target →
      d.queues.hasApprovedRemoval target = true) : d.Current := by
  have hmembers : d.mls.group.members = c.mls.group.members := members_of_publicPart hgroup
  refine ⟨?_, ?_, hurgent⟩
  · intro req hreq
    rw [happroved, OrderedMap.mem_values] at hreq
    obtain ⟨k, hk⟩ := hreq
    rw [hmembers]
    rcases OrderedMap.mem_insert.mp hk with heq | ⟨hold, _⟩
    · cases heq
      exact hinvite
    · exact h.invites req (OrderedMap.mem_values.mpr ⟨k, hold⟩)
  · intro req hreq
    rw [happroved, OrderedMap.mem_values] at hreq
    obtain ⟨k, hk⟩ := hreq
    unfold members MlsService.members MlsGroup.memberIds
    rw [hmembers]
    rcases OrderedMap.mem_insert.mp hk with heq | ⟨hold, _⟩
    · cases heq
      exact hremoval
    · exact h.removals req (OrderedMap.mem_values.mpr ⟨k, hold⟩)

theorem invitesMember_of_key {O : OpenMls} {req : ConversationUpdateRequest} {key : Bytes}
    (h : inviteKeyOf O req = some key) : invitesMember O req key = true := by
  unfold inviteKeyOf at h
  unfold invitesMember
  cases hpayload : req.payload with
  | none => simp [hpayload] at h
  | some payload => cases payload <;> simp_all

/-- An approval under another id leaves the removals queued. -/
theorem hasApprovedRemoval_of_insert {c d : Conversation P} {id : ProposalId}
    {request : ConversationUpdateRequest} {target : Bytes}
    (happroved : d.queues.approvedProposals = c.queues.approvedProposals.insert id request)
    (hqueued : c.queues.hasApprovedRemoval target = true)
    (hplace : c.queues.approvedProposals.find? id ≠ some (.removeMember target)) :
    d.queues.hasApprovedRemoval target = true := by
  obtain ⟨⟨k, req⟩, he, hpayload⟩ := ConversationQueues.hasApprovedRemoval_iff.mp hqueued
  have hreq : req = .removeMember target := congrArg ConversationUpdateRequest.mk hpayload
  rw [ConversationQueues.hasApprovedRemoval_iff, happroved]
  refine ⟨(k, req), OrderedMap.mem_insert.mpr (.inr ⟨he, ?_⟩), hpayload⟩
  rintro rfl
  apply hplace
  rw [OrderedMap.find?_eq_some_iff, ← hreq]
  exact he

/-- What a merge leaves queued still applies to the new roster. -/
theorem Current.of_merges {c d : Conversation P} (hO : FollowsCommits P.mls) (h : c.Current)
    {merged : MergedCommit P.mls} {batch : List ConversationUpdateRequest}
    (hmerge : Merges merged.candidate.commitHash (c.epoch + 1) c.roundState.taken d.roundState
      merged.staged batch)
    (hcond : c.queues.urgentCommitTarget ≠ none →
      ∀ key ∈ admittedBy P.mls merged.staged, c.queues.hasApprovedInvite P.mls key = false) :
    d.Current := by
  have hreseats : Reseats P.mls merged.staged c.mls.group.members d.mls.group.members :=
    hmerge.tree.reseats hO
  have hnone : d.queues.urgentCommitTarget = none := hmerge.approved.2.2
  refine ⟨?_, ?_, ?_⟩
  · intro req hreq key hkey m hm hmkey
    obtain ⟨k, hk⟩ := OrderedMap.mem_values.mp hreq
    obtain ⟨target, hurgent, hold, _⟩ := hmerge.still_queued hk
    have hold : req ∈ c.queues.approvedProposals.values := OrderedMap.mem_values.mpr ⟨k, hold⟩
    rcases hreseats.origin m hm with hbefore | hadmitted
    · exact h.invites req hold key hkey m hbefore hmkey
    · have hurgent : c.queues.urgentCommitTarget = some target := hurgent
      have hfalse := hcond (by rw [hurgent]; exact Option.some_ne_none target) _ hadmitted
      have htrue : c.queues.hasApprovedInvite P.mls m.signatureKey = true := by
        unfold ConversationQueues.hasApprovedInvite
        rw [List.any_eq_true]
        refine ⟨req, hold, ?_⟩
        rw [hmkey]
        exact invitesMember_of_key hkey
      rw [htrue] at hfalse
      cases hfalse
  · intro req hreq id hid
    obtain ⟨k, hk⟩ := OrderedMap.mem_values.mp hreq
    obtain ⟨_, _, hold, _, hkept⟩ := hmerge.still_queued hk
    apply hreseats.mem_memberIds (h.removals req (OrderedMap.mem_values.mpr ⟨k, hold⟩) id hid)
    intro v hv hleaf
    have hnot := hkept v hv
    unfold removesMember at hnot
    rw [hid, hleaf] at hnot
    simp at hnot
  · rw [hnone]
    exact fun _ ht => nomatch ht

/-- **One step** keeps the queue current. -/
theorem Current.step (hO : FollowsCommits P.mls) {c d : Conversation P} {e : Event P}
    (h : c.Current) (hcond : KeepsCurrent c e) (hstep : Step c e d) : d.Current := by
  cases hstep.effect with
  | kept _ hledger hgroup => exact h.of_kept hledger hgroup
  | @outcome event request hresolved hgroup heffect =>
    generalize hl : d.queues.ledger = ledger at heffect
    cases heffect with
    | kept _ => exact h.of_kept hl hgroup
    | @urgent ev _ happroved hpayload hscore hfresh =>
      have htimely := hcond request hresolved happroved
      have hqueue := congrArg Prod.fst hl
      refine h.of_insert hgroup hqueue ?_ ?_ ?_
      · rintro key ⟨⟩
      · rintro l ⟨⟩
        exact htimely.score ev hpayload hscore hfresh
      · intro target htarget
        have : d.queues.urgentCommitTarget = some ev.targetMemberId :=
          congrArg (fun l => l.2.1) hl
        cases this.symm.trans htarget
        rw [ConversationQueues.hasApprovedRemoval_iff, show d.queues.approvedProposals = _ from hqueue]
        exact ⟨_, OrderedMap.mem_insert.mpr (.inl rfl), rfl⟩
    | queued _ happroved hjoins =>
      have htimely := hcond request hresolved happroved
      have hqueue := congrArg Prod.fst hl
      refine h.of_insert hgroup hqueue (htimely.invite hjoins) (htimely.removal hjoins) ?_
      intro target htarget
      have hsame : d.queues.urgentCommitTarget = c.queues.urgentCommitTarget :=
        congrArg (fun l => l.2.1) hl
      rw [hsame] at htarget
      exact hasApprovedRemoval_of_insert hqueue (h.urgent target htarget)
        (htimely.place hjoins target htarget)
  | merged hmerge => exact h.of_merges hO hmerge hcond

theorem current_of_fresh {c : Conversation P} (h : Fresh c) : c.Current := by
  obtain ⟨id, window, hqueues⟩ := h
  refine ⟨?_, ?_, ?_⟩
  · rw [hqueues]
    exact fun _ hreq => absurd hreq List.not_mem_nil
  · rw [hqueues]
    exact fun _ hreq => absurd hreq List.not_mem_nil
  · rw [hqueues]
    exact fun _ ht => nomatch ht

end Conversation

/-! ### What a current queue packs -/

/-- Whether a batch is meant to take an approval, whatever the group: every membership change, or
the urgent target's removals alone. -/
def selects (urgentTarget : Option Bytes) (req : ConversationUpdateRequest) : Bool :=
  match urgentTarget with
  | none => req.producesMlsAction
  | some target => removesMember req target

/-- Over approvals that apply to the group the packing loop skips none as stale. -/
theorem length_packUpdates {O : OpenMls} {g : MlsGroup O.Secrets} {urgentTarget : Option Bytes}
    {reqs : List ConversationUpdateRequest} {updates : List MlsCommitInput} {joiners : List Bytes}
    (hinvites : ∀ req ∈ reqs, ∀ key, inviteKeyOf O req = some key →
      ∀ m ∈ g.members, m.signatureKey ≠ key)
    (hremovals : ∀ req ∈ reqs, ∀ id, req.payload = some (.removeMember id) → id ∈ g.memberIds)
    (h : packUpdates O g urgentTarget reqs = .ok (updates, joiners)) :
    updates.length = (reqs.filter (selects urgentTarget)).length := by
  induction reqs generalizing updates joiners with
  | nil =>
    cases h
    rfl
  | cons req rest ih =>
    have ih := fun updates joiners => @ih updates joiners
      (fun r hr => hinvites r (List.mem_cons_of_mem req hr))
      (fun r hr => hremovals r (List.mem_cons_of_mem req hr))
    have hinvite := hinvites req List.mem_cons_self
    have hremoval := hremovals req List.mem_cons_self
    obtain ⟨payload⟩ := req
    unfold packUpdates at h
    cases payload with
    | none => cases h
    | some payload =>
      cases payload with
      | memberInvite kp =>
        dsimp only at h
        cases urgentTarget with
        | some target =>
          rw [List.filter_cons_of_neg (by simp [selects, removesMember])]
          exact ih updates joiners h
        | none =>
          rw [List.filter_cons_of_pos rfl, List.length_cons]
          cases hkey : signatureKeyOfKeyPackage O kp with
          | error e => simp [hkey] at h
          | ok key =>
            have hnew : (g.members.any fun m => m.signatureKey = key) = false := by
              rw [List.any_eq_false]
              intro m hm
              rw [decide_eq_true_eq]
              exact hinvite key (by simp [inviteKeyOf, hkey, Except.toOption]) m hm
            cases hrest : packUpdates O g none rest with
            | error e => simp [hkey, hnew, hrest] at h
            | ok packed =>
              simp only [hkey, hnew, hrest, Option.isSome_none, Bool.false_eq_true, if_false,
                Except.ok.injEq, Prod.mk.injEq] at h
              rw [← h.1, List.length_cons, ih _ _ hrest]
      | removeMember id =>
        have hseated : id ∈ g.memberIds := hremoval id rfl
        dsimp only at h
        by_cases hselected : selects urgentTarget ⟨some (.removeMember id)⟩ = true
        · have hmine : (urgentTarget.any fun target => id ≠ target) = false := by
            cases urgentTarget with
            | none => rfl
            | some target => simpa [selects, removesMember] using hselected
          rw [List.filter_cons_of_pos hselected, List.length_cons]
          cases hrest : packUpdates O g urgentTarget rest with
          | error e => simp [hseated, hrest] at h
          | ok packed =>
            simp only [hmine, hseated, hrest, not_true_eq_false, Bool.false_eq_true, if_false,
              Except.ok.injEq, Prod.mk.injEq] at h
            rw [← h.1, List.length_cons, ih _ _ hrest]
        · have hother : (urgentTarget.any fun target => id ≠ target) = true := by
            cases urgentTarget with
            | none => exact absurd rfl hselected
            | some target => simpa [selects, removesMember] using hselected
          rw [List.filter_cons_of_neg hselected]
          rw [if_pos hother] at h
          exact ih updates joiners h
      | emergencyCriteria ev => cases h
      | stewardElection e => cases h

namespace Conversation

/-- The approvals a mint is meant to commit: those of the first `commit_batch_max` that the batch
selects. -/
def meantBatch (c : Conversation P) : List ConversationUpdateRequest :=
  (c.queues.approvedProposals.values.take c.config.commitBatchMax).filter
    (selects c.queues.urgentCommitTarget)

/-- A mint over a current queue skips no approval as stale. -/
theorem Current.packs_all {c : Conversation P} (h : c.Current) {updates : List MlsCommitInput}
    {joiners : List Bytes} (hpacked : c.packedBatch = .ok (updates, joiners)) :
    updates.length = c.meantBatch.length :=
  length_packUpdates (fun req hreq => h.invites req (List.mem_of_mem_take hreq))
    (fun req hreq => h.removals req (List.mem_of_mem_take hreq)) hpacked

/-- **The approved queue stays current** in every run that approves timely requests, and merges no
commit under an urgent target that admits a queued joiner. No mint skips a stale approval, and one
that packs the whole queue packs what the round counts. -/
theorem approved_stays_current (hO : FollowsCommits P.mls) {c : Conversation P}
    (h : Reaches Fresh Step KeepsCurrent c) :
    c.Current ∧ ∀ updates joiners, c.packedBatch = .ok (updates, joiners) →
      updates.length = c.meantBatch.length ∧
      (c.queues.urgentCommitTarget = none →
        c.queues.approvedProposalsCount ≤ c.config.commitBatchMax → ∀ self,
        (RoundContext.snapshot c.queues c.mls c.stewardList c.epoch c.isInRecoveryMode
          self).mlsCount = updates.length) := by
  have hcurrent : c.Current := h.invariant (fun _ => current_of_fresh)
    fun _ _ _ hI hcond hstep => hI.step hO hcond hstep
  refine ⟨hcurrent, fun updates joiners hpacked => ?_⟩
  have hlength := hcurrent.packs_all hpacked
  refine ⟨hlength, fun hurgent hfits self => ?_⟩
  have hwhole : c.queues.approvedProposals.values.take c.config.commitBatchMax =
      c.queues.approvedProposals.values := by
    apply List.take_of_length_le
    unfold OrderedMap.values
    rw [List.length_map]
    exact hfits
  rw [hlength]
  unfold meantBatch
  rw [hurgent, hwhole]
  rfl

end Conversation

/-- Two votes on the removal of leaf 2; the first ends with a yes. -/
def Ideal.twiceProposed : Conversation Ideal.platform :=
  Ideal.approve 1 (Ideal.tracked 2 (.removeMember (memberIdOf 2))
    (Ideal.tracked 1 (.removeMember (memberIdOf 2)) Ideal.start))

/-- Leaf 2 is removed while the second vote is open. -/
def Ideal.removedMeanwhile : Conversation Ideal.platform :=
  let c := Program.after Conversation.mintAndBroadcastCandidate Ideal.twiceProposed
  Program.after (Conversation.finalizeCommitRound false c.selfMemberId) c

/-- A second approval of the same removal is queued after the commit that carried it out. -/
theorem stale_removal_queued : Reaches Conversation.Fresh Conversation.Step (fun _ _ => True)
      (Ideal.approve 2 Ideal.removedMeanwhile) ∧
    ¬ (Ideal.approve 2 Ideal.removedMeanwhile).Current := by
  have htracked : Reaches Conversation.Fresh Conversation.Step (fun _ _ => True)
      (Ideal.tracked 2 (.removeMember (memberIdOf 2))
        (Ideal.tracked 1 (.removeMember (memberIdOf 2)) Ideal.start)) :=
    .next (.next (.start ⟨[], 10, rfl⟩) trivial
        (.incomingProposal _ (Ideal.proposalOf 1 (.removeMember (memberIdOf 2))))) trivial
      (.incomingProposal _ (Ideal.proposalOf 2 (.removeMember (memberIdOf 2))))
  have hminted : Reaches Conversation.Fresh Conversation.Step (fun _ _ => True)
      (Program.after Conversation.mintAndBroadcastCandidate Ideal.twiceProposed) :=
    .next (.next htracked trivial (.outcome _ (.consensusReached 1 true 0))) trivial (.mint _)
  have hround : ∃ r, Conversation.finalizeCommitRound false
      (Program.after Conversation.mintAndBroadcastCandidate Ideal.twiceProposed).selfMemberId
      (Program.after Conversation.mintAndBroadcastCandidate Ideal.twiceProposed) =
        .ok r Ideal.removedMeanwhile := ⟨_, rfl⟩
  obtain ⟨r, hround⟩ := hround
  refine ⟨.next (.next hminted trivial (.round hround)) trivial
    (.outcome _ (.consensusReached 2 true 0)), fun h => ?_⟩
  have hseated := h.removals (.removeMember (memberIdOf 2)) (by decide) (memberIdOf 2) rfl
  exact absurd hseated (by decide)

/-- The law, where a member's removal is proposed and approved. -/
theorem removal_current : (Ideal.approve 1
    (Ideal.tracked 1 (.removeMember (memberIdOf 2)) Ideal.start)).Current := by
  have hrun : Reaches Conversation.Fresh Conversation.Step Conversation.KeepsCurrent
      (Ideal.approve 1 (Ideal.tracked 1 (.removeMember (memberIdOf 2)) Ideal.start)) := by
    refine .next (.next (.start ⟨[], 10, rfl⟩) (by exact trivial)
      (.incomingProposal _ (Ideal.proposalOf 1 (.removeMember (memberIdOf 2))))) ?_
        (.outcome _ (.consensusReached 1 true 0))
    intro request hresolved _
    have hrequest : (Ideal.tracked 1 (.removeMember (memberIdOf 2)) Ideal.start).resolved 1 =
        some (.removeMember (memberIdOf 2)) := rfl
    cases hrequest.symm.trans hresolved
    refine ⟨?_, ?_, ?_, ?_⟩
    · rintro _ key ⟨⟩
    · rintro _ l ⟨⟩
      decide
    · rintro _ target ⟨⟩
    · rintro ev ⟨⟩
  exact (Conversation.approved_stays_current Ideal.followsCommits hrun).1

end DeMls
