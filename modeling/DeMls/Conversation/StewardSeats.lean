import DeMls.Conversation.Seats

/-!
# Stewards and the seats they inherit

The steward list names leaves and outlives commits. `stewards_settled` says when every member it
makes a steward had joined before the list was elected.
-/

namespace DeMls

open Program Runs

variable {P : Platform}

namespace Conversation

/-! ## Where a list comes from -/

/-- The installed list is `was`, or was drawn from members settled at its election epoch. -/
def ListFrom (was : Option StewardList) (c : Conversation P) : Prop :=
  c.stewardList.list = was ∨ ∃ l, c.stewardList.list = some l ∧
    ∀ id ∈ l.members, c.queues.isSettled id l.electionEpoch = true

theorem isSettled_congr {q q' : ConversationQueues} (h : q'.memberJoinEpoch = q.memberJoinEpoch)
    (id : Bytes) (epoch : Nat) : q'.isSettled id epoch = q.isSettled id epoch := by
  unfold ConversationQueues.isSettled
  rw [h]

theorem ListFrom.of_standing {was : Option StewardList} (c d : Conversation P)
    (h : d.standing = c.standing) (hc : c.ListFrom was) : d.ListFrom was := by
  have hlist : d.stewardList.list = c.stewardList.list := congrArg Prod.snd h
  have hjoin : d.queues.memberJoinEpoch = c.queues.memberJoinEpoch :=
    congrArg (fun s => s.1.ledger.2.2) h
  rcases hc with hkept | ⟨l, hl, hsettled⟩
  · exact .inl (hlist.trans hkept)
  · refine .inr ⟨l, hlist.trans hl, fun id hid => ?_⟩
    rw [isSettled_congr hjoin]
    exact hsettled id hid

/-- What keeps the standing of the conversation installs nothing. -/
theorem keepsList {was : Option StewardList} {α : Type} {x : ConvM P α} (hx : Frame standing x) :
    Preserves (ListFrom was) x :=
  hx.preserves ListFrom.of_standing

theorem settled_of_mem_pool {c : Conversation P} {epoch : Nat} {id : Bytes}
    (h : id ∈ c.settledPool epoch) : c.queues.isSettled id epoch = true :=
  (List.mem_filter.mp h).2

/-- A list generated over the settled pool of its epoch. -/
theorem listFrom_install {was : Option StewardList} {c : Conversation P} {s : StewardListService}
    {epoch sn round : Nat} {pool : List Bytes}
    (hinstall : c.stewardList.installList P epoch pool sn round = .ok s)
    (hpool : ∀ id ∈ pool, id ∈ c.settledPool epoch) :
    ListFrom was { c with stewardList := s } := by
  obtain ⟨l, rfl, hmembers, hepoch⟩ := StewardListService.installList_ok hinstall
  refine .inr ⟨l, rfl, fun id hid => ?_⟩
  rw [hepoch]
  exact settled_of_mem_pool (hpool id (hmembers id hid))

theorem keepsList_reconcile {was : Option StewardList} :
    Preserves (ListFrom was) (reconcileStewardList : ConvM P _) := by
  unfold reconcileStewardList
  refine preserves_get_bind fun c hc => ?_
  dsimp only
  split_ifs
  · exact hc
  · exact hc
  · cases hinstall : c.stewardList.installList P c.epoch (c.settledPool c.epoch)
        (c.stewardList.config.computeListSize (c.settledPool c.epoch).length) 0 with
    | error e => exact hc
    | ok s => exact listFrom_install hinstall fun _ hid => hid

theorem keepsList_electionAccepted {was : Option StewardList} (election : StewardElectionProposal) :
    Preserves (ListFrom was) (handleElectionAccepted election : ConvM P Unit) := by
  unfold handleElectionAccepted
  refine preserves_get_bind fun c hc => ?_
  cases hvalid : c.validateElectionList election with
  | error e => exact hc
  | ok valid =>
    cases valid with
    | false => exact hc
    | true =>
      cases hinstall : c.stewardList.installList P election.electionEpoch
          election.proposedStewards election.proposedStewards.length election.retryRound with
      | error e => exact hc
      | ok s =>
        have hlist : ListFrom was { c with stewardList := s } :=
          listFrom_install hinstall (StewardList.mem_pool_of_validate hvalid)
        exact keepsList frame_electionInstalled { c with stewardList := s } hlist

theorem keepsList_updated {was : Option StewardList} :
    Preserves (ListFrom was) (onConversationUpdated : ConvM P Unit) := by
  have hhousekeeping : Preserves (ListFrom was) (stewardListHousekeeping : ConvM P Unit) := by
    refine preserves_bind keepsList_reconcile fun r => ?_
    cases r with
    | settled => exact keepsList (frame_pure _ _)
    | needsElection => exact keepsList (frame_attempted (frame_initiateStewardElection _))
  unfold onConversationUpdated
  refine preserves_bind (keepsList (frame_modify fun _ => rfl)) fun _ => ?_
  refine preserves_bind (keepsList frame_startWorking) fun event => ?_
  refine preserves_bind (keepsList (frame_emitEvent rfl)) fun _ => ?_
  refine preserves_bind (keepsList frame_reconcileMembershipAfterCommit) fun _ => ?_
  refine preserves_bind hhousekeeping fun _ => ?_
  refine preserves_bind (keepsList frame_processBufferedUpdates) fun _ => ?_
  exact keepsList frame_maybeCloseRecoveryWindow

theorem keepsList_finishOutcome {was : Option StewardList} (id : ProposalId)
    (r : ConsensusApplyResult) (ops : List ScoreOp) :
    Preserves (ListFrom was) (finishOutcome id r ops : ConvM P Unit) := by
  refine preserves_bind (keepsList frame_replayEarlyCandidates) fun _ => ?_
  refine preserves_bind ?_ fun _ => keepsList (frame_afterFollowUp id ops)
  cases r with
  | electionAccepted election => exact keepsList_electionAccepted election
  | _ => exact keepsList (frame_followUp_other (by simp))

/-- **A step** keeps the installed list, or installs one drawn from members settled at its
election epoch. -/
theorem Step.list {c d : Conversation P} {e : Event P} (h : Step c e d) :
    d.ListFrom c.stewardList.list := by
  have hkept : c.ListFrom c.stewardList.list := .inl rfl
  cases h with
  | incomingProposal proposal => exact keepsList (frame_onIncomingProposal proposal) c hkept
  | localProposal request v => exact keepsList (frame_initiateProposal request v) c hkept
  | selfLeave => exact keepsList frame_initiateSelfLeave c hkept
  | outcome event =>
    have hafter := handleConsensusOutcome_after event c
    cases hresolved : c.resolved event.fields.1 with
    | none =>
      rw [hresolved] at hafter
      exact ListFrom.of_standing c _ hafter hkept
    | some request =>
      rw [hresolved] at hafter
      obtain ⟨d, _, _, hlist, hafter⟩ := hafter
      rw [hafter]
      exact keepsList_finishOutcome _ _ _ d (.inl (congrArg StewardListService.list hlist))
  | mint => exact keepsList frame_mintAndBroadcastCandidate c hkept
  | round h =>
    rw [finalizeCommitRound_roundState, onRound, zoom_ok] at h
    obtain ⟨t, _, rfl⟩ := h
    exact .inl rfl
  | roundFailed h =>
    rw [finalizeCommitRound_roundState, onRound, zoom_error] at h
    obtain ⟨e, t, _, _, rfl⟩ := h
    exact .inl rfl
  | updated => exact keepsList_updated c hkept
  | reconcile => exact keepsList_reconcile c hkept
  | environment h => exact .inl (Prod.mk.inj (Prod.mk.inj h).2).2

/-! ## Stewards stay settled -/

/-- Every member on the installed list had joined before its election. -/
def StewardsSettled (c : Conversation P) : Prop :=
  ∀ l, c.stewardList.list = some l → ∀ id ∈ l.members, id ∈ c.members →
    c.queues.isSettled id l.electionEpoch = true

/-- A leaf that the merge of `merged` seats anew. -/
def SeatsAnew (c : Conversation P) (merged : MergedCommit P.mls) (i : LeafNodeIndex) : Prop :=
  i ∉ c.mls.group.populatedLeaves ∨
    i ∈ (vacatedBy P.mls c.mls.group merged.staged).map MemberId.leaf

instance (c : Conversation P) (merged : MergedCommit P.mls) (i : LeafNodeIndex) :
    Decidable (c.SeatsAnew merged i) :=
  inferInstanceAs (Decidable (_ ∨ _))

/-- What the merge of a commit changes of the membership. -/
def commitDelta (c : Conversation P) (merged : MergedCommit P.mls) (d : Conversation P) :
    MembershipDelta :=
  MlsService.delta d.mls.group c.mls.group.populatedLeaves
    (vacatedBy P.mls c.mls.group merged.staged)

theorem mem_added_iff (c : Conversation P) (merged : MergedCommit P.mls) (d : Conversation P)
    (id : Bytes) : id ∈ (c.commitDelta merged d).added.map (fun m => memberIdOf m.index) ↔
      ∃ m ∈ d.mls.group.members, c.SeatsAnew merged m.index ∧ memberIdOf m.index = id := by
  unfold commitDelta SeatsAnew
  simp only [MlsService.delta, List.mem_map, List.mem_filter, decide_eq_true_eq, and_assoc]

theorem mem_removed_iff (c : Conversation P) (merged : MergedCommit P.mls) (d : Conversation P)
    (id : Bytes) : id ∈ (c.commitDelta merged d).removed.map (fun m => memberIdOf m.leaf) ↔
      ∃ v ∈ vacatedBy P.mls c.mls.group merged.staged, memberIdOf v.leaf = id :=
  List.mem_map

section
variable {c d : Conversation P} {merged : MergedCommit P.mls} {batch : List ConversationUpdateRequest}
  {m : Member}

/-- Who is not seated anew was a member before, and is not removed. -/
theorem stays_of_not_seatsAnew {leaf : LeafNodeIndex} (h : ¬ c.SeatsAnew merged leaf) :
    memberIdOf leaf ∈ c.members ∧
      ¬ ∃ v ∈ vacatedBy P.mls c.mls.group merged.staged, memberIdOf v.leaf = memberIdOf leaf := by
  obtain ⟨hseated, hkept⟩ := not_or.mp h
  rw [not_not] at hseated
  refine ⟨MlsGroup.memberIdOf_mem_memberIds.mpr hseated, ?_⟩
  rintro ⟨v, hv, hleaf⟩
  apply hkept
  rw [← memberIdOf_inj.mp hleaf]
  exact List.mem_map_of_mem hv

/-- The join epochs after a merge: those of the newcomers, and of whoever stays. -/
theorem joinEpoch_of_merges
    (hmerge : Merges merged.candidate.commitHash (c.epoch + 1) c.roundState.taken d.roundState
      merged.staged batch) (id : Bytes) :
    d.queues.memberJoinEpoch.find? id =
      if ∃ m ∈ d.mls.group.members, c.SeatsAnew merged m.index ∧ memberIdOf m.index = id then
        some (c.epoch + 1)
      else if ∃ v ∈ vacatedBy P.mls c.mls.group merged.staged, memberIdOf v.leaf = id then none
      else c.queues.memberJoinEpoch.find? id :=
  hmerge.joinEpoch id

/-- A newcomer joins at the epoch that the merge begins. -/
theorem joinEpoch_of_seatsAnew
    (hmerge : Merges merged.candidate.commitHash (c.epoch + 1) c.roundState.taken d.roundState
      merged.staged batch) (hm : m ∈ d.mls.group.members) (hnew : c.SeatsAnew merged m.index) :
    d.queues.memberJoinEpoch.find? (memberIdOf m.index) = some (c.epoch + 1) := by
  rw [joinEpoch_of_merges hmerge, if_pos ⟨m, hm, hnew, rfl⟩]

/-- Everybody else was a member before, and keeps its record. -/
theorem joinEpoch_of_stays
    (hmerge : Merges merged.candidate.commitHash (c.epoch + 1) c.roundState.taken d.roundState
      merged.staged batch) (hstays : ¬ c.SeatsAnew merged m.index) :
    memberIdOf m.index ∈ c.members ∧ d.queues.memberJoinEpoch.find? (memberIdOf m.index) =
      c.queues.memberJoinEpoch.find? (memberIdOf m.index) := by
  obtain ⟨hbefore, hkept⟩ := stays_of_not_seatsAnew hstays
  refine ⟨hbefore, ?_⟩
  rw [joinEpoch_of_merges hmerge, if_neg, if_neg hkept]
  rintro ⟨n, _, hn, heq⟩
  rw [memberIdOf_inj.mp heq] at hn
  exact hstays hn

end

/-- No merge seats a newcomer on a leaf of the installed list, unless the list is elected for a
later epoch than the merge's. -/
def KeepsStewards (c : Conversation P) : Event P → Prop
  | .round _ (some merged) roster => ∀ l, c.stewardList.list = some l → ∀ m ∈ roster,
      c.SeatsAnew merged m.index → memberIdOf m.index ∈ l.members → c.epoch + 1 < l.electionEpoch
  | _ => True

/-- A step over the same group keeps the stewards of a list it does not replace settled. -/
theorem StewardsSettled.of_kept {c d : Conversation P} (h : c.StewardsSettled)
    (hlist : d.stewardList.list = c.stewardList.list)
    (hjoin : d.queues.memberJoinEpoch = c.queues.memberJoinEpoch)
    (hgroup : d.mls.publicPart = c.mls.publicPart) : d.StewardsSettled := by
  have hmembers : d.members = c.members := by
    unfold members MlsService.members MlsGroup.memberIds
    rw [show d.mls.group.members = c.mls.group.members from members_of_publicPart hgroup]
  intro l hl id hid hmember
  rw [hlist] at hl
  rw [hmembers] at hmember
  rw [isSettled_congr hjoin]
  exact h l hl id hid hmember

/-- A merge: a newcomer passed the condition, every other member keeps its join epoch. -/
theorem StewardsSettled.of_merges {c d : Conversation P} (h : c.StewardsSettled)
    {merged : MergedCommit P.mls} {batch : List ConversationUpdateRequest} {allowSubset : Bool}
    (hlist : d.stewardList.list = c.stewardList.list)
    (hcond : KeepsStewards c (.round allowSubset (some merged) d.mls.group.members))
    (hmerge : Merges merged.candidate.commitHash (c.epoch + 1) c.roundState.taken d.roundState
      merged.staged batch) : d.StewardsSettled := by
  intro l hl id hid hmember
  rw [hlist] at hl
  obtain ⟨m, hm, rfl⟩ := List.mem_map.mp hmember
  by_cases hnew : c.SeatsAnew merged m.index
  · unfold ConversationQueues.isSettled
    rw [joinEpoch_of_seatsAnew hmerge hm hnew]
    exact decide_eq_true (hcond l hl m hm hnew hid)
  · obtain ⟨hbefore, hjoin⟩ := joinEpoch_of_stays hmerge hnew
    unfold ConversationQueues.isSettled
    rw [hjoin]
    exact h l hl _ hid hbefore

/-- **One step** keeps the stewards settled. -/
theorem StewardsSettled.step {c d : Conversation P} {e : Event P} (h : c.StewardsSettled)
    (hcond : KeepsStewards c e) (hstep : Step c e d) : d.StewardsSettled := by
  rcases hstep.list with hlist | ⟨l', hl', hsettled⟩
  · cases hstep.effect with
    | kept _ hledger hgroup =>
      exact h.of_kept hlist (congrArg (fun l => l.2.2) hledger) hgroup
    | outcome _ hgroup heffect => exact h.of_kept hlist heffect.joinEpoch hgroup
    | merged hmerge => exact h.of_merges hlist hcond hmerge
  · intro l hl id hid _
    cases hl'.symm.trans hl
    exact hsettled id hid

theorem stewardsSettled_of_fresh {c : Conversation P} (h : Fresh c) : c.StewardsSettled := by
  obtain ⟨id, window, hqueues⟩ := h
  intro l _ member _ _
  rw [hqueues]
  rfl

/-- **Stewards are settled** in every run whose merges seat no newcomer on a leaf of the installed
list: whoever the list, its rotation or its backup reports had joined before the list was
elected. -/
theorem stewards_settled {c : Conversation P} (h : Reaches Fresh Step KeepsStewards c)
    {l : StewardList} (hl : c.stewardList.list = some l) {id : Bytes} (hid : id ∈ c.members)
    (epoch : Nat)
    (hsteward : c.stewardList.isSteward id = true ∨
      c.stewardList.epochSteward epoch (c.queues.stewardEligibility c.members) = some id ∨
      (c.stewardList.epochAndBackup epoch (c.queues.stewardEligibility c.members)).1 = some id ∨
      (c.stewardList.epochAndBackup epoch (c.queues.stewardEligibility c.members)).2 = some id) :
    c.queues.isSettled id l.electionEpoch = true := by
  have hsettled : c.StewardsSettled := h.invariant (fun _ => stewardsSettled_of_fresh)
    fun _ _ _ hI hcond hstep => hI.step hcond hstep
  refine hsettled l hl id ?_ hid
  rcases hsteward with hlisted | hserving | hepoch
  · obtain ⟨l', hl', hlisted⟩ := StewardListService.isSteward_iff.mp hlisted
    cases hl.symm.trans hl'
    exact hlisted
  · unfold StewardListService.epochSteward at hserving
    rw [hl] at hserving
    exact (StewardList.stewardFrom_mem hserving).1
  · unfold StewardListService.epochAndBackup at hepoch
    rw [hl] at hepoch
    exact StewardList.epochAndBackup_mem hepoch

end Conversation

/-- Three members at work; leaves 0 and 2 are stewards. -/
def Ideal.twoStewards : Conversation Ideal.platform :=
  { Ideal.start with stewardList := Ideal.stewardsOf [0, 2] 1 }

/-- The removal of the steward at leaf 2 and a joiner are approved. -/
def Ideal.stewardLeaving : Conversation Ideal.platform :=
  Ideal.approve 2 (Ideal.approve 1 (Ideal.tracked 2 (.memberInvite [20])
    (Ideal.tracked 1 (.removeMember (memberIdOf 2)) Ideal.twoStewards)))

/-- The commit seats the joiner on the steward's leaf, and the conversation follows it up. -/
def Ideal.stewardReplaced : Conversation Ideal.platform :=
  let c := Program.after Conversation.mintAndBroadcastCandidate Ideal.stewardLeaving
  Program.after Conversation.onConversationUpdated
    (Program.after (Conversation.finalizeCommitRound false c.selfMemberId) c)

/-- The joiner is a steward, and serves the new epoch, under a list elected before it joined. -/
theorem joiner_inherits_stewardship :
    Reaches Conversation.Fresh Conversation.Step (fun _ _ => True) Ideal.stewardReplaced ∧
    Ideal.stewardReplaced.keyAt (memberIdOf 2) = some [20] ∧
    Ideal.stewardReplaced.stewardList.isSteward (memberIdOf 2) = true ∧
    Ideal.stewardReplaced.stewardList.epochSteward Ideal.stewardReplaced.epoch
      (Ideal.stewardReplaced.queues.stewardEligibility Ideal.stewardReplaced.members) =
        some (memberIdOf 2) ∧
    Ideal.stewardReplaced.stewardList.list.map StewardList.electionEpoch = some 1 ∧
    Ideal.stewardReplaced.queues.isSettled (memberIdOf 2) 1 = false := by
  have htracked : Reaches Conversation.Fresh Conversation.Step (fun _ _ => True)
      (Ideal.tracked 2 (.memberInvite [20])
        (Ideal.tracked 1 (.removeMember (memberIdOf 2)) Ideal.twoStewards)) :=
    .next (.next (.start ⟨[], 10, rfl⟩) trivial
        (.incomingProposal _ (Ideal.proposalOf 1 (.removeMember (memberIdOf 2))))) trivial
      (.incomingProposal _ (Ideal.proposalOf 2 (.memberInvite [20])))
  have happroved : Reaches Conversation.Fresh Conversation.Step (fun _ _ => True)
      Ideal.stewardLeaving :=
    .next (.next htracked trivial (.outcome _ (.consensusReached 1 true 0))) trivial
      (.outcome _ (.consensusReached 2 true 0))
  let minted := Program.after Conversation.mintAndBroadcastCandidate Ideal.stewardLeaving
  have hends : Program.endsWith (Conversation.finalizeCommitRound false minted.selfMemberId minted)
      (fun _ _ => true) = true := by
    decide +kernel
  obtain ⟨r, merged, hround, _⟩ := Program.exists_of_endsWith hends
  rw [← Program.after_of_ok hround] at hround
  have hminted := Reaches.next happroved trivial (.mint Ideal.stewardLeaving)
  have hmerged := Reaches.next hminted trivial (.round hround)
  have hreplaced := Reaches.next hmerged trivial (.updated _)
  refine ⟨hreplaced, ?_, ?_, ?_, ?_, ?_⟩
  · decide
  · decide
  · decide
  · decide
  · decide

/-- A joiner is approved. -/
def Ideal.joinerApproved : Conversation Ideal.platform :=
  Ideal.approve 1 (Ideal.tracked 1 (.memberInvite [20]) Ideal.twoStewards)

/-- The commit that admits it is merged: it takes a leaf of its own. -/
def Ideal.joinerSeated : Conversation Ideal.platform :=
  let c := Program.after Conversation.mintAndBroadcastCandidate Ideal.joinerApproved
  Program.after (Conversation.finalizeCommitRound false c.selfMemberId) c

/-- The law, where a commit seats a joiner beside the stewards. -/
theorem steward_settled_beside_joiner :
    Ideal.joinerSeated.keyAt (memberIdOf 3) = some [20] ∧
    Ideal.joinerSeated.queues.isSettled (memberIdOf 2) 1 = true := by
  have htracked : Reaches Conversation.Fresh Conversation.Step Conversation.KeepsStewards
      (Ideal.tracked 1 (.memberInvite [20]) Ideal.twoStewards) :=
    .next (.start ⟨[], 10, rfl⟩) (by exact trivial)
      (.incomingProposal _ (Ideal.proposalOf 1 (.memberInvite [20])))
  have happroved : Reaches Conversation.Fresh Conversation.Step Conversation.KeepsStewards
      Ideal.joinerApproved :=
    .next htracked (by exact trivial) (.outcome _ (.consensusReached 1 true 0))
  have hminted := Reaches.next happroved (by exact trivial) (.mint Ideal.joinerApproved)
  let minted := Program.after Conversation.mintAndBroadcastCandidate Ideal.joinerApproved
  have hends : Program.endsWith (Conversation.finalizeCommitRound false minted.selfMemberId minted)
      (fun r _ => r.merged.any fun merged =>
        (vacatedBy Ideal.mls minted.mls.group merged.staged).isEmpty) = true := by
    decide +kernel
  obtain ⟨r, d, hround, hnobody⟩ := Program.exists_of_endsWith hends
  obtain ⟨merged, hmerged, hvacated⟩ := (Option.any_eq_true _ _).mp hnobody
  rw [List.isEmpty_iff] at hvacated
  obtain rfl : Ideal.joinerSeated = d := Program.after_of_ok hround
  have hstep := Conversation.Step.round hround
  rw [hmerged] at hstep
  have hbeside : ∀ m ∈ Ideal.joinerSeated.mls.group.members,
      m.index ∉ minted.mls.group.populatedLeaves →
        memberIdOf m.index ∉ [memberIdOf 0, memberIdOf 2] := by decide
  have hlist : minted.stewardList.list = some ⟨[memberIdOf 0, memberIdOf 2], ⟨1, 2, false⟩, 1, 0⟩ :=
    rfl
  have hcond : Conversation.KeepsStewards minted
      (.round false (some merged) Ideal.joinerSeated.mls.group.members) := by
    intro l hl m hm hnew hlisted
    cases hlist.symm.trans hl
    rcases hnew with hnew | hvacant
    · exact absurd hlisted (hbeside m hm hnew)
    · rw [show vacatedBy Ideal.platform.mls minted.mls.group merged.staged = [] from hvacated]
        at hvacant
      cases hvacant
  have hrun := Reaches.next hminted hcond hstep
  have hstays : memberIdOf 2 ∈ Ideal.joinerSeated.members := by decide +kernel
  have hsteward : Ideal.joinerSeated.stewardList.isSteward (memberIdOf 2) = true := by
    decide +kernel
  have hkept : Ideal.joinerSeated.stewardList.list =
      some ⟨[memberIdOf 0, memberIdOf 2], ⟨1, 2, false⟩, 1, 0⟩ := by
    decide +kernel
  refine ⟨by decide +kernel, ?_⟩
  exact Conversation.stewards_settled hrun hkept hstays 2 (.inl hsteward)

end DeMls
