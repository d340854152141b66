import DeMls.CommitRound.Packing
import DeMls.CommitRound.Report

/-!
# Minted batches against the gates of the round

The builder, the count filter and the action gate each have their own notion of the expected
batch. For the three kinds of batch (normal, urgent, subset) this file says exactly when they
agree.
-/

namespace DeMls

open Program Selection RoundState

variable {P : Platform}

/-! ## What the gates expect -/

/-- Every readable approval counts for the filter. -/
theorem mlsCount_snapshot {q : ConversationQueues}
    (hpack : ∀ req ∈ q.approvedProposals.values, Packable P.mls req) (mls : MlsService P.mls)
    (stewardList : StewardListService) (epoch : Nat) (inRecovery : Bool) (self : Bytes) :
    (RoundContext.snapshot q mls stewardList epoch inRecovery self).mlsCount =
      q.approvedProposals.values.length := by
  show (q.approvedProposals.values.filter (·.producesMlsAction)).length = _
  rw [List.filter_eq_self.mpr]
  intro req hreq
  obtain ⟨_, _, _, _, hproduces⟩ := inputOf_action (hpack req hreq)
  exact hproduces

/-- Readable requests have one action each. -/
theorem length_actions {O : OpenMls} {reqs : List ConversationUpdateRequest}
    (h : ∀ req ∈ reqs, Packable O req) :
    (reqs.filterMap (actionProjectionFromRequest O)).length = reqs.length := by
  induction reqs with
  | nil => rfl
  | cons req rest ih =>
    obtain ⟨_, _, _, hsome, _⟩ := inputOf_action (h req List.mem_cons_self)
    obtain ⟨a, ha⟩ := Option.isSome_iff_exists.mp hsome
    rw [List.filterMap_cons, ha, List.length_cons, List.length_cons,
      ih fun r hr => h r (List.mem_cons_of_mem req hr)]

/-- The action gate lets through a commit with the actions of every approval. -/
theorem validate_of_perm {q : ConversationQueues} {sender : Bytes}
    {actions : List MlsProposalOutput} {ctx : RoundContext}
    (h : (actions.map actionProjectionFromMls).Perm (votedActions P.mls q)) :
    validateCommitCandidate P.mls q sender actions ctx = none := by
  rw [validateCommitCandidate_eq_none_iff]
  intro a
  exact h.symm.mem_iff

/-! ## Normal batches -/

namespace Conversation

/-- A mint with no urgent target over applicable approvals takes the first `commit_batch_max` of
them. -/
theorem length_normal_candidate {c c' : Conversation P} {minter : Bytes}
    {candidate : CommitCandidate} (hurgent : c.queues.urgentCommitTarget = none)
    (happ : ∀ req ∈ c.queues.approvedProposals.values, Applicable P.mls c.mls.group req)
    (hmint : localCandidate minter c = .ok (some candidate) c') :
    candidate.mlsProposals.length =
      min c.config.commitBatchMax c.queues.approvedProposals.values.length := by
  rw [length_localCandidate (fun req hreq => (happ req hreq).packable) hmint, hurgent,
    List.filter_eq_self.mpr, List.length_take]
  intro req hreq
  exact packs_none_iff.mpr (happ req (List.mem_of_mem_take hreq))

/-- **Builder and validator agree on a normal batch** exactly up to `commit_batch_max` approvals:
the filter counts the whole queue, the builder stops there. -/
theorem normal_batch_accepted_iff {c c' : Conversation P} {minter : Bytes}
    {candidate : CommitCandidate} {updates : List MlsCommitInput} {joiners : List Bytes}
    {q : ConversationQueues} {actions : List MlsProposalOutput}
    {candidates : List BufferedCommitCandidate} {b : BufferedCommitCandidate}
    (hurgent : c.queues.urgentCommitTarget = none)
    (happ : ∀ req ∈ c.queues.approvedProposals.values, Applicable P.mls c.mls.group req)
    (hmint : localCandidate minter c = .ok (some candidate) c')
    (hpacked : c.packedBatch = .ok (updates, joiners))
    (hqueue : q.approvedProposals.values.Perm c.queues.approvedProposals.values)
    (hstaged : (actions.map actionProjectionFromMls).Perm (updates.filterMap (inputAction P.mls)))
    (hb : b ∈ candidates) (hmsg : b.candidateMsg = candidate) (mls : MlsService P.mls)
    (stewardList : StewardListService) (epoch : Nat) (inRecovery : Bool) (self : Bytes) :
    (b ∈ rankApplicableCandidates candidates
        (RoundContext.snapshot q mls stewardList epoch inRecovery self) false ∧
      validateCommitCandidate P.mls q minter actions
        (RoundContext.snapshot q mls stewardList epoch inRecovery self) = none) ↔
    c.queues.approvedProposals.values.length ≤ c.config.commitBatchMax := by
  have hpack : ∀ req ∈ c.queues.approvedProposals.values, Packable P.mls req :=
    fun req hreq => (happ req hreq).packable
  have hpackq : ∀ req ∈ q.approvedProposals.values, Packable P.mls req :=
    fun req hreq => hpack req (hqueue.mem_iff.mp hreq)
  have hlen := length_normal_candidate hurgent happ hmint
  have hcount : b ∈ rankApplicableCandidates candidates
      (RoundContext.snapshot q mls stewardList epoch inRecovery self) false ↔
      candidate.mlsProposals.length = c.queues.approvedProposals.values.length := by
    unfold rankApplicableCandidates countApplicable
    rw [mem_sortBy, List.mem_filter, mlsCount_snapshot hpackq, hqueue.length_eq, hmsg]
    simp [hb]
  rw [hcount, hlen]
  constructor
  · rintro ⟨h, _⟩
    omega
  · intro hmax
    refine ⟨by omega, validate_of_perm (hstaged.trans ?_)⟩
    -- Nothing is cut off, so the packed updates are the actions of the whole queue.
    obtain ⟨joiners', hall⟩ := @packUpdates_eq _ c.mls.group c.queues.urgentCommitTarget _ hpack
    unfold packedBatch at hpacked
    rw [List.take_of_length_le hmax, hall, hurgent, List.filter_eq_self.mpr
      fun req hreq => packs_none_iff.mpr (happ req hreq)] at hpacked
    cases hpacked
    rw [filterMap_inputAction hpack]
    exact hqueue.symm.filterMap _

end Conversation

/-- Two joiners approved, and batches of one. -/
def Ideal.oversized : Conversation Ideal.platform :=
  let c := Ideal.conversationOf 0 1 [[10], [11]] (Ideal.stewardsOf [0, 1] 1)
    [.memberInvite [20], .memberInvite [30]] none
  { c with config := { c.config with commitBatchMax := 1 } }

/-- The minted batch of one is not a candidate for a queue of two. -/
theorem oversized_batch_rejected : ∃ candidate c' b,
    (∀ req ∈ Ideal.oversized.queues.approvedProposals.values,
      Applicable Ideal.mls Ideal.oversized.mls.group req) ∧
    Conversation.localCandidate (memberIdOf 0) Ideal.oversized = .ok (some candidate) c' ∧
    b ∈ c'.queues.commitRound.candidates ∧ b.candidateMsg = candidate ∧
    b ∉ rankApplicableCandidates c'.queues.commitRound.candidates
      (RoundContext.snapshot Ideal.oversized.queues Ideal.oversized.mls
        Ideal.oversized.stewardList 1 false (memberIdOf 1)) false := by
  refine ⟨_, _, _, ?_, rfl, List.mem_cons_self, rfl, ?_⟩
  · intro req hreq
    exact packs_none_iff.mp ((by decide : ∀ req ∈ Ideal.oversized.queues.approvedProposals.values,
      packs Ideal.mls Ideal.oversized.mls.group none req = true) req hreq)
  · decide

/-- A joiner and a removal approved, a default batch. -/
def Ideal.mixed : Conversation Ideal.platform :=
  Ideal.conversationOf 0 1 [[10], [11], [12]] (Ideal.stewardsOf [0, 1] 1)
    [.memberInvite [20], .removeMember (memberIdOf 2)] none

/-- The same approvals in the order another node took them. -/
def Ideal.mixedElsewhere : ConversationQueues :=
  { ConversationQueues.new [] 10 with
    approvedProposals := Ideal.approvedOf [.removeMember (memberIdOf 2), .memberInvite [20]] }

/-- The law, at that batch. -/
theorem mixed_batch_accepted : ∃ candidate c' b,
    Conversation.localCandidate (memberIdOf 0) Ideal.mixed = .ok (some candidate) c' ∧
    c'.queues.commitRound.candidates = [b] ∧
    ((b ∈ rankApplicableCandidates [b] (RoundContext.snapshot Ideal.mixedElsewhere
          Ideal.mixed.mls Ideal.mixed.stewardList 1 false (memberIdOf 1)) false ∧
        validateCommitCandidate Ideal.mls Ideal.mixedElsewhere (memberIdOf 0)
          [.remove (memberIdOf 2), .add [20]] (RoundContext.snapshot Ideal.mixedElsewhere
            Ideal.mixed.mls Ideal.mixed.stewardList 1 false (memberIdOf 1)) = none) ↔
      Ideal.mixed.queues.approvedProposals.values.length ≤ Ideal.mixed.config.commitBatchMax) := by
  obtain ⟨candidate, c', b, hmint, hbuf, hmsg⟩ : ∃ candidate c' b,
      Conversation.localCandidate (memberIdOf 0) Ideal.mixed = .ok (some candidate) c' ∧
      c'.queues.commitRound.candidates = [b] ∧ b.candidateMsg = candidate :=
    ⟨_, _, _, rfl, rfl, rfl⟩
  have happ : ∀ req ∈ Ideal.mixed.queues.approvedProposals.values,
      Applicable Ideal.mls Ideal.mixed.mls.group req := by
    intro req hreq
    exact packs_none_iff.mp ((by decide : ∀ req ∈ Ideal.mixed.queues.approvedProposals.values,
      packs Ideal.mls Ideal.mixed.mls.group none req = true) req hreq)
  exact ⟨candidate, c', b, hmint, hbuf, Conversation.normal_batch_accepted_iff rfl happ hmint rfl
    (by decide) (by decide) (List.mem_singleton_self b) hmsg _ _ _ _ _⟩

/-! ## The one candidate of its author -/

theorem mem_of_only {l : List BufferedCommitCandidate} {author : Bytes}
    {b : BufferedCommitCandidate}
    (hone : l.filter (fun d => d.candidateMsg.stewardMemberId = author) = [b]) :
    b ∈ l ∧ b.candidateMsg.stewardMemberId = author := by
  have : b ∈ l.filter fun d => decide (d.candidateMsg.stewardMemberId = author) := by
    rw [hone]
    exact List.mem_singleton_self b
  exact ⟨(List.mem_filter.mp this).1, of_decide_eq_true (List.mem_filter.mp this).2⟩

/-- The ranking holds no other candidate of its author. -/
theorem ranking_only {s : RoundState P} {stewardList : StewardListService}
    {inRecovery allowSubset : Bool} {self author : Bytes} {b : BufferedCommitCandidate}
    {pre post : List BufferedCommitCandidate}
    (hone : s.roundCandidates.filter (fun d => d.candidateMsg.stewardMemberId = author) = [b])
    (hrank : s.ranking stewardList inRecovery allowSubset self = pre ++ b :: post) :
    (∀ d ∈ pre, d.candidateMsg.stewardMemberId ≠ author) ∧
      ∀ d ∈ post, d.candidateMsg.stewardMemberId ≠ author := by
  let byAuthor := fun d : BufferedCommitCandidate => decide (d.candidateMsg.stewardMemberId = author)
  have hb : byAuthor b = true := decide_eq_true (mem_of_only hone).2
  have hlen : ((s.ranking stewardList inRecovery allowSubset self).filter byAuthor).length ≤ 1 := by
    have hperm := (sortBy_perm (compareCandidatePriority
      (s.context stewardList inRecovery self).epochStewardId) (s.roundCandidates.filter
        (countApplicable (s.context stewardList inRecovery self) allowSubset))).filter byAuthor
    have hcomm : (s.roundCandidates.filter
        (countApplicable (s.context stewardList inRecovery self) allowSubset)).filter byAuthor =
          [b].filter (countApplicable (s.context stewardList inRecovery self) allowSubset) := by
      rw [List.filter_comm, hone]
    rw [hcomm] at hperm
    have hle := List.length_filter_le
      (countApplicable (s.context stewardList inRecovery self) allowSubset) [b]
    exact hperm.length_eq.trans_le hle
  rw [hrank, List.filter_append, List.filter_cons_of_pos hb, List.length_append,
    List.length_cons] at hlen
  have hpre : pre.filter byAuthor = [] := List.length_eq_zero_iff.mp (by omega)
  have hpost : post.filter byAuthor = [] := List.length_eq_zero_iff.mp (by omega)
  rw [List.filter_eq_nil_iff] at hpre hpost
  exact ⟨fun d hd hid => hpre d hd (decide_eq_true hid),
    fun d hd hid => hpost d hd (decide_eq_true hid)⟩

/-- When the loop of the round reaches the candidate, it stages as its author's with these
actions. -/
def StagesAs (stewardList : StewardListService) (inRecovery allowSubset : Bool) (self : Bytes)
    (s : RoundState P) (b : BufferedCommitCandidate) (author : Bytes) (acts : List Action) : Prop :=
  ∀ pre post ops u, s.ranking stewardList inRecovery allowSubset self = pre ++ b :: post →
    RejectRun stewardList (s.context stewardList inRecovery self) pre ops s.taken u →
    ∃ selfRemoved actions t, stageCandidate b.candidateMsg (s.context stewardList inRecovery self)
        u = .ok (.staged author selfRemoved actions) t ∧
      (actions.map actionProjectionFromMls).Perm acts

/-- For the only ranked candidate, that is one run of staging. -/
theorem stagesAs_of_ranking {stewardList : StewardListService} {inRecovery allowSubset : Bool}
    {self author : Bytes} {s t : RoundState P} {b : BufferedCommitCandidate} {acts : List Action}
    {selfRemoved : Bool} {actions : List MlsProposalOutput}
    (hrank : s.ranking stewardList inRecovery allowSubset self = [b])
    (hstage : stageCandidate b.candidateMsg (s.context stewardList inRecovery self) s.taken =
      .ok (.staged author selfRemoved actions) t)
    (hactions : (actions.map actionProjectionFromMls).Perm acts) :
    StagesAs stewardList inRecovery allowSubset self s b author acts := by
  intro pre post ops u hsplit hrun
  rw [hrank, List.singleton_eq_append_iff] at hsplit
  rcases hsplit with ⟨rfl, _⟩ | ⟨_, hnil⟩
  · cases hrun
    exact ⟨selfRemoved, actions, t, hstage, hactions⟩
  · cases hnil

/-- A candidate of an authorised author whose actions are the voted ones passes the ladder. -/
theorem ladder_of_actions {stewardList : StewardListService} {q : ConversationQueues}
    {ctx : RoundContext} {author : Bytes} {selfRemoved : Bool} {actions : List MlsProposalOutput}
    (hauth : ctx.inRecovery = true ∨ stewardList.isSteward author = true)
    (hactions : (actions.map actionProjectionFromMls).Perm (votedActions P.mls q)) :
    ladder P.mls stewardList q ctx (.staged author selfRemoved actions) = none := by
  rw [ladder_eq_none_iff]
  refine ⟨author, selfRemoved, actions, rfl, ?_, validate_of_perm hactions⟩
  unfold checkCommitSenderAuthorized
  rcases hauth with hrec | hsteward
  · rw [if_pos hrec]
  · split_ifs <;> rfl

/-! ## Urgent removals -/

/-- With an urgent target the loop takes its removal only. -/
theorem eq_removal_of_packs {O : OpenMls} {g : MlsGroup O.Secrets} {target : Bytes}
    {req : ConversationUpdateRequest} (h : packs O g (some target) req = true) :
    req = .removeMember target := by
  obtain ⟨payload⟩ := req
  unfold packs at h
  cases payload with
  | none => cases h
  | some payload =>
    cases payload with
    | memberInvite kp => simp at h
    | removeMember id =>
      simp only [Option.all_some, Bool.and_eq_true, decide_eq_true_eq] at h
      rw [h.1]
      rfl
    | emergencyCriteria ev => cases h
    | stewardElection e => cases h

/-- An urgent mint over distinct approvals takes the target's removal, once. -/
theorem Conversation.urgent_batch {c c' : Conversation P} {minter target : Bytes}
    {candidate : CommitCandidate} (hurgent : c.queues.urgentCommitTarget = some target)
    (hpack : ∀ req ∈ c.queues.approvedProposals.values, Packable P.mls req)
    (hdistinct : (votedActions P.mls c.queues).Nodup)
    (hmint : localCandidate minter c = .ok (some candidate) c') :
    (c.queues.approvedProposals.values.take c.config.commitBatchMax).filter
      (packs P.mls c.mls.group (some target)) = [.removeMember target] := by
  let taken := (c.queues.approvedProposals.values.take c.config.commitBatchMax).filter
    (packs P.mls c.mls.group (some target))
  have hsub : taken.Sublist c.queues.approvedProposals.values :=
    List.filter_sublist.trans (List.take_sublist _ _)
  have hall : taken = List.replicate taken.length (.removeMember target) :=
    List.eq_replicate_of_mem fun req hreq => eq_removal_of_packs (List.mem_filter.mp hreq).2
  have hone : taken.length ≤ 1 := by
    have hnodup := hdistinct.sublist (hsub.filterMap (actionProjectionFromRequest P.mls))
    rw [hall] at hnodup
    by_contra hmany
    obtain ⟨n, hn⟩ : ∃ n, taken.length = n + 2 := ⟨taken.length - 2, by omega⟩
    rw [hn] at hnodup
    simp [List.replicate_succ, actionProjectionFromRequest,
      ConversationUpdateRequest.removeMember] at hnodup
  have hsome : taken.length ≠ 0 := by
    obtain ⟨updates, _, _, _, hbatch, hupdates, _⟩ := localCandidate_some hmint
    obtain ⟨_, hbatch'⟩ := @packUpdates_eq _ c.mls.group c.queues.urgentCommitTarget _
      fun req hreq => hpack req (List.mem_of_mem_take (i := c.config.commitBatchMax) hreq)
    unfold packedBatch at hbatch
    rw [hbatch', hurgent] at hbatch
    cases hbatch
    intro hzero
    rw [List.length_eq_zero_iff] at hzero
    apply hupdates
    show taken.filterMap inputOf = []
    rw [hzero]
    rfl
  have hlen : taken.length = 1 := by omega
  show taken = _
  rw [hall, hlen]
  rfl

/-- An urgent candidate is applied in strict mode: it is ranked, and once the candidates ranked
before it are dropped it merges, its author is not accused of broken proposals, and the queue
loses the target's removal. -/
def UrgentApplied (stewardList : StewardListService) (self : Bytes) (s : RoundState P)
    (b : BufferedCommitCandidate) (target : Bytes) : Prop :=
  b ∈ s.ranking stewardList false false self ∧
  ∀ pre post ops u, s.ranking stewardList false false self = pre ++ b :: post →
    RejectRun stewardList (s.context stewardList false self) pre ops s.taken u →
    ∃ r t merged, finalizeCommitRound stewardList false false self s = .ok r t ∧
      r.merged = some merged ∧ merged.candidate = b ∧
      (∀ op ∈ r.scoreOps, op.memberId = b.candidateMsg.stewardMemberId →
        op.event ≠ .brokenMlsProposal) ∧
      t.queues.approvedProposals.entries =
        s.queues.approvedProposals.entries.filter fun e => !removesMember e.2 target

/-- **An urgent removal is applied** exactly when nothing else is queued: the builder restricts the
batch to the target, the count filter and the action gate still expect the whole queue. -/
theorem urgent_removal_applied_iff {c c' : Conversation P} {minter target : Bytes}
    {candidate : CommitCandidate} {updates : List MlsCommitInput} {joiners : List Bytes}
    {s : RoundState P} {stewardList : StewardListService} {self : Bytes}
    {b : BufferedCommitCandidate} (hO : MlsService.Reliable P.mls)
    (hurgent : c.queues.urgentCommitTarget = some target)
    (happ : ∀ req ∈ c.queues.approvedProposals.values, Applicable P.mls c.mls.group req)
    (hdistinct : (votedActions P.mls c.queues).Nodup)
    (hqueued : c.queues.hasApprovedRemoval target = true)
    (hmint : Conversation.localCandidate minter c = .ok (some candidate) c')
    (hpacked : c.packedBatch = .ok (updates, joiners))
    (hqueue : s.queues.approvedProposals = c.queues.approvedProposals)
    (htarget : s.queues.urgentCommitTarget = some target)
    (hown : s.mls.group.ownLeafIndex ∈ s.mls.group.populatedLeaves)
    (hsteward : stewardList.isSteward minter = true) (hmsg : b.candidateMsg = candidate)
    (hone : s.roundCandidates.filter (fun d => d.candidateMsg.stewardMemberId = minter) = [b])
    (hstages : b.isLocalCandidate = false →
      StagesAs stewardList false false self s b minter (updates.filterMap (inputAction P.mls))) :
    UrgentApplied stewardList self s b target ↔
      c.queues.approvedProposals.values.length = 1 := by
  have hpack : ∀ req ∈ c.queues.approvedProposals.values, Packable P.mls req :=
    fun req hreq => (happ req hreq).packable
  have hbatch := Conversation.urgent_batch hurgent hpack hdistinct hmint
  have hlen : candidate.mlsProposals.length = 1 := by
    rw [Conversation.length_localCandidate hpack hmint, hurgent, hbatch]
    rfl
  have hlabel := (mem_of_only hone).2
  have hcount : b ∈ s.ranking stewardList false false self ↔
      c.queues.approvedProposals.values.length = 1 := by
    have hb := (mem_of_only hone).1
    unfold RoundState.ranking RoundState.context rankApplicableCandidates countApplicable
    rw [mem_sortBy, List.mem_filter, mlsCount_snapshot (by rwa [hqueue]), hqueue, hmsg, hlen]
    simp [hb, eq_comm]
  constructor
  · intro h
    exact hcount.mp h.1
  · intro hsingle
    refine ⟨hcount.mpr hsingle, ?_⟩
    intro pre post ops u hrank hrun
    have hu := members_of_visible hrun.visible
    -- The one approval is the target's removal, and the batch is that removal.
    obtain ⟨e, he, hpayload⟩ := ConversationQueues.hasApprovedRemoval_iff.mp hqueued
    obtain ⟨e', hentries⟩ := List.length_eq_one_iff.mp
      (by simpa [OrderedMap.values] using hsingle : c.queues.approvedProposals.entries.length = 1)
    rw [hentries, List.mem_singleton] at he
    subst he
    have hreq : e.2 = .removeMember target := by
      show e.2 = ⟨some (.removeMember target)⟩
      rw [← hpayload]
    have hvalues : c.queues.approvedProposals.values = [.removeMember target] := by
      rw [OrderedMap.values, hentries, List.map_singleton, hreq]
    have hvoted : votedActions P.mls s.queues = [(.remove, target)] := by
      rw [votedActions, hqueue, hvalues]
      rfl
    have happlied : ∃ outcome committer batch merged t,
        applyCandidate stewardList b (s.context stewardList false self) u =
          .ok (.terminal outcome committer batch merged) t := by
      by_cases hlocal : b.isLocalCandidate = true
      · refine applyCandidate_own hO stewardList _ hlocal ?_
        unfold MlsGroup.populatedLeaves
        rw [hu.2.1, hu.2.2.2]
        exact hown
      · rw [Bool.not_eq_true] at hlocal
        obtain ⟨selfRemoved, actions, t, hstage, hactions⟩ := hstages hlocal pre post ops u hrank hrun
        refine applyCandidate_accepted hO hlocal hstage (ladder_of_actions (.inr hsteward) ?_)
        rw [hu.1]
        show List.Perm _ (votedActions P.mls s.queues)
        rw [hvoted]
        obtain ⟨_, hall⟩ := @packUpdates_eq _ c.mls.group c.queues.urgentCommitTarget _
          fun req hreq => hpack req (List.mem_of_mem_take (i := c.config.commitBatchMax) hreq)
        unfold Conversation.packedBatch at hpacked
        rw [hall, hurgent, hbatch] at hpacked
        cases hpacked
        exact hactions
    obtain ⟨outcome, committer, batch, merged, t, hterminal⟩ := happlied
    obtain ⟨hmerged, hcommitter, _, _, _⟩ := applyCandidate_terminal hterminal
    have hfin := finalizeCommitRound_reaches hrank hrun hterminal
    refine ⟨_, t, merged, hfin, rfl, hmerged, ?_, ?_⟩
    · intro op hop hid hevent
      rcases List.mem_append.mp hop with hop | hop
      · obtain ⟨d, hd, hd'⟩ := hrun.broken hop hevent
        exact (ranking_only hone hrank).1 d hd (hd'.trans (hid.trans hlabel))
      · exact (winnerScores_mem hop).1 hevent
    · have hdropped : removesMember e.2 target = true := by
        rw [hreq]
        simp [removesMember, ConversationUpdateRequest.removeMember]
      have htaken : s.taken.queues.urgentCommitTarget = some target := htarget
      have hentriess : s.queues.approvedProposals.entries = [e] := by rw [hqueue, hentries]
      have htakens : s.taken.queues.approvedProposals.entries = [e] := hentriess
      rw [(finalizeCommitRound_merged hfin rfl).1.approved.1, htaken]
      simp [hentriess, htakens, hdropped]

/-- An urgent removal of leaf 2, beside other approvals. -/
def Ideal.urgentBeside (others : List ConversationUpdateRequest) (own : LeafNodeIndex) :
    Conversation Ideal.platform :=
  Ideal.conversationOf own 1 [[10], [11], [12]] (Ideal.stewardsOf [0, 1] 1)
    (.removeMember (memberIdOf 2) :: others) (some (memberIdOf 2))

/-- Leaf 0 minted, leaf 1 received. -/
def Ideal.urgentRound (others : List ConversationUpdateRequest) : RoundState Ideal.platform :=
  Ideal.receiving (Ideal.urgentBeside others 1) [Ideal.minted (Ideal.urgentBeside others 0)]

/-- With a joiner queued beside it, the removal is not applied. -/
theorem urgent_removal_stuck : ∃ c' b,
    Conversation.localCandidate (memberIdOf 0) (Ideal.urgentBeside [.memberInvite [20]] 0) =
      .ok (some b.candidateMsg) c' ∧
    (Ideal.urgentRound [.memberInvite [20]]).roundCandidates = [b] ∧
    ¬ UrgentApplied (Ideal.stewardsOf [0, 1] 1) (memberIdOf 1)
      (Ideal.urgentRound [.memberInvite [20]]) b (memberIdOf 2) := by
  refine ⟨_, _, rfl, rfl, fun h => absurd h.1 ?_⟩
  decide

/-- Alone in the queue, the removal is applied. -/
theorem urgent_removal_alone : ∃ b, (Ideal.urgentRound []).roundCandidates = [b] ∧
    (UrgentApplied (Ideal.stewardsOf [0, 1] 1) (memberIdOf 1) (Ideal.urgentRound []) b
        (memberIdOf 2) ↔
      (Ideal.urgentBeside [] 0).queues.approvedProposals.values.length = 1) := by
  obtain ⟨b, c', t, hbuf, hrank, hmint, hstage⟩ : ∃ b c' t,
      (Ideal.urgentRound []).roundCandidates = [b] ∧
      (Ideal.urgentRound []).ranking (Ideal.stewardsOf [0, 1] 1) false false (memberIdOf 1) = [b] ∧
      Conversation.localCandidate (memberIdOf 0) (Ideal.urgentBeside [] 0) =
        .ok (some b.candidateMsg) c' ∧
      stageCandidate b.candidateMsg
        ((Ideal.urgentRound []).context (Ideal.stewardsOf [0, 1] 1) false (memberIdOf 1))
        (Ideal.urgentRound []).taken =
          .ok (.staged (memberIdOf 0) false [.remove (memberIdOf 2)]) t :=
    ⟨_, _, _, rfl, rfl, rfl, rfl⟩
  have hone : (Ideal.urgentRound []).roundCandidates.filter
      (fun d => d.candidateMsg.stewardMemberId = memberIdOf 0) = [b] := by
    rw [← hbuf]
    decide
  have happ : ∀ req ∈ (Ideal.urgentBeside [] 0).queues.approvedProposals.values,
      Applicable Ideal.mls (Ideal.urgentBeside [] 0).mls.group req := by
    intro req hreq
    exact packs_none_iff.mp ((by decide : ∀ req ∈
      (Ideal.urgentBeside [] 0).queues.approvedProposals.values,
        packs Ideal.mls (Ideal.urgentBeside [] 0).mls.group none req = true) req hreq)
  refine ⟨b, hbuf, ?_⟩
  exact urgent_removal_applied_iff Ideal.reliable rfl happ (by decide) (by decide) hmint rfl rfl rfl
    (by decide) (by decide) rfl hone fun _ => stagesAs_of_ranking hrank hstage (by decide)

/-! ## Subsets -/

/-- A subset candidate is applied in subset mode: it is ranked, it passes the ladder, and once the
candidates ranked before it are dropped it merges and its author takes no penalty. -/
def SubsetApplied (stewardList : StewardListService) (inRecovery : Bool) (self : Bytes)
    (s : RoundState P) (b : BufferedCommitCandidate) (author : Bytes) (acts : List Action) : Prop :=
  b ∈ s.ranking stewardList inRecovery true self ∧
  (∀ selfRemoved actions, (actions.map actionProjectionFromMls).Perm acts →
    ladder P.mls stewardList s.queues (s.context stewardList inRecovery self)
      (.staged author selfRemoved actions) = none) ∧
  ∀ pre post ops u, s.ranking stewardList inRecovery true self = pre ++ b :: post →
    RejectRun stewardList (s.context stewardList inRecovery self) pre ops s.taken u →
    ∃ r t merged rest, finalizeCommitRound stewardList inRecovery true self s = .ok r t ∧
      r.merged = some merged ∧ merged.candidate = b ∧ r.scoreOps = ops ++ rest ∧
      ∀ op ∈ rest, op.memberId = author → op.event = .successfulCommit

/-- A part of distinct approvals has all their actions only if it is all of them. -/
theorem eq_of_same_actions {O : OpenMls} {subset reqs : List ConversationUpdateRequest}
    (hpack : ∀ req ∈ reqs, Packable O req)
    (hdistinct : (reqs.filterMap (actionProjectionFromRequest O)).Nodup)
    (hsub : subset.Sublist reqs)
    (hsame : ∀ a, a ∈ reqs.filterMap (actionProjectionFromRequest O) ↔
      a ∈ subset.filterMap (actionProjectionFromRequest O)) : subset = reqs := by
  have hnodup := hdistinct.sublist (hsub.filterMap (actionProjectionFromRequest O))
  have hperm := (List.perm_ext_iff_of_nodup hdistinct hnodup).mpr hsame
  have hlen := hperm.length_eq
  rw [length_actions hpack, length_actions fun req hreq => hpack req (hsub.subset hreq)] at hlen
  exact hsub.eq_of_length hlen.symm

/-- **A subset candidate is applied** exactly when the subset is the whole queue: the count filter
lets smaller commits pass in subset mode, the action gate never does. -/
theorem subset_applied_iff {s : RoundState P} {stewardList : StewardListService}
    {inRecovery : Bool} {self author : Bytes} {b : BufferedCommitCandidate}
    {subset : List ConversationUpdateRequest} (hO : MlsService.Reliable P.mls)
    (happ : ∀ req ∈ s.queues.approvedProposals.values, Applicable P.mls s.mls.group req)
    (hdistinct : (votedActions P.mls s.queues).Nodup)
    (hsub : subset.Sublist s.queues.approvedProposals.values)
    (hauth : inRecovery = true ∨ stewardList.isSteward author = true)
    (hremote : b.isLocalCandidate = false)
    (hlen : b.candidateMsg.mlsProposals.length = subset.length)
    (hone : s.roundCandidates.filter (fun d => d.candidateMsg.stewardMemberId = author) = [b])
    (hstages : StagesAs stewardList inRecovery true self s b author
      (subset.filterMap (actionProjectionFromRequest P.mls))) :
    SubsetApplied stewardList inRecovery self s b author
        (subset.filterMap (actionProjectionFromRequest P.mls)) ↔
      subset = s.queues.approvedProposals.values := by
  have hpack : ∀ req ∈ s.queues.approvedProposals.values, Packable P.mls req :=
    fun req hreq => (happ req hreq).packable
  constructor
  · rintro ⟨_, hladder, _⟩
    refine eq_of_same_actions hpack hdistinct hsub ?_
    -- The ladder is the same whatever staging reports, so a report is made up from the subset.
    let report : Action → MlsProposalOutput := fun a =>
      match a with
      | (.add, id) => .add id
      | (.remove, id) => .remove id
    have hreport : ((subset.filterMap (actionProjectionFromRequest P.mls)).map report).map
        actionProjectionFromMls = subset.filterMap (actionProjectionFromRequest P.mls) := by
      rw [List.map_map]
      refine (List.map_congr_left ?_).trans (List.map_id _)
      rintro ⟨_ | _, id⟩ _ <;> rfl
    obtain ⟨_, _, _, heq, _, hvalid⟩ := ladder_eq_none_iff.mp
      (hladder false _ (List.Perm.of_eq hreport))
    cases heq
    rw [validateCommitCandidate_eq_none_iff, hreport] at hvalid
    exact hvalid
  · intro hall
    have hladder : ∀ selfRemoved actions, (actions.map actionProjectionFromMls).Perm
        (subset.filterMap (actionProjectionFromRequest P.mls)) →
        ladder P.mls stewardList s.queues (s.context stewardList inRecovery self)
          (.staged author selfRemoved actions) = none := by
      intro selfRemoved actions hactions
      rw [hall] at hactions
      exact ladder_of_actions hauth hactions
    refine ⟨?_, hladder, ?_⟩
    · have hb := (mem_of_only hone).1
      unfold RoundState.ranking RoundState.context rankApplicableCandidates countApplicable
      rw [mem_sortBy, List.mem_filter, mlsCount_snapshot hpack, hlen, hall]
      simp [hb]
    · intro pre post ops u hrank hrun
      obtain ⟨selfRemoved, actions, v, hstage, hactions⟩ := hstages pre post ops u hrank hrun
      have hu := (members_of_visible hrun.visible).1
      have hpasses : ladder P.mls stewardList u.queues (s.context stewardList inRecovery self)
          (.staged author selfRemoved actions) = none := by
        rw [hu]
        exact hladder selfRemoved actions hactions
      obtain ⟨outcome, committer, batch, merged, t, hterminal⟩ :=
        applyCandidate_accepted hO hremote hstage hpasses
      obtain ⟨hmerged, hcommitter, _⟩ := applyCandidate_terminal hterminal
      rw [(mem_of_only hone).2] at hcommitter
      subst hcommitter
      refine ⟨_, t, merged, _, finalizeCommitRound_reaches hrank hrun hterminal, rfl, hmerged, rfl, ?_⟩
      intro op hop hid
      exact (winnerScores_mem hop).2 (ranking_only hone hrank).2 hid

/-- Four members; `approved` is the queue of the one at leaf `own`. -/
def Ideal.recovering (own : LeafNodeIndex) (approved : List ConversationUpdateRequest) :
    Conversation Ideal.platform :=
  Ideal.conversationOf own 1 [[10], [11], [12], [13]] (Ideal.stewardsOf [0, 1] 1) approved none

/-- Leaf 0 minted the joiner's admission, leaf 2 with this queue received it. -/
def Ideal.recoveryRound (approved : List ConversationUpdateRequest) : RoundState Ideal.platform :=
  Ideal.receiving (Ideal.recovering 2 approved)
    [Ideal.minted (Ideal.recovering 0 [.memberInvite [20]])]

/-- Where a removal is approved too, the commit of the joiner alone is not applied. -/
theorem subset_commit_dropped : ∃ b,
    (Ideal.recoveryRound [.memberInvite [20], .removeMember (memberIdOf 3)]).roundCandidates = [b] ∧
    ¬ SubsetApplied (Ideal.stewardsOf [0, 1] 1) true (memberIdOf 2)
      (Ideal.recoveryRound [.memberInvite [20], .removeMember (memberIdOf 3)]) b (memberIdOf 0)
      ([.memberInvite [20]].filterMap (actionProjectionFromRequest Ideal.mls)) := by
  refine ⟨_, rfl, fun h => ?_⟩
  have hpassed := h.2.1 false [.add [20]] (by decide)
  revert hpassed
  decide

/-- Where nothing else is approved it is. -/
theorem whole_queue_applied : ∃ b,
    (Ideal.recoveryRound [.memberInvite [20]]).roundCandidates = [b] ∧
    (SubsetApplied (Ideal.stewardsOf [0, 1] 1) true (memberIdOf 2)
        (Ideal.recoveryRound [.memberInvite [20]]) b (memberIdOf 0)
        ([.memberInvite [20]].filterMap (actionProjectionFromRequest Ideal.mls)) ↔
      [.memberInvite [20]] =
        (Ideal.recoveryRound [.memberInvite [20]]).queues.approvedProposals.values) := by
  obtain ⟨b, t, hbuf, hrank, hremote, hlen, hstage⟩ : ∃ b t,
      (Ideal.recoveryRound [.memberInvite [20]]).roundCandidates = [b] ∧
      (Ideal.recoveryRound [.memberInvite [20]]).ranking (Ideal.stewardsOf [0, 1] 1) true true
        (memberIdOf 2) = [b] ∧
      b.isLocalCandidate = false ∧ b.candidateMsg.mlsProposals.length = 1 ∧
      stageCandidate b.candidateMsg ((Ideal.recoveryRound [.memberInvite [20]]).context
          (Ideal.stewardsOf [0, 1] 1) true (memberIdOf 2))
        (Ideal.recoveryRound [.memberInvite [20]]).taken =
          .ok (.staged (memberIdOf 0) false [.add [20]]) t :=
    ⟨_, _, rfl, rfl, rfl, rfl, rfl⟩
  have hone : (Ideal.recoveryRound [.memberInvite [20]]).roundCandidates.filter
      (fun d => d.candidateMsg.stewardMemberId = memberIdOf 0) = [b] := by
    rw [← hbuf]
    decide
  have happ : ∀ req ∈ (Ideal.recoveryRound [.memberInvite [20]]).queues.approvedProposals.values,
      Applicable Ideal.mls (Ideal.recoveryRound [.memberInvite [20]]).mls.group req := by
    intro req hreq
    exact packs_none_iff.mp ((by decide : ∀ req ∈
      (Ideal.recoveryRound [.memberInvite [20]]).queues.approvedProposals.values,
        packs Ideal.mls (Ideal.recoveryRound [.memberInvite [20]]).mls.group none req = true)
      req hreq)
  refine ⟨b, hbuf, ?_⟩
  exact subset_applied_iff Ideal.reliable happ (by decide) (List.Sublist.refl _) (.inl rfl) hremote
    hlen hone (stagesAs_of_ranking hrank hstage (by decide))

end DeMls
