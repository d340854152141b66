import DeMls.Conversation.Occupants
import DeMls.Conversation.OneList
import DeMls.Conversation.View

/-!
# The members the integrator is told of

A commit changes the members at once, and is reported once the membership is reconciled, in the poll
that merged it (`finishRound_reports`). The report names handles, and the merge moves nobody from
one leaf to another, so what the reports leave is the roster (`mem_roster_iff`). An integrator that
reads the events knows every phase the machine went through (`phases_walked`), and who the members
are (`view_current`).
-/

namespace DeMls

open Program Relation Runs

/-- Anything comes in, but no commit. -/
def Sources.uncommitted : Sources :=
  { Sources.any with founder := fun _ => False, commits := False, drains := False }

/-- Anything comes in, and the events stay. -/
def Sources.undrained : Sources := { Sources.any with drains := False }

namespace Conversation

variable {P : Platform} {α : Type}

/-! ## Comings and goings -/

/-- The node told that it leaves. -/
def Left (v : View) (c : Conversation P) : Prop := (v.after c.pendingEvents).left = true

/-- Every member that was reported, and nobody else, is a member. -/
def Accounts (v : View) (c : Conversation P) : Prop :=
  ∀ id, id ∈ (v.after c.pendingEvents).roster ↔ id ∈ c.roster

/-- The node left, or the members that were reported are the members. -/
def RosterTold (v : View) (c : Conversation P) : Prop :=
  c.Left v ∨ c.Accounts v

/-- A commit is merged, and its `delta` is still to be reported. -/
def ReportDue (v : View) (delta : MembershipDelta) (c : Conversation P) : Prop :=
  ∀ id, id ∈ c.roster ↔
    (id ∈ (v.after c.pendingEvents).roster ∧ id ∉ delta.removed) ∨
      id ∈ delta.added.map MemberId.ofMember

section
variable {v : View} {fail : Conversation P → Prop}

theorem reported_path {src : Sources} (hcommits : ¬ src.commits) (hdrains : ¬ src.drains) (v : View)
    {c d : Conversation P} (h : ReflTransGen (Act src) c d) :
    (v.after d.pendingEvents).roster = (v.after c.pendingEvents).roster :=
  path_keeps (p := fun c : Conversation P => (v.after c.pendingEvents).roster)
    (ReflTransGen.mono (fun _ _ hstep => hstep.keeps_reported hcommits hdrains v) _ _ h)

theorem roster_path {src : Sources} (hcommits : ¬ src.commits) (hfounder : ∀ u, ¬ src.founder u)
    {c d : Conversation P} (h : ReflTransGen (Act src) c d) : d.roster = c.roster :=
  congrArg (List.map MemberId.ofMember)
    (path_keeps (p := fun c : Conversation P => c.mls.group.members)
      (ReflTransGen.mono (fun _ _ hstep => Act.keeps_members hcommits hfounder hstep) _ _ h))

theorem Left.path {src : Sources} (hdrains : ¬ src.drains) {c d : Conversation P} (hc : c.Left v)
    (h : ReflTransGen (Act src) c d) : d.Left v := by
  induction h with
  | refl => exact hc
  | tail _ hstep ih => exact hstep.keeps_left hdrains ih

section
variable {src : Sources} (hcommits : ¬ src.commits) (hfounder : ∀ u, ¬ src.founder u)
  (hdrains : ¬ src.drains)
include hcommits hfounder hdrains

theorem Accounts.path {c d : Conversation P} (hc : c.Accounts v) (h : ReflTransGen (Act src) c d) :
    d.Accounts v := by
  unfold Accounts
  rw [roster_path hcommits hfounder h, reported_path hcommits hdrains v h]
  exact hc

theorem RosterTold.path {c d : Conversation P} (hc : c.RosterTold v)
    (h : ReflTransGen (Act src) c d) : d.RosterTold v :=
  hc.imp (fun hleft => hleft.path hdrains h) fun haccounts =>
    haccounts.path hcommits hfounder hdrains h

end

theorem told_quiet {x : ConvM P α} (h : Along (Act Sources.uncommitted) x) :
    Preserves (RosterTold v) x :=
  fun c hc => hc.path id (fun _ => id) id (h c)

theorem due_along {delta : MembershipDelta} {x : ConvM P α}
    (h : Along (Act Sources.uncommitted) x) : Preserves (ReportDue v delta) x := by
  intro c hc
  unfold ReportDue
  rw [roster_path id (fun _ => id) (h c), reported_path id id v (h c)]
  exact hc

/-- **The reconciliation** makes the report. -/
theorem triple_reconcileMembershipAfterCommit (hS : P.scores.Infallible) (delta : MembershipDelta) :
    Triple (fun c : Conversation P => c.queues.pendingMembershipDelta = some delta ∧ c.ReportDue v delta)
      reconcileMembershipAfterCommit (fun _ => RosterTold v) fail := by
  have hkept : ∀ {x : ConvM P Unit}, Succeeds x → Along (Act Sources.uncommitted) x →
      Triple (ReportDue v delta) x (fun _ => ReportDue v delta) fail :=
    fun hx h => triple_succeeds hx (due_along h)
  unfold reconcileMembershipAfterCommit
  refine triple_get_bind fun c hc => ?_
  obtain ⟨hdelta, hdue⟩ := hc
  rw [show c.queues.takeMembershipDelta.1 = delta by
    unfold ConversationQueues.takeMembershipDelta
    simp [hdelta]]
  have htaken : Triple (· = c) (modifyQueues fun q => q.takeMembershipDelta.2)
      (fun _ => ReportDue v delta) fail := triple_modify fun d hd => hd ▸ hdue
  refine triple_bind htaken fun _ => ?_
  refine triple_bind (hkept ((scores_succeed hS).2 _).2 (Act.scored _).2) fun _ => ?_
  refine triple_bind (hkept ((scores_succeed hS).2 _).1 (Act.scored _).1) fun _ => ?_
  have hexpired : Triple (ReportDue v delta)
      (modifyQueues fun q => q.expirePendingUpdates c.epoch c.config.pendingUpdateMaxEpochs)
      (fun _ => ReportDue v delta) fail := triple_modify fun _ h => h
  refine triple_bind hexpired fun _ => triple_ite (fun _ => ?_) fun hnone => ?_
  · refine triple_modify fun d hd => .inr fun id => ?_
    show id ∈ (v.after (d.pendingEvents ++ [.membersChanged delta.added delta.removed])).roster ↔
      id ∈ d.roster
    rw [View.after_concat, hd id]
    simp [View.see]
  · refine triple_pure fun d hd => .inr fun id => ?_
    rw [not_or, not_not, not_not] at hnone
    rw [hd id, hnone.1, hnone.2]
    simp

end

/-! ### The merge -/

section
variable {c d : Conversation P} {merged : MergedCommit P.mls}

theorem find?_of_seatsApart {members : List Member} (h : (members.map Member.index).Nodup)
    {m : Member} (hm : m ∈ members) : members.find? (fun n => n.index = m.index) = some m := by
  induction members with
  | nil => cases hm
  | cons n rest ih =>
    obtain ⟨hfirst, hrest⟩ := List.nodup_cons.mp h
    rcases List.mem_cons.mp hm with rfl | hm
    · exact List.find?_cons_of_pos (by simp)
    · have hother : n.index ≠ m.index := fun heq => hfirst (heq ▸ List.mem_map_of_mem hm)
      rw [List.find?_cons_of_neg (by simpa using hother)]
      exact ih hrest hm

/-- A member is removed under its handle exactly if a Remove proposal names its leaf. -/
theorem ofMember_mem_vacatedBy (hseats : SeatsApart c.mls) (staged : Option P.mls.StagedCommit)
    {m : Member} (hm : m ∈ c.mls.group.members) :
    MemberId.ofMember m ∈ vacatedBy P.mls c.mls.group staged ↔ m.index ∈ removedBy P.mls staged := by
  cases staged with
  | none => exact iff_of_false List.not_mem_nil List.not_mem_nil
  | some staged =>
    unfold vacatedBy removedBy MlsService.removedMembersOf
    rw [List.mem_filterMap]
    constructor
    · rintro ⟨leaf, hleaf, hid⟩
      obtain ⟨n, hn, hid⟩ := Option.map_eq_some_iff.mp hid
      have hindex : n.index = leaf := MlsGroup.memberAt_index hn
      rwa [← show n.index = m.index from congrArg MemberId.leaf hid, hindex]
    · exact fun hleaf => ⟨m.index, hleaf, Option.map_eq_some_iff.mpr
        ⟨m, find?_of_seatsApart hseats hm, rfl⟩⟩

/-- **The roster of a merge**, by handle: whoever the delta adds, and whoever was there and is not
removed. -/
theorem mem_roster_iff (hO : FollowsCommits P.mls) (hbefore : SeatsApart c.mls)
    (hafter : SeatsApart d.mls) (htree : TreeStep P.mls c.mls.group d.mls.group merged.staged)
    (id : MemberId) : id ∈ d.roster ↔
      (id ∈ c.roster ∧ id ∉ (c.commitDelta merged d).removed) ∨
        id ∈ (c.commitDelta merged d).added.map MemberId.ofMember := by
  have hreseats := htree.reseats hO
  have hstays : ∀ m ∈ c.mls.group.members,
      MemberId.ofMember m ∉ vacatedBy P.mls c.mls.group merged.staged →
        d.mls.group.members.find? (fun n => n.index = m.index) = some m := fun m hm hkept =>
    hreseats.stays m.index m (find?_of_seatsApart hbefore hm)
      (mt (ofMember_mem_vacatedBy hbefore merged.staged hm).mpr hkept)
  have hadded : ∀ m, m ∈ (c.commitDelta merged d).added ↔
      m ∈ d.mls.group.members ∧ c.SeatsAnew merged m.index := by
    intro m
    unfold commitDelta SeatsAnew
    simp only [MlsService.delta, List.mem_filter, decide_eq_true_eq]
  constructor
  · intro hid
    obtain ⟨m, hm, rfl⟩ := List.mem_map.mp hid
    by_cases hnew : c.SeatsAnew merged m.index
    · exact .inr (List.mem_map_of_mem ((hadded m).mpr ⟨hm, hnew⟩))
    · -- Whoever held the leaf before still holds it, so it is the same member.
      obtain ⟨hseated, hkept⟩ := not_or.mp hnew
      obtain ⟨n, hn, hindex⟩ := List.mem_map.mp (not_not.mp hseated)
      have hfind := hstays n hn fun hvacated =>
        hkept (List.mem_map.mpr ⟨_, hvacated, hindex⟩)
      rw [hindex, find?_of_seatsApart hafter hm] at hfind
      cases hfind
      exact .inl ⟨List.mem_map_of_mem hn, fun hremoved => hkept (List.mem_map_of_mem hremoved)⟩
  · rintro (⟨hid, hkept⟩ | hid)
    · obtain ⟨m, hm, rfl⟩ := List.mem_map.mp hid
      exact List.mem_map_of_mem (List.mem_of_find?_eq_some (hstays m hm hkept))
    · obtain ⟨m, hm, rfl⟩ := List.mem_map.mp hid
      exact List.mem_map_of_mem ((hadded m).mp hm).1

end

/-! ### The follow-up -/

section
variable {v : View}

/-- A node whose commit removes it tells so. -/
theorem finishRound_leaves (inRecovery hasProposals : Bool) {result : CommitRoundResult P.mls}
    {welcome : Option MemberWelcome} (h : result.outcome = .applied .leaveConversation welcome)
    (c : Conversation P) : (after (finishRound inRecovery hasProposals result) c).Left v := by
  have hquiet : ∀ {x : ConvM P Unit}, Succeeds x →
      Triple (fun _ => True) x (fun _ _ => True) (Left v) :=
    fun hx => triple_succeeds hx fun _ _ => trivial
  have hemits : Triple (fun _ => True) (emitEvent .leaving : ConvM P Unit) (fun _ => Left v)
      (Left v) := by
    refine triple_modify fun d _ => ?_
    show (v.after (d.pendingEvents ++ [.leaving])).left = true
    rw [View.after_concat]
    rfl
  have hrest : Preserves (Left v) (do
      cancelAllAutoVotes
      let _ ← (attempt (onMls MlsService.delete) : ConvM P _)
      pure () : ConvM P Unit) := by
    have hdelete : Along (Act Sources.uncommitted) (do
        cancelAllAutoVotes
        let _ ← (attempt (onMls MlsService.delete) : ConvM P _)
        pure () : ConvM P Unit) :=
      along_bind (Act.modifyTiming _) fun _ => along_attempted (Act.runs fun _ => .delete)
    exact fun d hd => hd.path id (hdelete d)
  have hdispatch : Triple (fun _ => True) (dispatchInboundResult .leaveConversation : ConvM P _)
      (fun _ => Left v) (Left v) :=
    triple_bind (triple_bind hemits fun _ => hrest.triple) fun _ => triple_pure fun _ h => h
  have hfinish : Triple (fun _ => True) (finishRound inRecovery hasProposals result)
      (fun _ => Left v) (Left v) := by
    unfold finishRound
    refine triple_bind (hquiet (applyRoundScores_succeeds _)) fun _ => ?_
    refine triple_bind (hquiet (succeeds_ite (succeeds_pure _) (succeeds_modify _))) fun _ => ?_
    rw [h]
    refine triple_bind (hquiet (succeeds_modify _)) fun _ => triple_bind (hquiet ?_) fun _ => ?_
    · cases welcome with
      | none => exact succeeds_pure _
      | some w => exact succeeds_deliverWelcome w
    · have hcaught : Triple (fun _ => True)
          (attempt (dispatchInboundResult .leaveConversation) : ConvM P _) (fun _ => Left v)
          (Left v) :=
        triple_attempt (hdispatch.weaken (fun _ h => h) (fun _ _ h => h) fun _ h _ => h)
      refine triple_bind hcaught fun o => ?_
      cases o <;> exact triple_pure fun _ h => h
  exact hfinish.after trivial

theorem records_applyScoreOps (ops : List ScoreOp) :
    Frame records (applyScoreOps ops : ConvM P Unit) :=
  frame_bind (frame_zoom fun _ _ => rfl) fun changes c =>
    (Prod.mk.inj (tenure_emitScoreChanges changes c)).2

/-- **The follow-up of a commit** reports who came and went. -/
theorem finishRound_reports (hS : P.scores.Infallible) (inRecovery hasProposals : Bool)
    {result : CommitRoundResult P.mls} {welcome : Option MemberWelcome}
    (h : result.outcome = .applied .conversationUpdated welcome)
    (hwelcome : ∀ w, welcome = some w → w.conversationSyncBytes = []) {delta : MembershipDelta}
    {c : Conversation P} (hdelta : c.queues.pendingMembershipDelta = some delta)
    (hdue : c.ReportDue v delta) :
    (after (finishRound inRecovery hasProposals result) c).RosterTold v := by
  have hreward : Along (Act Sources.uncommitted) (reward inRecovery result : ConvM P Unit) := by
    refine along_bind (Act.applyRoundScores _) fun _ => ?_
    refine along_bind (along_ite (along_pure _) (Act.emitEvent rfl)) fun _ => fun c => ?_
    cases inRecovery with
    | true => exact .single (.mode c .normal c.recoveryRounds)
    | false => exact .refl
  have hhandOver : Along (Act Sources.uncommitted) (handOver welcome : ConvM P Unit) := by
    unfold handOver
    refine along_bind ?_ fun _ => along_bind (fun c => ?_) fun _ =>
      along_bind (Act.startWorking trivial) fun _ => Act.tellPhase trivial _
    · cases welcome with
      | none => exact along_pure _
      | some w => exact Act.deliverWelcome (hwelcome w rfl)
    · refine .head (.configured c (l := c.stewardList.resetRetry) rfl rfl (.inl rfl)) ?_
      exact .single (.timers _ { c.timing with reelectionRecovered := false })
  have hhousekeep : Along (Act Sources.uncommitted) (housekeep : ConvM P Unit) :=
    along_bind Act.stewardListHousekeeping fun _ => along_bind Act.processBufferedUpdates fun _ =>
      along_bind along_get fun _ =>
        along_ite (along_attempted (Act.initiateStewardElection true)) (along_pure _)
  have hrecords : (after (handOver welcome) (after (reward inRecovery result) c)).records =
      c.records := by
    rw [(Prod.mk.inj (tenure_handOver welcome _)).2, (Prod.mk.inj (tenure_reward _ _ c)).2,
      records_applyScoreOps]
  rw [finishRound_after h]
  have hreport : Triple (fun c : Conversation P =>
      c.queues.pendingMembershipDelta = some delta ∧ c.ReportDue v delta) (do
        reconcileMembershipAfterCommit
        housekeep) (fun _ => RosterTold v) (RosterTold v) :=
    triple_bind (triple_reconcileMembershipAfterCommit hS delta) fun _ => (told_quiet hhousekeep).triple
  refine hreport.after ⟨(congrArg (fun r => r.2.1) hrecords).trans hdelta, ?_⟩
  exact due_along hhandOver _ (due_along hreward c hdue)

end

/-! ## Entry points -/

section
variable {v : View}

/-- **How a round ends.** It merges nothing, and acts that merge nothing follow; or it merges a
commit that it has a verdict on, and the follow-up of that commit is all that is left. -/
theorem selectAndFinalize_ends (inRecovery : Bool) (c : Conversation P) :
    (∃ t : RoundState P, t.mls.publicPart = c.mls.publicPart ∧
      ReflTransGen (Act Sources.uncommitted) (roundPart.set t c.selecting)
        (after (selectAndFinalize inRecovery) c)) ∨
    ∃ r t merged selfRemoved welcome,
      DeMls.finalizeCommitRound c.stewardList c.isInRecoveryMode
        (inRecovery || c.stewardList.config.allowSubsetCandidates) c.selfMemberId c.roundState =
          .ok r t ∧
      r.merged = some merged ∧ r.outcome = .applied (leaveOrUpdate selfRemoved) welcome ∧
      (∀ w, welcome = some w → w.conversationSyncBytes = []) ∧
      after (selectAndFinalize inRecovery) c = after (finishRound inRecovery
        (decide (0 < c.queues.approvedProposalsCount)) r) (roundPart.set t c.selecting) := by
  rw [selectAndFinalize_after]
  cases hround : DeMls.finalizeCommitRound c.stewardList c.isInRecoveryMode
      (inRecovery || c.stewardList.config.allowSubsetCandidates) c.selfMemberId c.roundState with
  | error e t =>
    have hfailed : Along (Act Sources.uncommitted) (do
        emitEvent (.error "commit_round_finalize" e)
        recoverFromFinalizeError : ConvM P DispatchOutcome) :=
      along_bind (Act.emitEvent rfl) fun _ => Act.recoverFromFinalizeError trivial
    exact .inl ⟨t, (Prod.mk.inj (finalizeCommitRound_error hround)).2, hfailed _⟩
  | ok r t =>
    cases hmerged : r.merged with
    | none =>
      obtain ⟨hvisible, houtcome, _⟩ := finalizeCommitRound_not_merged hround hmerged
      have hfinish : Along (Act Sources.uncommitted) (finishRound inRecovery
          (decide (0 < c.queues.approvedProposalsCount)) r : ConvM P DispatchOutcome) := by
        unfold finishRound
        refine along_bind (Act.applyRoundScores _) fun _ => ?_
        refine along_bind (along_ite (along_pure _) (Act.emitEvent rfl)) fun _ => ?_
        rw [houtcome]
        exact along_ite (Act.finishRecoveryRound trivial _) (Act.finishNoCandidate trivial _)
      exact .inl ⟨t, (Prod.mk.inj hvisible).2, hfinish _⟩
    | some merged =>
      have happlied := (finalizeCommitRound_merged hround hmerged).2
      have hbare := finalizeCommitRound_bare hround
      cases houtcome : r.outcome with
      | noCandidate =>
        rw [houtcome] at happlied
        cases happlied
      | applied result welcome =>
        rw [houtcome] at hbare
        obtain ⟨⟨selfRemoved, rfl⟩, hwelcome⟩ := hbare
        exact .inr ⟨r, t, merged, selfRemoved, welcome, rfl, hmerged, houtcome, hwelcome, rfl⟩

/-- **A round** reports the commit it merges. -/
theorem rosterTold_selectAndFinalize (hS : P.scores.Infallible) (hO : FollowsCommits P.mls)
    (hK : KeepsApart P.mls) (inRecovery : Bool) {c : Conversation P} (hseats : SeatsApart c.mls)
    (hc : c.RosterTold v) : (after (selectAndFinalize inRecovery) c).RosterTold v := by
  rcases hc with hleft | haccounts
  · have hpath : ReflTransGen (Act Sources.undrained) c (after (selectAndFinalize inRecovery) c) :=
      Act.selectAndFinalize trivial trivial inRecovery c
    exact .inl (hleft.path id hpath)
  have hkept : ∀ {d e : Conversation P}, ReflTransGen (Act Sources.uncommitted) d e →
      d.Accounts v → e.Accounts v := fun h hd => hd.path id (fun _ => id) id h
  have hselecting : c.selecting.Accounts v :=
    hkept ((ReflTransGen.single (.phase c .selection _ trivial)).tail (.told _ _ trivial)) haccounts
  rcases selectAndFinalize_ends inRecovery c with ⟨t, hpart, hpath⟩ |
    ⟨r, t, merged, selfRemoved, welcome, hround, hmerged, houtcome, hwelcome, hrun⟩
  · have hmembers : (roundPart.set t c.selecting).roster = c.selecting.roster :=
      congrArg (List.map MemberId.ofMember) (members_of_publicPart hpart)
    have hset : (roundPart.set t c.selecting).Accounts v := by
      unfold Accounts
      rw [hmembers]
      exact hselecting
    exact .inr (hkept hpath hset)
  · rw [hrun]
    cases selfRemoved with
    | true => exact .inl (finishRound_leaves _ _ houtcome _)
    | false =>
      have hmerges := (finalizeCommitRound_merged hround hmerged).1
      have hafter : SeatsApart (roundPart.set t c.selecting).mls := hseats.of_tree hK hmerges.tree
      refine finishRound_reports hS _ _ houtcome hwelcome hmerges.membershipDelta fun id => ?_
      exact (mem_roster_iff hO hseats hafter hmerges.tree id).trans
        (or_congr_left (and_congr_left fun _ => (hselecting id).symm))

theorem Listed.path (hK : KeepsApart P.mls) {src : Sources} {c d : Conversation P} (hc : c.Listed)
    (h : ReflTransGen (Act src) c d) : d.Listed := by
  induction h with
  | refl => exact hc
  | tail _ hstep ih => exact hstep.listed hK ih

section
variable {I : Conversation P → Prop}
  (hpath : ∀ {src : Sources} {c d}, ¬ src.commits → (∀ u, ¬ src.founder u) → ¬ src.drains →
    ReflTransGen (Act src) c d → I c → I d)
  (hround : ∀ inRecovery {c}, I c → I (after (selectAndFinalize inRecovery) c))
include hpath hround

theorem advanceFreezing_keeps {c : Conversation P} (hc : I c) : I (after advanceFreezing c) := by
  have hquiet : ∀ {c d}, ReflTransGen (Act Sources.uncommitted) c d → I c → I d :=
    hpath id (fun _ => id) id
  have hreport : Along (Act Sources.uncommitted) (reportProgress : ConvM P DispatchOutcome) :=
    along_bind along_get fun _ => along_ite (along_bind (Act.modifyTiming _) fun _ =>
      along_bind (Act.emitEvent rfl) fun _ => along_pure _) (along_pure _)
  have hcollecting : I c.freezingState := hquiet (freezing_path c) hc
  rw [after_advanceFreezing]
  split_ifs
  · exact hquiet (.single (.timers c _)) hc
  · exact hround _ hcollecting
  · exact hquiet (hreport _) hcollecting

theorem poll_keeps (fuel : Nat) {c : Conversation P} (hc : I c) : I (after (poll fuel) c) := by
  have htick : ReflTransGen (Act Sources.uncommitted) c (after (tickDeadlines fuel) c) :=
    Act.tickDeadlines fuel c trivial fun _ _ => trivial
  have hkept : ∀ {x : ConvM P Unit}, Along (Act Sources.uncommitted) x → Preserves I x :=
    fun h c hc => hpath id (fun _ => id) id (h c) hc
  obtain ⟨hbuffered, hresend, hrequest, hretry⟩ := @Act.drivers P Sources.uncommitted
  rw [after_poll]
  exact afterDrivers_keeps (hkept hbuffered) (hkept hresend) (hkept hrequest)
    (hkept (Act.startFreezeOnInactivity trivial)) (hkept hretry)
    (advanceFreezing_keeps hpath hround (hpath id (fun _ => id) id htick hc))

/-- **Calls** merge a commit in a round only. -/
theorem leaves_keeps (e : EntryPoint) (he : e ≠ .drainEvents) {c : Conversation P} (hc : I c) :
    I (e.leaves c) := by
  cases e with
  | poll fuel => exact poll_keeps hpath hround fuel hc
  | drainEvents => exact absurd rfl he
  | _ => exact hpath id (fun _ => id) id (EntryPoint.acts _ c) hc

end

/-- **Every call** but the reading of the events tells who came and went. -/
theorem rosterTold_leaves (hS : P.scores.Infallible) (hO : FollowsCommits P.mls)
    (hK : KeepsApart P.mls) (e : EntryPoint) (he : e ≠ .drainEvents) {c : Conversation P}
    (hlisted : c.Listed) (hc : c.RosterTold v) : (e.leaves c).RosterTold v := by
  refine (leaves_keeps (I := fun c : Conversation P => c.Listed ∧ c.RosterTold v)
    (fun hcommits hfounder hdrains h hc => ⟨hc.1.path hK h, hc.2.path hcommits hfounder hdrains h⟩)
    (fun inRecovery c hc => ⟨?_, ?_⟩) e he ⟨hlisted, hc⟩).2
  · have hpath : ReflTransGen (Act Sources.any) c (after (selectAndFinalize inRecovery) c) :=
      Act.selectAndFinalize trivial trivial inRecovery c
    exact hc.1.path hK hpath
  · exact rosterTold_selectAndFinalize hS hO hK inRecovery hc.1.seats hc.2

/-- What the constructors return has told its phase, and nobody came or went. -/
theorem ConstructedOver.told {G : MlsService P.mls → Prop} {c : Conversation P}
    (h : ConstructedOver G c) {v : View} (hv : v.phases = []) :
    c.PhaseTold v ∧ (v.after c.pendingEvents).roster = v.roster := by
  have hassembled : ∀ {base : Conversation P}, AssembledOver G base → base.Unused →
      base.PhaseTold v ∧ (v.after base.pendingEvents).roster = v.roster := by
    intro base hbase hunused
    unfold PhaseTold
    rw [hbase.queued.1, hunused.state]
    refine ⟨?_, rfl⟩
    show ConversationState.Walk (v.phases ++ [.working]) .working
    rw [hv]
    exact .start
  cases h with
  | @create mls scoring consensus now appId config initialMembers base _ hgroup hbase hseed =>
    let src : Sources := { Sources.steadfast with commits := False }
    have hunused := unused_of_assemble hbase
    obtain ⟨htold, hroster⟩ :=
      hassembled ⟨mls, scoring, consensus, now, appId, config, true, hgroup, hbase⟩ hunused
    have hpath : ReflTransGen (Act src) base (after (seedInitialMembers initialMembers) base) :=
      Act.seedInitialMembers hunused.fresh fun _ _ => trivial
    rw [after_of_ok hseed] at hpath
    exact ⟨htold.path id id hpath, (reported_path id id v hpath).trans hroster⟩
  | @join W welcomeBytes syncBytes consensus scoring now appId config _ hgroup hjoin =>
    unfold Conversation.join at hjoin
    split at hjoin
    · cases hjoin
    · cases hjoin
    · rename_i mls hmls
      split at hjoin
      · cases hjoin
      · rename_i base hbase
        obtain ⟨htold, hroster⟩ := hassembled
          ⟨mls, scoring, consensus, now, appId, config, false, hgroup mls hmls, hbase⟩
          (unused_of_assemble hbase)
        let src : Sources := { Sources.undrained with commits := False }
        have hpath : ReflTransGen (Act src) base (after (settleIn syncBytes) base) :=
          Act.settleIn base trivial trivial (fun _ _ => trivial) fun _ _ _ _ => trivial
        have hsettled := told_settleIn syncBytes base htold
        have hreported := reported_path id id v hpath
        split at hjoin
        · cases hjoin
        · rename_i hsettle
          cases hjoin
          rw [after_of_ok hsettle] at hsettled hreported
          exact ⟨hsettled, hreported.trans hroster⟩

end

/-! ## The integrator -/

/-- What the integrator knows after a call: it reads the events that it takes. -/
def seen (v : View) (c : Conversation P) (e : EntryPoint) (_ : Conversation P) : View :=
  match e with
  | .drainEvents => v.after c.pendingEvents
  | _ => v

/-- A conversation that was constructed over a group with `G`, with an integrator that knew the
members then and reads the events. -/
def Observes (G : MlsService P.mls → Prop) : Conversation P × View → Prop :=
  Reaches (fun s => ConstructedOver G s.1 ∧ s.2 = ⟨[], s.1.roster, false⟩)
    (watch seen fun c (e : EntryPoint) d => d = e.leaves c) fun _ _ => True

/-- **Invariants of what the integrator knows.** -/
theorem Observes.invariant {G : MlsService P.mls → Prop} {I : View → Conversation P → Prop}
    (hstart : ∀ c, ConstructedOver G c → I ⟨[], c.roster, false⟩ c)
    (hdrain : ∀ v c, I v c → I (v.after c.pendingEvents) { c with pendingEvents := [] })
    (hleaves : ∀ v c (e : EntryPoint), e ≠ .drainEvents → I v c → I v (e.leaves c))
    {s : Conversation P × View} (h : Observes G s) : I s.2 s.1 := by
  refine Reaches.invariant (I := fun s : Conversation P × View => I s.2 s.1)
    (fun s hs => ?_) (fun s e t hs _ ht => ?_) h
  · rw [hs.2]
    exact hstart _ hs.1
  · obtain ⟨hstep, hread⟩ := ht
    rw [hread, hstep]
    cases e with
    | drainEvents => exact hdrain _ _ hs
    | _ => exact hleaves _ _ _ (by simp) hs

theorem Observes.rosterTold (hS : P.scores.Infallible) (hO : FollowsCommits P.mls)
    (hK : KeepsApart P.mls) {s : Conversation P × View} (h : Observes SeatsApart s) :
    s.1.RosterTold s.2 := by
  suffices hboth : s.1.Listed ∧ s.1.RosterTold s.2 from hboth.2
  refine h.invariant (I := fun v c => c.Listed ∧ c.RosterTold v) (fun c hc => ?_)
    (fun v c hc => ⟨?_, hc.2⟩) fun v c e he hc => ⟨hc.1.path hK (e.acts c), ?_⟩
  · refine ⟨Lives.listed hK (.start hc), .inr fun id => ?_⟩
    rw [(hc.told rfl).2]
  · have hdrained : Act Sources.any c { c with pendingEvents := [] } := .drainedEvents c trivial
    exact hc.1.path hK (.single hdrained)
  · exact rosterTold_leaves hS hO hK e he hc.1 hc.2

/-- **The roster is current.** At any moment of the life of a conversation, once the integrator
reads the events that are out, it holds exactly the members, until the node leaves. -/
theorem view_current (hS : P.scores.Infallible) (hO : FollowsCommits P.mls) (hK : KeepsApart P.mls)
    {s : Conversation P × View} (h : Observes SeatsApart s)
    (hstays : (s.2.after s.1.pendingEvents).left = false) (id : MemberId) :
    id ∈ (s.2.after s.1.pendingEvents).roster ↔ id ∈ s.1.roster := by
  refine (h.rosterTold hS hO hK).resolve_left (fun hleft => ?_) id
  rw [show (s.2.after s.1.pendingEvents).left = true from hleft] at hstays
  cases hstays

end Conversation

namespace Ideal

theorem reseats_of_seatedAfter {members after : List Member} {c : StagedCommit}
    (h : seatedAfter members c.changes = .ok after) : Reseats capped (some c) members after := by
  unfold seatedAfter at h
  split_ifs at h
  cases h
  have hreseats := reseats_rosterAfter c members
  exact ⟨hreseats.stays, hreseats.origin⟩

theorem capped_followsCommits : FollowsCommits capped where
  own _ _ _ h := by
    obtain ⟨c, hpending, _, hseated⟩ := capped_mergePendingCommit h
    rw [hpending]
    exact reseats_of_seatedAfter hseated
  remote _ _ _ _ _ h := reseats_of_seatedAfter (congrArg Prod.fst h)

/-- The creator invites a member, mints, reads its events, and merges its commit. -/
def observed : Conversation cappedPlatform × View :=
  [.addMember [11], .poll 4, .clock (seconds 60), .poll 4, .drainEvents, .clock (seconds 90),
    .poll 4].foldl (fun s (e : Conversation.EntryPoint) =>
      (e.leaves s.1, Conversation.seen s.2 s.1 e (e.leaves s.1)))
    (creator, ⟨[], creator.roster, false⟩)

theorem observes_observed {G : MlsService cappedPlatform.mls → Prop} (h : G creator.mls) :
    Conversation.Observes G observed := by
  have hseeds : (Conversation.seedInitialMembers [] : ConvM cappedPlatform Unit) creator =
      .ok () creator := rfl
  refine Reaches.foldl (fun s e => ⟨rfl, rfl⟩) (fun _ _ => trivial) (.start ?_) _
  exact ⟨.create h assembled_creator hseeds, rfl⟩

end Ideal

/-- The newcomer is among the members it sees. -/
theorem newcomer_seen : Ideal.observed.1.roster.length = 2 ∧ ∀ id,
    id ∈ (Ideal.observed.2.after Ideal.observed.1.pendingEvents).roster ↔
      id ∈ Ideal.observed.1.roster :=
  ⟨by decide +kernel, Conversation.view_current Ideal.scores_infallible Ideal.capped_followsCommits
    Ideal.keepsApart (Ideal.observes_observed Ideal.apart_creator) (by decide +kernel)⟩

end DeMls
