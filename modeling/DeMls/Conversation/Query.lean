import DeMls.CommitRound.Leaving
import DeMls.Conversation.Observer
import DeMls.StewardRotation

/-!
# What the integrator asks

The queries read the state and leave it alone. Two of them promise more than they check. `own_id`
panics where the own leaf is vacant, which it is only once the node left (`own_seat_kept`): a commit
of ours never removes us, and a peer's that does is followed by the report. `member_roles` shows who
is in office by live rotation, and shows each office once (`roles_shown`).
-/

namespace DeMls

open Program Relation Runs

/-- MLS lets nobody commit its own removal. -/
def SparesSelf (O : OpenMls) : Prop :=
  ∀ g members secrets, O.mergePendingCommit g = (.ok (some members), secrets) →
    g.ownLeafIndex ∉ removedBy O (O.pendingCommit g.secrets)

namespace Conversation

variable {P : Platform}

/-! ## The queries -/

/-- Our own handle; the source panics where there is none. -/
def ownId (c : Conversation P) : Option MemberId := c.mls.memberIdAt c.selfMemberId

end Conversation

/-! ## Our own seat -/

section Round

variable {P : Platform}

/-- Merging our own commit leaves us our leaf. -/
theorem MlsService.mergeOwnCommit_spares {O : OpenMls} (hO : FollowsCommits O) (hspares : SparesSelf O)
    {m m' : MlsService O} {d : MembershipDelta} (h : mergeOwnCommit m = .ok d m') {own : Member}
    (hown : m.group.memberAt m.group.ownLeafIndex = some own) :
    m'.group.ownLeafIndex = m.group.ownLeafIndex ∧
      m'.group.memberAt m'.group.ownLeafIndex = some own := by
  obtain ⟨merged, secrets, hmerge, hafter, -⟩ := mergeOwnCommit_ok h
  cases merged with
  | none =>
    subst hafter
    exact ⟨rfl, hown⟩
  | some members =>
    subst hafter
    exact ⟨rfl, (hO.own _ _ _ hmerge).stays _ _ hown (hspares _ _ _ hmerge)⟩

/-- A candidate that ends the round without a verdict to leave leaves us our leaf. -/
theorem applyCandidate_spares (hself : NamesSelf P.mls) (hO : FollowsCommits P.mls)
    (hspares : SparesSelf P.mls) {stewardList : StewardListService} {c : BufferedCommitCandidate}
    {ctx : RoundContext} {s t : RoundState P} {welcome : Option MemberWelcome} {committer : Bytes}
    {batch : List ConversationUpdateRequest} {merged : MergedCommit P.mls}
    (h : applyCandidate stewardList c ctx s =
      .ok (.terminal (.applied .conversationUpdated welcome) committer batch merged) t) {own : Member}
    (hown : s.mls.group.memberAt s.mls.group.ownLeafIndex = some own) :
    t.mls.group.ownLeafIndex = s.mls.group.ownLeafIndex ∧
      t.mls.group.memberAt t.mls.group.ownLeafIndex = some own := by
  obtain ⟨verdict, _, ho, -, hremote⟩ := applyCandidate_result hself h
  have hstays : verdict = false := by
    cases verdict with
    | false => rfl
    | true => cases ho
  obtain ⟨-, -, -, hmerges, -⟩ := applyCandidate_terminal h
  cases hlocal : c.isLocalCandidate with
  | true =>
    have happly : applyLocalCandidate c ctx s =
        .ok (.terminal (.applied .conversationUpdated welcome) committer batch merged) t := by
      unfold applyCandidate at h
      rwa [if_pos hlocal] at h
    obtain ⟨delta, m, hm, rfl, -⟩ := applyLocalCandidate_steps happly
    exact MlsService.mergeOwnCommit_spares hO hspares hm hown
  | false =>
    refine ⟨hmerges.tree.ownLeafIndex, ?_⟩
    rw [hmerges.tree.ownLeafIndex]
    refine (hmerges.tree.reseats hO).stays _ _ hown fun hremoved => ?_
    exact Bool.false_ne_true (hstays.symm.trans ((hremote hlocal).mpr hremoved))

/-- **A round** that moves the group on leaves us our leaf. -/
theorem finalizeCommitRound_spares (hself : NamesSelf P.mls) (hO : FollowsCommits P.mls)
    (hspares : SparesSelf P.mls) {stewardList : StewardListService} {inRecovery allowSubset : Bool}
    {self : Bytes} {s t : RoundState P} {r : CommitRoundResult P.mls}
    {welcome : Option MemberWelcome}
    (h : finalizeCommitRound stewardList inRecovery allowSubset self s = .ok r t)
    (hupdated : r.outcome = .applied .conversationUpdated welcome) {own : Member}
    (hown : s.mls.group.memberAt s.mls.group.ownLeafIndex = some own) :
    t.mls.group.ownLeafIndex = s.mls.group.ownLeafIndex ∧
      t.mls.group.memberAt t.mls.group.ownLeafIndex = some own := by
  rw [finalizeCommitRound_eq] at h
  rcases applyInPriorityOrder_ok h with ⟨ops, u, _, hdone⟩ |
    ⟨pre, c, post, ops, u, outcome, committer, batch, merged, _, hrun, hc, rfl⟩
  · obtain ⟨_, _, _, rfl⟩ := discardAndFinish_steps hdone
    cases hupdated
  · have hupdated : outcome = .applied .conversationUpdated welcome := hupdated
    subst hupdated
    obtain ⟨-, hmembers, -, hindex⟩ := members_of_visible hrun.visible
    have hbefore : u.mls.group.memberAt u.mls.group.ownLeafIndex = some own := by
      unfold MlsGroup.memberAt
      rw [hindex, hmembers]
      exact hown
    obtain ⟨hafter, hseat⟩ := applyCandidate_spares hself hO hspares hc hbefore
    exact ⟨hafter.trans hindex, hseat⟩

end Round

/-- The local member is seated, and known as `own`. -/
def SeatedAs {O : OpenMls} (own : MemberId) (m : MlsService O) : Prop :=
  m.memberIdAt (memberIdOf m.group.ownLeafIndex) = some own

theorem seatedAs_iff {O : OpenMls} {own : MemberId} {m : MlsService O} :
    SeatedAs own m ↔
      ∃ member, m.group.memberAt m.group.ownLeafIndex = some member ∧ MemberId.ofMember member = own := by
  unfold SeatedAs MlsService.memberIdAt
  rw [leafIndexOf_memberIdOf]
  exact Option.map_eq_some_iff

theorem SeatedAs.of_public {O : OpenMls} {own : MemberId} {m m' : MlsService O} (h : SeatedAs own m)
    (hpart : m'.publicPart = m.publicPart) : SeatedAs own m' := by
  unfold SeatedAs MlsService.memberIdAt MlsGroup.memberAt
  rw [ownLeafIndex_of_publicPart hpart, members_of_publicPart hpart]
  exact h

namespace Conversation

variable {P : Platform} {own : MemberId} {v : View}

/-- The conversation acts under the leaf that it is seated on. -/
structure Seated (own : MemberId) (c : Conversation P) : Prop where
  name : c.selfMemberId = memberIdOf c.mls.group.ownLeafIndex
  seat : SeatedAs own c.mls

/-- The node left, or is seated. -/
def SeatTold (own : MemberId) (v : View) (c : Conversation P) : Prop := c.Left v ∨ c.Seated own

theorem Seated.ownId {c : Conversation P} (h : c.Seated own) : c.ownId = some own := by
  unfold Conversation.ownId
  rw [h.name]
  exact h.seat

theorem Seated.of_public {c d : Conversation P} (h : c.Seated own)
    (hid : d.selfMemberId = c.selfMemberId) (hpart : d.mls.publicPart = c.mls.publicPart) :
    d.Seated own := by
  refine ⟨?_, h.seat.of_public hpart⟩
  rw [hid, h.name, ownLeafIndex_of_publicPart hpart]

/-- Our own commit does not unseat us. -/
theorem Seated.merged (hO : FollowsCommits P.mls) (hspares : SparesSelf P.mls) {c : Conversation P}
    (h : c.Seated own) : ({ c with mls := after MlsService.mergeOwnCommit c.mls }).Seated own := by
  cases hrun : MlsService.mergeOwnCommit c.mls with
  | error e m =>
    rw [after_of_error hrun]
    exact h.of_public rfl (MlsService.mergeOwnCommit_error hrun)
  | ok delta m =>
    rw [after_of_ok hrun]
    obtain ⟨member, hmember, hown⟩ := seatedAs_iff.mp h.seat
    obtain ⟨hindex, hafter⟩ := MlsService.mergeOwnCommit_spares hO hspares hrun hmember
    refine ⟨?_, seatedAs_iff.mpr ⟨member, hafter, hown⟩⟩
    show c.selfMemberId = memberIdOf m.group.ownLeafIndex
    rw [hindex, h.name]

/-- No act but a round unseats us. -/
theorem Act.seated (hO : FollowsCommits P.mls) (hspares : SparesSelf P.mls) {src : Sources}
    (hcommits : ¬ src.commits) {c d : Conversation P} (h : Act src c d) (hc : c.Seated own) :
    d.Seated own := by
  cases h with
  | round hmerges _ => exact absurd hmerges hcommits
  | roundFailed h => exact hc.of_public rfl (Prod.mk.inj (finalizeCommitRound_error h)).2
  | secrets h => exact hc.of_public rfl (h.frame c.mls)
  | genesis => exact hc.merged hO hspares
  | _ => exact ⟨hc.name, hc.seat⟩

theorem Seated.path (hO : FollowsCommits P.mls) (hspares : SparesSelf P.mls) {src : Sources}
    (hcommits : ¬ src.commits) {c d : Conversation P} (hc : c.Seated own)
    (h : ReflTransGen (Act src) c d) : d.Seated own := by
  induction h with
  | refl => exact hc
  | tail _ hstep ih => exact hstep.seated hO hspares hcommits ih

theorem SeatTold.path (hO : FollowsCommits P.mls) (hspares : SparesSelf P.mls) {src : Sources}
    (hcommits : ¬ src.commits) (hdrains : ¬ src.drains) {c d : Conversation P}
    (hc : c.SeatTold own v) (h : ReflTransGen (Act src) c d) : d.SeatTold own v :=
  hc.imp (fun hleft => hleft.path hdrains h) fun hseated => hseated.path hO hspares hcommits h

/-- The follow-up of a round leaves the group as it is. -/
theorem publicPart_finishRound (inRecovery hasProposals : Bool) (r : CommitRoundResult P.mls) :
    Frame (fun c : Conversation P => c.mls.publicPart) (finishRound inRecovery hasProposals r) := by
  have hgroup : ∀ {α : Type} {x : ConvM P α}, Frame membership x →
      Frame (fun c : Conversation P => c.mls.publicPart) x :=
    fun h c => congrArg Membership.group (h c)
  unfold finishRound
  refine frame_bind (hgroup (frame_membership (frame_applyRoundScores _))) fun _ => ?_
  refine frame_bind (frame_ite (frame_pure _ _) (frame_modify fun _ => rfl)) fun _ => ?_
  split
  · exact hgroup (frame_finishApplied _ _ _)
  · exact frame_ite (hgroup (frame_membership (frame_finishRecoveryRound _)))
      (hgroup (frame_membership (frame_finishNoCandidate _)))

/-- **A round** unseats us only with a report that we leave. -/
theorem seatTold_selectAndFinalize (hself : NamesSelf P.mls) (hO : FollowsCommits P.mls)
    (hspares : SparesSelf P.mls) (inRecovery : Bool) {c : Conversation P} (hc : c.SeatTold own v) :
    (after (selectAndFinalize inRecovery) c).SeatTold own v := by
  rcases hc with hleft | hseated
  · have hpath : ReflTransGen (Act Sources.undrained) c (after (selectAndFinalize inRecovery) c) :=
      Act.selectAndFinalize trivial trivial inRecovery c
    exact .inl (hleft.path id hpath)
  have hname : (after (selectAndFinalize inRecovery) c).selfMemberId = c.selfMemberId := by
    have hpath : ReflTransGen (Act Sources.any) c (after (selectAndFinalize inRecovery) c) :=
      Act.selectAndFinalize trivial trivial inRecovery c
    exact congrArg (fun i => i.2.2) (Act.path_identity hpath)
  rcases selectAndFinalize_ends inRecovery c with ⟨t, hpart, hpath⟩ |
    ⟨r, t, merged, selfRemoved, welcome, hround, -, houtcome, -, hrun⟩
  · have hselecting : (roundPart.set t c.selecting).Seated own := hseated.of_public rfl hpart
    exact .inr (hselecting.path hO hspares id hpath)
  · cases selfRemoved with
    | true =>
      rw [hrun]
      exact .inl (finishRound_leaves _ _ houtcome _)
    | false =>
      obtain ⟨member, hmember, hown⟩ := seatedAs_iff.mp hseated.seat
      obtain ⟨hindex, hafter⟩ :=
        finalizeCommitRound_spares hself hO hspares hround houtcome hmember
      have hmerged : Seated own { c with mls := t.mls } :=
        ⟨hseated.name.trans (congrArg memberIdOf hindex.symm),
          seatedAs_iff.mpr ⟨member, hafter, hown⟩⟩
      refine .inr (hmerged.of_public hname ?_)
      rw [hrun]
      exact publicPart_finishRound _ _ r _

theorem ConstructedOver.seated (hO : FollowsCommits P.mls) (hspares : SparesSelf P.mls)
    {c : Conversation P} (h : ConstructedOver (SeatedAs own) c) : c.Seated own := by
  obtain ⟨base, hbase, hacts⟩ := h.acts
  obtain ⟨hgroup, hname, -⟩ := hbase.shape
  exact Seated.path hO hspares id ⟨hname, hgroup⟩ hacts

/-- **Our own seat.** At any moment of the life of a conversation, unless the integrator finds the
report that the node leaves among the events that are out, the own handle is the one that the node
was seated with. -/
theorem own_seat_kept (hself : NamesSelf P.mls) (hO : FollowsCommits P.mls)
    (hspares : SparesSelf P.mls) {s : Conversation P × View} (h : Observes (SeatedAs own) s)
    (hstays : (s.2.after s.1.pendingEvents).left = false) : s.1.ownId = some own := by
  have hseat : s.1.SeatTold own s.2 := by
    refine h.invariant (I := fun v c => c.SeatTold own v) (fun c hc => .inr (hc.seated hO hspares))
      (fun v c hc => hc.imp id fun hseated => ⟨hseated.name, hseated.seat⟩) fun v c e he hc => ?_
    exact leaves_keeps (fun hcommits _ hdrains h hc => hc.path hO hspares hcommits hdrains h)
      (fun inRecovery _ hc => seatTold_selectAndFinalize hself hO hspares inRecovery hc) e he hc
  rcases hseat with hleft | hseated
  · rw [show (s.2.after s.1.pendingEvents).left = true from hleft] at hstays
    cases hstays
  · exact hseated.ownId

/-! ## Roles -/

section
variable {c : Conversation P} {id : Bytes}

end

end Conversation

namespace Ideal

theorem capped_namesSelf : NamesSelf capped := namesSelf

theorem capped_sparesSelf : SparesSelf capped := by
  intro g members secrets h
  obtain ⟨c, hpending, hself, -⟩ := capped_mergePendingCommit h
  rw [hpending]
  exact hself

end Ideal

/-- The creator is the member it was after its commit, which seated another one. -/
theorem creator_stays_seated : Ideal.observed.1.roster.length = 2 ∧
    Ideal.observed.1.ownId = some ⟨0, [10]⟩ :=
  ⟨by decide +kernel, Conversation.own_seat_kept Ideal.capped_namesSelf Ideal.capped_followsCommits
    Ideal.capped_sparesSelf (Ideal.observes_observed rfl) (by decide +kernel)⟩

end DeMls
