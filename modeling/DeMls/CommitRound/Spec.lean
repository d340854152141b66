import DeMls.CommitRound.Round

/-!
# What a commit round does

One spec lemma for each step of the apply loop, and from them the two results about a whole
round: what a merge did to the queues and the group (`finalizeCommitRound_merged`), and which
candidate of the ranking it was (`applyInPriorityOrder_ok`).
-/

namespace DeMls

open Program RoundState

variable {P : Platform} {α : Type}

/-! ## Frames -/

/-- All a round keeps until it merges: the queues and the public part of the group. -/
def RoundState.visible (s : RoundState P) : ConversationQueues × MlsGroup Unit :=
  (s.queues, s.mls.publicPart)

theorem frame_onMls {x : EStateM MlsError (MlsService P.mls) α}
    (hx : Frame MlsService.publicPart x) : Frame visible (onMls x : RoundM P α) :=
  frame_zoom_of_frame hx fun _ _ h => Prod.ext rfl h

theorem frame_stageCandidate (c : CommitCandidate) (ctx : RoundContext) :
    Frame visible (stageCandidate c ctx : RoundM P _) := by
  unfold stageCandidate
  refine frame_bind (frame_attempt (frame_onMls (MlsService.frame_stageRemoteCommit _ _))) fun r => ?_
  split
  · split_ifs <;> exact frame_pure _ _
  · exact frame_pure _ _
  · exact frame_pure _ _
  · exact frame_pure _ _

theorem frame_rejectStaged (penalty : Option ScoreOp) :
    Frame visible (rejectStaged penalty : RoundM P _) :=
  frame_bind (frame_onMls MlsService.frame_discardStagedCommit) fun _ => frame_pure _ _

theorem rejectStaged_ok {penalty : Option ScoreOp} {s t : RoundState P} {o : CandidateOutcome P.mls}
    (h : rejectStaged penalty s = .ok o t) : o = .drop penalty ∧ t.visible = s.visible := by
  have hframe := (frame_rejectStaged penalty).ok h
  unfold rejectStaged at h
  rw [bind_ok] at h
  obtain ⟨_, _, _, h⟩ := h
  rw [pure_ok] at h
  exact ⟨h.1.symm, hframe⟩

theorem frame_discardAndFinish (ops : List ScoreOp) :
    Frame visible (discardAndFinish ops : RoundM P _) :=
  frame_bind (frame_onMls MlsService.frame_discardOwnCommit) fun _ => frame_pure _ _

theorem members_of_visible {s t : RoundState P} (h : t.visible = s.visible) :
    t.queues = s.queues ∧ t.mls.group.members = s.mls.group.members ∧
      t.mls.group.epoch = s.mls.group.epoch ∧
      t.mls.group.ownLeafIndex = s.mls.group.ownLeafIndex := by
  obtain ⟨hq, hm⟩ := Prod.mk.inj h
  exact ⟨hq, congrArg (fun g : MlsGroup Unit => g.members) hm,
    congrArg (fun g : MlsGroup Unit => g.epoch) hm,
    congrArg (fun g : MlsGroup Unit => g.ownLeafIndex) hm⟩

/-! ## Staging and the ladder -/

/-- Staging never fails: errors of the MLS engine are aborts. -/
theorem stageCandidate_total (c : CommitCandidate) (ctx : RoundContext) (s : RoundState P) :
    ∃ o t, stageCandidate c ctx s = .ok o t := by
  unfold stageCandidate
  simp only [bind_ok, attempt_ok]
  cases (onMls (MlsService.stageRemoteCommit c.mlsProposals c.commitMessage) : RoundM P _) s with
  | error e t => exact ⟨.abort, t, _, t, .inr ⟨e, rfl, rfl⟩, rfl⟩
  | ok r t =>
    cases r with
    | aborted => exact ⟨.abort, t, _, t, .inl ⟨_, rfl, rfl⟩, rfl⟩
    | bundleSenderMismatch sender => exact ⟨_, t, _, t, .inl ⟨_, rfl, rfl⟩, rfl⟩
    | staged sender selfRemoved actions =>
      by_cases h : c.stewardMemberId ≠ sender
      · exact ⟨_, t, _, t, .inl ⟨_, rfl, rfl⟩, by simp only [if_pos h]; rfl⟩
      · refine ⟨.staged sender selfRemoved actions, t, _, t, .inl ⟨_, rfl, rfl⟩, ?_⟩
        simp only [if_neg h]
        rfl

/-- A candidate that staged is labelled with its committer, sits in the slot, and the actions
reported are the ones it carries. -/
theorem stageCandidate_staged {c : CommitCandidate} {ctx : RoundContext} {s t : RoundState P}
    {sender : Bytes} {selfRemoved : Bool} {actions : List MlsProposalOutput}
    (h : stageCandidate c ctx s = .ok (.staged sender selfRemoved actions) t) :
    c.stewardMemberId = sender ∧ ∃ staged, t.mls.pendingStagedCommit = some staged ∧
      selfRemoved = P.mls.selfRemoved staged ∧
      actions = MlsService.stagedActions P.mls staged ∧
      MlsService.Processed P.mls s.mls.publicPart staged := by
  unfold stageCandidate at h
  simp only [bind_ok, attempt_ok] at h
  obtain ⟨r, t', hr, h⟩ := h
  rcases hr with ⟨r, rfl, hx⟩ | ⟨e, rfl, hx⟩
  · cases r with
    | aborted => simp at h
    | bundleSenderMismatch sender => simp at h
    | staged sender selfRemoved actions =>
      dsimp only at h
      split_ifs at h with hlabel
      · simp at h
      · rw [pure_ok] at h
        obtain ⟨⟨⟩, rfl⟩ := h
        unfold onMls at hx
        rw [zoom_ok] at hx
        obtain ⟨m, hm, rfl⟩ := hx
        exact ⟨not_not.mp hlabel, MlsService.stageRemoteCommit_staged hm⟩
  · simp at h

/-- After staging, the slot holds a commit processed on this group. -/
theorem processed_of_staged {c : CommitCandidate} {ctx : RoundContext} {s t : RoundState P}
    {sender : Bytes} {selfRemoved : Bool} {actions : List MlsProposalOutput}
    (h : stageCandidate c ctx s = .ok (.staged sender selfRemoved actions) t) :
    ∀ staged, t.mls.pendingStagedCommit = some staged →
      MlsService.Processed P.mls t.mls.publicPart staged := by
  obtain ⟨_, staged, hslot, _, _, hprocessed⟩ := stageCandidate_staged h
  have hpart : t.mls.publicPart = s.mls.publicPart := (Prod.mk.inj ((frame_stageCandidate _ _).ok h)).2
  intro staged' hslot'
  cases hslot.symm.trans hslot'
  rw [hpart]
  exact hprocessed

/-- What the validation ladder says of a staging outcome: `none` lets the candidate merge,
`some penalty` drops it. -/
def ladder (O : OpenMls) (stewardList : StewardListService) (q : ConversationQueues)
    (ctx : RoundContext) : StagingOutcome → Option (Option ScoreOp)
  | .abort => some none
  | .violation v => some v.targetScoreOp
  | .staged commitSender _ commitActions =>
    match checkCommitSenderAuthorized stewardList commitSender ctx with
    | some violation => some violation.targetScoreOp
    | none =>
      match validateCommitCandidate O q commitSender commitActions ctx with
      | some violation => some violation.targetScoreOp
      | none => none

theorem ladder_eq_none_iff {O : OpenMls} {stewardList : StewardListService}
    {q : ConversationQueues} {ctx : RoundContext} {o : StagingOutcome} :
    ladder O stewardList q ctx o = none ↔
      ∃ sender selfRemoved actions, o = .staged sender selfRemoved actions ∧
        checkCommitSenderAuthorized stewardList sender ctx = none ∧
        validateCommitCandidate O q sender actions ctx = none := by
  cases o with
  | abort => simp [ladder]
  | violation v => simp [ladder]
  | staged sender selfRemoved actions =>
    unfold ladder
    constructor
    · intro h
      dsimp only at h
      split at h
      · cases h
      · rename_i hauth
        split at h
        · cases h
        · rename_i hact
          exact ⟨sender, selfRemoved, actions, rfl, hauth, hact⟩
    · rintro ⟨_, _, _, ⟨⟩, hauth, hact⟩
      simp [hauth, hact]

/-- **The remote path.** Stage; then drop with the ladder's penalty, or merge. -/
theorem applyIncomingCandidate_eq (stewardList : StewardListService) (c : BufferedCommitCandidate)
    (ctx : RoundContext) (s : RoundState P) {o : StagingOutcome} {t : RoundState P}
    (ho : stageCandidate c.candidateMsg ctx s = .ok o t) :
    applyIncomingCandidate stewardList c ctx s =
      match ladder P.mls stewardList t.queues ctx o, o with
      | none, .staged sender selfRemoved _ => mergeIncomingCandidate c ctx sender selfRemoved t
      | none, _ => rejectStaged none t
      | some penalty, _ => rejectStaged penalty t := by
  have hbind : applyIncomingCandidate stewardList c ctx s =
      (match o with
        | .abort => rejectStaged none
        | .violation v => rejectStaged v.targetScoreOp
        | .staged commitSender selfRemoved commitActions => do
          let s ← get
          match checkCommitSenderAuthorized stewardList commitSender ctx with
          | some violation => rejectStaged violation.targetScoreOp
          | none =>
            match validateCommitCandidate P.mls s.queues commitSender commitActions ctx with
            | some violation => rejectStaged violation.targetScoreOp
            | none => mergeIncomingCandidate c ctx commitSender selfRemoved) t := by
    refine (bind_run _ ho).trans ?_
    cases o with
    | abort => rfl
    | violation v => rfl
    | staged sender selfRemoved actions => rfl
  rw [hbind]
  cases o with
  | abort => rfl
  | violation v => rfl
  | staged sender selfRemoved actions =>
    refine (bind_run _ (get_apply t)).trans ?_
    simp only [ladder]
    cases checkCommitSenderAuthorized stewardList sender ctx with
    | some v => rfl
    | none =>
      dsimp only
      cases validateCommitCandidate P.mls t.queues sender actions ctx <;> rfl

/-! ## One merge -/

/-- The group takes the step of a merged commit: OpenMLS merged it on a group with the public part
of `g`. `staged = none` is the own path with nothing pending. -/
inductive TreeStep (O : OpenMls) (g g' : MlsGroup O.Secrets) : Option O.StagedCommit → Prop
  /-- The own pending commit merged. -/
  | own {h : MlsGroup O.Secrets} {merged : Option (List Member)} {secrets : O.Secrets}
      (hpart : h.publicPart = g.publicPart)
      (hmerge : O.mergePendingCommit h = (.ok merged, secrets))
      (hafter : g'.publicPart = match merged with
        | some members => { g.publicPart with epoch := g.epoch + 1, members := members }
        | none => g.publicPart) :
      TreeStep O g g' (O.pendingCommit h.secrets)
  /-- A staged remote commit merged. -/
  | remote {h : MlsGroup O.Secrets} {staged : O.StagedCommit} {members : List Member}
      {secrets : O.Secrets} (hpart : h.publicPart = g.publicPart)
      (hprocessed : MlsService.Processed O g.publicPart staged)
      (hmerge : O.mergeStagedCommit h staged = (.ok members, secrets))
      (hafter : g'.publicPart = { g.publicPart with epoch := g.epoch + 1, members := members }) :
      TreeStep O g g' (some staged)

theorem members_of_publicPart {S S' : Type} {g : MlsGroup S} {h : MlsGroup S'}
    (hpart : h.publicPart = g.publicPart) : h.members = g.members :=
  congrArg (fun g : MlsGroup Unit => g.members) hpart

theorem MlsService.epoch_of_public {O : OpenMls} {mls mls' : MlsService O}
    (h : mls'.publicPart = mls.publicPart) : mls'.group.epoch = mls.group.epoch :=
  congrArg (fun g : MlsGroup Unit => g.epoch) h

theorem MlsService.members_of_public {O : OpenMls} {mls mls' : MlsService O}
    (h : mls'.publicPart = mls.publicPart) : mls'.members = mls.members :=
  congrArg (fun g : MlsGroup Unit => g.memberIds) h

theorem ownLeafIndex_of_publicPart {S S' : Type} {g : MlsGroup S} {h : MlsGroup S'}
    (hpart : h.publicPart = g.publicPart) : h.ownLeafIndex = g.ownLeafIndex :=
  congrArg (fun g : MlsGroup Unit => g.ownLeafIndex) hpart

/-- No merge moves the node to another leaf. -/
theorem TreeStep.ownLeafIndex {O : OpenMls} {g g' : MlsGroup O.Secrets}
    {staged : Option O.StagedCommit} (h : TreeStep O g g' staged) :
    g'.ownLeafIndex = g.ownLeafIndex := by
  cases h with
  | own _ _ hafter =>
    have hown := congrArg (fun g : MlsGroup Unit => g.ownLeafIndex) hafter
    split at hown <;> exact hown
  | remote _ _ _ hafter => exact congrArg (fun g : MlsGroup Unit => g.ownLeafIndex) hafter

theorem TreeStep.reseats {O : OpenMls} {g g' : MlsGroup O.Secrets} {staged : Option O.StagedCommit}
    (hO : FollowsCommits O) (h : TreeStep O g g' staged) :
    Reseats O staged g.members g'.members := by
  cases h with
  | @own h merged secrets hpart hmerge hafter =>
    have hbefore : h.members = g.members := members_of_publicPart hpart
    cases merged with
    | none =>
      have hsame : g'.members = g.members := members_of_publicPart hafter
      rw [hsame]
      exact ⟨fun _ _ hm _ => hm, fun _ hm => .inl hm⟩
    | some members =>
      have hnew : g'.members = members := congrArg (fun g : MlsGroup Unit => g.members) hafter
      rw [hnew, ← hbefore]
      exact hO.own h members secrets hmerge
  | @remote h staged members secrets hpart hprocessed hmerge hafter =>
    have hbefore : h.members = g.members := members_of_publicPart hpart
    have hnew : g'.members = members := congrArg (fun g : MlsGroup Unit => g.members) hafter
    rw [hnew, ← hbefore]
    exact hO.remote h staged members secrets (hpart ▸ hprocessed) hmerge

/-- The members a merged commit vacates. -/
def vacatedBy (O : OpenMls) (g : MlsGroup O.Secrets) : Option O.StagedCommit → List MemberId
  | some staged => MlsService.removedMembersOf g staged
  | none => []

theorem removedMembersOf_congr {O : OpenMls} {g h : MlsGroup O.Secrets} (hm : h.members = g.members)
    (staged : O.StagedCommit) :
    MlsService.removedMembersOf h staged = MlsService.removedMembersOf g staged := by
  unfold MlsService.removedMembersOf MlsGroup.memberAt
  rw [hm]

theorem vacatedBy_congr {O : OpenMls} {g h : MlsGroup O.Secrets} (hm : h.members = g.members)
    (staged : Option O.StagedCommit) : vacatedBy O h staged = vacatedBy O g staged := by
  cases staged with
  | none => rfl
  | some staged => exact removedMembersOf_congr hm staged

/-- A leaf that a merged commit does not vacate keeps its occupant. -/
theorem Reseats.memberAt {O : OpenMls} {g g' : MlsGroup O.Secrets}
    {staged : Option O.StagedCommit} (h : Reseats O staged g.members g'.members)
    {l : LeafNodeIndex} {m : Member} (hm : g.memberAt l = some m)
    (hkept : ∀ v ∈ vacatedBy O g staged, v.leaf ≠ l) : g'.memberAt l = some m := by
  apply h.stays l m hm
  intro hl
  cases staged with
  | none => cases hl
  | some staged =>
    apply hkept (.ofMember m)
    · unfold vacatedBy MlsService.removedMembersOf
      exact List.mem_filterMap.mpr ⟨l, hl, by rw [hm]; rfl⟩
    · exact MlsGroup.memberAt_index hm

/-- A member that a merged commit does not vacate stays seated. -/
theorem Reseats.mem_memberIds {O : OpenMls} {g g' : MlsGroup O.Secrets}
    {staged : Option O.StagedCommit} (h : Reseats O staged g.members g'.members) {id : Bytes}
    (hid : id ∈ g.memberIds) (hkept : ∀ v ∈ vacatedBy O g staged, memberIdOf v.leaf ≠ id) :
    id ∈ g'.memberIds := by
  obtain ⟨n, hn, rfl⟩ := List.mem_map.mp hid
  have hseated : (g.memberAt n.index).isSome = true :=
    MlsGroup.memberAt_isSome_iff.mpr (List.mem_map_of_mem hn)
  obtain ⟨m, hm⟩ := Option.isSome_iff_exists.mp hseated
  have hafter := h.memberAt hm fun v hv hleaf => hkept v hv (congrArg memberIdOf hleaf)
  rw [MlsGroup.memberIdOf_mem_memberIds, ← MlsGroup.memberAt_isSome_iff, hafter]
  rfl

/-- What merging `merged` does to the round's state, whichever path it came by: the membership
delta is read off the old and the new tree, and the bookkeeping runs on it. -/
structure Merges (hash : CommitHash) (epoch : Nat) (s t : RoundState P)
    (staged : Option P.mls.StagedCommit) (batch : List ConversationUpdateRequest) : Prop where
  tree : TreeStep P.mls s.mls.group t.mls.group staged
  queues : finalizeCommittedBatch
    (s.queues.storeMembershipDelta (MlsService.delta t.mls.group s.mls.group.populatedLeaves
      (vacatedBy P.mls s.mls.group staged))) hash epoch = (batch, t.queues)

/-- A merge depends on the visible part of the state it starts from only. -/
theorem Merges.of_visible {hash : CommitHash} {epoch : Nat} {r s t : RoundState P}
    {staged : Option P.mls.StagedCommit} {batch : List ConversationUpdateRequest}
    (h : Merges hash epoch s t staged batch) (hv : s.visible = r.visible) :
    Merges hash epoch r t staged batch := by
  obtain ⟨hq, hmem, hepoch, _⟩ := members_of_visible hv
  have hpart : s.mls.group.publicPart = r.mls.group.publicPart := (Prod.mk.inj hv).2
  refine ⟨?_, ?_⟩
  · cases h.tree with
    | own hp hmerge hafter =>
      refine .own (hp.trans hpart) hmerge (hafter.trans ?_)
      split <;> simp [hpart, hepoch]
    | remote hp hprocessed hmerge hafter =>
      refine .remote (hp.trans hpart) (hpart ▸ hprocessed) hmerge (hafter.trans ?_)
      simp [hpart, hepoch]
  · have hq' := h.queues
    unfold MlsGroup.populatedLeaves at hq' ⊢
    rwa [hq, hmem, vacatedBy_congr hmem] at hq'

/-! ## One candidate -/

/-- A round that ends empty only drops our commit. -/
theorem discardAndFinish_steps {ops : List ScoreOp} {s t : RoundState P}
    {r : CommitRoundResult P.mls} (h : discardAndFinish ops s = .ok r t) :
    ∃ m, MlsService.discardOwnCommit s.mls = .ok () m ∧ t = { s with mls := m } ∧
      r = ⟨.noCandidate, ops, [], none⟩ := by
  unfold discardAndFinish onMls at h
  simp only [bind_ok, zoom_ok, pure_ok] at h
  obtain ⟨_, _, ⟨m, hm, rfl⟩, rfl, rfl⟩ := h
  exact ⟨m, hm, rfl, rfl⟩

/-- Applying our own candidate merges our commit, stores the delta and settles the batch. -/
theorem applyLocalCandidate_steps {c : BufferedCommitCandidate} {ctx : RoundContext}
    {s t : RoundState P} {o : CandidateOutcome P.mls} (h : applyLocalCandidate c ctx s = .ok o t) :
    ∃ delta m, MlsService.mergeOwnCommit s.mls = .ok delta m ∧
      t = ⟨(finalizeCommittedBatch (s.queues.storeMembershipDelta delta) c.commitHash
        (ctx.currentEpoch + 1)).2, m⟩ ∧
      o = .terminal (.applied (leaveOrUpdate ctx.selfRemovePending)
          (c.welcomeBytes.map fun w => ⟨w, [], c.joinerIdentities⟩)) c.candidateMsg.stewardMemberId
        (finalizeCommittedBatch (s.queues.storeMembershipDelta delta) c.commitHash
          (ctx.currentEpoch + 1)).1 ⟨c, P.mls.pendingCommit s.mls.group.secrets⟩ := by
  unfold applyLocalCandidate onMls at h
  simp only [bind_ok, get_apply, zoom_ok, onQueues_apply, pure_ok, EStateM.Result.ok.injEq] at h
  obtain ⟨_, _, ⟨rfl, rfl⟩, delta, _, ⟨m, hm, rfl⟩, _, _, ⟨_, rfl⟩, _, _, ⟨rfl, rfl⟩, rfl, rfl⟩ := h
  exact ⟨delta, m, hm, rfl, rfl⟩

theorem applyLocalCandidate_ok {c : BufferedCommitCandidate} {ctx : RoundContext}
    {s t : RoundState P} {o : CandidateOutcome P.mls} (h : applyLocalCandidate c ctx s = .ok o t) :
    ∃ outcome batch staged, o = .terminal outcome c.candidateMsg.stewardMemberId batch ⟨c, staged⟩ ∧
      outcome.isApplied = true ∧
      Merges c.commitHash (ctx.currentEpoch + 1) s t staged batch := by
  obtain ⟨delta, m, hm, rfl, rfl⟩ := applyLocalCandidate_steps h
  obtain ⟨merged, secrets, hmerge, hgroup, rfl⟩ := MlsService.mergeOwnCommit_ok hm
  refine ⟨_, _, _, rfl, rfl, ?_, ?_⟩
  · refine .own rfl hmerge ?_
    cases merged with
    | none => subst hgroup; rfl
    | some members => subst hgroup; rfl
  · unfold vacatedBy
    rfl

/-- Merging a peer's candidate drops our commit, merges the staged one, stores the delta and settles
the batch. -/
theorem mergeIncomingCandidate_steps {c : BufferedCommitCandidate} {ctx : RoundContext}
    {sender : Bytes} {selfRemoved : Bool} {s t : RoundState P} {o : CandidateOutcome P.mls}
    (h : mergeIncomingCandidate c ctx sender selfRemoved s = .ok o t) :
    ∃ m delta m', MlsService.discardOwnCommit s.mls = .ok () m ∧
      MlsService.mergeStagedCommit m = .ok delta m' ∧
      t = ⟨(finalizeCommittedBatch (s.queues.storeMembershipDelta delta) c.commitHash
        (ctx.currentEpoch + 1)).2, m'⟩ ∧
      o = .terminal (.applied (leaveOrUpdate selfRemoved) none) sender
        (finalizeCommittedBatch (s.queues.storeMembershipDelta delta) c.commitHash
          (ctx.currentEpoch + 1)).1 ⟨c, m.pendingStagedCommit⟩ := by
  unfold mergeIncomingCandidate onMls at h
  simp only [bind_ok, get_apply, zoom_ok, onQueues_apply, pure_ok, EStateM.Result.ok.injEq] at h
  obtain ⟨_, _, ⟨m, hdiscard, rfl⟩, _, _, ⟨rfl, rfl⟩, delta, _, ⟨m', hm, rfl⟩, _, _, ⟨_, rfl⟩, _, _,
    ⟨rfl, rfl⟩, rfl, rfl⟩ := h
  exact ⟨m, delta, m', hdiscard, hm, rfl, rfl⟩

theorem mergeIncomingCandidate_ok {c : BufferedCommitCandidate} {ctx : RoundContext}
    {sender : Bytes} {selfRemoved : Bool} {s t : RoundState P} {o : CandidateOutcome P.mls}
    (hprocessed : ∀ staged, s.mls.pendingStagedCommit = some staged →
      MlsService.Processed P.mls s.mls.publicPart staged)
    (h : mergeIncomingCandidate c ctx sender selfRemoved s = .ok o t) :
    ∃ outcome batch staged, o = .terminal outcome sender batch ⟨c, some staged⟩ ∧
      outcome.isApplied = true ∧ s.mls.pendingStagedCommit = some staged ∧
      Merges c.commitHash (ctx.currentEpoch + 1) s t (some staged) batch := by
  obtain ⟨m, delta, m', hdiscard, hm, rfl, rfl⟩ := mergeIncomingCandidate_steps h
  have hslot : m.pendingStagedCommit = s.mls.pendingStagedCommit := by
    unfold MlsService.discardOwnCommit at hdiscard
    simp only [bind_ok, MlsService.onSecrets_ok] at hdiscard
    obtain ⟨_, _, ⟨_, _, rfl⟩, ⟨_, _, rfl⟩⟩ := hdiscard
    rfl
  have hpart : m.publicPart = s.mls.publicPart := MlsService.frame_discardOwnCommit.ok hdiscard
  obtain ⟨staged, members, secrets, hstaged, hmerge, rfl, rfl⟩ := MlsService.mergeStagedCommit_ok hm
  refine ⟨_, _, staged, by rw [hstaged], rfl, by rw [← hslot, hstaged], ?_⟩
  refine Merges.of_visible (s := ⟨s.queues, m⟩) ⟨?_, ?_⟩ (Prod.ext rfl hpart)
  · have hprocessed : MlsService.Processed P.mls m.publicPart staged :=
      hpart ▸ hprocessed staged (hslot ▸ hstaged)
    exact .remote rfl hprocessed hmerge rfl
  · unfold vacatedBy
    rfl

/-- **A drop.** Only a remote candidate is dropped; its staging was turned down by the ladder with
the penalty reported, and nothing visible changed. -/
theorem applyCandidate_drop {stewardList : StewardListService} {c : BufferedCommitCandidate}
    {ctx : RoundContext} {s t : RoundState P} {op : Option ScoreOp}
    (h : applyCandidate stewardList c ctx s = .ok (.drop op) t) :
    c.isLocalCandidate = false ∧ t.visible = s.visible ∧
      ∃ o u, stageCandidate c.candidateMsg ctx s = .ok o u ∧
        ladder P.mls stewardList s.queues ctx o = some op := by
  unfold applyCandidate at h
  split_ifs at h with hlocal
  · obtain ⟨_, _, _, ho, _⟩ := applyLocalCandidate_ok h
    cases ho
  · rw [Bool.not_eq_true] at hlocal
    obtain ⟨o, u, ho⟩ := stageCandidate_total c.candidateMsg ctx s
    have hu := (frame_stageCandidate _ _).ok ho
    have hq : u.queues = s.queues := (members_of_visible hu).1
    rw [applyIncomingCandidate_eq stewardList c ctx s ho, hq] at h
    refine ⟨hlocal, ?_⟩
    cases hl : ladder P.mls stewardList s.queues ctx o with
    | some penalty =>
      rw [hl] at h
      obtain ⟨hop, ht⟩ := rejectStaged_ok h
      cases hop
      exact ⟨ht.trans hu, o, u, ho, hl⟩
    | none =>
      obtain ⟨sender, selfRemoved, actions, rfl, _⟩ := ladder_eq_none_iff.mp hl
      rw [hl] at h
      obtain ⟨_, _, _, ht, _⟩ := mergeIncomingCandidate_ok (processed_of_staged ho) h
      cases ht

/-- **A merge.** The state is the one a merge leaves; a remote candidate staged, passed the ladder
and was merged as staged. -/
theorem applyCandidate_terminal {stewardList : StewardListService} {c : BufferedCommitCandidate}
    {ctx : RoundContext} {s t : RoundState P} {outcome : CommitRoundOutcome} {committer : Bytes}
    {batch : List ConversationUpdateRequest} {merged : MergedCommit P.mls}
    (h : applyCandidate stewardList c ctx s = .ok (.terminal outcome committer batch merged) t) :
    merged.candidate = c ∧ committer = c.candidateMsg.stewardMemberId ∧ outcome.isApplied = true ∧
      Merges c.commitHash (ctx.currentEpoch + 1) s t merged.staged batch ∧
      (c.isLocalCandidate = false → ∃ sender selfRemoved actions u staged,
        stageCandidate c.candidateMsg ctx s = .ok (.staged sender selfRemoved actions) u ∧
        ladder P.mls stewardList s.queues ctx (.staged sender selfRemoved actions) = none ∧
        merged.staged = some staged ∧ actions = MlsService.stagedActions P.mls staged) := by
  unfold applyCandidate at h
  split_ifs at h with hlocal
  · obtain ⟨_, _, _, ho, happ, hm⟩ := applyLocalCandidate_ok h
    cases ho
    exact ⟨rfl, rfl, happ, hm, fun hf => absurd hlocal (by simp [hf])⟩
  · obtain ⟨o, u, ho⟩ := stageCandidate_total c.candidateMsg ctx s
    have hu := (frame_stageCandidate _ _).ok ho
    have hq : u.queues = s.queues := (members_of_visible hu).1
    rw [applyIncomingCandidate_eq stewardList c ctx s ho, hq] at h
    cases hl : ladder P.mls stewardList s.queues ctx o with
    | some penalty =>
      rw [hl] at h
      obtain ⟨hop, _⟩ := rejectStaged_ok h
      cases hop
    | none =>
      obtain ⟨sender, selfRemoved, actions, rfl, _⟩ := ladder_eq_none_iff.mp hl
      rw [hl] at h
      obtain ⟨_, _, staged, ht, happ, hslot, hm⟩ :=
        mergeIncomingCandidate_ok (processed_of_staged ho) h
      cases ht
      obtain ⟨hlabel, _, hslot', _, hactions, _⟩ := stageCandidate_staged ho
      rw [hslot] at hslot'
      cases hslot'
      exact ⟨rfl, hlabel.symm, happ, hm.of_visible hu, fun _ =>
        ⟨_, selfRemoved, actions, u, staged, ho, hl, rfl, hactions⟩⟩

/-- A candidate whose application failed left all but the secrets as they were. -/
theorem applyCandidate_error {stewardList : StewardListService} {c : BufferedCommitCandidate}
    {ctx : RoundContext} {s t : RoundState P} {e : ConversationError}
    (h : applyCandidate stewardList c ctx s = .error e t) : t.visible = s.visible := by
  unfold applyCandidate at h
  split_ifs at h
  · unfold applyLocalCandidate onMls at h
    simp only [bind_error, get_apply, zoom_error, onQueues_apply, pure_error, reduceCtorEq,
      EStateM.Result.ok.injEq, false_or, or_false, and_false, exists_false] at h
    obtain ⟨_, _, ⟨rfl, rfl⟩, _, m, hm, _, rfl⟩ := h
    exact Prod.ext rfl (MlsService.mergeOwnCommit_error hm)
  · obtain ⟨o, u, ho⟩ := stageCandidate_total c.candidateMsg ctx s
    have hu := (frame_stageCandidate _ _).ok ho
    rw [applyIncomingCandidate_eq stewardList c ctx s ho] at h
    rw [← hu]
    cases hl : ladder P.mls stewardList u.queues ctx o with
    | some penalty =>
      rw [hl] at h
      exact (frame_rejectStaged _).error h
    | none =>
      obtain ⟨sender, selfRemoved, actions, rfl, _⟩ := ladder_eq_none_iff.mp hl
      rw [hl] at h
      simp only at h
      unfold mergeIncomingCandidate at h
      simp only [bind_error, get_apply, onQueues_apply, pure_error, reduceCtorEq,
        EStateM.Result.ok.injEq, false_or, or_false, and_false, exists_false] at h
      rcases h with hdiscard | ⟨_, v, hdiscard, _, _, ⟨rfl, rfl⟩, hmerge⟩
      · exact (frame_onMls MlsService.frame_discardOwnCommit).error hdiscard
      · have hv := (frame_onMls MlsService.frame_discardOwnCommit).ok hdiscard
        rw [← hv]
        unfold onMls at hmerge
        rw [zoom_error] at hmerge
        obtain ⟨_, m, hm, _, rfl⟩ := hmerge
        exact Prod.ext rfl (MlsService.mergeStagedCommit_error hm)

/-! ## Candidates that go through -/

theorem applyLocalCandidate_total (hO : MlsService.Reliable P.mls) (c : BufferedCommitCandidate)
    (ctx : RoundContext) {s : RoundState P}
    (hown : s.mls.group.ownLeafIndex ∈ s.mls.group.populatedLeaves) :
    ∃ o t, applyLocalCandidate c ctx s = .ok o t := by
  obtain ⟨delta, m, hm⟩ := MlsService.mergeOwnCommit_total hO s.mls hown
  have hmls : (onMls MlsService.mergeOwnCommit : RoundM P _) s = .ok delta { s with mls := m } :=
    (zoom_ok _ _ _ _ _ _).mpr ⟨m, hm, rfl⟩
  unfold applyLocalCandidate
  simp only [bind_ok, get_apply, EStateM.Result.ok.injEq]
  exact ⟨_, _, s, s, ⟨rfl, rfl⟩, delta, _, hmls, _, _, rfl, _, _, rfl, rfl⟩

theorem mergeIncomingCandidate_total (hO : MlsService.Reliable P.mls) (c : BufferedCommitCandidate)
    (ctx : RoundContext) (sender : Bytes) (selfRemoved : Bool) {s : RoundState P}
    {staged : P.mls.StagedCommit} (hslot : s.mls.pendingStagedCommit = some staged)
    (hprocessed : MlsService.Processed P.mls s.mls.publicPart staged) :
    ∃ o t, mergeIncomingCandidate c ctx sender selfRemoved s = .ok o t := by
  obtain ⟨m, hm, hkept⟩ := MlsService.discardOwnCommit_total hO s.mls
  have hdiscard : (onMls MlsService.discardOwnCommit : RoundM P _) s = .ok () { s with mls := m } :=
    (zoom_ok _ _ _ _ _ _).mpr ⟨m, hm, rfl⟩
  have hpart : m.publicPart = s.mls.publicPart := MlsService.frame_discardOwnCommit.ok hm
  obtain ⟨delta, m', hm'⟩ := MlsService.mergeStagedCommit_total hO m (hkept.trans hslot)
    (hpart ▸ hprocessed)
  have hmerge : (onMls MlsService.mergeStagedCommit : RoundM P _) { s with mls := m } =
      .ok delta { s with mls := m' } := (zoom_ok _ _ _ _ _ _).mpr ⟨m', hm', rfl⟩
  unfold mergeIncomingCandidate
  simp only [bind_ok, get_apply, EStateM.Result.ok.injEq]
  exact ⟨_, _, (), _, hdiscard, _, _, ⟨rfl, rfl⟩, delta, _, hmerge, _, _, rfl, _, _, rfl, rfl⟩

/-- A remote candidate that stages and passes the ladder merges. -/
theorem applyCandidate_accepted (hO : MlsService.Reliable P.mls) {stewardList : StewardListService}
    {c : BufferedCommitCandidate} {ctx : RoundContext} {s t : RoundState P} {o : StagingOutcome}
    (hremote : c.isLocalCandidate = false) (hstage : stageCandidate c.candidateMsg ctx s = .ok o t)
    (hladder : ladder P.mls stewardList s.queues ctx o = none) :
    ∃ outcome committer batch merged u,
      applyCandidate stewardList c ctx s = .ok (.terminal outcome committer batch merged) u := by
  have hv := (frame_stageCandidate _ _).ok hstage
  obtain ⟨hq, hpart⟩ := Prod.mk.inj hv
  obtain ⟨sender, selfRemoved, actions, rfl, _⟩ := ladder_eq_none_iff.mp hladder
  obtain ⟨_, staged, hslot, _, _, hprocessed⟩ := stageCandidate_staged hstage
  obtain ⟨o, u, hu⟩ := mergeIncomingCandidate_total hO c ctx sender selfRemoved hslot
    (hpart ▸ hprocessed)
  obtain ⟨outcome, batch, staged', rfl, _⟩ := mergeIncomingCandidate_ok (processed_of_staged hstage) hu
  refine ⟨outcome, sender, batch, ⟨c, some staged'⟩, u, ?_⟩
  unfold applyCandidate
  rw [if_neg (by simp [hremote]), applyIncomingCandidate_eq stewardList c ctx s hstage, hq, hladder]
  exact hu

/-- Our own candidate merges as it is. -/
theorem applyCandidate_own (hO : MlsService.Reliable P.mls) (stewardList : StewardListService)
    {c : BufferedCommitCandidate} (ctx : RoundContext) {s : RoundState P}
    (hlocal : c.isLocalCandidate = true)
    (hown : s.mls.group.ownLeafIndex ∈ s.mls.group.populatedLeaves) :
    ∃ outcome committer batch merged u,
      applyCandidate stewardList c ctx s = .ok (.terminal outcome committer batch merged) u := by
  obtain ⟨o, u, hu⟩ := applyLocalCandidate_total hO c ctx hown
  obtain ⟨outcome, batch, staged, rfl, _⟩ := applyLocalCandidate_ok hu
  refine ⟨outcome, c.candidateMsg.stewardMemberId, batch, ⟨c, staged⟩, u, ?_⟩
  unfold applyCandidate
  rw [if_pos hlocal]
  exact hu

/-! ## The apply loop -/

/-- The loop drops these candidates one after the other, with these penalties. -/
inductive RejectRun (stewardList : StewardListService) (ctx : RoundContext) :
    List BufferedCommitCandidate → List ScoreOp → RoundState P → RoundState P → Prop
  | nil (s : RoundState P) : RejectRun stewardList ctx [] [] s s
  | cons {c : BufferedCommitCandidate} {rest : List BufferedCommitCandidate} {op : Option ScoreOp}
      {ops : List ScoreOp} {s t u : RoundState P}
      (hdrop : applyCandidate stewardList c ctx s = .ok (.drop op) t)
      (hrest : RejectRun stewardList ctx rest ops t u) :
      RejectRun stewardList ctx (c :: rest) (op.toList ++ ops) s u

namespace RejectRun

variable {stewardList : StewardListService} {ctx : RoundContext}
  {cs cs' : List BufferedCommitCandidate} {ops ops' : List ScoreOp} {s t u : RoundState P}

theorem visible (h : RejectRun stewardList ctx cs ops s t) : t.visible = s.visible := by
  induction h with
  | nil => rfl
  | cons hdrop _ ih => exact ih.trans (applyCandidate_drop hdrop).2.1

theorem remote (h : RejectRun stewardList ctx cs ops s t) :
    ∀ c ∈ cs, c.isLocalCandidate = false := by
  induction h with
  | nil => simp
  | cons hdrop _ ih =>
    intro c hc
    rcases List.mem_cons.mp hc with rfl | hc
    · exact (applyCandidate_drop hdrop).1
    · exact ih c hc

theorem append (h : RejectRun stewardList ctx cs ops s t)
    (h' : RejectRun stewardList ctx cs' ops' t u) :
    RejectRun stewardList ctx (cs ++ cs') (ops ++ ops') s u := by
  induction h with
  | nil => exact h'
  | cons hdrop _ ih =>
    rw [List.cons_append, List.append_assoc]
    exact .cons hdrop (ih h')

/-- The loop goes on past dropped candidates. -/
theorem loop (h : RejectRun stewardList ctx cs ops s t) (self : Bytes)
    (rest : List BufferedCommitCandidate) (acc : List ScoreOp) :
    applyInPriorityOrder stewardList ctx self (cs ++ rest) acc s =
      applyInPriorityOrder stewardList ctx self rest (acc ++ ops) t := by
  induction h generalizing acc with
  | nil => simp
  | cons hdrop _ ih =>
    rw [List.cons_append, applyInPriorityOrder]
    rw [bind_run _ hdrop]
    dsimp only
    rw [ih, List.append_assoc]

end RejectRun

/-- The loop fails only past candidates it dropped, and then nothing visible has changed. -/
theorem applyInPriorityOrder_error {stewardList : StewardListService} {ctx : RoundContext}
    {self : Bytes} {cs : List BufferedCommitCandidate} {acc : List ScoreOp} {s t : RoundState P}
    {e : ConversationError}
    (h : applyInPriorityOrder stewardList ctx self cs acc s = .error e t) :
    t.visible = s.visible := by
  induction cs generalizing acc s with
  | nil =>
    rw [applyInPriorityOrder] at h
    exact (frame_discardAndFinish _).error h
  | cons c rest ih =>
    rw [applyInPriorityOrder, bind_error] at h
    rcases h with h | ⟨o, u, hc, h⟩
    · exact applyCandidate_error h
    · cases o with
      | terminal outcome committer batch merged => exact absurd h (pure_error _ _ _ _)
      | drop op => exact (ih h).trans (applyCandidate_drop hc).2.1

/-- **The apply loop.** Either every candidate is dropped and the round ends empty, or the first
one not dropped merges. -/
theorem applyInPriorityOrder_ok {stewardList : StewardListService} {ctx : RoundContext}
    {self : Bytes} {cs : List BufferedCommitCandidate} {acc : List ScoreOp} {s t : RoundState P}
    {r : CommitRoundResult P.mls}
    (h : applyInPriorityOrder stewardList ctx self cs acc s = .ok r t) :
    (∃ ops u, RejectRun stewardList ctx cs ops s u ∧ discardAndFinish (acc ++ ops) u = .ok r t) ∨
    ∃ pre c post ops u outcome committer batch merged, cs = pre ++ c :: post ∧
      RejectRun stewardList ctx pre ops s u ∧
      applyCandidate stewardList c ctx u = .ok (.terminal outcome committer batch merged) t ∧
      r = ⟨outcome, acc ++ ops ++ winnerScores committer self ctx post stewardList, batch,
        some merged⟩ := by
  induction cs generalizing acc s with
  | nil =>
    rw [applyInPriorityOrder] at h
    exact .inl ⟨[], s, .nil s, by rwa [List.append_nil]⟩
  | cons c rest ih =>
    rw [applyInPriorityOrder, bind_ok] at h
    obtain ⟨o, u, hc, h⟩ := h
    cases o with
    | terminal outcome committer batch merged =>
      rw [pure_ok] at h
      obtain ⟨rfl, rfl⟩ := h
      exact .inr ⟨[], c, rest, [], s, outcome, committer, batch, merged, rfl, .nil s, hc, by simp⟩
    | drop op =>
      rcases ih h with ⟨ops, v, hrun, hdone⟩ |
        ⟨pre, d, post, ops, v, outcome, committer, batch, merged, rfl, hrun, hd, rfl⟩
      · exact .inl ⟨_, v, .cons hc hrun, by rwa [← List.append_assoc]⟩
      · exact .inr ⟨c :: pre, d, post, _, v, outcome, committer, batch, merged, rfl,
          .cons hc hrun, hd, by simp⟩

/-! ## Penalties -/

/-- Staging violations accuse the committer of a broken commit. -/
theorem stageCandidate_violation {c : CommitCandidate} {ctx : RoundContext} {s t : RoundState P}
    {v : ViolationEvidence} (h : stageCandidate c ctx s = .ok (.violation v) t) :
    v.targetScoreEvent = some .brokenCommit := by
  unfold stageCandidate at h
  simp only [bind_ok, attempt_ok] at h
  obtain ⟨r, t', hr, h⟩ := h
  rcases hr with ⟨r, rfl, hx⟩ | ⟨e, rfl, hx⟩
  · cases r with
    | aborted => simp at h
    | bundleSenderMismatch sender =>
      rw [pure_ok] at h
      obtain ⟨⟨⟩, _⟩ := h
      rfl
    | staged sender selfRemoved actions =>
      dsimp only at h
      split_ifs at h with hlabel
      · rw [pure_ok] at h
        obtain ⟨⟨⟩, _⟩ := h
        rfl
      · simp at h
  · simp at h

/-- A committer is accused of broken proposals through a candidate that bears its name only. -/
theorem applyCandidate_broken {stewardList : StewardListService} {c : BufferedCommitCandidate}
    {ctx : RoundContext} {s t : RoundState P} {id : Bytes}
    (h : applyCandidate stewardList c ctx s = .ok (.drop (some ⟨id, .brokenMlsProposal⟩)) t) :
    c.candidateMsg.stewardMemberId = id := by
  obtain ⟨_, _, o, u, ho, hladder⟩ := applyCandidate_drop h
  cases o with
  | abort => cases hladder
  | violation v =>
    have hv := stageCandidate_violation ho
    have : v.targetScoreOp = some ⟨id, .brokenMlsProposal⟩ := by simpa [ladder] using hladder
    rw [ViolationEvidence.targetScoreOp, hv] at this
    cases this
  | staged sender selfRemoved actions =>
    obtain ⟨hlabel, _⟩ := stageCandidate_staged ho
    rw [hlabel]
    unfold ladder checkCommitSenderAuthorized validateCommitCandidate at hladder
    dsimp only at hladder
    split at hladder
    · rename_i violation hauth
      split_ifs at hauth
      cases hauth
      cases hladder
    · split at hladder
      · rename_i violation hact
        split_ifs at hact
        cases hact
        cases hladder
        rfl
      · cases hladder

theorem RejectRun.broken {stewardList : StewardListService} {ctx : RoundContext}
    {cs : List BufferedCommitCandidate} {ops : List ScoreOp} {s t : RoundState P} {op : ScoreOp}
    (h : RejectRun stewardList ctx cs ops s t) (hop : op ∈ ops)
    (hevent : op.event = .brokenMlsProposal) :
    ∃ c ∈ cs, c.candidateMsg.stewardMemberId = op.memberId := by
  induction h with
  | nil => cases hop
  | cons hdrop _ ih =>
    rcases List.mem_append.mp hop with hop | hop
    · rw [Option.mem_toList] at hop
      obtain ⟨id, event⟩ := op
      cases hevent
      cases hop
      exact ⟨_, List.mem_cons_self, applyCandidate_broken hdrop⟩
    · obtain ⟨c, hc, hid⟩ := ih hop
      exact ⟨c, List.mem_cons_of_mem _ hc, hid⟩

/-- What a win records: no accusation of broken proposals, and for the committer nothing but the
success, unless a loser bears its name. -/
theorem winnerScores_mem {committer self : Bytes} {ctx : RoundContext}
    {losers : List BufferedCommitCandidate} {stewardList : StewardListService} {op : ScoreOp}
    (h : op ∈ winnerScores committer self ctx losers stewardList) :
    op.event ≠ .brokenMlsProposal ∧ ((∀ d ∈ losers, d.candidateMsg.stewardMemberId ≠ committer) →
      op.memberId = committer → op.event = .successfulCommit) := by
  unfold winnerScores at h
  simp only [List.mem_append, List.mem_singleton, List.mem_map] at h
  rcases h with (rfl | habsent) | ⟨d, hd, rfl⟩
  · exact ⟨by simp, fun _ _ => rfl⟩
  · cases hes : ctx.epochStewardId with
    | none => simp [hes] at habsent
    | some expected =>
      simp only [hes] at habsent
      split_ifs at habsent with hne
      · rw [List.mem_singleton] at habsent
        subst habsent
        exact ⟨by simp, fun _ h => absurd h hne.1⟩
      · cases habsent
  · refine ⟨?_, fun hothers hid => absurd hid (hothers d hd)⟩
    simp only
    split_ifs <;> simp

/-! ## The round -/

namespace RoundState

/-- The round's candidates are taken out of the buffer. -/
def taken (s : RoundState P) : RoundState P :=
  { s with queues := { s.queues with
      commitRound := (s.queues.commitRound.take s.mls.group.epoch).2 } }

/-- The candidates of the round. -/
def roundCandidates (s : RoundState P) : List BufferedCommitCandidate :=
  (s.queues.commitRound.take s.mls.group.epoch).1

/-- The pre-merge snapshot the round reads. -/
def context (s : RoundState P) (stewardList : StewardListService) (inRecovery : Bool)
    (self : Bytes) : RoundContext :=
  RoundContext.snapshot s.queues s.mls stewardList s.mls.group.epoch inRecovery self

/-- The ranking the apply loop walks. -/
def ranking (s : RoundState P) (stewardList : StewardListService) (inRecovery allowSubset : Bool)
    (self : Bytes) : List BufferedCommitCandidate :=
  rankApplicableCandidates s.roundCandidates (s.context stewardList inRecovery self) allowSubset

end RoundState

/-- **The round is one run of the apply loop** over the ranking of the buffered candidates. -/
theorem finalizeCommitRound_eq (stewardList : StewardListService) (inRecovery allowSubset : Bool)
    (self : Bytes) (s : RoundState P) :
    finalizeCommitRound stewardList inRecovery allowSubset self s =
      applyInPriorityOrder stewardList (s.context stewardList inRecovery self) self
        (s.ranking stewardList inRecovery allowSubset self) [] s.taken := by
  have hrun : finalizeCommitRound stewardList inRecovery allowSubset self s =
      (if s.roundCandidates = [] then discardAndFinish [] else
        if s.ranking stewardList inRecovery allowSubset self = [] then discardAndFinish []
        else applyInPriorityOrder stewardList (s.context stewardList inRecovery self) self
          (s.ranking stewardList inRecovery allowSubset self) []) s.taken := by
    by_cases hc : s.roundCandidates = []
    · rw [if_pos hc]
      unfold finalizeCommitRound
      change (if s.roundCandidates = [] then (discardAndFinish [] : RoundM P _) else _) s.taken = _
      rw [if_pos hc]
    · rw [if_neg hc]
      unfold finalizeCommitRound
      change (if s.roundCandidates = [] then (discardAndFinish [] : RoundM P _) else _) s.taken = _
      rw [if_neg hc]
      rfl
  rw [hrun]
  split_ifs with hc hr
  · have : s.ranking stewardList inRecovery allowSubset self = [] := by
      unfold RoundState.ranking rankApplicableCandidates
      rw [hc]
      rfl
    rw [this, applyInPriorityOrder]
  · rw [hr, applyInPriorityOrder]
  · rfl

/-- A candidate the loop reaches and does not drop wins the round. -/
theorem finalizeCommitRound_reaches {stewardList : StewardListService}
    {inRecovery allowSubset : Bool} {self : Bytes} {s t u : RoundState P}
    {pre post : List BufferedCommitCandidate} {c : BufferedCommitCandidate} {ops : List ScoreOp}
    {outcome : CommitRoundOutcome} {committer : Bytes} {batch : List ConversationUpdateRequest}
    {merged : MergedCommit P.mls}
    (hrank : s.ranking stewardList inRecovery allowSubset self = pre ++ c :: post)
    (hrun : RejectRun stewardList (s.context stewardList inRecovery self) pre ops s.taken u)
    (hc : applyCandidate stewardList c (s.context stewardList inRecovery self) u =
      .ok (.terminal outcome committer batch merged) t) :
    finalizeCommitRound stewardList inRecovery allowSubset self s =
      .ok ⟨outcome, ops ++ winnerScores committer self (s.context stewardList inRecovery self) post
        stewardList, batch, some merged⟩ t := by
  rw [finalizeCommitRound_eq, hrank, hrun.loop, applyInPriorityOrder, bind_ok]
  exact ⟨_, t, hc, rfl⟩

/-- **A round that fails** leaves all but the candidate buffer as it was. -/
theorem finalizeCommitRound_error {stewardList : StewardListService}
    {inRecovery allowSubset : Bool} {self : Bytes} {s t : RoundState P} {e : ConversationError}
    (h : finalizeCommitRound stewardList inRecovery allowSubset self s = .error e t) :
    t.visible = s.taken.visible := by
  rw [finalizeCommitRound_eq] at h
  exact applyInPriorityOrder_error h

/-- **A round that merges.** The winner is the first candidate of the ranking that was not
dropped, and the state is the one its merge leaves. -/
theorem finalizeCommitRound_merged {stewardList : StewardListService} {inRecovery allowSubset : Bool}
    {self : Bytes} {s t : RoundState P} {r : CommitRoundResult P.mls} {merged : MergedCommit P.mls}
    (h : finalizeCommitRound stewardList inRecovery allowSubset self s = .ok r t)
    (hm : r.merged = some merged) :
    Merges merged.candidate.commitHash (s.mls.group.epoch + 1) s.taken t merged.staged
      r.committedBatch ∧ r.outcome.isApplied = true := by
  rw [finalizeCommitRound_eq] at h
  rcases applyInPriorityOrder_ok h with ⟨ops, u, _, hdone⟩ |
    ⟨pre, c, post, ops, u, outcome, committer, batch, merged', _, hrun, hc, rfl⟩
  · obtain ⟨_, _, _, rfl⟩ := discardAndFinish_steps hdone
    cases hm
  · cases hm
    obtain ⟨rfl, _, happ, hmerge, _⟩ := applyCandidate_terminal hc
    exact ⟨hmerge.of_visible hrun.visible, happ⟩

/-- **A round that merges nothing** leaves all but the candidate buffer as it was. -/
theorem finalizeCommitRound_not_merged {stewardList : StewardListService}
    {inRecovery allowSubset : Bool} {self : Bytes} {s t : RoundState P} {r : CommitRoundResult P.mls}
    (h : finalizeCommitRound stewardList inRecovery allowSubset self s = .ok r t)
    (hm : r.merged = none) :
    t.visible = s.taken.visible ∧ r.outcome = .noCandidate ∧ r.committedBatch = [] := by
  rw [finalizeCommitRound_eq] at h
  rcases applyInPriorityOrder_ok h with ⟨ops, u, hrun, hdone⟩ |
    ⟨pre, c, post, ops, u, outcome, committer, batch, merged', _, hrun, hc, rfl⟩
  · have hv := (frame_discardAndFinish _).ok hdone
    obtain ⟨_, _, _, rfl⟩ := discardAndFinish_steps hdone
    exact ⟨hv.trans hrun.visible, rfl, rfl⟩
  · cases hm

end DeMls
