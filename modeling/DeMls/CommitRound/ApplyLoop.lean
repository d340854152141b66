import DeMls.CommitRound.OwnCandidate
import DeMls.CommitRound.Spec

/-!
# What the apply loop leaves behind

The loop is stated without its control flow. `reached` is the state a candidate is tried in, once
those ranked before it were staged and rolled back; `Accepted` is the test it is put to there. The
first accepted candidate merges, and the penalties of those before it come in rank order.

Every step but one cleans up what an earlier run left in MLS: a rejected candidate empties the slot
and the proposal store, a merged remote one everything. Merging our own candidate, and the clean-up
of an empty round, leave the slot of a staged commit as they find it. A round that failed between
staging and merging leaves that slot full.
-/

namespace DeMls

open Program RoundState

/-! ## What is pending in the group -/

namespace MlsService

variable {O : OpenMls}

/-- What OpenMLS promises of its pending state, read through `pendingProposals`: a clear or a merge
that succeeds does what its name says, and reading a peer's messages leaves our own pending commit
alone. -/
structure Tidies (O : OpenMls) (pendingProposals : O.Secrets → List O.QueuedProposal) : Prop where
  clearPendingCommit : ∀ s s', O.clearPendingCommit s = (.ok (), s') → O.pendingCommit s' = none
  clearPendingProposals : ∀ s s', O.clearPendingProposals s = (.ok (), s') →
    pendingProposals s' = [] ∧ O.pendingCommit s' = O.pendingCommit s
  /-- With no commit pending nothing is merged, and the store is not touched. -/
  mergePendingCommit : ∀ g merged s', O.mergePendingCommit g = (.ok merged, s') →
    O.pendingCommit s' = none ∧ pendingProposals s' =
      if (O.pendingCommit g.secrets).isSome then [] else pendingProposals g.secrets
  mergeStagedCommit : ∀ g staged members s', O.mergeStagedCommit g staged = (.ok members, s') →
    O.pendingCommit s' = none ∧ pendingProposals s' = []
  processMessage : ∀ g m, O.pendingCommit (O.processMessage g m).2 = O.pendingCommit g.secrets
  storePendingProposal : ∀ s p, O.pendingCommit (O.storePendingProposal s p).2 = O.pendingCommit s

/-- No own commit, no staged commit and no proposal is pending. -/
structure NothingPending (pendingProposals : O.Secrets → List O.QueuedProposal)
    (m : MlsService O) : Prop where
  own : O.pendingCommit m.group.secrets = none
  staged : m.pendingStagedCommit = none
  proposals : pendingProposals m.group.secrets = []

/-- Our own pending commit. -/
def ownCommit (m : MlsService O) : Option O.StagedCommit := O.pendingCommit m.group.secrets

variable {pendingProposals : O.Secrets → List O.QueuedProposal}

theorem frame_ownCommit_onSecrets {α : Type} (err : String → MlsError)
    {f : MlsGroup O.Secrets → Except String α × O.Secrets}
    (hf : ∀ g, O.pendingCommit (f g).2 = O.pendingCommit g.secrets) :
    Frame ownCommit (onSecrets err f) := by
  intro m
  have hkept := hf m.group
  unfold after onSecrets ownCommit
  revert hkept
  rcases f m.group with ⟨_ | _, secrets⟩ <;> exact id

theorem frame_ownCommit_stageProposals (hO : Tidies O pendingProposals) (proposals : List Bytes) :
    Frame ownCommit (stageProposals proposals : MlsM O _) := by
  induction proposals with
  | nil => exact frame_pure _ _
  | cons bytes rest ih =>
    unfold stageProposals
    apply frame_bind (frame_ofResult _ _)
    intro protocol
    apply frame_bind (frame_ownCommit_onSecrets _ fun g => hO.processMessage g protocol)
    intro processed
    split
    · rename_i proposal _ _
      apply frame_bind
        (frame_ownCommit_onSecrets _ fun g => hO.storePendingProposal g.secrets proposal)
      intro _
      apply frame_bind ih
      intro _
      split <;> exact frame_pure _ _
    · exact frame_pure _ _

theorem frame_ownCommit_stageCommit (hO : Tidies O pendingProposals) (senders : List Bytes)
    (commitBytes : Bytes) : Frame ownCommit (stageCommit senders commitBytes : MlsM O _) := by
  unfold stageCommit
  apply frame_bind (frame_ofResult _ _)
  intro protocol
  apply frame_bind (frame_get _)
  intro _
  split_ifs
  · exact frame_pure _ _
  · exact frame_pure _ _
  · apply frame_bind (frame_ownCommit_onSecrets _ fun g => hO.processMessage g protocol)
    intro _
    split
    · split_ifs
      · exact frame_pure _ _
      · exact frame_bind (frame_modify fun _ => rfl) fun _ => frame_pure _ _
    · exact frame_pure _ _

/-- Our own pending commit survives the staging of a peer's. -/
theorem frame_ownCommit_stageRemoteCommit (hO : Tidies O pendingProposals) (proposals : List Bytes)
    (commitBytes : Bytes) :
    Frame ownCommit (stageRemoteCommit proposals commitBytes : MlsM O _) := by
  unfold stageRemoteCommit
  apply frame_bind (frame_ownCommit_stageProposals hO proposals)
  intro senders
  split
  · exact frame_pure _ _
  · exact frame_ownCommit_stageCommit hO _ _

/-- Rolling a peer's commit back keeps our own. -/
theorem discardStagedCommit_ok (hO : Tidies O pendingProposals) {m m' : MlsService O}
    (h : discardStagedCommit m = .ok () m') :
    m'.pendingStagedCommit = none ∧ pendingProposals m'.group.secrets = [] ∧
      m'.ownCommit = m.ownCommit := by
  unfold discardStagedCommit at h
  simp only [bind_ok, modify_apply, EStateM.Result.ok.injEq, onSecrets_ok] at h
  obtain ⟨_, _, ⟨_, rfl⟩, secrets, hclear, rfl⟩ := h
  obtain ⟨hproposals, hown⟩ := hO.clearPendingProposals _ _ hclear
  exact ⟨rfl, hproposals, hown⟩

/-- Dropping our own commit keeps the one staged. -/
theorem discardOwnCommit_ok (hO : Tidies O pendingProposals) {m m' : MlsService O}
    (h : discardOwnCommit m = .ok () m') :
    m'.pendingStagedCommit = m.pendingStagedCommit ∧ pendingProposals m'.group.secrets = [] ∧
      m'.ownCommit = none := by
  unfold discardOwnCommit at h
  simp only [bind_ok, onSecrets_ok] at h
  obtain ⟨_, _, ⟨s, hcommit, rfl⟩, s', hclear, rfl⟩ := h
  obtain ⟨hproposals, hown⟩ := hO.clearPendingProposals _ _ hclear
  exact ⟨rfl, hproposals, hown.trans (hO.clearPendingCommit _ _ hcommit)⟩

/-- Merging our own commit leaves the slot as it is. -/
theorem mergeOwnCommit_pending (hO : Tidies O pendingProposals) {m m' : MlsService O}
    {d : MembershipDelta} (h : mergeOwnCommit m = .ok d m') :
    m'.ownCommit = none ∧ m'.pendingStagedCommit = m.pendingStagedCommit ∧
      pendingProposals m'.group.secrets =
        if m.ownCommit.isSome then [] else pendingProposals m.group.secrets := by
  obtain ⟨merged, secrets, hmerge, hgroup, _⟩ := mergeOwnCommit_ok h
  obtain ⟨hown, hproposals⟩ := hO.mergePendingCommit _ _ _ hmerge
  cases merged with
  | none =>
    subst hgroup
    exact ⟨hown, rfl, hproposals⟩
  | some members =>
    subst hgroup
    exact ⟨hown, rfl, hproposals⟩

theorem mergeStagedCommit_pending (hO : Tidies O pendingProposals) {m m' : MlsService O}
    {d : MembershipDelta} (h : mergeStagedCommit m = .ok d m') :
    NothingPending pendingProposals m' := by
  obtain ⟨staged, members, secrets, _, hmerge, rfl, _⟩ := mergeStagedCommit_ok h
  obtain ⟨hown, hproposals⟩ := hO.mergeStagedCommit _ _ _ _ hmerge
  exact ⟨hown, rfl, hproposals⟩

end MlsService

variable {P : Platform} {stewardList : StewardListService} {ctx : RoundContext}

/-! ## The walk down the ranking -/

/-- What the loop makes of a candidate: `none` when it applies, else the penalty it is dropped
with. -/
def verdict (stewardList : StewardListService) (ctx : RoundContext) (c : BufferedCommitCandidate)
    (s : RoundState P) : Option (Option ScoreOp) :=
  if c.isLocalCandidate then none
  else
    match stageCandidate c.candidateMsg ctx s with
    | .ok outcome _ => ladder P.mls stewardList s.queues ctx outcome
    | .error _ _ => none

/-- A candidate was staged and rolled back. -/
def rolledBack (ctx : RoundContext) (c : BufferedCommitCandidate) (s : RoundState P) :
    RoundState P :=
  after (rejectStaged none) (after (stageCandidate c.candidateMsg ctx) s)

/-- The state the loop has when it comes to the candidate after `before`. -/
def reached (ctx : RoundContext) (before : List BufferedCommitCandidate) (s : RoundState P) :
    RoundState P :=
  before.foldl (fun s c => rolledBack ctx c s) s

/-- The penalties of the candidates, in rank order. -/
def penalties (stewardList : StewardListService) (ctx : RoundContext) :
    List BufferedCommitCandidate → RoundState P → List ScoreOp
  | [], _ => []
  | c :: rest, s =>
    (verdict stewardList ctx c s).join.toList ++
      penalties stewardList ctx rest (rolledBack ctx c s)

/-- The candidate applies: it is our own, or it stages, its committer is authorized and its
actions are the approved ones. -/
def Accepted (stewardList : StewardListService) (ctx : RoundContext) (c : BufferedCommitCandidate)
    (s : RoundState P) : Prop :=
  c.isLocalCandidate = true ∨ ∃ sender selfRemoved actions t,
    stageCandidate c.candidateMsg ctx s = .ok (.staged sender selfRemoved actions) t ∧
    checkCommitSenderAuthorized stewardList sender ctx = none ∧
    validateCommitCandidate P.mls s.queues sender actions ctx = none

/-- Every candidate of the list is turned down when its turn comes. -/
def AllRejected (stewardList : StewardListService) (ctx : RoundContext)
    (cs : List BufferedCommitCandidate) (s : RoundState P) : Prop :=
  ∀ before c later, cs = before ++ c :: later →
    ¬ Accepted stewardList ctx c (reached ctx before s)

theorem verdict_eq_none_iff {c : BufferedCommitCandidate} {s : RoundState P} :
    verdict stewardList ctx c s = none ↔ Accepted stewardList ctx c s := by
  unfold verdict Accepted
  by_cases hlocal : c.isLocalCandidate = true
  · simp [hlocal]
  · obtain ⟨o, t, ho⟩ := stageCandidate_total c.candidateMsg ctx s
    simp only [hlocal, ho, Bool.false_eq_true, if_false, false_or, ladder_eq_none_iff,
      EStateM.Result.ok.injEq]
    constructor
    · rintro ⟨sender, selfRemoved, actions, rfl, hauth, hact⟩
      exact ⟨sender, selfRemoved, actions, t, ⟨rfl, rfl⟩, hauth, hact⟩
    · rintro ⟨sender, selfRemoved, actions, _, ⟨rfl, rfl⟩, hauth, hact⟩
      exact ⟨sender, selfRemoved, actions, rfl, hauth, hact⟩

theorem allRejected_nil {s : RoundState P} : AllRejected stewardList ctx [] s := by
  intro before c later h
  simp at h

theorem AllRejected.cons {c : BufferedCommitCandidate} {rest : List BufferedCommitCandidate}
    {s : RoundState P} (hc : ¬ Accepted stewardList ctx c s)
    (h : AllRejected stewardList ctx rest (rolledBack ctx c s)) :
    AllRejected stewardList ctx (c :: rest) s := by
  intro before d later hsplit
  cases before with
  | nil =>
    obtain ⟨rfl, _⟩ := List.cons.inj hsplit
    exact hc
  | cons b before =>
    obtain ⟨rfl, hrest⟩ := List.cons.inj hsplit
    exact h before d later hrest

/-- A dropped candidate: the verdict names its penalty, and the state is the rolled back one. -/
theorem applyCandidate_dropped {c : BufferedCommitCandidate} {s t : RoundState P}
    {op : Option ScoreOp} (h : applyCandidate stewardList c ctx s = .ok (.drop op) t) :
    verdict stewardList ctx c s = some op ∧ rolledBack ctx c s = t ∧
      ∃ u, (onMls MlsService.discardStagedCommit : RoundM P Unit) u = .ok () t ∧
        after (stageCandidate c.candidateMsg ctx) s = u := by
  obtain ⟨hremote, _, o, u, ho, hladder⟩ := applyCandidate_drop h
  have hu := (frame_stageCandidate _ _).ok ho
  have hq : u.queues = s.queues := (members_of_visible hu).1
  have hverdict : verdict stewardList ctx c s = some op := by
    unfold verdict
    simp only [hremote, ho, Bool.false_eq_true, if_false]
    exact hladder
  have hreject : rejectStaged op u = .ok (.drop op) t := by
    unfold applyCandidate at h
    rw [if_neg (by simp [hremote]), applyIncomingCandidate_eq stewardList c ctx s ho, hq,
      hladder] at h
    exact h
  unfold rejectStaged at hreject
  rw [bind_ok] at hreject
  obtain ⟨_, v, hdiscard, hdone⟩ := hreject
  rw [pure_ok] at hdone
  obtain ⟨_, rfl⟩ := hdone
  refine ⟨hverdict, ?_, u, hdiscard, after_of_ok ho⟩
  unfold rolledBack
  rw [after_of_ok ho]
  unfold rejectStaged
  rw [after_bind_ok _ hdiscard]
  rfl

/-- A candidate that merges was accepted. -/
theorem accepted_of_terminal {c : BufferedCommitCandidate} {s t : RoundState P}
    {outcome : CommitRoundOutcome} {committer : Bytes} {batch : List ConversationUpdateRequest}
    {merged : MergedCommit P.mls}
    (h : applyCandidate stewardList c ctx s = .ok (.terminal outcome committer batch merged) t) :
    Accepted stewardList ctx c s := by
  obtain ⟨_, _, _, _, hremote⟩ := applyCandidate_terminal h
  by_cases hlocal : c.isLocalCandidate = true
  · exact .inl hlocal
  · obtain ⟨sender, selfRemoved, actions, u, _, hstage, hladder, _⟩ :=
      hremote (by simpa using hlocal)
    obtain ⟨_, _, _, heq, hauth, hact⟩ := ladder_eq_none_iff.mp hladder
    cases heq
    exact .inr ⟨sender, selfRemoved, actions, u, hstage, hauth, hact⟩

/-- A run of drops turns every candidate down, with the penalties in rank order, and ends where
the next candidate is tried. -/
theorem RejectRun.walk {cs : List BufferedCommitCandidate} {ops : List ScoreOp}
    {s t : RoundState P} (h : RejectRun stewardList ctx cs ops s t) :
    AllRejected stewardList ctx cs s ∧ penalties stewardList ctx cs s = ops ∧
      reached ctx cs s = t := by
  induction h with
  | nil => exact ⟨allRejected_nil, rfl, rfl⟩
  | @cons c rest op ops s t u hdrop _ ih =>
    obtain ⟨hverdict, hstate, _⟩ := applyCandidate_dropped hdrop
    obtain ⟨hrejected, hops, hreached⟩ := ih
    subst hstate
    refine ⟨.cons ?_ hrejected, ?_, hreached⟩
    · rw [← verdict_eq_none_iff, hverdict]
      simp
    · rw [penalties, hverdict, hops]
      rfl

/-! ## The pending state along the walk -/

section Pending

variable {pendingProposals : P.mls.Secrets → List P.mls.QueuedProposal}

theorem frame_ownCommit_stageCandidate (hO : MlsService.Tidies P.mls pendingProposals)
    (c : CommitCandidate) :
    Frame (fun s => s.mls.ownCommit) (stageCandidate c ctx : RoundM P _) := by
  unfold stageCandidate
  apply frame_bind (frame_attempt (frame_zoom_of_frame
    (MlsService.frame_ownCommit_stageRemoteCommit hO _ _) fun _ _ h => h))
  intro r
  split
  · split_ifs <;> exact frame_pure _ _
  · exact frame_pure _ _
  · exact frame_pure _ _
  · exact frame_pure _ _

/-- A dropped candidate takes the staged commit and the proposals with it, and our own commit
survives. -/
theorem applyCandidate_dropped_pending (hO : MlsService.Tidies P.mls pendingProposals)
    {c : BufferedCommitCandidate} {s t : RoundState P} {op : Option ScoreOp}
    (h : applyCandidate stewardList c ctx s = .ok (.drop op) t) :
    t.mls.pendingStagedCommit = none ∧ pendingProposals t.mls.group.secrets = [] ∧
      t.mls.ownCommit = s.mls.ownCommit := by
  obtain ⟨_, _, u, hdiscard, hu⟩ := applyCandidate_dropped h
  have hown : u.mls.ownCommit = s.mls.ownCommit := by
    rw [← hu]
    exact frame_ownCommit_stageCandidate hO c.candidateMsg s
  unfold onMls at hdiscard
  rw [zoom_ok] at hdiscard
  obtain ⟨m, hm, rfl⟩ := hdiscard
  obtain ⟨hslot, hproposals, hkept⟩ := MlsService.discardStagedCommit_ok hO hm
  exact ⟨hslot, hproposals, hkept.trans hown⟩

theorem RejectRun.ownCommit (hO : MlsService.Tidies P.mls pendingProposals)
    {cs : List BufferedCommitCandidate} {ops : List ScoreOp} {s t : RoundState P}
    (h : RejectRun stewardList ctx cs ops s t) : t.mls.ownCommit = s.mls.ownCommit := by
  induction h with
  | nil => rfl
  | cons hdrop _ ih => exact ih.trans (applyCandidate_dropped_pending hO hdrop).2.2

/-- A run of at least one drop leaves no staged commit and no proposal. -/
theorem RejectRun.clean (hO : MlsService.Tidies P.mls pendingProposals)
    {cs : List BufferedCommitCandidate} {ops : List ScoreOp} {s t : RoundState P}
    (h : RejectRun stewardList ctx cs ops s t) (hcs : cs ≠ []) :
    t.mls.pendingStagedCommit = none ∧ pendingProposals t.mls.group.secrets = [] := by
  induction h with
  | nil => exact absurd rfl hcs
  | @cons c rest op ops s t u hdrop hrest ih =>
    cases rest with
    | nil =>
      cases hrest
      obtain ⟨hslot, hproposals, _⟩ := applyCandidate_dropped_pending hO hdrop
      exact ⟨hslot, hproposals⟩
    | cons d rest => exact ih (by simp)

/-- Our own candidate merges our pending commit and leaves the slot alone. -/
theorem applyLocalCandidate_pending (hO : MlsService.Tidies P.mls pendingProposals)
    {c : BufferedCommitCandidate} {s t : RoundState P} {outcome : CommitRoundOutcome}
    {committer : Bytes} {batch : List ConversationUpdateRequest} {merged : MergedCommit P.mls}
    (h : applyLocalCandidate c ctx s = .ok (.terminal outcome committer batch merged) t) :
    merged.staged = s.mls.ownCommit ∧ t.mls.ownCommit = none ∧
      t.mls.pendingStagedCommit = s.mls.pendingStagedCommit ∧
      pendingProposals t.mls.group.secrets =
        if s.mls.ownCommit.isSome then [] else pendingProposals s.mls.group.secrets := by
  obtain ⟨delta, m, hm, rfl, ho⟩ := applyLocalCandidate_steps h
  cases ho
  exact ⟨rfl, MlsService.mergeOwnCommit_pending hO hm⟩

/-- A remote candidate that merges leaves nothing pending. -/
theorem mergeIncomingCandidate_pending (hO : MlsService.Tidies P.mls pendingProposals)
    {c : BufferedCommitCandidate} {sender : Bytes} {selfRemoved : Bool} {s t : RoundState P}
    {o : CandidateOutcome P.mls} (h : mergeIncomingCandidate c ctx sender selfRemoved s = .ok o t) :
    t.mls.NothingPending pendingProposals := by
  obtain ⟨_, _, m, _, hm, rfl, -⟩ := mergeIncomingCandidate_steps h
  exact MlsService.mergeStagedCommit_pending hO hm

/-- A remote candidate that ends the round leaves nothing pending. -/
theorem applyCandidate_remote_pending (hO : MlsService.Tidies P.mls pendingProposals)
    {c : BufferedCommitCandidate} {s t : RoundState P} {outcome : CommitRoundOutcome}
    {committer : Bytes} {batch : List ConversationUpdateRequest} {merged : MergedCommit P.mls}
    (hremote : c.isLocalCandidate = false)
    (h : applyCandidate stewardList c ctx s = .ok (.terminal outcome committer batch merged) t) :
    t.mls.NothingPending pendingProposals := by
  obtain ⟨_, _, _, _, hstaged⟩ := applyCandidate_terminal h
  obtain ⟨sender, selfRemoved, actions, u, _, hstage, hladder, _⟩ := hstaged hremote
  have hq : u.queues = s.queues := (members_of_visible ((frame_stageCandidate _ _).ok hstage)).1
  unfold applyCandidate at h
  rw [if_neg (by simp [hremote]), applyIncomingCandidate_eq stewardList c ctx s hstage, hq,
    hladder] at h
  exact mergeIncomingCandidate_pending hO h

end Pending

/-! ## The specification of the loop -/

/-- **What a run of the loop reports.** Either every candidate is turned down, the round is empty
and the queues are as they were; or the first accepted candidate merges. -/
inductive Chooses (stewardList : StewardListService) (ctx : RoundContext) (self : Bytes)
    (cs : List BufferedCommitCandidate) (s t : RoundState P) (r : CommitRoundResult P.mls) : Prop
  | noCandidate (rejected : AllRejected stewardList ctx cs s) (outcome : r.outcome = .noCandidate)
      (scores : r.scoreOps = penalties stewardList ctx cs s) (queues : t.queues = s.queues)
  | applied (before : List BufferedCommitCandidate) (winner : BufferedCommitCandidate)
      (losers : List BufferedCommitCandidate) (merged : MergedCommit P.mls)
      (split : cs = before ++ winner :: losers)
      (rejected : AllRejected stewardList ctx before s)
      (accepted : Accepted stewardList ctx winner (reached ctx before s))
      (outcome : r.outcome.isApplied = true) (names : r.merged = some merged)
      (won : merged.candidate = winner)
      (own : winner.isLocalCandidate = true → merged.staged = s.mls.ownCommit)
      (scores : r.scoreOps = penalties stewardList ctx before s ++
        winnerScores winner.candidateMsg.stewardMemberId self ctx losers stewardList)

/-- The round starts tidy enough: a remote candidate stands first, or the slot is empty; and a
candidate of our own that stands first has its commit pending, or no proposal is. -/
def Ready (pendingProposals : P.mls.Secrets → List P.mls.QueuedProposal)
    (s : RoundState P) : List BufferedCommitCandidate → Prop
  | [] => s.mls.pendingStagedCommit = none
  | c :: _ => c.isLocalCandidate = true → s.mls.pendingStagedCommit = none ∧
      (s.mls.ownCommit = none → pendingProposals s.mls.group.secrets = [])

variable {pendingProposals : P.mls.Secrets → List P.mls.QueuedProposal}

/-- With a candidate turned down first, a run starts tidy enough. -/
theorem RejectRun.ready {before rest : List BufferedCommitCandidate} {ops : List ScoreOp}
    {s t : RoundState P} (h : RejectRun stewardList ctx before ops s t) (hbefore : before ≠ []) :
    Ready pendingProposals s (before ++ rest) := by
  cases before with
  | nil => exact absurd rfl hbefore
  | cons d before =>
    intro hlocal
    have hremote := h.remote d List.mem_cons_self
    rw [hremote] at hlocal
    cases hlocal

/-- Where a candidate of our own is tried, the slot and the store are empty, or it is the first. -/
theorem RejectRun.ready_own_iff (hO : MlsService.Tidies P.mls pendingProposals)
    {before losers : List BufferedCommitCandidate} {c : BufferedCommitCandidate}
    {ops : List ScoreOp} {s t : RoundState P} (h : RejectRun stewardList ctx before ops s t)
    (hlocal : c.isLocalCandidate = true) :
    (t.mls.pendingStagedCommit = none ∧
        (if t.mls.ownCommit.isSome then [] else pendingProposals t.mls.group.secrets) = []) ↔
      Ready pendingProposals s (before ++ c :: losers) := by
  by_cases hbefore : before = []
  · subst hbefore
    cases h
    unfold Ready
    cases s.mls.ownCommit <;> simp [hlocal]
  · obtain ⟨hslot, hproposals⟩ := h.clean hO hbefore
    have hready : Ready pendingProposals s (before ++ c :: losers) := h.ready hbefore
    simp [hslot, hproposals, hready]

/-- After the clean-up of an empty round only the slot may be full. -/
theorem discardAndFinish_ok (hO : MlsService.Tidies P.mls pendingProposals) {ops : List ScoreOp}
    {s t : RoundState P} {r : CommitRoundResult P.mls} (h : discardAndFinish ops s = .ok r t) :
    r = ⟨.noCandidate, ops, [], none⟩ ∧ t.queues = s.queues ∧
      (t.mls.NothingPending pendingProposals ↔ s.mls.pendingStagedCommit = none) := by
  obtain ⟨m, hm, rfl, rfl⟩ := discardAndFinish_steps h
  obtain ⟨hslot, hproposals, hown⟩ := MlsService.discardOwnCommit_ok hO hm
  refine ⟨rfl, rfl, fun hnothing => ?_, fun hempty => ⟨hown, ?_, hproposals⟩⟩
  · rw [← hnothing.staged]
    exact hslot.symm
  · rw [← hempty]
    exact hslot

/-- **The apply loop.** A run that succeeds reports what its specification says; and it leaves
nothing pending in MLS exactly when it started tidy enough. -/
theorem apply_loop_leaves_nothing_iff (hO : MlsService.Tidies P.mls pendingProposals)
    {self : Bytes} {cs : List BufferedCommitCandidate} {s t : RoundState P}
    {r : CommitRoundResult P.mls}
    (h : applyInPriorityOrder stewardList ctx self cs [] s = .ok r t) :
    Chooses stewardList ctx self cs s t r ∧
      (t.mls.NothingPending pendingProposals ↔ Ready pendingProposals s cs) := by
  rcases applyInPriorityOrder_ok h with ⟨ops, u, hrun, hdone⟩ |
    ⟨before, c, losers, ops, u, outcome, committer, batch, merged, rfl, hrun, hc, rfl⟩
  · obtain ⟨hrejected, rfl, _⟩ := hrun.walk
    obtain ⟨rfl, hqueues, hnothing⟩ := discardAndFinish_ok hO hdone
    refine ⟨.noCandidate hrejected rfl (List.nil_append _)
      (hqueues.trans (members_of_visible hrun.visible).1), hnothing.trans ?_⟩
    cases cs with
    | nil =>
      cases hrun
      exact Iff.rfl
    | cons d rest =>
      have hremote := hrun.remote d List.mem_cons_self
      have hslot := (hrun.clean hO (by simp)).1
      simp [Ready, hremote, hslot]
  · obtain ⟨hrejected, rfl, hreached⟩ := hrun.walk
    obtain ⟨hwon, hcommitter, happlied, _, _⟩ := applyCandidate_terminal hc
    have hown := hrun.ownCommit hO
    have haccepted : Accepted stewardList ctx c (reached ctx before s) := by
      rw [hreached]
      exact accepted_of_terminal hc
    subst hcommitter
    by_cases hlocal : c.isLocalCandidate = true
    · unfold applyCandidate at hc
      rw [if_pos hlocal] at hc
      obtain ⟨hstaged, hcleared, hslot, hproposals⟩ := applyLocalCandidate_pending hO hc
      refine ⟨.applied before c losers merged rfl hrejected haccepted happlied rfl hwon
        (fun _ => hstaged.trans hown) (by simp), ?_⟩
      rw [← hrun.ready_own_iff hO hlocal, ← hslot, ← hproposals]
      constructor
      · intro hnothing
        exact ⟨hnothing.staged, hnothing.proposals⟩
      · rintro ⟨hempty, hnone⟩
        exact ⟨hcleared, hempty, hnone⟩
    · have hremote : c.isLocalCandidate = false := by simpa using hlocal
      refine ⟨.applied before c losers merged rfl hrejected haccepted happlied rfl hwon
        (fun hf => absurd hf hlocal) (by simp), ?_⟩
      have hready : Ready pendingProposals s (before ++ c :: losers) := by
        cases before with
        | nil => exact fun hf => absurd hf hlocal
        | cons d before => exact hrun.ready (by simp)
      have hnothing : t.mls.NothingPending pendingProposals :=
        applyCandidate_remote_pending hO hremote hc
      exact ⟨fun _ => hready, fun _ => hnothing⟩

/-! ## Evaluations -/

namespace Ideal

/-- The platform keeps its promises with any clear of the proposal store that keeps its own. -/
theorem tidies_clearing (clear : Secrets → Except String Unit × Secrets)
    (hclear : ∀ s s', clear s = (.ok (), s') → s'.proposals = [] ∧ s'.pending = s.pending) :
    MlsService.Tidies { mls with clearPendingProposals := clear } Secrets.proposals where
  clearPendingCommit := by
    rintro s _ ⟨⟩
    rfl
  clearPendingProposals := hclear
  mergePendingCommit := by
    intro g merged s' h
    unfold mls at h
    dsimp only at h
    show s'.pending = none ∧ s'.proposals =
      if g.secrets.pending.isSome then [] else g.secrets.proposals
    cases hpending : g.secrets.pending with
    | none =>
      rw [hpending] at h
      cases h
      exact ⟨hpending, rfl⟩
    | some c =>
      rw [hpending] at h
      cases h
      exact ⟨rfl, rfl⟩
  mergeStagedCommit := by
    rintro g staged members _ ⟨⟩
    exact ⟨rfl, rfl⟩
  processMessage _ _ := rfl
  storePendingProposal _ _ := rfl

/-- A storage that empties the proposal store of the group and then fails to. -/
def forgetful (s : Secrets) : Except String Unit × Secrets :=
  if s.proposals = [] then (.ok (), s) else (.error "storage", { s with proposals := [] })

theorem forgetful_ok (s s' : Secrets) (h : forgetful s = (.ok (), s')) :
    s'.proposals = [] ∧ s'.pending = s.pending := by
  unfold forgetful at h
  split_ifs at h with hempty
  · cases h
    exact ⟨hempty, rfl⟩
  · cases h

/-- The platform on that storage. -/
def brittle : Platform :=
  { platform with mls := { mls with clearPendingProposals := forgetful } }

/-- The candidate by which a member at leaf `l` admits a joiner. -/
def admission (l : LeafNodeIndex) (key : UInt8) : CommitCandidate :=
  ⟨[], [frameOf 1 1 l (encodeChange (.add [key]))], frameOf 2 1 l (encodeChange (.add [key])),
    memberIdOf l⟩

/-- Our own candidate to admit a joiner. -/
def ownAdmission (key : UInt8) : BufferedCommitCandidate :=
  { peerEntry platform (admission 0 key) with isLocalCandidate := true }

/-- What the round of `offered` reads. -/
def admissionContext : RoundContext :=
  RoundContext.snapshot (offered []).queues (offered []).mls (stewardsOf [0, 1] 1) 1 false
    (memberIdOf 0)

/-- The invite is approved, nothing is pending. -/
def beforeRound : RoundState brittle where
  queues := (offered []).queues
  mls := ⟨[], groupOf 0 1 [[10], [11]], none⟩

/-- A peer's candidate passed every check, and clearing the store for its merge failed. -/
def failedRound : RoundState brittle :=
  after (applyInPriorityOrder (stewardsOf [0, 1] 1) admissionContext (memberIdOf 0)
    [peerEntry brittle (admission 1 20)] []) beforeRound

/-- The node minted its own candidate for the next round. -/
def mintedRound : RoundState brittle :=
  after (onMls (MlsService.createCommitCandidate [.add [20]])) failedRound

/-- Our commit is pending and a peer's candidate is there. -/
def contested : RoundState platform :=
  after (onMls (MlsService.createCommitCandidate [.add [20]]))
    ⟨(offered []).queues, (offered []).mls⟩

end Ideal

/-- A round that merges our own candidate leaves the commit staged by the failed round before it. -/
theorem stale_commit_left_in_slot :
    MlsService.Tidies Ideal.brittle.mls Ideal.Secrets.proposals ∧
    applyInPriorityOrder (Ideal.stewardsOf [0, 1] 1) Ideal.admissionContext (memberIdOf 0)
        [peerEntry Ideal.brittle (Ideal.admission 1 20)] [] Ideal.beforeRound =
      .error (.mls (.mlsStorage "storage")) Ideal.failedRound ∧
    ∃ r t, applyInPriorityOrder (Ideal.stewardsOf [0, 1] 1) Ideal.admissionContext (memberIdOf 0)
        [Ideal.ownAdmission 20] [] Ideal.mintedRound = .ok r t ∧
      r.outcome.isApplied = true ∧ ¬ t.mls.NothingPending Ideal.Secrets.proposals := by
  refine ⟨Ideal.tidies_clearing _ Ideal.forgetful_ok, rfl, _, _, rfl, rfl, fun h => ?_⟩
  cases h.staged

/-- Our own candidate survives the rejection of a peer's that admits somebody else. -/
theorem own_candidate_survives_rejection :
    ∃ r t, applyInPriorityOrder (Ideal.stewardsOf [0, 1] 1) Ideal.admissionContext (memberIdOf 0)
        [peerEntry Ideal.platform (Ideal.admission 1 30), Ideal.ownAdmission 20] []
        Ideal.contested = .ok r t ∧
      Chooses (Ideal.stewardsOf [0, 1] 1) Ideal.admissionContext (memberIdOf 0)
        [peerEntry Ideal.platform (Ideal.admission 1 30), Ideal.ownAdmission 20]
        Ideal.contested t r ∧
      t.mls.NothingPending Ideal.Secrets.proposals := by
  have hO : MlsService.Tidies Ideal.platform.mls Ideal.Secrets.proposals :=
    Ideal.tidies_clearing Ideal.mls.clearPendingProposals (by rintro s _ ⟨⟩; exact ⟨rfl, rfl⟩)
  obtain ⟨r, t, h⟩ : ∃ r t, applyInPriorityOrder (Ideal.stewardsOf [0, 1] 1)
      Ideal.admissionContext (memberIdOf 0)
      [peerEntry Ideal.platform (Ideal.admission 1 30), Ideal.ownAdmission 20] []
      Ideal.contested = .ok r t := ⟨_, _, rfl⟩
  obtain ⟨hchooses, hnothing⟩ := apply_loop_leaves_nothing_iff hO h
  have hready : Ready Ideal.Secrets.proposals Ideal.contested
      [peerEntry Ideal.platform (Ideal.admission 1 30), Ideal.ownAdmission 20] := by
    intro hlocal
    cases hlocal
  exact ⟨r, t, h, hchooses, hnothing.mpr hready⟩

end DeMls
