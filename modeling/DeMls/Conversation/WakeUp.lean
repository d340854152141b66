import DeMls.Conversation.NoWedge

/-!
# The wake-up hint

A poll tells the integrator how long it may sleep (`nextWakeupIn`). The hint covers the deadlines of
votes and sessions, the window of the phase and the next sync request. The drivers watch for more
than that: `poll_rests` says what else must not be due for a poll before the hint to do nothing.
-/

namespace DeMls

open Program Relation Runs

variable {P : Platform} {α : Type}

namespace Conversation

/-! ## What the hint says -/

/-- No deadline of the hint has passed. -/
structure BeforeHint (c : Conversation P) : Prop where
  timeouts : ∀ e ∈ c.timing.pendingConsensusTimeouts.entries, c.now < e.2
  votes : ∀ e ∈ c.timing.pendingAutoVotes.entries, c.now < e.2.fireAt
  phase : ∀ d, c.phaseDeadline = some d → c.now < d
  request : ∀ d, c.syncRequestDeadline = some d → c.now < d

/-- A time before the smallest of the deadlines is before each. -/
theorem lt_of_min? {deadlines : List Nat} {now t : Nat} (hnow : now ≤ t)
    (h : ∀ w, deadlines.min?.map (· - now) = some w → t < now + w) : ∀ d ∈ deadlines, t < d := by
  intro d hd
  cases hmin : deadlines.min? with
  | none =>
    rw [List.min?_eq_none_iff.mp hmin] at hd
    cases hd
  | some m =>
    have hle : m ≤ d := (List.min?_eq_some_iff.mp hmin).2 d hd
    have hlt : t < now + (m - now) := h (m - now) (by rw [hmin]; rfl)
    omega

/-- **The hint.** -/
theorem beforeHint_of_nextWakeupIn {c : Conversation P} {t : Nat} (hnow : c.now ≤ t)
    (h : ∀ w, c.nextWakeupIn = some w → t < c.now + w) : BeforeHint { c with now := t } := by
  unfold nextWakeupIn at h
  have hall := lt_of_min? hnow h
  constructor
  · rintro ⟨id, d⟩ he
    refine hall d ?_
    simp only [List.mem_append]
    exact .inl (.inl (.inl (OrderedMap.mem_values.mpr ⟨id, he⟩)))
  · rintro ⟨id, entry⟩ he
    refine hall entry.fireAt ?_
    simp only [List.mem_append]
    exact .inl (.inl (.inr (List.mem_map_of_mem (OrderedMap.mem_values.mpr ⟨id, he⟩))))
  · intro d hd
    refine hall d ?_
    simp only [List.mem_append]
    exact .inl (.inr (Option.mem_toList.mpr hd))
  · intro d hd
    refine hall d ?_
    simp only [List.mem_append]
    exact .inr (Option.mem_toList.mpr hd)

/-! ## What the hint leaves out -/

/-- The guards of the mint let a batch through. -/
def Mints (c : Conversation P) : Prop :=
  c.queues.approvedProposals.entries ≠ [] ∧ c.queues.hasApprovedRemoval c.selfMemberId = false ∧
    c.nonMlsIds = [] ∧ ∃ updates joiners, c.packedBatch = .ok (updates, joiners) ∧ updates ≠ []

/-- The guards of a proposal let the request through. -/
def Proposes (c : Conversation P) (request : ConversationUpdateRequest) : Prop :=
  ((inFlightTarget P.mls request).any fun t => t ∈ c.queues.activeProposalTargets P.mls) = false ∧
    c.queues.partialFreezeBlocks (.of request) = false

/-- The outcomes on the bus repeat applied ones. -/
def Heard (c : Conversation P) : Prop :=
  ∀ event ∈ c.outcomes, c.queues.isConsensusOutcomeApplied event.fields.1 = true

/-- A freeze goes on, with nothing to report. -/
structure Collects (c : Conversation P) : Prop where
  reported : c.timing.lastCommitRoundProgress = some c.commitCandidateCount
  /-- Outside recovery a steward has yet to send its candidate. -/
  incomplete : c.isInRecoveryMode = false → ∀ list, c.stewardList.list = some list →
    c.commitCandidateCount.1 < list.members.length
  /-- In recovery the window of the round runs. -/
  running : c.isInRecoveryMode = true → elapsedSinceAnchor c.timing.phaseTimer c.now
    (c.config.recoveryAutoCommitDelay.getD 0 + c.config.retryWindow) = false
  /-- In recovery past the manual grace there is a candidate already, or nothing to mint. -/
  minted : c.isInRecoveryMode = true → ∀ delay, c.config.recoveryAutoCommitDelay = some delay →
    elapsedSinceAnchor c.timing.phaseTimer c.now delay = true →
      c.queues.commitRound.hasLocalCandidate = true ∨ ¬ c.Mints

/-- What the epoch steward has buffered, and another steward after its grace, is refused. -/
def HoldsBuffered (c : Conversation P) : Prop :=
  c.state = .working → c.queues.approvedProposalsCount = 0 →
    (c.isEpochSteward = true ∨ c.isSteward = true ∧ elapsedSinceAnchor c.timing.bufferedProposeAnchor
      c.now c.config.backupTakeoverWindow = true) →
    ∀ request ∈ c.actionableBufferedUpdates, ¬ c.Proposes request

/-- No backup steward is due to answer a sync request. -/
def HoldsSync (c : Conversation P) : Prop :=
  c.isEpochSteward = false → c.isSteward = true →
    elapsedSinceAnchor c.timing.syncResendAnchor c.now c.config.backupTakeoverWindow = false

/-- The short inactivity window of a retried or recovered election runs. -/
def HoldsFreeze (c : Conversation P) : Prop :=
  c.state = .working → 0 < c.queues.approvedProposalsCount → c.queues.hasElectionInFlight = false →
    (0 < c.stewardList.nextElectionRound ∨ c.timing.reelectionRecovered = true) →
      elapsedSinceAnchor c.timing.phaseTimer c.now c.config.retryWindow = false

/-- The silence of a re-election is not over. -/
def HoldsRetry (c : Conversation P) : Prop :=
  c.state = .reelection → c.queues.hasElectionInFlight = false →
    elapsedSinceAnchor c.timing.reelectionSilenceAnchor c.now c.config.retryWindow = false

/-- Nothing is due that the hint leaves out. -/
structure Rests (c : Conversation P) : Prop where
  heard : c.Heard
  collects : c.state = .freezing → c.Collects
  buffered : c.HoldsBuffered
  sync : c.HoldsSync
  freeze : c.HoldsFreeze
  retry : c.HoldsRetry

theorem elapsed_false_iff {anchor : Option Nat} {now window : Nat} :
    elapsedSinceAnchor anchor now window = false ↔ ∀ a, anchor = some a → now < a + window := by
  cases anchor with
  | none => simp [elapsedSinceAnchor]
  | some a => simp [elapsedSinceAnchor]

/-! ## The tick -/

/-- Repeated outcomes leave only the deadlines behind. -/
theorem drainOutcomes_repeated (fuel : Nat) (c : Conversation P) (h : c.Heard) :
    ∃ outs votes timeouts, after (drainOutcomes fuel) c = { c with
      outcomes := outs
      timing := { c.timing with
        pendingAutoVotes := votes, pendingConsensusTimeouts := timeouts } } := by
  induction fuel generalizing c with
  | zero => exact ⟨c.outcomes, _, _, rfl⟩
  | succ fuel ih =>
    unfold drainOutcomes
    rw [after_bind_ok _ (get_apply c)]
    cases houts : c.outcomes with
    | nil => exact ⟨c.outcomes, _, _, rfl⟩
    | cons event rest =>
      unfold Heard at h
      rw [houts] at h
      have hrepeated := h event List.mem_cons_self
      dsimp only
      rw [after_bind_ok _ (modify_apply _ _), after_attempted,
        after_of_ok (handleConsensusOutcome_repeated (c := { c with outcomes := rest }) hrepeated)]
      exact ih _ fun e he => h e (List.mem_cons_of_mem _ he)

/-- **The tick** of a poll before the hint. -/
theorem tickDeadlines_rests (fuel : Nat) {c : Conversation P} (hearly : c.BeforeHint)
    (hheard : c.Heard) : ∃ outs votes timeouts, after (tickDeadlines fuel) c = { c with
      outcomes := outs
      timing := { c.timing with
        pendingAutoVotes := votes, pendingConsensusTimeouts := timeouts } } := by
  have hvotes : (c.timing.pendingAutoVotes.entries.filter
      fun e => decide (e.2.fireAt ≤ c.now)) = [] :=
    List.filter_eq_nil_iff.mpr fun e he => by simpa using hearly.votes e he
  have htimeouts : (c.timing.pendingConsensusTimeouts.entries.filter
      fun e => decide (e.2 ≤ c.now)) = [] :=
    List.filter_eq_nil_iff.mpr fun e he => by simpa using hearly.timeouts e he
  unfold tickDeadlines
  rw [after_bind_ok _ (get_apply c), hvotes, htimeouts]
  exact drainOutcomes_repeated fuel { c with timing := { c.timing with
    pendingAutoVotes := c.timing.pendingAutoVotes.retain fun e => !decide (e.2.fireAt ≤ c.now)
    pendingConsensusTimeouts :=
      c.timing.pendingConsensusTimeouts.retain fun e => !decide (e.2 ≤ c.now) } } hheard

/-! ## The round -/

/-- A mint whose guards refuse changes nothing. -/
theorem mint_refused {c : Conversation P} (h : ¬ c.Mints) : after mintAndBroadcastCandidate c = c := by
  have hlocal : (∃ e, (localCandidate c.selfMemberId : ConvM P _) c = .error e c) ∨
      (localCandidate c.selfMemberId : ConvM P _) c = .ok none c := by
    unfold localCandidate
    rw [bind_run _ (get_apply c)]
    by_cases hsteward : (!c.stewardList.isSteward c.selfMemberId && !c.isInRecoveryMode) = true
    · rw [if_pos hsteward]
      exact .inl ⟨_, rfl⟩
    rw [if_neg hsteward]
    by_cases happroved : c.queues.approvedProposals.entries = []
    · rw [if_pos happroved]
      exact .inl ⟨_, rfl⟩
    rw [if_neg happroved]
    by_cases hremoved : c.queues.hasApprovedRemoval c.selfMemberId = true
    · rw [if_pos hremoved]
      exact .inr rfl
    rw [if_neg hremoved]
    by_cases hother : c.nonMlsIds ≠ []
    · rw [if_pos hother]
      exact .inl ⟨_, rfl⟩
    rw [if_neg hother]
    cases hbatch : c.packedBatch with
    | error e => exact .inl ⟨e, rfl⟩
    | ok batch =>
      obtain ⟨updates, joiners⟩ := batch
      have hempty : updates = [] := by
        by_contra hne
        exact h ⟨happroved, Bool.eq_false_iff.mpr hremoved, not_not.mp hother, updates, joiners,
          hbatch, hne⟩
      rw [bind_run _ (show (ofResult (.ok (updates, joiners)) : ConvM P _) c = .ok _ c from rfl)]
      dsimp only
      rw [if_pos hempty]
      exact .inr rfl
  unfold mintAndBroadcastCandidate
  rw [after_bind_ok _ (get_apply c)]
  rcases hlocal with ⟨e, hlocal⟩ | hlocal
  · have hbuilt : (buildLocalCandidate c.selfMemberId : ConvM P _) c = .error e c :=
      (bind_error _ _ _ _ _).mpr (.inl hlocal)
    exact after_bind_error _ hbuilt
  · have hbuilt : (buildLocalCandidate c.selfMemberId : ConvM P _) c = .ok none c := bind_run _ hlocal
    rw [after_bind_ok _ hbuilt]
    rfl

/-- **The round** of a poll before the hint. -/
theorem advanceFreezing_rests {c : Conversation P} (hphase : ∀ d, c.phaseDeadline = some d → c.now < d)
    (hcollects : c.state = .freezing → c.Collects) :
    ∃ progress, after advanceFreezing c =
      { c with timing := { c.timing with lastCommitRoundProgress := progress } } := by
  rw [after_advanceFreezing]
  by_cases hstate : c.state ≠ .freezing
  · rw [if_pos hstate]
    exact ⟨none, rfl⟩
  have hfreezing : c.state = .freezing := not_not.mp hstate
  obtain ⟨hreported, hincomplete, hrunning, hminted⟩ := hcollects hfreezing
  have hunminted : c.freezingState = c := by
    unfold freezingState
    by_cases hrecovery : c.isInRecoveryMode = true
    · rw [if_pos hrecovery]
      unfold maybeAutoCommitRecovery
      rw [after_bind_ok _ (get_apply c)]
      cases hdelay : c.config.recoveryAutoCommitDelay with
      | none => rfl
      | some delay =>
        dsimp only
        by_cases hskip : (!elapsedSinceAnchor c.timing.phaseTimer c.now delay ||
            c.queues.commitRound.hasLocalCandidate) = true
        · rw [if_pos hskip]
          rfl
        · obtain ⟨helapsed, hlocal⟩ := not_or.mp (mt (Bool.or_eq_true _ _).mpr hskip)
          have hdue : elapsedSinceAnchor c.timing.phaseTimer c.now delay = true := by
            simpa using helapsed
          rw [if_neg hskip, after_attempted,
            mint_refused ((hminted hrecovery delay hdelay hdue).resolve_left hlocal)]
          rfl
    · rw [if_neg hrecovery]
      rfl
  have hopen : c.roundOver = false := by
    unfold roundOver isFreezeWindowElapsed
    by_cases hrecovery : c.isInRecoveryMode = true
    · rw [hrecovery, if_pos rfl]
      exact hrunning hrecovery
    · rw [Bool.not_eq_true] at hrecovery
      have hwindow : elapsedSinceAnchor c.timing.phaseTimer c.now c.config.freezeDuration = false :=
        elapsed_false_iff.mpr fun a ha => hphase _ (by
          unfold phaseDeadline
          rw [ha, hfreezing])
      rw [hrecovery, if_neg Bool.false_ne_true, hwindow, Bool.and_false, Bool.or_false]
      cases hlist : c.stewardList.list with
      | none => rfl
      | some list => simpa using hincomplete hrecovery list hlist
  rw [if_neg hstate, hunminted, hopen, if_neg Bool.false_ne_true]
  unfold reportProgress
  rw [after_bind_ok _ (get_apply c), if_neg (not_not.mpr hreported)]
  exact ⟨_, rfl⟩

/-! ## The drivers -/

/-- A proposal whose guards refuse changes nothing. -/
theorem initiateProposal_refused {c : Conversation P} {request : ConversationUpdateRequest}
    (h : ¬ c.Proposes request) (v : CreatorVote) : after (initiateProposal request v) c = c := by
  unfold initiateProposal
  rw [after_bind_ok _ (get_apply c)]
  by_cases hinFlight : ((inFlightTarget P.mls request).any
      fun t => t ∈ c.queues.activeProposalTargets P.mls) = true
  · rw [if_pos hinFlight]
    rfl
  · rw [if_neg hinFlight]
    rcases checkProposalAllowed_cases (.of request) c with ⟨e, hgate⟩ | ⟨hgate, -⟩
    · exact after_bind_error _ hgate
    · exact absurd ⟨Bool.eq_false_iff.mpr hinFlight, hgate⟩ h

theorem proposeAll_refused {c : Conversation P} {requests : List ConversationUpdateRequest}
    (h : ∀ request ∈ requests, ¬ c.Proposes request) : after (proposeAll requests) c = c := by
  induction requests with
  | nil => rfl
  | cons request rest ih =>
    unfold proposeAll
    rw [after_attempted, initiateProposal_refused (h request List.mem_cons_self)]
    exact ih fun r hr => h r (List.mem_cons_of_mem _ hr)

/-- **Buffered proposals** of a poll before the hint. -/
theorem driveBufferedProposals_rests {c : Conversation P} (hbuffered : c.HoldsBuffered) :
    ∃ anchor, after driveBufferedProposals c =
      { c with timing := { c.timing with bufferedProposeAnchor := anchor } } := by
  have hdrained : (c.isEpochSteward = true ∨ c.isSteward = true ∧ elapsedSinceAnchor
      c.timing.bufferedProposeAnchor c.now c.config.backupTakeoverWindow = true) →
      ¬ (c.state ≠ .working ∨ 0 < c.queues.approvedProposalsCount ∨ c.actionableBufferedUpdates = []) →
      after (do
        modifyTiming fun t => { t with bufferedProposeAnchor := none }
        drainBufferedUpdates : ConvM P Unit) c =
          { c with timing := { c.timing with bufferedProposeAnchor := none } } := by
    intro hours hbusy
    obtain ⟨hstate, hrest⟩ := not_or.mp hbusy
    have hrefused := hbuffered (not_not.mp hstate)
      (Nat.eq_zero_of_not_pos (not_or.mp hrest).1) hours
    refine (after_bind_ok _ (modify_apply _ _)).trans ?_
    exact proposeAll_refused (c := { c with timing := { c.timing with bufferedProposeAnchor := none } })
      hrefused
  unfold driveBufferedProposals
  rw [after_bind_ok _ (get_apply c)]
  by_cases hidle : c.state ≠ .working ∨ 0 < c.queues.approvedProposalsCount ∨
      c.actionableBufferedUpdates = []
  · rw [if_pos hidle]
    exact ⟨none, rfl⟩
  rw [if_neg hidle]
  by_cases hepoch : c.isEpochSteward = true
  · rw [if_pos hepoch]
    exact ⟨none, hdrained (.inl hepoch) hidle⟩
  rw [if_neg hepoch]
  by_cases hsteward : (!c.isSteward) = true
  · rw [if_pos hsteward]
    exact ⟨_, rfl⟩
  rw [if_neg hsteward]
  cases hanchor : c.timing.bufferedProposeAnchor with
  | none => exact ⟨some c.now, rfl⟩
  | some anchor =>
    dsimp only
    by_cases hgrace : c.now < anchor + c.config.backupTakeoverWindow
    · rw [if_pos hgrace]
      exact ⟨_, rfl⟩
    · rw [if_neg hgrace]
      refine ⟨none, hdrained (.inr ⟨by simpa using hsteward, ?_⟩) hidle⟩
      rw [hanchor]
      exact decide_eq_true (not_lt.mp hgrace)

/-- **The sync resend** of a poll before the hint. -/
theorem driveSyncResend_rests {c : Conversation P} (hsync : c.HoldsSync) :
    ∃ anchor, after driveSyncResend c =
      { c with timing := { c.timing with syncResendAnchor := anchor } } := by
  unfold driveSyncResend
  rw [after_bind_ok _ (get_apply c)]
  cases hanchor : c.timing.syncResendAnchor with
  | none => exact ⟨_, rfl⟩
  | some anchor =>
    dsimp only
    by_cases hother : (c.isEpochSteward || !c.isSteward) = true
    · rw [if_pos hother]
      exact ⟨none, rfl⟩
    · rw [if_neg hother]
      obtain ⟨hepoch, hsteward⟩ := not_or.mp (mt (Bool.or_eq_true _ _).mpr hother)
      have hwaits := elapsed_false_iff.mp (hsync (Bool.eq_false_iff.mpr hepoch)
        (by simpa using hsteward)) anchor hanchor
      rw [if_pos hwaits]
      exact ⟨_, rfl⟩

/-- **The inactivity watch** of a poll before the hint. -/
theorem startFreezeOnInactivity_rests {c : Conversation P}
    (hphase : ∀ d, c.phaseDeadline = some d → c.now < d) (hfreeze : c.HoldsFreeze) :
    ∃ anchor, after startFreezeOnInactivity c =
      { c with timing := { c.timing with phaseTimer := anchor } } := by
  unfold startFreezeOnInactivity
  rw [after_bind_ok _ (get_apply c)]
  by_cases hflight : c.queues.hasElectionInFlight = true
  · rw [if_pos hflight]
    exact ⟨_, rfl⟩
  rw [if_neg hflight]
  dsimp only
  have hwaits : c.state = .working → 0 < c.queues.approvedProposalsCount → ∀ anchor,
      c.timing.phaseTimer = some anchor → c.now < anchor +
        if (c.isInRecoveryMode || decide (0 < c.stewardList.nextElectionRound) ||
          c.timing.reelectionRecovered) = true then c.config.retryWindow
        else c.config.commitBatchWindow := by
    intro hstate happroved anchor hanchor
    unfold phaseDeadline at hphase
    rw [hanchor, hstate] at hphase
    simp only [happroved.ne', if_false] at hphase
    by_cases hrecovery : c.isInRecoveryMode = true
    · rw [if_pos hrecovery] at hphase
      rw [hrecovery, Bool.true_or, Bool.true_or, if_pos rfl]
      exact hphase _ rfl
    · rw [if_neg hrecovery] at hphase
      split_ifs with hshort
      · refine elapsed_false_iff.mp (hfreeze hstate happroved
          (Bool.eq_false_iff.mpr hflight) ?_) anchor hanchor
        simpa [hrecovery] using hshort
      · exact hphase _ rfl
  generalize (if (c.isInRecoveryMode || decide (0 < c.stewardList.nextElectionRound) ||
    c.timing.reelectionRecovered) = true then c.config.retryWindow
    else c.config.commitBatchWindow) = window at hwaits ⊢
  have hrun : ∃ anchor, (checkStewardInactivity c.queues.approvedProposalsCount window : ConvM P _) c =
      .ok none { c with timing := { c.timing with phaseTimer := anchor } } := by
    unfold checkStewardInactivity
    rw [bind_run _ (get_apply c)]
    by_cases hidle : c.state ≠ .working ∨ c.queues.approvedProposalsCount = 0
    · rw [if_pos hidle]
      exact ⟨_, rfl⟩
    rw [if_neg hidle]
    obtain ⟨hstate, happroved⟩ := not_or.mp hidle
    by_cases hanchor : c.timing.phaseTimer = none
    · rw [if_pos hanchor]
      exact ⟨some c.now, rfl⟩
    · rw [if_neg hanchor, if_pos]
      · exact ⟨_, rfl⟩
      · rw [Bool.not_eq_true]
        exact elapsed_false_iff.mpr (hwaits (not_not.mp hstate) (Nat.pos_of_ne_zero happroved))
  obtain ⟨anchor, hrun⟩ := hrun
  rw [after_bind_ok _ hrun]
  exact ⟨anchor, rfl⟩

/-- **The re-election watch** of a poll before the hint. -/
theorem driveReelectionRetry_rests {c : Conversation P} (hretry : c.HoldsRetry) :
    ∃ anchor, after driveReelectionRetry c =
      { c with timing := { c.timing with reelectionSilenceAnchor := anchor } } := by
  unfold driveReelectionRetry
  rw [after_bind_ok _ (get_apply c)]
  by_cases hidle : c.state ≠ .reelection ∨ c.queues.hasElectionInFlight = true
  · rw [if_pos hidle]
    exact ⟨none, rfl⟩
  rw [if_neg hidle]
  obtain ⟨hstate, hflight⟩ := not_or.mp hidle
  cases hanchor : c.timing.reelectionSilenceAnchor with
  | none => exact ⟨some c.now, rfl⟩
  | some anchor =>
    have hsilent := elapsed_false_iff.mp
      (hretry (not_not.mp hstate) (Bool.eq_false_iff.mpr hflight)) anchor hanchor
    dsimp only
    rw [if_pos hsilent]
    exact ⟨_, rfl⟩

/-! ## The sync request -/

/-- The list is missing or exhausted. -/
def needsSync (c : Conversation P) : Bool :=
  match c.stewardList.list with
  | none => true
  | some l => l.isExhausted c.epoch

/-- Where a sync is needed and no election brings the list, one has been asked for. -/
def Requested (c : Conversation P) : Prop :=
  c.needsSync = true → c.queues.hasElectionInFlight = false → c.timing.syncRequestAnchor ≠ none

theorem needsSync_of_standing {c d : Conversation P} (h : d.standing = c.standing) :
    d.needsSync = c.needsSync := by
  have hlist : d.stewardList.list = c.stewardList.list := congrArg Prod.snd h
  have hepoch : d.epoch = c.epoch := congrArg (fun s => s.1.group.epoch) h
  unfold needsSync
  rw [hlist, hepoch]

/-- The anchor of the sync request is one of its own. -/
theorem posts_requestAnchor : Posts (P := P) fun c d =>
    d.timing.syncRequestAnchor = c.timing.syncRequestAnchor where
  queues _ _ _ := rfl
  mls _ _ _ := rfl
  answered _ _ _ := rfl
  event _ _ _ := rfl
  outbound _ _ _ := rfl
  deadlines _ _ _ := rfl

theorem after_driveSyncRequest (c : Conversation P) :
    after driveSyncRequest c = after (if !c.needsSync || c.queues.hasElectionInFlight then
      modifyTiming fun t => { t with syncRequestAnchor := none }
    else if c.timing.syncRequestAnchor.any fun anchor =>
        decide (c.now < anchor + c.config.backupTakeoverWindow) then pure ()
    else do
      modifyTiming fun t => { t with syncRequestAnchor := some c.now }
      requestConversationSync : ConvM P Unit) c := rfl

/-- **The sync request** of a poll before the hint. -/
theorem driveSyncRequest_rests {c : Conversation P}
    (hearly : ∀ d, c.syncRequestDeadline = some d → c.now < d) (h : c.Requested) :
    ∃ anchor, after driveSyncRequest c =
      { c with timing := { c.timing with syncRequestAnchor := anchor } } := by
  rw [after_driveSyncRequest]
  by_cases hquiet : (!c.needsSync || c.queues.hasElectionInFlight) = true
  · rw [if_pos hquiet]
    exact ⟨none, rfl⟩
  · rw [if_neg hquiet, if_pos]
    · exact ⟨_, rfl⟩
    · obtain ⟨hneeds, hflight⟩ := not_or.mp (mt (Bool.or_eq_true _ _).mpr hquiet)
      obtain ⟨anchor, hanchor⟩ := Option.ne_none_iff_exists'.mp
        (h (by simpa using hneeds) (Bool.eq_false_iff.mpr hflight))
      rw [hanchor]
      refine decide_eq_true (hearly _ ?_)
      unfold syncRequestDeadline
      rw [hanchor]
      rfl

theorem requested_driveSyncRequest (c : Conversation P) : (after driveSyncRequest c).Requested := by
  rw [after_driveSyncRequest]
  by_cases hquiet : (!c.needsSync || c.queues.hasElectionInFlight) = true
  · rw [if_pos hquiet]
    intro hneeds hflight
    have hneeds : c.needsSync = true := hneeds
    have hflight : c.queues.hasElectionInFlight = false := hflight
    rw [hneeds, hflight] at hquiet
    cases hquiet
  rw [if_neg hquiet]
  by_cases hasked : (c.timing.syncRequestAnchor.any fun anchor =>
      decide (c.now < anchor + c.config.backupTakeoverWindow)) = true
  · rw [if_pos hasked]
    intro _ _ hnone
    have hnone : c.timing.syncRequestAnchor = none := hnone
    rw [hnone] at hasked
    cases hasked
  · rw [if_neg hasked]
    intro _ _ hnone
    have hsent := (posts_requestAnchor.speak (fun _ _ => rfl) ⟨some .conversationSyncRequest⟩).frame
      { c with timing := { c.timing with syncRequestAnchor := some c.now } }
    cases hsent.symm.trans hnone

/-- What leaves the list, the group and the anchor alone, and runs only while no election is in
flight, leaves a request behind. -/
theorem Requested.of_frames {c d : Conversation P} (h : c.Requested)
    (hstanding : d.standing = c.standing)
    (hanchor : d.timing.syncRequestAnchor = c.timing.syncRequestAnchor)
    (hidle : c.queues.hasElectionInFlight = false) : d.Requested := by
  intro hneeds _
  rw [hanchor]
  exact h ((needsSync_of_standing hstanding).symm.trans hneeds) hidle

theorem Requested.startFreezeOnInactivity {c : Conversation P} (h : c.Requested) :
    (after startFreezeOnInactivity c).Requested := by
  have hcheck : ∀ approved window, Frame (fun c : Conversation P => c.timing.syncRequestAnchor)
      (checkStewardInactivity approved window : ConvM P _) := by
    intro approved window
    unfold checkStewardInactivity startFreezing
    refine frame_bind (frame_get _) fun c => frame_ite (frame_pure _ _) (frame_ite ?_ (frame_ite ?_ ?_))
    · exact frame_bind (frame_modify fun _ => rfl) fun _ => frame_pure _ _
    · exact frame_pure _ _
    · exact frame_bind (frame_get _) fun c => frame_ite
        (frame_bind (frame_modify fun _ => rfl) fun _ => frame_pure _ _) (frame_pure _ _)
  have hstanding : Frame standing (Conversation.startFreezeOnInactivity : ConvM P Unit) := by
    unfold Conversation.startFreezeOnInactivity
    refine frame_bind (frame_get _) fun c => frame_ite (frame_pure _ _) ?_
    refine frame_bind (frame_checkStewardInactivity _ _) fun o => ?_
    cases o with
    | none => exact frame_pure _ _
    | some event => exact frame_onFreezeEntered _
  have hanchor : Frame (fun c : Conversation P => c.timing.syncRequestAnchor)
      (Conversation.startFreezeOnInactivity : ConvM P Unit) := by
    unfold Conversation.startFreezeOnInactivity
    refine frame_bind (frame_get _) fun c => frame_ite (frame_pure _ _) ?_
    refine frame_bind (hcheck _ _) fun o => ?_
    cases o with
    | none => exact frame_pure _ _
    | some event => exact (posts_requestAnchor.posted.onFreezeEntered _).frame
  by_cases hflight : c.queues.hasElectionInFlight = true
  · unfold Conversation.startFreezeOnInactivity
    rw [after_bind_ok _ (get_apply c), if_pos hflight]
    exact h
  · exact h.of_frames (hstanding c) (hanchor c) (Bool.eq_false_iff.mpr hflight)

theorem Requested.driveReelectionRetry {c : Conversation P} (h : c.Requested) :
    (after driveReelectionRetry c).Requested := by
  have hstanding : Frame standing (do
      modifyTiming fun t => { t with reelectionSilenceAnchor := none }
      advanceElectionRetry : ConvM P Unit) :=
    frame_bind (frame_modifyTiming _) fun _ => frame_advanceElectionRetry
  have hanchor : Frame (fun c : Conversation P => c.timing.syncRequestAnchor) (do
      modifyTiming fun t => { t with reelectionSilenceAnchor := none }
      advanceElectionRetry : ConvM P Unit) :=
    frame_bind (frame_modify fun _ => rfl) fun _ =>
      (posts_requestAnchor.posted.advanceElectionRetry (along_step fun _ => rfl)).frame
  unfold Conversation.driveReelectionRetry
  rw [after_bind_ok _ (get_apply c)]
  by_cases hidle : c.state ≠ .reelection ∨ c.queues.hasElectionInFlight = true
  · rw [if_pos hidle]
    exact h
  rw [if_neg hidle]
  cases c.timing.reelectionSilenceAnchor with
  | none => exact h
  | some anchor =>
    dsimp only
    by_cases hearly : c.now < anchor + c.config.retryWindow
    · rw [if_pos hearly]
      exact h
    · rw [if_neg hearly]
      exact h.of_frames (hstanding c) (hanchor c) (Bool.eq_false_iff.mpr (not_or.mp hidle).2)

/-- After a poll a sync that is needed has been asked for. -/
theorem requested_poll (fuel : Nat) (c : Conversation P) : (after (poll fuel) c).Requested := by
  rw [after_poll]
  exact ((requested_driveSyncRequest _).startFreezeOnInactivity).driveReelectionRetry

/-! ## Polls before the hint -/

/-- **A poll at rest** moves timers, and drops repeated outcomes. -/
theorem poll_rests {c : Conversation P} (hearly : c.BeforeHint) (hrequested : c.Requested)
    (hrests : c.Rests) (fuel : Nat) : ∃ timing outcomes,
      after (poll fuel) c = { c with timing := timing, outcomes := outcomes } := by
  obtain ⟨outs, votes, timeouts, htick⟩ := tickDeadlines_rests fuel hearly hrests.heard
  let c₁ : Conversation P := { c with
    outcomes := outs
    timing := { c.timing with pendingAutoVotes := votes, pendingConsensusTimeouts := timeouts } }
  have hcollects : c₁.state = .freezing → c₁.Collects := fun h => by
    obtain ⟨hreported, hincomplete, hrunning, hminted⟩ := hrests.collects h
    exact ⟨hreported, hincomplete, hrunning, hminted⟩
  obtain ⟨progress, hround⟩ := advanceFreezing_rests (c := c₁) hearly.phase hcollects
  let c₂ : Conversation P := { c₁ with
    timing := { c₁.timing with lastCommitRoundProgress := progress } }
  obtain ⟨buffered, hbuffered⟩ := driveBufferedProposals_rests (c := c₂) hrests.buffered
  let c₃ : Conversation P := { c₂ with
    timing := { c₂.timing with bufferedProposeAnchor := buffered } }
  obtain ⟨resend, hresend⟩ := driveSyncResend_rests (c := c₃) hrests.sync
  let c₄ : Conversation P := { c₃ with timing := { c₃.timing with syncResendAnchor := resend } }
  obtain ⟨request, hrequest⟩ := driveSyncRequest_rests (c := c₄) hearly.request hrequested
  let c₅ : Conversation P := { c₄ with timing := { c₄.timing with syncRequestAnchor := request } }
  obtain ⟨phase, hfreeze⟩ := startFreezeOnInactivity_rests (c := c₅) hearly.phase hrests.freeze
  let c₆ : Conversation P := { c₅ with timing := { c₅.timing with phaseTimer := phase } }
  obtain ⟨silence, hretry⟩ := driveReelectionRetry_rests (c := c₆) hrests.retry
  refine ⟨{ c₆.timing with reelectionSilenceAnchor := silence }, outs, ?_⟩
  rw [after_poll, htick]
  unfold afterDrivers
  rw [hround, hbuffered, hresend, hrequest, hfreeze, hretry]

/-- The hint is read off the state a poll leaves. -/
theorem nextWakeupIn_of_poll {c d : Conversation P} {fuel : Nat} {outcome : PollOutcome}
    (h : poll fuel c = .ok outcome d) : outcome.nextWakeupIn = d.nextWakeupIn := by
  unfold poll at h
  iterate 7
    rw [bind_ok] at h
    obtain ⟨_, _, -, h⟩ := h
  rw [bind_run _ (get_apply _)] at h
  cases h
  rfl

/-- **The wake-up hint.** After any poll, a poll before its hint leaves the phase, the queues, the
list, the retry round, the events and the outbound alone, and everything else but the timers and the
repeated outcomes, as long as nothing is due that the hint leaves out. -/
theorem wakeUp_hint_sound {c₀ c : Conversation P} {fuel₀ : Nat} {outcome : PollOutcome}
    (hpoll : poll fuel₀ c₀ = .ok outcome c) {t : Nat} (hnow : c.now ≤ t)
    (hhint : ∀ w, outcome.nextWakeupIn = some w → t < c.now + w)
    (hrests : Rests { c with now := t }) (fuel : Nat) : ∃ timing outcomes,
      after (poll fuel) { c with now := t } =
        { c with now := t, timing := timing, outcomes := outcomes } := by
  have hrequested : c.Requested := by
    have h := requested_poll fuel₀ c₀
    rwa [after_of_ok hpoll] at h
  rw [nextWakeupIn_of_poll hpoll] at hhint
  exact poll_rests (beforeHint_of_nextWakeupIn hnow hhint) hrequested hrests fuel

end Conversation

/-! ## Wake-ups that the hint misses -/

namespace Ideal

/-- The creator, alone in its group, admits a member, and the batch window passes. -/
def admitting : Conversation platform :=
  [.addMember [11], .poll 4, .clock (seconds 60)].foldl
    (fun c (e : Conversation.EntryPoint) => e.leaves c) alone

theorem reaches_admitting : Reaches Conversation.Constructed
    (fun c (e : Conversation.EntryPoint) d => d = e.leaves c) (fun _ _ => True) admitting := by
  refine Reaches.foldl ?_ (fun _ _ => trivial) (.start constructed_alone) _
  exact fun _ _ => rfl

/-- Before that, the invite is about to be approved. -/
def inviting : Conversation platform := (Conversation.EntryPoint.addMember [11]).leaves alone

end Ideal

/-- The poll freezes the conversation with its only candidate in, and hints at the end of the window.
A second later the next poll commits. -/
theorem admitting_wakes_early :
    Reaches Conversation.Constructed (fun c (e : Conversation.EntryPoint) d => d = e.leaves c)
      (fun _ _ => True) Ideal.admitting ∧
    ∃ outcome c, Conversation.poll 4 Ideal.admitting = .ok outcome c ∧
      outcome.nextWakeupIn = some (seconds 30) ∧ c.now = seconds 60 ∧ c.state = .freezing ∧
      (after (Conversation.poll 4) { c with now := seconds 61 }).state = .working ∧
      (after (Conversation.poll 4) { c with now := seconds 61 }).epoch = c.epoch + 1 := by
  refine ⟨Ideal.reaches_admitting, ?_⟩
  obtain ⟨outcome, hpoll⟩ := Conversation.poll_succeeds 4 Ideal.admitting
  refine ⟨outcome, _, hpoll, ?_, ?_⟩
  · rw [Conversation.nextWakeupIn_of_poll hpoll]
    decide +kernel
  · decide +kernel

/-- With the batch window running and nothing else due, the hint is sound. -/
theorem inviting_wakes_in_time : ∃ outcome c, Conversation.poll 4 Ideal.inviting = .ok outcome c ∧
    outcome.nextWakeupIn = some (seconds 60) ∧ 0 < c.queues.approvedProposalsCount ∧
    ∃ timing outcomes, after (Conversation.poll 4) { c with now := seconds 59 } =
      { c with now := seconds 59, timing := timing, outcomes := outcomes } := by
  obtain ⟨outcome, hpoll⟩ := Conversation.poll_succeeds 4 Ideal.inviting
  have hhint : outcome.nextWakeupIn = some (seconds 60) := by
    rw [Conversation.nextWakeupIn_of_poll hpoll]
    decide +kernel
  refine ⟨outcome, _, hpoll, hhint, by decide +kernel, ?_⟩
  refine Conversation.wakeUp_hint_sound hpoll (by decide +kernel) ?_ ?_ 4
  · intro w hw
    cases hhint.symm.trans hw
    decide +kernel
  · have hstate : (after (Conversation.poll 4) Ideal.inviting).state = .working := by decide +kernel
    have hround : (after (Conversation.poll 4) Ideal.inviting).stewardList.nextElectionRound = 0 := by
      decide +kernel
    have hrecovered : (after (Conversation.poll 4) Ideal.inviting).timing.reelectionRecovered = false := by
      decide +kernel
    have happroved : (after (Conversation.poll 4) Ideal.inviting).queues.approvedProposalsCount = 1 := by
      decide +kernel
    have hsteward : (after (Conversation.poll 4) Ideal.inviting).isEpochSteward = true := by
      decide +kernel
    constructor
    · unfold Conversation.Heard
      decide +kernel
    · intro hfreezing
      cases hstate.symm.trans hfreezing
    · intro _ hnone
      cases happroved.symm.trans hnone
    · intro hother
      cases hsteward.symm.trans hother
    · rintro _ _ _ (hretried | hresumed)
      · exact absurd hround hretried.ne'
      · cases hrecovered.symm.trans hresumed
    · intro hreelection
      cases hstate.symm.trans hreelection

end DeMls
