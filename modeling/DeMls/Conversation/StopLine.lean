import DeMls.Conversation.NoWedge
import DeMls.Conversation.Run

/-!
# The stop line of a recovery

A recovery gives up once `recovery_max_rounds` of its rounds ended without a commit. The history of a
run counts them since recovery was entered last. In recovery the node's own counter is that number,
and it stays below the stop line, so the end of a recovery is reported by the round that reaches the
line and by no other (`recovery_stop_line`).
-/

namespace DeMls

open Program Relation Runs

variable {P : Platform} {α : Type}

namespace Conversation

/-! ## The rounds of a recovery -/

/-- How a round of a recovery ends: with a commit, without one, or with nothing to recover. -/
inductive Ending
  | commit
  | commitless
  | idle
deriving DecidableEq, Repr

/-- The end of the recovery round that a poll closes, if it closes one. -/
def recoveryEnding (c : Conversation P) : Option Ending :=
  if c.state = .freezing ∧ c.freezingState.roundOver = true ∧ c.isInRecoveryMode = true then
    match c.pollRound with
    -- The finalization failed.
    | none => some .commitless
    | some (_, r, _) =>
      match r.outcome with
      | .applied _ _ => some .commit
      | .noCandidate =>
        if 0 < c.freezingState.queues.approvedProposalsCount then some .commitless else some .idle
  else none

/-- The outcome calls for a recovery. -/
def outcomeEnters (event : ConsensusEvent) (c : Conversation P) : Bool :=
  (c.resolved event.fields.1).any fun request =>
    decide ((c.applied event request).1 = .recoveryModeOpened)

/-- One of the outcomes that a tick drains does. -/
def drainEnters : Nat → Conversation P → Bool
  | 0, _ => false
  | fuel + 1, c =>
    match c.outcomes with
    | [] => false
    | event :: rest => outcomeEnters event { c with outcomes := rest } ||
        drainEnters fuel (after (handleConsensusOutcome event) { c with outcomes := rest })

/-- The commitless rounds since recovery was entered last, after a call. -/
def EntryPoint.commitless (e : EntryPoint) (n : Nat) (c : Conversation P) : Nat :=
  match e with
  | .enterRecoveryMode => 0
  | .poll fuel =>
    (if drainEnters fuel (after (tickDeadlines 0) c) then 0 else n) +
      if (after (tickDeadlines fuel) c).recoveryEnding = some .commitless then 1 else 0
  | _ => n

/-- The call ends the `m`-th commitless round. -/
def EntryPoint.exhausts (e : EntryPoint) (m n : Nat) (c : Conversation P) : Bool :=
  match e with
  | .poll fuel => decide (0 < m) &&
      (decide ((after (tickDeadlines fuel) c).recoveryEnding = some .commitless) &&
        decide (e.commitless n c = m))
  | _ => false

/-- The reports of a recovery given up. -/
def exhaustions (c : Conversation P) : Nat := c.pendingEvents.count .recoveryExhausted

/-! ## What leaves a recovery alone -/

/-- The mode, the counter, the stop line and the reports. -/
def recovery (c : Conversation P) : OperatingMode × Nat × Nat × Nat :=
  (c.operatingMode, c.recoveryRounds, c.config.recoveryMaxRounds, c.exhaustions)

theorem recovery_eq_iff {c : Conversation P} {mode : OperatingMode} {n m k : Nat} :
    c.recovery = (mode, n, m, k) ↔ c.operatingMode = mode ∧ c.recoveryRounds = n ∧
      c.config.recoveryMaxRounds = m ∧ c.exhaustions = k := by
  simp [recovery]

theorem recovery_event {c : Conversation P} {event : ConversationEvent}
    (h : event ≠ .recoveryExhausted) :
    ({ c with pendingEvents := c.pendingEvents ++ [event] } : Conversation P).recovery =
      c.recovery := by
  unfold recovery exhaustions
  simp [List.count_append, h]

theorem packets_recovery : Packets (P := P) fun c d => d.recovery = c.recovery where
  queues _ _ _ := rfl
  mls _ _ _ := rfl
  scoring _ _ := rfl
  answered _ _ _ := rfl
  event _ _ h := recovery_event h
  outbound _ _ _ := rfl
  deadlines _ _ _ := rfl
  timers _ _ _ := rfl
  list _ _ _ := rfl
  outcomes _ _ := rfl
  arm _ _ _ := rfl
  working _ _ := rfl
  freezing _ _ := rfl
  config c _ h := congrArg (fun m => (c.operatingMode, c.recoveryRounds, m, c.exhaustions)) h
  buffer _ _ := rfl

theorem plain_recovery : Plain (P := P) fun c d => d.recovery = c.recovery where
  toQuiet := packets_recovery.toQuiet
  bump _ := rfl

/-- A step out of recovery at most. -/
structure Ebbs (c d : Conversation P) : Prop where
  mode : d.operatingMode = c.operatingMode ∨ d.operatingMode = .normal
  rounds : d.recoveryRounds = c.recoveryRounds
  max : d.config.recoveryMaxRounds = c.config.recoveryMaxRounds
  exhaustions : d.exhaustions = c.exhaustions

theorem ebbs_of_recovery {c d : Conversation P} (h : d.recovery = c.recovery) : Ebbs c d := by
  obtain ⟨hmode, hrounds, hmax, hexhaustions⟩ := recovery_eq_iff.mp h
  exact ⟨.inl hmode, hrounds, hmax, hexhaustions⟩

theorem Ebbs.refl (c : Conversation P) : Ebbs c c := ebbs_of_recovery rfl

theorem Ebbs.trans {c d e : Conversation P} (h : Ebbs c d) (h' : Ebbs d e) : Ebbs c e where
  mode := by
    rcases h'.mode with hmode | hmode
    · rw [hmode]
      exact h.mode
    · exact .inr hmode
  rounds := h'.rounds.trans h.rounds
  max := h'.max.trans h.max
  exhaustions := h'.exhaustions.trans h.exhaustions

theorem ebbs_of_path {c d : Conversation P} (h : ReflTransGen Ebbs c d) : Ebbs c d := by
  induction h with
  | refl => exact .refl _
  | tail _ hstep ih => exact ih.trans hstep

theorem ebbs_of_along {x : ConvM P α} (h : Along Ebbs x) (c : Conversation P) : Ebbs c (after x c) :=
  ebbs_of_path (h c)

/-- What follows may ebb too. -/
theorem Ebbs.bind {c d : Conversation P} {β : Type} {x : ConvM P α} {f : α → ConvM P β}
    (h : Ebbs c (after x d)) (hf : ∀ a, Along Ebbs (f a)) : Ebbs c (after (x >>= f) d) := by
  cases hx : x d with
  | ok a e =>
    rw [after_of_ok hx] at h
    rw [after_bind_ok f hx]
    exact h.trans (ebbs_of_along (hf a) e)
  | error err e =>
    rw [after_of_error hx] at h
    rwa [after_bind_error f hx]

theorem phases_ebbs : Phases (P := P) Ebbs where
  toSteady := packets_recovery.toSteady.mono fun _ _ => ebbs_of_recovery
  exit _ := ⟨.inr rfl, rfl, rfl, rfl⟩
  back _ := ebbs_of_recovery rfl
  selection _ := ebbs_of_recovery rfl
  reelection _ := ebbs_of_recovery rfl

theorem plain_ebbs : Plain (P := P) Ebbs where
  toQuiet := phases_ebbs.toQuiet
  bump _ := ebbs_of_recovery rfl

/-! ## The count -/

/-- In recovery the counter is the number of commitless rounds, below the stop line; the number never
passes the line. -/
structure Counted (c : Conversation P) (n : Nat) : Prop where
  counter : c.isInRecoveryMode = true → c.recoveryRounds = n
  below : c.isInRecoveryMode = true → 0 < c.config.recoveryMaxRounds → n < c.config.recoveryMaxRounds
  bound : 0 < c.config.recoveryMaxRounds → n ≤ c.config.recoveryMaxRounds

theorem Ebbs.isInRecoveryMode {c d : Conversation P} (h : Ebbs c d)
    (hd : d.isInRecoveryMode = true) : c.isInRecoveryMode = true := by
  have hd : d.operatingMode = .recovery := of_decide_eq_true hd
  rcases h.mode with hmode | hmode
  · exact decide_eq_true (hmode.symm.trans hd)
  · rw [hmode] at hd
    cases hd

theorem Counted.ebbs {c d : Conversation P} {n : Nat} (hc : Counted c n) (h : Ebbs c d) :
    Counted d n where
  counter hd := h.rounds.trans (hc.counter (h.isInRecoveryMode hd))
  below hd := by
    rw [h.max]
    exact hc.below (h.isInRecoveryMode hd)
  bound := by
    rw [h.max]
    exact hc.bound

/-- What the entry into a recovery leaves. -/
def entered (c : Conversation P) : Conversation P :=
  { c with operatingMode := .recovery, recoveryRounds := 0 }

theorem Ebbs.entered {c d : Conversation P} (h : Ebbs c d) : Ebbs c.entered d.entered :=
  ⟨.inl rfl, rfl, h.max, h.exhaustions⟩

theorem counted_entered (c : Conversation P) : Counted c.entered 0 where
  counter _ := rfl
  below _ hmax := hmax
  bound _ := Nat.zero_le _

/-! ## Outcomes -/

/-- A follow-up enters a recovery that it opens, and does no more. -/
theorem ebbs_followUp (o : ConsensusApplyResult) (c : Conversation P) :
    Ebbs (if o = .recoveryModeOpened then c.entered else c) (after (followUp o) c) := by
  by_cases hopened : o = .recoveryModeOpened
  · subst hopened
    have hrest : Along Ebbs (do
        startFreezingAndEmit
        emitEvent .recoveryModeOpened : ConvM P Unit) := by
      have hfreeze : Along Ebbs (startFreezingAndEmit : ConvM P Unit) :=
        along_bind phases_ebbs.phased.startFreezing fun _ => phases_ebbs.phased.emitPhaseChange _
      exact along_bind hfreeze fun _ => phases_ebbs.phased.emitEvent ConversationEvent.noConfusion
    exact ebbs_of_along hrest c.entered
  · rw [if_neg hopened]
    by_cases hrejected : o = .electionRejected
    · rw [hrejected]
      exact ebbs_of_along plain_ebbs.advanceElectionRetry c
    · exact ebbs_of_along (phases_ebbs.followUp hrejected (fun h => absurd h hopened)
        fun _ _ _ => ebbs_of_recovery rfl) c

/-- **Outcomes.** One that opens a recovery enters it; none does more. -/
theorem ebbs_handleConsensusOutcome (event : ConsensusEvent) (c : Conversation P) :
    Ebbs (if outcomeEnters event c then c.entered else c) (after (handleConsensusOutcome event) c) := by
  have hannounced : Ebbs c (c.announced event) :=
    ebbs_of_recovery (recovery_event ConversationEvent.noConfusion)
  unfold outcomeEnters
  cases hresolved : c.resolved event.fields.1 with
  | none =>
    rcases after_handleConsensusOutcome_unresolved hresolved with h | h
    · rw [h]
      exact ebbs_of_recovery rfl
    · rw [h]
      exact hannounced
  | some request =>
    have hreplayed : Ebbs c (after replayEarlyCandidates (c.handed event request)) :=
      hannounced.trans (ebbs_of_recovery rfl)
    have hfollow := ebbs_followUp (c.applied event request).1
      (after replayEarlyCandidates (c.handed event request))
    rw [after_handleConsensusOutcome_resolved hresolved]
    simp only [Option.any_some, decide_eq_true_eq]
    have hreplay : Succeeds (replayEarlyCandidates : ConvM P Unit) := succeeds_modify _
    unfold finishOutcome
    rw [after_seq _ hreplay]
    refine Ebbs.bind ?_ fun _ => phases_ebbs.afterFollowUp _ _
    split_ifs at hfollow ⊢
    · exact hreplayed.entered.trans hfollow
    · exact hreplayed.trans hfollow

/-- The drained outcomes keep the count, from zero once they enter a recovery. -/
theorem counted_drainOutcomes {c : Conversation P} {n : Nat} (hc : Counted c n) (fuel : Nat) :
    Counted (after (drainOutcomes fuel) c) (if drainEnters fuel c then 0 else n) ∧
      (after (drainOutcomes fuel) c).config.recoveryMaxRounds = c.config.recoveryMaxRounds ∧
      (after (drainOutcomes fuel) c).exhaustions = c.exhaustions := by
  induction fuel generalizing c n with
  | zero => exact ⟨hc, rfl, rfl⟩
  | succ fuel ih =>
    unfold drainOutcomes drainEnters
    rw [after_bind_ok _ (get_apply c)]
    cases houtcomes : c.outcomes with
    | nil => exact ⟨hc, rfl, rfl⟩
    | cons event rest =>
      dsimp only
      rw [after_bind_ok _ (modify_apply _ _), after_attempted]
      have hstep := ebbs_handleConsensusOutcome event { c with outcomes := rest }
      by_cases henters : outcomeEnters event { c with outcomes := rest } = true
      · rw [if_pos henters] at hstep
        obtain ⟨hrest, hmax, hexhaustions⟩ := ih ((counted_entered _).ebbs hstep)
        refine ⟨?_, hmax.trans hstep.max, hexhaustions.trans hstep.exhaustions⟩
        simpa [henters] using hrest
      · rw [if_neg henters] at hstep
        have hpopped : Ebbs c { c with outcomes := rest } := ebbs_of_recovery rfl
        obtain ⟨hrest, hmax, hexhaustions⟩ := ih (hc.ebbs (hpopped.trans hstep))
        refine ⟨?_, hmax.trans hstep.max, hexhaustions.trans hstep.exhaustions⟩
        simpa [henters] using hrest

/-! ## The round -/

theorem recovery_freezingState (c : Conversation P) : c.freezingState.recovery = c.recovery :=
  path_keeps (packets_recovery.freezingState c)

theorem isInRecoveryMode_of_recovery {c d : Conversation P} (h : d.recovery = c.recovery) :
    d.isInRecoveryMode = c.isInRecoveryMode :=
  congrArg (fun x : OperatingMode × Nat × Nat × Nat => decide (x.1 = .recovery)) h

/-- At the stop line the recovery is given up. -/
theorem after_retry_exhausted {c : Conversation P} (h : c.config.recoveryMaxRounds ≠ 0 ∧
      c.config.recoveryMaxRounds ≤ c.recoveryRounds + 1) : after retryOrExhaustRecovery c =
    { c with
      recoveryRounds := c.recoveryRounds + 1
      operatingMode := .normal
      state := .working
      timing := { c.timing with phaseTimer := none }
      pendingEvents := c.pendingEvents ++ [.recoveryExhausted] ++ [.phaseChange .working] } := by
  unfold retryOrExhaustRecovery
  rw [after_bind_ok _ (modify_apply _ _), after_bind_ok _ (get_apply _), if_pos h]
  rfl

/-- Before it the round is counted. -/
theorem recovery_retry {c : Conversation P} (h : ¬ (c.config.recoveryMaxRounds ≠ 0 ∧
      c.config.recoveryMaxRounds ≤ c.recoveryRounds + 1)) :
    (after retryOrExhaustRecovery c).recovery =
      (c.operatingMode, c.recoveryRounds + 1, c.config.recoveryMaxRounds, c.exhaustions) := by
  have hreopen : Frame recovery (do
      let reopened ← reopenRecoveryWindow
      emitPhaseChange reopened
      pure .done : ConvM P DispatchOutcome) := by
    have hwindow : Frame recovery (reopenRecoveryWindow : ConvM P _) :=
      frame_bind (frame_get _) fun _ => frame_ite
        (frame_bind (frame_modify fun _ => rfl) fun _ => frame_pure _ _) (frame_pure _ _)
    exact frame_bind hwindow fun _ => frame_bind
      (packets_recovery.phased.emitPhaseChange _).frame fun _ => frame_pure _ _
  unfold retryOrExhaustRecovery
  rw [after_bind_ok _ (modify_apply _ _), after_bind_ok _ (get_apply _), if_neg h]
  exact hreopen _

/-- A commitless round ends with a retry. -/
theorem after_commitless {c : Conversation P} (h : c.recoveryEnding = some .commitless) :
    ∃ d, d.recovery = c.recovery ∧ after advanceFreezing c = after retryOrExhaustRecovery d := by
  unfold recoveryEnding at h
  by_cases hcloses : c.state = .freezing ∧ c.freezingState.roundOver = true ∧
      c.isInRecoveryMode = true
  swap
  · rw [if_neg hcloses] at h
    cases h
  rw [if_pos hcloses] at h
  obtain ⟨hstate, hover, hmode⟩ := hcloses
  have hfreezing := recovery_freezingState c
  cases hround : c.pollRound with
  | none =>
    obtain ⟨e, t, -, hafter⟩ := after_unfinalized hround hstate hover
    rw [hafter]
    have hselecting : (roundPart.set t c.freezingState.selecting).recovery = c.recovery :=
      (recovery_event ConversationEvent.noConfusion).trans hfreezing
    generalize roundPart.set t c.freezingState.selecting = d at hselecting
    have hreported : ({ d with pendingEvents := d.pendingEvents ++
        [.error "commit_round_finalize" e] } : Conversation P).recovery = c.recovery :=
      (recovery_event ConversationEvent.noConfusion).trans hselecting
    refine ⟨_, hreported, ?_⟩
    unfold emitEvent recoverFromFinalizeError
    rw [after_bind_ok _ (modify_apply _ _), after_bind_ok _ (get_apply _),
      if_pos ((isInRecoveryMode_of_recovery hreported).trans hmode)]
  | some x =>
    obtain ⟨s, r, t⟩ := x
    rw [hround] at h
    dsimp only at h
    cases hout : r.outcome with
    | applied result welcome =>
      rw [hout] at h
      cases h
    | noCandidate =>
      rw [hout] at h
      dsimp only at h
      by_cases happroved : 0 < c.freezingState.queues.approvedProposalsCount
      swap
      · rw [if_neg happroved] at h
        cases h
      have hset : (roundPart.set t c.freezingState.selecting).recovery = c.recovery :=
        (recovery_event ConversationEvent.noConfusion).trans hfreezing
      have hreport : Along (fun c d : Conversation P => d.recovery = c.recovery)
          (if r.committedBatch = [] then pure ()
            else emitEvent (.commitApplied r.committedBatch) : ConvM P Unit) :=
        along_ite (along_pure _) (packets_recovery.phased.emitEvent ConversationEvent.noConfusion)
      have hsucceeds : Succeeds (if r.committedBatch = [] then pure ()
          else emitEvent (.commitApplied r.committedBatch) : ConvM P Unit) :=
        succeeds_ite (succeeds_pure _) (succeeds_modify _)
      refine ⟨after (if r.committedBatch = [] then pure ()
          else emitEvent (.commitApplied r.committedBatch) : ConvM P Unit)
        (after (applyRoundScores r.scoreOps) (roundPart.set t c.freezingState.selecting)), ?_, ?_⟩
      · rw [hreport.frame, (packets_recovery.applyRoundScores _).frame, hset]
      · rw [after_round hround, hmode, decide_eq_true happroved]
        unfold finishRound
        rw [after_seq _ (applyRoundScores_succeeds _),
          after_seq _ hsucceeds, hout]
        rfl

/-- A round that ends otherwise leaves recovery at most. -/
theorem ebbs_advanceFreezing {c : Conversation P} (h : c.recoveryEnding ≠ some .commitless) :
    Ebbs c (after advanceFreezing c) := by
  have hp := phases_ebbs (P := P)
  cases hround : c.pollRound with
  | none =>
    refine ebbs_of_path (hp.unfinalized hround fun hstate hmode hover => absurd ?_ h)
    rw [isInRecoveryMode_of_recovery (recovery_freezingState c)] at hmode
    unfold recoveryEnding
    rw [if_pos ⟨hstate, hover, hmode⟩, hround]
  | some x =>
    obtain ⟨s, r, t⟩ := x
    obtain ⟨hstate, -, hfin⟩ := finalized_of_pollRound hround
    have hset : Ebbs c (roundPart.set t c.freezingState.selecting) :=
      ebbs_of_recovery ((recovery_event ConversationEvent.noConfusion).trans
        (recovery_freezingState c))
    rw [after_round hround]
    refine hset.trans (ebbs_of_along ?_ _)
    by_cases hprocessed : ∃ welcome, r.outcome = .applied .conversationUpdated welcome
    · obtain ⟨welcome, hout⟩ := hprocessed
      exact hp.processed (fun _ => ebbs_of_recovery rfl) (fun _ _ _ => ebbs_of_recovery rfl) hout
    · refine hp.unprocessed (finalizeCommitRound_outcome hfin) (fun w hw => hprocessed ⟨w, hw⟩) ?_
      intro hmode happroved hout
      refine absurd ?_ h
      have hover : c.freezingState.roundOver = true := by
        unfold pollRound at hround
        split_ifs at hround with hover
        exact hover.2
      unfold recoveryEnding
      rw [if_pos ⟨hstate, hover, hmode⟩, hround]
      dsimp only
      rw [hout, if_pos (of_decide_eq_true happroved)]

/-- Only a recovery round ends as one. -/
theorem isInRecoveryMode_of_ending {c : Conversation P} {ending : Ending}
    (h : c.recoveryEnding = some ending) : c.isInRecoveryMode = true := by
  unfold recoveryEnding at h
  split at h
  · rename_i hcloses
    exact hcloses.2.2
  · cases h

/-- The retry of a commitless round finds the count in the counter. -/
theorem Counted.retried {c : Conversation P} {n : Nat} (hc : Counted c n)
    (hending : c.recoveryEnding = some .commitless) :
    ∃ d, after advanceFreezing c = after retryOrExhaustRecovery d ∧
      d.recovery = (.recovery, n, c.config.recoveryMaxRounds, c.exhaustions) := by
  have hmode := isInRecoveryMode_of_ending hending
  obtain ⟨d, hrecovery, hround⟩ := after_commitless hending
  refine ⟨d, hround, ?_⟩
  rw [hrecovery, ← hc.counter hmode, ← of_decide_eq_true hmode]
  rfl

/-- A round at the stop line goes back to work, out of recovery, and reports both. -/
theorem Counted.exhausted {c : Conversation P} {n : Nat} (hc : Counted c n)
    (hending : c.recoveryEnding = some .commitless)
    (hline : n + 1 = c.config.recoveryMaxRounds) :
    (after advanceFreezing c).state = .working ∧
    (after advanceFreezing c).recovery =
      (.normal, n + 1, c.config.recoveryMaxRounds, c.exhaustions + 1) ∧
    ∃ earlier, (after advanceFreezing c).pendingEvents =
      earlier ++ [.recoveryExhausted, .phaseChange .working] := by
  obtain ⟨d, hround, hrecovery⟩ := hc.retried hending
  obtain ⟨-, rfl, hmax, hexhaustions⟩ := recovery_eq_iff.mp hrecovery
  rw [hround, after_retry_exhausted (by omega), ← hmax, ← hexhaustions]
  refine ⟨rfl, ?_, d.pendingEvents, by simp⟩
  simp [recovery, exhaustions, List.count_append]

/-- A round before the stop line is counted. -/
theorem Counted.reopened {c : Conversation P} {n : Nat} (hc : Counted c n)
    (hending : c.recoveryEnding = some .commitless)
    (hline : c.config.recoveryMaxRounds = 0 ∨ n + 1 < c.config.recoveryMaxRounds) :
    (after advanceFreezing c).recovery =
      (.recovery, n + 1, c.config.recoveryMaxRounds, c.exhaustions) := by
  obtain ⟨d, hround, hrecovery⟩ := hc.retried hending
  obtain ⟨hmode, rfl, hmax, hexhaustions⟩ := recovery_eq_iff.mp hrecovery
  rw [hround, recovery_retry (by omega), hmode, hmax, hexhaustions]

/-- **Rounds.** A commitless one is counted, and gives the recovery up at the stop line. -/
theorem counted_advanceFreezing {c : Conversation P} {n : Nat} (hc : Counted c n) :
    Counted (after advanceFreezing c)
      (n + if c.recoveryEnding = some .commitless then 1 else 0) ∧
    (after advanceFreezing c).config.recoveryMaxRounds = c.config.recoveryMaxRounds ∧
    (after advanceFreezing c).exhaustions = c.exhaustions +
      if 0 < c.config.recoveryMaxRounds ∧ c.recoveryEnding = some .commitless ∧
        n + 1 = c.config.recoveryMaxRounds then 1 else 0 := by
  by_cases hending : c.recoveryEnding = some .commitless
  · have hbelow := hc.below (isInRecoveryMode_of_ending hending)
    rw [if_pos hending]
    by_cases hline : n + 1 = c.config.recoveryMaxRounds
    · obtain ⟨hmode, -, hmax, hexhaustions⟩ :=
        recovery_eq_iff.mp (hc.exhausted hending hline).2.1
      rw [if_pos ⟨by omega, hending, hline⟩]
      refine ⟨⟨fun h => ?_, fun h => ?_, fun _ => ?_⟩, hmax, hexhaustions⟩
      · cases hmode.symm.trans (of_decide_eq_true h)
      · cases hmode.symm.trans (of_decide_eq_true h)
      · omega
    · obtain ⟨-, hrounds, hmax, hexhaustions⟩ :=
        recovery_eq_iff.mp (hc.reopened hending (by omega))
      rw [if_neg fun h => hline h.2.2]
      refine ⟨⟨fun _ => hrounds, fun _ hpos => ?_, fun hpos => ?_⟩, hmax, hexhaustions⟩ <;> omega
  · have hebbs := ebbs_advanceFreezing hending
    rw [if_neg hending, if_neg fun h => hending h.2.1]
    exact ⟨hc.ebbs hebbs, hebbs.max, hebbs.exhaustions⟩

/-! ## Calls -/

theorem counted_afterDrivers {c : Conversation P} {n : Nat} (hc : Counted c n) :
    Counted c.afterDrivers n ∧ c.afterDrivers.recovery = c.recovery := by
  have hkept : c.afterDrivers.recovery = c.recovery :=
    path_keeps (plain_recovery.afterDrivers packets_recovery.toSteady c)
  exact ⟨hc.ebbs (ebbs_of_recovery hkept), hkept⟩

/-- What a call does to the count, to the stop line and to the reports. -/
structure Reckons (e : EntryPoint) (n : Nat) (c : Conversation P) : Prop where
  counted : Counted (e.leaves c) (e.commitless n c)
  max : (e.leaves c).config.recoveryMaxRounds = c.config.recoveryMaxRounds
  reports : e ≠ .drainEvents → (e.leaves c).exhaustions =
    c.exhaustions + if e.exhausts c.config.recoveryMaxRounds n c then 1 else 0

/-- A call that neither enters a recovery nor ends a round. -/
theorem Reckons.of_ebbs {e : EntryPoint} {n : Nat} {c : Conversation P} (hc : Counted c n)
    (h : Ebbs c (e.leaves c)) (hcommitless : e.commitless n c = n)
    (hexhausts : e.exhausts c.config.recoveryMaxRounds n c = false) : Reckons e n c where
  counted := by
    rw [hcommitless]
    exact hc.ebbs h
  max := h.max
  reports _ := by
    rw [hexhausts]
    exact h.exhaustions

/-- What the tick of a poll leaves, with the count of its round. -/
theorem counted_tickDeadlines (fuel : Nat) {c : Conversation P} {n : Nat} (hc : Counted c n) :
    Counted (after (tickDeadlines fuel) c)
      (if drainEnters fuel (after (tickDeadlines 0) c) then 0 else n) ∧
    (after (tickDeadlines fuel) c).config.recoveryMaxRounds = c.config.recoveryMaxRounds ∧
    (after (tickDeadlines fuel) c).exhaustions = c.exhaustions := by
  have hfired : (after (tickDeadlines 0) c).recovery = c.recovery :=
    (packets_recovery.phased.fires (packets_recovery.speak fun _ _ => rfl)).frame c
  have hebbs := ebbs_of_recovery hfired
  obtain ⟨hdrained, hmax, hexhaustions⟩ := counted_drainOutcomes (hc.ebbs hebbs) fuel
  rw [← after_tickDeadlines] at hdrained hmax hexhaustions
  exact ⟨hdrained, hmax.trans hebbs.max, hexhaustions.trans hebbs.exhaustions⟩

/-- **Polls.** -/
theorem reckons_poll (fuel : Nat) {c : Conversation P} {n : Nat} (hc : Counted c n) :
    Reckons (.poll fuel) n c := by
  obtain ⟨hticked, hmax, hexhaustions⟩ := counted_tickDeadlines fuel hc
  obtain ⟨hround, hmaxRound, hreported⟩ := counted_advanceFreezing hticked
  have hleaves : EntryPoint.leaves (.poll fuel) c =
      (after advanceFreezing (after (tickDeadlines fuel) c)).afterDrivers := after_poll fuel c
  obtain ⟨hpolled, hkept⟩ := counted_afterDrivers hround
  have hebbs := ebbs_of_recovery hkept
  constructor
  · rw [hleaves]
    exact hpolled
  · rw [hleaves]
    exact hebbs.max.trans (hmaxRound.trans hmax)
  · intro _
    rw [hleaves, hebbs.exhaustions, hreported, hexhaustions, hmax]
    unfold EntryPoint.exhausts EntryPoint.commitless
    by_cases hending : (after (tickDeadlines fuel) c).recoveryEnding = some .commitless
    · simp [hending]
    · simp [hending]

/-- **Calls.** Every one keeps the count and the stop line, and reports the end of a recovery exactly
when it ends the round that reaches the line. -/
theorem reckons_entryPoint (e : EntryPoint) {c : Conversation P} {n : Nat} (hc : Counted c n) :
    Reckons e n c := by
  cases e with
  | poll fuel => exact reckons_poll fuel hc
  | enterRecoveryMode => exact ⟨counted_entered c, rfl, fun _ => rfl⟩
  | exitRecoveryMode => exact .of_ebbs hc (phases_ebbs.exit c) rfl rfl
  | drainEvents => exact ⟨⟨hc.counter, hc.below, hc.bound⟩, rfl, fun h => absurd rfl h⟩
  | clock now => exact .of_ebbs hc (ebbs_of_recovery rfl) rfl rfl
  | leave =>
    have hsent : Frame recovery (Conversation.leave : ConvM P Unit) :=
      (packets_recovery.phased.leave (packets_recovery.speak fun _ _ => rfl)).frame
    exact .of_ebbs hc (ebbs_of_recovery (hsent c)) rfl rfl
  | _ =>
    refine .of_ebbs hc (ebbs_of_recovery (path_keeps
      (packets_recovery.entryPoint ?_ ?_ ?_ ?_ ?_ ?_ c))) rfl rfl <;> simp

/-! ## Runs -/

/-- The history of a run. -/
def noteRounds (n : Nat) (c : Conversation P) (e : EntryPoint) (_ : Conversation P) : Nat :=
  e.commitless n c

/-- A constructed conversation with this stop line, and no history. -/
def StartsRecovery (m : Nat) (s : Conversation P × Nat) : Prop :=
  Constructed s.1 ∧ s.1.config.recoveryMaxRounds = m ∧ s.2 = 0

/-- A sync, an event and a packet alike leave the mode alone. -/
theorem receives_mode : Receives (P := P) fun c d => d.operatingMode = c.operatingMode where
  toPackets := packets_recovery.mono fun _ _ h => congrArg Prod.fst h
  drained _ := rfl
  spoken _ _ := rfl

theorem counted_of_constructed {c : Conversation P} (h : Constructed c) : Counted c 0 := by
  obtain ⟨base, hbase, hpath⟩ := receives_mode.constructed (fun _ _ => rfl) h
  have hnormal : c.operatingMode = .normal := (path_keeps hpath).trans hbase.mode
  constructor
  · intro hmode
    cases hnormal.symm.trans (of_decide_eq_true hmode)
  · exact fun _ hpos => hpos
  · exact fun _ => Nat.zero_le _

/-- **The stop line.** In every run under a stop line `m > 0`, at most `m` rounds end without a commit
between one entry into recovery and the next; in recovery their number is the counter, which stays
below `m`. A call reports the end of a recovery exactly if it ends the `m`-th such round, and that
round goes back to work, out of recovery. With `m = 0` no call does. -/
theorem recovery_stop_line {m : Nat} {s : Conversation P × Nat}
    (h : Reaches (StartsRecovery m) (watch noteRounds fun c (e : EntryPoint) d => d = e.leaves c)
      (fun _ _ => True) s) :
    (0 < m → s.2 ≤ m) ∧
    (0 < m → s.1.isInRecoveryMode = true → s.1.recoveryRounds = s.2 ∧ s.1.recoveryRounds < m) ∧
    (∀ e : EntryPoint, e ≠ .drainEvents → (e.leaves s.1).exhaustions =
      s.1.exhaustions + if e.exhausts m s.2 s.1 then 1 else 0) ∧
    (∀ fuel, EntryPoint.exhausts (.poll fuel) m s.2 s.1 = true →
      (after advanceFreezing (after (tickDeadlines fuel) s.1)).state = .working ∧
      (after advanceFreezing (after (tickDeadlines fuel) s.1)).operatingMode = .normal ∧
      (∃ earlier, (after advanceFreezing (after (tickDeadlines fuel) s.1)).pendingEvents =
        earlier ++ [.recoveryExhausted, .phaseChange .working]) ∧
      (after (poll fuel) s.1).isInRecoveryMode = false) ∧
    (m = 0 → ∀ e : EntryPoint, e.exhausts m s.2 s.1 = false) := by
  have hcounted : s.1.config.recoveryMaxRounds = m ∧ Counted s.1 s.2 := by
    refine h.invariant (I := fun s => s.1.config.recoveryMaxRounds = m ∧ Counted s.1 s.2) ?_ ?_
    · rintro ⟨c, n⟩ ⟨hconstructed, hmax, hn⟩
      exact ⟨hmax, hn ▸ counted_of_constructed hconstructed⟩
    · rintro ⟨c, n⟩ e ⟨d, n'⟩ ⟨hmax, hc⟩ - ⟨hstep, hnote⟩
      have hreckons := reckons_entryPoint e hc
      rw [show d = e.leaves c from hstep, show n' = e.commitless n c from hnote]
      exact ⟨hreckons.max.trans hmax, hreckons.counted⟩
  obtain ⟨hmax, hc⟩ := hcounted
  subst hmax
  refine ⟨hc.bound, fun hpos hmode => ?_, fun e => (reckons_entryPoint e hc).reports,
    fun fuel hexhausts => ?_, fun hzero e => ?_⟩
  · rw [hc.counter hmode]
    exact ⟨rfl, hc.below hmode hpos⟩
  · unfold EntryPoint.exhausts at hexhausts
    simp only [Bool.and_eq_true, decide_eq_true_eq] at hexhausts
    obtain ⟨-, hending, hline⟩ := hexhausts
    obtain ⟨hticked, hmax, -⟩ := counted_tickDeadlines fuel hc
    unfold EntryPoint.commitless at hline
    dsimp only at hline
    rw [if_pos hending, ← hmax] at hline
    obtain ⟨hstate, hrecovery, hevents⟩ := hticked.exhausted hending hline
    have hnormal := (recovery_eq_iff.mp hrecovery).1
    refine ⟨hstate, hnormal, hevents, ?_⟩
    rw [after_poll]
    have hkept : (after advanceFreezing (after (tickDeadlines fuel) s.1)).afterDrivers.recovery = _ :=
      path_keeps (plain_recovery.afterDrivers packets_recovery.toSteady _)
    rw [isInRecoveryMode_of_recovery hkept]
    unfold isInRecoveryMode
    rw [hnormal]
    rfl
  · cases e with
    | poll fuel =>
      unfold EntryPoint.exhausts
      rw [hzero]
      rfl
    | _ => rfl

end Conversation

/-! ## A recovery given up -/

namespace Ideal

/-- The creator of a group, alone in it, gives a recovery up after two rounds. -/
def twoRounds : Conversation platform :=
  { alone with config := { ConversationConfig.default with recoveryMaxRounds := 2 } }

theorem constructed_twoRounds : Conversation.Constructed twoRounds := by
  have hbase : Conversation.assemble (⟨[], groupOf 0 0 [[10]], none⟩ : MlsService platform.mls)
      ⟨[], ScoreEvent.defaultDelta, ⟨100, 0⟩⟩ [] 0 [0]
      { ConversationConfig.default with recoveryMaxRounds := 2 } true = .ok twoRounds := by
    rfl
  have hseed : (Conversation.seedInitialMembers [] : ConvM platform Unit) twoRounds =
      .ok () twoRounds := rfl
  exact .create hbase hseed

/-- The invite of a key package that does not decode is approved, and no commit can carry it: the
first round of the recovery fails, and the second is about to. -/
def stalled : Conversation platform × Nat :=
  [.initiateProposal (.memberInvite [255]) .yes, .enterRecoveryMode, .poll 4, .clock (seconds 10),
    .poll 4, .clock (seconds 30), .poll 4, .clock (seconds 50)].foldl
    (fun s (e : Conversation.EntryPoint) =>
      (e.leaves s.1, Conversation.noteRounds s.2 s.1 e (e.leaves s.1))) (twoRounds, 0)

end Ideal

/-- The next poll reaches the stop line: it reports the end of the recovery, once, and leaves it. -/
theorem stalled_gives_up : Ideal.stalled.2 = 1 ∧ Ideal.stalled.1.isInRecoveryMode = true ∧
    (after (Conversation.poll 4) Ideal.stalled.1).exhaustions = 1 ∧
    (after (Conversation.poll 4) Ideal.stalled.1).isInRecoveryMode = false := by
  have hrun : Reaches (Conversation.StartsRecovery 2) (watch Conversation.noteRounds
      fun c (e : Conversation.EntryPoint) d => d = e.leaves c) (fun _ _ => True) Ideal.stalled :=
    Reaches.foldl (fun _ _ => ⟨rfl, rfl⟩) (fun _ _ => trivial)
      (.start ⟨Ideal.constructed_twoRounds, rfl, rfl⟩) _
  obtain ⟨-, -, hreports, hgivesUp, -⟩ := Conversation.recovery_stop_line hrun
  have hexhausts : Conversation.EntryPoint.exhausts (.poll 4) 2 Ideal.stalled.2 Ideal.stalled.1 =
      true := by
    decide +kernel
  have hnone : Ideal.stalled.1.exhaustions = 0 := by decide +kernel
  have hreport := hreports (.poll 4) (by simp)
  rw [hexhausts, hnone] at hreport
  exact ⟨by decide +kernel, by decide +kernel, hreport, (hgivesUp 4 hexhausts).2.2.2⟩

end DeMls
