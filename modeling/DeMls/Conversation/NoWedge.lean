import DeMls.Conversation.AfterCommit
import DeMls.Conversation.Stages
import DeMls.Conversation.Walk
import DeMls.Ideal

/-!
# No wedge in a commit round

Outside the round nothing enters `Selection`, and `Freezing` is only entered with its timer
anchored (`Paces`). A round that is over ends in one of four ways, whatever fails on the way
(`EndsRound`): back at work, in re-election, in a freshly anchored recovery round that is counted,
or with this member gone and the poll saying so.
-/

namespace DeMls

open Program Relation Runs

variable {P : Platform} {α : Type}

namespace Conversation

/-! ## Phases outside the round -/

/-- What a step outside the round may do to the phase and its timer. -/
inductive Paces (c d : Conversation P) : Prop
  | beside (hnow : d.now = c.now) (hstate : d.state = c.state)
      (hanchor : d.timing.phaseTimer = c.timing.phaseTimer)
  | working (hnow : d.now = c.now) (hstate : d.state = .working)
  | freezing (hnow : d.now = c.now) (hstate : d.state = .freezing)
      (hanchor : d.timing.phaseTimer = some c.now)

theorem writes_paces : Writes (P := P) Paces where
  queues _ _ _ := .beside rfl rfl rfl
  mls _ _ _ := .beside rfl rfl rfl
  scoring _ _ := .beside rfl rfl rfl
  answered _ _ _ := .beside rfl rfl rfl
  event _ _ _ := .beside rfl rfl rfl
  outbound _ _ _ := .beside rfl rfl rfl
  deadlines _ _ _ := .beside rfl rfl rfl
  timers _ _ h := .beside rfl rfl h
  list _ _ _ := .beside rfl rfl rfl
  bump _ := .beside rfl rfl rfl
  outcomes _ _ := .beside rfl rfl rfl
  unbuffer _ _ := .beside rfl rfl rfl
  exit _ := .beside rfl rfl rfl
  enter _ := .beside rfl rfl rfl
  arm _ h _ := .working rfl h
  working _ _ := .working rfl rfl
  freezing _ _ := .freezing rfl rfl rfl

theorem receives_paces : Receives (P := P) Paces where
  toSteady := writes_paces.toSteady
  config _ _ _ := .beside rfl rfl rfl
  buffer _ _ := .beside rfl rfl rfl
  drained _ := .beside rfl rfl rfl
  spoken _ _ := .beside rfl rfl rfl

/-- A conversation that is not wedged: a freeze has its timer anchored, and only a member that has
left stays in selection. -/
structure Unwedged (c : Conversation P) (left : Bool) : Prop where
  anchored : c.state = .freezing → ∃ anchor, c.timing.phaseTimer = some anchor
  gone : c.state = .selection → left = true

theorem Unwedged.paces {c d : Conversation P} {left : Bool} (hstep : Paces c d)
    (h : c.Unwedged left) : d.Unwedged left := by
  cases hstep with
  | beside _ hstate hanchor =>
    constructor
    · rw [hstate, hanchor]
      exact h.anchored
    · rw [hstate]
      exact h.gone
  | working _ hstate =>
    constructor <;> rw [hstate] <;> exact ConversationState.noConfusion
  | freezing _ hstate hanchor =>
    refine ⟨fun _ => ⟨_, hanchor⟩, ?_⟩
    rw [hstate]
    exact ConversationState.noConfusion

theorem Unwedged.path {c d : Conversation P} {left : Bool} (hpath : ReflTransGen Paces c d)
    (h : c.Unwedged left) : d.Unwedged left := by
  induction hpath with
  | refl => exact h
  | tail _ hstep ih => exact ih.paces hstep

/-! ## The end of a round -/

/-- What the end of a round is about: the phase, its timer, the recovery rounds and the clock. -/
def roundClock (c : Conversation P) : ConversationState × Option Nat × Nat × Nat :=
  (c.state, c.timing.phaseTimer, c.recoveryRounds, c.now)

theorem plain_roundClock : Plain (P := P) fun c d => d.roundClock = c.roundClock where
  queues _ _ _ := rfl
  mls _ _ _ := rfl
  scoring _ _ := rfl
  answered _ _ _ := rfl
  event _ _ _ := rfl
  outbound _ _ _ := rfl
  deadlines _ _ _ := rfl
  timers c _ h := congrArg (fun t => (c.state, t, c.recoveryRounds, c.now)) h
  list _ _ _ := rfl
  bump _ := rfl

/-- Progress: at rest with no timer running, or in the next counted recovery round, anchored
afresh. -/
inductive Progresses (c d : Conversation P) : Prop
  | rests (hstate : d.state = .working ∨ d.state = .reelection) (hanchor : d.timing.phaseTimer = none)
  | reopens (hstate : d.state = .freezing) (hanchor : d.timing.phaseTimer = some c.now)
      (hcounted : d.recoveryRounds = c.recoveryRounds + 1)

/-- Progress is read off the phase and its timer, against the clock and the rounds before. -/
theorem Progresses.of_roundClock {c c' d d' : Conversation P} (hnow : c'.now = c.now)
    (hrounds : c'.recoveryRounds = c.recoveryRounds) (hd : d'.roundClock = d.roundClock)
    (h : Progresses c d) : Progresses c' d' := by
  unfold roundClock at hd
  simp only [Prod.mk.injEq] at hd
  obtain ⟨hstate, hanchor, hcount, -⟩ := hd
  cases h with
  | rests hrest hnone =>
    refine .rests ?_ (hanchor.trans hnone)
    rwa [hstate]
  | reopens hfreezing hsome hcounted =>
    refine .reopens (hstate.trans hfreezing) ?_ ?_
    · rw [hanchor, hnow, hsome]
    · rw [hcount, hrounds, hcounted]

/-- The program ends a round that is being selected: it makes progress, or the member has left and
the program says so. -/
def EndsRound (x : ConvM P DispatchOutcome) (c : Conversation P) : Prop :=
  (∃ d, x c = .ok .leaveRequested d ∧ d.state = .selection) ∨ Progresses c (after x c)

/-- A program that goes on as another one, from the same clock and count. -/
theorem EndsRound.of_run {x y : ConvM P DispatchOutcome} {c d : Conversation P} (hrun : x c = y d)
    (hnow : c.now = d.now) (hrounds : c.recoveryRounds = d.recoveryRounds) (h : EndsRound y d) :
    EndsRound x c := by
  unfold EndsRound after at h ⊢
  rw [hrun]
  exact h.imp_right fun hprogress => hprogress.of_roundClock hnow hrounds rfl

/-- What comes before the end of a round does not fail and leaves phase and clock alone. -/
theorem endsRound_seq {x : ConvM P Unit} {f : Unit → ConvM P DispatchOutcome} (hx : Succeeds x)
    (hframe : Frame roundClock x) {c : Conversation P} (h : EndsRound (f ()) (after x c)) :
    EndsRound (x >>= f) c := by
  have hclock := hframe c
  unfold roundClock at hclock
  simp only [Prod.mk.injEq] at hclock
  exact h.of_run (run_seq f hx c) hclock.2.2.2.symm hclock.2.2.1.symm

/-- What comes after progress may fail, and leaves phase and clock alone. -/
theorem endsRound_of_progress {x : ConvM P α} {f : α → ConvM P DispatchOutcome}
    {c : Conversation P} (h : Progresses c (after x c)) (hframe : ∀ a, Frame roundClock (f a)) :
    EndsRound (x >>= f) c :=
  .inr (h.of_roundClock rfl rfl (after_bind_of_frame hframe c))

/-- Back at work, a recovery round is over for good or counted and reopened. -/
theorem endsRound_retryOrExhaustRecovery {c : Conversation P} (hstate : c.state = .selection) :
    EndsRound (retryOrExhaustRecovery : ConvM P _) c := by
  refine .inr ?_
  let d : Conversation P := { c with recoveryRounds := c.recoveryRounds + 1 }
  have hcounted : after (retryOrExhaustRecovery : ConvM P _) c =
      after (if d.config.recoveryMaxRounds ≠ 0 ∧ d.config.recoveryMaxRounds ≤ d.recoveryRounds then do
        exitRecoveryMode
        let resumed ← startWorking
        emitEvent .recoveryExhausted
        emitEvent (.phaseChange resumed)
        pure .done
      else do
        let reopened ← reopenRecoveryWindow
        emitPhaseChange reopened
        pure .done : ConvM P DispatchOutcome) d := rfl
  rw [hcounted]
  by_cases hexhausted : d.config.recoveryMaxRounds ≠ 0 ∧ d.config.recoveryMaxRounds ≤ d.recoveryRounds
  · rw [if_pos hexhausted]
    exact .rests (.inl rfl) rfl
  · have hreopen : (reopenRecoveryWindow : ConvM P _) d = .ok (some .freezing) { d with
        state := .freezing
        timing := { d.timing with phaseTimer := some d.now } } := by
      unfold reopenRecoveryWindow
      rw [bind_run _ (get_apply d), if_pos hstate]
      rfl
    rw [if_neg hexhausted, after_bind_ok _ hreopen]
    exact .reopens rfl rfl rfl

theorem endsRound_recoverFromFinalizeError {c : Conversation P} (hstate : c.state = .selection) :
    EndsRound (recoverFromFinalizeError : ConvM P _) c := by
  unfold recoverFromFinalizeError
  refine EndsRound.of_run (bind_run _ (get_apply c)) rfl rfl ?_
  split_ifs
  · exact endsRound_retryOrExhaustRecovery hstate
  · exact .inr (.rests (.inl rfl) rfl)

theorem endsRound_finishNoCandidate (hasProposals : Bool) (c : Conversation P) :
    EndsRound (finishNoCandidate hasProposals : ConvM P _) c := by
  cases hasProposals with
  | false => exact .inr (.rests (.inl rfl) rfl)
  | true =>
    refine endsRound_of_progress (.rests (.inr rfl) rfl) fun event => ?_
    refine frame_bind (frame_get _) fun d => frame_bind ?_ fun _ => ?_
    · split
      · exact (plain_roundClock.applyScoreOps _).frame
      · exact frame_pure _ _
    · refine frame_bind (plain_roundClock.timed.emitEvent ConversationEvent.noConfusion).frame
        fun _ => ?_
      exact frame_bind (frame_attempt (plain_roundClock.timed.initiateStewardElection _).frame) fun _ =>
        frame_pure _ _

theorem endsRound_finishRecoveryRound (hasProposals : Bool) {c : Conversation P}
    (hstate : c.state = .selection) : EndsRound (finishRecoveryRound hasProposals : ConvM P _) c := by
  cases hasProposals with
  | false => exact .inr (.rests (.inl rfl) rfl)
  | true => exact endsRound_retryOrExhaustRecovery hstate

/-- What follows a merge reaches `Working` first; the rest may fail. -/
theorem progresses_onConversationUpdated (c : Conversation P) :
    Progresses c (after (onConversationUpdated : ConvM P Unit) c) := by
  let d : Conversation P := { c with
    stewardList := c.stewardList.resetRetry
    timing := { c.timing with reelectionRecovered := false, phaseTimer := none }
    state := .working
    pendingEvents := c.pendingEvents ++ [.phaseChange .working] }
  have hresumed : after (onConversationUpdated : ConvM P Unit) c = after (do
      reconcileMembershipAfterCommit
      stewardListHousekeeping
      processBufferedUpdates
      maybeCloseRecoveryWindow : ConvM P Unit) d := rfl
  have hrest : Frame roundClock (do
      reconcileMembershipAfterCommit
      stewardListHousekeeping
      processBufferedUpdates
      maybeCloseRecoveryWindow : ConvM P Unit) :=
    frame_bind (plain_roundClock.reconcileMembershipAfterCommit fun _ _ _ => rfl).frame fun _ =>
      frame_bind plain_roundClock.timed.stewardListHousekeeping.frame fun _ =>
        frame_bind plain_roundClock.timed.processBufferedUpdates.frame fun _ =>
          plain_roundClock.timed.maybeCloseRecoveryWindow.frame
  rw [hresumed]
  exact Progresses.of_roundClock rfl rfl (hrest d) (.rests (.inl rfl) rfl)

theorem prepareSelfLeave_succeeds : Succeeds (prepareSelfLeave : ConvM P Unit) :=
  succeeds_bind (succeeds_modify _) fun _ => succeeds_bind (succeeds_modify _) fun _ =>
    succeeds_bind (succeeds_attempt _) fun _ => succeeds_pure _

theorem roundClock_welcome (welcome : Option MemberWelcome) :
    Frame roundClock (match welcome with
      | some welcome => deliverWelcome welcome
      | none => pure () : ConvM P Unit) := by
  cases welcome with
  | some welcome => exact (plain_roundClock.deliverWelcome welcome).frame
  | none => exact frame_pure _ _

theorem endsRound_finishApplied (inRecovery verdict : Bool) (welcome : Option MemberWelcome)
    {c : Conversation P} (hstate : c.state = .selection) :
    EndsRound (finishApplied inRecovery (leaveOrUpdate verdict) welcome : ConvM P _) c := by
  have hmode : Frame roundClock (modify fun c : Conversation P =>
      if inRecovery then { c with operatingMode := .normal } else c : ConvM P Unit) :=
    frame_modify fun d => by split_ifs <;> rfl
  have hwelcome := roundClock_welcome (P := P) welcome
  unfold finishApplied
  refine endsRound_seq (succeeds_modify _) hmode (endsRound_seq ?_ hwelcome ?_)
  · cases welcome with
    | some welcome => exact succeeds_deliverWelcome welcome
    | none => exact succeeds_pure _
  · have hselecting := (congrArg Prod.fst ((hwelcome _).trans (hmode c))).trans hstate
    generalize after _ (after _ c) = d at hselecting
    cases verdict with
    | true =>
      have hleft : (dispatchInboundResult .leaveConversation : ConvM P _) d =
          .ok .leaveRequested (after prepareSelfLeave d) := run_seq _ prepareSelfLeave_succeeds d
      have hkept : Frame roundClock (prepareSelfLeave : ConvM P Unit) :=
        plain_roundClock.timed.prepareSelfLeave.frame
      exact .inl ⟨_, bind_run _ (attempt_of_ok hleft), (congrArg Prod.fst (hkept d)).trans hselecting⟩
    | false =>
      refine endsRound_of_progress ?_ fun r => ?_
      · rw [after_attempt]
        exact Progresses.of_roundClock rfl rfl (after_bind_of_frame (fun _ => frame_pure _ _) d)
          (progresses_onConversationUpdated d)
      · cases r <;> exact frame_pure _ _

/-- **The end of a round.** Whatever the round reports, its follow-up ends it. -/
theorem endsRound_finishRound (inRecovery hasProposals : Bool) {r : CommitRoundResult P.mls}
    (hr : r.outcome = .noCandidate ∨
      ∃ verdict welcome, r.outcome = .applied (leaveOrUpdate verdict) welcome)
    {c : Conversation P} (hstate : c.state = .selection) :
    EndsRound (finishRound inRecovery hasProposals r : ConvM P _) c := by
  have hscores : Frame roundClock (applyRoundScores r.scoreOps : ConvM P Unit) :=
    (plain_roundClock.applyRoundScores r.scoreOps).frame
  have hreport : Frame roundClock (if r.committedBatch = [] then pure ()
      else emitEvent (.commitApplied r.committedBatch) : ConvM P Unit) :=
    frame_ite (frame_pure _ _) (plain_roundClock.timed.emitEvent ConversationEvent.noConfusion).frame
  unfold finishRound
  refine endsRound_seq (applyRoundScores_succeeds _) hscores (endsRound_seq ?_ hreport ?_)
  · exact succeeds_ite (succeeds_pure _) (succeeds_modify _)
  · have hselecting : (after (if r.committedBatch = [] then pure ()
        else emitEvent (.commitApplied r.committedBatch) : ConvM P Unit)
          (after (applyRoundScores r.scoreOps) c)).state = .selection :=
      (congrArg Prod.fst ((hreport _).trans (hscores c))).trans hstate
    generalize after _ (after _ c) = d at hselecting
    rcases hr with hr | ⟨verdict, welcome, hr⟩
    · rw [hr]
      cases inRecovery with
      | true => exact endsRound_finishRecoveryRound hasProposals hselecting
      | false => exact endsRound_finishNoCandidate hasProposals d
    · rw [hr]
      exact endsRound_finishApplied inRecovery verdict welcome hselecting

theorem endsRound_selectAndFinalize (inRecovery : Bool) (c : Conversation P) :
    EndsRound (selectAndFinalize inRecovery : ConvM P _) c := by
  have hrun : (selectAndFinalize inRecovery : ConvM P _) c =
      ((attempt (finalizeCommitRound (inRecovery || c.stewardList.config.allowSubsetCandidates)
        c.selfMemberId) : ConvM P _) >>= afterFinalize inRecovery
          (decide (0 < c.queues.approvedProposalsCount))) c.selecting := rfl
  cases hround : DeMls.finalizeCommitRound c.stewardList c.isInRecoveryMode
      (inRecovery || c.stewardList.config.allowSubsetCandidates) c.selfMemberId c.roundState with
  | ok r t =>
    have hfin := finalizeCommitRound_of_ok (c := c.selecting) hround
    refine EndsRound.of_run (hrun.trans (bind_run _ (attempt_of_ok hfin))) rfl rfl ?_
    exact endsRound_finishRound _ _ (finalizeCommitRound_outcome hround) rfl
  | error e t =>
    have hfin := finalizeCommitRound_of_error (c := c.selecting) hround
    refine EndsRound.of_run (hrun.trans (bind_run _ (attempt_of_error hfin))) rfl rfl ?_
    have hreported : Frame roundClock (emitEvent (.error "commit_round_finalize" e) :
        ConvM P Unit) := frame_modify fun _ => rfl
    exact endsRound_seq (succeeds_modify _) hreported (endsRound_recoverFromFinalizeError rfl)

/-! ## The window of a round -/

/-- What the window is read off. -/
def windowParts (c : Conversation P) :
    ConversationState × Option Nat × OperatingMode × ConversationConfig × Nat :=
  (c.state, c.timing.phaseTimer, c.operatingMode, c.config, c.now)

theorem plain_windowParts : Plain (P := P) fun c d => d.windowParts = c.windowParts where
  queues _ _ _ := rfl
  mls _ _ _ := rfl
  scoring _ _ := rfl
  answered _ _ _ := rfl
  event _ _ _ := rfl
  outbound _ _ _ := rfl
  deadlines _ _ _ := rfl
  timers c _ h := congrArg (fun t => (c.state, t, c.operatingMode, c.config, c.now)) h
  list _ _ _ := rfl
  bump _ := rfl

/-- What a mint in recovery leaves alone. -/
theorem freezingState_eq (c : Conversation P) : c.freezingState.windowParts = c.windowParts ∧
    c.freezingState.roundClock = c.roundClock := by
  have hparts : Along (fun c d : Conversation P => d.windowParts = c.windowParts)
      (if c.isInRecoveryMode then maybeAutoCommitRecovery else pure () : ConvM P Unit) :=
    along_ite plain_windowParts.timed.maybeAutoCommitRecovery (along_pure _)
  have hclock : Along (fun c d : Conversation P => d.roundClock = c.roundClock)
      (if c.isInRecoveryMode then maybeAutoCommitRecovery else pure () : ConvM P Unit) :=
    along_ite plain_roundClock.timed.maybeAutoCommitRecovery (along_pure _)
  exact ⟨hparts.frame c, hclock.frame c⟩

/-- A round that is over is ended, early or at its window. -/
theorem endsRound_of_roundOver {c : Conversation P} (hstate : c.state = .freezing)
    (hover : c.freezingState.roundOver = true) : EndsRound (advanceFreezing : ConvM P _) c := by
  have hclock := (freezingState_eq c).2
  unfold roundClock at hclock
  simp only [Prod.mk.injEq] at hclock
  obtain ⟨-, -, hrounds, hnow⟩ := hclock
  have hrun : (advanceFreezing : ConvM P _) c = selectAndFinalize c.isInRecoveryMode c.freezingState := by
    unfold advanceFreezing
    rw [bind_run _ (get_apply c), if_neg (not_not.mpr hstate), bind_run _ (freezingState_run c),
      bind_run _ (get_apply _), if_pos hover]
  exact EndsRound.of_run hrun hnow.symm hrounds.symm (endsRound_selectAndFinalize _ _)

/-- The poll asks the caller to drop the conversation. -/
def pollLeaves (fuel : Nat) (c : Conversation P) : Bool :=
  match (poll fuel : ConvM P PollOutcome) c with
  | .ok outcome _ => outcome.leaveRequested
  | .error _ _ => false

/-- The poll says so when the round does. -/
theorem pollLeaves_of_round {fuel : Nat} {c d : Conversation P}
    (h : (advanceFreezing : ConvM P _) (after (tickDeadlines fuel) c) = .ok .leaveRequested d) :
    c.pollLeaves fuel = true := by
  unfold pollLeaves poll
  rw [run_seq _ (tickDeadlines_succeeds fuel), bind_run _ (attempt_of_ok h), run_attempted, run_attempted,
    run_attempted, run_attempted, run_attempted]
  rfl

/-- Before the window is over, and outside a freeze, the round paces. -/
theorem paces_advanceFreezing {c : Conversation P}
    (h : ¬ (c.state = .freezing ∧ c.freezingState.roundOver = true)) :
    ReflTransGen Paces c (after advanceFreezing c) := by
  have hw := writes_paces (P := P)
  rw [after_advanceFreezing]
  by_cases hstate : c.state = .freezing
  · rw [if_neg (not_not.mpr hstate), if_neg fun hover => h ⟨hstate, hover⟩]
    have hmint : Along Paces (if c.isInRecoveryMode then maybeAutoCommitRecovery else pure () :
        ConvM P Unit) := along_ite hw.phased.maybeAutoCommitRecovery (along_pure _)
    exact (hmint c).trans (hw.phased.reportProgress _)
  · rw [if_pos hstate]
    exact .single (hw.timers c _ rfl)

/-- The drivers after the round pace. -/
theorem paces_afterDrivers (c : Conversation P) : ReflTransGen Paces c c.afterDrivers := by
  have hw := writes_paces (P := P)
  exact (hw.phased.driveBufferedProposals _).trans ((hw.driveSyncResend _).trans
    ((hw.phased.driveSyncRequest _).trans ((hw.phased.startFreezeOnInactivity _).trans
      (hw.driveReelectionRetry _))))

/-- An ended round leaves no wedge behind. -/
theorem unwedged_of_progresses {c d : Conversation P} {left : Bool} (h : Progresses c d) :
    d.Unwedged left := by
  cases h with
  | rests hstate hanchor =>
    rcases hstate with hstate | hstate <;>
      constructor <;> rw [hstate] <;> exact ConversationState.noConfusion
  | reopens hstate hanchor hcounted =>
    refine ⟨fun _ => ⟨_, hanchor⟩, ?_⟩
    rw [hstate]
    exact ConversationState.noConfusion

/-- **Polls.** -/
theorem Unwedged.poll {c : Conversation P} {left : Bool} (h : c.Unwedged left) (fuel : Nat) :
    (after (poll fuel) c).Unwedged (left || c.pollLeaves fuel) := by
  have hticked := h.path (writes_paces.tickDeadlines receives_paces.spoken fuel c)
  rw [after_poll]
  refine Unwedged.path (paces_afterDrivers _) ?_
  by_cases hround : (after (tickDeadlines fuel) c).state = .freezing ∧
      (after (tickDeadlines fuel) c).freezingState.roundOver = true
  · rcases endsRound_of_roundOver hround.1 hround.2 with ⟨d, hrun, hstate⟩ | hprogress
    · rw [after_of_ok hrun, pollLeaves_of_round hrun, Bool.or_true]
      refine ⟨fun hfreezing => ?_, fun _ => rfl⟩
      cases hstate.symm.trans hfreezing
    · exact unwedged_of_progresses hprogress
  · have hpaced := hticked.path (paces_advanceFreezing hround)
    exact ⟨hpaced.anchored, fun hstate => by rw [hpaced.gone hstate, Bool.true_or]⟩

/-- Whether the integrator has been told that this member is gone. -/
def noteLeave (left : Bool) (c : Conversation P) (e : EntryPoint) (_ : Conversation P) : Bool :=
  match e with
  | .poll fuel => left || c.pollLeaves fuel
  | _ => left

/-- An entry point leaves no wedge behind. -/
theorem Unwedged.entryPoint {c : Conversation P} {left : Bool} (h : c.Unwedged left)
    (e : EntryPoint) : (e.leaves c).Unwedged (noteLeave left c e (e.leaves c)) := by
  cases e with
  | poll fuel => exact h.poll fuel
  | clock now => exact ⟨h.anchored, h.gone⟩
  | _ =>
    refine h.path (writes_paces.entryPoint ?_ ?_ receives_paces c) <;>
      intro _ <;>
      exact EntryPoint.noConfusion

end Conversation

/-! ## A freeze that runs its window -/

namespace Ideal

/-- The creator of a group, alone in it. -/
def alone : Conversation platform :=
  { conversationOf 0 0 [[10]] (stewardsOf [0] 0) [] none with
    scoring := ⟨[(memberIdOf 0, 100)], ScoreEvent.defaultDelta, ⟨100, 0⟩⟩
    pendingEvents := [.phaseChange .working] }

theorem constructed_alone : Conversation.Constructed alone := by
  have hbase : Conversation.assemble (⟨[], groupOf 0 0 [[10]], none⟩ : MlsService platform.mls)
      ⟨[], ScoreEvent.defaultDelta, ⟨100, 0⟩⟩ [] 0 [0] .default true = .ok alone := by
    rfl
  have hseed : (Conversation.seedInitialMembers [] : ConvM platform Unit) alone = .ok () alone := rfl
  exact .create hbase hseed

end Ideal

end DeMls
