import DeMls.Conversation.NoWedge

/-!
# Silence

While an epoch rotation is under way a conversation puts out candidates, syncs and welcomes, and no
proposal and no vote (`Silent`). What a rotating conversation does goes on rotating in silence
(`Hushes`), a leave and the due auto-votes apart; and what opens a freeze is silent from the start.
-/

namespace DeMls

open Program Relation

variable {P : Platform} {α β : Type}

namespace Conversation

/-! ## What is put out -/

/-- Nothing is put out in between but what is neither a proposal nor a vote. -/
def Silent (c d : Conversation P) : Prop :=
  ∃ more, (∀ p ∈ more, OtherTraffic P p.payload) ∧
    (d.pendingOutbound = c.pendingOutbound ++ more ∨ d.pendingOutbound = more)

theorem Silent.of_outbound {c d : Conversation P} (h : d.pendingOutbound = c.pendingOutbound) :
    Silent c d :=
  ⟨[], fun _ hp => absurd hp (List.not_mem_nil), .inl (by rw [h, List.append_nil])⟩

theorem Silent.refl (c : Conversation P) : Silent c c := .of_outbound rfl

theorem Silent.trans {c d e : Conversation P} (h : Silent c d) (h' : Silent d e) : Silent c e := by
  obtain ⟨more, hmore, hcd⟩ := h
  obtain ⟨later, hlater, hde⟩ := h'
  rcases hde with hde | hde
  · refine ⟨more ++ later, fun p hp => ?_, ?_⟩
    · rcases List.mem_append.mp hp with hp | hp
      · exact hmore p hp
      · exact hlater p hp
    · rcases hcd with hcd | hcd
      · exact .inl (by rw [hde, hcd, List.append_assoc])
      · exact .inr (by rw [hde, hcd])
  · exact ⟨later, hlater, .inr hde⟩

theorem Silent.congr_left {c c' d : Conversation P} (h : c'.pendingOutbound = c.pendingOutbound)
    (hc : Silent c d) : Silent c' d :=
  (Silent.of_outbound h.symm).trans hc

/-- A rotation under way, reached in silence. -/
def Hush (c d : Conversation P) : Prop := d.rotating = true ∧ Silent c d

/-- A rotating conversation goes on rotating, in silence. -/
def Hushes (c d : Conversation P) : Prop := c.rotating = true → Hush c d

theorem hushes_of_kept {c d : Conversation P} (hstate : d.state = c.state)
    (hout : d.pendingOutbound = c.pendingOutbound) : Hushes c d :=
  fun h => ⟨(rotating_of_state hstate).trans h, .of_outbound hout⟩

theorem hushes_of_path {c d : Conversation P} (h : ReflTransGen Hushes c d) : Hushes c d := by
  intro hc
  induction h with
  | refl => exact ⟨hc, .refl _⟩
  | tail _ hstep ih =>
    obtain ⟨hrotating, hsilent⟩ := ih
    obtain ⟨hstill, hlater⟩ := hstep hrotating
    exact ⟨hstill, hsilent.trans hlater⟩

theorem rotating_eq_false_iff {c : Conversation P} :
    c.rotating = false ↔ c.state = .working ∨ c.state = .reelection := by
  unfold rotating
  cases c.state <;> simp

theorem packets_hushes : Packets (P := P) Hushes where
  queues _ _ _ := hushes_of_kept rfl rfl
  mls _ _ _ := hushes_of_kept rfl rfl
  scoring _ _ := hushes_of_kept rfl rfl
  answered _ _ _ := hushes_of_kept rfl rfl
  event _ _ _ := hushes_of_kept rfl rfl
  outbound c l h hrotating := by
    refine ⟨hrotating, ?_⟩
    rcases h with rfl | ⟨payload, rfl, hother⟩
    · exact ⟨[], fun _ hp => absurd hp List.not_mem_nil, .inr rfl⟩
    · refine ⟨_, fun p hp => ?_, .inl rfl⟩
      rw [List.mem_singleton.mp hp]
      exact hother hrotating
  deadlines _ _ _ := hushes_of_kept rfl rfl
  timers _ _ _ := hushes_of_kept rfl rfl
  list _ _ _ := hushes_of_kept rfl rfl
  outcomes _ _ := hushes_of_kept rfl rfl
  arm _ _ _ := hushes_of_kept rfl rfl
  working _ hstate hrotating := by
    rw [rotating_eq_false_iff.mpr (.inr hstate)] at hrotating
    cases hrotating
  freezing _ hstate hrotating := by
    rw [rotating_eq_false_iff.mpr hstate] at hrotating
    cases hrotating
  config _ _ _ := hushes_of_kept rfl rfl
  buffer _ _ := hushes_of_kept rfl rfl

theorem writes_hushes : Writes (P := P) Hushes where
  toSteady := packets_hushes.toSteady
  exit _ := hushes_of_kept rfl rfl
  enter _ := hushes_of_kept rfl rfl
  bump _ := hushes_of_kept rfl rfl
  unbuffer _ _ := hushes_of_kept rfl rfl

/-- A program of such steps, followed by one that puts nothing out. -/
theorem silent_bind {x : ConvM P α} {f : α → ConvM P β} {c : Conversation P}
    (hc : c.rotating = true) (hx : Along Hushes x) (hf : ∀ a, Frame pendingOutbound (f a)) :
    Silent c (after (x >>= f) c) := by
  have hpart := (hushes_of_path (hx c) hc).2
  exact hpart.trans (.of_outbound (after_bind_of_frame hf c))

/-- Between two states, one of them in a rotation, nothing but other traffic is put out. -/
def KeepsSilence (c d : Conversation P) : Prop :=
  c.rotating = true ∨ d.rotating = true → Silent c d

theorem keepsSilence_of_path {c d : Conversation P} (h : ReflTransGen Hushes c d)
    (hopens : c.rotating = false → d.rotating = true → Silent c d) : KeepsSilence c d := by
  intro hrotating
  cases hc : c.rotating with
  | true => exact (hushes_of_path h hc).2
  | false => exact hopens hc (hrotating.resolve_left (by rw [hc]; exact Bool.false_ne_true))

/-- A stage that does not enter a rotation. -/
theorem keepsSilence_of_kept {c d : Conversation P} (h : ReflTransGen Hushes c d)
    (hkept : c.rotating = false → d.rotating = false) : KeepsSilence c d :=
  keepsSilence_of_path h fun hc hd => absurd ((hkept hc).symm.trans hd) Bool.false_ne_true

theorem rotating_of_roundClock {c d : Conversation P} (h : d.roundClock = c.roundClock) :
    d.rotating = c.rotating :=
  rotating_of_state (congrArg Prod.fst h)

/-! ## A freeze that opens -/

theorem Hush.path {c d e : Conversation P} (h : Hush c d) (hpath : ReflTransGen Hushes d e) :
    Hush c e := by
  obtain ⟨hrotating, hsilent⟩ := hushes_of_path hpath h.1
  exact ⟨hrotating, h.2.trans hsilent⟩

theorem Hush.bind {x : ConvM P α} {f : α → ConvM P β} {c d : Conversation P}
    (h : Hush c (after x d)) (hf : ∀ a, Along Hushes (f a)) : Hush c (after (x >>= f) d) := by
  cases hx : x d with
  | ok a e =>
    rw [after_of_ok hx] at h
    rw [after_bind_ok f hx]
    exact h.path (hf a e)
  | error err e =>
    rw [after_of_error hx] at h
    rwa [after_bind_error f hx]

theorem startFreezing_run {c : Conversation P} (h : c.rotating = false) :
    ∃ event d, (startFreezing : ConvM P _) c = .ok (some event) d ∧ Hush c d := by
  refine ⟨.freezing, { c with
    state := .freezing
    timing := { c.timing with phaseTimer := some c.now } }, ?_, rfl, .of_outbound rfl⟩
  unfold startFreezing
  rw [bind_run _ (get_apply c), if_pos (rotating_eq_false_iff.mp h)]
  rfl

theorem hush_startFreezing {c : Conversation P} (h : c.rotating = false) :
    Hush c (after startFreezing c) := by
  obtain ⟨event, d, hrun, hopened⟩ := startFreezing_run h
  rwa [after_of_ok hrun]

/-! ## Outcomes -/

theorem rests_of_drift {c d : Conversation P} (h : ReflTransGen (Drift (· = .working)) c d)
    (hc : c.rotating = false) : d.rotating = false := by
  induction h with
  | refl => exact hc
  | tail _ hstep ih =>
    cases hstep with
    | still hflight => exact (rotating_of_state (congrArg Prod.snd hflight)).trans ih
    | enter _ hphase => exact rotating_eq_false_iff.mpr (.inl hphase)
    | propose request v =>
      have hclock := (plain_roundClock (P := P).timed.initiateProposal request v).along.frame
      exact (rotating_of_roundClock (hclock _)).trans ih
    | unschedule => exact ih

/-- A follow-up that opens no freeze. -/
theorem rests_followUp {o : ConsensusApplyResult} (hrecovery : o ≠ .recoveryModeOpened)
    (hurgent : ∀ target, o ≠ .urgentRemoval target) {c : Conversation P} (hc : c.rotating = false) :
    (after (followUp o) c).rotating = false := by
  have hdrift : Along (Drift (· = .working)) (followUp o : ConvM P Unit) := by
    cases o with
    | noAction => exact along_pure _
    | electionAccepted election =>
      refine drift_handleElectionAccepted ?_ election
      rfl
    | electionRejected => exact drift_advanceElectionRetry
    | recoveryModeOpened => exact absurd rfl hrecovery
    | urgentRemoval target => exact absurd rfl (hurgent target)
    | queuedRemoval target => exact drift_refreshStewardsAfterRemoval target
    | rejectedMembership target =>
      have hdropped : Frame flight (modifyQueues fun q => q.removePendingUpdate target :
          ConvM P Unit) := flight_modifyQueues fun _ => rfl
      exact drift_flight hdropped
  exact rests_of_drift (hdrift c) hc

/-- The other two open one. -/
theorem hush_followUp {o : ConsensusApplyResult}
    (ho : o = .recoveryModeOpened ∨ ∃ target, o = .urgentRemoval target) {c : Conversation P}
    (hc : c.rotating = false) : Hush c (after (followUp o) c) := by
  have hphased := packets_hushes (P := P).phased
  rcases ho with rfl | ⟨target, rfl⟩
  · let d : Conversation P := { c with operatingMode := .recovery, recoveryRounds := 0 }
    have hd : d.rotating = false := hc
    have hfreeze : Hush d (after startFreezingAndEmit d) :=
      (hush_startFreezing hd).bind fun o => hphased.emitPhaseChange o
    have hreported : Hush d (after (do
        startFreezingAndEmit
        emitEvent .recoveryModeOpened : ConvM P Unit) d) :=
      hfreeze.bind fun _ => hphased.emitEvent ConversationEvent.noConfusion
    exact hreported
  · refine (hush_startFreezing hc).bind fun o => ?_
    cases o with
    | none => exact hphased.refreshStewardsAfterRemoval target
    | some event =>
      exact along_bind (hphased.onFreezeEntered event) fun _ =>
        hphased.refreshStewardsAfterRemoval target

theorem rests_afterFollowUp (id : ProposalId) (ops : List ScoreOp) :
    Preserves (fun c : Conversation P => c.rotating = false) (do
      if ops ≠ [] then handleEmergencyScored id ops else pure ()
      onConsensus fun st =>
        ((P.consensus.removeSession st id).1, (P.consensus.removeSession st id).2, []) :
      ConvM P Unit) := by
  have hkept : ∀ {β : Type} {x : ConvM P β}, Frame roundClock x →
      Preserves (fun c : Conversation P => c.rotating = false) x :=
    fun hx c hc => (rotating_of_roundClock (hx c)).trans hc
  have hsession : ∀ _ : Unit, Preserves (fun c : Conversation P => c.rotating = false)
      (onConsensus fun st =>
        ((P.consensus.removeSession st id).1, (P.consensus.removeSession st id).2, []) :
        ConvM P Unit) := fun _ => hkept (plain_roundClock.onConsensus _).frame
  refine preserves_ite (preserves_bind ?_ hsession) (hsession ())
  unfold handleEmergencyScored
  refine preserves_bind (hkept (plain_roundClock.applyScoreOps ops).frame) fun _ => ?_
  refine preserves_bind (hkept (plain_roundClock.timed.modifyQueues fun _ => rfl).along.frame)
    fun _ => preserves_get_bind fun c hc => ?_
  split_ifs with hstate
  · exact rfl
  · exact hc

/-- **Outcomes.** -/
theorem keepsSilence_handleConsensusOutcome (event : ConsensusEvent) (c : Conversation P) :
    KeepsSilence c (after (handleConsensusOutcome event) c) := by
  refine keepsSilence_of_path (writes_hushes.handleConsensusOutcome event c) fun hc hd => ?_
  cases hresolved : c.resolved event.fields.1 with
  | none =>
    have hstate : (after (handleConsensusOutcome event) c).rotating = c.rotating := by
      rcases after_handleConsensusOutcome_unresolved hresolved with h | h
      · rw [h]
        rfl
      · rw [h]
        rfl
    exact absurd (hstate.trans hc) (by rw [hd]; exact Bool.noConfusion)
  | some request =>
    rw [after_handleConsensusOutcome_resolved hresolved] at hd ⊢
    generalize (c.applied event request).1 = o at hd ⊢
    generalize emergencyScoreOps request event.fields.2.1 = ops at hd ⊢
    let d : Conversation P := after replayEarlyCandidates (c.handed event request)
    have hreplayed : after (finishOutcome event.fields.1 o ops) (c.handed event request) =
        after (do
          followUp o
          if ops ≠ [] then handleEmergencyScored event.fields.1 ops else pure ()
          onConsensus fun st => ((P.consensus.removeSession st event.fields.1).1,
            (P.consensus.removeSession st event.fields.1).2, []) : ConvM P Unit) d :=
      after_seq _ (succeeds_modify _) _
    have hrest : d.rotating = false := hc
    rw [hreplayed] at hd ⊢
    by_cases ho : o = .recoveryModeOpened ∨ ∃ target, o = .urgentRemoval target
    · have hopened : Hush d (after (followUp o) d) := hush_followUp ho hrest
      exact (hopened.bind fun _ => writes_hushes.afterFollowUp _ ops).2
    · rw [not_or, not_exists] at ho
      have hrested : Preserves (fun c : Conversation P => c.rotating = false) (followUp o) :=
        fun e he => rests_followUp ho.1 ho.2 he
      have hstill := preserves_bind hrested (fun _ => rests_afterFollowUp event.fields.1 ops) d hrest
      cases hstill.symm.trans hd

/-! ## Packets -/

theorem KeepsSilence.congr_left {c c' d : Conversation P} (hstate : c'.state = c.state)
    (hout : c'.pendingOutbound = c.pendingOutbound) (h : KeepsSilence c d) : KeepsSilence c' d := by
  intro hrotating
  rw [rotating_of_state hstate] at hrotating
  exact (h hrotating).congr_left hout

/-- Neither the phase nor what is put out changes. -/
theorem keepsSilence_of_same {c d : Conversation P} (hstate : d.state = c.state)
    (hout : d.pendingOutbound = c.pendingOutbound) : KeepsSilence c d :=
  keepsSilence_of_kept (.single (hushes_of_kept hstate hout)) fun hc =>
    (rotating_of_state hstate).trans hc

theorem outbound_decodeInbound (payload : Bytes) :
    Frame pendingOutbound (decodeInbound payload : ConvM P _) := by
  unfold decodeInbound
  refine frame_bind (frame_get _) fun c => ?_
  split
  · exact frame_bind (frame_modify fun _ => rfl) fun _ => frame_pure _ _
  · refine frame_ite (frame_pure _ _) (frame_bind (frame_modify fun _ => rfl) fun _ => ?_)
    exact frame_ite (frame_pure _ _) (frame_pure _ _)
  · unfold decodeEncrypted
    refine frame_bind (frame_zoom fun _ _ => rfl) fun o => ?_
    cases o with
    | none => exact frame_pure _ _
    | some d =>
      exact frame_bind (frame_ofResult _ _) fun _ => frame_bind (frame_get _) fun _ => frame_pure _ _

/-- Only a candidate opens a freeze. -/
theorem state_dispatchInboundResult {result : ProcessResult}
    (hupdated : result ≠ .conversationUpdated)
    (hcandidate : ∀ sender, result ≠ .commitCandidateReceived sender) :
    Frame Conversation.state (dispatchInboundResult result : ConvM P _) := by
  have hkept : ∀ {β : Type} {x : ConvM P β}, Holds (Path fun c d => d.roundClock = c.roundClock) x →
      Frame Conversation.state x := fun hx c => congrArg Prod.fst (hx.frame c)
  have hdone : ∀ {x : ConvM P Unit} {o : DispatchOutcome}, Frame Conversation.state x →
      Frame Conversation.state (do
        x
        pure o : ConvM P DispatchOutcome) := fun hx => frame_bind hx fun _ => frame_pure _ _
  have hbuffer : Buffers (P := P) (Path fun c d => d.roundClock = c.roundClock) :=
    fun _ _ => .single rfl
  have hq := plain_roundClock (P := P).timed
  cases result with
  | appMessage message sender => exact hdone (hkept (hq.emitEvent ConversationEvent.noConfusion))
  | proposal proposal => exact hdone (hkept (hq.onIncomingProposal hbuffer proposal))
  | vote v => exact hdone (hkept (hq.forwardIncomingVote v))
  | membershipChangeReceived request =>
    exact hdone (hkept (hq.handleIncomingUpdateRequest hbuffer request))
  | conversationUpdated => exact absurd rfl hupdated
  | leaveConversation => exact hdone (hkept hq.prepareSelfLeave)
  | commitCandidateReceived sender => exact absurd rfl (hcandidate sender)
  | conversationSyncReceived sync =>
    exact hdone fun c => congrArg Prod.snd (flight_onConversationSync sync c)
  | conversationSyncRequested sender =>
    exact hdone fun c => congrArg Prod.snd (flight_onConversationSyncRequest c)
  | welcomeBroadcastReceived welcome =>
    exact hdone (hkept (hq.emitEvent ConversationEvent.noConfusion))
  | noop reason => exact frame_pure _ _

theorem keepsSilence_dispatchInboundResult {result : ProcessResult}
    (h : result ≠ .conversationUpdated) (c : Conversation P) :
    KeepsSilence c (after (dispatchInboundResult result) c) := by
  refine keepsSilence_of_path (packets_hushes.dispatchInboundResult h c) fun hc hd => ?_
  by_cases hcandidate : ∃ sender, result = .commitCandidateReceived sender
  · obtain ⟨sender, rfl⟩ := hcandidate
    have hopened : Hush c (after onCommitCandidateReceived c) := by
      have hphase : ¬ (c.state ≠ .working ∧ c.state ≠ .reelection) := by
        rcases rotating_eq_false_iff.mp hc with hstate | hstate <;> simp [hstate]
      unfold onCommitCandidateReceived
      rw [after_bind_ok _ (get_apply c), if_neg hphase]
      refine (hush_startFreezing hc).bind fun o => ?_
      cases o with
      | none => exact along_pure _
      | some event => exact packets_hushes.phased.onFreezeEntered event
    exact (hopened.bind fun _ => along_pure _).2
  · rw [not_exists] at hcandidate
    have hkept := rotating_of_state (state_dispatchInboundResult h hcandidate c)
    cases (hkept.trans hc).symm.trans hd

theorem keepsSilence_packet {f : ProcessResult → ConvM P α} (payload : Bytes)
    (hf : ∀ result d, result ≠ .conversationUpdated → KeepsSilence d (after (f result) d))
    (c : Conversation P) : KeepsSilence c (after (decodeInbound payload >>= f) c) := by
  have hstate := congrArg Prod.snd (flight_decodeInbound payload c)
  have hout := outbound_decodeInbound payload c
  cases hrun : decodeInbound payload c with
  | ok result d =>
    rw [after_of_ok hrun] at hstate hout
    rw [after_bind_ok f hrun]
    exact (hf result d (yields_decodeInbound payload c result d hrun)).congr_left hstate.symm hout.symm
  | error e d =>
    rw [after_of_error hrun] at hstate hout
    rw [after_bind_error f hrun]
    exact keepsSilence_of_same hstate hout

/-- **Packets.** -/
theorem keepsSilence_processInbound (sender payload : Bytes) (c : Conversation P) :
    KeepsSilence c (after (processInbound sender payload) c) := by
  unfold processInbound
  rw [after_bind_ok _ (get_apply c)]
  split_ifs
  · exact keepsSilence_of_same rfl rfl
  · exact keepsSilence_packet payload
      (fun result d h => keepsSilence_dispatchInboundResult h d) c

theorem keepsSilence_applyWelcomeSync (syncBytes : Bytes) (c : Conversation P) :
    KeepsSilence c (after (applyWelcomeSync syncBytes) c) := by
  unfold applyWelcomeSync
  split_ifs
  · exact keepsSilence_of_same rfl rfl
  · refine keepsSilence_packet syncBytes (fun result d h => ?_) c
    have hdropped : after (do
        let _ ← dispatchInboundResult result
        pure () : ConvM P Unit) d = after (dispatchInboundResult result) d :=
      after_bind_of_frame (p := id) (fun _ => frame_pure _ _) d
    rw [hdropped]
    exact keepsSilence_dispatchInboundResult h d

/-! ## Calls and drivers -/

/-- **Calls.** -/
theorem keepsSilence_call {e : EntryPoint} (h : e.isCall = true) (c : Conversation P) :
    KeepsSilence c (e.leaves c) := by
  refine keepsSilence_of_kept (packets_hushes.call packets_hushes.buffers h c) fun hc => ?_
  have hclock : ReflTransGen (fun c d => d.roundClock = c.roundClock) c (e.leaves c) :=
    plain_roundClock.call (fun _ _ => .single rfl) h c
  exact (rotating_of_roundClock (path_keeps hclock)).trans hc

theorem checkStewardInactivity_cases (approved window : Nat) (c : Conversation P) :
    (∃ d, (checkStewardInactivity approved window : ConvM P _) c = .ok none d ∧
      d.rotating = c.rotating) ∨
    (checkStewardInactivity approved window : ConvM P _) c = startFreezing c := by
  unfold checkStewardInactivity
  rw [bind_run _ (get_apply c)]
  split_ifs with hidle hunarmed hover
  · exact .inl ⟨c, rfl, rfl⟩
  · exact .inl ⟨_, rfl, rfl⟩
  · exact .inr rfl
  · exact .inl ⟨c, rfl, rfl⟩

theorem keepsSilence_startFreezeOnInactivity (c : Conversation P) :
    KeepsSilence c (after startFreezeOnInactivity c) := by
  refine keepsSilence_of_path (packets_hushes.phased.startFreezeOnInactivity c) fun hc hd => ?_
  unfold startFreezeOnInactivity at hd ⊢
  rw [after_bind_ok _ (get_apply c)] at hd ⊢
  split_ifs at hd ⊢ with helection
  · cases hc.symm.trans hd
  dsimp only at hd ⊢
  generalize (if (c.isInRecoveryMode || decide (0 < c.stewardList.nextElectionRound) ||
    c.timing.reelectionRecovered) = true then c.config.retryWindow
      else c.config.commitBatchWindow) = window at hd ⊢
  rcases checkStewardInactivity_cases c.queues.approvedProposalsCount window c with
    ⟨d, hrun, hkept⟩ | hrun
  · rw [after_bind_ok _ hrun] at hd
    cases (hkept.trans hc).symm.trans hd
  · obtain ⟨event, d, hopen, hd⟩ := startFreezing_run hc
    rw [after_bind_ok _ (hrun.trans hopen)]
    exact (hd.path (packets_hushes.phased.onFreezeEntered event d)).2

/-- A driver that leaves the phase alone. -/
theorem keepsSilence_driver {x : ConvM P Unit} (hx : Along Hushes x) (hclock : Frame roundClock x)
    (c : Conversation P) : KeepsSilence c (after x c) :=
  keepsSilence_of_kept (hx c) fun hc => (rotating_of_roundClock (hclock c)).trans hc

theorem keepsSilence_driveBufferedProposals (c : Conversation P) :
    KeepsSilence c (after driveBufferedProposals c) :=
  keepsSilence_driver writes_hushes.timed.driveBufferedProposals
    plain_roundClock.timed.driveBufferedProposals.frame c

theorem keepsSilence_driveSyncResend (c : Conversation P) :
    KeepsSilence c (after driveSyncResend c) :=
  keepsSilence_driver writes_hushes.driveSyncResend plain_roundClock.driveSyncResend.frame c

theorem keepsSilence_driveSyncRequest (c : Conversation P) :
    KeepsSilence c (after driveSyncRequest c) :=
  keepsSilence_driver writes_hushes.timed.driveSyncRequest
    plain_roundClock.timed.driveSyncRequest.frame c

theorem keepsSilence_driveReelectionRetry (c : Conversation P) :
    KeepsSilence c (after driveReelectionRetry c) :=
  keepsSilence_driver writes_hushes.driveReelectionRetry
    plain_roundClock.driveReelectionRetry.frame c

/-! ## The round -/

/-- Where the round of a poll leaves its rotation: when the commit it merged is handed over, when the
re-election over an unanswered batch starts, or at its end. -/
def turned (c : Conversation P) : Conversation P :=
  match c.pollRound with
  | none => after advanceFreezing c
  | some (_, r, t) =>
    let d := after (reward c.isInRecoveryMode r) (roundPart.set t c.freezingState.selecting)
    match r.outcome with
    | .applied .conversationUpdated welcome => after (handOver welcome) d
    | .noCandidate =>
      if !c.isInRecoveryMode && decide (0 < c.freezingState.queues.approvedProposalsCount) then
        after startReelection d
      else after advanceFreezing c
    | .applied _ _ => after advanceFreezing c

/-- What follows the start of a re-election: the absent steward is blamed, and the election proposed. -/
def reelect : ConvM P DispatchOutcome := do
  let c ← get
  (match c.absentSteward with
    | some stewardId => applyScoreOps [⟨stewardId, .censorshipInactivity⟩]
    | none => pure ())
  emitEvent (.phaseChange .reelection)
  let _ ← (attempt (initiateStewardElection true) : ConvM P _)
  pure .done

theorem finishRound_reelects {result : CommitRoundResult P.mls} (h : result.outcome = .noCandidate)
    (c : Conversation P) : after (finishRound false true result) c =
      after reelect (after startReelection (after (reward false result) c)) := by
  obtain ⟨outcome, ops, batch, merged⟩ := result
  dsimp only at h
  subst h
  have hreported : Succeeds (if batch = [] then pure () else emitEvent (.commitApplied batch) :
      ConvM P Unit) := succeeds_ite (succeeds_pure _) (succeeds_modify _)
  unfold finishRound reward
  dsimp only
  rw [after_seq _ (applyRoundScores_succeeds ops), after_seq _ hreported,
    after_seq _ (applyRoundScores_succeeds ops), after_seq _ hreported]
  rfl

theorem outbound_retryOrExhaustRecovery :
    Frame pendingOutbound (retryOrExhaustRecovery : ConvM P _) := by
  have hreopen : Frame pendingOutbound (reopenRecoveryWindow : ConvM P _) :=
    frame_bind (frame_get _) fun _ => frame_ite
      (frame_bind (frame_modify fun _ => rfl) fun _ => frame_pure _ _) (frame_pure _ _)
  have hemit : ∀ event, Frame pendingOutbound (emitEvent event : ConvM P Unit) := fun _ =>
    frame_modify fun _ => rfl
  unfold retryOrExhaustRecovery
  refine frame_bind (frame_modify fun _ => rfl) fun _ => frame_bind (frame_get _) fun c => ?_
  refine frame_ite ?_ (frame_bind hreopen fun reopened => frame_bind ?_ fun _ => frame_pure _ _)
  · refine frame_bind (frame_modify fun _ => rfl) fun _ => ?_
    refine frame_bind (frame_bind (frame_modify fun _ => rfl) fun _ => frame_pure _ _) fun _ => ?_
    exact frame_bind (hemit _) fun _ => frame_bind (hemit _) fun _ => frame_pure _ _
  · cases reopened with
    | none => exact frame_pure _ _
    | some event => exact hemit _

/-- Back to work with nothing put out. -/
theorem outbound_resume : Frame pendingOutbound (do
    let event ← startWorking
    emitEvent (.phaseChange event)
    pure .done : ConvM P DispatchOutcome) :=
  frame_bind (frame_bind (frame_modify fun _ => rfl) fun _ => frame_pure _ _) fun _ =>
    frame_bind (frame_modify fun _ => rfl) fun _ => frame_pure _ _

theorem outbound_recoverFromFinalizeError :
    Frame pendingOutbound (recoverFromFinalizeError : ConvM P _) :=
  frame_bind (frame_get _) fun _ => frame_ite outbound_retryOrExhaustRecovery outbound_resume

theorem outbound_finishRecoveryRound (hasProposals : Bool) :
    Frame pendingOutbound (finishRecoveryRound hasProposals : ConvM P _) :=
  frame_ite (frame_bind (frame_modify fun _ => rfl) fun _ =>
    frame_bind (frame_modify fun _ => rfl) fun _ => outbound_resume) outbound_retryOrExhaustRecovery

theorem outbound_finishNoCandidate : Frame pendingOutbound (finishNoCandidate false : ConvM P _) :=
  frame_bind (frame_modify fun _ => rfl) fun _ => outbound_resume

/-- An unanswered round that starts no re-election puts nothing out after its scores. -/
theorem silent_finishRound {inRecovery hasProposals : Bool} {result : CommitRoundResult P.mls}
    (h : result.outcome = .noCandidate) (hnone : (!inRecovery && hasProposals) = false)
    {c : Conversation P} (hc : c.rotating = true) :
    Silent c (after (finishRound inRecovery hasProposals result) c) := by
  unfold finishRound
  refine silent_bind hc (writes_hushes.applyRoundScores _) fun _ => ?_
  refine frame_bind (frame_ite (frame_pure _ _) (frame_modify fun _ => rfl)) fun _ => ?_
  rw [h]
  cases inRecovery with
  | true => exact outbound_finishRecoveryRound _
  | false =>
    cases hasProposals with
    | true => cases hnone
    | false => exact outbound_finishNoCandidate

/-- A poll that finalizes no round is silent while it rotates. -/
theorem silent_unfinalized {c : Conversation P} (hc : c.rotating = true) (h : c.pollRound = none) :
    Silent c (after advanceFreezing c) := by
  obtain ⟨hrotating, hminted⟩ := hushes_of_path (packets_hushes.freezingState c) hc
  by_cases hround : c.state = .freezing ∧ c.freezingState.roundOver = true
  · obtain ⟨e, t, -, hafter⟩ := after_unfinalized h hround.1 hround.2
    have hfailed : Frame pendingOutbound (do
        emitEvent (.error "commit_round_finalize" e)
        recoverFromFinalizeError : ConvM P DispatchOutcome) :=
      frame_bind (frame_modify fun _ => rfl) fun _ => outbound_recoverFromFinalizeError
    rw [hafter]
    exact hminted.trans (.of_outbound (hfailed (roundPart.set t c.freezingState.selecting)))
  rw [after_advanceFreezing]
  by_cases hstate : c.state = .freezing
  · rw [if_neg (not_not.mpr hstate), if_neg fun hover => hround ⟨hstate, hover⟩]
    exact hminted.trans (hushes_of_path (packets_hushes.phased.reportProgress _) hrotating).2
  · rw [if_pos hstate]
    exact .of_outbound rfl

/-- The round puts other traffic out only, up to where it leaves the rotation. -/
theorem silent_turned {c : Conversation P} (hc : c.rotating = true) : Silent c c.turned := by
  cases hround : c.pollRound with
  | none =>
    unfold turned
    rw [hround]
    exact silent_unfinalized hc hround
  | some x =>
    obtain ⟨s, r, t⟩ := x
    obtain ⟨-, rfl, hfin⟩ := finalized_of_pollRound hround
    have hafter := after_round hround
    unfold turned
    rw [hround]
    dsimp only
    rw [hafter]
    have hminted : Silent c c.freezingState :=
      (hushes_of_path (packets_hushes.freezingState c) hc).2
    generalize decide (0 < c.freezingState.queues.approvedProposalsCount) = hasProposals
    generalize c.isInRecoveryMode = inRecovery
    generalize hd : roundPart.set t c.freezingState.selecting = d
    have hselected : Hush c d := by
      rw [← hd]
      exact ⟨rfl, hminted.trans (.of_outbound rfl)⟩
    have hrewarded := hselected.path (writes_hushes.reward inRecovery r d)
    rcases finalizeCommitRound_outcome hfin with hout | ⟨verdict, welcome, hout⟩
    · rw [hout]
      dsimp only
      split_ifs with hreelects
      · exact hrewarded.2.trans (.of_outbound rfl)
      · exact hselected.2.trans (silent_finishRound hout (Bool.eq_false_iff.mpr hreelects) hselected.1)
    · cases verdict with
      | true =>
        rw [hout]
        exact (hselected.path (writes_hushes.left hout d)).2
      | false =>
        rw [hout]
        refine hrewarded.2.trans (silent_bind hrewarded.1 ?_ fun _ => ?_)
        · cases welcome with
          | none => exact along_pure _
          | some welcome => exact writes_hushes.deliverWelcome welcome
        · refine frame_bind (frame_modify fun _ => rfl) fun _ => frame_bind ?_ fun _ => ?_
          · exact frame_bind (frame_modify fun _ => rfl) fun _ => frame_pure _ _
          · exact frame_modify fun _ => rfl

theorem keepsSilence_turned (c : Conversation P) : KeepsSilence c c.turned := by
  cases hc : c.rotating with
  | true => exact fun _ => silent_turned hc
  | false =>
    have hstate : c.state ≠ .freezing := by
      rcases rotating_eq_false_iff.mp hc with hstate | hstate <;> simp [hstate]
    have hround : c.pollRound = none := if_neg fun hover => hstate hover.1
    have hsame : c.turned = { c with timing := { c.timing with lastCommitRoundProgress := none } } := by
      unfold turned
      rw [hround]
      exact (after_advanceFreezing c).trans (if_pos hstate)
    rw [hsame]
    exact keepsSilence_of_same rfl rfl

/-- Handed over, a commit leaves the node at work. -/
theorem rotating_handOver (welcome : Option MemberWelcome) (c : Conversation P) :
    (after (handOver welcome) c).rotating = false := by
  cases welcome with
  | none => rfl
  | some welcome =>
    unfold handOver
    rw [after_seq _ (succeeds_deliverWelcome welcome)]
    rfl

/-- What is left of the round once it left the rotation. -/
theorem keepsSilence_finished (c : Conversation P) :
    KeepsSilence c.turned (after advanceFreezing c) := by
  have hrests : ∀ {α : Type} {x : ConvM P α} {d : Conversation P}, d.rotating = false →
      Frame roundClock x → KeepsSilence d (after x d) := by
    intro α x d hd hx hrotating
    rw [rotating_of_roundClock (hx d), hd] at hrotating
    simp at hrotating
  cases hround : c.pollRound with
  | none =>
    unfold turned
    rw [hround]
    exact fun _ => .refl _
  | some x =>
    obtain ⟨s, r, t⟩ := x
    obtain ⟨-, rfl, hfin⟩ := finalized_of_pollRound hround
    have hafter := after_round hround
    unfold turned
    rw [hround]
    dsimp only
    rw [hafter]
    generalize decide (0 < c.freezingState.queues.approvedProposalsCount) = hasProposals
    generalize c.isInRecoveryMode = inRecovery
    generalize roundPart.set t c.freezingState.selecting = d
    rcases finalizeCommitRound_outcome hfin with hout | ⟨verdict, welcome, hout⟩
    · rw [hout]
      dsimp only
      split_ifs with hreelects
      · obtain ⟨rfl, rfl⟩ : inRecovery = false ∧ hasProposals = true := by simpa using hreelects
        rw [finishRound_reelects hout]
        refine hrests rfl ?_
        have hq := plain_roundClock (P := P)
        unfold reelect
        refine frame_bind (frame_get _) fun c => frame_bind ?_ fun _ => ?_
        · cases c.absentSteward with
          | none => exact frame_pure _ _
          | some id => exact (hq.applyScoreOps _).frame
        · refine frame_bind (frame_modify fun _ => rfl) fun _ => ?_
          refine frame_bind (frame_attempt ?_) fun _ => frame_pure _ _
          exact (hq.timed.initiateStewardElection true).frame
      · exact fun _ => .refl _
    · cases verdict with
      | true =>
        rw [hout]
        exact fun _ => .refl _
      | false =>
        rw [hout]
        dsimp only [leaveOrUpdate]
        rw [finishRound_after hout]
        refine hrests ?_ ?_
        · exact rotating_handOver welcome _
        · exact (along_bind (plain_roundClock.reconcileMembershipAfterCommit fun _ _ _ => rfl)
            fun _ => plain_roundClock.housekeep).frame

end Conversation

end DeMls
