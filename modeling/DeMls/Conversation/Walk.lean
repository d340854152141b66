import DeMls.Conversation.AfterCommit
import DeMls.Conversation.Judged

/-!
# What the code writes

The programs of a conversation are made of a few writes. Where those to the queues, the group, the
scores, the sessions, the buffers, the timers and the list are steps of `r` (`Quiet r`), a steward's
duties are paths of `r`; where those to the phase (`Steady r`), the configuration and the buffered
updates (`Receives r`) are too, so is every entry point but a poll and the integrator's own recovery
mode. A poll opens and closes the recovery (`Settles r`, `Recovers r`) and counts failed election
attempts as well (`Plain r`, `Writes r`), and it runs the round, with its way back to work (`Ends r`),
its phases (`Phases r`) and the rounds of a recovery (`Rounds r`).
-/

namespace DeMls

open Program Relation

variable {P : Platform} {α : Type}

namespace Conversation

/-- What a packet decodes to: a merged commit is reported by the round only. -/
theorem yields_decodeInbound (payload : Bytes) :
    Yields (· ≠ .conversationUpdated) (decodeInbound payload : ConvM P _) := by
  have hclassified : ∀ (mls : MlsService P.mls) message member,
      classifyAppMessage mls message member ≠ .conversationUpdated := by
    intro mls message member
    unfold classifyAppMessage ProcessResult.ofAppMessage
    repeat' split
    all_goals exact ProcessResult.noConfusion
  have hreceived : ∀ (c : Conversation P) candidate,
      (receiveCommitCandidate P c.queues c.mls candidate).1 ≠ .conversationUpdated := by
    intro c candidate
    unfold receiveCommitCandidate CommitBufferOutcome.intoProcessResult
    dsimp only
    repeat' split
    all_goals exact ProcessResult.noConfusion
  unfold decodeInbound
  refine yields_bind fun c => ?_
  split
  · exact yields_bind fun _ => yields_pure (hreceived c _)
  · refine yields_ite (yields_pure ProcessResult.noConfusion) (yields_bind fun _ => ?_)
    exact yields_ite (yields_pure ProcessResult.noConfusion)
      (yields_pure ProcessResult.noConfusion)
  · unfold decodeEncrypted
    refine yields_bind fun o => ?_
    cases o with
    | none => exact yields_pure ProcessResult.noConfusion
    | some d =>
      exact yields_bind fun message => yields_bind fun c => yields_pure (hclassified _ _ _)

/-- What is put out: all of it is taken, or one packet is added, which is neither a proposal nor a
vote while an epoch rotation is under way. -/
def Utters (c : Conversation P) (l : List Outbound) : Prop :=
  l = [] ∨ ∃ payload, l = c.pendingOutbound ++ [⟨c.conversationId, c.appId, payload⟩] ∧
    (c.rotating = true → OtherTraffic P payload)

/-- Anything may be put out in any phase. -/
def Speaks (r : Conversation P → Conversation P → Prop) : Prop :=
  ∀ c l, r c { c with pendingOutbound := l }

/-- The calls that send, propose, vote or commit; a leave is one of its own. -/
def EntryPoint.isCall : EntryPoint → Bool
  | .sendMessage _ | .requestConversationSync | .shareConversationSync => true
  | .addMember _ | .sponsorMember _ | .removeMember _ => true
  | .initiateProposal _ _ | .vote _ _ | .requestRecovery | .proposeScoreRemoval _ => true
  | .commitInRecovery | .resendCommit => true
  | _ => false

/-- The writes of a proposal and of a candidate are steps of `r`. -/
structure Posts (r : Conversation P → Conversation P → Prop) : Prop where
  /-- The queues, but for the buffered updates. -/
  queues : ∀ c q, q.pendingUpdates = c.queues.pendingUpdates → r c { c with queues := q }
  /-- The secrets of the group. -/
  mls : ∀ c m, m.publicPart = c.mls.publicPart → r c { c with mls := m }
  answered : ∀ c st outs, r c (c.answered st outs)
  /-- An event; the end of a recovery is reported by the round only. -/
  event : ∀ c event, event ≠ .recoveryExhausted →
    r c { c with pendingEvents := c.pendingEvents ++ [event] }
  outbound : ∀ c l, Utters c l → r c { c with pendingOutbound := l }
  deadlines : ∀ c votes timeouts, r c { c with timing := { c.timing with
    pendingAutoVotes := votes, pendingConsensusTimeouts := timeouts } }

/-- Every write that leaves the phase, the mode, the configuration and the retry round alone is a
step of `r`. -/
structure Quiet (r : Conversation P → Conversation P → Prop) : Prop extends Posts r where
  scoring : ∀ c s, r c { c with scoring := s }
  /-- A timer or an anchor other than the phase's. -/
  timers : ∀ c t, t.phaseTimer = c.timing.phaseTimer → r c { c with timing := t }
  /-- A list is installed or configured. -/
  list : ∀ c l, l.nextElectionRound = c.stewardList.nextElectionRound → r c { c with stewardList := l }

/-- So is a failed election attempt. -/
structure Plain (r : Conversation P → Conversation P → Prop) : Prop extends Quiet r where
  bump : ∀ c, r c { c with stewardList := c.stewardList.bumpRetry }

/-- So are those to the phase, outside the round. -/
structure Steady (r : Conversation P → Conversation P → Prop) : Prop extends Quiet r where
  outcomes : ∀ c l, r c { c with outcomes := l }
  /-- The inactivity timer is started. -/
  arm : ∀ c, c.state = .working → c.timing.phaseTimer = none →
    r c { c with timing := { c.timing with phaseTimer := some c.now } }
  /-- Outside the round the way back to work starts in a re-election. -/
  working : ∀ c, c.state = .reelection → r c { c with
    state := .working
    timing := { c.timing with phaseTimer := none } }
  freezing : ∀ c, c.state = .working ∨ c.state = .reelection → r c { c with
    state := .freezing
    timing := { c.timing with phaseTimer := some c.now } }

/-- So are those of a packet. -/
structure Packets (r : Conversation P → Conversation P → Prop) : Prop extends Steady r where
  /-- A sync configures everything but the stop line of a recovery. -/
  config : ∀ c config, config.recoveryMaxRounds = c.config.recoveryMaxRounds →
    r c { c with config := config }
  /-- An update is buffered. -/
  buffer : ∀ c request, r c { c with
    queues := c.queues.insertPendingUpdate P.mls request c.epoch }

/-- So are those of the integrator's calls. -/
structure Receives (r : Conversation P → Conversation P → Prop) : Prop extends Packets r where
  drained : ∀ c, r c { c with pendingEvents := [] }
  /-- A leave is sent in any phase. -/
  spoken : Speaks r

/-- So is the way back to the normal mode. -/
structure Settles (r : Conversation P → Conversation P → Prop) : Prop extends Steady r where
  exit : ∀ c, r c { c with operatingMode := .normal }

/-- So is the way into recovery. -/
structure Recovers (r : Conversation P → Conversation P → Prop) : Prop extends Settles r where
  enter : ∀ c, r c { c with operatingMode := .recovery, recoveryRounds := 0 }

/-- So is the way back to work at the end of a round. -/
structure Ends (r : Conversation P → Conversation P → Prop) : Prop extends Settles r where
  back : ∀ c, r c { c with state := .working, timing := { c.timing with phaseTimer := none } }

/-- So are the phases of a round. -/
structure Phases (r : Conversation P → Conversation P → Prop) : Prop extends Ends r where
  selection : ∀ c, r c { c with state := .selection }
  reelection : ∀ c, r c { c with
    state := .reelection
    timing := { c.timing with phaseTimer := none } }

/-- So are the rounds of a recovery, and its end. -/
structure Rounds (r : Conversation P → Conversation P → Prop) : Prop extends Recovers r, Phases r where
  counted : ∀ c, r c { c with recoveryRounds := c.recoveryRounds + 1 }
  reopened : ∀ c, r c { c with
    state := .freezing
    timing := { c.timing with phaseTimer := some c.now } }
  exhausted : ∀ c, r c { c with pendingEvents := c.pendingEvents ++ [.recoveryExhausted] }

/-- So are a failed election attempt and a buffered update that is dropped. -/
structure Writes (r : Conversation P → Conversation P → Prop) : Prop extends Recovers r, Plain r where
  unbuffer : ∀ c target, r c { c with queues := c.queues.removePendingUpdate target }

variable {r r' : Conversation P → Conversation P → Prop}

/-! ## Weaker relations -/

theorem Posts.mono (h : ∀ c d, r c d → r' c d) (hr : Posts r) : Posts r' where
  queues c q hq := h _ _ (hr.queues c q hq)
  mls c m hm := h _ _ (hr.mls c m hm)
  answered c st outs := h _ _ (hr.answered c st outs)
  event c event he := h _ _ (hr.event c event he)
  outbound c l hl := h _ _ (hr.outbound c l hl)
  deadlines c votes timeouts := h _ _ (hr.deadlines c votes timeouts)

theorem Steady.mono (h : ∀ c d, r c d → r' c d) (hr : Steady r) : Steady r' where
  toPosts := hr.toPosts.mono h
  scoring c s := h _ _ (hr.scoring c s)
  timers c t ht := h _ _ (hr.timers c t ht)
  list c l hl := h _ _ (hr.list c l hl)
  outcomes c l := h _ _ (hr.outcomes c l)
  arm c hstate hidle := h _ _ (hr.arm c hstate hidle)
  working c hstate := h _ _ (hr.working c hstate)
  freezing c hphase := h _ _ (hr.freezing c hphase)

theorem Packets.mono (h : ∀ c d, r c d → r' c d) (hr : Packets r) : Packets r' where
  toSteady := hr.toSteady.mono h
  config c config hc := h _ _ (hr.config c config hc)
  buffer c request := h _ _ (hr.buffer c request)

theorem Receives.mono (h : ∀ c d, r c d → r' c d) (hr : Receives r) : Receives r' where
  toPackets := hr.toPackets.mono h
  drained c := h _ _ (hr.drained c)
  spoken c l := h _ _ (hr.spoken c l)

theorem Rounds.mono (h : ∀ c d, r c d → r' c d) (hr : Rounds r) : Rounds r' where
  toSteady := hr.toSteady.mono h
  exit c := h _ _ (hr.exit c)
  back c := h _ _ (hr.back c)
  enter c := h _ _ (hr.enter c)
  counted c := h _ _ (hr.counted c)
  selection c := h _ _ (hr.selection c)
  reelection c := h _ _ (hr.reelection c)
  reopened c := h _ _ (hr.reopened c)
  exhausted c := h _ _ (hr.exhausted c)

namespace Posts

variable (hr : Posts r)

include hr

/-! ## Parts of the state -/

theorem onMls {x : EStateM MlsError (MlsService P.mls) α} (h : Frame MlsService.publicPart x) :
    Along r (onMls x : ConvM P α) := by
  refine along_step fun c => ?_
  have hx := h (mlsPart.get c)
  unfold after at hx
  unfold after Conversation.onMls zoom
  cases hrun : x (mlsPart.get c) <;>
    · rw [hrun] at hx
      exact hr.mls c _ hx

theorem onConsensus
    (f : P.consensus.State → Except ConsensusError α × P.consensus.State × List ConsensusEvent) :
    Along r (onConsensus f : ConvM P α) := by
  refine along_step fun c => ?_
  rcases hf : f c.consensus with ⟨_ | _, st, outs⟩
  · rw [after_of_error (onConsensus_error hf)]
    exact hr.answered c st outs
  · rw [after_of_ok (onConsensus_ok hf)]
    exact hr.answered c st outs

theorem built (message : AppMessage) :
    Along r (Conversation.onMls (MlsService.buildMessage (P.codec.encodeApp message)) : ConvM P Bytes) :=
  hr.onMls (MlsService.frame_buildMessage _)

theorem broadcast {payload : Bytes} (h : OtherTraffic P payload) :
    Along r (broadcast payload : ConvM P Unit) :=
  along_step fun c => hr.outbound c _ (.inr ⟨payload, rfl, fun _ => h⟩)

/-- What is built of a message is put out in the phase the building started in. -/
theorem sendApp {message : AppMessage} {c : Conversation P}
    (h : message.isBallot = true → c.rotating = false) :
    ReflTransGen r c (after (sendApp message) c) := by
  refine (compositional_path r Hides).bind (hr.built message c) fun payload d hbuild => ?_
  refine .single (hr.outbound d _ (.inr ⟨payload, rfl, fun hrotating => ?_⟩))
  cases hballot : message.isBallot with
  | true =>
    rw [rotating_of_built hbuild, h hballot] at hrotating
    cases hrotating
  | false => exact otherTraffic_of_built hballot hbuild

/-- In any phase, where anything may be put out. -/
theorem speak (hspeaks : Speaks r) (message : AppMessage) :
    Along r (Conversation.sendApp message : ConvM P Unit) :=
  along_bind (hr.built message) fun _ => along_step fun c => hspeaks c _

theorem posted : Posted (Path r) where
  toCompositional := compositional_path r Hides
  queues _ h := along_step fun c => hr.queues c _ (h c)
  consensus f := hr.onConsensus f
  emitEvent h := along_step fun c => hr.event c _ h
  broadcast h := hr.broadcast h
  sendApp _ _ h := hr.sendApp h
  autoVote _ _ _ := along_step fun c => hr.deadlines c _ _
  consensusTimeout _ _ := along_step fun c => hr.deadlines c _ _
  mint _ := hr.onMls (MlsService.frame_createCommitCandidate _)
  decrypt _ := hr.onMls (MlsService.frame_decryptApplicationOnly _)

end Posts

namespace Quiet

variable (hr : Quiet r)

include hr

/-! ## Scores and timers -/

theorem onScoring (x : PeerScoringService.ScoringM P.scores α) :
    Along r (onScoring x : ConvM P α) := by
  refine along_step fun c => ?_
  unfold after Conversation.onScoring zoom
  cases x (scoringPart.get c) <;> exact hr.scoring c _

theorem timed : Timed (Path r) where
  toPosted := hr.posted
  timers _ h := along_step fun c => hr.timers c _ (h c)
  list _ h := .single (hr.list _ _ h)
  delete := hr.onMls MlsService.frame_delete

theorem proposeScoreRemoval (target : Bytes) :
    Along r (proposeScoreRemoval target : ConvM P Unit) := by
  unfold Conversation.proposeScoreRemoval
  refine along_bind along_get fun c => along_bind (hr.onScoring _) fun o => ?_
  cases o with
  | none => exact along_throw _
  | some score => exact along_bind (along_ofResult _) fun _ => hr.timed.initiateProposal _ _

/-! ## The list, the scores and the syncs -/

theorem applyScoreOps (ops : List ScoreOp) : Along r (applyScoreOps ops : ConvM P Unit) :=
  along_bind (hr.onScoring _) fun _ => hr.timed.emitScoreChanges _

theorem scored (ids : List Bytes) : Along r (addScored ids : ConvM P Unit) ∧
    Along r (removeScored ids : ConvM P Unit) := by
  induction ids with
  | nil => exact ⟨along_pure _, along_pure _⟩
  | cons id rest ih =>
    exact ⟨along_bind (hr.onScoring _) fun _ => ih.1, along_bind (hr.onScoring _) fun _ => ih.2⟩

theorem applyRoundScores (ops : List ScoreOp) : Along r (applyRoundScores ops : ConvM P Unit) := by
  unfold Conversation.applyRoundScores
  refine along_ite (along_pure _) (along_bind (along_attempt (hr.applyScoreOps _)) fun o => ?_)
  cases o with
  | ok _ => exact along_pure _
  | error e => exact hr.timed.emitEvent ConversationEvent.noConfusion

theorem reconcileMembershipAfterCommit (hexpire : ∀ (c : Conversation P) epoch maxAge,
      r c { c with queues := c.queues.expirePendingUpdates epoch maxAge }) :
    Along r (reconcileMembershipAfterCommit : ConvM P Unit) := by
  unfold Conversation.reconcileMembershipAfterCommit
  refine along_bind along_get fun c => along_bind (hr.timed.modifyQueues fun _ => rfl) fun _ => ?_
  refine along_bind (hr.scored _).2 fun _ => along_bind (hr.scored _).1 fun _ => ?_
  refine along_bind (along_step fun c => hexpire c _ _) fun _ => ?_
  exact along_ite (hr.timed.emitEvent ConversationEvent.noConfusion) (along_pure _)

theorem buildConversationSyncPayload : Along r (buildConversationSyncPayload : ConvM P _) := by
  unfold Conversation.buildConversationSyncPayload
  refine along_bind (hr.onScoring _) fun _ => along_bind along_get fun c => ?_
  split
  · exact along_pure _
  · exact along_bind (hr.built _) fun _ => along_pure _

theorem shareConversationSync : Along r (shareConversationSync : ConvM P Unit) := by
  unfold Conversation.shareConversationSync
  refine along_bind_ok hr.buildConversationSyncPayload fun c o d hbuild => ?_
  cases o with
  | none => exact along_pure _
  | some payload => exact hr.broadcast (otherTraffic_of_sync hbuild)

theorem deliverWelcome (welcome : MemberWelcome) :
    Along r (deliverWelcome welcome : ConvM P Unit) := by
  have hwelcome : ∀ {welcome : MemberWelcome} (_ : Unit), Along r (Conversation.broadcast
      (P.codec.encodeApp ⟨some (.memberWelcome welcome)⟩) : ConvM P Unit) :=
    fun _ => hr.broadcast ⟨_, rfl, .inl rfl⟩
  unfold Conversation.deliverWelcome
  refine along_bind (along_attempt hr.timed.reconcileStewardList) fun reconciled => ?_
  refine along_bind ?_ fun sync => ?_
  · cases reconciled with
    | ok _ => exact along_attempt hr.buildConversationSyncPayload
    | error e => exact along_pure _
  · cases sync with
    | ok bytes => exact along_bind (hr.timed.emitEvent ConversationEvent.noConfusion) hwelcome
    | error e =>
      exact along_bind (hr.timed.emitEvent ConversationEvent.noConfusion) fun _ =>
        along_bind (hr.timed.emitEvent ConversationEvent.noConfusion) hwelcome

theorem onConversationSyncRequest : Along r (onConversationSyncRequest : ConvM P Unit) := by
  unfold Conversation.onConversationSyncRequest
  refine along_bind along_get fun c => along_ite ?_ (along_ite ?_ (along_pure _))
  · exact along_bind (hr.timed.modifyTiming fun _ => rfl) fun _ => hr.shareConversationSync
  · exact hr.timed.modifyTiming fun _ => rfl

theorem driveSyncResend : Along r (driveSyncResend : ConvM P Unit) := by
  have hdisarm : Along r (Conversation.modifyTiming fun t => { t with
      syncResendAnchor := none } : ConvM P Unit) := hr.timed.modifyTiming fun _ => rfl
  unfold Conversation.driveSyncResend
  refine along_bind along_get fun c => ?_
  split
  · exact along_pure _
  · refine along_ite hdisarm (along_ite (along_pure _) (along_bind hdisarm fun _ => ?_))
    exact hr.shareConversationSync

/-- What is left once the membership is reconciled. -/
theorem housekeep : Along r (housekeep : ConvM P Unit) :=
  along_bind hr.timed.stewardListHousekeeping fun _ =>
    along_bind hr.timed.processBufferedUpdates fun _ => hr.timed.maybeCloseRecoveryWindow

/-- A call that sends, proposes, votes or commits. -/
theorem call (hbuffer : Buffers (Path r)) {e : EntryPoint} (h : e.isCall = true)
    (c : Conversation P) : ReflTransGen r c (e.leaves c) := by
  cases e with
  | sendMessage message =>
    exact along_bind along_get (fun _ => along_ite (along_throw _) (hr.timed.say rfl)) c
  | requestConversationSync => exact hr.timed.say rfl c
  | shareConversationSync => exact hr.shareConversationSync c
  | addMember keyPackageBytes =>
    exact along_bind along_get (fun _ => along_ite (along_throw _) (hr.timed.proposeAdd _ _)) c
  | sponsorMember keyPackageBytes => exact hr.timed.sponsorMember hbuffer keyPackageBytes c
  | removeMember member => exact hr.timed.removeMember member c
  | initiateProposal request v => exact hr.timed.initiateProposal request v c
  | vote id choice => exact hr.timed.vote id choice c
  | requestRecovery => exact hr.timed.requestRecovery c
  | proposeScoreRemoval target => exact hr.proposeScoreRemoval target c
  | commitInRecovery =>
    refine path_get_bind (path_ite (fun _ => ?_) fun _ => hr.timed.mintAndBroadcastCandidate c)
    exact along_throw _ c
  | resendCommit => exact hr.timed.resendCommit c
  | _ => cases h

end Quiet

namespace Steady

variable (hr : Steady r)

include hr

/-! ## Phases -/

theorem phased : Phased (Path r) where
  toTimed := hr.timed
  arm c hstate hidle := .single (hr.arm c hstate hidle)
  startWorking _ hstate := .single (hr.working _ hstate)
  startFreezing := fun c => path_get_bind (path_ite (fun hphase =>
    path_modify_bind (hr.freezing c hphase) (along_pure _)) fun _ => .refl)

/-- What a poll of a freezing conversation decides on. -/
theorem freezingState (c : Conversation P) : ReflTransGen r c c.freezingState :=
  along_ite hr.phased.maybeAutoCommitRecovery (along_pure _) c

end Steady

namespace Plain

variable (hr : Plain r)

include hr

theorem bumped : Holds (Path r) (modify fun c => { c with
    stewardList := c.stewardList.bumpRetry } : ConvM P PUnit) :=
  along_step fun c => hr.bump c

theorem advanceElectionRetry : Along r (advanceElectionRetry : ConvM P Unit) :=
  hr.timed.advanceElectionRetry hr.bumped

theorem driveReelectionRetry : Along r (driveReelectionRetry : ConvM P Unit) :=
  hr.timed.driveReelectionRetry hr.bumped

/-- The drivers after the round. -/
theorem afterDrivers (hs : Steady r) (c : Conversation P) : ReflTransGen r c c.afterDrivers := by
  have hinactivity : Along r (startFreezeOnInactivity : ConvM P Unit) :=
    hs.phased.startFreezeOnInactivity
  refine (hr.timed.driveBufferedProposals c).trans ((hr.driveSyncResend _).trans ?_)
  refine (hr.timed.driveSyncRequest _).trans ((hinactivity _).trans ?_)
  exact hr.driveReelectionRetry _

end Plain

namespace Packets

variable (hr : Packets r)

include hr

theorem buffers : Buffers (Path r) := fun request c => .single (hr.buffer c request)

/-! ## Packets -/

theorem applyConversationSyncToEntry (sync : ConversationSync) :
    Along r (applyConversationSyncToEntry sync : ConvM P Unit) := by
  unfold Conversation.applyConversationSyncToEntry
  refine along_bind (along_ofResult _) fun base => ?_
  refine along_bind (along_step fun c => hr.list c _ rfl) fun _ c => path_get_bind ?_
  refine path_ofResult_bind fun l hl => ?_
  have hround := nextElectionRound_installList hl
  refine path_modify_bind (hr.list c { l with maxRetries := sync.maxReelectionAttempts } hround) ?_
  refine along_bind (hr.onScoring _) fun _ => along_bind (hr.onScoring _) fun _ => ?_
  refine along_bind (along_bind (hr.onScoring _) fun _ => hr.phased.emitScoreChanges _) fun _ => ?_
  refine along_step fun c => hr.config c _ ?_
  cases sync.timing <;> rfl

theorem onConversationSync (sync : ConversationSync) :
    Along r (onConversationSync sync : ConvM P Unit) := by
  unfold Conversation.onConversationSync
  refine along_bind (hr.phased.modifyTiming fun _ => rfl) fun _ => along_bind along_get fun c => ?_
  refine along_ite (along_pure _) (along_bind (along_ofResult _) fun valid => ?_)
  exact along_ite (along_pure _) (along_bind (hr.applyConversationSyncToEntry sync) fun _ =>
    hr.phased.emitEvent ConversationEvent.noConfusion)

/-- What a packet holds; a merged commit is reported by the round only. -/
theorem dispatchInboundResult {result : ProcessResult} (h : result ≠ .conversationUpdated) :
    Along r (dispatchInboundResult result : ConvM P _) := by
  cases result with
  | appMessage message sender =>
    exact along_bind (hr.phased.emitEvent ConversationEvent.noConfusion) fun _ => along_pure _
  | proposal proposal =>
    exact along_bind (hr.phased.onIncomingProposal hr.buffers _) fun _ => along_pure _
  | vote v => exact along_bind (hr.phased.forwardIncomingVote _) fun _ => along_pure _
  | membershipChangeReceived request =>
    exact along_bind (hr.phased.handleIncomingUpdateRequest hr.buffers _) fun _ => along_pure _
  | conversationUpdated => exact absurd rfl h
  | leaveConversation => exact along_bind hr.phased.prepareSelfLeave fun _ => along_pure _
  | commitCandidateReceived _ =>
    exact along_bind hr.phased.onCommitCandidateReceived fun _ => along_pure _
  | conversationSyncReceived sync =>
    exact along_bind (hr.onConversationSync sync) fun _ => along_pure _
  | conversationSyncRequested _ =>
    exact along_bind hr.onConversationSyncRequest fun _ => along_pure _
  | welcomeBroadcastReceived welcome =>
    exact along_bind (hr.phased.emitEvent ConversationEvent.noConfusion) fun _ => along_pure _
  | noop _ => exact along_pure _

theorem packet (payload : Bytes) : Along r (do
    let result ← Conversation.decodeInbound payload
    Conversation.dispatchInboundResult result : ConvM P _) :=
  along_bind_ok (hr.phased.decodeInbound payload) fun c _ d hdecode =>
    hr.dispatchInboundResult (yields_decodeInbound payload c _ d hdecode)

theorem processInbound (sender payload : Bytes) :
    Along r (processInbound sender payload : ConvM P _) :=
  along_bind along_get fun _ => along_ite (along_pure _) (hr.packet payload)

theorem applyWelcomeSync (syncBytes : Bytes) :
    Along r (applyWelcomeSync syncBytes : ConvM P Unit) := by
  unfold Conversation.applyWelcomeSync
  refine along_ite (hr.phased.emitEvent ConversationEvent.noConfusion) ?_
  refine along_bind_ok (hr.phased.decodeInbound _) fun c _ d hdecode => ?_
  exact along_bind (hr.dispatchInboundResult (yields_decodeInbound _ c _ d hdecode)) fun _ =>
    along_pure _

/-! ## Entry points -/

/-- Every entry point is a path, but a poll, which runs the round too, the clock, the integrator's own
recovery mode, its reading of the events, and the leave. -/
theorem entryPoint {e : EntryPoint} (hdrain : e ≠ .drainEvents) (hpoll : ∀ fuel, e ≠ .poll fuel)
    (hclock : ∀ now, e ≠ .clock now) (henter : e ≠ .enterRecoveryMode) (hexit : e ≠ .exitRecoveryMode) (hleave : e ≠ .leave)
    (c : Conversation P) : ReflTransGen r c (e.leaves c) := by
  cases e with
  | processInbound sender payload => exact hr.processInbound sender payload c
  | applyWelcomeSync syncBytes => exact hr.applyWelcomeSync syncBytes c
  | poll fuel => exact absurd rfl (hpoll fuel)
  | leave => exact absurd rfl hleave
  | enterRecoveryMode => exact absurd rfl henter
  | exitRecoveryMode => exact absurd rfl hexit
  | drainEvents => exact absurd rfl hdrain
  | drainOutbound => exact .single (hr.outbound c [] (.inl rfl))
  | clock now => exact absurd rfl (hclock now)
  | publish event => exact .single (hr.outcomes c _)
  | _ => exact hr.toQuiet.call hr.buffers rfl c

/-- What a creator does once it is assembled. -/
theorem seedInitialMembers (hmls : ∀ c m, r c { c with mls := m }) (initialMembers : List Bytes) :
    Along r (seedInitialMembers initialMembers : ConvM P Unit) := by
  unfold Conversation.seedInitialMembers
  have honMls : ∀ {β : Type} (x : EStateM MlsError (MlsService P.mls) β),
      Along r (onMls x : ConvM P β) := by
    refine fun x => along_step fun c => ?_
    unfold after Conversation.onMls zoom
    cases x (mlsPart.get c) <;> exact hmls c _
  refine along_ite (along_pure _) (along_bind (along_ofResult _) fun _ => ?_)
  refine along_bind (honMls _) fun artifacts => along_bind (honMls _) fun delta => ?_
  refine along_bind (hr.scored _).1 fun _ c => path_get_bind (path_ofResult_bind fun l hl => ?_)
  refine path_modify_bind (hr.list c l (nextElectionRound_installList hl)) ?_
  split
  · exact hr.deliverWelcome _
  · exact along_pure _

/-- What a joiner does once it is assembled. -/
theorem settleIn (syncBytes : Bytes) : Along r (settleIn syncBytes : ConvM P Unit) := by
  have hsynced : ∀ members, Along r (syncScoringMembers members : ConvM P Unit) := fun _ =>
    along_bind (hr.onScoring _) fun _ => along_bind (hr.scored _).1 fun _ => (hr.scored _).2
  unfold Conversation.settleIn onJoined
  refine along_bind ?_ fun _ => hr.applyWelcomeSync _
  exact along_bind along_get fun _ => along_bind (hr.phased.say rfl) fun _ => hsynced _

end Packets

theorem Receives.entryPoint (hr : Receives r) {e : EntryPoint} (hpoll : ∀ fuel, e ≠ .poll fuel)
    (hclock : ∀ now, e ≠ .clock now) (henter : e ≠ .enterRecoveryMode) (hexit : e ≠ .exitRecoveryMode)
    (c : Conversation P) : ReflTransGen r c (e.leaves c) := by
  by_cases hdrain : e = .drainEvents
  · rw [hdrain]
    exact .single (hr.drained c)
  · by_cases hleave : e = .leave
    · rw [hleave]
      exact hr.phased.leave (hr.speak hr.spoken) c
    · exact hr.toPackets.entryPoint hdrain hpoll hclock henter hexit hleave c

namespace Settles

variable (hr : Settles r)

include hr

/-! ## Outcomes -/

theorem exitRecoveryMode : Along r (exitRecoveryMode : ConvM P Unit) := along_step hr.exit

theorem handleElectionAccepted (election : StewardElectionProposal) :
    Along r (handleElectionAccepted election : ConvM P Unit) := by
  intro c
  unfold Conversation.handleElectionAccepted
  refine path_get_bind (path_ofResult_bind fun valid _ => path_ite (fun _ => .refl) fun _ => ?_)
  refine path_ofResult_bind fun l hl => ?_
  refine path_modify_bind (hr.list c l (nextElectionRound_installList hl)) ?_
  refine along_bind hr.exitRecoveryMode fun _ => along_bind hr.phased.resumeFromReelection fun _ => ?_
  refine along_bind along_get fun d => along_bind ?_ fun shared => ?_
  · exact along_ite (along_attempt hr.shareConversationSync) (along_pure _)
  · exact along_bind hr.phased.processBufferedUpdates fun _ => along_ofResult _

theorem handleEmergencyScored (id : ProposalId) (ops : List ScoreOp) :
    Along r (handleEmergencyScored id ops : ConvM P Unit) := by
  unfold Conversation.handleEmergencyScored
  refine along_bind (hr.applyScoreOps _) fun _ => ?_
  refine along_bind (hr.phased.modifyQueues fun _ => rfl) fun _ c => ?_
  refine path_get_bind (path_ite (fun hstate => ?_) fun _ => .refl)
  have hpassed := hr.phased
  exact hpassed.bind (hpassed.startWorking c hstate) fun _ d _ => hpassed.emitPhaseChange _ d

/-- Only a rejected election is counted, only a Deadlock opens a recovery, and only a rejected change of
the members drops an update. -/
theorem followUp {o : ConsensusApplyResult} (h : o ≠ .electionRejected)
    (henter : o = .recoveryModeOpened →
      ∀ c, r c { c with operatingMode := .recovery, recoveryRounds := 0 })
    (hdrop : ∀ target, o = .rejectedMembership target →
      ∀ c, r c { c with queues := c.queues.removePendingUpdate target }) :
    Along r (followUp o : ConvM P Unit) := by
  cases o with
  | noAction => exact along_pure _
  | electionAccepted election => exact hr.handleElectionAccepted election
  | electionRejected => exact absurd rfl h
  | recoveryModeOpened =>
    refine along_bind (along_step (henter rfl)) fun _ => along_bind ?_ fun _ =>
      hr.phased.emitEvent ConversationEvent.noConfusion
    exact along_bind hr.phased.startFreezing fun _ => hr.phased.emitPhaseChange _
  | urgentRemoval target =>
    refine along_bind hr.phased.startFreezing fun o => ?_
    cases o with
    | none => exact hr.phased.refreshStewardsAfterRemoval target
    | some event =>
      exact along_bind (hr.phased.onFreezeEntered _) fun _ =>
        hr.phased.refreshStewardsAfterRemoval target
  | queuedRemoval target => exact hr.phased.refreshStewardsAfterRemoval target
  | rejectedMembership target => exact along_step fun c => hdrop target rfl c

/-- What is left of an outcome after its follow-up. -/
theorem afterFollowUp (id : ProposalId) (ops : List ScoreOp) : Along r (do
    if ops ≠ [] then Conversation.handleEmergencyScored id ops else pure ()
    Conversation.onConsensus fun st =>
      ((P.consensus.removeSession st id).1, (P.consensus.removeSession st id).2, []) :
    ConvM P Unit) :=
  along_ite (along_bind (hr.handleEmergencyScored id ops) fun _ => hr.onConsensus _)
    (hr.onConsensus _)

/-! ## After a commit -/

theorem normalize (inRecovery : Bool) : Along r (modify fun c =>
    if inRecovery then { c with operatingMode := .normal } else c : ConvM P Unit) := by
  intro c
  show ReflTransGen r c (if inRecovery then { c with operatingMode := .normal } else c)
  split_ifs
  · exact .single (hr.exit c)
  · exact .refl

/-- The scores of a round and the report of its batch. -/
theorem reward (inRecovery : Bool) (result : CommitRoundResult P.mls) :
    Along r (reward inRecovery result : ConvM P Unit) := by
  refine along_bind (hr.applyRoundScores _) fun _ => along_bind ?_ fun _ => hr.normalize _
  exact along_ite (along_pure _) (hr.phased.emitEvent ConversationEvent.noConfusion)

/-- A round that removed this node. -/
theorem left {inRecovery hasProposals : Bool} {result : CommitRoundResult P.mls}
    {welcome : Option MemberWelcome} (h : result.outcome = .applied (leaveOrUpdate true) welcome) :
    Along r (finishRound inRecovery hasProposals result : ConvM P DispatchOutcome) := by
  unfold finishRound
  refine along_bind (hr.applyRoundScores _) fun _ => ?_
  refine along_bind (along_ite (along_pure _) (hr.phased.emitEvent ConversationEvent.noConfusion))
    fun _ => ?_
  rw [h]
  refine along_bind (hr.normalize _) fun _ => along_bind ?_ fun _ => along_bind (along_attempt
    (along_bind hr.phased.prepareSelfLeave fun _ => along_pure _)) fun o => ?_
  · cases welcome with
    | none => exact along_pure _
    | some welcome => exact hr.deliverWelcome welcome
  · cases o <;> exact along_pure _

end Settles

namespace Ends

variable (hr : Ends r)

include hr

theorem startWorking : Along r (startWorking : ConvM P _) := along_step fun c => hr.back c

/-- The welcome, and back to work with no election attempt counted. -/
theorem handOver (hreset : ∀ c : Conversation P, r c { c with
      stewardList := c.stewardList.resetRetry
      timing := { c.timing with reelectionRecovered := false } }) (welcome : Option MemberWelcome) :
    Along r (handOver welcome : ConvM P Unit) := by
  unfold Conversation.handOver
  refine along_bind ?_ fun _ => along_bind (along_step hreset) fun _ =>
    along_bind hr.startWorking fun _ => hr.phased.emitEvent ConversationEvent.noConfusion
  cases welcome with
  | none => exact along_pure _
  | some welcome => exact hr.deliverWelcome welcome

/-- A round whose commit is processed. -/
theorem processed (hreset : ∀ c : Conversation P, r c { c with
      stewardList := c.stewardList.resetRetry
      timing := { c.timing with reelectionRecovered := false } })
    (hexpire : ∀ (c : Conversation P) epoch maxAge,
      r c { c with queues := c.queues.expirePendingUpdates epoch maxAge })
    {inRecovery hasProposals : Bool} {result : CommitRoundResult P.mls}
    {welcome : Option MemberWelcome} (h : result.outcome = .applied .conversationUpdated welcome) :
    Along r (finishRound inRecovery hasProposals result : ConvM P DispatchOutcome) := by
  intro c
  rw [finishRound_after h]
  refine (hr.reward inRecovery result c).trans ((hr.handOver hreset welcome _).trans ?_)
  exact along_bind (hr.reconcileMembershipAfterCommit hexpire) (fun _ => hr.housekeep) _

end Ends

namespace Recovers

variable (hr : Recovers r)

include hr

theorem followUp {o : ConsensusApplyResult} (h : o ≠ .electionRejected)
    (hdrop : ∀ target, o = .rejectedMembership target →
      ∀ c, r c { c with queues := c.queues.removePendingUpdate target }) :
    Along r (followUp o : ConvM P Unit) :=
  hr.toSettles.followUp h (fun _ => hr.enter) hdrop

/-- **Entry points.** Every one is a path, but a poll, which runs the round too, and the clock. -/
theorem entryPoint {e : EntryPoint} (hpoll : ∀ fuel, e ≠ .poll fuel) (hclock : ∀ now, e ≠ .clock now)
    (hreceive : Receives r) (c : Conversation P) : ReflTransGen r c (e.leaves c) := by
  by_cases henter : e = .enterRecoveryMode
  · rw [henter]
    exact .single (hr.enter c)
  · by_cases hexit : e = .exitRecoveryMode
    · rw [hexit]
      exact .single (hr.exit c)
    · exact hreceive.entryPoint hpoll hclock henter hexit c

end Recovers

namespace Phases

variable (hr : Phases r)

include hr

/-! ## A round that processes no commit -/

theorem finishNoCandidate (hasProposals : Bool) :
    Along r (finishNoCandidate hasProposals : ConvM P DispatchOutcome) := by
  have hreelect : Along r (startReelection : ConvM P _) :=
    along_bind (along_step hr.reelection) fun _ => along_pure _
  unfold Conversation.finishNoCandidate
  refine along_ite (along_bind hreelect fun _ => along_bind along_get fun c => ?_) ?_
  · refine along_bind ?_ fun _ => along_bind (hr.phased.emitEvent ConversationEvent.noConfusion)
      fun _ => along_bind (along_attempt (hr.phased.initiateStewardElection _)) fun _ => along_pure _
    cases c.absentSteward with
    | none => exact along_pure _
    | some id => exact hr.applyScoreOps _
  · refine along_bind (hr.phased.modifyQueues fun _ => rfl) fun _ => ?_
    exact along_bind hr.startWorking fun _ =>
      along_bind (hr.phased.emitEvent ConversationEvent.noConfusion) fun _ => along_pure _

/-- A recovery round without a candidate, given what one over approved work does. -/
theorem finishRecoveryRound {hasProposals : Bool}
    (hretry : hasProposals = true → Along r (retryOrExhaustRecovery : ConvM P DispatchOutcome)) :
    Along r (finishRecoveryRound hasProposals : ConvM P DispatchOutcome) := by
  unfold Conversation.finishRecoveryRound
  cases hasProposals with
  | true => exact hretry rfl
  | false =>
    refine along_bind (hr.phased.modifyQueues fun _ => rfl) fun _ => ?_
    refine along_bind hr.exitRecoveryMode fun _ => along_bind hr.startWorking fun _ => ?_
    exact along_bind (hr.phased.emitEvent ConversationEvent.noConfusion) fun _ => along_pure _

/-- A round that applied no commit, or the one that removed this node. -/
theorem unprocessed {inRecovery hasProposals : Bool} {result : CommitRoundResult P.mls}
    (hresult : result.outcome = .noCandidate ∨
      ∃ verdict welcome, result.outcome = .applied (leaveOrUpdate verdict) welcome)
    (h : ∀ welcome, result.outcome ≠ .applied .conversationUpdated welcome)
    (hretry : inRecovery = true → hasProposals = true → result.outcome = .noCandidate →
      Along r (retryOrExhaustRecovery : ConvM P DispatchOutcome)) :
    Along r (finishRound inRecovery hasProposals result : ConvM P DispatchOutcome) := by
  rcases hresult with hout | ⟨verdict, welcome, hout⟩
  · unfold finishRound
    refine along_bind (hr.applyRoundScores _) fun _ => ?_
    refine along_bind (along_ite (along_pure _) (hr.phased.emitEvent ConversationEvent.noConfusion))
      fun _ => ?_
    rw [hout]
    cases inRecovery with
    | true => exact hr.finishRecoveryRound fun hasProposals => hretry rfl hasProposals hout
    | false => exact hr.finishNoCandidate _
  · cases verdict with
    | false => exact absurd hout (h welcome)
    | true => exact hr.left hout

/-- A poll that finalizes no round, the finalization that fails among them. -/
theorem unfinalized {c : Conversation P} (h : c.pollRound = none)
    (hretry : c.state = .freezing → c.freezingState.isInRecoveryMode = true →
      c.freezingState.roundOver = true → Along r (retryOrExhaustRecovery : ConvM P DispatchOutcome)) :
    ReflTransGen r c (after advanceFreezing c) := by
  by_cases hround : c.state = .freezing ∧ c.freezingState.roundOver = true
  · obtain ⟨hstate, hover⟩ := hround
    obtain ⟨e, t, hfin, hafter⟩ := after_unfinalized h hstate hover
    obtain ⟨hqueues, hmls⟩ := Prod.mk.inj (finalizeCommitRound_error hfin)
    have hqueues : t.queues = c.freezingState.roundState.taken.queues := hqueues
    have hretry := fun hmode => hretry hstate hmode hover
    rw [hafter]
    refine (hr.freezingState c).trans ?_
    generalize c.freezingState = d at hqueues hmls hretry
    have hselect : Along r (do
        modifyTiming fun t => { t with lastCommitRoundProgress := none }
        let event ← startSelection
        emitEvent (.phaseChange event) : ConvM P Unit) :=
      along_bind (hr.phased.modifyTiming fun _ => rfl) fun _ =>
        along_bind (along_bind (along_step hr.selection) fun _ => along_pure _) fun _ =>
          hr.phased.emitEvent ConversationEvent.noConfusion
    have hselecting : ReflTransGen r d d.selecting := hselect d
    have hfailed : ReflTransGen r d.selecting (roundPart.set t d.selecting) := by
      refine .head (hr.queues d.selecting t.queues ?_) (.single (hr.mls _ t.mls hmls))
      rw [hqueues]
      rfl
    refine hselecting.trans (hfailed.trans ?_)
    unfold emitEvent recoverFromFinalizeError
    rw [after_bind_ok _ (modify_apply _ _)]
    refine .head (hr.event _ _ ConversationEvent.noConfusion) (path_get_bind ?_)
    refine path_ite (fun hmode => hretry hmode _) fun _ => ?_
    exact along_bind hr.startWorking (fun _ =>
      along_bind (hr.phased.emitEvent ConversationEvent.noConfusion) fun _ => along_pure _) _
  rw [after_advanceFreezing]
  by_cases hstate : c.state = .freezing
  · rw [if_neg (not_not.mpr hstate), if_neg fun hover => hround ⟨hstate, hover⟩]
    exact (hr.freezingState c).trans (hr.phased.reportProgress _)
  · rw [if_pos hstate]
    exact .single (hr.timers c _ rfl)

end Phases

namespace Rounds

variable (hr : Rounds r)

include hr

theorem retryOrExhaustRecovery : Along r (retryOrExhaustRecovery : ConvM P DispatchOutcome) := by
  have hreopen : Along r (reopenRecoveryWindow : ConvM P _) :=
    along_bind along_get fun _ => along_ite
      (along_bind (along_step hr.reopened) fun _ => along_pure _) (along_pure _)
  unfold Conversation.retryOrExhaustRecovery
  refine along_bind (along_step hr.counted) fun _ => ?_
  refine along_bind along_get fun c => along_ite ?_ ?_
  · refine along_bind hr.exitRecoveryMode fun _ => along_bind hr.startWorking fun _ => ?_
    refine along_bind (along_step hr.exhausted) fun _ => ?_
    exact along_bind (hr.phased.emitEvent ConversationEvent.noConfusion) fun _ => along_pure _
  · exact along_bind hreopen fun _ => along_bind (hr.phased.emitPhaseChange _) fun _ => along_pure _

theorem unprocessed {inRecovery hasProposals : Bool} {result : CommitRoundResult P.mls}
    (hresult : result.outcome = .noCandidate ∨
      ∃ verdict welcome, result.outcome = .applied (leaveOrUpdate verdict) welcome)
    (h : ∀ welcome, result.outcome ≠ .applied .conversationUpdated welcome) :
    Along r (finishRound inRecovery hasProposals result : ConvM P DispatchOutcome) :=
  hr.toPhases.unprocessed hresult h fun _ _ _ => hr.retryOrExhaustRecovery

theorem unfinalized {c : Conversation P} (h : c.pollRound = none) :
    ReflTransGen r c (after advanceFreezing c) :=
  hr.toPhases.unfinalized h fun _ _ _ => hr.retryOrExhaustRecovery

end Rounds

namespace Writes

variable (hr : Writes r)

include hr

theorem followUp (o : ConsensusApplyResult) : Along r (followUp o : ConvM P Unit) := by
  by_cases h : o = .electionRejected
  · rw [h]
    exact hr.advanceElectionRetry
  · exact hr.toRecovers.followUp h fun target _ c => hr.unbuffer c target

theorem finishOutcome (id : ProposalId) (o : ConsensusApplyResult) (ops : List ScoreOp) :
    Along r (finishOutcome id o ops : ConvM P Unit) := by
  unfold Conversation.finishOutcome
  have hreplay : Along r (replayEarlyCandidates : ConvM P Unit) :=
    along_step fun c => hr.queues c _ (pendingUpdates_replayEarlyCandidates _ _)
  refine along_bind hreplay fun _ => along_bind (hr.followUp o) fun _ => ?_
  exact hr.afterFollowUp id ops

theorem applyOutcome (id : ProposalId) (approved : Bool) :
    Along r (applyOutcome id approved : ConvM P Unit) := by
  intro c
  unfold Conversation.applyOutcome
  refine path_get_bind (path_ofResult_bind fun _ _ => path_ofResult_bind fun request _ => ?_)
  refine path_modify_bind (hr.queues c _ ?_) (hr.finishOutcome _ _ _)
  exact pendingUpdates_applyConsensusResult _ _ _ _ _

theorem handleConsensusOutcome (event : ConsensusEvent) :
    Along r (handleConsensusOutcome event : ConvM P Unit) := by
  unfold Conversation.handleConsensusOutcome
  refine along_bind (hr.phased.modifyTiming fun _ => rfl) fun _ => ?_
  refine along_bind (hr.phased.modifyTiming fun _ => rfl) fun _ => along_bind along_get fun c => ?_
  refine along_ite (along_pure _) ?_
  exact along_bind (hr.phased.emitEvent ConversationEvent.noConfusion) fun _ => hr.applyOutcome _ _

theorem drainOutcomes (fuel : Nat) : Along r (drainOutcomes fuel : ConvM P Unit) := by
  induction fuel with
  | zero => exact along_pure _
  | succ fuel ih =>
    unfold Conversation.drainOutcomes
    refine along_bind along_get fun c => ?_
    cases c.outcomes with
    | nil => exact along_pure _
    | cons event rest =>
      refine along_bind (along_step fun c => hr.outcomes c _) fun _ => ?_
      exact along_bind (along_attempt (hr.handleConsensusOutcome event)) fun _ => ih

/-- A due auto-vote is sent in any phase. -/
theorem tickDeadlines (hspeaks : Speaks r) (fuel : Nat) :
    Along r (tickDeadlines fuel : ConvM P Unit) := by
  unfold Conversation.tickDeadlines
  refine along_bind along_get fun c => along_bind (hr.phased.modifyTiming fun _ => rfl) fun _ => ?_
  refine along_bind (hr.phased.castAll (hr.speak hspeaks) _) fun _ => ?_
  exact along_bind (hr.phased.resolveAll _) fun _ => hr.drainOutcomes fuel

end Writes

/-- What the constructors return. -/
inductive Constructed : Conversation P → Prop
  | create {mls : MlsService P.mls} {scoring : PeerScoringService P.scores}
      {consensus : P.consensus.State} {now : Nat} {appId : Bytes} {config : ConversationConfig}
      {initialMembers : List Bytes} {base c : Conversation P}
      (hbase : assemble mls scoring consensus now appId config true = .ok base)
      (hseed : Conversation.seedInitialMembers initialMembers base = .ok () c) : Constructed c
  | join {W : OpenMlsWelcome P.mls} {welcomeBytes syncBytes : Bytes}
      {consensus : P.consensus.State} {scoring : PeerScoringService P.scores} {now : Nat}
      {appId : Bytes} {config : ConversationConfig} {c : Conversation P}
      (hjoin : join W welcomeBytes syncBytes consensus scoring now appId config = .ok (some c)) :
      Constructed c

/-- At work, with no timer running and no election attempt made. -/
structure AtStart (c : Conversation P) : Prop where
  state : c.state = .working
  timing : c.timing = .new
  round : c.stewardList.nextElectionRound = 0

/-- Nothing is queued yet, and no recovery was entered. -/
structure Unused (c : Conversation P) : Prop extends AtStart c where
  fresh : c.Fresh
  mode : c.operatingMode = .normal
  rounds : c.recoveryRounds = 0

theorem unused_of_assemble {mls : MlsService P.mls} {scoring : PeerScoringService P.scores}
    {consensus : P.consensus.State} {now : Nat} {appId : Bytes} {config : ConversationConfig}
    {isCreation : Bool} {c : Conversation P}
    (h : assemble mls scoring consensus now appId config isCreation = .ok c) : c.Unused := by
  obtain ⟨list, scores, rfl, hjoiner, hcreator⟩ := shape_of_assemble h
  have hround : list.nextElectionRound = 0 := by
    cases isCreation with
    | false =>
      obtain ⟨-, rfl⟩ := hjoiner rfl
      rfl
    | true => exact nextElectionRound_installList (hcreator rfl).2
  exact ⟨⟨rfl, rfl, hround⟩, ⟨_, _, rfl⟩, rfl, rfl⟩

/-- A constructed conversation is a path away from the assembled one. -/
theorem Receives.constructed (hr : Receives r) (hmls : ∀ c m, r c { c with mls := m })
    {c : Conversation P} (h : Constructed c) :
    ∃ base : Conversation P, base.Unused ∧ ReflTransGen r base c := by
  cases h with
  | @create _ _ _ _ _ _ initialMembers base _ hbase hseed =>
    have hpath := hr.seedInitialMembers hmls initialMembers base
    rw [after_of_ok hseed] at hpath
    exact ⟨base, unused_of_assemble hbase, hpath⟩
  | @join _ _ syncBytes _ _ _ _ _ _ hjoin =>
    unfold Conversation.join at hjoin
    split at hjoin
    · cases hjoin
    · cases hjoin
    · split at hjoin
      · cases hjoin
      · rename_i base hbase
        have hpath := hr.settleIn syncBytes base
        split at hjoin
        · cases hjoin
        · rename_i hsettle
          cases hjoin
          rw [after_of_ok hsettle] at hpath
          exact ⟨base, unused_of_assemble hbase, hpath⟩

end Conversation

end DeMls
