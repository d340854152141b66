import DeMls.Conversation.Joining
import DeMls.Conversation.EntryPoints
import DeMls.Lib.Judgements

/-!
# What a judgement rests on

The programs of a conversation are made of a few operations. A judgement that passes on those of a
proposal and of a candidate (`Posted Q`) passes on a steward's duties; one that passes on the timers
and the list too (`Timed Q`), on the drivers of a poll; and one that passes on the phases
(`Phased Q`) and the modes (`Moded Q`), on the follow-ups of outcomes. No program of these reads the scores, the two buffers or
the secrets of the group (`veiled`): a judgement may tell apart what is read in any other way.
-/

namespace DeMls

open Program

variable {P : Platform} {α β : Type}

/-- A proposal or a vote. -/
def AppMessage.isBallot (m : AppMessage) : Bool :=
  match m.payload with
  | some (.proposal _) => true
  | some (.vote _) => true
  | _ => false

namespace Conversation

/-! ## What is not read -/

/-- The parts of a conversation that no program reads to choose what it does. -/
structure Veil (P : Platform) where
  secrets : P.mls.Secrets
  scoring : PeerScoringService P.scores
  events : List ConversationEvent
  outbound : List Outbound

/-- The conversation with other such parts. -/
def veiled (v : Veil P) (c : Conversation P) : Conversation P :=
  { c with
    mls := c.mls.setSecrets v.secrets
    scoring := v.scoring
    pendingEvents := v.events
    pendingOutbound := v.outbound }

/-- The two differ in such parts only. -/
def Hides (c d : Conversation P) : Prop := ∃ v, c = d.veiled v

/-- A batch is packed from the roster alone. -/
theorem packUpdates_setSecrets (m : MlsService P.mls) (secrets : P.mls.Secrets)
    (target : Option Bytes) (l : List ConversationUpdateRequest) :
    packUpdates P.mls (m.setSecrets secrets).group target l = packUpdates P.mls m.group target l := by
  induction l with
  | nil => rfl
  | cons request rest ih =>
    unfold packUpdates
    rw [ih]
    rfl

theorem packedBatch_veiled (c : Conversation P) (v : Veil P) :
    (c.veiled v).packedBatch = c.packedBatch :=
  packUpdates_setSecrets c.mls v.secrets _ _

/-- Installing a list is no election attempt. -/
theorem nextElectionRound_installList {s l : StewardListService} {epoch size round : Nat}
    {pool : List Bytes} (h : s.installList P epoch pool size round = .ok l) :
    l.nextElectionRound = s.nextElectionRound := by
  unfold StewardListService.installList at h
  split at h
  · cases h
  · cases h
    rfl

/-! ## Buffered updates -/

theorem pendingUpdates_track (q : ConversationQueues) (O : OpenMls) (id : ProposalId)
    (request : ConversationUpdateRequest) :
    (q.trackVotingProposal O id request).pendingUpdates = q.pendingUpdates := by
  unfold ConversationQueues.trackVotingProposal
  split_ifs <;> rfl

/-- A candidate is kept for the round, or for a later one. -/
theorem pendingUpdates_receiveCommitCandidate (q : ConversationQueues) (mls : MlsService P.mls)
    (c : CommitCandidate) :
    (receiveCommitCandidate P q mls c).2.pendingUpdates = q.pendingUpdates := by
  have hstash : ∀ epoch max, (q.stashEarlyCandidate epoch c max).pendingUpdates = q.pendingUpdates := by
    intro epoch max
    unfold ConversationQueues.stashEarlyCandidate
    dsimp only
    split_ifs <;> rfl
  unfold receiveCommitCandidate
  dsimp only
  split_ifs
  · rfl
  · rfl
  · rfl
  · exact hstash _ _
  · rfl
  · rfl

theorem pendingUpdates_replayEarlyCandidates (q : ConversationQueues) (mls : MlsService P.mls) :
    (DeMls.replayEarlyCandidates P q mls).pendingUpdates = q.pendingUpdates := by
  have hfold : ∀ (cs : List CommitCandidate) (q : ConversationQueues),
      (cs.foldl (fun q c => (receiveCommitCandidate P q mls c).2) q).pendingUpdates =
        q.pendingUpdates := by
    intro cs
    induction cs with
    | nil => exact fun _ => rfl
    | cons c rest ih =>
      intro q
      rw [List.foldl_cons, ih, pendingUpdates_receiveCommitCandidate]
  exact hfold _ _

/-- An outcome is taken by the other queues; only its follow-up drops an update. -/
theorem pendingUpdates_applyConsensusResult (O : OpenMls) (q : ConversationQueues) (id : ProposalId)
    (approved : Bool) (request : ConversationUpdateRequest) :
    (applyConsensusResult O q id approved request).2.pendingUpdates = q.pendingUpdates := by
  unfold applyConsensusResult
  dsimp only
  repeat' split
  all_goals rfl

/-! ## Ballots and other traffic -/

/-- No votes while an epoch rotation is under way. -/
def rotating (c : Conversation P) : Bool := decide (c.state = .freezing ∨ c.state = .selection)

theorem rotating_of_state {c d : Conversation P} (h : d.state = c.state) :
    d.rotating = c.rotating := by
  unfold rotating
  rw [h]

/-- The payload encodes a message that is neither a proposal nor a vote, sealed or in the clear. -/
def OtherTraffic (P : Platform) (payload : Bytes) : Prop :=
  ∃ message : AppMessage, message.isBallot = false ∧ (payload = P.codec.encodeApp message ∨
    ∃ m m' : MlsService P.mls,
      MlsService.buildMessage (P.codec.encodeApp message) m = .ok payload m')

/-- Sealing changes the secrets only. -/
theorem rotating_of_built {message : AppMessage} {payload : Bytes} {c d : Conversation P}
    (h : (onMls (MlsService.buildMessage (P.codec.encodeApp message)) : ConvM P Bytes) c =
      .ok payload d) : d.rotating = c.rotating := by
  obtain ⟨m, _, rfl⟩ := (zoom_ok _ _ _ _ _ _).mp h
  rfl

theorem otherTraffic_of_built {message : AppMessage} {payload : Bytes} {c d : Conversation P}
    (hother : message.isBallot = false)
    (h : (onMls (MlsService.buildMessage (P.codec.encodeApp message)) : ConvM P Bytes) c =
      .ok payload d) : OtherTraffic P payload := by
  obtain ⟨m, hbuild, _⟩ := (zoom_ok _ _ _ _ _ _).mp h
  exact ⟨message, hother, .inr ⟨_, m, hbuild⟩⟩

theorem otherTraffic_of_sync {payload : Bytes} {c d : Conversation P}
    (h : buildConversationSyncPayload c = .ok (some payload) d) : OtherTraffic P payload := by
  unfold buildConversationSyncPayload at h
  rw [bind_ok] at h
  obtain ⟨_, e, _, h⟩ := h
  rw [bind_run _ (get_apply e)] at h
  cases hlist : e.stewardList.list with
  | none =>
    rw [hlist] at h
    simp at h
  | some list =>
    rw [hlist] at h
    dsimp only at h
    rw [bind_ok] at h
    obtain ⟨sealed, f, hbuild, h⟩ := h
    rw [pure_ok] at h
    rw [← Option.some.inj h.1]
    exact otherTraffic_of_built rfl hbuild

/-- What the round broadcasts of ours is a candidate. -/
theorem otherTraffic_of_local {self payload : Bytes} {c d : Conversation P}
    (h : buildLocalCandidate self c = .ok (some payload) d) : OtherTraffic P payload := by
  unfold buildLocalCandidate at h
  rw [bind_ok] at h
  obtain ⟨minted, e, _, h⟩ := h
  cases minted with
  | none => simp at h
  | some candidate =>
    rw [pure_ok] at h
    exact ⟨⟨some (.commitCandidate candidate)⟩, rfl, .inl (Option.some.inj h.1).symm⟩

/-- The gate of our own proposals lets none through while an epoch rotation is under way. -/
theorem rotating_of_gate {kind : ProposalKind} {c d : Conversation P} {voters : Nat}
    (h : (checkProposalAllowed kind : ConvM P Nat) c = .ok voters d) : d.rotating = false := by
  have hkept : Frame id (checkProposalAllowed kind : ConvM P Nat) := by
    refine frame_bind (frame_get _) fun c => ?_
    cases c.state with
    | reelection =>
      exact frame_ite (frame_throw _ _) (frame_ite (frame_throw _ _) (frame_pure _ _))
    | freezing => exact frame_throw _ _
    | selection => exact frame_throw _ _
    | working => exact frame_ite (frame_throw _ _) (frame_pure _ _)
  have hsame : d = c := hkept.ok h
  subst hsame
  unfold checkProposalAllowed at h
  rw [bind_run _ (get_apply d)] at h
  unfold rotating
  cases hstate : d.state with
  | reelection => rfl
  | working => rfl
  | freezing =>
    rw [hstate] at h
    exact absurd h (throw_ok _ _ _ _)
  | selection =>
    rw [hstate] at h
    exact absurd h (throw_ok _ _ _ _)

/-! ## The operations -/

/-- The judgement passes on the operations of a proposal and of a candidate. -/
structure Posted (Q : Judgement ConversationError (Conversation P)) : Prop
    extends Compositional Hides Q where
  /-- The queues are written, but for the buffered updates. -/
  queues : ∀ {g : Conversation P → ConversationQueues}, (∀ c v, g (c.veiled v) = g c) →
    (∀ c, (g c).pendingUpdates = c.queues.pendingUpdates) →
      Holds Q (modify fun c => { c with queues := g c })
  consensus : ∀ {α : Type}
    (f : P.consensus.State → Except ConsensusError α × P.consensus.State × List ConsensusEvent),
    Holds Q (onConsensus f : ConvM P α)
  /-- The end of a recovery is reported by the round only. -/
  emitEvent : ∀ {event}, event ≠ .recoveryExhausted → Holds Q (emitEvent event)
  broadcast : ∀ {payload}, OtherTraffic P payload → Holds Q (broadcast payload)
  /-- Proposals and votes are sent outside an epoch rotation only. -/
  sendApp : ∀ message (c : Conversation P), (message.isBallot = true → c.rotating = false) →
    Q Unit (sendApp message) c
  autoVote : ∀ id delay vote, Holds Q (registerAutoVote id delay vote)
  consensusTimeout : ∀ id delay, Holds Q (registerConsensusTimeout id delay)
  mint : ∀ updates, Holds Q (onMls (MlsService.createCommitCandidate updates))
  decrypt : ∀ payload, Holds Q (onMls (MlsService.decryptApplicationOnly payload))

/-- So it does on the timers, but the phase's, and on the list. -/
structure Timed (Q : Judgement ConversationError (Conversation P)) : Prop extends Posted Q where
  timers : ∀ {g : Conversation P → Timing}, (∀ c v, g (c.veiled v) = g c) →
    (∀ c, (g c).phaseTimer = c.timing.phaseTimer) → Holds Q (modify fun c => { c with timing := g c })
  /-- A list is installed or configured. -/
  list : ∀ {g : Conversation P → StewardListService} {c : Conversation P},
    (∀ c v, g (c.veiled v) = g c) → (g c).nextElectionRound = c.stewardList.nextElectionRound →
      Q PUnit (modify fun c => { c with stewardList := g c }) c
  delete : Holds Q (onMls MlsService.delete)

/-- So it does on the phases outside the round. -/
structure Phased (Q : Judgement ConversationError (Conversation P)) : Prop extends Timed Q where
  /-- The inactivity timer is started. -/
  arm : ∀ c : Conversation P, c.state = .working → c.timing.phaseTimer = none →
    Q Unit (modifyTiming fun t => { t with phaseTimer := some c.now }) c
  /-- Outside the round the way back to work starts in a re-election. -/
  startWorking : ∀ c : Conversation P, c.state = .reelection → Q _ startWorking c
  startFreezing : Holds Q startFreezing

/-- So it does on the modes. -/
structure Moded (Q : Judgement ConversationError (Conversation P)) : Prop extends Phased Q where
  enterRecoveryMode : Holds Q enterRecoveryMode
  exitRecoveryMode : Holds Q exitRecoveryMode

/-- It passes on an update that is buffered, first seen at the epoch of the group. -/
def Buffers (Q : Judgement ConversationError (Conversation P)) : Prop :=
  ∀ (request : ConversationUpdateRequest) (c : Conversation P),
    Q Unit (modifyQueues fun q => q.insertPendingUpdate P.mls request c.epoch) c

variable {Q : Judgement ConversationError (Conversation P)}

namespace Posted

variable (hr : Posted Q)

include hr

theorem reads {f : Conversation P → ConvM P α} (h : ∀ c v, f (c.veiled v) = f c)
    (hf : ∀ c, Holds Q (f c)) : Holds Q (get >>= f) := by
  intro c
  refine hr.read ?_ (hf c c)
  rintro _ ⟨v, rfl⟩
  exact h c v

theorem reads_at {f : Conversation P → ConvM P α} {c : Conversation P}
    (h : ∀ v, f (c.veiled v) = f c) (hf : Q α (f c) c) : Q α (get >>= f) c := by
  refine hr.read ?_ hf
  rintro _ ⟨v, rfl⟩
  exact h v

theorem modifyQueues {f : ConversationQueues → ConversationQueues}
    (h : ∀ q, (f q).pendingUpdates = q.pendingUpdates) : Holds Q (modifyQueues f : ConvM P Unit) :=
  hr.queues (fun _ _ => rfl) fun c => h c.queues

/-- Whatever is neither a proposal nor a vote is sent in any phase. -/
theorem say {message : AppMessage} (h : message.isBallot = false) :
    Holds Q (Conversation.sendApp message : ConvM P Unit) := by
  intro c
  apply hr.sendApp message c
  rw [h]
  exact Bool.noConfusion

theorem emitPhaseChange (transition : Option ConversationState) :
    Holds Q (emitPhaseChange transition : ConvM P Unit) := by
  cases transition with
  | none => exact hr.done _
  | some state => exact hr.emitEvent ConversationEvent.noConfusion

/-! ## Proposals -/

theorem gate (kind : ProposalKind) : Holds Q (checkProposalAllowed kind : ConvM P Nat) := by
  unfold checkProposalAllowed
  refine hr.reads (fun _ _ => rfl) fun c => ?_
  cases c.state with
  | reelection => exact Holds.ite (hr.raise _) (Holds.ite (hr.raise _) (hr.done _))
  | freezing => exact hr.raise _
  | selection => exact hr.raise _
  | working => exact Holds.ite (hr.raise _) (hr.done _)

/-- What follows a program that keeps the phase starts in it. -/
theorem bind_kept {x : ConvM P α} {f : α → ConvM P β} {c : Conversation P} (hx : Q α x c)
    (hkept : Frame Conversation.state x)
    (hf : ∀ a d, d.rotating = c.rotating → Q β (f a) d) : Q β (x >>= f) c :=
  hr.bind hx fun a d hrun => hf a d (rotating_of_state (hkept.ok hrun))

theorem initiateProposal (request : ConversationUpdateRequest) (v : CreatorVote) :
    Holds Q (initiateProposal request v : ConvM P Unit) := by
  have hsubmit : ∀ voters, Holds Q (submitProposal request voters : ConvM P _) := fun _ =>
    hr.reads (fun _ _ => rfl) fun _ => hr.seq (hr.consensus _) fun _ => hr.done _
  have hsubmitted : ∀ voters, Frame Conversation.state (submitProposal request voters : ConvM P _) :=
    fun _ => frame_bind (frame_get _) fun _ =>
      frame_bind (frame_ofPair fun _ => rfl) fun _ => frame_pure _ _
  have htracked : ∀ id, Holds Q (Conversation.modifyQueues fun q =>
      let q := q.trackVotingProposal P.mls id request
      if (ProposalKind.of request).isEmergency then q.insertEmergency id else q : ConvM P Unit) := by
    refine fun id => hr.modifyQueues fun q => ?_
    dsimp only
    split_ifs <;> exact pendingUpdates_track q P.mls id request
  intro c
  refine hr.reads_at (fun _ => rfl) (Compositional.branch (fun _ => hr.done _ c) fun _ => ?_)
  refine hr.bind (hr.gate _ c) fun voters d hgate => ?_
  -- Past the gate no rotation is under way, and nothing up to the send starts one.
  have hopen : d.rotating = false := rotating_of_gate hgate
  refine hr.bind_kept (hsubmit voters d) (hsubmitted voters) fun ⟨id, unbundled⟩ d₁ h₁ => ?_
  refine hr.bind_kept (htracked id d₁) (frame_modify fun _ => rfl) fun _ d₂ h₂ => ?_
  refine hr.bind_kept (hr.consensusTimeout _ _ d₂) (frame_modify fun _ => rfl) fun _ d₃ h₃ => ?_
  have hstill : d₃.rotating = false := h₃.trans (h₂.trans (h₁.trans hopen))
  cases v with
  | yes =>
    refine hr.bind_kept (hr.consensus _ d₃) (frame_ofPair fun _ => rfl) fun _ d₄ h₄ => ?_
    refine hr.bind (hr.sendApp _ d₄ fun _ => h₄.trans hstill) fun _ d₅ _ => ?_
    exact hr.emitEvent ConversationEvent.noConfusion d₅
  | deferred =>
    refine hr.bind (hr.sendApp _ d₃ fun _ => hstill) fun _ d₄ _ => ?_
    exact hr.seq (hr.emitEvent ConversationEvent.noConfusion) (fun _ => hr.autoVote _ _ _) d₄

theorem initiateStewardElection (recovery : Bool) :
    Holds Q (initiateStewardElection recovery : ConvM P Unit) := by
  unfold Conversation.initiateStewardElection
  refine hr.reads (fun _ _ => rfl) fun c => Holds.ite (hr.done _) ?_
  refine hr.seq (hr.result _) fun decision => ?_
  cases decision with
  | skip _ => exact hr.done _
  | proposed _ _ _ => exact hr.initiateProposal _ _

theorem requestRecovery : Holds Q (requestRecovery : ConvM P Unit) := by
  unfold Conversation.requestRecovery
  refine hr.reads (fun _ _ => rfl) fun c => Holds.ite (hr.done _) ?_
  exact hr.seq (hr.result _) fun _ => hr.initiateProposal _ _

theorem advanceElectionRetry
    (hbump : Holds Q (modify fun c => { c with stewardList := c.stewardList.bumpRetry })) :
    Holds Q (advanceElectionRetry : ConvM P Unit) := by
  unfold Conversation.advanceElectionRetry
  refine hr.seq hbump fun _ => hr.reads (fun _ _ => rfl) fun c => ?_
  refine Holds.ite (Holds.ite ?_ (hr.done _)) (hr.attempted (hr.initiateStewardElection _))
  refine hr.seq (hr.caught hr.requestRecovery) fun o => ?_
  cases o with
  | ok _ => exact hr.done _
  | error e => exact hr.emitEvent ConversationEvent.noConfusion

theorem drainBufferedUpdates : Holds Q (drainBufferedUpdates : ConvM P Unit) := by
  unfold Conversation.drainBufferedUpdates
  refine hr.reads (fun _ _ => rfl) fun c => ?_
  generalize c.actionableBufferedUpdates = requests
  induction requests with
  | nil => exact hr.done _
  | cons request rest ih => exact hr.seq (hr.caught (hr.initiateProposal _ _)) fun _ => ih

theorem processBufferedUpdates : Holds Q (processBufferedUpdates : ConvM P Unit) :=
  hr.reads (fun _ _ => rfl) fun _ => Holds.ite hr.drainBufferedUpdates (hr.done _)

theorem handleIncomingUpdateRequest (hbuffer : Buffers Q) (request : ConversationUpdateRequest) :
    Holds Q (handleIncomingUpdateRequest request : ConvM P Unit) := by
  intro c
  refine hr.reads_at (fun _ => rfl) (Compositional.branch (fun _ => hr.done _ c) fun _ => ?_)
  refine hr.bind (hbuffer request c) fun _ d _ => ?_
  exact Compositional.branch (fun _ => hr.attempted (hr.initiateProposal _ _) d) fun _ => hr.done _ d

theorem proposeAdd (keyPackageBytes : Bytes) (v : CreatorVote) :
    Holds Q (proposeAdd keyPackageBytes v : ConvM P Unit) :=
  hr.seq (hr.result _) fun _ => hr.reads (fun _ _ => rfl) fun _ =>
    Holds.ite (hr.raise _) (hr.initiateProposal _ _)

theorem sponsorMember (hbuffer : Buffers Q) (keyPackageBytes : Bytes) :
    Holds Q (sponsorMember keyPackageBytes : ConvM P Unit) := by
  intro c
  refine hr.reads_at (fun _ => rfl) (Compositional.branch (fun _ => hr.done _ c) fun _ => ?_)
  refine Compositional.branch (fun _ => hr.proposeAdd _ _ c) fun _ => hr.result_bind fun _ _ => ?_
  exact Compositional.branch (fun _ => hr.done _ c) fun _ => hbuffer _ c

theorem removeMember (member : MemberId) : Holds Q (removeMember member : ConvM P Unit) := by
  unfold Conversation.removeMember
  refine hr.reads (fun _ _ => rfl) fun c => Holds.ite (hr.raise _) ?_
  split
  · exact hr.raise _
  · exact hr.initiateProposal _ _

/-- A leave is sent in any phase. -/
theorem leave (hsend : ∀ message, Holds Q (Conversation.sendApp message : ConvM P Unit)) :
    Holds Q (leave : ConvM P Unit) := by
  have hsubmit : Holds Q (submitSelfLeaveProposal : ConvM P _) := by
    unfold submitSelfLeaveProposal
    refine hr.reads (fun _ _ => rfl) fun c => hr.seq (hr.result _) fun vote => ?_
    refine hr.seq (hr.caught (hr.consensus _)) fun o => ?_
    split
    · exact hr.done _
    · exact hr.done _
    · exact hr.raise _
  unfold Conversation.leave initiateSelfLeave
  refine hr.reads (fun _ _ => rfl) fun c => Holds.ite (hr.done _) ?_
  refine hr.seq (hr.modifyQueues fun q => pendingUpdates_track q _ _ _) fun _ => ?_
  refine hr.seq hsubmit fun o => ?_
  split
  · exact hr.done _
  · exact hsend _

theorem emitScoreChanges (changes : List ScoreChange) :
    Holds Q (emitScoreChanges changes : ConvM P Unit) := by
  induction changes with
  | nil => exact hr.done _
  | cons change rest ih => exact hr.seq (hr.emitEvent ConversationEvent.noConfusion) fun _ => ih

theorem refreshStewardsAfterRemoval (target : Bytes) :
    Holds Q (refreshStewardsAfterRemoval target : ConvM P Unit) :=
  hr.reads (fun _ _ => rfl) fun _ =>
    Holds.ite (hr.done _) (hr.attempted (hr.initiateStewardElection _))

theorem maybeCloseRecoveryWindow : Holds Q (maybeCloseRecoveryWindow : ConvM P Unit) :=
  hr.reads (fun _ _ => rfl) fun _ =>
    Holds.ite (hr.attempted (hr.initiateStewardElection _)) (hr.done _)

/-! ## Candidates -/

theorem mintAndBroadcastCandidate : Holds Q (mintAndBroadcastCandidate : ConvM P Bool) := by
  have hlocal : ∀ self, Holds Q (localCandidate self : ConvM P _) := by
    intro self
    unfold localCandidate
    refine hr.reads (fun c v => ?_) fun c => Holds.ite (hr.raise _) (Holds.ite (hr.raise _) ?_)
    · rw [packedBatch_veiled]
      rfl
    refine Holds.ite (hr.done _) (Holds.ite (hr.raise _) ?_)
    refine hr.seq (hr.result _) fun ⟨updates, joiners⟩ => ?_
    refine Holds.ite (hr.done _) (hr.seq (hr.mint _) fun _ => ?_)
    exact hr.seq (hr.queues (fun _ _ => rfl) fun _ => rfl) fun _ => hr.done _
  have hbuild : ∀ self, Holds Q (buildLocalCandidate self : ConvM P _) := fun self =>
    hr.seq (hlocal self) fun o => by cases o <;> exact hr.done _
  intro c
  refine hr.reads_at (fun _ => rfl) (hr.bind (hbuild _ c) fun o d hd => ?_)
  cases o with
  | none => exact hr.done _ d
  | some payload => exact hr.seq (hr.broadcast (otherTraffic_of_local hd)) (fun _ => hr.done _) d

theorem onFreezeEntered (event : ConversationState) :
    Holds Q (onFreezeEntered event : ConvM P Unit) := by
  unfold Conversation.onFreezeEntered
  refine hr.reads (fun _ _ => rfl) fun c => Holds.ite ?_ (hr.emitEvent ConversationEvent.noConfusion)
  refine hr.seq (hr.caught hr.mintAndBroadcastCandidate) fun o => ?_
  cases o with
  | ok _ => exact hr.emitEvent ConversationEvent.noConfusion
  | error e =>
    exact hr.seq (hr.emitEvent ConversationEvent.noConfusion) fun _ =>
      hr.emitEvent ConversationEvent.noConfusion

theorem maybeAutoCommitRecovery : Holds Q (maybeAutoCommitRecovery : ConvM P Unit) := by
  unfold Conversation.maybeAutoCommitRecovery
  refine hr.reads (fun _ _ => rfl) fun c => ?_
  split
  · exact hr.done _
  · exact Holds.ite (hr.done _) (hr.attempted hr.mintAndBroadcastCandidate)

theorem resendCommit : Holds Q (resendCommit : ConvM P Bool) := by
  unfold Conversation.resendCommit
  refine hr.reads (fun _ _ => rfl) fun c => ?_
  split
  · rename_i payload hbytes
    obtain ⟨e, _, rfl⟩ := Option.map_eq_some_iff.mp hbytes
    exact hr.seq (hr.broadcast ⟨_, rfl, .inl rfl⟩) fun _ => hr.done _
  · exact hr.done _

/-! ## Packets and votes -/

theorem decodeInbound (payload : Bytes) : Holds Q (decodeInbound payload : ConvM P _) := by
  unfold Conversation.decodeInbound
  refine hr.reads (fun _ _ => rfl) fun c => ?_
  split
  · refine hr.seq (hr.queues (fun _ _ => rfl) fun c => ?_) fun _ => hr.done _
    exact pendingUpdates_receiveCommitCandidate c.queues c.mls _
  · refine Holds.ite (hr.done _) (hr.seq (hr.modifyQueues fun _ => rfl) fun _ => ?_)
    exact Holds.ite (hr.done _) (hr.done _)
  · unfold decodeEncrypted
    refine hr.seq (hr.decrypt _) fun o => ?_
    cases o with
    | none => exact hr.done _
    | some d => exact hr.seq (hr.result _) fun _ => hr.reads (fun _ _ => rfl) fun _ => hr.done _

/-- A proposal is mirrored at the epoch it arrives in. -/
theorem mirrorProposal (hbuffer : Buffers Q) (id : ProposalId) (request : ConversationUpdateRequest)
    (c : Conversation P) :
    Q Unit (Conversation.modifyQueues (mirrorProposal P.mls id c.epoch request)) c := by
  have htrack : Holds Q (Conversation.modifyQueues fun q =>
      q.trackVotingProposal P.mls id request : ConvM P Unit) :=
    hr.modifyQueues fun q => pendingUpdates_track q _ _ _
  have hbuffered : Q Unit (do
      Conversation.modifyQueues fun q => q.trackVotingProposal P.mls id request
      Conversation.modifyQueues fun q => q.insertPendingUpdate P.mls request c.epoch) c := by
    refine hr.bind (htrack c) fun _ d hd => ?_
    have hepoch : c.epoch = d.epoch :=
      ((frame_modify (p := Conversation.epoch) fun _ => rfl).ok hd).symm
    rw [hepoch]
    exact hbuffer request d
  rcases request with ⟨_ | payload⟩
  · exact htrack c
  · cases payload with
    | memberInvite keyPackageBytes => exact hbuffered
    | removeMember memberId => exact hbuffered
    | emergencyCriteria evidence =>
      have htracked : ∀ q : ConversationQueues, (Conversation.mirrorProposal P.mls id c.epoch
          ⟨some (.emergencyCriteria evidence)⟩ q).pendingUpdates = q.pendingUpdates := fun q =>
        pendingUpdates_track q P.mls id _
      exact hr.modifyQueues htracked c
    | stewardElection election => exact htrack c

theorem onIncomingProposal (hbuffer : Buffers Q) (proposal : Proposal) :
    Holds Q (onIncomingProposal proposal : ConvM P Unit) := by
  have hschedule : ∀ decoded, Holds Q (scheduleVote proposal.proposalId decoded : ConvM P Unit) := by
    intro decoded
    unfold scheduleVote
    refine hr.reads (fun _ _ => rfl) fun c => ?_
    split
    · exact hr.seq (hr.result _) fun _ => hr.autoVote _ _ _
    · exact hr.seq (hr.emitEvent ConversationEvent.noConfusion) fun _ => hr.autoVote _ _ _
    · exact hr.autoVote _ _ _
  intro c
  refine hr.reads_at (fun _ => rfl) (Compositional.branch (fun _ => hr.done _ c) fun _ => ?_)
  refine hr.bind (hr.caught (hr.consensus _) c) fun o d hd => ?_
  have hepoch : c.epoch = d.epoch :=
    ((frame_attempt (p := Conversation.epoch) (frame_ofPair fun _ => rfl)).ok hd).symm
  cases o with
  | error e =>
    refine Compositional.branch (fun _ => ?_) (fun _ => hr.raise _ d)
    exact hr.seq (hr.emitEvent ConversationEvent.noConfusion) (fun _ => hr.raise _) d
  | ok _ =>
    refine hr.bind ?_ fun _ e _ => Holds.ite (hr.seq (hschedule _) fun _ => ?_) (hr.done _) e
    · split
      · rw [hepoch]
        exact hr.mirrorProposal hbuffer _ _ d
      · exact hr.done _ d
    · exact hr.consensusTimeout _ _

theorem forwardIncomingVote (v : Vote) : Holds Q (forwardIncomingVote v : ConvM P Unit) := by
  unfold Conversation.forwardIncomingVote
  refine hr.reads (fun _ _ => rfl) fun c => hr.seq (hr.caught (hr.consensus _)) fun o => ?_
  split
  · exact hr.done _
  · exact hr.done _
  · exact hr.done _
  · exact hr.raise _

/-- A vote is cast outside an epoch rotation. -/
theorem broadcastVote (id : ProposalId) (choice : Bool) (c : Conversation P)
    (h : c.rotating = false) : Q Unit (broadcastVote id choice) c := by
  refine hr.reads_at (fun _ => rfl) ?_
  refine hr.bind_kept (hr.consensus _ c) (frame_ofPair fun _ => rfl) fun _ d hd => ?_
  exact hr.sendApp _ d fun _ => hd.trans h

/-- An auto-vote is cast in any phase. -/
theorem autoVoteCast (hsend : ∀ message, Holds Q (Conversation.sendApp message : ConvM P Unit))
    (id : ProposalId) (choice : Bool) : Holds Q (Conversation.broadcastVote id choice : ConvM P Unit) :=
  hr.reads (fun _ _ => rfl) fun _ => hr.seq (hr.consensus _) fun _ => hsend _

theorem resolveOnTimeout (id : ProposalId) : Holds Q (resolveOnTimeout id : ConvM P Unit) :=
  hr.reads (fun _ _ => rfl) fun _ =>
    Holds.ite (hr.done _) (hr.attempted (hr.consensus _))

theorem castAll (hsend : ∀ message, Holds Q (Conversation.sendApp message : ConvM P Unit))
    (due : List (ProposalId × AutoVoteEntry)) : Holds Q (castAll due : ConvM P Unit) := by
  induction due with
  | nil => exact hr.done _
  | cons e rest ih => exact hr.seq (hr.caught (hr.autoVoteCast hsend _ _)) fun _ => ih

theorem resolveAll (due : List (ProposalId × Nat)) : Holds Q (resolveAll due : ConvM P Unit) := by
  induction due with
  | nil => exact hr.done _
  | cons e rest ih => exact hr.seq (hr.resolveOnTimeout _) fun _ => ih

end Posted

namespace Timed

variable (hr : Timed Q)

include hr

theorem modifyTiming {f : Timing → Timing} (h : ∀ t, (f t).phaseTimer = t.phaseTimer) :
    Holds Q (modifyTiming f : ConvM P Unit) :=
  hr.timers (fun _ _ => rfl) fun c => h c.timing

theorem reconcileStewardList : Holds Q (reconcileStewardList : ConvM P _) := by
  intro c
  refine hr.reads_at (fun _ => rfl) (Compositional.branch (fun _ => hr.done _ c) fun _ => ?_)
  refine Compositional.branch (fun _ => hr.done _ c) fun _ => hr.result_bind fun l hl => ?_
  have hround := nextElectionRound_installList hl
  exact hr.bind (hr.list (g := fun _ => l) (fun _ _ => rfl) hround) fun _ d _ => hr.done _ d

theorem stewardListHousekeeping : Holds Q (stewardListHousekeeping : ConvM P Unit) := by
  unfold Conversation.stewardListHousekeeping
  refine hr.seq hr.reconcileStewardList fun o => ?_
  cases o with
  | settled => exact hr.done _
  | needsElection => exact hr.attempted (hr.initiateStewardElection _)

theorem prepareSelfLeave : Holds Q (prepareSelfLeave : ConvM P Unit) :=
  hr.seq (hr.emitEvent ConversationEvent.noConfusion) fun _ =>
    hr.seq (hr.modifyTiming fun _ => rfl) fun _ => hr.attempted hr.delete

/-- Before it drains the outcomes, a tick fires what is due. -/
theorem fires (hsend : ∀ message, Holds Q (Conversation.sendApp message : ConvM P Unit)) :
    Holds Q (tickDeadlines 0 : ConvM P Unit) := by
  unfold tickDeadlines
  refine hr.reads (fun _ _ => rfl) fun c => hr.seq (hr.modifyTiming fun _ => rfl) fun _ => ?_
  exact hr.seq (hr.castAll hsend _) fun _ => hr.seq (hr.resolveAll _) fun _ => hr.done _

theorem vote (id : ProposalId) (choice : Bool) : Holds Q (vote id choice : ConvM P Unit) := by
  intro c
  refine hr.reads_at (fun _ => rfl) (Compositional.branch (fun _ => hr.raise _ c) fun hphase => ?_)
  have hcancel : Holds Q (Conversation.modifyTiming fun t => { t with
      pendingAutoVotes := t.pendingAutoVotes.erase id } : ConvM P Unit) :=
    hr.modifyTiming fun _ => rfl
  refine hr.bind_kept (hcancel c) (frame_modify fun _ => rfl) fun _ d hd => ?_
  exact hr.broadcastVote id choice d (hd.trans (decide_eq_false hphase))

/-! ## Drivers -/

theorem reportProgress : Holds Q (reportProgress : ConvM P _) :=
  hr.reads (fun _ _ => rfl) fun _ => Holds.ite (hr.seq (hr.modifyTiming fun _ => rfl) fun _ =>
    hr.seq (hr.emitEvent ConversationEvent.noConfusion) fun _ => hr.done _) (hr.done _)

theorem driveBufferedProposals : Holds Q (driveBufferedProposals : ConvM P Unit) := by
  have hdisarm : Holds Q (Conversation.modifyTiming fun t => { t with
      bufferedProposeAnchor := none } : ConvM P Unit) := hr.modifyTiming fun _ => rfl
  unfold Conversation.driveBufferedProposals
  refine hr.reads (fun _ _ => rfl) fun c => Holds.ite hdisarm ?_
  refine Holds.ite (hr.seq hdisarm fun _ => hr.drainBufferedUpdates) ?_
  refine Holds.ite (hr.done _) ?_
  split
  · exact hr.modifyTiming fun _ => rfl
  · exact Holds.ite (hr.done _) (hr.seq hdisarm fun _ => hr.drainBufferedUpdates)

theorem driveSyncRequest : Holds Q (driveSyncRequest : ConvM P Unit) := by
  unfold Conversation.driveSyncRequest
  refine hr.reads (fun _ _ => rfl) fun c => Holds.ite (hr.modifyTiming fun _ => rfl) ?_
  refine Holds.ite (hr.done _) (hr.seq (hr.modifyTiming fun _ => rfl) fun _ => ?_)
  exact hr.say rfl

theorem driveReelectionRetry
    (hbump : Holds Q (modify fun c => { c with stewardList := c.stewardList.bumpRetry })) :
    Holds Q (driveReelectionRetry : ConvM P Unit) := by
  have hdisarm : Holds Q (Conversation.modifyTiming fun t => { t with
      reelectionSilenceAnchor := none } : ConvM P Unit) := hr.modifyTiming fun _ => rfl
  unfold Conversation.driveReelectionRetry
  refine hr.reads (fun _ _ => rfl) fun c => Holds.ite hdisarm ?_
  split
  · exact hr.modifyTiming fun _ => rfl
  · exact Holds.ite (hr.done _) (hr.seq hdisarm fun _ => hr.advanceElectionRetry hbump)

end Timed

namespace Phased

variable (hr : Phased Q)

include hr

theorem onCommitCandidateReceived : Holds Q (onCommitCandidateReceived : ConvM P Unit) := by
  unfold Conversation.onCommitCandidateReceived
  refine hr.reads (fun _ _ => rfl) fun c => Holds.ite (hr.done _) ?_
  refine hr.seq hr.startFreezing fun o => ?_
  cases o with
  | none => exact hr.done _
  | some event => exact hr.onFreezeEntered _

theorem resumeFromReelection : Holds Q (resumeFromReelection : ConvM P Unit) := by
  intro c
  refine hr.reads_at (fun _ => rfl) (Compositional.branch (fun hstate => ?_) fun _ => hr.done _ c)
  have hmarked : Holds Q (Conversation.modifyTiming fun t => { t with
      reelectionRecovered := true } : ConvM P Unit) := hr.modifyTiming fun _ => rfl
  refine hr.bind (hmarked c) fun _ d hd => ?_
  have hkept : d.state = c.state := by
    cases hd
    rfl
  exact hr.bind (hr.startWorking d (hkept.trans hstate)) fun _ e _ => hr.emitPhaseChange _ e

theorem startFreezeOnInactivity : Holds Q (startFreezeOnInactivity : ConvM P Unit) := by
  have hcheck : ∀ approved window,
      Holds Q (checkStewardInactivity approved window : ConvM P _) := by
    intro approved window c
    refine hr.reads_at (fun _ => rfl) (Compositional.branch (fun _ => hr.done _ c) fun hworking => ?_)
    refine Compositional.branch (fun hidle => ?_) fun _ =>
      Compositional.branch (fun _ => hr.done _ c) fun _ => hr.startFreezing c
    exact hr.bind (hr.arm c (not_not.mp (not_or.mp hworking).1) hidle) fun _ d _ => hr.done _ d
  unfold Conversation.startFreezeOnInactivity
  refine hr.reads (fun _ _ => rfl) fun c => Holds.ite (hr.done _) ?_
  refine hr.seq (hcheck _ _) fun o => ?_
  cases o with
  | none => exact hr.done _
  | some event => exact hr.onFreezeEntered _

end Phased

/-- The follow-ups that neither accept nor reject an election. -/
theorem Moded.followUp (hr : Moded Q) {o : ConsensusApplyResult}
    (haccepted : ∀ e, o ≠ .electionAccepted e) (hrejected : o ≠ .electionRejected)
    (hdrop : ∀ target, o = .rejectedMembership target →
      Holds Q (modifyQueues fun q => q.removePendingUpdate target)) :
    Holds Q (followUp o : ConvM P Unit) := by
  cases o with
  | noAction => exact hr.done _
  | electionAccepted election => exact absurd rfl (haccepted election)
  | electionRejected => exact absurd rfl hrejected
  | recoveryModeOpened =>
    refine hr.seq hr.enterRecoveryMode fun _ => hr.seq ?_ fun _ =>
      hr.emitEvent ConversationEvent.noConfusion
    exact hr.seq hr.startFreezing fun _ => hr.emitPhaseChange _
  | urgentRemoval target =>
    refine hr.seq hr.startFreezing fun o => ?_
    cases o with
    | none => exact hr.refreshStewardsAfterRemoval target
    | some event =>
      exact hr.seq (hr.onFreezeEntered _) fun _ => hr.refreshStewardsAfterRemoval target
  | queuedRemoval target => exact hr.refreshStewardsAfterRemoval target
  | rejectedMembership target => exact hdrop target rfl

end Conversation

end DeMls
