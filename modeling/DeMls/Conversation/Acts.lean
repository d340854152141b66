import DeMls.Conversation.Walk
import DeMls.Conversation.Sync
import DeMls.CommitRound.Packing

/-!
# The writes of the code

`Act` lists what the code of a conversation ever writes, one constructor for each kind of write, with
what the code has checked by then. Every packet, every poll and every call of the integrator is a path
of acts (`EntryPoint.acts`), so an invariant of each write is one of every run. `Sources` says what came
in from outside.
-/

namespace DeMls

open Program Relation

variable {P : Platform} {α : Type}

/-- What comes in from outside while a program runs. -/
structure Sources where
  /-- Candidates in packets. -/
  candidate : CommitCandidate → Prop
  /-- Messages that packets open to, with their senders. -/
  message : AppMessage → Member → Prop
  /-- Messages of the local member to the others. -/
  chat : AppMessage → Prop
  /-- Members a conversation is founded with. -/
  founder : MlsCommitInput → Prop
  /-- Requests that pass their vote. -/
  approved : ConversationUpdateRequest → Prop
  /-- Whether the phase may change. -/
  phases : Prop
  /-- Whether commits may be merged. -/
  commits : Prop
  /-- Whether the events may be taken. -/
  drains : Prop

/-- Nothing comes in, no phase changes and no commit is merged. -/
def Sources.none : Sources where
  candidate _ := False
  message _ _ := False
  chat _ := False
  founder _ := False
  approved _ := False
  phases := False
  commits := False
  drains := False

variable {src : Sources}

/-- The messages that are handed to the integrator. -/
def AppMessage.isChat (m : AppMessage) : Bool :=
  match m.payload with
  | some (.conversationMessage _ _) | some (.membershipChange _ _ _) => true
  | _ => false

/-- An event that tells neither chat, nor a phase, nor who came and went. -/
def ConversationEvent.isNote : ConversationEvent → Bool
  | .conversationMessage _ _ | .phaseChange _ | .membersChanged _ _ => false
  | _ => true

namespace ConversationQueues

/-- What a commit round reads of the queues: the approved work, the candidates, and the hashes of the
commits that were merged. -/
def roundWork (q : ConversationQueues) :
    Bytes × (OrderedMap ProposalId ConversationUpdateRequest × Option Bytes × OrderedMap Bytes Nat) ×
      CommitRoundBuffer × List (Nat × CommitCandidate) × BoundedSet CommitHash :=
  (q.conversationId, q.ledger, q.commitRound, q.earlyCandidates, q.committedBatchHashes)

/-- The dedup windows beside the merged hashes. -/
def windows (q : ConversationQueues) : BoundedSet ProposalId × BoundedSet CommitHash :=
  (q.resolvedProposals, q.welcomeBroadcastHashes)

end ConversationQueues

/-! ## What a round hands out -/

/-- A verdict on our own seat, and a welcome without a sync. -/
def CommitRoundOutcome.Bare : CommitRoundOutcome → Prop
  | .applied result welcome => (∃ selfRemoved, result = leaveOrUpdate selfRemoved) ∧
      ∀ w, welcome = some w → w.conversationSyncBytes = []
  | .noCandidate => True

theorem applyCandidate_bare {stewardList : StewardListService} {c : BufferedCommitCandidate}
    {ctx : RoundContext} {s t : RoundState P} {outcome : CommitRoundOutcome} {committer : Bytes}
    {batch : List ConversationUpdateRequest} {merged : MergedCommit P.mls}
    (h : applyCandidate stewardList c ctx s = .ok (.terminal outcome committer batch merged) t) :
    outcome.Bare := by
  obtain ⟨_, _, _, _, hremote⟩ := applyCandidate_terminal h
  unfold applyCandidate at h
  split_ifs at h with hlocal
  · obtain ⟨_, _, _, _, ho⟩ := applyLocalCandidate_steps h
    cases ho
    refine ⟨⟨_, rfl⟩, fun w hw => ?_⟩
    obtain ⟨_, _, rfl⟩ := Option.map_eq_some_iff.mp hw
    rfl
  · obtain ⟨_, _, _, u, _, hstage, hl, _⟩ := hremote (by simpa using hlocal)
    have hu := (frame_stageCandidate _ _).ok hstage
    rw [applyIncomingCandidate_eq stewardList c ctx s hstage, (members_of_visible hu).1, hl] at h
    obtain ⟨_, _, _, _, _, _, ho⟩ := mergeIncomingCandidate_steps h
    cases ho
    refine ⟨⟨_, rfl⟩, fun _ hw => ?_⟩
    cases hw

theorem finalizeCommitRound_bare {stewardList : StewardListService} {inRecovery allowSubset : Bool}
    {self : Bytes} {s t : RoundState P} {r : CommitRoundResult P.mls}
    (h : finalizeCommitRound stewardList inRecovery allowSubset self s = .ok r t) :
    r.outcome.Bare := by
  cases hmerged : r.merged with
  | none =>
    rw [(finalizeCommitRound_not_merged h hmerged).2.1]
    trivial
  | some merged =>
    rw [finalizeCommitRound_eq] at h
    rcases applyInPriorityOrder_ok h with ⟨ops, u, _, hdone⟩ |
      ⟨_, _, _, _, _, _, _, _, _, _, _, hc, rfl⟩
    · obtain ⟨_, _, _, rfl⟩ := discardAndFinish_steps hdone
      cases hmerged
    · exact applyCandidate_bare hc

namespace Conversation

/-- The payload is a message sealed for the group of `mls`. -/
def SealedIn (mls : MlsService P.mls) (message : AppMessage) (payload : Bytes) : Prop :=
  ∃ m m' : MlsService P.mls, m.publicPart = mls.publicPart ∧
    MlsService.buildMessage (P.codec.encodeApp message) m = .ok payload m'

/-- A sealed message, which is the local member's if it is for the others to read. -/
def SealsOwn (src : Sources) (c : Conversation P) (payload : Bytes) : Prop :=
  ∃ message, SealedIn c.mls message payload ∧ (message.isChat = true → src.chat message)

/-- What a conversation puts out: a sealed message, a welcome, or a candidate under its own name. -/
inductive Puts (src : Sources) (c : Conversation P) : Bytes → Prop
  | sealed {payload : Bytes} (h : SealsOwn src c payload) : Puts src c payload
  | welcome {w : MemberWelcome}
      (h : w.conversationSyncBytes = [] ∨ SealsOwn src c w.conversationSyncBytes) :
      Puts src c (P.codec.encodeApp ⟨some (.memberWelcome w)⟩)
  /-- A mint. -/
  | minted {m : CommitCandidate} (h : m.stewardMemberId = c.selfMemberId) :
      Puts src c (P.codec.encodeApp ⟨some (.commitCandidate m)⟩)
  /-- A resend. -/
  | resent {b : BufferedCommitCandidate} (hb : b ∈ c.queues.commitRound.candidates)
      (hlocal : b.isLocalCandidate = true) :
      Puts src c (P.codec.encodeApp ⟨some (.commitCandidate b.candidateMsg)⟩)

/-- What runs on the group outside a round. -/
inductive Engine (src : Sources) (c : Conversation P) :
    {α : Type} → EStateM MlsError (MlsService P.mls) α → Prop
  | buildMessage (bytes : Bytes) : Engine src c (MlsService.buildMessage bytes)
  | decrypt (bytes : Bytes) : Engine src c (MlsService.decryptApplicationOnly bytes)
  /-- A commit to approved updates, or to the founders. -/
  | mint {updates : List MlsCommitInput}
      (h : ∀ u ∈ updates, src.founder u ∨
        ∃ request ∈ c.queues.approvedProposals.values, inputOf request = some u) :
      Engine src c (MlsService.createCommitCandidate updates)
  | delete : Engine src c MlsService.delete

/-- It moves the secrets only. -/
theorem Engine.frame {c : Conversation P} {x : EStateM MlsError (MlsService P.mls) α}
    (h : Engine src c x) : Frame MlsService.publicPart x := by
  cases h with
  | buildMessage bytes => exact MlsService.frame_buildMessage bytes
  | decrypt bytes => exact MlsService.frame_decryptApplicationOnly bytes
  | mint h => exact MlsService.frame_createCommitCandidate _
  | delete => exact MlsService.frame_delete

/-- A write of the code. -/
inductive Act (src : Sources) : Conversation P → Conversation P → Prop
  /-- A candidate that came in is buffered, stashed or refused. -/
  | candidate (c : Conversation P) {m : CommitCandidate} (h : src.candidate m) :
      Act src c { c with queues := (receiveCommitCandidate P c.queues c.mls m).2 }
  | replayed (c : Conversation P) :
      Act src c { c with queues := DeMls.replayEarlyCandidates P c.queues c.mls }
  /-- Our own candidate is offered to the round. -/
  | minted (c : Conversation P) {m : CommitCandidate} {welcome : Option Bytes} {joiners : List Bytes}
      (h : m.stewardMemberId = c.selfMemberId) :
      Act src c { c with queues := { c.queues with commitRound :=
        (c.queues.commitRound.add P m true welcome joiners c.epoch c.members.length).2 } }
  | roundCleared (c : Conversation P) :
      Act src c { c with queues := { c.queues with commitRound := c.queues.commitRound.clear } }
  /-- A welcome that came in is remembered. -/
  | welcomed (c : Conversation P) (hash : CommitHash) :
      Act src c { c with queues := (c.queues.recordWelcomeBroadcast hash).2 }
  /-- The first outcome of a proposal is handed to the queues. -/
  | handed (c : Conversation P) {event : ConsensusEvent} {request : ConversationUpdateRequest}
      (h : c.resolved event.fields.1 = some request)
      (happroved : event.fields.2.1 = true → src.approved request) :
      Act src c { c with queues := (c.applied event request).2 }
  /-- Any other write to the queues: votes, emergencies, buffered updates, the delta of a commit. -/
  | queues (c : Conversation P) {q : ConversationQueues} (hwork : q.roundWork = c.queues.roundWork)
      (hwindows : q.windows = c.queues.windows) : Act src c { c with queues := q }
  | round (c : Conversation P) {allowSubset : Bool} {r : CommitRoundResult P.mls} {t : RoundState P}
      (hcommits : src.commits)
      (h : DeMls.finalizeCommitRound c.stewardList c.isInRecoveryMode allowSubset c.selfMemberId
        c.roundState = .ok r t) : Act src c (roundPart.set t c)
  | roundFailed (c : Conversation P) {allowSubset : Bool} {e : ConversationError} {t : RoundState P}
      (h : DeMls.finalizeCommitRound c.stewardList c.isInRecoveryMode allowSubset c.selfMemberId
        c.roundState = .error e t) : Act src c (roundPart.set t c)
  /-- The secrets of the group. -/
  | secrets (c : Conversation P) {α : Type} {x : EStateM MlsError (MlsService P.mls) α}
      (h : Engine src c x) : Act src c { c with mls := after x c.mls }
  /-- The creator's first commit. -/
  | genesis (c : Conversation P) (hfresh : c.Fresh) {u : MlsCommitInput} (hfounder : src.founder u) :
      Act src c { c with mls := after MlsService.mergeOwnCommit c.mls }
  | scoring (c : Conversation P) (s : PeerScoringService P.scores) :
      Act src c { c with scoring := s }
  | answered (c : Conversation P) (st : P.consensus.State) (outs : List ConsensusEvent) :
      Act src c (c.answered st outs)
  | outcomes (c : Conversation P) (l : List ConsensusEvent) : Act src c { c with outcomes := l }
  | phase (c : Conversation P) (state : ConversationState) (t : Timing) (h : src.phases) :
      Act src c { c with state := state, timing := t }
  | timers (c : Conversation P) (t : Timing) : Act src c { c with timing := t }
  | mode (c : Conversation P) (mode : OperatingMode) (rounds : Nat) :
      Act src c { c with operatingMode := mode, recoveryRounds := rounds }
  /-- A list is installed over a pool that repeats nobody if the roster does not. -/
  | installed (c : Conversation P) {epoch sn round : Nat} {pool : List Bytes} {l : StewardListService}
      (hpool : c.members.Nodup → pool.Nodup)
      (h : c.stewardList.installList P epoch pool sn round = .ok l) :
      Act src c { c with stewardList := l }
  /-- An election attempt is counted, or the list is configured. -/
  | configured (c : Conversation P) {l : StewardListService} (hlist : l.list = c.stewardList.list)
      (hid : l.conversationId = c.stewardList.conversationId)
      (hconfig : l.config = c.stewardList.config ∨ l.config.Valid) :
      Act src c { c with stewardList := l }
  | config (c : Conversation P) (config : ConversationConfig) : Act src c { c with config := config }
  | event (c : Conversation P) (event : ConversationEvent) (h : event.isNote = true) :
      Act src c { c with pendingEvents := c.pendingEvents ++ [event] }
  | told (c : Conversation P) (state : ConversationState) (h : src.phases) :
      Act src c { c with pendingEvents := c.pendingEvents ++ [.phaseChange state] }
  | turnover (c : Conversation P) (added : List Member) (removed : List MemberId) (h : src.commits) :
      Act src c { c with pendingEvents := c.pendingEvents ++ [.membersChanged added removed] }
  /-- A message is handed to the integrator. -/
  | delivered (c : Conversation P) {message : AppMessage} {sender : Member}
      (h : src.message message sender) (hchat : message.isChat = true) :
      Act src c { c with
        pendingEvents := c.pendingEvents ++ [.conversationMessage message sender] }
  | put (c : Conversation P) {payload : Bytes} (h : c.Puts src payload) :
      Act src c { c with
        pendingOutbound := c.pendingOutbound ++ [⟨c.conversationId, c.appId, payload⟩] }
  | drainedEvents (c : Conversation P) (h : src.drains) : Act src c { c with pendingEvents := [] }
  | drainedOutbound (c : Conversation P) : Act src c { c with pendingOutbound := [] }
  | clock (c : Conversation P) (now : Nat) : Act src c { c with now := now }

/-- The request that an outcome approves. -/
def approval (c : Conversation P) (event : ConsensusEvent) : Option ConversationUpdateRequest :=
  if event.fields.2.1 then c.resolved event.fields.1 else none

/-- The requests that the outcomes of a tick approve, one after the other. -/
def approvals : Nat → Conversation P → List ConversationUpdateRequest
  | 0, _ => []
  | fuel + 1, c =>
    match c.outcomes with
    | [] => []
    | event :: rest =>
      let d : Conversation P := { c with outcomes := rest }
      (d.approval event).toList ++ approvals fuel (after (handleConsensusOutcome event) d)

/-- Whose conversation it is. -/
def identity (c : Conversation P) : Bytes × Bytes × Bytes :=
  (c.conversationId, c.appId, c.selfMemberId)

namespace Act

/-- No act changes whose conversation it is. -/
theorem identity {c d : Conversation P} (h : Act src c d) : d.identity = c.identity := by
  cases h <;> rfl

theorem path_identity {c d : Conversation P} (h : ReflTransGen (Act src) c d) :
    d.identity = c.identity :=
  path_keeps (ReflTransGen.mono (fun _ _ => Act.identity) _ _ h)

/-! ## Parts of the state -/

/-- A run on the group writes the group. -/
theorem after_onMls (x : EStateM MlsError (MlsService P.mls) α) (c : Conversation P) :
    after (Conversation.onMls x : ConvM P α) c = { c with mls := after x c.mls } := by
  unfold Conversation.onMls
  cases hrun : x c.mls with
  | ok a m =>
    rw [after_of_ok ((zoom_ok _ _ _ _ _ _).mpr ⟨m, hrun, rfl⟩), after_of_ok hrun]
    rfl
  | error e m =>
    rw [after_of_error ((zoom_error _ _ _ _ _ _).mpr ⟨e, m, hrun, rfl, rfl⟩), after_of_error hrun]
    rfl

theorem onMls {x : EStateM MlsError (MlsService P.mls) α} {c : Conversation P}
    (h : Engine src c x) :
    ReflTransGen (Act src) c (after (Conversation.onMls x : ConvM P α) c) := by
  rw [after_onMls]
  exact .single (.secrets c h)

theorem runs {x : EStateM MlsError (MlsService P.mls) α} (h : ∀ c : Conversation P, Engine src c x) :
    Along (Act src) (Conversation.onMls x : ConvM P α) :=
  fun c => onMls (h c)

theorem onScoring (x : PeerScoringService.ScoringM P.scores α) :
    Along (Act src) (onScoring x : ConvM P α) := by
  refine along_step fun c => ?_
  unfold after Conversation.onScoring zoom
  cases x (scoringPart.get c) <;> exact .scoring c _

theorem onConsensus
    (f : P.consensus.State → Except ConsensusError α × P.consensus.State × List ConsensusEvent) :
    Along (Act src) (onConsensus f : ConvM P α) := by
  refine along_step fun c => ?_
  rcases hf : f c.consensus with ⟨_ | _, st, outs⟩
  · rw [after_of_error (onConsensus_error hf)]
    exact .answered c st outs
  · rw [after_of_ok (onConsensus_ok hf)]
    exact .answered c st outs

theorem modifyQueues {f : ConversationQueues → ConversationQueues}
    (hwork : ∀ q, (f q).roundWork = q.roundWork) (hwindows : ∀ q, (f q).windows = q.windows) :
    Along (Act src) (modifyQueues f : ConvM P Unit) :=
  along_step fun c => .queues c (hwork _) (hwindows _)

theorem modifyTiming (f : Timing → Timing) : Along (Act src) (modifyTiming f : ConvM P Unit) :=
  along_step fun c => .timers c _

theorem emitEvent {event : ConversationEvent} (h : event.isNote = true) :
    Along (Act src) (emitEvent event : ConvM P Unit) :=
  along_step fun c => .event c event h

theorem emitScoreChanges (changes : List ScoreChange) :
    Along (Act src) (emitScoreChanges changes : ConvM P Unit) := by
  induction changes with
  | nil => exact along_pure _
  | cons change rest ih => exact along_bind (emitEvent rfl) fun _ => ih

theorem applyScoreOps (ops : List ScoreOp) :
    Along (Act src) (applyScoreOps ops : ConvM P Unit) :=
  along_bind (onScoring _) fun _ => emitScoreChanges _

theorem deadlines (proposalId : ProposalId) (delay : Nat) (vote : Bool) :
    Along (Act src) (registerAutoVote proposalId delay vote : ConvM P Unit) ∧
    Along (Act src) (registerConsensusTimeout proposalId delay : ConvM P Unit) ∧
    Along (Act src) (cancelAutoVote proposalId : ConvM P Unit) ∧
    Along (Act src) (unregisterConsensusTimeout proposalId : ConvM P Unit) :=
  ⟨along_step fun c => .timers c _, along_step fun c => .timers c _, modifyTiming _,
    modifyTiming _⟩

/-! ## Phases and modes -/

theorem startWorking (h : src.phases) : Along (Act src) (startWorking : ConvM P _) :=
  along_step fun c => .phase c .working _ h

theorem startReelection (h : src.phases) : Along (Act src) (startReelection : ConvM P _) :=
  along_step fun c => .phase c .reelection _ h

theorem startSelection (h : src.phases) : Along (Act src) (startSelection : ConvM P _) :=
  along_step fun c => .phase c .selection c.timing h

theorem startFreezing (h : src.phases) : Along (Act src) (startFreezing : ConvM P _) :=
  along_bind along_get fun _ =>
    along_ite (along_bind (along_step fun c => .phase c .freezing _ h) fun _ => along_pure _)
      (along_pure _)

theorem reopenRecoveryWindow (h : src.phases) :
    Along (Act src) (reopenRecoveryWindow : ConvM P _) :=
  along_bind along_get fun _ =>
    along_ite (along_bind (along_step fun c => .phase c .freezing _ h) fun _ => along_pure _)
      (along_pure _)

theorem tellPhase (h : src.phases) (state : ConversationState) :
    Along (Act src) (Conversation.emitEvent (.phaseChange state) : ConvM P Unit) :=
  along_step fun c => .told c state h

theorem emitPhaseChange (h : src.phases) (transition : Option ConversationState) :
    Along (Act src) (emitPhaseChange transition : ConvM P Unit) := by
  cases transition with
  | none => exact along_pure _
  | some state => exact tellPhase h state

theorem modes : Along (Act src) (enterRecoveryMode : ConvM P Unit) ∧
    Along (Act src) (exitRecoveryMode : ConvM P Unit) :=
  ⟨along_step fun c => .mode c .recovery 0, along_step fun c => .mode c .normal c.recoveryRounds⟩

/-! ## What is put out -/

/-- What is sealed is put out over the same group. -/
theorem sealed (message : AppMessage) {f : Bytes → ConvM P α}
    (hf : ∀ payload c, SealedIn c.mls message payload →
      ReflTransGen (Act src) c (after (f payload) c)) :
    Along (Act src) (do
      let payload ← Conversation.onMls (MlsService.buildMessage (P.codec.encodeApp message))
      f payload) := by
  intro c
  refine path_bind_ok (onMls (.buildMessage _)) fun payload d hrun => ?_
  obtain ⟨m, hm, rfl⟩ := (zoom_ok _ _ _ _ _ _).mp hrun
  exact hf payload _ ⟨c.mls, m, ((MlsService.frame_buildMessage _).ok hm).symm, hm⟩

/-- What the local member says to the others. -/
theorem sendChat {message : AppMessage} (h : src.chat message) :
    Along (Act src) (sendApp message : ConvM P Unit) :=
  sealed message fun _ c hsealed => .single (.put c (.sealed ⟨message, hsealed, fun _ => h⟩))

theorem sendApp {message : AppMessage} (h : message.isChat = false) :
    Along (Act src) (sendApp message : ConvM P Unit) :=
  sealed message fun _ c hsealed =>
    .single (.put c (.sealed ⟨message, hsealed, fun hchat => nomatch h.symm.trans hchat⟩))

/-! ## Candidates -/

/-- What a batch packs is asked for by one of its requests. -/
theorem inputOf_of_packed {O : OpenMls} {g : MlsGroup O.Secrets} {urgentTarget : Option Bytes}
    {reqs : List ConversationUpdateRequest} {updates : List MlsCommitInput} {joiners : List Bytes}
    (h : packUpdates O g urgentTarget reqs = .ok (updates, joiners)) :
    ∀ u ∈ updates, ∃ request ∈ reqs, inputOf request = some u := by
  induction reqs generalizing updates joiners with
  | nil =>
    cases h
    intro u hu
    cases hu
  | cons request rest ih =>
    have hrest : ∀ {updates joiners}, packUpdates O g urgentTarget rest = .ok (updates, joiners) →
        ∀ u ∈ updates, ∃ r ∈ request :: rest, inputOf r = some u := by
      intro updates joiners h u hu
      obtain ⟨r, hr, hinput⟩ := ih h u hu
      exact ⟨r, List.mem_cons_of_mem _ hr, hinput⟩
    have hpacked : ∀ {v more others}, inputOf request = some v →
        packUpdates O g urgentTarget rest = .ok (more, others) →
        ∀ u ∈ v :: more, ∃ r ∈ request :: rest, inputOf r = some u := by
      intro v more others hv hmore u hu
      rcases List.mem_cons.mp hu with rfl | hu
      · exact ⟨request, List.mem_cons_self, hv⟩
      · exact hrest hmore u hu
    unfold packUpdates at h
    split at h
    · rename_i kp hpayload
      split_ifs at h with hurgent
      · exact hrest h
      · split at h
        · cases h
        · split_ifs at h
          · exact hrest h
          · split at h
            · cases h
            · rename_i hmore
              cases h
              exact hpacked (by rw [inputOf, hpayload]) hmore
    · rename_i memberId hpayload
      split_ifs at h
      · exact hrest h
      · split at h
        · cases h
        · rename_i hmore
          cases h
          exact hpacked (by rw [inputOf, hpayload]) hmore
      · exact hrest h
    · cases h

/-- Our own candidate is labelled with our own id. -/
theorem localCandidate (c : Conversation P) :
    ReflTransGen (Act src) c (after (localCandidate c.selfMemberId) c) := by
  unfold Conversation.localCandidate
  refine path_get_bind (path_ite (fun _ => along_throw _ c) fun _ => ?_)
  refine path_ite (fun _ => along_throw _ c) fun _ => path_ite (fun _ => along_pure _ c) fun _ => ?_
  refine path_ite (fun _ => along_throw _ c) fun _ => ?_
  refine path_ofResult_bind fun ⟨updates, joiners⟩ hpacked => ?_
  refine path_ite (fun _ => along_pure _ c) fun _ => ?_
  refine path_bind_ok (onMls (.mint fun u hu => .inr ?_)) fun artifacts d hmint => ?_
  · obtain ⟨request, hrequest, hinput⟩ := inputOf_of_packed hpacked u hu
    exact ⟨request, List.mem_of_mem_take hrequest, hinput⟩
  obtain ⟨m, -, rfl⟩ := (zoom_ok _ _ _ _ _ _).mp hmint
  exact path_modify_bind (.minted _ rfl) (along_pure _)

theorem mintAndBroadcastCandidate :
    Along (Act src) (mintAndBroadcastCandidate : ConvM P Bool) := by
  intro c
  refine path_get_bind (path_bind_ok ?_ fun o d hbuild => ?_)
  · refine path_bind_ok (localCandidate c) fun o d _ => ?_
    cases o <;> exact along_pure _ d
  · cases o with
    | none => exact along_pure _ d
    | some payload =>
      unfold buildLocalCandidate at hbuild
      obtain ⟨o, e, hlocal, hbuild⟩ := (bind_ok _ _ _ _ _).mp hbuild
      cases o with
      | none => cases ((pure_ok _ _ _ _).mp hbuild).1
      | some candidate =>
        obtain ⟨hpayload, rfl⟩ := (pure_ok _ _ _ _).mp hbuild
        cases hpayload
        obtain ⟨_, _, _, _, _, _, _, rfl, _⟩ := localCandidate_some hlocal
        have hpath := @localCandidate P src c
        rw [after_of_ok hlocal] at hpath
        have hself : e.selfMemberId = c.selfMemberId := congrArg (fun i => i.2.2) (path_identity hpath)
        exact path_modify_bind (.put e (.minted hself.symm)) (along_pure _)

theorem onFreezeEntered (h : src.phases) (event : ConversationState) :
    Along (Act src) (onFreezeEntered event : ConvM P Unit) := by
  unfold Conversation.onFreezeEntered
  refine along_bind along_get fun c => along_ite ?_ (tellPhase h _)
  refine along_bind (along_attempt mintAndBroadcastCandidate) fun o => ?_
  cases o with
  | ok _ => exact tellPhase h _
  | error e => exact along_bind (emitEvent rfl) fun _ => tellPhase h _

theorem commitInRecovery : Along (Act src) (commitInRecovery : ConvM P Bool) :=
  along_bind along_get fun _ => along_ite (along_throw _) mintAndBroadcastCandidate

theorem resendCommit : Along (Act src) (resendCommit : ConvM P Bool) := by
  intro c
  refine path_get_bind ?_
  unfold CommitRoundBuffer.localCandidateBytes
  cases hown : c.queues.commitRound.candidates.find? (·.isLocalCandidate) with
  | none => exact along_pure _ c
  | some b =>
    have hlocal : b.isLocalCandidate = true := by simpa using List.find?_some hown
    exact path_modify_bind (.put c (.resent (List.mem_of_find?_eq_some hown) hlocal)) (along_pure _)

theorem maybeAutoCommitRecovery : Along (Act src) (maybeAutoCommitRecovery : ConvM P Unit) := by
  unfold Conversation.maybeAutoCommitRecovery
  refine along_bind along_get fun c => ?_
  split
  · exact along_pure _
  · exact along_ite (along_pure _) (along_attempted mintAndBroadcastCandidate)

/-! ## Proposals and votes -/

/-- The gate of a local proposal writes nothing. -/
theorem checkProposalAllowed (kind : ProposalKind) :
    Along (Act src) (checkProposalAllowed kind : ConvM P Nat) := by
  unfold Conversation.checkProposalAllowed
  refine along_bind along_get fun c => ?_
  split
  · exact along_ite (along_throw _) (along_ite (along_throw _) (along_pure _))
  · exact along_throw _
  · exact along_throw _
  · exact along_ite (along_throw _) (along_pure _)

theorem roundWork_track (O : OpenMls) (q : ConversationQueues) (id : ProposalId)
    (request : ConversationUpdateRequest) :
    (q.trackVotingProposal O id request).roundWork = q.roundWork ∧
      (q.trackVotingProposal O id request).windows = q.windows := by
  unfold ConversationQueues.trackVotingProposal
  split_ifs <;> exact ⟨rfl, rfl⟩

theorem roundWork_insertPendingUpdate (O : OpenMls) (q : ConversationQueues)
    (request : ConversationUpdateRequest) (epoch : Nat) :
    (q.insertPendingUpdate O request epoch).roundWork = q.roundWork ∧
      (q.insertPendingUpdate O request epoch).windows = q.windows := by
  unfold ConversationQueues.insertPendingUpdate
  cases targetMemberIdOf O request with
  | none => exact ⟨rfl, rfl⟩
  | some key =>
    dsimp only
    split_ifs <;> exact ⟨rfl, rfl⟩

theorem submitProposal_notChat {request : ConversationUpdateRequest} {voters : Nat}
    {c d : Conversation P} {id : ProposalId} {message : AppMessage}
    (h : submitProposal request voters c = .ok (id, message) d) : message.isChat = false := by
  unfold submitProposal at h
  obtain ⟨_, _, _, h⟩ := (bind_ok _ _ _ _ _).mp h
  obtain ⟨proposal, _, _, h⟩ := (bind_ok _ _ _ _ _).mp h
  cases ((pure_ok _ _ _ _).mp h).1
  rfl

theorem submitSelfLeaveProposal_notChat {c d : Conversation P} {id : ProposalId}
    {message : AppMessage} (h : submitSelfLeaveProposal c = .ok (some (id, message)) d) :
    message.isChat = false := by
  unfold submitSelfLeaveProposal at h
  obtain ⟨_, _, _, h⟩ := (bind_ok _ _ _ _ _).mp h
  obtain ⟨_, _, _, h⟩ := (bind_ok _ _ _ _ _).mp h
  obtain ⟨o, _, _, h⟩ := (bind_ok _ _ _ _ _).mp h
  split at h
  · cases ((pure_ok _ _ _ _).mp h).1
    rfl
  · cases ((pure_ok _ _ _ _).mp h).1
  · cases h

theorem initiateProposal (request : ConversationUpdateRequest) (v : CreatorVote) :
    Along (Act src) (initiateProposal request v : ConvM P Unit) := by
  unfold Conversation.initiateProposal
  refine along_bind along_get fun c => along_ite (along_pure _) ?_
  refine along_bind (checkProposalAllowed _) fun voters => ?_
  refine along_bind_ok (along_bind along_get fun _ => along_bind (onConsensus _) fun _ => along_pure _)
    fun _ ⟨id, unbundled⟩ _ hsubmit => ?_
  refine along_bind (modifyQueues (fun q => ?_) fun q => ?_) fun _ => ?_
  · dsimp only
    split_ifs
    · exact (roundWork_track P.mls q id request).1
    · exact (roundWork_track P.mls q id request).1
  · dsimp only
    split_ifs
    · exact (roundWork_track P.mls q id request).2
    · exact (roundWork_track P.mls q id request).2
  refine along_bind (deadlines id _ false).2.1 fun _ => ?_
  cases v with
  | yes =>
    exact along_bind (onConsensus _) fun _ => along_bind (sendApp rfl) fun _ => emitEvent rfl
  | deferred =>
    exact along_bind (sendApp (submitProposal_notChat hsubmit)) fun _ =>
      along_bind (emitEvent rfl) fun _ => (deadlines id _ _).1

theorem broadcastVote (id : ProposalId) (choice : Bool) :
    Along (Act src) (broadcastVote id choice : ConvM P Unit) :=
  along_bind along_get fun _ => along_bind (onConsensus _) fun _ => sendApp rfl

theorem vote (id : ProposalId) (choice : Bool) :
    Along (Act src) (vote id choice : ConvM P Unit) :=
  along_bind along_get fun _ => along_ite (along_throw _)
    (along_bind (modifyTiming _) fun _ => broadcastVote id choice)

theorem forwardIncomingVote (v : Vote) :
    Along (Act src) (forwardIncomingVote v : ConvM P Unit) := by
  unfold Conversation.forwardIncomingVote
  refine along_bind along_get fun c => along_bind (along_attempt (onConsensus _)) fun o => ?_
  split
  · exact along_pure _
  · exact along_pure _
  · exact along_pure _
  · exact along_throw _

theorem resolveOnTimeout (id : ProposalId) :
    Along (Act src) (resolveOnTimeout id : ConvM P Unit) :=
  along_bind along_get fun _ => along_ite (along_pure _) (along_attempted (onConsensus _))

theorem leave : Along (Act src) (leave : ConvM P Unit) := by
  have hsubmit : Along (Act src) (submitSelfLeaveProposal : ConvM P _) := by
    unfold submitSelfLeaveProposal
    refine along_bind along_get fun c => along_bind (along_ofResult _) fun yes => ?_
    refine along_bind (along_attempt (onConsensus _)) fun o => ?_
    split
    · exact along_pure _
    · exact along_pure _
    · exact along_throw _
  unfold Conversation.leave initiateSelfLeave
  refine along_bind along_get fun c => along_ite (along_pure _) ?_
  refine along_bind (modifyQueues (fun q => (roundWork_track P.mls q _ _).1)
    fun q => (roundWork_track P.mls q _ _).2) fun _ => ?_
  refine along_bind_ok hsubmit fun _ o _ hsubmitted => ?_
  cases o with
  | none => exact along_pure _
  | some x => exact sendApp (submitSelfLeaveProposal_notChat hsubmitted)

/-! ## Steward duties -/

/-- A reconcile installs a list over the settled members. -/
theorem reconcileStewardList : Along (Act src) (reconcileStewardList : ConvM P _) := by
  intro c
  unfold Conversation.reconcileStewardList
  refine path_get_bind (path_ite (fun _ => along_pure _ c) fun _ => ?_)
  refine path_ite (fun _ => along_pure _ c) fun _ => path_ofResult_bind fun l hl => ?_
  refine path_modify_bind (.installed c (fun h => ?_) hl) (along_pure _)
  exact h.filter _

theorem initiateStewardElection (recovery : Bool) :
    Along (Act src) (initiateStewardElection recovery : ConvM P Unit) := by
  unfold Conversation.initiateStewardElection
  refine along_bind along_get fun c => along_ite (along_pure _) ?_
  refine along_bind (along_ofResult _) fun decision => ?_
  cases decision with
  | skip reason => exact along_pure _
  | proposed stewards epoch round => exact initiateProposal _ _

theorem stewardListHousekeeping : Along (Act src) (stewardListHousekeeping : ConvM P Unit) := by
  unfold Conversation.stewardListHousekeeping
  refine along_bind reconcileStewardList fun r => ?_
  cases r with
  | settled => exact along_pure _
  | needsElection => exact along_attempted (initiateStewardElection false)

theorem requestRecovery : Along (Act src) (requestRecovery : ConvM P Unit) :=
  along_bind along_get fun _ => along_ite (along_pure _)
    (along_bind (along_ofResult _) fun _ => initiateProposal _ _)

theorem proposeScoreRemoval (target : Bytes) :
    Along (Act src) (proposeScoreRemoval target : ConvM P Unit) := by
  unfold Conversation.proposeScoreRemoval
  refine along_bind along_get fun c => along_bind (onScoring _) fun o => ?_
  cases o with
  | none => exact along_throw _
  | some score => exact along_bind (along_ofResult _) fun _ => initiateProposal _ _

theorem advanceElectionRetry : Along (Act src) (advanceElectionRetry : ConvM P Unit) := by
  unfold Conversation.advanceElectionRetry
  refine along_bind (along_step fun c => .configured c rfl rfl (.inl rfl)) fun _ => ?_
  refine along_bind along_get fun c => along_ite (along_ite ?_ (along_pure _)) ?_
  · refine along_bind (along_attempt requestRecovery) fun o => ?_
    cases o with
    | ok _ => exact along_pure _
    | error e => exact emitEvent rfl
  · exact along_attempted (initiateStewardElection true)

theorem drainBufferedUpdates : Along (Act src) (drainBufferedUpdates : ConvM P Unit) := by
  have hall : ∀ requests, Along (Act src) (proposeAll requests : ConvM P Unit) := by
    intro requests
    induction requests with
    | nil => exact along_pure _
    | cons request rest ih => exact along_bind (along_attempt (initiateProposal _ _)) fun _ => ih
  exact along_bind along_get fun c => hall _

theorem processBufferedUpdates : Along (Act src) (processBufferedUpdates : ConvM P Unit) :=
  along_bind along_get fun _ => along_ite drainBufferedUpdates (along_pure _)

theorem handleIncomingUpdateRequest (request : ConversationUpdateRequest) :
    Along (Act src) (handleIncomingUpdateRequest request : ConvM P Unit) := by
  unfold Conversation.handleIncomingUpdateRequest
  refine along_bind along_get fun c => along_ite (along_pure _) ?_
  refine along_bind (modifyQueues (fun q => (roundWork_insertPendingUpdate P.mls q _ _).1)
    fun q => (roundWork_insertPendingUpdate P.mls q _ _).2) fun _ => ?_
  exact along_ite (along_attempted (initiateProposal _ _)) (along_pure _)

theorem scored (ids : List Bytes) : Along (Act src) (addScored ids : ConvM P Unit) ∧
    Along (Act src) (removeScored ids : ConvM P Unit) := by
  induction ids with
  | nil => exact ⟨along_pure _, along_pure _⟩
  | cons id rest ih =>
    exact ⟨along_bind (onScoring _) fun _ => ih.1, along_bind (onScoring _) fun _ => ih.2⟩

theorem buildConversationSyncPayload :
    Along (Act src) (buildConversationSyncPayload : ConvM P _) := by
  unfold Conversation.buildConversationSyncPayload
  refine along_bind (onScoring _) fun _ => along_bind along_get fun c => ?_
  cases c.stewardList.list with
  | none => exact along_pure _
  | some list => exact along_bind (runs fun _ => .buildMessage _) fun _ => along_pure _

/-- A sync is sealed for the group it is built in. -/
theorem seals_of_sync {c d : Conversation P} {payload : Bytes}
    (h : Conversation.buildConversationSyncPayload c = .ok (some payload) d) :
    SealsOwn src d payload := by
  unfold Conversation.buildConversationSyncPayload at h
  obtain ⟨_, e, _, h⟩ := (bind_ok _ _ _ _ _).mp h
  rw [bind_run _ (get_apply e)] at h
  cases hlist : e.stewardList.list with
  | none =>
    rw [hlist] at h
    cases ((pure_ok _ _ _ _).mp h).1
  | some list =>
    rw [hlist] at h
    obtain ⟨bytes, _, hbuild, h⟩ := (bind_ok _ _ _ _ _).mp h
    obtain ⟨hpayload, rfl⟩ := (pure_ok _ _ _ _).mp h
    cases hpayload
    obtain ⟨m, hm, rfl⟩ := (zoom_ok _ _ _ _ _ _).mp hbuild
    refine ⟨_, ⟨e.mls, m, ((MlsService.frame_buildMessage _).ok hm).symm, hm⟩, ?_⟩
    exact fun hchat => nomatch hchat

theorem shareConversationSync : Along (Act src) (shareConversationSync : ConvM P Unit) := by
  intro c
  refine path_bind_ok (buildConversationSyncPayload c) fun o d hbuild => ?_
  cases o with
  | none => exact along_pure _ d
  | some payload => exact .single (.put d (.sealed (seals_of_sync hbuild)))

/-- A welcome goes out with the sync built for it, or without one. -/
theorem deliverWelcome {welcome : MemberWelcome} (hempty : welcome.conversationSyncBytes = []) :
    Along (Act src) (deliverWelcome welcome : ConvM P Unit) := by
  have hput : ∀ {w : MemberWelcome} {c : Conversation P},
      w.conversationSyncBytes = [] ∨ SealsOwn src c w.conversationSyncBytes →
      ReflTransGen (Act src) c (after (do
        Conversation.emitEvent (.welcomeReady w true)
        broadcast (P.codec.encodeApp ⟨some (.memberWelcome w)⟩) : ConvM P Unit) c) :=
    fun {w c} h => (ReflTransGen.single (.event c (.welcomeReady w true) rfl)).tail
      (.put { c with pendingEvents := c.pendingEvents ++ [.welcomeReady w true] } (.welcome h))
  intro c
  unfold Conversation.deliverWelcome
  refine path_bind_ok (along_attempt reconcileStewardList c) fun reconciled d _ => ?_
  refine path_bind_ok ?_ fun sync e hsync => ?_
  · cases reconciled with
    | ok _ => exact along_attempt buildConversationSyncPayload d
    | error e => exact along_pure _ d
  · cases sync with
    | error err => exact path_modify_bind (.event _ _ rfl) fun d => hput (.inl hempty)
    | ok bytes =>
      refine hput ?_
      cases bytes with
      | none => exact .inl rfl
      | some payload =>
        cases reconciled with
        | error _ => cases ((pure_ok _ _ _ _).mp hsync).1
        | ok _ =>
          rcases (attempt_ok _ _ _ _).mp hsync with ⟨o, ho, hbuild⟩ | ⟨err, ho, _⟩
          · cases ho
            exact .inr (seals_of_sync hbuild)
          · cases ho

/-! ## Packets -/

/-- The candidate a packet holds is the one that is taken in. -/
theorem decodeInbound {payload : Bytes}
    (h : ∀ m, P.codec.decodeApp payload = .ok ⟨some (.commitCandidate m)⟩ → src.candidate m) :
    Along (Act src) (decodeInbound payload : ConvM P _) := by
  intro c
  unfold Conversation.decodeInbound
  refine path_get_bind ?_
  split
  · rename_i m hdecode
    exact path_modify_bind (.candidate c (h m hdecode)) (along_pure _)
  · refine path_ite (fun _ => along_pure _ c) fun _ => path_modify_bind (.welcomed c _) ?_
    exact along_ite (along_pure _) (along_pure _)
  · refine along_bind (runs fun _ => .decrypt _) (fun o => ?_) c
    cases o with
    | none => exact along_pure _
    | some d =>
      exact along_bind (along_ofResult _) fun _ => along_bind along_get fun _ => along_pure _

theorem receiveCommitCandidate_notChat (q : ConversationQueues) (mls : MlsService P.mls)
    (m : CommitCandidate) (message : AppMessage) (member : Member) :
    (receiveCommitCandidate P q mls m).1 ≠ .appMessage message member := by
  unfold receiveCommitCandidate
  dsimp only
  split_ifs
  · simp
  · simp
  · simp
  · simp
  · unfold CommitBufferOutcome.intoProcessResult
    split <;> simp
  · simp

theorem classifyAppMessage_chat {mls : MlsService P.mls} {read message : AppMessage}
    {member member' : Member}
    (h : classifyAppMessage mls read member = .appMessage message member') :
    message = read ∧ member' = member ∧ read.isChat = true := by
  obtain ⟨payload⟩ := read
  unfold classifyAppMessage ProcessResult.ofAppMessage at h
  split at h
  · split_ifs at h
    simp_all
  · cases h
  · split_ifs at h
    simp_all
  · rename_i hpayload
    cases h
    rw [AppMessage.isChat, hpayload]
    exact ⟨rfl, rfl, rfl⟩
  · rename_i hpayload
    cases h
    rw [AppMessage.isChat, hpayload]
    exact ⟨rfl, rfl, rfl⟩
  · split at h <;> cases h

/-- A chat message that comes out of a packet is one the packet opens to. -/
theorem opens_of_decodeInbound {payload : Bytes} {c d : Conversation P} {message : AppMessage}
    {member : Member}
    (h : Conversation.decodeInbound payload c = .ok (.appMessage message member) d) :
    c.Opens payload message member ∧ message.isChat = true := by
  cases hplain : isPlaintext P payload with
  | true =>
    unfold Conversation.decodeInbound at h
    rw [bind_run _ (get_apply c)] at h
    unfold isPlaintext at hplain
    split at hplain
    · rename_i candidate hdecode
      rw [hdecode] at h
      dsimp only at h
      obtain ⟨_, _, _, h⟩ := (bind_ok _ _ _ _ _).mp h
      exact absurd ((pure_ok _ _ _ _).mp h).1 (receiveCommitCandidate_notChat _ _ _ _ _)
    · rename_i welcome hdecode
      rw [hdecode] at h
      dsimp only at h
      split_ifs at h
      · cases ((pure_ok _ _ _ _).mp h).1
      · obtain ⟨_, _, _, h⟩ := (bind_ok _ _ _ _ _).mp h
        cases ((pure_ok _ _ _ _).mp h).1
      · obtain ⟨_, _, _, h⟩ := (bind_ok _ _ _ _ _).mp h
        cases ((pure_ok _ _ _ _).mp h).1
    · cases hplain
  | false =>
    rw [decodeInbound_of_ciphertext hplain] at h
    unfold decodeEncrypted at h
    obtain ⟨decrypted, e, hdecrypt, h⟩ := (bind_ok _ _ _ _ _).mp h
    obtain ⟨mls, hmls, rfl⟩ := (zoom_ok _ _ _ _ _ _).mp hdecrypt
    cases decrypted with
    | none => cases ((pure_ok _ _ _ _).mp h).1
    | some decrypted =>
      obtain ⟨read, _, hread, h⟩ := (bind_ok _ _ _ _ _).mp h
      rw [bind_run _ (get_apply _)] at h
      obtain ⟨rfl, rfl, hchat⟩ := classifyAppMessage_chat ((pure_ok _ _ _ _).mp h).1
      refine ⟨⟨hplain, decrypted.payload, mls, hmls, ?_⟩, hchat⟩
      cases hdecode : P.codec.decodeApp decrypted.payload with
      | error err => simp [hdecode, Except.mapError] at hread
      | ok m =>
        rw [hdecode] at hread
        cases ((ofResult_ok _ _ _ _).mp hread).1
        rfl

theorem roundWork_mirrorProposal (O : OpenMls) (id : ProposalId) (epoch : Nat)
    (request : ConversationUpdateRequest) (q : ConversationQueues) :
    (mirrorProposal O id epoch request q).roundWork = q.roundWork ∧
      (mirrorProposal O id epoch request q).windows = q.windows := by
  obtain ⟨htrack, htrack'⟩ := roundWork_track O q id request
  obtain ⟨hbuffer, hbuffer'⟩ :=
    roundWork_insertPendingUpdate O (q.trackVotingProposal O id request) request epoch
  unfold mirrorProposal
  dsimp only
  split
  · exact ⟨htrack, htrack'⟩
  · exact ⟨hbuffer.trans htrack, hbuffer'.trans htrack'⟩
  · exact ⟨hbuffer.trans htrack, hbuffer'.trans htrack'⟩
  · exact ⟨htrack, htrack'⟩

theorem onIncomingProposal (proposal : Proposal) :
    Along (Act src) (onIncomingProposal proposal : ConvM P Unit) := by
  unfold Conversation.onIncomingProposal
  refine along_bind along_get fun c => along_ite (along_pure _) ?_
  refine along_bind (along_attempt (onConsensus _)) fun o => ?_
  cases o with
  | error e =>
    exact along_ite (along_bind (emitEvent rfl) fun _ => along_throw _) (along_throw _)
  | ok _ =>
    refine along_bind ?_ fun _ => along_ite ?_ (along_pure _)
    · split
      · exact modifyQueues (fun q => (roundWork_mirrorProposal _ _ _ _ q).1)
          fun q => (roundWork_mirrorProposal _ _ _ _ q).2
      · exact along_pure _
    · refine along_bind ?_ fun _ => (deadlines _ _ false).2.1
      unfold scheduleVote
      refine along_bind along_get fun d => ?_
      split
      · exact along_bind (along_ofResult _) fun _ => (deadlines _ _ _).1
      · exact along_bind (emitEvent rfl) fun _ => (deadlines _ _ _).1
      · exact (deadlines _ _ _).1

theorem reconcileMembershipAfterCommit (hcommits : src.commits) :
    Along (Act src) (reconcileMembershipAfterCommit : ConvM P Unit) := by
  unfold Conversation.reconcileMembershipAfterCommit
  refine along_bind along_get fun c => along_bind (modifyQueues (fun _ => rfl) fun _ => rfl) fun _ => ?_
  refine along_bind (scored _).2 fun _ => along_bind (scored _).1 fun _ => ?_
  refine along_bind (modifyQueues (fun _ => rfl) fun _ => rfl) fun _ => ?_
  exact along_ite (along_step fun c => .turnover c _ _ hcommits) (along_pure _)

theorem onConversationUpdated (h : src.phases) (hcommits : src.commits) :
    Along (Act src) (onConversationUpdated : ConvM P Unit) := by
  have hclose : Along (Act src) (maybeCloseRecoveryWindow : ConvM P Unit) :=
    along_bind along_get fun _ =>
      along_ite (along_attempted (initiateStewardElection true)) (along_pure _)
  unfold Conversation.onConversationUpdated
  refine along_bind (fun c => ?_) fun _ => along_bind (startWorking h) fun _ => ?_
  · refine .head (.configured c (l := c.stewardList.resetRetry) rfl rfl (.inl rfl)) ?_
    exact .single (.timers _ { c.timing with reelectionRecovered := false })
  · refine along_bind (tellPhase h _) fun _ => ?_
    refine along_bind (reconcileMembershipAfterCommit hcommits) fun _ => ?_
    exact along_bind stewardListHousekeeping fun _ => along_bind processBufferedUpdates fun _ => hclose

theorem onCommitCandidateReceived (h : src.phases) :
    Along (Act src) (onCommitCandidateReceived : ConvM P Unit) := by
  unfold Conversation.onCommitCandidateReceived
  refine along_bind along_get fun c => along_ite (along_pure _) ?_
  refine along_bind (startFreezing h) fun o => ?_
  cases o with
  | none => exact along_pure _
  | some event => exact onFreezeEntered h event

/-! ## Syncs -/

/-- An ordering that passes is the one its pool elects, so it repeats nobody if the pool does not. -/
theorem nodup_of_validated {proposed pool : List Bytes} {epoch round : Nat} {cid : Bytes}
    {config : StewardListConfig}
    (h : StewardList.validate P proposed epoch cid pool config round = .ok true) (hpool : pool.Nodup) :
    proposed.Nodup := by
  obtain ⟨-, rfl⟩ := StewardList.validate_iff.mp h
  exact ((Selection.sortBy_perm _ _).nodup_iff.mpr hpool).sublist (List.take_sublist _ _)

/-- A sync that passed its checks configures the list and installs one. -/
theorem applyConversationSyncToEntry {sync : ConversationSync} {c : Conversation P}
    (hvalid : validateConversationSync P c.conversationId sync c.epoch c.members = .ok true) :
    ReflTransGen (Act src) c (after (applyConversationSyncToEntry sync) c) := by
  obtain ⟨-, hconfig, -, hsound⟩ := validateConversationSync_iff.mp hvalid
  unfold Conversation.applyConversationSyncToEntry
  refine path_ofResult_bind fun base hbase => ?_
  obtain ⟨-, rfl⟩ := StewardListConfig.new_ok.mp hbase
  refine path_bind_ok (.single (.configured c rfl rfl (.inr hconfig))) fun _ d hd => ?_
  rw [modify_apply] at hd
  cases hd
  refine path_get_bind (path_ofResult_bind fun l hl => path_bind_ok ?_ fun _ d _ => ?_)
  · refine .head (.installed _ (fun hmembers => ?_) hl) (.single (.configured _ rfl rfl (.inl rfl)))
    rw [hsound.elected]
    exact ((Selection.sortBy_perm _ _).nodup_iff.mpr (hmembers.filter _)).sublist
      (List.take_sublist _ _)
  · refine along_bind (onScoring _) (fun _ => along_bind (onScoring _) fun _ => ?_) d
    refine along_bind (along_bind (onScoring _) fun _ => emitScoreChanges _) fun _ => ?_
    exact along_step fun c => .config c _

theorem onConversationSync (sync : ConversationSync) :
    Along (Act src) (onConversationSync sync : ConvM P Unit) := by
  intro c
  unfold Conversation.onConversationSync
  refine path_bind_ok (modifyTiming _ c) fun _ d _ => path_get_bind ?_
  refine path_ite (fun _ => along_pure _ d) fun _ => path_ofResult_bind fun valid hvalid => ?_
  refine path_ite (fun _ => along_pure _ d) fun h => ?_
  rw [Bool.not_eq_true, Bool.not_eq_false'] at h
  subst h
  exact path_bind_ok (applyConversationSyncToEntry hvalid) fun _ e _ => emitEvent rfl e

theorem onConversationSyncRequest :
    Along (Act src) (onConversationSyncRequest : ConvM P Unit) :=
  along_bind along_get fun _ => along_ite
    (along_bind (modifyTiming _) fun _ => shareConversationSync)
    (along_ite (modifyTiming _) (along_pure _))

theorem prepareSelfLeave : Along (Act src) (prepareSelfLeave : ConvM P Unit) :=
  along_bind (emitEvent rfl) fun _ => along_bind (modifyTiming _) fun _ =>
    along_attempted (runs fun _ => .delete)

/-- Only a chat message that came in is handed to the integrator. -/
theorem dispatchInboundResult {result : ProcessResult} (h : src.phases)
    (hcommits : result = .conversationUpdated → src.commits)
    (hchat : ∀ message sender, result = .appMessage message sender →
      src.message message sender ∧ message.isChat = true) :
    Along (Act src) (dispatchInboundResult result : ConvM P _) := by
  have hdone : ∀ {x : ConvM P Unit} {o : DispatchOutcome}, Along (Act src) x →
      Along (Act src) (x >>= fun _ => pure o) := fun h => along_bind h fun _ => along_pure _
  cases result with
  | appMessage message sender =>
    obtain ⟨hmessage, hchat⟩ := hchat message sender rfl
    exact hdone (along_step fun c => .delivered c hmessage hchat)
  | proposal proposal => exact hdone (onIncomingProposal _)
  | vote v => exact hdone (forwardIncomingVote _)
  | membershipChangeReceived request => exact hdone (handleIncomingUpdateRequest _)
  | conversationUpdated => exact hdone (onConversationUpdated h (hcommits rfl))
  | leaveConversation => exact hdone prepareSelfLeave
  | commitCandidateReceived _ => exact hdone (onCommitCandidateReceived h)
  | conversationSyncReceived sync => exact hdone (onConversationSync _)
  | conversationSyncRequested _ => exact hdone onConversationSyncRequest
  | welcomeBroadcastReceived welcome => exact hdone (emitEvent rfl)
  | noop _ => exact along_pure _

theorem processInbound (sender : Bytes) {payload : Bytes} (c : Conversation P) (hphases : src.phases)
    (h : ∀ m, P.codec.decodeApp payload = .ok ⟨some (.commitCandidate m)⟩ → src.candidate m)
    (hchat : ∀ message member, c.Opens payload message member → src.message message member) :
    ReflTransGen (Act src) c (after (processInbound sender payload) c) := by
  refine path_get_bind (path_ite (fun _ => along_pure _ c) fun _ => ?_)
  refine path_bind_ok (decodeInbound h c) fun result d hdecode => ?_
  refine dispatchInboundResult hphases (fun hresult => ?_) (fun message member hresult => ?_) d
  · exact absurd hresult (yields_decodeInbound payload c result d hdecode)
  obtain ⟨hopens, hmessage⟩ := opens_of_decodeInbound (hresult ▸ hdecode)
  exact ⟨hchat message member hopens, hmessage⟩

theorem applyWelcomeSync {syncBytes : Bytes} (c : Conversation P) (hphases : src.phases)
    (h : ∀ m, P.codec.decodeApp syncBytes = .ok ⟨some (.commitCandidate m)⟩ → src.candidate m)
    (hchat : ∀ message member, c.Opens syncBytes message member → src.message message member) :
    ReflTransGen (Act src) c (after (applyWelcomeSync syncBytes) c) := by
  refine path_ite (fun _ => emitEvent rfl c) fun _ => ?_
  refine path_bind_ok (decodeInbound h c) fun result d hdecode => ?_
  refine along_bind (dispatchInboundResult hphases (fun hresult => ?_) fun message member hresult => ?_)
    (fun _ => along_pure _) d
  · exact absurd hresult (yields_decodeInbound syncBytes c result d hdecode)
  obtain ⟨hopens, hmessage⟩ := opens_of_decodeInbound (hresult ▸ hdecode)
  exact ⟨hchat message member hopens, hmessage⟩

/-! ## Outcomes -/

/-- An accepted election installs the list it proposes. -/
theorem handleElectionAccepted (hphases : src.phases) (election : StewardElectionProposal) :
    Along (Act src) (handleElectionAccepted election : ConvM P Unit) := by
  intro c
  unfold Conversation.handleElectionAccepted
  refine path_get_bind (path_ofResult_bind fun valid hvalid => ?_)
  refine path_ite (fun _ => along_pure _ c) fun h => path_ofResult_bind fun l hl => ?_
  rw [Bool.not_eq_true, Bool.not_eq_false'] at h
  subst h
  have hresume : Along (Act src) (resumeFromReelection : ConvM P Unit) :=
    along_bind along_get fun _ => along_ite (along_bind (modifyTiming _) fun _ =>
      along_bind (startWorking hphases) fun _ => emitPhaseChange hphases _) (along_pure _)
  refine path_modify_bind (.installed c (fun hmembers => ?_) hl) ?_
  · exact nodup_of_validated hvalid (hmembers.filter _)
  refine along_bind modes.2 fun _ => along_bind hresume fun _ => along_bind along_get fun d => ?_
  refine along_bind (along_ite (along_attempt shareConversationSync) (along_pure _)) fun _ => ?_
  exact along_bind processBufferedUpdates fun _ => along_ofResult _

theorem handleEmergencyScored (h : src.phases) (id : ProposalId) (ops : List ScoreOp) :
    Along (Act src) (handleEmergencyScored id ops : ConvM P Unit) := by
  unfold Conversation.handleEmergencyScored
  refine along_bind (applyScoreOps _) fun _ => ?_
  refine along_bind (modifyQueues (fun _ => rfl) fun _ => rfl) fun _ => ?_
  refine along_bind along_get fun _ => along_ite ?_ (along_pure _)
  exact along_bind (startWorking h) fun _ => emitPhaseChange h _

theorem followUp (h : src.phases) (o : ConsensusApplyResult) :
    Along (Act src) (followUp o : ConvM P Unit) := by
  have hrefresh : ∀ target, Along (Act src) (refreshStewardsAfterRemoval target : ConvM P Unit) :=
    fun target => along_bind along_get fun _ => along_ite (along_pure _)
      (along_attempted (initiateStewardElection true))
  cases o with
  | noAction => exact along_pure _
  | electionAccepted election => exact handleElectionAccepted h election
  | electionRejected => exact advanceElectionRetry
  | recoveryModeOpened =>
    exact along_bind modes.1 fun _ => along_bind (along_bind (startFreezing h) fun _ =>
      emitPhaseChange h _) fun _ => emitEvent rfl
  | urgentRemoval target =>
    refine along_bind (startFreezing h) fun o => ?_
    cases o with
    | none => exact hrefresh target
    | some event => exact along_bind (onFreezeEntered h event) fun _ => hrefresh target
  | queuedRemoval target => exact hrefresh target
  | rejectedMembership target =>
    exact modifyQueues (f := fun q => q.removePendingUpdate target) (fun _ => rfl) fun _ => rfl

theorem finishOutcome (h : src.phases) (id : ProposalId) (o : ConsensusApplyResult)
    (ops : List ScoreOp) : Along (Act src) (finishOutcome id o ops : ConvM P Unit) := by
  unfold Conversation.finishOutcome
  refine along_bind (along_step fun c => .replayed c) fun _ => along_bind (followUp h o) fun _ => ?_
  exact along_ite (along_bind (handleEmergencyScored h id ops) fun _ => onConsensus _) (onConsensus _)

theorem handleConsensusOutcome (event : ConsensusEvent) (c : Conversation P) (hphases : src.phases)
    (h : ∀ request, c.approval event = some request → src.approved request) :
    ReflTransGen (Act src) c (after (handleConsensusOutcome event) c) := by
  have hdropped : ReflTransGen (Act src) c (c.dropDeadlines event.fields.1) :=
    .single (.timers c _)
  have hannounced : ReflTransGen (Act src) c (c.announced event) := hdropped.tail (.event _ _ rfl)
  cases hresolved : c.resolved event.fields.1 with
  | none =>
    rcases after_handleConsensusOutcome_unresolved hresolved with h | h
    · rw [h]
      exact hdropped
    · rw [h]
      exact hannounced
  | some request =>
    rw [after_handleConsensusOutcome_resolved hresolved]
    have hhanded : Act src (c.announced event) (c.handed event request) := by
      refine .handed (c.announced event) hresolved fun hyes => h request ?_
      rw [approval, if_pos hyes, hresolved]
    exact (hannounced.tail hhanded).trans (finishOutcome hphases _ _ _ _)

theorem drainOutcomes (fuel : Nat) (c : Conversation P) (hphases : src.phases)
    (h : ∀ request ∈ approvals fuel c, src.approved request) :
    ReflTransGen (Act src) c (after (drainOutcomes fuel) c) := by
  induction fuel generalizing c with
  | zero => exact .refl
  | succ fuel ih =>
    unfold Conversation.drainOutcomes
    rw [after_bind_ok _ (get_apply c)]
    unfold approvals at h
    cases houtcomes : c.outcomes with
    | nil => exact .refl
    | cons event rest =>
      rw [houtcomes] at h
      obtain ⟨hfirst, hrest⟩ := List.forall_mem_append.mp h
      dsimp only
      rw [after_bind_ok _ (modify_apply _ _), after_attempted]
      refine .head (.outcomes c rest)
        (.trans (handleConsensusOutcome event _ hphases fun request hr => ?_) (ih _ hrest))
      exact hfirst request (Option.mem_toList.mpr hr)

/-- The deadlines that are due. -/
theorem fireDeadlines : Along (Act src) (tickDeadlines 0 : ConvM P Unit) := by
  have hcast : ∀ due, Along (Act src) (castAll due : ConvM P Unit) := by
    intro due
    induction due with
    | nil => exact along_pure _
    | cons e rest ih => exact along_bind (along_attempt (broadcastVote _ _)) fun _ => ih
  have hresolve : ∀ due, Along (Act src) (resolveAll due : ConvM P Unit) := by
    intro due
    induction due with
    | nil => exact along_pure _
    | cons e rest ih => exact along_bind (resolveOnTimeout _) fun _ => ih
  unfold Conversation.tickDeadlines
  refine along_bind along_get fun c => along_bind (modifyTiming _) fun _ => ?_
  exact along_bind (hcast _) fun _ => along_bind (hresolve _) fun _ => along_pure _

theorem tickDeadlines (fuel : Nat) (c : Conversation P) (hphases : src.phases)
    (h : ∀ request ∈ approvals fuel (after (Conversation.tickDeadlines 0) c), src.approved request) :
    ReflTransGen (Act src) c (after (tickDeadlines fuel) c) := by
  rw [after_tickDeadlines]
  exact (fireDeadlines c).trans (drainOutcomes fuel _ hphases h)

/-! ## The round -/

theorem retryOrExhaustRecovery (h : src.phases) :
    Along (Act src) (retryOrExhaustRecovery : ConvM P DispatchOutcome) := by
  unfold Conversation.retryOrExhaustRecovery
  refine along_bind (along_step fun c => .mode c c.operatingMode _) fun _ => ?_
  refine along_bind along_get fun c => along_ite ?_ ?_
  · exact along_bind modes.2 fun _ => along_bind (startWorking h) fun _ =>
      along_bind (emitEvent rfl) fun _ => along_bind (tellPhase h _) fun _ => along_pure _
  · exact along_bind (reopenRecoveryWindow h) fun _ =>
      along_bind (emitPhaseChange h _) fun _ => along_pure _

theorem recoverFromFinalizeError (h : src.phases) :
    Along (Act src) (recoverFromFinalizeError : ConvM P DispatchOutcome) :=
  along_bind along_get fun _ => along_ite (retryOrExhaustRecovery h)
    (along_bind (startWorking h) fun _ => along_bind (tellPhase h _) fun _ => along_pure _)

theorem applyRoundScores (ops : List ScoreOp) :
    Along (Act src) (applyRoundScores ops : ConvM P Unit) := by
  unfold Conversation.applyRoundScores
  refine along_ite (along_pure _) (along_bind (along_attempt (applyScoreOps _)) fun o => ?_)
  cases o with
  | ok _ => exact along_pure _
  | error e => exact emitEvent rfl

theorem finishNoCandidate (h : src.phases) (hasProposals : Bool) :
    Along (Act src) (finishNoCandidate hasProposals : ConvM P DispatchOutcome) := by
  unfold Conversation.finishNoCandidate
  refine along_ite ?_ ?_
  · refine along_bind (startReelection h) fun _ => along_bind along_get fun c => ?_
    refine along_bind ?_ fun _ => ?_
    · cases c.absentSteward with
      | none => exact along_pure _
      | some id => exact applyScoreOps _
    · exact along_bind (tellPhase h _) fun _ =>
        along_bind (along_attempt (initiateStewardElection true)) fun _ => along_pure _
  · exact along_bind (along_step fun c => .roundCleared c) fun _ =>
      along_bind (startWorking h) fun _ => along_bind (tellPhase h _) fun _ => along_pure _

theorem finishRecoveryRound (h : src.phases) (hasProposals : Bool) :
    Along (Act src) (finishRecoveryRound hasProposals : ConvM P DispatchOutcome) :=
  along_ite (along_bind (along_step fun c => .roundCleared c) fun _ => along_bind modes.2 fun _ =>
    along_bind (startWorking h) fun _ => along_bind (tellPhase h _) fun _ => along_pure _)
    (retryOrExhaustRecovery h)

theorem finishApplied (inRecovery : Bool) {result : ProcessResult} {welcome : Option MemberWelcome}
    (hphases : src.phases) (hcommits : src.commits)
    (h : (CommitRoundOutcome.applied result welcome).Bare) :
    Along (Act src) (finishApplied inRecovery result welcome : ConvM P DispatchOutcome) := by
  obtain ⟨⟨selfRemoved, rfl⟩, hwelcome⟩ := h
  unfold Conversation.finishApplied
  refine along_bind (fun c => ?_) fun _ => along_bind ?_ fun _ => ?_
  · cases inRecovery with
    | true => exact .single (.mode c .normal c.recoveryRounds)
    | false => exact .refl
  · cases welcome with
    | none => exact along_pure _
    | some w => exact deliverWelcome (hwelcome w rfl)
  · refine along_bind (along_attempt (dispatchInboundResult hphases (fun _ => hcommits)
      fun _ _ h => ?_)) fun o => ?_
    · cases selfRemoved <;> cases h
    · cases o <;> exact along_pure _

theorem finishRound (inRecovery hasProposals : Bool) {result : CommitRoundResult P.mls}
    (hphases : src.phases) (hcommits : src.commits) (h : result.outcome.Bare) :
    Along (Act src) (finishRound inRecovery hasProposals result : ConvM P DispatchOutcome) := by
  unfold Conversation.finishRound
  refine along_bind (applyRoundScores _) fun _ => ?_
  refine along_bind (along_ite (along_pure _) (emitEvent rfl)) fun _ => ?_
  cases houtcome : result.outcome with
  | applied r welcome => exact finishApplied _ hphases hcommits (houtcome ▸ h)
  | noCandidate => exact along_ite (finishRecoveryRound hphases _) (finishNoCandidate hphases _)

theorem selectAndFinalize (hphases : src.phases) (hcommits : src.commits) (inRecovery : Bool) :
    Along (Act src) (selectAndFinalize inRecovery : ConvM P DispatchOutcome) := by
  intro c
  have hselecting : ReflTransGen (Act src) c c.selecting :=
    (ReflTransGen.single (.phase c .selection _ hphases)).tail (.told _ _ hphases)
  rw [selectAndFinalize_after]
  cases hround : DeMls.finalizeCommitRound c.stewardList c.isInRecoveryMode
      (inRecovery || c.stewardList.config.allowSubsetCandidates) c.selfMemberId c.roundState with
  | ok r t =>
    exact (hselecting.tail (.round c.selecting hcommits hround)).trans
      (finishRound _ _ hphases hcommits (finalizeCommitRound_bare hround) _)
  | error e t =>
    have hfailed : Along (Act src) (do
        Conversation.emitEvent (.error "commit_round_finalize" e)
        Conversation.recoverFromFinalizeError : ConvM P DispatchOutcome) :=
      along_bind (emitEvent rfl) fun _ => recoverFromFinalizeError hphases
    exact (hselecting.tail (.roundFailed c.selecting hround)).trans (hfailed _)

theorem advanceFreezing (h : src.phases) (hcommits : src.commits) :
    Along (Act src) (advanceFreezing : ConvM P DispatchOutcome) := by
  have hreport : Along (Act src) (reportProgress : ConvM P DispatchOutcome) :=
    along_bind along_get fun _ => along_ite (along_bind (modifyTiming _) fun _ =>
      along_bind (emitEvent rfl) fun _ => along_pure _) (along_pure _)
  unfold Conversation.advanceFreezing
  refine along_bind along_get fun c => along_ite ?_ ?_
  · exact along_bind (modifyTiming _) fun _ => along_pure _
  · refine along_bind (along_ite maybeAutoCommitRecovery (along_pure _)) fun _ => ?_
    exact along_bind along_get fun _ => along_ite (selectAndFinalize h hcommits _) hreport

/-! ## The other drivers -/

/-- The drivers that change no phase. -/
theorem drivers : Along (Act src) (driveBufferedProposals : ConvM P Unit) ∧
    Along (Act src) (driveSyncResend : ConvM P Unit) ∧
    Along (Act src) (driveSyncRequest : ConvM P Unit) ∧
    Along (Act src) (driveReelectionRetry : ConvM P Unit) := by
  refine ⟨?_, ?_, ?_, ?_⟩
  · unfold driveBufferedProposals
    refine along_bind along_get fun c => along_ite (modifyTiming _) (along_ite ?_ ?_)
    · exact along_bind (modifyTiming _) fun _ => drainBufferedUpdates
    · refine along_ite (along_pure _) ?_
      split
      · exact modifyTiming _
      · exact along_ite (along_pure _) (along_bind (modifyTiming _) fun _ => drainBufferedUpdates)
  · unfold driveSyncResend
    refine along_bind along_get fun c => ?_
    split
    · exact along_pure _
    · exact along_ite (modifyTiming _) (along_ite (along_pure _)
        (along_bind (modifyTiming _) fun _ => shareConversationSync))
  · unfold driveSyncRequest
    refine along_bind along_get fun c => along_ite (modifyTiming _) (along_ite (along_pure _) ?_)
    exact along_bind (modifyTiming _) fun _ => sendApp rfl
  · unfold driveReelectionRetry
    refine along_bind along_get fun c => along_ite (modifyTiming _) ?_
    split
    · exact modifyTiming _
    · exact along_ite (along_pure _) (along_bind (modifyTiming _) fun _ => advanceElectionRetry)

theorem startFreezeOnInactivity (h : src.phases) :
    Along (Act src) (startFreezeOnInactivity : ConvM P Unit) := by
  have hcheck : ∀ count window, Along (Act src) (checkStewardInactivity count window : ConvM P _) :=
    fun _ _ => along_bind along_get fun _ => along_ite (along_pure _)
      (along_ite (along_bind (modifyTiming _) fun _ => along_pure _)
        (along_ite (along_pure _) (startFreezing h)))
  unfold Conversation.startFreezeOnInactivity
  refine along_bind along_get fun c => along_ite (along_pure _) (along_bind (hcheck _ _) fun o => ?_)
  cases o with
  | none => exact along_pure _
  | some event => exact onFreezeEntered h event

theorem poll (fuel : Nat) (c : Conversation P) (hphases : src.phases) (hcommits : src.commits)
    (h : ∀ request ∈ approvals fuel (after (Conversation.tickDeadlines 0) c), src.approved request) :
    ReflTransGen (Act src) c (after (poll fuel) c) := by
  obtain ⟨hbuffered, hresend, hrequest, hretry⟩ := @drivers P src
  unfold Conversation.poll
  refine path_bind_ok (tickDeadlines fuel c hphases h) fun _ d _ => ?_
  refine along_bind (along_attempt (advanceFreezing hphases hcommits)) (fun _ => ?_) d
  refine along_bind (along_attempt hbuffered) fun _ => along_bind (along_attempt hresend) fun _ => ?_
  refine along_bind (along_attempt hrequest) fun _ => ?_
  refine along_bind (along_attempt (startFreezeOnInactivity hphases)) fun _ => ?_
  exact along_bind (along_attempt hretry) fun _ => along_bind along_get fun _ => along_pure _

/-! ## Membership requests -/

theorem proposeAdd (keyPackageBytes : Bytes) (v : CreatorVote) :
    Along (Act src) (proposeAdd keyPackageBytes v : ConvM P Unit) :=
  along_bind (along_ofResult _) fun _ => along_bind along_get fun _ =>
    along_ite (along_throw _) (initiateProposal _ _)

theorem sponsorMember (keyPackageBytes : Bytes) :
    Along (Act src) (sponsorMember keyPackageBytes : ConvM P Unit) := by
  unfold Conversation.sponsorMember
  refine along_bind along_get fun c => along_ite (along_pure _) (along_ite (proposeAdd _ _) ?_)
  refine along_bind (along_ofResult _) fun _ => along_ite (along_pure _) ?_
  exact modifyQueues (fun q => (roundWork_insertPendingUpdate P.mls q _ _).1)
    fun q => (roundWork_insertPendingUpdate P.mls q _ _).2

theorem removeMember (member : MemberId) :
    Along (Act src) (removeMember member : ConvM P Unit) := by
  unfold Conversation.removeMember
  refine along_bind along_get fun c => along_ite (along_throw _) ?_
  split
  · exact along_throw _
  · exact initiateProposal _ _

end Act

/-! ## Entry points -/

/-- What comes in with a call: the contents of its packet, or the message to send. Phases change in
packets and in polls, commits are merged in polls only, and the integrator takes the events in a call
of its own. -/
def EntryPoint.sources (c : Conversation P) : EntryPoint → Sources
  | .processInbound _ payload | .applyWelcomeSync payload =>
    { Sources.none with
      candidate := fun m => P.codec.decodeApp payload = .ok ⟨some (.commitCandidate m)⟩
      message := c.Opens payload
      phases := True }
  | .sendMessage message =>
    { Sources.none with chat := (· = ⟨some (.conversationMessage message c.conversationId)⟩) }
  | .poll fuel =>
    { Sources.none with
      approved := fun request => request ∈ approvals fuel (after (tickDeadlines 0) c)
      phases := True
      commits := True }
  | .drainEvents => { Sources.none with drains := True }
  | _ => .none

/-- **An entry point** is a path of acts that take in what came with it. -/
theorem EntryPoint.acts (e : EntryPoint) (c : Conversation P) :
    ReflTransGen (Act (e.sources c)) c (e.leaves c) := by
  cases e with
  | processInbound sender payload =>
    exact Act.processInbound sender c trivial (fun _ h => h) fun _ _ h => h
  | applyWelcomeSync syncBytes =>
    exact Act.applyWelcomeSync c trivial (fun _ h => h) fun _ _ h => h
  | poll fuel => exact Act.poll fuel c trivial trivial fun _ h => h
  | sendMessage message =>
    exact path_get_bind (path_ite (fun _ => along_throw _ c) fun _ => Act.sendChat rfl c)
  | requestConversationSync => exact Act.sendApp rfl c
  | shareConversationSync => exact Act.shareConversationSync c
  | addMember keyPackageBytes =>
    exact along_bind along_get (fun _ => along_ite (along_throw _) (Act.proposeAdd _ _)) c
  | sponsorMember keyPackageBytes => exact Act.sponsorMember _ c
  | removeMember member => exact Act.removeMember _ c
  | leave => exact Act.leave c
  | initiateProposal request v => exact Act.initiateProposal request v c
  | vote id choice => exact Act.vote id choice c
  | requestRecovery => exact Act.requestRecovery c
  | proposeScoreRemoval target => exact Act.proposeScoreRemoval target c
  | commitInRecovery => exact Act.commitInRecovery c
  | resendCommit => exact Act.resendCommit c
  | enterRecoveryMode => exact Act.modes.1 c
  | exitRecoveryMode => exact Act.modes.2 c
  | drainEvents => exact .single (.drainedEvents c trivial)
  | drainOutbound => exact .single (.drainedOutbound c)
  | clock now => exact .single (.clock c now)
  | publish event => exact .single (.outcomes c _)

/-! ## Constructors -/

/-- Genesis founds the group with the initial members. -/
theorem Act.seedInitialMembers {initialMembers : List Bytes} {c : Conversation P} (hfresh : c.Fresh)
    (h : ∀ keyPackageBytes ∈ initialMembers, src.founder (.add keyPackageBytes)) :
    ReflTransGen (Act src) c (after (seedInitialMembers initialMembers) c) := by
  have hmint : Engine src c (MlsService.createCommitCandidate (initialMembers.map .add)) := by
    refine .mint fun u hu => ?_
    obtain ⟨keyPackageBytes, hmember, rfl⟩ := List.mem_map.mp hu
    exact .inl (h _ hmember)
  unfold Conversation.seedInitialMembers
  refine path_ite (fun _ => .refl) fun hany => path_ofResult_bind fun joiners _ => ?_
  refine path_bind_ok (Act.onMls hmint) fun artifacts d hd => ?_
  obtain ⟨m, _, rfl⟩ := (zoom_ok _ _ _ _ _ _).mp hd
  -- The mint wrote the group only, so the queues are as they were.
  refine path_bind_ok ?_ fun delta e _ => along_bind (Act.scored _).1 (fun _ d => ?_) e
  · rw [Act.after_onMls]
    obtain ⟨first, hfirst⟩ := List.exists_mem_of_ne_nil _ hany
    exact .single (.genesis _ hfresh (h first hfirst))
  · refine path_get_bind (path_ofResult_bind fun l hl => ?_)
    refine path_modify_bind (.installed d (fun h => h.filter _) hl) ?_
    cases artifacts.welcome with
    | none => exact along_pure _
    | some bytes => exact Act.deliverWelcome rfl

/-- A joiner announces itself and reads the sync that came with its welcome. -/
theorem Act.settleIn {syncBytes : Bytes} (c : Conversation P) (hphases : src.phases)
    (hannounce : src.chat ⟨some (.membershipChange c.conversationId c.selfMemberId 0)⟩)
    (h : ∀ m, P.codec.decodeApp syncBytes = .ok ⟨some (.commitCandidate m)⟩ → src.candidate m)
    (hchat : ∀ (d : Conversation P) message member, d.Opens syncBytes message member →
      src.message message member) :
    ReflTransGen (Act src) c (after (settleIn syncBytes) c) := by
  unfold Conversation.settleIn
  refine path_bind_ok ?_ fun _ d _ => Act.applyWelcomeSync d hphases h (hchat d)
  unfold onJoined syncScoringMembers
  refine path_get_bind (along_bind (Act.sendChat hannounce) (fun _ => ?_) c)
  exact along_bind (Act.onScoring _) fun _ => along_bind (Act.scored _).1 fun _ => (Act.scored _).2

end Conversation

end DeMls
