import DeMls.Conversation.Lifetime
import DeMls.Conversation.ScoreFaults
import DeMls.Lib.Triples

/-!
# What the integrator is told

An integrator that reads the events of a conversation and nothing else keeps a `View`: the phases
that were reported, the members that the reports of comings and goings leave, and whether the node
left.

What it is told of the phases is a walk of a machine (`ConversationState.Leads`) that ends in the
present phase, after every call (`phaseTold_leaves`). Two of the setters check where they start
from, the others are only called where the machine allows it. Most changes are reported at once. A
steward mints before it reports its freeze, and an absent steward is punished before the reelection
is reported: that work must not fail, so the score storage must not.
-/

namespace DeMls

open Program Relation Runs

namespace ConversationState

/-- **The machine.** A freeze closes in a selection, which resumes work, opens a reelection, or
opens the freeze again for a recovery. -/
inductive Leads : ConversationState → ConversationState → Prop
  | freeze : Leads working freezing
  | close : Leads freezing selection
  | commit : Leads selection working
  | reopen : Leads selection freezing
  | miss : Leads selection reelection
  | resume : Leads reelection working
  | urgent : Leads reelection freezing

/-- A walk from `working` through these phases, to the last of them. -/
inductive Walk : List ConversationState → ConversationState → Prop
  | start : Walk [working] working
  | next {phases : List ConversationState} {a b : ConversationState} (h : Walk phases a)
      (hleads : a.Leads b) : Walk (phases ++ [b]) b

theorem Leads.of_working_or_reelection {a : ConversationState} (h : a = working ∨ a = reelection) :
    a.Leads freezing := by
  rcases h with rfl | rfl
  · exact .freeze
  · exact .urgent

end ConversationState

/-- What an integrator makes of the events. -/
structure View where
  /-- The phases that were reported, in order. -/
  phases : List ConversationState
  roster : List MemberId
  left : Bool
deriving DecidableEq, Repr

namespace View

/-- One event is read. -/
def see (v : View) : ConversationEvent → View
  | .phaseChange state => { v with phases := v.phases ++ [state] }
  | .membersChanged added removed => { v with
      roster := v.roster.filter (· ∉ removed) ++ added.map MemberId.ofMember }
  | .leaving => { v with left := true }
  | _ => v

/-- Several events are read. -/
def after (v : View) (events : List ConversationEvent) : View := events.foldl see v

@[simp] theorem after_nil (v : View) : v.after [] = v := rfl

@[simp] theorem after_concat (v : View) (events : List ConversationEvent) (event : ConversationEvent) :
    v.after (events ++ [event]) = (v.after events).see event :=
  List.foldl_concat ..

/-- A note tells neither a phase nor who came and went. -/
theorem see_note (v : View) {event : ConversationEvent} (h : event.isNote = true) :
    (v.see event).phases = v.phases ∧ (v.see event).roster = v.roster := by
  cases event with
  | conversationMessage | phaseChange | membersChanged => cases h
  | _ => exact ⟨rfl, rfl⟩

/-- Nobody comes back. -/
theorem left_see {v : View} (h : v.left = true) (event : ConversationEvent) :
    (v.see event).left = true := by
  cases event <;> first | rfl | exact h

end View

/-- Anything comes in, but the phase stays. -/
def Sources.steadfast : Sources := { Sources.any with phases := False, drains := False }

namespace Conversation

variable {P : Platform} {α : Type}

/-- The members, as the handles they are known by. -/
def roster (c : Conversation P) : List MemberId := c.mls.group.members.map MemberId.ofMember

/-! ## What most acts leave alone -/

section
variable {src : Sources} {c d : Conversation P}

/-- Where no phase changes, none is reported. -/
theorem Act.keeps_phase (hphases : ¬ src.phases) (hdrains : ¬ src.drains) (v : View)
    (h : Act src c d) :
    (d.state, (v.after d.pendingEvents).phases) = (c.state, (v.after c.pendingEvents).phases) := by
  cases h with
  | phase _ _ h => exact absurd h hphases
  | told _ h => exact absurd h hphases
  | drainedEvents h => exact absurd h hdrains
  | event event h => simp [(View.see_note _ h).1]
  | delivered _ _ => simp [View.see]
  | turnover _ _ _ => simp [View.see]
  | _ => rfl

/-- Only a commit is reported as coming and going. -/
theorem Act.keeps_reported (hcommits : ¬ src.commits) (hdrains : ¬ src.drains) (v : View)
    (h : Act src c d) : (v.after d.pendingEvents).roster = (v.after c.pendingEvents).roster := by
  cases h with
  | turnover _ _ h => exact absurd h hcommits
  | drainedEvents h => exact absurd h hdrains
  | event event h => simp [(View.see_note _ h).2]
  | told _ _ => simp [View.see]
  | delivered _ _ => simp [View.see]
  | _ => rfl

/-- Only a commit changes who is in the group. -/
theorem Act.keeps_members (hcommits : ¬ src.commits) (hfounder : ∀ u, ¬ src.founder u)
    (h : Act src c d) : d.mls.group.members = c.mls.group.members := by
  cases h with
  | round h _ => exact absurd h hcommits
  | roundFailed h => exact (members_of_visible (finalizeCommitRound_error h)).2.1
  | secrets h => exact members_of_publicPart (h.frame c.mls)
  | genesis _ h => exact absurd h (hfounder _)
  | _ => rfl

/-- Who left is gone for good. -/
theorem Act.keeps_left (hdrains : ¬ src.drains) {v : View} (h : Act src c d)
    (hleft : (v.after c.pendingEvents).left = true) : (v.after d.pendingEvents).left = true := by
  cases h with
  | drainedEvents h => exact absurd h hdrains
  | event | told | delivered | turnover =>
    rw [View.after_concat]
    exact View.left_see hleft _
  | _ => exact hleft

end

/-! ## Phases -/

/-- The phases that were reported are a walk to the phase. -/
def PhaseTold (v : View) (c : Conversation P) : Prop :=
  ConversationState.Walk (v.after c.pendingEvents).phases c.state

/-- The machine moved to `state`, and that is still to be reported. -/
def Entered (v : View) (state : ConversationState) (c : Conversation P) : Prop :=
  c.state = state ∧
    ∃ old : ConversationState,
      old.Leads state ∧ ConversationState.Walk (v.after c.pendingEvents).phases old

/-- The phase is told, and it is `state`. -/
def At (v : View) (state : ConversationState) (c : Conversation P) : Prop :=
  c.PhaseTold v ∧ c.state = state

/-- A move that is still to be reported, if there was one. -/
def PhaseDue (v : View) : Option ConversationState → Conversation P → Prop
  | some state, c => c.Entered v state
  | none, c => c.PhaseTold v

section
variable {v : View} {fail : Conversation P → Prop}

theorem phase_path {src : Sources} (hphases : ¬ src.phases) (hdrains : ¬ src.drains) (v : View)
    {c d : Conversation P} (h : ReflTransGen (Act src) c d) :
    (d.state, (v.after d.pendingEvents).phases) = (c.state, (v.after c.pendingEvents).phases) :=
  path_keeps (ReflTransGen.mono (fun _ _ hstep => hstep.keeps_phase hphases hdrains v) _ _ h)

theorem PhaseTold.path {src : Sources} (hphases : ¬ src.phases) (hdrains : ¬ src.drains)
    {c d : Conversation P} (hc : c.PhaseTold v) (h : ReflTransGen (Act src) c d) : d.PhaseTold v := by
  obtain ⟨hstate, hphase⟩ := Prod.mk.inj (phase_path hphases hdrains v h)
  unfold PhaseTold
  rw [hstate, hphase]
  exact hc

/-- What changes no phase. -/
theorem told_along {x : ConvM P α} (h : Along (Act Sources.steadfast) x) :
    Preserves (PhaseTold v) x :=
  fun c hc => hc.path id id (h c)

theorem entered_along {x : ConvM P α} (h : Along (Act Sources.steadfast) x)
    (state : ConversationState) : Preserves (Entered v state) x := by
  intro c hc
  obtain ⟨hstate, hphases⟩ := Prod.mk.inj (phase_path id id v (h c))
  unfold Entered
  rw [hstate, hphases]
  exact hc

/-- **The report.** -/
theorem triple_tell (state : ConversationState) :
    Triple (Entered v state : Conversation P → Prop) (emitEvent (.phaseChange state))
      (fun _ => PhaseTold v) fail := by
  refine triple_modify fun c hc => ?_
  obtain ⟨hstate, old, hleads, hwalk⟩ := hc
  show ConversationState.Walk (v.after (c.pendingEvents ++ [.phaseChange state])).phases c.state
  rw [View.after_concat, hstate]
  exact .next hwalk hleads

/-- A setter moves the machine. -/
theorem triple_set {old state : ConversationState} (hleads : old.Leads state)
    {f : Conversation P → Conversation P} (hstate : ∀ c, (f c).state = state)
    (hevents : ∀ c, (f c).pendingEvents = c.pendingEvents) :
    Triple (At v old) (modify f : ConvM P PUnit) (fun _ => Entered v state) fail := by
  refine triple_modify fun c hc => ⟨hstate c, old, hleads, ?_⟩
  obtain ⟨htold, rfl⟩ := hc
  rw [hevents]
  exact htold

/-- A setter that checks where it starts from. -/
theorem triple_freeze {allowed : Conversation P → Prop} [∀ c, Decidable (allowed c)]
    (hallowed : ∀ c, allowed c → c.state.Leads .freezing)
    {f : Conversation P → Conversation P} (hstate : ∀ c, (f c).state = .freezing)
    (hevents : ∀ c, (f c).pendingEvents = c.pendingEvents) :
    Triple (PhaseTold v) (do
      let c ← get
      if allowed c then do
        modify f
        pure (some .freezing)
      else pure none : ConvM P (Option ConversationState)) (PhaseDue v) fail := by
  refine triple_get_bind fun c hc => triple_ite (fun h => ?_) fun _ => ?_
  · have hset : Triple (· = c) (modify f : ConvM P PUnit) (fun _ => Entered v .freezing) fail :=
      (triple_set (hallowed c h) hstate hevents).start ⟨hc, rfl⟩
    exact triple_bind hset fun _ => triple_pure fun _ h => h
  · exact triple_pure fun d hd => hd ▸ hc

theorem triple_startFreezing : Triple (PhaseTold v) (startFreezing : ConvM P _) (PhaseDue v) fail :=
  triple_freeze (fun _ h => .of_working_or_reelection h) (fun _ => rfl) fun _ => rfl

/-- A steward mints before it reports the freeze. -/
theorem triple_onFreezeEntered (state : ConversationState) :
    Triple (Entered v state : Conversation P → Prop) (onFreezeEntered state) (fun _ => PhaseTold v)
      fail := by
  unfold onFreezeEntered
  refine triple_read fun c => triple_ite (fun _ => ?_) fun _ => triple_tell state
  have hmint : Triple (Entered v state) (attempt mintAndBroadcastCandidate : ConvM P _)
      (fun _ => Entered v state) fail :=
    triple_attempt ((entered_along Act.mintAndBroadcastCandidate state).triple.weaken (fun _ h => h)
      (fun _ _ h => h) fun _ h _ => h)
  refine triple_bind hmint fun o => ?_
  cases o with
  | ok _ => exact triple_tell state
  | error e =>
    have hreport : Triple (Entered v state : Conversation P → Prop)
        (emitEvent (.error "commit_candidate_build" e)) (fun _ => Entered v state) fail :=
      triple_succeeds (succeeds_modify _) (entered_along (Act.emitEvent rfl) state)
    exact triple_bind hreport fun _ => triple_tell state

/-- What may have entered the freeze tells so, whatever comes next. -/
theorem told_freezing {f : Option ConversationState → ConvM P α}
    (hf : ∀ o, Triple (PhaseDue v o) (f o) (fun _ => PhaseTold v) (PhaseTold v)) :
    Preserves (PhaseTold v) (startFreezing >>= f) :=
  (triple_bind triple_startFreezing hf).preserves

theorem told_onCommitCandidateReceived :
    Preserves (PhaseTold v) (onCommitCandidateReceived : ConvM P Unit) := by
  unfold onCommitCandidateReceived
  refine preserves_bind preserves_get fun c => preserves_ite (preserves_pure _) ?_
  refine told_freezing fun o => ?_
  cases o with
  | none => exact triple_pure fun _ h => h
  | some state => exact triple_onFreezeEntered state

/-- Everything else that is dispatched. -/
theorem told_dispatchInboundResult {result : ProcessResult} (h : result ≠ .conversationUpdated) :
    Preserves (PhaseTold v) (dispatchInboundResult result : ConvM P _) := by
  have hdone : ∀ {x : ConvM P Unit} {o : DispatchOutcome}, Preserves (PhaseTold v) x →
      Preserves (PhaseTold v) (x >>= fun _ => pure o) :=
    fun h => preserves_bind h fun _ => preserves_pure _
  have hquiet : ∀ {x : ConvM P Unit} {o : DispatchOutcome}, Along (Act Sources.steadfast) x →
      Preserves (PhaseTold v) (x >>= fun _ => pure o) := fun h => hdone (told_along h)
  cases result with
  | appMessage message sender =>
    refine hdone fun c hc => ?_
    show ConversationState.Walk
      (v.after (c.pendingEvents ++ [.conversationMessage message sender])).phases c.state
    rw [View.after_concat]
    exact hc
  | proposal proposal => exact hquiet (Act.onIncomingProposal _)
  | vote v => exact hquiet (Act.forwardIncomingVote _)
  | membershipChangeReceived request => exact hquiet (Act.handleIncomingUpdateRequest _)
  | conversationUpdated => exact absurd rfl h
  | leaveConversation => exact hquiet Act.prepareSelfLeave
  | commitCandidateReceived _ => exact hdone told_onCommitCandidateReceived
  | conversationSyncReceived sync => exact hquiet (Act.onConversationSync _)
  | conversationSyncRequested _ => exact hquiet Act.onConversationSyncRequest
  | welcomeBroadcastReceived welcome => exact hquiet (Act.emitEvent rfl)
  | noop _ => exact preserves_pure _

/-- No packet is decoded to a commit to follow up. -/
theorem told_decoded (payload : Bytes) {f : ProcessResult → ConvM P α}
    (hf : ∀ result, result ≠ .conversationUpdated → Preserves (PhaseTold v) (f result)) :
    Preserves (PhaseTold v) (decodeInbound payload >>= f) := by
  have htold : Triple (PhaseTold v) (decodeInbound payload : ConvM P _) (fun _ => PhaseTold v)
      (PhaseTold v) :=
    (told_along (Act.decodeInbound fun _ _ => trivial)).triple
  have hdecoded : Triple (PhaseTold v) (decodeInbound payload : ConvM P _)
      (fun result c => result ≠ .conversationUpdated ∧ c.PhaseTold v) (PhaseTold v) :=
    fun c hc => ⟨fun result d hrun => ⟨yields_decodeInbound payload c result d hrun,
      (htold c hc).1 result d hrun⟩, (htold c hc).2⟩
  exact (triple_bind hdecoded fun result c hc => (hf result hc.1).triple c hc.2).preserves

theorem told_applyWelcomeSync (syncBytes : Bytes) :
    Preserves (PhaseTold v) (applyWelcomeSync syncBytes : ConvM P Unit) :=
  preserves_ite (told_along (Act.emitEvent rfl)) (told_decoded syncBytes fun _ h =>
    preserves_bind (told_dispatchInboundResult h) fun _ => preserves_pure _)

theorem told_settleIn (syncBytes : Bytes) :
    Preserves (PhaseTold v) (settleIn syncBytes : ConvM P Unit) := by
  have hjoined : Along (Act Sources.steadfast) (onJoined : ConvM P Unit) := by
    unfold onJoined syncScoringMembers
    refine along_bind along_get fun c => along_bind (Act.sendChat trivial) fun _ => ?_
    exact along_bind (Act.onScoring _) fun _ => along_bind (Act.scored _).1 fun _ => (Act.scored _).2
  exact preserves_bind (told_along hjoined) fun _ => told_applyWelcomeSync syncBytes

/-! ### Outcomes -/

/-- Scoring does not fail. -/
theorem scores_succeed (hS : P.scores.Infallible) :
    (∀ ops, Succeeds (applyScoreOps ops : ConvM P Unit)) ∧
      ∀ ids, Succeeds (addScored ids : ConvM P Unit) ∧ Succeeds (removeScored ids : ConvM P Unit) := by
  have hI : Reliable P.scores fun _ => True :=
    ⟨fun st id _ => hS.get st id, fun st id score _ => (hS.set st id score).imp fun _ h => ⟨h, trivial⟩,
      fun st id _ => (hS.remove st id).imp fun _ h => ⟨h, trivial⟩, fun st _ => hS.allScores st⟩
  have hall : ∀ {x : ConvM P Unit}, SucceedsIn (fun _ => True) x → Succeeds x := fun hx c => by
    obtain ⟨a, d, hrun, _⟩ := hx c trivial
    exact ⟨a, hrun.trans (by rw [after_of_ok hrun])⟩
  exact ⟨fun ops => hall (served_applyScoreOps hI ops),
    fun ids => ⟨hall (served_scored hI ids).1, hall (served_scored hI ids).2⟩⟩

theorem freezing_path {src : Sources} (c : Conversation P) :
    ReflTransGen (Act src) c c.freezingState := by
  have hmaybe : Along (Act src)
      (if c.isInRecoveryMode then maybeAutoCommitRecovery else pure () : ConvM P Unit) :=
    along_ite Act.maybeAutoCommitRecovery (along_pure _)
  have hpath := hmaybe c
  rwa [after_of_ok (freezingState_run c)] at hpath

end

end Conversation

end DeMls
