import DeMls.Conversation.Aside
import DeMls.Conversation.Stages
import DeMls.Conversation.Traffic
import DeMls.Lib.Runs

/-!
# Entry points as moves

Every packet, every poll and every call of the integrator is a path of `Moves`, so a law over the
runs of moves is one over the runs of the code (`trace_of_entryPoints`). A tick drops all due
deadlines before it fires the first one; dropping each as it fires comes to the same.
-/

namespace DeMls

open Program Relation Runs

variable {P : Platform} {α : Type}

namespace Conversation

/-- Some move leads from `c` to `d`. -/
def Moved (c d : Conversation P) : Prop := ∃ m, Moves c m d

theorem moved_drift {x : ConvM P α} (h : Along (Drift fun _ => True) x) : Along Moved x :=
  h.mono fun _ _ hstep => ⟨_, .driver hstep⟩

theorem moved_flight {x : ConvM P α} (h : Frame flight x) : Along Moved x :=
  moved_drift (drift_flight h)

/-! ## Deadlines -/

/-- What a firing deadline reads and writes, the deadlines aside. -/
def core (c : Conversation P) : (OrderedMap ProposalId VotingMeta × Finset ProposalId ×
    BoundedSet ProposalId) × P.consensus.State × List ConsensusEvent × Nat × ConversationState :=
  (c.queues.tracked, c.consensus, c.outcomes, c.now, c.state)

/-- The deadlines. -/
def deadlines (c : Conversation P) : OrderedMap ProposalId AutoVoteEntry × OrderedMap ProposalId Nat :=
  (c.timing.pendingAutoVotes, c.timing.pendingConsensusTimeouts)

theorem flight_of_core {c d : Conversation P} (hcore : d.core = c.core)
    (hdeadlines : d.deadlines = c.deadlines) : d.flight = c.flight := by
  unfold core at hcore
  unfold deadlines at hdeadlines
  unfold flight inFlight
  simp only [Prod.mk.injEq] at hcore hdeadlines
  obtain ⟨htracked, hconsensus, houtcomes, _, hstate⟩ := hcore
  rw [htracked, hconsensus, houtcomes, hstate, hdeadlines.1, hdeadlines.2]

/-- The clock and the phase. -/
def pace (c : Conversation P) : Nat × ConversationState := (c.now, c.state)

theorem aside_pace : Aside (pace : Conversation P → Nat × ConversationState) := by
  constructor <;> intros <;> rfl

theorem core_eq_of_inFlight {c d : Conversation P} {f : InFlight P} (h : d.inFlight = f)
    (hpace : d.pace = c.pace) :
    d.core = (f.tracked, f.consensus, f.outcomes, c.now, c.state) := by
  rw [← h]
  unfold core
  rw [show d.now = c.now from congrArg Prod.fst hpace,
    show d.state = c.state from congrArg Prod.snd hpace]
  rfl

theorem pace_broadcastVote (id : ProposalId) (choice : Bool) :
    Frame pace (broadcastVote id choice : ConvM P Unit) :=
  frame_bind (frame_get _) fun _ => frame_bind (aside_pace.onConsensus _) fun _ =>
    aside_pace.sendApp _

theorem pace_resolveOnTimeout (id : ProposalId) :
    Frame pace (resolveOnTimeout id : ConvM P Unit) :=
  frame_bind (frame_get _) fun _ =>
    frame_ite (frame_pure _ _) (frame_attempted (aside_pace.onConsensus _))

/-- A vote that is cast with its deadline dropped before, or with it. -/
theorem cast_core {c d : Conversation P} (h : d.core = c.core) (id : ProposalId) (choice : Bool) :
    (after (broadcastVote id choice) d).core = (after (do
      cancelAutoVote id
      broadcastVote id choice) c).core := by
  have hpace : Frame pace (do
      cancelAutoVote id
      broadcastVote id choice : ConvM P Unit) :=
    frame_bind (frame_modify fun _ => rfl) fun _ => pace_broadcastVote id choice
  rw [core_eq_of_inFlight (broadcastVote_effect id choice d) (pace_broadcastVote id choice d),
    core_eq_of_inFlight (castNow_effect id choice c) (hpace c)]
  unfold core at h
  simp only [Prod.mk.injEq] at h
  obtain ⟨htracked, hconsensus, houtcomes, hnow, hstate⟩ := h
  rw [hconsensus, houtcomes, hnow, hstate]
  exact congrArg (fun t => (t, _)) htracked

/-- A session that is resolved with its deadline dropped before, or with it. -/
theorem resolve_core {c d : Conversation P} (h : d.core = c.core) (id : ProposalId) :
    (after (resolveOnTimeout id) d).core = (after (do
      unregisterConsensusTimeout id
      resolveOnTimeout id) c).core := by
  have hpace : Frame pace (do
      unregisterConsensusTimeout id
      resolveOnTimeout id : ConvM P Unit) :=
    frame_bind (frame_modify fun _ => rfl) fun _ => pace_resolveOnTimeout id
  rw [core_eq_of_inFlight (expire_effect id c) (hpace c), after_resolveOnTimeout]
  unfold core at h
  simp only [Prod.mk.injEq] at h
  obtain ⟨htracked, hconsensus, houtcomes, hnow, hstate⟩ := h
  have hactive : d.stillActive id = c.stillActive id := by
    unfold stillActive
    rw [hconsensus]
  rw [hactive, hconsensus, hnow]
  unfold core
  split_ifs
  · rw [← houtcomes, ← hnow, ← hstate]
    exact congrArg (fun t => (t, _)) htracked
  · rw [List.append_nil, ← houtcomes, ← hnow, ← hstate, ← hconsensus]
    exact congrArg (fun t => (t, _)) htracked

/-- The deadlines. -/
abbrev Deadlines : Type :=
  OrderedMap ProposalId AutoVoteEntry × OrderedMap ProposalId Nat

/-- A table of deadlines: what fires an entry, what drops one, and when one is due. -/
structure Table (P : Platform) (ν : Type) where
  fire : ProposalId × ν → ConvM P Unit
  drop : ProposalId → ConvM P Unit
  entries : Deadlines → OrderedMap ProposalId ν
  erase : ProposalId → Deadlines → Deadlines
  fireAt : ν → Nat

/-- Dropping an entry as it fires is a move, and leaves what firing it leaves. -/
structure Table.Fires {ν : Type} (T : Table P ν) : Prop where
  core : ∀ {c d : Conversation P}, d.core = c.core → ∀ e, (after (T.fire e) d).core = (after (do
    T.drop e.1
    T.fire e) c).core
  pace : ∀ e, Frame pace (T.fire e)
  kept : ∀ e (d : Conversation P), (after (T.fire e) d).deadlines = d.deadlines
  erased : ∀ e (c : Conversation P), (after (do
    T.drop e.1
    T.fire e) c).deadlines = T.erase e.1 c.deadlines
  entries : ∀ id D, T.entries (T.erase id D) = (T.entries D).erase id
  moved : ∀ {e} {c : Conversation P}, (T.entries c.deadlines).find? e.1 = some e.2 →
    T.fireAt e.2 ≤ c.now → Moved c (after (do
      T.drop e.1
      T.fire e) c)

/-- Fire several entries in turn. -/
def Table.run {ν : Type} (T : Table P ν) (due : List (ProposalId × ν)) (d : Conversation P) :
    Conversation P :=
  due.foldl (fun d e => after (T.fire e) d) d

/-- **Due deadlines.** What comes of entries that were all dropped before the first one fires is
reached by dropping each as it fires. -/
theorem Table.Fires.run {ν : Type} {T : Table P ν} (hT : T.Fires) (due : List (ProposalId × ν))
    {c d : Conversation P} (h : d.core = c.core) (hkeys : (due.map Prod.fst).Nodup)
    (hdue : ∀ e ∈ due, (T.entries c.deadlines).find? e.1 = some e.2 ∧ T.fireAt e.2 ≤ c.now) :
    ∃ c', ReflTransGen Moved c c' ∧ (T.run due d).core = c'.core ∧
      (T.run due d).deadlines = d.deadlines ∧
      c'.deadlines = due.foldl (fun D e => T.erase e.1 D) c.deadlines := by
  induction due generalizing c d with
  | nil => exact ⟨c, .refl, h, rfl, rfl⟩
  | cons e rest ih =>
    obtain ⟨hnew, hkeys⟩ := List.nodup_cons.mp hkeys
    obtain ⟨hentry, hfire⟩ := hdue e List.mem_cons_self
    have hcore := hT.core h e
    have hmoved := hT.moved hentry hfire
    have herased := hT.erased e c
    generalize after (do
      T.drop e.1
      T.fire e) c = c₁ at hcore hmoved herased
    have hnow : c₁.now = c.now := by
      have hd : (after (T.fire e) d).now = d.now := congrArg Prod.fst (hT.pace e d)
      rw [← show (after (T.fire e) d).now = c₁.now from congrArg (fun x => x.2.2.2.1) hcore, hd]
      exact congrArg (fun x => x.2.2.2.1) h
    obtain ⟨c', hpath, hcore', hkept, hfired⟩ := ih hcore hkeys fun e' he' => by
      obtain ⟨hfind, hle⟩ := hdue e' (List.mem_cons_of_mem _ he')
      have hne : e'.1 ≠ e.1 := fun heq => hnew (List.mem_map.mpr ⟨e', he', heq⟩)
      rw [herased, hT.entries, hnow]
      refine ⟨?_, hle⟩
      rw [OrderedMap.find?_eq_some_iff] at hfind ⊢
      rw [OrderedMap.entries_erase, List.mem_filter]
      exact ⟨hfind, by simpa using hne⟩
    refine ⟨c', .head hmoved hpath, hcore', hkept.trans (hT.kept e d), ?_⟩
    rw [hfired, herased]
    rfl

/-- The scheduled votes. -/
def autoVoteTable (P : Platform) : Table P AutoVoteEntry where
  fire e := broadcastVote e.1 e.2.vote
  drop := cancelAutoVote
  entries := Prod.fst
  erase id D := (D.1.erase id, D.2)
  fireAt := AutoVoteEntry.fireAt

/-- The timeouts of sessions. -/
def timeoutTable (P : Platform) : Table P Nat where
  fire e := resolveOnTimeout e.1
  drop := unregisterConsensusTimeout
  entries := Prod.snd
  erase id D := (D.1, D.2.erase id)
  fireAt := id

theorem autoVotes_fire : (autoVoteTable P).Fires where
  core h e := cast_core h e.1 e.2.vote
  pace e := pace_broadcastVote e.1 e.2.vote
  kept _ d := congrArg (fun f : InFlight P => (f.autoVotes, f.timeouts)) (broadcastVote_effect _ _ d)
  erased _ c := congrArg (fun f : InFlight P => (f.autoVotes, f.timeouts)) (castNow_effect _ _ c)
  entries _ _ := rfl
  moved hentry hdue := ⟨_, .autoVote hentry hdue⟩

theorem timeouts_fire : (timeoutTable P).Fires where
  core h e := resolve_core h e.1
  pace e := pace_resolveOnTimeout e.1
  kept e d := by
    show (after (resolveOnTimeout e.1) d).deadlines = d.deadlines
    rw [after_resolveOnTimeout]
    split_ifs <;> rfl
  erased _ c := congrArg (fun f : InFlight P => (f.autoVotes, f.timeouts)) (expire_effect _ c)
  entries _ _ := rfl
  moved hentry hdue := ⟨_, .timeout hentry hdue⟩

theorem after_castAll (due : List (ProposalId × AutoVoteEntry)) (d : Conversation P) :
    after (castAll due) d = (autoVoteTable P).run due d := by
  induction due generalizing d with
  | nil => rfl
  | cons e rest ih => exact (after_attempted _ _ d).trans (ih _)

theorem after_resolveAll (due : List (ProposalId × Nat)) (d : Conversation P) :
    after (resolveAll due) d = (timeoutTable P).run due d := by
  induction due generalizing d with
  | nil => rfl
  | cons e rest ih =>
    obtain ⟨_, hrun⟩ := resolveOnTimeout_succeeds e.1 d
    exact (after_bind_ok _ hrun).trans (ih _)

/-! ## A poll -/

theorem drainOutcomes_moves (fuel : Nat) : Along Moved (drainOutcomes fuel : ConvM P Unit) := by
  induction fuel with
  | zero => exact along_pure _
  | succ fuel ih =>
    intro c
    unfold drainOutcomes
    rw [after_bind_ok _ (get_apply c)]
    cases hnext : c.outcomes with
    | nil => exact .refl
    | cons event rest =>
      let d : Conversation P := { c with outcomes := rest }
      have hpop : (modify fun c => { c with outcomes := rest } : ConvM P Unit) c = .ok () d := rfl
      dsimp only
      rw [after_bind_ok _ hpop, after_attempted]
      exact .head ⟨_, .outcome hnext⟩ (ih _)

/-- The entries of a table that are due are its own, under different keys. -/
theorem due_of_filter {ν : Type} (m : OrderedMap ProposalId ν) (due : ProposalId × ν → Bool) :
    ((m.entries.filter due).map Prod.fst).Nodup ∧
      ∀ e ∈ m.entries.filter due, m.find? e.1 = some e.2 ∧ due e = true := by
  refine ⟨m.nodup.sublist (List.filter_sublist.map _), fun e he => ?_⟩
  obtain ⟨hmem, hdue⟩ := List.mem_filter.mp he
  exact ⟨OrderedMap.find?_eq_some_iff.mpr hmem, hdue⟩

theorem foldl_erase_autoVotes (due : List (ProposalId × AutoVoteEntry)) (D : Deadlines) :
    due.foldl (fun D e => (autoVoteTable P).erase e.1 D) D =
      (D.1.eraseAll (due.map Prod.fst), D.2) := by
  induction due generalizing D with
  | nil => rfl
  | cons e rest ih => exact ih _

theorem foldl_erase_timeouts (due : List (ProposalId × Nat)) (D : Deadlines) :
    due.foldl (fun D e => (timeoutTable P).erase e.1 D) D =
      (D.1, D.2.eraseAll (due.map Prod.fst)) := by
  induction due generalizing D with
  | nil => rfl
  | cons e rest ih => exact ih _

/-- **The tick.** -/
theorem tickDeadlines_moves (fuel : Nat) : Along Moved (tickDeadlines fuel : ConvM P Unit) := by
  intro c
  let votesDue := c.timing.pendingAutoVotes.entries.filter fun e => decide (e.2.fireAt ≤ c.now)
  let timeoutsDue := c.timing.pendingConsensusTimeouts.entries.filter fun e => decide (e.2 ≤ c.now)
  let d : Conversation P := { c with timing := { c.timing with
    pendingAutoVotes := c.timing.pendingAutoVotes.retain fun e => !decide (e.2.fireAt ≤ c.now)
    pendingConsensusTimeouts :=
      c.timing.pendingConsensusTimeouts.retain fun e => !decide (e.2 ≤ c.now) } }
  let d₁ := (autoVoteTable P).run votesDue d
  let d₂ := (timeoutTable P).run timeoutsDue d₁
  have hrun : after (tickDeadlines fuel) c = after (drainOutcomes fuel) d₂ := by
    obtain ⟨_, hcast⟩ := castAll_succeeds votesDue d
    obtain ⟨_, hresolve⟩ := resolveAll_succeeds timeoutsDue (after (castAll votesDue) d)
    have hdrop : (modifyTiming fun t => { t with
        pendingAutoVotes := t.pendingAutoVotes.retain fun e => !decide (e.2.fireAt ≤ c.now)
        pendingConsensusTimeouts :=
          t.pendingConsensusTimeouts.retain fun e => !decide (e.2 ≤ c.now) } : ConvM P Unit) c =
            .ok () d := rfl
    unfold tickDeadlines
    rw [after_bind_ok _ (get_apply c)]
    dsimp only
    rw [after_bind_ok _ hdrop]
    refine (after_bind_ok _ hcast).trans ?_
    refine (after_bind_ok _ hresolve).trans ?_
    rw [after_resolveAll, after_castAll]
  rw [hrun]
  -- First the votes, each dropped as it is cast, then the timeouts.
  obtain ⟨hkeys, hdue⟩ := due_of_filter c.timing.pendingAutoVotes fun e => decide (e.2.fireAt ≤ c.now)
  obtain ⟨c₁, hpath₁, hcore₁, hkept₁, hfired₁⟩ := autoVotes_fire.run votesDue
    (show d.core = c.core from rfl) hkeys fun e he =>
      ⟨(hdue e he).1, of_decide_eq_true (hdue e he).2⟩
  rw [foldl_erase_autoVotes] at hfired₁
  have hnow₁ : c₁.now = c.now := by
    have hpace : ∀ (due : List (ProposalId × AutoVoteEntry)) (d : Conversation P),
        ((autoVoteTable P).run due d).now = d.now := by
      intro due
      induction due with
      | nil => exact fun _ => rfl
      | cons e rest ih =>
        exact fun d => (ih _).trans (congrArg Prod.fst (autoVotes_fire.pace e d))
    rw [← show d₁.now = c₁.now from congrArg (fun x => x.2.2.2.1) hcore₁]
    exact hpace votesDue d
  obtain ⟨hkeys, hdue⟩ := due_of_filter c.timing.pendingConsensusTimeouts fun e =>
    decide (e.2 ≤ c.now)
  obtain ⟨c₂, hpath₂, hcore₂, hkept₂, hfired₂⟩ := timeouts_fire.run timeoutsDue hcore₁ hkeys
    fun e he => by
      obtain ⟨hfind, hle⟩ := hdue e he
      rw [hfired₁, hnow₁]
      exact ⟨hfind, of_decide_eq_true hle⟩
  rw [foldl_erase_timeouts, hfired₁] at hfired₂
  have hdeadlines : d₂.deadlines = c₂.deadlines := by
    rw [hfired₂, hkept₂, hkept₁]
    exact Prod.ext (OrderedMap.retain_eq_eraseAll _ _) (OrderedMap.retain_eq_eraseAll _ _)
  have hmerge : Moved c₂ d₂ := ⟨_, .driver (.still (flight_of_core hcore₂ hdeadlines))⟩
  exact ((hpath₁.trans hpath₂).tail hmerge).trans (drainOutcomes_moves fuel d₂)

/-- A driver that may enter any phase. -/
abbrev Drives (x : ConvM P α) : Prop := Along (Drift fun _ => True) x

theorem drives_selectAndFinalize (inRecovery : Bool) :
    Drives (selectAndFinalize inRecovery : ConvM P _) := by
  intro c
  have hselecting : Drift (fun _ => True) c c.selecting := .enter rfl trivial
  refine .head hselecting ?_
  rw [selectAndFinalize_after]
  have hround := flight_finalizeCommitRound
    (inRecovery || c.stewardList.config.allowSubsetCandidates) c.selfMemberId c.selecting
  cases hr : DeMls.finalizeCommitRound c.stewardList c.isInRecoveryMode
      (inRecovery || c.stewardList.config.allowSubsetCandidates) c.selfMemberId c.roundState with
  | ok r t =>
    have hfin : finalizeCommitRound _ c.selecting.selfMemberId c.selecting = _ :=
      finalizeCommitRound_of_ok (c := c.selecting) hr
    rw [show c.selfMemberId = c.selecting.selfMemberId from rfl, after_of_ok hfin] at hround
    exact .head (.still hround)
      (drift_finishRound trivial trivial (fun _ => trivial) _ (finalizeCommitRound_outcome hr) _)
  | error e t =>
    have hfin : finalizeCommitRound _ c.selecting.selfMemberId c.selecting = _ :=
      finalizeCommitRound_of_error (c := c.selecting) hr
    rw [show c.selfMemberId = c.selecting.selfMemberId from rfl, after_of_error hfin] at hround
    refine .head (.still hround) ?_
    exact along_bind (drift_flight (flight_emitEvent _))
      (fun _ => drift_recoverFromFinalizeError trivial trivial) _

theorem drives_advanceFreezing : Drives (advanceFreezing : ConvM P _) := by
  have hmint : Drives (maybeAutoCommitRecovery : ConvM P Unit) := by
    unfold maybeAutoCommitRecovery
    refine along_bind along_get fun c => ?_
    split
    · exact along_pure _
    · exact along_ite (along_pure _)
        (along_attempted (drift_flight flight_mintAndBroadcastCandidate))
  unfold advanceFreezing
  refine along_bind along_get fun c => along_ite ?_ ?_
  · exact along_bind (drift_modifyTiming fun _ => ⟨rfl, rfl⟩) fun _ => along_pure _
  · refine along_bind (along_ite hmint (along_pure _)) fun _ => along_bind along_get fun c' => ?_
    refine along_ite (drives_selectAndFinalize _) ?_
    unfold reportProgress
    refine along_bind along_get fun c => along_ite ?_ (along_pure _)
    exact along_bind (drift_modifyTiming fun _ => ⟨rfl, rfl⟩) fun _ =>
      along_bind (drift_flight (flight_emitEvent _)) fun _ => along_pure _

theorem drives_checkStewardInactivity (approved window : Nat) :
    Drives (checkStewardInactivity approved window : ConvM P _) := by
  unfold checkStewardInactivity
  refine along_bind along_get fun c => along_ite (along_pure _) (along_ite ?_ ?_)
  · exact along_bind (drift_modifyTiming fun _ => ⟨rfl, rfl⟩) fun _ => along_pure _
  · exact along_ite (along_pure _) (drift_startFreezing trivial)

theorem parts_drive : Parts (P := P) (Drift fun _ => True) where
  timing h := drift_modifyTiming h
  send _ := drift_flight (flight_sendApp _)
  share := drift_flight flight_shareConversationSync
  propose _ _ := drift_initiateProposal _ _
  buffer _ _ := drift_flight (flight_modifyQueues fun _ =>
    ConversationQueues.tracked_insertPendingUpdate _ _ _ _)
  drain := drift_drainBufferedUpdates
  inactivity _ _ := drives_checkStewardInactivity _ _
  freeze _ := drift_flight (flight_onFreezeEntered _)
  retry := drift_advanceElectionRetry

theorem parts_moves : Parts (P := P) Moved where
  timing h := moved_drift (parts_drive.timing h)
  send _ := moved_drift (parts_drive.send _)
  share := moved_drift parts_drive.share
  propose _ _ := moved_drift (parts_drive.propose _ _)
  buffer _ _ := moved_drift (parts_drive.buffer _ _)
  drain := moved_drift parts_drive.drain
  inactivity _ _ := moved_drift (parts_drive.inactivity _ _)
  freeze _ := moved_drift (parts_drive.freeze _)
  retry := moved_drift parts_drive.retry

/-- **Polls.** -/
theorem poll_moves (fuel : Nat) : Along Moved (poll fuel : ConvM P PollOutcome) :=
  parts_moves.poll (tickDeadlines_moves fuel) (moved_drift drives_advanceFreezing)

/-! ## A packet -/

theorem flight_decodeInbound (payload : Bytes) :
    Frame flight (decodeInbound payload : ConvM P _) := by
  unfold decodeInbound
  refine frame_bind (frame_get _) fun c => ?_
  split
  · refine frame_bind (frame_modify fun d => ?_) fun _ => frame_pure _ _
    unfold flight inFlight
    simp only [tracked_receiveCommitCandidate]
  · refine frame_ite (frame_pure _ _) ?_
    exact frame_bind (flight_modifyQueues fun _ => rfl) fun _ =>
      frame_ite (frame_pure _ _) (frame_pure _ _)
  · unfold decodeEncrypted
    refine frame_bind (flight_onMls _) fun o => ?_
    cases o with
    | none => exact frame_pure _ _
    | some d =>
      exact frame_bind (frame_ofResult _ _) fun _ => frame_bind (frame_get _) fun _ => frame_pure _ _

theorem flight_onConversationSync (sync : ConversationSync) :
    Frame flight (onConversationSync sync : ConvM P Unit) := by
  have happly : Frame flight (applyConversationSyncToEntry sync : ConvM P Unit) := by
    unfold applyConversationSyncToEntry
    refine frame_bind (frame_ofResult _ _) fun base => ?_
    refine frame_bind (frame_modify fun _ => rfl) fun _ => frame_bind (frame_get _) fun c => ?_
    refine frame_bind (frame_ofResult _ _) fun l => frame_bind (frame_modify fun _ => rfl) fun _ => ?_
    refine frame_bind (flight_onScoring _) fun _ => frame_bind (flight_onScoring _) fun _ => ?_
    refine frame_bind (frame_bind (flight_onScoring _) fun _ => flight_emitScoreChanges _) fun _ => ?_
    exact frame_modify fun _ => rfl
  unfold onConversationSync
  refine frame_bind (frame_modify fun _ => rfl) fun _ => frame_bind (frame_get _) fun c => ?_
  refine frame_ite (frame_pure _ _) (frame_bind (frame_ofResult _ _) fun valid => ?_)
  exact frame_ite (frame_pure _ _) (frame_bind happly fun _ => flight_emitEvent _)

theorem flight_onConversationSyncRequest :
    Frame flight (onConversationSyncRequest : ConvM P Unit) := by
  unfold onConversationSyncRequest
  refine frame_bind (frame_get _) fun c => frame_ite ?_ (frame_ite ?_ (frame_pure _ _))
  · exact frame_bind (frame_modify fun _ => rfl) fun _ => flight_shareConversationSync
  · exact frame_modify fun _ => rfl

theorem dispatchInboundResult_moves (r : ProcessResult) :
    Along Moved (dispatchInboundResult r : ConvM P _) := by
  cases r with
  | appMessage message sender =>
    exact along_bind (moved_flight (flight_emitEvent _)) fun _ => along_pure _
  | proposal proposal =>
    exact along_bind (along_step fun c => ⟨_, .incomingProposal c proposal⟩) fun _ => along_pure _
  | vote v =>
    exact along_bind (along_step fun c => ⟨_, .incomingVote c v⟩) fun _ => along_pure _
  | membershipChangeReceived request =>
    exact along_bind (moved_drift (drift_handleIncomingUpdateRequest _)) fun _ => along_pure _
  | conversationUpdated =>
    exact along_bind (moved_drift (drift_onConversationUpdated trivial)) fun _ => along_pure _
  | leaveConversation =>
    exact along_bind (moved_drift drift_prepareSelfLeave) fun _ => along_pure _
  | commitCandidateReceived _ =>
    exact along_bind (moved_drift (drift_onCommitCandidateReceived trivial)) fun _ => along_pure _
  | conversationSyncReceived sync =>
    exact along_bind (moved_flight (flight_onConversationSync _)) fun _ => along_pure _
  | conversationSyncRequested _ =>
    exact along_bind (moved_flight flight_onConversationSyncRequest) fun _ => along_pure _
  | welcomeBroadcastReceived welcome =>
    exact along_bind (moved_flight (flight_emitEvent _)) fun _ => along_pure _
  | noop _ => exact along_pure _

/-- **Packets.** -/
theorem processInbound_moves (sender payload : Bytes) :
    Along Moved (processInbound sender payload : ConvM P DispatchOutcome) := by
  unfold processInbound
  refine along_bind along_get fun c => along_ite (along_pure _) ?_
  exact along_bind (moved_flight (flight_decodeInbound _)) fun _ => dispatchInboundResult_moves _

/-! ## Entry points -/

/-- What the code around a conversation may ask of it, and what happens to it from outside. -/
inductive EntryPoint
  | processInbound (sender payload : Bytes)
  | applyWelcomeSync (syncBytes : Bytes)
  | poll (fuel : Nat)
  | sendMessage (message : Bytes)
  | requestConversationSync
  | shareConversationSync
  | addMember (keyPackageBytes : Bytes)
  | sponsorMember (keyPackageBytes : Bytes)
  | removeMember (member : MemberId)
  | leave
  | initiateProposal (request : ConversationUpdateRequest) (creatorVote : CreatorVote)
  | vote (id : ProposalId) (choice : Bool)
  | requestRecovery
  | proposeScoreRemoval (target : Bytes)
  | commitInRecovery
  | resendCommit
  | enterRecoveryMode
  | exitRecoveryMode
  | drainEvents
  | drainOutbound
  /-- The clock advances. -/
  | clock (now : Nat)
  /-- The service publishes an outcome. -/
  | publish (event : ConsensusEvent)

/-- The state an entry point leaves, its answer aside. -/
def EntryPoint.leaves : EntryPoint → Conversation P → Conversation P
  | .processInbound sender payload => after (Conversation.processInbound sender payload)
  | .applyWelcomeSync syncBytes => after (Conversation.applyWelcomeSync syncBytes)
  | .poll fuel => after (Conversation.poll fuel)
  | .sendMessage message => after (Conversation.sendMessage message)
  | .requestConversationSync => after Conversation.requestConversationSync
  | .shareConversationSync => after Conversation.shareConversationSync
  | .addMember keyPackageBytes => after (Conversation.addMember keyPackageBytes)
  | .sponsorMember keyPackageBytes => after (Conversation.sponsorMember keyPackageBytes)
  | .removeMember member => after (Conversation.removeMember member)
  | .leave => after Conversation.leave
  | .initiateProposal request creatorVote => after (Conversation.initiateProposal request creatorVote)
  | .vote id choice => after (Conversation.vote id choice)
  | .requestRecovery => after Conversation.requestRecovery
  | .proposeScoreRemoval target => after (Conversation.proposeScoreRemoval target)
  | .commitInRecovery => after Conversation.commitInRecovery
  | .resendCommit => after Conversation.resendCommit
  | .enterRecoveryMode => after Conversation.enterRecoveryMode
  | .exitRecoveryMode => after Conversation.exitRecoveryMode
  | .drainEvents => fun c => { c with pendingEvents := [] }
  | .drainOutbound => fun c => { c with pendingOutbound := [] }
  | .clock now => fun c => { c with now := now }
  | .publish event => fun c => { c with outcomes := c.outcomes ++ [event] }

theorem resendCommit_moves : Along Moved (resendCommit : ConvM P Bool) := by
  unfold resendCommit
  refine along_bind along_get fun c => ?_
  split
  · exact along_bind (moved_flight (flight_broadcast _)) fun _ => along_pure _
  · exact along_pure _

theorem applyWelcomeSync_moves (syncBytes : Bytes) :
    Along Moved (applyWelcomeSync syncBytes : ConvM P Unit) := by
  unfold applyWelcomeSync
  refine along_ite (moved_flight (flight_emitEvent _)) ?_
  refine along_bind (moved_flight (flight_decodeInbound _)) fun _ => ?_
  exact along_bind (dispatchInboundResult_moves _) fun _ => along_pure _

/-- **An entry point** is a path of moves. -/
theorem EntryPoint.path (e : EntryPoint) (c : Conversation P) :
    ReflTransGen Moved c (e.leaves c) := by
  cases e with
  | processInbound sender payload => exact processInbound_moves sender payload c
  | applyWelcomeSync syncBytes => exact applyWelcomeSync_moves syncBytes c
  | poll fuel => exact poll_moves fuel c
  | sendMessage message =>
    exact along_bind along_get (fun _ =>
      along_ite (along_throw _) (moved_flight (flight_sendApp _))) c
  | requestConversationSync => exact moved_flight (flight_sendApp _) c
  | shareConversationSync => exact moved_flight flight_shareConversationSync c
  | addMember keyPackageBytes => exact parts_moves.addMember keyPackageBytes c
  | sponsorMember keyPackageBytes => exact parts_moves.sponsorMember keyPackageBytes c
  | removeMember member => exact parts_moves.removeMember member c
  | leave => exact .single ⟨_, .leave c⟩
  | initiateProposal request v => exact moved_drift (drift_initiateProposal request v) c
  | vote id choice => exact .single ⟨_, .vote c id choice⟩
  | requestRecovery => exact moved_drift drift_requestRecovery c
  | proposeScoreRemoval target => exact moved_drift (drift_proposeScoreRemoval target) c
  | commitInRecovery =>
    exact along_bind along_get (fun _ =>
      along_ite (along_throw _) (moved_flight flight_mintAndBroadcastCandidate)) c
  | resendCommit => exact resendCommit_moves c
  | publish event => exact .single ⟨_, .publish c event⟩
  | _ => exact .single ⟨_, .driver (.still rfl)⟩

/-- **Runs of the code.** What the entry points reach from a fresh conversation, a run of moves
reaches. -/
theorem trace_of_entryPoints {c : Conversation P}
    (h : Reaches Fresh (fun c (e : EntryPoint) d => d = e.leaves c) (fun _ _ => True) c) :
    ∃ moves, Trace Fresh Moves moves c := by
  induction h with
  | start h => exact ⟨[], .start h⟩
  | next _ _ hstep ih =>
    obtain ⟨moves, htrace⟩ := ih
    rw [hstep]
    obtain ⟨more, htrace⟩ := htrace.append (EntryPoint.path _ _)
    exact ⟨moves ++ more, htrace⟩

end Conversation

end DeMls
