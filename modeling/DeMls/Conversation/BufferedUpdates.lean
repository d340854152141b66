import DeMls.Conversation.ListSync
import DeMls.Conversation.Walk
import DeMls.Conversation.Joining

/-!
# Buffered updates

The changes of the members that a node keeps until a commit carries them out. A call buffers an
update or leaves the buffer alone; a poll buffers none and drops what its outcomes reject, what its
commit carries out and what has grown too old for it (`buffer_entryPoint`). So an update stays until
one of these ends it (`buffered_update_expires_on_schedule`).
-/

namespace DeMls

open Program Relation Runs

variable {P : Platform} {α : Type}

namespace ConversationQueues

/-- An update is buffered behind the others, unless its target has one already. -/
theorem entries_insertPendingUpdate (O : OpenMls) (q : ConversationQueues)
    (request : ConversationUpdateRequest) (epoch : Nat) :
    (q.insertPendingUpdate O request epoch).pendingUpdates = q.pendingUpdates ∨
      ∃ target, targetMemberIdOf O request = some target ∧
        target ∉ q.pendingUpdates.entries.map Prod.fst ∧
        (q.insertPendingUpdate O request epoch).pendingUpdates.entries =
          q.pendingUpdates.entries ++ [(target, ⟨request, epoch⟩)] := by
  unfold insertPendingUpdate
  cases htarget : targetMemberIdOf O request with
  | none => exact .inl rfl
  | some target =>
    dsimp only
    by_cases hheld : q.pendingUpdates.contains target = true
    · rw [if_pos hheld]
      exact .inl rfl
    · rw [if_neg hheld]
      refine .inr ⟨target, rfl, fun hmem => hheld ?_, ?_⟩
      · exact OrderedMap.mem_keys_iff_contains.mp hmem
      · exact OrderedMap.entries_insert_of_not_contains _ (Bool.eq_false_iff.mpr hheld)

theorem pendingUpdates_foldl_forgetRemoved (removed : List MemberId) (q : ConversationQueues) :
    (removed.foldl forgetRemoved q).pendingUpdates =
      q.pendingUpdates.eraseAll (removed.map fun m => memberIdOf m.leaf) := by
  induction removed generalizing q with
  | nil => rfl
  | cons m rest ih =>
    rw [List.foldl_cons, ih]
    rfl

theorem pendingUpdates_foldl_recordAdded (epoch : Nat) (added : List Member)
    (q : ConversationQueues) : (added.foldl (recordAdded epoch) q).pendingUpdates =
      q.pendingUpdates.eraseAll (added.map Member.signatureKey) := by
  induction added generalizing q with
  | nil => rfl
  | cons m rest ih =>
    rw [List.foldl_cons, ih]
    rfl

end ConversationQueues

namespace Conversation

/-- The buffered updates, by their targets. -/
def buffer (c : Conversation P) : List (Bytes × PendingUpdate) := c.queues.pendingUpdates.entries

/-! ## What is dropped -/

/-- A reason to drop buffered updates. -/
inductive Clearing
  /-- A vote on a change of this member was rejected. -/
  | rejected (target : Bytes)
  /-- A commit merged, with these changes. -/
  | merged (delta : MembershipDelta)
  /-- A commit was processed at this epoch, under this bound on the age. -/
  | processed (epoch maxAge : Nat)
deriving DecidableEq

/-- Whether it drops the entry. -/
def Clearing.drops : Clearing → Bytes × PendingUpdate → Bool
  | .rejected target, e => decide (e.1 = target)
  | .merged delta, e => decide (e.1 ∈ delta.removed.map fun m => memberIdOf m.leaf) ||
      decide (e.1 ∈ delta.added.map Member.signatureKey)
  | .processed epoch maxAge, e => decide (e.2.firstSeenEpoch < epoch - maxAge)

/-- The entries it leaves. -/
def cleared (l : List (Bytes × PendingUpdate)) (x : Clearing) : List (Bytes × PendingUpdate) :=
  l.filter fun e => !x.drops e

/-- The entries that a number of them leave. -/
theorem mem_foldl_cleared {l : List (Bytes × PendingUpdate)} {xs : List Clearing}
    {e : Bytes × PendingUpdate} :
    e ∈ xs.foldl cleared l ↔ e ∈ l ∧ ∀ x ∈ xs, x.drops e = false := by
  induction xs generalizing l with
  | nil => simp
  | cons x rest ih =>
    rw [List.foldl_cons, ih]
    simp [cleared, and_assoc]

/-- An outcome rejects a change of the members. -/
def outcomeClearings (event : ConsensusEvent) (c : Conversation P) : List Clearing :=
  match c.resolved event.fields.1 with
  | none => []
  | some request =>
    match (c.applied event request).1 with
    | .rejectedMembership target => [.rejected target]
    | _ => []

/-- What the outcomes a tick drains reject. -/
def drainClearings : Nat → Conversation P → List Clearing
  | 0, _ => []
  | fuel + 1, c =>
    match c.outcomes with
    | [] => []
    | event :: rest => outcomeClearings event { c with outcomes := rest } ++
        drainClearings fuel (after (handleConsensusOutcome event) { c with outcomes := rest })

/-- A round merges a commit, and processes it unless it removes this node. -/
def roundClearings (c : Conversation P) : List Clearing :=
  match c.pollRound with
  | none => []
  | some (s, r, t) =>
    (match r.merged with
      | none => []
      | some merged => [.merged (MlsService.delta t.mls.group s.mls.group.populatedLeaves
          (vacatedBy P.mls s.mls.group merged.staged))]) ++
    (match r.outcome with
      | .applied .conversationUpdated _ =>
        [.processed t.mls.group.epoch c.config.pendingUpdateMaxEpochs]
      | _ => [])

/-- Only a poll drops updates. -/
def EntryPoint.clearings (e : EntryPoint) (c : Conversation P) : List Clearing :=
  match e with
  | .poll fuel => drainClearings fuel (after (tickDeadlines 0) c) ++
      (after (tickDeadlines fuel) c).roundClearings
  | _ => []

/-! ## What leaves the buffer alone -/

theorem rounds_buffer : Rounds (P := P) fun c d => d.buffer = c.buffer where
  queues _ _ h := congrArg OrderedMap.entries h
  mls _ _ _ := rfl
  scoring _ _ := rfl
  answered _ _ _ := rfl
  event _ _ _ := rfl
  outbound _ _ _ := rfl
  deadlines _ _ _ := rfl
  timers _ _ _ := rfl
  list _ _ _ := rfl
  outcomes _ _ := rfl
  exit _ := rfl
  back _ := rfl
  enter _ := rfl
  counted _ := rfl
  arm _ _ _ := rfl
  working _ _ := rfl
  freezing _ _ := rfl
  selection _ := rfl
  reelection _ := rfl
  reopened _ := rfl
  exhausted _ := rfl

theorem plain_buffer : Plain (P := P) fun c d => d.buffer = c.buffer where
  toQuiet := rounds_buffer.toQuiet
  bump _ := rfl

/-- What the age of an update is measured with. -/
def yardstick (c : Conversation P) : Nat × Nat := (c.epoch, c.config.pendingUpdateMaxEpochs)

theorem writes_yardstick : Writes (P := P) fun c d => d.yardstick = c.yardstick where
  queues _ _ _ := rfl
  mls c _ h := congrArg (fun g : MlsGroup Unit => (g.epoch, c.config.pendingUpdateMaxEpochs)) h
  scoring _ _ := rfl
  answered _ _ _ := rfl
  event _ _ _ := rfl
  outbound _ _ _ := rfl
  deadlines _ _ _ := rfl
  timers _ _ _ := rfl
  list _ _ _ := rfl
  outcomes _ _ := rfl
  exit _ := rfl
  enter _ := rfl
  arm _ _ _ := rfl
  working _ _ := rfl
  freezing _ _ := rfl
  bump _ := rfl
  unbuffer _ _ := rfl

theorem ends_yardstick : Ends (P := P) fun c d => d.yardstick = c.yardstick where
  toSettles := writes_yardstick.toSettles
  back _ := rfl

/-! ## A call -/

/-- What a step of a call does: it buffers an update or none, in the same epoch. -/
def Files (c d : Conversation P) : Prop :=
  d.mls.publicPart = c.mls.publicPart ∧ (d.buffer = c.buffer ∨
    ∃ target request, targetMemberIdOf P.mls request = some target ∧
      target ∉ c.buffer.map Prod.fst ∧ d.buffer = c.buffer ++ [(target, ⟨request, c.epoch⟩)])

theorem files_of_kept {c d : Conversation P} (hgroup : d.mls.publicPart = c.mls.publicPart)
    (hbuffer : d.buffer = c.buffer) : Files c d := ⟨hgroup, .inl hbuffer⟩

theorem receives_files : Receives (P := P) Files where
  queues _ _ h := files_of_kept rfl (congrArg OrderedMap.entries h)
  mls _ _ h := files_of_kept h rfl
  scoring _ _ := files_of_kept rfl rfl
  answered _ _ _ := files_of_kept rfl rfl
  event _ _ _ := files_of_kept rfl rfl
  outbound _ _ _ := files_of_kept rfl rfl
  deadlines _ _ _ := files_of_kept rfl rfl
  timers _ _ _ := files_of_kept rfl rfl
  list _ _ _ := files_of_kept rfl rfl
  outcomes _ _ := files_of_kept rfl rfl
  arm _ _ _ := files_of_kept rfl rfl
  working _ _ := files_of_kept rfl rfl
  freezing _ _ := files_of_kept rfl rfl
  config _ _ _ := files_of_kept rfl rfl
  drained _ := files_of_kept rfl rfl
  spoken _ _ := files_of_kept rfl rfl
  buffer c request := by
    rcases c.queues.entries_insertPendingUpdate P.mls request c.epoch with h | ⟨target, htarget, hnew, h⟩
    · exact files_of_kept rfl (congrArg OrderedMap.entries h)
    · exact ⟨rfl, .inr ⟨target, request, htarget, hnew, h⟩⟩

/-- `new` was buffered between `c` and `d`: under its targets, first seen now. -/
structure Filed (c d : Conversation P) (new : List (Bytes × PendingUpdate)) : Prop where
  epoch : d.epoch = c.epoch
  buffer : d.buffer = c.buffer ++ new
  target : ∀ e ∈ new, targetMemberIdOf P.mls e.2.request = some e.1
  firstSeen : ∀ e ∈ new, e.2.firstSeenEpoch = c.epoch

theorem filed_of_path {c d : Conversation P} (h : ReflTransGen Files c d) :
    ∃ new, Filed c d new := by
  induction h with
  | refl => exact ⟨[], rfl, (List.append_nil _).symm, by simp, by simp⟩
  | @tail b d _ hstep ih =>
    obtain ⟨new, hepoch, hbuffer, htarget, hseen⟩ := ih
    obtain ⟨hgroup, hstep⟩ := hstep
    have hepoch' : d.epoch = c.epoch := (MlsService.epoch_of_public hgroup).trans hepoch
    rcases hstep with hkept | ⟨target, request, hrequest, -, hfiled⟩
    · exact ⟨new, hepoch', hkept.trans hbuffer, htarget, hseen⟩
    · refine ⟨new ++ [(target, ⟨request, b.epoch⟩)], hepoch', ?_, fun e he => ?_, fun e he => ?_⟩
      · rw [hfiled, hbuffer, List.append_assoc]
      · rcases List.mem_append.mp he with he | he
        · exact htarget e he
        · rw [List.mem_singleton.mp he]
          exact hrequest
      · rcases List.mem_append.mp he with he | he
        · exact hseen e he
        · rw [List.mem_singleton.mp he]
          exact hepoch

/-- The integrator's own recovery mode and the clock are no business of the buffer. -/
theorem filed_entryPoint {e : EntryPoint} (hpoll : ∀ fuel, e ≠ .poll fuel) (c : Conversation P) :
    ∃ new, Filed c (e.leaves c) new := by
  have hkept : ∀ {d : Conversation P}, d.mls.publicPart = c.mls.publicPart → d.buffer = c.buffer →
      ∃ new, Filed c d new := fun hgroup hbuffer =>
    filed_of_path (.single (files_of_kept hgroup hbuffer))
  by_cases hclock : ∃ now, e = .clock now
  · obtain ⟨now, rfl⟩ := hclock
    exact hkept rfl rfl
  by_cases henter : e = .enterRecoveryMode
  · rw [henter]
    exact hkept rfl rfl
  by_cases hexit : e = .exitRecoveryMode
  · rw [hexit]
    exact hkept rfl rfl
  exact filed_of_path (receives_files.entryPoint hpoll (fun now h => hclock ⟨now, h⟩) henter hexit c)

/-! ## A poll -/

/-- **Outcomes** drop what they reject. -/
theorem buffer_handleConsensusOutcome (event : ConsensusEvent) (c : Conversation P) :
    (after (handleConsensusOutcome event) c).buffer =
      (outcomeClearings event c).foldl cleared c.buffer := by
  have hs := rounds_buffer (P := P)
  unfold outcomeClearings
  cases hresolved : c.resolved event.fields.1 with
  | none =>
    rcases after_handleConsensusOutcome_unresolved hresolved with h | h
    · rw [h]
      rfl
    · rw [h]
      rfl
  | some request =>
    have hhanded : (after replayEarlyCandidates (c.handed event request)).buffer = c.buffer := by
      refine congrArg OrderedMap.entries ((pendingUpdates_replayEarlyCandidates _ _).trans ?_)
      exact pendingUpdates_applyConsensusResult _ _ _ _ _
    have hfollow : (after (handleConsensusOutcome event) c).buffer = (after (followUp
        (c.applied event request).1) (after replayEarlyCandidates (c.handed event request))).buffer := by
      rw [after_handleConsensusOutcome_resolved hresolved]
      exact after_bind_of_frame (fun _ => (hs.afterFollowUp _ _).frame) _
    have hkept : ∀ o, o ≠ .electionRejected → (∀ target, o ≠ .rejectedMembership target) →
        (after (followUp o) (after replayEarlyCandidates (c.handed event request))).buffer =
          c.buffer := fun o helection hmembership =>
      ((hs.followUp helection fun target h => absurd h (hmembership target)).frame _).trans hhanded
    rw [hfollow]
    dsimp only
    generalize (c.applied event request).1 = o at hkept ⊢
    cases o with
    | electionRejected => exact (plain_buffer.advanceElectionRetry.frame _).trans hhanded
    | rejectedMembership target =>
      show (OrderedMap.entries _).filter _ = _
      rw [show (after replayEarlyCandidates (c.handed event request)).queues.pendingUpdates.entries =
        c.buffer from hhanded]
      refine List.filter_congr fun e _ => ?_
      simp [Clearing.drops]
    | _ => exact hkept _ (by simp) (by simp)

/-- **Ticks.** -/
theorem buffer_drainOutcomes (fuel : Nat) (c : Conversation P) :
    (after (drainOutcomes fuel) c).buffer = (drainClearings fuel c).foldl cleared c.buffer := by
  induction fuel generalizing c with
  | zero => rfl
  | succ fuel ih =>
    unfold drainOutcomes drainClearings
    rw [after_bind_ok _ (get_apply c)]
    cases c.outcomes with
    | nil => rfl
    | cons event rest =>
      dsimp only
      rw [after_bind_ok _ (modify_apply _ _), after_attempted, ih, List.foldl_append,
        buffer_handleConsensusOutcome]
      rfl

/-- The bookkeeping of a merge drops the changes it carries out. -/
theorem buffer_of_merges {hash : CommitHash} {epoch : Nat} {s t : RoundState P}
    {staged : Option P.mls.StagedCommit} {batch : List ConversationUpdateRequest}
    (h : Merges hash epoch s t staged batch) : t.queues.pendingUpdates.entries =
      cleared s.queues.pendingUpdates.entries (.merged (MlsService.delta t.mls.group
        s.mls.group.populatedLeaves (vacatedBy P.mls s.mls.group staged))) := by
  have hqueues := h.queues
  unfold finalizeCommittedBatch at hqueues
  generalize MlsService.delta t.mls.group s.mls.group.populatedLeaves
    (vacatedBy P.mls s.mls.group staged) = delta at hqueues ⊢
  dsimp only at hqueues
  generalize hbooked : ((s.queues.storeMembershipDelta delta).insertCommittedHash hash
    ).applyMembershipDeltaBookkeeping epoch = q at hqueues
  have hq : q.pendingUpdates.entries = cleared s.queues.pendingUpdates.entries (.merged delta) := by
    rw [← hbooked]
    show (ConversationQueues.pendingUpdates (delta.added.foldl _ (delta.removed.foldl _ _))).entries = _
    rw [ConversationQueues.pendingUpdates_foldl_recordAdded,
      ConversationQueues.pendingUpdates_foldl_forgetRemoved, OrderedMap.entries_eraseAll,
      OrderedMap.entries_eraseAll, List.filter_filter]
    refine List.filter_congr fun e _ => ?_
    rw [Bool.eq_iff_iff]
    simp [Clearing.drops, and_comm]
  have hlast : t.queues.pendingUpdates = q.pendingUpdates := by
    unfold ConversationQueues.takeUrgentCommitTarget at hqueues
    cases hurgent : q.urgentCommitTarget with
    | none =>
      rw [hurgent] at hqueues
      exact (congrArg (fun r => r.2.pendingUpdates) hqueues).symm
    | some target =>
      rw [hurgent] at hqueues
      exact (congrArg (fun r => r.2.pendingUpdates) hqueues).symm
  rw [hlast, hq]

/-- **The reconciliation** drops what is too old at the new epoch. -/
theorem buffer_reconcileMembershipAfterCommit (hS : P.scores.Infallible) (c : Conversation P) :
    (after reconcileMembershipAfterCommit c).buffer =
      cleared c.buffer (.processed c.epoch c.config.pendingUpdateMaxEpochs) := by
  have hq := rounds_buffer (P := P).toQuiet
  have hremoved : ∀ ids, Succeeds (removeScored ids : ConvM P Unit) := fun ids => by
    rw [removeScored_eq]
    exact succeeds_zoom (PeerScoringService.succeeds_removeMembers hS ids)
  have hadded : ∀ ids, Succeeds (addScored ids : ConvM P Unit) := fun ids => by
    rw [addScored_eq]
    exact succeeds_zoom (PeerScoringService.succeeds_addMembers hS ids)
  have hexpired : ∀ (delta : MembershipDelta) (d : Conversation P), (after (do
      modifyQueues fun q => q.expirePendingUpdates c.epoch c.config.pendingUpdateMaxEpochs
      if delta.added ≠ [] ∨ delta.removed ≠ [] then
        emitEvent (.membersChanged delta.added delta.removed)
      else pure () : ConvM P Unit) d).buffer =
        cleared d.buffer (.processed c.epoch c.config.pendingUpdateMaxEpochs) := by
    intro delta d
    unfold modifyQueues
    rw [after_seq _ (succeeds_modify _)]
    split_ifs <;> rfl
  unfold reconcileMembershipAfterCommit
  rw [after_bind_ok _ (get_apply c)]
  dsimp only
  rw [after_seq _ (show Succeeds (modifyQueues _) from succeeds_modify _), after_seq _ (hremoved _),
    after_seq _ (hadded _), hexpired, (hq.scored _).1.frame, (hq.scored _).2.frame]
  rfl

/-! ## A round -/

theorem yardstick_handOver (welcome : Option MemberWelcome) :
    Frame yardstick (handOver welcome : ConvM P Unit) :=
  (ends_yardstick.handOver (fun _ => rfl) welcome).frame

theorem buffer_handOver (welcome : Option MemberWelcome) :
    Frame buffer (handOver welcome : ConvM P Unit) :=
  (rounds_buffer.handOver (fun _ => rfl) welcome).frame

/-- A commit that is processed leaves nothing too old for it. -/
theorem buffer_processed (hS : P.scores.Infallible) {inRecovery hasProposals : Bool}
    {r : CommitRoundResult P.mls} {welcome : Option MemberWelcome}
    (h : r.outcome = .applied .conversationUpdated welcome) (c : Conversation P) :
    (after (finishRound inRecovery hasProposals r) c).buffer =
      cleared c.buffer (.processed c.epoch c.config.pendingUpdateMaxEpochs) := by
  have hyardstick : (after (handOver welcome) (after (reward inRecovery r) c)).yardstick =
      c.yardstick :=
    (yardstick_handOver welcome _).trans ((writes_yardstick.reward inRecovery r).frame c)
  obtain ⟨hepoch, hmax⟩ := Prod.mk.inj hyardstick
  have hhousekeep : Frame buffer (housekeep : ConvM P Unit) := rounds_buffer.housekeep.frame
  rw [finishRound_after h, after_bind_of_frame (fun _ => hhousekeep),
    buffer_reconcileMembershipAfterCommit hS, hepoch, hmax, buffer_handOver,
    (rounds_buffer.reward inRecovery r).frame]

/-- **Rounds** drop what their commit carries out, and then what is too old for it. -/
theorem buffer_advanceFreezing (hS : P.scores.Infallible) (c : Conversation P) :
    (after advanceFreezing c).buffer = c.roundClearings.foldl cleared c.buffer := by
  have hr := rounds_buffer (P := P)
  unfold roundClearings
  cases hround : c.pollRound with
  | none => exact path_keeps (hr.unfinalized hround)
  | some x =>
    obtain ⟨s, r, t⟩ := x
    obtain ⟨-, rfl, hfin⟩ := finalized_of_pollRound hround
    have hfreezing : c.freezingState.buffer = c.buffer := path_keeps (hr.freezingState c)
    have hsettings : c.freezingState.yardstick = c.yardstick :=
      path_keeps (along_ite writes_yardstick.phased.maybeAutoCommitRecovery (along_pure _) c)
    have hmerged : (roundPart.set t c.freezingState.selecting).buffer = (match r.merged with
        | none => []
        | some merged => [Clearing.merged (MlsService.delta t.mls.group
            c.freezingState.roundState.mls.group.populatedLeaves (vacatedBy P.mls
              c.freezingState.roundState.mls.group merged.staged))]).foldl cleared c.buffer := by
      cases hm : r.merged with
      | none =>
        obtain ⟨hqueues, -⟩ := Prod.mk.inj (finalizeCommitRound_not_merged hfin hm).1
        have hqueues : t.queues = c.freezingState.roundState.taken.queues := hqueues
        show t.queues.pendingUpdates.entries = c.buffer
        rw [hqueues]
        exact hfreezing
      | some merged =>
        refine (buffer_of_merges (finalizeCommitRound_merged hfin hm).1).trans ?_
        exact congrArg (cleared · _) hfreezing
    rw [after_round hround]
    dsimp only
    rw [List.foldl_append, ← hmerged]
    by_cases hprocessed : ∃ welcome, r.outcome = .applied .conversationUpdated welcome
    · obtain ⟨welcome, hout⟩ := hprocessed
      rw [buffer_processed hS hout, hout]
      have hmax : c.freezingState.config.pendingUpdateMaxEpochs = c.config.pendingUpdateMaxEpochs :=
        congrArg Prod.snd hsettings
      rw [← hmax]
      rfl
    · have hother : ∀ welcome, r.outcome ≠ .applied .conversationUpdated welcome :=
        fun welcome h => hprocessed ⟨welcome, h⟩
      rw [(hr.unprocessed (finalizeCommitRound_outcome hfin) hother).frame]
      rcases finalizeCommitRound_outcome hfin with hout | ⟨verdict, welcome, hout⟩
      · rw [hout]
        rfl
      · cases verdict with
        | false => exact absurd hout (hother welcome)
        | true =>
          rw [hout]
          rfl

/-! ## Calls and polls -/

theorem buffer_afterDrivers (c : Conversation P) : c.afterDrivers.buffer = c.buffer :=
  path_keeps (plain_buffer.afterDrivers rounds_buffer.toSteady c)

/-- **Polls** drop what their clearings say, and buffer nothing. -/
theorem buffer_poll (hS : P.scores.Infallible) (fuel : Nat) (c : Conversation P) :
    (after (poll fuel) c).buffer =
      (EntryPoint.clearings (.poll fuel) c).foldl cleared c.buffer := by
  rw [after_poll, buffer_afterDrivers, buffer_advanceFreezing hS, after_tickDeadlines,
    buffer_drainOutcomes, (rounds_buffer.phased.fires (rounds_buffer.speak fun _ _ => rfl)).frame c]
  show _ = List.foldl cleared _ (_ ++ _)
  rw [List.foldl_append, ← after_tickDeadlines]

/-- **Calls.** What is dropped is what the clearings of the call say, and what is buffered is a
change of the members, under its target and first seen now. -/
theorem buffer_entryPoint (hS : P.scores.Infallible) (e : EntryPoint) (c : Conversation P) :
    ∃ new, (e.leaves c).buffer = (e.clearings c).foldl cleared c.buffer ++ new ∧
      ∀ x ∈ new, targetMemberIdOf P.mls x.2.request = some x.1 ∧ x.2.firstSeenEpoch = c.epoch ∧
        (e.leaves c).epoch = c.epoch := by
  by_cases hpoll : ∃ fuel, e = .poll fuel
  · obtain ⟨fuel, rfl⟩ := hpoll
    exact ⟨[], (buffer_poll hS fuel c).trans (List.append_nil _).symm, by simp⟩
  · have hpoll : ∀ fuel, e ≠ .poll fuel := fun fuel h => hpoll ⟨fuel, h⟩
    obtain ⟨new, hepoch, hbuffer, htarget, hseen⟩ := filed_entryPoint hpoll c
    have hnone : e.clearings c = [] := by
      cases e with
      | poll fuel => exact absurd rfl (hpoll fuel)
      | _ => rfl
    rw [hnone]
    exact ⟨new, hbuffer, fun x hx => ⟨htarget x hx, hseen x hx, hepoch⟩⟩

/-! ## Runs -/

/-- Every entry stands under the target of its request. -/
def Keyed (c : Conversation P) : Prop :=
  ∀ e ∈ c.buffer, targetMemberIdOf P.mls e.2.request = some e.1

/-- Nothing is buffered between the two. -/
def Thins (c d : Conversation P) : Prop := ∀ e ∈ d.buffer, e ∈ c.buffer

theorem thins_of_kept {c d : Conversation P} (h : d.buffer = c.buffer) : Thins c d :=
  fun _ he => h ▸ he

theorem thins_cleared {c d : Conversation P} {x : Clearing} (h : d.buffer = cleared c.buffer x) :
    Thins c d := fun _ he => (List.mem_filter.mp (h ▸ he)).1

theorem rounds_thins : Rounds (P := P) Thins := rounds_buffer.mono fun _ _ => thins_of_kept

theorem writes_thins : Writes (P := P) Thins where
  toRecovers := rounds_thins.toRecovers
  bump _ := thins_of_kept rfl
  unbuffer _ _ _ he := (List.mem_filter.mp he).1

/-- A poll buffers nothing, whatever fails. -/
theorem thins_poll (fuel : Nat) (c : Conversation P) :
    ReflTransGen Thins c (after (poll fuel) c) := by
  have hr := rounds_thins (P := P)
  have hround : ∀ d : Conversation P, ReflTransGen Thins d (after advanceFreezing d) := by
    intro d
    cases hround : d.pollRound with
    | none => exact hr.unfinalized hround
    | some x =>
      obtain ⟨s, r, t⟩ := x
      obtain ⟨-, rfl, hfin⟩ := finalized_of_pollRound hround
      have hmerged : Thins d.freezingState (roundPart.set t d.freezingState.selecting) := by
        cases hm : r.merged with
        | none =>
          obtain ⟨hqueues, -⟩ := Prod.mk.inj (finalizeCommitRound_not_merged hfin hm).1
          have hqueues : t.queues = d.freezingState.roundState.taken.queues := hqueues
          refine thins_of_kept (?_ : t.queues.pendingUpdates.entries = _)
          rw [hqueues]
          rfl
        | some merged =>
          exact thins_cleared (buffer_of_merges (finalizeCommitRound_merged hfin hm).1)
      rw [after_round hround]
      refine (hr.freezingState d).trans (.head hmerged ?_)
      by_cases hprocessed : ∃ welcome, r.outcome = .applied .conversationUpdated welcome
      · obtain ⟨welcome, hout⟩ := hprocessed
        exact hr.processed (fun _ => thins_of_kept rfl)
          (fun _ _ _ _ he => (List.mem_filter.mp he).1) hout _
      · exact hr.unprocessed (finalizeCommitRound_outcome hfin)
          (fun welcome h => hprocessed ⟨welcome, h⟩) _
  rw [after_poll]
  refine (writes_thins.tickDeadlines (fun _ _ => thins_of_kept rfl) fuel c).trans ((hround _).trans ?_)
  exact writes_thins.afterDrivers hr.toSteady _

theorem Keyed.thins {c d : Conversation P} (hc : c.Keyed) (h : ReflTransGen Thins c d) : d.Keyed := by
  induction h with
  | refl => exact hc
  | tail _ hstep ih => exact fun e he => ih e (hstep e he)

/-- A step of a call keeps the keys. -/
theorem Keyed.files {c d : Conversation P} (hc : c.Keyed) (h : Files c d) : d.Keyed := by
  obtain ⟨-, hkept | ⟨target, request, htarget, -, hfiled⟩⟩ := h
  · intro e he
    exact hc e (hkept ▸ he)
  · intro e he
    rw [hfiled] at he
    rcases List.mem_append.mp he with he | he
    · exact hc e he
    · rw [List.mem_singleton.mp he]
      exact htarget

theorem Keyed.filed {c d : Conversation P} (hc : c.Keyed) {new : List (Bytes × PendingUpdate)}
    (h : Filed c d new) : d.Keyed := by
  intro e he
  rw [h.buffer] at he
  rcases List.mem_append.mp he with he | he
  · exact hc e he
  · exact h.target e he

theorem keyed_of_constructed {c : Conversation P} (h : Constructed c) : c.Keyed := by
  have hreceives : Receives (P := P) fun c d => c.Keyed → d.Keyed :=
    receives_files.mono fun _ _ hstep hc => hc.files hstep
  obtain ⟨base, hbase, hpath⟩ := hreceives.constructed (fun _ _ hc => hc) h
  have hfresh : base.Keyed := by
    obtain ⟨id, window, hqueues⟩ := hbase.fresh
    unfold Keyed buffer
    rw [hqueues]
    simp [ConversationQueues.new]
  clear h
  induction hpath with
  | refl => exact hfresh
  | tail _ hstep ih => exact hstep ih

/-- **Keys.** In every run an entry stands under the target of its request. -/
theorem keyed_of_reaches {c : Conversation P} (h : Reaches Constructed
    (fun c (e : EntryPoint) d => d = e.leaves c) (fun _ _ => True) c) : c.Keyed := by
  refine h.invariant (fun c hc => keyed_of_constructed hc) ?_
  rintro c e _ hc - rfl
  by_cases hpoll : ∃ fuel, e = .poll fuel
  · obtain ⟨fuel, rfl⟩ := hpoll
    exact hc.thins (thins_poll fuel c)
  · obtain ⟨new, hfiled⟩ := filed_entryPoint (fun fuel h => hpoll ⟨fuel, h⟩) c
    exact hc.filed hfiled

/-- What a run of calls leaves. -/
def leavesAll (calls : List EntryPoint) (c : Conversation P) : Conversation P :=
  calls.foldl (fun c e => e.leaves c) c

/-- What drops updates in a run of calls. -/
def clearingsOf : List EntryPoint → Conversation P → List Clearing
  | [], _ => []
  | e :: rest, c => e.clearings c ++ clearingsOf rest (e.leaves c)

/-- The changes of a commit carry out the request. -/
def CarriesOut (O : OpenMls) (delta : MembershipDelta) (request : ConversationUpdateRequest) : Prop :=
  match request.payload with
  | some (.memberInvite keyPackageBytes) =>
    ∃ m ∈ delta.added, signatureKeyOfKeyPackage O keyPackageBytes = .ok m.signatureKey
  | some (.removeMember memberId) => ∃ m ∈ delta.removed, memberIdOf m.leaf = memberId
  | _ => False

/-- The end of a buffered update: its rejection, its commit, or its age. -/
def Clearing.Ends (O : OpenMls) (e : Bytes × PendingUpdate) : Clearing → Prop
  | .rejected target => target = e.1
  | .merged delta => CarriesOut O delta e.2.request
  | .processed epoch maxAge => maxAge < epoch - e.2.firstSeenEpoch

/-- A removal names a leaf, and a joiner's key is none. -/
structure Unambiguous (e : Bytes × PendingUpdate) : Prop where
  leaf : ∀ memberId, e.2.request.payload = some (.removeMember memberId) →
    ∃ leaf, memberId = memberIdOf leaf
  key : ∀ keyPackageBytes, e.2.request.payload = some (.memberInvite keyPackageBytes) →
    ∀ leaf, e.1 ≠ memberIdOf leaf

/-- What drops an entry ends it, where joiners' keys are no leaves. -/
theorem Clearing.ends_of_drops {x : Clearing} {e : Bytes × PendingUpdate}
    (hkey : targetMemberIdOf P.mls e.2.request = some e.1) (hplain : Unambiguous e)
    (hjoiners : ∀ delta, x = .merged delta → ∀ m ∈ delta.added, ∀ leaf,
      m.signatureKey ≠ memberIdOf leaf) (h : x.drops e = true) : x.Ends P.mls e := by
  obtain ⟨target, ⟨⟨_ | payload⟩, firstSeen⟩⟩ := e
  · cases hkey
  cases x with
  | rejected target' => exact (of_decide_eq_true h).symm
  | processed epoch maxAge =>
    have hold : firstSeen < epoch - maxAge := of_decide_eq_true h
    show maxAge < epoch - firstSeen
    omega
  | merged delta =>
    simp only [Clearing.drops, Bool.or_eq_true, decide_eq_true_eq, List.mem_map] at h
    cases payload with
    | memberInvite keyPackageBytes =>
      rcases h with ⟨m, -, hm⟩ | ⟨m, hm, hmkey⟩
      · exact absurd hm.symm (hplain.key keyPackageBytes rfl m.leaf)
      · refine ⟨m, hm, ?_⟩
        simp only [targetMemberIdOf] at hkey
        rw [hmkey]
        generalize signatureKeyOfKeyPackage P.mls keyPackageBytes = o at hkey ⊢
        cases o with
        | error _ => cases hkey
        | ok key => exact congrArg Except.ok (Option.some.inj hkey)
    | removeMember memberId =>
      have hmember : memberId = target := Option.some.inj hkey
      rcases h with ⟨m, hm, hleaf⟩ | ⟨m, hm, hmkey⟩
      · exact ⟨m, hm, hleaf.trans hmember.symm⟩
      · obtain ⟨leaf, hleaf⟩ := hplain.leaf memberId rfl
        exact absurd (hmkey.trans (hmember.symm.trans hleaf)) (hjoiners delta rfl m hm leaf)
    | emergencyCriteria evidence => cases hkey
    | stewardElection election => cases hkey

/-- **Durability.** An entry stays through a run unless something ends it. -/
theorem stays_or_ends (hS : P.scores.Infallible) {calls : List EntryPoint} {c : Conversation P}
    (hjoiners : ∀ delta, .merged delta ∈ clearingsOf calls c → ∀ m ∈ delta.added, ∀ leaf,
      m.signatureKey ≠ memberIdOf leaf)
    {x : Bytes × PendingUpdate} (hx : x ∈ c.buffer)
    (hkey : targetMemberIdOf P.mls x.2.request = some x.1) (hplain : Unambiguous x) :
    x ∈ (leavesAll calls c).buffer ∨ ∃ y ∈ clearingsOf calls c, y.Ends P.mls x := by
  induction calls generalizing c with
  | nil => exact .inl hx
  | cons e rest ih =>
    by_cases hdropped : ∃ y ∈ e.clearings c, y.drops x = true
    · obtain ⟨y, hy, hdrops⟩ := hdropped
      have hmem : y ∈ clearingsOf (e :: rest) c := List.mem_append_left _ hy
      exact .inr ⟨y, hmem, Clearing.ends_of_drops hkey hplain
        (fun delta hdelta => hjoiners delta (hdelta ▸ hmem)) hdrops⟩
    · have hkept : x ∈ (e.leaves c).buffer := by
        obtain ⟨new, hbuffer, -⟩ := buffer_entryPoint hS e c
        rw [hbuffer]
        refine List.mem_append_left _ (mem_foldl_cleared.mpr ⟨hx, fun y hy => ?_⟩)
        exact Bool.eq_false_iff.mpr fun hdrops => hdropped ⟨y, hy, hdrops⟩
      have hrest := ih (fun delta hdelta => hjoiners delta (List.mem_append_right _ hdelta)) hkept
      exact hrest.imp_right fun ⟨y, hy, hends⟩ => ⟨y, List.mem_append_right _ hy, hends⟩

/-! ## The epoch of a processed commit -/

theorem rejected_of_mem_drainClearings {fuel : Nat} {c : Conversation P} {x : Clearing}
    (h : x ∈ drainClearings fuel c) : ∃ target, x = .rejected target := by
  induction fuel generalizing c with
  | zero => cases h
  | succ fuel ih =>
    unfold drainClearings at h
    cases houtcomes : c.outcomes with
    | nil =>
      rw [houtcomes] at h
      cases h
    | cons event rest =>
      rw [houtcomes] at h
      rcases List.mem_append.mp h with h | h
      · unfold outcomeClearings at h
        repeat' split at h
        all_goals simp at h
        exact ⟨_, h⟩
      · exact ih h

/-- A commit is processed at the epoch it leads to, under the bound configured then. -/
theorem yardstick_of_processed {fuel epoch maxAge : Nat} {c : Conversation P}
    (h : .processed epoch maxAge ∈ EntryPoint.clearings (.poll fuel) c) :
    (after (poll fuel) c).yardstick = (epoch, maxAge) := by
  have hw := writes_yardstick (P := P)
  rcases List.mem_append.mp h with h | h
  · obtain ⟨target, htarget⟩ := rejected_of_mem_drainClearings h
    cases htarget
  rw [after_poll, path_keeps (hw.afterDrivers hw.toSteady _)]
  generalize after (tickDeadlines fuel) c = d at h ⊢
  unfold roundClearings at h
  cases hround : d.pollRound with
  | none =>
    rw [hround] at h
    cases h
  | some x =>
    obtain ⟨s, r, t⟩ := x
    rw [hround] at h
    have hmerge : ∀ delta, Clearing.processed epoch maxAge ≠ .merged delta :=
      fun _ => Clearing.noConfusion
    rcases List.mem_append.mp h with h | h
    · split at h
      · cases h
      · exact absurd (List.mem_singleton.mp h) (hmerge _)
    · split at h
      · rename_i welcome hout
        rw [after_round hround, (ends_yardstick.processed (fun _ => rfl) (fun _ _ _ => rfl) hout).frame]
        cases List.mem_singleton.mp h
        have hsettings : d.freezingState.yardstick = d.yardstick :=
          path_keeps (along_ite hw.phased.maybeAutoCommitRecovery (along_pure _) d)
        have hmax : d.freezingState.config.pendingUpdateMaxEpochs = d.config.pendingUpdateMaxEpochs :=
          congrArg Prod.snd hsettings
        exact Prod.ext rfl hmax
      · cases h

theorem epoch_le_leaves (e : EntryPoint) (c : Conversation P) : c.epoch ≤ (e.leaves c).epoch := by
  by_cases hpoll : ∃ fuel, e = .poll fuel
  · obtain ⟨fuel, rfl⟩ := hpoll
    exact (settledWithin_of_turns (le_refl _) (poll_turns fuel c)).1
  · obtain ⟨new, hfiled⟩ := filed_entryPoint (fun fuel h => hpoll ⟨fuel, h⟩) c
    exact hfiled.epoch.ge

theorem epoch_le_leavesAll (calls : List EntryPoint) (c : Conversation P) :
    c.epoch ≤ (leavesAll calls c).epoch := by
  induction calls generalizing c with
  | nil => exact le_refl _
  | cons e rest ih => exact (epoch_le_leaves e c).trans (ih _)

/-- No commit of a run is processed at an epoch past its end. -/
theorem epoch_of_mem_clearingsOf {calls : List EntryPoint} {c : Conversation P} {epoch maxAge : Nat}
    (h : .processed epoch maxAge ∈ clearingsOf calls c) : epoch ≤ (leavesAll calls c).epoch := by
  induction calls generalizing c with
  | nil => cases h
  | cons e rest ih =>
    rcases List.mem_append.mp h with h | h
    · refine le_trans ?_ (epoch_le_leavesAll rest _)
      cases e with
      | poll fuel => exact (congrArg Prod.fst (yardstick_of_processed h)).ge
      | _ => cases h
    · exact ih h

/-! ## The schedule -/

/-- **Buffered updates.** In every run over a storage that does not fail: what a call buffers is new,
and first seen now; an entry stays unless it is rejected, carried out, or too old when a commit is
processed; a processed commit leaves none that is; so under a constant bound an entry lasts for as
many epochs. -/
theorem buffered_update_expires_on_schedule (hS : P.scores.Infallible) {c : Conversation P}
    (h : Reaches Constructed (fun c (e : EntryPoint) d => d = e.leaves c) (fun _ _ => True) c)
    (calls : List EntryPoint)
    (hjoiners : ∀ delta, .merged delta ∈ clearingsOf calls c → ∀ m ∈ delta.added, ∀ leaf,
      m.signatureKey ≠ memberIdOf leaf) :
    (∀ e : EntryPoint, ∀ x ∈ (e.leaves c).buffer, x ∈ c.buffer ∨
      x.2.firstSeenEpoch = c.epoch ∧ (e.leaves c).epoch = c.epoch ∧
        targetMemberIdOf P.mls x.2.request = some x.1 ∧ x.1 ∉ c.buffer.map Prod.fst) ∧
    (∀ x ∈ c.buffer, Unambiguous x → x ∈ (leavesAll calls c).buffer ∨
      ∃ y ∈ clearingsOf calls c, y.Ends P.mls x) ∧
    (∀ fuel epoch maxAge, .processed epoch maxAge ∈ EntryPoint.clearings (.poll fuel) c →
      (after (poll fuel) c).yardstick = (epoch, maxAge) ∧
        ∀ x ∈ (after (poll fuel) c).buffer, epoch - x.2.firstSeenEpoch ≤ maxAge) ∧
    (∀ bound, (∀ epoch maxAge, .processed epoch maxAge ∈ clearingsOf calls c → maxAge = bound) →
      ∀ x ∈ c.buffer, Unambiguous x → (leavesAll calls c).epoch ≤ x.2.firstSeenEpoch + bound →
        x ∈ (leavesAll calls c).buffer ∨ .rejected x.1 ∈ clearingsOf calls c ∨
          ∃ delta, .merged delta ∈ clearingsOf calls c ∧ CarriesOut P.mls delta x.2.request) := by
  have hkeyed := keyed_of_reaches h
  refine ⟨fun e x hx => ?_, fun x hx hplain => ?_, fun fuel epoch maxAge hprocessed => ?_,
    fun bound hbound x hx hplain hyoung => ?_⟩
  · by_cases hpoll : ∃ fuel, e = .poll fuel
    · obtain ⟨fuel, rfl⟩ := hpoll
      have hpolled : (EntryPoint.leaves (.poll fuel) c).buffer = _ := buffer_poll hS fuel c
      rw [hpolled] at hx
      exact .inl (mem_foldl_cleared.mp hx).1
    · obtain ⟨new, hfiled⟩ := filed_entryPoint (fun fuel h => hpoll ⟨fuel, h⟩) c
      have hnodup : ((e.leaves c).buffer.map Prod.fst).Nodup := (e.leaves c).queues.pendingUpdates.nodup
      rw [hfiled.buffer] at hx hnodup
      rcases List.mem_append.mp hx with hx | hx
      · exact .inl hx
      · refine .inr ⟨hfiled.firstSeen x hx, hfiled.epoch, hfiled.target x hx, fun hheld => ?_⟩
        rw [List.map_append] at hnodup
        exact (List.nodup_append.mp hnodup).2.2 x.1 hheld x.1 (List.mem_map_of_mem hx) rfl
  · exact stays_or_ends hS hjoiners hx (hkeyed x hx) hplain
  · refine ⟨yardstick_of_processed hprocessed, fun x hx => ?_⟩
    rw [buffer_poll hS] at hx
    have hyoung := (mem_foldl_cleared.mp hx).2 _ hprocessed
    have hyoung : ¬ x.2.firstSeenEpoch < epoch - maxAge := of_decide_eq_false hyoung
    omega
  · refine (stays_or_ends hS hjoiners hx (hkeyed x hx) hplain).imp_right ?_
    rintro ⟨y, hy, hends⟩
    cases y with
    | rejected target =>
      have htarget : target = x.1 := hends
      exact .inl (htarget ▸ hy)
    | merged delta => exact .inr ⟨delta, hy, hends⟩
    | processed epoch maxAge =>
      have hold : maxAge < epoch - x.2.firstSeenEpoch := hends
      have hmax := hbound epoch maxAge hy
      have hepoch := epoch_of_mem_clearingsOf hy
      omega

end Conversation

/-! ## An update that a commit carries out -/

namespace Ideal

/-- A commit may carry a part of the approvals. -/
def subsets : ConversationConfig := { ConversationConfig.default with stewardList := ⟨1, 2, true⟩ }

/-- The creator of a group, alone in it, where proposals arrive. -/
def wiredAlone : Conversation wired :=
  { conversationOf 0 0 [[10]] ⟨some ⟨[memberIdOf 0], ⟨1, 2, true⟩, 0, 0⟩, ⟨1, 2, true⟩, [], 0, 2⟩
      [] none with
    mls := ⟨[], groupOf 0 0 [[10]], none⟩
    scoring := ⟨[(memberIdOf 0, 100)], ScoreEvent.defaultDelta, ⟨100, 0⟩⟩
    config := subsets
    pendingEvents := [.phaseChange .working] }

/-- Its group begins with a second member. -/
def founding : Conversation wired := after (Conversation.seedInitialMembers [[11]]) wiredAlone

theorem constructed_founding : Conversation.Constructed founding := by
  have hbase : Conversation.assemble (⟨[], groupOf 0 0 [[10]], none⟩ : MlsService wired.mls)
      ⟨[], ScoreEvent.defaultDelta, ⟨100, 0⟩⟩ [] 0 [0] subsets true = .ok wiredAlone := by
    rfl
  have hseed : Conversation.seedInitialMembers [[11]] wiredAlone = .ok () founding := rfl
  exact .create hbase hseed

/-- The second member proposes to invite a key package. -/
def invitation (id : ProposalId) (key : Bytes) : Conversation.EntryPoint :=
  .processInbound [] (frameOf 3 1 1 (wireCodec.encodeApp ⟨some (.proposal
    ⟨[], encodeRequest (.memberInvite key), id, memberIdOf 1, [], 2, 1, 0, 1000, true⟩)⟩))

def mirroring : Conversation wired := (invitation 1 [12]).leaves founding

/-- The vote times out with a yes, the batch window passes, and then the freeze. -/
def mirroringCalls : List Conversation.EntryPoint :=
  [.clock (seconds 60), .poll 4, .clock (seconds 120), .poll 4, .clock (seconds 150), .poll 4]

end Ideal

/-- The mirrored invite of epoch 1 stays until the commit that adds the member, and is gone then. -/
theorem mirrored_invite_carried_out :
    (([12], ⟨.memberInvite [12], 1⟩) : Bytes × PendingUpdate) ∈ Ideal.mirroring.buffer ∧
    (Conversation.leavesAll Ideal.mirroringCalls Ideal.mirroring).buffer = [] ∧
    ∃ y ∈ Conversation.clearingsOf Ideal.mirroringCalls Ideal.mirroring,
      y.Ends Ideal.mls ([12], ⟨.memberInvite [12], 1⟩) := by
  have hrun : Reaches Conversation.Constructed
      (fun c (e : Conversation.EntryPoint) d => d = e.leaves c) (fun _ _ => True)
      Ideal.mirroring :=
    .next (.start Ideal.constructed_founding) trivial rfl
  have hbuffered : (([12], ⟨.memberInvite [12], 1⟩) : Bytes × PendingUpdate) ∈
      Ideal.mirroring.buffer := by
    decide +kernel
  have hdropped : (Conversation.leavesAll Ideal.mirroringCalls Ideal.mirroring).buffer = [] := by
    decide +kernel
  have hclearings : Conversation.clearingsOf Ideal.mirroringCalls Ideal.mirroring =
      [.merged ⟨[⟨2, [12]⟩], []⟩, .processed 2 3] := by
    decide +kernel
  -- The key of the joiner is one byte, a leaf is four.
  have hkey : ∀ leaf, ([12] : Bytes) ≠ memberIdOf leaf := by
    intro leaf h
    have hlength : 1 = 4 := congrArg List.length h
    omega
  obtain ⟨-, hstays, -⟩ := Conversation.buffered_update_expires_on_schedule
    Ideal.scores_infallible hrun Ideal.mirroringCalls (by
      rw [hclearings]
      intro delta hdelta m hm leaf
      simp only [List.mem_cons, List.not_mem_nil, or_false, reduceCtorEq] at hdelta
      cases hdelta
      cases List.mem_singleton.mp hm
      exact hkey leaf)
  refine ⟨hbuffered, hdropped, (hstays _ hbuffered ⟨?_, ?_⟩).resolve_left ?_⟩
  · intro memberId h
    cases h
  · exact fun _ _ => hkey
  · rw [hdropped]
    exact List.not_mem_nil

end DeMls
