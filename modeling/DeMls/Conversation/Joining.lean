import DeMls.Conversation.Construct
import DeMls.Conversation.Packets
import DeMls.Conversation.Scored
import DeMls.Conversation.SyncAtomic
import DeMls.Conversation.Traffic
import DeMls.IdealWire

/-!
# Joining with any bootstrap

A welcome opens its group once, and the sync that comes with it may be anything. `join_survives_iff`
says which sync bytes a joiner survives: all those it ignores or can judge, and none that `Spoils`
the join, where an error of the decoding, of the checks or of the consensus service goes through to
the caller.
-/

namespace DeMls

open Program

variable {P : Platform} {α : Type}

/-! ## Platforms that do not fail -/

/-- Encrypting a message does not fail. -/
def MlsService.Builds (O : OpenMls) : Prop :=
  ∀ bytes, Succeeds (MlsService.buildMessage bytes : MlsService.MlsM O Bytes)

/-- Whoever opens a group from a welcome has a seat in it. -/
def OpenMlsWelcome.Seats {O : OpenMls} (W : OpenMlsWelcome O) : Prop :=
  ∀ staged g, W.intoGroup staged = .ok g → g.ownLeafIndex ∈ g.populatedLeaves

theorem MlsService.newFromWelcome_seated {O : OpenMls} {W : OpenMlsWelcome O} (hW : W.Seats)
    {welcomeBytes : Bytes} {mls : MlsService O}
    (h : newFromWelcome W welcomeBytes = .ok (some mls)) :
    mls.group.ownLeafIndex ∈ mls.group.populatedLeaves := by
  unfold newFromWelcome at h
  split at h
  · cases h
  · split at h
    · cases h
    · split at h
      · cases h
      · cases h
      · cases h
      · split at h
        · cases h
        · rename_i hgroup
          cases h
          exact hW _ _ hgroup

/-- A storage that does not fail serves every call. -/
theorem PeerScoreStorage.Infallible.serves {S : PeerScoreStorage} (hS : S.Infallible)
    (calls : List ScoreCall) (st : S.Store) : S.Serves calls st := by
  induction calls generalizing st with
  | nil => trivial
  | cons call rest ih =>
    cases call with
    | get id => exact ⟨hS.get st id, ih st⟩
    | set id score =>
      obtain ⟨st', hset⟩ := hS.set st id score
      exact ⟨st', hset, ih st'⟩

theorem PeerScoringService.adoptionServed {S : PeerScoreStorage} (hS : S.Infallible)
    (s : PeerScoringService S) (defaultScore : Int) (diverged : List (Bytes × Int)) :
    s.AdoptionServed defaultScore diverged := by
  unfold AdoptionServed
  split_ifs with hsame
  · exact hS.serves _ _
  · obtain ⟨all, hall⟩ := hS.allScores s.storage
    exact ⟨all, hall, hS.serves _ _⟩

/-! ## Bytes that spoil a join -/

/-- The message makes the dispatch fail: a sync that a member could send and that has no list size
or nobody to elect, a proposal or a vote that the consensus service refuses. -/
def Objects (mls : MlsService P.mls) (consensus : P.consensus.State) (now : Nat)
    (message : AppMessage) (member : Member) : Prop :=
  match message.payload with
  | some (.conversationSync sync) => sync.Credible mls.group.epoch mls.members ∧
      ¬ (sync.listConfig.Valid ∧ sync.poolIn mls.members ≠ [])
  | some (.proposal proposal) =>
    authorizeFastPathProposal P proposal (memberIdOf member.index) = true ∧
      ∃ e, (P.consensus.processIncomingProposal consensus proposal (asSecs now)).1 = .error e
  | some (.vote vote) => ∃ e, (P.consensus.processIncomingVote consensus vote (asSecs now)).1 =
      .error e ∧ e ≠ .sessionNotActive ∧ e ≠ .sessionNotFound
  | _ => False

/-- The bytes are a ciphertext that the group fails to decrypt, or that holds no message or one
that makes the dispatch fail. -/
def Spoils (mls : MlsService P.mls) (consensus : P.consensus.State) (now : Nat) (bytes : Bytes) :
    Prop :=
  bytes ≠ [] ∧ Conversation.isPlaintext P bytes = false ∧
    match MlsService.decryptApplicationOnly bytes mls with
    | .error _ _ => True
    | .ok none _ => False
    | .ok (some decrypted) _ =>
      match P.codec.decodeApp decrypted.payload with
      | .error _ => True
      | .ok message => Objects mls consensus now message decrypted.member

namespace Conversation

/-- A node that has just joined: at work, without a list, a proposal or a member it has seen
come. -/
structure Newcomer (c : Conversation P) : Prop where
  works : c.state = .working
  unlisted : c.stewardList.list = none
  nothingApproved : c.queues.approvedProposalsCount = 0
  unfrozen : ∀ kind, c.queues.partialFreezeBlocks kind = false
  peopled : ∀ epoch, c.settledPool epoch ≠ []

/-- At work, and without a steward list when no sync was applied. -/
def Joined (c : Conversation P) : Prop :=
  c.state = .working ∧
    (.conversationSyncApplied ∉ c.pendingEvents → c.stewardList.list = none)

/-- The phase and the list. -/
def footing (c : Conversation P) : ConversationState × Option StewardList :=
  (c.state, c.stewardList.list)

theorem Newcomer.joined {c d : Conversation P} (h : c.Newcomer) (hd : d.footing = c.footing) :
    d.Joined :=
  ⟨(congrArg Prod.fst hd).trans h.works, fun _ => (congrArg Prod.snd hd).trans h.unlisted⟩

/-! ## What a newcomer receives -/

theorem footing_onConsensus
    (f : P.consensus.State → Except ConsensusError α × P.consensus.State × List ConsensusEvent) :
    Frame footing (onConsensus f : ConvM P α) :=
  frame_ofPair fun _ => rfl

theorem footing_scheduleVote (id : ProposalId) (decoded : Option ConversationUpdateRequest) :
    Frame footing (scheduleVote id decoded : ConvM P Unit) := by
  unfold scheduleVote
  refine frame_bind (frame_get _) fun c => ?_
  split
  · exact frame_bind (frame_ofResult _ _) fun _ => frame_modify fun _ => rfl
  · exact frame_bind (frame_modify fun _ => rfl) fun _ => frame_modify fun _ => rfl
  · exact frame_modify fun _ => rfl

theorem footing_enlist (proposal : Proposal) (epoch consensusTimeout : Nat) :
    Frame footing (enlist proposal epoch consensusTimeout : ConvM P Unit) := by
  unfold enlist
  refine frame_bind ?_ fun _ => frame_ite ?_ (frame_pure _ _)
  · unfold mirrorRequest
    split
    · exact frame_modify fun _ => rfl
    · exact frame_pure _ _
  · exact frame_bind (footing_scheduleVote _ _) fun _ => frame_modify fun _ => rfl

/-- A list can be checked while somebody is settled. -/
theorem Newcomer.checks {c : Conversation P} (h : c.Newcomer) (election : StewardElectionProposal)
    (e : ConversationError) : c.validateElectionList election ≠ .error e := by
  intro herror
  exact h.peopled _ (StewardList.validate_error.mp herror).1

/-- **A proposal** reaches a newcomer when the consensus service takes it. -/
theorem Newcomer.onIncomingProposal_iff {c : Conversation P} (h : c.Newcomer)
    (proposal : Proposal) :
    (∃ d, (onIncomingProposal proposal : ConvM P Unit) c = .ok () d ∧ d.Joined) ↔
      ¬ ∃ e, (P.consensus.processIncomingProposal c.consensus proposal (asSecs c.now)).1 =
        .error e := by
  have hgate := h.unfrozen (kindOf P proposal)
  rcases hcall : c.admission proposal with ⟨r, st, outs⟩
  have hcall' : P.consensus.processIncomingProposal c.consensus proposal (asSecs c.now) =
      (r, st, outs) := hcall
  rw [hcall']
  cases r with
  | error e =>
    refine iff_of_false ?_ (not_not.mpr ⟨e, rfl⟩)
    rintro ⟨d, hrun, _⟩
    unfold onIncomingProposal at hrun
    rw [bind_run _ (get_apply c)] at hrun
    dsimp only at hrun
    have hgate' : ¬ c.queues.partialFreezeBlocks (((P.codec.decodeRequest
        proposal.payload).toOption.map ProposalKind.of).getD .commit) = true :=
      Bool.eq_false_iff.mp hgate
    rw [if_neg hgate', bind_run _ (attempt_onConsensus _ c), hcall'] at hrun
    dsimp only [Except.mapError] at hrun
    split_ifs at hrun <;> cases hrun
  | ok u =>
    refine iff_of_true ?_ fun ⟨e, he⟩ => (nomatch he)
    have hrun : ∃ d, (enlist proposal c.epoch c.config.consensusTimeout : ConvM P Unit)
        (c.answered st outs) = .ok () d := by
      unfold enlist
      rw [bind_run _ (mirrorRequest_run c proposal st outs)]
      by_cases hvoters : 1 < proposal.expectedVotersCount
      · rw [if_pos hvoters]
        rcases scheduleVote_cases proposal.proposalId (requestOf P proposal)
          (c.admitted proposal st outs) with ⟨election, e, _, herror, _⟩ | ⟨_, d, _, hrun, _⟩
        · rw [validateElectionList_admitted] at herror
          exact absurd herror (h.checks election e)
        · exact ⟨_, bind_run _ hrun⟩
      · rw [if_neg hvoters]
        exact ⟨_, rfl⟩
    obtain ⟨d, hrun⟩ := hrun
    refine ⟨d, (onIncomingProposal_accepted hgate hcall).trans hrun, h.joined ?_⟩
    have hkept : d.footing = (c.answered st outs).footing := (footing_enlist proposal _ _).ok hrun
    exact hkept

/-- **A vote** reaches a newcomer when the service takes it, or knows no active session of it. -/
theorem Newcomer.forwardIncomingVote_iff {c : Conversation P} (h : c.Newcomer) (vote : Vote) :
    (∃ d, (forwardIncomingVote vote : ConvM P Unit) c = .ok () d ∧ d.Joined) ↔
      ¬ ∃ e, (P.consensus.processIncomingVote c.consensus vote (asSecs c.now)).1 = .error e ∧
        e ≠ .sessionNotActive ∧ e ≠ .sessionNotFound := by
  have hframe : Frame footing (forwardIncomingVote vote : ConvM P Unit) := by
    unfold forwardIncomingVote
    refine frame_bind (frame_get _) fun c => ?_
    refine frame_bind (frame_attempt (footing_onConsensus _)) fun r => ?_
    split
    · exact frame_pure _ _
    · exact frame_pure _ _
    · exact frame_pure _ _
    · exact frame_throw _ _
  have hrun : (∃ d, (forwardIncomingVote vote : ConvM P Unit) c = .ok () d) ↔
      ¬ ∃ e, (P.consensus.processIncomingVote c.consensus vote (asSecs c.now)).1 = .error e ∧
        e ≠ .sessionNotActive ∧ e ≠ .sessionNotFound := by
    unfold forwardIncomingVote
    rw [bind_run _ (get_apply c), bind_run _ (attempt_onConsensus _ c)]
    rcases P.consensus.processIncomingVote c.consensus vote (asSecs c.now) with ⟨r, st, outs⟩
    cases r with
    | ok u => exact iff_of_true ⟨_, rfl⟩ fun ⟨e, he, _⟩ => (nomatch he)
    | error e =>
      cases e with
      | sessionNotActive =>
        refine iff_of_true ⟨_, rfl⟩ ?_
        rintro ⟨e, he, hactive, _⟩
        cases he
        exact hactive rfl
      | sessionNotFound =>
        refine iff_of_true ⟨_, rfl⟩ ?_
        rintro ⟨e, he, _, hfound⟩
        cases he
        exact hfound rfl
      | _ =>
        refine iff_of_false (fun ⟨d, hd⟩ => (nomatch hd)) (not_not.mpr ⟨_, rfl, ?_, ?_⟩) <;>
          exact fun h => (nomatch h)
  rw [← hrun]
  constructor
  · rintro ⟨d, hd, _⟩
    exact ⟨d, hd⟩
  · rintro ⟨d, hd⟩
    exact ⟨d, hd, h.joined (hframe.ok hd)⟩

/-- **A sync** that reaches a newcomer is applied or dropped, unless a check of it fails. -/
theorem Newcomer.onConversationSync_iff {c : Conversation P} (h : c.Newcomer)
    (hscores : P.scores.Infallible) (sync : ConversationSync) :
    (∃ d, (onConversationSync sync : ConvM P Unit) c = .ok () d ∧ d.Joined) ↔
      ¬ (sync.Credible c.mls.group.epoch c.mls.members ∧
        ¬ (sync.listConfig.Valid ∧ sync.poolIn c.mls.members ≠ [])) := by
  have htaken : ¬ c.RefusesSync sync := by
    rintro ⟨mine, hmine, _⟩
    cases h.unlisted.symm.trans hmine
  rw [show sync.Credible c.mls.group.epoch c.mls.members ∧
      ¬ (sync.listConfig.Valid ∧ sync.poolIn c.mls.members ≠ []) ↔
        ∃ e, validateConversationSync P c.conversationId sync c.epoch c.members = .error e from
    validateConversationSync_error_iff.symm]
  cases hvalid : validateConversationSync P c.conversationId sync c.epoch c.members with
  | error e =>
    refine iff_of_false ?_ (not_not.mpr ⟨e, rfl⟩)
    rintro ⟨d, hrun, _⟩
    rw [onConversationSync_eq, if_neg htaken, hvalid] at hrun
    cases hrun
  | ok valid =>
    refine iff_of_true ?_ fun ⟨e, he⟩ => (nomatch he)
    cases valid with
    | false =>
      refine ⟨c.answeredSync, ?_, h.joined rfl⟩
      rw [onConversationSync_eq, if_neg htaken, hvalid]
    | true =>
      obtain ⟨d, hadopt⟩ := (adoptScores_ok_iff sync (c.answeredSync.seated sync)).mpr
        (PeerScoringService.adoptionServed hscores _ _ _)
      have hstate : d.state = (c.answeredSync.seated sync).state := by
        have hframe : Frame (fun c : Conversation P => c.state) (adoptScores sync : ConvM P Unit) :=
          frame_bind (frame_zoom fun _ _ => rfl) fun _ =>
            frame_bind (frame_zoom fun _ _ => rfl) fun _ =>
              frame_bind (frame_zoom fun _ _ => rfl) fun changes =>
                fun c => congrArg Prod.snd (flight_emitScoreChanges changes c)
        exact hframe.ok hadopt
      refine ⟨_, (onConversationSync_takes ⟨htaken, hvalid⟩).trans (bind_run _ hadopt),
        hstate.trans h.works, fun hnone => absurd ?_ hnone⟩
      exact List.mem_append_right _ List.mem_cons_self

/-- A newcomer is no steward, and answers no request. -/
theorem Newcomer.onConversationSyncRequest_run {c : Conversation P} (h : c.Newcomer) :
    (onConversationSyncRequest : ConvM P Unit) c = .ok () c := by
  have hepoch : c.isEpochSteward = false := by
    unfold isEpochSteward StewardListService.epochAndBackup
    rw [h.unlisted]
    exact decide_eq_false fun hnone => (nomatch hnone)
  have hsteward : c.isSteward = false := by
    unfold isSteward StewardListService.isSteward
    rw [h.unlisted]
  unfold onConversationSyncRequest
  rw [bind_run _ (get_apply c), if_neg (by simp [hepoch]), if_neg (by simp [hsteward])]
  rfl

/-- A membership change is buffered. -/
theorem Newcomer.handleIncomingUpdateRequest_run {c : Conversation P} (h : c.Newcomer)
    (request : ConversationUpdateRequest) :
    ∃ d, (handleIncomingUpdateRequest request : ConvM P Unit) c = .ok () d ∧ d.Joined := by
  have hsteward : decide (c.stewardList.epochSteward c.epoch
      (c.queues.stewardEligibility c.members) = some c.selfMemberId) = false := by
    unfold StewardListService.epochSteward
    rw [h.unlisted]
    exact decide_eq_false fun hnone => (nomatch hnone)
  unfold handleIncomingUpdateRequest
  rw [bind_run _ (get_apply c)]
  split_ifs with htarget
  · exact ⟨c, rfl, h.joined rfl⟩
  · let d : Conversation P := { c with
      queues := c.queues.insertPendingUpdate P.mls request c.epoch }
    refine ⟨d, ?_, h.joined rfl⟩
    rw [bind_run _ (show (modifyQueues fun q => q.insertPendingUpdate P.mls request c.epoch :
      ConvM P Unit) c = .ok () d from rfl), hsteward]
    rfl

/-! ## Dispatch -/

/-- A dispatch that ends well. -/
theorem done_iff {x : ConvM P Unit} {c : Conversation P} :
    (∃ o d, (do
      x
      pure .done : ConvM P DispatchOutcome) c = .ok o d ∧ d.Joined) ↔
        ∃ d, x c = .ok () d ∧ d.Joined := by
  simp only [bind_ok, pure_ok]
  constructor
  · rintro ⟨_, d, ⟨_, _, hrun, _, rfl⟩, hjoined⟩
    exact ⟨_, hrun, hjoined⟩
  · rintro ⟨d, hrun, hjoined⟩
    exact ⟨.done, d, ⟨(), d, hrun, rfl, rfl⟩, hjoined⟩

/-- **A decrypted message** ends well in a newcomer unless the dispatch objects. -/
theorem Newcomer.dispatch_iff {c : Conversation P} (h : c.Newcomer)
    (hscores : P.scores.Infallible) (message : AppMessage) (member : Member) :
    (∃ o d, (dispatchInboundResult (classifyAppMessage c.mls message member) :
        ConvM P DispatchOutcome) c = .ok o d ∧ d.Joined) ↔
      ¬ Objects c.mls c.consensus c.now message member := by
  have hnoop : ∀ reason, ∃ o d, (dispatchInboundResult (.noop reason) :
      ConvM P DispatchOutcome) c = .ok o d ∧ d.Joined := fun _ => ⟨.done, c, rfl, h.joined rfl⟩
  have hchat : ∃ o d, (dispatchInboundResult (.appMessage message member) :
      ConvM P DispatchOutcome) c = .ok o d ∧ d.Joined := ⟨.done, _, rfl, h.joined rfl⟩
  obtain ⟨payload⟩ := message
  rcases payload with _ | payload
  · exact iff_of_true (hnoop _) not_false
  · cases payload with
    | conversationSync sync => exact done_iff.trans (h.onConversationSync_iff hscores sync)
    | vote vote => exact done_iff.trans (h.forwardIncomingVote_iff vote)
    | proposal proposal =>
      unfold Objects classifyAppMessage
      dsimp only
      cases authorizeFastPathProposal P proposal (memberIdOf member.index) with
      | true =>
        rw [if_pos rfl]
        refine (done_iff.trans (h.onIncomingProposal_iff proposal)).trans ?_
        rw [not_iff_not]
        exact ⟨fun he => ⟨rfl, he⟩, fun he => he.2⟩
      | false => exact iff_of_true (hnoop _) fun he => (nomatch he.1)
    | conversationSyncRequest =>
      exact iff_of_true (done_iff.mpr ⟨c, h.onConversationSyncRequest_run, h.joined rfl⟩) not_false
    | banRequest target _ =>
      refine iff_of_true ?_ not_false
      unfold classifyAppMessage
      dsimp only
      split_ifs
      · exact done_iff.mpr (h.handleIncomingUpdateRequest_run _)
      · exact hnoop _
    | conversationMessage _ _ => exact iff_of_true hchat not_false
    | membershipChange _ _ _ => exact iff_of_true hchat not_false
    | _ => exact iff_of_true (hnoop _) not_false

/-! ## The bootstrap -/

/-- Before any approval a candidate is not taken up. -/
theorem receiveCommitCandidate_noop {q : ConversationQueues} (h : q.approvedProposalsCount = 0)
    (mls : MlsService P.mls) (candidate : CommitCandidate) :
    ∃ reason, (receiveCommitCandidate P q mls candidate).1 = .noop reason := by
  unfold receiveCommitCandidate
  dsimp only
  split_ifs <;> exact ⟨_, rfl⟩

/-- Reading a message moves secrets only. -/
theorem Newcomer.of_public {c : Conversation P} (h : c.Newcomer) {mls : MlsService P.mls}
    (hpublic : mls.publicPart = c.mls.publicPart) : Newcomer { c with mls := mls } where
  works := h.works
  unlisted := h.unlisted
  nothingApproved := h.nothingApproved
  unfrozen := h.unfrozen
  peopled epoch := by
    show c.queues.settledMembers mls.members epoch ≠ []
    rw [MlsService.members_of_public hpublic]
    exact h.peopled epoch

theorem objects_of_public {mls mls' : MlsService P.mls} (hpublic : mls'.publicPart = mls.publicPart)
    (consensus : P.consensus.State) (now : Nat) (message : AppMessage) (member : Member) :
    Objects mls' consensus now message member ↔ Objects mls consensus now message member := by
  unfold Objects
  rw [MlsService.epoch_of_public hpublic, MlsService.members_of_public hpublic]

/-- A packet that is no ciphertext changes no list and no phase. -/
theorem Newcomer.plaintext_joined {c : Conversation P} (h : c.Newcomer) {bytes : Bytes}
    (hplain : isPlaintext P bytes = true) :
    ∃ o d, (decodeInbound bytes >>= dispatchInboundResult : ConvM P DispatchOutcome) c = .ok o d ∧
      d.Joined := by
  unfold isPlaintext at hplain
  unfold decodeInbound
  rcases hdecode : P.codec.decodeApp bytes with e | ⟨_ | envelope⟩
  · rw [hdecode] at hplain
    cases hplain
  · rw [hdecode] at hplain
    cases hplain
  · rw [hdecode] at hplain
    cases envelope with
    | commitCandidate candidate =>
      obtain ⟨reason, hreason⟩ := receiveCommitCandidate_noop h.nothingApproved c.mls candidate
      let d : Conversation P := { c with
        queues := (receiveCommitCandidate P c.queues c.mls candidate).2 }
      refine ⟨.done, d, ?_, h.joined rfl⟩
      show (dispatchInboundResult (receiveCommitCandidate P c.queues c.mls candidate).1 :
        ConvM P DispatchOutcome) d = _
      rw [hreason]
      rfl
    | memberWelcome welcome =>
      rw [bind_assoc, bind_run _ (get_apply c)]
      dsimp only
      split_ifs with hempty hnew
      · exact ⟨.done, c, rfl, h.joined rfl⟩
      · exact ⟨.done, _, rfl, h.joined rfl⟩
      · exact ⟨.done, _, rfl, h.joined rfl⟩
    | _ => cases hplain

/-- A bootstrap is received like any other packet. -/
theorem applyWelcomeSync_ok {c d : Conversation P} {bytes : Bytes} (h : bytes ≠ []) :
    (applyWelcomeSync bytes : ConvM P Unit) c = .ok () d ↔
      ∃ o, (decodeInbound bytes >>= dispatchInboundResult : ConvM P DispatchOutcome) c =
        .ok o d := by
  unfold applyWelcomeSync
  rw [if_neg h]
  simp only [bind_ok, pure_ok]
  constructor
  · rintro ⟨result, t, hdecode, o, _, hrun, _, rfl⟩
    exact ⟨o, result, t, hdecode, hrun⟩
  · rintro ⟨o, result, t, hdecode, hrun⟩
    exact ⟨result, t, hdecode, o, d, hrun, trivial, rfl⟩

/-- **The bootstrap** ends well in a newcomer unless its bytes spoil it. -/
theorem Newcomer.applyWelcomeSync_iff {c : Conversation P} (h : c.Newcomer)
    (hscores : P.scores.Infallible) (bytes : Bytes) :
    (∃ d, (applyWelcomeSync bytes : ConvM P Unit) c = .ok () d ∧ d.Joined) ↔
      ¬ Spoils c.mls c.consensus c.now bytes := by
  unfold Spoils
  by_cases hempty : bytes = []
  · unfold applyWelcomeSync
    rw [if_pos hempty]
    exact iff_of_true ⟨_, rfl, h.joined rfl⟩ fun hspoils => hspoils.1 hempty
  · simp only [applyWelcomeSync_ok hempty, ← exists_and_right]
    rw [exists_comm]
    cases hplain : isPlaintext P bytes with
    | true => exact iff_of_true (h.plaintext_joined hplain) fun hspoils => (nomatch hspoils.2.1)
    | false =>
      cases hdecrypt : MlsService.decryptApplicationOnly bytes c.mls with
      | error e mls =>
        refine iff_of_false ?_ fun hspoils => hspoils ⟨hempty, rfl, trivial⟩
        rintro ⟨o, d, hrun, _⟩
        obtain ⟨result, t, hdecode, _⟩ := (bind_ok _ _ _ _ _).mp hrun
        obtain ⟨_, _, hmls⟩ := exists_decrypted_of_decodeInbound hplain hdecode
        cases hmls.symm.trans hdecrypt
      | ok decrypted mls =>
        cases decrypted with
        | none =>
          refine iff_of_true ⟨.done, { c with mls := mls }, ?_, h.joined rfl⟩ fun hspoils =>
            hspoils.2.2
          rw [bind_run _ (decodeInbound_ignored hplain hdecrypt)]
          rfl
        | some decrypted =>
          obtain ⟨plaintext, member⟩ := decrypted
          cases hmessage : P.codec.decodeApp plaintext with
          | error e =>
            refine iff_of_false ?_ fun hspoils => hspoils ⟨hempty, rfl, ?_⟩
            · rintro ⟨o, d, hrun, _⟩
              obtain ⟨_, _, hdecode, _⟩ := (bind_ok _ _ _ _ _).mp hrun
              obtain ⟨message, hread⟩ := exists_message_of_decodeInbound hplain hdecrypt hdecode
              cases hread.symm.trans hmessage
            · dsimp only
              rw [hmessage]
              trivial
          | ok message =>
            obtain ⟨mls', hpublic, hdecode⟩ := decodeInbound_opens (c := c)
              ⟨hplain, plaintext, mls, hdecrypt, hmessage⟩
            rw [bind_run _ hdecode]
            refine ((h.of_public hpublic).dispatch_iff hscores message member).trans ?_
            rw [not_iff_not]
            refine (objects_of_public hpublic _ _ _ _).trans ?_
            dsimp only
            rw [hmessage]
            exact ⟨fun hobjects => ⟨hempty, rfl, hobjects⟩, fun hspoils => hspoils.2.2⟩

/-! ## Joining -/

/-- The group once its joiner has introduced itself. -/
def introduced (mls : MlsService P.mls) : MlsService P.mls :=
  after (MlsService.buildMessage (P.codec.encodeApp ⟨some (.membershipChange mls.conversationId
    (memberIdOf mls.group.ownLeafIndex) 0)⟩)) mls

/-- What a joiner is assembled from. -/
structure Assembled (mls : MlsService P.mls) (scoring : PeerScoringService P.scores)
    (consensus : P.consensus.State) (now : Nat) (config : ConversationConfig)
    (c : Conversation P) : Prop where
  group : c.mls = mls
  scoring : c.scoring = scoring
  consensus : c.consensus = consensus
  now : c.now = now
  conversation : c.conversationId = mls.conversationId
  self : c.selfMemberId = memberIdOf mls.group.ownLeafIndex
  list : c.stewardList = ⟨none, config.stewardList, mls.conversationId, 0,
    config.maxReelectionAttempts⟩
  queues : c.queues = .new mls.conversationId config.dedupWindow
  works : c.state = .working

section
variable {mls : MlsService P.mls} {scoring : PeerScoringService P.scores}
  {consensus : P.consensus.State} {now : Nat} {config : ConversationConfig}

theorem assemble_joiner (mls : MlsService P.mls) (consensus : P.consensus.State) (now : Nat)
    (appId : Bytes) (hconfig : config.validate = .ok ())
    (hscoring : scoring.config.validate = .ok ()) :
    ∃ c, assemble mls scoring consensus now appId config false = .ok c ∧
      c.Assembled mls scoring consensus now config := by
  unfold assemble
  rw [hconfig, hscoring]
  exact ⟨_, rfl, rfl, rfl, rfl, rfl, rfl, rfl, rfl, rfl, rfl⟩

/-- Whatever is assembled passed both checks. -/
theorem validate_of_assemble {appId : Bytes} {isCreation : Bool} {c : Conversation P}
    (h : assemble mls scoring consensus now appId config isCreation = .ok c) :
    config.validate = .ok () ∧ scoring.config.validate = .ok () := by
  unfold assemble at h
  cases hconfig : config.validate with
  | error e =>
    rw [hconfig] at h
    cases h
  | ok _ =>
    cases hscoring : scoring.config.validate with
    | error e =>
      rw [hconfig, hscoring] at h
      cases h
    | ok _ => exact ⟨rfl, rfl⟩

/-- What a constructor starts from: everything but the list and the scores is the same for a creator,
which is alone on its list, and for a joiner, which has none. -/
theorem shape_of_assemble {appId : Bytes} {isCreation : Bool} {c : Conversation P}
    (h : assemble mls scoring consensus now appId config isCreation = .ok c) :
    ∃ list scores, c =
      { conversationId := mls.conversationId
        now := now
        queues := .new mls.conversationId config.dedupWindow
        mls := mls
        scoring := scores
        stewardList := list
        consensus := consensus
        outcomes := []
        state := .working
        config := config
        operatingMode := .normal
        recoveryRounds := 0
        timing := .new
        selfMemberId := memberIdOf mls.group.ownLeafIndex
        appId := appId
        pendingEvents := [.phaseChange .working]
        pendingOutbound := [] } ∧
      (isCreation = false → scores = scoring ∧ list =
        ⟨none, config.stewardList, mls.conversationId, 0, config.maxReelectionAttempts⟩) ∧
      (isCreation = true →
        PeerScoringService.addMember (memberIdOf mls.group.ownLeafIndex) scoring = .ok () scores ∧
        StewardListService.installList P
          ⟨none, config.stewardList, mls.conversationId, 0, config.maxReelectionAttempts⟩ 0
          [memberIdOf mls.group.ownLeafIndex] 1 0 = .ok list) := by
  obtain ⟨hconfig, hscoring⟩ := validate_of_assemble h
  unfold assemble at h
  rw [hconfig, hscoring] at h
  cases isCreation with
  | false =>
    cases h
    exact ⟨_, _, rfl, fun _ => ⟨rfl, rfl⟩, fun hf => absurd hf Bool.false_ne_true⟩
  | true =>
    change Except.bind (StewardListService.installList P _ _ _ _ _) _ = _ at h
    cases hinstall : StewardListService.installList P
        ⟨none, config.stewardList, mls.conversationId, 0, config.maxReelectionAttempts⟩ 0
        [memberIdOf mls.group.ownLeafIndex] 1 0 with
    | error e =>
      rw [hinstall] at h
      cases h
    | ok list =>
      rw [hinstall] at h
      dsimp only [Except.bind] at h
      cases hadd : PeerScoringService.addMember (memberIdOf mls.group.ownLeafIndex) scoring with
      | error e scores =>
        rw [hadd] at h
        cases h
      | ok u scores =>
        rw [hadd] at h
        cases h
        exact ⟨list, scores, rfl, fun ht => absurd ht.symm Bool.false_ne_true, fun _ => ⟨rfl, rfl⟩⟩

theorem assemble_ok {appId : Bytes} {c : Conversation P}
    (h : assemble mls scoring consensus now appId config false = .ok c) :
    c.Assembled mls scoring consensus now config := by
  obtain ⟨hconfig, hscoring⟩ := validate_of_assemble h
  obtain ⟨d, hassemble, hd⟩ := assemble_joiner mls consensus now appId hconfig hscoring
  cases hassemble.symm.trans h
  exact hd

theorem Assembled.newcomer {c : Conversation P}
    (h : c.Assembled mls scoring consensus now config)
    (hseated : mls.group.ownLeafIndex ∈ mls.group.populatedLeaves) : c.Newcomer where
  works := h.works
  unlisted := by rw [h.list]
  nothingApproved := by
    rw [h.queues]
    rfl
  unfrozen kind := by
    rw [h.queues]
    rfl
  peopled epoch := by
    -- Nobody has been seen to come, so everybody is settled, the joiner itself for one.
    have hself : memberIdOf mls.group.ownLeafIndex ∈ c.settledPool epoch := by
      unfold settledPool ConversationQueues.settledMembers members
      rw [h.queues, h.group, List.mem_filter]
      exact ⟨MlsGroup.memberIdOf_mem_memberIds.mpr hseated, rfl⟩
    exact List.ne_nil_of_mem hself

/-- A joiner announces itself and scores its roster; nothing else of it changes. -/
theorem Assembled.onJoined_of_built {c : Conversation P}
    (h : c.Assembled mls scoring consensus now config) {payload : Bytes}
    (hbuild : MlsService.buildMessage (P.codec.encodeApp ⟨some (.membershipChange
      mls.conversationId (memberIdOf mls.group.ownLeafIndex) 0)⟩) mls =
        .ok payload (introduced mls))
    {s : PeerScoringService P.scores}
    (hsync : PeerScoringService.syncMembers mls.members scoring = .ok () s) :
    (onJoined : ConvM P Unit) c = .ok () { c with
      mls := introduced mls
      scoring := s
      pendingOutbound := c.pendingOutbound ++ [⟨c.conversationId, c.appId, payload⟩] } := by
  let d : Conversation P := { c with
    mls := introduced mls
    pendingOutbound := c.pendingOutbound ++ [⟨c.conversationId, c.appId, payload⟩] }
  have hsend : (sendApp ⟨some (.membershipChange c.conversationId c.selfMemberId 0)⟩ :
      ConvM P Unit) c = .ok () d := by
    unfold sendApp
    rw [h.conversation, h.self]
    have hmls : (onMls (MlsService.buildMessage (P.codec.encodeApp ⟨some (.membershipChange
        mls.conversationId (memberIdOf mls.group.ownLeafIndex) 0)⟩)) : ConvM P Bytes) c =
          .ok payload { c with mls := introduced mls } :=
      (zoom_ok _ _ _ _ _ _).mpr ⟨_, by rw [show mlsPart.get c = mls from h.group]; exact hbuild, rfl⟩
    rw [bind_run _ hmls]
    rfl
  unfold onJoined
  rw [bind_run _ (get_apply c), bind_run _ hsend, syncScoringMembers_eq]
  have hmembers : c.members = mls.members := by
    unfold members
    rw [h.group]
  rw [hmembers]
  exact onScoring_run (by rw [show d.scoring = scoring from h.scoring]; exact hsync)

theorem Assembled.onJoined_run {c : Conversation P}
    (h : c.Assembled mls scoring consensus now config) (hbuilds : MlsService.Builds P.mls)
    (hscores : P.scores.Infallible) :
    ∃ payload s, PeerScoringService.syncMembers mls.members scoring = .ok () s ∧
      (onJoined : ConvM P Unit) c = .ok () { c with
        mls := introduced mls
        scoring := s
        pendingOutbound := c.pendingOutbound ++ [⟨c.conversationId, c.appId, payload⟩] } := by
  obtain ⟨payload, hbuild⟩ := hbuilds (P.codec.encodeApp ⟨some (.membershipChange
    mls.conversationId (memberIdOf mls.group.ownLeafIndex) 0)⟩) mls
  obtain ⟨u, hsync⟩ := PeerScoringService.succeeds_syncMembers hscores mls.members scoring
  exact ⟨payload, _, hsync, h.onJoined_of_built hbuild hsync⟩

/-- A joiner that went on did announce itself. -/
theorem Assembled.onJoined_ok {c d : Conversation P}
    (h : c.Assembled mls scoring consensus now config) {s : PeerScoringService P.scores}
    (hsync : PeerScoringService.syncMembers mls.members scoring = .ok () s)
    (hrun : (onJoined : ConvM P Unit) c = .ok () d) :
    ∃ payload, d = { c with
      mls := introduced mls
      scoring := s
      pendingOutbound := c.pendingOutbound ++ [⟨c.conversationId, c.appId, payload⟩] } := by
  have hrun' := hrun
  unfold onJoined sendApp at hrun
  rw [bind_run _ (get_apply c), h.conversation, h.self] at hrun
  obtain ⟨_, _, hsend, _⟩ := (bind_ok _ _ _ _ _).mp hrun
  obtain ⟨payload, _, hmls, _⟩ := (bind_ok _ _ _ _ _).mp hsend
  obtain ⟨m, hbuild, _⟩ := (zoom_ok _ _ _ _ _ _).mp hmls
  rw [show mlsPart.get c = mls from h.group] at hbuild
  have hm : introduced mls = m := after_of_ok hbuild
  rw [← hm] at hbuild
  rw [h.onJoined_of_built hbuild hsync] at hrun'
  cases hrun'
  exact ⟨payload, rfl⟩

/-- Announcing itself moves no member and no epoch. -/
theorem introduced_publicPart (mls : MlsService P.mls) :
    (introduced mls).publicPart = mls.publicPart :=
  MlsService.frame_buildMessage _ mls

/-- Joining is assembling, announcing, and the bootstrap. -/
theorem join_eq {W : OpenMlsWelcome P.mls} {welcomeBytes : Bytes} {c d : Conversation P}
    {appId : Bytes} (hopens : MlsService.newFromWelcome W welcomeBytes = .ok (some mls))
    (hassemble : assemble mls scoring consensus now appId config false = .ok c)
    (hjoined : (onJoined : ConvM P Unit) c = .ok () d) (syncBytes : Bytes) (j : Conversation P) :
    join W welcomeBytes syncBytes consensus scoring now appId config = .ok (some j) ↔
      (applyWelcomeSync syncBytes : ConvM P Unit) d = .ok () j := by
  unfold join settleIn
  rw [hopens]
  dsimp only
  rw [hassemble]
  dsimp only
  rw [bind_run _ hjoined]
  cases (applyWelcomeSync syncBytes : ConvM P Unit) d with
  | ok u e =>
    dsimp only
    rw [Except.ok.injEq, Option.some.injEq, EStateM.Result.ok.injEq]
    exact ⟨fun h => ⟨rfl, h⟩, fun h => h.2⟩
  | error e f => exact ⟨fun h => (nomatch h), fun h => (nomatch h)⟩

/-- Who joined was assembled, announced itself and went through the bootstrap. -/
theorem join_ok {W : OpenMlsWelcome P.mls} {welcomeBytes syncBytes : Bytes} {j : Conversation P}
    {appId : Bytes} (hopens : MlsService.newFromWelcome W welcomeBytes = .ok (some mls))
    (h : join W welcomeBytes syncBytes consensus scoring now appId config = .ok (some j)) :
    ∃ c d, c.Assembled mls scoring consensus now config ∧ (onJoined : ConvM P Unit) c = .ok () d ∧
      (applyWelcomeSync syncBytes : ConvM P Unit) d = .ok () j := by
  cases hassemble : assemble mls scoring consensus now appId config false with
  | error e =>
    unfold join at h
    rw [hopens] at h
    dsimp only at h
    rw [hassemble] at h
    cases h
  | ok c =>
    cases hjoined : (onJoined : ConvM P Unit) c with
    | ok u d =>
      exact ⟨c, d, assemble_ok hassemble, hjoined,
        (join_eq hopens hassemble hjoined syncBytes j).mp h⟩
    | error e d =>
      have hsettle : (settleIn syncBytes : ConvM P Unit) c = .error e d :=
        (bind_error _ _ _ _ _).mpr (.inl hjoined)
      unfold join at h
      rw [hopens] at h
      dsimp only at h
      rw [hassemble] at h
      dsimp only at h
      rw [hsettle] at h
      cases h

/-- **Joining with any bootstrap.** A welcome that opens a group ends in a conversation at work,
without a steward list when no sync was applied, unless the sync bytes spoil the join. -/
theorem join_survives_iff {W : OpenMlsWelcome P.mls} {welcomeBytes : Bytes} (hW : W.Seats)
    (hopens : MlsService.newFromWelcome W welcomeBytes = .ok (some mls))
    (hconfig : config.validate = .ok ()) (hscoring : scoring.config.validate = .ok ())
    (hscores : P.scores.Infallible) (hbuilds : MlsService.Builds P.mls) (syncBytes : Bytes)
    (consensus : P.consensus.State) (now : Nat) (appId : Bytes) :
    (∃ c, join W welcomeBytes syncBytes consensus scoring now appId config = .ok (some c) ∧
        c.Joined) ↔
      ¬ Spoils (introduced mls) consensus now syncBytes := by
  obtain ⟨c, hassemble, hc⟩ := assemble_joiner mls consensus now appId hconfig hscoring
  obtain ⟨payload, s, _, hjoined⟩ := hc.onJoined_run hbuilds hscores
  have hnewcomer : c.Newcomer := hc.newcomer (MlsService.newFromWelcome_seated hW hopens)
  have hpublic : (introduced mls).publicPart = c.mls.publicPart := by
    rw [hc.group]
    exact introduced_publicPart mls
  have hd := hnewcomer.of_public hpublic
  let d : Conversation P := { c with
    mls := introduced mls
    scoring := s
    pendingOutbound := c.pendingOutbound ++ [⟨c.conversationId, c.appId, payload⟩] }
  have hd : d.Newcomer := ⟨hd.works, hd.unlisted, hd.nothingApproved, hd.unfrozen, hd.peopled⟩
  simp only [join_eq hopens hassemble hjoined]
  rw [← hc.consensus, ← hc.now]
  exact hd.applyWelcomeSync_iff hscores syncBytes

end

end Conversation

/-! ## A bootstrap without a list size -/

namespace Ideal

/-- Welcomes into one group, for the owner of one key package. -/
def welcomesInto (g : Group) (key : Bytes) : OpenMlsWelcome mls where
  Welcome := Bytes
  StagedWelcome := Unit
  extract message := if message.head? = some 4 then some message.tail else none
  newFromWelcome keys := if key <:+: keys then .ok () else .error .noMatchingKeyPackage
  intoGroup _ := .ok g

/-- The group that the third of three members is welcomed into. -/
def enlarged : Group := groupOf 2 2 [[10], [11], [12]]

/-- A sync as a member sends it, in the clear. -/
def sealedBy (sender : LeafNodeIndex) (epoch : Nat) (sync : ConversationSync) : Bytes :=
  frameOf 3 epoch sender (writeSync sync)

/-- A sync of the first two members, with the bounds of its list size. -/
def bounded (snMin snMax : Nat) : ConversationSync :=
  ⟨[memberIdOf 0, memberIdOf 1], 1, snMin, snMax, false, [], none, 0, 2, true, 0, 3, [], 100⟩

/-- The third member joins with this bootstrap. -/
def joined (conversationSyncBytes : Bytes) :
    Except ConversationError (Option (Conversation wired)) :=
  Conversation.join (P := wired) (welcomesInto enlarged [12]) [4, 12] conversationSyncBytes []
    ⟨[], ScoreEvent.defaultDelta, ⟨100, 0⟩⟩ 0 [2] .default

theorem scores_infallible : scores.Infallible where
  get _ _ := ⟨_, rfl⟩
  set _ _ _ := ⟨_, rfl⟩
  remove _ _ := ⟨_, rfl⟩
  allScores _ := ⟨_, rfl⟩

theorem builds : MlsService.Builds mls := fun _ _ => ⟨_, rfl⟩

theorem welcomesInto_seats : (welcomesInto enlarged [12]).Seats := by
  rintro _ g ⟨⟩
  decide

end Ideal

/-- The welcome opens the group, and a sync with no room for a steward makes the join fail. -/
theorem join_spoiled_by_bounds :
    MlsService.newFromWelcome (Ideal.welcomesInto Ideal.enlarged [12]) [4, 12] =
      .ok (some ⟨[], Ideal.enlarged, none⟩) ∧
    (Ideal.welcomesInto Ideal.enlarged [12]).Seats ∧ ConversationConfig.default.validate = .ok () ∧
    Ideal.wired.scores.Infallible ∧ MlsService.Builds Ideal.wired.mls ∧
    Ideal.joined (Ideal.sealedBy 0 2 (Ideal.bounded 0 2)) = .error .invalidConfigSize :=
  ⟨rfl, Ideal.welcomesInto_seats, rfl, Ideal.scores_infallible, Ideal.builds, rfl⟩

/-- The law, for a sync of an epoch to come: it is dropped. -/
theorem join_survives_future_sync :
    ∃ c, Ideal.joined (Ideal.sealedBy 0 2 { Ideal.bounded 1 2 with electionEpoch := 3 }) =
      .ok (some c) ∧ c.Joined := by
  have hopens : MlsService.newFromWelcome (Ideal.welcomesInto Ideal.enlarged [12]) [4, 12] =
      .ok (some ⟨[], Ideal.enlarged, none⟩) := rfl
  refine (Conversation.join_survives_iff (P := Ideal.wired) Ideal.welcomesInto_seats hopens rfl rfl
    Ideal.scores_infallible Ideal.builds _ _ _ _).mpr ?_
  -- The sync is readable, but of an epoch the group has not reached.
  intro hspoils
  exact absurd hspoils.2.2.1.1 (by decide)

end DeMls
