import DeMls.Conversation.EntryPoints
import DeMls.Conversation.NoWedge
import DeMls.Conversation.ScoresUnread

/-!
# Two runs

Two nodes are constructed from the same arguments and asked the same, one on a score storage that
does not fail. As long as the other's storage serves the calls whose error ends a transition
half-way (`EntryPoint.Spared`), the protocol does not tell them apart (`scores_unread`).
-/

namespace DeMls

open Program Relation Runs

variable {P : Platform} {α : Type}

namespace Conversation

variable {K : SenderRatchet P.mls} {I : P.scores.Store → Prop}

/-! ## Constructors -/

variable (hI : Reliable P.scores I)

include hI

theorem twins_of_assemble {mls : MlsService P.mls} {scoring : PeerScoringService P.scores}
    {st : P.scores.Store} {consensus : P.consensus.State} {now : Nat} {appId : Bytes}
    {config : ConversationConfig} {isCreation : Bool} {c d : Conversation P}
    (hreliable : I scoring.storage)
    (hc : assemble mls scoring consensus now appId config isCreation = .ok c)
    (hd : assemble mls { scoring with storage := st } consensus now appId config isCreation =
      .ok d) : Twins K I c d := by
  obtain ⟨list, s, rfl, hjoiner, hcreator⟩ := shape_of_assemble hc
  obtain ⟨list', s', rfl, hjoiner', hcreator'⟩ := shape_of_assemble hd
  cases isCreation with
  | false =>
    obtain ⟨rfl, rfl⟩ := hjoiner rfl
    obtain ⟨rfl, rfl⟩ := hjoiner' rfl
    exact ⟨⟨⟨mls.group.secrets, s, [.phaseChange .working], []⟩, rfl, rfl, rfl⟩, hreliable⟩
  | true =>
    obtain ⟨hadd, hinstall⟩ := hcreator rfl
    obtain ⟨hadd', hinstall'⟩ := hcreator' rfl
    cases hinstall.symm.trans hinstall'
    obtain ⟨_, u, hsucceeds, hu⟩ := PeerScoringService.succeedsIn_addMember hI
      (memberIdOf mls.group.ownLeafIndex) scoring hreliable
    cases hsucceeds.symm.trans hadd
    exact ⟨⟨⟨mls.group.secrets, s, [.phaseChange .working], []⟩, rfl, rfl, rfl⟩, hu⟩

/-- What a creator does runs alike where its storage serves it. -/
theorem twin_seedInitialMembers {initialMembers : List Bytes} {d e : Conversation P}
    (h : (seedInitialMembers initialMembers : ConvM P Unit) d = .ok () e) :
    Twin (Twins K I) Unit (seedInitialMembers initialMembers : ConvM P Unit) d := by
  have hq := moded_twins (K := K) (I := I)
  unfold seedInitialMembers at h ⊢
  split_ifs at h ⊢ with hnobody
  · exact hq.done _ d
  · refine hq.bind_of_ok h fun _ u _ h => ⟨hq.result _ d, ?_⟩
    refine hq.bind_of_ok h fun artifacts u' _ h => ⟨hq.mint _ u, ?_⟩
    refine hq.bind_of_ok h fun delta v _ h => ⟨twins_onMls K.mergeOwnCommit u', ?_⟩
    refine hq.bind_of_ok h fun _ w hadded h =>
      ⟨twin_offstage (offstage_scored hI _).1 (served_scored hI _).1 hadded, ?_⟩
    refine hq.reads_at (fun _ => rfl) (hq.result_bind fun l hl => ?_)
    have hround := nextElectionRound_installList hl
    refine hq.bind (hq.list (g := fun _ => l) (fun _ _ => rfl) hround) fun _ e' _ => ?_
    cases artifacts.welcome with
    | some welcomeBytes => exact twins_deliverWelcome hI _ e'
    | none => exact hq.done _ e'

omit hI in
/-- A sync that was applied found its scores served. -/
theorem scoresServed_of_dispatch {sync : ConversationSync} {d e : Conversation P}
    {o : DispatchOutcome} (h : (dispatchInboundResult (.conversationSyncReceived sync) :
      ConvM P _) d = .ok o e) (htakes : d.Takes sync) : d.ScoresServed sync := by
  obtain ⟨_, u, hsynced, -⟩ := (bind_ok _ _ _ _ _).mp h
  rw [onConversationSync_takes htakes] at hsynced
  obtain ⟨_, u', hadopted, -⟩ := (bind_ok _ _ _ _ _).mp hsynced
  exact (adoptScores_ok_iff sync (d.answeredSync.seated sync)).mp ⟨u', hadopted⟩

theorem twin_onJoined {d e : Conversation P} (h : (onJoined : ConvM P Unit) d = .ok () e) :
    Twin (Twins K I) Unit (onJoined : ConvM P Unit) d := by
  have hq := moded_twins (K := K) (I := I)
  have hsynced : ∀ members, Along (Offstage K I) (syncScoringMembers members : ConvM P Unit) ∧
      SucceedsIn (fun c : Conversation P => I c.scoring.storage)
        (syncScoringMembers members : ConvM P Unit) := by
    have hlisted := PeerScoringService.succeedsIn_allMembersWithScores hI
    refine fun members => ⟨?_, ?_⟩
    · exact along_bind (offstage_onScoring hlisted) fun _ =>
        along_bind (offstage_scored hI _).1 fun _ => (offstage_scored hI _).2
    · exact succeedsIn_bind (served_onScoring hlisted) fun _ =>
        succeedsIn_bind (served_scored hI _).1 fun _ => (served_scored hI _).2
  unfold onJoined at h ⊢
  rw [bind_run _ (get_apply d)] at h
  refine hq.reads_at (fun _ => rfl) (hq.bind_of_ok h fun _ u _ h => ⟨twins_sendApp _ d, ?_⟩)
  exact twin_offstage (hsynced _).1 (hsynced _).2 h

/-- So does what a joiner does. -/
theorem beside_settleIn {syncBytes : Bytes} {d e : Conversation P}
    (h : (settleIn syncBytes : ConvM P Unit) d = .ok () e) :
    Beside (Twins K I) Unit (settleIn syncBytes : ConvM P Unit) d := by
  unfold settleIn at h ⊢
  obtain ⟨⟨⟩, u, hjoined, hsynced⟩ := (bind_ok _ _ _ _ _).mp h
  refine beside_bind (twin_onJoined hI hjoined) fun _ u' hrun => ?_
  cases hjoined.symm.trans hrun
  refine beside_applyWelcomeSync hI fun hsync sync v hdecoded => ?_
  unfold applyWelcomeSync at hsynced
  rw [if_neg hsync, bind_run _ hdecoded] at hsynced
  obtain ⟨o, w, hdispatched, -⟩ := (bind_ok _ _ _ _ _).mp hsynced
  exact scoresServed_of_dispatch hdispatched

omit hI in
variable (I) in
/-- Both nodes are constructed from the same arguments, each on its own storage, the first on one
that does not fail. -/
inductive Launched : Conversation P × Conversation P → Prop
  | create {mls : MlsService P.mls} {scoring : PeerScoringService P.scores} {st : P.scores.Store}
      {consensus : P.consensus.State} {now : Nat} {appId : Bytes} {config : ConversationConfig}
      {initialMembers : List Bytes} {base base' c d : Conversation P}
      (hreliable : I scoring.storage)
      (hbase : assemble mls scoring consensus now appId config true = .ok base)
      (hseed : seedInitialMembers initialMembers base = .ok () c)
      (hbase' : assemble mls { scoring with storage := st } consensus now appId config true =
        .ok base')
      (hseed' : seedInitialMembers initialMembers base' = .ok () d) : Launched (c, d)
  | join {W : OpenMlsWelcome P.mls} {welcomeBytes syncBytes : Bytes}
      {consensus : P.consensus.State} {scoring : PeerScoringService P.scores}
      {st : P.scores.Store} {now : Nat} {appId : Bytes} {config : ConversationConfig}
      {c d : Conversation P} (hreliable : I scoring.storage)
      (hjoin : join W welcomeBytes syncBytes consensus scoring now appId config = .ok (some c))
      (hjoin' : join W welcomeBytes syncBytes consensus { scoring with storage := st } now appId
        config = .ok (some d)) : Launched (c, d)

omit hI in
/-- A conversation that was joined was assembled and settled in. -/
theorem settled_of_join {W : OpenMlsWelcome P.mls} {welcomeBytes syncBytes : Bytes}
    {consensus : P.consensus.State} {scoring : PeerScoringService P.scores} {now : Nat}
    {appId : Bytes} {config : ConversationConfig} {c : Conversation P}
    (h : join W welcomeBytes syncBytes consensus scoring now appId config = .ok (some c)) :
    ∃ mls base, MlsService.newFromWelcome W welcomeBytes = .ok (some mls) ∧
      assemble mls scoring consensus now appId config false = .ok base ∧
        settleIn syncBytes base = .ok () c := by
  unfold join at h
  split at h
  · cases h
  · cases h
  · rename_i mls hmls
    split at h
    · cases h
    · rename_i base hbase
      split at h
      · cases h
      · rename_i hsettled
        cases h
        exact ⟨mls, base, hmls, hbase, hsettled⟩

/-- **Constructors.** -/
theorem twins_of_launched {c d : Conversation P} (h : Launched I (c, d)) : Twins K I c d := by
  cases h with
  | @create _ _ _ _ _ _ _ initialMembers base base' _ _ hreliable hbase hseed hbase' hseed' =>
    have htwins : Twins K I base base' := twins_of_assemble hI hreliable hbase hbase'
    have hleft := (twin_seedInitialMembers hI hseed').beside _ htwins
    rwa [after_of_ok hseed, after_of_ok hseed'] at hleft
  | join hreliable hjoin hjoin' =>
    obtain ⟨mls, base, hmls, hbase, hsettled⟩ := settled_of_join hjoin
    obtain ⟨mls', base', hmls', hbase', hsettled'⟩ := settled_of_join hjoin'
    cases hmls.symm.trans hmls'
    have htwins : Twins K I base base' := twins_of_assemble hI hreliable hbase hbase'
    have hleft := beside_settleIn hI hsettled' _ htwins
    rwa [after_of_ok hsettled, after_of_ok hsettled'] at hleft

/-! ## Entry points -/

omit hI in
/-- What an entry point asks of the storage. The integrator's removals by score are left out: they
are made of the scores. -/
def EntryPoint.Spared : EntryPoint → Conversation P → Prop
  | .processInbound sender payload, c => sender ≠ c.appId → c.PacketSpared payload
  | .applyWelcomeSync syncBytes, c => syncBytes ≠ [] → c.PacketSpared syncBytes
  | .poll fuel, c => c.PollSpared fuel
  | .proposeScoreRemoval _, _ => False
  | _, _ => True

/-- **Entry points** keep twins that are spared. -/
theorem Twins.leaves {c d : Conversation P} (h : Twins K I c d) {e : EntryPoint}
    (hspared : e.Spared d) : Twins K I (e.leaves c) (e.leaves d) := by
  have hq := moded_twins (K := K) (I := I)
  have hrun : ∀ {α : Type} {x : ConvM P α}, Holds (Twin (Twins K I)) x →
      Twins K I (after x c) (after x d) := fun hx => (hx d).beside c h
  cases e with
  | processInbound sender payload => exact beside_processInbound hI hspared c h
  | applyWelcomeSync syncBytes => exact beside_applyWelcomeSync hI hspared c h
  | poll fuel => exact beside_poll hI hspared c h
  | sendMessage message =>
    refine hrun (hq.reads (fun _ _ => rfl) fun _ => ?_)
    exact Holds.ite (hq.raise _) (hq.say rfl)
  | requestConversationSync => exact hrun (hq.say rfl)
  | shareConversationSync => exact beside_offstage (offstage_shareConversationSync hI) d c h
  | addMember keyPackageBytes =>
    refine hrun (hq.reads (fun _ _ => rfl) fun _ => ?_)
    exact Holds.ite (hq.raise _) (hq.proposeAdd _ _)
  | sponsorMember keyPackageBytes => exact hrun (hq.sponsorMember buffers_twins _)
  | removeMember member => exact hrun (hq.removeMember _)
  | leave => exact hrun (hq.leave twins_sendApp)
  | initiateProposal request v => exact hrun (hq.initiateProposal _ _)
  | vote id choice => exact hrun (hq.vote _ _)
  | requestRecovery => exact hrun hq.requestRecovery
  | proposeScoreRemoval target => exact hspared.elim
  | commitInRecovery =>
    refine hrun (hq.reads (fun _ _ => rfl) fun _ => ?_)
    exact Holds.ite (hq.raise _) hq.mintAndBroadcastCandidate
  | resendCommit => exact hrun hq.resendCommit
  | enterRecoveryMode => exact hrun hq.enterRecoveryMode
  | exitRecoveryMode => exact hrun hq.exitRecoveryMode
  | drainEvents =>
    obtain ⟨⟨v, rfl, hrest, -⟩, hreliable⟩ := h
    exact ⟨⟨⟨v.secrets, v.scoring, [], v.outbound⟩, rfl, hrest, rfl⟩, hreliable⟩
  | drainOutbound =>
    obtain ⟨⟨v, rfl, hrest, hevents⟩, hreliable⟩ := h
    exact ⟨⟨⟨v.secrets, v.scoring, v.events, []⟩, rfl, hrest, hevents⟩, hreliable⟩
  | clock now =>
    have hset : Holds (Twin (Twins K I)) (modify fun c => { c with now := now } : ConvM P PUnit) :=
      twins_write (fun _ _ => rfl) (fun _ => rfl) fun _ => rfl
    exact hrun hset
  | publish event =>
    have hset : Holds (Twin (Twins K I))
        (modify fun c => { c with outcomes := c.outcomes ++ [event] } : ConvM P PUnit) :=
      twins_write (fun _ _ => rfl) (fun _ => rfl) fun _ => rfl
    exact hrun hset

omit hI in
/-- The scores of the second do not matter. -/
theorem Twins.fault {c d : Conversation P} (h : Twins K I c d) (st : P.scores.Store) :
    Twins K I c { d with scoring := { d.scoring with storage := st } } := by
  obtain ⟨⟨v, rfl, hrest, hevents⟩, hreliable⟩ := h
  exact ⟨⟨v, rfl, hrest, hevents⟩, hreliable⟩

/-! ## Runs -/

omit hI in
/-- What the two nodes are asked: an entry point on both, or the second one's storage changes. -/
inductive Asked (P : Platform)
  | call (e : EntryPoint)
  | fault (st : P.scores.Store)

omit hI in
def Asked.leaves : Asked P → Conversation P × Conversation P → Conversation P × Conversation P
  | .call e, (c, d) => (e.leaves c, e.leaves d)
  | .fault st, (c, d) => (c, { d with scoring := { d.scoring with storage := st } })

omit hI in
def Asked.Spared : Asked P → Conversation P × Conversation P → Prop
  | .call e, (_, d) => e.Spared d
  | .fault _, _ => True

omit hI in
/-- The protocol is in one state on both: phase, recovery, queues, list and election round, epoch,
and the events that report it. -/
structure SameProtocol (c d : Conversation P) : Prop where
  state : c.state = d.state
  operatingMode : c.operatingMode = d.operatingMode
  recoveryRounds : c.recoveryRounds = d.recoveryRounds
  queues : c.queues = d.queues
  stewardList : c.stewardList = d.stewardList
  epoch : c.epoch = d.epoch
  protocolEvents : c.protocolEvents = d.protocolEvents

omit hI in
theorem Twins.sameProtocol {c d : Conversation P} (h : Twins K I c d) : SameProtocol c d := by
  obtain ⟨⟨v, rfl, -, hevents⟩, -⟩ := h
  exact ⟨rfl, rfl, rfl, rfl, rfl, rfl, hevents⟩

/-- **Scores are not read.** Two nodes run on the same inputs, one on a storage that does not fail:
they agree on the protocol in every state, whatever the other storage does between the calls it has
to serve. Its type is that of both, so a storage of another kind is a state of their sum. -/
theorem scores_unread (K : SenderRatchet P.mls) {runs : Conversation P × Conversation P}
    (h : Reaches (Launched I) (fun runs (a : Asked P) runs' => runs' = a.leaves runs)
      (fun runs a => a.Spared runs) runs) : SameProtocol runs.1 runs.2 := by
  have htwins : Twins K I runs.1 runs.2 := by
    refine h.invariant (I := fun runs => Twins K I runs.1 runs.2) ?_ ?_
    · rintro ⟨c, d⟩ hlaunched
      exact twins_of_launched hI hlaunched
    · rintro ⟨c, d⟩ a _ hcd hspared rfl
      cases a with
      | call e => exact hcd.leaves hI hspared
      | fault st => exact hcd.fault st
  exact htwins.sameProtocol

end Conversation

/-! ## A storage that goes down -/

namespace Ideal

/-- The score table of the plain platform, which may be out of reach. -/
def flakyScores : PeerScoreStorage where
  Store := Bool × List (Bytes × Int)
  get st id :=
    if st.1 then .error "unreachable" else .ok ((st.2.find? fun e => e.1 = id).map Prod.snd)
  set st id score :=
    if st.1 then (.error "unreachable", st)
    else (.ok (), false, st.2.filter (fun e => e.1 ≠ id) ++ [(id, score)])
  remove st id :=
    if st.1 then (.error "unreachable", st) else (.ok (), false, st.2.filter fun e => e.1 ≠ id)
  allScores st := if st.1 then .error "unreachable" else .ok st.2

def flaky : Platform := { platform with scores := flakyScores }

/-- It is within reach. -/
def Reachable (st : flaky.scores.Store) : Prop := st.1 = false

theorem reliable_reachable : Reliable flaky.scores Reachable where
  get := by rintro ⟨_, st⟩ id rfl; exact ⟨_, rfl⟩
  set := by rintro ⟨_, st⟩ id score rfl; exact ⟨_, rfl, rfl⟩
  remove := by rintro ⟨_, st⟩ id rfl; exact ⟨_, rfl, rfl⟩
  allScores := by rintro ⟨_, st⟩ rfl; exact ⟨_, rfl⟩

/-- This group of ours encrypts without a ratchet. -/
def senderRatchet : SenderRatchet mls where
  Rest := Secrets
  rest := id
  proposeAddMember := by rintro g s kp rfl; rfl
  proposeRemoveMember := by rintro g s kp rfl; rfl
  commitToPendingProposals := by rintro g s rfl; rfl
  mergePendingCommit := by rintro g s rfl; rfl
  mergeStagedCommit := by rintro g s _ rfl; rfl
  processMessage := by rintro g s _ rfl; rfl
  storePendingProposal := by rintro s t _ rfl; rfl
  clearPendingCommit := by rintro s t rfl; rfl
  clearPendingProposals := by rintro s t rfl; rfl
  delete := by rintro s t rfl; rfl
  pendingCommit := by rintro s t rfl; rfl
  sent _ _ := rfl
  encrypts := by rintro g s _ _ rfl; rfl
  serializes _ _ out _ := ⟨out, rfl⟩

/-- The creator of a group, alone in it. -/
def flakyAlone : Conversation flaky :=
  { alone with scoring := ⟨(false, [(memberIdOf 0, 100)]), ScoreEvent.defaultDelta, ⟨100, 0⟩⟩ }

theorem launched_flakyAlone : Conversation.Launched Reachable (flakyAlone, flakyAlone) := by
  have hbase : Conversation.assemble (⟨[], groupOf 0 0 [[10]], none⟩ : MlsService flaky.mls)
      ⟨(false, []), ScoreEvent.defaultDelta, ⟨100, 0⟩⟩ [] 0 [0] .default true = .ok flakyAlone := by
    rfl
  have hseed : (Conversation.seedInitialMembers [] : ConvM flaky Unit) flakyAlone =
      .ok () flakyAlone := rfl
  have hreachable : Reachable (⟨(false, []), ScoreEvent.defaultDelta, ⟨100, 0⟩⟩ :
      PeerScoringService flaky.scores).storage := rfl
  exact .create hreachable hbase hseed hbase hseed

/-- The runs that go through these questions. -/
def flakyRuns (asked : List (Conversation.Asked flaky)) : Conversation flaky × Conversation flaky :=
  asked.foldl (fun runs a => a.leaves runs) (flakyAlone, flakyAlone)

/-- The storage goes down before the commit that admits a member is merged. -/
def downAtMerge : List (Conversation.Asked flaky) :=
  [.call (.addMember [11]), .call (.poll 4), .call (.clock (seconds 60)), .call (.poll 4),
    .call (.clock (seconds 90)), .fault (true, []), .call (.poll 4)]

/-- It goes down before a message is sent. -/
def downAtWork : List (Conversation.Asked flaky) :=
  [.call (.addMember [11]), .fault (true, []), .call (.sendMessage [7]),
    .call .shareConversationSync, .call (.clock (seconds 60)), .call (.poll 0)]

end Ideal

/-- The member is in the group, and only the node that could score it says so. -/
theorem scores_tell : Reaches (Conversation.Launched Ideal.Reachable)
      (fun runs (a : Conversation.Asked Ideal.flaky) runs' => runs' = a.leaves runs)
      (fun _ _ => True) (Ideal.flakyRuns Ideal.downAtMerge) ∧
    ¬ Conversation.SameProtocol (Ideal.flakyRuns Ideal.downAtMerge).1
      (Ideal.flakyRuns Ideal.downAtMerge).2 := by
  constructor
  · exact Reaches.foldl (by intros; rfl) (fun _ _ => trivial) (.start Ideal.launched_flakyAlone) _
  · intro hsame
    have hcount := congrArg List.length hsame.protocolEvents
    exact absurd hcount (by decide +kernel)

/-- A storage that goes down at work: one node shares its scores, the other has none to share, and
the protocol is in one state on both. -/
theorem scores_tell_nothing :
    (Ideal.flakyRuns Ideal.downAtWork).2.pendingOutbound.length <
      (Ideal.flakyRuns Ideal.downAtWork).1.pendingOutbound.length ∧
    Conversation.SameProtocol (Ideal.flakyRuns Ideal.downAtWork).1
      (Ideal.flakyRuns Ideal.downAtWork).2 := by
  have hnext : ∀ {runs} (a : Conversation.Asked Ideal.flaky),
      Reaches (Conversation.Launched Ideal.Reachable)
        (fun runs (a : Conversation.Asked Ideal.flaky) runs' => runs' = a.leaves runs)
        (fun runs a => a.Spared runs) runs → a.Spared runs →
      Reaches (Conversation.Launched Ideal.Reachable)
        (fun runs (a : Conversation.Asked Ideal.flaky) runs' => runs' = a.leaves runs)
        (fun runs a => a.Spared runs) (a.leaves runs) := fun _ h hspared => .next h hspared rfl
  have hadded := hnext (.call (.addMember [11])) (.start Ideal.launched_flakyAlone) trivial
  have hsent := hnext (.call (.sendMessage [7])) (hnext (.fault (true, [])) hadded trivial) trivial
  have hshared := hnext (.call .shareConversationSync) hsent trivial
  have hlater := hnext (.call (.clock (seconds 60))) hshared trivial
  have hworks : (after (Conversation.tickDeadlines 0)
      (Ideal.flakyRuns (Ideal.downAtWork.take 5)).2).pollRound = none := by
    unfold Conversation.pollRound
    exact if_neg (by decide +kernel)
  have hpolled := hnext (.call (.poll 0)) hlater
    ⟨trivial, fun s r t h => absurd (hworks.symm.trans h) nofun⟩
  exact ⟨by decide +kernel, Conversation.scores_unread Ideal.reliable_reachable
    Ideal.senderRatchet hpolled⟩

end DeMls
