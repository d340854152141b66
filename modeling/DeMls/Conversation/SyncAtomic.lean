import DeMls.Conversation.ListSync
import DeMls.IdealWire

/-!
# A sync that fails half way

A sync is applied in several writes: the list, the scoring parameters, the scores one by one, the
timing. `sync_atomic_iff` says when a sync that ends in an error has changed nothing: once the list
is written, the score storage has to serve every call that is left.
-/

namespace DeMls

open Program

/-! ## Calls of the score storage -/

/-- A call that adopting scores makes. -/
inductive ScoreCall
  | get (memberId : Bytes)
  | set (memberId : Bytes) (score : Int)
deriving DecidableEq, Repr

namespace PeerScoreStorage

/-- The storage answers these calls, one after the other, without an error. -/
def Serves (S : PeerScoreStorage) : List ScoreCall → S.Store → Prop
  | [], _ => True
  | .get id :: rest, st => (∃ score, S.get st id = .ok score) ∧ S.Serves rest st
  | .set id score :: rest, st => ∃ st', S.set st id score = (.ok (), st') ∧ S.Serves rest st'

end PeerScoreStorage

/-- Members at the old default are moved to the new one. -/
def rebaseCalls (previous defaultScore : Int) (all : List (Bytes × Int)) : List ScoreCall :=
  (all.filter fun e => e.2 = previous).map fun e => .set e.1 defaultScore

/-- Each score of a snapshot is read and written. -/
def snapshotCalls (diverged : List (Bytes × Int)) : List ScoreCall :=
  diverged.flatMap fun e => [.get e.1, .set e.1 e.2]

namespace PeerScoringService

variable {S : PeerScoreStorage}

theorem readStorage_ok {α : Type} {f : S.Store → Except String α} {s t : PeerScoringService S}
    {a : α} : (readStorage f : ScoringM S α) s = .ok a t ↔ f s.storage = .ok a ∧ t = s := by
  unfold readStorage
  cases f s.storage <;> simp [eq_comm]

theorem writeStorage_ok {f : S.Store → Except String Unit × S.Store} {s t : PeerScoringService S}
    {u : Unit} : (writeStorage f : ScoringM S Unit) s = .ok u t ↔
      ∃ st, f s.storage = (.ok (), st) ∧ t = { s with storage := st } := by
  unfold writeStorage
  rcases f s.storage with ⟨_ | _, st⟩ <;> simp [eq_comm]

/-- Moving members to a new default succeeds when the storage serves its writes. -/
theorem rebaseLoop_ok_iff (previous defaultScore : Int) (all : List (Bytes × Int))
    (rest : List ScoreCall) (s : PeerScoringService S) :
    (∃ t, rebaseLoop previous defaultScore all s = .ok () t ∧ S.Serves rest t.storage) ↔
      S.Serves (rebaseCalls previous defaultScore all ++ rest) s.storage := by
  induction all generalizing s with
  | nil =>
    constructor
    · rintro ⟨t, ht, hrest⟩
      cases ht
      exact hrest
    · exact fun h => ⟨s, rfl, h⟩
  | cons e others ih =>
    obtain ⟨id, score⟩ := e
    by_cases hscore : score = previous
    · have hcalls : rebaseCalls previous defaultScore ((id, score) :: others) =
          .set id defaultScore :: rebaseCalls previous defaultScore others := by
        unfold rebaseCalls
        rw [List.filter_cons_of_pos (by simpa using hscore), List.map_cons]
      unfold rebaseLoop
      rw [if_pos hscore, hcalls]
      simp only [bind_ok, writeStorage_ok]
      constructor
      · rintro ⟨t, ⟨_, _, ⟨st, hset, rfl⟩, hloop⟩, hrest⟩
        exact ⟨st, hset, (ih _).mp ⟨t, hloop, hrest⟩⟩
      · rintro ⟨st, hset, hrest⟩
        obtain ⟨t, hloop, hserves⟩ := (ih { s with storage := st }).mpr hrest
        exact ⟨t, ⟨(), _, ⟨st, hset, rfl⟩, hloop⟩, hserves⟩
    · have hcalls : rebaseCalls previous defaultScore ((id, score) :: others) =
          rebaseCalls previous defaultScore others := by
        unfold rebaseCalls
        rw [List.filter_cons_of_neg (by simpa using hscore)]
      unfold rebaseLoop
      rw [if_neg hscore, hcalls]
      exact ih s

/-- Adopting a snapshot succeeds when the storage serves its reads and writes. -/
theorem applySnapshotLoop_ok_iff (defaultScore : Int) (diverged : List (Bytes × Int))
    (changes : List ScoreChange) (s : PeerScoringService S) :
    (∃ result t, applySnapshotLoop defaultScore diverged changes s = .ok result t) ↔
      S.Serves (snapshotCalls diverged) s.storage := by
  induction diverged generalizing changes s with
  | nil => exact ⟨fun _ => trivial, fun _ => ⟨changes, s, rfl⟩⟩
  | cons e others ih =>
    obtain ⟨id, score⟩ := e
    unfold applySnapshotLoop
    simp only [bind_ok, readStorage_ok, writeStorage_ok]
    constructor
    · rintro ⟨result, t, before, _, ⟨hget, rfl⟩, _, _, ⟨st, hset, rfl⟩, hloop⟩
      exact ⟨⟨before, hget⟩, st, hset, (ih _ _).mp ⟨result, t, hloop⟩⟩
    · rintro ⟨⟨before, hget⟩, st, hset, hserves⟩
      obtain ⟨result, t, hloop⟩ := (ih (if score ≠ before.getD defaultScore then
        changes ++ [⟨id, before.getD defaultScore, score⟩] else changes)
          { s with storage := st }).mpr hserves
      exact ⟨result, t, before, s, ⟨hget, rfl⟩, (), _, ⟨st, hset, rfl⟩, hloop⟩

/-- The calls of adopting a default and a snapshot are all served. -/
def AdoptionServed (s : PeerScoringService S) (defaultScore : Int) (diverged : List (Bytes × Int)) :
    Prop :=
  if s.config.defaultScore = defaultScore then S.Serves (snapshotCalls diverged) s.storage
  else ∃ all, S.allScores s.storage = .ok all ∧
    S.Serves (rebaseCalls s.config.defaultScore defaultScore all ++ snapshotCalls diverged) s.storage

/-- A new default is set by moving whoever is at the old one, and an old one by nothing. -/
theorem setDefaultScore_ok (s t : PeerScoringService S) (defaultScore : Int) :
    (setDefaultScore defaultScore : ScoringM S Unit) s = .ok () t ↔
      if s.config.defaultScore = defaultScore then
        t = { s with config := ⟨defaultScore, s.config.threshold⟩ }
      else ∃ all, S.allScores s.storage = .ok all ∧
        rebaseLoop s.config.defaultScore defaultScore all
          { s with config := ⟨defaultScore, s.config.threshold⟩ } = .ok () t := by
  unfold setDefaultScore
  rw [bind_run _ (get_apply _)]
  dsimp only
  rw [bind_run _ (show (set _ : ScoringM S PUnit) _ =
    .ok ⟨⟩ { s with config := ⟨defaultScore, s.config.threshold⟩ } from rfl)]
  split_ifs with hsame
  · simp [eq_comm]
  · simp only [bind_ok, readStorage_ok]
    constructor
    · rintro ⟨all, _, ⟨hall, rfl⟩, hloop⟩
      exact ⟨all, hall, hloop⟩
    · rintro ⟨all, hall, hloop⟩
      exact ⟨all, { s with config := ⟨defaultScore, s.config.threshold⟩ }, ⟨hall, rfl⟩, hloop⟩

/-- A new default is adopted, with the reads and writes of the rest, when the storage serves it. -/
theorem rebase_ok_iff (s : PeerScoringService S) (defaultScore : Int)
    (diverged : List (Bytes × Int)) :
    (∃ t, (setDefaultScore defaultScore : ScoringM S Unit) s = .ok () t ∧
      S.Serves (snapshotCalls diverged) t.storage) ↔ s.AdoptionServed defaultScore diverged := by
  simp only [setDefaultScore_ok]
  unfold AdoptionServed
  split_ifs with hsame
  · constructor
    · rintro ⟨t, ht, hserves⟩
      subst ht
      exact hserves
    · exact fun hserves => ⟨_, rfl, hserves⟩
  · have hmoved : ∀ all, (∃ t, rebaseLoop s.config.defaultScore defaultScore all
        { s with config := ⟨defaultScore, s.config.threshold⟩ } = .ok () t ∧
          S.Serves (snapshotCalls diverged) t.storage) ↔
        S.Serves (rebaseCalls s.config.defaultScore defaultScore all ++ snapshotCalls diverged)
          s.storage :=
      fun all => rebaseLoop_ok_iff _ _ all _ _
    constructor
    · rintro ⟨t, ⟨all, hall, hloop⟩, hserves⟩
      exact ⟨all, hall, (hmoved all).mp ⟨t, hloop, hserves⟩⟩
    · rintro ⟨all, hall, hserves⟩
      obtain ⟨t, hloop, hrest⟩ := (hmoved all).mpr hserves
      exact ⟨t, ⟨all, hall, hloop⟩, hrest⟩

theorem adopt_ok_iff (s : PeerScoringService S) (threshold defaultScore : Int)
    (diverged : List (Bytes × Int)) :
    (∃ changes t, (do
        setThreshold threshold
        setDefaultScore defaultScore
        applySnapshot ⟨diverged⟩ : ScoringM S (List ScoreChange)) s = .ok changes t) ↔
      s.AdoptionServed defaultScore diverged := by
  have happly : ∀ t : PeerScoringService S, (∃ changes t', (applySnapshot ⟨diverged⟩ :
      ScoringM S (List ScoreChange)) t = .ok changes t') ↔
        S.Serves (snapshotCalls diverged) t.storage :=
    fun t => applySnapshotLoop_ok_iff t.config.defaultScore diverged [] t
  refine Iff.trans ?_ (rebase_ok_iff { s with config := { s.config with threshold := threshold } }
    defaultScore diverged)
  unfold setThreshold
  simp only [bind_ok, modify_apply, EStateM.Result.ok.injEq]
  constructor
  · rintro ⟨changes, t', _, _, ⟨_, rfl⟩, _, t, hset, hrest⟩
    exact ⟨t, hset, (happly t).mp ⟨changes, t', hrest⟩⟩
  · rintro ⟨t, hset, hserves⟩
    obtain ⟨changes, t', hrest⟩ := (happly t).mpr hserves
    exact ⟨changes, t', ⟨⟩, _, ⟨trivial, rfl⟩, (), t, hset, hrest⟩

end PeerScoringService

/-! ## The application of a sync -/

namespace Conversation

variable {P : Platform}

/-- The storage serves every call that adopting the scores of this sync makes. -/
def ScoresServed (c : Conversation P) (sync : ConversationSync) : Prop :=
  c.scoring.AdoptionServed (syncedDefaultPeerScore sync)
    (sync.peerScores.map fun ps => (ps.memberId, ps.score))

/-- Nothing that a sync writes differs. -/
structure Untouched (c d : Conversation P) : Prop where
  stewardList : d.stewardList = c.stewardList
  parameters : d.scoring.config = c.scoring.config
  scores : ∀ id, P.scores.get d.scoring.storage id = P.scores.get c.scoring.storage id
  config : d.config = c.config

theorem adoptScores_ok_iff (sync : ConversationSync) (c : Conversation P) :
    (∃ d, (adoptScores sync : ConvM P Unit) c = .ok () d) ↔ c.ScoresServed sync := by
  unfold ScoresServed
  rw [← PeerScoringService.adopt_ok_iff c.scoring sync.thresholdPeerScore]
  unfold adoptScores applyScoreSnapshot onScoring
  simp only [bind_ok, zoom_ok]
  constructor
  · rintro ⟨d, _, _, ⟨t₁, hthreshold, rfl⟩, _, _, ⟨t₂, hdefault, rfl⟩, changes, _,
      ⟨t₃, happly, rfl⟩, _⟩
    exact ⟨changes, t₃, _, t₁, hthreshold, _, t₂, hdefault, happly⟩
  · rintro ⟨changes, t₃, _, t₁, hthreshold, _, t₂, hdefault, happly⟩
    obtain ⟨_, hemit⟩ := emitScoreChanges_succeeds changes (scoringPart.set t₃ c)
    exact ⟨_, _, _, ⟨t₁, hthreshold, rfl⟩, _, _, ⟨t₂, hdefault, rfl⟩, changes, _,
      ⟨t₃, happly, rfl⟩, hemit⟩

/-- Once a sync passed the checks, only the score storage can fail it. -/
theorem onConversationSync_takes {c : Conversation P} {sync : ConversationSync}
    (h : c.Takes sync) : (onConversationSync sync : ConvM P Unit) c = (do
      adoptScores sync
      modify fun c => { c with config := syncedConfig c.config sync }
      emitEvent .conversationSyncApplied : ConvM P Unit) (c.answeredSync.seated sync) := by
  obtain ⟨hrefuses, hvalid⟩ := h
  obtain ⟨_, hconfig, hpool, hsound⟩ := validateConversationSync_iff.mp hvalid
  have happly := applyConversationSyncToEntry_eq (c := c.answeredSync) hconfig hpool hsound
  rw [onConversationSync_eq, if_neg hrefuses, hvalid]
  rw [← bind_assoc]
  change EStateM.bind _ _ _ = EStateM.bind _ _ _
  unfold EStateM.bind
  rw [happly]

/-- **Atomicity.** A sync that ends in an error leaves everything it writes as it was, and is not
refused for that when it comes again, exactly when the node would not have taken it or the score
storage serves every call. -/
theorem sync_atomic_iff (c : Conversation P) (sync : ConversationSync) :
    (∀ e d, (onConversationSync sync : ConvM P Unit) c = .error e d →
        c.Untouched d ∧ (d.RefusesSync sync → c.RefusesSync sync)) ↔
      (c.Takes sync → c.ScoresServed sync) := by
  constructor
  · intro hatomic htakes
    rw [show c.ScoresServed sync ↔ (c.answeredSync.seated sync).ScoresServed sync from Iff.rfl,
      ← adoptScores_ok_iff]
    cases hadopt : (adoptScores sync : ConvM P Unit) (c.answeredSync.seated sync) with
    | ok u d => exact ⟨d, rfl⟩
    | error e d =>
      -- The list of the sync is in place by now, and it is the one the guard looks at.
      have hrun : (onConversationSync sync : ConvM P Unit) c = .error e d := by
        rw [onConversationSync_takes htakes, bind_error]
        exact .inl hadopt
      have hlist : d.stewardList.list =
          some (sync.listUnder P c.stewardList.conversationId) :=
        congrArg Prod.snd ((frame_adoptScores sync).error hadopt)
      exact absurd ((hatomic e d hrun).2 ⟨_, hlist, .inr le_rfl⟩) htakes.1
  · intro hserved e d herror
    by_cases htakes : c.Takes sync
    · obtain ⟨d', hadopt⟩ := (adoptScores_ok_iff sync (c.answeredSync.seated sync)).mpr
        (hserved htakes)
      rw [onConversationSync_takes htakes, bind_run _ hadopt] at herror
      cases herror
    · rw [onConversationSync_eq] at herror
      split_ifs at herror with hrefuses
      cases hvalid : validateConversationSync P c.conversationId sync c.epoch c.members with
      | error e' =>
        rw [hvalid] at herror
        cases herror
        exact ⟨⟨rfl, rfl, fun _ => rfl, rfl⟩, fun h => h⟩
      | ok valid =>
        cases valid with
        | false =>
          rw [hvalid] at herror
          cases herror
        | true => exact absurd ⟨hrefuses, hvalid⟩ htakes

end Conversation

/-! ## A storage that gives up -/

namespace Ideal

/-- The score table of the plain platform, on a device with room for so many writes. -/
def limitedScores : PeerScoreStorage where
  Store := Nat × List (Bytes × Int)
  get st id := .ok ((st.2.find? fun e => e.1 = id).map Prod.snd)
  set st id score :=
    match st.1 with
    | 0 => (.error "no space left", st)
    | room + 1 => (.ok (), room, st.2.filter (fun e => e.1 ≠ id) ++ [(id, score)])
  remove st id := (.ok (), st.1, st.2.filter fun e => e.1 ≠ id)
  allScores st := .ok st.2

def limited : Platform := { wired with scores := limitedScores }

/-- Three members without a list, and room for one write. -/
def cramped : Conversation limited :=
  { start with
    stewardList := { start.stewardList with list := none }
    scoring := ⟨(1, [(memberIdOf 0, 100), (memberIdOf 1, 100), (memberIdOf 2, 100)]),
      ScoreEvent.defaultDelta, ⟨100, 0⟩⟩ }

/-- A sync of the first two stewards, in a group where members start at fifty. -/
def fifty : ConversationSync :=
  ⟨[memberIdOf 0, memberIdOf 1], 1, 1, 2, false, [], none, 0, 2, true, 0, 3, [], 50⟩

end Ideal

/-- The second write fails: the list stays, one member has moved, and the sync is refused from
then on. -/
theorem sync_half_applied : Ideal.cramped.Takes Ideal.fifty ∧
    ∃ d, (Conversation.onConversationSync Ideal.fifty : ConvM Ideal.limited Unit) Ideal.cramped =
        .error (.scoreStorage "no space left") d ∧
      d.stewardList.list ≠ none ∧
      Ideal.limited.scores.get d.scoring.storage (memberIdOf 0) = .ok (some 50) ∧
      Ideal.limited.scores.get d.scoring.storage (memberIdOf 1) = .ok (some 100) ∧
      ¬ Ideal.cramped.RefusesSync Ideal.fifty ∧ d.RefusesSync Ideal.fifty :=
  ⟨⟨by decide, rfl⟩, _, rfl, by decide, rfl, rfl, by decide, by decide⟩

end DeMls
