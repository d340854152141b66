import DeMls.Conversation.Standing

/-!
# The bootstrap sync

What a sync says, when a node takes it, and what taking it writes. `validateConversationSync_iff`
lists the checks, `onConversationSync_cases` the ways a sync can end, and
`applyConversationSyncToEntry_eq` is the run of a sync that passed them: the list and its
configuration at once, then the scores, then the timing.
-/

namespace DeMls

open Program Conversation

variable {P : Platform}

/-! ## The checks -/

theorem StewardListConfig.new_ok {snMin snMax : Nat} {config : StewardListConfig} :
    new snMin snMax = .ok config ↔ config.Valid ∧ config = ⟨snMin, snMax, false⟩ := by
  unfold new Valid
  split_ifs with hsize
  · refine ⟨fun h => (nomatch h), ?_⟩
    rintro ⟨hvalid, rfl⟩
    dsimp only at hvalid
    omega
  · rw [Except.ok.injEq]
    refine ⟨?_, fun h => h.2.symm⟩
    rintro rfl
    exact ⟨by dsimp only; omega, rfl⟩

/-- Only the bounds of a configuration decide how many stewards it elects. -/
theorem computeListSize_congr {c d : StewardListConfig} (hmin : d.snMin = c.snMin)
    (hmax : d.snMax = c.snMax) (n : Nat) : d.computeListSize n = c.computeListSize n := by
  unfold StewardListConfig.computeListSize StewardListConfig.sizeBounds
  rw [hmin, hmax]

theorem electedFrom_congr {c d : StewardListConfig} (hmin : d.snMin = c.snMin)
    (hmax : d.snMax = c.snMax) (e r : Nat) (cid : Bytes) (pool : List Bytes) :
    electedFrom P d e r cid pool = electedFrom P c e r cid pool := by
  unfold electedFrom
  rw [computeListSize_congr hmin hmax]

theorem ScoringConfig.validate_iff {c : ScoringConfig} :
    c.validate.toOption.isSome = true ↔ 0 < c.defaultScore ∧ c.threshold < c.defaultScore := by
  unfold validate
  split_ifs with hdefault hthreshold
  · exact ⟨fun h => (nomatch h), fun h => by omega⟩
  · exact ⟨fun h => (nomatch h), fun h => by omega⟩
  · exact ⟨fun _ => ⟨by omega, by omega⟩, fun _ => rfl⟩

namespace ConversationSync

/-- The list configuration a sync carries. -/
def listConfig (sync : ConversationSync) : StewardListConfig :=
  ⟨sync.snMin, sync.snMax, sync.allowSubsetCandidates⟩

/-- The members the list of a sync was drawn from, as its receiver works them out. -/
def poolIn (sync : ConversationSync) (members : List Bytes) : List Bytes :=
  members.filter fun m => m ∉ sync.unsettledMembers

/-- The list of a sync. -/
def list (sync : ConversationSync) : StewardList :=
  ⟨sync.stewardMembers, sync.listConfig, sync.electionEpoch, sync.retryRound⟩

/-- The list a receiver makes of a sync, ordered by its own salt. -/
def listUnder (P : Platform) (sync : ConversationSync) (salt : Bytes) : StewardList :=
  ⟨sortedStewards P sync.electionEpoch sync.retryRound salt sync.stewardMembers, sync.listConfig,
    sync.electionEpoch, sync.retryRound⟩

/-- No epoch of the future, and nobody unsettled who is not a member. -/
def Credible (sync : ConversationSync) (epoch : Nat) (members : List Bytes) : Prop :=
  sync.electionEpoch ≤ epoch ∧ ∀ u ∈ sync.unsettledMembers, u ∈ members

instance (sync : ConversationSync) (epoch : Nat) (members : List Bytes) :
    Decidable (sync.Credible epoch members) :=
  inferInstanceAs (Decidable (_ ∧ _))

/-- The checks after these. -/
structure Sound (P : Platform) (conversationId : Bytes) (sync : ConversationSync)
    (members : List Bytes) : Prop where
  elected : sync.stewardMembers = electedFrom P sync.listConfig sync.electionEpoch sync.retryRound
    conversationId (sync.poolIn members)
  present : ∃ s ∈ sync.stewardMembers, s ∈ members
  timed : sync.timing.bind firstZeroTimingField = none
  scored : 0 < syncedDefaultPeerScore sync ∧ sync.thresholdPeerScore < syncedDefaultPeerScore sync

end ConversationSync

section
variable {cid : Bytes} {sync : ConversationSync} {epoch : Nat} {members : List Bytes}

/-- A sync that is not credible is refused without an error. -/
theorem validateConversationSync_not_credible (h : ¬ sync.Credible epoch members) :
    validateConversationSync P cid sync epoch members = .ok false := by
  unfold validateConversationSync
  by_cases hepoch : epoch < sync.electionEpoch
  · rw [if_pos hepoch]
  · rw [if_neg hepoch, if_pos]
    intro hall
    exact h ⟨Nat.le_of_not_lt hepoch, by simpa using hall⟩

/-- A credible one goes through the checks that may fail. -/
theorem validateConversationSync_credible (h : sync.Credible epoch members) :
    validateConversationSync P cid sync epoch members =
      match StewardListConfig.new sync.snMin sync.snMax with
      | .error e => .error e
      | .ok config =>
        match StewardList.validate P sync.stewardMembers sync.electionEpoch cid
            (sync.poolIn members) config sync.retryRound with
        | .error e => .error e
        | .ok orderingValid => .ok ((sync.stewardMembers.any fun s => s ∈ members) && orderingValid &&
            (sync.timing.bind firstZeroTimingField).isNone &&
            (ScoringConfig.validate ⟨syncedDefaultPeerScore sync,
              sync.thresholdPeerScore⟩).toOption.isSome) := by
  unfold validateConversationSync
  rw [if_neg (Nat.not_lt.mpr h.1), if_neg]
  · rfl
  · simpa using h.2

/-- **The checks of a sync.** -/
theorem validateConversationSync_iff : validateConversationSync P cid sync epoch members = .ok true ↔
    sync.Credible epoch members ∧ sync.listConfig.Valid ∧ sync.poolIn members ≠ [] ∧
      sync.Sound P cid members := by
  by_cases hcredible : sync.Credible epoch members
  · rw [validateConversationSync_credible hcredible]
    cases hconfig : StewardListConfig.new sync.snMin sync.snMax with
    | error e =>
      refine ⟨fun h => (nomatch h), fun h => ?_⟩
      have hvalid : (⟨sync.snMin, sync.snMax, false⟩ : StewardListConfig).Valid := h.2.1
      cases hconfig.symm.trans (StewardListConfig.new_ok.mpr ⟨hvalid, rfl⟩)
    | ok config =>
      obtain ⟨hvalid, rfl⟩ := StewardListConfig.new_ok.mp hconfig
      have helected : StewardList.validate P sync.stewardMembers sync.electionEpoch cid
          (sync.poolIn members) ⟨sync.snMin, sync.snMax, false⟩ sync.retryRound = .ok true ↔
            sync.poolIn members ≠ [] ∧ sync.stewardMembers = electedFrom P sync.listConfig
              sync.electionEpoch sync.retryRound cid (sync.poolIn members) := by
        rw [StewardList.validate_iff,
          electedFrom_congr (c := sync.listConfig) (d := ⟨sync.snMin, sync.snMax, false⟩) rfl rfl]
      dsimp only
      cases hordering : StewardList.validate P sync.stewardMembers sync.electionEpoch cid
          (sync.poolIn members) ⟨sync.snMin, sync.snMax, false⟩ sync.retryRound with
      | error e =>
        refine ⟨fun h => (nomatch h), fun h => ?_⟩
        cases hordering.symm.trans (helected.mpr ⟨h.2.2.1, h.2.2.2.elected⟩)
      | ok orderingValid =>
        rw [hordering, Except.ok.injEq] at helected
        dsimp only
        rw [Except.ok.injEq, Bool.and_eq_true, Bool.and_eq_true, Bool.and_eq_true,
          ScoringConfig.validate_iff, helected, Option.isNone_iff_eq_none, List.any_eq_true]
        constructor
        · rintro ⟨⟨⟨hpresent, hpool, hlist⟩, htimed⟩, hscored⟩
          exact ⟨hcredible, hvalid, hpool, hlist, by simpa using hpresent, htimed, hscored⟩
        · rintro ⟨_, _, hpool, hlist, hpresent, htimed, hscored⟩
          exact ⟨⟨⟨by simpa using hpresent, hpool, hlist⟩, htimed⟩, hscored⟩
  · rw [validateConversationSync_not_credible hcredible]
    exact ⟨fun h => (nomatch h), fun h => absurd h.1 hcredible⟩

/-- **The checks that fail** instead of refusing: inverted size bounds, and a pool with nobody
in it. -/
theorem validateConversationSync_error_iff :
    (∃ e, validateConversationSync P cid sync epoch members = .error e) ↔
      sync.Credible epoch members ∧ ¬ (sync.listConfig.Valid ∧ sync.poolIn members ≠ []) := by
  by_cases hcredible : sync.Credible epoch members
  · rw [validateConversationSync_credible hcredible]
    cases hconfig : StewardListConfig.new sync.snMin sync.snMax with
    | error e =>
      refine ⟨fun _ => ⟨hcredible, fun h => ?_⟩, fun _ => ⟨e, rfl⟩⟩
      have hvalid : (⟨sync.snMin, sync.snMax, false⟩ : StewardListConfig).Valid := h.1
      cases hconfig.symm.trans (StewardListConfig.new_ok.mpr ⟨hvalid, rfl⟩)
    | ok config =>
      have hvalid : sync.listConfig.Valid := by
        obtain ⟨hvalid, rfl⟩ := StewardListConfig.new_ok.mp hconfig
        exact hvalid
      dsimp only
      cases hordering : StewardList.validate P sync.stewardMembers sync.electionEpoch cid
          (sync.poolIn members) config sync.retryRound with
      | error e =>
        obtain ⟨hpool, _⟩ := StewardList.validate_error.mp hordering
        exact ⟨fun _ => ⟨hcredible, fun h => h.2 hpool⟩, fun _ => ⟨e, rfl⟩⟩
      | ok orderingValid =>
        refine ⟨fun ⟨e, h⟩ => (nomatch h), fun h => absurd ⟨hvalid, fun hpool => ?_⟩ h.2⟩
        cases hordering.symm.trans (StewardList.validate_error.mpr ⟨hpool, rfl⟩)
  · rw [validateConversationSync_not_credible hcredible]
    exact ⟨fun ⟨e, h⟩ => (nomatch h), fun h => absurd h.1 hcredible⟩

end

namespace Conversation

/-! ## Building a sync -/

/-- What a node says of its list, its group and its scores. -/
def syncOf (c : Conversation P) (l : StewardList) (diverged : List (Bytes × Int)) :
    ConversationSync where
  stewardMembers := l.members
  electionEpoch := l.electionEpoch
  snMin := l.config.snMin % 2 ^ 32
  snMax := l.config.snMax % 2 ^ 32
  allowSubsetCandidates := c.stewardList.config.allowSubsetCandidates
  peerScores := diverged.map fun e => ⟨e.1, e.2⟩
  timing := some c.config.toTiming
  retryRound := l.retryRound
  maxReelectionAttempts := c.stewardList.maxRetries
  livenessCriteriaYes := c.config.livenessCriteriaYes
  thresholdPeerScore := c.scoring.config.threshold
  pendingUpdateMaxEpochs := c.config.pendingUpdateMaxEpochs
  unsettledMembers := c.members.filter fun m => !c.queues.isSettled m l.electionEpoch
  defaultPeerScore := c.scoring.config.defaultScore

/-- The payload is the encryption of a sync in this group. -/
def Encrypts (c : Conversation P) (payload : Bytes) (sync : ConversationSync) : Prop :=
  ∃ mls, MlsService.buildMessage (P.codec.encodeApp ⟨some (.conversationSync sync)⟩) c.mls =
    .ok payload mls

/-- The sync a node sends: what it says of its list, over the scores off the default. -/
def Sends (c : Conversation P) (sync : ConversationSync) : Prop :=
  ∃ l all, c.stewardList.list = some l ∧ P.scores.allScores c.scoring.storage = .ok all ∧
    sync = c.syncOf l (all.filter fun e => e.2 ≠ c.scoring.config.defaultScore)

/-- A sync is on the wire: no backup has to answer. -/
def answeredSync (c : Conversation P) : Conversation P :=
  { c with timing := { c.timing with syncResendAnchor := none } }

/-- A node whose list still serves, or is as new, takes no sync. -/
def RefusesSync (c : Conversation P) (sync : ConversationSync) : Prop :=
  ∃ mine, c.stewardList.list = some mine ∧
    (mine.isExhausted c.epoch = false ∨ sync.electionEpoch ≤ mine.electionEpoch)

instance (c : Conversation P) (sync : ConversationSync) : Decidable (c.RefusesSync sync) :=
  match h : c.stewardList.list with
  | none => isFalse fun ⟨mine, hmine, _⟩ => by simp [h] at hmine
  | some mine =>
    if hserves : mine.isExhausted c.epoch = false ∨ sync.electionEpoch ≤ mine.electionEpoch then
      isTrue ⟨mine, h, hserves⟩
    else isFalse fun ⟨other, hother, hserves'⟩ => by
      cases h.symm.trans hother
      exact hserves hserves'

/-- The node takes this sync. -/
def Takes (c : Conversation P) (sync : ConversationSync) : Prop :=
  ¬ c.RefusesSync sync ∧
    validateConversationSync P c.conversationId sync c.epoch c.members = .ok true

/-- **A sync** is refused, fails a check, or is applied. -/
theorem onConversationSync_eq (sync : ConversationSync) (c : Conversation P) :
    (onConversationSync sync : ConvM P Unit) c =
      if c.RefusesSync sync then .ok () c.answeredSync
      else match validateConversationSync P c.conversationId sync c.epoch c.members with
        | .error e => .error e c.answeredSync
        | .ok false => .ok () c.answeredSync
        | .ok true => (do
            applyConversationSyncToEntry sync
            emitEvent .conversationSyncApplied : ConvM P Unit) c.answeredSync := by
  unfold onConversationSync
  rw [bind_run _ (show (modifyTiming _ : ConvM P Unit) c = .ok () c.answeredSync from rfl),
    bind_run _ (get_apply _)]
  refine (congrArg (fun x : ConvM P Unit => x c.answeredSync)
    (if_congr (?_ : _ ↔ c.RefusesSync sync) rfl rfl)).trans ?_
  · rw [show c.answeredSync.stewardList = c.stewardList from rfl,
      show c.answeredSync.epoch = c.epoch from rfl]
    unfold RefusesSync
    cases c.stewardList.list <;> simp
  · by_cases hrefuses : c.RefusesSync sync
    · rw [if_pos hrefuses, if_pos hrefuses]
      rfl
    · rw [if_neg hrefuses, if_neg hrefuses]
      show (ofResult (validateConversationSync P c.conversationId sync c.epoch c.members) >>= _ :
        ConvM P Unit) c.answeredSync = _
      cases validateConversationSync P c.conversationId sync c.epoch c.members with
      | error e => rfl
      | ok valid => cases valid <;> rfl

/-! ## Applying one -/

/-- The list of a sync is in place, with its configuration. -/
def seated (c : Conversation P) (sync : ConversationSync) : Conversation P :=
  { c with stewardList := { c.stewardList with
      list := some (sync.listUnder P c.stewardList.conversationId)
      config := sync.listConfig
      maxRetries := sync.maxReelectionAttempts } }

/-- Its scoring parameters and scores. -/
def adoptScores (sync : ConversationSync) : ConvM P Unit := do
  onScoring (PeerScoringService.setThreshold sync.thresholdPeerScore)
  onScoring (PeerScoringService.setDefaultScore (syncedDefaultPeerScore sync))
  applyScoreSnapshot ⟨sync.peerScores.map fun ps => (ps.memberId, ps.score)⟩

/-- The configuration a sync leaves. -/
def syncedConfig (config : ConversationConfig) (sync : ConversationSync) : ConversationConfig :=
  let config := { config with
    livenessCriteriaYes := sync.livenessCriteriaYes
    pendingUpdateMaxEpochs := sync.pendingUpdateMaxEpochs }
  match sync.timing with
  | some timing => config.applyTiming timing
  | none => config

/-- **Application.** A sync that passed the checks installs its list and configuration, adopts the
scores, which may fail, and then the timing. -/
theorem applyConversationSyncToEntry_eq {c : Conversation P} {sync : ConversationSync}
    {members : List Bytes} (hconfig : sync.listConfig.Valid) (hpool : sync.poolIn members ≠ [])
    {cid : Bytes} (hsound : sync.Sound P cid members) :
    (applyConversationSyncToEntry sync : ConvM P Unit) c = (do
      adoptScores sync
      modify fun c => { c with config := syncedConfig c.config sync } : ConvM P Unit)
        (c.seated sync) := by
  have hnew : StewardListConfig.new sync.snMin sync.snMax = .ok ⟨sync.snMin, sync.snMax, false⟩ :=
    StewardListConfig.new_ok.mpr ⟨hconfig, rfl⟩
  have hgenerate : StewardList.generate P sync.electionEpoch c.stewardList.conversationId
      sync.stewardMembers sync.stewardMembers.length sync.listConfig sync.retryRound =
        .ok (sync.listUnder P c.stewardList.conversationId) := by
    unfold ConversationSync.listUnder
    rw [hsound.elected]
    exact StewardList.generate_own hconfig hpool _
  have hinstall : StewardListService.installList P { c.stewardList with config := sync.listConfig }
      sync.electionEpoch sync.stewardMembers sync.stewardMembers.length sync.retryRound =
        .ok { c.stewardList with
          list := some (sync.listUnder P c.stewardList.conversationId)
          config := sync.listConfig } := by
    unfold StewardListService.installList
    dsimp only
    rw [hgenerate]
  unfold applyConversationSyncToEntry
  rw [hnew]
  show (ofResult (StewardListService.installList P { c.stewardList with config := sync.listConfig }
    sync.electionEpoch sync.stewardMembers sync.stewardMembers.length sync.retryRound) >>=
      fun stewardList => (do
        modify fun c => { c with
          stewardList := { stewardList with maxRetries := sync.maxReelectionAttempts } }
        onScoring (PeerScoringService.setThreshold sync.thresholdPeerScore)
        onScoring (PeerScoringService.setDefaultScore (syncedDefaultPeerScore sync))
        applyScoreSnapshot ⟨sync.peerScores.map fun ps => (ps.memberId, ps.score)⟩
        modify fun c => { c with config := syncedConfig c.config sync } : ConvM P Unit))
      { c with stewardList := { c.stewardList with config := sync.listConfig } } = _
  unfold adoptScores
  rw [hinstall, bind_assoc, bind_assoc]
  rfl

end Conversation

end DeMls
