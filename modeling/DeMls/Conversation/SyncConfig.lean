import DeMls.Conversation.ListSync

/-!
# The configuration after a sync

A sync carries six durations in whole milliseconds, and its receiver copies them one by one beside a
voting delay of its own. `synced_config_iff` says for which pairs of valid configurations the
receiver ends with a valid one that agrees with the sender's.
-/

namespace DeMls

open Program

/-! ## Durations on the wire -/

/-- A duration in whole milliseconds. -/
def truncated (duration : Nat) : Nat := milliseconds (duration / 10 ^ 6)

/-- A duration that the wire can hold. -/
def FitsWire (duration : Nat) : Prop := duration / 10 ^ 6 < 2 ^ 64

/-- `Duration::as_millis` cut to 64 bits. -/
def wireMs (duration : Nat) : Nat := duration / 10 ^ 6 % 2 ^ 64

instance (duration : Nat) : Decidable (FitsWire duration) := inferInstanceAs (Decidable (_ < _))

namespace ConversationConfig

theorem milliseconds_inj {m n : Nat} : milliseconds m = milliseconds n ↔ m = n := by
  unfold milliseconds
  omega

/-- A field takes over the sender's duration when the wire holds it, or had it before. -/
theorem applyNonzeroMs_wireMs (field duration : Nat) :
    applyNonzeroMs field (wireMs duration) = truncated duration ↔
      if wireMs duration = 0 then field = truncated duration else FitsWire duration := by
  unfold applyNonzeroMs truncated FitsWire
  by_cases hzero : wireMs duration = 0
  · rw [if_neg (not_not.mpr hzero), if_pos hzero]
  · rw [if_pos hzero, if_neg hzero, milliseconds_inj]
    unfold wireMs
    omega

theorem validate_iff {c : ConversationConfig} : c.validate = .ok () ↔
    c.votingDelay < c.consensusTimeout ∧ c.consensusTimeout < c.proposalExpiration ∧
      c.freezeDuration ≠ 0 ∧ c.stewardList.Valid := by
  unfold validate StewardListConfig.Valid
  split_ifs with hdelay hexpiration hfreeze hsizes
  · exact ⟨fun h => (nomatch h), fun h => by omega⟩
  · exact ⟨fun h => (nomatch h), fun h => by omega⟩
  · exact ⟨fun h => (nomatch h), fun h => absurd hfreeze h.2.2.1⟩
  · exact ⟨fun h => (nomatch h), fun h => by omega⟩
  · exact ⟨fun _ => ⟨by omega, by omega, hfreeze, by omega⟩, fun _ => rfl⟩

/-- The six synchronised durations are those of the sender, truncated. -/
structure TimedBy (c sender : ConversationConfig) : Prop where
  commitBatchWindow : c.commitBatchWindow = truncated sender.commitBatchWindow
  freezeDuration : c.freezeDuration = truncated sender.freezeDuration
  retryWindow : c.retryWindow = truncated sender.retryWindow
  backupTakeoverWindow : c.backupTakeoverWindow = truncated sender.backupTakeoverWindow
  proposalExpiration : c.proposalExpiration = truncated sender.proposalExpiration
  consensusTimeout : c.consensusTimeout = truncated sender.consensusTimeout

/-- No duration is too long for the wire, and the takeover window, which is not checked for zero,
arrives or was there before. -/
structure Transmits (sender receiver : ConversationConfig) : Prop where
  commitBatchWindow : FitsWire sender.commitBatchWindow
  freezeDuration : FitsWire sender.freezeDuration
  retryWindow : FitsWire sender.retryWindow
  proposalExpiration : FitsWire sender.proposalExpiration
  consensusTimeout : FitsWire sender.consensusTimeout
  backupTakeoverWindow : if wireMs sender.backupTakeoverWindow = 0 then
      receiver.backupTakeoverWindow = truncated sender.backupTakeoverWindow
    else FitsWire sender.backupTakeoverWindow

end ConversationConfig

variable {P : Platform}

namespace Conversation

open ConversationConfig

theorem firstZeroTimingField_none {t : TimingConfig} : firstZeroTimingField t = none ↔
    t.commitBatchWindowMs ≠ 0 ∧ t.freezeDurationMs ≠ 0 ∧ t.proposalExpirationMs ≠ 0 ∧
      t.consensusTimeoutMs ≠ 0 ∧ t.retryWindowMs ≠ 0 := by
  unfold firstZeroTimingField
  split_ifs <;> simp_all

/-- The node takes the sync, and nothing fails on the way. -/
structure Applies (d : Conversation P) (sync : ConversationSync) (d' : Conversation P) : Prop where
  takes : d.Takes sync
  run : (onConversationSync sync : ConvM P Unit) d = .ok () d'

theorem frame_config_adoptScores (sync : ConversationSync) :
    Frame Conversation.config (adoptScores sync : ConvM P Unit) := by
  have hemit : ∀ changes, Frame Conversation.config (emitScoreChanges changes : ConvM P Unit) := by
    intro changes
    induction changes with
    | nil => exact frame_pure _ _
    | cons change rest ih => exact frame_bind (frame_modify fun _ => rfl) fun _ => ih
  have hscoring : ∀ {α : Type} (x : PeerScoringService.ScoringM P.scores α),
      Frame Conversation.config (onScoring x : ConvM P α) := fun _ => frame_zoom fun _ _ => rfl
  exact frame_bind (hscoring _) fun _ => frame_bind (hscoring _) fun _ =>
    frame_bind (hscoring _) fun _ => hemit _

/-- An applied sync leaves the configuration it describes. -/
theorem Applies.config {d d' : Conversation P} {sync : ConversationSync} (h : d.Applies sync d') :
    d'.config = syncedConfig d.config sync := by
  obtain ⟨⟨hrefuses, hvalid⟩, hrun⟩ := h
  obtain ⟨_, hconfig, hpool, hsound⟩ := validateConversationSync_iff.mp hvalid
  rw [onConversationSync_eq, if_neg hrefuses, hvalid] at hrun
  obtain ⟨_, t, happly, hemit⟩ := (bind_ok _ _ _ _ _).mp hrun
  rw [applyConversationSyncToEntry_eq hconfig hpool hsound] at happly
  obtain ⟨_, s, hscores, hset⟩ := (bind_ok _ _ _ _ _).mp happly
  have hkept : s.config = (d.answeredSync.seated sync).config :=
    (frame_config_adoptScores sync).ok hscores
  cases hset
  cases hemit
  show syncedConfig s.config sync = _
  rw [hkept]
  rfl

/-- **A consistent configuration.** A valid receiver that applies the sync of a valid sender ends
with a valid configuration timed by the sender's exactly when its own voting delay is below the
truncated consensus timeout, that timeout below the truncated expiration, and the durations get
through. -/
theorem synced_config_iff {c d d' : Conversation P} {sync : ConversationSync}
    (hreceiver : d.config.validate = .ok ()) (hsync : c.Sends sync) (happlied : d.Applies sync d') :
    (d'.config.validate = .ok () ∧ d'.config.TimedBy c.config) ↔
      d.config.votingDelay < truncated c.config.consensusTimeout ∧
        truncated c.config.consensusTimeout < truncated c.config.proposalExpiration ∧
        c.config.Transmits d.config := by
  obtain ⟨l, all, _, _, rfl⟩ := hsync
  obtain ⟨_, _, _, hsound⟩ := validateConversationSync_iff.mp happlied.takes.2
  obtain ⟨hbatch, hfreeze, hexpiration, htimeout, hretry⟩ :=
    firstZeroTimingField_none.mp (hsound.timed : firstZeroTimingField c.config.toTiming = none)
  obtain ⟨_, _, _, hsizes⟩ := validate_iff.mp hreceiver
  have hfield : ∀ {field duration : Nat}, wireMs duration ≠ 0 →
      (applyNonzeroMs field (wireMs duration) = truncated duration ↔ FitsWire duration) :=
    fun hnonzero => by rw [applyNonzeroMs_wireMs, if_neg hnonzero]
  rw [happlied.config]
  constructor
  · rintro ⟨hvalid, htimed⟩
    obtain ⟨hdelay, hlasts, _, _⟩ := validate_iff.mp hvalid
    rw [htimed.consensusTimeout] at hdelay hlasts
    rw [htimed.proposalExpiration] at hlasts
    exact ⟨hdelay, hlasts, (hfield hbatch).mp htimed.commitBatchWindow,
      (hfield hfreeze).mp htimed.freezeDuration, (hfield hretry).mp htimed.retryWindow,
      (hfield hexpiration).mp htimed.proposalExpiration,
      (hfield htimeout).mp htimed.consensusTimeout,
      (applyNonzeroMs_wireMs _ _).mp htimed.backupTakeoverWindow⟩
  · rintro ⟨hdelay, hlasts, hwire⟩
    have htimed : (syncedConfig d.config (c.syncOf l
        (all.filter fun e => e.2 ≠ c.scoring.config.defaultScore))).TimedBy c.config :=
      ⟨(hfield hbatch).mpr hwire.commitBatchWindow, (hfield hfreeze).mpr hwire.freezeDuration,
        (hfield hretry).mpr hwire.retryWindow,
        (applyNonzeroMs_wireMs _ _).mpr hwire.backupTakeoverWindow,
        (hfield hexpiration).mpr hwire.proposalExpiration,
        (hfield htimeout).mpr hwire.consensusTimeout⟩
    refine ⟨validate_iff.mpr ⟨?_, ?_, ?_, hsizes⟩, htimed⟩
    · rw [htimed.consensusTimeout]
      exact hdelay
    · rw [htimed.consensusTimeout, htimed.proposalExpiration]
      exact hlasts
    · rw [htimed.freezeDuration]
      have hwhole : wireMs c.config.freezeDuration ≠ 0 := hfreeze
      unfold truncated milliseconds
      unfold wireMs at hwhole
      omega

end Conversation

namespace Ideal

/-- A member of three with the list of the first two, and a consensus timeout of its own choice. -/
def timedBy (votingDelay consensusTimeout : Nat) : Conversation wired :=
  { listed with config := { ConversationConfig.default with
      votingDelay := votingDelay
      consensusTimeout := consensusTimeout } }

/-- The sync it sends. -/
def syncBy (votingDelay consensusTimeout : Nat) : ConversationSync :=
  (timedBy votingDelay consensusTimeout).syncOf firstTwo []

/-- A receiver with the default configuration. -/
def receivedBy (votingDelay consensusTimeout : Nat) : Conversation wired :=
  after (Conversation.onConversationSync (syncBy votingDelay consensusTimeout)) listed.unlisted

theorem sends_syncBy (votingDelay consensusTimeout : Nat) :
    (timedBy votingDelay consensusTimeout).Sends (syncBy votingDelay consensusTimeout) :=
  ⟨firstTwo, [], rfl, rfl, rfl⟩

end Ideal

/-- The sender votes after one second of five, the receiver after ten: under the sender's timeout the
receiver's own vote would come after the session has closed. -/
theorem synced_config_invalid :
    (Ideal.timedBy (seconds 1) (seconds 5)).config.validate = .ok () ∧
    Ideal.listed.unlisted.config.validate = .ok () ∧
    (Ideal.timedBy (seconds 1) (seconds 5)).Sends (Ideal.syncBy (seconds 1) (seconds 5)) ∧
    Ideal.listed.unlisted.Applies (Ideal.syncBy (seconds 1) (seconds 5))
      (Ideal.receivedBy (seconds 1) (seconds 5)) ∧
    (Ideal.receivedBy (seconds 1) (seconds 5)).config.validate =
      .error (.invalidConfig "voting_delay must be < consensus_timeout") :=
  ⟨rfl, rfl, Ideal.sends_syncBy _ _, ⟨⟨by decide, by decide⟩, rfl⟩, by decide⟩

/-- The law, where both vote after ten seconds. -/
theorem synced_config_valid :
    (Ideal.receivedBy (seconds 10) (seconds 20)).config.validate = .ok () := by
  have happlied : Ideal.listed.unlisted.Applies (Ideal.syncBy (seconds 10) (seconds 20))
      (Ideal.receivedBy (seconds 10) (seconds 20)) := ⟨⟨by decide, by decide⟩, rfl⟩
  have hiff := Conversation.synced_config_iff rfl (Ideal.sends_syncBy (seconds 10) (seconds 20))
    happlied
  exact (hiff.mpr ⟨by decide, by decide, by decide, by decide, by decide, by decide, by decide,
    by decide⟩).1

end DeMls
