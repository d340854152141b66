import DeMls.Conversation.SyncAtomic

/-!
# A sync that comes again

Syncs are gossiped and re-sent. A node takes one when it has no list, or an exhausted one from an
earlier election, and what it takes is then as new as that sync: the guard refuses it from there on.
`onConversationSync_ignored` says so of every later sequence of syncs, `onConversationSync_guarded`
collects what one sync can do.
-/

namespace DeMls

open Program

variable {P : Platform}

namespace Conversation

/-! ## What one sync leaves -/

/-- The installed lists and the timers. -/
def seatsAndTimers (c : Conversation P) : StewardListService × Timing := (c.stewardList, c.timing)

/-- What the checks of a sync read, the list aside. -/
def vantage (c : Conversation P) : Bytes × MlsService P.mls := (c.conversationId, c.mls)

/-- Scores are adopted beside everything else. -/
theorem adopting_frames {ρ : Type} {p : Conversation P → ρ}
    (hscoring : ∀ s c, p (scoringPart.set s c) = p c)
    (hevents : ∀ c event, p { c with pendingEvents := c.pendingEvents ++ [event] } = p c)
    (hconfig : ∀ c config, p { c with config := config } = p c) (sync : ConversationSync) :
    Frame p (do
      adoptScores sync
      modify fun c => { c with config := syncedConfig c.config sync }
      emitEvent .conversationSyncApplied : ConvM P Unit) := by
  have hchanges : ∀ changes : List ScoreChange,
      Frame p (emitScoreChanges changes : ConvM P Unit) := by
    intro changes
    induction changes with
    | nil => exact frame_pure _ _
    | cons change rest ih => exact frame_bind (frame_modify fun c => hevents c _) fun _ => ih
  have hadopt : Frame p (adoptScores sync : ConvM P Unit) := by
    unfold adoptScores applyScoreSnapshot
    refine frame_bind (frame_zoom hscoring) fun _ => frame_bind (frame_zoom hscoring) fun _ => ?_
    exact frame_bind (frame_zoom hscoring) fun changes => hchanges changes
  refine frame_bind hadopt fun _ => ?_
  exact frame_bind (frame_modify fun c => hconfig c _) fun _ => frame_modify fun c => hevents c _

/-- A sync the node does not take only disarms the takeover timer. -/
theorem onConversationSync_refused {c : Conversation P} {sync : ConversationSync}
    (h : ¬ c.Takes sync) : after (onConversationSync sync : ConvM P Unit) c = c.answeredSync := by
  unfold after
  rw [onConversationSync_eq]
  by_cases hrefuses : c.RefusesSync sync
  · rw [if_pos hrefuses]
  · rw [if_neg hrefuses]
    cases hvalid : validateConversationSync P c.conversationId sync c.epoch c.members with
    | error e => rfl
    | ok valid =>
      cases valid with
      | false => rfl
      | true => exact absurd ⟨hrefuses, hvalid⟩ h

/-- One it takes leaves its list installed and the timer disarmed, whatever the storage does. -/
theorem onConversationSync_taken {c : Conversation P} {sync : ConversationSync} (h : c.Takes sync) :
    (after (onConversationSync sync : ConvM P Unit) c).seatsAndTimers =
      (c.answeredSync.seated sync).seatsAndTimers := by
  unfold after
  rw [onConversationSync_takes h]
  exact adopting_frames (fun _ _ => rfl) (fun _ _ => rfl) (fun _ _ => rfl) sync _

/-- No sync moves the group. -/
theorem frame_vantage_onConversationSync (sync : ConversationSync) :
    Frame vantage (onConversationSync sync : ConvM P Unit) := by
  intro c
  by_cases htakes : c.Takes sync
  · unfold after
    rw [onConversationSync_takes htakes]
    exact adopting_frames (fun _ _ => rfl) (fun _ _ => rfl) (fun _ _ => rfl) sync _
  · rw [onConversationSync_refused htakes]
    rfl

/-- Answered once, the takeover timer is disarmed. -/
theorem onConversationSync_answered (sync : ConversationSync) (c : Conversation P) :
    (after (onConversationSync sync : ConvM P Unit) c).answeredSync =
      after (onConversationSync sync) c := by
  have htimer : (after (onConversationSync sync : ConvM P Unit) c).timing.syncResendAnchor = none := by
    by_cases htakes : c.Takes sync
    · have htiming := congrArg (fun s => s.2.syncResendAnchor) (onConversationSync_taken htakes)
      exact htiming
    · rw [onConversationSync_refused htakes]
      rfl
  unfold answeredSync
  rw [← htimer]

/-- What it takes replaces an earlier election with one that has begun. -/
theorem Takes.newer {c : Conversation P} {sync : ConversationSync} (h : c.Takes sync) :
    sync.electionEpoch ≤ c.epoch ∧ ∀ mine, c.stewardList.list = some mine →
      mine.isExhausted c.epoch = true ∧ mine.electionEpoch < sync.electionEpoch := by
  obtain ⟨hrefuses, hvalid⟩ := h
  refine ⟨(validateConversationSync_iff.mp hvalid).1.1, fun mine hmine => ?_⟩
  constructor
  · by_contra hserves
    exact hrefuses ⟨mine, hmine, .inl (Bool.eq_false_iff.mpr hserves)⟩
  · by_contra hold
    exact hrefuses ⟨mine, hmine, .inr (Nat.le_of_not_lt hold)⟩

/-! ## Any later sequence -/

/-- A sync that was handled is not taken after that. -/
theorem not_takes_of_handled (sync : ConversationSync) (c : Conversation P) :
    ¬ (after (onConversationSync sync : ConvM P Unit) c).Takes sync := by
  by_cases htakes : c.Takes sync
  · have hlist : (after (onConversationSync sync : ConvM P Unit) c).stewardList.list =
        some (sync.listUnder P c.stewardList.conversationId) :=
      congrArg (fun s => s.1.list) (onConversationSync_taken htakes)
    exact fun hagain => hagain.1 ⟨_, hlist, .inr le_rfl⟩
  · rw [onConversationSync_refused htakes]
    exact htakes

/-- Another sync does not make it acceptable again: it leaves a newer election, or nothing new. -/
theorem not_takes_of_other {c : Conversation P} {sync : ConversationSync} (h : ¬ c.Takes sync)
    (other : ConversationSync) :
    ¬ (after (onConversationSync other : ConvM P Unit) c).Takes sync := by
  by_cases hother : c.Takes other
  · obtain ⟨_, hnewer⟩ := hother.newer
    have hlist : (after (onConversationSync other : ConvM P Unit) c).stewardList.list =
        some (other.listUnder P c.stewardList.conversationId) :=
      congrArg (fun s => s.1.list) (onConversationSync_taken hother)
    have hvantage := frame_vantage_onConversationSync other c
    obtain ⟨hid, hmls⟩ := Prod.mk.inj hvantage
    rintro ⟨hrefuses, hvalid⟩
    unfold epoch members at hvalid
    rw [hid, hmls] at hvalid
    refine h ⟨?_, hvalid⟩
    rintro ⟨mine, hmine, hserves | hold⟩
    · obtain ⟨hexhausted, _⟩ := hnewer mine hmine
      cases hserves.symm.trans hexhausted
    · refine hrefuses ⟨_, hlist, .inr ?_⟩
      exact hold.trans (hnewer mine hmine).2.le
  · rw [onConversationSync_refused hother]
    exact h

/-- The state after a sequence of syncs. -/
def afterSyncs (syncs : List ConversationSync) (c : Conversation P) : Conversation P :=
  syncs.foldl (fun c sync => after (onConversationSync sync) c) c

theorem not_takes_afterSyncs {sync : ConversationSync} (syncs : List ConversationSync)
    {c : Conversation P} (h : ¬ c.Takes sync) : ¬ (c.afterSyncs syncs).Takes sync := by
  induction syncs generalizing c with
  | nil => exact h
  | cons other rest ih => exact ih (not_takes_of_other h other)

/-- **Replays.** A sync handled once changes nothing when it comes again after any other syncs. -/
theorem onConversationSync_ignored (sync : ConversationSync) (syncs : List ConversationSync)
    (c : Conversation P) :
    after (onConversationSync sync) ((after (onConversationSync sync) c).afterSyncs syncs) =
      (after (onConversationSync sync) c).afterSyncs syncs := by
  rw [onConversationSync_refused (not_takes_afterSyncs syncs (not_takes_of_handled sync c))]
  induction syncs using List.reverseRecOn with
  | nil => exact onConversationSync_answered sync c
  | append_singleton syncs last _ =>
    unfold afterSyncs
    rw [List.foldl_concat]
    exact onConversationSync_answered last _

/-- **One sync.** Handled twice in a row it leaves what it left the first time; over a list that
serves the epoch it disarms the takeover timer and nothing else; and a list it replaces makes way for
a later election, of an epoch that has begun. -/
theorem onConversationSync_guarded (sync : ConversationSync) (c : Conversation P) :
    after (onConversationSync sync) (after (onConversationSync sync) c) =
        after (onConversationSync sync) c ∧
      (∀ mine, c.stewardList.list = some mine → mine.isExhausted c.epoch = false →
        after (onConversationSync sync) c =
          { c with timing := { c.timing with syncResendAnchor := none } }) ∧
      ∀ mine, c.stewardList.list = some mine →
        (after (onConversationSync sync) c).stewardList.list ≠ some mine →
          ∃ l, (after (onConversationSync sync) c).stewardList.list = some l ∧
            mine.electionEpoch < l.electionEpoch ∧ l.electionEpoch ≤ c.epoch := by
  refine ⟨onConversationSync_ignored sync [] c, fun mine hmine hserves => ?_,
    fun mine hmine hreplaced => ?_⟩
  · refine onConversationSync_refused fun htakes => ?_
    cases hserves.symm.trans (htakes.newer.2 mine hmine).1
  · by_cases htakes : c.Takes sync
    · obtain ⟨hbegun, hnewer⟩ := htakes.newer
      refine ⟨_, congrArg (fun s => s.1.list) (onConversationSync_taken htakes), ?_, hbegun⟩
      exact (hnewer mine hmine).2
    · rw [onConversationSync_refused htakes] at hreplaced
      exact absurd hmine hreplaced

end Conversation

/-! ## A list that makes way -/

/-- Three members whose list of one steward ran out. -/
def outlived : Conversation Ideal.platform :=
  Ideal.conversationOf 2 5 [[10], [11], [12]] (Ideal.stewardsOf [0] 1) [] none

/-- The list of the first two members, elected at epoch 5. -/
def renewal : ConversationSync :=
  ⟨[memberIdOf 0, memberIdOf 1], 5, 1, 2, false, [], none, 0, 2, true, 0, 3, [], 100⟩

/-- The sync installs its list, and installs nothing when it comes again. -/
theorem renewal_replayed :
    after (Conversation.onConversationSync renewal)
        (after (Conversation.onConversationSync renewal) outlived) =
      after (Conversation.onConversationSync renewal) outlived ∧
    ∃ l, (after (Conversation.onConversationSync renewal) outlived).stewardList.list = some l ∧
      1 < l.electionEpoch ∧ l.electionEpoch ≤ 5 := by
  have hguarded := Conversation.onConversationSync_guarded renewal outlived
  exact ⟨hguarded.1, hguarded.2.2 ⟨[memberIdOf 0], ⟨1, 2, false⟩, 1, 0⟩ rfl (by decide +kernel)⟩

end DeMls
