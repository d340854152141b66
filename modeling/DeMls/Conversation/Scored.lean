import DeMls.Conversation.Sync
import DeMls.IdealWire
import DeMls.ScoreTable

/-!
# The scores of a conversation

The conversation runs its scoring service as a part of its state. Here its operations are the
service's (`addScored_eq`, `syncScoringMembers_eq`), and over a storage that does what its trait
says score operations and an adopted sync get the table they leave.
-/

namespace DeMls

open Program

namespace Conversation

variable {P : Platform} {α β : Type}

/-! ## Running the service -/

theorem onScoring_run {x : PeerScoringService.ScoringM P.scores α} {c : Conversation P} {a : α}
    {s : PeerScoringService P.scores} (h : x c.scoring = .ok a s) :
    (onScoring x : ConvM P α) c = .ok a { c with scoring := s } :=
  (zoom_ok _ _ _ _ _ _).mpr ⟨s, h, rfl⟩

theorem onScoring_bind (x : PeerScoringService.ScoringM P.scores α)
    (f : α → PeerScoringService.ScoringM P.scores β) :
    (onScoring (x >>= f) : ConvM P β) = onScoring x >>= fun a => onScoring (f a) := by
  funext c
  change zoom scoringPart id (EStateM.bind x f) c = EStateM.bind (zoom scoringPart id x) _ c
  unfold zoom EStateM.bind onScoring
  dsimp only
  cases x (scoringPart.get c) <;> rfl

theorem addScored_eq (ids : List Bytes) :
    (addScored ids : ConvM P Unit) = onScoring (PeerScoringService.addMembers ids) := by
  induction ids with
  | nil => rfl
  | cons id rest ih =>
    unfold addScored PeerScoringService.addMembers
    rw [ih, onScoring_bind]

theorem removeScored_eq (ids : List Bytes) :
    (removeScored ids : ConvM P Unit) = onScoring (PeerScoringService.removeMembers ids) := by
  induction ids with
  | nil => rfl
  | cons id rest ih =>
    unfold removeScored PeerScoringService.removeMembers
    rw [ih, onScoring_bind]

theorem syncScoringMembers_eq (mlsMembers : List Bytes) :
    (syncScoringMembers mlsMembers : ConvM P Unit) =
      onScoring (PeerScoringService.syncMembers mlsMembers) := by
  unfold syncScoringMembers PeerScoringService.syncMembers
  simp only [onScoring_bind, addScored_eq, removeScored_eq]

/-! ## The table of a conversation -/

/-- The score table. -/
def scoreTable (c : Conversation P) : Bytes → Option Int := c.scoring.table

/-- What is kept of leaves beside their scores: join epochs and seats, and the delta that is about to
change them. -/
def records (c : Conversation P) :
    OrderedMap Bytes Nat × Option MembershipDelta × MlsGroup Unit :=
  (c.queues.memberJoinEpoch, c.queues.pendingMembershipDelta, c.mls.publicPart)

/-- The records, with the scores. -/
def tenure (c : Conversation P) : PeerScoringService P.scores × OrderedMap Bytes Nat ×
    Option MembershipDelta × MlsGroup Unit :=
  (c.scoring, c.records)

theorem tenure_emitScoreChanges (changes : List ScoreChange) :
    Frame tenure (emitScoreChanges changes : ConvM P Unit) := by
  induction changes with
  | nil => exact frame_pure _ _
  | cons change rest ih => exact frame_bind (frame_modify fun _ => rfl) fun _ => ih

section
variable (hS : P.scores.Lawful)
include hS

/-- **Score operations** fold into the table. -/
theorem applyScoreOps_run (ops : List ScoreOp) (c : Conversation P) :
    ∃ d, (applyScoreOps ops : ConvM P Unit) c = .ok () d ∧
      d.scoreTable = PeerScoringService.tableAfter c.scoring.scoreDelta ops c.scoreTable ∧
      d.scoring.parameters = c.scoring.parameters ∧ d.records = c.records := by
  obtain ⟨changes, s, hrun, htable, hparameters⟩ := PeerScoringService.applyOps_run hS ops c.scoring
  obtain ⟨⟨⟩, hemit⟩ := emitScoreChanges_succeeds changes { c with scoring := s }
  have hkept := (tenure_emitScoreChanges changes).ok hemit
  obtain ⟨hscoring, hrecords⟩ := Prod.mk.inj hkept
  refine ⟨_, (bind_run _ (onScoring_run hrun)).trans hemit, ?_, ?_, hrecords⟩
  · unfold scoreTable
    rw [hscoring]
    exact htable
  · rw [hscoring]
    exact hparameters

/-- **Adopting the scores of a sync** moves who is at the old default to the new one, and lays the
scores of the sync over that. -/
theorem adoptScores_run (sync : ConversationSync) (c : Conversation P) :
    ∃ d, (adoptScores sync : ConvM P Unit) c = .ok () d ∧
      d.scoreTable = PeerScoringService.written
        (sync.peerScores.map fun ps => (ps.memberId, ps.score))
        (PeerScoringService.rebased c.scoring.config.defaultScore (syncedDefaultPeerScore sync)
          c.scoreTable) := by
  let s₁ : PeerScoringService P.scores :=
    { c.scoring with config := { c.scoring.config with threshold := sync.thresholdPeerScore } }
  obtain ⟨s₂, hdefault, htable₂, _⟩ :=
    PeerScoringService.setDefaultScore_run hS (syncedDefaultPeerScore sync) s₁
  obtain ⟨changes, s₃, hsnapshot, htable₃, _⟩ := PeerScoringService.applySnapshotLoop_run hS
    s₂.config.defaultScore (sync.peerScores.map fun ps => (ps.memberId, ps.score)) [] s₂
  obtain ⟨⟨⟩, hemit⟩ := emitScoreChanges_succeeds changes { c with scoring := s₃ }
  obtain ⟨hscoring, _⟩ := Prod.mk.inj ((tenure_emitScoreChanges changes).ok hemit)
  have happly : PeerScoringService.applySnapshot
      ⟨sync.peerScores.map fun ps => (ps.memberId, ps.score)⟩ s₂ = .ok changes s₃ := hsnapshot
  refine ⟨after (emitScoreChanges changes) { c with scoring := s₃ }, ?_, ?_⟩
  · unfold adoptScores applyScoreSnapshot
    rw [bind_run _ (onScoring_run (c := c) (show PeerScoringService.setThreshold
        sync.thresholdPeerScore c.scoring = .ok ⟨⟩ s₁ from rfl)),
      bind_run _ (onScoring_run (c := { c with scoring := s₁ }) hdefault)]
    exact (bind_run _ (onScoring_run (c := { c with scoring := s₂ }) happly)).trans hemit
  · show PeerScoringService.table _ = _
    rw [hscoring]
    show s₃.table = _
    rw [htable₃, htable₂]
    rfl

end

end Conversation

/-! ## A conversation with scores -/

namespace Ideal

/-- The plain platform with full messages, over the in-memory score table. -/
def scored : Platform := { wired with scores := inMemoryPeerScoreStorage }

/-- Three members, the second at `mark`. -/
def marked (mark : Int) : OrderedMap Bytes Int :=
  ((OrderedMap.empty.insert (memberIdOf 0) 100).insert (memberIdOf 1) mark).insert (memberIdOf 2) 100

/-- The first of them, ready to replace the second by `[13]`. -/
def replacing (mark : Int) : Conversation scored :=
  let c := readyToSelect (conversationOf 0 1 [[10], [11], [12]] (stewardsOf [0, 2] 1)
    [.memberInvite [13], .removeMember (memberIdOf 1)] none)
  { c with scoring := ⟨marked mark, ScoreEvent.defaultDelta, ⟨100, 0⟩⟩ }

end Ideal

end DeMls
