import DeMls.Conversation.Walk

/-!
# Follow-ups

What a node does once an outcome is applied. Some follow-ups open a proposal of our own; the others
touch no proposal in flight, but for the buffered updates they drain. `Pursuit` passes on the steps
they take: anything that leaves the docket alone, an update that is dropped, a session that is
freed.
-/

namespace DeMls

open Program Relation

variable {P : Platform} {α : Type}

/-- The follow-up may open a proposal with its YES bundled. -/
def ConsensusApplyResult.opens : ConsensusApplyResult → Bool
  | .electionRejected | .urgentRemoval _ | .queuedRemoval _ => true
  | _ => false

namespace Conversation

/-- What is to be decided, and by whom: the sessions and their outcomes, the entries in voting, the
buffered updates, and the retries there are and those that are spent. -/
structure Docket (P : Platform) where
  consensus : P.consensus.State
  outcomes : List ConsensusEvent
  voting : OrderedMap ProposalId VotingMeta
  buffered : OrderedMap Bytes PendingUpdate
  ladder : Nat × Nat

def docket (c : Conversation P) : Docket P :=
  ⟨c.consensus, c.outcomes, c.queues.votingProposals, c.queues.pendingUpdates,
    c.stewardList.maxRetries, c.stewardList.nextElectionRound⟩

/-- Posting leaves the buffered updates and the list alone. -/
theorem posts_docket : Posts (P := P) fun c d =>
    (d.queues.pendingUpdates, d.stewardList) = (c.queues.pendingUpdates, c.stewardList) where
  queues c _ h := by rw [h]
  mls _ _ _ := rfl
  answered _ _ _ := rfl
  event _ _ _ := rfl
  outbound _ _ _ := rfl
  deadlines _ _ _ := rfl

/-- A program that posts and keeps the proposals in flight keeps the docket. -/
theorem docket_of_flight {x : ConvM P α} (hflight : Frame flight x)
    (hkept : Frame (fun c : Conversation P => (c.queues.pendingUpdates, c.stewardList)) x) :
    Frame docket x := by
  intro c
  have hsame : (after x c).inFlight = c.inFlight := congrArg Prod.fst (hflight c)
  obtain ⟨hbuffered, hlist⟩ := Prod.mk.inj (hkept c)
  unfold docket
  rw [show (after x c).consensus = c.consensus from congrArg InFlight.consensus hsame,
    show (after x c).outcomes = c.outcomes from congrArg InFlight.outcomes hsame,
    show (after x c).queues.votingProposals = c.queues.votingProposals from
      congrArg (fun f => f.tracked.1) hsame, hbuffered, hlist]

/-- The steps of a follow-up that opens nothing. -/
structure Pursuit (r : Conversation P → Conversation P → Prop) : Prop where
  still : ∀ {c d}, d.docket = c.docket → r c d
  unbuffered : ∀ c target, r c { c with queues := c.queues.removePendingUpdate target }
  freed : ∀ c id, r c (c.answered (P.consensus.removeSession c.consensus id).2 [])

namespace Pursuit

variable {r : Conversation P → Conversation P → Prop} (hr : Pursuit r)

include hr

theorem frame {x : ConvM P α} (h : Frame docket x) : Along r x :=
  along_frame (fun _ _ => hr.still) h

theorem modify {f : Conversation P → Conversation P} (h : ∀ c, (f c).docket = c.docket) :
    Along r (modify f : ConvM P PUnit) :=
  along_step fun c => hr.still (h c)

theorem emitEvent (event : ConversationEvent) : Along r (emitEvent event : ConvM P Unit) :=
  hr.modify fun _ => rfl

theorem emitPhaseChange (transition : Option ConversationState) :
    Along r (emitPhaseChange transition : ConvM P Unit) := by
  cases transition with
  | none => exact along_pure _
  | some state => exact hr.emitEvent _

theorem sendApp (message : AppMessage) : Along r (sendApp message : ConvM P Unit) :=
  hr.frame (frame_bind (frame_zoom fun _ _ => rfl) fun _ => frame_modify fun _ => rfl)

theorem startFreezing : Along r (startFreezing : ConvM P _) := by
  unfold Conversation.startFreezing
  refine along_bind along_get fun c => along_ite ?_ (along_pure _)
  exact along_bind (hr.modify fun _ => rfl) fun _ => along_pure _

theorem onFreezeEntered (event : ConversationState) :
    Along r (onFreezeEntered event : ConvM P Unit) :=
  hr.frame (docket_of_flight (flight_onFreezeEntered _)
    (posts_docket.posted.onFreezeEntered _).frame)

theorem shareConversationSync : Along r (shareConversationSync : ConvM P Unit) := by
  refine hr.frame (frame_bind ?_ fun o => ?_)
  · refine frame_bind (frame_zoom fun _ _ => rfl) fun _ => frame_bind (frame_get _) fun c => ?_
    split
    · exact frame_pure _ _
    · exact frame_bind (frame_zoom fun _ _ => rfl) fun _ => frame_pure _ _
  · cases o with
    | none => exact frame_pure _ _
    | some payload => exact frame_modify fun _ => rfl

theorem handleEmergencyScored (id : ProposalId) (ops : List ScoreOp) :
    Along r (handleEmergencyScored id ops : ConvM P Unit) := by
  have hscored : Along r (applyScoreOps ops : ConvM P Unit) := by
    refine hr.frame (frame_bind (frame_zoom fun _ _ => rfl) fun changes => ?_)
    exact docket_of_flight (flight_emitScoreChanges _)
      (posts_docket.posted.emitScoreChanges _).frame
  refine along_bind hscored fun _ => along_bind (hr.modify fun _ => rfl) fun _ => ?_
  refine along_bind along_get fun c => along_ite ?_ (along_pure _)
  refine along_bind ?_ fun _ => hr.emitPhaseChange _
  exact along_bind (hr.modify fun _ => rfl) fun _ => along_pure _

theorem removeSession (id : ProposalId) : Along r (onConsensus fun st =>
    ((P.consensus.removeSession st id).1, (P.consensus.removeSession st id).2, []) :
      ConvM P Unit) := by
  refine along_step fun c => ?_
  have hfreed := hr.freed c id
  rcases hcall : P.consensus.removeSession c.consensus id with ⟨o, st⟩
  rw [hcall] at hfreed
  cases o with
  | ok _ => rwa [after_of_ok (onConsensus_ok (by rw [hcall]))]
  | error e => rwa [after_of_error (onConsensus_error (by rw [hcall]))]

theorem replayEarlyCandidates : Along r (replayEarlyCandidates : ConvM P Unit) :=
  hr.modify fun c => by
    unfold docket
    rw [show (DeMls.replayEarlyCandidates P c.queues c.mls).votingProposals =
        c.queues.votingProposals from congrArg Prod.fst (tracked_replayEarlyCandidates c.queues c.mls),
      pendingUpdates_replayEarlyCandidates]

/-! ## The follow-ups -/

theorem handleElectionAccepted (hdrain : Along r (processBufferedUpdates : ConvM P Unit))
    (election : StewardElectionProposal) :
    Along r (handleElectionAccepted election : ConvM P Unit) := by
  have hresume : Along r (resumeFromReelection : ConvM P Unit) := by
    refine along_bind along_get fun c => along_ite ?_ (along_pure _)
    refine along_bind (hr.modify fun _ => rfl) fun _ => along_bind ?_ fun _ => hr.emitPhaseChange _
    exact along_bind (hr.modify fun _ => rfl) fun _ => along_pure _
  intro c
  unfold Conversation.handleElectionAccepted
  refine path_get_bind (path_ofResult_bind fun valid _ => path_ite (fun _ => .refl) fun _ => ?_)
  refine path_ofResult_bind fun l hl => path_modify_bind (hr.still ?_) ?_
  · unfold StewardListService.installList at hl
    split at hl
    · cases hl
    · cases hl
      rfl
  · refine along_bind (hr.modify fun _ => rfl) fun _ => along_bind hresume fun _ => ?_
    refine along_bind along_get fun c => along_bind ?_ fun shared => ?_
    · exact along_ite (along_attempt hr.shareConversationSync) (along_pure _)
    · exact along_bind hdrain fun _ => along_ofResult _

/-- **Follow-ups** that open nothing. -/
theorem followUp (hdrain : Along r (processBufferedUpdates : ConvM P Unit))
    {o : ConsensusApplyResult} (h : o.opens = false) : Along r (followUp o : ConvM P Unit) := by
  cases o with
  | noAction => exact along_pure _
  | electionAccepted election => exact hr.handleElectionAccepted hdrain election
  | recoveryModeOpened =>
    refine along_bind (hr.modify fun _ => rfl) fun _ => along_bind ?_ fun _ => hr.emitEvent _
    exact along_bind hr.startFreezing fun _ => hr.emitPhaseChange _
  | rejectedMembership target => exact along_step fun c => hr.unbuffered c target
  | electionRejected => cases h
  | urgentRemoval target => cases h
  | queuedRemoval target => cases h

/-- What is left of an outcome after its follow-up. -/
theorem afterFollowUp (id : ProposalId) (ops : List ScoreOp) : Along r (do
    if ops ≠ [] then Conversation.handleEmergencyScored id ops else pure ()
    onConsensus fun st =>
      ((P.consensus.removeSession st id).1, (P.consensus.removeSession st id).2, []) :
    ConvM P Unit) :=
  along_ite (along_bind (hr.handleEmergencyScored id ops) fun _ => hr.removeSession id)
    (hr.removeSession id)

end Pursuit

end Conversation

end DeMls
