import DeMls.CommitRound.Ratchet
import DeMls.Conversation.Judged
import DeMls.Conversation.Stages
import DeMls.Reliable

/-!
# Twins

Two conversations are twins when they differ in what no program reads, and the first has a score
storage that does not fail: their scores, what they put on the wire, the events that are not the
protocol's, and our own sender ratchet. A program that calls no storage runs alike on twins
(`moded_twins`).
-/

namespace DeMls

open Program

variable {P : Platform} {α : Type}

/-- A phase, a commit or a change of the members is reported. -/
def ConversationEvent.isProtocol : ConversationEvent → Bool
  | .phaseChange _ => true
  | .commitApplied _ => true
  | .membersChanged _ _ => true
  | _ => false

namespace Conversation

/-- What the integrator is told of the protocol. -/
def protocolEvents (c : Conversation P) : List ConversationEvent :=
  c.pendingEvents.filter (·.isProtocol)

variable (K : SenderRatchet P.mls) (I : P.scores.Store → Prop)

/-- The two differ in their scores, their traffic, the events that are not the protocol's and the
sender ratchet only. -/
def Alike (c d : Conversation P) : Prop :=
  ∃ v : Veil P, c = d.veiled v ∧ K.rest v.secrets = K.rest d.mls.group.secrets ∧
    c.protocolEvents = d.protocolEvents

/-- And the storage of the first does not fail. -/
structure Twins (c d : Conversation P) : Prop where
  alike : Alike K c d
  reliable : I c.scoring.storage

variable {K I}

theorem Alike.refl (c : Conversation P) : Alike K c c :=
  ⟨⟨c.mls.group.secrets, c.scoring, c.pendingEvents, c.pendingOutbound⟩, rfl, rfl, rfl⟩

theorem Alike.trans {a b c : Conversation P} (hab : Alike K a b) (hbc : Alike K b c) :
    Alike K a c := by
  obtain ⟨v, rfl, hv, hevents⟩ := hab
  obtain ⟨w, rfl, hw, hevents'⟩ := hbc
  exact ⟨v, rfl, hv.trans hw, hevents.trans hevents'⟩

theorem Alike.symm {a b : Conversation P} (h : Alike K a b) : Alike K b a := by
  obtain ⟨v, rfl, hv, hevents⟩ := h
  exact ⟨⟨b.mls.group.secrets, b.scoring, b.pendingEvents, b.pendingOutbound⟩, rfl, hv.symm,
    hevents.symm⟩

theorem Twins.hides {c d : Conversation P} (h : Twins K I c d) : Hides c d := by
  obtain ⟨v, hv, -⟩ := h.alike
  exact ⟨v, hv⟩

/-! ## Programs that call no storage -/

theorem compositional_twins : Compositional Hides
    (Twin (Twins K I) : Judgement ConversationError (Conversation P)) :=
  (compositional_twin _).mono fun _ _ => Twins.hides

/-- A write that neither reads nor touches what twins differ in. -/
theorem twins_write {f : Conversation P → Conversation P}
    (h : ∀ d v, f (d.veiled v) = (f d).veiled v) (hmls : ∀ d, (f d).mls = d.mls)
    (hevents : ∀ d, (f d).pendingEvents = d.pendingEvents) :
    Holds (Twin (Twins K I)) (modify f : ConvM P PUnit) := by
  rintro d _ ⟨⟨v, rfl, hrest, hprotocol⟩, hreliable⟩
  refine .ok ⟨⟨v, h d v, ?_, ?_⟩, ?_⟩
  · rw [hmls d]
    exact hrest
  · unfold protocolEvents
    rw [h d v, hevents d]
    exact hprotocol
  · rw [h d v]
    exact hreliable

theorem twins_emitEvent (event : ConversationEvent) :
    Holds (Twin (Twins K I)) (emitEvent event : ConvM P Unit) := by
  rintro d _ ⟨⟨v, rfl, hrest, hprotocol⟩, hreliable⟩
  refine .ok ⟨⟨⟨v.secrets, v.scoring, v.events ++ [event], v.outbound⟩, rfl, hrest, ?_⟩, hreliable⟩
  unfold protocolEvents at hprotocol ⊢
  rw [List.filter_append, List.filter_append]
  exact congrArg (· ++ _) hprotocol

/-- What is put on the wire is not compared. -/
theorem twins_broadcasts {c d : Conversation P} (h : Twins K I c d) (payload payload' : Bytes) :
    Agree (Twins K I) ((broadcast payload : ConvM P Unit) c)
      ((broadcast payload' : ConvM P Unit) d) := by
  obtain ⟨⟨v, rfl, hrest, hprotocol⟩, hreliable⟩ := h
  exact .ok ⟨⟨⟨v.secrets, v.scoring, v.events, v.outbound ++ _⟩, rfl, hrest, hprotocol⟩, hreliable⟩

theorem twins_onConsensus
    (f : P.consensus.State → Except ConsensusError α × P.consensus.State × List ConsensusEvent) :
    Holds (Twin (Twins K I)) (onConsensus f : ConvM P α) := by
  rintro d _ ⟨⟨v, rfl, hrest, hprotocol⟩, hreliable⟩
  have hanswered : ∀ st outs,
      Twins K I ((d.veiled v).answered st outs) (d.answered st outs) := fun _ _ =>
    ⟨⟨v, rfl, hrest, hprotocol⟩, hreliable⟩
  rcases hf : f d.consensus with ⟨_ | a, st, outs⟩
  · rw [onConsensus_error hf, onConsensus_error (c := d.veiled v) hf]
    exact .error (hanswered st outs)
  · rw [onConsensus_ok hf, onConsensus_ok (c := d.veiled v) hf]
    exact .ok (hanswered st outs)

/-! ## The group -/

/-- Services that differ in the ratchet only, put in place of the twins' own. -/
theorem Twins.withMls {c d : Conversation P} (h : Twins K I c d) {m n : MlsService P.mls}
    (hmls : K.Alike m n) : Twins K I { c with mls := m } { d with mls := n } := by
  obtain ⟨⟨v, rfl, -, hprotocol⟩, hreliable⟩ := h
  obtain ⟨secrets, rfl, hrest⟩ := hmls
  exact ⟨⟨⟨secrets, v.scoring, v.events, v.outbound⟩, rfl, hrest, hprotocol⟩, hreliable⟩

theorem Twins.mls {c d : Conversation P} (h : Twins K I c d) : K.Alike c.mls d.mls := by
  obtain ⟨⟨v, rfl, hrest, -⟩, -⟩ := h
  exact ⟨v.secrets, rfl, hrest⟩

theorem twins_onMls {x : EStateM MlsError (MlsService P.mls) α} (hx : Holds K.Same x) :
    Holds (Twin (Twins K I)) (onMls x : ConvM P α) := fun d =>
  twin_zoom (fun _ hc => hc.mls) (fun _ _ _ hc h => hc.withMls h) (hx d.mls)

/-- A message of our own is sent by both or refused to both. -/
theorem twins_sendBytes {c d : Conversation P} (h : Twins K I c d) (message message' : Bytes) :
    Agree (Twins K I)
      ((onMls (MlsService.buildMessage message) >>= fun payload => broadcast payload :
        ConvM P Unit) c)
      ((onMls (MlsService.buildMessage message') >>= fun payload => broadcast payload :
        ConvM P Unit) d) := by
  have hsent : ∀ {e : Conversation P} {message bytes m}, MlsService.buildMessage message e.mls =
      .ok bytes m → (onMls (MlsService.buildMessage message) >>= fun payload => broadcast payload :
        ConvM P Unit) e = broadcast bytes { e with mls := m } := fun hm =>
    bind_run _ ((zoom_ok mlsPart _ _ _ _ _).mpr ⟨_, hm, rfl⟩)
  have hrefused : ∀ {e : Conversation P} {message x m}, MlsService.buildMessage message e.mls =
      .error x m → (onMls (MlsService.buildMessage message) >>= fun payload => broadcast payload :
        ConvM P Unit) e = .error (.mls x) { e with mls := m } := fun hm =>
    (bind_error _ _ _ _ _).mpr (.inl ((zoom_error mlsPart _ _ _ _ _).mpr ⟨_, _, hm, rfl, rfl⟩))
  rcases K.buildMessage_alike h.mls message message' with
    ⟨bytes, bytes', m, n, hm, hn, hmls⟩ | ⟨e, m, n, hm, hn, hmls⟩
  · rw [hsent hm, hsent hn]
    exact twins_broadcasts (h.withMls hmls) bytes bytes'
  · rw [hrefused hm, hrefused hn]
    exact .error (h.withMls hmls)

theorem twins_sendApp (message : AppMessage) :
    Holds (Twin (Twins K I)) (sendApp message : ConvM P Unit) :=
  fun _ _ h => twins_sendBytes h _ _

theorem twins_startWorking : Holds (Twin (Twins K I)) (startWorking : ConvM P _) :=
  compositional_twins.seq (twins_write (fun _ _ => rfl) (fun _ => rfl) fun _ => rfl) fun _ =>
    compositional_twins.done _

/-- **Twins.** A program that calls no storage runs alike on twins. -/
theorem moded_twins : Moded (P := P) (Twin (Twins K I)) where
  toCompositional := compositional_twins
  queues h _ := by
    refine twins_write (fun d v => ?_) (fun _ => rfl) fun _ => rfl
    rw [h d v]
    rfl
  consensus := twins_onConsensus
  emitEvent {event} _ := twins_emitEvent event
  broadcast {payload} _ _ _ h := twins_broadcasts h payload payload
  sendApp message c _ := twins_sendApp message c
  autoVote _ _ _ := twins_write (fun _ _ => rfl) (fun _ => rfl) fun _ => rfl
  consensusTimeout _ _ := twins_write (fun _ _ => rfl) (fun _ => rfl) fun _ => rfl
  mint updates := twins_onMls (K.createCommitCandidate updates)
  decrypt payload := twins_onMls (K.decryptApplicationOnly payload)
  timers h _ := by
    refine twins_write (fun d v => ?_) (fun _ => rfl) fun _ => rfl
    rw [h d v]
    rfl
  list {g c} h _ := by
    refine twins_write (f := fun c => { c with stewardList := g c }) (fun d v => ?_) (fun _ => rfl)
      (fun _ => rfl) c
    rw [h d v]
    rfl
  delete := twins_onMls K.deleted
  enterRecoveryMode := twins_write (fun _ _ => rfl) (fun _ => rfl) fun _ => rfl
  exitRecoveryMode := twins_write (fun _ _ => rfl) (fun _ => rfl) fun _ => rfl
  arm c _ _ := twins_write (f := fun d => { d with
    timing := { d.timing with phaseTimer := some c.now } })
    (fun _ _ => rfl) (fun _ => rfl) (fun _ => rfl) c
  startWorking c _ := twins_startWorking c
  startFreezing := by
    intro c
    refine compositional_twins.read ?_ (Compositional.branch (fun _ => ?_) fun _ =>
      compositional_twins.done _ c)
    · rintro _ ⟨v, rfl⟩
      rfl
    · refine compositional_twins.seq (?_ : Holds _ _) (fun _ => compositional_twins.done _) c
      exact twins_write (fun _ _ => rfl) (fun _ => rfl) fun _ => rfl

/-! ## A commit round -/

theorem buffers_twins : Buffers (P := P) (Twin (Twins K I)) := fun _ c =>
  twins_write (f := fun d => { d with
    queues := d.queues.insertPendingUpdate P.mls _ c.epoch })
    (fun _ _ => rfl) (fun _ => rfl) (fun _ => rfl) c

theorem twins_startReelection : Holds (Twin (Twins K I)) (startReelection : ConvM P _) :=
  compositional_twins.seq (twins_write (fun _ _ => rfl) (fun _ => rfl) fun _ => rfl) fun _ =>
    compositional_twins.done _

theorem twins_retryOrExhaustRecovery :
    Holds (Twin (Twins K I)) (retryOrExhaustRecovery : ConvM P _) := by
  have hq := moded_twins (K := K) (I := I)
  have hreopen : Holds (Twin (Twins K I)) (reopenRecoveryWindow : ConvM P _) := by
    refine hq.reads (fun _ _ => rfl) fun c => Holds.ite (hq.seq ?_ fun _ => hq.done _) (hq.done _)
    exact twins_write (fun _ _ => rfl) (fun _ => rfl) fun _ => rfl
  unfold retryOrExhaustRecovery
  refine hq.seq (twins_write (fun _ _ => rfl) (fun _ => rfl) fun _ => rfl) fun _ => ?_
  refine hq.reads (fun _ _ => rfl) fun c => Holds.ite ?_ ?_
  · refine hq.seq hq.exitRecoveryMode fun _ => hq.seq twins_startWorking fun _ => ?_
    exact hq.seq (twins_emitEvent _) fun _ => hq.seq (twins_emitEvent _) fun _ => hq.done _
  · exact hq.seq hreopen fun _ => hq.seq (hq.emitPhaseChange _) fun _ => hq.done _

theorem twins_recoverFromFinalizeError :
    Holds (Twin (Twins K I)) (recoverFromFinalizeError : ConvM P _) := by
  have hq := moded_twins (K := K) (I := I)
  refine hq.reads (fun _ _ => rfl) fun c => Holds.ite twins_retryOrExhaustRecovery ?_
  exact hq.seq twins_startWorking fun _ =>
    hq.seq (hq.emitEvent ConversationEvent.noConfusion) fun _ => hq.done _

theorem twins_finishRecoveryRound (hasProposals : Bool) :
    Holds (Twin (Twins K I)) (finishRecoveryRound hasProposals : ConvM P _) := by
  have hq := moded_twins (K := K) (I := I)
  refine Holds.ite (hq.seq (hq.modifyQueues fun _ => rfl) fun _ => ?_) twins_retryOrExhaustRecovery
  refine hq.seq hq.exitRecoveryMode fun _ => hq.seq twins_startWorking fun _ => ?_
  exact hq.seq (hq.emitEvent ConversationEvent.noConfusion) fun _ => hq.done _

theorem Twins.roundState {c d : Conversation P} (h : Twins K I c d) :
    K.RoundAlike c.roundState d.roundState := by
  obtain ⟨⟨v, rfl, hrest, -⟩, -⟩ := h
  exact ⟨v.secrets, rfl, hrest⟩

theorem Twins.withRound {c d : Conversation P} (h : Twins K I c d) {s t : RoundState P}
    (hround : K.RoundAlike s t) : Twins K I (roundPart.set s c) (roundPart.set t d) := by
  obtain ⟨⟨v, rfl, -, hprotocol⟩, hreliable⟩ := h
  obtain ⟨secrets, rfl, hrest⟩ := hround
  exact ⟨⟨⟨secrets, v.scoring, v.events, v.outbound⟩, rfl, hrest, hprotocol⟩, hreliable⟩

end Conversation

end DeMls
