import DeMls.Lib.Judgements
import DeMls.Mls.Service

/-!
# The sender ratchet

Encrypting an application message moves our own sender ratchet, and no other operation reads it:
`SenderRatchet` states this of OpenMLS. Two services that differ there (`Alike`) then answer every
operation of a commit and of an inbound message alike, and encrypt or refuse any two messages.
-/

namespace DeMls

open Program

variable {O : OpenMls} {α β : Type}

/-- What OpenMLS documents of our own sender ratchet. -/
structure SenderRatchet (O : OpenMls) where
  Rest : Type
  /-- The secrets but the sender ratchet. -/
  rest : O.Secrets → Rest
  /-- The ratchet decides neither the result nor the rest of what is left. -/
  proposeAddMember : ∀ (g : MlsGroup O.Secrets) s kp, rest s = rest g.secrets →
    (O.proposeAddMember { g with secrets := s } kp).map id rest =
      (O.proposeAddMember g kp).map id rest
  proposeRemoveMember : ∀ (g : MlsGroup O.Secrets) s i, rest s = rest g.secrets →
    (O.proposeRemoveMember { g with secrets := s } i).map id rest =
      (O.proposeRemoveMember g i).map id rest
  commitToPendingProposals : ∀ (g : MlsGroup O.Secrets) s, rest s = rest g.secrets →
    (O.commitToPendingProposals { g with secrets := s }).map id rest =
      (O.commitToPendingProposals g).map id rest
  mergePendingCommit : ∀ (g : MlsGroup O.Secrets) s, rest s = rest g.secrets →
    (O.mergePendingCommit { g with secrets := s }).map id rest =
      (O.mergePendingCommit g).map id rest
  mergeStagedCommit : ∀ (g : MlsGroup O.Secrets) s staged, rest s = rest g.secrets →
    (O.mergeStagedCommit { g with secrets := s } staged).map id rest =
      (O.mergeStagedCommit g staged).map id rest
  processMessage : ∀ (g : MlsGroup O.Secrets) s message, rest s = rest g.secrets →
    (O.processMessage { g with secrets := s } message).map id rest =
      (O.processMessage g message).map id rest
  storePendingProposal : ∀ s t proposal, rest s = rest t →
    (O.storePendingProposal s proposal).map id rest =
      (O.storePendingProposal t proposal).map id rest
  clearPendingCommit : ∀ s t, rest s = rest t →
    (O.clearPendingCommit s).map id rest = (O.clearPendingCommit t).map id rest
  clearPendingProposals : ∀ s t, rest s = rest t →
    (O.clearPendingProposals s).map id rest = (O.clearPendingProposals t).map id rest
  delete : ∀ s t, rest s = rest t → (O.delete s).map id rest = (O.delete t).map id rest
  pendingCommit : ∀ s t, rest s = rest t → O.pendingCommit s = O.pendingCommit t
  /-- A message moves the ratchet alone. -/
  sent : ∀ g message, rest (O.createMessage g message).2 = rest g.secrets
  /-- Whether a message is encrypted, and why not, depends on neither the message nor the ratchet. -/
  encrypts : ∀ (g : MlsGroup O.Secrets) s message message', rest s = rest g.secrets →
    (O.createMessage { g with secrets := s } message).1.map (fun _ => ()) =
      (O.createMessage g message').1.map fun _ => ()
  serializes : ∀ g message out, (O.createMessage g message).1 = .ok out →
    ∃ bytes, O.toBytes out = .ok bytes

namespace SenderRatchet

variable (K : SenderRatchet O)

/-- The services differ in the sender ratchet only. -/
def Alike (m n : MlsService O) : Prop :=
  ∃ secrets, m = n.setSecrets secrets ∧ K.rest secrets = K.rest n.group.secrets

theorem Alike.refl (m : MlsService O) : K.Alike m m := ⟨m.group.secrets, rfl, rfl⟩

/-- Runs on services that differ in the ratchet only. -/
abbrev Same : Judgement MlsError (MlsService O) := Twin K.Alike

theorem compositional_same : Compositional K.Alike K.Same := compositional_twin K.Alike

/-- An operation that does not read the ratchet. -/
theorem onSecrets {err : String → MlsError}
    {f : MlsGroup O.Secrets → Except String α × O.Secrets}
    (hf : ∀ (g : MlsGroup O.Secrets) s, K.rest s = K.rest g.secrets →
      (f { g with secrets := s }).map id K.rest = (f g).map id K.rest) :
    Holds K.Same (MlsService.onSecrets err f) := by
  rintro n _ ⟨s, rfl, hs⟩
  have h := hf n.group s hs
  obtain ⟨hresult, hrest⟩ := Prod.ext_iff.mp h
  change (f { n.group with secrets := s }).1 = (f n.group).1 at hresult
  have halike : K.Alike (n.setSecrets (f { n.group with secrets := s }).2)
      (n.setSecrets (f n.group).2) := ⟨_, rfl, hrest⟩
  unfold MlsService.onSecrets
  rw [show (n.setSecrets s).group = { n.group with secrets := s } from rfl]
  rcases hu : f { n.group with secrets := s } with ⟨_ | a, u⟩ <;>
    rcases hv : f n.group with ⟨_ | b, v⟩ <;> rw [hu, hv] at hresult halike
  · cases hresult
    exact .error halike
  · cases hresult
  · cases hresult
  · cases hresult
    exact .ok halike

/-- What a service shows of its group. -/
theorem reads {f : MlsService O → MlsService.MlsM O α}
    (h : ∀ n s, K.rest s = K.rest n.group.secrets → f (n.setSecrets s) = f n)
    (hf : ∀ n, Holds K.Same (f n)) : Holds K.Same (get >>= f) := by
  intro n
  refine K.compositional_same.read ?_ (hf n n)
  rintro _ ⟨s, rfl, hs⟩
  exact h n s hs

theorem writes {f : MlsService O → MlsService O}
    (h : ∀ n s, f (n.setSecrets s) = (f n).setSecrets s)
    (hkept : ∀ n, (f n).group.secrets = n.group.secrets) :
    Holds K.Same (modify f : MlsService.MlsM O PUnit) := by
  rintro n _ ⟨s, rfl, hs⟩
  refine .ok ⟨s, h n s, ?_⟩
  rw [hkept n]
  exact hs

/-! ## The operations of the service -/

theorem createProposals (updates : List MlsCommitInput) :
    Holds K.Same (MlsService.createProposals (O := O) updates) := by
  have hq := K.compositional_same
  induction updates with
  | nil => exact hq.done _
  | cons update rest ih =>
    cases update with
    | add keyPackageBytes =>
      unfold MlsService.createProposals
      refine hq.seq (hq.result _) fun kp => ?_
      refine hq.seq (K.onSecrets fun g s h => K.proposeAddMember g s kp h) fun out => ?_
      exact hq.seq (hq.result _) fun bytes => hq.seq ih fun others => hq.done _
    | remove memberId =>
      unfold MlsService.createProposals
      refine K.reads (fun _ _ _ => rfl) fun m => ?_
      split
      · exact ih
      · rename_i index _
        refine Holds.ite ?_ ih
        refine hq.seq (K.onSecrets fun g s h => K.proposeRemoveMember g s index h) fun out => ?_
        exact hq.seq (hq.result _) fun bytes => hq.seq ih fun others => hq.done _

theorem createCommitCandidate (updates : List MlsCommitInput) :
    Holds K.Same (MlsService.createCommitCandidate (O := O) updates) := by
  have hq := K.compositional_same
  unfold MlsService.createCommitCandidate
  refine hq.seq (K.createProposals updates) fun proposals => ?_
  refine hq.seq (K.onSecrets K.commitToPendingProposals) fun ⟨commitMsg, welcome⟩ => ?_
  cases welcome with
  | some w => exact hq.seq (hq.result _) fun _ => hq.seq (hq.result _) fun _ => hq.done _
  | none => exact hq.seq (hq.result _) fun _ => hq.done _

theorem advanceEpoch (members : List Member) :
    Holds K.Same (MlsService.advanceEpoch (O := O) members) :=
  K.writes (fun _ _ => rfl) fun _ => rfl

theorem mergeOwnCommit : Holds K.Same (MlsService.mergeOwnCommit (O := O)) := by
  have hq := K.compositional_same
  unfold MlsService.mergeOwnCommit
  refine K.reads (fun n s h => ?_) fun m => ?_
  · dsimp only [MlsService.setSecrets]
    rw [K.pendingCommit s n.group.secrets h]
    rfl
  · refine hq.seq (K.onSecrets K.mergePendingCommit) fun merged => ?_
    cases merged with
    | some members =>
      exact hq.seq (K.advanceEpoch members) fun _ => K.reads (fun _ _ _ => rfl) fun _ => hq.done _
    | none => exact K.reads (fun _ _ _ => rfl) fun _ => hq.done _

theorem discardOwnCommit : Holds K.Same (MlsService.discardOwnCommit (O := O)) := by
  have hq := K.compositional_same
  exact hq.seq (K.onSecrets fun g s h => K.clearPendingCommit s g.secrets h) fun _ =>
    K.onSecrets fun g s h => K.clearPendingProposals s g.secrets h

theorem stageProposals (proposals : List Bytes) :
    Holds K.Same (MlsService.stageProposals (O := O) proposals) := by
  have hq := K.compositional_same
  induction proposals with
  | nil => exact hq.done _
  | cons bytes rest ih =>
    unfold MlsService.stageProposals
    refine hq.seq (hq.result _) fun protocol => ?_
    refine hq.seq (K.onSecrets fun g s h => K.processMessage g s protocol h) fun processed => ?_
    split
    · rename_i proposal _ _
      refine hq.seq (K.onSecrets fun g s h => K.storePendingProposal s g.secrets proposal h)
        fun _ => hq.seq ih fun o => ?_
      cases o with
      | some senders => exact hq.done _
      | none => exact hq.done _
    · exact hq.done _

theorem stageCommit (senders : List Bytes) (commitBytes : Bytes) :
    Holds K.Same (MlsService.stageCommit (O := O) senders commitBytes) := by
  have hq := K.compositional_same
  unfold MlsService.stageCommit
  refine hq.seq (hq.result _) fun protocol => K.reads (fun _ _ _ => rfl) fun m => ?_
  refine Holds.ite (hq.done _) (Holds.ite (hq.done _) ?_)
  refine hq.seq (K.onSecrets fun g s h => K.processMessage g s protocol h) fun processed => ?_
  split
  · refine Holds.ite (hq.done _) (hq.seq ?_ fun _ => hq.done _)
    exact K.writes (fun _ _ => rfl) fun _ => rfl
  · exact hq.done _

theorem stageRemoteCommit (proposals : List Bytes) (commitBytes : Bytes) :
    Holds K.Same (MlsService.stageRemoteCommit (O := O) proposals commitBytes) := by
  have hq := K.compositional_same
  unfold MlsService.stageRemoteCommit
  refine hq.seq (K.stageProposals proposals) fun o => ?_
  cases o with
  | none => exact hq.done _
  | some senders => exact K.stageCommit senders commitBytes

theorem takeStaged : Holds K.Same (modify fun m => { m with pendingStagedCommit := none } :
    MlsService.MlsM O PUnit) :=
  K.writes (fun _ _ => rfl) fun _ => rfl

theorem mergesStagedCommit : Holds K.Same (MlsService.mergeStagedCommit (O := O)) := by
  have hq := K.compositional_same
  rintro n _ ⟨s, rfl, hs⟩
  cases h : n.pendingStagedCommit with
  | none =>
    have hempty : ∀ m : MlsService O, m.pendingStagedCommit = none → MlsService.mergeStagedCommit m =
        .error (.noPendingStagedCommit m.conversationId) m := by
      intro m hm
      unfold MlsService.mergeStagedCommit
      rw [bind_run _ (get_apply m), hm]
      rfl
    rw [hempty _ h, hempty (n.setSecrets s) h]
    exact .error ⟨s, rfl, hs⟩
  | some staged =>
    -- The slot is emptied by a write that is computed from what was read.
    have hmerge : ∀ m : MlsService O, m.pendingStagedCommit = some staged →
        MlsService.mergeStagedCommit m = (do
          modify fun m => { m with pendingStagedCommit := none }
          let members ← MlsService.onSecrets .mergeCommit fun g => O.mergeStagedCommit g staged
          MlsService.advanceEpoch members
          let m' ← get
          pure (MlsService.delta m'.group m.group.populatedLeaves
            (MlsService.removedMembersOf m.group staged)) : MlsService.MlsM O MembershipDelta) m := by
      intro m hm
      unfold MlsService.mergeStagedCommit
      rw [bind_run _ (get_apply m), hm]
      rfl
    rw [hmerge _ h, hmerge (n.setSecrets s) h]
    refine (hq.seq K.takeStaged fun _ => ?_) n _ ⟨s, rfl, hs⟩
    refine hq.seq (K.onSecrets fun g s h => K.mergeStagedCommit g s staged h) fun members => ?_
    exact hq.seq (K.advanceEpoch members) fun _ => K.reads (fun _ _ _ => rfl) fun _ => hq.done _

theorem discardStagedCommit : Holds K.Same (MlsService.discardStagedCommit (O := O)) :=
  K.compositional_same.seq K.takeStaged fun _ =>
    K.onSecrets fun g s h => K.clearPendingProposals s g.secrets h

theorem deleted : Holds K.Same (MlsService.delete (O := O)) :=
  K.onSecrets fun g s h => K.delete s g.secrets h

theorem decryptApplicationOnly (ciphertext : Bytes) :
    Holds K.Same (MlsService.decryptApplicationOnly (O := O) ciphertext) := by
  have hq := K.compositional_same
  unfold MlsService.decryptApplicationOnly
  refine hq.seq (hq.result _) fun protocol => K.reads (fun _ _ _ => rfl) fun m => ?_
  refine Holds.ite (hq.done _) (Holds.ite (hq.done _) (Holds.ite (hq.done _) ?_))
  refine hq.seq (K.onSecrets fun g s h => K.processMessage g s protocol h) fun processed => ?_
  split
  · exact hq.done _
  · split
    · exact hq.raise _
    · split
      · exact hq.done _
      · exact hq.done _

/-! ## Sent messages -/

include K in
/-- What encrypting a message comes to. -/
theorem buildMessage_run (m : MlsService O) (message : Bytes) :
    (∃ out bytes, (O.createMessage m.group message).1 = .ok out ∧
      MlsService.buildMessage message m =
        .ok bytes (m.setSecrets (O.createMessage m.group message).2)) ∨
    ∃ e, (O.createMessage m.group message).1 = .error e ∧ MlsService.buildMessage message m =
      .error (.createMessage e) (m.setSecrets (O.createMessage m.group message).2) := by
  have hserial := K.serializes m.group message
  unfold MlsService.buildMessage
  rcases hrun : O.createMessage m.group message with ⟨e | out, s⟩
  · have hstep : MlsService.onSecrets .createMessage (fun g => O.createMessage g message) m =
        .error (.createMessage e) (m.setSecrets s) := by
      unfold MlsService.onSecrets
      dsimp only
      rw [hrun]
    exact .inr ⟨e, rfl, (bind_error _ _ _ _ _).mpr (.inl hstep)⟩
  · have hstep : MlsService.onSecrets .createMessage (fun g => O.createMessage g message) m =
        .ok out (m.setSecrets s) := by
      unfold MlsService.onSecrets
      dsimp only
      rw [hrun]
    rw [hrun] at hserial
    obtain ⟨bytes, hbytes⟩ := hserial out rfl
    refine .inl ⟨out, bytes, rfl, (bind_run _ hstep).trans ?_⟩
    unfold MlsService.lift
    exact ofResult_of_ok hbytes _ _

/-- Encrypting moves the ratchet only. -/
theorem alike_buildMessage (m : MlsService O) (message : Bytes) :
    K.Alike (after (MlsService.buildMessage message) m) m := by
  have hafter : after (MlsService.buildMessage message) m =
      m.setSecrets (O.createMessage m.group message).2 := by
    rcases K.buildMessage_run m message with ⟨_, _, -, h⟩ | ⟨_, -, h⟩
    · exact after_of_ok h
    · exact after_of_error h
  exact ⟨_, hafter, K.sent m.group message⟩

/-- Any two messages are both encrypted or both refused. -/
theorem buildMessage_alike {m n : MlsService O} (h : K.Alike m n) (message message' : Bytes) :
    (∃ bytes bytes' u v, MlsService.buildMessage message m = .ok bytes u ∧
      MlsService.buildMessage message' n = .ok bytes' v ∧ K.Alike u v) ∨
    ∃ e u v, MlsService.buildMessage message m = .error e u ∧
      MlsService.buildMessage message' n = .error e v ∧ K.Alike u v := by
  obtain ⟨s, rfl, hs⟩ := h
  have hsame := K.encrypts n.group s message message' hs
  have halike : K.Alike ((n.setSecrets s).setSecrets
      (O.createMessage (n.setSecrets s).group message).2)
      (n.setSecrets (O.createMessage n.group message').2) :=
    ⟨_, rfl, (K.sent _ _).trans (hs.trans (K.sent _ _).symm)⟩
  change (O.createMessage (n.setSecrets s).group message).1.map _ = _ at hsame
  rcases K.buildMessage_run (n.setSecrets s) message with ⟨out, x, hout, hx⟩ | ⟨e, hout, hx⟩ <;>
    rcases K.buildMessage_run n message' with ⟨out', y, hout', hy⟩ | ⟨e', hout', hy⟩ <;>
    rw [hout, hout'] at hsame
  · exact .inl ⟨x, y, _, _, hx, hy, halike⟩
  · cases hsame
  · cases hsame
  · cases hsame
    exact .inr ⟨_, _, _, hx, hy, halike⟩

end SenderRatchet

end DeMls
