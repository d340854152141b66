import DeMls.CommitRound.Delivery
import DeMls.CommitRound.Spec

/-!
# Our own candidate

A mint hands its candidate to the same buffer the peers' candidates are in, and broadcasts it
whatever the buffer answers. `own_candidate_kept_iff` says when the buffer keeps it.
-/

namespace DeMls

open Program Intake

variable {P : Platform}

namespace Conversation

/-- **The buffer after a mint**: the candidate was offered to it as our own. -/
theorem localCandidate_buffer {c d : Conversation P} {self : Bytes} {candidate : CommitCandidate}
    (h : localCandidate self c = .ok (some candidate) d) :
    d.mls.publicPart = c.mls.publicPart ∧ ∃ welcome joiners,
      d.queues.commitRound = (c.queues.commitRound.add P candidate true welcome joiners c.epoch
        c.members.length).2 := by
  unfold localCandidate at h
  simp only [bind_ok, get_apply, EStateM.Result.ok.injEq] at h
  obtain ⟨_, _, ⟨rfl, rfl⟩, h⟩ := h
  split_ifs at h with hauth hempty hself hgov
  · simp at h
  · simp at h
  · simp at h
  · simp at h
  · rw [bind_ok] at h
    obtain ⟨⟨updates, joiners⟩, _, hbatch, h⟩ := h
    obtain ⟨_, rfl⟩ := (ofResult_ok _ _ _ _).mp hbatch
    simp only at h
    split_ifs at h with hnone
    · simp at h
    · simp only [bind_ok, onMls, zoom_ok, modify_apply, pure_ok, EStateM.Result.ok.injEq] at h
      obtain ⟨artifacts, _, ⟨m, hm, rfl⟩, _, _, ⟨_, rfl⟩, hc, rfl⟩ := h
      cases hc
      have hpart : m.publicPart = c.mls.publicPart :=
        (MlsService.frame_createCommitCandidate updates).ok hm
      refine ⟨hpart, artifacts.welcome, joiners, ?_⟩
      have hepoch : m.group.epoch = c.mls.group.epoch :=
        congrArg (fun g : MlsGroup Unit => g.epoch) hpart
      have hmembers : m.members = c.mls.members := by
        have hlist : m.publicPart.members = c.mls.publicPart.members := by rw [hpart]
        show m.publicPart.members.map _ = c.mls.publicPart.members.map _
        rw [hlist]
      show (c.queues.commitRound.add P _ true artifacts.welcome joiners m.group.epoch
        m.members.length).2 = _
      rw [hepoch, hmembers]
      rfl

end Conversation

/-! ## What the buffer does with it -/

/-- The first of our own candidates among the entries of a round, in wire bytes. -/
def ownBytes (P : Platform) (l : List BufferedCommitCandidate) : Option Bytes :=
  (l.find? (·.isLocalCandidate)).map fun e => P.codec.encodeApp ⟨some (.commitCandidate e.candidateMsg)⟩

/-- The entries hold the candidate as ours, and a resend of ours repeats it. -/
def HoldsOwn (P : Platform) (l : List BufferedCommitCandidate) (candidate : CommitCandidate) : Prop :=
  (∃ e ∈ l, e.candidateMsg = candidate ∧ e.isLocalCandidate = true) ∧
    ownBytes P l = some (P.codec.encodeApp ⟨some (.commitCandidate candidate)⟩)

/-- The round has room for the candidate: nothing of its hash is in it, it is not full, and no
other candidate of ours would be resent instead. -/
def HasRoomFor (P : Platform) (l : List BufferedCommitCandidate) (candidate : CommitCandidate)
    (cap : Nat) : Prop :=
  computeCommitHash P candidate.commitMessage ∉ keys (·.commitHash) l ∧ l.length < cap ∧
    ∀ bytes, ownBytes P l = some bytes →
      bytes = P.codec.encodeApp ⟨some (.commitCandidate candidate)⟩

theorem ownBytes_append (l : List BufferedCommitCandidate) (e : BufferedCommitCandidate)
    (he : e.isLocalCandidate = true) :
    ownBytes P (l ++ [e]) = some ((ownBytes P l).getD
      (P.codec.encodeApp ⟨some (.commitCandidate e.candidateMsg)⟩)) := by
  unfold ownBytes
  rw [List.find?_append]
  cases l.find? (·.isLocalCandidate) with
  | none => simp [he]
  | some x => rfl

/-- **The offer.** The candidate is held afterwards when it was before, or when there is room. -/
theorem holdsOwn_offer_iff (l : List BufferedCommitCandidate) (candidate : CommitCandidate)
    (welcome : Option Bytes) (joiners : List Bytes) (cap : Nat) :
    HoldsOwn P (offer (·.commitHash) cap l
        ⟨candidate, computeCommitHash P candidate.commitMessage, true, welcome, joiners⟩) candidate ↔
      HoldsOwn P l candidate ∨ HasRoomFor P l candidate cap := by
  let entry : BufferedCommitCandidate :=
    ⟨candidate, computeCommitHash P candidate.commitMessage, true, welcome, joiners⟩
  rcases offer_cases (·.commitHash) cap l entry with ⟨hkey, heq⟩ | ⟨hfull, heq⟩ | ⟨hkey, hroom, heq⟩
  · rw [heq]
    exact ⟨.inl, fun h => h.resolve_right fun hfits => hfits.1 hkey⟩
  · rw [heq]
    exact ⟨.inl, fun h => h.resolve_right fun hfits => absurd hfits.2.1 (by omega)⟩
  · rw [heq]
    unfold HoldsOwn
    rw [ownBytes_append l entry rfl]
    constructor
    · rintro ⟨_, hbytes⟩
      refine .inr ⟨hkey, hroom, fun bytes hold => ?_⟩
      rw [hold] at hbytes
      exact Option.some.inj hbytes
    · intro h
      refine ⟨⟨entry, List.mem_append_right _ (List.mem_singleton_self _), rfl, rfl⟩, ?_⟩
      rcases h with ⟨_, hbytes⟩ | ⟨_, _, honly⟩
      · rw [hbytes]
        rfl
      · cases hold : ownBytes P l with
        | none => rfl
        | some bytes => rw [honly bytes hold]; rfl

/-- The buffer of a mint holds the candidates of its epoch only. -/
theorem add_eq_take (b : CommitRoundBuffer) (m : CommitCandidate) (isLocal : Bool)
    (welcome : Option Bytes) (joiners : List Bytes) (epoch cap : Nat) :
    (b.add P m isLocal welcome joiners epoch cap).2.candidates =
      ((b.add P m isLocal welcome joiners epoch cap).2.take epoch).1 := by
  have hepoch : (b.add P m isLocal welcome joiners epoch cap).2.epoch = epoch := by
    unfold CommitRoundBuffer.add
    simp only
    split_ifs <;> exact epoch_atEpoch b epoch
  unfold CommitRoundBuffer.take
  rw [if_neg (not_not.mpr hepoch)]

namespace Conversation

/-- The node holds the candidate as its own: its next round takes it, it knows it has one, and a
resend repeats it. -/
structure Keeps (c : Conversation P) (candidate : CommitCandidate) : Prop where
  taken : ∃ e ∈ (c.queues.commitRound.take c.epoch).1,
    e.candidateMsg = candidate ∧ e.isLocalCandidate = true
  hasLocal : c.queues.commitRound.hasLocalCandidate = true
  resent : c.queues.commitRound.localCandidateBytes P =
    some (P.codec.encodeApp ⟨some (.commitCandidate candidate)⟩)

/-- **Keeping what was broadcast.** A node that mints keeps its candidate exactly when the round
held it as ours before, or had room for it. -/
theorem own_candidate_kept_iff {c d : Conversation P} {self bytes : Bytes}
    (h : buildLocalCandidate self c = .ok (some bytes) d) :
    ∃ candidate, bytes = P.codec.encodeApp ⟨some (.commitCandidate candidate)⟩ ∧
      (d.Keeps candidate ↔
        HoldsOwn P (c.queues.commitRound.take c.epoch).1 candidate ∨
          HasRoomFor P (c.queues.commitRound.take c.epoch).1 candidate c.members.length) := by
  unfold buildLocalCandidate at h
  rw [bind_ok] at h
  obtain ⟨minted, d', hlocal, h⟩ := h
  cases minted with
  | none => simp at h
  | some candidate =>
    rw [pure_ok] at h
    obtain ⟨hbytes, rfl⟩ := h
    refine ⟨candidate, (Option.some.inj hbytes).symm, ?_⟩
    obtain ⟨hpart, welcome, joiners, hbuffer⟩ := localCandidate_buffer hlocal
    have hepoch : d'.epoch = c.epoch := congrArg (fun g : MlsGroup Unit => g.epoch) hpart
    have htaken : (d'.queues.commitRound.take d'.epoch).1 = offer (·.commitHash) c.members.length
        (c.queues.commitRound.take c.epoch).1
        ⟨candidate, computeCommitHash P candidate.commitMessage, true, welcome, joiners⟩ := by
      rw [hepoch, hbuffer, take_add]
    have hall : d'.queues.commitRound.candidates = (d'.queues.commitRound.take d'.epoch).1 := by
      rw [hepoch, hbuffer, add_eq_take]
    rw [← holdsOwn_offer_iff _ candidate welcome joiners, ← htaken]
    constructor
    · intro hkeeps
      refine ⟨hkeeps.taken, ?_⟩
      rw [← hall]
      exact hkeeps.resent
    · intro hholds
      refine ⟨hholds.1, ?_, ?_⟩
      · obtain ⟨e, he, _, hown⟩ := hholds.1
        rw [← hall] at he
        exact List.any_eq_true.mpr ⟨e, he, hown⟩
      · show ownBytes P d'.queues.commitRound.candidates = _
        rw [hall]
        exact hholds.2

end Conversation

/-! ## Evaluations -/

namespace Ideal

/-- A commit claimed by the member at leaf 1: nothing checks it before selection. -/
def forged (key : UInt8) : CommitCandidate :=
  ⟨[], [frameOf 1 1 1 (encodeChange (.add [key]))], frameOf 2 1 1 (encodeChange (.add [key])),
    memberIdOf 1⟩

/-- Two members, one invite approved, and candidates that arrived before our mint. -/
def offered (messages : List CommitCandidate) : Conversation platform :=
  let c := conversationOf 0 1 [[10], [11]] (stewardsOf [0, 1] 1) [.memberInvite [20]] none
  { c with queues := delivered platform c.queues c.mls messages }

end Ideal

/-- Forged candidates that fill the round crowd our own out of it, and it is broadcast. -/
theorem own_candidate_crowded_out : ∃ bytes d,
    Conversation.buildLocalCandidate (memberIdOf 0)
      (Ideal.offered [Ideal.forged 30, Ideal.forged 31]) = .ok (some bytes) d ∧
    ∀ candidate, ¬ d.Keeps candidate := by
  refine ⟨_, _, rfl, fun candidate h => ?_⟩
  have hlocal := h.hasLocal
  revert hlocal
  decide

/-- The law, with room left. -/
theorem own_candidate_law : ∃ bytes d candidate,
    Conversation.buildLocalCandidate (memberIdOf 0) (Ideal.offered [Ideal.forged 30]) =
      .ok (some bytes) d ∧ bytes = Ideal.encodeApp ⟨some (.commitCandidate candidate)⟩ ∧
    (d.Keeps candidate ↔
      HoldsOwn Ideal.platform [peerEntry Ideal.platform (Ideal.forged 30)] candidate ∨
        HasRoomFor Ideal.platform [peerEntry Ideal.platform (Ideal.forged 30)] candidate 2) := by
  obtain ⟨bytes, d, h⟩ : ∃ bytes d, Conversation.buildLocalCandidate (memberIdOf 0)
      (Ideal.offered [Ideal.forged 30]) = .ok (some bytes) d := ⟨_, _, rfl⟩
  obtain ⟨candidate, hbytes, hiff⟩ := Conversation.own_candidate_kept_iff h
  exact ⟨bytes, d, candidate, h, hbytes, hiff⟩

end DeMls
