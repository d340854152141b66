import DeMls.Lib.Intake
import DeMls.Ideal

/-!
# The order of delivery

What a node's commit round holds after a sequence of candidate messages, and when the ranking it
takes into selection depends on their set only (`delivery_order_iff`).
-/

namespace DeMls

open Selection Intake

variable {P : Platform}

/-! ## Receiving one message -/

/-- The message kind of some bytes, as the wire check of a candidate reads it. -/
def isKind (P : Platform) (kind : MlsMessageKind) (bytes : Bytes) : Bool :=
  (MlsService.inspectMessageKind P.mls bytes).toOption = some kind

/-- The checks a candidate passes before it reaches the buffer: not committed yet, complete, and of
the right wire kinds. -/
def admissible (P : Platform) (q : ConversationQueues) (m : CommitCandidate) : Bool :=
  !q.hasCommittedHash (computeCommitHash P m.commitMessage) &&
    !decide (m.mlsProposals = [] ∨ m.commitMessage = []) && !decide (m.stewardMemberId = []) &&
    (m.mlsProposals.all (isKind P .proposal) && isKind P .commit m.commitMessage)

/-- The entry of a peer's candidate. -/
def peerEntry (P : Platform) (m : CommitCandidate) : BufferedCommitCandidate :=
  ⟨m, computeCommitHash P m.commitMessage, false, none, []⟩

/-- A candidate that fails a check is ignored; any other is stashed before an approval and offered
to the buffer after it. -/
theorem receiveCommitCandidate_cases (q : ConversationQueues) (mls : MlsService P.mls)
    (m : CommitCandidate) :
    (admissible P q m = false ∧
      ∃ reason, receiveCommitCandidate P q mls m = (.noop reason, q)) ∨
    (admissible P q m = true ∧ receiveCommitCandidate P q mls m =
      if q.approvedProposalsCount = 0 then
        (.noop .candidateStashedEarly, q.stashEarlyCandidate mls.group.epoch m mls.members.length)
      else
        let r := q.commitRound.add P m false none [] mls.group.epoch mls.members.length
        (r.1.intoProcessResult m.stewardMemberId, { q with commitRound := r.2 })) := by
  have hkinds : ((m.mlsProposals.all fun bytes =>
      decide ((MlsService.inspectMessageKind P.mls bytes).toOption = some .proposal)) = true ∧
      decide ((MlsService.inspectMessageKind P.mls m.commitMessage).toOption = some .commit) = true) ↔
      (m.mlsProposals.all (isKind P .proposal) && isKind P .commit m.commitMessage) = true := by
    rw [Bool.and_eq_true]
    rfl
  unfold receiveCommitCandidate admissible
  simp only [hkinds]
  by_cases hcommitted : q.hasCommittedHash (computeCommitHash P m.commitMessage) = true
  · rw [if_pos hcommitted, hcommitted]
    exact .inl ⟨rfl, _, rfl⟩
  rw [if_neg hcommitted]
  by_cases hempty : m.mlsProposals = [] ∨ m.commitMessage = []
  · rw [if_pos hempty, decide_eq_true hempty, Bool.not_true, Bool.and_false]
    exact .inl ⟨rfl, _, rfl⟩
  rw [if_neg hempty]
  by_cases hsteward : m.stewardMemberId = []
  · rw [if_pos hsteward, decide_eq_true hsteward, Bool.not_true, Bool.and_false]
    exact .inl ⟨rfl, _, rfl⟩
  rw [if_neg hsteward]
  by_cases hwire : (m.mlsProposals.all (isKind P .proposal) && isKind P .commit m.commitMessage) = true
  · rw [if_neg (not_not.mpr hwire), hwire, decide_eq_false hempty, decide_eq_false hsteward,
      Bool.eq_false_iff.mpr hcommitted]
    exact .inr ⟨rfl, rfl⟩
  · rw [if_pos hwire, Bool.eq_false_iff.mpr hwire, Bool.and_false]
    exact .inl ⟨rfl, _, rfl⟩

/-- With approved work, a candidate that passes the checks is buffered; nothing else changes. -/
theorem receiveCommitCandidate_eq {q : ConversationQueues} (mls : MlsService P.mls)
    (h : q.approvedProposalsCount ≠ 0) (m : CommitCandidate) :
    (receiveCommitCandidate P q mls m).2 =
      if admissible P q m then
        { q with commitRound :=
          (q.commitRound.add P m false none [] mls.group.epoch mls.members.length).2 }
      else q := by
  rcases receiveCommitCandidate_cases q mls m with ⟨hm, reason, hreceived⟩ | ⟨hm, hreceived⟩
  · rw [hm, hreceived]
    rfl
  · rw [hm, hreceived, if_neg h]
    rfl

/-! ## Receiving a sequence -/

/-- The queues after a sequence of candidate messages. -/
def delivered (P : Platform) (q : ConversationQueues) (mls : MlsService P.mls)
    (messages : List CommitCandidate) : ConversationQueues :=
  messages.foldl (fun q m => (receiveCommitCandidate P q mls m).2) q

/-- What selection takes from the buffer. -/
theorem take_eq_atEpoch (b : CommitRoundBuffer) (epoch : Nat) :
    (b.take epoch).1 = (b.atEpoch epoch).candidates := by
  unfold CommitRoundBuffer.take CommitRoundBuffer.atEpoch
  split_ifs <;> rfl

theorem atEpoch_atEpoch (b : CommitRoundBuffer) (epoch : Nat) :
    (b.atEpoch epoch).atEpoch epoch = b.atEpoch epoch := by
  unfold CommitRoundBuffer.atEpoch
  split_ifs <;> simp_all

theorem epoch_atEpoch (b : CommitRoundBuffer) (epoch : Nat) : (b.atEpoch epoch).epoch = epoch := by
  unfold CommitRoundBuffer.atEpoch
  split_ifs with h
  · rfl
  · simpa using h

/-- Buffering a candidate offers its entry to the candidates of the epoch. -/
theorem take_add (b : CommitRoundBuffer) (m : CommitCandidate) (isLocal : Bool)
    (welcome : Option Bytes) (joiners : List Bytes) (epoch cap : Nat) :
    ((b.add P m isLocal welcome joiners epoch cap).2.take epoch).1 =
      offer (·.commitHash) cap (b.take epoch).1
        ⟨m, computeCommitHash P m.commitMessage, isLocal, welcome, joiners⟩ := by
  rw [take_eq_atEpoch, take_eq_atEpoch]
  unfold CommitRoundBuffer.add offer
  simp only
  split_ifs
  · rw [atEpoch_atEpoch]
  · rw [atEpoch_atEpoch]
  · unfold CommitRoundBuffer.atEpoch
    simp only
    rw [if_neg]
    exact not_not.mpr (epoch_atEpoch b epoch)

/-- **Deliveries.** A sequence of messages offers the entries of its admissible ones, in order. -/
theorem take_delivered (mls : MlsService P.mls) (messages : List CommitCandidate)
    {q : ConversationQueues} (h : q.approvedProposalsCount ≠ 0) :
    ((delivered P q mls messages).commitRound.take mls.group.epoch).1 =
      offers (·.commitHash) mls.members.length (q.commitRound.take mls.group.epoch).1
        ((messages.filter (admissible P q)).map (peerEntry P)) := by
  induction messages generalizing q with
  | nil => rfl
  | cons m rest ih =>
    show ((delivered P (receiveCommitCandidate P q mls m).2 mls rest).commitRound.take _).1 = _
    rw [receiveCommitCandidate_eq mls h]
    by_cases hm : admissible P q m = true
    · rw [if_pos hm, List.filter_cons_of_pos hm, List.map_cons, offers_cons, peerEntry, ← take_add]
      exact ih h
    · rw [if_neg hm, List.filter_cons_of_neg hm]
      exact ih h

/-! ## The ranking -/

/-- The ranked candidates selection takes from a buffer. -/
def rankingOf (q : ConversationQueues) (epoch : Nat) (ctx : RoundContext) (allowSubset : Bool) :
    List BufferedCommitCandidate :=
  rankApplicableCandidates (q.commitRound.take epoch).1 ctx allowSubset

/-- Candidates with distinct hashes rank alike exactly when the applicable ones are the same. -/
theorem rank_eq_iff_perm {cs ds : List BufferedCommitCandidate} (ctx : RoundContext)
    (allowSubset : Bool) (h : (cs.map (·.commitHash)).Nodup) :
    rankApplicableCandidates cs ctx allowSubset = rankApplicableCandidates ds ctx allowSubset ↔
      (cs.filter (countApplicable ctx allowSubset)).Perm
        (ds.filter (countApplicable ctx allowSubset)) := by
  unfold rankApplicableCandidates
  constructor
  · intro heq
    have hperm := sortBy_perm (compareCandidatePriority ctx.epochStewardId)
      (cs.filter (countApplicable ctx allowSubset))
    rw [heq] at hperm
    exact hperm.symm.trans (sortBy_perm _ _)
  · intro hperm
    refine sortBy_eq_of_perm hperm fun a ha b hb hab => ?_
    exact List.inj_on_of_nodup_map h (List.mem_of_mem_filter ha) (List.mem_of_mem_filter hb)
      (commitHash_eq_of_compare hab)

/-- The messages of a set that reach the buffer. -/
def admitted (P : Platform) (q : ConversationQueues) (messages : List CommitCandidate) :
    List CommitCandidate :=
  messages.filter (admissible P q)

/-- No new message fits, or every new applicable message is the only one with its commit and all
the commits fit. -/
def OrderFreeMessages (q : ConversationQueues) (mls : MlsService P.mls) (ctx : RoundContext)
    (allowSubset : Bool) (messages : List CommitCandidate) : Prop :=
  let buffered := (q.commitRound.take mls.group.epoch).1
  let hashOf := fun m : CommitCandidate => computeCommitHash P m.commitMessage
  mls.members.length ≤ buffered.length ∨
    ∀ m ∈ admitted P q messages, countApplicable ctx allowSubset (peerEntry P m) = true →
      hashOf m ∉ keys (·.commitHash) buffered →
      (keys (·.commitHash) buffered ∪ keys hashOf (admitted P q messages)).card ≤
          mls.members.length ∧
        ∀ m' ∈ admitted P q messages, hashOf m' = hashOf m → m' = m

theorem peerEntry_injective : Function.Injective (peerEntry P) :=
  fun _ _ h => congrArg BufferedCommitCandidate.candidateMsg h

theorem keys_map_peerEntry (messages : List CommitCandidate) :
    keys (·.commitHash) (messages.map (peerEntry P)) =
      keys (fun m : CommitCandidate => computeCommitHash P m.commitMessage) messages := by
  unfold keys
  rw [List.map_map]
  rfl

/-- The condition on messages is the one on their entries. -/
theorem orderFree_entries_iff (q : ConversationQueues) (mls : MlsService P.mls) (ctx : RoundContext)
    (allowSubset : Bool) (messages : List CommitCandidate) :
    OrderFree (·.commitHash) mls.members.length (countApplicable ctx allowSubset)
        (q.commitRound.take mls.group.epoch).1 ((admitted P q messages).map (peerEntry P)) ↔
      OrderFreeMessages q mls ctx allowSubset messages := by
  unfold OrderFree OrderFreeMessages
  rw [keys_map_peerEntry]
  refine or_congr_right ⟨fun h m hm hvisible hkey => ?_, fun h e he hvisible hkey => ?_⟩
  · obtain ⟨hcard, honly⟩ := h _ (List.mem_map_of_mem hm) hvisible hkey
    exact ⟨hcard, fun m' hm' hhash =>
      peerEntry_injective (honly _ (List.mem_map_of_mem hm') hhash)⟩
  · obtain ⟨m, hm, rfl⟩ := List.mem_map.mp he
    obtain ⟨hcard, honly⟩ := h m hm hvisible hkey
    refine ⟨hcard, fun e' he' hhash => ?_⟩
    obtain ⟨m', hm', rfl⟩ := List.mem_map.mp he'
    rw [honly m' hm' hhash]

theorem covers_entries {q : ConversationQueues} {xs messages : List CommitCandidate}
    (h : Covers xs messages) :
    Covers ((admitted P q xs).map (peerEntry P)) ((admitted P q messages).map (peerEntry P)) := by
  intro e
  simp only [admitted, List.mem_map, List.mem_filter, h _]

/-- Every sequence of entries of the admissible messages comes from a sequence of messages. -/
theorem exists_messages {q : ConversationQueues} {es : List BufferedCommitCandidate}
    {messages : List CommitCandidate}
    (h : Covers es ((admitted P q messages).map (peerEntry P))) :
    ∃ xs, Covers xs messages ∧ (admitted P q xs).map (peerEntry P) = es := by
  have hback : ∀ e ∈ es, e.candidateMsg ∈ admitted P q messages ∧
      peerEntry P e.candidateMsg = e := by
    intro e he
    obtain ⟨m, hm, rfl⟩ := List.mem_map.mp ((h e).mp he)
    exact ⟨hm, rfl⟩
  let refused := messages.filter fun m => !admissible P q m
  refine ⟨refused ++ es.map (·.candidateMsg), fun m => ?_, ?_⟩
  · rw [List.mem_append, List.mem_filter, List.mem_map]
    constructor
    · rintro (⟨hm, _⟩ | ⟨e, he, rfl⟩)
      · exact hm
      · exact List.mem_of_mem_filter (hback e he).1
    · intro hm
      by_cases hadm : admissible P q m = true
      · right
        have hmem : peerEntry P m ∈ (admitted P q messages).map (peerEntry P) :=
          List.mem_map_of_mem (List.mem_filter.mpr ⟨hm, hadm⟩)
        exact ⟨peerEntry P m, (h _).mpr hmem, rfl⟩
      · exact .inl ⟨hm, by simpa using hadm⟩
  · have hnone : refused.filter (admissible P q) = [] := by
      rw [List.filter_eq_nil_iff]
      intro m hm
      simpa using (List.mem_filter.mp hm).2
    have hall : (es.map (·.candidateMsg)).filter (admissible P q) = es.map (·.candidateMsg) := by
      rw [List.filter_eq_self]
      intro m hm
      obtain ⟨e, he, rfl⟩ := List.mem_map.mp hm
      exact (List.mem_filter.mp (hback e he).1).2
    unfold admitted
    rw [List.filter_append, hnone, hall, List.nil_append, List.map_map]
    refine (List.map_congr_left fun e he => ?_).trans (List.map_id es)
    exact (hback e he).2

/-- Two sequences of messages give one ranking exactly when they leave the same applicable
entries. -/
theorem rankingOf_eq_iff {q : ConversationQueues} (mls : MlsService P.mls)
    (happroved : q.approvedProposalsCount ≠ 0)
    (hbuffered : ((q.commitRound.take mls.group.epoch).1.map (·.commitHash)).Nodup)
    (ctx : RoundContext) (allowSubset : Bool) (xs ys : List CommitCandidate) :
    rankingOf (delivered P q mls xs) mls.group.epoch ctx allowSubset =
        rankingOf (delivered P q mls ys) mls.group.epoch ctx allowSubset ↔
      ((offers (·.commitHash) mls.members.length (q.commitRound.take mls.group.epoch).1
        ((admitted P q xs).map (peerEntry P))).filter (countApplicable ctx allowSubset)).Perm
      ((offers (·.commitHash) mls.members.length (q.commitRound.take mls.group.epoch).1
        ((admitted P q ys).map (peerEntry P))).filter (countApplicable ctx allowSubset)) := by
  unfold rankingOf
  rw [take_delivered mls xs happroved, take_delivered mls ys happroved]
  exact rank_eq_iff_perm ctx allowSubset (nodup_offers hbuffered)

/-- **Order of delivery.** The ranked candidates of the round do not depend on the order and the
repetitions in which a set of messages arrives exactly when the set is order-free. -/
theorem delivery_order_iff {q : ConversationQueues} (mls : MlsService P.mls)
    (happroved : q.approvedProposalsCount ≠ 0) (hdistinct : q.commitRound.Distinct)
    (ctx : RoundContext) (allowSubset : Bool) (messages : List CommitCandidate) :
    (∀ xs ys, Covers xs messages → Covers ys messages →
      rankingOf (delivered P q mls xs) mls.group.epoch ctx allowSubset =
        rankingOf (delivered P q mls ys) mls.group.epoch ctx allowSubset) ↔
      OrderFreeMessages q mls ctx allowSubset messages := by
  have hbuffered : ((q.commitRound.take mls.group.epoch).1.map (·.commitHash)).Nodup := by
    rw [take_eq_atEpoch]
    exact hdistinct.atEpoch _
  rw [← orderFree_entries_iff, ← perm_iff_orderFree hbuffered]
  constructor
  · intro h as bs has hbs
    obtain ⟨xs, hxs, rfl⟩ := exists_messages has
    obtain ⟨ys, hys, rfl⟩ := exists_messages hbs
    exact (rankingOf_eq_iff mls happroved hbuffered ctx allowSubset xs ys).mp (h xs ys hxs hys)
  · intro h xs ys hxs hys
    exact (rankingOf_eq_iff mls happroved hbuffered ctx allowSubset xs ys).mpr
      (h _ _ (covers_entries hxs) (covers_entries hys))

/-! ## Evaluations -/

namespace Ideal

/-- The third member is to be removed. -/
def removing : Conversation platform :=
  conversationOf 0 1 [[10], [11], [12]] (stewardsOf [0, 1] 1) [.removeMember (memberIdOf 2)] none

/-- The commit of that removal by the member at leaf 1, claimed by the member at `claimed`. -/
def claimedBy (claimed : LeafNodeIndex) : CommitCandidate :=
  ⟨[], [frameOf 1 1 1 (encodeChange (.remove 2))], frameOf 2 1 1 (encodeChange (.remove 2)),
    memberIdOf claimed⟩

end Ideal

/-- Two messages share their commit and claim different stewards: the first one to arrive counts. -/
theorem first_claim_counts :
    let messages := [Ideal.claimedBy 0, Ideal.claimedBy 1]
    let ctx := RoundContext.snapshot Ideal.removing.queues Ideal.removing.mls
      Ideal.removing.stewardList 1 false []
    Ideal.removing.queues.approvedProposalsCount ≠ 0 ∧
      messages.length ≤ Ideal.removing.mls.members.length ∧
      ¬ ∀ xs ys, Covers xs messages → Covers ys messages →
        rankingOf (delivered _ Ideal.removing.queues Ideal.removing.mls xs) 1 ctx false =
          rankingOf (delivered _ Ideal.removing.queues Ideal.removing.mls ys) 1 ctx false := by
  refine ⟨by decide, by decide, fun h => ?_⟩
  have heq := h [Ideal.claimedBy 0, Ideal.claimedBy 1] [Ideal.claimedBy 1, Ideal.claimedBy 0]
    (fun _ => Iff.rfl) (fun _ => by simp [or_comm])
  revert heq
  decide

/-- One message alone may be delivered again. -/
theorem redelivery_harmless :
    let ctx := RoundContext.snapshot Ideal.removing.queues Ideal.removing.mls
      Ideal.removing.stewardList 1 false []
    let once := [Ideal.claimedBy 1]
    let twice := [Ideal.claimedBy 1, Ideal.claimedBy 1]
    rankingOf (delivered _ Ideal.removing.queues Ideal.removing.mls once) 1 ctx false =
      rankingOf (delivered _ Ideal.removing.queues Ideal.removing.mls twice) 1 ctx false :=
  (delivery_order_iff (q := Ideal.removing.queues) Ideal.removing.mls (by decide)
    CommitRoundBuffer.distinct_default _ false [Ideal.claimedBy 1]).mpr (.inr (by decide)) _ _
    (fun _ => Iff.rfl) (fun _ => by simp)

end DeMls
