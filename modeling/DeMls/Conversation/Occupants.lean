import DeMls.Conversation.AfterCommit
import DeMls.Conversation.StewardSeats
import DeMls.Lib.Tenancy

/-!
# Occupants of leaves

A node keys scores and join epochs by leaf, and a leaf can be vacated and filled again. The register
of a history says who holds each leaf; `occupants_followed` is that the two tables follow it through
every run of commits and score operations, with nothing left to a successor.
-/

namespace DeMls

open Program Tenancy

/-- A score operation notes its event of a leaf. -/
def ScoreOp.entry (op : ScoreOp) : Entry Bytes ScoreEvent := .note op.memberId op.event

/-- What an event makes of a score. -/
def scoreStep (scoreDelta : ScoreEvent → Int) (score : Int) (event : ScoreEvent) : Int :=
  saturatingAdd score (scoreDelta event)

/-- A delta turns leaves over at an epoch. -/
def MembershipDelta.entry (epoch : Nat) (delta : MembershipDelta) : Entry Bytes ScoreEvent :=
  .turnover epoch (delta.removed.map fun m => memberIdOf m.leaf)
    (delta.added.map fun m => memberIdOf m.index)

namespace Conversation

variable {P : Platform}

/-! ## The tables and the register -/

/-- The scores and the join epochs are those of the occupants. -/
structure Tracks (c : Conversation P) (r : Register Bytes ScoreEvent) : Prop where
  scores : c.scoreTable =
    r.values (scoreStep c.scoring.scoreDelta) c.scoring.config.defaultScore
  members : ∀ id, (r.term id).isSome = true ↔ id ∈ c.members
  joined : ∀ id epoch, c.queues.memberJoinEpoch.find? id = some epoch → r.term id = some epoch

/-- The join epochs and the group are ahead of the scores by a delta. -/
structure Owes (c : Conversation P) (r : Register Bytes ScoreEvent) (epoch : Nat)
    (delta : MembershipDelta) : Prop where
  scores : c.scoreTable =
    r.values (scoreStep c.scoring.scoreDelta) c.scoring.config.defaultScore
  pending : c.queues.pendingMembershipDelta = some delta
  members : ∀ id, ((r.enter (delta.entry epoch)).term id).isSome = true ↔ id ∈ c.members
  joined : ∀ id e, c.queues.memberJoinEpoch.find? id = some e →
    (r.enter (delta.entry epoch)).term id = some e

theorem members_of_records {c d : Conversation P} (h : d.records = c.records) :
    d.members = c.members :=
  MlsService.members_of_public (congrArg (fun r => r.2.2) h)

/-! ## Score operations -/

/-- A batch of operations is a stretch of notes. -/
theorem values_after_ops (scoreDelta : ScoreEvent → Int) (defaultScore : Int) (ops : List ScoreOp)
    (r : Register Bytes ScoreEvent) :
    PeerScoringService.tableAfter scoreDelta ops (r.values (scoreStep scoreDelta) defaultScore) =
      (r.after (ops.map ScoreOp.entry)).values (scoreStep scoreDelta) defaultScore := by
  induction ops generalizing r with
  | nil => exact PeerScoringService.tableAfter_nil _ _
  | cons op rest ih =>
    rw [PeerScoringService.tableAfter_cons, PeerScoringService.tableAfter_single, List.map_cons,
      Register.after_cons, ← ih]
    congr 1
    exact (Register.values_note (scoreStep scoreDelta) defaultScore r op.memberId op.event).symm

/-- Notes begin and end no occupancy. -/
theorem term_after_ops (ops : List ScoreOp) (r : Register Bytes ScoreEvent) :
    (r.after (ops.map ScoreOp.entry)).term = r.term := by
  have hnotes : ops.map ScoreOp.entry =
      (ops.map fun op => (op.memberId, op.event)).map fun n => .note n.1 n.2 := by
    rw [List.map_map]
    rfl
  rw [hnotes, Register.term_notes]

/-- A turnover looks at the terms only. -/
theorem term_entry_congr {r s : Register Bytes ScoreEvent} (h : s.term = r.term) (epoch : Nat)
    (delta : MembershipDelta) :
    (s.enter (delta.entry epoch)).term = (r.enter (delta.entry epoch)).term := by
  funext id
  unfold MembershipDelta.entry
  rw [Register.term_turnover, Register.term_turnover, h]

section
variable (hS : P.scores.Lawful)
include hS

theorem Tracks.scored {c : Conversation P} {r : Register Bytes ScoreEvent} (h : c.Tracks r)
    (ops : List ScoreOp) : (after (applyScoreOps ops : ConvM P Unit) c).Tracks
      (r.after (ops.map ScoreOp.entry)) := by
  obtain ⟨d, hrun, htable, hparameters, hrecords⟩ := applyScoreOps_run hS ops c
  obtain ⟨hdelta, hconfig⟩ := Prod.mk.inj hparameters
  rw [after_of_ok hrun]
  refine ⟨?_, ?_, ?_⟩
  · rw [htable, h.scores, values_after_ops, hdelta, hconfig]
  · rw [term_after_ops, members_of_records hrecords]
    exact h.members
  · rw [term_after_ops, show d.queues.memberJoinEpoch = c.queues.memberJoinEpoch from
      congrArg Prod.fst hrecords]
    exact h.joined

theorem Owes.scored {c : Conversation P} {r : Register Bytes ScoreEvent} {epoch : Nat}
    {delta : MembershipDelta} (h : c.Owes r epoch delta) (ops : List ScoreOp) :
    (after (applyScoreOps ops : ConvM P Unit) c).Owes (r.after (ops.map ScoreOp.entry)) epoch
      delta := by
  obtain ⟨d, hrun, htable, hparameters, hrecords⟩ := applyScoreOps_run hS ops c
  obtain ⟨hdelta, hconfig⟩ := Prod.mk.inj hparameters
  have hterm := term_entry_congr (term_after_ops ops r) epoch delta
  rw [after_of_ok hrun]
  refine ⟨?_, ?_, ?_, ?_⟩
  · rw [htable, h.scores, values_after_ops, hdelta, hconfig]
  · exact (congrArg (fun r => r.2.1) hrecords).trans h.pending
  · rw [hterm, members_of_records hrecords]
    exact h.members
  · rw [hterm, show d.queues.memberJoinEpoch = c.queues.memberJoinEpoch from
      congrArg Prod.fst hrecords]
    exact h.joined

end

/-! ## Commits -/

section
variable {c d : Conversation P} {r : CommitRoundResult P.mls} {merged : MergedCommit P.mls}
  {allowSubset : Bool}

/-- **The roster of a merge**: whoever the delta adds, and whoever was there and is not removed. -/
theorem mem_members_iff (hO : FollowsCommits P.mls)
    (hround : finalizeCommitRound allowSubset c.selfMemberId c = .ok r d)
    (hm : r.merged = some merged) (id : Bytes) : id ∈ d.members ↔
      (∃ m ∈ d.mls.group.members, c.SeatsAnew merged m.index ∧ memberIdOf m.index = id) ∨
        id ∈ c.members ∧ ¬ ∃ v ∈ vacatedBy P.mls c.mls.group merged.staged,
          memberIdOf v.leaf = id := by
  have hmerges := (round_merges hround hm).2
  constructor
  · intro hid
    obtain ⟨m, hmember, rfl⟩ := List.mem_map.mp hid
    by_cases hnew : c.SeatsAnew merged m.index
    · exact .inl ⟨m, hmember, hnew, rfl⟩
    · exact .inr (stays_of_not_seatsAnew hnew)
  · rintro (⟨m, hmember, _, rfl⟩ | ⟨hid, hkept⟩)
    · exact List.mem_map_of_mem hmember
    · refine (hmerges.tree.reseats hO).mem_memberIds hid fun v hv hleaf => hkept ⟨v, hv, hleaf⟩

/-- **A merge** leaves the scores a delta behind. -/
theorem Tracks.owes (hO : FollowsCommits P.mls) {reg : Register Bytes ScoreEvent}
    (h : c.Tracks reg) (hround : finalizeCommitRound allowSubset c.selfMemberId c = .ok r d)
    (hm : r.merged = some merged) : d.Owes reg (c.epoch + 1) (c.commitDelta merged d) := by
  obtain ⟨hscoring, hmerges⟩ := round_merges hround hm
  have hterm : ∀ id, (reg.enter ((c.commitDelta merged d).entry (c.epoch + 1))).term id =
      if ∃ m ∈ d.mls.group.members, c.SeatsAnew merged m.index ∧ memberIdOf m.index = id then
        some (c.epoch + 1)
      else if ∃ v ∈ vacatedBy P.mls c.mls.group merged.staged, memberIdOf v.leaf = id then none
      else reg.term id := by
    intro id
    unfold MembershipDelta.entry
    rw [Register.term_turnover]
    simp only [mem_added_iff, mem_removed_iff]
  refine ⟨?_, hmerges.membershipDelta, ?_, ?_⟩
  · unfold scoreTable
    rw [hscoring]
    exact h.scores
  · intro id
    rw [mem_members_iff hO hround hm, ← h.members, hterm]
    split_ifs with hnew hleft
    · exact iff_of_true rfl (.inl hnew)
    · refine iff_of_false (by simp) ?_
      rintro (hin | ⟨_, hkept⟩)
      · exact hnew hin
      · exact hkept hleft
    · exact ⟨fun hid => .inr ⟨hid, hleft⟩, fun hid => (hid.resolve_left hnew).1⟩
  · intro id e he
    have hjoin := joinEpoch_of_merges hmerges id
    rw [he] at hjoin
    rw [hterm]
    split_ifs at hjoin ⊢ with hnew hleft
    · exact hjoin.symm
    · exact h.joined id e hjoin.symm

end

/-- **The reconciliation** pays the delta. -/
theorem Owes.reconciled (hS : P.scores.Lawful) {c : Conversation P}
    {reg : Register Bytes ScoreEvent} {epoch : Nat} {delta : MembershipDelta}
    (h : c.Owes reg epoch delta) : (after (reconcileMembershipAfterCommit : ConvM P Unit) c).Tracks
      (reg.enter (delta.entry epoch)) := by
  obtain ⟨d, hrun, htable, hparameters, hrecords⟩ := reconcileMembership_run hS h.pending
  obtain ⟨hdelta, hconfig⟩ := Prod.mk.inj hparameters
  rw [after_of_ok hrun]
  refine ⟨?_, ?_, ?_⟩
  · funext id
    unfold MembershipDelta.entry
    rw [htable, Register.values_turnover, h.scores, hdelta, hconfig]
    split_ifs <;> rfl
  · rw [show d.members = c.members from
      MlsService.members_of_public (congrArg (fun r => r.2.2) hrecords)]
    exact h.members
  · rw [show d.queues.memberJoinEpoch = c.queues.memberJoinEpoch from congrArg Prod.fst hrecords]
    exact h.joined

/-- Whatever leaves the tenures alone. -/
theorem Tracks.kept {c d : Conversation P} {reg : Register Bytes ScoreEvent} (h : c.Tracks reg)
    (hkept : d.tenure = c.tenure) : d.Tracks reg := by
  obtain ⟨hscoring, hrecords⟩ := Prod.mk.inj hkept
  refine ⟨?_, ?_, ?_⟩
  · unfold scoreTable
    rw [hscoring]
    exact h.scores
  · rw [members_of_records hrecords]
    exact h.members
  · rw [show d.queues.memberJoinEpoch = c.queues.memberJoinEpoch from congrArg Prod.fst hrecords]
    exact h.joined

theorem Owes.kept {c d : Conversation P} {reg : Register Bytes ScoreEvent} {epoch : Nat}
    {delta : MembershipDelta} (h : c.Owes reg epoch delta) (hkept : d.tenure = c.tenure) :
    d.Owes reg epoch delta := by
  obtain ⟨hscoring, hrecords⟩ := Prod.mk.inj hkept
  refine ⟨?_, ?_, ?_, ?_⟩
  · unfold scoreTable
    rw [hscoring]
    exact h.scores
  · exact (congrArg (fun r => r.2.1) hrecords).trans h.pending
  · rw [members_of_records hrecords]
    exact h.members
  · rw [show d.queues.memberJoinEpoch = c.queues.memberJoinEpoch from congrArg Prod.fst hrecords]
    exact h.joined

/-! ## Runs -/

/-- Score operations, and whatever leaves the tenures alone. -/
inductive Interlude (c : Conversation P) : List (Entry Bytes ScoreEvent) → Conversation P → Prop
  | start : Interlude c [] c
  | scored {d : Conversation P} {history : List (Entry Bytes ScoreEvent)}
      (hs : Interlude c history d) (ops : List ScoreOp) :
      Interlude c (history ++ ops.map ScoreOp.entry) (after (applyScoreOps ops : ConvM P Unit) d)
  | kept {d e : Conversation P} {history : List (Entry Bytes ScoreEvent)}
      (hs : Interlude c history d) (hkept : e.tenure = d.tenure) : Interlude c history e

/-- A run of commits, score operations and the rest, with the history of the leaves: a commit is
merged, more may happen, and then it is reconciled. -/
inductive Observed (c₀ : Conversation P) : List (Entry Bytes ScoreEvent) → Conversation P → Prop
  | start : Observed c₀ [] c₀
  | interlude {c d : Conversation P} {history more : List (Entry Bytes ScoreEvent)}
      (hs : Observed c₀ history c) (hmore : Interlude c more d) : Observed c₀ (history ++ more) d
  | commit {c d e : Conversation P} {history more : List (Entry Bytes ScoreEvent)}
      {r : CommitRoundResult P.mls} {merged : MergedCommit P.mls} {allowSubset : Bool}
      (hs : Observed c₀ history c)
      (hround : finalizeCommitRound allowSubset c.selfMemberId c = .ok r d)
      (hm : r.merged = some merged) (hmore : Interlude d more e) :
      Observed c₀ (history ++ more ++ [(c.commitDelta merged d).entry (c.epoch + 1)])
        (after (reconcileMembershipAfterCommit : ConvM P Unit) e)

/-- The follow-up of a commit is such a stretch of a run. -/
theorem Observed.followUp {c₀ c d : Conversation P} {history : List (Entry Bytes ScoreEvent)}
    {r : CommitRoundResult P.mls} {merged : MergedCommit P.mls} {allowSubset : Bool}
    (hs : Observed c₀ history c)
    (hround : finalizeCommitRound allowSubset c.selfMemberId c = .ok r d)
    (hm : r.merged = some merged) (inRecovery : Bool) (welcome : Option MemberWelcome) :
    Observed c₀ (history ++ r.scoreOps.map ScoreOp.entry ++
        [(c.commitDelta merged d).entry (c.epoch + 1)])
      (after (reconcileMembershipAfterCommit : ConvM P Unit)
        (after (handOver welcome) (after (reward inRecovery r) d))) := by
  have hscored : Interlude d ([] ++ r.scoreOps.map ScoreOp.entry)
      (after (applyScoreOps r.scoreOps : ConvM P Unit) d) := .scored .start r.scoreOps
  exact hs.commit hround hm ((hscored.kept (tenure_reward inRecovery r d)).kept
    (tenure_handOver welcome _))

section
variable (hS : P.scores.Lawful)
include hS

theorem Tracks.interlude {c d : Conversation P} {reg : Register Bytes ScoreEvent}
    {history : List (Entry Bytes ScoreEvent)} (h : c.Tracks reg) (hrun : Interlude c history d) :
    d.Tracks (reg.after history) := by
  induction hrun with
  | start => exact h
  | scored _ ops ih =>
    rw [Register.after_append]
    exact ih.scored hS ops
  | kept _ hkept ih => exact ih.kept hkept

theorem Owes.interlude {c d : Conversation P} {reg : Register Bytes ScoreEvent} {epoch : Nat}
    {delta : MembershipDelta} {history : List (Entry Bytes ScoreEvent)} (h : c.Owes reg epoch delta)
    (hrun : Interlude c history d) : d.Owes (reg.after history) epoch delta := by
  induction hrun with
  | start => exact h
  | scored _ ops ih =>
    rw [Register.after_append]
    exact ih.scored hS ops
  | kept _ hkept ih => exact ih.kept hkept

/-- **Runs** keep the tables with the occupants. -/
theorem Tracks.observed (hO : FollowsCommits P.mls) {c₀ c : Conversation P}
    {reg : Register Bytes ScoreEvent} {history : List (Entry Bytes ScoreEvent)}
    (h : c₀.Tracks reg) (hrun : Observed c₀ history c) : c.Tracks (reg.after history) := by
  induction hrun with
  | start => exact h
  | interlude _ hmore ih =>
    rw [Register.after_append]
    exact ih.interlude hS hmore
  | commit _ hround hm hmore ih =>
    rw [Register.after_append, Register.after_append]
    exact ((ih.owes hO hround hm).interlude hS hmore).reconciled hS

/-- **Per-leaf state follows the occupant.** After any run of commits and score operations the
scores are kept for exactly the members; each is the default, changed by the operations noted of
the occupant in their order; a join epoch on record is the one the occupant came at. Whoever came
last to a leaf came with its commit, and only later operations are noted of it. -/
theorem occupants_followed (hO : FollowsCommits P.mls) {c₀ c : Conversation P}
    {reg : Register Bytes ScoreEvent} {history : List (Entry Bytes ScoreEvent)}
    (hstart : c₀.Tracks reg) (hrun : Observed c₀ history c) :
    (∀ id, (c.scoreTable id).isSome = true ↔ id ∈ c.members) ∧
    (∀ id ∈ c.members, ∃ occupant, reg.after history id = some occupant ∧
      c.scoreTable id = some (occupant.notes.foldl (scoreStep c.scoring.scoreDelta)
        c.scoring.config.defaultScore) ∧
      ∀ epoch, c.queues.memberJoinEpoch.find? id = some epoch → epoch = occupant.since) ∧
    ∀ before epoch left came later id, history = before ++ .turnover epoch left came :: later →
      id ∈ came → (∀ e ∈ later, e.turns id = false) →
        reg.after history id = some ⟨epoch, later.filterMap (Entry.noted id)⟩ := by
  have hc := hstart.observed hS hO hrun
  have hkeys : ∀ id, (c.scoreTable id).isSome = true ↔ id ∈ c.members := by
    intro id
    rw [hc.scores, ← hc.members]
    unfold Register.values Register.term
    rw [Option.isSome_map, Option.isSome_map]
  refine ⟨hkeys, fun id hid => ?_, ?_⟩
  · obtain ⟨since, hterm⟩ := Option.isSome_iff_exists.mp ((hc.members id).mpr hid)
    obtain ⟨occupant, hoccupant, rfl⟩ := Option.map_eq_some_iff.mp hterm
    refine ⟨occupant, hoccupant, ?_, fun epoch hepoch => ?_⟩
    · rw [hc.scores]
      unfold Register.values
      rw [hoccupant]
      rfl
    · exact Option.some.inj ((hc.joined id epoch hepoch).symm.trans hterm)
  · rintro before epoch left came later id rfl hcame hlater
    exact reg.after_taken hcame hlater

end

end Conversation

/-! ## A member that is replaced -/

namespace Ideal

/-- Three members from the start, nothing noted. -/
def founders (id : Bytes) : Option (Holder ScoreEvent) :=
  if id ∈ [memberIdOf 0, memberIdOf 1, memberIdOf 2] then some ⟨0, []⟩ else none

theorem founders_tracked : (replacing 100).Tracks founders where
  scores := by
    funext id
    show (marked 100).find? id = (founders id).map (Holder.value _ 100)
    have hempty : (OrderedMap.empty : OrderedMap Bytes Int).find? id = none := rfl
    unfold marked founders
    rw [OrderedMap.find?_insert, OrderedMap.find?_insert, OrderedMap.find?_insert, hempty]
    simp only [List.mem_cons, List.not_mem_nil, or_false]
    split_ifs <;> simp_all [Holder.value]
  members id := by
    have hmembers : (replacing 100).members = [memberIdOf 0, memberIdOf 1, memberIdOf 2] := rfl
    rw [hmembers]
    unfold Register.term founders
    split_ifs with hid
    · exact iff_of_true rfl hid
    · exact iff_of_false (by simp) hid
  joined id epoch h := by
    cases h

end Ideal

/-- The law, for the commit that replaces the second member. -/
theorem occupants_of_replacement : ∃ history c,
    Conversation.Observed (Ideal.replacing 100) history c ∧
      (∀ id, (c.scoreTable id).isSome = true ↔ id ∈ c.members) ∧
      ∀ id ∈ c.members, ∃ occupant, Register.after Ideal.founders history id = some occupant ∧
        c.scoreTable id = some (occupant.notes.foldl (scoreStep c.scoring.scoreDelta)
          c.scoring.config.defaultScore) ∧
        ∀ epoch, c.queues.memberJoinEpoch.find? id = some epoch → epoch = occupant.since := by
  have hmerges : endsWith ((Conversation.finalizeCommitRound true
      (Ideal.replacing 100).selfMemberId : ConvM Ideal.scored _) (Ideal.replacing 100))
        (fun r _ => r.merged.isSome) = true := by
    decide +kernel
  obtain ⟨r, d, hround, hmerged⟩ := exists_of_endsWith hmerges
  obtain ⟨merged, hm⟩ := Option.isSome_iff_exists.mp hmerged
  have hstart : Conversation.Observed (Ideal.replacing 100) [] (Ideal.replacing 100) := .start
  have hrun := hstart.followUp hround hm false none
  obtain ⟨hkeys, htables, _⟩ := Conversation.occupants_followed inMemoryPeerScoreStorage_lawful
    Ideal.followsCommits Ideal.founders_tracked hrun
  exact ⟨_, _, hrun, hkeys, htables⟩

end DeMls
