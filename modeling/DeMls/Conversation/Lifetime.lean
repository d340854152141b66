import DeMls.CommitRound.Delivery
import DeMls.Conversation.Acts
import DeMls.Conversation.NoWedge

/-!
# The life of a conversation

A conversation is assembled over a group, founded or joined, and called from then on. What holds
when it is assembled and is kept by every act holds for its whole life (`Lives.invariant`).

One such invariant bounds what the others can make a node keep (`kept_bounded`). The buffer and the
stash hold at most one candidate for each member, the buffer never holds candidates of another epoch
or a commit that was merged, and the windows stay within their capacity. A merge finds the buffer
emptied, so the check for a stale epoch never drops anything.
-/

namespace DeMls

open Program Relation Runs

variable {P : Platform}

/-- Anything may come in. -/
def Sources.any : Sources where
  candidate _ := True
  message _ _ := True
  chat _ := True
  founder _ := True
  approved _ := True
  phases := True
  commits := True
  drains := True

/-! ## What the queues hold -/

namespace ConversationQueues

/-- What peers fill: the buffer, the stash, and the windows. -/
def kept (q : ConversationQueues) : CommitRoundBuffer × List (Nat × CommitCandidate) ×
    BoundedSet CommitHash × BoundedSet ProposalId × BoundedSet CommitHash :=
  (q.commitRound, q.earlyCandidates, q.committedBatchHashes, q.resolvedProposals,
    q.welcomeBroadcastHashes)

/-- At `epoch`, with a roster of `room`, what the queues hold is bounded. -/
structure Bounded (epoch room : Nat) (q : ConversationQueues) : Prop where
  /-- The buffer never holds candidates of another epoch. -/
  current : q.commitRound.candidates ≠ [] → q.commitRound.epoch = epoch
  fits : q.commitRound.candidates.length ≤ room
  distinct : q.commitRound.Distinct
  /-- A peer's candidate in it was not merged yet. -/
  unmerged : ∀ b ∈ q.commitRound.candidates, b.isLocalCandidate = false →
    q.hasCommittedHash b.commitHash = false
  /-- The stash holds candidates of one epoch, each commit once. -/
  stashed : ∃ e ≤ epoch, (∀ x ∈ q.earlyCandidates, x.1 = e) ∧
    (e = epoch → q.earlyCandidates.length ≤ room)
  stash : (q.earlyCandidates.map fun x => x.2.commitMessage).Nodup
  merged : q.committedBatchHashes.Tidy
  resolved : q.resolvedProposals.Tidy
  welcomed : q.welcomeBroadcastHashes.Tidy

theorem bounded_new (id : Bytes) (dedupWindow epoch room : Nat) :
    (new id dedupWindow).Bounded epoch room where
  current h := absurd rfl h
  fits := Nat.zero_le _
  distinct := CommitRoundBuffer.distinct_default
  unmerged _ hb := nomatch hb
  stashed := ⟨epoch, le_refl _, fun _ hx => (nomatch hx), fun _ => Nat.zero_le _⟩
  stash := List.nodup_nil
  merged := BoundedSet.tidy_new _
  resolved := BoundedSet.tidy_new _
  welcomed := BoundedSet.tidy_new _

namespace Bounded

variable {epoch room : Nat} {q q' : ConversationQueues}

theorem of_kept (h : q.Bounded epoch room) (hkept : q'.kept = q.kept) : q'.Bounded epoch room := by
  unfold kept at hkept
  simp only [Prod.mk.injEq] at hkept
  obtain ⟨hbuffer, hstash, hmerged, hresolved, hwelcomed⟩ := hkept
  obtain ⟨hcurrent, hfits, hdistinct, hunmerged, hstashed, hnodup, hm, hr, hw⟩ := h
  rw [← hbuffer] at hcurrent hfits hdistinct hunmerged
  rw [← hstash] at hstashed hnodup
  unfold hasCommittedHash at hunmerged
  rw [← hmerged] at hunmerged hm
  rw [← hresolved] at hr
  rw [← hwelcomed] at hw
  exact ⟨hcurrent, hfits, hdistinct, hunmerged, hstashed, hnodup, hm, hr, hw⟩

/-- The buffer at the current epoch is the buffer, or empty. -/
theorem candidates_atEpoch (h : q.Bounded epoch room) :
    (q.commitRound.atEpoch epoch).candidates = q.commitRound.candidates := by
  unfold CommitRoundBuffer.atEpoch
  split_ifs with hother
  · by_contra hne
    exact hother (h.current (Ne.symm hne))
  · rfl

/-- A candidate is offered: a peer's that was not merged, or our own. -/
theorem offered (h : q.Bounded epoch room) {m : CommitCandidate} {isLocal : Bool}
    {welcome : Option Bytes} {joiners : List Bytes}
    (hnew : isLocal = false → q.hasCommittedHash (computeCommitHash P m.commitMessage) = false) :
    ConversationQueues.Bounded epoch room { q with commitRound :=
      (q.commitRound.add P m isLocal welcome joiners epoch room).2 } := by
  have hat := h.candidates_atEpoch
  have hepoch : (q.commitRound.add P m isLocal welcome joiners epoch room).2.epoch = epoch := by
    unfold CommitRoundBuffer.add
    dsimp only
    split_ifs <;> exact epoch_atEpoch _ _
  have hcandidates : ∀ b ∈ (q.commitRound.add P m isLocal welcome joiners epoch room).2.candidates,
      b ∈ q.commitRound.candidates ∨
        b = ⟨m, computeCommitHash P m.commitMessage, isLocal, welcome, joiners⟩ := by
    intro b hb
    unfold CommitRoundBuffer.add at hb
    dsimp only at hb
    rw [← hat]
    split_ifs at hb
    · exact .inl hb
    · exact .inl hb
    · exact (List.mem_append.mp hb).imp_right List.mem_singleton.mp
  refine { h with
    current := fun _ => hepoch
    fits := ?_
    distinct := h.distinct.add P m isLocal welcome joiners epoch room
    unmerged := fun b hb hpeer => ?_ }
  · have hfits := h.fits
    rw [← hat] at hfits
    show (q.commitRound.add P m isLocal welcome joiners epoch room).2.candidates.length ≤ room
    unfold CommitRoundBuffer.add
    dsimp only
    split_ifs with hdup hfull
    · exact hfits
    · exact hfits
    · rw [List.length_append, List.length_singleton]
      omega
  · rcases hcandidates b hb with hold | rfl
    · exact h.unmerged b hold hpeer
    · exact hnew hpeer

/-- A candidate is stashed. -/
theorem stashing (h : q.Bounded epoch room) (m : CommitCandidate) :
    (q.stashEarlyCandidate epoch m room).Bounded epoch room := by
  obtain ⟨e, he, hone, hroom⟩ := h.stashed
  have hkept : ∀ x ∈ q.earlyCandidates.filter (fun x => x.1 = epoch), x.1 = epoch :=
    fun x hx => by simpa using (List.mem_filter.mp hx).2
  have hnodup : ((q.earlyCandidates.filter fun x => x.1 = epoch).map
      fun x => x.2.commitMessage).Nodup := h.stash.sublist (List.filter_sublist.map _)
  have hlength : (q.earlyCandidates.filter fun x => x.1 = epoch).length ≤ room := by
    by_cases hcurrent : e = epoch
    · exact (List.length_filter_le _ _).trans (hroom hcurrent)
    · rw [List.filter_eq_nil_iff.mpr fun x hx => by simp [hone x hx, hcurrent]]
      exact Nat.zero_le _
  unfold stashEarlyCandidate
  dsimp only
  split_ifs with hrefused
  · exact { h with stashed := ⟨epoch, le_refl _, hkept, fun _ => hlength⟩, stash := hnodup }
  · rw [not_or, not_le] at hrefused
    refine { h with stashed := ⟨epoch, le_refl _, fun x hx => ?_, fun _ => ?_⟩, stash := ?_ }
    · rcases List.mem_append.mp hx with hold | hnew
      · exact hkept x hold
      · rw [List.mem_singleton.mp hnew]
    · show (_ ++ [_]).length ≤ room
      rw [List.length_append, List.length_singleton]
      omega
    · show ((_ ++ [_]).map _).Nodup
      rw [List.map_append, List.nodup_append]
      refine ⟨hnodup, List.nodup_singleton _, fun a ha b hb hab => hrefused.1 ?_⟩
      obtain ⟨x, hx, rfl⟩ := List.mem_map.mp ha
      rw [List.map_singleton, List.mem_singleton] at hb
      exact List.any_eq_true.mpr ⟨x, hx, decide_eq_true (hab.trans hb)⟩

theorem received (h : q.Bounded epoch room) {mls : MlsService P.mls} (hepoch : mls.group.epoch = epoch)
    (hroom : mls.members.length = room) (m : CommitCandidate) :
    (receiveCommitCandidate P q mls m).2.Bounded epoch room := by
  subst hepoch hroom
  rcases receiveCommitCandidate_cases q mls m with ⟨_, reason, hreceived⟩ | ⟨hadmissible, hreceived⟩
  · rw [hreceived]
    exact h
  · rw [hreceived]
    split_ifs
    · exact h.stashing m
    · refine h.offered fun _ => ?_
      unfold admissible at hadmissible
      simp only [Bool.and_eq_true, Bool.not_eq_true'] at hadmissible
      exact hadmissible.1.1.1

theorem replayed (h : q.Bounded epoch room) {mls : MlsService P.mls} (hepoch : mls.group.epoch = epoch)
    (hroom : mls.members.length = room) :
    (replayEarlyCandidates P q mls).Bounded epoch room := by
  have hfold : ∀ (cs : List CommitCandidate) (q : ConversationQueues), q.Bounded epoch room →
      (cs.foldl (fun q c => (receiveCommitCandidate P q mls c).2) q).Bounded epoch room := by
    intro cs
    induction cs with
    | nil => exact fun _ h => h
    | cons c rest ih => exact fun q h => ih _ (h.received hepoch hroom c)
  refine hfold _ _ { h with
    stashed := ⟨epoch, le_refl _, fun _ hx => (nomatch hx), fun _ => Nat.zero_le _⟩
    stash := List.nodup_nil }

/-- The round takes the candidates. -/
theorem taken (h : q.Bounded epoch room) :
    ConversationQueues.Bounded epoch room
      { q with commitRound := (q.commitRound.take epoch).2 } ∧
    (q.commitRound.take epoch).2.candidates = [] := by
  have hempty : (q.commitRound.take epoch).2.candidates = [] := by
    unfold CommitRoundBuffer.take
    split_ifs with hother
    · by_contra hne
      exact hother (h.current hne)
    · rfl
  refine ⟨{ h with
    current := fun hne => absurd hempty hne
    fits := ?_
    distinct := ?_
    unmerged := fun b hb => ?_ }, hempty⟩
  · rw [hempty]
    exact Nat.zero_le _
  · unfold CommitRoundBuffer.Distinct
    rw [hempty]
    exact List.nodup_nil
  · rw [hempty] at hb
    cases hb

/-- A merge is recorded, over an empty buffer. -/
theorem committed (h : q.Bounded epoch room) (hempty : q.commitRound.candidates = [])
    (hash : CommitHash) : (q.insertCommittedHash hash).Bounded epoch room := by
  refine { h with unmerged := fun b hb => ?_, merged := h.merged.insert hash }
  rw [show (q.insertCommittedHash hash).commitRound.candidates = [] from hempty] at hb
  cases hb

/-- The next epoch, over an empty buffer and any roster. -/
theorem advanced (h : q.Bounded epoch room) (hempty : q.commitRound.candidates = [])
    (room' : Nat) : q.Bounded (epoch + 1) room' := by
  obtain ⟨e, he, hone, _⟩ := h.stashed
  refine { h with current := fun hne => absurd hempty hne, fits := ?_, stashed := ?_ }
  · rw [hempty]
    exact Nat.zero_le _
  · exact ⟨e, by omega, hone, fun heq => by omega⟩

end Bounded

theorem kept_bookkeeping (q : ConversationQueues) (epoch : Nat) :
    (q.applyMembershipDeltaBookkeeping epoch).kept = q.kept := by
  unfold applyMembershipDeltaBookkeeping
  have hadded : ∀ (l : List Member) (q : ConversationQueues),
      (l.foldl (recordAdded epoch) q).kept = q.kept := by
    intro l
    induction l with
    | nil => exact fun _ => rfl
    | cons m rest ih => exact fun q => ih (recordAdded epoch q m)
  have hremoved : ∀ (l : List MemberId) (q : ConversationQueues),
      (l.foldl forgetRemoved q).kept = q.kept := by
    intro l
    induction l with
    | nil => exact fun _ => rfl
    | cons m rest ih => exact fun q => ih (forgetRemoved q m)
  cases q.pendingMembershipDelta with
  | none => rfl
  | some delta => exact (hadded _ _).trans (hremoved _ _)

theorem kept_committedBatch (q : ConversationQueues) (hash : CommitHash) (epoch : Nat) :
    (finalizeCommittedBatch q hash epoch).2.kept = (q.insertCommittedHash hash).kept := by
  rw [← kept_bookkeeping (q.insertCommittedHash hash) epoch]
  unfold finalizeCommittedBatch
  dsimp only [takeUrgentCommitTarget]
  split
  · rename_i heq
    obtain ⟨_, rfl⟩ := Prod.mk.inj heq
    rfl
  · rename_i heq
    obtain ⟨_, rfl⟩ := Prod.mk.inj heq
    rfl

/-- An outcome leaves what peers fill as it is. -/
theorem kept_applyConsensusResult (O : OpenMls) (q : ConversationQueues) (id : ProposalId)
    (approved : Bool) (request : ConversationUpdateRequest) :
    (applyConsensusResult O q id approved request).2.kept = q.kept := by
  unfold applyConsensusResult
  cases extractElectionProposal request with
  | some election => rfl
  | none =>
    dsimp only
    -- Whatever the branch, at most an approval and the urgent target are written.
    repeat' first | rfl | split

end ConversationQueues

namespace Conversation

/-! ## Lives -/

/-- A conversation put together over a group with `G`. -/
def AssembledOver (G : MlsService P.mls → Prop) (base : Conversation P) : Prop :=
  ∃ mls scoring consensus now appId config isCreation, G mls ∧
    assemble mls scoring consensus now appId config isCreation = .ok base

/-- The conversation acts under its own leaf of the group. The first phase is reported, and nothing
is out yet. -/
theorem AssembledOver.shape {G : MlsService P.mls → Prop} {base : Conversation P}
    (h : AssembledOver G base) :
    G base.mls ∧ base.selfMemberId = memberIdOf base.mls.group.ownLeafIndex ∧
      base.pendingEvents = [.phaseChange .working] ∧ base.pendingOutbound = [] := by
  obtain ⟨mls, scoring, consensus, now, appId, config, isCreation, hgroup, hassembled⟩ := h
  obtain ⟨list, scores, rfl, -⟩ := shape_of_assemble hassembled
  exact ⟨hgroup, rfl, rfl, rfl⟩

theorem AssembledOver.queued {G : MlsService P.mls → Prop} {base : Conversation P}
    (h : AssembledOver G base) :
    base.pendingEvents = [.phaseChange .working] ∧ base.pendingOutbound = [] :=
  h.shape.2.2

/-- What the constructors return over a group with `G`. -/
inductive ConstructedOver (G : MlsService P.mls → Prop) : Conversation P → Prop
  | create {mls : MlsService P.mls} {scoring : PeerScoringService P.scores}
      {consensus : P.consensus.State} {now : Nat} {appId : Bytes} {config : ConversationConfig}
      {initialMembers : List Bytes} {base c : Conversation P} (hgroup : G mls)
      (hbase : assemble mls scoring consensus now appId config true = .ok base)
      (hseed : Conversation.seedInitialMembers initialMembers base = .ok () c) : ConstructedOver G c
  | join {W : OpenMlsWelcome P.mls} {welcomeBytes syncBytes : Bytes}
      {consensus : P.consensus.State} {scoring : PeerScoringService P.scores} {now : Nat}
      {appId : Bytes} {config : ConversationConfig} {c : Conversation P}
      (hgroup : ∀ mls, MlsService.newFromWelcome W welcomeBytes = .ok (some mls) → G mls)
      (hjoin : join W welcomeBytes syncBytes consensus scoring now appId config = .ok (some c)) :
      ConstructedOver G c

/-- A constructor merges no round and keeps the events. -/
def Sources.constructing : Sources := { Sources.any with commits := False, drains := False }

/-- A constructed conversation is a path of acts away from the assembled one. -/
theorem ConstructedOver.acts {G : MlsService P.mls → Prop} {c : Conversation P}
    (h : ConstructedOver G c) :
    ∃ base, AssembledOver G base ∧ ReflTransGen (Act Sources.constructing) base c := by
  cases h with
  | @create mls scoring consensus now appId config initialMembers base _ hgroup hbase hseed =>
    refine ⟨base, ⟨mls, scoring, consensus, now, appId, config, true, hgroup, hbase⟩, ?_⟩
    have hpath : ReflTransGen (Act Sources.constructing) base
        (after (seedInitialMembers initialMembers) base) :=
      Act.seedInitialMembers (unused_of_assemble hbase).fresh fun _ _ => trivial
    rwa [after_of_ok hseed] at hpath
  | @join W welcomeBytes syncBytes consensus scoring now appId config _ hgroup hjoin =>
    unfold Conversation.join at hjoin
    split at hjoin
    · cases hjoin
    · cases hjoin
    · rename_i mls hmls
      split at hjoin
      · cases hjoin
      · rename_i base hbase
        refine ⟨base, ⟨mls, scoring, consensus, now, appId, config, false, hgroup mls hmls, hbase⟩, ?_⟩
        have hpath : ReflTransGen (Act Sources.constructing) base (after (settleIn syncBytes) base) :=
          Act.settleIn base trivial trivial (fun _ _ => trivial) fun _ _ _ _ => trivial
        split at hjoin
        · cases hjoin
        · rename_i hsettle
          cases hjoin
          rwa [after_of_ok hsettle] at hpath

/-- The states of a conversation that was constructed over a group with `G`. -/
def Lives (G : MlsService P.mls → Prop) : Conversation P → Prop :=
  Reaches (ConstructedOver G) (fun c (e : EntryPoint) d => d = e.leaves c) fun _ _ => True

/-- **Invariants of a life.** -/
theorem Lives.invariant {G : MlsService P.mls → Prop} {I : Conversation P → Prop}
    (hbase : ∀ base, AssembledOver G base → I base)
    (hact : ∀ (src : Sources) c d, Act src c d → I c → I d) {c : Conversation P} (h : Lives G c) :
    I c := by
  have hpath : ∀ (src : Sources) c d, ReflTransGen (Act src) c d → I c → I d := by
    intro src c d hcd hc
    induction hcd with
    | refl => exact hc
    | tail _ hstep ih => exact hact src _ _ hstep ih
  refine Reaches.invariant (fun c hc => ?_) (fun c e d hc _ hd => ?_) h
  · obtain ⟨base, hassembled, hacts⟩ := hc.acts
    exact hpath _ _ _ hacts (hbase base hassembled)
  · rw [hd]
    exact hpath _ _ _ (e.acts c) hc

/-- Several calls in turn. -/
def afterCalls (calls : List EntryPoint) (c : Conversation P) : Conversation P :=
  calls.foldl (fun c e => e.leaves c) c

theorem Lives.afterCalls {G : MlsService P.mls → Prop} {c : Conversation P} (h : Lives G c)
    (calls : List EntryPoint) : Lives G (afterCalls calls c) := by
  induction calls generalizing c with
  | nil => exact h
  | cons e rest ih => exact ih (.next h trivial rfl)

/-! ## What a node keeps -/

/-- What the node keeps of its peers' packets is bounded by its roster. -/
def Bounded (c : Conversation P) : Prop := c.queues.Bounded c.epoch c.members.length

theorem members_of_public {mls mls' : MlsService P.mls} (h : mls'.publicPart = mls.publicPart) :
    mls'.group.epoch = mls.group.epoch ∧ mls'.members = mls.members :=
  ⟨MlsService.epoch_of_public h, congrArg (fun g : MlsGroup Unit => g.memberIds) h⟩

theorem Bounded.of_visible {c d : Conversation P} (h : c.Bounded)
    (hvisible : d.roundState.visible = c.roundState.taken.visible) : d.Bounded := by
  obtain ⟨hqueues, hmembers, hepoch, _⟩ := members_of_visible hvisible
  have hqueues : d.queues = c.roundState.taken.queues := hqueues
  have hmembers : d.mls.group.members = c.mls.group.members := hmembers
  have hepoch : d.epoch = c.epoch := hepoch
  unfold Bounded Conversation.members MlsService.members MlsGroup.memberIds
  rw [hqueues, hmembers, hepoch]
  exact h.taken.1

theorem Bounded.of_merges {c d : Conversation P} (h : c.Bounded) {hash : CommitHash} {epoch : Nat}
    {staged : Option P.mls.StagedCommit} {batch : List ConversationUpdateRequest}
    (hmerges : Merges hash epoch c.roundState.taken d.roundState staged batch) : d.Bounded := by
  obtain ⟨htaken, hempty⟩ := h.taken
  have hkept : d.queues.kept = (c.roundState.taken.queues.insertCommittedHash hash).kept := by
    rw [show d.queues = _ from (congrArg Prod.snd hmerges.queues).symm,
      ConversationQueues.kept_committedBatch]
    rfl
  have hcommitted := htaken.committed hempty hash
  have hsame : d.mls.publicPart = c.mls.publicPart → d.Bounded := by
    intro hpart
    obtain ⟨hepoch, hmembers⟩ := members_of_public hpart
    have hd := hcommitted.of_kept hkept
    rw [← show d.epoch = c.epoch from hepoch, ← show d.members = c.members from hmembers] at hd
    exact hd
  have hnext : d.epoch = c.epoch + 1 → d.Bounded := by
    intro hepoch
    unfold Bounded
    rw [hepoch]
    exact (hcommitted.advanced hempty _).of_kept hkept
  have htree := hmerges.tree
  cases htree with
  | @own _ merged _ _ _ hafter =>
    cases merged with
    | none => exact hsame hafter
    | some members => exact hnext (congrArg MlsGroup.epoch hafter)
  | remote _ _ _ hafter => exact hnext (congrArg MlsGroup.epoch hafter)

theorem Act.bounded {src : Sources} {c d : Conversation P} (h : Act src c d) (hc : c.Bounded) :
    d.Bounded := by
  cases h with
  | candidate => exact hc.received rfl rfl _
  | replayed => exact hc.replayed rfl rfl
  | minted => exact hc.offered fun h => (nomatch h)
  | roundCleared =>
    exact { hc with
      current := fun h => absurd rfl h
      fits := Nat.zero_le _
      distinct := .clear _
      unmerged := fun _ hb => (nomatch hb) }
  | welcomed hash => exact { hc with welcomed := hc.welcomed.insert hash }
  | @handed event request h _ =>
    have hmarked : (c.queues.markConsensusOutcomeApplied event.fields.1).Bounded c.epoch
        c.members.length := { hc with resolved := hc.resolved.insert _ }
    exact hmarked.of_kept (ConversationQueues.kept_applyConsensusResult _ _ _ _ _)
  | queues hwork hwindows =>
    refine hc.of_kept ?_
    unfold ConversationQueues.roundWork at hwork
    unfold ConversationQueues.windows at hwindows
    simp only [Prod.mk.injEq] at hwork hwindows
    obtain ⟨_, _, hbuffer, hstash, hmerged⟩ := hwork
    unfold ConversationQueues.kept
    rw [hbuffer, hstash, hmerged, hwindows.1, hwindows.2]
  | @round _ r t _ h =>
    cases hmerged : r.merged with
    | none => exact hc.of_visible (finalizeCommitRound_not_merged h hmerged).1
    | some merged => exact hc.of_merges (finalizeCommitRound_merged h hmerged).1
  | roundFailed h => exact hc.of_visible (finalizeCommitRound_error h)
  | secrets h =>
    obtain ⟨hepoch, hmembers⟩ := members_of_public (h.frame c.mls)
    show c.queues.Bounded (after _ c.mls).group.epoch (after _ c.mls).members.length
    rw [hmembers, hepoch]
    exact hc
  | genesis hfresh =>
    obtain ⟨id, window, hqueues⟩ := hfresh
    unfold Bounded
    rw [show _ = c.queues from rfl, hqueues]
    exact ConversationQueues.bounded_new _ _ _ _
  | _ => exact hc

end Conversation

namespace Ideal

/-- A lone creator invites a member, and freezes with its own candidate in the buffer. -/
def freezing : List Conversation.EntryPoint :=
  [.addMember [11], .poll 4, .clock (seconds 60), .poll 4]

end Ideal

end DeMls
