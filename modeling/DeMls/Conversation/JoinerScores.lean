import DeMls.Conversation.AfterCommit
import DeMls.Conversation.Joining
import DeMls.Conversation.StewardSeats

/-!
# The scores a joiner starts with

A committer builds the bootstrap of its joiners after the merge and before it reconciles its own
scores. `joiner_scores_iff` compares the table a joiner ends up with to the one the committer has
then: they agree when no leaf that changed hands carries a score off the default.
-/

namespace DeMls

open Program PeerScoringService

namespace Conversation

variable {P : Platform}

/-! ## The bootstrap of a welcome -/

/-- The sync that goes out with a welcome, and its payload. -/
def Bootstraps (c : Conversation P) (payload : Bytes) (sync : ConversationSync) : Prop :=
  ∃ reconciled d d', (reconcileStewardList : ConvM P _) c = .ok reconciled d ∧
    (buildConversationSyncPayload : ConvM P _) d = .ok (some payload) d' ∧
    d.Sends sync ∧ d.Encrypts payload sync

/-- The welcome is handed out with this payload. -/
theorem Bootstraps.handed {c : Conversation P} {payload : Bytes} {sync : ConversationSync}
    (h : c.Bootstraps payload sync) (welcome : MemberWelcome) :
    ∃ d, (deliverWelcome welcome : ConvM P Unit) c = .ok () d ∧
      .welcomeReady { welcome with conversationSyncBytes := payload } true ∈ d.pendingEvents := by
  obtain ⟨reconciled, d, d', hreconcile, hbuild, _, _⟩ := h
  have hlist : (attempt reconcileStewardList : ConvM P (Except ConversationError _)) c =
      .ok (.ok reconciled) d := (attempt_ok _ _ _ _).mpr (.inl ⟨_, rfl, hreconcile⟩)
  have hsync : (attempt buildConversationSyncPayload :
      ConvM P (Except ConversationError (Option Bytes))) d = .ok (.ok (some payload)) d' :=
    (attempt_ok _ _ _ _).mpr (.inl ⟨_, rfl, hbuild⟩)
  unfold deliverWelcome
  rw [bind_run _ hlist]
  dsimp only
  rw [bind_run _ hsync]
  refine ⟨_, rfl, ?_⟩
  exact List.mem_append_right _ (List.mem_singleton_self _)

/-- The group of a joiner reads this sync in the payload. -/
def ReadsSync (mls : MlsService P.mls) (payload : Bytes) (sync : ConversationSync) : Prop :=
  payload ≠ [] ∧ isPlaintext P payload = false ∧ ∃ bytes member mls',
    MlsService.decryptApplicationOnly payload mls = .ok (some ⟨bytes, member⟩) mls' ∧
      P.codec.decodeApp bytes = .ok ⟨some (.conversationSync sync)⟩

/-! ## Tables -/

/-- No score off the default. -/
def Unmarked (table : Bytes → Option Int) (defaultScore : Int) (id : Bytes) : Prop :=
  ∀ score, table id = some score → score = defaultScore

theorem exists_mark {table : Bytes → Option Int} {defaultScore : Int} {id : Bytes}
    (h : ¬ Unmarked table defaultScore id) :
    ∃ score, table id = some score ∧ score ≠ defaultScore := by
  unfold Unmarked at h
  push Not at h
  exact h

/-- A table that tracks a roster, with the scores it had. -/
def seeded (own : Bytes → Option Int) (ownDefault : Int) (roster : List Bytes) (id : Bytes) :
    Option Int :=
  if id ∈ roster then some ((own id).getD ownDefault) else none

/-- The table of a joiner that tracks its roster and takes over what its committer has marked. -/
def takenOver (table own : Bytes → Option Int) (defaultScore ownDefault : Int)
    (roster : List Bytes) (id : Bytes) : Option Int :=
  ((table id).filter (· ≠ defaultScore)).or
    (rebased ownDefault defaultScore (seeded own ownDefault roster) id)

section
variable {table own : Bytes → Option Int} {defaultScore ownDefault : Int} {roster : List Bytes}
  {id : Bytes}

theorem takenOver_marked {score : Int} (h : table id = some score) (hscore : score ≠ defaultScore) :
    takenOver table own defaultScore ownDefault roster id = some score := by
  unfold takenOver
  rw [h, Option.filter_some, if_pos (by simpa using hscore)]
  rfl

theorem takenOver_unmarked (h : Unmarked table defaultScore id) :
    takenOver table own defaultScore ownDefault roster id =
      rebased ownDefault defaultScore (seeded own ownDefault roster) id := by
  have hnone : (table id).filter (· ≠ defaultScore) = none := by
    rw [Option.filter_eq_none_iff]
    intro score hscore
    simpa using h score hscore
  unfold takenOver
  rw [hnone]
  rfl

/-- A member without a mark starts at the default when its joiner has no score of its own for it,
or one of the two defaults. -/
theorem takenOver_member_iff (h : Unmarked table defaultScore id) (hid : id ∈ roster) :
    takenOver table own defaultScore ownDefault roster id = some defaultScore ↔
      ∀ score, own id = some score → score = ownDefault ∨ score = defaultScore := by
  rw [takenOver_unmarked h]
  unfold rebased seeded
  rw [if_pos hid]
  cases own id with
  | none => simp
  | some score => by_cases hscore : score = ownDefault <;> simp [hscore]

theorem takenOver_stranger (h : Unmarked table defaultScore id) (hid : id ∉ roster) :
    takenOver table own defaultScore ownDefault roster id = none := by
  rw [takenOver_unmarked h]
  unfold rebased seeded
  rw [if_neg hid]
  rfl

end

/-- **The two tables.** A committer forgets who left, starts who came at the default and keeps the
rest; a joiner takes the marks over from before that. They end up with the same scores, for the
roster, when nobody who came or left is marked, the others are the roster, and the joiner brings no
marks of its own. -/
theorem tables_agree_iff {table own : Bytes → Option Int} {defaultScore ownDefault : Int}
    {roster : List Bytes} {came left : Bytes → Prop} [DecidablePred came] [DecidablePred left]
    {joiner committer : Bytes → Option Int}
    (hjoiner : ∀ id, joiner id = takenOver table own defaultScore ownDefault roster id)
    (hcommitter : ∀ id, committer id =
      if came id then some defaultScore else if left id then none else table id)
    (hcame : ∀ id, came id → id ∈ roster) (hleft : ∀ id, left id → id ∈ roster → came id) :
    ((∀ id, joiner id = committer id) ∧ ∀ id, (committer id).isSome = true ↔ id ∈ roster) ↔
      (∀ id, came id ∨ left id → Unmarked table defaultScore id) ∧
      (∀ id, ¬ (came id ∨ left id) → ((table id).isSome = true ↔ id ∈ roster)) ∧
      ∀ id ∈ roster, Unmarked table defaultScore id →
        ∀ score, own id = some score → score = ownDefault ∨ score = defaultScore := by
  constructor
  · rintro ⟨hagree, hkeys⟩
    refine ⟨?_, ?_, ?_⟩
    · intro id hturned
      by_contra hid
      obtain ⟨score, hscore, hne⟩ := exists_mark hid
      have hboth := hagree id
      rw [hjoiner, takenOver_marked hscore hne, hcommitter] at hboth
      split_ifs at hboth with h₁ h₂
      · cases hboth
        exact hne rfl
      · exact hturned.elim h₁ h₂
    · intro id hkept
      obtain ⟨h₁, h₂⟩ := not_or.mp hkept
      rw [← hkeys id, hcommitter, if_neg h₁, if_neg h₂]
    · intro id hid hunmarked
      rw [← takenOver_member_iff hunmarked hid, ← hjoiner, hagree, hcommitter]
      split_ifs with h₁ h₂
      · rfl
      · exact absurd (hleft id h₂ hid) h₁
      · have hkey := (hkeys id).mpr hid
        rw [hcommitter, if_neg h₁, if_neg h₂] at hkey
        obtain ⟨score, hscore⟩ := Option.isSome_iff_exists.mp hkey
        rw [hscore, hunmarked score hscore]
  · rintro ⟨hturned, hkept, hown⟩
    have hroster : ∀ id, (committer id).isSome = true ↔ id ∈ roster := by
      intro id
      rw [hcommitter]
      split_ifs with h₁ h₂
      · exact iff_of_true rfl (hcame id h₁)
      · exact iff_of_false (by simp) fun hid => h₁ (hleft id h₂ hid)
      · exact hkept id (not_or.mpr ⟨h₁, h₂⟩)
    refine ⟨fun id => ?_, hroster⟩
    by_cases hunmarked : Unmarked table defaultScore id
    · by_cases hid : id ∈ roster
      · rw [hjoiner, (takenOver_member_iff hunmarked hid).mpr (hown id hid hunmarked)]
        obtain ⟨score, hscore⟩ := Option.isSome_iff_exists.mp ((hroster id).mpr hid)
        rw [hcommitter] at hscore ⊢
        split_ifs at hscore ⊢ with h₁ h₂
        · rfl
        · rw [hscore, hunmarked score hscore]
      · rw [hjoiner, takenOver_stranger hunmarked hid]
        exact (Option.not_isSome_iff_eq_none.mp fun h => hid ((hroster id).mp h)).symm
    · obtain ⟨score, hscore, hne⟩ := exists_mark hunmarked
      have hstays : ¬ (came id ∨ left id) := fun h => hunmarked (hturned id h)
      obtain ⟨h₁, h₂⟩ := not_or.mp hstays
      rw [hjoiner, takenOver_marked hscore hne, hcommitter, if_neg h₁, if_neg h₂, hscore]

/-! ## The joiner -/

section
variable {mls : MlsService P.mls} {scoring : PeerScoringService P.scores}
  {consensus : P.consensus.State} {now : Nat} {config : ConversationConfig}

/-- Whoever joined with a sync that passed its checks has tracked its roster and taken over the
scores of the sync. -/
theorem joined_table (hS : P.scores.Lawful) {W : OpenMlsWelcome P.mls}
    {welcomeBytes payload appId : Bytes} {sync : ConversationSync} {j : Conversation P}
    (hopens : MlsService.newFromWelcome W welcomeBytes = .ok (some mls))
    (hread : ReadsSync (introduced mls) payload sync)
    (haccepted : validateConversationSync P mls.conversationId sync mls.group.epoch mls.members =
      .ok true)
    (hjoin : join W welcomeBytes payload consensus scoring now appId config = .ok (some j)) :
    j.scoreTable = written (sync.peerScores.map fun ps => (ps.memberId, ps.score))
      (rebased scoring.config.defaultScore (syncedDefaultPeerScore sync)
        (seeded scoring.table scoring.config.defaultScore mls.members)) := by
  obtain ⟨c, d, hc, hjoined, hsync⟩ := join_ok hopens hjoin
  obtain ⟨s, htracked, htable, hparameters⟩ := syncMembers_run hS mls.members scoring
  obtain ⟨announced, rfl⟩ := hc.onJoined_ok htracked hjoined
  obtain ⟨hpayload, hcipher, bytes, member, mls', hdecrypt, hdecode⟩ := hread
  let d : Conversation P := { c with
    mls := introduced mls
    scoring := s
    pendingOutbound := c.pendingOutbound ++ [⟨c.conversationId, c.appId, announced⟩] }
  obtain ⟨mls'', hpublic, hdecoded⟩ :=
    decodeInbound_opens (c := d) ⟨hcipher, bytes, mls', hdecrypt, hdecode⟩
  have hpublic : mls''.publicPart = mls.publicPart := hpublic.trans (introduced_publicPart mls)
  let d' : Conversation P := { d with mls := mls'' }
  have htakes : d'.Takes sync := by
    constructor
    · rintro ⟨mine, hmine, _⟩
      have hnone : d'.stewardList.list = none := by
        show c.stewardList.list = none
        rw [hc.list]
      cases hnone.symm.trans hmine
    · show validateConversationSync P c.conversationId sync mls''.group.epoch mls''.members = _
      rw [hc.conversation, MlsService.epoch_of_public hpublic, MlsService.members_of_public hpublic]
      exact haccepted
  obtain ⟨e, hadopt, he⟩ := adoptScores_run hS sync (d'.answeredSync.seated sync)
  obtain ⟨f, hrun, hf⟩ : ∃ f, (onConversationSync sync : ConvM P Unit) d' = .ok () f ∧
      f.scoreTable = e.scoreTable :=
    ⟨_, (onConversationSync_takes htakes).trans (bind_run _ hadopt), rfl⟩
  have hdispatch : (dispatchInboundResult (.conversationSyncReceived sync) :
      ConvM P DispatchOutcome) d' = .ok .done f := bind_run _ hrun
  have hclassified : classifyAppMessage mls'' ⟨some (.conversationSync sync)⟩ member =
    .conversationSyncReceived sync := rfl
  unfold applyWelcomeSync at hsync
  rw [if_neg hpayload, bind_run _ hdecoded, hclassified, bind_run _ hdispatch] at hsync
  cases hsync
  have hseeded : (d'.answeredSync.seated sync).scoreTable =
      seeded scoring.table scoring.config.defaultScore mls.members := funext htable
  have hdefault : (d'.answeredSync.seated sync).scoring.config = scoring.config :=
    congrArg Prod.snd hparameters
  rw [hf, he, hseeded, hdefault]

end

/-! ## The committer -/

/-- The committer once it has handed out the welcome and reconciled its membership. -/
def followed (welcome : MemberWelcome) (c : Conversation P) : Conversation P :=
  after reconcileMembershipAfterCommit (after (handOver (some welcome)) c)

/-- A commit seats somebody anew on this leaf, or vacates it. -/
def Turns (c : Conversation P) (merged : MergedCommit P.mls) (roster : List Member) (id : Bytes) :
    Prop :=
  (∃ m ∈ roster, c.SeatsAnew merged m.index ∧ memberIdOf m.index = id) ∨
    ∃ v ∈ vacatedBy P.mls c.mls.group merged.staged, memberIdOf v.leaf = id

instance (c : Conversation P) (merged : MergedCommit P.mls) (roster : List Member) (id : Bytes) :
    Decidable (c.Turns merged roster id) :=
  inferInstanceAs (Decidable (_ ∨ _))

/-- What a joiner can build on, after a commit on `c` that leaves its committer in `e`: no leaf that
changes hands has a score off the default, the others have a score when they have a member, and the
joiner brings no scores but the two defaults. -/
structure CleanHandover (c : Conversation P) (merged : MergedCommit P.mls) (e : Conversation P)
    (joiner : PeerScoringService P.scores) : Prop where
  turned : ∀ id, c.Turns merged e.mls.group.members id →
    Unmarked e.scoreTable e.scoring.config.defaultScore id
  kept : ∀ id, ¬ c.Turns merged e.mls.group.members id →
    ((e.scoreTable id).isSome = true ↔ id ∈ e.members)
  fresh : ∀ id ∈ e.members, Unmarked e.scoreTable e.scoring.config.defaultScore id →
    ∀ score, joiner.table id = some score →
      score = joiner.config.defaultScore ∨ score = e.scoring.config.defaultScore

section
variable {c d e : Conversation P} {r : CommitRoundResult P.mls} {merged : MergedCommit P.mls}
  {allowSubset inRecovery : Bool}

/-- A vacated leaf that has a member again has a new one. -/
theorem seatsAnew_of_vacated {v : MemberId}
    (hv : v ∈ vacatedBy P.mls c.mls.group merged.staged) : c.SeatsAnew merged v.leaf :=
  .inr (List.mem_map_of_mem hv)

section
variable (hS : P.scores.Lawful)
include hS

/-- The state that hands the welcome out: the scores of the round are in, the delta is not. -/
theorem rewarded_records (hround : finalizeCommitRound allowSubset c.selfMemberId c = .ok r d)
    (hm : r.merged = some merged) (hreward : (reward inRecovery r : ConvM P Unit) d = .ok () e) :
    e.scoring.config = c.scoring.config ∧ e.mls.publicPart = d.mls.publicPart ∧
      e.queues.pendingMembershipDelta = some (c.commitDelta merged d) := by
  obtain ⟨hscoring, hmerges⟩ := round_merges hround hm
  obtain ⟨_, hparameters, hrecords⟩ := reward_run hS inRecovery r d
  rw [after_of_ok hreward] at hparameters hrecords
  refine ⟨?_, congrArg (fun r => r.2.2) hrecords,
    (congrArg (fun r => r.2.1) hrecords).trans hmerges.membershipDelta⟩
  rw [← hscoring]
  exact congrArg Prod.snd hparameters

/-- **The committer** keeps the scores of the leaves that did not change hands, and starts the
newcomers at the default. -/
theorem followed_table (hround : finalizeCommitRound allowSubset c.selfMemberId c = .ok r d)
    (hm : r.merged = some merged) (hreward : (reward inRecovery r : ConvM P Unit) d = .ok () e)
    (welcome : MemberWelcome) (id : Bytes) :
    (followed welcome e).scoreTable id =
      if ∃ m ∈ e.mls.group.members, c.SeatsAnew merged m.index ∧ memberIdOf m.index = id then
        some e.scoring.config.defaultScore
      else if ∃ v ∈ vacatedBy P.mls c.mls.group merged.staged, memberIdOf v.leaf = id then none
      else e.scoreTable id := by
  obtain ⟨_, hpublic, hdelta⟩ := rewarded_records hS hround hm hreward
  obtain ⟨hscoring, hrecords⟩ := Prod.mk.inj (tenure_handOver (some welcome) e)
  obtain ⟨f, hrun, htable, _⟩ := reconcileMembership_run hS
    ((congrArg (fun r => r.2.1) hrecords).trans hdelta)
  have hcame := mem_added_iff c merged d id
  rw [← members_of_publicPart hpublic] at hcame
  have hhanded : (after (handOver (some welcome)) e).scoreTable = e.scoreTable :=
    congrArg PeerScoringService.table hscoring
  unfold followed
  rw [after_of_ok hrun, htable, hhanded, hscoring]
  exact if_congr hcame rfl (if_congr (mem_removed_iff c merged d id) rfl rfl)

/-- On its way back to work the committer passes through the state it is compared in. -/
theorem finishRound_followed (hround : finalizeCommitRound allowSubset c.selfMemberId c = .ok r d)
    (hm : r.merged = some merged) (hreward : (reward inRecovery r : ConvM P Unit) d = .ok () e)
    {welcome : MemberWelcome} (houtcome : r.outcome = .applied .conversationUpdated (some welcome))
    (hasProposals : Bool) :
    after (finishRound inRecovery hasProposals r) d = after housekeep (followed welcome e) := by
  obtain ⟨_, _, hdelta⟩ := rewarded_records hS hround hm hreward
  obtain ⟨_, hrecords⟩ := Prod.mk.inj (tenure_handOver (some welcome) e)
  obtain ⟨f, hrun, _⟩ := reconcileMembership_run hS
    ((congrArg (fun r => r.2.1) hrecords).trans hdelta)
  unfold followed
  rw [finishRound_after houtcome, after_of_ok hreward, after_bind_ok _ hrun, after_of_ok hrun]

/-- The bootstrap carries the marks of the state that hands it out, and the joiner takes them over. -/
theorem handed_table {W : OpenMlsWelcome P.mls} {mls : MlsService P.mls}
    {scoring : PeerScoringService P.scores} {consensus : P.consensus.State} {now : Nat}
    {config : ConversationConfig} {welcomeBytes payload appId : Bytes} {sync : ConversationSync}
    {j : Conversation P} (hcommitter : e.scoring.config.validate = .ok ())
    (hsent : e.Bootstraps payload sync)
    (hopens : MlsService.newFromWelcome W welcomeBytes = .ok (some mls))
    (hread : ReadsSync (introduced mls) payload sync)
    (haccepted : validateConversationSync P mls.conversationId sync mls.group.epoch mls.members =
      .ok true)
    (hjoin : join W welcomeBytes payload consensus scoring now appId config = .ok (some j))
    (id : Bytes) : j.scoreTable id = takenOver e.scoreTable scoring.table
      e.scoring.config.defaultScore scoring.config.defaultScore mls.members id := by
  obtain ⟨_, g, _, hreconcile, _, ⟨l, all, _, hall, rfl⟩, _⟩ := hsent
  have hscoring : g.scoring = e.scoring :=
    congrArg Prod.fst (tenure_reconcileStewardList.ok hreconcile)
  rw [hscoring] at hall
  have hpositive : 0 < e.scoring.config.defaultScore :=
    (ScoringConfig.validate_iff.mp (by rw [hcommitter]; rfl)).1
  have hdefault : syncedDefaultPeerScore (g.syncOf l (all.filter fun x =>
      x.2 ≠ g.scoring.config.defaultScore)) = e.scoring.config.defaultScore := by
    unfold syncedDefaultPeerScore syncOf
    dsimp only
    rw [hscoring, if_neg (by omega)]
  have hmarks : ∀ id score, (id, score) ∈ (g.syncOf l (all.filter fun x =>
      x.2 ≠ g.scoring.config.defaultScore)).peerScores.map (fun ps => (ps.memberId, ps.score)) ↔
        (e.scoreTable id).filter (· ≠ e.scoring.config.defaultScore) = some score := by
    intro id score
    have hmem := hS.mem_allScores _ _ hall id score
    unfold syncOf
    dsimp only
    have hsame : ∀ entries : List (Bytes × Int),
        (entries.map fun x => (⟨x.1, x.2⟩ : PeerScore)).map (fun ps => (ps.memberId, ps.score)) =
          entries := by
      intro entries
      rw [List.map_map]
      exact List.map_id' entries
    rw [hscoring, hsame, List.mem_filter, hmem, Option.filter_eq_some_iff]
    exact Iff.rfl
  rw [joined_table hS hopens hread haccepted hjoin, written_eq hmarks, hdefault]
  rfl

/-- **The scores of a joiner.** After its welcome sync a joiner has the table its committer has
after reconciling the same commit, with the newcomers at the default and nobody but the members in
it, exactly when the hand-over was clean. -/
theorem joiner_scores_iff {W : OpenMlsWelcome P.mls} {mls : MlsService P.mls}
    {scoring : PeerScoringService P.scores} {consensus : P.consensus.State} {now : Nat}
    {config : ConversationConfig} {payload appId : Bytes} {sync : ConversationSync}
    {j : Conversation P} {welcome : MemberWelcome}
    (hcommitter : c.scoring.config.validate = .ok ())
    (hround : finalizeCommitRound allowSubset c.selfMemberId c = .ok r d)
    (hm : r.merged = some merged)
    (hreward : (reward inRecovery r : ConvM P Unit) d = .ok () e)
    (hsent : e.Bootstraps payload sync)
    (hopens : MlsService.newFromWelcome W welcome.welcomeBytes = .ok (some mls))
    (hroster : ∀ id, id ∈ mls.members ↔ id ∈ e.members)
    (hread : ReadsSync (introduced mls) payload sync)
    (haccepted : validateConversationSync P mls.conversationId sync mls.group.epoch mls.members =
      .ok true)
    (hjoin : join W welcome.welcomeBytes payload consensus scoring now appId config =
      .ok (some j)) :
    (∀ id, j.scoreTable id = (followed welcome e).scoreTable id) ∧
      (∀ id, ((followed welcome e).scoreTable id).isSome = true ↔ id ∈ e.members) ∧
      (∀ m ∈ e.mls.group.members, c.SeatsAnew merged m.index →
        (followed welcome e).scoreTable (memberIdOf m.index) =
          some e.scoring.config.defaultScore) ↔
      c.CleanHandover merged e scoring := by
  obtain ⟨hconfig, hpublic, hdelta⟩ := rewarded_records hS hround hm hreward
  have hcommitted := followed_table hS hround hm hreward welcome
  have hnewcomers : ∀ m ∈ e.mls.group.members, c.SeatsAnew merged m.index →
      (followed welcome e).scoreTable (memberIdOf m.index) =
        some e.scoring.config.defaultScore := by
    intro m hmember hanew
    rw [hcommitted, if_pos ⟨m, hmember, hanew, rfl⟩]
  have htaken := handed_table hS (by rw [hconfig]; exact hcommitter) hsent hopens hread haccepted
    hjoin
  have hagree := tables_agree_iff htaken hcommitted
    (fun id ⟨m, hmember, _, hid⟩ => (hroster id).mpr (hid ▸ List.mem_map_of_mem hmember)) ?_
  · simp only [hroster] at hagree
    constructor
    · rintro ⟨hsame, hkeys, _⟩
      obtain ⟨hturned, hkept, hfresh⟩ := hagree.mp ⟨hsame, hkeys⟩
      exact ⟨hturned, hkept, hfresh⟩
    · rintro ⟨hturned, hkept, hfresh⟩
      obtain ⟨hsame, hkeys⟩ := hagree.mpr ⟨hturned, hkept, hfresh⟩
      exact ⟨hsame, hkeys, hnewcomers⟩
  · rintro id ⟨v, hv, rfl⟩ hmember
    obtain ⟨m, hm, hleaf⟩ := List.mem_map.mp ((hroster _).mp hmember)
    refine ⟨m, hm, ?_, hleaf⟩
    rw [memberIdOf_inj.mp hleaf]
    exact seatsAnew_of_vacated hv

end

end

end Conversation

/-! ## A leaf that changes hands -/

namespace Ideal

/-- The group of the newcomer. -/
def replaced : MlsService mls :=
  ⟨[], ⟨[], 2, 1, [⟨0, [10]⟩, ⟨2, [12]⟩, ⟨1, [13]⟩], ⟨[], none⟩⟩, none⟩

/-- The sync that goes out with its welcome: the committer has earned ten. -/
def marking (mark : Int) : ConversationSync :=
  ⟨[memberIdOf 0, memberIdOf 2], 1, 1, 2, false,
    ⟨memberIdOf 0, 110⟩ :: if mark = 100 then [] else [⟨memberIdOf 1, mark⟩],
    some ConversationConfig.default.toTiming, 0, 2, true, 0, 3, [memberIdOf 1], 100⟩

def bootstrap (mark : Int) : Bytes := sealedBy 0 2 (marking mark)

/-- The newcomer joins. -/
def replacement (mark : Int) : Except ConversationError (Option (Conversation scored)) :=
  Conversation.join (P := scored) (welcomesInto replaced.group [13]) [4, 13] (bootstrap mark) []
    ⟨.empty, ScoreEvent.defaultDelta, ⟨100, 0⟩⟩ 0 [3] .default

/-- The committer merges the requests and hands the bootstrap out, the newcomer joins with it, and
its own leaf is at `mark` for it and at the default for the committer. -/
def handsOver (mark : Int) : Bool :=
  endsWith ((Conversation.finalizeCommitRound true (memberIdOf 0) : ConvM scored _)
      (replacing mark)) fun r d =>
    endsWith ((Conversation.reward false r : ConvM scored Unit) d) fun _ e =>
      endsWith ((Conversation.reconcileStewardList : ConvM scored _) e) fun _ g =>
        (match r.merged, r.outcome with
          | some merged, .applied .conversationUpdated (some welcome) =>
            decide (welcome.welcomeBytes = [4, 13]) &&
              decide ((Conversation.followed welcome e).scoreTable (memberIdOf 1) = some 100) &&
              decide (¬ (replacing mark).Turns merged e.mls.group.members (memberIdOf 0))
          | _, _ => false) &&
        decide (e.members = replaced.members) &&
        (decide ((e.scoring.storage : OrderedMap Bytes Int).entries =
            [(memberIdOf 0, 110), (memberIdOf 1, mark), (memberIdOf 2, 100)]) &&
          decide (e.scoring.config = ⟨100, 0⟩)) &&
        (g.stewardList.list.any fun l => decide (marking mark = g.syncOf l
          ((g.scoring.storage : OrderedMap Bytes Int).entries.filter fun x =>
            x.2 ≠ g.scoring.config.defaultScore))) &&
        endsWith ((Conversation.buildConversationSyncPayload : ConvM scored _) g) (fun payload _ =>
          decide (payload = some (bootstrap mark))) &&
        endsWith (MlsService.buildMessage (wireCodec.encodeApp
          ⟨some (.conversationSync (marking mark))⟩) g.mls) (fun payload _ =>
            decide (payload = bootstrap mark)) &&
        match replacement mark with
        | .ok (some j) => decide (j.scoreTable (memberIdOf 1) = some mark)
        | _ => false

/-- What a hand-over comes to. -/
theorem of_handsOver (mark : Int) (h : handsOver mark = true) : ∃ r d merged e welcome j,
    (Conversation.finalizeCommitRound true (replacing mark).selfMemberId : ConvM scored _)
        (replacing mark) = .ok r d ∧ r.merged = some merged ∧
      r.outcome = .applied .conversationUpdated (some welcome) ∧
      (Conversation.reward false r : ConvM scored Unit) d = .ok () e ∧
      e.Bootstraps (bootstrap mark) (marking mark) ∧ welcome.welcomeBytes = [4, 13] ∧
      e.members = replaced.members ∧ replacement mark = .ok (some j) ∧
      j.scoreTable (memberIdOf 1) = some mark ∧
      (Conversation.followed welcome e).scoreTable (memberIdOf 1) = some 100 ∧
      ¬ (replacing mark).Turns merged e.mls.group.members (memberIdOf 0) ∧
      (e.scoring.storage : OrderedMap Bytes Int).entries =
        [(memberIdOf 0, 110), (memberIdOf 1, mark), (memberIdOf 2, 100)] ∧
      e.scoring.config = ⟨100, 0⟩ := by
  obtain ⟨r, d, hround, h⟩ := exists_of_endsWith h
  obtain ⟨⟨⟩, e, hreward, h⟩ := exists_of_endsWith h
  obtain ⟨reconciled, g, hreconcile, h⟩ := exists_of_endsWith h
  simp only [Bool.and_eq_true, decide_eq_true_eq] at h
  obtain ⟨⟨⟨⟨⟨⟨houtcome, hmembers⟩, hentries, hconfig⟩, hlist⟩, hpayload⟩, hsealed⟩, hjoin⟩ := h
  obtain ⟨payload, g', hbuild, hpayload⟩ := exists_of_endsWith hpayload
  obtain ⟨bytes, mls', hencrypt, hsealed⟩ := exists_of_endsWith hsealed
  obtain ⟨l, hl, hsync⟩ := (Option.any_eq_true _ _).mp hlist
  rw [of_decide_eq_true hpayload] at hbuild
  rw [of_decide_eq_true hsealed] at hencrypt
  have hsent : e.Bootstraps (bootstrap mark) (marking mark) :=
    ⟨reconciled, g, g', hreconcile, hbuild, ⟨l, _, hl, rfl, of_decide_eq_true hsync⟩, mls', hencrypt⟩
  obtain ⟨outcome, ops, batch, merged⟩ := r
  dsimp only at houtcome
  split at houtcome
  · simp only [Bool.and_eq_true, decide_eq_true_eq] at houtcome
    obtain ⟨⟨hwelcome, hcommitter⟩, hstays⟩ := houtcome
    split at hjoin
    · rename_i j hj
      exact ⟨_, d, _, e, _, j, hround, rfl, rfl, hreward, hsent, hwelcome, hmembers, hj,
        of_decide_eq_true hjoin, hcommitter, hstays, hentries, hconfig⟩
    · cases hjoin
  · cases houtcome

/-- With nobody but the committer off the default, the hand-over is clean. -/
theorem cleanHandover_unmarked {merged : MergedCommit mls} {e : Conversation scored}
    (hmembers : e.members = replaced.members)
    (hstays : ¬ (replacing 100).Turns merged e.mls.group.members (memberIdOf 0))
    (hentries : (e.scoring.storage : OrderedMap Bytes Int).entries =
      [(memberIdOf 0, 110), (memberIdOf 1, 100), (memberIdOf 2, 100)])
    (hconfig : e.scoring.config = ⟨100, 0⟩) :
    (replacing 100).CleanHandover merged e ⟨.empty, ScoreEvent.defaultDelta, ⟨100, 0⟩⟩ := by
  have hscore : ∀ id score, e.scoreTable id = some score ↔
      (id, score) ∈ [(memberIdOf 0, 110), (memberIdOf 1, 100), (memberIdOf 2, 100)] := by
    intro id score
    rw [← hentries]
    exact OrderedMap.find?_eq_some_iff (m := (e.scoring.storage : OrderedMap Bytes Int))
  have hmember : ∀ id, (e.scoreTable id).isSome = true ↔
      id = memberIdOf 0 ∨ id = memberIdOf 1 ∨ id = memberIdOf 2 := by
    intro id
    simp only [Option.isSome_iff_exists, hscore, List.mem_cons, Prod.mk.injEq, exists_or,
      exists_eq_right, List.not_mem_nil, or_false]
  refine ⟨?_, ?_, ?_⟩
  · intro id hturned score h
    rw [hconfig]
    have hother : id ≠ memberIdOf 0 := fun hid => hstays (hid ▸ hturned)
    rw [hscore] at h
    simp only [List.mem_cons, Prod.mk.injEq, List.not_mem_nil, or_false] at h
    rcases h with ⟨hid, _⟩ | ⟨_, hscored⟩ | ⟨_, hscored⟩
    · exact absurd hid hother
    · exact hscored
    · exact hscored
  · intro id _
    have hroster : id ∈ e.members ↔ id = memberIdOf 0 ∨ id = memberIdOf 2 ∨ id = memberIdOf 1 := by
      rw [hmembers]
      show id ∈ [memberIdOf 0, memberIdOf 2, memberIdOf 1] ↔ _
      simp only [List.mem_cons, List.not_mem_nil, or_false]
    rw [hmember, hroster, or_comm (a := id = memberIdOf 1)]
  · intro id _ _ score h
    cases h

theorem replaced_opens :
    MlsService.newFromWelcome (welcomesInto replaced.group [13]) [4, 13] = .ok (some replaced) := rfl

end Ideal

/-- The second member had fifty when it was replaced: its successor starts with them in its own
table, and at the default in the table of its committer. -/
theorem joiner_inherits_score : ∃ r d merged e welcome j,
    (Conversation.finalizeCommitRound true (Ideal.replacing 50).selfMemberId :
        ConvM Ideal.scored _) (Ideal.replacing 50) = .ok r d ∧ r.merged = some merged ∧
      r.outcome = .applied .conversationUpdated (some welcome) ∧
      (Conversation.reward false r : ConvM Ideal.scored Unit) d = .ok () e ∧
      e.Bootstraps (Ideal.bootstrap 50) (Ideal.marking 50) ∧ e.members = Ideal.replaced.members ∧
      Conversation.ReadsSync (P := Ideal.scored) (Conversation.introduced (P := Ideal.scored)
        Ideal.replaced) (Ideal.bootstrap 50) (Ideal.marking 50) ∧
      Conversation.validateConversationSync Ideal.scored [] (Ideal.marking 50) 2 e.members = .ok true ∧
      Ideal.replacement 50 = .ok (some j) ∧
      j.scoreTable (memberIdOf 1) ≠ (Conversation.followed welcome e).scoreTable (memberIdOf 1) := by
  obtain ⟨r, d, merged, e, welcome, j, hround, hm, houtcome, hreward, hsent, hwelcome, hmembers, hj,
    hjoiner, hcommitter, _⟩ := Ideal.of_handsOver 50 (by decide +kernel)
  refine ⟨r, d, merged, e, welcome, j, hround, hm, houtcome, hreward, hsent, hmembers,
    ⟨by decide, by decide, _, _, _, rfl, rfl⟩, ?_, hj, ?_⟩
  · rw [hmembers]
    rfl
  · rw [hjoiner, hcommitter]
    decide

/-- The law, when the second member was at the default. -/
theorem joiner_scores_of_unmarked : ∃ (e : Conversation Ideal.scored) (welcome : MemberWelcome)
    (j : Conversation Ideal.scored), Ideal.replacement 100 = .ok (some j) ∧
      (∀ id, j.scoreTable id = (Conversation.followed welcome e).scoreTable id) ∧
      ∀ id, ((Conversation.followed welcome e).scoreTable id).isSome = true ↔ id ∈ e.members := by
  obtain ⟨r, d, merged, e, welcome, j, hround, hm, _, hreward, hsent, hwelcome, hmembers, hj, _, _,
    hstays, hentries, hconfig⟩ := Ideal.of_handsOver 100 (by decide +kernel)
  have hopens : MlsService.newFromWelcome (Ideal.welcomesInto Ideal.replaced.group [13])
      welcome.welcomeBytes = .ok (some Ideal.replaced) := by
    rw [hwelcome]
    exact Ideal.replaced_opens
  have hread : Conversation.ReadsSync (P := Ideal.scored) (Conversation.introduced
      (P := Ideal.scored) Ideal.replaced) (Ideal.bootstrap 100) (Ideal.marking 100) :=
    ⟨by decide, by decide, _, _, _, rfl, rfl⟩
  have haccepted : Conversation.validateConversationSync Ideal.scored [] (Ideal.marking 100) 2
      Ideal.replaced.members = .ok true := rfl
  have hjoin : Conversation.join (P := Ideal.scored) (Ideal.welcomesInto Ideal.replaced.group [13])
      welcome.welcomeBytes (Ideal.bootstrap 100) [] ⟨.empty, ScoreEvent.defaultDelta, ⟨100, 0⟩⟩ 0
        [3] .default = .ok (some j) := by
    rw [hwelcome]
    exact hj
  obtain ⟨hagree, hkeys, _⟩ := (Conversation.joiner_scores_iff inMemoryPeerScoreStorage_lawful
    rfl hround hm hreward hsent hopens (fun id => hmembers ▸ Iff.rfl) hread haccepted hjoin).mpr
      (Ideal.cleanHandover_unmarked hmembers hstays hentries hconfig)
  exact ⟨e, welcome, j, hj, hagree, hkeys⟩

end DeMls
