import DeMls.Conversation.LocalList
import DeMls.Conversation.Lifetime

/-!
# One list

A steward list that is installed anywhere was generated over a pool without repetition under the
salt of the group, whether it was founded, elected, renewed locally or taken from a sync. So a list
is known by its epoch, its round and the set of its stewards: two nodes of a group, at any moments
of their lives, that hold lists with these in common hold them in one order (`lists_agree`), and
read off them the same steward and backup in every epoch.
-/

namespace DeMls

open Program Relation Selection

variable {P : Platform}

/-! ## Lists of one salt -/

/-- What every list made under the salt is. -/
structure StewardList.Seeded (P : Platform) (salt : Bytes) (l : StewardList) : Prop where
  some_member : l.members ≠ []
  nodup : l.members.Nodup
  ordered : sortedStewards P l.electionEpoch l.retryRound salt l.members = l.members
  fits : l.members.length ≤ l.config.snMax

theorem StewardListConfig.size_of_inputs {config : StewardListConfig} (hconfig : config.Valid)
    {ids : List Bytes} {sn : Nat} (h : config.checkGenerationInputs ids sn = .ok ()) :
    ids ≠ [] ∧ 1 ≤ sn ∧ sn ≤ ids.length ∧ sn ≤ config.snMax := by
  obtain ⟨hmin, hmax⟩ := hconfig
  unfold StewardListConfig.checkGenerationInputs at h
  split_ifs at h with hids hsize
  have hids := List.length_pos_iff.mpr hids
  unfold isValidSize sizeBounds at hsize
  rw [decide_eq_true_iff] at hsize
  refine ⟨List.length_pos_iff.mp hids, ?_⟩
  split_ifs at hsize with hfew
  · dsimp only at hsize
    omega
  · dsimp only at hsize
    omega

/-- Whatever is generated over a pool without repetition. -/
theorem StewardList.generate_seeded {e sn r : Nat} {salt : Bytes} {ids : List Bytes}
    {config : StewardListConfig} {l : StewardList} (hconfig : config.Valid) (hids : ids.Nodup)
    (h : StewardList.generate P e salt ids sn config r = .ok l) :
    l.Seeded P salt ∧ l.config = config := by
  unfold StewardList.generate at h
  cases hinputs : config.checkGenerationInputs ids sn with
  | error err => simp [hinputs] at h
  | ok u =>
    obtain ⟨hsome, hpos, hlength, hmax⟩ := StewardListConfig.size_of_inputs hconfig hinputs
    simp only [hinputs, Except.ok.injEq] at h
    subst h
    have hmembers : ((sortedStewards P e r salt ids).take sn).length = sn := by
      rw [List.length_take, length_sortedStewards, Nat.min_eq_left hlength]
    refine ⟨⟨?_, ?_, sortBy_take (compareStewards P e r salt) _ _, ?_⟩, rfl⟩
    · rw [← List.length_pos_iff]
      exact hpos.trans_eq hmembers.symm
    · exact ((sortBy_perm _ ids).nodup_iff.mpr hids).sublist (List.take_sublist _ _)
    · exact hmembers.trans_le hmax

theorem StewardListService.installList_seeded {s s' : StewardListService} {e sn r : Nat}
    {pool : List Bytes} (hconfig : s.config.Valid) (hpool : pool.Nodup)
    (h : s.installList P e pool sn r = .ok s') :
    s'.config = s.config ∧ s'.conversationId = s.conversationId ∧
      ∀ l, s'.list = some l → l.Seeded P s.conversationId := by
  unfold StewardListService.installList at h
  cases hg : StewardList.generate P e s.conversationId pool sn s.config r with
  | error err => simp [hg] at h
  | ok list =>
    simp only [hg, Except.ok.injEq] at h
    subst h
    refine ⟨rfl, rfl, ?_⟩
    rintro l ⟨⟩
    exact (StewardList.generate_seeded hconfig hpool hg).1

/-- Lists under one salt with one epoch, one round and the same stewards are in one order. -/
theorem StewardList.Seeded.members_eq {salt : Bytes} {l k : StewardList} (hl : l.Seeded P salt)
    (hk : k.Seeded P salt) (hepoch : l.electionEpoch = k.electionEpoch)
    (hround : l.retryRound = k.retryRound) (hsame : ∀ id, id ∈ l.members ↔ id ∈ k.members) :
    l.members = k.members := by
  have hperm : l.members.Perm k.members :=
    (List.perm_ext_iff_of_nodup hl.nodup hk.nodup).mpr hsame
  calc l.members = sortedStewards P l.electionEpoch l.retryRound salt l.members := hl.ordered.symm
    _ = sortedStewards P k.electionEpoch k.retryRound salt k.members := by
      rw [hepoch, hround, sortedStewards_congr hperm]
    _ = k.members := hk.ordered

/-- The rotation reads the order and the first epoch of a list. -/
theorem StewardList.epochAndBackup_congr {l k : StewardList} (hmembers : l.members = k.members)
    (hepoch : l.electionEpoch = k.electionEpoch) (epoch : Nat) (eligible : Bytes → Bool) :
    l.epochAndBackup epoch eligible = k.epochAndBackup epoch eligible := by
  obtain ⟨lm, lc, le, lr⟩ := l
  obtain ⟨km, kc, ke, kr⟩ := k
  cases hmembers
  cases hepoch
  rfl

/-! ## Distinct leaves -/

/-- The members sit on distinct leaves. -/
def SeatsApart {O : OpenMls} (m : MlsService O) : Prop :=
  (m.group.members.map Member.index).Nodup

/-- OpenMLS seats no two members on one leaf. -/
structure KeepsApart (O : OpenMls) : Prop where
  own : ∀ g members s, (g.members.map Member.index).Nodup →
    O.mergePendingCommit g = (.ok (some members), s) → (members.map Member.index).Nodup
  remote : ∀ g staged members s, (g.members.map Member.index).Nodup →
    O.mergeStagedCommit g staged = (.ok members, s) → (members.map Member.index).Nodup

theorem SeatsApart.of_public {O : OpenMls} {m m' : MlsService O} (h : SeatsApart m)
    (hpart : m'.publicPart = m.publicPart) : SeatsApart m' := by
  unfold SeatsApart
  rwa [show m'.group.members = m.group.members from members_of_publicPart hpart]

theorem SeatsApart.of_tree {O : OpenMls} (hO : KeepsApart O) {m m' : MlsService O}
    {staged : Option O.StagedCommit} (h : SeatsApart m)
    (htree : TreeStep O m.group m'.group staged) : SeatsApart m' := by
  generalize hgroup : m'.group = g at htree
  unfold SeatsApart
  rw [hgroup]
  cases htree with
  | @own before merged _ hpart hmerge hafter =>
    have hbefore : (before.members.map Member.index).Nodup := by
      rwa [members_of_publicPart hpart]
    cases merged with
    | none => rwa [members_of_publicPart hafter]
    | some members =>
      rw [show g.members = members from congrArg (fun g : MlsGroup Unit => g.members) hafter]
      exact hO.own _ _ _ hbefore hmerge
  | @remote before _ members _ hpart _ hmerge hafter =>
    have hbefore : (before.members.map Member.index).Nodup := by
      rwa [members_of_publicPart hpart]
    rw [show g.members = members from congrArg (fun g : MlsGroup Unit => g.members) hafter]
    exact hO.remote _ _ _ _ hbefore hmerge

theorem SeatsApart.mergeOwnCommit {O : OpenMls} (hO : KeepsApart O) :
    Preserves SeatsApart (MlsService.mergeOwnCommit : MlsService.MlsM O _) := by
  intro m hm
  cases hrun : MlsService.mergeOwnCommit m with
  | error e m' =>
    rw [after_of_error hrun]
    exact hm.of_public (MlsService.mergeOwnCommit_error hrun)
  | ok delta m' =>
    rw [after_of_ok hrun]
    obtain ⟨merged, s, hmerge, hgroup, _⟩ := MlsService.mergeOwnCommit_ok hrun
    cases merged with
    | none =>
      subst hgroup
      exact hm
    | some members =>
      subst hgroup
      exact hO.own _ _ _ hm hmerge

theorem SeatsApart.nodup {O : OpenMls} {m : MlsService O} (h : SeatsApart m) : m.members.Nodup := by
  have hids : m.members = (m.group.members.map Member.index).map memberIdOf := by
    unfold MlsService.members MlsGroup.memberIds
    rw [List.map_map]
    rfl
  rw [hids]
  exact h.map memberIdOf_injective

namespace Conversation

/-- The list of a conversation was made under the salt of its group. -/
structure Listed (c : Conversation P) : Prop where
  seats : SeatsApart c.mls
  salt : c.stewardList.conversationId = c.conversationId
  config : c.stewardList.config.Valid
  list : ∀ l, c.stewardList.list = some l → l.Seeded P c.conversationId

theorem Listed.seated {c d : Conversation P} (h : c.Listed) (hseats : SeatsApart d.mls)
    (hlist : d.stewardList = c.stewardList) (hid : d.conversationId = c.conversationId) :
    d.Listed := by
  obtain ⟨_, hsalt, hconfig, hseeded⟩ := h
  refine ⟨hseats, ?_, ?_, ?_⟩
  · rw [hlist, hid, hsalt]
  · rwa [hlist]
  · rwa [hlist, hid]

theorem Act.listed (hO : KeepsApart P.mls) {src : Sources} {c d : Conversation P}
    (h : Act src c d) (hc : c.Listed) : d.Listed := by
  cases h with
  | @round _ r t _ h =>
    refine hc.seated ?_ rfl rfl
    cases hmerged : r.merged with
    | none => exact hc.seats.of_public (Prod.mk.inj (finalizeCommitRound_not_merged h hmerged).1).2
    | some merged => exact hc.seats.of_tree hO (finalizeCommitRound_merged h hmerged).1.tree
  | roundFailed h =>
    exact hc.seated (hc.seats.of_public (Prod.mk.inj (finalizeCommitRound_error h)).2) rfl rfl
  | secrets h => exact hc.seated (hc.seats.of_public (h.frame c.mls)) rfl rfl
  | genesis => exact hc.seated (SeatsApart.mergeOwnCommit hO c.mls hc.seats) rfl rfl
  | installed hpool hinstall =>
    obtain ⟨hconfig, hid, hseeded⟩ :=
      StewardListService.installList_seeded hc.config (hpool hc.seats.nodup) hinstall
    refine ⟨hc.seats, hid.trans hc.salt, ?_, fun l hl => ?_⟩
    · show StewardListConfig.Valid _
      rw [hconfig]
      exact hc.config
    · have hl := hseeded l hl
      rwa [hc.salt] at hl
  | configured hlist hid hconfig =>
    refine ⟨hc.seats, hid.trans hc.salt, ?_, fun l hl => hc.list l (hlist ▸ hl)⟩
    rcases hconfig with hsame | hvalid
    · show StewardListConfig.Valid _
      rw [hsame]
      exact hc.config
    · exact hvalid
  | _ => exact hc.seated hc.seats rfl rfl

/-- The creator's list is itself, a joiner has none. -/
theorem listed_of_assembled {base : Conversation P} (h : AssembledOver SeatsApart base) :
    base.Listed := by
  obtain ⟨mls, scoring, consensus, now, appId, config, isCreation, hseats, hassembled⟩ := h
  obtain ⟨hvalidated, -⟩ := validate_of_assemble hassembled
  have hconfig : config.stewardList.Valid := by
    unfold ConversationConfig.validate at hvalidated
    split_ifs at hvalidated with _ _ _ hsizes
    unfold StewardListConfig.Valid
    omega
  obtain ⟨list, scores, rfl, hjoiner, hcreator⟩ := shape_of_assemble hassembled
  cases isCreation with
  | false =>
    obtain ⟨-, rfl⟩ := hjoiner rfl
    exact ⟨hseats, rfl, hconfig, fun l hl => absurd hl (Option.some_ne_none l).symm⟩
  | true =>
    obtain ⟨-, hinstall⟩ := hcreator rfl
    obtain ⟨hsame, hid, hseeded⟩ :=
      StewardListService.installList_seeded hconfig (List.nodup_singleton _) hinstall
    exact ⟨hseats, hid, hsame ▸ hconfig, hseeded⟩

theorem Lives.listed (hO : KeepsApart P.mls) {c : Conversation P} (h : Lives SeatsApart c) :
    c.Listed :=
  h.invariant (fun _ => listed_of_assembled) fun _ _ _ => Act.listed hO

/-- **One list.** Two nodes of a group, at any moments of their lives, whose lists were made for one
epoch in one round and name the same stewards, hold these in one order, and the lists give one
steward and one backup for every epoch and every view of who is eligible. -/
theorem lists_agree (hO : KeepsApart P.mls) {c d : Conversation P} (hc : Lives SeatsApart c)
    (hd : Lives SeatsApart d) (hid : c.conversationId = d.conversationId) {l k : StewardList}
    (hl : c.stewardList.list = some l) (hk : d.stewardList.list = some k)
    (hepoch : l.electionEpoch = k.electionEpoch) (hround : l.retryRound = k.retryRound)
    (hsame : ∀ id, id ∈ l.members ↔ id ∈ k.members) :
    l.members = k.members ∧ ∀ epoch eligible,
      c.stewardList.epochAndBackup epoch eligible = d.stewardList.epochAndBackup epoch eligible := by
  have hkd : k.Seeded P c.conversationId := hid ▸ (hd.listed hO).list k hk
  have hmembers := ((hc.listed hO).list l hl).members_eq hkd hepoch hround hsame
  refine ⟨hmembers, fun epoch eligible => ?_⟩
  unfold StewardListService.epochAndBackup
  rw [hl, hk]
  exact StewardList.epochAndBackup_congr hmembers hepoch epoch eligible

end Conversation

/-! ## A founder and a joiner -/

namespace Ideal

/-- The roster a commit leaves; a tree that is full takes no joiner. -/
def seatedAfter (members : List Member) (changes : List Change) : Except String (List Member) :=
  if ((rosterAfter members changes).map Member.index).Nodup then .ok (rosterAfter members changes)
  else .error "tree is full"

theorem apart_of_seatedAfter {members after : List Member} {changes : List Change}
    (h : seatedAfter members changes = .ok after) : (after.map Member.index).Nodup := by
  unfold seatedAfter at h
  split_ifs at h with hapart
  cases h
  exact hapart

/-- Nobody commits its own removal either. -/
def capped : OpenMls :=
  { mls with
    mergePendingCommit := fun g =>
      match g.secrets.pending with
      | none => (.ok none, g.secrets)
      | some c =>
        if g.ownLeafIndex ∈ c.changes.filterMap Change.leaf then (.error "own removal", g.secrets)
        else ((seatedAfter g.members c.changes).map some, ⟨[], none⟩)
    mergeStagedCommit := fun g c => (seatedAfter g.members c.changes, ⟨[], none⟩) }

/-- Our own commit merges with the seats apart, and leaves us ours. -/
theorem capped_mergePendingCommit {g : MlsGroup capped.Secrets} {members : List Member}
    {s : capped.Secrets} (h : capped.mergePendingCommit g = (.ok (some members), s)) :
    ∃ c : StagedCommit, capped.pendingCommit g.secrets = some c ∧
      g.ownLeafIndex ∉ c.changes.filterMap Change.leaf ∧
      seatedAfter g.members c.changes = .ok members := by
  obtain ⟨id, epoch, own, before, proposals, pending⟩ := g
  cases pending with
  | none => cases h
  | some c =>
    have hmerge : (if own ∈ c.changes.filterMap Change.leaf then
        ((.error "own removal", ⟨proposals, some c⟩) : Except String (Option (List Member)) × Secrets)
      else ((seatedAfter before c.changes).map some, ⟨[], none⟩)) = (.ok (some members), s) := h
    split_ifs at hmerge with hself
    · cases hmerge
    · have hafter : (seatedAfter before c.changes).map some = .ok (some members) :=
        congrArg Prod.fst hmerge
      refine ⟨c, rfl, hself, ?_⟩
      show seatedAfter before c.changes = .ok members
      cases hseated : seatedAfter before c.changes with
      | error e =>
        rw [hseated] at hafter
        cases hafter
      | ok after =>
        rw [hseated] at hafter
        cases hafter
        rfl

theorem keepsApart : KeepsApart capped where
  own _ _ _ _ h := by
    obtain ⟨_, _, _, hseated⟩ := capped_mergePendingCommit h
    exact apart_of_seatedAfter hseated
  remote _ _ _ _ _ h := apart_of_seatedAfter (congrArg Prod.fst h)

def cappedPlatform : Platform := { platform with mls := capped }

/-- The creator of a group over that tree. -/
def creator : Conversation cappedPlatform where
  conversationId := []
  now := 0
  queues := alone.queues
  mls := ⟨[], { alone.mls.group with secrets := (⟨[], none⟩ : Secrets) }, none⟩
  scoring := alone.scoring
  stewardList := alone.stewardList
  consensus := []
  outcomes := []
  state := .working
  config := .default
  operatingMode := .normal
  recoveryRounds := 0
  timing := .new
  selfMemberId := memberIdOf 0
  appId := [0]
  pendingEvents := [.phaseChange .working]
  pendingOutbound := []

/-- It founds the group with a second member. -/
def founder : Conversation cappedPlatform := after (Conversation.seedInitialMembers [[11]]) creator

theorem assembled_creator : Conversation.assemble (⟨[],
    { alone.mls.group with secrets := (⟨[], none⟩ : Secrets) }, none⟩ : MlsService cappedPlatform.mls)
    ⟨[], ScoreEvent.defaultDelta, ⟨100, 0⟩⟩ [] 0 [0] .default true = .ok creator := rfl

theorem apart_creator : SeatsApart creator.mls := by
  unfold SeatsApart
  decide

theorem lives_founder : Conversation.Lives SeatsApart founder := by
  have hseeds : (Conversation.seedInitialMembers [[11]] : ConvM cappedPlatform Unit) creator =
      .ok () founder := rfl
  exact .start (.create apart_creator assembled_creator hseeds)

/-- The founder after a poll, a leave request and one more poll. -/
def settled : Conversation cappedPlatform :=
  Conversation.afterCalls [.poll 4, .leave, .poll 9] founder

end Ideal

/-- The founder's list and the one it holds after these calls give one steward for the next
epoch. -/
theorem settled_agrees : Ideal.settled.stewardList.epochAndBackup 1 (fun _ => true) =
    Ideal.founder.stewardList.epochAndBackup 1 fun _ => true :=
  ((Conversation.lists_agree Ideal.keepsApart (Ideal.lives_founder.afterCalls _) Ideal.lives_founder
    rfl rfl rfl rfl rfl fun _ => Iff.rfl).2 1 _)

end DeMls
