import DeMls.Conversation.Joining
import DeMls.Conversation.StewardSeats
import DeMls.Conversation.Turns

/-!
# Who is settled

A node records join epochs of the commits it merges itself, and takes everybody else for settled, so
nodes with different histories have different records. `settled_pools_agree` is that they have the
same settled pool at every epoch after the one they joined in: at the current epoch only the last
commit matters, and all of them have merged it.
-/

namespace DeMls

open Program Relation

/-- The commits of a group: its members at each epoch, and the leaves that the commit out of an
epoch vacates. -/
structure Chronicle where
  roster : Nat → List Member
  vacated : Nat → List LeafNodeIndex

namespace Chronicle

/-- The commit out of an epoch seats somebody anew on the leaf. -/
def Seats (h : Chronicle) (epoch : Nat) (leaf : LeafNodeIndex) : Prop :=
  leaf ∉ (h.roster epoch).map Member.index ∨ leaf ∈ h.vacated epoch

instance (h : Chronicle) (epoch : Nat) (leaf : LeafNodeIndex) : Decidable (h.Seats epoch leaf) :=
  inferInstanceAs (Decidable (_ ∨ _))

/-- The members that the last commit did not seat anew. -/
def settled (h : Chronicle) (epoch : Nat) : List Bytes :=
  ((h.roster epoch).filter fun m => ¬ h.Seats (epoch - 1) m.index).map fun m => memberIdOf m.index

end Chronicle

namespace Conversation

variable {P : Platform} {h : Chronicle}

/-! ## Runs along a chronicle -/

/-- A node that starts here: it is in the group of the chronicle, and has recorded nobody. -/
structure Begins (h : Chronicle) (c : Conversation P) : Prop where
  roster : c.mls.group.members = h.roster c.epoch
  unrecorded : ∀ id, c.queues.memberJoinEpoch.find? id = none

/-- The genesis commit records nobody. -/
theorem unrecorded_seedInitialMembers (initialMembers : List Bytes) :
    Frame (fun c : Conversation P => c.queues.memberJoinEpoch)
      (seedInitialMembers initialMembers : ConvM P Unit) := by
  have hmembership : ∀ {α : Type} {x : ConvM P α}, Frame membership x →
      Frame (fun c : Conversation P => c.queues.memberJoinEpoch) x :=
    fun hx c => congrArg (fun m => m.ledger.2.2) (hx c)
  unfold seedInitialMembers
  refine frame_ite (frame_pure _ _) (frame_bind (frame_ofResult _ _) fun _ => ?_)
  refine frame_bind (frame_zoom fun _ _ => rfl) fun artifacts => ?_
  refine frame_bind (frame_zoom fun _ _ => rfl) fun delta => ?_
  refine frame_bind (hmembership (frame_membership (frame_addScored _))) fun _ => ?_
  refine frame_bind (frame_get _) fun c => frame_bind (frame_ofResult _ _) fun _ => ?_
  refine frame_bind (frame_modify fun _ => rfl) fun _ => ?_
  split
  · exact hmembership (frame_deliverWelcome _)
  · exact frame_pure _ _

/-- A creator starts with fresh queues. -/
theorem queues_assemble {mls : MlsService P.mls} {scoring : PeerScoringService P.scores}
    {consensus : P.consensus.State} {now : Nat} {appId : Bytes} {config : ConversationConfig}
    {c : Conversation P} (h : assemble mls scoring consensus now appId config true = .ok c) :
    c.queues = .new mls.conversationId config.dedupWindow := by
  obtain ⟨_, _, rfl, -⟩ := shape_of_assemble h
  rfl

/-- Whoever creates a group begins with it, with its initial members or alone. -/
theorem begins_create {mls : MlsService P.mls} {scoring : PeerScoringService P.scores}
    {consensus : P.consensus.State} {now : Nat} {appId : Bytes} {config : ConversationConfig}
    {initialMembers : List Bytes} {c d : Conversation P}
    (hassemble : assemble mls scoring consensus now appId config true = .ok c)
    (hseed : (seedInitialMembers initialMembers : ConvM P Unit) c = .ok () d)
    (hroster : d.mls.group.members = h.roster d.epoch) : Begins h d := by
  refine ⟨hroster, fun id => ?_⟩
  rw [show d.queues.memberJoinEpoch = c.queues.memberJoinEpoch from
    (unrecorded_seedInitialMembers initialMembers).ok hseed, queues_assemble hassemble]
  rfl

/-- Whoever joins by a welcome begins with the group it opens. -/
theorem begins_join {W : OpenMlsWelcome P.mls} {mls : MlsService P.mls}
    {scoring : PeerScoringService P.scores} {consensus : P.consensus.State} {now : Nat}
    {welcomeBytes syncBytes appId : Bytes} {config : ConversationConfig} {j : Conversation P}
    (hopens : MlsService.newFromWelcome W welcomeBytes = .ok (some mls))
    (hjoin : join W welcomeBytes syncBytes consensus scoring now appId config = .ok (some j))
    (hroster : mls.group.members = h.roster mls.group.epoch) :
    Begins h j ∧ j.epoch = mls.group.epoch := by
  obtain ⟨c, d, hc, hjoined, hsync⟩ := join_ok hopens hjoin
  have honJoined : Frame membership (onJoined : ConvM P Unit) := by
    refine frame_bind (frame_get _) fun c => frame_membership ?_
    refine frame_bind (frame_sendApp _) fun _ => ?_
    rw [syncScoringMembers_eq]
    exact frame_onScoring _
  have hbootstrap : Frame membership (applyWelcomeSync syncBytes : ConvM P Unit) := by
    refine frame_ite (frame_membership (frame_emitEvent rfl)) ?_
    refine frame_bind (frame_membership (frame_decodeInbound _)) fun _ => ?_
    exact frame_bind (frame_dispatchInboundResult _) fun _ => frame_pure _ _
  have hkept : j.membership = c.membership := (hbootstrap.ok hsync).trans (honJoined.ok hjoined)
  have hgroup : j.mls.publicPart = mls.publicPart := by
    rw [← hc.group]
    exact congrArg Membership.group hkept
  have hepoch : j.epoch = mls.group.epoch := MlsService.epoch_of_public hgroup
  refine ⟨⟨?_, fun id => ?_⟩, hepoch⟩
  · rw [hepoch, ← hroster]
    exact members_of_publicPart hgroup
  · rw [show j.queues.memberJoinEpoch = c.queues.memberJoinEpoch from
      congrArg (fun m => m.ledger.2.2) hkept, hc.queues]
    rfl

/-- What a node merges is the commit of the chronicle out of its epoch, or nothing at all. -/
def Merged (h : Chronicle) (c d : Conversation P) : Event P → Prop
  | .round _ (some merged) _ =>
    d.epoch = c.epoch + 1 ∧ d.mls.group.members = h.roster d.epoch ∧
        (∀ leaf, leaf ∈ (vacatedBy P.mls c.mls.group merged.staged).map MemberId.leaf ↔
          leaf ∈ h.vacated c.epoch) ∨
      merged.staged = none ∧ d.mls.publicPart = c.mls.publicPart
  | _ => True

/-- A node takes turns of any kind, and merges the commits of the chronicle. -/
def Attends (h : Chronicle) : Conversation P → Conversation P → Prop :=
  ReflTransGen fun c d => ∃ e, Turn c e d ∧ Merged h c d e

/-- What a node knows that started at `origin`: the roster, no joins to come, and the joins of the
last commit. -/
structure Informed (h : Chronicle) (origin : Nat) (c : Conversation P) : Prop where
  started : origin ≤ c.epoch
  roster : c.mls.group.members = h.roster c.epoch
  past : ∀ id epoch, c.queues.memberJoinEpoch.find? id = some epoch → epoch ≤ c.epoch
  recent : origin < c.epoch → ∀ m ∈ h.roster c.epoch,
    c.queues.memberJoinEpoch.find? (memberIdOf m.index) = some c.epoch ↔
      h.Seats (c.epoch - 1) m.index

theorem Begins.informed {c : Conversation P} (hc : Begins h c) : Informed h c.epoch c where
  started := le_rfl
  roster := hc.roster
  past id epoch hepoch := by
    rw [hc.unrecorded id] at hepoch
    cases hepoch
  recent hlt := absurd hlt (Nat.lt_irrefl _)

theorem Informed.kept {origin : Nat} {c d : Conversation P} (hc : Informed h origin c)
    (hjoin : ∀ id, d.queues.memberJoinEpoch.find? id = c.queues.memberJoinEpoch.find? id)
    (hgroup : d.mls.publicPart = c.mls.publicPart) : Informed h origin d := by
  have hepoch : d.epoch = c.epoch := MlsService.epoch_of_public hgroup
  refine ⟨?_, ?_, ?_, ?_⟩
  · rw [hepoch]
    exact hc.started
  · rw [hepoch]
    exact (members_of_publicPart hgroup).trans hc.roster
  · simp only [hjoin, hepoch]
    exact hc.past
  · simp only [hjoin, hepoch]
    exact hc.recent

/-- **A commit** puts its newcomers on record, at the epoch that begins. -/
theorem Informed.merged {origin : Nat} {c d : Conversation P} (hc : Informed h origin c)
    {merged : MergedCommit P.mls} {batch : List ConversationUpdateRequest}
    (hepoch : d.epoch = c.epoch + 1) (hroster : d.mls.group.members = h.roster d.epoch)
    (hvacated : ∀ leaf, leaf ∈ (vacatedBy P.mls c.mls.group merged.staged).map MemberId.leaf ↔
      leaf ∈ h.vacated c.epoch)
    (hmerge : Merges merged.candidate.commitHash (c.epoch + 1) c.roundState.taken d.roundState
      merged.staged batch) : Informed h origin d := by
  have hseats : ∀ leaf, c.SeatsAnew merged leaf ↔ h.Seats c.epoch leaf := by
    intro leaf
    unfold SeatsAnew Chronicle.Seats MlsGroup.populatedLeaves
    rw [hvacated, hc.roster]
  have hstarted := hc.started
  refine ⟨by omega, hroster, ?_, ?_⟩
  · intro id epoch hrecord
    rw [joinEpoch_of_merges hmerge] at hrecord
    split_ifs at hrecord with hnew hleft
    · cases hrecord
      omega
    · have hbefore := hc.past id epoch hrecord
      omega
  · intro _ m hm
    rw [← hroster] at hm
    rw [hepoch, Nat.add_sub_cancel, ← hseats]
    by_cases hnew : c.SeatsAnew merged m.index
    · exact iff_of_true (joinEpoch_of_seatsAnew hmerge hm hnew) hnew
    · refine iff_of_false (fun hrecord => ?_) hnew
      rw [(joinEpoch_of_stays hmerge hnew).2] at hrecord
      have hbefore := hc.past _ _ hrecord
      omega

/-- A merge of nothing records nobody. -/
theorem joinEpoch_of_empty {c d : Conversation P} {merged : MergedCommit P.mls}
    {batch : List ConversationUpdateRequest} (hstaged : merged.staged = none)
    (hgroup : d.mls.publicPart = c.mls.publicPart)
    (hmerge : Merges merged.candidate.commitHash (c.epoch + 1) c.roundState.taken d.roundState
      merged.staged batch) (id : Bytes) :
    d.queues.memberJoinEpoch.find? id = c.queues.memberJoinEpoch.find? id := by
  have hnone : vacatedBy P.mls c.mls.group merged.staged = [] := by
    rw [hstaged]
    rfl
  rw [joinEpoch_of_merges hmerge, if_neg, if_neg]
  · rw [hnone]
    rintro ⟨v, hv, _⟩
    cases hv
  · rintro ⟨m, hm, hnew | hvacated, _⟩
    · rw [members_of_publicPart hgroup] at hm
      exact hnew (List.mem_map_of_mem hm)
    · rw [hnone] at hvacated
      cases hvacated

/-- **One turn** keeps a node informed. -/
theorem Informed.turn {origin : Nat} {c d : Conversation P} {e : Event P}
    (hc : Informed h origin c) (hturn : Turn c e d) (hmerged : Merged h c d e) :
    Informed h origin d := by
  cases hturn.effect with
  | kept _ hledger hgroup =>
    exact hc.kept (fun _ => by rw [show d.queues.memberJoinEpoch = c.queues.memberJoinEpoch from
      congrArg (fun l => l.2.2) hledger]) hgroup
  | outcome _ hgroup heffect =>
    exact hc.kept (fun _ => by rw [show d.queues.memberJoinEpoch = c.queues.memberJoinEpoch from
      heffect.joinEpoch]) hgroup
  | merged hmerge =>
    rcases hmerged with ⟨hepoch, hroster, hvacated⟩ | ⟨hstaged, hgroup⟩
    · exact hc.merged hepoch hroster hvacated hmerge
    · exact hc.kept (joinEpoch_of_empty hstaged hgroup hmerge) hgroup

/-- **Runs.** -/
theorem Informed.attends {origin : Nat} {c d : Conversation P} (hc : Informed h origin c)
    (hrun : Attends h c d) : Informed h origin d := by
  induction hrun with
  | refl => exact hc
  | tail _ hstep ih =>
    obtain ⟨e, hturn, hmerged⟩ := hstep
    exact ih.turn hturn hmerged

/-- **The settled pool** of an informed node is the one of the chronicle. -/
theorem Informed.settledPool {origin : Nat} {c : Conversation P} (hc : Informed h origin c)
    (hlt : origin < c.epoch) : c.settledPool c.epoch = h.settled c.epoch := by
  have hsettled : ∀ m ∈ h.roster c.epoch, c.queues.isSettled (memberIdOf m.index) c.epoch =
      decide (¬ h.Seats (c.epoch - 1) m.index) := by
    intro m hm
    rw [Bool.eq_iff_iff, decide_eq_true_iff, ← hc.recent hlt m hm]
    unfold ConversationQueues.isSettled
    cases hrecord : c.queues.memberJoinEpoch.find? (memberIdOf m.index) with
    | none => simp
    | some epoch =>
      have hpast := hc.past _ _ hrecord
      simp only [decide_eq_true_eq, Option.some.injEq]
      omega
  unfold Conversation.settledPool members MlsService.members MlsGroup.memberIds Chronicle.settled
    ConversationQueues.settledMembers
  rw [hc.roster, List.filter_map]
  congr 1
  exact List.filter_congr hsettled

/-- **Settled-set agreement.** Two nodes that merge the commits of one chronicle have the same
settled pool at every epoch after the ones they started at, so that they reconcile the same
exhausted list to the same list. -/
theorem settled_pools_agree {c₁ c₂ d₁ d₂ : Conversation P} (hc₁ : Begins h c₁)
    (hc₂ : Begins h c₂) (hrun₁ : Attends h c₁ d₁) (hrun₂ : Attends h c₂ d₂)
    (hepoch : d₁.epoch = d₂.epoch) (hlt₁ : c₁.epoch < d₁.epoch) (hlt₂ : c₂.epoch < d₂.epoch) :
    d₁.settledPool d₁.epoch = d₂.settledPool d₂.epoch ∧
      (d₁.stewardList = d₂.stewardList →
        (after (reconcileStewardList : ConvM P _) d₁).stewardList =
          (after (reconcileStewardList : ConvM P _) d₂).stewardList) := by
  have hpool : d₁.settledPool d₁.epoch = d₂.settledPool d₂.epoch := by
    rw [(hc₁.informed.attends hrun₁).settledPool hlt₁,
      (hc₂.informed.attends hrun₂).settledPool hlt₂, hepoch]
  refine ⟨hpool, fun hlist => ?_⟩
  unfold reconcileStewardList
  rw [after_bind_ok _ (get_apply d₁), after_bind_ok _ (get_apply d₂), ← hpool, ← hepoch, ← hlist]
  split_ifs
  · exact hlist
  · dsimp only
    split_ifs
    · exact hlist
    · cases d₁.stewardList.installList P d₁.epoch (d₁.settledPool d₁.epoch)
        (d₁.stewardList.config.computeListSize (d₁.settledPool d₁.epoch).length) 0 with
      | ok l => rfl
      | error e => exact hlist

end Conversation

/-! ## Two members and a replacement -/

namespace Ideal

/-- The second of three members is replaced by `[13]`. -/
def swapChronicle : Chronicle where
  roster epoch := if epoch = 1 then [⟨0, [10]⟩, ⟨1, [11]⟩, ⟨2, [12]⟩]
    else [⟨0, [10]⟩, ⟨2, [12]⟩, ⟨1, [13]⟩]
  vacated _ := [1]

/-- A member that approved the replacement. -/
def approving (own : LeafNodeIndex) : Conversation platform :=
  conversationOf own 1 [[10], [11], [12]] (stewardsOf [0, 2] 1)
    [.memberInvite [13], .removeMember (memberIdOf 1)] none

/-- The first member commits it. -/
def committer : Conversation platform := readyToSelect (approving 0)

/-- The third receives the commit. -/
def bystander : Conversation platform :=
  { approving 2 with
    queues := (receiving (approving 2) [minted (approving 0)]).queues
    state := .freezing }

/-- The round of a node merges the replacement. -/
def replaces (c : Conversation platform) : Bool :=
  Program.endsWith ((Conversation.finalizeCommitRound true c.selfMemberId : ConvM platform _) c)
    fun r d => decide (d.epoch = c.epoch + 1) &&
      decide (d.mls.group.members = swapChronicle.roster d.epoch) &&
      r.merged.any fun merged =>
        decide ((vacatedBy mls c.mls.group merged.staged).map MemberId.leaf = [1])

theorem attends_of_replaces {c : Conversation platform} (h : replaces c = true) :
    ∃ d, Conversation.Attends swapChronicle c d ∧ d.epoch = c.epoch + 1 := by
  obtain ⟨r, d, hround, hd⟩ := Program.exists_of_endsWith h
  simp only [Bool.and_eq_true, decide_eq_true_eq] at hd
  obtain ⟨⟨hepoch, hroster⟩, hmerged⟩ := hd
  obtain ⟨merged, hm, hvacated⟩ := (Option.any_eq_true _ _).mp hmerged
  refine ⟨d, .single ⟨_, .step (.round hround), ?_⟩, hepoch⟩
  rw [hm]
  refine .inl ⟨hepoch, hroster, fun leaf => ?_⟩
  have hleft : (vacatedBy platform.mls c.mls.group merged.staged).map MemberId.leaf = [1] :=
    of_decide_eq_true hvacated
  rw [hleft]
  exact Iff.rfl

end Ideal

/-- The law, for the committer of the replacement and a member that received it. -/
theorem settled_pools_after_replacement : ∃ d₁ d₂ : Conversation Ideal.platform,
    Conversation.Attends Ideal.swapChronicle Ideal.committer d₁ ∧
      Conversation.Attends Ideal.swapChronicle Ideal.bystander d₂ ∧
      d₁.settledPool d₁.epoch = d₂.settledPool d₂.epoch ∧
      (d₁.stewardList = d₂.stewardList →
        (Program.after (Conversation.reconcileStewardList : ConvM Ideal.platform _) d₁).stewardList =
          (Program.after (Conversation.reconcileStewardList : ConvM Ideal.platform _)
            d₂).stewardList) := by
  obtain ⟨d₁, hrun₁, hepoch₁⟩ :=
    Ideal.attends_of_replaces (c := Ideal.committer) (by decide +kernel)
  obtain ⟨d₂, hrun₂, hepoch₂⟩ :=
    Ideal.attends_of_replaces (c := Ideal.bystander) (by decide +kernel)
  have hbegins₁ : Conversation.Begins Ideal.swapChronicle Ideal.committer := ⟨rfl, fun _ => rfl⟩
  have hbegins₂ : Conversation.Begins Ideal.swapChronicle Ideal.bystander := ⟨rfl, fun _ => rfl⟩
  have hsame : Ideal.committer.epoch = Ideal.bystander.epoch := rfl
  exact ⟨d₁, d₂, hrun₁, hrun₂, Conversation.settled_pools_agree hbegins₁ hbegins₂ hrun₁ hrun₂
    (by rw [hepoch₁, hepoch₂, hsame]) (by omega) (by omega)⟩

end DeMls
