import DeMls.CommitRound.Spec
import DeMls.Conversation.Handle

/-!
# What a mint packs

One spec lemma for each step of minting: the packing loop over readable requests, the proposals
OpenMLS is asked for, and the candidate that comes out.
-/

namespace DeMls

open Program

/-! ## Requests that can be packed -/

/-- A request the packing loop can read: an invite with a key package that yields a signature key,
or a removal. -/
inductive Packable (O : OpenMls) : ConversationUpdateRequest → Prop
  | invite {keyPackageBytes key : Bytes}
      (hkey : signatureKeyOfKeyPackage O keyPackageBytes = .ok key) :
      Packable O (.memberInvite keyPackageBytes)
  | removal (memberId : Bytes) : Packable O (.removeMember memberId)

/-- A request that still applies to a group: it admits a new key or vacates a seated leaf. -/
inductive Applicable (O : OpenMls) (g : MlsGroup O.Secrets) : ConversationUpdateRequest → Prop
  | invite {keyPackageBytes key : Bytes}
      (hkey : signatureKeyOfKeyPackage O keyPackageBytes = .ok key)
      (hnew : ∀ m ∈ g.members, m.signatureKey ≠ key) :
      Applicable O g (.memberInvite keyPackageBytes)
  | removal {memberId : Bytes} (hseated : memberId ∈ g.memberIds) :
      Applicable O g (.removeMember memberId)

theorem Applicable.packable {O : OpenMls} {g : MlsGroup O.Secrets}
    {req : ConversationUpdateRequest} (h : Applicable O g req) : Packable O req := by
  cases h with
  | invite hkey _ => exact .invite hkey
  | removal _ => exact .removal _

/-- The update a request becomes. -/
def inputOf (req : ConversationUpdateRequest) : Option MlsCommitInput :=
  match req.payload with
  | some (.memberInvite keyPackageBytes) => some (.add keyPackageBytes)
  | some (.removeMember memberId) => some (.remove memberId)
  | _ => none

/-- The action of an update. -/
def inputAction (O : OpenMls) : MlsCommitInput → Option Action
  | .add keyPackageBytes =>
    match signatureKeyOfKeyPackage O keyPackageBytes with
    | .ok key => some (.add, key)
    | .error _ => none
  | .remove memberId => some (.remove, memberId)

/-- Whether the packing loop takes a request it can read. -/
def packs (O : OpenMls) (g : MlsGroup O.Secrets) (urgentTarget : Option Bytes)
    (req : ConversationUpdateRequest) : Bool :=
  match req.payload with
  | some (.memberInvite keyPackageBytes) =>
    urgentTarget.isNone && (signatureKeyOfKeyPackage O keyPackageBytes).toOption.any fun key =>
      !g.members.any fun m => m.signatureKey = key
  | some (.removeMember memberId) =>
    urgentTarget.all (fun target => memberId = target) && decide (memberId ∈ g.memberIds)
  | _ => false

section Packing

variable {O : OpenMls} {g : MlsGroup O.Secrets}

/-- With no urgent target the loop takes exactly the applicable requests. -/
theorem packs_none_iff {req : ConversationUpdateRequest} :
    packs O g none req = true ↔ Applicable O g req := by
  constructor
  · intro h
    obtain ⟨payload⟩ := req
    unfold packs at h
    cases payload with
    | none => cases h
    | some payload =>
      cases payload with
      | memberInvite kp =>
        cases hkey : signatureKeyOfKeyPackage O kp with
        | error e => simp [hkey, Except.toOption] at h
        | ok key =>
          simp only [hkey, Option.isNone_none, Except.toOption, Option.any_some, Bool.true_and,
            Bool.not_eq_true', List.any_eq_false, decide_eq_true_eq] at h
          exact .invite hkey h
      | removeMember id =>
        simp only [Option.all_none, Bool.true_and, decide_eq_true_eq] at h
        exact .removal h
      | emergencyCriteria ev => cases h
      | stewardElection e => cases h
  · intro h
    cases h with
    | invite hkey hnew =>
      simp only [packs, ConversationUpdateRequest.memberInvite, hkey, Option.isNone_none,
        Except.toOption, Option.any_some, Bool.true_and, Bool.not_eq_true', List.any_eq_false,
        decide_eq_true_eq]
      exact hnew
    | removal hseated =>
      simp only [packs, ConversationUpdateRequest.removeMember, Option.all_none, Bool.true_and,
        decide_eq_true_eq]
      exact hseated

/-- **The packing loop.** Over readable requests it succeeds, and packs the ones it takes in
order. -/
theorem packUpdates_eq {urgentTarget : Option Bytes} {reqs : List ConversationUpdateRequest}
    (h : ∀ req ∈ reqs, Packable O req) :
    ∃ joiners, packUpdates O g urgentTarget reqs =
      .ok ((reqs.filter (packs O g urgentTarget)).filterMap inputOf, joiners) := by
  induction reqs with
  | nil => exact ⟨[], rfl⟩
  | cons req rest ih =>
    obtain ⟨joiners, hrest⟩ := ih fun r hr => h r (List.mem_cons_of_mem req hr)
    cases h req List.mem_cons_self with
    | invite hkey =>
      rename_i kp key
      by_cases hu : urgentTarget.isSome = true
      · refine ⟨joiners, ?_⟩
        have hp : packs O g urgentTarget (.memberInvite kp) = false := by
          cases urgentTarget <;> simp_all [packs, ConversationUpdateRequest.memberInvite]
        rw [List.filter_cons_of_neg (by simp [hp]), ← hrest]
        simp [packUpdates, ConversationUpdateRequest.memberInvite, hu]
      · have hu' : urgentTarget = none := by simpa using hu
        subst hu'
        by_cases hm : (g.members.any fun m => decide (m.signatureKey = key)) = true
        · refine ⟨joiners, ?_⟩
          have hp : packs O g none (.memberInvite kp) = false := by
            simp only [packs, ConversationUpdateRequest.memberInvite, hkey, Except.toOption,
              Option.any_some, hm]
            rfl
          rw [List.filter_cons_of_neg (by simp [hp]), ← hrest]
          simp [packUpdates, ConversationUpdateRequest.memberInvite, hkey, hm]
        · refine ⟨key :: joiners, ?_⟩
          have hp : packs O g none (.memberInvite kp) = true := by
            simp only [packs, ConversationUpdateRequest.memberInvite, hkey, Except.toOption,
              Option.any_some, hm]
            rfl
          rw [List.filter_cons_of_pos hp]
          simp [packUpdates, ConversationUpdateRequest.memberInvite, hkey, hm, hrest, inputOf]
    | removal id =>
      by_cases hp : packs O g urgentTarget (.removeMember id) = true
      · refine ⟨joiners, ?_⟩
        have hp' := hp
        simp only [packs, ConversationUpdateRequest.removeMember, Bool.and_eq_true,
          decide_eq_true_eq] at hp'
        have hu : ¬(urgentTarget.any fun target => decide (id ≠ target)) = true := by
          cases urgentTarget <;> simp_all
        rw [List.filter_cons_of_pos hp]
        show (if _ then _ else _) = _
        rw [if_neg hu, if_neg (not_not.mpr hp'.2), hrest]
        rfl
      · refine ⟨joiners, ?_⟩
        rw [List.filter_cons_of_neg hp, ← hrest]
        rw [Bool.not_eq_true] at hp
        simp only [packs, ConversationUpdateRequest.removeMember, Bool.and_eq_false_iff,
          decide_eq_false_iff_not] at hp
        show (if _ then _ else _) = _
        by_cases hu : (urgentTarget.any fun target => decide (id ≠ target)) = true
        · rw [if_pos hu]
        · have hmem : id ∉ g.memberIds := by
            rcases hp with hp | hp
            · cases urgentTarget <;> simp_all
            · exact hp
          rw [if_neg hu, if_pos hmem]

/-- A readable request and its update have one action. -/
theorem inputOf_action {req : ConversationUpdateRequest} (h : Packable O req) :
    ∃ u, inputOf req = some u ∧ inputAction O u = actionProjectionFromRequest O req ∧
      (actionProjectionFromRequest O req).isSome = true ∧ req.producesMlsAction = true := by
  cases h with
  | invite hkey =>
    refine ⟨_, rfl, rfl, ?_, rfl⟩
    simp [actionProjectionFromRequest, ConversationUpdateRequest.memberInvite, hkey]
  | removal id => exact ⟨_, rfl, rfl, rfl, rfl⟩

/-- The actions of the packed updates are the actions of the requests taken. -/
theorem filterMap_inputAction {reqs : List ConversationUpdateRequest}
    (h : ∀ req ∈ reqs, Packable O req) :
    (reqs.filterMap inputOf).filterMap (inputAction O) =
      reqs.filterMap (actionProjectionFromRequest O) := by
  induction reqs with
  | nil => rfl
  | cons req rest ih =>
    obtain ⟨u, hu, ha, _⟩ := inputOf_action (h req List.mem_cons_self)
    have hrest := ih fun r hr => h r (List.mem_cons_of_mem req hr)
    rw [List.filterMap_cons, hu, List.filterMap_cons, List.filterMap_cons, ha, hrest]

theorem length_filterMap_inputOf {reqs : List ConversationUpdateRequest}
    (h : ∀ req ∈ reqs, Packable O req) : (reqs.filterMap inputOf).length = reqs.length := by
  induction reqs with
  | nil => rfl
  | cons req rest ih =>
    obtain ⟨u, hu, _⟩ := inputOf_action (h req List.mem_cons_self)
    rw [List.filterMap_cons, hu, List.length_cons, List.length_cons,
      ih fun r hr => h r (List.mem_cons_of_mem req hr)]

/-- A packed removal names a seated leaf. -/
theorem packed_removal_seated {urgentTarget : Option Bytes}
    {reqs : List ConversationUpdateRequest} {memberId : Bytes}
    (h : .remove memberId ∈ (reqs.filter (packs O g urgentTarget)).filterMap inputOf) :
    memberId ∈ g.memberIds := by
  rw [List.mem_filterMap] at h
  obtain ⟨req, hreq, hin⟩ := h
  obtain ⟨_, hpacks⟩ := List.mem_filter.mp hreq
  unfold inputOf at hin
  unfold packs at hpacks
  split at hin
  · cases hin
  · rename_i hpay
    cases hin
    rw [hpay] at hpacks
    simp only [Bool.and_eq_true, decide_eq_true_eq] at hpacks
    exact hpacks.2
  · cases hin

end Packing

/-! ## Proposals -/

/-- **One proposal per update**, when the removals name seated leaves. -/
theorem length_createProposals {O : OpenMls} {updates : List MlsCommitInput} {m m' : MlsService O}
    {proposals : List Bytes} (hseated : ∀ id, .remove id ∈ updates → id ∈ m.group.memberIds)
    (h : MlsService.createProposals updates m = .ok proposals m') :
    proposals.length = updates.length := by
  induction updates generalizing m proposals with
  | nil =>
    obtain ⟨rfl, _⟩ := (pure_ok _ _ _ _).mp h
    rfl
  | cons u rest ih =>
    have hkeep : ∀ {n : MlsService O}, n.publicPart = m.publicPart →
        ∀ id, .remove id ∈ rest → id ∈ n.group.memberIds := by
      intro n hn id hid
      have hmem : n.group.members = m.group.members :=
        congrArg (fun g : MlsGroup Unit => g.members) hn
      unfold MlsGroup.memberIds
      rw [hmem]
      exact hseated id (List.mem_cons_of_mem u hid)
    cases u with
    | add kp =>
      unfold MlsService.createProposals at h
      simp only [bind_ok, pure_ok] at h
      obtain ⟨_, a, h₁, _, b, h₂, _, d, h₃, others, e, h₄, rfl, rfl⟩ := h
      have hab := (frame_ofResult MlsService.publicPart _).ok h₁
      have hbd := (MlsService.frame_onSecrets _ _).ok h₂
      have hd := (MlsService.frame_lift _ _).ok h₃
      rw [List.length_cons, List.length_cons, ih (hkeep (hd.trans (hbd.trans hab))) h₄]
    | remove id =>
      have hid := hseated id List.mem_cons_self
      obtain ⟨member, hmember, rfl⟩ := List.mem_map.mp hid
      have hat : (m.group.memberAt member.index).isSome = true :=
        MlsGroup.memberAt_isSome_iff.mpr (List.mem_map_of_mem hmember)
      unfold MlsService.createProposals at h
      simp only [bind_ok, get_apply, EStateM.Result.ok.injEq] at h
      obtain ⟨_, _, ⟨rfl, rfl⟩, h⟩ := h
      simp only [leafIndexOf_memberIdOf, hat, if_true, bind_ok, pure_ok] at h
      obtain ⟨_, b, h₂, _, d, h₃, others, e, h₄, rfl, rfl⟩ := h
      have hbd := (MlsService.frame_onSecrets _ _).ok h₂
      have hd := (MlsService.frame_lift _ _).ok h₃
      rw [List.length_cons, List.length_cons, ih (hkeep (hd.trans hbd)) h₄]

theorem createCommitCandidate_proposals {O : OpenMls} {updates : List MlsCommitInput}
    {m m' : MlsService O} {artifacts : CommitArtifacts}
    (h : MlsService.createCommitCandidate updates m = .ok artifacts m') :
    ∃ n, MlsService.createProposals updates m = .ok artifacts.proposals n := by
  unfold MlsService.createCommitCandidate at h
  simp only [bind_ok] at h
  obtain ⟨proposals, n, hp, ⟨_, welcome⟩, _, _, h⟩ := h
  cases welcome with
  | some w =>
    simp only [bind_ok, pure_ok] at h
    obtain ⟨_, _, _, _, _, _, rfl, _⟩ := h
    exact ⟨n, hp⟩
  | none =>
    simp only [bind_ok, pure_ok] at h
    obtain ⟨_, _, _, rfl, _⟩ := h
    exact ⟨n, hp⟩

theorem onSecrets_error {O : OpenMls} {α : Type} {err : String → MlsError}
    {f : MlsGroup O.Secrets → Except String α × O.Secrets} {m m' : MlsService O} {e : MlsError}
    (h : MlsService.onSecrets err f m = .error e m') : ∃ text, e = err text := by
  unfold MlsService.onSecrets at h
  split at h
  · cases h
  · rename_i text _ _
    cases h
    exact ⟨text, rfl⟩

theorem lift_error {O : OpenMls} {α : Type} {err : String → MlsError} {r : Except String α}
    {m m' : MlsService O} {e : MlsError}
    (h : (MlsService.lift err r : MlsService.MlsM O α) m = .error e m') : ∃ text, e = err text := by
  unfold MlsService.lift ofResult at h
  cases r with
  | ok a => cases h
  | error text =>
    cases h
    exact ⟨text, rfl⟩

/-- A key package whose signature key can be read does not fail to parse. -/
theorem validateKeyPackage_error {O : OpenMls} {keyPackageBytes key : Bytes} {e : MlsError}
    (hkey : signatureKeyOfKeyPackage O keyPackageBytes = .ok key)
    (h : validateKeyPackage O keyPackageBytes = .error e) (text : String) :
    e ≠ .keyPackageTls text := by
  unfold signatureKeyOfKeyPackage at hkey
  unfold validateKeyPackage at h
  cases hparse : O.deserializeKeyPackage keyPackageBytes with
  | error t =>
    rw [hparse] at hkey
    cases hkey
  | ok kpIn =>
    rw [hparse] at h
    dsimp only at h
    split at h
    · cases h
      simp
    · cases h

theorem createProposals_error {O : OpenMls} {updates : List MlsCommitInput} {m m' : MlsService O}
    {e : MlsError}
    (hkeys : ∀ kp, .add kp ∈ updates → ∃ key, signatureKeyOfKeyPackage O kp = .ok key)
    (h : MlsService.createProposals updates m = .error e m') (text : String) :
    e ≠ .keyPackageTls text := by
  induction updates generalizing m with
  | nil => exact absurd h (pure_error _ _ _ _)
  | cons u rest ih =>
    have hrest : ∀ {n : MlsService O}, MlsService.createProposals rest n = .error e m' →
        e ≠ .keyPackageTls text := ih fun kp hkp => hkeys kp (List.mem_cons_of_mem u hkp)
    -- The two steps that make one proposal, and the rest of the batch.
    have hstep : ∀ {n : MlsService O} {err : String → MlsError}
        {f : MlsGroup O.Secrets → Except String O.MessageOut × O.Secrets},
        (∀ t, err t ≠ .keyPackageTls text) →
        (do
          let out ← MlsService.onSecrets err f
          let bytes ← MlsService.lift .mlsMessageSerialize (O.toBytes out)
          let others ← MlsService.createProposals rest
          pure (bytes :: others) : MlsService.MlsM O (List Bytes)) n = .error e m' →
        e ≠ .keyPackageTls text := by
      intro n err f herr h
      simp only [bind_error, pure_error, and_false, exists_false, or_false] at h
      rcases h with h | ⟨_, _, _, h | ⟨_, _, _, h⟩⟩
      · obtain ⟨t, rfl⟩ := onSecrets_error h
        exact herr t
      · obtain ⟨t, rfl⟩ := lift_error h
        simp
      · exact hrest h
    cases u with
    | add kp =>
      obtain ⟨key, hkey⟩ := hkeys kp List.mem_cons_self
      unfold MlsService.createProposals at h
      rw [bind_error] at h
      rcases h with h | ⟨_, _, _, h⟩
      · unfold ofResult at h
        cases hvalid : validateKeyPackage O kp with
        | ok _ =>
          rw [hvalid] at h
          cases h
        | error e' =>
          rw [hvalid] at h
          cases h
          exact validateKeyPackage_error hkey hvalid text
      · exact hstep (by simp) h
    | remove id =>
      unfold MlsService.createProposals at h
      rw [bind_error] at h
      rcases h with h | ⟨_, _, _, h⟩
      · cases h
      · cases hindex : leafIndexOf id with
        | none =>
          rw [hindex] at h
          exact hrest h
        | some index =>
          rw [hindex] at h
          dsimp only at h
          split_ifs at h
          · exact hstep (by simp) h
          · exact hrest h

theorem createCommitCandidate_error {O : OpenMls} {updates : List MlsCommitInput}
    {m m' : MlsService O} {e : MlsError}
    (hkeys : ∀ kp, .add kp ∈ updates → ∃ key, signatureKeyOfKeyPackage O kp = .ok key)
    (h : MlsService.createCommitCandidate updates m = .error e m') (text : String) :
    e ≠ .keyPackageTls text := by
  unfold MlsService.createCommitCandidate at h
  rw [bind_error] at h
  rcases h with h | ⟨_, _, _, h⟩
  · exact createProposals_error hkeys h text
  · rw [bind_error] at h
    rcases h with h | ⟨⟨_, welcome⟩, _, _, h⟩
    · obtain ⟨t, rfl⟩ := onSecrets_error h
      simp
    · cases welcome with
      | some w =>
        simp only [bind_error, pure_error, and_false, exists_false, or_false] at h
        rcases h with h | ⟨_, _, _, h⟩
        · obtain ⟨t, rfl⟩ := lift_error h
          simp
        · obtain ⟨t, rfl⟩ := lift_error h
          simp
      | none =>
        simp only [bind_error, pure_error, and_false, exists_false, or_false] at h
        obtain ⟨t, rfl⟩ := lift_error h
        simp

/-! ## The candidate -/

namespace Conversation

variable {P : Platform}

/-- **A mint.** The minter may commit and is not queued for removal, the batch packs, and the
candidate holds the proposals OpenMLS made of it. -/
theorem localCandidate_some {c c' : Conversation P} {self : Bytes} {candidate : CommitCandidate}
    (h : localCandidate self c = .ok (some candidate) c') :
    ∃ updates joiners artifacts m, c.packedBatch = .ok (updates, joiners) ∧ updates ≠ [] ∧
      MlsService.createCommitCandidate updates c.mls = .ok artifacts m ∧
      candidate = ⟨c.queues.conversationId, artifacts.proposals, artifacts.commit, self⟩ ∧
      c.queues.hasApprovedRemoval self = false := by
  unfold localCandidate at h
  simp only [bind_ok, get_apply, EStateM.Result.ok.injEq] at h
  obtain ⟨_, _, ⟨rfl, rfl⟩, h⟩ := h
  split_ifs at h with hauth hempty hself hgov
  · simp at h
  · simp at h
  · simp at h
  · simp at h
  · rw [bind_ok] at h
    obtain ⟨⟨updates, joiners⟩, _, hbatch, h⟩ := h
    obtain ⟨hpack, rfl⟩ := (ofResult_ok _ _ _ _).mp hbatch
    simp only at h
    split_ifs at h with hnone
    · simp at h
    · simp only [bind_ok, onMls, zoom_ok, modify_apply, pure_ok, EStateM.Result.ok.injEq] at h
      obtain ⟨artifacts, _, ⟨m, hm, rfl⟩, _, _, _, hc, _⟩ := h
      cases hc
      exact ⟨updates, joiners, artifacts, m, hpack, hnone, hm, rfl, by simpa using hself⟩

/-- **A candidate over readable approvals** holds one proposal for each approval taken. -/
theorem length_localCandidate {c c' : Conversation P} {self : Bytes} {candidate : CommitCandidate}
    (hpack : ∀ req ∈ c.queues.approvedProposals.values, Packable P.mls req)
    (h : localCandidate self c = .ok (some candidate) c') :
    candidate.mlsProposals.length = ((c.queues.approvedProposals.values.take
      c.config.commitBatchMax).filter (packs P.mls c.mls.group c.queues.urgentCommitTarget)).length := by
  have htake : ∀ req ∈ c.queues.approvedProposals.values.take c.config.commitBatchMax,
      Packable P.mls req := fun req hreq => hpack req (List.mem_of_mem_take hreq)
  obtain ⟨updates, joiners, artifacts, m, hbatch, _, hcreate, rfl, _⟩ := localCandidate_some h
  obtain ⟨joiners', hbatch'⟩ := @packUpdates_eq _ c.mls.group c.queues.urgentCommitTarget _ htake
  unfold packedBatch at hbatch
  rw [hbatch'] at hbatch
  cases hbatch
  obtain ⟨n, hproposals⟩ := createCommitCandidate_proposals hcreate
  rw [length_createProposals (fun id hid => packed_removal_seated hid) hproposals]
  exact length_filterMap_inputOf fun req hreq => htake req (List.mem_of_mem_filter hreq)

/-- **A mint over readable approvals** does not fail on what is queued. -/
theorem localCandidate_error {c c' : Conversation P} {self : Bytes} {e : ConversationError}
    (hpack : ∀ req ∈ c.queues.approvedProposals.values, Packable P.mls req)
    (h : localCandidate self c = .error e c') :
    (∀ ids, e ≠ .unexpectedNonMlsProposals ids) ∧ e ≠ .invalidConversationUpdateRequest ∧
      ∀ text, e ≠ .mls (.keyPackageTls text) := by
  have hgovernance : c.nonMlsIds = [] := by
    unfold nonMlsIds
    rw [List.map_eq_nil_iff, List.filter_eq_nil_iff]
    intro entry hentry
    have hp := hpack entry.2 (List.mem_map_of_mem hentry)
    generalize entry.2 = req at hp
    cases hp with
    | invite _ => exact Bool.false_ne_true
    | removal _ => exact Bool.false_ne_true
  have htake : ∀ req ∈ c.queues.approvedProposals.values.take c.config.commitBatchMax,
      Packable P.mls req := fun req hreq => hpack req (List.mem_of_mem_take hreq)
  obtain ⟨joiners, hbatch⟩ := @packUpdates_eq _ c.mls.group c.queues.urgentCommitTarget _ htake
  unfold localCandidate at h
  rw [bind_error] at h
  rcases h with h | ⟨_, _, hget, h⟩
  · cases h
  cases hget
  split_ifs at h with hauth hempty hself hnon
  · cases h
    simp
  · cases h
    simp
  · cases h
  · exact absurd hgovernance hnon
  · rw [bind_error] at h
    rcases h with h | ⟨⟨updates, _⟩, _, hpacked, h⟩
    · unfold packedBatch at h
      rw [hbatch] at h
      cases h
    obtain ⟨hpacked, rfl⟩ := (ofResult_ok _ _ _ _).mp hpacked
    unfold packedBatch at hpacked
    rw [hbatch] at hpacked
    cases hpacked
    dsimp only at h
    split_ifs at h with hnone
    · cases h
    · rw [bind_error] at h
      rcases h with h | ⟨_, _, _, h⟩
      · unfold onMls at h
        rw [zoom_error] at h
        obtain ⟨m, t, hcreate, rfl, _⟩ := h
        refine ⟨by simp, by simp, ?_⟩
        rintro text ⟨⟩
        refine createCommitCandidate_error ?_ hcreate text rfl
        intro kp hkp
        obtain ⟨req, hreq, hin⟩ := List.mem_filterMap.mp hkp
        have hp := htake req (List.mem_of_mem_filter hreq)
        cases hp with
        | invite hkey =>
          cases hin
          exact ⟨_, hkey⟩
        | removal _ => cases hin
      · rw [bind_error] at h
        rcases h with h | ⟨_, _, _, h⟩
        · cases h
        · cases h

end Conversation

end DeMls
