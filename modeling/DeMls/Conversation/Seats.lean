import DeMls.Conversation.ApprovedQueue

/-!
# Proposals and the seats they name

A removal or an accusation names a leaf, and the leaf may change hands while its vote is open. A
history follows each proposal from the moment it is first tracked; `proposals_follow_their_seat`
says when what it leads to still meets the member it was made about.
-/

namespace DeMls

open Program Runs

variable {P : Platform}

/-- The signature key seated at the leaf a `member_id` names. -/
def keyIn (members : List Member) (memberId : Bytes) : Option Bytes :=
  (leafIndexOf memberId).bind fun i =>
    (members.find? fun m => m.index = i).map Member.signatureKey

namespace Conversation

def keyAt (c : Conversation P) (memberId : Bytes) : Option Bytes :=
  keyIn c.mls.group.members memberId

/-! ## The history of a run -/

/-- A score operation on the leaf a proposal names: who sat there when the proposal was first
tracked, and who sits there when it is scored. -/
structure ScoreDeed where
  first : Option Bytes
  occupant : Option Bytes

/-- What a run did with each proposal. -/
structure History where
  /-- The seats when a proposal was first tracked. -/
  seen : ProposalId → Option (Bytes → Option Bytes)
  /-- The proposal that set the urgent target last. -/
  urgentBy : Option ProposalId
  scored : List ScoreDeed

namespace History

def empty : History := ⟨fun _ => none, none, []⟩

/-- Who sat at a leaf when a proposal was first tracked. -/
def first (h : History) (id : ProposalId) (l : Bytes) : Option Bytes :=
  (h.seen id).bind fun seats => seats l

end History

/-- The score operations an outcome makes on the leaf its proposal names. -/
def scoreDeeds (c : Conversation P) (h : History) (event : ConsensusEvent) : List ScoreDeed :=
  match c.resolved event.fields.1 with
  | none => []
  | some request =>
    match extractEmergencyEvidence request with
    | none => []
    | some ev =>
      ((emergencyScoreOps request event.fields.2.1).filter fun op =>
        op.memberId = ev.targetMemberId).map fun op =>
          ⟨h.first event.fields.1 op.memberId, c.keyAt op.memberId⟩

/-- Whether an outcome sets the urgent target. -/
def setsUrgent (c : Conversation P) (event : ConsensusEvent) : Bool :=
  match c.resolved event.fields.1 with
  | none => false
  | some request =>
    match (c.applied event request).1 with
    | .urgentRemoval _ => true
    | _ => false

/-- The history after a step from `c` to `d`. -/
def record (h : History) (c : Conversation P) (e : Event P) (d : Conversation P) : History where
  seen id :=
    match h.seen id with
    | some seats => some seats
    | none => if d.queues.votingProposals.contains id then some d.keyAt else none
  urgentBy :=
    match e with
    | .outcome event => if c.setsUrgent event then some event.fields.1 else h.urgentBy
    | _ => h.urgentBy
  scored :=
    match e with
    | .outcome event => h.scored ++ c.scoreDeeds h event
    | _ => h.scored

/-- The first sighting stays. -/
theorem first_record {h : History} {id : ProposalId} {l k : Bytes} (hk : h.first id l = some k)
    (c : Conversation P) (e : Event P) (d : Conversation P) :
    (record h c e d).first id l = some k := by
  unfold History.first at hk ⊢
  obtain ⟨seats, hseen, hseat⟩ := Option.bind_eq_some_iff.mp hk
  have hkept : (record h c e d).seen id = some seats := by
    unfold record
    dsimp only
    rw [hseen]
  rw [hkept]
  exact hseat

/-! ## The law -/

/-- Whoever sits at a leaf now sat there when the proposal was first tracked. -/
def SameSeat (h : History) (c : Conversation P) (id : ProposalId) (l : Bytes) : Prop :=
  ∀ k k', h.first id l = some k → c.keyAt l = some k' → k' = k

/-- No proposal led to a queued removal, an urgent target or a score operation against another
member than the one it was made about. -/
structure Faithful (s : Conversation P × History) : Prop where
  queued : ∀ id l, (id, .removeMember l) ∈ s.1.queues.approvedProposals.entries →
    SameSeat s.2 s.1 id l
  urgent : ∀ id l, s.2.urgentBy = some id → s.1.queues.urgentCommitTarget = some l →
    SameSeat s.2 s.1 id l
  scored : ∀ deed ∈ s.2.scored, ∀ k k', deed.first = some k → deed.occupant = some k' → k' = k

/-- An outcome acts on a leaf: it queues its removal, or scores it. -/
inductive ActsOn (c : Conversation P) (event : ConsensusEvent)
    (request : ConversationUpdateRequest) : Bytes → Prop
  | removal {l : Bytes} (happroved : event.fields.2.1 = true)
      (hjoins : Joins P.mls c.queues request) (hpayload : request.payload = some (.removeMember l)) :
      ActsOn c event request l
  | urgent {ev : ViolationEvidence} (happroved : event.fields.2.1 = true)
      (hpayload : request.payload = some (.emergencyCriteria (some ev)))
      (hscore : isScoreBelowThreshold ev = true)
      (hfresh : c.queues.hasApprovedRemoval ev.targetMemberId = false) :
      ActsOn c event request ev.targetMemberId
  | score {ev : ViolationEvidence} {op : ScoreOp}
      (hpayload : request.payload = some (.emergencyCriteria (some ev)))
      (hop : op ∈ emergencyScoreOps request event.fields.2.1)
      (htarget : op.memberId = ev.targetMemberId) : ActsOn c event request ev.targetMemberId

/-- An outcome acts on a leaf only while nobody else has taken it, and a commit merged under an
urgent target seats nobody else on a vacant leaf whose removal stays queued. -/
def KeepsSeat (s : Conversation P × History) : Event P → Prop
  | .outcome event => ∀ request, s.1.resolved event.fields.1 = some request →
      ∀ l, ActsOn s.1 event request l → SameSeat s.2 s.1 event.fields.1 l
  | .round _ (some _) roster => ∀ target, s.1.queues.urgentCommitTarget = some target →
      ∀ id l, l ≠ target → (id, .removeMember l) ∈ s.1.queues.approvedProposals.entries →
        s.1.keyAt l = none → ∀ k k', s.2.first id l = some k → keyIn roster l = some k' → k' = k
  | _ => True

/-! ## One step -/

theorem keyAt_congr {c d : Conversation P} (hgroup : d.mls.publicPart = c.mls.publicPart)
    (l : Bytes) : d.keyAt l = c.keyAt l := by
  unfold keyAt
  rw [show d.mls.group.members = c.mls.group.members from members_of_publicPart hgroup]

/-- A proposal tracked before the step keeps its first sighting; one tracked by it was tracked
over the seats of `d`. -/
theorem sameSeat_record {h : History} {c d : Conversation P} {e : Event P} {id : ProposalId}
    {l : Bytes} (hsame : ∀ k k', h.first id l = some k → d.keyAt l = some k' → k' = k) :
    SameSeat (record h c e d) d id l := by
  intro k k' hk hk'
  unfold History.first record at hk
  dsimp only at hk
  cases hseen : h.seen id with
  | some seats =>
    rw [hseen] at hk
    refine hsame k k' ?_ hk'
    unfold History.first
    rw [hseen]
    exact hk
  | none =>
    rw [hseen] at hk
    dsimp only at hk
    split_ifs at hk
    · have hk : d.keyAt l = some k := hk
      rw [hk] at hk'
      exact (Option.some.inj hk').symm
    · cases hk

theorem SameSeat.record {h : History} {c d : Conversation P} {e : Event P} {id : ProposalId}
    {l : Bytes} (hsame : SameSeat h c id l) (hgroup : d.mls.publicPart = c.mls.publicPart) :
    SameSeat (record h c e d) d id l := by
  apply sameSeat_record
  intro k k' hk hk'
  rw [keyAt_congr hgroup] at hk'
  exact hsame k k' hk hk'

/-- What an outcome scores on the leaf it names meets the member it was made about. -/
theorem scoreDeeds_faithful {c : Conversation P} {h : History} {event : ConsensusEvent}
    (hcond : ∀ request, c.resolved event.fields.1 = some request →
      ∀ l, ActsOn c event request l → SameSeat h c event.fields.1 l) :
    ∀ deed ∈ c.scoreDeeds h event, ∀ k k', deed.first = some k → deed.occupant = some k' →
      k' = k := by
  intro deed hdeed k k' hk hk'
  unfold scoreDeeds at hdeed
  cases hresolved : c.resolved event.fields.1 with
  | none =>
    rw [hresolved] at hdeed
    cases hdeed
  | some request =>
    rw [hresolved] at hdeed
    cases hevidence : extractEmergencyEvidence request with
    | none =>
      simp only [hevidence] at hdeed
      cases hdeed
    | some ev =>
      simp only [hevidence, List.mem_map, List.mem_filter, decide_eq_true_eq] at hdeed
      obtain ⟨op, ⟨hop, htarget⟩, rfl⟩ := hdeed
      rw [htarget] at hk hk'
      exact hcond request hresolved ev.targetMemberId
        (.score (payload_of_evidence hevidence) hop htarget) k k' hk hk'

/-- A step that queues nothing and merges nothing. -/
theorem Faithful.of_kept {c d : Conversation P} {h : History} {e : Event P} (hI : Faithful (c, h))
    (hquiet : ∀ event, e = .outcome event → c.resolved event.fields.1 = none)
    (hledger : d.queues.ledger = c.queues.ledger) (hgroup : d.mls.publicPart = c.mls.publicPart) :
    Faithful (d, record h c e d) := by
  have hquiet : (record h c e d).urgentBy = h.urgentBy ∧ (record h c e d).scored = h.scored := by
    cases e with
    | outcome event =>
      have hnone := hquiet event rfl
      unfold record setsUrgent scoreDeeds
      simp [hnone]
    | _ => exact ⟨rfl, rfl⟩
  refine ⟨fun id l he => ?_, fun id l hby hu => ?_, ?_⟩
  · have happroved : d.queues.approvedProposals = c.queues.approvedProposals :=
      congrArg Prod.fst hledger
    dsimp only at he
    rw [happroved] at he
    exact (hI.queued id l he).record hgroup
  · have hurgent : d.queues.urgentCommitTarget = c.queues.urgentCommitTarget :=
      congrArg (fun l => l.2.1) hledger
    dsimp only at hby hu
    rw [hquiet.1] at hby
    rw [hurgent] at hu
    exact (hI.urgent id l hby hu).record hgroup
  · dsimp only
    rw [hquiet.2]
    exact hI.scored

/-- Outcomes: what is queued or made urgent passed the condition, the rest is as it was. -/
theorem Faithful.of_outcome {c d : Conversation P} {h : History} {event : ConsensusEvent}
    {request : ConversationUpdateRequest} (hI : Faithful (c, h))
    (hcond : KeepsSeat (c, h) (.outcome event))
    (hresolved : c.resolved event.fields.1 = some request)
    (hgroup : d.mls.publicPart = c.mls.publicPart)
    (heffect : OutcomeEffect P.mls c.queues event.fields.1 event.fields.2.1 request
      (c.applied event request).1 d.queues.ledger) :
    Faithful (d, record h c (.outcome event) d) := by
  have hscored : ∀ deed ∈ (record h c (.outcome event) d).scored, ∀ k k',
      deed.first = some k → deed.occupant = some k' → k' = k := by
    intro deed hdeed
    rcases List.mem_append.mp hdeed with hold | hnew
    · exact hI.scored deed hold
    · exact scoreDeeds_faithful hcond deed hnew
  have hsame : ∀ {id l}, SameSeat h c id l → SameSeat (record h c (.outcome event) d) d id l :=
    fun hseat => hseat.record hgroup
  -- The urgent target is somebody else's, unless this outcome set it.
  have hother : (∀ t, (c.applied event request).1 ≠ .urgentRemoval t) →
      (record h c (.outcome event) d).urgentBy = h.urgentBy := by
    intro hresult
    have hnot : c.setsUrgent event = false := by
      unfold setsUrgent
      simp only [hresolved]
    show (if c.setsUrgent event then some event.fields.1 else h.urgentBy) = h.urgentBy
    rw [hnot, if_neg Bool.false_ne_true]
  generalize hl : d.queues.ledger = ledger at heffect
  cases heffect with
  | kept hresult =>
    refine ⟨fun id l he => ?_, fun id l hby hu => ?_, hscored⟩
    · have happroved : d.queues.approvedProposals = c.queues.approvedProposals :=
        congrArg Prod.fst hl
      dsimp only at he
      rw [happroved] at he
      exact hsame (hI.queued id l he)
    · have hurgent : d.queues.urgentCommitTarget = c.queues.urgentCommitTarget :=
        congrArg (fun l => l.2.1) hl
      dsimp only at hby hu
      rw [hother hresult] at hby
      rw [hurgent] at hu
      exact hsame (hI.urgent id l hby hu)
  | @urgent ev hresult happroved hpayload hscore hfresh =>
    have hseat := hcond request hresolved _ (.urgent happroved hpayload hscore hfresh)
    refine ⟨fun id l he => ?_, fun id l hby hu => ?_, hscored⟩
    · have hqueue : d.queues.approvedProposals = c.queues.approvedProposals.insert event.fields.1
          (removalRequestFor ev) := congrArg Prod.fst hl
      dsimp only at he
      rw [hqueue] at he
      rcases OrderedMap.mem_insert.mp he with heq | ⟨hold, _⟩
      · cases heq
        exact hsame hseat
      · exact hsame (hI.queued id l hold)
    · have hurgent : d.queues.urgentCommitTarget = some ev.targetMemberId :=
        congrArg (fun l => l.2.1) hl
      have hset : c.setsUrgent event = true := by
        unfold setsUrgent
        simp only [hresolved, hresult]
      have hby : (if c.setsUrgent event then some event.fields.1 else h.urgentBy) = some id := hby
      rw [hset] at hby
      cases hby
      cases hurgent.symm.trans hu
      exact hsame hseat
  | queued hresult happroved hjoins =>
    refine ⟨fun id l he => ?_, fun id l hby hu => ?_, hscored⟩
    · have hqueue : d.queues.approvedProposals = c.queues.approvedProposals.insert event.fields.1
          request := congrArg Prod.fst hl
      dsimp only at he
      rw [hqueue] at he
      rcases OrderedMap.mem_insert.mp he with heq | ⟨hold, _⟩
      · cases heq
        exact hsame (hcond _ hresolved l (.removal happroved hjoins rfl))
      · exact hsame (hI.queued id l hold)
    · have hurgent : d.queues.urgentCommitTarget = c.queues.urgentCommitTarget :=
        congrArg (fun l => l.2.1) hl
      dsimp only at hby hu
      rw [hother hresult] at hby
      rw [hurgent] at hu
      exact hsame (hI.urgent id l hby hu)

/-- Merges: a removal that stays queued was not carried out, so its leaf keeps its occupant; a
vacant one is covered by the condition. -/
theorem Faithful.of_merges (hO : FollowsCommits P.mls) {c d : Conversation P} {h : History}
    {allowSubset : Bool} {merged : MergedCommit P.mls} {batch : List ConversationUpdateRequest}
    (hI : Faithful (c, h))
    (hcond : KeepsSeat (c, h) (.round allowSubset (some merged) d.mls.group.members))
    (hmerge : Merges merged.candidate.commitHash (c.epoch + 1) c.roundState.taken d.roundState
      merged.staged batch) :
    Faithful (d, record h c (.round allowSubset (some merged) d.mls.group.members) d) := by
  have hreseats : Reseats P.mls merged.staged c.mls.group.members d.mls.group.members :=
    hmerge.tree.reseats hO
  have hnone : d.queues.urgentCommitTarget = none := hmerge.approved.2.2
  refine ⟨fun id l he => ?_, fun id l _ hu => ?_, hI.scored⟩
  · obtain ⟨target, hurgent, hold, htarget, hkept⟩ := hmerge.still_queued he
    have hurgent : c.queues.urgentCommitTarget = some target := hurgent
    have hold : (id, .removeMember l) ∈ c.queues.approvedProposals.entries := hold
    have hother : l ≠ target := by simpa using htarget
    refine @sameSeat_record P h c d (.round allowSubset (some merged) d.mls.group.members) id l ?_
    intro k k' hk hk'
    have hk' : d.keyAt l = some k' := hk'
    cases hbefore : c.keyAt l with
    | none => exact hcond target hurgent id l hother hold hbefore k k' hk hk'
    | some k₀ =>
      have hafter : d.keyAt l = some k₀ := by
        unfold keyAt keyIn at hbefore ⊢
        obtain ⟨i, hi, hmap⟩ := Option.bind_eq_some_iff.mp hbefore
        obtain ⟨m, hm, hmkey⟩ := Option.map_eq_some_iff.mp hmap
        obtain rfl := leafIndexOf_eq_some_iff.mp hi
        have hm : c.mls.group.memberAt i = some m := hm
        have hstays : d.mls.group.memberAt i = some m := by
          apply hreseats.memberAt hm
          rintro v hv rfl
          have hnot := hkept v hv
          simp at hnot
        have hstays : d.mls.group.members.find? (fun m => m.index = i) = some m := hstays
        rw [leafIndexOf_memberIdOf, Option.bind_some, hstays, ← hmkey]
        rfl
      have heq : k₀ = k' := Option.some.inj (hafter.symm.trans hk')
      rw [← heq]
      exact hI.queued id l hold k k₀ hk hbefore
  · dsimp only at hu
    rw [hnone] at hu
    cases hu

/-- **One step** keeps what proposals led to on the members they were made about. -/
theorem Faithful.step (hO : FollowsCommits P.mls) {c d : Conversation P} {h : History} {e : Event P}
    (hI : Faithful (c, h)) (hcond : KeepsSeat (c, h) e) (hstep : Step c e d) :
    Faithful (d, record h c e d) := by
  cases hstep.effect with
  | kept hquiet hledger hgroup => exact hI.of_kept hquiet hledger hgroup
  | outcome hresolved hgroup heffect => exact hI.of_outcome hcond hresolved hgroup heffect
  | merged hmerge => exact hI.of_merges hO hcond hmerge

theorem faithful_of_fresh {c : Conversation P} (h : Fresh c) : Faithful (c, History.empty) := by
  obtain ⟨id, window, hqueues⟩ := h
  refine ⟨?_, ?_, ?_⟩
  · intro id l he
    rw [hqueues] at he
    cases he
  · intro id l hby
    cases hby
  · intro deed hdeed
    cases hdeed

end Conversation

/-- A packed removal is one that was queued. -/
theorem removal_of_packUpdates {O : OpenMls} {g : MlsGroup O.Secrets} {urgentTarget : Option Bytes}
    {reqs : List ConversationUpdateRequest} {updates : List MlsCommitInput} {joiners : List Bytes}
    (h : packUpdates O g urgentTarget reqs = .ok (updates, joiners)) {l : Bytes}
    (hl : .remove l ∈ updates) : .removeMember l ∈ reqs := by
  induction reqs generalizing updates joiners with
  | nil =>
    cases h
    cases hl
  | cons req rest ih =>
    obtain ⟨payload⟩ := req
    unfold packUpdates at h
    cases payload with
    | none => cases h
    | some payload =>
      cases payload with
      | memberInvite kp =>
        dsimp only at h
        split_ifs at h
        · exact List.mem_cons_of_mem _ (ih h hl)
        · cases hkey : signatureKeyOfKeyPackage O kp with
          | error e => simp [hkey] at h
          | ok key =>
            simp only [hkey] at h
            split_ifs at h
            · exact List.mem_cons_of_mem _ (ih h hl)
            · cases hrest : packUpdates O g urgentTarget rest with
              | error e => simp [hrest] at h
              | ok packed =>
                simp only [hrest, Except.ok.injEq, Prod.mk.injEq] at h
                rw [← h.1] at hl
                rcases List.mem_cons.mp hl with hadd | hl
                · cases hadd
                · exact List.mem_cons_of_mem _ (ih hrest hl)
      | removeMember id =>
        dsimp only at h
        split_ifs at h
        · exact List.mem_cons_of_mem _ (ih h hl)
        · cases hrest : packUpdates O g urgentTarget rest with
          | error e => simp [hrest] at h
          | ok packed =>
            simp only [hrest, Except.ok.injEq, Prod.mk.injEq] at h
            rw [← h.1] at hl
            rcases List.mem_cons.mp hl with hremove | hl
            · cases hremove
              exact List.mem_cons_self
            · exact List.mem_cons_of_mem _ (ih hrest hl)
        · exact List.mem_cons_of_mem _ (ih h hl)
      | emergencyCriteria ev => cases h
      | stewardElection e => cases h

namespace Conversation

/-- A conversation with nothing tracked, and nothing recorded. -/
def FreshStart (s : Conversation P × History) : Prop := Fresh s.1 ∧ s.2 = .empty

/-- One more step of a run, recorded. -/
theorem reaches_record {cond : Conversation P × History → Event P → Prop} {c d : Conversation P}
    {h : History} {e : Event P} (hc : Reaches FreshStart (watch record Step) cond (c, h))
    (hcond : cond (c, h) e) (hstep : Step c e d) :
    Reaches FreshStart (watch record Step) cond (d, record h c e d) :=
  .next hc hcond ⟨hstep, rfl⟩

/-- **Proposals follow their seat** in every run whose outcomes act on a leaf only while nobody
else has taken it: no queued removal, no urgent target, no score operation and no Remove of a mint
meets another member than the one the proposal was first tracked for. -/
theorem proposals_follow_their_seat (hO : FollowsCommits P.mls) {s : Conversation P × History}
    (h : Reaches FreshStart (watch record Step) KeepsSeat s) :
    Faithful s ∧ ∀ updates joiners, s.1.packedBatch = .ok (updates, joiners) →
      ∀ l, .remove l ∈ updates → ∃ id,
        (id, .removeMember l) ∈ s.1.queues.approvedProposals.entries ∧ SameSeat s.2 s.1 id l := by
  have hfaithful : Faithful s := by
    refine h.invariant ?_ ?_
    · rintro ⟨c, history⟩ ⟨hfresh, hempty⟩
      have hempty : history = .empty := hempty
      subst hempty
      exact faithful_of_fresh hfresh
    · rintro ⟨c, history⟩ e ⟨d, history'⟩ hI hcond ⟨hstep, hrecord⟩
      have hrecord : history' = record history c e d := hrecord
      subst hrecord
      exact hI.step hO hcond hstep
  refine ⟨hfaithful, fun updates joiners hpacked l hl => ?_⟩
  have hqueued := List.mem_of_mem_take (removal_of_packUpdates hpacked hl)
  obtain ⟨id, he⟩ := OrderedMap.mem_values.mp hqueued
  exact ⟨id, he, hfaithful.queued id l he⟩

end Conversation

/-- Two votes on the removal of leaf 2 and one on a joiner are open. -/
def Ideal.threeProposed : Conversation Ideal.platform :=
  Ideal.tracked 3 (.memberInvite [20]) (Ideal.tracked 2 (.removeMember (memberIdOf 2))
    (Ideal.tracked 1 (.removeMember (memberIdOf 2)) Ideal.start))

/-- One removal and the joiner are approved. -/
def Ideal.twoApproved : Conversation Ideal.platform :=
  Ideal.approve 3 (Ideal.approve 1 Ideal.threeProposed)

/-- The commit removes leaf 2 and seats the joiner on it. -/
def Ideal.leafRefilled : Conversation Ideal.platform :=
  let c := Program.after Conversation.mintAndBroadcastCandidate Ideal.twoApproved
  Program.after (Conversation.finalizeCommitRound false c.selfMemberId) c

/-- A run during which proposal 2 was first tracked over `[12]` at leaf 2. -/
def Ideal.Remembers (c : Conversation Ideal.platform) (h : Conversation.History) : Prop :=
  Reaches Conversation.FreshStart (watch Conversation.record Conversation.Step) (fun _ _ => True)
    (c, h) ∧ h.first 2 (memberIdOf 2) = some [12]

theorem Ideal.Remembers.next {c d : Conversation Ideal.platform} {h : Conversation.History}
    {e : Conversation.Event Ideal.platform} (hc : Ideal.Remembers c h)
    (hstep : Conversation.Step c e d) : Ideal.Remembers d (Conversation.record h c e d) :=
  ⟨Conversation.reaches_record hc.1 trivial hstep, Conversation.first_record hc.2 c e d⟩

/-- The second removal ends with a yes after the leaf changed hands: the next mint removes the
joiner. -/
theorem joiner_removed_instead : ∃ h : Conversation.History,
    Reaches Conversation.FreshStart (watch Conversation.record Conversation.Step)
      (fun _ _ => True) (Ideal.approve 2 Ideal.leafRefilled, h) ∧
    (Ideal.approve 2 Ideal.leafRefilled).packedBatch = .ok ([.remove (memberIdOf 2)], []) ∧
    h.first 2 (memberIdOf 2) = some [12] ∧
    (Ideal.approve 2 Ideal.leafRefilled).keyAt (memberIdOf 2) = some [20] ∧
    ¬ Conversation.Faithful (Ideal.approve 2 Ideal.leafRefilled, h) := by
  let c₁ := Ideal.tracked 1 (.removeMember (memberIdOf 2)) Ideal.start
  let c₂ := Ideal.tracked 2 (.removeMember (memberIdOf 2)) c₁
  let h₁ := Conversation.record .empty Ideal.start (.incomingProposal
    (Ideal.proposalOf 1 (.removeMember (memberIdOf 2)))) c₁
  let h₂ := Conversation.record h₁ c₁ (.incomingProposal
    (Ideal.proposalOf 2 (.removeMember (memberIdOf 2)))) c₂
  have htracked : Ideal.Remembers c₂ h₂ :=
    ⟨Conversation.reaches_record (Conversation.reaches_record (.start ⟨⟨[], 10, rfl⟩, rfl⟩) trivial
      (.incomingProposal _ _)) trivial (.incomingProposal _ _), by decide⟩
  have happroved := ((htracked.next (.incomingProposal _ (Ideal.proposalOf 3 (.memberInvite [20])))).next
    (.outcome _ (.consensusReached 1 true 0))).next (.outcome _ (.consensusReached 3 true 0))
  have hround : ∃ r, Conversation.finalizeCommitRound false
      (Program.after Conversation.mintAndBroadcastCandidate Ideal.twoApproved).selfMemberId
      (Program.after Conversation.mintAndBroadcastCandidate Ideal.twoApproved) =
        .ok r Ideal.leafRefilled := ⟨_, rfl⟩
  obtain ⟨r, hround⟩ := hround
  have hreached := ((happroved.next (.mint _)).next (.round hround)).next
    (.outcome _ (.consensusReached 2 true 0))
  have hrefilled : (Ideal.approve 2 Ideal.leafRefilled).keyAt (memberIdOf 2) = some [20] := by
    decide
  refine ⟨_, hreached.1, rfl, hreached.2, hrefilled, fun hfaithful => ?_⟩
  have hqueued : (2, .removeMember (memberIdOf 2)) ∈
      (Ideal.approve 2 Ideal.leafRefilled).queues.approvedProposals.entries := by decide
  have hsame := hfaithful.queued 2 (memberIdOf 2) hqueued [12] [20] hreached.2 hrefilled
  exact absurd hsame (by decide)

/-- The law, where the removal is approved while the member still sits there. -/
theorem removal_follows_seat : ∃ h : Conversation.History, Conversation.Faithful (Ideal.approve 1
    (Ideal.tracked 1 (.removeMember (memberIdOf 2)) Ideal.start), h) ∧
    h.first 1 (memberIdOf 2) = some [12] := by
  let c₁ := Ideal.tracked 1 (.removeMember (memberIdOf 2)) Ideal.start
  let h₁ := Conversation.record .empty Ideal.start (.incomingProposal
    (Ideal.proposalOf 1 (.removeMember (memberIdOf 2)))) c₁
  have hfirst : h₁.first 1 (memberIdOf 2) = some [12] := by decide
  have hrun : Reaches Conversation.FreshStart (watch Conversation.record Conversation.Step)
      Conversation.KeepsSeat (Ideal.approve 1 c₁, Conversation.record h₁ c₁
        (.outcome (.consensusReached 1 true 0)) (Ideal.approve 1 c₁)) := by
    refine Conversation.reaches_record (Conversation.reaches_record
      (.start ⟨⟨[], 10, rfl⟩, rfl⟩) (by exact trivial) (.incomingProposal _ _)) ?_ (.outcome _ _)
    intro request hresolved l hacts
    have hrequest : c₁.resolved 1 = some (.removeMember (memberIdOf 2)) := rfl
    cases hrequest.symm.trans hresolved
    cases hacts with
    | removal _ _ hpayload =>
      cases hpayload
      intro k k' hk hk'
      cases hfirst.symm.trans hk
      have hseat : c₁.keyAt (memberIdOf 2) = some [12] := by decide
      exact (Option.some.inj (hseat.symm.trans hk')).symm
    | urgent _ hpayload => cases hpayload
    | score hpayload => cases hpayload
  exact ⟨_, (Conversation.proposals_follow_their_seat Ideal.followsCommits hrun).1,
    Conversation.first_record hfirst _ _ _⟩

end DeMls
