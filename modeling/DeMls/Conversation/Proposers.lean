import DeMls.Conversation.Steward
import DeMls.StewardRotation
import DeMls.Ideal

/-!
# Who proposes an election

Every node runs the same rotation over the installed list and the settled members, and proposes when
its turn comes. `one_proposer_iff` says when nodes that see the same group have exactly one proposer
among them: the turn must not fall on a steward that has left.
-/

namespace DeMls

open Program Selection

variable {P : Platform}

/-! ## The rotation -/

namespace StewardListService

/-- Whose turn `round` is, counted from the first eligible steward. -/
def turnOf (s : StewardListService) (round : Nat) (candidatePool : List Bytes)
    (eligible : Bytes → Bool) : Nat :=
  round % ((s.stewards.filter eligible).length + (s.othersOf candidatePool eligible).length)

variable {s : StewardListService} {round : Nat} {pool : List Bytes} {eligible : Bytes → Bool}

theorem responsibleProposer_eq : s.responsibleProposer round pool eligible =
    if s.stewards.filter eligible ++ sortBy compare (s.othersOf pool eligible) = [] then none
    else (s.stewards.filter eligible ++ sortBy compare (s.othersOf pool eligible))[
      s.turnOf round pool eligible]? := by
  have hlength : (s.stewards.filter eligible ++ sortBy compare (s.othersOf pool eligible)).length =
      (s.stewards.filter eligible).length + (s.othersOf pool eligible).length := by
    rw [List.length_append, (sortBy_perm compare _).length_eq]
  unfold turnOf
  rw [← hlength]
  rfl

/-- **Turns.** An eligible candidate gives every round a proposer: the steward whose turn it is, or
a candidate once the stewards have had theirs. -/
theorem responsibleProposer_some (h : ∃ c ∈ pool, eligible c = true) :
    ∃ proposer, s.responsibleProposer round pool eligible = some proposer ∧
      ((s.stewards.filter eligible)[s.turnOf round pool eligible]? = some proposer ∨
        (s.stewards.filter eligible)[s.turnOf round pool eligible]? = none ∧ proposer ∈ pool) := by
  obtain ⟨c, hc, heligible⟩ := h
  have hlength : (sortBy compare (s.othersOf pool eligible)).length =
      (s.othersOf pool eligible).length := (sortBy_perm compare _).length_eq
  have hpositive : 0 < (s.stewards.filter eligible).length + (s.othersOf pool eligible).length := by
    by_cases hlisted : c ∈ s.stewards.filter eligible
    · exact Nat.add_pos_left (List.length_pos_of_mem hlisted) _
    · refine Nat.add_pos_right _ (List.length_pos_of_mem (a := c) ?_)
      exact List.mem_filter.mpr ⟨hc, by simp [heligible, hlisted]⟩
  have hturn : s.turnOf round pool eligible <
      (s.stewards.filter eligible).length + (s.othersOf pool eligible).length :=
    Nat.mod_lt _ hpositive
  have hnonempty : s.stewards.filter eligible ++ sortBy compare (s.othersOf pool eligible) ≠ [] := by
    rw [← List.length_pos_iff, List.length_append, hlength]
    exact hpositive
  rw [responsibleProposer_eq, if_neg hnonempty]
  by_cases hlisted : s.turnOf round pool eligible < (s.stewards.filter eligible).length
  · refine ⟨(s.stewards.filter eligible)[s.turnOf round pool eligible], ?_, .inl ?_⟩
    · rw [List.getElem?_append_left hlisted, List.getElem?_eq_getElem hlisted]
    · exact List.getElem?_eq_getElem hlisted
  · have hrest : s.turnOf round pool eligible - (s.stewards.filter eligible).length <
        (sortBy compare (s.othersOf pool eligible)).length := by
      rw [hlength]
      omega
    obtain ⟨proposer, hproposer⟩ : ∃ proposer, (sortBy compare (s.othersOf pool eligible))[
        s.turnOf round pool eligible - (s.stewards.filter eligible).length]? = some proposer :=
      ⟨_, List.getElem?_eq_getElem hrest⟩
    refine ⟨proposer, ?_, .inr ⟨List.getElem?_eq_none (Nat.le_of_not_lt hlisted), ?_⟩⟩
    · rw [List.getElem?_append_right (Nat.le_of_not_lt hlisted), hproposer]
    · have hmem := List.mem_of_getElem? hproposer
      rw [mem_sortBy] at hmem
      exact (List.mem_filter.mp hmem).1

theorem responsibleProposer_congr {s' : StewardListService} (h : s'.list = s.list) :
    s'.responsibleProposer round pool eligible = s.responsibleProposer round pool eligible := by
  unfold responsibleProposer
  rw [h]

end StewardListService

/-- A list of the size the configuration asks for is always generated. -/
theorem StewardList.generate_total {e r : Nat} {cid : Bytes} {pool : List Bytes}
    {config : StewardListConfig} (hconfig : config.Valid) (hpool : pool ≠ []) :
    ∃ l, generate P e cid pool (config.computeListSize pool.length) config r = .ok l :=
  ⟨_, generate_of_valid hconfig hpool⟩

namespace Conversation

/-! ## One node -/

/-- Recovery leaves out members whose removal is approved. -/
def mayPropose (c : Conversation P) (recovery : Bool) (id : Bytes) : Bool :=
  !(recovery && c.queues.hasApprovedRemoval id)

/-- What the steward list service decides for this node. -/
def electionDecision (c : Conversation P) (recovery : Bool) :
    Except ConversationError ElectionDecision :=
  c.stewardList.proposeElection P c.epoch (c.settledPool c.epoch) c.selfMemberId
    (c.mayPropose recovery) recovery

/-- The node gets an election to propose. -/
def GetsProposal (c : Conversation P) (recovery : Bool) : Prop :=
  c.queues.hasElectionInFlight = false ∧ ∃ stewards epoch round,
    c.electionDecision recovery = .ok (.proposed stewards epoch round)

/-- A node with an election to propose opens a vote on it, any other does nothing or fails. -/
theorem initiateStewardElection_eq (recovery : Bool) (c : Conversation P) :
    (initiateStewardElection recovery : ConvM P Unit) c =
      if c.queues.hasElectionInFlight then .ok () c
      else match c.electionDecision recovery with
        | .error e => .error e c
        | .ok (.skip _) => .ok () c
        | .ok (.proposed stewards epoch round) =>
          initiateProposal (.stewardElection ⟨stewards, epoch, round⟩) .yes c := by
  unfold initiateStewardElection
  rw [bind_run _ (get_apply c)]
  split_ifs with hflight
  · rfl
  · have hdecision : c.stewardList.proposeElection P c.epoch (c.settledPool c.epoch) c.selfMemberId
        (fun id => !(recovery && c.queues.hasApprovedRemoval id)) recovery =
          c.electionDecision recovery := rfl
    dsimp only
    rw [hdecision]
    cases c.electionDecision recovery with
    | error e => rfl
    | ok decision => cases decision <;> rfl

/-- An election is due: recovery asks for one, or the list is spent. -/
def ElectionDue (c : Conversation P) (recovery : Bool) : Prop :=
  recovery = true ∨ c.stewardList.isExhausted c.epoch = true

/-- Where an election is due, the node whose turn it is gets it. -/
theorem getsProposal_iff {c : Conversation P} {recovery : Bool}
    (hidle : c.queues.hasElectionInFlight = false) (hdue : c.ElectionDue recovery)
    (hconfig : c.stewardList.config.Valid) (hpool : c.settledPool c.epoch ≠ []) :
    c.GetsProposal recovery ↔ c.stewardList.responsibleProposer c.stewardList.nextElectionRound
      (c.settledPool c.epoch) (c.mayPropose recovery) = some c.selfMemberId := by
  have hspent : ¬ ((!recovery && !c.stewardList.isExhausted c.epoch) = true) := by
    rcases hdue with h | h <;> simp [h]
  obtain ⟨l, hl⟩ := StewardList.generate_total (P := P) (e := c.epoch)
    (r := c.stewardList.nextElectionRound) hconfig hpool
  unfold GetsProposal electionDecision StewardListService.proposeElection
  rw [if_neg hspent, if_neg hpool]
  dsimp only
  split_ifs with hturn
  · exact ⟨fun ⟨_, _, _, _, h⟩ => (nomatch h), fun h => absurd h hturn⟩
  · rw [hl]
    exact ⟨fun _ => not_not.mp hturn, fun _ => ⟨hidle, _, _, _, rfl⟩⟩

/-! ## All nodes -/

/-- Nodes, one for each member of the group as `c` sees it, that share what `c` sees: the installed
list, the round, the epoch, the members, who is settled, and the approved work. -/
structure Panel (c : Conversation P) (node : Bytes → Conversation P) : Prop where
  self : ∀ id ∈ c.members, (node id).selfMemberId = id
  list : ∀ id ∈ c.members, (node id).stewardList.list = c.stewardList.list
  round : ∀ id ∈ c.members,
    (node id).stewardList.nextElectionRound = c.stewardList.nextElectionRound
  epoch : ∀ id ∈ c.members, (node id).epoch = c.epoch
  members : ∀ id ∈ c.members, (node id).members = c.members
  settled : ∀ id ∈ c.members, ∀ m ∈ c.members,
    (node id).queues.isSettled m c.epoch = c.queues.isSettled m c.epoch
  approved : ∀ id ∈ c.members, (node id).queues.approvedProposals = c.queues.approvedProposals

/-- The turn does not fall on a steward that has left the group. -/
def TurnSeated (c : Conversation P) (recovery : Bool) : Prop :=
  ∀ steward, (c.stewardList.stewards.filter (c.mayPropose recovery))[c.stewardList.turnOf
    c.stewardList.nextElectionRound (c.settledPool c.epoch) (c.mayPropose recovery)]? =
      some steward → steward ∈ c.members

/-- **One proposer.** Where an election is due and some settled member is to stay, exactly one of
the nodes gets it exactly when the turn does not fall on a steward that has left. -/
theorem one_proposer_iff {c : Conversation P} {node : Bytes → Conversation P}
    (hpanel : c.Panel node) (hconfig : ∀ id ∈ c.members, (node id).stewardList.config.Valid)
    (hidle : ∀ id ∈ c.members, (node id).queues.hasElectionInFlight = false) {recovery : Bool}
    (hdue : c.ElectionDue recovery)
    (hcandidate : ∃ id ∈ c.settledPool c.epoch, c.queues.hasApprovedRemoval id = false) :
    (∃! id, id ∈ c.members ∧ (node id).GetsProposal recovery) ↔ c.TurnSeated recovery := by
  obtain ⟨candidate, hsettled, hstays⟩ := hcandidate
  have heligible : c.mayPropose recovery candidate = true := by simp [mayPropose, hstays]
  obtain ⟨proposer, hproposer, hturn⟩ := @StewardListService.responsibleProposer_some
    c.stewardList c.stewardList.nextElectionRound _ _ ⟨candidate, hsettled, heligible⟩
  have hgets : ∀ id ∈ c.members, (node id).GetsProposal recovery ↔ proposer = id := by
    intro id hid
    have hpool : (node id).settledPool (node id).epoch = c.settledPool c.epoch := by
      unfold settledPool ConversationQueues.settledMembers
      rw [hpanel.epoch id hid, hpanel.members id hid]
      exact List.filter_congr fun m hm => hpanel.settled id hid m hm
    have hmay : (node id).mayPropose recovery = c.mayPropose recovery := by
      unfold mayPropose ConversationQueues.hasApprovedRemoval
      rw [hpanel.approved id hid]
    have hdue' : (node id).ElectionDue recovery := by
      unfold ElectionDue StewardListService.isExhausted
      rw [hpanel.list id hid, hpanel.epoch id hid]
      exact hdue
    rw [getsProposal_iff (hidle id hid) hdue' (hconfig id hid)
      (hpool ▸ List.ne_nil_of_mem hsettled), hpool, hmay, hpanel.round id hid, hpanel.self id hid,
      StewardListService.responsibleProposer_congr (hpanel.list id hid), hproposer, Option.some_inj]
  have hunique : (∃! id, id ∈ c.members ∧ (node id).GetsProposal recovery) ↔
      proposer ∈ c.members := by
    constructor
    · rintro ⟨id, ⟨hid, hid'⟩, _⟩
      rw [(hgets id hid).mp hid']
      exact hid
    · intro hmember
      exact ⟨proposer, ⟨hmember, (hgets proposer hmember).mpr rfl⟩,
        fun id hid => ((hgets id hid.1).mp hid.2).symm⟩
  rw [hunique]
  unfold TurnSeated
  rcases hturn with hlisted | ⟨hrest, hpool⟩
  · rw [hlisted]
    exact ⟨fun h _ heq => Option.some_inj.mp heq ▸ h, fun h => h proposer rfl⟩
  · rw [hrest]
    exact ⟨fun _ _ heq => (nomatch heq), fun _ => List.mem_of_mem_filter hpool⟩

end Conversation

namespace Ideal

/-- The node of a member of a group of three at epoch 5, under a list of epoch 1. -/
def elector (stewards : List LeafNodeIndex) (id : Bytes) : Conversation platform :=
  conversationOf ((leafIndexOf id).getD 0) 5 [[10], [11], [12]] (stewardsOf stewards 1) [] none

theorem panel_elector (stewards : List LeafNodeIndex) (any : Bytes) :
    (elector stewards any).Panel (elector stewards) where
  self id hid := by
    obtain ⟨m, _, rfl⟩ := List.mem_map.mp hid
    show memberIdOf ((leafIndexOf (memberIdOf m.index)).getD 0) = memberIdOf m.index
    rw [leafIndexOf_memberIdOf]
    rfl
  list _ _ := rfl
  round _ _ := rfl
  epoch _ _ := rfl
  members _ _ := rfl
  settled _ _ _ _ := rfl
  approved _ _ := rfl

end Ideal

/-- The list is spent and all three members are settled and stay, but the first turn belongs to a
steward that has left: nobody proposes. -/
theorem no_proposer_after_departure :
    (Ideal.elector [5, 0] (memberIdOf 0)).Panel (Ideal.elector [5, 0]) ∧
    (Ideal.elector [5, 0] (memberIdOf 0)).ElectionDue false ∧
    (Ideal.elector [5, 0] (memberIdOf 0)).settledPool 5 = [0, 1, 2].map memberIdOf ∧
    ∀ id ∈ (Ideal.elector [5, 0] (memberIdOf 0)).members,
      ¬ (Ideal.elector [5, 0] id).GetsProposal false := by
  refine ⟨Ideal.panel_elector _ _, .inr (by decide), by decide, ?_⟩
  have hdecisions : ∀ id ∈ (Ideal.elector [5, 0] (memberIdOf 0)).members,
      (Ideal.elector [5, 0] id).electionDecision false = .ok (.skip .notResponsibleProposer) := by
    decide
  rintro id hid ⟨_, _, _, _, hproposed⟩
  cases (hdecisions id hid).symm.trans hproposed

/-- The law, where the stewards are members. -/
theorem one_proposer_of_members :
    ∃! id, id ∈ (Ideal.elector [1, 0] (memberIdOf 0)).members ∧
      (Ideal.elector [1, 0] id).GetsProposal false := by
  refine (Conversation.one_proposer_iff (Ideal.panel_elector [1, 0] _)
    (fun _ _ => ⟨le_refl 1, Nat.le_succ 1⟩) (fun _ _ => rfl) (.inr (by decide)) ⟨memberIdOf 0, by decide, rfl⟩).mpr ?_
  intro steward hturn
  have hlisted : ∀ s ∈ ([1, 0] : List LeafNodeIndex).map memberIdOf,
      s ∈ (Ideal.elector [1, 0] (memberIdOf 0)).members := by decide
  exact hlisted steward (List.mem_of_mem_filter (List.mem_of_getElem? hturn))

end DeMls
