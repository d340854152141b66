import Mathlib.Data.Finset.Card
import Mathlib.Data.List.Basic
import DeMls.Lib.Rotation
import DeMls.StewardList
import DeMls.Ideal

/-!
# Elections, succession and proposers

What members agree on without a message: the list an election accepts and installs, the steward of
an epoch with its backup, and the member whose turn it is to propose.
-/

namespace DeMls

open Selection Rotation

/-! ## Electing and installing -/

theorem eq_nil_congr {pool pool' : List Bytes} (h : pool.Perm pool') : pool = [] ↔ pool' = [] := by
  rw [← List.length_eq_zero_iff, h.length_eq, List.length_eq_zero_iff]

namespace StewardListConfig

/-- The size to elect is legal for the pool it is elected from. -/
theorem Valid.isValidSize {c : StewardListConfig} (h : c.Valid) (n : Nat) :
    c.isValidSize (c.computeListSize n) n = true := by
  obtain ⟨hmin, hmax⟩ := h
  unfold StewardListConfig.isValidSize computeListSize sizeBounds
  rw [decide_eq_true_iff]
  split_ifs <;> dsimp only at * <;> omega

theorem checkGenerationInputs_congr (c : StewardListConfig) {pool pool' : List Bytes}
    (h : pool.Perm pool') (sn : Nat) :
    c.checkGenerationInputs pool sn = c.checkGenerationInputs pool' sn := by
  unfold checkGenerationInputs
  rw [h.length_eq]
  simp only [eq_nil_congr h]

end StewardListConfig

namespace StewardList

variable {P : Platform} {config : StewardListConfig} {e r : Nat} {cid : Bytes} {pool : List Bytes}

/-- An election generates the list its pool elects. -/
theorem generate_of_valid (hconfig : config.Valid) (hpool : pool ≠ []) :
    generate P e cid pool (config.computeListSize pool.length) config r =
      .ok ⟨electedFrom P config e r cid pool, config, e, r⟩ := by
  have hinputs : config.checkGenerationInputs pool (config.computeListSize pool.length) =
      .ok () := by
    unfold StewardListConfig.checkGenerationInputs
    rw [if_neg hpool, if_pos (hconfig.isValidSize pool.length)]
  unfold generate
  rw [hinputs]
  rfl

/-- Generation does not depend on how the pool is enumerated. -/
theorem generate_congr {pool' : List Bytes} (h : pool.Perm pool') (sn : Nat) :
    generate P e cid pool sn config r = generate P e cid pool' sn config r := by
  unfold generate
  rw [config.checkGenerationInputs_congr h, sortedStewards_congr h]

/-- Validation does not depend on how the pool is enumerated. -/
theorem validate_congr {pool' : List Bytes} (h : pool.Perm pool') (proposed : List Bytes) :
    validate P proposed e cid pool config r = validate P proposed e cid pool' config r := by
  unfold validate
  rw [h.length_eq, sortedStewards_congr h]
  simp only [eq_nil_congr h]

end StewardList

/-- **One election.** A proposal is accepted exactly when it is the list generated from the pool;
neither depends on how the pool is enumerated; and the winners alone generate the accepted list
again, in its order. -/
theorem validate_generate_install (P : Platform) (s : StewardListService) (hconfig : s.config.Valid)
    (e r : Nat) (pool : List Bytes) (hpool : pool ≠ []) :
    (∀ proposed, s.validateProposed P proposed e pool r = .ok true ↔
      ∃ l, StewardList.generate P e s.conversationId pool (s.config.computeListSize pool.length)
        s.config r = .ok l ∧ proposed = l.members) ∧
    (∀ pool' proposed sn, pool.Perm pool' →
      s.validateProposed P proposed e pool' r = s.validateProposed P proposed e pool r ∧
      StewardList.generate P e s.conversationId pool' sn s.config r =
        StewardList.generate P e s.conversationId pool sn s.config r) ∧
    ∀ proposed, s.validateProposed P proposed e pool r = .ok true →
      s.installList P e proposed proposed.length r =
        .ok { s with list := some ⟨proposed, s.config, e, r⟩ } := by
  unfold StewardListService.validateProposed
  have hgenerate : StewardList.generate P e s.conversationId pool
      (s.config.computeListSize pool.length) s.config r = .ok _ :=
    StewardList.generate_of_valid hconfig hpool
  refine ⟨fun proposed => ?_, fun pool' proposed sn hperm => ?_, fun proposed hvalid => ?_⟩
  · rw [StewardList.validate_iff, hgenerate]
    simp [hpool]
  · exact ⟨(StewardList.validate_congr hperm proposed).symm,
      (StewardList.generate_congr hperm sn).symm⟩
  · obtain ⟨-, rfl⟩ := StewardList.validate_iff.mp hvalid
    unfold StewardListService.installList
    rw [StewardList.generate_electedFrom hconfig hpool]

/-- Three members elect two stewards, and the winners install themselves. -/
theorem Ideal.winners_install :
    (Ideal.stewardsOf [] 4).installList Ideal.platform 4 ([0, 1].map memberIdOf) 2 0 =
      .ok (Ideal.stewardsOf [0, 1] 4) :=
  (validate_generate_install Ideal.platform (Ideal.stewardsOf [] 4) (by decide) 4 0
    ([2, 0, 1].map memberIdOf) (by decide)).2.2 _ (by decide)

/-! ## Succession -/

namespace StewardList

variable {l : StewardList} {epoch : Nat} {eligible : Bytes → Bool}

theorem isExhausted_eq_false_iff :
    l.isExhausted epoch = false ↔
      l.electionEpoch ≤ epoch ∧ epoch - l.electionEpoch < l.members.length := by
  unfold isExhausted
  rw [decide_eq_false_iff_not]
  omega

/-- Walking a list that serves the epoch. -/
theorem stewardFrom_eq (h : l.isExhausted epoch = false) (offset : Nat) :
    l.stewardFrom epoch offset eligible =
      (l.members.rotate (epoch - l.electionEpoch + offset)).find? eligible := by
  unfold stewardFrom
  rw [if_neg (by simp [h])]
  dsimp only
  rw [walk_eq_rotate, List.rotate_mod]

/-- The members in the order they are asked to serve an epoch. -/
def inOrder (l : StewardList) (epoch : Nat) : List Bytes :=
  l.members.rotate (epoch - l.electionEpoch)

theorem epochSteward_eq (h : l.isExhausted epoch = false) :
    l.epochSteward epoch eligible = (l.inOrder epoch).find? eligible :=
  stewardFrom_eq h 0

theorem nodup_inOrder (h : l.members.Nodup) : (l.inOrder epoch).Nodup :=
  List.nodup_rotate.mpr h

theorem mem_inOrder {m : Bytes} : m ∈ l.inOrder epoch ↔ m ∈ l.members := List.mem_rotate

theorem epochAndBackup_fst : (l.epochAndBackup epoch eligible).1 = l.epochSteward epoch eligible :=
  rfl

/-- An epoch with a steward: those asked before it are ineligible, and the backup is the first
eligible of those asked after it. -/
theorem backup_eq (hnodup : l.members.Nodup) (h : l.isExhausted epoch = false) {es : Bytes}
    (hes : l.epochSteward epoch eligible = some es) :
    ∃ before after, l.inOrder epoch = before ++ es :: after ∧ eligible es = true ∧
      (∀ b ∈ before, eligible b = false) ∧ es ∉ after ∧
      (l.epochAndBackup epoch eligible).2 = after.find? eligible := by
  obtain ⟨before, after, hsplit, heligible, hbefore, hafter⟩ :=
    find?_split (nodup_inOrder hnodup) ((epochSteward_eq h).symm.trans hes)
  refine ⟨before, after, hsplit, heligible, hbefore, hafter, ?_⟩
  calc (l.epochAndBackup epoch eligible).2
      = l.stewardFrom epoch 1 fun c => decide (c ≠ es) && eligible c := by
        unfold epochAndBackup epochSteward at *
        rw [hes]
        rfl
    _ = ((l.inOrder epoch).rotate 1).find? fun c => decide (c ≠ es) && eligible c := by
        rw [stewardFrom_eq h, inOrder, List.rotate_rotate]
    _ = after.find? eligible := by
        rw [hsplit]
        exact (find?_next hbefore hafter).2

/-- The slots after the steward's, up to its own. -/
theorem inOrder_after {before after : List Bytes} {es : Bytes} {slot : Nat}
    (hnodup : l.members.Nodup) (h : l.isExhausted epoch = false)
    (hsplit : l.inOrder epoch = before ++ es :: after) (hslot : l.members[slot]? = some es) :
    (l.members.rotate (slot + 1)).dropLast = after ++ before := by
  obtain ⟨-, hspan⟩ := isExhausted_eq_false_iff.mp h
  obtain ⟨hlt, hget⟩ := List.getElem?_eq_some_iff.mp hslot
  have hlength : before.length < l.members.length := by
    have := congrArg List.length hsplit
    simp only [inOrder, List.length_rotate, List.length_append, List.length_cons] at this
    omega
  have hat : (l.inOrder epoch)[before.length]? = some es := by rw [hsplit]; simp
  unfold inOrder at hat
  rw [List.getElem?_rotate hlength] at hat
  have hsame : (before.length + (epoch - l.electionEpoch)) % l.members.length = slot := by
    obtain ⟨_, hget'⟩ := List.getElem?_eq_some_iff.mp hat
    exact hnodup.getElem_inj_iff.mp (hget'.trans hget.symm)
  have hrotate : l.members.rotate (slot + 1) = after ++ before ++ [es] := by
    calc l.members.rotate (slot + 1)
        = ((l.inOrder epoch).rotate before.length).rotate 1 := by
          rw [← hsame, ← List.rotate_rotate, List.rotate_mod, Nat.add_comm before.length,
            ← List.rotate_rotate, inOrder]
      _ = after ++ before ++ [es] := by
          rw [hsplit, List.rotate_append_length_eq, List.cons_append, List.rotate_cons_succ,
            List.rotate_zero]
  rw [hrotate, List.dropLast_concat]

/-- With everybody eligible, the nominal slot serves. -/
theorem epochSteward_all (h : l.isExhausted epoch = false)
    (hall : ∀ m ∈ l.members, eligible m = true) :
    l.epochSteward epoch eligible = l.members[epoch - l.electionEpoch]? := by
  obtain ⟨-, hspan⟩ := isExhausted_eq_false_iff.mp h
  have hfirst : (l.inOrder epoch)[0]? = l.members[epoch - l.electionEpoch]? := by
    unfold inOrder
    rw [List.getElem?_rotate (by omega), Nat.zero_add, Nat.mod_eq_of_lt hspan]
  rw [epochSteward_eq h, ← hfirst]
  cases horder : l.inOrder epoch with
  | nil => rfl
  | cons first rest =>
    have hmem : first ∈ l.members := mem_inOrder.mp (horder ▸ List.mem_cons_self)
    rw [List.find?_cons_of_pos (hall first hmem)]
    rfl

/-- **Succession.** In an epoch that a list of distinct members covers, the steward is the first
eligible member in cyclic order from the epoch's slot, the backup is the next eligible one after
the steward's own slot and another member, and there is none exactly when fewer than two members
are eligible. Without the steward the backup serves. With everybody eligible, each member serves
one epoch of the term. -/
theorem succession (hnodup : l.members.Nodup) (h : l.isExhausted epoch = false)
    (eligible : Bytes → Bool) :
    (l.epochAndBackup epoch eligible).1 = l.epochSteward epoch eligible ∧
    l.epochSteward epoch eligible =
      (l.members.rotate (epoch - l.electionEpoch)).find? eligible ∧
    (∀ es slot, l.epochSteward epoch eligible = some es → l.members[slot]? = some es →
      (l.epochAndBackup epoch eligible).2 =
        (l.members.rotate (slot + 1)).dropLast.find? eligible) ∧
    (∀ es backup, l.epochAndBackup epoch eligible = (some es, some backup) → backup ≠ es) ∧
    ((l.epochAndBackup epoch eligible).2 = none ↔ (l.members.filter eligible).length < 2) ∧
    (∀ es, l.epochSteward epoch eligible = some es →
      l.epochSteward epoch (fun c => decide (c ≠ es) && eligible c) =
        (l.epochAndBackup epoch eligible).2) ∧
    ((∀ m ∈ l.members, eligible m = true) → ∀ m ∈ l.members,
      ∃! served, l.isExhausted served = false ∧ l.epochSteward served eligible = some m) := by
  refine ⟨rfl, epochSteward_eq h, ?_, ?_, ?_, ?_, ?_⟩
  · intro es slot hes hslot
    obtain ⟨before, after, hsplit, -, hbefore, -, hbackup⟩ := backup_eq hnodup h hes
    have hnone : before.find? eligible = none := by
      rw [List.find?_eq_none]
      intro b hb
      simp [hbefore b hb]
    rw [hbackup, inOrder_after hnodup h hsplit hslot, List.find?_append, hnone, Option.or_none]
  · intro es backup hpair
    obtain ⟨before, after, -, -, -, hafter, hbackup⟩ :=
      backup_eq hnodup h (epochAndBackup_fst.symm.trans (congrArg Prod.fst hpair))
    rw [hpair] at hbackup
    rintro rfl
    exact hafter (List.mem_of_find?_eq_some hbackup.symm)
  · have hperm : ((l.inOrder epoch).filter eligible).length =
        (l.members.filter eligible).length :=
      ((List.rotate_perm l.members _).filter eligible).length_eq
    rw [← hperm]
    cases hes : l.epochSteward epoch eligible with
    | none =>
      have hnone := (epochSteward_eq h).symm.trans hes
      rw [← List.head?_filter, List.head?_eq_none_iff] at hnone
      have hbackup : (l.epochAndBackup epoch eligible).2 = none := by
        unfold epochAndBackup epochSteward at *
        rw [hes]
        rfl
      simp [hnone, hbackup]
    | some es =>
      obtain ⟨before, after, hsplit, heligible, hbefore, -, hbackup⟩ := backup_eq hnodup h hes
      rw [hbackup, hsplit, filter_split heligible hbefore, ← List.head?_filter,
        List.head?_eq_none_iff, List.length_cons, ← List.length_eq_zero_iff]
      omega
  · intro es hes
    obtain ⟨before, after, hsplit, -, hbefore, hafter, hbackup⟩ := backup_eq hnodup h hes
    rw [hbackup, epochSteward_eq h, hsplit]
    exact (find?_next hbefore hafter).1
  · intro hall m hm
    obtain ⟨slot, hlt, hget⟩ := List.getElem_of_mem hm
    refine ⟨l.electionEpoch + slot, ⟨?_, ?_⟩, ?_⟩
    · rw [isExhausted_eq_false_iff]
      omega
    · rw [epochSteward_all (isExhausted_eq_false_iff.mpr (by omega)) hall,
        Nat.add_sub_cancel_left]
      exact List.getElem?_eq_some_iff.mpr ⟨hlt, hget⟩
    · rintro served ⟨hserved, hm'⟩
      rw [epochSteward_all hserved hall] at hm'
      obtain ⟨hstart, -⟩ := isExhausted_eq_false_iff.mp hserved
      obtain ⟨_, hget'⟩ := List.getElem?_eq_some_iff.mp hm'
      have := hnodup.getElem_inj_iff.mp (hget'.trans hget.symm)
      omega

/-- The middle one of three stewards cannot serve: the next one does, and the first backs it up. -/
theorem succession_around :
    let l : StewardList := ⟨[2, 0, 1].map memberIdOf, ⟨1, 3, false⟩, 4, 0⟩
    let eligible := fun id => decide (id ≠ memberIdOf 0)
    l.epochSteward 5 eligible = some (memberIdOf 1) ∧
      (l.epochAndBackup 5 eligible).2 = some (memberIdOf 2) := by
  intro l eligible
  have hcovers : l.isExhausted 5 = false := by decide
  have hsuccession := succession (by decide) hcovers eligible
  have hserves : l.epochSteward 5 eligible = some (memberIdOf 1) :=
    hsuccession.2.1.trans (by decide)
  exact ⟨hserves, (hsuccession.2.2.1 _ 2 hserves (by decide)).trans (by decide)⟩

end StewardList

/-! ## Whose turn it is to propose -/

namespace StewardListService

variable {s : StewardListService} {pool : List Bytes} {eligible : Bytes → Bool}

/-- The stewards of the installed list. -/
def stewards (s : StewardListService) : List Bytes :=
  match s.list with
  | some l => l.members
  | none => []

/-- The eligible candidates that are no eligible stewards. -/
def othersOf (s : StewardListService) (candidatePool : List Bytes) (eligible : Bytes → Bool) :
    List Bytes :=
  candidatePool.filter fun c => eligible c && decide (c ∉ s.stewards.filter eligible)

/-- Who may be asked to propose, in the order they are asked. -/
def authoritySequence (s : StewardListService) (pool : List Bytes) (eligible : Bytes → Bool) :
    List Bytes :=
  s.stewards.filter eligible ++ sortBy compare (s.othersOf pool eligible)

theorem responsibleProposer_getElem? (round : Nat) :
    s.responsibleProposer round pool eligible =
      (s.authoritySequence pool eligible)[round % (s.authoritySequence pool eligible).length]? := by
  show (if s.authoritySequence pool eligible = [] then none
    else (s.authoritySequence pool eligible)[round % _]?) = _
  split_ifs with hempty
  · rw [hempty]
    rfl
  · rfl

/-- The eligible ids of the list and the pool together. -/
def authorized (s : StewardListService) (pool : List Bytes) (eligible : Bytes → Bool) :
    Finset Bytes :=
  (s.stewards.toFinset ∪ pool.toFinset).filter fun id => eligible id = true

theorem mem_authorized {id : Bytes} :
    id ∈ s.authorized pool eligible ↔ (id ∈ s.stewards ∨ id ∈ pool) ∧ eligible id = true := by
  simp [authorized]

theorem mem_authoritySequence {id : Bytes} :
    id ∈ s.authoritySequence pool eligible ↔ id ∈ s.authorized pool eligible := by
  rw [mem_authorized]
  simp only [authoritySequence, othersOf, List.mem_append, mem_sortBy, List.mem_filter,
    Bool.and_eq_true, decide_eq_true_eq]
  tauto

/-- Nobody is asked twice: the pool contributes those the list has not. -/
theorem nodup_authoritySequence (hlist : s.stewards.Nodup) (hpool : pool.Nodup) :
    (s.authoritySequence pool eligible).Nodup := by
  refine (hlist.filter _).append ?_ fun id hfront hrest => ?_
  · exact (sortBy_perm _ _).nodup_iff.mpr (hpool.filter _)
  · rw [mem_sortBy, othersOf, List.mem_filter, Bool.and_eq_true, decide_eq_true_eq] at hrest
    exact hrest.2.2 hfront

theorem length_authoritySequence (hlist : s.stewards.Nodup) (hpool : pool.Nodup) :
    (s.authoritySequence pool eligible).length = (s.authorized pool eligible).card := by
  rw [← List.toFinset_card_of_nodup (nodup_authoritySequence hlist hpool)]
  congr 1
  ext id
  rw [List.mem_toFinset, mem_authoritySequence]

theorem authoritySequence_congr {pool' : List Bytes} (h : pool.Perm pool') :
    s.authoritySequence pool eligible = s.authoritySequence pool' eligible := by
  unfold authoritySequence othersOf
  rw [sortBy_eq_of_perm (h.filter _) fun _ _ _ _ heq => Std.LawfulEqCmp.eq_of_compare heq]

/-- The election proposer is the first eligible member of the list. -/
theorem electionProposer_eq : s.electionProposer eligible = (s.stewards.filter eligible).head? := by
  unfold electionProposer stewards
  cases s.list with
  | none => rfl
  | some l =>
    rw [List.head?_filter, Option.bind_some]
    show _ = l.members.find? eligible
    cases hempty : l.members with
    | nil =>
      simp [StewardList.epochSteward, StewardList.stewardFrom, StewardList.isExhausted, hempty]
    | cons first rest =>
      have hspan : l.isExhausted l.electionEpoch = false := by
        rw [StewardList.isExhausted_eq_false_iff, hempty, List.length_cons]
        omega
      rw [StewardList.epochSteward_eq hspan, StewardList.inOrder, Nat.sub_self, List.rotate_zero,
        hempty]

/-- The round after `k` failed attempts, while the counter has room. -/
theorem nextElectionRound_bumpRetry (k : Nat) (h : s.nextElectionRound + k < 2 ^ 32) :
    bumpRetry^[k] s = { s with nextElectionRound := s.nextElectionRound + k } := by
  induction k with
  | zero => rfl
  | succ k ih =>
    rw [Function.iterate_succ_apply', ih (by omega), bumpRetry]
    dsimp only
    rw [Nat.min_eq_left (by omega)]
    rfl

/-- **Proposers.** With `L` eligible ids in the installed list and the pool, each of them is
responsible in exactly one of any `L` consecutive rounds, nobody else ever is, and how the pool is
enumerated makes no difference. Round 0 is the election proposer's while the list has an eligible
member, and nobody is responsible exactly when nobody is eligible. -/
theorem proposers_take_turns (s : StewardListService) (pool : List Bytes) (eligible : Bytes → Bool)
    (hlist : s.stewards.Nodup) (hpool : pool.Nodup) :
    (∀ round id, id ∈ s.authorized pool eligible →
      ∃! k, k < (s.authorized pool eligible).card ∧
        s.responsibleProposer (round + k) pool eligible = some id) ∧
    (∀ round id, s.responsibleProposer round pool eligible = some id →
      id ∈ s.authorized pool eligible) ∧
    (∀ k, s.nextElectionRound + k < 2 ^ 32 →
      (bumpRetry^[k] s).responsibleProposer (bumpRetry^[k] s).nextElectionRound pool eligible =
        s.responsibleProposer (s.nextElectionRound + k) pool eligible) ∧
    (∀ round pool', pool.Perm pool' →
      s.responsibleProposer round pool' eligible = s.responsibleProposer round pool eligible) ∧
    ((∃ id ∈ s.stewards, eligible id = true) →
      s.responsibleProposer 0 pool eligible = s.electionProposer eligible) ∧
    ∀ round, s.responsibleProposer round pool eligible = none ↔
      (s.authorized pool eligible).card = 0 := by
  have hlength : (s.authoritySequence pool eligible).length = (s.authorized pool eligible).card :=
    length_authoritySequence hlist hpool
  refine ⟨fun round id hid => ?_, fun round id hid => ?_, fun k hk => ?_,
    fun round pool' hperm => ?_, fun hsome => ?_, fun round => ?_⟩
  · have := existsUnique_turn (nodup_authoritySequence hlist hpool) round
      (mem_authoritySequence.mpr hid)
    simpa only [responsibleProposer_getElem?, hlength] using this
  · rw [responsibleProposer_getElem?] at hid
    exact mem_authoritySequence.mp (List.mem_of_getElem? hid)
  · rw [nextElectionRound_bumpRetry k hk]
    rfl
  · rw [responsibleProposer_getElem?, responsibleProposer_getElem?, authoritySequence_congr hperm]
  · obtain ⟨id, hid, heligible⟩ := hsome
    have hfront : s.stewards.filter eligible ≠ [] :=
      List.ne_nil_of_mem (List.mem_filter.mpr ⟨hid, heligible⟩)
    rw [responsibleProposer_getElem?, Nat.zero_mod, electionProposer_eq, authoritySequence,
      ← List.head?_eq_getElem?, List.head?_append_of_ne_nil _ hfront]
  · rw [responsibleProposer_getElem?, List.getElem?_eq_none_iff, ← hlength]
    constructor
    · intro hle
      by_contra hpos
      have := Nat.mod_lt round (Nat.pos_of_ne_zero hpos)
      omega
    · intro hzero
      omega

/-- A list of two and a pool of four with one of the listed ineligible: three rounds, and the
listed member has one of them. -/
theorem three_take_turns :
    let s := Ideal.stewardsOf [1, 2] 4
    let eligible := fun id => decide (id ≠ memberIdOf 2)
    (s.authorized ([3, 2, 1, 0].map memberIdOf) eligible).card = 3 ∧
      ∃! k, k < 3 ∧
        s.responsibleProposer (7 + k) ([3, 2, 1, 0].map memberIdOf) eligible =
          some (memberIdOf 1) := by
  intro s eligible
  have hcard : (s.authorized ([3, 2, 1, 0].map memberIdOf) eligible).card = 3 := by decide
  have hturns := (proposers_take_turns s ([3, 2, 1, 0].map memberIdOf) eligible (by decide)
    (by decide)).1 7 (memberIdOf 1) (by decide)
  rw [hcard] at hturns
  exact ⟨hcard, hturns⟩

end StewardListService

end DeMls
