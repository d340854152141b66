import Mathlib.Data.Finset.Card
import DeMls.Conversation.Run
import DeMls.Ideal

/-!
# The local list

While the settled members fit on one list, an exhausted list is renewed without a vote: every node
computes the next one by itself. `reconcile_agrees` says that nodes with one configuration and one
settled set compute the same list, and that this list is the whole set.
-/

namespace DeMls

open Program Selection

variable {P : Platform}

/-! ## Lists of everybody -/

namespace StewardListConfig

/-- A pool within the bound is elected as a whole. -/
theorem computeListSize_of_le {c : StewardListConfig} {n : Nat} (h : n ≤ c.snMax) :
    c.computeListSize n = n := by
  unfold computeListSize sizeBounds
  split_ifs
  · rfl
  · exact min_eq_right h

theorem isValidSize_whole {c : StewardListConfig} {n : Nat} (h : n ≤ c.snMax) :
    c.isValidSize n n = true := by
  unfold isValidSize sizeBounds
  rw [decide_eq_true_iff]
  split_ifs with hmin
  · exact ⟨le_refl n, le_refl n⟩
  · exact ⟨Nat.le_of_not_lt hmin, le_min h (le_refl n)⟩

end StewardListConfig

/-- The list of a whole pool. -/
def wholeList (P : Platform) (config : StewardListConfig) (epoch : Nat) (salt : Bytes)
    (pool : List Bytes) : StewardList :=
  ⟨sortedStewards P epoch 0 salt pool, config, epoch, 0⟩

section
variable {config : StewardListConfig} {epoch : Nat} {salt : Bytes} {pool : List Bytes}

theorem generate_whole (hpool : pool ≠ []) (hsize : pool.length ≤ config.snMax) :
    StewardList.generate P epoch salt pool (config.computeListSize pool.length) config 0 =
      .ok (wholeList P config epoch salt pool) := by
  have hinputs : config.checkGenerationInputs pool pool.length = .ok () := by
    unfold StewardListConfig.checkGenerationInputs
    rw [if_neg hpool, if_pos (StewardListConfig.isValidSize_whole hsize)]
  rw [StewardListConfig.computeListSize_of_le hsize]
  unfold StewardList.generate
  rw [hinputs]
  dsimp only
  rw [List.take_of_length_le (length_sortedStewards _ _ _ _ _).le]
  rfl

theorem wholeList_perm : (wholeList P config epoch salt pool).members.Perm pool :=
  sortBy_perm _ pool

/-- It serves the epoch it is made for. -/
theorem wholeList_serves (hpool : pool ≠ []) :
    (wholeList P config epoch salt pool).isExhausted epoch = false := by
  have hlength := List.length_pos_iff.mpr hpool
  unfold StewardList.isExhausted
  rw [decide_eq_false_iff_not, (@wholeList_perm P config epoch salt pool).length_eq]
  show ¬ (epoch < epoch ∨ pool.length ≤ epoch - epoch)
  omega

/-- It depends on who is in the pool, not on how the pool is enumerated. -/
theorem wholeList_congr {pool' : List Bytes} (h : pool.Perm pool') :
    wholeList P config epoch salt pool = wholeList P config epoch salt pool' := by
  unfold wholeList
  rw [sortedStewards_congr h]

end

namespace Conversation

/-! ## Reconciling -/

/-- The list `l` is installed. -/
def listed (c : Conversation P) (l : StewardList) : Conversation P :=
  { c with stewardList := { c.stewardList with list := some l } }

/-- A reconcile over a pool that fits on one list installs the list of the whole pool. -/
theorem reconcileStewardList_whole {c : Conversation P}
    (hexhausted : c.stewardList.isExhausted c.epoch = true) (hpool : c.settledPool c.epoch ≠ [])
    (hsize : (c.settledPool c.epoch).length ≤ c.stewardList.config.snMax) :
    (reconcileStewardList : ConvM P _) c = .ok .settled (c.listed (wholeList P c.stewardList.config
      c.epoch c.stewardList.conversationId (c.settledPool c.epoch))) := by
  have hvoteless : c.stewardList.electionRequired (c.settledPool c.epoch).length = false :=
    decide_eq_false (Nat.not_lt.mpr hsize)
  have hinstall : c.stewardList.installList P c.epoch (c.settledPool c.epoch)
      (c.stewardList.config.computeListSize (c.settledPool c.epoch).length) 0 =
        .ok (c.listed (wholeList P c.stewardList.config c.epoch c.stewardList.conversationId
          (c.settledPool c.epoch))).stewardList := by
    unfold StewardListService.installList
    rw [generate_whole hpool hsize]
    rfl
  unfold reconcileStewardList
  rw [bind_run _ (get_apply c), hexhausted]
  dsimp only
  rw [if_neg (by decide), hvoteless, if_neg Bool.false_ne_true, hinstall]
  rfl

/-- At epoch `e` the node has this configuration and salt and these settled members, and its
list has run out. -/
structure DueAt (config : StewardListConfig) (salt : Bytes) (e : Nat) (settled : Finset Bytes)
    (c : Conversation P) : Prop where
  config : c.stewardList.config = config
  salt : c.stewardList.conversationId = salt
  epoch : c.epoch = e
  settled : ∀ id, id ∈ c.settledPool e ↔ id ∈ settled
  /-- Members of a group sit on distinct leaves. -/
  seats : (c.mls.group.members.map Member.index).Nodup
  exhausted : c.stewardList.isExhausted e = true

/-- Leaves name members. -/
theorem settledPool_nodup {c : Conversation P} (h : (c.mls.group.members.map Member.index).Nodup)
    (epoch : Nat) : (c.settledPool epoch).Nodup := by
  have hids : c.members = (c.mls.group.members.map Member.index).map memberIdOf := by
    rw [List.map_map]
    rfl
  refine List.Nodup.filter _ ?_
  rw [hids]
  exact h.map memberIdOf_injective

section
variable {config : StewardListConfig} {salt : Bytes} {e : Nat} {settled : Finset Bytes}
  {c : Conversation P}

/-- The pool of a node enumerates the settled set. -/
theorem DueAt.pool_perm (h : DueAt config salt e settled c) :
    (c.settledPool e).Perm settled.toList :=
  (List.perm_ext_iff_of_nodup (settledPool_nodup h.seats e) settled.nodup_toList).mpr fun id => by
    rw [h.settled, Finset.mem_toList]

theorem DueAt.reconcile (h : DueAt config salt e settled c) (hsome : settled.Nonempty)
    (hsize : settled.card ≤ config.snMax) : (reconcileStewardList : ConvM P _) c =
      .ok .settled (c.listed (wholeList P config e salt settled.toList)) := by
  have hperm := h.pool_perm
  obtain ⟨rfl, rfl, rfl, _, _, hexhausted⟩ := h
  have hlength : (c.settledPool c.epoch).length = settled.card := by
    rw [hperm.length_eq, Finset.length_toList]
  rw [reconcileStewardList_whole hexhausted _ (hlength.trans_le hsize), wholeList_congr hperm]
  rw [← List.length_pos_iff, hlength]
  exact Finset.card_pos.mpr hsome

end

/-- **Local lists agree.** Any two nodes with one configuration, one salt and one settled set
that fits on a list renew an exhausted list alike, without a vote: the list is the settled set in an
order, it serves the epoch, and its stewards are the settled members. -/
theorem reconcile_agrees {config : StewardListConfig} {salt : Bytes} {e : Nat}
    {settled : Finset Bytes} (hsome : settled.Nonempty) (hsize : settled.card ≤ config.snMax)
    {c d : Conversation P} (hc : DueAt config salt e settled c)
    (hd : DueAt config salt e settled d) :
    ∃ l : StewardList, (reconcileStewardList : ConvM P _) c = .ok .settled (c.listed l) ∧
      (reconcileStewardList : ConvM P _) d = .ok .settled (d.listed l) ∧
      l.members.Perm settled.toList ∧ l.members.Nodup ∧ l.isExhausted e = false ∧
      (∀ id, (c.listed l).stewardList.isSteward id = true ↔ id ∈ settled) ∧
      ∀ id, (d.listed l).stewardList.isSteward id = true ↔ id ∈ settled := by
  have hperm := @wholeList_perm P config e salt settled.toList
  have hstewards : ∀ id, (wholeList P config e salt settled.toList).contains id = true ↔
      id ∈ settled := by
    intro id
    unfold StewardList.contains
    rw [decide_eq_true_iff, hperm.mem_iff, Finset.mem_toList]
  refine ⟨_, hc.reconcile hsome hsize, hd.reconcile hsome hsize, hperm,
    hperm.nodup_iff.mpr settled.nodup_toList, wholeList_serves ?_, hstewards, hstewards⟩
  rw [Ne, Finset.toList_eq_nil]
  exact hsome.ne_empty

end Conversation

/-! ## Two nodes -/

/-- A node of a pair whose list ran out before epoch 5, with the roster in this order. -/
def dueOf (own : LeafNodeIndex) (members : List Member) : Conversation Ideal.platform :=
  let c := Ideal.conversationOf own 5 [] (Ideal.stewardsOf [0] 1) [] none
  { c with mls := { c.mls with group := { c.mls.group with members := members } } }

/-- The two read the roster in different orders and get the same list. -/
theorem reconcile_agrees_pair : ∃ l : StewardList,
    (Conversation.reconcileStewardList : ConvM Ideal.platform _)
        (dueOf 0 [⟨0, [10]⟩, ⟨1, [11]⟩]) =
      .ok .settled ((dueOf 0 [⟨0, [10]⟩, ⟨1, [11]⟩]).listed l) ∧
    (Conversation.reconcileStewardList : ConvM Ideal.platform _)
        (dueOf 1 [⟨1, [11]⟩, ⟨0, [10]⟩]) =
      .ok .settled ((dueOf 1 [⟨1, [11]⟩, ⟨0, [10]⟩]).listed l) := by
  have hdue : ∀ c : Conversation Ideal.platform,
      c = dueOf 0 [⟨0, [10]⟩, ⟨1, [11]⟩] ∨ c = dueOf 1 [⟨1, [11]⟩, ⟨0, [10]⟩] →
        Conversation.DueAt ⟨1, 2, false⟩ [] 5 {memberIdOf 0, memberIdOf 1} c := by
    rintro c (rfl | rfl)
    · refine ⟨rfl, rfl, rfl, fun id => ?_, by decide, by decide⟩
      show id ∈ [memberIdOf 0, memberIdOf 1] ↔ _
      simp
    · refine ⟨rfl, rfl, rfl, fun id => ?_, by decide, by decide⟩
      show id ∈ [memberIdOf 1, memberIdOf 0] ↔ _
      simp [or_comm]
  obtain ⟨l, hfirst, hsecond, _⟩ := Conversation.reconcile_agrees (by decide) (by decide)
    (hdue _ (.inl rfl)) (hdue _ (.inr rfl))
  exact ⟨l, hfirst, hsecond⟩

end DeMls
