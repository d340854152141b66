import Mathlib.Algebra.GroupWithZero.Nat
import Mathlib.Algebra.Order.BigOperators.Group.List
import Mathlib.Algebra.Order.Group.Nat
import Mathlib.Data.List.Forall2
import Mathlib.Data.List.Nodup
import Mathlib.Logic.Function.Iterate
import Mathlib.Tactic.SplitIfs

/-!
# Queues that refill

A loop takes the head of a queue and handles it, and handling may append to the queue. Entries come
in kinds, and each kind has a cost that may fall but not rise. Where handling an entry costs more
than all it appends (`Spends`), the loop ends after as many turns as its queue costs, and no entry
it starts with causes more turns than its own cost.
-/

namespace Worklist

variable {σ ε ι κ : Type}

/-! ## Costs -/

/-- What all the entries cost. -/
def total (cost : κ → Nat) (entries : List (ι × κ)) : Nat := (entries.map fun x => cost x.2).sum

/-- What the entries of one origin cost. -/
def share [DecidableEq ι] (cost : κ → Nat) (i : ι) (entries : List (ι × κ)) : Nat :=
  (entries.map fun x => if x.1 = i then cost x.2 else 0).sum

/-- Entries of one origin. -/
def labelled (i : ι) (kinds : List κ) : List (ι × κ) := kinds.map fun k => (i, k)

theorem total_append (cost : κ → Nat) (l l' : List (ι × κ)) :
    total cost (l ++ l') = total cost l + total cost l' := by
  simp [total]

theorem total_labelled (cost : κ → Nat) (i : ι) (kinds : List κ) :
    total cost (labelled i kinds) = (kinds.map cost).sum := by
  simp [total, labelled, Function.comp_def]

theorem total_mono {cost cost' : κ → Nat} (h : ∀ k, cost' k ≤ cost k) (l : List (ι × κ)) :
    total cost' l ≤ total cost l :=
  List.sum_le_sum fun x _ => h x.2

section Share

variable [DecidableEq ι]

theorem share_append (cost : κ → Nat) (i : ι) (l l' : List (ι × κ)) :
    share cost i (l ++ l') = share cost i l + share cost i l' := by
  simp [share]

theorem share_labelled_self (cost : κ → Nat) (i : ι) (kinds : List κ) :
    share cost i (labelled i kinds) = (kinds.map cost).sum := by
  simp [share, labelled, Function.comp_def]

theorem share_labelled_of_ne (cost : κ → Nat) {i j : ι} (h : j ≠ i) (kinds : List κ) :
    share cost i (labelled j kinds) = 0 := by
  simp [share, labelled, Function.comp_def, h]

theorem share_mono {cost cost' : κ → Nat} (h : ∀ k, cost' k ≤ cost k) (i : ι) (l : List (ι × κ)) :
    share cost' i l ≤ share cost i l := by
  refine List.sum_le_sum fun x _ => ?_
  split_ifs
  · exact h x.2
  · exact Nat.le_refl _

theorem share_of_kind (cost : κ → Nat) (i : ι) (k : κ) (tags : List ι) :
    share cost i (tags.map fun j => (j, k)) = tags.count i * cost k := by
  unfold share
  induction tags with
  | nil => simp
  | cons j rest ih =>
    rw [List.map_cons, List.map_cons, List.sum_cons, ih, List.count_cons, Nat.add_mul]
    by_cases hj : j = i <;> simp [hj, Nat.add_comm]

end Share

/-! ## The loop -/

/-- The origins of what is handled: what a turn appends has the origin of what it handles. -/
def lineage (bus : σ → List ε) (turn : σ → σ) : Nat → List ι → σ → List ι
  | 0, _, _ => []
  | _ + 1, [], _ => []
  | fuel + 1, i :: rest, s =>
    i :: lineage bus turn fuel
      (rest ++ List.replicate ((bus (turn s)).length - rest.length) i) (turn s)

/-- An entry that is handled pays for all it appends, and makes nothing else dearer. -/
structure Spends (bus : σ → List ε) (turn : σ → σ) (I : σ → Prop) (known : σ → ε → κ → Prop)
    (cost : σ → κ → Nat) : Prop where
  idle : ∀ s, bus s = [] → turn s = s
  kept : ∀ {s e rest k}, I s → bus s = e :: rest → known s e k → I (turn s)
  still : ∀ {s e rest k}, I s → bus s = e :: rest → known s e k →
    ∀ e' k', known s e' k' → known (turn s) e' k'
  cheaper : ∀ {s e rest k}, I s → bus s = e :: rest → known s e k →
    ∀ k', cost (turn s) k' ≤ cost s k'
  refills : ∀ {s e rest k}, I s → bus s = e :: rest → known s e k →
    ∃ more kinds, bus (turn s) = rest ++ more ∧ List.Forall₂ (known (turn s)) more kinds ∧
      (kinds.map (cost (turn s))).sum < cost s k

section

variable {bus : σ → List ε} {turn : σ → σ} {I : σ → Prop} {known : σ → ε → κ → Prop}
  {cost : σ → κ → Nat}

/-- The entries of the queue are known by their kinds. -/
def Sorted (bus : σ → List ε) (known : σ → ε → κ → Prop) (s : σ) (entries : List (ι × κ)) : Prop :=
  List.Forall₂ (fun e x => known s e x.2) (bus s) entries

/-- **A turn** replaces its entry by others of its origin that cost less. -/
theorem Spends.turn_sorted (h : Spends bus turn I known cost) {s : σ} (hI : I s) {i : ι} {k : κ}
    {entries : List (ι × κ)} (hsorted : Sorted bus known s ((i, k) :: entries)) :
    ∃ kinds, Sorted bus known (turn s) (entries ++ labelled i kinds) ∧ I (turn s) ∧
      (bus (turn s)).length - entries.length = kinds.length ∧
      (kinds.map (cost (turn s))).sum < cost s k ∧ ∀ k', cost (turn s) k' ≤ cost s k' := by
  unfold Sorted at hsorted
  cases hbus : bus s with
  | nil =>
    rw [hbus] at hsorted
    cases hsorted
  | cons e rest =>
    rw [hbus] at hsorted
    obtain ⟨he, hrest⟩ := List.forall₂_cons.mp hsorted
    obtain ⟨more, kinds, hnext, hmore, hcost⟩ := h.refills hI hbus he
    refine ⟨kinds, ?_, h.kept hI hbus he, ?_, hcost, h.cheaper hI hbus he⟩
    · unfold Sorted labelled
      rw [hnext]
      refine List.rel_append (hrest.imp fun e x hx => h.still hI hbus he e x.2 hx) ?_
      rw [List.forall₂_map_right_iff]
      exact hmore
    · rw [hnext, List.length_append, hrest.length_eq, hmore.length_eq]
      exact Nat.add_sub_cancel_left _ _

/-- **The loop ends** once it has taken the turns its queue costs. -/
theorem Spends.ends_of_total (h : Spends bus turn I known cost) {s : σ} (hI : I s)
    {entries : List (ι × κ)} (hsorted : Sorted bus known s entries) {fuel : Nat}
    (hfuel : total (cost s) entries ≤ fuel) : bus (turn^[fuel] s) = [] := by
  induction fuel generalizing s entries with
  | zero =>
    cases entries with
    | nil => exact List.forall₂_nil_right_iff.mp hsorted
    | cons x entries =>
      obtain ⟨kinds, -, -, -, hcost, -⟩ := h.turn_sorted hI hsorted
      have hpaid : cost s x.2 ≤ total (cost s) (x :: entries) := by
        simp [total]
      omega
  | succ fuel ih =>
    rw [Function.iterate_succ_apply]
    cases entries with
    | nil =>
      have hempty : bus s = [] := List.forall₂_nil_right_iff.mp hsorted
      rw [h.idle s hempty]
      exact ih hI hsorted (Nat.zero_le _)
    | cons x entries =>
      obtain ⟨kinds, hnext, hkept, -, hcost, hcheaper⟩ := h.turn_sorted hI hsorted
      refine ih hkept hnext ?_
      have hrest := total_mono hcheaper entries
      have hpaid : total (cost s) (x :: entries) = cost s x.2 + total (cost s) entries := by
        simp [total]
      rw [total_append, total_labelled]
      omega

/-- **Causes.** No origin has more turns than its entries cost. -/
theorem Spends.count_lineage_le [DecidableEq ι] (h : Spends bus turn I known cost) {s : σ}
    (hI : I s) {entries : List (ι × κ)} (hsorted : Sorted bus known s entries) (fuel : Nat) (i : ι) :
    (lineage bus turn fuel (entries.map Prod.fst) s).count i ≤ share (cost s) i entries := by
  induction fuel generalizing s entries with
  | zero => exact Nat.zero_le _
  | succ fuel ih =>
    cases entries with
    | nil => exact Nat.zero_le _
    | cons x entries =>
      obtain ⟨j, k⟩ := x
      obtain ⟨kinds, hnext, hkept, hlength, hcost, hcheaper⟩ := h.turn_sorted hI hsorted
      have horigins : (entries ++ labelled j kinds).map Prod.fst =
          entries.map Prod.fst ++ List.replicate kinds.length j := by
        simp [labelled, Function.comp_def]
      have hlater := ih hkept hnext
      rw [horigins, share_append] at hlater
      have hrest := share_mono hcheaper i entries
      rw [List.map_cons, lineage, List.length_map, hlength, List.count_cons]
      dsimp only
      by_cases hj : j = i
      · have hpaid : share (cost s) i ((j, k) :: entries) =
            cost s k + share (cost s) i entries := by
          simp [share, hj]
        rw [hj] at hlater ⊢
        rw [hj] at hpaid
        rw [share_labelled_self] at hlater
        rw [hpaid, if_pos (beq_self_eq_true i)]
        omega
      · have hpaid : share (cost s) i ((j, k) :: entries) = share (cost s) i entries := by
          simp [share, hj]
        rw [share_labelled_of_ne _ hj] at hlater
        rw [hpaid, if_neg (by simpa using hj)]
        omega

/-! ## A queue of one kind -/

variable {k : κ} {s : σ}

theorem sorted_of_kind (hk : ∀ e, known s e k) (tags : List ι)
    (hlength : tags.length = (bus s).length) : Sorted bus known s (tags.map fun i => (i, k)) := by
  unfold Sorted
  rw [List.forall₂_map_right_iff, List.forall₂_iff_zip]
  exact ⟨hlength.symm, fun _ => hk _⟩

theorem Spends.ends (h : Spends bus turn I known cost) (hI : I s) (hk : ∀ e, known s e k)
    {fuel : Nat} (hfuel : (bus s).length * cost s k ≤ fuel) : bus (turn^[fuel] s) = [] := by
  refine h.ends_of_total hI (sorted_of_kind hk (bus s) rfl) ?_
  simpa [total, Function.comp_def] using hfuel

theorem Spends.count_le [DecidableEq ι] (h : Spends bus turn I known cost) (hI : I s)
    (hk : ∀ e, known s e k) {tags : List ι} (hlength : tags.length = (bus s).length)
    (hnodup : tags.Nodup) (fuel : Nat) (i : ι) :
    (lineage bus turn fuel tags s).count i ≤ cost s k := by
  have hcount := h.count_lineage_le hI (sorted_of_kind hk tags hlength) fuel i
  have hsame : (tags.map fun i => (i, k)).map Prod.fst = tags := by
    simp [Function.comp_def]
  rw [hsame, share_of_kind] at hcount
  calc (lineage bus turn fuel tags s).count i ≤ tags.count i * cost s k := hcount
    _ ≤ 1 * cost s k := Nat.mul_le_mul_right _ (List.nodup_iff_count_le_one.mp hnodup i)
    _ = cost s k := Nat.one_mul _

end

end Worklist
