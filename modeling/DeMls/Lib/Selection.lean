import Mathlib.Data.List.Sort
import Mathlib.Data.List.Induction

/-!
# Selection by priority

Stable sorting by a comparison, and what two parties that each take the first acceptable element
of one shared ranking have in common.
-/

namespace Selection

variable {α β : Type}

/-! ## Stable sorting -/

/-- Sort by a comparison, keeping the order of elements that compare equal. -/
def sortBy (cmp : α → α → Ordering) (l : List α) : List α :=
  l.insertionSort fun a b => (cmp a b).isLE

theorem sortBy_perm (cmp : α → α → Ordering) (l : List α) : (sortBy cmp l).Perm l :=
  List.perm_insertionSort _ l

@[simp] theorem mem_sortBy {cmp : α → α → Ordering} {l : List α} {a : α} :
    a ∈ sortBy cmp l ↔ a ∈ l :=
  (sortBy_perm cmp l).mem_iff

/-- Sorting commutes with a map that the comparison does not see. -/
theorem map_sortBy {cmp : α → α → Ordering} {cmp' : β → β → Ordering} (f : α → β) (l : List α)
    (h : ∀ a ∈ l, ∀ b ∈ l, cmp a b = cmp' (f a) (f b)) :
    (sortBy cmp l).map f = sortBy cmp' (l.map f) := by
  unfold sortBy
  apply List.map_insertionSort
  intro a ha b hb
  rw [h a ha b hb]

/-- Swapping the arguments swaps the answer. -/
theorem swap_eq (cmp : α → α → Ordering) [Std.OrientedCmp cmp] (a b : α) :
    cmp a b = (cmp b a).swap :=
  Std.OrientedCmp.eq_swap

theorem pairwise_sortBy (cmp : α → α → Ordering) [Std.TransCmp cmp] (l : List α) :
    (sortBy cmp l).Pairwise fun a b => (cmp a b).isLE = true := by
  have : Std.Total fun a b : α => (cmp a b).isLE = true := ⟨fun a b => by
    rw [swap_eq cmp b a]
    cases cmp a b <;> simp⟩
  have : IsTrans α fun a b => (cmp a b).isLE = true := ⟨fun _ _ _ => Std.TransCmp.isLE_trans⟩
  exact List.pairwise_insertionSort _ l

/-- Two orders of the same elements sort to the same list, when the comparison tells the elements
apart. -/
theorem sortBy_eq_of_perm {cmp : α → α → Ordering} [Std.TransCmp cmp] {l l' : List α}
    (hperm : l.Perm l') (hanti : ∀ a ∈ l, ∀ b ∈ l, cmp a b = .eq → a = b) :
    sortBy cmp l = sortBy cmp l' := by
  refine List.Perm.eq_of_pairwise ?_ (pairwise_sortBy cmp l) (pairwise_sortBy cmp l') ?_
  · intro a b ha hb hab hba
    rw [mem_sortBy] at ha hb
    apply hanti a ha b (hperm.mem_iff.mpr hb)
    rw [swap_eq cmp b a] at hba
    cases h : cmp a b <;> simp_all
  · exact (sortBy_perm cmp l).trans (hperm.trans (sortBy_perm cmp l').symm)

/-- A sorted list stays as it is. -/
theorem sortBy_of_pairwise {cmp : α → α → Ordering} {l : List α}
    (h : l.Pairwise fun a b => (cmp a b).isLE = true) : sortBy cmp l = l :=
  h.insertionSort_eq

/-- A prefix of a sorted list is sorted. -/
theorem sortBy_take (cmp : α → α → Ordering) [Std.TransCmp cmp] (n : Nat) (l : List α) :
    sortBy cmp ((sortBy cmp l).take n) = (sortBy cmp l).take n :=
  sortBy_of_pairwise ((pairwise_sortBy cmp l).sublist (List.take_sublist n _))

/-- Remove adjacent repetitions. -/
def dedupAdjacent [DecidableEq α] : List α → List α
  | [] => []
  | [a] => [a]
  | a :: b :: rest =>
    if a = b then dedupAdjacent (b :: rest) else a :: dedupAdjacent (b :: rest)

/-- Sort, then remove repetitions: the sorted list of the set of elements. -/
def sortDedup [DecidableEq α] (cmp : α → α → Ordering) (l : List α) : List α :=
  dedupAdjacent (sortBy cmp l)

@[simp] theorem mem_dedupAdjacent [DecidableEq α] {l : List α} {a : α} :
    a ∈ dedupAdjacent l ↔ a ∈ l := by
  induction l using dedupAdjacent.induct with
  | case1 => rfl
  | case2 b => rfl
  | case3 b rest ih => simp [dedupAdjacent, ih]
  | case4 b c rest hne ih =>
    rw [dedupAdjacent, if_neg hne, List.mem_cons, ih, List.mem_cons (a := a) (b := b)]

theorem mem_sortDedup [DecidableEq α] {cmp : α → α → Ordering} {l : List α} {a : α} :
    a ∈ sortDedup cmp l ↔ a ∈ l := by
  rw [sortDedup, mem_dedupAdjacent, mem_sortBy]

/-- A sorted list without its adjacent repetitions is strictly sorted. -/
theorem pairwise_dedupAdjacent [DecidableEq α] {cmp : α → α → Ordering} [Std.TransCmp cmp]
    [Std.LawfulEqCmp cmp] {l : List α} (h : l.Pairwise fun a b => (cmp a b).isLE = true) :
    (dedupAdjacent l).Pairwise fun a b => cmp a b = .lt := by
  induction l using dedupAdjacent.induct with
  | case1 => exact List.Pairwise.nil
  | case2 b => exact List.pairwise_singleton _ _
  | case3 b rest ih =>
    rw [dedupAdjacent, if_pos rfl]
    exact ih h.of_cons
  | case4 b c rest hne ih =>
    rw [dedupAdjacent, if_neg hne, List.pairwise_cons]
    refine ⟨fun d hd => ?_, ih h.of_cons⟩
    have hbc : cmp b c = .lt := by
      have hle := List.rel_of_pairwise_cons h List.mem_cons_self
      cases hcmp : cmp b c with
      | lt => rfl
      | eq => exact absurd (Std.LawfulEqCmp.eq_of_compare hcmp) hne
      | gt => simp [hcmp] at hle
    rcases List.mem_cons.mp (mem_dedupAdjacent.mp hd) with rfl | hd
    · exact hbc
    · exact Std.TransCmp.lt_of_lt_of_isLE hbc (List.rel_of_pairwise_cons h.of_cons hd)

/-- **Sorted sets.** Two lists have one sorted set exactly when they have the same elements. -/
theorem sortDedup_eq_iff [DecidableEq α] {cmp : α → α → Ordering} [Std.TransCmp cmp]
    [Std.LawfulEqCmp cmp] {l l' : List α} :
    sortDedup cmp l = sortDedup cmp l' ↔ ∀ a, a ∈ l ↔ a ∈ l' := by
  constructor
  · intro h a
    have hl : a ∈ sortDedup cmp l ↔ a ∈ l := mem_sortDedup
    rw [← hl, h, mem_sortDedup]
  · intro h
    have : Std.Irrefl fun a b : α => cmp a b = .lt := ⟨fun a => by
      simp [Std.ReflCmp.compare_self]⟩
    have : Std.Antisymm fun a b : α => cmp a b = .lt := ⟨fun a b hab hba => by
      rw [swap_eq cmp b a, hab] at hba
      simp at hba⟩
    apply List.Pairwise.eq_of_mem_iff (r := fun a b => cmp a b = .lt)
      (pairwise_dedupAdjacent (pairwise_sortBy cmp l))
      (pairwise_dedupAdjacent (pairwise_sortBy cmp l'))
    intro a
    rw [mem_dedupAdjacent, mem_dedupAdjacent, mem_sortBy, mem_sortBy]
    exact h a

/-! ## First mentions -/

/-- One more element is a first mention, or none. -/
theorem eraseDups_concat [BEq α] [LawfulBEq α] (l : List α) (a : α) :
    (l ++ [a]).eraseDups = l.eraseDups ++ if a ∈ l then [] else [a] := by
  rw [List.eraseDups_append, List.removeAll, List.filter_singleton, List.elem_eq_mem]
  split_ifs with h <;> simp only [h] <;> rfl

theorem nodup_eraseDups [BEq α] [LawfulBEq α] (l : List α) : l.eraseDups.Nodup := by
  induction l using List.reverseRecOn with
  | nil => exact List.nodup_nil
  | append_singleton l a ih =>
    rw [eraseDups_concat]
    split_ifs with h
    · rwa [List.append_nil]
    · refine ih.append (List.nodup_singleton a) ?_
      rw [List.disjoint_singleton, List.mem_eraseDups]
      exact h

/-! ## Filters -/

/-- Two filters of one list agree exactly when they agree on its elements. -/
theorem filter_eq_filter_iff {p q : α → Bool} {l : List α} :
    l.filter p = l.filter q ↔ ∀ a ∈ l, p a = q a := by
  constructor
  · intro h a ha
    have hmem : a ∈ l.filter p ↔ a ∈ l.filter q := by rw [h]
    simp only [List.mem_filter, ha, true_and] at hmem
    exact Bool.eq_iff_iff.mpr hmem
  · exact List.filter_congr

/-! ## The first acceptable element -/

/-- **Agreement.** Two parties walk one ranking. Both accept what passes `p`; each also takes the
elements of its own (`own`, `own'`), which the other does not own. They end on the same element
exactly when the first element either of them would take passes `p`. -/
theorem find?_agree_iff {p own own' : α → Bool} {l : List α} {x y : α}
    (hown : ∀ z ∈ l, ¬ (own z = true ∧ own' z = true))
    (hx : (l.find? fun z => p z || own z) = some x)
    (hy : (l.find? fun z => p z || own' z) = some y) :
    x = y ↔ ∃ z, (l.find? fun z => p z || own z || own' z) = some z ∧ p z = true := by
  induction l with
  | nil => simp at hx
  | cons c rest ih =>
    have hc := hown c List.mem_cons_self
    have hrest := ih fun z hz => hown z (List.mem_cons_of_mem c hz)
    by_cases hp : p c = true
    · simp only [hp, Bool.true_or, List.find?_cons_of_pos, Option.some.injEq] at hx hy
      simp [hp, ← hx, ← hy]
    · rw [Bool.not_eq_true] at hp
      cases ho : own c with
      | true =>
        have ho' : own' c = false := by
          rw [← Bool.not_eq_true]
          exact fun h => hc ⟨ho, h⟩
        simp only [hp, ho, ho', Bool.or_true, Bool.or_false, List.find?_cons, Option.some.injEq]
          at hx hy ⊢
        -- `c` is taken by one party only, and the other's pick passes a test that `c` fails.
        constructor
        · rintro rfl
          have := List.find?_some hy
          simp [← hx, hp, ho'] at this
        · rintro ⟨z, rfl, hz⟩
          simp [hp] at hz
      | false =>
        cases ho' : own' c with
        | true =>
          simp only [hp, ho, ho', Bool.or_true, Bool.or_false, List.find?_cons, Option.some.injEq]
            at hx hy ⊢
          constructor
          · rintro rfl
            have := List.find?_some hx
            simp [← hy, hp, ho] at this
          · rintro ⟨z, rfl, hz⟩
            simp [hp] at hz
        | false =>
          simp only [hp, ho, ho', Bool.or_false, List.find?_cons] at hx hy ⊢
          exact hrest hx hy

end Selection
