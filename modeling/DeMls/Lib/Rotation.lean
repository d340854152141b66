import Mathlib.Data.List.Rotate
import Mathlib.Data.List.Nodup

/-!
# Taking turns

A fixed list whose elements serve in cyclic order: who is first from a slot, who stands next in
line, and how often each one's turn comes.
-/

namespace Rotation

variable {α : Type}

/-! ## Walking the slots -/

/-- Reading a list slot by slot gives the list. -/
theorem filterMap_range_getElem? (l : List α) :
    ((List.range l.length).filterMap fun k => l[k]?) = l := by
  induction l with
  | nil => rfl
  | cons a rest ih =>
    simp only [List.length_cons, List.range_succ_eq_map, List.filterMap_cons, List.filterMap_map,
      List.getElem?_cons_zero]
    simpa only [Function.comp_def, List.getElem?_cons_succ, List.cons.injEq, true_and] using ih

/-- The slots in cyclic order from `start`. -/
theorem walk_eq_rotate (l : List α) (start : Nat) :
    ((List.range l.length).filterMap fun step => l[(start + step) % l.length]?) =
      l.rotate start := by
  calc ((List.range l.length).filterMap fun step => l[(start + step) % l.length]?)
      = (List.range (l.rotate start).length).filterMap fun step => (l.rotate start)[step]? := by
        rw [List.length_rotate]
        apply List.filterMap_congr
        intro step hstep
        rw [List.getElem?_rotate (List.mem_range.mp hstep), Nat.add_comm]
    _ = l.rotate start := filterMap_range_getElem? _

/-! ## Succession -/

/-- Where the first accepted element of a list without repetitions stands: those before it are
rejected, and it does not come again. -/
theorem find?_split {l : List α} {p : α → Bool} {a : α} (hnodup : l.Nodup)
    (h : l.find? p = some a) :
    ∃ before after, l = before ++ a :: after ∧ p a = true ∧ (∀ b ∈ before, p b = false) ∧
      a ∉ after := by
  obtain ⟨hpa, before, after, rfl, hbefore⟩ := List.find?_eq_some_iff_append.mp h
  have hdisjoint := List.nodup_middle.mp hnodup
  rw [List.nodup_cons, List.mem_append, not_or] at hdisjoint
  refine ⟨before, after, rfl, hpa, fun b hb => ?_, hdisjoint.1.2⟩
  simpa using hbefore b hb

/-- What a filter keeps of a list split at its first accepted element. -/
theorem filter_split {before after : List α} {p : α → Bool} {a : α} (hpa : p a = true)
    (hbefore : ∀ b ∈ before, p b = false) :
    (before ++ a :: after).filter p = a :: after.filter p := by
  have hnone : before.filter p = [] := by
    rw [List.filter_eq_nil_iff]
    intro b hb
    simp [hbefore b hb]
  rw [List.filter_append, hnone, List.nil_append, List.filter_cons_of_pos hpa]

/-- Passing over the first accepted element, from the front or from one slot on, leads to the first
accepted element after it. -/
theorem find?_next [DecidableEq α] {before after : List α} {p : α → Bool} {a : α}
    (hbefore : ∀ b ∈ before, p b = false) (hafter : a ∉ after) :
    ((before ++ a :: after).find? fun c => decide (c ≠ a) && p c) = after.find? p ∧
      (((before ++ a :: after).rotate 1).find? fun c => decide (c ≠ a) && p c) =
        after.find? p := by
  have hskip : ∀ xs : List α, (∀ b ∈ xs, p b = false) →
      (xs.filter fun c => decide (c ≠ a) && p c) = [] := by
    intro xs hxs
    rw [List.filter_eq_nil_iff]
    intro b hb
    simp [hxs b hb]
  have hlater : (after.filter fun c => decide (c ≠ a) && p c) = after.filter p := by
    apply List.filter_congr
    intro c hc
    have hne : c ≠ a := fun h => hafter (h ▸ hc)
    simp [hne]
  have hself : ((a :: after).filter fun c => decide (c ≠ a) && p c) = after.filter p := by
    rw [List.filter_cons_of_neg (by simp), hlater]
  rw [← List.head?_filter, ← List.head?_filter, ← List.head?_filter]
  constructor
  · rw [List.filter_append, hskip before hbefore, hself, List.nil_append]
  · cases before with
    | nil =>
      rw [List.nil_append, List.rotate_cons_succ, List.rotate_zero, List.filter_append, hlater]
      simp
    | cons b before =>
      have hb := hskip [b] fun c hc => hbefore c (by simp_all)
      have hrest := hskip before fun c hc => hbefore c (List.mem_cons_of_mem b hc)
      rw [List.cons_append, List.rotate_cons_succ, List.rotate_zero, List.filter_append, hb,
        List.append_nil, List.filter_append, hrest, List.nil_append, hself]

/-! ## Turns -/

/-- **Fairness.** In any window as long as the list, counting round-robin, each element of a list
without repetitions has its turn exactly once. -/
theorem existsUnique_turn {l : List α} (hnodup : l.Nodup) (r : Nat) {a : α} (ha : a ∈ l) :
    ∃! k, k < l.length ∧ l[(r + k) % l.length]? = some a := by
  have hslot : ∀ k, k < l.length → l[(r + k) % l.length]? = (l.rotate r)[k]? := by
    intro k hk
    rw [List.getElem?_rotate hk, Nat.add_comm]
  have hlength := List.length_rotate l r
  obtain ⟨k, hk, hget⟩ := List.getElem_of_mem (List.mem_rotate.mpr ha : a ∈ l.rotate r)
  rw [hlength] at hk
  refine ⟨k, ⟨hk, ?_⟩, ?_⟩
  · rw [hslot k hk]
    exact List.getElem?_eq_some_iff.mpr ⟨by omega, hget⟩
  · rintro k' ⟨hk', hget'⟩
    rw [hslot k' hk'] at hget'
    obtain ⟨h', hget'⟩ := List.getElem?_eq_some_iff.mp hget'
    exact (List.nodup_rotate.mpr hnodup).getElem_inj_iff.mp (hget'.trans hget.symm)

end Rotation
