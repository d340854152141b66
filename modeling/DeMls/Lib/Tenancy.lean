import Mathlib.Logic.Function.Basic
import Mathlib.Tactic.SplitIfs

/-!
# Tenancies

Slots that are held for a while, vacated and held again. A register says of each slot since when
its holder has it and what was noted of that holder. A history enters notes and turnovers; in one
turnover some slots are vacated before others are taken, so a slot can be in both lists.
`Register.after_taken` reads the register back from the history: only what came after the last
turnover of a slot counts for its holder.
-/

namespace Tenancy

open Function

variable {κ δ β : Type}

/-- A holder: since when, and what was noted of it. -/
structure Holder (δ : Type) where
  since : Nat
  notes : List δ
deriving DecidableEq, Repr

/-- The holders by slot. -/
abbrev Register (κ δ : Type) := κ → Option (Holder δ)

/-- What happens to the slots. -/
inductive Entry (κ δ : Type)
  | note (slot : κ) (what : δ)
  /-- These slots are vacated, then those are taken. -/
  | turnover (time : Nat) (vacated taken : List κ)
deriving DecidableEq, Repr

namespace Entry

variable [DecidableEq κ]

/-- The entry gives or takes the slot. -/
def turns (slot : κ) : Entry κ δ → Bool
  | note _ _ => false
  | turnover _ vacated taken => slot ∈ vacated || slot ∈ taken

/-- What the entry notes of the slot. -/
def noted (slot : κ) : Entry κ δ → Option δ
  | note s what => if s = slot then some what else none
  | turnover _ _ _ => none

end Entry

namespace Register

variable [DecidableEq κ]

/-- One entry. -/
def enter (r : Register κ δ) : Entry κ δ → Register κ δ
  | .note slot what => update r slot ((r slot).map fun h => { h with notes := h.notes ++ [what] })
  | .turnover time vacated taken => fun slot =>
    if slot ∈ taken then some ⟨time, []⟩ else if slot ∈ vacated then none else r slot

theorem enter_note (r : Register κ δ) (slot : κ) (what : δ) (s : κ) :
    r.enter (.note slot what) s =
      if s = slot then (r slot).map fun h => { h with notes := h.notes ++ [what] } else r s :=
  update_apply _ _ _ _

theorem enter_turnover (r : Register κ δ) (time : Nat) (vacated taken : List κ) (slot : κ) :
    r.enter (.turnover time vacated taken) slot =
      if slot ∈ taken then some ⟨time, []⟩ else if slot ∈ vacated then none else r slot := rfl

/-- A history, from its first entry on. -/
def after (r : Register κ δ) (history : List (Entry κ δ)) : Register κ δ := history.foldl enter r

@[simp] theorem after_nil (r : Register κ δ) : r.after [] = r := rfl

@[simp] theorem after_cons (r : Register κ δ) (e : Entry κ δ) (history : List (Entry κ δ)) :
    r.after (e :: history) = (r.enter e).after history := rfl

theorem after_append (r : Register κ δ) (history more : List (Entry κ δ)) :
    r.after (history ++ more) = (r.after history).after more :=
  List.foldl_append

/-! ## Terms -/

/-- Since when a slot is held. -/
def term (r : Register κ δ) (slot : κ) : Option Nat := (r slot).map Holder.since

/-- A note begins and ends no term. -/
theorem term_note (r : Register κ δ) (slot : κ) (what : δ) :
    (r.enter (.note slot what)).term = r.term := by
  funext s
  unfold term
  rw [enter_note]
  split_ifs with hs
  · rw [hs, Option.map_map]
    rfl
  · rfl

theorem term_notes (r : Register κ δ) (notes : List (κ × δ)) :
    (r.after (notes.map fun n => .note n.1 n.2)).term = r.term := by
  induction notes generalizing r with
  | nil => rfl
  | cons n rest ih =>
    rw [List.map_cons, after_cons, ih, term_note]

theorem term_turnover (r : Register κ δ) (time : Nat) (vacated taken : List κ) (slot : κ) :
    (r.enter (.turnover time vacated taken)).term slot =
      if slot ∈ taken then some time else if slot ∈ vacated then none else r.term slot := by
  unfold term
  rw [enter_turnover]
  split_ifs <;> rfl

/-! ## Reading a register back -/

/-- Without a turnover a slot keeps its holder, of whom more may be noted. -/
theorem after_unturned (r : Register κ δ) {history : List (Entry κ δ)} {slot : κ}
    (h : ∀ e ∈ history, e.turns slot = false) : r.after history slot =
      (r slot).map fun t => { t with notes := t.notes ++ history.filterMap (Entry.noted slot) } := by
  induction history generalizing r with
  | nil =>
    simp only [after_nil, List.filterMap_nil, List.append_nil]
    exact Option.map_id'.symm
  | cons e rest ih =>
    rw [after_cons, ih _ fun e' he' => h e' (List.mem_cons_of_mem _ he')]
    cases e with
    | note s what =>
      rw [enter_note]
      by_cases hs : s = slot
      · subst hs
        have hnoted : Entry.noted s (.note s what) = some what := if_pos rfl
        rw [if_pos rfl, Option.map_map, List.filterMap_cons_some hnoted]
        congr 1
        funext t
        simp
      · have hnoted : Entry.noted slot (.note s what) = none := if_neg hs
        rw [if_neg (Ne.symm hs), List.filterMap_cons_none hnoted]
    | turnover time vacated taken =>
      have hturns := h _ List.mem_cons_self
      simp only [Entry.turns, Bool.or_eq_false_iff, decide_eq_false_iff_not] at hturns
      have hkept : r.enter (.turnover time vacated taken) slot = r slot := by
        rw [enter_turnover, if_neg hturns.2, if_neg hturns.1]
      rw [hkept]
      rfl

/-- **Nothing is inherited.** Whoever takes a slot starts without notes, also on a slot vacated by
the same turnover. -/
theorem after_taken (r : Register κ δ) {before later : List (Entry κ δ)} {time : Nat}
    {vacated taken : List κ} {slot : κ} (htaken : slot ∈ taken)
    (hlater : ∀ e ∈ later, e.turns slot = false) :
    r.after (before ++ .turnover time vacated taken :: later) slot =
      some ⟨time, later.filterMap (Entry.noted slot)⟩ := by
  have hfresh : (r.after before).enter (.turnover time vacated taken) slot = some ⟨time, []⟩ :=
    if_pos htaken
  rw [after_append, after_cons, after_unturned _ hlater, hfresh]
  rfl

end Register

/-! ## Values -/

/-- What the notes of a holder make of a value, one after the other. -/
def Holder.value (step : β → δ → β) (start : β) (h : Holder δ) : β := h.notes.foldl step start

/-- The values of all slots. -/
def Register.values (step : β → δ → β) (start : β) (r : Register κ δ) (slot : κ) : Option β :=
  (r slot).map (Holder.value step start)

section
variable [DecidableEq κ] (step : β → δ → β) (start : β)

theorem Register.values_note (r : Register κ δ) (slot : κ) (what : δ) :
    (r.enter (.note slot what)).values step start = update (r.values step start) slot
      ((r.values step start slot).map fun value => step value what) := by
  funext s
  unfold values
  rw [enter_note, update_apply]
  split_ifs with hs
  · rw [Option.map_map, Option.map_map]
    congr 1
    funext h
    exact List.foldl_append
  · rfl

theorem Register.values_turnover (r : Register κ δ) (time : Nat) (vacated taken : List κ)
    (slot : κ) : (r.enter (.turnover time vacated taken)).values step start slot =
      if slot ∈ taken then some start else if slot ∈ vacated then none
      else r.values step start slot := by
  unfold values
  rw [enter_turnover]
  split_ifs <;> rfl

end

end Tenancy
