import Mathlib.Logic.Relation

/-!
# Runs of a labelled step relation

The states a system reaches when each of its steps meets a condition on the state before it and
on its label, and the invariant rule for them. A history variable (`watch`) carries what a run
did along with its state. A `Trace` is a run with its steps kept: `Trace.all_iff` turns an exact
condition on one step into one on every run.
-/

namespace Runs

variable {σ ι γ : Type}

/-- The states reached from `init` by steps that all meet `cond`. -/
inductive Reaches (init : σ → Prop) (step : σ → ι → σ → Prop) (cond : σ → ι → Prop) : σ → Prop
  | start {s : σ} (h : init s) : Reaches init step cond s
  | next {s t : σ} {i : ι} (hs : Reaches init step cond s) (hcond : cond s i) (hstep : step s i t) :
      Reaches init step cond t

variable {init : σ → Prop} {step : σ → ι → σ → Prop} {cond : σ → ι → Prop}

/-- **Invariants.** What holds initially and is kept by every step that meets the condition holds
in every state reached. -/
theorem Reaches.invariant {I : σ → Prop} (hinit : ∀ s, init s → I s)
    (hstep : ∀ s i t, I s → cond s i → step s i t → I t) {s : σ}
    (h : Reaches init step cond s) : I s := by
  induction h with
  | start h => exact hinit _ h
  | next _ hcond hst ih => exact hstep _ _ _ ih hcond hst

/-- A run can go on with any labels that have a step. -/
theorem Reaches.foldl {next : σ → ι → σ} (hnext : ∀ s i, step s i (next s i))
    (hcond : ∀ s i, cond s i) {s : σ} (h : Reaches init step cond s) (labels : List ι) :
    Reaches init step cond (labels.foldl next s) := by
  induction labels generalizing s with
  | nil => exact h
  | cons i rest ih => exact ih (.next h (hcond s i) (hnext s i))

/-- A run with its steps, each between the states around it. -/
inductive Trace (init : σ → Prop) (step : σ → ι → σ → Prop) : List (σ × ι × σ) → σ → Prop
  | start {s : σ} (h : init s) : Trace init step [] s
  | next {s t : σ} {i : ι} {steps : List (σ × ι × σ)} (hs : Trace init step steps s)
      (hstep : step s i t) : Trace init step (steps ++ [(s, i, t)]) t

/-- A run that goes on along a path. -/
theorem Trace.append {steps : List (σ × ι × σ)} {s t : σ} (hs : Trace init step steps s)
    (h : Relation.ReflTransGen (fun s t => ∃ i, step s i t) s t) :
    ∃ more, Trace init step (steps ++ more) t := by
  induction h with
  | refl => exact ⟨[], by rwa [List.append_nil]⟩
  | @tail t u _ hstep ih =>
    obtain ⟨more, ht⟩ := ih
    obtain ⟨i, hstep⟩ := hstep
    refine ⟨more ++ [(t, i, u)], ?_⟩
    rw [← List.append_assoc]
    exact .next ht hstep

/-- The steps along labels that all have a successor. -/
def stepsAlong (next : σ → ι → σ) : σ → List ι → List (σ × ι × σ)
  | _, [] => []
  | s, i :: rest => (s, i, next s i) :: stepsAlong next (next s i) rest

theorem Trace.along {next : σ → ι → σ} (hnext : ∀ s i, step s i (next s i))
    {steps : List (σ × ι × σ)} {s : σ} (h : Trace init step steps s) (labels : List ι) :
    Trace init step (steps ++ stepsAlong next s labels) (labels.foldl next s) := by
  induction labels generalizing steps s with
  | nil => rwa [stepsAlong, List.append_nil]
  | cons i rest ih =>
    have hrest := ih (.next h (hnext s i))
    rwa [List.append_assoc] at hrest

/-- **Exact conditions.** If right steps keep an invariant, and under it a step is right exactly when
it meets the condition, then all steps of a run are right exactly when all meet the condition. -/
theorem Trace.all_iff {I : σ → Prop} (right : σ → ι → σ → Prop) (hinit : ∀ s, init s → I s)
    (hkeep : ∀ s i t, I s → step s i t → right s i t → I t)
    (hstep : ∀ s i t, I s → step s i t → (right s i t ↔ cond s i)) {steps : List (σ × ι × σ)} {s : σ}
    (h : Trace init step steps s) :
    (∀ e ∈ steps, right e.1 e.2.1 e.2.2) ↔ ∀ e ∈ steps, cond e.1 e.2.1 := by
  suffices hboth : ((∀ e ∈ steps, right e.1 e.2.1 e.2.2) ↔ ∀ e ∈ steps, cond e.1 e.2.1) ∧
      ((∀ e ∈ steps, right e.1 e.2.1 e.2.2) → I s) from hboth.1
  induction h with
  | start h => exact ⟨by simp, fun _ => hinit _ h⟩
  | @next s t i steps _ hst ih =>
    obtain ⟨ih, hI⟩ := ih
    have hlast : ∀ p : σ × ι × σ → Prop,
        (∀ e ∈ steps ++ [(s, i, t)], p e) ↔ (∀ e ∈ steps, p e) ∧ p (s, i, t) := by
      intro p
      rw [List.forall_mem_append, List.forall_mem_singleton]
    rw [hlast fun e => right e.1 e.2.1 e.2.2, hlast fun e => cond e.1 e.2.1]
    refine ⟨?_, fun ⟨hright, hr⟩ => hkeep _ _ _ (hI hright) hst hr⟩
    constructor
    · rintro ⟨hright, hr⟩
      exact ⟨ih.mp hright, (hstep _ _ _ (hI hright) hst).mp hr⟩
    · rintro ⟨hconds, hc⟩
      have hright := ih.mpr hconds
      exact ⟨hright, (hstep _ _ _ (hI hright) hst).mpr hc⟩

/-- The system with a history variable, updated at each step. -/
def watch (update : γ → σ → ι → σ → γ) (step : σ → ι → σ → Prop) (s : σ × γ) (i : ι) (t : σ × γ) :
    Prop :=
  step s.1 i t.1 ∧ t.2 = update s.2 s.1 i t.1

/-- One more step of a watched run. -/
theorem Trace.watched {update : γ → σ → ι → σ → γ} {init : σ × γ → Prop}
    {steps : List ((σ × γ) × ι × (σ × γ))} {s t : σ} {h : γ} {i : ι}
    (hs : Trace init (watch update step) steps (s, h)) (hstep : step s i t) :
    Trace init (watch update step) (steps ++ [((s, h), i, (t, update h s i t))])
      (t, update h s i t) :=
  .next hs ⟨hstep, rfl⟩

end Runs
