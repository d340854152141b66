import Mathlib.Logic.Relation
import DeMls.Lib.Program

/-!
# Programs as paths

A program that runs several smaller ones takes a path of their steps. `Along r x` says so of every
run of `x`, to a success and to an error alike: the state it ends in is reached from the state it
starts in by steps of `r`. An invariant of the steps is one of the program.
-/

namespace Program

open Relation

variable {ε ε' σ ρ α β : Type} {r r' : σ → σ → Prop}

/-- **Paths.** Every run of the program is a path of `r`. -/
def Along (r : σ → σ → Prop) (x : EStateM ε σ α) : Prop :=
  ∀ s, ReflTransGen r s (after x s)

theorem Along.mono (h : ∀ s t, r s t → r' s t) {x : EStateM ε σ α} (hx : Along r x) :
    Along r' x :=
  fun s => ReflTransGen.mono h _ _ (hx s)

/-- An invariant of the steps is kept by the program. -/
theorem Along.preserves {I : σ → Prop} (hI : ∀ s t, r s t → I s → I t) {x : EStateM ε σ α}
    (hx : Along r x) : Preserves I x := by
  intro s hs
  have hpath := hx s
  generalize after x s = t at hpath ⊢
  induction hpath with
  | refl => exact hs
  | tail _ hstep ih => exact hI _ _ hstep ih

/-- What the steps leave as it was, a path does. -/
theorem path_keeps {p : σ → ρ} {s t : σ} (h : ReflTransGen (fun s t => p t = p s) s t) :
    p t = p s := by
  induction h with
  | refl => rfl
  | tail _ hstep ih => exact hstep.trans ih

theorem Along.frame {p : σ → ρ} {x : EStateM ε σ α} (hx : Along (fun s t => p t = p s) x) :
    Frame p x :=
  fun s => path_keeps (hx s)

theorem along_step {x : EStateM ε σ α} (h : ∀ s, r s (after x s)) : Along r x :=
  fun s => .single (h s)

/-- A program that frames what `r` reads takes steps of `r`. -/
theorem along_frame {p : σ → ρ} (h : ∀ s t, p t = p s → r s t) {x : EStateM ε σ α}
    (hx : Frame p x) : Along r x :=
  along_step fun s => h _ _ (hx s)

theorem along_pure (a : α) : Along r (pure a : EStateM ε σ α) := fun _ => .refl

theorem along_throw (e : ε) : Along r (throw e : EStateM ε σ α) := fun _ => .refl

theorem along_get : Along r (get : EStateM ε σ σ) := fun _ => .refl

theorem along_ofResult (o : Except ε α) : Along r (ofResult o : EStateM ε σ α) := by
  intro s
  cases o <;> exact .refl

/-- What follows a program starts where the program ends. -/
theorem path_bind_ok {x : EStateM ε σ α} {f : α → EStateM ε σ β} {s : σ}
    (hx : ReflTransGen r s (after x s))
    (hf : ∀ a t, x s = .ok a t → ReflTransGen r t (after (f a) t)) :
    ReflTransGen r s (after (x >>= f) s) := by
  cases h : x s with
  | ok a t =>
    rw [after_bind_ok f h]
    rw [after_of_ok h] at hx
    exact hx.trans (hf a t h)
  | error e t =>
    rw [after_bind_error f h]
    rwa [after_of_error h] at hx

/-- What follows a program meets only results the program can have. -/
theorem along_bind_ok {x : EStateM ε σ α} {f : α → EStateM ε σ β} (hx : Along r x)
    (hf : ∀ s a t, x s = .ok a t → Along r (f a)) : Along r (x >>= f) :=
  fun s => path_bind_ok (hx s) fun a t h => hf s a t h t

theorem along_bind {x : EStateM ε σ α} {f : α → EStateM ε σ β} (hx : Along r x)
    (hf : ∀ a, Along r (f a)) : Along r (x >>= f) :=
  along_bind_ok hx fun _ a _ _ => hf a

theorem along_attempt {x : EStateM ε σ α} (hx : Along r x) :
    Along r (attempt x : EStateM ε' σ (Except ε α)) := by
  intro s
  obtain ⟨o, h⟩ : ∃ o, (attempt x : EStateM ε' σ (Except ε α)) s = .ok o (after x s) :=
    attempt_total x s
  rw [after_of_ok h]
  exact hx s

theorem along_ite {b : Prop} [Decidable b] {x y : EStateM ε σ α} (hx : Along r x)
    (hy : Along r y) : Along r (if b then x else y) := by
  split_ifs
  · exact hx
  · exact hy

/-- A program run for its effect, its result dropped. -/
theorem along_attempted {x : EStateM ε σ α} (hx : Along r x) :
    Along r (do
      let _ ← (attempt x : EStateM ε σ (Except ε α))
      pure ()) :=
  along_bind (along_attempt hx) fun _ => along_pure _

/-! ## Paths from one state -/

/-- A program that reads the state first runs with the state it reads. -/
theorem path_get_bind {f : σ → EStateM ε σ α} {s : σ} (h : ReflTransGen r s (after (f s) s)) :
    ReflTransGen r s (after (get >>= f) s) := by
  rwa [after_bind_ok f (get_apply s)]

/-- A fallible value of the state read is used only where it is one. -/
theorem path_ofResult_bind {o : Except ε α} {f : α → EStateM ε σ β} {s : σ}
    (h : ∀ a, o = .ok a → ReflTransGen r s (after (f a) s)) :
    ReflTransGen r s (after (ofResult o >>= f) s) := by
  cases o with
  | ok a =>
    rw [after_bind_ok f (show (ofResult (.ok a) : EStateM ε σ α) s = .ok a s from rfl)]
    exact h a rfl
  | error e =>
    rw [after_bind_error f (show (ofResult (.error e) : EStateM ε σ α) s = .error e s from rfl)]

theorem path_modify_bind {g : σ → σ} {f : PUnit → EStateM ε σ α} {s : σ} (h : r s (g s))
    (hf : Along r (f ⟨⟩)) : ReflTransGen r s (after (modify g >>= f) s) := by
  rw [after_bind_ok f (modify_apply g s)]
  exact .head h (hf _)

theorem path_ite {b : Prop} [Decidable b] {x y : EStateM ε σ α} {s : σ}
    (hx : b → ReflTransGen r s (after x s)) (hy : ¬ b → ReflTransGen r s (after y s)) :
    ReflTransGen r s (after (if b then x else y) s) := by
  split_ifs with h
  · exact hx h
  · exact hy h

end Program
