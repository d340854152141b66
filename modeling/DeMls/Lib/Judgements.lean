import DeMls.Lib.Paths

/-!
# Judgements on runs

A judgement says something of the run of a program from a state. Where it is compositional it
passes from the parts of a program to the whole, so that the operations a program is made of decide
it. Paths are such a judgement (`Path`). Another compares a run with one from a related state
(`Twin`): the two have one result and end in related states.
-/

namespace Program

open Relation

variable {ε ε' σ τ α β : Type}

/-- A statement about the run of a program from a state. -/
abbrev Judgement (ε σ : Type) := (α : Type) → EStateM ε σ α → σ → Prop

/-- The judgement passes from the parts of a program to the whole. `H` relates the states among
which what a program reads may not tell. -/
structure Compositional (H : σ → σ → Prop) (Q : Judgement ε σ) : Prop where
  pure : ∀ {α : Type} (a : α) s, Q α (pure a) s
  throw : ∀ {α : Type} (e : ε) s, Q α (throw e) s
  bind : ∀ {α β : Type} {x : EStateM ε σ α} {f : α → EStateM ε σ β} {s}, Q α x s →
    (∀ a t, x s = .ok a t → Q β (f a) t) → Q β (x >>= f) s
  read : ∀ {α : Type} {f : σ → EStateM ε σ α} {s}, (∀ t, H t s → f t = f s) → Q α (f s) s →
    Q α (get >>= f) s
  attempt : ∀ {α : Type} {x : EStateM ε σ α} {s}, Q α x s → Q (Except ε α) (attempt x) s

/-- The judgement is passed on every run of the program. -/
def Holds (Q : Judgement ε σ) (x : EStateM ε σ α) : Prop := ∀ s, Q α x s

theorem Holds.ite {Q : Judgement ε σ} {b : Prop} [Decidable b] {x y : EStateM ε σ α}
    (hx : Holds Q x) (hy : Holds Q y) : Holds Q (if b then x else y) := by
  split_ifs
  · exact hx
  · exact hy

namespace Compositional

variable {H H' : σ → σ → Prop} {Q : Judgement ε σ}

theorem mono (hq : Compositional H Q) (h : ∀ s t, H s t → H' s t) : Compositional H' Q :=
  { hq with read := fun hf hs => hq.read (fun t ht => hf t (h t _ ht)) hs }

variable (hq : Compositional H Q)

include hq

theorem done (a : α) : Holds Q (Pure.pure a : EStateM ε σ α) := fun s => hq.pure a s

theorem raise (e : ε) : Holds Q (MonadExcept.throw e : EStateM ε σ α) := fun s => hq.throw e s

theorem seq {x : EStateM ε σ α} {f : α → EStateM ε σ β} (hx : Holds Q x)
    (hf : ∀ a, Holds Q (f a)) : Holds Q (x >>= f) :=
  fun s => hq.bind (hx s) fun a t _ => hf a t

theorem caught {x : EStateM ε σ α} (hx : Holds Q x) :
    Holds Q (Program.attempt x : EStateM ε σ (Except ε α)) :=
  fun s => hq.attempt (hx s)

/-- A program run for its effect, its result dropped. -/
theorem attempted {x : EStateM ε σ α} (hx : Holds Q x) :
    Holds Q (do
      let _ ← (Program.attempt x : EStateM ε σ (Except ε α))
      Pure.pure () : EStateM ε σ Unit) :=
  hq.seq (hq.caught hx) fun _ => hq.done _

theorem result (o : Except ε α) : Holds Q (ofResult o : EStateM ε σ α) := by
  intro s
  cases o with
  | ok a => exact hq.pure a s
  | error e => exact hq.throw e s

/-- A fallible value is used only where it is one. -/
theorem result_bind {o : Except ε α} {f : α → EStateM ε σ β} {s : σ}
    (h : ∀ a, o = .ok a → Q β (f a) s) : Q β (ofResult o >>= f) s := by
  refine hq.bind (hq.result o s) fun a t hrun => ?_
  obtain ⟨ho, rfl⟩ := (ofResult_ok _ _ _ _).mp hrun
  exact h a ho

/-- In a run that succeeds, each part is known to succeed with the rest. -/
theorem bind_of_ok {x : EStateM ε σ α} {f : α → EStateM ε σ β} {s t : σ} {b : β}
    (h : (x >>= f) s = .ok b t)
    (hpart : ∀ a u, x s = .ok a u → f a u = .ok b t → Q α x s ∧ Q β (f a) u) : Q β (x >>= f) s := by
  obtain ⟨a, u, hx, hf⟩ := (bind_ok _ _ _ _ _).mp h
  refine hq.bind (hpart a u hx hf).1 fun a' u' hrun => ?_
  cases hx.symm.trans hrun
  exact (hpart a u hx hf).2

omit hq in
theorem branch {b : Prop} [Decidable b] {x y : EStateM ε σ α} {s : σ} (hx : b → Q α x s)
    (hy : ¬ b → Q α y s) : Q α (if b then x else y) s := by
  split_ifs with h
  · exact hx h
  · exact hy h

end Compositional

/-! ## Paths -/

/-- The run is a path of `r`. -/
def Path (r : σ → σ → Prop) : Judgement ε σ := fun _ x s => ReflTransGen r s (after x s)

theorem compositional_path (r : σ → σ → Prop) (H : σ → σ → Prop) :
    Compositional H (Path r : Judgement ε σ) where
  pure _ _ := .refl
  throw _ _ := .refl
  bind := by
    intro _ _ x f s hx hf
    unfold Path at hx hf ⊢
    cases h : x s with
    | ok a t =>
      rw [after_bind_ok f h]
      rw [after_of_ok h] at hx
      exact hx.trans (hf a t h)
    | error e t =>
      rw [after_bind_error f h]
      rwa [after_of_error h] at hx
  read _ hs := path_get_bind hs
  attempt := by
    intro _ x s hx
    unfold Path
    rwa [after_attempt]

theorem Holds.along {r : σ → σ → Prop} {x : EStateM ε σ α} (h : Holds (Path r) x) : Along r x := h

theorem Holds.frame {ρ : Type} {p : σ → ρ} {x : EStateM ε σ α}
    (h : Holds (Path fun s t => p t = p s) x) : Frame p x :=
  h.along.frame

/-! ## Twin runs -/

/-- One result, and related states. -/
inductive Agree (T : σ → σ → Prop) : EStateM.Result ε σ α → EStateM.Result ε σ α → Prop
  | ok {a : α} {s t : σ} (h : T s t) : Agree T (.ok a s) (.ok a t)
  | error {e : ε} {s t : σ} (h : T s t) : Agree T (.error e s) (.error e t)

/-- Runs from states related to this one end alike. -/
def Twin (T : σ → σ → Prop) : Judgement ε σ := fun _ x t => ∀ s, T s t → Agree T (x s) (x t)

variable {T : σ → σ → Prop}

theorem Agree.after {x : EStateM ε σ α} {s t : σ} (h : Agree T (x s) (x t)) :
    T (after x s) (after x t) := by
  unfold Program.after
  generalize x s = u at h ⊢
  generalize x t = v at h ⊢
  cases h with
  | ok h => exact h
  | error h => exact h

theorem compositional_twin (T : σ → σ → Prop) :
    Compositional T (Twin T : Judgement ε σ) where
  pure _ _ _ h := .ok h
  throw _ _ _ h := .error h
  bind := by
    intro _ _ x f t hx hf s hs
    change Agree T (EStateM.bind x f s) (EStateM.bind x f t)
    have hagree := hx s hs
    unfold EStateM.bind
    generalize hu : x s = u at hagree
    generalize hv : x t = v at hagree
    cases hagree with
    | @ok a s' t' h => exact hf a t' hv s' h
    | error h => exact .error h
  read := by
    intro _ f t hread hf s hs
    change Agree T (f s s) (f t t)
    rw [hread s hs]
    exact hf s hs
  attempt := by
    intro _ x t hx s hs
    have hagree := hx s hs
    unfold Program.attempt
    generalize x s = u at hagree
    generalize x t = v at hagree
    cases hagree with
    | ok h => exact .ok h
    | error h => exact .ok h

/-- A program of a component, on related components of related states. -/
theorem twin_zoom {T' : τ → τ → Prop} {l : Part σ τ} {lift : ε' → ε} {x : EStateM ε' τ α} {t : σ}
    (hget : ∀ s, T s t → T' (l.get s) (l.get t))
    (hset : ∀ s u v, T s t → T' u v → T (l.set u s) (l.set v t)) (hx : Twin T' α x (l.get t)) :
    Twin T α (zoom l lift x) t := by
  intro s hs
  have hagree := hx _ (hget s hs)
  unfold zoom
  generalize x (l.get s) = u at hagree
  generalize x (l.get t) = v at hagree
  cases hagree with
  | ok h => exact .ok (hset s _ _ hs h)
  | error h => exact .error (hset s _ _ hs h)

/-! ## Runs that leave related states -/

/-- Runs from states related to this one end in related states, whatever they return. -/
def Beside (T : σ → σ → Prop) : Judgement ε σ :=
  fun _ x t => ∀ s, T s t → T (after x s) (after x t)

theorem Twin.beside {x : EStateM ε σ α} {t : σ} (h : Twin T α x t) : Beside T α x t :=
  fun s hs => (h s hs).after

/-- What follows a twin run may differ in what it returns. -/
theorem beside_bind {x : EStateM ε σ α} {f : α → EStateM ε σ β} {t : σ} (hx : Twin T α x t)
    (hf : ∀ a t', x t = .ok a t' → Beside T β (f a) t') : Beside T β (x >>= f) t := by
  intro s hs
  have hagree := hx s hs
  generalize hu : x s = u at hagree
  generalize hv : x t = v at hagree
  cases hagree with
  | @ok a s' t' h =>
    rw [after_bind_ok f hu, after_bind_ok f hv]
    exact hf a t' hv s' h
  | error h =>
    rw [after_bind_error f hu, after_bind_error f hv]
    exact h

theorem beside_read {f : σ → EStateM ε σ α} {t : σ} (hread : ∀ s, T s t → f s = f t)
    (hf : Beside T α (f t) t) : Beside T α (get >>= f) t := by
  intro s hs
  rw [after_bind_ok f (get_apply s), after_bind_ok f (get_apply t), hread s hs]
  exact hf s hs

/-- A result that is dropped does not matter. -/
theorem beside_dropped {x : EStateM ε σ α} {f : α → EStateM ε σ β} (hf : ∀ a, Frame id (f a))
    {t : σ} (hx : Beside T α x t) : Beside T β (x >>= f) t := by
  intro s hs
  have hs' := after_bind_of_frame (x := x) hf s
  have ht' := after_bind_of_frame (x := x) hf t
  dsimp only [id] at hs' ht'
  rw [hs', ht']
  exact hx s hs

/-- Nor does one that is caught and dropped. -/
theorem beside_attempted {x : EStateM ε' σ α} {y : EStateM ε σ β} {t : σ} (hx : Beside T α x t)
    (hy : Beside T β y (after x t)) : Beside T β (do
      let _ ← (attempt x : EStateM ε σ (Except ε' α))
      y) t := by
  intro s hs
  rw [after_attempted, after_attempted]
  exact hy _ (hx s hs)

end Program
