import DeMls.Lib.Program

/-!
# Triples

`Triple pre x post fail` says of the runs of `x` from states with `pre` that those that succeed end in
`post` and those that fail in `fail`. The rules follow the program: a bind needs a state in the middle,
a program on a part of the state is run there. With one assertion throughout a triple says that the
program preserves it (`Triple.preserves`).
-/

namespace Program

variable {ε ε' σ τ α β : Type} {pre pre' : σ → Prop} {post post' : α → σ → Prop}
  {fail fail' : σ → Prop}

/-- **Triples.** -/
def Triple (pre : σ → Prop) (x : EStateM ε σ α) (post : α → σ → Prop) (fail : σ → Prop) : Prop :=
  ∀ s, pre s → (∀ a t, x s = .ok a t → post a t) ∧ ∀ e t, x s = .error e t → fail t

/-- One assertion at the end, whatever happens. -/
theorem Triple.after {I : σ → Prop} {x : EStateM ε σ α} (h : Triple pre x (fun _ => I) I) {s : σ}
    (hs : pre s) : I (after x s) := by
  cases hrun : x s with
  | ok a t =>
    rw [after_of_ok hrun]
    exact (h s hs).1 a t hrun
  | error e t =>
    rw [after_of_error hrun]
    exact (h s hs).2 e t hrun

theorem Triple.preserves {I : σ → Prop} {x : EStateM ε σ α} (h : Triple I x (fun _ => I) I) :
    Preserves I x :=
  fun _ hs => h.after hs

theorem Preserves.triple {I : σ → Prop} {x : EStateM ε σ α} (h : Preserves I x) :
    Triple I x (fun _ => I) I := by
  intro s hs
  have ht := h s hs
  refine ⟨fun a t hrun => ?_, fun e t hrun => ?_⟩
  · rwa [after_of_ok hrun] at ht
  · rwa [after_of_error hrun] at ht

/-- Consequence. -/
theorem Triple.weaken {x : EStateM ε σ α} (h : Triple pre x post fail) (hpre : ∀ s, pre' s → pre s)
    (hpost : ∀ a s, post a s → post' a s) (hfail : ∀ s, fail s → fail' s) :
    Triple pre' x post' fail' :=
  fun s hs => ⟨fun a t hrun => hpost a t ((h s (hpre s hs)).1 a t hrun),
    fun e t hrun => hfail t ((h s (hpre s hs)).2 e t hrun)⟩

/-- From one state. -/
theorem Triple.start {x : EStateM ε σ α} (h : Triple pre x post fail) {s : σ} (hs : pre s) :
    Triple (· = s) x post fail :=
  h.weaken (fun _ heq => heq ▸ hs) (fun _ _ h => h) fun _ h => h

theorem triple_pure {a : α} (h : ∀ s, pre s → post a s) :
    Triple pre (pure a : EStateM ε σ α) post fail := by
  refine fun s hs => ⟨fun b t hrun => ?_, fun e t hrun => absurd hrun (pure_error _ _ _ _)⟩
  obtain ⟨rfl, rfl⟩ := (pure_ok _ _ _ _).mp hrun
  exact h s hs

/-- Sequencing: what holds in the middle. -/
theorem triple_bind {mid : β → σ → Prop} {x : EStateM ε σ β} {f : β → EStateM ε σ α}
    (hx : Triple pre x mid fail) (hf : ∀ b, Triple (mid b) (f b) post fail) :
    Triple pre (x >>= f) post fail := by
  intro s hs
  refine ⟨fun a t hrun => ?_, fun e t hrun => ?_⟩
  · obtain ⟨b, u, hb, hrun⟩ := (bind_ok _ _ _ _ _).mp hrun
    exact (hf b u ((hx s hs).1 b u hb)).1 a t hrun
  · rcases (bind_error _ _ _ _ _).mp hrun with hb | ⟨b, u, hb, hrun⟩
    · exact (hx s hs).2 e t hb
    · exact (hf b u ((hx s hs).1 b u hb)).2 e t hrun

/-- A program that reads the state first runs with the state it reads. -/
theorem triple_get_bind {f : σ → EStateM ε σ α}
    (h : ∀ s, pre s → Triple (· = s) (f s) post fail) :
    Triple pre (get >>= f) post fail := by
  intro s hs
  rw [bind_run f (get_apply s)]
  exact h s hs s rfl

/-- A program that is right whatever it reads. -/
theorem triple_read {f : σ → EStateM ε σ α} (h : ∀ s, Triple pre (f s) post fail) :
    Triple pre (get >>= f) post fail :=
  triple_get_bind fun s hs => (h s).start hs

theorem triple_modify {f : σ → σ} {post : PUnit → σ → Prop} (h : ∀ s, pre s → post ⟨⟩ (f s)) :
    Triple pre (modify f : EStateM ε σ PUnit) post fail := by
  refine fun s hs => ⟨fun a t hrun => ?_, fun e t hrun => ?_⟩
  · cases hrun
    exact h s hs
  · cases hrun

theorem triple_ite {b : Prop} [Decidable b] {x y : EStateM ε σ α}
    (hx : b → Triple pre x post fail) (hy : ¬ b → Triple pre y post fail) :
    Triple pre (if b then x else y) post fail := by
  split_ifs with h
  · exact hx h
  · exact hy h

/-- A program caught leaves what it leaves, and does not fail. -/
theorem triple_attempt {x : EStateM ε σ α} {post : Except ε α → σ → Prop}
    (h : Triple pre x (fun a => post (.ok a)) fun s => ∀ e, post (.error e) s) :
    Triple pre (attempt x : EStateM ε' σ (Except ε α)) post fail := by
  intro s hs
  refine ⟨fun o t hrun => ?_, fun e t hrun => ?_⟩
  · rcases (attempt_ok _ _ _ _).mp hrun with ⟨a, rfl, ha⟩ | ⟨e, rfl, he⟩
    · exact (h s hs).1 a t ha
    · exact (h s hs).2 e t he e
  · obtain ⟨o, ho⟩ : ∃ o, (attempt x : EStateM ε' σ (Except ε α)) s = .ok o (after x s) :=
      attempt_total x s
    cases ho.symm.trans hrun

theorem Preserves.attempt {I : σ → Prop} {x : EStateM ε σ α} (h : Preserves I x) :
    Preserves I (attempt x : EStateM ε' σ (Except ε α)) := by
  intro s hs
  rw [after_attempt]
  exact h s hs

/-- What does not fail owes nothing to failures. -/
theorem triple_succeeds {x : EStateM ε σ α} (hx : Succeeds x) (h : Preserves pre x) :
    Triple pre x (fun _ => pre) fail := by
  intro s hs
  obtain ⟨a, hrun⟩ := hx s
  refine ⟨fun b t hok => ?_, fun e t herror => ?_⟩
  · rw [← after_of_ok hok]
    exact h s hs
  · cases hrun.symm.trans herror

end Program
