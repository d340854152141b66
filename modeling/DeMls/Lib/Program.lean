import Mathlib.Tactic.SplitIfs

/-!
# Programs whose state survives an error

A method with a mutable receiver and a fallible result is an `EStateM ε σ α`: it ends in a new
state whether it succeeds or fails, and an error does not roll the state back. This file has
the three things the rest of the development does with such programs: run one on a part of a
larger state, catch its error as a value, and carry a frame (`Frame`) or an invariant
(`Preserves`) through it.
-/

namespace Program

variable {ε ε' σ τ ρ α β : Type}

/-! ## Running -/

/-- The state a run ends in, after a success and after an error alike. -/
def after (x : EStateM ε σ α) (s : σ) : σ :=
  match x s with
  | .ok _ s' => s'
  | .error _ s' => s'

/-- A component of a state that can be read and replaced. -/
structure Part (σ τ : Type) where
  get : σ → τ
  set : τ → σ → σ
  get_set : ∀ t s, get (set t s) = t

/-- Run a program of a component on the whole state, relabelling its errors. -/
def zoom (l : Part σ τ) (lift : ε' → ε) (x : EStateM ε' τ α) : EStateM ε σ α := fun s =>
  match x (l.get s) with
  | .ok a t => .ok a (l.set t s)
  | .error e t => .error (lift e) (l.set t s)

/-- Run a program and hand its result over as a value: the caller that matches on a result
instead of propagating it. -/
def attempt (x : EStateM ε σ α) : EStateM ε' σ (Except ε α) := fun s =>
  match x s with
  | .ok a s' => .ok (.ok a) s'
  | .error e s' => .ok (.error e) s'

/-- A fallible value that reads no state. -/
def ofResult (r : Except ε α) : EStateM ε σ α := fun s =>
  match r with
  | .ok a => .ok a s
  | .error e => .error e s

/-- A fallible primitive that returns its new state beside its result. -/
def ofPair (f : σ → Except ε α × σ) : EStateM ε σ α := fun s =>
  match (f s).1 with
  | .ok a => .ok a (f s).2
  | .error e => .error e (f s).2

/-! ## What a successful run did -/

@[simp] theorem bind_ok (x : EStateM ε σ α) (f : α → EStateM ε σ β) (s s' : σ) (b : β) :
    (x >>= f) s = .ok b s' ↔ ∃ a t, x s = .ok a t ∧ f a t = .ok b s' := by
  constructor
  · intro h
    change EStateM.bind x f s = _ at h
    unfold EStateM.bind at h
    split at h
    · exact ⟨_, _, by assumption, h⟩
    · cases h
  · rintro ⟨a, t, hx, hf⟩
    change EStateM.bind x f s = _
    unfold EStateM.bind
    rw [hx]
    exact hf

@[simp] theorem pure_ok (a b : α) (s s' : σ) :
    (pure a : EStateM ε σ α) s = .ok b s' ↔ a = b ∧ s = s' := by
  change EStateM.Result.ok a s = _ ↔ _
  simp

@[simp] theorem throw_ok (e : ε) (b : α) (s s' : σ) :
    ¬ (throw e : EStateM ε σ α) s = .ok b s' := by
  change ¬ EStateM.Result.error e s = _
  simp

@[simp] theorem get_apply (s : σ) : (get : EStateM ε σ σ) s = .ok s s := rfl

@[simp] theorem modify_apply (f : σ → σ) (s : σ) :
    (modify f : EStateM ε σ PUnit) s = .ok ⟨⟩ (f s) := rfl

@[simp] theorem zoom_ok (l : Part σ τ) (lift : ε' → ε) (x : EStateM ε' τ α) (s s' : σ) (a : α) :
    zoom l lift x s = .ok a s' ↔ ∃ t, x (l.get s) = .ok a t ∧ s' = l.set t s := by
  unfold zoom
  cases x (l.get s) with
  | ok b t =>
    constructor
    · rintro ⟨⟩
      exact ⟨t, rfl, rfl⟩
    · rintro ⟨_, ⟨⟩, rfl⟩
      rfl
  | error e t => simp

@[simp] theorem ofResult_ok (r : Except ε α) (s s' : σ) (a : α) :
    ofResult r s = .ok a s' ↔ r = .ok a ∧ s = s' := by
  unfold ofResult
  cases r <;> simp

/-- A result in hand, under an embedding of its errors. -/
theorem ofResult_of_ok {r : Except ε' α} {a : α} (h : r = .ok a) (f : ε' → ε) (s : σ) :
    (ofResult (r.mapError f) : EStateM ε σ α) s = .ok a s := by
  rw [h]
  rfl

theorem ofResult_of_error {r : Except ε' α} {e : ε'} (h : r = .error e) (f : ε' → ε) (s : σ) :
    (ofResult (r.mapError f) : EStateM ε σ α) s = .error (f e) s := by
  rw [h]
  rfl

theorem attempt_ok (x : EStateM ε σ α) (s s' : σ) (r : Except ε α) :
    (attempt x : EStateM ε' σ _) s = .ok r s' ↔
      (∃ a, r = .ok a ∧ x s = .ok a s') ∨ ∃ e, r = .error e ∧ x s = .error e s' := by
  unfold attempt
  cases x s with
  | ok b t =>
    constructor
    · rintro ⟨⟩
      exact .inl ⟨b, rfl, rfl⟩
    · rintro (⟨_, rfl, ⟨⟩⟩ | ⟨_, _, ⟨⟩⟩)
      rfl
  | error e t =>
    constructor
    · rintro ⟨⟩
      exact .inr ⟨e, rfl, rfl⟩
    · rintro (⟨_, _, ⟨⟩⟩ | ⟨_, rfl, ⟨⟩⟩)
      rfl

/-! ## Running a sequence -/

/-- A sequence runs its second program on what the first left. -/
theorem bind_run {x : EStateM ε σ α} {s s' : σ} {a : α} (f : α → EStateM ε σ β)
    (h : x s = .ok a s') : (x >>= f) s = f a s' := by
  change EStateM.bind x f s = _
  unfold EStateM.bind
  rw [h]

theorem after_bind_ok {x : EStateM ε σ α} {s s' : σ} {a : α} (f : α → EStateM ε σ β)
    (h : x s = .ok a s') : after (x >>= f) s = after (f a) s' := by
  change after (EStateM.bind x f) s = _
  unfold after EStateM.bind
  rw [h]

theorem after_bind_error {x : EStateM ε σ α} {s s' : σ} {e : ε} (f : α → EStateM ε σ β)
    (h : x s = .error e s') : after (x >>= f) s = s' := by
  change after (EStateM.bind x f) s = _
  unfold after EStateM.bind
  rw [h]

/-! ## What a failed run did -/

theorem bind_error (x : EStateM ε σ α) (f : α → EStateM ε σ β) (s s' : σ) (e : ε) :
    (x >>= f) s = .error e s' ↔ x s = .error e s' ∨ ∃ a t, x s = .ok a t ∧ f a t = .error e s' := by
  change EStateM.bind x f s = _ ↔ _
  unfold EStateM.bind
  cases x s with
  | ok a t =>
    constructor
    · exact fun h => .inr ⟨a, t, rfl, h⟩
    · rintro (⟨⟨⟩⟩ | ⟨_, _, ⟨⟩, h⟩)
      exact h
  | error e' t => simp

theorem pure_error (a : α) (s s' : σ) (e : ε) :
    ¬ (pure a : EStateM ε σ α) s = .error e s' := by
  change ¬ EStateM.Result.ok a s = _
  simp

theorem zoom_error (l : Part σ τ) (lift : ε' → ε) (x : EStateM ε' τ α) (s s' : σ) (e : ε) :
    zoom l lift x s = .error e s' ↔
      ∃ e' t, x (l.get s) = .error e' t ∧ e = lift e' ∧ s' = l.set t s := by
  unfold zoom
  cases x (l.get s) with
  | ok b t => simp
  | error e' t =>
    constructor
    · rintro ⟨⟩
      exact ⟨e', t, rfl, rfl, rfl⟩
    · rintro ⟨_, _, ⟨⟩, rfl, rfl⟩
      rfl

theorem attempt_of_ok {x : EStateM ε σ α} {s s' : σ} {a : α} (h : x s = .ok a s') :
    (attempt x : EStateM ε' σ _) s = .ok (.ok a) s' :=
  (attempt_ok _ _ _ _).mpr (.inl ⟨a, rfl, h⟩)

theorem attempt_of_error {x : EStateM ε σ α} {s s' : σ} {e : ε} (h : x s = .error e s') :
    (attempt x : EStateM ε' σ _) s = .ok (.error e) s' :=
  (attempt_ok _ _ _ _).mpr (.inr ⟨e, rfl, h⟩)

/-- Catching the error makes a run succeed. -/
theorem attempt_total (x : EStateM ε σ α) (s : σ) :
    ∃ r, (attempt x : EStateM ε' σ _) s = .ok r (after x s) := by
  unfold attempt after
  cases x s with
  | ok a t => exact ⟨.ok a, rfl⟩
  | error e t => exact ⟨.error e, rfl⟩

theorem after_of_error {x : EStateM ε σ α} {s s' : σ} {e : ε} (h : x s = .error e s') :
    after x s = s' := by
  simp [after, h]

theorem after_of_ok {x : EStateM ε σ α} {s s' : σ} {a : α} (h : x s = .ok a s') :
    after x s = s' := by
  simp [after, h]

/-! ## Programs that do not fail -/

/-- The program never fails. -/
def Succeeds (x : EStateM ε σ α) : Prop := ∀ s, ∃ a, x s = .ok a (after x s)

theorem succeeds_pure (a : α) : Succeeds (pure a : EStateM ε σ α) := fun _ => ⟨a, rfl⟩

theorem succeeds_modify (f : σ → σ) : Succeeds (modify f : EStateM ε σ PUnit) :=
  fun _ => ⟨⟨⟩, rfl⟩

theorem succeeds_zoom {l : Part σ τ} {lift : ε' → ε} {x : EStateM ε' τ α} (hx : Succeeds x) :
    Succeeds (zoom l lift x : EStateM ε σ α) := by
  intro s
  obtain ⟨a, hrun⟩ := hx (l.get s)
  have hdone : zoom l lift x s = .ok a (l.set (after x (l.get s)) s) :=
    (zoom_ok l lift x s _ a).mpr ⟨_, hrun, rfl⟩
  rw [after_of_ok hdone]
  exact ⟨a, hdone⟩

theorem succeeds_attempt (x : EStateM ε σ α) :
    Succeeds (attempt x : EStateM ε' σ (Except ε α)) := by
  intro s
  obtain ⟨r, h⟩ : ∃ r, (attempt x : EStateM ε' σ (Except ε α)) s = .ok r (after x s) :=
    attempt_total x s
  exact ⟨r, by rw [after_of_ok h]; exact h⟩

theorem succeeds_bind {x : EStateM ε σ α} {f : α → EStateM ε σ β} (hx : Succeeds x)
    (hf : ∀ a, Succeeds (f a)) : Succeeds (x >>= f) := by
  intro s
  obtain ⟨a, hrun⟩ := hx s
  obtain ⟨b, hrun'⟩ := hf a (after x s)
  refine ⟨b, ?_⟩
  rw [bind_run f hrun, after_bind_ok f hrun]
  exact hrun'

/-- From a state of the invariant the program succeeds, and it ends in one. -/
def SucceedsIn (I : σ → Prop) (x : EStateM ε σ α) : Prop := ∀ s, I s → ∃ a t, x s = .ok a t ∧ I t

theorem succeedsIn_pure {I : σ → Prop} (a : α) : SucceedsIn I (pure a : EStateM ε σ α) :=
  fun s hs => ⟨a, s, rfl, hs⟩

theorem succeedsIn_modify {I : σ → Prop} {f : σ → σ} (h : ∀ s, I s → I (f s)) :
    SucceedsIn I (modify f : EStateM ε σ PUnit) :=
  fun s hs => ⟨⟨⟩, f s, rfl, h s hs⟩

theorem succeedsIn_bind {I : σ → Prop} {x : EStateM ε σ α} {f : α → EStateM ε σ β}
    (hx : SucceedsIn I x) (hf : ∀ a, SucceedsIn I (f a)) : SucceedsIn I (x >>= f) := by
  intro s hs
  obtain ⟨a, t, hrun, ht⟩ := hx s hs
  obtain ⟨b, u, hrest, hu⟩ := hf a t ht
  exact ⟨b, u, (bind_run f hrun).trans hrest, hu⟩

theorem succeedsIn_get_bind {I : σ → Prop} {f : σ → EStateM ε σ α}
    (hf : ∀ s, SucceedsIn I (f s)) : SucceedsIn I (get >>= f) :=
  succeedsIn_bind (fun s hs => ⟨s, s, rfl, hs⟩) hf

theorem succeedsIn_ite {I : σ → Prop} {b : Prop} [Decidable b] {x y : EStateM ε σ α}
    (hx : SucceedsIn I x) (hy : SucceedsIn I y) : SucceedsIn I (if b then x else y) := by
  split_ifs
  · exact hx
  · exact hy

/-- A run that succeeds, with a result and a state that pass a test. -/
def endsWith (r : EStateM.Result ε σ α) (test : α → σ → Bool) : Bool :=
  match r with
  | .ok a s => test a s
  | .error _ _ => false

theorem exists_of_endsWith {r : EStateM.Result ε σ α} {test : α → σ → Bool}
    (h : endsWith r test = true) : ∃ a s, r = .ok a s ∧ test a s = true := by
  cases r with
  | ok a s => exact ⟨a, s, rfl, h⟩
  | error e s => cases h

/-- A program that cannot fail and returns nothing only hands its state on. -/
theorem run_seq {x : EStateM ε σ PUnit} (f : PUnit → EStateM ε σ β) (hx : Succeeds x) (s : σ) :
    (x >>= f) s = f ⟨⟩ (after x s) := by
  obtain ⟨_, h⟩ := hx s
  exact bind_run f h

theorem after_seq {x : EStateM ε σ PUnit} (f : PUnit → EStateM ε σ β) (hx : Succeeds x) (s : σ) :
    after (x >>= f) s = after (f ⟨⟩) (after x s) := by
  obtain ⟨_, h⟩ := hx s
  exact after_bind_ok f h

theorem after_zoom (l : Part σ τ) (lift : ε' → ε) (x : EStateM ε' τ α) (s : σ) :
    after (zoom l lift x) s = l.set (after x (l.get s)) s := by
  unfold after zoom
  cases x (l.get s) <;> rfl

theorem after_attempt (x : EStateM ε σ α) (s : σ) :
    after (attempt x : EStateM ε' σ (Except ε α)) s = after x s := by
  unfold after attempt
  cases x s <;> rfl

/-- A caught program in a sequence only hands its state on. -/
theorem run_attempted (x : EStateM ε σ α) (y : EStateM ε' σ β) (s : σ) : (do
      let _ ← (attempt x : EStateM ε' σ (Except ε α))
      y) s = y (after x s) := by
  obtain ⟨r, h⟩ : ∃ r, (attempt x : EStateM ε' σ (Except ε α)) s = .ok r (after x s) :=
    attempt_total x s
  exact bind_run _ h

theorem after_attempted (x : EStateM ε σ α) (y : EStateM ε' σ β) (s : σ) :
    after (do
      let _ ← (attempt x : EStateM ε' σ (Except ε α))
      y) s = after y (after x s) := by
  obtain ⟨r, h⟩ : ∃ r, (attempt x : EStateM ε' σ (Except ε α)) s = .ok r (after x s) :=
    attempt_total x s
  exact after_bind_ok _ h

theorem succeeds_get_bind {f : σ → EStateM ε σ α} (hf : ∀ s, Succeeds (f s)) :
    Succeeds (get >>= f) :=
  succeeds_bind (fun s => ⟨s, rfl⟩) hf

theorem succeeds_ite {b : Prop} [Decidable b] {x y : EStateM ε σ α} (hx : Succeeds x)
    (hy : Succeeds y) : Succeeds (if b then x else y) := by
  split_ifs
  · exact hx
  · exact hy

/-! ## Results -/

/-- **Results.** Whatever a run of the program returns passes the test. -/
def Yields (Q : α → Prop) (x : EStateM ε σ α) : Prop := ∀ s a s', x s = .ok a s' → Q a

theorem yields_pure {Q : α → Prop} {a : α} (h : Q a) : Yields Q (pure a : EStateM ε σ α) := by
  intro s b s' hrun
  rwa [← ((pure_ok _ _ _ _).mp hrun).1]

theorem yields_bind {Q : β → Prop} {x : EStateM ε σ α} {f : α → EStateM ε σ β}
    (hf : ∀ a, Yields Q (f a)) : Yields Q (x >>= f) := by
  intro s b s' hrun
  obtain ⟨a, t, -, hrest⟩ := (bind_ok _ _ _ _ _).mp hrun
  exact hf a t b s' hrest

theorem yields_ite {Q : α → Prop} {b : Prop} [Decidable b] {x y : EStateM ε σ α}
    (hx : Yields Q x) (hy : Yields Q y) : Yields Q (if b then x else y) := by
  split_ifs
  · exact hx
  · exact hy

/-! ## Frames -/

/-- **Frame.** Whatever the program does, on success and on error, it leaves `p` as it was. -/
def Frame (p : σ → ρ) (x : EStateM ε σ α) : Prop :=
  ∀ s, p (after x s) = p s

/-- **Preservation.** The program keeps the invariant, on success and on error. -/
def Preserves (I : σ → Prop) (x : EStateM ε σ α) : Prop :=
  ∀ s, I s → I (after x s)

theorem Frame.ok {p : σ → ρ} {x : EStateM ε σ α} (hx : Frame p x) {s s' : σ} {a : α}
    (h : x s = .ok a s') : p s' = p s := by
  have := hx s
  rwa [after_of_ok h] at this

theorem Frame.error {p : σ → ρ} {x : EStateM ε σ α} (hx : Frame p x) {s s' : σ} {e : ε}
    (h : x s = .error e s') : p s' = p s := by
  have := hx s
  rwa [after_of_error h] at this

theorem frame_pure (p : σ → ρ) (a : α) : Frame p (pure a : EStateM ε σ α) := fun _ => rfl

theorem frame_throw (p : σ → ρ) (e : ε) : Frame p (throw e : EStateM ε σ α) := fun _ => rfl

theorem frame_get (p : σ → ρ) : Frame p (get : EStateM ε σ σ) := fun _ => rfl

theorem frame_ofResult (p : σ → ρ) (r : Except ε α) :
    Frame p (ofResult r : EStateM ε σ α) := by
  intro s
  cases r <;> rfl

theorem frame_modify {p : σ → ρ} {f : σ → σ} (h : ∀ s, p (f s) = p s) :
    Frame p (modify f : EStateM ε σ PUnit) := h

theorem frame_bind {p : σ → ρ} {x : EStateM ε σ α} {f : α → EStateM ε σ β} (hx : Frame p x)
    (hf : ∀ a, Frame p (f a)) : Frame p (x >>= f) := by
  intro s
  have hxs := hx s
  change p (after (EStateM.bind x f) s) = p s
  unfold after at hxs ⊢
  unfold EStateM.bind
  cases h : x s with
  | ok a t =>
    rw [h] at hxs
    have := hf a t
    unfold after at this
    simp only
    rw [this]
    exact hxs
  | error e t =>
    rw [h] at hxs
    exact hxs

/-- What a framing continuation leaves is what the first program left. -/
theorem after_bind_of_frame {p : σ → ρ} {x : EStateM ε σ α} {f : α → EStateM ε σ β}
    (hf : ∀ a, Frame p (f a)) (s : σ) : p (after (x >>= f) s) = p (after x s) := by
  cases h : x s with
  | ok a t => rw [after_bind_ok f h, after_of_ok h, hf a t]
  | error e t => rw [after_bind_error f h, after_of_error h]

theorem frame_attempt {p : σ → ρ} {x : EStateM ε σ α} (hx : Frame p x) :
    Frame p (attempt x : EStateM ε' σ _) := by
  intro s
  have hxs := hx s
  unfold after attempt at *
  cases h : x s <;> rw [h] at hxs <;> exact hxs

/-- A program of a component frames whatever a replacement of that component leaves alone. -/
theorem frame_zoom {p : σ → ρ} {l : Part σ τ} {lift : ε' → ε} {x : EStateM ε' τ α}
    (h : ∀ t s, p (l.set t s) = p s) : Frame p (zoom l lift x) := by
  intro s
  unfold after zoom
  cases x (l.get s) <;> exact h _ _

/-- A program of a component frames `p` when it frames the part of `p` that lies in there. -/
theorem frame_zoom_of_frame {p : σ → ρ} {q : τ → β} {l : Part σ τ} {lift : ε' → ε}
    {x : EStateM ε' τ α} (hx : Frame q x)
    (h : ∀ t s, q t = q (l.get s) → p (l.set t s) = p s) : Frame p (zoom l lift x) := by
  intro s
  have hxs := hx (l.get s)
  unfold after zoom at *
  cases hr : x (l.get s) <;> rw [hr] at hxs <;> exact h _ _ hxs

theorem frame_ofPair {p : σ → ρ} {f : σ → Except ε α × σ} (h : ∀ s, p (f s).2 = p s) :
    Frame p (ofPair f) := by
  intro s
  have hs := h s
  unfold after ofPair
  rcases hf : f s with ⟨_ | _, t⟩ <;> rw [hf] at hs <;> exact hs

/-! ## Preserved invariants -/

/-- An invariant of what a program frames is preserved by it. -/
theorem Frame.preserves {p : σ → ρ} {I : σ → Prop} (hI : ∀ s t, p t = p s → I s → I t)
    {x : EStateM ε σ α} (hx : Frame p x) : Preserves I x :=
  fun s hs => hI s (after x s) (hx s) hs

theorem preserves_bind {I : σ → Prop} {x : EStateM ε σ α} {f : α → EStateM ε σ β}
    (hx : Preserves I x) (hf : ∀ a, Preserves I (f a)) : Preserves I (x >>= f) := by
  intro s hs
  cases h : x s with
  | ok a t =>
    rw [after_bind_ok f h]
    have ht := hx s hs
    rw [after_of_ok h] at ht
    exact hf a t ht
  | error e t =>
    rw [after_bind_error f h]
    have ht := hx s hs
    rw [after_of_error h] at ht
    exact ht

/-- A program that reads the state first runs with the state it reads. -/
theorem preserves_get_bind {I : σ → Prop} {f : σ → EStateM ε σ α}
    (hf : ∀ s, I s → I (after (f s) s)) : Preserves I (get >>= f) := by
  intro s hs
  rw [after_bind_ok f (get_apply s)]
  exact hf s hs

theorem preserves_pure {I : σ → Prop} (a : α) : Preserves I (pure a : EStateM ε σ α) :=
  fun _ hs => hs

theorem preserves_get {I : σ → Prop} : Preserves I (get : EStateM ε σ σ) := fun _ hs => hs

theorem preserves_ite {I : σ → Prop} {b : Prop} [Decidable b] {x y : EStateM ε σ α}
    (hx : Preserves I x) (hy : Preserves I y) : Preserves I (if b then x else y) := by
  split_ifs
  · exact hx
  · exact hy

end Program
