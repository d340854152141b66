import DeMls.Scoring

/-!
# A storage that does not fail

A score storage may fail from some states on and serve from others. `Reliable` says of a set of
states that no call fails in it and none leads out of it; the scoring service then succeeds there
(`succeedsIn_applyOps`, `succeedsIn_setDefaultScore` and the like).
-/

namespace DeMls

open Program

/-- In these states no call fails, and none leads out of them. -/
structure Reliable (S : PeerScoreStorage) (I : S.Store → Prop) : Prop where
  get : ∀ st id, I st → ∃ score, S.get st id = .ok score
  set : ∀ st id score, I st → ∃ st', S.set st id score = (.ok (), st') ∧ I st'
  remove : ∀ st id, I st → ∃ st', S.remove st id = (.ok (), st') ∧ I st'
  allScores : ∀ st, I st → ∃ all, S.allScores st = .ok all

namespace PeerScoringService

variable {S : PeerScoreStorage} {I : S.Store → Prop} {α : Type}

/-- The storage of the service is in such a state. -/
def Relies (I : S.Store → Prop) (svc : PeerScoringService S) : Prop := I svc.storage

theorem succeedsIn_readStorage {f : S.Store → Except String α} (h : ∀ st, I st → ∃ a, f st = .ok a) :
    SucceedsIn (Relies I) (readStorage f : ScoringM S α) := by
  intro svc hsvc
  obtain ⟨a, ha⟩ := h svc.storage hsvc
  refine ⟨a, svc, ?_, hsvc⟩
  unfold readStorage
  rw [ha]

theorem succeedsIn_writeStorage {f : S.Store → Except String Unit × S.Store}
    (h : ∀ st, I st → ∃ st', f st = (.ok (), st') ∧ I st') :
    SucceedsIn (Relies I) (writeStorage f : ScoringM S Unit) := by
  intro svc hsvc
  obtain ⟨st, hst, hI⟩ := h svc.storage hsvc
  refine ⟨(), { svc with storage := st }, ?_, hI⟩
  unfold writeStorage
  rw [hst]

variable (h : Reliable S I)

include h

theorem succeedsIn_addMember (id : Bytes) :
    SucceedsIn (Relies I) (addMember id : ScoringM S Unit) :=
  succeedsIn_get_bind fun _ => succeedsIn_writeStorage fun st hst => h.set st _ _ hst

theorem succeedsIn_removeMember (id : Bytes) :
    SucceedsIn (Relies I) (removeMember id : ScoringM S Unit) :=
  succeedsIn_writeStorage fun st hst => h.remove st _ hst

theorem succeedsIn_applyOps (ops : List ScoreOp) :
    SucceedsIn (Relies I) (applyOps ops : ScoringM S _) := by
  have hset : ∀ id score, SucceedsIn (Relies I)
      (writeStorage fun st => S.set st id score : ScoringM S Unit) := fun _ _ =>
    succeedsIn_writeStorage fun st hst => h.set st _ _ hst
  have hop : ∀ op touched, SucceedsIn (Relies I) (applyOp op touched : ScoringM S _) := by
    intro op touched
    unfold applyOp
    refine succeedsIn_get_bind fun svc => ?_
    split
    · exact succeedsIn_bind (hset _ _) fun _ => succeedsIn_pure _
    · refine succeedsIn_bind (succeedsIn_readStorage fun st hst => h.get st _ hst) fun o => ?_
      cases o with
      | none => exact succeedsIn_pure _
      | some before => exact succeedsIn_bind (hset _ _) fun _ => succeedsIn_pure _
  have hloop : ∀ ops touched, SucceedsIn (Relies I) (applyOpsLoop ops touched : ScoringM S _) := by
    intro ops
    induction ops with
    | nil => exact fun _ => succeedsIn_pure _
    | cons op rest ih => exact fun _ => succeedsIn_bind (hop _ _) fun _ => ih _
  exact succeedsIn_bind (hloop ops []) fun _ => succeedsIn_pure _

theorem succeedsIn_applySnapshot (snapshot : ScoreSnapshot) :
    SucceedsIn (Relies I) (applySnapshot snapshot : ScoringM S _) := by
  have hloop : ∀ defaultScore diverged changes, SucceedsIn (Relies I)
      (applySnapshotLoop defaultScore diverged changes : ScoringM S _) := by
    intro defaultScore diverged
    induction diverged with
    | nil => exact fun _ => succeedsIn_pure _
    | cons e rest ih =>
      intro changes
      unfold applySnapshotLoop
      refine succeedsIn_bind (succeedsIn_readStorage fun st hst => h.get st _ hst) fun _ => ?_
      exact succeedsIn_bind (succeedsIn_writeStorage fun st hst => h.set st _ _ hst) fun _ => ih _
  exact succeedsIn_get_bind fun svc => hloop _ _ _

theorem succeedsIn_snapshot : SucceedsIn (Relies I) (snapshot : ScoringM S _) :=
  succeedsIn_get_bind fun _ => succeedsIn_bind (succeedsIn_readStorage h.allScores) fun _ =>
    succeedsIn_pure _

theorem succeedsIn_allMembersWithScores :
    SucceedsIn (Relies I) (allMembersWithScores : ScoringM S _) :=
  succeedsIn_readStorage h.allScores

theorem succeedsIn_setDefaultScore (defaultScore : Int) :
    SucceedsIn (Relies I) (setDefaultScore defaultScore : ScoringM S Unit) := by
  have hloop : ∀ previous all, SucceedsIn (Relies I)
      (rebaseLoop previous defaultScore all : ScoringM S Unit) := by
    intro previous all
    induction all with
    | nil => exact succeedsIn_pure _
    | cons e rest ih =>
      refine succeedsIn_ite (succeedsIn_bind ?_ fun _ => ih) ih
      exact succeedsIn_writeStorage fun st hst => h.set st _ _ hst
  intro svc hsvc
  -- The default is replaced by a write that is computed from what was read.
  have hrest : SucceedsIn (Relies I) (if svc.config.defaultScore = defaultScore then pure () else do
      let all ← readStorage S.allScores
      rebaseLoop svc.config.defaultScore defaultScore all : ScoringM S Unit) :=
    succeedsIn_ite (succeedsIn_pure _)
      (succeedsIn_bind (succeedsIn_readStorage h.allScores) fun _ => hloop _ _)
  exact hrest { svc with config := { svc.config with defaultScore := defaultScore } } hsvc

end PeerScoringService

end DeMls
