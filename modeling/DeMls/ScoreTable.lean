import DeMls.Scoring
import Mathlib.Logic.Function.Basic

/-!
# Score tables

What the scoring service does to a storage that never fails and does what its trait says: a table
from members to scores. The in-memory storage is one (`inMemoryPeerScoreStorage_lawful`). Each
operation of the service gets the table it leaves; `table_applyOps` is the batch, whose cache of
scores already read agrees with the table throughout.
-/

namespace DeMls

open Program Function

/-! ## Storages that keep their promise -/

namespace PeerScoreStorage

/-- No call fails. -/
structure Infallible (S : PeerScoreStorage) : Prop where
  get : ∀ st id, ∃ score, S.get st id = .ok score
  set : ∀ st id score, ∃ st', S.set st id score = (.ok (), st')
  remove : ∀ st id, ∃ st', S.remove st id = (.ok (), st')
  allScores : ∀ st, ∃ all, S.allScores st = .ok all

/-- The scores by member. -/
def view (S : PeerScoreStorage) (st : S.Store) (id : Bytes) : Option Int :=
  (S.get st id).toOption.join

/-- The trait: a write is read back and touches no other member, a removal forgets, and the
listing has every member once it is tracked. -/
structure Lawful (S : PeerScoreStorage) : Prop extends Infallible S where
  view_set : ∀ st id score st', S.set st id score = (.ok (), st') →
    S.view st' = update (S.view st) id (some score)
  view_remove : ∀ st id st', S.remove st id = (.ok (), st') →
    S.view st' = update (S.view st) id none
  mem_allScores : ∀ st all, S.allScores st = .ok all →
    ∀ id score, (id, score) ∈ all ↔ S.view st id = some score

theorem Infallible.get_eq {S : PeerScoreStorage} (h : S.Infallible) (st : S.Store) (id : Bytes) :
    S.get st id = .ok (S.view st id) := by
  obtain ⟨score, hget⟩ := h.get st id
  unfold view
  rw [hget]
  rfl

end PeerScoreStorage

/-- `InMemoryPeerScoreStorage`. -/
def inMemoryPeerScoreStorage : PeerScoreStorage where
  Store := OrderedMap Bytes Int
  get scores memberId := .ok (scores.find? memberId)
  set scores memberId score := (.ok (), scores.insert memberId score)
  remove scores memberId := (.ok (), scores.erase memberId)
  allScores scores := .ok scores.entries

theorem inMemoryPeerScoreStorage_lawful : inMemoryPeerScoreStorage.Lawful where
  get _ _ := ⟨_, rfl⟩
  set _ _ _ := ⟨_, rfl⟩
  remove _ _ := ⟨_, rfl⟩
  allScores _ := ⟨_, rfl⟩
  view_set := by
    rintro (m : OrderedMap Bytes Int) id score st' ⟨⟩
    funext other
    show (m.insert id score).find? other = update (m.find? ·) id (some score) other
    rw [OrderedMap.find?_insert, update_apply]
  view_remove := by
    rintro (m : OrderedMap Bytes Int) id st' ⟨⟩
    funext other
    show (m.erase id).find? other = update (m.find? ·) id none other
    rw [OrderedMap.find?_erase, update_apply]
  mem_allScores := by
    rintro (m : OrderedMap Bytes Int) all ⟨⟩ id score
    exact OrderedMap.find?_eq_some_iff.symm

namespace PeerScoringService

variable {S : PeerScoreStorage} {α : Type}

/-- The scores a service keeps. -/
def table (s : PeerScoringService S) : Bytes → Option Int := S.view s.storage

/-- All but the storage. -/
def parameters (s : PeerScoringService S) : (ScoreEvent → Int) × ScoringConfig :=
  (s.scoreDelta, s.config)

/-! ## Single calls -/

theorem readStorage_run {f : S.Store → Except String α} {s : PeerScoringService S} {a : α}
    (h : f s.storage = .ok a) : (readStorage f : ScoringM S α) s = .ok a s := by
  unfold readStorage
  rw [h]

theorem writeStorage_run {f : S.Store → Except String Unit × S.Store} {s : PeerScoringService S}
    {st : S.Store} (h : f s.storage = (.ok (), st)) :
    (writeStorage f : ScoringM S Unit) s = .ok () { s with storage := st } := by
  unfold writeStorage
  rw [h]

section
variable (hS : S.Lawful)
include hS

/-- A score is written. -/
theorem set_run (id : Bytes) (score : Int) (s : PeerScoringService S) :
    ∃ t, (writeStorage fun st => S.set st id score : ScoringM S Unit) s = .ok () t ∧
      t.table = update s.table id (some score) ∧ t.parameters = s.parameters := by
  obtain ⟨st, hset⟩ := hS.set s.storage id score
  exact ⟨_, writeStorage_run hset, hS.view_set _ _ _ _ hset, rfl⟩

theorem addMember_run (id : Bytes) (s : PeerScoringService S) :
    ∃ t, addMember id s = .ok () t ∧
      t.table = update s.table id (some s.config.defaultScore) ∧ t.parameters = s.parameters := by
  unfold addMember
  rw [bind_run _ (get_apply s)]
  exact set_run hS id s.config.defaultScore s

theorem removeMember_run (id : Bytes) (s : PeerScoringService S) :
    ∃ t, removeMember id s = .ok () t ∧
      t.table = update s.table id none ∧ t.parameters = s.parameters := by
  obtain ⟨st, hremove⟩ := hS.remove s.storage id
  exact ⟨_, writeStorage_run hremove, hS.view_remove _ _ _ hremove, rfl⟩

theorem allMembersWithScores_run (s : PeerScoringService S) :
    ∃ all, allMembersWithScores s = .ok all s ∧
      ∀ id score, (id, score) ∈ all ↔ s.table id = some score := by
  obtain ⟨all, hall⟩ := hS.allScores s.storage
  exact ⟨all, readStorage_run hall, hS.mem_allScores _ _ hall⟩

end

/-! ## Membership -/

/-- Track these members, each from the default score. -/
def addMembers : List Bytes → ScoringM S Unit
  | [] => pure ()
  | id :: rest => do
    addMember id
    addMembers rest

def removeMembers : List Bytes → ScoringM S Unit
  | [] => pure ()
  | id :: rest => do
    removeMember id
    removeMembers rest

/-- Track exactly these members. -/
def syncMembers (mlsMembers : List Bytes) : ScoringM S Unit := do
  let scored ← allMembersWithScores
  let diff := scoringMemberDiff (scored.map Prod.fst) mlsMembers
  addMembers diff.toAdd
  removeMembers diff.toRemove

theorem succeeds_readStorage {f : S.Store → Except String α} (h : ∀ st, ∃ a, f st = .ok a) :
    Succeeds (readStorage f : ScoringM S α) := by
  intro s
  obtain ⟨a, ha⟩ := h s.storage
  exact ⟨a, by rw [after_of_ok (readStorage_run ha), readStorage_run ha]⟩

theorem succeeds_writeStorage {f : S.Store → Except String Unit × S.Store}
    (h : ∀ st, ∃ st', f st = (.ok (), st')) : Succeeds (writeStorage f : ScoringM S Unit) := by
  intro s
  obtain ⟨st, hst⟩ := h s.storage
  exact ⟨(), by rw [after_of_ok (writeStorage_run hst), writeStorage_run hst]⟩

theorem succeeds_addMembers (hS : S.Infallible) (ids : List Bytes) :
    Succeeds (addMembers ids : ScoringM S Unit) := by
  induction ids with
  | nil => exact succeeds_pure _
  | cons id rest ih =>
    refine succeeds_bind (succeeds_get_bind fun s => ?_) fun _ => ih
    exact succeeds_writeStorage fun st => hS.set st id s.config.defaultScore

theorem succeeds_removeMembers (hS : S.Infallible) (ids : List Bytes) :
    Succeeds (removeMembers ids : ScoringM S Unit) := by
  induction ids with
  | nil => exact succeeds_pure _
  | cons id rest ih =>
    exact succeeds_bind (succeeds_writeStorage fun st => hS.remove st id) fun _ => ih

theorem succeeds_syncMembers (hS : S.Infallible) (mlsMembers : List Bytes) :
    Succeeds (syncMembers mlsMembers : ScoringM S Unit) :=
  succeeds_bind (succeeds_readStorage hS.allScores) fun _ =>
    succeeds_bind (succeeds_addMembers hS _) fun _ => succeeds_removeMembers hS _

section
variable (hS : S.Lawful)
include hS

theorem addMembers_run (ids : List Bytes) (s : PeerScoringService S) :
    ∃ t, addMembers ids s = .ok () t ∧
      (∀ id, t.table id = if id ∈ ids then some s.config.defaultScore else s.table id) ∧
      t.parameters = s.parameters := by
  induction ids generalizing s with
  | nil => exact ⟨s, rfl, fun id => (if_neg List.not_mem_nil).symm, rfl⟩
  | cons first rest ih =>
    obtain ⟨t₁, hrun₁, htable₁, hparameters₁⟩ := addMember_run hS first s
    obtain ⟨t₂, hrun₂, htable₂, hparameters₂⟩ := ih t₁
    have hdefault : t₁.config = s.config := congrArg Prod.snd hparameters₁
    refine ⟨t₂, ?_, fun id => ?_, hparameters₂.trans hparameters₁⟩
    · unfold addMembers
      rw [bind_run _ hrun₁]
      exact hrun₂
    · rw [htable₂, htable₁, hdefault, update_apply]
      simp only [List.mem_cons]
      split_ifs <;> simp_all

theorem removeMembers_run (ids : List Bytes) (s : PeerScoringService S) :
    ∃ t, removeMembers ids s = .ok () t ∧
      (∀ id, t.table id = if id ∈ ids then none else s.table id) ∧
      t.parameters = s.parameters := by
  induction ids generalizing s with
  | nil => exact ⟨s, rfl, fun id => (if_neg List.not_mem_nil).symm, rfl⟩
  | cons first rest ih =>
    obtain ⟨t₁, hrun₁, htable₁, hparameters₁⟩ := removeMember_run hS first s
    obtain ⟨t₂, hrun₂, htable₂, hparameters₂⟩ := ih t₁
    refine ⟨t₂, ?_, fun id => ?_, hparameters₂.trans hparameters₁⟩
    · unfold removeMembers
      rw [bind_run _ hrun₁]
      exact hrun₂
    · rw [htable₂, htable₁, update_apply]
      simp only [List.mem_cons]
      split_ifs <;> simp_all

/-- **Tracking a roster** keeps the scores of its members, starts the new ones at the default and
forgets everybody else. -/
theorem syncMembers_run (mlsMembers : List Bytes) (s : PeerScoringService S) :
    ∃ t, syncMembers mlsMembers s = .ok () t ∧
      (∀ id, t.table id =
        if id ∈ mlsMembers then some ((s.table id).getD s.config.defaultScore) else none) ∧
      t.parameters = s.parameters := by
  obtain ⟨all, hread, hall⟩ := allMembersWithScores_run hS s
  have hscored : ∀ id, id ∈ all.map Prod.fst ↔ (s.table id).isSome = true := by
    intro id
    rw [Option.isSome_iff_exists, List.mem_map]
    constructor
    · rintro ⟨e, he, rfl⟩
      exact ⟨e.2, (hall e.1 e.2).mp he⟩
    · rintro ⟨score, hscore⟩
      exact ⟨(id, score), (hall id score).mpr hscore, rfl⟩
  let diff := scoringMemberDiff (all.map Prod.fst) mlsMembers
  obtain ⟨t₁, hrun₁, htable₁, hparameters₁⟩ := addMembers_run hS diff.toAdd s
  obtain ⟨t₂, hrun₂, htable₂, hparameters₂⟩ := removeMembers_run hS diff.toRemove t₁
  refine ⟨t₂, ?_, fun id => ?_, hparameters₂.trans hparameters₁⟩
  · unfold syncMembers
    rw [bind_run _ hread, bind_run _ hrun₁]
    exact hrun₂
  · have hadd : id ∈ diff.toAdd ↔ id ∈ mlsMembers ∧ s.table id = none := by
      show id ∈ mlsMembers.filter _ ↔ _
      rw [List.mem_filter, decide_eq_true_eq, hscored, Option.not_isSome_iff_eq_none]
    have hremove : id ∈ diff.toRemove ↔ (s.table id).isSome = true ∧ id ∉ mlsMembers := by
      show id ∈ (all.map Prod.fst).filter _ ↔ _
      rw [List.mem_filter, decide_eq_true_eq, hscored]
    rw [htable₂, htable₁]
    simp only [hadd, hremove]
    by_cases hmember : id ∈ mlsMembers <;> cases hscore : s.table id <;> simp [hmember]

end

/-! ## Batches of operations -/

/-- What an operation does to the score of a member. -/
def applyTo (scoreDelta : ScoreEvent → Int) (id : Bytes) (score : Int) (op : ScoreOp) : Int :=
  if op.memberId = id then saturatingAdd score (scoreDelta op.event) else score

/-- The table after operations, one after the other; who is not tracked stays so. -/
def tableAfter (scoreDelta : ScoreEvent → Int) (ops : List ScoreOp) (table : Bytes → Option Int)
    (id : Bytes) : Option Int :=
  (table id).map fun score => ops.foldl (applyTo scoreDelta id) score

theorem tableAfter_nil (scoreDelta : ScoreEvent → Int) (table : Bytes → Option Int) :
    tableAfter scoreDelta [] table = table := by
  funext id
  exact Option.map_id'

theorem tableAfter_cons (scoreDelta : ScoreEvent → Int) (op : ScoreOp) (ops : List ScoreOp)
    (table : Bytes → Option Int) : tableAfter scoreDelta (op :: ops) table =
      tableAfter scoreDelta ops (tableAfter scoreDelta [op] table) := by
  funext id
  unfold tableAfter
  rw [Option.map_map]
  rfl

/-- Only the member of an operation moves. -/
theorem tableAfter_single (scoreDelta : ScoreEvent → Int) (op : ScoreOp)
    (table : Bytes → Option Int) : tableAfter scoreDelta [op] table =
      update table op.memberId
        ((table op.memberId).map fun score => saturatingAdd score (scoreDelta op.event)) := by
  funext id
  rw [update_apply]
  unfold tableAfter
  split_ifs with h
  · rw [h]
    congr 1
    funext score
    exact if_pos rfl
  · have hstays : ∀ score, [op].foldl (applyTo scoreDelta id) score = score :=
      fun score => if_neg (Ne.symm h)
    simp only [hstays, Option.map_id']

/-- The scores a batch has read so far are the ones in the table. -/
def Cached (touched : List (Bytes × Int × Int)) (s : PeerScoringService S) : Prop :=
  ∀ t ∈ touched, s.table t.1 = some t.2.2

section
variable (hS : S.Lawful)
include hS

/-- **One operation** of a batch moves its member, and the cache follows. -/
theorem applyOp_run (op : ScoreOp) {touched : List (Bytes × Int × Int)} {s : PeerScoringService S}
    (hcached : Cached touched s) :
    ∃ touched' t, applyOp op touched s = .ok touched' t ∧ Cached touched' t ∧
      t.table = tableAfter s.scoreDelta [op] s.table ∧ t.parameters = s.parameters := by
  unfold applyOp
  rw [bind_run _ (get_apply s), tableAfter_single]
  cases hfind : touched.find? fun t => t.1 = op.memberId with
  | some found =>
    obtain ⟨id, before, soFar⟩ := found
    have hmember : id = op.memberId := by simpa using List.find?_some hfind
    have hscore : s.table op.memberId = some soFar := by
      rw [← hmember]
      exact hcached _ (List.mem_of_find?_eq_some hfind)
    obtain ⟨t, hrun, htable, hparameters⟩ :=
      set_run hS op.memberId (saturatingAdd soFar (s.scoreDelta op.event)) s
    dsimp only
    rw [bind_run _ hrun]
    refine ⟨_, t, rfl, ?_, by rw [htable, hscore]; rfl, hparameters⟩
    intro e he
    obtain ⟨e', he', rfl⟩ := List.mem_map.mp he
    by_cases hid : e'.1 = op.memberId
    · rw [if_pos hid, htable, hid, update_self]
    · rw [if_neg hid, htable, update_of_ne hid]
      exact hcached e' he'
  | none =>
    dsimp only
    rw [bind_run _ (readStorage_run (hS.get_eq s.storage op.memberId))]
    cases hscore : s.table op.memberId with
    | none =>
      rw [show S.view s.storage op.memberId = none from hscore]
      refine ⟨touched, s, rfl, hcached, ?_, rfl⟩
      rw [Option.map_none, update_eq_self_iff.mpr hscore.symm]
    | some before =>
      rw [show S.view s.storage op.memberId = some before from hscore]
      obtain ⟨t, hrun, htable, hparameters⟩ :=
        set_run hS op.memberId (saturatingAdd before (s.scoreDelta op.event)) s
      dsimp only
      rw [bind_run _ hrun]
      refine ⟨_, t, rfl, ?_, htable, hparameters⟩
      intro e he
      rw [htable, update_apply]
      rcases List.mem_append.mp he with hold | hnew
      · have hother : e.1 ≠ op.memberId := by simpa using List.find?_eq_none.mp hfind e hold
        rw [if_neg hother]
        exact hcached e hold
      · rw [List.mem_singleton.mp hnew]
        exact if_pos rfl

theorem applyOpsLoop_run (ops : List ScoreOp) {touched : List (Bytes × Int × Int)}
    {s : PeerScoringService S} (hcached : Cached touched s) :
    ∃ touched' t, applyOpsLoop ops touched s = .ok touched' t ∧
      t.table = tableAfter s.scoreDelta ops s.table ∧ t.parameters = s.parameters := by
  induction ops generalizing touched s with
  | nil => exact ⟨touched, s, rfl, (tableAfter_nil _ _).symm, rfl⟩
  | cons op ops ih =>
    obtain ⟨touched₁, t₁, hrun₁, hcached₁, htable₁, hparameters₁⟩ := applyOp_run hS op hcached
    obtain ⟨touched₂, t₂, hrun₂, htable₂, hparameters₂⟩ := ih hcached₁
    have hdelta : t₁.scoreDelta = s.scoreDelta := congrArg Prod.fst hparameters₁
    refine ⟨touched₂, t₂, ?_, ?_, hparameters₂.trans hparameters₁⟩
    · unfold applyOpsLoop
      rw [bind_run _ hrun₁]
      exact hrun₂
    · rw [htable₂, htable₁, hdelta, ← tableAfter_cons]

/-- **A batch** folds its operations into the table. -/
theorem applyOps_run (ops : List ScoreOp) (s : PeerScoringService S) :
    ∃ changes t, applyOps ops s = .ok changes t ∧
      t.table = tableAfter s.scoreDelta ops s.table ∧ t.parameters = s.parameters := by
  have hcached : Cached [] s := fun _ h => (nomatch h)
  obtain ⟨touched, t, hrun, htable⟩ := applyOpsLoop_run hS ops hcached
  refine ⟨(touched.filter fun t => t.2.1 ≠ t.2.2).map fun t => ⟨t.1, t.2.1, t.2.2⟩, t, ?_, htable⟩
  unfold applyOps
  rw [bind_run _ hrun]
  rfl

end

/-! ## Snapshots and defaults -/

/-- Entries written over a table, one after the other. -/
def written (entries : List (Bytes × Int)) (table : Bytes → Option Int) : Bytes → Option Int :=
  entries.foldl (fun table e => update table e.1 (some e.2)) table

/-- A member gets one of the scores written for it, or keeps its own. -/
theorem written_cases (entries : List (Bytes × Int)) (table : Bytes → Option Int) (id : Bytes) :
    (∃ score, (id, score) ∈ entries ∧ written entries table id = some score) ∨
      (∀ score, (id, score) ∉ entries) ∧ written entries table id = table id := by
  induction entries generalizing table with
  | nil => exact .inr ⟨fun _ h => (nomatch h), rfl⟩
  | cons e rest ih =>
    rcases ih (update table e.1 (some e.2)) with ⟨score, hmem, hscore⟩ | ⟨hnone, hkept⟩
    · exact .inl ⟨score, List.mem_cons_of_mem _ hmem, hscore⟩
    · have hkept : written (e :: rest) table id = update table e.1 (some e.2) id := hkept
      by_cases hid : id = e.1
      · refine .inl ⟨e.2, hid ▸ List.mem_cons_self, ?_⟩
        rw [hkept, hid, update_self]
      · refine .inr ⟨fun score hmem => ?_, by rw [hkept, update_of_ne hid]⟩
        rcases List.mem_cons.mp hmem with heq | hrest
        · exact hid (congrArg Prod.fst heq)
        · exact hnone score hrest

/-- Entries with one score for each member lie over the table. -/
theorem written_eq {entries : List (Bytes × Int)} {f : Bytes → Option Int}
    (h : ∀ id score, (id, score) ∈ entries ↔ f id = some score) (table : Bytes → Option Int)
    (id : Bytes) : written entries table id = (f id).or (table id) := by
  rcases written_cases entries table id with ⟨score, hmem, hscore⟩ | ⟨hnone, hkept⟩
  · rw [hscore, (h id score).mp hmem]
    rfl
  · have hnone : f id = none := by
      cases hf : f id with
      | none => rfl
      | some score => exact absurd ((h id score).mpr hf) (hnone score)
    rw [hkept, hnone]
    rfl

/-- A new default: who is at the old one follows. -/
def rebased (previous defaultScore : Int) (table : Bytes → Option Int) (id : Bytes) : Option Int :=
  if table id = some previous then some defaultScore else table id

section
variable (hS : S.Lawful)
include hS

theorem applySnapshotLoop_run (defaultScore : Int) (diverged : List (Bytes × Int))
    (changes : List ScoreChange) (s : PeerScoringService S) :
    ∃ changes' t, applySnapshotLoop defaultScore diverged changes s = .ok changes' t ∧
      t.table = written diverged s.table ∧ t.parameters = s.parameters := by
  induction diverged generalizing changes s with
  | nil => exact ⟨changes, s, rfl, rfl, rfl⟩
  | cons e rest ih =>
    obtain ⟨id, score⟩ := e
    obtain ⟨t₁, hrun₁, htable₁, hparameters₁⟩ := set_run hS id score s
    obtain ⟨changes', t₂, hrun₂, htable₂, hparameters₂⟩ := ih _ t₁
    refine ⟨changes', t₂, ?_, ?_, hparameters₂.trans hparameters₁⟩
    · unfold applySnapshotLoop
      rw [bind_run _ (readStorage_run (hS.get_eq s.storage id)), bind_run _ hrun₁]
      exact hrun₂
    · rw [htable₂, htable₁]
      rfl

theorem rebaseLoop_run (previous defaultScore : Int) (all : List (Bytes × Int))
    (s : PeerScoringService S) :
    ∃ t, rebaseLoop previous defaultScore all s = .ok () t ∧
      t.table = written ((all.filter fun e => e.2 = previous).map fun e => (e.1, defaultScore))
        s.table ∧ t.parameters = s.parameters := by
  induction all generalizing s with
  | nil => exact ⟨s, rfl, rfl, rfl⟩
  | cons e rest ih =>
    obtain ⟨id, score⟩ := e
    unfold rebaseLoop
    by_cases hscore : score = previous
    · obtain ⟨t₁, hrun₁, htable₁, hparameters₁⟩ := set_run hS id defaultScore s
      obtain ⟨t₂, hrun₂, htable₂, hparameters₂⟩ := ih t₁
      rw [if_pos hscore, bind_run _ hrun₁, List.filter_cons_of_pos (by simpa using hscore)]
      refine ⟨t₂, hrun₂, ?_, hparameters₂.trans hparameters₁⟩
      rw [htable₂, htable₁]
      rfl
    · rw [if_neg hscore, List.filter_cons_of_neg (by simpa using hscore)]
      exact ih s

/-- **A new default** moves the members at the old one, and the parameter. -/
theorem setDefaultScore_run (defaultScore : Int) (s : PeerScoringService S) :
    ∃ t, setDefaultScore defaultScore s = .ok () t ∧
      t.table = rebased s.config.defaultScore defaultScore s.table ∧
      t.parameters = (s.scoreDelta, { s.config with defaultScore := defaultScore }) := by
  let s₁ : PeerScoringService S :=
    { s with config := { s.config with defaultScore := defaultScore } }
  unfold setDefaultScore
  rw [bind_run _ (get_apply s)]
  dsimp only
  rw [bind_run _ (show (set s₁ : ScoringM S PUnit) s = .ok ⟨⟩ s₁ from rfl)]
  split_ifs with hsame
  · refine ⟨s₁, rfl, ?_, rfl⟩
    funext id
    unfold rebased
    rw [hsame]
    split_ifs with hid
    · exact hid
    · rfl
  · obtain ⟨all, hall⟩ := hS.allScores s.storage
    obtain ⟨t, hrun, htable, hparameters⟩ := rebaseLoop_run hS s.config.defaultScore defaultScore
      all s₁
    refine ⟨t, ?_, ?_, hparameters⟩
    · rw [bind_run _ (readStorage_run (s := s₁) hall)]
      exact hrun
    · have hentries : ∀ id score, (id, score) ∈ ((all.filter fun e =>
          e.2 = s.config.defaultScore).map fun e => (e.1, defaultScore)) ↔
            (if s.table id = some s.config.defaultScore then some defaultScore else none) =
              some score := by
        intro id score
        have hmem : ∀ v, (id, v) ∈ all ↔ s.table id = some v := hS.mem_allScores _ _ hall id
        simp only [List.mem_map, List.mem_filter, decide_eq_true_eq, Prod.mk.injEq, Prod.exists]
        constructor
        · rintro ⟨_, _, ⟨hin, rfl⟩, rfl, rfl⟩
          rw [if_pos ((hmem _).mp hin)]
        · intro h
          split_ifs at h with hid
          cases h
          exact ⟨id, _, ⟨(hmem _).mpr hid, rfl⟩, rfl, rfl⟩
      funext id
      rw [htable, written_eq hentries]
      unfold rebased
      show Option.or _ (s.table id) = _
      split_ifs <;> rfl

end

end PeerScoringService

end DeMls
