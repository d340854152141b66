import DeMls.Lib.Selection
import DeMls.ScoreTable

/-!
# Score changes

What the scoring service reports: of a batch of operations the members that moved, in the order
the batch names them, and of a snapshot adopted after its default the members off that default.
-/

namespace DeMls

open Program Function Selection

namespace PeerScoringService

variable {S : PeerScoreStorage}

/-! ## What a batch reports -/

/-- The cache after one operation on a member whose score in the table is `current`. -/
def noted (scoreDelta : ScoreEvent → Int) (op : ScoreOp) (current : Option Int)
    (touched : List (Bytes × Int × Int)) : List (Bytes × Int × Int) :=
  match touched.find? fun t => t.1 = op.memberId with
  | some (_, _, soFar) => touched.map fun t =>
      if t.1 = op.memberId then (t.1, t.2.1, saturatingAdd soFar (scoreDelta op.event)) else t
  | none =>
    match current with
    | none => touched
    | some before =>
      touched ++ [(op.memberId, before, saturatingAdd before (scoreDelta op.event))]

theorem applyOp_notes (hS : S.Lawful) (op : ScoreOp) (touched : List (Bytes × Int × Int))
    (s : PeerScoringService S) :
    ∃ t, applyOp op touched s = .ok (noted s.scoreDelta op (s.table op.memberId) touched) t := by
  unfold applyOp noted
  rw [bind_run _ (get_apply s)]
  cases hfind : touched.find? fun t => t.1 = op.memberId with
  | some found =>
    obtain ⟨id, before, soFar⟩ := found
    obtain ⟨t, hrun, -⟩ :=
      set_run hS op.memberId (saturatingAdd soFar (s.scoreDelta op.event)) s
    dsimp only
    rw [bind_run _ hrun]
    exact ⟨t, rfl⟩
  | none =>
    dsimp only
    rw [bind_run _ (readStorage_run (hS.get_eq s.storage op.memberId))]
    show ∃ t, (match s.table op.memberId with | none => _ | some before => _ : ScoringM S _) s = _
    cases hscore : s.table op.memberId with
    | none => exact ⟨s, rfl⟩
    | some before =>
      obtain ⟨t, hrun, -⟩ :=
        set_run hS op.memberId (saturatingAdd before (s.scoreDelta op.event)) s
      dsimp only
      rw [bind_run _ hrun]
      exact ⟨t, rfl⟩

/-- What a batch knows of the members it named: the score before it and the score it made. -/
def recorded (scoreDelta : ScoreEvent → Int) (ops : List ScoreOp) (table : Bytes → Option Int) :
    List (Bytes × Int × Int) :=
  (ops.map ScoreOp.memberId).eraseDups.filterMap fun id =>
    (table id).map fun before => (id, before, ops.foldl (applyTo scoreDelta id) before)

/-- Operations on others leave a score alone. -/
theorem foldl_applyTo_of_not_mem {scoreDelta : ScoreEvent → Int} {ops : List ScoreOp} {id : Bytes}
    (h : id ∉ ops.map ScoreOp.memberId) (score : Int) :
    ops.foldl (applyTo scoreDelta id) score = score := by
  induction ops generalizing score with
  | nil => rfl
  | cons op rest ih =>
    rw [List.map_cons, List.mem_cons, not_or] at h
    rw [List.foldl_cons, applyTo, if_neg (Ne.symm h.1), ih h.2]

theorem find?_record (table : Bytes → Option Int) (f : Bytes → Int → Int) (id : Bytes)
    (ids : List Bytes) :
    ((ids.filterMap fun i => (table i).map fun before => (i, before, f i before)).find?
        fun t => t.1 = id) =
      if id ∈ ids then (table id).map fun before => (id, before, f id before) else none := by
  induction ids with
  | nil => rfl
  | cons i rest ih =>
    rw [List.filterMap_cons]
    by_cases hi : i = id
    · subst hi
      cases htable : table i with
      | none => simp [ih, htable]
      | some before => simp
    · cases htable : table i with
      | none => simp [ih, Ne.symm hi]
      | some before => simp [ih, hi, Ne.symm hi]

theorem mem_recorded {scoreDelta : ScoreEvent → Int} {ops : List ScoreOp}
    {table : Bytes → Option Int} {t : Bytes × Int × Int} :
    t ∈ recorded scoreDelta ops table ↔ t.1 ∈ ops.map ScoreOp.memberId ∧
      table t.1 = some t.2.1 ∧ t.2.2 = ops.foldl (applyTo scoreDelta t.1) t.2.1 := by
  obtain ⟨id, before, after⟩ := t
  simp only [recorded, List.mem_filterMap, List.mem_eraseDups, Option.map_eq_some_iff,
    Prod.mk.injEq]
  constructor
  · rintro ⟨_, hmem, _, htable, rfl, rfl, rfl⟩
    exact ⟨hmem, htable, rfl⟩
  · rintro ⟨hmem, htable, rfl⟩
    exact ⟨id, hmem, before, htable, rfl, rfl, rfl⟩

/-- Members are recorded in the order of their first mention. -/
theorem recorded_sublist (scoreDelta : ScoreEvent → Int) (ops : List ScoreOp)
    (table : Bytes → Option Int) :
    ((recorded scoreDelta ops table).map Prod.fst).Sublist
      (ops.map ScoreOp.memberId).eraseDups := by
  unfold recorded
  induction (ops.map ScoreOp.memberId).eraseDups with
  | nil => exact List.Sublist.slnil
  | cons id rest ih =>
    rw [List.filterMap_cons]
    cases table id with
    | none => exact ih.cons id
    | some before => exact ih.cons_cons id

/-- One more operation moves what is recorded of its member. -/
theorem record_again (scoreDelta : ScoreEvent → Int) (done : List ScoreOp) (op : ScoreOp)
    (table : Bytes → Option Int) (ids : List Bytes) :
    (ids.filterMap fun id => (table id).map fun before =>
        (id, before, (done ++ [op]).foldl (applyTo scoreDelta id) before)) =
      (ids.filterMap fun id => (table id).map fun before =>
        (id, before, done.foldl (applyTo scoreDelta id) before)).map fun t =>
          (t.1, t.2.1, applyTo scoreDelta t.1 t.2.2 op) := by
  rw [List.map_filterMap]
  apply List.filterMap_congr
  intro id _
  cases table id <;> simp [List.foldl_append]

theorem find?_recorded (scoreDelta : ScoreEvent → Int) (ops : List ScoreOp)
    (table : Bytes → Option Int) (id : Bytes) :
    (recorded scoreDelta ops table).find? (fun t => t.1 = id) =
      if id ∈ ops.map ScoreOp.memberId then
        (table id).map fun before => (id, before, ops.foldl (applyTo scoreDelta id) before)
      else none := by
  have hfind := find?_record table (fun id before => ops.foldl (applyTo scoreDelta id) before) id
    (ops.map ScoreOp.memberId).eraseDups
  unfold recorded
  simpa only [List.mem_eraseDups] using hfind

/-- An operation on a member outside the record moves nothing in it. -/
theorem record_others {scoreDelta : ScoreEvent → Int} {op : ScoreOp}
    {touched : List (Bytes × Int × Int)} (h : ∀ t ∈ touched, op.memberId ≠ t.1) :
    (touched.map fun t => (t.1, t.2.1, applyTo scoreDelta t.1 t.2.2 op)) = touched := by
  conv_rhs => rw [← List.map_id' touched]
  apply List.map_congr_left
  intro t ht
  simp only [applyTo, if_neg (h t ht)]

/-- One more operation is noted in the record. -/
theorem recorded_snoc (scoreDelta : ScoreEvent → Int) (done : List ScoreOp) (op : ScoreOp)
    (table : Bytes → Option Int) :
    recorded scoreDelta (done ++ [op]) table =
      noted scoreDelta op (tableAfter scoreDelta done table op.memberId)
        (recorded scoreDelta done table) := by
  have hids : ((done ++ [op]).map ScoreOp.memberId).eraseDups =
      (done.map ScoreOp.memberId).eraseDups ++
        if op.memberId ∈ done.map ScoreOp.memberId then [] else [op.memberId] := by
    rw [List.map_append, List.map_singleton, eraseDups_concat]
  have hrecord : recorded scoreDelta (done ++ [op]) table =
      ((recorded scoreDelta done table).map fun t =>
        (t.1, t.2.1, applyTo scoreDelta t.1 t.2.2 op)) ++
      ((if op.memberId ∈ done.map ScoreOp.memberId then [] else [op.memberId]).filterMap
        fun id => (table id).map fun before =>
          (id, before, (done ++ [op]).foldl (applyTo scoreDelta id) before)) := by
    rw [recorded, hids, List.filterMap_append, record_again, recorded]
  unfold noted
  rw [hrecord, find?_recorded, tableAfter]
  by_cases hmentioned : op.memberId ∈ done.map ScoreOp.memberId
  · rw [if_pos hmentioned, if_pos hmentioned, List.filterMap_nil, List.append_nil]
    cases htable : table op.memberId with
    | none =>
      rw [record_others]
      · rfl
      · intro t ht h
        rw [h, (mem_recorded.mp ht).2.1] at htable
        cases htable
    | some before =>
      apply List.map_congr_left
      intro t ht
      rw [show applyTo scoreDelta t.1 t.2.2 op = if op.memberId = t.1 then
        saturatingAdd t.2.2 (scoreDelta op.event) else t.2.2 from rfl]
      by_cases hid : t.1 = op.memberId
      · obtain ⟨-, htable', hscore⟩ := mem_recorded.mp ht
        rw [hid, htable, Option.some.injEq] at htable'
        rw [hid] at hscore
        rw [if_pos hid.symm, if_pos hid, hscore, htable']
      · rw [if_neg (Ne.symm hid), if_neg hid]
  · rw [if_neg hmentioned, if_neg hmentioned, record_others]
    · cases htable : table op.memberId with
      | none => simp [htable]
      | some before =>
        simp [htable, List.foldl_append, foldl_applyTo_of_not_mem hmentioned, applyTo]
    · exact fun t ht h => hmentioned (h ▸ (mem_recorded.mp ht).1)

section
variable (hS : S.Lawful)
include hS

/-- A batch resumed after some of its operations ends with the record of all of them. -/
theorem applyOpsLoop_records (ops done : List ScoreOp) (table : Bytes → Option Int)
    (s : PeerScoringService S) (htable : s.table = tableAfter s.scoreDelta done table) :
    ∃ t, applyOpsLoop ops (recorded s.scoreDelta done table) s =
        .ok (recorded s.scoreDelta (done ++ ops) table) t ∧
      t.table = tableAfter s.scoreDelta (done ++ ops) table ∧ t.parameters = s.parameters := by
  induction ops generalizing done s with
  | nil => exact ⟨s, by rw [List.append_nil]; rfl, by rw [List.append_nil, htable], rfl⟩
  | cons op ops ih =>
    have hcached : Cached (recorded s.scoreDelta done table) s := by
      intro t ht
      obtain ⟨-, hbefore, hscore⟩ := mem_recorded.mp ht
      rw [htable, tableAfter, hbefore, hscore]
      rfl
    obtain ⟨touched, t₁, hrun, -, htable₁, hparameters₁⟩ := applyOp_run hS op hcached
    obtain ⟨_, hnotes⟩ := applyOp_notes hS op (recorded s.scoreDelta done table) s
    rw [hrun] at hnotes
    injection hnotes with htouched _
    rw [htable, ← recorded_snoc] at htouched
    have hdelta : t₁.scoreDelta = s.scoreDelta := congrArg Prod.fst hparameters₁
    have hafter : t₁.table = tableAfter t₁.scoreDelta (done ++ [op]) table := by
      rw [htable₁, htable, hdelta]
      funext id
      simp [tableAfter, Option.map_map, Function.comp_def, List.foldl_append]
    obtain ⟨t₂, hrest, htable₂, hparameters₂⟩ := ih (done ++ [op]) t₁ hafter
    rw [hdelta, List.append_assoc, List.singleton_append] at hrest htable₂
    refine ⟨t₂, ?_, htable₂, hparameters₂.trans hparameters₁⟩
    unfold applyOpsLoop
    rw [bind_run _ hrun, htouched]
    exact hrest

/-- **Batches.** A batch leaves each tracked member with the saturating sum, in order, of its own
operations, tracks nobody new, and reports exactly the members whose score it moved, each once, in
the order it first names them. -/
theorem applyOps_meets_spec (ops : List ScoreOp) (s : PeerScoringService S) :
    ∃ changes t, applyOps ops s = .ok changes t ∧ t.parameters = s.parameters ∧
      (∀ id, t.table id = (s.table id).map fun score =>
        (ops.filter fun op => op.memberId = id).foldl
          (fun score op => saturatingAdd score (s.scoreDelta op.event)) score) ∧
      (∀ c, c ∈ changes ↔ s.table c.memberId = some c.previous ∧
        t.table c.memberId = some c.score ∧ c.previous ≠ c.score) ∧
      (changes.map ScoreChange.memberId).Nodup ∧
      (changes.map ScoreChange.memberId).Sublist (ops.map ScoreOp.memberId).eraseDups := by
  obtain ⟨t, hrun, htable, hparameters⟩ :=
    applyOpsLoop_records hS ops [] s.table s (tableAfter_nil _ _).symm
  rw [List.nil_append] at hrun htable
  have hmoved : ∀ c : ScoreChange, c ∈ ((recorded s.scoreDelta ops s.table).filter fun r =>
      r.2.1 ≠ r.2.2).map (fun r => (⟨r.1, r.2.1, r.2.2⟩ : ScoreChange)) ↔
        (c.memberId, c.previous, c.score) ∈ recorded s.scoreDelta ops s.table ∧
          c.previous ≠ c.score := by
    rintro ⟨id, previous, score⟩
    simp [List.mem_filter]
  have hsublist : ((((recorded s.scoreDelta ops s.table).filter fun r => r.2.1 ≠ r.2.2).map
      fun r => (⟨r.1, r.2.1, r.2.2⟩ : ScoreChange)).map ScoreChange.memberId).Sublist
        (ops.map ScoreOp.memberId).eraseDups := by
    rw [List.map_map]
    exact (List.filter_sublist.map _).trans (recorded_sublist _ _ _)
  refine ⟨_, t, ?_, hparameters, fun id => ?_, fun c => ?_,
    (nodup_eraseDups _).sublist hsublist, hsublist⟩
  · unfold applyOps
    rw [bind_run _ (show applyOpsLoop ops [] s = _ from hrun)]
    rfl
  · rw [htable, tableAfter]
    simp only [List.foldl_filter, decide_eq_true_eq]
    rfl
  · rw [hmoved, mem_recorded, htable, tableAfter]
    constructor
    · rintro ⟨⟨-, hbefore, hscore⟩, hne⟩
      rw [hbefore, Option.map_some, ← hscore]
      exact ⟨rfl, rfl, hne⟩
    · rintro ⟨hbefore, hafter, hne⟩
      rw [hbefore, Option.map_some, Option.some.injEq] at hafter
      refine ⟨⟨?_, hbefore, hafter.symm⟩, hne⟩
      by_contra hnot
      exact hne ((foldl_applyTo_of_not_mem hnot _).symm.trans hafter)

end

/-- Two cancelling operations and one on a stranger beside one that counts. -/
theorem batch_reports_one :
    let s : PeerScoringService inMemoryPeerScoreStorage :=
      ⟨(OrderedMap.empty.insert [1] 5).insert [2] 7, ScoreEvent.defaultDelta, ⟨100, 0⟩⟩
    ∃ changes t, applyOps [⟨[2], .emergencyNoCreator⟩, ⟨[3], .successfulCommit⟩,
        ⟨[1], .successfulCommit⟩, ⟨[1], .misbehavingCommit⟩] s = .ok changes t ∧
      t.table [3] = none ∧ (⟨[2], 7, -43⟩ : ScoreChange) ∈ changes := by
  intro s
  obtain ⟨changes, t, hrun, -, htable, hchanges, -⟩ :=
    applyOps_meets_spec inMemoryPeerScoreStorage_lawful [⟨[2], .emergencyNoCreator⟩,
      ⟨[3], .successfulCommit⟩, ⟨[1], .successfulCommit⟩, ⟨[1], .misbehavingCommit⟩] s
  refine ⟨changes, t, hrun, ?_, (hchanges _).mpr ?_⟩
  · rw [htable]
    decide
  · rw [htable]
    decide

/-! ## What a snapshot reports -/

/-- The changes that adopting these entries over a table reports. -/
def reported (defaultScore : Int) :
    List (Bytes × Int) → (Bytes → Option Int) → List ScoreChange
  | [], _ => []
  | (id, score) :: rest, table =>
    (if score ≠ (table id).getD defaultScore then
        [⟨id, (table id).getD defaultScore, score⟩] else []) ++
      reported defaultScore rest (update table id (some score))

theorem applySnapshotLoop_reports (hS : S.Lawful) (defaultScore : Int)
    (diverged : List (Bytes × Int)) (changes : List ScoreChange) (s : PeerScoringService S) :
    ∃ t, applySnapshotLoop defaultScore diverged changes s =
      .ok (changes ++ reported defaultScore diverged s.table) t := by
  induction diverged generalizing changes s with
  | nil => exact ⟨s, by rw [reported, List.append_nil]; rfl⟩
  | cons e rest ih =>
    obtain ⟨id, score⟩ := e
    obtain ⟨t₁, hrun₁, htable₁, -⟩ := set_run hS id score s
    have hread : S.view s.storage id = s.table id := rfl
    unfold applySnapshotLoop
    rw [bind_run _ (readStorage_run (hS.get_eq s.storage id)), bind_run _ hrun₁, hread]
    obtain ⟨t₂, hrun₂⟩ := ih (if score ≠ (s.table id).getD defaultScore then
      changes ++ [⟨id, (s.table id).getD defaultScore, score⟩] else changes) t₁
    refine ⟨t₂, hrun₂.trans ?_⟩
    rw [htable₁, reported]
    split_ifs <;> simp

/-- Over a table whose members are at the default or written already, entries off the default with
one score for each member are reported once, from the default. -/
theorem mem_reported {defaultScore : Int} {entries : List (Bytes × Int)}
    {table : Bytes → Option Int} (hoff : ∀ e ∈ entries, e.2 ≠ defaultScore)
    (hone : ∀ e ∈ entries, ∀ e' ∈ entries, e.1 = e'.1 → e.2 = e'.2)
    (htable : ∀ e ∈ entries, table e.1 = some defaultScore ∨ table e.1 = some e.2) :
    (∀ c, c ∈ reported defaultScore entries table ↔ (c.memberId, c.score) ∈ entries ∧
      table c.memberId = some defaultScore ∧ c.previous = defaultScore) ∧
    ((reported defaultScore entries table).map ScoreChange.memberId).Nodup := by
  induction entries generalizing table with
  | nil => exact ⟨fun c => by simp [reported], List.nodup_nil⟩
  | cons e rest ih =>
    obtain ⟨id, score⟩ := e
    have hscore : score ≠ defaultScore := hoff _ List.mem_cons_self
    have hkept : ∀ e ∈ rest, update table id (some score) e.1 = some defaultScore ∨
        update table id (some score) e.1 = some e.2 := by
      intro e he
      rw [update_apply]
      split_ifs with hid
      · have hsame := hone _ List.mem_cons_self e (List.mem_cons_of_mem _ he) hid.symm
        exact .inr (congrArg some hsame)
      · exact htable e (List.mem_cons_of_mem _ he)
    obtain ⟨hmem, hnodup⟩ := ih (fun e he => hoff e (List.mem_cons_of_mem _ he))
      (fun e he e' he' => hone e (List.mem_cons_of_mem _ he) e' (List.mem_cons_of_mem _ he')) hkept
    -- What is written here is off the default, so no later entry of the member is reported.
    have hothers : ∀ c, c ∈ reported defaultScore rest (update table id (some score)) ↔
        (c.memberId, c.score) ∈ rest ∧ c.memberId ≠ id ∧ table c.memberId = some defaultScore ∧
          c.previous = defaultScore := by
      intro c
      rw [hmem, update_apply]
      split_ifs with hid
      · simp [hid, hscore]
      · simp [hid]
    rcases htable _ List.mem_cons_self with hdefault | hwritten
    · have hfirst : reported defaultScore ((id, score) :: rest) table =
          ⟨id, defaultScore, score⟩ ::
            reported defaultScore rest (update table id (some score)) := by
        rw [reported, hdefault, Option.getD_some, if_pos hscore, List.singleton_append]
      rw [hfirst]
      refine ⟨fun c => ?_, ?_⟩
      · rw [List.mem_cons, hothers, List.mem_cons]
        constructor
        · rintro (rfl | ⟨hin, -, hrest⟩)
          · exact ⟨.inl rfl, hdefault, rfl⟩
          · exact ⟨.inr hin, hrest⟩
        · rintro ⟨hin, hat, hprevious⟩
          by_cases hid : c.memberId = id
          · have hsame : c.score = score := by
              rcases hin with heq | hin
              · exact congrArg Prod.snd heq
              · exact (hone _ List.mem_cons_self _ (List.mem_cons_of_mem _ hin) hid.symm).symm
            obtain ⟨_, _, _⟩ := c
            exact .inl (by simp_all)
          · have hrest := hin.resolve_left fun heq => hid (congrArg Prod.fst heq)
            exact .inr ⟨hrest, hid, hat, hprevious⟩
      · rw [List.map_cons, List.nodup_cons]
        refine ⟨fun h => ?_, hnodup⟩
        obtain ⟨c, hc, hid⟩ := List.mem_map.mp h
        exact ((hothers c).mp hc).2.1 hid
    · have hfirst : reported defaultScore ((id, score) :: rest) table =
          reported defaultScore rest (update table id (some score)) := by
        rw [reported, hwritten, Option.getD_some, if_neg (not_not.mpr rfl), List.nil_append]
      rw [hfirst]
      refine ⟨fun c => ?_, hnodup⟩
      rw [hothers, List.mem_cons]
      constructor
      · exact fun ⟨hin, _, hrest⟩ => ⟨.inr hin, hrest⟩
      · rintro ⟨hin, hat, hprevious⟩
        have hid : c.memberId ≠ id := by
          intro h
          rw [h, hwritten, Option.some.injEq] at hat
          exact hscore hat
        exact ⟨hin.resolve_left fun heq => hid (congrArg Prod.fst heq), hid, hat, hprevious⟩

/-- **Adopting a table.** A joiner that tracks the sender's members, all at its own default, and
adopts the sender's default and then its snapshot, ends with the sender's table. The adoption
reports the members off the sender's default, each once and from that default. -/
theorem adopt_then_snapshot {S' : PeerScoreStorage} (hS : S.Lawful) (hS' : S'.Lawful)
    (sender : PeerScoringService S) (joiner : PeerScoringService S')
    (htracks : ∀ id, joiner.table id =
      (sender.table id).map fun _ => joiner.config.defaultScore) :
    ∃ sent rebasedJoiner changes adopted,
      snapshot sender = .ok sent sender ∧
      setDefaultScore sender.config.defaultScore joiner = .ok () rebasedJoiner ∧
      applySnapshot sent rebasedJoiner = .ok changes adopted ∧
      adopted.table = sender.table ∧
      adopted.config = { joiner.config with defaultScore := sender.config.defaultScore } ∧
      (∀ c, c ∈ changes ↔ sender.table c.memberId = some c.score ∧
        c.score ≠ sender.config.defaultScore ∧ c.previous = sender.config.defaultScore) ∧
      (changes.map ScoreChange.memberId).Nodup := by
  obtain ⟨all, hall⟩ := hS.allScores sender.storage
  let diverged := all.filter fun e => e.2 ≠ sender.config.defaultScore
  have hdiverged : ∀ id score, (id, score) ∈ diverged ↔
      sender.table id = some score ∧ score ≠ sender.config.defaultScore := by
    intro id score
    rw [List.mem_filter, hS.mem_allScores _ _ hall, decide_eq_true_eq]
    rfl
  obtain ⟨rebasedJoiner, hrebase, htable₁, hparameters₁⟩ :=
    setDefaultScore_run hS' sender.config.defaultScore joiner
  have hrebased : ∀ id, rebasedJoiner.table id =
      (sender.table id).map fun _ => sender.config.defaultScore := by
    intro id
    rw [htable₁, rebased, htracks]
    cases sender.table id <;> simp
  have hconfig : rebasedJoiner.config =
      { joiner.config with defaultScore := sender.config.defaultScore } :=
    congrArg Prod.snd hparameters₁
  obtain ⟨changes, adopted, hadopt, htable₂, hparameters₂⟩ :=
    applySnapshotLoop_run hS' sender.config.defaultScore diverged [] rebasedJoiner
  obtain ⟨_, hreports⟩ :=
    applySnapshotLoop_reports hS' sender.config.defaultScore diverged [] rebasedJoiner
  rw [hadopt] at hreports
  injection hreports with hchanges _
  rw [List.nil_append] at hchanges
  have hat : ∀ e ∈ diverged, rebasedJoiner.table e.1 = some sender.config.defaultScore := by
    intro e he
    rw [hrebased, ((hdiverged e.1 e.2).mp he).1, Option.map_some]
  have hone : ∀ e ∈ diverged, ∀ e' ∈ diverged, e.1 = e'.1 → e.2 = e'.2 := by
    intro e he e' he' hid
    have hscore := ((hdiverged e.1 e.2).mp he).1
    rw [hid, ((hdiverged e'.1 e'.2).mp he').1, Option.some.injEq] at hscore
    exact hscore.symm
  obtain ⟨hmem, hnodup⟩ := mem_reported (fun e he => ((hdiverged e.1 e.2).mp he).2) hone
    fun e he => .inl (hat e he)
  refine ⟨⟨diverged⟩, rebasedJoiner, changes, adopted, ?_, hrebase, ?_, ?_, ?_, fun c => ?_, ?_⟩
  · unfold snapshot
    rw [bind_run _ (get_apply sender), bind_run _ (readStorage_run hall)]
    rfl
  · unfold applySnapshot
    rw [bind_run _ (get_apply rebasedJoiner), hconfig]
    exact hadopt
  · have hentries : ∀ id score, (id, score) ∈ diverged ↔
        ((sender.table id).filter fun score => score ≠ sender.config.defaultScore) =
          some score := by
      intro id score
      rw [hdiverged, Option.filter_eq_some_iff, decide_eq_true_eq]
    funext id
    rw [htable₂, written_eq hentries, hrebased]
    -- Off the default the entry decides, at the default the rebased score is the sender's.
    cases hscore : sender.table id with
    | none => rfl
    | some score =>
      by_cases hoff : score = sender.config.defaultScore
      · simp [hoff, Option.filter]
      · simp [hoff, Option.filter]
  · exact (congrArg Prod.snd hparameters₂).trans hconfig
  · rw [hchanges, hmem, hdiverged]
    constructor
    · rintro ⟨⟨hscore, hoff⟩, -, hprevious⟩
      exact ⟨hscore, hoff, hprevious⟩
    · rintro ⟨hscore, hoff, hprevious⟩
      exact ⟨⟨hscore, hoff⟩, hat _ ((hdiverged _ _).mpr ⟨hscore, hoff⟩), hprevious⟩
  · rw [hchanges]
    exact hnodup

/-- The defaults are 100 and 50, and the sender's scores meet both. -/
theorem adoption_reports_one :
    let sender : PeerScoringService inMemoryPeerScoreStorage :=
      ⟨(OrderedMap.empty.insert [1] 50).insert [2] 100, ScoreEvent.defaultDelta, ⟨100, 0⟩⟩
    let joiner : PeerScoringService inMemoryPeerScoreStorage :=
      ⟨(OrderedMap.empty.insert [2] 50).insert [1] 50, ScoreEvent.defaultDelta, ⟨50, 0⟩⟩
    ∃ sent rebasedJoiner changes adopted,
      snapshot sender = .ok sent sender ∧
      setDefaultScore 100 joiner = .ok () rebasedJoiner ∧
      applySnapshot sent rebasedJoiner = .ok changes adopted ∧
      adopted.table = sender.table ∧ (⟨[1], 100, 50⟩ : ScoreChange) ∈ changes := by
  intro sender joiner
  have htracks : ∀ id, joiner.table id =
      (sender.table id).map fun _ => joiner.config.defaultScore := by
    intro id
    show OrderedMap.find? _ id = (OrderedMap.find? _ id).map _
    rw [OrderedMap.find?_insert, OrderedMap.find?_insert, OrderedMap.find?_insert,
      OrderedMap.find?_insert]
    show _ = Option.map (fun _ => 50) _
    split_ifs <;> simp_all
  obtain ⟨sent, rebasedJoiner, changes, adopted, hsent, hrebase, hadopt, htable, -, hchanges, -⟩ :=
    adopt_then_snapshot inMemoryPeerScoreStorage_lawful inMemoryPeerScoreStorage_lawful sender
      joiner htracks
  exact ⟨sent, rebasedJoiner, changes, adopted, hsent, hrebase, hadopt, htable,
    (hchanges _).mpr (by decide)⟩

end PeerScoringService

end DeMls
