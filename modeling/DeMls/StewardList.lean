import DeMls.Lib.Selection
import DeMls.Error

/-!
# The steward list

Who serves as steward and in what order: the deterministic list, its rotation over epochs, and
the service that installs, validates and proposes lists.
-/

namespace DeMls

open Selection

/-! ## Configuration -/

structure StewardListConfig where
  snMin : Nat
  snMax : Nat
  /-- Whether an election may draw candidates from a subset of the members. -/
  allowSubsetCandidates : Bool
deriving DecidableEq, Repr

namespace StewardListConfig

/-- Requires `1 ≤ snMin ≤ snMax`. -/
def new (snMin snMax : Nat) : Except ConversationError StewardListConfig :=
  if snMin < 1 ∨ snMax < snMin then .error .invalidConfigSize else .ok ⟨snMin, snMax, false⟩

/-- Valid sizes for `totalMembers`, both ends included. -/
def sizeBounds (c : StewardListConfig) (totalMembers : Nat) : Nat × Nat :=
  if totalMembers < c.snMin then (totalMembers, totalMembers)
  else (c.snMin, min c.snMax totalMembers)

/-- The largest legal list size. -/
def computeListSize (c : StewardListConfig) (totalMembers : Nat) : Nat := (c.sizeBounds totalMembers).2

def isValidSize (c : StewardListConfig) (size totalMembers : Nat) : Bool :=
  decide ((c.sizeBounds totalMembers).1 ≤ size ∧ size ≤ (c.sizeBounds totalMembers).2)

def checkGenerationInputs (c : StewardListConfig) (memberIds : List Bytes) (sn : Nat) :
    Except ConversationError Unit :=
  if memberIds = [] then .error .emptyMembersList
  else if c.isValidSize sn memberIds.length then .ok ()
  else .error .invalidConfigSize

theorem sizeBounds_snd_le (c : StewardListConfig) (n : Nat) : (c.sizeBounds n).2 ≤ n := by
  unfold sizeBounds
  split_ifs
  · exact le_refl n
  · exact min_le_right _ _

end StewardListConfig

/-! ## One list -/

/-- One elected, ordered list, serving epochs `[electionEpoch, electionEpoch + length)`. -/
structure StewardList where
  members : List Bytes
  config : StewardListConfig
  electionEpoch : Nat
  /-- The retry round whose seed ordered this list. -/
  retryRound : Nat
deriving DecidableEq, Repr

/-- `SHA256(epoch || retry_round || member_id || conversation_id)`. -/
def computeStewardHash (P : Platform) (epoch retryRound : Nat) (memberId conversationId : Bytes) :
    Bytes :=
  P.sha256 (u64BeBytes epoch ++ toBeBytes (UInt32.ofNat retryRound) ++ memberId ++ conversationId)

/-- Members by ascending steward hash, ties broken on the id. -/
def sortedStewards (P : Platform) (electionEpoch retryRound : Nat) (conversationId : Bytes)
    (memberIds : List Bytes) : List Bytes :=
  let hash := fun id => computeStewardHash P electionEpoch retryRound id conversationId
  sortBy (fun a b => (compare (hash a) (hash b)).then (compare a b)) memberIds

namespace StewardList

/-- Elect `sn` stewards: sort by steward hash and keep the first `sn`. -/
def generate (P : Platform) (electionEpoch : Nat) (conversationId : Bytes) (memberIds : List Bytes)
    (sn : Nat) (config : StewardListConfig) (retryRound : Nat) :
    Except ConversationError StewardList :=
  match config.checkGenerationInputs memberIds sn with
  | .error e => .error e
  | .ok () =>
    let ordered := sortedStewards P electionEpoch retryRound conversationId memberIds
    .ok ⟨ordered.take sn, config, electionEpoch, retryRound⟩

/-- Whether `proposed` is what `generate` would produce: the check of an election proposal. -/
def validate (P : Platform) (proposed : List Bytes) (electionEpoch : Nat) (conversationId : Bytes)
    (memberIds : List Bytes) (config : StewardListConfig) (retryRound : Nat) :
    Except ConversationError Bool :=
  if memberIds = [] then .error .emptyMembersList
  else if proposed.length ≠ config.computeListSize memberIds.length then .ok false
  else
    let ordered := sortedStewards P electionEpoch retryRound conversationId memberIds
    .ok (((ordered.take proposed.length).zip proposed).all fun p => p.1 = p.2)

/-- Whether `epoch` falls outside the span of the list. -/
def isExhausted (l : StewardList) (epoch : Nat) : Bool :=
  decide (epoch < l.electionEpoch ∨ l.members.length ≤ epoch - l.electionEpoch)

def contains (l : StewardList) (memberId : Bytes) : Bool := decide (memberId ∈ l.members)

/-- Walk the rotation from `epoch`'s slot plus `offset` to the first eligible member. -/
def stewardFrom (l : StewardList) (epoch offset : Nat) (eligible : Bytes → Bool) : Option Bytes :=
  if l.isExhausted epoch then none
  else
    let len := l.members.length
    let start := (epoch - l.electionEpoch + offset) % len
    ((List.range len).filterMap fun step => l.members[(start + step) % len]?).find? eligible

/-- The steward serving `epoch`, past any the predicate rejects. -/
def epochSteward (l : StewardList) (epoch : Nat) (eligible : Bytes → Bool) : Option Bytes :=
  l.stewardFrom epoch 0 eligible

/-- The epoch steward and its backup, the next eligible slot. -/
def epochAndBackup (l : StewardList) (epoch : Nat) (eligible : Bytes → Bool) :
    Option Bytes × Option Bytes :=
  let epochSteward := l.stewardFrom epoch 0 eligible
  (epochSteward,
    epochSteward.bind fun es => l.stewardFrom epoch 1 fun c => decide (c ≠ es) && eligible c)

end StewardList

/-! ## The service -/

inductive ElectionSkip
  | notExhausted
  | notResponsibleProposer
  | noEligibleCandidates
deriving DecidableEq, Repr

inductive ElectionDecision
  | skip (reason : ElectionSkip)
  | proposed (proposedStewards : List Bytes) (electionEpoch retryRound : Nat)
deriving DecidableEq, Repr

structure StewardListService where
  list : Option StewardList
  config : StewardListConfig
  /-- The sort salt every member shares. -/
  conversationId : Bytes
  /-- The seed the next election attempt will use. -/
  nextElectionRound : Nat
  maxRetries : Nat
deriving DecidableEq, Repr

namespace StewardListService

def isSteward (s : StewardListService) (memberId : Bytes) : Bool :=
  match s.list with
  | some l => l.contains memberId
  | none => false

/-- `false` when no list is installed. -/
def isExhausted (s : StewardListService) (epoch : Nat) : Bool :=
  match s.list with
  | some l => l.isExhausted epoch
  | none => false

/-- Whether a list over `memberCount` members is a genuine subset, so that peers must vote. -/
def electionRequired (s : StewardListService) (memberCount : Nat) : Bool :=
  decide (s.config.snMax < memberCount)

def epochSteward (s : StewardListService) (epoch : Nat) (eligible : Bytes → Bool) : Option Bytes :=
  s.list.bind fun l => l.epochSteward epoch eligible

def epochAndBackup (s : StewardListService) (epoch : Nat) (eligible : Bytes → Bool) :
    Option Bytes × Option Bytes :=
  match s.list with
  | some l => l.epochAndBackup epoch eligible
  | none => (none, none)

/-- The first eligible steward from the list's election slot. -/
def electionProposer (s : StewardListService) (eligible : Bytes → Bool) : Option Bytes :=
  s.list.bind fun l => l.epochSteward l.electionEpoch eligible

/-- The member authorized to act for election retry `round`: the installed list's eligible members
in rotation order, then the other eligible candidates by id, taken round-robin. -/
def responsibleProposer (s : StewardListService) (round : Nat) (candidatePool : List Bytes)
    (eligible : Bytes → Bool) : Option Bytes :=
  let listMembers := match s.list with
    | some l => l.members
    | none => []
  let listed := listMembers.filter eligible
  let poolRest := candidatePool.filter fun c => eligible c && decide (c ∉ listed)
  let sequence := listed ++ sortBy compare poolRest
  if sequence = [] then none else sequence[round % sequence.length]?

/-- Build and install a list of size `sn`. -/
def installList (P : Platform) (s : StewardListService) (epoch : Nat) (candidatePool : List Bytes)
    (sn retryRound : Nat) : Except ConversationError StewardListService :=
  match StewardList.generate P epoch s.conversationId candidatePool sn s.config retryRound with
  | .error e => .error e
  | .ok list => .ok { s with list := some list }

def validateProposed (P : Platform) (s : StewardListService) (proposed : List Bytes) (epoch : Nat)
    (candidatePool : List Bytes) (retryRound : Nat) : Except ConversationError Bool :=
  StewardList.validate P proposed epoch s.conversationId candidatePool s.config retryRound

/-- Decide whether to propose an election at `epoch`; `recovery` proposes before exhaustion too. -/
def proposeElection (P : Platform) (s : StewardListService) (epoch : Nat)
    (candidatePool : List Bytes) (selfMemberId : Bytes) (eligible : Bytes → Bool)
    (recovery : Bool) : Except ConversationError ElectionDecision :=
  if !recovery && !s.isExhausted epoch then .ok (.skip .notExhausted)
  else if candidatePool = [] then .ok (.skip .noEligibleCandidates)
  else
    let retryRound := s.nextElectionRound
    if s.responsibleProposer retryRound candidatePool eligible ≠ some selfMemberId then
      .ok (.skip .notResponsibleProposer)
    else
      let sn := s.config.computeListSize candidatePool.length
      match StewardList.generate P epoch s.conversationId candidatePool sn s.config retryRound with
      | .error e => .error e
      | .ok list => .ok (.proposed list.members epoch retryRound)

def bumpRetry (s : StewardListService) : StewardListService :=
  { s with nextElectionRound := min (s.nextElectionRound + 1) (2 ^ 32 - 1) }

def resetRetry (s : StewardListService) : StewardListService := { s with nextElectionRound := 0 }

end StewardListService

/-! ## One order -/

theorem mem_sortedStewards {P : Platform} {e r : Nat} {cid : Bytes} {ids : List Bytes} {id : Bytes} :
    id ∈ sortedStewards P e r cid ids ↔ id ∈ ids :=
  mem_sortBy

theorem length_sortedStewards (P : Platform) (e r : Nat) (cid : Bytes) (ids : List Bytes) :
    (sortedStewards P e r cid ids).length = ids.length :=
  (sortBy_perm _ ids).length_eq

/-- The order of a list: by steward hash, then by id. -/
def compareStewards (P : Platform) (electionEpoch retryRound : Nat) (conversationId a b : Bytes) :
    Ordering :=
  compareLex (compareOn fun id => computeStewardHash P electionEpoch retryRound id conversationId)
    compare a b

theorem sortedStewards_eq (P : Platform) (e r : Nat) (cid : Bytes) (ids : List Bytes) :
    sortedStewards P e r cid ids = sortBy (compareStewards P e r cid) ids := rfl

instance (P : Platform) (e r : Nat) (cid : Bytes) : Std.TransCmp (compareStewards P e r cid) :=
  inferInstanceAs (Std.TransCmp (compareLex _ _))

instance (P : Platform) (e r : Nat) (cid : Bytes) : Std.LawfulEqCmp (compareStewards P e r cid) where
  eq_of_compare h := by
    unfold compareStewards compareLex at h
    exact Std.LawfulEqCmp.eq_of_compare (Ordering.then_eq_eq.mp h).2

/-- The order does not depend on how the members are enumerated. -/
theorem sortedStewards_congr {P : Platform} {e r : Nat} {cid : Bytes} {ids ids' : List Bytes}
    (h : ids.Perm ids') : sortedStewards P e r cid ids = sortedStewards P e r cid ids' := by
  rw [sortedStewards_eq, sortedStewards_eq]
  exact sortBy_eq_of_perm h fun _ _ _ _ heq => Std.LawfulEqCmp.eq_of_compare heq

namespace StewardListConfig

/-- Size bounds a list can meet. -/
def Valid (c : StewardListConfig) : Prop := 1 ≤ c.snMin ∧ c.snMin ≤ c.snMax

instance (c : StewardListConfig) : Decidable c.Valid := inferInstanceAs (Decidable (_ ∧ _))

theorem computeListSize_le (c : StewardListConfig) (n : Nat) : c.computeListSize n ≤ n :=
  c.sizeBounds_snd_le n

/-- A list of the largest legal size is legal among its own members. -/
theorem Valid.legal {c : StewardListConfig} (h : c.Valid) {n : Nat} (hn : 1 ≤ n) :
    1 ≤ c.computeListSize n ∧
      c.isValidSize (c.computeListSize n) (c.computeListSize n) = true := by
  obtain ⟨hmin, hmax⟩ := h
  unfold isValidSize computeListSize sizeBounds
  rw [decide_eq_true_iff]
  split_ifs <;> dsimp only at * <;> omega

end StewardListConfig

/-- The list an election over the pool is to propose. -/
def electedFrom (P : Platform) (config : StewardListConfig) (electionEpoch retryRound : Nat)
    (conversationId : Bytes) (pool : List Bytes) : List Bytes :=
  (sortedStewards P electionEpoch retryRound conversationId pool).take
    (config.computeListSize pool.length)

section
variable {P : Platform} {config : StewardListConfig} {e r : Nat} {cid : Bytes} {pool : List Bytes}

theorem length_electedFrom :
    (electedFrom P config e r cid pool).length = config.computeListSize pool.length := by
  unfold electedFrom
  rw [List.length_take, length_sortedStewards, Nat.min_eq_left (config.computeListSize_le _)]

/-- An elected list is in order already. -/
theorem sortedStewards_electedFrom :
    sortedStewards P e r cid (electedFrom P config e r cid pool) =
      electedFrom P config e r cid pool :=
  sortBy_take (compareStewards P e r cid) _ _

end

/-! ## Who can be a steward -/

namespace StewardList

/-- A generated list draws its stewards from the pool and keeps the inputs it was made with. -/
theorem generate_ok {P : Platform} {e sn r : Nat} {cid : Bytes} {ids : List Bytes}
    {config : StewardListConfig} {l : StewardList}
    (h : generate P e cid ids sn config r = .ok l) :
    (∀ m ∈ l.members, m ∈ ids) ∧ l.electionEpoch = e ∧ l.retryRound = r := by
  unfold generate at h
  cases hc : config.checkGenerationInputs ids sn with
  | error err => simp [hc] at h
  | ok u =>
    simp only [hc, Except.ok.injEq] at h
    subst h
    exact ⟨fun m hm => mem_sortedStewards.mp (List.mem_of_mem_take hm), rfl, rfl⟩

/-- An accepted proposal draws its stewards from the pool. -/
theorem mem_pool_of_validate {P : Platform} {proposed ids : List Bytes} {e r : Nat} {cid : Bytes}
    {config : StewardListConfig} (h : validate P proposed e cid ids config r = .ok true) :
    ∀ m ∈ proposed, m ∈ ids := by
  unfold validate at h
  split_ifs at h with hempty hlen
  · simp at h
  rw [Except.ok.injEq, List.all_eq_true] at h
  have hall : ∀ p ∈ ((sortedStewards P e r cid ids).take proposed.length).zip proposed,
      p.1 = p.2 := fun p hp => by simpa using h p hp
  intro m hm
  obtain ⟨i, hi, rfl⟩ := List.getElem_of_mem hm
  have hsize : proposed.length ≤ (sortedStewards P e r cid ids).length := by
    rw [length_sortedStewards]
    have := config.sizeBounds_snd_le ids.length
    unfold StewardListConfig.computeListSize at hlen
    omega
  have hi' : i < ((sortedStewards P e r cid ids).take proposed.length).length := by
    rw [List.length_take]
    omega
  have hzip : i < (((sortedStewards P e r cid ids).take proposed.length).zip proposed).length := by
    rw [List.length_zip]
    omega
  have hpair := hall _ (List.getElem_mem hzip)
  simp only [List.getElem_zip] at hpair
  rw [← hpair]
  exact mem_sortedStewards.mp (List.mem_of_mem_take (List.getElem_mem hi'))

/-- **Validation** accepts one list for a pool, an epoch and a round. -/
theorem validate_iff {P : Platform} {proposed pool : List Bytes} {e r : Nat} {cid : Bytes}
    {config : StewardListConfig} :
    validate P proposed e cid pool config r = .ok true ↔
      pool ≠ [] ∧ proposed = electedFrom P config e r cid pool := by
  unfold validate
  by_cases hpool : pool = []
  · rw [if_pos hpool]
    exact ⟨fun h => (nomatch h), fun h => absurd hpool h.1⟩
  rw [if_neg hpool]
  by_cases hlength : proposed.length = config.computeListSize pool.length
  · rw [if_neg (not_not.mpr hlength), Except.ok.injEq]
    have hzip : ∀ l l' : List Bytes, l.length = l'.length →
        ((l.zip l').all (fun p => p.1 = p.2) = true ↔ l' = l) := by
      intro l l' h
      induction l generalizing l' with
      | nil => cases l' <;> simp_all
      | cons a rest ih =>
        cases l' with
        | nil => simp at h
        | cons b rest' =>
          simp only [List.length_cons, Nat.add_right_cancel_iff] at h
          have hrest := ih rest' h
          simp only [List.zip_cons_cons, List.all_cons, Bool.and_eq_true, decide_eq_true_eq,
            hrest, List.cons.injEq]
          exact and_congr_left fun _ => eq_comm
    rw [hzip, hlength]
    · exact ⟨fun h => ⟨hpool, h⟩, fun h => h.2⟩
    · rw [List.length_take, length_sortedStewards, hlength,
        Nat.min_eq_left (config.computeListSize_le _)]
  · rw [if_pos hlength]
    refine ⟨fun h => (nomatch h), fun h => absurd ?_ hlength⟩
    rw [h.2, length_electedFrom]

/-- An empty pool is the only thing validation fails on. -/
theorem validate_error {P : Platform} {proposed pool : List Bytes} {e r : Nat} {cid : Bytes}
    {config : StewardListConfig} {err : ConversationError} :
    validate P proposed e cid pool config r = .error err ↔
      pool = [] ∧ err = .emptyMembersList := by
  unfold validate
  split_ifs with hpool hlength
  · simp [hpool, eq_comm]
  · simp [hpool]
  · simp [hpool]

/-- The members a pool elects make a list by themselves, under any salt. -/
theorem generate_own {P : Platform} {pool : List Bytes} {e r : Nat} {cid : Bytes}
    {config : StewardListConfig} (hconfig : config.Valid) (hpool : pool ≠ []) (salt : Bytes) :
    generate P e salt (electedFrom P config e r cid pool)
        (electedFrom P config e r cid pool).length config r =
      .ok ⟨sortedStewards P e r salt (electedFrom P config e r cid pool), config, e, r⟩ := by
  obtain ⟨hsize, hlegal⟩ := hconfig.legal (List.length_pos_iff.mpr hpool)
  rw [← @length_electedFrom P config e r cid pool] at hsize hlegal
  have hinputs : config.checkGenerationInputs (electedFrom P config e r cid pool)
      (electedFrom P config e r cid pool).length = .ok () := by
    unfold StewardListConfig.checkGenerationInputs
    rw [if_neg (List.length_pos_iff.mp hsize), if_pos hlegal]
  unfold generate
  rw [hinputs]
  dsimp only
  rw [List.take_of_length_le (length_sortedStewards _ _ _ _ _).le]

/-- The list a pool elects is generated from its own members as it is. -/
theorem generate_electedFrom {P : Platform} {pool : List Bytes} {e r : Nat} {cid : Bytes}
    {config : StewardListConfig} (hconfig : config.Valid) (hpool : pool ≠ []) :
    generate P e cid (electedFrom P config e r cid pool)
        (electedFrom P config e r cid pool).length config r =
      .ok ⟨electedFrom P config e r cid pool, config, e, r⟩ := by
  rw [generate_own hconfig hpool, sortedStewards_electedFrom]

theorem stewardFrom_mem {l : StewardList} {epoch offset : Nat} {eligible : Bytes → Bool}
    {id : Bytes} (h : l.stewardFrom epoch offset eligible = some id) :
    id ∈ l.members ∧ eligible id = true := by
  unfold stewardFrom at h
  split_ifs at h
  refine ⟨?_, List.find?_some h⟩
  have := List.mem_of_find?_eq_some h
  rw [List.mem_filterMap] at this
  obtain ⟨step, _, hget⟩ := this
  exact List.mem_of_getElem? hget

theorem epochAndBackup_mem {l : StewardList} {epoch : Nat} {eligible : Bytes → Bool} {id : Bytes}
    (h : (l.epochAndBackup epoch eligible).1 = some id ∨
      (l.epochAndBackup epoch eligible).2 = some id) :
    id ∈ l.members := by
  unfold epochAndBackup at h
  rcases h with h | h
  · exact (stewardFrom_mem h).1
  · obtain ⟨es, _, hb⟩ := Option.bind_eq_some_iff.mp h
    exact (stewardFrom_mem hb).1

end StewardList

namespace StewardListService

theorem isSteward_iff {s : StewardListService} {id : Bytes} :
    s.isSteward id = true ↔ ∃ l, s.list = some l ∧ id ∈ l.members := by
  unfold isSteward StewardList.contains
  cases s.list <;> simp

/-- An installed list: only the list changes, and it draws from the pool. -/
theorem installList_ok {P : Platform} {s s' : StewardListService} {e sn r : Nat} {pool : List Bytes}
    (h : s.installList P e pool sn r = .ok s') :
    ∃ l, s' = { s with list := some l } ∧ (∀ m ∈ l.members, m ∈ pool) ∧ l.electionEpoch = e := by
  unfold installList at h
  cases hg : StewardList.generate P e s.conversationId pool sn s.config r with
  | error err => simp [hg] at h
  | ok l =>
    simp only [hg, Except.ok.injEq] at h
    obtain ⟨hmem, he, _⟩ := StewardList.generate_ok hg
    exact ⟨l, h.symm, hmem, he⟩

end StewardListService

end DeMls
