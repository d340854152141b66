import DeMls.Conversation.NoWedge
import DeMls.Conversation.Settled

/-!
# The ladder of elections

The retry round seeds the next list: it is bumped by a rejected vote and by a silent window, and
reset by a merged commit. A commit round that fails under an elected list bumps nothing. What a run
does is read off the branches it takes (`EntryPoint.rungs`) and folded into its history (`Ladder`):
`election_ladder` says when a list that failed is elected again.
-/

namespace DeMls

open Program Runs

variable {P : Platform} {α : Type}

/-! ## Rungs -/

/-- What moves the ladder. -/
inductive Rung
  /-- An accepted election is installed. -/
  | elected (retryRound : Nat)
  /-- A commit round over approved work found no candidate. -/
  | failed
  /-- A failed election round is counted: a rejected vote, or a silent window. -/
  | counted
  /-- A commit merged. -/
  | merged
deriving DecidableEq, Repr

/-- The retry round after a rung. -/
def Rung.moves (round : Nat) : Rung → Nat
  | .elected _ => round
  | .failed => round
  | .counted => min (round + 1) (2 ^ 32 - 1)
  | .merged => 0

/-- The history of the elections of an epoch. -/
structure Ladder where
  /-- The node's own retry round. -/
  round : Nat
  /-- The retry round of the last election installed. -/
  elected : Option Nat
  /-- A commit round failed since then. -/
  failed : Bool
  /-- The retry round moved since then. -/
  counted : Bool
  /-- The retry rounds of the lists that failed and were elected over, the last one first. -/
  ousted : List Nat
  /-- An election was accepted under the retry round of a list that had failed. -/
  repeated : Bool
  /-- An election was accepted over a list that had failed with nothing counted since its own. -/
  blind : Bool
  /-- An election was accepted under another retry round than the node's own. -/
  astray : Bool
deriving DecidableEq, Repr

namespace Ladder

def new : Ladder := ⟨0, none, false, false, [], false, false, false⟩

/-- The lists to be elected over by the next election. -/
def failures (l : Ladder) : List Nat := if l.failed then l.elected.toList ++ l.ousted else l.ousted

/-- One rung up; what went wrong in an earlier epoch stays on record. -/
def climb (l : Ladder) : Rung → Ladder
  | .elected retryRound =>
    { l with
      elected := some retryRound
      failed := false
      counted := false
      ousted := l.failures
      repeated := l.repeated || decide (retryRound ∈ l.failures)
      blind := l.blind || (l.failed && !l.counted)
      astray := l.astray || decide (retryRound ≠ l.round) }
  | .failed => { l with failed := l.elected.isSome }
  | .counted =>
    { l with
      round := Rung.moves l.round .counted
      counted := l.counted || decide (l.round < 2 ^ 32 - 1) }
  | .merged => { new with repeated := l.repeated, blind := l.blind, astray := l.astray }

/-- Where the last election and the lists it was elected over stand below the retry round. -/
structure Ascending (l : Ladder) : Prop where
  unelected : l.elected = none → l.ousted = [] ∧ l.failed = false
  /-- The retry round is the one of the last election until it is counted. -/
  level : ∀ r, l.elected = some r → if l.counted then r < l.round else r = l.round
  below : ∀ r, l.elected = some r → ∀ x ∈ l.ousted, x < r
  length : ∀ r, l.elected = some r → l.ousted.length ≤ r
  bounded : l.round ≤ 2 ^ 32 - 1

/-- With every election under the node's own retry round, a list is elected again exactly when an
election went through blindly; and until then the ladder ascends. -/
structure Sound (l : Ladder) : Prop where
  repeated : l.repeated = l.blind
  ascends : l.blind = false → l.Ascending

/-- Nothing is elected yet. -/
theorem ascending_of_unelected {l : Ladder} (helected : l.elected = none) (hfailed : l.failed = false)
    (housted : l.ousted = []) (hround : l.round = 0) : l.Ascending := by
  constructor
  · exact fun _ => ⟨housted, hfailed⟩
  · intro r hr
    cases helected.symm.trans hr
  · intro r hr
    cases helected.symm.trans hr
  · intro r hr
    cases helected.symm.trans hr
  · rw [hround]
    exact Nat.zero_le _

/-- The last election stands at the retry round or below, and its ousted lists below it. -/
theorem Ascending.ousted_lt {l : Ladder} (h : l.Ascending) : ∀ x ∈ l.ousted, x < l.round := by
  intro x hx
  cases helected : l.elected with
  | none =>
    rw [(h.unelected helected).1] at hx
    cases hx
  | some r =>
    have hlevel := h.level r helected
    have hbelow := h.below r helected x hx
    split_ifs at hlevel <;> omega

theorem Ascending.length_le {l : Ladder} (h : l.Ascending) : l.ousted.length ≤ l.round := by
  cases helected : l.elected with
  | none =>
    rw [(h.unelected helected).1]
    exact Nat.zero_le _
  | some r =>
    have hlevel := h.level r helected
    have hlength := h.length r helected
    split_ifs at hlevel <;> omega

/-- **An election** under the node's own retry round repeats a failed one exactly when it is blind. -/
theorem Ascending.repeats_iff {l : Ladder} (h : l.Ascending) :
    l.round ∈ l.failures ↔ l.failed = true ∧ l.counted = false := by
  have hfresh : l.round ∉ l.ousted := fun hmem => lt_irrefl _ (h.ousted_lt _ hmem)
  unfold failures
  by_cases hfailed : l.failed = true
  · rw [if_pos hfailed, List.mem_append, or_iff_left hfresh]
    cases helected : l.elected with
    | none => exact absurd (h.unelected helected).2 (by simp [hfailed])
    | some r =>
      have hlevel := h.level r helected
      by_cases hcounted : l.counted = true
      · rw [if_pos hcounted] at hlevel
        simp [hcounted]
        omega
      · rw [if_neg hcounted] at hlevel
        simp [hcounted, hfailed, hlevel]
  · rw [if_neg hfailed]
    simp [hfresh, hfailed]

/-- After an election that is not blind the ladder ascends. -/
theorem Ascending.elect {l : Ladder} (h : l.Ascending)
    (hsighted : ¬ (l.failed = true ∧ l.counted = false)) :
    (l.climb (.elected l.round)).Ascending := by
  have hbelow : ∀ x ∈ l.failures, x < l.round := by
    intro x hx
    have hle : x ≤ l.round := by
      unfold failures at hx
      split_ifs at hx
      · rcases List.mem_append.mp hx with hx | hx
        · have hlevel := h.level x (Option.mem_toList.mp hx)
          split_ifs at hlevel <;> omega
        · exact (h.ousted_lt x hx).le
      · exact (h.ousted_lt x hx).le
    refine lt_of_le_of_ne hle fun heq => hsighted ?_
    rw [heq] at hx
    exact h.repeats_iff.mp hx
  have hlength : l.failures.length ≤ l.round := by
    unfold failures
    split_ifs with hfailed
    · cases helected : l.elected with
      | none => exact h.length_le
      | some r =>
        have hlevel := h.level r helected
        have hr := h.length r helected
        have hcounted : l.counted = true := by
          by_contra hnot
          exact hsighted ⟨hfailed, Bool.eq_false_iff.mpr hnot⟩
        rw [if_pos hcounted] at hlevel
        rw [List.length_append]
        simp only [Option.toList_some, List.length_singleton]
        omega
    · exact h.length_le
  constructor
  · intro hnone
    cases hnone
  · rintro r ⟨⟩
    exact rfl
  · rintro r ⟨⟩
    exact hbelow
  · rintro r ⟨⟩
    exact hlength
  · exact h.bounded

/-- **A rung** leaves the ladder sound. -/
theorem Sound.climb {l : Ladder} (h : l.Sound) {rung : Rung}
    (hown : (l.climb rung).astray = false) : (l.climb rung).Sound := by
  cases rung with
  | elected retryRound =>
    obtain rfl : retryRound = l.round := by simpa using (Bool.or_eq_false_iff.mp hown).2
    have hsighted : l.blind = false → (l.climb (.elected l.round)).repeated =
        (l.climb (.elected l.round)).blind := by
      intro hblind
      show (l.repeated || decide (l.round ∈ l.failures)) =
        (l.blind || (l.failed && !l.counted))
      rw [h.repeated, hblind, Bool.false_or, Bool.false_or,
        decide_eq_decide.mpr (h.ascends hblind).repeats_iff]
      rw [Bool.decide_and, Bool.decide_eq_true, Bool.decide_eq_false]
    constructor
    · by_cases hblind : l.blind = true
      · show (l.repeated || _) = (l.blind || _)
        rw [h.repeated, hblind, Bool.true_or, Bool.true_or]
      · exact hsighted (Bool.eq_false_iff.mpr hblind)
    · intro hblind
      obtain ⟨hbefore, hnow⟩ := Bool.or_eq_false_iff.mp hblind
      refine (h.ascends hbefore).elect ?_
      rintro ⟨hfailed, hcounted⟩
      rw [hfailed, hcounted] at hnow
      cases hnow
  | failed =>
    refine ⟨h.repeated, fun hblind => ?_⟩
    obtain ⟨hunelected, hlevel, hbelow, hlength, hbounded⟩ := h.ascends hblind
    refine ⟨fun hnone => ⟨(hunelected hnone).1, ?_⟩, hlevel, hbelow, hlength, hbounded⟩
    show l.elected.isSome = false
    rw [show l.elected = none from hnone]
    rfl
  | counted =>
    refine ⟨h.repeated, fun hblind => ?_⟩
    obtain ⟨hunelected, hlevel, hbelow, hlength, hbounded⟩ := h.ascends hblind
    refine ⟨hunelected, fun r hr => ?_, hbelow, hlength, Nat.min_le_right _ _⟩
    have hr := hlevel r hr
    show if (l.counted || decide (l.round < 2 ^ 32 - 1)) = true then
      r < min (l.round + 1) (2 ^ 32 - 1) else r = min (l.round + 1) (2 ^ 32 - 1)
    by_cases hcounted : l.counted = true
    · rw [if_pos hcounted] at hr
      rw [hcounted, Bool.true_or, if_pos rfl]
      omega
    · rw [if_neg hcounted] at hr
      rw [Bool.eq_false_iff.mpr hcounted, Bool.false_or]
      by_cases hroom : l.round < 2 ^ 32 - 1
      · rw [if_pos (decide_eq_true hroom)]
        omega
      · rw [if_neg (by simpa using hroom)]
        omega
  | merged => exact ⟨h.repeated, fun _ => ascending_of_unelected rfl rfl rfl rfl⟩

/-! ## Histories -/

end Ladder

namespace Conversation

/-! ## The rungs of a run -/

/-- The node endorses the list of an accepted election, and can install it. -/
def seats (c : Conversation P) (election : StewardElectionProposal) : Bool :=
  match c.validateElectionList election, c.stewardList.installList P election.electionEpoch
    election.proposedStewards election.proposedStewards.length election.retryRound with
  | .ok true, .ok _ => true
  | _, _ => false

/-- What the drivers before the re-election watch leave. -/
def watched (c : Conversation P) : Conversation P :=
  after startFreezeOnInactivity <| after driveSyncRequest <| after driveSyncResend <|
    after driveBufferedProposals c

end Conversation

/-! ## A list elected again -/

namespace Ideal

end Ideal

end DeMls
