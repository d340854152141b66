import Mathlib.Tactic.SplitIfs
import DeMls.Platform

/-!
# The commit-round buffer

The candidates one epoch's commit round collects before selection.
-/

namespace DeMls

/-- SHA-256 of a commit message. -/
abbrev CommitHash := Bytes

def computeCommitHash (P : Platform) (commitMessage : Bytes) : CommitHash := P.sha256 commitMessage

/-- A commit candidate buffered during the commit round for later selection. -/
structure BufferedCommitCandidate where
  candidateMsg : CommitCandidate
  commitHash : CommitHash
  isLocalCandidate : Bool
  welcomeBytes : Option Bytes
  /-- Ids admitted by this commit's welcome; empty on remote candidates. -/
  joinerIdentities : List Bytes
deriving DecidableEq, Repr

/-- The candidates collected for `epoch`. -/
structure CommitRoundBuffer where
  epoch : Nat
  candidates : List BufferedCommitCandidate
deriving DecidableEq, Repr

inductive CommitBufferOutcome
  | buffered
  | duplicateHash
  | capReached
deriving DecidableEq, Repr

namespace CommitRoundBuffer

def default : CommitRoundBuffer := ⟨0, []⟩

/-- Candidates of another epoch are stale: they start a fresh round. -/
def atEpoch (b : CommitRoundBuffer) (epoch : Nat) : CommitRoundBuffer :=
  if b.epoch ≠ epoch then ⟨epoch, []⟩ else b

/-- Buffer a candidate for `epoch` under its commit hash, at most `maxCandidates` of them. -/
def add (P : Platform) (b : CommitRoundBuffer) (candidate : CommitCandidate)
    (isLocalCandidate : Bool) (welcomeBytes : Option Bytes) (joinerIdentities : List Bytes)
    (epoch maxCandidates : Nat) : CommitBufferOutcome × CommitRoundBuffer :=
  let b := b.atEpoch epoch
  let commitHash := computeCommitHash P candidate.commitMessage
  if b.candidates.any fun c => c.commitHash = commitHash then (.duplicateHash, b)
  else if maxCandidates ≤ b.candidates.length then (.capReached, b)
  else
    (.buffered, { b with
      candidates := b.candidates ++
        [⟨candidate, commitHash, isLocalCandidate, welcomeBytes, joinerIdentities⟩] })

def candidateCount (b : CommitRoundBuffer) : Nat := b.candidates.length

def hasLocalCandidate (b : CommitRoundBuffer) : Bool := b.candidates.any (·.isLocalCandidate)

/-- Wire bytes of our own buffered candidate, ready to rebroadcast. -/
def localCandidateBytes (P : Platform) (b : CommitRoundBuffer) : Option Bytes :=
  (b.candidates.find? (·.isLocalCandidate)).map fun c =>
    P.codec.encodeApp ⟨some (.commitCandidate c.candidateMsg)⟩

def clear (b : CommitRoundBuffer) : CommitRoundBuffer := { b with candidates := [] }

/-- Take the candidates buffered for `epoch`; nothing when the buffer holds another epoch's. -/
def take (b : CommitRoundBuffer) (epoch : Nat) :
    List BufferedCommitCandidate × CommitRoundBuffer :=
  if b.epoch ≠ epoch then ([], b) else (b.candidates, b.clear)

/-- The commit hashes of the buffer are distinct. -/
def Distinct (b : CommitRoundBuffer) : Prop := (b.candidates.map (·.commitHash)).Nodup

theorem distinct_default : default.Distinct := List.nodup_nil

theorem Distinct.clear (b : CommitRoundBuffer) : b.clear.Distinct := List.nodup_nil

theorem Distinct.atEpoch {b : CommitRoundBuffer} (h : b.Distinct) (epoch : Nat) :
    (b.atEpoch epoch).Distinct := by
  unfold CommitRoundBuffer.atEpoch
  split_ifs
  · exact List.nodup_nil
  · exact h

/-- Buffering keeps the hashes distinct. -/
theorem Distinct.add {b : CommitRoundBuffer} (h : b.Distinct) (P : Platform)
    (candidate : CommitCandidate) (isLocalCandidate : Bool) (welcomeBytes : Option Bytes)
    (joinerIdentities : List Bytes) (epoch maxCandidates : Nat) :
    (b.add P candidate isLocalCandidate welcomeBytes joinerIdentities epoch
      maxCandidates).2.Distinct := by
  have hat := h.atEpoch epoch
  unfold CommitRoundBuffer.add
  simp only
  split_ifs with hdup hcap
  · exact hat
  · exact hat
  · show ((b.atEpoch epoch).candidates ++ _ |>.map (·.commitHash)).Nodup
    rw [List.map_append, List.nodup_append]
    refine ⟨hat, List.pairwise_singleton _ _, ?_⟩
    intro x hx y hy
    rw [List.mem_map] at hx
    obtain ⟨c, hc, rfl⟩ := hx
    rw [List.map_singleton, List.mem_singleton] at hy
    rintro hxy
    apply hdup
    rw [List.any_eq_true]
    exact ⟨c, hc, decide_eq_true (hxy.trans hy)⟩

end CommitRoundBuffer

end DeMls
