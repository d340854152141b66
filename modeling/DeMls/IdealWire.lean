import DeMls.Ideal

/-!
# Messages of the plain platform, read back

`Ideal.codec` writes proposals and syncs by their tag only. The codec here writes and reads them in
full, for the runs in which a peer's proposal or a sync has to arrive: numbers as four bytes, the
counts of a list before its items.
-/

namespace DeMls.Ideal

/-- A number below `2 ^ 32`, or a signed one. -/
def word (n : Int) : Bytes := toBeBytes (UInt32.ofNat (n % 2 ^ 32).toNat)

/-- Split off words; the rest is returned. -/
def readWords : Nat → Bytes → Option (List Nat × Bytes)
  | 0, rest => some ([], rest)
  | n + 1, a :: b :: c :: d :: rest =>
    (readWords n rest).map fun r => ((fromBeBytes a b c d).toNat :: r.1, r.2)
  | _ + 1, _ => none

/-- A signed number from its word. -/
def signed (n : Nat) : Int := if n < 2 ^ 31 then n else (n : Int) - 2 ^ 32

def writeProposal (p : Proposal) : Bytes :=
  8 :: word p.proposalId ++ word p.expectedVotersCount ++ word p.expirationTimestamp ++
    prefixed p.proposalOwner ++ p.payload

def readProposal (b : Bytes) : Except String AppMessage :=
  match readWords 3 b with
  | some ([id, count, expiration], n :: rest) =>
    .ok ⟨some (.proposal ⟨[], rest.drop n.toNat, id, rest.take n.toNat, [], count, 1, 0, expiration,
      true⟩)⟩
  | _ => .error "malformed proposal"

def timingWords : Option TimingConfig → List Int
  | some t => [1, t.commitBatchWindowMs, t.freezeDurationMs, t.proposalExpirationMs,
      t.consensusTimeoutMs, t.retryWindowMs, t.backupTakeoverWindowMs]
  | none => [0, 0, 0, 0, 0, 0, 0]

def bit (b : Bool) : Int := if b then 1 else 0

def writeSync (s : ConversationSync) : Bytes :=
  10 :: ([(s.electionEpoch : Int), s.snMin, s.snMax, bit s.allowSubsetCandidates, s.retryRound,
      s.maxReelectionAttempts, bit s.livenessCriteriaYes, s.thresholdPeerScore,
      s.pendingUpdateMaxEpochs, s.defaultPeerScore, s.stewardMembers.length,
      s.unsettledMembers.length] ++ timingWords s.timing).flatMap word ++
    s.stewardMembers.flatten ++ s.unsettledMembers.flatten ++
      s.peerScores.flatMap fun p => p.memberId ++ word p.score

/-- Scores by member; `fuel` bounds their number. -/
def readScores : Nat → Bytes → List PeerScore
  | fuel + 1, a :: b :: c :: d :: p :: q :: r :: s :: rest =>
    ⟨[a, b, c, d], signed (fromBeBytes p q r s).toNat⟩ :: readScores fuel rest
  | _, _ => []

def readSync (b : Bytes) : Except String AppMessage :=
  match readWords 19 b with
  | some ([epoch, snMin, snMax, subset, retry, attempts, liveness, threshold, maxEpochs, score,
      stewards, unsettled, timed, batch, freeze, expiration, timeout, window, backup], rest) =>
    .ok ⟨some (.conversationSync
      { stewardMembers := splitIds (rest.take (4 * stewards))
        electionEpoch := epoch
        snMin := snMin
        snMax := snMax
        allowSubsetCandidates := subset = 1
        peerScores := readScores rest.length (rest.drop (4 * stewards + 4 * unsettled))
        timing := if timed = 1 then some ⟨batch, freeze, expiration, timeout, window, backup⟩
          else none
        retryRound := retry
        maxReelectionAttempts := attempts
        livenessCriteriaYes := liveness = 1
        thresholdPeerScore := signed threshold
        pendingUpdateMaxEpochs := maxEpochs
        unsettledMembers := splitIds ((rest.drop (4 * stewards)).take (4 * unsettled))
        defaultPeerScore := signed score })⟩
  | _ => .error "malformed sync"

/-- The codec of the plain platform, with proposals and syncs in full. -/
def wireCodec : Codec where
  encodeApp m :=
    match m.payload with
    | some (.proposal p) => writeProposal p
    | some (.conversationSync s) => writeSync s
    | _ => encodeApp m
  decodeApp
    | 8 :: rest => readProposal rest
    | 10 :: rest => readSync rest
    | bytes => decodeApp bytes
  encodeRequest := encodeRequest
  decodeRequest := decodeRequest

/-- The plain platform, where proposals and syncs arrive. -/
def wired : Platform := { platform with codec := wireCodec }

/-- A sync of the plain platform survives the wire. -/
example : (wireCodec.decodeApp (wireCodec.encodeApp ⟨some (.conversationSync
    ⟨[memberIdOf 1, memberIdOf 0], 3, 1, 2, true, [⟨memberIdOf 0, -20⟩],
      some ConversationConfig.default.toTiming, 1, 2, true, -5, 3, [memberIdOf 2], 100⟩)⟩)).toOption =
    some ⟨some (.conversationSync ⟨[memberIdOf 1, memberIdOf 0], 3, 1, 2, true,
      [⟨memberIdOf 0, -20⟩], some ConversationConfig.default.toTiming, 1, 2, true, -5, 3,
      [memberIdOf 2], 100⟩)⟩ := by
  decide

end DeMls.Ideal
