import DeMls.Lib.Program
import DeMls.Error
import DeMls.Mls.MemberId

/-!
# The MLS engine

`MlsService` wraps one OpenMLS group with a slot for a staged remote commit: build a commit
candidate, stage a peer's, merge or discard either, encrypt and decrypt application messages.
-/

namespace DeMls

open Program

/-! ## Types that cross the boundary -/

/-- A membership update: the members a merge added and, as pre-merge handles, those it removed. -/
structure MembershipDelta where
  added : List Member
  removed : List MemberId
deriving DecidableEq, Repr

def MembershipDelta.empty : MembershipDelta := ⟨[], []⟩

/-- A membership change the steward feeds into the commit pipeline. -/
inductive MlsCommitInput
  | add (keyPackageBytes : Bytes)
  | remove (memberId : Bytes)
deriving DecidableEq, Repr

/-- A membership change read off a commit: an Add by the joiner's signature key, a Remove by the
target's `member_id`. -/
inductive MlsProposalOutput
  | add (id : Bytes)
  | remove (id : Bytes)
deriving DecidableEq, Repr

inductive MlsMessageKind
  | proposal
  | commit
  | other
deriving DecidableEq, Repr

structure DecryptedMessage where
  payload : Bytes
  member : Member

/-- Outcome of staging a remote commit candidate. -/
inductive StagedCandidateResult
  | staged (commitSender : Bytes) (selfRemoved : Bool) (actions : List MlsProposalOutput)
  | aborted
  | bundleSenderMismatch (commitSender : Bytes)
deriving DecidableEq, Repr

structure CommitArtifacts where
  proposals : List Bytes
  commit : Bytes
  welcome : Option Bytes
deriving DecidableEq, Repr

/-! ## Groups -/

namespace MlsGroup

variable {Secrets : Type}

/-- The `member_id` of every current member. -/
def memberIds (g : MlsGroup Secrets) : List Bytes := g.members.map fun m => memberIdOf m.index

def memberAt (g : MlsGroup Secrets) (i : LeafNodeIndex) : Option Member :=
  g.members.find? fun m => m.index = i

/-- The leaf indices the group seats. -/
def populatedLeaves (g : MlsGroup Secrets) : List LeafNodeIndex := g.members.map Member.index

/-- What every member sees of the group: all but the secrets. -/
def publicPart (g : MlsGroup Secrets) : MlsGroup Unit := { g with secrets := () }

theorem memberAt_isSome_iff {g : MlsGroup Secrets} {i : LeafNodeIndex} :
    (g.memberAt i).isSome = true ↔ i ∈ g.populatedLeaves := by
  simp [memberAt, populatedLeaves]

theorem memberAt_index {g : MlsGroup Secrets} {i : LeafNodeIndex} {m : Member}
    (h : g.memberAt i = some m) : m.index = i := by
  simpa using List.find?_some h

theorem memberIdOf_mem_memberIds {g : MlsGroup Secrets} {i : LeafNodeIndex} :
    memberIdOf i ∈ g.memberIds ↔ i ∈ g.populatedLeaves := by
  simp [memberIds, populatedLeaves]

end MlsGroup

/-! ## Key packages -/

/-- Parse and validate a key package: the gate a joiner passes. -/
def validateKeyPackage (O : OpenMls) (keyPackageBytes : Bytes) : Except MlsError O.KeyPackage :=
  match O.deserializeKeyPackage keyPackageBytes with
  | .error e => .error (.keyPackageTls e)
  | .ok kpIn =>
    match O.validate kpIn with
    | .error e => .error (.mlsStorage e)
    | .ok kp => .ok kp

/-- The leaf signature key of a key package, read without validating it: the id a joiner is
tracked by until the Add commit gives it a leaf. -/
def signatureKeyOfKeyPackage (O : OpenMls) (keyPackageBytes : Bytes) : Except MlsError Bytes :=
  match O.deserializeKeyPackage keyPackageBytes with
  | .error e => .error (.keyPackageTls e)
  | .ok kpIn => .ok (O.unverifiedSignatureKey kpIn)

/-! ## The service -/

structure MlsService (O : OpenMls) where
  conversationId : Bytes
  group : MlsGroup O.Secrets
  pendingStagedCommit : Option O.StagedCommit

namespace MlsService

variable {O : OpenMls} {α : Type}

abbrev MlsM (O : OpenMls) := EStateM MlsError (MlsService O)

def setSecrets (m : MlsService O) (secrets : O.Secrets) : MlsService O :=
  { m with group := { m.group with secrets := secrets } }

/-- An OpenMLS operation that touches only the secrets, with its error boxed by `err`. -/
def onSecrets (err : String → MlsError) (f : MlsGroup O.Secrets → Except String α × O.Secrets) :
    MlsM O α := fun m =>
  match f m.group with
  | (.ok a, secrets) => .ok a (m.setSecrets secrets)
  | (.error e, secrets) => .error (err e) (m.setSecrets secrets)

/-- Lift an OpenMLS result that reads no state. -/
def lift (err : String → MlsError) (r : Except String α) : MlsM O α := ofResult (r.mapError err)

/-- A merge took effect: the tree is the new one and the epoch is the next. -/
def advanceEpoch (members : List Member) : MlsM O Unit :=
  modify fun m => { m with group := { m.group with epoch := m.group.epoch + 1, members := members } }

/-! ### Queries -/

/-- `members` of the source; it never fails. -/
def members (m : MlsService O) : List Bytes := m.group.memberIds

def isMember (m : MlsService O) (memberId : Bytes) : Bool :=
  match leafIndexOf memberId with
  | some i => (m.group.memberAt i).isSome
  | none => false

/-- The leaf a handle resolves to, or `none` when it is stale. -/
def leafOf (m : MlsService O) (id : MemberId) : Option LeafNodeIndex :=
  match m.group.memberAt id.leaf with
  | some member => if member.signatureKey = id.tag then some id.leaf else none
  | none => none

def memberIdAt (m : MlsService O) (memberId : Bytes) : Option MemberId :=
  match leafIndexOf memberId with
  | some i => (m.group.memberAt i).map MemberId.ofMember
  | none => none

/-! ### Outbound commit -/

/-- The proposals of a commit candidate, one per update, skipping removals of vacant leaves. -/
def createProposals : List MlsCommitInput → MlsM O (List Bytes)
  | [] => pure []
  | .add keyPackageBytes :: rest => do
    let kp ← ofResult (validateKeyPackage O keyPackageBytes)
    let out ← onSecrets .proposeAddMember fun g => O.proposeAddMember g kp
    let bytes ← lift .mlsMessageSerialize (O.toBytes out)
    let others ← createProposals rest
    pure (bytes :: others)
  | .remove memberId :: rest => do
    let m ← get
    match leafIndexOf memberId with
    | none => createProposals rest
    | some index =>
      if (m.group.memberAt index).isSome then do
        let out ← onSecrets .proposeRemoveMember fun g => O.proposeRemoveMember g index
        let bytes ← lift .mlsMessageSerialize (O.toBytes out)
        let others ← createProposals rest
        pure (bytes :: others)
      else
        createProposals rest

/-- Build a commit candidate from a batch of membership changes. It is pending in the group, not
applied. -/
def createCommitCandidate (updates : List MlsCommitInput) : MlsM O CommitArtifacts := do
  let proposals ← createProposals updates
  let (commitMsg, welcome) ← onSecrets .commitToPendingProposals O.commitToPendingProposals
  match welcome with
  | some w => do
    let welcomeBytes ← lift .mlsMessageSerialize (O.toBytes w)
    let commit ← lift .mlsMessageSerialize (O.toBytes commitMsg)
    pure ⟨proposals, commit, some welcomeBytes⟩
  | none => do
    let commit ← lift .mlsMessageSerialize (O.toBytes commitMsg)
    pure ⟨proposals, commit, none⟩

/-- The members a commit's Remove proposals vacate, as handles taken before the merge. -/
def removedMembersOf (g : MlsGroup O.Secrets) (staged : O.StagedCommit) : List MemberId :=
  (O.removeProposals staged).filterMap fun leaf => (g.memberAt leaf).map MemberId.ofMember

/-- Who was added or removed by the latest commit: new or recycled leaves are added, and
`removed` is what the Remove proposals vacated. -/
def delta (g : MlsGroup O.Secrets) (before : List LeafNodeIndex) (removed : List MemberId) :
    MembershipDelta where
  added := g.members.filter fun m => m.index ∉ before ∨ m.index ∈ removed.map MemberId.leaf
  removed := removed

/-- Apply our pending commit, advancing the epoch. With none pending nothing happens. -/
def mergeOwnCommit : MlsM O MembershipDelta := do
  let m ← get
  let removed := match O.pendingCommit m.group.secrets with
    | some staged => removedMembersOf m.group staged
    | none => []
  let before := m.group.populatedLeaves
  match ← onSecrets .mergePendingCommit O.mergePendingCommit with
  | some members => do
    advanceEpoch members
    let m' ← get
    pure (delta m'.group before removed)
  | none => do
    let m' ← get
    pure (delta m'.group before removed)

/-- Drop our pending commit and the pending proposals it carried. -/
def discardOwnCommit : MlsM O Unit := do
  onSecrets .mlsStorage fun g => O.clearPendingCommit g.secrets
  onSecrets .mlsStorage fun g => O.clearPendingProposals g.secrets

/-! ### Inbound commit -/

/-- Deserialize a wire message and require a protocol message in it. -/
def protocolMessageOf (O : OpenMls) (bytes : Bytes) : Except MlsError ProtocolMessage :=
  match O.deserializeMessage bytes with
  | .error e => .error (.mlsMessageDeserialize e)
  | .ok msg =>
    match O.protocolMessage msg with
    | none => .error .protocolMessage
    | some protocol => .ok protocol

/-- Stage every proposal of a candidate, collecting the senders; `none` aborts. -/
def stageProposals : List Bytes → MlsM O (Option (List Bytes))
  | [] => pure (some [])
  | bytes :: rest => do
    let protocol ← ofResult (protocolMessageOf O bytes)
    let processed ← onSecrets .processMessage fun g => O.processMessage g protocol
    match processed.sender, processed.content with
    | some index, .proposalMessage proposal => do
      onSecrets .mlsStorage fun g => O.storePendingProposal g.secrets proposal
      match ← stageProposals rest with
      | some senders => pure (some (memberIdOf index :: senders))
      | none => pure none
    | _, _ => pure none

/-- The membership changes a staged commit carries: Adds first, then Removes. -/
def stagedActions (O : OpenMls) (staged : O.StagedCommit) : List MlsProposalOutput :=
  (O.addProposals staged).map .add ++ (O.removeProposals staged).map fun i => .remove (memberIdOf i)

/-- Stage a commit against the proposals just stored, and hold it in the slot when every bundled
proposal came from the committer. -/
def stageCommit (senders : List Bytes) (commitBytes : Bytes) : MlsM O StagedCandidateResult := do
  let protocol ← ofResult (protocolMessageOf O commitBytes)
  let m ← get
  if protocol.groupId ≠ m.group.groupId then pure .aborted
  else if protocol.epoch < m.group.epoch then pure .aborted
  else do
    let processed ← onSecrets .processMessage fun g => O.processMessage g protocol
    match processed.sender, processed.content with
    | some index, .stagedCommitMessage staged =>
      if senders.any fun s => s ≠ memberIdOf index then
        pure (.bundleSenderMismatch (memberIdOf index))
      else do
        modify fun m => { m with pendingStagedCommit := some staged }
        pure (.staged (memberIdOf index) (O.selfRemoved staged) (stagedActions O staged))
    | _, _ => pure .aborted

/-- Stage a peer's commit candidate: its proposals, then the commit against them. -/
def stageRemoteCommit (proposals : List Bytes) (commitBytes : Bytes) :
    MlsM O StagedCandidateResult := do
  match ← stageProposals proposals with
  | none => pure .aborted
  | some senders => stageCommit senders commitBytes

/-- Apply the staged peer commit, advancing the epoch. Errors if nothing is staged. -/
def mergeStagedCommit : MlsM O MembershipDelta := do
  let m ← get
  match m.pendingStagedCommit with
  | none => throw (.noPendingStagedCommit m.conversationId)
  | some staged => do
    set { m with pendingStagedCommit := none }
    let removed := removedMembersOf m.group staged
    let before := m.group.populatedLeaves
    let members ← onSecrets .mergeCommit fun g => O.mergeStagedCommit g staged
    advanceEpoch members
    let m' ← get
    pure (delta m'.group before removed)

/-- Drop the staged peer commit and the pending proposals it staged on top of. -/
def discardStagedCommit : MlsM O Unit := do
  modify fun m => { m with pendingStagedCommit := none }
  onSecrets .mlsStorage fun g => O.clearPendingProposals g.secrets

/-! ### Application messages -/

/-- Encrypt an encoded application message. -/
def buildMessage (appBytes : Bytes) : MlsM O Bytes := do
  let out ← onSecrets .createMessage fun g => O.createMessage g appBytes
  lift .mlsMessageSerialize (O.toBytes out)

/-- Strict decrypt: a current-epoch application message of this group, or `none`. -/
def decryptApplicationOnly (ciphertext : Bytes) : MlsM O (Option DecryptedMessage) := do
  let protocol ← ofResult (protocolMessageOf O ciphertext)
  let m ← get
  if protocol.groupId ≠ m.group.groupId then pure none
  else if protocol.epoch ≠ m.group.epoch then pure none
  else if protocol.contentType ≠ .application then pure none
  else do
    let processed ← onSecrets .processMessage fun g => O.processMessage g protocol
    match processed.sender with
    | none => pure none
    | some index =>
      match m.group.memberAt index with
      | none => throw (.unknownLeafIndex index)
      | some member =>
        match processed.content with
        | .applicationMessage bytes => pure (some ⟨bytes, member⟩)
        | _ => pure none

/-- Peek a wire message's outer kind without processing it. -/
def inspectMessageKind (O : OpenMls) (bytes : Bytes) : Except MlsError MlsMessageKind :=
  match O.deserializeMessage bytes with
  | .error e => .error (.mlsMessageDeserialize e)
  | .ok msg =>
    match O.protocolMessage msg with
    | none => .ok .other
    | some protocol =>
      match protocol.contentType with
      | .proposal => .ok .proposal
      | .commit => .ok .commit
      | .application => .ok .other

def delete : MlsM O Unit := onSecrets .mlsStorage fun g => O.delete g.secrets

/-! ## What each operation leaves alone -/

/-- The public part of the service's group. -/
def publicPart (m : MlsService O) : MlsGroup Unit := m.group.publicPart

theorem frame_onSecrets (err : String → MlsError)
    (f : MlsGroup O.Secrets → Except String α × O.Secrets) :
    Frame publicPart (onSecrets err f) := by
  intro m
  unfold after onSecrets
  rcases f m.group with ⟨_ | _, secrets⟩ <;> rfl

theorem frame_lift (err : String → MlsError) (r : Except String α) :
    Frame publicPart (lift err r : MlsM O α) :=
  frame_ofResult _ _

theorem frame_createProposals (updates : List MlsCommitInput) :
    Frame publicPart (createProposals updates : MlsM O _) := by
  induction updates with
  | nil => exact frame_pure _ _
  | cons u rest ih =>
    cases u with
    | add kp =>
      refine frame_bind (frame_ofResult _ _) fun _ => ?_
      refine frame_bind (frame_onSecrets _ _) fun _ => ?_
      refine frame_bind (frame_lift _ _) fun _ => ?_
      exact frame_bind ih fun _ => frame_pure _ _
    | remove id =>
      unfold createProposals
      refine frame_bind (frame_get _) fun m => ?_
      split
      · exact ih
      · split_ifs
        · refine frame_bind (frame_onSecrets _ _) fun _ => ?_
          refine frame_bind (frame_lift _ _) fun _ => ?_
          exact frame_bind ih fun _ => frame_pure _ _
        · exact ih

theorem frame_createCommitCandidate (updates : List MlsCommitInput) :
    Frame publicPart (createCommitCandidate updates : MlsM O _) := by
  unfold createCommitCandidate
  refine frame_bind (frame_createProposals updates) fun _ => ?_
  refine frame_bind (frame_onSecrets _ _) fun ⟨_, welcome⟩ => ?_
  cases welcome with
  | some w =>
    refine frame_bind (frame_lift _ _) fun _ => ?_
    exact frame_bind (frame_lift _ _) fun _ => frame_pure _ _
  | none => exact frame_bind (frame_lift _ _) fun _ => frame_pure _ _

theorem frame_discardOwnCommit : Frame publicPart (discardOwnCommit : MlsM O _) :=
  frame_bind (frame_onSecrets _ _) fun _ => frame_onSecrets _ _

theorem frame_stageProposals (proposals : List Bytes) :
    Frame publicPart (stageProposals proposals : MlsM O _) := by
  induction proposals with
  | nil => exact frame_pure _ _
  | cons bytes rest ih =>
    unfold stageProposals
    refine frame_bind (frame_ofResult _ _) fun _ => ?_
    refine frame_bind (frame_onSecrets _ _) fun _ => ?_
    split
    · refine frame_bind (frame_onSecrets _ _) fun _ => ?_
      refine frame_bind ih fun _ => ?_
      split <;> exact frame_pure _ _
    · exact frame_pure _ _

theorem frame_stageCommit (senders : List Bytes) (commitBytes : Bytes) :
    Frame publicPart (stageCommit senders commitBytes : MlsM O _) := by
  unfold stageCommit
  refine frame_bind (frame_ofResult _ _) fun _ => ?_
  refine frame_bind (frame_get _) fun _ => ?_
  split_ifs
  · exact frame_pure _ _
  · exact frame_pure _ _
  · refine frame_bind (frame_onSecrets _ _) fun _ => ?_
    split
    · split_ifs
      · exact frame_pure _ _
      · exact frame_bind (frame_modify fun _ => rfl) fun _ => frame_pure _ _
    · exact frame_pure _ _

theorem frame_stageRemoteCommit (proposals : List Bytes) (commitBytes : Bytes) :
    Frame publicPart (stageRemoteCommit proposals commitBytes : MlsM O _) := by
  unfold stageRemoteCommit
  refine frame_bind (frame_stageProposals proposals) fun _ => ?_
  split
  · exact frame_pure _ _
  · exact frame_stageCommit _ _

theorem frame_discardStagedCommit : Frame publicPart (discardStagedCommit : MlsM O _) :=
  frame_bind (frame_modify fun _ => rfl) fun _ => frame_onSecrets _ _

theorem frame_buildMessage (appBytes : Bytes) :
    Frame publicPart (buildMessage appBytes : MlsM O _) :=
  frame_bind (frame_onSecrets _ _) fun _ => frame_lift _ _

theorem frame_decryptApplicationOnly (ciphertext : Bytes) :
    Frame publicPart (decryptApplicationOnly ciphertext : MlsM O _) := by
  unfold decryptApplicationOnly
  refine frame_bind (frame_ofResult _ _) fun _ => ?_
  refine frame_bind (frame_get _) fun _ => ?_
  split_ifs
  · exact frame_pure _ _
  · exact frame_pure _ _
  · exact frame_pure _ _
  · refine frame_bind (frame_onSecrets _ _) fun _ => ?_
    split
    · exact frame_pure _ _
    · split
      · exact frame_throw _ _
      · split <;> exact frame_pure _ _

theorem frame_delete : Frame publicPart (delete : MlsM O _) := frame_onSecrets _ _

/-! ## What a successful operation did -/

theorem onSecrets_ok {err : String → MlsError}
    {f : MlsGroup O.Secrets → Except String α × O.Secrets} {m m' : MlsService O} {a : α} :
    onSecrets err f m = .ok a m' ↔
      ∃ secrets, f m.group = (.ok a, secrets) ∧ m' = m.setSecrets secrets := by
  unfold onSecrets
  rcases f m.group with ⟨_ | b, secrets⟩
  · simp
  · constructor
    · rintro ⟨⟩
      exact ⟨secrets, rfl, rfl⟩
    · rintro ⟨_, ⟨⟩, rfl⟩
      rfl

/-- **Merging the staged commit.** It was in the slot, the slot is emptied, the tree is the one
the merge gave and the epoch is the next. -/
theorem mergeStagedCommit_ok {m m' : MlsService O} {d : MembershipDelta}
    (h : mergeStagedCommit m = .ok d m') :
    ∃ staged members secrets, m.pendingStagedCommit = some staged ∧
      O.mergeStagedCommit m.group staged = (.ok members, secrets) ∧
      m' = { m with
        group := { m.group with epoch := m.group.epoch + 1, members, secrets }
        pendingStagedCommit := none } ∧
      d = delta m'.group m.group.populatedLeaves (removedMembersOf m.group staged) := by
  unfold mergeStagedCommit at h
  simp only [bind_ok, get_apply, EStateM.Result.ok.injEq] at h
  obtain ⟨_, _, ⟨rfl, rfl⟩, h⟩ := h
  cases hslot : m.pendingStagedCommit with
  | none => simp [hslot] at h
  | some staged =>
    simp only [hslot, bind_ok, pure_ok, get_apply, EStateM.Result.ok.injEq] at h
    obtain ⟨_, _, hset, _, _, hmerge, _, _, hadv, _, _, ⟨rfl, rfl⟩, rfl, rfl⟩ := h
    cases hset
    obtain ⟨secrets, hm, rfl⟩ := onSecrets_ok.mp hmerge
    cases hadv
    exact ⟨staged, _, secrets, rfl, hm, rfl, rfl⟩

/-- **Merging our own commit.** Either a commit was pending and the group took its step, or
nothing was pending and the public part of the group is unchanged. -/
theorem mergeOwnCommit_ok {m m' : MlsService O} {d : MembershipDelta}
    (h : mergeOwnCommit m = .ok d m') :
    ∃ merged secrets, O.mergePendingCommit m.group = (.ok merged, secrets) ∧
      (match merged with
        | some members => m' = { m with
            group := { m.group with epoch := m.group.epoch + 1, members, secrets } }
        | none => m' = m.setSecrets secrets) ∧
      d = delta m'.group m.group.populatedLeaves
        (match O.pendingCommit m.group.secrets with
          | some staged => removedMembersOf m.group staged
          | none => []) := by
  unfold mergeOwnCommit at h
  simp only [bind_ok, get_apply, EStateM.Result.ok.injEq] at h
  obtain ⟨_, _, ⟨rfl, rfl⟩, merged, _, hmerge, h⟩ := h
  obtain ⟨secrets, hm, rfl⟩ := onSecrets_ok.mp hmerge
  refine ⟨merged, secrets, hm, ?_⟩
  split at h
  · simp only [bind_ok, pure_ok, get_apply, EStateM.Result.ok.injEq] at h
    obtain ⟨_, _, hadv, _, _, ⟨rfl, rfl⟩, rfl, rfl⟩ := h
    cases hadv
    exact ⟨rfl, rfl⟩
  · simp only [bind_ok, pure_ok, get_apply, EStateM.Result.ok.injEq] at h
    obtain ⟨_, _, ⟨rfl, rfl⟩, rfl, rfl⟩ := h
    exact ⟨rfl, rfl⟩

/-- A merge that failed left the public part of the group as it was. -/
theorem mergeStagedCommit_error {m m' : MlsService O} {e : MlsError}
    (h : mergeStagedCommit m = .error e m') : m'.publicPart = m.publicPart := by
  unfold mergeStagedCommit at h
  simp only [bind_error, get_apply, EStateM.Result.ok.injEq, reduceCtorEq, false_or] at h
  obtain ⟨_, _, ⟨rfl, rfl⟩, h⟩ := h
  cases hslot : m.pendingStagedCommit with
  | none =>
    rw [hslot] at h
    cases h
    rfl
  | some staged =>
    simp only [hslot, bind_error, pure_error, get_apply, or_false, reduceCtorEq,
      EStateM.Result.ok.injEq, and_false, exists_false] at h
    rcases h with hset | ⟨_, _, hset, hmerge | ⟨_, _, _, hadv⟩⟩
    · cases hset
    · cases hset
      have := (frame_onSecrets _ _).error hmerge
      exact this
    · cases hadv

theorem mergeOwnCommit_error {m m' : MlsService O} {e : MlsError}
    (h : mergeOwnCommit m = .error e m') : m'.publicPart = m.publicPart := by
  unfold mergeOwnCommit at h
  simp only [bind_error, get_apply, EStateM.Result.ok.injEq, reduceCtorEq, false_or] at h
  obtain ⟨_, _, ⟨rfl, rfl⟩, hmerge | ⟨merged, _, _, h⟩⟩ := h
  · exact (frame_onSecrets _ _).error hmerge
  · cases merged with
    | some members =>
      simp only [bind_error, pure_error, get_apply, or_false, reduceCtorEq, and_false,
        exists_false] at h
      cases h
    | none =>
      simp only [bind_error, pure_error, get_apply, reduceCtorEq, false_or,
        and_false, exists_false] at h

/-- A staged commit OpenMLS made of a message it processed on this group, whatever its secrets. -/
def Processed (O : OpenMls) (g : MlsGroup Unit) (staged : O.StagedCommit) : Prop :=
  ∃ h message sender secrets, h.publicPart = g ∧
    O.processMessage h message = (.ok ⟨sender, .stagedCommitMessage staged⟩, secrets)

/-- **Staging.** A candidate that staged is held in the slot, and what staging reports is read
off it. -/
theorem stageCommit_staged {senders : List Bytes} {commitBytes sender : Bytes} {selfRemoved : Bool}
    {actions : List MlsProposalOutput} {m m' : MlsService O}
    (h : stageCommit senders commitBytes m = .ok (.staged sender selfRemoved actions) m') :
    ∃ staged, m'.pendingStagedCommit = some staged ∧ selfRemoved = O.selfRemoved staged ∧
      actions = stagedActions O staged ∧ Processed O m.publicPart staged := by
  unfold stageCommit at h
  simp only [bind_ok, get_apply, EStateM.Result.ok.injEq] at h
  obtain ⟨_, n, hmessage, _, _, ⟨rfl, rfl⟩, h⟩ := h
  have hn := (frame_ofResult publicPart _).ok hmessage
  split_ifs at h
  · simp at h
  · simp at h
  · simp only [bind_ok] at h
    obtain ⟨⟨signer, content⟩, _, hprocess, h⟩ := h
    obtain ⟨secrets, hprocess, _⟩ := onSecrets_ok.mp hprocess
    cases signer with
    | none => simp at h
    | some index =>
      cases content with
      | stagedCommitMessage staged =>
        dsimp only at h
        split_ifs at h
        · simp at h
        · simp only [bind_ok, pure_ok, modify_apply, EStateM.Result.ok.injEq] at h
          obtain ⟨_, _, ⟨_, rfl⟩, ⟨⟩, rfl⟩ := h
          exact ⟨staged, rfl, rfl, rfl, n.group, _, _, secrets, hn, hprocess⟩
      | applicationMessage | proposalMessage | other => simp at h

theorem stageRemoteCommit_staged {proposals : List Bytes} {commitBytes sender : Bytes}
    {selfRemoved : Bool} {actions : List MlsProposalOutput} {m m' : MlsService O}
    (h : stageRemoteCommit proposals commitBytes m = .ok (.staged sender selfRemoved actions) m') :
    ∃ staged, m'.pendingStagedCommit = some staged ∧ selfRemoved = O.selfRemoved staged ∧
      actions = stagedActions O staged ∧ Processed O m.publicPart staged := by
  unfold stageRemoteCommit at h
  simp only [bind_ok] at h
  obtain ⟨senders, n, hproposals, h⟩ := h
  have hn := (frame_stageProposals _).ok hproposals
  cases senders with
  | none => simp at h
  | some senders =>
    obtain ⟨staged, hslot, hself, hactions, hprocessed⟩ := stageCommit_staged h
    exact ⟨staged, hslot, hself, hactions, hn ▸ hprocessed⟩

/-- OpenMLS without storage errors: a commit processed on a group merges into it, a member's own
pending commit merges, and dropping pending state works. -/
structure Reliable (O : OpenMls) : Prop where
  clearPendingCommit (s : O.Secrets) : ∃ secrets, O.clearPendingCommit s = (.ok (), secrets)
  clearPendingProposals (s : O.Secrets) : ∃ secrets, O.clearPendingProposals s = (.ok (), secrets)
  mergePendingCommit (g : MlsGroup O.Secrets) (hown : g.ownLeafIndex ∈ g.populatedLeaves) :
    ∃ merged secrets, O.mergePendingCommit g = (.ok merged, secrets)
  mergeStagedCommit (g : MlsGroup O.Secrets) (staged : O.StagedCommit)
    (hprocessed : Processed O g.publicPart staged) :
    ∃ members secrets, O.mergeStagedCommit g staged = (.ok members, secrets)

theorem discardOwnCommit_total (hO : Reliable O) (m : MlsService O) :
    ∃ m', discardOwnCommit m = .ok () m' ∧ m'.pendingStagedCommit = m.pendingStagedCommit := by
  obtain ⟨s, hs⟩ := hO.clearPendingCommit m.group.secrets
  obtain ⟨s', hs'⟩ := hO.clearPendingProposals s
  refine ⟨(m.setSecrets s).setSecrets s', ?_, rfl⟩
  unfold discardOwnCommit
  rw [bind_ok]
  exact ⟨(), m.setSecrets s, onSecrets_ok.mpr ⟨s, hs, rfl⟩, onSecrets_ok.mpr ⟨s', hs', rfl⟩⟩

theorem mergeOwnCommit_total (hO : Reliable O) (m : MlsService O)
    (hown : m.group.ownLeafIndex ∈ m.group.populatedLeaves) :
    ∃ d m', mergeOwnCommit m = .ok d m' := by
  obtain ⟨merged, secrets, hmerge⟩ := hO.mergePendingCommit m.group hown
  have hrun : (onSecrets .mergePendingCommit O.mergePendingCommit : MlsM O _) m =
      .ok merged (m.setSecrets secrets) := onSecrets_ok.mpr ⟨secrets, hmerge, rfl⟩
  unfold mergeOwnCommit
  simp only [bind_ok, get_apply, EStateM.Result.ok.injEq]
  cases merged with
  | none => exact ⟨_, _, m, m, ⟨rfl, rfl⟩, none, _, hrun, rfl⟩
  | some members => exact ⟨_, _, m, m, ⟨rfl, rfl⟩, some members, _, hrun, rfl⟩

theorem mergeStagedCommit_total (hO : Reliable O) (m : MlsService O) {staged : O.StagedCommit}
    (hslot : m.pendingStagedCommit = some staged)
    (hprocessed : Processed O m.publicPart staged) :
    ∃ d m', mergeStagedCommit m = .ok d m' := by
  obtain ⟨members, secrets, hmerge⟩ := hO.mergeStagedCommit m.group staged hprocessed
  let m' : MlsService O := { m with
    group := { m.group with epoch := m.group.epoch + 1, members, secrets }
    pendingStagedCommit := none }
  refine ⟨delta m'.group m.group.populatedLeaves (removedMembersOf m.group staged), m', ?_⟩
  unfold mergeStagedCommit
  rw [bind_ok]
  refine ⟨m, m, rfl, ?_⟩
  simp only [hslot, bind_ok]
  exact ⟨(), _, rfl, members, _, onSecrets_ok.mpr ⟨secrets, hmerge, rfl⟩, (), _, rfl, _, _, rfl, rfl⟩

end MlsService

/-! ## The roster after a merge -/

/-- Signature keys a merged commit admits. -/
def admittedBy (O : OpenMls) : Option O.StagedCommit → List Bytes
  | some staged => O.addProposals staged
  | none => []

/-- The leaves a merged commit removes. -/
def removedBy (O : OpenMls) : Option O.StagedCommit → List LeafNodeIndex
  | some staged => O.removeProposals staged
  | none => []

/-- The roster a commit leaves: a leaf it does not remove keeps its occupant, and whoever is new
was admitted by it. -/
structure Reseats (O : OpenMls) (staged : Option O.StagedCommit) (before after : List Member) :
    Prop where
  stays : ∀ l m, before.find? (fun m => m.index = l) = some m → l ∉ removedBy O staged →
    after.find? (fun m => m.index = l) = some m
  origin : ∀ m ∈ after, m ∈ before ∨ m.signatureKey ∈ admittedBy O staged

/-- OpenMLS merges a commit as MLS prescribes: its own pending one, or one it processed on the
group it merges into. -/
structure FollowsCommits (O : OpenMls) : Prop where
  own : ∀ g members secrets, O.mergePendingCommit g = (.ok (some members), secrets) →
    Reseats O (O.pendingCommit g.secrets) g.members members
  remote : ∀ g staged members secrets, MlsService.Processed O g.publicPart staged →
    O.mergeStagedCommit g staged = (.ok members, secrets) →
    Reseats O (some staged) g.members members

end DeMls
