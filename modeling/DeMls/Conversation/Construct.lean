import DeMls.Conversation.Messaging

/-!
# Joining

A joiner opens its group from a welcome, assembles the conversation around it, announces itself,
and replays the bootstrap sync that came with the welcome.
-/

namespace DeMls

open Program

/-! ## The id of a group -/

/-- The lead bytes of multi-byte characters: how many bytes follow, and the range of the first. -/
def utf8Tail (lead : UInt8) : Option (Nat × UInt8 × UInt8) :=
  if 0xC2 ≤ lead ∧ lead ≤ 0xDF then some (1, 0x80, 0xBF)
  else if lead = 0xE0 then some (2, 0xA0, 0xBF)
  else if lead = 0xED then some (2, 0x80, 0x9F)
  else if 0xE1 ≤ lead ∧ lead ≤ 0xEF then some (2, 0x80, 0xBF)
  else if lead = 0xF0 then some (3, 0x90, 0xBF)
  else if 0xF1 ≤ lead ∧ lead ≤ 0xF3 then some (3, 0x80, 0xBF)
  else if lead = 0xF4 then some (3, 0x80, 0x8F)
  else none

/-- How many of the first `n` bytes continue a character, the first one in its own range. -/
def continuing : Nat → UInt8 → UInt8 → Bytes → Nat
  | n + 1, low, high, b :: rest =>
    if low ≤ b ∧ b ≤ high then continuing n 0x80 0xBF rest + 1 else 0
  | _, _, _, _ => 0

/-- The first character or ill-formed part of a text: whether it is well formed, and how many
bytes follow the first. -/
def utf8Head (lead : UInt8) (rest : Bytes) : Bool × Nat :=
  if lead < 0x80 then (true, 0)
  else
    match utf8Tail lead with
    | none => (false, 0)
    | some (n, low, high) =>
      let got := continuing n low high rest
      (decide (got = n), got)

/-- The text from a byte on, the first `skip` of them being out already. -/
def lossyFrom : Nat → Bytes → Bytes
  | _, [] => []
  | skip + 1, _ :: rest => lossyFrom skip rest
  | 0, lead :: rest =>
    let head := utf8Head lead rest
    (if head.1 then lead :: rest.take head.2 else [0xEF, 0xBF, 0xBD]) ++ lossyFrom head.2 rest

/-- `String::from_utf8_lossy`: every maximal ill-formed part becomes U+FFFD. -/
def fromUtf8Lossy : Bytes → Bytes := lossyFrom 0

/-- A character of two bytes passes, one of three that breaks off is replaced. -/
example : fromUtf8Lossy [0x61, 0xC3, 0xA9, 0xE2, 0x82, 0x62] =
    [0x61, 0xC3, 0xA9, 0xEF, 0xBF, 0xBD, 0x62] := by
  decide

/-! ## Welcomes -/

/-- The two errors that say that a welcome is for somebody else, and the others. -/
inductive WelcomeError
  | noMatchingKeyPackage
  | joinerSecretNotFound
  | other (message : String)
deriving DecidableEq, Repr

/-- The operations of OpenMLS that open a group from a welcome, over the keys of one provider. -/
structure OpenMlsWelcome (O : OpenMls) where
  Welcome : Type
  StagedWelcome : Type
  /-- The welcome inside a message, if it is one. -/
  extract : O.MessageIn → Option Welcome
  /-- `StagedWelcome::new_from_welcome`. -/
  newFromWelcome : Welcome → Except WelcomeError StagedWelcome
  intoGroup : StagedWelcome → Except String (MlsGroup O.Secrets)

/-- Join a group from a welcome; `none` when it addresses none of our key packages. -/
def MlsService.newFromWelcome {O : OpenMls} (W : OpenMlsWelcome O) (welcomeBytes : Bytes) :
    Except MlsError (Option (MlsService O)) :=
  match O.deserializeMessage welcomeBytes with
  | .error e => .error (.mlsMessageDeserialize e)
  | .ok message =>
    match W.extract message with
    | none => .ok none
    | some welcome =>
      match W.newFromWelcome welcome with
      | .error .noMatchingKeyPackage | .error .joinerSecretNotFound => .ok none
      | .error (.other e) => .error (.welcome e)
      | .ok staged =>
        match W.intoGroup staged with
        | .error e => .error (.welcome e)
        | .ok group => .ok (some ⟨fromUtf8Lossy group.groupId, group, none⟩)

namespace Conversation

variable {P : Platform}

/-! ## Joining -/

/-- What a joiner does once it is assembled. -/
def settleIn (conversationSyncBytes : Bytes) : ConvM P Unit := do
  onJoined
  applyWelcomeSync conversationSyncBytes

/-- Join a conversation from a welcome and the sync that came with it; `none` when the welcome is
not for us. -/
def join (W : OpenMlsWelcome P.mls) (welcomeBytes conversationSyncBytes : Bytes)
    (consensus : P.consensus.State) (scoring : PeerScoringService P.scores) (now : Nat)
    (appId : Bytes) (config : ConversationConfig) :
    Except ConversationError (Option (Conversation P)) :=
  match MlsService.newFromWelcome W welcomeBytes with
  | .error e => .error (.mls e)
  | .ok none => .ok none
  | .ok (some mls) =>
    match assemble mls scoring consensus now appId config false with
    | .error e => .error e
    | .ok conversation =>
      match settleIn conversationSyncBytes conversation with
      | .error e _ => .error e
      | .ok () conversation => .ok (some conversation)

end Conversation

end DeMls
