import DeMls.Conversation.Standing

/-!
# What a packet opens to

A packet is a plaintext envelope or a ciphertext of the current epoch. `decodeInbound_opens` is the
run of a ciphertext that opens: it gives the message and its authenticated sender to the checks of
`classifyAppMessage`, and nothing but the secrets of the group moves.
-/

namespace DeMls

open Program

variable {P : Platform}

namespace Conversation

/-- The envelopes that are read before any decryption. -/
def isPlaintext (P : Platform) (payload : Bytes) : Bool :=
  match P.codec.decodeApp payload with
  | .ok ⟨some (.commitCandidate _)⟩ => true
  | .ok ⟨some (.memberWelcome _)⟩ => true
  | _ => false

/-- The packet is a ciphertext of the group, from `member`, and it holds `message`. -/
structure Opens (c : Conversation P) (payload : Bytes) (message : AppMessage) (member : Member) :
    Prop where
  ciphertext : isPlaintext P payload = false
  decrypts : ∃ bytes mls, MlsService.decryptApplicationOnly payload c.mls =
    .ok (some ⟨bytes, member⟩) mls ∧ P.codec.decodeApp bytes = .ok message

/-- What is not a plaintext envelope is decrypted. -/
theorem decodeInbound_of_ciphertext {payload : Bytes} (h : isPlaintext P payload = false)
    (c : Conversation P) : (decodeInbound payload : ConvM P _) c = decodeEncrypted payload c := by
  unfold decodeInbound
  rw [bind_run _ (get_apply c)]
  unfold isPlaintext at h
  rcases hdecode : P.codec.decodeApp payload with e | ⟨_ | envelope⟩
  · rfl
  · rfl
  · rw [hdecode] at h
    cases envelope with
    | commitCandidate candidate => cases h
    | memberWelcome welcome => cases h
    | _ => rfl

section
variable {c : Conversation P} {payload : Bytes}

theorem onMls_decrypt {decrypted : Option DecryptedMessage} {mls : MlsService P.mls}
    (h : MlsService.decryptApplicationOnly payload c.mls = .ok decrypted mls) :
    (onMls (MlsService.decryptApplicationOnly payload) : ConvM P _) c =
      .ok decrypted { c with mls := mls } :=
  (zoom_ok _ _ _ _ _ _).mpr ⟨mls, h, rfl⟩

/-- **A packet that opens** is classified on the same group, with other secrets. -/
theorem decodeInbound_opens {message : AppMessage} {member : Member}
    (h : c.Opens payload message member) :
    ∃ mls : MlsService P.mls, mls.publicPart = c.mls.publicPart ∧
      (decodeInbound payload : ConvM P _) c =
        .ok (classifyAppMessage mls message member) { c with mls := mls } := by
  obtain ⟨bytes, mls, hdecrypt, hmessage⟩ := h.decrypts
  refine ⟨mls, (MlsService.frame_decryptApplicationOnly payload).ok hdecrypt, ?_⟩
  rw [decodeInbound_of_ciphertext h.ciphertext]
  unfold decodeEncrypted
  rw [bind_run _ (onMls_decrypt hdecrypt)]
  dsimp only
  rw [bind_run _ (ofResult_of_ok hmessage _ _), bind_run _ (get_apply _)]
  rfl

/-- A ciphertext of another group or epoch is ignored. -/
theorem decodeInbound_ignored {mls : MlsService P.mls} (hplain : isPlaintext P payload = false)
    (hdecrypt : MlsService.decryptApplicationOnly payload c.mls = .ok none mls) :
    (decodeInbound payload : ConvM P _) c = .ok (.noop .decryptIgnored) { c with mls := mls } := by
  rw [decodeInbound_of_ciphertext hplain]
  unfold decodeEncrypted
  rw [bind_run _ (onMls_decrypt hdecrypt)]
  rfl

/-- A ciphertext that decrypts to something is read as a message. -/
theorem exists_message_of_decodeInbound {mls : MlsService P.mls} {bytes : Bytes} {member : Member}
    (hplain : isPlaintext P payload = false)
    (hdecrypt : MlsService.decryptApplicationOnly payload c.mls = .ok (some ⟨bytes, member⟩) mls)
    {result : ProcessResult} {d : Conversation P}
    (hdecode : (decodeInbound payload : ConvM P _) c = .ok result d) :
    ∃ message, P.codec.decodeApp bytes = .ok message := by
  rw [decodeInbound_of_ciphertext hplain] at hdecode
  unfold decodeEncrypted at hdecode
  rw [bind_run _ (onMls_decrypt hdecrypt)] at hdecode
  obtain ⟨message, _, hread, _⟩ := (bind_ok _ _ _ _ _).mp hdecode
  cases hmessage : P.codec.decodeApp bytes with
  | ok message => exact ⟨message, rfl⟩
  | error e =>
    cases ((ofResult_ok _ _ _ _).mp hread).1.symm.trans
      (congrArg (Except.mapError ConversationError.message) hmessage)

/-- A ciphertext that is decoded has been decrypted. -/
theorem exists_decrypted_of_decodeInbound (hplain : isPlaintext P payload = false)
    {result : ProcessResult} {d : Conversation P}
    (hdecode : (decodeInbound payload : ConvM P _) c = .ok result d) :
    ∃ decrypted mls, MlsService.decryptApplicationOnly payload c.mls = .ok decrypted mls := by
  rw [decodeInbound_of_ciphertext hplain] at hdecode
  unfold decodeEncrypted at hdecode
  obtain ⟨decrypted, _, hmls, _⟩ := (bind_ok _ _ _ _ _).mp hdecode
  obtain ⟨mls, hmls, _⟩ := (zoom_ok _ _ _ _ _ _).mp hmls
  exact ⟨decrypted, mls, hmls⟩

end

end Conversation

end DeMls
