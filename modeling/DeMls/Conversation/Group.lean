import DeMls.Lib.Network
import DeMls.Conversation.Lifetime
import DeMls.Conversation.Packets

/-!
# A group on a network

Nodes of a conversation send each other packets over a network that loses, delays, repeats and
reorders them, adds packets of its own and changes what it likes, as long as it forges no
ciphertext: what a node decrypts was sealed by some node before. Then whatever chat is handed to an
integrator was sent, word for word and under its conversation's name, by the member it is
attributed to (`chat_sent`). Chat has no other way in: the envelopes that are read in the clear
carry none, and the code seals chat in `send_message` and in the announcement of a joiner only.
-/

namespace DeMls

open Program Relation

variable {P : Platform}

/-! ## What MLS and the codec promise -/

/-- A ciphertext decrypts to what was encrypted, from the leaf that encrypted it. -/
def OpenMls.Authentic (O : OpenMls) : Prop :=
  ∀ g g' data out payload protocol processed bytes, (O.createMessage g data).1 = .ok out →
    O.toBytes out = .ok payload → MlsService.protocolMessageOf O payload = .ok protocol →
    (O.processMessage g' protocol).1 = .ok processed →
    processed.content = .applicationMessage bytes →
    bytes = data ∧ processed.sender = some g.ownLeafIndex

/-- What is read is what was written, as far as envelopes and chat go, and no ciphertext reads as an
envelope. -/
structure Platform.ReadsBack (P : Platform) : Prop where
  candidate : ∀ m, ∃ read,
    P.codec.decodeApp (P.codec.encodeApp ⟨some (.commitCandidate m)⟩) =
      .ok ⟨some (.commitCandidate read)⟩
  welcome : ∀ w, P.codec.decodeApp (P.codec.encodeApp ⟨some (.memberWelcome w)⟩) =
    .ok ⟨some (.memberWelcome w)⟩
  chat : ∀ message read, P.codec.decodeApp (P.codec.encodeApp message) = .ok read →
    read.isChat = true → read = message
  ciphertext : ∀ g data out payload, (P.mls.createMessage g data).1 = .ok out →
    P.mls.toBytes out = .ok payload → Conversation.isPlaintext P payload = false

namespace MlsService

variable {O : OpenMls}

theorem createMessage_of_built {m m' : MlsService O} {data payload : Bytes}
    (h : buildMessage data m = .ok payload m') :
    ∃ out, (O.createMessage m.group data).1 = .ok out ∧ O.toBytes out = .ok payload := by
  unfold buildMessage at h
  obtain ⟨out, u, hcreate, hlift⟩ := (bind_ok _ _ _ _ _).mp h
  obtain ⟨secrets, hrun, _⟩ := onSecrets_ok.mp hcreate
  refine ⟨out, congrArg Prod.fst hrun, ?_⟩
  unfold lift at hlift
  cases hbytes : O.toBytes out with
  | error e =>
    rw [hbytes] at hlift
    cases hlift
  | ok bytes =>
    rw [hbytes] at hlift
    cases hlift
    rfl

/-- What is decrypted was encrypted by the member it is attributed to. -/
theorem authentic_of_decrypted (hO : O.Authentic) {m m' n n' : MlsService O} {data payload : Bytes}
    {read : DecryptedMessage} (hbuild : buildMessage data m = .ok payload m')
    (h : decryptApplicationOnly payload n = .ok (some read) n') :
    read.payload = data ∧ read.member.index = m.group.ownLeafIndex := by
  obtain ⟨out, hcreate, hbytes⟩ := createMessage_of_built hbuild
  unfold decryptApplicationOnly at h
  obtain ⟨protocol, _, hprotocol, h⟩ := (bind_ok _ _ _ _ _).mp h
  obtain ⟨hparsed, rfl⟩ := (ofResult_ok _ _ _ _).mp hprotocol
  rw [bind_run _ (get_apply _)] at h
  split_ifs at h
  · cases ((pure_ok _ _ _ _).mp h).1
  · cases ((pure_ok _ _ _ _).mp h).1
  · cases ((pure_ok _ _ _ _).mp h).1
  · obtain ⟨processed, u, hprocess, h⟩ := (bind_ok _ _ _ _ _).mp h
    obtain ⟨secrets, hprocess, _⟩ := onSecrets_ok.mp hprocess
    cases hsender : processed.sender with
    | none =>
      rw [hsender] at h
      cases ((pure_ok _ _ _ _).mp h).1
    | some index =>
      rw [hsender] at h
      dsimp only at h
      cases hmember : n.group.memberAt index with
      | none =>
        rw [hmember] at h
        cases h
      | some member =>
        rw [hmember] at h
        dsimp only at h
        cases hcontent : processed.content with
        | applicationMessage bytes =>
          rw [hcontent] at h
          cases ((pure_ok _ _ _ _).mp h).1
          obtain ⟨hdata, hfrom⟩ := hO _ _ _ _ _ _ _ _ hcreate hbytes hparsed
            (congrArg Prod.fst hprocess) hcontent
          rw [hsender, Option.some.injEq] at hfrom
          have hindex : member.index = index := by simpa using List.find?_some hmember
          exact ⟨hdata, hindex.trans hfrom⟩
        | _ =>
          rw [hcontent] at h
          cases ((pure_ok _ _ _ _).mp h).1

end MlsService

namespace Conversation

/-! ## The leaf of a node -/

def ownLeaf (c : Conversation P) : LeafNodeIndex := c.mls.group.ownLeafIndex

/-- No act moves the node to another leaf. -/
theorem Act.ownLeaf {src : Sources} {c d : Conversation P} (h : Act src c d) :
    d.ownLeaf = c.ownLeaf := by
  cases h with
  | @round _ r t _ h =>
    cases hmerged : r.merged with
    | none => exact (members_of_visible (finalizeCommitRound_not_merged h hmerged).1).2.2.2
    | some merged => exact (finalizeCommitRound_merged h hmerged).1.tree.ownLeafIndex
  | roundFailed h => exact (members_of_visible (finalizeCommitRound_error h)).2.2.2
  | secrets h => exact ownLeafIndex_of_publicPart (h.frame c.mls)
  | genesis _ =>
    show (after MlsService.mergeOwnCommit c.mls).group.ownLeafIndex = c.mls.group.ownLeafIndex
    cases hrun : MlsService.mergeOwnCommit c.mls with
    | error e m =>
      rw [after_of_error hrun]
      exact ownLeafIndex_of_publicPart (MlsService.mergeOwnCommit_error hrun)
    | ok delta m =>
      rw [after_of_ok hrun]
      obtain ⟨merged, secrets, _, hgroup, _⟩ := MlsService.mergeOwnCommit_ok hrun
      cases merged <;>
        · subst hgroup
          rfl
  | _ => rfl

/-! ## Accounts -/

/-- A message at the leaf it is said at. -/
abbrev Utterance := LeafNodeIndex × AppMessage

/-- A sealed message, said at the leaf that sealed it if it is chat. -/
def SealedBy (P : Platform) (said : Utterance → Prop) (payload : Bytes) : Prop :=
  ∃ (m m' : MlsService P.mls) (message : AppMessage),
    MlsService.buildMessage (P.codec.encodeApp message) m = .ok payload m' ∧
      (message.isChat = true → said (m.group.ownLeafIndex, message))

/-- What a packet is. -/
inductive Accounted (P : Platform) (said : Utterance → Prop) : Bytes → Prop
  | sealed {payload : Bytes} (h : SealedBy P said payload) : Accounted P said payload
  | welcome {w : MemberWelcome}
      (h : w.conversationSyncBytes = [] ∨ SealedBy P said w.conversationSyncBytes) :
      Accounted P said (P.codec.encodeApp ⟨some (.memberWelcome w)⟩)
  | candidate (m : CommitCandidate) :
      Accounted P said (P.codec.encodeApp ⟨some (.commitCandidate m)⟩)

/-- A node accounts for the chat it hands over and for its packets. -/
structure Honest (said : Utterance → Prop) (c : Conversation P) : Prop where
  heard : ∀ message sender, .conversationMessage message sender ∈ c.pendingEvents →
    said (sender.index, message)
  put : ∀ packet ∈ c.pendingOutbound, Accounted P said packet.payload

/-- Chat that a packet opens to was said by its sender. -/
def Fair (P : Platform) (said : Utterance → Prop) (payload : Bytes) : Prop :=
  ∀ (c : Conversation P) message sender, c.Opens payload message sender → message.isChat = true →
    said (sender.index, message)

/-- What a node has put out: its packets, and the syncs in its welcomes. -/
def PutOut (c : Conversation P) (payload : Bytes) : Prop :=
  (∃ packet ∈ c.pendingOutbound, packet.payload = payload) ∨
    ∃ packet ∈ c.pendingOutbound, ∃ w : MemberWelcome,
      packet.payload = P.codec.encodeApp ⟨some (.memberWelcome w)⟩ ∧
        w.conversationSyncBytes = payload ∧ payload ≠ []

variable {said more : Utterance → Prop}

theorem SealedBy.mono (hmore : ∀ k, said k → more k) {payload : Bytes}
    (h : SealedBy P said payload) : SealedBy P more payload := by
  obtain ⟨m, m', message, hbuild, hsaid⟩ := h
  exact ⟨m, m', message, hbuild, fun hchat => hmore _ (hsaid hchat)⟩

theorem Accounted.mono (hmore : ∀ k, said k → more k) {payload : Bytes}
    (h : Accounted P said payload) : Accounted P more payload := by
  cases h with
  | sealed h => exact .sealed (h.mono hmore)
  | welcome h => exact .welcome (h.imp_right (SealedBy.mono hmore))
  | candidate m => exact .candidate m

theorem Honest.mono (hmore : ∀ k, said k → more k) {c : Conversation P} (h : Honest said c) :
    Honest more c :=
  ⟨fun message sender hm => hmore _ (h.heard message sender hm),
    fun packet hp => (h.put packet hp).mono hmore⟩

theorem SealedBy.fair (hO : P.mls.Authentic) (hP : P.ReadsBack) {payload : Bytes}
    (h : SealedBy P said payload) : Fair P said payload := by
  intro c message sender hopens hchat
  obtain ⟨m, m', written, hbuild, hsaid⟩ := h
  obtain ⟨bytes, mls, hdecrypt, hdecode⟩ := hopens.decrypts
  obtain ⟨rfl, hindex⟩ := MlsService.authentic_of_decrypted hO hbuild hdecrypt
  obtain rfl := hP.chat _ _ hdecode hchat
  rw [show sender.index = m.group.ownLeafIndex from hindex]
  exact hsaid hchat

theorem isPlaintext_welcome (hP : P.ReadsBack) (w : MemberWelcome) :
    isPlaintext P (P.codec.encodeApp ⟨some (.memberWelcome w)⟩) = true := by
  unfold isPlaintext
  rw [hP.welcome w]

theorem isPlaintext_candidate (hP : P.ReadsBack) (m : CommitCandidate) :
    isPlaintext P (P.codec.encodeApp ⟨some (.commitCandidate m)⟩) = true := by
  obtain ⟨read, hread⟩ := hP.candidate m
  unfold isPlaintext
  rw [hread]

/-- A ciphertext is no envelope. -/
theorem SealedBy.ciphertext (hP : P.ReadsBack) {payload : Bytes} (h : SealedBy P said payload) :
    isPlaintext P payload = false := by
  obtain ⟨m, m', message, hbuild, _⟩ := h
  obtain ⟨out, hcreate, hbytes⟩ := MlsService.createMessage_of_built hbuild
  exact hP.ciphertext _ _ _ _ hcreate hbytes

/-- An envelope opens to nothing. -/
theorem fair_of_plaintext {payload : Bytes} (h : isPlaintext P payload = true) :
    Fair P said payload := by
  intro c message sender hopens _
  rw [hopens.ciphertext] at h
  cases h

/-- Whatever an honest node puts out is fair. -/
theorem Honest.fair (hO : P.mls.Authentic) (hP : P.ReadsBack) {c : Conversation P}
    (h : Honest said c) {payload : Bytes} (hout : c.PutOut payload) : Fair P said payload := by
  rcases hout with ⟨packet, hpacket, rfl⟩ | ⟨packet, hpacket, w, hw, rfl, hne⟩
  · have haccount := h.put packet hpacket
    generalize packet.payload = bytes at haccount
    cases haccount with
    | sealed h => exact h.fair hO hP
    | welcome h => exact fair_of_plaintext (isPlaintext_welcome hP _)
    | candidate m => exact fair_of_plaintext (isPlaintext_candidate hP m)
  · -- The packet is the welcome that it reads as.
    have haccount := h.put packet hpacket
    rw [hw] at haccount
    generalize hbytes : P.codec.encodeApp ⟨some (.memberWelcome w)⟩ = bytes at haccount
    cases haccount with
    | sealed h =>
      rw [← hbytes] at h
      have hplain := h.ciphertext hP
      rw [isPlaintext_welcome hP w] at hplain
      cases hplain
    | @welcome w' h =>
      have hread := hP.welcome w
      rw [hbytes, hP.welcome w'] at hread
      cases hread
      exact (h.resolve_left hne).fair hO hP
    | candidate m =>
      obtain ⟨read, hread⟩ := hP.candidate m
      rw [← hbytes, hP.welcome w] at hread
      cases hread

/-- **Acts are honest**, where what comes in from outside and what is said are accounted for. -/
theorem Act.honest {src : Sources} {c d : Conversation P}
    (hread : ∀ message sender, src.message message sender → message.isChat = true →
      said (sender.index, message))
    (hsaid : ∀ message, src.chat message → said (c.ownLeaf, message)) (h : Act src c d)
    (hc : Honest said c) : Honest said d := by
  have hsealed : ∀ {payload}, SealsOwn src c payload → SealedBy P said payload := by
    rintro payload ⟨message, ⟨m, m', hpublic, hbuild⟩, hchat⟩
    refine ⟨m, m', message, hbuild, fun hm => ?_⟩
    rw [show m.group.ownLeafIndex = c.ownLeaf from ownLeafIndex_of_publicPart hpublic]
    exact hsaid message (hchat hm)
  -- What is reported beside chat.
  have hreport : ∀ event, (∀ message sender, event ≠ .conversationMessage message sender) →
      Honest said { c with pendingEvents := c.pendingEvents ++ [event] } := by
    refine fun event hevent => ⟨fun message sender hm => ?_, hc.put⟩
    rcases List.mem_append.mp hm with hm | hm
    · exact hc.heard message sender hm
    · exact absurd (List.mem_singleton.mp hm).symm (hevent message sender)
  cases h with
  | event event hevent =>
    refine hreport event fun message sender h => ?_
    rw [h] at hevent
    cases hevent
  | told state => exact hreport _ fun _ _ => ConversationEvent.noConfusion
  | turnover added removed => exact hreport _ fun _ _ => ConversationEvent.noConfusion
  | delivered h hchat =>
    refine ⟨fun message sender hm => ?_, hc.put⟩
    rcases List.mem_append.mp hm with hm | hm
    · exact hc.heard message sender hm
    · cases List.mem_singleton.mp hm
      exact hread _ _ h hchat
  | put h =>
    refine ⟨hc.heard, fun packet hp => ?_⟩
    rcases List.mem_append.mp hp with hp | hp
    · exact hc.put packet hp
    · rw [List.mem_singleton.mp hp]
      cases h with
      | sealed h => exact .sealed (hsealed h)
      | welcome h => exact .welcome (h.imp_right hsealed)
      | minted _ => exact .candidate _
      | resent _ _ => exact .candidate _
  | drainedEvents => exact ⟨fun _ _ hm => (List.not_mem_nil hm).elim, hc.put⟩
  | drainedOutbound => exact ⟨hc.heard, fun _ hp => (List.not_mem_nil hp).elim⟩
  | _ => exact ⟨hc.heard, hc.put⟩

theorem Act.path_honest {src : Sources} {c d : Conversation P}
    (hread : ∀ message sender, src.message message sender → message.isChat = true →
      said (sender.index, message))
    (hsaid : ∀ message, src.chat message → said (c.ownLeaf, message))
    (h : ReflTransGen (Act src) c d) (hc : Honest said c) : Honest said d := by
  suffices hboth : d.ownLeaf = c.ownLeaf ∧ Honest said d from hboth.2
  induction h with
  | refl => exact ⟨rfl, hc⟩
  | tail _ hstep ih =>
    refine ⟨hstep.ownLeaf.trans ih.1, hstep.honest hread (fun message hm => ?_) ih.2⟩
    rw [ih.1]
    exact hsaid message hm

/-! ## Deeds -/

/-- The bytes from the network that a call is given. -/
def EntryPoint.received : EntryPoint → Option Bytes
  | .processInbound _ payload => some payload
  | .applyWelcomeSync payload => some payload
  | _ => none

/-- A call at `c`: it reads what it decrypts, and chat is said in a call that sends it. -/
def deedOf (e : EntryPoint) (c : Conversation P) :
    Network.Deed (Conversation P) Bytes Utterance where
  reads payload := e.received = some payload ∧ ∃ message sender, c.Opens payload message sender
  utters k := k.1 = c.ownLeaf ∧ (e.sources c).chat k.2
  leaves := e.leaves c

/-- What a node does: it is called, it founds its group, or it settles in a group it joined, which
it announces. -/
inductive Does : Conversation P → Network.Deed (Conversation P) Bytes Utterance → Prop
  | call (c : Conversation P) (e : EntryPoint) : Does c (deedOf e c)
  | found (c : Conversation P) (initialMembers : List Bytes) (hfresh : c.Fresh) :
      Does c ⟨fun _ => False, fun _ => False, after (seedInitialMembers initialMembers) c⟩
  | settle (c : Conversation P) (syncBytes : Bytes) :
      Does c ⟨fun payload => payload = syncBytes ∧
          ∃ (d : Conversation P) (message : AppMessage) (sender : Member),
            d.Opens payload message sender,
        fun k => k = (c.ownLeaf, ⟨some (.membershipChange c.conversationId c.selfMemberId 0)⟩),
        after (settleIn syncBytes) c⟩

theorem Does.honest {c : Conversation P} {deed : Network.Deed (Conversation P) Bytes Utterance}
    (h : Does c deed) (hc : Honest said c) (hreads : ∀ payload, deed.reads payload →
      Fair P said payload) : Honest (fun k => said k ∨ deed.utters k) deed.leaves := by
  have hbefore : Honest (fun k => said k ∨ deed.utters k) c := hc.mono fun _ => .inl
  cases h with
  | call e =>
    refine Act.path_honest (fun message sender hm hchat => .inl ?_)
      (fun message hm => .inr ⟨rfl, hm⟩) (e.acts c) hbefore
    cases e with
    | processInbound _ received =>
      exact hreads received ⟨rfl, message, sender, hm⟩ c message sender hm hchat
    | applyWelcomeSync received =>
      exact hreads received ⟨rfl, message, sender, hm⟩ c message sender hm hchat
    | _ => exact hm.elim
  | found initialMembers hfresh =>
    let src : Sources := { Sources.none with founder := fun _ => True }
    have hpath : ReflTransGen (Act src) c (after (seedInitialMembers initialMembers) c) :=
      Act.seedInitialMembers hfresh fun _ _ => trivial
    have hread : ∀ message sender, src.message message sender → message.isChat = true →
        said (sender.index, message) ∨ False := fun _ _ hm => hm.elim
    exact Act.path_honest hread (fun _ hm => hm.elim) hpath hbefore
  | settle syncBytes =>
    let src : Sources :=
      { Sources.none with
        candidate := fun _ => True
        message := fun message sender => ∃ d : Conversation P, d.Opens syncBytes message sender
        chat := (· = ⟨some (.membershipChange c.conversationId c.selfMemberId 0)⟩)
        phases := True }
    have hpath : ReflTransGen (Act src) c (after (settleIn syncBytes) c) :=
      Act.settleIn c trivial rfl (fun _ _ => trivial) fun d _ _ hm => ⟨d, hm⟩
    refine Act.path_honest (fun message sender hm hchat => .inl ?_)
      (fun message hm => .inr (by rw [show message = _ from hm])) hpath hbefore
    obtain ⟨d, hopens⟩ := hm
    exact hreads syncBytes ⟨rfl, d, message, sender, hopens⟩ d message sender hopens hchat

/-- A conversation that is assembled has heard nothing and put out nothing. -/
theorem honest_of_assembled {c : Conversation P} (h : AssembledOver (fun _ => True) c) :
    Honest said c := by
  obtain ⟨hevents, houtbound⟩ := h.queued
  refine ⟨fun message sender hm => ?_, fun packet hp => ?_⟩
  · rw [hevents] at hm
    cases List.mem_singleton.mp hm
  · rw [houtbound] at hp
    exact (List.not_mem_nil hp).elim

/-! ## The group -/

/-- The groups that nodes form, each assembled over any group state and called in any way, on a
network on which nothing decrypts that no node put out. -/
def Grouped {ι : Type} [DecidableEq ι] :
    Network.World ι (Conversation P) Bytes Utterance → Prop :=
  Network.Reach PutOut (AssembledOver fun _ => True) Does

/-- **Chat is what was sent.** Whatever message a node hands to its integrator, the member it is
attributed to sent it, or announced itself with it. -/
theorem chat_sent {ι : Type} [DecidableEq ι] (hO : P.mls.Authentic) (hP : P.ReadsBack)
    {w : Network.World ι (Conversation P) Bytes Utterance} (h : Grouped w) {i : ι}
    {c : Conversation P} (hnode : w.node i = some c) {message : AppMessage} {sender : Member}
    (hevent : .conversationMessage message sender ∈ c.pendingEvents) :
    w.said (sender.index, message) := by
  have hfair : ∀ {said more : Utterance → Prop} {payload : Bytes}, (∀ k, said k → more k) →
      Fair P said payload → Fair P more payload :=
    fun hmore hf d message sender hopens hchat => hmore _ (hf d message sender hopens hchat)
  have haccounted := Network.Reach.accounted h Honest (Fair P) (fun hmore hs => hs.mono hmore) hfair
    (fun hs hout => Honest.fair hO hP hs hout) honest_of_assembled Does.honest
  exact (haccounted.1 i c hnode).heard message sender hevent

end Conversation

/-! ## Two members -/

namespace Ideal

/-- A group whose messages name the sender in one byte seals for the leaves that have one. -/
def narrow : OpenMls :=
  { mls with
    createMessage := fun g b =>
      if g.ownLeafIndex.toNat < 256 then (.ok (frameOf 3 g.epoch g.ownLeafIndex b), g.secrets)
      else (.error "no such sender", g.secrets) }

theorem createMessage_narrow {g : Group} {data out : Bytes}
    (h : (narrow.createMessage g data).1 = .ok out) :
    g.ownLeafIndex.toNat < 256 ∧ out = frameOf 3 g.epoch g.ownLeafIndex data := by
  unfold narrow at h
  dsimp only at h
  split_ifs at h with hleaf
  cases h
  exact ⟨hleaf, rfl⟩

theorem authentic : narrow.Authentic := by
  intro g g' data out payload protocol processed bytes hcreate hbytes hprotocol hprocess hcontent
  obtain ⟨hleaf, rfl⟩ := createMessage_narrow hcreate
  cases hbytes
  cases hprotocol
  have hsender : UInt32.ofNat (byte g.ownLeafIndex.toNat).toNat = g.ownLeafIndex := by
    unfold byte
    rw [UInt8.toNat_ofNat_of_lt' hleaf]
    exact UInt32.ofNat_toNat
  change processMessage g' ⟨[], _, .application, byte g.ownLeafIndex.toNat :: data⟩ = _ at hprocess
  unfold processMessage at hprocess
  dsimp only at hprocess
  split_ifs at hprocess
  cases hprocess
  cases hcontent
  exact ⟨rfl, congrArg some hsender⟩

/-- A piece of a message: each byte behind a one, and a zero at the end. -/
def writePiece (b : Bytes) : Bytes := b.flatMap (fun x => [1, x]) ++ [0]

/-- Put a byte before the first piece. -/
def extend (x : UInt8) : List Bytes → Option (List Bytes)
  | piece :: more => some ((x :: piece) :: more)
  | [] => none

def readPieces : Bytes → Option (List Bytes)
  | [] => some []
  | 0 :: rest => (readPieces rest).map ([] :: ·)
  | 1 :: x :: rest => (readPieces rest).bind (extend x)
  | _ => none

theorem readPieces_append (b rest : Bytes) :
    readPieces (writePiece b ++ rest) = (readPieces rest).map (b :: ·) := by
  induction b with
  | nil => rfl
  | cons x b ih =>
    show (readPieces (writePiece b ++ rest)).bind (extend x) = _
    rw [ih]
    cases readPieces rest <;> rfl

theorem readPieces_flatMap (pieces : List Bytes) :
    readPieces (pieces.flatMap writePiece) = some pieces := by
  induction pieces with
  | nil => rfl
  | cons piece pieces ih => rw [List.flatMap_cons, readPieces_append, ih, Option.map_some]

/-- A message from its tag and its pieces. -/
def ofPieces : UInt8 → List Bytes → Except String AppMessage
  | 6, conversationId :: steward :: commit :: proposals =>
    .ok ⟨some (.commitCandidate ⟨conversationId, proposals, commit, steward⟩)⟩
  | 7, [message, conversationId] => .ok ⟨some (.conversationMessage message conversationId)⟩
  | 11, welcome :: sync :: joiners => .ok ⟨some (.memberWelcome ⟨welcome, sync, joiners⟩)⟩
  | 12, [conversationId, member, changeType] =>
    .ok ⟨some (.membershipChange conversationId member changeType.length)⟩
  | _, _ => .error "unknown message"

def readMessage : Bytes → Except String AppMessage
  | [] => .error "empty message"
  | tag :: rest =>
    match readPieces rest with
    | some pieces => ofPieces tag pieces
    | none => .error "malformed message"

/-- Envelopes and chat in pieces; the other messages by a tag, and not read back. -/
def pieceCodec : Codec where
  encodeApp m :=
    match m.payload with
    | some (.commitCandidate c) => 6 ::
        (c.conversationId :: c.stewardMemberId :: c.commitMessage :: c.mlsProposals).flatMap writePiece
    | some (.conversationMessage message conversationId) =>
      7 :: [message, conversationId].flatMap writePiece
    | some (.memberWelcome w) => 11 ::
        (w.welcomeBytes :: w.conversationSyncBytes :: w.joinerIdentities).flatMap writePiece
    | some (.membershipChange conversationId member (.ofNat changeType)) =>
      12 :: [conversationId, member, List.replicate changeType 0].flatMap writePiece
    | _ => [10]
  decodeApp := readMessage
  encodeRequest := encodeRequest
  decodeRequest := decodeRequest

theorem decodeApp_pieces (tag : UInt8) (pieces : List Bytes) :
    pieceCodec.decodeApp (tag :: pieces.flatMap writePiece) = ofPieces tag pieces := by
  show readMessage (tag :: pieces.flatMap writePiece) = _
  unfold readMessage
  dsimp only
  rw [readPieces_flatMap]

/-- The plain platform over that group and that codec. -/
def sealing : Platform := { platform with mls := narrow, codec := pieceCodec }

theorem readsBack : sealing.ReadsBack where
  candidate m := ⟨m, decodeApp_pieces 6 _⟩
  welcome w := decodeApp_pieces 11 _
  chat := by
    rintro ⟨payload⟩ read hread hchat
    have hother : pieceCodec.decodeApp [10] ≠ .ok read := by
      intro h
      cases h
    cases payload with
    | none => exact (hother hread).elim
    | some payload =>
      cases payload with
      | conversationMessage message conversationId =>
        cases (decodeApp_pieces 7 [message, conversationId]).symm.trans hread
        rfl
      | commitCandidate c =>
        cases (decodeApp_pieces 6 (c.conversationId :: c.stewardMemberId :: c.commitMessage ::
          c.mlsProposals)).symm.trans hread
        cases hchat
      | memberWelcome w =>
        cases (decodeApp_pieces 11 (w.welcomeBytes :: w.conversationSyncBytes ::
          w.joinerIdentities)).symm.trans hread
        cases hchat
      | membershipChange conversationId member changeType =>
        cases changeType with
        | ofNat n =>
          cases (decodeApp_pieces 12 [conversationId, member, List.replicate n 0]).symm.trans hread
          rw [List.length_replicate]
          rfl
        | negSucc n => exact (hother hread).elim
      | _ => exact (hother hread).elim
  ciphertext g data out payload hcreate hbytes := by
    obtain ⟨_, rfl⟩ := createMessage_narrow hcreate
    cases hbytes
    obtain ⟨e, he⟩ : ∃ e, readMessage (frameOf 3 g.epoch g.ownLeafIndex data) = .error e := by
      unfold readMessage frameOf
      dsimp only
      cases readPieces (byte g.epoch :: byte g.ownLeafIndex.toNat :: data) with
      | none => exact ⟨_, rfl⟩
      | some pieces => exact ⟨_, rfl⟩
    unfold Conversation.isPlaintext
    rw [show sealing.codec.decodeApp (frameOf 3 g.epoch g.ownLeafIndex data) = .error e from he]

/-- The platform's mls service at a leaf of a group of two. -/
def pairAt (own : LeafNodeIndex) : MlsService sealing.mls :=
  ⟨[], groupOf own 0 [[10], [11]], none⟩

/-- A node that joined a group of two. -/
def partyAt (own : LeafNodeIndex) : Conversation sealing where
  conversationId := []
  now := 0
  queues := ConversationQueues.new [] 10
  mls := pairAt own
  scoring := ⟨[], ScoreEvent.defaultDelta, ⟨100, 0⟩⟩
  stewardList := ⟨none, ⟨1, 2, false⟩, [], 0, 2⟩
  consensus := []
  outcomes := []
  state := .working
  config := .default
  operatingMode := .normal
  recoveryRounds := 0
  timing := .new
  selfMemberId := memberIdOf own
  appId := [byte own.toNat]
  pendingEvents := [.phaseChange .working]
  pendingOutbound := []

theorem assembled_partyAt (own : LeafNodeIndex) :
    Conversation.AssembledOver (fun _ => True) (partyAt own) :=
  ⟨pairAt own, ⟨[], ScoreEvent.defaultDelta, ⟨100, 0⟩⟩, [], 0, [byte own.toNat], .default, false,
    trivial, rfl⟩

/-- The first one sends a message. -/
def send : Conversation.EntryPoint := .sendMessage [42]

def sender : Conversation sealing := send.leaves (partyAt 0)

/-- The packet it puts out. -/
def sentBytes : Bytes := (sender.pendingOutbound.head?.map (·.payload)).getD []

/-- The second one receives it. -/
def receive : Conversation.EntryPoint := .processInbound [0] sentBytes

abbrev TwoNodes := Network.World Bool (Conversation sealing) Bytes Conversation.Utterance

/-- Both are born. -/
def born : TwoNodes :=
  (Network.World.void.after Conversation.PutOut false
    ⟨fun _ => False, fun _ => False, partyAt 0⟩).after Conversation.PutOut true
      ⟨fun _ => False, fun _ => False, partyAt 1⟩

def posted : TwoNodes :=
  born.after Conversation.PutOut false (Conversation.deedOf send (partyAt 0))

def exchange : TwoNodes :=
  posted.after Conversation.PutOut true (Conversation.deedOf receive (partyAt 1))

theorem grouped_posted : Conversation.Grouped posted := by
  have hborn : Conversation.Grouped born :=
    .birth true (.birth false .void (assembled_partyAt 0)) (assembled_partyAt 1)
  exact .deed false hborn rfl (.call (partyAt 0) send) fun _ hm => by cases hm.1

theorem sent_posted : posted.sent sentBytes := by
  have hpacket : sender.pendingOutbound = [⟨[], [0], sentBytes⟩] := by decide +kernel
  have hout : Conversation.PutOut sender sentBytes := by
    refine .inl ⟨⟨[], [0], sentBytes⟩, ?_, rfl⟩
    rw [hpacket]
    exact List.mem_singleton_self _
  exact .inr hout

theorem grouped_exchange : Conversation.Grouped exchange := by
  refine .deed true grouped_posted rfl (.call (partyAt 1) receive) fun payload hm => ?_
  cases hm.1
  exact sent_posted

theorem heard_exchange : .conversationMessage ⟨some (.conversationMessage [42] [])⟩ ⟨0, [10]⟩ ∈
    (receive.leaves (partyAt 1)).pendingEvents := by
  decide +kernel

end Ideal

/-- The message that the second one hears was sent by the first one. -/
theorem chat_exchanged :
    Ideal.exchange.said (0, ⟨some (.conversationMessage [42] [])⟩) :=
  Conversation.chat_sent Ideal.authentic Ideal.readsBack Ideal.grouped_exchange
    (show Ideal.exchange.node true = _ from rfl) Ideal.heard_exchange

end DeMls
