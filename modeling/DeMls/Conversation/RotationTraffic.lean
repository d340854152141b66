import Mathlib.Data.List.Chain
import DeMls.Conversation.HalfSent
import DeMls.Conversation.Silence

/-!
# Ballots in a rotation

A manual vote and the gate of our own proposals look at the phase; a leave and an auto-vote that
falls due do not. `EntryPoint.states` are the states a step passes through, and `Discreet` says of a
step from a rotation that neither goes out: the node's leave, or an auto-vote when its turn comes.
A run whose steps are all discreet keeps silent in every rotation (`rotations_silent`).
-/

namespace DeMls

open Program Relation Runs

variable {P : Platform}

/-- The payload is a sealed proposal or vote. -/
def Ballot (P : Platform) (payload : Bytes) : Prop :=
  ∃ message : AppMessage, message.isBallot = true ∧ ∃ m m' : MlsService P.mls,
    MlsService.buildMessage (P.codec.encodeApp message) m = .ok payload m'

namespace Conversation

/-- What a group seals tells ballots from other traffic. -/
def Legible (P : Platform) : Prop := ∀ payload, Ballot P payload → ¬ OtherTraffic P payload

/-! ## The states of a step -/

/-- The states that the outcomes of a tick leave, one after the other. -/
def handled : Nat → Conversation P → List (Conversation P)
  | 0, _ => []
  | fuel + 1, c =>
    match c.outcomes with
    | [] => []
    | event :: rest =>
      let d := after (handleConsensusOutcome event) { c with outcomes := rest }
      d :: handled fuel d

/-- Those that the drivers after the round leave. -/
def driven (c : Conversation P) : List (Conversation P) :=
  let buffered := after driveBufferedProposals c
  let resent := after driveSyncResend buffered
  let requested := after driveSyncRequest resent
  let frozen := after startFreezeOnInactivity requested
  [buffered, resent, requested, frozen, after driveReelectionRetry frozen]

/-- The states a step passes through. A poll fires what is due, handles the outcomes, runs its round
to where that leaves the rotation and on to its end, and then its drivers. -/
def EntryPoint.states : EntryPoint → Conversation P → List (Conversation P)
  | .poll fuel, c =>
    let fired := after (tickDeadlines 0) c
    let drained := after (drainOutcomes fuel) fired
    let finished := after advanceFreezing drained
    fired :: (handled fuel fired ++ drained.turned :: finished :: finished.driven)
  | e, c => [e.leaves c]

/-- The last of them is what the step leaves. -/
theorem getLast?_states (e : EntryPoint) (c : Conversation P) :
    (e.states c).getLast? = some (e.leaves c) := by
  cases e with
  | poll fuel =>
    show _ = some (after (poll fuel) c)
    rw [after_poll, after_tickDeadlines]
    simp [EntryPoint.states, driven, afterDrivers, List.getLast?_cons]
  | _ => rfl

/-- The chain of a tick's outcomes leads to what draining them leaves. -/
theorem chain_handled {R : Conversation P → Conversation P → Prop}
    (hpop : ∀ c rest d, R { c with outcomes := rest } d → R c d)
    (hR : ∀ event c, R c (after (handleConsensusOutcome event) c)) (fuel : Nat)
    {c : Conversation P} {tail : List (Conversation P)}
    (h : List.IsChain R (after (drainOutcomes fuel) c :: tail)) :
    List.IsChain R (c :: (handled fuel c ++ tail)) := by
  induction fuel generalizing c with
  | zero => exact h
  | succ fuel ih =>
    unfold drainOutcomes at h
    rw [after_bind_ok _ (get_apply c)] at h
    unfold handled
    cases houtcomes : c.outcomes with
    | nil =>
      rw [houtcomes] at h
      exact h
    | cons event rest =>
      rw [houtcomes] at h
      dsimp only at h
      rw [after_bind_ok _ (modify_apply _ _), after_attempted] at h
      exact .cons_cons (hpop c rest _ (hR event _)) (ih h)

/-! ## What goes out -/

/-- The session takes the deed, and the group seals its message. -/
def Deed.GoesOut (a : Deed) (c : Conversation P) : Prop :=
  ∃ message, a.answer c = .taken (some message) ∧ c.Seals message

/-- One of the auto-votes goes out when its turn comes. -/
def VotesOut : List (ProposalId × AutoVoteEntry) → Conversation P → Prop
  | [], _ => False
  | (id, entry) :: rest, c =>
    Deed.GoesOut (.autoVote id entry.vote) c ∨ VotesOut rest (after (broadcastVote id entry.vote) c)

/-- The auto-votes a tick fires. -/
def autoVotesDue (c : Conversation P) : List (ProposalId × AutoVoteEntry) :=
  c.timing.pendingAutoVotes.entries.filter fun e => decide (e.2.fireAt ≤ c.now)

/-- The conversation without the deadlines that are due. -/
def undue (c : Conversation P) : Conversation P :=
  { c with timing := { c.timing with
    pendingAutoVotes := c.timing.pendingAutoVotes.retain fun e => !decide (e.2.fireAt ≤ c.now)
    pendingConsensusTimeouts :=
      c.timing.pendingConsensusTimeouts.retain fun e => !decide (e.2 ≤ c.now) } }

/-- In a rotation the step sends no leave and no auto-vote. -/
def EntryPoint.Discreet (e : EntryPoint) (c : Conversation P) : Prop :=
  c.rotating = true →
    match e with
    | .leave => ¬ Deed.leave.GoesOut c
    | .poll _ => ¬ VotesOut c.autoVotesDue c.undue
    | _ => True

/-- Packets are added, a ballot among them exactly if `spoke`. -/
def Adds (spoke : Prop) (c d : Conversation P) : Prop :=
  (¬ spoke ∧ d.pendingOutbound = c.pendingOutbound) ∨
    spoke ∧ ∃ more, d.pendingOutbound = c.pendingOutbound ++ more ∧ ∃ p ∈ more, Ballot P p.payload

theorem Adds.silent {spoke : Prop} {c d : Conversation P} (h : Adds spoke c d) (hno : ¬ spoke) :
    Silent c d := by
  rcases h with ⟨-, hout⟩ | ⟨hspoke, -⟩
  · exact .of_outbound hout
  · exact absurd hspoke hno

theorem Adds.not_silent (hP : Legible P) {spoke : Prop} {c d : Conversation P} (h : Adds spoke c d)
    (hspoke : spoke) : ¬ Silent c d := by
  rintro ⟨other, hother, hout⟩
  rcases h with ⟨hno, -⟩ | ⟨-, more, hmore, p, hp, hballot⟩
  · exact hno hspoke
  · refine hP _ hballot (hother p ?_)
    rcases hout with hout | hout
    · rw [List.append_cancel_left (hout.symm.trans hmore)]
      exact hp
    · rw [← hout, hmore]
      exact List.mem_append_right _ hp

/-- What is done next adds its own. -/
theorem Adds.trans {p q : Prop} {c d e : Conversation P} (h : Adds p c d) (h' : Adds q d e) :
    Adds (p ∨ q) c e := by
  rcases h with ⟨hp, hcd⟩ | ⟨hp, more, hcd, hballot⟩
  · rcases h' with ⟨hq, hde⟩ | ⟨hq, later, hde, hballot⟩
    · exact .inl ⟨not_or.mpr ⟨hp, hq⟩, hde.trans hcd⟩
    · exact .inr ⟨.inr hq, later, by rw [hde, hcd], hballot⟩
  · obtain ⟨p, hmem, hballot⟩ := hballot
    rcases h' with ⟨-, hde⟩ | ⟨-, later, hde, -⟩
    · exact .inr ⟨.inl hp, more, hde.trans hcd, p, hmem, hballot⟩
    · refine .inr ⟨.inl hp, more ++ later, ?_, p, List.mem_append_left _ hmem, hballot⟩
      rw [hde, hcd, List.append_assoc]

/-- A ballot that is taken is sent, if the group seals it. -/
theorem adds_sendApp {message : AppMessage} (hballot : message.isBallot = true)
    {c d : Conversation P} (hmls : d.mls = c.mls) (hout : d.pendingOutbound = c.pendingOutbound) :
    Adds (c.Seals message) c (after (sendApp message) d) := by
  by_cases hseals : c.Seals message
  · obtain ⟨payload, m, hseal⟩ := hseals
    have hseal' := hseal
    rw [← hmls] at hseal'
    rw [after_of_ok (sendApp_of_seals hseal')]
    refine .inr ⟨⟨payload, m, hseal⟩, [⟨d.conversationId, d.appId, payload⟩], ?_, _,
      List.mem_singleton_self _, message, hballot, c.mls, m, hseal⟩
    rw [← hout]
    rfl
  · have hseals' : ¬ d.Seals message := by
      unfold Seals
      rwa [hmls]
    obtain ⟨e, m, hfail⟩ := sendApp_of_not_seals hseals'
    rw [after_of_error hfail]
    exact .inl ⟨hseals, hout⟩

theorem goesOut_of_taken {a : Deed} {c : Conversation P} {message : AppMessage}
    (h : a.answer c = .taken (some message)) : a.GoesOut c ↔ c.Seals message := by
  constructor
  · rintro ⟨message', htaken, hseals⟩
    rw [h] at htaken
    cases htaken
    exact hseals
  · exact fun hseals => ⟨message, h, hseals⟩

theorem not_goesOut {a : Deed} {c : Conversation P} (h : ∀ message, a.answer c ≠ .taken message) :
    ¬ a.GoesOut c := by
  rintro ⟨message, htaken, -⟩
  exact h _ htaken

theorem adds_broadcastVote (id : ProposalId) (choice : Bool) (c : Conversation P) :
    Adds (Deed.GoesOut (.autoVote id choice) c) c (after (broadcastVote id choice) c) := by
  rcases broadcastVote_run id choice c with ⟨v, st, outs, hcall, hrun⟩ | ⟨e, st, outs, hcall, hrun⟩
  · have htaken : Deed.answer (.autoVote id choice) c = .taken (some ⟨some (.vote v)⟩) := by
      show c.ballot id choice = _
      unfold ballot
      rw [hcall]
    have hafter : after (broadcastVote id choice) c =
        after (sendApp ⟨some (.vote v)⟩) (c.answered st outs) := by
      unfold after
      rw [hrun]
    rw [goesOut_of_taken htaken, hafter]
    exact adds_sendApp rfl rfl rfl
  · have hrefused : Deed.answer (.autoVote id choice) c = .refused := by
      show c.ballot id choice = _
      unfold ballot
      rw [hcall]
    rw [after_of_error hrun]
    refine .inl ⟨not_goesOut fun message htaken => ?_, rfl⟩
    rw [hrefused] at htaken
    cases htaken

theorem adds_castAll (due : List (ProposalId × AutoVoteEntry)) (c : Conversation P) :
    Adds (VotesOut due c) c (after (castAll due) c) := by
  induction due generalizing c with
  | nil => exact .inl ⟨id, rfl⟩
  | cons e rest ih =>
    obtain ⟨id, entry⟩ := e
    unfold castAll
    rw [after_attempted]
    exact (adds_broadcastVote id entry.vote c).trans (ih _)

/-- **What is due.** -/
theorem adds_fires (c : Conversation P) :
    Adds (VotesOut c.autoVotesDue c.undue) c (after (tickDeadlines 0) c) := by
  have hresolve : ∀ due, Frame pendingOutbound (resolveAll due : ConvM P Unit) := by
    intro due
    induction due with
    | nil => exact frame_pure _ _
    | cons e rest ih =>
      refine frame_bind (frame_bind (frame_get _) fun _ => frame_ite (frame_pure _ _) ?_) fun _ => ih
      exact frame_attempted (frame_ofPair fun _ => rfl)
  have hafter : after (tickDeadlines 0) c =
      after (resolveAll (c.timing.pendingConsensusTimeouts.entries.filter fun e =>
        decide (e.2 ≤ c.now))) (after (castAll c.autoVotesDue) c.undue) := by
    have hdrop : (modifyTiming fun t => { t with
        pendingAutoVotes := t.pendingAutoVotes.retain fun e => !decide (e.2.fireAt ≤ c.now)
        pendingConsensusTimeouts :=
          t.pendingConsensusTimeouts.retain fun e => !decide (e.2 ≤ c.now) } : ConvM P Unit) c =
            .ok () c.undue := rfl
    unfold tickDeadlines
    rw [after_bind_ok _ (get_apply c), after_bind_ok _ hdrop, after_seq _ (castAll_succeeds _),
      after_seq _ (resolveAll_succeeds _)]
    rfl
  have hcast := adds_castAll c.autoVotesDue c.undue
  rw [hafter]
  unfold Adds at hcast ⊢
  rw [hresolve]
  exact hcast

/-- **A leave.** -/
theorem adds_leave (c : Conversation P) : Adds (Deed.leave.GoesOut c) c (after Conversation.leave c) := by
  cases hpending : c.queues.isPendingSelfLeave P c.selfMemberId with
  | true =>
    have hanswer : Deed.leave.answer c = .unasked := if_pos hpending
    have hrun : (leave : ConvM P Unit) c = .ok () c := by
      unfold leave initiateSelfLeave
      rw [bind_run _ (get_apply c), if_pos hpending]
      rfl
    rw [after_of_ok hrun]
    refine .inl ⟨not_goesOut fun message htaken => ?_, rfl⟩
    rw [hanswer] at htaken
    cases htaken
  | false =>
    have hanswer : Deed.leave.answer c = c.farewell := if_neg (Bool.eq_false_iff.mp hpending)
    rcases leave_cases hpending with ⟨v, st, outs, hvote, hcall, hrun⟩ | ⟨hrefused, st, outs, hrun, -⟩
    · have htaken : Deed.leave.answer c = .taken (some ⟨some (.proposal (c.signedLeave v))⟩) := by
        rw [hanswer]
        unfold farewell
        rw [hvote]
        dsimp only
        rw [hcall]
      have hafter : after Conversation.leave c =
          after (sendApp ⟨some (.proposal (c.signedLeave v))⟩) (c.departing.answered st outs) := by
        unfold after
        rw [hrun]
      rw [goesOut_of_taken htaken, hafter]
      exact adds_sendApp rfl rfl rfl
    · have hafter : after Conversation.leave c = c.departing.answered st outs := by
        rcases hrun with hrun | ⟨e, hrun⟩
        · exact after_of_ok hrun
        · exact after_of_error hrun
      rw [hafter]
      refine .inl ⟨not_goesOut fun message htaken => ?_, rfl⟩
      rw [hanswer, hrefused] at htaken
      cases htaken

/-! ## Steps -/

/-- **A discreet step** is silent wherever it passes from or into a rotation. -/
theorem EntryPoint.Discreet.silent {e : EntryPoint} {c : Conversation P} (h : e.Discreet c) :
    List.IsChain KeepsSilence (c :: e.states c) := by
  have hkept : ∀ {d : Conversation P}, d.state = c.state → d.pendingOutbound = c.pendingOutbound →
      List.IsChain KeepsSilence [c, d] := fun hstate hout =>
    .cons_cons (keepsSilence_of_same hstate hout) (.singleton _)
  cases e with
  | poll fuel =>
    have hfired : KeepsSilence c (after (tickDeadlines 0) c) := by
      intro hrotating
      have hclock : (after (tickDeadlines 0) c).rotating = c.rotating :=
        rotating_of_roundClock ((plain_roundClock.timed.fires
          (plain_roundClock.speak fun _ _ => rfl)).frame c)
      rw [hclock, or_self] at hrotating
      exact (adds_fires c).silent (h hrotating)
    refine .cons_cons hfired (chain_handled (fun _ _ _ hd => hd.congr_left rfl rfl)
      (fun event d => keepsSilence_handleConsensusOutcome event d) fuel ?_)
    refine .cons_cons (keepsSilence_turned _) (.cons_cons (keepsSilence_finished _) ?_)
    refine .cons_cons (keepsSilence_driveBufferedProposals _) ?_
    refine .cons_cons (keepsSilence_driveSyncResend _) ?_
    refine .cons_cons (keepsSilence_driveSyncRequest _) ?_
    refine .cons_cons (keepsSilence_startFreezeOnInactivity _) ?_
    exact .cons_cons (keepsSilence_driveReelectionRetry _) (.singleton _)
  | leave =>
    refine .cons_cons (fun hrotating => (adds_leave c).silent (h ?_)) (.singleton _)
    have hclock : (after Conversation.leave c).rotating = c.rotating :=
      rotating_of_roundClock ((plain_roundClock.timed.leave
        (plain_roundClock.speak fun _ _ => rfl)).frame c)
    have hrotating : c.rotating = true ∨ (after Conversation.leave c).rotating = true := hrotating
    rwa [hclock, or_self] at hrotating
  | processInbound sender payload =>
    exact .cons_cons (keepsSilence_processInbound sender payload c) (.singleton _)
  | applyWelcomeSync syncBytes =>
    exact .cons_cons (keepsSilence_applyWelcomeSync syncBytes c) (.singleton _)
  | drainOutbound =>
    exact .cons_cons (fun _ => ⟨[], fun _ hp => absurd hp List.not_mem_nil, .inr rfl⟩) (.singleton _)
  | enterRecoveryMode => exact hkept rfl rfl
  | exitRecoveryMode => exact hkept rfl rfl
  | drainEvents => exact hkept rfl rfl
  | clock now => exact hkept rfl rfl
  | publish event => exact hkept rfl rfl
  | _ => exact .cons_cons (keepsSilence_call rfl c) (.singleton _)

/-- A step that is not speaks in its rotation. -/
theorem EntryPoint.discreet_of_silent (hP : Legible P) {e : EntryPoint} {c : Conversation P}
    (h : List.IsChain KeepsSilence (c :: e.states c)) : e.Discreet c := by
  intro hrotating
  cases e with
  | poll fuel =>
    intro hspoke
    have hfired : KeepsSilence c (after (tickDeadlines 0) c) := (List.isChain_cons_cons.mp h).1
    exact (adds_fires c).not_silent hP hspoke (hfired (.inl hrotating))
  | leave =>
    intro hspoke
    have hleft : KeepsSilence c (after Conversation.leave c) := (List.isChain_cons_cons.mp h).1
    exact (adds_leave c).not_silent hP hspoke (hleft (.inl hrotating))
  | _ => trivial

/-! ## Runs -/

/-- The states a run has passed through. -/
def passed (log : List (Conversation P)) (c : Conversation P) (e : EntryPoint)
    (_ : Conversation P) : List (Conversation P) :=
  log ++ e.states c

/-- A constructed conversation, with nothing behind it. -/
def StartsLog (s : Conversation P × List (Conversation P)) : Prop := Constructed s.1 ∧ s.2 = [s.1]

/-- The next state and its log. -/
def logs (s : Conversation P × List (Conversation P)) (e : EntryPoint) :
    Conversation P × List (Conversation P) :=
  (e.leaves s.1, passed s.2 s.1 e (e.leaves s.1))

theorem trace_logs {steps : List ((Conversation P × List (Conversation P)) × EntryPoint ×
      (Conversation P × List (Conversation P)))} {s : Conversation P × List (Conversation P)}
    (h : Trace StartsLog (watch passed fun c (e : EntryPoint) d => d = e.leaves c) steps s)
    (calls : List EntryPoint) :
    Trace StartsLog (watch passed fun c (e : EntryPoint) d => d = e.leaves c)
      (steps ++ stepsAlong logs s calls) (calls.foldl logs s) :=
  h.along (fun _ _ => ⟨rfl, rfl⟩) calls

/-- A run's log ends in its state, and is a chain when that of each step is. -/
theorem isChain_log_iff {R : Conversation P → Conversation P → Prop}
    {steps : List ((Conversation P × List (Conversation P)) × EntryPoint ×
      (Conversation P × List (Conversation P)))} {s : Conversation P × List (Conversation P)}
    (h : Trace StartsLog (watch passed fun c (e : EntryPoint) d => d = e.leaves c) steps s) :
    s.2.getLast? = some s.1 ∧
      (List.IsChain R s.2 ↔ ∀ t ∈ steps, List.IsChain R (t.1.1 :: t.2.1.states t.1.1)) := by
  induction h with
  | start h => simp [h.2]
  | @next s t e steps hs hstep ih =>
    obtain ⟨hleaves, hlog⟩ := hstep
    obtain ⟨hlast, hchain⟩ := ih
    have hlog : t.2 = s.2 ++ e.states s.1 := hlog
    constructor
    · rw [hlog, hleaves, List.getLast?_append, getLast?_states]
      rfl
    · rw [hlog, List.isChain_append, hchain, List.forall_mem_append, List.forall_mem_singleton,
        List.isChain_cons, hlast]
      constructor
      · exact fun ⟨hbefore, hlater, hjoin⟩ => ⟨hbefore, hjoin _ rfl, hlater⟩
      · rintro ⟨hbefore, hjoin, hlater⟩
        refine ⟨hbefore, hlater, fun x hx => ?_⟩
        cases hx
        exact hjoin

/-- **Silence in rotations.** In a run whose steps are all discreet, nothing but other traffic is put
out between two states of which one is in Freezing or Selection. Where the group's messages are
legible, every other run puts a vote or a proposal out in one. -/
theorem rotations_silent
    {steps : List ((Conversation P × List (Conversation P)) × EntryPoint ×
      (Conversation P × List (Conversation P)))} {s : Conversation P × List (Conversation P)}
    (h : Trace StartsLog (watch passed fun c (e : EntryPoint) d => d = e.leaves c) steps s) :
    ((∀ t ∈ steps, t.2.1.Discreet t.1.1) → List.IsChain KeepsSilence s.2) ∧
      (Legible P → List.IsChain KeepsSilence s.2 → ∀ t ∈ steps, t.2.1.Discreet t.1.1) := by
  obtain ⟨-, hchain⟩ := isChain_log_iff (R := KeepsSilence) h
  rw [hchain]
  constructor
  · exact fun hdiscreet t ht => (hdiscreet t ht).silent
  · exact fun hP hsilent t ht => EntryPoint.discreet_of_silent hP (hsilent t ht)

end Conversation

/-! ## A vote on its way into the next epoch -/

namespace Ideal

/-- The first byte of a message is its kind's, and no frame's. -/
theorem head?_encodeApp (message : AppMessage) : ∃ tag, (encodeApp message).head? = some tag ∧
    tag ≠ 3 ∧ (message.isBallot = true ↔ tag = 8 ∨ tag = 9) := by
  obtain ⟨payload⟩ := message
  cases payload with
  | none => exact ⟨10, rfl, by decide, by decide⟩
  | some p => cases p <;> exact ⟨_, rfl, by decide, by simp [AppMessage.isBallot]⟩

theorem legible : Conversation.Legible platform := by
  rintro payload ⟨ballot, hballot, m, m', hsealed⟩ ⟨other, hother, hpayload⟩
  have hframe : payload = frameOf 3 m.group.epoch m.group.ownLeafIndex (encodeApp ballot) := by
    cases hsealed
    rfl
  obtain ⟨tag, htag, -, hkind⟩ := head?_encodeApp ballot
  obtain ⟨tag', htag', hclear', hkind'⟩ := head?_encodeApp other
  rcases hpayload with hclear | ⟨n, n', hsealed'⟩
  · have hclear : encodeApp other = payload := hclear.symm
    rw [hclear, hframe] at htag'
    exact hclear' (Option.some.inj htag').symm
  · have hframe' : payload = frameOf 3 n.group.epoch n.group.ownLeafIndex (encodeApp other) := by
      cases hsealed'
      rfl
    have hsame : encodeApp ballot = encodeApp other := by
      have hframes := hframe.symm.trans hframe'
      unfold frameOf at hframes
      simp only [List.cons.injEq] at hframes
      exact hframes.2.2.2
    rw [hsame, htag'] at htag
    cases htag
    rw [hkind'.mpr (hkind.mp hballot)] at hother
    cases hother

/-- A lone creator admits a member, freezes over it, and merges at the end of the window. -/
def uneventful : List Conversation.EntryPoint :=
  [.addMember [11], .poll 4, .clock (seconds 60), .poll 4, .clock (seconds 90), .poll 4]

/-- Then it asks to leave, which it cannot commit itself, proposes another member for a vote, and
freezes over its removal; the vote falls due in the freeze. -/
def contentious : List Conversation.EntryPoint :=
  uneventful ++ [.leave, .poll 4, .clock (seconds 145),
    .initiateProposal (.memberInvite [12]) .deferred, .clock (seconds 150), .poll 4,
    .clock (seconds 155)]

/-- The freeze with the vote due. -/
def overdue : Conversation platform × List (Conversation platform) :=
  contentious.foldl Conversation.logs (alone, [alone])

theorem starts_alone : Conversation.StartsLog (alone, [alone]) := ⟨constructed_alone, rfl⟩

end Ideal

open Conversation

/-- The freeze without a vote is silent, and so is its merge. -/
theorem uneventful_silent :
    List.IsChain KeepsSilence (Ideal.uneventful.foldl logs (Ideal.alone, [Ideal.alone])).2 ∧
      ∀ t ∈ stepsAlong logs (Ideal.alone, [Ideal.alone]) Ideal.uneventful,
        t.2.1.Discreet t.1.1 := by
  have hpoll : ∀ {c : Conversation Ideal.platform}, c.autoVotesDue = [] →
      (EntryPoint.poll 4).Discreet c := by
    intro c hnone _
    show ¬ VotesOut c.autoVotesDue c.undue
    rw [hnone]
    exact id
  have hdiscreet : ∀ t ∈ stepsAlong logs (Ideal.alone, [Ideal.alone]) Ideal.uneventful,
      t.2.1.Discreet t.1.1 := by
    unfold Ideal.uneventful
    simp only [stepsAlong, List.forall_mem_cons]
    exact ⟨fun _ => trivial, hpoll (by decide +kernel), fun _ => trivial, hpoll (by decide +kernel),
      fun _ => trivial, hpoll (by decide +kernel), fun _ ht => absurd ht List.not_mem_nil⟩
  obtain ⟨hsilent, hexact⟩ := rotations_silent (trace_logs (.start Ideal.starts_alone) Ideal.uneventful)
  exact ⟨hsilent hdiscreet, hexact Ideal.legible (hsilent hdiscreet)⟩

/-- With no commit of its own under way the group seals messages, and a poll in the freeze casts the
vote that fell due. -/
theorem overdue_vote_leaves_freezing : Ideal.overdue.1.state = .freezing ∧
    (Ideal.overdue.1.mls.group.secrets : Ideal.Secrets) = ⟨[], none⟩ ∧
    (after (tickDeadlines 0) Ideal.overdue.1).pendingOutbound =
      Ideal.overdue.1.pendingOutbound ++ [⟨[], [0], [3, 1, 0, 9, 1, 1]⟩] ∧
    ((EntryPoint.poll 4).leaves Ideal.overdue.1).state = .freezing ∧
    ¬ ∀ steps s, Trace (StartsLog (P := Ideal.platform))
      (watch passed fun c (e : EntryPoint) d => d = e.leaves c) steps s →
        List.IsChain KeepsSilence s.2 := by
  have hphase : Ideal.overdue.1.state = .freezing := by decide +kernel
  have hcast : (after (tickDeadlines 0) Ideal.overdue.1).pendingOutbound =
      Ideal.overdue.1.pendingOutbound ++ [⟨[], [0], [3, 1, 0, 9, 1, 1]⟩] := by decide +kernel
  have hsecrets : (Ideal.overdue.1.mls.group.secrets : Ideal.Secrets) = ⟨[], none⟩ :=
    let left : Ideal.Secrets := Ideal.overdue.1.mls.group.secrets
    of_decide_eq_true (p := left = ⟨[], none⟩) (by decide +kernel)
  refine ⟨hphase, hsecrets, hcast, by decide +kernel, fun hsilent => ?_⟩
  have hrun := trace_logs (trace_logs (.start Ideal.starts_alone) Ideal.contentious) [.poll 4]
  have hsteps := (isChain_log_iff hrun).2.mp (hsilent _ _ hrun)
  have hlast := hsteps _ (List.mem_append_right _ List.mem_cons_self)
  have hfired : KeepsSilence Ideal.overdue.1 (after (tickDeadlines 0) Ideal.overdue.1) :=
    (List.isChain_cons_cons.mp hlast).1
  have hballot : Ballot Ideal.platform [3, 1, 0, 9, 1, 1] :=
    ⟨⟨some (.vote ⟨0, [], 1, 0, true, [], [], [], []⟩)⟩, rfl,
      ⟨[], Ideal.groupOf 0 1 [], none⟩, _, rfl⟩
  have hadds : Adds True Ideal.overdue.1 (after (tickDeadlines 0) Ideal.overdue.1) :=
    .inr ⟨trivial, _, hcast, _, List.mem_singleton_self _, hballot⟩
  refine hadds.not_silent Ideal.legible trivial (hfired (.inl ?_))
  unfold rotating
  rw [hphase]
  rfl

end DeMls
