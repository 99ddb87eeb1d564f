import SrtGo.Core.Sides
import SrtGo.Flow.WakeUp

/-!
# Round-trip samples

A full acknowledgement is recorded in a ring of slots under its number, and the echo with that
number measures the round trip.  The log of a run says which acknowledgements were sent and which
echoes were matched.  A valid slot holds the last acknowledgement that went into it, and nothing has
happened to the slot since: so an echo is matched to the last acknowledgement with its number, at
most once, and no longer than until another acknowledgement takes the slot.
-/

namespace SrtGo.Core

open Buffer Congestion Crypto Run SrtGo.Seq Function

/-- A full acknowledgement is sent, or an echo is matched and gives a sample. -/
inductive AckEvent where
  | sent (e : AckSlot)
  | echoed (ackNo : ℕ) (now sample : ℤ)

def AckEvent.slot : AckEvent → ℕ
  | .sent e => e.ackNo % ackTimeSlots
  | .echoed ackNo _ _ => ackNo % ackTimeSlots

namespace Conn

variable {σ : Type} {c c' c'' : Conn σ}

def dueACK (c : Conn σ) (now : ℤ) : List AckEvent :=
  if c.rcv.recvBuf.ackSequence = c.ack.rcvLastAckAck ∧
    ¬synInterval ≤ now - c.ack.lastFullACKTime then []
  else [.sent
    { ackNo := nextAckNo c.ack.ackSeqNo, sendTime := now, dataSeq := c.rcv.recvBuf.ackSequence
      valid := true }]

def matchedEcho (c : Conn σ) (now : ℤ) (ackNo : ℕ) : List AckEvent :=
  if (c.ack.ackSlots (ackNo % ackTimeSlots)).valid = true ∧
      (c.ack.ackSlots (ackNo % ackTimeSlots)).ackNo = ackNo then
    [.echoed ackNo now (now - (c.ack.ackSlots (ackNo % ackTimeSlots)).sendTime)]
  else []

def ackEvents (c : Conn σ) : Input → List AckEvent
  | .timer now .ack => if c.closed then [] else c.dueACK now
  | .packet now p =>
    if c.closed = false ∧ p.header.isControl = true ∧ p.header.controlType = .ackack then
      c.matchedEcho now p.header.typeSpecific
    else []
  | _ => []

/-! ## What leaves the slots alone -/

structure SameSlots (c c' : Conn σ) : Prop where
  ackSlots : c'.ack.ackSlots = c.ack.ackSlots
  ackSeqNo : c'.ack.ackSeqNo = c.ack.ackSeqNo
  rcvLastAckAck : c'.ack.rcvLastAckAck = c.ack.rcvLastAckAck

namespace SameSlots

theorem refl (c : Conn σ) : SameSlots c c := ⟨rfl, rfl, rfl⟩

theorem of_eq (h : c'.ack = c.ack) : SameSlots c c' := ⟨by rw [h], by rw [h], by rw [h]⟩

theorem after (h' : SameSlots c' c'') (h : SameSlots c c') : SameSlots c c'' :=
  ⟨h'.ackSlots.trans h.ackSlots, h'.ackSeqNo.trans h.ackSeqNo,
    h'.rcvLastAckAck.trans h.rcvLastAckAck⟩

end SameSlots

variable [Controller σ] [Primitives] {i : Input}

theorem Shift.sameSlots {c₀ : Conn σ} (h : Shift i c₀ c c') (htimer : ∀ now, i ≠ .timer now .ack)
    (hecho : ∀ now p, i = .packet now p → ¬(p.header.isControl = true ∧
      p.header.controlType = .ackack)) :
    SameSlots c c' := by
  cases h with
  | book h => exact { h with }
  | stamp a hi => exact absurd hi (htimer _)
  | echo a rttSample hi htype => exact absurd htype (hecho _ _ hi)
  | report h hsource => exact .of_eq (by rw [h.rest])
  | deliver h hd => cases h <;> exact .of_eq rfl
  | packet seqNo ts f => exact .of_eq (sendFrame_sendData _ _ _ _ _).ack
  | _ => exact ⟨rfl, rfl, rfl⟩

/-! ## The cases of a step -/

/-- A step leaves the slots alone, fills the next one, or matches an echo to one. -/
inductive AckStep (c c' : Conn σ) : List AckEvent → Prop
  | same (h : SameSlots c c') : AckStep c c' []
  | sent {e : AckSlot} (hno : e.ackNo = nextAckNo c.ack.ackSeqNo)
      (hslots : c'.ack.ackSlots = Function.update c.ack.ackSlots (e.ackNo % ackTimeSlots) e)
      (hlast : c'.ack.rcvLastAckAck = c.ack.rcvLastAckAck) : AckStep c c' [.sent e]
  | echoed {now : ℤ} {e : AckSlot} (hslot : c.ack.ackSlots (e.ackNo % ackTimeSlots) = e)
    (hvalid : e.valid = true)
      (hslots : c'.ack.ackSlots = Function.update c.ack.ackSlots (e.ackNo % ackTimeSlots)
        { e with valid := false })
      (hlast : c'.ack.rcvLastAckAck =
        if greaterThan e.dataSeq c.ack.rcvLastAckAck then e.dataSeq else c.ack.rcvLastAckAck) :
      AckStep c c' [.echoed e.ackNo now (now - e.sendTime)]

theorem ack_timer (hopen : c.closed = false) (now : ℤ) :
    (c.step (.timer now .ack)).closed = false ∧ (c.step (.timer now .ack)).ack =
      if c.rcv.recvBuf.ackSequence = c.ack.rcvLastAckAck ∧
        ¬synInterval ≤ now - c.ack.lastFullACKTime then c.ack
      else { c.ack with
        ackSeqNo := nextAckNo c.ack.ackSeqNo
        ackSlots := update c.ack.ackSlots (nextAckNo c.ack.ackSeqNo % ackTimeSlots)
          { ackNo := nextAckNo c.ack.ackSeqNo, sendTime := now, dataSeq := c.rcv.recvBuf.ackSequence
            valid := true }
        lastFullACKTime := now
        rcvPktCount := 0
        lightACKCount := 1 } := by
  have hbook := book_sampleInputBandwidth c now
  have hack : (c.sampleInputBandwidth now).ack = c.ack := by
    unfold sampleInputBandwidth
    simp only
    split_ifs <;> rfl
  have hfull : (c.step (.timer now .ack)).closed =
    ((c.sampleInputBandwidth now).sendFullACK now).closed ∧
      (c.step (.timer now .ack)).ack = ((c.sampleInputBandwidth now).sendFullACK now).ack := by
    simp only [Conn.step, handleTimer, hbook.closed, hopen, Bool.false_eq_true, if_false,
      handleACKTimer]
    split_ifs
    · exact ⟨(sendFrame_pump _ now).closed, (sendFrame_pump _ now).ack⟩
    · exact ⟨rfl, rfl⟩
  refine ⟨hfull.1.trans ((recvFrame_sendFullACK _ now).closed.trans (hbook.closed.trans hopen)),
    hfull.2.trans ?_⟩
  unfold sendFullACK
  simp only [hbook.recvBuf, hack]
  by_cases hdue : c.rcv.recvBuf.ackSequence = c.ack.rcvLastAckAck ∧
    ¬synInterval ≤ now - c.ack.lastFullACKTime
  · rw [if_pos hdue, if_pos (by simpa using hdue), hack]
  · rw [if_neg hdue, if_neg (by simpa using hdue)]
    rfl

theorem ackStep_timer (c : Conn σ) (now : ℤ) :
    AckStep c (c.step (.timer now .ack)) (c.ackEvents (.timer now .ack)) := by
  show AckStep c _ (if c.closed = true then [] else c.dueACK now)
  split_ifs with hclosed
  · have hbook := book_sampleInputBandwidth c now
    have hstep : c.step (.timer now .ack) = c.sampleInputBandwidth now := by
      simp only [Conn.step, handleTimer, hbook.closed, hclosed, if_true]
    rw [hstep]
    exact .same { hbook with }
  · have hstep := (ack_timer (by simpa using hclosed) now).2
    unfold dueACK
    split_ifs at hstep ⊢
    · exact .same (.of_eq hstep)
    · exact .sent rfl (by rw [hstep]) (by rw [hstep])

def Sampled (a a' : AckSide) (sample : ℤ) : Prop :=
  a'.rtt = (if saneRTT sample then updateRTT a sample else a).rtt ∧
    a'.rttVar = (if saneRTT sample then updateRTT a sample else a).rttVar

theorem ackStep_echo (c : Conn σ) (now : ℤ) {p : Packet}
    (htype : p.header.isControl = true ∧ p.header.controlType = .ackack) :
    AckStep c (c.step (.packet now p)) (c.ackEvents (.packet now p)) ∧
      (c.ackEvents (.packet now p) = [] ∧ (c.step (.packet now p)).ack = c.ack ∨
        ∃ sample, c.ackEvents (.packet now p) = [.echoed p.header.typeSpecific now sample] ∧
          Sampled c.ack (c.step (.packet now p)).ack sample) := by
  have halive : (c.noteAlive now).ack = c.ack := by
    unfold noteAlive
    split_ifs <;> rfl
  by_cases hclosed : c.closed = true
  · have hnone : c.ackEvents (.packet now p) = [] := if_neg (by simp [hclosed])
    have hstep : (c.step (.packet now p)).ack = c.ack := by simp [Conn.step, handlePacket, hclosed]
    rw [hnone]
    exact ⟨.same (.of_eq hstep), Or.inl ⟨rfl, hstep⟩⟩
  have hstep : c.step (.packet now p) = (c.noteAlive now).handleACKACK now p := by
    simp [Conn.step, handlePacket, handleControl, hclosed, htype]
  have hevents : c.ackEvents (.packet now p) = c.matchedEcho now p.header.typeSpecific :=
    if_pos ⟨by simpa using hclosed, htype⟩
  rw [hstep, hevents, matchedEcho]
  generalize hslot : c.ack.ackSlots (p.header.typeSpecific % ackTimeSlots) = e
  unfold handleACKACK
  simp only [halive, hslot]
  by_cases hmatch : e.valid = true ∧ e.ackNo = p.header.typeSpecific
  · rw [if_pos hmatch, if_neg (by simp [hmatch])]
    obtain ⟨hvalid, hno⟩ := hmatch
    rw [← hno] at hslot ⊢
    refine ⟨.echoed hslot hvalid ?_ ?_, Or.inr ⟨_, rfl, ?_, ?_⟩⟩
    all_goals
      simp only [modifyTimer, updateRTT]
      split_ifs <;> rfl
  · rw [if_neg hmatch, if_pos (by rw [not_and_or] at hmatch; simpa using hmatch)]
    exact ⟨.same (.of_eq halive), Or.inl ⟨rfl, halive⟩⟩

theorem ackStep (c : Conn σ) (i : Input) : AckStep c (c.step i) (c.ackEvents i) := by
  have hsame : c.ackEvents i = [] → (∀ now, i ≠ .timer now .ack) →
      (∀ now p, i = .packet now p → ¬(p.header.isControl = true ∧ p.header.controlType = .ackack)) →
      AckStep c (c.step i) (c.ackEvents i) := by
    intro hnone htimer hecho
    rw [hnone]
    exact .same (step_preserves (Q := SameSlots c) c i (SameSlots.refl c)
      fun _ _ hmove hc => (hmove.sameSlots htimer hecho).after hc)
  cases i with
  | timer now id =>
    by_cases hid : id = .ack
    · subst hid
      exact ackStep_timer c now
    · refine hsame ?_ (by simpa using hid) (by simp)
      cases id <;> first | rfl | contradiction
  | packet now p =>
    by_cases htype : p.header.isControl = true ∧ p.header.controlType = .ackack
    · exact (ackStep_echo c now htype).1
    · refine hsame (if_neg fun h => htype h.2) (by simp) fun now' p' hp => ?_
      obtain ⟨-, rfl⟩ := Input.packet.inj hp
      exact htype
  | write now payload opts => exact hsame rfl (by simp) (by simp)
  | writeCoordinated now payload seqNo srcTime => exact hsame rfl (by simp) (by simp)
  | keepAlive now => exact hsame rfl (by simp) (by simp)
  | shutdown now => exact hsame rfl (by simp) (by simp)

/-! ## Runs -/

def ackLog (c : Conn σ) : List Input → List AckEvent
  | [] => []
  | i :: is => c.ackEvents i ++ ackLog (c.step i) is

theorem ackLog_append (c : Conn σ) (is js : List Input) :
    c.ackLog (is ++ js) = c.ackLog is ++ (exec Conn.step c is).ackLog js := by
  induction is generalizing c with
  | nil => rfl
  | cons i is ih => rw [List.cons_append, ackLog, ih, ackLog, exec, List.append_assoc]

omit [Controller σ] [Primitives] in
/-- A valid slot holds the last acknowledgement that went into it, and nothing has happened to it
since. -/
def Holding (c : Conn σ) (log : List AckEvent) : Prop :=
  ∀ s, (c.ack.ackSlots s).valid = true → (c.ack.ackSlots s).ackNo % ackTimeSlots = s ∧
    ∃ l₃ l₄, log = l₃ ++ .sent (c.ack.ackSlots s) :: l₄ ∧ ∀ ev ∈ l₄, ev.slot ≠ s

omit [Controller σ] [Primitives] in
theorem Holding.step {log evs : List AckEvent} (h : Holding c log) (hstep : AckStep c c' evs) :
    Holding c' (log ++ evs) := by
  -- a slot that is not the one of the event is as before
  have hother : ∀ (ev : AckEvent) (f : AckSlot) s,
      c'.ack.ackSlots = update c.ack.ackSlots ev.slot f → s ≠ ev.slot →
      (c'.ack.ackSlots s).valid = true → (c'.ack.ackSlots s).ackNo % ackTimeSlots = s ∧
        ∃ l₃ l₄, log ++ [ev] = l₃ ++ .sent (c'.ack.ackSlots s) :: l₄ ∧
          ∀ ev' ∈ l₄, ev'.slot ≠ s := by
    intro ev f s hslots hne hvalid
    rw [hslots, update_of_ne hne] at hvalid ⊢
    obtain ⟨hno, l₃, l₄, hlog, hlater⟩ := h s hvalid
    refine ⟨hno, l₃, l₄ ++ [ev], by rw [hlog, List.append_assoc]; rfl, fun ev' hev' => ?_⟩
    rcases List.mem_append.mp hev' with hev' | hev'
    · exact hlater ev' hev'
    · rw [List.mem_singleton.mp hev']
      exact hne.symm
  cases hstep with
  | same hsame =>
    intro s
    rw [hsame.ackSlots, List.append_nil]
    exact h s
  | @sent e hno hslots hlast =>
    intro s hvalid
    by_cases hs : s = e.ackNo % ackTimeSlots
    · subst hs
      rw [hslots, update_self]
      exact ⟨rfl, log, [], rfl, by simp⟩
    · exact hother (.sent e) e s hslots hs hvalid
  | @echoed now e hslot hvalid hslots hlast =>
    intro s hvalid'
    by_cases hs : s = e.ackNo % ackTimeSlots
    · subst hs
      rw [hslots, update_self] at hvalid'
      exact absurd hvalid' (by simp)
    · exact hother (.echoed e.ackNo now _) _ s hslots hs hvalid'

theorem holding_exec (hinit : ∀ s, (c.ack.ackSlots s).valid = false) (is : List Input) :
    Holding (exec Conn.step c is) (c.ackLog is) := by
  induction is using List.reverseRecOn with
  | nil => exact fun s hvalid => absurd hvalid (by simp [exec, hinit])
  | append_singleton is i ih =>
    rw [exec_append, ackLog_append]
    have hstep := ih.step (ackStep (exec Conn.step c is) i)
    simpa [exec, ackLog] using hstep

omit [Controller σ] [Primitives] in
theorem Holding.echo {log : List AckEvent} {e : AckSlot} (h : Holding c log)
    (hslot : c.ack.ackSlots (e.ackNo % ackTimeSlots) = e) (hvalid : e.valid = true) :
    ∃ l₃ l₄, log = l₃ ++ .sent e :: l₄ ∧ ∀ ev ∈ l₄, ev.slot ≠ e.ackNo % ackTimeSlots := by
  obtain ⟨-, hlog⟩ := h (e.ackNo % ackTimeSlots) (by rw [hslot]; exact hvalid)
  rw [hslot] at hlog
  exact hlog

theorem Fresh.valid_eq (h : Fresh c) (s : ℕ) : (c.ack.ackSlots s).valid = false := by
  have hestablish : ∀ (cc : σ) (now : ℤ) (ep : EstablishParams) s,
      ((Conn.establish cc now ep).ack.ackSlots s).valid = false := by
    intro cc now ep s
    rw [establish_eq]
    rfl
  cases h with
  | establish cc now ep => exact hestablish cc now ep s
  | connectHSv4 cc now ep hsreq =>
    unfold Conn.connectHSv4
    simp only
    split_ifs
    · rw [initHSv4KM, sendKMREQ_eq]
      exact hestablish cc now ep s
    · exact hestablish cc now ep s

/-- **Round-trip samples.**  After any run, an echo is ignored, or gives the time since the last
acknowledgement with its number, which is still in its slot and has not been sampled before.  The
confirmed acknowledgement only moves forward, to one that was sent. -/
theorem rtt_samples_match (hfresh : Fresh c) (is : List Input) :
    let b := exec Conn.step c is
    (∀ (now : ℤ) (p : Packet), p.header.isControl = true → p.header.controlType = .ackack →
      (b.step (.packet now p)).ack = b.ack ∨
        ∃ l₃ e l₄, c.ackLog is = l₃ ++ .sent e :: l₄ ∧ e.ackNo = p.header.typeSpecific ∧
          (∀ ev ∈ l₄, ev.slot ≠ p.header.typeSpecific % ackTimeSlots) ∧
          b.ackEvents (.packet now p) = [.echoed p.header.typeSpecific now (now - e.sendTime)] ∧
          Sampled b.ack (b.step (.packet now p)).ack (now - e.sendTime)) ∧
      ∀ i, (b.step i).ack.rcvLastAckAck = b.ack.rcvLastAckAck ∨
        greaterThan (b.step i).ack.rcvLastAckAck b.ack.rcvLastAckAck = true ∧
          ∃ e, .sent e ∈ c.ackLog is ∧ e.dataSeq = (b.step i).ack.rcvLastAckAck := by
  intro b
  have hholding : Holding b (c.ackLog is) := holding_exec hfresh.valid_eq is
  refine ⟨fun now p hcontrol htype => ?_, fun i => ?_⟩
  · obtain ⟨hstep, ⟨-, hignored⟩ | ⟨sample, hevents, hsampled⟩⟩ :=
      ackStep_echo b now ⟨hcontrol, htype⟩
    · exact Or.inl hignored
    · rw [hevents] at hstep ⊢
      generalize p.header.typeSpecific = n at *
      cases hstep with
      | @echoed now e hslot hvalid hslots hlast =>
          obtain ⟨l₃, l₄, hlog, hlater⟩ := hholding.echo hslot hvalid
          exact Or.inr ⟨l₃, e, l₄, hlog, rfl, hlater, rfl, hsampled⟩
  · have hstep := ackStep b i
    generalize b.ackEvents i = evs at hstep
    cases hstep with
    | same h => exact Or.inl h.rcvLastAckAck
    | sent hno hslots hlast => exact Or.inl hlast
    | @echoed now e hslot hvalid hslots hlast =>
        rw [hlast]
        split_ifs with hgreater
        · obtain ⟨l₃, l₄, hlog, -⟩ := hholding.echo hslot hvalid
          exact Or.inr ⟨hgreater, e, by rw [hlog]; simp, rfl⟩
        · exact Or.inl rfl

end Conn

section Wrap

open Conn
open scoped XorCipher

def ackTimers : ℕ → List Input
  | 0 => []
  | n + 1 => ackTimers n ++ [.timer (10000 * (n + 1)) .ack]

def silent : Conn LiveCC := establish (LiveCC.new 0 0) 0 {}

def echoOf (ackNo : ℕ) : Packet :=
  { header := { isControl := true, controlType := .ackack, typeSpecific := ackNo } }

/-- The first acknowledgement is echoed after five milliseconds. -/
theorem rtt_samples_match_echoed :
    let b := exec Conn.step silent (ackTimers 1)
    let b' := b.step (.packet 15000 (echoOf 1))
    (∃ l₃ e l₄, silent.ackLog (ackTimers 1) = l₃ ++ .sent e :: l₄ ∧ e.ackNo = 1 ∧
      15000 - e.sendTime = 5000 ∧ Sampled b.ack b'.ack 5000) ∧
    (b'.ack.rcvLastAckAck = b.ack.rcvLastAckAck ∨
      greaterThan b'.ack.rcvLastAckAck b.ack.rcvLastAckAck = true ∧
        ∃ e, .sent e ∈ silent.ackLog (ackTimers 1) ∧ e.dataSeq = b'.ack.rcvLastAckAck) := by
  intro b b'
  obtain ⟨hecho, hlast⟩ := rtt_samples_match (.establish (LiveCC.new 0 0) 0 {}) (ackTimers 1)
  refine ⟨?_, hlast _⟩
  rcases hecho 15000 (echoOf 1) rfl rfl with hsame | ⟨l₃, e, l₄, hlog, hno, -, hevents, hsampled⟩
  · have hrtt : b'.ack.rtt ≠ b.ack.rtt := by decide +kernel
    exact absurd (congrArg AckSide.rtt hsame) hrtt
  · have hsample : b.ackEvents (.packet 15000 (echoOf 1)) = [.echoed 1 15000 5000] := rfl
    have hsame : (5000 : ℤ) = 15000 - e.sendTime :=
      (AckEvent.echoed.inj (List.cons.inj (hsample.symm.trans hevents)).1).2.2
    exact ⟨l₃, e, l₄, hlog, hno, hsame.symm, hsame ▸ hsampled⟩

/-- Acknowledgements are numbered up to the wrap, where zero is skipped, and with it the slot of
number `2 ^ 32 - 64`. -/
theorem exec_ackTimers (n : ℕ) (hn : n ≤ 2 ^ 32) :
    let b := exec Conn.step silent (ackTimers n)
    b.closed = false ∧ b.ack.lastFullACKTime ≤ 10000 * n ∧
      b.ack.ackSeqNo = (if n = 2 ^ 32 then 1 else n) ∧
      (2 ^ 32 - 64 ≤ n → (b.ack.ackSlots 0).valid = true ∧
        (b.ack.ackSlots 0).ackNo = 2 ^ 32 - 64) := by
  induction n with
  | zero => exact ⟨rfl, le_rfl, rfl, by omega⟩
  | succ n ih =>
    obtain ⟨hopen, hlast, hno, hslot⟩ := ih (by omega)
    rw [if_neg (by omega)] at hno
    have hnext : nextAckNo n = if n + 1 = 2 ^ 32 then 1 else n + 1 := by
      unfold nextAckNo
      split_ifs <;> omega
    obtain ⟨hopen', hack⟩ := ack_timer hopen (10000 * (n + 1))
    rw [if_neg (by unfold synInterval; omega), hno, hnext] at hack
    have hexec : exec Conn.step silent (ackTimers (n + 1)) =
        (exec Conn.step silent (ackTimers n)).step (.timer (10000 * (n + 1)) .ack) := by
      rw [ackTimers, exec_append]
      rfl
    simp only [hexec, hack]
    refine ⟨hopen', by push_cast; exact le_rfl, trivial, fun hlate => ?_⟩
    unfold ackTimeSlots
    by_cases hfirst : n + 1 = 2 ^ 32 - 64
    · rw [hfirst]
      exact ⟨rfl, rfl⟩
    · rw [update_of_ne (by split_ifs <;> omega)]
      exact hslot (by omega)

/-- The 64th acknowledgement after the one numbered `2 ^ 32 - 64` has been sent, and an echo of that
one is still matched. -/
theorem old_echo_matched :
    (exec Conn.step silent (ackTimers (2 ^ 32 - 64))).ack.ackSeqNo = 2 ^ 32 - 64 ∧
      (exec Conn.step silent (ackTimers (2 ^ 32))).ack.ackSeqNo = nextAckNo^[64] (2 ^ 32 - 64) ∧
      (exec Conn.step silent (ackTimers (2 ^ 32))).ackEvents
        (.packet 0 (echoOf (2 ^ 32 - 64))) ≠ [] := by
  obtain ⟨-, -, hbefore, -⟩ := exec_ackTimers (2 ^ 32 - 64) (by norm_num)
  obtain ⟨hopen, -, hno, hslot⟩ := exec_ackTimers (2 ^ 32) le_rfl
  refine ⟨hbefore.trans (if_neg (by norm_num)), hno.trans (by decide +kernel), ?_⟩
  have hzero : (echoOf (2 ^ 32 - 64)).header.typeSpecific % ackTimeSlots = 0 := by decide
  rw [ackEvents, if_pos ⟨hopen, rfl, rfl⟩, matchedEcho, hzero]
  exact (if_pos (hslot (by norm_num))).trans_ne (List.cons_ne_nil _ _)

end Wrap

end SrtGo.Core
