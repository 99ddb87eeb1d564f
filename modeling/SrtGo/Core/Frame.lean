import SrtGo.Core.KeyMessages
import SrtGo.Core.Step
import Mathlib.Logic.Relation

/-!
# What the parts of a connection leave alone

The send path never touches the receive side, and the receive path never touches the
keys or the packets that wait to be acknowledged.  `SendFrame` and `RecvFrame` say this
for each function, in a form that composes, so that an invariant of one side only has to
look at the functions of that side.
-/

namespace SrtGo.Core

open Buffer Congestion Crypto SrtGo.Filter

def Output.packet? : Output → Option Packet
  | .sendPacket p _ => some p
  | _ => none

theorem getElem?_concat_cases {α : Type*} {l : List α} {a b : α} {i : ℕ}
    (h : (l ++ [a])[i]? = some b) : l[i]? = some b ∨ i = l.length ∧ b = a := by
  rcases lt_trichotomy i l.length with hlt | rfl | hgt
  · rw [List.getElem?_append_left hlt] at h
    exact Or.inl h
  · rw [List.getElem?_concat_length] at h
    exact Or.inr ⟨rfl, (Option.some.inj h).symm⟩
  · rw [List.getElem?_eq_none (by rw [List.length_append, List.length_singleton]; omega)] at h
    exact absurd h (by simp)

namespace Conn

variable {σ : Type} {c c' c'' : Conn σ} {Q : Output → Prop} {now : ℤ}

/-- The send path changes the send side, the keys, the outputs and the history only. -/
structure SendFrame (c c' : Conn σ) : Prop where
  params : c'.params = c.params
  rcv : c'.rcv = c.rcv
  ack : c'.ack = c.ack
  closed : c'.closed = c.closed
  events : c'.events = c.events

theorem SendFrame.refl (c : Conn σ) : SendFrame c c := ⟨rfl, rfl, rfl, rfl, rfl⟩

theorem SendFrame.trans (h : SendFrame c c') (h' : SendFrame c' c'') : SendFrame c c'' :=
  ⟨h'.params.trans h.params, h'.rcv.trans h.rcv, h'.ack.trans h.ack, h'.closed.trans h.closed,
    h'.events.trans h.events⟩

theorem SendFrame.after (h' : SendFrame c' c'') (h : SendFrame c c') : SendFrame c c'' := h.trans h'

/-- The receive path changes the receive side, the acknowledgements, the controller,
the outputs and the events only. -/
structure RecvFrame (c c' : Conn σ) : Prop where
  params : c'.params = c.params
  snd : c'.snd = { c.snd with sendCC := c'.snd.sendCC }
  key : c'.key = c.key
  closed : c'.closed = c.closed
  history : c'.history = c.history

theorem RecvFrame.refl (c : Conn σ) : RecvFrame c c := ⟨rfl, rfl, rfl, rfl, rfl⟩

theorem RecvFrame.trans (h : RecvFrame c c') (h' : RecvFrame c' c'') : RecvFrame c c'' :=
  ⟨h'.params.trans h.params, by rw [h'.snd, h.snd], h'.key.trans h.key, h'.closed.trans h.closed,
    h'.history.trans h.history⟩

theorem RecvFrame.after (h' : RecvFrame c' c'') (h : RecvFrame c c') : RecvFrame c c'' := h.trans h'

theorem RecvFrame.sendBuf (h : RecvFrame c c') : c'.snd.sendBuf = c.snd.sendBuf := by rw [h.snd]

/-- `c'` has queued outputs that all satisfy `Q`. -/
def Emits (Q : Output → Prop) (c c' : Conn σ) : Prop :=
  ∃ os, c'.outputs = c.outputs ++ os ∧ ∀ o ∈ os, Q o

namespace Emits

variable {Q R : Output → Prop} {o : Output}

theorem refl (Q : Output → Prop) (c : Conn σ) : Emits Q c c := ⟨[], by simp, by simp⟩

theorem of_eq (h : c'.outputs = c.outputs) : Emits Q c c' := ⟨[], by simp [h], by simp⟩

theorem push (c : Conn σ) (ho : Q o) : Emits Q c (c.push o) :=
  ⟨[o], rfl, by simpa using ho⟩

theorem trans (h : Emits Q c c') (h' : Emits Q c' c'') : Emits Q c c'' := by
  obtain ⟨os, hos, hQ⟩ := h
  obtain ⟨os', hos', hQ'⟩ := h'
  refine ⟨os ++ os', by rw [hos', hos, List.append_assoc], fun o ho => ?_⟩
  rcases List.mem_append.mp ho with ho | ho
  · exact hQ o ho
  · exact hQ' o ho

theorem mono (h : Emits Q c c') (hQR : ∀ o, Q o → R o) : Emits R c c' := by
  obtain ⟨os, hos, hQ⟩ := h
  exact ⟨os, hos, fun o ho => hQR o (hQ o ho)⟩

theorem mem (h : Emits Q c c') (ho : o ∈ c'.outputs) : o ∈ c.outputs ∨ Q o := by
  obtain ⟨os, hos, hQ⟩ := h
  rw [hos] at ho
  rcases List.mem_append.mp ho with ho | ho
  · exact Or.inl ho
  · exact Or.inr (hQ o ho)

end Emits

def Owned : Output → Prop
  | .sendPacket _ owned => owned = true
  | .setTimer _ _ => True
  | .clearTimer _ => True

/-! ## The send path -/

theorem foldl_send_eq (ps : List Packet) (c : Conn σ) :
    ps.foldl send c = { c with outputs := c.outputs ++ ps.map fun p => .sendPacket p true } := by
  induction ps generalizing c with
  | nil => simp
  | cons p ps ih => simp [ih, send, push]

theorem emits_foldl_send (ps : List Packet) (c : Conn σ) (h : ∀ p ∈ ps, Q (.sendPacket p true)) :
    Emits Q c (ps.foldl send c) := by
  rw [foldl_send_eq]
  exact ⟨_, rfl, by simpa using h⟩

theorem feedFEC_spec (c : Conn σ) (p : Packet) : ∃ fec os,
    c.feedFEC p = { c with snd := { c.snd with fecSender := fec }, outputs := c.outputs ++ os } ∧
      ∀ o ∈ os, ∃ fp, o = .sendPacket (c.repairPacket fp) true := by
  unfold feedFEC
  split
  · exact ⟨c.snd.fecSender, [], by simp, by simp⟩
  · rw [foldl_send_eq]
    exact ⟨_, _, rfl, by simp⟩

theorem sendFrame_foldl_send (ps : List Packet) (c : Conn σ) : SendFrame c (ps.foldl send c) := by
  rw [foldl_send_eq]
  exact ⟨rfl, rfl, rfl, rfl, rfl⟩

theorem sendFrame_checkSendDrop (c : Conn σ) (now : ℤ) : SendFrame c (c.checkSendDrop now) := by
  unfold checkSendDrop
  simp only
  split_ifs <;> exact ⟨rfl, rfl, rfl, rfl, rfl⟩

theorem sendFrame_feedFEC (c : Conn σ) (p : Packet) : SendFrame c (c.feedFEC p) := by
  obtain ⟨fec, os, heq, -⟩ := c.feedFEC_spec p
  rw [heq]
  exact ⟨rfl, rfl, rfl, rfl, rfl⟩

section
variable [Primitives]

theorem sendFrame_checkKeyRotation (c : Conn σ) (now : ℤ) :
    SendFrame c (c.checkKeyRotation now) := by
  rw [checkKeyRotation_eq]
  exact ⟨rfl, rfl, rfl, rfl, rfl⟩

variable [Controller σ]

theorem sendFrame_sendData (c : Conn σ) (now : ℤ) (seqNo ts : ℕ) (f : Frame) :
    SendFrame c (c.sendData now seqNo ts f) := by
  unfold sendData
  simp only
  split
  · exact SendFrame.refl c
  · unfold afterSend
    split_ifs
    · exact (sendFrame_checkKeyRotation _ now).after
        ((sendFrame_feedFEC _ _).after ⟨rfl, rfl, rfl, rfl, rfl⟩)
    · exact (sendFrame_feedFEC _ _).after ⟨rfl, rfl, rfl, rfl, rfl⟩

theorem sendFrame_sendPaced (c : Conn σ) (now : ℤ) (f : Frame) :
    SendFrame c (c.sendPaced now f) := by
  have hsend := sendFrame_sendData c now c.snd.sendBuf.nextSeq
    (if f.srcTime = 0 then c.wireTS now else f.srcTime) f
  exact { hsend with }

/-- The invariant rule of the pump: a frame is only sent into an open window at its time. -/
theorem pumpLoop_preserves {Q : Conn σ → Prop} (now : ℤ)
    (harm : ∀ c deadline, Q c → Q (c.push (.setTimer .sndPacing deadline)))
    (hsend : ∀ c f rest, c.snd.sendQueue = f :: rest → c.snd.sendBuf.size < c.window →
      ¬(c.snd.nextSendTime ≠ 0 ∧ now < c.snd.nextSendTime) → Q c →
        Q ((c.dequeue rest).sendPaced now f))
    (fuel : ℕ) (c : Conn σ) (hc : Q c) : Q (pumpLoop now fuel c) := by
  induction fuel generalizing c with
  | zero => exact hc
  | succ fuel ih =>
    rw [pumpLoop]
    split
    · exact hc
    · rename_i f rest hqueue
      split_ifs with hfull hwait
      · exact hc
      · exact harm c _ hc
      · exact ih _ (hsend c f rest hqueue (not_le.mp hfull) hwait hc)

theorem sendFrame_pumpLoop (now : ℤ) (fuel : ℕ) (c : Conn σ) :
    SendFrame c (pumpLoop now fuel c) := by
  refine pumpLoop_preserves now (fun b _ h => h.trans ⟨rfl, rfl, rfl, rfl, rfl⟩)
    (fun b f rest _ _ _ h => h.trans ?_) fuel c (SendFrame.refl c)
  exact (sendFrame_sendPaced (b.dequeue rest) now f).after ⟨rfl, rfl, rfl, rfl, rfl⟩

theorem sendFrame_pump (c : Conn σ) (now : ℤ) : SendFrame c (c.pump now) :=
  (sendFrame_checkSendDrop c now).trans (sendFrame_pumpLoop now _ _)

theorem sendFrame_writeMsg (c : Conn σ) (now : ℤ) (payload : Bytes) (opts : MsgOptions) :
    SendFrame c (c.writeMsg now payload opts) := by
  unfold writeMsg
  split_ifs
  · exact SendFrame.refl c
  · exact (sendFrame_pump _ now).after ⟨rfl, rfl, rfl, rfl, rfl⟩

end

theorem window_le_flowWindow [Controller σ] (c : Conn σ) : c.window ≤ c.params.flowWindow := by
  unfold window
  split_ifs with hwin
  · exact (min_le_left _ _).trans hwin.2.le
  · exact min_le_left _ _

theorem armTimers_spec [Controller σ] (c : Conn σ) (now : ℤ) :
    ∃ os, c.armTimers now = { c with outputs := c.outputs ++ os } ∧
      ∀ o ∈ os, ∃ id deadline, o = .setTimer id deadline := by
  unfold armTimers
  simp only
  split_ifs <;> simp only [push, List.append_assoc] <;> exact ⟨_, rfl, by simp⟩

theorem exists_establish_eq [Controller σ] (cc : σ) (now : ℤ) (ep : EstablishParams) :
    ∃ os, establish cc now ep = { established cc now ep with outputs := os } := by
  obtain ⟨os, heq, -⟩ := armTimers_spec (established cc now ep) now
  exact ⟨_, heq⟩

theorem establish_eq [Controller σ] (cc : σ) (now : ℤ) (ep : EstablishParams) :
    establish cc now ep =
      { established cc now ep with outputs := (establish cc now ep).outputs } := by
  obtain ⟨os, heq, -⟩ := armTimers_spec (established cc now ep) now
  rw [establish, heq]

/-! ## The receive path -/

theorem recvFrame_push (c : Conn σ) (o : Output) : RecvFrame c (c.push o) :=
  ⟨rfl, rfl, rfl, rfl, rfl⟩

/-- One move of delivery: packets are handed over, late ones are skipped, or the timer for the next
one is set. -/
inductive Deliver (now : ℤ) : Conn σ → Conn σ → Prop
  | read (c : Conn σ) {rb : RecvBuffer} {p : Packet} (htimer : c.rcv.tsbpdTimer = none)
      (hread : c.rcv.recvBuf.readNext = (rb, some p)) : Deliver now c ((c.setRecvBuf rb).emitData p)
  | message (c : Conn σ) {rb : RecvBuffer} {pkts : List Packet} (htimer : c.rcv.tsbpdTimer = none)
      (hmode : c.params.messageMode = true) (hread : c.rcv.recvBuf.readMessage = (rb, some pkts)) :
      Deliver now c ((c.setRecvBuf rb).emitMessage pkts)
  | messageEnd (c : Conn σ) {rb : RecvBuffer} (htimer : c.rcv.tsbpdTimer = none)
      (hread : c.rcv.recvBuf.readMessage = (rb, none)) : Deliver now c (c.setRecvBuf rb)
  | play (c : Conn σ) {timer : Tsbpd.Timer} {rb : RecvBuffer} {p : Packet}
      (htimer : c.rcv.tsbpdTimer = some timer)
      (hread : c.rcv.recvBuf.readTSBPD now timer.deliveryTime = (rb, some p)) :
      Deliver now c (((c.setRecvBuf rb).modifyTimer (·.updateWrap p.header.timestamp)).emitData p)
  | skip (c : Conn σ) {timer : Tsbpd.Timer} (htimer : c.rcv.tsbpdTimer = some timer) :
      Deliver now c (c.skipTooLate now timer)
  | arm (c : Conn σ) (deadline : ℤ) : Deliver now c (c.push (.setTimer .tsbpd deadline))

abbrev Deliveries (now : ℤ) : Conn σ → Conn σ → Prop := Relation.ReflTransGen (Deliver now)

theorem deliveries_deliverLoop (now : ℤ) (fuel : ℕ) (c : Conn σ)
    (htimer : c.rcv.tsbpdTimer = none) :
    Deliveries now c (deliverLoop fuel c) := by
  induction fuel generalizing c with
  | zero => exact .refl
  | succ fuel ih =>
    rw [deliverLoop]
    split
    · exact .refl
    · rename_i rb p hread
      exact .head (.read c htimer hread) (ih _ htimer)

theorem deliveries_deliverMessagesLoop (now : ℤ) (fuel : ℕ) (c : Conn σ)
    (htimer : c.rcv.tsbpdTimer = none)
    (hmode : c.params.messageMode = true) : Deliveries now c (deliverMessagesLoop fuel c) := by
  induction fuel generalizing c with
  | zero => exact .refl
  | succ fuel ih =>
    rw [deliverMessagesLoop]
    split
    · rename_i rb hread
      exact .single (.messageEnd c htimer hread)
    · rename_i rb pkts hread
      exact .head (.message c htimer hmode hread) (ih _ htimer hmode)

theorem deliveries_playLoop (now : ℤ) (fuel : ℕ) (c : Conn σ) :
    Deliveries now c (playLoop now fuel c) := by
  induction fuel generalizing c with
  | zero => exact .refl
  | succ fuel ih =>
    rw [playLoop]
    split
    · exact .refl
    · rename_i timer htimer
      split
      · exact .refl
      · rename_i rb p hread
        exact .head (.play c htimer hread) (ih _)

theorem deliveries_deliverTSBPD (c : Conn σ) (now : ℤ) : Deliveries now c (c.deliverTSBPD now) := by
  have harm : ∀ c : Conn σ, Deliveries now c c.armPlayout := by
    intro c
    unfold armPlayout
    split
    · exact .single (.arm c _)
    · exact .refl
  unfold deliverTSBPD
  split
  · exact .refl
  · rename_i timer htimer
    exact .head (.skip c htimer) ((deliveries_playLoop now _ _).trans (harm _))

theorem deliveries_deliverNow (c : Conn σ) (now : ℤ) : Deliveries now c (c.deliverNow now) := by
  unfold deliverNow
  cases htimer : c.rcv.tsbpdTimer with
  | some timer => exact deliveries_deliverTSBPD c now
  | none =>
    simp only [Option.isSome_none, Bool.false_eq_true, if_false]
    split_ifs with hmode
    · exact deliveries_deliverMessagesLoop now _ c htimer hmode
    · exact deliveries_deliverLoop now _ c htimer

/-- Delivery changes the receive buffer, the playout timer and the events only, and may set
the timer for the next packet. -/
structure DeliveryFrame (c c' : Conn σ) : Prop where
  rest : c' = { c with
    rcv := { c.rcv with recvBuf := c'.rcv.recvBuf, tsbpdTimer := c'.rcv.tsbpdTimer }
    outputs := c'.outputs
    events := c'.events }
  live : c'.rcv.tsbpdTimer.isSome = c.rcv.tsbpdTimer.isSome
  emits : Emits (fun o => ∃ deadline, o = .setTimer .tsbpd deadline) c c'

theorem DeliveryFrame.refl (c : Conn σ) : DeliveryFrame c c := ⟨rfl, rfl, Emits.refl _ c⟩

theorem DeliveryFrame.after (h' : DeliveryFrame c' c'') (h : DeliveryFrame c c') :
    DeliveryFrame c c'' :=
  ⟨by rw [h'.rest, h.rest], h'.live.trans h.live, h.emits.trans h'.emits⟩

theorem DeliveryFrame.recvFrame (h : DeliveryFrame c c') : RecvFrame c c' := by
  rw [h.rest]
  exact ⟨rfl, rfl, rfl, rfl, rfl⟩

theorem Deliver.frame (h : Deliver now c c') : DeliveryFrame c c' := by
  cases h with
  | play htimer hread => exact ⟨rfl, Option.isSome_map, Emits.of_eq rfl⟩
  | arm deadline => exact ⟨rfl, rfl, Emits.push _ ⟨_, rfl⟩⟩
  | _ => exact ⟨rfl, rfl, Emits.of_eq rfl⟩

theorem Deliveries.frame (h : Deliveries now c c') : DeliveryFrame c c' := by
  induction h with
  | refl => exact DeliveryFrame.refl c
  | tail _ hmove ih => exact hmove.frame.after ih

theorem deliveryFrame_deliverTSBPD (c : Conn σ) (now : ℤ) : DeliveryFrame c (c.deliverTSBPD now) :=
  (deliveries_deliverTSBPD c now).frame

theorem deliveryFrame_deliverNow (c : Conn σ) (now : ℤ) : DeliveryFrame c (c.deliverNow now) :=
  (deliveries_deliverNow c now).frame

theorem DeliveryFrame.emits_of (h : DeliveryFrame c c')
    (hQ : ∀ deadline, Q (.setTimer .tsbpd deadline)) :
    Emits Q c c' := by
  refine h.emits.mono fun o ho => ?_
  obtain ⟨deadline, rfl⟩ := ho
  exact hQ deadline

theorem emits_deliverNow (hQ : ∀ deadline, Q (.setTimer .tsbpd deadline)) (c : Conn σ) (now : ℤ) :
    Emits Q c (c.deliverNow now) := (deliveryFrame_deliverNow c now).emits_of hQ

theorem DeliveryFrame.deferredLoss (h : DeliveryFrame c c') : c'.rcv.deferredLoss =
    c.rcv.deferredLoss := by rw [h.rest]

/-- Reports leave the received packets alone, and all they queue satisfies `Q`. -/
structure ReportFrame (Q : Output → Prop) (c c' : Conn σ) : Prop where
  recvBuf : c'.rcv.recvBuf = c.rcv.recvBuf
  fecReceiver : c'.rcv.fecReceiver = c.rcv.fecReceiver
  tsbpdTimer : c'.rcv.tsbpdTimer = c.rcv.tsbpdTimer
  events : c'.events = c.events
  emits : Emits Q c c'

theorem ReportFrame.refl (Q : Output → Prop) (c : Conn σ) : ReportFrame Q c c :=
  ⟨rfl, rfl, rfl, rfl, Emits.refl Q c⟩

theorem ReportFrame.mono {R : Output → Prop} (h : ReportFrame Q c c') (hQR : ∀ o, Q o → R o) :
    ReportFrame R c c' :=
  { h with emits := h.emits.mono hQR }

def IsReport (t : CtrlType) : Output → Prop
  | .sendPacket p owned => p.header.isControl = true ∧ p.header.controlType = t ∧ owned = true
  | .setTimer _ _ => True
  | .clearTimer _ => True

def IsLossReport (o : Output) : Prop :=
  ∃ p, o = .sendPacket p true ∧ p.header.isControl = true ∧ p.header.controlType = .nak

/-- Reporting losses changes the losses that are held back only, and queues reports. -/
structure Reports (c c' : Conn σ) : Prop where
  rest : c' =
    { c with rcv := { c.rcv with deferredLoss := c'.rcv.deferredLoss }, outputs := c'.outputs }
  emits : Emits IsLossReport c c'

theorem Reports.refl (c : Conn σ) : Reports c c := ⟨rfl, Emits.refl _ c⟩

theorem Reports.trans (h : Reports c c') (h' : Reports c' c'') : Reports c c'' :=
  ⟨by rw [h'.rest, h.rest], h.emits.trans h'.emits⟩

theorem Reports.recvFrame (h : Reports c c') : RecvFrame c c' := by
  rw [h.rest]
  exact ⟨rfl, rfl, rfl, rfl, rfl⟩

theorem Reports.reportFrame (h : Reports c c') : ReportFrame (IsReport .nak) c c' := by
  have hemits : Emits (IsReport .nak) c c' := by
    refine h.emits.mono fun o ho => ?_
    obtain ⟨p, rfl, hcontrol, htype⟩ := ho
    exact ⟨hcontrol, htype, rfl⟩
  refine ⟨?_, ?_, ?_, ?_, hemits⟩ <;> rw [h.rest]

theorem reports_emitNAK (c : Conn σ) (now : ℤ) (losses : List ℕ) :
    Reports c (c.emitNAK now losses) := by
  unfold emitNAK
  split_ifs
  · exact Reports.refl c
  · exact ⟨rfl, Emits.push c ⟨_, rfl, rfl, rfl⟩⟩

theorem reports_setDeferredLoss (c : Conn σ) (losses : List ℕ) :
    Reports c (c.setDeferredLoss losses) :=
  ⟨rfl, Emits.of_eq rfl⟩

theorem reports_flushDeferredLoss (c : Conn σ) (now : ℤ) (frontier : ℕ) :
    Reports c (c.flushDeferredLoss now frontier) := by
  have hfold : ∀ (xs : List ℕ) (c : Conn σ), Reports c
      (xs.foldl (fun c s => c.sendImmediateNAK now s s) c) := by
    intro xs
    induction xs with
    | nil => exact Reports.refl
    | cons x xs ih => exact fun c => (reports_emitNAK c now _).trans (ih _)
  exact (hfold _ c).trans (reports_setDeferredLoss _ _)

theorem reports_reportGap (c : Conn σ) (now : ℤ) (gapStart gapEnd : ℕ) :
    Reports c (c.reportGap now gapStart gapEnd) := by
  unfold reportGap
  split_ifs
  · exact reports_emitNAK c now _
  · exact reports_setDeferredLoss c _
  · exact (reports_emitNAK c now _).trans (reports_setDeferredLoss _ _)

theorem reports_reportLosses [Controller σ] (c : Conn σ) (now : ℤ) (res : InsertResult)
    (seqNo : ℕ) :
    Reports c (c.reportLosses now res seqNo) := by
  have hgap := reports_reportGap c now res.gapStart res.gapEnd
  unfold reportLosses
  simp only
  split_ifs
  · exact hgap.trans (reports_flushDeferredLoss _ now seqNo)
  · exact hgap
  · exact reports_flushDeferredLoss c now seqNo
  · exact Reports.refl c

theorem recvFrame_checkLiteACK (c : Conn σ) (now : ℤ) : RecvFrame c (c.checkLiteACK now) := by
  unfold checkLiteACK
  split_ifs
  · exact ⟨rfl, rfl, rfl, rfl, rfl⟩
  · exact RecvFrame.refl c

theorem recvFrame_handleACKACK (c : Conn σ) (now : ℤ) (p : Packet) :
    RecvFrame c (c.handleACKACK now p) := by
  unfold handleACKACK
  simp only
  split_ifs <;> exact ⟨rfl, rfl, rfl, rfl, rfl⟩

section
variable [Controller σ]

theorem recvFrame_sendFullACK (c : Conn σ) (now : ℤ) : RecvFrame c (c.sendFullACK now) := by
  unfold sendFullACK
  simp only
  split_ifs
  · exact RecvFrame.refl c
  · exact ⟨rfl, rfl, rfl, rfl, rfl⟩

theorem recvFrame_noteArrival (c : Conn σ) (now : ℤ) (p : Packet) :
    RecvFrame c (c.noteArrival now p) := ⟨rfl, rfl, rfl, rfl, rfl⟩

end

end Conn

end SrtGo.Core
