import SrtGo.Buffer.RecvWindow
import SrtGo.Core.SendStep
import SrtGo.Transfer.Sender

/-!
# The receiver of a transfer

`RecvState isn log w rb` says how far a receive buffer has got with the fragments `log` of
the peer.  The window `w` of the buffer starts right after what has left it, and every
packet that waits in the window is the one the peer has sent at that position.

What has left the window has been handed to the application.  How this is done depends on
the mode of the connection: packet by packet, or one message at a time.  A `Discipline` is
what the transfer has to know about it.

A data packet is put into the window, losses are reported, and whatever can be delivered
then is delivered.  The acknowledgement point of the window is the first gap, so that an
acknowledgement never covers a packet that has not been accepted.  Acceptance (`Got`) is
never taken back.
-/

namespace SrtGo.Core

open Buffer Bytes Congestion Crypto SrtGo.Seq

/-- The position has left the window, or a packet for it waits. -/
def Got (w : Window) (p : ℕ) : Prop := p < w.start ∨ (w.cell p).state ≠ .empty

/-- The window moves forward, and acceptance is not taken back. -/
structure Forward (w w' : Window) : Prop where
  start_le : w.start ≤ w'.start
  got : ∀ p, Got w p → Got w' p

theorem Forward.refl (w : Window) : Forward w w := ⟨le_rfl, fun _ hp => hp⟩

theorem Forward.trans {w w' w'' : Window} (h : Forward w w') (h' : Forward w' w'') :
    Forward w w'' :=
  ⟨h.start_le.trans h'.start_le, fun p hp => h'.got p (h.got p hp)⟩

theorem forward_skip (w : Window) {r : ℕ} (hstart : w.start ≤ r) (hstop : r ≤ w.stop) :
    Forward w (w.skip r hstop) :=
  ⟨hstart, fun _ hp => hp.imp_left fun hlt => Nat.lt_of_lt_of_le hlt hstart⟩

/-- The window starts after a first part of the log, and what waits in it is what the log
has there. -/
structure RecvState (isn : ℕ) (log : List Fragment) (w : Window) (rb : RecvBuffer) : Prop where
  window : Shows rb w
  isn_le : isn ≤ w.start
  start_le : w.start ≤ isn + log.length
  filled : ∀ i, w.start ≤ isn + i → (w.cell (isn + i)).state = .empty ∨
    (w.cell (isn + i)).state = .available ∧
      log[i]? = some (Fragment.ofPacket (w.cell (isn + i)).pkt) ∧
      (w.cell (isn + i)).pkt.header.sequenceNumber = wrap (isn + i)

variable {rb : RecvBuffer}

theorem RecvState.mono {isn : ℕ} {log log' : List Fragment} {w : Window}
    (h : RecvState isn log w rb) (hlog : log <+: log') : RecvState isn log' w rb where
  window := h.window
  isn_le := h.isn_le
  start_le := h.start_le.trans (Nat.add_le_add_left hlog.length_le isn)
  filled i hi := (h.filled i hi).imp_right fun ⟨hstate, hlogged, hseq⟩ =>
    ⟨hstate, getElem?_of_prefix hlog hlogged, hseq⟩

/-- How a connection hands what it has received to the application. -/
structure Discipline where
  message : Bool
  /-- The logs that may be sent. -/
  Fit : List Fragment → Prop
  /-- The events tell the application what the log has before the position `start`. -/
  Told (isn : ℕ) (log : List Fragment) (start : ℕ) (rb : RecvBuffer) (events : List Event) : Prop
  fit_prefix : ∀ {log log'}, Fit log' → log <+: log' → Fit log
  mono : ∀ {isn log log' start rb events}, Told isn log start rb events → log <+: log' →
    Told isn log' start rb events
  news : ∀ {isn log start rb events} {e : Event}, Told isn log start rb events → e.isData = false →
    Told isn log start rb (events ++ [e])
  store : ∀ {isn log start rb events} {p : Packet}, Told isn log start rb events → Fit log →
    Fragment.ofPacket p ∈ log → ∀ now, Told isn log start (rb.store p now) events
  deliver : ∀ {σ : Type} {c : Conn σ} {isn log} {w : Window}, c.rcv.tsbpdTimer = none →
    c.params.messageMode = message → Fit log → RecvState isn log w c.rcv.recvBuf →
    Told isn log w.start c.rcv.recvBuf c.events → ∀ now,
    ∃ w', RecvState isn log w' (c.deliverNow now).rcv.recvBuf ∧
      Told isn log w'.start (c.deliverNow now).rcv.recvBuf (c.deliverNow now).events ∧
      Forward w w'

variable {σ : Type}

structure Receives (D : Discipline) (isn : ℕ) (log : List Fragment) (w : Window) (c : Conn σ) :
    Prop where
  fit : D.Fit log
  state : RecvState isn log w c.rcv.recvBuf
  told : D.Told isn log w.start c.rcv.recvBuf c.events

/-- An answer of a receiver whose window started at `base`: a report, or an
acknowledgement of a point before which everything has been accepted. -/
def Answers (isn base : ℕ) (w : Window) : Output → Prop
  | .sendPacket p _ => p.header.isControl = true ∧
      (p.header.controlType ∈ [.nak, .ackack, .keepalive] ∨
        p.header.controlType = .ack ∧ ∃ a, base ≤ isn + a ∧ isn + a ≤ base + 2 ^ 30 ∧
          uint32At p.data 0 = wrap (isn + a) ∧ ∀ i < a, Got w (isn + i))
  | .setTimer _ _ => True
  | .clearTimer _ => True

variable {D : Discipline} {isn base i : ℕ} {log log' : List Fragment} {w w' w'' : Window}
  {c c' c'' : Conn σ} {p : Packet} {o : Output}

theorem Answers.mono (hgot : ∀ p, Got w p → Got w' p) (h : Answers isn base w o) :
    Answers isn base w' o := by
  cases o with
  | sendPacket p owned =>
    refine ⟨h.1, h.2.imp_right fun hack => ?_⟩
    obtain ⟨ht, a, hbase, hreach, hseq, hall⟩ := hack
    exact ⟨ht, a, hbase, hreach, hseq, fun i hi => hgot _ (hall i hi)⟩
  | setTimer id deadline => trivial
  | clearTimer id => trivial

theorem answers_of_isReport {t : CtrlType} (ht : t ∈ [CtrlType.nak, .ackack, .keepalive])
    (h : Conn.IsReport t o) : Answers isn base w o := by
  cases o with
  | sendPacket p owned => exact ⟨h.1, Or.inl (h.2.1 ▸ ht)⟩
  | setTimer id deadline => trivial
  | clearTimer id => trivial

theorem Receives.mono (h : Receives D isn log w c) (hlog : log <+: log') (hfit : D.Fit log') :
    Receives D isn log' w c :=
  ⟨hfit, h.state.mono hlog, D.mono h.told hlog⟩

structure ReceivesOn (D : Discipline) (isn : ℕ) (log : List Fragment) (base : ℕ) (w w' : Window)
    (c c' : Conn σ) : Prop where
  bare : c'.IsBare
  frame : c.RecvFrame c'
  receives : Receives D isn log w' c'
  forward : Forward w w'
  emits : Conn.Emits (Answers isn base w') c c'

theorem ReceivesOn.trans (h : ReceivesOn D isn log base w w' c c')
    (h' : ReceivesOn D isn log base w' w'' c' c'') : ReceivesOn D isn log base w w'' c c'' :=
  ⟨h'.bare, h'.frame.after h.frame, h'.receives, h.forward.trans h'.forward,
    (h.emits.mono fun _ => Answers.mono h'.forward.got).trans h'.emits⟩

theorem IsBare.recvFrame (hc : c.IsBare) (hframe : c.RecvFrame c')
    (hfec : c'.rcv.fecReceiver = c.rcv.fecReceiver)
    (htimer : c'.rcv.tsbpdTimer = c.rcv.tsbpdTimer) :
    c'.IsBare := by
  unfold Conn.IsBare
  rw [hframe.key, hframe.snd, hfec, htimer, hframe.params]
  exact hc

theorem ReceivesOn.report (hc : c.IsBare) (h : Receives D isn log w c) (hframe : c.RecvFrame c')
    (hreport : Conn.ReportFrame (Answers isn base w) c c') :
    ReceivesOn D isn log base w w c c' := by
  refine ⟨IsBare.recvFrame hc hframe hreport.fecReceiver hreport.tsbpdTimer, hframe,
    ⟨h.fit, ?_, ?_⟩,
    Forward.refl w, hreport.emits⟩
  · rw [hreport.recvBuf]
    exact h.state
  · rw [hreport.recvBuf, hreport.events]
    exact h.told

/-! ## Delivery -/

theorem Receives.deliverNow (hc : c.IsBare) (hmode : c.params.messageMode = D.message)
    (h : Receives D isn log w c) (now : ℤ) :
    ∃ w', ReceivesOn D isn log base w w' c (c.deliverNow now) := by
  obtain ⟨w', hstate, htold, hforward⟩ := D.deliver hc.timer hmode h.fit h.state h.told now
  have hdelivers := Conn.deliveryFrame_deliverNow c now
  have hfec : (c.deliverNow now).rcv.fecReceiver = c.rcv.fecReceiver := by rw [hdelivers.rest]
  have htimer : (c.deliverNow now).rcv.tsbpdTimer = c.rcv.tsbpdTimer := by
    have hlive := hdelivers.live
    rw [hc.timer] at hlive ⊢
    exact Option.isNone_iff_eq_none.mp (by simpa using hlive)
  exact ⟨w', IsBare.recvFrame hc hdelivers.recvFrame hfec htimer, hdelivers.recvFrame,
    ⟨h.fit, hstate, htold⟩, hforward,
    Conn.emits_deliverNow (fun _ => trivial) c now⟩

/-! ## Acknowledgements -/

theorem RecvState.ackSequence (h : RecvState isn log w rb) :
    ∃ a, w.start ≤ isn + a ∧ isn + a ≤ w.start + 2 ^ 30 ∧ rb.ackSequence = wrap (isn + a) ∧
      ∀ i < a, Got w (isn + i) := by
  have hwidth := h.window.width
  have hlen := h.window.len_le
  have hstart := h.isn_le
  obtain ⟨r, hr, hstop, hack, hfull⟩ := h.window.exists_ackSequence
  obtain ⟨a, rfl⟩ := Nat.exists_eq_add_of_le (show isn ≤ r by omega)
  refine ⟨a, hr, by omega, hack, fun i hi => ?_⟩
  rcases lt_or_ge (isn + i) w.start with hlt | hge
  · exact Or.inl hlt
  · exact Or.inr (hfull _ hge (by omega))

theorem answers_ack (h : Receives D isn log w c) (hcontrol : p.header.isControl = true)
    (htype : p.header.controlType = .ack) {rest : Bytes}
    (hdata : p.data = putBE 4 c.rcv.recvBuf.ackSequence ++ rest) :
    Answers isn w.start w (.sendPacket p true) := by
  obtain ⟨a, hstart, hreach, hack, hall⟩ := h.state.ackSequence
  refine ⟨hcontrol, Or.inr ⟨htype, a, hstart, hreach, ?_, hall⟩⟩
  rw [hdata, uint32At_putBE_append, hack, Nat.mod_eq_of_lt]
  exact (wrap_lt _).trans (by norm_num)

theorem Receives.checkLiteACK (hc : c.IsBare) (h : Receives D isn log w c) (now : ℤ) :
    ReceivesOn D isn log w.start w w c (c.checkLiteACK now) := by
  refine ReceivesOn.report hc h (Conn.recvFrame_checkLiteACK c now) ?_
  unfold Conn.checkLiteACK
  split_ifs
  · exact ⟨rfl, rfl, rfl, rfl, [_], rfl, by
      simpa using answers_ack h rfl rfl (List.append_nil _).symm⟩
  · exact Conn.ReportFrame.refl _ c

theorem Receives.insert (h : Receives D isn log w c)
    (hseq : p.header.sequenceNumber = wrap (isn + i))
    (hlog : log[i]? = some (Fragment.ofPacket p)) (hbehind : w.start < isn + i + 2 ^ 30)
    (hahead : isn + i < w.start + 2 ^ 31) (now : ℤ) : c.rcv.recvBuf.insert p now =
      (c.rcv.recvBuf, {}) ∨
    ∃ w', Receives D isn log w' (c.setRecvBuf (c.rcv.recvBuf.insert p now).1) ∧
      w'.start = w.start ∧ ∀ q, Got w q → Got w' q := by
  have hstate := h.state
  have hlen := hstate.window.len_le
  have hwell : p.WellFormed := by
    rw [Packet.WellFormed, hseq]
    exact valid_wrap _
  rcases hstate.window.insert_cases hwell now with hrejected | ⟨q, hq, hreach, hwrap,
    hempty, hinsert⟩
  · exact Or.inl hrejected
  · -- the only position in reach that has this number
    obtain rfl : q = isn + i := eq_of_wrap_eq (hwrap.symm.trans hseq) (by omega) (by omega)
    refine Or.inr ⟨w.put (isn + i) ⟨p, .available, now⟩,
      ⟨h.fit, ⟨?_, hstate.isn_le, hstate.start_le, ?_⟩,
      ?_⟩, rfl, ?_⟩
    · rw [hinsert]
      exact hstate.window.shows_store hseq hq hreach now
    · intro j hj
      rcases eq_or_ne j i with rfl | hne
      · rw [Window.put_cell_self]
        exact Or.inr ⟨rfl, hlog, hseq⟩
      · rw [Window.put_cell_of_ne _ _ (by omega)]
        exact hstate.filled j hj
    · rw [hinsert]
      exact D.store h.told h.fit (List.mem_of_getElem? hlog) now
    · intro x hx
      rcases eq_or_ne x (isn + i) with rfl | hne
      · exact Or.inr (by rw [Window.put_cell_self]; simp)
      · rw [Got, Window.put_cell_of_ne _ _ hne]
        exact hx

section
variable [Controller σ]

theorem Receives.sendFullACK (hc : c.IsBare) (h : Receives D isn log w c) (now : ℤ) :
    ReceivesOn D isn log w.start w w c (c.sendFullACK now) := by
  refine ReceivesOn.report hc h (Conn.recvFrame_sendFullACK c now) ?_
  unfold Conn.sendFullACK
  simp only
  split_ifs
  · exact Conn.ReportFrame.refl _ c
  · refine ⟨rfl, rfl, rfl, rfl, [_], rfl, ?_⟩
    rw [List.forall_mem_singleton]
    obtain ⟨rest, hrest⟩ := (c.fullACK c.rcv.recvBuf.ackSequence
      (decide (synInterval ≤ now - c.ack.lastFullACKTime))).exists_marshalCIF_eq
    rw [Conn.fullACK_lastACKPacketSequenceNumber] at hrest
    exact answers_ack h rfl rfl hrest

/-! ## Data packets -/

variable [Primitives]

theorem Receives.afterInsert (hc : c.IsBare) (hmode : c.params.messageMode = D.message)
    (h : Receives D isn log w c) (now : ℤ) (wire p : Packet) (res : InsertResult) :
    ∃ w', ReceivesOn D isn log w.start w w' c (c.afterInsert now wire p res) := by
  have hnote : ReceivesOn D isn log w.start w w c (c.noteArrival now p) :=
    ReceivesOn.report hc h (Conn.recvFrame_noteArrival c now p)
      ⟨rfl, rfl, rfl, rfl, Conn.Emits.of_eq rfl⟩
  have hplain : ((c.noteArrival now p).anchor now p.header.timestamp).feedReceiver now wire =
      c.noteArrival now p := by
    have hanchor : (c.noteArrival now p).anchor now p.header.timestamp = c.noteArrival now p := by
      rw [Conn.anchor, hnote.bare.timer]
    rw [hanchor, Conn.feedReceiver, hnote.bare.fecReceiver]
  have hreport := hnote.trans (ReceivesOn.report hnote.bare hnote.receives
    (Conn.reports_reportLosses _ now res p.header.sequenceNumber).recvFrame
    ((Conn.reports_reportLosses _ now res p.header.sequenceNumber).reportFrame.mono fun _ =>
      answers_of_isReport (by simp)))
  have hlite := hreport.trans (Receives.checkLiteACK hreport.bare hreport.receives now)
  rw [Conn.afterInsert, hplain]
  obtain ⟨w', hdeliver⟩ := Receives.deliverNow hlite.bare (by rw [hlite.frame.params]; exact hmode)
    hlite.receives now
  exact ⟨w', hlite.trans hdeliver⟩

theorem Receives.handleData (hc : c.IsBare) (hmode : c.params.messageMode = D.message)
    (h : Receives D isn log w c) (hseq : p.header.sequenceNumber = wrap (isn + i))
    (hlog : log[i]? = some (Fragment.ofPacket p)) (hbehind : w.start < isn + i + 2 ^ 30)
    (hahead : isn + i < w.start + 2 ^ 31) (now : ℤ) :
    ∃ w', ReceivesOn D isn log w.start w w' c (c.handleData now p) := by
  have hignored : ReceivesOn D isn log w.start w w c c :=
    ⟨hc, Conn.RecvFrame.refl c, h, Forward.refl w, Conn.Emits.refl _ c⟩
  rw [Conn.handleData, hc.fecReceiver]
  simp only [Conn.receiveData, Conn.decrypt, hc.crypto]
  split_ifs with hinserted
  · exact ⟨w, hignored⟩
  · rcases h.insert hseq hlog hbehind hahead now with hrejected | ⟨w', h', hstart, hgot⟩
    · rw [hrejected] at hinserted
      exact absurd rfl hinserted
    · have hstored : ReceivesOn D isn log w.start w w' c
          (c.setRecvBuf (c.rcv.recvBuf.insert p now).1) :=
        ⟨hc, ⟨rfl, rfl, rfl, rfl, rfl⟩, h', ⟨hstart.ge, hgot⟩, Conn.Emits.of_eq rfl⟩
      obtain ⟨w'', hafter⟩ := Receives.afterInsert hstored.bare hmode h' now p p
        (c.rcv.recvBuf.insert p now).2
      rw [hstart] at hafter
      exact ⟨w'', hstored.trans hafter⟩

end

end SrtGo.Core
