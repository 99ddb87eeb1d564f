import SrtGo.Transfer.Receiver

/-!
# One endpoint of a transfer

An endpoint sends one log of fragments and receives another.  `Endpoint` joins the invariants of
the two directions, and `Advance` says what a step of the endpoint may do: the sender's
part moves on, the receiver's part moves on, and whatever goes onto the wire is a packet
of the history or an answer of the receiver.

Each input touches one direction only, apart from what the frames allow, so that the
lemmas of this file pair a fact about one direction with a frame for the other.
-/

namespace SrtGo.Core

open Buffer Bytes Congestion Crypto SrtGo.Seq

variable {σ : Type} {D : Discipline} {sisn risn s s' : ℕ} {posted : Posted} {log : List Fragment}
    {w w' : Window}
  {c c' c'' : Conn σ}

/-- The fragments `posted` go out under the numbers from `sisn` on, and the fragments `log`
come in under the numbers from `risn` on. -/
structure Endpoint (D : Discipline) (sisn risn : ℕ) (posted : Posted) (log : List Fragment) (s : ℕ)
    (w : Window) (c : Conn σ) : Prop where
  bare : c.IsBare
  mode : c.params.messageMode = D.message
  fit : D.Fit posted.frames
  sends : Sends sisn posted s c
  receives : Receives D risn log w c

def Emitted (c : Conn σ) (s risn base : ℕ) (w : Window) (o : Output) : Prop :=
  Carried c s o ∨ Answers risn base w o

/-- A step of an endpoint.  `s` and `w` are the first unacknowledged packet and the
window before the step, `s'` and `w'` after it. -/
structure Advance (D : Discipline) (sisn risn : ℕ) (posted : Posted) (log : List Fragment)
    (s s' : ℕ) (w w' : Window) (c c' : Conn σ) : Prop where
  endpoint : Endpoint D sisn risn posted log s' w' c'
  params : c'.params = c.params
  le_acked : s ≤ s'
  acked_le : s' ≤ c.history.length
  forward : Forward w w'
  history : c.history <+: c'.history
  emits : Conn.Emits (Emitted c' s risn w.start w') c c'

theorem Carried.anti {s s' : ℕ} (hs : s ≤ s') {o : Output} (h : Carried c s' o) :
    Carried c s o := by
  cases o with
  | sendPacket p owned =>
    obtain ⟨i, t, hi, ht, hp⟩ := h
    exact ⟨i, t, hs.trans hi, ht, hp⟩
  | setTimer id deadline => trivial
  | clearTimer id => trivial

theorem Advance.refl (h : Endpoint D sisn risn posted log s w c) :
    Advance D sisn risn posted log s s w w c c :=
  ⟨h, rfl, le_rfl, h.sends.acked_le, Forward.refl w, List.prefix_rfl, Conn.Emits.refl _ c⟩

theorem Endpoint.advance_send {posted' : Posted} (h : Endpoint D sisn risn posted log s w c)
    (hfit : D.Fit posted'.frames) (hsend : SendsOn sisn posted' s c c')
    (hframe : c.SendFrame c') : Advance D sisn risn posted' log s s w w c c' where
  endpoint := ⟨hsend.bare, by rw [hframe.params]; exact h.mode, hfit, hsend.sends,
    h.receives.fit, by rw [hframe.rcv]; exact h.receives.state,
    by rw [hframe.rcv, hframe.events]; exact h.receives.told⟩
  params := hframe.params
  le_acked := le_rfl
  acked_le := h.sends.acked_le
  forward := Forward.refl w
  history := hsend.history
  emits := hsend.emits.mono fun _ => Or.inl

theorem Endpoint.advance_receive (h : Endpoint D sisn risn posted log s w c)
    (hreceive : ReceivesOn D risn log w.start w w' c c') : Advance D sisn risn posted log s s w
      w' c c' where
  endpoint := ⟨hreceive.bare, by rw [hreceive.frame.params]; exact h.mode, h.fit,
    h.sends.recvFrame hreceive.frame, hreceive.receives⟩
  params := hreceive.frame.params
  le_acked := le_rfl
  acked_le := h.sends.acked_le
  forward := hreceive.forward
  history := by rw [hreceive.frame.history]
  emits := hreceive.emits.mono fun _ => Or.inr

theorem Endpoint.advance_report (h : Endpoint D sisn risn posted log s w c)
    (hframe : c.RecvFrame c') (hreport : Conn.ReportFrame (Answers risn w.start w) c c') :
    Advance D sisn risn posted log s s w w c c' :=
  h.advance_receive (ReceivesOn.report h.bare h.receives hframe hreport)

theorem Advance.sendsOn (h : Advance D sisn risn posted log s s' w w' c c')
    (hsend : SendsOn sisn posted s' c' c'') (hframe : c'.SendFrame c'') :
    Advance D sisn risn posted log s s' w w' c c'' := by
  have hnext := h.endpoint.advance_send h.endpoint.fit hsend hframe
  refine ⟨hnext.endpoint, hnext.params.trans h.params, h.le_acked, h.acked_le, h.forward,
    h.history.trans hsend.history, (h.emits.mono fun o ho => ?_).trans
      (hsend.emits.mono fun o ho => Or.inl (ho.anti h.le_acked))⟩
  exact ho.imp_left (Carried.mono hsend.history)

/-- What happens before a step and shows nowhere: the state before it may as well be the
one before that. -/
theorem Advance.of_quiet (h : Advance D sisn risn posted log s s' w w' c' c'')
    (hparams : c'.params = c.params) (hhistory : c'.history = c.history)
    (houtputs : c'.outputs = c.outputs) : Advance D sisn risn posted log s s' w w' c c'' where
  __ := h
  params := h.params.trans hparams
  acked_le := hhistory ▸ h.acked_le
  history := hhistory ▸ h.history
  emits := by
    obtain ⟨os, hos, hall⟩ := h.emits
    exact ⟨os, by rw [hos, houtputs], hall⟩

/-! ## Steps that only report -/

section

variable (h : Endpoint D sisn risn posted log s w c)

include h

theorem Endpoint.advance_close {e : Event} (he : e.isData = false) :
    Advance D sisn risn posted log s s w w c ({ c with closed := true }.raise e) :=
  ⟨{ h with receives := { h.receives with told := D.news h.receives.told he } }, rfl, le_rfl,
    h.sends.acked_le, Forward.refl w, List.prefix_rfl, Conn.Emits.of_eq rfl⟩

theorem Endpoint.advance_ackack (now : ℤ) (p : Packet) :
    Advance D sisn risn posted log s s w w c (c.handleACKACK now p) := by
  refine h.advance_report (Conn.recvFrame_handleACKACK c now p) ?_
  unfold Conn.handleACKACK
  simp only
  split_ifs
  · exact Conn.ReportFrame.refl _ c
  all_goals
    refine ⟨rfl, rfl, ?_, rfl, Conn.Emits.of_eq rfl⟩
    simp [Conn.modifyTimer, h.bare.timer]

theorem Endpoint.advance_keepalive (now : ℤ) (p : Packet) :
    Advance D sisn risn posted log s s w w c (c.handleKeepalive now p) := by
  refine h.advance_report ⟨rfl, rfl, rfl, rfl, rfl⟩ ⟨rfl, rfl, ?_, rfl, Conn.Emits.of_eq rfl⟩
  simp [Conn.handleKeepalive, Conn.modifyTimer, h.bare.timer]

theorem Endpoint.noteAlive (now : ℤ) : Endpoint D sisn risn posted log s w (c.noteAlive now) := by
  unfold Conn.noteAlive
  split_ifs
  · exact { h with receives := { h.receives with } }
  · exact h

theorem Endpoint.advance_push (id : TimerID) (deadline : ℤ) :
    Advance D sisn risn posted log s s w w c (c.push (.setTimer id deadline)) :=
  h.advance_report (Conn.recvFrame_push c _) ⟨rfl, rfl, rfl, rfl, Conn.Emits.push c trivial⟩

end

theorem Advance.push (h : Advance D sisn risn posted log s s' w w' c c') (id : TimerID)
    (deadline : ℤ) :
    Advance D sisn risn posted log s s' w w' c (c'.push (.setTimer id deadline)) :=
  h.sendsOn ⟨h.endpoint.bare, h.endpoint.sends, List.prefix_rfl, Conn.Emits.push c' trivial⟩
    ⟨rfl, rfl, rfl, rfl, rfl⟩

theorem Endpoint.sampleInputBandwidth [Controller σ]
    (h : Endpoint D sisn risn posted log s w c) (now : ℤ) :
    Endpoint D sisn risn posted log s w (c.sampleInputBandwidth now) := by
  unfold Conn.sampleInputBandwidth
  simp only
  split_ifs
  · exact h
  all_goals exact { h with receives := { h.receives with } }

theorem Endpoint.advance_nakTimer [Controller σ]
    (h : Endpoint D sisn risn posted log s w c) (now : ℤ) :
    Advance D sisn risn posted log s s w w c (c.handleNAKTimer now) := by
  have hnak : Advance D sisn risn posted log s s w w c (c.sendPeriodicNAK now) :=
    h.advance_report (Conn.reports_emitNAK c now _).recvFrame
      ((Conn.reports_emitNAK c now _).reportFrame.mono fun _ => answers_of_isReport (by simp))
  unfold Conn.handleNAKTimer
  simp only
  split_ifs
  · exact Advance.refl h
  · exact hnak.push .nak _
  · exact h.advance_push .nak _

theorem Endpoint.advance_keepaliveTimer (h : Endpoint D sisn risn posted log s w c) (now : ℤ) :
    Advance D sisn risn posted log s s w w c (c.checkKeepalive now) := by
  unfold Conn.checkKeepalive
  simp only
  split_ifs
  · exact Advance.refl h
  · refine Advance.push (h.advance_report (Conn.recvFrame_push c _) ?_) .keepalive _
    exact ⟨rfl, rfl, rfl, rfl, Conn.Emits.push c ⟨rfl, Or.inl (by
      simp [Conn.control, Packet.newControl])⟩⟩
  · exact h.advance_push .keepalive _

theorem Endpoint.advance_peerIdle (h : Endpoint D sisn risn posted log s w c) (now : ℤ) :
    Advance D sisn risn posted log s s w w c (c.checkPeerIdle now) := by
  unfold Conn.checkPeerIdle
  split_ifs
  · exact Advance.refl h
  · exact h.advance_close rfl
  · exact h.advance_push .peerIdle _

theorem Endpoint.advance_kmRefresh [Primitives]
    (h : Endpoint D sisn risn posted log s w c) (now : ℤ) :
    Advance D sisn risn posted log s s w w c (c.retryKMREQ now) := by
  have hbare : BareMode none c.snd.fecSender c.rcv.fecReceiver c.rcv.tsbpdTimer
      c.params.sendDropThresh c.snd.msgTTLActive :=
    ⟨rfl, h.bare.fecSender, h.bare.fecReceiver, h.bare.timer, h.bare.dropThresh, h.bare.ttl⟩
  unfold Conn.retryKMREQ
  simp only [Conn.sendKMREQ, h.bare.crypto]
  split_ifs
  · exact Advance.refl h
  · exact ⟨{ h with bare := hbare, receives := { h.receives with } }, rfl, le_rfl, h.sends.acked_le,
      Forward.refl w,
      List.prefix_rfl, [_], rfl, by simp [Emitted, Carried]⟩
  · exact ⟨{ h with bare := hbare, receives := { h.receives with } }, rfl, le_rfl, h.sends.acked_le,
      Forward.refl w,
      List.prefix_rfl, Conn.Emits.of_eq rfl⟩

/-! ## Steps of the sender -/

section
variable [Controller σ]

theorem Endpoint.advance_nak (h : Endpoint D sisn risn posted log s w c) (now : ℤ) (p : Packet) :
    Advance D sisn risn posted log s s w w c (c.handleNAK now p) := by
  refine h.advance_send h.fit (Sends.handleNAK h.bare h.sends now p) ?_
  unfold Conn.handleNAK
  split
  · exact Conn.SendFrame.refl c
  · simp only
    split_ifs
    · exact (Conn.sendFrame_foldl_send _ _).after ⟨rfl, rfl, rfl, rfl, rfl⟩
    · exact (Conn.sendFrame_foldl_send _ _).after ⟨rfl, rfl, rfl, rfl, rfl⟩

theorem Endpoint.advance_exp (h : Endpoint D sisn risn posted log s w c) (now : ℤ) :
    Advance D sisn risn posted log s s w w c (c.handleEXP now) := by
  obtain ⟨cell, hholds, hcell⟩ := h.sends.held
  unfold Conn.handleEXP
  simp only
  split_ifs
  · refine Advance.push ?_ .exp _
    set armed : Conn σ := { c with snd := { c.snd with
      sendCC := Controller.onTimeout c.snd.sendCC
      rexmitCount := c.snd.rexmitCount + 1 } } with harmed
    have hresend : SendsOn sisn posted s armed armed.retransmitAll :=
      SendsOn.resend (c := armed) h.bare h.sends fun q hq =>
        carried_of_copyOf hholds hcell (SendBuffer.copyOf_getAllUnacked _ q hq) true
    have hframe : c.SendFrame armed.retransmitAll :=
      (Conn.sendFrame_foldl_send _ armed).after ⟨rfl, rfl, rfl, rfl, rfl⟩
    exact h.advance_send h.fit { hresend with }
      { hframe with }
  · exact h.advance_push .exp _

variable [Primitives]

section

variable (h : Endpoint D sisn risn posted log s w c) {p : Packet} {a : ℕ}

include h

theorem Endpoint.advance_write (hopen : c.closed = false) (now : ℤ) (payload : Bytes)
    {opts : MsgOptions} (hopts : opts.ttl ≤ 0)
    (hfit : D.Fit (posted.frames ++
      cut c.params.payloadSize (c.assign opts) opts.inOrder payload)) :
    Advance D sisn risn (posted.add (cut c.params.payloadSize (c.assign opts) opts.inOrder payload)
      (c.assign opts)) log s s w w c (c.writeMsg now payload opts) :=
  h.advance_send hfit (Sends.writeMsg h.bare h.sends hopen now payload hopts)
    (Conn.sendFrame_writeMsg c now payload _)

theorem Endpoint.advance_release (hbehind : s < a + 2 ^ 30) (hahead : a < s + 2 ^ 30) (now : ℤ)
    (hecho : Conn.Echoes (c.acknowledge now (wrap (sisn + a))).1 c') :
    Advance D sisn risn posted log s (max s (min a c.history.length)) w w c (c'.pump now) := by
  have hsends := h.sends.acknowledge hbehind hahead now
  have hacked := h.sends.acked_le
  have hreleased : Advance D sisn risn posted log s (max s (min a c.history.length)) w w c c' := by
    obtain ⟨os, hos, hall⟩ := hecho.emits
    rw [hecho.rest]
    refine ⟨{ h with sends := hsends, receives := { h.receives with } }, rfl, le_max_left _ _,
      by omega, Forward.refl w, List.prefix_rfl, os, hos, fun o ho => ?_⟩
    obtain ⟨p, rfl, hcontrol, htype⟩ := hall o ho
    exact Or.inr ⟨hcontrol, Or.inl (by simp [htype])⟩
  exact hreleased.sendsOn (Sends.pump hreleased.endpoint.bare hreleased.endpoint.sends now)
    (Conn.sendFrame_pump _ now)

theorem Endpoint.advance_ack (hseq : uint32At p.data 0 = wrap (sisn + a)) (hbehind : s < a + 2 ^ 30)
    (hahead : a < s + 2 ^ 30) (now : ℤ) :
    ∃ s' ≤ max s a, Advance D sisn risn posted log s s' w w c (c.handleACK now p) := by
  unfold Conn.handleACK
  split
  · exact ⟨s, le_max_left _ _, Advance.refl h⟩
  · rename_i ack hack
    have hnumber : ack.lastACKPacketSequenceNumber = wrap (sisn + a) :=
      (CIFACK.lastACKPacketSequenceNumber_of_unmarshalCIF hack).trans hseq
    rw [hnumber]
    refine ⟨max s (min a c.history.length), by omega, ?_⟩
    simp only
    split
    · exact h.advance_release hbehind hahead now
        ⟨rfl, Conn.Emits.of_eq rfl⟩
    · have hecho := c.echoes_afterFullACK now p.header.typeSpecific ack
      rw [hnumber, Conn.afterFullACK, hnumber] at hecho
      exact h.advance_release hbehind hahead now hecho

theorem Endpoint.advance_data {i : ℕ} (hseq : p.header.sequenceNumber = wrap (risn + i))
    (hlog : log[i]? = some (Fragment.ofPacket p)) (hbehind : w.start < risn + i + 2 ^ 30)
    (hahead : risn + i < w.start + 2 ^ 31) (now : ℤ) :
    ∃ w', Advance D sisn risn posted log s s w w' c (c.handleData now p) := by
  obtain ⟨w', hreceive⟩ := Receives.handleData h.bare h.mode h.receives hseq hlog hbehind hahead now
  exact ⟨w', h.advance_receive hreceive⟩

theorem Endpoint.advance_ackTimer (now : ℤ) :
    Advance D sisn risn posted log s s w w c (c.handleACKTimer now) := by
  have hack := (h.advance_receive (Receives.sendFullACK h.bare h.receives now)).push .ack
    (now + synInterval)
  have hbare := hack.endpoint.bare
  unfold Conn.handleACKTimer
  simp only
  rw [if_neg]
  · exact hack
  · rintro (hdrop | httl)
    · exact absurd hbare.dropThresh (not_le.mpr hdrop)
    · rw [hbare.ttl] at httl
      exact absurd httl (by simp)

theorem Endpoint.advance_timer (now : ℤ) (id : TimerID) :
    Advance D sisn risn posted log s s w w c (c.handleTimer now id) := by
  have hsampled := h.sampleInputBandwidth now
  have hquiet : (c.sampleInputBandwidth now).params = c.params ∧
      (c.sampleInputBandwidth now).history = c.history ∧
      (c.sampleInputBandwidth now).outputs = c.outputs := by
    unfold Conn.sampleInputBandwidth
    simp only
    split_ifs <;> exact ⟨rfl, rfl, rfl⟩
  refine Advance.of_quiet ?_ hquiet.1 hquiet.2.1 hquiet.2.2
  unfold Conn.handleTimer
  simp only
  split_ifs
  · exact Advance.refl hsampled
  · cases id with
    | ack => exact hsampled.advance_ackTimer now
    | nak => exact hsampled.advance_nakTimer now
    | sndPacing =>
      exact hsampled.advance_send hsampled.fit (Sends.pump hsampled.bare hsampled.sends now)
        (Conn.sendFrame_pump _ now)
    | tsbpd =>
      simp only [Conn.deliverTSBPD, hsampled.bare.timer]
      exact Advance.refl hsampled
    | kmRefresh => exact hsampled.advance_kmRefresh now
    | keepalive => exact hsampled.advance_keepaliveTimer now
    | peerIdle => exact hsampled.advance_peerIdle now
    | exp => exact hsampled.advance_exp now
    | handshake => exact Advance.refl hsampled
    | linger => exact Advance.refl hsampled

end

end

end SrtGo.Core
