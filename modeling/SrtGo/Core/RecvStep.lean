import SrtGo.Core.Sides

/-!
# What a step does to the receive buffer

For the receive buffer, the losses that are held back and the data that is delivered, a
step of a connection is one of four things: a data packet arrives, the peer gives up on a
range, the playout timer fires, or nothing happens on this side.
-/

namespace SrtGo.Core

open Buffer Bytes Congestion Crypto SrtGo.Filter

namespace Conn

variable {σ : Type} {c c' c'' : Conn σ} {free : Prop}

structure RecvIdle (c c' : Conn σ) : Prop where
  params : c'.params = c.params
  recvBuf : c'.rcv.recvBuf = c.rcv.recvBuf
  fecReceiver : c'.rcv.fecReceiver = c.rcv.fecReceiver
  deferredLoss : c'.rcv.deferredLoss = c.rcv.deferredLoss
  live : c'.rcv.tsbpdTimer.isSome = c.rcv.tsbpdTimer.isSome
  news : News c c'

theorem RecvIdle.refl (c : Conn σ) : RecvIdle c c := ⟨rfl, rfl, rfl, rfl, rfl, News.of_eq rfl⟩

theorem News.trans (h : News c c') (h' : News c' c'') : News c c'' := by
  obtain ⟨es, hes, hdata⟩ := h
  obtain ⟨es', hes', hdata'⟩ := h'
  refine ⟨es ++ es', by rw [hes', hes, List.append_assoc], fun e he => ?_⟩
  exact (List.mem_append.mp he).elim (hdata e) (hdata' e)

theorem RecvIdle.after (h' : RecvIdle c' c'') (h : RecvIdle c c') : RecvIdle c c'' :=
  ⟨h'.params.trans h.params, h'.recvBuf.trans h.recvBuf, h'.fecReceiver.trans h.fecReceiver,
    h'.deferredLoss.trans h.deferredLoss, h'.live.trans h.live, h.news.trans h'.news⟩

theorem RecvIdle.of_rcv (hparams : c'.params = c.params) (hrcv : c'.rcv = c.rcv)
    (hnews : News c c') :
    RecvIdle c c' :=
  ⟨hparams, by rw [hrcv], by rw [hrcv], by rw [hrcv], by rw [hrcv], hnews⟩

theorem RecvIdle.of_sendFrame (h : SendFrame c c') : RecvIdle c c' :=
  RecvIdle.of_rcv h.params h.rcv (News.of_eq h.events)

theorem Book.recvIdle (h : Book c c') : RecvIdle c c' :=
  { h with live := by rw [h.tsbpdTimer], news := News.of_eq h.events }

/-! ## Delivery -/

theorem Deliveries.edits {now : ℤ} (h : Deliveries now c c')
    (hfree : free ∨ c.rcv.tsbpdTimer.isSome = true ∨ c.rcv.recvBuf.Regular) :
    RecvBuffer.Edits free c.rcv.recvBuf c'.rcv.recvBuf := by
  induction h with
  | refl => exact .refl
  | tail hchain hmove ih =>
    have hlive : _ = c.rcv.tsbpdTimer.isSome := (Deliveries.frame hchain).live
    exact (hmove.edits (hfree.imp_right fun h => h.imp (hlive.trans ·) ih.regular)).after ih

theorem edits_deliverTSBPD (c : Conn σ) (now : ℤ) :
    RecvBuffer.Edits free c.rcv.recvBuf (c.deliverTSBPD now).rcv.recvBuf := by
  cases htimer : c.rcv.tsbpdTimer with
  | none =>
    rw [deliverTSBPD, htimer]
  | some timer =>
    exact (deliveries_deliverTSBPD c now).edits (Or.inr (Or.inl (by rw [htimer]; rfl)))

theorem edits_deliverNow (c : Conn σ) (now : ℤ) (h : free ∨ c.rcv.recvBuf.Regular) :
    RecvBuffer.Edits free c.rcv.recvBuf (c.deliverNow now).rcv.recvBuf :=
  (deliveries_deliverNow c now).edits (h.imp_right Or.inr)

/-! ## The cases of a step -/

inductive RecvStep [Controller σ] [Primitives] (i : Input) (c : Conn σ) : Conn σ → Prop
  | idle {c' : Conn σ} (h : RecvIdle c c') : RecvStep i c c'
  | data {c₁ : Conn σ} {now : ℤ} {p : Packet} (hi : i = .packet now p) (hopen : c.closed = false)
      (hdata : p.header.isControl = false) (h : Book c c₁) : RecvStep i c (c₁.handleData now p)
  | drop {c₁ : Conn σ} {now : ℤ} {p : Packet} (hi : i = .packet now p) (hopen : c.closed = false)
      (htype : p.header.isControl = true ∧ p.header.controlType = .dropReq) (h : Book c c₁) :
      RecvStep i c (c₁.handleDropReq now p)
  | play {c₁ : Conn σ} {now : ℤ} (hi : i = .timer now .tsbpd) (hopen : c.closed = false)
      (h : Book c c₁) : RecvStep i c (c₁.deliverTSBPD now)

/-- The state in which an accepted packet is about to be checked for losses, without a
filter: it is stored and noted. -/
def stored [Controller σ] (c : Conn σ) (now : ℤ) (plain : Packet) : Conn σ :=
  ((c.setRecvBuf (c.rcv.recvBuf.insert plain now).1).noteArrival now plain).anchor now
    plain.header.timestamp

structure Stored (c : Conn σ) (now : ℤ) (plain : Packet) (c' : Conn σ) : Prop where
  params : c'.params = c.params
  recvBuf : c'.rcv.recvBuf = (c.rcv.recvBuf.insert plain now).1
  fecReceiver : c'.rcv.fecReceiver = c.rcv.fecReceiver
  deferredLoss : c'.rcv.deferredLoss = c.rcv.deferredLoss.erase plain.header.sequenceNumber
  outputs : c'.outputs = c.outputs
  events : c'.events = c.events

theorem stored_spec [Controller σ] (c : Conn σ) (now : ℤ) (plain : Packet) :
    Stored c now plain (c.stored now plain) := by
  unfold stored anchor
  split <;> exact ⟨rfl, rfl, rfl, rfl, rfl, rfl⟩

theorem recvIdle_checkLiteACK (c : Conn σ) (now : ℤ) : RecvIdle c (c.checkLiteACK now) := by
  unfold checkLiteACK
  split_ifs
  · exact RecvIdle.of_rcv rfl rfl (News.of_eq rfl)
  · exact RecvIdle.refl c

/-- Without a filter a data packet is ignored, or stored, checked for losses and delivered. -/
theorem handleData_cases [Controller σ] [Primitives] (hfec : c.rcv.fecReceiver = none) (now : ℤ)
    (p : Packet) :
    c.handleData now p = c ∧ (∀ plain, c.decrypt p = some plain →
      (c.rcv.recvBuf.insert plain now).2.inserted = false) ∨
    ∃ plain, c.decrypt p = some plain ∧ (c.rcv.recvBuf.insert plain now).2.inserted = true ∧
      c.handleData now p =
        (((c.stored now plain).reportLosses now (c.rcv.recvBuf.insert plain now).2
        plain.header.sequenceNumber).checkLiteACK now).deliverNow now := by
  rw [handleData, hfec]
  simp only [receiveData]
  cases hdec : c.decrypt p with
  | none => exact Or.inl ⟨rfl, by simp⟩
  | some plain =>
    simp only
    by_cases hinserted : (c.rcv.recvBuf.insert plain now).2.inserted = true
    · refine Or.inr ⟨plain, rfl, hinserted, ?_⟩
      rw [if_neg (by simp [hinserted])]
      unfold afterInsert
      simp only
      have hfec' : (c.stored now plain).rcv.fecReceiver = none :=
        (stored_spec c now plain).fecReceiver.trans hfec
      rw [show feedReceiver _ now p = c.stored now plain by
        show (c.stored now plain).feedReceiver now p = c.stored now plain
        rw [feedReceiver, hfec']]
    · rw [if_pos (by simpa using hinserted)]
      refine Or.inl ⟨rfl, fun plain' hplain => ?_⟩
      obtain rfl := Option.some.inj hplain
      simpa using hinserted

section
variable [Controller σ] [Primitives]

theorem recvIdle_of_move {i : Input} {c₀ : Conn σ} (hi : i.delivers = false) (h : Shift i c₀ c c') :
    RecvIdle c c' := by
  have hopen : i.delivers ≠ true := by simp [hi]
  cases h with
  | book h => exact h.recvIdle
  | report h hsource =>
    rcases hsource with ⟨lost, -, rfl⟩ | ⟨now, p, plain, hpacket, hcontrol, -⟩
    · unfold emitNAK
      split_ifs <;> exact RecvIdle.of_rcv rfl rfl (News.of_eq rfl)
    · exact absurd (by simp [hpacket, Input.delivers, hcontrol]) hopen
  | notify he hclosed => exact RecvIdle.of_rcv rfl rfl (News.raise _ he)
  | arrive p hd => exact absurd hd hopen
  | store hpacket hkey hdata hdec hinserted =>
    exact absurd (by simp [hpacket, Input.delivers, hdata]) hopen
  | recover plain hfec hd => exact absurd hd hopen
  | deliver h hd => exact absurd hd hopen
  | drop hpacket htype hdr => exact absurd (by simp [hpacket, Input.delivers, htype]) hopen
  | anchor hpacket hdata htimer => exact absurd (by simp [hpacket, Input.delivers, hdata]) hopen
  | echo a rttSample hpacket htype => exact ⟨rfl, rfl, rfl, rfl, Option.isSome_map, News.of_eq rfl⟩
  | keepalive hpacket htype => exact ⟨rfl, rfl, rfl, rfl, Option.isSome_map, News.of_eq rfl⟩
  | filter hpacket hfec hd => exact absurd hd hopen
  | packet seqNo ts f => exact RecvIdle.of_sendFrame (sendFrame_sendData _ _ _ _ _)
  | response hpacket htype hos hes => exact RecvIdle.of_rcv rfl rfl (News.of_response rfl hes)
  | _ => exact RecvIdle.of_rcv rfl rfl (News.of_eq rfl)

theorem recvStep (c : Conn σ) (i : Input) : RecvStep i c (c.step i) := by
  have hidle : i.delivers = false → RecvIdle c (c.step i) := fun hi =>
    step_preserves c i (RecvIdle.refl c) fun _ _ hmove h => (recvIdle_of_move hi hmove).after h
  by_cases hd : i.delivers = true
  case neg => exact .idle (hidle (by simpa using hd))
  cases i with
  | packet now p =>
    show RecvStep _ c (c.handlePacket now p)
    by_cases hclosed : c.closed = true
    · rw [handlePacket, if_pos hclosed]
      exact .idle (RecvIdle.refl c)
    have hopen : c.closed = false := by simpa using hclosed
    by_cases hcontrol : p.header.isControl = true
    · have htype : p.header.controlType = .dropReq := by simpa [Input.delivers, hcontrol] using hd
      rw [handlePacket, if_neg hclosed, if_neg (by simp [htype]), if_pos hcontrol, handleControl,
        htype]
      exact .drop rfl hopen ⟨hcontrol, htype⟩ (book_noteAlive c now)
    · rw [handlePacket, if_neg hclosed, if_neg fun h => hcontrol h.1, if_neg hcontrol]
      exact .data rfl hopen (by simpa using hcontrol) (book_noteAlive c now)
  | timer now id =>
    obtain rfl : id = .tsbpd := by simpa [Input.delivers] using hd
    have hbook := book_sampleInputBandwidth c now
    show RecvStep _ c (c.handleTimer now .tsbpd)
    unfold handleTimer
    simp only
    split_ifs with hclosed
    · exact .idle hbook.recvIdle
    · exact .play rfl (by rw [← hbook.closed]; simpa using hclosed) hbook
  | _ => exact absurd hd (by simp [Input.delivers])

theorem fecReceiver_step (h : c.rcv.fecReceiver = none) (i : Input) :
    (c.step i).rcv.fecReceiver = none := by
  have hnone : (c.step i).rcv.fecReceiver.isSome = false := by
    exact step_preserves (Q := fun c' => c'.rcv.fecReceiver.isSome = false) c i (by simp [h])
      fun c₁ c₂ hmove hc₁ => hmove.recvMove.isSome_fecReceiver.trans hc₁
  exact Option.isNone_iff_eq_none.mp (by simpa using hnone)

end

end Conn

end SrtGo.Core
