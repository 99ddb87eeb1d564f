import SrtGo.Core.Moves

/-!
# What a step does to the send queue

For the queue, the send buffer and the window of the receiver a step of a connection is
one of a few things.  Most inputs leave all three alone.  A loss report only notes the
times of its retransmissions.  Everything else ends in the pump: after a write, after an
acknowledgement, or by itself when a timer fires.

The timers that keep a connection going are never cleared; `Orderly` follows this through
the handlers.
-/

namespace SrtGo.Core

open Buffer Congestion Crypto SrtGo.Filter

def Input.Single : Input → Prop
  | .writeCoordinated _ _ _ _ => False
  | _ => True

instance : ∀ i : Input, Decidable i.Single
  | .writeCoordinated _ _ _ _ => isFalse id
  | .write _ _ _ | .packet _ _ | .timer _ _ | .keepAlive _ | .shutdown _ => isTrue trivial

namespace Conn

variable {σ : Type} {c c' c'' : Conn σ} {o : Output}

/-! ## Timers that are cleared -/

abbrev Orderly (c c' : Conn σ) : Prop := Emits KeepsTimers c c'

theorem Orderly.refl (c : Conn σ) : Orderly c c := Emits.refl KeepsTimers c

theorem Orderly.of_eq (h : c'.outputs = c.outputs) : Orderly c c' := Emits.of_eq h

theorem Orderly.push (c : Conn σ) (ho : KeepsTimers o) : Orderly c (c.push o) := Emits.push c ho

theorem Orderly.after (h' : Orderly c' c'') (h : Orderly c c') : Orderly c c'' := h.trans h'

/-- A class of outputs that has every timer which may be set or cleared and every packet but a
request to skip packets. -/
structure Permits (Q : Output → Prop) : Prop where
  set : ∀ id deadline, Q (.setTimer id deadline)
  clear : ∀ id, id = .handshake ∨ id = .kmRefresh → Q (.clearTimer id)
  packet : ∀ p owned, p.header.controlType ≠ .dropReq → Q (.sendPacket p owned)

theorem permits_keepsTimers : Permits KeepsTimers where
  set _ _ := trivial
  clear _ h := h
  packet _ _ _ := trivial

theorem orderly_checkSendDrop (c : Conn σ) (now : ℤ) : Orderly c (c.checkSendDrop now) := by
  unfold checkSendDrop
  simp only
  split_ifs
  · exact Orderly.refl c
  · exact Orderly.refl c
  · exact ⟨[_], rfl, by simp [KeepsTimers]⟩

section Permitted

variable {Q : Output → Prop}

theorem Permits.of_isTimer (hQ : Permits Q) (ho : o.isTimer = true)
    (hkept : KeepsTimers o) : Q o := by
  cases o with
  | sendPacket p owned => exact absurd ho (by simp [Output.isTimer])
  | setTimer id deadline => exact hQ.set id deadline
  | clearTimer id => exact hQ.clear id hkept

theorem permitted_feedFEC (hQ : Permits Q) (c : Conn σ) (p : Packet) : Emits Q c (c.feedFEC p) := by
  obtain ⟨fec, os, heq, hos⟩ := c.feedFEC_spec p
  rw [heq]
  refine ⟨os, rfl, fun o ho => ?_⟩
  obtain ⟨fp, rfl⟩ := hos o ho
  exact hQ.packet _ true (by simp [repairPacket, Packet.newData])

theorem Reports.permitted (hQ : Permits Q) (h : Reports c c') : Emits Q c c' := by
  refine h.emits.mono fun o ho => ?_
  obtain ⟨p, rfl, -, htype⟩ := ho
  exact hQ.packet p true (by simp [htype])

section
variable [Primitives]

theorem permitted_of_announces (hQ : Permits Q) {c : Conn σ} {ctx : Context}
    {key : PacketEncryption} (h : c.Announces ctx key o) : Q o := by
  obtain ⟨now, km, -, rfl⟩ := h
  exact hQ.packet _ true (by simp [userControl, control, Packet.newControl])

theorem permitted_checkKeyRotation (hQ : Permits Q) (c : Conn σ) (now : ℤ) :
    Emits Q c (c.checkKeyRotation now) := by
  refine ⟨c.rotationNotice now, by rw [checkKeyRotation_eq], fun o ho => ?_⟩
  rcases mem_rotationNotice ho with ⟨deadline, rfl⟩ | ⟨ctx, ctx', -, -, -, hann⟩
  · exact hQ.set .kmRefresh deadline
  · exact permitted_of_announces hQ hann

theorem controlType_encrypt (c : Conn σ) (p : Packet) (seqNo : ℕ) :
    (c.encrypt p seqNo).header.controlType = p.header.controlType := by
  unfold encrypt
  split
  · rfl
  · simp only
    split <;> rfl

variable [Controller σ]

theorem permitted_sendData (hQ : Permits Q) (c : Conn σ) (now : ℤ) (seqNo ts : ℕ) (f : Frame) :
    Emits Q c (c.sendData now seqNo ts f) := by
  unfold sendData
  simp only
  split
  · exact Emits.refl Q c
  · have htransmit : ∀ sb plain, Emits Q c
        (c.transmit now sb plain (c.encrypt (c.framePacket seqNo ts f) seqNo)) := by
      intro sb plain
      refine Emits.push _ (hQ.packet _ false ?_)
      rw [controlType_encrypt]
      simp [framePacket, Packet.newData]
    unfold afterSend
    split_ifs
    · exact ((htransmit _ _).trans (permitted_feedFEC hQ _ _)).trans
        (permitted_checkKeyRotation hQ _ now)
    · exact (htransmit _ _).trans (permitted_feedFEC hQ _ _)

theorem permitted_pumpLoop (hQ : Permits Q) (now : ℤ) (fuel : ℕ) (c : Conn σ) :
    Emits Q c (pumpLoop now fuel c) := by
  refine pumpLoop_preserves now (fun b _ h => h.trans (Emits.push b (hQ.set .sndPacing _)))
    (fun b f rest _ _ _ h => h.trans ?_) fuel c (Emits.refl Q c)
  exact Emits.trans (Emits.of_eq rfl) (permitted_sendData hQ (b.dequeue rest) now _ _ f)

end

end Permitted

section
variable [Primitives]

variable [Controller σ]

theorem orderly_sendData (c : Conn σ) (now : ℤ) (seqNo ts : ℕ) (f : Frame) :
    Orderly c (c.sendData now seqNo ts f) := permitted_sendData permits_keepsTimers c now seqNo ts f

theorem orderly_pump (c : Conn σ) (now : ℤ) : Orderly c (c.pump now) :=
  (orderly_checkSendDrop c now).trans (permitted_pumpLoop permits_keepsTimers now _ _)

end

/-! ## The cases of a step -/

/-- Neither the queue nor the send buffer nor the window of the receiver has changed. -/
structure Upkeep (c c' : Conn σ) : Prop where
  params : c'.params = c.params
  sendBuf : c'.snd.sendBuf = c.snd.sendBuf
  sendQueue : c'.snd.sendQueue = c.snd.sendQueue
  rcvFlowWin : c'.snd.rcvFlowWin = c.snd.rcvFlowWin
  nextSendTime : c'.snd.nextSendTime = c.snd.nextSendTime
  msgTTLActive : c'.snd.msgTTLActive = c.snd.msgTTLActive
  history : c'.history = c.history
  emits : ∀ {Q : Output → Prop}, Permits Q →
    (∀ p, c.snd.sendBuf.CopyOf p → Q (.sendPacket p true)) → Emits Q c c'

theorem Upkeep.orderly (h : Upkeep c c') : Orderly c c' :=
  h.emits permits_keepsTimers fun _ _ => trivial

theorem Upkeep.refl (c : Conn σ) : Upkeep c c :=
  ⟨rfl, rfl, rfl, rfl, rfl, rfl, rfl, fun _ _ => Emits.refl _ c⟩

theorem Upkeep.after (h' : Upkeep c' c'') (h : Upkeep c c') : Upkeep c c'' :=
  ⟨h'.params.trans h.params, h'.sendBuf.trans h.sendBuf, h'.sendQueue.trans h.sendQueue,
    h'.rcvFlowWin.trans h.rcvFlowWin, h'.nextSendTime.trans h.nextSendTime,
    h'.msgTTLActive.trans h.msgTTLActive, h'.history.trans h.history,
    fun hQ hcopy => (h.emits hQ hcopy).trans (h'.emits hQ (by rw [h.sendBuf]; exact hcopy))⟩

theorem Upkeep.of_snd (hparams : c'.params = c.params) (hsnd : c'.snd = c.snd)
    (hhistory : c'.history = c.history) (hemits : ∀ {Q : Output → Prop}, Permits Q → Emits Q c c') :
    Upkeep c c' :=
  ⟨hparams, by rw [hsnd], by rw [hsnd], by rw [hsnd], by rw [hsnd], by rw [hsnd], hhistory,
    fun hQ _ => hemits hQ⟩

theorem Upkeep.of_recvFrame (h : RecvFrame c c') (hemits : ∀ {Q : Output → Prop}, Permits Q →
    Emits Q c c') :
    Upkeep c c' :=
  ⟨h.params, by rw [h.snd], by rw [h.snd], by rw [h.snd], by rw [h.snd], by rw [h.snd], h.history,
    fun hQ _ => hemits hQ⟩

theorem Upkeep.quiet (hparams : c'.params = c.params) (hsnd : c'.snd = c.snd)
    (hhistory : c'.history = c.history) (houtputs : c'.outputs = c.outputs) : Upkeep c c' :=
  Upkeep.of_snd hparams hsnd hhistory fun _ => Emits.of_eq houtputs

theorem Upkeep.push (c : Conn σ) (ho : ∀ {Q : Output → Prop}, Permits Q → Q o) :
    Upkeep c (c.push o) :=
  Upkeep.of_snd rfl rfl rfl fun hQ => Emits.push c (ho hQ)

theorem Upkeep.arm (c : Conn σ) (id : TimerID) (deadline : ℤ) :
    Upkeep c (c.push (.setTimer id deadline)) :=
  Upkeep.push c fun hQ => hQ.set id deadline

theorem Upkeep.of_book (h : Book c c') (hflow : SameFlow c c') : Upkeep c c' :=
  { h, hflow with emits := fun _ _ => Emits.of_eq h.outputs }

theorem upkeep_noteAlive (c : Conn σ) (now : ℤ) : Upkeep c (c.noteAlive now) :=
  Upkeep.of_book (book_noteAlive c now) (sameFlow_noteAlive c now)

theorem upkeep_foldl_send {ps : List Packet} {c : Conn σ} (hps : ∀ p ∈ ps, c.snd.sendBuf.CopyOf p) :
    Upkeep c (ps.foldl send c) := by
  rw [foldl_send_eq]
  refine ⟨rfl, rfl, rfl, rfl, rfl, rfl, rfl, fun hQ hcopy => ⟨_, rfl, fun o ho => ?_⟩⟩
  obtain ⟨p, hp, rfl⟩ := List.mem_map.mp ho
  exact hcopy p (hps p hp)

theorem upkeep_feedFEC (c : Conn σ) (p : Packet) : Upkeep c (c.feedFEC p) := by
  have hemits : ∀ {Q : Output → Prop}, Permits Q → Emits Q c (c.feedFEC p) :=
    fun hQ => permitted_feedFEC hQ c p
  obtain ⟨fec, os, heq, -⟩ := c.feedFEC_spec p
  rw [heq] at hemits ⊢
  exact ⟨rfl, rfl, rfl, rfl, rfl, rfl, rfl, fun hQ _ => hemits hQ⟩

theorem upkeep_sendKMREQ [Primitives] (c : Conn σ) (now : ℤ) (key : PacketEncryption) :
    Upkeep c (c.sendKMREQ now key) := by
  rw [sendKMREQ_eq]
  refine Upkeep.of_snd rfl rfl rfl fun hQ => ⟨_, rfl, fun o ho => ?_⟩
  cases hctx : c.key.cryptoCtx with
  | none => simp [hctx] at ho
  | some ctx => exact permitted_of_announces hQ (announces_of_mem (by simpa [hctx] using ho))

theorem snd_checkKeyRotation [Primitives] (c : Conn σ) (now : ℤ) :
    (c.checkKeyRotation now).snd = c.snd := by
  rw [checkKeyRotation_eq]

theorem upkeep_checkKeyRotation [Primitives] (c : Conn σ) (now : ℤ) :
    Upkeep c (c.checkKeyRotation now) :=
  Upkeep.of_snd (by rw [checkKeyRotation_eq]) (snd_checkKeyRotation c now)
    (by rw [checkKeyRotation_eq])
    fun hQ => permitted_checkKeyRotation hQ c now

theorem sendCC_feedFEC (c : Conn σ) (p : Packet) : (c.feedFEC p).snd.sendCC = c.snd.sendCC := by
  obtain ⟨fec, os, heq, -⟩ := c.feedFEC_spec p
  rw [heq]

theorem sendData_cases [Controller σ] [Primitives] (c : Conn σ) (now : ℤ) (seqNo ts : ℕ)
    (f : Frame) :
    (c.snd.sendBuf.len : ℤ) ≤ c.snd.sendBuf.size ∧ c.sendData now seqNo ts f = c ∨
      ∃ sb plain wire, c.snd.sendBuf.push wire now = some sb ∧
        (wire.header.sequenceNumber = seqNo ∧ wire.header.packetPosition = f.pos ∧
          wire.header.timestamp = ts) ∧
        (c.sendData now seqNo ts f).snd.sendCC =
          Controller.onPacketSent c.snd.sendCC wire.header.sequenceNumber plain.data.length ∧
        Upkeep (c.transmit now (tagTTL sb f.ttlNs) plain wire) (c.sendData now seqNo ts f) := by
  have hheader : (c.encrypt (c.framePacket seqNo ts f) seqNo).header.sequenceNumber = seqNo ∧
      (c.encrypt (c.framePacket seqNo ts f) seqNo).header.packetPosition = f.pos ∧
      (c.encrypt (c.framePacket seqNo ts f) seqNo).header.timestamp = ts := by
    unfold encrypt
    split
    · exact ⟨rfl, rfl, rfl⟩
    · simp only
      split <;> exact ⟨rfl, rfl, rfl⟩
  unfold sendData
  simp only
  split
  · rename_i hfull
    refine Or.inl ⟨?_, rfl⟩
    by_contra hroom
    rw [SendBuffer.push, if_neg hroom] at hfull
    exact absurd hfull (by simp)
  · rename_i sb hpush
    refine Or.inr ⟨sb, c.framePacket seqNo ts f, _, hpush, hheader, ?_, ?_⟩
    · unfold afterSend
      split_ifs
      · rw [snd_checkKeyRotation]
        exact sendCC_feedFEC _ _
      · exact sendCC_feedFEC _ _
    · unfold afterSend
      split_ifs
      · exact (upkeep_checkKeyRotation _ now).after (upkeep_feedFEC _ _)
      · exact upkeep_feedFEC _ _

theorem sendPaced_cases [Controller σ] [Primitives] (c : Conn σ) (now : ℤ) (f : Frame)
    (rest : List Frame) :
    ((c.snd.sendBuf.len : ℤ) ≤ c.snd.sendBuf.size ∧
        ((c.dequeue rest).sendPaced now f).snd.sendBuf = c.snd.sendBuf ∧
        ((c.dequeue rest).sendPaced now f).history = c.history ∨
      ∃ sb plain wire, c.snd.sendBuf.push wire now = some sb ∧
        (wire.header.sequenceNumber = c.snd.sendBuf.nextSeq ∧ wire.header.packetPosition = f.pos ∧
          wire.header.timestamp = if f.srcTime = 0 then c.wireTS now else f.srcTime) ∧
        ((c.dequeue rest).sendPaced now f).snd.sendBuf = tagTTL sb f.ttlNs ∧
        ((c.dequeue rest).sendPaced now f).history = c.history ++
          [⟨c.key.cryptoCtx, plain, wire⟩]) ∧
    ((c.dequeue rest).sendPaced now f).snd.sendQueue = rest ∧
    ((c.dequeue rest).sendPaced now f).snd.msgTTLActive = c.snd.msgTTLActive ∧
    ((c.dequeue rest).sendPaced now f).snd.rcvFlowWin = c.snd.rcvFlowWin ∧
    ((c.dequeue rest).sendPaced now f).params = c.params := by
  -- the pacing deadline is none of these
  have hpace : ∀ (b : Conn σ) (interval : ℤ), (b.pace now interval).snd.sendBuf = b.snd.sendBuf ∧
      (b.pace now interval).history = b.history ∧ (b.pace now interval).snd.sendQueue =
        b.snd.sendQueue ∧
      (b.pace now interval).snd.msgTTLActive = b.snd.msgTTLActive ∧
      (b.pace now interval).snd.rcvFlowWin = b.snd.rcvFlowWin ∧
        (b.pace now interval).params = b.params :=
    fun b interval => ⟨rfl, rfl, rfl, rfl, rfl, rfl⟩
  unfold sendPaced
  obtain ⟨hbuf, hhistory, hqueue, hactive, hwin, hparams⟩ := hpace ((c.dequeue rest).sendOne now f)
    ((c.dequeue rest).sendOne now f).sendInterval
  rw [hbuf, hhistory, hqueue, hactive, hwin, hparams]
  rcases sendData_cases (c.dequeue rest) now c.snd.sendBuf.nextSeq
      (if f.srcTime = 0 then c.wireTS now else f.srcTime) f with
    ⟨hfull, hsame⟩ | ⟨sb, plain, wire, hpush, hheader, -, hkeep⟩
  · have hlost : (c.dequeue rest).sendOne now f = c.dequeue rest := hsame
    rw [hlost]
    exact ⟨Or.inl ⟨hfull, rfl, rfl⟩, rfl, rfl, rfl, rfl⟩
  · exact ⟨Or.inr ⟨sb, plain, wire, hpush, hheader, hkeep.sendBuf, hkeep.history⟩, hkeep.sendQueue,
      hkeep.msgTTLActive, hkeep.rcvFlowWin, hkeep.params⟩

def afterLiteACK (c : Conn σ) (now : ℤ) (ackSeq : ℕ) : Conn σ :=
  let r := c.acknowledge now ackSeq
  { r.1 with snd := { r.1.snd with
      rcvFlowWin := if 0 < r.2 ∧ 0 < r.1.snd.rcvFlowWin then r.1.snd.rcvFlowWin - r.2
        else r.1.snd.rcvFlowWin } }

section
variable [Controller σ]

def afterFullACK (c : Conn σ) (now : ℤ) (ackSubNo : ℕ) (ack : CIFACK) : Conn σ :=
  ((c.acknowledge now ack.lastACKPacketSequenceNumber).1.sendACKACK now ackSubNo).adoptACK now ack

variable [Primitives] {i : Input} {b : Conn σ} {p : Packet} {now : ℤ}

/-- An acknowledgement of everything before `a` has been taken in: it releases packets, and the
queue is as it was. -/
structure Acked (c c' : Conn σ) (a : ℕ) : Prop where
  params : c'.params = c.params
  sendBuf : c'.snd.sendBuf = (c.snd.sendBuf.ack a).1
  sendQueue : c'.snd.sendQueue = c.snd.sendQueue
  nextSendTime : c'.snd.nextSendTime = c.snd.nextSendTime
  msgTTLActive : c'.snd.msgTTLActive = c.snd.msgTTLActive
  history : c'.history = c.history
  emits : ∀ {Q : Output → Prop}, Permits Q →
    (∀ p, c.snd.sendBuf.CopyOf p → Q (.sendPacket p true)) → Emits Q c c'

structure Echoes (c c' : Conn σ) : Prop where
  rest : c' = { c with
    snd := { c.snd with rcvFlowWin := c'.snd.rcvFlowWin, sendCC := c'.snd.sendCC }
    ack := c'.ack
    outputs := c'.outputs }
  emits : Emits (fun o => ∃ p, o = .sendPacket p true ∧ p.header.isControl = true ∧
    p.header.controlType = .ackack) c c'

omit [Primitives] in
theorem echoes_afterFullACK (c : Conn σ) (now : ℤ) (ackSubNo : ℕ) (ack : CIFACK) :
    Echoes (c.acknowledge now ack.lastACKPacketSequenceNumber).1
      (c.afterFullACK now ackSubNo ack) := by
  unfold afterFullACK adoptACK sendACKACK
  constructor
  · split_ifs <;> rfl
  · split_ifs
    · exact ⟨[_], rfl, by simp [control, Packet.newControl]⟩
    · exact Emits.of_eq rfl
    · exact ⟨[_], rfl, by simp [control, Packet.newControl]⟩
    · exact Emits.of_eq rfl

omit [Primitives] in
theorem snd_afterFullACK (c : Conn σ) (now : ℤ) (ackSubNo : ℕ) (ack : CIFACK) :
    (c.afterFullACK now ackSubNo ack).snd =
      { (c.acknowledge now ack.lastACKPacketSequenceNumber).1.snd with
        rcvFlowWin := ack.availableBufferSize
        sendCC := Controller.onACK c.snd.sendCC now ack.lastACKPacketSequenceNumber
          (if 0 < ack.rtt then ack.rtt else c.ack.rtt) ack.estimatedLinkCapacity
            ack.packetsReceivingRate } := by
  unfold afterFullACK adoptACK sendACKACK
  by_cases hrtt : 0 < ack.rtt
  · simp only [if_pos hrtt]
    split_ifs <;> rfl
  · simp only [if_neg hrtt]
    split_ifs <;> rfl

omit [Controller σ] [Primitives] in
theorem acked_lite (h : Upkeep c c') (now : ℤ) (a : ℕ) : Acked c (c'.afterLiteACK now a) a :=
  { h with
    sendBuf := by rw [← h.sendBuf]; rfl
    emits := fun hQ hcopy => (h.emits hQ hcopy).trans (Emits.of_eq rfl) }

omit [Primitives] in
theorem acked_full (h : Upkeep c c') (now : ℤ) (ackSubNo : ℕ) (ack : CIFACK) :
    Acked c (c'.afterFullACK now ackSubNo ack) ack.lastACKPacketSequenceNumber := by
  have hecho := c'.echoes_afterFullACK now ackSubNo ack
  have hemits : ∀ {Q : Output → Prop}, Permits Q →
    (∀ p, c.snd.sendBuf.CopyOf p → Q (.sendPacket p true)) →
      Emits Q c (c'.afterFullACK now ackSubNo ack) := by
    intro Q hQ hcopy
    refine ((h.emits hQ hcopy).trans (Emits.of_eq rfl)).trans (hecho.emits.mono ?_)
    rintro o ⟨p, rfl, -, htype⟩
    exact hQ.packet p true (by simp [htype])
  rw [hecho.rest] at hemits ⊢
  exact { h with sendBuf := by rw [← h.sendBuf]; rfl, emits := hemits }

inductive PumpedFrom (c : Conn σ) : Conn σ → Prop
  | upkeep {b : Conn σ} (h : Upkeep c b) : PumpedFrom c b
  | write (now : ℤ) (payload : Bytes) (opts : MsgOptions) :
    PumpedFrom c (c.enqueue now payload opts)
  | lite {b : Conn σ} (h : Upkeep c b) (now : ℤ) (ackSeq : ℕ) :
    PumpedFrom c (b.afterLiteACK now ackSeq)
  | full {b : Conn σ} (h : Upkeep c b) (now : ℤ) (ackSubNo : ℕ) (ack : CIFACK) :
      PumpedFrom c (b.afterFullACK now ackSubNo ack)

omit [Primitives] in
theorem PumpedFrom.cases (hb : PumpedFrom c b) :
    Upkeep c b ∨ (∃ now payload opts, b = c.enqueue now payload opts) ∨ ∃ a, Acked c b a := by
  cases hb with
  | upkeep h => exact Or.inl h
  | write now payload opts => exact Or.inr (Or.inl ⟨now, payload, opts, rfl⟩)
  | lite h now ackSeq => exact Or.inr (Or.inr ⟨_, acked_lite h now ackSeq⟩)
  | full h now ackSubNo ack => exact Or.inr (Or.inr ⟨_, acked_full h now ackSubNo ack⟩)

omit [Primitives] in
theorem PumpedFrom.frame (hb : PumpedFrom c b) :
    b.params = c.params ∧ b.history = c.history ∧ b.snd.nextSendTime = c.snd.nextSendTime := by
  rcases hb.cases with h | ⟨now, payload, opts, rfl⟩ | ⟨a, h⟩
  · exact ⟨h.params, h.history, h.nextSendTime⟩
  · exact ⟨rfl, rfl, rfl⟩
  · exact ⟨h.params, h.history, h.nextSendTime⟩

omit [Primitives] in
theorem PumpedFrom.emits {Q : Output → Prop} (hb : PumpedFrom c b) (hQ : Permits Q)
    (hcopy : ∀ p, c.snd.sendBuf.CopyOf p → Q (.sendPacket p true)) : Emits Q c b := by
  rcases hb.cases with h | ⟨now, payload, opts, rfl⟩ | ⟨a, h⟩
  · exact h.emits hQ hcopy
  · exact Emits.of_eq rfl
  · exact h.emits hQ hcopy

inductive Pumps (i : Input) (c : Conn σ) : Conn σ → Prop
  | upkeep {b : Conn σ} (h : Upkeep c b) : Pumps i c b
  | write {now : ℤ} {payload : Bytes} {opts : MsgOptions} (hi : i = .write now payload opts)
      (hopen : c.closed = false) : Pumps i c (c.enqueue now payload opts)
  | lite {b : Conn σ} {now : ℤ} {p : Packet} {ack : CIFACK} (hi : i = .packet now p)
      (htype : p.header.isControl = true ∧ p.header.controlType = .ack)
      (hack : CIFACK.unmarshalCIF p.data = .ok ack) (hlite : p.data.length = 4) (h : Upkeep c b) :
      Pumps i c (b.afterLiteACK now ack.lastACKPacketSequenceNumber)
  | full {b : Conn σ} {now : ℤ} {p : Packet} {ack : CIFACK} (hi : i = .packet now p)
      (htype : p.header.isControl = true ∧ p.header.controlType = .ack)
      (hack : CIFACK.unmarshalCIF p.data = .ok ack) (hfull : p.data.length ≠ 4) (h : Upkeep c b) :
      Pumps i c (b.afterFullACK now p.header.typeSpecific ack)

omit [Primitives] in
theorem Pumps.pumpedFrom (h : Pumps i c b) : PumpedFrom c b := by
  cases h with
  | upkeep h => exact .upkeep h
  | write hi hopen => exact .write _ _ _
  | lite hi htype hack hlite h => exact .lite h _ _
  | full hi htype hack hfull h => exact .full h _ _ _

omit [Primitives] in
theorem Pumps.cases (h : Pumps i c b) :
    Upkeep c b ∨ (∃ now payload opts, i = .write now payload opts ∧
      b = c.enqueue now payload opts) ∨
      ∃ now p ack, i = .packet now p ∧ (p.header.isControl = true ∧ p.header.controlType = .ack) ∧
        CIFACK.unmarshalCIF p.data = .ok ack ∧ Acked c b ack.lastACKPacketSequenceNumber := by
  cases h with
  | upkeep h => exact Or.inl h
  | write hi hopen => exact Or.inr (Or.inl ⟨_, _, _, hi, rfl⟩)
  | lite hi htype hack hlite h => exact Or.inr (Or.inr ⟨_, _, _, hi, htype, hack, acked_lite h _ _⟩)
  | full hi htype hack hfull h =>
    exact Or.inr (Or.inr ⟨_, _, _, hi, htype, hack, acked_full h _ _ _⟩)

/-- What a step with input `i` does to the send queue. -/
inductive SendStep (i : Input) (c : Conn σ) : Conn σ → Prop
  | idle {c' : Conn σ} (h : Upkeep c c') : SendStep i c c'
  | resend {c' : Conn σ} (losses : List ℕ) (now rtt rttVar : ℤ)
      (h : Upkeep (c.setSendBuf (c.snd.sendBuf.nakTimed losses now rtt rttVar).1) c') :
        SendStep i c c'
  | pump {b : Conn σ} (h : Pumps i c b) : SendStep i c (b.pump i.now)

omit [Primitives] in
theorem upkeep_sampleInputBandwidth (c : Conn σ) (now : ℤ) :
    Upkeep c (c.sampleInputBandwidth now) :=
  Upkeep.of_book (book_sampleInputBandwidth c now) (sameFlow_sampleInputBandwidth c now)

omit [Primitives] in
theorem upkeep_sendFullACK (c : Conn σ) (now : ℤ) : Upkeep c (c.sendFullACK now) := by
  refine Upkeep.of_recvFrame (recvFrame_sendFullACK c now) fun hQ => ?_
  unfold sendFullACK
  simp only
  split_ifs
  · exact Emits.refl _ c
  · exact Emits.trans (Emits.of_eq rfl)
      (Emits.push _ (hQ.packet _ true (by simp [control, Packet.newControl])))

theorem upkeep_of_move {c₀ : Conn σ} (hi : i.sends = false) (h : Shift i c₀ c c') :
    Upkeep c c' := by
  have hquiet : i.sends ≠ true := by simp [hi]
  cases h with
  | book h hflow => exact Upkeep.of_book h (hflow.resolve_left hquiet)
  | arm ho hkept => exact Upkeep.push _ fun hQ => hQ.of_isTimer ho hkept
  | answer hcontrol hack hnak hreq hsmall hdrop =>
    exact Upkeep.push _ fun hQ => hQ.packet _ true (hdrop.resolve_right hquiet)
  | ack hcontrol hack hdata hsmall =>
    exact Upkeep.push _ fun hQ => hQ.packet _ true (by simp [hack])
  | resend hcopy =>
    exact ⟨rfl, rfl, rfl, rfl, rfl, rfl, rfl, fun _ hcopies => Emits.push _ (hcopies _ hcopy)⟩
  | report h hsource => exact Upkeep.of_recvFrame h.recvFrame fun hQ => h.permitted hQ
  | arrive p hd => exact Upkeep.of_recvFrame (recvFrame_noteArrival _ _ _) fun _ => Emits.of_eq rfl
  | deliver h hd =>
    exact Upkeep.of_recvFrame h.frame.recvFrame fun hQ => h.frame.emits_of (hQ.set .tsbpd)
  | sendBuf hsb hs => exact absurd hs hquiet
  | enqueue now payload opts hs => exact absurd hs hquiet
  | dequeue rest hs => exact absurd hs hquiet
  | packet seqNo ts f hs => exact absurd hs hquiet
  | retry n htimer hos =>
    refine Upkeep.of_snd rfl rfl rfl fun hQ => ⟨_, rfl, fun o ho => ?_⟩
    rcases hos o ho with ⟨deadline, rfl⟩ | ⟨-, ctx, -, hann⟩
    · exact hQ.set .kmRefresh deadline
    · exact permitted_of_announces hQ hann
  | request hpacket hkey htype hos =>
    refine Upkeep.of_snd rfl rfl rfl fun hQ => ⟨_, rfl, fun o ho => ?_⟩
    obtain ⟨now, data, -, rfl⟩ := hos o ho
    exact hQ.packet _ true (by simp [userControl, control, Packet.newControl])
  | response hpacket htype hos hes =>
    refine Upkeep.of_snd rfl rfl rfl fun hQ => ⟨_, rfl, fun o ho => ?_⟩
    rcases hos o ho with rfl | rfl
    · exact hQ.clear .kmRefresh (Or.inr rfl)
    · exact hQ.clear .handshake (Or.inl rfl)
  | _ => exact Upkeep.quiet rfl rfl rfl rfl

theorem upkeep_step (hi : i.sends = false) (c : Conn σ) : Upkeep c (c.step i) :=
  step_preserves c i (Upkeep.refl c) fun _ _ hmove h => (upkeep_of_move hi hmove).after h

theorem sendStep_handleNAK (hkeep : Upkeep c c') (now : ℤ) (p : Packet) :
    SendStep i c (c'.handleNAK now p) := by
  unfold handleNAK
  split
  · exact .idle hkeep
  · rename_i losses _
    simp only
    split_ifs
    · refine .resend losses now c'.ack.rtt c'.ack.rttVar ?_
      refine (upkeep_foldl_send (SendBuffer.copyOf_nakTimed _ losses now _ _)).after ?_
      refine { hkeep with
        sendBuf := ?_, emits := fun hQ hcopy => hkeep.emits hQ fun q hq => hcopy q ?_ }
      · show (c'.snd.sendBuf.nakTimed losses now c'.ack.rtt c'.ack.rttVar).1 =
          (c.snd.sendBuf.nakTimed losses now c'.ack.rtt c'.ack.rttVar).1
        rw [hkeep.sendBuf]
      · exact hq.of_within (SendBuffer.nakTimed_within _ losses now c'.ack.rtt c'.ack.rttVar)
    · refine .idle ((upkeep_foldl_send (SendBuffer.copyOf_nak _ losses)).after ?_)
      exact { hkeep with }

theorem handleACK_eq {ack : CIFACK} (hack : CIFACK.unmarshalCIF p.data = .ok ack) :
    c.handleACK now p =
      if p.data.length = 4 then (c.afterLiteACK now ack.lastACKPacketSequenceNumber).pump now
      else (c.afterFullACK now p.header.typeSpecific ack).pump now := by
  unfold handleACK
  rw [hack]
  rfl

theorem sendStep_handleACK (hkeep : Upkeep c c')
    (htype : p.header.isControl = true ∧ p.header.controlType = .ack) :
    SendStep (.packet now p) c (c'.handleACK now p) := by
  cases hack : CIFACK.unmarshalCIF p.data with
  | error e =>
    have hsame : c'.handleACK now p = c' := by
      unfold handleACK
      rw [hack]
    rw [hsame]
    exact .idle hkeep
  | ok ack =>
    rw [handleACK_eq hack]
    by_cases hlen : p.data.length = 4
    · rw [if_pos hlen]
      exact .pump (.lite rfl htype hack hlen hkeep)
    · rw [if_neg hlen]
      exact .pump (.full rfl htype hack hlen hkeep)

theorem sendStep (c : Conn σ) (hi : i.Single) : SendStep i c (c.step i) := by
  by_cases hs : i.sends = true
  case neg => exact .idle (upkeep_step (by simpa using hs) c)
  cases i with
  | write now payload opts =>
    show SendStep _ c (c.writeMsg now payload opts)
    unfold writeMsg
    split_ifs with hclosed
    · exact .idle (Upkeep.refl c)
    · exact .pump (.write rfl (by simpa using hclosed))
  | writeCoordinated now payload seqNo srcTime => exact hi.elim
  | packet now p =>
    have halive := upkeep_noteAlive c now
    obtain ⟨hcontrol, htype⟩ : p.header.isControl = true ∧
        (p.header.controlType = .ack ∨ p.header.controlType = .nak) := by
          simpa [Input.sends] using hs
    show SendStep _ c (c.handlePacket now p)
    by_cases hclosed : c.closed = true
    · rw [handlePacket, if_pos hclosed]
      exact .idle (Upkeep.refl c)
    rw [handlePacket, if_neg hclosed, if_neg (by rcases htype with h | h <;> simp [h]),
      if_pos hcontrol, handleControl]
    rcases htype with htype | htype <;> rw [htype]
    · exact sendStep_handleACK halive ⟨hcontrol, htype⟩
    · exact sendStep_handleNAK halive now p
  | timer now id =>
    have hsample := upkeep_sampleInputBandwidth c now
    show SendStep _ c (c.handleTimer now id)
    unfold handleTimer
    simp only
    split_ifs with hclosed
    · exact .idle hsample
    cases id with
    | ack =>
      have hack : Upkeep c (((c.sampleInputBandwidth now).sendFullACK now).push
          (.setTimer .ack (now + synInterval))) :=
        ((Upkeep.arm _ _ _).after (upkeep_sendFullACK _ now)).after hsample
      simp only [handleACKTimer]
      split_ifs
      · exact .pump (.upkeep hack)
      · exact .idle hack
    | sndPacing => exact .pump (.upkeep hsample)
    | _ => exact absurd hs (by simp [Input.sends])
  | _ => exact absurd hs (by simp [Input.sends])

theorem SendStep.orderly (h : SendStep i c c') : Orderly c c' := by
  cases h with
  | idle h => exact h.orderly
  | resend losses now rtt rttVar h => exact h.orderly.after (Orderly.of_eq rfl)
  | pump h =>
    exact (orderly_pump _ i.now).after (h.pumpedFrom.emits permits_keepsTimers fun _ _ => trivial)

theorem SendStep.params (h : SendStep i c c') : c'.params = c.params := by
  cases h with
  | idle h => exact h.params
  | resend losses now rtt rttVar h => exact h.params
  | pump h => exact (sendFrame_pump _ i.now).params.trans h.pumpedFrom.frame.1

end

end Conn

end SrtGo.Core
