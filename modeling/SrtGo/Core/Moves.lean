import SrtGo.Core.Frame

/-!
# What a step of a connection consists of

A step of a connection is a chain of small moves: a packet is stored, a timer is armed, a
report is sent.  `Move i c₀` lists them, for a step that starts in `c₀` with the input
`i`, and `moves_step` takes every step apart.  A property that each move keeps is then a
property that every step keeps, and no later proof has to walk through the handlers
again.

The moves say where their data comes from as far as later proofs ask: which packet is
stored and that it has been decrypted, which losses are reported, and that a packet that
is sent for the first time is one that went through the encryption.  A `Shift` keeps of a
move what those proofs use of it.
-/

namespace SrtGo.Core

open Buffer Bytes Congestion Crypto SrtGo.Filter SendBuffer

def Input.now : Input → ℤ
  | .write now _ _ => now
  | .writeCoordinated now _ _ _ => now
  | .packet now _ => now
  | .timer now _ => now
  | .keepAlive now => now
  | .shutdown now => now

/-- The inputs that may have packets stored or delivered: data, a request to drop, the playout
timer. -/
def Input.delivers : Input → Bool
  | .packet _ p => !p.header.isControl || p.header.controlType == .dropReq
  | .timer _ id => id == .tsbpd
  | _ => false

/-- The inputs after which packets may be sent for the first time or leave the send buffer. -/
def Input.sends : Input → Bool
  | .write _ _ _ | .writeCoordinated _ _ _ _ => true
  | .packet _ p =>
    p.header.isControl && (p.header.controlType == .ack || p.header.controlType == .nak)
  | .timer _ id => id == .ack || id == .sndPacing
  | _ => false

def Output.isTimer : Output → Bool
  | .sendPacket _ _ => false
  | .setTimer _ _ => true
  | .clearTimer _ => true

def Event.isData : Event → Bool
  | .dataReceived _ _ _ _ => true
  | _ => false

namespace Conn

variable {σ : Type} {plain p : Packet}

def KeepsTimers : Output → Prop
  | .sendPacket _ _ => True
  | .setTimer _ _ => True
  | .clearTimer id => id = .handshake ∨ id = .kmRefresh

structure Book (c c' : Conn σ) : Prop where
  params : c'.params = c.params
  key : c'.key = c.key
  closed : c'.closed = c.closed
  outputs : c'.outputs = c.outputs
  events : c'.events = c.events
  history : c'.history = c.history
  sendBuf : c'.snd.sendBuf = c.snd.sendBuf
  sendQueue : c'.snd.sendQueue = c.snd.sendQueue
  fecSender : c'.snd.fecSender = c.snd.fecSender
  recvBuf : c'.rcv.recvBuf = c.rcv.recvBuf
  tsbpdTimer : c'.rcv.tsbpdTimer = c.rcv.tsbpdTimer
  tsbpdBaseSet : c'.rcv.tsbpdBaseSet = c.rcv.tsbpdBaseSet
  deferredLoss : c'.rcv.deferredLoss = c.rcv.deferredLoss
  fecReceiver : c'.rcv.fecReceiver = c.rcv.fecReceiver
  ackSlots : c'.ack.ackSlots = c.ack.ackSlots
  ackSeqNo : c'.ack.ackSeqNo = c.ack.ackSeqNo
  rcvLastAckAck : c'.ack.rcvLastAckAck = c.ack.rcvLastAckAck

structure SameFlow (c c' : Conn σ) : Prop where
  rcvFlowWin : c'.snd.rcvFlowWin = c.snd.rcvFlowWin
  nextSendTime : c'.snd.nextSendTime = c.snd.nextSendTime
  msgTTLActive : c'.snd.msgTTLActive = c.snd.msgTTLActive

theorem sameFlow_noteAlive (c : Conn σ) (now : ℤ) : SameFlow c (c.noteAlive now) := by
  unfold noteAlive
  split_ifs <;> exact ⟨rfl, rfl, rfl⟩

theorem sameFlow_sampleInputBandwidth [Controller σ] (c : Conn σ) (now : ℤ) :
    SameFlow c (c.sampleInputBandwidth now) := by
  unfold sampleInputBandwidth
  simp only
  split_ifs <;> exact ⟨rfl, rfl, rfl⟩

theorem book_noteAlive (c : Conn σ) (now : ℤ) : Book c (c.noteAlive now) := by
  unfold noteAlive
  split_ifs <;> constructor <;> rfl

theorem book_sampleInputBandwidth [Controller σ] (c : Conn σ) (now : ℤ) :
    Book c (c.sampleInputBandwidth now) := by
  unfold sampleInputBandwidth
  simp only
  split_ifs <;> constructor <;> rfl

/-- The losses that a connection reports on its own account: the gaps of its buffer, at
the timer for it, or what its filter asks for. -/
def LossSource (i : Input) (c₀ c : Conn σ) (losses : List ℕ) : Prop :=
  (∃ now, i = .timer now .nak) ∧ losses = c.rcv.recvBuf.generateLossList ∨
    ∃ now p fec, i = .packet now p ∧ c₀.rcv.fecReceiver = some fec ∧
      losses = (fec.receive p.header.sequenceNumber p.header.timestamp p.header.encryption.code
        p.header.messageNumber p.data).lossReport

theorem decrypt_congr [Primitives] {c c' : Conn σ} (hkey : c.key = c'.key) (p : Packet) :
    c.decrypt p = c'.decrypt p := by
  unfold decrypt
  rw [hkey]

theorem decrypt_eq_some_iff [Primitives] {c : Conn σ} {ctx : Context}
    (hctx : c.key.cryptoCtx = some ctx) :
    c.decrypt p = some plain ↔
      c.key.rcvKmState ≠ .securing ∧ p.header.encryption ≠ .none ∧ plain.header = p.header ∧
        ctx.decryptPayload p.data
          (if ctx.mode = .gcm then { p.header with retransmitted := false }.marshal
          else []) p.header.encryption p.header.sequenceNumber = .ok plain.data := by
  unfold decrypt
  simp only [hctx]
  by_cases hsecuring : c.key.rcvKmState = .securing
  · simp [hsecuring]
  by_cases hnone : p.header.encryption = .none
  · simp [hnone]
  rw [if_neg hsecuring, if_neg hnone]
  cases ctx.decryptPayload p.data
    (if ctx.mode = .gcm then { p.header with retransmitted := false }.marshal else [])
      p.header.encryption p.header.sequenceNumber with
  | error e => simp
  | ok dec =>
    obtain ⟨header, data⟩ := plain
    simp [hsecuring, hnone, eq_comm]

theorem header_of_decrypt [Primitives] {c : Conn σ} (hdec : c.decrypt p = some plain) :
    plain.header = p.header := by
  cases hctx : c.key.cryptoCtx with
  | none =>
    unfold decrypt at hdec
    rw [hctx] at hdec
    rw [Option.some.inj hdec]
  | some ctx => exact ((decrypt_eq_some_iff hctx).mp hdec).2.2.1

variable [Controller σ] [Primitives]

/-- One move of a step with input `i` that started in `c₀`. -/
inductive Move (i : Input) (c₀ : Conn σ) : Conn σ → Conn σ → Prop
  | book {c c' : Conn σ} (h : Book c c') (hflow : i.sends = true ∨ SameFlow c c') : Move i c₀ c c'
  | arm (c : Conn σ) {o : Output} (ho : o.isTimer = true) (hkept : KeepsTimers o) :
    Move i c₀ c (c.push o)
  | answer (c : Conn σ) {p : Packet} (hcontrol : p.header.isControl = true)
      (hack : p.header.controlType ≠ .ack) (hnak : p.header.controlType ≠ .nak)
      (hreq : p.header.subType ≠ .kmReq) (hsmall : p.data.length ≤ 28)
      (hdrop : p.header.controlType ≠ .dropReq ∨ i.sends = true) : Move i c₀ c (c.send p)
  | ack (c : Conn σ) {p : Packet} {rest : Bytes} (hcontrol : p.header.isControl = true)
      (hack : p.header.controlType = .ack)
      (hdata : p.data = putBE 4 c.rcv.recvBuf.ackSequence ++ rest) (hsmall : p.data.length ≤ 28) :
      Move i c₀ c (c.send p)
  | stamp (c : Conn σ) {now : ℤ} (a : AckSide) (hi : i = .timer now .ack) :
    Move i c₀ c { c with ack := a }
  | resend (c : Conn σ) {p : Packet} (hcopy : c.snd.sendBuf.CopyOf p) : Move i c₀ c (c.send p)
  | losses (c : Conn σ) {lost : List ℕ} (h : LossSource i c₀ c lost) :
      Move i c₀ c (c.emitNAK i.now lost)
  | gap (c : Conn σ) {now : ℤ} {p plain : Packet} (hi : i = .packet now p)
      (hcontrol : p.header.isControl = false) (hdec : c₀.decrypt p = some plain)
      (hinserted : (c₀.rcv.recvBuf.insert plain now).2.inserted = true) :
      Move i c₀ c (c.reportLosses now (c₀.rcv.recvBuf.insert plain now).2
        plain.header.sequenceNumber)
  | notify (c : Conn σ) {e : Event} (he : e.isData = false) (hclosed : c.closed = true) :
      Move i c₀ c (c.raise e)
  | close (c : Conn σ) : Move i c₀ c { c with closed := true }
  | arrive (c : Conn σ) (p : Packet) (hd : i.delivers = true) : Move i c₀ c (c.noteArrival i.now p)
  | store (c : Conn σ) {now : ℤ} {p plain : Packet} (hi : i = .packet now p) (hkey : c.key = c₀.key)
      (hdata : p.header.isControl = false) (hdec : c.decrypt p = some plain)
      (hinserted : (c.rcv.recvBuf.insert plain now).2.inserted = true) :
      Move i c₀ c (c.setRecvBuf (c.rcv.recvBuf.insert plain now).1)
  | recover (c : Conn σ) (rp : RecoveredPacket) (hfec : c.rcv.fecReceiver.isSome = true)
    (hd : i.delivers = true) :
      Move i c₀ c (c.insertOne i.now rp)
  | deliver {c c' : Conn σ} (h : Deliver i.now c c') (hd : i.delivers = true) : Move i c₀ c c'
  | drop (c : Conn σ) {now : ℤ} {p : Packet} {dr : CIFDropReq} (hi : i = .packet now p)
      (htype : p.header.isControl = true ∧ p.header.controlType = .dropReq)
      (hdr : CIFDropReq.unmarshalCIF p.data = .ok dr) :
      Move i c₀ c ((c.setRecvBuf (c.rcv.recvBuf.drop (Seq.inc dr.lastSeqNo)).buffer).modifyTimer
        fun t => (c.rcv.recvBuf.drop
          (Seq.inc dr.lastSeqNo)).timestamps.foldl Tsbpd.Timer.updateWrap t)
  | anchor (c : Conn σ) {now : ℤ} {p : Packet} (hi : i = .packet now p)
      (hdata : p.header.isControl = false) : Move i c₀ c (c.anchor now p.header.timestamp)
  | echo (c : Conn σ) {now : ℤ} {p : Packet} (hi : i = .packet now p)
      (htype : p.header.isControl = true ∧ p.header.controlType = .ackack) :
      Move i c₀ c (c.handleACKACK now p)
  | keepalive (c : Conn σ) {now : ℤ} {p : Packet} (hi : i = .packet now p)
      (htype : p.header.isControl = true ∧ p.header.controlType = .keepalive) :
      Move i c₀ c (c.handleKeepalive now p)
  | filter (c : Conn σ) {now : ℤ} {p : Packet} {fec : FECReceiver} (hi : i = .packet now p)
      (hfec : c.rcv.fecReceiver = some fec) (hd : i.delivers = true) :
      Move i c₀ c (c.setFECReceiver (fec.receive p.header.sequenceNumber p.header.timestamp
        p.header.encryption.code p.header.messageNumber p.data).receiver)
  | sendBuf (c : Conn σ) {sb : SendBuffer} (hsb : c.snd.sendBuf.Within sb) (hs : i.sends = true) :
      Move i c₀ c (c.setSendBuf sb)
  | enqueue (c : Conn σ) (now : ℤ) (payload : Bytes) (opts : MsgOptions) (hs : i.sends = true) :
      Move i c₀ c (c.enqueue now payload opts)
  | dequeue (c : Conn σ) (rest : List Frame) (hs : i.sends = true) : Move i c₀ c (c.dequeue rest)
  | packet (c : Conn σ) (seqNo ts : ℕ) (f : Frame) (hs : i.sends = true) :
      Move i c₀ c (c.sendData i.now seqNo ts f)
  | retry (c : Conn σ) {now : ℤ} (hi : i = .timer now .kmRefresh) : Move i c₀ c (c.retryKMREQ now)
  | request (c : Conn σ) {now : ℤ} {p : Packet} (hi : i = .packet now p) (hkey : c.key = c₀.key)
      (htype : p.header.isControl = true ∧ p.header.controlType = .user ∧
        p.header.subType = .kmReq) : Move i c₀ c (c.handleKMRequest now p)
  | response (c : Conn σ) {now : ℤ} {p : Packet} (hi : i = .packet now p) (hkey : c.key = c₀.key)
      (htype : p.header.isControl = true ∧ p.header.controlType = .user ∧
        p.header.subType = .kmRsp) : Move i c₀ c (c.handleKMResponse p)

abbrev Moves (i : Input) (c₀ : Conn σ) : Conn σ → Conn σ → Prop := Relation.ReflTransGen (Move i c₀)

variable {i : Input} {c₀ c c' c'' : Conn σ} {Q : Conn σ → Prop}

theorem Moves.refl (c : Conn σ) : Moves i c₀ c c := Relation.ReflTransGen.refl

theorem Move.moves (h : Move i c₀ c c') : Moves i c₀ c c' := Relation.ReflTransGen.single h

theorem Moves.book (h : Book c c') (hflow : SameFlow c c') : Moves i c₀ c c' :=
  (Move.book h (Or.inr hflow)).moves

theorem Moves.after (h' : Moves i c₀ c' c'') (h : Moves i c₀ c c') : Moves i c₀ c c'' := h.trans h'

theorem moves_answer (c : Conn σ) (t : CtrlType) (u : SubType)
    (hp : p.header.isControl = true ∧ p.header.controlType = t ∧ p.header.subType = u)
    (htype : t ≠ .ack ∧ t ≠ .nak ∧ u ≠ .kmReq) (hsmall : p.data.length ≤ 28)
    (hdrop : t ≠ .dropReq ∨ i.sends = true) : Moves i c₀ c (c.send p) := by
  obtain ⟨hcontrol, rfl, rfl⟩ := hp
  exact (Move.answer c hcontrol htype.1 htype.2.1 htype.2.2 hsmall hdrop).moves

/-! ## The send path -/

theorem moves_resend (ps : List Packet) (c : Conn σ) (hps : ∀ p ∈ ps, c.snd.sendBuf.CopyOf p) :
    Moves i c₀ c (ps.foldl send c) := by
  induction ps generalizing c with
  | nil => exact Moves.refl c
  | cons p ps ih =>
    exact (Move.resend c (hps p List.mem_cons_self)).moves.trans
      (ih (c.send p) fun q hq => hps q (List.mem_cons_of_mem _ hq))

section Sends

variable (hs : i.sends = true)

include hs

theorem moves_checkSendDrop (c : Conn σ) (now : ℤ) : Moves i c₀ c (c.checkSendDrop now) := by
  unfold checkSendDrop
  simp only
  split_ifs
  · exact Moves.refl c
  · exact Moves.refl c
  · exact (Move.sendBuf c (within_dropTooLateLoop _ _ _ _) hs).moves.trans
      (moves_answer _ .dropReq .none ⟨rfl, rfl, rfl⟩ (by decide) (by simp [CIFDropReq.marshalCIF])
        (Or.inr hs))

theorem moves_sendPaced (c : Conn σ) (f : Frame) : Moves i c₀ c (c.sendPaced i.now f) := by
  unfold sendPaced sendOne
  simp only
  exact (Move.packet c _ _ f hs).moves.trans (Move.book (by constructor <;> rfl) (Or.inl hs)).moves

theorem moves_pump (c : Conn σ) : Moves i c₀ c (c.pump i.now) := by
  refine (moves_checkSendDrop hs c i.now).trans ?_
  exact pumpLoop_preserves i.now (fun b _ h => h.trans (Move.arm b rfl (by trivial)).moves)
    (fun b f rest _ _ _ h => (h.trans (Move.dequeue b rest hs).moves).trans
      (moves_sendPaced hs _ f)) _ _
    (Moves.refl _)

theorem moves_writeMsg (c : Conn σ) (payload : Bytes) (opts : MsgOptions) :
    Moves i c₀ c (c.writeMsg i.now payload opts) := by
  unfold writeMsg
  split_ifs
  · exact Moves.refl c
  · exact (Move.enqueue c i.now payload opts hs).moves.trans (moves_pump hs _)

theorem moves_writeCoordinated (c : Conn σ) (payload : Bytes) (seqNo srcTime : ℕ) :
    Moves i c₀ c (c.writeCoordinated i.now payload seqNo srcTime) := by
  unfold writeCoordinated
  simp only
  split_ifs
  · exact Moves.refl c
  · have hbuf : Moves i c₀ c (c.setSendBuf (c.snd.sendBuf.overrideNextSeq seqNo)) :=
      (Move.sendBuf c (within_overrideNextSeq _ _) hs).moves
    exact (Move.packet _ _ _ _ hs).moves.after
      ((Move.book (by constructor <;> rfl) (Or.inl hs)).moves.after hbuf)
  · exact (Move.packet _ _ _ _ hs).moves.after
      (Move.book (by constructor <;> rfl) (Or.inl hs)).moves

theorem moves_handleNAK (c : Conn σ) (now : ℤ) (p : Packet) : Moves i c₀ c (c.handleNAK now p) := by
  unfold handleNAK
  split
  · exact Moves.refl c
  · rename_i lossList _
    have hcc : Moves i c₀ c (c.setSendCC (Controller.onNAK c.snd.sendCC lossList)) :=
      Moves.book (by constructor <;> rfl) ⟨rfl, rfl, rfl⟩
    simp only
    split_ifs
    · refine (hcc.trans (Move.sendBuf _ (within_nakTimed _ lossList now c.ack.rtt
        c.ack.rttVar).1 hs).moves).trans (moves_resend _ _ ?_)
      exact copyOf_nakTimed _ _ _ _ _
    · exact hcc.trans (moves_resend _ _ (copyOf_nak _ _))

end Sends

/-! ## Delivery -/

theorem Deliveries.moves (hd : i.delivers = true) (h : Deliveries i.now c c') : Moves i c₀ c c' :=
  h.lift id fun _ _ hmove => Move.deliver hmove hd

theorem moves_deliverNow (hd : i.delivers = true) (c : Conn σ) :
    Moves i c₀ c (c.deliverNow i.now) :=
  Deliveries.moves hd (deliveries_deliverNow c i.now)

/-! ## Received packets -/

theorem moves_checkLiteACK (c : Conn σ) (now : ℤ) : Moves i c₀ c (c.checkLiteACK now) := by
  unfold checkLiteACK
  split_ifs
  · have hsmall : (putBE 4 c.rcv.recvBuf.ackSequence).length ≤ 28 := by simp
    exact (Move.ack c rfl rfl (List.append_nil _).symm hsmall).moves.trans
      (Moves.book (by constructor <;> rfl) ⟨rfl, rfl, rfl⟩)
  · exact Moves.refl c

theorem moves_insertRecovered (hd : i.delivers = true) (rec : List RecoveredPacket) (c : Conn σ)
    (hfec : c.rcv.fecReceiver.isSome = true) : Moves i c₀ c (c.insertRecovered i.now rec) := by
  have hsame : ∀ (c : Conn σ) (rp : RecoveredPacket),
      (c.insertOne i.now rp).rcv.fecReceiver = c.rcv.fecReceiver := by
    intro c rp
    unfold insertOne
    split <;> rfl
  induction rec generalizing c with
  | nil => exact Moves.refl c
  | cons rp rec ih =>
      exact (Move.recover c rp hfec hd).moves.trans (ih _ (by rw [hsame]; exact hfec))

section Data

variable {now : ℤ} {p : Packet}

theorem moves_feedReceiver (hd : (Input.packet now p).delivers = true) (c : Conn σ) :
    Moves (.packet now p) c₀ c (c.feedReceiver now p) := by
  unfold feedReceiver
  cases hreceiver : c.rcv.fecReceiver with
  | none => exact Moves.refl c
  | some fec =>
    exact (moves_insertRecovered hd _ _ rfl).after (Move.filter c rfl hreceiver hd).moves

theorem moves_afterInsert (hdata : p.header.isControl = false) (c : Conn σ)
    (hdec : c₀.decrypt p = some plain) (hts : plain.header.timestamp = p.header.timestamp)
    (hinserted : (c₀.rcv.recvBuf.insert plain now).2.inserted = true) :
    Moves (.packet now p) c₀ c (c.afterInsert now p plain (c₀.rcv.recvBuf.insert plain now).2) := by
  have hd : (Input.packet now p).delivers = true := by simp [Input.delivers, hdata]
  have hanchor : Moves (.packet now p) c₀ c
      ((c.noteArrival now plain).anchor now plain.header.timestamp) := by
    rw [hts]
    exact (Move.arrive c plain hd).moves.trans (Move.anchor _ rfl hdata).moves
  have hlosses := (hanchor.trans (moves_feedReceiver hd _)).trans
    (Move.gap _ rfl hdata hdec hinserted).moves
  exact (hlosses.trans (moves_checkLiteACK _ now)).trans (moves_deliverNow hd _)

theorem moves_receiveData (hdata : p.header.isControl = false) (hkey : c.key = c₀.key)
    (hbuf : c.rcv.recvBuf = c₀.rcv.recvBuf) :
    Moves (.packet now p) c₀ c (c.receiveData now p) := by
  unfold receiveData
  split
  · exact Moves.refl c
  · rename_i plain hdec
    simp only
    split_ifs with hinserted
    · exact Moves.refl c
    · have hstored : (c.rcv.recvBuf.insert plain now).2.inserted = true := by simpa using hinserted
      have hafter : Moves (.packet now p) c₀ _ _ := moves_afterInsert hdata
        (c.setRecvBuf (c.rcv.recvBuf.insert plain now).1) ((decrypt_congr hkey p).symm.trans hdec)
          (by rw [header_of_decrypt hdec])
        (by rw [← hbuf]; exact hstored)
      rw [← hbuf] at hafter
      exact (Move.store c rfl hkey hdata hdec hstored).moves.trans hafter

theorem moves_handleData (hdata : p.header.isControl = false) (hkey : c.key = c₀.key)
    (hbuf : c.rcv.recvBuf = c₀.rcv.recvBuf) (hfec : c.rcv.fecReceiver = c₀.rcv.fecReceiver) :
    Moves (.packet now p) c₀ c (c.handleData now p) := by
  unfold handleData
  split
  · exact moves_receiveData hdata hkey hbuf
  · rename_i fec hsome
    split_ifs
    · have hsource : LossSource (.packet now p) c₀ ((c.setFECReceiver
          (fec.receive p.header.sequenceNumber p.header.timestamp p.header.encryption.code
            p.header.messageNumber p.data).receiver).insertRecovered now
          (fec.receive p.header.sequenceNumber p.header.timestamp p.header.encryption.code
            p.header.messageNumber p.data).recovered) _ :=
        Or.inr ⟨now, p, fec, rfl, hfec ▸ hsome, rfl⟩
      have hd : (Input.packet now p).delivers = true := by simp [Input.delivers, hdata]
      exact (moves_deliverNow hd _).after ((Move.losses _ hsource).moves.after
        ((moves_insertRecovered hd _ _ rfl).after (Move.filter c rfl hsome hd).moves))
    · exact moves_receiveData hdata hkey hbuf

theorem moves_handleDropReq (htype : p.header.isControl = true ∧ p.header.controlType = .dropReq)
    (c : Conn σ) : Moves (.packet now p) c₀ c (c.handleDropReq now p) := by
  unfold handleDropReq
  split
  · exact Moves.refl c
  · rename_i dr hdr
    exact (moves_deliverNow (by simp [Input.delivers, htype]) _).after
      (Move.drop c rfl htype hdr).moves

theorem moves_handleACK (hs : (Input.packet now p).sends = true) (c : Conn σ) :
    Moves (.packet now p) c₀ c (c.handleACK now p) := by
  have hbook : ∀ {c c' : Conn σ}, Book c c' → Moves (.packet now p) c₀ c c' :=
    fun h => (Move.book h (Or.inl hs)).moves
  have hrelease : ∀ (c : Conn σ) (ackSeq : ℕ), Moves (.packet now p) c₀ c
      (c.acknowledge now ackSeq).1 :=
    fun c ackSeq => (hbook (by constructor <;> rfl)).after
      (Move.sendBuf c (within_ack c.snd.sendBuf ackSeq) hs).moves
  have hecho : ∀ (c : Conn σ) (ackSubNo : ℕ), Moves (.packet now p) c₀ c
      (c.sendACKACK now ackSubNo) := by
    intro c ackSubNo
    unfold sendACKACK
    simp only
    split_ifs
    · exact (moves_answer _ .ackack .none ⟨rfl, rfl, rfl⟩ (by decide) (by simp) (Or.inr hs)).after
        (hbook (by constructor <;> rfl))
    · exact Moves.refl c
  have hadopt : ∀ (c : Conn σ) (ack : CIFACK), Moves (.packet now p) c₀ c (c.adoptACK now ack) := by
    intro c ack
    unfold adoptACK
    simp only
    split_ifs <;> exact hbook (by constructor <;> rfl)
  unfold handleACK
  split
  · exact Moves.refl c
  · simp only
    split_ifs
    · exact (moves_pump hs _).after ((hbook (by constructor <;> rfl)).after (hrelease c _))
    · exact (moves_pump hs _).after ((hbook (by constructor <;> rfl)).after (hrelease c _))
    · exact (moves_pump hs _).after ((hadopt _ _).after ((hecho _ _).after (hrelease c _)))

theorem moves_fail (c : Conn σ) (err : String) : Moves i c₀ c (c.fail err) :=
  (Move.notify _ rfl rfl).moves.after ((Move.arm _ rfl (by exact Or.inl rfl)).moves.after
    (Move.close c).moves)

theorem moves_handleHandshake (c : Conn σ) : Moves i c₀ c (c.handleHandshake p) := by
  unfold handleHandshake
  simp only
  split_ifs
  · exact Moves.refl c
  · exact Moves.refl c
  · exact moves_fail c _

theorem moves_handleUser (htype : p.header.isControl = true ∧ p.header.controlType = .user)
    (hkey : c.key = c₀.key) : Moves (.packet now p) c₀ c (c.handleUser now p) := by
  unfold handleUser
  split
  · rename_i hsub
    exact (Move.request c rfl hkey ⟨htype.1, htype.2, hsub⟩).moves
  · rename_i hsub
    exact (Move.response c rfl hkey ⟨htype.1, htype.2, hsub⟩).moves
  · unfold handleHSv4HSREQ
    split_ifs
    · exact Moves.refl c
    · exact moves_answer c .user .hsRsp ⟨rfl, rfl, rfl⟩ (by decide) (by simp) (Or.inl (by decide))
  · exact Moves.refl c

theorem moves_handleControl (hcontrol : p.header.isControl = true) (hkey : c.key = c₀.key) :
    Moves (.packet now p) c₀ c (c.handleControl now p) := by
  unfold handleControl
  split
  · rename_i htype
    exact moves_handleACK (by simp [Input.sends, hcontrol, htype]) c
  · rename_i htype
    exact moves_handleNAK (by simp [Input.sends, hcontrol, htype]) c now p
  · rename_i htype
    exact (Move.echo c rfl ⟨hcontrol, htype⟩).moves
  · rename_i htype
    exact moves_handleDropReq ⟨hcontrol, htype⟩ c
  · rename_i htype
    exact moves_handleUser ⟨hcontrol, htype⟩ hkey
  · rename_i htype
    exact (Move.keepalive c rfl ⟨hcontrol, htype⟩).moves
  · exact (Move.notify _ rfl rfl).moves.after (Move.close c).moves
  · exact Moves.refl c

theorem moves_handlePacket (c : Conn σ) : Moves (.packet now p) c c (c.handlePacket now p) := by
  have halive := book_noteAlive c now
  unfold handlePacket
  split_ifs with hclosed hhandshake hcontrol
  · exact Moves.refl c
  · exact moves_handleHandshake c
  · exact (Moves.book halive (sameFlow_noteAlive c now)).trans
      (moves_handleControl hcontrol halive.key)
  · exact (Moves.book halive (sameFlow_noteAlive c now)).trans
      (moves_handleData (by simpa using hcontrol) halive.key
      halive.recvBuf halive.fecReceiver)

end Data

/-! ## Timers -/

theorem moves_sendFullACK (c : Conn σ) (now : ℤ) :
    Moves (.timer now .ack) c₀ c (c.sendFullACK now) := by
  unfold sendFullACK
  simp only
  split_ifs
  · exact Moves.refl c
  · obtain ⟨rest, hrest⟩ := (c.fullACK c.rcv.recvBuf.ackSequence
      (decide (synInterval ≤ now - c.ack.lastFullACKTime))).exists_marshalCIF_eq
    rw [fullACK_lastACKPacketSequenceNumber] at hrest
    exact (Move.ack _ rfl rfl hrest (by simp [CIFACK.marshalCIF])).moves.after
      (Move.stamp c _ rfl).moves

theorem moves_handleEXP (c : Conn σ) (now : ℤ) : Moves i c₀ c (c.handleEXP now) := by
  unfold handleEXP
  simp only
  split_ifs
  · exact (Move.arm _ rfl (by trivial)).moves.after
      ((Moves.book (by constructor <;> rfl) (by constructor <;> rfl)).after
        ((moves_resend _ _ (copyOf_getAllUnacked _)).after
          (Moves.book (by constructor <;> rfl) (by constructor <;> rfl))))
  · exact (Move.arm _ rfl (by trivial)).moves

theorem moves_checkKeepalive (c : Conn σ) (now : ℤ) : Moves i c₀ c (c.checkKeepalive now) := by
  unfold checkKeepalive
  simp only
  split_ifs
  · exact Moves.refl c
  · exact (Move.arm _ rfl (by trivial)).moves.after
      (moves_answer c .keepalive .none ⟨rfl, rfl, rfl⟩ (by decide) (by simp) (Or.inl (by decide)))
  · exact (Move.arm _ rfl (by trivial)).moves

theorem moves_checkPeerIdle (c : Conn σ) (now : ℤ) : Moves i c₀ c (c.checkPeerIdle now) := by
  unfold checkPeerIdle
  split_ifs
  · exact Moves.refl c
  · exact (Move.notify _ rfl rfl).moves.after (Move.close c).moves
  · exact (Move.arm c rfl (by trivial)).moves

theorem moves_handleTimer (c : Conn σ) (now : ℤ) (id : TimerID) :
    Moves (.timer now id) c₀ c (c.handleTimer now id) := by
  unfold handleTimer
  simp only
  split_ifs
  · exact Moves.book (book_sampleInputBandwidth c now) (sameFlow_sampleInputBandwidth c now)
  · refine (Moves.book (book_sampleInputBandwidth c now) (sameFlow_sampleInputBandwidth c
      now)).trans ?_
    generalize c.sampleInputBandwidth now = c
    cases id with
    | ack =>
      have hack : Moves (.timer now .ack) c₀ c ((c.sendFullACK now).push (.setTimer .ack
          (now + synInterval))) := (Move.arm _ rfl (by trivial)).moves.after
            (moves_sendFullACK c now)
      simp only [handleACKTimer]
      split_ifs
      · exact (moves_pump rfl _).after hack
      · exact hack
    | nak =>
      simp only [handleNAKTimer]
      split_ifs
      · exact Moves.refl c
      · exact (Move.arm _ rfl (by trivial)).moves.after
          (Move.losses c (Or.inl ⟨⟨now, rfl⟩, rfl⟩)).moves
      · exact (Move.arm _ rfl (by trivial)).moves
    | sndPacing => exact moves_pump rfl c
    | tsbpd => exact Deliveries.moves rfl (deliveries_deliverTSBPD c now)
    | kmRefresh => exact (Move.retry c rfl).moves
    | keepalive => exact moves_checkKeepalive c now
    | peerIdle => exact moves_checkPeerIdle c now
    | exp => exact moves_handleEXP c now
    | handshake => exact Moves.refl c
    | linger => exact Moves.refl c

/-- **Every step is a chain of moves.** -/
theorem moves_step (c : Conn σ) (i : Input) : Moves i c c (c.step i) := by
  cases i with
  | write now payload opts => exact moves_writeMsg rfl c payload opts
  | writeCoordinated now payload seqNo srcTime =>
    exact moves_writeCoordinated rfl c payload seqNo srcTime
  | packet now p => exact moves_handlePacket c
  | timer now id => exact moves_handleTimer c now id
  | keepAlive now =>
    simp only [step, sendKeepAlive]
    split_ifs
    · exact Moves.refl c
    · exact moves_answer c .keepalive .none ⟨rfl, rfl, rfl⟩ (by decide) (Nat.zero_le _)
        (Or.inl (by decide))
  | shutdown now =>
    simp only [step, shutdown]
    split_ifs
    · exact Moves.refl c
    · exact (moves_answer _ .shutdown .none ⟨rfl, rfl, rfl⟩ (by decide) (by simp)
        (Or.inl (by decide))).after (Move.close c).moves

/-! ## What a move can change -/

def ReportsGap (i : Input) (c₀ c c' : Conn σ) : Prop :=
  ∃ now p plain, i = .packet now p ∧ p.header.isControl = false ∧ c₀.decrypt p = some plain ∧
    (c₀.rcv.recvBuf.insert plain now).2.inserted = true ∧
    c' = c.reportLosses now (c₀.rcv.recvBuf.insert plain now).2 plain.header.sequenceNumber

/-- What a move can change: where a handler has branches, only what they have in common is kept. -/
inductive Shift (i : Input) (c₀ : Conn σ) : Conn σ → Conn σ → Prop
  | book {c c' : Conn σ} (h : Book c c') (hflow : i.sends = true ∨ SameFlow c c') : Shift i c₀ c c'
  | arm (c : Conn σ) {o : Output} (ho : o.isTimer = true) (hkept : KeepsTimers o) :
    Shift i c₀ c (c.push o)
  | answer (c : Conn σ) {p : Packet} (hcontrol : p.header.isControl = true)
      (hack : p.header.controlType ≠ .ack) (hnak : p.header.controlType ≠ .nak)
      (hreq : p.header.subType ≠ .kmReq) (hsmall : p.data.length ≤ 28)
      (hdrop : p.header.controlType ≠ .dropReq ∨ i.sends = true) : Shift i c₀ c (c.send p)
  | ack (c : Conn σ) {p : Packet} {rest : Bytes} (hcontrol : p.header.isControl = true)
      (hack : p.header.controlType = .ack)
      (hdata : p.data = putBE 4 c.rcv.recvBuf.ackSequence ++ rest) (hsmall : p.data.length ≤ 28) :
      Shift i c₀ c (c.send p)
  | stamp (c : Conn σ) {now : ℤ} (a : AckSide) (hi : i = .timer now .ack) :
    Shift i c₀ c { c with ack := a }
  | resend (c : Conn σ) {p : Packet} (hcopy : c.snd.sendBuf.CopyOf p) : Shift i c₀ c (c.send p)
  | report {c c' : Conn σ} (h : Reports c c')
      (hsource : (∃ lost, LossSource i c₀ c lost ∧ c' = c.emitNAK i.now lost) ∨
        ReportsGap i c₀ c c') :
      Shift i c₀ c c'
  | notify (c : Conn σ) {e : Event} (he : e.isData = false) (hclosed : c.closed = true) :
      Shift i c₀ c (c.raise e)
  | close (c : Conn σ) : Shift i c₀ c { c with closed := true }
  | arrive (c : Conn σ) (p : Packet) (hd : i.delivers = true) : Shift i c₀ c (c.noteArrival i.now p)
  | store (c : Conn σ) {now : ℤ} {p plain : Packet} (hi : i = .packet now p) (hkey : c.key = c₀.key)
      (hdata : p.header.isControl = false) (hdec : c.decrypt p = some plain)
      (hinserted : (c.rcv.recvBuf.insert plain now).2.inserted = true) :
      Shift i c₀ c (c.setRecvBuf (c.rcv.recvBuf.insert plain now).1)
  | recover (c : Conn σ) (plain : Packet) (hfec : c.rcv.fecReceiver.isSome = true)
    (hd : i.delivers = true) :
      Shift i c₀ c (c.setRecvBuf (c.rcv.recvBuf.insert plain i.now).1)
  | deliver {c c' : Conn σ} (h : Deliver i.now c c') (hd : i.delivers = true) : Shift i c₀ c c'
  | drop (c : Conn σ) {now : ℤ} {p : Packet} {dr : CIFDropReq} (hi : i = .packet now p)
      (htype : p.header.isControl = true ∧ p.header.controlType = .dropReq)
      (hdr : CIFDropReq.unmarshalCIF p.data = .ok dr) :
      Shift i c₀ c ((c.setRecvBuf (c.rcv.recvBuf.drop (Seq.inc dr.lastSeqNo)).buffer).modifyTimer
        fun t => (c.rcv.recvBuf.drop
          (Seq.inc dr.lastSeqNo)).timestamps.foldl Tsbpd.Timer.updateWrap t)
  | anchor (c : Conn σ) {now : ℤ} {p : Packet} {timer : Tsbpd.Timer} (hi : i = .packet now p)
      (hdata : p.header.isControl = false) (htimer : c.rcv.tsbpdTimer = some timer) :
      Shift i c₀ c { c with rcv := { c.rcv with
        tsbpdTimer := some ((if c.rcv.tsbpdBaseSet then timer
          else timer.setTimeBase (now - p.header.timestamp)).updateWrap p.header.timestamp)
        tsbpdBaseSet := true } }
  | echo (c : Conn σ) {now : ℤ} {p : Packet} (a : AckSide) (rttSample : ℤ) (hi : i = .packet now p)
      (htype : p.header.isControl = true ∧ p.header.controlType = .ackack) :
      Shift i c₀ c ({ c with ack := a }.modifyTimer fun t =>
        (t.updateWrap p.header.timestamp).onACK p.header.timestamp now rttSample)
  | keepalive (c : Conn σ) {now : ℤ} {p : Packet} (hi : i = .packet now p)
      (htype : p.header.isControl = true ∧ p.header.controlType = .keepalive) :
      Shift i c₀ c (c.handleKeepalive now p)
  | filter (c : Conn σ) {now : ℤ} {p : Packet} {fec : FECReceiver} (hi : i = .packet now p)
      (hfec : c.rcv.fecReceiver = some fec) (hd : i.delivers = true) :
      Shift i c₀ c (c.setFECReceiver (fec.receive p.header.sequenceNumber p.header.timestamp
        p.header.encryption.code p.header.messageNumber p.data).receiver)
  | sendBuf (c : Conn σ) {sb : SendBuffer} (hsb : c.snd.sendBuf.Within sb) (hs : i.sends = true) :
      Shift i c₀ c (c.setSendBuf sb)
  | enqueue (c : Conn σ) (now : ℤ) (payload : Bytes) (opts : MsgOptions) (hs : i.sends = true) :
      Shift i c₀ c (c.enqueue now payload opts)
  | dequeue (c : Conn σ) (rest : List Frame) (hs : i.sends = true) : Shift i c₀ c (c.dequeue rest)
  | packet (c : Conn σ) (seqNo ts : ℕ) (f : Frame) (hs : i.sends = true) :
      Shift i c₀ c (c.sendData i.now seqNo ts f)
  | retry (c : Conn σ) {now : ℤ} {os : List Output} (n : ℤ) (hi : i = .timer now .kmRefresh)
      (hos : ∀ o ∈ os, c.Retries o) :
      Shift i c₀ c { c with key := { c.key with kmRetryCount := n }, outputs := c.outputs ++ os }
  | request (c : Conn σ) {now : ℤ} {p : Packet} {os : List Output} (hi : i = .packet now p)
      (hkey : c.key = c₀.key)
      (htype : p.header.isControl = true ∧ p.header.controlType = .user ∧ p.header.subType = .kmReq)
      (hos : ∀ o ∈ os, c.Replies o) :
      Shift i c₀ c
        { c with key := c.key.request c.params.passphrase p.data, outputs := c.outputs ++ os }
  | response (c : Conn σ) {now : ℤ} {p : Packet} {closed : Bool} {os : List Output}
    {es : List Event}
      (hi : i = .packet now p)
      (htype : p.header.isControl = true ∧ p.header.controlType = .user ∧ p.header.subType = .kmRsp)
      (hos : ∀ o ∈ os, o = .clearTimer .kmRefresh ∨ o = .clearTimer .handshake)
      (hes : closed = true ∧ (∃ err, es = [.failed err]) ∨
        closed = c.closed ∧ (es = [] ∨ es = [.connected c.params.peerSocketID])) :
      Shift i c₀ c { c with
        key := c.key.response p.data
        closed := closed
        outputs := c.outputs ++ os
        events := c.events ++ es }

theorem Move.shift (h : Move i c₀ c c') : c' = c ∨ Shift i c₀ c c' := by
  cases h with
  | losses h => exact Or.inr (.report (reports_emitNAK c i.now _) (Or.inl ⟨_, h, rfl⟩))
  | gap hi hcontrol hdec hinserted =>
    exact Or.inr (.report (reports_reportLosses c _ _ _) (Or.inr ⟨_, _, _, hi, hcontrol, hdec,
      hinserted, rfl⟩))
  | recover rp hfec hd =>
    unfold insertOne
    split
    · exact Or.inl rfl
    · exact Or.inr (.recover c _ hfec hd)
  | anchor hi hdata =>
    unfold Conn.anchor
    split
    · exact Or.inl rfl
    · rename_i timer htimer
      exact Or.inr (.anchor c hi hdata htimer)
  | echo hi htype =>
    unfold handleACKACK
    simp only
    split_ifs
    · exact Or.inl rfl
    all_goals exact Or.inr (.echo c _ _ hi htype)
  | @retry now hi =>
    obtain ⟨n, os, heq, hos⟩ := c.retryKMREQ_spec now
    rw [heq]
    exact Or.inr (.retry c n hi hos)
  | @request now p hi hkey htype =>
    obtain ⟨os, heq, hos⟩ := c.handleKMRequest_spec now p
    rw [heq]
    exact Or.inr (.request c hi hkey htype hos)
  | @response now p hi hkey htype =>
    obtain ⟨closed, os, es, heq, hos, hes⟩ := c.handleKMResponse_spec p
    rw [heq]
    exact Or.inr (.response c hi htype hos hes)
  | book h hflow => exact Or.inr (.book h hflow)
  | arm ho hkept => exact Or.inr (.arm _ ho hkept)
  | answer hcontrol hack hnak hreq hsmall hdrop =>
    exact Or.inr (.answer _ hcontrol hack hnak hreq hsmall hdrop)
  | ack hcontrol hack hdata hsmall => exact Or.inr (.ack _ hcontrol hack hdata hsmall)
  | stamp a hi => exact Or.inr (.stamp _ a hi)
  | resend hcopy => exact Or.inr (.resend _ hcopy)
  | notify he hclosed => exact Or.inr (.notify _ he hclosed)
  | close => exact Or.inr (.close _)
  | arrive p hd => exact Or.inr (.arrive _ p hd)
  | store hi hkey hdata hdec hinserted => exact Or.inr (.store _ hi hkey hdata hdec hinserted)
  | deliver h hd => exact Or.inr (.deliver h hd)
  | drop hi htype hdr => exact Or.inr (.drop _ hi htype hdr)
  | keepalive hi htype => exact Or.inr (.keepalive _ hi htype)
  | filter hi hfec hd => exact Or.inr (.filter _ hi hfec hd)
  | sendBuf hsb hs => exact Or.inr (.sendBuf _ hsb hs)
  | enqueue now payload opts hs => exact Or.inr (.enqueue _ now payload opts hs)
  | dequeue rest hs => exact Or.inr (.dequeue _ rest hs)
  | packet seqNo ts f hs => exact Or.inr (.packet _ seqNo ts f hs)

theorem Moves.preserves (hmoves : Moves i c₀ c c') (hc : Q c) (hshift : ∀ c c', Shift i c₀ c c' →
    Q c → Q c') :
    Q c' := by
  induction hmoves with
  | refl => exact hc
  | tail _ hmove ih => exact hmove.shift.elim (fun h => h ▸ ih) fun h => hshift _ _ h ih

/-- The invariant rule for steps: what every shift keeps, every step keeps. -/
theorem step_preserves (c : Conn σ) (i : Input) (hc : Q c) (hshift : ∀ c' c'', Shift i c c' c'' →
    Q c' → Q c'') :
    Q (c.step i) :=
  (moves_step c i).preserves hc hshift

theorem closed_step (h : c.closed = true) : (c.step i).closed = true := by
  cases i with
  | write now payload opts => simp [Conn.step, writeMsg, h]
  | writeCoordinated now payload seqNo srcTime => simp [Conn.step, writeCoordinated, h]
  | packet now p => simp [Conn.step, handlePacket, h]
  | timer now id =>
    have hsample : (c.sampleInputBandwidth now).closed = true := by
      unfold sampleInputBandwidth
      simp only
      split_ifs <;> exact h
    simp [Conn.step, handleTimer, hsample]
  | keepAlive now => simp [Conn.step, sendKeepAlive, h]
  | shutdown now => simp [Conn.step, Conn.shutdown, h]

end Conn

end SrtGo.Core
