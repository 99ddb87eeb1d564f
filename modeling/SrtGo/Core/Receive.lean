import SrtGo.Core.Send

/-!
# The receive path

A data packet is decrypted, stored in the receive buffer and handed to the filter; then
whatever can be delivered is delivered.  Delivery has three modes: a byte stream in
order, whole messages, or timed playout.  Acknowledgements and loss reports flow the
other way.
-/

namespace SrtGo.Core

open Buffer Bytes Congestion Crypto SrtGo.Filter SrtGo.Seq

def Event.delivery (p : Packet) : Event :=
  .dataReceived p.data p.header.sequenceNumber p.header.messageNumber p.header.packetPosition

namespace Conn

variable {σ : Type}

def setRecvBuf (c : Conn σ) (rb : RecvBuffer) : Conn σ :=
  { c with rcv := { c.rcv with recvBuf := rb } }

def modifyTimer (c : Conn σ) (f : Tsbpd.Timer → Tsbpd.Timer) : Conn σ :=
  { c with rcv := { c.rcv with tsbpdTimer := c.rcv.tsbpdTimer.map f } }

/-! ## Decryption -/

/-- Reverse the encryption of a packet; `none` drops it.  A packet without encryption
is not accepted on a secured connection, and none is while the keys are on their way. -/
def decrypt [Primitives] (c : Conn σ) (p : Packet) : Option Packet :=
  match c.key.cryptoCtx with
  | none => some p
  | some ctx =>
    if c.key.rcvKmState = .securing then none
    else if p.header.encryption = .none then none
    else
      -- the additional data is the header of the first transmission
      let aad := if ctx.mode = .gcm then { p.header with retransmitted := false }.marshal else []
      match ctx.decryptPayload p.data aad p.header.encryption p.header.sequenceNumber with
      | .error _ => none
      | .ok dec => some { p with data := dec }

/-! ## Delivery -/

def emitData (c : Conn σ) (p : Packet) : Conn σ :=
  c.raise (.delivery p)

def emitMessage (c : Conn σ) (pkts : List Packet) : Conn σ :=
  let first := (pkts.headD {}).header
  c.raise (.dataReceived (pkts.flatMap (·.data)) first.sequenceNumber first.messageNumber
    first.packetPosition)

def deliverLoop : ℕ → Conn σ → Conn σ
  | 0, c => c
  | fuel + 1, c =>
    match c.rcv.recvBuf.readNext with
    | (_, none) => c
    | (rb, some p) => deliverLoop fuel ((c.setRecvBuf rb).emitData p)

/-- The number of slots between the head of the receive buffer and its end: no delivery
loop runs more often. -/
def recvSpan (c : Conn σ) : ℕ := ahead c.rcv.recvBuf.startSeq c.rcv.recvBuf.maxSeq

def deliver (c : Conn σ) : Conn σ := deliverLoop c.recvSpan c

def deliverMessagesLoop : ℕ → Conn σ → Conn σ
  | 0, c => c
  | fuel + 1, c =>
    match c.rcv.recvBuf.readMessage with
    | (rb, none) => c.setRecvBuf rb
    | (rb, some pkts) => deliverMessagesLoop fuel ((c.setRecvBuf rb).emitMessage pkts)

def deliverMessages (c : Conn σ) : Conn σ := deliverMessagesLoop (c.recvSpan + 1) c

/-- The loop of `deliverTSBPD`.  The timer follows each packet that is read. -/
def playLoop (now : ℤ) : ℕ → Conn σ → Conn σ
  | 0, c => c
  | fuel + 1, c =>
    match c.rcv.tsbpdTimer with
    | none => c
    | some timer =>
      match c.rcv.recvBuf.readTSBPD now timer.deliveryTime with
      | (_, none) => c
      | (rb, some p) =>
        playLoop now fuel
          (((c.setRecvBuf rb).modifyTimer (·.updateWrap p.header.timestamp)).emitData p)

def skipTooLate (c : Conn σ) (now : ℤ) (timer : Tsbpd.Timer) : Conn σ :=
  c.setRecvBuf (c.rcv.recvBuf.dropTooLate now timer.deliveryTime).1

def armPlayout (c : Conn σ) : Conn σ :=
  match c.rcv.tsbpdTimer, c.rcv.recvBuf.peekNextAvailableTimestamp with
  | some timer, some ts => c.push (.setTimer .tsbpd (timer.deliveryTime ts))
  | _, _ => c

def deliverTSBPD (c : Conn σ) (now : ℤ) : Conn σ :=
  match c.rcv.tsbpdTimer with
  | none => c
  | some timer =>
    let c := c.skipTooLate now timer
    (playLoop now c.recvSpan c).armPlayout

def deliverNow (c : Conn σ) (now : ℤ) : Conn σ :=
  if c.rcv.tsbpdTimer.isSome then c.deliverTSBPD now
  else if c.params.messageMode then c.deliverMessages
  else c.deliver

/-! ## Loss reports -/

def emitNAK (c : Conn σ) (now : ℤ) (losses : List ℕ) : Conn σ :=
  if losses = [] then c
  else
    let p := c.control now .nak
    c.send { p with data := marshalLossList losses }

def immediateLosses (stop : ℕ) : ℕ → ℕ → List ℕ
  | 0, _ => []
  | fuel + 1, s => s :: if s = stop then [] else immediateLosses stop fuel (inc s)

def sendImmediateNAK (c : Conn σ) (now : ℤ) (gapStart gapEnd : ℕ) : Conn σ :=
  c.emitNAK now (immediateLosses gapEnd 10000 gapStart)

def setDeferredLoss (c : Conn σ) (losses : List ℕ) : Conn σ :=
  { c with rcv := { c.rcv with deferredLoss := losses } }

def deferGap (c : Conn σ) (start stop : ℕ) : Conn σ :=
  let gap := immediateLosses stop (ahead start stop + 1) start
  c.setDeferredLoss (c.rcv.deferredLoss ++ gap.filter (· ∉ c.rcv.deferredLoss))

/-- Report a new gap, except for what may still be reordered. -/
def reportGap (c : Conn σ) (now : ℤ) (gapStart gapEnd : ℕ) : Conn σ :=
  if c.params.reorderTolerance = 0 then c.sendImmediateNAK now gapStart gapEnd
  else if distance gapStart gapEnd + 1 ≤ c.params.reorderTolerance then c.deferGap gapStart gapEnd
  else
    let deferStart := dec^[(c.params.reorderTolerance - 1).toNat] gapEnd
    (c.sendImmediateNAK now gapStart (dec deferStart)).deferGap deferStart gapEnd

/-- Report the deferred losses that reordering no longer explains. -/
def flushDeferredLoss (c : Conn σ) (now : ℤ) (frontier : ℕ) : Conn σ :=
  let due := fun s => decide (c.params.reorderTolerance < distance s frontier)
  let kept := c.rcv.deferredLoss.filter fun s => !due s
  ((c.rcv.deferredLoss.filter due).foldl
    (fun c s => c.sendImmediateNAK now s s) c).setDeferredLoss kept

def sendPeriodicNAK (c : Conn σ) (now : ℤ) : Conn σ :=
  c.emitNAK now c.rcv.recvBuf.generateLossList

variable [Controller σ]

def handleNAK (c : Conn σ) (now : ℤ) (p : Packet) : Conn σ :=
  match unmarshalLossList p.data with
  | .error _ => c
  | .ok lossList =>
    let c := c.setSendCC (Controller.onNAK c.snd.sendCC lossList)
    if 0 < c.ack.rtt then
      let r := c.snd.sendBuf.nakTimed lossList now c.ack.rtt c.ack.rttVar
      r.2.foldl send (c.setSendBuf r.1)
    else (c.snd.sendBuf.nak lossList).foldl send c

/-! ## Acknowledgements -/

/-- The next number of an acknowledgement; zero is skipped. -/
def nextAckNo (n : ℕ) : ℕ := if (n + 1) % 2 ^ 32 = 0 then 1 else (n + 1) % 2 ^ 32

def word32 (x : ℤ) : ℕ := (x % 2 ^ 32).toNat

/-- The body of a full acknowledgement; the rates are only in one that is due. -/
def fullACK (c : Conn σ) (ackSeq : ℕ) (needFull : Bool) : CIFACK :=
  let ack : CIFACK :=
    { lastACKPacketSequenceNumber := ackSeq
      rtt := word32 c.ack.rtt
      rttVariance := word32 c.ack.rttVar
      availableBufferSize := word32 (c.rcv.recvBuf.availableSize ackSeq) }
  if needFull then
    { ack with
      packetsReceivingRate := (Controller.deliveryRate c.snd.sendCC).1
      estimatedLinkCapacity := Controller.estimatedBandwidth c.snd.sendCC
      receivingRate := (Controller.deliveryRate c.snd.sendCC).2 }
  else ack

theorem fullACK_lastACKPacketSequenceNumber (c : Conn σ) (ackSeq : ℕ) (needFull : Bool) :
    (c.fullACK ackSeq needFull).lastACKPacketSequenceNumber = ackSeq := by
  unfold fullACK
  simp only
  split_ifs <;> rfl

def sendFullACK (c : Conn σ) (now : ℤ) : Conn σ :=
  let ackSeq := c.rcv.recvBuf.ackSequence
  let needFull := decide (synInterval ≤ now - c.ack.lastFullACKTime)
  if ackSeq = c.ack.rcvLastAckAck ∧ !needFull then c
  else
    let ackNo := nextAckNo c.ack.ackSeqNo
    let p := c.control now .ack
    let p := { p with
      header := { p.header with typeSpecific := ackNo }
      data := (c.fullACK ackSeq needFull).marshalCIF }
    { c with ack := { c.ack with
        ackSeqNo := ackNo
        ackSlots := Function.update c.ack.ackSlots (ackNo % ackTimeSlots)
          { ackNo := ackNo, sendTime := now, dataSeq := ackSeq, valid := true }
        lastFullACKTime := now
        rcvPktCount := 0
        lightACKCount := 1 } }.send p

/-- A lite acknowledgement: its four bytes are the sequence number up to which everything has
arrived. -/
def liteACK (destSocketID timestamp ackSeq : ℕ) : Packet :=
  { Packet.newControl .ack destSocketID timestamp with data := putBE 4 ackSeq }

def sendLiteACK (c : Conn σ) (now : ℤ) : Conn σ :=
  c.send (liteACK c.params.peerSocketID (c.wireTS now) c.rcv.recvBuf.ackSequence)

def countReceived (c : Conn σ) : Conn σ :=
  { c with ack := { c.ack with rcvPktCount := c.ack.rcvPktCount + 1 } }

def checkLiteACK (c : Conn σ) (now : ℤ) : Conn σ :=
  if 0 < c.ack.lightACKCount ∧ liteACKPeriod * c.ack.lightACKCount ≤ c.ack.rcvPktCount then
    let c := c.sendLiteACK now
    { c with ack := { c.ack with lightACKCount := c.ack.lightACKCount + 1 } }
  else c

/-- Echo a full acknowledgement, at most once every ten milliseconds. -/
def sendACKACK (c : Conn σ) (now : ℤ) (ackSubNo : ℕ) : Conn σ :=
  if synInterval ≤ now - c.ack.lastACKACKTime ∨ ackSubNo = c.ack.lastACKACKSeq then
    let aa := c.control now .ackack
    { c with ack := { c.ack with lastACKACKTime := now, lastACKACKSeq := ackSubNo } }.send
      { aa with header := { aa.header with typeSpecific := ackSubNo }, data := [0, 0, 0, 0] }
  else c

/-- Release the acknowledged packets.  Only progress restarts the retransmission
timeout. -/
def acknowledge (c : Conn σ) (now : ℤ) (ackSeq : ℕ) : Conn σ × ℕ :=
  let r := c.snd.sendBuf.ack ackSeq
  ({ c with snd := { c.snd with
      sendBuf := r.1
      lastACKTime := if 0 < r.2 then now else c.snd.lastACKTime
      rexmitCount := if 0 < r.2 then 1 else c.snd.rexmitCount } }, r.2)

def adoptACK (c : Conn σ) (now : ℤ) (ack : CIFACK) : Conn σ :=
  let c := if 0 < ack.rtt then
      { c with ack := { c.ack with rtt := ack.rtt, rttVar := ack.rttVariance } }
    else c
  { c with snd := { c.snd with
      rcvFlowWin := ack.availableBufferSize
      sendCC := Controller.onACK c.snd.sendCC now ack.lastACKPacketSequenceNumber c.ack.rtt
        ack.estimatedLinkCapacity ack.packetsReceivingRate } }

def handleACK [Primitives] (c : Conn σ) (now : ℤ) (p : Packet) : Conn σ :=
  match CIFACK.unmarshalCIF p.data with
  | .error _ => c
  | .ok ack =>
    let (c, ackd) := c.acknowledge now ack.lastACKPacketSequenceNumber
    if p.data.length = 4 then
      let rcvFlowWin := if 0 < ackd ∧ 0 < c.snd.rcvFlowWin then c.snd.rcvFlowWin - ackd
        else c.snd.rcvFlowWin
      { c with snd := { c.snd with rcvFlowWin := rcvFlowWin } }.pump now
    else ((c.sendACKACK now p.header.typeSpecific).adoptACK now ack).pump now

def updateRTT (a : AckSide) (rtt : ℤ) : AckSide :=
  if a.rtt = 0 then { a with rtt := rtt, rttVar := rtt.tdiv 2 }
  else
    let smoothed := (a.rtt * 7 + rtt).tdiv 8
    { a with rtt := smoothed, rttVar := (a.rttVar * 3 + |rtt - smoothed|).tdiv 4 }

def saneRTT (rtt : ℤ) : Bool := decide (0 < rtt ∧ rtt < rttSanityCap)

/-- Match the echo of an acknowledgement: it measures the round trip and, in live mode,
the drift of the clocks. -/
def handleACKACK (c : Conn σ) (now : ℤ) (p : Packet) : Conn σ :=
  let ackNo := p.header.typeSpecific
  let slot := ackNo % ackTimeSlots
  let e := c.ack.ackSlots slot
  if !e.valid ∨ e.ackNo ≠ ackNo then c
  else
    let rtt := now - e.sendTime
    let a :=
      { c.ack with ackSlots := Function.update c.ack.ackSlots slot { e with valid := false } }
    let a := if saneRTT rtt then updateRTT a rtt else a
    let a := if greaterThan e.dataSeq a.rcvLastAckAck then
      { a with rcvLastAckAck := e.dataSeq } else a
    let rttSample := if saneRTT rtt then rtt else -1
    { c with ack := a }.modifyTimer fun t =>
      (t.updateWrap p.header.timestamp).onACK p.header.timestamp now rttSample

/-! ## Data packets -/

variable [Primitives]

/-- The encryption flag of a solved packet.  A corrupted flag names no slot. -/
def recoveredEncryption (flag : ℕ) : PacketEncryption :=
  if flag < 4 then PacketEncryption.ofCode flag else .both

def recoveredPacket (c : Conn σ) (rp : RecoveredPacket) : Packet :=
  let p := Packet.newData rp.seqNo rp.timestamp c.params.peerSocketID rp.payload
  { p with header := { p.header with
      encryption := recoveredEncryption rp.encFlag
      retransmitted := true } }

def insertOne (c : Conn σ) (now : ℤ) (rp : RecoveredPacket) : Conn σ :=
  match c.decrypt (c.recoveredPacket rp) with
  | none => c
  | some p => c.setRecvBuf (c.rcv.recvBuf.insert p now).1

def insertRecovered (c : Conn σ) (now : ℤ) (rec : List RecoveredPacket) : Conn σ :=
  rec.foldl (fun c rp => c.insertOne now rp) c

def setFECReceiver (c : Conn σ) (fec : FECReceiver) : Conn σ :=
  { c with rcv := { c.rcv with fecReceiver := some fec } }

/-- Hand a repair packet to the filter.  On request, it asks for what it cannot solve. -/
def handleRepair (c : Conn σ) (now : ℤ) (p : Packet) (fec : FECReceiver) : Conn σ :=
  let h := p.header
  let r := fec.receive h.sequenceNumber h.timestamp h.encryption.code h.messageNumber p.data
  let c := (c.setFECReceiver r.receiver).insertRecovered now r.recovered
  (c.emitNAK now r.lossReport).deliverNow now

/-- Anchor the playout timer at the first packet, and let it follow the timestamp. -/
def anchor (c : Conn σ) (now : ℤ) (timestamp : ℕ) : Conn σ :=
  match c.rcv.tsbpdTimer with
  | none => c
  | some timer =>
    let timer := if c.rcv.tsbpdBaseSet then timer else timer.setTimeBase (now - timestamp)
    { c with rcv := { c.rcv with
        tsbpdTimer := some (timer.updateWrap timestamp)
        tsbpdBaseSet := true } }

/-- Hand a data packet to the filter, as it was on the wire.  What the filter asks for
is not looked at here. -/
def feedReceiver (c : Conn σ) (now : ℤ) (p : Packet) : Conn σ :=
  match c.rcv.fecReceiver with
  | none => c
  | some fec =>
    let h := p.header
    let r := fec.receive h.sequenceNumber h.timestamp h.encryption.code h.messageNumber p.data
    (c.setFECReceiver r.receiver).insertRecovered now r.recovered

def noteArrival (c : Conn σ) (now : ℤ) (p : Packet) : Conn σ :=
  let h := p.header
  let cc := Controller.onPktArrival c.snd.sendCC p.data.length now
  let cc := if h.retransmitted then cc
    else Controller.onPacketReceived cc h.sequenceNumber p.data.length now
  { c with
    snd := { c.snd with sendCC := cc }
    rcv := { c.rcv with
      groupIdle := false
      deferredLoss := c.rcv.deferredLoss.erase h.sequenceNumber } }.countReceived

/-- Losses are reported at once, unless a filter is expected to repair them. -/
def reportsLosses (c : Conn σ) : Bool :=
  c.rcv.fecReceiver.isNone || decide (c.params.fecARQLevel = .always)

def reportLosses (c : Conn σ) (now : ℤ) (res : InsertResult) (seqNo : ℕ) : Conn σ :=
  let c := if res.hasGap ∧ c.reportsLosses then c.reportGap now res.gapStart res.gapEnd else c
  if c.rcv.deferredLoss ≠ [] then c.flushDeferredLoss now seqNo else c

/-- What follows the insertion of a packet; `wire` is the packet before decryption. -/
def afterInsert (c : Conn σ) (now : ℤ) (wire p : Packet) (res : InsertResult) : Conn σ :=
  let c := (c.noteArrival now p).anchor now p.header.timestamp
  let c := (c.feedReceiver now wire).reportLosses now res p.header.sequenceNumber
  (c.checkLiteACK now).deliverNow now

def receiveData (c : Conn σ) (now : ℤ) (p : Packet) : Conn σ :=
  match c.decrypt p with
  | none => c
  | some plain =>
    let (rb, res) := c.rcv.recvBuf.insert plain now
    if !res.inserted then c else (c.setRecvBuf rb).afterInsert now p plain res

/-- Handle a data packet; with a filter, message number zero marks a repair packet. -/
def handleData (c : Conn σ) (now : ℤ) (p : Packet) : Conn σ :=
  match c.rcv.fecReceiver with
  | none => c.receiveData now p
  | some fec => if p.header.messageNumber = 0 then c.handleRepair now p fec else c.receiveData now p

def handleDropReq (c : Conn σ) (now : ℤ) (p : Packet) : Conn σ :=
  match CIFDropReq.unmarshalCIF p.data with
  | .error _ => c
  | .ok dr =>
    let r := c.rcv.recvBuf.drop (inc dr.lastSeqNo)
    ((c.setRecvBuf r.buffer).modifyTimer fun t => r.timestamps.foldl Tsbpd.Timer.updateWrap
      t).deliverNow now

end Conn

end SrtGo.Core
