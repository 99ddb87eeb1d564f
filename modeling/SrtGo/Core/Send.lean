import SrtGo.Core.KeyRotation

/-!
# The send path

A message is cut into frames, which wait in a queue.  `pump` turns frames into packets
as long as the window has room and the pacing allows it.  A packet is encrypted before
it is buffered, so that a retransmission carries the same bytes.
-/

namespace SrtGo.Core

open Buffer Congestion Crypto SrtGo.Filter

structure MsgOptions where
  srcTime : ℕ := 0
  inOrder : Bool := false
  ttl : ℤ := 0
  msgNo : ℕ := 0
  forceMsgNo : Bool := false
deriving DecidableEq, Repr

/-- The next message number: 26 bits, without zero. -/
def nextMsgNo (n : ℕ) : ℕ :=
  let n := (n + 1) &&& 0x03FFFFFF
  if n = 0 then 1 else n

def fragmentPosition (isFirst isLast : Bool) : PacketPosition :=
  match isFirst, isLast with
  | true, true => .single
  | true, false => .first
  | false, true => .last
  | false, false => .middle

/-- Cut a payload into pieces of at most `size` bytes.  The fuel bounds the number of
pieces. -/
def fragments (size : ℕ) : ℕ → Bytes → List Bytes
  | 0, _ => []
  | fuel + 1, payload =>
    if payload = [] then []
    else payload.take size :: fragments size fuel (payload.drop size)

namespace Conn

variable {σ : Type}

/-! ## Giving up on packets -/

def emitDropReq (c : Conn σ) (now : ℤ) (firstSeq lastSeq : ℕ) : Conn σ :=
  let p := c.control now .dropReq
  c.send { p with data := CIFDropReq.marshalCIF ⟨firstSeq, lastSeq⟩ }

def checkSendDrop (c : Conn σ) (now : ℤ) : Conn σ :=
  if c.params.sendDropThresh ≤ 0 ∧ !c.snd.msgTTLActive then c
  else
    let r := c.snd.sendBuf.dropTooLateSend now c.params.sendDropThresh
    if r.dropped = 0 then c
    else (c.setSendBuf r.buffer).emitDropReq now r.first r.last

/-! ## Sending one packet -/

/-- A repair packet is a data packet with message number zero. -/
def repairPacket (c : Conn σ) (fp : PendingFEC) : Packet :=
  let p := Packet.newData fp.seqNo fp.timestamp c.params.peerSocketID fp.data
  { p with header := { p.header with messageNumber := 0 } }

def setFECSender (c : Conn σ) (fec : FECSender) : Conn σ :=
  { c with snd := { c.snd with fecSender := some fec } }

/-- Fold a sent packet into the parity of its groups, and emit the repair packets of the
groups that it completes. -/
def feedFEC (c : Conn σ) (p : Packet) : Conn σ :=
  match c.snd.fecSender with
  | none => c
  | some fec =>
    let fec := fec.feedSource p.header.sequenceNumber p.header.timestamp
      p.header.encryption.code p.data
    (fec.pendingFEC.map c.repairPacket).foldl send (c.setFECSender { fec with pendingFEC := [] })

def framePacket (c : Conn σ) (seqNo ts : ℕ) (f : Frame) : Packet :=
  let p := Packet.newData seqNo ts c.params.peerSocketID f.payload
  { p with header := { p.header with
      messageNumber := f.msgNo
      packetPosition := f.pos
      order := f.order } }

/-- Encrypt a packet with the active key.  An error of the cipher leaves the payload as
it is. -/
def encrypt [Primitives] (c : Conn σ) (p : Packet) (seqNo : ℕ) : Packet :=
  match c.key.cryptoCtx with
  | none => p
  | some ctx =>
    let p := { p with header := { p.header with encryption := c.key.activeKey } }
    let aad := if ctx.mode = .gcm then p.header.marshal else []
    match ctx.encryptPayload p.data aad c.key.activeKey seqNo with
    | .ok enc => { p with data := enc }
    | .error _ => p

variable [Controller σ]

def transmit (c : Conn σ) (now : ℤ) (sb : SendBuffer) (plain wire : Packet) : Conn σ :=
  { c with
    snd := { c.snd with
      sendBuf := sb
      lastSentDataTime := now
      sendCC := Controller.onPacketSent c.snd.sendCC wire.header.sequenceNumber plain.data.length }
    history := c.history ++ [Transmission.mk c.key.cryptoCtx plain wire] }.push
    (.sendPacket wire false)

def afterSend [Primitives] (c : Conn σ) (now : ℤ) : Conn σ :=
  if c.key.cryptoCtx.isSome ∧ 0 < c.params.kmRefreshRate then c.checkKeyRotation now else c

def tagTTL (sb : SendBuffer) (ttlNs : ℤ) : SendBuffer :=
  if 0 < ttlNs then sb.setMsgTTL ttlNs else sb

/-- Build, encrypt, buffer and emit one data packet.  A packet that the buffer has no
room for is dropped. -/
def sendData [Primitives] (c : Conn σ) (now : ℤ) (seqNo ts : ℕ) (f : Frame) : Conn σ :=
  let plain := c.framePacket seqNo ts f
  let wire := c.encrypt plain seqNo
  match c.snd.sendBuf.push wire now with
  | none => c
  | some sb => ((c.transmit now (tagTTL sb f.ttlNs) plain wire).feedFEC wire).afterSend now

def sendOne [Primitives] (c : Conn σ) (now : ℤ) (f : Frame) : Conn σ :=
  let ts := if f.srcTime = 0 then c.wireTS now else f.srcTime
  c.sendData now c.snd.sendBuf.nextSeq ts f

/-- The pause after a send; the first packet of a probe pair has none. -/
def sendInterval (c : Conn σ) : ℤ :=
  if Controller.isProbePacket c.snd.sendCC then 0 else Controller.packetInterval c.snd.sendCC

/-- Move the pacing deadline past a send; stale credit is dropped. -/
def pace (c : Conn σ) (now interval : ℤ) : Conn σ :=
  let next :=
    if c.snd.nextSendTime = 0 ∨ maxPacingBurst < now - c.snd.nextSendTime then now + interval
    else c.snd.nextSendTime + interval
  { c with snd := { c.snd with nextSendTime := next } }

def dequeue (c : Conn σ) (rest : List Frame) : Conn σ :=
  { c with snd := { c.snd with sendQueue := rest } }

def sendPaced [Primitives] (c : Conn σ) (now : ℤ) (f : Frame) : Conn σ :=
  let c := c.sendOne now f
  c.pace now c.sendInterval

/-! ## The pump -/

def window (c : Conn σ) : ℤ :=
  let w := if 0 < c.snd.rcvFlowWin ∧ c.snd.rcvFlowWin < c.params.flowWindow then c.snd.rcvFlowWin
    else c.params.flowWindow
  min w (Controller.congestionWindow c.snd.sendCC)

def pumpLoop [Primitives] (now : ℤ) : ℕ → Conn σ → Conn σ
  | 0, c => c
  | fuel + 1, c =>
    match c.snd.sendQueue with
    | [] => c
    | f :: rest =>
      if c.window ≤ c.snd.sendBuf.size then c
      else if c.snd.nextSendTime ≠ 0 ∧ now < c.snd.nextSendTime then
        c.push (.setTimer .sndPacing c.snd.nextSendTime)
      else pumpLoop now fuel ((c.dequeue rest).sendPaced now f)

/-- Send queued frames while the window has room and the pacing permits. -/
def pump [Primitives] (c : Conn σ) (now : ℤ) : Conn σ :=
  let c := c.checkSendDrop now
  pumpLoop now c.snd.sendQueue.length c

/-! ## Writing -/

def messageFrames (c : Conn σ) (now : ℤ) (payload : Bytes) (opts : MsgOptions) (msgNo : ℕ) :
    List Frame :=
  let ttlNs := if 0 < opts.ttl then opts.ttl * 1000 else 0
  let ps := c.params.payloadSize
  if ps = 0 ∨ payload.length ≤ ps ∨ c.rcv.tsbpdTimer.isSome then
    [{ payload := payload, msgNo := msgNo, pos := .single, order := opts.inOrder,
       srcTime := opts.srcTime, ttlNs := ttlNs }]
  else
    -- the fragments of one message carry one timestamp
    let srcTime := if opts.srcTime = 0 then c.wireTS now else opts.srcTime
    let pieces := fragments ps payload.length payload
    pieces.mapIdx fun i piece =>
      { payload := piece, msgNo := msgNo,
        pos := fragmentPosition (i = 0) (i + 1 = pieces.length), order := opts.inOrder,
        srcTime := srcTime, ttlNs := ttlNs }

def enqueue (c : Conn σ) (now : ℤ) (payload : Bytes) (opts : MsgOptions) : Conn σ :=
  let msgNo := if opts.forceMsgNo then opts.msgNo &&& 0x03FFFFFF else nextMsgNo c.snd.msgNumber
  { c with snd := { c.snd with
      bandwidth := { c.snd.bandwidth with
        inputSampleBytes := c.snd.bandwidth.inputSampleBytes + payload.length }
      msgNumber := msgNo
      msgTTLActive := c.snd.msgTTLActive || decide (0 < opts.ttl)
      sendQueue := c.snd.sendQueue ++ c.messageFrames now payload opts msgNo } }

/-- What the application's connection checks before it hands a message on: a live message fits into
one packet. -/
def checkPayloadSize (fileCongestion : Bool) (payloadSize : ℕ) (b : Bytes) : Option String :=
  if !fileCongestion && decide (payloadSize < b.length) then
    some ("srt: payload size " ++ toString b.length ++ " exceeds maximum " ++
      toString payloadSize ++ " for live mode")
  else none

def writeMsg [Primitives] (c : Conn σ) (now : ℤ) (payload : Bytes) (opts : MsgOptions) : Conn σ :=
  if c.closed then c else (c.enqueue now payload opts).pump now

/-- Send one packet under a sequence number and timestamp that a group of connections
has agreed on. -/
def writeCoordinated [Primitives] (c : Conn σ) (now : ℤ) (payload : Bytes)
    (seqNo srcTime : ℕ) : Conn σ :=
  if c.closed then c
  else
    let sb := if c.snd.sendBuf.nextSeq ≠ seqNo then c.snd.sendBuf.overrideNextSeq seqNo
      else c.snd.sendBuf
    let msgNo := nextMsgNo c.snd.msgNumber
    { c with snd := { c.snd with sendBuf := sb, msgNumber := msgNo } }.sendData now seqNo srcTime
      { payload := payload, msgNo := msgNo, pos := .single, order := true }

def shutdown (c : Conn σ) (now : ℤ) : Conn σ :=
  if c.closed then c
  else
    let p := c.control now .shutdown
    { c with closed := true }.send { p with data := [0, 0, 0, 0] }

end Conn

end SrtGo.Core
