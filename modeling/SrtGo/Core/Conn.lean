import SrtGo.Buffer.Send
import SrtGo.Congestion
import SrtGo.Crypto.Context
import SrtGo.Filter.Receiver
import SrtGo.Tsbpd

/-!
# The connection

A connection is a state machine without clock or sockets of its own: each call brings
the time with it, and what the host has to do (send a packet, arm a timer) is queued as
an output, what the application should hear of as an event.  Neither queue is ever read
by the machine, so the model keeps them as the complete record of what came out.

The fields are grouped as the source groups them: the send side, the receive side, the
keys, and the state of the acknowledgements.  Statistics are left out; nothing reads
them.  `history` is not in the source.  It records what each first transmission was
made from, and no function of the model reads it.
-/

namespace SrtGo.Core

open Buffer Congestion Crypto SrtGo.Filter

inductive TimerID where
  | handshake
  | ack
  | nak
  | exp
  | tsbpd
  | sndPacing
  | linger
  | keepalive
  | peerIdle
  | kmRefresh
deriving DecidableEq, Repr

/-- What the host has to do.  A packet that is not owned by the host stays in the send
buffer: it is the first transmission of a data packet. -/
inductive Output where
  | sendPacket (packet : Packet) (owned : Bool)
  | setTimer (id : TimerID) (deadline : ℤ)
  | clearTimer (id : TimerID)
deriving DecidableEq, Repr

inductive Event where
  | connected (peerSocketID : ℕ)
  | dataReceived (data : Bytes) (seq msgNo : ℕ) (boundary : PacketPosition)
  | failed (err : String)
  | closed
deriving DecidableEq, Repr

inductive KMState where
  | unsecured
  | securing
  | secured
  | noSecret
  | badSecret
deriving DecidableEq, Repr

/-- One packet's worth of payload that waits to be sent.  A source time of zero stands
for the time of sending. -/
structure Frame where
  payload : Bytes
  msgNo : ℕ
  pos : PacketPosition
  order : Bool
  srcTime : ℕ := 0
  ttlNs : ℤ := 0
deriving DecidableEq, Repr

structure AckSlot where
  ackNo : ℕ := 0
  sendTime : ℤ := 0
  dataSeq : ℕ := 0
  valid : Bool := false
deriving DecidableEq, Repr, Inhabited

/-- A first transmission: the context that encrypted it, the packet before encryption
and the packet on the wire. -/
structure Transmission where
  context : Option Context
  plain : Packet
  wire : Packet

structure Params where
  peerSocketID : ℕ
  payloadSize : ℕ
  sndTSBase : ℕ
  flowWindow : ℤ
  sendDropThresh : ℤ
  messageMode : Bool
  periodicNAK : Bool
  reorderTolerance : ℤ
  peerIdleTimeout : ℤ
  passphrase : String
  kmRefreshRate : ℕ
  kmPreAnnounce : ℕ
  fecARQLevel : ARQLevel

structure Bandwidth where
  configuredMaxBW : ℤ
  inputBW : ℤ
  minInputBW : ℤ
  sampledInputBW : ℤ := 0
  inputSampleBytes : ℤ := 0
  inputSampleStart : ℤ

/-- The send side.  A receiver window of zero is not known. -/
structure SendSide (σ : Type) where
  sendBuf : SendBuffer
  sendCC : σ
  bandwidth : Bandwidth
  sendQueue : List Frame := []
  msgNumber : ℕ := 0
  nextSendTime : ℤ := 0
  rcvFlowWin : ℤ := 0
  msgTTLActive : Bool := false
  fecSender : Option FECSender
  lastSentDataTime : ℤ
  lastACKTime : ℤ
  rexmitCount : ℤ := 1

structure RecvSide where
  recvBuf : RecvBuffer
  tsbpdTimer : Option Tsbpd.Timer
  tsbpdBaseSet : Bool := false
  groupIdle : Bool := false
  deferredLoss : List ℕ := []
  fecReceiver : Option FECReceiver
  lastRecvTime : ℤ

structure KeySide where
  cryptoCtx : Option Context
  activeKey : PacketEncryption
  kmPacketCount : ℕ := 0
  kmAnnounced : Bool := false
  kmConfirmed : Bool := false
  kmDecommission : Bool := false
  kmSwitchCount : ℕ := 0
  kmRetryKey : PacketEncryption := .none
  kmRetryCount : ℤ := 0
  sndKmState : KMState
  rcvKmState : KMState
  hsv4DeferConnect : Bool := false

/-- The number of acknowledgements whose echo can still be matched. -/
def ackTimeSlots : ℕ := 64

structure AckSide where
  ackSeqNo : ℕ := 0
  rcvLastAckAck : ℕ
  lastFullACKTime : ℤ := 0
  rcvPktCount : ℤ := 0
  lightACKCount : ℤ := 1
  ackSlots : ℕ → AckSlot := fun _ => {}
  lastACKACKTime : ℤ := 0
  lastACKACKSeq : ℕ := 0
  rtt : ℤ
  rttVar : ℤ

structure Conn (σ : Type) where
  params : Params
  snd : SendSide σ
  rcv : RecvSide
  key : KeySide
  ack : AckSide
  closed : Bool := false
  outputs : List Output := []
  events : List Event := []
  history : List Transmission := []

def synInterval : ℤ := 10 * 1000
def liteACKPeriod : ℤ := 64
def initialRTT : ℤ := 100 * 1000
def defaultMinNAKInterval : ℤ := 300 * 1000
def rttSanityCap : ℤ := 10 * 1000000
def maxPacingBurst : ℤ := 10 * 1000
def liveDefaultPayloadSize : ℤ := 1316
def maxPayloadSize : ℤ := 1456
def defaultTsbpdDelay : ℤ := 120 * 1000
def keepaliveInterval : ℤ := 1000000

def srtTimestamp (t : ℤ) : ℕ := (t % 2 ^ 32).toNat

/-- What the handshake, or the host, hands over to bring a connection up. -/
structure EstablishParams where
  peerSocketID : ℕ := 0
  payloadSize : ℤ := 0
  sendISN : ℕ := 0
  recvISN : ℕ := 0
  peerVersion : ℕ := 0
  flowWindow : ℤ := 0
  bufferCapacity : ℤ := 0
  sendBufCapacity : ℤ := 0
  recvBufCapacity : ℤ := 0
  maxBW : ℤ := 0
  inputBW : ℤ := 0
  minInputBW : ℤ := 0
  overheadBW : ℤ := 0
  live : Bool := false
  tsbpdDelay : ℤ := 0
  peerTsbpdDelay : ℤ := 0
  congestion : String := ""
  message : Bool := false
  tlPktDrop : Bool := false
  sndDropDelay : ℤ := 0
  lossMaxTTL : ℤ := 0
  disableNAKReport : Bool := false
  peerIdleTimeout : ℤ := 0
  cryptoCtx : Option Context := none
  activeKey : PacketEncryption := .none
  passphrase : String := ""
  kmRefreshRate : ℕ := 0
  kmPreAnnounce : ℕ := 0
  filterConfig : String := ""
  hsv4AwaitKey : Bool := false

namespace EstablishParams

def orDefault (value default : ℤ) : ℤ := if value ≤ 0 then default else value

/-- The payload size: live mode fits seven transport-stream packets. -/
def effectivePayloadSize (ep : EstablishParams) : ℤ :=
  orDefault ep.payloadSize (if ep.congestion = "file" then maxPayloadSize else
    liveDefaultPayloadSize)

def effectiveBufferCapacity (ep : EstablishParams) : ℤ := orDefault ep.bufferCapacity 8192

def effectiveFlowWindow (ep : EstablishParams) : ℤ := orDefault ep.flowWindow 25600

def sndCap (ep : EstablishParams) : ℤ :=
  max (orDefault ep.sendBufCapacity ep.effectiveBufferCapacity) ep.effectiveFlowWindow

def rcvCap (ep : EstablishParams) : ℤ :=
  max (orDefault ep.recvBufCapacity ep.effectiveBufferCapacity) ep.effectiveFlowWindow

def effectiveTsbpdDelay (ep : EstablishParams) : ℤ := orDefault ep.tsbpdDelay defaultTsbpdDelay

/-- The age at which the sender gives up on a packet; zero if it never does. -/
def sendDropThresh (ep : EstablishParams) : ℤ :=
  if ep.live ∧ ep.tlPktDrop then
    let peerDelay := orDefault ep.peerTsbpdDelay ep.effectiveTsbpdDelay
    max (peerDelay + ep.sndDropDelay * 1000) 1000000 + 20 * 1000
  else 0

def filter (ep : EstablishParams) : Option Filter.Config :=
  if ep.filterConfig = "" then none else (parseConfig ep.filterConfig).toOption

def effectivePreAnnounce (ep : EstablishParams) : ℕ :=
  if 0 < ep.kmRefreshRate ∧ (ep.kmPreAnnounce = 0 ∨ ep.kmRefreshRate ≤ ep.kmPreAnnounce) then
    ep.kmRefreshRate / 2
  else ep.kmPreAnnounce

/-- The context, matched to the nonce of an older peer. -/
def context (ep : EstablishParams) : Option Context :=
  ep.cryptoCtx.map fun ctx =>
    if ctx.mode = .gcm ∧ 0 < ep.peerVersion ∧ ep.peerVersion ≤ 0x010503 then ctx.setGCM153 true
    else ctx

end EstablishParams

/-- Apply the configured rates to the controller.  Only the live pacer follows the input
rate. -/
def applyBandwidth {σ : Type} [Controller σ] (bw : Bandwidth) (cc : σ) : σ :=
  if !Controller.live cc then Controller.setMaxBandwidth cc bw.configuredMaxBW
  else
    let input := if bw.inputBW = 0 then max bw.sampledInputBW bw.minInputBW else bw.inputBW
    if bw.configuredMaxBW = 0 ∧ input = 0 then Controller.setMaxBandwidth cc defaultMaxBW
    else Controller.updateBandwidth cc bw.configuredMaxBW input

namespace Conn

variable {σ : Type}

def push (c : Conn σ) (o : Output) : Conn σ := { c with outputs := c.outputs ++ [o] }

def raise (c : Conn σ) (e : Event) : Conn σ := { c with events := c.events ++ [e] }

def send (c : Conn σ) (p : Packet) : Conn σ := c.push (.sendPacket p true)

def setSendBuf (c : Conn σ) (sb : SendBuffer) : Conn σ :=
  { c with snd := { c.snd with sendBuf := sb } }

def setSendCC (c : Conn σ) (cc : σ) : Conn σ := { c with snd := { c.snd with sendCC := cc } }

def wireTS (c : Conn σ) (now : ℤ) : ℕ := srtTimestamp (now - c.params.sndTSBase)

def control (c : Conn σ) (now : ℤ) (t : CtrlType) : Packet :=
  Packet.newControl t c.params.peerSocketID (c.wireTS now)

def rto (c : Conn σ) : ℤ :=
  max c.snd.rexmitCount 1 * (c.ack.rtt + 4 * c.ack.rttVar + 2 * synInterval) + 10 * 1000

variable [Controller σ]

def nakInterval (c : Conn σ) : ℤ :=
  let base := Controller.updateNAKInterval c.snd.sendCC (c.ack.rtt + 4 * c.ack.rttVar)
  let minNak := Controller.minNAKInterval c.snd.sendCC
  max base (if minNak = 0 then defaultMinNAKInterval else minNak)

def establishedParams (now : ℤ) (ep : EstablishParams) : Params where
  peerSocketID := ep.peerSocketID
  payloadSize := ep.effectivePayloadSize.toNat
  sndTSBase := srtTimestamp now
  flowWindow := ep.effectiveFlowWindow
  sendDropThresh := ep.sendDropThresh
  messageMode := !ep.live && ep.message
  periodicNAK := decide (ep.congestion ≠ "file") && !ep.disableNAKReport
  reorderTolerance := max ep.lossMaxTTL 0
  peerIdleTimeout := max ep.peerIdleTimeout 0
  passphrase := if ep.cryptoCtx.isSome then ep.passphrase else ""
  kmRefreshRate := if ep.cryptoCtx.isSome then ep.kmRefreshRate else 0
  kmPreAnnounce := if ep.cryptoCtx.isSome then ep.effectivePreAnnounce else 0
  fecARQLevel := (ep.filter.map (·.arq)).getD .always

def establishedKeys (ep : EstablishParams) : KeySide where
  cryptoCtx := ep.context
  activeKey :=
    if ep.cryptoCtx.isSome then
      if ep.activeKey = .none then .even else ep.activeKey
    else .none
  sndKmState := if ep.cryptoCtx.isSome then .secured else .unsecured
  rcvKmState :=
    if ep.cryptoCtx.isSome then
      if ep.hsv4AwaitKey then .securing else .secured
    else .unsecured

def established (cc : σ) (now : ℤ) (ep : EstablishParams) : Conn σ :=
  let bandwidth : Bandwidth :=
    { configuredMaxBW := ep.maxBW
      inputBW := ep.inputBW
      minInputBW := ep.minInputBW
      inputSampleStart := now }
  let overhead := if ep.overheadBW = 0 then defaultOverhead else ep.overheadBW
  let watched := decide (0 < ep.peerIdleTimeout)
  { params := establishedParams now ep
    snd :=
      { sendBuf := SendBuffer.new ep.sndCap ep.sendISN
        sendCC := applyBandwidth bandwidth (Controller.setOverhead cc overhead)
        bandwidth := bandwidth
        fecSender := ep.filter.map fun cfg =>
          FECSender.new cfg ep.effectivePayloadSize.toNat ep.sendISN
        lastSentDataTime := if watched then now else 0
        lastACKTime := now }
    rcv :=
      { recvBuf := (RecvBuffer.new ep.rcvCap ep.recvISN).setMessageAPI (!ep.live && ep.message)
        tsbpdTimer := if ep.live then some (Tsbpd.Timer.new ep.effectiveTsbpdDelay 0) else none
        fecReceiver := ep.filter.map fun cfg =>
          FECReceiver.new cfg ep.effectivePayloadSize.toNat ep.recvISN
        lastRecvTime := if watched then now else 0 }
    key := establishedKeys ep
    ack := { rcvLastAckAck := ep.recvISN, rtt := initialRTT, rttVar := initialRTT.tdiv 2 } }

def armTimers (c : Conn σ) (now : ℤ) : Conn σ :=
  let c := c.push (.setTimer .ack (now + synInterval))
  let c := if c.params.periodicNAK then c.push (.setTimer .nak (now + c.nakInterval)) else c
  let c := c.push (.setTimer .exp (now + c.rto))
  if 0 < c.params.peerIdleTimeout then
    (c.push (.setTimer .keepalive (now + keepaliveInterval))).push
      (.setTimer .peerIdle (now + c.params.peerIdleTimeout))
  else c

def establish (cc : σ) (now : ℤ) (ep : EstablishParams) : Conn σ :=
  (established cc now ep).armTimers now

def fail (c : Conn σ) (err : String) : Conn σ :=
  ({ c with closed := true }.push (.clearTimer .handshake)).raise (.failed err)

end Conn

end SrtGo.Core
