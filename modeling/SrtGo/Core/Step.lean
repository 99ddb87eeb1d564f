import SrtGo.Core.Receive
import SrtGo.Lib.Run

/-!
# The state machine

The two entries of the machine, for packets and for timers, and the inputs that a host
can give to a connection.  A connection that is closed ignores them all.
-/

namespace SrtGo.Core

open Buffer Bytes Congestion Crypto SrtGo.Filter

namespace Conn

variable {σ : Type} [Controller σ]

/-- Handle a handshake packet on an established connection: only a rejection matters. -/
def handleHandshake (c : Conn σ) (p : Packet) : Conn σ :=
  if p.data.length < 48 then c
  else
    let handshakeType := uint32At p.data 20
    if handshakeType ∈ [0xFFFFFFFD, 0xFFFFFFFE, 0xFFFFFFFF, 0, 1] then c
    else c.fail s!"srt: connection rejected (code {handshakeType})"

/-- The version and the feature flags that a legacy extension exchange advertises. -/
def srtVersion : ℕ := 0x010504
def defaultFlags : ℕ := 0b111111

def handleHSv4HSREQ (c : Conn σ) (p : Packet) : Conn σ :=
  if p.data.length < 12 then c
  else
    let rsp := Packet.newControl .user c.params.peerSocketID 0
    c.send { rsp with
      header := { rsp.header with subType := .hsRsp }
      data := putBE 4 srtVersion ++ putBE 4 defaultFlags ++ putBE 4 (uint32At p.data 8 % 2 ^ 16) }

/-- A keepalive shows that the peer is there but has nothing to send; in live mode it is
a sample of the peer's clock. -/
def handleKeepalive (c : Conn σ) (now : ℤ) (p : Packet) : Conn σ :=
  { c with rcv := { c.rcv with groupIdle := true } }.modifyTimer fun t =>
    (t.updateWrap p.header.timestamp).onACK p.header.timestamp now (-1)

def noteAlive (c : Conn σ) (now : ℤ) : Conn σ :=
  if 0 < c.params.peerIdleTimeout then { c with rcv := { c.rcv with lastRecvTime := now } } else c

variable [Primitives]

def handleUser (c : Conn σ) (now : ℤ) (p : Packet) : Conn σ :=
  match p.header.subType with
  | .kmReq => c.handleKMRequest now p
  | .kmRsp => c.handleKMResponse p
  | .hsReq => c.handleHSv4HSREQ p
  | _ => c

def handleControl (c : Conn σ) (now : ℤ) (p : Packet) : Conn σ :=
  match p.header.controlType with
  | .ack => c.handleACK now p
  | .nak => c.handleNAK now p
  | .ackack => c.handleACKACK now p
  | .dropReq => c.handleDropReq now p
  | .user => c.handleUser now p
  | .keepalive => c.handleKeepalive now p
  | .shutdown => { c with closed := true }.raise .closed
  | _ => c

def handlePacket (c : Conn σ) (now : ℤ) (p : Packet) : Conn σ :=
  if c.closed then c
  else if p.header.isControl ∧ p.header.controlType = .handshake then c.handleHandshake p
  else
    let c := c.noteAlive now
    if p.header.isControl then c.handleControl now p else c.handleData now p

/-! ## Timers -/

def sampleInputBandwidth (c : Conn σ) (now : ℤ) : Conn σ :=
  let bw := c.snd.bandwidth
  let elapsed := now - bw.inputSampleStart
  if elapsed < 1000000 then c
  else
    let sampled := if 0 < bw.inputSampleBytes then (bw.inputSampleBytes * 1000000).tdiv elapsed
      else bw.sampledInputBW
    let bw := { bw with sampledInputBW := sampled, inputSampleBytes := 0, inputSampleStart := now }
    { c with snd := { c.snd with
        bandwidth := bw
        sendCC := if bw.configuredMaxBW = 0 ∧ bw.inputBW = 0 then applyBandwidth bw c.snd.sendCC
          else c.snd.sendCC } }

def retransmitAll (c : Conn σ) : Conn σ := c.snd.sendBuf.getAllUnacked.foldl send c

/-- The retransmission timeout: without an acknowledgement for too long, everything is
sent again. -/
def handleEXP (c : Conn σ) (now : ℤ) : Conn σ :=
  let c :=
    if 0 < c.snd.sendBuf.size ∧ c.rto < now - c.snd.lastACKTime then
      let c := { c with snd := { c.snd with
        sendCC := Controller.onTimeout c.snd.sendCC
        rexmitCount := c.snd.rexmitCount + 1 } }
      let c := c.retransmitAll
      { c with snd := { c.snd with lastACKTime := now } }
    else c
  c.push (.setTimer .exp (now + c.rto))

def sendKeepAlive (c : Conn σ) (now : ℤ) : Conn σ :=
  if c.closed then c else c.send (c.control now .keepalive)

def checkKeepalive (c : Conn σ) (now : ℤ) : Conn σ :=
  if c.params.peerIdleTimeout ≤ 0 then c
  else
    let c :=
      if keepaliveInterval ≤ now - c.snd.lastSentDataTime then
        let p := c.control now .keepalive
        c.send { p with data := [0, 0, 0, 0] }
      else c
    c.push (.setTimer .keepalive (now + keepaliveInterval))

def checkPeerIdle (c : Conn σ) (now : ℤ) : Conn σ :=
  if c.params.peerIdleTimeout ≤ 0 then c
  else if c.params.peerIdleTimeout ≤ now - c.rcv.lastRecvTime then
    { c with closed := true }.raise (.failed "srt: peer idle timeout")
  else c.push (.setTimer .peerIdle (c.rcv.lastRecvTime + c.params.peerIdleTimeout))

/-- The periodic acknowledgement; it also lets packets that are too late age out. -/
def handleACKTimer (c : Conn σ) (now : ℤ) : Conn σ :=
  let c := (c.sendFullACK now).push (.setTimer .ack (now + synInterval))
  if 0 < c.params.sendDropThresh ∨ c.snd.msgTTLActive then c.pump now else c

/-- The periodic loss report, which a filter takes over unless it always reports. -/
def handleNAKTimer (c : Conn σ) (now : ℤ) : Conn σ :=
  if !c.params.periodicNAK then c
  else
    let c := if c.reportsLosses then c.sendPeriodicNAK now else c
    c.push (.setTimer .nak (now + c.nakInterval))

def handleTimer (c : Conn σ) (now : ℤ) (id : TimerID) : Conn σ :=
  let c := c.sampleInputBandwidth now
  if c.closed then c
  else
    match id with
    | .ack => c.handleACKTimer now
    | .nak => c.handleNAKTimer now
    | .sndPacing => c.pump now
    | .tsbpd => c.deliverTSBPD now
    | .kmRefresh => c.retryKMREQ now
    | .keepalive => c.checkKeepalive now
    | .peerIdle => c.checkPeerIdle now
    | .exp => c.handleEXP now
    | .handshake | .linger => c

end Conn

inductive Input where
  | write (now : ℤ) (payload : Bytes) (opts : MsgOptions)
  | writeCoordinated (now : ℤ) (payload : Bytes) (seqNo srcTime : ℕ)
  | packet (now : ℤ) (p : Packet)
  | timer (now : ℤ) (id : TimerID)
  | keepAlive (now : ℤ)
  | shutdown (now : ℤ)

def Conn.step {σ : Type} [Controller σ] [Primitives] (c : Conn σ) : Input → Conn σ
  | .write now payload opts => c.writeMsg now payload opts
  | .writeCoordinated now payload seqNo srcTime => c.writeCoordinated now payload seqNo srcTime
  | .packet now p => c.handlePacket now p
  | .timer now id => c.handleTimer now id
  | .keepAlive now => c.sendKeepAlive now
  | .shutdown now => c.shutdown now

end SrtGo.Core
