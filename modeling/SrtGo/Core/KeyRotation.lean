import SrtGo.Core.Conn

/-!
# Key rotation

A secured connection changes its key every so many packets.  The sender draws the next
key into the slot that is not in use and announces it ahead of the switch; the receiver
installs it and echoes it back.  After the switch the old key stays for a while and is
then cleared.  One context serves both directions.
-/

namespace SrtGo.Core

open Bytes Congestion Crypto

def srtMaxKMRetry : ℤ := 10

def oppositeKey (k : PacketEncryption) : PacketEncryption := if k = .even then .odd else .even

def KMState.code : KMState → ℕ
  | .unsecured => 0
  | .securing => 1
  | .secured => 2
  | .noSecret => 3
  | .badSecret => 4

namespace KeySide

def switchKey (k : KeySide) (refreshRate : ℕ) : KeySide :=
  if refreshRate ≤ k.kmPacketCount then
    { k with
      activeKey := oppositeKey k.activeKey
      kmPacketCount := 0
      kmAnnounced := false
      kmDecommission := true
      kmSwitchCount := 0 }
  else k

/-- Clear the old key once it has been out of use for `preAnnounce` packets. -/
def decommission (k : KeySide) (preAnnounce : ℕ) : KeySide :=
  if k.kmDecommission then
    if preAnnounce ≤ k.kmSwitchCount + 1 then
      { k with
        cryptoCtx := k.cryptoCtx.map fun ctx => ctx.clearSEK (oppositeKey k.activeKey)
        kmSwitchCount := k.kmSwitchCount + 1
        kmDecommission := false }
    else { k with kmSwitchCount := k.kmSwitchCount + 1 }
  else k

def announce (k : KeySide) (ctx : Context) (nextKey : PacketEncryption) : KeySide :=
  { k with
    cryptoCtx := some ctx
    kmAnnounced := true
    kmConfirmed := false
    kmRetryKey := nextKey
    kmRetryCount := srtMaxKMRetry
    sndKmState := .securing }

end KeySide

namespace Conn

variable {σ : Type} [Primitives]

def kmRetryInterval (c : Conn σ) : ℤ := (max c.ack.rtt (100 * 1000) * 3).tdiv 2

def userControl (c : Conn σ) (now : ℤ) (subType : SubType) (data : Bytes) : Packet :=
  let p := c.control now .user
  { p with header := { p.header with subType := subType }, data := data }

def sendKMREQ (c : Conn σ) (now : ℤ) (key : PacketEncryption) : Conn σ :=
  match c.key.cryptoCtx with
  | none => c
  | some ctx =>
    if c.params.passphrase = "" then c
    else
      match ctx.marshalKM c.params.passphrase key with
      | .error _ => c
      | .ok km => c.send (c.userControl now .kmReq km.marshalCIF)

def setContext (c : Conn σ) (ctx : Context) : Conn σ :=
  { c with key := { c.key with cryptoCtx := some ctx } }

def countEncrypted (c : Conn σ) : Conn σ :=
  { c with key := { c.key with kmPacketCount := c.key.kmPacketCount + 1 } }

def rotate (c : Conn σ) : Conn σ :=
  { c with key := (c.key.switchKey c.params.kmRefreshRate).decommission c.params.kmPreAnnounce }

def announceKey (c : Conn σ) (now : ℤ) (ctx : Context) (nextKey : PacketEncryption) : Conn σ :=
  let c := { c with key := c.key.announce ctx nextKey }.sendKMREQ now nextKey
  c.push (.setTimer .kmRefresh (now + c.kmRetryInterval))

def announcementDue (c : Conn σ) : Bool :=
  !c.key.kmAnnounced &&
    decide (c.params.kmRefreshRate - c.params.kmPreAnnounce ≤ c.key.kmPacketCount)

/-- Advance the rotation by one encrypted packet.  If no key can be drawn the later
phases are left out too. -/
def checkKeyRotation (c : Conn σ) (now : ℤ) : Conn σ :=
  match c.key.cryptoCtx with
  | none => c
  | some ctx =>
    let c := c.countEncrypted
    if c.announcementDue then
      let nextKey := oppositeKey c.key.activeKey
      match ctx.generateSEK nextKey with
      | (ctx, some _) => c.setContext ctx
      | (ctx, none) => (c.announceKey now ctx nextKey).rotate
    else c.rotate

def retryKMREQ (c : Conn σ) (now : ℤ) : Conn σ :=
  if !c.key.kmAnnounced ∨ c.key.kmConfirmed ∨ c.key.kmRetryCount ≤ 0 then c
  else
    let c := { c with key := { c.key with kmRetryCount := c.key.kmRetryCount - 1 } }
    let c := c.sendKMREQ now c.key.kmRetryKey
    if 0 < c.key.kmRetryCount then c.push (.setTimer .kmRefresh (now + c.kmRetryInterval)) else c

def sendKMError (c : Conn σ) (now : ℤ) (state : KMState) : Conn σ :=
  c.send (c.userControl now .kmRsp (putBE 4 state.code))

def handleKMRequest (c : Conn σ) (now : ℤ) (p : Packet) : Conn σ :=
  match c.key.cryptoCtx with
  | none => { c with key := { c.key with rcvKmState := .noSecret } }
  | some ctx =>
    if c.params.passphrase = "" then { c with key := { c.key with rcvKmState := .noSecret } }
    else
      match CIFKeyMaterial.unmarshalCIF p.data with
      | .error _ => { c with key := { c.key with rcvKmState := .badSecret } }
      | .ok km =>
        match ctx.unmarshalKM km c.params.passphrase with
        | (ctx, some _) =>
          -- the context may have changed although the key was refused
          { c with key := { c.key with
              cryptoCtx := some ctx
              rcvKmState := .badSecret
              sndKmState := .badSecret } }.sendKMError now .badSecret
        | (ctx, none) =>
          let c := { c with key := { c.key with cryptoCtx := some ctx, rcvKmState := .secured } }
          match ctx.marshalKM c.params.passphrase km.keyBasedEncryption with
          | .error _ => c
          | .ok resp => c.send (c.userControl now .kmRsp resp.marshalCIF)

def errorState (data : Bytes) : Option KMState :=
  if Seq.int32 (uint32At data 0) = 3 then some .noSecret
  else if Seq.int32 (uint32At data 0) = 4 then some .badSecret
  else none

/-- Take note of the answer to an announcement: four bytes refuse it, anything else
confirms it. -/
def handleKMResponse [Controller σ] (c : Conn σ) (p : Packet) : Conn σ :=
  if p.data.length = 4 then
    let c := match errorState p.data with
      | none => c
      | some state => { c with key := { c.key with sndKmState := state, rcvKmState := state } }
    if c.key.hsv4DeferConnect then
      (c.push (.clearTimer .kmRefresh)).fail "srt: connection rejected (code 1010)"
    else c
  else
    let c := { c with key := { c.key with
      kmConfirmed := true
      sndKmState := .secured
      rcvKmState := .secured } }
    let c := c.push (.clearTimer .kmRefresh)
    if c.key.hsv4DeferConnect then
      { c with key := { c.key with hsv4DeferConnect := false } }.raise
        (.connected c.params.peerSocketID)
    else c

end Conn

end SrtGo.Core
