import SrtGo.Lib.Bytes
import SrtGo.Seq

/-!
# Packets

An SRT packet is a header and a payload.  The header's first bit tells control
packets from data packets, and each kind uses its own fields.  The network
address of a packet and the pool that its payload buffer comes from are not
modelled: no modelled function reads the first, and the second only recycles
memory.
-/

namespace SrtGo


inductive CtrlType where
  | handshake
  | keepalive
  | ack
  | nak
  | warn
  | shutdown
  | ackack
  | dropReq
  | peerError
  | user
  | other (code : ℕ)
deriving DecidableEq, Repr, Inhabited

inductive SubType where
  | none
  | hsReq
  | hsRsp
  | kmReq
  | kmRsp
  | sid
  | congestion
  | filter
  | group
  | other (code : ℕ)
deriving DecidableEq, Repr, Inhabited

inductive PacketPosition where
  | middle
  | last
  | first
  | single
deriving DecidableEq, Repr, Inhabited

def PacketPosition.isLast : PacketPosition → Bool
  | .last | .single => true
  | .first | .middle => false

inductive PacketEncryption where
  | none
  | even
  | odd
  | both
deriving DecidableEq, Repr, Inhabited

structure Header where
  isControl : Bool := false
  controlType : CtrlType := .handshake
  subType : SubType := .none
  typeSpecific : ℕ := 0
  sequenceNumber : ℕ := 0
  packetPosition : PacketPosition := .middle
  order : Bool := false
  encryption : PacketEncryption := .none
  retransmitted : Bool := false
  messageNumber : ℕ := 0
  timestamp : ℕ := 0
  destinationSocketID : ℕ := 0
deriving DecidableEq, Repr, Inhabited

structure Packet where
  header : Header := {}
  data : Bytes := []
deriving DecidableEq, Repr, Inhabited

namespace Packet

def newControl (ctrlType : CtrlType) (destSocketID timestamp : ℕ) : Packet :=
  { header := { isControl := true
                controlType := ctrlType
                destinationSocketID := destSocketID
                timestamp := timestamp } }

def newData (seqNo timestamp destSocketID : ℕ) (payload : Bytes) : Packet :=
  { header := { sequenceNumber := seqNo
                timestamp := timestamp
                destinationSocketID := destSocketID
                packetPosition := .single
                messageNumber := 1 }
    data := payload }

def WellFormed (p : Packet) : Prop := Seq.Valid p.header.sequenceNumber

instance (p : Packet) : Decidable p.WellFormed := inferInstanceAs (Decidable (Seq.Valid _))

end Packet

end SrtGo
