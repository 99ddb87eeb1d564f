import Mathlib.Data.List.DropRight
import SrtGo.Lib.Blocks
import SrtGo.Packet.HeaderCodec

/-!
# The handshake

The body of a handshake packet: 48 bytes, and in a conclusion the extension blocks after them.
The strings of a handshake travel as words of four bytes, each in reverse order.
-/

namespace SrtGo

open Bytes

/-- The kind of a handshake; the codes without a name are reasons of a rejection. -/
inductive HandshakeType where
  | done
  | agreement
  | conclusion
  | wavehand
  | induction
  | reject (code : ℕ)
deriving DecidableEq, Repr, Inhabited

def HandshakeType.code : HandshakeType → ℕ
  | .done => 0xFFFFFFFD
  | .agreement => 0xFFFFFFFE
  | .conclusion => 0xFFFFFFFF
  | .wavehand => 0x00000000
  | .induction => 0x00000001
  | .reject code => code

def HandshakeType.ofCode : ℕ → HandshakeType
  | 0xFFFFFFFD => .done
  | 0xFFFFFFFE => .agreement
  | 0xFFFFFFFF => .conclusion
  | 0x00000000 => .wavehand
  | 0x00000001 => .induction
  | code => .reject code

def SubType.string : SubType → String
  | .none => "NONE"
  | .hsReq => "HSREQ"
  | .hsRsp => "HSRSP"
  | .kmReq => "KMREQ"
  | .kmRsp => "KMRSP"
  | .sid => "SID"
  | .congestion => "CONGESTION"
  | .filter => "FILTER"
  | .group => "GROUP"
  | .other code => s!"EXT({code})"

/-! ## Strings and addresses -/

/-- Each word of four bytes in reverse order; what does not fill a word is left out. -/
def reverseWords : Bytes → Bytes
  | a :: b :: c :: d :: rest => d :: c :: b :: a :: reverseWords rest
  | _ => []

/-- Pad a string with zeros to whole words and reverse each word. -/
def marshalStreamID (sid : Bytes) : Bytes :=
  let rem := sid.length % 4
  let size := if rem ≠ 0 then sid.length + (4 - rem) else sid.length
  reverseWords (sid ++ List.replicate (size - sid.length) 0)

def unmarshalStreamID (data : Bytes) : Bytes := (reverseWords data).rdropWhile (· = 0)

def v4InV6 : Bytes := [0, 0, 0, 0, 0, 0, 0, 0, 0, 0, 0xff, 0xff]

def to4 (ip : Bytes) : Option Bytes :=
  if ip.length = 4 then some ip
  else if ip.length = 16 ∧ ip.take 12 = v4InV6 then some (ip.drop 12)
  else none

/-- An address in 16 bytes.  A value that is neither of the two sizes is no address. -/
def marshalIP (ip : Bytes) : Bytes :=
  match to4 ip with
  | some ip4 => fit 16 ip4
  | none => if ip.length = 16 then ip else List.replicate 16 0

/-- Twelve zeros at the end make an IPv4 address. -/
def unmarshalIP (data : Bytes) : Bytes :=
  if ((data.drop 4).take 12).all (· = 0) then data.take 4 else data.take 16

/-! ## The extension of the handshake proper -/

structure CIFHandshakeExtension where
  srtVersion : ℕ := 0
  srtFlags : ℕ := 0
  recvTSBPDDelay : ℕ := 0
  sendTSBPDDelay : ℕ := 0
deriving DecidableEq, Repr, Inhabited

def CIFHandshakeExtension.marshalCIF (c : CIFHandshakeExtension) : Bytes :=
  putBE 4 c.srtVersion ++
    (putBE 4 c.srtFlags ++ (putBE 2 c.recvTSBPDDelay ++ putBE 2 c.sendTSBPDDelay))

def CIFHandshakeExtension.unmarshalCIF (data : Bytes) : Except String CIFHandshakeExtension :=
  if data.length < 12 then .error s!"hs extension too short ({data.length} bytes)"
  else
    .ok { srtVersion := uint32At data 0
          srtFlags := uint32At data 4
          recvTSBPDDelay := uint16At data 8
          sendTSBPDDelay := uint16At data 10 }

/-! ## The handshake -/

structure CIFHandshake where
  version : ℕ := 0
  encryptionField : ℕ := 0
  extensionField : ℕ := 0
  initialPacketSequenceNumber : ℕ := 0
  maxTransmissionUnitSize : ℕ := 0
  maxFlowWindowSize : ℕ := 0
  handshakeType : HandshakeType := .wavehand
  srtSocketID : ℕ := 0
  synCookie : ℕ := 0
  peerIP : Bytes := []
  isRequest : Bool := false
  hasHS : Bool := false
  srtHS : Option CIFHandshakeExtension := none
  hasKM : Bool := false
  srtKM : Option CIFKeyMaterial := none
  hasSID : Bool := false
  streamID : Bytes := []
  hasCongestion : Bool := false
  congestionType : Bytes := []
  hasFilter : Bool := false
  filterConfig : Bytes := []
  hasGroup : Bool := false
  groupID : ℕ := 0
  groupType : ℕ := 0
  groupFlags : ℕ := 0
  groupWeight : ℕ := 0
deriving DecidableEq, Repr, Inhabited

namespace CIFHandshake

def extensionFlags (c : CIFHandshake) : ℕ :=
  (if c.hasHS then 1 else 0) ||| (if c.hasKM then 2 else 0) |||
    (if c.hasSID ∨ c.hasCongestion ∨ c.hasFilter ∨ c.hasGroup then 4 else 0)

/-- What writing changes in the handshake itself: an empty stream ID is none, and the fields
that follow from the version are set. -/
def prepare (c : CIFHandshake) : CIFHandshake :=
  let c := if c.streamID = [] then { c with hasSID := false } else c
  if c.version = 5 ∧ c.handshakeType = .conclusion then
    { c with extensionField := c.extensionFlags }
  else if c.version = 4 then { c with encryptionField := 0, extensionField := 2 }
  else c

def marshalBase (c : CIFHandshake) : Bytes :=
  putBE 4 c.version ++ (putBE 2 c.encryptionField ++ (putBE 2 c.extensionField ++
    (putBE 4 (c.initialPacketSequenceNumber &&& 0x7FFFFFFF) ++ (putBE 4 c.maxTransmissionUnitSize ++
      (putBE 4 c.maxFlowWindowSize ++ (putBE 4 c.handshakeType.code ++ (putBE 4 c.srtSocketID ++
        (putBE 4 c.synCookie ++ marshalIP c.peerIP))))))))

/-- The error of a flag that is set without the data it announces. -/
def nilDereference : String := "runtime error: invalid memory address or nil pointer dereference"

def hsType (c : CIFHandshake) : SubType := if c.isRequest then .hsReq else .hsRsp

def kmType (c : CIFHandshake) : SubType := if c.isRequest then .kmReq else .kmRsp

def hsExtension (c : CIFHandshake) : Except String (List Block) :=
  if c.hasHS then
    match c.srtHS with
    | none => .error nilDereference
    | some hs => .ok [⟨c.hsType.code, hs.marshalCIF⟩]
  else .ok []

def sidExtension (c : CIFHandshake) : List Block :=
  if c.hasSID then [⟨SubType.sid.code, marshalStreamID c.streamID⟩] else []

def congestionExtension (c : CIFHandshake) : List Block :=
  if c.hasCongestion then [⟨SubType.congestion.code, marshalStreamID c.congestionType⟩] else []

def filterExtension (c : CIFHandshake) : List Block :=
  if c.hasFilter ∧ c.filterConfig ≠ [] then [⟨SubType.filter.code, marshalStreamID c.filterConfig⟩]
  else []

def groupExtension (c : CIFHandshake) : List Block :=
  if c.hasGroup ∧ c.groupID ≠ 0 then
    let dataword := c.groupType <<< 24 ||| c.groupFlags <<< 16 ||| c.groupWeight
    [⟨SubType.group.code, putBE 4 c.groupID ++ putBE 4 dataword⟩]
  else []

def kmExtension (c : CIFHandshake) : Except String (List Block) :=
  if c.hasKM then
    match c.srtKM with
    | none => .error nilDereference
    | some km => .ok [⟨c.kmType.code, km.marshalCIF⟩]
  else .ok []

def marshalCIF (c : CIFHandshake) : Except String (CIFHandshake × Bytes) := do
  let c := c.prepare
  let hs ← c.hsExtension
  let km ← c.kmExtension
  .ok (c, c.marshalBase ++ Block.marshalAll (hs ++ (c.sidExtension ++ (c.congestionExtension ++
    (c.filterExtension ++ (c.groupExtension ++ km))))))

def readBase (c : CIFHandshake) (data : Bytes) : CIFHandshake :=
  { c with
    version := uint32At data 0
    encryptionField := uint16At data 4
    extensionField := uint16At data 6
    initialPacketSequenceNumber := uint32At data 8 &&& 0x7FFFFFFF
    maxTransmissionUnitSize := uint32At data 12
    maxFlowWindowSize := uint32At data 16
    handshakeType := HandshakeType.ofCode (uint32At data 20)
    srtSocketID := uint32At data 24
    synCookie := uint32At data 28
    peerIP := unmarshalIP ((data.drop 32).take 16) }

def readHS (c : CIFHandshake) (isRequest : Bool) (extData : Bytes) : Except String CIFHandshake :=
  if extData.length ≠ 12 then .error s!"packet: HS extension wrong length ({extData.length})"
  else
    match CIFHandshakeExtension.unmarshalCIF extData with
    | .error e => .error s!"packet: HS extension: {e}"
    | .ok hs => .ok { c with hasHS := true, isRequest := isRequest, srtHS := some hs }

def readKM (c : CIFHandshake) (isRequest : Bool) (extData : Bytes) : Except String CIFHandshake :=
  match CIFKeyMaterial.unmarshalCIF extData with
  | .error e => .error s!"packet: KM extension: {e}"
  | .ok km => .ok { c with hasKM := true, isRequest := isRequest, srtKM := some km }

def readGroup (c : CIFHandshake) (extData : Bytes) : CIFHandshake :=
  if extData.length ≥ 8 then
    let dataword := uint32At extData 4
    { c with
      hasGroup := true
      groupID := uint32At extData 0
      groupType := (dataword >>> 24) % 2 ^ 8
      groupFlags := (dataword >>> 16) % 2 ^ 8
      groupWeight := dataword % 2 ^ 16 }
  else c

/-- What one extension block changes.  Unknown ones are skipped. -/
def readExtension (c : CIFHandshake) (extType : SubType) (extData : Bytes) :
    Except String CIFHandshake :=
  match extType with
  | .hsReq => c.readHS true extData
  | .hsRsp => c.readHS false extData
  | .kmReq => c.readKM true extData
  | .kmRsp => c.readKM false extData
  | .sid =>
    if extData.length > 512 then .error s!"packet: stream ID too long ({extData.length})"
    else .ok { c with hasSID := true, streamID := unmarshalStreamID extData }
  | .congestion => .ok { c with hasCongestion := true, congestionType := unmarshalStreamID extData }
  | .filter => .ok { c with hasFilter := true, filterConfig := unmarshalStreamID extData }
  | .group => .ok (c.readGroup extData)
  | .none | .other _ => .ok c

/-- One round of the loop over the extensions.  `seenExt` has a bit for each type seen. -/
def takeExtension (st : CIFHandshake × ℕ) (ext : Block) : Except String (CIFHandshake × ℕ) :=
  let (c, seenExt) := st
  let extBit := 1 <<< (ext.kind &&& 31)
  if seenExt &&& extBit ≠ 0 then .error s!"packet: duplicate extension type {ext.kind}"
  else do
    let c ← c.readExtension (SubType.ofCode ext.kind) ext.body
    .ok (c, seenExt ||| extBit)

def truncated (extType size extLen : ℕ) : String :=
  s!"packet: extension {SubType.string (SubType.ofCode extType)} truncated ({size} < {extLen})"

def unmarshalCIF (c : CIFHandshake) (data : Bytes) : Except String CIFHandshake :=
  if data.length < 48 then .error s!"packet: handshake CIF too short ({data.length} bytes)"
  else
    let c := c.readBase data
    if c.handshakeType = .induction then .ok c
    else if c.handshakeType ≠ .conclusion then .ok c
    else if c.extensionField = 0 ∨ data.length ≤ 48 then .ok c
    else if c.encryptionField ∉ [0, 2, 3, 4] then
      .error s!"packet: invalid encryption field ({c.encryptionField})"
    else do
      let (c, _) ← Block.loop truncated takeExtension data.length (data.drop 48) (c, 0)
      .ok c

end CIFHandshake

end SrtGo
