import SrtGo.Packet.Header

/-!
# Control information fields

The bodies of the control packets that an established connection exchanges: the
acknowledgement, the loss report, the drop request and the key material.  Each
has a writer and a reader, as in the source.  The header has its writer here too,
because authenticated encryption binds the header of a data packet.
-/

namespace SrtGo

open Bytes

def uint16At (data : Bytes) (off : ℕ) : ℕ := readBE ((data.drop off).take 2)

def uint32At (data : Bytes) (off : ℕ) : ℕ := readBE ((data.drop off).take 4)

theorem uint32At_lt (data : Bytes) (off : ℕ) : uint32At data off < 2 ^ 32 := by
  have hlen : ((data.drop off).take 4).length ≤ 4 := List.length_take_le _ _
  calc uint32At data off < 256 ^ ((data.drop off).take 4).length := readBE_lt _
    _ ≤ 256 ^ 4 := Nat.pow_le_pow_right (by norm_num) hlen
    _ = 2 ^ 32 := by norm_num

theorem uint32At_putBE_append (n : ℕ) (rest : Bytes) :
    uint32At (putBE 4 n ++ rest) 0 = n % 2 ^ 32 := by
  rw [uint32At, List.drop_zero, List.take_left' (length_putBE 4 n), readBE_putBE]
  norm_num

def byteAt (data : Bytes) (off : ℕ) : ℕ := readBE ((data.drop off).take 1)

/-! ## The header -/

def CtrlType.code : CtrlType → ℕ
  | .handshake => 0x0000
  | .keepalive => 0x0001
  | .ack => 0x0002
  | .nak => 0x0003
  | .warn => 0x0004
  | .shutdown => 0x0005
  | .ackack => 0x0006
  | .dropReq => 0x0007
  | .peerError => 0x0008
  | .user => 0x7FFF
  | .other code => code

def SubType.code : SubType → ℕ
  | .none => 0
  | .hsReq => 1
  | .hsRsp => 2
  | .kmReq => 3
  | .kmRsp => 4
  | .sid => 5
  | .congestion => 6
  | .filter => 7
  | .group => 8
  | .other code => code

def PacketPosition.code : PacketPosition → ℕ
  | .middle => 0b00
  | .last => 0b01
  | .first => 0b10
  | .single => 0b11

def PacketEncryption.code : PacketEncryption → ℕ
  | .none => 0b00
  | .even => 0b01
  | .odd => 0b10
  | .both => 0b11

def PacketEncryption.ofCode (n : ℕ) : PacketEncryption :=
  match n % 4 with
  | 0 => .none
  | 1 => .even
  | 2 => .odd
  | _ => .both

def bitAt (b : Bool) (shift : ℕ) : ℕ := if b then 1 <<< shift else 0

def Header.marshal (h : Header) : Bytes :=
  (if h.isControl then
    putBE 2 (h.controlType.code ||| 0x8000) ++ putBE 2 h.subType.code ++ putBE 4 h.typeSpecific
  else
    putBE 4 (h.sequenceNumber &&& 0x7FFFFFFF) ++
      putBE 4 (h.packetPosition.code <<< 30 ||| bitAt h.order 29 ||| h.encryption.code <<< 27 |||
        bitAt h.retransmitted 26 ||| h.messageNumber &&& 0x03FFFFFF)) ++
    putBE 4 h.timestamp ++ putBE 4 h.destinationSocketID

/-! ## Acknowledgements -/

structure CIFACK where
  lastACKPacketSequenceNumber : ℕ := 0
  rtt : ℕ := 0
  rttVariance : ℕ := 0
  availableBufferSize : ℕ := 0
  packetsReceivingRate : ℕ := 0
  estimatedLinkCapacity : ℕ := 0
  receivingRate : ℕ := 0
deriving DecidableEq, Repr, Inhabited

def CIFACK.marshalCIF (c : CIFACK) : Bytes :=
  putBE 4 c.lastACKPacketSequenceNumber ++ putBE 4 c.rtt ++ putBE 4 c.rttVariance ++
    putBE 4 c.availableBufferSize ++ putBE 4 c.packetsReceivingRate ++
    putBE 4 c.estimatedLinkCapacity ++ putBE 4 c.receivingRate

theorem CIFACK.exists_marshalCIF_eq (c : CIFACK) :
    ∃ rest, c.marshalCIF = putBE 4 c.lastACKPacketSequenceNumber ++ rest := by
  simp only [marshalCIF, List.append_assoc]
  exact ⟨_, rfl⟩

/-- Read an acknowledgement; the fields after the first are optional. -/
def CIFACK.unmarshalCIF (data : Bytes) : Except String CIFACK :=
  if data.length < 4 then .error s!"packet: ACK CIF too short ({data.length} bytes)"
  else
    let c : CIFACK := { lastACKPacketSequenceNumber := uint32At data 0 }
    let c : CIFACK :=
      if 16 ≤ data.length then
        { c with
          rtt := uint32At data 4
          rttVariance := uint32At data 8
          availableBufferSize := uint32At data 12 }
      else c
    .ok (if 28 ≤ data.length then
      { c with
        packetsReceivingRate := uint32At data 16
        estimatedLinkCapacity := uint32At data 20
        receivingRate := uint32At data 24 }
      else c)

theorem CIFACK.lastACKPacketSequenceNumber_of_unmarshalCIF {data : Bytes} {c : CIFACK}
    (h : unmarshalCIF data = .ok c) : c.lastACKPacketSequenceNumber = uint32At data 0 := by
  unfold unmarshalCIF at h
  simp only at h
  split_ifs at h <;> (cases h; rfl)

/-! ## Loss reports -/

def encodeRun (start stop : ℕ) : List ℕ :=
  if start = stop then [start &&& 0x7FFFFFFF]
  else [start ||| 0x80000000, stop &&& 0x7FFFFFFF]

/-- Compress a loss list into runs; `start` and `stop` bound the run so far. -/
def encodeRuns (start stop : ℕ) : List ℕ → List ℕ
  | [] => encodeRun start stop
  | s :: rest =>
    if s = (stop + 1) % 2 ^ 32 then encodeRuns start s rest
    else encodeRun start stop ++ encodeRuns s s rest

def marshalLossList : List ℕ → Bytes
  | [] => []
  | s :: rest => (encodeRuns s s rest).flatMap (putBE 4)

/-- Expand a run of lost numbers up to `stop`; more than 8192 numbers are
refused. -/
def expandRun (stop : ℕ) : ℕ → ℕ → List ℕ → Except String (List ℕ)
  | 0, _, acc => .ok acc
  | fuel + 1, s, acc =>
    if s = (stop + 1) &&& 0x7FFFFFFF then .ok acc
    else
      let acc := acc ++ [s]
      if acc.length > 8192 then
        .error s!"packet: NAK loss list too large ({acc.length} entries)"
      else expandRun stop fuel ((s + 1) &&& 0x7FFFFFFF) acc

def unmarshalLossLoop (data : Bytes) : ℕ → ℕ → List ℕ → Except String (List ℕ)
  | 0, _, acc => .ok acc
  | fuel + 1, i, acc =>
    if i + 3 < data.length then
      let val := uint32At data i
      if val &&& 0x80000000 ≠ 0 then
        if i + 7 ≥ data.length then .error s!"packet: NAK range incomplete at offset {i}"
        else
          match expandRun (uint32At data (i + 4) &&& 0x7FFFFFFF) 8194 (val &&& 0x7FFFFFFF) acc with
          | .error e => .error e
          | .ok acc => unmarshalLossLoop data fuel (i + 8) acc
      else unmarshalLossLoop data fuel (i + 4) (acc ++ [val])
    else .ok acc

def unmarshalLossList (data : Bytes) : Except String (List ℕ) :=
  unmarshalLossLoop data data.length 0 []

/-! ## Drop requests -/

/-- The body of a drop request: the range of numbers that the sender gave up. -/
structure CIFDropReq where
  firstSeqNo : ℕ
  lastSeqNo : ℕ
deriving DecidableEq, Repr, Inhabited

def CIFDropReq.marshalCIF (c : CIFDropReq) : Bytes :=
  putBE 4 c.firstSeqNo ++ putBE 4 c.lastSeqNo

def CIFDropReq.unmarshalCIF (data : Bytes) : Except String CIFDropReq :=
  if data.length < 8 then .error s!"packet: DropReq CIF too short ({data.length} bytes)"
  else .ok { firstSeqNo := uint32At data 0, lastSeqNo := uint32At data 4 }

/-! ## Key material -/

structure CIFKeyMaterial where
  error : ℕ := 0
  s : ℕ := 0
  version : ℕ := 0
  packetType : ℕ := 0
  sign : ℕ := 0
  keyBasedEncryption : PacketEncryption := .none
  keyEncryptionKeyIndex : ℕ := 0
  cipher : ℕ := 0
  authentication : ℕ := 0
  streamEncapsulation : ℕ := 0
  sLen : ℕ := 0
  kLen : ℕ := 0
  salt : Bytes := []
  wrap : Bytes := []
deriving DecidableEq, Repr, Inhabited

/-- `data` copied into a field of `n` bytes: cut or padded with zeros. -/
def fit (n : ℕ) (data : Bytes) : Bytes :=
  data.take n ++ List.replicate (n - data.length) 0

def CIFKeyMaterial.marshalCIF (c : CIFKeyMaterial) : Bytes :=
  if c.error ≠ 0 then putBE 4 c.error
  else
    putBE 1 ((c.s <<< 7) &&& 0x80 ||| (c.version <<< 4) &&& 0x70 ||| c.packetType &&& 0x0F) ++
      putBE 2 c.sign ++ putBE 1 c.keyBasedEncryption.code ++ putBE 4 c.keyEncryptionKeyIndex ++
      putBE 1 c.cipher ++ putBE 1 c.authentication ++ putBE 1 c.streamEncapsulation ++
      putBE 1 0 ++ putBE 2 0 ++ putBE 1 (c.sLen / 4) ++ putBE 1 (c.kLen / 4) ++
      fit c.sLen c.salt ++ c.wrap

def PacketEncryption.keyCount (k : PacketEncryption) : ℕ := if k = .both then 2 else 1

def hex4 (n : ℕ) : String :=
  String.ofList (((Nat.toDigits 16 (n + 0x10000)).drop 1).map Char.toUpper)

/-- Read key material.  A body of four bytes is an error code. -/
def CIFKeyMaterial.unmarshalCIF (data : Bytes) : Except String CIFKeyMaterial :=
  if data.length = 4 then .ok { error := uint32At data 0 }
  else if data.length < 16 then .error s!"km extension too short ({data.length} bytes)"
  else
    let s := (byteAt data 0 >>> 7) &&& 0x01
    let version := (byteAt data 0 >>> 4) &&& 0x07
    let packetType := byteAt data 0 &&& 0x0F
    let sign := uint16At data 1
    let key := PacketEncryption.ofCode (byteAt data 3)
    let cipher := byteAt data 8
    let authentication := byteAt data 9
    let streamEncapsulation := byteAt data 10
    let sLen := byteAt data 14 * 4
    let kLen := byteAt data 15 * 4
    let offset := 16 + sLen
    let wrapLen := key.keyCount * kLen + 8
    if version ≠ 1 then .error s!"km: invalid version ({version})"
    else if packetType ≠ 2 then .error s!"km: invalid packet type ({packetType})"
    else if sign ≠ 0x2029 then .error s!"km: invalid signature (0x{hex4 sign})"
    else if key = .none then .error "km: no key indicated (KF=0)"
    else if cipher ≠ 2 ∧ cipher ≠ 4 then .error s!"km: unsupported cipher ({cipher})"
    else if cipher = 4 ∧ authentication ≠ 1 then
      .error s!"km: GCM cipher requires GCM auth, got auth={authentication}"
    else if cipher = 2 ∧ authentication ≠ 0 then
      .error s!"km: CTR cipher requires no auth, got auth={authentication}"
    else if streamEncapsulation ≠ 2 then
      .error s!"km: invalid stream encapsulation ({streamEncapsulation})"
    else if kLen ≠ 16 ∧ kLen ≠ 24 ∧ kLen ≠ 32 then .error s!"km: invalid key length ({kLen})"
    else if sLen > 0 ∧ sLen ≠ 16 then .error s!"km: invalid salt length ({sLen})"
    else if sLen > 0 ∧ (data.drop 16).length < sLen then .error "km: data too short for salt"
    else if (data.drop offset).length < wrapLen then
      .error "km: data too short for wrapped key(s)"
    else if data.length ≠ 16 + sLen + wrapLen then
      .error s!"km: length inconsistent (got {data.length}, expected {16 + sLen + wrapLen})"
    else
      .ok { s := s
            version := version
            packetType := packetType
            sign := sign
            keyBasedEncryption := key
            keyEncryptionKeyIndex := uint32At data 4
            cipher := cipher
            authentication := authentication
            streamEncapsulation := streamEncapsulation
            sLen := sLen
            kLen := kLen
            salt := (data.drop 16).take sLen
            wrap := (data.drop offset).take wrapLen }

end SrtGo
