import SrtGo.Packet.Cif

/-!
# The header on the wire

A header has 16 bytes.  The first bit tells whether they are read as a control header or as a
data header, whose second word packs a position, two flags, a key and a message number.  Every
string of 16 bytes is the header of some packet, and is what that header writes; and a header
whose fields fit their widths is what it writes reads as.

The codes without a name of their own are kept as numbers: `other` stands for those only.
-/

namespace SrtGo

open Bytes

def CtrlType.ofCode : ℕ → CtrlType
  | 0x0000 => .handshake
  | 0x0001 => .keepalive
  | 0x0002 => .ack
  | 0x0003 => .nak
  | 0x0004 => .warn
  | 0x0005 => .shutdown
  | 0x0006 => .ackack
  | 0x0007 => .dropReq
  | 0x0008 => .peerError
  | 0x7FFF => .user
  | code => .other code

def SubType.ofCode : ℕ → SubType
  | 0 => .none
  | 1 => .hsReq
  | 2 => .hsRsp
  | 3 => .kmReq
  | 4 => .kmRsp
  | 5 => .sid
  | 6 => .congestion
  | 7 => .filter
  | 8 => .group
  | code => .other code

def PacketPosition.ofCode (n : ℕ) : PacketPosition :=
  match n % 4 with
  | 0 => .middle
  | 1 => .last
  | 2 => .first
  | _ => .single

/-- Read a header from the first 16 bytes.  The fields of the other kind stay as they were. -/
def Header.unmarshal (h : Header) (buf : Bytes) : Except String Header :=
  if buf.length < 16 then .error s!"packet: header too short ({buf.length} bytes)"
  else
    let h := { h with isControl := decide (byteAt buf 0 &&& 0x80 ≠ 0) }
    let h :=
      if h.isControl then
        { h with
          controlType := CtrlType.ofCode (uint16At buf 0 &&& 0x7FFF)
          subType := SubType.ofCode (uint16At buf 2)
          typeSpecific := uint32At buf 4 }
      else
        let field := uint32At buf 4
        { h with
          sequenceNumber := uint32At buf 0 &&& 0x7FFFFFFF
          packetPosition := PacketPosition.ofCode ((field >>> 30) &&& 0b11)
          order := decide ((field >>> 29) &&& 1 ≠ 0)
          encryption := PacketEncryption.ofCode ((field >>> 27) &&& 0b11)
          retransmitted := decide ((field >>> 26) &&& 1 ≠ 0)
          messageNumber := field &&& 0x03FFFFFF }
    .ok { h with timestamp := uint32At buf 8, destinationSocketID := uint32At buf 12 }

def Packet.parse (rawdata : Bytes) : Except String Packet :=
  if rawdata.length < 16 then .error s!"packet: data too short ({rawdata.length} bytes)"
  else
    match Header.unmarshal {} (rawdata.take 16) with
    | .error e => .error e
    | .ok h => .ok { header := h, data := rawdata.drop 16 }

def Packet.marshal (p : Packet) : Bytes := p.header.marshal ++ p.data

/-! ## Codes -/

theorem CtrlType.code_ofCode (n : ℕ) : (CtrlType.ofCode n).code = n := by
  unfold CtrlType.ofCode
  split <;> rfl

theorem SubType.code_ofCode (n : ℕ) : (SubType.ofCode n).code = n := by
  unfold SubType.ofCode
  split <;> rfl

theorem PacketPosition.code_ofCode (n : ℕ) : (PacketPosition.ofCode n).code = n % 4 := by
  have hlt : n % 4 < 4 := Nat.mod_lt n (by omega)
  unfold PacketPosition.ofCode
  interval_cases n % 4 <;> rfl

theorem PacketEncryption.code_ofCode (n : ℕ) : (PacketEncryption.ofCode n).code = n % 4 := by
  have hlt : n % 4 < 4 := Nat.mod_lt n (by omega)
  unfold PacketEncryption.ofCode
  interval_cases n % 4 <;> rfl

@[simp] theorem PacketPosition.ofCode_code (p : PacketPosition) :
    PacketPosition.ofCode p.code = p := by
  cases p <;> rfl

@[simp] theorem PacketEncryption.ofCode_code (e : PacketEncryption) :
    PacketEncryption.ofCode e.code = e := by
  cases e <;> rfl

/-! ## Bits of a word -/

def fieldWord (position : ℕ) (order : Bool) (encryption : ℕ) (retransmitted : Bool)
    (messageNumber : ℕ) : ℕ :=
  position * 2 ^ 30 + order.toNat * 2 ^ 29 + encryption * 2 ^ 27 + retransmitted.toNat * 2 ^ 26 +
    messageNumber

theorem bitAt_eq (b : Bool) (shift : ℕ) : bitAt b shift = b.toNat <<< shift := by
  cases b <;> simp [bitAt]

theorem or_eq_fieldWord {position encryption messageNumber : ℕ} (order retransmitted : Bool)
    (hencryption : encryption < 4) :
    (position <<< 30 ||| bitAt order 29 ||| encryption <<< 27 ||| bitAt retransmitted 26 |||
      messageNumber &&& 0x03FFFFFF) =
      fieldWord position order encryption retransmitted (messageNumber % 2 ^ 26) := by
  have hmask : messageNumber &&& 0x03FFFFFF = messageNumber % 2 ^ 26 :=
    Nat.and_two_pow_sub_one_eq_mod _ 26
  have hnumber : messageNumber % 2 ^ 26 < 2 ^ 26 := Nat.mod_lt _ (by norm_num)
  have horder := Bool.toNat_le order
  have hretransmitted := Bool.toNat_le retransmitted
  rw [hmask, bitAt_eq, bitAt_eq, Nat.or_assoc, Nat.or_assoc, Nat.or_assoc,
    ← Nat.shiftLeft_add_eq_or_of_lt hnumber, ← Nat.shiftLeft_add_eq_or_of_lt (i := 27),
    ← Nat.shiftLeft_add_eq_or_of_lt (i := 29), ← Nat.shiftLeft_add_eq_or_of_lt (i := 30)]
  · simp only [Nat.shiftLeft_eq, fieldWord]
    omega
  all_goals simp only [Nat.shiftLeft_eq]; omega

theorem toNat_bit (field shift : ℕ) : (decide ((field >>> shift) &&& 1 ≠ 0)).toNat = field / 2 ^
    shift % 2 := by
  rw [Nat.and_one_is_mod, Nat.shiftRight_eq_div_pow]
  rcases Nat.mod_two_eq_zero_or_one (field / 2 ^ shift) with h | h <;> rw [h] <;> rfl

theorem bit_eq_of_mod {field shift : ℕ} {b : Bool} (h : field / 2 ^ shift % 2 = b.toNat) :
    decide ((field >>> shift) &&& 1 ≠ 0) = b := by
  rw [Nat.and_one_is_mod, Nat.shiftRight_eq_div_pow, h]
  cases b <;> rfl

theorem shift_and_three (field shift : ℕ) : (field >>> shift) &&& 0b11 = field / 2 ^ shift % 4 := by
  rw [Nat.shiftRight_eq_div_pow]
  exact Nat.and_two_pow_sub_one_eq_mod _ 2

theorem fieldWord_of_parts {field : ℕ} (hfield : field < 2 ^ 32) :
    fieldWord ((field >>> 30) &&& 0b11) (decide ((field >>> 29) &&& 1 ≠ 0))
      ((field >>> 27) &&& 0b11)
      (decide ((field >>> 26) &&& 1 ≠ 0)) (field % 2 ^ 26) = field := by
  rw [fieldWord, toNat_bit, toNat_bit, shift_and_three, shift_and_three]
  omega

theorem parts_of_fieldWord {position encryption messageNumber : ℕ} (order retransmitted : Bool)
    (hposition : position < 4) (hencryption : encryption < 4) (hnumber : messageNumber < 2 ^ 26) :
    let field := fieldWord position order encryption retransmitted messageNumber
    field < 2 ^ 32 ∧ (field >>> 30) &&& 0b11 = position ∧
      decide ((field >>> 29) &&& 1 ≠ 0) = order ∧
      (field >>> 27) &&& 0b11 = encryption ∧ decide ((field >>> 26) &&& 1 ≠ 0) = retransmitted ∧
      field &&& 0x03FFFFFF = messageNumber := by
  intro field
  have hmask : field &&& 0x03FFFFFF = field % 2 ^ 26 := Nat.and_two_pow_sub_one_eq_mod _ 26
  have hfield : field = position * 2 ^ 30 + order.toNat * 2 ^ 29 + encryption * 2 ^ 27 +
      retransmitted.toNat * 2 ^ 26 + messageNumber := rfl
  have horder := Bool.toNat_le order
  have hretransmitted := Bool.toNat_le retransmitted
  clear_value field
  rw [shift_and_three, shift_and_three, hmask]
  exact ⟨by omega, by omega, bit_eq_of_mod (by omega), by omega, bit_eq_of_mod (by omega), by omega⟩

/-! ## Words of a byte string -/

variable {buf : Bytes} {off k : ℕ}

theorem putBE_uint32At (h : off + 4 ≤ buf.length) :
    putBE 4 (uint32At buf off) = (buf.drop off).take 4 := by
  have hlen : ((buf.drop off).take 4).length = 4 := by
    rw [List.length_take, List.length_drop]
    omega
  have hput := putBE_readBE ((buf.drop off).take 4)
  rwa [hlen] at hput

theorem putBE_uint16At (h : off + 2 ≤ buf.length) :
    putBE 2 (uint16At buf off) = (buf.drop off).take 2 := by
  have hlen : ((buf.drop off).take 2).length = 2 := by
    rw [List.length_take, List.length_drop]
    omega
  have hput := putBE_readBE ((buf.drop off).take 2)
  rwa [hlen] at hput

theorem uint16At_lt (buf : Bytes) (off : ℕ) : uint16At buf off < 2 ^ 16 := by
  have hlt := readBE_lt ((buf.drop off).take 2)
  have hlen : ((buf.drop off).take 2).length ≤ 2 := List.length_take_le _ _
  have hpow : 256 ^ ((buf.drop off).take 2).length ≤ 256 ^ 2 :=
    Nat.pow_le_pow_right (by norm_num) hlen
  exact (hlt.trans_le hpow).trans_eq (by norm_num)

theorem byteAt_eq_uint16At (h : 2 ≤ buf.length) : byteAt buf 0 = uint16At buf 0 / 2 ^ 8 := by
  match buf, h with
  | b :: b' :: rest, _ =>
    have hb' := b'.toNat_lt
    simp only [byteAt, uint16At, List.drop_zero, List.take_succ_cons, List.take_zero, readBE,
      List.length_cons, List.length_nil]
    omega

theorem byteAt_eq_uint32At (h : 4 ≤ buf.length) : byteAt buf 0 = uint32At buf 0 / 2 ^ 24 := by
  match buf, h with
  | b :: b₁ :: b₂ :: b₃ :: rest, _ =>
    have h₁ := b₁.toNat_lt
    have h₂ := b₂.toNat_lt
    have h₃ := b₃.toNat_lt
    simp only [byteAt, uint32At, List.drop_zero, List.take_succ_cons, List.take_zero, readBE,
      List.length_cons, List.length_nil]
    omega

theorem uint16At_skip (h : k ≤ off) (n : ℕ) (rest : Bytes) :
    uint16At (putBE k n ++ rest) off = uint16At rest (off - k) := by
  rw [uint16At, uint16At, List.drop_append, length_putBE,
    List.drop_of_length_le (by rwa [length_putBE]), List.nil_append]

theorem uint32At_skip (h : k ≤ off) (n : ℕ) (rest : Bytes) :
    uint32At (putBE k n ++ rest) off = uint32At rest (off - k) := by
  rw [uint32At, uint32At, List.drop_append, length_putBE,
    List.drop_of_length_le (by rwa [length_putBE]), List.nil_append]

theorem uint32At_putBE (n : ℕ) : uint32At (putBE 4 n) 0 = n % 2 ^ 32 := by
  have happend := uint32At_putBE_append n []
  rwa [List.append_nil] at happend

theorem uint16At_putBE_append (n : ℕ) (rest : Bytes) : uint16At (putBE 2 n ++ rest) 0 =
    n % 2 ^ 16 := by
  rw [uint16At, List.drop_zero, List.take_left' (length_putBE 2 n), readBE_putBE]
  norm_num

theorem and_0x80_ne_zero_iff {n : ℕ} (h : n < 256) : n &&& 0x80 ≠ 0 ↔ 128 ≤ n := by
  revert n
  decide +kernel

/-! ## Reading and writing -/

namespace Header

variable {h : Header} {buf : Bytes}

theorem isControl_iff (hlen : 16 ≤ buf.length) :
    (byteAt buf 0 &&& 0x80 ≠ 0 ↔ 2 ^ 15 ≤ uint16At buf 0) ∧
      (byteAt buf 0 &&& 0x80 ≠ 0 ↔ 2 ^ 31 ≤ uint32At buf 0) := by
  have hhalf := byteAt_eq_uint16At (show 2 ≤ buf.length by omega)
  have hword := byteAt_eq_uint32At (show 4 ≤ buf.length by omega)
  have hlt := uint16At_lt buf 0
  rw [and_0x80_ne_zero_iff (by omega)]
  omega

theorem unmarshal_control (h : Header) (hlen : 16 ≤ buf.length) (hbit : byteAt buf 0 &&& 0x80 ≠ 0) :
    h.unmarshal buf = .ok { h with
      isControl := true
      controlType := CtrlType.ofCode (uint16At buf 0 &&& 0x7FFF)
      subType := SubType.ofCode (uint16At buf 2)
      typeSpecific := uint32At buf 4
      timestamp := uint32At buf 8
      destinationSocketID := uint32At buf 12 } := by
  unfold unmarshal
  rw [if_neg (not_lt.mpr hlen), decide_eq_true hbit]
  rfl

theorem unmarshal_data (h : Header) (hlen : 16 ≤ buf.length) (hbit : ¬byteAt buf 0 &&& 0x80 ≠ 0) :
    h.unmarshal buf = .ok { h with
      isControl := false
      sequenceNumber := uint32At buf 0 &&& 0x7FFFFFFF
      packetPosition := PacketPosition.ofCode ((uint32At buf 4 >>> 30) &&& 0b11)
      order := decide ((uint32At buf 4 >>> 29) &&& 1 ≠ 0)
      encryption := PacketEncryption.ofCode ((uint32At buf 4 >>> 27) &&& 0b11)
      retransmitted := decide ((uint32At buf 4 >>> 26) &&& 1 ≠ 0)
      messageNumber := uint32At buf 4 &&& 0x03FFFFFF
      timestamp := uint32At buf 8
      destinationSocketID := uint32At buf 12 } := by
  unfold unmarshal
  rw [if_neg (not_lt.mpr hlen), decide_eq_false hbit]
  rfl

theorem eq_words (hlen : buf.length = 16) :
    buf = (buf.drop 0).take 4 ++ (buf.drop 4).take 4 ++ (buf.drop 8).take 4 ++
      (buf.drop 12).take 4 := by
  match buf, hlen with
  | [_, _, _, _, _, _, _, _, _, _, _, _, _, _, _, _], _ => rfl

theorem take_four_eq (hlen : buf.length = 16) :
    (buf.drop 0).take 4 = (buf.drop 0).take 2 ++ (buf.drop 2).take 2 := by
  match buf, hlen with
  | [_, _, _, _, _, _, _, _, _, _, _, _, _, _, _, _], _ => rfl

theorem marshal_of_unmarshal (h : Header) (hlen : buf.length = 16) :
    ∃ h', h.unmarshal buf = .ok h' ∧ h'.marshal = buf := by
  obtain ⟨hhalf, hword⟩ := isControl_iff hlen.ge
  by_cases hcontrol : byteAt buf 0 &&& 0x80 ≠ 0
  · -- the code of the type has 15 bits, and the first bit is set again
    have hcode : uint16At buf 0 &&& 0x7FFF ||| 0x8000 = uint16At buf 0 := by
      have hlt := uint16At_lt buf 0
      have hge := hhalf.mp hcontrol
      have hmask : uint16At buf 0 &&& 0x7FFF = uint16At buf 0 % 2 ^ 15 :=
        Nat.and_two_pow_sub_one_eq_mod _ 15
      have hor := Nat.shiftLeft_add_eq_or_of_lt (i := 15)
        (Nat.mod_lt (uint16At buf 0) (by norm_num : 2 ^ 15 > 0)) 1
      rw [hmask, Nat.or_comm, show 0x8000 = 1 <<< 15 from rfl, ← hor, Nat.shiftLeft_eq]
      omega
    refine ⟨_, unmarshal_control h (by omega) hcontrol, ?_⟩
    simp only [marshal, if_true, CtrlType.code_ofCode, SubType.code_ofCode, hcode]
    rw [putBE_uint16At (by omega), putBE_uint16At (by omega), putBE_uint32At (by omega),
      putBE_uint32At (by omega), putBE_uint32At (by omega), ← take_four_eq hlen]
    exact (eq_words hlen).symm
  · have hseq : uint32At buf 0 &&& 0x7FFFFFFF &&& 0x7FFFFFFF = uint32At buf 0 := by
      have hlt : uint32At buf 0 < 2 ^ 31 := not_le.mp fun hge => hcontrol (hword.mpr hge)
      have hmask : uint32At buf 0 &&& 0x7FFFFFFF = uint32At buf 0 % 2 ^ 31 :=
        Nat.and_two_pow_sub_one_eq_mod _ 31
      rw [Nat.and_assoc, Nat.and_self, hmask, Nat.mod_eq_of_lt hlt]
    have hfield := fieldWord_of_parts (uint32At_lt buf 4)
    have hnumber : uint32At buf 4 &&& 0x03FFFFFF = uint32At buf 4 % 2 ^ 26 :=
      Nat.and_two_pow_sub_one_eq_mod _ 26
    refine ⟨_, unmarshal_data h (by omega) hcontrol, ?_⟩
    simp only [marshal, Bool.false_eq_true, if_false, hseq]
    rw [or_eq_fieldWord _ _ (by rw [PacketEncryption.code_ofCode]; omega),
      PacketPosition.code_ofCode,
      PacketEncryption.code_ofCode, hnumber, Nat.mod_mod, shift_and_three, shift_and_three,
        Nat.mod_mod, Nat.mod_mod,
      ← shift_and_three, ← shift_and_three, hfield, putBE_uint32At (by omega), putBE_uint32At
        (by omega), putBE_uint32At (by omega), putBE_uint32At (by omega)]
    exact (eq_words hlen).symm

/-- The fields of the header fit their widths, and only those of its kind are set. -/
structure OnWire (h : Header) : Prop where
  timestamp : h.timestamp < 2 ^ 32
  destination : h.destinationSocketID < 2 ^ 32
  control : h.isControl = true → h.controlType.code < 2 ^ 15 ∧ CtrlType.ofCode h.controlType.code =
    h.controlType ∧
    h.subType.code < 2 ^ 16 ∧ SubType.ofCode h.subType.code = h.subType ∧ h.typeSpecific < 2 ^ 32 ∧
    h.sequenceNumber = 0 ∧ h.packetPosition = .middle ∧ h.order = false ∧ h.encryption = .none ∧
    h.retransmitted = false ∧ h.messageNumber = 0
  data : h.isControl = false → h.sequenceNumber < 2 ^ 31 ∧ h.messageNumber < 2 ^ 26 ∧
    h.controlType = .handshake ∧
    h.subType = .none ∧ h.typeSpecific = 0

theorem length_marshal (h : Header) : h.marshal.length = 16 := by
  unfold marshal
  split_ifs <;> simp

theorem unmarshal_marshal_control (hwire : h.OnWire) (hkind : h.isControl = true) :
    unmarshal {} h.marshal = .ok h := by
  have hlen := length_marshal h
  have hts := hwire.timestamp
  have hdest := hwire.destination
  obtain ⟨hcode, htype, hsubCode, hsub, hspecific, hseq, hpos, horder, henc, hretr, hnumber⟩ :=
    hwire.control hkind
  have hbytes : h.marshal = putBE 2 (h.controlType.code ||| 0x8000) ++ (putBE 2 h.subType.code ++
      (putBE 4 h.typeSpecific ++ (putBE 4 h.timestamp ++ putBE 4 h.destinationSocketID))) := by
    simp only [marshal, hkind, if_true, List.append_assoc]
  have hor : h.controlType.code ||| 0x8000 = h.controlType.code + 2 ^ 15 := by
    rw [Nat.or_comm, show 0x8000 = 1 <<< 15 from rfl, ← Nat.shiftLeft_add_eq_or_of_lt hcode,
      Nat.shiftLeft_eq]
    omega
  have hfirst : uint16At h.marshal 0 = h.controlType.code + 2 ^ 15 := by
    rw [hbytes, uint16At_putBE_append, hor]
    omega
  have hmask : uint16At h.marshal 0 &&& 0x7FFF = h.controlType.code := by
    have hmod : uint16At h.marshal 0 &&& 0x7FFF = uint16At h.marshal 0 % 2 ^ 15 :=
      Nat.and_two_pow_sub_one_eq_mod _ 15
    rw [hmod, hfirst]
    omega
  have hbit := (isControl_iff hlen.ge).1.mpr (by omega)
  have hsecond : uint16At h.marshal 2 = h.subType.code := by
    rw [hbytes, uint16At_skip le_rfl, uint16At_putBE_append, Nat.mod_eq_of_lt hsubCode]
  have hword : uint32At h.marshal 4 = h.typeSpecific ∧ uint32At h.marshal 8 = h.timestamp ∧
      uint32At h.marshal 12 = h.destinationSocketID := by
    rw [hbytes]
    simp only [uint32At_skip, Nat.reduceLeDiff, Nat.reduceSub, uint32At_putBE_append,
      uint32At_putBE]
    exact ⟨Nat.mod_eq_of_lt hspecific, Nat.mod_eq_of_lt hts, Nat.mod_eq_of_lt hdest⟩
  obtain ⟨hword4, hword8, hword12⟩ := hword
  rw [unmarshal_control {} hlen.ge hbit, hmask, hsecond, hword4, hword8, hword12, htype, hsub]
  obtain ⟨isControl, controlType, subType, typeSpecific, sequenceNumber, position,
    order, encryption,
    retransmitted, messageNumber, timestamp, destination⟩ := h
  simp only at hkind hseq hpos horder henc hretr hnumber
  rw [hkind, hseq, hpos, horder, henc, hretr, hnumber]

theorem unmarshal_marshal_data (hwire : h.OnWire) (hkind : h.isControl = false) :
    unmarshal {} h.marshal = .ok h := by
  have hlen := length_marshal h
  have hts := hwire.timestamp
  have hdest := hwire.destination
  obtain ⟨hseq, hnumber, htype, hsub, hspecific⟩ := hwire.data hkind
  have hmaskSeq : h.sequenceNumber &&& 0x7FFFFFFF = h.sequenceNumber := by
    have hmod : h.sequenceNumber &&& 0x7FFFFFFF = h.sequenceNumber % 2 ^ 31 :=
      Nat.and_two_pow_sub_one_eq_mod _ 31
    rw [hmod, Nat.mod_eq_of_lt hseq]
  have hposition : h.packetPosition.code < 4 := by cases h.packetPosition <;> decide
  have hencryption : h.encryption.code < 4 := by cases h.encryption <;> decide
  set field := fieldWord h.packetPosition.code h.order h.encryption.code h.retransmitted
    h.messageNumber with hfield
  obtain ⟨hlt, hparts⟩ := parts_of_fieldWord h.order h.retransmitted hposition hencryption hnumber
  have hbytes : h.marshal = putBE 4 h.sequenceNumber ++ (putBE 4 field ++
      (putBE 4 h.timestamp ++ putBE 4 h.destinationSocketID)) := by
    simp only [marshal, hkind, Bool.false_eq_true, if_false, List.append_assoc, hmaskSeq,
      or_eq_fieldWord h.order h.retransmitted hencryption, Nat.mod_eq_of_lt hnumber, hfield]
  have hword : uint32At h.marshal 0 = h.sequenceNumber ∧ uint32At h.marshal 4 = field ∧
      uint32At h.marshal 8 = h.timestamp ∧ uint32At h.marshal 12 = h.destinationSocketID := by
    rw [hbytes]
    simp only [uint32At_skip, Nat.reduceLeDiff, Nat.reduceSub, uint32At_putBE_append,
      uint32At_putBE]
    exact ⟨Nat.mod_eq_of_lt (by omega), Nat.mod_eq_of_lt hlt, Nat.mod_eq_of_lt hts,
      Nat.mod_eq_of_lt hdest⟩
  obtain ⟨hword0, hword4, hword8, hword12⟩ := hword
  have hbit : ¬byteAt h.marshal 0 &&& 0x80 ≠ 0 := fun hset => by
    have hge := (isControl_iff hlen.ge).2.mp hset
    omega
  obtain ⟨hpos, horder, henc, hretr, hmsg⟩ := hparts
  rw [unmarshal_data {} hlen.ge hbit, hword0, hword4, hword8, hword12, hmaskSeq, hpos, horder, henc,
    hretr, hmsg, PacketPosition.ofCode_code, PacketEncryption.ofCode_code]
  obtain ⟨isControl, controlType, subType, typeSpecific, sequenceNumber, position,
    order, encryption,
    retransmitted, messageNumber, timestamp, destination⟩ := h
  simp only at hkind htype hsub hspecific
  rw [hkind, htype, hsub, hspecific]

theorem unmarshal_of_marshal (hwire : h.OnWire) : unmarshal {} h.marshal = .ok h := by
  cases hkind : h.isControl with
  | true => exact unmarshal_marshal_control hwire hkind
  | false => exact unmarshal_marshal_data hwire hkind

/-- **The header codec**: every string of 16 bytes is read as some header that writes it, whatever
the header was before; and every header that fits is what it writes is read as. -/
theorem header_codec_is_bijective :
    (∀ (h : Header) (buf : Bytes), buf.length = 16 → ∃ h', h.unmarshal buf = .ok h' ∧
      h'.marshal = buf) ∧
      ∀ h : Header, h.OnWire → unmarshal {} h.marshal = .ok h :=
  ⟨fun h _ hlen => marshal_of_unmarshal h hlen, fun _ hwire => unmarshal_of_marshal hwire⟩

/-- A string of ones, and the header of a retransmitted packet. -/
theorem header_codec_is_bijective_retransmission :
    let h : Header :=
      { sequenceNumber := 5, packetPosition := .first, order := true, encryption := .odd,
        retransmitted := true,
        messageNumber := 7, timestamp := 8, destinationSocketID := 9 }
    (∃ h', unmarshal {} (List.replicate 16 255) = .ok h' ∧ h'.marshal = List.replicate 16 255) ∧
      unmarshal {} h.marshal = .ok h :=
  ⟨header_codec_is_bijective.1 {} _ rfl,
    header_codec_is_bijective.2 _
      ⟨by decide, by decide, fun hc => absurd hc (by decide), fun _ => by decide⟩⟩

end Header

/-! ## Packets -/

namespace Packet

variable {p : Packet}

theorem parse_marshal (h : p.header.OnWire) : parse p.marshal = .ok p := by
  have hlen := Header.length_marshal p.header
  have hshort : ¬p.marshal.length < 16 := by
    rw [marshal, List.length_append, hlen]
    omega
  rw [parse, if_neg hshort, marshal, List.take_left' hlen, List.drop_left' hlen,
    Header.unmarshal_of_marshal h]

variable {rawdata : Bytes}

theorem marshal_of_parse (h : parse rawdata = .ok p) : p.marshal = rawdata := by
  unfold parse at h
  split_ifs at h with hshort
  have hlen : (rawdata.take 16).length = 16 := by
    rw [List.length_take]
    omega
  obtain ⟨header, hread, hwrite⟩ := Header.marshal_of_unmarshal {} hlen
  rw [hread] at h
  obtain rfl := Except.ok.inj h
  rw [marshal, hwrite, List.take_append_drop]

theorem exists_parse (h : 16 ≤ rawdata.length) : ∃ p, parse rawdata = .ok p := by
  have hlen : (rawdata.take 16).length = 16 := by
    rw [List.length_take]
    omega
  obtain ⟨header, hread, -⟩ := Header.marshal_of_unmarshal {} hlen
  rw [parse, if_neg (not_lt.mpr h), hread]
  exact ⟨_, rfl⟩

end Packet

end SrtGo
