import Mathlib.Data.Nat.Bitwise
import SrtGo.Crypto.KeyMaterial
import SrtGo.Packet.Handshake

/-!
# Handshakes on the wire

Reading a conclusion comes down to three things (`unmarshalCIF_eq_ok_iff`): the bytes after the
first 48 are a list of blocks, no two of them fall on the same bit of the mask of types seen,
and each is accepted in its turn.  A conclusion with any choice of extensions is read back as
it was written.  A block of a type the reader does not know changes nothing; whether it is
tolerated depends on the mask, which keeps the types modulo 32 only.
-/

namespace SrtGo

open Bytes

/-! ## Strings

A text is filled up with zeros to whole words, each of which is written backwards.
-/

theorem reverseWords_reverseWords (data : Bytes) (h : data.length % 4 = 0) :
    reverseWords (reverseWords data) = data := by
  fun_induction reverseWords data with
  | case1 a b c d rest ih =>
    have hrest : rest.length % 4 = 0 := by
      simp only [List.length_cons] at h
      omega
    rw [reverseWords, ih hrest]
  | case2 data hshort =>
    -- fewer than four bytes that make whole words are none
    match data with
    | [] => rfl
    | [_] | [_, _] | [_, _, _] => simp at h
    | a :: b :: c :: d :: rest => exact absurd rfl (hshort a b c d rest)

theorem length_reverseWords (data : Bytes) (h : data.length % 4 = 0) :
    (reverseWords data).length = data.length := by
  fun_induction reverseWords data with
  | case1 a b c d rest ih =>
    simp only [List.length_cons] at h ⊢
    rw [ih (by omega)]
  | case2 data hshort =>
    match data with
    | [] => rfl
    | [_] | [_, _] | [_, _, _] => simp at h
    | a :: b :: c :: d :: rest => exact absurd rfl (hshort a b c d rest)

theorem rdropWhile_append_zeros (sid : Bytes) (k : ℕ) :
    (sid ++ List.replicate k (0 : UInt8)).rdropWhile (· = 0) = sid.rdropWhile (· = 0) := by
  induction k with
  | zero => rw [List.replicate_zero, List.append_nil]
  | succ k ih =>
    rw [List.replicate_succ', ← List.append_assoc, List.rdropWhile_concat_pos _ _ _ (by simp), ih]

theorem marshalStreamID_eq (sid : Bytes) :
    ∃ k, (sid ++ List.replicate k (0 : UInt8)).length % 4 = 0 ∧ k < 4 ∧
      marshalStreamID sid = reverseWords (sid ++ List.replicate k 0) := by
  refine ⟨(if sid.length % 4 ≠ 0 then sid.length + (4 - sid.length % 4) else sid.length) -
    sid.length, ?_, ?_, rfl⟩
  · rw [List.length_append, List.length_replicate]
    split <;> omega
  · split <;> omega

theorem length_marshalStreamID (sid : Bytes) :
    (marshalStreamID sid).length % 4 = 0 ∧ (marshalStreamID sid).length < sid.length + 4 := by
  obtain ⟨k, hwords, hk, heq⟩ := marshalStreamID_eq sid
  rw [heq, length_reverseWords _ hwords]
  refine ⟨hwords, ?_⟩
  rw [List.length_append, List.length_replicate]
  omega

theorem unmarshalStreamID_marshalStreamID {sid : Bytes} (h : sid.getLast? ≠ some 0) :
    unmarshalStreamID (marshalStreamID sid) = sid := by
  obtain ⟨k, hwords, -, heq⟩ := marshalStreamID_eq sid
  rw [unmarshalStreamID, heq, reverseWords_reverseWords _ hwords, rdropWhile_append_zeros,
    List.rdropWhile_eq_self_iff]
  intro hne hlast
  rw [List.getLast?_eq_some_getLast hne] at h
  exact h (congrArg some (of_decide_eq_true hlast))

/-! ## Parts of the first bytes -/

theorem uint32At_take {off n : ℕ} (h : off + 4 ≤ n) (data : Bytes) :
    uint32At (data.take n) off = uint32At data off := by
  rw [uint32At, uint32At, List.drop_take, List.take_take, Nat.min_eq_left (by omega)]

theorem uint16At_take {off n : ℕ} (h : off + 2 ≤ n) (data : Bytes) :
    uint16At (data.take n) off = uint16At data off := by
  rw [uint16At, uint16At, List.drop_take, List.take_take, Nat.min_eq_left (by omega)]

theorem length_to4 {ip ip4 : Bytes} (h : to4 ip = some ip4) : ip4.length = 4 := by
  unfold to4 at h
  split at h
  · next hlen =>
      obtain rfl := Option.some.inj h
      exact hlen
  · split at h
    · next hlen =>
        obtain rfl := Option.some.inj h
        rw [List.length_drop, hlen.1]
    · cases h

theorem length_marshalIP (ip : Bytes) : (marshalIP ip).length = 16 := by
  unfold marshalIP
  cases to4 ip with
  | some ip4 => exact Crypto.Context.length_fit 16 ip4
  | none =>
    dsimp only
    split
    · assumption
    · simp

theorem unmarshalIP_marshalIP {ip ip4 : Bytes} (h : to4 ip = some ip4) :
    unmarshalIP (marshalIP ip) = ip4 := by
  have hlen := length_to4 h
  have hmarshal : marshalIP ip = ip4 ++ List.replicate 12 0 := by
    rw [marshalIP, h]
    simp only [fit, hlen, List.take_of_length_le (hlen.le.trans (by decide : 4 ≤ 16))]
  rw [unmarshalIP, hmarshal, List.drop_left' hlen, if_pos (by decide), List.take_left' hlen]

/-! ## The extension of the handshake proper -/

namespace CIFHandshakeExtension

structure Fits (c : CIFHandshakeExtension) : Prop where
  srtVersion : c.srtVersion < 2 ^ 32
  srtFlags : c.srtFlags < 2 ^ 32
  recvTSBPDDelay : c.recvTSBPDDelay < 2 ^ 16
  sendTSBPDDelay : c.sendTSBPDDelay < 2 ^ 16

theorem length_marshalCIF (c : CIFHandshakeExtension) : c.marshalCIF.length = 12 := by
  simp [marshalCIF]

theorem unmarshalCIF_marshalCIF {c : CIFHandshakeExtension} (h : c.Fits) :
    unmarshalCIF c.marshalCIF = .ok c := by
  have hversion : uint32At c.marshalCIF 0 = c.srtVersion := by
    rw [marshalCIF, uint32At_putBE_append, Nat.mod_eq_of_lt h.srtVersion]
  have hflags : uint32At c.marshalCIF 4 = c.srtFlags := by
    rw [marshalCIF, uint32At_skip le_rfl, uint32At_putBE_append, Nat.mod_eq_of_lt h.srtFlags]
  have hrecv : uint16At c.marshalCIF 8 = c.recvTSBPDDelay := by
    rw [marshalCIF, uint16At_skip (by decide), uint16At_skip (by decide), uint16At_putBE_append,
      Nat.mod_eq_of_lt h.recvTSBPDDelay]
  have hsend : uint16At c.marshalCIF 10 = c.sendTSBPDDelay := by
    rw [marshalCIF, uint16At_skip (by decide), uint16At_skip (by decide), uint16At_skip (by decide),
      ← List.append_nil (putBE 2 c.sendTSBPDDelay), uint16At_putBE_append,
      Nat.mod_eq_of_lt h.sendTSBPDDelay]
  rw [unmarshalCIF, if_neg (by rw [length_marshalCIF]; decide), hversion, hflags, hrecv, hsend]

end CIFHandshakeExtension

namespace CIFHandshake

/-! ## What the loop over the extensions accepts

The loop keeps a mask of the types seen, with the bit `kind % 32` for each of them.  Apart from the
mask it is a fold over the blocks.
-/

/-- The extensions in their order, without the check for duplicates. -/
def readExtensions (c : CIFHandshake) (exts : List Block) : Except String CIFHandshake :=
  exts.foldlM (fun c ext => c.readExtension (SubType.ofCode ext.kind) ext.body) c

/-- No two types fall on the same bit, and none on one that is set already. -/
def Once (seenExt : ℕ) (exts : List Block) : Prop :=
  (exts.map (·.kind % 32)).Nodup ∧ ∀ ext ∈ exts, seenExt.testBit (ext.kind % 32) = false

theorem and_bit_ne_zero_iff (seenExt kind : ℕ) :
    seenExt &&& 1 <<< (kind &&& 31) ≠ 0 ↔ seenExt.testBit (kind % 32) = true := by
  have hmask : kind &&& 31 = kind % 32 := Nat.and_two_pow_sub_one_eq_mod kind 5
  rw [hmask, Nat.one_shiftLeft, Nat.and_two_pow]
  cases seenExt.testBit (kind % 32) <;> simp

theorem testBit_or_bit (seenExt kind i : ℕ) :
    (seenExt ||| 1 <<< (kind &&& 31)).testBit i =
      (seenExt.testBit i || decide (kind % 32 = i)) := by
  have hmask : kind &&& 31 = kind % 32 := Nat.and_two_pow_sub_one_eq_mod kind 5
  rw [hmask, Nat.one_shiftLeft, Nat.testBit_or, Nat.testBit_two_pow]

variable {exts : List Block} {seenExt : ℕ} {ext : Block}

theorem once_cons : Once seenExt (ext :: exts) ↔
      seenExt.testBit (ext.kind % 32) = false ∧
        Once (seenExt ||| 1 <<< (ext.kind &&& 31)) exts := by
  simp only [Once, List.map_cons, List.nodup_cons, List.mem_map, not_exists, not_and, List.mem_cons,
    forall_eq_or_imp, testBit_or_bit, Bool.or_eq_false_iff, decide_eq_false_iff_not]
  constructor
  · rintro ⟨⟨hnew, hnodup⟩, hhead, hrest⟩
    exact ⟨hhead, hnodup, fun e he => ⟨hrest e he, fun heq => hnew e he heq.symm⟩⟩
  · rintro ⟨hhead, hnodup, hrest⟩
    exact ⟨⟨fun e he heq => (hrest e he).2 heq.symm, hnodup⟩, hhead, fun e he => (hrest e he).1⟩

variable {c c' : CIFHandshake} {kind : ℕ} {data data' : Bytes} {b : Block}

theorem foldlM_takeExtension : (∃ seenExt', exts.foldlM takeExtension (c, seenExt) = .ok (c',
    seenExt')) ↔
      Once seenExt exts ∧ c.readExtensions exts = .ok c' := by
  induction exts generalizing c seenExt with
  | nil =>
    simp only [List.foldlM_nil, readExtensions, Once, pure, Except.pure, Except.ok.injEq,
      Prod.mk.injEq]
    simp
  | cons ext exts ih =>
    have hread : c.readExtensions (ext :: exts) = .ok c' ↔
        ∃ c₁, c.readExtension (SubType.ofCode ext.kind) ext.body = .ok c₁ ∧
          c₁.readExtensions exts = .ok c' := by
      rw [readExtensions, List.foldlM_cons, Block.bind_eq_ok]
      rfl
    rw [once_cons, hread]
    simp only [List.foldlM_cons, Block.bind_eq_ok]
    constructor
    · rintro ⟨seenExt', ⟨c₁, seen₁⟩, hstep, hrest⟩
      -- a bit that is set already is an error
      unfold takeExtension at hstep
      by_cases hseen : seenExt &&& 1 <<< (ext.kind &&& 31) ≠ 0
      · simp only [if_pos hseen, reduceCtorEq] at hstep
      · simp only [if_neg hseen, Block.bind_eq_ok, Except.ok.injEq, Prod.mk.injEq] at hstep
        obtain ⟨c₂, hc₂, rfl, rfl⟩ := hstep
        obtain ⟨honce, hreads⟩ := ih.mp ⟨seenExt', hrest⟩
        rw [and_bit_ne_zero_iff, Bool.not_eq_true] at hseen
        exact ⟨⟨hseen, honce⟩, c₂, hc₂, hreads⟩
    · rintro ⟨⟨hseen, honce⟩, c₁, hc₁, hreads⟩
      obtain ⟨seenExt', hrest⟩ := ih.mpr ⟨honce, hreads⟩
      refine ⟨seenExt', (c₁, _), ?_, hrest⟩
      have hbit : ¬seenExt &&& 1 <<< (ext.kind &&& 31) ≠ 0 := by
        rw [and_bit_ne_zero_iff, hseen]
        simp
      unfold takeExtension
      simp only [if_neg hbit, hc₁]
      rfl

/-- The bytes are those of a conclusion that announces extensions and has some. -/
structure Extended (data : Bytes) : Prop where
  conclusion : HandshakeType.ofCode (uint32At data 20) = .conclusion
  announced : uint16At data 6 ≠ 0
  length : 48 < data.length

/-- What is accepted as a conclusion with extensions. -/
theorem unmarshalCIF_eq_ok_iff (h : Extended data) : c.unmarshalCIF data = .ok c' ↔
      uint16At data 4 ∈ [0, 2, 3, 4] ∧
        ∃ exts tail, (∀ ext ∈ exts, ext.Fits) ∧ tail.length < 4 ∧
          data.drop 48 = Block.marshalAll exts ++ tail ∧ Once 0 exts ∧
          (c.readBase data).readExtensions exts = .ok c' := by
  have hinduction : (c.readBase data).handshakeType ≠ .induction := by
    rw [show (c.readBase data).handshakeType = .conclusion from h.conclusion]
    decide
  have hconclusion : ¬(c.readBase data).handshakeType ≠ .conclusion := not_not.mpr h.conclusion
  have hannounced : ¬((c.readBase data).extensionField = 0 ∨ data.length ≤ 48) := by
    have hlength := h.length
    rintro (hzero | hshort)
    · exact h.announced hzero
    · omega
  have hshort : ¬data.length < 48 := by
    have hlength := h.length
    omega
  rw [unmarshalCIF, if_neg hshort]
  simp only [if_neg hinduction, if_neg hconclusion, if_neg hannounced]
  by_cases hencryption : (c.readBase data).encryptionField ∈ [0, 2, 3, 4]
  · rw [if_neg (not_not.mpr hencryption), Block.bind_eq_ok]
    -- each turn of the loop takes four bytes at least
    have hfuel : (data.drop 48).length ≤ data.length := by
      rw [List.length_drop]
      omega
    constructor
    · rintro ⟨⟨c₁, seenExt⟩, hloop, hok⟩
      obtain rfl := Except.ok.inj hok
      obtain ⟨exts, tail, hfits, htail, hdata, hfold⟩ := (Block.loop_eq_ok_iff hfuel).mp hloop
      obtain ⟨honce, hreads⟩ := foldlM_takeExtension.mp ⟨seenExt, hfold⟩
      exact ⟨hencryption, exts, tail, hfits, htail, hdata, honce, hreads⟩
    · rintro ⟨-, exts, tail, hfits, htail, hdata, honce, hreads⟩
      obtain ⟨seenExt, hfold⟩ := foldlM_takeExtension.mpr ⟨honce, hreads⟩
      exact ⟨(c', seenExt), (Block.loop_eq_ok_iff hfuel).mpr ⟨exts, tail, hfits, htail, hdata,
        hfold⟩, rfl⟩
  · rw [if_pos hencryption]
    constructor
    · intro herror
      cases herror
    · rintro ⟨hmem, -⟩
      exact absurd hmem hencryption

theorem unmarshalCIF_of_blocks {tail : Bytes} (h : Extended data) (hfits : ∀ ext ∈ exts, ext.Fits)
    (htail : tail.length < 4) (hdata : data.drop 48 = Block.marshalAll exts ++ tail) :
    c.unmarshalCIF data = .ok c' ↔
      uint16At data 4 ∈ [0, 2, 3, 4] ∧ Once 0 exts ∧ (c.readBase data).readExtensions exts =
        .ok c' := by
  rw [unmarshalCIF_eq_ok_iff h]
  constructor
  · rintro ⟨hencryption, exts', tail', hfits', htail', hdata', haccepted⟩
    -- the bytes determine the blocks
    have hsame : exts' = exts := by
      have hfuel : (data.drop 48).length ≤ data.length := by
        rw [List.length_drop]
        omega
      have hread := Block.parseAll_marshalAll hfits htail (hdata ▸ hfuel)
      have hread' := Block.parseAll_marshalAll hfits' htail' (hdata' ▸ hfuel)
      rw [← hread', ← hread, ← hdata, ← hdata']
    rw [hsame] at haccepted
    exact ⟨hencryption, haccepted⟩
  · rintro ⟨hencryption, haccepted⟩
    exact ⟨hencryption, exts, tail, hfits, htail, hdata, haccepted⟩

/-! ## A conclusion is read back

The writer drops an extension that is announced but empty (a stream ID, a filter, a group without
a number), so a well-formed handshake announces none of these.  A text that ends in a zero byte
would lose it.
-/

def Printable (size : ℕ) (text : Bytes) : Prop := text.length ≤ size ∧ text.getLast? ≠ some 0

instance (size : ℕ) (text : Bytes) : Decidable (Printable size text) :=
  inferInstanceAs (Decidable (_ ∧ _))

/-- A conclusion of version 5 whose fields fit their widths.  Every extension but the first may
be absent; its fields are then empty. -/
structure WellFormed (h : CIFHandshake) : Prop where
  version : h.version = 5
  handshakeType : h.handshakeType = .conclusion
  encryptionField : h.encryptionField ∈ [0, 2, 3, 4]
  initialPacketSequenceNumber : h.initialPacketSequenceNumber < 2 ^ 31
  maxTransmissionUnitSize : h.maxTransmissionUnitSize < 2 ^ 32
  maxFlowWindowSize : h.maxFlowWindowSize < 2 ^ 32
  srtSocketID : h.srtSocketID < 2 ^ 32
  synCookie : h.synCookie < 2 ^ 32
  hasHS : h.hasHS = true
  hs : ∃ hs, h.srtHS = some hs ∧ hs.Fits
  km : if h.hasKM then ∃ km, h.srtKM = some km ∧ km.WellFormed else h.srtKM = none
  sid : if h.hasSID then h.streamID ≠ [] ∧ Printable 512 h.streamID else h.streamID = []
  congestion : if h.hasCongestion then Printable 262140 h.congestionType else h.congestionType = []
  filter : if h.hasFilter then h.filterConfig ≠ [] ∧ Printable 262140 h.filterConfig
    else h.filterConfig = []
  group : if h.hasGroup then h.groupID ≠ 0 ∧ h.groupID < 2 ^ 32 ∧ h.groupType < 2 ^ 8 ∧
      h.groupFlags < 2 ^ 8 ∧ h.groupWeight < 2 ^ 16
    else h.groupID = 0 ∧ h.groupType = 0 ∧ h.groupFlags = 0 ∧ h.groupWeight = 0

section RoundTrip

variable {h : CIFHandshake}

theorem WellFormed.prepare_eq (hform : h.WellFormed) :
    h.prepare = { h with extensionField := h.extensionFlags } := by
  have hsid : (if h.streamID = [] then { h with hasSID := false } else h) = h := by
    have hform := hform.sid
    cases hflag : h.hasSID with
    | false =>
      rw [← hflag]
      exact ite_self h
    | true =>
      rw [hflag] at hform
      exact if_neg hform.1
  rw [prepare, hsid, if_pos ⟨hform.version, hform.handshakeType⟩]

theorem length_marshalBase (h : CIFHandshake) : h.marshalBase.length = 48 := by
  simp [marshalBase, length_marshalIP]

theorem readBase_marshalBase (c : CIFHandshake) {ip : Bytes} (hform : h.WellFormed)
    (hextension : h.extensionField < 2 ^ 16) (hip : to4 h.peerIP = some ip) (rest : Bytes) :
    c.readBase (h.marshalBase ++ rest) =
      { c with
        version := h.version
        encryptionField := h.encryptionField
        extensionField := h.extensionField
        initialPacketSequenceNumber := h.initialPacketSequenceNumber
        maxTransmissionUnitSize := h.maxTransmissionUnitSize
        maxFlowWindowSize := h.maxFlowWindowSize
        handshakeType := h.handshakeType
        srtSocketID := h.srtSocketID
        synCookie := h.synCookie
        peerIP := ip } := by
  have hencryption : h.encryptionField < 2 ^ 16 := by
    have hmem := hform.encryptionField
    simp only [List.mem_cons, List.not_mem_nil, or_false] at hmem
    omega
  -- both sides mask the number, so 31 bits survive
  have hnumber : h.initialPacketSequenceNumber &&& 0x7FFFFFFF = h.initialPacketSequenceNumber := by
    rw [Nat.and_two_pow_sub_one_eq_mod _ 31, Nat.mod_eq_of_lt hform.initialPacketSequenceNumber]
  have htype : HandshakeType.ofCode (h.handshakeType.code % 2 ^ 32) = h.handshakeType := by
    rw [hform.handshakeType]
    rfl
  have haddress : ((h.marshalBase ++ rest).drop 32).take 16 = marshalIP h.peerIP := by
    have hdrop : h.marshalBase.drop 32 = marshalIP h.peerIP := by
      simp only [marshalBase, ← List.append_assoc]
      exact List.drop_left' (by simp)
    rw [List.drop_append_of_le_length (by rw [length_marshalBase]; decide), hdrop]
    exact List.take_left' (length_marshalIP h.peerIP)
  have hversion : h.version < 2 ^ 32 := by
    rw [hform.version]
    decide
  unfold readBase
  rw [haddress, unmarshalIP_marshalIP hip]
  simp only [marshalBase, List.append_assoc]
  simp (disch := decide) only [uint32At_skip, uint16At_skip, Nat.reduceSub, uint32At_putBE_append,
    uint16At_putBE_append]
  rw [htype, hnumber, Nat.mod_eq_of_lt hversion, Nat.mod_eq_of_lt hencryption,
    Nat.mod_eq_of_lt hextension,
    Nat.mod_eq_of_lt (hform.initialPacketSequenceNumber.trans (by decide)),
    Nat.mod_eq_of_lt hform.maxTransmissionUnitSize, Nat.mod_eq_of_lt hform.maxFlowWindowSize,
    Nat.mod_eq_of_lt hform.srtSocketID, Nat.mod_eq_of_lt hform.synCookie, hnumber]

theorem readExtensions_append (h : c.readExtensions exts = .ok c') (exts' : List Block) :
    c.readExtensions (exts ++ exts') = c'.readExtensions exts' := by
  rw [readExtensions] at h
  rw [readExtensions, List.foldlM_append, h]
  rfl

theorem readExtensions_singleton (c : CIFHandshake) (ext : Block) :
    c.readExtensions [ext] = c.readExtension (SubType.ofCode ext.kind) ext.body := by
  rw [readExtensions, List.foldlM_cons]
  cases c.readExtension (SubType.ofCode ext.kind) ext.body <;> rfl

theorem Printable.fits {size : ℕ} {text : Bytes} (h : Printable size text) (hsize : size ≤ 262140)
    (hkind : kind < 2 ^ 16) : Block.Fits ⟨kind, marshalStreamID text⟩ := by
  obtain ⟨haligned, hlength⟩ := length_marshalStreamID text
  have hle := h.1
  refine ⟨hkind, haligned, ?_⟩
  dsimp only
  omega

/-! Each part of a well-formed handshake is a block that fits, or none, and what reading it
leaves in the handshake is what the writer had there. -/

theorem WellFormed.readSID (hform : h.WellFormed) (hflag : c.hasSID = false)
    (hempty : c.streamID = []) :
    c.readExtensions h.sidExtension =
      .ok { c with hasSID := h.hasSID, streamID := h.streamID } := by
  have hsid := hform.sid
  unfold sidExtension
  by_cases hpresent : h.hasSID = true
  · rw [if_pos hpresent] at hsid ⊢
    obtain ⟨haligned, hlength⟩ := length_marshalStreamID h.streamID
    have hle := hsid.2.1
    have hshort : ¬(marshalStreamID h.streamID).length > 512 := by omega
    rw [readExtensions_singleton, hpresent]
    show (if (marshalStreamID h.streamID).length > 512 then _ else _) = _
    rw [if_neg hshort, unmarshalStreamID_marshalStreamID hsid.2.2]
  · -- no block: the handshake keeps what it had, which is empty
    rw [if_neg hpresent] at hsid ⊢
    rw [Bool.not_eq_true] at hpresent
    rw [hpresent, hsid, ← hflag, ← hempty]
    rfl

theorem WellFormed.readCongestion (hform : h.WellFormed) (hflag : c.hasCongestion = false)
    (hempty : c.congestionType = []) : c.readExtensions h.congestionExtension =
      .ok { c with hasCongestion := h.hasCongestion, congestionType := h.congestionType } := by
  have hcongestion := hform.congestion
  unfold congestionExtension
  by_cases hpresent : h.hasCongestion = true
  · rw [if_pos hpresent] at hcongestion ⊢
    rw [readExtensions_singleton, hpresent]
    show Except.ok { c with hasCongestion := true, congestionType := _ } = _
    rw [unmarshalStreamID_marshalStreamID hcongestion.2]
  · rw [if_neg hpresent] at hcongestion ⊢
    rw [Bool.not_eq_true] at hpresent
    rw [hpresent, hcongestion, ← hflag, ← hempty]
    rfl

theorem WellFormed.readFilter (hform : h.WellFormed) (hflag : c.hasFilter = false)
    (hempty : c.filterConfig = []) : c.readExtensions h.filterExtension =
      .ok { c with hasFilter := h.hasFilter, filterConfig := h.filterConfig } := by
  have hfilter := hform.filter
  unfold filterExtension
  by_cases hpresent : h.hasFilter = true
  · rw [if_pos hpresent] at hfilter
    rw [if_pos ⟨hpresent, hfilter.1⟩, readExtensions_singleton, hpresent]
    show Except.ok { c with hasFilter := true, filterConfig := _ } = _
    rw [unmarshalStreamID_marshalStreamID hfilter.2.2]
  · rw [if_neg hpresent] at hfilter
    rw [if_neg (not_and_of_not_left _ hpresent)]
    rw [Bool.not_eq_true] at hpresent
    rw [hpresent, hfilter, ← hflag, ← hempty]
    rfl

theorem groupWord {groupType groupFlags groupWeight : ℕ} (hflags : groupFlags < 2 ^ 8)
    (hweight : groupWeight < 2 ^ 16) :
    groupType <<< 24 ||| groupFlags <<< 16 ||| groupWeight =
      groupType * 2 ^ 24 + groupFlags * 2 ^ 16 + groupWeight := by
  rw [Nat.or_assoc, ← Nat.shiftLeft_add_eq_or_of_lt hweight,
    ← Nat.shiftLeft_add_eq_or_of_lt (i := 24)]
  · simp only [Nat.shiftLeft_eq]
    omega
  · simp only [Nat.shiftLeft_eq]
    omega

theorem WellFormed.readGroup (hform : h.WellFormed) (hflag : c.hasGroup = false)
    (hid : c.groupID = 0)
    (htype : c.groupType = 0) (hflags : c.groupFlags = 0) (hweight : c.groupWeight = 0) :
    c.readExtensions h.groupExtension =
      .ok { c with
            hasGroup := h.hasGroup
            groupID := h.groupID
            groupType := h.groupType
            groupFlags := h.groupFlags
            groupWeight := h.groupWeight } := by
  have hgroup := hform.group
  unfold groupExtension
  by_cases hpresent : h.hasGroup = true
  · rw [if_pos hpresent] at hgroup
    obtain ⟨hne, hidLt, htypeLt, hflagsLt, hweightLt⟩ := hgroup
    rw [if_pos ⟨hpresent, hne⟩, groupWord hflagsLt hweightLt]
    set dataword := h.groupType * 2 ^ 24 + h.groupFlags * 2 ^ 16 + h.groupWeight with hword
    have hlong : (putBE 4 h.groupID ++ putBE 4 dataword).length ≥ 8 := by simp
    have hdata : uint32At (putBE 4 h.groupID ++ putBE 4 dataword) 4 = dataword := by
      rw [uint32At_skip le_rfl, uint32At_putBE, Nat.mod_eq_of_lt (by omega)]
    rw [readExtensions_singleton, hpresent]
    show Except.ok (c.readGroup _) = _
    rw [CIFHandshake.readGroup, if_pos hlong, hdata, uint32At_putBE_append, Nat.mod_eq_of_lt hidLt]
    simp only [Nat.shiftRight_eq_div_pow]
    rw [show dataword / 2 ^ 24 % 2 ^ 8 = h.groupType by omega, show dataword / 2 ^ 16 % 2 ^ 8 =
        h.groupFlags by omega, show dataword % 2 ^ 16 = h.groupWeight by omega]
  · rw [if_neg hpresent] at hgroup
    rw [if_neg (not_and_of_not_left _ hpresent)]
    rw [Bool.not_eq_true] at hpresent
    obtain ⟨hid', htype', hflags', hweight'⟩ := hgroup
    rw [hpresent.trans hflag.symm, hid'.trans hid.symm, htype'.trans htype.symm,
      hflags'.trans hflags.symm, hweight'.trans hweight.symm]
    rfl

theorem code_hsType_lt (h : CIFHandshake) : h.hsType.code < 2 ^ 16 := by
  unfold hsType
  cases h.isRequest <;> decide

theorem code_kmType_lt (h : CIFHandshake) : h.kmType.code < 2 ^ 16 := by
  unfold kmType
  cases h.isRequest <;> decide

theorem WellFormed.readHS (hform : h.WellFormed) (c : CIFHandshake) :
    ∃ body, h.hsExtension = .ok [⟨h.hsType.code, body⟩] ∧ Block.Fits ⟨h.hsType.code, body⟩ ∧
      c.readExtensions [⟨h.hsType.code, body⟩] =
        .ok { c with isRequest := h.isRequest, hasHS := h.hasHS, srtHS := h.srtHS } := by
  obtain ⟨hs, hsome, hfits⟩ := hform.hs
  have hlength := CIFHandshakeExtension.length_marshalCIF hs
  refine ⟨hs.marshalCIF, ?_, ⟨h.code_hsType_lt, ?_, ?_⟩, ?_⟩
  · rw [hsExtension, if_pos hform.hasHS, hsome]
  · rw [hlength]
  · rw [hlength]
    decide
  · have hread (isRequest : Bool) : c.readHS isRequest hs.marshalCIF =
        .ok { c with isRequest := isRequest, hasHS := h.hasHS, srtHS := h.srtHS } := by
      rw [CIFHandshake.readHS, if_neg (not_not.mpr hlength),
        CIFHandshakeExtension.unmarshalCIF_marshalCIF hfits, hform.hasHS, hsome]
    rw [readExtensions_singleton, hsType]
    cases h.isRequest with
    | true => exact hread true
    | false => exact hread false

theorem length_marshalCIF_keyMaterial {km : CIFKeyMaterial} (hkm : km.WellFormed) :
    km.marshalCIF.length % 4 = 0 ∧ km.marshalCIF.length / 4 < 2 ^ 16 := by
  have hwrap := hkm.wrap
  have hlength : km.marshalCIF.length = 16 + km.sLen + km.wrap.length := by
    rw [CIFKeyMaterial.marshalCIF, if_neg (not_not.mpr hkm.error)]
    simp only [List.length_append, length_putBE, Crypto.Context.length_fit]
  rw [hlength, hkm.sLen, hwrap, PacketEncryption.keyCount]
  rcases hkm.kLen with hk | hk | hk <;> rw [hk] <;> split <;> decide

theorem WellFormed.readKM (hform : h.WellFormed) (hrequest : c.isRequest = h.isRequest)
    (hflag : c.hasKM = false) (hempty : c.srtKM = none) :
    ∃ exts, h.kmExtension = .ok exts ∧ (∀ ext ∈ exts, ext.Fits) ∧
      (exts.map Block.kind).Sublist [h.kmType.code] ∧
      c.readExtensions exts = .ok { c with hasKM := h.hasKM, srtKM := h.srtKM } := by
  have hkm := hform.km
  unfold kmExtension
  by_cases hpresent : h.hasKM = true
  · rw [if_pos hpresent] at hkm ⊢
    obtain ⟨km, hsome, hwell⟩ := hkm
    obtain ⟨haligned, hshort⟩ := length_marshalCIF_keyMaterial hwell
    rw [hsome]
    refine ⟨_, rfl, ?_, ?_, ?_⟩
    · intro ext hext
      obtain rfl := List.mem_singleton.mp hext
      exact ⟨h.code_kmType_lt, haligned, hshort⟩
    · exact List.Sublist.refl _
    · have hread (isRequest : Bool) (hsame : c.isRequest = isRequest) :
          c.readKM isRequest km.marshalCIF = .ok { c with hasKM := h.hasKM, srtKM := some km } := by
        rw [CIFHandshake.readKM, CIFKeyMaterial.unmarshalCIF_marshalCIF hwell, hpresent, ← hsame]
      rw [readExtensions_singleton, kmType]
      cases hside : h.isRequest with
      | true => exact hread true (hrequest.trans hside)
      | false => exact hread false (hrequest.trans hside)
  · rw [if_neg hpresent] at hkm ⊢
    rw [Bool.not_eq_true] at hpresent
    refine ⟨[], rfl, by simp, by simp, ?_⟩
    rw [hpresent.trans hflag.symm, hkm.trans hempty.symm]
    rfl

theorem WellFormed.fits_config (hform : h.WellFormed) :
    ∀ ext ∈ h.sidExtension ++ (h.congestionExtension ++ (h.filterExtension ++ h.groupExtension)),
      ext.Fits := by
  intro ext hext
  simp only [List.mem_append, sidExtension, congestionExtension, filterExtension,
    groupExtension] at hext
  rcases hext with hext | hext | hext | hext
  · have hsid := hform.sid
    split at hext
    · next hpresent =>
        rw [if_pos hpresent] at hsid
        obtain rfl := List.mem_singleton.mp hext
        exact hsid.2.fits (by decide) (by decide)
    · cases hext
  · have hcongestion := hform.congestion
    split at hext
    · next hpresent =>
        rw [if_pos hpresent] at hcongestion
        obtain rfl := List.mem_singleton.mp hext
        exact hcongestion.fits le_rfl (by decide)
    · cases hext
  · have hfilter := hform.filter
    split at hext
    · next hpresent =>
        rw [if_pos hpresent.1] at hfilter
        obtain rfl := List.mem_singleton.mp hext
        exact hfilter.2.fits le_rfl (by decide)
    · cases hext
  · split at hext
    · obtain rfl := List.mem_singleton.mp hext
      refine ⟨show 8 < 2 ^ 16 by decide, ?_, ?_⟩
      all_goals simp
    · cases hext

theorem ite_singleton_sublist {p : Prop} [Decidable p] (h : ext.kind = kind) :
    ((if p then [ext] else []).map Block.kind).Sublist [kind] := by
  split
  · rw [List.map_singleton, h]
  · exact List.nil_sublist _

theorem WellFormed.once {hs : Bytes} {km : List Block} (h : CIFHandshake)
    (hkm : (km.map Block.kind).Sublist [h.kmType.code]) :
    Once 0 (⟨h.hsType.code, hs⟩ :: (h.sidExtension ++ (h.congestionExtension ++
      (h.filterExtension ++ (h.groupExtension ++ km))))) := by
  refine ⟨?_, fun ext _ => Nat.zero_testBit _⟩
  have hkinds : ((⟨h.hsType.code, hs⟩ :: (h.sidExtension ++ (h.congestionExtension ++
      (h.filterExtension ++ (h.groupExtension ++ km))))).map Block.kind).Sublist
      ([h.hsType.code] ++ ([5] ++ ([6] ++ ([7] ++ ([8] ++ [h.kmType.code]))))) := by
    simp only [List.map_cons, List.map_append]
    refine List.Sublist.cons_cons _ ?_
    refine (ite_singleton_sublist rfl).append ?_
    refine (ite_singleton_sublist rfl).append ?_
    refine (ite_singleton_sublist rfl).append ?_
    exact (ite_singleton_sublist rfl).append hkm
  -- also modulo 32 the types the writer uses are distinct
  have hall : (([h.hsType.code] ++ ([5] ++ ([6] ++ ([7] ++ ([8] ++ [h.kmType.code]))))).map
      (· % 32)).Nodup := by
    unfold hsType kmType
    cases h.isRequest <;> decide
  have hsub := (hkinds.map (· % 32)).nodup hall
  rwa [List.map_map] at hsub

theorem extensionFlags_of_hasHS (hHS : h.hasHS = true) : h.extensionFlags ≠ 0 ∧
    h.extensionFlags < 2 ^ 16 := by
  rw [extensionFlags, hHS]
  by_cases hconfig : h.hasSID = true ∨ h.hasCongestion = true ∨ h.hasFilter = true ∨
    h.hasGroup = true
  · rw [if_pos hconfig]
    cases h.hasKM <;> decide
  · rw [if_neg hconfig]
    cases h.hasKM <;> decide

/-- **Round trip**: a conclusion is read back as it was written, with the extension field that
writing computes and the four bytes of its address. -/
theorem conclusion_round_trip {ip : Bytes} (hform : h.WellFormed) (hip : to4 h.peerIP = some ip) :
    ∃ data, h.marshalCIF = .ok ({ h with extensionField := h.extensionFlags }, data) ∧
      unmarshalCIF {} data = .ok { h with extensionField := h.extensionFlags, peerIP := ip } := by
  set h' : CIFHandshake := { h with extensionField := h.extensionFlags } with hh'
  have hform' : h'.WellFormed := { hform with }
  obtain ⟨hannounced, hextension⟩ := extensionFlags_of_hasHS hform.hasHS
  -- the handshake fills up block by block
  let c₀ : CIFHandshake :=
    { version := h'.version
      encryptionField := h'.encryptionField
      extensionField := h'.extensionField
      initialPacketSequenceNumber := h'.initialPacketSequenceNumber
      maxTransmissionUnitSize := h'.maxTransmissionUnitSize
      maxFlowWindowSize := h'.maxFlowWindowSize
      handshakeType := h'.handshakeType
      srtSocketID := h'.srtSocketID
      synCookie := h'.synCookie
      peerIP := ip }
  obtain ⟨hs, hhs, hhsFits, hreadHS⟩ := hform'.readHS c₀
  have hreadSID :=
    hform'.readSID
    (c := { c₀ with isRequest := h'.isRequest, hasHS := h'.hasHS, srtHS := h'.srtHS })
    rfl rfl
  have hreadCongestion := hform'.readCongestion (c := { c₀ with
    isRequest := h'.isRequest, hasHS := h'.hasHS, srtHS := h'.srtHS, hasSID := h'.hasSID
    streamID := h'.streamID }) rfl rfl
  have hreadFilter := hform'.readFilter (c := { c₀ with
    isRequest := h'.isRequest, hasHS := h'.hasHS, srtHS := h'.srtHS, hasSID := h'.hasSID
    streamID := h'.streamID, hasCongestion := h'.hasCongestion, congestionType :=
      h'.congestionType }) rfl rfl
  have hreadGroup := hform'.readGroup (c := { c₀ with
    isRequest := h'.isRequest, hasHS := h'.hasHS, srtHS := h'.srtHS, hasSID := h'.hasSID
    streamID := h'.streamID, hasCongestion := h'.hasCongestion, congestionType := h'.congestionType
    hasFilter := h'.hasFilter, filterConfig := h'.filterConfig }) rfl rfl rfl rfl rfl
  obtain ⟨km, hkm, hkmFits, hkmKind, hreadKM⟩ := hform'.readKM (c := { h' with
    peerIP := ip, hasKM := false, srtKM := none }) rfl rfl rfl
  set exts := [⟨h'.hsType.code, hs⟩] ++ (h'.sidExtension ++ (h'.congestionExtension ++
    (h'.filterExtension ++ (h'.groupExtension ++ km)))) with hexts
  have hfits : ∀ ext ∈ exts, ext.Fits := by
    intro ext hext
    have hconfig := hform'.fits_config ext
    simp only [hexts, List.mem_append, List.mem_singleton] at hext hconfig
    rcases hext with rfl | hext | hext | hext | hext | hext
    · exact hhsFits
    · exact hconfig (.inl hext)
    · exact hconfig (.inr (.inl hext))
    · exact hconfig (.inr (.inr (.inl hext)))
    · exact hconfig (.inr (.inr (.inr hext)))
    · exact hkmFits ext hext
  have hbase := fun rest => readBase_marshalBase {} hform' hextension hip rest
  refine ⟨h'.marshalBase ++ Block.marshalAll exts, ?_, ?_⟩
  · rw [marshalCIF, hform.prepare_eq]
    simp only [← hh', hhs, hkm]
    rfl
  · have hdrop : (h'.marshalBase ++ Block.marshalAll exts).drop 48 =
        Block.marshalAll exts ++ [] := by
      rw [List.drop_left' h'.length_marshalBase, List.append_nil]
    have hextended : Extended (h'.marshalBase ++ Block.marshalAll exts) := by
      refine ⟨?_, ?_, ?_⟩
      · have htype := congrArg CIFHandshake.handshakeType (hbase (Block.marshalAll exts))
        exact htype.trans hform.handshakeType
      · have hfield := congrArg CIFHandshake.extensionField (hbase (Block.marshalAll exts))
        exact hfield.trans_ne hannounced
      · rw [List.length_append, h'.length_marshalBase, hexts, Block.marshalAll_append]
        simp only [Block.marshalAll_cons, List.length_append, Block.length_marshal]
        omega
    refine (unmarshalCIF_of_blocks hextended hfits (by decide) hdrop).mpr ⟨?_, ?_, ?_⟩
    · have hfield : uint16At (h'.marshalBase ++ Block.marshalAll exts) 4 = h.encryptionField :=
        congrArg CIFHandshake.encryptionField (hbase (Block.marshalAll exts))
      rw [hfield]
      exact hform.encryptionField
    · exact WellFormed.once h' hkmKind
    · rw [hbase, hexts, readExtensions_append hreadHS, readExtensions_append hreadSID,
        readExtensions_append hreadCongestion, readExtensions_append hreadFilter,
        readExtensions_append hreadGroup]
      exact hreadKM

def fullConclusion : CIFHandshake :=
  { version := 5
    encryptionField := 2
    initialPacketSequenceNumber := 7
    maxTransmissionUnitSize := 1500
    maxFlowWindowSize := 8192
    handshakeType := .conclusion
    srtSocketID := 9
    synCookie := 11
    peerIP := v4InV6 ++ [127, 0, 0, 1]
    isRequest := true
    hasHS := true
    srtHS := some
      { srtVersion := 0x10500, srtFlags := 0xbf, recvTSBPDDelay := 120, sendTSBPDDelay := 80 }
    hasKM := true
    srtKM := some
      { version := 1
        packetType := 2
        sign := 0x2029
        keyBasedEncryption := .even
        cipher := 2
        streamEncapsulation := 2
        sLen := 16
        kLen := 16
        salt := List.replicate 16 3
        wrap := List.replicate 24 5 }
    hasSID := true
    streamID := [108, 105, 118, 101, 49]
    hasCongestion := true
    congestionType := []
    hasFilter := true
    filterConfig := [102, 101, 99]
    hasGroup := true
    groupID := 13
    groupType := 2
    groupWeight := 100 }

/-- The conclusion with every extension is read back. -/
theorem conclusion_round_trip_full :
    ∃ data, fullConclusion.marshalCIF = .ok ({ fullConclusion with extensionField := 7 }, data) ∧
      unmarshalCIF {} data =
        .ok { fullConclusion with extensionField := 7, peerIP := [127, 0, 0, 1] } :=
  conclusion_round_trip
    { version := rfl
      handshakeType := rfl
      encryptionField := by decide
      initialPacketSequenceNumber := by decide
      maxTransmissionUnitSize := by decide
      maxFlowWindowSize := by decide
      srtSocketID := by decide
      synCookie := by decide
      hasHS := rfl
      hs := ⟨_, rfl, by decide, by decide, by decide, by decide⟩
      km := ⟨_, rfl, rfl, rfl, rfl, rfl, rfl,
        by decide, rfl, by decide, rfl, by decide, rfl, rfl, rfl⟩
      sid := by decide
      congestion := by decide
      filter := by decide
      group := by decide }
    rfl

end RoundTrip

/-! ## Blocks of an unknown type

A block is inserted into an accepted conclusion where one of its blocks ends.
-/

def extensions (data : Bytes) : List Block := Block.parseAll data.length (data.drop 48)

/-- Where the first `n` extension blocks end. -/
def boundary (data : Bytes) (n : ℕ) : ℕ := 48 + (Block.marshalAll ((extensions data).take n)).length

def insertBlock (data : Bytes) (n : ℕ) (b : Block) : Bytes :=
  data.take (boundary data n) ++ (b.marshal ++ data.drop (boundary data n))

def knownTypes : List ℕ := [1, 2, 3, 4, 5, 6, 7, 8]

theorem readExtension_unknown (c : CIFHandshake) (h : kind ∉ knownTypes) (body : Bytes) :
    c.readExtension (SubType.ofCode kind) body = .ok c := by
  unfold SubType.ofCode
  split
  case h_1 => rfl
  case h_10 => rfl
  all_goals exact absurd (by decide) h

theorem readExtensions_insert (c : CIFHandshake) (before after : List Block)
    (h : b.kind ∉ knownTypes) :
    c.readExtensions (before ++ b :: after) = c.readExtensions (before ++ after) := by
  simp only [readExtensions, List.foldlM_append, List.foldlM_cons, readExtension_unknown _ h]
  rfl

theorem once_insert {before after : List Block} (h : Once 0 (before ++ after)) :
    Once 0 (before ++ b :: after) ↔ ∀ ext ∈ before ++ after, ext.kind % 32 ≠ b.kind % 32 := by
  simp only [Once, Nat.zero_testBit, implies_true, and_true, List.map_append, List.map_cons] at h ⊢
  rw [List.nodup_middle, List.nodup_cons, ← List.map_append] at *
  simp only [List.mem_map, not_exists, not_and]
  exact ⟨And.left, fun hnew => ⟨hnew, h⟩⟩

theorem readBase_congr (h : data'.take 48 = data.take 48) (c : CIFHandshake) :
    c.readBase data' = c.readBase data := by
  have hword : ∀ off, off + 4 ≤ 48 → uint32At data' off = uint32At data off := by
    intro off hoff
    rw [← uint32At_take hoff, h, uint32At_take hoff]
  have hhalf : ∀ off, off + 2 ≤ 48 → uint16At data' off = uint16At data off := by
    intro off hoff
    rw [← uint16At_take hoff, h, uint16At_take hoff]
  have haddress : (data'.drop 32).take 16 = (data.drop 32).take 16 := by
    have hdrop := congrArg (List.drop 32) h
    rwa [List.drop_take, List.drop_take] at hdrop
  unfold readBase
  rw [hword 0 (by decide), hhalf 4 (by decide), hhalf 6 (by decide), hword 8 (by decide),
    hword 12 (by decide), hword 16 (by decide), hword 20 (by decide), hword 24 (by decide),
    hword 28 (by decide), haddress]

theorem Extended.congr (h : Extended data) (hbase : data'.take 48 = data.take 48)
    (hlength : 48 < data'.length) : Extended data' := by
  refine ⟨?_, ?_, hlength⟩
  · rw [← uint32At_take (n := 48) (by decide), hbase, uint32At_take (by decide)]
    exact h.conclusion
  · rw [← uint16At_take (n := 48) (by decide), hbase, uint16At_take (by decide)]
    exact h.announced

/-- An unknown block at a boundary is skipped exactly when its type differs modulo 32 from
the type of every block there is. -/
theorem unknown_extension_is_skipped_iff {c c' : CIFHandshake} {data : Bytes} {b : Block}
    (hextended : Extended data) (haccepted : c.unmarshalCIF data = .ok c') (hfit : b.Fits)
    (hunknown : b.kind ∉ knownTypes) (n : ℕ) :
    c.unmarshalCIF (insertBlock data n b) = .ok c' ↔
      ∀ ext ∈ extensions data, ext.kind % 32 ≠ b.kind % 32 := by
  obtain ⟨hencryption, exts, tail, hfits, htail, hdata, honce, hreads⟩ :=
    (unmarshalCIF_eq_ok_iff hextended).mp haccepted
  have hexts : extensions data = exts := by
    rw [extensions, hdata]
    apply Block.parseAll_marshalAll hfits htail
    rw [← hdata, List.length_drop]
    omega
  set before := exts.take n
  set after := exts.drop n
  have hsplit : exts = before ++ after := (List.take_append_drop n exts).symm
  -- the first bytes stay, and the new block stands between the two parts of the list
  obtain ⟨base, hbaseEq⟩ : ∃ base, base = data.take 48 := ⟨_, rfl⟩
  have hlength : base.length = 48 := by
    have hlong := hextended.length
    rw [hbaseEq, List.length_take]
    omega
  have hbytes : data = (base ++ Block.marshalAll before) ++ (Block.marshalAll after ++ tail) := by
    rw [List.append_assoc, ← List.append_assoc (Block.marshalAll before), ← Block.marshalAll_append,
      ← hsplit, ← hdata, hbaseEq, List.take_append_drop]
  have hboundary : boundary data n = (base ++ Block.marshalAll before).length := by
    rw [boundary, hexts, List.length_append, hlength]
  have hinsert : insertBlock data n b = base ++
      (Block.marshalAll (before ++ b :: after) ++ tail) := by
    have htake := congrArg (List.take (boundary data n)) hbytes
    have hdrop := congrArg (List.drop (boundary data n)) hbytes
    rw [hboundary, List.take_left] at htake
    rw [hboundary, List.drop_left] at hdrop
    rw [insertBlock, hboundary, htake, hdrop, Block.marshalAll_append, Block.marshalAll_cons]
    simp only [List.append_assoc]
  have hbase : (insertBlock data n b).take 48 = data.take 48 := by
    rw [hinsert, ← hbaseEq]
    exact List.take_left' hlength
  have hextended' : Extended (insertBlock data n b) := by
    refine hextended.congr hbase ?_
    rw [hinsert, List.length_append, hlength, Block.marshalAll_append, Block.marshalAll_cons]
    simp only [List.length_append, Block.length_marshal]
    omega
  have hfits' : ∀ ext ∈ before ++ b :: after, ext.Fits := by
    intro ext hext
    rw [List.mem_append, List.mem_cons] at hext
    rcases hext with hmem | rfl | hmem
    · exact hfits ext (hsplit ▸ List.mem_append_left _ hmem)
    · exact hfit
    · exact hfits ext (hsplit ▸ List.mem_append_right _ hmem)
  have hdata' : (insertBlock data n b).drop 48 = Block.marshalAll (before ++ b :: after) ++
      tail := by
    rw [hinsert]
    exact List.drop_left' hlength
  have hencryption' : uint16At (insertBlock data n b) 4 ∈ [0, 2, 3, 4] := by
    rwa [← uint16At_take (n := 48) (by decide), hbase, uint16At_take (by decide)]
  rw [unmarshalCIF_of_blocks hextended' hfits' htail hdata', readBase_congr hbase,
    readExtensions_insert _ _ _ hunknown, ← hsplit, hexts, hsplit, once_insert (hsplit ▸ honce)]
  constructor
  · rintro ⟨-, hnew, -⟩
    exact hnew
  · intro hnew
    exact ⟨hencryption', hnew, hsplit ▸ hreads⟩

def plainConclusion : Bytes :=
  putBE 4 5 ++ putBE 4 1 ++ putBE 4 7 ++ putBE 4 1500 ++ putBE 4 8192 ++ putBE 4 0xFFFFFFFF ++
    putBE 4 9 ++ putBE 4 11 ++ List.replicate 16 0 ++ Block.marshal ⟨1, List.replicate 12 0⟩

def plainHandshake : CIFHandshake :=
  { version := 5
    extensionField := 1
    initialPacketSequenceNumber := 7
    maxTransmissionUnitSize := 1500
    maxFlowWindowSize := 8192
    handshakeType := .conclusion
    srtSocketID := 9
    synCookie := 11
    peerIP := [0, 0, 0, 0]
    isRequest := true
    hasHS := true
    srtHS := some {} }

theorem unmarshalCIF_plainConclusion : unmarshalCIF {} plainConclusion = .ok plainHandshake := by
  decide +kernel

/-- A block of the unknown type 34 after the handshake extension is skipped. -/
theorem unknown_extension_is_skipped_thirty_four :
    unmarshalCIF {} (insertBlock plainConclusion 1 ⟨34, [1, 2, 3, 4]⟩) = .ok plainHandshake := by
  have hextended : Extended plainConclusion :=
    ⟨by decide +kernel, by decide +kernel, by decide +kernel⟩
  apply (unknown_extension_is_skipped_iff hextended unmarshalCIF_plainConclusion ⟨?_, ?_,
    ?_⟩ ?_ 1).mpr
  all_goals decide +kernel

/-- A block of the unknown type 33 after it is taken for a second handshake extension. -/
theorem unknown_extension_taken_for_duplicate :
    unmarshalCIF {} plainConclusion = .ok plainHandshake ∧ 33 ∉ knownTypes ∧
      unmarshalCIF {} (insertBlock plainConclusion 1 ⟨33, []⟩) =
        .error "packet: duplicate extension type 33" := by
  refine ⟨unmarshalCIF_plainConclusion, by decide, ?_⟩
  decide +kernel

end CIFHandshake

end SrtGo
