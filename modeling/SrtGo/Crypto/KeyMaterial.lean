import SrtGo.Crypto.Context

/-!
# Key material on its way

What `marshalKM` writes, `unmarshalCIF` reads and `unmarshalKM` installs: with the same
passphrase and key length, a slot travels from one context to the other unharmed, and
the salt and the cipher mode go with it.
-/

namespace SrtGo

open Bytes

namespace CIFKeyMaterial

structure WellFormed (c : CIFKeyMaterial) : Prop where
  error : c.error = 0
  s : c.s = 0
  version : c.version = 1
  packetType : c.packetType = 2
  sign : c.sign = 0x2029
  key : c.keyBasedEncryption ≠ .none
  index : c.keyEncryptionKeyIndex = 0
  cipher : c.cipher = 2 ∧ c.authentication = 0 ∨ c.cipher = 4 ∧ c.authentication = 1
  streamEncapsulation : c.streamEncapsulation = 2
  kLen : c.kLen = 16 ∨ c.kLen = 24 ∨ c.kLen = 32
  sLen : c.sLen = 16
  salt : c.salt.length = 16
  wrap : c.wrap.length = c.keyBasedEncryption.keyCount * c.kLen + 8

theorem unmarshalCIF_marshalCIF {c : CIFKeyMaterial} (h : c.WellFormed) :
    unmarshalCIF c.marshalCIF = .ok c := by
  obtain ⟨error, s, version, packetType, sign, key, index, cipher, authentication, encapsulation,
      sLen, kLen, salt, wrap⟩ := c
  obtain ⟨rfl, rfl, rfl, rfl, rfl, hkey, rfl, hcipher, rfl, hkLen, rfl, hsalt, hwrap⟩ := h
  simp only at hkey hcipher hkLen hsalt hwrap
  have hdata : marshalCIF ⟨0, 0, 1, 2, 0x2029, key, 0, cipher, authentication, 2, 16, kLen,
    salt, wrap⟩ =
      [0x12, 0x20, 0x29, UInt8.ofNat key.code, 0, 0, 0, 0, UInt8.ofNat cipher,
        UInt8.ofNat authentication, 2, 0, 0, 0, 4, UInt8.ofNat (kLen / 4)] ++ (salt ++ wrap) := by
    have hfit : fit 16 salt = salt := by simp [fit, hsalt, List.take_of_length_le]
    simp [marshalCIF, putBE, hfit]
  rw [hdata]
  set header : Bytes := [0x12, 0x20, 0x29, UInt8.ofNat key.code, 0, 0, 0, 0, UInt8.ofNat cipher,
    UInt8.ofNat authentication, 2, 0, 0, 0, 4, UInt8.ofNat (kLen / 4)]
  have hbyte0 : byteAt (header ++ (salt ++ wrap)) 0 = 18 := rfl
  have hsign : uint16At (header ++ (salt ++ wrap)) 1 = 0x2029 :=
    show readBE [0x20, 0x29] = 0x2029 by decide
  have hbyte3 : PacketEncryption.ofCode (byteAt (header ++ (salt ++ wrap)) 3) = key := by
    cases key <;> rfl
  have hindex : uint32At (header ++ (salt ++ wrap)) 4 = 0 :=
    show readBE [0, 0, 0, 0] = 0 by decide
  have hbyte8 : byteAt (header ++ (salt ++ wrap)) 8 = cipher := by
    rcases hcipher with ⟨rfl, -⟩ | ⟨rfl, -⟩ <;> rfl
  have hbyte9 : byteAt (header ++ (salt ++ wrap)) 9 = authentication := by
    rcases hcipher with ⟨-, rfl⟩ | ⟨-, rfl⟩ <;> rfl
  have hbyte10 : byteAt (header ++ (salt ++ wrap)) 10 = 2 := rfl
  have hbyte14 : byteAt (header ++ (salt ++ wrap)) 14 * 4 = 16 := rfl
  have hbyte15 : byteAt (header ++ (salt ++ wrap)) 15 * 4 = kLen := by
    rcases hkLen with rfl | rfl | rfl <;> rfl
  have hlength : (header ++ (salt ++ wrap)).length = 16 + 16 + (key.keyCount * kLen + 8) := by
    rw [List.length_append, List.length_append, hsalt, hwrap, show header.length = 16 from rfl,
      Nat.add_assoc]
  have hsalted : (header ++ (salt ++ wrap)).drop 16 = salt ++ wrap := rfl
  have hwrapped : (header ++ (salt ++ wrap)).drop (16 + 16) = wrap := by
    rw [← List.drop_drop, hsalted, List.drop_left' hsalt]
  have hwhole : wrap.take (key.keyCount * kLen + 8) = wrap := by
    rw [← hwrap, List.take_length]
  clear_value header
  unfold unmarshalCIF
  simp only [hbyte0, hsign, hbyte3, hindex, hbyte8, hbyte9, hbyte10, hbyte14, hbyte15, hsalted,
    hwrapped, hlength, hwrap, List.length_append, hsalt, List.take_left' hsalt, hwhole]
  rw [if_neg (by omega), if_neg (by omega)]
  rcases hcipher with ⟨rfl, rfl⟩ | ⟨rfl, rfl⟩ <;> rcases hkLen with rfl | rfl | rfl <;> simp [hkey]

end CIFKeyMaterial

namespace Crypto.Context

theorem length_fit (n : ℕ) (data : Bytes) : (fit n data).length = n := by
  unfold fit
  rw [List.length_append, List.length_take, List.length_replicate]
  omega

theorem fit_of_length {n : ℕ} {data : Bytes} (h : data.length = n) : fit n data = data := by
  unfold fit
  rw [List.take_of_length_le h.le, h, Nat.sub_self, List.replicate_zero, List.append_nil]

theorem length_keyPlaintext (ctx : Context) {key : PacketEncryption} (hkey : key ≠ .none) :
    (ctx.keyPlaintext key).length = key.keyCount * ctx.keyLength := by
  cases key with
  | none => exact absurd rfl hkey
  | even => simp [keyPlaintext, keyField, length_fit, PacketEncryption.keyCount]
  | odd => simp [keyPlaintext, keyField, length_fit, PacketEncryption.keyCount]
  | both =>
    simp [keyPlaintext, keyField, length_fit, PacketEncryption.keyCount]
    omega

variable [Primitives] {ctx ctx' : Context} {passphrase : String} {key : PacketEncryption}
  {km : CIFKeyMaterial}

theorem marshalKM_eq (h : ctx.marshalKM passphrase key = .ok km) :
    key ≠ .none ∧
      keyWrap (calculateKEK passphrase ctx.salt ctx.keyLength) (ctx.keyPlaintext key) =
        .ok km.wrap ∧
      km = { s := 0
             version := 1
             packetType := 2
             sign := 0x2029
             keyBasedEncryption := key
             keyEncryptionKeyIndex := 0
             cipher := ctx.mode.code
             authentication := if ctx.mode = .gcm then 1 else 0
             streamEncapsulation := 2
             sLen := 16
             kLen := ctx.keyLength
             salt := fit 16 ctx.salt
             wrap := km.wrap } := by
  unfold marshalKM at h
  by_cases hkey : key = .none
  · simp [hkey] at h
  · rw [if_neg hkey] at h
    cases hwrap : keyWrap (calculateKEK passphrase ctx.salt ctx.keyLength)
      (ctx.keyPlaintext key) with
    | error e => simp [hwrap] at h
    | ok wrapped =>
      rw [hwrap] at h
      obtain rfl := Except.ok.inj h
      exact ⟨hkey, rfl, rfl⟩

variable [LawfulPrimitives]

theorem wellFormed_marshalKM (hlen : validKeySize ctx.keyLength = true)
    (h : ctx.marshalKM passphrase key = .ok km) : km.WellFormed := by
  obtain ⟨hkey, hwrap, heq⟩ := marshalKM_eq h
  have hsize := length_keyPlaintext ctx hkey
  simp only [validKeySize, Bool.or_eq_true, decide_eq_true_eq] at hlen
  have hlength := (keyUnwrap_keyWrap hwrap).2
  rw [hsize] at hlength
  rw [heq]
  refine ⟨rfl, rfl, rfl, rfl, rfl, hkey, rfl, ?_, rfl, by simpa [or_assoc] using hlen, rfl,
    length_fit _ _, hlength⟩
  cases hmode : ctx.mode <;> simp [CipherMode.code]

theorem exists_marshalKM (hlen : validKeySize ctx.keyLength = true) (hkey : key ≠ .none) :
    ∃ km, ctx.marshalKM passphrase key = .ok km := by
  have hsize := length_keyPlaintext ctx hkey
  have hkek : (calculateKEK passphrase ctx.salt ctx.keyLength).length = ctx.keyLength :=
    LawfulPrimitives.length_pbkdf2 _ _ _
  have hfits : ¬((ctx.keyPlaintext key).length % 8 ≠ 0 ∨ (ctx.keyPlaintext key).length = 0) := by
    simp only [validKeySize, Bool.or_eq_true, decide_eq_true_eq] at hlen
    rw [hsize]
    cases key with
    | none => exact absurd rfl hkey
    | even => simp [PacketEncryption.keyCount]; omega
    | odd => simp [PacketEncryption.keyCount]; omega
    | both => simp [PacketEncryption.keyCount]; omega
  unfold marshalKM keyWrap
  rw [if_neg hkey, if_neg hfits, hkek, hlen]
  exact ⟨_, rfl⟩

/-- An announcement of one slot arrives at a context with the same passphrase and key
length: the slot is installed, together with the salt and the mode. -/
theorem unmarshalKM_of_marshalKM (hkey : key = .even ∨ key = .odd)
    (hlen : validKeySize ctx.keyLength = true) (hsame : ctx'.keyLength = ctx.keyLength)
    (hsalt : ctx.salt.length = 16) (h : ctx.marshalKM passphrase key = .ok km) {s s' : Slot}
    (hs : ctx.slot key = some s) (hs' : ctx'.slot key = some s') :
    ctx'.unmarshalKM km passphrase =
      ((ctx'.adopt km).setSlot key ((ctx'.adopt km).install s' (ctx.keyField s)), none) := by
  obtain ⟨hne, hwrap, heq⟩ := marshalKM_eq h
  have hkbe : km.keyBasedEncryption = key := by rw [heq]
  have hkmSalt : km.salt = ctx.salt := by
    rw [heq]
    exact fit_of_length hsalt
  have hplain : ctx.keyPlaintext key = ctx.keyField s := by
    rcases hkey with rfl | rfl <;> rw [← Option.some.inj hs] <;> rfl
  have hfield : (ctx.keyField s).length = ctx.keyLength := length_fit _ _
  have hadopted : (ctx'.adopt km).salt = ctx.salt := by
    simp [adopt, hkmSalt, hsalt]
  have hunwrap :
    keyUnwrap (calculateKEK passphrase (ctx'.adopt km).salt (ctx'.adopt km).keyLength) km.wrap =
      .ok (ctx.keyField s) := by
    rw [hadopted, show (ctx'.adopt km).keyLength = ctx.keyLength from hsame, ← hplain]
    exact (keyUnwrap_keyWrap hwrap).1
  have hnoError : installError (ctx.keyField s) = none := by
    simp [installError, newCipher, hfield, hlen]
  unfold unmarshalKM
  simp only [hkbe, hne, if_false, hunwrap, hfield]
  rw [if_neg (by
    rw [show (ctx'.adopt km).keyLength = ctx.keyLength from hsame]
    rcases hkey with rfl | rfl <;> simp [PacketEncryption.keyCount])]
  rcases hkey with rfl | rfl
  · have hslot : (ctx'.adopt km).even = s' := Option.some.inj hs'
    simp only [hslot, hnoError]
    rfl
  · have hslot : (ctx'.adopt km).odd = s' := Option.some.inj hs'
    simp only [hslot, hnoError]
    rfl

end Crypto.Context

end SrtGo
