import SrtGo.Crypto.KeyMaterial
import SrtGo.Crypto.XorCipher

/-!
# The key exchange

A context writes the keys of its slots, wrapped under the passphrase; the other side reads the
key material and installs it.  With the same passphrase both sides end with the same keys, the
same salt and the same cipher mode.

Key material that cannot be unwrapped is refused, but its salt and its cipher mode have been
taken over by then: a refusal leaves the context as it was only if the two agreed before.
-/

namespace SrtGo

def PacketEncryption.namesEven : PacketEncryption → Bool
  | .even | .both => true
  | .odd | .none => false

def PacketEncryption.namesOdd : PacketEncryption → Bool
  | .odd | .both => true
  | .even | .none => false

end SrtGo

namespace SrtGo.Crypto

open Bytes

section
variable [Primitives]

/-- **Unwrapping undoes wrapping**, for every plaintext of whole blocks and every permutation of
the 16-byte blocks with its inverse. -/
theorem wrapped_key_unwraps {kek plaintext : Bytes} (hkek : validKeySize kek.length = true)
    (henc : ∀ b : Bytes, b.length = 16 → (Primitives.encrypt kek b).length = 16)
    (hdec : ∀ b : Bytes, b.length = 16 → Primitives.decrypt kek (Primitives.encrypt kek b) = b)
    (hblocks : plaintext.length % 8 = 0) (hlong : 16 ≤ plaintext.length) :
    ∃ wrapped, keyWrap kek plaintext = .ok wrapped ∧ keyUnwrap kek wrapped = .ok plaintext ∧
      wrapped.length = plaintext.length + 8 := by
  obtain ⟨wrapped, hwrapped⟩ := exists_keyWrap hkek hblocks (by omega)
  exact ⟨wrapped, hwrapped, keyUnwrap_of_keyWrap henc hdec hwrapped⟩

end

section Examples

open scoped XorCipher

/-- A key of 16 bytes under a key-encryption key of 16 bytes. -/
theorem wrapped_key_unwraps_sixteen :
    ∃ wrapped, keyWrap (List.replicate 16 7) (List.replicate 16 1) = .ok wrapped ∧
      keyUnwrap (List.replicate 16 7) wrapped = .ok (List.replicate 16 1) ∧ wrapped.length = 24 :=
  wrapped_key_unwraps (by decide) (LawfulPrimitives.length_encrypt _)
    (LawfulPrimitives.decrypt_encrypt _)
    (by decide) (by decide)

end Examples

namespace Context

/-! ## Slots that travel -/

section
variable {ctx : Context} {key : PacketEncryption}

structure Populated (ctx : Context) (key : PacketEncryption) : Prop where
  even : key.namesEven = true → ∃ sek, ctx.even.sek = some sek ∧ sek.length = ctx.keyLength
  odd : key.namesOdd = true → ∃ sek, ctx.odd.sek = some sek ∧ sek.length = ctx.keyLength

theorem Populated.take_keyPlaintext (h : ctx.Populated key) (heven : key.namesEven = true) :
    some ((ctx.keyPlaintext key).take ctx.keyLength) = ctx.even.sek := by
  obtain ⟨sek, hsek, hlen⟩ := h.even heven
  have hfield : ctx.keyField ctx.even = sek := by
    rw [keyField, hsek]
    exact fit_of_length hlen
  cases key with
  | even => rw [keyPlaintext, hfield, List.take_of_length_le hlen.le, hsek]
  | both => rw [keyPlaintext, hfield, List.take_left' hlen, hsek]
  | odd => exact absurd heven (by decide)
  | none => exact absurd heven (by decide)

theorem Populated.drop_keyPlaintext (h : ctx.Populated key) (hodd : key.namesOdd = true) :
    some ((ctx.keyPlaintext key).drop ((ctx.keyPlaintext key).length - ctx.keyLength)) =
      ctx.odd.sek := by
  obtain ⟨sek, hsek, hlen⟩ := h.odd hodd
  have hfield : ctx.keyField ctx.odd = sek := by
    rw [keyField, hsek]
    exact fit_of_length hlen
  cases key with
  | odd => rw [keyPlaintext, hfield, hlen, Nat.sub_self, List.drop_zero, hsek]
  | both =>
    rw [keyPlaintext, hfield, List.length_append, hlen, Nat.add_sub_cancel, List.drop_left' rfl,
      hsek]
  | even => exact absurd hodd (by decide)
  | none => exact absurd hodd (by decide)

end

section
variable [Primitives] {ctx ctx' : Context} {passphrase : String} {key : PacketEncryption}
    {km : CIFKeyMaterial}

theorem unmarshalKM_of_keyUnwrap {plaintext : Bytes} (hkey : km.keyBasedEncryption ≠ .none)
    (hlen : validKeySize ctx.keyLength = true)
    (hunwrap : keyUnwrap (calculateKEK passphrase (ctx.adopt km).salt ctx.keyLength) km.wrap =
      .ok plaintext)
    (hlength : plaintext.length = km.keyBasedEncryption.keyCount * ctx.keyLength) :
    ctx.unmarshalKM km passphrase =
      ({ ctx.adopt km with
          even := if km.keyBasedEncryption.namesEven then
              (ctx.adopt km).install ctx.even (plaintext.take ctx.keyLength) else ctx.even
          odd := if km.keyBasedEncryption.namesOdd then
              (ctx.adopt km).install ctx.odd (plaintext.drop (plaintext.length - ctx.keyLength))
            else ctx.odd }, none) := by
  have hcipher : ∀ sek : Bytes, sek.length = ctx.keyLength → installError sek = none := by
    intro sek hsek
    simp [installError, newCipher, hsek, hlen]
  have hkeyLength : (ctx.adopt km).keyLength = ctx.keyLength := rfl
  unfold unmarshalKM
  simp only [hkey, if_false, hkeyLength, hunwrap, hlength, ne_eq, not_true_eq_false]
  cases hkbe : km.keyBasedEncryption with
  | none => exact absurd hkbe hkey
  | even =>
    rw [hkbe, PacketEncryption.keyCount, if_neg (by decide), Nat.one_mul] at hlength
    simp only [PacketEncryption.namesEven, PacketEncryption.namesOdd, if_true, Bool.false_eq_true,
      if_false, hcipher _ hlength, List.take_of_length_le hlength.le]
    rfl
  | odd =>
    rw [hkbe, PacketEncryption.keyCount, if_neg (by decide), Nat.one_mul] at hlength
    simp only [PacketEncryption.namesEven, PacketEncryption.namesOdd, PacketEncryption.keyCount,
      if_true,
      Bool.false_eq_true, if_false, hcipher _ hlength, reduceCtorEq, Nat.one_mul, Nat.sub_self,
        List.drop_zero]
    rfl
  | both =>
    rw [hkbe, PacketEncryption.keyCount, if_pos rfl] at hlength
    have hfirst : (plaintext.take ctx.keyLength).length = ctx.keyLength := by
      rw [List.length_take]
      omega
    simp only [PacketEncryption.namesEven, PacketEncryption.namesOdd, PacketEncryption.keyCount,
      if_true, hcipher _ hfirst, show 2 * ctx.keyLength - ctx.keyLength = ctx.keyLength by omega]
    rfl

/-- **The key exchange**: what one context writes, on the wire, the other one reads and installs.
It then has the same salt, the same mode and the same keys in the slots that were named; its
other slot keeps its key. -/
theorem announced_keys_are_installed [LawfulPrimitives] (hkey : key ≠ .none)
    (hlen : validKeySize ctx.keyLength = true)
    (hsame : ctx'.keyLength = ctx.keyLength) (hsalt : ctx.salt.length = 16)
    (hkeys : ctx.Populated key) (passphrase : String) :
    ∃ km ctx₁, ctx.marshalKM passphrase key = .ok km ∧
      CIFKeyMaterial.unmarshalCIF km.marshalCIF = .ok km ∧ ctx'.unmarshalKM km passphrase =
        (ctx₁, none) ∧
      ctx₁.salt = ctx.salt ∧ ctx₁.mode = ctx.mode ∧
      ctx₁.even.sek = (if key.namesEven then ctx.even.sek else ctx'.even.sek) ∧
      ctx₁.odd.sek = (if key.namesOdd then ctx.odd.sek else ctx'.odd.sek) := by
  obtain ⟨km, hkm⟩ : ∃ km, ctx.marshalKM passphrase key = .ok km := exists_marshalKM hlen hkey
  obtain ⟨-, hwrap, heq⟩ := marshalKM_eq hkm
  have hkbe : km.keyBasedEncryption = key := by rw [heq]
  have hadopted : (ctx'.adopt km).salt = ctx.salt := by
    have hkmSalt : km.salt = ctx.salt := by
      rw [heq]
      exact fit_of_length hsalt
    rw [adopt, hkmSalt, if_pos hsalt]
  have hmode : (ctx'.adopt km).mode = ctx.mode := by
    have hcode : km.cipher = ctx.mode.code := by rw [heq]
    rw [adopt, hcode]
    cases ctx.mode <;> rfl
  have hunwrap : keyUnwrap (calculateKEK passphrase (ctx'.adopt km).salt ctx'.keyLength) km.wrap =
      .ok (ctx.keyPlaintext key) := by
    rw [hadopted, hsame]
    exact (keyUnwrap_keyWrap hwrap).1
  have hlength := length_keyPlaintext ctx hkey
  rw [← hsame, ← hkbe] at hlength
  have hvalid : validKeySize ctx'.keyLength = true := hsame ▸ hlen
  have hinstalled := unmarshalKM_of_keyUnwrap (hkbe ▸ hkey) hvalid hunwrap (hkbe ▸ hlength)
  refine ⟨km, _, hkm, CIFKeyMaterial.unmarshalCIF_marshalCIF (wellFormed_marshalKM hlen hkm),
    hinstalled, hadopted,
    hmode, ?_, ?_⟩
  · simp only [hkbe, hsame]
    split_ifs with heven
    · exact hkeys.take_keyPlaintext heven
    · rfl
  · simp only [hkbe, hsame]
    split_ifs with hodd
    · exact hkeys.drop_keyPlaintext hodd
    · rfl

end

section Examples

open scoped XorCipher

def bothKeys : Context :=
  { mode := .gcm
    keyLength := 16
    salt := List.replicate 16 9
    even := { sek := some (List.replicate 16 1) }
    odd := { sek := some (List.replicate 16 2) }
    entropy := fun _ => none }

def evenKey : Context :=
  { mode := .ctr
    keyLength := 16
    salt := List.replicate 16 3
    even := { sek := some (List.replicate 16 5), cipher := some (List.replicate 16 5) }
    entropy := fun _ => none }

/-- Both keys of the first context arrive at the second one. -/
theorem announced_keys_are_installed_both :
    ∃ km ctx₁, bothKeys.marshalKM "passphrase" .both = .ok km ∧
      CIFKeyMaterial.unmarshalCIF km.marshalCIF = .ok km ∧ evenKey.unmarshalKM km "passphrase" =
        (ctx₁, none) ∧
      ctx₁.salt = List.replicate 16 9 ∧ ctx₁.mode = .gcm ∧
        ctx₁.even.sek = some (List.replicate 16 1) ∧
      ctx₁.odd.sek = some (List.replicate 16 2) :=
  announced_keys_are_installed (by decide) (by decide)
    (show evenKey.keyLength = bothKeys.keyLength from rfl)
    (by decide) ⟨fun _ => ⟨_, rfl, rfl⟩, fun _ => ⟨_, rfl, rfl⟩⟩ "passphrase"

end Examples

/-! ## Key material that is refused -/

/-- The key material bears the salt of the context, or none, and its cipher mode. -/
def AgreesWith (ctx : Context) (km : CIFKeyMaterial) : Prop :=
  (km.salt.length = 16 → km.salt = ctx.salt) ∧ (km.cipher = CipherMode.gcm.code ↔ ctx.mode = .gcm)

instance (ctx : Context) (km : CIFKeyMaterial) : Decidable (ctx.AgreesWith km) :=
  inferInstanceAs (Decidable (_ ∧ _))

theorem adopt_eq_self_iff {ctx : Context} {km : CIFKeyMaterial} : ctx.adopt km = ctx ↔
    ctx.AgreesWith km := by
  constructor
  · intro h
    have hsalt : (if km.salt.length = 16 then km.salt else ctx.salt) = ctx.salt :=
      congrArg Context.salt h
    have hmode : (if km.cipher = CipherMode.gcm.code then CipherMode.gcm else .ctr) = ctx.mode :=
      congrArg Context.mode h
    refine ⟨fun hlong => by rwa [if_pos hlong] at hsalt, ?_⟩
    rw [← hmode]
    split_ifs with hgcm
    · exact ⟨fun _ => rfl, fun _ => hgcm⟩
    · exact ⟨fun hc => absurd hc hgcm, fun hm => absurd hm (by decide)⟩
  · rintro ⟨hsalt, hmode⟩
    have hsalt' : (if km.salt.length = 16 then km.salt else ctx.salt) = ctx.salt := by
      split_ifs with hlong
      · exact hsalt hlong
      · rfl
    have hmode' : (if km.cipher = CipherMode.gcm.code then CipherMode.gcm else .ctr) =
        ctx.mode := by
      cases hm : ctx.mode with
      | gcm => rw [if_pos (hmode.mpr hm)]
      | ctr => rw [if_neg fun hc => absurd (hmode.mp hc) (by simp [hm])]
    unfold adopt
    rw [hsalt', hmode']

section
variable [Primitives] {ctx : Context} {km : CIFKeyMaterial} {passphrase : String}

/-- When a key is refused, the salt and the mode have been taken over, and nothing else. -/
theorem unmarshalKM_refused (hkey : km.keyBasedEncryption ≠ .none)
    (hlen : validKeySize ctx.keyLength = true)
    (herror : (ctx.unmarshalKM km passphrase).2 ≠ none) : (ctx.unmarshalKM km passphrase).1 =
      ctx.adopt km := by
  cases hunwrap : keyUnwrap (calculateKEK passphrase (ctx.adopt km).salt ctx.keyLength) km.wrap with
  | error e =>
    have hunwrap' :
      keyUnwrap (calculateKEK passphrase (ctx.adopt km).salt (ctx.adopt km).keyLength) km.wrap =
        .error e := hunwrap
    simp only [unmarshalKM, hkey, if_false, hunwrap']
  | ok plaintext =>
    have hunwrap' :
      keyUnwrap (calculateKEK passphrase (ctx.adopt km).salt (ctx.adopt km).keyLength) km.wrap =
        .ok plaintext := hunwrap
    by_cases hlength : plaintext.length = km.keyBasedEncryption.keyCount * ctx.keyLength
    · -- a key of the right length can be installed
      rw [unmarshalKM_of_keyUnwrap hkey hlen hunwrap hlength] at herror
      exact absurd rfl herror
    · have hlength' : plaintext.length ≠ km.keyBasedEncryption.keyCount *
          (ctx.adopt km).keyLength := hlength
      simp only [unmarshalKM, hkey, if_false, hunwrap', hlength', ne_eq, not_false_eq_true, if_true]

/-- **A refusal leaves the context as it was** just if the key material names no key, or bears the
salt and the mode that the context has. -/
theorem refused_keys_change_nothing_iff (hlen : validKeySize ctx.keyLength = true)
    (herror : (ctx.unmarshalKM km passphrase).2 ≠ none) :
    (ctx.unmarshalKM km passphrase).1 = ctx ↔ km.keyBasedEncryption = .none ∨
      ctx.AgreesWith km := by
  by_cases hkey : km.keyBasedEncryption = .none
  · have hsame : ctx.unmarshalKM km passphrase = (ctx, some errInvalidKey) := by
      rw [unmarshalKM, if_pos hkey]
    rw [hsame]
    exact ⟨fun _ => Or.inl hkey, fun _ => rfl⟩
  · rw [unmarshalKM_refused hkey hlen herror, adopt_eq_self_iff]
    exact ⟨Or.inr, fun h => h.resolve_left hkey⟩

end

section Examples

open scoped XorCipher

/-- Key material that anyone can make up: no passphrase unwraps it. -/
def forged (salt : Bytes) (cipher : ℕ) : CIFKeyMaterial :=
  { keyBasedEncryption := .even
    cipher := cipher
    salt := salt
    wrap := List.replicate 24 0 }

/-- Forged key material with the salt and the mode of the context does no harm. -/
theorem refused_keys_change_nothing_same_salt :
    (evenKey.unmarshalKM (forged (List.replicate 16 3) 2) "passphrase").2 =
      some errInvalidPassphrase ∧
      (evenKey.unmarshalKM (forged (List.replicate 16 3) 2) "passphrase").1 = evenKey :=
  ⟨by decide +kernel,
    (refused_keys_change_nothing_iff (by decide) (by decide +kernel)).mpr (Or.inr (by decide))⟩

/-- Forged key material with another salt is refused, and so is one with the other cipher mode;
but a packet that could be decrypted before is then decrypted to something else, or not at all. -/
theorem refused_keys_spoil_context :
    let ctx₁ := evenKey.unmarshalKM (forged (List.replicate 16 4) 2) "passphrase"
    let ctx₂ := evenKey.unmarshalKM (forged (List.replicate 16 3) 4) "passphrase"
    ctx₁.2 = some errInvalidPassphrase ∧ ctx₂.2 = some errInvalidPassphrase ∧
      evenKey.decryptPayload [6, 6] [] .even 0 = .ok [0, 0] ∧
      ctx₁.1.decryptPayload [6, 6] [] .even 0 = .ok [7, 7] ∧
      ctx₂.1.decryptPayload [6, 6] [] .even 0 = .error errInvalidKey := by
  decide +kernel

end Examples

end Context

end SrtGo.Crypto
