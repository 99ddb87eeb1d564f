import SrtGo.Core.Sides

/-!
# Key slots and their rotation

A slot is usable when it holds what the cipher mode of the context needs to encrypt.
This file says what drawing, clearing and installing a key do to the slots, and shows
that the rotation keeps the active slot usable.

The rotation counts packets.  Its three phases must not overtake each other: the old key
is cleared `P` packets after the switch and the next one is drawn `P` packets before the
next switch, into the same slot, so `2 * P ≤ R` is what keeps the clearing from hitting
the new key.
-/

namespace SrtGo.Crypto.Context

open Bytes

/-- The key that encrypts in the mode of the context. -/
def keyOf (ctx : Context) (key : PacketEncryption) : Option Bytes :=
  (ctx.slot key).bind fun s =>
    match ctx.mode with
    | .ctr => s.cipher
    | .gcm => s.aead

variable {key : PacketEncryption} {ctx ctx' : Context} {sek : Bytes} {seqNo : ℕ}

theorem exists_encryptPayload_iff [Primitives] {data header : Bytes} :
    (∃ out, ctx.encryptPayload data header key seqNo = .ok out) ↔
      (ctx.keyOf key).isSome = true := by
  unfold encryptPayload keyOf
  cases ctx.mode with
  | ctr =>
    unfold xorPayload
    cases (ctx.slot key).bind Slot.cipher <;> simp
  | gcm =>
    unfold encryptGCM
    cases (ctx.slot key).bind Slot.aead <;> simp

theorem isSome_keyOf_of_decryptPayload [Primitives] {data header out : Bytes}
    (h : ctx.decryptPayload data header key seqNo = .ok out) : (ctx.keyOf key).isSome = true := by
  unfold decryptPayload at h
  unfold keyOf
  cases hmode : ctx.mode with
  | ctr =>
    simp only [hmode, xorPayload] at h ⊢
    cases hslot : (ctx.slot key).bind Slot.cipher with
    | none => simp [hslot] at h
    | some block => rfl
  | gcm =>
    simp only [hmode, decryptGCM] at h ⊢
    cases hslot : (ctx.slot key).bind Slot.aead with
    | none => simp [hslot] at h
    | some aead => rfl

theorem decryptPayload_encryptPayload [Primitives] [LawfulPrimitives] {sender : Context}
    {data header out : Bytes} (hmode : ctx.mode = sender.mode) (hsalt : ctx.salt = sender.salt)
    (hnonce : ctx.mode = .gcm → ctx.useGcm153 = sender.useGcm153)
    (hkey : ctx.keyOf key = sender.keyOf key)
    (h : sender.encryptPayload data header key seqNo = .ok out) :
    ctx.decryptPayload out header key seqNo = .ok data := by
  unfold encryptPayload at h
  unfold decryptPayload
  unfold keyOf at hkey
  cases hctr : sender.mode with
  | ctr =>
    simp only [hmode, hctr, xorPayload] at hkey h ⊢
    rw [show (ctx.slot key).bind Slot.cipher = (sender.slot key).bind Slot.cipher from hkey]
    cases hblock : (sender.slot key).bind Slot.cipher with
    | none => simp [hblock] at h
    | some block =>
      simp only [hblock, Except.ok.injEq] at h ⊢
      rw [← h, length_xorInto, hsalt, xorInto_xorInto]
  | gcm =>
    have hlegacy := hnonce (hmode.trans hctr)
    simp only [hmode, hctr, encryptGCM, decryptGCM] at hkey h ⊢
    rw [show (ctx.slot key).bind Slot.aead = (sender.slot key).bind Slot.aead from hkey]
    cases haead : (sender.slot key).bind Slot.aead with
    | none => simp [haead] at h
    | some aead =>
      simp only [haead, Except.ok.injEq] at h ⊢
      rw [← h, if_neg (by rw [LawfulPrimitives.length_gcmSeal]; omega), hsalt, hlegacy,
        LawfulPrimitives.gcmOpen_gcmSeal]

/-- The slot holds a key, and the ciphers that the mode needs have been made from it. -/
def Holds (ctx : Context) (key : PacketEncryption) (sek : Bytes) : Prop :=
  ∃ s, ctx.slot key = some s ∧ s.sek = some sek ∧ s.cipher = some sek ∧
    (ctx.mode = .gcm → s.aead = some sek)

theorem Holds.keyOf (h : ctx.Holds key sek) : ctx.keyOf key = some sek := by
  obtain ⟨s, hs, -, hcipher, haead⟩ := h
  unfold Context.keyOf
  rw [hs, Option.bind_some]
  cases hmode : ctx.mode with
  | ctr => exact hcipher
  | gcm => exact haead hmode

theorem Holds.congr (h : ctx.Holds key sek) (hmode : ctx'.mode = ctx.mode)
    (hslot : ctx'.slot key = ctx.slot key) : ctx'.Holds key sek := by
  obtain ⟨s, hs, hsek, hcipher, haead⟩ := h
  exact ⟨s, hslot.trans hs, hsek, hcipher, fun hgcm => haead (hmode ▸ hgcm)⟩

def Usable (ctx : Context) (key : PacketEncryption) : Prop :=
  ∃ s, ctx.slot key = some s ∧ s.cipher.isSome = true ∧ (ctx.mode = .gcm → s.aead.isSome = true)

theorem Usable.encrypts [Primitives] (h : ctx.Usable key) (data header : Bytes) (seqNo : ℕ) :
    ∃ enc, ctx.encryptPayload data header key seqNo = .ok enc := by
  obtain ⟨s, hs, hcipher, haead⟩ := h
  unfold encryptPayload
  cases hmode : ctx.mode with
  | ctr =>
    obtain ⟨block, hblock⟩ := Option.isSome_iff_exists.mp hcipher
    simp only [xorPayload, hs, Option.bind_some, hblock]
    exact ⟨_, rfl⟩
  | gcm =>
    obtain ⟨aead, haead⟩ := Option.isSome_iff_exists.mp (haead hmode)
    simp only [encryptGCM, hs, Option.bind_some, haead]
    exact ⟨_, rfl⟩

theorem Usable.congr (h : ctx.Usable key) (hmode : ctx'.mode = ctx.mode)
    (hslot : ctx'.slot key = ctx.slot key) :
    ctx'.Usable key := by
  obtain ⟨s, hs, hcipher, haead⟩ := h
  exact ⟨s, hslot.trans hs, hcipher, fun hgcm => haead (hmode ▸ hgcm)⟩

theorem Usable.even_or_odd (h : ctx.Usable key) : key = .even ∨ key = .odd := by
  obtain ⟨s, hs, -⟩ := h
  cases key <;> simp [slot] at hs ⊢

theorem Holds.usable (h : ctx.Holds key sek) : ctx.Usable key := by
  obtain ⟨s, hs, -, hcipher, haead⟩ := h
  exact ⟨s, hs, by simp [hcipher], fun hgcm => by simp [haead hgcm]⟩

theorem slot_setSlot_self (ctx : Context) (hkey : key = .even ∨ key = .odd) (s : Slot) :
    (ctx.setSlot key s).slot key = some s := by
  rcases hkey with rfl | rfl <;> rfl

theorem slot_setSlot_of_ne (ctx : Context) {other : PacketEncryption} (hne : other ≠ key)
    (s : Slot) :
    (ctx.setSlot key s).slot other = ctx.slot other := by
  cases key <;> cases other <;> first | rfl | exact absurd rfl hne

theorem setSlot_fields (ctx : Context) (key : PacketEncryption) (s : Slot) :
    (ctx.setSlot key s).mode = ctx.mode ∧ (ctx.setSlot key s).keyLength = ctx.keyLength ∧
      (ctx.setSlot key s).salt = ctx.salt ∧ (ctx.setSlot key s).entropy = ctx.entropy ∧
      (ctx.setSlot key s).drawn = ctx.drawn ∧ (ctx.setSlot key s).useGcm153 = ctx.useGcm153 := by
  cases key <;> exact ⟨rfl, rfl, rfl, rfl, rfl, rfl⟩

def keyed (mode : CipherMode) (sek : Bytes) : Slot :=
  { sek := some sek, cipher := some sek, aead := if mode = .gcm then some sek else none }

theorem generateSEK_cases (ctx : Context) (hkey : key = .even ∨ key = .odd) :
    (∃ e, ctx.generateSEK key = ({ ctx with drawn := ctx.drawn + 1 }, some e)) ∨
    ∃ sek, validKeySize sek.length = true ∧ (ctx.entropy ctx.drawn).map (fit ctx.keyLength) =
      some sek ∧
      ctx.generateSEK key =
        (({ ctx with drawn := ctx.drawn + 1 } : Context).setSlot key (keyed ctx.mode sek),
          none) := by
  unfold generateSEK draw
  cases hdraw : (ctx.entropy ctx.drawn).map (fit ctx.keyLength) with
  | none => exact Or.inl ⟨_, rfl⟩
  | some sek =>
    by_cases hsize : validKeySize sek.length = true
    · refine Or.inr ⟨sek, hsize, rfl, ?_⟩
      rcases hkey with rfl | rfl <;> simp [newCipher, hsize, slot, keyed]
    · exact Or.inl ⟨"crypto: creating cipher", by simp [newCipher, hsize]⟩

theorem holds_keyed (ctx : Context) (hkey : key = .even ∨ key = .odd) (sek : Bytes) :
    (ctx.setSlot key (keyed ctx.mode sek)).Holds key sek := by
  refine ⟨keyed ctx.mode sek, slot_setSlot_self ctx hkey _, rfl, rfl, fun hgcm => ?_⟩
  rw [(setSlot_fields ctx key _).1] at hgcm
  simp [keyed, hgcm]

def Renewed (ctx : Context) (s s' : Slot) : Prop :=
  s' = s ∨ ∃ sek, sek.length = ctx.keyLength ∧ s' = ctx.install s sek

theorem unmarshalKM_cases [Primitives] (ctx : Context) (km : CIFKeyMaterial) (passphrase : String) :
    (ctx.unmarshalKM km passphrase).1 = ctx ∧ km.keyBasedEncryption = .none ∨
    ∃ even odd, (ctx.unmarshalKM km passphrase).1 = { ctx.adopt km with even := even, odd := odd } ∧
      (ctx.adopt km).Renewed ctx.even even ∧ (ctx.adopt km).Renewed ctx.odd odd := by
  unfold unmarshalKM
  simp only
  split_ifs with hnone
  · exact Or.inl ⟨rfl, hnone⟩
  · refine Or.inr ?_
    have hskip : ∃ even odd, ctx.adopt km = { ctx.adopt km with even := even, odd := odd } ∧
        (ctx.adopt km).Renewed ctx.even even ∧ (ctx.adopt km).Renewed ctx.odd odd :=
      ⟨_, _, rfl, Or.inl rfl, Or.inl rfl⟩
    split
    · exact hskip
    · rename_i plaintext _
      split_ifs with hsize
      · exact hskip
      · have hsize := not_not.mp hsize
        -- each installed key has the length of the context
        cases hkbe : km.keyBasedEncryption with
        | none => exact absurd hkbe hnone
        | even =>
          rw [hkbe] at hsize
          exact ⟨_, _, rfl, Or.inr ⟨_, hsize.trans (one_mul _), rfl⟩, Or.inl rfl⟩
        | odd =>
          rw [hkbe] at hsize
          exact ⟨_, _, rfl, Or.inl rfl, Or.inr ⟨_, hsize.trans (one_mul _), rfl⟩⟩
        | both =>
          have hlength : plaintext.length = 2 * (ctx.adopt km).keyLength := by rw [hsize, hkbe]; rfl
          refine ⟨_, _, rfl, Or.inr ⟨_, ?_, rfl⟩, Or.inr ⟨_, ?_, rfl⟩⟩
          · rw [List.length_take]
            omega
          · rw [List.length_drop]
            omega

/-- Received key material leaves every slot usable that was, unless it names the
authenticated mode to a context in the other one. -/
theorem usable_unmarshalKM [Primitives] (h : ctx.Usable key)
    (hlen : validKeySize ctx.keyLength = true)
    {km : CIFKeyMaterial} (hmode : km.cipher = CipherMode.gcm.code → ctx.mode = .gcm)
    (passphrase : String) :
    (ctx.unmarshalKM km passphrase).1.Usable key ∧
      (ctx.unmarshalKM km passphrase).1.keyLength = ctx.keyLength := by
  have hgcm : (ctx.adopt km).mode = .gcm → ctx.mode = .gcm := by
    intro hgcm
    refine hmode ?_
    by_contra hne
    simp [adopt, hne] at hgcm
  rcases ctx.unmarshalKM_cases km passphrase with ⟨hsame, -⟩ | ⟨even, odd, hnew, heven, hodd⟩
  · rw [hsame]
    exact ⟨h, rfl⟩
  · have hslot : ∀ {s s' : Slot}, (ctx.adopt km).Renewed s s' →
        s.cipher.isSome = true ∧ (ctx.mode = .gcm → s.aead.isSome = true) →
        s'.cipher.isSome = true ∧ ((ctx.adopt km).mode = .gcm → s'.aead.isSome = true) := by
      rintro s s' (rfl | ⟨sek, hsek, rfl⟩) ⟨hcipher, haead⟩
      · exact ⟨hcipher, fun hadopted => haead (hgcm hadopted)⟩
      · have hvalid : validKeySize sek.length = true := hsek ▸ hlen
        exact ⟨by simp [install, newCipher, hvalid], fun hadopted => by simp [install, newCipher,
          hvalid, hadopted]⟩
    rw [hnew]
    refine ⟨?_, rfl⟩
    obtain ⟨s, hs, husable⟩ := h
    cases key with
    | even =>
      obtain rfl : ctx.even = s := Option.some.inj hs
      exact ⟨even, rfl, hslot heven husable⟩
    | odd =>
      obtain rfl : ctx.odd = s := Option.some.inj hs
      exact ⟨odd, rfl, hslot hodd husable⟩
    | none => exact absurd hs (by simp [slot])
    | both => exact absurd hs (by simp [slot])

end SrtGo.Crypto.Context

namespace SrtGo.Core

open Bytes Congestion Crypto

/-! ## The rotation as a function of the keys -/

namespace KeySide

variable [Primitives]

theorem request_cases (k : KeySide) (passphrase : String) (data : Bytes) :
    (k.request passphrase data = { k with
      cryptoCtx := (k.request passphrase data).cryptoCtx
      rcvKmState := (k.request passphrase data).rcvKmState
      sndKmState := (k.request passphrase data).sndKmState }) ∧
    ((k.request passphrase data).cryptoCtx = k.cryptoCtx ∨
      ∃ ctx km, k.cryptoCtx = some ctx ∧ CIFKeyMaterial.unmarshalCIF data = .ok km ∧
        (k.request passphrase data).cryptoCtx = some (ctx.unmarshalKM km passphrase).1) := by
  unfold request
  cases hctx : k.cryptoCtx with
  | none => exact ⟨rfl, Or.inl hctx⟩
  | some ctx =>
    simp only
    split_ifs with hpass
    · exact ⟨rfl, Or.inl hctx⟩
    · cases hkm : CIFKeyMaterial.unmarshalCIF data with
      | error e => exact ⟨rfl, Or.inl hctx⟩
      | ok km =>
        simp only
        cases hres : ctx.unmarshalKM km passphrase with
        | mk ctx' e =>
          have hctx' : (ctx.unmarshalKM km passphrase).1 = ctx' := by rw [hres]
          cases e <;> exact ⟨rfl, Or.inr ⟨ctx, km, rfl, rfl, congrArg some hctx'.symm⟩⟩

end KeySide

theorem KeySide.phases_progress (k : KeySide) (R P : ℕ) :
    (((k.switchKey R).decommission P).activeKey = k.activeKey ∧
      ((k.switchKey R).decommission P).kmPacketCount = k.kmPacketCount ∧
      ((k.switchKey R).decommission P).kmAnnounced = k.kmAnnounced ∧
      ((k.switchKey R).decommission P).kmRetryKey = k.kmRetryKey) ∨
    (((k.switchKey R).decommission P).activeKey = oppositeKey k.activeKey ∧
      ((k.switchKey R).decommission P).kmPacketCount = 0 ∧
      ((k.switchKey R).decommission P).kmAnnounced = false) := by
  have hclear : ∀ k : KeySide, (k.decommission P).activeKey = k.activeKey ∧
      (k.decommission P).kmPacketCount = k.kmPacketCount ∧
      (k.decommission P).kmAnnounced = k.kmAnnounced ∧
      (k.decommission P).kmRetryKey = k.kmRetryKey := by
    intro k
    unfold KeySide.decommission
    split_ifs <;> exact ⟨rfl, rfl, rfl, rfl⟩
  by_cases hswitch : R ≤ k.kmPacketCount
  · obtain ⟨hactive, hcount, hannounced, -⟩ := hclear (k.switchKey R)
    rw [hactive, hcount, hannounced]
    exact Or.inr (by simp [KeySide.switchKey, hswitch])
  · rw [show k.switchKey R = k from if_neg hswitch]
    exact Or.inl (hclear k)

variable {ctx : Context} {ep : EstablishParams} {k : KeySide} {key : PacketEncryption}
    {data : Bytes}

/-- How far one more packet takes the rotation. -/
theorem KeySide.advance_progress (hctx : k.cryptoCtx = some ctx) (R P : ℕ) :
    ((k.advance R P).activeKey = k.activeKey ∧
      (k.advance R P).kmPacketCount = k.kmPacketCount + 1 ∧
      ((k.advance R P).kmAnnounced = true → (k.advance R P).kmRetryKey = oppositeKey k.activeKey ∨
        k.kmAnnounced = true ∧ (k.advance R P).kmRetryKey = k.kmRetryKey)) ∨
    ((k.advance R P).activeKey = oppositeKey k.activeKey ∧
      (k.advance R P).kmPacketCount = 0 ∧ (k.advance R P).kmAnnounced = false) := by
  unfold KeySide.advance
  simp only [hctx]
  split_ifs
  · cases ctx.generateSEK (oppositeKey k.activeKey) with
    | mk ctx' e =>
      cases e with
      | some e => exact Or.inl ⟨rfl, rfl, fun h => Or.inr ⟨h, rfl⟩⟩
      | none =>
        rcases (k.count.announce ctx' (oppositeKey k.activeKey)).phases_progress R P with
          ⟨hactive, hcount, -, hretry⟩ | hswitched
        · exact Or.inl ⟨hactive, hcount, fun _ => Or.inl hretry⟩
        · exact Or.inr hswitched
  · rcases k.count.phases_progress R P with ⟨hactive, hcount, hannounced, hretry⟩ | hswitched
    · exact Or.inl ⟨hactive, hcount, fun h => Or.inr ⟨hannounced ▸ h, hretry⟩⟩
    · exact Or.inr hswitched

theorem KeySide.due_of_announced (hann : k.kmAnnounced = true) (R P : ℕ) :
    k.count.due R P = false := by
  unfold KeySide.due
  rw [show k.count.kmAnnounced = true from hann]
  rfl

theorem KeySide.le_of_due {R P : ℕ} (hdue : k.count.due R P = true) :
    R - P ≤ k.kmPacketCount + 1 := by
  unfold KeySide.due at hdue
  exact of_decide_eq_true (Bool.and_eq_true_iff.mp hdue).2

theorem KeySide.advance_eq_count {R P : ℕ} (hctx : k.cryptoCtx = some ctx)
    (hdue : k.count.due R P = false)
    (hswitch : k.kmPacketCount + 1 < R) (hclear : k.kmDecommission = false) : k.advance R P =
      k.count := by
  have hkeep : k.count.switchKey R = k.count := if_neg (not_le.mpr hswitch)
  unfold advance
  simp only [hctx, hdue, Bool.false_eq_true, if_false]
  rw [hkeep]
  exact if_neg (by rw [show k.count.kmDecommission = false from hclear]; exact Bool.false_ne_true)

theorem oppositeKey_even_or_odd (key : PacketEncryption) :
    oppositeKey key = .even ∨ oppositeKey key = .odd := by
  cases key <;> decide

theorem oppositeKey_ne_none (key : PacketEncryption) : oppositeKey key ≠ .none := by
  cases key <;> decide

theorem oppositeKey_cases (h : key = .even ∨ key = .odd) :
    (oppositeKey key = .even ∨ oppositeKey key = .odd) ∧ oppositeKey key ≠ key ∧
      oppositeKey (oppositeKey key) = key := by
  rcases h with rfl | rfl <;> decide

/-- A property `W` holds of the active slot and of the one that has been announced, and an
old key that waits to be cleared is cleared before the next one is drawn. -/
structure Keeps (W : Context → PacketEncryption → Prop) (preAnnounce : ℕ) (k : KeySide) : Prop where
  context : ∃ ctx, k.cryptoCtx = some ctx ∧ W ctx k.activeKey ∧
    (k.kmAnnounced = true → W ctx (oppositeKey k.activeKey))
  active : k.activeKey = .even ∨ k.activeKey = .odd
  pending : k.kmDecommission = true → k.kmSwitchCount = k.kmPacketCount + 1 ∧
    k.kmSwitchCount < preAnnounce ∧ k.kmAnnounced = false

namespace Keeps

variable {W W' : Context → PacketEncryption → Prop} {R P : ℕ} {k : KeySide} {ctx : Context}

theorem congr {k' : KeySide} (h : Keeps W P k) (hsame : k.Same k') : Keeps W P k' := by
  obtain ⟨hctx, hactive, hannounced, hdecommission, hswitch, hcount, -⟩ := hsame
  obtain ⟨hcontext, heven, hpending⟩ := h
  exact ⟨by rwa [hctx, hactive, hannounced], by rwa [hactive],
    by rwa [hdecommission, hswitch, hcount, hannounced]⟩

theorem mono (h : Keeps W P k) (hW : ∀ ctx key, W ctx key → W' ctx key) : Keeps W' P k := by
  obtain ⟨⟨ctx, hctx, hkey, hannounced⟩, heven, hpending⟩ := h
  exact ⟨⟨ctx, hctx, hW ctx _ hkey, fun hann => hW ctx _ (hannounced hann)⟩, heven, hpending⟩

theorem request [Primitives] (h : Keeps W P k) (passphrase : String)
    (hslot : ∀ ctx km key, k.cryptoCtx = some ctx → CIFKeyMaterial.unmarshalCIF data = .ok km →
      W ctx key → W (ctx.unmarshalKM km passphrase).1 key) :
    Keeps W P (k.request passphrase data) := by
  obtain ⟨hframe, hcontext⟩ := k.request_cases passphrase data
  rw [hframe]
  rcases hcontext with hsame | ⟨ctx', km, hctx', hkm, hnew⟩
  · exact h.congr ⟨hsame, rfl, rfl, rfl, rfl, rfl, rfl⟩
  · obtain ⟨ctx, hctx, hready, hannounced⟩ := h.context
    obtain rfl : ctx = ctx' := Option.some.inj (hctx.symm.trans hctx')
    exact ⟨⟨_, hnew, hslot ctx km _ hctx hkm hready,
      fun hann => hslot ctx km _ hctx hkm (hannounced hann)⟩,
      h.active, h.pending⟩

section

variable (hclear : ∀ ctx key other, key ≠ other → W ctx key → W (ctx.clearSEK other) key)
    (hctx : k.cryptoCtx = some ctx) (hkey : W ctx k.activeKey) (hactive : k.activeKey = .even ∨
    k.activeKey = .odd) (hannounced : k.kmAnnounced = true → W ctx (oppositeKey k.activeKey))

include hclear hctx hkey hactive hannounced

theorem decommission
    (hpending : k.kmDecommission = true → k.kmSwitchCount = k.kmPacketCount ∧
      k.kmAnnounced = false) :
    Keeps W P (k.decommission P) := by
  obtain ⟨-, hne, -⟩ := oppositeKey_cases hactive
  unfold KeySide.decommission
  split_ifs with hdecommission hcleared
  · obtain ⟨-, hquiet⟩ := hpending hdecommission
    refine ⟨⟨ctx.clearSEK (oppositeKey k.activeKey), by simp [hctx], ?_, ?_⟩, hactive, by simp⟩
    · exact hclear ctx _ _ hne.symm hkey
    · exact fun h => absurd h (by simp [hquiet])
  · obtain ⟨hcount, hquiet⟩ := hpending hdecommission
    refine ⟨⟨ctx, hctx, hkey, hannounced⟩, hactive, fun _ => ⟨?_, ?_, hquiet⟩⟩
    · exact congrArg (· + 1) hcount
    · exact not_le.mp hcleared
  · exact ⟨⟨ctx, hctx, hkey, hannounced⟩, hactive, fun h => absurd h hdecommission⟩

theorem switchKey (hdue : R ≤ k.kmPacketCount → k.kmAnnounced = true)
    (hpending : k.kmDecommission = true → k.kmSwitchCount = k.kmPacketCount ∧
      k.kmAnnounced = false) :
    Keeps W P ((k.switchKey R).decommission P) := by
  obtain ⟨hopposite, -, hback⟩ := oppositeKey_cases hactive
  unfold KeySide.switchKey
  split_ifs with hswitch
  · exact decommission hclear hctx (hannounced (hdue hswitch)) hopposite
      (fun h => absurd h (by simp)) fun _ => ⟨rfl, rfl⟩
  · exact decommission hclear hctx hkey hactive hannounced hpending

end

/-- One more encrypted packet.  The property may change on the way, since a key that is
drawn is announced too. -/
theorem advance (hrates : 2 * P ≤ R) (h : Keeps W P k) (hctx : k.cryptoCtx = some ctx)
    (hclear : ∀ ctx key other, key ≠ other → W' ctx key → W' (ctx.clearSEK other) key)
    (hquiet : k.count.due R P = false → ∀ key, W ctx key → W' ctx key)
    (hfail : k.count.due R P = true → ∀ e, ctx.generateSEK (oppositeKey k.activeKey) =
      ({ ctx with drawn := ctx.drawn + 1 }, some e) → ∀ key, W ctx key →
        W' { ctx with drawn := ctx.drawn + 1 } key)
    (hdraw : k.count.due R P = true → ∀ sek, validKeySize sek.length = true →
      (ctx.entropy ctx.drawn).map (fit ctx.keyLength) = some sek →
      ctx.generateSEK (oppositeKey k.activeKey) =
        (({ ctx with drawn := ctx.drawn + 1 } : Context).setSlot
        (oppositeKey k.activeKey) (Context.keyed ctx.mode sek), none) → W ctx k.activeKey →
      W' (({ ctx with drawn := ctx.drawn + 1 } : Context).setSlot (oppositeKey k.activeKey)
        (Context.keyed ctx.mode sek)) k.activeKey ∧
      W' (({ ctx with drawn := ctx.drawn + 1 } : Context).setSlot (oppositeKey k.activeKey)
        (Context.keyed ctx.mode sek)) (oppositeKey k.activeKey)) :
    Keeps W' P (k.advance R P) := by
  obtain ⟨ctx', hctx', hkey, hannounced⟩ := h.context
  obtain rfl : ctx = ctx' := Option.some.inj (hctx.symm.trans hctx')
  obtain ⟨hopposite, -, -⟩ := oppositeKey_cases h.active
  -- while the old key waits, it is too early for the next announcement
  have hpending : k.kmDecommission = true → k.count.kmSwitchCount = k.count.kmPacketCount ∧
      k.count.kmAnnounced = false ∧ k.count.kmPacketCount < R - P := by
    intro hdecommission
    obtain ⟨hcount, hlt, hsilent⟩ := h.pending hdecommission
    refine ⟨hcount, hsilent, ?_⟩
    show k.kmPacketCount + 1 < R - P
    omega
  unfold KeySide.advance
  simp only [hctx]
  split_ifs with hdue
  · have hreached := KeySide.le_of_due hdue
    have hsettled : ¬k.kmDecommission = true := fun hdecommission =>
      absurd hreached (not_le.mpr (hpending hdecommission).2.2)
    rcases ctx.generateSEK_cases hopposite with ⟨e, hgen⟩ | ⟨sek, hsize, hsek, hgen⟩
    · rw [hgen]
      exact ⟨⟨_, rfl, hfail hdue e hgen _ hkey, fun hann => hfail hdue e hgen _ (hannounced hann)⟩,
        h.active, fun hdecommission => absurd hdecommission hsettled⟩
    · rw [hgen]
      obtain ⟨hold, hnew⟩ := hdraw hdue sek hsize hsek hgen hkey
      exact switchKey hclear (k := k.count.announce _ _) rfl hold h.active (fun _ => hnew)
        (fun _ => rfl) fun hdecommission => absurd hdecommission hsettled
  · have hquiet := hquiet (by simpa using hdue)
    refine switchKey hclear (k := k.count) hctx (hquiet _ hkey) h.active
      (fun hann => hquiet _ (hannounced hann)) (fun hswitch => ?_)
      fun hdecommission => ⟨(hpending hdecommission).1, (hpending hdecommission).2.1⟩
    by_contra hsilent
    refine hdue ?_
    simp only [KeySide.due, Bool.and_eq_true, Bool.not_eq_true', decide_eq_true_eq]
    exact ⟨by simpa using hsilent, by omega⟩

end Keeps

def Ready (ctx : Context) (key : PacketEncryption) : Prop :=
  validKeySize ctx.keyLength = true ∧ ctx.Usable key

abbrev KeyReady (preAnnounce : ℕ) (k : KeySide) : Prop := Keeps Ready preAnnounce k

namespace KeyReady

variable {R P : ℕ} {k : KeySide} {ctx : Context}

theorem advance (hrates : 2 * P ≤ R) (h : KeyReady P k) : KeyReady P (k.advance R P) := by
  obtain ⟨ctx, hctx, -⟩ := h.context
  obtain ⟨hopposite, hne, -⟩ := oppositeKey_cases h.active
  refine Keeps.advance hrates h hctx ?_ (fun _ key hkey => hkey)
    (fun _ e _ key hkey => ⟨hkey.1, hkey.2.congr rfl rfl⟩) fun _ sek _ _ _ hkey => ⟨?_, ?_⟩
  · intro ctx key other hne hkey
    have hfields := Context.setSlot_fields ctx other {}
    refine ⟨?_, hkey.2.congr hfields.1 (Context.slot_setSlot_of_ne ctx hne _)⟩
    rw [Context.clearSEK, hfields.2.1]
    exact hkey.1
  all_goals
    set drawn : Context := { ctx with drawn := ctx.drawn + 1 } with hdrawn
    have hfields := Context.setSlot_fields drawn (oppositeKey k.activeKey)
      (Context.keyed ctx.mode sek)
  · refine ⟨?_, hkey.2.congr hfields.1 (Context.slot_setSlot_of_ne drawn hne.symm _)⟩
    rw [hfields.2.1]
    exact hkey.1
  · refine ⟨?_, (Context.holds_keyed drawn hopposite sek).usable⟩
    rw [hfields.2.1]
    exact hkey.1

theorem request [Primitives] (h : KeyReady P k) (passphrase : String)
    (hmode : ∀ ctx, k.cryptoCtx = some ctx → ∀ km, CIFKeyMaterial.unmarshalCIF data = .ok km →
      km.cipher = CipherMode.gcm.code → ctx.mode = .gcm) :
    KeyReady P (k.request passphrase data) := by
  -- whether or not the key could be unwrapped, the slots in use stay usable
  refine Keeps.request h passphrase fun ctx km key hctx hkm hkey => ?_
  obtain ⟨husable, hlen⟩ := ctx.usable_unmarshalKM hkey.2 hkey.1 (hmode ctx hctx km hkm) passphrase
  exact ⟨by rw [hlen]; exact hkey.1, husable⟩

end KeyReady

theorem EstablishParams.context_eq (hctx : ep.cryptoCtx = some ctx) :
    ∃ legacy, ep.context = some (ctx.setGCM153 legacy) := by
  unfold EstablishParams.context
  rw [hctx, Option.map_some]
  split_ifs
  · exact ⟨true, rfl⟩
  · exact ⟨ctx.useGcm153, rfl⟩

theorem EstablishParams.isSome_cryptoCtx (hctx : ep.context = some ctx) :
    ep.cryptoCtx.isSome = true := by
  obtain ⟨ctx', hctx', -⟩ := Option.map_eq_some_iff.mp hctx
  rw [hctx']
  rfl

theorem EstablishParams.two_mul_effectivePreAnnounce_le (hrates : 2 * ep.kmPreAnnounce ≤
    ep.kmRefreshRate) :
    2 * ep.effectivePreAnnounce ≤ ep.kmRefreshRate := by
  unfold EstablishParams.effectivePreAnnounce
  split_ifs <;> omega

namespace Conn

variable {σ : Type} [Primitives]

structure KeyFrame (c c' : Conn σ) : Prop where
  params : c'.params = c.params
  snd : c'.snd = c.snd
  history : c'.history = c.history

theorem keyFrame_checkKeyRotation (c : Conn σ) (now : ℤ) : KeyFrame c (c.checkKeyRotation now) := by
  rw [checkKeyRotation_eq]
  exact ⟨rfl, rfl, rfl⟩

theorem Announces.owned {c : Conn σ} {o : Output} (h : c.Announces ctx key o) : Owned o := by
  obtain ⟨now, km, -, rfl⟩ := h
  rfl

theorem emits_checkKeyRotation (c : Conn σ) (now : ℤ) :
    Emits (fun o => Signal o ∨ ∃ ctx ctx', c.key.cryptoCtx = some ctx ∧
      c.key.count.due c.params.kmRefreshRate c.params.kmPreAnnounce = true ∧
      ctx.generateSEK (oppositeKey c.key.activeKey) = (ctx', none) ∧
      c.Announces ctx' (oppositeKey c.key.activeKey) o) c (c.checkKeyRotation now) := by
  refine ⟨c.rotationNotice now, by rw [checkKeyRotation_eq], fun o ho => ?_⟩
  rcases mem_rotationNotice ho with ⟨deadline, rfl⟩ | hann
  · exact Or.inl trivial
  · exact Or.inr hann

theorem outputs_checkKeyRotation (c : Conn σ) (now : ℤ) (hctx : c.key.cryptoCtx = some ctx) :
    ((c.key.count.due c.params.kmRefreshRate c.params.kmPreAnnounce = false ∨
        (ctx.generateSEK (oppositeKey c.key.activeKey)).2 ≠ none) →
      (c.checkKeyRotation now).outputs = c.outputs) ∧
    (c.key.count.due c.params.kmRefreshRate c.params.kmPreAnnounce = true →
      ∀ ctx', ctx.generateSEK (oppositeKey c.key.activeKey) = (ctx', none) →
      c.params.passphrase ≠ "" → ∀ km,
      ctx'.marshalKM c.params.passphrase (oppositeKey c.key.activeKey) = .ok km →
      ∃ deadline, (c.checkKeyRotation now).outputs =
        c.outputs ++ [.sendPacket (c.userControl now .kmReq km.marshalCIF) true,
          .setTimer .kmRefresh deadline]) := by
  rw [checkKeyRotation_eq]
  unfold rotationNotice
  rw [hctx]
  refine ⟨fun hidle => ?_, fun hreached ctx' hgen hpass km hkm => ?_⟩
  · simp only
    split_ifs with hreached
    · rcases hidle with hnot | hfailed
      · exact absurd hreached (by simp [hnot])
      · cases hgen : ctx.generateSEK (oppositeKey c.key.activeKey) with
        | mk ctx' e =>
          cases e with
          | some e => exact List.append_nil _
          | none => exact absurd (by rw [hgen]) hfailed
    · exact List.append_nil _
  · simp only [hreached, if_true, hgen, announcement_eq hpass hkm]
    exact ⟨_, rfl⟩

theorem key_checkKeyRotation (c : Conn σ) (now : ℤ) :
    (c.checkKeyRotation now).key =
      c.key.advance c.params.kmRefreshRate c.params.kmPreAnnounce := by
  rw [checkKeyRotation_eq]

end Conn

end SrtGo.Core
