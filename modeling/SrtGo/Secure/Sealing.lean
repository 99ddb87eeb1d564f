import SrtGo.Crypto.XorCipher
import SrtGo.Secure.Slots

/-!
# No plaintext on the wire

The send path ignores an error of the cipher and sends the payload as it is.  So a secured
connection keeps its secrets only as long as the cipher never fails, which is to say as
long as the active key slot is usable.  The rotation keeps it so (`KeyReady.advance`);
what can break it is a key announcement.  The cipher mode that an announcement names is
taken over before the key in it is unwrapped, and a slot that was filled in counter mode
has no authenticated cipher.
-/

namespace SrtGo

def Packet.announcesGCM (p : Packet) : Bool :=
  p.header.isControl && decide (p.header.controlType = .user) &&
    decide (p.header.subType = .kmReq) &&
    match CIFKeyMaterial.unmarshalCIF p.data with
    | .ok km => decide (km.cipher = Crypto.CipherMode.gcm.code)
    | .error _ => false

end SrtGo

namespace SrtGo.Core

open Bytes Congestion Crypto

/-- The payload on the wire is what the cipher makes of the payload of the application,
under the key that the header names. -/
def Transmission.Sealed [Primitives] (t : Transmission) : Prop :=
  ∃ ctx ∈ t.context,
    ctx.encryptPayload t.plain.data (if ctx.mode = .gcm then t.wire.header.marshal else [])
      t.wire.header.encryption t.wire.header.sequenceNumber = .ok t.wire.data

instance [Primitives] (t : Transmission) : Decidable t.Sealed :=
  inferInstanceAs (Decidable (∃ ctx ∈ t.context, _))

namespace Conn

variable {σ : Type}

/-- Every first transmission of a data packet is encrypted. -/
def Confidential [Primitives] (c : Conn σ) : Prop :=
  ∀ p, .sendPacket p false ∈ c.outputs → ∃ t ∈ c.history, t.wire = p ∧ t.Sealed

/-- A step in which no announcement names the authenticated mode to a context in counter
mode. -/
def KeepsMode (c : Conn σ) : Input → Prop
  | .packet _ p => p.announcesGCM = true → ∀ ctx ∈ c.key.cryptoCtx, ctx.mode = .gcm
  | _ => True

instance (c : Conn σ) : ∀ i, Decidable (c.KeepsMode i)
  | .packet _ _ => inferInstanceAs (Decidable (_ → _))
  | .write _ _ _ => isTrue trivial
  | .writeCoordinated _ _ _ _ => isTrue trivial
  | .timer _ _ => isTrue trivial
  | .keepAlive _ => isTrue trivial
  | .shutdown _ => isTrue trivial

variable [Primitives]

theorem Confidential.of_emits {c c' : Conn σ} (h : c.Confidential)
    (hhistory : c'.history = c.history) (hemits : Emits Owned c c') : c'.Confidential := by
  intro p hp
  rw [hhistory]
  rcases hemits.mem hp with hp | howned
  · exact h p hp
  · exact absurd howned (by simp [Owned])

theorem sealed_encrypt {c : Conn σ} {ctx : Context} (hctx : c.key.cryptoCtx = some ctx)
    (husable : ctx.Usable c.key.activeKey) (seqNo ts : ℕ) (f : Frame) :
    (Transmission.mk c.key.cryptoCtx (c.framePacket seqNo ts f)
      (c.encrypt (c.framePacket seqNo ts f) seqNo)).Sealed := by
  unfold encrypt
  simp only [hctx]
  obtain ⟨enc, henc⟩ := husable.encrypts (c.framePacket seqNo ts f).data
    (if ctx.mode = .gcm then { (c.framePacket seqNo ts f).header with
      encryption := c.key.activeKey }.marshal else []) seqNo
  simp only [henc]
  exact ⟨ctx, rfl, henc⟩

structure Guarded (c : Conn σ) : Prop where
  rates : c.params.kmRefreshRate = 0 ∨ 2 * c.params.kmPreAnnounce ≤ c.params.kmRefreshRate
  ready : KeyReady c.params.kmPreAnnounce c.key
  confidential : c.Confidential

theorem Guarded.of_emits {c c' : Conn σ} (h : c.Guarded) (hparams : c'.params = c.params)
    (hready : KeyReady c.params.kmPreAnnounce c'.key) (hhistory : c'.history = c.history)
    (hemits : Emits Owned c c') : c'.Guarded :=
  ⟨hparams ▸ h.rates, hparams ▸ hready, h.confidential.of_emits hhistory hemits⟩

variable {c : Conn σ}

theorem Guarded.rotate (h : c.Guarded) (hrate : 0 < c.params.kmRefreshRate) (now : ℤ) :
    (c.checkKeyRotation now).Guarded := by
  have hrates : 2 * c.params.kmPreAnnounce ≤ c.params.kmRefreshRate := by
    rcases h.rates with hzero | hrates
    · omega
    · exact hrates
  have hready := h.ready.advance hrates
  rw [← key_checkKeyRotation c now] at hready
  have hframe := keyFrame_checkKeyRotation c now
  refine h.of_emits hframe.params hready hframe.history
    ((emits_checkKeyRotation c now).mono fun o ho => ?_)
  rcases ho with hsignal | ⟨_, _, _, _, _, hannounces⟩
  · exact owned_of_signal hsignal
  · exact hannounces.owned

theorem Guarded.aside {i : Input} {c₀ c' : Conn σ} (h : c.Guarded) (hmove : Aside i c₀ c c')
    (hkeeps : c₀.KeepsMode i) : c'.Guarded := by
  refine h.of_emits hmove.params ?_ hmove.history (hmove.emits.mono fun _ => Utters.owned)
  rcases hmove.key.same_or_request with hsame | ⟨now, p, rfl, hkey, hp, hrequest⟩
  · exact h.ready.congr hsame
  · rw [hrequest]
    refine h.ready.request _ fun ctx hctx km hkm hgcm => hkeeps ?_ ctx (hkey ▸ hctx)
    obtain ⟨hcontrol, huser, hreq⟩ := Packet.isKMREQ_iff.mp hp
    simp [Packet.announcesGCM, hcontrol, huser, hreq, hkm, hgcm]

variable [Controller σ]

/-! ## The keys stay ready -/

variable {i : Input}

theorem Guarded.transmit (h : c.Guarded) (now : ℤ) (sb : Buffer.SendBuffer) (seqNo ts : ℕ)
    (f : Frame) :
    (c.transmit now sb (c.framePacket seqNo ts f)
      (c.encrypt (c.framePacket seqNo ts f) seqNo)).Guarded := by
  obtain ⟨ctx, hctx, ⟨-, husable⟩, -⟩ := h.ready.context
  refine ⟨h.rates, h.ready, fun p hp => ?_⟩
  rcases List.mem_append.mp hp with hp | hp
  · obtain ⟨t, ht, hwire, hsealed⟩ := h.confidential p hp
    exact ⟨t, List.mem_append_left _ ht, hwire, hsealed⟩
  · rw [List.mem_singleton] at hp
    refine ⟨_, List.mem_append_right _ (List.mem_singleton_self _), ?_,
      sealed_encrypt hctx husable seqNo ts f⟩
    exact (Output.sendPacket.inj hp).1.symm

theorem Guarded.step (h : c.Guarded) (hkeeps : c.KeepsMode i) : (c.step i).Guarded := by
  refine send_preserves c i h fun c₁ c₂ hmove hc₁ => ?_
  cases hmove with
  | aside hmove => exact hc₁.aside hmove hkeeps
  | transmit hpush => exact hc₁.transmit _ _ _ _ _
  | rotate hrate => exact hc₁.rotate hrate _

/-! ## Whole runs -/

end Conn

/-- The handshake has left a context whose active key can be used. -/
def EstablishParams.Keyed (ep : EstablishParams) : Prop :=
  ∃ ctx, ep.cryptoCtx = some ctx ∧ validKeySize ctx.keyLength = true ∧
    ctx.Usable (if ep.activeKey = .none then .even else ep.activeKey)

namespace Conn

variable {σ : Type} [Controller σ] [Primitives]

theorem guarded_establish (cc : σ) (now : ℤ) {ep : EstablishParams} (hkeyed : ep.Keyed)
    (hrates : 2 * ep.kmPreAnnounce ≤ ep.kmRefreshRate) : (establish cc now ep).Guarded := by
  obtain ⟨ctx, hctx, hlen, husable⟩ := hkeyed
  have hsome : ep.cryptoCtx.isSome = true := by simp [hctx]
  have hready : KeyReady (established cc now ep).params.kmPreAnnounce
      (established cc now ep).key := by
    have hactive : (established cc now ep).key.activeKey =
        if ep.activeKey = .none then .even else ep.activeKey := if_pos hsome
    obtain ⟨legacy, hcontext⟩ := EstablishParams.context_eq hctx
    refine ⟨⟨_, hcontext, ⟨hlen, ?_⟩, ?_⟩, ?_, ?_⟩
    · rw [hactive]
      exact husable.congr rfl rfl
    · exact fun h => absurd h (by simp [established, establishedKeys])
    · rw [hactive]
      exact husable.even_or_odd
    · exact fun h => absurd h (by simp [established, establishedKeys])
  refine Guarded.aside (c := established cc now ep) ⟨Or.inr ?_, hready,
    ?_⟩ (aside_establish cc now ep) trivial
  · simp only [established, establishedParams, hsome, if_true]
    exact EstablishParams.two_mul_effectivePreAnnounce_le hrates
  · exact fun p hp => absurd hp (by simp [established])

/-- **No plaintext on the wire.**  Whatever is written, whatever timers fire and whatever
packets arrive: as long as no announcement names the authenticated mode to a context in
counter mode, every data packet is encrypted with the key that its header names. -/
theorem run_confidential (cc : σ) (now : ℤ) {ep : EstablishParams} (hkeyed : ep.Keyed)
    (hrates : 2 * ep.kmPreAnnounce ≤ ep.kmRefreshRate) {is : List Input}
    (hkeeps : Run.AllSteps step KeepsMode (establish cc now ep) is) :
    Run.AllStates step Confidential (establish cc now ep) is := by
  have hguarded := hkeeps.allStates (fun c i hc hi => Guarded.step hc hi)
    (guarded_establish cc now hkeyed hrates)
  exact hguarded.mono fun c hc => hc.confidential

end Conn

namespace Conn

open scoped XorCipher

def counterContext : Context :=
  let slot : Slot := { sek := some (List.replicate 16 7), cipher := some (List.replicate 16 7) }
  { mode := .ctr, keyLength := 16, salt := List.replicate 16 0, even := slot, odd := slot
    entropy := fun n => some (List.replicate 16 (UInt8.ofNat n)) }

def rotating : EstablishParams :=
  { cryptoCtx := some counterContext, activeKey := .even, passphrase := "swordfish"
    kmRefreshRate := 4, kmPreAnnounce := 1 }

/-- An announcement by someone who does not know the passphrase. -/
def forgedKMREQ (mode : CipherMode) : Packet :=
  let p := Packet.newControl .user 0 0
  { p with
    header := { p.header with subType := .kmReq }
    data := CIFKeyMaterial.marshalCIF
      { version := 1, packetType := 2, sign := 0x2029, keyBasedEncryption := .even
        cipher := mode.code, authentication := if mode = .gcm then 1 else 0
        streamEncapsulation := 2, sLen := 16, kLen := 16
        salt := List.replicate 16 0, wrap := List.replicate 24 0 } }

def sixWrites : List Input :=
  (List.range 6).map fun n : ℕ => .write (100000 * (n + 1)) [1, 2, 3] {}

theorem run_confidential_rotating :
    Run.AllStates step Confidential (establish (LiveCC.new 0 0) 0 rotating)
      (.packet 1000 (forgedKMREQ .ctr) :: sixWrites) := by
  have hkeeps : Run.AllSteps step KeepsMode (establish (LiveCC.new 0 0) 0 rotating)
      (.packet 1000 (forgedKMREQ .ctr) :: sixWrites) := by
    decide +kernel
  exact run_confidential _ _ ⟨counterContext, rfl, by decide, _, rfl, rfl, by decide⟩
    (by decide) hkeeps

def leaked : Packet :=
  let p := Packet.newData 0 2000 0 [1, 2, 3]
  { p with header := { p.header with
      messageNumber := 1, packetPosition := .single, order := false, encryption := .even } }

/-- The forged announcement is refused, but from then on the connection sends its payload
as it is. -/
theorem plaintext_after_forged_KMREQ :
    ¬Run.AllStates step Confidential (establish (LiveCC.new 0 0) 0 rotating)
      [.packet 1000 (forgedKMREQ .gcm), .write 2000 [1, 2, 3] {}] := by
  intro h
  have hsent : .sendPacket leaked false ∈
      (Run.exec step (establish (LiveCC.new 0 0) 0 rotating)
        [.packet 1000 (forgedKMREQ .gcm), .write 2000 [1, 2, 3] {}]).outputs := by
    decide +kernel
  obtain ⟨t, ht, -, hsealed⟩ := h.exec leaked hsent
  revert t
  decide +kernel

end Conn

end SrtGo.Core
