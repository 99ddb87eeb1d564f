import SrtGo.Crypto.KeyMaterial
import SrtGo.Secure.Slots

/-!
# Two connections that share a key

Two connections, joined by a network that may lose, duplicate and reorder: whatever one
side has ever sent may arrive at the other, any number of times, at any time, or never.
Nothing else arrives, and in particular no key announcement is forged.

The sides agree on the cipher mode, the salt, the key length and the nonce, and this file
shows that they go on to do so.  It also says what is on the wire: a data packet is a copy of a
transmission, and a transmission is its plaintext under the key that the sender had in
the slot.  Nothing is said of the keys themselves, which may come to differ.
-/

namespace SrtGo.Core

open Buffer Bytes Congestion Crypto Context

/-! ## The network -/

abbrev Pair (σ : Type) := Bool → Conn σ

/-- What can happen to a pair: the host of one side does something, or the `k`-th output
of the other side arrives. -/
inductive PairAction where
  | host (side : Bool) (i : Input)
  | deliver (side : Bool) (now : ℤ) (k : ℕ)

namespace Pair

variable {σ : Type}

def side : PairAction → Bool
  | .host x _ => x
  | .deliver x _ _ => x

def packetAt (l : Pair σ) (x : Bool) (k : ℕ) : Option Packet :=
  (l x).outputs[k]?.bind Output.packet?

/-- The input that an action amounts to.  A host cannot bring in packets. -/
def input? (l : Pair σ) : PairAction → Option Input
  | .host _ (.packet _ _) => none
  | .host _ i => some i
  | .deliver x now k => (l.packetAt (!x) k).map (.packet now)

variable [Controller σ] [Primitives]

def step (l : Pair σ) (a : PairAction) : Pair σ :=
  match l.input? a with
  | none => l
  | some i => Function.update l (side a) ((l (side a)).step i)

variable {a : PairAction} {l : Pair σ}

theorem step_of_none (h : l.input? a = none) : l.step a = l := by
  unfold step
  rw [h]

variable {i : Input}

theorem step_of_some (h : l.input? a = some i) :
    l.step a (side a) = (l (side a)).step i ∧ l.step a (!side a) = l (!side a) := by
  unfold step
  rw [h]
  exact ⟨Function.update_self _ _ _, Function.update_of_ne (by simp) _ _⟩

def new (cc : Bool → σ) (now : Bool → ℤ) (ep : Bool → EstablishParams) : Pair σ :=
  fun x => Conn.establish (cc x) (now x) (ep x)

end Pair

/-! ## What is on the wire -/

def IsCopy (p w : Packet) : Prop := p = w ∨ p = SendBuffer.retransmission w

instance (p w : Packet) : Decidable (IsCopy p w) := inferInstanceAs (Decidable (_ ∨ _))

variable {p : Packet} {key : PacketEncryption}

theorem IsCopy.fields {w : Packet} (h : IsCopy p w) : p.data = w.data ∧
    p.header.sequenceNumber = w.header.sequenceNumber ∧
      p.header.encryption = w.header.encryption := by
  rcases h with rfl | rfl <;> exact ⟨rfl, rfl, rfl⟩

/-- What the two sides agree on, apart from the keys.  The nonce matters in the
authenticated mode only. -/
structure Terms where
  mode : CipherMode
  salt : Bytes
  keyLength : ℕ
  legacy : Bool := false

structure Agreed (T : Terms) (ctx : Context) : Prop where
  mode : ctx.mode = T.mode
  salt : ctx.salt = T.salt
  keyLength : ctx.keyLength = T.keyLength
  legacy : ctx.mode = .gcm → ctx.useGcm153 = T.legacy

namespace Agreed

variable {T : Terms} {ctx ctx' : Context} {km : CIFKeyMaterial} {k : KeySide}

theorem congr (h : Agreed T ctx) (hmode : ctx'.mode = ctx.mode) (hsalt : ctx'.salt = ctx.salt)
    (hlen : ctx'.keyLength = ctx.keyLength) (hlegacy : ctx'.useGcm153 = ctx.useGcm153) :
    Agreed T ctx' :=
  ⟨hmode.trans h.mode, hsalt.trans h.salt, hlen.trans h.keyLength,
    fun hgcm => hlegacy.trans (h.legacy (hmode ▸ hgcm))⟩

theorem setSlot (h : Agreed T ctx) (key : PacketEncryption) (s : Slot) :
    Agreed T (ctx.setSlot key s) := by
  obtain ⟨hmode, hlen, hsalt, -, -, hlegacy⟩ := setSlot_fields ctx key s
  exact h.congr hmode hsalt hlen hlegacy

theorem generateSEK (h : Agreed T ctx) (hkey : key = .even ∨ key = .odd) :
    Agreed T (ctx.generateSEK key).1 := by
  have hdrawn : Agreed T { ctx with drawn := ctx.drawn + 1 } := h.congr rfl rfl rfl rfl
  rcases ctx.generateSEK_cases hkey with ⟨e, hgen⟩ | ⟨sek, -, -, hgen⟩
  · rw [hgen]
    exact hdrawn
  · rw [hgen]
    exact hdrawn.setSlot key _

theorem advance (h : Agreed T ctx) (hctx : k.cryptoCtx = some ctx) (R P : ℕ) :
    ∃ ctx', (k.advance R P).cryptoCtx = some ctx' ∧ Agreed T ctx' := by
  -- switching leaves the context alone and clearing replaces a slot
  have hphases : ∀ (k : KeySide) (ctx : Context), k.cryptoCtx = some ctx → Agreed T ctx →
      ∃ ctx', ((k.switchKey R).decommission P).cryptoCtx = some ctx' ∧ Agreed T ctx' := by
    intro k ctx hctx h
    have hswitch : (k.switchKey R).cryptoCtx = some ctx := by
      unfold KeySide.switchKey
      split_ifs <;> exact hctx
    unfold KeySide.decommission
    split_ifs
    · exact ⟨_, congrArg (Option.map _) hswitch, h.setSlot _ _⟩
    · exact ⟨ctx, hswitch, h⟩
    · exact ⟨ctx, hswitch, h⟩
  unfold KeySide.advance
  simp only [hctx]
  split_ifs
  · have hgen := h.generateSEK (oppositeKey_even_or_odd k.activeKey)
    cases hres : ctx.generateSEK (oppositeKey k.activeKey) with
    | mk ctx' e =>
      rw [hres] at hgen
      cases e with
      | some e => exact ⟨ctx', rfl, hgen⟩
      | none => exact hphases (k.count.announce ctx' (oppositeKey k.activeKey)) ctx' rfl hgen
  · exact hphases k.count ctx hctx h

theorem of_adopt [Primitives] (hkeys : km.keyBasedEncryption ≠ .none)
    (hadopt : Agreed T (ctx.adopt km))
    (passphrase : String) : Agreed T (ctx.unmarshalKM km passphrase).1 := by
  rcases ctx.unmarshalKM_cases km passphrase with ⟨-, hnone⟩ | ⟨even, odd, hnew, -⟩
  · exact absurd hnone hkeys
  · rw [hnew]
    exact hadopt.congr rfl rfl rfl rfl

theorem unmarshalKM [Primitives] (h : Agreed T ctx) (hsalt : km.salt = T.salt)
    (hcipher : km.cipher = T.mode.code) (passphrase : String) :
    Agreed T (ctx.unmarshalKM km passphrase).1 := by
  rcases ctx.unmarshalKM_cases km passphrase with ⟨hsame, -⟩ | ⟨even, odd, hnew, -⟩
  · rw [hsame]
    exact h
  · rw [hnew]
    refine h.congr ?_ ?_ rfl rfl
    · rw [h.mode]
      cases hT : T.mode <;> simp [adopt, hcipher, hT, CipherMode.code]
    · simp only [adopt, hsalt, h.salt]
      split_ifs <;> rfl

theorem request [Primitives] (h : Agreed T ctx) (hctx : k.cryptoCtx = some ctx)
    (passphrase : String) {data : Bytes}
    (hkm : ∀ km, CIFKeyMaterial.unmarshalCIF data = .ok km → km.salt = T.salt ∧
      km.cipher = T.mode.code) :
    ∃ ctx', (k.request passphrase data).cryptoCtx = some ctx' ∧ Agreed T ctx' := by
  rcases (k.request_cases passphrase data).2 with hsame | ⟨ctx₁, km, hctx₁, hdata, hnew⟩
  · exact ⟨ctx, hsame.trans hctx, h⟩
  · obtain rfl : ctx = ctx₁ := Option.some.inj (hctx.symm.trans hctx₁)
    obtain ⟨hsalt, hcipher⟩ := hkm km hdata
    exact ⟨_, hnew, h.unmarshalKM hsalt hcipher passphrase⟩

end Agreed

section
variable [Primitives] {now : ℤ}

/-- The wire carries the plaintext under the key of the slot that the header names, if
there is one. -/
def Transmission.Made (T : Terms) (t : Transmission) : Prop :=
  t.plain.header.isControl = false ∧ t.plain.header.retransmitted = false ∧
    t.wire.header = { t.plain.header with encryption := t.wire.header.encryption } ∧
    ∃ ctx, t.context = some ctx ∧ Agreed T ctx ∧
      ((ctx.keyOf t.wire.header.encryption).isSome = true →
        ctx.encryptPayload t.plain.data (if ctx.mode = .gcm then t.wire.header.marshal else [])
          t.wire.header.encryption t.plain.header.sequenceNumber = .ok t.wire.data)

/-- A packet on the wire is a copy of a transmission, and an announcement names the salt
and the mode that were agreed on. -/
structure Explained (T : Terms) (history : List Transmission) (p : Packet) : Prop where
  data : p.header.isControl = false → ∃ t ∈ history, IsCopy p t.wire
  announcement : p.header.isControl = true ∧ p.header.controlType = .user ∧
    p.header.subType = .kmReq →
    ∀ km, CIFKeyMaterial.unmarshalCIF p.data = .ok km →
      km.salt = T.salt ∧ km.cipher = T.mode.code

namespace Conn

variable {σ : Type}

structure Truthful (T : Terms) (c : Conn σ) : Prop where
  fecSender : c.snd.fecSender = none
  context : ∃ ctx, c.key.cryptoCtx = some ctx ∧ Agreed T ctx
  made : ∀ t ∈ c.history, t.Made T
  held : ∀ j, (c.snd.sendBuf.entries j).used = true →
    ∃ t ∈ c.history, (c.snd.sendBuf.entries j).pkt = t.wire
  onWire : ∀ p owned, .sendPacket p owned ∈ c.outputs → Explained T c.history p

variable {T : Terms} {c c' : Conn σ} {ctx : Context}

omit [Primitives] in
theorem explained_of_signal {owned : Bool} (h : Signal (.sendPacket p owned))
    (history : List Transmission) :
    Explained T history p :=
  ⟨fun hdata => absurd h.2.1 (by simp [hdata]), fun hreq => absurd hreq.2 h.2.2⟩

theorem Truthful.of_emits (h : c.Truthful T) (hfec : c'.snd.fecSender = c.snd.fecSender)
    (hcontext : ∃ ctx, c'.key.cryptoCtx = some ctx ∧ Agreed T ctx)
    (hhistory : c'.history = c.history) (hbuf : c.snd.sendBuf.Within c'.snd.sendBuf)
    (hemits : Emits (fun o => Signal o ∨ ∃ p owned, o = .sendPacket p owned ∧
      Explained T c.history p) c c') : c'.Truthful T := by
  refine ⟨hfec.trans h.fecSender, hcontext, hhistory ▸ h.made, fun j hj => ?_, fun p owned hp => ?_⟩
  · obtain ⟨k, hk, hpkt⟩ := hbuf j hj
    obtain ⟨t, ht, hwire⟩ := h.held k hk
    exact ⟨t, hhistory ▸ ht, hpkt.trans hwire⟩
  · rw [hhistory]
    rcases hemits.mem hp with hp | hsignal | ⟨q, _, heq, hexplained⟩
    · exact h.onWire p owned hp
    · exact explained_of_signal hsignal _
    · obtain ⟨rfl, -⟩ := Output.sendPacket.inj heq
      exact hexplained

theorem made_encrypt (hctx : c.key.cryptoCtx = some ctx) (hagreed : Agreed T ctx) (seqNo ts : ℕ)
    (f : Frame) :
    (Transmission.mk c.key.cryptoCtx (c.framePacket seqNo ts f)
      (c.encrypt (c.framePacket seqNo ts f) seqNo)).Made T := by
  unfold encrypt
  simp only [hctx]
  cases henc : ctx.encryptPayload (c.framePacket seqNo ts f).data
      (if ctx.mode = .gcm then { (c.framePacket seqNo ts f).header with
        encryption := c.key.activeKey }.marshal else []) c.key.activeKey seqNo with
  | ok enc => exact ⟨rfl, rfl, rfl, ctx, rfl, hagreed, fun _ => henc⟩
  | error e =>
    -- without a key in the slot the packet goes out as it is
    refine ⟨rfl, rfl, rfl, ctx, rfl, hagreed, fun hkey => ?_⟩
    obtain ⟨out, hok⟩ := Context.exists_encryptPayload_iff.mpr hkey
    exact absurd (henc.symm.trans hok) (by simp)

theorem Truthful.transmit [Controller σ] (h : c.Truthful T) {sb : SendBuffer} {seqNo ts : ℕ}
    {f : Frame}
    (hpush : c.snd.sendBuf.push (c.encrypt (c.framePacket seqNo ts f) seqNo) now = some sb) :
    (c.transmit now (tagTTL sb f.ttlNs) (c.framePacket seqNo ts f)
      (c.encrypt (c.framePacket seqNo ts f) seqNo)).Truthful T := by
  obtain ⟨ctx, hctx, hagreed⟩ := h.context
  have hnew := made_encrypt hctx hagreed seqNo ts f
  refine ⟨h.fecSender, ⟨ctx, hctx, hagreed⟩, fun t ht => ?_, fun j hj => ?_, fun p owned hp => ?_⟩
  · rcases List.mem_append.mp ht with ht | ht
    · exact h.made t ht
    · rw [List.mem_singleton.mp ht]
      exact hnew
  · rcases pkt_of_push hpush hj with heq | ⟨k, hused, heq⟩
    · exact ⟨_, List.mem_append_right _ (List.mem_singleton_self _), heq⟩
    · obtain ⟨t, ht, hwire⟩ := h.held k hused
      exact ⟨t, List.mem_append_left _ ht, heq.trans hwire⟩
  · rcases List.mem_append.mp hp with hp | hp
    · obtain ⟨hdata, hann⟩ := h.onWire p owned hp
      refine ⟨fun hp => ?_, hann⟩
      obtain ⟨t, ht, hcopy⟩ := hdata hp
      exact ⟨t, List.mem_append_left _ ht, hcopy⟩
    · obtain ⟨rfl, -⟩ := Output.sendPacket.inj (List.mem_singleton.mp hp)
      refine ⟨fun _ => ⟨_, List.mem_append_right _ (List.mem_singleton_self _), Or.inl rfl⟩,
        fun hreq => absurd hreq.1 ?_⟩
      rw [show (c.encrypt (c.framePacket seqNo ts f) seqNo).header.isControl = false by
        rw [hnew.2.2.1]; exact hnew.1]
      simp

theorem Truthful.explained_of_copyOf (h : c.Truthful T) (hcopy : c.snd.sendBuf.CopyOf p) :
    Explained T c.history p := by
  obtain ⟨j, hused, rfl⟩ := hcopy
  obtain ⟨t, ht, hwire⟩ := h.held j hused
  have hdata : (c.snd.sendBuf.entries j).pkt.header.isControl = false := by
    rw [hwire, (h.made t ht).2.2.1]
    exact (h.made t ht).1
  refine ⟨fun _ => ⟨t, ht, Or.inr (by rw [hwire])⟩, fun hreq => ?_⟩
  exact absurd hreq.1 (by simp [SendBuffer.retransmission, hdata])

theorem truthful_establish [Controller σ] (cc : σ) (now : ℤ) {ep : EstablishParams}
    (hctx : ep.context = some ctx) (hagreed : Agreed T ctx) (hfilter : ep.filterConfig = "") :
    (establish cc now ep).Truthful T := by
  have harm := quiet_establish cc now ep
  have hfec : ep.filter = none := if_pos hfilter
  refine Truthful.of_emits (c := established cc now ep) ⟨?_, ?_, ?_, ?_, ?_⟩ harm.fecSender ?_
    harm.history (by rw [harm.sendBuf]; exact SendBuffer.Within.refl _)
    (harm.emits.mono fun _ => Or.inl)
  · simp [established, hfec]
  · exact ⟨ctx, hctx, hagreed⟩
  · exact fun t ht => absurd ht (by simp [established])
  · exact fun j hj => absurd hj (by simp [established, SendBuffer.new])
  · exact fun p owned hp => absurd hp (by simp [established])
  · rw [harm.key]
    exact ⟨ctx, hctx, hagreed⟩

variable [LawfulPrimitives]

/-- With the key of the sender, a copy of a transmission is decrypted to its plaintext. -/
theorem decryptPayload_of_made {sender : Context} {t : Transmission} (hagreed : Agreed T ctx)
    (hmade : t.Made T) (hsender : t.context = some sender) (hcopy : IsCopy p t.wire)
    (hkey : ctx.keyOf p.header.encryption = sender.keyOf p.header.encryption)
    (hsome : (ctx.keyOf p.header.encryption).isSome = true) :
    ctx.decryptPayload p.data
      (if ctx.mode = .gcm then { p.header with retransmitted := false }.marshal
      else []) p.header.encryption p.header.sequenceNumber = .ok t.plain.data := by
  obtain ⟨-, hfirst, hheader, ctx', hctx', hagreed', hwire⟩ := hmade
  obtain rfl : sender = ctx' := Option.some.inj (hsender.symm.trans hctx')
  obtain ⟨hdata, hseq, henc⟩ := hcopy.fields
  have hmode : ctx.mode = sender.mode := hagreed.mode.trans hagreed'.mode.symm
  have hwireFirst : t.wire.header.retransmitted = false := by
    rw [hheader]
    exact hfirst
  -- the mark of a copy is not authenticated
  have haad : { p.header with retransmitted := false } = t.wire.header := by
    rcases hcopy with rfl | rfl <;> simp [SendBuffer.retransmission, ← hwireFirst]
  have hsealed := hwire (by rwa [← henc, ← hkey])
  rw [haad, hdata, hseq, show t.wire.header.sequenceNumber = t.plain.header.sequenceNumber by
    rw [hheader], henc, hmode]
  refine decryptPayload_encryptPayload hmode (hagreed.salt.trans hagreed'.salt.symm)
    (fun hgcm => (hagreed.legacy hgcm).trans (hagreed'.legacy (hmode ▸ hgcm)).symm)
      (henc ▸ hkey) hsealed

theorem explained_of_announces (hlen : validKeySize T.keyLength = true) (hsalt : T.salt.length = 16)
    (hagreed : Agreed T ctx) {o : Output} (h : c.Announces ctx key o)
    (history : List Transmission) :
    ∃ p owned, o = .sendPacket p owned ∧ Explained T history p := by
  obtain ⟨now, km, hkm, rfl⟩ := h
  refine ⟨_, _, rfl, fun hdata => absurd hdata (by simp [userControl, control, Packet.newControl]),
    fun _ km' hkm' => ?_⟩
  have hround := CIFKeyMaterial.unmarshalCIF_marshalCIF
    (wellFormed_marshalKM (by rw [hagreed.keyLength]; exact hlen) hkm)
  obtain rfl : km = km' := Except.ok.inj (hround.symm.trans hkm')
  obtain ⟨-, -, heq⟩ := marshalKM_eq hkm
  rw [heq]
  exact ⟨by rw [hagreed.salt]; exact fit_of_length hsalt, by rw [hagreed.mode]⟩

/-! ## One move of a side -/

theorem Truthful.step [Controller σ] (hlen : validKeySize T.keyLength = true)
    (hsalt : T.salt.length = 16)
    (h : c.Truthful T) (hin : ∀ now p, i = .packet now p → ∃ history, Explained T history p) :
    (c.step i).Truthful T := by
  refine send_preserves c i h fun c₁ c₂ hmove hc₁ => ?_
  obtain ⟨ctx, hctx, hagreed⟩ := hc₁.context
  cases hmove with
  | aside hmove =>
    refine hc₁.of_emits ?_ ?_ hmove.history hmove.sendBuf (hmove.emits.mono fun o ho => ?_)
    · have hnone := hmove.fecSender
      rw [hc₁.fecSender] at hnone
      simpa [hc₁.fecSender] using hnone
    · rcases hmove.key.same_or_request with hsame | ⟨now, p, hi, -, hp, hrequest⟩
      · rw [hsame.cryptoCtx]
        exact hc₁.context
      · obtain ⟨history, hexplained⟩ := hin now p hi
        rw [hrequest]
        exact hagreed.request hctx _ (hexplained.announcement (Packet.isKMREQ_iff.mp hp))
    · cases ho with
      | signal hsignal => exact Or.inl hsignal
      | copy hcopy => exact Or.inr ⟨_, _, rfl, hc₁.explained_of_copyOf hcopy⟩
      | repair fp hfec => exact absurd hfec (by simp [hc₁.fecSender])
      | announce hi hannounced hctx₁ hannounces =>
        obtain rfl := Option.some.inj (hctx.symm.trans hctx₁)
        exact Or.inr (explained_of_announces hlen hsalt hagreed hannounces _)
  | transmit hpush => exact hc₁.transmit hpush
  | rotate hrate =>
    have hframe := keyFrame_checkKeyRotation c₁ i.now
    refine hc₁.of_emits (by rw [hframe.snd]) ?_ hframe.history
      (by rw [hframe.snd]; exact SendBuffer.Within.refl _)
      ((emits_checkKeyRotation c₁ i.now).mono fun o ho => ?_)
    · rw [key_checkKeyRotation]
      exact hagreed.advance hctx _ _
    · rcases ho with hsignal | ⟨ctx₁, ctx₂, hctx₁, -, hgen, hannounces⟩
      · exact Or.inl hsignal
      · obtain rfl : ctx = ctx₁ := Option.some.inj (hctx.symm.trans hctx₁)
        have hdrawn := hagreed.generateSEK (oppositeKey_even_or_odd c₁.key.activeKey)
        rw [hgen] at hdrawn
        exact Or.inr (explained_of_announces hlen hsalt hdrawn hannounces _)

omit [LawfulPrimitives] in
theorem mem_history_step [Controller σ] (c : Conn σ) (i : Input) :
    ∀ t ∈ c.history, t ∈ (c.step i).history := by
  refine send_preserves (Q := fun c' => ∀ t ∈ c.history, t ∈ c'.history) c i (fun _ ht => ht)
    fun c₁ c₂ hmove hc₁ t ht => ?_
  have hold := hc₁ t ht
  cases hmove with
  | aside hmove => exact hmove.history ▸ hold
  | transmit hpush => exact List.mem_append_left _ hold
  | rotate hrate => exact (keyFrame_checkKeyRotation c₁ i.now).history ▸ hold

end Conn

namespace Pair

variable {σ : Type} {l : Pair σ}

omit [Primitives] in
theorem mem_outputs_of_packetAt {x : Bool} {k : ℕ} (h : l.packetAt x k = some p) :
    ∃ owned, .sendPacket p owned ∈ (l x).outputs := by
  obtain ⟨o, ho, hp⟩ := Option.bind_eq_some_iff.mp h
  have hmem := List.mem_of_getElem? ho
  cases o with
  | sendPacket q owned =>
    obtain rfl := Option.some.inj hp
    exact ⟨owned, hmem⟩
  | setTimer id deadline => exact absurd hp (by simp [Output.packet?])
  | clearTimer id => exact absurd hp (by simp [Output.packet?])

omit [Primitives] in
theorem packetAt_of_input (h : l.input? a = some (.packet now p)) :
    ∃ k, a = .deliver (side a) now k ∧ l.packetAt (!side a) k = some p := by
  cases a with
  | host x i => cases i <;> simp [input?] at h
  | deliver x now' k =>
    simp only [input?, Option.map_eq_some_iff, Input.packet.injEq] at h
    obtain ⟨q, hq, rfl, rfl⟩ := h
    exact ⟨k, rfl, hq⟩

end Pair

end

end SrtGo.Core
