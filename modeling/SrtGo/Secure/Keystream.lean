import SrtGo.Secure.Duplex
import SrtGo.Flow.Outgoing

/-!
# One key stream for each packet

A packet is encrypted with a key and with an initial counter block, or a nonce, that is made of
the salt and of its sequence number.  Two packets under the same key with the same number are
encrypted with the same key stream, and whoever sees both knows their difference.

Nothing in the counter block tells the two directions apart.  The handshake gives both ends the
same salt, the same first key and the same first sequence number, so that the first packets of the
two directions share a key stream.  What keeps key streams apart is the key: no two packets share
one if no end sends under a key that the other end has sent under, and no key lasts for `2 ^ 31`
packets of one end.
-/

namespace SrtGo.Crypto.Context

open Bytes

def ivOf (ctx : Context) (seqNo : ℕ) : Bytes :=
  match ctx.mode with
  | .ctr => ctrIV ctx.salt seqNo
  | .gcm => buildGCMNonce ctx.salt seqNo ctx.useGcm153

variable {salt : Bytes}

theorem ctrIV_injective {n m : ℕ} (hn : n < 2 ^ 32) (hm : m < 2 ^ 32)
    (h : ctrIV salt n = ctrIV salt m) :
    n = m := by
  have hmasked := xorInto_injective _ (List.append_cancel_right h)
  exact putBE_inj hn hm (List.append_cancel_left hmasked)

theorem buildGCMNonce_injective {legacy : Bool} {n m : ℕ} (hn : n < 2 ^ 32) (hm : m < 2 ^ 32)
    (h : buildGCMNonce salt n legacy = buildGCMNonce salt m legacy) : n = m := by
  unfold buildGCMNonce at h
  cases legacy with
  | false => exact putBE_inj hn hm (List.append_cancel_left (xorInto_injective _ h))
  | true =>
    -- the number is behind the four bytes that are left out
    simp only [if_true, drop_xorInto] at h
    have htail : ∀ n, (List.replicate 12 (0 : UInt8) ++ putBE 4 n).drop 4 =
        List.replicate 8 0 ++ putBE 4 n := fun n => rfl
    rw [htail, htail] at h
    exact putBE_inj hn hm (List.append_cancel_left (xorInto_injective _ h))

/-- The counter blocks that are encrypted for a payload: one for each sixteen bytes begun. -/
def counterBlocks (salt : Bytes) (seqNo len : ℕ) : List Bytes :=
  (List.range ((len + 15) / 16)).map fun i => putBE 16 (readBE (ctrIV salt seqNo) + i)

section
variable [Primitives] [LawfulPrimitives]

theorem length_keyStream (key iv : Bytes) (n : ℕ) : (keyStream key iv n).length = 16 * n := by
  induction n with
  | zero => rfl
  | succ n ih =>
    have hlast := LawfulPrimitives.length_encrypt key (putBE 16 (readBE iv + n)) (length_putBE 16 _)
    unfold keyStream at ih ⊢
    rw [List.range_succ, List.flatMap_append, List.length_append, ih, List.flatMap_singleton, hlast]
    ring

theorem xorPayload_eq_counterBlocks {ctx : Context} {key : PacketEncryption} {block : Bytes}
    (hkey : (ctx.slot key).bind Slot.cipher = some block) (data : Bytes) (seqNo : ℕ) :
    ctx.xorPayload data key seqNo =
      .ok (xorInto data ((counterBlocks ctx.salt seqNo data.length).flatMap
        (Primitives.encrypt block))) := by
  have hstream : (counterBlocks ctx.salt seqNo data.length).flatMap (Primitives.encrypt block) =
      keyStream block (ctrIV ctx.salt seqNo) ((data.length + 15) / 16) := by
    rw [counterBlocks, List.flatMap_map, keyStream]
  unfold xorPayload
  simp only [hkey]
  rw [hstream]
  by_cases hfull : (data.length + 15) / 16 = data.length / 16 + 1
  · rw [hfull]
  · have hlen : data.length ≤
        (keyStream block (ctrIV ctx.salt seqNo) ((data.length + 15) / 16)).length := by
      rw [length_keyStream]
      omega
    rw [show data.length / 16 + 1 = (data.length + 15) / 16 + 1 by omega, keyStream,
      List.range_succ, List.flatMap_append]
    exact congrArg _ (xorInto_append_of_le hlen _)

end

theorem readBE_ctrIV (salt : Bytes) (seqNo : ℕ) : ∃ head : Bytes, head.length = 14 ∧
    ctrIV salt seqNo = head ++ [0, 0] ∧ readBE (ctrIV salt seqNo) = 2 ^ 16 * readBE head := by
  refine ⟨xorInto (List.replicate 10 0 ++ putBE 4 seqNo) (salt.take 14), ?_, rfl, ?_⟩
  · simp
  · rw [ctrIV, readBE_append]
    simp [readBE]
    ring

/-- **No two packets share a counter block.**  The nonces are different as well, in both formats. -/
theorem counter_blocks_disjoint [Primitives] [LawfulPrimitives] (salt : Bytes) {s t : ℕ}
    (hs : Seq.Valid s) (ht : Seq.Valid t) (hst : s ≠ t) :
    (∀ n ≤ 2 ^ 20, ∀ m ≤ 2 ^ 20, (counterBlocks salt s n).Disjoint (counterBlocks salt t m)) ∧
    (∀ legacy, buildGCMNonce salt s legacy ≠ buildGCMNonce salt t legacy) ∧
    ∀ (ctx : Context) (key : PacketEncryption) (block data : Bytes), ctx.salt = salt →
      (ctx.slot key).bind Slot.cipher = some block →
      ctx.xorPayload data key s =
        .ok (xorInto data ((counterBlocks salt s data.length).flatMap
          (Primitives.encrypt block))) := by
  have hs' : s < 2 ^ 32 := hs.lt.trans (by norm_num)
  have ht' : t < 2 ^ 32 := ht.lt.trans (by norm_num)
  refine ⟨fun n hn m hm b hb hb' => ?_, fun legacy h => hst (buildGCMNonce_injective hs' ht' h), ?_⟩
  · obtain ⟨i, hi, rfl⟩ := List.mem_map.mp hb
    obtain ⟨j, hj, heq⟩ := List.mem_map.mp hb'
    rw [List.mem_range] at hi hj
    obtain ⟨x, hx, hxs, hxr⟩ := readBE_ctrIV salt s
    obtain ⟨y, hy, hyt, hyr⟩ := readBE_ctrIV salt t
    have hread := congrArg readBE heq
    have hxlt := readBE_lt x
    have hylt := readBE_lt y
    rw [hx] at hxlt
    rw [hy] at hylt
    rw [readBE_putBE, readBE_putBE, hxr, hyr, Nat.mod_eq_of_lt (by omega),
      Nat.mod_eq_of_lt (by omega)] at hread
    have hhead : readBE x = readBE y := by omega
    have hxy : x = y := by rw [← putBE_readBE x, ← putBE_readBE y, hhead, hx, hy]
    exact hst (ctrIV_injective hs' ht' (hxs.trans (hxy ▸ hyt.symm)))
  · rintro ctx key block data rfl hkey
    exact xorPayload_eq_counterBlocks hkey data s

open scoped XorCipher in
theorem counter_blocks_disjoint_first : (counterBlocks (List.replicate 16 0) 0 16).Disjoint
    (counterBlocks (List.replicate 16 0) 1 16) :=
  (counter_blocks_disjoint (List.replicate 16 0) ⟨by decide⟩ ⟨by decide⟩ Nat.zero_ne_one).1 16
    (by decide) 16 (by decide)

end SrtGo.Crypto.Context

namespace SrtGo.Core

open Buffer Bytes Congestion Crypto Run SrtGo.Seq

theorem Agreed.seqNo_eq {T : Terms} {ctx ctx' : Context} (h : Agreed T ctx) (h' : Agreed T ctx')
    {n m : ℕ} (hn : n < 2 ^ 32) (hm : m < 2 ^ 32) (hiv : ctx.ivOf n = ctx'.ivOf m) : n = m := by
  unfold Context.ivOf at hiv
  rw [h.salt, h'.salt, h.mode, h'.mode] at hiv
  cases hmode : T.mode with
  | ctr =>
    simp only [hmode] at hiv
    exact Context.ctrIV_injective hn hm hiv
  | gcm =>
    simp only [hmode, h.legacy (h.mode.trans hmode), h'.legacy (h'.mode.trans hmode)] at hiv
    exact Context.buildGCMNonce_injective hn hm hiv

variable {s : Bytes × Bytes} {t : Transmission}

namespace Transmission

def key? (t : Transmission) : Option Bytes :=
  t.context.bind fun ctx => ctx.keyOf t.wire.header.encryption

/-- The key and the counter block, or nonce, that a packet was encrypted with. -/
def stream? (t : Transmission) : Option (Bytes × Bytes) :=
  t.context.bind fun ctx => (ctx.keyOf t.wire.header.encryption).map fun key =>
    (key, ctx.ivOf t.wire.header.sequenceNumber)

theorem key?_of_stream? (h : t.stream? = some s) : t.key? = some s.1 := by
  obtain ⟨ctx, hctx, hmap⟩ := Option.bind_eq_some_iff.mp h
  obtain ⟨key, hkey, rfl⟩ := Option.map_eq_some_iff.mp hmap
  exact Option.bind_eq_some_iff.mpr ⟨ctx, hctx, hkey⟩

end Transmission

variable {i : Input} {ep : Bool → EstablishParams}

namespace Conn

variable {σ : Type} {c c' : Conn σ} {isn s : ℕ} {cell : ℕ → SendEntry}

/-! ## The keys of one step

Each packet advances the rotation by one, and a rotation draws at most one key.  So `k` packets go
out under keys that are known before the first of them.
-/

/-- The keys that the next `k` packets can be sent under: the active one, the one that has been
announced, and those that are drawn next. -/
def MayUse (c : Conn σ) (k : ℕ) (key : Bytes) : Prop :=
  ∃ ctx ∈ c.key.cryptoCtx, ctx.keyOf c.key.activeKey = some key ∨
    c.key.kmAnnounced = true ∧ ctx.keyOf (oppositeKey c.key.activeKey) = some key ∨
    ∃ n < k, (ctx.entropy (ctx.drawn + n)).map (fit ctx.keyLength) = some key

instance (c : Conn σ) (k : ℕ) (key : Bytes) : Decidable (c.MayUse k key) :=
  inferInstanceAs (Decidable (∃ ctx ∈ c.key.cryptoCtx, _ ∨ _ ∨ ∃ n < k, _))

theorem MayUse.mono {k k' : ℕ} {key : Bytes} (h : c.MayUse k key) (hle : k ≤ k') :
    c.MayUse k' key := by
  obtain ⟨ctx, hctx, hactive | hannounced | ⟨n, hn, hdraw⟩⟩ := h
  · exact ⟨ctx, hctx, Or.inl hactive⟩
  · exact ⟨ctx, hctx, Or.inr (Or.inl hannounced)⟩
  · exact ⟨ctx, hctx, Or.inr (Or.inr ⟨n, hn.trans_le hle, hdraw⟩)⟩

/-- After `k` packets a slot holds one of these keys, and at most `k` have been drawn. -/
structure Limits (c : Conn σ) (start : Context) (k : ℕ) (ctx : Context) (key : PacketEncryption) :
    Prop where
  entropy : ctx.entropy = start.entropy
  keyLength : ctx.keyLength = start.keyLength
  drawn : start.drawn ≤ ctx.drawn ∧ ctx.drawn ≤ start.drawn + k
  allowed : ∀ sek, ctx.keyOf key = some sek → c.MayUse k sek

variable {start ctx : Context} {k : ℕ} {key other : PacketEncryption} {p : Packet}

theorem Limits.succ {ctx' : Context} (h : Limits c start k ctx key)
    (hentropy : ctx'.entropy = ctx.entropy)
    (hlen : ctx'.keyLength = ctx.keyLength) (hdrawn : ctx.drawn ≤ ctx'.drawn ∧
      ctx'.drawn ≤ ctx.drawn + 1)
    (hkey : ctx'.keyOf key = ctx.keyOf key) : Limits c start (k + 1) ctx' key := by
  have hbound := h.drawn
  refine ⟨hentropy.trans h.entropy, hlen.trans h.keyLength, by omega, fun sek hsek => ?_⟩
  rw [hkey] at hsek
  exact (h.allowed sek hsek).mono (Nat.le_succ k)

theorem keyOf_setSlot_of_ne (ctx : Context) (hne : key ≠ other) (s : Slot) :
    (ctx.setSlot other s).keyOf key = ctx.keyOf key := by
  unfold Context.keyOf
  rw [Context.slot_setSlot_of_ne ctx hne, (Context.setSlot_fields ctx other s).1]

theorem Limits.setSlot (h : Limits c start k ctx key) (hne : key ≠ other) (s : Slot) :
    Limits c start k (ctx.setSlot other s) key := by
  obtain ⟨-, hlen, -, hentropy, hdrawn, -⟩ := Context.setSlot_fields ctx other s
  refine ⟨hentropy.trans h.entropy, hlen.trans h.keyLength, by rw [hdrawn]; exact h.drawn, ?_⟩
  rw [keyOf_setSlot_of_ne ctx hne]
  exact h.allowed

theorem limits_advance {keys : KeySide} {R P : ℕ} (hrates : 2 * P ≤ R)
    (hstart : c.key.cryptoCtx = some start)
    (h : Core.Keeps (Limits c start k) P keys) : Core.Keeps (Limits c start (k + 1)) P
      (keys.advance R P) := by
  obtain ⟨ctx, hctx, -⟩ := h.context
  obtain ⟨hopposite, hne, -⟩ := oppositeKey_cases h.active
  refine Core.Keeps.advance hrates h hctx (fun ctx key other hne hkey => hkey.setSlot hne {})
    (fun _ key hkey => hkey.succ rfl rfl ⟨le_rfl, Nat.le_succ _⟩ rfl)
    (fun _ e _ key hkey => hkey.succ rfl rfl ⟨Nat.le_succ _, le_rfl⟩ rfl) ?_
  intro _ sek _ hsek _ hkey
  have hdrawn : Limits c start (k + 1) { ctx with drawn := ctx.drawn + 1 } keys.activeKey :=
    hkey.succ rfl rfl ⟨Nat.le_succ _, le_rfl⟩ rfl
  have hactive := hdrawn.setSlot hne.symm (Context.keyed ctx.mode sek)
  refine ⟨hactive, hactive.entropy, hactive.keyLength, hactive.drawn, fun sek' hsek' => ?_⟩
  -- the new key is the next one that is drawn
  rw [(Context.holds_keyed { ctx with drawn := ctx.drawn + 1 } hopposite sek).keyOf] at hsek'
  obtain rfl := Option.some.inj hsek'
  have hbound := hkey.drawn
  refine ⟨start, hstart, Or.inr (Or.inr ⟨ctx.drawn - start.drawn, by omega, ?_⟩)⟩
  rw [Nat.add_sub_cancel' hbound.1, ← hkey.entropy, ← hkey.keyLength]
  exact hsek

/-- The `new` packets that have been sent since `c` went out under these keys. -/
structure Draws (c : Conn σ) (start : Context) (c' : Conn σ) : Prop where
  params : c'.params = c.params
  sent : ∃ new, c'.history = c.history ++ new ∧
    Core.Keeps (Limits c start new.length) c.params.kmPreAnnounce c'.key ∧
    ∀ t ∈ new, ∀ key, t.key? = some key → c.MayUse new.length key

theorem draws_refl (hstart : c.key.cryptoCtx = some start)
    (h : Core.Keeps (fun _ _ => True) c.params.kmPreAnnounce c.key) : Draws c start c := by
  refine ⟨rfl, [],
    by rw [List.append_nil], ⟨⟨start, hstart, ?_, fun hann => ?_⟩, h.active, h.pending⟩, by simp⟩
  · exact ⟨rfl, rfl, ⟨le_rfl, le_rfl⟩, fun sek hsek => ⟨start, hstart, Or.inl hsek⟩⟩
  · exact ⟨rfl, rfl, ⟨le_rfl, le_rfl⟩, fun sek hsek => ⟨start, hstart,
      Or.inr (Or.inl ⟨hann, hsek⟩)⟩⟩

section
variable [Controller σ] [Primitives]

theorem Draws.packet {c₁ : Conn σ} (hrates : c.params.kmRefreshRate = 0 ∨
      2 * c.params.kmPreAnnounce ≤ c.params.kmRefreshRate) (hstart : c.key.cryptoCtx = some start)
    (h : Draws c start c₁) (now : ℤ) (seqNo ts : ℕ) (f : Frame) :
    Draws c start (c₁.sendData now seqNo ts f) := by
  obtain ⟨new, hnew, hlimits, hsent⟩ := h.sent
  rcases sendData_transmits c₁ now seqNo ts f with hsame | ⟨c₂, hsends, hhistory, heq⟩
  · rw [hsame]
    exact h
  · obtain ⟨ctx, hctx, hactive, -⟩ := hlimits.context
    refine ⟨(sendFrame_sendData _ _ _ _ _).params.trans h.params,
      new ++ [⟨c₁.key.cryptoCtx, c₁.framePacket seqNo ts f,
      c₁.encrypt (c₁.framePacket seqNo ts f) seqNo⟩], ?_, ?_, fun u hu key hukey => ?_⟩
    · rw [hhistory, hsends.history, hnew, List.append_assoc]
    · rw [List.length_append, List.length_singleton, heq]
      split_ifs with hrotates
      · rw [h.params] at hrotates
        rw [key_checkKeyRotation, hsends.key, hsends.params, h.params]
        exact limits_advance (hrates.resolve_left hrotates.2.ne') hstart hlimits
      · rw [hsends.key]
        exact hlimits.mono fun _ _ hkey => hkey.succ rfl rfl ⟨le_rfl, Nat.le_succ _⟩ rfl
    · rw [List.length_append, List.length_singleton]
      rcases List.mem_append.mp hu with hold | hlast
      · exact (hsent u hold key hukey).mono (Nat.le_succ _)
      · obtain rfl := List.mem_singleton.mp hlast
        obtain ⟨ctx', hctx', hukey⟩ := Option.bind_eq_some_iff.mp hukey
        obtain rfl : ctx = ctx' := Option.some.inj (hctx.symm.trans hctx')
        rw [encryption_encrypt hctx] at hukey
        exact (hactive.allowed key hukey).mono (Nat.le_succ _)

theorem draws_step (hrates : c.params.kmRefreshRate = 0 ∨
    2 * c.params.kmPreAnnounce ≤ c.params.kmRefreshRate)
    (hstart : c.key.cryptoCtx = some start)
    (h : Core.Keeps (fun _ _ => True) c.params.kmPreAnnounce c.key)
    (hin : ∀ now p, i = .packet now p → p.isKMREQ = false) : Draws c start (c.step i) := by
  refine side_preserves c i (draws_refl hstart h) fun c₁ c₂ hmove hc₁ => ?_
  cases hmove with
  | aside hmove =>
    obtain ⟨new, hnew, hlimits, hsent⟩ := hc₁.sent
    exact ⟨hmove.params.trans hc₁.params, new, hmove.history.trans hnew,
      hlimits.congr (hmove.key.same_of_not_isKMREQ hin), hsent⟩
  | packet seqNo ts f => exact hc₁.packet hrates hstart i.now seqNo ts f

theorem history_step_of_isKMREQ (hp : p.isKMREQ = true) (now : ℤ) :
    (c.step (.packet now p)).history = c.history := by
  simp only [Packet.isKMREQ, Bool.and_eq_true, decide_eq_true_eq] at hp
  exact (upkeep_step (by simp [Input.sends, hp.1.2]) c).history

end

/-! ## What an end keeps to

The counter blocks of the two ends can be compared because mode, salt and key length never change:
an announcement carries the terms on which the peer has agreed already.
-/

def Says (T : Terms) (o : Output) : Prop :=
  ∀ p owned, o = .sendPacket p owned → p.isKMREQ = true →
    ∀ km, CIFKeyMaterial.unmarshalCIF p.data = .ok km → km.salt = T.salt ∧ km.cipher = T.mode.code

/-- All contexts and all announcements of an end keep to the terms. -/
structure KeepsTo (T : Terms) (c : Conn σ) : Prop where
  rates : c.params.kmRefreshRate = 0 ∨ 2 * c.params.kmPreAnnounce ≤ c.params.kmRefreshRate
  keys : Core.Keeps (fun ctx _ => Agreed T ctx) c.params.kmPreAnnounce c.key
  dataOnly : c.DataOnly
  sent : ∀ t ∈ c.history, ∃ ctx, t.context = some ctx ∧ Agreed T ctx
  told : ∀ o ∈ c.outputs, Says T o

variable {T : Terms} {o : Output}

theorem says_of_not_isKMREQ (h : o.isKMREQ = false) : Says T o := by
  rintro p owned rfl hp
  exact absurd (h.symm.trans hp) Bool.false_ne_true

theorem says_of_signal (h : Signal o) : Says T o := says_of_not_isKMREQ (passive_of_signal h).2

theorem says_of_data {owned : Bool} (h : p.header.isControl = false) :
    Says T (.sendPacket p owned) := by
  apply says_of_not_isKMREQ
  simp [Output.isKMREQ, Output.packet?, Packet.isKMREQ, h]

theorem KeepsTo.of_emits (h : c.KeepsTo T) (hparams : c'.params = c.params)
    (hkeys : Core.Keeps (fun ctx _ => Agreed T ctx) c.params.kmPreAnnounce c'.key)
    (hdata : c'.DataOnly)
    (hhistory : c'.history = c.history) (hemits : Emits (Says T) c c') : c'.KeepsTo T := by
  refine ⟨by rw [hparams]; exact h.rates, by rw [hparams]; exact hkeys, hdata,
    by rw [hhistory]; exact h.sent, fun o ho => ?_⟩
  rcases hemits.mem ho with hold | hnew
  · exact h.told o hold
  · exact hnew

theorem agreed_advance {k : KeySide} {R P : ℕ} (hrates : 2 * P ≤ R)
    (h : Core.Keeps (fun ctx _ => Agreed T ctx) P k) :
    Core.Keeps (fun ctx _ => Agreed T ctx) P (k.advance R P) := by
  obtain ⟨ctx, hctx, -⟩ := h.context
  refine Core.Keeps.advance hrates h hctx (fun ctx key other _ hctx => hctx.setSlot other {})
    (fun _ key hctx => hctx) (fun _ e _ key hctx => hctx.congr rfl rfl rfl rfl) ?_
  intro _ sek _ _ _ hagreed
  have hdrawn : Agreed T { ctx with drawn := ctx.drawn + 1 } := hagreed.congr rfl rfl rfl rfl
  exact ⟨hdrawn.setSlot _ _, hdrawn.setSlot _ _⟩

section
variable [Primitives]

variable [LawfulPrimitives]

theorem says_of_announces (hlen : validKeySize T.keyLength = true) (hsalt : T.salt.length = 16)
    {ctx : Context} (hagreed : Agreed T ctx) (h : c.Announces ctx key o) : Says T o := by
  obtain ⟨q, owned', rfl, hexplained⟩ := explained_of_announces hlen hsalt hagreed h []
  intro p owned heq hp
  obtain ⟨rfl, -⟩ := Output.sendPacket.inj heq
  simp only [Packet.isKMREQ, Bool.and_eq_true, decide_eq_true_eq] at hp
  exact hexplained.announcement ⟨hp.1.1, hp.1.2, hp.2⟩

variable [Controller σ]

omit [LawfulPrimitives] in
theorem KeepsTo.transmit (h : c.KeepsTo T) {sb : SendBuffer} {seqNo ts : ℕ} {f : Frame}
    (hpush : c.snd.sendBuf.push (c.encrypt (c.framePacket seqNo ts f) seqNo) i.now = some sb) :
    (c.transmit i.now (tagTTL sb f.ttlNs) (c.framePacket seqNo ts f)
      (c.encrypt (c.framePacket seqNo ts f) seqNo)).KeepsTo T := by
  obtain ⟨ctx, hctx, hagreed, -⟩ := h.keys.context
  have hmove : SendMove i c c _ := .transmit c hpush
  refine ⟨h.rates, h.keys, h.dataOnly.sendMove hmove, fun t ht => ?_, fun o ho => ?_⟩
  · rcases List.mem_append.mp ht with hold | hnew
    · exact h.sent t hold
    · rw [List.mem_singleton.mp hnew]
      exact ⟨ctx, hctx, hagreed⟩
  · rcases List.mem_append.mp ho with hold | hnew
    · exact h.told o hold
    · rw [List.mem_singleton.mp hnew]
      apply says_of_data
      rw [isControl_encrypt]
      rfl

omit [Controller σ] in
theorem KeepsTo.aside (hlen : validKeySize T.keyLength = true) (hsalt : T.salt.length = 16)
    (h : c.KeepsTo T) {c₀ : Conn σ} (hmove : Aside i c₀ c c') (hin : ∀ now p, i = .packet now p →
      Says T (.sendPacket p true)) :
    c'.KeepsTo T := by
  obtain ⟨ctx, hctx, hagreed, -⟩ := h.keys.context
  refine h.of_emits hmove.params ?_ (h.dataOnly.of_within hmove.sendBuf) hmove.history
    (hmove.emits.mono fun o ho => ?_)
  · rcases hmove.key.same_or_request with hsame | ⟨now, p, hi, -, hp, hrequest⟩
    · exact h.keys.congr hsame
    · rw [hrequest]
      refine h.keys.request _ fun ctx km key _ hkm hagreed => ?_
      obtain ⟨hsalt, hcipher⟩ := hin now p hi p true rfl hp km hkm
      exact hagreed.unmarshalKM hsalt hcipher _
  · rcases ho.passive_or_announces h.dataOnly with hpassive | ⟨-, -, ctx₁, hctx₁, hannounces⟩
    · exact says_of_not_isKMREQ hpassive.2
    · obtain rfl : ctx = ctx₁ := Option.some.inj (hctx.symm.trans hctx₁)
      exact says_of_announces hlen hsalt hagreed hannounces

theorem KeepsTo.step (hlen : validKeySize T.keyLength = true) (hsalt : T.salt.length = 16)
    (h : c.KeepsTo T)
    (hin : ∀ now p, i = .packet now p → Says T (.sendPacket p true)) : (c.step i).KeepsTo T := by
  refine send_preserves c i h fun c₁ c₂ hmove hc₁ => ?_
  have hdata : c₂.DataOnly := hc₁.dataOnly.sendMove hmove
  obtain ⟨ctx, hctx, hagreed, -⟩ := hc₁.keys.context
  cases hmove with
  | aside hmove => exact hc₁.aside hlen hsalt hmove hin
  | transmit hpush => exact hc₁.transmit hpush
  | rotate hrate =>
    have hframe := keyFrame_checkKeyRotation c₁ i.now
    refine hc₁.of_emits hframe.params ?_ hdata hframe.history
      ((emits_checkKeyRotation c₁ i.now).mono fun o ho => ?_)
    · rw [key_checkKeyRotation]
      exact agreed_advance (hc₁.rates.resolve_left hrate.ne') hc₁.keys
    · rcases ho with hsignal | ⟨ctx₁, ctx₂, hctx₁, -, hgen, hannounces⟩
      · exact says_of_not_isKMREQ (passive_of_signal hsignal).2
      · obtain rfl : ctx = ctx₁ := Option.some.inj (hctx.symm.trans hctx₁)
        have hdrawn := hagreed.generateSEK (oppositeKey_even_or_odd c₁.key.activeKey)
        rw [hgen] at hdrawn
        exact says_of_announces hlen hsalt hdrawn hannounces

omit [LawfulPrimitives] [Primitives] in
theorem keepsTo_establish (cc : σ) (now : ℤ) {ep : EstablishParams} {ctx : Context}
    (hctx : ep.context = some ctx) (hagreed : Agreed T ctx) (hactive : ep.activeKey = .even)
    (hrates : 2 * ep.kmPreAnnounce ≤ ep.kmRefreshRate) : (establish cc now ep).KeepsTo T := by
  have hsome := EstablishParams.isSome_cryptoCtx hctx
  have harm : Quiet (established cc now ep) (establish cc now ep) := quiet_armTimers _ now
  have hkeys : Core.Keeps (fun ctx _ => Agreed T ctx) (established cc now ep).params.kmPreAnnounce
      (established cc now ep).key := by
    refine ⟨⟨ctx, hctx, hagreed, fun _ => hagreed⟩, Or.inl ?_,
      fun hwaits => absurd hwaits Bool.false_ne_true⟩
    simp [established, establishedKeys, hsome, hactive]
  have hstart : (established cc now ep).KeepsTo T := by
    refine ⟨Or.inr ?_, hkeys, dataOnly_established cc now ep,
      fun t ht => absurd ht (by simp [established]),
      fun o ho => absurd ho (by simp [established])⟩
    simp only [established, establishedParams, hsome, if_true]
    exact EstablishParams.two_mul_effectivePreAnnounce_le hrates
  exact hstart.of_emits harm.params (by rw [harm.key]; exact hkeys) (dataOnly_establish cc now ep)
    harm.history
    (harm.emits.mono fun _ => says_of_signal)

end

/-! ## What an end sends -/

section
variable [Controller σ] [Primitives]

/-- An end takes care with its keys: those that it may use now are none of those that the other end
has used, and if it has used them itself, it was less than `2 ^ 31` packets ago. -/
def KeepsApart (c other : Conn σ) (i : Input) : Prop :=
  c.pending i ≤ 2 ^ 31 ∧
    (∀ t ∈ other.history, ∀ key ∈ t.key?, ¬c.MayUse (c.pending i) key) ∧
    ∀ n < c.history.length, c.history.length + c.pending i ≤ n + 2 ^ 31 ∨
      ∀ key ∈ c.history[n]?.bind Transmission.key?, ¬c.MayUse (c.pending i) key

omit [Controller σ] [Primitives] in
instance (c other : Conn σ) (i : Input) : Decidable (c.KeepsApart other i) :=
  inferInstanceAs (Decidable (_ ≤ 2 ^ 31 ∧ (∀ t ∈ other.history, ∀ key ∈ t.key?, _) ∧
    ∀ n < c.history.length, _ ∨ ∀ key ∈ c.history[n]?.bind Transmission.key?, _))

theorem exists_new (hkept : c.KeepsTo T) (hnumbered : c.Numbered isn) (hsingle : i.Single) :
    ∃ new, Outgoing c (c.step i) (isn + c.history.length) (c.pending i) new ∧
      ∀ t ∈ new, ∀ key, t.key? = some key → c.MayUse (c.pending i) key := by
  obtain ⟨-, new, hsends⟩ := hnumbered.step hsingle
  refine ⟨new, hsends, ?_⟩
  by_cases hkm : ∀ now p, i = .packet now p → p.isKMREQ = false
  · obtain ⟨start, hstart, -⟩ := hkept.keys.context
    have htrue : Core.Keeps (fun _ _ => True) c.params.kmPreAnnounce c.key :=
      ⟨⟨start, hstart, trivial, fun _ => trivial⟩, hkept.keys.active, hkept.keys.pending⟩
    obtain ⟨-, new', hnew', -, hsent⟩ := draws_step hkept.rates hstart htrue hkm
    obtain rfl : new = new' := List.append_cancel_left (hsends.history.symm.trans hnew')
    exact fun t ht key hkey => (hsent t ht key hkey).mono hsends.length
  · -- a new key of the peer may replace those of this end, but no packet is sent with it
    push Not at hkm
    obtain ⟨now, p, rfl, hp⟩ := hkm
    have hsame := history_step_of_isKMREQ (c := c) (by simpa using hp) now
    rw [hsends.history] at hsame
    obtain rfl : new = [] := List.append_right_eq_self.mp hsame
    simp

end

end Conn

/-! ## The handshake -/

theorem agreed_newWithMode {keyLength : ℕ} {mode : CipherMode} {entropy : ℕ → Option Bytes}
    {ctx : Context} (h : Context.newWithMode keyLength mode entropy = .ok ctx) :
    validKeySize keyLength = true ∧ ctx.salt.length = 16 ∧ Agreed ⟨mode, ctx.salt, keyLength,
      false⟩ ctx := by
  unfold Context.newWithMode at h
  split_ifs at h with hsize
  cases hsalt : entropy 0 with
  | none => simp [hsalt] at h
  | some salt =>
    simp only [hsalt] at h
    set ctx₀ : Context :=
      { mode := mode, keyLength := keyLength, salt := fit 16 salt, entropy := entropy, drawn := 1 }
    have hctx₀ : Agreed ⟨mode, fit 16 salt, keyLength, false⟩ ctx₀ := ⟨rfl, rfl, rfl, fun _ => rfl⟩
    have heven := hctx₀.generateSEK (Or.inl rfl)
    cases hone : ctx₀.generateSEK .even with
    | mk ctx₁ e =>
      rw [hone] at heven
      cases e with
      | some e => simp [hone] at h
      | none =>
        have hodd := heven.generateSEK (Or.inr rfl)
        simp only [hone] at h
        cases htwo : ctx₁.generateSEK .odd with
        | mk ctx₂ e =>
          rw [htwo] at hodd
          cases e with
          | some e => simp [htwo] at h
          | none =>
            simp only [htwo, Except.ok.injEq] at h
            subst h
            refine ⟨by simpa using hsize, ?_, hodd.mode, rfl, hodd.keyLength, hodd.legacy⟩
            rw [hodd.salt]
            exact Context.length_fit 16 salt

/-- The ends of an encrypted connection.  The caller draws a salt and keys and sends the even one;
the listener draws its own and replaces the salt and the even key by what it receives.  Both ends
start with the sequence number of the caller, send under the even key, and have told each other the
same version. -/
structure Concluded [Primitives] (caller listener : EstablishParams) : Prop where
  keys : ∃ (keyLength : ℕ) (mode : CipherMode) (entropy entropy' : ℕ → Option Bytes)
    (ctx fresh ctx' : Context) (km : CIFKeyMaterial),
    Context.newWithMode keyLength mode entropy = .ok ctx ∧ caller.cryptoCtx = some ctx ∧
    ctx.marshalKM caller.passphrase .even = .ok km ∧
    Context.newWithMode (if km.kLen = 0 then 16 else km.kLen)
      (if km.cipher = CipherMode.gcm.code then .gcm else .ctr) entropy' = .ok fresh ∧
    fresh.unmarshalKM km listener.passphrase = (ctx', none) ∧ listener.cryptoCtx = some ctx'
  active : caller.activeKey = .even ∧ listener.activeKey = .even
  sendISN : Valid caller.sendISN ∧ listener.sendISN = caller.sendISN
  recvISN : caller.recvISN = listener.sendISN ∧ listener.recvISN = caller.sendISN
  version : caller.peerVersion = 0x010504 ∧ listener.peerVersion = 0x010504

namespace Concluded

variable [Primitives]

omit [Primitives] in
theorem context_eq {ep : EstablishParams} (h : ep.peerVersion = 0x010504) :
    ep.context = ep.cryptoCtx := by
  unfold EstablishParams.context
  rw [h]
  simp

theorem exists_terms (h : Concluded (ep true) (ep false)) :
    ∃ T : Terms, validKeySize T.keyLength = true ∧ T.salt.length = 16 ∧
      ∀ x, ∃ ctx, (ep x).context = some ctx ∧ Agreed T ctx := by
  obtain ⟨keyLength, mode, entropy, entropy', ctx, fresh, ctx', km, hctx, hcaller, hkm, hfresh,
      hctx', hlistener⟩ :=
    h.keys
  obtain ⟨hsize, hsalt, hagreed⟩ := agreed_newWithMode hctx
  obtain ⟨-, -, hfreshAgreed⟩ := agreed_newWithMode hfresh
  obtain ⟨-, -, hkmeq⟩ := Context.marshalKM_eq hkm
  have hkmSalt : km.salt = ctx.salt := by
    rw [hkmeq]
    exact Context.fit_of_length hsalt
  have hkmLen : km.kLen = keyLength := by
    rw [hkmeq]
    exact hagreed.keyLength
  have hkmMode : (if km.cipher = CipherMode.gcm.code then CipherMode.gcm else .ctr) = mode := by
    rw [hkmeq, show ctx.mode = mode from hagreed.mode]
    cases mode <;> rfl
  have hpos : keyLength ≠ 0 := by
    rintro rfl
    exact absurd hsize (by decide)
  -- the listener takes over the salt of the caller
  have hadopt : Agreed ⟨mode, ctx.salt, keyLength, false⟩ (fresh.adopt km) := by
    refine ⟨hkmMode, ?_, ?_, fun hgcm => ?_⟩
    · show (if km.salt.length = 16 then km.salt else fresh.salt) = ctx.salt
      rw [hkmSalt, if_pos hsalt]
    · refine hfreshAgreed.keyLength.trans ?_
      show (if km.kLen = 0 then 16 else km.kLen) = keyLength
      rw [hkmLen, if_neg hpos]
    · exact hfreshAgreed.legacy (hfreshAgreed.mode.trans hgcm)
  refine ⟨⟨mode, ctx.salt, keyLength, false⟩, hsize, hsalt, fun x => ?_⟩
  cases x with
  | true => exact ⟨ctx, (context_eq h.version.1).trans hcaller, hagreed⟩
  | false =>
    refine ⟨ctx', (context_eq h.version.2).trans hlistener, ?_⟩
    have hlearnt := Agreed.of_adopt (by rw [hkmeq]; exact PacketEncryption.noConfusion) hadopt
      (ep false).passphrase
    rwa [hctx'] at hlearnt

end Concluded

/-! ## Two ends -/

def PairAction.Single : PairAction → Prop
  | .host _ i => i.Single
  | .deliver _ _ _ => True

instance PairAction.decidableSingle : ∀ a : PairAction, Decidable a.Single
  | .host _ i => inferInstanceAs (Decidable i.Single)
  | .deliver _ _ _ => isTrue trivial

namespace Pair

variable {σ : Type}

/-- No two packets, in whatever direction, were encrypted with the same key and the same counter
block or nonce. -/
def KeystreamUnique (l : Pair σ) : Prop :=
  ∀ (x y : Bool) (n m : ℕ) (t u : Transmission) (s : Bytes × Bytes),
    (l x).history[n]? = some t → (l y).history[m]? = some u →
    t.stream? = some s → u.stream? = some s → x = y ∧ n = m

def KeepsApart (l : Pair σ) (a : PairAction) : Prop :=
  ∀ i ∈ l.input? a, 0 < (l (side a)).pending i → (l (side a)).KeepsApart (l !side a) i

instance (l : Pair σ) (a : PairAction) : Decidable (l.KeepsApart a) :=
  inferInstanceAs (Decidable (∀ i ∈ l.input? a, _ → _))

def Kept (T : Terms) (isn : Bool → ℕ) (l : Pair σ) : Prop :=
  ∀ x, (l x).KeepsTo T ∧ (l x).Numbered (isn x)

variable {T : Terms} {isn : Bool → ℕ} {l : Pair σ} {a : PairAction} {u : Transmission}

theorem Kept.seqNo_eq (h : l.Kept T isn) {x y : Bool} {n m : ℕ} (ht : (l x).history[n]? = some t)
    (hu : (l y).history[m]? = some u) (hts : t.stream? = some s) (hus : u.stream? = some s) :
    wrap (isn x + n) = wrap (isn y + m) := by
  obtain ⟨ctx, hctx, hagreed⟩ := (h x).1.sent t (List.mem_of_getElem? ht)
  obtain ⟨ctx', hctx', hagreed'⟩ := (h y).1.sent u (List.mem_of_getElem? hu)
  have htn := (h x).2.numbered n t ht
  have hum := (h y).2.numbered m u hu
  obtain ⟨_, heq, hmap⟩ := Option.bind_eq_some_iff.mp hts
  obtain ⟨_, heq', hmap'⟩ := Option.bind_eq_some_iff.mp hus
  obtain rfl := Option.some.inj (hctx.symm.trans heq)
  obtain rfl := Option.some.inj (hctx'.symm.trans heq')
  obtain ⟨key, -, rfl⟩ := Option.map_eq_some_iff.mp hmap
  obtain ⟨key', -, hpair⟩ := Option.map_eq_some_iff.mp hmap'
  have hiv := (Prod.ext_iff.mp hpair).2
  rw [← htn, ← hum]
  have hn := wrap_lt (isn x + n)
  have hm := wrap_lt (isn y + m)
  exact (hagreed'.seqNo_eq hagreed (by rw [hum]; omega) (by rw [htn]; omega) hiv).symm

variable [Controller σ] [Primitives] [LawfulPrimitives]

section

variable (hlen : validKeySize T.keyLength = true) (hsalt : T.salt.length = 16)

include hlen hsalt

theorem Kept.step (h : l.Kept T isn) (hsingle : ∀ i ∈ l.input? a, i.Single) :
    (l.step a).Kept T isn := by
  cases hinput : l.input? a with
  | none => rwa [step_of_none hinput]
  | some i =>
    obtain ⟨hself, hother⟩ := step_of_some hinput
    -- the network delivers only what the other end has sent
    have hin : ∀ now p, i = .packet now p → Conn.Says T (.sendPacket p true) := by
      rintro now p rfl q owned heq hq
      obtain ⟨rfl, -⟩ := Output.sendPacket.inj heq
      obtain ⟨k, -, hp⟩ := packetAt_of_input hinput
      obtain ⟨owned', hsent⟩ := mem_outputs_of_packetAt hp
      exact (h !side a).1.told _ hsent _ owned' rfl hq
    intro x
    rcases Bool.eq_or_eq_not x (side a) with rfl | rfl
    · rw [hself]
      exact ⟨(h (side a)).1.step hlen hsalt hin, ((h (side a)).2.step (hsingle i hinput)).1⟩
    · rw [hother]
      exact h !side a

/-- A packet that a careful end has just sent shares its key stream with no other. -/
theorem Kept.new_unique (h : l.Kept T isn) (hsingle : ∀ i ∈ l.input? a, i.Single)
    (hinput : l.input? a = some i)
    (hkeepsApart : l.KeepsApart a) {n : ℕ} (hnew : (l (side a)).history.length ≤ n)
    (ht : (l.step a (side a)).history[n]? = some t) (hts : t.stream? = some s) {y : Bool} {m : ℕ}
    (hu : (l.step a y).history[m]? = some u) (hus : u.stream? = some s) : y = side a ∧ m = n := by
  have hkept := h.step hlen hsalt hsingle
  obtain ⟨hself, hother⟩ := step_of_some hinput
  obtain ⟨new, hsends, hmay⟩ := Conn.exists_new (h (side a)).1 (h (side a)).2 (hsingle i hinput)
  have hlength := hsends.length
  -- the packet is one of the new ones
  have hmem := ht
  rw [hself, hsends.history, List.getElem?_append_right hnew] at hmem
  have hlt := (List.getElem?_eq_some_iff.mp hmem).1
  have hkey := hmay t (List.mem_of_getElem? hmem) s.1 (Transmission.key?_of_stream? hts)
  obtain ⟨hfew, hapart, hrecent⟩ := hkeepsApart i hinput (by omega)
  have hseq := hkept.seqNo_eq ht hu hts hus
  rcases Bool.eq_or_eq_not y (side a) with rfl | rfl
  · refine ⟨rfl, ?_⟩
    rw [hself, hsends.history] at hu
    have hmlt := (List.getElem?_eq_some_iff.mp hu).1
    rw [List.length_append] at hmlt
    by_cases hold : m < (l (side a)).history.length
    · rw [List.getElem?_append_left hold] at hu
      rcases hrecent m hold with hclose | hunused
      · have := eq_of_wrap_eq hseq (by omega) (by omega)
        omega
      · refine absurd hkey (hunused s.1 ?_)
        rw [hu]
        exact Transmission.key?_of_stream? hus
    · have := eq_of_wrap_eq hseq (by omega) (by omega)
      omega
  · rw [hother] at hu
    exact absurd hkey (hapart u (List.mem_of_getElem? hu) s.1 (Transmission.key?_of_stream? hus))

theorem KeystreamUnique.step (hkept : l.Kept T isn) (h : l.KeystreamUnique)
    (hsingle : ∀ i ∈ l.input? a, i.Single) (hkeepsApart : l.KeepsApart a) :
    (l.step a).KeystreamUnique := by
  cases hinput : l.input? a with
  | none => rwa [step_of_none hinput]
  | some i =>
    obtain ⟨hself, hother⟩ := step_of_some hinput
    obtain ⟨new, hsends, -⟩ := Conn.exists_new (hkept (side a)).1 (hkept (side a)).2
      (hsingle i hinput)
    -- every packet is new, or was there before
    have hcases : ∀ x n t, (l.step a x).history[n]? = some t →
        (l x).history[n]? = some t ∨ x = side a ∧ (l (side a)).history.length ≤ n := by
      intro x n t ht
      rcases Bool.eq_or_eq_not x (side a) with rfl | rfl
      · by_cases hold : n < (l (side a)).history.length
        · rw [hself, hsends.history, List.getElem?_append_left hold] at ht
          exact Or.inl ht
        · exact Or.inr ⟨rfl, not_lt.mp hold⟩
      · rw [hother] at ht
        exact Or.inl ht
    intro x y n m t u s ht hu hts hus
    rcases hcases x n t ht with htold | ⟨rfl, htnew⟩
    · rcases hcases y m u hu with huold | ⟨rfl, hunew⟩
      · exact h x y n m t u s htold huold hts hus
      · exact hkept.new_unique hlen hsalt hsingle hinput hkeepsApart hunew hu hus ht hts
    · obtain ⟨hside, hindex⟩ := hkept.new_unique hlen hsalt hsingle hinput hkeepsApart htnew
        ht hts hu hus
      exact ⟨hside.symm, hindex.symm⟩

end

omit [LawfulPrimitives] in
theorem kept_new (cc : Bool → σ) (now : Bool → ℤ) (hshake : Concluded (ep true) (ep false))
    (hcap : ∀ x, (ep x).sndCap ≤ 2 ^ 30)
    (hrates : ∀ x, 2 * (ep x).kmPreAnnounce ≤ (ep x).kmRefreshRate)
    (hshared : ∀ x, ∃ ctx, (ep x).context = some ctx ∧ Agreed T ctx) :
    (Pair.new cc now ep).Kept T fun x => (ep x).sendISN := by
  intro x
  obtain ⟨ctx, hctx, hagreed⟩ := hshared x
  have hactive : (ep x).activeKey = .even := by
    cases x
    · exact hshake.active.2
    · exact hshake.active.1
  have hisn : Valid (ep x).sendISN := by
    cases x
    · rw [hshake.sendISN.2]
      exact hshake.sendISN.1
    · exact hshake.sendISN.1
  exact ⟨Conn.keepsTo_establish (cc x) (now x) hctx hagreed hactive (hrates x),
    Conn.numbered_establish (hcap x) hisn (cc x) (now x)⟩

/-- **Key streams are not used again.**  A caller and a listener, after the handshake, on a network
that may lose, duplicate and reorder what they send.  As long as an end that has something to send
has not used the keys that it may use for `2 ^ 31` packets, and the other end has not used them at
all, no two packets share a key stream. -/
theorem keystream_unique (cc : Bool → σ) (now : Bool → ℤ) {ep : Bool → EstablishParams}
    (hshake : Concluded (ep true) (ep false)) (hcap : ∀ x, (ep x).sndCap ≤ 2 ^ 30)
    (hrates : ∀ x, 2 * (ep x).kmPreAnnounce ≤ (ep x).kmRefreshRate) {as : List PairAction}
    (hsingle : ∀ a ∈ as, a.Single)
    (hkeepsApart : AllSteps Pair.step KeepsApart (Pair.new cc now ep) as) :
    AllStates Pair.step KeystreamUnique (Pair.new cc now ep) as := by
  obtain ⟨T, hlen, hsalt, hshared⟩ := hshake.exists_terms
  have hinit : (Pair.new cc now ep).Kept T (fun x => (ep x).sendISN) ∧
      (Pair.new cc now ep).KeystreamUnique := by
    refine ⟨kept_new cc now hshake hcap hrates hshared, ?_⟩
    intro x y n m t u s ht
    have harm : Conn.Quiet (Conn.established (cc x) (now x) (ep x)) (Pair.new cc now ep x) :=
      Conn.quiet_armTimers _ (now x)
    rw [harm.history] at ht
    exact absurd ht (by simp [Conn.established])
  have hsolo : AllSteps Pair.step (fun _ a => a.Single) (Pair.new cc now ep) as :=
    allSteps_of_forall_mem hsingle
  have hstates : AllStates Pair.step (fun l => l.Kept T (fun x => (ep x).sendISN) ∧
    l.KeystreamUnique)
      (Pair.new cc now ep) as := by
    refine (hkeepsApart.and hsolo).allStates (fun l a hl ha => ?_) hinit
    have hinputs : ∀ i ∈ l.input? a, i.Single := by
      intro i hi
      cases a with
      | host x j =>
          have hj : j.Single := ha.2
          cases j <;> simp_all [input?]
      | deliver x at' k =>
          obtain ⟨p, -, rfl⟩ := Option.map_eq_some_iff.mp hi
          trivial
    exact ⟨hl.1.step hlen hsalt hinputs, hl.2.step hlen hsalt hl.1 hinputs ha.1⟩
  exact hstates.mono fun l hl => hl.2
end Pair

namespace Pair

open scoped XorCipher

def drawnContext (random : ℕ → UInt8) : Context :=
  { mode := .ctr, keyLength := 16, salt := List.replicate 16 (random 0)
    even := Context.keyed .ctr (List.replicate 16 (random 1))
    odd := Context.keyed .ctr (List.replicate 16 (random 2))
    entropy := fun n => some (List.replicate 16 (random n)), drawn := 3 }

def callerKM : CIFKeyMaterial :=
  ((drawnContext fun n => UInt8.ofNat n).marshalKM "swordfish" .even).toOption.getD {}

def twoParties (x : Bool) : EstablishParams :=
  { cryptoCtx := some (if x then drawnContext fun n => UInt8.ofNat n
      else ((drawnContext fun _ => 99).unmarshalKM callerKM "swordfish").1)
    activeKey := .even, passphrase := "swordfish", sendISN := 5, recvISN := 5,
    peerVersion := 0x010504
    kmRefreshRate := 4, kmPreAnnounce := 1 }

theorem concluded_twoParties : Concluded (twoParties true) (twoParties false) where
  keys := by
    refine ⟨16, .ctr, (drawnContext fun n => UInt8.ofNat n).entropy,
      (drawnContext fun _ => 99).entropy,
      drawnContext fun n => UInt8.ofNat n, drawnContext fun _ => 99,
      ((drawnContext fun _ => 99).unmarshalKM callerKM "swordfish").1, callerKM, rfl, rfl, rfl,
        rfl, ?_, rfl⟩
    have herror : ((drawnContext fun _ => 99).unmarshalKM callerKM "swordfish").2 = none := by
      decide +kernel
    have hpair : ∀ r : Context × Option String, r.2 = none → r = (r.1, none) := by
      rintro ⟨ctx, e⟩ rfl
      rfl
    exact hpair _ herror
  active := ⟨rfl, rfl⟩
  sendISN := ⟨⟨show (5 : ℕ) < 2 ^ 31 by norm_num⟩, rfl⟩
  recvISN := ⟨rfl, rfl⟩
  version := ⟨rfl, rfl⟩

/-- The caller sends seven packets and comes to announce its third key, which is for the slot of the
first one.  The listener hears of it, and then sends a packet itself. -/
def afterTwoRotations : List PairAction :=
  ((List.range 7).map fun n : ℕ => .host true (.write (100000 * (n + 1)) [1, 2, 3] {})) ++
    [.deliver false 800000 6, .deliver false 800000 12, .host false (.write 900000 [4, 5, 6] {})]

theorem keystream_unique_of_eight :
    AllStates Pair.step KeystreamUnique
      (Pair.new (fun _ => LiveCC.new 0 0) (fun _ => 0) twoParties) afterTwoRotations ∧
    (exec Pair.step (Pair.new (fun _ => LiveCC.new 0 0) (fun _ => 0) twoParties) afterTwoRotations
      false).history.length = 1 := by
  have hkeepsApart : AllSteps Pair.step KeepsApart
      (Pair.new (fun _ => LiveCC.new 0 0) (fun _ => 0) twoParties) afterTwoRotations := by
    decide +kernel
  exact ⟨keystream_unique _ _ concluded_twoParties (by decide +kernel) (by decide)
    (by decide +kernel) hkeepsApart,
    by decide +kernel⟩

def oneEach : List PairAction :=
  [.host true (.write 100000 [1, 2, 3] {}), .host false (.write 100000 [4, 5, 6] {})]

/-- The two packets share a key stream. -/
theorem keystream_shared_by_directions :
    Concluded (twoParties true) (twoParties false) ∧
    ¬AllStates Pair.step KeystreamUnique
      (Pair.new (fun _ => LiveCC.new 0 0) (fun _ => 0) twoParties) oneEach := by
  refine ⟨concluded_twoParties, fun h => ?_⟩
  have hshared :
    ∃ t ∈ (exec Pair.step (Pair.new (fun _ => LiveCC.new 0 0) (fun _ => 0) twoParties) oneEach
        true).history[0]?,
          ∃ u ∈ (exec Pair.step (Pair.new (fun _ => LiveCC.new 0 0) (fun _ => 0) twoParties)
        oneEach false).history[0]?, ∃ s ∈ t.stream?, u.stream? = some s := by
    decide +kernel
  obtain ⟨t, ht, u, hu, s, hts, hus⟩ := hshared
  exact absurd (h.exec true false 0 0 t u s ht hu hts hus).1 (by decide)

end Pair

end SrtGo.Core
