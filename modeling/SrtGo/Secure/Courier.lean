import SrtGo.Secure.Pair

/-!
# What the announcements teach

A side that rotates its keys announces each new key on its way out, and the other side
learns it when the announcement arrives.  `learn` is what a listener makes of a list of
outputs.  A `Courier` is a side that hears of no keys itself: it shows that whoever has
listened to it up to some packet can read that packet, until `P` more have been sent.

The clearing and redrawing of a slot are kept apart from its use by the counts of the
rotation: a packet under the slot that is about to be redrawn is older than the last
switch, which was `R - P` packets ago, and `P ≤ R - P`.
-/

namespace SrtGo.Core

open Buffer Bytes Congestion Crypto Context

/-! ## Listening -/

def Output.isFirst : Output → Bool
  | .sendPacket _ false => true
  | _ => false

def firsts (os : List Output) : ℕ := os.countP Output.isFirst

theorem firsts_append (os os' : List Output) : firsts (os ++ os') = firsts os + firsts os' :=
  List.countP_append

variable {os : List Output} {o : Output} {km : CIFKeyMaterial} {ctx learned : Context}

theorem firsts_eq_zero (h : ∀ o ∈ os, o.isFirst = false) : firsts os = 0 :=
  List.countP_eq_zero.mpr fun o ho => by simp [h o ho]

def Output.isKMREQ (o : Output) : Bool := (o.packet?.map Packet.isKMREQ).getD false

section
variable [Primitives]

def learnOne (passphrase : String) (ctx : Context) (o : Output) : Context :=
  match o.packet? with
  | none => ctx
  | some p =>
    if p.isKMREQ then
      match CIFKeyMaterial.unmarshalCIF p.data with
      | .ok km => (ctx.unmarshalKM km passphrase).1
      | .error _ => ctx
    else ctx

/-- What a list of outputs does to the context of a listener. -/
def learn (passphrase : String) (ctx : Context) (os : List Output) : Context :=
  os.foldl (learnOne passphrase) ctx

theorem learnOne_of_not_isKMREQ (passphrase : String) (ctx : Context) (h : o.isKMREQ = false) :
    learnOne passphrase ctx o = ctx := by
  unfold learnOne
  unfold Output.isKMREQ at h
  cases hp : o.packet? with
  | none => rfl
  | some p =>
    simp only [hp, Option.map_some, Option.getD_some] at h
    simp [h]

theorem learn_append (passphrase : String) (ctx : Context) (os os' : List Output) :
    learn passphrase ctx (os ++ os') = learn passphrase (learn passphrase ctx os) os' :=
  List.foldl_append

theorem learn_of_not_isKMREQ (passphrase : String) (ctx : Context) (h : ∀ o ∈ os,
    o.isKMREQ = false) :
    learn passphrase ctx os = ctx := by
  induction os with
  | nil => rfl
  | cons o os ih =>
    rw [learn, List.foldl_cons, learnOne_of_not_isKMREQ _ _ (h o List.mem_cons_self)]
    exact ih fun o ho => h o (List.mem_cons_of_mem _ ho)

end

/-- A slot that is in use holds a key of the agreed length, and a listener knows it. -/
def Known (T : Terms) (learned ctx : Context) (key : PacketEncryption) : Prop :=
  Agreed T ctx ∧ ∃ sek, sek.length = T.keyLength ∧ ctx.Holds key sek ∧ learned.keyOf key = some sek

def CanRead (learned : Context) (t : Transmission) : Prop :=
  ∃ sender, t.context = some sender ∧
    (learned.keyOf t.wire.header.encryption).isSome = true ∧
    learned.keyOf t.wire.header.encryption = sender.keyOf t.wire.header.encryption

theorem CanRead.congr {learned' : Context} {t : Transmission} (h : CanRead learned t)
    (hkey : learned'.keyOf t.wire.header.encryption = learned.keyOf t.wire.header.encryption) :
    CanRead learned' t := by
  obtain ⟨sender, hsender, hsome, hsame⟩ := h
  exact ⟨sender, hsender, by rwa [hkey], hkey.trans hsame⟩

section
variable [Primitives] [LawfulPrimitives] {T : Terms} {passphrase : String}

theorem keyOf_unmarshalKM (hlen : validKeySize T.keyLength = true) (hsalt : T.salt.length = 16)
    (hctx : Agreed T ctx) (hlearned : Agreed T learned) {key : PacketEncryption} {sek : Bytes}
    (hsek : sek.length = T.keyLength) (hholds : ctx.Holds key sek)
    (hkm : ctx.marshalKM passphrase key = .ok km) :
    (learned.unmarshalKM km passphrase).1.keyOf key = some sek ∧
      ∀ other, other ≠ key → (learned.unmarshalKM km passphrase).1.keyOf other =
        learned.keyOf other := by
  have hkey := hholds.usable.even_or_odd
  obtain ⟨s, hs, hslotSek, -⟩ := hholds
  obtain ⟨s', hs'⟩ : ∃ s', learned.slot key = some s' := by
    rcases hkey with rfl | rfl <;> exact ⟨_, rfl⟩
  have hfield : ctx.keyField s = sek := by
    unfold keyField
    rw [hslotSek, Option.getD_some, hctx.keyLength]
    exact fit_of_length hsek
  have hinstalled := unmarshalKM_of_marshalKM hkey
    (by rw [hctx.keyLength]; exact hlen) (hlearned.keyLength.trans hctx.keyLength.symm)
    (by rw [hctx.salt]; exact hsalt) hkm hs hs'
  rw [hfield] at hinstalled
  rw [hinstalled]
  -- the mode that comes with the key is the one that was agreed on
  have hmode : (learned.adopt km).mode = learned.mode := by
    obtain ⟨-, -, heq⟩ := marshalKM_eq hkm
    have hcipher : km.cipher = T.mode.code := by
      rw [heq, hctx.mode]
    rw [hlearned.mode]
    cases hT : T.mode <;> simp [adopt, hcipher, hT, CipherMode.code]
  have hcipher : newCipher sek = some sek := by
    simp [newCipher, hsek, hlen]
  refine ⟨?_, fun other hother => ?_⟩
  · unfold keyOf
    rw [slot_setSlot_self _ hkey, Option.bind_some, (setSlot_fields _ _ _).1]
    cases hgcm : (learned.adopt km).mode <;> simp [install, hcipher, hgcm]
  · unfold keyOf
    rw [slot_setSlot_of_ne _ hother, (setSlot_fields _ _ _).1, hmode]
    cases other <;> rfl

end

namespace Conn

variable {σ : Type}

def DataOnly (c : Conn σ) : Prop :=
  ∀ j, (c.snd.sendBuf.entries j).used = true →
    (c.snd.sendBuf.entries j).pkt.header.isControl = false

def Passive (o : Output) : Prop := o.isFirst = false ∧ o.isKMREQ = false

theorem passive_of_signal (h : Signal o) : Passive o := by
  cases o with
  | sendPacket p owned =>
    obtain ⟨rfl, -, hreq⟩ := h
    refine ⟨rfl, ?_⟩
    simp only [Output.isKMREQ, Output.packet?, Option.map_some, Option.getD_some, Packet.isKMREQ]
    by_contra hne
    simp only [Bool.not_eq_false, Bool.and_eq_true, decide_eq_true_eq] at hne
    exact hreq ⟨hne.1.2, hne.2⟩
  | setTimer id deadline => exact ⟨rfl, rfl⟩
  | clearTimer id => exact ⟨rfl, rfl⟩

theorem passive_of_data {p : Packet} (h : p.header.isControl = false) :
    Passive (.sendPacket p true) :=
  ⟨rfl, by simp [Output.isKMREQ, Output.packet?, Packet.isKMREQ, h]⟩

section
variable [Primitives]

theorem isControl_encrypt (c : Conn σ) (p : Packet) (seqNo : ℕ) :
    (c.encrypt p seqNo).header.isControl = p.header.isControl := by
  unfold encrypt
  split
  · rfl
  · simp only
    split <;> rfl

theorem encryption_encrypt {c : Conn σ} (hctx : c.key.cryptoCtx = some ctx) (p : Packet)
    (seqNo : ℕ) :
    (c.encrypt p seqNo).header.encryption = c.key.activeKey := by
  unfold encrypt
  simp only [hctx]
  split <;> rfl

variable {i : Input} {c c' : Conn σ}

omit [Primitives] in
theorem DataOnly.of_within (h : c.DataOnly) (hsb : c.snd.sendBuf.Within c'.snd.sendBuf) :
    c'.DataOnly := by
  intro j hj
  obtain ⟨k, hk, hpkt⟩ := hsb j hj
  exact (congrArg (fun p : Packet => p.header.isControl) hpkt).trans (h k hk)

theorem Utters.passive_or_announces (hdata : c.DataOnly) (h : Utters i c o) : Passive o ∨
    (∃ now, i = .timer now .kmRefresh) ∧ c.key.kmAnnounced = true ∧
      ∃ ctx, c.key.cryptoCtx = some ctx ∧
      c.Announces ctx c.key.kmRetryKey o := by
  cases h with
  | signal h => exact Or.inl (passive_of_signal h)
  | copy hcopy =>
    obtain ⟨j, hused, rfl⟩ := hcopy
    exact Or.inl (passive_of_data (hdata j hused))
  | repair fp hfec => exact Or.inl (passive_of_data rfl)
  | announce hi hannounced hctx h => exact Or.inr ⟨⟨_, hi⟩, hannounced, _, hctx, h⟩

/-! ## Sending a packet -/

structure Transmits (c : Conn σ) (seqNo ts : ℕ) (f : Frame) (c' : Conn σ) : Prop where
  params : c'.params = c.params
  key : c'.key = c.key
  history : c'.history = c.history ++ [⟨c.key.cryptoCtx, c.framePacket seqNo ts f,
    c.encrypt (c.framePacket seqNo ts f) seqNo⟩]
  outputs : ∃ os, c'.outputs = c.outputs ++
    (.sendPacket (c.encrypt (c.framePacket seqNo ts f) seqNo) false :: os) ∧ ∀ o ∈ os, Passive o

variable {seqNo ts : ℕ} {f : Frame}

theorem Transmits.length (h : Transmits c seqNo ts f c') :
    c'.history.length = c.history.length + 1 := by
  rw [h.history, List.length_append, List.length_singleton]

theorem Transmits.firsts_eq (h : Transmits c seqNo ts f c') :
    firsts c'.outputs = firsts c.outputs + 1 := by
  obtain ⟨os, houtputs, hos⟩ := h.outputs
  have hzero : firsts os = 0 := firsts_eq_zero fun o ho => (hos o ho).1
  rw [houtputs, firsts_append, firsts, firsts, List.countP_cons_of_pos rfl, ← firsts,
    ← firsts, hzero]

theorem Transmits.silent (h : Transmits c seqNo ts f c') :
    Emits (fun o => o.isKMREQ = false) c c' := by
  obtain ⟨os, houtputs, hos⟩ := h.outputs
  refine ⟨_, houtputs, fun o ho => ?_⟩
  rcases List.mem_cons.mp ho with rfl | ho
  · simp [Output.isKMREQ, Output.packet?, Packet.isKMREQ, isControl_encrypt, framePacket,
      Packet.newData]
  · exact (hos o ho).2

/-! ## Announcements -/

/-- An output from which a listener of whom `K` holds learns the keys of `new` slots at most. -/
structure Teaches (T : Terms) (passphrase : String) (K : Context → Prop)
    (new : PacketEncryption → Prop) (o : Output) : Prop where
  first : o.isFirst = false
  learns : ∀ learned, Agreed T learned → K learned →
    Agreed T (learnOne passphrase learned o) ∧ K (learnOne passphrase learned o) ∧
      ∀ key, ¬new key → (learnOne passphrase learned o).keyOf key = learned.keyOf key

variable {T : Terms} {passphrase : String} {key : PacketEncryption} {sek : Bytes}
    {K : Context → Prop}
  {N : PacketEncryption → Prop} {c₀ : Conn σ}

theorem Passive.teaches (h : Passive o) : Teaches T passphrase K N o := by
  refine ⟨h.1, fun learned hagreed hK => ?_⟩
  rw [learnOne_of_not_isKMREQ _ _ h.2]
  exact ⟨hagreed, hK, fun _ _ => rfl⟩

theorem learn_teaches (hos : ∀ o ∈ os, Teaches T passphrase K N o) (hagreed : Agreed T learned)
    (hK : K learned) : firsts os = 0 ∧ Agreed T (learn passphrase learned os) ∧
      ∀ key, ¬N key → (learn passphrase learned os).keyOf key = learned.keyOf key := by
  refine ⟨firsts_eq_zero fun o ho => (hos o ho).first, ?_⟩
  induction os generalizing learned with
  | nil => exact ⟨hagreed, fun _ _ => rfl⟩
  | cons o os ih =>
    obtain ⟨hagreed', hK', hsame⟩ := (hos o List.mem_cons_self).learns learned hagreed hK
    obtain ⟨hrest, hkeys⟩ := ih (fun o ho => hos o (List.mem_cons_of_mem _ ho)) hagreed' hK'
    exact ⟨hrest, fun key hkey => (hkeys key hkey).trans (hsame key hkey)⟩

section
variable [LawfulPrimitives] {now : ℤ}

theorem learnOne_announces (hlen : validKeySize T.keyLength = true) (hctx : Agreed T ctx)
    (hkm : ctx.marshalKM passphrase key = .ok km) (learned : Context) :
    learnOne passphrase learned (.sendPacket (c.userControl now .kmReq km.marshalCIF) true) =
      (learned.unmarshalKM km passphrase).1 := by
  have hround := CIFKeyMaterial.unmarshalCIF_marshalCIF
    (wellFormed_marshalKM (by rw [hctx.keyLength]; exact hlen) hkm)
  unfold learnOne
  simp only [Output.packet?]
  rw [if_pos (show (c.userControl now .kmReq km.marshalCIF).isKMREQ = true from rfl),
    show (c.userControl now .kmReq km.marshalCIF).data = km.marshalCIF from rfl, hround]

theorem learnOne_new (now : ℤ) (hlen : validKeySize T.keyLength = true) (hsalt : T.salt.length = 16)
    (hctx : Agreed T ctx) (hsek : sek.length = T.keyLength) (hholds : ctx.Holds key sek)
    (hkm : ctx.marshalKM passphrase key = .ok km)
    (hagreed : Agreed T learned) : Agreed T (learnOne passphrase learned
        (.sendPacket (c.userControl now .kmReq km.marshalCIF) true)) ∧
      (learnOne passphrase learned
        (.sendPacket (c.userControl now .kmReq km.marshalCIF) true)).keyOf key = some sek ∧
      ∀ other, other ≠ key → (learnOne passphrase learned
        (.sendPacket (c.userControl now .kmReq km.marshalCIF) true)).keyOf other =
          learned.keyOf other := by
  rw [learnOne_announces hlen hctx hkm]
  obtain ⟨-, -, heq⟩ := marshalKM_eq hkm
  refine ⟨hagreed.unmarshalKM ?_ ?_ _, keyOf_unmarshalKM hlen hsalt hctx hagreed hsek hholds hkm⟩
  · rw [heq, hctx.salt]
    exact fit_of_length hsalt
  · rw [heq, hctx.mode]

theorem Announces.teaches (hlen : validKeySize T.keyLength = true) (hsalt : T.salt.length = 16)
    {known : Context} (hctx : Agreed T ctx) (hsek : sek.length = T.keyLength)
    (hholds : ctx.Holds key sek)
    (hknown : known.keyOf key = some sek) (ho : c.Announces ctx key o) :
    Teaches T c.params.passphrase (fun learned => learned.keyOf = known.keyOf)
      (fun _ => False) o := by
  obtain ⟨now, km, hkm, rfl⟩ := ho
  refine ⟨rfl, fun learned hagreed hsame => ?_⟩
  obtain ⟨hlearned, hkey, hothers⟩ :=
    learnOne_new (c := c) _ hlen hsalt hctx hsek hholds hkm hagreed
  have hkept : (learnOne c.params.passphrase learned
      (.sendPacket (c.userControl now .kmReq km.marshalCIF) true)).keyOf = learned.keyOf := by
    funext other
    by_cases hother : other = key
    · rw [hother, hkey, hsame, hknown]
    · exact hothers other hother
  exact ⟨hlearned, hkept.trans hsame, fun other _ => congrFun hkept other⟩

end

/-! ## The side that announces -/

/-- What a side that hears of no keys maintains, for a listener who started with `ctx₀`. -/
structure Courier (T : Terms) (ctx₀ : Context) (c : Conn σ) : Prop where
  keys : Keeps (Known T (learn c.params.passphrase ctx₀ c.outputs)) c.params.kmPreAnnounce c.key
  retryKey : c.key.kmAnnounced = true → c.key.kmRetryKey = oppositeKey c.key.activeKey
  total : firsts c.outputs = c.history.length
  made : ∀ t ∈ c.history, t.Made T
  older : ∀ n t, c.history[n]? = some t → t.wire.header.encryption ≠ c.key.activeKey →
    n + c.key.kmPacketCount < c.history.length
  fresh : ∀ n t, c.history[n]? = some t → ∀ m, n < firsts (c.outputs.take (m + 1)) →
    firsts (c.outputs.take m) ≤ n + c.params.kmPreAnnounce →
    CanRead (learn c.params.passphrase ctx₀ (c.outputs.take m)) t
  agreed : ∀ m, Agreed T (learn c.params.passphrase ctx₀ (c.outputs.take m))

namespace Courier

variable {ctx₀ : Context}

theorem whole (h : c.Courier T ctx₀) : Agreed T (learn c.params.passphrase ctx₀ c.outputs) := by
  have hall := h.agreed c.outputs.length
  rwa [List.take_length] at hall

/-- No packet is sent for the first time, and a listener only learns the keys of slots that have
been out of use for long. -/
theorem of_teaches (h : c.Courier T ctx₀) (hparams : c'.params = c.params)
    (hhistory : c'.history = c.history)
    (houtputs : c'.outputs = c.outputs ++ os) (hos : ∀ o ∈ os, Teaches T c.params.passphrase K N o)
    (hK : K (learn c.params.passphrase ctx₀ c.outputs))
    (hnew : ∀ n t, c.history[n]? = some t → N t.wire.header.encryption →
      n + c.params.kmPreAnnounce < c.history.length)
    (hkeys : Keeps
      (Known T (learn c.params.passphrase ctx₀ c'.outputs)) c.params.kmPreAnnounce c'.key)
    (hretry : c'.key.kmAnnounced = true → c'.key.kmRetryKey = oppositeKey c'.key.activeKey)
    (holder : ∀ n t, c.history[n]? = some t → t.wire.header.encryption ≠ c'.key.activeKey →
      n + c'.key.kmPacketCount < c.history.length) :
    c'.Courier T ctx₀ := by
  have hwhole := h.whole
  -- who has heard some of the new outputs has heard all of the old ones
  have hpoint : ∀ m, firsts (c'.outputs.take m) = firsts (c.outputs.take m) ∧
      Agreed T (learn c.params.passphrase ctx₀ (c'.outputs.take m)) ∧
      (c'.outputs.take m = c.outputs.take m ∨ c.outputs.take m = c.outputs ∧ ∀ key, ¬N key →
        (learn c.params.passphrase ctx₀ (c'.outputs.take m)).keyOf key =
          (learn c.params.passphrase ctx₀ (c.outputs.take m)).keyOf key) := by
    intro m
    rw [houtputs]
    by_cases hm : m ≤ c.outputs.length
    · rw [List.take_append_of_le_length hm]
      exact ⟨rfl, h.agreed m, Or.inl rfl⟩
    · have hall : c.outputs.take m = c.outputs := List.take_of_length_le (by omega)
      obtain ⟨hfirsts, hagreed, hsame⟩ := learn_teaches
        (fun o (ho : o ∈ os.take (m - c.outputs.length)) => hos o (List.mem_of_mem_take ho)) hwhole
          hK
      rw [List.take_append, hall, learn_append, firsts_append, hfirsts]
      exact ⟨rfl, hagreed, Or.inr ⟨rfl, hsame⟩⟩
  refine ⟨hparams ▸ hkeys, hretry, ?_, hhistory ▸ h.made, hhistory ▸ holder, ?_,
    fun m => hparams ▸ (hpoint m).2.1⟩
  · rw [houtputs, firsts_append, (learn_teaches hos hwhole hK).1, hhistory]
    exact h.total
  · intro n t ht m hsent hrecent
    rw [hhistory] at ht
    rw [(hpoint _).1] at hsent hrecent
    rw [hparams] at hrecent ⊢
    have hread := h.fresh n t ht m hsent hrecent
    rcases (hpoint m).2.2 with hsame | ⟨hall, hsame⟩
    · rwa [hsame]
    · refine hread.congr (hsame _ fun hslot => ?_)
      have hold := hnew n t ht hslot
      rw [hall, h.total] at hrecent
      omega

theorem context (h : c.Courier T ctx₀) : ∃ ctx sek, c.key.cryptoCtx = some ctx ∧ Agreed T ctx ∧
    sek.length = T.keyLength ∧ ctx.Holds c.key.activeKey sek ∧
    (learn c.params.passphrase ctx₀ c.outputs).keyOf c.key.activeKey = some sek := by
  obtain ⟨ctx, hctx, ⟨hagreed, sek, hsek, hholds, hknown⟩, -⟩ := h.keys.context
  exact ⟨ctx, sek, hctx, hagreed, hsek, hholds, hknown⟩

/-- Sending a packet for the first time.  The packets of the other slot are now older by
one, although the rotation has not counted this one yet. -/
theorem sends (h : c.Courier T ctx₀) (hsends : Transmits c seqNo ts f c') : c'.Courier T ctx₀ ∧
    ∀ n t, c'.history[n]? = some t → t.wire.header.encryption ≠ c.key.activeKey →
      n + c.key.kmPacketCount + 1 < c'.history.length := by
  obtain ⟨ctx, sek, hctx, hagreed, hsek, hholds, hknown⟩ := h.context
  obtain ⟨rest, hrest, hquiet⟩ := hsends.silent
  obtain ⟨os, houtputs, hos⟩ := hsends.outputs
  have hlength := hsends.length
  have hactive : (c.encrypt (c.framePacket seqNo ts f) seqNo).header.encryption = c.key.activeKey :=
    encryption_encrypt hctx _ _
  have hlearn : ∀ m, learn c.params.passphrase ctx₀ (c'.outputs.take m) =
      learn c.params.passphrase ctx₀ (c.outputs.take m) := by
    intro m
    rw [hrest, List.take_append, learn_append, learn_of_not_isKMREQ]
    exact fun o ho => hquiet o (List.mem_of_mem_take ho)
  have hfirsts : ∀ m, firsts (c.outputs.take m) ≤ firsts (c'.outputs.take m) := by
    intro m
    rw [houtputs, List.take_append, firsts_append]
    omega
  have holder : ∀ n t, c'.history[n]? = some t → t.wire.header.encryption ≠ c.key.activeKey →
      n + c.key.kmPacketCount + 1 < c'.history.length := by
    intro n t ht hother
    rw [hsends.history] at ht
    rcases getElem?_concat_cases ht with hold | ⟨-, rfl⟩
    · have hbefore := h.older n t hold hother
      omega
    · exact absurd hactive hother
  refine ⟨⟨?_, by rw [hsends.key]; exact h.retryKey, ?_, fun t ht => ?_, fun n t ht hother => ?_,
    fun n t ht m hsent hrecent => ?_, fun m => ?_⟩, holder⟩
  · rw [hsends.params, hsends.key, hrest, learn_append, learn_of_not_isKMREQ _ _ hquiet]
    exact h.keys
  · rw [hsends.firsts_eq, h.total, hlength]
  · rw [hsends.history] at ht
    rcases List.mem_append.mp ht with ht | ht
    · exact h.made t ht
    · rw [List.mem_singleton.mp ht]
      exact made_encrypt hctx hagreed seqNo ts f
  · rw [hsends.key] at hother ⊢
    have hrecent := holder n t ht hother
    omega
  · rw [hsends.params] at hrecent ⊢
    rw [hlearn]
    rw [hsends.history] at ht
    rcases getElem?_concat_cases ht with hold | ⟨rfl, rfl⟩
    · refine h.fresh n t hold m ?_ ((hfirsts m).trans hrecent)
      by_cases hm : m + 1 ≤ c.outputs.length
      · rwa [houtputs, List.take_append_of_le_length hm] at hsent
      · rw [List.take_of_length_le (by omega), h.total]
        exact (List.getElem?_eq_some_iff.mp hold).1
    · -- the packet itself is only seen by who has seen all that came before
      have hm : c.outputs.length ≤ m := by
        by_contra hm
        rw [houtputs, List.take_append_of_le_length (by omega), ← h.total] at hsent
        exact absurd hsent (not_lt.mpr ((List.take_sublist _ _).countP_le))
      rw [List.take_of_length_le hm]
      refine ⟨ctx, hctx, ?_, ?_⟩
      · rw [hactive, hknown]
        rfl
      · rw [hactive, hknown, hholds.keyOf]
  · rw [hsends.params, hlearn]
    exact h.agreed m

variable [LawfulPrimitives]

theorem aside (hlen : validKeySize T.keyLength = true) (hsalt : T.salt.length = 16)
    (hdata : c.DataOnly)
    (h : c.Courier T ctx₀) (hmove : Aside i c₀ c c') (hin : ∀ now p, i = .packet now p →
      p.isKMREQ = false) :
    c'.Courier T ctx₀ := by
  have hsame := hmove.key.same_of_not_isKMREQ hin
  obtain ⟨os, houtputs, hos⟩ := hmove.emits
  set known := learn c.params.passphrase ctx₀ c.outputs with hknown
  have hteaches : ∀ o ∈ os, Teaches T c.params.passphrase (fun learned => learned.keyOf =
    known.keyOf)
      (fun _ => False) o := by
    intro o ho
    rcases (hos o ho).passive_or_announces hdata with hpassive | ⟨-, hannounced, ctx,
      hctx, hannounces⟩
    · exact hpassive.teaches
    · obtain ⟨ctx', hctx', -, hnext⟩ := h.keys.context
      obtain rfl : ctx = ctx' := Option.some.inj (hctx.symm.trans hctx')
      obtain ⟨hagreed, next, hlength, hholds, hnextKnown⟩ := hnext hannounced
      rw [h.retryKey hannounced] at hannounces
      exact hannounces.teaches hlen hsalt hagreed hlength hholds hnextKnown
  refine h.of_teaches hmove.params hmove.history houtputs hteaches rfl (fun _ _ _ hnew => hnew.elim)
    ?_ ?_ ?_
  · refine (h.keys.congr hsame).mono ?_
    rintro ctx key ⟨hagreed, sek, hsek, hholds, hlearned⟩
    refine ⟨hagreed, sek, hsek, hholds, ?_⟩
    rw [houtputs, learn_append, (learn_teaches hteaches h.whole rfl).2.2 key id]
    exact hlearned
  · rw [hsame.kmAnnounced, hsame.kmRetryKey, hsame.activeKey]
    exact h.retryKey
  · rw [hsame.activeKey, hsame.kmPacketCount]
    exact h.older

theorem rotate (hlen : validKeySize T.keyLength = true) (hsalt : T.salt.length = 16)
    (hrates : 2 * c.params.kmPreAnnounce ≤ c.params.kmRefreshRate)
    (hpass : c.params.passphrase ≠ "") (h : c.Courier T ctx₀)
    (holder : ∀ n t, c.history[n]? = some t → t.wire.header.encryption ≠ c.key.activeKey →
      n + c.key.kmPacketCount + 1 < c.history.length) (now : ℤ) :
    (c.checkKeyRotation now).Courier T ctx₀ := by
  obtain ⟨ctx, sek, hctx, hagreed, hsek, hholds, hknown⟩ := h.context
  obtain ⟨hopposite, hne, -⟩ := oppositeKey_cases h.keys.active
  have hkey := key_checkKeyRotation c now
  have hframe := keyFrame_checkKeyRotation c now
  obtain ⟨hidle, hannounce⟩ := outputs_checkKeyRotation c now hctx
  have hprogress := KeySide.advance_progress hctx c.params.kmRefreshRate c.params.kmPreAnnounce
  rw [← hkey] at hprogress
  have hclear : ∀ learned ctx key other, key ≠ other → Known T learned ctx key →
      Known T learned (ctx.clearSEK other) key := by
    rintro learned ctx key other hne ⟨hagreed, sek, hsek, hholds, hknown⟩
    exact ⟨hagreed.setSlot other {}, sek, hsek, hholds.congr (setSlot_fields ctx other {}).1
      (slot_setSlot_of_ne ctx hne _), hknown⟩
  have hdrawn : Agreed T { ctx with drawn := ctx.drawn + 1 } := hagreed.congr rfl rfl rfl rfl
  have hretry : (c.checkKeyRotation now).key.kmAnnounced = true →
      (c.checkKeyRotation now).key.kmRetryKey =
        oppositeKey (c.checkKeyRotation now).key.activeKey := by
    intro hann
    rcases hprogress with ⟨hactive, -, hretry⟩ | ⟨-, -, hquiet⟩
    · rw [hactive]
      rcases hretry hann with hretry | ⟨hbefore, hretry⟩
      · exact hretry
      · rw [hretry]
        exact h.retryKey hbefore
    · exact absurd hann (by simp [hquiet])
  have holder' : ∀ n t, c.history[n]? = some t →
      t.wire.header.encryption ≠ (c.checkKeyRotation now).key.activeKey →
      n + (c.checkKeyRotation now).key.kmPacketCount < c.history.length := by
    intro n t ht hother
    rcases hprogress with ⟨hactive, hcount, -⟩ | ⟨-, hcount, -⟩
    · rw [hactive] at hother
      rw [hcount]
      exact holder n t ht hother
    · rw [hcount]
      exact (List.getElem?_eq_some_iff.mp ht).1
  by_cases hdraws : c.key.count.due c.params.kmRefreshRate c.params.kmPreAnnounce = true ∧
      (ctx.generateSEK (oppositeKey c.key.activeKey)).2 = none
  · obtain ⟨hdue, hdraws⟩ := hdraws
    rcases ctx.generateSEK_cases hopposite with ⟨e, hgen⟩ | ⟨next, hsize, hnext, hgen⟩
    · exact absurd hdraws (by simp [hgen])
    -- the key just drawn, and its announcement
    set drawn : Context := { ctx with drawn := ctx.drawn + 1 } with hdrawnDef
    set ctx' := drawn.setSlot (oppositeKey c.key.activeKey) (keyed ctx.mode next) with hctx'
    have hagreed' : Agreed T ctx' := hdrawn.setSlot _ _
    have hholds' : ctx'.Holds (oppositeKey c.key.activeKey) next :=
      holds_keyed drawn hopposite next
    have hlength : next.length = T.keyLength := by
      obtain ⟨raw, -, rfl⟩ := Option.map_eq_some_iff.mp hnext
      rw [length_fit]
      exact hagreed.keyLength
    obtain ⟨km, hkm⟩ : ∃ km,
        ctx'.marshalKM c.params.passphrase (oppositeKey c.key.activeKey) = .ok km :=
      exists_marshalKM (by rw [hagreed'.keyLength]; exact hlen)
        (oppositeKey_ne_none _)
    obtain ⟨deadline, houtputs⟩ := hannounce hdue ctx' hgen hpass km hkm
    have hlearns : ∀ {learned}, Agreed T learned → _ :=
      fun hlearned => learnOne_new (c := c) now hlen hsalt hagreed' hlength hholds' hkm hlearned
    obtain ⟨-, hnew, hkept⟩ := hlearns h.whole
    have hend : learn c.params.passphrase ctx₀ (c.checkKeyRotation now).outputs =
      learnOne c.params.passphrase
        (learn c.params.passphrase ctx₀ c.outputs)
          (.sendPacket (c.userControl now .kmReq km.marshalCIF) true) := by
      rw [houtputs, learn_append]
      rfl
    refine h.of_teaches (K := fun _ => True) (N := (· = oppositeKey c.key.activeKey)) hframe.params
      hframe.history houtputs (fun o ho => ?_) trivial (fun n t ht hslot => ?_) ?_ hretry holder'
    · rcases List.mem_cons.mp ho with rfl | ho
      · exact ⟨rfl, fun learned hlearned _ =>
          ⟨(hlearns hlearned).1, trivial, fun key hkey => (hlearns hlearned).2.2 key hkey⟩⟩
      · rw [List.mem_singleton.mp ho]
        exact Passive.teaches ⟨rfl, rfl⟩
    · -- a packet in the slot that has just been redrawn was sent before the last switch
      have hold := holder n t ht (by rw [hslot]; exact hne)
      have hreached := KeySide.le_of_due hdue
      omega
    · rw [hkey, hend]
      refine Keeps.advance hrates h.keys hctx (hclear _) (fun hnot => absurd hdue (by simp [hnot]))
        (fun _ e hfailed => absurd hdraws (by simp [hfailed])) ?_
      rintro - sek' - hsek' - ⟨-, sek, hsek, hholds, hknown⟩
      obtain rfl : next = sek' := Option.some.inj (hnext.symm.trans hsek')
      refine ⟨⟨hagreed', sek, hsek, ?_, ?_⟩, hagreed', next, hlength, hholds', hnew⟩
      · exact hholds.congr (setSlot_fields drawn _ _).1
          (slot_setSlot_of_ne drawn hne.symm _)
      · rw [hkept _ hne.symm]
        exact hknown
  · have houtputs : (c.checkKeyRotation now).outputs = c.outputs := by
      refine hidle ?_
      by_cases hdue : c.key.count.due c.params.kmRefreshRate c.params.kmPreAnnounce = true
      · exact Or.inr fun hnone => hdraws ⟨hdue, hnone⟩
      · exact Or.inl (by simpa using hdue)
    refine h.of_teaches (K := fun _ => True) (N := fun _ => False) hframe.params hframe.history
      (by rw [houtputs, List.append_nil]) (by simp) trivial (fun _ _ _ hnew => hnew.elim) ?_
        hretry holder'
    rw [houtputs, hkey]
    refine Keeps.advance hrates h.keys hctx (hclear _) (fun _ _ hkey => hkey) ?_ ?_
    · rintro - e - key ⟨-, sek, hsek, hholds, hknown⟩
      exact ⟨hdrawn, sek, hsek, hholds.congr rfl rfl, hknown⟩
    · intro hdue sek _ _ hgen
      exact absurd ⟨hdue, by rw [hgen]⟩ hdraws

end Courier

/-! ## Steps -/

variable [Controller σ]

theorem DataOnly.sendMove {c₁ c₂ : Conn σ} (hmove : SendMove i c₀ c₁ c₂) (hc₁ : c₁.DataOnly) :
    c₂.DataOnly := by
  cases hmove with
  | aside hmove => exact hc₁.of_within hmove.sendBuf
  | transmit hpush =>
    intro j hj
    rcases pkt_of_push hpush hj with heq | ⟨k, hused, heq⟩
    · refine (congrArg (fun p : Packet => p.header.isControl) heq).trans ?_
      rw [isControl_encrypt]
      rfl
    · exact (congrArg (fun p : Packet => p.header.isControl) heq).trans (hc₁ k hused)
  | rotate hrate =>
    refine hc₁.of_within ?_
    rw [(keyFrame_checkKeyRotation c₁ i.now).snd]
    exact SendBuffer.Within.refl _

theorem SideMove.dataOnly (hmove : SideMove i c₀ c c') (h : c.DataOnly) : c'.DataOnly :=
  hmove.preserves (fun _ _ hpart hd => hd.sendMove hpart) h

theorem DataOnly.step (h : c.DataOnly) : (c.step i).DataOnly :=
  send_preserves c i h fun _ _ hmove hc₁ => hc₁.sendMove hmove

omit [Primitives] in
theorem dataOnly_established (cc : σ) (now : ℤ) (ep : EstablishParams) :
    (established cc now ep).DataOnly :=
  fun j hj => absurd hj (by simp [established, SendBuffer.new])

omit [Primitives] in
theorem dataOnly_establish (cc : σ) (now : ℤ) (ep : EstablishParams) :
    (establish cc now ep).DataOnly := by
  refine (dataOnly_established cc now ep).of_within ?_
  rw [(quiet_establish cc now ep).sendBuf]
  exact SendBuffer.Within.refl _

theorem SideMove.params (h : SideMove i c₀ c c') : c'.params = c.params := by
  cases h with
  | aside hmove => exact hmove.params
  | packet seqNo ts f => exact (sendFrame_sendData _ _ _ _ _).params

theorem sendData_transmits (c : Conn σ) (now : ℤ) (seqNo ts : ℕ) (f : Frame) :
    c.sendData now seqNo ts f = c ∨
    ∃ c', Transmits c seqNo ts f c' ∧ (c.sendData now seqNo ts f).history = c'.history ∧
      c.sendData now seqNo ts f =
        if c.key.cryptoCtx.isSome ∧ 0 < c.params.kmRefreshRate then c'.checkKeyRotation now
        else c' := by
  unfold sendData
  simp only
  split
  · exact Or.inl rfl
  · rename_i sb hpush
    set wire := c.encrypt (c.framePacket seqNo ts f) seqNo
    obtain ⟨fec, os, heq, hos⟩ :=
      (c.transmit now (tagTTL sb f.ttlNs) (c.framePacket seqNo ts f) wire).feedFEC_spec wire
    refine Or.inr ⟨(c.transmit now (tagTTL sb f.ttlNs) (c.framePacket seqNo ts f) wire).feedFEC
      wire, ?_, ?_, ?_⟩
    · rw [heq]
      refine ⟨rfl, rfl, rfl, os, List.append_assoc _ _ _, fun o ho => ?_⟩
      obtain ⟨fp, rfl⟩ := hos o ho
      exact passive_of_data rfl
    · unfold afterSend
      split_ifs
      · exact (keyFrame_checkKeyRotation _ now).history
      · rfl
    · rw [afterSend, heq]
      rfl

namespace Courier

variable {ctx₀ : Context} [LawfulPrimitives]

section

variable (hlen : validKeySize T.keyLength = true) (hsalt : T.salt.length = 16)
    (hrates : c.params.kmRefreshRate = 0 ∨ 2 * c.params.kmPreAnnounce ≤ c.params.kmRefreshRate)
    (hpass : c.params.passphrase ≠ "")

include hlen hsalt hrates hpass

theorem packet (h : c.Courier T ctx₀) (now : ℤ) (seqNo ts : ℕ) (f : Frame) :
    (c.sendData now seqNo ts f).Courier T ctx₀ := by
  rcases sendData_transmits c now seqNo ts f with hsame | ⟨c', hsends, -, heq⟩
  · rw [hsame]
    exact h
  · obtain ⟨hsent, holder⟩ := h.sends hsends
    rw [heq]
    split_ifs with hrotates
    · refine hsent.rotate hlen hsalt ?_ ?_ (by rw [hsends.key]; exact holder) now
      · rw [hsends.params]
        exact hrates.resolve_left hrotates.2.ne'
      · rw [hsends.params]
        exact hpass
    · exact hsent

theorem step (hdata : c.DataOnly) (h : c.Courier T ctx₀) (hin : ∀ now p, i = .packet now p →
    p.isKMREQ = false) :
    (c.step i).Courier T ctx₀ := by
  suffices hstep : (c.step i).Courier T ctx₀ ∧ (c.step i).DataOnly ∧
    (c.step i).params = c.params from
    hstep.1
  refine side_preserves (Q := fun c' => c'.Courier T ctx₀ ∧ c'.DataOnly ∧ c'.params = c.params) c i
    ⟨h, hdata, rfl⟩ fun c₁ c₂ hmove hc₁ => ?_
  obtain ⟨hc₁, hdata₁, hparams₁⟩ := hc₁
  refine ⟨?_, hmove.dataOnly hdata₁, hmove.params.trans hparams₁⟩
  cases hmove with
  | aside hmove => exact hc₁.aside hlen hsalt hdata₁ hmove hin
  | packet seqNo ts f =>
    exact hc₁.packet hlen hsalt (hparams₁ ▸ hrates) (hparams₁ ▸ hpass) _ seqNo ts f

end

end Courier

end

end Conn

end SrtGo.Core
