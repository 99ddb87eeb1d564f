import SrtGo.Buffer.RecvPlaced
import SrtGo.Crypto.XorCipher
import SrtGo.Secure.Pair

/-!
# Encrypted delivery across a key rotation

Counter mode never refuses a packet: with the wrong key it returns garbage.  So a payload
arrives intact only if the receiver has the right key in the slot that the packet names,
or none at all.  A receiver starts with a random key in the slot that the sender will
use after its first rotation, and learns the sender's key from an announcement, which the
network may lose.

`KeyAgrees` asks for this one thing, in each state in which a data packet arrives.  Given
it, what an application hears of is what the other side sent, through any loss,
duplication and reordering.
-/

namespace SrtGo.Core

open Buffer Bytes Congestion Crypto SrtGo.Seq

/-- What was sent has numbers as on the wire.  The numbers of coordinated writes come from the
host. -/
def Numbered (history : List Transmission) : Prop :=
  ∀ t ∈ history, Valid t.plain.header.sequenceNumber

/-- Delivered data is what the sender wrote: one packet, or, in message mode, the packets
of a message.  The event has the sequence number of the first one; in a ring that sequence
numbers can order the others are those that follow it. -/
def Event.Genuine (sized : Prop) (history : List Transmission) (messageMode : Bool) : Event → Prop
  | .dataReceived data seq _ _ => ∃ t ∈ history, ∃ ts : List Transmission, (∀ u ∈ ts, u ∈ history) ∧
      t.plain.header.sequenceNumber = seq ∧ data = t.plain.data ++ ts.flatMap (·.plain.data) ∧
      (messageMode = false → ts = []) ∧
      (sized → Numbered history → ∀ (k : ℕ) u, ts[k]? = some u →
        u.plain.header.sequenceNumber = add seq (k + 1))
  | _ => True

variable {e : Event} {sized : Prop}

theorem Event.Genuine.mono {history history' : List Transmission} {messageMode : Bool}
    (h : e.Genuine sized history messageMode) (hgrow : ∀ t ∈ history, t ∈ history') :
    e.Genuine sized history' messageMode := by
  cases e with
  | dataReceived data seq msgNo boundary =>
    obtain ⟨t, ht, ts, hts, hseq, hdata, hmode, hfollow⟩ := h
    exact ⟨t, hgrow t ht, ts, fun u hu => hgrow u (hts u hu), hseq, hdata, hmode,
      fun hsized hnumbered => hfollow hsized fun u hu => hnumbered u (hgrow u hu)⟩
  | _ => trivial

theorem Event.genuine_of_not_isData (h : e.isData = false) (history : List Transmission)
    (messageMode : Bool) :
    e.Genuine sized history messageMode := by
  cases e with
  | dataReceived data seq msgNo boundary => exact absurd h (by simp [Event.isData])
  | _ => trivial

namespace Conn

variable {σ : Type}

def Authentic (history : List Transmission) (p : Packet) : Prop :=
  ∃ t ∈ history, p.data = t.plain.data ∧
    p.header.sequenceNumber = t.plain.header.sequenceNumber

def AuthenticAt (history : List Transmission) (q : ℕ) (p : Packet) : Prop :=
  Authentic history p ∧ p.header.sequenceNumber = wrap q

/-- What the receive side maintains, against the transmissions of the other side. -/
structure Receives (sized : Prop) (history : List Transmission) (c : Conn σ) : Prop where
  fecReceiver : c.rcv.fecReceiver = none
  stored : ∀ p, c.rcv.recvBuf.Offers p → Authentic history p
  placed : sized → Numbered history → ∃ s, c.rcv.recvBuf.Placed (AuthenticAt history) s
  heard : ∀ e ∈ c.events, e.Genuine sized history c.params.messageMode

variable {history history' : List Transmission} {c c' : Conn σ}

theorem Authentic.mono {p : Packet} (h : Authentic history p) (hgrow : ∀ t ∈ history,
    t ∈ history') :
    Authentic history' p := by
  obtain ⟨t, ht, hsame⟩ := h
  exact ⟨t, hgrow t ht, hsame⟩

theorem Receives.mono (h : c.Receives sized history) (hgrow : ∀ t ∈ history, t ∈ history') :
    c.Receives sized history' := by
  refine ⟨h.fecReceiver, fun p hp => (h.stored p hp).mono hgrow, fun hsized hnumbered => ?_,
    fun e he => (h.heard e he).mono hgrow⟩
  obtain ⟨s, hs⟩ := h.placed hsized fun u hu => hnumbered u (hgrow u hu)
  exact ⟨s, hs.imp fun q p hp => ⟨hp.1.mono hgrow, hp.2⟩⟩

theorem Receives.still (h : c.Receives sized history) (hstill : Still c c') :
    c'.Receives sized history := by
  obtain ⟨es, hevents, hnews⟩ := hstill.news
  refine ⟨?_, fun p hp => h.stored p (hp.of_thins hstill.edits.thins), fun hsized hnumbered => ?_,
    fun e he => ?_⟩
  · have hnone := hstill.fecReceiver
    rw [h.fecReceiver] at hnone
    simpa using hnone
  · obtain ⟨s, hs⟩ := h.placed hsized hnumbered
    obtain ⟨s', -, hs', -⟩ := hs.edits hstill.edits
    exact ⟨s', hs'⟩
  · rw [hstill.params]
    rw [hevents] at he
    rcases List.mem_append.mp he with he | he
    · exact h.heard e he
    · exact Event.genuine_of_not_isData (hnews e he) _ _

theorem Receives.raise (h : c.Receives sized history)
    (he : e.Genuine sized history c.params.messageMode) :
    (c.raise e).Receives sized history := by
  refine ⟨h.fecReceiver, h.stored, h.placed, fun e' he' => ?_⟩
  rcases List.mem_append.mp he' with he' | he'
  · exact h.heard e' he'
  · rw [List.mem_singleton.mp he']
    exact he

theorem exists_flatMap_of_offersAll (h : c.Receives sized history) {rest : List Packet}
    (hrest : c.rcv.recvBuf.OffersAll rest) :
    ∃ ts : List Transmission, (∀ u ∈ ts, u ∈ history) ∧
      rest.flatMap (·.data) = ts.flatMap (·.plain.data) := by
  induction rest with
  | nil => exact ⟨[], by simp, rfl⟩
  | cons p rest ih =>
    obtain ⟨ts, hts, heq⟩ := ih fun q hq => hrest q (List.mem_cons_of_mem _ hq)
    rcases hrest p List.mem_cons_self with hp | rfl
    · obtain ⟨t, ht, hdata, -⟩ := h.stored p hp
      refine ⟨t :: ts, fun u hu => ?_, by rw [List.flatMap_cons, List.flatMap_cons, heq, hdata]⟩
      rcases List.mem_cons.mp hu with rfl | hu
      · exact ht
      · exact hts u hu
    · exact ⟨ts, hts, by simpa using heq⟩

theorem exists_of_inRow {q : ℕ} {ps : List Packet}
    (h : RecvBuffer.InRow (AuthenticAt history) q ps) :
    ∃ ts : List Transmission, (∀ u ∈ ts, u ∈ history) ∧
      ps.flatMap (·.data) = ts.flatMap (·.plain.data) ∧
      ∀ (k : ℕ) u, ts[k]? = some u → u.plain.header.sequenceNumber = wrap (q + k) := by
  induction ps generalizing q with
  | nil => exact ⟨[], by simp, rfl, by simp⟩
  | cons p ps ih =>
    obtain ⟨⟨t, ht, hdata, hseq⟩, hnumber⟩ := h 0 p rfl
    obtain ⟨ts, hts, heq, hfollow⟩ := ih (q := q + 1) fun k p' hk => by
      have := h (k + 1) p' hk
      rwa [Nat.add_comm k, ← Nat.add_assoc] at this
    refine ⟨t :: ts, fun u hu => ?_, by rw [List.flatMap_cons, List.flatMap_cons, heq,
      hdata], fun k u hk => ?_⟩
    · rcases List.mem_cons.mp hu with rfl | hu
      · exact ht
      · exact hts u hu
    · cases k with
      | zero =>
        obtain rfl := Option.some.inj hk
        exact hseq.symm.trans hnumber
      | succ k =>
        rw [Nat.add_comm k, ← Nat.add_assoc]
        exact hfollow k u hk

theorem Receives.genuine_message (h : c.Receives sized history)
    (hmode : c.params.messageMode = true) {p : Packet}
    {rest : List Packet} (hread : c.rcv.recvBuf.readMessage.2 = some (p :: rest)) (msgNo : ℕ)
    (boundary : PacketPosition) :
    (Event.dataReceived ((p :: rest).flatMap (·.data)) p.header.sequenceNumber msgNo
      boundary).Genuine sized
      history c.params.messageMode := by
  have hstream : c.params.messageMode = false → ∀ ts : List Transmission, ts = [] := fun hfalse =>
    absurd hmode (by simp [hfalse])
  by_cases hrow : sized ∧ Numbered history
  · obtain ⟨s, hs⟩ := h.placed hrow.1 hrow.2
    obtain ⟨q, hq⟩ := hs.readMessage hread
    obtain ⟨⟨t, ht, hdata, hseq⟩, hnumber⟩ := hq 0 p rfl
    obtain ⟨ts, hts, heq, hfollow⟩ := exists_of_inRow (q := q + 1) fun k p' hk => by
      have := hq (k + 1) p' hk
      rwa [Nat.add_comm k, ← Nat.add_assoc] at this
    refine ⟨t, ht, ts, hts, hseq.symm,
      by rw [List.flatMap_cons, heq, hdata], fun hfalse => hstream hfalse ts,
      fun _ _ k u hk => ?_⟩
    rw [hnumber, Nat.add_zero, add_wrap, Nat.add_comm k, ← Nat.add_assoc]
    exact hfollow k u hk
  · obtain ⟨p', rest', hsplit, hoffers, hrest⟩ := RecvBuffer.readMessage_offers hread
    obtain ⟨rfl, rfl⟩ := List.cons.inj hsplit
    obtain ⟨t, ht, hdata, hseq⟩ := h.stored _ hoffers
    obtain ⟨ts, hts, heq⟩ := exists_flatMap_of_offersAll h hrest
    exact ⟨t, ht, ts, hts, hseq.symm,
      by rw [List.flatMap_cons, heq, hdata], fun hfalse => hstream hfalse ts,
      fun hsized hnumbered => absurd ⟨hsized, hnumbered⟩ hrow⟩

theorem Receives.store (h : c.Receives sized history) {plain : Packet}
    (hauthentic : Authentic history plain)
    (now : ℤ) : (c.setRecvBuf (c.rcv.recvBuf.insert plain now).1).Receives sized history := by
  refine ⟨h.fecReceiver, fun q hq => ?_, fun hsized hnumbered => ?_, h.heard⟩
  · rcases hq.of_insert with hq | rfl
    · exact h.stored q hq
    · exact hauthentic
  · obtain ⟨s, hs⟩ := h.placed hsized hnumbered
    have hwell : plain.WellFormed := by
      obtain ⟨t, ht, -, hseq⟩ := hauthentic
      rw [Packet.WellFormed, hseq]
      exact hnumbered t ht
    show ∃ s, (c.rcv.recvBuf.insert plain now).1.Placed _ s
    rcases hs.insert_cases hwell now with hsame | ⟨q, hq, hq', hnumber, -, hstored⟩
    · rw [hsame]
      exact ⟨s, hs⟩
    · rw [hstored]
      exact ⟨s, hs.store hnumber hq hq' ⟨hauthentic, hnumber⟩ now⟩

variable [Primitives] [LawfulPrimitives]

variable {T : Terms}

/-- With the key of the sender, or with none, a copy of a transmission is decrypted to its
plaintext, or not at all. -/
theorem authentic_of_decrypt {ctx sender : Context} {t : Transmission} {p plain : Packet}
    (hctx : c.key.cryptoCtx = some ctx) (hagreed : Agreed T ctx) (hmade : t.Made T)
    (hsender : t.context = some sender) (hcopy : IsCopy p t.wire)
    (hkey : ctx.keyOf p.header.encryption = none ∨ ctx.keyOf p.header.encryption = sender.keyOf
      p.header.encryption)
    (hdec : c.decrypt p = some plain) : plain.data = t.plain.data ∧
      plain.header.sequenceNumber = t.plain.header.sequenceNumber := by
  obtain ⟨-, -, -, hopened⟩ := (decrypt_eq_some_iff hctx).mp hdec
  have hsome := Context.isSome_keyOf_of_decryptPayload hopened
  rcases hkey with hnone | hsame
  · exact absurd hsome (by simp [hnone])
  · have hplain := decryptPayload_of_made hagreed hmade hsender hcopy hsame hsome
    refine ⟨Except.ok.inj (hopened.symm.trans hplain), ?_⟩
    rw [header_of_decrypt hdec, hcopy.fields.2.1, hmade.2.2.1]

theorem Receives.step [Controller σ] {i : Input} (h : c.Receives sized history)
    (hcontext : ∃ ctx, c.key.cryptoCtx = some ctx ∧ Agreed T ctx) (hmade : ∀ t ∈ history, t.Made T)
    (hin : ∀ now p, i = .packet now p → Explained T history p)
    (hkey : ∀ now p, i = .packet now p → p.header.isControl = false →
      ∀ t ∈ history, IsCopy p t.wire → ∀ ctx ∈ c.key.cryptoCtx, ∀ sender ∈ t.context,
        ctx.keyOf p.header.encryption = none ∨
          ctx.keyOf p.header.encryption = sender.keyOf p.header.encryption) :
    (c.step i).Receives sized history := by
  refine step_preserves c i h fun c₁ c₂ hmove hc₁ => ?_
  cases hmove.recvMove with
  | still hstill => exact hc₁.still hstill
  | recover rp hfec => exact absurd hfec (by simp [hc₁.fecReceiver])
  | store hi hsame hdata hdec =>
    obtain ⟨ctx, hctx, hagreed⟩ := hcontext
    obtain ⟨t, ht, hcopy⟩ := (hin _ _ hi).data hdata
    obtain ⟨-, -, -, sender, hsender, -⟩ := hmade t ht
    exact hc₁.store ⟨t, ht, authentic_of_decrypt (hsame ▸ hctx) hagreed (hmade t ht) hsender hcopy
      (hkey _ _ hi hdata t ht hcopy ctx hctx sender hsender) hdec⟩ _
  | read hoffers hstill =>
    obtain ⟨t, ht, hdata, hseq⟩ := hc₁.stored _ hoffers
    refine (hc₁.raise ?_).still hstill
    exact ⟨t, ht, [], by simp, hseq.symm, by simp [hdata], fun _ => rfl, by simp⟩
  | message hmode hread hstill =>
    exact (hc₁.raise (hc₁.genuine_message hmode hread _ _)).still hstill

omit [Primitives] in
theorem receives_establish [Controller σ] (cc : σ) (now : ℤ) {ep : EstablishParams}
    (hfilter : ep.filterConfig = "") (history : List Transmission) :
    (establish cc now ep).Receives (ep.rcvCap ≤ 2 ^ 30 ∧ Valid ep.recvISN) history := by
  have hfec : ep.filter = none := if_pos hfilter
  have hrcv : (establish cc now ep).rcv = (established cc now ep).rcv ∧
      (establish cc now ep).events = [] := by
    unfold establish armTimers
    simp only
    split_ifs <;> exact ⟨rfl, rfl⟩
  refine ⟨?_, fun p hp => ?_, fun hsized _ => ?_, fun e he => ?_⟩
  · rw [hrcv.1]
    simp [established, hfec]
  · rw [hrcv.1] at hp
    obtain ⟨j, havailable, -⟩ := hp
    exact absurd havailable (by simp [established, RecvBuffer.setMessageAPI, RecvBuffer.new])
  · rw [hrcv.1]
    exact ⟨_, RecvBuffer.placed_new hsized.1 hsized.2 _⟩
  · exact absurd he (by simp [hrcv.2])

end Conn

/-! ## Whole runs -/

namespace Pair

variable {σ : Type}

/-- Every data packet that arrives meets, in the slot that it names, the key that it was
encrypted with, or an empty slot. -/
def KeyAgrees (l : Pair σ) : PairAction → Prop
  | .host _ _ => True
  | .deliver x _ k => ∀ p ∈ l.packetAt (!x) k, p.header.isControl = false →
      ∀ t ∈ (l !x).history, IsCopy p t.wire → ∀ ctx ∈ (l x).key.cryptoCtx, ∀ sender ∈ t.context,
        ctx.keyOf p.header.encryption = none ∨
          ctx.keyOf p.header.encryption = sender.keyOf p.header.encryption

instance (l : Pair σ) : ∀ a, Decidable (l.KeyAgrees a)
  | .host _ _ => isTrue trivial
  | .deliver x _ k =>
    inferInstanceAs (Decidable (∀ p ∈ l.packetAt (!x) k, _ → ∀ t ∈ (l !x).history, _))

/-- What either application hears of is what the other side sent. -/
def Intact (ep : Bool → EstablishParams) (l : Pair σ) : Prop :=
  ∀ x, ∀ e ∈ (l x).events, e.Genuine ((ep x).rcvCap ≤ 2 ^ 30 ∧ Valid (ep x).recvISN) (l !x).history
    (l x).params.messageMode

variable [Controller σ] [Primitives] [LawfulPrimitives]

def Sound (T : Terms) (ep : Bool → EstablishParams) (l : Pair σ) : Prop :=
  ∀ x, (l x).Truthful T ∧ (l x).Receives ((ep x).rcvCap ≤ 2 ^ 30 ∧ Valid (ep x).recvISN)
    (l !x).history

variable {ep : Bool → EstablishParams}

theorem Sound.step (hlen : validKeySize T.keyLength = true) (hsalt : T.salt.length = 16)
    {l : Pair σ}
    {a : PairAction} (h : l.Sound T ep) (hkeys : l.KeyAgrees a) : (l.step a).Sound T ep := by
  cases hinput : l.input? a with
  | none => rwa [step_of_none hinput]
  | some i =>
    obtain ⟨hself, hother⟩ := step_of_some hinput
    have hin : ∀ now p, i = .packet now p → Explained T (l !side a).history p := by
      rintro now p rfl
      obtain ⟨k, -, hp⟩ := packetAt_of_input hinput
      obtain ⟨owned, hsent⟩ := mem_outputs_of_packetAt hp
      exact (h !side a).1.onWire p owned hsent
    have hagrees : ∀ now p, i = .packet now p → p.header.isControl = false →
        ∀ t ∈ (l !side a).history, IsCopy p t.wire → ∀ ctx ∈ (l (side a)).key.cryptoCtx,
          ∀ sender ∈ t.context, ctx.keyOf p.header.encryption = none ∨
            ctx.keyOf p.header.encryption = sender.keyOf p.header.encryption := by
      rintro now p rfl
      obtain ⟨k, ha, hp⟩ := packetAt_of_input hinput
      rw [ha] at hkeys
      exact hkeys p hp
    obtain ⟨htruthful, hreceives⟩ := h (side a)
    have htruthful' := htruthful.step hlen hsalt fun now p hi => ⟨_, hin now p hi⟩
    have hreceives' := hreceives.step htruthful.context (h !side a).1.made hin hagrees
    intro x
    rcases Bool.eq_or_eq_not x (side a) with rfl | rfl
    · rw [hself, hother]
      exact ⟨htruthful', hreceives'⟩
    · rw [Bool.not_not, hself, hother]
      obtain ⟨htruthful₂, hreceives₂⟩ := h !side a
      rw [Bool.not_not] at hreceives₂
      exact ⟨htruthful₂, hreceives₂.mono (Conn.mem_history_step _ _)⟩

/-- **Encrypted delivery is intact.**  Two sides start with the same mode, salt and key
length, in counter mode for instance, and without a filter.  Whatever they send, whatever timers
fire, and whatever the network loses, duplicates and reorders: as long as each data packet meets
the key of its sender or none, every payload that is delivered is one that was written, and every
message is put together from packets that follow each other. -/
theorem run_intact (cc : Bool → σ) (now : Bool → ℤ) {ep : Bool → EstablishParams} (T : Terms)
    (hlen : validKeySize T.keyLength = true) (hsalt : T.salt.length = 16)
    (hshared : ∀ x, ∃ ctx, (ep x).context = some ctx ∧ Agreed T ctx)
    (hfilter : ∀ x, (ep x).filterConfig = "") {as : List PairAction}
    (hkeys : Run.AllSteps Pair.step KeyAgrees (Pair.new cc now ep) as) :
    Run.AllStates Pair.step (Intact ep) (Pair.new cc now ep) as := by
  have hinit : Sound T ep (Pair.new cc now ep) := by
    intro x
    obtain ⟨ctx, hctx, hagreed⟩ := hshared x
    exact ⟨Conn.truthful_establish _ _ hctx hagreed (hfilter x),
      Conn.receives_establish _ _ (hfilter x) _⟩
  have hsound := hkeys.allStates (fun l a hl ha => Sound.step hlen hsalt hl ha) hinit
  exact hsound.mono fun l hl x => (hl x).2.heard

end Pair

namespace Pair

open scoped XorCipher

/-- One end of a secured connection: the even key is shared, the odd one is a random
placeholder. -/
def endContext (odd : UInt8) : Context :=
  { mode := .ctr, keyLength := 16, salt := List.replicate 16 0
    even := { sek := some (List.replicate 16 7), cipher := some (List.replicate 16 7) }
    odd := { sek := some (List.replicate 16 odd), cipher := some (List.replicate 16 odd) }
    entropy := fun n => some (List.replicate 16 (UInt8.ofNat (n + 50))) }

def twoEnds (x : Bool) : EstablishParams :=
  { cryptoCtx := some (endContext (if x then 1 else 2)), activeKey := .even,
    passphrase := "swordfish"
    kmRefreshRate := 4, kmPreAnnounce := 1 }

def fiveWrites : List PairAction :=
  (List.range 5).map fun n : ℕ => .host true (.write (100000 * (n + 1)) [1, 2, 3] {})

def arrivals (ks : List ℕ) : List PairAction :=
  ks.map fun k : ℕ => .deliver false (600000 + 1000 * k) k

theorem run_intact_announced :
    Run.AllStates Pair.step (Intact twoEnds)
      (Pair.new (fun _ => LiveCC.new 0 0) (fun _ => 0) twoEnds) (fiveWrites ++ arrivals [3, 4,
        5, 6, 8, 9]) ∧
    (Run.exec Pair.step (Pair.new (fun _ => LiveCC.new 0 0) (fun _ => 0) twoEnds)
      (fiveWrites ++ arrivals [3, 4, 5, 6, 8, 9]) false).events =
      (List.range 5).map fun n => .dataReceived [1, 2, 3] n (n + 1) .single := by
  have hkeys : Run.AllSteps Pair.step KeyAgrees
      (Pair.new (fun _ => LiveCC.new 0 0) (fun _ => 0) twoEnds)
      (fiveWrites ++ arrivals [3, 4, 5, 6, 8, 9]) := by
    decide +kernel
  exact ⟨run_intact _ _ ⟨.ctr, List.replicate 16 0, 16, false⟩ (by decide) (by decide)
    (fun x => ⟨_, rfl, rfl, rfl, rfl, fun _ => rfl⟩) (fun _ => rfl) hkeys, by decide +kernel⟩

/-- The announcement, which is output 6, is lost: the fifth packet is decrypted with the
placeholder and delivered as garbage. -/
theorem garbage_after_lost_announcement :
    ¬Run.AllStates Pair.step (Intact twoEnds)
      (Pair.new (fun _ => LiveCC.new 0 0) (fun _ => 0) twoEnds)
      (fiveWrites ++ arrivals [3, 4, 5, 8, 9]) := by
  intro h
  have hheard : .dataReceived [49, 50, 51] 4 5 .single ∈
      (Run.exec Pair.step (Pair.new (fun _ => LiveCC.new 0 0) (fun _ => 0) twoEnds)
        (fiveWrites ++ arrivals [3, 4, 5, 8, 9]) false).events := by
    decide +kernel
  obtain ⟨t, ht, ts, -, -, hdata, hts, -⟩ := h.exec false _ hheard
  rw [hts (by decide +kernel), List.flatMap_nil, List.append_nil] at hdata
  revert t
  decide +kernel

end Pair

end SrtGo.Core
