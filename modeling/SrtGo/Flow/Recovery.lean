import SrtGo.Buffer.RecvPlaced
import SrtGo.Core.Moves
import SrtGo.Crypto.XorCipher
import SrtGo.Packet.HeaderCodec

/-!
# What a solved packet shows

A repair packet carries the length, the key, the timestamp and the payload of what it repairs.
The rest of the header of a solved packet is made up: it is a whole message of number one,
without the order flag, and it is addressed to the peer.  The application is shown the message
number and the position, and the authenticated cipher checks every field.  So a solved packet
is the packet that was lost only when that one had this very header.
-/

namespace SrtGo

open Bytes

/-- What the authenticated cipher checks of a header: the bytes of the first transmission. -/
def Header.signed (h : Header) : Bytes := { h with retransmitted := false }.marshal

theorem Header.signed_inj {h h' : Header} (hwire : h.OnWire) (hwire' : h'.OnWire)
    (hkind : h.isControl = false) (hkind' : h'.isControl = false) :
    h.signed = h'.signed ↔ { h with retransmitted := false } =
      { h' with retransmitted := false } := by
  have hfirst : ∀ {g : Header}, g.OnWire → g.isControl = false →
      OnWire { g with retransmitted := false } :=
    fun hg hdata => ⟨hg.timestamp, hg.destination,
      fun hcontrol => by simp [hdata] at hcontrol, hg.data⟩
  constructor
  · intro hsame
    have hread := unmarshal_of_marshal (hfirst hwire hkind)
    have hread' := unmarshal_of_marshal (hfirst hwire' hkind')
    rw [show marshal { h with retransmitted := false } = marshal { h' with retransmitted := false }
      from hsame] at hread
    exact Except.ok.inj (hread.symm.trans hread')
  · intro hsame
    exact congrArg marshal hsame

namespace Core

open Buffer Congestion Crypto Run SrtGo.Filter

/-- A sealed payload opens under one header only. -/
def BindsHeader [Primitives] : Prop :=
  ∀ key nonce box header header', header.length = 16 → header'.length = 16 →
    (Primitives.gcmOpen key nonce box header).isSome = true →
    (Primitives.gcmOpen key nonce box header').isSome = true → header = header'

/-- The filter has rebuilt what was on the wire of a packet. -/
structure Rebuilds (rp : RecoveredPacket) (p : Packet) : Prop where
  seqNo : rp.seqNo = p.header.sequenceNumber
  timestamp : rp.timestamp = p.header.timestamp
  encFlag : rp.encFlag = p.header.encryption.code
  payload : rp.payload = p.data

namespace Conn

variable {σ : Type} {c : Conn σ} {p q plain : Packet} {rp : RecoveredPacket}

def HoldsShown (c : Conn σ) (s : ℕ) (e : Event) : Prop :=
  (c.rcv.recvBuf.entryAt s).state = .available ∧ Event.delivery (c.rcv.recvBuf.entryAt s).pkt = e

/-! ## Decryption -/

section Decryption

variable [Primitives] {ctx : Context}

/-- What opens a packet opens every packet with its payload, number and key, if the cipher does
not look at the header or finds the same there. -/
theorem decrypt_of_same (hdata : q.data = p.data)
    (hseq : q.header.sequenceNumber = p.header.sequenceNumber)
    (henc : q.header.encryption = p.header.encryption)
    (hsigned : ∀ ctx, c.key.cryptoCtx = some ctx → ctx.mode = .gcm →
      q.header.signed = p.header.signed)
    (h : c.decrypt p = some plain) : c.decrypt q = some { q with data := plain.data } := by
  cases hctx : c.key.cryptoCtx with
  | none =>
    unfold decrypt at h ⊢
    rw [hctx] at h ⊢
    rw [← Option.some.inj h, ← hdata]
  | some ctx =>
    obtain ⟨hready, hslot, -, hopened⟩ := (decrypt_eq_some_iff hctx).mp h
    refine (decrypt_eq_some_iff hctx).mpr ⟨hready, henc ▸ hslot, rfl, ?_⟩
    have haad : (if ctx.mode = .gcm then { q.header with retransmitted := false }.marshal else []) =
        if ctx.mode = .gcm then { p.header with retransmitted := false }.marshal else [] := by
      split_ifs with hmode
      · exact hsigned ctx hctx hmode
      · rfl
    rw [haad, hdata, hseq, henc]
    exact hopened

theorem isSome_gcmOpen {data out : Bytes} {h : Header} {slot : PacketEncryption} {seqNo : ℕ}
    (hmode : ctx.mode = .gcm)
    (hok : ctx.decryptPayload data (if ctx.mode = .gcm then h.signed else []) slot seqNo =
      .ok out) :
    ∃ key, (ctx.slot slot).bind Slot.aead = some key ∧
      (Primitives.gcmOpen key (Context.buildGCMNonce ctx.salt seqNo ctx.useGcm153) data
        h.signed).isSome = true := by
  have hall : Context.additionalData h.signed = h.signed := by
    have hlen : h.signed.length = 16 := Header.length_marshal _
    rw [Context.additionalData, if_pos hlen.ge, List.take_of_length_le hlen.le]
  unfold Context.decryptPayload Context.decryptGCM at hok
  rw [if_pos hmode, hmode, hall] at hok
  simp only at hok
  split at hok
  · exact absurd hok (by simp)
  · rename_i key hkey
    refine ⟨key, hkey, ?_⟩
    split_ifs at hok
    split at hok
    · exact absurd hok (by simp)
    · rename_i hopen
      rw [hopen]
      rfl

theorem signed_of_decrypt (hbinds : BindsHeader) (hctx : c.key.cryptoCtx = some ctx)
    (hmode : ctx.mode = .gcm)
    (hdata : q.data = p.data) (hseq : q.header.sequenceNumber = p.header.sequenceNumber)
    (henc : q.header.encryption = p.header.encryption) {plain' : Packet}
    (h : c.decrypt p = some plain)
    (h' : c.decrypt q = some plain') : q.header.signed = p.header.signed := by
  obtain ⟨-, -, -, hopened⟩ := (decrypt_eq_some_iff hctx).mp h
  obtain ⟨-, -, -, hopened'⟩ := (decrypt_eq_some_iff hctx).mp h'
  obtain ⟨key, hkey, hsome⟩ := isSome_gcmOpen hmode hopened
  obtain ⟨key', hkey', hsome'⟩ := isSome_gcmOpen hmode hopened'
  rw [henc, hkey] at hkey'
  rw [hdata, hseq, ← Option.some.inj hkey'] at hsome'
  exact hbinds _ _ _ _ _ (Header.length_marshal _) (Header.length_marshal _) hsome' hsome

end Decryption

/-! ## Solved packets -/

theorem insert_of_inserted {rb : RecvBuffer} {now : ℤ}
    (hseq : q.header.sequenceNumber = p.header.sequenceNumber)
    (h : (rb.insert p now).2.inserted = true) :
    (rb.entryAt p.header.sequenceNumber).state = .empty ∧ (rb.insert q now).1 = rb.store q now := by
  unfold RecvBuffer.insert at h ⊢
  simp only [hseq] at h ⊢
  split_ifs at h with hold hfar hfull
  rw [if_neg hold, if_neg hfar, if_neg hfull]
  exact ⟨not_not.mp hfull, rfl⟩

theorem entryAt_store (rb : RecvBuffer) (q : Packet) (now : ℤ) :
    (rb.store q now).entryAt q.header.sequenceNumber =
      { pkt := q, state := .available, arrivalTS := now } := by
  have hsame := RecvBuffer.sameRing_store rb q now
  unfold RecvBuffer.entryAt RecvBuffer.index RecvBuffer.mask
  rw [hsame.entries, hsame.len]
  exact Function.update_self _ _ _

theorem header_recoveredPacket (c : Conn σ) (h : Rebuilds rp p) : (c.recoveredPacket rp).header =
    { sequenceNumber := p.header.sequenceNumber, packetPosition := .single
      encryption := p.header.encryption
      retransmitted := true, messageNumber := 1, timestamp := p.header.timestamp
      destinationSocketID := c.params.peerSocketID } := by
  have hkey : recoveredEncryption rp.encFlag = p.header.encryption := by
    rw [h.encFlag]
    cases p.header.encryption <;> rfl
  unfold recoveredPacket
  simp only [hkey, Packet.newData, h.seqNo, h.timestamp]

theorem signed_recoveredPacket_iff (h : Rebuilds rp p) (hwire : p.header.OnWire)
    (hdata : p.header.isControl = false) (hpeer : c.params.peerSocketID < 2 ^ 32) :
    (c.recoveredPacket rp).header.signed = p.header.signed ↔
      p.header.messageNumber = 1 ∧ p.header.packetPosition = .single ∧ p.header.order = false ∧
        p.header.destinationSocketID = c.params.peerSocketID := by
  obtain ⟨hseq, -, hcontrol, hsub, hspecific⟩ := hwire.data hdata
  have hmade := header_recoveredPacket c h
  have hsolved : (c.recoveredPacket rp).header.OnWire := by
    rw [hmade]
    exact ⟨hwire.timestamp, hpeer,
      fun hc => by simp at hc, fun _ => ⟨hseq, by norm_num, rfl, rfl, rfl⟩⟩
  rw [Header.signed_inj hsolved hwire (by rw [hmade]) hdata, hmade]
  cases hp : p.header
  simp only [hp] at hcontrol hsub hspecific hdata ⊢
  simp only [Header.mk.injEq, hcontrol, hsub, hspecific, hdata, true_and, eq_comm]
  tauto

variable [Primitives]

/-- **Recovery**: a lost packet that would have been stored, and that the filter has rebuilt, is
stored and shown as the lost one exactly if that one was a whole message of number one — and,
under the authenticated cipher, without the order flag and addressed as the receiver addresses its
peer. -/
theorem recovery_is_transparent_iff (hbinds : BindsHeader) (hpeer : c.params.peerSocketID < 2 ^ 32)
    (hwire : p.header.OnWire) (hdata : p.header.isControl = false) (hrebuilds : Rebuilds rp p)
    (now : ℤ) (hopens : c.decrypt p = some plain)
    (hstored : (c.rcv.recvBuf.insert plain now).2.inserted = true) :
    (c.insertOne now rp).HoldsShown p.header.sequenceNumber (.delivery plain) ↔
      p.header.messageNumber = 1 ∧ p.header.packetPosition = .single ∧
        ((∃ ctx, c.key.cryptoCtx = some ctx ∧ ctx.mode = .gcm) →
          p.header.order = false ∧ p.header.destinationSocketID = c.params.peerSocketID) := by
  have hheader := header_of_decrypt hopens
  have hmade := header_recoveredPacket c hrebuilds
  have hpayload : (c.recoveredPacket rp).data = p.data := hrebuilds.payload
  have hseq : (c.recoveredPacket rp).header.sequenceNumber = p.header.sequenceNumber := by
    rw [hmade]
  have henc : (c.recoveredPacket rp).header.encryption = p.header.encryption := by rw [hmade]
  have hsigned := signed_recoveredPacket_iff hrebuilds hwire hdata hpeer
  -- what is stored of the solved packet, once it is decrypted
  have hslot : ∀ {solved : Packet}, c.decrypt (c.recoveredPacket rp) = some solved →
      ((c.insertOne now rp).HoldsShown p.header.sequenceNumber (.delivery plain) ↔
        Event.delivery solved = Event.delivery plain) := by
    intro solved hsolved
    have hnumber : solved.header.sequenceNumber = plain.header.sequenceNumber := by
      rw [header_of_decrypt hsolved, hseq, hheader]
    obtain ⟨-, hstore⟩ := insert_of_inserted hnumber hstored
    unfold insertOne HoldsShown
    rw [hsolved]
    simp only
    rw [hstore, ← hheader, ← hnumber]
    simp only [setRecvBuf, entryAt_store, true_and]
  constructor
  · intro hholds
    cases hsolved : c.decrypt (c.recoveredPacket rp) with
    | none =>
        -- nothing is stored: the slot is as empty as the original would have found it
        obtain ⟨hempty, -⟩ := insert_of_inserted rfl hstored
        have havailable := hholds.1
        unfold insertOne at havailable
        rw [hsolved, ← hheader, hempty] at havailable
        exact absurd havailable (by simp)
    | some solved =>
        have hshown := (hslot hsolved).mp hholds
        have hsolvedHeader := header_of_decrypt hsolved
        simp only [Event.delivery, Event.dataReceived.injEq, hsolvedHeader, hmade,
          hheader] at hshown
        refine ⟨hshown.2.2.1.symm, hshown.2.2.2.symm, ?_⟩
        rintro ⟨ctx, hctx, hmode⟩
        have hsame := signed_of_decrypt hbinds hctx hmode hpayload hseq henc hopens hsolved
        exact (hsigned.mp hsame).2.2
  · rintro ⟨hnumber, hposition, hgcm⟩
    have hsolved := decrypt_of_same hpayload hseq henc
      (fun ctx hctx hmode => hsigned.mpr ⟨hnumber, hposition, hgcm ⟨ctx, hctx, hmode⟩⟩) hopens
    rw [hslot hsolved]
    simp only [Event.delivery, hmade, hheader, hnumber, hposition]

end Conn

section Examples

def rowsOfTwo : EstablishParams :=
  { flowWindow := 4, bufferCapacity := 4, filterConfig := "fec,cols:2" }

open scoped XorCipher in
/-- Two messages are sent and the second one is lost.  The filter recovers it, and the application
is shown the number of the first. -/
theorem recovered_message_number_is_lost :
    let sent := (exec Conn.step (Conn.establish (LiveCC.new 0 0) 0 rowsOfTwo)
      [.write 0 [5] {}, .write 1000000 [6] {}]).outputs.filterMap Output.packet?
    sent.map (fun p => (p.header.sequenceNumber, p.header.messageNumber)) = [(0, 1),
      (1, 2), (1, 0)] ∧
      (exec Conn.step (Conn.establish (LiveCC.new 0 0) 0 rowsOfTwo)
        ((sent.eraseIdx 1).map (.packet 2000000))).events =
        [.dataReceived [5] 0 1 .single, .dataReceived [6] 1 1 .single] := by
  decide +kernel

@[reducible] def headerTag : Primitives :=
  { XorCipher.primitives with
    gcmSeal := fun _ _ plaintext header => plaintext ++ header
    gcmOpen := fun _ _ box header =>
      if box.drop (box.length - 16) = header then some (box.take (box.length - 16)) else none }

theorem bindsHeader_headerTag : @BindsHeader headerTag := by
  intro key nonce box header header' _ _ h h'
  have heq : box.drop (box.length - 16) = header := by
    by_contra hne
    exact absurd h (by simp [Primitives.gcmOpen, hne])
  have heq' : box.drop (box.length - 16) = header' := by
    by_contra hne
    exact absurd h' (by simp [Primitives.gcmOpen, hne])
  exact heq.symm.trans heq'

/-- The first packet of such a stream is recovered as it was. -/
theorem recovery_is_transparent_first :
    (@Conn.insertOne LiveCC headerTag (Conn.establish (LiveCC.new 0 0) 0 rowsOfTwo) 0
      { seqNo := 0, timestamp := 0, encFlag := 0, payload := [5] }).HoldsShown 0
      (.dataReceived [5] 0 1 .single) := by
  let _ := headerTag
  have hplain : (Conn.establish (LiveCC.new 0 0) 0 rowsOfTwo).key.cryptoCtx = none := by
    decide +kernel
  have hrebuilds : Rebuilds { seqNo := 0, timestamp := 0, encFlag := 0, payload := [5] }
      (Packet.newData 0 0 0 [5]) :=
    ⟨rfl, rfl, rfl, rfl⟩
  have hopens : (Conn.establish (LiveCC.new 0 0) 0 rowsOfTwo).decrypt (Packet.newData 0 0 0 [5]) =
      some (Packet.newData 0 0 0 [5]) := rfl
  have hiff := Conn.recovery_is_transparent_iff bindsHeader_headerTag (by decide +kernel)
    ⟨by decide, by decide, by decide, by decide⟩ rfl hrebuilds 0 hopens (by decide +kernel)
  refine hiff.mpr ⟨rfl, rfl, ?_⟩
  rintro ⟨ctx, hctx, -⟩
  exact absurd (hplain.symm.trans hctx) (by simp)

end Examples

end Core

end SrtGo
