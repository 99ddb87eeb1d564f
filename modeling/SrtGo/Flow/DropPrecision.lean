import SrtGo.Flow.Playout

/-!
# What a drop request takes away

A sender that gives up on a range of packets names the first and the last number of it.  The
receiver only looks at the last one: it drops everything from the head of its buffer on.  What
was received before the range and waits to be played or to be read is lost with it.
-/

namespace SrtGo.Buffer.RecvBuffer

open SrtGo.Seq

variable {rb : RecvBuffer} {upTo : ℕ}

theorem entries_dropLoop (hstart : Valid rb.startSeq) (hupTo : Valid upTo) (i : ℕ) :
    ((∃ k < rb.dropSpan upTo, rb.index (wrap (rb.startSeq + k)) = i) →
      ((dropLoop upTo (ahead rb.startSeq upTo) { buffer := rb }).buffer.entries i).state = .drop) ∧
    ((∀ k < rb.dropSpan upTo, rb.index (wrap (rb.startSeq + k)) ≠ i) →
      (dropLoop upTo (ahead rb.startSeq upTo) { buffer := rb }).buffer.entries i =
        rb.entries i) := by
  refine (dropLoop_span (Q := fun n b => (b.startSeq = wrap (rb.startSeq + n) ∧ b.len = rb.len) ∧
    ((∃ k < n, rb.index (wrap (rb.startSeq + k)) = i) → (b.entries i).state = .drop) ∧
    ((∀ k < n, rb.index (wrap (rb.startSeq + k)) ≠ i) → b.entries i = rb.entries i))
    (fun n b b' hsame hb => ?_) hstart hupTo ?_).2
  · obtain ⟨⟨hhead, hlen⟩, hmarked, hkept⟩ := hb
    have hentries : b'.dropHead.entries =
        Function.update b.entries (rb.index (wrap (rb.startSeq + n))) { state := .drop } := by
      rw [dropHead_entries, hsame.entries, hsame.startSeq, hhead,
        index_eq_of_len (hsame.len.trans hlen)]
    refine ⟨⟨?_, hsame.len.trans hlen⟩, ?_⟩
    · rw [dropHead, hsame.startSeq, hhead, inc_wrap, Nat.add_assoc]
    rw [hentries]
    by_cases hnow : rb.index (wrap (rb.startSeq + n)) = i
    · rw [hnow, Function.update_self]
      exact ⟨fun _ => rfl, fun hall => absurd hnow (hall n (by omega))⟩
    · rw [Function.update_of_ne (Ne.symm hnow)]
      refine ⟨?_, fun hall => hkept fun k hk => hall k (by omega)⟩
      rintro ⟨k, hk, hki⟩
      exact hmarked ⟨k, Nat.lt_of_le_of_ne (by omega) fun heq => hnow (heq ▸ hki), hki⟩
  · exact ⟨⟨(wrap_of_lt hstart.lt).symm, rfl⟩, by simp, fun _ => rfl⟩

theorem entries_drop_iff (hstart : Valid rb.startSeq) (hupTo : Valid upTo) {i : ℕ}
    (hi : (rb.entries i).state = .available) : (rb.drop upTo).buffer.entries i = rb.entries i ↔
      ∀ k < rb.dropSpan upTo, rb.index (inc^[k] rb.startSeq) ≠ i := by
  have hwrap := wrap_of_lt hstart.lt
  have hnumber : ∀ k, inc^[k] rb.startSeq = wrap (rb.startSeq + k) := fun k => by
    rw [← inc_iterate_wrap, hwrap]
  simp only [hnumber]
  have hloop := entries_dropLoop hstart hupTo i
  rw [(sameRing_drop rb upTo).entries]
  refine ⟨fun hkept k hk hki => ?_, fun hall => ?_⟩
  · -- a slot that was marked holds no packet after the release either
    have hmarked := hloop.1 ⟨k, hk, hki⟩
    have hthin := (readings_releaseFillerEntries (dropLoop upTo (ahead rb.startSeq upTo)
      { buffer := rb }).buffer).thins i (by rw [hkept]; exact hi)
    rw [hkept] at hthin
    rw [← hthin, hi] at hmarked
    exact absurd hmarked (by simp)
  · have hkept := hloop.2 hall
    exact (releaseLoop_entries_of_available _ _ (by rw [hkept]; exact hi)).trans hkept

end SrtGo.Buffer.RecvBuffer

namespace SrtGo.Core

open Buffer Congestion Crypto SrtGo.Seq

namespace Conn

variable {σ : Type}

/-- The part of handling a drop request that comes before the delivery. -/
def skipRange (c : Conn σ) (dr : CIFDropReq) : Conn σ :=
  let r := c.rcv.recvBuf.drop (inc dr.lastSeqNo)
  (c.setRecvBuf r.buffer).modifyTimer fun t => r.timestamps.foldl Tsbpd.Timer.updateWrap t

def Earlier (dr : CIFDropReq) (e : RecvEntry) : Prop :=
  e.state = .available ∧ lessThan e.pkt.header.sequenceNumber dr.firstSeqNo = true

instance decidableEarlier (dr : CIFDropReq) (e : RecvEntry) : Decidable (Earlier dr e) :=
  inferInstanceAs (Decidable (_ ∧ _))

/-- No packet before the range is discarded: each is still in its slot when the delivery begins. -/
def DropsPrecisely (c : Conn σ) (dr : CIFDropReq) : Prop :=
  ∀ i, Earlier dr (c.rcv.recvBuf.entries i) →
    (c.skipRange dr).rcv.recvBuf.entries i = c.rcv.recvBuf.entries i

/-- None of the slots from the head of the buffer up to the last number of the range holds a packet
before the range. -/
def NothingEarlier (c : Conn σ) (dr : CIFDropReq) : Prop :=
  ∀ k < c.rcv.recvBuf.dropSpan (inc dr.lastSeqNo),
    ¬Earlier dr (c.rcv.recvBuf.entryAt (inc^[k] c.rcv.recvBuf.startSeq))

/-- A drop request discards no packet before its range exactly if none is waiting there. -/
theorem dropsPrecisely_iff [Controller σ] {c : Conn σ} (hstart : Valid c.rcv.recvBuf.startSeq)
    {p : Packet} {dr : CIFDropReq} (hdr : CIFDropReq.unmarshalCIF p.data = .ok dr) (now : ℤ) :
    c.handleDropReq now p = (c.skipRange dr).deliverNow now ∧
      (c.DropsPrecisely dr ↔ c.NothingEarlier dr) := by
  have hlast := RecvBuffer.valid_inc dr.lastSeqNo
  refine ⟨by rw [handleDropReq, hdr]; rfl,
    fun hprecise k hk hearlier => ?_, fun hnothing i hearlier => ?_⟩
  · have hkept := hprecise _ hearlier
    exact (RecvBuffer.entries_drop_iff hstart hlast hearlier.1).mp hkept k hk rfl
  · refine (RecvBuffer.entries_drop_iff hstart hlast hearlier.1).mpr fun k hk hki => ?_
    refine hnothing k hk ?_
    rw [RecvBuffer.entryAt, hki]
    exact hearlier

end Conn

section Examples

open Run
open scoped XorCipher

def waitingReceiver : Conn LiveCC :=
  exec Conn.step (Conn.establish (LiveCC.new 0 0) 0 (smallParams true)) [dataInput 1000 0,
    dataInput 2000 1]

/-- A request to drop from the number 0 on takes away nothing that comes before. -/
theorem dropsPrecisely_from_head :
    Valid waitingReceiver.rcv.recvBuf.startSeq ∧ waitingReceiver.DropsPrecisely ⟨0, 1⟩ := by
  have hstart : Valid waitingReceiver.rcv.recvBuf.startSeq := by decide +kernel
  refine ⟨hstart, ?_⟩
  have hdata : CIFDropReq.unmarshalCIF (CIFDropReq.marshalCIF ⟨0, 1⟩) = .ok ⟨0, 1⟩ := by decide
  refine (Conn.dropsPrecisely_iff hstart (p := { data := CIFDropReq.marshalCIF ⟨0, 1⟩ }) hdata
    3000).2.mpr ?_
  unfold Conn.NothingEarlier
  decide +kernel

/-- The sender gives up on the number 2 alone.  The numbers 0 and 1 have arrived and are not late,
but the request takes them away. -/
theorem drop_request_takes_earlier_packets : ¬waitingReceiver.DropsPrecisely ⟨2, 2⟩ := by
  intro h
  have hkept := h 0 (by decide +kernel)
  have hstate := congrArg RecvEntry.state hkept
  revert hstate
  decide +kernel

end Examples

end SrtGo.Core
