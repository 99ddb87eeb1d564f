import SrtGo.Buffer.SendHistory
import SrtGo.Buffer.SendSparse
import SrtGo.Core.SendStep
import SrtGo.Crypto.XorCipher
import SrtGo.Congestion.File
import SrtGo.Packet.LossList

/-!
# Sending under the numbers of a group

A connection of a group sends each payload under the number that the group gives it.  Its send
buffer is moved to that number, whatever it holds, and the packet is stored unless the buffer is
full.  Fullness counts packets, not numbers.  So the buffer stays coherent as long as each number
that is stored is less than a ring ahead of the oldest packet, and a loss report names no number
further ahead; a number beyond that shares its slot with a packet that is still needed.
-/

namespace SrtGo.Core

open Buffer Bytes Congestion Crypto Run SrtGo.Seq

namespace Conn

variable {σ : Type} {c c' : Conn σ}

/-- The packet that was last sent for the first time under a number. -/
def written (c : Conn σ) (x : ℕ) : Option Packet :=
  (c.history.reverse.find? fun t => t.wire.header.sequenceNumber = x).map Transmission.wire

def aligned (c : Conn σ) (seqNo : ℕ) : SendBuffer :=
  if c.snd.sendBuf.nextSeq ≠ seqNo then c.snd.sendBuf.overrideNextSeq seqNo else c.snd.sendBuf

/-- The inputs of a connection that sends under the numbers of a group only, each of which is a
number at or after the next one of the buffer. -/
def Coordinated (c : Conn σ) : Input → Prop
  | .write _ _ _ => False
  | .writeCoordinated _ _ seqNo _ =>
    Valid seqNo ∧ (c.snd.sendBuf.size ≠ 0 →
      ahead c.snd.sendBuf.startSeq c.snd.sendBuf.nextSeq ≤ ahead c.snd.sendBuf.startSeq seqNo)
  | .packet _ _ | .timer _ _ | .keepAlive _ | .shutdown _ => True

def reportedLosses (data : Bytes) : List ℕ := (unmarshalLossList data).toOption.getD []

/-- A number that is stored is less than a ring ahead of the oldest packet, and so is every number
that a loss report names and that passes its range check. -/
def WithinRing (c : Conn σ) : Input → Prop
  | .writeCoordinated _ _ seqNo _ =>
    (c.aligned seqNo).size < (c.aligned seqNo).len →
      ahead (c.aligned seqNo).startSeq seqNo < (c.aligned seqNo).len
  | .packet _ p =>
    p.header.isControl = true → p.header.controlType = .nak →
      Sparse.Near c.snd.sendBuf (reportedLosses p.data)
  | .write _ _ _ | .timer _ _ | .keepAlive _ | .shutdown _ => True

instance (c : Conn σ) : ∀ i, Decidable (c.Coordinated i)
  | .write _ _ _ => isFalse id
  | .writeCoordinated _ _ seqNo _ =>
    inferInstanceAs (Decidable (Valid seqNo ∧ (c.snd.sendBuf.size ≠ 0 →
      ahead c.snd.sendBuf.startSeq c.snd.sendBuf.nextSeq ≤ ahead c.snd.sendBuf.startSeq seqNo)))
  | .packet _ _ | .timer _ _ | .keepAlive _ | .shutdown _ => isTrue trivial

instance (c : Conn σ) : ∀ i, Decidable (c.WithinRing i)
  | .writeCoordinated _ _ seqNo _ =>
    inferInstanceAs (Decidable ((c.aligned seqNo).size < (c.aligned seqNo).len →
      ahead (c.aligned seqNo).startSeq seqNo < (c.aligned seqNo).len))
  | .packet _ p =>
    inferInstanceAs (Decidable (p.header.isControl = true → p.header.controlType = .nak →
      Sparse.Near c.snd.sendBuf (reportedLosses p.data)))
  | .write _ _ _ | .timer _ _ | .keepAlive _ | .shutdown _ => isTrue trivial

/-- The size counts the used slots, and each of them is that of a number in
`[startSeq, nextSeq)`. -/
def CountsUsed (c : Conn σ) : Prop :=
  c.snd.sendBuf.size = c.snd.sendBuf.usedSlots.card ∧
    ∀ i ∈ c.snd.sendBuf.usedSlots, ∃ x, c.snd.sendBuf.InWindow x ∧ c.snd.sendBuf.index x = i

/-- A packet that is stored goes to a free slot, and what a loss report brings about are copies of
the packets that were written for the numbers it names. -/
def KeepsPackets [Controller σ] [Primitives] (c : Conn σ) (i : Input) : Prop :=
  match i with
  | .writeCoordinated _ _ seqNo _ =>
    (c.aligned seqNo).size < (c.aligned seqNo).len → ¬(c.aligned seqNo).UsedAt seqNo
  | .packet _ p =>
    c.closed = false → p.header.isControl = true → p.header.controlType = .nak →
      ∀ lossList, unmarshalLossList p.data = .ok lossList →
        ∃ ps : List Packet, (c.step i).outputs = c.outputs ++ ps.map (fun q => .sendPacket q true) ∧
          ∀ q ∈ ps, ∃ x ∈ lossList, ∃ w, c.written x = some w ∧ q = SendBuffer.retransmission w
  | .write _ _ _ | .timer _ _ | .keepAlive _ | .shutdown _ => True

/-! ## The invariant -/

/-- The buffer is read from `s` on, every packet in it is the one written for its number, and
nothing waits to be sent otherwise. -/
structure Account (c : Conn σ) (s n : ℕ) : Prop where
  queue : c.snd.sendQueue = []
  sparse : Sparse c.snd.sendBuf s n
  packet : ∀ p, s ≤ p → p < s + c.snd.sendBuf.len → c.snd.sendBuf.UsedAt (wrap p) →
    c.written (wrap p) = some (c.snd.sendBuf.entryAt (wrap p)).pkt

variable {s n seqNo : ℕ}

theorem Account.of_sub {s' : ℕ} (h : c.Account s n) (hqueue : c'.snd.sendQueue = c.snd.sendQueue)
    (hhistory : c'.history = c.history) (hsparse : Sparse c'.snd.sendBuf s' n)
    (hsub : Sparse.Sub c.snd.sendBuf s c'.snd.sendBuf s') : c'.Account s' n := by
  refine ⟨hqueue.trans h.queue, hsparse, fun p hs hlen hused => ?_⟩
  rw [hsub.len] at hlen
  obtain ⟨hlen', hused', hpkt⟩ := hsub.packet p hs hlen hused
  have hwritten : c'.written (wrap p) = c.written (wrap p) := by
    unfold written
    rw [hhistory]
  rw [hwritten, hpkt]
  exact h.packet p (hsub.start.trans hs) hlen' hused'

section

variable (h : c.Account s n)

include h

theorem Account.upkeep (hkeep : Upkeep c c') : c'.Account s n := by
  have hsub : Sparse.Sub c.snd.sendBuf s c'.snd.sendBuf s := by
    rw [hkeep.sendBuf]
    exact Sparse.Sub.refl _ s
  exact h.of_sub hkeep.sendQueue hkeep.history (hkeep.sendBuf.symm ▸ h.sparse) hsub

theorem Account.aligned (hvalid : Valid seqNo)
    (hafter : c.snd.sendBuf.size ≠ 0 → ahead c.snd.sendBuf.startSeq c.snd.sendBuf.nextSeq ≤
      ahead c.snd.sendBuf.startSeq seqNo) :
    ∃ s' n', wrap n' = seqNo ∧ (c.setSendBuf (c.aligned seqNo)).Account s' n' := by
  have hle := h.sparse.start_le
  have hspan := h.sparse.span
  unfold Conn.aligned
  by_cases hsame : c.snd.sendBuf.nextSeq = seqNo
  · rw [if_neg (not_not.mpr hsame)]
    exact ⟨s, n, h.sparse.nextSeq_eq.symm.trans hsame, h.queue, h.sparse, h.packet⟩
  rw [if_pos hsame, SendBuffer.overrideNextSeq]
  by_cases hempty : c.snd.sendBuf.size = 0
  · rw [if_pos hempty]
    have hrestart := h.sparse.restart hempty hvalid
    refine ⟨seqNo, seqNo, wrap_of_lt hvalid.lt, h.queue, hrestart, fun p hs hlen hused => ?_⟩
    -- nothing is used, for it would have to be before the number that is next
    exact absurd (hrestart.before p hs hlen hused) (not_lt.mpr hs)
  · rw [if_neg hempty]
    have hahead := hafter hempty
    rw [h.sparse.startSeq_eq, h.sparse.nextSeq_eq, ahead_wrap hle hspan] at hahead
    have hlt : ahead (wrap s) seqNo < 2 ^ 31 := Nat.mod_lt _ (by norm_num)
    have hnumber : wrap (s + ahead (wrap s) seqNo) = seqNo := wrap_add_ahead s hvalid
    have hleap := h.sparse.leap (s + ahead (wrap s) seqNo) (by omega) (by omega)
    rw [hnumber] at hleap
    exact ⟨s, s + ahead (wrap s) seqNo, hnumber, h.queue, hleap, h.packet⟩

theorem Account.room (hahead : ahead c.snd.sendBuf.startSeq (wrap n) < c.snd.sendBuf.len) :
    n < s + c.snd.sendBuf.len := by
  have hle := h.sparse.start_le
  rw [h.sparse.startSeq_eq, ahead_wrap hle h.sparse.span] at hahead
  omega

theorem Account.countsUsed : c.CountsUsed := by
  refine ⟨h.sparse.size_eq, fun i hi => ?_⟩
  obtain ⟨hlen, hused⟩ := SendBuffer.mem_usedSlots.mp hi
  obtain ⟨p, hs, hp, rfl⟩ := h.sparse.exists_position hlen
  have hn := h.sparse.before p hs hp hused
  have hspan := h.sparse.span
  have hle := h.sparse.start_le
  refine ⟨wrap p, ⟨valid_wrap p, ?_⟩, rfl⟩
  rw [h.sparse.startSeq_eq, h.sparse.nextSeq_eq, ahead_wrap hs (by omega), ahead_wrap hle hspan]
  omega

theorem Account.free (hvalid : Valid seqNo)
    (hafter : c.snd.sendBuf.size ≠ 0 → ahead c.snd.sendBuf.startSeq c.snd.sendBuf.nextSeq ≤
      ahead c.snd.sendBuf.startSeq seqNo)
    (hahead : ahead (c.aligned seqNo).startSeq seqNo < (c.aligned seqNo).len) :
    ¬(c.aligned seqNo).UsedAt seqNo := by
  obtain ⟨s', n', rfl, haccount⟩ := h.aligned hvalid hafter
  exact haccount.sparse.not_usedAt_nextSeq (haccount.room hahead)

theorem Account.of_resends {lossList : List ℕ} {q : Packet}
    (hq : Sparse.Resends c.snd.sendBuf s lossList q) :
    ∃ x ∈ lossList, ∃ w, c.written x = some w ∧ q = SendBuffer.retransmission w := by
  obtain ⟨p, hs, hlen, hmem, hused, rfl⟩ := hq
  exact ⟨wrap p, hmem, _, h.packet p hs hlen hused, rfl⟩

end

/-! ## Steps -/

theorem Account.acked {a : ℕ} (h : c.Account s n) (hacked : Acked c c' a) :
    ∃ s', c'.Account s' n := by
  obtain ⟨s', hsparse, hsub⟩ := h.sparse.ack a
  rw [← hacked.sendBuf] at hsparse hsub
  exact ⟨s', h.of_sub hacked.sendQueue hacked.history hsparse hsub⟩

variable [Controller σ]

theorem Account.transmit (h : c.Account s n) (hroom : n < s + c.snd.sendBuf.len) {now : ℤ}
    {sb : SendBuffer} {plain wire : Packet} (hpush : c.snd.sendBuf.push wire now = some sb)
    (hseq : wire.header.sequenceNumber = wrap n) : (c.transmit now sb plain wire).Account s
      (n + 1) := by
  have hlen := h.sparse.len_le
  have hle := h.sparse.start_le
  obtain ⟨hlen', hnew, hother⟩ := h.sparse.push_entryAt hroom hpush
  refine ⟨h.queue, h.sparse.push hroom hpush, fun p hs hp hused => ?_⟩
  have hhistory : (c.transmit now sb plain wire).written (wrap p) =
      if wrap n = wrap p then some wire else c.written (wrap p) := by
    unfold written Conn.transmit
    simp only [Conn.push, List.reverse_append, List.reverse_singleton, List.singleton_append,
      List.find?_cons, hseq]
    by_cases heq : wrap n = wrap p
    · simp [heq]
    · simp [heq]
  rw [hhistory]
  have hp : p < s + c.snd.sendBuf.len := hlen' ▸ hp
  show _ = some (sb.entryAt (wrap p)).pkt
  have hused : (sb.entryAt (wrap p)).used = true := hused
  by_cases hpn : p = n
  · rw [hpn, if_pos rfl, hnew]
  · have hne : wrap n ≠ wrap p := fun heq => hpn (eq_of_wrap_eq heq (by omega) (by omega)).symm
    rw [hother p hs hp hpn] at hused ⊢
    rw [if_neg hne]
    exact h.packet p hs hp hused

theorem Account.handleNAK (h : c.Account s n) (now : ℤ) {p : Packet} {lossList : List ℕ}
    (hread : unmarshalLossList p.data = .ok lossList) (hnear : Sparse.Near c.snd.sendBuf lossList) :
    ∃ ps : List Packet, (c.handleNAK now p).outputs = c.outputs ++
      ps.map (fun q => .sendPacket q true) ∧
      ∀ q ∈ ps, ∃ x ∈ lossList, ∃ w, c.written x = some w ∧ q = SendBuffer.retransmission w := by
  have hvalid : ∀ x ∈ lossList, Valid x := fun x hx => ⟨lt_of_mem_unmarshalLossList hread x hx⟩
  unfold Conn.handleNAK
  rw [hread]
  simp only
  split_ifs
  · refine ⟨_, congrArg outputs (foldl_send_eq _ _), fun q hq => h.of_resends ?_⟩
    exact (h.sparse.nakTimed lossList now _ _).2.2 hvalid hnear q hq
  · refine ⟨_, congrArg outputs (foldl_send_eq _ _), fun q hq => h.of_resends ?_⟩
    exact h.sparse.resends_nak hvalid hnear q hq

variable [Primitives] {i : Input}

theorem Account.pump (h : c.Account s n) (now : ℤ) : ∃ s', (c.pump now).Account s' n := by
  have hpump : c.pump now = c.checkSendDrop now := by
    rw [Conn.pump]
    have hqueue : (c.checkSendDrop now).snd.sendQueue = [] := by
      rw [← h.queue]
      unfold checkSendDrop
      simp only
      split_ifs <;> rfl
    rw [hqueue]
    rfl
  rw [hpump]
  unfold checkSendDrop
  simp only
  split_ifs
  · exact ⟨s, h⟩
  · exact ⟨s, h⟩
  · obtain ⟨s', hsparse, hsub⟩ := h.sparse.dropTooLateSend now c.params.sendDropThresh
    exact ⟨s', h.of_sub rfl rfl hsparse hsub⟩

theorem Account.sendStep (h : c.Account s n) (hsingle : i.Single)
    (hi : ∀ now payload opts, i ≠ .write now payload opts) : ∃ s' n', (c.step i).Account s' n' := by
  have hstep := Conn.sendStep c hsingle
  generalize c.step i = c' at hstep ⊢
  cases hstep with
  | idle hkeep => exact ⟨s, n, h.upkeep hkeep⟩
  | resend losses now rtt rttVar hkeep =>
    obtain ⟨hsparse, hsub, -⟩ := h.sparse.nakTimed losses now rtt rttVar
    have hset : (c.setSendBuf (c.snd.sendBuf.nakTimed losses now rtt rttVar).1).Account s n :=
      h.of_sub rfl rfl hsparse hsub
    exact ⟨s, n, hset.upkeep hkeep⟩
  | pump hb =>
    rcases hb.cases with hkeep | ⟨now, payload, opts, hwrite, -⟩ | ⟨now, p, ack, -, -, -, hacked⟩
    · obtain ⟨s', hpumped⟩ := (h.upkeep hkeep).pump i.now
      exact ⟨s', n, hpumped⟩
    · exact absurd hwrite (hi _ _ _)
    · obtain ⟨s', hs'⟩ := h.acked hacked
      obtain ⟨s'', hpumped⟩ := hs'.pump i.now
      exact ⟨s'', n, hpumped⟩

theorem Account.writeCoordinated (h : c.Account s n) (now : ℤ) (payload : Bytes) (srcTime : ℕ)
    (hin : c.Coordinated (.writeCoordinated now payload seqNo srcTime))
    (hring : c.WithinRing (.writeCoordinated now payload seqNo srcTime)) :
    ∃ s' n', (c.writeCoordinated now payload seqNo srcTime).Account s' n' := by
  obtain ⟨hvalid, hafter⟩ := hin
  obtain ⟨s', n', rfl, haccount⟩ := h.aligned hvalid hafter
  have hwrite : c.writeCoordinated now payload (wrap n') srcTime =
      if c.closed then c
      else { c.setSendBuf (c.aligned (wrap n')) with snd :=
        { (c.setSendBuf (c.aligned (wrap n'))).snd with msgNumber := nextMsgNo c.snd.msgNumber }
          }.sendData
          now (wrap n') srcTime
          { payload := payload, msgNo := nextMsgNo c.snd.msgNumber, pos := .single, order := true }
            := rfl
  rw [hwrite]
  split_ifs with hclosed
  · exact ⟨s, n, h⟩
  generalize hc₁ : ({ c.setSendBuf (c.aligned (wrap n')) with snd :=
    { (c.setSendBuf (c.aligned (wrap n'))).snd with msgNumber := nextMsgNo c.snd.msgNumber }
      } : Conn σ) = c₁
  have haccount₁ : c₁.Account s' n' := by
    rw [← hc₁]
    exact ⟨haccount.queue, haccount.sparse, haccount.packet⟩
  have hbuf : c₁.snd.sendBuf = c.aligned (wrap n') := by rw [← hc₁]; rfl
  rcases sendData_cases c₁ now (wrap n') srcTime
      { payload := payload, msgNo := nextMsgNo c.snd.msgNumber, pos := .single, order := true } with
    ⟨-, hsame⟩ | ⟨sb, plain, wire, hpush, ⟨hseq, -⟩, -, hkeep⟩
  · rw [hsame]
    exact ⟨s', n', haccount₁⟩
  · have hfree : (c.aligned (wrap n')).size < (c.aligned (wrap n')).len := by
      by_contra hfull
      rw [hbuf, SendBuffer.push, if_pos (not_lt.mp hfull)] at hpush
      cases hpush
    have hroom := haccount₁.room (by rw [hbuf]; exact hring hfree)
    exact ⟨s', n' + 1, (haccount₁.transmit hroom hpush hseq).upkeep hkeep⟩

theorem Account.step (h : c.Account s n) (hin : c.Coordinated i) (hring : c.WithinRing i) :
    ∃ s' n', (c.step i).Account s' n' := by
  cases i with
  | write now payload opts => exact hin.elim
  | writeCoordinated now payload seqNo srcTime =>
    exact h.writeCoordinated now payload srcTime hin hring
  | _ => exact h.sendStep trivial (by simp)

/-! ## Runs -/

theorem Account.keepsPackets (h : c.Account s n) (hin : c.Coordinated i) (hring : c.WithinRing i) :
    c.KeepsPackets i := by
  cases i with
  | write now payload opts => trivial
  | writeCoordinated now payload seqNo srcTime =>
    exact fun hroom => h.free hin.1 hin.2 (hring hroom)
  | packet now p =>
    intro hopen hcontrol htype lossList hread
    have hbook := book_noteAlive c now
    have halive : (c.noteAlive now).Account s n := h.upkeep (upkeep_noteAlive c now)
    have hstep : c.step (.packet now p) = (c.noteAlive now).handleNAK now p := by
      simp only [Conn.step, handlePacket, hopen, hcontrol, htype, handleControl]
      simp
    rw [hstep]
    have hnear := hring hcontrol htype
    rw [← hbook.sendBuf, reportedLosses, hread] at hnear
    obtain ⟨ps, hout, hps⟩ := halive.handleNAK now hread hnear
    refine ⟨ps, by rw [hout, hbook.outputs], fun q hq => ?_⟩
    obtain ⟨x, hx, w, hw, hqw⟩ := hps q hq
    refine ⟨x, hx, w, ?_, hqw⟩
    rw [← hw]
    unfold written
    rw [hbook.history]
  | timer now id => trivial
  | keepAlive now => trivial
  | shutdown now => trivial

omit [Primitives] in
theorem account_establish (cc : σ) (now : ℤ) {ep : EstablishParams} (hcap : ep.sndCap ≤ 2 ^ 30)
    (hisn : Valid ep.sendISN) : (Conn.establish cc now ep).Account ep.sendISN ep.sendISN := by
  obtain ⟨os, hos⟩ := exists_establish_eq cc now ep
  rw [hos]
  exact ⟨rfl, Sparse.new hcap hisn, fun p _ _ hused => absurd hused Bool.false_ne_true⟩

/-- In every run of a connection that sends under increasing numbers of a group, with any other
inputs in between, in which no number that is stored or reported as lost is a ring or more ahead of
the oldest packet: the size counts the used slots of `[startSeq, nextSeq)`, no used slot is
overwritten, and what is sent again for a number is the packet written for it. -/
theorem coordinated_sending_coherent (cc : σ) (now : ℤ) {ep : EstablishParams}
    (hcap : ep.sndCap ≤ 2 ^ 30) (hisn : Valid ep.sendISN) (is : List Input)
    (hrun : AllSteps Conn.step (fun c i => c.Coordinated i ∧
      c.WithinRing i) (Conn.establish cc now ep) is) :
    AllStates Conn.step CountsUsed (Conn.establish cc now ep) is ∧
      AllSteps Conn.step KeepsPackets (Conn.establish cc now ep) is := by
  have hinit : ∃ s n, (Conn.establish cc now ep).Account s n :=
    ⟨_, _, account_establish cc now hcap hisn⟩
  have hstep : ∀ (c : Conn σ) (i : Input), (∃ s n, c.Account s n) → c.Coordinated i ∧
    c.WithinRing i →
      ∃ s n, (c.step i).Account s n := by
    rintro c i ⟨s, n, haccount⟩ ⟨hin, hring⟩
    exact haccount.step hin hring
  constructor
  · refine (hrun.allStates hstep hinit).mono ?_
    rintro c ⟨s, n, haccount⟩
    exact haccount.countsUsed
  · refine AllSteps.allSteps hstep ?_ hinit hrun
    rintro c i ⟨s, n, haccount⟩ ⟨hin, hring⟩
    exact haccount.keepsPackets hin hring

end Conn

section Examples

open scoped XorCipher

private def smallRing : EstablishParams := { live := true, flowWindow := 4, bufferCapacity := 4 }

private def sender : Conn LiveCC := Conn.establish (LiveCC.new 0 0) 0 smallRing

private def writes (seqNos : List ℕ) : List Input :=
  seqNos.map fun x => .writeCoordinated 1000 [1] x x

private def fromPeer (t : CtrlType) (body : Bytes) : Input :=
  .packet 2000 { Packet.newControl t 0 0 with data := body }

/-- A number is left out, the packets on both sides of it are reported as lost, and one is
acknowledged. -/
private def sparseRun : List Input :=
  writes [0, 2] ++ [fromPeer .nak (marshalLossList [0, 1, 2]), fromPeer .ack (putBE 4 1)] ++
    writes [3]

/-- Four payloads fill the ring and three more are refused; one is acknowledged. -/
private def fullRun : List Input := writes [0, 1, 2, 3, 4, 5, 6] ++ [fromPeer .ack (putBE 4 1)]

namespace Conn

theorem coordinated_sending_coherent_sparse :
    AllSteps Conn.step (fun c i => c.Coordinated i ∧ c.WithinRing i) sender sparseRun ∧
      (AllStates Conn.step CountsUsed sender sparseRun ∧
        AllSteps Conn.step KeepsPackets sender sparseRun) ∧
      (exec Conn.step sender sparseRun).snd.sendBuf.size = 2 := by
  have hrun : AllSteps Conn.step (fun c i => c.Coordinated i ∧ c.WithinRing i) sender
      sparseRun := by
    decide +kernel
  exact ⟨hrun, coordinated_sending_coherent _ 0 (by decide) ⟨by decide⟩ sparseRun hrun,
    by decide +kernel⟩

/-- The next payload takes the slot of one that is not acknowledged. -/
theorem unacknowledged_packet_overwritten :
    AllSteps Conn.step Coordinated sender (fullRun ++ writes [7]) ∧
      ¬AllSteps Conn.step KeepsPackets sender (fullRun ++ writes [7]) ∧
      ¬CountsUsed (exec Conn.step sender (fullRun ++ writes [7])) := by
  refine ⟨by decide +kernel, fun h => ?_, fun h => ?_⟩
  · have hlast : (exec Conn.step sender fullRun).KeepsPackets (.writeCoordinated 1000 [1] 7 7) :=
      AllSteps.last h
    exact hlast (by decide +kernel) (by decide +kernel)
  · have := h.1
    revert this
    decide +kernel

end Conn

end Examples

end SrtGo.Core
