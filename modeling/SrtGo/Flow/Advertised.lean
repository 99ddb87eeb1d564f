import SrtGo.Buffer.RecvWindow
import SrtGo.Core.Sides
import SrtGo.Crypto.XorCipher

/-!
# What an acknowledgement invites

A full acknowledgement names the next number the receiver waits for and the room
it has.  A peer that keeps to both, and to the flow window, may send the numbers
`ack ≤ q < ack + min flowWindow room`.  The buffer counts from its head, though,
and refuses what lies a whole ring ahead of it; and the room it advertises while
packets wait to be read is one more than what is left.  So the invitation is kept
exactly when nothing is waiting, when nothing is invited, or when the flow window
is small enough to leave the last slot alone.
-/

namespace SrtGo.Buffer

open SrtGo.Seq

namespace RecvBuffer

variable {rb : RecvBuffer} {flow : ℤ} {q : ℕ}

def TooFar (rb : RecvBuffer) (q : ℕ) : Prop :=
  lessThan q rb.startSeq = false ∧
    (distance rb.startSeq q < 0 ∨ (rb.len : ℤ) - 1 ≤ distance rb.startSeq q)

instance (rb : RecvBuffer) (q : ℕ) : Decidable (rb.TooFar q) := by
  unfold TooFar
  infer_instance

/-- The numbers a peer may send when it honours the room that was advertised with
the acknowledgement of `ack`, and a window of `flow` packets. -/
def Invited (ack : ℕ) (room flow : ℤ) (q : ℕ) : Prop :=
  Valid q ∧ (ahead ack q : ℤ) < min flow room

theorem exists_scan_add (stop : ℕ → Bool) (limit fuel : ℕ) (s : ℕ) :
    ∃ n ≤ fuel, scan stop limit fuel (wrap s) = wrap (s + n) ∧
      (0 < n → lessThan (wrap s) limit = true) := by
  induction fuel generalizing s with
  | zero => exact ⟨0, le_rfl, rfl, by omega⟩
  | succ fuel ih =>
    rw [scan]
    split_ifs with hless hstop
    · exact ⟨0, by omega, rfl, by omega⟩
    · obtain ⟨n, hn, hscan, -⟩ := ih (s + 1)
      refine ⟨n + 1, by omega, ?_, fun _ => hless⟩
      rw [inc_wrap, hscan]
      congr 1
      omega
    · exact ⟨0, by omega, rfl, by omega⟩

theorem ackSequence_cases (hb : rb.Bounded) :
    rb.ackSequence = rb.startSeq ∨
      Valid rb.ackSequence ∧ lessThan rb.startSeq rb.ackSequence = true := by
  have hstart := wrap_of_lt hb.start.lt
  obtain ⟨n, hn, hscan, hpos⟩ := exists_scan_add (fun s => (rb.entryAt s).state = .empty) rb.maxSeq
    (ahead rb.startSeq rb.maxSeq) rb.startSeq
  rw [hstart] at hscan hpos
  rcases Nat.eq_zero_or_pos n with rfl | hpos'
  · left
    rw [ackSequence, hscan, Nat.add_zero, hstart]
  · right
    have hless := hpos hpos'
    obtain ⟨-, hhalf⟩ := ahead_of_lessThan hb.start hb.max hless
    have hack : rb.ackSequence = wrap (rb.startSeq + n) := hscan
    refine ⟨hack ▸ valid_wrap _, ?_⟩
    rw [hack]
    rcases Nat.lt_or_ge n (2 ^ 30) with hlt | hge
    · have hnext := lessThan_wrap (p := rb.startSeq) (q := rb.startSeq + n) (by omega) (by omega)
      rw [hstart] at hnext
      rw [hnext]
      exact decide_eq_true (by omega)
    · -- half of the space away there is only the end of the buffer itself
      have hend := wrap_add_ahead rb.startSeq hb.max
      rw [hstart] at hend
      rw [show n = ahead rb.startSeq rb.maxSeq by omega, hend]
      exact hless

def unread (rb : RecvBuffer) : ℤ := distance rb.startSeq rb.ackSequence

/-- The invitation is kept: nothing is unread, nothing is invited, or the flow window ends
before the slot that the ring keeps free. -/
def LeavesRoom (rb : RecvBuffer) (flow : ℤ) : Prop :=
  rb.unread = 0 ∨ (rb.capacity : ℤ) < rb.unread ∨ flow + rb.unread ≤ rb.capacity

instance (rb : RecvBuffer) (flow : ℤ) : Decidable (rb.LeavesRoom flow) := by
  unfold LeavesRoom
  infer_instance

theorem unread_spec (hb : rb.Bounded) (hpos : 0 < rb.len) : 0 ≤ rb.unread ∧
    rb.ackSequence = wrap (rb.startSeq + rb.unread.toNat) ∧
    rb.availableSize rb.ackSequence =
      if rb.unread = 0 then (rb.capacity : ℤ)
      else if (rb.capacity : ℤ) < rb.unread then 0 else rb.capacity - rb.unread + 1 := by
  have hstart := wrap_of_lt hb.start.lt
  have hcap : (rb.capacity : ℤ) = rb.len - 1 := by
    unfold capacity
    omega
  rcases ackSequence_cases hb with heq | ⟨hvalid, hless⟩
  · have hzero : rb.unread = 0 := by simp [unread, heq, distance]
    refine ⟨hzero.ge, ?_, ?_⟩
    · rw [hzero, heq]
      exact hstart.symm
    · rw [if_pos hzero, availableSize, heq, lessThan_self, hcap]
      rfl
  · obtain ⟨hone, -⟩ := ahead_of_lessThan hb.start hvalid hless
    have hahead : (ahead rb.startSeq rb.ackSequence : ℤ) = rb.unread :=
      ahead_eq_distance hb.start hvalid hless
    refine ⟨by omega, ?_, ?_⟩
    · have hwrap := wrap_add_ahead rb.startSeq hvalid
      rw [hstart] at hwrap
      rw [← hwrap, ← hahead, Int.toNat_natCast, hwrap]
    · rw [if_neg (by omega), hcap]
      unfold availableSize
      simp [hless, unread]

theorem LeavesRoom.exists_position (h : rb.LeavesRoom flow) (hb : rb.Bounded) (hpos : 0 < rb.len)
    (hq : Invited rb.ackSequence (rb.availableSize rb.ackSequence) flow q) :
    ∃ j < rb.capacity, q = wrap (rb.startSeq + j) := by
  obtain ⟨hnonneg, hack, hroom⟩ := unread_spec hb hpos
  obtain ⟨hvalid, hlt⟩ := hq
  have hflow := hlt.trans_le (min_le_left _ _)
  have havail := hlt.trans_le (min_le_right _ _)
  refine ⟨rb.unread.toNat + ahead rb.ackSequence q, ?_, ?_⟩
  · rw [hroom] at havail
    rcases h with hzero | hfull | hleaves
    · rw [if_pos hzero] at havail
      omega
    · rw [if_neg (by omega), if_pos hfull] at havail
      omega
    · omega
  · have hwrap := wrap_add_ahead (rb.startSeq + rb.unread.toNat) hvalid
    rw [← hack, Nat.add_assoc] at hwrap
    exact hwrap.symm

/-- When the invitation is kept, no invited number is refused as too far ahead, neither now
nor once the head has moved on. -/
theorem LeavesRoom.not_tooFar (h : rb.LeavesRoom flow) (hb : rb.Bounded) (hpos : 0 < rb.len)
    (hlen : rb.len ≤ 2 ^ 30) {rb' : RecvBuffer} (hb' : rb'.Bounded) (hlen' : rb'.len = rb.len)
    (hmoved : ahead rb.startSeq rb'.startSeq < 2 ^ 30)
    (hq : Invited rb.ackSequence (rb.availableSize rb.ackSequence) flow q) : ¬rb'.TooFar q := by
  obtain ⟨j, hj, rfl⟩ := h.exists_position hb hpos hq
  have hstart' : rb'.startSeq = wrap (rb.startSeq + ahead rb.startSeq rb'.startSeq) := by
    have hwrap := wrap_add_ahead rb.startSeq hb'.start
    rw [wrap_of_lt hb.start.lt] at hwrap
    exact hwrap.symm
  unfold capacity at hj
  generalize ahead rb.startSeq rb'.startSeq = m at hmoved hstart'
  rintro ⟨hless, hfar⟩
  rw [hstart', lessThan_wrap (by omega) (by omega)] at hless
  have hle := of_decide_eq_false hless
  rw [hstart', distance_wrap (by omega) (by omega), hlen'] at hfar
  push_cast at hfar
  omega

/-- Otherwise the peer may send a number that lies exactly one ring ahead of the head. -/
theorem exists_tooFar (h : ¬rb.LeavesRoom flow) (hb : rb.Bounded) (hpos : 0 < rb.len)
    (hlen : rb.len ≤ 2 ^ 30) :
    ∃ q, Invited rb.ackSequence (rb.availableSize rb.ackSequence) flow q ∧ rb.TooFar q := by
  obtain ⟨hnonneg, hack, hroom⟩ := unread_spec hb hpos
  have hcap : rb.capacity = rb.len - 1 := rfl
  simp only [LeavesRoom, not_or, not_lt, not_le] at h
  obtain ⟨hsome, hfits, hflow⟩ := h
  have hstart := wrap_of_lt hb.start.lt
  refine ⟨wrap (rb.startSeq + rb.capacity), ⟨valid_wrap _, ?_⟩, ?_, Or.inr ?_⟩
  · rw [hroom, if_neg hsome, if_neg (by omega), hack, ahead_wrap (by omega) (by omega)]
    apply lt_min
    · omega
    · omega
  · have hless := lessThan_wrap (p := rb.startSeq + rb.capacity) (q := rb.startSeq)
      (by omega) (by omega)
    rw [hstart] at hless
    rw [hless]
    exact decide_eq_false (by omega)
  · have hdist := distance_wrap (p := rb.startSeq) (q := rb.startSeq + rb.capacity)
      (by omega) (by omega)
    rw [hstart] at hdist
    rw [hdist]
    push_cast
    omega

end RecvBuffer

end SrtGo.Buffer

namespace SrtGo.Core

open Buffer Congestion Crypto SrtGo.Seq Run

namespace Conn

variable {σ : Type} [Controller σ] [Primitives] {c : Conn σ} {n : ℕ}

structure RingSized (n : ℕ) (c : Conn σ) : Prop where
  len : c.rcv.recvBuf.len = n
  bounded : c.rcv.recvBuf.Bounded

theorem RingSized.step (h : RingSized n c) (i : Input) : RingSized n (c.step i) := by
  refine step_preserves c i h fun c₁ c₂ hmove hc₁ => ?_
  rcases hmove.ring with hedits | ⟨p, now, hinsert⟩
  · exact ⟨hedits.len_eq.trans hc₁.len, hedits.bounded hc₁.bounded⟩
  · refine ⟨?_, ?_⟩
    · rw [hinsert, RecvBuffer.len_insert]
      exact hc₁.len
    · rw [hinsert]
      exact hc₁.bounded.insert p now

theorem RingSized.exec (h : RingSized n c) (is : List Input) :
    RingSized n (exec Conn.step c is) := by
  induction is generalizing c with
  | nil => exact h
  | cons i is ih => exact ih (h.step i)

omit [Primitives] in
theorem ringSized_establish (cc : σ) (now : ℤ) {ep : EstablishParams} (hisn : Valid ep.recvISN) :
    RingSized (nextPow2 ep.rcvCap) (establish cc now ep) := by
  rw [establish_eq]
  exact ⟨rfl, hisn, hisn⟩

omit [Primitives] in
theorem availableBufferSize_fullACK (hb : c.rcv.recvBuf.Bounded) (hpos : 0 < c.rcv.recvBuf.len)
    (hlen : c.rcv.recvBuf.len ≤ 2 ^ 30) (full : Bool) :
    ((c.fullACK c.rcv.recvBuf.ackSequence full).availableBufferSize : ℤ) =
      c.rcv.recvBuf.availableSize c.rcv.recvBuf.ackSequence := by
  obtain ⟨hnonneg, -, hroom⟩ := RecvBuffer.unread_spec hb hpos
  have hcap : c.rcv.recvBuf.capacity < c.rcv.recvBuf.len := Nat.sub_lt hpos one_pos
  have hfield : (c.fullACK c.rcv.recvBuf.ackSequence full).availableBufferSize =
      word32 (c.rcv.recvBuf.availableSize c.rcv.recvBuf.ackSequence) := by
    unfold fullACK
    simp only
    split_ifs <;> rfl
  rw [hfield, hroom, word32]
  split_ifs <;> omega

/-- In every state a connection reaches: every number that the acknowledgement of this state
invites is within the capacity of the buffer, now and as the head moves on, if and only if
the buffer has nothing unread, invites nothing, or has a flow window that leaves room. -/
theorem invitation_kept_iff {ep : EstablishParams} (hcap : ep.rcvCap ≤ 2 ^ 30)
    (hisn : Valid ep.recvISN) (cc : σ) (now : ℤ) (is : List Input) (full : Bool) :
    let c := Run.exec Conn.step (establish cc now ep) is
    let ack := c.fullACK c.rcv.recvBuf.ackSequence full
    let invited := RecvBuffer.Invited ack.lastACKPacketSequenceNumber ack.availableBufferSize
      ep.effectiveFlowWindow
    (∀ later, let c' := Run.exec Conn.step c later
      ahead c.rcv.recvBuf.startSeq c'.rcv.recvBuf.startSeq < 2 ^ 30 →
        ∀ q, invited q → ¬c'.rcv.recvBuf.TooFar q) ↔
      c.rcv.recvBuf.LeavesRoom ep.effectiveFlowWindow := by
  intro c ack invited
  have hsized : RingSized (nextPow2 ep.rcvCap) c := (ringSized_establish cc now hisn).exec is
  obtain ⟨k, hk, hpow⟩ := exists_nextPow2_eq hcap
  have hpos : 0 < c.rcv.recvBuf.len := by
    rw [hsized.len, hpow]
    exact Nat.two_pow_pos k
  have hlen : c.rcv.recvBuf.len ≤ 2 ^ 30 := by
    rw [hsized.len, hpow]
    exact Nat.pow_le_pow_right two_pos hk
  have hinvited : invited = RecvBuffer.Invited c.rcv.recvBuf.ackSequence
      (c.rcv.recvBuf.availableSize c.rcv.recvBuf.ackSequence) ep.effectiveFlowWindow := by
    simp only [invited, ack, fullACK_lastACKPacketSequenceNumber,
      availableBufferSize_fullACK hsized.bounded hpos hlen]
  rw [hinvited]
  constructor
  · intro hkept
    by_contra hno
    obtain ⟨q, hq, hfar⟩ := RecvBuffer.exists_tooFar hno hsized.bounded hpos hlen
    refine hkept [] ?_ q hq hfar
    have hself := ahead_wrap (p := c.rcv.recvBuf.startSeq) le_rfl (by omega)
    rw [wrap_of_lt hsized.bounded.start.lt] at hself
    exact hself.trans_lt (by omega)
  · intro hleaves later c' hmoved q hq
    have hsized' : RingSized (nextPow2 ep.rcvCap) c' := hsized.exec later
    exact hleaves.not_tooFar hsized.bounded hpos hlen hsized'.bounded
      (hsized'.len.trans hsized.len.symm) hmoved hq

end Conn

section Examples

open scoped XorCipher

def receiverParams (slots : ℤ) : EstablishParams :=
  { live := true, tsbpdDelay := 120000000, flowWindow := 32, bufferCapacity := slots }

def liveReceiver (slots : ℤ) : Conn LiveCC :=
  Conn.establish (LiveCC.new 0 0) 0 (receiverParams slots)

def onePacket : List Input := [.packet 1000 { data := [7] }]

/-- With 64 slots everything that a flow window of 32 packets allows is within capacity. -/
theorem invitation_kept_64 :
    let c := Run.exec Conn.step (liveReceiver 64) onePacket
    let ack := c.fullACK c.rcv.recvBuf.ackSequence true
    c.rcv.recvBuf.unread = 1 ∧ c.rcv.recvBuf.LeavesRoom 32 ∧
      ∀ q, RecvBuffer.Invited ack.lastACKPacketSequenceNumber ack.availableBufferSize 32 q →
        ¬c.rcv.recvBuf.TooFar q := by
  have hleaves : (Run.exec Conn.step (liveReceiver 64) onePacket).rcv.recvBuf.LeavesRoom 32 := by
    decide +kernel
  have hcap : (receiverParams 64).rcvCap ≤ 2 ^ 30 := by decide
  exact ⟨by decide +kernel, hleaves,
    (Conn.invitation_kept_iff hcap (by decide) (LiveCC.new 0 0) 0 onePacket true).mpr hleaves []
      (by decide +kernel)⟩

/-- With 32 slots and one packet unread, the acknowledgement of that packet has room for 31
more; but the last of them, which is number 31, is refused. -/
theorem invitation_broken_32 :
    let c := Run.exec Conn.step (liveReceiver 32) onePacket
    let ack := c.fullACK c.rcv.recvBuf.ackSequence true
    ack.lastACKPacketSequenceNumber = 1 ∧ ack.availableBufferSize = 31 ∧
      31 < 1 + min 32 ack.availableBufferSize ∧
      c.rcv.recvBuf.TooFar 31 ∧
        (c.rcv.recvBuf.insert { header := { sequenceNumber := 31 } } 2000).2 = {} := by
  decide +kernel

end Examples

end SrtGo.Core
