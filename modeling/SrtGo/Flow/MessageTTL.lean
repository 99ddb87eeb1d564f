import SrtGo.Flow.SendWindow
import SrtGo.Transfer.Sender

/-!
# The time to live of a message

A message may be written with a time to live.  When it has run out and the message is not
acknowledged, the sender is to give up on its packets; the check runs at the start of every pump.

The check looks at the head of the buffer only, and goes on behind it only while it drops.  A packet
without a deadline, or with a later one, therefore keeps every packet behind it.  After a pump no
packet has outlived its message exactly if every packet that has done so before the pump is preceded
by nothing but packets that are too late themselves.
-/

namespace SrtGo.Buffer

open SrtGo.Seq

/-- The packet is in the buffer for longer than its message may live.  The time to live counts
nanoseconds, the clock microseconds. -/
def SendEntry.outlived (e : SendEntry) (now : ℤ) : Bool :=
  e.used && decide (0 < e.msgTTL) && decide (e.msgTTL < (now - e.sentAt) * 1000)

namespace SendBuffer

def nth (sb : SendBuffer) (k : ℕ) : SendEntry := sb.entryAt (wrap (sb.startSeq + k))

/-- No packet of the buffer has outlived its message. -/
def EnforcesTTL (sb : SendBuffer) (now : ℤ) : Prop :=
  ∀ i < sb.len, (sb.entries i).outlived now = false

instance (sb : SendBuffer) (now : ℤ) : Decidable (sb.EnforcesTTL now) :=
  inferInstanceAs (Decidable (∀ i < sb.len, _))

def Untimed (sb : SendBuffer) : Prop := ∀ i, (sb.entries i).msgTTL ≤ 0

variable {sb sb' : SendBuffer}

theorem Untimed.setEntry (h : sb.Untimed) (i : ℕ) {e : SendEntry} (he : e.msgTTL ≤ 0) :
    (sb.setEntry i e).Untimed := by
  intro j
  by_cases hj : j = i
  · simp only [SendBuffer.setEntry, hj, Function.update_self]
    exact he
  · simp only [SendBuffer.setEntry, Function.update_of_ne hj]
    exact h j

theorem Untimed.release (h : sb.Untimed) : sb.release.Untimed := h.setEntry _ le_rfl

theorem Untimed.push (h : sb.Untimed) {p : Packet} {sentAt : ℤ}
    (hpush : sb.push p sentAt = some sb') :
    sb'.Untimed := by
  unfold SendBuffer.push at hpush
  split_ifs at hpush
  obtain rfl := Option.some.inj hpush
  exact h.setEntry (sb.index sb.nextSeq) le_rfl

theorem Untimed.ack (h : sb.Untimed) (a : ℕ) : (sb.ack a).1.Untimed :=
  ackLoop_preserves (Q := fun r => r.1.Untimed) (fun _ _ _ _ _ h => h.release)
    (fun _ _ _ _ h => h) _ h

theorem Untimed.dropTooLateLoop (now thresh : ℤ) (fuel : ℕ) (r : SendDrop) (h : r.buffer.Untimed) :
    (SendBuffer.dropTooLateLoop now thresh fuel r).buffer.Untimed :=
  dropTooLateLoop_preserves _ _ (Q := fun r => r.buffer.Untimed) (fun _ _ _ h => h.release) fuel h

theorem Untimed.nakTimed (h : sb.Untimed) (losses : List ℕ) (now rtt rttVar : ℤ) :
    (sb.nakTimed losses now rtt rttVar).1.Untimed :=
  nakTimed_preserves (Q := fun r => r.1.Untimed) (fun _ _ _ _ _ _ _ h => h.setEntry _ (h _)) h

end SendBuffer

variable {cell : ℕ → SendEntry} {sb : SendBuffer}

theorem Holds.nth_eq {s n : ℕ} (h : Holds sb cell s n) {k : ℕ} (hk : s + k < n) :
    sb.nth k = cell (s + k) := by
  have hwrap : wrap (sb.startSeq + k) = wrap (s + k) := by
    rw [h.startSeq_eq]
    unfold wrap
    omega
  rw [SendBuffer.nth, hwrap]
  exact h.entryAt_wrap (Nat.le_add_right s k) hk

theorem Holds.enforcesTTL_iff {s n : ℕ} (h : Holds sb cell s n) (now : ℤ) :
    sb.EnforcesTTL now ↔ ∀ p, s ≤ p → p < n → (cell p).outlived now = false := by
  constructor
  · intro hall p hs hn
    rw [← h.entryAt_wrap hs hn]
    exact hall _ (SendBuffer.index_lt h.len_pos _)
  · intro hall i _
    by_cases hused : (sb.entries i).used = true
    · obtain ⟨p, hs, hn, -, hcell⟩ := h.exists_position hused
      rw [hcell]
      exact hall p hs hn
    · simp [SendEntry.outlived, hused]

end SrtGo.Buffer

namespace SrtGo.Core

open Buffer Congestion Crypto Run SrtGo.Seq

namespace Conn

variable {σ : Type} {c c' : Conn σ} {s n : ℕ} {cell : ℕ → SendEntry}

/-- Every packet that has outlived its message, and every packet before it, is too late. -/
def ExpiresInOrder (c : Conn σ) (now : ℤ) : Prop :=
  ∀ k < c.snd.sendBuf.size.toNat, (c.snd.sendBuf.nth k).outlived now = true →
    ∀ j ≤ k, (c.snd.sendBuf.nth j).expired now c.params.sendDropThresh = true

instance (c : Conn σ) (now : ℤ) : Decidable (c.ExpiresInOrder now) :=
  inferInstanceAs (Decidable (∀ k < c.snd.sendBuf.size.toNat, _ → ∀ j ≤ k, _))

theorem expiresInOrder_iff (h : Holds c.snd.sendBuf cell s n) (now : ℤ) :
    c.ExpiresInOrder now ↔ ∀ p, s ≤ p → p < n → (cell p).outlived now = true →
      ∀ q, s ≤ q → q ≤ p → (cell q).expired now c.params.sendDropThresh = true := by
  have hsize := h.size_eq_sub
  constructor
  · intro horder p hs hn hold q hq hqp
    have hnth : ∀ p, s ≤ p → p < n → c.snd.sendBuf.nth (p - s) = cell p := by
      intro p hs hn
      rw [h.nth_eq (by omega), Nat.add_sub_cancel' hs]
    have := horder (p - s) (by omega) (by rw [hnth p hs hn]; exact hold) (q - s) (by omega)
    rw [hnth q hq (by omega)] at this
    exact this
  · intro hall k hk hold j hj
    rw [h.nth_eq (by omega)] at hold ⊢
    exact hall (s + k) (by omega) (by omega) hold (s + j) (by omega) (by omega)

/-! ## Times to live are noticed -/

/-- As long as no message with a time to live has been written, no packet has one. -/
def NoticesTTL (c : Conn σ) : Prop :=
  c.snd.msgTTLActive = false → (∀ f ∈ c.snd.sendQueue, f.ttlNs ≤ 0) ∧ c.snd.sendBuf.Untimed

theorem NoticesTTL.of_eq (h : NoticesTTL c) (hactive : c'.snd.msgTTLActive = c.snd.msgTTLActive)
    (hqueue : c'.snd.sendQueue = c.snd.sendQueue) (hbuf : c.snd.sendBuf.Untimed →
      c'.snd.sendBuf.Untimed) :
    NoticesTTL c' := by
  intro hoff
  rw [hactive] at hoff
  rw [hqueue]
  exact ⟨(h hoff).1, hbuf (h hoff).2⟩

theorem NoticesTTL.upkeep (h : NoticesTTL c) (hkeep : Upkeep c c') : NoticesTTL c' :=
  h.of_eq hkeep.msgTTLActive hkeep.sendQueue fun hbuf => by rw [hkeep.sendBuf]; exact hbuf

theorem NoticesTTL.checkSendDrop (h : NoticesTTL c) (now : ℤ) :
    NoticesTTL (c.checkSendDrop now) := by
  unfold Conn.checkSendDrop
  simp only
  split_ifs
  · exact h
  · exact h
  · exact h.of_eq rfl rfl fun hbuf => SendBuffer.Untimed.dropTooLateLoop _ _ _ _ hbuf

theorem NoticesTTL.enqueue (h : NoticesTTL c) (now : ℤ) (payload : Bytes) (opts : MsgOptions) :
    NoticesTTL (c.enqueue now payload opts) := by
  intro hoff
  obtain ⟨hactive, httl⟩ := Bool.or_eq_false_iff.mp hoff
  obtain ⟨hqueue, hbuf⟩ := h hactive
  refine ⟨fun f hf => ?_, hbuf⟩
  rcases List.mem_append.mp hf with hf | hf
  · exact hqueue f hf
  · exact (messageFrames_ttlNs c now payload (by simpa using httl) _ f hf).le

section
variable [Controller σ] [Primitives]

theorem NoticesTTL.sendPaced {f : Frame} {rest : List Frame} (h : NoticesTTL c)
    (hqueue : c.snd.sendQueue = f :: rest) (now : ℤ) :
    NoticesTTL ((c.dequeue rest).sendPaced now f) := by
  intro hoff
  obtain ⟨hcases, hrest, hactive, -, -⟩ := sendPaced_cases c now f rest
  rw [hactive] at hoff
  obtain ⟨hframes, hbuf⟩ := h hoff
  rw [hqueue] at hframes
  rw [hrest]
  refine ⟨fun g hg => hframes g (List.mem_cons_of_mem f hg), ?_⟩
  rcases hcases with ⟨-, hsame, -⟩ | ⟨sb, plain, wire, hpush, -, hsb, -⟩
  · rw [hsame]
    exact hbuf
  · rw [hsb, tagTTL, if_neg (not_lt.mpr (hframes f List.mem_cons_self))]
    exact hbuf.push hpush

theorem NoticesTTL.pump (h : NoticesTTL c) (now : ℤ) : NoticesTTL (c.pump now) :=
  pumpLoop_preserves now (fun _ _ h => h.of_eq rfl rfl id)
    (fun _ _ _ hqueue _ _ h => h.sendPaced hqueue now) _ _
    (h.checkSendDrop now)

/-! ## After a pump -/

theorem enforcesTTL_iff_of_holds (h : Holds c.snd.sendBuf cell s n)
    (hroom : c.params.flowWindow ≤ c.snd.sendBuf.len) (hnotice : NoticesTTL c) (now : ℤ) :
    (c.pump now).snd.sendBuf.EnforcesTTL now ↔ c.ExpiresInOrder now := by
  obtain ⟨d, cell', frames, new, hd, hsent⟩ := exists_sent_pump h hroom now
  rw [hsent.holds.enforcesTTL_iff now, expiresInOrder_iff h]
  constructor
  · intro hall p hs hn hold q hq hqp
    -- a packet that has outlived its message is gone, and so is everything before it
    have hgone : p < s + d := by
      by_contra hstays
      have := hall p (not_lt.mp hstays) (by omega)
      rw [hsent.kept p hn, hold] at this
      exact absurd this (by decide)
    exact hd.expired q hq (hqp.trans_lt hgone)
  · intro hall p hs hn'
    by_contra hold
    rw [Bool.not_eq_false] at hold
    by_cases hn : p < n
    · rw [hsent.kept p hn] at hold
      have hlate := hall p (by omega) hn hold (s + d) (by omega) hs
      by_cases hoff : c.params.sendDropThresh ≤ 0 ∧ c.snd.msgTTLActive = false
      · have huntimed := (hnotice hoff.2).2 (c.snd.sendBuf.index (wrap p))
        have hentry : c.snd.sendBuf.entries (c.snd.sendBuf.index (wrap p)) = cell p :=
          h.entryAt_wrap (by omega) hn
        rw [hentry] at huntimed
        simp only [SendEntry.outlived, Bool.and_eq_true, decide_eq_true_eq] at hold
        omega
      · have := hd.stops hoff (by omega)
        rw [hlate] at this
        exact absurd this (by decide)
    · -- a packet that has just been sent is not old
      have hnew : p - n < new.length := by omega
      have hnow := (hsent.added (p - n) _ (List.getElem?_eq_getElem hnew)).1.2
      rw [Nat.add_sub_cancel' (not_lt.mp hn)] at hnow
      simp only [SendEntry.outlived, hnow, Bool.and_eq_true, decide_eq_true_eq] at hold
      omega

/-! ## Runs -/

omit [Primitives] in
theorem PumpedFrom.noticesTTL {b : Conn σ} (hb : PumpedFrom c b) (h : NoticesTTL c) :
    NoticesTTL b := by
  rcases hb.cases with hkeep | ⟨now, payload, opts, rfl⟩ | ⟨a, hacked⟩
  · exact h.upkeep hkeep
  · exact h.enqueue now payload opts
  · refine h.of_eq hacked.msgTTLActive hacked.sendQueue fun hbuf => ?_
    rw [hacked.sendBuf]
    exact hbuf.ack a

theorem SendStep.noticesTTL {i : Input} (hstep : SendStep i c c') (h : NoticesTTL c) :
    NoticesTTL c' := by
  cases hstep with
  | idle hkeep => exact h.upkeep hkeep
  | resend losses now rtt rttVar hkeep =>
    have hnoted : NoticesTTL (c.setSendBuf (c.snd.sendBuf.nakTimed losses now rtt rttVar).1) :=
      h.of_eq rfl rfl fun hbuf => hbuf.nakTimed losses now rtt rttVar
    exact hnoted.upkeep hkeep
  | pump hb => exact (hb.pumpedFrom.noticesTTL h).pump i.now

theorem noticesTTL_exec (cc : σ) (start : ℤ) (ep : EstablishParams) (is : List Input)
    (hsingle : ∀ i ∈ is, i.Single) : NoticesTTL (exec Conn.step (establish cc start ep) is) := by
  have hstart : NoticesTTL (establish cc start ep) := by
    rw [establish_eq]
    exact fun _ => ⟨by simp [established], fun i => le_rfl⟩
  have hsteps : AllSteps Conn.step (fun _ i => i.Single) (establish cc start ep) is :=
    allSteps_of_forall_mem hsingle
  exact (hsteps.allStates (fun c i h hi => (sendStep c hi).noticesTTL h) hstart).exec

/-- Along every run, after every pump, no packet of the buffer has outlived its message exactly if
before the pump every packet that has done so, and every packet before it, was too late. -/
theorem enforcesTTL_pump_iff {ep : EstablishParams} (hcap : ep.sndCap ≤ 2 ^ 30)
    (hisn : Valid ep.sendISN)
    (cc : σ) (start : ℤ) (is : List Input) (hsingle : ∀ i ∈ is, i.Single) {b : Conn σ}
    (hb : PumpedFrom (exec Conn.step (establish cc start ep) is) b) (now : ℤ) :
    (b.pump now).snd.sendBuf.EnforcesTTL now ↔ b.ExpiresInOrder now := by
  obtain ⟨s, n, hbuffers⟩ := exists_buffers_exec hcap hisn cc start is hsingle
  obtain ⟨d, -, cell, hholds, hroom⟩ := hb.exists_buffers hbuffers
  exact enforcesTTL_iff_of_holds hholds hroom
    (hb.noticesTTL (noticesTTL_exec cc start ep is hsingle)) now

end

end Conn

section Examples

open scoped XorCipher

def messageParams : EstablishParams := { message := true, flowWindow := 32, bufferCapacity := 32 }

def shortLived : MsgOptions := { inOrder := true, ttl := 10000 }

/-- A message that lives for ten milliseconds is followed by one without a deadline. -/
def shortThenLasting : Conn LiveCC :=
  exec Conn.step (Conn.establish (LiveCC.new 0 0) 0 messageParams)
    [.write 1000 [1] shortLived, .write 2000 [2] { inOrder := true }]

def lastingThenShort : Conn LiveCC :=
  exec Conn.step (Conn.establish (LiveCC.new 0 0) 0 messageParams)
    [.write 1000 [1] { inOrder := true }, .write 2000 [2] shortLived]

/-- At the head of the buffer the message is dropped in time. -/
theorem enforcesTTL_at_head :
    (shortThenLasting.pump 20000).snd.sendBuf.EnforcesTTL 20000 ∧
      (shortThenLasting.pump 20000).snd.sendBuf.size = 1 := by
  have hcap : messageParams.sndCap ≤ 2 ^ 30 := by decide
  refine ⟨(Conn.enforcesTTL_pump_iff hcap (by decide) (LiveCC.new 0 0) 0
    [.write 1000 [1] shortLived, .write 2000 [2] { inOrder := true }] (by decide)
    (.upkeep (Conn.Upkeep.refl shortThenLasting)) 20000).mpr (by decide +kernel), by decide +kernel⟩

/-- Behind a message without a deadline it is kept, eight milliseconds after its time. -/
theorem outlived_message_behind_lasting_one :
    ¬(lastingThenShort.pump 20000).snd.sendBuf.EnforcesTTL 20000 := by
  decide +kernel

end Examples

end SrtGo.Core
