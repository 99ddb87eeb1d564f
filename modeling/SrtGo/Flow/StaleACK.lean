import SrtGo.Congestion.File
import SrtGo.Flow.SendWindow

/-!
# Acknowledgements from behind

The network may reorder acknowledgements, so that one arrives whose number lies behind
the start of the send buffer.  The buffer compares numbers and ignores it.  The rest of
the sender does not compare: the reported room replaces the newer one, and the controller
of file mode measures the way from the last acknowledged number forwards around the
31-bit circle.  This module says exactly when nothing changes all the same.
-/

namespace SrtGo.Congestion.FileCC

theorem cwnd_exitSlowStart (cc : FileCC) :
    cc.exitSlowStart.cwnd = cc.cwnd ∧ cc.exitSlowStart.lastAck = cc.lastAck := by
  unfold exitSlowStart
  split_ifs <;> exact ⟨rfl, rfl⟩

theorem cwnd_rateIncrease (cc : FileCC) :
    cc.rateIncrease.cwnd = cc.cwnd ∧ cc.rateIncrease.lastAck = cc.lastAck := by
  unfold rateIncrease
  split_ifs <;> exact ⟨rfl, rfl⟩

theorem cwnd_enforceMaxBW (cc : FileCC) :
    cc.enforceMaxBW.cwnd = cc.cwnd ∧ cc.enforceMaxBW.lastAck = cc.lastAck := by
  unfold enforceMaxBW
  split_ifs <;> exact ⟨rfl, rfl⟩

def grown (cc : FileCC) (ackSeqNo : ℕ) : ℚ :=
  if 0 < seqLen cc.lastAck ackSeqNo then cc.fl (cc.cwnd + seqLen cc.lastAck ackSeqNo) else cc.cwnd

theorem cwnd_growWindow (cc : FileCC) (ackSeqNo : ℕ) :
    (cc.growWindow ackSeqNo).cwnd = cc.grown ackSeqNo ∧
      (cc.growWindow ackSeqNo).lastAck = ackSeqNo := by
  unfold growWindow
  simp only
  by_cases hover : cc.maxCWND < cc.grown ackSeqNo
  · rw [grown] at hover
    rw [if_pos hover]
    exact cwnd_exitSlowStart _
  · rw [grown] at hover
    rw [if_neg hover]
    exact ⟨rfl, rfl⟩

theorem cwnd_followRate (cc : FileCC) :
    cc.followRate.cwnd =
        (if 0 < cc.deliveryRate then cc.windowFor cc.deliveryRate cc.rtt else cc.cwnd) ∧
      cc.followRate.lastAck = cc.lastAck := by
  unfold followRate
  by_cases hrate : 0 < cc.deliveryRate
  · simp only [if_pos hrate]
    split_ifs
    · exact ⟨rfl, rfl⟩
    · exact cwnd_rateIncrease _
  · simp only [if_neg hrate]
    split_ifs
    · exact ⟨rfl, rfl⟩
    · exact cwnd_rateIncrease _

def rateAfter (cc : FileCC) (deliveryRate : ℕ) : ℚ :=
  if 0 < deliveryRate then deliveryRate else cc.deliveryRate

def rttAfter (cc : FileCC) (rtt : ℤ) : ℚ := if 0 < rtt then cc.fl rtt else cc.rtt

/-- An acknowledgement leaves the window alone: no adjustment is due, or slow start has
seen this very number, or the window already follows the rate. -/
def Settled (cc : FileCC) (now : ℤ) (ackSeqNo : ℕ) (rtt : ℤ) (deliveryRate : ℕ) : Prop :=
  cc.adjustmentDue now = false ∨
    if cc.slowStart then ackSeqNo = cc.lastAck
    else cc.rateAfter deliveryRate ≤ 0 ∨
      cc.windowFor (cc.rateAfter deliveryRate) (cc.rttAfter rtt) = cc.cwnd

theorem seqLen_self (a : ℕ) : seqLen a a = 0 := by
  unfold seqLen
  omega

theorem cwnd_onACK (cc : FileCC) (now : ℤ) (ackSeqNo : ℕ) (rtt : ℤ) (bandwidth deliveryRate : ℕ) :
    (cc.onACK now ackSeqNo rtt bandwidth deliveryRate).cwnd =
        (if cc.adjustmentDue now then
          if cc.slowStart then cc.grown ackSeqNo
          else if 0 < cc.rateAfter deliveryRate then
            cc.windowFor (cc.rateAfter deliveryRate) (cc.rttAfter rtt)
          else cc.cwnd
        else cc.cwnd) ∧
      (cc.onACK now ackSeqNo rtt bandwidth deliveryRate).lastAck =
        if cc.adjustmentDue now ∧ cc.slowStart then ackSeqNo else cc.lastAck := by
  unfold onACK adjustmentDue
  by_cases hinit : cc.rcInit = true
  · by_cases hgate : now - cc.lastRCTime < fileCCRCInterval
    · have hnot : ¬fileCCRCInterval ≤ now - cc.lastRCTime := not_le.mpr hgate
      simp [noteEstimates, hinit, hgate, hnot]
    · have hdue : fileCCRCInterval ≤ now - cc.lastRCTime := not_lt.mp hgate
      by_cases hslow : cc.slowStart = true
      · simp only [noteEstimates, hinit, hgate, hdue, hslow, cwnd_enforceMaxBW, cwnd_growWindow,
          Bool.not_true, Bool.false_eq_true, if_false, decide_true, Bool.and_self,
            if_true, and_true]
        rfl
      · simp only [noteEstimates, hinit, hgate, hdue, hslow, cwnd_enforceMaxBW, cwnd_followRate,
          rateAfter,
          rttAfter, Bool.not_true, Bool.false_eq_true, if_false, decide_true, Bool.and_self,
            if_true, and_false]
        exact ⟨rfl, trivial⟩
  · simp [noteEstimates, hinit]

/-- An acknowledgement changes neither the window nor the last acknowledged number exactly
if the controller is settled. -/
theorem onACK_unchanged_iff (cc : FileCC) (now : ℤ) (ackSeqNo : ℕ) (rtt : ℤ)
    (bandwidth deliveryRate : ℕ) :
    (cc.onACK now ackSeqNo rtt bandwidth deliveryRate).cwnd = cc.cwnd ∧
        (cc.onACK now ackSeqNo rtt bandwidth deliveryRate).lastAck = cc.lastAck ↔
      cc.Settled now ackSeqNo rtt deliveryRate := by
  rw [(cwnd_onACK cc now ackSeqNo rtt bandwidth deliveryRate).1,
    (cwnd_onACK cc now ackSeqNo rtt bandwidth deliveryRate).2, Settled]
  by_cases hdue : cc.adjustmentDue now = true
  · by_cases hslow : cc.slowStart = true
    · simp only [hdue, hslow, and_self, if_true, Bool.true_eq_false, false_or]
      constructor
      · exact fun h => h.2
      · intro h
        rw [grown, ← h, seqLen_self]
        simp
    · by_cases hrate : 0 < cc.rateAfter deliveryRate
      · simp [hdue, hslow, hrate, not_le.mpr hrate]
      · simp [hdue, hslow, hrate, not_lt.mp hrate]
  · simp [hdue]

end SrtGo.Congestion.FileCC

namespace SrtGo.Core

open Buffer Congestion Crypto Run SrtGo.Seq

structure Conn.Stale {σ : Type} (c : Conn σ) (ack : CIFACK) : Prop where
  valid : Valid ack.lastACKPacketSequenceNumber
  behind : 0 < distance ack.lastACKPacketSequenceNumber c.snd.sendBuf.startSeq

namespace Conn

variable {σ : Type} {c c' : Conn σ} {s n : ℕ}

section
variable [Controller σ] {now : ℤ}

/-- There is nothing to give up on and nothing to send at this time. -/
structure NothingDue (c : Conn σ) (now : ℤ) : Prop where
  drop : ¬c.HeadDue now
  send : c.snd.sendQueue = [] ∨ c.window ≤ c.snd.sendBuf.size ∨
    (c.snd.nextSendTime ≠ 0 ∧ now < c.snd.nextSendTime)

omit [Controller σ] in
theorem checkSendDrop_of_not_headDue (h : ¬c.HeadDue now) : c.checkSendDrop now = c := by
  unfold Conn.checkSendDrop
  by_cases hoff : c.params.sendDropThresh ≤ 0 ∧ (!c.snd.msgTTLActive) = true
  · rw [if_pos hoff]
  · have hexpired : ¬(0 < c.snd.sendBuf.size ∧
        c.snd.sendBuf.headExpired now c.params.sendDropThresh = true) :=
      fun hexpired => h ⟨by simpa using hoff, hexpired⟩
    have hnone : (c.snd.sendBuf.dropTooLateSend now c.params.sendDropThresh).dropped = 0 := by
      unfold SendBuffer.dropTooLateSend
      cases c.snd.sendBuf.size.toNat with
      | zero => rfl
      | succ fuel => rw [SendBuffer.dropTooLateLoop, if_neg hexpired]
    simp [hnone]

variable [Primitives] {ack : CIFACK} {i : Input}

theorem NothingDue.pump (h : c.NothingDue now) :
    c.pump now = c ∨ ∃ d, c.pump now = c.push (.setTimer .sndPacing d) := by
  unfold Conn.pump
  simp only [checkSendDrop_of_not_headDue h.drop]
  cases hqueue : c.snd.sendQueue with
  | nil => exact Or.inl rfl
  | cons f rest =>
    rw [List.length_cons, pumpLoop, hqueue]
    simp only
    by_cases hfull : c.window ≤ c.snd.sendBuf.size
    · exact Or.inl (if_pos hfull)
    · rw [if_neg hfull]
      have hwait : c.snd.nextSendTime ≠ 0 ∧ now < c.snd.nextSendTime := by
        rcases h.send with hempty | hfull' | hwait
        · rw [hqueue] at hempty
          exact absurd hempty (by simp)
        · exact absurd hfull' hfull
        · exact hwait
      exact Or.inr ⟨_, if_pos hwait⟩

theorem Buffers.size_pumpLoop {f : Frame} {rest : List Frame} (h : Buffers c s n) (now : ℤ)
    (hqueue : c.snd.sendQueue = f :: rest) (hroom : c.snd.sendBuf.size < c.window)
    (hpace : ¬(c.snd.nextSendTime ≠ 0 ∧ now < c.snd.nextSendTime)) (fuel : ℕ) :
    ∃ k, Buffers (pumpLoop now (fuel + 1) c) s (n + (k + 1)) := by
  rw [pumpLoop, hqueue]
  simp only
  rw [if_neg (not_le.mpr hroom), if_neg hpace]
  obtain ⟨cell, hholds, hlen⟩ := h
  obtain ⟨cell', t, hone⟩ := exists_sent_sendPaced hholds hlen hqueue hroom now
  obtain ⟨cell'', frames, new, hrest⟩ :=
    exists_sent_pumpLoop now fuel hone.holds (by rw [hone.params, hone.len]; exact hlen)
  exact ⟨new.length, (hone.trans hrest).buffers hlen⟩

theorem Buffers.sendBuf_pump_iff (h : Buffers c s n) (now : ℤ) :
    (c.pump now).snd.sendBuf = c.snd.sendBuf ↔ c.NothingDue now := by
  constructor
  · intro hsame
    obtain ⟨cell, hholds, hlen⟩ := id h
    obtain ⟨d, cell', frames, new, hd, hsent⟩ := exists_sent_pump hholds hlen now
    have hholds' := hsent.holds
    have hd_le := hd.le
    rw [hsame] at hholds'
    have hwidth := hholds.width
    have hlen_le := hholds.len_le
    have hstart : s + d = s :=
      eq_of_wrap_eq (hholds'.startSeq_eq.symm.trans hholds.startSeq_eq) (by omega) (by omega)
    have hdrop : ¬c.HeadDue now := fun hhead => by have := hd.pos_of_headDue hholds hhead; omega
    refine ⟨hdrop, ?_⟩
    by_contra hsend
    simp only [not_or, not_le] at hsend
    obtain ⟨hqueue, hroom, hpace⟩ := hsend
    obtain ⟨f, rest, hqueue⟩ := List.exists_cons_of_ne_nil hqueue
    obtain ⟨k, cell'', hholds'', -⟩ := h.size_pumpLoop now hqueue hroom hpace rest.length
    have hpump : c.pump now = pumpLoop now (rest.length + 1) c := by
      unfold Conn.pump
      simp only [checkSendDrop_of_not_headDue hdrop, hqueue, List.length_cons]
    rw [← hpump, hsame] at hholds''
    have hsize := hholds.size_eq
    have hsize' := hholds''.size_eq
    push_cast at hsize'
    omega
  · intro hnothing
    rcases hnothing.pump with hpump | ⟨d, hpump⟩
    · rw [hpump]
    · rw [hpump]
      rfl

/-! ## A stale acknowledgement -/

theorem sendCC_pump {β : Type} (f : σ → β)
    (hf : ∀ cc x y, f (Controller.onPacketSent cc x y) = f cc)
    (c : Conn σ) (now : ℤ) : f (c.pump now).snd.sendCC = f c.snd.sendCC := by
  have hone : ∀ (c : Conn σ) (g : Frame), f (c.sendPaced now g).snd.sendCC = f c.snd.sendCC := by
    intro c g
    rcases sendData_cases c now c.snd.sendBuf.nextSeq
        (if g.srcTime = 0 then c.wireTS now else g.srcTime) g with ⟨-, hsame⟩ | ⟨sb, plain,
          wire, -, -, hcc, -⟩
    · exact congrArg (fun c => f c.snd.sendCC) hsame
    · exact (congrArg f hcc).trans (hf _ _ _)
  have hloop : ∀ (fuel : ℕ) (c : Conn σ), f (pumpLoop now fuel c).snd.sendCC = f c.snd.sendCC :=
    fun fuel c =>
    pumpLoop_preserves (Q := fun b => f b.snd.sendCC = f c.snd.sendCC) now (fun _ _ h => h)
      (fun _ _ _ _ _ _ h => (hone _ _).trans h) fuel c rfl
  have hdrop : (c.checkSendDrop now).snd.sendCC = c.snd.sendCC := by
    unfold Conn.checkSendDrop
    simp only
    split_ifs <;> rfl
  exact (hloop _ _).trans (congrArg f hdrop)

/-- The room that an acknowledgement reports, as `window` reads it. -/
def roomOf (c : Conn σ) (w : ℤ) : ℤ := if 0 < w ∧ w < c.params.flowWindow then w else
    c.params.flowWindow

def SameRoom (c : Conn σ) (w : ℤ) : Prop :=
  min (c.roomOf w) (Controller.congestionWindow c.snd.sendCC) = c.window

theorem exists_step_stale (hopen : c.closed = false) (hack : i.fullACK? = some ack)
    (hvalid : Valid c.snd.sendBuf.startSeq) (hstale : c.Stale ack) :
    ∃ c₁ : Conn σ, c.step i = c₁.pump i.now ∧ c₁.params = c.params ∧
      c₁.snd = { c.snd with
        rcvFlowWin := ack.availableBufferSize
        sendCC := Controller.onACK c.snd.sendCC i.now ack.lastACKPacketSequenceNumber
          (if 0 < ack.rtt then ack.rtt else c.ack.rtt) ack.estimatedLinkCapacity
          ack.packetsReceivingRate } := by
  obtain ⟨subNo, hstep⟩ := step_fullACK hopen hack
  have halive : (c.noteAlive i.now).snd = c.snd ∧ (c.noteAlive i.now).ack = c.ack := by
    unfold noteAlive
    split_ifs <;> exact ⟨rfl, rfl⟩
  refine ⟨_, hstep, (acked_full (upkeep_noteAlive c i.now) _ _ _).params, ?_⟩
  have hless : lessThan c.snd.sendBuf.startSeq ack.lastACKPacketSequenceNumber = false :=
    lessThan_asymm ((lessThan_iff_distance_pos hstale.valid hvalid).mpr hstale.behind)
  have hignored : ((c.noteAlive i.now).acknowledge i.now ack.lastACKPacketSequenceNumber).1.snd =
      c.snd := by
    unfold Conn.acknowledge
    simp only [halive.1, SendBuffer.ack_of_not_lessThan hless, lt_irrefl, if_false]
  rw [snd_afterFullACK, hignored, halive.1, halive.2]

/-- If the controller keeps its window, a stale acknowledgement changes neither the send
buffer nor the window exactly if the reported room makes no difference and nothing is
due. -/
theorem stale_unchanged_iff (h : Buffers c s n) (hopen : c.closed = false)
    (hack : i.fullACK? = some ack) (hstale : c.Stale ack)
    (hsent : ∀ (cc : σ) x y, Controller.congestionWindow (Controller.onPacketSent cc x y) =
      Controller.congestionWindow cc)
    (hcc : Controller.congestionWindow (Controller.onACK c.snd.sendCC i.now
      ack.lastACKPacketSequenceNumber (if 0 < ack.rtt then ack.rtt else c.ack.rtt)
      ack.estimatedLinkCapacity ack.packetsReceivingRate) = Controller.congestionWindow
      c.snd.sendCC) :
    (c.step i).snd.sendBuf = c.snd.sendBuf ∧ (c.step i).window = c.window ↔
      c.SameRoom ack.availableBufferSize ∧ c.NothingDue i.now := by
  have hvalid : Valid c.snd.sendBuf.startSeq := by
    obtain ⟨cell, hholds, -⟩ := h
    rw [hholds.startSeq_eq]
    exact valid_wrap s
  obtain ⟨c₁, hstep, hparams, hsnd⟩ := exists_step_stale hopen hack hvalid hstale
  have hbuffers : Buffers c₁ s n := by
    unfold Buffers
    rw [hsnd, hparams]
    exact h
  -- the window before pumping, which pumping does not change
  have hwindow₁ : c₁.window = min (c.roomOf ack.availableBufferSize)
      (Controller.congestionWindow c.snd.sendCC) := by
    unfold window
    rw [hsnd, hparams, hcc]
    rfl
  have hwindow : (c.step i).window = c₁.window := by
    obtain ⟨cell, hholds, hlen⟩ := hbuffers
    obtain ⟨d, cell', frames, new, -, hpumped⟩ := exists_sent_pump hholds hlen i.now
    unfold window
    rw [hstep, hpumped.rcvFlowWin, (sendFrame_pump c₁ i.now).params,
      sendCC_pump Controller.congestionWindow hsent c₁ i.now]
  rw [hwindow, hstep, hwindow₁]
  have hbuf₁ : c₁.snd.sendBuf = c.snd.sendBuf := by rw [hsnd]
  have hpump := hbuffers.sendBuf_pump_iff i.now
  rw [hbuf₁] at hpump
  rw [hpump]
  -- with the same window, what is due before and after adopting the room is the same
  have hdue : c₁.window = c.window → (c₁.NothingDue i.now ↔ c.NothingDue i.now) := by
    intro hsame
    have hhead : c₁.HeadDue i.now ↔ c.HeadDue i.now := by
      unfold HeadDue
      rw [hsnd, hparams]
    constructor
    · intro hnothing
      refine ⟨fun hd => hnothing.drop (hhead.mpr hd), ?_⟩
      have hsend := hnothing.send
      rw [hsame, hsnd] at hsend
      exact hsend
    · intro hnothing
      refine ⟨fun hd => hnothing.drop (hhead.mp hd), ?_⟩
      rw [hsame, hsnd]
      exact hnothing.send
  rw [hwindow₁] at hdue
  constructor
  · rintro ⟨hnothing, hroom⟩
    exact ⟨hroom, (hdue hroom).mp hnothing⟩
  · rintro ⟨hroom, hnothing⟩
    exact ⟨(hdue hroom).mpr hnothing, hroom⟩

end

/-- What a stale acknowledgement should leave alone in file mode, exactly if the
controller is settled, the reported room makes no difference and nothing is due; in live
mode the controller has no part in it. -/
theorem stale_ack_inert_iff [Primitives] {ep : EstablishParams} (hcap : ep.sndCap ≤ 2 ^ 30)
    (hisn : Valid ep.sendISN) (now : ℤ) (is : List Input) (hsingle : ∀ i ∈ is, i.Single) {i : Input}
    {ack : CIFACK} (hack : i.fullACK? = some ack) :
    (∀ cc : FileCC, let c := exec Conn.step (establish cc now ep) is
      c.closed = false → c.Stale ack →
        ((c.step i).snd.sendBuf = c.snd.sendBuf ∧ (c.step i).window = c.window ∧
            (c.step i).snd.sendCC.cwnd = c.snd.sendCC.cwnd ∧
            (c.step i).snd.sendCC.lastAck = c.snd.sendCC.lastAck ↔
          c.snd.sendCC.Settled i.now ack.lastACKPacketSequenceNumber
              (if 0 < ack.rtt then ack.rtt else c.ack.rtt) ack.packetsReceivingRate ∧
            c.SameRoom ack.availableBufferSize ∧ c.NothingDue i.now)) ∧
      (∀ cc : LiveCC, let c := exec Conn.step (establish cc now ep) is
        c.closed = false → c.Stale ack →
          ((c.step i).snd.sendBuf = c.snd.sendBuf ∧ (c.step i).window = c.window ↔
            c.SameRoom ack.availableBufferSize ∧ c.NothingDue i.now)) := by
  constructor
  · intro cc c hopen hstale
    obtain ⟨s, n, hbuffers⟩ := exists_buffers_exec hcap hisn cc now is hsingle
    have hvalid : Valid c.snd.sendBuf.startSeq := by
      obtain ⟨cell, hholds, -⟩ := hbuffers
      rw [hholds.startSeq_eq]
      exact valid_wrap s
    obtain ⟨c₁, hstep, -, hsnd⟩ := exists_step_stale hopen hack hvalid hstale
    -- the pump that follows touches neither the window of the controller nor its last number
    have hcwnd : (c.step i).snd.sendCC.cwnd = c₁.snd.sendCC.cwnd := by
      rw [hstep]
      exact sendCC_pump FileCC.cwnd (fun _ _ _ => rfl) c₁ i.now
    have hlast : (c.step i).snd.sendCC.lastAck = c₁.snd.sendCC.lastAck := by
      rw [hstep]
      exact sendCC_pump FileCC.lastAck (fun _ _ _ => rfl) c₁ i.now
    have hsettled := c.snd.sendCC.onACK_unchanged_iff i.now ack.lastACKPacketSequenceNumber
      (if 0 < ack.rtt then ack.rtt else c.ack.rtt) ack.estimatedLinkCapacity
        ack.packetsReceivingRate
    rw [hcwnd, hlast, hsnd, ← hsettled]
    constructor
    · rintro ⟨hbuf, hwindow, hcc⟩
      have hsame := congrArg (fun x : ℚ => max ⌊x⌋ 2) hcc.1
      exact ⟨hcc, (stale_unchanged_iff hbuffers hopen hack hstale (fun _ _ _ => rfl) hsame).mp
        ⟨hbuf, hwindow⟩⟩
    · rintro ⟨hcc, hinert⟩
      have hsame := congrArg (fun x : ℚ => max ⌊x⌋ 2) hcc.1
      obtain ⟨hbuf, hwindow⟩ :=
        (stale_unchanged_iff hbuffers hopen hack hstale (fun _ _ _ => rfl) hsame).mpr hinert
      exact ⟨hbuf, hwindow, hcc⟩
  · intro cc c hopen hstale
    obtain ⟨s, n, hbuffers⟩ := exists_buffers_exec hcap hisn cc now is hsingle
    exact stale_unchanged_iff hbuffers hopen hack hstale (fun _ _ _ => rfl) rfl

end Conn

section Examples

open scoped XorCipher

def fileParams : EstablishParams := { congestion := "file", flowWindow := 32, bufferCapacity := 32 }

def fileCC : FileCC := FileCC.new .exact (fun _ => 0) 0 0 32 0

def acknowledgedTwice : List Input :=
  threeSent ++ [fullACKInput 10000 1 30, fullACKInput 30000 3 28]

/-- Within ten milliseconds, and with the room of the newest acknowledgement, an old one
changes nothing. -/
theorem stale_ack_inert_early :
    let c := exec Conn.step (Conn.establish fileCC 0 fileParams) acknowledgedTwice
    let c' := c.step (fullACKInput 35000 1 28)
    c'.snd.sendBuf = c.snd.sendBuf ∧ c'.window = c.window ∧ c'.snd.sendCC.cwnd = c.snd.sendCC.cwnd ∧
      c'.snd.sendCC.lastAck = c.snd.sendCC.lastAck := by
  have hcap : fileParams.sndCap ≤ 2 ^ 30 := by decide
  have hack : (fullACKInput 35000 1 28).fullACK? =
      some { lastACKPacketSequenceNumber := 1, availableBufferSize := 28 } := by decide +kernel
  refine ((Conn.stale_ack_inert_iff hcap (by decide) 0 acknowledgedTwice (by decide) hack).1 fileCC
    (by decide +kernel) ⟨by decide, by decide +kernel⟩).mpr ⟨?_, ?_, ?_, ?_⟩
  · exact Or.inl (by decide +kernel)
  · show _ = _
    decide +kernel
  · exact fun hdue => hdue.1 (by decide +kernel)
  · exact Or.inl (by decide +kernel)

/-- Twenty milliseconds after the third packet was acknowledged, the old acknowledgement
of the first one arrives again.  The congestion window grows by almost the whole circle
of sequence numbers, the last acknowledged number goes back, and the old room replaces
the new one. -/
theorem stale_ack_not_inert :
    let c := exec Conn.step (Conn.establish fileCC 0 fileParams) acknowledgedTwice
    let c' := c.step (fullACKInput 50000 1 8)
    c.closed = false ∧ c.snd.sendBuf.startSeq = 3 ∧ c.window = 20 ∧ c'.window = 8 ∧
      c.snd.sendCC.cwnd = 20 ∧ c'.snd.sendCC.cwnd = 20 + (2 ^ 31 - 2) ∧
      c.snd.sendCC.lastAck = 3 ∧ c'.snd.sendCC.lastAck = 1 := by
  decide +kernel

end Examples

end SrtGo.Core
