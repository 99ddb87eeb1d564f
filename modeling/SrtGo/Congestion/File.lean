import SrtGo.Congestion
import Mathlib.Data.Int.Log
import Mathlib.Data.Rat.Floor

/-!
# The controller of file mode

A window and a send period.  In slow start the window grows by what is acknowledged, until
it exceeds the flow window; afterwards it follows the delivery rate that the receiver
reports, and the send period shrinks with every interval without loss and grows with
losses.

The source computes in floating point.  The model computes in rational numbers and rounds the
result of every operation, the constants and the integers of more than 32 bits; how it rounds is a
parameter of the controller, of which nothing is asked, so that no result here depends on it.
Infinities do not occur in the model.  The random numbers that spread the decreases come from
`draws`.
-/

namespace SrtGo.Congestion

def fileCCInitialCWND : ℚ := 16
def fileCCInitialPeriod : ℚ := 1
def fileCCRCInterval : ℤ := 10000
def fileCCLossIncrease : ℚ := 103 / 100
def fileCCBeta : ℚ := 15 / 10000000
def fileCCMaxDecCount : ℤ := 5
def fileCCLossThreshold : ℚ := 20
def fileCCShareFactor : ℚ := 3 / 100

def seqLen (seq1 seq2 : ℕ) : ℕ := (seq2 + (2 ^ 32 - seq1 % 2 ^ 32)) % 2 ^ 31

def seqCmp (a b : ℕ) : ℤ := Seq.int32 (a + (2 ^ 32 - b % 2 ^ 32))

/-- The arithmetic of the machine: how a result is rounded, and the power of ten above a positive
number, which the library computes with a logarithm. -/
structure Rounding where
  round : ℚ → ℚ
  powerAbove : ℚ → ℚ

def Rounding.exact : Rounding := ⟨id, fun x => 10 ^ Int.clog 10 x⟩

structure FileCC where
  cwnd : ℚ := fileCCInitialCWND
  maxCWND : ℚ
  sndPeriod : ℚ := fileCCInitialPeriod
  slowStart : Bool := true
  lastAck : ℕ
  lastRCTime : ℤ := 0
  rcInit : Bool := false
  loss : Bool := false
  lastDecSeq : ℕ
  lastDecPeriod : ℚ := fileCCInitialPeriod
  nakCount : ℤ := 0
  avgNAKNum : ℤ := 0
  decCount : ℤ := 0
  decRandom : ℤ := 1
  deliveryRate : ℚ := 0
  bwEstimate : ℚ := 0
  rtt : ℚ := 0
  lastSentSeq : ℕ := 0
  sndLossLength : ℤ := 0
  maxBW : ℤ
  overhead : ℤ := defaultOverhead
  packetSize : ℤ
  probe : ProbeEstimator
  delivery : DeliveryEstimator
  rounding : Rounding
  draws : ℕ → ℕ
  drawn : ℕ := 0

namespace FileCC

def new (rounding : Rounding) (draws : ℕ → ℕ) (maxBW packetSize fc : ℤ) (isn : ℕ) : FileCC :=
  let packetSize := if packetSize ≤ 0 then defaultPacketSize else packetSize
  { maxCWND := rounding.round (if fc ≤ 0 then 8192 else fc)
    lastAck := Seq.dec isn
    lastDecSeq := Seq.dec (Seq.dec isn)
    maxBW := maxBW
    packetSize := packetSize
    probe := { maxPayloadSize := packetSize }
    delivery := { bytesWindow := List.replicate windowSize packetSize.toNat }
    rounding := rounding
    draws := draws }

def fl (cc : FileCC) (x : ℚ) : ℚ := cc.rounding.round x

def packetInterval (cc : FileCC) : ℤ := ⌊max cc.sndPeriod 1⌋

def mss (cc : FileCC) : ℚ :=
  let mss := cc.fl (cc.fl cc.packetSize + wireHeaderSize)
  if mss ≤ wireHeaderSize then cc.fl (defaultPacketSize + wireHeaderSize) else mss

def exitSlowStart (cc : FileCC) : FileCC :=
  if 0 < cc.deliveryRate then { cc with sndPeriod := cc.fl (1000000 / cc.deliveryRate) }
  else if 0 < cc.rtt then
    { cc with sndPeriod := cc.fl (cc.cwnd / cc.fl (cc.rtt + fileCCRCInterval)) }
  else cc

def rateIncrease (cc : FileCC) : FileCC :=
  if cc.sndPeriod ≤ 0 then cc
  else
    let lossBW := cc.fl (2 * cc.fl (1000000 / cc.lastDecPeriod))
    let bwPktPS := if min lossBW cc.bwEstimate ≤ 0 then lossBW else min lossBW cc.bwEstimate
    let free := cc.fl (bwPktPS - cc.fl (1000000 / cc.sndPeriod))
    let free := if cc.lastDecPeriod < cc.sndPeriod ∧ cc.fl (bwPktPS / 9) < free then
        cc.fl (bwPktPS / 9)
      else free
    let power := cc.rounding.powerAbove (cc.fl (cc.fl (free * cc.mss) * 8))
    let inc :=
      if free ≤ 0 then cc.fl (1 / cc.mss)
      else max (cc.fl (cc.fl (power * cc.fl fileCCBeta) / cc.mss)) (cc.fl (1 / cc.mss))
    let next := cc.fl (cc.fl (cc.sndPeriod * fileCCRCInterval) /
      cc.fl (cc.fl (cc.sndPeriod * inc) + fileCCRCInterval))
    { cc with sndPeriod := next }

def enforceMaxBW (cc : FileCC) : FileCC :=
  if cc.maxBW ≤ 0 then cc
  else
    let minSP := cc.fl (1000000 / cc.fl (cc.fl cc.maxBW / cc.mss))
    { cc with sndPeriod := max cc.sndPeriod minSP }

/-- Take over the estimates of an acknowledgement; a zero says nothing. -/
def noteEstimates (cc : FileCC) (rtt : ℤ) (bandwidth deliveryRate : ℕ) : FileCC :=
  { cc with
    rtt := if 0 < rtt then cc.fl rtt else cc.rtt
    bwEstimate := if 0 < bandwidth then bandwidth else cc.bwEstimate
    deliveryRate := if 0 < deliveryRate then deliveryRate else cc.deliveryRate }

/-- Whether the interval since the last adjustment is over; the first acknowledgement
only starts it. -/
def adjustmentDue (cc : FileCC) (now : ℤ) : Bool :=
  cc.rcInit && decide (fileCCRCInterval ≤ now - cc.lastRCTime)

def growWindow (cc : FileCC) (ackSeqNo : ℕ) : FileCC :=
  let cc := { cc with
    cwnd :=
      if 0 < seqLen cc.lastAck ackSeqNo then cc.fl (cc.cwnd + seqLen cc.lastAck ackSeqNo)
      else cc.cwnd
    lastAck := ackSeqNo }
  if cc.maxCWND < cc.cwnd then { cc with slowStart := false }.exitSlowStart else cc

def windowFor (cc : FileCC) (deliveryRate rtt : ℚ) : ℚ :=
  cc.fl (cc.fl (cc.fl (deliveryRate / 1000000) * cc.fl (rtt + fileCCRCInterval)) + 16)

def followRate (cc : FileCC) : FileCC :=
  let cc :=
    if 0 < cc.deliveryRate then { cc with cwnd := cc.windowFor cc.deliveryRate cc.rtt } else cc
  if cc.loss then { cc with loss := false } else cc.rateIncrease

def onACK (cc : FileCC) (now : ℤ) (ackSeqNo : ℕ) (rtt : ℤ) (bandwidth deliveryRate : ℕ) : FileCC :=
  let cc := cc.noteEstimates rtt bandwidth deliveryRate
  if !cc.rcInit then { cc with rcInit := true, lastRCTime := now }
  else if now - cc.lastRCTime < fileCCRCInterval then cc
  else
    let cc := { cc with lastRCTime := now }
    (if cc.slowStart then cc.growWindow ackSeqNo else cc.followRate).enforceMaxBW

def onTimeout (cc : FileCC) : FileCC :=
  if cc.slowStart then { cc with slowStart := false }.exitSlowStart else cc

def drawUpTo (cc : FileCC) (n : ℤ) : FileCC :=
  { cc with decRandom := (cc.draws cc.drawn : ℤ) % n + 1, drawn := cc.drawn + 1 }

def slowedPeriod (cc : FileCC) : ℚ := ⌈cc.fl (cc.sndPeriod * cc.fl fileCCLossIncrease)⌉

def startEpoch (cc : FileCC) : FileCC :=
  let cc := { cc with
    lastDecPeriod := cc.sndPeriod
    sndPeriod := cc.slowedPeriod
    avgNAKNum := ⌈cc.fl (cc.fl (cc.fl cc.avgNAKNum * cc.fl (1 - fileCCShareFactor)) +
      cc.fl (cc.fl cc.nakCount * cc.fl fileCCShareFactor))⌉
    nakCount := 1
    decCount := 1
    lastDecSeq := cc.lastSentSeq }
  if 1 < cc.avgNAKNum then cc.drawUpTo cc.avgNAKNum else { cc with decRandom := 1 }

def continueEpoch (cc : FileCC) : FileCC :=
  if cc.decCount < fileCCMaxDecCount then
    let cc := { cc with decCount := cc.decCount + 1, nakCount := cc.nakCount + 1 }
    if 0 < cc.decRandom ∧ cc.nakCount.tmod cc.decRandom = 0 then
      { cc with sndPeriod := cc.slowedPeriod, lastDecSeq := cc.lastSentSeq }
    else cc
  else cc

/-- Whether fewer than two percent of the packets in flight are lost. -/
def lossIsMinor (cc : FileCC) : Bool :=
  let pktsInFlight := cc.fl (cc.rtt / cc.sndPeriod)
  decide (0 < cc.sndPeriod ∧ 0 < cc.rtt ∧ 0 < pktsInFlight ∧
    cc.fl (cc.fl (cc.fl cc.sndLossLength * 1000) / pktsInFlight) < fileCCLossThreshold)

def onNAK (cc : FileCC) (lossSeqs : List ℕ) : FileCC :=
  match lossSeqs with
  | [] => cc
  | lossBegin :: _ =>
    let cc := if cc.slowStart then { cc with slowStart := false }.exitSlowStart else cc
    let cc := { cc with loss := true }
    if cc.lossIsMinor then { cc with lastDecPeriod := cc.sndPeriod }
    else
      (if 0 < seqCmp lossBegin cc.lastDecSeq then cc.startEpoch else cc.continueEpoch).enforceMaxBW

/-! ### When a loss opens an epoch -/

def noteLoss (cc : FileCC) : FileCC :=
  { (if cc.slowStart then { cc with slowStart := false }.exitSlowStart else cc) with loss := true }

/-- The test of the source for a new epoch. -/
def opensEpoch (cc : FileCC) (lossBegin : ℕ) : Bool := decide (0 < seqCmp lossBegin cc.lastDecSeq)

theorem lastDecSeq_noteLoss (cc : FileCC) : cc.noteLoss.lastDecSeq = cc.lastDecSeq := by
  unfold noteLoss exitSlowStart
  split_ifs <;> rfl

theorem seqCmp_eq {a b : ℕ} (ha : Seq.Valid a) (hb : Seq.Valid b) : seqCmp a b = (a : ℤ) - b := by
  have ha := ha.lt
  have hb := hb.lt
  unfold seqCmp Seq.int32
  split_ifs <;> omega

/-- **When losses above the threshold open an epoch.**  The branch of `OnNAK` is the one of the
wrap-aware order exactly when the wrap does not lie between the two numbers. -/
theorem epochs_wrap_aware_iff (cc : FileCC) (lossBegin : ℕ) (lossSeqs : List ℕ)
    (hloss : Seq.Valid lossBegin) (hdec : Seq.Valid cc.lastDecSeq)
    (hmajor : cc.noteLoss.lossIsMinor = false) :
    cc.onNAK (lossBegin :: lossSeqs) =
      (if cc.opensEpoch lossBegin then cc.noteLoss.startEpoch else
        cc.noteLoss.continueEpoch).enforceMaxBW ∧
    (cc.opensEpoch lossBegin = Seq.greaterThan lossBegin cc.lastDecSeq ↔
      |(lossBegin : ℤ) - cc.lastDecSeq| < 2 ^ 30) := by
  constructor
  · have hbranch : cc.onNAK (lossBegin :: lossSeqs) =
        if cc.noteLoss.lossIsMinor then { cc.noteLoss with lastDecPeriod := cc.noteLoss.sndPeriod }
        else (if 0 < seqCmp lossBegin cc.noteLoss.lastDecSeq then cc.noteLoss.startEpoch
          else cc.noteLoss.continueEpoch).enforceMaxBW := rfl
    rw [hbranch, hmajor, if_neg Bool.false_ne_true, lastDecSeq_noteLoss]
    simp only [opensEpoch, decide_eq_true_eq]
  · unfold opensEpoch Seq.greaterThan Seq.lessThan Seq.threshold
    rw [seqCmp_eq hloss hdec, abs_lt]
    split_ifs <;> simp <;> omega

/-- A controller whose epoch began with the last number before the wrap. -/
def atWrap : FileCC :=
  { new .exact (fun _ => 0) 0 1316 8192 0 with
    slowStart := false, decCount := 5, lastDecSeq := 0x7FFFFFFF }

theorem epochs_wrap_aware_iff_at_wrap : atWrap.noteLoss.lossIsMinor = false ∧
    (atWrap.opensEpoch 0x7FFFFFFE = Seq.greaterThan 0x7FFFFFFE 0x7FFFFFFF ↔ |(0x7FFFFFFE : ℤ) -
      0x7FFFFFFF| < 2 ^ 30) :=
  have hmajor : atWrap.noteLoss.lossIsMinor = false := by decide +kernel
  ⟨hmajor, (epochs_wrap_aware_iff atWrap 0x7FFFFFFE [] ⟨by decide⟩ ⟨by decide⟩ hmajor).2⟩

/-- The loss of packet 0, the next one, does not open an epoch, and the rate stays. -/
theorem loss_after_wrap_opens_no_epoch : Seq.distance atWrap.lastDecSeq 0 = 1 ∧
    atWrap.noteLoss.lossIsMinor = false ∧ Seq.greaterThan 0 atWrap.lastDecSeq = true ∧
    atWrap.opensEpoch 0 = false ∧ (atWrap.onNAK [0]).sndPeriod = atWrap.sndPeriod := by
  decide +kernel

def congestionWindow (cc : FileCC) : ℤ := max ⌊cc.cwnd⌋ 2

instance : Controller FileCC where
  live _ := false
  packetInterval := packetInterval
  onACK := onACK
  onNAK := onNAK
  onTimeout := onTimeout
  onPacketSent cc seqNo _ := { cc with lastSentSeq := seqNo }
  onPacketReceived cc seqNo size t := { cc with probe := cc.probe.onPacketReceived seqNo size t }
  onPktArrival cc size t := { cc with delivery := cc.delivery.onPktArrival size t }
  setMaxBandwidth cc bw := { cc with maxBW := bw }
  setOverhead cc pct := { cc with overhead := max 0 (min pct 100) }
  isProbePacket cc := decide (cc.lastSentSeq % probeInterval = 0)
  estimatedBandwidth cc := cc.probe.estimatedBandwidth
  deliveryRate cc := cc.delivery.getPktRcvSpeed
  updateBandwidth cc _ _ := cc
  congestionWindow := congestionWindow
  minNAKInterval _ := 0
  updateNAKInterval _ t := t

end FileCC

end SrtGo.Congestion
