import SrtGo.Seq

/-!
# Congestion control

The connection paces its sends through a controller that it only knows by an
interface, so the model of the connection is generic in it.  The controller of live
mode is a fixed-rate pacer, which also estimates the link capacity from pairs of
packets sent back to back and the delivery rate from all arrivals.

The source takes the averages of the two estimators, and the sampled input rate, in
floating point; the model takes them exactly.
-/

namespace SrtGo.Congestion

/-- The interface of a congestion controller.  `live` tells the fixed-rate pacer from
the others. -/
class Controller (σ : Type) where
  live : σ → Bool
  packetInterval : σ → ℤ
  onACK : σ → ℤ → ℕ → ℤ → ℕ → ℕ → σ
  onNAK : σ → List ℕ → σ
  onTimeout : σ → σ
  onPacketSent : σ → ℕ → ℕ → σ
  onPacketReceived : σ → ℕ → ℕ → ℤ → σ
  onPktArrival : σ → ℕ → ℤ → σ
  setMaxBandwidth : σ → ℤ → σ
  setOverhead : σ → ℤ → σ
  isProbePacket : σ → Bool
  estimatedBandwidth : σ → ℕ
  deliveryRate : σ → ℕ × ℕ
  updateBandwidth : σ → ℤ → ℤ → σ
  congestionWindow : σ → ℤ
  minNAKInterval : σ → ℤ
  updateNAKInterval : σ → ℤ → ℤ

def defaultMaxBW : ℤ := 1000000000 / 8
def defaultOverhead : ℤ := 25
def defaultPacketSize : ℤ := 1316
def probeInterval : ℕ := 16
def wireHeaderSize : ℕ := 44

def windowSize : ℕ := 16

def ceilDiv (a b : ℤ) : ℤ := -((-a).fdiv b)

def median (window : List ℤ) : ℤ := (window.mergeSort (· ≤ ·)).getD (window.length / 2) 0

/-- The samples strictly between an eighth of the median and eight times it. -/
def inPeakRange (median v : ℤ) : Bool := decide (median / 8 < v ∧ v < median * 8)

/-! ## The probe-pair estimator -/

/-- Every sixteenth packet is followed at once by the next; the time between the two
arrivals measures the link. -/
structure ProbeEstimator where
  maxPayloadSize : ℤ
  probe1Time : ℤ := 0
  probe1Seq : ℕ := 0
  probe1Valid : Bool := false
  probeWindow : List ℤ := List.replicate windowSize 1000
  probePtr : ℕ := 0
deriving DecidableEq, Repr

namespace ProbeEstimator

def normalized (pe : ProbeEstimator) (size : ℕ) (timediff : ℤ) : ℤ :=
  if 0 < pe.maxPayloadSize ∧ 0 < size ∧ (size : ℤ) ≠ pe.maxPayloadSize then
    (timediff * pe.maxPayloadSize).tdiv size
  else timediff

def onPacketReceived (pe : ProbeEstimator) (seqNo size : ℕ) (arrivalTime : ℤ) : ProbeEstimator :=
  if seqNo % probeInterval = 0 then
    { pe with probe1Time := arrivalTime, probe1Seq := seqNo, probe1Valid := true }
  else if seqNo % probeInterval = 1 then
    if !pe.probe1Valid then pe
    else if seqNo ≠ Seq.inc pe.probe1Seq then pe
    else
      let pe := { pe with probe1Valid := false }
      let timediff := arrivalTime - pe.probe1Time
      if timediff ≤ 0 then pe
      else
        { pe with
          probeWindow := pe.probeWindow.set pe.probePtr (pe.normalized size timediff)
          probePtr := (pe.probePtr + 1) % windowSize }
  else pe

/-- The link capacity in packets per second: the samples around the median, with the
median once more, averaged. -/
def estimatedBandwidth (pe : ProbeEstimator) : ℕ :=
  let m := median pe.probeWindow
  if m ≤ 0 then 0
  else
    let kept := pe.probeWindow.filter (inPeakRange m)
    (ceilDiv (1000000 * (kept.length + 1)) (kept.sum + m)).toNat % 2 ^ 32

end ProbeEstimator

/-! ## The delivery-rate estimator -/

structure DeliveryEstimator where
  lastArrivalTime : Option ℤ := none
  pktWindow : List ℤ := List.replicate windowSize 1000000
  bytesWindow : List ℕ
  pktPtr : ℕ := 0
  initialized : Bool := false
deriving DecidableEq, Repr

namespace DeliveryEstimator

def onPktArrival (de : DeliveryEstimator) (size : ℕ) (arrivalTime : ℤ) : DeliveryEstimator :=
  match de.lastArrivalTime with
  | none => { de with lastArrivalTime := some arrivalTime }
  | some last =>
    { lastArrivalTime := some arrivalTime
      pktWindow := de.pktWindow.set de.pktPtr (arrivalTime - last)
      bytesWindow := de.bytesWindow.set de.pktPtr size
      pktPtr := (de.pktPtr + 1) % windowSize
      initialized := de.initialized || decide (windowSize ≤ de.pktPtr + 1) }

/-- Packets and bytes per second; zero until more than half of the samples are in the
range around the median. -/
def getPktRcvSpeed (de : DeliveryEstimator) : ℕ × ℕ :=
  if !de.initialized then (0, 0)
  else
    let m := median de.pktWindow
    if m ≤ 0 then (0, 0)
    else
      let kept := (de.pktWindow.zip de.bytesWindow).filter fun s => inPeakRange m s.1
      let sum := (kept.map Prod.fst).sum
      let totalBytes := (kept.map Prod.snd).sum + wireHeaderSize * kept.length
      if kept.length ≤ windowSize / 2 ∨ sum ≤ 0 then (0, 0)
      else
        ((ceilDiv (1000000 * kept.length) sum).toNat % 2 ^ 32,
          (ceilDiv (1000000 * totalBytes) sum).toNat % 2 ^ 32)

end DeliveryEstimator

/-! ## The pacer of live mode -/

structure LiveCC where
  maxBW : ℤ
  avgPayloadSize : ℤ
  lastSentSeq : ℕ := 0
  overhead : ℤ := defaultOverhead
  probe : ProbeEstimator
  delivery : DeliveryEstimator
deriving DecidableEq, Repr

/-- The largest native integer: live mode has no congestion window. -/
def maxInt : ℤ := 2 ^ 63 - 1

def int64 (z : ℤ) : ℤ := z.bmod (2 ^ 64)

namespace LiveCC

def new (maxBW packetSize : ℤ) : LiveCC :=
  let packetSize := if packetSize ≤ 0 then defaultPacketSize else packetSize
  { maxBW := if maxBW ≤ 0 then defaultMaxBW else maxBW
    avgPayloadSize := packetSize
    probe := { maxPayloadSize := packetSize }
    delivery := { bytesWindow := List.replicate windowSize packetSize.toNat } }

def packetInterval (cc : LiveCC) : ℤ :=
  if cc.maxBW ≤ 0 then 1000
  else
    let interval := (1000000 * (cc.avgPayloadSize + wireHeaderSize)).tdiv cc.maxBW
    if interval ≤ 0 then 1 else interval

def onPacketSent (cc : LiveCC) (seqNo size : ℕ) : LiveCC :=
  { cc with
    lastSentSeq := seqNo
    avgPayloadSize :=
      if 0 < size then (cc.avgPayloadSize * 127 + size).tdiv 128 else cc.avgPayloadSize }

/-! The overhead is taken of the hundreds and of the rest, so that the product fits a word.  What
an operation yields before it is stored in a word has a name of its own. -/

def hundreds (overhead inputBW : ℤ) : ℤ := inputBW.tdiv 100 * overhead

def rest (overhead inputBW : ℤ) : ℤ := inputBW.tmod 100 * overhead

def extra (overhead inputBW : ℤ) : ℤ :=
  int64 (hundreds overhead inputBW) + (int64 (rest overhead inputBW)).tdiv 100

def headroom (overhead inputBW : ℤ) : ℤ := maxInt - int64 (extra overhead inputBW)

def scaled (overhead inputBW : ℤ) : ℤ := inputBW + int64 (extra overhead inputBW)

/-- An explicit maximum is used as it is; an input rate gets the overhead on top. -/
def updateBandwidth (cc : LiveCC) (maxBW inputBW : ℤ) : LiveCC :=
  if 0 < maxBW then { cc with maxBW := maxBW }
  else if 0 < inputBW then
    { cc with
      maxBW := if int64 (headroom cc.overhead inputBW) < inputBW then maxInt
        else int64 (scaled cc.overhead inputBW) }
  else cc

instance : Controller LiveCC where
  live _ := true
  packetInterval := packetInterval
  onACK cc _ _ _ _ _ := cc
  onNAK cc _ := cc
  onTimeout cc := cc
  onPacketSent := onPacketSent
  onPacketReceived cc seqNo size t := { cc with probe := cc.probe.onPacketReceived seqNo size t }
  onPktArrival cc size t := { cc with delivery := cc.delivery.onPktArrival size t }
  setMaxBandwidth cc bw := { cc with maxBW := bw }
  setOverhead cc pct := { cc with overhead := max 0 (min pct 100) }
  isProbePacket cc := decide (cc.lastSentSeq % probeInterval = 0)
  estimatedBandwidth cc := cc.probe.estimatedBandwidth
  deliveryRate cc := cc.delivery.getPktRcvSpeed
  updateBandwidth := updateBandwidth
  congestionWindow _ := maxInt
  minNAKInterval _ := 20000
  updateNAKInterval _ t := t.tdiv 2

/-! ### The overhead on the input rate -/

def InWord (z : ℤ) : Prop := -2 ^ 63 ≤ z ∧ z ≤ maxInt

/-- No operation of `UpdateBandwidth` overflows.  The sum is only taken where there is room. -/
structure FitsWords (overhead inputBW : ℤ) : Prop where
  hundreds : InWord (hundreds overhead inputBW)
  rest : InWord (rest overhead inputBW)
  extra : InWord (extra overhead inputBW)
  headroom : InWord (headroom overhead inputBW)
  scaled : ¬int64 (LiveCC.headroom overhead inputBW) < inputBW → InWord (scaled overhead inputBW)

theorem InWord.int64_eq {z : ℤ} (h : InWord z) : int64 z = z := by
  obtain ⟨hlow, hhigh⟩ := h
  unfold maxInt at hhigh
  exact Int.bmod_eq_of_le (by omega) (by omega)

section
variable {o inputBW : ℤ} (hlow : 0 ≤ o) (hhigh : o ≤ 100) (hpos : 0 < inputBW)
    (hle : inputBW ≤ maxInt)

include hlow hhigh hpos

theorem rest_bounds : 0 ≤ rest o inputBW ∧ rest o inputBW ≤ 9900 := by
  unfold rest
  rw [Int.tmod_eq_emod_of_nonneg hpos.le]
  have hr : 0 ≤ inputBW % 100 := by omega
  have hmul := mul_le_mul_of_nonneg_left hhigh hr
  exact ⟨mul_nonneg hr hlow, by omega⟩

theorem hundreds_bounds : 0 ≤ hundreds o inputBW ∧ hundreds o inputBW ≤ inputBW / 100 * 100 := by
  unfold hundreds
  rw [Int.tdiv_eq_ediv_of_nonneg hpos.le]
  have hq : 0 ≤ inputBW / 100 := by omega
  exact ⟨mul_nonneg hq hlow, mul_le_mul_of_nonneg_left hhigh hq⟩

theorem inWord_rest : InWord (rest o inputBW) := by
  obtain ⟨h0, h1⟩ := rest_bounds hlow hhigh hpos
  constructor
  · omega
  · unfold maxInt
    omega

include hle

theorem inWord_hundreds : InWord (hundreds o inputBW) := by
  obtain ⟨h0, h1⟩ := hundreds_bounds hlow hhigh hpos
  constructor <;> omega

/-- The product is computed in two parts; only the second one is rounded. -/
theorem extra_eq : extra o inputBW = inputBW * o / 100 := by
  obtain ⟨hrest, -⟩ := rest_bounds hlow hhigh hpos
  have hparts : inputBW * o = 100 * hundreds o inputBW + rest o inputBW := by
    unfold hundreds rest
    rw [Int.tdiv_eq_ediv_of_nonneg hpos.le, Int.tmod_eq_emod_of_nonneg hpos.le]
    conv_lhs => rw [← Int.mul_ediv_add_emod inputBW 100, add_mul, mul_assoc]
  unfold extra
  rw [(inWord_hundreds hlow hhigh hpos hle).int64_eq, (inWord_rest hlow hhigh hpos).int64_eq,
    Int.tdiv_eq_ediv_of_nonneg hrest, hparts]
  omega

theorem extra_bounds : 0 ≤ extra o inputBW ∧ extra o inputBW ≤ inputBW := by
  have hnonneg : 0 ≤ inputBW * o := mul_nonneg hpos.le hlow
  have hmul : inputBW * o ≤ inputBW * 100 := mul_le_mul_of_nonneg_left hhigh hpos.le
  rw [extra_eq hlow hhigh hpos hle]
  constructor <;> omega

theorem fitsWords : FitsWords o inputBW := by
  obtain ⟨h0, h1⟩ := extra_bounds hlow hhigh hpos hle
  have hextra : InWord (extra o inputBW) := ⟨by omega, by omega⟩
  have hroom : InWord (headroom o inputBW) := by
    unfold headroom
    rw [hextra.int64_eq]
    constructor <;> omega
  refine ⟨inWord_hundreds hlow hhigh hpos hle, inWord_rest hlow hhigh hpos, hextra, hroom,
    fun hfits => ?_⟩
  rw [hroom.int64_eq, headroom, hextra.int64_eq] at hfits
  rw [scaled, hextra.int64_eq]
  constructor <;> omega

end

/-- **The overhead is exact, and saturates.**  No operation on the way overflows. -/
theorem overhead_scaling_exact (cc : LiveCC) {pct maxBW inputBW : ℤ} (hmax : maxBW ≤ 0)
    (hpos : 0 < inputBW) (hle : inputBW ≤ maxInt) :
    (Controller.updateBandwidth (Controller.setOverhead cc pct) maxBW inputBW).maxBW =
        min maxInt (inputBW + inputBW * max 0 (min pct 100) / 100) ∧
      FitsWords (Controller.setOverhead cc pct).overhead inputBW := by
  show (updateBandwidth { cc with overhead := max 0 (min pct 100) } maxBW inputBW).maxBW = _ ∧
    FitsWords (max 0 (min pct 100)) inputBW
  have hlow : 0 ≤ max 0 (min pct 100) := le_max_left _ _
  have hhigh : max 0 (min pct 100) ≤ 100 := by omega
  generalize max 0 (min pct 100) = o at *
  have hfits := fitsWords hlow hhigh hpos hle
  have hextra : int64 (extra o inputBW) = inputBW * o / 100 :=
    hfits.extra.int64_eq.trans (extra_eq hlow hhigh hpos hle)
  refine ⟨?_, hfits⟩
  unfold updateBandwidth
  rw [if_neg hmax.not_gt, if_pos hpos]
  by_cases hover : int64 (headroom o inputBW) < inputBW
  · simp only [if_pos hover]
    rw [hfits.headroom.int64_eq, headroom, hextra] at hover
    omega
  · have hsum := hfits.scaled hover
    simp only [if_neg hover, hsum.int64_eq]
    rw [InWord, scaled, hextra] at hsum
    rw [scaled, hextra]
    omega

/-- The largest rate with an overhead of a quarter, and a rate that leaves room for it. -/
theorem overhead_scaling_exact_saturated :
    (Controller.updateBandwidth (Controller.setOverhead (new 0 1316) 25) 0 maxInt).maxBW = maxInt ∧
      FitsWords 25 maxInt ∧
      (Controller.updateBandwidth
        (Controller.setOverhead (new 0 1316) 25) 0 1234567).maxBW = 1543208 := by
  obtain ⟨hvalue, hfits⟩ :=
    @overhead_scaling_exact (new 0 1316) 25 0 maxInt le_rfl (by decide) le_rfl
  refine ⟨hvalue.trans (by decide), hfits, ?_⟩
  exact (@overhead_scaling_exact (new 0 1316) 25 0 1234567 le_rfl (by decide) (by decide)).1.trans
    (by decide)

end LiveCC

end SrtGo.Congestion
