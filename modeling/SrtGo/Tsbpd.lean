import SrtGo.Seq

/-!
# Timestamp-based packet delivery

A live receiver plays each packet out at the sender's timestamp plus a fixed
delay.  Timestamps are 32-bit microseconds, so they wrap every 71 minutes; the
timer follows the wrap with a two-phase state machine.  It also corrects for the
drift between the two clocks, from samples averaged over a thousand packets.

Times are integers: the source uses signed 64-bit microseconds, which the
modelled computations do not leave.
-/

namespace SrtGo.Tsbpd

def timestampWrap : ℤ := 2 ^ 32

def maxTimestamp : ℤ := 0xFFFFFFFF

/-- Thirty seconds: how close to the wrap the wrap period begins and ends. -/
def wrapThreshold : ℤ := 30 * 1000000

def driftMaxSamples : ℕ := 1000

/-- The drift beyond which the time base itself is moved. -/
def driftMaxValue : ℤ := 5000

/-- The playout timer of a live receiver.  `firstRTT` is `-1` until the first
sample. -/
structure Timer where
  delay : ℤ
  timeBase : ℤ
  driftEnabled : Bool := true
  driftSum : ℤ := 0
  driftCount : ℕ := 0
  driftOffset : ℤ := 0
  firstRTT : ℤ := -1
  wrapPeriod : Bool := false
  wrapOffset : ℤ := 0
deriving DecidableEq, Repr, Inhabited

namespace Timer

def new (delay timeBase : ℤ) : Timer := { delay := delay, timeBase := timeBase }

def setDriftEnabled (t : Timer) (enabled : Bool) : Timer := { t with driftEnabled := enabled }

/-- The unwrapped timestamp of a packet.  During the wrap period a small
timestamp has already wrapped. -/
def fullTS (t : Timer) (pktTimestamp : ℕ) : ℤ :=
  (if t.wrapPeriod ∧ (pktTimestamp : ℤ) ≤ 2 * wrapThreshold then t.wrapOffset + timestampWrap
    else t.wrapOffset) + pktTimestamp

def deliveryTime (t : Timer) (pktTimestamp : ℕ) : ℤ :=
  t.timeBase + (t.fullTS pktTimestamp + t.delay + t.driftOffset)

def updateWrap (t : Timer) (pktTimestamp : ℕ) : Timer :=
  let ts : ℤ := pktTimestamp
  if !t.wrapPeriod then
    if ts > maxTimestamp - wrapThreshold then { t with wrapPeriod := true } else t
  else if wrapThreshold ≤ ts ∧ ts ≤ 2 * wrapThreshold then
    { t with wrapPeriod := false, wrapOffset := t.wrapOffset + timestampWrap }
  else t

/-- Close an epoch of drift samples: the average becomes the correction, and what
exceeds five milliseconds moves the time base. -/
def closeEpoch (t : Timer) : Timer :=
  let avgDrift := t.driftSum.tdiv t.driftCount
  let t := { t with driftSum := 0, driftCount := 0 }
  if avgDrift > driftMaxValue then
    { t with timeBase := t.timeBase + driftMaxValue, driftOffset := avgDrift - driftMaxValue }
  else if avgDrift < -driftMaxValue then
    { t with timeBase := t.timeBase + -driftMaxValue, driftOffset := avgDrift + driftMaxValue }
  else { t with driftOffset := avgDrift }

def driftOf (t : Timer) (pktTimestamp : ℕ) (localRecvTime rttSample : ℤ) : ℤ :=
  let rttDelta := if 0 ≤ rttSample ∧ 0 ≤ t.firstRTT then (rttSample - t.firstRTT).tdiv 2 else 0
  localRecvTime - (t.timeBase + t.fullTS pktTimestamp) - rttDelta

/-- Take a drift sample; a round-trip sample of `-1` means that none is known. -/
def onACK (t : Timer) (pktTimestamp : ℕ) (localRecvTime rttSample : ℤ) : Timer :=
  if !t.driftEnabled then t
  else
    let t := if t.firstRTT = -1 then { t with firstRTT := rttSample } else t
    let t := { t with
      driftSum := t.driftSum + t.driftOf pktTimestamp localRecvTime rttSample
      driftCount := t.driftCount + 1 }
    if driftMaxSamples ≤ t.driftCount then t.closeEpoch else t

def setTimeBase (t : Timer) (timeBase : ℤ) : Timer := { t with timeBase := timeBase }

/-! Following a wrap touches neither the anchor nor the correction. -/

section
variable (t : Timer) (ts : ℕ)

theorem updateWrap_cases : ∃ period offset, t.updateWrap ts =
    { t with wrapPeriod := period, wrapOffset := offset } := by
  unfold updateWrap
  simp only
  split_ifs
  · exact ⟨_, _, rfl⟩
  · exact ⟨t.wrapPeriod, _, rfl⟩
  · exact ⟨_, _, rfl⟩
  · exact ⟨t.wrapPeriod, _, rfl⟩

@[simp] theorem delay_updateWrap : (t.updateWrap ts).delay = t.delay := by
  obtain ⟨_, _, h⟩ := t.updateWrap_cases ts
  rw [h]

@[simp] theorem driftEnabled_updateWrap : (t.updateWrap ts).driftEnabled = t.driftEnabled := by
  obtain ⟨_, _, h⟩ := t.updateWrap_cases ts
  rw [h]

@[simp] theorem timeBase_updateWrap : (t.updateWrap ts).timeBase = t.timeBase := by
  obtain ⟨_, _, h⟩ := t.updateWrap_cases ts
  rw [h]

@[simp] theorem driftOffset_updateWrap : (t.updateWrap ts).driftOffset = t.driftOffset := by
  obtain ⟨_, _, h⟩ := t.updateWrap_cases ts
  rw [h]

end

/-! Far from the wrap there is nothing to follow. -/

/-- The timestamp does not begin a wrap period: it is not among the last thirty seconds. -/
def FarFromWrap (ts : ℕ) : Prop := (ts : ℤ) ≤ maxTimestamp - wrapThreshold

instance (ts : ℕ) : Decidable (FarFromWrap ts) :=
  inferInstanceAs (Decidable ((ts : ℤ) ≤ maxTimestamp - wrapThreshold))

structure Unwrapped (t : Timer) : Prop where
  wrapPeriod : t.wrapPeriod = false
  wrapOffset : t.wrapOffset = 0

theorem Unwrapped.updateWrap_eq {t : Timer} (h : t.Unwrapped) {ts : ℕ} (hts : FarFromWrap ts) :
    t.updateWrap ts = t := by
  have hnot : ¬(ts : ℤ) > maxTimestamp - wrapThreshold := not_lt.mpr hts
  simp [updateWrap, h.wrapPeriod, hnot]

theorem Unwrapped.foldl_updateWrap_eq {t : Timer} (h : t.Unwrapped) {tss : List ℕ}
    (htss : ∀ ts ∈ tss, FarFromWrap ts) : tss.foldl updateWrap t = t := by
  induction tss with
  | nil => rfl
  | cons ts tss ih =>
    rw [List.forall_mem_cons] at htss
    rw [List.foldl_cons, h.updateWrap_eq htss.1, ih htss.2]

theorem Unwrapped.onACK {t : Timer} (h : t.Unwrapped) (ts : ℕ) (localRecvTime rttSample : ℤ) :
    (t.onACK ts localRecvTime rttSample).Unwrapped := by
  unfold Timer.onACK closeEpoch
  simp only
  split_ifs <;> exact ⟨h.wrapPeriod, h.wrapOffset⟩

theorem foldl_updateWrap_eq {α : Type*} {f : Timer → α} (hf : ∀ t ts, f (updateWrap t ts) = f t)
    (tss : List ℕ) (t : Timer) : f (tss.foldl updateWrap t) = f t := by
  induction tss generalizing t with
  | nil => rfl
  | cons ts tss ih => exact (ih _).trans (hf t ts)

@[simp] theorem delay_foldl_updateWrap (tss : List ℕ) (t : Timer) :
    (tss.foldl updateWrap t).delay = t.delay := foldl_updateWrap_eq delay_updateWrap tss t

@[simp] theorem driftEnabled_foldl_updateWrap (tss : List ℕ) (t : Timer) :
    (tss.foldl updateWrap t).driftEnabled = t.driftEnabled :=
      foldl_updateWrap_eq driftEnabled_updateWrap tss t

@[simp] theorem timeBase_foldl_updateWrap (tss : List ℕ) (t : Timer) :
    (tss.foldl updateWrap t).timeBase = t.timeBase := foldl_updateWrap_eq timeBase_updateWrap tss t

@[simp] theorem driftOffset_foldl_updateWrap (tss : List ℕ) (t : Timer) :
    (tss.foldl updateWrap t).driftOffset = t.driftOffset :=
      foldl_updateWrap_eq driftOffset_updateWrap tss t

variable {t : Timer} {top x : ℕ}

theorem onACK_of_driftless (ts : ℕ) (now rttSample : ℤ) (h : t.driftEnabled = false) :
    t.onACK ts now rttSample = t := by
  simp [onACK, h]

/-! ## True times

A sender's clock does not wrap; only what it writes into a packet does.  As long as the
packets are less than thirty seconds apart, forwards and backwards, the timer tells the
true time of each from its phase: outside the wrap period everything recent lies between
two wraps, and inside it the wrapped timestamps are the small ones.
-/

def wrapped (x : ℕ) : ℕ := x % 2 ^ 32

/-- A true time is less than thirty seconds behind the latest one before it, and less than
thirty seconds ahead. -/
def Near (top x : ℕ) : Prop := (top : ℤ) - x < wrapThreshold ∧ (x : ℤ) - top < wrapThreshold

instance (top x : ℕ) : Decidable (Near top x) := inferInstanceAs (Decidable (_ ∧ _))

def Steady : ℕ → List ℕ → Prop
  | _, [] => True
  | top, x :: xs => Near top x ∧ Steady (max top x) xs

instance decidableSteady : (top : ℕ) → (xs : List ℕ) → Decidable (Steady top xs)
  | _, [] => isTrue trivial
  | top, x :: xs =>
    have := decidableSteady (max top x) xs
    inferInstanceAs (Decidable (_ ∧ _))

/-- The timer has counted the wraps before the latest true time, but for one that is less
than thirty seconds away on either side. -/
def Follows (top : ℕ) (t : Timer) : Prop :=
  ∃ k : ℕ, t.wrapOffset = k * timestampWrap ∧
    if t.wrapPeriod then
      (k + 1) * timestampWrap - wrapThreshold ≤ top ∧ top < (k + 1) * timestampWrap + wrapThreshold
    else (k = 0 ∨ k * timestampWrap + wrapThreshold ≤ top) ∧
      top < (k + 1) * timestampWrap - wrapThreshold

theorem Follows.outside (hperiod : t.wrapPeriod = false) {k : ℕ}
    (hoffset : t.wrapOffset = k * timestampWrap)
    (hlow : k = 0 ∨ k * timestampWrap + wrapThreshold ≤ top)
    (htop : top < (k + 1) * timestampWrap - wrapThreshold)
    (hx : k * timestampWrap ≤ x ∧ x < (k + 1) * timestampWrap) :
    Follows (max top x) (t.updateWrap (wrapped x)) := by
  have hts : (wrapped x : ℤ) = x - k * timestampWrap := by
    unfold wrapped timestampWrap at *
    omega
  by_cases hlate : (wrapped x : ℤ) > maxTimestamp - wrapThreshold
  · have hstep : t.updateWrap (wrapped x) = { t with wrapPeriod := true } := by
      simp [Timer.updateWrap, hperiod, hlate]
    refine ⟨k, by rw [hstep]; exact hoffset, ?_⟩
    simp only [hstep, if_true]
    unfold maxTimestamp timestampWrap wrapThreshold at *
    omega
  · have hstep : t.updateWrap (wrapped x) = t := by simp [Timer.updateWrap, hperiod, hlate]
    refine ⟨k, by rw [hstep]; exact hoffset, ?_⟩
    simp only [hstep, hperiod, Bool.false_eq_true, if_false]
    unfold maxTimestamp timestampWrap wrapThreshold at *
    omega

theorem Follows.updateWrap (h : Follows top t) (hx : Near top x) :
    Follows (max top x) (t.updateWrap (wrapped x)) := by
  obtain ⟨k, hoffset, hphase⟩ := h
  obtain ⟨hbehind, hahead⟩ := hx
  cases hperiod : t.wrapPeriod with
  | false =>
    simp only [hperiod, Bool.false_eq_true, if_false] at hphase
    -- nothing before the last counted wrap is recent any more
    refine Follows.outside hperiod hoffset hphase.1 hphase.2 ?_
    unfold timestampWrap wrapThreshold at *
    omega
  | true =>
    simp only [hperiod, if_true] at hphase
    by_cases hdone : wrapThreshold ≤ (wrapped x : ℤ) ∧ (wrapped x : ℤ) ≤ 2 * wrapThreshold
    · have hstep : t.updateWrap (wrapped x) =
          { t with wrapPeriod := false, wrapOffset := t.wrapOffset + timestampWrap } := by
        simp [Timer.updateWrap, hperiod, hdone]
      refine ⟨k + 1, by rw [hstep]; push_cast; linarith, ?_⟩
      simp only [hstep, Bool.false_eq_true, if_false]
      unfold timestampWrap wrapThreshold wrapped at *
      omega
    · have hstep : t.updateWrap (wrapped x) = t := by simp [Timer.updateWrap, hperiod, hdone]
      refine ⟨k, by rw [hstep]; exact hoffset, ?_⟩
      simp only [hstep, hperiod, if_true]
      unfold timestampWrap wrapThreshold wrapped at *
      omega

theorem Follows.foldl {xs : List ℕ} (h : Follows top t) (hxs : Steady top xs) :
    Follows (xs.foldl max top) ((xs.map wrapped).foldl Timer.updateWrap t) := by
  induction xs generalizing top t with
  | nil => exact h
  | cons x xs ih => exact ih (h.updateWrap hxs.1) hxs.2

theorem Follows.fullTS (h : Follows top t) (hle : x ≤ top)
    (hrecent : (top : ℤ) - x < wrapThreshold) :
    t.fullTS (wrapped x) = x := by
  obtain ⟨k, hoffset, hphase⟩ := h
  rw [Timer.fullTS, hoffset]
  cases hperiod : t.wrapPeriod with
  | false =>
    simp only [hperiod, Bool.false_eq_true, if_false, false_and, timestampWrap, wrapThreshold,
      wrapped] at hphase hrecent ⊢
    omega
  | true =>
    simp only [hperiod, if_true, true_and, timestampWrap, wrapThreshold,
      wrapped] at hphase hrecent ⊢
    split_ifs <;> omega

/-- **Every recent packet is played out at its true time.**  The timer may start anywhere
in the first period and may follow any number of wraps. -/
theorem deliveryTime_of_true_time (t₀ : Timer) (hperiod : t₀.wrapPeriod = false)
    (hoffset : t₀.wrapOffset = 0) (first : ℕ) (hfirst : first < 2 ^ 32) (xs : List ℕ)
    (hxs : Steady first xs) (x : ℕ) (hle : x ≤ xs.foldl max first)
    (hrecent : ((xs.foldl max first : ℕ) : ℤ) - x < wrapThreshold) :
    (((first :: xs).map wrapped).foldl Timer.updateWrap t₀).deliveryTime (wrapped x) =
      t₀.timeBase + x + t₀.delay + t₀.driftOffset := by
  have hstart : Follows first (t₀.updateWrap (wrapped first)) := by
    have hoffset' : t₀.wrapOffset = ((0 : ℕ) : ℤ) * timestampWrap := by simpa using hoffset
    have houtside : Follows (max 0 first) (t₀.updateWrap (wrapped first)) :=
      Follows.outside hperiod hoffset' (.inl rfl) (by decide)
        ⟨by simp, by unfold timestampWrap; omega⟩
    rwa [Nat.zero_max] at houtside
  have hfollows : Follows (xs.foldl max first)
      (((first :: xs).map wrapped).foldl Timer.updateWrap t₀) :=
    Follows.foldl hstart hxs
  rw [deliveryTime, hfollows.fullTS hle hrecent, timeBase_foldl_updateWrap, delay_foldl_updateWrap,
    driftOffset_foldl_updateWrap]
  ring

/-- Two packets on either side of a wrap. -/
theorem deliveryTime_across_wrap :
    (([4294967000, 4294968000].map wrapped).foldl Timer.updateWrap (new 120000 0)).deliveryTime
      (wrapped 4294967000) = 4295087000 := by
  have hxs : Steady 4294967000 [4294968000] := by decide
  exact deliveryTime_of_true_time (new 120000 0) rfl rfl 4294967000 (by norm_num) [4294968000] hxs
    4294967000 (by decide) (by decide)

end Timer

structure GroupTimeBase where
  timeBase : ℤ
  wrapPeriod : Bool
  drift : ℤ
deriving DecidableEq, Repr

namespace Timer

def getInternalTimeBase (t : Timer) : GroupTimeBase :=
  { timeBase := t.timeBase, wrapPeriod := t.wrapPeriod, drift := t.driftOffset }

def applyGroupTime (t : Timer) (tb : GroupTimeBase) (delay : ℤ) : Timer :=
  { t with
    timeBase := tb.timeBase
    wrapPeriod := tb.wrapPeriod
    delay := delay
    driftOffset := tb.drift }

end Timer

end SrtGo.Tsbpd
