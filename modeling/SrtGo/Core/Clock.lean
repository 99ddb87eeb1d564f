import SrtGo.Core.Sides

/-!
# The playout clock in a step

What the moves of a step do to the playout timer of a connection.  It follows the timestamps of
the data packets that arrive, of the packets that are read or skipped, and of the echoes and
keepalives of the peer; only the last two are samples of the drift.

Two things are followed from here: a timer that does not correct the drift keeps its delay and its
anchor, and a timer that hears no timestamp of the last thirty seconds before the wrap counts no
wrap.  For the second one the packets that wait in the receive buffer matter as well, since their
timestamps are heard again when they are played out or dropped.
-/

namespace SrtGo.Core

open Buffer Congestion Crypto

namespace Conn

variable {σ : Type} {i : Input}

structure SameClock (c c' : Conn σ) : Prop where
  timer : c'.rcv.tsbpdTimer = c.rcv.tsbpdTimer
  base : c'.rcv.tsbpdBaseSet = c.rcv.tsbpdBaseSet

theorem SameClock.of_rcv {c c' : Conn σ} (h : c'.rcv = c.rcv) : SameClock c c' :=
  ⟨by rw [h], by rw [h]⟩

/-- A packet that can carry a sample of the peer's clock: an echo or a keepalive. -/
def IsSample (p : Packet) : Prop :=
  p.header.isControl = true ∧ (p.header.controlType = .ackack ∨ p.header.controlType = .keepalive)

/-- The moves by what they do to the playout timer. -/
inductive ClockMove (i : Input) : Conn σ → Conn σ → Prop
  | still {c c' : Conn σ} (h : SameClock c c') : ClockMove i c c'
  | play {c c' : Conn σ} {p : Packet} (hoffers : c.rcv.recvBuf.Offers p)
      (htimer : c'.rcv.tsbpdTimer = c.rcv.tsbpdTimer.map (·.updateWrap p.header.timestamp))
      (hbase : c'.rcv.tsbpdBaseSet = c.rcv.tsbpdBaseSet) : ClockMove i c c'
  | drop {c c' : Conn σ} {now : ℤ} {p : Packet} {dr : CIFDropReq} (hi : i = .packet now p)
      (htype : p.header.isControl = true ∧ p.header.controlType = .dropReq)
      (htimer : c'.rcv.tsbpdTimer = c.rcv.tsbpdTimer.map fun t =>
        (c.rcv.recvBuf.drop (Seq.inc dr.lastSeqNo)).timestamps.foldl Tsbpd.Timer.updateWrap t)
      (hbase : c'.rcv.tsbpdBaseSet = c.rcv.tsbpdBaseSet) : ClockMove i c c'
  | anchor (c : Conn σ) {now : ℤ} {p : Packet} (hi : i = .packet now p)
      (hdata : p.header.isControl = false) : ClockMove i c (c.anchor now p.header.timestamp)
  | sample {c c' : Conn σ} {now rttSample : ℤ} {p : Packet} (hi : i = .packet now p)
    (hp : IsSample p)
      (htimer : c'.rcv.tsbpdTimer = c.rcv.tsbpdTimer.map fun t =>
        (t.updateWrap p.header.timestamp).onACK p.header.timestamp now rttSample)
      (hbase : c'.rcv.tsbpdBaseSet = c.rcv.tsbpdBaseSet) : ClockMove i c c'

section
variable [Controller σ] [Primitives]

theorem Shift.clock {c₀ c c' : Conn σ} (h : Shift i c₀ c c') : ClockMove i c c' := by
  cases h with
  | book h => exact .still ⟨h.tsbpdTimer, h.tsbpdBaseSet⟩
  | report h hsource =>
    rw [h.rest]
    exact .still ⟨rfl, rfl⟩
  | deliver h hd =>
    cases h with
    | play htimer hread => exact .play (RecvBuffer.readTSBPD_offers hread) rfl rfl
    | _ => exact .still ⟨rfl, rfl⟩
  | drop hi htype hdr => exact .drop hi htype rfl rfl
  | anchor hi hdata htimer =>
    have hmove := ClockMove.anchor c hi hdata
    rwa [Conn.anchor, htimer] at hmove
  | echo a rttSample hi htype => exact .sample hi ⟨htype.1, Or.inl htype.2⟩ rfl rfl
  | keepalive hi htype => exact .sample hi ⟨htype.1, Or.inr htype.2⟩ rfl rfl
  | packet seqNo ts f => exact .still (SameClock.of_rcv (sendFrame_sendData _ _ _ _ _).rcv)
  | _ => exact .still ⟨rfl, rfl⟩

theorem clock_preserves {Q : Conn σ → Prop} (c : Conn σ) (i : Input) (hc : Q c)
    (hmove : ∀ c' c'', ClockMove i c' c'' → Q c' → Q c'') : Q (c.step i) :=
  step_preserves c i hc fun c' c'' h => hmove c' c'' h.clock

end

/-! ## A clock without drift correction -/

/-- A live connection with the given delay that does not correct the drift. -/
def Driftless (d : ℤ) (c : Conn σ) : Prop :=
  ∃ t, c.rcv.tsbpdTimer = some t ∧ t.delay = d ∧ t.driftEnabled = false

def Anchored (base drift : ℤ) (c : Conn σ) : Prop :=
  c.rcv.tsbpdBaseSet = true ∧
    ∀ t, c.rcv.tsbpdTimer = some t → t.timeBase = base ∧ t.driftOffset = drift

theorem SameClock.driftless {d : ℤ} {c c' : Conn σ} (h : SameClock c c') (hc : c.Driftless d) :
    c'.Driftless d := by
  obtain ⟨t, ht, hd, hdrift⟩ := hc
  exact ⟨t, h.timer.trans ht, hd, hdrift⟩

theorem SameClock.anchored {base drift : ℤ} {c c' : Conn σ} (h : SameClock c c')
    (hc : c.Anchored base drift) : c'.Anchored base drift :=
  ⟨h.base.trans hc.1, fun t ht => hc.2 t (h.timer.symm.trans ht)⟩

theorem ClockMove.driftless {d : ℤ} {c c' : Conn σ} (h : ClockMove i c c') (hc : c.Driftless d) :
    c'.Driftless d := by
  cases h with
  | still h => exact h.driftless hc
  | play hoffers htimer hbase =>
    obtain ⟨t, ht, hd, hdrift⟩ := hc
    exact ⟨_, by rw [htimer, ht]; rfl, by simp [hd], by simp [hdrift]⟩
  | drop hi htype htimer hbase =>
    obtain ⟨t, ht, hd, hdrift⟩ := hc
    exact ⟨_, by rw [htimer, ht]; rfl, by simp [hd], by simp [hdrift]⟩
  | anchor hi hdata =>
    obtain ⟨t, ht, hd, hdrift⟩ := hc
    refine ⟨_, by rw [Conn.anchor, ht], ?_, ?_⟩
    · rw [Tsbpd.Timer.delay_updateWrap]
      split_ifs <;> exact hd
    · rw [Tsbpd.Timer.driftEnabled_updateWrap]
      split_ifs <;> exact hdrift
  | sample hi hp htimer hbase =>
    obtain ⟨t, ht, hd, hdrift⟩ := hc
    rw [ht, Option.map_some, Tsbpd.Timer.onACK_of_driftless _ _ _ (by simp [hdrift])] at htimer
    exact ⟨_, htimer, by simp [hd], by simp [hdrift]⟩

theorem ClockMove.anchored {d base drift : ℤ} {c c' : Conn σ} (h : ClockMove i c c')
    (hlive : c.Driftless d) (hc : c.Anchored base drift) : c'.Anchored base drift := by
  obtain ⟨t, ht, hd, hdrift⟩ := hlive
  obtain ⟨hbase, hat⟩ := hc
  have hat := hat t ht
  cases h with
  | still h => exact h.anchored ⟨hbase, fun t' ht' => by rw [ht] at ht'; cases ht'; exact hat⟩
  | play hoffers htimer hbase' =>
    refine ⟨hbase'.trans hbase, fun t' ht' => ?_⟩
    rw [htimer, ht] at ht'
    cases ht'
    simpa using hat
  | drop hi htype htimer hbase' =>
    refine ⟨hbase'.trans hbase, fun t' ht' => ?_⟩
    rw [htimer, ht] at ht'
    cases ht'
    simpa using hat
  | anchor hi hdata =>
    -- the first packet has anchored the timer already
    rw [Conn.anchor, ht]
    refine ⟨rfl, fun t' ht' => ?_⟩
    simp only [hbase, if_true] at ht'
    cases ht'
    simpa using hat
  | sample hi hp htimer hbase' =>
    refine ⟨hbase'.trans hbase, fun t' ht' => ?_⟩
    rw [htimer, ht, Option.map_some, Tsbpd.Timer.onACK_of_driftless _ _ _ (by simp [hdrift])] at ht'
    cases ht'
    simpa using hat

variable [Controller σ] [Primitives] {d base drift : ℤ} {c : Conn σ}

theorem Driftless.step (h : c.Driftless d) (i : Input) : (c.step i).Driftless d :=
  clock_preserves c i h fun _ _ hmove hc => hmove.driftless hc

/-- Once anchored, a timer that does not correct the drift keeps its time base. -/
theorem Anchored.step (h : c.Anchored base drift) (hlive : c.Driftless d) (i : Input) :
    (c.step i).Anchored base drift := by
  have hboth : (c.step i).Driftless d ∧ (c.step i).Anchored base drift :=
    clock_preserves (Q := fun c => c.Driftless d ∧ c.Anchored base drift) c i ⟨hlive, h⟩
      fun _ _ hmove hc => ⟨hmove.driftless hc.1, hmove.anchored hc.1 hc.2⟩
  exact hboth.2

end Conn

/-! ## A clock far from the wrap -/

/-- If a packet arrives, its timestamp does not begin a wrap period. -/
def Input.FarFromWrap : Input → Prop
  | .packet _ p => Tsbpd.Timer.FarFromWrap p.header.timestamp
  | .write _ _ _ | .writeCoordinated _ _ _ _ | .timer _ _ | .keepAlive _ | .shutdown _ => True

namespace Conn

variable {σ : Type} {i : Input} {c₀ c c' : Conn σ}

/-- The timer has counted no wrap, and nothing that waits can make it begin one.  Without a filter
only packets that have arrived wait in the receive buffer. -/
structure Unwrapped (c : Conn σ) : Prop where
  fecReceiver : c.rcv.fecReceiver.isSome = false
  timer : ∀ t, c.rcv.tsbpdTimer = some t → t.Unwrapped
  waiting : ∀ p, c.rcv.recvBuf.Offers p → Tsbpd.Timer.FarFromWrap p.header.timestamp

theorem ClockMove.unwrapped (h : ClockMove i c c') (hfar : i.FarFromWrap) (hc : c.Unwrapped)
    {t' : Tsbpd.Timer} (ht' : c'.rcv.tsbpdTimer = some t') : t'.Unwrapped := by
  cases h with
  | still h => exact hc.timer t' (h.timer.symm.trans ht')
  | play hoffers htimer hbase =>
    obtain ⟨t, ht, rfl⟩ := Option.map_eq_some_iff.mp (htimer.symm.trans ht')
    rw [(hc.timer t ht).updateWrap_eq (hc.waiting _ hoffers)]
    exact hc.timer t ht
  | drop hi htype htimer hbase =>
    obtain ⟨t, ht, rfl⟩ := Option.map_eq_some_iff.mp (htimer.symm.trans ht')
    rw [(hc.timer t ht).foldl_updateWrap_eq]
    · exact hc.timer t ht
    · intro ts hts
      obtain ⟨p, hoffers, rfl⟩ := RecvBuffer.offers_of_mem_timestamps hts
      exact hc.waiting p hoffers
  | @anchor now p hi hdata =>
    subst hi
    rw [Conn.anchor] at ht'
    cases ht : c.rcv.tsbpdTimer with
    | none => simp [ht] at ht'
    | some t =>
      rw [ht] at ht'
      cases ht'
      have hbase : (if c.rcv.tsbpdBaseSet then t
          else t.setTimeBase (now - p.header.timestamp)).Unwrapped := by
        split_ifs
        · exact hc.timer t ht
        · exact ⟨(hc.timer t ht).wrapPeriod, (hc.timer t ht).wrapOffset⟩
      rw [hbase.updateWrap_eq hfar]
      exact hbase
  | sample hi hp htimer hbase =>
    subst hi
    obtain ⟨t, ht, rfl⟩ := Option.map_eq_some_iff.mp (htimer.symm.trans ht')
    rw [(hc.timer t ht).updateWrap_eq hfar]
    exact (hc.timer t ht).onACK _ _ _

theorem RecvMove.waiting [Primitives] (h : RecvMove i c₀ c c') (hfar : i.FarFromWrap)
    (hc : c.Unwrapped) {p : Packet} (hp : c'.rcv.recvBuf.Offers p) :
    Tsbpd.Timer.FarFromWrap p.header.timestamp := by
  cases h with
  | still h => exact hc.waiting p (hp.of_thins h.edits.thins)
  | store hi hkey hdata hdec =>
    subst hi
    rcases hp.of_insert with hold | rfl
    · exact hc.waiting p hold
    · rw [header_of_decrypt hdec]
      exact hfar
  | recover plain hfec => exact absurd hfec (by simp [hc.fecReceiver])
  | read hoffers h => exact hc.waiting p (hp.of_thins h.edits.thins)
  | message hmode hread h => exact hc.waiting p (hp.of_thins h.edits.thins)

theorem Unwrapped.step [Controller σ] [Primitives] (h : c.Unwrapped) (hfar : i.FarFromWrap) :
    (c.step i).Unwrapped :=
  step_preserves c i h fun _ _ hmove hc =>
    { fecReceiver := hmove.recvMove.isSome_fecReceiver.trans hc.fecReceiver
      timer := fun _ ht => hmove.clock.unwrapped hfar hc ht
      waiting := fun _ hp => hmove.recvMove.waiting hfar hc hp }

end Conn

end SrtGo.Core
