import SrtGo.Buffer.RecvFollows
import SrtGo.Core.Host
import SrtGo.Filter.Extent
import SrtGo.Flow.TruthfulReports

/-!
# The playout of a live receiver

A live receiver delivers a packet when its delivery time has come, in the order of the
sequence numbers, and skips a gap once the packet behind it is due.  Between the packets it
relies on the playout timer: as long as a packet waits in the buffer the timer has to be
armed, or nothing would deliver the packet.

An observer keeps the position of the head, and writes down the position of every packet that
is delivered.  The timer may be replaced between any two events, so that nothing depends on
what delivery times it gives.
-/

namespace SrtGo.Core

open Buffer Bytes Congestion Crypto SrtGo.Seq SrtGo.Filter Run RecvBuffer

def Event.number? : Event → Option ℕ
  | .dataReceived _ seqNo _ _ => some seqNo
  | _ => none

theorem Event.number?_of_not_isData {e : Event} (h : e.isData = false) : e.number? = none := by
  cases e <;> first | rfl | simp [Event.isData] at h

namespace Conn

variable {σ : Type} {c c' c'' : Conn σ} {s m : ℕ} {p : Packet}

/-- The packets at the `n` positions from `s` on are delivered, in this order. -/
def Delivers (s n : ℕ) (c c' : Conn σ) : Prop :=
  ∃ es, c'.events = c.events ++ es ∧ es.filterMap Event.number? = (List.range' s n).map wrap

theorem Delivers.of_news (h : News c c') (s : ℕ) : Delivers s 0 c c' := by
  obtain ⟨es, hes, hdata⟩ := h
  exact ⟨es, hes, List.filterMap_eq_nil_iff.mpr fun e he => Event.number?_of_not_isData
    (hdata e he)⟩

variable {n : ℕ} {now : ℤ}

theorem Delivers.after (h : Delivers s n c' c'') (hevents : c'.events = c.events) :
    Delivers s n c c'' := by
  obtain ⟨es, hes, hnumbers⟩ := h
  exact ⟨es, hevents ▸ hes, hnumbers⟩

/-! ## Playing -/

theorem readTSBPD_eq_some {rb rb' : RecvBuffer} {deliveryTime : ℕ → ℤ}
    (h : rb.readTSBPD now deliveryTime = (rb', some p)) :
    (rb.entryAt rb.startSeq).state = .available ∧ p = (rb.entryAt rb.startSeq).pkt ∧
      deliveryTime p.header.timestamp ≤ now ∧ rb' = rb.takeHead := by
  unfold readTSBPD at h
  simp only at h
  split_ifs at h with hstate htime
  · simp at h
  · simp at h
  · obtain ⟨hrb, hp⟩ := Prod.mk.inj h
    obtain rfl := Option.some.inj hp
    exact ⟨not_not.mp hstate, rfl, not_lt.mp htime, hrb.symm⟩

structure Played (s n m : ℕ) (c c' : Conn σ) : Prop where
  le : s + n ≤ max s m
  follows : c'.rcv.recvBuf.Follows RecvBuffer.NumberAt (s + n) m
  delivers : Delivers s n c c'
  outputs : c'.outputs = c.outputs
  live : c'.rcv.tsbpdTimer.isSome = c.rcv.tsbpdTimer.isSome

theorem Played.refl (h : c.rcv.recvBuf.Follows NumberAt s m) : Played s 0 m c c :=
  ⟨le_max_left _ _, h, Delivers.of_news (News.of_eq rfl) s, rfl, rfl⟩

theorem Played.cons (h : c.rcv.recvBuf.Follows NumberAt s m) {timer : Tsbpd.Timer} {rb : RecvBuffer}
    (hread : c.rcv.recvBuf.readTSBPD now timer.deliveryTime = (rb, some p))
    (hrest : Played (s + 1) n m
      (((c.setRecvBuf rb).modifyTimer (·.updateWrap p.header.timestamp)).emitData p) c') :
    Played s (n + 1) m c c' := by
  obtain ⟨havailable, rfl, -, rfl⟩ := readTSBPD_eq_some hread
  have hlt := h.lt_of_held (Or.inl havailable)
  have hnumber :
      (c.rcv.recvBuf.entryAt c.rcv.recvBuf.startSeq).pkt.header.sequenceNumber = wrap s :=
    h.placed.head havailable
  obtain ⟨es, hes, hnumbers⟩ := hrest.delivers
  have hle := hrest.le
  refine ⟨by omega, ?_, ⟨[Event.delivery (c.rcv.recvBuf.entryAt c.rcv.recvBuf.startSeq).pkt] ++ es,
    ?_, ?_⟩,
    hrest.outputs, hrest.live.trans ?_⟩
  · rw [show s + (n + 1) = s + 1 + n by omega]
    exact hrest.follows
  · rw [← List.append_assoc]
    exact hes
  · simp only [List.singleton_append, List.filterMap_cons, Event.delivery, Event.number?,
      hnumbers, hnumber, List.range'_succ, List.map_cons]
  · simp [modifyTimer, emitData, raise, setRecvBuf]

theorem playLoop_played (now : ℤ) (fuel : ℕ) (h : c.rcv.recvBuf.Follows NumberAt s m) :
    ∃ n, Played s n m c (playLoop now fuel c) := by
  induction fuel generalizing c s with
  | zero => exact ⟨0, Played.refl h⟩
  | succ fuel ih =>
    rw [playLoop]
    split
    · exact ⟨0, Played.refl h⟩
    · split
      · exact ⟨0, Played.refl h⟩
      · rename_i timer htimer rb p hread
        have hnext : rb.Follows NumberAt (s + 1) m := by
          obtain ⟨havailable, -, -, rfl⟩ := readTSBPD_eq_some hread
          exact h.takeHead havailable
        obtain ⟨n, hrest⟩ := ih (c := ((c.setRecvBuf rb).modifyTimer
          (·.updateWrap p.header.timestamp)).emitData p) hnext
        exact ⟨n + 1, hrest.cons h hread⟩

/-- What the playout delivers, and that it arms the timer for what remains. -/
theorem deliverTSBPD_spec (now : ℤ) (hlive : c.rcv.tsbpdTimer.isSome = true)
    (h : c.rcv.recvBuf.Follows NumberAt s m) :
    ∃ s' n, s ≤ s' ∧ s' + n ≤ max s m ∧
      (c.deliverTSBPD now).rcv.recvBuf.Follows NumberAt (s' + n) m ∧
      Delivers s' n c (c.deliverTSBPD now) ∧ (c.deliverTSBPD now).rcv.tsbpdTimer.isSome = true ∧
      ∀ i, ((c.deliverTSBPD now).rcv.recvBuf.entries i).state = .available →
        Arms .tsbpd c (c.deliverTSBPD now) := by
  obtain ⟨timer, htimer⟩ := Option.isSome_iff_exists.mp hlive
  obtain ⟨s₁, hs₁, hs₁', hskipped⟩ :=
    h.edits (edits_dropTooLate c.rcv.recvBuf now timer.deliveryTime)
  obtain ⟨n, hn, hplayed, hdelivers, houtputs, hlive'⟩ :=
    playLoop_played (c := c.skipTooLate now timer) now (c.skipTooLate now timer).recvSpan hskipped
  obtain ⟨timer', htimer'⟩ := Option.isSome_iff_exists.mp (hlive'.trans hlive)
  have heq : c.deliverTSBPD now =
      (playLoop now (c.skipTooLate now timer).recvSpan (c.skipTooLate now timer)).armPlayout := by
    rw [deliverTSBPD, htimer]
  rw [heq]
  generalize playLoop now (c.skipTooLate now timer).recvSpan (c.skipTooLate now timer) = c₁ at *
  have houtputs : c₁.outputs = c.outputs := houtputs
  have hdelivers : Delivers s₁ n c c₁ := hdelivers.after rfl
  have hframe : c₁.armPlayout.rcv = c₁.rcv ∧ c₁.armPlayout.events = c₁.events := by
    unfold armPlayout
    split <;> exact ⟨rfl, rfl⟩
  refine ⟨s₁, n, hs₁, by omega, by rwa [hframe.1], ?_,
    by rw [hframe.1, htimer']; rfl, fun i hi => ?_⟩
  · obtain ⟨es, hes, hnumbers⟩ := hdelivers
    exact ⟨es, hframe.2.trans hes, hnumbers⟩
  · rw [hframe.1] at hi
    obtain ⟨ts, hts⟩ := Option.isSome_iff_exists.mp (hplayed.isSome_peek hi)
    have harm : c₁.armPlayout = c₁.push (.setTimer .tsbpd (timer'.deliveryTime ts)) := by
      rw [armPlayout, htimer', hts]
    rw [harm]
    exact (Arms.push c₁ .tsbpd _).after (Orderly.of_eq houtputs)

/-! ## What arrives -/

structure Fed (c c' : Conn σ) : Prop where
  follows : ∀ s m, c.rcv.recvBuf.Follows RecvBuffer.NumberAt s m →
    ∃ m', c'.rcv.recvBuf.Follows RecvBuffer.NumberAt s m'
  live : c'.rcv.tsbpdTimer.isSome = c.rcv.tsbpdTimer.isSome
  events : c'.events = c.events
  orderly : Orderly c c'

theorem Fed.of_recvBuf (hbuf : c'.rcv.recvBuf = c.rcv.recvBuf)
    (hlive : c'.rcv.tsbpdTimer.isSome = c.rcv.tsbpdTimer.isSome) (hevents : c'.events = c.events)
    (horderly : Orderly c c') : Fed c c' :=
  ⟨fun _ m h => ⟨m, hbuf ▸ h⟩, hlive, hevents, horderly⟩

theorem Fed.refl (c : Conn σ) : Fed c c := .of_recvBuf rfl rfl rfl (Orderly.refl c)

theorem Fed.after (h' : Fed c' c'') (h : Fed c c') : Fed c c'' := by
  refine ⟨fun s m hfollows => ?_, h'.live.trans h.live, h'.events.trans h.events,
    h'.orderly.after h.orderly⟩
  obtain ⟨m', hm'⟩ := h.follows s m hfollows
  exact h'.follows s m' hm'

theorem Book.fed (h : Book c c') : Fed c c' :=
  .of_recvBuf h.recvBuf (by rw [h.tsbpdTimer]) h.events (Orderly.of_eq h.outputs)

theorem fed_insert (c : Conn σ) (hp : p.WellFormed) (now : ℤ) :
    Fed c (c.setRecvBuf (c.rcv.recvBuf.insert p now).1) :=
  ⟨fun _ _ h => h.insert hp now, rfl, rfl, Orderly.of_eq rfl⟩

theorem Reports.fed (h : Reports c c') : Fed c c' := by
  refine .of_recvBuf ?_ ?_ ?_ (h.permitted permits_keepsTimers) <;> rw [h.rest]

section
variable [Primitives]

theorem fed_insertRecovered (c : Conn σ) (now : ℤ) {rec : List RecoveredPacket}
    (hrec : ∀ rp ∈ rec, Valid rp.seqNo) : Fed c (c.insertRecovered now rec) := by
  unfold insertRecovered
  induction rec generalizing c with
  | nil => exact Fed.refl c
  | cons rp rec ih =>
    refine (ih (c.insertOne now rp) fun x hx => hrec x (List.mem_cons_of_mem rp hx)).after ?_
    unfold insertOne
    split
    · exact Fed.refl c
    · rename_i p hdec
      refine fed_insert c ?_ now
      have hvalid := hrec rp List.mem_cons_self
      rw [Packet.WellFormed, header_of_decrypt hdec]
      exact hvalid

theorem fed_feedReceiver (c : Conn σ) (now : ℤ) (p : Packet) : Fed c (c.feedReceiver now p) := by
  unfold feedReceiver
  split
  · exact Fed.refl c
  · exact (fed_insertRecovered _ now fun rp hrp => FECReceiver.valid_of_mem_recovered _ _ _ _ _
      _ hrp).after
      (.of_recvBuf rfl rfl rfl (Orderly.of_eq rfl))

variable [Controller σ]

theorem handleData_fed (c : Conn σ) (now : ℤ) (hp : p.WellFormed) :
    c.handleData now p = c ∨ ∃ c₁, Fed c c₁ ∧ c.handleData now p = c₁.deliverNow now := by
  have hreceive : c.receiveData now p = c ∨ ∃ c₁, Fed c c₁ ∧
      c.receiveData now p = c₁.deliverNow now := by
    unfold receiveData
    split
    · exact Or.inl rfl
    · rename_i plain hdec
      have hplain : plain.WellFormed := by
        rw [Packet.WellFormed, header_of_decrypt hdec]
        exact hp
      simp only
      split_ifs
      · exact Or.inl rfl
      · refine Or.inr ⟨_, ?_, rfl⟩
        have hstored := fed_insert c hplain now
        have hnoted : Fed (c.setRecvBuf (c.rcv.recvBuf.insert plain now).1)
            ((c.setRecvBuf (c.rcv.recvBuf.insert plain now).1).noteArrival now plain) :=
          .of_recvBuf rfl rfl rfl (Orderly.of_eq rfl)
        have hanchored : ∀ c' : Conn σ, Fed c' (c'.anchor now plain.header.timestamp) := by
          intro c'
          unfold anchor
          split
          · exact Fed.refl c'
          · rename_i timer htimer
            exact .of_recvBuf rfl (by rw [htimer]; rfl) rfl (Orderly.of_eq rfl)
        have hlite : ∀ c' : Conn σ, Fed c' (c'.checkLiteACK now) := by
          intro c'
          unfold checkLiteACK
          split_ifs
          · exact .of_recvBuf rfl rfl rfl ⟨[_], rfl, by simp [KeepsTimers]⟩
          · exact Fed.refl c'
        exact (hlite _).after ((reports_reportLosses _ now _ _).fed.after
          ((fed_feedReceiver _ now p).after
          ((hanchored _).after (hnoted.after hstored))))
  unfold handleData
  split
  · exact hreceive
  · rename_i fec hfec
    split_ifs
    · refine Or.inr ⟨_, ?_, rfl⟩
      exact (reports_emitNAK _ now _).fed.after ((fed_insertRecovered _ now
        fun rp hrp => FECReceiver.valid_of_mem_recovered _ _ _ _ _ _ hrp).after
          (.of_recvBuf rfl rfl rfl (Orderly.of_eq rfl)))
    · exact hreceive

/-! ## One step -/

theorem orderly_step (c : Conn σ) (i : Input) : Orderly c (c.step i) := by
  have hsingle : i.Single → Orderly c (c.step i) := fun h => (sendStep c h).orderly
  cases i with
  | writeCoordinated now payload seqNo srcTime =>
    show Orderly c (c.writeCoordinated now payload seqNo srcTime)
    unfold writeCoordinated
    simp only
    split_ifs
    · exact Orderly.refl c
    · exact (orderly_sendData _ now seqNo srcTime _).after (Orderly.of_eq rfl)
    · exact (orderly_sendData _ now seqNo srcTime _).after (Orderly.of_eq rfl)
  | _ => exact hsingle trivial

/-- The head goes from `s` on without completing a period, and the positions it goes past at the
end of its way are delivered. -/
structure Plays (s : ℕ) (c c' : Conn σ) : Prop where
  live : c'.rcv.tsbpdTimer.isSome = true
  delivers : ∃ s' n m, s ≤ s' ∧ s' + n < s + 2 ^ 31 ∧
    c'.rcv.recvBuf.Follows RecvBuffer.NumberAt (s' + n) m ∧ Delivers s' n c c'

omit [Primitives] [Controller σ] in
theorem plays_of_recvIdle (h : RecvIdle c c') (hlive : c.rcv.tsbpdTimer.isSome = true)
    (hfollows : c.rcv.recvBuf.Follows NumberAt s m) : Plays s c c' :=
  ⟨h.live.trans hlive, s, 0, m, le_rfl, by omega, h.recvBuf ▸ hfollows, Delivers.of_news h.news s⟩

variable {i : Input} {c₀ : Conn σ}

/-- A step ends in a playout, which arms the timer for what remains, or leaves the buffer alone. -/
theorem plays_step (hlive : c.rcv.tsbpdTimer.isSome = true) (h : c.rcv.recvBuf.Follows NumberAt s m)
    (hi : i.WellFormed) : Plays s c (c.step i) ∧ ((c.step i).closed = false →
      (∀ now, i ≠ .timer now .tsbpd) ∧ (c.step i).rcv.recvBuf = c.rcv.recvBuf ∨
      ∀ j, ((c.step i).rcv.recvBuf.entries j).state = .available → Arms .tsbpd c (c.step i)) := by
  -- a playout in a state that has been fed
  have hdeliver : ∀ (c₁ : Conn σ) (now : ℤ) {s₁ m₁ : ℕ}, s ≤ s₁ → max s₁ m₁ < s + 2 ^ 31 →
      c₁.rcv.recvBuf.Follows NumberAt s₁ m₁ → c₁.rcv.tsbpdTimer.isSome = true →
      c₁.events = c.events → Orderly c c₁ → Plays s c (c₁.deliverTSBPD now) ∧
        ((c₁.deliverTSBPD now).closed = false →
        (∀ now, i ≠ .timer now .tsbpd) ∧ (c₁.deliverTSBPD now).rcv.recvBuf = c.rcv.recvBuf ∨
        ∀ j, ((c₁.deliverTSBPD now).rcv.recvBuf.entries j).state = .available →
          Arms .tsbpd c (c₁.deliverTSBPD now)) := by
    intro c₁ now s₁ m₁ hs₁ hmax hfollows hlive₁ hevents horderly
    obtain ⟨s', n, hs', hn, hfollows', hdelivers, hlive', harms⟩ :=
      deliverTSBPD_spec now hlive₁ hfollows
    exact ⟨⟨hlive', s', n, m₁, by omega, by omega, hfollows', hdelivers.after hevents⟩,
      fun _ => Or.inr fun j hj => (harms j hj).after horderly⟩
  have hend := h.end_le
  have hmax : max s m < s + 2 ^ 31 := by omega
  have hnow : ∀ {c₁ : Conn σ} (now : ℤ), c₁.rcv.tsbpdTimer.isSome = true →
      c₁.deliverNow now = c₁.deliverTSBPD now := fun now hlive₁ => by rw [deliverNow, if_pos hlive₁]
  by_cases hplay : ∃ now, i = .timer now .tsbpd
  · obtain ⟨now, rfl⟩ := hplay
    have hbook := book_sampleInputBandwidth c now
    cases hclosed : c.closed with
    | true =>
      have hstep : c.step (.timer now .tsbpd) = c.sampleInputBandwidth now := by
        show c.handleTimer now .tsbpd = _
        simp [handleTimer, hbook.closed, hclosed]
      rw [hstep]
      exact ⟨plays_of_recvIdle hbook.recvIdle hlive h,
        fun hopen => by simp [hbook.closed, hclosed] at hopen⟩
    | false =>
      have hstep : c.step (.timer now .tsbpd) = (c.sampleInputBandwidth now).deliverTSBPD now := by
        show c.handleTimer now .tsbpd = _
        simp [handleTimer, hbook.closed, hclosed]
      rw [hstep]
      exact hdeliver (c.sampleInputBandwidth now) now le_rfl hmax (hbook.recvBuf ▸ h)
        (by rw [hbook.tsbpdTimer]; exact hlive) hbook.events (Orderly.of_eq hbook.outputs)
  · push Not at hplay
    -- the packet is ignored, or the step is idle
    have hidle : ∀ {c' : Conn σ}, RecvIdle c c' → Plays s c c' ∧ (c'.closed = false →
        (∀ now, i ≠ .timer now .tsbpd) ∧ c'.rcv.recvBuf = c.rcv.recvBuf ∨
        ∀ j, (c'.rcv.recvBuf.entries j).state = .available → Arms .tsbpd c c') :=
      fun hc' => ⟨plays_of_recvIdle hc' hlive h, fun _ => Or.inl ⟨hplay, hc'.recvBuf⟩⟩
    have hstep := recvStep c i
    generalize c.step i = c' at hstep ⊢
    cases hstep with
    | idle hc' => exact hidle hc'
    | play hplay' hopen hbook => exact absurd hplay' (hplay _)
    | @data c₁ now p hpacket hopen hdata hbook =>
      have hp : p.WellFormed := by
        rw [hpacket] at hi
        exact hi
      rcases handleData_fed c₁ now hp with hignored | ⟨c₂, hfed, heq⟩
      · rw [hignored]
        exact hidle hbook.recvIdle
      · have hfed' := hfed.after hbook.fed
        obtain ⟨m', hm'⟩ := hfed'.follows s m h
        have hend' := hm'.end_le
        rw [heq, hnow now (hfed'.live.trans hlive)]
        exact hdeliver _ now le_rfl (by omega) hm' (hfed'.live.trans hlive) hfed'.events
          hfed'.orderly
    | @drop c₁ now p hpacket hopen htype hbook =>
      unfold handleDropReq
      split
      · exact hidle hbook.recvIdle
      · rename_i dr hdr
        rw [← hbook.recvBuf] at h
        obtain ⟨s₁, m₁, hs₁, hmax₁, hfollows⟩ := h.drop (valid_inc dr.lastSeqNo)
        have hlive₁ :
          ((c₁.setRecvBuf (c₁.rcv.recvBuf.drop (inc dr.lastSeqNo)).buffer).modifyTimer fun t =>
            (c₁.rcv.recvBuf.drop (inc dr.lastSeqNo)).timestamps.foldl Tsbpd.Timer.updateWrap
              t).rcv.tsbpdTimer.isSome = true := by
          simpa [modifyTimer, setRecvBuf, hbook.tsbpdTimer] using hlive
        simp only
        rw [hnow now hlive₁]
        exact hdeliver _ now hs₁ hmax₁ hfollows hlive₁ hbook.events (Orderly.of_eq hbook.outputs)

/-! ## Delivery times -/

/-- What is delivered is the packet at the head, and its delivery time has come, by the timer
that is in force before it is taken. -/
def OnTime (now : ℤ) (c c' : Conn σ) : Prop :=
  ∀ e ∈ c'.events.drop c.events.length, e.isData = true →
    let entry := c.rcv.recvBuf.entryAt c.rcv.recvBuf.startSeq
    entry.state = .available ∧ e = Event.delivery entry.pkt ∧
      ∃ timer, c.rcv.tsbpdTimer = some timer ∧ timer.deliveryTime entry.pkt.header.timestamp ≤ now

omit [Primitives] [Controller σ] in
theorem onTime_of_news (h : News c c') (now : ℤ) : OnTime now c c' := by
  obtain ⟨es, hes, hdata⟩ := h
  intro e he hisData
  rw [hes, List.drop_left] at he
  simp [hdata e he] at hisData

theorem Shift.onTime (h : Shift i c₀ c c') (hlive : c.rcv.tsbpdTimer.isSome = true) :
    c'.rcv.tsbpdTimer.isSome = true ∧ OnTime i.now c c' := by
  have hnone : c.rcv.tsbpdTimer ≠ none := fun h => by simp [h] at hlive
  have hquiet : ∀ {c' : Conn σ}, c'.rcv.tsbpdTimer.isSome = c.rcv.tsbpdTimer.isSome → News c c' →
      c'.rcv.tsbpdTimer.isSome = true ∧ OnTime i.now c c' :=
    fun htimer hnews => ⟨htimer.trans hlive, onTime_of_news hnews i.now⟩
  have hframe : ∀ {c' : Conn σ}, SendFrame c c' → c'.rcv.tsbpdTimer.isSome = true ∧
      OnTime i.now c c' :=
    fun h => hquiet (by rw [h.rcv]) (News.of_eq h.events)
  cases h with
  | deliver h hd =>
    cases h with
    | read htimer hread => exact absurd htimer hnone
    | message htimer hmode hread => exact absurd htimer hnone
    | messageEnd htimer hread => exact absurd htimer hnone
    | @play timer rb p htimer hread =>
      refine ⟨by simp [modifyTimer, emitData, raise, setRecvBuf, htimer], fun e he _ => ?_⟩
      obtain ⟨havailable, rfl, htime, -⟩ := readTSBPD_eq_some hread
      have hevents : ((c.setRecvBuf rb).modifyTimer fun x => x.updateWrap (c.rcv.recvBuf.entryAt
          c.rcv.recvBuf.startSeq).pkt.header.timestamp).events.length = c.events.length := rfl
      rw [emitData, raise] at he
      simp only [← hevents, List.drop_left, List.mem_singleton] at he
      exact ⟨havailable, he, timer, htimer, htime⟩
    | skip htimer => exact hquiet rfl (News.of_eq rfl)
    | arm deadline => exact hquiet rfl (News.of_eq rfl)
  | drop hi htype hdr => exact hquiet (by simp [modifyTimer, setRecvBuf]) (News.of_eq rfl)
  | book h => exact hquiet (by rw [h.tsbpdTimer]) (News.of_eq h.events)
  | report h hsource =>
    rw [h.rest]
    exact hquiet rfl (News.of_eq rfl)
  | notify he hclosed => exact hquiet rfl (News.raise c he)
  | anchor hi hdata htimer => exact hquiet (by rw [htimer]; rfl) (News.of_eq rfl)
  | echo a rttSample hi htype => exact hquiet Option.isSome_map (News.of_eq rfl)
  | keepalive hi htype => exact hquiet Option.isSome_map (News.of_eq rfl)
  | packet seqNo ts f => exact hframe (sendFrame_sendData _ _ _ _ _)
  | response hi htype hos hes => exact hquiet rfl (News.of_response rfl hes)
  | _ => exact hquiet rfl (News.of_eq rfl)

theorem Move.onTime (h : Move i c₀ c c') (hlive : c.rcv.tsbpdTimer.isSome = true) :
    c'.rcv.tsbpdTimer.isSome = true ∧ OnTime i.now c c' := by
  rcases h.shift with rfl | h
  · exact ⟨hlive, onTime_of_news (News.of_eq rfl) i.now⟩
  · exact h.onTime hlive

theorem moves_onTime (hlive : c.rcv.tsbpdTimer.isSome = true) (i : Input) :
    Relation.ReflTransGen (fun c₁ c₂ => Move i c c₁ c₂ ∧ OnTime i.now c₁ c₂) c (c.step i) := by
  have hchain : ∀ {c' : Conn σ}, Moves i c c c' → c'.rcv.tsbpdTimer.isSome = true ∧
      Relation.ReflTransGen (fun c₁ c₂ => Move i c c₁ c₂ ∧ OnTime i.now c₁ c₂) c c' := by
    intro c' hmoves
    induction hmoves with
    | refl => exact ⟨hlive, .refl⟩
    | tail _ hmove ih =>
      obtain ⟨hlive', hontime⟩ := hmove.onTime ih.1
      exact ⟨hlive', ih.2.tail ⟨hmove, hontime⟩⟩
  exact (hchain (moves_step c i)).2

end

end Conn

/-! ## Runs -/

/-- A host with the position of the head of its connection and the positions that have been
delivered. -/
structure Playback (σ : Type) where
  host : Host σ
  head : ℕ
  played : List ℕ := []

/-- What happens at a live receiver.  Its playout timer may be set anew at any time. -/
inductive LiveEvent where
  | input (i : Input)
  | drain
  | retime (timer : Tsbpd.Timer)

def LiveEvent.WellFormed : LiveEvent → Prop
  | .input i => i.WellFormed
  | _ => True

namespace Playback

variable {σ : Type}

section
variable [Controller σ] [Primitives]

def step (p : Playback σ) : LiveEvent → Playback σ
  | .input i =>
    let c := p.host.conn
    let c' := c.step i
    let start := c.rcv.recvBuf.startSeq
    { host := p.host.step (.input i)
      head := p.head + ahead start c'.rcv.recvBuf.startSeq
      played := p.played ++
        ((c'.events.drop c.events.length).filterMap Event.number?).map fun n =>
          p.head + ahead start n }
  | .drain => { p with host := p.host.drain }
  | .retime timer =>
    { p with host := { p.host with conn := p.host.conn.modifyTimer fun _ => timer } }

def Timely (p : Playback σ) : LiveEvent → Prop
  | .input i =>
    Relation.ReflTransGen (fun c c' => Conn.Move i p.host.conn c c' ∧ Conn.OnTime i.now c c')
      p.host.conn (p.host.conn.step i)
  | _ => True

end

/-- The packets have been delivered in order, no packet that waits is ever skipped, and the timer
is armed as long as there is one. -/
structure Steady (p : Playback σ) : Prop where
  inOrder : p.played.Pairwise (· < ·)
  keeps : ∀ now deliveryTime i, (p.host.conn.rcv.recvBuf.entries i).state = .available →
    (p.host.conn.rcv.recvBuf.dropTooLate now deliveryTime).1.entries i =
      p.host.conn.rcv.recvBuf.entries i
  armed : p.host.conn.closed = false →
    (∃ i, (p.host.conn.rcv.recvBuf.entries i).state = .available) → p.host.Armed .tsbpd

structure Sound (p : Playback σ) : Prop where
  follows : ∃ m, p.host.conn.rcv.recvBuf.Follows RecvBuffer.NumberAt p.head m
  live : p.host.conn.rcv.tsbpdTimer.isSome = true
  drained : p.host.drained ≤ p.host.conn.outputs.length
  behind : ∀ x ∈ p.played, x < p.head
  inOrder : p.played.Pairwise (· < ·)
  armed : p.host.conn.closed = false →
    (∃ i, (p.host.conn.rcv.recvBuf.entries i).state = .available) → p.host.Armed .tsbpd

theorem Sound.steady {p : Playback σ} (h : p.Sound) : p.Steady :=
  ⟨h.inOrder, fun now deliveryTime _ hi => dropTooLate_entries_of_available _ now deliveryTime hi,
    h.armed⟩

section
variable [Controller σ] [Primitives] {p : Playback σ}

omit [Controller σ] [Primitives] in
theorem played_eq {c c' : Conn σ} {s s' : ℕ} (hstart : c.rcv.recvBuf.startSeq = wrap s)
    (hs : s ≤ s') (hn : s' + n < s + 2 ^ 31) (hdelivers : Conn.Delivers s' n c c') :
    (((c'.events.drop c.events.length).filterMap Event.number?).map
      fun q => s + ahead c.rcv.recvBuf.startSeq q) = List.range' s' n := by
  obtain ⟨es, hes, hnumbers⟩ := hdelivers
  rw [hes, List.drop_left, hnumbers, List.map_map, hstart]
  conv_rhs => rw [← List.map_id (List.range' s' n)]
  refine List.map_congr_left fun x hx => ?_
  obtain ⟨hx, hx'⟩ := List.mem_range'_1.mp hx
  show s + ahead (wrap s) (wrap x) = x
  rw [ahead_wrap (by omega) (by omega)]
  omega

theorem Sound.input (h : p.Sound) (hi : i.WellFormed) : (p.step (.input i)).Sound := by
  obtain ⟨m, hfollows⟩ := h.follows
  have hstart := hfollows.placed.startSeq_eq
  obtain ⟨⟨hlive, s', n, m', hs', hn, hfollows', hdelivers⟩, harms⟩ :=
    Conn.plays_step h.live hfollows hi
  have horderly := Conn.orderly_step p.host.conn i
  have hhead : (p.step (.input i)).head = s' + n := by
    show p.head + ahead _ _ = _
    rw [hstart, hfollows'.placed.startSeq_eq, ahead_wrap (by omega) hn]
    omega
  have hplayed : (p.step (.input i)).played = p.played ++ List.range' s' n :=
    congrArg (p.played ++ ·) (played_eq hstart hs' hn hdelivers)
  refine ⟨⟨m', hhead ▸ hfollows'⟩, hlive, ?_, fun x hx => ?_, ?_, fun hopen ⟨j, hj⟩ => ?_⟩
  · obtain ⟨os, hos, -⟩ := horderly
    show p.host.drained ≤ (p.host.conn.step i).outputs.length
    have := h.drained
    rw [hos, List.length_append]
    omega
  · rw [hplayed] at hx
    rw [hhead]
    rcases List.mem_append.mp hx with hold | hnew
    · have := h.behind x hold
      omega
    · exact (List.mem_range'_1.mp hnew).2
  · rw [hplayed]
    refine List.pairwise_append.mpr ⟨h.inOrder, List.pairwise_lt_range', fun x hx y hy => ?_⟩
    have := h.behind x hx
    have := (List.mem_range'_1.mp hy).1
    omega
  · rcases harms hopen with ⟨hfire, hsame⟩ | harm
    · -- the packet was there before the step
      have hopen' : p.host.conn.closed = false := by
        by_contra hclosed
        have hclosed' : (p.host.conn.step i).closed = true :=
          Conn.closed_step (by simpa using hclosed)
        have hopen : (p.host.conn.step i).closed = false := hopen
        simp [hclosed'] at hopen
      have hj' : (p.host.conn.rcv.recvBuf.entries j).state = .available := hsame ▸ hj
      exact (h.armed hopen' ⟨j, hj'⟩).step h.drained horderly (by simp) hfire
    · exact (harm j hj).armed h.drained horderly (by simp)

theorem Sound.drain (h : p.Sound) : (p.step .drain).Sound :=
  ⟨h.follows, h.live, le_rfl, h.behind, h.inOrder,
    fun hopen hwaits => Host.armed_drain.mpr (h.armed hopen hwaits)⟩

theorem Sound.retime (h : p.Sound) (timer : Tsbpd.Timer) : (p.step (.retime timer)).Sound := by
  refine { h with live := ?_ }
  show (p.host.conn.rcv.tsbpdTimer.map _).isSome = true
  rw [Option.isSome_map]
  exact h.live

theorem Sound.step (h : p.Sound) {e : LiveEvent} (he : e.WellFormed) : (p.step e).Sound := by
  cases e with
  | input i => exact h.input he
  | drain => exact h.drain
  | retime timer => exact h.retime timer

theorem Sound.timely (h : p.Sound) (e : LiveEvent) : p.Timely e := by
  cases e with
  | input i => exact Conn.moves_onTime h.live i
  | drain => trivial
  | retime timer => trivial

omit [Primitives] in
def start (cc : σ) (now : ℤ) (ep : EstablishParams) : Playback σ :=
  { host := { conn := Conn.establish cc now ep }, head := ep.recvISN }

omit [Primitives] in
theorem sound_start (cc : σ) (now : ℤ) {ep : EstablishParams} (hlive : ep.live = true)
    (hcap : ep.rcvCap ≤ 2 ^ 29) (hisn : Valid ep.recvISN) : (start cc now ep).Sound := by
  obtain ⟨os, hos⟩ := Conn.exists_establish_eq cc now ep
  have hrcv : (Conn.establish cc now ep).rcv = (Conn.established cc now ep).rcv := by
    rw [hos]
  refine ⟨⟨ep.recvISN, ?_⟩, ?_, Nat.zero_le _, by simp [start], List.Pairwise.nil, ?_⟩
  · show (Conn.establish cc now ep).rcv.recvBuf.Follows _ _ _
    rw [hrcv]
    exact follows_new hcap hisn _
  · show (Conn.establish cc now ep).rcv.tsbpdTimer.isSome = true
    rw [hrcv]
    simp [Conn.established, hlive]
  · rintro - ⟨i, hi⟩
    have hi : ((Conn.establish cc now ep).rcv.recvBuf.entries i).state = .available := hi
    rw [hrcv] at hi
    exact absurd hi (by simp [Conn.established, RecvBuffer.new, setMessageAPI])

/-- A live receiver whose ring has at most `2 ^ 29` slots delivers in order and on time, skips no
packet that it holds and keeps its timer armed, whatever arrives and is dropped and whatever
delivery times its timer gives. -/
theorem plays_in_order_on_time {ep : EstablishParams} (hlive : ep.live = true)
    (hcap : ep.rcvCap ≤ 2 ^ 29)
    (hisn : Valid ep.recvISN) (cc : σ) (now : ℤ) (es : List LiveEvent) (hes : ∀ e ∈ es,
      e.WellFormed) :
    AllStates step Steady (start cc now ep) es ∧ AllSteps step Timely (start cc now ep) es := by
  have hsteps : AllSteps step (fun _ e => e.WellFormed) (start cc now ep) es :=
    allSteps_of_forall_mem hes
  have hsound := sound_start cc now hlive hcap hisn
  constructor
  · exact (hsteps.allStates (Q := Sound) (fun p e hp he => hp.step he) hsound).mono fun p hp =>
      hp.steady
  · exact hsteps.allSteps (Q := Sound) (fun p e hp he => hp.step he) (fun p e hp he => hp.timely e)
      hsound

end

end Playback

section Examples

open scoped XorCipher

/-- A live receiver gets the numbers 0 and 2.  When their time has come it delivers 0 and arms the
timer again; when that fires it skips the gap and delivers 2. -/
theorem plays_in_order_on_time_gap :
    let p := exec Playback.step (Playback.start (LiveCC.new 0 0) 0 (smallParams true))
      [.input (dataInput 1000 0), .input (dataInput 2000 2), .drain, .input (.timer 200000 .tsbpd),
        .drain, .input (.timer 200001 .tsbpd)]
    p.Steady ∧ p.played = [0, 2] := by
  refine ⟨?_, by decide +kernel⟩
  have hcap : (smallParams true).rcvCap ≤ 2 ^ 29 := by decide
  refine (Playback.plays_in_order_on_time rfl hcap (by decide) (LiveCC.new 0 0) 0 _ ?_).1.exec
  simp only [List.forall_mem_cons, LiveEvent.WellFormed]
  exact ⟨by decide, by decide, trivial, trivial, trivial, trivial, by simp⟩

def hugeParams : EstablishParams := { live := true, flowWindow := 2 ^ 30, bufferCapacity := 2 ^ 30 }

/-- A receiver with room for `2 ^ 30` packets is asked to drop the numbers up to 9, and then gets
the number `2 ^ 30 - 1`.  The packet waits in the buffer, beyond what the code takes to be its
end, and nothing arms the timer. -/
theorem waiting_packet_without_timer :
    ¬AllStates Playback.step Playback.Steady (Playback.start (LiveCC.new 0 0) 0 hugeParams)
      [.input (dropInput 1000 9), .input (dataInput 2000 (2 ^ 30 - 1)), .drain] := by
  intro h
  have harmed := h.exec.armed (by decide +kernel) ⟨2 ^ 30 - 1, by decide +kernel⟩
  exact absurd harmed (by unfold Host.Armed; decide +kernel)

end Examples

end SrtGo.Core
