import SrtGo.Flow.SendWindow
import SrtGo.Flow.WakeUp

/-!
# Pacing

The pacing deadline is a token bucket.  Every packet that is no probe moves the deadline on by at
least the packet interval, and no packet is sent before the deadline, except for the credit that an
idle sender has kept: the deadline never stays more than `maxPacingBurst` behind.  So the deadline
itself bounds what has been sent since any moment.
-/

namespace SrtGo.Core

open Buffer Congestion Crypto Run

/-! ## The token bucket -/

def deadlineAfter (deadline now interval : ℤ) : ℤ :=
  if deadline = 0 ∨ maxPacingBurst < now - deadline then now + interval else deadline + interval

theorem deadlineAfter_nonneg {deadline now interval : ℤ} (hnow : 0 < now) (hinterval : 0 ≤ interval)
    (h : 0 ≤ deadline) : 0 ≤ deadlineAfter deadline now interval := by
  unfold deadlineAfter
  split_ifs <;> omega

/-- What the deadline says about a window that starts at `t` and takes `len`: `k - n` packets have
been sent in it, `n` being the number before. -/
structure Credit (step t len : ℤ) (n : ℕ) (deadline : ℤ) (k : ℕ) : Prop where
  nonneg : 0 ≤ deadline
  spent : k = n ∨ 0 < deadline ∧ ((k : ℤ) - n) * step ≤ deadline - t + maxPacingBurst
  bound : ((k : ℤ) - n) * step ≤ len + maxPacingBurst + step

namespace Credit

variable {step t len deadline now interval : ℤ} {n k : ℕ}

theorem start (hstep : 0 < step) (hlen : 0 ≤ len) (h : 0 ≤ deadline) :
    Credit step t len n deadline n := by
  refine ⟨h, Or.inl rfl, ?_⟩
  rw [sub_self, zero_mul]
  unfold maxPacingBurst
  omega

theorem probe (h : Credit step t len n deadline k) (hnow : 0 < now) (hinterval : 0 ≤ interval) :
    Credit step t len n (deadlineAfter deadline now interval) k := by
  refine ⟨deadlineAfter_nonneg hnow hinterval h.nonneg, h.spent.imp_right fun hspent => ?_, h.bound⟩
  unfold deadlineAfter maxPacingBurst at *
  split_ifs <;> omega

theorem packet (h : Credit step t len n deadline k) (hstep : 0 < step)
    (hpos : 0 < now) (hstart : t ≤ now) (hstop : now ≤ t + len) (hdue : deadline = 0 ∨
      deadline ≤ now)
    (hinterval : step ≤ interval) : Credit step t len n (deadlineAfter deadline now interval)
    (k + 1) := by
  have hnonneg := h.nonneg
  have hcount : (((k + 1 : ℕ) : ℤ) - n) * step = ((k : ℤ) - n) * step + step := by
    push_cast
    ring
  -- the first packet of the window finds at most the credit of an idle sender
  have hspent : ((k : ℤ) - n) * step = 0 ∨ 0 < deadline ∧
      ((k : ℤ) - n) * step ≤ deadline - t + maxPacingBurst :=
    h.spent.imp_left fun hk => by rw [hk, sub_self, zero_mul]
  refine ⟨deadlineAfter_nonneg hpos (by omega) hnonneg, Or.inr ?_, ?_⟩
  · rw [hcount]
    unfold deadlineAfter maxPacingBurst at *
    split_ifs <;> omega
  · rw [hcount]
    unfold maxPacingBurst at *
    omega

/-- **The bound.**  The number of packets in the window. -/
theorem count_le (h : Credit step t len n deadline k) (hstep : 0 < step) :
    (k : ℤ) ≤ n + 1 + (len + maxPacingBurst) / step := by
  have hquot : (k : ℤ) - n - 1 ≤ (len + maxPacingBurst) / step := by
    rw [Int.le_ediv_iff_mul_le hstep, sub_mul, one_mul]
    linarith [h.bound]
  linarith

end Credit

/-! ## What the sender is told

After every frame the pump asks the controller whether the packet is a probe, and which interval to
keep after it.  A run is judged by these answers, one for each frame that leaves the queue.
-/

/-- What becomes of a frame: the packet that is sent of it, unless the buffer is full, and what the
controller answers then. -/
structure Departure where
  sent : Option Transmission
  probe : Bool
  interval : ℤ

/-- How many packets are sent that are no probes. -/
def pacedCount (ds : List Departure) : ℕ := ds.countP fun d => d.sent.isSome && !d.probe

namespace Conn

variable {σ : Type} [Controller σ] [Primitives] {c c' : Conn σ} {step : ℤ}

omit [Primitives] in
def departure (c c' : Conn σ) : Departure :=
  { sent := c'.history[c.history.length]?
    probe := Controller.isProbePacket c'.snd.sendCC
    interval := Controller.packetInterval c'.snd.sendCC }

def pumpDepartures (now : ℤ) : ℕ → Conn σ → List Departure
  | 0, _ => []
  | fuel + 1, c =>
    match c.snd.sendQueue with
    | [] => []
    | f :: rest =>
      if c.window ≤ c.snd.sendBuf.size then []
      else if c.snd.nextSendTime ≠ 0 ∧ now < c.snd.nextSendTime then []
      else
        let c' := (c.dequeue rest).sendPaced now f
        c.departure c' :: pumpDepartures now fuel c'

def atPump (c : Conn σ) : Input → Option (Conn σ)
  | .write now payload opts => if c.closed then none else some (c.enqueue now payload opts)
  | .packet now p =>
    if c.closed = false ∧ p.header.isControl = true ∧ p.header.controlType = .ack then
      match CIFACK.unmarshalCIF p.data with
      | .error _ => none
      | .ok ack =>
        some (if p.data.length = 4 then (c.noteAlive now).afterLiteACK now
          ack.lastACKPacketSequenceNumber
          else (c.noteAlive now).afterFullACK now p.header.typeSpecific ack)
    else none
  | .timer now .ack =>
    let c := c.sampleInputBandwidth now
    let c' := (c.sendFullACK now).push (.setTimer .ack (now + synInterval))
    if c.closed = false ∧ (0 < c'.params.sendDropThresh ∨ c'.snd.msgTTLActive = true) then
      some c' else none
  | .timer now .sndPacing =>
    let c := c.sampleInputBandwidth now
    if c.closed then none else some c
  | _ => none

def departures (c : Conn σ) : List Input → List Departure
  | [] => []
  | i :: is =>
    (match c.atPump i with
      | none => []
      | some b =>
        pumpDepartures i.now (b.checkSendDrop i.now).snd.sendQueue.length
          (b.checkSendDrop i.now)) ++
      (c.step i).departures is

omit [Primitives] in
theorem history_handleNAK (c : Conn σ) (now : ℤ) (p : Packet) :
    (c.handleNAK now p).history = c.history ∧ (c.handleNAK now p).snd.nextSendTime =
      c.snd.nextSendTime := by
  unfold handleNAK
  split
  · exact ⟨rfl, rfl⟩
  · rename_i losses _
    simp only
    split_ifs <;> rw [foldl_send_eq] <;> exact ⟨rfl, rfl⟩

theorem step_eq_pump (c : Conn σ) {i : Input} (hi : i.Single) :
    (∃ b, c.atPump i = some b ∧ PumpedFrom c b ∧ c.step i = b.pump i.now) ∨
      c.atPump i = none ∧ (c.step i).history = c.history ∧ (c.step i).snd.nextSendTime =
        c.snd.nextSendTime := by
  have hidle : ∀ {c' : Conn σ}, Upkeep c c' → c'.history = c.history ∧
      c'.snd.nextSendTime = c.snd.nextSendTime :=
    fun h => ⟨h.history, h.nextSendTime⟩
  cases i with
  | write now payload opts =>
    by_cases hclosed : c.closed = true
    · exact Or.inr ⟨by simp [atPump, hclosed], by simp [Conn.step, writeMsg, hclosed],
        by simp [Conn.step, writeMsg, hclosed]⟩
    · exact Or.inl ⟨_, by simp [atPump, hclosed], .write now payload opts, by simp [Conn.step,
        writeMsg, hclosed, Input.now]⟩
  | writeCoordinated now payload seqNo srcTime => exact hi.elim
  | packet now p =>
    by_cases hack : c.closed = false ∧ p.header.isControl = true ∧ p.header.controlType = .ack
    · have hstep : c.step (.packet now p) = (c.noteAlive now).handleACK now p := by
        show c.handlePacket now p = _
        rw [handlePacket, if_neg (by simp [hack.1]), if_neg (by simp [hack.2.2]), if_pos hack.2.1,
          handleControl, hack.2.2]
      cases hdata : CIFACK.unmarshalCIF p.data with
      | error e =>
        have hsame : (c.noteAlive now).handleACK now p = c.noteAlive now := by
          unfold handleACK
          rw [hdata]
        rw [hstep, hsame]
        exact Or.inr ⟨by simp [atPump, hack, hdata], hidle (upkeep_noteAlive c now)⟩
      | ok ack =>
        rw [hstep, handleACK_eq hdata]
        refine Or.inl ⟨_, by simp only [atPump]; rw [if_pos hack, hdata], ?_, ?_⟩
        · split_ifs
          · exact .lite (upkeep_noteAlive c now) now _
          · exact .full (upkeep_noteAlive c now) now _ ack
        · split_ifs <;> rfl
    · refine Or.inr ⟨by simp only [atPump]; rw [if_neg hack], ?_⟩
      by_cases hclosed : c.closed = true
      · simp [Conn.step, handlePacket, hclosed]
      by_cases hs : (Input.packet now p).sends = true
      · -- a loss report sends copies only
        obtain ⟨hcontrol, htype⟩ : p.header.isControl = true ∧
            (p.header.controlType = .ack ∨ p.header.controlType = .nak) := by
              simpa [Input.sends] using hs
        have hnak : p.header.controlType = .nak :=
          htype.resolve_left fun htype => hack ⟨by simpa using hclosed, hcontrol, htype⟩
        have hstep : c.step (.packet now p) = (c.noteAlive now).handleNAK now p := by
          show c.handlePacket now p = _
          rw [handlePacket, if_neg hclosed, if_neg (by simp [hnak]), if_pos hcontrol, handleControl,
            hnak]
        rw [hstep]
        obtain ⟨hhistory, hnext⟩ := history_handleNAK (c.noteAlive now) now p
        obtain ⟨hhistory', hnext'⟩ := hidle (upkeep_noteAlive c now)
        exact ⟨hhistory.trans hhistory', hnext.trans hnext'⟩
      · exact hidle (upkeep_step (by simpa using hs) c)
  | timer now id =>
    have hsample := upkeep_sampleInputBandwidth c now
    have hack : Upkeep c (((c.sampleInputBandwidth now).sendFullACK now).push
        (.setTimer .ack (now + synInterval))) :=
      ((Upkeep.arm _ _ _).after (upkeep_sendFullACK _ now)).after hsample
    by_cases hclosed : (c.sampleInputBandwidth now).closed = true
    · have hstep : c.step (.timer now id) = c.sampleInputBandwidth now := by
        simp [Conn.step, handleTimer, hclosed]
      rw [hstep]
      refine Or.inr ⟨?_, hidle hsample⟩
      cases id <;> simp [atPump, hclosed]
    have hopen : (c.sampleInputBandwidth now).closed = false := by simpa using hclosed
    cases id with
    | ack =>
      have hstep : c.step (.timer now .ack) = (c.sampleInputBandwidth now).handleACKTimer now := by
        simp [Conn.step, handleTimer, hopen]
      rw [hstep, handleACKTimer]
      simp only [atPump, hopen, true_and]
      split_ifs
      · exact Or.inl ⟨_, rfl, .upkeep hack, rfl⟩
      · exact Or.inr ⟨rfl, hidle hack⟩
    | sndPacing =>
      exact Or.inl ⟨_, by simp [atPump, hopen], .upkeep hsample, by simp [Conn.step, handleTimer,
        hopen, Input.now]⟩
    | _ => exact Or.inr ⟨rfl, hidle (upkeep_step rfl c)⟩
  | keepAlive now => exact Or.inr ⟨rfl, hidle (upkeep_step rfl c)⟩
  | shutdown now => exact Or.inr ⟨rfl, hidle (upkeep_step rfl c)⟩

/-! ## One pump -/

theorem departure_spec (c : Conn σ) (now : ℤ) (f : Frame) (rest : List Frame) :
    ((c.dequeue rest).sendPaced now f).history =
        c.history ++ (c.departure ((c.dequeue rest).sendPaced now f)).sent.toList ∧
      ((c.dequeue rest).sendPaced now f).snd.nextSendTime = deadlineAfter c.snd.nextSendTime now
        (if (c.departure ((c.dequeue rest).sendPaced now f)).probe then 0
          else (c.departure ((c.dequeue rest).sendPaced now f)).interval) := by
  set b := (c.dequeue rest).sendOne now f with hb
  have hpaced : ((c.dequeue rest).sendPaced now f) = b.pace now b.sendInterval := rfl
  rw [hpaced]
  have hsent : (c.departure (b.pace now b.sendInterval)).sent = b.history[c.history.length]? := rfl
  rw [hsent]
  rcases sendData_cases (c.dequeue rest) now c.snd.sendBuf.nextSeq
      (if f.srcTime = 0 then c.wireTS now else f.srcTime) f with
    ⟨-, hsame⟩ | ⟨sb, plain, wire, -, -, -, hkeep⟩
  · -- the buffer is full, and the frame is lost
    have hlost : b = c.dequeue rest := hsame
    have hhistory : b.history = c.history := by rw [hlost]; rfl
    have hnext : b.snd.nextSendTime = c.snd.nextSendTime := by rw [hlost]; rfl
    refine ⟨?_, by rw [← hnext]; rfl⟩
    show b.history = _
    simp [hhistory]
  · have hhistory : b.history = c.history ++ [⟨c.key.cryptoCtx, plain, wire⟩] := hkeep.history
    have hnext : b.snd.nextSendTime = c.snd.nextSendTime := hkeep.nextSendTime
    refine ⟨?_, by rw [← hnext]; rfl⟩
    show b.history = _
    simp [hhistory]

theorem history_pumpLoop (now : ℤ) (fuel : ℕ) (c : Conn σ) :
    (pumpLoop now fuel c).history = c.history ++ (pumpDepartures now fuel c).filterMap
      (·.sent) := by
  induction fuel generalizing c with
  | zero => exact (List.append_nil _).symm
  | succ fuel ih =>
    rw [pumpLoop, pumpDepartures]
    cases hqueue : c.snd.sendQueue with
    | nil => exact (List.append_nil _).symm
    | cons f rest =>
      simp only
      split_ifs
      · exact (List.append_nil _).symm
      · exact (List.append_nil _).symm
      · rw [ih, (departure_spec c now f rest).1, List.append_assoc, List.filterMap_cons]
        cases (c.departure ((c.dequeue rest).sendPaced now f)).sent <;> rfl

section

variable {Q : ℤ → ℕ → Prop} {now : ℤ}

/-- What every frame keeps of the deadline and the count, the pump keeps. -/
theorem pacing_pumpLoop (hstep : 0 < step)
    (hsend : ∀ deadline k interval, Q deadline k → deadline = 0 ∨ deadline ≤ now → 0 ≤ interval →
      Q (deadlineAfter deadline now interval) k ∧
        (step ≤ interval → Q (deadlineAfter deadline now interval) (k + 1)))
    (fuel : ℕ) (c : Conn σ) {k : ℕ}
    (hmin : ∀ d ∈ pumpDepartures now fuel c, d.probe = false → step ≤ d.interval)
    (h : Q c.snd.nextSendTime k) :
    Q (pumpLoop now fuel c).snd.nextSendTime (k + pacedCount (pumpDepartures now fuel c)) := by
  induction fuel generalizing c k with
  | zero => exact h
  | succ fuel ih =>
    rw [pumpDepartures] at hmin ⊢
    rw [pumpLoop]
    cases hqueue : c.snd.sendQueue with
    | nil => exact h
    | cons f rest =>
      rw [hqueue] at hmin
      simp only at hmin ⊢
      split_ifs at hmin ⊢ with hfull hwait
      · exact h
      · exact h
      · -- one frame leaves: it moves the deadline, and counts unless it is a probe
        set c' := (c.dequeue rest).sendPaced now f with hc'
        have hnext := (departure_spec c now f rest).2
        rw [← hc'] at hnext
        have hrest : ∀ d ∈ pumpDepartures now fuel c', d.probe = false → step ≤ d.interval :=
          fun d hd => hmin d (List.mem_cons_of_mem _ hd)
        have hfirst := hmin (c.departure c') List.mem_cons_self
        have hinterval : 0 ≤ if (c.departure c').probe then 0 else (c.departure c').interval := by
          split_ifs with hprobe
          · exact le_rfl
          · exact hstep.le.trans (hfirst (by simpa using hprobe))
        obtain ⟨hskip, hcount⟩ := hsend _ k _ h (by omega) hinterval
        rw [← hnext] at hskip hcount
        rw [pacedCount, List.countP_cons, ← pacedCount]
        by_cases hpaced : ((c.departure c').sent.isSome && !(c.departure c').probe) = true
        · have hprobe : (c.departure c').probe = false := by
            simpa using (Bool.and_eq_true_iff.mp hpaced).2
          rw [if_pos hpaced, Nat.add_comm _ 1, ← Nat.add_assoc]
          refine ih c' hrest (hcount ?_)
          rw [hprobe]
          exact hfirst hprobe
        · rw [if_neg hpaced, Nat.add_zero]
          exact ih c' hrest hskip

end

/-! ## Runs -/

theorem Fresh.nextSendTime_eq (h : Fresh c) : c.snd.nextSendTime = 0 := by
  have hestablish : ∀ (cc : σ) (now : ℤ) (ep : EstablishParams),
      (Conn.establish cc now ep).snd.nextSendTime = 0 := by
    intro cc now ep
    rw [establish_eq]
    rfl
  cases h with
  | establish cc now ep => exact hestablish cc now ep
  | connectHSv4 cc now ep hsreq =>
    unfold Conn.connectHSv4
    simp only
    split_ifs
    · exact (upkeep_initHSv4KM _ now).nextSendTime.trans (hestablish cc now ep)
    · exact hestablish cc now ep

omit [Controller σ] [Primitives] in
theorem checkSendDrop_pacing (c : Conn σ) (now : ℤ) :
    (c.checkSendDrop now).snd.nextSendTime = c.snd.nextSendTime ∧ (c.checkSendDrop now).history =
      c.history := by
  unfold checkSendDrop
  simp only
  split_ifs <;> exact ⟨rfl, rfl⟩

theorem history_exec (c : Conn σ) (is : List Input) (hsingle : ∀ i ∈ is, i.Single) :
    (exec Conn.step c is).history = c.history ++ (c.departures is).filterMap (·.sent) := by
  induction is generalizing c with
  | nil => exact (List.append_nil _).symm
  | cons i is ih =>
    rw [exec, ih _ fun j hj => hsingle j (List.mem_cons_of_mem i hj), departures,
      List.filterMap_append, ← List.append_assoc]
    congr 1
    rcases c.step_eq_pump (hsingle i List.mem_cons_self) with ⟨b, hb, hfrom, hstep⟩ | ⟨hnone,
      hhistory, -⟩
    · rw [hstep, hb]
      show (pumpLoop _ _ _).history = _
      rw [history_pumpLoop, (checkSendDrop_pacing b i.now).2, hfrom.frame.2.1]
    · rw [hnone, hhistory]
      exact (List.append_nil _).symm

theorem pacing_exec {Q : ℤ → ℕ → Prop} (hstep : 0 < step) {T : Input → Prop}
    (hsend : ∀ i, T i → ∀ deadline k interval, Q deadline k → deadline = 0 ∨ deadline ≤ i.now →
      0 ≤ interval →
      Q (deadlineAfter deadline i.now interval) k ∧
        (step ≤ interval → Q (deadlineAfter deadline i.now interval) (k + 1)))
    (is : List Input) (his : ∀ i ∈ is, i.Single ∧ T i) (c : Conn σ) {k : ℕ}
    (hmin : ∀ d ∈ c.departures is, d.probe = false → step ≤ d.interval)
    (h : Q c.snd.nextSendTime k) :
    Q (exec Conn.step c is).snd.nextSendTime (k + pacedCount (c.departures is)) := by
  induction is generalizing c k with
  | nil => exact h
  | cons i is ih =>
    obtain ⟨hsingle, hT⟩ := his i List.mem_cons_self
    rw [departures] at hmin ⊢
    rw [exec, pacedCount, List.countP_append, ← pacedCount, ← pacedCount, ← Nat.add_assoc]
    refine ih (fun j hj => his j (List.mem_cons_of_mem i hj)) _
      (fun d hd => hmin d (List.mem_append_right _ hd)) ?_
    rcases c.step_eq_pump hsingle with ⟨b, hb, hfrom, hpump⟩ | ⟨hnone, -, hnext⟩
    · rw [hb] at hmin ⊢
      rw [hpump]
      refine pacing_pumpLoop hstep (hsend i hT) _ _ (fun d hd => hmin d (List.mem_append_left _ hd))
        ?_
      rw [(checkSendDrop_pacing b i.now).1, hfrom.frame.2.2]
      exact h
    · rw [hnone, hnext]
      exact h

theorem departures_append (c : Conn σ) (is js : List Input) :
    c.departures (is ++ js) = c.departures is ++ (exec Conn.step c is).departures js := by
  induction is generalizing c with
  | nil => rfl
  | cons i is ih => rw [List.cons_append, departures, departures, ih, exec, List.append_assoc]

/-- **Pacing conformance.**  Whenever the controller does not mark a packet as a probe, it asks
for an interval of at least `step`.  Then in any part of a run that takes no longer than `len`,
the number of packets sent for the first time that are not marked is bounded by the intervals that
fit into it and the burst. -/
theorem pacing_conformance (hstep : 0 < step) (hfresh : Fresh c) (before during : List Input)
    (hsingle : ∀ i ∈ before ++ during, i.Single ∧ 0 < i.now)
    (hmin : ∀ d ∈ c.departures (before ++ during), d.probe = false → step ≤ d.interval)
    {t len : ℤ} (hlen : 0 ≤ len) (hwindow : ∀ i ∈ during, t ≤ i.now ∧ i.now ≤ t + len) :
    (exec Conn.step c (before ++ during)).history =
        (exec Conn.step c before).history ++ ((exec Conn.step c before).departures during).filterMap
          (·.sent) ∧
      (pacedCount ((exec Conn.step c before).departures during) : ℤ) ≤ 1 + (len + maxPacingBurst) /
        step := by
  rw [departures_append] at hmin
  -- up to the window, only the sign of the deadline matters
  have hstart : 0 ≤ (exec Conn.step c before).snd.nextSendTime :=
    pacing_exec (Q := fun deadline _ => 0 ≤ deadline) hstep (T := fun i => 0 < i.now)
      (fun i hi deadline k interval h _ hinterval =>
        ⟨deadlineAfter_nonneg hi hinterval h, fun _ => deadlineAfter_nonneg hi hinterval h⟩) before
      (fun i hi => hsingle i (List.mem_append_left _ hi)) c (k := 0)
      (fun d hd => hmin d (List.mem_append_left _ hd)) hfresh.nextSendTime_eq.ge
  rw [exec_append]
  generalize exec Conn.step c before = c₁ at hstart hmin ⊢
  refine ⟨history_exec c₁ during fun i hi => (hsingle i (List.mem_append_right _ hi)).1, ?_⟩
  have hcredit := pacing_exec (Q := Credit step t len 0) hstep
    (T := fun i => 0 < i.now ∧ t ≤ i.now ∧ i.now ≤ t + len)
    (fun i hi deadline k interval h hdue hinterval =>
      ⟨h.probe hi.1 hinterval, h.packet hstep hi.1 hi.2.1 hi.2.2 hdue⟩) during
    (fun i hi => ⟨(hsingle i (List.mem_append_right _ hi)).1,
      (hsingle i (List.mem_append_right _ hi)).2,
      hwindow i hi⟩) c₁ (fun d hd => hmin d (List.mem_append_right _ hd))
        (Credit.start hstep hlen hstart)
  have hcount := hcredit.count_le hstep
  rw [Nat.zero_add] at hcount
  simpa using hcount

end Conn

section Examples

open scoped XorCipher

def slowSender : Conn LiveCC := Conn.establish (LiveCC.new 0 0) 0 { maxBW := 100000 }

def sixWrites : List Input := List.replicate 6 (.write 1000 [1] {}) ++ [.timer 15000 .sndPacing]

/-- Of six packets written within fourteen milliseconds two are sent beside the probe. -/
theorem pacing_conformance_live :
    (pacedCount (slowSender.departures sixWrites) : ℤ) ≤ 1 + (14000 + maxPacingBurst) / 13000 ∧
      pacedCount (slowSender.departures sixWrites) = 2 :=
  ⟨(@Conn.pacing_conformance _ _ _ slowSender 13000 (by decide) (.establish _ 0 _) [] sixWrites
    (by decide)
    (by decide +kernel) 1000 14000 (by decide) (by decide)).2, by decide +kernel⟩

end Examples

end SrtGo.Core
