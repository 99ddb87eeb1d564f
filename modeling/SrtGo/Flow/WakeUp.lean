import SrtGo.Core.Host
import SrtGo.Crypto.XorCipher

/-!
# No lost wake-up

A frame that waits in the send queue needs something that wakes the sender: a packet in
flight, whose acknowledgement or timeout comes, or the pacing timer.  `pump` leaves its
loop in one of three ways, and each of them leaves such a reason behind.  The timers of
the acknowledgement and of the retransmission arm themselves again whenever they fire.
-/

namespace SrtGo.Core

open Buffer Congestion Crypto Run

namespace Conn

variable {σ : Type} [Controller σ] [Primitives]

/-! ## How a connection starts -/

def initHSv4KM (c : Conn σ) (now : ℤ) : Conn σ :=
  let c := { c with key := { c.key with
    kmAnnounced := true
    kmConfirmed := false
    kmRetryKey := c.key.activeKey
    kmRetryCount := srtMaxKMRetry
    sndKmState := .securing } }
  let c := c.sendKMREQ now c.key.activeKey
  c.push (.setTimer .kmRefresh (now + c.kmRetryInterval))

omit [Controller σ] in
theorem upkeep_initHSv4KM (c : Conn σ) (now : ℤ) : Upkeep c (c.initHSv4KM now) :=
  (Upkeep.arm _ _ _).after ((upkeep_sendKMREQ _ now _).after (Upkeep.quiet rfl rfl rfl rfl))

/-- The connection of a legacy caller: it advertises itself, and with encryption it is
not reported before the peer has confirmed the key. -/
def connectHSv4 (cc : σ) (now : ℤ) (ep : EstablishParams) (hsreq : Packet) : Conn σ :=
  let c := (establish cc now ep).send hsreq
  if ep.cryptoCtx.isSome then
    initHSv4KM { c with key := { c.key with hsv4DeferConnect := true } } now
  else c.raise (.connected ep.peerSocketID)

inductive Fresh : Conn σ → Prop
  | establish (cc : σ) (now : ℤ) (ep : EstablishParams) : Fresh (establish cc now ep)
  | connectHSv4 (cc : σ) (now : ℤ) (ep : EstablishParams) (hsreq : Packet) :
      Fresh (connectHSv4 cc now ep hsreq)

/-- Something will make the sender look at its queue, or there is nothing to send. -/
def Stirs (c c' : Conn σ) : Prop :=
  c'.snd.sendQueue = [] ∨ 0 < c'.snd.sendBuf.size ∨ Arms .sndPacing c c'

/-! ## The pump -/

variable {c : Conn σ} {now : ℤ}

omit [Primitives] in
theorem one_le_window (hcc : ∀ cc : σ, 1 ≤ Controller.congestionWindow cc)
    (hflow : 1 ≤ c.params.flowWindow) :
    1 ≤ c.window := by
  have hcong := hcc c.snd.sendCC
  unfold window
  simp only
  split_ifs with hknown
  · exact le_min (by omega) hcong
  · exact le_min hflow hcong

theorem sendQueue_sendPaced (c : Conn σ) (now : ℤ) (f : Frame) :
    (c.sendPaced now f).snd.sendQueue = c.snd.sendQueue := by
  rcases sendData_cases c now c.snd.sendBuf.nextSeq
      (if f.srcTime = 0 then c.wireTS now else f.srcTime) f with
    ⟨-, h⟩ | ⟨sb, plain, wire, -, -, -, h⟩
  · exact congrArg (fun c => c.snd.sendQueue) h
  · exact h.sendQueue

/-- The loop ends with an empty queue, with a full window or with the pacing timer. -/
theorem stirs_pumpLoop (hcc : ∀ cc : σ, 1 ≤ Controller.congestionWindow cc) (now : ℤ) (fuel : ℕ) :
    ∀ c : Conn σ, 1 ≤ c.params.flowWindow → c.snd.sendQueue.length ≤ fuel →
      Stirs c (pumpLoop now fuel c) := by
  induction fuel with
  | zero =>
    intro c _ hfuel
    exact Or.inl (List.length_eq_zero_iff.mp (Nat.le_zero.mp hfuel))
  | succ fuel ih =>
    intro c hflow hfuel
    rw [pumpLoop]
    split
    next hempty => exact Or.inl hempty
    next f rest hqueue =>
      by_cases hfull : c.window ≤ c.snd.sendBuf.size
      · rw [if_pos hfull]
        have hroom := one_le_window hcc hflow
        exact Or.inr (Or.inl (by omega))
      · rw [if_neg hfull]
        by_cases hwait : c.snd.nextSendTime ≠ 0 ∧ now < c.snd.nextSendTime
        · rw [if_pos hwait]
          exact Or.inr (Or.inr (Arms.push c _ _))
        · rw [if_neg hwait]
          -- one frame leaves the queue, and the rest is up to the loop
          have hsent : ((c.dequeue rest).sendPaced now f).snd.sendQueue = rest :=
            sendQueue_sendPaced _ now f
          have horderly : Orderly c ((c.dequeue rest).sendPaced now f) :=
            (orderly_sendData _ now _ _ _)
          have hparams : ((c.dequeue rest).sendPaced now f).params = c.params :=
            (sendFrame_sendPaced _ now f).params
          have hlen : rest.length ≤ fuel := by
            rw [hqueue, List.length_cons] at hfuel
            omega
          rcases ih _ (by rw [hparams]; exact hflow) (by rw [hsent]; exact hlen) with h | h | h
          · exact Or.inl h
          · exact Or.inr (Or.inl h)
          · exact Or.inr (Or.inr (h.after horderly))

theorem stirs_pump (hcc : ∀ cc : σ, 1 ≤ Controller.congestionWindow cc) {c' : Conn σ} (now : ℤ)
    (hflow : 1 ≤ c'.params.flowWindow) (horderly : Orderly c c') : Stirs c (c'.pump now) := by
  have hparams := (sendFrame_checkSendDrop c' now).params
  have hloop := stirs_pumpLoop hcc now (c'.checkSendDrop now).snd.sendQueue.length
    (c'.checkSendDrop now) (by rw [hparams]; exact hflow) le_rfl
  rcases hloop with h | h | h
  · exact Or.inl h
  · exact Or.inr (Or.inl h)
  · exact Or.inr (Or.inr (h.after ((orderly_checkSendDrop c' now).after horderly)))

/-! ## A step -/

omit [Controller σ] [Primitives] in
theorem size_nakTimed (sb : SendBuffer) (losses : List ℕ) (now rtt rttVar : ℤ) :
    (sb.nakTimed losses now rtt rttVar).1.size = sb.size :=
  SendBuffer.nakTimed_preserves (Q := fun r => r.1.size = sb.size) (fun _ _ _ _ _ _ _ h => h) rfl

theorem SendStep.stirs (hcc : ∀ cc : σ, 1 ≤ Controller.congestionWindow cc) {i : Input}
    {c' : Conn σ} (hstep : SendStep i c c') (hflow : 1 ≤ c.params.flowWindow) :
    Stirs c c' ∨
      (c'.snd.sendQueue = c.snd.sendQueue ∧ c'.snd.sendBuf.size = c.snd.sendBuf.size) := by
  cases hstep with
  | idle h => exact Or.inr ⟨h.sendQueue, by rw [h.sendBuf]⟩
  | resend losses now rtt rttVar h =>
    refine Or.inr ⟨h.sendQueue, ?_⟩
    rw [h.sendBuf]
    exact size_nakTimed _ _ _ _ _
  | pump hb =>
    refine Or.inl (stirs_pump hcc _ ?_ (hb.pumpedFrom.emits permits_keepsTimers fun _ _ => trivial))
    rw [hb.pumpedFrom.frame.1]
    exact hflow

theorem closed_sampleInputBandwidth {id : TimerID}
    (hopen : (c.step (.timer now id)).closed = false) :
    (c.sampleInputBandwidth now).closed = false := by
  have hlive : c.closed = false := by
    by_contra hclosed
    rw [closed_step (by simpa using hclosed)] at hopen
    simp at hopen
  unfold sampleInputBandwidth
  simp only
  split_ifs <;> exact hlive

theorem arms_ack (hopen : (c.step (.timer now .ack)).closed = false) :
    Arms .ack c (c.step (.timer now .ack)) := by
  have harm : Arms .ack c (((c.sampleInputBandwidth now).sendFullACK now).push
      (.setTimer .ack (now + synInterval))) :=
    (Arms.push _ _ _).after
      ((upkeep_sendFullACK _ now).orderly.after (upkeep_sampleInputBandwidth c now).orderly)
  simp only [step, handleTimer, closed_sampleInputBandwidth hopen, Bool.false_eq_true, if_false,
    handleACKTimer]
  split_ifs
  · exact (orderly_pump _ now).arms harm
  · exact harm

theorem arms_exp (hopen : (c.step (.timer now .exp)).closed = false) :
    Arms .exp c (c.step (.timer now .exp)) := by
  simp only [step, handleTimer, closed_sampleInputBandwidth hopen, Bool.false_eq_true, if_false,
    handleEXP]
  refine (Arms.push _ _ _).after (Orderly.after ?_ (upkeep_sampleInputBandwidth c now).orderly)
  split_ifs
  · exact Orderly.after (emits_foldl_send _ _ fun _ _ => trivial) (Orderly.of_eq rfl)
  · exact Orderly.refl _

theorem stirs_sndPacing (hcc : ∀ cc : σ, 1 ≤ Controller.congestionWindow cc)
    (hflow : 1 ≤ c.params.flowWindow) (hopen : (c.step (.timer now .sndPacing)).closed = false) :
    Stirs c (c.step (.timer now .sndPacing)) := by
  have hsample := upkeep_sampleInputBandwidth c now
  simp only [step, handleTimer, closed_sampleInputBandwidth hopen, Bool.false_eq_true, if_false]
  exact stirs_pump hcc now (by rw [hsample.params]; exact hflow) hsample.orderly

end Conn

/-! ## The run -/

namespace Host

variable {σ : Type}

structure Awake (h : Host σ) : Prop where
  drained : h.drained ≤ h.conn.outputs.length
  flow : 1 ≤ h.conn.params.flowWindow
  send : h.conn.closed = false →
    h.conn.snd.sendQueue = [] ∨ 0 < h.conn.snd.sendBuf.size ∨ h.Armed .sndPacing
  ack : h.conn.closed = false → h.Armed .ack
  exp : h.conn.closed = false → h.Armed .exp

theorem Awake.drain {h : Host σ} (hawake : Awake h) : Awake h.drain where
  drained := le_rfl
  flow := hawake.flow
  send hopen := by
    rw [armed_drain]
    exact hawake.send hopen
  ack hopen := armed_drain.mpr (hawake.ack hopen)
  exp hopen := armed_drain.mpr (hawake.exp hopen)

theorem armed_start {c₀ c : Conn σ} {id : TimerID} (hempty : c₀.outputs = [])
    (harms : Conn.Arms id c₀ c)
    (horderly : c₀.Orderly c) (hid : id ≠ .handshake ∧ id ≠ .kmRefresh) :
    ({ conn := c } : Host σ).Armed id := by
  obtain ⟨os, hos, hkeep⟩ := horderly
  obtain ⟨os', hos', d, hd⟩ := harms
  rw [hempty, List.nil_append] at hos hos'
  show (c.outputs.foldl applyOutput (fun _ => none) id).isSome
  refine isSome_foldl_applyOutput_of_mem (hos' ▸ hd) ?_
  rw [hos]
  exact clearTimer_notMem hkeep hid

variable [Controller σ] [Primitives]

theorem Awake.input (hcc : ∀ cc : σ, 1 ≤ Controller.congestionWindow cc) {h : Host σ}
    (hawake : Awake h) {i : Input} (hi : i.Single) : Awake (h.step (.input i)) := by
  have hstep := Conn.sendStep h.conn hi
  have horderly := hstep.orderly
  have hbefore : (h.conn.step i).closed = false → h.conn.closed = false := by
    intro hopen
    by_contra hclosed
    rw [Conn.closed_step (by simpa using hclosed)] at hopen
    simp at hopen
  -- a timer that is armed stays so, unless it is the one that fires
  have hkeep : ∀ id, id ≠ .handshake ∧ id ≠ .kmRefresh → h.Armed id → (∀ now, i ≠ .timer now id) →
      (h.step (.input i)).Armed id := fun id hid harmed hfire =>
    harmed.step hawake.drained horderly hid hfire
  refine ⟨?_, ?_, ?_, ?_, ?_⟩
  · obtain ⟨os, hos, -⟩ := horderly
    show h.drained ≤ (h.conn.step i).outputs.length
    rw [hos, List.length_append]
    have := hawake.drained
    omega
  · show 1 ≤ (h.conn.step i).params.flowWindow
    rw [hstep.params]
    exact hawake.flow
  · intro hopen
    have harmed : Conn.Arms .sndPacing h.conn (h.conn.step i) →
        (h.step (.input i)).Armed .sndPacing :=
      fun harms => harms.armed hawake.drained horderly (by decide)
    by_cases hfire : ∃ now, i = .timer now .sndPacing
    · obtain ⟨now, rfl⟩ := hfire
      exact (Conn.stirs_sndPacing hcc hawake.flow hopen).imp_right (Or.imp_right harmed)
    · rw [not_exists] at hfire
      rcases hstep.stirs hcc hawake.flow with hstirs | ⟨hqueue, hsize⟩
      · exact hstirs.imp_right (Or.imp_right harmed)
      · rcases hawake.send (hbefore hopen) with h' | h' | h'
        · exact Or.inl (hqueue.trans h')
        · exact Or.inr (Or.inl (by rw [← hsize] at h'; exact h'))
        · exact Or.inr (Or.inr (hkeep _ (by decide) h' hfire))
  · intro hopen
    by_cases hfire : ∃ now, i = .timer now .ack
    · obtain ⟨now, rfl⟩ := hfire
      exact (Conn.arms_ack hopen).armed hawake.drained horderly (by decide)
    · exact hkeep _ (by decide) (hawake.ack (hbefore hopen)) (not_exists.mp hfire)
  · intro hopen
    by_cases hfire : ∃ now, i = .timer now .exp
    · obtain ⟨now, rfl⟩ := hfire
      exact (Conn.arms_exp hopen).armed hawake.drained horderly (by decide)
    · exact hkeep _ (by decide) (hawake.exp (hbefore hopen)) (not_exists.mp hfire)

omit [Primitives] in
theorem arms_armTimers (c : Conn σ) (now : ℤ) :
    c.Orderly (c.armTimers now) ∧ Conn.Arms .ack c (c.armTimers now) ∧
      Conn.Arms .exp c (c.armTimers now) := by
  let c₁ := c.push (.setTimer .ack (now + synInterval))
  let c₂ := if c₁.params.periodicNAK then c₁.push (.setTimer .nak (now + c₁.nakInterval)) else c₁
  let c₃ := c₂.push (.setTimer .exp (now + c₂.rto))
  have h₁ : c.Orderly c₁ := Conn.Orderly.push c trivial
  have h₂ : c₁.Orderly c₂ := by
    by_cases hnak : c₁.params.periodicNAK = true
    · simp only [c₂, if_pos hnak]
      exact Conn.Orderly.push c₁ trivial
    · simp only [c₂, if_neg hnak]
      exact Conn.Orderly.refl c₁
  have h₃ : c₂.Orderly c₃ := Conn.Orderly.push c₂ trivial
  have h₄ : c₃.Orderly (c.armTimers now) := by
    have hidle : c.armTimers now = if 0 < c₃.params.peerIdleTimeout then
        (c₃.push (.setTimer .keepalive (now + keepaliveInterval))).push
          (.setTimer .peerIdle (now + c₃.params.peerIdleTimeout)) else c₃ := rfl
    rw [hidle]
    by_cases hwatched : 0 < c₃.params.peerIdleTimeout
    · rw [if_pos hwatched]
      exact Conn.Orderly.after (Conn.Orderly.push _ (by simp [Conn.KeepsTimers]))
        (Conn.Orderly.push c₃ (by simp [Conn.KeepsTimers]))
    · rw [if_neg hwatched]
      exact Conn.Orderly.refl c₃
  have hexp : Conn.Arms .exp c c₃ := (Conn.Arms.push c₂ _ _).after (h₂.after h₁)
  exact ⟨h₄.after (h₃.after (h₂.after h₁)), (h₄.after (h₃.after h₂)).arms (Conn.Arms.push c _ _),
    h₄.arms hexp⟩

theorem awake_of_fresh (hfresh : c.Fresh) : Awake ({ conn := c } : Host σ) := by
  -- whatever follows `established` only adds outputs
  have hfrom : ∀ (cc : σ) (now : ℤ) (ep : EstablishParams) (c : Conn σ),
      (Conn.establish cc now ep).Orderly c → c.params = Conn.establishedParams now ep →
      c.snd.sendQueue = [] → Awake ({ conn := c } : Host σ) := by
    intro cc now ep c hafter hparams hqueue
    obtain ⟨horderly, hack, hexp⟩ := arms_armTimers (Conn.established cc now ep) now
    refine ⟨Nat.zero_le _, ?_, fun _ => Or.inl hqueue, fun _ => ?_, fun _ => ?_⟩
    · show 1 ≤ c.params.flowWindow
      rw [hparams]
      show 1 ≤ EstablishParams.orDefault ep.flowWindow 25600
      unfold EstablishParams.orDefault
      split_ifs <;> omega
    · exact armed_start rfl (hafter.arms hack) (hafter.after horderly) (by decide)
    · exact armed_start rfl (hafter.arms hexp) (hafter.after horderly) (by decide)
  have hupkeep : ∀ (cc : σ) (now : ℤ) (ep : EstablishParams),
      Conn.SendFrame (Conn.established cc now ep) (Conn.establish cc now ep) ∧
        (Conn.establish cc now ep).snd = (Conn.established cc now ep).snd := by
    intro cc now ep
    unfold Conn.establish Conn.armTimers
    simp only
    split_ifs <;> exact ⟨⟨rfl, rfl, rfl, rfl, rfl⟩, rfl⟩
  cases hfresh with
  | establish cc now ep =>
    obtain ⟨hframe, hsnd⟩ := hupkeep cc now ep
    exact hfrom cc now ep _ (Conn.Orderly.refl _) hframe.params (by rw [hsnd]; rfl)
  | connectHSv4 cc now ep hsreq =>
    obtain ⟨hframe, hsnd⟩ := hupkeep cc now ep
    unfold Conn.connectHSv4
    simp only
    split_ifs
    · let c := (Conn.establish cc now ep).send hsreq
      have hstart := Conn.upkeep_initHSv4KM
        { c with key := { c.key with hsv4DeferConnect := true } } now
      refine hfrom cc now ep _ (hstart.orderly.after (Conn.Orderly.push _ trivial))
        (hstart.params.trans hframe.params) ?_
      rw [hstart.sendQueue]
      show (Conn.establish cc now ep).snd.sendQueue = []
      rw [hsnd]
      rfl
    · refine hfrom cc now ep _ (Conn.Orderly.push _ trivial) hframe.params ?_
      show (Conn.establish cc now ep).snd.sendQueue = []
      rw [hsnd]
      rfl

/-- Whatever happens at a host, an open connection with something to send has a packet in
flight or the pacing timer armed, and the timers of the acknowledgement and of the
retransmission are armed, whenever the outputs have been carried out. -/
theorem wakes_up (hcc : ∀ cc : σ, 1 ≤ Controller.congestionWindow cc) {c : Conn σ}
    (hfresh : c.Fresh) (es : List HostEvent) (hsingle : ∀ e ∈ es, e.Single) :
    let h := exec Host.step { conn := c } es
    h.pending = [] → h.conn.closed = false →
      (h.conn.snd.sendQueue ≠ [] → 0 < h.conn.snd.sendBuf.size ∨ (h.timers .sndPacing).isSome) ∧
        (h.timers .ack).isSome ∧ (h.timers .exp).isSome := by
  intro h hpending hopen
  have hawake : Awake h := by
    have hallowed : ∀ (es : List HostEvent) (h : Host σ), (∀ e ∈ es, e.Single) →
        AllSteps Host.step (fun _ e => HostEvent.Single e) h es := by
      intro es
      induction es with
      | nil => exact fun _ _ => trivial
      | cons e es ih =>
          exact fun h hes => ⟨hes e List.mem_cons_self,
            ih _ fun e' he' => hes e' (List.mem_cons_of_mem e he')⟩
    refine ((hallowed es _ hsingle).allStates ?_ (awake_of_fresh hfresh)).exec
    intro h e hawake he
    cases e with
    | input i => exact hawake.input hcc he
    | drain => exact hawake.drain
  have harmed : ∀ {id}, h.Armed id → (h.timers id).isSome := by
    intro id harmed
    rw [← drain_of_pending hpending]
    exact harmed
  refine ⟨fun hqueue => ?_, harmed (hawake.ack hopen), harmed (hawake.exp hopen)⟩
  rcases hawake.send hopen with h' | h' | h'
  · exact absurd h' hqueue
  · exact Or.inl h'
  · exact Or.inr (harmed h')

end Host

section Examples

open scoped XorCipher

def crowded : List HostEvent :=
  [.input (.write 0 [1] {}), .input (.write 0 [2] {}), .drain, .input (.write 10 [3] {}), .drain]

theorem wakes_up_crowded :
    let h := exec Host.step ⟨Conn.establish (LiveCC.new 0 0) 0 { flowWindow := 1 }, fun _ => none,
      0⟩ crowded
    (h.pending = [] ∧ h.conn.closed = false ∧ h.conn.snd.sendQueue.length = 2) ∧
      (h.conn.snd.sendQueue ≠ [] → 0 < h.conn.snd.sendBuf.size ∨ (h.timers .sndPacing).isSome) ∧
        (h.timers .ack).isSome ∧ (h.timers .exp).isSome :=
  ⟨by decide +kernel, Host.wakes_up (fun _ => show (1 : ℤ) ≤ maxInt by decide) (.establish _ _ _)
    crowded (by decide)
    (by decide +kernel) (by decide +kernel)⟩

end Examples

end SrtGo.Core
