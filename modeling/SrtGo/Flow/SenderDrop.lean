import SrtGo.Flow.Outgoing
import SrtGo.Secure.Courier

/-!
# When the sender gives up

The age at which a live sender gives up on a packet is the playout delay of the peer plus a
configured extra, but no less than a second, plus twenty milliseconds.  An extra of `-1` is to
disable this; the formula takes it for one millisecond less.

Giving up is the only way in which a packet leaves the send buffer without having been
acknowledged, and the only occasion for a request to skip packets.  A run therefore keeps every
packet until it is acknowledged as long as none gets too old, or if giving up is turned off
by its own switch.
-/

namespace SrtGo.Buffer

open SrtGo.Seq

theorem SendBuffer.Untimed.timely {sb : SendBuffer} (h : sb.Untimed) {now thresh : ℤ}
    (hage : thresh ≤ 0 ∨ ∀ i < sb.len, (sb.entries i).used = true →
      now - (sb.entries i).sentAt ≤ thresh) :
    sb.Timely now thresh := by
  intro i hi hused
  have hdeadline : SendBuffer.effectiveDeadline (sb.entries i) thresh = thresh :=
    if_neg fun hboth => absurd hboth.1 (not_lt.mpr (h i))
  rw [SendEntry.expired, hdeadline, Bool.and_eq_false_iff, decide_eq_false_iff_not,
    decide_eq_false_iff_not]
  rcases hage with hoff | hage
  · exact Or.inl (not_lt.mpr hoff)
  · exact Or.inr (not_lt.mpr (hage i hi hused))

end SrtGo.Buffer

namespace SrtGo.Core

open Buffer Congestion Crypto Run SrtGo.Seq

/-! ## The threshold and its setter -/

/-- The age at which packets are given up, for a delay of the peer and an extra in milliseconds. -/
def dropThreshold (base ms : ℤ) : ℤ := max (base + ms * 1000) 1000000 + 20 * 1000

structure Tuned (σ : Type) where
  conn : Conn σ
  tlPktDrop : Bool
  dropBaseUS : ℤ

inductive TunedInput where
  | input (i : Input)
  | setSndDropDelay (ms : ℤ)

namespace Tuned

variable {σ : Type}

def setSndDropDelay (t : Tuned σ) (ms : ℤ) : Tuned σ :=
  if !t.tlPktDrop then t
  else { t with conn := { t.conn with params := { t.conn.params with
    sendDropThresh := dropThreshold t.dropBaseUS ms } } }

variable [Controller σ]

def establish (cc : σ) (now : ℤ) (ep : EstablishParams) : Tuned σ where
  conn := Conn.establish cc now ep
  tlPktDrop := ep.live && ep.tlPktDrop
  dropBaseUS :=
    if ep.live && ep.tlPktDrop then EstablishParams.orDefault ep.peerTsbpdDelay
      ep.effectiveTsbpdDelay else 0

def step [Primitives] (t : Tuned σ) : TunedInput → Tuned σ
  | .input i => { t with conn := t.conn.step i }
  | .setSndDropDelay ms => t.setSndDropDelay ms

end Tuned

/-! ## Packets stay until they are acknowledged -/

def Output.isDropReq : Output → Bool
  | .sendPacket p _ => p.header.isControl && decide (p.header.controlType = .dropReq)
  | .setTimer _ _ => false
  | .clearTimer _ => false

/-- The input acknowledges the packet: it names a later number. -/
def Input.Acknowledges (i : Input) (p : Packet) : Prop :=
  ∃ now q ack, i = .packet now q ∧ (q.header.isControl = true ∧ q.header.controlType = .ack) ∧
    CIFACK.unmarshalCIF q.data = .ok ack ∧
    lessThan p.header.sequenceNumber ack.lastACKPacketSequenceNumber = true

def Input.Untimed : Input → Prop
  | .write _ _ opts => opts.ttl ≤ 0
  | _ => True

namespace Conn

variable {σ : Type} {c c' : Conn σ} {isn s s' : ℕ} {cell cell' : ℕ → SendEntry} {p : Packet}

def Buffered (c : Conn σ) (p : Packet) : Prop :=
  ∃ j, (c.snd.sendBuf.entries j).used = true ∧ (c.snd.sendBuf.entries j).pkt = p

/-- The step asks the peer to skip nothing, and it takes only acknowledged packets out of
the buffer. -/
def DropsNothing [Controller σ] [Primitives] (c : Conn σ) (i : Input) : Prop :=
  Emits (fun o => o.isDropReq = false) c (c.step i) ∧
    ∀ p, c.Buffered p → (c.step i).Buffered p ∨ i.Acknowledges p

theorem Numbered.buffered_or (hnum : c.Numbered isn) (h : Logged c cell isn s)
    (h' : Logged c' cell' isn s') (hgrow : c.history <+: c'.history) (hp : c.Buffered p) :
    c'.Buffered p ∨ ∃ k, s ≤ k ∧ k < s' ∧ p.header.sequenceNumber = wrap (isn + k) := by
  obtain ⟨j, hused, rfl⟩ := hp
  obtain ⟨q, hs, hn, -, hcell⟩ := h.holds.exists_position hused
  obtain ⟨k, rfl⟩ : ∃ k, q = isn + k := ⟨q - isn, by omega⟩
  have hk : k < c.history.length := by omega
  have ht : c.history[k]? = some c.history[k] := List.getElem?_eq_getElem hk
  have hwire : (cell (isn + k)).pkt = c.history[k].wire := h.wire k _ (by omega) ht
  rw [hcell, hwire]
  by_cases hlater : s' ≤ k
  · left
    have ht' : c'.history[k]? = some c.history[k] := by
      obtain ⟨new, hnew⟩ := hgrow
      rw [← hnew, List.getElem?_append_left hk, ht]
    have hk' : k < c'.history.length := (List.getElem?_eq_some_iff.mp ht').1
    have hentry := h'.holds.entryAt_wrap (p := isn + k) (by omega) (by omega)
    refine ⟨c'.snd.sendBuf.index (wrap (isn + k)), ?_, ?_⟩
    · exact (congrArg SendEntry.used hentry).trans (h'.holds.used (isn + k) (by omega) (by omega))
    · exact (congrArg SendEntry.pkt hentry).trans (h'.wire k _ hlater ht')
  · right
    exact ⟨k, by omega, not_le.mp hlater, hnum.numbered k _ ht⟩

section
variable [Controller σ] [Primitives] {i : Input}

theorem Logged.pump_of_timely (h : Logged c cell isn s) {now : ℤ}
    (htimely : c.snd.sendBuf.Timely now c.params.sendDropThresh) :
    ∃ cell', Logged (c.pump now) cell' isn s ∧ c.history <+: (c.pump now).history := by
  obtain ⟨cell', frames, new, hsent⟩ := exists_sent_pump_of_timely h.holds h.room htimely
  exact ⟨cell', h.sent le_rfl hsent, new, hsent.history.symm⟩

theorem Numbered.keeps_unacked (hnum : c.Numbered isn) (hi : i.Single)
    (htimely : c.snd.sendBuf.Timely i.now c.params.sendDropThresh) (hp : c.Buffered p) :
    (c.step i).Buffered p ∨ i.Acknowledges p := by
  obtain ⟨cell, s, h⟩ := hnum.logged
  -- a state that starts where this one does has all its packets
  have hkept : ∀ {b : Conn σ} {cell' : ℕ → SendEntry}, Logged b cell' isn s →
    c.history <+: b.history →
      b.Buffered p := by
    intro b cell' h' hgrow
    rcases hnum.buffered_or h h' hgrow hp with hin | ⟨k, hk, hlt, -⟩
    · exact hin
    · exact absurd hlt (not_lt.mpr hk)
  have hstep := sendStep c hi
  generalize c.step i = c₁ at hstep
  cases hstep with
  | idle hkeep => exact Or.inl (hkept (h.upkeep hkeep) (hkeep.history ▸ List.prefix_rfl))
  | resend losses now rtt rttVar hkeep =>
    obtain ⟨cell', hnoted⟩ := h.nakTimed losses now rtt rttVar
    have hhistory : c₁.history = c.history := hkeep.history
    exact Or.inl (hkept (hnoted.upkeep hkeep) (hhistory ▸ List.prefix_rfl))
  | @pump b hb =>
    have hpump : ∀ {s' : ℕ}, Logged b cell isn s' →
        ∃ cell', Logged (b.pump i.now) cell' isn s' ∧ c.history <+: (b.pump i.now).history := by
      intro s' hlogged
      rw [← hb.pumpedFrom.frame.2.1]
      exact hlogged.pump_of_timely (hb.pumpedFrom.timely h.buffers htimely)
    rcases hb.cases with hkeep | ⟨now, payload, opts, rfl, rfl⟩ | ⟨now, q, ack, hpacket, htype,
      hread, hacked⟩
    · obtain ⟨cell', hlogged', hgrow⟩ := hpump (h.upkeep hkeep)
      exact Or.inl (hkept hlogged' hgrow)
    · obtain ⟨cell', hlogged', hgrow⟩ := hpump (h.of_holds le_rfl h.holds (fun _ => rfl) rfl h.room)
      exact Or.inl (hkept hlogged' hgrow)
    · obtain ⟨d, hlogged, hbefore⟩ := h.acked hacked
      obtain ⟨cell', hlogged', hgrow⟩ := hpump hlogged
      rcases hnum.buffered_or h hlogged' hgrow hp with hin | ⟨k, hk, hlt, hseq⟩
      · exact Or.inl hin
      · exact Or.inr ⟨now, q, ack, hpacket, htype, hread, hseq ▸ hbefore k hk hlt⟩

/-! ## What a step sends -/

theorem Numbered.asks_for_no_drop (hnum : c.Numbered isn) (hdata : c.DataOnly) (hi : i.Single)
    (htimely : c.snd.sendBuf.Timely i.now c.params.sendDropThresh) :
    Emits (fun o => o.isDropReq = false) c (c.step i) := by
  obtain ⟨cell, s, h⟩ := hnum.logged
  have hQ : Permits fun o => o.isDropReq = false := by
    refine ⟨fun _ _ => rfl, fun _ _ => rfl, ?_⟩
    intro p owned htype
    simp [Output.isDropReq, htype]
  have hcopy : ∀ p, c.snd.sendBuf.CopyOf p → (Output.sendPacket p true).isDropReq = false := by
    rintro p ⟨j, hused, rfl⟩
    have hcontrol := hdata j hused
    simp [Output.isDropReq, SendBuffer.retransmission, hcontrol]
  have hstep := sendStep c hi
  generalize c.step i = c₁ at hstep
  cases hstep with
  | idle hkeep => exact hkeep.emits hQ hcopy
  | resend losses now rtt rttVar hkeep =>
    have hnoted : Emits (fun o => o.isDropReq = false) c
        (c.setSendBuf (c.snd.sendBuf.nakTimed losses now rtt rttVar).1) := Emits.of_eq rfl
    refine hnoted.trans (hkeep.emits hQ fun p hp => hcopy p ?_)
    exact hp.of_within (SendBuffer.within_nakTimed c.snd.sendBuf losses now rtt rttVar).1
  | @pump b hb =>
    -- the pump gives up on nothing
    obtain ⟨s', hlogged⟩ := hb.pumpedFrom.exists_logged h
    have hsame := hlogged.buffers.checkSendDrop_of_timely (hb.pumpedFrom.timely h.buffers htimely)
    unfold Conn.pump
    simp only [hsame]
    exact (hb.pumpedFrom.emits hQ hcopy).trans (permitted_pumpLoop hQ i.now _ b)

/-! ## Runs -/

theorem Numbered.msgTTLActive_step (hnum : c.Numbered isn) (h : c.snd.msgTTLActive = false)
    (hi : i.Single) (huntimed : i.Untimed) : (c.step i).snd.msgTTLActive = false := by
  obtain ⟨cell, s, hlogged⟩ := hnum.logged
  have hstep := sendStep c hi
  generalize c.step i = c₁ at hstep
  cases hstep with
  | idle hkeep => exact hkeep.msgTTLActive.trans h
  | resend losses now rtt rttVar hkeep => exact hkeep.msgTTLActive.trans h
  | @pump b hb =>
    obtain ⟨s', hlogged'⟩ := hb.pumpedFrom.exists_logged hlogged
    obtain ⟨cell', s'', frames, new, -, hsent⟩ := hlogged'.exists_sent_pump i.now
    rw [hsent.msgTTLActive]
    rcases hb.cases with hkeep | ⟨now, payload, opts, rfl, rfl⟩ | ⟨now, p, ack, -, -, -, hacked⟩
    · exact hkeep.msgTTLActive.trans h
    · show (c.snd.msgTTLActive || decide (0 < opts.ttl)) = false
      rw [h, Bool.false_or, decide_eq_false_iff_not]
      exact not_lt.mpr huntimed
    · exact hacked.msgTTLActive.trans h

end

end Conn

namespace TunedInput

def Plain : TunedInput → Prop
  | .input i => i.Single ∧ i.Untimed
  | .setSndDropDelay _ => True

def delayAfter (ms : ℤ) : TunedInput → ℤ
  | .input _ => ms
  | .setSndDropDelay ms' => ms'

end TunedInput

namespace Tuned

variable {σ : Type} {t : Tuned σ} {isn : ℕ} {ms : ℤ}

/-- If packets are given up at all, none in the buffer is older than the threshold for an extra
of `-1`. -/
def InTime (t : Tuned σ) : TunedInput → Prop
  | .input i =>
    t.tlPktDrop = true → ∀ j < t.conn.snd.sendBuf.len, (t.conn.snd.sendBuf.entries j).used = true →
      i.now - (t.conn.snd.sendBuf.entries j).sentAt ≤ dropThreshold t.dropBaseUS (-1)
  | .setSndDropDelay _ => True

instance (t : Tuned σ) : ∀ e, Decidable (t.InTime e)
  | .input _ =>
    inferInstanceAs (Decidable (t.tlPktDrop = true → ∀ j < t.conn.snd.sendBuf.len, _ → _))
  | .setSndDropDelay _ => isTrue trivial

variable [Controller σ] [Primitives] {e : TunedInput}

def DropsNothing (t : Tuned σ) : TunedInput → Prop
  | .input i => t.conn.DropsNothing i
  | .setSndDropDelay _ => True

/-- A connection without times to live, and the threshold that follows from the extra delay. -/
structure Standing (isn : ℕ) (ms : ℤ) (t : Tuned σ) : Prop where
  numbered : t.conn.Numbered isn
  dataOnly : t.conn.DataOnly
  notices : t.conn.NoticesTTL
  untimed : t.conn.snd.msgTTLActive = false
  thresh : t.conn.params.sendDropThresh = if t.tlPktDrop then dropThreshold t.dropBaseUS ms else 0

omit [Controller σ] [Primitives] in
theorem Standing.setSndDropDelay (h : t.Standing isn ms) (ms' : ℤ) :
    (t.setSndDropDelay ms').Standing isn ms' := by
  by_cases hon : t.tlPktDrop = true
  · have hset : (!t.tlPktDrop) ≠ true := by simp [hon]
    rw [Tuned.setSndDropDelay, if_neg hset]
    obtain ⟨cell, s, hlogged⟩ := h.numbered.logged
    refine ⟨⟨⟨cell, s, hlogged.holds, hlogged.wire, hlogged.room⟩, h.numbered.numbered⟩,
      h.dataOnly, h.notices,
      h.untimed, ?_⟩
    exact (if_pos hon).symm
  · have hset : (!t.tlPktDrop) = true := by simp [hon]
    rw [Tuned.setSndDropDelay, if_pos hset]
    refine ⟨h.numbered, h.dataOnly, h.notices, h.untimed, ?_⟩
    rw [h.thresh, if_neg hon, if_neg hon]

theorem Standing.step (h : t.Standing isn ms) (he : e.Plain) :
    (t.step e).Standing isn (e.delayAfter ms) := by
  cases e with
  | input i =>
    obtain ⟨hsingle, huntimed⟩ := he
    have hstep := Conn.sendStep t.conn hsingle
    refine ⟨(h.numbered.step hsingle).1, h.dataOnly.step, hstep.noticesTTL h.notices,
      h.numbered.msgTTLActive_step h.untimed hsingle huntimed, ?_⟩
    have hparams : (t.conn.step i).params = t.conn.params := hstep.params
    exact (congrArg Params.sendDropThresh hparams).trans h.thresh
  | setSndDropDelay ms' => exact h.setSndDropDelay ms'

theorem standing_establish {ep : EstablishParams} (hcap : ep.sndCap ≤ 2 ^ 30)
    (hisn : Valid ep.sendISN) (cc : σ)
    (now : ℤ) : (establish cc now ep).Standing ep.sendISN ep.sndDropDelay := by
  refine ⟨Conn.numbered_establish hcap hisn cc now, Conn.dataOnly_establish cc now ep,
    Conn.noticesTTL_exec cc now ep [] (by simp), ?_, ?_⟩
  · obtain ⟨os, hos⟩ := Conn.exists_establish_eq cc now ep
    show (Conn.establish cc now ep).snd.msgTTLActive = false
    rw [hos]
    rfl
  · have hparams : (Conn.establish cc now ep).params.sendDropThresh = ep.sendDropThresh := by
      rw [Conn.establish_eq]
      rfl
    show (Conn.establish cc now ep).params.sendDropThresh =
      if ep.live && ep.tlPktDrop then dropThreshold (if ep.live && ep.tlPktDrop then _ else 0)
        ep.sndDropDelay else 0
    rw [hparams, EstablishParams.sendDropThresh]
    by_cases hon : ep.live = true ∧ ep.tlPktDrop = true
    · have hboth : (ep.live && ep.tlPktDrop) = true := Bool.and_eq_true_iff.mpr hon
      rw [if_pos hon, if_pos hboth, if_pos hboth]
      rfl
    · have hboth : ¬(ep.live && ep.tlPktDrop) = true := fun h => hon (Bool.and_eq_true_iff.mp h)
      rw [if_neg hon, if_neg hboth]

theorem Standing.exec (h : t.Standing isn ms) : ∀ es : List TunedInput, (∀ e ∈ es, e.Plain) →
    (Run.exec Tuned.step t es).Standing isn (es.foldl TunedInput.delayAfter ms) := by
  intro es
  induction es generalizing t ms with
  | nil =>
    intro _
    exact h
  | cons e es ih =>
    intro hes
    exact ih (h.step (hes e List.mem_cons_self)) fun e' he' => hes e' (List.mem_cons_of_mem e he')

theorem Standing.dropsNothing (h : t.Standing isn (-1)) (he : e.Plain) (htime : t.InTime e) :
    t.DropsNothing e := by
  cases e with
  | input i =>
    have huntimed := (h.notices h.untimed).2
    have htimely : t.conn.snd.sendBuf.Timely i.now t.conn.params.sendDropThresh := by
      rw [h.thresh]
      apply huntimed.timely
      by_cases hon : t.tlPktDrop = true
      · rw [if_pos hon]
        exact Or.inr (htime hon)
      · rw [if_neg hon]
        exact Or.inl le_rfl
    exact ⟨h.numbered.asks_for_no_drop h.dataOnly he.1 htimely,
      fun p hp => h.numbered.keeps_unacked he.1 htimely hp⟩
  | setSndDropDelay ms => trivial

/-- Whatever has happened before, from the time on at which the extra delay is `-1` the sender
keeps every packet until it is acknowledged and asks for none to be skipped, provided that
giving up is turned off, or that no packet gets older than the threshold. -/
theorem packets_in_time_are_kept {ep : EstablishParams} (hcap : ep.sndCap ≤ 2 ^ 30)
    (hisn : Valid ep.sendISN)
    (cc : σ) (now : ℤ) (before after : List TunedInput) (hplain : ∀ e ∈ before ++ after, e.Plain)
    (hset : before.foldl TunedInput.delayAfter ep.sndDropDelay = -1)
    (hstays : ∀ e ∈ after, e.delayAfter (-1) = -1)
    (htime : AllSteps Tuned.step InTime (exec Tuned.step (establish cc now ep) before) after) :
    AllSteps Tuned.step DropsNothing (exec Tuned.step (establish cc now ep) before) after := by
  have hstart := (standing_establish hcap hisn cc now).exec before
    fun e he => hplain e (List.mem_append_left after he)
  rw [hset] at hstart
  have hinputs : AllSteps Tuned.step (fun _ e => e.Plain ∧ e.delayAfter (-1) = -1)
      (exec Tuned.step (establish cc now ep) before) after :=
    allSteps_of_forall_mem fun e he => ⟨hplain e (List.mem_append_right before he), hstays e he⟩
  refine AllSteps.allSteps ?_ ?_ hstart (hinputs.and htime)
  · rintro t e h ⟨⟨he, hminus⟩, -⟩
    have hstep := h.step he
    rwa [hminus] at hstep
  · rintro t e h ⟨⟨he, -⟩, hin⟩
    exact h.dropsNothing he hin

end Tuned

section Examples

open scoped XorCipher

def undropped : EstablishParams :=
  { live := true, tlPktDrop := true, sndDropDelay := -1, flowWindow := 4, bufferCapacity := 4 }

def undroppedSender : Tuned LiveCC := Tuned.establish (LiveCC.new 0 0) 0 undropped

/-- A packet that is a second old is kept. -/
theorem packets_in_time_are_kept_one_second :
    AllSteps Tuned.step Tuned.DropsNothing undroppedSender
      [.input (.write 1000 [1] {}), .input (.timer 1001000 .ack)] :=
  Tuned.packets_in_time_are_kept (by decide) ⟨by decide⟩ (LiveCC.new 0 0) 0 []
    [.input (.write 1000 [1] {}), .input (.timer 1001000 .ack)]
      (by simp [TunedInput.Plain, Input.Single, Input.Untimed])
    rfl (by simp [TunedInput.delayAfter]) (by decide +kernel)

/-- Two seconds after it was sent the packet is dropped, and a request to skip it is sent, with an
extra delay of `-1` from the start or set later. -/
theorem disabled_sender_drop_drops :
    let run := exec Tuned.step undroppedSender [.input (.write 1000 [1] {}),
      .input (.timer 2001000 .ack)]
    let setLater :=
      exec Tuned.step (Tuned.establish (LiveCC.new 0 0) 0 { undropped with sndDropDelay := 0 })
      [.setSndDropDelay (-1), .input (.write 1000 [1] {}), .input (.timer 2001000 .ack)]
    run.conn.outputs.any Output.isDropReq = true ∧ run.conn.snd.sendBuf.size = 0 ∧
      setLater.conn.outputs.any Output.isDropReq = true ∧ setLater.conn.snd.sendBuf.size = 0 := by
  decide +kernel

end Examples

end SrtGo.Core
