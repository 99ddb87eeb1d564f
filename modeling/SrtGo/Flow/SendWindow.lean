import SrtGo.Buffer.SendWindow
import SrtGo.Core.SendStep
import SrtGo.Crypto.XorCipher

/-!
# The window of the sender

A full acknowledgement says how much room the receiver has left behind the number that it
acknowledges.  The sender keeps this room in one number, takes from it what lite
acknowledgements release, and sends while fewer packets are in flight.  So the end of the
window, `start + room`, stays where it is, and no packet is sent behind it.

The number zero stands for a window that is not known.  A receiver without room reports
zero, and a lite acknowledgement of everything that may be sent leaves zero; in both
cases the sender falls back to the negotiated window.  The end of the window also moves
when the sender gives up on packets, and an acknowledgement from behind brings room that
was meant for an older start.
-/

namespace SrtGo.Core

open Buffer Congestion Crypto Run SrtGo.Seq

def Input.fullACK? : Input → Option CIFACK
  | .packet _ p =>
    if p.header.isControl = true ∧ p.header.controlType = .ack ∧ p.data.length ≠ 4 then
      (CIFACK.unmarshalCIF p.data).toOption
    else none
  | _ => none

def Input.liteACK? : Input → Option CIFACK
  | .packet _ p =>
    if p.header.isControl = true ∧ p.header.controlType = .ack ∧ p.data.length = 4 then
      (CIFACK.unmarshalCIF p.data).toOption
    else none
  | _ => none

def Frame.SentAs (ts : ℕ) (f : Frame) (t : Transmission) : Prop :=
  t.wire.header.packetPosition = f.pos ∧ t.wire.header.timestamp = if f.srcTime = 0 then
    ts else f.srcTime

namespace Conn

variable {σ : Type} {c c' c'' : Conn σ} {s n a : ℕ} {cell : ℕ → SendEntry} {now : ℤ}
    {frames : List Frame}

/-- The send buffer is the window of the positions `s ≤ p < n`, and it is no smaller than
the flow window. -/
def Buffers (c : Conn σ) (s n : ℕ) : Prop :=
  ∃ cell, Holds c.snd.sendBuf cell s n ∧ c.params.flowWindow ≤ c.snd.sendBuf.len

theorem Buffers.upkeep (h : Buffers c s n) (hkeep : Upkeep c c') : Buffers c' s n := by
  unfold Buffers
  rw [hkeep.sendBuf, hkeep.params]
  exact h

theorem Buffers.setSendBuf_nakTimed (h : Buffers c s n) (losses : List ℕ) (now rtt rttVar : ℤ) :
    Buffers (c.setSendBuf (c.snd.sendBuf.nakTimed losses now rtt rttVar).1) s n := by
  obtain ⟨cell, hholds, hlen⟩ := h
  obtain ⟨cell', -, hholds', hlen'⟩ := hholds.nakTimed losses now rtt rttVar
  exact ⟨cell', hholds', by rw [setSendBuf, hlen']; exact hlen⟩

theorem Buffers.acked (h : Buffers c s n) (hacked : Acked c c' a) :
    ∃ d, s + d ≤ n ∧ Buffers c' (s + d) n ∧ (c.snd.sendBuf.ack a).2 = d := by
  obtain ⟨cell, hholds, hlen⟩ := h
  obtain ⟨d, hd, hholds', hlen', hcount, -⟩ := hholds.ack_any a
  refine ⟨d, hd, ⟨cell, ?_, ?_⟩, hcount⟩
  · rw [hacked.sendBuf]
    exact hholds'
  · rw [hacked.sendBuf, hacked.params, hlen']
    exact hlen

def HeadDue (c : Conn σ) (now : ℤ) : Prop :=
  ¬(c.params.sendDropThresh ≤ 0 ∧ c.snd.msgTTLActive = false) ∧
    0 < c.snd.sendBuf.size ∧ c.snd.sendBuf.headExpired now c.params.sendDropThresh = true

/-- The sender has given up on the packets of the positions before `s + d`: each of them is too
late, and if packets are given up on at all the next one is in time.  Nothing else has changed. -/
structure GivesUp (c c' : Conn σ) (cell : ℕ → SendEntry) (now : ℤ) (s d n : ℕ) : Prop where
  le : s + d ≤ n
  holds : Holds c'.snd.sendBuf cell (s + d) n
  len : c'.snd.sendBuf.len = c.snd.sendBuf.len
  snd : c'.snd = { c.snd with sendBuf := c'.snd.sendBuf }
  params : c'.params = c.params
  history : c'.history = c.history
  expired : ∀ p, s ≤ p → p < s + d → (cell p).expired now c.params.sendDropThresh = true
  stops : ¬(c.params.sendDropThresh ≤ 0 ∧ c.snd.msgTTLActive = false) → s + d < n →
    (cell (s + d)).expired now c.params.sendDropThresh = false

theorem exists_givesUp (h : Holds c.snd.sendBuf cell s n) (now : ℤ) :
    ∃ d, GivesUp c (c.checkSendDrop now) cell now s d n := by
  obtain ⟨d, hd, hexpired, hnext, hholds, hdropped, -⟩ :=
    h.dropTooLateSend now c.params.sendDropThresh
  by_cases hoff : c.params.sendDropThresh ≤ 0 ∧ (!c.snd.msgTTLActive) = true
  · have hsame : c.checkSendDrop now = c := by
      unfold Conn.checkSendDrop
      rw [if_pos hoff]
    rw [hsame]
    exact ⟨0, h.start_le, h, rfl, rfl, rfl, rfl, fun p hs hp => absurd hp (not_lt.mpr hs),
      fun hon => absurd (by simpa using hoff) hon⟩
  · by_cases hnone : (c.snd.sendBuf.dropTooLateSend now c.params.sendDropThresh).dropped = 0
    · have hsame : c.checkSendDrop now = c := by
        unfold Conn.checkSendDrop
        rw [if_neg hoff]
        exact if_pos hnone
      have hzero : d = 0 := by omega
      rw [hzero] at hnext
      rw [hsame]
      exact ⟨0, h.start_le, h, rfl, rfl, rfl, rfl, fun p hs hp => absurd hp (not_lt.mpr hs),
        fun _ => hnext⟩
    · have hdrop : c.checkSendDrop now =
          (c.setSendBuf (c.snd.sendBuf.dropTooLateSend now
            c.params.sendDropThresh).buffer).emitDropReq now
            (c.snd.sendBuf.dropTooLateSend now c.params.sendDropThresh).first
            (c.snd.sendBuf.dropTooLateSend now c.params.sendDropThresh).last := by
        unfold Conn.checkSendDrop
        rw [if_neg hoff]
        exact if_neg hnone
      rw [hdrop]
      exact ⟨d, hd, hholds, SendBuffer.len_dropTooLateSend _ _ _, rfl, rfl, rfl, hexpired,
        fun _ => hnext⟩

theorem GivesUp.pos_of_headDue {d : ℕ} (hd : GivesUp c c' cell now s d n)
    (h : Holds c.snd.sendBuf cell s n) (hdue : c.HeadDue now) : 0 < d := by
  obtain ⟨hon, hsize, hhead⟩ := hdue
  have hlt := h.lt_of_size_pos hsize
  rw [h.headExpired_eq hlt] at hhead
  by_contra hzero
  obtain rfl : d = 0 := by omega
  have hstop := hd.stops hon hlt
  rw [Nat.add_zero, hhead] at hstop
  exact absurd hstop (by decide)

theorem Buffers.checkSendDrop_of_timely (h : Buffers c s n)
    (htimely : c.snd.sendBuf.Timely now c.params.sendDropThresh) : c.checkSendDrop now = c := by
  obtain ⟨cell, hholds, -⟩ := h
  unfold Conn.checkSendDrop
  simp only [SendBuffer.dropTooLateSend_of_timely htimely hholds.len_pos, if_true, ite_self]

/-! ## The pump -/

/-- At `now` the packets `new` have been made of the first frames of the queue and sent under the
numbers from `n` on, and none of them lies behind the room that the receiver has. -/
structure Sent (c c' : Conn σ) (cell cell' : ℕ → SendEntry) (now : ℤ) (s n : ℕ)
    (frames : List Frame) (new : List Transmission) : Prop where
  holds : Holds c'.snd.sendBuf cell' s (n + new.length)
  len : c'.snd.sendBuf.len = c.snd.sendBuf.len
  kept : ∀ p < n, cell' p = cell p
  added : ∀ i t, new[i]? = some t → ((cell' (n + i)).pkt = t.wire ∧ (cell' (n + i)).sentAt = now) ∧
    t.wire.header.sequenceNumber = wrap (n + i)
  queue : c.snd.sendQueue = frames ++ c'.snd.sendQueue
  made : List.Forall₂ (Frame.SentAs (c.wireTS now)) frames new
  history : c'.history = c.history ++ new
  params : c'.params = c.params
  rcvFlowWin : c'.snd.rcvFlowWin = c.snd.rcvFlowWin
  msgTTLActive : c'.snd.msgTTLActive = c.snd.msgTTLActive
  bounded : new ≠ [] → 0 < c.snd.rcvFlowWin → (n + new.length : ℤ) ≤ s + c.snd.rcvFlowWin

theorem Sent.nil (c c' : Conn σ) (h : Holds c'.snd.sendBuf cell s n)
    (hlen : c'.snd.sendBuf.len = c.snd.sendBuf.len)
    (hsnd : c'.snd = { c.snd with sendBuf := c'.snd.sendBuf })
    (hparams : c'.params = c.params) (hhistory : c'.history = c.history) (now : ℤ) :
    Sent c c' cell cell now s n [] [] :=
  ⟨h, hlen, fun _ _ => rfl, fun i t ht => by simp at ht, by rw [hsnd]; rfl, .nil,
    by rw [hhistory,
      List.append_nil], hparams, by rw [hsnd], by rw [hsnd], fun hne => absurd rfl hne⟩

theorem Sent.trans {cell' cell'' : ℕ → SendEntry} {frames' : List Frame}
    {new new' : List Transmission} (h : Sent c c' cell cell' now s n frames new)
    (h' : Sent c' c'' cell' cell'' now s (n + new.length) frames' new') :
    Sent c c'' cell cell'' now s n (frames ++ frames') (new ++ new') where
  holds := by
    rw [List.length_append, ← Nat.add_assoc]
    exact h'.holds
  len := h'.len.trans h.len
  kept p hp := (h'.kept p (by omega)).trans (h.kept p hp)
  added i t ht := by
    by_cases hi : i < new.length
    · rw [List.getElem?_append_left hi] at ht
      rw [h'.kept (n + i) (by omega)]
      exact h.added i t ht
    · rw [List.getElem?_append_right (not_lt.mp hi)] at ht
      have := h'.added (i - new.length) t ht
      rwa [show n + new.length + (i - new.length) = n + i by omega] at this
  queue := by rw [h.queue, h'.queue, List.append_assoc]
  made := by
    have hmade := h'.made
    rw [wireTS, h.params] at hmade
    exact List.rel_append h.made hmade
  history := by rw [h'.history, h.history, List.append_assoc]
  params := h'.params.trans h.params
  rcvFlowWin := h'.rcvFlowWin.trans h.rcvFlowWin
  msgTTLActive := h'.msgTTLActive.trans h.msgTTLActive
  bounded hne hknown := by
    rw [List.length_append]
    by_cases hnil : new' = []
    · subst hnil
      rw [List.append_nil] at hne
      exact h.bounded hne hknown
    · have hle := h'.bounded hnil (by rw [h.rcvFlowWin]; exact hknown)
      rw [h.rcvFlowWin] at hle
      push_cast at hle ⊢
      omega

theorem Sent.buffers {cell' : ℕ → SendEntry} {new : List Transmission}
    (h : Sent c c' cell cell' now s n frames new)
    (hroom : c.params.flowWindow ≤ c.snd.sendBuf.len) :
    Buffers c' s (n + new.length) :=
  ⟨cell', h.holds, by rw [h.params, h.len]; exact hroom⟩

section
variable [Controller σ]

theorem window_le_rcvFlowWin (hknown : 0 < c.snd.rcvFlowWin) : c.window ≤ c.snd.rcvFlowWin := by
  unfold window
  simp only
  split_ifs with hless
  · exact min_le_left _ _
  · exact (min_le_left _ _).trans (by omega)

variable [Primitives] {cell : ℕ → SendEntry} {i : Input} {stop lo : ℕ} {ack : CIFACK} {b : Conn σ}

theorem exists_sent_sendPaced {f : Frame} {rest : List Frame} (h : Holds c.snd.sendBuf cell s n)
    (hroom : c.params.flowWindow ≤ c.snd.sendBuf.len) (hqueue : c.snd.sendQueue = f :: rest)
    (hwindow : c.snd.sendBuf.size < c.window) (now : ℤ) :
    ∃ cell' t, Sent c ((c.dequeue rest).sendPaced now f) cell cell' now s n [f] [t] := by
  obtain ⟨hcases, hrest, hactive, hwin, hparams⟩ := sendPaced_cases c now f rest
  rcases hcases with ⟨hfull, -⟩ | ⟨sb, plain, wire, hpush, ⟨hseq, hmade⟩, hbuf, hhistory⟩
  · have := c.window_le_flowWindow
    omega
  · -- a time to live is written into the slot that was just filled
    have htagged : ∃ e : SendEntry, (e.pkt = wire ∧ e.sentAt = now) ∧
        (tagTTL sb f.ttlNs).len = c.snd.sendBuf.len ∧
        Holds (tagTTL sb f.ttlNs) (Function.update cell n e) s (n + 1) := by
      unfold tagTTL
      split_ifs
      · exact ⟨_, ⟨rfl, rfl⟩, h.push_setMsgTTL hpush f.ttlNs⟩
      · exact ⟨_, ⟨rfl, rfl⟩, h.push_some hpush⟩
    obtain ⟨e, he, hlen, hholds⟩ := htagged
    refine ⟨Function.update cell n e, ⟨c.key.cryptoCtx, plain, wire⟩, by rw [hbuf]; exact hholds,
      by rw [hbuf]; exact hlen, fun p hp => Function.update_of_ne hp.ne _ _, fun i t ht => ?_,
      by rw [hrest]; exact hqueue, .cons hmade .nil, hhistory, hparams, hwin, hactive,
        fun _ hknown => ?_⟩
    · cases i with
      | zero =>
        obtain rfl := Option.some.inj ht
        rw [Nat.add_zero, Function.update_self]
        exact ⟨he, hseq.trans h.nextSeq_eq⟩
      | succ i => simp at ht
    · have hle := window_le_rcvFlowWin hknown
      have hsize := h.size_eq
      rw [List.length_singleton]
      push_cast
      omega

theorem exists_sent_pumpLoop (now : ℤ) (fuel : ℕ) (h : Holds c.snd.sendBuf cell s n)
    (hroom : c.params.flowWindow ≤ c.snd.sendBuf.len) :
    ∃ cell' frames new, Sent c (pumpLoop now fuel c) cell cell' now s n frames new := by
  refine pumpLoop_preserves
    (Q := fun b => ∃ cell' frames new, Sent c b cell cell' now s n frames new) now ?_ ?_
    fuel c ⟨cell, [], [], Sent.nil _ _ h rfl rfl rfl rfl now⟩
  · rintro b deadline ⟨cell', frames, new, hsent⟩
    exact ⟨cell', _, _, hsent.trans (Sent.nil b (b.push _) hsent.holds rfl rfl rfl rfl now)⟩
  · rintro b f rest hqueue hopen - ⟨cell', frames, new, hsent⟩
    obtain ⟨cell'', t, hone⟩ := exists_sent_sendPaced hsent.holds
      (by rw [hsent.params, hsent.len]; exact hroom) hqueue hopen now
    exact ⟨cell'', _, _, hsent.trans hone⟩

theorem exists_sent_pump (h : Holds c.snd.sendBuf cell s n)
    (hroom : c.params.flowWindow ≤ c.snd.sendBuf.len)
    (now : ℤ) : ∃ d cell' frames new, GivesUp c (c.checkSendDrop now) cell now s d n ∧
      Sent c (c.pump now) cell cell' now (s + d) n frames new := by
  obtain ⟨d, hd⟩ := exists_givesUp h now
  obtain ⟨cell', frames, new, hsent⟩ :=
    exists_sent_pumpLoop now (c.checkSendDrop now).snd.sendQueue.length
    hd.holds (by rw [hd.params, hd.len]; exact hroom)
  exact ⟨d, cell', frames, new, hd,
    (Sent.nil _ _ hd.holds hd.len hd.snd hd.params hd.history now).trans hsent⟩

theorem exists_sent_pump_of_timely (h : Holds c.snd.sendBuf cell s n)
    (hroom : c.params.flowWindow ≤ c.snd.sendBuf.len)
    (htimely : c.snd.sendBuf.Timely now c.params.sendDropThresh) :
    ∃ cell' frames new, Sent c (c.pump now) cell cell' now s n frames new := by
  unfold pump
  simp only [Buffers.checkSendDrop_of_timely ⟨cell, h, hroom⟩ htimely]
  exact exists_sent_pumpLoop now _ h hroom

/-! ## Runs -/

omit [Primitives] in
theorem PumpedFrom.exists_buffers (hb : PumpedFrom c b) (h : Buffers c s n) :
    ∃ d, s + d ≤ n ∧ Buffers b (s + d) n := by
  have hle : s ≤ n := by
    obtain ⟨cell, hholds, -⟩ := h
    exact hholds.start_le
  rcases hb.cases with hkeep | ⟨now, payload, opts, rfl⟩ | ⟨a, hacked⟩
  · exact ⟨0, hle, h.upkeep hkeep⟩
  · exact ⟨0, hle, h⟩
  · obtain ⟨d, hd, hbuffers, -⟩ := h.acked hacked
    exact ⟨d, hd, hbuffers⟩

/-- Whatever a step does, the send buffer remains a window that only moves forward. -/
theorem SendStep.exists_buffers (hstep : SendStep i c c') (h : Buffers c s n) :
    ∃ s' n', s ≤ s' ∧ n ≤ n' ∧ Buffers c' s' n' := by
  cases hstep with
  | idle hkeep => exact ⟨s, n, le_rfl, le_rfl, h.upkeep hkeep⟩
  | resend losses now rtt rttVar hkeep =>
    exact ⟨s, n, le_rfl, le_rfl, (h.setSendBuf_nakTimed losses now rtt rttVar).upkeep hkeep⟩
  | pump hb =>
    obtain ⟨d, hd, cell, hholds, hroom⟩ := hb.pumpedFrom.exists_buffers h
    obtain ⟨d', cell', frames, new, -, hsent⟩ := exists_sent_pump hholds hroom i.now
    exact ⟨s + d + d', n + new.length, by omega, by omega, hsent.buffers hroom⟩

theorem exists_buffers_exec {ep : EstablishParams} (hcap : ep.sndCap ≤ 2 ^ 30)
    (hisn : Valid ep.sendISN) (cc : σ) (now : ℤ) (is : List Input) (hsingle : ∀ i ∈ is, i.Single) :
    ∃ s n, Buffers (exec Conn.step (establish cc now ep) is) s n := by
  have hinit : ∃ s n, Buffers (establish cc now ep) s n := by
    refine ⟨ep.sendISN, ep.sendISN, fun _ => {}, ?_⟩
    rw [establish_eq]
    exact ⟨holds_new hcap hisn, (le_max_right _ _).trans (le_nextPow2 ep.sndCap)⟩
  refine ((allSteps_of_forall_mem hsingle).allStates (Q := fun c => ∃ s n, Buffers c s n)
    ?_ hinit).exec
  rintro c i ⟨s, n, h⟩ hi
  obtain ⟨s', n', -, -, h'⟩ := (sendStep c hi).exists_buffers h
  exact ⟨s', n', h'⟩

/-! ## Between two full acknowledgements -/

/-- What is asked of a full acknowledgement: it acknowledges a number that is not behind
the window, it reports some room, and no packet is due to be given up. -/
structure Welcome (c : Conn σ) (now : ℤ) (ack : CIFACK) : Prop where
  valid : Valid ack.lastACKPacketSequenceNumber
  ahead : 0 ≤ distance c.snd.sendBuf.startSeq ack.lastACKPacketSequenceNumber
  near : distance c.snd.sendBuf.startSeq ack.lastACKPacketSequenceNumber < 2 ^ 30
  room : 0 < ack.availableBufferSize
  timely : c.snd.sendBuf.Timely now c.params.sendDropThresh

/-- What is asked of the inputs that follow: none is a full acknowledgement, no packet is
due to be given up, and a lite acknowledgement does not use up all of the room. -/
structure Steady (c : Conn σ) (i : Input) : Prop where
  single : i.Single
  notFull : i.fullACK? = none
  timely : c.snd.sendBuf.Timely i.now c.params.sendDropThresh
  lite : ∀ ack, i.liteACK? = some ack →
    c.snd.sendBuf.size < c.snd.rcvFlowWin ∨
      Valid ack.lastACKPacketSequenceNumber ∧
        distance c.snd.sendBuf.startSeq ack.lastACKPacketSequenceNumber < c.snd.rcvFlowWin

/-- The window ends at `stop`: its room is known and reaches no farther. -/
structure Bounded (c : Conn σ) (s n stop : ℕ) : Prop where
  buffers : Buffers c s n
  known : 0 < c.snd.rcvFlowWin
  room : (s : ℤ) + c.snd.rcvFlowWin ≤ stop

def SendsWithin (lo stop : ℕ) (c c' : Conn σ) : Prop :=
  ∃ new, c'.history = c.history ++ new ∧
    ∀ t ∈ new, ∃ x, lo ≤ x ∧ x < stop ∧ t.wire.header.sequenceNumber = wrap x

omit [Controller σ] [Primitives] in
theorem SendsWithin.trans (h : SendsWithin lo stop c c') (h' : SendsWithin lo stop c' c'') :
    SendsWithin lo stop c c'' := by
  obtain ⟨new, hhistory, hnew⟩ := h
  obtain ⟨new', hhistory', hnew'⟩ := h'
  refine ⟨new ++ new', by rw [hhistory', hhistory, List.append_assoc], fun t ht => ?_⟩
  rcases List.mem_append.mp ht with ht | ht
  · exact hnew t ht
  · exact hnew' t ht

omit [Controller σ] [Primitives] in
theorem SendsWithin.of_eq (h : c'.history = c.history) : SendsWithin lo stop c c' :=
  ⟨[], by rw [h, List.append_nil], by simp⟩

theorem Bounded.pump (h : Bounded c s n stop) (now : ℤ) (hlo : lo ≤ n)
    (htimely : c.snd.sendBuf.Timely now c.params.sendDropThresh) :
    ∃ n', n ≤ n' ∧ Bounded (c.pump now) s n' stop ∧ SendsWithin lo stop c (c.pump now) := by
  obtain ⟨cell, hholds, hlen⟩ := h.buffers
  obtain ⟨cell', frames, new, hsent⟩ := exists_sent_pump_of_timely hholds hlen htimely
  have hroom := h.room
  refine ⟨n + new.length,
    by omega, ⟨hsent.buffers hlen, ?_, ?_⟩, new, hsent.history, fun t ht => ?_⟩
  · rw [hsent.rcvFlowWin]
    exact h.known
  · rw [hsent.rcvFlowWin]
    exact hroom
  · obtain ⟨i, hi⟩ := List.mem_iff_getElem?.mp ht
    have hlt := (List.getElem?_eq_some_iff.mp hi).1
    have hle := hsent.bounded (List.ne_nil_of_mem ht) h.known
    exact ⟨n + i, by omega, by omega, (hsent.added i t hi).2⟩

omit [Controller σ] [Primitives] in
theorem Bounded.afterLiteACK (h : Bounded c s n stop) (now : ℤ)
    (hlite : c.snd.sendBuf.size < c.snd.rcvFlowWin ∨ Valid a ∧ distance c.snd.sendBuf.startSeq a <
      c.snd.rcvFlowWin) :
    ∃ s', s ≤ s' ∧ s' ≤ n ∧ Bounded (c.afterLiteACK now a) s' n stop := by
  obtain ⟨d, hd, hbuffers, hcount⟩ := h.buffers.acked (acked_lite (Upkeep.refl c) now a)
  obtain ⟨cell, hholds, -⟩ := h.buffers
  have hroom := h.room
  have hknown := h.known
  -- the room that is left is not zero, which would stand for a window that is not known
  have hless : (d : ℤ) < c.snd.rcvFlowWin := by
    rcases hlite with hsize | ⟨ha, hdist⟩
    · rw [hholds.size_eq] at hsize
      omega
    · cases hless : lessThan c.snd.sendBuf.startSeq a with
      | false =>
        rw [SendBuffer.ack_of_not_lessThan hless] at hcount
        simp only at hcount
        omega
      | true =>
        have hcount' := SendBuffer.ack_count_le c.snd.sendBuf a
        have hvalid : Valid c.snd.sendBuf.startSeq := by
          rw [hholds.startSeq_eq]
          exact valid_wrap s
        have := ahead_eq_distance hvalid ha hless
        omega
  have hleft : (c.afterLiteACK now a).snd.rcvFlowWin = c.snd.rcvFlowWin - d := by
    show (if 0 < (c.snd.sendBuf.ack a).2 ∧ 0 < c.snd.rcvFlowWin then
      c.snd.rcvFlowWin - ((c.snd.sendBuf.ack a).2 : ℕ) else c.snd.rcvFlowWin) = _
    rw [hcount]
    split_ifs <;> omega
  refine ⟨s + d, by omega, hd, hbuffers, ?_, ?_⟩
  · rw [hleft]
    omega
  · rw [hleft]
    push_cast
    omega

omit [Primitives] in
theorem PumpedFrom.timely (hb : PumpedFrom c b) (h : Buffers c s n)
    (htimely : c.snd.sendBuf.Timely now c.params.sendDropThresh) :
    b.snd.sendBuf.Timely now b.params.sendDropThresh := by
  rcases hb.cases with hkeep | ⟨t, payload, opts, rfl⟩ | ⟨a, hacked⟩
  · rw [hkeep.sendBuf, hkeep.params]
    exact htimely
  · exact htimely
  · obtain ⟨cell, hholds, -⟩ := h
    obtain ⟨d, hd, hholds', -⟩ := hholds.ack_any a
    rw [hacked.sendBuf, hacked.params]
    exact hholds.timely_of_le hholds' (by omega) le_rfl htimely

omit [Controller σ] [Primitives] in
theorem Bounded.upkeep (h : Bounded c s n stop) (hkeep : Upkeep c c') : Bounded c' s n stop :=
  ⟨h.buffers.upkeep hkeep,
    by rw [hkeep.rcvFlowWin]; exact h.known, by rw [hkeep.rcvFlowWin]; exact h.room⟩

theorem Bounded.step (h : Bounded c s n stop) (hlo : lo ≤ n) (hi : Steady c i) :
    ∃ s' n', n ≤ n' ∧ Bounded (c.step i) s' n' stop ∧ SendsWithin lo stop c (c.step i) := by
  have hcases := sendStep c hi.single
  generalize c.step i = c' at hcases
  cases hcases with
  | idle hkeep => exact ⟨s, n, le_rfl, h.upkeep hkeep, SendsWithin.of_eq hkeep.history⟩
  | resend losses now rtt rttVar hkeep =>
    have hnak : Bounded (c.setSendBuf (c.snd.sendBuf.nakTimed losses now rtt rttVar).1) s n stop :=
      ⟨h.buffers.setSendBuf_nakTimed losses now rtt rttVar, h.known, h.room⟩
    exact ⟨s, n, le_rfl, hnak.upkeep hkeep, SendsWithin.of_eq hkeep.history⟩
  | @pump b hb =>
    have htimely := hb.pumpedFrom.timely h.buffers hi.timely
    obtain ⟨-, hhistory, -⟩ := hb.pumpedFrom.frame
    have hpump : ∀ {s' : ℕ}, Bounded b s' n stop →
        ∃ s' n', n ≤ n' ∧ Bounded (b.pump i.now) s' n' stop ∧
          SendsWithin lo stop c (b.pump i.now) := by
      intro s' hbounded
      obtain ⟨n', hn, hbounded', hsends⟩ := hbounded.pump i.now hlo htimely
      exact ⟨s', n', hn, hbounded', (SendsWithin.of_eq hhistory).trans hsends⟩
    cases hb with
    | upkeep hkeep => exact hpump (h.upkeep hkeep)
    | write hi' hopen => exact hpump { h with }
    | @lite b now p ack hi' htype hack hlite hkeep =>
      have hbrings : i.liteACK? = some ack := by
        simp [hi', Input.liteACK?, htype, hlite, hack, Except.toOption]
      have hroom := hi.lite ack hbrings
      rw [← hkeep.sendBuf, ← hkeep.rcvFlowWin] at hroom
      obtain ⟨s', hs, hsn, hbounded⟩ := (h.upkeep hkeep).afterLiteACK now hroom
      exact hpump hbounded
    | full hi' htype hack hfull hkeep =>
      have hnot := hi.notFull
      simp [hi', Input.fullACK?, htype, hfull, hack, Except.toOption] at hnot

theorem history_step_of_closed (i : Input) (hclosed : c.closed = true) :
    (c.step i).history = c.history := by
  cases i with
  | write now payload opts => simp [step, writeMsg, hclosed]
  | writeCoordinated now payload seqNo srcTime => simp [step, writeCoordinated, hclosed]
  | packet now p => simp [step, handlePacket, hclosed]
  | timer now id =>
    have hsample := upkeep_sampleInputBandwidth c now
    have hsampled : (c.sampleInputBandwidth now).closed = true := by
      unfold sampleInputBandwidth
      simp only
      split_ifs <;> exact hclosed
    simp [step, handleTimer, hsampled, hsample.history]
  | keepAlive now => simp [step, sendKeepAlive, hclosed]
  | shutdown now => simp [step, shutdown, hclosed]

theorem history_exec_of_closed (is : List Input) (hclosed : c.closed = true) :
    (exec Conn.step c is).history = c.history := by
  have hall : AllSteps Conn.step (fun _ _ => True) c is := allSteps_of_forall_mem fun _ _ => trivial
  have hinv : ∀ (b : Conn σ) (i : Input), b.closed = true ∧ b.history = c.history → True →
      (b.step i).closed = true ∧ (b.step i).history = c.history := fun b i h _ =>
    ⟨closed_step h.1, (history_step_of_closed i h.1).trans h.2⟩
  exact (hall.allStates hinv ⟨hclosed, rfl⟩).exec.2

theorem step_fullACK (hopen : c.closed = false) (hack : i.fullACK? = some ack) :
    ∃ subNo, c.step i = ((c.noteAlive i.now).afterFullACK i.now subNo ack).pump i.now := by
  cases i with
  | packet now p =>
    simp only [Input.fullACK?] at hack
    split_ifs at hack with htype
    obtain ⟨hcontrol, htype, hfull⟩ := htype
    have hok : CIFACK.unmarshalCIF p.data = .ok ack := by
      cases h : CIFACK.unmarshalCIF p.data with
      | error e => simp [h, Except.toOption] at hack
      | ok ack' =>
        rw [h] at hack
        exact congrArg Except.ok (Option.some.inj hack)
    refine ⟨p.header.typeSpecific, ?_⟩
    show c.handlePacket now p = _
    unfold handlePacket
    rw [if_neg (by simp [hopen]), if_neg (by simp [htype])]
    simp only [hcontrol, if_true]
    unfold handleControl
    rw [htype]
    simp only
    rw [handleACK_eq hok, if_neg hfull]
    rfl
  | _ => simp [Input.fullACK?] at hack

theorem Buffers.bounded_fullACK (h : Buffers c s n) (hwelcome : Welcome c i.now ack)
    (hopen : c.closed = false) (hack : i.fullACK? = some ack) :
    ∃ A s' n', wrap A = ack.lastACKPacketSequenceNumber ∧ s ≤ A ∧ A < s + 2 ^ 30 ∧ s ≤ n' ∧
      Bounded (c.step i) s' n' (A + ack.availableBufferSize) ∧
      SendsWithin s (A + ack.availableBufferSize) c (c.step i) := by
  obtain ⟨subNo, hstep⟩ := step_fullACK hopen hack
  obtain ⟨cell, hholds, hlen⟩ := id h
  have hstart := hholds.startSeq_eq
  have hahead := hwelcome.ahead
  have hnear := hwelcome.near
  rw [hstart] at hahead hnear
  set d := distance (wrap s) ack.lastACKPacketSequenceNumber with hd
  have hA : wrap (s + d.toNat) = ack.lastACKPacketSequenceNumber :=
    wrap_add_distance s hwelcome.valid hahead
  obtain ⟨hreleased, hreleasedlen⟩ := hholds.ack_of_le (a := s + d.toNat) (by omega) (by omega)
  have hacked := acked_full (upkeep_noteAlive c i.now) i.now subNo ack
  have hwin : ((c.noteAlive i.now).afterFullACK i.now subNo ack).snd.rcvFlowWin =
      ack.availableBufferSize := by
    rw [snd_afterFullACK]
  have hroom := hwelcome.room
  have hbounded : Bounded ((c.noteAlive i.now).afterFullACK i.now subNo ack)
      (max s (min (s + d.toNat) n)) n (s + d.toNat + ack.availableBufferSize) := by
    refine ⟨⟨cell, ?_, ?_⟩, by rw [hwin]; omega, ?_⟩
    · rw [hacked.sendBuf, ← hA]
      exact hreleased
    · rw [hacked.sendBuf, ← hA, hreleasedlen, hacked.params]
      exact hlen
    · rw [hwin]
      push_cast
      omega
  have htimely := (PumpedFrom.full (upkeep_noteAlive c i.now) i.now subNo ack).timely h
    hwelcome.timely
  have hle := hholds.start_le
  obtain ⟨n', hn, hpumped, hsends⟩ := hbounded.pump i.now hle htimely
  rw [hstep]
  refine ⟨s + d.toNat, _, n', hA, by omega, by omega, by omega, hpumped, ?_⟩
  exact SendsWithin.trans (SendsWithin.of_eq hacked.history) hsends

/-- After a full acknowledgement that reports room, and until the next one, every new
packet lies within that room. -/
theorem sends_within_advertised {ep : EstablishParams} (hcap : ep.sndCap ≤ 2 ^ 30)
    (hisn : Valid ep.sendISN)
    (cc : σ) (now : ℤ) (before : List Input) (hbefore : ∀ i ∈ before, i.Single) {i : Input}
    {ack : CIFACK} (hack : i.fullACK? = some ack)
    (hwelcome : Welcome (exec Conn.step (establish cc now ep) before) i.now ack)
    (after : List Input)
    (hafter : AllSteps Conn.step Steady
      ((exec Conn.step (establish cc now ep) before).step i) after) :
    let c := exec Conn.step (establish cc now ep) before
    ∀ t ∈ (exec Conn.step c (i :: after)).history.drop c.history.length,
      distance ack.lastACKPacketSequenceNumber t.wire.header.sequenceNumber <
        ack.availableBufferSize := by
  intro c
  obtain ⟨s, n, hbuffers⟩ := exists_buffers_exec hcap hisn cc now before hbefore
  cases hclosed : c.closed with
  | true =>
      rw [history_exec_of_closed (i :: after) hclosed, List.drop_length]
      simp
  | false =>
      obtain ⟨A, s₁, n₁, hA, hsA, hAs, hsn, hbounded, hfirst⟩ :=
        Buffers.bounded_fullACK hbuffers hwelcome hclosed hack
      -- the end of the window stays, and so do the bounds of what is sent
      set stop := A + ack.availableBufferSize
      have hinv : ∀ (c' : Conn σ) (j : Input),
          (∃ s' n', s ≤ n' ∧ Bounded c' s' n' stop ∧ SendsWithin s stop c c') → Steady c' j →
          ∃ s' n', s ≤ n' ∧ Bounded (c'.step j) s' n' stop ∧ SendsWithin s stop c (c'.step j) := by
        rintro c' j ⟨s', n', hn, hbounded, hsends⟩ hj
        obtain ⟨s'', n'', hn'', hbounded', hsends'⟩ := hbounded.step hn hj
        exact ⟨s'', n'', by omega, hbounded', hsends.trans hsends'⟩
      obtain ⟨-, -, -, -, new, hhistory, hnew⟩ :=
        (hafter.allStates hinv ⟨s₁, n₁, hsn, hbounded, hfirst⟩).exec
      intro t ht
      have hmem : t ∈ new := by
        have hexec : (exec Conn.step c (i :: after)).history = c.history ++ new := hhistory
        rw [hexec, List.drop_left] at ht
        exact ht
      obtain ⟨x, hlo, hstop, hseq⟩ := hnew t hmem
      rw [← hA, hseq]
      -- numbers are compared within half of their space, which a larger window exceeds
      by_cases hlarge : (2 : ℤ) ^ 30 < ack.availableBufferSize
      · exact (distance_le (valid_wrap A) (valid_wrap x)).trans_lt hlarge
      · rw [distance_wrap (by omega) (by omega)]
        omega

end

end Conn

section Examples

open scoped XorCipher

def fullACKInput (now : ℤ) (a w : ℕ) : Input :=
  .packet now { Packet.newControl .ack 0 0 with
    data := CIFACK.marshalCIF { lastACKPacketSequenceNumber := a, availableBufferSize := w } }

def liteACKInput (now : ℤ) (a : ℕ) : Input :=
  .packet now (Conn.liteACK 0 0 a)

def threeSent : List Input := [.write 0 [1] {}, .write 1000 [2] {}, .write 2000 [3] {}]

/-- The receiver has room for three packets from the second on.  Of two more packets one
is sent; the other one has to wait, also after a lite acknowledgement. -/
theorem sends_within_advertised_three :
    let c := exec Conn.step
      (Conn.establish (LiveCC.new 0 0) 0 { flowWindow := 8, bufferCapacity := 8 }) threeSent
    let c' := exec Conn.step c
      (fullACKInput 3000 1 3 :: [.write 4000 [4] {}, liteACKInput 5000 2, .write 6000 [5] {}])
    (c'.history.drop c.history.length).length = 1 ∧
      ∀ t ∈ c'.history.drop c.history.length, distance 1 t.wire.header.sequenceNumber <
        (3 : ℕ) := by
  have hcap : ({ flowWindow := 8, bufferCapacity := 8 } : EstablishParams).sndCap ≤ 2 ^ 30 := by
    decide
  have hack : (fullACKInput 3000 1 3).fullACK? =
      some { lastACKPacketSequenceNumber := 1, availableBufferSize := 3 } := by decide +kernel
  refine ⟨by decide +kernel,
    Conn.sends_within_advertised hcap (by decide) (LiveCC.new 0 0) 0 threeSent
    (by decide) hack ⟨by decide, by decide +kernel, by decide +kernel, by decide, by decide +kernel⟩
    [.write 4000 [4] {}, liteACKInput 5000 2, .write 6000 [5] {}] ⟨?_, ?_, ?_, trivial⟩⟩
  · exact ⟨by decide, rfl, by decide +kernel, fun ack h => by simp [Input.liteACK?] at h⟩
  · refine ⟨by decide, by decide +kernel, by decide +kernel, fun ack h => Or.inr ?_⟩
    have hlite : (liteACKInput 5000 2).liteACK? = some { lastACKPacketSequenceNumber := 2 } := by
      decide +kernel
    obtain rfl := Option.some.inj (h.symm.trans hlite)
    exact ⟨by decide, by decide +kernel⟩
  · exact ⟨by decide, rfl, by decide +kernel, fun ack h => by simp [Input.liteACK?] at h⟩

/-- A receiver without room does not stop the sender: the packet after the acknowledged
one is sent.  With room for two packets, the third one is sent as soon as a lite
acknowledgement releases both. -/
theorem sends_beyond_advertised :
    (let c := exec Conn.step (Conn.establish (LiveCC.new 0 0) 0
      { flowWindow := 8, bufferCapacity := 8 })
        [.write 0 [1] {}]
      let c' := exec Conn.step c [fullACKInput 1000 1 0, .write 2000 [2] {}]
      ∃ t ∈ c'.history.drop c.history.length, ¬distance 1 t.wire.header.sequenceNumber < (0 : ℕ)) ∧
    (let c := exec Conn.step (Conn.establish (LiveCC.new 0 0) 0
      { flowWindow := 8, bufferCapacity := 8 })
        threeSent
      let c' := exec Conn.step c [fullACKInput 3000 1 2, liteACKInput 4000 3, .write 5000 [4] {}]
      ∃ t ∈ c'.history.drop c.history.length, ¬distance 1 t.wire.header.sequenceNumber <
        (2 : ℕ)) := by
  decide +kernel

end Examples

end SrtGo.Core
