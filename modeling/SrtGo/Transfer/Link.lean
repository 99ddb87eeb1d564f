import SrtGo.Buffer.SendWindow
import SrtGo.Transfer.Endpoint

/-!
# Two endpoints

Two endpoints are joined by a network that may lose, duplicate and reorder.  Whatever an
endpoint sends stays in its part of the network for ever, so that any packet may arrive
any number of times, at any time, or never.

Sequence numbers repeat after `2 ^ 31` packets.  Each packet in the network is therefore
kept with its position (`Flight.pos`): for data the index of the packet among those that
its side sends, for an acknowledgement the number of packets that it acknowledges.  The
position is read off the state of the endpoint that sends; the endpoints themselves never
see it.

## Strategy

`Linked` pairs the invariants of the two endpoints.  The packets a side has released are
accepted by the other, every packet in flight is a packet of its history or an answer
that is still true, and the log that one side receives is the history of the other.
`Linked.advance` is the step lemma: any `Advance` of one side keeps all of this, and the
lemmas after it only have to find the advance.
-/

namespace SrtGo.Core

open Buffer Bytes Congestion Crypto SrtGo.Seq Function

structure Flight where
  packet : Packet
  pos : ℕ

variable {σ : Type} {posted' : Posted} {f : Flight}

def Conn.released (c : Conn σ) : ℕ := c.history.length - c.snd.sendBuf.size.toNat

/-- The position of a packet that the connection sends after `n` packets have left its
receive buffer: the numbers count on from the head of the send buffer or of the receive
buffer. -/
def Conn.placeAt (c : Conn σ) (n : ℕ) (p : Packet) : ℕ :=
  if p.header.isControl then n + ahead c.rcv.recvBuf.startSeq (uint32At p.data 0)
  else c.released + ahead c.snd.sendBuf.startSeq p.header.sequenceNumber

def Conn.log (c : Conn σ) : List Fragment := c.history.map fun t => Fragment.ofPacket t.wire

def Conn.wired (c c' : Conn σ) : List Packet :=
  (c'.outputs.drop c.outputs.length).filterMap Output.packet?

/-! ## The invariant -/

/-- A packet in flight is a packet of the history, or an answer of the receiver that is
still true. -/
def InFlight (risn : ℕ) (c : Conn σ) (w : Window) (f : Flight) : Prop :=
  f.packet.header.isControl = false ∧ (∃ t, c.history[f.pos]? = some t ∧
    (f.packet = t.wire ∨ f.packet = SendBuffer.retransmission t.wire)) ∨
  f.packet.header.isControl = true ∧ (f.packet.header.controlType ∈ [.nak, .ackack, .keepalive] ∨
    f.packet.header.controlType = .ack ∧ uint32At f.packet.data 0 = wrap (risn + f.pos) ∧
      ∀ i < f.pos, Got w (risn + i))

theorem InFlight.mono {risn : ℕ} {c c' : Conn σ} {w w' : Window}
    (hhistory : c.history <+: c'.history)
    (hgot : ∀ p, Got w p → Got w' p) (h : InFlight risn c w f) : InFlight risn c' w' f := by
  rcases h with ⟨hdata, t, ht, hp⟩ | ⟨hcontrol, hreport | ⟨hack, hseq, hall⟩⟩
  · exact Or.inl ⟨hdata, t, getElem?_of_prefix hhistory ht, hp⟩
  · exact Or.inr ⟨hcontrol, Or.inl hreport⟩
  · exact Or.inr ⟨hcontrol, Or.inr ⟨hack, hseq, fun i hi => hgot _ (hall i hi)⟩⟩

/-- The invariant of two endpoints: `s` is the number of packets that each side has
released, and `w` is its receive window. -/
structure Linked (D : Discipline) (isn : Bool → ℕ) (conn : Bool → Conn σ) (net : Bool → List Flight)
    (posted : Bool → Posted) (s : Bool → ℕ) (w : Bool → Window) : Prop where
  endpoint : ∀ x, Endpoint D (isn x) (isn !x) (posted x) (conn !x).log (s x) (w x) (conn x)
  flow : ∀ x, (conn x).params.flowWindow < 2 ^ 30
  acked : ∀ x, ∀ i < s x, Got (w !x) (isn x + i)
  net : ∀ x, ∀ f ∈ net x, InFlight (isn !x) (conn x) (w x) f

/-! ## The positions of packets that are sent -/

section
variable {D : Discipline} {sisn risn s s' i : ℕ} {posted : Posted} {log : List Fragment}
  {w w' : Window} {c c' : Conn σ} {rb : RecvBuffer}

theorem Sends.released_eq (h : Sends sisn posted s c) : c.released = s := by
  obtain ⟨cell, hholds, -⟩ := h.held
  have hsize := hholds.size_eq
  have hacked := h.acked_le
  unfold Conn.released
  omega

theorem Sends.startSeq_eq (h : Sends sisn posted s c) :
    c.snd.sendBuf.startSeq = wrap (sisn + s) := by
  obtain ⟨cell, hholds, -⟩ := h.held
  exact hholds.startSeq_eq

theorem Sends.log_prefix (h : Sends sisn posted s c) : c.log <+: posted.frames := ⟨_, h.queued⟩

theorem RecvState.lt_of_got (h : RecvState risn log w rb) (hgot : Got w (risn + i)) :
    i < log.length := by
  have hstart := h.start_le
  rcases hgot with hbefore | hfull
  · omega
  · rcases lt_or_ge (risn + i) w.start with hlt | hge
    · omega
    · rcases h.filled i hge with hempty | ⟨-, hlogged, -⟩
      · exact absurd hempty hfull
      · exact (List.getElem?_eq_some_iff.mp hlogged).1

theorem RecvState.lt_reach_of_got (h : RecvState risn log w rb) (hgot : Got w (risn + i)) :
    risn + i < w.start + 2 ^ 30 := by
  have hwidth := h.window.width
  have hlen := h.window.len_le
  rcases hgot with hbefore | hfull
  · omega
  · have := w.lt_stop_of_state hfull
    omega

theorem SendState.header_eq {sb : SendBuffer} {flowWindow : ℤ} {history : List Transmission}
    {queue : List Frame} {msgNumber : ℕ}
    (h : SendState sisn posted s sb flowWindow history queue msgNumber) {t : Transmission}
    (ht : history[i]? = some t) {p : Packet}
    (hp : p = t.wire ∨ p = SendBuffer.retransmission t.wire) :
    p.header.isControl = false ∧ p.header.sequenceNumber = wrap (sisn + i) ∧
      Fragment.ofPacket p = Fragment.ofPacket t.wire := by
  obtain ⟨hcontrol, hseq⟩ := h.numbered i t ht
  rcases hp with rfl | rfl
  · exact ⟨hcontrol, hseq, rfl⟩
  · exact ⟨hcontrol, hseq, rfl⟩

/-- The position of a packet that a step sends is its place in its stream. -/
theorem Advance.inFlight (hc : Endpoint D sisn risn posted log s w c)
    (hflow : c.params.flowWindow < 2 ^ 30)
    (h : Advance D sisn risn posted' log s s' w w' c c') {n : ℕ} (hn : w.start = risn + n) :
    ∀ p ∈ c.wired c', InFlight risn c' w' ⟨p, c.placeAt n p⟩ := by
  obtain ⟨os, hos, hall⟩ := h.emits
  intro p hp
  unfold Conn.wired at hp
  rw [hos, List.drop_left] at hp
  obtain ⟨o, ho, hpacket⟩ := List.mem_filterMap.mp hp
  cases o with
  | setTimer id deadline => simp [Output.packet?] at hpacket
  | clearTimer id => simp [Output.packet?] at hpacket
  | sendPacket q owned =>
    obtain rfl : q = p := by simpa [Output.packet?] using hpacket
    rcases hall _ ho with ⟨i, t, hi, ht, hq⟩ | ⟨hcontrol, hreport | ⟨hack, a, hbase, hreach,
      hseq, hgot⟩⟩
    · -- data: the sender is less than two windows ahead of what it has released
      obtain ⟨hdata, hseq, -⟩ := h.endpoint.sends.header_eq ht hq
      have hlt := (List.getElem?_eq_some_iff.mp ht).1
      have hbefore := hc.sends.inFlight
      have hafter := h.endpoint.sends.inFlight
      have hacked := h.acked_le
      rw [h.params] at hafter
      have hplace : c.placeAt n q = i := by
        rw [Conn.placeAt, hdata, if_neg (by simp), hc.sends.released_eq, hc.sends.startSeq_eq, hseq,
          ahead_wrap (by omega) (by omega)]
        omega
      refine Or.inl ⟨hdata, t, ?_, hq⟩
      rw [hplace]
      exact ht
    · exact Or.inr ⟨hcontrol, Or.inl hreport⟩
    · have hplace : c.placeAt n q = a := by
        rw [Conn.placeAt, hcontrol, if_pos rfl, hc.receives.state.window.startSeq_eq, hseq,
          ahead_wrap hbase (by omega)]
        omega
      refine Or.inr ⟨hcontrol, Or.inr ⟨hack, ?_, ?_⟩⟩
      · rw [hplace]
        exact hseq
      · rw [hplace]
        exact hgot

end

/-! ## Steps -/

section
variable {D : Discipline} {isn : Bool → ℕ} {conn : Bool → Conn σ} {net : Bool → List Flight}
  {posted : Bool → Posted} {s : Bool → ℕ} {w : Bool → Window}

theorem Linked.advance (h : Linked D isn conn net posted s w) (x : Bool) {c' : Conn σ} {s' n : ℕ}
    {w' : Window}
    (hadvance : Advance D (isn x) (isn !x) posted' (conn !x).log (s x) s' (w x) w' (conn x) c')
    (hacked : ∀ i < s', Got (w !x) (isn x + i)) (hn : (w x).start = (isn !x) + n) :
    Linked D isn (update conn x c')
      (update net x (net x ++ ((conn x).wired c').map fun p => ⟨p, (conn x).placeAt n p⟩))
      (update posted x posted') (update s x s') (update w x w') := by
  have hlog : (conn x).log <+: c'.log := hadvance.history.map _
  have hne : (!x) ≠ x := by cases x <;> simp
  refine ⟨fun y => ?_, fun y => ?_, fun y => ?_, fun y => ?_⟩ <;>
    rcases Bool.eq_or_eq_not y x with rfl | rfl
  · simp only [update_self, update_of_ne hne]
    exact hadvance.endpoint
  · have hother := h.endpoint (!x)
    simp only [Bool.not_not, update_self, update_of_ne hne] at hother ⊢
    exact ⟨hother.bare, hother.mode, hother.fit, hother.sends, hother.receives.mono hlog
      (D.fit_prefix hadvance.endpoint.fit hadvance.endpoint.sends.log_prefix)⟩
  · rw [update_self, hadvance.params]
    exact h.flow y
  · rw [update_of_ne hne]
    exact h.flow (!x)
  · simp only [update_self, update_of_ne hne]
    exact hacked
  · simp only [Bool.not_not, update_self, update_of_ne hne]
    have hother := h.acked (!x)
    rw [Bool.not_not] at hother
    exact fun i hi => hadvance.forward.got _ (hother i hi)
  · simp only [update_self]
    intro f hf
    rcases List.mem_append.mp hf with hold | hnew
    · exact (h.net y f hold).mono hadvance.history hadvance.forward.got
    · obtain ⟨p, hp, rfl⟩ := List.mem_map.mp hnew
      exact hadvance.inFlight (h.endpoint y) (h.flow y) hn p hp
  · simp only [update_of_ne hne]
    exact h.net (!x)

variable [Controller σ] [Primitives]

/-- A packet of the other side that arrives in time: data is fewer than `2 ^ 30` positions
behind what has left the receive buffer, an acknowledgement behind what has been
released. -/
theorem Linked.advance_packet (h : Linked D isn conn net posted s w) (x : Bool) (now : ℤ)
    (hf : f ∈ net !x)
    (htimely : if f.packet.header.isControl then f.packet.header.controlType = .ack →
      (conn x).released < f.pos + 2 ^ 30 else (w x).start < (isn !x) + f.pos + 2 ^ 30) :
    ∃ s' w', Advance D (isn x) (isn !x) (posted x) (conn !x).log (s x) s' (w x) w' (conn x)
      ((conn x).handlePacket now f.packet) ∧ ∀ i < s', Got (w !x) (isn x + i) := by
  have hend := h.endpoint x
  have hother := h.endpoint (!x)
  have hflight := h.net (!x) f hf
  rw [Bool.not_not] at hother hflight
  -- the part before the dispatch shows nowhere
  have halive := hend.noteAlive now
  have hquiet : ((conn x).noteAlive now).params = (conn x).params ∧
      ((conn x).noteAlive now).history = (conn x).history ∧
      ((conn x).noteAlive now).outputs = (conn x).outputs := by
    unfold Conn.noteAlive
    split_ifs <;> exact ⟨rfl, rfl, rfl⟩
  unfold Conn.handlePacket
  split_ifs with hclosed hhandshake hcontrol
  · exact ⟨s x, w x, Advance.refl hend, h.acked x⟩
  · -- no handshake packet is in flight
    exfalso
    rcases hflight with ⟨hdata, -⟩ | ⟨-, hreport | ⟨hack, -⟩⟩
    · rw [hdata] at hhandshake
      exact absurd hhandshake.1 (by simp)
    · rw [hhandshake.2] at hreport
      simp at hreport
    · rw [hhandshake.2] at hack
      simp at hack
  · rw [if_pos hcontrol] at htimely
    rcases hflight with ⟨hdata, -⟩ | ⟨-, hreport | ⟨hack, hseq, hall⟩⟩
    · rw [hdata] at hcontrol
      exact absurd hcontrol (by simp)
    · refine ⟨s x, w x, Advance.of_quiet ?_ hquiet.1 hquiet.2.1 hquiet.2.2, h.acked x⟩
      simp only [List.mem_cons, List.not_mem_nil, or_false] at hreport
      unfold Conn.handleControl
      rcases hreport with hnak | hackack | hkeepalive
      · rw [hnak]
        exact halive.advance_nak now f.packet
      · rw [hackack]
        exact halive.advance_ackack now f.packet
      · rw [hkeepalive]
        exact halive.advance_keepalive now f.packet
    · -- nothing beyond the window is ever acknowledged
      have hahead : f.pos < s x + 2 ^ 30 := by
        have hinFlight := hend.sends.inFlight
        have hflow := h.flow x
        rcases Nat.eq_zero_or_pos f.pos with hzero | hpos
        · omega
        · have hlt := hother.receives.state.lt_of_got (hall (f.pos - 1) (by omega))
          rw [Conn.log, List.length_map] at hlt
          omega
      have hbehind := htimely hack
      rw [hend.sends.released_eq] at hbehind
      obtain ⟨s', hs', hadvance⟩ := halive.advance_ack hseq hbehind hahead now
      refine ⟨s', w x, Advance.of_quiet ?_ hquiet.1 hquiet.2.1 hquiet.2.2, fun i hi => ?_⟩
      · unfold Conn.handleControl
        rw [hack]
        exact hadvance
      · rcases lt_or_ge i (s x) with hlt | hge
        · exact h.acked x i hlt
        · exact hall i (by omega)
  · rw [if_neg hcontrol] at htimely
    rcases hflight with ⟨-, t, ht, hp⟩ | ⟨hcontrol', -⟩
    · obtain ⟨-, hseq, hfragment⟩ := hother.sends.header_eq ht hp
      have hlt := (List.getElem?_eq_some_iff.mp ht).1
      -- the sender is less than a window ahead of what has been accepted here
      have hahead : (isn !x) + f.pos < (w x).start + 2 ^ 31 := by
        have hinFlight := hother.sends.inFlight
        have hflow := h.flow (!x)
        have hstart := hend.receives.state.isn_le
        rcases Nat.eq_zero_or_pos (s !x) with hzero | hpos
        · omega
        · have hgot := h.acked (!x) (s (!x) - 1) (by omega)
          rw [Bool.not_not] at hgot
          have := hend.receives.state.lt_reach_of_got hgot
          omega
      have hlog : (conn !x).log[f.pos]? = some (Fragment.ofPacket f.packet) := by
        rw [Conn.log, List.getElem?_map, ht, hfragment]
        rfl
      obtain ⟨w', hadvance⟩ := halive.advance_data hseq hlog htimely hahead now
      exact ⟨s x, w', hadvance.of_quiet hquiet.1 hquiet.2.1 hquiet.2.2, h.acked x⟩
    · exact absurd hcontrol' hcontrol

end

/-! ## Fresh connections -/

/-- The flow window is less than half of what the sequence numbers can compare, and the
buffers are at most that half. -/
structure Sized (ep : EstablishParams) : Prop where
  flowWindow : ep.effectiveFlowWindow < 2 ^ 30
  sndCap : ep.sndCap ≤ 2 ^ 30
  rcvCap : ep.rcvCap ≤ 2 ^ 30

structure BareParams (ep : EstablishParams) : Prop where
  live : ep.live = false
  crypto : ep.cryptoCtx = none
  filter : ep.filterConfig = ""

section
variable [Controller σ] {D : Discipline} {ep : Bool → EstablishParams}

theorem endpoint_establish (x : Bool) (hbare : BareParams (ep x))
    (hcrossed : (ep x).recvISN = (ep !x).sendISN) (hvalid : ∀ x, Valid (ep x).sendISN)
    (hsized : Sized (ep x)) (hmode : (ep x).message = D.message) (hfit : D.Fit [])
    (cc : σ) (now : ℤ) (htold : D.Told (ep !x).sendISN [] (ep !x).sendISN
      (Conn.establish cc now (ep x)).rcv.recvBuf []) :
    Endpoint D (ep x).sendISN (ep !x).sendISN {} [] 0 (Window.empty (ep !x).sendISN)
      (Conn.establish cc now (ep x)) := by
  obtain ⟨os, hos⟩ := Conn.exists_establish_eq cc now (ep x)
  have hlen := le_nextPow2 (ep x).sndCap
  have hflow : (ep x).effectiveFlowWindow ≤ (ep x).sndCap := le_max_right _ _
  rw [hos] at htold ⊢
  refine ⟨⟨?_, ?_, ?_, ?_, ?_, rfl⟩, ?_, hfit,
    ⟨⟨fun _ => {}, holds_new hsized.sndCap (hvalid x), ?_⟩,
    hflow.trans hlen, ?_, ?_, rfl, ?_, rfl⟩, ⟨hfit, ⟨?_, le_rfl, le_rfl, ?_⟩, htold⟩⟩
  · simp [Conn.established, Conn.establishedKeys, EstablishParams.context, hbare.crypto]
  · simp [Conn.established, EstablishParams.filter, hbare.filter]
  · simp [Conn.established, EstablishParams.filter, hbare.filter]
  · simp [Conn.established, hbare.live]
  · simp [Conn.established, Conn.establishedParams, EstablishParams.sendDropThresh, hbare.live]
  · simp [Conn.established, Conn.establishedParams, hbare.live, hmode]
  · simp [Conn.established]
  · show ((0 : ℕ) : ℤ) ≤ (0 : ℕ) + (ep x).effectiveFlowWindow
    unfold EstablishParams.effectiveFlowWindow EstablishParams.orDefault
    split_ifs <;> omega
  · simp [Conn.established]
  · simp [Conn.established]
  · have hnew := shows_new hsized.rcvCap (hvalid (!x)) (!(ep x).live && (ep x).message)
    rw [← hcrossed] at hnew ⊢
    exact hnew
  · exact fun i _ => Or.inl rfl

theorem linked_new (hbare : ∀ x, BareParams (ep x))
    (hcrossed : ∀ x, (ep x).recvISN = (ep !x).sendISN)
    (hvalid : ∀ x, Valid (ep x).sendISN) (hsized : ∀ x, Sized (ep x))
    (hmode : ∀ x, (ep x).message = D.message) (hfit : D.Fit []) (cc : Bool → σ) (now : Bool → ℤ)
    (htold : ∀ x, D.Told (ep !x).sendISN [] (ep !x).sendISN
      (Conn.establish (cc x) (now x) (ep x)).rcv.recvBuf []) :
    Linked D (fun x => (ep x).sendISN) (fun x => Conn.establish (cc x) (now x) (ep x)) (fun _ => [])
      (fun _ => {}) (fun _ => 0) (fun x => Window.empty (ep !x).sendISN) := by
  have hfresh : ∀ x, (Conn.establish (cc x) (now x) (ep x)).params.flowWindow =
        (ep x).effectiveFlowWindow ∧ (Conn.establish (cc x) (now x) (ep x)).history = [] := by
    intro x
    rw [Conn.establish_eq]
    exact ⟨rfl, rfl⟩
  refine ⟨fun x => ?_, fun x => ?_, fun x i hi => absurd hi (Nat.not_lt_zero i), by simp⟩
  · have hlog : (Conn.establish (cc !x) (now !x) (ep !x)).log = [] := by
      rw [Conn.log, (hfresh (!x)).2]
      rfl
    rw [hlog]
    exact endpoint_establish x (hbare x) (hcrossed x) hvalid (hsized x) (hmode x) hfit (cc x)
      (now x)
      (htold x)
  · rw [(hfresh x).1]
    exact (hsized x).flowWindow

end

end SrtGo.Core
