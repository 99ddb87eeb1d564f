import SrtGo.Crypto.XorCipher
import SrtGo.Stream.Delivery
import SrtGo.Transfer.Network

/-!
# End-to-end reliability of a byte stream

Two connections in stream mode are joined by a network that may lose, duplicate and
reorder.  The network and its invariant are those of `Transfer/Network`; what a byte
stream adds is its account of what was written.  The pieces of all payloads, one after the
other, are the fragments that were posted, and nothing else about the writes matters.

`Reliable` says what the invariant means for the application at one moment, and
`stream_reliable` that it is so at every moment of every run.
-/

namespace SrtGo.Core

open Buffer Bytes Congestion Crypto SrtGo.Seq Function

/-! ## What reliability means -/

variable {σ : Type}

def Conn.Retains (c : Conn σ) (i : ℕ) (t : Transmission) : Prop :=
  c.released ≤ i ∧ (c.snd.sendBuf.entryAt t.wire.header.sequenceNumber).used = true ∧
    (c.snd.sendBuf.entryAt t.wire.header.sequenceNumber).pkt = t.wire

/-- The `i`-th packet of the stream has been delivered or waits in the receive buffer. -/
def Conn.HasAccepted (c : Conn σ) (i : ℕ) (t : Transmission) : Prop :=
  i < (delivered c.events).length ∨
    i < (delivered c.events).length + c.rcv.recvBuf.len ∧
      (c.rcv.recvBuf.entryAt t.wire.header.sequenceNumber).state = .available ∧
      (c.rcv.recvBuf.entryAt t.wire.header.sequenceNumber).pkt.data = t.wire.data

instance (c : Conn σ) (i : ℕ) (t : Transmission) : Decidable (c.Retains i t) :=
  inferInstanceAs (Decidable (_ ∧ _ ∧ _))

instance (c : Conn σ) (i : ℕ) (t : Transmission) : Decidable (c.HasAccepted i t) :=
  inferInstanceAs (Decidable (_ ∨ _ ∧ _ ∧ _))

structure Reliable [Controller σ] (x y : Party σ) : Prop where
  /-- What is delivered is a first part of what was written. -/
  inOrder : (delivered y.conn.events).flatten <+: x.written.flatten
  /-- A packet leaves the send buffer only after it has been accepted. -/
  kept : ∀ i t, x.conn.history[i]? = some t → x.conn.Retains i t ∨ y.conn.HasAccepted i t
  /-- What was written has been sent or is still queued. -/
  nothingLost : x.conn.history.map (·.wire.data) ++ x.conn.snd.sendQueue.map Frame.payload =
    x.written.flatMap (pieces x.conn.params.payloadSize)
  /-- The buffer takes every packet that the window lets through. -/
  room : x.conn.snd.sendBuf.size < x.conn.window →
    ∀ p now, (x.conn.snd.sendBuf.push p now).isSome

def Party.lost (x y : Party σ) (i : ℕ) : Bool :=
  x.conn.history[i]?.any fun t => decide (¬x.conn.Retains i t ∧ ¬y.conn.HasAccepted i t)

theorem Reliable.lost_eq_false [Controller σ] {x y : Party σ} (h : Reliable x y) (i : ℕ) :
    x.lost y i = false := by
  rw [Party.lost, Option.any_eq_false]
  intro t ht
  rcases h.kept i t ht with hretained | haccepted
  · simp [hretained]
  · simp [haccepted]

/-! ## The invariant -/

def streamAccount : Account .stream where
  Records size written posted :=
    posted.frames.map Fragment.payload = written.flatMap (pieces size)
  nil _ := rfl
  concat h payload := by
    rw [Posted.add, List.map_append, h, cut_payload, List.flatMap_append, List.flatMap_singleton]
  fit _ := trivial

/-! ## What the invariant says -/

theorem flatten_flatMap_pieces (size : ℕ) (written : List Bytes) :
    (written.flatMap (pieces size)).flatten = written.flatten := by
  induction written with
  | nil => rfl
  | cons payload written ih =>
    rw [List.flatMap_cons, List.flatten_append, flatten_pieces, ih, List.flatten_cons]

theorem flatten_prefix {l l' : List Bytes} (h : l <+: l') : l.flatten <+: l'.flatten := by
  obtain ⟨rest, rfl⟩ := h
  rw [List.flatten_append]
  exact List.prefix_append _ _

section
variable {sisn risn s i : ℕ} {posted : Posted} {log : List Fragment} {w : Window} {c : Conn σ}
  {t : Transmission}

theorem Sends.retains (h : Sends sisn posted s c) (hi : s ≤ i) (ht : c.history[i]? = some t) :
    c.Retains i t := by
  obtain ⟨cell, hholds, hcell⟩ := h.held
  have hlt := (List.getElem?_eq_some_iff.mp ht).1
  have hentry : c.snd.sendBuf.entryAt t.wire.header.sequenceNumber = cell (sisn + i) := by
    rw [(h.numbered i t ht).2]
    exact hholds.ring.inside (sisn + i) (by omega) (by omega)
  refine ⟨by rw [h.released_eq]; exact hi, ?_, ?_⟩
  · rw [hentry]
    exact hholds.used _ (by omega) (by omega)
  · rw [hentry]
    exact hcell i t hi ht

theorem Receives.hasAccepted (h : Receives .stream risn log w c) (hgot : Got w (risn + i))
    (hseq : t.wire.header.sequenceNumber = wrap (risn + i))
    (hlog : log[i]? = some (Fragment.ofPacket t.wire)) : c.HasAccepted i t := by
  have hstart : w.start = risn + (delivered c.events).length := h.told.1
  rcases lt_or_ge i (delivered c.events).length with hlt | hge
  · exact Or.inl hlt
  · have hfull : (w.cell (risn + i)).state ≠ .empty := hgot.resolve_left (by omega)
    have hstop := w.lt_stop_of_state hfull
    have hwidth := h.state.window.width
    have hentry : c.rcv.recvBuf.entryAt t.wire.header.sequenceNumber = w.cell (risn + i) := by
      rw [hseq]
      exact h.state.window.entryAt_eq (by omega) (by omega)
    obtain ⟨hstate, hcell, -⟩ := (h.state.filled i (by omega)).resolve_left hfull
    refine Or.inr ⟨by omega, ?_, ?_⟩
    · rw [hentry]
      exact hstate
    · rw [hentry]
      exact congrArg Fragment.payload (Option.some.inj (hlog.symm.trans hcell)).symm

end

theorem Link.Holds.reliable [Controller σ] {isn : Bool → ℕ} {l : Link σ}
    {posted : Bool → Posted} {s : Bool → ℕ} {w : Bool → Window}
    (h : Link.Holds streamAccount isn l posted s w) (x : Bool) : Reliable (l x) (l !x) := by
  have hend := h.linked.endpoint x
  have hother := h.linked.endpoint (!x)
  have hwritten : (posted x).frames.map Fragment.payload = _ := h.records x
  rw [Bool.not_not] at hother
  refine ⟨?_, fun i t ht => ?_, ?_, fun hsize p now => ?_⟩
  · have hsent : (l x).conn.log.map Fragment.payload <+: (posted x).frames.map Fragment.payload :=
      hend.sends.log_prefix.map _
    rw [hwritten] at hsent
    rw [← flatten_flatMap_pieces (l x).conn.params.payloadSize (l x).written]
    exact flatten_prefix (hother.receives.told.2.trans hsent)
  · -- what has been released was acknowledged, and the rest is in the send buffer
    rcases lt_or_ge i (s x) with hlt | hge
    · have hlog : (l x).conn.log[i]? = some (Fragment.ofPacket t.wire) := by
        rw [Conn.log, List.getElem?_map, ht]
        rfl
      exact Or.inr (hother.receives.hasAccepted (h.linked.acked x i hlt)
        (hend.sends.numbered i t ht).2 hlog)
    · exact Or.inl (hend.sends.retains hge ht)
  · have hqueued := congrArg (List.map Fragment.payload) hend.sends.queued
    rw [hwritten, List.map_append, List.map_map, List.map_map] at hqueued
    exact hqueued
  · have hroom := hend.sends.room
    have hwindow := Conn.window_le_flowWindow (l x).conn
    rw [SendBuffer.push, if_neg (by omega)]
    rfl

section
variable [Controller σ] [Primitives]

/-- **A byte stream is reliable.**  Whatever is written, whatever timers fire, and
whatever the network loses, duplicates and reorders: as long as no packet arrives `2 ^ 30`
numbers late, the streams of both directions are reliable at every moment. -/
theorem stream_reliable (cc : Bool → σ) (now : Bool → ℤ) (ep : Bool → EstablishParams)
    (hpair : PlainPair false ep) (hsized : ∀ x, Sized (ep x)) (as : List LinkAction)
    (htimely : Run.AllSteps Link.step Link.Timely (Link.new cc now ep) as) :
    Run.AllStates Link.step (fun l => ∀ x, Reliable (l x) (l !x)) (Link.new cc now ep) as := by
  have hinv := Link.holds_run streamAccount hpair hsized cc now
    (fun _ => ⟨rfl, List.nil_prefix⟩) htimely
  refine hinv.mono ?_
  rintro l ⟨posted, s, w, h⟩ x
  exact h.reliable x

end

section Examples

open scoped XorCipher

def wrappingPair : Bool → EstablishParams
  | true => { sendISN := 2 ^ 31 - 1, recvISN := 5 }
  | false => { sendISN := 5, recvISN := 2 ^ 31 - 1 }

/-- Two payloads arrive in the wrong order, are acknowledged, and are released. -/
def reordered : List LinkAction :=
  [.write true 0 [1, 2, 3] 0, .write true 100000 [4] 0, .deliver false 150000 1,
    .deliver false 200000 0, .timer false 210000 .ack, .deliver true 220000 0]

theorem stream_reliable_reordered :
    Run.AllStates Link.step (fun l => ∀ x, Reliable (l x) (l !x))
      (Link.new (fun _ => LiveCC.new 0 0) (fun _ => 0) wrappingPair) reordered ∧
    delivered (Run.exec Link.step (Link.new (fun _ => LiveCC.new 0 0) (fun _ => 0) wrappingPair)
      reordered false).conn.events = [[1, 2, 3], [4]] := by
  refine ⟨stream_reliable _ _ _ ⟨?_, ?_, ?_, ?_, ?_, ?_⟩ ?_ _
    (by decide +kernel), by decide +kernel⟩
  · decide
  · decide
  · exact fun x => by cases x <;> rfl
  · decide
  · decide
  · decide
  · exact fun x => by cases x <;> exact ⟨by decide, by decide, by decide⟩

def hugePair (_ : Bool) : EstablishParams := { flowWindow := 2 ^ 32 + 1 }

/-- With such a window the size of the ring is no power of two, and its mask maps the
first two packets to one slot: the second write overwrites the first packet, which
nobody has received. -/
theorem stream_unreliable_huge_window :
    PlainPair false hugePair ∧
    Run.AllSteps Link.step Link.Timely (Link.new (fun _ => LiveCC.new 0 0) (fun _ => 0) hugePair)
      [.write true 0 [1] 0, .write true 100000 [2] 0] ∧
    ¬Run.AllStates Link.step (fun l => ∀ x, Reliable (l x) (l !x))
      (Link.new (fun _ => LiveCC.new 0 0) (fun _ => 0) hugePair)
      [.write true 0 [1] 0, .write true 100000 [2] 0] := by
  refine ⟨⟨by decide, by decide, fun _ => rfl, by decide, by decide, by decide⟩,
    by decide +kernel, fun h => ?_⟩
  have hlost := (h.exec true).lost_eq_false 0
  revert hlost
  decide +kernel

end Examples

end SrtGo.Core
