import SrtGo.Buffer.RecvWindow
import SrtGo.Lib.Run

/-!
# What the receive ring remembers

A slot of the ring is reused once the buffer has moved a whole ring further, so
whatever an operation leaves behind in it is only met much later.  This file
follows whole runs of the buffer and asks whether the ring stays faithful to what
happened: whether every slot outside `[startSeq, maxSeq)` is empty, whether a
packet that never arrived before is accepted when it comes, and whether the
acknowledgement point only passes packets that arrived or were given up.

## Strategy

A `History` runs the buffer next to a record, in unwrapped positions, of what was
inserted and dropped.  As long as nothing is discarded, the buffer shows a window
whose full positions are exactly the recorded ones (`Tracked`), and the three
properties follow.  A step that does discard leaves its slot marked as dropped
behind the new start, where nothing clears it: `Stale` describes such a slot, and
a stale slot already contradicts the first property.
-/

namespace SrtGo.Buffer

open SrtGo.Seq RecvBuffer

/-- The operations on a receive buffer.  Parsing has masked the sequence number
of a packet to 31 bits, and a drop point is a sequence number too. -/
inductive RecvOp where
  | insert (p : Packet) (hp : p.WellFormed) (arrivalTS : ℤ)
  | readNext
  | readTSBPD (now : ℤ) (deliveryTime : ℕ → ℤ)
  | readMessage
  | drop (upTo : ℕ) (hupTo : Valid upTo)
  | dropTooLate (now : ℤ) (deliveryTime : ℕ → ℤ)

def RecvOp.apply (rb : RecvBuffer) : RecvOp → RecvBuffer
  | .insert p _ arrivalTS => (rb.insert p arrivalTS).1
  | .readNext => rb.readNext.1
  | .readTSBPD now deliveryTime => (rb.readTSBPD now deliveryTime).1
  | .readMessage => rb.readMessage.1
  | .drop upTo _ => (rb.drop upTo).buffer
  | .dropTooLate now deliveryTime => (rb.dropTooLate now deliveryTime).1

/-- The operation discards at least one position: a drop whose bound lies ahead
of the head, or a head gap that is too late. -/
def RecvOp.Discards (rb : RecvBuffer) : RecvOp → Prop
  | .drop upTo _ => lessThan rb.startSeq upTo = true
  | .dropTooLate now deliveryTime => rb.headTooLate now deliveryTime = true
  | .insert .. | .readNext | .readTSBPD .. | .readMessage => False

/-- A buffer with the positions that were inserted into it and dropped from it;
`start` is the unwrapped position of its head. -/
structure History where
  buffer : RecvBuffer
  start : ℕ
  inserted : List ℕ := []
  dropped : List ℕ := []

namespace History

def new (capacity : ℤ) (initialSeq : ℕ) (messageAPI : Bool) : History :=
  { buffer := (RecvBuffer.new capacity initialSeq).setMessageAPI messageAPI
    start := initialSeq }

/-- The unwrapped position of a sequence number at or after the head. -/
def position (h : History) (s : ℕ) : ℕ := h.start + ahead h.buffer.startSeq s

def step (h : History) (op : RecvOp) : History where
  buffer := op.apply h.buffer
  start := h.position (op.apply h.buffer).startSeq
  inserted :=
    match op with
    | .insert p _ arrivalTS =>
      if (h.buffer.insert p arrivalTS).2.inserted then
        h.position p.header.sequenceNumber :: h.inserted
      else h.inserted
    | _ => h.inserted
  dropped :=
    match op with
    | .drop upTo _ =>
      if lessThan h.buffer.startSeq upTo then
        List.range' h.start (ahead h.buffer.startSeq upTo) ++ h.dropped
      else h.dropped
    | .dropTooLate now deliveryTime =>
      List.range' h.start (h.buffer.dropTooLate now deliveryTime).2 ++ h.dropped
    | _ => h.dropped

def InWindow (rb : RecvBuffer) (s : ℕ) : Prop :=
  s < 2 ^ 31 ∧ 0 ≤ distance rb.startSeq s ∧
    distance rb.startSeq s < distance rb.startSeq rb.maxSeq

/-- The ring is faithful to its history, which began at `isn`. -/
structure Faithful (isn : ℕ) (h : History) : Prop where
  /-- A slot that belongs to no number of `[startSeq, maxSeq)` is empty. -/
  slots : ∀ i, (∀ s, InWindow h.buffer s → h.buffer.index s ≠ i) →
    (h.buffer.entries i).state = .empty
  /-- A packet of the accepted window that was neither inserted nor dropped is
  accepted. -/
  accepts : ∀ (p : Packet) (arrivalTS : ℤ), p.WellFormed →
    0 ≤ distance h.buffer.startSeq p.header.sequenceNumber →
    distance h.buffer.startSeq p.header.sequenceNumber < (h.buffer.len : ℤ) - 1 →
    h.position p.header.sequenceNumber ∉ h.inserted →
    h.position p.header.sequenceNumber ∉ h.dropped →
    (h.buffer.insert p arrivalTS).2.inserted = true
  /-- Every position before the acknowledgement point was inserted or dropped. -/
  acked : ∀ q, isn ≤ q → q < h.position h.buffer.ackSequence →
    q ∈ h.inserted ∨ q ∈ h.dropped

/-! ## Runs that discard nothing -/

/-- The buffer shows a window whose full positions are the inserted ones, and
every position before it was inserted. -/
structure Tracked (isn : ℕ) (h : History) (w : Window) : Prop where
  shows_window : Shows h.buffer w
  start_eq : h.start = w.start
  full : ∀ p, w.start ≤ p → ((w.cell p).state ≠ .empty ↔ p ∈ h.inserted)
  behind : ∀ p, isn ≤ p → p < w.start → p ∈ h.inserted

variable {isn : ℕ} {h : History} {w : Window}

theorem Tracked.position_wrap (ht : Tracked isn h w) {q : ℕ} (hstart : w.start ≤ q)
    (hlt : q < w.start + 2 ^ 31) : h.position (wrap q) = q := by
  rw [position, ht.start_eq, ht.shows_window.startSeq_eq, ahead_wrap hstart hlt]
  omega

theorem Tracked.consumes (ht : Tracked isn h w) {op : RecvOp}
    (hinserted : (h.step op).inserted = h.inserted)
    (hreads : Shows.Reads w (op.apply h.buffer)) : ∃ w', Tracked isn (h.step op) w' := by
  obtain ⟨w', hshows, hconsumes⟩ := hreads
  have hle := w'.start_le_stop
  have hwidth := ht.shows_window.width
  have hlen := ht.shows_window.len_le
  rw [hconsumes.stop] at hle
  refine ⟨w', hshows, ?_, fun p hp => ?_, fun p hp hp' => ?_⟩
  · change h.position (op.apply h.buffer).startSeq = w'.start
    rw [hshows.startSeq_eq]
    exact ht.position_wrap hconsumes.start_le (by omega)
  · rw [hinserted, ← ht.full p (hconsumes.start_le.trans hp), ne_eq, ne_eq, hconsumes.kept p hp]
  · rw [hinserted]
    rcases lt_or_ge p w.start with hlt | hge
    · exact ht.behind p hp hlt
    · exact (ht.full p hge).mp (hconsumes.passed p hge hp')

theorem Tracked.insert (ht : Tracked isn h w) (p : Packet) (hp : p.WellFormed) (arrivalTS : ℤ) :
    ∃ w', Tracked isn (h.step (.insert p hp arrivalTS)) w' := by
  rcases ht.shows_window.insert_cases hp arrivalTS with
    hreject | ⟨q, hstart, hreach, hseq, hempty, haccept⟩
  · refine ht.consumes ?_ ?_
    · simp [step, hreject]
    · simp only [RecvOp.apply, hreject]
      exact ht.shows_window.reads_refl
  · have hshows := ht.shows_window.shows_store hseq hstart hreach arrivalTS
    have hlen := ht.shows_window.len_le
    have hinserted : (h.step (.insert p hp arrivalTS)).inserted = q :: h.inserted := by
      simp only [step, haccept, Shows.insertedAt_inserted, if_true, hseq]
      rw [ht.position_wrap hstart (by omega)]
    refine ⟨_, by simpa only [step, RecvOp.apply, haccept] using hshows, ?_, fun r hr => ?_,
      fun r hr hr' => ?_⟩
    · simp only [step, RecvOp.apply, haccept]
      rw [hshows.startSeq_eq, Window.put_start]
      exact ht.position_wrap le_rfl (by omega)
    · rw [hinserted, List.mem_cons]
      rcases eq_or_ne r q with rfl | hne
      · simp
      · rw [Window.put_cell_of_ne _ _ hne, ht.full r hr]
        simp [hne]
    · rw [hinserted]
      exact List.mem_cons_of_mem _ (ht.behind r hr hr')

theorem Tracked.step (ht : Tracked isn h w) (op : RecvOp) (hop : ¬op.Discards h.buffer) :
    ∃ w', Tracked isn (h.step op) w' := by
  cases op with
  | insert p hp arrivalTS => exact ht.insert p hp arrivalTS
  | readNext => exact ht.consumes (by simp only [History.step]) ht.shows_window.reads_readNext
  | readTSBPD now deliveryTime =>
    exact ht.consumes (by simp only [History.step])
      (ht.shows_window.reads_readTSBPD now deliveryTime)
  | readMessage => exact ht.consumes (by simp only [History.step]) ht.shows_window.reads_readMessage
  | drop upTo hupTo =>
    exact ht.consumes (by simp only [History.step])
      (ht.shows_window.reads_drop (by simpa [RecvOp.Discards] using hop))
  | dropTooLate now deliveryTime =>
    exact ht.consumes (by simp only [History.step])
      (ht.shows_window.reads_dropTooLate (by simpa [RecvOp.Discards] using hop))

theorem Tracked.new {n : ℤ} (hn : n ≤ 2 ^ 30) (hisn : Valid isn) (messageAPI : Bool) :
    Tracked isn (History.new n isn messageAPI) (Window.empty isn) where
  shows_window := shows_new hn hisn messageAPI
  start_eq := rfl
  full p _ := by simp [Window.empty, History.new]
  behind p hp hp' := absurd hp' (not_lt.mpr hp)

theorem inWindow_wrap {rb : RecvBuffer} (hs : Shows rb w) {p : ℕ} (hstart : w.start ≤ p)
    (hstop : p < w.stop) : InWindow rb (wrap p) := by
  have hwidth := hs.width
  have hlen := hs.len_le
  refine ⟨wrap_lt p, ?_⟩
  rw [hs.startSeq_eq, hs.maxSeq_eq, distance_wrap (by omega) (by omega),
    distance_wrap (by omega) (by omega)]
  omega

theorem Tracked.faithful (ht : Tracked isn h w) : Faithful isn h where
  slots i hi := by
    rw [ht.shows_window.ring.outside i]
    intro p hstart hstop
    exact hi _ (inWindow_wrap ht.shows_window hstart hstop)
  accepts p arrivalTS hp hnonneg hdist hinserted _ := by
    have hlen := ht.shows_window.len_le
    rw [ht.shows_window.startSeq_eq] at hnonneg hdist
    have hseq := eq_wrap_of_distance hp.lt hnonneg (by omega)
    set q := w.start + (distance (wrap w.start) p.header.sequenceNumber).toNat with hq
    have hempty : (w.cell q).state = .empty := by
      by_contra hfull
      rw [hseq, ht.position_wrap (by omega) (by omega)] at hinserted
      exact hinserted ((ht.full q (by omega)).mp hfull)
    rw [ht.shows_window.insert_of_empty hseq (by omega) (by omega) hempty]
    exact Shows.insertedAt_inserted _ _
  acked q hisn hq := by
    have hwidth := ht.shows_window.width
    have hlen := ht.shows_window.len_le
    obtain ⟨r, hstart, hstop, hack, hbefore⟩ := ht.shows_window.exists_ackSequence
    rw [hack, ht.position_wrap hstart (by omega)] at hq
    left
    rcases lt_or_ge q w.start with hlt | hge
    · exact ht.behind q hisn hlt
    · exact (ht.full q hge).mp (hbefore q hge hq)

/-! ## Runs that discard something -/

/-- The slot `i` is marked as dropped although no position of `[s, stop)`, the
window of the buffer, belongs to it. -/
structure Stale (rb : RecvBuffer) (i s stop : ℕ) : Prop where
  state : (rb.entries i).state = .drop
  startSeq_eq : rb.startSeq = wrap s
  maxSeq_eq : rb.maxSeq = wrap stop
  near : stop < s + 2 ^ 30
  order : lessThan (wrap s) (wrap stop) = true → s < stop
  free : ∀ p, s ≤ p → p < stop → rb.index (wrap p) ≠ i

variable {rb rb' : RecvBuffer} {i s stop n : ℕ}

theorem Stale.same (hst : Stale rb i s stop) (hsame : SameRing rb rb') : Stale rb' i s stop where
  state := by rw [hsame.entries]; exact hst.state
  startSeq_eq := hsame.startSeq.trans hst.startSeq_eq
  maxSeq_eq := hsame.maxSeq.trans hst.maxSeq_eq
  near := hst.near
  order := hst.order
  free p hp hp' := by rw [index_eq_of_len hsame.len]; exact hst.free p hp hp'

theorem Stale.not_slots (hst : Stale rb i s stop) :
    ¬∀ i, (∀ s, InWindow rb s → rb.index s ≠ i) → (rb.entries i).state = .empty := by
  intro hslots
  have hempty := hslots i ?_
  · rw [hst.state] at hempty
    simp at hempty
  · rintro x ⟨hx, hnonneg, hlt⟩
    rw [hst.startSeq_eq] at hnonneg
    rw [hst.startSeq_eq, hst.maxSeq_eq] at hlt
    have hless := (lessThan_iff_distance_pos (valid_wrap s) (valid_wrap stop)).mpr (by omega)
    have hnear := hst.near
    have horder := hst.order hless
    rw [distance_wrap (p := s) (q := stop) (by omega) (by omega)] at hlt
    rw [eq_wrap_of_distance hx hnonneg (by omega)]
    exact hst.free _ (by omega) (by omega)

theorem Stale.releaseLoop (hst : Stale rb i s stop) (fuel : ℕ) :
    ∃ s', Stale (releaseLoop fuel rb) i s' stop := by
  refine releaseLoop_preserves (Q := fun b => ∃ s', Stale b i s' stop) ?_ fuel ⟨s, hst⟩
  rintro b hless - ⟨s, hst⟩
  have hlt : s < stop := hst.order (by rw [← hst.startSeq_eq, ← hst.maxSeq_eq]; exact hless)
  have hnear := hst.near
  refine ⟨s + 1, ?_, ?_, hst.maxSeq_eq, by omega, fun hless' => ?_, fun p hp hp' => ?_⟩
  · rw [advance_entries, hst.startSeq_eq, Function.update_of_ne (hst.free s le_rfl hlt).symm]
    exact hst.state
  · rw [advance, hst.startSeq_eq, inc_wrap]
  · rw [lessThan_wrap (by omega) (by omega)] at hless'
    exact of_decide_eq_true hless'
  · exact hst.free p (by omega) hp'

/-- What a dropping loop that started at position `s` has done after `n` rounds. -/
structure Dropped (rb : RecvBuffer) (s n : ℕ) (rb' : RecvBuffer) : Prop where
  startSeq_eq : rb'.startSeq = wrap (s + n)
  maxSeq : rb'.maxSeq = rb.maxSeq
  len : rb'.len = rb.len
  marked : 0 < n → (rb'.entries (rb.index rb.startSeq)).state = .drop

theorem Dropped.refl (hs : rb.startSeq = wrap s) : Dropped rb s 0 rb :=
  ⟨hs, rfl, rfl, fun hpos => absurd hpos (lt_irrefl 0)⟩

theorem Dropped.dropHead {rb'' : RecvBuffer} (hs : rb.startSeq = wrap s) (hd : Dropped rb s n rb')
    (hsame : SameRing rb' rb'') : Dropped rb s (n + 1) rb''.dropHead where
  startSeq_eq := by rw [RecvBuffer.dropHead, hsame.startSeq, hd.startSeq_eq, inc_wrap,
    Nat.add_assoc]
  maxSeq := hsame.maxSeq.trans hd.maxSeq
  len := hsame.len.trans hd.len
  marked _ := by
    rw [dropHead_entries]
    by_cases heq : rb.index rb.startSeq = rb''.index rb''.startSeq
    · rw [heq, Function.update_self]
    · rw [Function.update_of_ne heq, hsame.entries]
      refine hd.marked (Nat.pos_of_ne_zero ?_)
      rintro rfl
      rw [index_eq_of_len (hsame.len.trans hd.len), hsame.startSeq, hd.startSeq_eq, hs] at heq
      exact heq rfl

theorem Dropped.stale (hs : Shows rb w) (hd : Dropped rb w.start n rb') (hpos : 0 < n)
    (horder : lessThan (wrap (w.start + n)) (wrap w.stop) = true → w.start + n < w.stop) :
    Stale rb' (rb.index rb.startSeq) (w.start + n) w.stop := by
  have hwidth := hs.width
  have hlen := hs.len_le
  refine ⟨hd.marked hpos, hd.startSeq_eq, hd.maxSeq.trans hs.maxSeq_eq, by omega, horder,
    fun p hp hp' heq => ?_⟩
  rw [index_eq_of_len hd.len, hs.startSeq_eq] at heq
  have := hs.separates p w.start (by omega) (by omega) heq
  omega

theorem exists_stale_drop (hs : Shows rb w) {upTo : ℕ} (hupTo : Valid upTo)
    (hless : lessThan rb.startSeq upTo = true) :
    ∃ s, Stale (rb.drop upTo).buffer (rb.index rb.startSeq) s w.stop := by
  have hvalid : Valid rb.startSeq := hs.startSeq_eq ▸ valid_wrap _
  obtain ⟨hpos, hhalf⟩ := ahead_of_lessThan hvalid hupTo hless
  have hstop := w.start_le_stop
  have hdropped := dropLoop_span (Q := Dropped rb w.start)
    (fun _ _ _ hsame hd => hd.dropHead hs.startSeq_eq hsame) hvalid hupTo
      (Dropped.refl hs.startSeq_eq)
  rw [dropSpan, if_pos hless] at hdropped
  have hstale := hdropped.stale hs hpos fun horder => by
    by_contra hge
    rcases Nat.lt_or_ge (w.start + ahead rb.startSeq upTo) (w.stop + 2 ^ 30) with hlt | hfar
    · rw [lessThan_wrap hlt (by have := hs.width; have := hs.len_le; omega)] at horder
      exact hge (of_decide_eq_true horder)
    · -- the head went half of the sequence space ahead of an empty window
      have hstop' : w.stop = w.start := by omega
      rw [hs.startSeq_eq, wrap_add_ahead _ hupTo, hstop', ← hs.startSeq_eq,
        lessThan_asymm hless] at horder
      exact absurd horder (by simp)
  obtain ⟨s', hrelease⟩ := hstale.releaseLoop _
  exact ⟨s', hrelease.same (sameRing_drop rb upTo)⟩

theorem exists_stale_dropTooLate (hs : Shows rb w) {now : ℤ} {deliveryTime : ℕ → ℤ}
    (hlate : rb.headTooLate now deliveryTime = true) :
    ∃ s, Stale (rb.dropTooLate now deliveryTime).1 (rb.index rb.startSeq) s w.stop := by
  have hwidth := hs.width
  have hlen := hs.len_le
  have hless := lessThan_of_headTooLate hlate
  rw [hs.startSeq_eq, hs.lessThan_maxSeq le_rfl w.start_le_stop, decide_eq_true_eq] at hless
  obtain ⟨k, hk, hdropped, hround⟩ :=
    dropTooLateLoop_rounds now deliveryTime (Q := Dropped rb w.start)
    (fun _ _ _ hd => hd.dropHead hs.startSeq_eq (SameRing.refl _)) (ahead rb.startSeq rb.maxSeq)
    (Dropped.refl hs.startSeq_eq)
  rw [hs.ahead_eq] at hk hround
  rw [Nat.zero_add] at hdropped
  refine (hdropped.stale hs (hround hlate (by omega)) fun horder => ?_).releaseLoop _
  rw [lessThan_wrap (by omega) (by omega)] at horder
  exact of_decide_eq_true horder

/-- A step that discards something breaks the first property at once. -/
theorem Tracked.not_faithful_of_discards (ht : Tracked isn h w) (op : RecvOp)
    (hop : op.Discards h.buffer) : ¬Faithful isn (h.step op) := by
  intro hfaithful
  cases op with
  | drop upTo hupTo =>
    obtain ⟨s, hstale⟩ := exists_stale_drop ht.shows_window hupTo hop
    exact hstale.not_slots hfaithful.slots
  | dropTooLate now deliveryTime =>
    obtain ⟨s, hstale⟩ := exists_stale_dropTooLate ht.shows_window hop
    exact hstale.not_slots hfaithful.slots
  | insert _ _ _ | readNext | readTSBPD _ _ | readMessage => exact hop

/-- **When the ring is faithful.**  For a ring that sequence numbers can order
(a capacity of at most `2 ^ 30`), the buffer is faithful to its history in every
state of a run exactly when no step of the run discards anything. -/
theorem faithful_iff_nothing_discarded (n : ℤ) (hn : n ≤ 2 ^ 30) (isn : ℕ) (hisn : Valid isn)
    (messageAPI : Bool) (ops : List RecvOp) :
    Run.AllStates step (Faithful isn) (History.new n isn messageAPI) ops ↔
      Run.AllSteps step (fun h op => ¬op.Discards h.buffer) (History.new n isn messageAPI) ops := by
  refine Run.allStates_iff_allSteps (Q := fun h => ∃ w, Tracked isn h w) ?_ ?_ ?_ ?_
  · rintro h ⟨w, ht⟩
    exact ht.faithful
  · rintro h op ⟨w, ht⟩ hop
    exact ht.step op hop
  · rintro h op ⟨w, ht⟩ hop
    exact ht.not_faithful_of_discards op (not_not.mp hop)
  · exact ⟨_, Tracked.new hn hisn messageAPI⟩

/-- A run across the wrap of the sequence numbers that discards nothing. -/
theorem faithful_across_wrap :
    (4 : ℤ) ≤ 2 ^ 30 ∧ Valid 0x7FFFFFFF ∧
      Run.AllStates step (Faithful 0x7FFFFFFF) (History.new 4 0x7FFFFFFF false)
        [.insert (Packet.newData 0 20 1 [7]) (by decide) 0, .readNext,
          .insert (Packet.newData 0x7FFFFFFF 10 1 [5]) (by decide) 1, .readNext, .readMessage] := by
  refine ⟨by norm_num, by decide, ?_⟩
  refine (faithful_iff_nothing_discarded 4 (by norm_num) _ (by decide) false _).mpr ?_
  simp only [Run.AllSteps, RecvOp.Discards, not_false_eq_true, and_self]

/-- In a ring of four slots, dropping position 0 leaves its slot marked behind the
head.  Once position 1 has been inserted and read, position 4 comes to the same
slot: it is within the accepted window and was never inserted or dropped, but it
is taken for a duplicate.  And once position 5 arrives, the acknowledgement point
passes position 4 as if it were there. -/
theorem dropped_slot_met_again :
    ¬Faithful 0 (Run.exec step (History.new 4 0 false)
        [.drop 1 (by decide), .insert (Packet.newData 1 0 1 [1]) (by decide) 0, .readNext]) ∧
      ¬Faithful 0 (Run.exec step (History.new 4 0 false)
        [.drop 1 (by decide), .insert (Packet.newData 1 0 1 [1]) (by decide) 0,
          .insert (Packet.newData 2 0 1 [2]) (by decide) 0,
          .insert (Packet.newData 3 0 1 [3]) (by decide) 0, .readNext, .readNext,
          .insert (Packet.newData 5 0 1 [5]) (by decide) 0]) := by
  constructor
  · intro hfaithful
    have haccepted := hfaithful.accepts (Packet.newData 4 0 1 [4]) 0 (by decide) (by decide +kernel)
      (by decide +kernel) (by decide +kernel) (by decide +kernel)
    revert haccepted
    decide +kernel
  · intro hfaithful
    have hacked := hfaithful.acked 4 (by decide) (by decide +kernel)
    revert hacked
    decide +kernel

end History

end SrtGo.Buffer
