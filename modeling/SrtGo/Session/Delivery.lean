import SrtGo.Core.Conn
import SrtGo.Lib.Run

/-!
# The delivery queue of a session

The loop of a session hands what its connection delivers to the readers through one
bounded queue.  The queue is a ring that doubles when it is full; two limits bound the
number of the queued deliveries and the memory behind them.  In live mode the oldest
deliveries make room for a new one.  In the other modes an overflow is an error for good,
and what is queued stays readable.

The second part says what the ring is for: a queue with the same two limits, of which every
operation of the ring is one step.
-/

namespace SrtGo.Session

open SrtGo.Core

/-- A received message on its way to a reader.  `cap` is the capacity of the slice that
holds the data. -/
structure Delivery where
  data : Bytes := []
  cap : ℕ := 0
  boundary : PacketPosition := .middle
  msgNo : ℕ := 0
  seq : ℕ := 0
deriving DecidableEq, Repr, Inhabited

/-- The ring of the queued deliveries.  `err` is set once a reliable receiver has
overflowed. -/
structure DeliveryQueue where
  buf : List Delivery := []
  head : ℕ := 0
  size : ℕ := 0
  bytes : ℤ := 0
  readyLimit : ℕ
  capacity : ℕ
  byteLimit : ℤ
  err : Bool := false
  dropped : ℕ := 0
  dropBytes : ℕ := 0
deriving Repr

namespace DeliveryQueue

def new (ready backlog : ℕ) (bytes : ℤ) : DeliveryQueue :=
  { readyLimit := ready, capacity := ready + backlog, byteLimit := bytes }

def sessionReadQueueSize : ℕ := 32768
def sessionDeliveryBacklogSize : ℕ := 65536
def sessionDeliveryByteLimit : ℤ := 128 * 2 ^ 20

def popLocked (q : DeliveryQueue) : DeliveryQueue × Delivery :=
  let d := q.buf.getD q.head default
  ({ q with
      buf := q.buf.set q.head default
      head := (q.head + 1) % q.buf.length
      size := q.size - 1
      bytes := q.bytes - d.cap }, d)

def discard (q : DeliveryQueue) (d : Delivery) : DeliveryQueue :=
  { q with dropped := q.dropped + 1, dropBytes := q.dropBytes + d.data.length }

def fits (q : DeliveryQueue) (d : Delivery) : Bool :=
  decide (q.size < q.capacity ∧ (d.cap : ℤ) ≤ q.byteLimit - q.bytes)

def makeRoom (d : Delivery) : ℕ → DeliveryQueue → DeliveryQueue
  | 0, q => q
  | fuel + 1, q =>
    if q.fits d then q
    else
      let r := q.popLocked
      makeRoom d fuel (r.1.discard r.2)

/-- Double a ring that is full; the deliveries move to its start. -/
def grow (q : DeliveryQueue) : DeliveryQueue :=
  if q.size = q.buf.length then
    let n := min q.capacity (max 64 (q.buf.length * 2))
    let moved := (List.range q.size).map fun i => q.buf.getD ((q.head + i) % q.buf.length) default
    { q with buf := moved ++ List.replicate (n - q.size) default, head := 0 }
  else q

def append (q : DeliveryQueue) (d : Delivery) : DeliveryQueue :=
  { q with
    buf := q.buf.set ((q.head + q.size) % q.buf.length) d
    size := q.size + 1
    bytes := q.bytes + d.cap }

/-- Queue a delivery; the result says whether the session may go on.  An overload of a
live receiver evicts the oldest data, that of a reliable one fails the connection. -/
def push (q : DeliveryQueue) (d : Delivery) (live : Bool) : DeliveryQueue × Bool :=
  if q.err then (q.discard d, false)
  else if !q.fits d && !live then ({ q with err := true }.discard d, false)
  else if q.byteLimit < d.cap ∨ q.capacity = 0 then (q.discard d, true)
  else (((makeRoom d q.size q).grow).append d, true)

def pop (q : DeliveryQueue) : DeliveryQueue × Option Delivery :=
  if q.size = 0 then (q, none)
  else
    let r := q.popLocked
    (r.1, some r.2)

section
variable {q : DeliveryQueue} {d : Delivery} {live : Bool}

theorem err_of_push (h : (q.push d live).2 = false) : (q.push d live).1.err = true := by
  unfold push at h ⊢
  split_ifs at h ⊢ with herr hover
  · exact herr
  · rfl

theorem err_push (h : q.err = true) : (q.push d live).1.err = true := by
  unfold push
  rw [if_pos h]
  exact h

theorem err_pop (h : q.err = true) : q.pop.1.err = true := by
  unfold pop
  split_ifs <;> exact h

end

end DeliveryQueue

/-! ## The queue that the ring stands for -/

def totalCap (ds : List Delivery) : ℤ := (ds.map fun d => (d.cap : ℤ)).sum

def room (capacity : ℕ) (byteLimit : ℤ) (items : List Delivery) (d : Delivery) : Bool :=
  decide (items.length < capacity ∧ totalCap items + d.cap ≤ byteLimit)

/-- What a bounded queue holds, oldest first, and whether it has overflowed. -/
structure Fifo where
  items : List Delivery
  failed : Bool

inductive QueueOp where
  | push (d : Delivery) (live : Bool)
  | pop

inductive QueueAnswer where
  | pushed (ok : Bool)
  | popped (d : Option Delivery)

inductive Fifo.Step (capacity : ℕ) (byteLimit : ℤ) : Fifo → QueueOp → QueueAnswer → Fifo → Prop
  /-- An overflow that is not live fails the queue; a queue that has failed takes nothing more. -/
  | refuse {f : Fifo} {d : Delivery} {live : Bool}
      (h : f.failed = true ∨ live = false ∧ room capacity byteLimit f.items d = false) :
      Step capacity byteLimit f (.push d live) (.pushed false) { f with failed := true }
  /-- No eviction makes room for a delivery that the empty queue has no room for. -/
  | pass {f : Fifo} {d : Delivery} (hfailed : f.failed = false) (hlarge : byteLimit < d.cap ∨
    capacity = 0) :
      Step capacity byteLimit f (.push d true) (.pushed true) f
  /-- The oldest deliveries make room, no more of them than needed and none if the receiver is
  reliable. -/
  | store {f : Fifo} {d : Delivery} {live : Bool} (k : ℕ) (hfailed : f.failed = false)
      (hroom : room capacity byteLimit (f.items.drop k) d = true)
      (hleast : ∀ j < k, room capacity byteLimit (f.items.drop j) d = false)
        (hlive : live = false → k = 0) :
      Step capacity byteLimit f (.push d live) (.pushed true)
        { f with items := f.items.drop k ++ [d] }
  | take {d : Delivery} {ds : List Delivery} {failed : Bool} :
      Step capacity byteLimit ⟨d :: ds, failed⟩ .pop (.popped (some d)) ⟨ds, failed⟩
  | empty {failed : Bool} : Step capacity byteLimit ⟨[], failed⟩ .pop (.popped none) ⟨[], failed⟩

namespace DeliveryQueue

def apply (q : DeliveryQueue) : QueueOp → DeliveryQueue × QueueAnswer
  | .push d live => ((q.push d live).1, .pushed (q.push d live).2)
  | .pop => (q.pop.1, .popped q.pop.2)

def contents (q : DeliveryQueue) : List Delivery :=
  (List.range q.size).map fun i => q.buf.getD ((q.head + i) % q.buf.length) default

/-- The ring holds the items, its counters are right and both are within the limits. -/
structure Holds (q : DeliveryQueue) (items : List Delivery) : Prop where
  contents : q.contents = items
  ring : q.size ≤ q.buf.length
  head : 0 < q.buf.length → q.head < q.buf.length
  bytes : q.bytes = totalCap items
  size_le : q.size ≤ q.capacity
  bytes_le : q.bytes ≤ q.byteLimit

variable {q : DeliveryQueue} {d x : Delivery} {items xs : List Delivery}

theorem contents_popLocked (hpos : 0 < q.size) (hring : q.size ≤ q.buf.length)
    (hhead : q.head < q.buf.length) :
    q.contents = q.popLocked.2 :: q.popLocked.1.contents := by
  obtain ⟨n, hn⟩ : ∃ n, q.size = n + 1 := ⟨q.size - 1, by omega⟩
  simp only [contents, popLocked, hn, List.range_succ_eq_map, List.map_cons, List.map_map,
    List.length_set,
    Nat.add_sub_cancel, Nat.add_zero, Nat.mod_eq_of_lt hhead, List.cons.injEq, true_and]
  refine List.map_congr_left fun i hi => ?_
  have hi := List.mem_range.mp hi
  -- the slot that is cleared is another one
  have hne : q.head ≠ (q.head + (i + 1)) % q.buf.length := by
    intro heq
    have := Ring.separates_mod q.buf.length q.head (q.head + (i + 1)) (by omega) (by omega)
      ((Nat.mod_eq_of_lt hhead).trans heq)
    omega
  show q.buf.getD ((q.head + (i + 1)) % q.buf.length) default = _
  rw [Nat.mod_add_mod, Nat.add_right_comm q.head 1 i, Nat.add_assoc q.head i 1,
    List.getD_eq_getElem?_getD, List.getD_eq_getElem?_getD, List.getElem?_set_ne hne]

theorem contents_grow (q : DeliveryQueue) : q.grow.contents = q.contents := by
  unfold grow
  split_ifs with hfull
  · simp only [contents, List.length_append, List.length_map, List.length_range,
      List.length_replicate, Nat.zero_add]
    refine List.map_congr_left fun i hi => ?_
    have hi := List.mem_range.mp hi
    rw [Nat.mod_eq_of_lt (by omega), List.getD_append _ _ _ _ (by simpa using hi),
      List.getD_eq_getElem?_getD, List.getElem?_map, List.getElem?_range hi]
    rfl
  · rfl

theorem contents_append (hroom : q.size < q.buf.length) :
    (q.append d).contents = q.contents ++ [d] := by
  simp only [contents, append, List.range_succ, List.map_append, List.map_singleton,
    List.length_set]
  congr 1
  · refine List.map_congr_left fun i hi => ?_
    have hi := List.mem_range.mp hi
    have hne : (q.head + q.size) % q.buf.length ≠ (q.head + i) % q.buf.length := by
      intro heq
      have := Ring.separates_mod q.buf.length (q.head + q.size) (q.head + i) (by omega)
        (by omega) heq
      omega
    rw [List.getD_eq_getElem?_getD, List.getD_eq_getElem?_getD, List.getElem?_set_ne hne]
  · have hlt : (q.head + q.size) % q.buf.length < q.buf.length := Nat.mod_lt _ (by omega)
    rw [List.getD_eq_getElem?_getD, List.getElem?_set_self (by simpa using hlt), Option.getD_some]

namespace Holds

theorem size_eq (h : q.Holds items) : q.size = items.length := by
  rw [← h.contents, DeliveryQueue.contents, List.length_map, List.length_range]

theorem fits_eq (h : q.Holds items) (d : Delivery) :
    q.fits d = room q.capacity q.byteLimit items d := by
  unfold DeliveryQueue.fits room
  rw [h.size_eq, h.bytes]
  exact decide_eq_decide.mpr (and_congr_right' (by omega))

theorem popLocked (h : q.Holds (x :: xs)) : q.popLocked.2 = x ∧ q.popLocked.1.Holds xs := by
  have hsize := h.size_eq
  have hring := h.ring
  rw [List.length_cons] at hsize
  have hhead := h.head (by omega)
  have hcontents := contents_popLocked (by omega) hring hhead
  rw [h.contents] at hcontents
  obtain ⟨hx, hxs⟩ := List.cons.inj hcontents
  have hle := h.size_le
  have hlimit := h.bytes_le
  have hbytes : q.popLocked.1.bytes = totalCap xs := by
    show q.bytes - (q.popLocked.2).cap = _
    rw [← hx, h.bytes, totalCap, List.map_cons, List.sum_cons, totalCap]
    omega
  refine ⟨hx.symm, hxs.symm, ?_, fun _ => ?_, hbytes, ?_, ?_⟩
  · show q.size - 1 ≤ (q.buf.set q.head default).length
    rw [List.length_set]
    omega
  · show (q.head + 1) % q.buf.length < (q.buf.set q.head default).length
    rw [List.length_set]
    exact Nat.mod_lt _ (by omega)
  · show q.size - 1 ≤ q.capacity
    omega
  · show q.bytes - (q.popLocked.2).cap ≤ q.byteLimit
    omega

theorem discard (h : q.Holds items) (d : Delivery) : (q.discard d).Holds items :=
  { h with }

/-- The eviction loop ends with room for the new delivery: its fuel, the size of the queue, is
enough. -/
theorem makeRoom (h : q.Holds items) (hcap : (d.cap : ℤ) ≤ q.byteLimit) (hpos : q.capacity ≠ 0) :
    ∃ k q', DeliveryQueue.makeRoom d q.size q = q' ∧ q'.Holds (items.drop k) ∧
      (q'.capacity = q.capacity ∧ q'.byteLimit = q.byteLimit ∧ q'.err = q.err) ∧
      room q.capacity q.byteLimit (items.drop k) d = true ∧
      ∀ j < k, room q.capacity q.byteLimit (items.drop j) d = false := by
  rw [h.size_eq]
  induction items generalizing q with
  | nil =>
    refine ⟨0, q, rfl, h, ⟨rfl, rfl, rfl⟩, decide_eq_true ⟨Nat.pos_of_ne_zero hpos, ?_⟩,
      fun j hj => by omega⟩
    simpa [totalCap] using hcap
  | cons x xs ih =>
    rw [List.length_cons, DeliveryQueue.makeRoom, h.fits_eq]
    split_ifs with hroom
    · exact ⟨0, q, rfl, h, ⟨rfl, rfl, rfl⟩, hroom, fun j hj => by omega⟩
    · obtain ⟨k, q', heq, hholds, hsame, hfits, hbefore⟩ := ih (h.popLocked.2.discard _) hcap hpos
      refine ⟨k + 1, q', heq, hholds, hsame, hfits, fun j hj => ?_⟩
      cases j with
      | zero => simpa using hroom
      | succ j => exact hbefore j (by omega)

theorem append (h : q.Holds items) (hroom : room q.capacity q.byteLimit items d = true) :
    (q.grow.append d).Holds (items ++ [d]) ∧ (q.grow.append d).capacity = q.capacity ∧
      (q.grow.append d).byteLimit = q.byteLimit ∧ (q.grow.append d).err = q.err := by
  obtain ⟨hlength, htotal⟩ := of_decide_eq_true hroom
  have hsize := h.size_eq
  have hring := h.ring
  have hbytes := h.bytes
  have hgrown : q.grow.size = q.size ∧ q.size < q.grow.buf.length ∧ q.grow.capacity = q.capacity ∧
      q.grow.byteLimit = q.byteLimit ∧ q.grow.err = q.err ∧ q.grow.bytes = q.bytes ∧
      q.grow.head < q.grow.buf.length := by
    unfold grow
    split_ifs with hfull
    · have hlonger : q.size <
        ((List.range q.size).map fun i => q.buf.getD ((q.head + i) % q.buf.length) default).length +
          (min q.capacity (max 64 (q.buf.length * 2)) - q.size) := by
        rw [List.length_map, List.length_range]
        omega
      simp only [List.length_append, List.length_replicate]
      exact ⟨trivial, hlonger, trivial, trivial, trivial, trivial, by omega⟩
    · have hlt : q.size < q.buf.length := by omega
      exact ⟨rfl, hlt, rfl, rfl, rfl, rfl, h.head (by omega)⟩
  obtain ⟨hsize', hlt, hcapacity, hlimit, herr, hbytes', hhead⟩ := hgrown
  have hcontents : (q.grow.append d).contents = items ++ [d] := by
    rw [contents_append (hsize' ▸ hlt), contents_grow, h.contents]
  refine ⟨⟨hcontents, ?_, fun _ => ?_, ?_, ?_, ?_⟩, hcapacity, hlimit, herr⟩
  · show q.grow.size + 1 ≤ (q.grow.buf.set _ d).length
    rw [List.length_set, hsize']
    exact hlt
  · show q.grow.head < (q.grow.buf.set _ d).length
    rw [List.length_set]
    exact hhead
  · show q.grow.bytes + d.cap = totalCap (items ++ [d])
    rw [hbytes', hbytes, totalCap, totalCap, List.map_append, List.sum_append, List.map_singleton,
      List.sum_singleton]
  · show q.grow.size + 1 ≤ q.grow.capacity
    omega
  · show q.grow.bytes + d.cap ≤ q.grow.byteLimit
    omega

end Holds

structure Refines (q : DeliveryQueue) (f : Fifo) : Prop where
  holds : q.Holds f.items
  failed : q.err = f.failed

/-- Every operation on the ring is one of the bounded queue. -/
theorem Refines.step {f : Fifo} (h : q.Refines f) (op : QueueOp) :
    ∃ f', (q.apply op).1.Refines f' ∧ Fifo.Step q.capacity q.byteLimit f op (q.apply op).2 f' ∧
      (q.apply op).1.capacity = q.capacity ∧ (q.apply op).1.byteLimit = q.byteLimit := by
  obtain ⟨items, failed⟩ := f
  obtain ⟨hholds, rfl⟩ := h
  cases op with
  | push d live =>
    simp only [apply, DeliveryQueue.push, hholds.fits_eq]
    split_ifs with herr hover hlarge
    · exact ⟨⟨items, true⟩, ⟨hholds.discard d, herr⟩, .refuse (Or.inl herr), rfl, rfl⟩
    · simp only [Bool.and_eq_true, Bool.not_eq_true'] at hover
      exact ⟨⟨items, true⟩, ⟨{ hholds with }, rfl⟩, .refuse (Or.inr ⟨hover.2, hover.1⟩), rfl, rfl⟩
    · have hlive : live = true := by
        by_contra hnot
        obtain ⟨hlength, htotal⟩ : items.length < q.capacity ∧
            totalCap items + d.cap ≤ q.byteLimit := by
          simpa [hnot, room] using hover
        have hnonneg : 0 ≤ totalCap items := List.sum_nonneg (by simp)
        omega
      rw [hlive]
      exact ⟨⟨items, q.err⟩, ⟨hholds.discard d, rfl⟩, .pass (by simpa using herr) hlarge, rfl, rfl⟩
    · push Not at hlarge
      obtain ⟨k, q', heq, hmade, ⟨hcapacity, hlimit, herr'⟩, hroom, hbefore⟩ :=
        hholds.makeRoom hlarge.1 hlarge.2
      rw [heq]
      obtain ⟨happended, hcapacity', hlimit', herr''⟩ :=
        hmade.append (by rw [hcapacity, hlimit]; exact hroom)
      refine ⟨⟨items.drop k ++ [d], q.err⟩, ⟨happended, herr''.trans herr'⟩,
        .store (f := ⟨items, q.err⟩) k (by simpa using herr) hroom hbefore fun hlive => ?_,
        hcapacity'.trans hcapacity, hlimit'.trans hlimit⟩
      -- the delivery fits at once if the receiver is reliable
      by_contra hk
      have hfull : room q.capacity q.byteLimit items d = false := hbefore 0 (Nat.pos_of_ne_zero hk)
      simp [hlive, hfull] at hover
  | pop =>
    have hsize := hholds.size_eq
    simp only [apply, pop]
    cases items with
    | nil =>
      rw [if_pos (show q.size = 0 from hsize)]
      exact ⟨_, ⟨hholds, rfl⟩, .empty, rfl, rfl⟩
    | cons x xs =>
      rw [if_neg (by simp [hsize])]
      obtain ⟨hx, hxs⟩ := hholds.popLocked
      exact ⟨⟨xs, q.err⟩, ⟨hxs, rfl⟩, hx ▸ .take, rfl, rfl⟩

end DeliveryQueue

/-! ## Runs -/

/-- A queue with a record of what was pushed, what was accepted and what was popped, and of whether
a push was live or was refused. -/
structure QueueLog where
  queue : DeliveryQueue
  pushed : List Delivery := []
  accepted : List Delivery := []
  popped : List Delivery := []
  live : Bool := false
  refused : Bool := false

namespace QueueLog

def note (x : QueueLog) (q : DeliveryQueue) : QueueOp → QueueAnswer → QueueLog
  | .push d live, .pushed ok =>
    { x with
      queue := q
      pushed := x.pushed ++ [d]
      accepted := if ok then x.accepted ++ [d] else x.accepted
      live := x.live || live
      refused := x.refused || !ok }
  | _, .popped (some d) => { x with queue := q, popped := x.popped ++ [d] }
  | _, _ => { x with queue := q }

def step (x : QueueLog) (op : QueueOp) : QueueLog :=
  x.note (x.queue.apply op).1 op (x.queue.apply op).2

structure IsBoundedFifo (capacity : ℕ) (bytes : ℤ) (x : QueueLog) : Prop where
  /-- Whatever comes next is an operation of the bounded queue with these limits. -/
  refines : ∀ op, Fifo.Step capacity bytes ⟨x.queue.contents, x.queue.err⟩ op (x.queue.apply op).2
    ⟨(x.queue.apply op).1.contents, (x.queue.apply op).1.err⟩
  /-- What was popped, and what is queued, was pushed in this order. -/
  order : (x.popped ++ x.queue.contents).Sublist x.pushed
  /-- The counters are right and within the limits. -/
  counters : x.queue.size = x.queue.contents.length ∧ x.queue.bytes = totalCap x.queue.contents ∧
    x.queue.size ≤ capacity ∧ x.queue.bytes ≤ bytes
  /-- A reliable receiver loses nothing that was accepted. -/
  lossless : x.live = false → x.popped ++ x.queue.contents = x.accepted
  /-- After the first overflow the queue has failed, and refuses every push. -/
  failed : x.refused = true → x.queue.err = true
  /-- A ring that grows keeps the order. -/
  growth : x.queue.grow.contents = x.queue.contents

structure Sound (capacity : ℕ) (bytes : ℤ) (f : Fifo) (x : QueueLog) : Prop where
  refines : x.queue.Refines f
  limits : x.queue.capacity = capacity ∧ x.queue.byteLimit = bytes
  order : (x.popped ++ f.items).Sublist x.pushed
  lossless : x.live = false → x.popped ++ f.items = x.accepted
  failed : x.refused = true → f.failed = true

variable {capacity : ℕ} {bytes : ℤ} {f : Fifo} {x : QueueLog}

theorem Sound.step (h : x.Sound capacity bytes f) (op : QueueOp) :
    ∃ f', (x.step op).Sound capacity bytes f' := by
  obtain ⟨hrefines, ⟨rfl, rfl⟩, horder, hlossless, hfailed⟩ := h
  obtain ⟨f', hnext, hstep, hlimits⟩ := hrefines.step op
  refine ⟨f', ?_⟩
  unfold QueueLog.step
  generalize (x.queue.apply op).1 = q at *
  generalize (x.queue.apply op).2 = a at *
  cases hstep with
  | refuse hcause =>
    refine ⟨hnext, hlimits, horder.trans (List.sublist_append_left _ _), fun hlive => ?_,
      fun _ => rfl⟩
    exact hlossless (Bool.or_eq_false_iff.mp hlive).1
  | pass hopen hlarge =>
    exact ⟨hnext, hlimits, horder.trans (List.sublist_append_left _ _),
      fun hlive => absurd (Bool.or_eq_false_iff.mp hlive).2 (by simp),
      fun hrefused => hfailed ((Bool.or_false _).symm.trans hrefused)⟩
  | store k hopen hroom hleast hlive =>
    refine ⟨hnext, hlimits, ?_, fun hquiet => ?_,
      fun hrefused => hfailed ((Bool.or_false _).symm.trans hrefused)⟩
    · show (x.popped ++ (f.items.drop k ++ _)).Sublist (x.pushed ++ _)
      rw [← List.append_assoc]
      exact (((List.drop_sublist k _).append_left _).trans horder).append (List.Sublist.refl _)
    · obtain ⟨hbefore, hnow⟩ := Bool.or_eq_false_iff.mp hquiet
      show x.popped ++ (f.items.drop k ++ _) = x.accepted ++ _
      rw [hlive hnow, List.drop_zero, ← List.append_assoc, hlossless hbefore]
  | take =>
    refine ⟨hnext, hlimits, (List.append_assoc _ _ _).symm ▸ horder, fun hquiet => ?_, hfailed⟩
    exact (List.append_assoc _ _ _).trans (hlossless hquiet)
  | empty => exact ⟨hnext, hlimits, horder, hlossless, hfailed⟩

theorem Sound.isBoundedFifo (h : x.Sound capacity bytes f) : x.IsBoundedFifo capacity bytes := by
  obtain ⟨⟨hholds, herr⟩, ⟨rfl, rfl⟩, horder, hlossless, hfailed⟩ := h
  have hcontents := hholds.contents
  refine ⟨fun op => ?_, hcontents ▸ horder, ?_, fun hlive => hcontents ▸ hlossless hlive,
    fun hrefused => herr.trans (hfailed hrefused), DeliveryQueue.contents_grow _⟩
  · obtain ⟨f', hnext, hstep, -⟩ := DeliveryQueue.Refines.step ⟨hholds, herr⟩ op
    rw [hcontents, herr, hnext.holds.contents, hnext.failed]
    exact hstep
  · rw [hcontents]
    exact ⟨hholds.size_eq, hholds.bytes, hholds.size_le, hholds.bytes_le⟩

theorem sound_new (ready backlog bytes : ℕ) :
    Sound (ready + backlog) bytes ⟨[], false⟩ { queue := DeliveryQueue.new ready backlog bytes } :=
  ⟨⟨⟨rfl, le_rfl, fun hlt => hlt, rfl, Nat.zero_le _, Int.natCast_nonneg bytes⟩, rfl⟩, ⟨rfl, rfl⟩,
    List.Sublist.refl _, fun _ => rfl, fun hrefused => hrefused⟩

/-- **The delivery queue is a bounded queue.**  For all limits, after every sequence of pushes and
pops. -/
theorem delivery_queue_refines_fifo (ready backlog bytes : ℕ) (ops : List QueueOp) :
    Run.AllStates step (IsBoundedFifo (ready + backlog) bytes)
      { queue := DeliveryQueue.new ready backlog bytes } ops := by
  have hrun : Run.AllStates step (fun x => ∃ f, x.Sound (ready + backlog) bytes f) _ ops :=
    Run.AllSteps.allStates (P := fun _ _ => True) (fun x op hx _ => hx.elim fun f h => h.step op)
      ⟨_, sound_new ready backlog bytes⟩ (Run.allSteps_of_forall_mem fun _ _ => trivial)
  exact hrun.mono fun x hx => hx.elim fun f h => h.isBoundedFifo

end QueueLog

end SrtGo.Session
