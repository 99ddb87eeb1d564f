import SrtGo.Buffer.SendWindow
import SrtGo.Lib.Run

/-!
# What the send ring remembers

The send buffer keeps a packet until it is acknowledged or given up, and hands out copies of it
meanwhile.  This file follows whole runs of the buffer next to a record of the packets that were
pushed under each sequence number.  The acknowledged numbers and the reported losses come from the
peer and may be anything; the ring still holds exactly the packets of `[startSeq, nextSeq)`, and
what it hands out is what was pushed.

A slot remembers when its packet was sent again, with zero for never.  A loss report that is
handled at time zero therefore leaves no mark, and only then can a number that is listed twice be
answered twice.
-/

namespace SrtGo.Buffer

open SrtGo.Seq SrtGo.Run SendBuffer Function

inductive SendOp where
  | push (p : Packet) (sentAt : ℤ)
  | ack (ackSeq : ℕ)
  | nakTimed (lossSeqs : List ℕ) (now rtt rttVar : ℤ)
  | getAllUnacked
  | dropTooLateSend (now thresh : ℤ)
  | setMsgTTL (ttl : ℤ)
deriving DecidableEq

/-- A send buffer with the packet that was last pushed under each sequence number. -/
structure SendHistory where
  buffer : SendBuffer
  pushedAs : ℕ → Packet := fun _ => {}

namespace SendHistory

def new (capacity : ℤ) (initialSeq : ℕ) : SendHistory :=
  { buffer := SendBuffer.new capacity initialSeq }

def step (h : SendHistory) : SendOp → SendHistory
  | .push p sentAt =>
    match h.buffer.push p sentAt with
    | none => h
    | some sb => { buffer := sb, pushedAs := Function.update h.pushedAs h.buffer.nextSeq p }
  | .ack ackSeq => { h with buffer := (h.buffer.ack ackSeq).1 }
  | .nakTimed lossSeqs now rtt rttVar =>
    { h with buffer := (h.buffer.nakTimed lossSeqs now rtt rttVar).1 }
  | .getAllUnacked => h
  | .dropTooLateSend now thresh => { h with buffer := (h.buffer.dropTooLateSend now thresh).buffer }
  | .setMsgTTL ttl => { h with buffer := h.buffer.setMsgTTL ttl }

end SendHistory

def SendBuffer.InWindow (sb : SendBuffer) (x : ℕ) : Prop :=
  Valid x ∧ ahead sb.startSeq x < ahead sb.startSeq sb.nextSeq

namespace SendHistory

structure Coherent (h : SendHistory) : Prop where
  /-- The used slots are those of the numbers in `[startSeq, nextSeq)`. -/
  used_iff : ∀ i, (h.buffer.entries i).used = true ↔ ∃ x, h.buffer.InWindow x ∧ h.buffer.index x = i
  /-- The size is their number. -/
  size_eq : h.buffer.size = ahead h.buffer.startSeq h.buffer.nextSeq
  size_le : h.buffer.size ≤ h.buffer.len
  /-- Each of these slots holds the packet that was pushed under its number. -/
  pkt : ∀ x, h.buffer.InWindow x → (h.buffer.entryAt x).pkt = h.pushedAs x

/-- What is handed out are copies of the packets pushed under the given numbers, each marked as
sent again. -/
def HandsOut (h : SendHistory) (xs : List ℕ) (ps : List Packet) : Prop :=
  (∀ x ∈ xs, h.buffer.InWindow x) ∧ xs.Nodup ∧ ps = xs.map fun x => retransmission (h.pushedAs x)

/-- The expired packets at the head are `n` in number: they have all outlived their deadline, and
the next packet, if there is one, has not. -/
def ExpiredPrefix (sb : SendBuffer) (now thresh : ℤ) (n : ℕ) : Prop :=
  (n : ℤ) ≤ sb.size ∧
    (∀ j < n, (sb.entryAt (inc^[j] sb.startSeq)).expired now thresh = true) ∧
    ((n : ℤ) < sb.size → (sb.entryAt (inc^[n] sb.startSeq)).expired now thresh = false)

def Answers (h : SendHistory) : SendOp → Prop
  | .nakTimed lossSeqs now rtt rttVar =>
    ∃ xs, (∀ x ∈ xs, x ∈ lossSeqs) ∧
      h.HandsOut xs (h.buffer.nakTimed lossSeqs now rtt rttVar).2
  | .getAllUnacked => ∃ xs, h.HandsOut xs h.buffer.getAllUnacked
  | .dropTooLateSend now thresh =>
    let r := h.buffer.dropTooLateSend now thresh
    ExpiredPrefix h.buffer now thresh r.dropped ∧
      r.buffer.startSeq = inc^[r.dropped] h.buffer.startSeq ∧
      r.buffer.nextSeq = h.buffer.nextSeq ∧
      (0 < r.dropped → r.first = h.buffer.startSeq ∧ r.last = inc^[r.dropped - 1] h.buffer.startSeq)
  | .push _ _ | .ack _ | .setMsgTTL _ => True

/-- The numbers that the peer names have 31 bits, and no loss report is handled at time zero. -/
def Sensible : SendOp → Prop
  | .nakTimed lossSeqs now _ _ => (∀ x ∈ lossSeqs, Valid x) ∧ now ≠ 0
  | .push _ _ | .ack _ | .getAllUnacked | .dropTooLateSend _ _ | .setMsgTTL _ => True

instance : ∀ op, Decidable (Sensible op)
  | .nakTimed lossSeqs now _ _ => inferInstanceAs (Decidable ((∀ x ∈ lossSeqs, Valid x) ∧ now ≠ 0))
  | .push _ _ | .ack _ | .getAllUnacked | .dropTooLateSend _ _ | .setMsgTTL _ => isTrue trivial

end SendHistory

/-! ## Positions and numbers -/

namespace Holds

variable {sb : SendBuffer} {cell cell' : ℕ → SendEntry} {s n : ℕ}

section

variable (h : Holds sb cell s n) {x : ℕ}

include h

theorem span_le : n ≤ s + 2 ^ 30 := h.width.trans (by have := h.len_le; omega)

theorem ahead_nextSeq : ahead sb.startSeq sb.nextSeq = n - s := by
  have := h.span_le
  rw [h.startSeq_eq, h.nextSeq_eq, ahead_wrap h.start_le (by omega)]

theorem inWindow_iff : sb.InWindow x ↔ ∃ p, s ≤ p ∧ p < n ∧ wrap p = x := by
  have hspan := h.span_le
  rw [SendBuffer.InWindow, h.ahead_nextSeq, h.startSeq_eq]
  constructor
  · rintro ⟨hx, hlt⟩
    exact ⟨s + ahead (wrap s) x, by omega, by omega, wrap_add_ahead s hx⟩
  · rintro ⟨p, hs, hn, rfl⟩
    refine ⟨valid_wrap p, ?_⟩
    rw [ahead_wrap hs (by omega)]
    omega

theorem exists_of_inRange (hx : Valid x) (hrange : sb.outOfRange x = false) :
    ∃ p, s ≤ p ∧ p < n ∧ wrap p = x := by
  have hspan := h.span_le
  have hle := h.start_le
  rw [SendBuffer.outOfRange, h.startSeq_eq, h.nextSeq_eq, Bool.or_eq_false_iff] at hrange
  obtain ⟨hstart, hnext⟩ := hrange
  refine ⟨s + ahead (wrap s) x, by omega, ?_, wrap_add_ahead s hx⟩
  -- the two comparisons bound the distances to either end, and these add up to the span
  have hx := hx.lt
  unfold lessThanOrEqual at hnext
  rw [Bool.or_eq_false_iff, decide_eq_false_iff_not] at hnext
  obtain ⟨hne, hnext⟩ := hnext
  unfold lessThan threshold at hstart hnext
  unfold ahead
  unfold wrap at *
  split_ifs at hstart hnext <;> omega

theorem wrap_injOn {p q : ℕ} (hp : s ≤ p ∧ p < n) (hq : s ≤ q ∧ q < n) (heq : wrap p = wrap q) :
    p = q := by
  have := h.span_le
  exact eq_of_wrap_eq heq (by omega) (by omega)

end

/-! ## Loss reports -/

/-- Some rounds into a loss report that is handled at `now`: the packets of the positions `qs` have
been handed out, and their slots say so. -/
structure Reporting (cell : ℕ → SendEntry) (s n : ℕ) (now : ℤ) (lossSeqs : List ℕ)
    (r : SendBuffer × List Packet) (cell' : ℕ → SendEntry) (qs : List ℕ) : Prop where
  same : SamePackets cell cell'
  holds : Holds r.1 cell' s n
  nodup : qs.Nodup
  mem : ∀ q ∈ qs, s ≤ q ∧ q < n ∧ wrap q ∈ lossSeqs
  marked : ∀ q ∈ qs, (cell' q).rexmitTime = now
  handed : r.2 = qs.map fun q => retransmission (cell q).pkt

/-- A loss report hands out packets that it lists, each of them once. -/
theorem reporting_nakTimed (h : Holds sb cell s n) {lossSeqs : List ℕ} {now : ℤ} (rtt rttVar : ℤ)
    (hvalid : ∀ x ∈ lossSeqs, Valid x) (hnow : now ≠ 0) :
    ∃ cell' qs, Reporting cell s n now lossSeqs (sb.nakTimed lossSeqs now rtt rttVar) cell' qs := by
  refine SendBuffer.nakTimed_preserves
    (Q := fun r => ∃ cell' qs, Reporting cell s n now lossSeqs r cell' qs) ?_
    ⟨cell, [], fun _ => rfl, h, List.nodup_nil, by simp, by simp, rfl⟩
  rintro sb' ps x hx hrange hused hrecent ⟨cell', qs, h⟩
  obtain ⟨q, hs, hn, rfl⟩ := h.holds.exists_of_inRange (hvalid x hx) hrange
  have hentry : sb'.entryAt (wrap q) = cell' q := h.holds.entryAt_wrap hs hn
  rw [hentry] at hused hrecent ⊢
  -- a packet that was handed out before is still too recent
  have hfresh : q ∉ qs := by
    intro hq
    rw [h.marked q hq] at hrecent
    exact hrecent ⟨hnow, by omega⟩
  refine ⟨update cell' q { cell' q with rexmitTime := now }, qs ++ [q], ?_, ?_, ?_, ?_, ?_, ?_⟩
  · exact h.same.update rfl
  · exact h.holds.setEntry hs hn hused
  · exact List.nodup_append.mpr ⟨h.nodup, List.nodup_singleton q,
      fun a ha b hb hab => hfresh (by rw [← List.mem_singleton.mp hb, ← hab]; exact ha)⟩
  · intro p hp
    rcases List.mem_append.mp hp with hp | hp
    · exact h.mem p hp
    · rw [List.mem_singleton.mp hp]
      exact ⟨hs, hn, hx⟩
  · intro p hp
    rcases List.mem_append.mp hp with hp' | hp'
    · have hne : p ≠ q := fun heq => hfresh (heq ▸ hp')
      rw [update_of_ne hne]
      exact h.marked p hp'
    · rw [List.mem_singleton.mp hp', update_self]
  · show ps ++ [retransmission (cell' q).pkt] = _
    have hhanded : ps = qs.map fun q => retransmission (cell q).pkt := h.handed
    rw [h.same q, hhanded, List.map_append, List.map_singleton]

theorem unackedLoop (h : Holds sb cell s n) (fuel : ℕ) : ∀ p, s ≤ p → p + fuel ≤ n →
    ∃ qs : List ℕ, qs.Nodup ∧ (∀ q ∈ qs, p ≤ q ∧ q < n) ∧
      sb.unackedLoop fuel (wrap p) = qs.map fun q => retransmission (cell q).pkt := by
  induction fuel with
  | zero => exact fun p _ _ => ⟨[], List.nodup_nil, by simp, rfl⟩
  | succ fuel ih =>
    intro p hs hn
    rw [SendBuffer.unackedLoop]
    by_cases hless : lessThan (wrap p) sb.nextSeq = true
    · obtain ⟨qs, hnodup, hmem, hrest⟩ := ih (p + 1) (by omega) (by omega)
      refine ⟨p :: qs, List.nodup_cons.mpr ⟨fun hp => ?_, hnodup⟩, ?_, ?_⟩
      · have := hmem p hp
        omega
      · intro q hq
        rcases List.mem_cons.mp hq with rfl | hq
        · omega
        · have := hmem q hq
          omega
      · have hentry : sb.entryAt (wrap p) = cell p := h.entryAt_wrap hs (by omega)
        simp only [if_pos hless, hentry, h.used p hs (by omega), if_true, inc_wrap, hrest,
          List.map_cons]
    · exact ⟨[], List.nodup_nil, by simp, by rw [if_neg hless]; rfl⟩

theorem getAllUnacked (h : Holds sb cell s n) :
    ∃ qs : List ℕ, qs.Nodup ∧ (∀ q ∈ qs, s ≤ q ∧ q < n) ∧
      sb.getAllUnacked = qs.map fun q => retransmission (cell q).pkt := by
  rw [SendBuffer.getAllUnacked]
  split_ifs
  · exact ⟨[], List.nodup_nil, by simp, rfl⟩
  · have hle := h.start_le
    rw [h.ahead_nextSeq, h.startSeq_eq]
    exact h.unackedLoop (n - s) s le_rfl (by omega)

end Holds

/-! ## Runs -/

namespace SendHistory

variable {h : SendHistory} {cell : ℕ → SendEntry} {s n : ℕ}

/-- The ring holds the packets that were pushed under the numbers of its window. -/
structure Tracks (h : SendHistory) (cell : ℕ → SendEntry) (s n : ℕ) : Prop where
  holds : Holds h.buffer cell s n
  pushed : ∀ p, s ≤ p → p < n → (cell p).pkt = h.pushedAs (wrap p)

theorem Tracks.of_le {sb : SendBuffer} {s' : ℕ} (ht : Tracks h cell s n)
    (hholds : Holds sb cell s' n) (hs : s ≤ s') : Tracks { h with buffer := sb } cell s' n :=
  ⟨hholds, fun p hp hn => ht.pushed p (hs.trans hp) hn⟩

theorem Tracks.coherent (ht : Tracks h cell s n) : h.Coherent where
  used_iff i := by
    constructor
    · intro hused
      obtain ⟨p, hs, hn, hslot, -⟩ := ht.holds.exists_position hused
      exact ⟨wrap p, ht.holds.inWindow_iff.mpr ⟨p, hs, hn, rfl⟩, hslot⟩
    · rintro ⟨x, hx, rfl⟩
      obtain ⟨p, hs, hn, rfl⟩ := ht.holds.inWindow_iff.mp hx
      rw [← SendBuffer.entryAt, ht.holds.entryAt_wrap hs hn]
      exact ht.holds.used p hs hn
  size_eq := by rw [ht.holds.ahead_nextSeq, ht.holds.size_eq_sub]
  size_le := by
    have := ht.holds.width
    have := ht.holds.size_eq
    omega
  pkt x hx := by
    obtain ⟨p, hs, hn, rfl⟩ := ht.holds.inWindow_iff.mp hx
    rw [ht.holds.entryAt_wrap hs hn]
    exact ht.pushed p hs hn

theorem Tracks.step (ht : Tracks h cell s n) (op : SendOp) :
    ∃ cell' s' n', Tracks (h.step op) cell' s' n' := by
  cases op with
  | push p sentAt =>
    simp only [SendHistory.step]
    cases hpush : h.buffer.push p sentAt with
    | none => exact ⟨cell, s, n, ht⟩
    | some sb =>
      obtain ⟨-, hholds⟩ := ht.holds.push_some hpush
      refine ⟨_, s, n + 1, hholds, fun q hs hn => ?_⟩
      simp only [ht.holds.nextSeq_eq]
      by_cases hq : q = n
      · rw [hq, update_self, update_self]
      · -- the window is shorter than the sequence space, so the new number is not among the old
        have hspan := ht.holds.span_le
        have hne : wrap q ≠ wrap n := fun heq => hq (eq_of_wrap_eq heq (by omega) (by omega))
        rw [update_of_ne hq, update_of_ne hne]
        exact ht.pushed q hs (by omega)
  | ack ackSeq =>
    obtain ⟨d, -, hholds, -, -⟩ := ht.holds.ack_any ackSeq
    exact ⟨cell, s + d, n, ht.of_le hholds (by omega)⟩
  | nakTimed lossSeqs now rtt rttVar =>
    obtain ⟨cell', hsame, hholds, -⟩ := ht.holds.nakTimed lossSeqs now rtt rttVar
    exact ⟨cell', s, n, hholds, fun p hs hn => (hsame p).trans (ht.pushed p hs hn)⟩
  | getAllUnacked => exact ⟨cell, s, n, ht⟩
  | dropTooLateSend now thresh =>
    obtain ⟨d, -, -, -, hholds, -⟩ := ht.holds.dropTooLateSend now thresh
    exact ⟨cell, s + d, n, ht.of_le hholds (by omega)⟩
  | setMsgTTL ttl =>
    obtain ⟨cell', hsame, hholds⟩ := ht.holds.setMsgTTL_same ttl
    exact ⟨cell', s, n, hholds, fun p hs hn => (hsame p).trans (ht.pushed p hs hn)⟩

theorem Tracks.handsOut (ht : Tracks h cell s n) {qs : List ℕ} (hnodup : qs.Nodup)
    (hmem : ∀ q ∈ qs, s ≤ q ∧ q < n) :
    h.HandsOut (qs.map wrap) (qs.map fun q => retransmission (cell q).pkt) := by
  refine ⟨fun x hx => ?_, ?_, ?_⟩
  · obtain ⟨q, hq, rfl⟩ := List.mem_map.mp hx
    exact ht.holds.inWindow_iff.mpr ⟨q, (hmem q hq).1, (hmem q hq).2, rfl⟩
  · exact List.Nodup.map_on (fun p hp q hq => ht.holds.wrap_injOn (hmem p hp) (hmem q hq)) hnodup
  · rw [List.map_map]
    refine List.map_congr_left fun q hq => ?_
    rw [comp_apply, ht.pushed q (hmem q hq).1 (hmem q hq).2]

theorem Tracks.answers (ht : Tracks h cell s n) {op : SendOp} (hop : Sensible op) :
    h.Answers op := by
  cases op with
  | push p sentAt => trivial
  | ack ackSeq => trivial
  | setMsgTTL ttl => trivial
  | nakTimed lossSeqs now rtt rttVar =>
    obtain ⟨cell', qs, hr⟩ := ht.holds.reporting_nakTimed rtt rttVar hop.1 hop.2
    refine ⟨qs.map wrap, fun x hx => ?_, ?_⟩
    · obtain ⟨q, hq, rfl⟩ := List.mem_map.mp hx
      exact (hr.mem q hq).2.2
    · rw [hr.handed]
      exact ht.handsOut hr.nodup fun q hq => ⟨(hr.mem q hq).1, (hr.mem q hq).2.1⟩
  | getAllUnacked =>
    obtain ⟨qs, hnodup, hmem, hall⟩ := ht.holds.getAllUnacked
    refine ⟨qs.map wrap, ?_⟩
    rw [hall]
    exact ht.handsOut hnodup hmem
  | dropTooLateSend now thresh =>
    have hsize := ht.holds.size_eq_sub
    obtain ⟨d, hd, hall, hnext, hholds, hdropped, hfirst, hlast⟩ :=
      ht.holds.dropTooLateSend now thresh
    simp only [Answers, ExpiredPrefix]
    rw [hdropped, hholds.startSeq_eq, hholds.nextSeq_eq, hfirst, ht.holds.startSeq_eq,
      ht.holds.nextSeq_eq, inc_iterate_wrap, inc_iterate_wrap]
    refine ⟨⟨by omega, fun j hj => ?_, fun hlt => ?_⟩, rfl, rfl, fun hd => ⟨rfl, hlast hd⟩⟩
    · rw [inc_iterate_wrap, ht.holds.entryAt_wrap (by omega) (by omega)]
      exact hall (s + j) (by omega) (by omega)
    · rw [ht.holds.entryAt_wrap (by omega) (by omega)]
      exact hnext (by omega)

/-- From a new buffer, after any run whose loss reports list 31-bit numbers and are not handled at
time zero, the ring is faithful to what was pushed, and whatever it hands out or gives up is as it
should be. -/
theorem coherent_and_answers {capacity : ℤ} (hcapacity : capacity ≤ 2 ^ 30) {isn : ℕ}
    (hisn : Valid isn) (ops : List SendOp) (hops : ∀ op ∈ ops, Sensible op) :
    AllStates step Coherent (new capacity isn) ops ∧
      AllSteps step Answers (new capacity isn) ops := by
  have hinit : ∃ cell s n, Tracks (new capacity isn) cell s n :=
    ⟨_, isn, isn, holds_new hcapacity hisn, fun p hs hn => by omega⟩
  have hsteps : AllSteps step (fun _ op => Sensible op) (new capacity isn) ops :=
    allSteps_of_forall_mem hops
  constructor
  · refine (hsteps.allStates (Q := fun h => ∃ cell s n, Tracks h cell s n) ?_ hinit).mono ?_
    · rintro h op ⟨cell, s, n, ht⟩ -
      exact ht.step op
    · rintro h ⟨cell, s, n, ht⟩
      exact ht.coherent
  · refine AllSteps.allSteps (Q := fun h => ∃ cell s n, Tracks h cell s n) ?_ ?_ hinit hsteps
    · rintro h op ⟨cell, s, n, ht⟩ -
      exact ht.step op
    · rintro h op ⟨cell, s, n, ht⟩ hop
      exact ht.answers hop

/-- Two packets across the end of the sequence space; a report that lists one of them twice and a
number that was never sent; an acknowledgement from nowhere, and the packets become too late. -/
private def hostileRun : List SendOp :=
  [.push (Packet.newData maxNumber 0 0 [1]) 1, .push (Packet.newData 0 0 0 [2]) 2,
    .nakTimed [0, 7, 0, maxNumber] 10 100000 50000, .ack (2 ^ 30), .setMsgTTL 5000, .getAllUnacked,
    .dropTooLateSend 20 0]

theorem coherent_and_answers_hostile :
    (∀ op ∈ hostileRun, Sensible op) ∧
      (AllStates step Coherent (new 4 maxNumber) hostileRun ∧
        AllSteps step Answers (new 4 maxNumber) hostileRun) ∧
      ((exec step (new 4 maxNumber) (hostileRun.take 2)).buffer.nakTimed
        [0, 7, 0, maxNumber] 10 100000 50000).2.map (fun p => p.data) = [[2], [1]] := by
  have hops : ∀ op ∈ hostileRun, Sensible op := by decide
  exact ⟨hops, coherent_and_answers (by norm_num) ⟨by decide⟩ hostileRun hops, by decide⟩

/-- At time zero a number that is listed twice is answered twice. -/
theorem answered_twice_at_zero :
    ¬AllSteps step Answers (new 4 0) [.push (Packet.newData 0 0 0 [1]) 0,
      .nakTimed [0, 0] 0 100000 50000] := by
  rintro ⟨-, ⟨xs, hmem, -, hnodup, hout⟩, -⟩
  -- two packets are handed out, so two different numbers would have to be listed
  have htwo : xs.length = 2 := by
    have := congrArg List.length hout
    rw [List.length_map] at this
    rw [← this]
    decide
  obtain ⟨a, b, rfl⟩ := List.length_eq_two.mp htwo
  have ha : a = 0 := by simpa using hmem a (by simp)
  have hb : b = 0 := by simpa using hmem b (by simp)
  simp [ha, hb] at hnodup

end SendHistory

end SrtGo.Buffer
