import SrtGo.Flow.MessageTTL
import SrtGo.Transfer.Link

/-!
# Giving up on whole messages

A message that needs several packets is of no use without one of them.  When the sender gives up on
a packet, it should therefore give up on the rest of the message too: on what is still in the buffer
and on what has not been sent yet.

It does not look at messages.  The packets of a message are sent at different times, so that the
first ones are too late before the others are, and those that wait in the queue are sent all the
same.  What the sender gives up on is a part of the buffer from its head on.  It stops at the end of
a message exactly if the last packet of that part ends its message, and what has been written so far
decides this: a later write begins a message of its own.
-/

namespace SrtGo.Core

open Buffer Congestion Crypto Run SrtGo.Seq

/-- Two places of a stream of packets, the first not behind the second, belong to one message: no
message ends in between. -/
def SameMessage (marks : List PacketPosition) (i j : ℕ) : Prop :=
  ∀ k < j, i ≤ k → marks[k]?.map PacketPosition.isLast ≠ some true

instance (marks : List PacketPosition) (i j : ℕ) : Decidable (SameMessage marks i j) :=
  inferInstanceAs (Decidable (∀ k < j, i ≤ k → _))

namespace Conn

variable {σ : Type} {c c' : Conn σ} {isn s s' : ℕ} {cell cell' : ℕ → SendEntry} {now : ℤ}

/-! ## What has been sent and what waits -/

def sentMarks (c : Conn σ) : List PacketPosition :=
  c.history.map fun t => t.wire.header.packetPosition

/-- The marks of all packets that have been written: those that were sent, and those that wait. -/
def marks (c : Conn σ) : List PacketPosition := c.sentMarks ++ c.snd.sendQueue.map Frame.pos

/-- The buffer holds the packets of the history from the `s`-th on. -/
structure Logged (c : Conn σ) (cell : ℕ → SendEntry) (isn s : ℕ) : Prop where
  holds : Holds c.snd.sendBuf cell (isn + s) (isn + c.history.length)
  wire : ∀ k t, s ≤ k → c.history[k]? = some t → (cell (isn + k)).pkt = t.wire
  room : c.params.flowWindow ≤ c.snd.sendBuf.len

section

variable (h : Logged c cell isn s)

include h

theorem Logged.buffers : Buffers c (isn + s) (isn + c.history.length) :=
  ⟨cell, h.holds, h.room⟩

theorem Logged.le : s ≤ c.history.length := by
  have := h.holds.start_le
  omega

theorem Logged.size_eq : c.snd.sendBuf.size = ((c.history.length - s : ℕ) : ℤ) := by
  rw [h.holds.size_eq_sub, Nat.add_sub_add_left]

theorem Logged.released_eq : c.released = s := by
  have hle := h.le
  rw [Conn.released, h.size_eq, Int.toNat_natCast]
  omega

theorem Logged.of_holds (hs : s ≤ s')
    (hholds : Holds c'.snd.sendBuf cell' (isn + s') (isn + c.history.length))
    (hsame : Holds.SamePackets cell cell') (hhistory : c'.history = c.history)
    (hroom : c'.params.flowWindow ≤ c'.snd.sendBuf.len) : Logged c' cell' isn s' where
  holds := by
    rw [hhistory]
    exact hholds
  wire k t hk ht := by
    rw [hhistory] at ht
    rw [hsame (isn + k)]
    exact h.wire k t (hs.trans hk) ht
  room := hroom

theorem Logged.upkeep (hkeep : Upkeep c c') : Logged c' cell isn s := by
  refine h.of_holds le_rfl ?_ (fun _ => rfl) hkeep.history ?_
  · rw [hkeep.sendBuf]
    exact h.holds
  · rw [hkeep.sendBuf, hkeep.params]
    exact h.room

end

theorem Logged.acked {a : ℕ} (h : Logged c cell isn s) (hacked : Acked c c' a) :
    ∃ d, Logged c' cell isn (s + d) ∧ ∀ k, s ≤ k → k < s + d →
      lessThan (wrap (isn + k)) a = true := by
  obtain ⟨d, -, hholds, hlen, -, hbefore⟩ := h.holds.ack_any a
  refine ⟨d, h.of_holds (Nat.le_add_right s d) ?_ (fun _ => rfl) hacked.history ?_,
    fun k hk hlt => hbefore (isn + k) (by omega) (by omega)⟩
  · rw [← Nat.add_assoc, hacked.sendBuf]
    exact hholds
  · rw [hacked.params, hacked.sendBuf, hlen]
    exact h.room

theorem Logged.nakTimed (h : Logged c cell isn s) (losses : List ℕ) (now rtt rttVar : ℤ) :
    ∃ cell', Logged (c.setSendBuf (c.snd.sendBuf.nakTimed losses now rtt rttVar).1)
      cell' isn s := by
  obtain ⟨cell', hsame, hholds, hlen⟩ := h.holds.nakTimed losses now rtt rttVar
  refine ⟨cell', h.of_holds le_rfl hholds hsame rfl ?_⟩
  show c.params.flowWindow ≤ ((c.snd.sendBuf.nakTimed losses now rtt rttVar).1.len : ℤ)
  rw [hlen]
  exact h.room

theorem Logged.checkSendDrop (h : Logged c cell isn s) {d : ℕ}
    (hd : GivesUp c (c.checkSendDrop now) cell now (isn + s) d (isn + c.history.length)) :
    Logged (c.checkSendDrop now) cell isn (s + d) := by
  refine h.of_holds (Nat.le_add_right s d) ?_ (fun _ => rfl) hd.history ?_
  · rw [← Nat.add_assoc]
    exact hd.holds
  · rw [hd.params, hd.len]
    exact h.room

section
variable [Controller σ] {b : Conn σ}

theorem PumpedFrom.exists_logged (hb : PumpedFrom c b) (h : Logged c cell isn s) :
    ∃ s', Logged b cell isn s' := by
  rcases hb.cases with hkeep | ⟨now, payload, opts, rfl⟩ | ⟨a, hacked⟩
  · exact ⟨s, h.upkeep hkeep⟩
  · exact ⟨s, h.of_holds le_rfl h.holds (fun _ => rfl) rfl h.room⟩
  · obtain ⟨d, hlogged, -⟩ := h.acked hacked
    exact ⟨s + d, hlogged⟩

variable [Primitives] {i : Input} {new : List Transmission} {frames : List Frame}

omit [Controller σ] [Primitives] in
theorem Logged.sent (h : Logged c cell isn s) (hs : s ≤ s')
    (hsent : Sent c c' cell cell' now (isn + s') (isn + c.history.length) frames new) :
    Logged c' cell' isn s' := by
  refine ⟨?_, fun k t hk ht => ?_, by rw [hsent.params, hsent.len]; exact h.room⟩
  · rw [hsent.history, List.length_append, ← Nat.add_assoc]
    exact hsent.holds
  · rw [hsent.history] at ht
    by_cases hold : k < c.history.length
    · rw [List.getElem?_append_left hold] at ht
      rw [hsent.kept (isn + k) (by omega)]
      exact h.wire k t (hs.trans hk) ht
    · rw [List.getElem?_append_right (not_lt.mp hold)] at ht
      have hpkt := (hsent.added _ t ht).1.1
      rwa [show isn + c.history.length + (k - c.history.length) = isn + k by omega] at hpkt

theorem Logged.exists_sent_pump (h : Logged c cell isn s) (now : ℤ) :
    ∃ cell' s' frames new, Logged (c.pump now) cell' isn s' ∧
      Sent c (c.pump now) cell cell' now (isn + s') (isn + c.history.length) frames new := by
  obtain ⟨d, cell', frames, new, -, hsent⟩ := Conn.exists_sent_pump h.holds h.room now
  rw [Nat.add_assoc] at hsent
  exact ⟨cell', s + d, frames, new, h.sent (Nat.le_add_right s d) hsent, hsent⟩

theorem Logged.pump (h : Logged c cell isn s) (now : ℤ) :
    ∃ cell' s', Logged (c.pump now) cell' isn s' := by
  obtain ⟨cell', s', frames, new, hlogged, -⟩ := h.exists_sent_pump now
  exact ⟨cell', s', hlogged⟩

theorem SendStep.exists_logged (hstep : SendStep i c c') (h : Logged c cell isn s) :
    ∃ cell' s', Logged c' cell' isn s' := by
  cases hstep with
  | idle hkeep => exact ⟨cell, s, h.upkeep hkeep⟩
  | resend losses now rtt rttVar hkeep =>
    obtain ⟨cell', hnoted⟩ := h.nakTimed losses now rtt rttVar
    exact ⟨cell', s, hnoted.upkeep hkeep⟩
  | pump hb =>
    obtain ⟨s', hlogged⟩ := hb.pumpedFrom.exists_logged h
    exact hlogged.pump i.now

/-! ## Messages are written as a whole -/

def WritesWhole (c : Conn σ) : Prop := ∀ m, c.marks.getLast? = some m → m.isLast = true

omit [Controller σ] [Primitives] in
theorem marks_congr (hhistory : c'.history = c.history)
    (hqueue : c'.snd.sendQueue = c.snd.sendQueue) :
    c'.marks = c.marks := by
  rw [marks, marks, sentMarks, sentMarks, hhistory, hqueue]

omit [Controller σ] [Primitives] in
theorem Sent.marks {n : ℕ} (h : Sent c c' cell cell' now s n frames new) : c'.marks = c.marks := by
  have hmade : frames.map Frame.pos = new.map fun t => t.wire.header.packetPosition := by
    have hmade := h.made
    clear h
    induction hmade with
    | nil => rfl
    | cons hone _ ih => rw [List.map_cons, List.map_cons, ih, hone.1]
  rw [Conn.marks, Conn.marks, sentMarks, sentMarks, h.history, h.queue, List.map_append,
    List.map_append, hmade, List.append_assoc]

theorem marks_pump (h : Logged c cell isn s) (now : ℤ) : (c.pump now).marks = c.marks := by
  obtain ⟨cell', s', frames, new, -, hsent⟩ := h.exists_sent_pump now
  exact hsent.marks

omit [Controller σ] [Primitives] in
theorem isLast_getLast_messageFrames (c : Conn σ) (now : ℤ) (payload : Bytes) (opts : MsgOptions)
    (msgNo : ℕ) :
    ∃ f, (c.messageFrames now payload opts msgNo).getLast? = some f ∧ f.pos.isLast = true := by
  unfold messageFrames
  simp only
  by_cases hsingle : c.params.payloadSize = 0 ∨ payload.length ≤ c.params.payloadSize ∨
      c.rcv.tsbpdTimer.isSome = true
  · rw [if_pos hsingle]
    exact ⟨_, rfl, rfl⟩
  · rw [if_neg hsingle]
    have hne : fragments c.params.payloadSize payload.length payload ≠ [] :=
      fragments_ne_nil c.params.payloadSize (List.length_pos_iff.mp (by omega))
    have hpos := List.length_pos_iff.mpr hne
    rw [List.getLast?_eq_getElem?, List.length_mapIdx, List.getElem?_mapIdx,
      List.getElem?_eq_getElem (Nat.sub_lt hpos Nat.one_pos)]
    refine ⟨_, rfl, ?_⟩
    simp only [isLast_fragmentPosition, decide_eq_true_eq]
    omega

omit [Controller σ] [Primitives] in
theorem WritesWhole.enqueue (now : ℤ) (payload : Bytes) (opts : MsgOptions) :
    WritesWhole (c.enqueue now payload opts) := by
  intro m hm
  obtain ⟨f, hlast, hf⟩ := isLast_getLast_messageFrames c now payload opts (c.assign opts)
  have hqueue : ((c.enqueue now payload opts).snd.sendQueue.map Frame.pos).getLast? =
      some f.pos := by
    show ((c.snd.sendQueue ++ c.messageFrames now payload opts (c.assign opts)).map
      Frame.pos).getLast? = some f.pos
    rw [List.map_append, List.getLast?_append, List.getLast?_map, hlast]
    rfl
  rw [marks, List.getLast?_append, hqueue] at hm
  obtain rfl := Option.some.inj hm
  exact hf

omit [Primitives] in
theorem PumpedFrom.marks (hb : PumpedFrom c b) : c.marks <+: b.marks ∧
    (WritesWhole c → WritesWhole b) := by
  have hsame : ∀ {b : Conn σ}, b.history = c.history → b.snd.sendQueue = c.snd.sendQueue →
      c.marks <+: b.marks ∧ (WritesWhole c → WritesWhole b) := by
    intro b hhistory hqueue
    unfold WritesWhole
    rw [marks_congr hhistory hqueue]
    exact ⟨List.prefix_refl _, id⟩
  rcases hb.cases with hkeep | ⟨now, payload, opts, rfl⟩ | ⟨a, hacked⟩
  · exact hsame hkeep.history hkeep.sendQueue
  · refine ⟨?_, fun _ => WritesWhole.enqueue now payload opts⟩
    refine ⟨(c.messageFrames now payload opts (c.assign opts)).map Frame.pos, ?_⟩
    show c.sentMarks ++ c.snd.sendQueue.map Frame.pos ++ _ =
      c.sentMarks ++
        (c.snd.sendQueue ++ c.messageFrames now payload opts (c.assign opts)).map Frame.pos
    rw [List.map_append, List.append_assoc]
  · exact hsame hacked.history hacked.sendQueue

theorem SendStep.marks (hstep : SendStep i c c') (h : Logged c cell isn s) :
    c.marks <+: c'.marks ∧ (WritesWhole c → WritesWhole c') := by
  have hsame : c'.marks = c.marks → c.marks <+: c'.marks ∧ (WritesWhole c → WritesWhole c') := by
    intro heq
    unfold WritesWhole
    rw [heq]
    exact ⟨List.prefix_refl _, id⟩
  cases hstep with
  | idle hkeep => exact hsame (marks_congr hkeep.history hkeep.sendQueue)
  | resend losses now rtt rttVar hkeep => exact hsame (marks_congr hkeep.history hkeep.sendQueue)
  | pump hb =>
    obtain ⟨s', hlogged⟩ := hb.pumpedFrom.exists_logged h
    unfold WritesWhole
    rw [marks_pump hlogged i.now]
    exact hb.pumpedFrom.marks

/-! ## Runs -/

structure Recorded (c : Conn σ) (isn : ℕ) : Prop where
  logged : ∃ cell s, Logged c cell isn s
  whole : WritesWhole c
  notices : NoticesTTL c

theorem Recorded.pump (h : Recorded c isn) (now : ℤ) : Recorded (c.pump now) isn := by
  obtain ⟨cell, s, hlogged⟩ := h.logged
  refine ⟨hlogged.pump now, ?_, h.notices.pump now⟩
  unfold WritesWhole
  rw [marks_pump hlogged now]
  exact h.whole

omit [Primitives] in
theorem PumpedFrom.recorded (hb : PumpedFrom c b) (h : Recorded c isn) : Recorded b isn := by
  obtain ⟨cell, s, hlogged⟩ := h.logged
  obtain ⟨s', hlogged'⟩ := hb.exists_logged hlogged
  exact ⟨⟨cell, s', hlogged'⟩, hb.marks.2 h.whole, hb.noticesTTL h.notices⟩

theorem SendStep.recorded (hstep : SendStep i c c') (h : Recorded c isn) : Recorded c' isn := by
  obtain ⟨cell, s, hlogged⟩ := h.logged
  exact ⟨hstep.exists_logged hlogged, (hstep.marks hlogged).2 h.whole, hstep.noticesTTL h.notices⟩

theorem Recorded.exec (h : Recorded c isn) : ∀ is : List Input, (∀ i ∈ is, i.Single) →
    Recorded (exec Conn.step c is) isn ∧ c.marks <+: (Run.exec Conn.step c is).marks := by
  intro is hsingle
  have hall : AllSteps Conn.step (fun _ i => i.Single) c is := allSteps_of_forall_mem hsingle
  refine (hall.allStates (Q := fun b => Recorded b isn ∧ c.marks <+: b.marks) (fun b i hb hi => ?_)
    ⟨h, List.prefix_refl _⟩).exec
  obtain ⟨cell, s, hlogged⟩ := hb.1.logged
  exact ⟨(sendStep b hi).recorded hb.1, hb.2.trans ((sendStep b hi).marks hlogged).1⟩

theorem recorded_establish {ep : EstablishParams} (hcap : ep.sndCap ≤ 2 ^ 30)
    (hisn : Valid ep.sendISN)
    (cc : σ) (start : ℤ) : Recorded (establish cc start ep) ep.sendISN where
  logged := by
    rw [establish_eq]
    exact ⟨fun _ => {}, 0, holds_new hcap hisn, fun k t _ ht => by simp [established] at ht,
      (le_max_right _ _).trans (le_nextPow2 ep.sndCap)⟩
  whole := by
    rw [establish_eq]
    exact fun m hm => by simp [Conn.marks, sentMarks, established] at hm
  notices := noticesTTL_exec cc start ep [] (by simp)

/-! ## Where the sender stops -/

/-- No packet that the sender gives up on at `now` belongs to the message of a packet that it keeps
or has yet to send. -/
def LeavesWhole (c : Conn σ) (now : ℤ) : Prop :=
  ∀ i j, c.released ≤ i → i < (c.checkSendDrop now).released → (c.checkSendDrop now).released ≤ j →
    j < c.marks.length → ¬SameMessage c.marks i j

/-- Whenever everything up to a packet is too late, this packet ends its message or the next one is
in the buffer and too late as well. -/
def ExpiresTogether (c : Conn σ) (now : ℤ) : Prop :=
  ∀ k < c.snd.sendBuf.size.toNat,
    (∀ j ≤ k, (c.snd.sendBuf.nth j).expired now c.params.sendDropThresh = true) →
      (c.snd.sendBuf.nth k).pkt.header.packetPosition.isLast = true ∨
        k + 1 < c.snd.sendBuf.size.toNat ∧
          (c.snd.sendBuf.nth (k + 1)).expired now c.params.sendDropThresh = true

instance (c : Conn σ) (now : ℤ) : Decidable (c.ExpiresTogether now) :=
  inferInstanceAs (Decidable (∀ k < c.snd.sendBuf.size.toNat, (∀ j ≤ k, _) → _))

omit [Controller σ] [Primitives] in
theorem GivesUp.next_in_time {n d : ℕ} (h : NoticesTTL c) (hholds : Holds c.snd.sendBuf cell s n)
    (hd : GivesUp c c' cell now s d n) (hlt : s + d < n) :
    (cell (s + d)).expired now c.params.sendDropThresh = false := by
  by_cases hoff : c.params.sendDropThresh ≤ 0 ∧ c.snd.msgTTLActive = false
  · have huntimed := (h hoff.2).2 (c.snd.sendBuf.index (wrap (s + d)))
    have hentry : c.snd.sendBuf.entries (c.snd.sendBuf.index (wrap (s + d))) = cell (s + d) :=
      hholds.entryAt_wrap (Nat.le_add_right s d) hlt
    rw [hentry] at huntimed
    have hdeadline : SendBuffer.effectiveDeadline (cell (s + d)) c.params.sendDropThresh =
        c.params.sendDropThresh := if_neg fun hboth => by omega
    rw [SendEntry.expired, hdeadline, decide_eq_false (by omega), Bool.false_and]
  · exact hd.stops hoff hlt

omit [Controller σ] [Primitives] in
theorem Logged.marks_nth (h : Logged c cell isn s) {k : ℕ} (hk : s + k < c.history.length) :
    c.marks[s + k]? = some (c.snd.sendBuf.nth k).pkt.header.packetPosition := by
  have hnth : c.snd.sendBuf.nth k = cell (isn + s + k) := h.holds.nth_eq (by omega)
  have hwire := h.wire (s + k) _ (Nat.le_add_right s k) (List.getElem?_eq_getElem hk)
  rw [← Nat.add_assoc, ← hnth] at hwire
  rw [Conn.marks, List.getElem?_append_left (by rw [sentMarks, List.length_map]; exact hk),
    sentMarks, List.getElem?_map, List.getElem?_eq_getElem hk, Option.map_some, hwire]

omit [Controller σ] [Primitives] in
/-- The sender stops at the end of a message exactly if packets of one message are too late
together. -/
theorem Recorded.leavesWhole_iff (h : Recorded c isn) (now : ℤ) : c.LeavesWhole now ↔
    c.ExpiresTogether now := by
  obtain ⟨cell, s, hlogged⟩ := h.logged
  obtain ⟨d, hd⟩ := exists_givesUp hlogged.holds now
  have hle := hlogged.le
  have hdle := hd.le
  have hsize := hlogged.size_eq
  have hreleased : (c.checkSendDrop now).released = s + d := (hlogged.checkSendDrop hd).released_eq
  have hlen : c.history.length ≤ c.marks.length := by
    rw [Conn.marks, List.length_append, sentMarks, List.length_map]
    exact Nat.le_add_right _ _
  have hnth : ∀ k, s + k < c.history.length → c.snd.sendBuf.nth k = cell (isn + s + k) :=
    fun k hk => hlogged.holds.nth_eq (by omega)
  have hnext : s + d < c.history.length →
      (c.snd.sendBuf.nth d).expired now c.params.sendDropThresh = false := by
    intro hlt
    rw [hnth d hlt]
    exact hd.next_in_time h.notices hlogged.holds (by omega)
  unfold LeavesWhole
  rw [hlogged.released_eq, hreleased]
  constructor
  · intro hwhole k hk hexpired
    -- everything up to the packet is given up on
    have hdropped : k < d := by
      by_contra hkept
      have hlate := hexpired d (not_lt.mp hkept)
      rw [hnext (by omega)] at hlate
      exact absurd hlate (by decide)
    by_cases hlast : k + 1 < d
    · refine Or.inr ⟨by omega, ?_⟩
      rw [hnth (k + 1) (by omega)]
      exact hd.expired (isn + s + (k + 1)) (by omega) (by omega)
    · refine Or.inl ?_
      have hmark := hlogged.marks_nth (k := k) (by omega)
      by_cases hmore : s + d < c.marks.length
      · by_contra hgoes
        refine hwhole (s + k) (s + d) (by omega) (by omega) le_rfl hmore fun m hm hkm => ?_
        obtain rfl : m = s + k := by omega
        rw [hmark]
        simpa using hgoes
      · refine h.whole _ ?_
        rw [List.getLast?_eq_getElem?, show c.marks.length - 1 = s + k by omega]
        exact hmark
  · intro htogether i j hi hid hdj hj hsame
    have hexpired : ∀ k ≤ d - 1, (c.snd.sendBuf.nth k).expired now c.params.sendDropThresh =
        true := by
      intro k hk
      rw [hnth k (by omega)]
      exact hd.expired (isn + s + k) (by omega) (by omega)
    rcases htogether (d - 1) (by omega) hexpired with hlast | ⟨hmore, hlate⟩
    · refine hsame (s + (d - 1)) (by omega) (by omega) ?_
      rw [hlogged.marks_nth (by omega), Option.map_some, hlast]
    · rw [show d - 1 + 1 = d by omega, hnext (by omega)] at hlate
      exact absurd hlate (by decide)

/-- If the sender stops at the end of a message, then nothing of the messages it has given up on is
ever sent, whatever happens later. -/
theorem Recorded.never_sent_later (h : Recorded c isn) (hwhole : c.LeavesWhole now)
    (is : List Input) (hsingle : ∀ i ∈ is, i.Single) {i j : ℕ} (hi : c.released ≤ i)
    (hid : i < (c.checkSendDrop now).released) (hdj : (c.checkSendDrop now).released ≤ j)
    (hj : j < (Run.exec Conn.step (c.pump now) is).history.length) :
    ¬SameMessage (Run.exec Conn.step (c.pump now) is).sentMarks i j := by
  intro hsame
  obtain ⟨cell, s, hlogged⟩ := h.logged
  obtain ⟨d, hd⟩ := exists_givesUp hlogged.holds now
  have hdropped := (hlogged.checkSendDrop hd).le
  rw [hd.history, ← (hlogged.checkSendDrop hd).released_eq] at hdropped
  obtain ⟨-, hprefix⟩ := (h.pump now).exec is hsingle
  rw [marks_pump hlogged now] at hprefix
  generalize Run.exec Conn.step (c.pump now) is = c' at hj hsame hprefix
  -- what was written before is sent under the same places
  have hmarks : ∀ k < j, k < c.marks.length → c'.sentMarks[k]? = c.marks[k]? := by
    intro k hk hwritten
    have hsent : c'.marks[k]? = c'.sentMarks[k]? :=
      List.getElem?_append_left (by rw [sentMarks, List.length_map]; omega)
    have hkept := getElem?_of_prefix hprefix (List.getElem?_eq_getElem hwritten)
    rw [← hsent, hkept]
    exact (List.getElem?_eq_getElem hwritten).symm
  have hlen : c.history.length ≤ c.marks.length := by
    rw [Conn.marks, List.length_append, sentMarks, List.length_map]
    exact Nat.le_add_right _ _
  by_cases hwritten : j < c.marks.length
  · refine hwhole i j hi hid hdj hwritten fun k hk hik => ?_
    rw [← hmarks k hk (by omega)]
    exact hsame k hk hik
  · -- a message that was written later begins behind the end of all that was written before
    have hlast : c.marks.length - 1 < c.marks.length := by omega
    have hend := h.whole _ (List.getLast?_eq_getElem?.trans (List.getElem?_eq_getElem hlast))
    refine hsame (c.marks.length - 1) (by omega) (by omega) ?_
    rw [hmarks _ (by omega) hlast, List.getElem?_eq_getElem hlast, Option.map_some, hend]

/-- Along every run, the packets that a pump gives up on are the rest of whole messages exactly if
packets of one message are too late together; and then no packet of these messages is sent later. -/
theorem gives_up_whole_messages {ep : EstablishParams} (hcap : ep.sndCap ≤ 2 ^ 30)
    (hisn : Valid ep.sendISN)
    (cc : σ) (start : ℤ) (is : List Input) (hsingle : ∀ i ∈ is, i.Single) {b : Conn σ}
    (hb : PumpedFrom (Run.exec Conn.step (establish cc start ep) is) b) (now : ℤ) :
    (b.LeavesWhole now ↔ b.ExpiresTogether now) ∧
      (b.LeavesWhole now → ∀ later : List Input, (∀ i ∈ later, i.Single) →
        ∀ i j, b.released ≤ i → i < (b.checkSendDrop now).released →
          (b.checkSendDrop now).released ≤ j →
          j < (Run.exec Conn.step (b.pump now) later).history.length →
          ¬SameMessage (Run.exec Conn.step (b.pump now) later).sentMarks i j) := by
  have hrecorded := hb.recorded ((recorded_establish hcap hisn cc start).exec is hsingle).1
  exact ⟨hrecorded.leavesWhole_iff now, fun hwhole later hlater i j hi hid hdj hj =>
    hrecorded.never_sent_later hwhole later hlater hi hid hdj hj⟩

end

end Conn

section Examples

open scoped XorCipher

/-- A connection in message mode that cuts messages into packets of two bytes and has room for
`window` packets on their way. -/
def tinyPackets (window : ℤ) : EstablishParams :=
  { message := true, payloadSize := 2, flowWindow := window, bufferCapacity := 32 }

def twoPackets (window : ℤ) : Conn LiveCC :=
  Run.exec Conn.step (Conn.establish (LiveCC.new 0 0) 0 (tinyPackets window))
    [.write 1000 [1, 2, 3, 4] shortLived]

/-- Both packets are sent at once, and the sender gives up on both of them. -/
theorem gives_up_two_packets :
    (twoPackets 32).LeavesWhole 20000 ∧ ((twoPackets 32).checkSendDrop 20000).released = 2 := by
  have hcap : (tinyPackets 32).sndCap ≤ 2 ^ 30 := by decide
  exact ⟨(Conn.gives_up_whole_messages hcap (by decide) (LiveCC.new 0 0) 0 [.write 1000 [1, 2, 3,
    4] shortLived]
    (by decide) (.upkeep (Conn.Upkeep.refl (twoPackets 32))) 20000).1.mpr (by decide +kernel),
    by decide +kernel⟩

/-- With room for one packet on its way the second one waits.  The sender gives up on the first one,
and this makes room: the second one is sent. -/
theorem gives_up_half_a_message :
    ¬(twoPackets 1).LeavesWhole 20000 ∧ ((twoPackets 1).checkSendDrop 20000).released = 1 ∧
      ((twoPackets 1).pump 20000).sentMarks = [.first, .last] := by
  refine ⟨fun hwhole => ?_, by decide +kernel, by decide +kernel⟩
  exact hwhole 0 1 (by decide +kernel) (by decide +kernel) (by decide +kernel) (by decide +kernel)
    (by decide +kernel)

end Examples

end SrtGo.Core
