import SrtGo.Buffer.RecvPlaced
import SrtGo.Flow.LossReports

/-!
# Gaps are reported when they show

An observer keeps the books of a receiver: where the head of its buffer is, which
positions it has accepted and which ones it has reported as lost.  When a packet
arrives beyond the end of the buffer, the numbers in between are reported, and from
then on every position before the end has been accepted or reported.  The books
balance as long as the report is made: it is not made when the buffer has just been
drained, it cannot be made for the number zero alone, and it names ten thousand
numbers at most.
-/

namespace SrtGo.Core

open Buffer Bytes Congestion Crypto SrtGo.Seq Run RecvBuffer

def Input.isDropReq : Input → Bool
  | .packet _ p => p.header.isControl && decide (p.header.controlType = .dropReq)
  | _ => false

/-- Every sequence number in the input fits into 31 bits, as on the wire. -/
def Input.WellFormed : Input → Prop
  | .packet _ p => p.WellFormed
  | _ => True

instance : ∀ i : Input, Decidable i.WellFormed
  | .packet _ p => inferInstanceAs (Decidable (Valid p.header.sequenceNumber))
  | .write _ _ _ | .writeCoordinated _ _ _ _ | .timer _ _ | .keepAlive _ | .shutdown _ =>
    isTrue trivial

structure Ledger where
  head : ℕ
  received : Set ℕ := ∅
  reported : Set ℕ := ∅

namespace Conn

variable {σ : Type}

def positionOf (c : Conn σ) (l : Ledger) (q : ℕ) : ℕ := l.head + ahead c.rcv.recvBuf.startSeq q

/-- Every position from the head to the highest number received has been accepted or
reported. -/
def Balanced (s : Conn σ × Ledger) : Prop :=
  lessThan s.1.rcv.recvBuf.startSeq s.1.rcv.recvBuf.maxSeq = true →
    ∀ x, s.2.head ≤ x → x < s.1.positionOf s.2 s.1.rcv.recvBuf.maxSeq →
      x ∈ s.2.received ∨ x ∈ s.2.reported

/-- The arrival of number `q` is reported in full: a drained buffer gets its next packet, the
gap is not the number zero alone, and it has at most ten thousand numbers. -/
structure Tells (rb : RecvBuffer) (q : ℕ) : Prop where
  drained : rb.maxSeq = rb.startSeq → q = rb.startSeq
  zero : ¬(rb.maxSeq = 0 ∧ q = 1)
  short : distance rb.maxSeq q ≤ 10000

/-! ## The report -/

theorem immediateLosses_ne_nil (stop s : ℕ) {fuel : ℕ} (hfuel : 0 < fuel) :
    immediateLosses stop fuel s ≠ [] := by
  obtain ⟨n, rfl⟩ := Nat.exists_eq_succ_of_ne_zero hfuel.ne'
  rw [immediateLosses]
  exact List.cons_ne_nil _ _

structure Prompt (c : Conn σ) : Prop where
  fecReceiver : c.rcv.fecReceiver = none
  reorderTolerance : c.params.reorderTolerance = 0

theorem exists_report {c : Conn σ} (hprompt : c.Prompt) {res : InsertResult}
    (hgap : res.hasGap = true) (hstart : Valid res.gapStart) (now : ℤ) (seqNo : ℕ) :
    ∃ o os, (c.reportLosses now res seqNo).outputs = c.outputs ++ o :: os ∧
      ∀ q ∈ immediateLosses res.gapEnd 10000 res.gapStart, o.Reports q := by
  set lost := immediateLosses res.gapEnd 10000 res.gapStart
  set nak : Packet := { c.control now .nak with data := marshalLossList lost }
  have hsome : lost ≠ [] := immediateLosses_ne_nil _ _ (by omega)
  have hreport : c.reportGap now res.gapStart res.gapEnd = c.send nak := by
    rw [reportGap, if_pos hprompt.reorderTolerance, sendImmediateNAK, emitNAK, if_neg hsome]
  have hreports : c.reportsLosses = true := by simp [reportsLosses, hprompt.fecReceiver]
  obtain ⟨os, hos, -⟩ := (reports_flushDeferredLoss (c.send nak) now seqNo).emits
  unfold reportLosses
  simp only [hgap, hreports, hreport, and_self, if_true]
  refine ⟨.sendPacket nak true, if (c.send nak).rcv.deferredLoss ≠ [] then os else [], ?_,
    fun q hq => ?_⟩
  · split_ifs
    · rw [hos]
      simp [send, push]
    · rfl
  · exact ⟨nak, true, lost, rfl, rfl, rfl, rfl, valid_immediateLosses hstart, hq⟩

/-! ## The invariant -/

abbrev AnyPacket : ℕ → Packet → Prop := fun _ _ => True

structure Stretch (rb : RecvBuffer) (s m : ℕ) : Prop where
  placed : RecvBuffer.Placed AnyPacket rb s
  reaches : rb.Reaches s m
  le : s ≤ m
  lt : m < s + rb.len

/-- The books cover everything between the head of the buffer and its end. -/
structure Books (c : Conn σ) (l : Ledger) (m : ℕ) :
    Prop extends Stretch c.rcv.recvBuf l.head m where
  covered : ∀ x, l.head ≤ x → x < m → x ∈ l.received ∨ x ∈ l.reported

variable {c c' : Conn σ} {l : Ledger} {m : ℕ} {rb : RecvBuffer} {p : Packet}

variable {q s : ℕ}

theorem Stretch.positionOf (h : Stretch c.rcv.recvBuf l.head m) (hq : l.head ≤ q)
    (hlt : q < l.head + 2 ^ 31) :
    c.positionOf l (wrap q) = q := by
  rw [Conn.positionOf, h.placed.startSeq_eq, ahead_wrap hq hlt]
  omega

theorem Books.balanced (h : Books c l m) : Balanced (c, l) := by
  intro _ x hx hlt
  have hlen := h.placed.len_le
  have hm := h.lt
  have hend := h.positionOf h.le (by omega)
  rw [← h.reaches.maxSeq_eq] at hend
  exact h.covered x hx (hend ▸ hlt)

theorem Stretch.store (h : Stretch rb s m) (hseq : p.header.sequenceNumber = wrap q) (hq : s ≤ q)
    (hq' : q + 1 < s + rb.len) (now : ℤ) : Stretch (rb.store p now) s (max m (q + 1)) := by
  have hlen := h.placed.len_le
  have hm := h.lt
  have hle := h.le
  refine ⟨h.placed.store hseq hq hq' trivial now,
    h.reaches.store h.placed (by omega) (by omega) hseq hq hq' now, by omega, ?_⟩
  rw [(sameRing_store rb p now).len]
  show max m (q + 1) < s + rb.len
  omega

theorem Stretch.deliver (h : Stretch rb l.head m) (hstart : rb.startSeq = c.rcv.recvBuf.startSeq)
    (hedits : Edits False rb c'.rcv.recvBuf) :
    Stretch c'.rcv.recvBuf (c.positionOf l c'.rcv.recvBuf.startSeq) m ∧
      l.head ≤ c.positionOf l c'.rcv.recvBuf.startSeq := by
  obtain ⟨s', hs', hplaced', hreach⟩ := h.placed.edits hedits
  obtain ⟨hreaches', hbound⟩ := hreach m h.reaches
  have hle' := hbound (fun h => h) h.le h.lt
  have hlen := h.placed.len_le
  have hm := h.lt
  have hhead : c.positionOf l c'.rcv.recvBuf.startSeq = s' := by
    rw [Conn.positionOf, hplaced'.startSeq_eq, ← hstart, h.placed.startSeq_eq,
      ahead_wrap hs' (by omega)]
    omega
  rw [hhead]
  refine ⟨⟨hplaced', hreaches', hle', ?_⟩, hs'⟩
  rw [hedits.len_eq]
  omega

theorem insertedAt_gap (hreaches : rb.Reaches s m) (hplaced : Placed AnyPacket rb s) (hle : s ≤ m)
    (hmq : m < q) (hq : q < s + rb.len) (htells : Tells rb (wrap q)) :
    (rb.insertedAt (wrap q)).hasGap = true ∧ (rb.insertedAt (wrap q)).gapStart = wrap m ∧
      (rb.insertedAt (wrap q)).gapEnd = wrap (q - 1) ∧ q ≤ m + 10000 := by
  have hlen := hplaced.len_le
  have hless : lessThan (wrap m) (wrap q) = true := by
    rw [lessThan_wrap (by omega) (by omega)]
    exact decide_eq_true hmq
  -- a drained buffer would have got its next packet
  have hne : rb.maxSeq ≠ rb.startSeq := by
    intro heq
    have hstart := htells.drained heq
    rw [hplaced.startSeq_eq] at hstart
    have := eq_of_wrap_eq hstart (by omega) (by omega)
    omega
  have hdec : dec (wrap q) = wrap (q - 1) := by
    have := dec_wrap (q - 1)
    rwa [Nat.sub_add_cancel (by omega)] at this
  have hins : rb.insertedAt (wrap q) =
      { inserted := true, gapStart := wrap m, gapEnd := wrap (q - 1) } := by
    rw [insertedAt, if_pos ⟨hne, by rw [hreaches.maxSeq_eq]; exact hless⟩, hreaches.maxSeq_eq, hdec]
  have hshort := htells.short
  rw [hreaches.maxSeq_eq, distance_wrap (by omega) (by omega)] at hshort
  refine ⟨?_, by rw [hins], by rw [hins], by omega⟩
  rw [hins]
  by_contra hnone
  have hzero : wrap m = 0 ∧ wrap (q - 1) = 0 := by simpa [InsertResult.hasGap] using hnone
  have hlast : m = q - 1 := eq_of_wrap_eq (hzero.1.trans hzero.2.symm) (by omega) (by omega)
  refine htells.zero ⟨hreaches.maxSeq_eq.trans hzero.1, ?_⟩
  rw [show q = m + 1 by omega, ← inc_wrap, hzero.1]
  rfl

section
variable [Controller σ] [Primitives] {c₁ : Conn σ} {now : ℤ} {plain : Packet} {i : Input}

/-! ## Packets that are accepted -/

def accepted (c : Conn σ) : Input → Option ℕ
  | .packet now p =>
    if c.closed ∨ p.header.isControl then none
    else
      match c.decrypt p with
      | none => none
      | some plain =>
        if (c.rcv.recvBuf.insert plain now).2.inserted then some plain.header.sequenceNumber else
          none
  | _ => none

omit [Controller σ] in
theorem accepted_eq (hopen : c.closed = false) (hdata : p.header.isControl = false)
    (hdec : c.decrypt p = some plain)
    (hinserted : (c.rcv.recvBuf.insert plain now).2.inserted = true) :
    c.accepted (.packet now p) = some plain.header.sequenceNumber := by
  simp [accepted, hopen, hdata, hdec, hinserted]

omit [Controller σ] [Primitives] in
theorem nakFree_checkLiteACK (c : Conn σ) (now : ℤ) :
    Emits (fun o => o.isNAK = false) c (c.checkLiteACK now) := by
  unfold checkLiteACK
  split_ifs
  · exact ⟨[_], rfl, by simp [Output.isNAK, liteACK, Packet.newControl]⟩
  · exact Emits.refl _ c

/-- Without a filter, the packet at position `q` is stored, losses are reported, and then whatever
can be delivered is delivered.  `c₁` is the connection that notes the arrival. -/
structure Accepts (c c₁ : Conn σ) (now : ℤ) (p plain : Packet) (s q : ℕ) : Prop where
  decrypted : c.decrypt p = some plain
  seq_eq : plain.header.sequenceNumber = wrap q
  le : s ≤ q
  lt : q + 1 < s + c.rcv.recvBuf.len
  insert_eq : c.rcv.recvBuf.insert plain now =
    (c.rcv.recvBuf.store plain now, c.rcv.recvBuf.insertedAt plain.header.sequenceNumber)
  params : (c₁.stored now plain).params = c.params
  fecReceiver : (c₁.stored now plain).rcv.fecReceiver = none
  deferredLoss : (c₁.stored now plain).rcv.deferredLoss = c.rcv.deferredLoss.erase
    plain.header.sequenceNumber
  outputs : (c₁.stored now plain).outputs = c.outputs
  edits : RecvBuffer.Edits False (c.rcv.recvBuf.store plain now) (c₁.handleData now p).rcv.recvBuf
  deferred : (c₁.handleData now p).rcv.deferredLoss = ((c₁.stored now plain).reportLosses now
    (c.rcv.recvBuf.insertedAt plain.header.sequenceNumber)
      plain.header.sequenceNumber).rcv.deferredLoss
  emits : Emits (fun o => o.isNAK = false) ((c₁.stored now plain).reportLosses now
    (c.rcv.recvBuf.insertedAt plain.header.sequenceNumber) plain.header.sequenceNumber)
      (c₁.handleData now p)

theorem Accepts.reports {S : List ℕ → Prop} (h : Accepts c c₁ now p plain s q)
    (hS : Emits (Output.NakOf S) (c₁.stored now plain) ((c₁.stored now plain).reportLosses now
      (c.rcv.recvBuf.insertedAt plain.header.sequenceNumber) plain.header.sequenceNumber)) :
    Emits (fun o => o.isNAK = true → o.NakOf S) c (c₁.handleData now p) := by
  have hstart : Emits (fun o => o.isNAK = true → o.NakOf S) c (c₁.stored now plain) :=
    Emits.of_eq h.outputs
  refine (hstart.trans (hS.mono fun o ho _ => ho)).trans (h.emits.mono fun o ho hnak => ?_)
  simp [ho] at hnak

theorem handleData_accepts (hbook : Book c c₁) (hfec : c.rcv.fecReceiver = none)
    (hplaced : Placed AnyPacket c.rcv.recvBuf s) (hp : p.WellFormed) :
    c₁.handleData now p = c₁ ∧ c.accepted (.packet now p) = none ∨
      ∃ plain q, Accepts c c₁ now p plain s q := by
  rcases handleData_cases (hbook.fecReceiver.trans hfec) now p with
    ⟨hsame, hrejected⟩ | ⟨plain, hdec, hinserted, hcases⟩
  · refine Or.inl ⟨hsame, ?_⟩
    rw [accepted]
    split_ifs
    · rfl
    · cases hdec : c.decrypt p with
      | none => rfl
      | some plain =>
        have hnot := hrejected plain ((decrypt_congr hbook.key p).trans hdec)
        rw [hbook.recvBuf] at hnot
        simp [hnot]
  · rw [hbook.recvBuf] at hinserted hcases
    rw [decrypt_congr hbook.key] at hdec
    have hwell : plain.WellFormed := by
      rw [Packet.WellFormed, header_of_decrypt hdec]
      exact hp
    rcases hplaced.insert_cases hwell now with hrejected | ⟨q, hq, hq', hseq, -, hinsert⟩
    · rw [hrejected] at hinserted
      exact absurd hinserted (by simp)
    rw [hinsert] at hcases
    have hstored := stored_spec c₁ now plain
    -- after the reports only the light acknowledgement and the delivery follow
    have hdone : ∀ reporting : Conn σ, reporting.rcv.recvBuf = c.rcv.recvBuf.store plain now →
        Edits False (c.rcv.recvBuf.store plain now)
          ((reporting.checkLiteACK now).deliverNow now).rcv.recvBuf ∧
        ((reporting.checkLiteACK now).deliverNow now).rcv.deferredLoss =
          reporting.rcv.deferredLoss ∧
        Emits (fun o => o.isNAK = false) reporting
          ((reporting.checkLiteACK now).deliverNow now) := by
      intro reporting hbuf
      have hlite := recvIdle_checkLiteACK reporting now
      rw [← hbuf, ← hlite.recvBuf]
      refine ⟨edits_deliverNow _ now (Or.inr ?_), ?_,
        (nakFree_checkLiteACK reporting now).trans (emits_deliverNow (fun _ => rfl) _ now)⟩
      · rw [hlite.recvBuf, hbuf]
        exact (hplaced.store hseq hq hq' trivial now).regular
      · rw [(deliveryFrame_deliverNow _ now).deferredLoss, hlite.deferredLoss]
    obtain ⟨hedits, hdeferred, hemits⟩ := hdone ((c₁.stored now plain).reportLosses now
        (c.rcv.recvBuf.insertedAt plain.header.sequenceNumber) plain.header.sequenceNumber)
      (by rw [(reports_reportLosses _ _ _ _).rest, hstored.recvBuf, hbook.recvBuf, hinsert])
    rw [← hcases] at hedits hdeferred hemits
    exact Or.inr ⟨plain, q, hdec, hseq, hq, hq', hinsert, hstored.params.trans hbook.params,
      hstored.fecReceiver.trans (hbook.fecReceiver.trans hfec), by rw [hstored.deferredLoss,
        hbook.deferredLoss],
      hstored.outputs.trans hbook.outputs, hedits, hdeferred, hemits⟩

theorem Accepts.accepted_eq (h : Accepts c c₁ now p plain s q) (hopen : c.closed = false)
    (hdata : p.header.isControl = false) : c.accepted (.packet now p) = some (wrap q) := by
  rw [← h.seq_eq]
  refine Conn.accepted_eq hopen hdata h.decrypted ?_
  rw [h.insert_eq]
  exact Shows.insertedAt_inserted _ _

/-! ## Books under observation -/

def watch (s : Conn σ × Ledger) (i : Input) : Conn σ × Ledger :=
  let (c, l) := s
  (c.step i,
    { head := c.positionOf l (c.step i).rcv.recvBuf.startSeq
      received := l.received ∪ { x | ∃ q, c.accepted i = some q ∧ x = c.positionOf l q }
      reported := l.reported ∪
        { x | ∃ o ∈ (c.step i).outputs.drop c.outputs.length, ∃ q, o.Reports q ∧
          x = c.positionOf l q } })

/-- The condition on a step: no drop request, numbers as on the wire, and what is accepted is
reported in full. -/
structure Attentive (s : Conn σ × Ledger) (i : Input) : Prop where
  noDrop : i.isDropReq = false
  wellFormed : i.WellFormed
  tells : ∀ q, s.1.accepted i = some q → Tells s.1.rcv.recvBuf q

theorem Books.of_stretch
    (h : Stretch (c.step i).rcv.recvBuf (c.positionOf l (c.step i).rcv.recvBuf.startSeq) m ∧
      l.head ≤ c.positionOf l (c.step i).rcv.recvBuf.startSeq)
    (hcovered : ∀ x, l.head ≤ x → x < m → x ∈ (watch (c, l) i).2.received ∨
      x ∈ (watch (c, l) i).2.reported) :
    Books (c.step i) (watch (c, l) i).2 m :=
  ⟨h.1, fun x hx hx' => hcovered x (h.2.trans hx) hx'⟩

theorem Books.covered_watch (h : Books c l m) (i : Input) : ∀ x, l.head ≤ x → x < m →
    x ∈ (watch (c, l) i).2.received ∨ x ∈ (watch (c, l) i).2.reported := by
  intro x hx hx'
  rcases h.covered x hx hx' with hreceived | hreported
  · exact Or.inl (Or.inl hreceived)
  · exact Or.inr (Or.inl hreported)

theorem Prompt.step (h : c.Prompt) (i : Input) : (c.step i).Prompt :=
  ⟨fecReceiver_step h.fecReceiver i, by rw [params_step]; exact h.reorderTolerance⟩

theorem Books.data (h : Books c l m) (hprompt : c.Prompt) (hopen : c.closed = false)
    (hdata : p.header.isControl = false) (hbook : Book c c₁) (hi : Attentive (c, l) (.packet now p))
    (hstep : c.step (.packet now p) = c₁.handleData now p) :
    ∃ m', Books (c.step (.packet now p)) (watch (c, l) (.packet now p)).2 m' := by
  have hm := h.lt
  have hle := h.le
  have hlen := h.placed.len_le
  rcases handleData_accepts hbook hprompt.fecReceiver h.placed hi.wellFormed with ⟨hsame, -⟩ |
    ⟨plain, q, haccepts⟩
  · refine ⟨m, Books.of_stretch (h.toStretch.deliver rfl ?_) (h.covered_watch _)⟩
    rw [hstep, hsame, hbook.recvBuf]
  · obtain ⟨hseq, hq, hreach⟩ := And.intro haccepts.seq_eq (And.intro haccepts.le haccepts.lt)
    have haccepted := haccepts.accepted_eq hopen hdata
    refine ⟨max m (q + 1), Books.of_stretch ((h.toStretch.store hseq hq hreach now).deliver
      (sameRing_store c.rcv.recvBuf plain now).startSeq ?_) fun x hx hx' => ?_⟩
    · rw [hstep]
      exact haccepts.edits
    · rcases Nat.lt_or_ge x m with hlt | hge
      · exact h.covered_watch _ x hx hlt
      · rcases Nat.eq_or_lt_of_le (show x ≤ q by omega) with rfl | hlt
        · -- the packet itself
          left
          right
          exact ⟨wrap x, haccepted, by rw [h.positionOf hq (by omega)]⟩
        · -- a number between the old end and the packet
          right
          right
          obtain ⟨hgap, hgapStart, hgapEnd, hshort⟩ :=
            insertedAt_gap h.reaches h.placed hle (by omega) (by omega) (hi.tells _ haccepted)
          rw [← hseq] at hgap hgapStart hgapEnd
          obtain ⟨o, os, hout, hreports⟩ := exists_report ⟨haccepts.fecReceiver, by
            rw [haccepts.params]
            exact hprompt.reorderTolerance⟩ hgap (by rw [hgapStart]; exact valid_wrap _) now
            plain.header.sequenceNumber
          obtain ⟨os', hos', -⟩ := haccepts.emits
          rw [haccepts.outputs] at hout
          refine ⟨o, ?_, wrap x, hreports _ ?_, ?_⟩
          · rw [hstep, hos', hout, List.append_assoc, List.drop_left]
            simp
          · rw [hgapStart, hgapEnd]
            exact (mem_immediateLosses (by omega) (by omega) (by omega)).mpr ⟨x, hge, by omega, rfl⟩
          · rw [h.positionOf hx (by omega)]

theorem Books.step (h : Books c l m) (hprompt : c.Prompt) (hi : Attentive (c, l) i) :
    ∃ m', Books (c.step i) (watch (c, l) i).2 m' := by
  have hstep := recvStep c i
  generalize hc' : c.step i = c' at hstep
  -- what the end of the step leaves of the buffer, when nothing is stored
  have hdeliver : Edits False c.rcv.recvBuf (c.step i).rcv.recvBuf →
      ∃ m', Books (c.step i) (watch (c, l) i).2 m' := fun hedits =>
    ⟨m, Books.of_stretch (h.toStretch.deliver rfl hedits) (h.covered_watch i)⟩
  rw [← hc']
  cases hstep with
  | idle hidle => exact hdeliver (by rw [hc', hidle.recvBuf])
  | data hi' hopen hdata hbook =>
    subst hi'
    exact h.data hprompt hopen hdata hbook hi hc'
  | drop hi' hopen htype hbook =>
    have := hi.noDrop
    simp [hi', Input.isDropReq, htype.1, htype.2] at this
  | play hi' hopen hbook =>
    refine hdeliver ?_
    rw [hc', ← hbook.recvBuf]
    exact edits_deliverTSBPD _ _

omit [Primitives] in
theorem books_establish (cc : σ) (now : ℤ) {ep : EstablishParams} (hcap : ep.rcvCap ≤ 2 ^ 30)
    (hisn : Valid ep.recvISN) : Books (establish cc now ep) { head := ep.recvISN } ep.recvISN := by
  obtain ⟨os, hos⟩ := exists_establish_eq cc now ep
  have hbuf : (establish cc now ep).rcv.recvBuf =
      (RecvBuffer.new ep.rcvCap ep.recvISN).setMessageAPI (!ep.live && ep.message) := by
    rw [hos]
    rfl
  have hplaced : Placed AnyPacket (establish cc now ep).rcv.recvBuf ep.recvISN := by
    rw [hbuf]
    exact placed_new hcap hisn _
  refine ⟨⟨hplaced, ?_, le_rfl, ?_⟩, fun x hx hx' => absurd hx' (by simpa using hx)⟩
  · rw [hbuf]
    exact reaches_new _ hisn _
  · have := hplaced.len_pos
    simp only
    omega

/-- Without a filter and with a reorder tolerance of zero: in every state of a run whose
arrivals are reported in full, every position between the head of the buffer and the highest
number received has been accepted, or named in a loss report. -/
theorem gaps_reported {ep : EstablishParams} (hcap : ep.rcvCap ≤ 2 ^ 30) (hisn : Valid ep.recvISN)
    (hfilter : ep.filter = none) (htol : ep.lossMaxTTL ≤ 0) (cc : σ) (now : ℤ) (is : List Input)
    (hsteps : AllSteps watch Attentive (establish cc now ep, { head := ep.recvISN }) is) :
    AllStates watch Balanced (establish cc now ep, { head := ep.recvISN }) is := by
  have hprompt : (establish cc now ep).Prompt := by
    obtain ⟨os, hos⟩ := exists_establish_eq cc now ep
    rw [hos]
    refine ⟨?_, max_eq_right htol⟩
    show ep.filter.map _ = none
    rw [hfilter]
    rfl
  have hinv : AllStates watch (fun s : Conn σ × Ledger => s.1.Prompt ∧ ∃ m, Books s.1 s.2 m)
      (establish cc now ep, { head := ep.recvISN }) is := by
    refine AllSteps.allStates (fun s i hs hi => ?_) ⟨hprompt, _, books_establish cc now hcap hisn⟩
      hsteps
    obtain ⟨hprompt, m, hbooks⟩ := hs
    exact ⟨hprompt.step i, hbooks.step hprompt hi⟩
  exact hinv.mono fun s hs => hs.2.elim fun m hbooks => hbooks.balanced

end

end Conn

section Examples

open scoped XorCipher

def dataInput (now : ℤ) (n : ℕ) : Input :=
  .packet now { header := { sequenceNumber := n }, data := [7] }

def smallParams (live : Bool) : EstablishParams :=
  { live := live, flowWindow := 32, bufferCapacity := 32 }

def observed (live : Bool) : Conn LiveCC × Ledger :=
  (Conn.establish (LiveCC.new 0 0) 0 (smallParams live), { head := 0 })

/-- A live receiver gets the numbers 0, 3 and 2: the numbers 1 and 2 are reported with the
arrival of 3. -/
theorem gaps_reported_reordered :
    let s := exec Conn.watch (observed true) [dataInput 1000 0, dataInput 2000 3, dataInput 3000 2]
    s.2.head = 0 ∧ s.1.rcv.recvBuf.maxSeq = 4 ∧ ∀ x < 4, x ∈ s.2.received ∨ x ∈ s.2.reported := by
  have hcap : (smallParams true).rcvCap ≤ 2 ^ 30 := by decide
  have hall := Conn.gaps_reported hcap (by decide) rfl (by decide) (LiveCC.new 0 0) 0
    [dataInput 1000 0, dataInput 2000 3, dataInput 3000 2] (by
      refine ⟨⟨rfl, by decide, fun q hq => ?_⟩, ⟨rfl, by decide, fun q hq => ?_⟩,
        ⟨rfl, by decide, fun q hq => ?_⟩, trivial⟩
      · obtain rfl : q = 0 := Option.some.inj (hq.symm.trans (by decide +kernel))
        exact ⟨by decide +kernel, by decide +kernel, by decide +kernel⟩
      · obtain rfl : q = 3 := Option.some.inj (hq.symm.trans (by decide +kernel))
        exact ⟨by decide +kernel, by decide +kernel, by decide +kernel⟩
      · obtain rfl : q = 2 := Option.some.inj (hq.symm.trans (by decide +kernel))
        exact ⟨by decide +kernel, by decide +kernel, by decide +kernel⟩)
  refine ⟨by decide +kernel, by decide +kernel, fun x hx => ?_⟩
  exact hall.exec (by decide +kernel) x (Nat.zero_le x) (hx.trans_eq (by decide +kernel))

/-- A stream receiver has delivered the number 0 when the number 2 arrives.  The number 1 is
missing, and nothing is reported. -/
theorem drained_gap_unreported :
    let s := exec Conn.watch (observed false) [dataInput 1000 0, dataInput 2000 2]
    s.2.head = 1 ∧ s.1.rcv.recvBuf.maxSeq = 3 ∧ ¬Conn.Balanced s := by
  set s₁ := Conn.watch (observed false) (dataInput 1000 0)
  have hfirst : (observed false).1.accepted (dataInput 1000 0) = some 0 := by decide +kernel
  have hsecond : s₁.1.accepted (dataInput 2000 2) = some 2 := by decide +kernel
  have hsilent : ∀ o ∈ s₁.1.outputs, o.isNAK = false := by decide +kernel
  have hsilent' : ∀ o ∈ (s₁.1.step (dataInput 2000 2)).outputs, o.isNAK = false := by decide +kernel
  refine ⟨by decide +kernel, by decide +kernel, fun h => ?_⟩
  rcases h (by decide +kernel) 1 (by decide +kernel) (by decide +kernel) with
    ((hnone | ⟨q, hq, hx⟩) | ⟨q, hq, hx⟩) | ((hnone | ⟨o, ho, q, hq, -⟩) | ⟨o, ho, q, hq, -⟩)
  · exact hnone
  · obtain rfl := Option.some.inj (hfirst.symm.trans hq)
    exact absurd hx (by decide +kernel)
  · obtain rfl := Option.some.inj (hsecond.symm.trans hq)
    exact absurd hx (by decide +kernel)
  · exact hnone
  · exact absurd hq.isNAK (by simp [hsilent o (List.mem_of_mem_drop ho)])
  · exact absurd hq.isNAK (by simp [hsilent' o (List.mem_of_mem_drop ho)])

end Examples

end SrtGo.Core
