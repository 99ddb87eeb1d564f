import SrtGo.Flow.GapReports

/-!
# Loss reports name what is missing

A number is settled once the head of the receive buffer has passed it or its packet is
in the buffer.  No loss report names a settled number, as long as a drop request does not
leave the head past the end of the buffer when the next packet arrives, and no loss that
is held back for reordering has been passed by the head.  The numbers held back are holes
of the buffer, and so is every gap that a packet shows.
-/

namespace SrtGo.Buffer.RecvBuffer

open SrtGo.Seq

variable {R : ℕ → Packet → Prop} {rb rb' : RecvBuffer} {s m y : ℕ}

/-- The number has been delivered or dropped, or its packet is in the buffer. -/
def Settled (rb : RecvBuffer) (q : ℕ) : Prop :=
  lessThan q rb.startSeq = true ∨ ahead rb.startSeq q < rb.len ∧ (rb.entryAt q).Held

def Free (rb : RecvBuffer) (s y : ℕ) : Prop :=
  s ≤ y ∧ y < s + rb.len ∧ ¬(rb.entries (y % rb.len)).Held

theorem Free.not_settled (h : rb.Free s y) (hplaced : Placed R rb s) : ¬rb.Settled (wrap y) := by
  obtain ⟨hy, hy', hnot⟩ := h
  have hlen := hplaced.len_le
  rintro (hless | ⟨-, hheld⟩)
  · rw [hplaced.startSeq_eq] at hless
    have := lt_of_lessThan_wrap hless (by omega)
    omega
  · rw [hplaced.entryAt_eq] at hheld
    exact hnot hheld

theorem mem_generateLossList (h : Spans R rb s m) {x : ℕ} (hx : x ∈ rb.generateLossList) :
    ∃ y, x = wrap y ∧ rb.Free s y := by
  have hlt := h.lt
  have hlen := h.placed.len_le
  rw [generateLossList] at hx
  rcases Nat.lt_or_ge m s with hpast | hle
  · cases hfuel : ahead rb.startSeq rb.maxSeq with
    | zero => simp [hfuel, lossLoop] at hx
    | succ fuel => simp [hfuel, lossLoop, (h.past hpast).1] at hx
  · have hloop : ∀ fuel a, s ≤ a → a ≤ m → x ∈ lossLoop rb fuel (wrap a) → ∃ y, x = wrap y ∧
        rb.Free s y := by
      intro fuel
      induction fuel with
      | zero => exact fun a _ _ hx => by simp [lossLoop] at hx
      | succ fuel ih =>
        intro a ha ham hx
        rw [lossLoop, h.reaches.maxSeq_eq, h.placed.entryAt_eq, inc_wrap] at hx
        split_ifs at hx with hless hempty
        · have ham' : a < m := lt_of_lessThan_wrap hless (by omega)
          rcases List.mem_cons.mp hx with rfl | hx
          · exact ⟨a, rfl, ha, by omega, by simp [RecvEntry.Held, hempty]⟩
          · exact ih (a + 1) (by omega) ham' hx
        · have ham' : a < m := lt_of_lessThan_wrap hless (by omega)
          exact ih (a + 1) (by omega) ham' hx
        · simp at hx
    exact hloop _ s le_rfl hle (h.placed.startSeq_eq ▸ hx)

end SrtGo.Buffer.RecvBuffer

namespace SrtGo.Core

open Buffer Bytes Congestion Crypto SrtGo.Seq Run

variable {q : ℕ} {G : ℕ → Prop} {o : Output}

def Input.isData : Input → Bool
  | .packet _ p => !p.header.isControl
  | _ => false

namespace Conn

variable {σ : Type} {i : Input}

section
variable [Primitives]

/-- The receive buffer as it is when the input has losses reported: a data packet is already in
it. -/
def reportBuf (c : Conn σ) : Input → RecvBuffer
  | .packet now p =>
    if c.closed ∨ p.header.isControl then c.rcv.recvBuf
    else
      match c.decrypt p with
      | none => c.rcv.recvBuf
      | some plain => (c.rcv.recvBuf.insert plain now).1
  | _ => c.rcv.recvBuf

/-- No loss report of the step names a number that is settled when it is sent. -/
def NamesMissing [Controller σ] (c : Conn σ) (i : Input) : Prop :=
  ∀ o ∈ (c.step i).outputs.drop c.outputs.length, ∀ q, o.Reports q → ¬(c.reportBuf i).Settled q

theorem namesMissing_of_emits [Controller σ] {c : Conn σ}
    (h : Emits (fun o => o.isNAK = true → o.NakOf fun lost => ∀ x ∈ lost,
      Valid x ∧ G x) c (c.step i))
    (hG : ∀ q, G q → ¬(c.reportBuf i).Settled q) : c.NamesMissing i := by
  obtain ⟨os, hos, hall⟩ := h
  intro o ho q hq
  rw [hos, List.drop_left] at ho
  exact hG q (hq.of_nakOf (hall o ho hq.isNAK))

end

/-- The condition on a step: numbers as on the wire; when a data packet or a drop request arrives
the head of the buffer is not past its end; and when a data packet arrives the head has not passed
a loss that is held back. -/
structure Careful (c : Conn σ) (i : Input) : Prop where
  wellFormed : i.WellFormed
  within : i.isData = true ∨ i.isDropReq = true →
    ahead c.rcv.recvBuf.startSeq c.rcv.recvBuf.maxSeq < c.rcv.recvBuf.len
  pending : i.isData = true → ∀ q ∈ c.rcv.deferredLoss, lessThan q c.rcv.recvBuf.startSeq = false

/-! ## The invariant -/

/-- A loss that is held back: before the end of the buffer by less than a ring, and its slot is
free unless the head has passed it. -/
def Hole (rb : RecvBuffer) (s m x : ℕ) : Prop :=
  ∃ y, x = wrap y ∧ y < m ∧ m < y + rb.len ∧ (s ≤ y → ¬(rb.entries (y % rb.len)).Held)

structure Holes (rb : RecvBuffer) (D : List ℕ) (s m : ℕ) : Prop where
  spans : RecvBuffer.Spans AnyPacket rb s m
  nodup : D.Nodup
  holes : ∀ x ∈ D, Hole rb s m x

variable {rb rb' : RecvBuffer} {D : List ℕ} {s m : ℕ} {p : Packet}

theorem Holes.le (h : Holes rb D s m) (hwithin : ahead rb.startSeq rb.maxSeq < rb.len) : s ≤ m := by
  by_contra hpast
  have hlen := h.spans.placed.len_le
  have hfar := (h.spans.past (by omega)).2
  rw [h.spans.placed.startSeq_eq, h.spans.reaches.maxSeq_eq] at hwithin
  unfold ahead wrap at hwithin
  omega

theorem Hole.edits {free : Prop} {s' x : ℕ} (h : Hole rb s m x) (hs : s ≤ s')
    (hedits : RecvBuffer.Edits free rb rb') : Hole rb' s' m x := by
  obtain ⟨y, hx, hy, hy', hnot⟩ := h
  refine ⟨y, hx, hy, by rwa [hedits.len_eq], fun hs' hheld => ?_⟩
  rw [hedits.len_eq] at hheld
  exact hnot (hs.trans hs') (hedits.held_of_held hheld)

theorem Holes.edits (h : Holes rb D s m) (hedits : RecvBuffer.Edits False rb rb') :
    ∃ s', Holes rb' D s' m := by
  obtain ⟨s', hs', hspans, -⟩ := h.spans.edits hedits
  exact ⟨s', hspans, h.nodup, fun x hx => (h.holes x hx).edits hs' hedits⟩

theorem Holes.drop (h : Holes rb D s m) (hle : s ≤ m) {upTo : ℕ} (hupTo : Valid upTo) :
    ∃ s', Holes (rb.drop upTo).buffer D s' m := by
  obtain ⟨s', hs', hspans⟩ := h.spans.drop hle hupTo
  have hedits : RecvBuffer.Edits True rb (rb.drop upTo).buffer :=
    RecvBuffer.edits_drop trivial rb upTo
  exact ⟨s', hspans, h.nodup, fun x hx => (h.holes x hx).edits hs' hedits⟩

def FreeBefore (rb : RecvBuffer) (s m x : ℕ) : Prop := ∃ y, x = wrap y ∧ y < m ∧ rb.Free s y

theorem FreeBefore.hole {x : ℕ} (h : FreeBefore rb s m x) (hlt : m < s + rb.len) :
    Hole rb s m x := by
  obtain ⟨y, hx, hy, hs, hy', hnot⟩ := h
  exact ⟨y, hx, hy, by omega, fun _ => hnot⟩

theorem Holes.store (h : Holes rb D s m) (hle : s ≤ m) (now : ℤ)
    (hpending : ∀ q ∈ D, lessThan q rb.startSeq = false) (hseq : p.header.sequenceNumber = wrap q)
    (hq : s ≤ q)
    (hq' : q + 1 < s + rb.len) : RecvBuffer.Spans AnyPacket (rb.store p now) s (max m (q + 1)) ∧
      ((rb.insertedAt p.header.sequenceNumber).hasGap = true →
        GapWithin (FreeBefore (rb.store p now) s (max m (q + 1))) (2 ^ 30)
          (rb.insertedAt p.header.sequenceNumber)) ∧
      ∀ x ∈ D.erase p.header.sequenceNumber, FreeBefore (rb.store p now) s (max m (q + 1)) x := by
  have hplaced := h.spans.placed
  have hlen := hplaced.len_le
  have hlt := h.spans.lt
  have hsame := RecvBuffer.sameRing_store rb p now
  -- besides the slot of the packet nothing changes
  have hslot : ∀ y, s ≤ y → y < s + rb.len → y ≠ q → ¬(rb.entries (y % rb.len)).Held →
      (rb.store p now).Free s y := by
    intro y hy hy' hne hnot
    have hentries : (rb.store p now).entries = Function.update rb.entries (q % rb.len)
        { pkt := p, state := .available, arrivalTS := now } := by
      rw [hsame.entries, ← hplaced.index_eq, ← hseq]
      rfl
    have hlen' : (rb.store p now).len = rb.len := hsame.len
    refine ⟨hy, by rwa [hlen'], ?_⟩
    rw [hlen', hentries, Function.update_of_ne fun heq => hne ?_]
    · exact hnot
    · exact Ring.separates_mod rb.len y q (by omega) (by omega) heq
  refine ⟨h.spans.store (by omega) hseq hq hq' trivial now, fun hgap => ?_, fun x hx => ?_⟩
  · rw [hseq] at hgap ⊢
    obtain ⟨hmq, heq⟩ := h.spans.reaches.gap hgap (by omega)
    rw [heq]
    refine ⟨m, q - 1, rfl, rfl, by omega, by omega, by omega, fun y hy hy' => ?_⟩
    refine ⟨y, rfl, by omega, hslot y (by omega) (by omega) (by omega) fun hheld => ?_⟩
    have := h.spans.reaches.covers y (by omega) (by omega) hheld
    omega
  · -- a number that is held back is another one, and the head has not passed it
    have hne : x ≠ p.header.sequenceNumber := fun heq => by
      rw [heq] at hx
      exact h.nodup.not_mem_erase hx
    have hmem := List.mem_of_mem_erase hx
    obtain ⟨y, rfl, hy, hy', hnot⟩ := h.holes x hmem
    have hsy : s ≤ y := by
      by_contra hpassed
      have hless := hpending _ hmem
      rw [hplaced.startSeq_eq, lessThan_wrap (by omega) (by omega),
        decide_eq_false_iff_not] at hless
      omega
    refine ⟨y, rfl, by omega, hslot y hsy (by omega) (fun heq => hne ?_) (hnot hsy)⟩
    rw [hseq, heq]

/-! ## Steps -/

variable {c : Conn σ}

section
variable [Controller σ] [Primitives] {ep : EstablishParams}

structure Unfiltered (c : Conn σ) : Prop where
  dataOnly : c.DataOnly
  fecReceiver : c.rcv.fecReceiver = none
  reorderTolerance : 0 ≤ c.params.reorderTolerance

theorem Unfiltered.step (h : c.Unfiltered) (i : Input) : (c.step i).Unfiltered :=
  ⟨h.dataOnly.step, fecReceiver_step h.fecReceiver i, by rw [params_step]; exact h.reorderTolerance⟩

def Sound (c : Conn σ) : Prop := ∃ s m, Holes c.rcv.recvBuf c.rcv.deferredLoss s m

theorem sound_handleData {c₁ : Conn σ} (hbook : Book c c₁)
    (h : Holes c.rcv.recvBuf c.rcv.deferredLoss s m)
    (hun : c.Unfiltered) {now : ℤ} (hi : Careful c (.packet now p))
    (hcontrol : p.header.isControl = false) :
    Sound (c₁.handleData now p) ∧ ∃ G : ℕ → Prop,
      Emits (fun o => o.isNAK = true → o.NakOf fun lost => ∀ x ∈ lost, Valid x ∧ G x) c
        (c₁.handleData now p) ∧
      ∀ q, G q → ∃ plain, c.decrypt p = some plain ∧
        ¬(c.rcv.recvBuf.insert plain now).1.Settled q := by
  have hdata : Input.isData (.packet now p) = true := by simp [Input.isData, hcontrol]
  have hle := h.le (hi.within (Or.inl hdata))
  rcases handleData_accepts hbook hun.fecReceiver h.spans.placed hi.wellFormed with
    ⟨hsame, -⟩ | ⟨plain, q, haccepts⟩
  · rw [hsame]
    refine ⟨⟨s, m, ?_⟩, fun _ => False, Emits.of_eq hbook.outputs, fun _ hfalse => hfalse.elim⟩
    rwa [hbook.recvBuf, hbook.deferredLoss]
  · obtain ⟨hspans, hgap, hdeferred⟩ := h.store hle now (hi.pending hdata) haccepts.seq_eq
      haccepts.le haccepts.lt
    have htol : 0 ≤ (c₁.stored now plain).params.reorderTolerance := by
      rw [haccepts.params]
      exact hun.reorderTolerance
    have hreported := reported_reportLosses (c := c₁.stored now plain) (n := 2 ^ 30)
      (fun hhas _ => (hgap hhas).mono (by push_cast; omega)) (by norm_num) htol
      (by rw [haccepts.deferredLoss]; exact hdeferred) now plain.header.sequenceNumber
    have hholes : Holes (c.rcv.recvBuf.store plain now) (c₁.handleData now p).rcv.deferredLoss s
        (max m (q + 1)) := by
      rw [haccepts.deferred]
      refine ⟨hspans, hreported.nodup (haccepts.deferredLoss ▸ h.nodup.erase _), fun x hx => ?_⟩
      exact (hreported.deferred x hx).hole hspans.lt
    refine ⟨?_, FreeBefore (c.rcv.recvBuf.store plain now) s (max m (q + 1)), ?_, ?_⟩
    · obtain ⟨s', hs'⟩ := hholes.edits haccepts.edits
      exact ⟨s', _, hs'⟩
    · refine (haccepts.reports hreported.emits).mono fun o ho hnak => (ho hnak).mono ?_
      rintro lost ⟨-, hlost⟩ x hx
      obtain ⟨y, rfl, hfree⟩ := hlost x hx
      exact ⟨valid_wrap y, y, rfl, hfree⟩
    · rintro x ⟨y, rfl, -, hfree⟩
      refine ⟨plain, haccepts.decrypted, ?_⟩
      rw [haccepts.insert_eq]
      exact hfree.not_settled hspans.placed

theorem Sound.step (h : c.Sound) (hun : c.Unfiltered) (hi : Careful c i) : (c.step i).Sound := by
  obtain ⟨s, m, hholes⟩ := h
  have hstep := recvStep c i
  generalize c.step i = c' at hstep
  cases hstep with
  | idle hidle => exact ⟨s, m, by rwa [hidle.recvBuf, hidle.deferredLoss]⟩
  | data hi' hopen hcontrol hbook =>
    subst hi'
    exact (sound_handleData hbook hholes hun hi hcontrol).1
  | @drop c₁ now p hi' hopen htype hbook =>
    subst hi'
    have hdrop : Input.isDropReq (.packet now p) = true := by
      simp [Input.isDropReq, htype.1, htype.2]
    rw [← hbook.recvBuf, ← hbook.deferredLoss] at hholes
    unfold handleDropReq
    split
    · exact ⟨s, m, hholes⟩
    · rename_i dr _
      have hle : s ≤ m := hholes.le (by rw [hbook.recvBuf]; exact hi.within (Or.inr hdrop))
      obtain ⟨s₁, hdropped⟩ := hholes.drop hle (RecvBuffer.valid_inc dr.lastSeqNo)
      obtain ⟨s₂, hs₂⟩ := hdropped.edits (edits_deliverNow
        ((c₁.setRecvBuf (c₁.rcv.recvBuf.drop (inc dr.lastSeqNo)).buffer).modifyTimer fun t =>
          (c₁.rcv.recvBuf.drop (inc dr.lastSeqNo)).timestamps.foldl Tsbpd.Timer.updateWrap t) now
        (Or.inr hdropped.spans.placed.regular))
      refine ⟨s₂, m, ?_⟩
      rw [(deliveryFrame_deliverNow _ now).deferredLoss]
      exact hs₂
  | play hi' hopen hbook =>
    rw [← hbook.recvBuf, ← hbook.deferredLoss] at hholes
    obtain ⟨s', hs'⟩ := hholes.edits (edits_deliverTSBPD _ _)
    exact ⟨s', m, by rw [(deliveryFrame_deliverTSBPD _ _).deferredLoss]; exact hs'⟩

theorem Sound.namesMissing (h : c.Sound) (hun : c.Unfiltered) (hi : Careful c i) :
    c.NamesMissing i := by
  obtain ⟨s, m, hholes⟩ := h
  -- a step that sends no loss report at all
  have hsilent : Emits (fun o => o.isNAK = false) c (c.step i) → c.NamesMissing i := fun hfree =>
    namesMissing_of_emits (G := fun _ => False) (hfree.mono fun o ho hnak => by simp [ho] at hnak)
      (by simp)
  by_cases hdata : ∃ now p, i = .packet now p ∧ p.header.isControl = false
  · obtain ⟨now, p, rfl, hcontrol⟩ := hdata
    cases hclosed : c.closed with
    | true => exact hsilent (Emits.of_eq (by simp [Conn.step, handlePacket, hclosed]))
    | false =>
      have hstep : c.step (.packet now p) = (c.noteAlive now).handleData now p := by
        simp [Conn.step, handlePacket, hclosed, hcontrol]
      obtain ⟨-, G, hemits, hG⟩ := sound_handleData (book_noteAlive c now) hholes hun hi hcontrol
      rw [← hstep] at hemits
      refine namesMissing_of_emits hemits fun q hq => ?_
      obtain ⟨plain, hdec, hnot⟩ := hG q hq
      have hbuf : c.reportBuf (.packet now p) = (c.rcv.recvBuf.insert plain now).1 := by
        simp [reportBuf, hclosed, hcontrol, hdec]
      rwa [hbuf]
  · by_cases htimer : ∃ now, i = .timer now .nak
    · obtain ⟨now, rfl⟩ := htimer
      refine namesMissing_of_emits (G := fun x => ∃ y, x = wrap y ∧ c.rcv.recvBuf.Free s y)
        ((emits_nakTimer c now).mono fun o ho hnak => (ho hnak).mono ?_) ?_
      · rintro lost rfl x hx
        obtain ⟨y, rfl, hfree⟩ := RecvBuffer.mem_generateLossList hholes.spans hx
        exact ⟨valid_wrap y, y, rfl, hfree⟩
      · rintro q ⟨y, rfl, hfree⟩
        exact hfree.not_settled hholes.spans.placed
    · refine hsilent (nakFree_step hun.dataOnly hun.fecReceiver (fun now p hi => ?_) fun now hi =>
        ?_)
      · by_contra hcontrol
        exact hdata ⟨now, p, hi, by simpa using hcontrol⟩
      · exact htimer ⟨now, hi⟩

omit [Primitives] in
theorem unfiltered_establish (cc : σ) (now : ℤ) (hfilter : ep.filter = none) :
    (establish cc now ep).Unfiltered := by
  rw [establish_eq]
  refine ⟨dataOnly_established cc now ep, ?_, le_max_right _ _⟩
  show ep.filter.map _ = none
  rw [hfilter]
  rfl

omit [Primitives] in
theorem sound_establish (cc : σ) (now : ℤ) (hcap : ep.rcvCap ≤ 2 ^ 30) (hisn : Valid ep.recvISN) :
    (establish cc now ep).Sound := by
  rw [establish_eq]
  exact ⟨ep.recvISN, ep.recvISN, RecvBuffer.spans_new hcap hisn _, List.nodup_nil,
    by simp [established]⟩

/-- Without a filter, no loss report of a run whose steps meet the condition names a number that has
been received, delivered or dropped when the report is sent. -/
theorem reports_name_missing {ep : EstablishParams} (hcap : ep.rcvCap ≤ 2 ^ 30)
    (hisn : Valid ep.recvISN) (hfilter : ep.filter = none) (cc : σ) (now : ℤ) (is : List Input)
    (hsteps : AllSteps step Careful (establish cc now ep) is) :
    AllSteps step NamesMissing (establish cc now ep) is := by
  refine hsteps.allSteps (Q := fun c => c.Sound ∧ c.Unfiltered) (fun c i hc hi => ?_)
    (fun c i hc hi => ?_)
    ⟨sound_establish cc now hcap hisn, unfiltered_establish cc now hfilter⟩
  · exact ⟨hc.1.step hc.2 hi, hc.2.step i⟩
  · exact hc.1.namesMissing hc.2 hi

end

end Conn

section Examples

open scoped XorCipher

def dropInput (now : ℤ) (n : ℕ) : Input :=
  .packet now
    { header := { isControl := true, controlType := .dropReq }
      data := CIFDropReq.marshalCIF ⟨0, n⟩ }

/-- A live receiver gets the numbers 0, 3 and 1.  The first report names 1 and 2, the periodic one
that follows names 2 only. -/
theorem reports_name_missing_reordered :
    let is := [dataInput 1000 0, dataInput 2000 3, dataInput 3000 1, .timer 4000 .nak]
    AllSteps Conn.step Conn.NamesMissing (observed true).1 is ∧
      ((exec Conn.step (observed true).1 is).outputs.filter Output.isNAK).length = 2 := by
  refine ⟨?_, by decide +kernel⟩
  have hcap : (smallParams true).rcvCap ≤ 2 ^ 30 := by decide
  refine Conn.reports_name_missing hcap (by decide) rfl (LiveCC.new 0 0) 0 _ ?_
  refine ⟨⟨by decide, fun _ => by decide +kernel, fun _ => by decide +kernel⟩,
    ⟨by decide, fun _ => by decide +kernel, fun _ => by decide +kernel⟩,
    ⟨by decide, fun _ => by decide +kernel, fun _ => by decide +kernel⟩,
    ⟨trivial, fun h => ?_, fun h => ?_⟩, trivial⟩
  · simp [Input.isData, Input.isDropReq] at h
  · simp [Input.isData] at h

/-- A stream receiver has delivered the number 0 and is asked to drop everything up to 5.  When the
number 8 arrives it reports all numbers from 1 to 7 as lost. -/
theorem dropped_number_reported :
    ¬AllSteps Conn.step Conn.NamesMissing (observed false).1
      [dataInput 1000 0, dropInput 2000 5, dataInput 3000 8] := by
  rintro ⟨-, -, hmissing, -⟩
  set c := ((observed false).1.step (dataInput 1000 0)).step (dropInput 2000 5) with hc
  set nak : Packet :=
    { c.control 3000 .nak with data := marshalLossList [1, 2, 3, 4, 5, 6, 7] } with hnak
  have hsent : Output.sendPacket nak true ∈ (c.step (dataInput 3000 8)).outputs.drop
      c.outputs.length := by
    decide +kernel
  refine hmissing _ hsent 3 ⟨nak, true, [1, 2, 3, 4, 5, 6, 7], rfl, rfl, rfl, rfl, fun x hx => ?_,
    by simp⟩ ?_
  · constructor
    have : ∀ x ∈ [1, 2, 3, 4, 5, 6, 7], x < 2 ^ 31 := by decide
    exact this x hx
  · exact Or.inl (by decide +kernel)

end Examples

end SrtGo.Core
