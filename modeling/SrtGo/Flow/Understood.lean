import SrtGo.Filter.Extent
import SrtGo.Flow.GapReports

/-!
# The peer understands every loss report

The reader of a loss report refuses a list that grows beyond 8192 numbers in a run.  The
receiver has no such limit: a gap is reported with up to ten thousand numbers, the timer
reports all gaps of the buffer, and a filter reports what its groups miss.  As long as
none of them has more than 8192 numbers to report, every report is read as the list it
was built from.
-/

namespace SrtGo.Buffer.RecvBuffer

open SrtGo.Seq

theorem valid_generateLossList {rb : RecvBuffer} (h : rb.Bounded) :
    ∀ x ∈ rb.generateLossList, Valid x := by
  have hloop : ∀ fuel s, Valid s → ∀ x ∈ lossLoop rb fuel s, Valid x := by
    intro fuel
    induction fuel with
    | zero => exact fun s _ x hx => by simp [lossLoop] at hx
    | succ fuel ih =>
      intro s hs x hx
      have hvalid := ih (inc s) (valid_inc s)
      rw [lossLoop] at hx
      split_ifs at hx
      · rcases List.mem_cons.mp hx with rfl | hx
        · exact hs
        · exact hvalid x hx
      · exact hvalid x hx
      · simp at hx
  exact hloop _ _ h.start

end SrtGo.Buffer.RecvBuffer

namespace SrtGo.Core

open Buffer Bytes Congestion Crypto SrtGo.Seq SrtGo.Filter Run

/-- A loss report is read as the list of 31-bit numbers that it was built from. -/
def Output.Understood (o : Output) : Prop :=
  o.isNAK = true →
    o.NakOf fun lost => (∀ x ∈ lost, Valid x) ∧ unmarshalLossList (marshalLossList lost) = .ok lost

theorem Output.understood_of_nakOf {o : Output} (h : o.NakOf (Conn.ListOf Valid 8192)) :
    o.Understood :=
  fun _ => h.mono fun _ hlost =>
    ⟨hlost.2, unmarshalLossList_marshalLossList (fun x hx => (hlost.2 x hx).lt) hlost.1⟩

namespace Conn

variable {σ : Type} {c c' : Conn σ}

/-- The condition on a step: numbers as on the wire, and no more than 8192 numbers to report.  For a
data packet these are the numbers of the gap that it shows on its insertion, without those that
reordering may still explain; for the timer, all that the buffer misses. -/
structure Brief [Primitives] (c : Conn σ) (i : Input) : Prop where
  wellFormed : i.WellFormed
  gap : ∀ now p plain, i = .packet now p → p.header.isControl = false → c.decrypt p = some plain →
    (c.rcv.recvBuf.insert plain now).2.hasGap = true → c.reportsLosses = true →
    distance (c.rcv.recvBuf.insert plain now).2.gapStart
      (c.rcv.recvBuf.insert plain now).2.gapEnd + 1 ≤
      8192 + c.params.reorderTolerance
  listed : ∀ now, i = .timer now .nak → c.rcv.recvBuf.generateLossList.length ≤ 8192

def SmallMatrix (cfg : Config) : Prop := cfg.arq = .onReq → 20 * (cfg.cols * cfg.rows) ≤ 8192

/-- Everything that a connection may report is a short list of sequence numbers. -/
structure Fluent (c : Conn σ) : Prop where
  dataOnly : c.DataOnly
  bounded : c.rcv.recvBuf.Bounded
  deferred : ∀ x ∈ c.rcv.deferredLoss, Valid x
  tolerance : 0 ≤ c.params.reorderTolerance
  filter : ∀ fec, c.rcv.fecReceiver = some fec → ∃ cfg, fec.Extent cfg ∧ SmallMatrix cfg

theorem gapWithin_insert {rb : RecvBuffer} (hb : rb.Bounded) {p : Packet} (hp : p.WellFormed)
    (now n : ℤ) (hgap : (rb.insert p now).2.hasGap = true)
    (hn : distance (rb.insert p now).2.gapStart (rb.insert p now).2.gapEnd + 1 ≤ n) :
    GapWithin Valid n (rb.insert p now).2 := by
  unfold RecvBuffer.insert RecvBuffer.insertedAt at hgap hn ⊢
  simp only at hgap hn ⊢
  split_ifs at hgap hn ⊢ with hold hdist hstate hcase
  · simp [InsertResult.hasGap] at hgap
  · simp [InsertResult.hasGap] at hgap
  · simp [InsertResult.hasGap] at hgap
  · obtain ⟨-, hless⟩ := hcase
    obtain ⟨hpos, hhalf⟩ := ahead_of_lessThan hb.max hp hless
    set n' := ahead rb.maxSeq p.header.sequenceNumber with hn'
    have hend : p.header.sequenceNumber = wrap (rb.maxSeq + (n' - 1) + 1) := by
      have := wrap_add_ahead rb.maxSeq hp
      rw [wrap_of_lt hb.max.lt, ← hn'] at this
      rw [← this]
      congr 1
      omega
    have hlast : dec p.header.sequenceNumber = wrap (rb.maxSeq + (n' - 1)) := by rw [hend, dec_wrap]
    have hfirst : rb.maxSeq = wrap rb.maxSeq := (wrap_of_lt hb.max.lt).symm
    rw [hlast, hfirst, distance_wrap (by rw [← hfirst]; omega) (by rw [← hfirst]; omega)] at hn
    exact ⟨rb.maxSeq, rb.maxSeq + (n' - 1), hfirst, hlast,
      by omega, by omega, by omega, fun y _ _ => valid_wrap y⟩
  · simp [InsertResult.hasGap] at hgap

section
variable [Controller σ] [Primitives] {i : Input} {c₀ : Conn σ}

theorem Shift.losses_side (h : Shift i c₀ c c') :
    ((∀ x ∈ c'.rcv.deferredLoss, x ∈ c.rcv.deferredLoss) ∨ ReportsGap i c₀ c c') ∧
    (c'.rcv.fecReceiver = c.rcv.fecReceiver ∨ ∃ fec seqNo timestamp encFlag msgNo payload,
      c.rcv.fecReceiver = some fec ∧
      c'.rcv.fecReceiver = some (fec.receive seqNo timestamp encFlag msgNo payload).receiver) := by
  have hsame : ∀ {c' : Conn σ}, c'.rcv.deferredLoss = c.rcv.deferredLoss →
      (∀ x ∈ c'.rcv.deferredLoss, x ∈ c.rcv.deferredLoss) ∨ ReportsGap i c₀ c c' :=
    fun heq => Or.inl fun x hx => heq ▸ hx
  cases h with
  | book h => exact ⟨hsame h.deferredLoss, Or.inl h.fecReceiver⟩
  | report h hsource =>
    have hfec : c'.rcv.fecReceiver = c.rcv.fecReceiver := by rw [h.rest]
    rcases hsource with ⟨lost, -, rfl⟩ | hgap
    · exact ⟨hsame (deferredLoss_emitNAK c i.now _), Or.inl hfec⟩
    · exact ⟨Or.inr hgap, Or.inl hfec⟩
  | arrive p => exact ⟨Or.inl fun x hx => List.mem_of_mem_erase hx, Or.inl rfl⟩
  | deliver h hd => cases h <;> exact ⟨hsame rfl, Or.inl rfl⟩
  | filter hi hfec => exact ⟨hsame rfl, Or.inr ⟨_, _, _, _, _, _, hfec, rfl⟩⟩
  | packet seqNo ts f =>
    have hrcv := (sendFrame_sendData c i.now seqNo ts f).rcv
    exact ⟨hsame (by rw [hrcv]), Or.inl (by rw [hrcv])⟩
  | _ => exact ⟨hsame rfl, Or.inl rfl⟩

theorem Shift.reportsLosses (h : Shift i c₀ c c') :
    c'.reportsLosses = c.reportsLosses ∧
      c'.params.reorderTolerance = c.params.reorderTolerance := by
  have hparams := h.sideMove.params
  refine ⟨?_, by rw [hparams]⟩
  unfold Conn.reportsLosses
  rw [hparams]
  rcases h.losses_side.2 with hsame | ⟨fec, seqNo, timestamp, encFlag, msgNo, payload, hfec, hnext⟩
  · rw [hsame]
  · rw [hfec, hnext]
    rfl

theorem ReportsGap.reported (hgap : ReportsGap i c₀ c c') (hc : c.Fluent)
    (hb : c₀.rcv.recvBuf.Bounded) (hsame : c.reportsLosses = c₀.reportsLosses ∧
      c.params.reorderTolerance = c₀.params.reorderTolerance)
    (hi : Brief c₀ i) : Reported Valid 8192 c c' := by
  obtain ⟨now, p, plain, rfl, hcontrol, hdec, -, rfl⟩ := hgap
  have hheader := header_of_decrypt hdec
  have hwell : plain.WellFormed := by
    rw [Packet.WellFormed, hheader]
    exact hi.wellFormed
  refine reported_reportLosses (fun hhas hreports => ?_) (by norm_num) hc.tolerance hc.deferred now
    _
  rw [hsame.1] at hreports
  rw [hsame.2]
  exact gapWithin_insert hb hwell now _ hhas (hi.gap now p plain rfl hcontrol hdec hhas hreports)

theorem Fluent.move (hmove : Shift i c₀ c c') (hc : c.Fluent) (hb : c₀.rcv.recvBuf.Bounded)
    (hsame : c.reportsLosses = c₀.reportsLosses ∧
      c.params.reorderTolerance = c₀.params.reorderTolerance)
    (hi : Brief c₀ i) : c'.Fluent := by
  obtain ⟨hdeferred, hfilter⟩ := hmove.losses_side
  refine ⟨hmove.dataOnly hc.dataOnly, ?_, ?_, ?_, ?_⟩
  · rcases hmove.ring with hedits | ⟨p, now, hinsert⟩
    · exact hedits.bounded hc.bounded
    · rw [hinsert]
      exact hc.bounded.insert p now
  · rcases hdeferred with hsub | hgap
    · exact fun x hx => hc.deferred x (hsub x hx)
    · exact (hgap.reported hc hb hsame hi).deferred
  · rw [hmove.sideMove.params]
    exact hc.tolerance
  · rcases hfilter with hsame | ⟨fec, seqNo, timestamp, encFlag, msgNo, payload, hfec, hnext⟩
    · rw [hsame]
      exact hc.filter
    · intro fec' hfec'
      obtain ⟨cfg, hextent, hsmall⟩ := hc.filter fec hfec
      obtain rfl := Option.some.inj (hfec'.symm.trans hnext)
      exact ⟨cfg, hextent.receive _ _ _ _ _, hsmall⟩

omit [Controller σ] [Primitives] in
theorem Fluent.lossReport (hc : c.Fluent) {fec : FECReceiver} (hfec : c.rcv.fecReceiver = some fec)
    (seqNo timestamp encFlag msgNo : ℕ) (payload : Bytes) :
    ListOf Valid 8192 (fec.receive seqNo timestamp encFlag msgNo payload).lossReport := by
  obtain ⟨cfg, hextent, hsmall⟩ := hc.filter fec hfec
  by_cases harq : cfg.arq = .onReq
  · have hlosses := hextent.losses_receive seqNo timestamp encFlag msgNo payload
    exact ⟨hlosses.length.trans (hsmall harq), hlosses.valid⟩
  · rw [hextent.lossReport_eq_nil harq]
    exact ⟨by simp, by simp⟩

/-- One step keeps the connection fluent, and all it sends is understood. -/
theorem Fluent.step (hc : c.Fluent) (hi : Brief c i) :
    (c.step i).Fluent ∧ Emits Output.Understood c (c.step i) := by
  -- the moves of a step that is not the timer for loss reports
  have hmoves : (c.step i).Fluent ∧
      ((∀ now, i ≠ .timer now .nak) → Emits Output.Understood c (c.step i)) := by
    have hall := step_preserves (Q := fun c' => c'.Fluent ∧
      (c'.reportsLosses = c.reportsLosses ∧
        c'.params.reorderTolerance = c.params.reorderTolerance) ∧
      ((∀ now, i ≠ .timer now .nak) → Emits Output.Understood c c')) c i
      ⟨hc, ⟨rfl, rfl⟩, fun _ => Emits.refl _ c⟩ fun c₁ c₂ hmove hc₁ => ?_
    · exact ⟨hall.1, hall.2.2⟩
    obtain ⟨hreports, htolerance⟩ := hmove.reportsLosses
    refine ⟨hc₁.1.move hmove hc.bounded hc₁.2.1 hi, ⟨hreports.trans hc₁.2.1.1,
      htolerance.trans hc₁.2.1.2⟩,
      fun htimer => (hc₁.2.2 htimer).trans ?_⟩
    rcases hmove.outputs hc₁.1.dataOnly with hplain | ⟨lost, hsource, rfl⟩ | hgap
    · exact hplain.mono fun o ho hnak => by simp [isNAK_of_plain ho] at hnak
    · refine (emits_emitNAK ?_ c₁ i.now).mono fun o ho => Output.understood_of_nakOf ho
      rcases hsource with ⟨⟨now, heq⟩, -⟩ | ⟨now, p, fec, -, hfec, rfl⟩
      · exact absurd heq (htimer now)
      · exact hc.lossReport hfec _ _ _ _ _
    · exact (hgap.reported hc₁.1 hc.bounded hc₁.2.1 hi).emits.mono fun o ho =>
        Output.understood_of_nakOf ho
  refine ⟨hmoves.1, ?_⟩
  by_cases htimer : ∃ now, i = .timer now .nak
  · obtain ⟨now, rfl⟩ := htimer
    have hvalid := RecvBuffer.valid_generateLossList hc.bounded
    refine (emits_nakTimer c now).mono fun o ho hnak =>
      Output.understood_of_nakOf ((ho hnak).mono ?_) hnak
    rintro lost rfl
    exact ⟨hi.listed now rfl, hvalid⟩
  · exact hmoves.2 fun now heq => htimer ⟨now, heq⟩

omit [Primitives] in
theorem fluent_establish (cc : σ) (now : ℤ) {ep : EstablishParams} (hisn : Valid ep.recvISN)
    (hfilter : ∀ cfg, ep.filter = some cfg → SmallMatrix cfg) : (establish cc now ep).Fluent := by
  rw [establish_eq]
  refine ⟨dataOnly_established cc now ep, ⟨hisn, hisn⟩,
    by simp [established], le_max_right _ _, fun fec hfec => ?_⟩
  · have hsome : ep.filter.map (fun cfg => FECReceiver.new cfg ep.effectivePayloadSize.toNat
      ep.recvISN) =
        some fec := hfec
    obtain ⟨cfg, hcfg, rfl⟩ := Option.map_eq_some_iff.mp hsome
    refine ⟨cfg, FECReceiver.extent_new ?_ _ _, hfilter cfg hcfg⟩
    unfold EstablishParams.filter at hcfg
    split_ifs at hcfg
    cases hparse : parseConfig ep.filterConfig with
    | error e => simp [hparse, Except.toOption] at hcfg
    | ok cfg' =>
      obtain rfl : cfg' = cfg := by simpa [hparse, Except.toOption] using hcfg
      exact (parseConfig_bounds hparse).2.1

/-- Every loss report of a run whose steps have short lists to report is read by the peer as
the list that it was built from. -/
theorem loss_reports_understood {ep : EstablishParams} (hisn : Valid ep.recvISN)
    (hfilter : ∀ cfg, ep.filter = some cfg → SmallMatrix cfg) (cc : σ) (now : ℤ) (is : List Input)
    (hsteps : AllSteps Conn.step Brief (establish cc now ep) is) :
    AllStates Conn.step (fun c => ∀ o ∈ c.outputs, o.Understood) (establish cc now ep) is := by
  have hinit : ∀ o ∈ (establish cc now ep).outputs, o.Understood := by
    intro o ho hnak
    rcases (timers_armTimers (established cc now ep) now).mem ho with hnone | htimer
    · simp [established] at hnone
    · cases o with
      | sendPacket p owned => simp [Output.isTimer] at htimer
      | setTimer id deadline => simp [Output.isNAK] at hnak
      | clearTimer id => simp [Output.isNAK] at hnak
  refine AllStates.mono (fun c hc => hc.2) (hsteps.allStates
    (Q := fun c => c.Fluent ∧ ∀ o ∈ c.outputs, o.Understood) (fun c i hc hi => ?_)
    ⟨fluent_establish cc now hisn hfilter, hinit⟩)
  obtain ⟨hfluent, hemits⟩ := hc.1.step hi
  exact ⟨hfluent, fun o ho => (hemits.mem ho).elim (hc.2 o) id⟩

end

end Conn

section Examples

open scoped XorCipher

def defaultParams : EstablishParams := { live := true }

def defaultReceiver : Conn LiveCC := Conn.establish (LiveCC.new 0 0) 0 defaultParams

/-- A live receiver gets the numbers 0 and 8193.  The report names the 8192 numbers in between. -/
theorem loss_reports_understood_8192 :
    let c := exec Conn.step defaultReceiver [dataInput 1000 0, dataInput 2000 8193]
    (∀ o ∈ c.outputs, o.Understood) ∧ (c.outputs.filter Output.isNAK).length = 1 := by
  refine ⟨?_, by decide +kernel⟩
  have hisn : Valid defaultParams.recvISN := by decide
  have hall := Conn.loss_reports_understood hisn (fun cfg hcfg => by
    simp [EstablishParams.filter, defaultParams] at hcfg) (LiveCC.new 0 0) 0 [dataInput 1000 0,
      dataInput 2000 8193] (by
      refine ⟨⟨by decide, fun now p plain hi _ hdec => ?_, by simp [dataInput]⟩,
        ⟨by decide, fun now p plain hi _ hdec => ?_, by simp [dataInput]⟩, trivial⟩
      · obtain ⟨rfl, rfl⟩ := Input.packet.inj hi
        obtain rfl := Option.some.inj hdec
        decide +kernel
      · obtain ⟨rfl, rfl⟩ := Input.packet.inj hi
        obtain rfl := Option.some.inj hdec
        decide +kernel)
  exact hall.exec

/-- A live receiver with the default sizes gets the numbers 0 and 9000.  It reports the 8999
numbers in between, and the peer refuses the report. -/
theorem long_report_refused :
    ∃ o ∈ (exec Conn.step defaultReceiver [dataInput 1000 0, dataInput 2000 9000]).outputs,
      ¬o.Understood := by
  set c := exec Conn.step defaultReceiver [dataInput 1000 0, dataInput 2000 9000] with hc
  have hreports : (c.outputs.filter Output.isNAK).map (fun o => (o.packet?.getD {}).data) =
      [putBE 4 (1 + 2 ^ 31) ++ putBE 4 8999] := by
    decide +kernel
  obtain ⟨o, ho, hdata⟩ : ∃ o ∈ c.outputs.filter Output.isNAK,
      (o.packet?.getD {}).data = putBE 4 (1 + 2 ^ 31) ++ putBE 4 8999 := by
    rw [← List.mem_map, hreports]
    exact List.mem_singleton.mpr rfl
  obtain ⟨hmem, hnak⟩ := List.mem_filter.mp ho
  refine ⟨o, hmem, fun hunderstood => ?_⟩
  obtain ⟨p, owned, lost, rfl, -, -, hlost, -, hread⟩ := hunderstood hnak
  obtain ⟨e, he⟩ := exists_unmarshalLossList_error (a := 1) (b := 8999) (by decide)
    (by decide) (by decide)
  have hsame : marshalLossList lost = putBE 4 (1 + 2 ^ 31) ++ putBE 4 8999 := hlost.symm.trans hdata
  rw [hsame, he] at hread
  exact absurd hread (by simp)

end Examples

end SrtGo.Core
