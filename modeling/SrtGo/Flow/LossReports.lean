import SrtGo.Core.RecvStep
import SrtGo.Flow.Emission
import SrtGo.Packet.LossList

/-!
# Where loss reports come from

A connection reports losses when a data packet shows a gap, when the timer for it fires
or when its filter asks for something.  This module follows the numbers from there to
the packet that carries them: what holds of the gap and of the losses held back holds of
everything a report names.
-/

namespace SrtGo.Core

open Buffer Bytes Congestion Crypto SrtGo.Seq

def Output.isNAK : Output → Bool
  | .sendPacket p _ => p.header.isControl && decide (p.header.controlType = .nak)
  | _ => false

def Output.NakOf (S : List ℕ → Prop) (o : Output) : Prop :=
  ∃ p owned lost, o = .sendPacket p owned ∧ p.header.isControl = true ∧
    p.header.controlType = .nak ∧
    p.data = marshalLossList lost ∧ S lost

variable {o : Output}

theorem Output.NakOf.mono {S T : List ℕ → Prop} (hST : ∀ lost, S lost → T lost) (h : o.NakOf S) :
    o.NakOf T := by
  obtain ⟨p, owned, lost, ho, hcontrol, hnak, hdata, hS⟩ := h
  exact ⟨p, owned, lost, ho, hcontrol, hnak, hdata, hST lost hS⟩

/-- The output is a loss report that names the number `q`. -/
def Output.Reports (o : Output) (q : ℕ) : Prop :=
  o.NakOf fun lost => (∀ x ∈ lost, Valid x) ∧ q ∈ lost

theorem Output.Reports.of_nakOf {G : ℕ → Prop} {q : ℕ} (h : o.Reports q)
    (ho : o.NakOf fun lost => ∀ x ∈ lost, Valid x ∧ G x) : G q := by
  obtain ⟨p, owned, lost, rfl, -, -, hdata, hvalid, hq⟩ := h
  obtain ⟨p', owned', lost', heq, -, -, hdata', hlost'⟩ := ho
  obtain ⟨rfl, -⟩ := Output.sendPacket.inj heq
  have hsame : lost = lost' := marshalLossList_inj (fun x hx => (hvalid x hx).lt)
    (fun x hx => (hlost' x hx).1.lt) (hdata.symm.trans hdata')
  exact (hlost' q (hsame ▸ hq)).2

theorem Output.Reports.isNAK {q : ℕ} (h : o.Reports q) : o.isNAK = true := by
  obtain ⟨p, owned, lost, rfl, hcontrol, hnak, -⟩ := h
  simp [Output.isNAK, hcontrol, hnak]

/-! ## Ranges -/

theorem valid_immediateLosses {stop fuel s : ℕ} (hs : Valid s) :
    ∀ x ∈ Conn.immediateLosses stop fuel s, Valid x := by
  induction fuel generalizing s with
  | zero => simp [Conn.immediateLosses]
  | succ fuel ih =>
    rw [Conn.immediateLosses]
    split_ifs
    · simpa using hs
    · exact List.forall_mem_cons.mpr ⟨hs, ih (RecvBuffer.valid_inc s)⟩

theorem immediateLosses_eq {a b : ℕ} (hab : a ≤ b) (hb : b < a + 2 ^ 31) (fuel : ℕ) :
    Conn.immediateLosses (wrap b) fuel (wrap a) = (List.range' a (min fuel (b + 1 - a))).map
      wrap := by
  induction fuel generalizing a with
  | zero => simp [Conn.immediateLosses]
  | succ fuel ih =>
    rw [Conn.immediateLosses]
    rcases Nat.eq_or_lt_of_le hab with rfl | hlt
    · simp
    · have hne : wrap a ≠ wrap b := fun heq => by
        have := eq_of_wrap_eq heq (by omega) (by omega)
        omega
      rw [if_neg hne, inc_wrap, ih (by omega) (by omega),
        show min (fuel + 1) (b + 1 - a) = min fuel (b + 1 - (a + 1)) + 1 by omega, List.range'_succ]
      simp

theorem mem_immediateLosses {a b x fuel : ℕ} (hab : a ≤ b) (hb : b < a + 2 ^ 31)
    (hfuel : b < a + fuel) :
    x ∈ Conn.immediateLosses (wrap b) fuel (wrap a) ↔ ∃ y, a ≤ y ∧ y ≤ b ∧ wrap y = x := by
  rw [immediateLosses_eq hab hb, Nat.min_eq_right (by omega), List.mem_map]
  refine exists_congr fun y => ?_
  rw [List.mem_range'_1, ← and_assoc]
  refine and_congr_left fun _ => ?_
  omega

theorem iterate_dec_wrap (p n : ℕ) : dec^[n] (wrap (p + n)) = wrap p := by
  induction n with
  | zero => rfl
  | succ n ih => rw [Function.iterate_succ_apply, ← Nat.add_assoc, dec_wrap, ih]

namespace Conn

variable {σ : Type} {c c' : Conn σ} {lost : List ℕ}

def ListOf (G : ℕ → Prop) (n : ℕ) (lost : List ℕ) : Prop := lost.length ≤ n ∧ ∀ x ∈ lost, G x

theorem emits_emitNAK {S : List ℕ → Prop} (h : S lost) (c : Conn σ) (now : ℤ) :
    Emits (Output.NakOf S) c (c.emitNAK now lost) := by
  unfold emitNAK
  split_ifs
  · exact Emits.refl _ c
  · exact Emits.push c ⟨_, _, lost, rfl, rfl, rfl, rfl, h⟩

/-- What a report of losses does: all lists it sends have at most `n` numbers, and `G` holds of
these and of the losses held back. -/
structure Reported (G : ℕ → Prop) (n : ℕ) (c c' : Conn σ) : Prop where
  emits : Emits (Output.NakOf (ListOf G n)) c c'
  deferred : ∀ x ∈ c'.rcv.deferredLoss, G x
  nodup : c.rcv.deferredLoss.Nodup → c'.rcv.deferredLoss.Nodup

variable {G : ℕ → Prop} {n : ℕ}

theorem Reported.refl (h : ∀ x ∈ c.rcv.deferredLoss, G x) : Reported G n c c :=
  ⟨Emits.refl _ c, h, id⟩

theorem Reported.trans {c'' : Conn σ} (h : Reported G n c c') (h' : Reported G n c' c'') :
    Reported G n c c'' :=
  ⟨h.emits.trans h'.emits, h'.deferred, fun hnodup => h'.nodup (h.nodup hnodup)⟩

theorem deferredLoss_emitNAK (c : Conn σ) (now : ℤ) (lost : List ℕ) :
    (c.emitNAK now lost).rcv.deferredLoss = c.rcv.deferredLoss := by
  unfold emitNAK
  split_ifs <;> rfl

theorem reported_emitNAK (hlost : ListOf G n lost) (h : ∀ x ∈ c.rcv.deferredLoss, G x) (now : ℤ) :
    Reported G n c (c.emitNAK now lost) := by
  refine ⟨emits_emitNAK hlost c now, ?_, ?_⟩
  · rwa [deferredLoss_emitNAK]
  · rw [deferredLoss_emitNAK]
    exact id

section Range

variable {a b : ℕ} (hab : a ≤ b) (hb : b < a + 2 ^ 30) (hG : ∀ y, a ≤ y → y ≤ b → G (wrap y))
include hab hb hG

theorem reported_sendImmediateNAK (hn : b + 1 - a ≤ n) (h : ∀ x ∈ c.rcv.deferredLoss, G x)
    (now : ℤ) :
    Reported G n c (c.sendImmediateNAK now (wrap a) (wrap b)) := by
  refine reported_emitNAK ?_ h now
  rw [immediateLosses_eq hab (by omega)]
  refine ⟨by simp; omega, fun x hx => ?_⟩
  obtain ⟨y, hy, rfl⟩ := List.mem_map.mp hx
  have hrange := List.mem_range'_1.mp hy
  exact hG y hrange.1 (by omega)

omit hG in
theorem mem_deferGap {x : ℕ} : x ∈ (c.deferGap (wrap a) (wrap b)).rcv.deferredLoss ↔
    x ∈ c.rcv.deferredLoss ∨ ∃ y, a ≤ y ∧ y ≤ b ∧ wrap y = x := by
  have hfuel : b < a + (ahead (wrap a) (wrap b) + 1) := by
    rw [ahead_wrap hab (by omega)]
    omega
  rw [← mem_immediateLosses hab (by omega) hfuel]
  simp only [deferGap, setDeferredLoss, List.mem_append, List.mem_filter, decide_eq_true_eq]
  tauto

theorem reported_deferGap (h : ∀ x ∈ c.rcv.deferredLoss, G x) :
    Reported G n c (c.deferGap (wrap a) (wrap b)) := by
  refine ⟨Emits.of_eq rfl, fun x hx => ?_, fun hnodup => ?_⟩
  · rcases (mem_deferGap hab hb).mp hx with hx | ⟨y, hy, hy', rfl⟩
    · exact h x hx
    · exact hG y hy hy'
  · simp only [deferGap, setDeferredLoss, immediateLosses_eq hab (show b < a + 2 ^ 31 by omega)]
    refine List.nodup_append.mpr ⟨hnodup, List.Nodup.filter _ ?_, ?_⟩
    · -- the numbers of a short range are distinct
      refine (List.nodup_range').map_on fun y hy z hz heq => ?_
      have hy := List.mem_range'_1.mp hy
      have hz := List.mem_range'_1.mp hz
      exact eq_of_wrap_eq heq (by omega) (by omega)
    · intro x hx y hy heq
      simp only [List.mem_filter, decide_eq_true_eq] at hy
      exact hy.2 (heq ▸ hx)

omit hab hG in
theorem reportGap_eq {t : ℕ} (ht : c.params.reorderTolerance = t + 1) (hlong : a + t < b)
    (now : ℤ) :
    c.reportGap now (wrap a) (wrap b) =
      (c.sendImmediateNAK now (wrap a) (wrap (b - t - 1))).deferGap (wrap (b - t)) (wrap b) := by
  have hdefer : dec^[(c.params.reorderTolerance - 1).toNat] (wrap b) = wrap (b - t) := by
    rw [ht, show ((t : ℤ) + 1 - 1).toNat = t by omega]
    have := iterate_dec_wrap (b - t) t
    rwa [Nat.sub_add_cancel (by omega)] at this
  have hlast : dec (wrap (b - t)) = wrap (b - t - 1) := by
    have := dec_wrap (b - t - 1)
    rwa [Nat.sub_add_cancel (by omega)] at this
  rw [reportGap, if_neg (by omega), if_neg (by rw [distance_wrap (by omega) (by omega)]; omega)]
  simp only [hdefer, hlast]

theorem reported_reportGap (hn : (b : ℤ) + 1 - a ≤ n + c.params.reorderTolerance)
    (htol : 0 ≤ c.params.reorderTolerance) (h : ∀ x ∈ c.rcv.deferredLoss, G x) (now : ℤ) :
    Reported G n c (c.reportGap now (wrap a) (wrap b)) := by
  by_cases hzero : c.params.reorderTolerance = 0
  · rw [reportGap, if_pos hzero]
    exact reported_sendImmediateNAK hab hb hG (by omega) h now
  obtain ⟨t, ht⟩ : ∃ t : ℕ, c.params.reorderTolerance = t + 1 :=
    ⟨(c.params.reorderTolerance - 1).toNat, by omega⟩
  rcases Nat.lt_or_ge (a + t) b with hlong | hshort
  · rw [reportGap_eq hb ht hlong]
    have hsent : Reported G n c (c.sendImmediateNAK now (wrap a) (wrap (b - t - 1))) :=
      reported_sendImmediateNAK (by omega) (by omega) (fun y hy hy' => hG y hy (by omega))
        (by omega) h now
    exact hsent.trans (reported_deferGap (by omega) (by omega) (fun y hy hy' => hG y (by omega) hy')
      hsent.deferred)
  · rw [reportGap, if_neg hzero, if_pos (by rw [distance_wrap (by omega) (by omega)]; omega)]
    exact reported_deferGap hab hb hG h

end Range

theorem emits_sendEach (hn : 1 ≤ n) (now : ℤ) {xs : List ℕ} (hxs : ∀ x ∈ xs, G x) (c : Conn σ) :
    Emits (Output.NakOf (ListOf G n)) c (xs.foldl (fun c s => c.sendImmediateNAK now s s) c) := by
  induction xs generalizing c with
  | nil => exact Emits.refl _ c
  | cons x xs ih =>
    have hone : ListOf G n (immediateLosses x 10000 x) := by
      rw [immediateLosses, if_pos rfl]
      exact ⟨hn, by simpa using hxs x List.mem_cons_self⟩
    exact (emits_emitNAK hone c now).trans (ih (fun y hy => hxs y (List.mem_cons_of_mem _ hy)) _)

theorem reported_flushDeferredLoss (hn : 1 ≤ n) (h : ∀ x ∈ c.rcv.deferredLoss, G x) (now : ℤ)
    (frontier : ℕ) : Reported G n c (c.flushDeferredLoss now frontier) := by
  refine ⟨(emits_sendEach hn now (fun x hx => ?_) c).trans (Emits.of_eq rfl), fun x hx => ?_,
    fun hnodup => hnodup.filter _⟩
  · exact h x (List.mem_filter.mp hx).1
  · exact h x (List.mem_filter.mp hx).1

/-- A gap that an insertion shows lies between two positions where `G` holds, and has at most `n`
numbers. -/
def GapWithin (G : ℕ → Prop) (n : ℤ) (res : InsertResult) : Prop :=
  ∃ a b, res.gapStart = wrap a ∧ res.gapEnd = wrap b ∧ a ≤ b ∧ b < a + 2 ^ 30 ∧
    (b : ℤ) + 1 - a ≤ n ∧ ∀ y, a ≤ y → y ≤ b → G (wrap y)

theorem GapWithin.mono {res : InsertResult} {m m' : ℤ} (h : GapWithin G m res) (hm : m ≤ m') :
    GapWithin G m' res := by
  obtain ⟨a, b, ha, hb, hab, hhalf, hlength, hG⟩ := h
  exact ⟨a, b, ha, hb, hab, hhalf, hlength.trans hm, hG⟩

/-- **What a data packet has reported.**  `G` holds of every number that is sent or held back if it
holds of the gap and of what was held back before. -/
theorem reported_reportLosses [Controller σ] {res : InsertResult}
    (hres : res.hasGap = true → c.reportsLosses = true →
      GapWithin G (n + c.params.reorderTolerance) res)
    (hn : 1 ≤ n) (htol : 0 ≤ c.params.reorderTolerance) (h : ∀ x ∈ c.rcv.deferredLoss, G x)
    (now : ℤ) (seqNo : ℕ) :
    Reported G n c (c.reportLosses now res seqNo) := by
  have hgap : Reported G n c
      (if res.hasGap ∧ c.reportsLosses then c.reportGap now res.gapStart res.gapEnd else c) := by
    split_ifs with hreport
    · obtain ⟨a, b, ha, hb, hab, hhalf, hlength, hG⟩ := hres hreport.1 hreport.2
      rw [ha, hb]
      exact reported_reportGap hab hhalf hG hlength htol h now
    · exact Reported.refl h
  unfold reportLosses
  simp only
  split_ifs at hgap ⊢
  · exact hgap.trans (reported_flushDeferredLoss hn hgap.deferred now seqNo)
  · exact hgap
  · exact hgap.trans (reported_flushDeferredLoss hn hgap.deferred now seqNo)
  · exact hgap

/-! ## Steps -/

section Steps

variable [Controller σ] [Primitives] {i : Input}

theorem Shift.dataOnly {c₀ : Conn σ} (h : Shift i c₀ c c') (hdata : c.DataOnly) : c'.DataOnly :=
  h.sideMove.preserves (fun _ _ hmove hc => DataOnly.sendMove hmove hc) hdata

omit [Controller σ] in
theorem isNAK_of_plain {passphrase : String} (h : Plain passphrase o) : o.isNAK = false := by
  cases o with
  | sendPacket p owned =>
    rcases h with hdata | ⟨hnak, -⟩
    · simp [Output.isNAK, hdata]
    · simp [Output.isNAK, hnak]
  | setTimer id deadline => rfl
  | clearTimer id => rfl

/-- Without a filter, only a data packet and the timer for it have losses reported. -/
theorem nakFree_step (hdata : c.DataOnly) (hfec : c.rcv.fecReceiver = none)
    (hpacket : ∀ now p, i = .packet now p → p.header.isControl = true)
    (htimer : ∀ now, i ≠ .timer now .nak) :
    Emits (fun o => o.isNAK = false) c (c.step i) := by
  suffices h : (c.step i).DataOnly ∧ Emits (fun o => o.isNAK = false) c (c.step i) from h.2
  refine step_preserves (Q := fun c' => c'.DataOnly ∧ Emits (fun o => o.isNAK = false) c c') c i
    ⟨hdata, Emits.refl _ c⟩ fun c₁ c₂ hmove hc₁ => ⟨hmove.dataOnly hc₁.1, hc₁.2.trans ?_⟩
  rcases hmove.outputs hc₁.1 with hplain | ⟨lost, ⟨⟨now, hi⟩, -⟩ | ⟨now, p, fec, -, hsome, -⟩, -⟩ |
    ⟨now, p, plain, hi, hcontrol, -⟩
  · exact hplain.mono fun _ ho => isNAK_of_plain ho
  · exact absurd hi (htimer now)
  · simp [hfec] at hsome
  · simp [hpacket now p hi] at hcontrol

theorem emits_nakTimer (c : Conn σ) (now : ℤ) :
    Emits (fun o => o.isNAK = true → o.NakOf (· = c.rcv.recvBuf.generateLossList)) c
      (c.step (.timer now .nak)) := by
  have hbook := book_sampleInputBandwidth c now
  have hquiet : Emits (fun o => o.isNAK = true → o.NakOf (· = c.rcv.recvBuf.generateLossList)) c
      (c.sampleInputBandwidth now) := Emits.of_eq hbook.outputs
  have harm : ∀ c' : Conn σ, Emits (fun o => o.isNAK = true →
    o.NakOf (· = c.rcv.recvBuf.generateLossList)) c'
      (c'.push (.setTimer .nak (now + c'.nakInterval))) :=
    fun c' => Emits.push c' fun h => absurd h (by simp [Output.isNAK])
  simp only [Conn.step, handleTimer, handleNAKTimer]
  split_ifs
  · exact hquiet
  · exact hquiet
  · have hreport : Emits (Output.NakOf (· = c.rcv.recvBuf.generateLossList)) _
        ((c.sampleInputBandwidth now).sendPeriodicNAK now) :=
      emits_emitNAK (by rw [hbook.recvBuf]) (c.sampleInputBandwidth now) now
    exact (hquiet.trans (hreport.mono fun _ ho _ => ho)).trans (harm _)
  · exact hquiet.trans (harm _)

end Steps

end Conn

end SrtGo.Core
