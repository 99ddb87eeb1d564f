import SrtGo.Flow.TruthfulReports

/-!
# Losses held back for reordering

A packet that shows a gap has most of the gap reported; its last numbers are held back, as
many as the tolerance allows, since their packets may only be late.  Each packet that
arrives later has those reported that have fallen behind it by more than the tolerance.
An observer who writes down every gap finds each of its numbers either reported, or held
back, or received, and a number that is held back neither reported nor received.
-/

namespace SrtGo.Core

open Buffer Bytes Congestion Crypto SrtGo.Seq Run

structure GapLedger extends Ledger where
  gaps : Set ℕ := ∅

namespace Conn

variable {σ : Type} {c c' c'' : Conn σ} {x : ℕ} {Q : Output → Prop}

/-! ## What one report does -/

def Named (c c' : Conn σ) (x : ℕ) : Prop :=
  ∃ os, c'.outputs = c.outputs ++ os ∧ ∃ o ∈ os, o.Reports x

theorem Named.after (h : Named c' c'' x) (hemits : Emits Q c c') : Named c c'' x := by
  obtain ⟨os, hos, o, ho, hx⟩ := h
  obtain ⟨os', hos', -⟩ := hemits
  exact ⟨os' ++ os, by rw [hos, hos', List.append_assoc], o, List.mem_append_right _ ho, hx⟩

theorem Named.before (h : Named c c' x) (hemits : Emits Q c' c'') : Named c c'' x := by
  obtain ⟨os, hos, o, ho, hx⟩ := h
  obtain ⟨os', hos', -⟩ := hemits
  exact ⟨os ++ os', by rw [hos', hos, List.append_assoc], o, List.mem_append_left _ ho, hx⟩

theorem named_emitNAK {lost : List ℕ} (hvalid : ∀ y ∈ lost, Valid y) (hx : x ∈ lost)
    (c : Conn σ) (now : ℤ) :
    Named c (c.emitNAK now lost) x := by
  rw [emitNAK, if_neg (List.ne_nil_of_mem hx)]
  exact ⟨[_], rfl, _, List.mem_singleton_self _, _, _, lost, rfl, rfl, rfl, rfl, hvalid, hx⟩

theorem named_sendEach (now : ℤ) {xs : List ℕ} (hvalid : ∀ y ∈ xs, Valid y) (hx : x ∈ xs)
    (c : Conn σ) :
    Named c (xs.foldl (fun c s => c.sendImmediateNAK now s s) c) x := by
  induction xs generalizing c with
  | nil => simp at hx
  | cons y xs ih =>
    have hone : immediateLosses y 10000 y = [y] := by rw [immediateLosses, if_pos rfl]
    have hlost : ∀ z ∈ immediateLosses y 10000 y, Valid z := by
      rw [hone]
      simpa using hvalid y List.mem_cons_self
    rcases List.mem_cons.mp hx with rfl | hx
    · exact (named_emitNAK hlost (by simp [hone]) c now).before
        (emits_sendEach le_rfl now (fun _ _ => trivial) _)
    · exact (ih (fun z hz => hvalid z (List.mem_cons_of_mem _ hz)) hx _).after
        (emits_emitNAK (S := fun _ => True) trivial c now)

def GapFrom (res : InsertResult) (a q : ℕ) : Prop :=
  res.hasGap = true → res.gapStart = wrap a ∧ res.gapEnd = wrap (q - 1) ∧ a < q ∧ q ≤ a + 10000

def Lost (c : Conn σ) (res : InsertResult) (a q x : ℕ) : Prop :=
  x ∈ c.rcv.deferredLoss ∨ res.hasGap = true ∧ ∃ y, a ≤ y ∧ y < q ∧ wrap y = x

def Overdue (L : ℕ → Prop) (n : ℤ) (seqNo : ℕ) (lost : List ℕ) : Prop :=
  ∀ x ∈ lost, Valid x ∧ n < distance x seqNo ∧ L x

/-- What is lost is sifted: some of it is reported, and the rest is held back. -/
structure Sifted (L : ℕ → Prop) (seqNo : ℕ) (c c' : Conn σ) : Prop where
  emits : Emits (Output.NakOf (Overdue L c.params.reorderTolerance seqNo)) c c'
  kept : ∀ x ∈ c'.rcv.deferredLoss, L x
  told : ∀ x, L x → Named c c' x ∨ x ∈ c'.rcv.deferredLoss

variable {res : InsertResult} {a q t : ℕ}

theorem sifted_reportGap (ht : c.params.reorderTolerance = t + 1) (haq : a < q) (hq : q ≤ a + 10000)
    (now : ℤ) :
    Sifted (fun x => x ∈ c.rcv.deferredLoss ∨ ∃ y, a ≤ y ∧ y < q ∧ wrap y = x) (wrap q) c
      (c.reportGap now (wrap a) (wrap (q - 1))) := by
  rcases Nat.lt_or_ge (a + t) (q - 1) with hlong | hshort
  · rw [reportGap_eq (by omega) ht hlong]
    set lost := immediateLosses (wrap (q - 1 - t - 1)) 10000 (wrap a)
    have hlost : ∀ x, x ∈ lost ↔ ∃ y, a ≤ y ∧ y ≤ q - 1 - t - 1 ∧ wrap y = x := fun x =>
      mem_immediateLosses (by omega) (by omega) (by omega)
    have hdefer :
      ∀ x, x ∈ ((c.emitNAK now lost).deferGap (wrap (q - 1 - t)) (wrap (q - 1))).rcv.deferredLoss ↔
        x ∈ c.rcv.deferredLoss ∨ ∃ y, q - 1 - t ≤ y ∧ y ≤ q - 1 ∧ wrap y = x := fun x => by
      rw [mem_deferGap (by omega) (by omega), deferredLoss_emitNAK]
    have hset : Emits (fun _ => True) (c.emitNAK now lost)
        ((c.emitNAK now lost).deferGap (wrap (q - 1 - t)) (wrap (q - 1))) := Emits.of_eq rfl
    refine ⟨(emits_emitNAK (fun x hx => ?_) c now).trans (Emits.of_eq rfl), fun x hx => ?_, ?_⟩
    · obtain ⟨y, hy, hy', rfl⟩ := (hlost x).mp hx
      refine ⟨valid_wrap y, ?_, Or.inr ⟨y, hy, by omega, rfl⟩⟩
      rw [distance_wrap (by omega) (by omega), ht]
      omega
    · rcases (hdefer x).mp hx with hx | ⟨y, hy, hy', rfl⟩
      · exact Or.inl hx
      · exact Or.inr ⟨y, by omega, by omega, rfl⟩
    · rintro x (hx | ⟨y, hy, hy', rfl⟩)
      · exact Or.inr ((hdefer x).mpr (Or.inl hx))
      · rcases Nat.lt_or_ge y (q - 1 - t) with hsent | hheld
        · left
          refine (named_emitNAK (fun z hz => ?_) ((hlost _).mpr ⟨y, hy, by omega, rfl⟩) c
            now).before hset
          obtain ⟨w, -, -, rfl⟩ := (hlost z).mp hz
          exact valid_wrap w
        · exact Or.inr ((hdefer _).mpr (Or.inr ⟨y, hheld, by omega, rfl⟩))
  · have hdefer : ∀ x, x ∈ (c.deferGap (wrap a) (wrap (q - 1))).rcv.deferredLoss ↔
        x ∈ c.rcv.deferredLoss ∨ ∃ y, a ≤ y ∧ y < q ∧ wrap y = x := fun x => by
      rw [mem_deferGap (by omega) (by omega)]
      refine or_congr_right (exists_congr fun y => and_congr_right fun _ => and_congr_left fun _ =>
        ?_)
      omega
    rw [reportGap, if_neg (by omega), if_pos (by rw [distance_wrap (by omega) (by omega)]; omega)]
    exact ⟨Emits.of_eq rfl, fun x hx => (hdefer x).mp hx, fun x hx => Or.inr ((hdefer x).mpr hx)⟩

theorem flushDeferredLoss_of_nil (h : c.rcv.deferredLoss = []) (now : ℤ) (seqNo : ℕ) :
    c.flushDeferredLoss now seqNo = c := by
  simp only [flushDeferredLoss, h, List.filter_nil, List.foldl_nil, setDeferredLoss]
  rw [← h]

/-- **What a data packet has reported.**  The numbers that are more than the tolerance behind it are
reported, and the others are held back. -/
theorem sifted_reportLosses [Controller σ] (ht : c.params.reorderTolerance = t + 1)
    (hfec : c.rcv.fecReceiver = none) (hvalid : ∀ x ∈ c.rcv.deferredLoss, Valid x)
    (hres : GapFrom res a q) (now : ℤ) :
    Sifted (Lost c res a q) (wrap q) c (c.reportLosses now res (wrap q)) ∧
      ∀ x ∈ (c.reportLosses now res (wrap q)).rcv.deferredLoss, distance x (wrap q) ≤
        c.params.reorderTolerance := by
  have hreports : c.reportsLosses = true := by simp [reportsLosses, hfec]
  -- the gap
  obtain ⟨c₁, hc₁, hsifted, hparams⟩ : ∃ c₁, (if res.hasGap ∧ c.reportsLosses then
      c.reportGap now res.gapStart res.gapEnd else c) = c₁ ∧ Sifted (Lost c res a q) (wrap q) c c₁ ∧
      c₁.params = c.params := by
    refine ⟨_, rfl, ?_⟩
    by_cases hgap : res.hasGap = true
    · obtain ⟨hstart, hend, haq, hq⟩ := hres hgap
      rw [if_pos ⟨hgap, hreports⟩, hstart, hend]
      have hlost : Lost c res a q = fun x => x ∈ c.rcv.deferredLoss ∨ ∃ y, a ≤ y ∧ y < q ∧
          wrap y = x := by
        funext x
        simp [Lost, hgap]
      rw [hlost]
      exact ⟨sifted_reportGap ht haq hq now, (reports_reportGap c now _ _).recvFrame.params⟩
    · rw [if_neg (by simp [hgap])]
      refine ⟨⟨Emits.refl _ c, fun x hx => Or.inl hx, ?_⟩, rfl⟩
      rintro x (hx | ⟨hgap', -⟩)
      · exact Or.inr hx
      · exact absurd hgap' hgap
  have hflush : c.reportLosses now res (wrap q) = c₁.flushDeferredLoss now (wrap q) := by
    simp only [reportLosses, hc₁]
    split_ifs with hnone
    · rfl
    · rw [flushDeferredLoss_of_nil (by simpa using hnone)]
  have hlost : ∀ x ∈ c₁.rcv.deferredLoss, Valid x := fun x hx => by
    rcases hsifted.kept x hx with hx | ⟨-, y, -, -, rfl⟩
    · exact hvalid x hx
    · exact valid_wrap y
  -- the losses held back
  set due := c₁.rcv.deferredLoss.filter fun s =>
    decide (c₁.params.reorderTolerance < distance s (wrap q)) with hdue
  have hmem : ∀ x, x ∈ due ↔ x ∈ c₁.rcv.deferredLoss ∧ c.params.reorderTolerance <
      distance x (wrap q) := fun x => by
    simp [hdue, hparams]
  have hrest : ∀ x, x ∈ (c₁.flushDeferredLoss now (wrap q)).rcv.deferredLoss ↔
      x ∈ c₁.rcv.deferredLoss ∧ distance x (wrap q) ≤ c.params.reorderTolerance := fun x => by
    simp [flushDeferredLoss, setDeferredLoss, hparams]
  have hset : Emits (fun _ => True) (due.foldl (fun c s => c.sendImmediateNAK now s s) c₁)
      (c₁.flushDeferredLoss now (wrap q)) := Emits.of_eq rfl
  have hsent : Emits (Output.NakOf (Overdue (Lost c res a q) c.params.reorderTolerance (wrap q))) c₁
      (c₁.flushDeferredLoss now (wrap q)) := by
    refine Emits.trans ((emits_sendEach (le_refl 1) now (G := fun x => Valid x ∧
      c.params.reorderTolerance < distance x (wrap q) ∧ Lost c res a q x) (fun x hx => ?_) c₁).mono
      fun o ho => ho.mono fun lost h => h.2) (Emits.of_eq rfl)
    obtain ⟨hx, hlate⟩ := (hmem x).mp hx
    exact ⟨hlost x hx, hlate, hsifted.kept x hx⟩
  rw [hflush]
  refine ⟨⟨hsifted.emits.trans hsent, fun x hx => hsifted.kept x ((hrest x).mp hx).1,
    fun x hx => ?_⟩,
    fun x hx => ((hrest x).mp hx).2⟩
  rcases hsifted.told x hx with hnamed | hheld
  · exact Or.inl (hnamed.before hsent)
  · rcases lt_or_ge c.params.reorderTolerance (distance x (wrap q)) with hlate | hsoon
    · left
      refine Named.after ((named_sendEach now (fun y hy => ?_) ((hmem x).mpr ⟨hheld, hlate⟩)
        c₁).before hset)
        hsifted.emits
      exact hlost y ((hmem y).mp hy).1
    · exact Or.inr ((hrest x).mpr ⟨hheld, hsoon⟩)

/-! ## Gaps under observation -/

variable [Controller σ] [Primitives]

/-- One step under observation.  Only the reports count that a data packet brings about. -/
def survey (s : Conn σ × GapLedger) (i : Input) : Conn σ × GapLedger :=
  let (c, l) := s
  let pos := c.positionOf l.toLedger
  (c.step i,
    { head := pos (c.step i).rcv.recvBuf.startSeq
      received := l.received ∪ { x | ∃ q, c.accepted i = some q ∧ x = pos q }
      reported := l.reported ∪ { x | i.isData = true ∧
        ∃ o ∈ (c.step i).outputs.drop c.outputs.length, ∃ q, o.Reports q ∧ x = pos q }
      gaps := l.gaps ∪ { x | ∃ q, c.accepted i = some q ∧
        let res := c.rcv.recvBuf.insertedAt q
        res.hasGap = true ∧ pos res.gapStart ≤ x ∧ x ≤ pos res.gapEnd } })

/-- The condition on a step: nothing is dropped, numbers are as on the wire, and a gap has at most
ten thousand of them. -/
structure Dropless (s : Conn σ × GapLedger) (i : Input) : Prop where
  noDrop : i.isDropReq = false
  passed : ∀ x, s.2.head ≤ x → x < (survey s i).2.head → x ∈ (survey s i).2.received
  wellFormed : i.WellFormed
  short : ∀ q, s.1.accepted i = some q → (s.1.rcv.recvBuf.insertedAt q).hasGap = true →
    distance (s.1.rcv.recvBuf.insertedAt q).gapStart
      (s.1.rcv.recvBuf.insertedAt q).gapEnd + 1 ≤ 10000

/-- Every number that a data packet has reported is more than `n` behind it. -/
def Behind (n : ℤ) (s : Conn σ × GapLedger) (i : Input) : Prop :=
  i.isData = true → ∀ o ∈ (s.1.step i).outputs.drop s.1.outputs.length, ∀ x, o.Reports x →
    ∃ q, s.1.accepted i = some q ∧ n < distance x q

omit [Controller σ] [Primitives] in
/-- Every number of a gap has been reported, is held back or has been received; and a number that
is held back has been neither reported nor received. -/
structure Tallied (s : Conn σ × GapLedger) : Prop where
  gaps : ∀ x ∈ s.2.gaps, x ∈ s.2.reported ∨ x ∈ s.2.received ∨
    ∃ q ∈ s.1.rcv.deferredLoss, x = s.1.positionOf s.2.toLedger q
  deferred : ∀ q ∈ s.1.rcv.deferredLoss, s.1.positionOf s.2.toLedger q ∉ s.2.reported ∧
    s.1.positionOf s.2.toLedger q ∉ s.2.received

/-! ## The invariant -/

structure Tolerant (n : ℤ) (c : Conn σ) : Prop where
  fecReceiver : c.rcv.fecReceiver = none
  reorderTolerance : c.params.reorderTolerance = n
  pos : 0 < n

def HeldBack (c : Conn σ) (s m y : ℕ) : Prop := wrap y ∈ c.rcv.deferredLoss ∧ s ≤ y ∧ y < m

/-- The end of the buffer is at position `m`; what is in the books is before it. -/
structure Deferring (c : Conn σ) (l : GapLedger) (m : ℕ) :
    Prop extends Stretch c.rcv.recvBuf l.head m where
  nodup : c.rcv.deferredLoss.Nodup
  received : ∀ x ∈ l.received, x < m
  reported : ∀ x ∈ l.reported, x < m
  gaps : ∀ x ∈ l.gaps, x ∈ l.reported ∨ x ∈ l.received ∨ HeldBack c l.head m x
  deferred : ∀ q ∈ c.rcv.deferredLoss, ∃ y, q = wrap y ∧ l.head ≤ y ∧ y < m ∧ y ∉ l.reported ∧
    y ∉ l.received

variable {l : GapLedger} {m m' : ℕ} {i : Input} {n : ℤ}

omit [Controller σ] [Primitives] in
theorem Deferring.positionOf_eq (h : Deferring c l m) {y : ℕ} (hy : l.head ≤ y)
    (hlt : y < l.head + c.rcv.recvBuf.len) :
    c.positionOf l.toLedger (wrap y) = y := by
  have hlen := h.placed.len_le
  exact h.toStretch.positionOf hy (by omega)

omit [Controller σ] [Primitives] in
theorem Deferring.tallied (h : Deferring c l m) : Tallied (c, l) := by
  have hm := h.lt
  refine ⟨fun x hx => ?_, fun q hq => ?_⟩
  · rcases h.gaps x hx with hreported | hreceived | ⟨hmem, hx, hxm⟩
    · exact Or.inl hreported
    · exact Or.inr (Or.inl hreceived)
    · exact Or.inr (Or.inr ⟨wrap x, hmem, (h.positionOf_eq hx (by omega)).symm⟩)
  · obtain ⟨y, rfl, hy, hym, hnot⟩ := h.deferred q hq
    have hpos : c.positionOf l.toLedger (wrap y) = y := h.positionOf_eq hy (by omega)
    show c.positionOf l.toLedger (wrap y) ∉ l.reported ∧
      c.positionOf l.toLedger (wrap y) ∉ l.received
    rw [hpos]
    exact hnot

theorem Deferring.of_stretch (hi : Dropless (c, l) i)
    (hstretch : Stretch (c.step i).rcv.recvBuf (survey (c, l) i).2.head m' ∧
      l.head ≤ (survey (c, l) i).2.head)
    (hnodup : (c.step i).rcv.deferredLoss.Nodup)
    (hreceived : ∀ x ∈ (survey (c, l) i).2.received, x < m')
    (hreported : ∀ x ∈ (survey (c, l) i).2.reported, x < m')
    (hgaps : ∀ x ∈ (survey (c, l) i).2.gaps, x ∈ (survey (c, l) i).2.reported ∨
      x ∈ (survey (c, l) i).2.received ∨ HeldBack (c.step i) l.head m' x)
    (hdeferred : ∀ q ∈ (c.step i).rcv.deferredLoss, ∃ y, q = wrap y ∧ l.head ≤ y ∧ y < m' ∧
      y ∉ (survey (c, l) i).2.reported ∧ y ∉ (survey (c, l) i).2.received) :
    Deferring (c.step i) (survey (c, l) i).2 m' := by
  refine ⟨hstretch.1, hnodup, hreceived, hreported, fun x hx => ?_, fun q hq => ?_⟩
  · rcases hgaps x hx with hx | hx | ⟨hmem, hx, hxm⟩
    · exact Or.inl hx
    · exact Or.inr (Or.inl hx)
    · rcases Nat.lt_or_ge x (survey (c, l) i).2.head with hpassed | hahead
      · exact Or.inr (Or.inl (hi.passed x hx hpassed))
      · exact Or.inr (Or.inr ⟨hmem, hahead, hxm⟩)
  · obtain ⟨y, rfl, hy, hym, hnot⟩ := hdeferred q hq
    refine ⟨y, rfl, ?_, hym, hnot⟩
    by_contra hpassed
    exact hnot.2 (hi.passed y hy (by omega))

theorem Deferring.quiet (h : Deferring c l m) (hi : Dropless (c, l) i) (hnone : c.accepted i = none)
    (houtputs : i.isData = true → (c.step i).outputs = c.outputs)
    (hdeferred : (c.step i).rcv.deferredLoss = c.rcv.deferredLoss)
    (hedits : RecvBuffer.Edits False c.rcv.recvBuf (c.step i).rcv.recvBuf) :
    Deferring (c.step i) (survey (c, l) i).2 m := by
  have hreceived : (survey (c, l) i).2.received = l.received := by simp [survey, hnone]
  have hgaps : (survey (c, l) i).2.gaps = l.gaps := by simp [survey, hnone]
  have hreported : (survey (c, l) i).2.reported = l.reported := by
    refine Set.union_eq_left.mpr ?_
    rintro x ⟨hdata, o, ho, -⟩
    rw [houtputs hdata, List.drop_length] at ho
    exact absurd ho List.not_mem_nil
  refine Deferring.of_stretch hi (h.toStretch.deliver rfl hedits) (hdeferred ▸ h.nodup) ?_ ?_ ?_ ?_
  · exact hreceived ▸ h.received
  · exact hreported ▸ h.reported
  · simp only [hreceived, hreported, hgaps, HeldBack, hdeferred]
    exact h.gaps
  · rw [hreceived, hreported, hdeferred]
    exact h.deferred

section Accepted

variable {c₁ : Conn σ} {now : ℤ} {p plain : Packet} {q : ℕ}

abbrev LostBy (c c₁ : Conn σ) (now : ℤ) (plain : Packet) (m q : ℕ) : ℕ → Prop :=
  Lost (c₁.stored now plain) (c.rcv.recvBuf.insertedAt (wrap q)) m q

theorem Deferring.lost (h : Deferring c l m) (haccepts : Accepts c c₁ now p plain l.head q)
    (hx : LostBy c c₁ now plain m q x) :
    ∃ y, x = wrap y ∧ l.head ≤ y ∧ y < max m (q + 1) ∧ y ≠ q ∧ y ∉ l.reported ∧ y ∉ l.received := by
  have hle := h.le
  rcases hx with hx | ⟨-, y, hy, hyq, rfl⟩
  · rw [haccepts.deferredLoss, haccepts.seq_eq] at hx
    obtain ⟨y, rfl, hy, hym, hnot⟩ := h.deferred x (List.mem_of_mem_erase hx)
    refine ⟨y, rfl, hy, by omega, fun heq => ?_, hnot⟩
    rw [heq] at hx
    exact h.nodup.not_mem_erase hx
  · refine ⟨y, rfl, by omega, by omega, by omega, fun hmem => ?_, fun hmem => ?_⟩
    · have := h.reported y hmem
      omega
    · have := h.received y hmem
      omega

theorem Deferring.gapFrom (h : Deferring c l m) (hi : Dropless (c, l) (.packet now p))
    (haccepted : c.accepted (.packet now p) = some (wrap q))
    (haccepts : Accepts c c₁ now p plain l.head q) :
    GapFrom (c.rcv.recvBuf.insertedAt (wrap q)) m q := by
  have hlen := h.placed.len_le
  have hm := h.lt
  have hq := haccepts.le
  have hq' := haccepts.lt
  have hle := h.le
  intro hgap
  have hshort := hi.short (wrap q) haccepted hgap
  obtain ⟨hmq, heq⟩ := h.reaches.gap hgap (by omega)
  rw [heq] at hshort ⊢
  rw [distance_wrap (by omega) (by omega)] at hshort
  exact ⟨rfl, rfl, hmq, by omega⟩

structure Sifts (c c₁ : Conn σ) (n now : ℤ) (p plain : Packet) (m q : ℕ) : Prop where
  nodup : (c₁.handleData now p).rcv.deferredLoss.Nodup
  named : ∀ o ∈ (c₁.handleData now p).outputs.drop c.outputs.length, ∀ x, o.Reports x →
    n < distance x (wrap q) ∧ LostBy c c₁ now plain m q x
  kept : ∀ x ∈ (c₁.handleData now p).rcv.deferredLoss,
    distance x (wrap q) ≤ n ∧ LostBy c c₁ now plain m q x
  told : ∀ x, LostBy c c₁ now plain m q x →
    (∃ o ∈ (c₁.handleData now p).outputs.drop c.outputs.length, o.Reports x) ∨
      x ∈ (c₁.handleData now p).rcv.deferredLoss

theorem Deferring.sifts (h : Deferring c l m) (htol : Tolerant n c)
    (haccepts : Accepts c c₁ now p plain l.head q)
    (hgap : GapFrom (c.rcv.recvBuf.insertedAt (wrap q)) m q) : Sifts c c₁ n now p plain m q := by
  have htolerance : (c₁.stored now plain).params.reorderTolerance = n := by
    rw [haccepts.params]
    exact htol.reorderTolerance
  have hpos := htol.pos
  have hvalid : ∀ x ∈ (c₁.stored now plain).rcv.deferredLoss, Valid x := fun x hx => by
    rw [haccepts.deferredLoss] at hx
    obtain ⟨y, rfl, -⟩ := h.deferred x (List.mem_of_mem_erase hx)
    exact valid_wrap y
  obtain ⟨hsifted, hkept⟩ := sifted_reportLosses (t := (n - 1).toNat)
    (by omega) haccepts.fecReceiver hvalid hgap now
  have hwithin : (c.rcv.recvBuf.insertedAt (wrap q)).hasGap = true →
      (c₁.stored now plain).reportsLosses = true → GapWithin (fun _ => True)
        ((10000 : ℕ) + (c₁.stored now plain).params.reorderTolerance)
          (c.rcv.recvBuf.insertedAt (wrap q)) := by
    intro hres _
    obtain ⟨hstart, hend, hmq, hq⟩ := hgap hres
    exact ⟨m, q - 1, hstart, hend, by omega, by omega, by omega, fun _ _ _ => trivial⟩
  have hnodup :=
    (reported_reportLosses hwithin (by omega) (by omega) (fun _ _ => trivial) now (wrap q)).nodup
    (haccepts.deferredLoss ▸ h.nodup.erase _)
  obtain ⟨os, hos, hall⟩ := haccepts.reports (by
    rw [haccepts.seq_eq]
    exact hsifted.emits)
  have hdeferred := haccepts.deferred
  rw [haccepts.seq_eq] at hdeferred
  refine ⟨hdeferred ▸ hnodup, fun o ho x hx => ?_, fun x hx => ?_, fun x hx => ?_⟩
  · rw [hos, List.drop_left] at ho
    have := hx.of_nakOf (hall o ho hx.isNAK)
    rwa [htolerance] at this
  · rw [hdeferred] at hx
    exact ⟨htolerance ▸ hkept x hx, hsifted.kept x hx⟩
  · rw [hdeferred]
    refine (hsifted.told x hx).imp (fun hnamed => ?_) id
    obtain ⟨os, hos, o, ho, hx⟩ := hnamed
    obtain ⟨os', hos', -⟩ := haccepts.emits
    rw [haccepts.seq_eq, hos, haccepts.outputs, List.append_assoc] at hos'
    refine ⟨o, ?_, hx⟩
    rw [hos', List.drop_left]
    exact List.mem_append_left _ ho

theorem Deferring.accepts (h : Deferring c l m) (htol : Tolerant n c)
    (hi : Dropless (c, l) (.packet now p))
    (hopen : c.closed = false) (hcontrol : p.header.isControl = false)
    (hstep : c.step (.packet now p) = c₁.handleData now p)
    (haccepts : Accepts c c₁ now p plain l.head q) :
    Deferring (c.step (.packet now p)) (survey (c, l) (.packet now p)).2 (max m (q + 1)) ∧
      Behind n (c, l) (.packet now p) := by
  have hlen := h.placed.len_le
  have hm := h.lt
  have hle := h.le
  have hq := haccepts.le
  have hq' := haccepts.lt
  have haccepted := haccepts.accepted_eq hopen hcontrol
  have hgap := h.gapFrom hi haccepted haccepts
  have hsifts := h.sifts htol haccepts hgap
  have hpos : c.positionOf l.toLedger (wrap q) = q := h.positionOf_eq hq (by omega)
  have hdata : Input.isData (.packet now p) = true := by simp [Input.isData, hcontrol]
  set l' := (survey (c, l) (.packet now p)).2 with hl'
  have hreceived : ∀ x ∈ l'.received, x ∈ l.received ∨ x = q := by
    rintro x (hx | ⟨q', hq', rfl⟩)
    · exact Or.inl hx
    · obtain rfl := Option.some.inj (haccepted.symm.trans hq')
      exact Or.inr hpos
  have hreported : ∀ x ∈ l'.reported, x ∈ l.reported ∨ x < max m (q + 1) ∧
      n < distance (wrap x) (wrap q) := by
    rintro x (hx | ⟨-, o, ho, z, hz, rfl⟩)
    · exact Or.inl hx
    · obtain ⟨hlate, hlost⟩ := hsifts.named o (hstep ▸ ho) z hz
      obtain ⟨y, rfl, hy, hy', -⟩ := h.lost haccepts hlost
      have hposy : c.positionOf l.toLedger (wrap y) = y := h.positionOf_eq hy (by omega)
      rw [hposy]
      exact Or.inr ⟨hy', hlate⟩
  have hfound : ∀ y, LostBy c c₁ now plain m q (wrap y) → l.head ≤ y → y < max m (q + 1) →
      y ∈ l'.reported ∨ HeldBack (c.step (.packet now p)) l.head (max m (q + 1)) y := by
    intro y hy hly hym
    rcases hsifts.told _ hy with ⟨o, ho, hname⟩ | hheld
    · exact Or.inl (Or.inr ⟨hdata, o, hstep ▸ ho, wrap y, hname,
        (h.positionOf_eq hly (by omega)).symm⟩)
    · exact Or.inr ⟨hstep ▸ hheld, hly, hym⟩
  refine ⟨Deferring.of_stretch hi ((h.toStretch.store haccepts.seq_eq hq hq' now).deliver
    (RecvBuffer.sameRing_store c.rcv.recvBuf plain now).startSeq (hstep ▸ haccepts.edits))
      (hstep ▸ hsifts.nodup)
    (fun x hx => ?_) (fun x hx => ?_) ?_ (fun x hx => ?_), fun _ o ho x hx => ?_⟩
  · rcases hreceived x hx with hx | rfl
    · exact lt_max_of_lt_left (h.received x hx)
    · omega
  · rcases hreported x hx with hx | hx
    · exact lt_max_of_lt_left (h.reported x hx)
    · exact hx.1
  · rintro x (hx | ⟨q', haccepted', hres, hstart, hend⟩)
    · rcases h.gaps x hx with hx | hx | ⟨hmem, hxl, hxm⟩
      · exact Or.inl (Or.inl hx)
      · exact Or.inr (Or.inl (Or.inl hx))
      · -- a number that was held back
        by_cases hxq : x = q
        · exact Or.inr (Or.inl (Or.inr ⟨wrap q, haccepted, hxq.trans hpos.symm⟩))
        · have hne : wrap x ≠ wrap q := fun heq => hxq (eq_of_wrap_eq heq (by omega) (by omega))
          refine (hfound x (Or.inl ?_) hxl (by omega)).imp_right Or.inr
          rw [haccepts.deferredLoss, haccepts.seq_eq]
          exact (List.mem_erase_of_ne hne).mpr hmem
    · -- a number of the new gap
      obtain rfl := Option.some.inj (haccepted.symm.trans haccepted')
      obtain ⟨hgapStart, hgapEnd, hmq, -⟩ := hgap hres
      have hposm : c.positionOf l.toLedger (wrap m) = m := h.positionOf_eq hle (by omega)
      have hposq : c.positionOf l.toLedger (wrap (q - 1)) = q - 1 :=
        h.positionOf_eq (by omega) (by omega)
      rw [hgapStart, hposm] at hstart
      rw [hgapEnd, hposq] at hend
      exact (hfound x (Or.inr ⟨hres, x, hstart, by omega, rfl⟩) (by omega)
        (by omega)).imp_right Or.inr
  · rw [hstep] at hx
    obtain ⟨hsoon, hlost⟩ := hsifts.kept x hx
    obtain ⟨y, rfl, hy, hym, hyq, hnot, hnot'⟩ := h.lost haccepts hlost
    refine ⟨y, rfl, hy, hym, fun hmem => ?_, fun hmem => ?_⟩
    · rcases hreported y hmem with hmem | ⟨-, hlate⟩
      · exact hnot hmem
      · omega
    · rcases hreceived y hmem with hmem | heq
      · exact hnot' hmem
      · exact hyq heq
  · exact ⟨wrap q, haccepted, (hsifts.named o (hstep ▸ ho) x hx).1⟩

end Accepted

theorem Deferring.data {now : ℤ} {p : Packet} (h : Deferring c l m) (htol : Tolerant n c)
    (hi : Dropless (c, l) (.packet now p)) (hcontrol : p.header.isControl = false) :
    (∃ m', Deferring (c.step (.packet now p)) (survey (c, l) (.packet now p)).2 m') ∧
      Behind n (c, l) (.packet now p) := by
  -- a packet that changes nothing to be seen
  have hquiet : c.accepted (.packet now p) = none → Book c (c.step (.packet now p)) →
      (∃ m', Deferring (c.step (.packet now p)) (survey (c, l) (.packet now p)).2 m') ∧
        Behind n (c, l) (.packet now p) := by
    intro hnone hbook
    refine ⟨⟨m, h.quiet hi hnone (fun _ => hbook.outputs) hbook.deferredLoss
      (by rw [hbook.recvBuf])⟩, ?_⟩
    intro _ o ho
    rw [hbook.outputs, List.drop_length] at ho
    exact absurd ho List.not_mem_nil
  cases hclosed : c.closed with
  | true =>
    have hstep : c.step (.packet now p) = c := by simp [Conn.step, handlePacket, hclosed]
    refine hquiet (by simp [accepted, hclosed]) ?_
    constructor <;> rw [hstep]
  | false =>
    have hstep : c.step (.packet now p) = (c.noteAlive now).handleData now p := by
      simp [Conn.step, handlePacket, hclosed, hcontrol]
    have hbook := book_noteAlive c now
    rcases handleData_accepts hbook htol.fecReceiver h.placed hi.wellFormed with
      ⟨hsame, hnone⟩ | ⟨plain, q, haccepts⟩
    · exact hquiet hnone (by rwa [hstep, hsame])
    · obtain ⟨hdeferring, hbehind⟩ := h.accepts htol hi hclosed hcontrol hstep haccepts
      exact ⟨⟨_, hdeferring⟩, hbehind⟩

theorem Deferring.step (h : Deferring c l m) (htol : Tolerant n c) (hi : Dropless (c, l) i) :
    (∃ m', Deferring (c.step i) (survey (c, l) i).2 m') ∧ Behind n (c, l) i := by
  by_cases hdata : ∃ now p, i = .packet now p ∧ p.header.isControl = false
  · obtain ⟨now, p, rfl, hcontrol⟩ := hdata
    exact h.data htol hi hcontrol
  · have hnot : i.isData = false := by
      cases i with
      | packet now p =>
        by_contra hcontrol
        exact hdata ⟨now, p, rfl, by simpa [Input.isData] using hcontrol⟩
      | _ => rfl
    have hnone : c.accepted i = none := by
      cases i with
      | packet now p =>
        have hcontrol : p.header.isControl = true := by simpa [Input.isData] using hnot
        simp [accepted, hcontrol]
      | _ => rfl
    refine ⟨⟨m, ?_⟩, fun htrue => absurd htrue (by simp [hnot])⟩
    have hquiet := h.quiet hi hnone (fun htrue => absurd htrue (by simp [hnot]))
    have hstep := recvStep c i
    generalize hc' : c.step i = c' at hstep
    rw [hc'] at hquiet
    cases hstep with
    | idle hidle => exact hquiet hidle.deferredLoss (by rw [hidle.recvBuf])
    | data hi' hopen hcontrol hbook => exact absurd ⟨_, _, hi', hcontrol⟩ hdata
    | drop hi' hopen htype hbook =>
      have := hi.noDrop
      simp [hi', Input.isDropReq, htype.1, htype.2] at this
    | play hi' hopen hbook =>
      refine hquiet ?_ ?_
      · rw [(deliveryFrame_deliverTSBPD _ _).deferredLoss, hbook.deferredLoss]
      · rw [← hbook.recvBuf]
        exact edits_deliverTSBPD _ _

omit [Primitives] in
theorem deferring_establish (cc : σ) (now : ℤ) {ep : EstablishParams} (hcap : ep.rcvCap ≤ 2 ^ 30)
    (hisn : Valid ep.recvISN) : Deferring (establish cc now ep)
    { head := ep.recvISN } ep.recvISN := by
  have hnone : (establish cc now ep).rcv.deferredLoss = [] := by
    rw [establish_eq]
    rfl
  refine ⟨(books_establish cc now hcap hisn).toStretch, ?_, ?_, ?_, ?_, ?_⟩
  · rw [hnone]
    exact List.nodup_nil
  · exact fun x hx => hx.elim
  · exact fun x hx => hx.elim
  · exact fun x hx => hx.elim
  · rw [hnone]
    exact fun x hx => absurd hx List.not_mem_nil

/-- **Reorder tolerance.**  Without a filter and with a tolerance that is not zero, in every run
in which nothing is dropped and every gap has at most ten thousand numbers: whatever a data packet
has reported is more than the tolerance behind it, every number of a gap has been reported, is
held back or has been received, and what is held back has been neither reported nor received. -/
theorem reorder_tolerance {ep : EstablishParams} (hcap : ep.rcvCap ≤ 2 ^ 30)
    (hisn : Valid ep.recvISN)
    (hfilter : ep.filter = none) (htol : 0 < ep.lossMaxTTL) (cc : σ) (now : ℤ) (is : List Input)
    (hsteps : AllSteps survey Dropless (establish cc now ep, { head := ep.recvISN }) is) :
    AllSteps survey (Behind ep.lossMaxTTL) (establish cc now ep, { head := ep.recvISN }) is ∧
      AllStates survey Tallied (establish cc now ep, { head := ep.recvISN }) is := by
  have htolerant : Tolerant ep.lossMaxTTL (establish cc now ep) := by
    have hun := unfiltered_establish cc now hfilter
    obtain ⟨os, hos⟩ := exists_establish_eq cc now ep
    refine ⟨hun.fecReceiver, ?_, htol⟩
    rw [hos]
    exact max_eq_left htol.le
  set Q := fun s : Conn σ × GapLedger => Tolerant ep.lossMaxTTL s.1 ∧ ∃ m, Deferring s.1 s.2 m
  have hinit : Q (establish cc now ep, { head := ep.recvISN }) :=
    ⟨htolerant, _, deferring_establish cc now hcap hisn⟩
  have hstep : ∀ s i, Q s → Dropless s i → Q (survey s i) := by
    rintro ⟨c, l⟩ i ⟨htol, m, hc⟩ hi
    refine ⟨⟨fecReceiver_step htol.fecReceiver i, ?_, htol.pos⟩, (hc.step htol hi).1⟩
    show (c.step i).params.reorderTolerance = _
    rw [params_step]
    exact htol.reorderTolerance
  refine ⟨hsteps.allSteps hstep (fun s i hs hi => ?_) hinit,
    (hsteps.allStates hstep hinit).mono fun s hs => ?_⟩
  · obtain ⟨htol, m, hc⟩ := hs
    exact (hc.step htol hi).2
  · obtain ⟨-, m, hc⟩ := hs
    exact hc.tallied

end Conn

section Examples

open scoped XorCipher

/-- A live receiver with a tolerance of one gets the numbers 0, 3 and 5.  The number 1 is reported
with the arrival of 3, the number 2 with the arrival of 5, and 4 is held back. -/
theorem reorder_tolerance_one :
    let ep := { smallParams true with lossMaxTTL := 1 }
    let is := [dataInput 1000 0, dataInput 2000 3, dataInput 3000 5]
    let s : Conn LiveCC × GapLedger := (Conn.establish (LiveCC.new 0 0) 0 ep, { head := 0 })
    AllSteps Conn.survey (Conn.Behind 1) s is ∧ AllStates Conn.survey Conn.Tallied s is ∧
      (exec Conn.survey s is).1.rcv.deferredLoss = [4] := by
  intro ep is s
  have hcap : ep.rcvCap ≤ 2 ^ 30 := by decide
  have hsteps : AllSteps Conn.survey Conn.Dropless s is := by
    refine ⟨⟨rfl, fun x _ hx => ?_, by decide, fun q hq => ?_⟩,
      ⟨rfl, fun x _ hx => ?_, by decide, fun q hq => ?_⟩,
      ⟨rfl, fun x _ hx => ?_, by decide, fun q hq => ?_⟩, trivial⟩
    · exact absurd (hx.trans_eq (by decide +kernel)) (Nat.not_lt_zero x)
    · obtain rfl : q = 0 := Option.some.inj (hq.symm.trans (by decide +kernel))
      decide +kernel
    · exact absurd (hx.trans_eq (by decide +kernel)) (Nat.not_lt_zero x)
    · obtain rfl : q = 3 := Option.some.inj (hq.symm.trans (by decide +kernel))
      decide +kernel
    · exact absurd (hx.trans_eq (by decide +kernel)) (Nat.not_lt_zero x)
    · obtain rfl : q = 5 := Option.some.inj (hq.symm.trans (by decide +kernel))
      decide +kernel
  obtain ⟨hbehind, htallied⟩ :=
    Conn.reorder_tolerance hcap (by decide) rfl (by decide) (LiveCC.new 0 0) 0 is hsteps
  exact ⟨hbehind, htallied, by decide +kernel⟩

end Examples

end SrtGo.Core
