import SrtGo.Filter.SenderParity

/-!
# How much the parity receiver follows

The receiver never follows more than ten matrices: ten times as many rows as a matrix has,
and ten series of columns.  So what it reports as lost at a time is bounded by the size of
the matrix, whatever arrives.
-/

namespace SrtGo.Filter

open Bytes SrtGo.Seq FECReceiver

namespace FECReceiver

variable {cfg : Config} {r r' : FECReceiver} {n : ℕ} {g : RcvGroup} {losses : List ℕ}

/-! ## What the receiver keeps -/

theorem valid_seqAdd (base offset : ℕ) : Valid (seqAdd base offset) := by
  constructor
  unfold seqAdd Seq.add maxNumber
  simp only
  split_ifs <;> omega

theorem valid_of_find {g' : RcvGroup} {p : ℕ → Bool} {base count lost : ℕ} {f : ℕ → ℕ}
    (h : (((List.range count).map fun i => seqAdd base (f i)).find? p).map (g, ·) =
      some (g', lost)) :
    Valid lost := by
  obtain ⟨s, hfind, hs⟩ := Option.map_eq_some_iff.mp h
  obtain rfl : s = lost := congrArg Prod.snd hs
  obtain ⟨i, -, rfl⟩ := List.mem_map.mp (List.mem_of_find?_eq_some hfind)
  exact valid_seqAdd _ _

theorem valid_of_solvableRow {rowIdx lost : ℕ} (h : r.solvableRow rowIdx = some (g, lost)) :
    Valid lost := by
  unfold solvableRow at h
  simp only at h
  split_ifs at h
  exact valid_of_find h

theorem valid_of_solvableColumn {colIdx lost : ℕ} (h : r.solvableColumn colIdx = some (g, lost)) :
    Valid lost := by
  unfold solvableColumn at h
  simp only at h
  split_ifs at h
  exact valid_of_find h

/-- The operations of the receiver that change more than one group keep a property: what it does
with a packet keeps it as well. -/
structure Stable (P : FECReceiver → Prop) : Prop where
  markCell : ∀ {r : FECReceiver} (seqNo : ℕ) (received : Bool), P r → P (r.markCell seqNo received)
  cleanCells : ∀ {r : FECReceiver}, P r → P r.cleanCells
  rows : ∀ {r : FECReceiver} {groups : List RcvGroup}, P r → groups.length ≤ r.rowGroups.length →
    P { r with rowGroups := groups }
  columns : ∀ {r : FECReceiver} {groups : List RcvGroup}, P r → groups.length = r.colGroups.length →
    P { r with colGroups := groups }
  getRowGroupIndex : ∀ {r : FECReceiver} (seqNo : ℕ), P r → P (r.getRowGroupIndex seqNo).1
  getColumnGroupIndex : ∀ {r : FECReceiver} (seqNo : ℕ), P r → P (r.getColumnGroupIndex seqNo).1
  rebuilt : ∀ {r : FECReceiver} {rp : RecoveredPacket}, P r → Valid rp.seqNo →
    P { r with rebuilt := r.rebuilt ++ [rp] }
  fullReset : ∀ {r : FECReceiver} (seqNo : ℕ), P r → P (r.fullReset seqNo)
  dropSeries : ∀ {r : FECReceiver}, P r → 0 < r.colSeries ∧ r.cfg.cols < r.colGroups.length →
    P { r with colGroups := r.colGroups.drop r.cfg.cols, colSeries := r.colSeries - 1 }
  unmarkCell : ∀ {r : FECReceiver} (seqNo : ℕ), P r → P (r.unmarkCell seqNo)

namespace Stable

variable {P : FECReceiver → Prop} (hP : Stable P)

section

variable (h : P r)

include hP h

theorem modifyRow (rowIdx : ℕ) (f : RcvGroup → RcvGroup) : P (r.modifyRow rowIdx f) :=
  hP.rows h (by simp)

theorem modifyColumn (colIdx : ℕ) (f : RcvGroup → RcvGroup) : P (r.modifyColumn colIdx f) :=
  hP.columns h (by simp)

theorem crossRebuildHorizontal (rp : RecoveredPacket) :
    P (r.crossRebuildHorizontal rp).1 ∧
      ∀ g lost, (r.crossRebuildHorizontal rp).2 = some (g, lost) → Valid lost := by
  have hfound := hP.getRowGroupIndex rp.seqNo h
  unfold FECReceiver.crossRebuildHorizontal
  split
  · rename_i heq
    rw [heq] at hfound
    exact ⟨hfound, by simp⟩
  · rename_i heq
    rw [heq] at hfound
    exact ⟨hP.modifyRow hfound _ _, fun g lost hsolvable => valid_of_solvableRow hsolvable⟩

theorem crossRebuildVertical (rp : RecoveredPacket) :
    P (r.crossRebuildVertical rp).1 ∧
      ∀ g lost, (r.crossRebuildVertical rp).2 = some (g, lost) → Valid lost := by
  have hfound := hP.getColumnGroupIndex rp.seqNo h
  unfold FECReceiver.crossRebuildVertical
  split
  · rename_i heq
    rw [heq] at hfound
    exact ⟨hfound, by simp⟩
  · rename_i heq
    rw [heq] at hfound
    split_ifs
    · exact ⟨hP.modifyColumn hfound _ _, fun g lost hsolvable => valid_of_solvableColumn hsolvable⟩
    · exact ⟨hfound, by simp⟩

theorem rebuildLoop (fuel : ℕ) (g : RcvGroup) {seqNo : ℕ} (hseq : Valid seqNo)
    (tp : GroupType) : P (rebuildLoop fuel r g seqNo tp) := by
  induction fuel generalizing r g seqNo tp with
  | zero => exact h
  | succ fuel ih =>
    have hsupplied : P (r.supply (solution g seqNo)) := hP.markCell _ true (hP.rebuilt h hseq)
    rw [rebuildLoop]
    split_ifs
    · exact h
    · simp only
      split
      · exact hsupplied
      · obtain ⟨hcross, hlost⟩ := hP.crossRebuildVertical hsupplied (solution g seqNo)
        split
        · rename_i heq
          rwa [heq] at hcross
        · rename_i heq
          rw [heq] at hcross hlost
          exact ih hcross _ (hlost _ _ rfl) _
      · obtain ⟨hcross, hlost⟩ := hP.crossRebuildHorizontal hsupplied (solution g seqNo)
        split
        · rename_i heq
          rwa [heq] at hcross
        · rename_i heq
          rw [heq] at hcross hlost
          exact ih hcross _ (hlost _ _ rfl) _

theorem solveRow (rowIdx : ℕ) : P (r.solveRow rowIdx) := by
  unfold FECReceiver.solveRow
  split
  · exact h
  · rename_i hsolvable
    exact hP.rebuildLoop h _ _ (valid_of_solvableRow hsolvable) _

theorem solveColumn (colIdx : ℕ) : P (r.solveColumn colIdx) := by
  unfold FECReceiver.solveColumn
  split
  · exact h
  · rename_i hsolvable
    exact hP.rebuildLoop h _ _ (valid_of_solvableColumn hsolvable) _

theorem hangHorizontalData (seqNo timestamp encFlag : ℕ) (payload : Bytes) :
    P (r.hangHorizontalData seqNo timestamp encFlag payload).1 := by
  have hfound := hP.getRowGroupIndex seqNo h
  unfold FECReceiver.hangHorizontalData
  split
  · rename_i heq
    rwa [heq] at hfound
  · rename_i heq
    rw [heq] at hfound
    exact hP.solveRow (hP.modifyRow hfound _ _) _

theorem hangHorizontalFEC (seqNo timestamp : ℕ) (fecPayload : Bytes) :
    P (r.hangHorizontalFEC seqNo timestamp fecPayload) := by
  have hfound := hP.getRowGroupIndex seqNo h
  unfold FECReceiver.hangHorizontalFEC
  split
  · rename_i heq
    rwa [heq] at hfound
  · rename_i heq
    rw [heq] at hfound
    split_ifs
    · exact hfound
    · exact hP.solveRow (hP.modifyRow hfound _ _) _

theorem hangVerticalData (seqNo timestamp encFlag : ℕ) (payload : Bytes) :
    P (r.hangVerticalData seqNo timestamp encFlag payload).1 := by
  have hfound := hP.getColumnGroupIndex seqNo h
  unfold FECReceiver.hangVerticalData
  split
  · rename_i heq
    rwa [heq] at hfound
  · rename_i heq
    rw [heq] at hfound
    split_ifs
    · exact hP.solveColumn (hP.modifyColumn hfound _ _) _
    · exact hfound

theorem hangVerticalFEC (seqNo timestamp : ℕ) (fecPayload : Bytes) :
    P (r.hangVerticalFEC seqNo timestamp fecPayload) := by
  have hfound := hP.getColumnGroupIndex seqNo h
  unfold FECReceiver.hangVerticalFEC
  split
  · rename_i heq
    rwa [heq] at hfound
  · rename_i heq
    rw [heq] at hfound
    split_ifs
    · exact hfound
    · exact hP.solveColumn (hP.modifyColumn hfound _ _) _

theorem trimRows (seqNo threshold fuel : ℕ) : P (trimRows seqNo threshold fuel r) := by
  induction fuel generalizing r with
  | zero => exact h
  | succ fuel ih =>
    rw [trimRows]
    split
    · rename_i g g' rest hrows
      split_ifs
      · exact ih (hP.cleanCells (hP.rows h (by simp [hrows])))
      · exact h
    · exact h

theorem trimSeries (minHistory fuel : ℕ) : P (trimSeries minHistory fuel r) := by
  induction fuel generalizing r with
  | zero => exact h
  | succ fuel ih =>
    rw [trimSeries]
    split_ifs with hmore
    · exact ih (hP.dropSeries h ⟨by omega, hmore.2⟩)
    · exact h

theorem checkLargeDrop (seqNo : ℕ) : P (r.checkLargeDrop seqNo) := by
  unfold FECReceiver.checkLargeDrop
  split
  · exact h
  · simp only
    split_ifs
    · exact h
    · exact hP.fullReset seqNo h
    · exact hP.trimSeries (hP.trimRows h _ _ _) _ _
    · exact hP.trimRows h _ _ _

theorem dismissOldColumns (seq : ℕ) : P (r.dismissOldColumns seq).1 :=
  hP.columns h (by simp)

theorem collectLossReport : P r.collectLossReport.1 := by
  unfold FECReceiver.collectLossReport
  split
  · exact h
  · exact h
  · simp only
    split_ifs
    · exact hP.cleanCells (hP.rows h (by simp))
    · exact h

theorem receiveFEC (seqNo timestamp : ℕ) (payload : Bytes) :
    P (r.receiveFEC seqNo timestamp payload).receiver := by
  unfold FECReceiver.receiveFEC
  split_ifs
  · exact h
  · exact hP.collectLossReport (hP.hangHorizontalFEC h _ _ _)
  · exact hP.collectLossReport (hP.dismissOldColumns (hP.hangVerticalFEC h _ _ _) _)

theorem receiveData (seqNo timestamp encFlag : ℕ) (payload : Bytes) :
    P (r.receiveData seqNo timestamp encFlag payload).receiver := by
  have hplaced := hP.hangHorizontalData (hP.markCell seqNo true h) seqNo timestamp encFlag payload
  have hcolumns :=
    hP.dismissOldColumns (hP.hangVerticalData hplaced seqNo timestamp encFlag payload) seqNo
  unfold FECReceiver.receiveData
  split_ifs with hseen
  · exact h
  · simp only
    split_ifs
    · exact hP.unmarkCell seqNo hcolumns
    · exact hcolumns
    · exact hP.unmarkCell seqNo hplaced
    · exact hplaced

end

section

variable (h : P { r with rebuilt := [] }) (seqNo timestamp encFlag msgNo : ℕ) (payload : Bytes)

include hP h

theorem receive : P (r.receive seqNo timestamp encFlag msgNo payload).receiver := by
  have hdrop := hP.checkLargeDrop h seqNo
  unfold FECReceiver.receive
  simp only
  split_ifs
  · exact hP.receiveFEC (hP.markCell seqNo false hdrop) seqNo timestamp payload
  · exact hP.receiveData hdrop seqNo timestamp encFlag payload

theorem lossReport_receive :
    ∃ cols rows, (r.receive seqNo timestamp encFlag msgNo payload).lossReport = cols ++ rows ∧
      (cols = [] ∨ ∃ r₁ r₂, P r₁ ∧ P r₂ ∧ cols = r₁.onRequest (r₂.dismissOldColumns seqNo).2) ∧
      (rows = [] ∨ ∃ r', P r' ∧ rows = r'.collectLossReport.2) := by
  have hdrop := hP.checkLargeDrop h seqNo
  have hmarked := hP.markCell seqNo false hdrop
  have hplaced := hP.hangHorizontalData (hP.markCell seqNo true hdrop) seqNo timestamp
    encFlag payload
  have hcolumns := hP.hangVerticalData hplaced seqNo timestamp encFlag payload
  have hdismissed := hP.dismissOldColumns hcolumns seqNo
  unfold FECReceiver.receive
  simp only
  split_ifs
  · unfold FECReceiver.receiveFEC
    split_ifs
    · exact ⟨[], [], rfl, .inl rfl, .inl rfl⟩
    · exact ⟨[], _, rfl, .inl rfl, .inr ⟨_, hP.hangHorizontalFEC hmarked _ _ _, rfl⟩⟩
    · have hvertical := hP.hangVerticalFEC hmarked seqNo timestamp payload
      have hleft := hP.dismissOldColumns hvertical seqNo
      exact ⟨_, _, rfl, .inr ⟨_, _, hP.collectLossReport hleft, hvertical, rfl⟩,
        .inr ⟨_, hleft, rfl⟩⟩
  · unfold FECReceiver.receiveData
    split_ifs
    · exact ⟨[], [], rfl, .inl rfl, .inl rfl⟩
    · simp only
      split_ifs
      · exact ⟨_, [], (List.append_nil _).symm, .inr ⟨_, _, hdismissed, hcolumns, rfl⟩, .inl rfl⟩
      · exact ⟨[], [], rfl, .inl rfl, .inl rfl⟩

end

end Stable

/-! ## Ten matrices -/

/-- The receiver follows at most ten matrices. -/
structure Extent (cfg : Config) (r : FECReceiver) : Prop where
  cfg_eq : r.cfg = cfg
  rows_pos : 1 ≤ cfg.rows
  rows : r.rowGroups.length ≤ 10 * cfg.rows
  cols : r.colGroups.length ≤ r.colSeries * cfg.cols
  series : r.colSeries ≤ 10

namespace Extent

section

variable (h : Extent cfg r)

include h

theorem congr (hcfg : r'.cfg = r.cfg) (hrows : r'.rowGroups.length ≤ r.rowGroups.length)
    (hcols : r'.colGroups.length = r.colGroups.length) (hseries : r'.colSeries = r.colSeries) :
    Extent cfg r' :=
  ⟨hcfg.trans h.cfg_eq, h.rows_pos, hrows.trans h.rows, by rw [hcols, hseries]; exact h.cols,
    hseries ▸ h.series⟩

theorem markCell (seqNo : ℕ) (received : Bool) : Extent cfg (r.markCell seqNo received) := by
  unfold FECReceiver.markCell
  split_ifs <;> exact h.congr rfl le_rfl rfl rfl

theorem cleanCells : Extent cfg r.cleanCells := by
  unfold FECReceiver.cleanCells
  split <;> exact h.congr rfl le_rfl rfl rfl

theorem extendRows (hn : r.rowGroups.length + n ≤ 10 * cfg.rows) : Extent cfg (extendRows n r) := by
  induction n generalizing r with
  | zero => exact h
  | succ n ih =>
    rw [extendRows]
    refine ih ⟨h.cfg_eq, h.rows_pos, ?_, h.cols, h.series⟩ ?_
    · simp
      omega
    · simp
      omega

theorem getRowGroupIndex (seqNo : ℕ) : Extent cfg (r.getRowGroupIndex seqNo).1 := by
  have hrows := h.rows
  unfold FECReceiver.getRowGroupIndex
  split
  · exact h
  · simp only
    split_ifs with hneg hfar
    · exact h
    · exact h
    · rw [sizeCol, h.cfg_eq] at hfar
      refine h.extendRows ?_
      simp only [fecMaxRcvHistory] at hfar
      omega

theorem extendColumnSeries (hseries : r.colSeries < 10) (base : ℕ) :
    Extent cfg (r.extendColumnSeries base) := by
  refine ⟨h.cfg_eq, h.rows_pos, h.rows, ?_, by simpa [FECReceiver.extendColumnSeries] using hseries⟩
  have hcols := h.cols
  have hnew := length_columnBaseOffsets h.rows_pos
  simp only [FECReceiver.extendColumnSeries, List.length_append, List.length_map, h.cfg_eq, hnew]
  rw [Nat.add_mul, Nat.one_mul]
  omega

theorem extendSeries (hn : r.colSeries + n ≤ 10) : Extent cfg (extendSeries n r) := by
  induction n generalizing r with
  | zero => exact h
  | succ n ih =>
    rw [FECReceiver.extendSeries]
    refine ih (h.extendColumnSeries (by omega) _) ?_
    simp only [FECReceiver.extendColumnSeries]
    omega

theorem getColumnGroupIndex (seqNo : ℕ) : Extent cfg (r.getColumnGroupIndex seqNo).1 := by
  have hseries := h.series
  unfold FECReceiver.getColumnGroupIndex
  simp only
  split_ifs with hnone hneg hbase hnew hfar
  · exact h
  · exact h
  · exact h
  · exact h
  · refine h.extendSeries ?_
    simp only [fecMaxRcvHistory] at hfar
    omega
  · exact h

theorem fullReset (seqNo : ℕ) : Extent cfg (r.fullReset seqNo) := by
  have hpos := h.rows_pos
  have hreset : ∀ base, Extent cfg { r with
      rowGroups := [RcvGroup.new base 1 r.payloadSize], colGroups := [], colSeries :=
        0, colBaseISN := base } :=
    fun base => ⟨h.cfg_eq, h.rows_pos, by simp; omega, by simp, by simp⟩
  unfold FECReceiver.fullReset
  simp only
  split_ifs
  · exact ((hreset _).extendColumnSeries (by simp) _).congr rfl le_rfl rfl rfl
  · exact ((hreset _).extendColumnSeries (by simp) _).congr rfl le_rfl rfl rfl
  · exact (hreset _).congr rfl le_rfl rfl rfl
  · exact (hreset _).congr rfl le_rfl rfl rfl

end

theorem stable (cfg : Config) : Stable (Extent cfg) where
  markCell seqNo received h := h.markCell seqNo received
  cleanCells h := h.cleanCells
  rows h hlen := h.congr rfl hlen rfl rfl
  columns h hlen := h.congr rfl le_rfl hlen rfl
  getRowGroupIndex seqNo h := h.getRowGroupIndex seqNo
  getColumnGroupIndex seqNo h := h.getColumnGroupIndex seqNo
  rebuilt h _ := h.congr rfl le_rfl rfl rfl
  fullReset seqNo h := h.fullReset seqNo
  dropSeries {r} h hmore := by
    have hcols := h.cols
    refine { h with cols := ?_, series := (Nat.sub_le _ _).trans h.series }
    rw [h.cfg_eq] at hmore ⊢
    simp only [List.length_drop, Nat.sub_mul, Nat.one_mul]
    omega
  unmarkCell _ h := h.congr rfl le_rfl rfl rfl

theorem receive (h : Extent cfg r) (seqNo timestamp encFlag msgNo : ℕ) (payload : Bytes) :
    Extent cfg (r.receive seqNo timestamp encFlag msgNo payload).receiver :=
  (stable cfg).receive (h.congr rfl le_rfl rfl rfl) seqNo timestamp encFlag msgNo payload

end Extent

/-! ## What is reported -/

structure Losses (n : ℕ) (losses : List ℕ) : Prop where
  length : losses.length ≤ n
  valid : ∀ s ∈ losses, Valid s

theorem losses_flatMap {α : Type*} {f : α → List ℕ} (hf : ∀ a, Losses n (f a)) (l : List α) :
    Losses (l.length * n) (l.flatMap f) := by
  induction l with
  | nil => exact ⟨by simp, by simp⟩
  | cons a l ih =>
    rw [List.flatMap_cons, List.length_cons, Nat.add_mul, Nat.one_mul, Nat.add_comm]
    refine ⟨?_, fun s hs => ?_⟩
    · rw [List.length_append]
      exact Nat.add_le_add (hf a).length ih.length
    · exact (List.mem_append.mp hs).elim ((hf a).valid s) (ih.valid s)

theorem losses_members (r : FECReceiver) (count : ℕ) (f : ℕ → ℕ) (base : ℕ) :
    Losses count (((List.range count).map fun i => seqAdd base (f i)).filter fun s =>
      !r.cells s) := by
  refine ⟨?_, fun s hs => ?_⟩
  · calc _ ≤ _ := List.length_filter_le _ _
      _ = count := by simp
  · obtain ⟨i, -, rfl⟩ := List.mem_map.mp (List.mem_filter.mp hs).1
    exact valid_seqAdd base (f i)

theorem Losses.mono {m : ℕ} (h : Losses n losses) (hnm : n ≤ m) : Losses m losses :=
  ⟨h.length.trans hnm, h.valid⟩

theorem Losses.nil (n : ℕ) : Losses n [] := ⟨by simp, by simp⟩

theorem Extent.losses_dismissOldColumns (h : Extent cfg r) (seq : ℕ) :
    Losses (10 * (cfg.cols * cfg.rows)) (r.dismissOldColumns seq).2 := by
  have hcount : (r.colGroups.filter (r.columnPast seq)).length * r.sizeCol ≤
      10 * (cfg.cols * cfg.rows) := by
    calc _ ≤ r.colGroups.length * r.sizeCol := Nat.mul_le_mul_right _ (List.length_filter_le _ _)
      _ ≤ r.colSeries * cfg.cols * cfg.rows := by
        rw [sizeCol, h.cfg_eq]
        exact Nat.mul_le_mul_right _ h.cols
      _ = r.colSeries * (cfg.cols * cfg.rows) := Nat.mul_assoc _ _ _
      _ ≤ 10 * (cfg.cols * cfg.rows) := Nat.mul_le_mul_right _ h.series
  exact (losses_flatMap (fun g => losses_members r r.sizeCol (fun i => i * g.step) g.base) _).mono
    hcount

theorem Extent.losses_collectLossReport (h : Extent cfg r) :
    Losses (10 * (cfg.cols * cfg.rows)) r.collectLossReport.2 := by
  have hcount : ∀ n, (((r.rowGroups.take n).filter fun g => !g.dismissed)).length * r.sizeRow ≤
      10 * (cfg.cols * cfg.rows) := by
    intro n
    calc _ ≤ (r.rowGroups.take n).length * r.sizeRow :=
      Nat.mul_le_mul_right _ (List.length_filter_le _ _)
      _ ≤ r.rowGroups.length * r.sizeRow := Nat.mul_le_mul_right _ (by simp)
      _ ≤ 10 * cfg.rows * cfg.cols := by
        rw [sizeRow, h.cfg_eq]
        exact Nat.mul_le_mul_right _ h.rows
      _ = 10 * (cfg.cols * cfg.rows) := by ring
  have hrow : ∀ n, Losses (10 * (cfg.cols * cfg.rows))
      (((r.rowGroups.take n).filter fun g => !g.dismissed).flatMap fun g =>
        (r.rowMembers g).filter fun s => !r.cells s) := fun n =>
    (losses_flatMap (f := fun g => (r.rowMembers g).filter fun s => !r.cells s)
      (fun g => losses_members r r.sizeRow (fun i => i) g.base) _).mono (hcount n)
  unfold FECReceiver.collectLossReport
  split
  · exact Losses.nil _
  · exact Losses.nil _
  · simp only
    split_ifs
    · exact hrow _
    · exact hrow _

theorem losses_onRequest (h : Losses n losses) (r : FECReceiver) :
    Losses n (r.onRequest losses) := by
  unfold onRequest
  split
  · exact h
  · exact Losses.nil n
  · exact Losses.nil n

/-- **What one packet makes the filter report**: at most twenty times the size of the matrix. -/
theorem Extent.losses_receive (h : Extent cfg r) (seqNo timestamp encFlag msgNo : ℕ)
    (payload : Bytes) :
    Losses (20 * (cfg.cols * cfg.rows))
      (r.receive seqNo timestamp encFlag msgNo payload).lossReport := by
  obtain ⟨cols, rows, heq, hcols, hrows⟩ := (Extent.stable cfg).lossReport_receive
    (h.congr rfl le_rfl rfl rfl) seqNo timestamp encFlag msgNo payload
  have hcol : Losses (10 * (cfg.cols * cfg.rows)) cols := by
    rcases hcols with rfl | ⟨r₁, r₂, -, h₂, rfl⟩
    · exact Losses.nil _
    · exact losses_onRequest (h₂.losses_dismissOldColumns seqNo) r₁
  have hrow : Losses (10 * (cfg.cols * cfg.rows)) rows := by
    rcases hrows with rfl | ⟨r', hr', rfl⟩
    · exact Losses.nil _
    · exact hr'.losses_collectLossReport
  rw [heq]
  refine ⟨?_, fun s hs => ?_⟩
  · have := hcol.length
    have := hrow.length
    rw [List.length_append]
    omega
  · rcases List.mem_append.mp hs with hs | hs
    · exact hcol.valid s hs
    · exact hrow.valid s hs

theorem Extent.lossReport_eq_nil (h : Extent cfg r) (harq : cfg.arq ≠ .onReq)
    (seqNo timestamp encFlag msgNo : ℕ) (payload : Bytes) :
    (r.receive seqNo timestamp encFlag msgNo payload).lossReport = [] := by
  obtain ⟨cols, rows, heq, hcols, hrows⟩ := (Extent.stable cfg).lossReport_receive
    (h.congr rfl le_rfl rfl rfl) seqNo timestamp encFlag msgNo payload
  have hcol : cols = [] := by
    rcases hcols with rfl | ⟨r₁, r₂, h₁, -, rfl⟩
    · rfl
    · unfold onRequest
      rw [h₁.cfg_eq]
      cases hlevel : cfg.arq with
      | always => rfl
      | never => rfl
      | onReq => exact absurd hlevel harq
  have hrow : rows = [] := by
    rcases hrows with rfl | ⟨r', hr', rfl⟩
    · rfl
    · unfold FECReceiver.collectLossReport
      rw [hr'.cfg_eq]
      cases hlevel : cfg.arq with
      | always => rfl
      | never => rfl
      | onReq => exact absurd hlevel harq
  rw [heq, hcol, hrow, List.append_nil]

theorem extent_new {cfg : Config} (hrows : 1 ≤ cfg.rows) (payloadSize isn : ℕ) :
    Extent cfg (FECReceiver.new cfg payloadSize isn) := by
  have hbase : ∀ (rowGroups : List RcvGroup) (colBaseISN : ℕ) (colBaseOff : List ℕ),
      rowGroups.length ≤ 10 * cfg.rows → Extent cfg
        { cfg := cfg, payloadSize := payloadSize, cellBase := isn, rowGroups := rowGroups,
          colBaseISN := colBaseISN, colBaseOff := colBaseOff } :=
    fun rowGroups colBaseISN colBaseOff hlen => ⟨rfl, hrows, hlen, by simp, by simp⟩
  unfold FECReceiver.new
  simp only
  split_ifs
  · exact (hbase _ _ _ (by simp; omega)).extendColumnSeries (by simp) _
  · exact hbase _ _ _ (by simp; omega)

/-! ## What is solved -/

theorem extendRows_rebuilt (n : ℕ) (r : FECReceiver) : (extendRows n r).rebuilt = r.rebuilt := by
  induction n generalizing r with
  | zero => rfl
  | succ n ih => exact ih _

theorem getRowGroupIndex_rebuilt (r : FECReceiver) (seqNo : ℕ) :
    (r.getRowGroupIndex seqNo).1.rebuilt = r.rebuilt := by
  unfold getRowGroupIndex
  split
  · rfl
  · simp only
    split_ifs
    · rfl
    · rfl
    · exact extendRows_rebuilt _ r

theorem extendSeries_rebuilt (n : ℕ) (r : FECReceiver) :
    (extendSeries n r).rebuilt = r.rebuilt := by
  induction n generalizing r with
  | zero => rfl
  | succ n ih => exact ih _

theorem getColumnGroupIndex_rebuilt (r : FECReceiver) (seqNo : ℕ) :
    (r.getColumnGroupIndex seqNo).1.rebuilt = r.rebuilt := by
  unfold getColumnGroupIndex
  simp only
  split_ifs
  all_goals first | rfl | exact extendSeries_rebuilt _ r

theorem markCell_rebuilt (r : FECReceiver) (seqNo : ℕ) (received : Bool) :
    (r.markCell seqNo received).rebuilt = r.rebuilt := by
  unfold markCell
  split_ifs <;> rfl

theorem cleanCells_rebuilt (r : FECReceiver) : r.cleanCells.rebuilt = r.rebuilt := by
  unfold cleanCells
  split <;> rfl

def Numbered (r : FECReceiver) : Prop := ∀ rp ∈ r.rebuilt, Valid rp.seqNo

namespace Numbered

theorem congr (h : Numbered r) (heq : r'.rebuilt = r.rebuilt) : Numbered r' :=
  fun rp hrp => h rp (heq ▸ hrp)

theorem stable : Stable Numbered where
  markCell seqNo received h := h.congr (markCell_rebuilt _ seqNo received)
  cleanCells h := h.congr (cleanCells_rebuilt _)
  rows h _ := h.congr rfl
  columns h _ := h.congr rfl
  getRowGroupIndex seqNo h := h.congr (getRowGroupIndex_rebuilt _ seqNo)
  getColumnGroupIndex seqNo h := h.congr (getColumnGroupIndex_rebuilt _ seqNo)
  rebuilt h hseq := by
    intro rp hrp
    rcases List.mem_append.mp hrp with hold | hnew
    · exact h rp hold
    · rwa [List.mem_singleton.mp hnew]
  fullReset seqNo h := by
    refine h.congr ?_
    unfold FECReceiver.fullReset
    simp only
    split_ifs <;> rfl
  dropSeries h _ := h.congr rfl
  unmarkCell _ h := h.congr rfl

end Numbered

theorem recovered_receive (r : FECReceiver) (seqNo timestamp encFlag msgNo : ℕ) (payload : Bytes) :
    (r.receive seqNo timestamp encFlag msgNo payload).recovered = [] ∨
      (r.receive seqNo timestamp encFlag msgNo payload).recovered =
        (r.receive seqNo timestamp encFlag msgNo payload).receiver.rebuilt := by
  unfold receive
  simp only
  split_ifs
  · unfold receiveFEC
    split_ifs
    · exact .inl rfl
    · exact .inr rfl
    · exact .inr rfl
  · unfold receiveData
    split_ifs
    · exact .inl rfl
    · exact .inr rfl

theorem valid_of_mem_recovered (r : FECReceiver) (seqNo timestamp encFlag msgNo : ℕ)
    (payload : Bytes) {rp : RecoveredPacket}
    (hrp : rp ∈ (r.receive seqNo timestamp encFlag msgNo payload).recovered) :
    Valid rp.seqNo := by
  have hclear : Numbered { r with rebuilt := [] } := fun rp hrp => by simp at hrp
  have hdone := Numbered.stable.receive hclear seqNo timestamp encFlag msgNo payload
  rcases recovered_receive r seqNo timestamp encFlag msgNo payload with hnone | hall
  · simp [hnone] at hrp
  · exact hdone rp (hall ▸ hrp)

end FECReceiver

end SrtGo.Filter
