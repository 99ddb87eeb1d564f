import SrtGo.Filter.Sender

/-!
# The parity receiver

The receiver keeps the parity of every row and column it still follows, and a map of
the cells it has seen.  A group that has its repair packet and misses one member is
solved for that member, and the solution is folded into the group of the other
direction, which may be solved in turn.
-/

namespace SrtGo.Filter

open Bytes SrtGo.Seq

/-- The number of matrices the receiver follows before it starts over. -/
def fecMaxRcvHistory : ℕ := 10

structure RcvGroup extends FecGroup where
  dismissed : Bool := false
deriving DecidableEq, Repr, Inhabited

structure RecoveredPacket where
  seqNo : ℕ
  timestamp : ℕ
  encFlag : ℕ
  payload : Bytes
deriving DecidableEq, Repr, Inhabited

/-- The direction of a group; `single` is a row of a filter without columns. -/
inductive GroupType
  | horiz
  | vert
  | single
deriving DecidableEq, Repr

/-- The parity receiver.  The cells are the map of the sequence numbers seen. -/
structure FECReceiver where
  cfg : Config
  payloadSize : ℕ
  rowGroups : List RcvGroup := []
  colGroups : List RcvGroup := []
  colSeries : ℕ := 0
  colBaseISN : ℕ := 0
  colBaseOff : List ℕ := []
  cells : ℕ → Bool := fun _ => false
  cellBase : ℕ
  rebuilt : List RecoveredPacket := []

namespace RcvGroup

def new (base step payloadSize : ℕ) : RcvGroup :=
  { toFecGroup := FecGroup.newGroup base step payloadSize }

def hang (g : RcvGroup) (timestamp encFlag : ℕ) (payload : Bytes) : RcvGroup :=
  { g with toFecGroup := g.toFecGroup.collect payload.length encFlag timestamp payload }

def hangFEC (g : RcvGroup) (timestamp : ℕ) (fecPayload : Bytes) : RcvGroup :=
  { g with toFecGroup :=
      FecGroup.clipFECPacket { g.toFecGroup with hasFEC := true } timestamp fecPayload }

end RcvGroup

namespace FECReceiver

def sizeRow (r : FECReceiver) : ℕ := r.cfg.cols
def sizeCol (r : FECReceiver) : ℕ := r.cfg.rows
def matrixSize (r : FECReceiver) : ℕ := r.cfg.cols * r.cfg.rows

def extendColumnSeries (r : FECReceiver) (seriesBase : ℕ) : FECReceiver :=
  { r with
    colGroups := r.colGroups ++ (columnBaseOffsets r.cfg).map fun off =>
      RcvGroup.new (seqAdd seriesBase off) r.cfg.cols r.payloadSize
    colSeries := r.colSeries + 1 }

def new (cfg : Config) (payloadSize isn : ℕ) : FECReceiver :=
  let initialRows := if 1 < cfg.rows then cfg.rows + 1 else 2
  let r : FECReceiver :=
    { cfg := cfg
      payloadSize := payloadSize
      cellBase := isn
      rowGroups := (List.range initialRows).map fun i =>
        RcvGroup.new (seqAdd isn (i * cfg.cols)) 1 payloadSize }
  if 1 < cfg.rows then
    { r with colBaseISN := isn, colBaseOff := columnBaseOffsets cfg }.extendColumnSeries isn
  else r

/-! ## Cells -/

def markCell (r : FECReceiver) (seqNo : ℕ) (received : Bool) : FECReceiver :=
  if received then { r with cells := Function.update r.cells seqNo true } else r

def unmarkCell (r : FECReceiver) (seqNo : ℕ) : FECReceiver :=
  { r with cells := Function.update r.cells seqNo false }

def cleanCells (r : FECReceiver) : FECReceiver :=
  match r.rowGroups with
  | [] => r
  | g :: _ =>
    { r with
      cells := fun s => r.cells s && decide (0 ≤ seqDiff g.base s)
      cellBase := g.base }

/-! ## Finding a group -/

def extendRows : ℕ → FECReceiver → FECReceiver
  | 0, r => r
  | n + 1, r =>
    let nextBase := seqAdd (r.rowGroups.getLastD default).base r.sizeRow
    extendRows n { r with rowGroups := r.rowGroups ++ [RcvGroup.new nextBase 1 r.payloadSize] }

/-- The index of the row of a sequence number, after the rows have been extended to
reach it. -/
def getRowGroupIndex (r : FECReceiver) (seqNo : ℕ) : FECReceiver × Option ℕ :=
  match r.rowGroups with
  | [] => (r, none)
  | g :: _ =>
    let off := seqDiff g.base seqNo
    if off < 0 then (r, none)
    else
      let rowIdx := off.toNat / r.sizeRow
      if fecMaxRcvHistory * r.sizeCol ≤ rowIdx then (r, none)
      else (extendRows (rowIdx + 1 - r.rowGroups.length) r, some rowIdx)

def extendSeries : ℕ → FECReceiver → FECReceiver
  | 0, r => r
  | n + 1, r =>
    extendSeries n (r.extendColumnSeries (seqAdd r.colBaseISN (r.colSeries * r.matrixSize)))

/-- The number of series erased from the front, told from the base of the first
column. -/
def firstSeries (r : FECReceiver) : ℕ :=
  let firstSeriesOff := seqDiff r.colBaseISN (r.colGroups.getD 0 default).base
  if 0 < firstSeriesOff then firstSeriesOff.toNat / r.matrixSize else 0

def columnIndexIn (r : FECReceiver) (series colIdx : ℕ) : Option ℕ :=
  if series < r.firstSeries then none
  else
    let gIdx := (series - r.firstSeries) * r.cfg.cols + colIdx
    if gIdx < r.colGroups.length then some gIdx else none

/-- The index of the column of a sequence number, after the series have been extended
to reach it. -/
def getColumnGroupIndex (r : FECReceiver) (seqNo : ℕ) : FECReceiver × Option ℕ :=
  if r.colGroups = [] then (r, none)
  else
    let off := seqDiff r.colBaseISN seqNo
    if off < 0 then (r, none)
    else
      let colIdx := off.toNat % r.sizeRow
      let base := r.colBaseOff.getD colIdx 0
      -- a packet before the first base of its column belongs to no column
      if off.toNat < base then (r, none)
      else
        let series := (off.toNat - base) / r.matrixSize
        if r.colSeries ≤ series then
          if fecMaxRcvHistory < series + 1 then (r, none)
          else
            let r := extendSeries (series + 1 - r.colSeries) r
            (r, r.columnIndexIn series colIdx)
        else (r, r.columnIndexIn series colIdx)

def isColumnMember (r : FECReceiver) (g : RcvGroup) (seqNo : ℕ) : Bool :=
  let off := seqDiff g.base seqNo
  decide (0 ≤ off ∧ off.toNat % r.sizeRow = 0 ∧ off.toNat / r.sizeRow < r.sizeCol)

def rowMembers (r : FECReceiver) (g : RcvGroup) : List ℕ :=
  (List.range r.sizeRow).map fun i => seqAdd g.base i

def columnMembers (r : FECReceiver) (g : RcvGroup) : List ℕ :=
  (List.range r.sizeCol).map fun i => seqAdd g.base (i * r.sizeRow)

def findLostInRow (r : FECReceiver) (g : RcvGroup) : Option ℕ :=
  (r.rowMembers g).find? fun s => !r.cells s

def findLostInColumn (r : FECReceiver) (g : RcvGroup) : Option ℕ :=
  (r.columnMembers g).find? fun s => !r.cells s

/-! ## Solving a group -/

def solvableRow (r : FECReceiver) (rowIdx : ℕ) : Option (RcvGroup × ℕ) :=
  let g := r.rowGroups.getD rowIdx default
  if g.hasFEC ∧ g.collected = r.sizeRow - 1 then (r.findLostInRow g).map (g, ·) else none

def solvableColumn (r : FECReceiver) (colIdx : ℕ) : Option (RcvGroup × ℕ) :=
  let g := r.colGroups.getD colIdx default
  if g.hasFEC ∧ g.collected = r.sizeCol - 1 then (r.findLostInColumn g).map (g, ·) else none

def modifyRow (r : FECReceiver) (rowIdx : ℕ) (f : RcvGroup → RcvGroup) : FECReceiver :=
  { r with rowGroups := r.rowGroups.modify rowIdx f }

def modifyColumn (r : FECReceiver) (colIdx : ℕ) (f : RcvGroup → RcvGroup) : FECReceiver :=
  { r with colGroups := r.colGroups.modify colIdx f }

/-- Fold a solved packet into its row; the row is returned if it can now be solved. -/
def crossRebuildHorizontal (r : FECReceiver) (rp : RecoveredPacket) :
    FECReceiver × Option (RcvGroup × ℕ) :=
  match r.getRowGroupIndex rp.seqNo with
  | (r, none) => (r, none)
  | (r, some rowIdx) =>
    let r := r.modifyRow rowIdx fun g => g.hang rp.timestamp rp.encFlag rp.payload
    (r, r.solvableRow rowIdx)

def crossRebuildVertical (r : FECReceiver) (rp : RecoveredPacket) :
    FECReceiver × Option (RcvGroup × ℕ) :=
  match r.getColumnGroupIndex rp.seqNo with
  | (r, none) => (r, none)
  | (r, some colIdx) =>
    if r.isColumnMember (r.colGroups.getD colIdx default) rp.seqNo then
      let r := r.modifyColumn colIdx fun g => g.hang rp.timestamp rp.encFlag rp.payload
      (r, r.solvableColumn colIdx)
    else (r, none)

def solution (g : RcvGroup) (seqNo : ℕ) : RecoveredPacket :=
  { seqNo := seqNo
    timestamp := g.timestampClip
    encFlag := g.flagClip
    payload := g.payloadClip.take g.lengthClip }

def supply (r : FECReceiver) (rp : RecoveredPacket) : FECReceiver :=
  { r with rebuilt := r.rebuilt ++ [rp] }.markCell rp.seqNo true

/-- Solve a group, then the group of the other direction if that completes it, and so
on.  A length parity above the payload size shows a corrupted group. -/
def rebuildLoop : ℕ → FECReceiver → RcvGroup → ℕ → GroupType → FECReceiver
  | 0, r, _, _, _ => r
  | fuel + 1, r, g, seqNo, tp =>
    if r.payloadSize < g.lengthClip then r
    else
      let rp := solution g seqNo
      let r := r.supply rp
      match tp with
      | .single => r
      | .horiz =>
        match r.crossRebuildVertical rp with
        | (r, none) => r
        | (r, some (g, lost)) => rebuildLoop fuel r g lost .vert
      | .vert =>
        match r.crossRebuildHorizontal rp with
        | (r, none) => r
        | (r, some (g, lost)) => rebuildLoop fuel r g lost .horiz

/-- The number of groups that wait for members with their repair packet at hand: each
round of the rebuilding takes one of them. -/
def waiting (r : FECReceiver) : ℕ :=
  r.rowGroups.countP (fun g => g.hasFEC && decide (g.collected < r.sizeRow - 1)) +
    r.colGroups.countP (fun g => g.hasFEC && decide (g.collected < r.sizeCol - 1))

def rebuild (r : FECReceiver) (g : RcvGroup) (seqNo : ℕ) (tp : GroupType) : FECReceiver :=
  rebuildLoop (r.waiting + 1) r g seqNo tp

def solveRow (r : FECReceiver) (rowIdx : ℕ) : FECReceiver :=
  match r.solvableRow rowIdx with
  | none => r
  | some (g, lost) => r.rebuild g lost (if r.cfg.rows ≤ 1 then .single else .horiz)

def solveColumn (r : FECReceiver) (colIdx : ℕ) : FECReceiver :=
  match r.solvableColumn colIdx with
  | none => r
  | some (g, lost) => r.rebuild g lost .vert

/-! ## Placing a packet -/

/-- Place a data packet in its row; the flag tells whether there is one. -/
def hangHorizontalData (r : FECReceiver) (seqNo timestamp encFlag : ℕ) (payload : Bytes) :
    FECReceiver × Bool :=
  match r.getRowGroupIndex seqNo with
  | (r, none) => (r, false)
  | (r, some rowIdx) =>
    ((r.modifyRow rowIdx fun g => g.hang timestamp encFlag payload).solveRow rowIdx, true)

def hangHorizontalFEC (r : FECReceiver) (seqNo timestamp : ℕ) (fecPayload : Bytes) :
    FECReceiver :=
  match r.getRowGroupIndex seqNo with
  | (r, none) => r
  | (r, some rowIdx) =>
    if (r.rowGroups.getD rowIdx default).hasFEC then r
    else (r.modifyRow rowIdx fun g => g.hangFEC timestamp fecPayload).solveRow rowIdx

def hangVerticalData (r : FECReceiver) (seqNo timestamp encFlag : ℕ) (payload : Bytes) :
    FECReceiver × Bool :=
  match r.getColumnGroupIndex seqNo with
  | (r, none) => (r, false)
  | (r, some colIdx) =>
    if r.isColumnMember (r.colGroups.getD colIdx default) seqNo then
      ((r.modifyColumn colIdx fun g => g.hang timestamp encFlag payload).solveColumn colIdx, true)
    else (r, false)

/-- Place the repair packet of a column; a second one is ignored.  The column is found
from the sequence number, not from the index in the repair header. -/
def hangVerticalFEC (r : FECReceiver) (seqNo timestamp : ℕ) (fecPayload : Bytes) :
    FECReceiver :=
  match r.getColumnGroupIndex seqNo with
  | (r, none) => r
  | (r, some colIdx) =>
    if (r.colGroups.getD colIdx default).hasFEC then r
    else (r.modifyColumn colIdx fun g => g.hangFEC timestamp fecPayload).solveColumn colIdx

/-! ## Leaving groups behind -/

/-- Start over at the row that contains `seqNo`, with the rows counted from zero. -/
def fullReset (r : FECReceiver) (seqNo : ℕ) : FECReceiver :=
  let rowSize := if r.sizeRow = 0 then 1 else r.sizeRow
  let newBase := seqNo - seqNo % rowSize
  let r := { r with
    rowGroups := [RcvGroup.new newBase 1 r.payloadSize]
    colGroups := []
    colSeries := 0
    colBaseISN := newBase }
  let r := if 1 < r.cfg.rows then r.extendColumnSeries newBase else r
  { r with cells := fun _ => false }

def trimRows (seqNo threshold : ℕ) : ℕ → FECReceiver → FECReceiver
  | 0, r => r
  | fuel + 1, r =>
    match r.rowGroups with
    | g :: g' :: rest =>
      if (threshold : ℤ) ≤ seqDiff g.base seqNo then
        trimRows seqNo threshold fuel (cleanCells { r with rowGroups := g' :: rest })
      else r
    | _ => r

def trimSeries (minHistory : ℕ) : ℕ → FECReceiver → FECReceiver
  | 0, r => r
  | fuel + 1, r =>
    if minHistory < r.colSeries ∧ r.cfg.cols < r.colGroups.length then
      trimSeries minHistory fuel
        { r with colGroups := r.colGroups.drop r.cfg.cols, colSeries := r.colSeries - 1 }
    else r

def trimThreshold (r : FECReceiver) : ℕ :=
  if r.cfg.rows ≤ 1 then r.sizeRow * 2 else r.matrixSize * 2

def minSeriesHistory (r : FECReceiver) : ℕ :=
  match r.cfg.layout with
  | .staircase => 4
  | .even => 2

def resets (r : FECReceiver) (seqNo : ℕ) : Bool :=
  match r.rowGroups with
  | [] => false
  | g :: _ =>
    let off := seqDiff g.base seqNo
    decide (0 ≤ off ∧ 0 < r.matrixSize ∧ fecMaxRcvHistory ≤ off.toNat / r.matrixSize)

/-- Leave old groups behind when a packet arrives ahead of them. -/
def checkLargeDrop (r : FECReceiver) (seqNo : ℕ) : FECReceiver :=
  match r.rowGroups with
  | [] => r
  | g :: _ =>
    if seqDiff g.base seqNo < 0 then r
    else if r.resets seqNo then r.fullReset seqNo
    else
      let r := trimRows seqNo r.trimThreshold r.rowGroups.length r
      if 1 < r.cfg.rows then trimSeries r.minSeriesHistory r.colGroups.length r else r

/-- A column is past once `seq` is a matrix (two for the staircase) beyond its base and
beyond its last member. -/
def columnPast (r : FECReceiver) (seq : ℕ) (g : RcvGroup) : Bool :=
  let mindist := match r.cfg.layout with
    | .staircase => r.matrixSize * 2
    | .even => r.matrixSize
  let colOffset := seqDiff g.base seq
  let lastMemberSpan := (r.sizeCol - 1) * r.sizeRow
  !g.dismissed && decide ((mindist : ℤ) ≤ colOffset ∧ (lastMemberSpan : ℤ) ≤ colOffset)

def dismissOldColumns (r : FECReceiver) (seq : ℕ) : FECReceiver × List ℕ :=
  ({ r with colGroups := r.colGroups.map fun g =>
      if r.columnPast seq g then { g with dismissed := true } else g },
    (r.colGroups.filter (r.columnPast seq)).flatMap fun g =>
      ((List.range r.sizeCol).map fun i => seqAdd g.base (i * g.step)).filter fun s => !r.cells s)

def dismissedRows (r : FECReceiver) : ℕ :=
  if r.rowGroups.length < 2 then 0
  else if r.rowGroups.length = 2 then
    -- with two rows the second must be a third full
    let last := r.rowGroups.getD 1 default
    let progress := seqDiff last.base (seqAdd last.base last.collected)
    if progress ≤ (r.sizeRow / 3 : ℕ) then 0 else 1
  else r.rowGroups.length - 2

/-- On request, dismiss the oldest rows and list their members that are missing. -/
def collectLossReport (r : FECReceiver) : FECReceiver × List ℕ :=
  match r.cfg.arq with
  | .always => (r, [])
  | .never => (r, [])
  | .onReq =>
    let nRemove := r.dismissedRows
    let losses := ((r.rowGroups.take nRemove).filter fun g => !g.dismissed).flatMap fun g =>
      (r.rowMembers g).filter fun s => !r.cells s
    if 0 < nRemove then (cleanCells { r with rowGroups := r.rowGroups.drop nRemove }, losses)
    else (r, losses)

/-! ## Receiving -/

structure Received where
  receiver : FECReceiver
  recovered : List RecoveredPacket := []
  lossReport : List ℕ := []
  passThrough : Bool

/-- The losses of dismissed columns are reported only when asked for. -/
def onRequest (r : FECReceiver) (losses : List ℕ) : List ℕ :=
  match r.cfg.arq with
  | .onReq => losses
  | .always => []
  | .never => []

def receiveFEC (r : FECReceiver) (seqNo timestamp : ℕ) (payload : Bytes) : Received :=
  if payload.length < extraHeaderSize then { receiver := r, passThrough := false }
  else if int8 (byteAt payload 0) = -1 then
    let (r, rowLosses) := (r.hangHorizontalFEC seqNo timestamp payload).collectLossReport
    { receiver := r, recovered := r.rebuilt, lossReport := rowLosses, passThrough := false }
  else
    let (r, colLosses) := (r.hangVerticalFEC seqNo timestamp payload).dismissOldColumns seqNo
    let (r, rowLosses) := r.collectLossReport
    { receiver := r
      recovered := r.rebuilt
      lossReport := r.onRequest colLosses ++ rowLosses
      passThrough := false }

def receiveData (r : FECReceiver) (seqNo timestamp encFlag : ℕ) (payload : Bytes) : Received :=
  if seqDiff r.cellBase seqNo < 0 ∨ r.cells seqNo then { receiver := r, passThrough := true }
  else
    let (r, okH) := (r.markCell seqNo true).hangHorizontalData seqNo timestamp encFlag payload
    let (r, okV, colLosses) :=
      if 1 < r.cfg.rows then
        let (r, okV) := r.hangVerticalData seqNo timestamp encFlag payload
        let (r, colLosses) := r.dismissOldColumns seqNo
        (r, okV, r.onRequest colLosses)
      else (r, true, [])
    let r := if !okH && !okV then r.unmarkCell seqNo else r
    { receiver := r, recovered := r.rebuilt, lossReport := colLosses, passThrough := true }

/-- Receive a packet; message number zero marks a repair packet. -/
def receive (r : FECReceiver) (seqNo timestamp encFlag msgNo : ℕ) (payload : Bytes) : Received :=
  let r := { r with rebuilt := [] }.checkLargeDrop seqNo
  if msgNo = 0 then (r.markCell seqNo false).receiveFEC seqNo timestamp payload
  else r.receiveData seqNo timestamp encFlag payload

end FECReceiver

end SrtGo.Filter
