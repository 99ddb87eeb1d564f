import SrtGo.Filter.Config
import SrtGo.Packet.Cif

/-!
# The parity sender

The sender folds every data packet into the parity of its row and, in a matrix of
more than one row, of its column.  A group that is complete is sent as a repair
packet under the sequence number of its last member.
-/

namespace SrtGo.Filter

open Bytes SrtGo.Seq

def seqDiff (base s : ℕ) : ℤ := distance base s

/-- `base` moved on by an offset; the offset is cut to 32 bits by the addition. -/
def seqAdd (base offset : ℕ) : ℕ := Seq.add base offset

/-- The size of the repair header: the group index, the flag parity and the length
parity. -/
def extraHeaderSize : ℕ := 4

structure FecGroup where
  base : ℕ := 0
  step : ℕ := 0
  collected : ℕ := 0
  hasFEC : Bool := false
  lengthClip : ℕ := 0
  flagClip : ℕ := 0
  timestampClip : ℕ := 0
  payloadClip : Bytes := []
deriving DecidableEq, Repr, Inhabited

namespace FecGroup

def newGroup (base step payloadSize : ℕ) : FecGroup :=
  { base := base, step := step, payloadClip := List.replicate payloadSize 0 }

def reset (g : FecGroup) (newBase : ℕ) : FecGroup :=
  { base := newBase, step := g.step, payloadClip := List.replicate g.payloadClip.length 0 }

def clipData (g : FecGroup) (length flags timestamp : ℕ) (payload : Bytes) : FecGroup :=
  { g with
    lengthClip := g.lengthClip ^^^ length
    flagClip := g.flagClip ^^^ flags
    timestampClip := g.timestampClip ^^^ timestamp
    payloadClip := xorInto g.payloadClip payload }

/-- Fold a data packet into the parity; its length is kept in 16 bits. -/
def clipPacket (g : FecGroup) (payloadLen encFlag timestamp : ℕ) (payload : Bytes) : FecGroup :=
  g.clipData (payloadLen % 2 ^ 16) encFlag timestamp payload

def clipFECPacket (g : FecGroup) (timestamp : ℕ) (fecPayload : Bytes) : FecGroup :=
  if fecPayload.length < extraHeaderSize then g
  else
    g.clipData (uint16At fecPayload 2) (byteAt fecPayload 1) timestamp
      (fecPayload.drop extraHeaderSize)

def collect (g : FecGroup) (payloadLen encFlag timestamp : ℕ) (payload : Bytes) : FecGroup :=
  let g := g.clipPacket payloadLen encFlag timestamp payload
  { g with collected := g.collected + 1 }

end FecGroup

/-- The offsets of the column bases within one series of columns.  In the staircase
layout each column starts one row further down, wrapping after `rows` columns. -/
def columnBaseOffsets (cfg : Config) : List ℕ :=
  match cfg.layout with
  | .even => List.range cfg.cols
  | .staircase => staircase cfg.cols 0 0
where
  staircase : ℕ → ℕ → ℕ → List ℕ
    | 0, _, _ => []
    | n + 1, i, offset =>
      offset :: staircase n (i + 1)
        (if i % cfg.rows = cfg.rows - 1 then i + 1 else offset + (1 + cfg.cols))

structure PendingFEC where
  data : Bytes
  groupIndex : ℤ
  timestamp : ℕ
  seqNo : ℕ
deriving DecidableEq, Repr, Inhabited

/-- The parity sender.  `cols` is empty when there is only one row. -/
structure FECSender where
  cfg : Config
  payloadSize : ℕ
  row : FecGroup
  cols : List FecGroup := []
  sndBase : ℕ
  lastSeqNo : ℕ
  pendingFEC : List PendingFEC := []
deriving DecidableEq, Repr

/-- The number that an eight-bit signed group index stands for. -/
def int8 (n : ℕ) : ℤ := if n % 256 < 128 then (n % 256 : ℕ) else (n % 256 : ℕ) - 256

namespace FECSender

def new (cfg : Config) (payloadSize isn : ℕ) : FECSender :=
  { cfg := cfg
    payloadSize := payloadSize
    row := FecGroup.newGroup isn 1 payloadSize
    cols :=
      if 1 < cfg.rows then
        (columnBaseOffsets cfg).map fun off =>
          FecGroup.newGroup (seqAdd isn off) cfg.cols payloadSize
      else []
    sndBase := isn
    lastSeqNo := isn }

def sizeRow (s : FECSender) : ℕ := s.cfg.cols
def sizeCol (s : FECSender) : ℕ := s.cfg.rows
def matrixSize (s : FECSender) : ℕ := s.cfg.cols * s.cfg.rows

def resetRowForNext (s : FECSender) : FECSender :=
  let newBase := seqAdd s.row.base s.sizeRow
  { s with row := s.row.reset newBase, sndBase := newBase }

def resetColumnForNext (s : FECSender) (colIdx : ℕ) : FECSender :=
  { s with cols := s.cols.modify colIdx fun g => g.reset (seqAdd g.base s.matrixSize) }

def emitFEC (s : FECSender) (g : FecGroup) (groupIndex : ℕ) (lastDataSeqNo : ℕ) : FECSender :=
  { s with
    pendingFEC := s.pendingFEC ++
      [{ data := putBE 1 groupIndex ++ putBE 1 g.flagClip ++ putBE 2 g.lengthClip ++
           fit s.payloadSize g.payloadClip
         groupIndex := int8 groupIndex
         timestamp := g.timestampClip
         seqNo := lastDataSeqNo }] }

def column? (s : FECSender) (baseOff : ℤ) : Option ℕ :=
  let vertGX := baseOff.tmod s.sizeRow
  if s.sizeCol ≥ 2 ∧ 0 ≤ vertGX ∧ vertGX < s.cols.length then some vertGX.toNat else none

/-- Fold a packet into its column, starting the column's next group if the current
one is past. -/
def feedColumn (s : FECSender) (colIdx seqNo timestamp encFlag : ℕ) (payload : Bytes) :
    FECSender :=
  let vertOff := seqDiff (s.cols.getD colIdx {}).base seqNo
  if 0 ≤ vertOff then
    let s := if (s.sizeCol : ℤ) ≤ vertOff.tdiv s.sizeRow then s.resetColumnForNext colIdx else s
    { s with
      cols := s.cols.modify colIdx fun g => g.collect payload.length encFlag timestamp payload }
  else s

def closeColumn (s : FECSender) (colIdx seqNo : ℕ) : FECSender :=
  let g := s.cols.getD colIdx {}
  if s.sizeCol ≤ g.collected then (s.emitFEC g colIdx seqNo).resetColumnForNext colIdx else s

/-- Send the repair packet of the row if it is complete; its index is `-1`, the byte
`255`. -/
def closeRow (s : FECSender) (seqNo : ℕ) : FECSender :=
  if s.sizeRow ≤ s.row.collected then
    (if s.cfg.colsOnly then s else s.emitFEC s.row 255 seqNo).resetRowForNext
  else s

/-- Fold a data packet into its row and its column, and queue the repair packets of
the groups it completes. -/
def feedSource (s : FECSender) (seqNo timestamp encFlag : ℕ) (payload : Bytes) : FECSender :=
  let s := { s with pendingFEC := [], lastSeqNo := seqNo }
  let s := if (s.sizeRow : ℤ) ≤ seqDiff s.sndBase seqNo then s.resetRowForNext else s
  let baseOff := seqDiff s.sndBase seqNo
  let s := { s with row := s.row.collect payload.length encFlag timestamp payload }
  -- the column is closed first: closing the row moves the base that its index needs
  match s.column? baseOff with
  | none => s.closeRow seqNo
  | some colIdx =>
    ((s.feedColumn colIdx seqNo timestamp encFlag payload).closeColumn colIdx seqNo).closeRow seqNo

end FECSender

end SrtGo.Filter
