import SrtGo.Filter.Receiver

/-!
# What the sender protects

Packets are fed in order, so the groups of the sender are known from the number of
packets fed: its row holds the packets since the last multiple of the row length, and
each of its columns the packets of that column since the column's base.  A packet goes
into the column that the receiver looks for it in, and the repair packet of a column is
sent with the last of its members.
-/

namespace SrtGo.Filter

open Bytes SrtGo.Seq FECSender

def num (isn n : ℕ) : ℕ := wrap (isn + n)

theorem seqAdd_num (isn n k : ℕ) : seqAdd (num isn n) k = num isn (n + k) := by
  rw [seqAdd, num, add_wrap, num, Nat.add_assoc]

variable {n i rows : ℕ}

theorem seqDiff_num (isn : ℕ) {m : ℕ} (hmn : m < n + 2 ^ 30) (hnm : n < m + 2 ^ 30) :
    seqDiff (num isn m) (num isn n) = (n : ℤ) - m := by
  rw [seqDiff, num, num, distance_wrap (by omega) (by omega)]
  push_cast
  ring

theorem seqDiff_num_le (isn : ℕ) {m : ℕ} (hmn : m ≤ n) : seqDiff (num isn m) (num isn n) ≤
    (n : ℤ) - m := by
  unfold seqDiff num distance wrap threshold maxNumber int32
  simp only
  split_ifs <;> omega

theorem seqDiff_num_period (isn m k : ℕ) : seqDiff (num isn m) (num isn (m + k * 2 ^ 31)) = 0 := by
  have hsame : num isn (m + k * 2 ^ 31) = num isn m := by
    unfold num wrap
    omega
  rw [hsame, seqDiff, distance, if_pos rfl]

structure Sent where
  timestamp : ℕ
  encFlag : ℕ
  msgNo : ℕ
  payload : Bytes
deriving DecidableEq, Repr, Inhabited

def FecGroup.repairData (payloadSize : ℕ) (g : FecGroup) (groupIndex : ℕ) : Bytes :=
  putBE 1 groupIndex ++ putBE 1 g.flagClip ++ putBE 2 g.lengthClip ++ fit payloadSize g.payloadClip

/-! ## The columns of a series -/

theorem succ_mod (hrows : 0 < rows) : (i + 1) % rows = if i % rows = rows - 1 then 0 else
    i % rows + 1 := by
  have hlt := Nat.mod_lt i hrows
  rw [← Nat.mod_add_mod]
  split_ifs with hlast
  · rw [hlast, Nat.sub_add_cancel hrows, Nat.mod_self]
  · exact Nat.mod_eq_of_lt (by omega)

/-- In the staircase layout column `i` starts `i % rows` rows down. -/
theorem staircase_eq (cfg : Config) (hrows : 0 < cfg.rows) (n i : ℕ) :
    columnBaseOffsets.staircase cfg n i (i + i % cfg.rows * cfg.cols) =
      (List.range' i n).map fun j => j + j % cfg.rows * cfg.cols := by
  induction n generalizing i with
  | zero => rfl
  | succ n ih =>
    have hnext : (if i % cfg.rows = cfg.rows - 1 then i + 1
        else i + i % cfg.rows * cfg.cols + (1 + cfg.cols)) =
        (i + 1) + (i + 1) % cfg.rows * cfg.cols := by
      rw [succ_mod hrows]
      split_ifs <;> ring
    rw [columnBaseOffsets.staircase, hnext, ih, List.range'_succ, List.map_cons]

variable {cfg : Config} {c off : ℕ}

theorem columnBaseOffsets_eq (hrows : 0 < cfg.rows) : columnBaseOffsets cfg =
    (List.range cfg.cols).map fun j =>
      match cfg.layout with
      | .even => j
      | .staircase => j + j % cfg.rows * cfg.cols := by
  unfold columnBaseOffsets
  cases cfg.layout with
  | even => simp
  | staircase =>
    have hstart := staircase_eq cfg hrows cfg.cols 0
    rw [Nat.zero_mod, Nat.zero_mul] at hstart
    rw [hstart, List.range_eq_range']

theorem exists_columnBaseOffset (hrows : 0 < cfg.rows) (hc : c < cfg.cols) :
    ∃ m < cfg.rows, (columnBaseOffsets cfg)[c]? = some (c + m * cfg.cols) := by
  rw [columnBaseOffsets_eq hrows, List.getElem?_map, List.getElem?_range hc]
  cases cfg.layout with
  | even => exact ⟨0, hrows, by simp⟩
  | staircase => exact ⟨c % cfg.rows, Nat.mod_lt c hrows, rfl⟩

theorem length_columnBaseOffsets (hrows : 0 < cfg.rows) : (columnBaseOffsets cfg).length =
    cfg.cols := by
  rw [columnBaseOffsets_eq hrows, List.length_map, List.length_range]

theorem columnBaseOffset_lt (hrows : 0 < cfg.rows) (hoff : off ∈ columnBaseOffsets cfg) :
    off < cfg.cols * cfg.rows := by
  obtain ⟨c, hc⟩ := List.mem_iff_getElem?.mp hoff
  have hlt : c < cfg.cols := by
    rw [← length_columnBaseOffsets hrows]
    exact (List.getElem?_eq_some_iff.mp hc).1
  obtain ⟨m, hm, hat⟩ := exists_columnBaseOffset hrows hlt
  obtain rfl : off = c + m * cfg.cols := Option.some.inj (hc.symm.trans hat)
  calc c + m * cfg.cols < (m + 1) * cfg.cols := by rw [Nat.add_mul]; omega
    _ ≤ cfg.rows * cfg.cols := Nat.mul_le_mul_right _ hm
    _ = cfg.cols * cfg.rows := Nat.mul_comm _ _

def columnOffset (cfg : Config) (c : ℕ) : ℕ := (columnBaseOffsets cfg).getD c 0

theorem columnOffset_of_getElem? (h : (columnBaseOffsets cfg)[c]? = some off) :
    columnOffset cfg c = off := by
  rw [columnOffset, List.getD_eq_getElem?_getD, h]
  rfl

theorem exists_columnOffset (hrows : 0 < cfg.rows) (hc : c < cfg.cols) :
    ∃ m < cfg.rows, columnOffset cfg c = c + m * cfg.cols := by
  obtain ⟨m, hm, hat⟩ := exists_columnBaseOffset hrows hc
  exact ⟨m, hm, columnOffset_of_getElem? hat⟩

theorem columnOffset_lt (hrows : 0 < cfg.rows) (hc : c < cfg.cols) :
    columnOffset cfg c < cfg.cols * cfg.rows := by
  obtain ⟨m, -, hat⟩ := exists_columnBaseOffset hrows hc
  rw [columnOffset_of_getElem? hat]
  exact columnBaseOffset_lt hrows (List.mem_of_getElem? hat)

/-! ## What is queued

The source feeds a packet in one pass over its row and its column.  Here the pass is taken apart:
the packet enters its row, then its column, and each of the two that is full is closed and leaves
one repair packet.  So the queue after a packet is what its column gives, followed by what its row
gives.
-/

def Sent.into (p : Sent) (g : FecGroup) : FecGroup :=
  g.collect p.payload.length p.encFlag p.timestamp p.payload

variable {s : FECSender} {seqNo cols : ℕ} {p : Sent}

namespace FECSender

def feed (s : FECSender) (seqNo : ℕ) (p : Sent) : FECSender :=
  s.feedSource seqNo p.timestamp p.encFlag p.payload

def enterRow (s : FECSender) (seqNo : ℕ) (p : Sent) : FECSender :=
  let s := { s with pendingFEC := [], lastSeqNo := seqNo }
  let s := if (s.sizeRow : ℤ) ≤ seqDiff s.sndBase seqNo then s.resetRowForNext else s
  { s with row := p.into s.row }

def repair (s : FECSender) (g : FecGroup) (index seqNo : ℕ) : PendingFEC :=
  { data := g.repairData s.payloadSize index
    groupIndex := int8 index
    timestamp := g.timestampClip
    seqNo := seqNo }

def columnRepair (s : FECSender) (c seqNo : ℕ) : List PendingFEC :=
  if s.sizeCol ≤ (s.cols.getD c {}).collected then [s.repair (s.cols.getD c {}) c seqNo] else []

def rowRepair (s : FECSender) (seqNo : ℕ) : List PendingFEC :=
  if s.sizeRow ≤ s.row.collected then
    if s.cfg.colsOnly then [] else [s.repair s.row 255 seqNo]
  else []

def columnOf (s : FECSender) (seqNo : ℕ) (p : Sent) : Option ℕ :=
  (s.enterRow seqNo p).column? (seqDiff (s.enterRow seqNo p).sndBase seqNo)

/-- What the sender makes of its column when a packet is fed. -/
def columnRepairs (s : FECSender) (seqNo : ℕ) (p : Sent) : List PendingFEC :=
  (s.columnOf seqNo p).elim [] fun c =>
    ((s.enterRow seqNo p).feedColumn c seqNo p.timestamp p.encFlag p.payload).columnRepair c seqNo

def rowRepairs (s : FECSender) (seqNo : ℕ) (p : Sent) : List PendingFEC :=
  (s.enterRow seqNo p).rowRepair seqNo

theorem feedColumn_eq (s : FECSender) (c seqNo ts flag : ℕ) (payload : Bytes) :
    s.feedColumn c seqNo ts flag payload =
      { s with cols := (s.feedColumn c seqNo ts flag payload).cols } := by
  unfold feedColumn resetColumnForNext
  simp only
  split_ifs <;> rfl

theorem exists_cols_feedColumn (s : FECSender) (c seqNo ts flag : ℕ) (payload : Bytes) :
    ∃ f, (s.feedColumn c seqNo ts flag payload).cols = s.cols.modify c f := by
  unfold feedColumn resetColumnForNext
  simp only
  split_ifs
  · exact ⟨_, List.modify_modify_eq _ _ _ _⟩
  · exact ⟨_, rfl⟩
  · exact ⟨id, (List.modify_id _ _).symm⟩

theorem closeColumn_eq (s : FECSender) (c seqNo : ℕ) :
    s.closeColumn c seqNo =
      { s with
        cols := if s.sizeCol ≤ (s.cols.getD c {}).collected then
            s.cols.modify c fun g => g.reset (seqAdd g.base s.matrixSize)
          else s.cols
        pendingFEC := s.pendingFEC ++ s.columnRepair c seqNo } := by
  unfold closeColumn columnRepair
  simp only
  split_ifs
  · rfl
  · rw [List.append_nil]

theorem closeRow_eq (s : FECSender) (seqNo : ℕ) :
    s.closeRow seqNo =
      { s with
        row := if s.sizeRow ≤ s.row.collected then
          s.row.reset (seqAdd s.row.base s.sizeRow) else s.row
        sndBase := if s.sizeRow ≤ s.row.collected then seqAdd s.row.base s.sizeRow else s.sndBase
        pendingFEC := s.pendingFEC ++ s.rowRepair seqNo } := by
  unfold closeRow rowRepair
  cases s.cfg.colsOnly <;> split_ifs <;>
    simp_all [resetRowForNext, emitFEC, repair, sizeRow, FecGroup.repairData]

/-- A packet goes into its row and its column; then the column is closed, and the row. -/
theorem feed_eq (s : FECSender) (seqNo : ℕ) (p : Sent) :
    s.feed seqNo p = (s.columnOf seqNo p).elim ((s.enterRow seqNo p).closeRow seqNo) fun c =>
      (((s.enterRow seqNo p).feedColumn c seqNo p.timestamp p.encFlag p.payload).closeColumn c
        seqNo).closeRow seqNo := by
  unfold feed feedSource
  simp only
  split
  · rename_i hnone
    rw [show s.columnOf seqNo p = none from hnone]
    rfl
  · rename_i c hsome
    rw [show s.columnOf seqNo p = some c from hsome]
    rfl

@[simp] theorem pendingFEC_enterRow (s : FECSender) (seqNo : ℕ) (p : Sent) :
    (s.enterRow seqNo p).pendingFEC = [] := by
  unfold enterRow resetRowForNext
  simp only
  split_ifs <;> rfl

@[simp] theorem cols_enterRow (s : FECSender) (seqNo : ℕ) (p : Sent) :
    (s.enterRow seqNo p).cols = s.cols := by
  unfold enterRow resetRowForNext
  simp only
  split_ifs <;> rfl

theorem pendingFEC_feed (s : FECSender) (seqNo : ℕ) (p : Sent) :
    (s.feed seqNo p).pendingFEC = s.columnRepairs seqNo p ++ s.rowRepairs seqNo p := by
  rw [feed_eq]
  unfold columnRepairs rowRepairs
  cases s.columnOf seqNo p with
  | none => rw [Option.elim_none, closeRow_eq, pendingFEC_enterRow, Option.elim_none]
  | some c =>
    rw [Option.elim_some, Option.elim_some, closeRow_eq, closeColumn_eq]
    set entered := s.enterRow seqNo p with hentered
    obtain ⟨cols, hfed⟩ : ∃ cols, entered.feedColumn c seqNo p.timestamp p.encFlag p.payload =
      { entered with cols := cols } := ⟨_, feedColumn_eq _ _ _ _ _ _⟩
    rw [hfed]
    show entered.pendingFEC ++ _ ++ _ = _
    rw [hentered, pendingFEC_enterRow, List.nil_append]
    rfl

theorem exists_cols_feed (s : FECSender) (seqNo : ℕ) (p : Sent) :
    ∃ f, (s.feed seqNo p).cols = (s.columnOf seqNo p).elim s.cols fun c => s.cols.modify c f := by
  rw [feed_eq]
  cases s.columnOf seqNo p with
  | none => exact ⟨id, by rw [Option.elim_none, Option.elim_none, closeRow_eq, cols_enterRow]⟩
  | some c =>
    obtain ⟨f, hfed⟩ := exists_cols_feedColumn (s.enterRow seqNo p) c seqNo p.timestamp p.encFlag
      p.payload
    rw [cols_enterRow] at hfed
    rw [Option.elim_some, closeRow_eq, closeColumn_eq, hfed]
    simp only [Option.elim_some]
    split_ifs
    · exact ⟨_, List.modify_modify_eq _ _ _ _⟩
    · exact ⟨f, rfl⟩

theorem length_cols_feed (s : FECSender) (seqNo : ℕ) (p : Sent) :
    (s.feed seqNo p).cols.length = s.cols.length := by
  obtain ⟨f, hf⟩ := s.exists_cols_feed seqNo p
  rw [hf]
  cases s.columnOf seqNo p with
  | none => rfl
  | some c => exact List.length_modify _ _ _

theorem getElem?_cols_feed {d : ℕ} (h : s.columnOf seqNo p ≠ some d) :
    (s.feed seqNo p).cols[d]? = s.cols[d]? := by
  obtain ⟨f, hf⟩ := s.exists_cols_feed seqNo p
  rw [hf]
  cases hcolumn : s.columnOf seqNo p with
  | none => rfl
  | some c =>
    refine List.getElem?_modify_ne _ _ fun hcd => h ?_
    rw [hcolumn, hcd]

end FECSender

/-! ## Rows and columns told apart

The receiver tells a repair packet of a row by its first byte, in which the sender puts
the index of the column otherwise.
-/

/-- The receiver takes the repair packet for one of a row. -/
def TakenForRow (payload : Bytes) : Prop := int8 (byteAt payload 0) = -1

theorem takenForRow_repairData (g : FecGroup) (payloadSize index : ℕ) :
    TakenForRow (g.repairData payloadSize index) ↔ index % 256 = 255 := by
  have hbyte : byteAt (g.repairData payloadSize index) 0 = index % 256 := by
    rw [FecGroup.repairData, List.append_assoc, List.append_assoc, byteAt, List.drop_zero,
      List.take_left' (length_putBE 1 _), readBE_putBE, pow_one]
  rw [TakenForRow, hbyte, int8, Nat.mod_mod]
  constructor <;> intro h <;> split_ifs at * <;> omega

namespace FECSender

variable {fp : PendingFEC}

theorem takenForRow_of_mem_rowRepairs (h : fp ∈ s.rowRepairs seqNo p) : TakenForRow fp.data := by
  unfold rowRepairs rowRepair at h
  split_ifs at h
  · cases h
  · rw [List.mem_singleton.mp h]
    exact (takenForRow_repairData _ _ _).mpr rfl
  · cases h

theorem exists_of_mem_columnRepairs (h : fp ∈ s.columnRepairs seqNo p) :
    ∃ c < s.cols.length, ∃ g payloadSize, fp.data = FecGroup.repairData payloadSize g c := by
  unfold columnRepairs at h
  cases hcolumn : s.columnOf seqNo p with
  | none =>
    rw [hcolumn] at h
    cases h
  | some c =>
    rw [hcolumn, Option.elim_some, columnRepair] at h
    split_ifs at h
    · refine ⟨c, ?_, _, _, congrArg PendingFEC.data (List.mem_singleton.mp h)⟩
      unfold columnOf column? at hcolumn
      simp only at hcolumn
      split_ifs at hcolumn with hc
      rw [← cols_enterRow s seqNo p, ← Option.some.inj hcolumn]
      omega
    · cases h

def feedAll (s : FECSender) (packets : List (ℕ × Sent)) : FECSender :=
  packets.foldl (fun s packet => s.feed packet.1 packet.2) s

theorem length_cols_feedAll (s : FECSender) (packets : List (ℕ × Sent)) :
    (s.feedAll packets).cols.length = s.cols.length := by
  induction packets generalizing s with
  | nil => rfl
  | cons packet packets ih => exact (ih _).trans (length_cols_feed s packet.1 packet.2)

theorem length_cols_new (cfg : Config) (payloadSize isn : ℕ) :
    (new cfg payloadSize isn).cols.length = if 1 < cfg.rows then cfg.cols else 0 := by
  unfold new
  simp only
  split_ifs with hrows
  · rw [List.length_map, length_columnBaseOffsets (by omega)]
  · rfl

/-- What is queued with a packet is told apart: the receiver takes the repair packet of the row for
one of a row, and none of the others. -/
def ToldApart (s : FECSender) (seqNo : ℕ) (p : Sent) : Prop :=
  (s.feed seqNo p).pendingFEC = s.columnRepairs seqNo p ++ s.rowRepairs seqNo p ∧
    (∀ fp ∈ s.rowRepairs seqNo p, TakenForRow fp.data) ∧
    ∀ fp ∈ s.columnRepairs seqNo p, ¬TakenForRow fp.data

theorem toldApart_of_length (hfew : s.cols.length ≤ 255) (seqNo : ℕ) (p : Sent) :
    s.ToldApart seqNo p := by
  refine ⟨pendingFEC_feed s seqNo p, fun fp hfp => takenForRow_of_mem_rowRepairs hfp,
    fun fp hfp => ?_⟩
  obtain ⟨c, hc, g, size, hdata⟩ := exists_of_mem_columnRepairs hfp
  rw [hdata, takenForRow_repairData]
  omega

theorem length_cols_new_le (hcfg : cfg.rows ≤ 1 ∨ cfg.cols ≤ 255) (payloadSize isn : ℕ) :
    (new cfg payloadSize isn).cols.length ≤ 255 := by
  rw [length_cols_new]
  split_ifs <;> omega

end FECSender

/-! ## Where the packets go

The groups are known from the number `n` of packets fed.  The row has base `n / cols * cols` and
holds `n % cols` packets.  A column with offset `off` has had `held cols off n` packets, and every
`rows` of them filled a group, whose successor starts a whole matrix further on.  `RowAt` and
`SenderAt` say this of a sender.  One packet keeps them, and so does a stream.
-/

/-- How many packets of a column that starts at place `off` are among the first `n`. -/
def held (cols off n : ℕ) : ℕ := (n + cols - 1 - off) / cols

theorem held_of_le (hcols : 0 < cols) (h : n ≤ off) : held cols off n = 0 :=
  Nat.div_eq_of_lt (by omega)

theorem held_member (hcols : 0 < cols) (off x : ℕ) :
    held cols off (off + x * cols) = x ∧ held cols off (off + x * cols + 1) = x + 1 := by
  constructor
  · rw [held, show off + x * cols + cols - 1 - off = cols - 1 + x * cols by omega,
      Nat.add_mul_div_right _ _ hcols, Nat.div_eq_of_lt (by omega), Nat.zero_add]
  · rw [held, show off + x * cols + 1 + cols - 1 - off = (x + 1) * cols by rw [Nat.add_mul]; omega,
      Nat.mul_div_cancel _ hcols]

theorem held_other (hne : n % cols ≠ off % cols) : held cols off (n + 1) = held cols off n := by
  unfold held
  by_cases hstarted : off < n + cols
  · rw [show n + 1 + cols - 1 - off = n + cols - 1 - off + 1 by omega, Nat.succ_div, if_neg,
      Nat.add_zero]
    rintro ⟨y, hy⟩
    have hplaces : n + cols = off + cols * y := by omega
    have hmod := congrArg (· % cols) hplaces
    simp only [Nat.add_mod_right, Nat.add_mul_mod_self_left] at hmod
    exact hne hmod
  · rw [show n + 1 + cols - 1 - off = 0 by omega, show n + cols - 1 - off = 0 by omega]

theorem succ_div_mod (hrows : 0 < rows) (x : ℕ) :
    x % rows + 1 = rows ∧ (x + 1) / rows = x / rows + 1 ∧ (x + 1) % rows = 0 ∨
      x % rows + 1 < rows ∧ (x + 1) / rows = x / rows ∧ (x + 1) % rows = x % rows + 1 := by
  have hlt := Nat.mod_lt x hrows
  have hx := Nat.div_add_mod x rows
  by_cases hfull : x % rows + 1 = rows
  · refine .inl ⟨hfull, ?_, ?_⟩
    · exact Nat.div_eq_of_lt_le (by rw [Nat.add_mul, Nat.mul_comm]; omega)
        (by rw [Nat.add_mul, Nat.add_mul, Nat.mul_comm]; omega)
    · rw [succ_mod hrows, if_pos (by omega)]
  · refine .inr ⟨by omega, ?_, ?_⟩
    · exact Nat.div_eq_of_lt_le (by rw [Nat.mul_comm]; omega)
        (by rw [Nat.add_mul, Nat.mul_comm]; omega)
    · rw [succ_mod hrows, if_neg (by omega)]

section Sender

variable (cfg : Config) (payloadSize isn : ℕ) (stream : ℕ → Sent)

structure Holds (a count : ℕ) (g : FecGroup) : Prop where
  base : g.base = num isn a
  collected : g.collected = count

/-- Column `c` after `n` packets: it has collected those of its packets that are past, since the
last of its groups was full. -/
def ColumnAt (n c : ℕ) (g : FecGroup) : Prop :=
  Holds isn
    (columnOffset cfg c + held cfg.cols (columnOffset cfg c) n / cfg.rows * (cfg.cols * cfg.rows))
    (held cfg.cols (columnOffset cfg c) n % cfg.rows) g

/-- The sender after `n` packets, but for what is in its columns. -/
structure RowAt (n : ℕ) (s : FECSender) : Prop where
  config : s.cfg = cfg
  size : s.payloadSize = payloadSize
  base : s.sndBase = s.row.base
  row : Holds isn (n / cfg.cols * cfg.cols) (n % cfg.cols) s.row
  length : s.cols.length = if 1 < cfg.rows then cfg.cols else 0

structure SenderAt (n : ℕ) (s : FECSender) : Prop extends RowAt cfg payloadSize isn n s where
  column : ∀ c g, s.cols[c]? = some g → ColumnAt cfg isn n c g

def senderAfter : ℕ → FECSender
  | 0 => FECSender.new cfg payloadSize isn
  | n + 1 => (senderAfter n).feed (num isn n) (stream n)

variable {cfg payloadSize isn stream} {g : FecGroup}

theorem senderAfter_eq_feedAll (n : ℕ) : senderAfter cfg payloadSize isn stream n =
    (FECSender.new cfg payloadSize isn).feedAll ((List.range n).map fun k => (num isn k,
      stream k)) := by
  induction n with
  | zero => rfl
  | succ n ih =>
    rw [senderAfter, ih, List.range_succ, List.map_append, feedAll, feedAll, List.foldl_append]
    rfl

theorem Holds.reset {a count : ℕ} (h : Holds isn a count g) (k : ℕ) :
    Holds isn (a + k) 0 (g.reset (seqAdd g.base k)) := by
  refine ⟨?_, rfl⟩
  rw [FecGroup.reset, h.base, seqAdd_num]

theorem Holds.into {a count : ℕ} (h : Holds isn a count g) (p : Sent) :
    Holds isn a (count + 1) (p.into g) :=
  ⟨h.base, congrArg (· + 1) h.collected⟩

/-- Packet `n` is a member of its column once that has started, after `x` others. -/
theorem exists_member (hrows : 0 < cfg.rows) (hcols : 0 < cfg.cols) (hc : n % cfg.cols = c)
    (hstarted : columnOffset cfg c ≤ n) :
    ∃ x, n - columnOffset cfg c = cfg.cols * x ∧ held cfg.cols (columnOffset cfg c) n = x ∧
      held cfg.cols (columnOffset cfg c) (n + 1) = x + 1 := by
  subst hc
  obtain ⟨m, -, hoff⟩ := exists_columnOffset hrows (Nat.mod_lt n hcols)
  have hn := Nat.div_add_mod n cfg.cols
  rw [Nat.mul_comm] at hn
  have hle : m ≤ n / cfg.cols := Nat.le_of_mul_le_mul_right (by omega) hcols
  have hx : n = columnOffset cfg (n % cfg.cols) + (n / cfg.cols - m) * cfg.cols := by
    have := Nat.mul_le_mul_right cfg.cols hle
    rw [hoff, Nat.sub_mul]
    omega
  obtain ⟨hbefore, hafter⟩ := held_member hcols (columnOffset cfg (n % cfg.cols)) (n / cfg.cols - m)
  rw [← hx] at hbefore hafter
  exact ⟨_, by rw [Nat.mul_comm]; omega, hbefore, hafter⟩

theorem modify_of_getElem? {α : Type*} {l : List α} {a : α} (f : α → α) (h : l[i]? = some a) :
    l.modify i f = l.set i (f a) := by
  rw [List.modify_eq_set_getElem?, h]
  rfl

theorem getD_of_getElem? {α : Type*} {l : List α} {a : α} (d : α) (h : l[i]? = some a) :
    l.getD i d = a := by
  rw [List.getD_eq_getElem?_getD, h]
  rfl

theorem groups_add_rest (cols rows x : ℕ) :
    x / rows * (cols * rows) + x % rows * cols = cols * x := by
  calc x / rows * (cols * rows) + x % rows * cols = cols * (rows * (x / rows) + x % rows) := by ring
    _ = cols * x := by rw [Nat.div_add_mod]

theorem feedColumn_of (hg : s.cols[c]? = some g) (p : Sent)
    (hcurrent : 0 ≤ seqDiff g.base seqNo → (seqDiff g.base seqNo).tdiv s.sizeRow < s.sizeCol) :
    s.feedColumn c seqNo p.timestamp p.encFlag p.payload =
      if 0 ≤ seqDiff g.base seqNo then { s with cols := s.cols.set c (p.into g) } else s := by
  rw [feedColumn]
  simp only [getD_of_getElem? _ hg]
  split_ifs with hpos hpast
  · exact absurd hpast (not_le.mpr (hcurrent hpos))
  · rw [modify_of_getElem? _ hg]
    rfl
  · rfl

def FecGroup.closed (cfg : Config) (g : FecGroup) : FecGroup :=
  if cfg.rows ≤ g.collected then g.reset (seqAdd g.base (cfg.cols * cfg.rows)) else g

theorem column_feed (hcolumn : s.columnOf seqNo p = some c) (hg : s.cols[c]? = some g)
    (hcurrent : 0 ≤ seqDiff g.base seqNo → (seqDiff g.base seqNo).tdiv s.cfg.cols < s.cfg.rows)
    (hopen : g.collected < s.cfg.rows) :
    (s.feed seqNo p).cols =
        (if 0 ≤ seqDiff g.base seqNo then s.cols.set c ((p.into g).closed s.cfg) else s.cols) ∧
      s.columnRepairs seqNo p = if 0 ≤ seqDiff g.base seqNo ∧ s.cfg.rows ≤ g.collected + 1 then
        [(s.enterRow seqNo p).repair (p.into g) c seqNo] else [] := by
  have hcfg : (s.enterRow seqNo p).cfg = s.cfg := by
    unfold enterRow resetRowForNext
    simp only
    split_ifs <;> rfl
  have hlen : c < s.cols.length := (List.getElem?_eq_some_iff.mp hg).1
  have hset : (s.cols.set c (p.into g))[c]? = some (p.into g) := List.getElem?_set_self hlen
  have hcollected : (p.into g).collected = g.collected + 1 := rfl
  have hfed : (s.enterRow seqNo p).feedColumn c seqNo p.timestamp p.encFlag p.payload = _ :=
    feedColumn_of (by rwa [cols_enterRow]) p (by rwa [sizeRow, sizeCol, hcfg])
  rw [feed_eq, columnRepairs, hcolumn, Option.elim_some, Option.elim_some, hfed, closeRow_eq,
    closeColumn_eq, columnRepair]
  -- a packet before the base of the group is not collected
  by_cases hpos : 0 ≤ seqDiff g.base seqNo
  · rw [if_pos hpos, if_pos hpos]
    simp only [cols_enterRow, getD_of_getElem? _ hset, modify_of_getElem? _ hset,
      List.set_set, sizeCol, matrixSize, hcfg, FecGroup.closed, hcollected, hpos, true_and]
    split_ifs with hfull
    · exact ⟨rfl, rfl⟩
    · exact ⟨rfl, rfl⟩
  · rw [if_neg hpos, if_neg hpos]
    simp only [cols_enterRow, getD_of_getElem? _ hg, sizeCol, hcfg, if_neg (not_le.mpr hopen),
      hpos, false_and, if_false, and_self]

def Completes (cfg : Config) (n c : ℕ) : Prop :=
  columnOffset cfg c ≤ n ∧ (n - columnOffset cfg c) / cfg.cols % cfg.rows + 1 = cfg.rows

instance (n c : ℕ) : Decidable (Completes cfg n c) := inferInstanceAs (Decidable (_ ∧ _))

section Column

variable {s : FECSender} {n c : ℕ} {g : FecGroup} (hrows : 0 < cfg.rows) (hcols : 0 < cfg.cols)
  (hc : n % cfg.cols = c)

include hrows hcols hc

/-- The packet is past the base of the group if its column has started, and not past the group. -/
theorem ColumnAt.seqDiff_base (hat : ColumnAt cfg isn n c g)
    (hmatrix : cfg.cols * cfg.rows ≤ 2 ^ 30) :
    (0 ≤ seqDiff g.base (num isn n) ↔ columnOffset cfg c ≤ n) ∧
      (0 ≤ seqDiff g.base (num isn n) →
        (seqDiff g.base (num isn n)).tdiv cfg.cols < cfg.rows) := by
  have hbase := hat.base
  by_cases hstarted : columnOffset cfg c ≤ n
  · -- the packet is member `x % rows` of the group, `cols` numbers for each one before it
    obtain ⟨x, hx, hheld, -⟩ := exists_member hrows hcols hc hstarted
    have hrest := groups_add_rest cfg.cols cfg.rows x
    have hmember : x % cfg.rows * cfg.cols < cfg.cols * cfg.rows := by
      rw [Nat.mul_comm cfg.cols]
      exact Nat.mul_lt_mul_of_pos_right (Nat.mod_lt x hrows) hcols
    rw [hheld] at hbase
    have hoff : seqDiff g.base (num isn n) = ((x % cfg.rows * cfg.cols : ℕ) : ℤ) := by
      rw [hbase, seqDiff_num isn (by omega) (by omega)]
      omega
    refine ⟨iff_of_true (by rw [hoff]; positivity) hstarted, fun _ => ?_⟩
    rw [hoff, ← Int.ofNat_tdiv, Nat.mul_div_cancel _ hcols]
    exact_mod_cast Nat.mod_lt x hrows
  · -- the column has not started: the packet is less than a matrix before its base
    have hlt := columnOffset_lt hrows (hc ▸ Nat.mod_lt n hcols : c < cfg.cols)
    rw [held_of_le hcols (by omega), Nat.zero_div, Nat.zero_mul, Nat.add_zero] at hbase
    have hneg : ¬0 ≤ seqDiff g.base (num isn n) := by
      rw [hbase, seqDiff_num isn (by omega) (by omega)]
      omega
    exact ⟨iff_of_false hneg hstarted, fun hpos => absurd hpos hneg⟩

theorem ColumnAt.collected_eq (hat : ColumnAt cfg isn n c g) :
    g.collected =
      if columnOffset cfg c ≤ n then (n - columnOffset cfg c) / cfg.cols % cfg.rows else 0 := by
  rw [hat.collected]
  split_ifs with hstarted
  · obtain ⟨x, hx, hheld, -⟩ := exists_member hrows hcols hc hstarted
    rw [hheld, hx, Nat.mul_div_cancel_left _ hcols]
  · rw [held_of_le hcols (by omega), Nat.zero_mod]

theorem ColumnAt.member (hat : ColumnAt cfg isn n c g) (hstarted : columnOffset cfg c ≤ n)
    (p : Sent) :
    ColumnAt cfg isn (n + 1) c ((p.into g).closed cfg) := by
  obtain ⟨x, -, hheld, hheld'⟩ := exists_member hrows hcols hc hstarted
  unfold ColumnAt at hat ⊢
  rw [hheld] at hat
  rw [hheld']
  have hcollect := hat.into p
  unfold FecGroup.closed
  -- the packet is the last of its group or not
  rcases succ_div_mod hrows x with ⟨hfull, hdiv, hmod⟩ | ⟨hopen, hdiv, hmod⟩
  · rw [if_pos (by rw [hcollect.collected, hfull]), hdiv, hmod, Nat.add_mul, Nat.one_mul,
      ← Nat.add_assoc]
    exact hcollect.reset _
  · rw [if_neg (by rw [hcollect.collected]; omega), hdiv, hmod]
    exact hcollect

end Column

theorem ColumnAt.other (hrows : 0 < cfg.rows) (hc : c < cfg.cols) (hother : n % cfg.cols ≠ c)
    (hat : ColumnAt cfg isn n c g) : ColumnAt cfg isn (n + 1) c g := by
  obtain ⟨m, -, hoff⟩ := exists_columnOffset hrows hc
  unfold ColumnAt
  rw [held_other]
  · exact hat
  · rw [hoff, Nat.add_mul_mod_self_right, Nat.mod_eq_of_lt hc]
    exact hother

section Row

variable {n : ℕ} {s : FECSender} (h : RowAt cfg payloadSize isn n s) (hcols : 0 < cfg.cols)

include h hcols

-- in a row of more than half of the numbers the packets further on compare as earlier
theorem RowAt.seqDiff_sndBase (hnear : n % cfg.cols < 2 ^ 30) :
    seqDiff s.sndBase (num isn n) = ((n % cfg.cols : ℕ) : ℤ) := by
  have hn := Nat.div_add_mod n cfg.cols
  have hlt := Nat.mod_lt n hcols
  rw [Nat.mul_comm] at hn
  rw [h.base, h.row.base, seqDiff_num isn (by omega) (by omega)]
  omega

theorem RowAt.enterRow_eq (p : Sent) :
    s.enterRow (num isn n) p =
      { s with pendingFEC := [], lastSeqNo := num isn n, row := p.into s.row } := by
  have hcurrent : ¬((s.cfg.cols : ℕ) : ℤ) ≤ seqDiff s.sndBase (num isn n) := by
    have hn := Nat.div_add_mod n cfg.cols
    have hlt := Nat.mod_lt n hcols
    rw [Nat.mul_comm] at hn
    have hle := seqDiff_num_le isn (show n / cfg.cols * cfg.cols ≤ n by omega)
    rw [h.base, h.row.base, h.config]
    omega
  unfold enterRow sizeRow
  simp only
  rw [if_neg hcurrent]

theorem RowAt.columnOf_eq (hnear : n % cfg.cols < 2 ^ 30) (p : Sent) :
    s.columnOf (num isn n) p = if 1 < cfg.rows then some (n % cfg.cols) else none := by
  have hlt := Nat.mod_lt n hcols
  have hlength := h.length
  unfold columnOf column? sizeRow sizeCol
  rw [h.enterRow_eq hcols]
  simp only [h.seqDiff_sndBase hcols hnear, h.config, ← Int.ofNat_tmod, Nat.mod_mod]
  by_cases hmany : 1 < cfg.rows
  · rw [if_pos hmany] at hlength
    rw [if_pos hmany, if_pos ⟨hmany, by positivity, by omega⟩, Int.toNat_natCast]
  · rw [if_neg hmany, if_neg (by omega)]

theorem RowAt.rowRepairs_eq (p : Sent) :
    s.rowRepairs (num isn n) p =
      if n % cfg.cols + 1 = cfg.cols ∧ cfg.colsOnly = false then
        [s.repair (p.into s.row) 255 (num isn n)] else [] := by
  have hlt := Nat.mod_lt n hcols
  have hcollected := (h.row.into p).collected
  unfold rowRepairs rowRepair sizeRow
  rw [h.enterRow_eq hcols]
  simp only [h.config, hcollected]
  by_cases hlast : n % cfg.cols + 1 = cfg.cols
  · rw [if_pos hlast.ge]
    cases hflag : cfg.colsOnly
    · exact (if_pos ⟨hlast, rfl⟩).symm
    · simp
  · rw [if_neg (by omega), if_neg (fun hboth => hlast hboth.1)]

theorem RowAt.feed (p : Sent) : RowAt cfg payloadSize isn (n + 1) (s.feed (num isn n) p) := by
  have hcollect := h.row.into p
  have hlength := (length_cols_feed s (num isn n) p).trans h.length
  -- whatever becomes of the columns, the row is closed by itself
  obtain ⟨cols, pending, hfeed⟩ : ∃ cols pending, s.feed (num isn n) p =
      { s with
        pendingFEC := pending, lastSeqNo := num isn n, row := p.into s.row,
        cols := cols }.closeRow (num isn n) := by
    rw [feed_eq, h.enterRow_eq hcols]
    cases s.columnOf (num isn n) p with
    | none => exact ⟨_, _, rfl⟩
    | some c =>
      rw [Option.elim_some, feedColumn_eq, closeColumn_eq]
      exact ⟨_, _, rfl⟩
  rw [closeRow_eq, sizeRow, h.config] at hfeed
  simp only at hfeed
  rcases succ_div_mod hcols n with ⟨hfull, hdiv, hmod⟩ | ⟨hopen, hdiv, hmod⟩
  · have hclose : cfg.cols ≤ (p.into s.row).collected := by rw [hcollect.collected, hfull]
    rw [if_pos hclose, if_pos hclose] at hfeed
    rw [hfeed] at hlength ⊢
    refine ⟨rfl, h.size, rfl, ?_, hlength⟩
    rw [hdiv, hmod, Nat.add_mul, Nat.one_mul]
    exact hcollect.reset _
  · have hgo : ¬cfg.cols ≤ (p.into s.row).collected := by
      rw [hcollect.collected]
      omega
    rw [if_neg hgo, if_neg hgo] at hfeed
    rw [hfeed] at hlength ⊢
    refine ⟨rfl, h.size, h.base, ?_, hlength⟩
    rw [hdiv, hmod]
    exact hcollect

end Row

theorem near_of_matrix (hmatrix : cfg.cols * cfg.rows ≤ 2 ^ 30) (hrows : 0 < cfg.rows)
    (hcols : 0 < cfg.cols) (n : ℕ) : n % cfg.cols < 2 ^ 30 :=
  calc n % cfg.cols < cfg.cols := Nat.mod_lt n hcols
    _ ≤ cfg.cols * cfg.rows := Nat.le_mul_of_pos_right _ hrows
    _ ≤ 2 ^ 30 := hmatrix

/-- What feeding packet `n` does to the columns, and what it queues for them. -/
theorem SenderAt.columns (h : SenderAt cfg payloadSize isn n s)
    (hmatrix : cfg.cols * cfg.rows ≤ 2 ^ 30)
    (hmany : 1 < cfg.rows) (hcols : 0 < cfg.cols) (p : Sent) :
    ∃ g, s.cols[n % cfg.cols]? = some g ∧ ColumnAt cfg isn n (n % cfg.cols) g ∧
      (s.feed (num isn n) p).cols =
        (if columnOffset cfg (n % cfg.cols) ≤ n then s.cols.set (n % cfg.cols)
          ((p.into g).closed cfg)
          else s.cols) ∧
      s.columnRepairs (num isn n) p =
        if Completes cfg n (n % cfg.cols) then
          [s.repair (p.into g) (n % cfg.cols) (num isn n)] else [] := by
  have hrows : 0 < cfg.rows := by omega
  have hnear := near_of_matrix hmatrix hrows hcols n
  have hlength := h.length
  rw [if_pos hmany] at hlength
  have hlt : n % cfg.cols < s.cols.length := by
    rw [hlength]
    exact Nat.mod_lt n hcols
  have hg : s.cols[n % cfg.cols]? = some s.cols[n % cfg.cols] := List.getElem?_eq_getElem hlt
  have hat := h.column _ _ hg
  obtain ⟨hstarts, hcurrent⟩ := hat.seqDiff_base hrows hcols rfl hmatrix
  have hcount := hat.collected_eq hrows hcols rfl
  have hopen : s.cols[n % cfg.cols].collected < cfg.rows := by
    rw [hat.collected]
    exact Nat.mod_lt _ hrows
  obtain ⟨hfed, hrepairs⟩ := column_feed (p := p)
    ((h.columnOf_eq hcols hnear p).trans (if_pos hmany)) hg (by rwa [h.config]) (by rwa [h.config])
  rw [h.config] at hfed hrepairs
  simp only [hstarts] at hfed hrepairs
  refine ⟨_, hg, hat, hfed, hrepairs.trans ?_⟩
  rw [h.enterRow_eq hcols]
  refine if_congr (and_congr_right fun hstarted => ?_) rfl rfl
  rw [if_pos hstarted] at hcount
  have hlast := Nat.mod_lt ((n - columnOffset cfg (n % cfg.cols)) / cfg.cols) hrows
  omega

theorem SenderAt.feed (h : SenderAt cfg payloadSize isn n s)
    (hmatrix : cfg.cols * cfg.rows ≤ 2 ^ 30)
    (hrows : 0 < cfg.rows) (hcols : 0 < cfg.cols) (p : Sent) :
    SenderAt cfg payloadSize isn (n + 1) (s.feed (num isn n) p) := by
  have hnext := h.toRowAt.feed hcols p
  refine ⟨hnext, fun c g hg => ?_⟩
  have hc := (List.getElem?_eq_some_iff.mp hg).1
  rw [hnext.length] at hc
  split_ifs at hc with hmany
  · obtain ⟨g₀, hg₀, hat, hcols', -⟩ := h.columns hmatrix hmany hcols p
    by_cases hsame : n % cfg.cols = c
    · subst hsame
      rw [hcols'] at hg
      split_ifs at hg with hstarted
      · rw [List.getElem?_set_self (List.getElem?_eq_some_iff.mp hg₀).1] at hg
        rw [← Option.some.inj hg]
        exact hat.member hrows hcols rfl hstarted p
      · -- the column starts further on
        have hat' := h.column _ _ hg
        unfold ColumnAt at hat' ⊢
        rw [held_of_le hcols (by omega)] at hat' ⊢
        exact hat'
    · -- the packet is of another column
      have hother : s.columnOf (num isn n) p ≠ some c := by
        rw [h.columnOf_eq hcols (near_of_matrix hmatrix hrows hcols n), if_pos hmany]
        simpa using hsame
      rw [getElem?_cols_feed hother] at hg
      exact (h.column c g hg).other hrows hc hsame
  · omega

theorem num_zero (hisn : isn < 2 ^ 31) : num isn 0 = isn := by
  rw [num, Nat.add_zero, wrap_of_lt hisn]

theorem rowAt_new (hisn : isn < 2 ^ 31) :
    RowAt cfg payloadSize isn 0 (FECSender.new cfg payloadSize isn) := by
  refine ⟨rfl, rfl, rfl, ?_, length_cols_new cfg payloadSize isn⟩
  rw [Nat.zero_div, Nat.zero_mul, Nat.zero_mod]
  exact ⟨(num_zero hisn).symm, rfl⟩

theorem getElem?_cols_new (hmany : 1 < cfg.rows) (hisn : isn < 2 ^ 31) (c : ℕ) :
    (FECSender.new cfg payloadSize isn).cols[c]? =
      (columnBaseOffsets cfg)[c]?.map fun off =>
        FecGroup.newGroup (num isn off) cfg.cols payloadSize := by
  unfold FECSender.new
  simp only [if_pos hmany, List.getElem?_map]
  congr 1
  funext off
  have hbase := seqAdd_num isn 0 off
  rw [num_zero hisn, Nat.zero_add] at hbase
  rw [hbase]

theorem senderAt_new (hcols : 0 < cfg.cols) (hisn : isn < 2 ^ 31) :
    SenderAt cfg payloadSize isn 0 (FECSender.new cfg payloadSize isn) := by
  have hrow : RowAt cfg payloadSize isn 0 (FECSender.new cfg payloadSize isn) := rowAt_new hisn
  refine ⟨hrow, fun c g hg => ?_⟩
  have hc := (List.getElem?_eq_some_iff.mp hg).1
  rw [hrow.length] at hc
  split_ifs at hc with hmany
  · rw [getElem?_cols_new hmany hisn, Option.map_eq_some_iff] at hg
    obtain ⟨off, hoff, rfl⟩ := hg
    unfold ColumnAt
    rw [columnOffset_of_getElem? hoff, held_of_le hcols (Nat.zero_le _), Nat.zero_div, Nat.zero_mul,
      Nat.add_zero, Nat.zero_mod]
    exact ⟨rfl, rfl⟩
  · omega

theorem rowAt_senderAfter (hcols : 0 < cfg.cols) (hisn : isn < 2 ^ 31) (n : ℕ) :
    RowAt cfg payloadSize isn n (senderAfter cfg payloadSize isn stream n) := by
  induction n with
  | zero => exact rowAt_new hisn
  | succ n ih => exact ih.feed hcols _

theorem senderAt_senderAfter (hmatrix : cfg.cols * cfg.rows ≤ 2 ^ 30)
    (hrows : 0 < cfg.rows) (hcols : 0 < cfg.cols) (hisn : isn < 2 ^ 31) (n : ℕ) :
    SenderAt cfg payloadSize isn n (senderAfter cfg payloadSize isn stream n) := by
  induction n with
  | zero => exact senderAt_new hcols hisn
  | succ n ih => exact ih.feed hmatrix hrows hcols _

/-- Which of the groups of its column the receiver takes packet `n` for a member of. -/
theorem isColumnMember_iff {r : FECReceiver} {g : RcvGroup} {t : ℕ} (hcfg : r.cfg = cfg)
    (hrows : 0 < cfg.rows) (hcols : 0 < cfg.cols) (hn : n < 2 ^ 30)
    (ht : columnOffset cfg (n % cfg.cols) + t * (cfg.cols * cfg.rows) < 2 ^ 30)
    (hbase : g.base = num isn (columnOffset cfg (n % cfg.cols) + t * (cfg.cols * cfg.rows))) :
    r.isColumnMember g (num isn n) = true ↔ columnOffset cfg (n % cfg.cols) ≤ n ∧
      t = (n - columnOffset cfg (n % cfg.cols)) / (cfg.cols * cfg.rows) := by
  set off := columnOffset cfg (n % cfg.cols) with hoff
  have hmatrix : 0 < cfg.cols * cfg.rows := Nat.mul_pos hcols hrows
  unfold FECReceiver.isColumnMember FECReceiver.sizeRow FECReceiver.sizeCol
  rw [hbase, seqDiff_num isn (by omega) (by omega), hcfg, decide_eq_true_iff]
  constructor
  · -- less than a matrix past the base of group `t`
    rintro ⟨hpos, -, hlt⟩
    rw [Nat.div_lt_iff_lt_mul hcols, Nat.mul_comm cfg.rows] at hlt
    refine ⟨by omega, (Nat.div_eq_of_lt_le (by omega) ?_).symm⟩
    rw [Nat.add_mul]
    omega
  · rintro ⟨hstarted, rfl⟩
    obtain ⟨x, hx, -⟩ := exists_member hrows hcols rfl (hoff ▸ hstarted)
    rw [← hoff] at hx
    have hrest := groups_add_rest cfg.cols cfg.rows x
    have hdiv : (n - off) / (cfg.cols * cfg.rows) = x / cfg.rows := by
      rw [hx, Nat.mul_div_mul_left _ _ hcols]
    have hplace :
      ((n : ℤ) - (off + (n - off) / (cfg.cols * cfg.rows) * (cfg.cols * cfg.rows) : ℕ)).toNat =
        x % cfg.rows * cfg.cols := by
      rw [hdiv]
      omega
    refine ⟨by rw [hdiv]; omega, ?_, ?_⟩
    · rw [hplace, Nat.mul_mod_left]
    · rw [hplace, Nat.mul_div_cancel _ hcols]
      exact Nat.mod_lt x hrows

/-- **Sender and receiver agree on the columns.**  Packet `n` goes into at most one column, and into
the group of that column that the receiver looks for it in; the repair packet of the group is queued
with the last of its members. -/
theorem column_geometry (hcols : 2 ≤ cfg.cols) (hrows : 2 ≤ cfg.rows)
    (hmatrix : cfg.cols * cfg.rows ≤ 2 ^ 30) (hisn : isn < 2 ^ 31) {n : ℕ} (hn : n < 2 ^ 30)
    {off : ℕ} (hoff : (columnBaseOffsets cfg)[n % cfg.cols]? = some off) :
    ∃ g, (senderAfter cfg payloadSize isn stream n).cols[n % cfg.cols]? = some g ∧
      (senderAfter cfg payloadSize isn stream (n + 1)).cols =
        (if off ≤ n then (senderAfter cfg payloadSize isn stream n).cols.set (n % cfg.cols)
            (((stream n).into g).closed cfg)
          else (senderAfter cfg payloadSize isn stream n).cols) ∧
      (off ≤ n → g.base =
        num isn (off + (n - off) / (cfg.cols * cfg.rows) * (cfg.cols * cfg.rows))) ∧
      (senderAfter cfg payloadSize isn stream (n + 1)).pendingFEC =
        (if off ≤ n ∧ (n - off) / cfg.cols % cfg.rows + 1 = cfg.rows then
            [(senderAfter cfg payloadSize isn stream n).repair ((stream n).into g) (n % cfg.cols)
              (num isn n)]
          else []) ++
        (if n % cfg.cols + 1 = cfg.cols ∧ cfg.colsOnly = false then
            [(senderAfter cfg payloadSize isn stream n).repair
              ((stream n).into (senderAfter cfg payloadSize isn stream n).row) 255 (num isn n)]
          else []) ∧
      ∀ (r : FECReceiver) (h : RcvGroup) (t : ℕ), r.cfg = cfg →
        off + t * (cfg.cols * cfg.rows) < 2 ^ 30 →
        h.base = num isn (off + t * (cfg.cols * cfg.rows)) →
        (r.isColumnMember h (num isn n) = true ↔
          off ≤ n ∧ t = (n - off) / (cfg.cols * cfg.rows)) := by
  obtain rfl : columnOffset cfg (n % cfg.cols) = off := columnOffset_of_getElem? hoff
  have hat : SenderAt cfg payloadSize isn n (senderAfter cfg payloadSize isn stream n) :=
    senderAt_senderAfter hmatrix (by omega) (by omega) hisn n
  obtain ⟨g, hg, hcolumn, hset, hrepairs⟩ := hat.columns hmatrix hrows (by omega) (stream n)
  have hrow := hat.rowRepairs_eq (by omega) (stream n)
  refine ⟨g, hg, hset, fun hstarted => ?_, ?_, fun r h t hcfg ht hbase => ?_⟩
  · obtain ⟨x, hx, hheld, -⟩ := exists_member (by omega) (by omega) rfl hstarted
    rw [hcolumn.base, hheld, hx, Nat.mul_div_mul_left _ _ (by omega)]
  · rw [senderAfter, pendingFEC_feed, hrepairs, hrow]
    rfl
  · exact isColumnMember_iff hcfg (by omega) (by omega) hn ht hbase

/-- In a matrix of two rows of two packets, packet 2 is the last member of column 0. -/
theorem column_geometry_two :
    (senderAfter { cols := 2, rows := 2, layout := .even } 0 0 (fun _ => default)
      3).pendingFEC.length = 1 := by
  obtain ⟨g, -, -, -, hpending, -⟩ := @column_geometry { cols := 2, rows := 2, layout := .even } 0 0
    (fun _ => default) (by decide) (by decide) (by decide) (by decide) 2 (by decide) 0 (by decide)
  rw [if_pos (by decide), if_neg (by decide)] at hpending
  exact congrArg List.length hpending

/-! ## Rows and columns told apart, on every stream

A filter of one row has no columns, and one of at most 255 columns gives none of them the index of a
row.  In every other filter column 255 is completed at some time by the packets of a stream in their
order.  In a matrix that fits into half of the numbers this is the last member of its first group.
In a larger one its packets may compare as earlier than its base, but never as past its group; and
after every whole turn of the numbers there is one at its base, so that it fills up in the end.
-/

section Huge

variable (hhuge : 2 ^ 30 < cfg.cols * cfg.rows)

include hhuge

/-- No packet is past the group of a column, if the matrix is larger than half of the numbers. -/
theorem current_of_huge (hcols : 0 < cfg.cols) (m : ℕ)
    (hpos : 0 ≤ seqDiff (num isn m) (num isn n)) :
    (seqDiff (num isn m) (num isn n)).tdiv cfg.cols < cfg.rows := by
  have hle : seqDiff (num isn m) (num isn n) ≤ 2 ^ 30 := distance_le (valid_wrap _) (valid_wrap _)
  obtain ⟨d, hd⟩ := Int.eq_ofNat_of_zero_le hpos
  have hlt : d < cfg.rows * cfg.cols := by
    rw [Nat.mul_comm]
    omega
  rw [hd, ← Int.ofNat_tdiv]
  exact_mod_cast (Nat.div_lt_iff_lt_mul hcols).mpr hlt

variable (hc : c < cfg.cols) (hbyte : c % 256 = 255)
  (hapart : ∀ n, (senderAfter cfg payloadSize isn stream n).ToldApart (num isn n) (stream n))

include hc hbyte hapart

/-- As long as no repair packet of the column is queued, its group stays and collects: any packet at
its base at least. -/
theorem collects_feed (hrow : RowAt cfg payloadSize isn n (senderAfter cfg payloadSize isn
    stream n)) {m : ℕ}
    (hg : (senderAfter cfg payloadSize isn stream n).cols[c]? = some g) (hbase : g.base = num isn m)
    (hopen : g.collected < cfg.rows) :
    ∃ g', (senderAfter cfg payloadSize isn stream (n + 1)).cols[c]? = some g' ∧
      g'.base = num isn m ∧
      g'.collected < cfg.rows ∧ g.collected ≤ g'.collected ∧
      ((senderAfter cfg payloadSize isn stream n).columnOf (num isn n) (stream n) = some c →
        0 ≤ seqDiff (num isn m) (num isn n) → g'.collected = g.collected + 1) := by
  by_cases hcolumn : (senderAfter cfg payloadSize isn stream n).columnOf (num isn n) (stream n) =
    some c
  · obtain ⟨hfed, hrepairs⟩ := column_feed hcolumn hg
      (by rw [hbase, hrow.config]; exact current_of_huge hhuge (by omega) m) (by rwa [hrow.config])
    rw [hbase, hrow.config] at hfed hrepairs
    by_cases hpos : 0 ≤ seqDiff (num isn m) (num isn n)
    · -- a full group would queue the repair packet that is taken for one of a row
      have hmore : ¬cfg.rows ≤ g.collected + 1 := by
        intro hfull
        rw [if_pos ⟨hpos, hfull⟩] at hrepairs
        exact (hapart n).2.2 _ (hrepairs ▸ List.mem_singleton_self _)
          ((takenForRow_repairData _ _ _).mpr hbyte)
      have hcollected : ((stream n).into g).collected = g.collected + 1 := rfl
      rw [if_pos hpos, FecGroup.closed, hcollected, if_neg hmore] at hfed
      refine ⟨(stream n).into g, ?_, hbase, by omega, by omega, fun _ _ => hcollected⟩
      rw [senderAfter, hfed]
      exact List.getElem?_set_self (List.getElem?_eq_some_iff.mp hg).1
    · rw [if_neg hpos] at hfed
      exact ⟨g, (congrArg (·[c]?) hfed).trans hg, hbase, hopen, le_rfl, fun _ h => absurd h hpos⟩
  · exact ⟨g, (getElem?_cols_feed hcolumn).trans hg, hbase, hopen, le_rfl,
      fun h => absurd h hcolumn⟩

theorem not_toldApart_of_huge (hmany : 1 < cfg.rows) (hnear : c < 2 ^ 30) (hisn : isn < 2 ^ 31) :
    False := by
  obtain ⟨m, -, hoff⟩ := exists_columnBaseOffset (by omega) hc
  set off := c + m * cfg.cols with hoff'
  have hrow : ∀ n, RowAt cfg payloadSize isn n (senderAfter cfg payloadSize isn stream n) :=
    rowAt_senderAfter (by omega) hisn
  -- the first group of the column is never left
  have hwatch : ∀ n, ∃ g, (senderAfter cfg payloadSize isn stream n).cols[c]? = some g ∧
      g.base = num isn off ∧ g.collected < cfg.rows := by
    intro n
    induction n with
    | zero =>
      refine ⟨_, (getElem?_cols_new hmany hisn c).trans (by rw [hoff]; rfl), rfl, ?_⟩
      show 0 < cfg.rows
      omega
    | succ n ih =>
      obtain ⟨g, hg, hbase, hopen⟩ := ih
      obtain ⟨g', hg', hbase', hopen', -⟩ :=
        collects_feed hhuge hc hbyte hapart (hrow n) hg hbase hopen
      exact ⟨g', hg', hbase', hopen'⟩
  choose group hgroup hbase hopen using hwatch
  have hstep : ∀ n, (group n).collected ≤ (group (n + 1)).collected ∧
      ((senderAfter cfg payloadSize isn stream n).columnOf (num isn n) (stream n) = some c →
        0 ≤ seqDiff (num isn off) (num isn n) →
          (group (n + 1)).collected = (group n).collected + 1) := by
    intro n
    obtain ⟨g', hg', -, -, hle, hone⟩ := collects_feed hhuge hc hbyte hapart (hrow n) (hgroup n)
      (hbase n) (hopen n)
    obtain rfl : group (n + 1) = g' := Option.some.inj ((hgroup (n + 1)).symm.trans hg')
    exact ⟨hle, hone⟩
  have hmono : Monotone fun n => (group n).collected := monotone_nat_of_le_succ fun n => (hstep n).1
  -- the packets at the base of the column, one for each turn of the numbers
  set visit : ℕ → ℕ := fun j => off + j * cfg.cols * 2 ^ 31 with hvisit
  have hcounts : ∀ j, (group (visit j + 1)).collected = (group (visit j)).collected + 1 := by
    intro j
    have hplace : visit j % cfg.cols = c := by
      have : visit j = c + (m + j * 2 ^ 31) * cfg.cols := by
        rw [hvisit, hoff']
        ring
      rw [this, Nat.add_mul_mod_self_right, Nat.mod_eq_of_lt hc]
    refine (hstep (visit j)).2 ?_ (seqDiff_num_period isn off (j * cfg.cols)).ge
    rw [(hrow (visit j)).columnOf_eq (by omega) (by rwa [hplace]), if_pos hmany, hplace]
  have hlarge : ∀ j, j < (group (visit j + 1)).collected := by
    intro j
    induction j with
    | zero =>
      rw [hcounts]
      exact Nat.succ_pos _
    | succ j ih =>
      have hnext : visit j + 1 ≤ visit (j + 1) := by
        rw [hvisit]
        simp only [Nat.add_mul, Nat.one_mul]
        omega
      have hle := hmono hnext
      simp only at hle
      rw [hcounts]
      omega
  have hfull := hlarge cfg.rows
  have hnot := hopen (visit cfg.rows + 1)
  omega

end Huge

theorem exists_not_toldApart (hmany : 1 < cfg.rows) (hwide : 255 < cfg.cols) (hisn : isn < 2 ^ 31) :
    ∃ n, ¬(senderAfter cfg payloadSize isn stream n).ToldApart (num isn n) (stream n) := by
  by_contra hall
  have hapart : ∀ n, (senderAfter cfg payloadSize isn stream n).ToldApart (num isn n) (stream n) :=
    fun n => not_not.mp (not_exists.mp hall n)
  by_cases hmatrix : cfg.cols * cfg.rows ≤ 2 ^ 30
  · -- the last member of the first group of column 255
    obtain ⟨m, -, hoff⟩ := exists_columnOffset (by omega) hwide
    set last := columnOffset cfg 255 + (cfg.rows - 1) * cfg.cols with hlast
    have hplace : last % cfg.cols = 255 := by
      rw [hlast, hoff, Nat.add_mul_mod_self_right, Nat.add_mul_mod_self_right,
        Nat.mod_eq_of_lt hwide]
    have hat : SenderAt cfg payloadSize isn last (senderAfter cfg payloadSize isn stream last) :=
      senderAt_senderAfter hmatrix (by omega) (by omega) hisn last
    obtain ⟨g, -, -, -, hrepairs⟩ := hat.columns hmatrix hmany (by omega) (stream last)
    have hcompletes : Completes cfg last (last % cfg.cols) := by
      rw [hplace]
      refine ⟨by omega, ?_⟩
      rw [hlast, Nat.add_sub_cancel_left, Nat.mul_div_cancel _ (by omega),
        Nat.mod_eq_of_lt (by omega)]
      omega
    rw [if_pos hcompletes] at hrepairs
    exact (hapart last).2.2 _ (hrepairs ▸ List.mem_singleton_self _)
      ((takenForRow_repairData _ _ _).mpr (by rw [hplace]))
  · exact not_toldApart_of_huge (not_le.mp hmatrix) hwide (by decide) hapart hmany (by decide) hisn

/-- **Rows and columns are told apart** on every stream exactly by the filters of one row and
those of at most 255 columns; there, also if the packets come in any other order. -/
theorem repairs_told_apart (cfg : Config) :
    ((∀ payloadSize isn stream n, isn < 2 ^ 31 →
        (senderAfter cfg payloadSize isn stream n).ToldApart (num isn n) (stream n)) ↔
      cfg.rows ≤ 1 ∨ cfg.cols ≤ 255) ∧
    (cfg.rows ≤ 1 ∨ cfg.cols ≤ 255 → ∀ payloadSize isn packets seqNo p,
      ((FECSender.new cfg payloadSize isn).feedAll packets).ToldApart seqNo p) := by
  have hfew : cfg.rows ≤ 1 ∨ cfg.cols ≤ 255 → ∀ payloadSize isn packets seqNo p,
      ((FECSender.new cfg payloadSize isn).feedAll packets).ToldApart seqNo p := by
    intro hcfg payloadSize isn packets seqNo p
    refine toldApart_of_length ?_ seqNo p
    rw [length_cols_feedAll]
    exact length_cols_new_le hcfg payloadSize isn
  refine ⟨⟨fun hall => ?_, fun hcfg payloadSize isn stream n _ => ?_⟩, hfew⟩
  · by_contra hcfg
    have hsome : ∃ n, ¬(senderAfter cfg 0 0 (fun _ => default) n).ToldApart (num 0 n) default :=
      exists_not_toldApart (by omega) (by omega) (by decide)
    obtain ⟨n, hn⟩ := hsome
    exact hn (hall 0 0 _ n (by decide))
  · rw [senderAfter_eq_feedAll]
    exact hfew hcfg payloadSize isn _ _ _

end Sender

/-- A single row may be as long as it likes. -/
theorem repairs_told_apart_one_row :
    parseConfig "fec,cols:300" = .ok { cols := 300 } ∧
      ∀ stream n, (senderAfter { cols := 300 } 0 0 stream n).ToldApart (num 0 n) (stream n) :=
  ⟨by decide, fun stream n => (repairs_told_apart { cols := 300 }).1.mpr (.inl (by decide)) 0 0
    stream n (by decide)⟩

def wideMatrix : Config := { cols := 256, rows := 2, layout := .even }

/-- The repair packet of column 255 is taken for one of a row. -/
theorem column_taken_for_row :
    parseConfig "fec,cols:256,rows:2,layout:even" = .ok wideMatrix ∧
      ∃ fp ∈ (senderAfter wideMatrix 0 0 (fun _ => default) 511).columnRepairs (num 0 511) default,
        TakenForRow fp.data := by
  have hat : SenderAt wideMatrix 0 0 511 (senderAfter wideMatrix 0 0 (fun _ => default) 511) :=
    senderAt_senderAfter (by decide) (by decide) (by decide) (by decide) 511
  obtain ⟨g, -, -, -, hrepairs⟩ := hat.columns (by decide) (by decide) (by decide) default
  rw [if_pos (by decide)] at hrepairs
  refine ⟨by decide, _, hrepairs ▸ List.mem_singleton_self _, ?_⟩
  exact (takenForRow_repairData _ _ _).mpr (by decide)

def hugeMatrix : Config := { cols := 2 ^ 29 + 1, rows := 3 }

/-- Column 2 of the huge matrix starts more than a billion packets further on, and yet packet 2 goes
into it. -/
theorem column_fed_too_early :
    ∃ off, (columnBaseOffsets hugeMatrix)[2]? = some off ∧ 2 < off ∧
      ∃ g, (senderAfter hugeMatrix 0 0 (fun _ => default) 3).cols[2]? = some g ∧
        g.collected = 1 := by
  have hoff : (columnBaseOffsets hugeMatrix)[2]? = some (2 ^ 30 + 4) := by
    rw [columnBaseOffsets_eq (by decide), List.getElem?_map, List.getElem?_range (by decide)]
    rfl
  have hrow : ∀ n, RowAt hugeMatrix 0 0 n (senderAfter hugeMatrix 0 0 (fun _ => default) n) :=
    rowAt_senderAfter (by decide) (by decide)
  have hcolumn : ∀ n, (senderAfter hugeMatrix 0 0 (fun _ => default) n).columnOf (num 0 n) default =
      some (n % hugeMatrix.cols) := fun n =>
    (hrow n).columnOf_eq (by decide) ((Nat.mod_lt n (by decide)).trans (by decide)) default
  set s := senderAfter hugeMatrix 0 0 (fun _ => default) 2 with hs
  set g := FecGroup.newGroup (num 0 (2 ^ 30 + 4)) hugeMatrix.cols 0 with hg₀
  -- the packets before it have gone into other columns
  have hg : s.cols[2]? = some g := by
    rw [hs, senderAfter, FECSender.getElem?_cols_feed (by rw [hcolumn]; decide), senderAfter,
      FECSender.getElem?_cols_feed (by rw [hcolumn]; decide), senderAfter,
      getElem?_cols_new (by decide) (by decide), hoff]
    rfl
  refine ⟨_, hoff, by decide, Sent.into default g, ?_, rfl⟩
  have hfed := (column_feed (hcolumn 2) hg (fun _ => by rw [(hrow 2).config]; decide)
    (by rw [(hrow 2).config]; decide)).1
  rw [if_pos (by decide), FecGroup.closed, (hrow 2).config, if_neg (by decide)] at hfed
  rw [senderAfter, hfed]
  exact List.getElem?_set_self (List.getElem?_eq_some_iff.mp hg).1

end SrtGo.Filter
