import SrtGo.Lib.Ring
import SrtGo.Packet.Header

/-!
# The receive buffer

A ring of slots indexed by the low bits of the sequence number.  `startSeq` is
the oldest number the application has not read and `maxSeq` is one past the
highest number received, so the slots of `[startSeq, maxSeq)` are the live ones.
The functions below follow the source one by one; its loops recurse on a fuel
that is the number of times the loop can run.

The source keeps a hook for each packet that leaves the buffer by a timed read
or by a drop.  The model returns what the hook is called with instead, and the
connection applies it.
-/

namespace SrtGo.Buffer

open SrtGo.Seq

/-- The smallest power of two that is at least `n`, as long as `n - 1` fits into
32 bits: the source smears the highest bit over the 31 bits below it only. -/
def nextPow2 (n : ℤ) : ℕ :=
  if n ≤ 1 then 1 else Ring.smear (n.toNat - 1) + 1

inductive EntryState where
  | empty
  | available
  | read
  | drop
deriving DecidableEq, Repr, Inhabited

structure RecvEntry where
  pkt : Packet := {}
  state : EntryState := .empty
  arrivalTS : ℤ := 0
deriving DecidableEq, Repr, Inhabited

/-- The receive buffer.  `firstReadableOOO` is the slot of the first complete
message that may be read out of order, if one is known. -/
structure RecvBuffer where
  entries : ℕ → RecvEntry
  len : ℕ
  startSeq : ℕ
  maxSeq : ℕ
  size : ℤ := 0
  numOutOfOrderPkts : ℤ := 0
  firstReadableOOO : Option ℕ := none
  messageAPI : Bool := false

/-- What inserting a packet did; the gap bounds are both zero without a gap. -/
structure InsertResult where
  inserted : Bool := false
  gapStart : ℕ := 0
  gapEnd : ℕ := 0
deriving DecidableEq, Repr, Inhabited

def InsertResult.hasGap (r : InsertResult) : Bool :=
  r.inserted && (r.gapStart != 0 || r.gapEnd != 0)

namespace RecvBuffer

def mask (rb : RecvBuffer) : ℕ := rb.len - 1

def index (rb : RecvBuffer) (s : ℕ) : ℕ := s &&& rb.mask

/-- A signed 64-bit sum as the unsigned word that a mask is applied to. -/
def word (x : ℤ) : ℕ := (x % 2 ^ 64).toNat

def entryAt (rb : RecvBuffer) (s : ℕ) : RecvEntry := rb.entries (rb.index s)

def setEntry (rb : RecvBuffer) (i : ℕ) (e : RecvEntry) : RecvBuffer :=
  { rb with entries := Function.update rb.entries i e }

def new (capacity : ℤ) (initialSeq : ℕ) : RecvBuffer :=
  { entries := fun _ => {}
    len := nextPow2 capacity
    startSeq := initialSeq
    maxSeq := initialSeq }

def setMessageAPI (rb : RecvBuffer) (enabled : Bool) : RecvBuffer :=
  { rb with messageAPI := enabled }

def advance (rb : RecvBuffer) : RecvBuffer :=
  { rb.setEntry (rb.index rb.startSeq) {} with startSeq := inc rb.startSeq }

theorem advance_entries (rb : RecvBuffer) :
    rb.advance.entries = Function.update rb.entries (rb.index rb.startSeq) {} := rfl

def releaseLoop : ℕ → RecvBuffer → RecvBuffer
  | 0, rb => rb
  | fuel + 1, rb =>
    if lessThan rb.startSeq rb.maxSeq then
      match (rb.entryAt rb.startSeq).state with
      | .drop | .read => releaseLoop fuel rb.advance
      | .empty | .available => rb
    else rb

/-- Advance past the dropped and read slots at the head. -/
def releaseFillerEntries (rb : RecvBuffer) : RecvBuffer :=
  releaseLoop (ahead rb.startSeq rb.maxSeq) rb

def canReadInOrder (rb : RecvBuffer) : Bool :=
  (rb.entryAt rb.startSeq).state = .available

/-! ## Out-of-order messages -/

def scanRightLoop (rb : RecvBuffer) (msgNo lastPos : ℕ) : ℕ → ℕ → Option ℕ
  | 0, _ => none
  | fuel + 1, pos =>
    let pos := (pos + 1) &&& rb.mask
    let entry := rb.entries pos
    if entry.state ≠ .available then none
    else if entry.pkt.header.messageNumber ≠ msgNo then none
    else if entry.pkt.header.packetPosition.isLast then some pos
    else if pos = lastPos then none
    else scanRightLoop rb msgNo lastPos fuel pos

def scanNotInOrderMessageRight (rb : RecvBuffer) (startPos msgNo : ℕ) : Option ℕ :=
  let maxOff := distance rb.startSeq (dec rb.maxSeq)
  if maxOff ≤ 0 then none
  else
    let lastPos := word (rb.startSeq + maxOff) &&& rb.mask
    if startPos = lastPos then none
    else scanRightLoop rb msgNo lastPos (rb.len + 1) startPos

def scanLeftLoop (rb : RecvBuffer) (msgNo startIdx : ℕ) : ℕ → ℕ → Option ℕ
  | 0, _ => none
  | fuel + 1, pos =>
    let pos := (pos + rb.len - 1) &&& rb.mask
    let entry := rb.entries pos
    if entry.state ≠ .available then none
    else if entry.pkt.header.messageNumber ≠ msgNo then none
    else if entry.pkt.header.packetPosition = .first ∨
        entry.pkt.header.packetPosition = .single then some pos
    else if pos = startIdx then none
    else scanLeftLoop rb msgNo startIdx fuel pos

def scanNotInOrderMessageLeft (rb : RecvBuffer) (startPos msgNo : ℕ) : Option ℕ :=
  let startIdx := rb.index rb.startSeq
  if startPos = startIdx then none
  else scanLeftLoop rb msgNo startIdx (rb.len + 1) startPos

/-- Check whether a packet that need not be read in order completes a message. -/
def onInsertNotInOrderPacket (rb : RecvBuffer) (insertPos : ℕ) : RecvBuffer :=
  if rb.numOutOfOrderPkts = 0 then rb
  else if rb.firstReadableOOO.isSome then rb
  else
    let header := (rb.entries insertPos).pkt.header
    if header.packetPosition = .single then { rb with firstReadableOOO := some insertPos }
    else if header.packetPosition ≠ .last ∧
        rb.scanNotInOrderMessageRight insertPos header.messageNumber = none then rb
    else
      let firstPktPos :=
        if header.packetPosition = .first then some insertPos
        else rb.scanNotInOrderMessageLeft insertPos header.messageNumber
      match firstPktPos with
      | none => rb
      | some pos => { rb with firstReadableOOO := some pos }

def checkLoop (rb : RecvBuffer) (endPos : ℕ) : ℕ → ℕ → Option ℕ → Bool
  | 0, _, _ => false
  | fuel + 1, pos, msgNo =>
    if pos = endPos then false
    else
      let entry := rb.entries pos
      let header := entry.pkt.header
      if entry.state ≠ .available then false
      else if header.order then false
      else if msgNo ≠ none ∧ msgNo ≠ some header.messageNumber then false
      else if header.packetPosition.isLast then true
      else checkLoop rb endPos fuel ((pos + 1) &&& rb.mask) (some header.messageNumber)

/-- Whether `firstReadableOOO` still points to a complete message. -/
def checkFirstReadableOutOfOrder (rb : RecvBuffer) : Bool :=
  match rb.firstReadableOOO with
  | none => false
  | some first =>
    if rb.numOutOfOrderPkts ≤ 0 then false
    else if rb.startSeq = rb.maxSeq then false
    else
      let maxOff := distance rb.startSeq rb.maxSeq
      let endPos := word (rb.startSeq + maxOff) &&& rb.mask
      checkLoop rb endPos (rb.len + 1) first none

/-- The loop of `updateFirstReadableOutOfOrder`: the slot of the first complete
out-of-order message, if one ends before `lastPos` or before `oooRemain` packets
have been seen.  `current` is the first slot and number of the message being
followed. -/
def updateLoop (rb : RecvBuffer) (lastPos : ℕ) : ℕ → ℕ → ℤ → Option (ℕ × ℕ) → Option ℕ
  | 0, _, _, _ => none
  | fuel + 1, pos, oooRemain, current =>
    if oooRemain ≤ 0 then none
    else
      let entry := rb.entries pos
      let header := entry.pkt.header
      let next := (pos + 1) &&& rb.mask
      if entry.state ≠ .available ∨ header.order then
        if pos = lastPos then none else updateLoop rb lastPos fuel next oooRemain none
      else
        let current :=
          if header.packetPosition = .first ∨ header.packetPosition = .single
          then some (pos, header.messageNumber) else current
        match current with
        | some (posFirst, msgNo) =>
          if header.messageNumber ≠ msgNo then
            if pos = lastPos then none
            else updateLoop rb lastPos fuel next (oooRemain - 1) none
          else if header.packetPosition.isLast then some posFirst
          else if pos = lastPos then none
          else updateLoop rb lastPos fuel next (oooRemain - 1) current
        | none =>
          if pos = lastPos then none
          else updateLoop rb lastPos fuel next (oooRemain - 1) none

def updateFirstReadableOutOfOrder (rb : RecvBuffer) : RecvBuffer :=
  if rb.canReadInOrder ∨ rb.numOutOfOrderPkts ≤ 0 ∨ rb.firstReadableOOO.isSome then rb
  else if rb.startSeq = rb.maxSeq then rb
  else
    let maxOff := distance rb.startSeq rb.maxSeq
    if maxOff ≤ 0 then rb
    else
      let lastPos := word (rb.startSeq + maxOff - 1) &&& rb.mask
      match updateLoop rb lastPos (rb.len + 1) (rb.index rb.startSeq) rb.numOutOfOrderPkts none with
      | none => rb
      | some pos => { rb with firstReadableOOO := some pos }

/-! ## Inserting -/

/-- The result of an insertion at `s`: a gap is reported when the packet lies
beyond the highest number received so far, and something has been received. -/
def insertedAt (rb : RecvBuffer) (s : ℕ) : InsertResult :=
  if rb.maxSeq ≠ rb.startSeq ∧ lessThan rb.maxSeq s then
    { inserted := true, gapStart := rb.maxSeq, gapEnd := dec s }
  else { inserted := true }

def extendedMax (rb : RecvBuffer) (next : ℕ) : ℕ :=
  if lessThan rb.maxSeq next ∨ rb.maxSeq = rb.startSeq then next else rb.maxSeq

def fill (rb : RecvBuffer) (p : Packet) (arrivalTS : ℤ) : RecvBuffer :=
  let s := p.header.sequenceNumber
  { rb.setEntry (rb.index s) { pkt := p, state := .available, arrivalTS := arrivalTS } with
    size := rb.size + 1
    maxSeq := rb.extendedMax (inc s) }

def countOutOfOrder (rb : RecvBuffer) : RecvBuffer :=
  { rb with numOutOfOrderPkts := rb.numOutOfOrderPkts + 1 }

/-- Store a packet that is accepted; in message mode it may complete a message
that can be read out of order. -/
def store (rb : RecvBuffer) (p : Packet) (arrivalTS : ℤ) : RecvBuffer :=
  if rb.messageAPI ∧ !p.header.order then
    (rb.fill p arrivalTS).countOutOfOrder.onInsertNotInOrderPacket
      (rb.index p.header.sequenceNumber)
  else rb.fill p arrivalTS

/-- Store a received packet, unless it is too old, too far ahead or already
there. -/
def insert (rb : RecvBuffer) (p : Packet) (arrivalTS : ℤ) : RecvBuffer × InsertResult :=
  let s := p.header.sequenceNumber
  if lessThan s rb.startSeq then (rb, {})
  else
    let dist := distance rb.startSeq s
    -- one slot is reserved to tell a full ring from an empty one
    if dist < 0 ∨ (rb.len : ℤ) - 1 ≤ dist then (rb, {})
    else if (rb.entries (rb.index s)).state ≠ .empty then (rb, {})
    else (rb.store p arrivalTS, rb.insertedAt s)

/-! ## Reading -/

def takeHead (rb : RecvBuffer) : RecvBuffer :=
  { rb.advance with size := rb.size - 1 }

def readNext (rb : RecvBuffer) : RecvBuffer × Option Packet :=
  if rb.canReadInOrder then (rb.takeHead, some (rb.entryAt rb.startSeq).pkt) else (rb, none)

def uncount (rb : RecvBuffer) (p : Packet) : RecvBuffer :=
  if 0 < rb.numOutOfOrderPkts ∧ !p.header.order then
    { rb with numOutOfOrderPkts := rb.numOutOfOrderPkts - 1 }
  else rb

def takeMessageHead (rb : RecvBuffer) : RecvBuffer :=
  (rb.uncount (rb.entryAt rb.startSeq).pkt).takeHead

def afterRead (rb : RecvBuffer) : RecvBuffer :=
  let rb := rb.releaseFillerEntries
  if rb.messageAPI then rb.updateFirstReadableOutOfOrder else rb

inductive MessageScan where
  | incomplete
  | corrupted
  | complete (count : ℕ)
deriving DecidableEq, Repr

def scanMessage (rb : RecvBuffer) (msgNo : ℕ) : ℕ → ℕ → ℕ → MessageScan
  | 0, _, _ => .incomplete
  | fuel + 1, s, count =>
    let entry := rb.entryAt s
    if entry.state ≠ .available then .incomplete
    else if entry.pkt.header.messageNumber ≠ msgNo then .corrupted
    else if entry.pkt.header.packetPosition.isLast then .complete (count + 1)
    else if count + 1 > rb.len then .incomplete
    else scanMessage rb msgNo fuel (inc s) (count + 1)

def takeMessage : ℕ → RecvBuffer → RecvBuffer × List Packet
  | 0, rb => (rb, [])
  | count + 1, rb =>
    let rest := takeMessage count rb.takeMessageHead
    (rest.1, (rb.entryAt rb.startSeq).pkt :: rest.2)

/-- Read the message at the head, or skip its first packet when it is not the
start of a message. -/
def readMessageInOrder (rb : RecvBuffer) : RecvBuffer × Option (List Packet) :=
  let p := (rb.entryAt rb.startSeq).pkt
  match p.header.packetPosition with
  | .single => (rb.takeMessageHead.afterRead, some [p])
  | .first =>
    match rb.scanMessage p.header.messageNumber (rb.len + 2) rb.startSeq 0 with
    | .incomplete => (rb, none)
    | .corrupted => (rb.takeMessageHead.afterRead, none)
    | .complete count =>
      let taken := takeMessage count rb
      (taken.1.afterRead, some taken.2)
  | .middle | .last => (rb.takeMessageHead.afterRead, none)

/-- The loop of `readMessageOutOfOrder`: mark the packets of the message as read.
The result is `none` when the loop gives up. -/
def readOutLoop : ℕ → ℕ → List Packet → RecvBuffer → RecvBuffer × Option (List Packet)
  | 0, _, _, rb => (rb, none)
  | fuel + 1, i, pkts, rb =>
    let entry := rb.entries i
    if entry.state ≠ .available then (rb, none)
    else
      let p := entry.pkt
      let pkts := pkts ++ [p]
      let rb := rb.uncount p
      let rb : RecvBuffer :=
        { rb.setEntry i { entry with state := .read, pkt := {} } with size := rb.size - 1 }
      if p.header.packetPosition.isLast then (rb, some pkts)
      else if pkts.length > rb.len then (rb, none)
      else readOutLoop fuel ((i + 1) &&& rb.mask) pkts rb

/-- Read a complete out-of-order message; the head does not move past it. -/
def readMessageOutOfOrder (rb : RecvBuffer) : RecvBuffer × Option (List Packet) :=
  match rb.firstReadableOOO with
  | none => (rb, none)
  | some readPos =>
    let out := readOutLoop (rb.len + 2) readPos [] rb
    let rb : RecvBuffer := { out.1 with firstReadableOOO := none }
    match out.2 with
    | none => (rb, none)
    | some pkts => (rb.releaseFillerEntries.updateFirstReadableOutOfOrder, some pkts)

def readMessage (rb : RecvBuffer) : RecvBuffer × Option (List Packet) :=
  if rb.canReadInOrder then rb.readMessageInOrder
  else if rb.firstReadableOOO.isSome then rb.readMessageOutOfOrder
  else (rb, none)

def readTSBPD (rb : RecvBuffer) (now : ℤ) (deliveryTime : ℕ → ℤ) :
    RecvBuffer × Option Packet :=
  let entry := rb.entryAt rb.startSeq
  if entry.state ≠ .available then (rb, none)
  else if now < deliveryTime entry.pkt.header.timestamp then (rb, none)
  else (rb.takeHead, some entry.pkt)

/-! ## Dropping -/

/-- What dropping leaves behind and what it reports: the buffer, the number of
packets dropped and the timestamps of the available ones among them. -/
structure DropResult where
  buffer : RecvBuffer
  count : ℕ := 0
  timestamps : List ℕ := []

def dropHead (rb : RecvBuffer) : RecvBuffer :=
  { rb.setEntry (rb.index rb.startSeq) { state := .drop } with startSeq := inc rb.startSeq }

theorem dropHead_entries (rb : RecvBuffer) :
    rb.dropHead.entries = Function.update rb.entries (rb.index rb.startSeq) { state := .drop } :=
  rfl

def forget (rb : RecvBuffer) (p : Packet) : RecvBuffer :=
  let rb : RecvBuffer := { rb with size := rb.size - 1 }
  if rb.messageAPI ∧ !p.header.order then
    { rb with
      numOutOfOrderPkts := rb.numOutOfOrderPkts - 1
      firstReadableOOO :=
        if rb.firstReadableOOO = some (rb.index rb.startSeq) then none else rb.firstReadableOOO }
  else rb

def dropLoop (upTo : ℕ) : ℕ → DropResult → DropResult
  | 0, r => r
  | fuel + 1, r =>
    let rb := r.buffer
    if lessThan rb.startSeq upTo then
      let entry := rb.entryAt rb.startSeq
      match entry.state with
      | .available =>
        dropLoop upTo fuel
          { buffer := (rb.forget entry.pkt).dropHead
            count := r.count + 1
            timestamps := r.timestamps ++ [entry.pkt.header.timestamp] }
      | .empty => dropLoop upTo fuel { r with buffer := rb.dropHead, count := r.count + 1 }
      | .drop | .read => dropLoop upTo fuel { r with buffer := rb.dropHead }
    else r

def drop (rb : RecvBuffer) (upTo : ℕ) : DropResult :=
  let r := dropLoop upTo (ahead rb.startSeq upTo) { buffer := rb }
  let rb := r.buffer.releaseFillerEntries
  if rb.messageAPI then
    let rb := if rb.checkFirstReadableOutOfOrder then rb else { rb with firstReadableOOO := none }
    { r with buffer := rb.updateFirstReadableOutOfOrder }
  else { r with buffer := rb }

def nextAvailable (rb : RecvBuffer) (s : ℕ) : Option Packet :=
  let found := scan (fun s => (rb.entryAt s).state = .available) rb.maxSeq (ahead s rb.maxSeq) s
  if lessThan found rb.maxSeq then some (rb.entryAt found).pkt else none

/-- Whether the head is a gap that can no longer be filled in time: the delivery
time of the nearest packet behind it has passed.  A delivery time of zero counts
as unknown. -/
def headTooLate (rb : RecvBuffer) (now : ℤ) (deliveryTime : ℕ → ℤ) : Bool :=
  if lessThan rb.startSeq rb.maxSeq then
    if (rb.entryAt rb.startSeq).state = .available then false
    else
      match rb.nextAvailable (inc rb.startSeq) with
      | none => false
      | some p =>
        let refDelivery := deliveryTime p.header.timestamp
        refDelivery ≠ 0 ∧ refDelivery ≤ now
  else false

def dropTooLateLoop (now : ℤ) (deliveryTime : ℕ → ℤ) : ℕ → RecvBuffer → RecvBuffer × ℕ
  | 0, rb => (rb, 0)
  | fuel + 1, rb =>
    if rb.headTooLate now deliveryTime then
      let rest := dropTooLateLoop now deliveryTime fuel rb.dropHead
      (rest.1, rest.2 + 1)
    else (rb, 0)

/-- Skip the gaps at the head that can no longer be filled in time. -/
def dropTooLate (rb : RecvBuffer) (now : ℤ) (deliveryTime : ℕ → ℤ) : RecvBuffer × ℕ :=
  let r := dropTooLateLoop now deliveryTime (ahead rb.startSeq rb.maxSeq) rb
  (r.1.releaseFillerEntries, r.2)

/-! ## Reports -/

def lossLoop (rb : RecvBuffer) : ℕ → ℕ → List ℕ
  | 0, _ => []
  | fuel + 1, s =>
    if lessThan s rb.maxSeq then
      if (rb.entryAt s).state = .empty then s :: lossLoop rb fuel (inc s)
      else lossLoop rb fuel (inc s)
    else []

def generateLossList (rb : RecvBuffer) : List ℕ :=
  lossLoop rb (ahead rb.startSeq rb.maxSeq) rb.startSeq

/-- The next expected sequence number: the first gap at or after the head. -/
def ackSequence (rb : RecvBuffer) : ℕ :=
  scan (fun s => (rb.entryAt s).state = .empty) rb.maxSeq (ahead rb.startSeq rb.maxSeq)
    rb.startSeq

def capacity (rb : RecvBuffer) : ℕ := rb.len - 1

def availableSize (rb : RecvBuffer) (lastAck : ℕ) : ℤ :=
  let cap : ℤ := rb.len - 1
  if !lessThan rb.startSeq lastAck then cap
  else
    let used := distance rb.startSeq lastAck
    if used > cap then 0 else cap - used + 1

def peekNextAvailableTimestamp (rb : RecvBuffer) : Option ℕ :=
  (rb.nextAvailable rb.startSeq).map fun p => p.header.timestamp

def setInitialRcvSeq (rb : RecvBuffer) (newISN : ℕ) : RecvBuffer :=
  { rb with
    entries := fun _ => {}
    startSeq := newISN
    maxSeq := newISN
    size := 0
    numOutOfOrderPkts := 0
    firstReadableOOO := none }

end RecvBuffer

end SrtGo.Buffer
