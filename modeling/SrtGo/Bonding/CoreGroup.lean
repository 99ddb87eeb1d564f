import SrtGo.Bonding.Merge
import SrtGo.Core.Step
import SrtGo.Lib.Heaviest

/-!
# A group of connections

The state machine that coordinates several connections: they share a sequence space and the
source timestamps, and what they deliver is merged.  In broadcast mode every connection sends
every payload.  In backup mode one connection sends; when it makes no progress, the best of the
others is activated and sent what was written recently.
-/

namespace SrtGo.Core

open Buffer Bytes Congestion Crypto SrtGo.Seq

inductive GroupMode where
  | broadcast
  | backup
deriving DecidableEq, Repr

/-- The role and the health of a member in a backup group. -/
inductive BackupState where
  | standby
  | activeFresh
  | activeStable
  | activeUnstable
  | broken
deriving DecidableEq, Repr

def BackupState.active : BackupState → Bool
  | .activeFresh | .activeStable | .activeUnstable => true
  | .standby | .broken => false

def BackupState.healthy : BackupState → Bool
  | .activeFresh | .activeStable => true
  | .activeUnstable | .standby | .broken => false

/-- A member of a group.  The first `routed` events of its connection have been consumed. -/
structure GroupMember (σ : Type) where
  conn : Conn σ
  weight : ℕ
  state : BackupState := .standby
  activeSince : ℤ := 0
  lastProgress : ℤ := 0
  lastAckSeq : ℕ := 0
  ackSeqSet : Bool := false
  tbSynced : Bool := false
  routed : ℕ := 0

structure BufferedMsg where
  seqNo : ℕ
  srcTime : ℕ
  payload : Bytes
deriving DecidableEq, Repr

structure Group (σ : Type) where
  mode : GroupMode
  members : List (GroupMember σ) := []
  stabTimeout : ℤ := 1000000
  nextSeq : ℕ := 0
  seqInit : Bool := false
  sndTSBase : ℕ := 0
  tsInit : Bool := false
  senderBuf : List BufferedMsg := []
  senderBufCap : ℕ := 2048
  merge : Bonding.Merge := {}
  groupTB : Option Tsbpd.GroupTimeBase := none

/-- Restart the receiver at a sequence number, without any data. -/
def Conn.resetRecvTo {σ : Type} (c : Conn σ) (nextSeq : ℕ) : Conn σ :=
  { c with
    rcv := { c.rcv with recvBuf := c.rcv.recvBuf.setInitialRcvSeq nextSeq }
    ack := { c.ack with rcvLastAckAck := nextSeq } }

namespace GroupMember

variable {σ : Type}

def track (m : GroupMember σ) (now : ℤ) : GroupMember σ :=
  let acked := m.conn.snd.sendBuf.startSeq
  if !m.ackSeqSet ∨ greaterThan acked m.lastAckSeq then
    { m with lastAckSeq := acked, ackSeqSet := true, lastProgress := now }
  else m

def timeout (m : GroupMember σ) (stabTimeout : ℤ) : ℤ :=
  max stabTimeout (m.conn.ack.rtt * 2 + m.conn.ack.rttVar * 4)

def healthAt (m : GroupMember σ) (stabTimeout now : ℤ) : BackupState :=
  let timeout := m.timeout stabTimeout
  let since := now - m.lastProgress
  if 4 * timeout < since then .broken
  else if timeout < since then .activeUnstable
  else if m.state = .activeUnstable then .activeStable
  else if m.state = .activeFresh ∧ timeout < now - m.activeSince then .activeStable
  else m.state

def qualify (m : GroupMember σ) (stabTimeout now : ℤ) : GroupMember σ :=
  if m.conn.closed then { m with state := .broken }
  else if m.state = .standby ∨ m.state = .broken then m
  else
    let m := m.track now
    { m with state := m.healthAt stabTimeout now }

def isReady (m : GroupMember σ) : Bool := m.state = .standby && !m.conn.closed

end GroupMember

namespace Group

variable {σ : Type}

def new (mode : GroupMode) : Group σ := { mode := mode }

def setStabilityTimeout (g : Group σ) (d : ℤ) : Group σ :=
  if 0 < d then { g with stabTimeout := d } else g

/-- Add a connection.  The first one gives its sequence number to the group, later ones are
moved to the number of the group. -/
def addMember (g : Group σ) (c : Conn σ) (weight : ℕ) : Group σ :=
  if !g.seqInit then
    { g with
      nextSeq := c.snd.sendBuf.nextSeq
      seqInit := true
      members := g.members ++ [{ conn := c, weight := weight }] }
  else
    let c := if c.snd.sendBuf.nextSeq ≠ g.nextSeq then
        c.setSendBuf (c.snd.sendBuf.overrideNextSeq g.nextSeq)
      else c
    { g with members := g.members ++ [{ conn := c, weight := weight }] }

def modifyConn (g : Group σ) (i : ℕ) (f : Conn σ → Conn σ) : Group σ :=
  { g with members := g.members.modify i fun m => { m with conn := f m.conn } }

def indicesOf (g : Group σ) (p : GroupMember σ → Bool) : List ℕ :=
  (List.range g.members.length).filter fun i => (g.members[i]?).any p

def weightAt (g : Group σ) (i : ℕ) : ℕ := ((g.members[i]?).map GroupMember.weight).getD 0

/-- The ready standby member of the highest weight; the first one of equal weights. -/
def bestStandby (g : Group σ) : Option ℕ := heaviest g.weightAt (g.indicesOf GroupMember.isReady)

/-- Keep a payload, and forget those that an active member has acknowledged and those beyond the
capacity. -/
def bufferMsg (g : Group σ) (m : BufferedMsg) : Group σ :=
  let buf := g.senderBuf ++ [m]
  let acks := (g.members.filter fun m => m.state.active && m.ackSeqSet).map GroupMember.lastAckSeq
  let maxAcked := acks.foldl
    (fun best ack =>
      match best with
      | none => some ack
      | some b => if greaterThan ack b then some ack else some b) none
  let buf :=
    match maxAcked with
    | none => buf
    | some a => buf.dropWhile fun m => lessThan m.seqNo a
  { g with senderBuf := buf.drop (buf.length - g.senderBufCap) }

variable [Controller σ] [Primitives]

def activate (g : Group σ) (now : ℤ) (i : ℕ) : Group σ :=
  let replay (c : Conn σ) : Conn σ :=
    g.senderBuf.foldl (fun c m => c.writeCoordinated now m.payload m.seqNo m.srcTime) c
  { g with
    members := g.members.modify i fun m =>
      { m with
        state := .activeFresh
        activeSince := now
        lastProgress := now
        ackSeqSet := false
        conn := replay m.conn } }

/-- Qualify all members; the result lists those that carry a write.  Without a healthy one the
best standby member is activated. -/
def activeMembers (g : Group σ) (now : ℤ) : Group σ × List ℕ :=
  let g := { g with members := g.members.map fun m => m.qualify g.stabTimeout now }
  let active := g.indicesOf fun m => m.state.active
  if (g.members.any fun m => m.state.healthy) then (g, active)
  else
    match g.bestStandby with
    | none => (g, active)
    | some i => (g.activate now i, active ++ [i])

def sendOn (g : Group σ) (is : List ℕ) (now : ℤ) (m : BufferedMsg) : Group σ :=
  is.foldl (fun g i => g.modifyConn i fun c => c.writeCoordinated now m.payload m.seqNo m.srcTime) g

/-- The timestamps of a group count from its first write. -/
def startClock (g : Group σ) (now : ℤ) : Group σ :=
  if !g.tsInit then { g with sndTSBase := srtTimestamp now, tsInit := true } else g

def nextMsg (g : Group σ) (now : ℤ) (payload : Bytes) : BufferedMsg :=
  let g := g.startClock now
  ⟨g.nextSeq, (srtTimestamp now + 2 ^ 32 - g.sndTSBase) % 2 ^ 32, payload⟩

def advance (g : Group σ) (now : ℤ) : Group σ :=
  let g := g.startClock now
  { g with nextSeq := inc g.nextSeq }

def write (g : Group σ) (now : ℤ) (payload : Bytes) : Group σ :=
  if g.members = [] then g
  else
    let m := g.nextMsg now payload
    let g := g.advance now
    match g.mode with
    | .backup =>
      let (g, active) := g.activeMembers now
      (g.sendOn active now m).bufferMsg m
    | .broadcast => g.sendOn (List.range g.members.length) now m

def monitor (g : Group σ) (now : ℤ) : Group σ :=
  if g.mode ≠ .backup then g else (g.activeMembers now).1

/-! ## Receiving -/

section

omit [Controller σ] [Primitives]

def firstTimeBase (members : List (GroupMember σ)) : Option (ℕ × Tsbpd.GroupTimeBase) :=
  (members.zipIdx.filterMap fun (m, i) =>
    if m.conn.rcv.tsbpdBaseSet then
      m.conn.rcv.tsbpdTimer.map fun t => (i, t.getInternalTimeBase)
    else none).head?

def syncMember (tb : Tsbpd.GroupTimeBase) (m : GroupMember σ) : GroupMember σ :=
  match m.tbSynced, m.conn.rcv.tsbpdTimer with
  | false, some t =>
    { m with
      tbSynced := true
      conn := { m.conn with
        rcv := { m.conn.rcv with
          tsbpdTimer := some (t.applyGroupTime tb t.delay)
          tsbpdBaseSet := true } } }
  | _, _ => m

def captureTimeBase (g : Group σ) : Group σ :=
  if g.groupTB.isSome then g
  else
    match firstTimeBase g.members with
    | none => g
    | some (i, tb) =>
      { g with
        groupTB := some tb
        members := g.members.modify i fun m => { m with tbSynced := true } }

def syncTimebases (g : Group σ) : Group σ :=
  let g := g.captureTimeBase
  match g.groupTB with
  | none => g
  | some tb => { g with members := g.members.map (syncMember tb) }

/-- Bring the idle receivers of a backup group to where a member has received. -/
def alignReceivers (g : Group σ) (i : ℕ) : Group σ :=
  match g.members[i]? with
  | none => g
  | some source =>
    let ackSeq := source.conn.rcv.recvBuf.ackSequence
    { g with
      members := g.members.mapIdx fun j m =>
        if j = i ∨ m.conn.closed then m
        else if m.conn.rcv.recvBuf.size = 0 ∧ greaterThan ackSeq m.conn.rcv.recvBuf.startSeq then
          { m with conn := m.conn.resetRecvTo ackSeq }
        else m }

def drainEvents (g : Group σ) (i : ℕ) : Group σ :=
  match g.members[i]? with
  | none => g
  | some m =>
    let merge := (m.conn.events.drop m.routed).foldl
      (fun merge e =>
        match e with
        | .dataReceived data s _ _ => merge.filterDelivery s data
        | _ => merge) g.merge
    { g with
      merge := merge
      members := g.members.modify i fun m => { m with routed := m.conn.events.length } }

def routeMember (g : Group σ) (i : ℕ) : Group σ :=
  let g := g.syncTimebases
  let g := if g.mode = .backup then g.alignReceivers i else g
  g.drainEvents i

end

end Group

/-! ## Runs -/

inductive GroupInput (σ : Type) where
  | setStabilityTimeout (d : ℤ)
  | addMember (c : Conn σ) (weight : ℕ)
  | write (now : ℤ) (payload : Bytes)
  | monitor (now : ℤ)
  | routeMember (i : ℕ)
  | member (i : ℕ) (input : Input)

def Group.step {σ : Type} [Controller σ] [Primitives] (g : Group σ) : GroupInput σ → Group σ
  | .setStabilityTimeout d => g.setStabilityTimeout d
  | .addMember c weight => g.addMember c weight
  | .write now payload => g.write now payload
  | .monitor now => g.monitor now
  | .routeMember i => g.routeMember i
  | .member i input => g.modifyConn i fun c => c.step input

end SrtGo.Core
