import SrtGo.Core.Send
import SrtGo.Lib.Heaviest

/-!
# Writing to a group

A group sends what is written to it on several connections.  Here is the sending side of the
group that an application uses: its members, the three ways to write, the choice of the active
members in backup mode, and the monitor.

A connection is seen as the group sees it.  It takes messages, which wait until its own loop
turns them into packets and numbers them one after the other; the group may read the next
number and may set it.  What the session answers to each message, and how far its loop has
come when the answer is there, is not in the hands of the group: the two are given with the
connection.

The group mutex is part of the state.  An operation that waits for ever has no result.

The order in which standby members of the same weight are tried is up to the sorting function of
the library, which promises no stability.  It is a parameter of the model.
-/

namespace SrtGo.Bonding

open Bytes SrtGo.Seq

/-! ## Connections -/

/-- A message that a connection has taken.  The tag counts the calls of `Write` on the group; it
is not known to the code. -/
structure Parcel where
  tag : ℕ
  data : Bytes
deriving DecidableEq, Repr

structure Shipment where
  tag : ℕ
  seqNo : ℕ
deriving DecidableEq, Repr

/-- What the group reads of the statistics of a connection.  Times are in microseconds. -/
structure LinkStats where
  negotiatedLatency : ℤ := 120000
  rtt : ℤ := 100000
  rttVar : ℤ := 50000
  sentDropped : ℕ := 0
deriving DecidableEq, Repr

structure Link where
  nextSeq : ℕ
  queue : List Parcel := []
  sent : List Shipment := []
  /-- How often the session was asked to take a message, and what it answers each time. -/
  writes : ℕ := 0
  result : ℕ → Option String := fun _ => none
  /-- How many messages the loop numbers after each answer. -/
  pumped : ℕ → ℕ := fun _ => 1
  peerGroupID : ℕ := 0
  payloadSize : ℕ := 1316
  fileCongestion : Bool := false
  tsbpd : Bool := true
  ackSeqNo : ℕ := 0
  connected : Bool := true
  groupIdle : Bool := false
  peerIdleTimeout : ℤ := 5000000
  stats : LinkStats := {}

def packetCount (payloadSize : ℕ) (tsbpd : Bool) (b : Bytes) : ℕ :=
  if payloadSize = 0 ∨ b.length ≤ payloadSize ∨ tsbpd then 1
  else (Core.fragments payloadSize b.length b).length

namespace Link

def packets (l : Link) (b : Bytes) : ℕ := packetCount l.payloadSize l.tsbpd b

def ship (l : Link) : Link :=
  match l.queue with
  | [] => l
  | p :: rest =>
    { l with
      queue := rest
      nextSeq := wrap (l.nextSeq + l.packets p.data)
      sent := l.sent ++ [⟨p.tag, l.nextSeq⟩] }

def pump (l : Link) (n : ℕ) : Link := ship^[n] l

/-- Hand a message to the connection; the result is the error, if there is one. -/
def write (l : Link) (p : Parcel) : Link × Option String :=
  match Core.Conn.checkPayloadSize l.fileCongestion l.payloadSize p.data with
  | some err => (l, some err)
  | none =>
    let err := l.result l.writes
    let taken := if err.isNone then { l with queue := l.queue ++ [p] } else l
    ({ taken with writes := l.writes + 1 }.pump (l.pumped l.writes), err)

def overrideSndSeqNo (l : Link) (nextSeq : ℕ) : Link := { l with nextSeq := nextSeq }

end Link

/-! ## Members -/

inductive GroupMode where
  | broadcast
  | backup
  | balancing
deriving DecidableEq, Repr

inductive MemberStatus where
  | pending
  | idle
  | running
  | broken
deriving DecidableEq, Repr

inductive BackupState where
  | standby
  | activeFresh
  | activeStable
  | activeUnstable
  | activeWary
  | broken
deriving DecidableEq, Repr

def isBackupActive : BackupState → Bool
  | .activeFresh | .activeStable | .activeUnstable | .activeWary => true
  | .standby | .broken => false

/-- A member of a group.  A time that is not set is `none`.  The members that join are counted;
the code knows them by their addresses. -/
structure MemberConn where
  conn : Link
  serial : ℕ := 0
  token : ℤ
  weight : ℕ
  status : MemberStatus := .idle
  backupState : BackupState := .standby
  activeSince : Option ℤ := none
  lastResponse : ℤ
  prevDrops : ℕ := 0
  unstableSince : Option ℤ := none
  warySince : Option ℤ := none
  pendingSince : Option ℤ := none
  isIdle : Bool := false

namespace MemberConn

def isStandby (mc : MemberConn) : Bool :=
  mc.status = .idle || (mc.status = .running && mc.backupState = .standby)

def isActive (mc : MemberConn) : Bool :=
  mc.status = .running && isBackupActive mc.backupState

def isStable (mc : MemberConn) : Bool :=
  mc.status = .running && mc.backupState = .activeStable

def within (since : Option ℤ) (now d : ℤ) : Bool :=
  match since with
  | none => false
  | some t => decide (now - t ≤ d)

/-- The state that the response times and the drops of a member call for.  The new count of the
drops is part of the result. -/
def qualifyBackupState (mc : MemberConn) (stabTimeout now : ℤ) : BackupState × ℕ :=
  if mc.status = .broken then (.broken, mc.prevDrops)
  else if mc.backupState = .standby then (.standby, mc.prevDrops)
  -- an idle link keeps its state during a pause
  else if mc.isIdle && isBackupActive mc.backupState then (mc.backupState, mc.prevDrops)
  else
    let st := mc.conn.stats
    let peerLatency := if st.negotiatedLatency = 0 then 120000 else st.negotiatedLatency
    let initialTimeout := max stabTimeout peerLatency
    let isActivationPhase := within mc.activeSince now (initialTimeout + 50000)
    let stabilityTimeout :=
      if isActivationPhase then initialTimeout
      else min (max (2 * st.rtt + 4 * st.rttVar) stabTimeout) peerLatency
    let lastResponse := max mc.lastResponse (mc.activeSince.getD mc.lastResponse)
    if stabilityTimeout < now - lastResponse then (.activeUnstable, mc.prevDrops)
    else
      let drops := max mc.prevDrops st.sentDropped
      if mc.prevDrops < st.sentDropped ∧ !isActivationPhase then (.activeUnstable, drops)
      else if isActivationPhase then (.activeFresh, drops)
      else if mc.unstableSince.isSome ∧ mc.warySince.isNone then (.activeWary, drops)
      else if within mc.warySince now (4 * peerLatency) then (.activeWary, drops)
      else (.activeStable, drops)

def assignBackupState (mc : MemberConn) (state : BackupState) (now : ℤ) : MemberConn :=
  let mc := { mc with backupState := state }
  match state with
  | .standby | .broken | .activeStable =>
    { mc with activeSince := none, unstableSince := none, warySince := none }
  | .activeFresh =>
    { mc with
      activeSince := some (mc.activeSince.getD now), unstableSince := none, warySince := none }
  | .activeUnstable =>
    { mc with
      unstableSince := some (mc.unstableSince.getD now), activeSince := none, warySince := none }
  | .activeWary => { mc with warySince := some (mc.warySince.getD now) }

def requalify (mc : MemberConn) (stabTimeout now : ℤ) : MemberConn :=
  let (state, drops) := mc.qualifyBackupState stabTimeout now
  { mc with prevDrops := drops }.assignBackupState state now

end MemberConn

/-! ## The group and its mutex -/

/-- What the running call holds of the group mutex. -/
inductive Mutex where
  | free
  | reading
  | writing
deriving DecidableEq, Repr

structure BufferedMsg where
  seqNo : ℕ
  parcel : Parcel
deriving DecidableEq, Repr

/-- A group.  The number of the members that have joined and the messages that were written with
success are not kept by the code. -/
structure Group where
  mode : GroupMode
  sendISN : ℕ
  mu : Mutex := .free
  joined : ℕ := 0
  members : List MemberConn := []
  lastSchedSeqNo : Option ℕ := none
  balanceIdx : ℕ := 0
  balanceMsgNo : ℕ := 0
  senderBuf : List BufferedMsg := []
  senderBufCap : ℕ := 1000
  stabTimeout : ℤ := 1000000
  closed : Bool := false
  sentPackets : ℕ := 0
  written : List Bytes := []

inductive WriteResult where
  | written (n : ℕ)
  | failed (err : String)
deriving DecidableEq, Repr

structure Tally where
  nsuccessful : ℕ := 0
  lastErr : Option String := none
  written : ℕ := 0
  curseq : Option ℕ := none

/-- One more member has taken the message of `n` bytes; its next number counts if it is the
first one. -/
def Tally.succeed (t : Tally) (n seqNo : ℕ) : Tally :=
  { t with
    nsuccessful := t.nsuccessful + 1
    written := n
    curseq := some (t.curseq.getD seqNo) }

/-- What the call returns: the texts are for the case that no member has taken the message. -/
def Tally.result (t : Tally) (allFailed noMembers : String) : WriteResult :=
  if t.nsuccessful = 0 then .failed ((t.lastErr.map (allFailed ++ ·)).getD noMembers)
  else .written t.written

/-- What the library does to sort by descending weights: some permutation in that order. -/
class SortFunc where
  sort : (ℕ → ℕ) → List ℕ → List ℕ
  perm : ∀ weight l, (sort weight l).Perm l
  sorted : ∀ weight l, (sort weight l).Pairwise fun i j => weight j ≤ weight i

namespace Group

/-- Take the mutex; a call that holds it already waits for ever. -/
def lock (g : Group) : Option Group :=
  if g.mu = .free then some { g with mu := .writing } else none

def unlock (g : Group) : Option Group :=
  if g.mu = .writing then some { g with mu := .free } else none

def rLock (g : Group) : Option Group :=
  if g.mu = .free then some { g with mu := .reading } else none

def rUnlock (g : Group) : Option Group :=
  if g.mu = .reading then some { g with mu := .free } else none

def modifyMember (g : Group) (i : ℕ) (f : MemberConn → MemberConn) : Group :=
  { g with members := g.members.modify i f }

def modifyConn (g : Group) (i : ℕ) (f : Link → Link) : Group :=
  g.modifyMember i fun mc => { mc with conn := f mc.conn }

def indicesOf (g : Group) (p : MemberConn → Bool) : List ℕ :=
  (List.range g.members.length).filter fun i => (g.members[i]?).any p

def breakMember (g : Group) (i : ℕ) : Group :=
  g.modifyMember i fun mc =>
    { mc with
      status := .broken
      backupState := if g.mode = .backup then .broken else mc.backupState }

def markBroken (g : Group) (i : ℕ) : Option Group := do
  let g ← g.lock
  (g.breakMember i).unlock

def connWrite (g : Group) (i : ℕ) (p : Parcel) : Group × Option String :=
  match g.members[i]? with
  | none => (g, none)
  | some mc => (g.modifyConn i fun l => (l.write p).1, (mc.conn.write p).2)

def schedSeqNo (g : Group) (i : ℕ) : ℕ := ((g.members[i]?).map fun mc => mc.conn.nextSeq).getD 0

/-- Move a member to the number of the first successful send, if its peer knows of groups. -/
def align (g : Group) (i : ℕ) (curseq : Option ℕ) : Group :=
  match curseq, g.members[i]? with
  | some s, some mc =>
    if mc.conn.peerGroupID ≠ 0 ∧ s ≠ mc.conn.nextSeq then
      g.modifyConn i fun l => l.overrideSndSeqNo s
    else g
  | _, _ => g

def countSent (g : Group) : Group := { g with sentPackets := g.sentPackets + 1 }

/-- Send on the members in turn.  With `sync` the next number of a member is aligned before, and
`activate` is done to a member that has taken the message. -/
def sendAll (sync : Bool) (activate : Group → ℕ → Option Group) (p : Parcel) :
    List ℕ → Group × Tally → Option (Group × Tally)
  | [], r => some r
  | i :: rest, (g, t) => do
      let g := if sync then g.align i t.curseq else g
      match g.connWrite i p with
      | (g, some err) =>
        let g ← g.markBroken i
        sendAll sync activate p rest (g, { t with lastErr := some err })
      | (g, none) =>
        let g ← activate g.countSent i
        sendAll sync activate p rest (g, t.succeed p.data.length (g.schedSeqNo i))

/-- An idle member is running after its first successful write. -/
def promote (g : Group) (i : ℕ) : Option Group := do
  let g ← g.lock
  (g.modifyMember i fun mc => { mc with status := .running }).unlock

def noteSeq (g : Group) (curseq : Option ℕ) : Group :=
  { g with lastSchedSeqNo := curseq <|> g.lastSchedSeqNo }

def record (g : Group) (b : Bytes) (t : Tally) : Group :=
  if t.nsuccessful = 0 then g else { g with written := g.written ++ [b] }

def parcel (g : Group) (b : Bytes) : Parcel := ⟨g.written.length, b⟩

/-! ## Broadcast -/

/-- Send on the running members, then on the idle ones. -/
def sendBroadcast (g : Group) (b : Bytes) (activeLinks idleLinks : List ℕ) :
    Option (Group × WriteResult) :=
  if activeLinks.length + idleLinks.length = 0 then
    some (g, .failed "srt: no active group members")
  else do
    let p := g.parcel b
    let r ← sendAll false (fun g _ => some g) p activeLinks (g, {})
    let (g, t) ← sendAll true promote p idleLinks r
    return ((g.noteSeq t.curseq).record b t, t.result "srt: all group members failed: " "")

def writeBroadcast (g : Group) (b : Bytes) : Option (Group × WriteResult) := do
  let g ← g.rLock
  let activeLinks := g.indicesOf fun mc => mc.status = .running
  let idleLinks := g.indicesOf fun mc => mc.status = .idle
  let g ← g.rUnlock
  g.sendBroadcast b activeLinks idleLinks

/-! ## Backup -/

/-- The number of the messages at the head of the buffer that are before an acknowledgement. -/
def pruneIdx (maxACK : ℕ) (buf : List BufferedMsg) : ℕ :=
  (buf.takeWhile fun m => lessThan m.seqNo maxACK).length

def pruneAckedMessages (g : Group) : Option Group :=
  if g.senderBuf = [] then some g
  else do
    let g ← g.rLock
    let acks : List ℕ :=
      (g.members.filter fun mc => mc.status ≠ .broken).map fun mc => mc.conn.ackSeqNo
    let g ← g.rUnlock
    match acks.max? with
    | none => some g
    | some maxACK => some { g with senderBuf := g.senderBuf.drop (pruneIdx maxACK g.senderBuf) }

def bufferMsg (g : Group) (p : Parcel) : Option Group := do
  let g ← g.pruneAckedMessages
  let buf := g.senderBuf ++ [⟨g.lastSchedSeqNo.getD (2 ^ 32 - 1), p⟩]
  return { g with senderBuf := buf.drop (buf.length - g.senderBufCap) }

/-- Send the messages that are kept on a member; errors are ignored. -/
def replaySenderBuf (g : Group) (i : ℕ) : Group :=
  g.senderBuf.foldl (fun g m => (g.connWrite i m.parcel).1) g

def activateFresh (now : ℤ) (mc : MemberConn) : MemberConn :=
  { mc with
    status := .running
    backupState := .activeFresh
    activeSince := some now
    lastResponse := now }

def keep (g : Group) (p : Parcel) (curseq : Option ℕ) : Option Group :=
  match curseq with
  | none => some g
  | some s => do
      let g ← g.bufferMsg p
      return g.noteSeq (some s)

def alignStandby (g : Group) (i : ℕ) (curseq : Option ℕ) : Group :=
  match curseq, g.members[i]? with
  | some s, some mc =>
    if mc.conn.peerGroupID ≠ 0 then g.modifyConn i fun l => l.overrideSndSeqNo s else g
  | _, _ => g

/-- Try the standby members until one has taken the message. -/
def activateStandby (now : ℤ) (p : Parcel) :
    List ℕ → Group × Tally → Option (Group × Tally)
  | [], r => some r
  | i :: rest, (g, t) => do
      let g := g.alignStandby i t.curseq
      let g := if t.nsuccessful = 0 then g.replaySenderBuf i else g
      match g.connWrite i p with
      | (g, some err) =>
        let g ← g.markBroken i
        activateStandby now p rest (g, { t with lastErr := some err })
      | (g, none) => do
          let g ← g.countSent.lock
          let g ← (g.modifyMember i (activateFresh now)).unlock
          let t' := t.succeed p.data.length (g.schedSeqNo i)
          -- the message is kept unless it is kept already
          let g ← if t.curseq.isNone then g.keep p t'.curseq else some g
          return (g, t')

/-- The stable member of the highest weight; the first one of equal weights. -/
def bestStable (g : Group) : Option MemberConn :=
  heaviest MemberConn.weight (g.members.filter MemberConn.isStable)

def shouldSilence (best mc : MemberConn) : Bool :=
  mc.isActive && mc.token ≠ best.token &&
    (mc.backupState = .activeStable || decide (mc.weight ≤ best.weight))

/-- Silence the members that a stable one makes redundant.  The keepalives are sent without the
mutex, which is taken again after them. -/
def silenceRedundantLinks (g : Group) (now : ℤ) : Option Group := do
  let g ← g.lock
  match g.bestStable with
  | none => g.unlock
  | some best =>
    let g := { g with
      members := g.members.map fun mc =>
        if shouldSilence best mc then mc.assignBackupState .standby now else mc }
    let g ← g.unlock
    g.lock

def qualifyMembers (g : Group) (now : ℤ) : Group :=
  { g with
    members := g.members.map fun mc =>
      if mc.status = .running ∧ mc.backupState ≠ .standby then mc.requalify g.stabTimeout now
      else mc }

def weightAt (g : Group) (i : ℕ) : ℕ := ((g.members[i]?).map MemberConn.weight).getD 0

def maxWeight (g : Group) (l : List ℕ) : ℕ := (l.map g.weightAt).foldl max 0

section
variable [SortFunc]

def sortByWeight (g : Group) (l : List ℕ) : List ℕ := SortFunc.sort g.weightAt l

/-- Send on the active members, and on a standby one if no active member has taken the message
or a standby one is to be preferred. -/
def sendBackup (g : Group) (now : ℤ) (b : Bytes) (activeMembers standbyMembers : List ℕ) :
    Option (Group × Tally) := do
  let p := g.parcel b
  let preempt := decide (g.maxWeight activeMembers < g.maxWeight standbyMembers)
  let (g, t) ← sendAll true (fun g _ => some g) p activeMembers (g, {})
  let g ← g.keep p t.curseq
  if t.nsuccessful = 0 ∨ preempt then
    activateStandby now p (g.sortByWeight standbyMembers) (g, t)
  else some (g, t)

def writeBackup (g : Group) (now : ℤ) (b : Bytes) : Option (Group × WriteResult) := do
  let g ← g.lock
  let g := g.qualifyMembers now
  let activeMembers := g.indicesOf MemberConn.isActive
  let standbyMembers := g.indicesOf MemberConn.isStandby
  let g ← g.unlock
  let (g, t) ← g.sendBackup now b activeMembers standbyMembers
  let g ← g.silenceRedundantLinks now
  return (g.record b t,
    t.result "srt: all group members failed: " "srt: no active or standby group members")

end

/-! ## Balancing -/

def nextGroupMsgNo (n : ℕ) : ℕ := Core.nextMsgNo n

def balanceLoop (p : Parcel) (links : List ℕ) :
    ℕ → Group × Tally → Option (Group × Tally)
  | 0, r => some r
  | attempts + 1, (g, t) =>
    let i := links.getD (g.balanceIdx % links.length) 0
    let g := { g with balanceIdx := g.balanceIdx + 1 }
    match g.connWrite i p with
    | (g, some err) => do
        let g ← g.markBroken i
        balanceLoop p links attempts (g, { t with lastErr := some err })
    | (g, none) =>
      some ({ g.countSent with balanceMsgNo := nextGroupMsgNo g.balanceMsgNo },
        t.succeed p.data.length 0)

def startBalance (g : Group) : Group :=
  if g.balanceMsgNo = 0 then { g with balanceMsgNo := 1 } else g

def sendBalancing (g : Group) (b : Bytes) (links : List ℕ) : Option (Group × WriteResult) :=
  if links.length = 0 then some (g, .failed "srt: no active group members")
  else do
    let (g, t) ← balanceLoop (g.parcel b) links links.length (g.startBalance, {})
    return (g.record b t, t.result "srt: balancing write failed on all members: " "")

def writeBalancing (g : Group) (b : Bytes) : Option (Group × WriteResult) := do
  let g ← g.rLock
  let links := g.indicesOf fun mc => mc.status = .running || mc.status = .idle
  let g ← g.rUnlock
  g.sendBalancing b links

/-! ## Write -/

def write [SortFunc] (g : Group) (now : ℤ) (b : Bytes) : Option (Group × WriteResult) :=
  if g.closed then some (g, .failed "srt: group closed")
  else
    match g.mode with
    | .broadcast => g.writeBroadcast b
    | .backup => g.writeBackup now b
    | .balancing => g.writeBalancing b

theorem mem_sortByWeight [SortFunc] {g : Group} {l : List ℕ} {i : ℕ} :
    i ∈ g.sortByWeight l ↔ i ∈ l :=
  (SortFunc.perm _ l).mem_iff

end Group

namespace StableSort

/-- Sorting that keeps the order of equal weights. -/
scoped instance : SortFunc where
  sort weight l := l.insertionSort fun i j => weight j ≤ weight i
  perm _ l := List.perm_insertionSort _ l
  sorted weight l := by
    have : IsTrans ℕ fun i j => weight j ≤ weight i := ⟨fun _ _ _ h h' => h'.trans h⟩
    have : Std.Total fun i j => weight j ≤ weight i := ⟨fun i j => le_total (weight j) (weight i)⟩
    exact List.pairwise_insertionSort _ l

end StableSort

end SrtGo.Bonding
