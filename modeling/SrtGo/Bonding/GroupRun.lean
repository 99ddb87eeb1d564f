import SrtGo.Bonding.Group
import SrtGo.Lib.Run

/-!
# The life of a group

Members join a group, the monitor looks after them, and connections work on their own between
the calls.  A call that does not get the group mutex waits, and changes nothing.
-/

namespace SrtGo.Bonding

open Bytes SrtGo.Seq

/-- Bring a connection to the next number of the group, if its peer knows of groups.  The first
connection gives its number to the group. -/
def joinSeq (schedSeq : Option ℕ) (l : Link) : Option ℕ × Link :=
  match schedSeq with
  | none => (some l.nextSeq, l)
  | some s => (some s, if l.peerGroupID ≠ 0 then l.overrideSndSeqNo s else l)

/-! ## The monitor -/

namespace MemberConn

def checkPending (mc : MemberConn) (mode : GroupMode) (now : ℤ) (schedSeq : Option ℕ) :
    Option ℕ × MemberConn :=
  if mc.conn.connected then
    let (schedSeq, conn) := joinSeq schedSeq mc.conn
    (schedSeq,
      { mc with
        conn := conn
        status := .idle
        backupState := if mode = .backup then .standby else mc.backupState
        lastResponse := now })
  else if mc.pendingSince.isSome ∧ !within mc.pendingSince now 5000000 then
    (schedSeq,
      { mc with
        status := .broken
        backupState := if mode = .backup then .broken else mc.backupState })
  else (schedSeq, mc)

/-- A keepalive proves that the link is alive. -/
def checkIdle (mc : MemberConn) (now : ℤ) : MemberConn :=
  if mc.conn.groupIdle then { mc with isIdle := true, lastResponse := now } else mc

def expire (mc : MemberConn) (now : ℤ) : MemberConn :=
  let idleTimeout := if mc.conn.peerIdleTimeout = 0 then 5000000 else mc.conn.peerIdleTimeout
  if mc.unstableSince.isSome ∧ !within mc.unstableSince now idleTimeout then
    { mc with status := .broken, backupState := .broken }
  else mc

/-- Qualify a running member of a backup group; the result says whether it is active. -/
def checkRunning (mc : MemberConn) (stabTimeout now : ℤ) : MemberConn × Bool :=
  let mc := mc.requalify stabTimeout now
  match mc.backupState with
  | .activeStable | .activeFresh | .activeWary => (mc, true)
  | .activeUnstable => (mc.expire now, true)
  | .broken => ({ mc with status := .broken }, false)
  | .standby => (mc, false)

def check (mc : MemberConn) (mode : GroupMode) (stabTimeout now : ℤ) (schedSeq : Option ℕ) :
    Option ℕ × MemberConn × Bool :=
  match mc.status with
  | .broken => (schedSeq, mc, false)
  | .pending =>
    let r := mc.checkPending mode now schedSeq
    (r.1, r.2, false)
  | .idle => (schedSeq, mc.checkIdle now, false)
  | .running =>
    if mode = .backup then (schedSeq, (mc.checkIdle now).checkRunning stabTimeout now)
    else (schedSeq, mc.checkIdle now, false)

end MemberConn

namespace Group

def checkEach (mode : GroupMode) (stabTimeout now : ℤ) :
    List MemberConn → Option ℕ → Option ℕ × List MemberConn × Bool
  | [], schedSeq => (schedSeq, [], false)
  | mc :: rest, schedSeq =>
    let (schedSeq, mc, active) := mc.check mode stabTimeout now schedSeq
    let (schedSeq, rest, hasActive) := checkEach mode stabTimeout now rest schedSeq
    (schedSeq, mc :: rest, active || hasActive)

def checkAll (g : Group) (now : ℤ) : Group × Bool :=
  let (schedSeq, members, hasActive) :=
    checkEach g.mode g.stabTimeout now g.members g.lastSchedSeqNo
  ({ g with lastSchedSeqNo := schedSeq, members := members }, hasActive)

def bestStandby (g : Group) : Option ℕ := heaviest g.weightAt (g.indicesOf MemberConn.isStandby)

def activateBestStandby (g : Group) (now : ℤ) : Group :=
  match g.bestStandby with
  | none => g
  | some i => g.modifyMember i (activateFresh now)

def isLongBroken (now : ℤ) (mc : MemberConn) : Bool :=
  mc.status = .broken && decide (10000000 < now - mc.lastResponse)

/-- Promote a standby member of a backup group in which no member is active. -/
def failover (g : Group) (now : ℤ) (hasActive : Bool) : Group :=
  if g.mode = .backup ∧ hasActive = false then g.activateBestStandby now else g

/-- One round of the monitor, with the members that it drops. -/
def checkMembers (g : Group) (now : ℤ) : Option (Group × List MemberConn) := do
  let g ← g.lock
  let (g, hasActive) := g.checkAll now
  let g := g.failover now hasActive
  let dropped := g.members.filter (isLongBroken now)
  let g ← unlock { g with members := g.members.filter fun mc => !isLongBroken now mc }
  return (g, dropped)

/-! ## Members -/

def addConn (g : Group) (conn : Link) (token : ℤ) (weight : ℕ) (now : ℤ) : Option Group :=
  if g.closed then some g
  else do
    let g ← g.lock
    let (schedSeq, conn) := joinSeq g.lastSchedSeqNo conn
    unlock { g with
      lastSchedSeqNo := schedSeq
      joined := g.joined + 1
      members := g.members ++ [{ conn, serial := g.joined, token, weight, lastResponse := now }] }

/-- Dial a connection.  All members of a broadcast or backup group start with the same number;
the peer is not told of the group. -/
def dialGroupMember (sendISN : ℕ) (conn : Link) : Link :=
  { conn with nextSeq := sendISN, queue := [], sent := [], peerGroupID := 0 }

def connect (g : Group) (conn : Link) (token : ℤ) (weight : ℕ) (now : ℤ) : Option Group :=
  if g.mode = .balancing then g.addConn conn token weight now
  else g.addConn (dialGroupMember g.sendISN conn) token weight now

def received (g : Group) (i : ℕ) (now : ℤ) : Option Group := do
  let g ← g.lock
  (g.modifyMember i fun mc =>
    { mc with
      lastResponse := now
      status := if mc.status = .idle then .running else mc.status
      isIdle := false }).unlock

end Group

/-! ## Runs -/

inductive GroupEvent where
  | addConn (conn : Link) (token : ℤ) (weight : ℕ) (now : ℤ)
  | connect (conn : Link) (token : ℤ) (weight : ℕ) (now : ℤ)
  | write (now : ℤ) (b : Bytes)
  | monitor (now : ℤ)
  | received (i : ℕ) (now : ℤ)
  /-- A member's connection numbers a message. -/
  | ship (i : ℕ)
  /-- The connection of a dropped member numbers a message. -/
  | shipGone (i : ℕ)
  | observe (i : ℕ) (ackSeqNo : ℕ) (connected groupIdle : Bool) (stats : LinkStats)

/-- A group with the connections of the members that it has dropped. -/
structure Bond where
  group : Group
  gone : List Link := []

namespace Bond

def links (x : Bond) : List Link := x.group.members.map MemberConn.conn ++ x.gone

def attempt (x : Bond) (g : Option Group) : Bond := { x with group := g.getD x.group }

def step [SortFunc] (x : Bond) : GroupEvent → Bond
  | .addConn conn token weight now => x.attempt (x.group.addConn conn token weight now)
  | .connect conn token weight now => x.attempt (x.group.connect conn token weight now)
  | .write now b => x.attempt ((x.group.write now b).map Prod.fst)
  | .monitor now =>
    match x.group.checkMembers now with
    | none => x
    | some (g, dropped) => { group := g, gone := x.gone ++ dropped.map MemberConn.conn }
  | .received i now => x.attempt (x.group.received i now)
  | .ship i => { x with group := x.group.modifyConn i Link.ship }
  | .shipGone i => { x with gone := x.gone.modify i Link.ship }
  | .observe i ackSeqNo connected groupIdle stats =>
    { x with
      group := x.group.modifyConn i fun l => { l with ackSeqNo, connected, groupIdle, stats } }

def new (mode : GroupMode) (sendISN : ℕ) : Bond := { group := { mode, sendISN } }

end Bond

end SrtGo.Bonding
