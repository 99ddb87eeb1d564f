import SrtGo.Core.Host
import SrtGo.Session.Delivery

/-!
# The event loop of a session

A session runs one connection on a goroutine of its own.  Each round of its loop first
checks whether the session is over, and then waits for a packet, a queued write, a timer,
a control function or the request to close.  Writers and readers run on other goroutines:
they queue their writes and take deliveries between any two steps of the loop, also
between the check that ends the loop and the shutdown that follows it.
-/

namespace SrtGo

open Congestion Crypto

namespace Core.Conn

def pendingSend {σ : Type} (c : Conn σ) : ℤ := c.snd.sendBuf.size

end Core.Conn

namespace Session

open SrtGo.Core

structure WriteReq where
  payload : Bytes
  opts : MsgOptions
deriving DecidableEq, Repr

/-- What another goroutine runs on the loop: a function of the connection that reads or
tunes it. -/
structure Control (σ : Type) where
  run : Conn σ → Conn σ
  events : ∀ c, (run c).events = c.events
  closed : ∀ c, (run c).closed = c.closed

/-- Where the loop stands: before its checks, at the select statement, before the shutdown,
or past its end. -/
inductive Stage where
  | checking
  | selecting
  | stopping
  | done
deriving DecidableEq, Repr

end Session

open SrtGo.Core Session

/-- A session.  `caps` gives the capacity of the slice behind each event, and `polled`
counts the events that the loop has seen. -/
structure Session (σ : Type) where
  host : Host σ
  linger : ℤ
  caps : ℕ → ℕ := fun _ => 0
  deliveries : DeliveryQueue :=
    .new DeliveryQueue.sessionReadQueueSize DeliveryQueue.sessionDeliveryBacklogSize
      DeliveryQueue.sessionDeliveryByteLimit
  polled : ℕ := 0
  writeC : List WriteReq := []
  quit : Bool := false
  closing : Bool := false
  closeDeadline : ℤ := 0
  dead : Bool := false
  now : ℤ := 0
  stage : Stage := .checking

namespace Session

inductive Choice (σ : Type) where
  | quit
  | packet (p : Packet)
  | recvClosed
  | write
  | timer (order : List TimerID)
  | stats
  | control (fn : Control σ)

/-- What happens at a session: a write that is accepted, a call of `Close`, a read, and the
three steps of the loop. -/
inductive Action (σ : Type) where
  | write (req : WriteReq)
  | close
  | read
  | check (now : ℤ)
  | select (now : ℤ) (choice : Choice σ)
  | stop (now : ℤ)

variable {σ : Type}

def writeCSize : ℕ := 256

def conn (s : Session σ) : Conn σ := s.host.conn

def tick (s : Session σ) (now : ℤ) : Session σ := { s with now := max s.now now }

def pollEvent (s : Session σ) : Event × ℕ → Session σ
  | (.dataReceived data seq msgNo boundary, n) =>
    let d : Delivery := { data, cap := s.caps n, boundary, msgNo, seq }
    let r := s.deliveries.push d s.conn.rcv.tsbpdTimer.isSome
    { s with deliveries := r.1, dead := s.dead || !r.2 }
  | (.connected _, _) => s
  | (.failed _, _) => { s with dead := true }
  | (.closed, _) => { s with dead := true }

def drain (s : Session σ) : Session σ :=
  let fresh := (s.conn.events.drop s.polled).zipIdx s.polled
  fresh.foldl pollEvent { s with host := s.host.drain, polled := s.conn.events.length }

/-- Report whether a closing session has finished draining, or has lingered out. -/
def closeFinished (s : Session σ) : Bool :=
  if !s.closing then false
  else if 0 < s.writeC.length then false
  else if s.linger ≤ 0 then true
  else if s.conn.pendingSend = 0 then true
  else decide (s.closeDeadline < s.now)

variable [Controller σ] [Primitives]

def input (s : Session σ) (i : Input) : Session σ := { s with host := s.host.step (.input i) }

/-- Fire the timers that are due, in the order in which the table happens to list them. -/
def fireTimers (s : Session σ) (order : List TimerID) : Session σ :=
  order.foldl (fun s id =>
    match s.host.timers id with
    | none => s
    | some deadline => if deadline ≤ s.now then s.input (.timer s.now id) else s) s

/-- One case of the select statement.  A case that is not ready is not picked. -/
def pick (s : Session σ) : Choice σ → Session σ
  | .quit =>
    if s.quit ∧ !s.closing then
      { s with closing := true, closeDeadline := s.now + s.linger, stage := .checking }
    else s
  | .packet p => { (s.input (.packet s.now p)).drain with stage := .checking }
  | .recvClosed => { s with stage := .done }
  | .write =>
    match s.writeC with
    | [] => s
    | req :: rest =>
      let s := { s with writeC := rest }
      { (s.input (.write s.now req.payload req.opts)).drain with stage := .checking }
  | .timer order => { (s.fireTimers order).drain with stage := .checking }
  | .stats => { s with stage := .checking }
  | .control fn =>
    let s := { s with host := { s.host with conn := fn.run s.conn } }
    { s.drain with stage := .checking }

def step (s : Session σ) : Action σ → Session σ
  | .write req => if s.writeC.length < writeCSize then { s with writeC := s.writeC ++ [req] } else s
  | .close => { s with quit := true }
  | .read => { s with deliveries := s.deliveries.pop.1 }
  | .check now =>
    if s.stage = .checking then
      let s := s.tick now
      { s with stage := if s.dead || s.closeFinished then .stopping else .selecting }
    else s
  | .select now choice => if s.stage = .selecting then (s.tick now).pick choice else s
  | .stop now =>
    if s.stage = .stopping then
      let s := s.tick now
      { (s.input (.shutdown s.now)).drain with stage := .done }
    else s

/-- A session for a connection; the loop starts with what is queued already. -/
def newEstablished (cc : σ) (now : ℤ) (ep : EstablishParams) (linger : ℤ) (caps : ℕ → ℕ) :
    Session σ :=
  ({ host := { conn := Conn.establish cc now ep }, linger, caps, now } : Session σ).drain

end Session

end SrtGo
