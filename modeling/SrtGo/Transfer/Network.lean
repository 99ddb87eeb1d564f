import SrtGo.Transfer.Link

/-!
# The network between two connections

Two connections are joined by a network that may lose, duplicate and reorder.  Whatever a
side sends stays in its `net` for ever, and delivering a packet leaves it there, so that
any packet may arrive any number of times, at any time, or never.

Each side also keeps what no connection knows: what was written to it, and how many
packets have left its receive buffer.  The latter gives acknowledgements their positions
and says what it means to arrive late: `Link.Timely` asks that a packet is fewer than
`2 ^ 30` positions behind.

## Strategy

The invariant `Link.Holds` is `Linked` together with an account of what was written.  What
that account is differs between byte streams and messages.  It is therefore a parameter,
`Account`, which says how the fragments that were posted record the writes, and that one
more write keeps the record.  `Link.Holds.step` is the step lemma for any account, and
`Link.holds_run` carries it over whole runs.
-/

namespace SrtGo.Core

open Buffer Bytes Congestion Crypto SrtGo.Seq Function

/-! ## The link -/

/-- An endpoint, everything it has ever sent, the number of packets that have left its
receive buffer, and everything that was written to it. -/
structure Party (σ : Type) where
  conn : Conn σ
  net : List Flight := []
  consumed : ℕ := 0
  written : List Bytes := []

abbrev Link (σ : Type) := Bool → Party σ

/-- What can happen to a link: a side is written to, one of its timers fires, or the
`k`-th packet that the other side has ever sent arrives at it. -/
inductive LinkAction where
  | write (side : Bool) (now : ℤ) (payload : Bytes) (srcTime : ℕ)
  | timer (side : Bool) (now : ℤ) (id : TimerID)
  | deliver (side : Bool) (now : ℤ) (k : ℕ)

variable {σ : Type}

def LinkAction.side : LinkAction → Bool
  | .write side _ _ _ => side
  | .timer side _ _ => side
  | .deliver side _ _ => side

def LinkAction.input? (l : Link σ) : LinkAction → Option Input
  | .write _ now payload srcTime =>
    some (.write now payload { inOrder := true, srcTime := srcTime })
  | .timer _ now id => some (.timer now id)
  | .deliver side now k => (l !side).net[k]?.map fun f => .packet now f.packet

/-- A packet that arrives is fewer than `2 ^ 30` numbers behind: data behind what has left
the receive buffer, an acknowledgement behind what has been released. -/
def Link.Timely (l : Link σ) : LinkAction → Prop
  | .deliver side _ k => ∀ f, (l !side).net[k]? = some f →
      if f.packet.header.isControl then
        f.packet.header.controlType = .ack → (l side).conn.released < f.pos + 2 ^ 30
      else (l side).consumed < f.pos + 2 ^ 30
  | _ => True

instance Link.decidableTimely (l : Link σ) : ∀ a, Decidable (l.Timely a)
  | .write _ _ _ _ => isTrue trivial
  | .timer _ _ _ => isTrue trivial
  | .deliver side _ k =>
    match hf : (l !side).net[k]? with
    | none => isTrue fun f h => by simp [hf] at h
    | some f => decidable_of_iff (if f.packet.header.isControl then
          f.packet.header.controlType = .ack → (l side).conn.released < f.pos + 2 ^ 30
        else (l side).consumed < f.pos + 2 ^ 30) (by simp [Link.Timely, hf])

def Party.become (x : Party σ) (c' : Conn σ) (written : List Bytes) : Party σ where
  conn := c'
  net := x.net ++ (x.conn.wired c').map fun p => ⟨p, x.conn.placeAt x.consumed p⟩
  consumed := x.consumed + ahead x.conn.rcv.recvBuf.startSeq c'.rcv.recvBuf.startSeq
  written := written

section
variable [Controller σ]

def Link.new (cc : Bool → σ) (now : Bool → ℤ) (ep : Bool → EstablishParams) : Link σ :=
  fun side => { conn := Conn.establish (cc side) (now side) (ep side) }

variable [Primitives]

/-- Give an input to one side.  A write to a closed connection is refused. -/
def Party.run (x : Party σ) (i : Input) : Party σ :=
  x.become (x.conn.step i) (match i with
    | .write _ payload _ => if x.conn.closed then x.written else x.written ++ [payload]
    | _ => x.written)

def Link.step (l : Link σ) (a : LinkAction) : Link σ :=
  match a.input? l with
  | none => l
  | some i => Function.update l a.side ((l a.side).run i)

end

/-- Two connections in one mode, without encryption or filter, whose initial sequence
numbers are crossed. -/
structure PlainPair (message : Bool) (ep : Bool → EstablishParams) : Prop where
  live : ∀ x, (ep x).live = false
  message : ∀ x, (ep x).message = message
  crypto : ∀ x, (ep x).cryptoCtx = none
  filter : ∀ x, (ep x).filterConfig = ""
  crossed : ∀ x, (ep x).recvISN = (ep !x).sendISN
  valid : ∀ x, Valid (ep x).sendISN

/-! ## The invariant -/

/-- How the fragments that were posted record what was written, for packets of at most
`size` bytes. -/
structure Account (D : Discipline) where
  Records (size : ℕ) (written : List Bytes) (posted : Posted) : Prop
  nil : ∀ size, Records size [] {}
  concat : ∀ {size written posted}, Records size written posted → ∀ payload,
    Records size (written ++ [payload]) (posted.add
      (cut size (nextMsgNo posted.number) true payload) (nextMsgNo posted.number))
  fit : ∀ {size written posted}, Records size written posted → D.Fit posted.frames

variable {D : Discipline} {A : Account D}

structure Link.Holds (A : Account D) (isn : Bool → ℕ) (l : Link σ) (posted : Bool → Posted)
    (s : Bool → ℕ) (w : Bool → Window) : Prop where
  linked : Linked D isn (fun x => (l x).conn) (fun x => (l x).net) posted s w
  records : ∀ x, A.Records (l x).conn.params.payloadSize (l x).written (posted x)
  consumed : ∀ x, (w x).start = isn (!x) + (l x).consumed

namespace Link.Holds

variable {isn : Bool → ℕ} {l : Link σ} {posted : Bool → Posted} {s : Bool → ℕ}
  {w : Bool → Window}

section
variable (h : Link.Holds A isn l posted s w) (x : Bool) {posted' : Posted} {c' : Conn σ}
  {w' : Window} {s' : ℕ}

include h x

/-- The head of the receive buffer moves by less than half the sequence numbers. -/
theorem ahead_eq (hadvance : Advance D (isn x) (isn !x) posted' (l !x).conn.log (s x) s'
      (w x) w' (l x).conn c') :
    ahead (l x).conn.rcv.recvBuf.startSeq c'.rcv.recvBuf.startSeq = w'.start - (w x).start := by
  have hend := h.linked.endpoint x
  have hother := h.linked.endpoint (!x)
  have hinFlight := hother.sends.inFlight
  have hflow := h.linked.flow (!x)
  have hstart' := hadvance.endpoint.receives.state.start_le
  have hacked := h.linked.acked (!x)
  rw [Bool.not_not] at hacked
  -- the log reaches at most two windows beyond the head
  have hreach : isn (!x) + s (!x) ≤ (w x).start + 2 ^ 30 := by
    rcases Nat.eq_zero_or_pos (s !x) with hzero | hpos
    · have := hend.receives.state.isn_le
      omega
    · have := hend.receives.state.lt_reach_of_got (hacked (s (!x) - 1) (by omega))
      omega
  rw [Conn.log, List.length_map] at hstart'
  rw [hend.receives.state.window.startSeq_eq, hadvance.endpoint.receives.state.window.startSeq_eq]
  exact ahead_wrap hadvance.forward.start_le (by omega)

/-- Whatever one side does, it keeps the invariant, provided that it does not release what
the other has not accepted. -/
theorem advance {written' : List Bytes}
    (hadvance : Advance D (isn x) (isn !x) posted' (l !x).conn.log (s x) s' (w x) w'
      (l x).conn c')
    (hacked : ∀ i < s', Got (w !x) (isn x + i))
    (hrecords : A.Records (l x).conn.params.payloadSize written' posted') :
    Link.Holds A isn (update l x ((l x).become c' written'))
      (update posted x posted') (update s x s') (update w x w') := by
  have hlinked := h.linked.advance x hadvance hacked (h.consumed x)
  refine ⟨?_, fun y => ?_, fun y => ?_⟩
  · convert hlinked using 1
    · exact funext (apply_update (fun _ => Party.conn) l x _)
    · exact funext (apply_update (fun _ => Party.net) l x _)
  · rcases eq_or_ne y x with rfl | hne
    · rw [update_self, update_self]
      show A.Records c'.params.payloadSize written' posted'
      rw [hadvance.params]
      exact hrecords
    · rw [update_of_ne hne, update_of_ne hne]
      exact h.records y
  · rcases eq_or_ne y x with rfl | hne
    · have hforward := hadvance.forward.start_le
      have hconsumed := h.consumed y
      rw [update_self, update_self]
      show w'.start = isn (!y) + ((l y).consumed + ahead _ _)
      rw [h.ahead_eq y hadvance]
      omega
    · rw [update_of_ne hne, update_of_ne hne]
      exact h.consumed y

end

variable [Controller σ] [Primitives]

theorem step_write (h : Link.Holds A isn l posted s w) (x : Bool) (now : ℤ) (payload : Bytes)
    (srcTime : ℕ) : ∃ posted' s' w',
      Link.Holds A isn (Link.step l (.write x now payload srcTime)) posted' s' w' := by
  have hend := h.linked.endpoint x
  cases hclosed : (l x).conn.closed with
  | true =>
    have hrefused : Link.step l (.write x now payload srcTime) = update l x
        ((l x).become (l x).conn (l x).written) := by
      simp [Link.step, LinkAction.input?, LinkAction.side, Party.run, Conn.step, Conn.writeMsg,
        hclosed]
    rw [hrefused]
    exact ⟨_, _, _, h.advance x (Advance.refl hend) (h.linked.acked x) (h.records x)⟩
  | false =>
    have hstep : Link.step l (.write x now payload srcTime) = update l x
        ((l x).become ((l x).conn.writeMsg now payload { inOrder := true, srcTime := srcTime })
          ((l x).written ++ [payload])) := by
      simp [Link.step, LinkAction.input?, LinkAction.side, Party.run, Conn.step, hclosed]
    have hassign : nextMsgNo (posted x).number =
        (l x).conn.assign { inOrder := true, srcTime := srcTime } := by
      rw [Conn.assign, if_neg (by simp), hend.sends.number]
    have hrecords := A.concat (h.records x) payload
    rw [hassign] at hrecords
    rw [hstep]
    exact ⟨_, _, _, h.advance x (hend.advance_write hclosed now payload le_rfl (A.fit hrecords))
      (h.linked.acked x) hrecords⟩

theorem step (h : Link.Holds A isn l posted s w) {a : LinkAction} (htimely : l.Timely a) :
    ∃ posted' s' w', Link.Holds A isn (Link.step l a) posted' s' w' := by
  cases a with
  | write x now payload srcTime => exact h.step_write x now payload srcTime
  | timer x now id =>
    exact ⟨_, _, _, h.advance x ((h.linked.endpoint x).advance_timer now id) (h.linked.acked x)
      (h.records x)⟩
  | deliver x now k =>
    cases hf : (l !x).net[k]? with
    | none =>
      refine ⟨posted, s, w, ?_⟩
      simpa [Link.step, LinkAction.input?, hf] using h
    | some f =>
      have harrives := htimely f hf
      obtain ⟨s', w', hadvance, hacked⟩ :=
        h.linked.advance_packet x now (List.mem_of_getElem? hf) (by
          split_ifs at harrives ⊢ with hcontrol
          · exact harrives
          · rw [h.consumed x]
            omega)
      have harrived : Link.step l (.deliver x now k) = update l x
          ((l x).become ((l x).conn.handlePacket now f.packet) (l x).written) := by
        simp [Link.step, LinkAction.input?, LinkAction.side, hf, Party.run, Conn.step]
      rw [harrived]
      exact ⟨_, _, _, h.advance x hadvance hacked (h.records x)⟩

end Link.Holds

/-! ## Runs -/

section
variable [Controller σ] {ep : Bool → EstablishParams}

theorem Link.holds_new (A : Account D) (hpair : PlainPair D.message ep)
    (hsized : ∀ x, Sized (ep x)) (cc : Bool → σ) (now : Bool → ℤ)
    (htold : ∀ x, D.Told (ep !x).sendISN [] (ep !x).sendISN
      (Conn.establish (cc x) (now x) (ep x)).rcv.recvBuf []) :
    Link.Holds A (fun x => (ep x).sendISN) (Link.new cc now ep) (fun _ => {}) (fun _ => 0)
      fun x => Window.empty (ep !x).sendISN := by
  refine ⟨linked_new (fun x => ⟨hpair.live x, hpair.crypto x, hpair.filter x⟩) hpair.crossed
    hpair.valid hsized hpair.message (A.fit (A.nil 0)) cc now htold, ?_, fun x => rfl⟩
  intro x
  exact A.nil _

variable [Primitives]

/-- The invariant holds at every moment, as long as no packet arrives `2 ^ 30` numbers
late. -/
theorem Link.holds_run (A : Account D) (hpair : PlainPair D.message ep)
    (hsized : ∀ x, Sized (ep x)) (cc : Bool → σ) (now : Bool → ℤ)
    (htold : ∀ x, D.Told (ep !x).sendISN [] (ep !x).sendISN
      (Conn.establish (cc x) (now x) (ep x)).rcv.recvBuf [])
    {as : List LinkAction} (htimely : Run.AllSteps Link.step Link.Timely (Link.new cc now ep) as) :
    Run.AllStates Link.step
      (fun l => ∃ posted s w, Link.Holds A (fun x => (ep x).sendISN) l posted s w)
      (Link.new cc now ep) as := by
  refine htimely.allStates ?_ ⟨_, _, _, Link.holds_new A hpair hsized cc now htold⟩
  rintro l a ⟨posted, s, w, h⟩ ha
  exact h.step ha

end

end SrtGo.Core
