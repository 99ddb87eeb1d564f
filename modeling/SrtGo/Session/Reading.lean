import SrtGo.Session.Delivery

/-!
# Reading from a session

`Read`, `ReadBatch` and `ReadMsg` are one loop over the delivery queue.  A delivery that a call
has not used up stays with the reader, whichever of the three comes next.  The loop of the session
pushes while a call runs, so a call comes with what arrives before each of its looks at the queue.
-/

namespace SrtGo.Session

open SrtGo.Core

/-- What is pushed between two looks at the queue, each with the mode of the push. -/
abbrev Arrivals := List (Delivery × Bool)

structure MsgMetadata where
  boundary : PacketPosition := .middle
  msgNo : ℕ := 0
  seq : ℕ := 0
deriving DecidableEq, Repr

def Delivery.info (d : Delivery) : MsgMetadata := ⟨d.boundary, d.msgNo, d.seq⟩

/-- Why no delivery is at hand.  With `blocked` the call is still waiting. -/
inductive WaitError where
  | timeout
  | wouldBlock
  | eof
  | overflow
  | blocked
deriving DecidableEq, Repr

inductive ReadError where
  | wait (e : WaitError)
  | shortBuffer
deriving DecidableEq, Repr

/-- One turn of the loop of `nextDelivery`: what arrives before it looks at the queue, whether the
session's loop has ended and what its last drain queued, and whether the deadline ends the wait. -/
structure Turn where
  arrivals : Arrivals := []
  loopDone : Bool := false
  drained : Arrivals := []
  timeout : Bool := false

inductive ReadKind where
  | read
  | readBatch
  | readMsg
deriving DecidableEq, Repr

structure ReadCall where
  kind : ReadKind
  len : ℕ
  rcvSyn : Bool := true
  /-- The deadline has passed when the call starts, and when it starts to wait. -/
  expired : Bool := false
  expiredWait : Bool := false
  turns : List Turn := []
  /-- What arrives before the further pops of a batch. -/
  more : List Arrivals := []

namespace ReadCall

def batch (c : ReadCall) : Bool := c.kind == .readBatch
def message (c : ReadCall) : Bool := c.kind == .readMsg

theorem batch_of_message {c : ReadCall} (h : c.kind = .readMsg) : c.message = true ∧
    c.batch = false := by
  simp [message, batch, h]

end ReadCall

structure ReadResult where
  data : Bytes := []
  info : MsgMetadata := {}
  err : Option ReadError := none

namespace QueueLog

def arrive (x : QueueLog) (ds : Arrivals) : QueueLog :=
  ds.foldl (fun x a => x.step (.push a.1 a.2)) x

def popAfter (x : QueueLog) (ds : Arrivals) : QueueLog × Option Delivery :=
  ((x.arrive ds).step .pop, (x.arrive ds).queue.pop.2)

def nextDelivery (rcvSyn : Bool) : List Turn → QueueLog → QueueLog × Except WaitError Delivery
  | [], x => (x, .error .blocked)
  | t :: ts, x =>
    match x.popAfter t.arrivals with
    | (x, some d) => (x, .ok d)
    | (x, none) =>
      if t.loopDone then
        match x.popAfter t.drained with
        | (x, some d) => (x, .ok d)
        | (x, none) => (x, .error (if x.queue.err then .overflow else .eof))
      else if !rcvSyn then (x, .error .wouldBlock)
      else if t.timeout then (x, .error .timeout)
      else nextDelivery rcvSyn ts x

/-- A queue on which some operations led from `x` to `x'` and handed over at most `o`. -/
structure Takes (x : QueueLog) (o : Option Delivery) (x' : QueueLog) : Prop where
  run : ∃ ops, x' = Run.exec step x ops
  popped : x'.popped = x.popped ++ o.toList

variable {x : QueueLog}

variable {o : Option Delivery}

theorem Takes.trans {x' x'' : QueueLog} (h : x.Takes none x') (h' : x'.Takes o x'') :
    x.Takes o x'' := by
  obtain ⟨⟨ops, rfl⟩, hpopped⟩ := h
  obtain ⟨⟨ops', rfl⟩, hpopped'⟩ := h'
  refine ⟨⟨ops ++ ops', (Run.exec_append x ops ops').symm⟩, ?_⟩
  rw [hpopped', hpopped, Option.toList_none, List.append_nil]

theorem Takes.refl (x : QueueLog) : x.Takes none x := ⟨⟨[], rfl⟩, (List.append_nil _).symm⟩

theorem takes_arrive (x : QueueLog) (ds : Arrivals) : x.Takes none (x.arrive ds) := by
  induction ds generalizing x with
  | nil => exact .refl x
  | cons a ds ih => exact Takes.trans ⟨⟨[.push a.1 a.2], rfl⟩, (List.append_nil _).symm⟩ (ih _)

theorem takes_popAfter (x : QueueLog) (ds : Arrivals) :
    x.Takes (x.popAfter ds).2 (x.popAfter ds).1 := by
  refine (takes_arrive x ds).trans ⟨⟨[.pop], rfl⟩, ?_⟩
  show ((x.arrive ds).note _ _ (.popped (x.arrive ds).queue.pop.2)).popped =
    _ ++ (x.arrive ds).queue.pop.2.toList
  cases (x.arrive ds).queue.pop.2 with
  | none => exact (List.append_nil _).symm
  | some d => rfl

theorem takes_nextDelivery (rcvSyn : Bool) (ts : List Turn) (x : QueueLog) :
    x.Takes (nextDelivery rcvSyn ts x).2.toOption (nextDelivery rcvSyn ts x).1 := by
  induction ts generalizing x with
  | nil => exact .refl x
  | cons t ts ih =>
    have hfirst := takes_popAfter x t.arrivals
    unfold nextDelivery
    generalize x.popAfter t.arrivals = first at hfirst
    obtain ⟨x', _ | d⟩ := first
    · have hlast := takes_popAfter x' t.drained
      dsimp only
      generalize x'.popAfter t.drained = last at hlast ⊢
      split_ifs with hdone hsyn htimeout
      · obtain ⟨x'', _ | d⟩ := last
        · exact hfirst.trans hlast
        · exact hfirst.trans hlast
      · exact hfirst
      · exact hfirst
      · exact hfirst.trans (ih x')
    · exact hfirst

end QueueLog

/-- The reading side of a session.  `returned` keeps the bytes that all calls have returned. -/
structure ReadState where
  deliveries : QueueLog
  pending : Delivery := {}
  pendingOffset : ℕ := 0
  pendingReady : Bool := false
  returned : Bytes := []

inductive ReadInput where
  | arrive (ds : Arrivals)
  | call (c : ReadCall)

namespace ReadState

def setPending (r : ReadState) : QueueLog × Option Delivery → ReadState
  | (x, some d) =>
    { r with deliveries := x, pending := d, pendingOffset := 0, pendingReady := true }
  | (x, none) => { r with deliveries := x }

/-- Have a delivery at hand.  Only a call that has no byte yet waits for one. -/
def fetch (r : ReadState) (c : ReadCall) (n : ℕ) (ds : Arrivals) : ReadState × Option WaitError :=
  if r.pendingReady then (r, none)
  else if n = 0 then
    if c.rcvSyn && c.expiredWait then (r, some .timeout)
    else
      let next := QueueLog.nextDelivery c.rcvSyn c.turns r.deliveries
      (r.setPending (next.1, next.2.toOption),
        match next.2 with | .ok _ => none | .error e => some e)
  else (r.setPending (r.deliveries.popAfter ds), none)

def remaining (r : ReadState) : Bytes := r.pending.data.drop r.pendingOffset

def consume (r : ReadState) (copied : ℕ) : ReadState :=
  if r.pendingOffset + copied = r.pending.data.length then
    { r with pending := {}, pendingOffset := 0, pendingReady := false }
  else { r with pendingOffset := r.pendingOffset + copied }

def readLoop (c : ReadCall) (r : ReadState) (out : Bytes) (info : MsgMetadata)
    (more : List Arrivals) :
    ReadState × ReadResult :=
  let fetched := r.fetch c out.length (more.headD [])
  let r := fetched.1
  if !r.pendingReady then (r, { data := out, info := info, err := fetched.2.map .wait })
  else
    let info := if out.length = 0 then r.pending.info else info
    if c.message && decide (c.len < r.remaining.length) then
      (r, { info := info, err := some .shortBuffer })
    else
      let copied := r.remaining.take (c.len - out.length)
      -- The source compares with `==`; a call never holds more than its buffer.
      if !c.batch || decide (c.len ≤ (out ++ copied).length) || r.remaining.isEmpty then
        (r.consume copied.length, { data := out ++ copied, info := info })
      else readLoop c (r.consume copied.length) (out ++ copied) info more.tail
termination_by c.len - out.length
decreasing_by
  rename_i h
  simp only [Bool.or_eq_true, decide_eq_true_eq, List.isEmpty_iff, not_or, not_le] at h
  obtain ⟨⟨-, hlen⟩, hne⟩ := h
  have hpos : 0 < r.remaining.length := List.length_pos_iff.mpr hne
  have hcopied : copied.length = min (c.len - out.length) r.remaining.length := List.length_take
  rw [List.length_append] at hlen ⊢
  show c.len - (out.length + copied.length) < _
  omega

def readInto (r : ReadState) (c : ReadCall) : ReadState × ReadResult :=
  if c.len = 0 then (r, {})
  else if c.rcvSyn && c.expired then (r, { err := some (.wait .timeout) })
  else readLoop c r [] {} c.more

def step (r : ReadState) : ReadInput → ReadState
  | .arrive ds => { r with deliveries := r.deliveries.arrive ds }
  | .call c => { (r.readInto c).1 with returned := r.returned ++ (r.readInto c).2.data }

def rest (r : ReadState) : Bytes := if r.pendingReady then r.remaining else []

structure ReadsTheStream (r : ReadState) : Prop where
  /-- The bytes returned, and then what is left of the pending delivery, are the deliveries that
  left the queue, in order. -/
  stream : r.returned ++ r.rest = (r.deliveries.popped.map Delivery.data).flatten
  order : r.deliveries.popped.Sublist r.deliveries.pushed
  /-- Unless a live queue discards, they are the first bytes of all deliveries. -/
  reliable : r.deliveries.live = false →
    r.returned <+: (r.deliveries.accepted.map Delivery.data).flatten
  /-- A short `ReadMsg` consumes nothing, and one with enough room then returns all that is left. -/
  short : ∀ c, c.kind = .readMsg → (r.readInto c).2.err = some .shortBuffer →
    (r.readInto c).2.data = [] ∧ c.len < (r.readInto c).1.rest.length ∧
    (r.pendingReady = true → (r.readInto c).1 = r) ∧
    ∀ ds c', c'.kind = .readMsg → (r.readInto c).1.rest.length ≤ c'.len →
      (c'.rcvSyn && c'.expired) = false →
      ((((r.readInto c).1.step (.arrive ds)).readInto c').2.data = (r.readInto c).1.rest ∧
        (((r.readInto c).1.step (.arrive ds)).readInto c').2.err = none)
  /-- A `ReadMsg` returns the end of one delivery. -/
  message : ∀ c, c.kind = .readMsg → (r.readInto c).2.err = none → 0 < c.len →
    ∃ d ∈ (r.readInto c).1.deliveries.popped, (r.readInto c).2.data <:+ d.data

variable {capacity : ℕ} {bytes : ℤ} {r : ReadState} {c : ReadCall} {before : Bytes} {x : QueueLog}

/-- The invariant, with the bytes returned before.  Those that a running call holds count as well.
-/
structure Sound (capacity : ℕ) (bytes : ℤ) (r : ReadState) (before : Bytes) : Prop where
  queue : ∃ f, r.deliveries.Sound capacity bytes f
  stream : before ++ r.rest = (r.deliveries.popped.map Delivery.data).flatten
  pending : r.pendingReady = true → r.pending ∈ r.deliveries.popped

theorem sound_exec (h : ∃ f, x.Sound capacity bytes f) (ops : List QueueOp) :
    ∃ f, (Run.exec QueueLog.step x ops).Sound capacity bytes f := by
  induction ops generalizing x with
  | nil => exact h
  | cons op ops ih => exact ih (h.elim fun f hf => hf.step op)

theorem Sound.setPending (h : r.Sound capacity bytes before)
    (hready : r.pendingReady = false ∨ o = none)
    (hx : r.deliveries.Takes o x) : (r.setPending (x, o)).Sound capacity bytes before := by
  obtain ⟨hqueue, hstream, hpending⟩ := h
  obtain ⟨⟨ops, rfl⟩, hpopped⟩ := hx
  cases o with
  | none =>
    rw [Option.toList_none, List.append_nil] at hpopped
    exact ⟨sound_exec hqueue ops, hpopped ▸ hstream, fun hp => hpopped ▸ hpending hp⟩
  | some d =>
    have hempty : r.rest = [] := by simp [rest, hready.resolve_right (by simp)]
    refine ⟨sound_exec hqueue ops, ?_,
      fun _ => hpopped ▸ List.mem_append_right _ (List.mem_singleton_self d)⟩
    rw [hempty, List.append_nil] at hstream
    show before ++ d.data = _
    rw [hstream, ReadState.setPending, hpopped]
    simp

theorem Sound.fetch (h : r.Sound capacity bytes before) (n : ℕ) (ds : Arrivals) :
    (r.fetch c n ds).1.Sound capacity bytes before := by
  unfold ReadState.fetch
  split_ifs with hready hzero hexpired
  · exact h
  · exact h
  · exact h.setPending (.inl (by simpa using hready)) (QueueLog.takes_nextDelivery _ _ _)
  · exact h.setPending (.inl (by simpa using hready)) (QueueLog.takes_popAfter _ _)

theorem rest_consume (hready : r.pendingReady = true) (n : ℕ) :
    (r.consume n).rest = r.remaining.drop n := by
  unfold consume
  split_ifs with hend
  · simp [rest, remaining, hend]
  · simp [rest, remaining, hready]

theorem deliveries_consume (n : ℕ) : (r.consume n).deliveries = r.deliveries := by
  unfold consume
  split_ifs <;> rfl

theorem Sound.consume (h : r.Sound capacity bytes before) (hready : r.pendingReady = true) (k : ℕ) :
    (r.consume (r.remaining.take k).length).Sound capacity bytes
      (before ++ r.remaining.take k) := by
  obtain ⟨hqueue, hstream, hpending⟩ := h
  have hrest : r.rest = r.remaining := if_pos hready
  have hsplit : r.remaining.take k ++ r.remaining.drop (r.remaining.take k).length = r.remaining :=
    List.prefix_iff_eq_append.mp (List.take_prefix k _)
  generalize (r.remaining.take k).length = n at *
  refine ⟨(deliveries_consume n).symm ▸ hqueue, ?_, fun hleft => ?_⟩
  · rw [deliveries_consume, rest_consume hready, ← hstream, hrest, List.append_assoc, hsplit]
  · rw [deliveries_consume]
    unfold ReadState.consume at hleft ⊢
    split_ifs at hleft ⊢ with hend
    exact hpending hready

theorem Sound.readLoop {out : Bytes} (info : MsgMetadata) (more : List Arrivals)
    (h : r.Sound capacity bytes (before ++ out)) (hout : c.kind = .readMsg → out = []) :
    (r.readLoop c out info more).1.Sound capacity bytes
      (before ++ (r.readLoop c out info more).2.data) := by
  fun_induction ReadState.readLoop c r out info more with
  | case1 r out info more fetched r' hempty => exact h.fetch _ _
  | case2 r out info more fetched r' hready info' hshort =>
    rw [hout (by simp_all [ReadCall.message])] at h
    exact h.fetch _ _
  | case3 r out info more fetched r' hready info' hroom copied hlast =>
    rw [← List.append_assoc]
    rw [Bool.not_eq_true', Bool.not_eq_false] at hready
    exact (h.fetch _ _).consume hready _
  | case4 r out info more fetched r' hready info' hroom copied hgoes ih =>
    rw [Bool.not_eq_true', Bool.not_eq_false] at hready
    apply ih
    · rw [← List.append_assoc]
      exact (h.fetch _ _).consume hready _
    -- A `ReadMsg` is over after its first turn.
    · intro hmsg
      simp [(ReadCall.batch_of_message hmsg).2] at hgoes

theorem Sound.step (h : r.Sound capacity bytes r.returned) (i : ReadInput) :
    (r.step i).Sound capacity bytes (r.step i).returned := by
  cases i with
  | arrive ds => exact h.setPending (.inr rfl) (QueueLog.takes_arrive _ ds)
  | call c =>
    have hcall : (r.readInto c).1.Sound capacity bytes (r.returned ++ (r.readInto c).2.data) := by
      have hstart : r.Sound capacity bytes (r.returned ++ []) := (List.append_nil _).symm ▸ h
      unfold readInto
      split_ifs
      · exact hstart
      · exact hstart
      · exact hstart.readLoop _ _ fun _ => rfl
    exact { hcall with }

theorem pendingReady_fetch {ds : Arrivals} (h : (r.fetch c 0 ds).2 = none) :
    (r.fetch c 0 ds).1.pendingReady = true := by
  unfold fetch at h ⊢
  rw [if_pos rfl] at h ⊢
  split_ifs at h ⊢ with hready hexpired
  · exact hready
  · dsimp only at h ⊢
    cases hnext : (QueueLog.nextDelivery c.rcvSyn c.turns r.deliveries).2 with
    | ok d => rfl
    | error e => rw [hnext] at h; cases h

theorem readMsg_cases (hmsg : c.kind = .readMsg) (hlen : 0 < c.len)
    (hopen : (c.rcvSyn && c.expired) = false)
    {f : ReadState × Option WaitError} (hf : r.fetch c 0 (c.more.headD []) = f) :
    f.2 ≠ none ∧ r.readInto c = (f.1, { err := f.2.map .wait }) ∨
    f.1.pendingReady = true ∧ c.len < f.1.remaining.length ∧
      r.readInto c = (f.1, { info := f.1.pending.info, err := some .shortBuffer }) ∨
    f.1.pendingReady = true ∧ f.1.remaining.length ≤ c.len ∧
      r.readInto c = (f.1.consume f.1.remaining.length,
        { data := f.1.remaining, info := f.1.pending.info }) := by
  have hready := @pendingReady_fetch r c (c.more.headD [])
  obtain ⟨hmessage, hbatch⟩ := ReadCall.batch_of_message hmsg
  rw [readInto, if_neg hlen.ne', hopen, if_neg Bool.false_ne_true, ReadState.readLoop]
  rw [hf] at hready
  simp only [List.length_nil, hf, hmessage, hbatch, Bool.true_and, Bool.not_false, Bool.true_or,
    if_true, List.nil_append, Nat.sub_zero, decide_eq_true_eq, Bool.not_eq_true']
  by_cases hp : f.1.pendingReady = true
  · rw [hp, if_neg Bool.noConfusion]
    by_cases hshort : c.len < f.1.remaining.length
    · exact .inr (.inl ⟨rfl, hshort, if_pos hshort⟩)
    · rw [if_neg hshort, List.take_of_length_le (by omega)]
      exact .inr (.inr ⟨rfl, by omega, rfl⟩)
  · exact .inl ⟨fun hnone => hp (hready hnone), if_pos (by simpa using hp)⟩

theorem fetch_of_ready (h : r.pendingReady = true) (n : ℕ) (ds : Arrivals) : r.fetch c n ds = (r,
    none) := if_pos h

theorem readMsg_rest (hready : r.pendingReady = true) (hmsg : c.kind = .readMsg) (hlen : 0 < c.len)
    (hopen : (c.rcvSyn && c.expired) = false) (hroom : r.remaining.length ≤ c.len) :
    (r.readInto c).2.data = r.remaining ∧ (r.readInto c).2.err = none := by
  rcases readMsg_cases hmsg hlen hopen (fetch_of_ready hready 0 _) with ⟨hfailed, -⟩ | ⟨-,
    hshort, -⟩ | ⟨-, -, hr⟩
  · exact absurd rfl hfailed
  · exact absurd hshort (not_lt.mpr hroom)
  · rw [hr]
    exact ⟨rfl, rfl⟩

theorem not_expired (h : (r.readInto c).2.err ≠ some (.wait .timeout)) (hlen : 0 < c.len) :
    (c.rcvSyn && c.expired) = false := by
  unfold readInto at h
  rw [if_neg hlen.ne'] at h
  split_ifs at h with hexpired
  · exact absurd rfl h
  · simpa using hexpired

theorem Sound.readsTheStream (h : r.Sound capacity bytes r.returned) : r.ReadsTheStream := by
  obtain ⟨f, hqueue⟩ := h.queue
  refine ⟨h.stream, (List.sublist_append_left _ _).trans hqueue.order, fun hlive => ?_,
    fun c hmsg herr => ?_,
    fun c hmsg herr hlen => ?_⟩
  · rw [← hqueue.lossless hlive, List.map_append, List.flatten_append, ← h.stream,
      List.append_assoc]
    exact List.prefix_append _ _
  · have hlen : 0 < c.len := by
      refine Nat.pos_of_ne_zero fun hzero => ?_
      rw [readInto, if_pos hzero] at herr
      cases herr
    have hopen := not_expired (r := r) (by simp [herr]) hlen
    rcases readMsg_cases hmsg hlen hopen rfl with ⟨hfailed, hr⟩ | ⟨hready, hshort, hr⟩ | ⟨-, -, hr⟩
    · rw [hr] at herr
      obtain ⟨e, he⟩ := Option.ne_none_iff_exists'.mp hfailed
      rw [he] at herr
      cases herr
    · rw [hr]
      have hrest : (r.fetch c 0 (c.more.headD [])).1.rest =
          (r.fetch c 0 (c.more.headD [])).1.remaining := if_pos hready
      refine ⟨rfl, hrest ▸ hshort,
        fun hbefore => by rw [fetch_of_ready hbefore], fun ds c' hmsg' hroom hopen' => ?_⟩
      rw [hrest] at hroom ⊢
      exact readMsg_rest (r := (r.fetch c 0 (c.more.headD [])).1.step (.arrive ds)) hready hmsg'
        (hlen.trans (hshort.trans_le hroom)) hopen' hroom
    · rw [hr] at herr
      cases herr
  · have hopen := not_expired (r := r) (by simp [herr]) hlen
    rcases readMsg_cases hmsg hlen hopen rfl with ⟨hfailed, hr⟩ | ⟨-, -, hr⟩ | ⟨hready, -, hr⟩
    · rw [hr] at herr
      exact absurd (Option.map_eq_none_iff.mp herr) hfailed
    · rw [hr] at herr
      cases herr
    · rw [hr]
      have hsound := h.fetch (c := c) 0 (c.more.headD [])
      refine ⟨_, ?_, List.drop_suffix _ _⟩
      rw [deliveries_consume]
      exact hsound.pending hready

/-- **Reads return the stream.**  For all limits, deliveries and calls. -/
theorem reads_return_the_stream (ready backlog bytes : ℕ) (ins : List ReadInput) :
    Run.AllStates step ReadsTheStream
      { deliveries := { queue := DeliveryQueue.new ready backlog bytes } } ins := by
  have hstart : Sound (ready + backlog) bytes
      { deliveries := { queue := DeliveryQueue.new ready backlog bytes } } [] :=
    ⟨⟨_, QueueLog.sound_new ready backlog bytes⟩, rfl,
      fun hready => absurd hready Bool.false_ne_true⟩
  have hrun : Run.AllStates step (fun r => r.Sound (ready + backlog) bytes r.returned) _ ins :=
    Run.AllSteps.allStates (P := fun _ _ => True) (fun r i h _ => h.step i) hstart
      (Run.allSteps_of_forall_mem fun _ _ => trivial)
  exact hrun.mono fun r h => h.readsTheStream

end ReadState
end SrtGo.Session
