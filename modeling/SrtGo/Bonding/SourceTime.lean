import SrtGo.Flow.Outgoing

/-!
# The timestamps of a group write

Before a group writes a message to its members, it pins one source time on all of their
connections, and takes it off again afterwards.  The replay of a message after a failover
does the same with the time that was kept for it.  But the connections take the message
through their plain `Write`, which does not look at the pinned time.  So each member reads
its clock for its copy by itself: when it sends the packet, or, for the parts of a message
that does not fit into one packet, when its core is given the message.  It stamps the packet
with the time that has passed since the origin of its clock, which is the moment at which the
member has connected.

The copies of one write therefore carry one timestamp exactly where the readings are equally
far from the origins of the members that took them.
-/

namespace SrtGo

open Buffer Congestion Crypto SrtGo.Seq Run

namespace Core

/-- What the loop of a session feeds to its connection, apart from writes. -/
inductive LoopInput where
  | packet (now : ℤ) (p : Packet)
  | timer (now : ℤ) (id : TimerID)
  | keepAlive (now : ℤ)
  | shutdown (now : ℤ)

def LoopInput.toInput : LoopInput → Input
  | .packet now p => .packet now p
  | .timer now id => .timer now id
  | .keepAlive now => .keepAlive now
  | .shutdown now => .shutdown now

theorem LoopInput.single (i : LoopInput) : i.toInput.Single := by
  cases i <;> trivial

theorem srtTimestamp_eq_iff (t u : ℤ) : srtTimestamp t = srtTimestamp u ↔ t ≡ u [ZMOD 2 ^ 32] := by
  unfold srtTimestamp Int.ModEq
  omega

/-- A packet of a group write on one of the members: the number of the write, and the reading of
the clock that its timestamp is made from, once it is taken.  The code knows of neither. -/
structure Copy where
  tag : ℕ
  reading : Option ℤ := none
deriving DecidableEq, Repr

def Copy.read (now : ℤ) (x : Copy) : Copy := { x with reading := some (x.reading.getD now) }

/-- A frame that has its source time already has it from the moment at which it was written. -/
def Copy.ofFrame (tag : ℕ) (now : ℤ) (f : Frame) : Copy :=
  { tag := tag, reading := if f.srcTime = 0 then none else some now }

namespace Conn

variable {σ : Type} {c : Conn σ} {origin : ℕ} {copies : List Copy}

/-- A packet that was sent carries the time from the origin to the reading; of those that wait, the
ones without a source time have no reading yet. -/
abbrev Stamped (origin : ℕ) : List Copy → Conn σ → Prop :=
  Labelled (fun x t => ∃ r, x.reading = some r ∧
    t.wire.header.timestamp = srtTimestamp (r - origin)) fun x f =>
    if f.srcTime = 0 then x.reading = none
    else ∃ r, x.reading = some r ∧ f.srcTime = srtTimestamp (r - origin)

theorem stamped_read (now : ℤ) (x : Copy) (t : Transmission)
    (h : ∃ r, x.reading = some r ∧ t.wire.header.timestamp = srtTimestamp (r - origin)) :
    ∃ r, (x.read now).reading = some r ∧ t.wire.header.timestamp = srtTimestamp (r - origin) := by
  obtain ⟨r, hr, ht⟩ := h
  exact ⟨r, by rw [Copy.read, hr]; rfl, ht⟩

theorem stamped_sentAs (horigin : c.params.sndTSBase = origin) (now : ℤ) (x : Copy) (f : Frame)
    (t : Transmission) (hwaits : if f.srcTime = 0 then x.reading = none
      else ∃ r, x.reading = some r ∧ f.srcTime = srtTimestamp (r - origin)) (ht :
        f.SentAs (c.wireTS now) t) :
    ∃ r, (x.read now).reading = some r ∧ t.wire.header.timestamp = srtTimestamp (r - origin) := by
  rw [ht.2]
  split_ifs at hwaits ⊢ with hzero
  · exact ⟨now, by rw [Copy.read, hwaits]; rfl, by rw [wireTS, horigin]⟩
  · obtain ⟨r, hr, hsrc⟩ := hwaits
    exact ⟨r, by rw [Copy.read, hr]; rfl, hsrc⟩

theorem stamped_messageFrames (horigin : c.params.sndTSBase = origin) {now : ℤ} {payload : Bytes}
    {opts : MsgOptions} (hopts : opts.srcTime = 0) (tag msgNo : ℕ) :
    List.Forall₂ (fun x f => if f.srcTime = 0 then x.reading = none
        else ∃ r, x.reading = some r ∧ f.srcTime = srtTimestamp (r - origin))
      ((c.messageFrames now payload opts msgNo).map (Copy.ofFrame tag now))
      (c.messageFrames now payload opts msgNo) := by
  rw [List.forall₂_map_left_iff, List.forall₂_same]
  intro f hf
  by_cases hzero : f.srcTime = 0
  · rw [if_pos hzero, Copy.ofFrame, if_pos hzero]
  · rw [if_neg hzero, Copy.ofFrame, if_neg hzero]
    rcases srcTime_messageFrames hf with hplain | ⟨-, hnow⟩
    · exact absurd (hplain.trans hopts) hzero
    · exact ⟨now, rfl, by rw [hnow, wireTS, horigin]⟩

end Conn

end Core

namespace Bonding

open SrtGo.Core Bytes

/-! ## The connections of a group -/

/-- A connection as the group uses it: a queue of writes in front of the core, and the source
time that the group pins.  There is a copy for each packet that the core has been given. -/
structure PublicConn (σ : Type) where
  core : Conn σ
  groupSrcTime : ℕ := 0
  writeC : List (ℕ × Bytes × MsgOptions) := []
  copies : List Copy := []

namespace PublicConn

variable {σ : Type}

def setGroupSrcTime (ts : ℕ) (c : PublicConn σ) : PublicConn σ := { c with groupSrcTime := ts }

def clearGroupSrcTime (c : PublicConn σ) : PublicConn σ := { c with groupSrcTime := 0 }

def write (tag : ℕ) (b : Bytes) (c : PublicConn σ) : PublicConn σ :=
  { c with writeC := c.writeC ++ [(tag, b, { inOrder := true })] }

def origin (c : PublicConn σ) : ℕ := c.core.params.sndTSBase

def sent (c : PublicConn σ) : List Copy := c.copies.take c.core.history.length

variable [Controller σ] [Primitives]

/-- The core takes an input; the clock is read for what it sends. -/
def run (i : Input) (new : List Copy) (c : PublicConn σ) : PublicConn σ :=
  { c with
    core := c.core.step i
    copies := Conn.relabel (Copy.read i.now) (c.core.step i).history.length (c.copies ++ new) }

def take (now : ℤ) (c : PublicConn σ) : PublicConn σ :=
  match c.writeC with
  | [] => c
  | (tag, b, opts) :: rest =>
    { c with writeC := rest }.run (.write now b opts)
      (if c.core.closed then []
        else (c.core.messageFrames now b opts (c.core.assign opts)).map (Copy.ofFrame tag now))

def input (i : LoopInput) (c : PublicConn σ) : PublicConn σ := c.run i.toInput []

end PublicConn

/-- The connections of a group, and the number of writes so far. -/
structure Cohort (n : ℕ) (σ : Type) where
  conns : Fin n → PublicConn σ
  written : ℕ := 0

/-- What happens to them: a write of the group on the members that take it, the replay of an
earlier message on a member, and the two steps of the loop of a member. -/
inductive CohortEvent (n : ℕ) where
  | write (members : List (Fin n)) (srctime : ℕ) (b : Bytes)
  | replay (i : Fin n) (tag srctime : ℕ) (b : Bytes)
  | take (i : Fin n) (now : ℤ)
  | input (i : Fin n) (inp : LoopInput)

namespace Cohort

variable {n : ℕ} {σ : Type} {x : Cohort n σ}

def modifyConn (x : Cohort n σ) (i : Fin n) (f : PublicConn σ → PublicConn σ) : Cohort n σ :=
  { x with conns := Function.update x.conns i (f (x.conns i)) }

def writeAll (x : Cohort n σ) (members : List (Fin n)) (tag srctime : ℕ) (b : Bytes) : Cohort n σ :=
  let x := members.foldl (fun x i => x.modifyConn i (PublicConn.setGroupSrcTime srctime)) x
  let x := members.foldl (fun x i => x.modifyConn i (PublicConn.write tag b)) x
  members.foldl (fun x i => x.modifyConn i PublicConn.clearGroupSrcTime) x

def step [Controller σ] [Primitives] (x : Cohort n σ) : CohortEvent n → Cohort n σ
  | .write members srctime b =>
    { x.writeAll members x.written srctime b with written := x.written + 1 }
  | .replay i tag srctime b => x.writeAll [i] tag srctime b
  | .take i now => x.modifyConn i (PublicConn.take now)
  | .input i inp => x.modifyConn i (PublicConn.input inp)

def new [Controller σ] (cc : Fin n → σ) (now : Fin n → ℤ) (ep : Fin n → EstablishParams) :
    Cohort n σ :=
  { conns := fun i => { core := Conn.establish (cc i) (now i) (ep i) } }

/-- All packets of one write of the group carry one timestamp, on all members. -/
def OneTimestamp (x : Cohort n σ) : Prop :=
  ∀ (i j : Fin n) (k l : ℕ) (a b : Copy) (t u : Transmission),
    (x.conns i).copies[k]? = some a → (x.conns i).core.history[k]? = some t →
    (x.conns j).copies[l]? = some b → (x.conns j).core.history[l]? = some u →
      a.tag = b.tag → t.wire.header.timestamp = u.wire.header.timestamp

/-- Of all packets of one write that have been sent, the clocks were read equally long after the
origins of their members, up to the length of the cycle that a timestamp counts. -/
def Simultaneous (x : Cohort n σ) : Prop :=
  ∀ i j, ∀ a ∈ (x.conns i).sent, ∀ b ∈ (x.conns j).sent, a.tag = b.tag →
    ∀ r ∈ a.reading, ∀ s ∈ b.reading,
    r - (x.conns i).origin ≡ s - (x.conns j).origin [ZMOD 2 ^ 32]

instance (x : Cohort n σ) : Decidable x.Simultaneous := by
  unfold Simultaneous
  infer_instance

end Cohort

/-! ## What one member keeps -/

namespace PublicConn

variable {σ : Type} {c : PublicConn σ}

/-- The packets of the member are stamped, and what waits for its core has no source time. -/
structure Stamped (c : PublicConn σ) : Prop where
  core : c.core.Stamped c.origin c.copies
  logged : ∃ cell isn s, c.core.Logged cell isn s
  plain : ∀ w ∈ c.writeC, w.2.2.srcTime = 0

theorem Stamped.write (h : c.Stamped) (tag : ℕ) (b : Bytes) : (c.write tag b).Stamped := by
  refine ⟨h.core, h.logged, fun w hw => ?_⟩
  rcases List.mem_append.mp hw with hold | hnew
  · exact h.plain w hold
  · rw [List.mem_singleton.mp hnew]

theorem exists_of_mem_sent {a : Copy} (ha : a ∈ c.sent) :
    ∃ (k : ℕ) (t : Transmission), c.copies[k]? = some a ∧ c.core.history[k]? = some t := by
  obtain ⟨k, hk⟩ := List.mem_iff_getElem?.mp ha
  have hlt : k < c.core.history.length :=
    (List.getElem?_eq_some_iff.mp hk).1.trans_le (List.length_take_le _ _)
  rw [PublicConn.sent, List.getElem?_take_of_lt hlt] at hk
  exact ⟨k, _, hk, List.getElem?_eq_getElem hlt⟩

theorem Stamped.timestamp {k : ℕ} {a : Copy} {t : Transmission} (h : c.Stamped)
    (ha : c.copies[k]? = some a) (ht : c.core.history[k]? = some t) :
    a ∈ c.sent ∧ ∃ r, a.reading = some r ∧ t.wire.header.timestamp =
      srtTimestamp (r - c.origin) := by
  refine ⟨?_, h.core.of_sent ha ht⟩
  have hk : k < c.core.history.length := (List.getElem?_eq_some_iff.mp ht).1
  refine List.mem_of_getElem? (i := k) ?_
  rw [PublicConn.sent, List.getElem?_take_of_lt hk]
  exact ha

variable [Controller σ] [Primitives]

theorem origin_run {i : Input} (hi : i.Single) (new : List Copy) :
    (c.run i new).origin = c.origin :=
  congrArg Params.sndTSBase (Conn.sendStep c.core hi).params

theorem exists_logged_run {i : Input} (hi : i.Single) (h : c.Stamped) (new : List Copy) :
    ∃ cell isn s, (c.run i new).core.Logged cell isn s := by
  obtain ⟨cell, isn, s, hlogged⟩ := h.logged
  obtain ⟨cell', s', hlogged'⟩ := (Conn.sendStep c.core hi).exists_logged hlogged
  exact ⟨cell', isn, s', hlogged'⟩

theorem Stamped.input (h : c.Stamped) (i : LoopInput) : (c.input i).Stamped := by
  obtain ⟨cell, isn, s, hlogged⟩ := h.logged
  have hother : ∀ now payload opts, i.toInput ≠ .write now payload opts := by
    cases i <;> simp [LoopInput.toInput]
  refine ⟨?_, exists_logged_run i.single h _, h.plain⟩
  rw [PublicConn.input, origin_run i.single]
  show Conn.Stamped _ (Conn.relabel _ _ (c.copies ++ [])) _
  rw [List.append_nil]
  exact h.core.step hlogged (Conn.stamped_read _) i.single hother (Conn.stamped_sentAs rfl _)

theorem Stamped.take (h : c.Stamped) (now : ℤ) : (c.take now).Stamped := by
  unfold PublicConn.take
  split
  · exact h
  · rename_i tag b opts rest hqueue
    obtain ⟨cell, isn, s, hlogged⟩ := h.logged
    have hrest : ({ c with writeC := rest } : PublicConn σ).Stamped :=
      ⟨h.core, h.logged, fun w hw => h.plain w (by rw [hqueue]; exact List.mem_cons_of_mem _ hw)⟩
    have hwrite : (Input.write now b opts).Single := trivial
    refine ⟨?_, exists_logged_run hwrite hrest _, hrest.plain⟩
    rw [origin_run hwrite]
    show Conn.Stamped c.origin (Conn.relabel _ _ (c.copies ++ _)) (c.core.step (.write now b opts))
    split_ifs with hclosed
    · -- a closed connection takes nothing
      have hsame : c.core.step (.write now b opts) = c.core := by
        simp [Conn.step, Conn.writeMsg, hclosed]
      rw [hsame, List.append_nil]
      exact h.core.relabel (Conn.stamped_read _)
    · have hplain : opts.srcTime = 0 := h.plain (tag, b, opts)
        (by rw [hqueue]; exact List.mem_cons_self)
      exact h.core.write hlogged (Conn.stamped_read _) (by simpa using hclosed)
        (Conn.stamped_messageFrames rfl hplain tag _) (Conn.stamped_sentAs rfl _)

end PublicConn

/-! ## Runs -/

namespace Cohort

variable {n : ℕ} {σ : Type} {x : Cohort n σ} {f : PublicConn σ → PublicConn σ}

theorem stamped_modifyConn (h : ∀ i, (x.conns i).Stamped) {i : Fin n}
    (hf : (f (x.conns i)).Stamped) :
    ∀ j, ((x.modifyConn i f).conns j).Stamped := by
  intro j
  by_cases hj : j = i
  · subst hj
    show (Function.update x.conns j (f (x.conns j)) j).Stamped
    rw [Function.update_self]
    exact hf
  · show (Function.update x.conns i (f (x.conns i)) j).Stamped
    rw [Function.update_of_ne hj]
    exact h j

theorem stamped_foldl (hf : ∀ c, c.Stamped → (f c).Stamped) (members : List (Fin n))
    (h : ∀ i, (x.conns i).Stamped) :
    ∀ i, ((members.foldl (fun x i => x.modifyConn i f) x).conns i).Stamped := by
  induction members generalizing x with
  | nil => exact h
  | cons i members ih => exact ih (stamped_modifyConn h (hf _ (h i)))

theorem stamped_writeAll (h : ∀ i, (x.conns i).Stamped) (members : List (Fin n)) (tag srctime : ℕ)
    (b : Bytes) :
    ∀ i, ((x.writeAll members tag srctime b).conns i).Stamped := by
  -- the pinned time is nowhere read
  have hpin : ∀ c : PublicConn σ, c.Stamped → (c.setGroupSrcTime srctime).Stamped :=
    fun c hc => { hc with }
  have hclear : ∀ c : PublicConn σ, c.Stamped → c.clearGroupSrcTime.Stamped :=
    fun c hc => { hc with }
  have hpinned := stamped_foldl hpin members h
  have hwritten := stamped_foldl (fun c hc => hc.write tag b) members hpinned
  exact stamped_foldl hclear members hwritten

theorem oneTimestamp_iff_of_stamped (h : ∀ i, (x.conns i).Stamped) : x.OneTimestamp ↔
    x.Simultaneous := by
  constructor
  · intro hone i j a ha b hb htag r hr s hs
    obtain ⟨k, t, ha, ht⟩ := PublicConn.exists_of_mem_sent ha
    obtain ⟨l, u, hb, hu⟩ := PublicConn.exists_of_mem_sent hb
    obtain ⟨-, r', hr', htime⟩ := (h i).timestamp ha ht
    obtain ⟨-, s', hs', hutime⟩ := (h j).timestamp hb hu
    obtain rfl : r' = r := Option.some.inj (hr'.symm.trans hr)
    obtain rfl : s' = s := Option.some.inj (hs'.symm.trans hs)
    rw [← srtTimestamp_eq_iff, ← htime, ← hutime]
    exact hone i j k l a b t u ha ht hb hu htag
  · intro hall i j k l a b t u ha ht hb hu htag
    obtain ⟨ha', r, hr, htime⟩ := (h i).timestamp ha ht
    obtain ⟨hb', s, hs, hutime⟩ := (h j).timestamp hb hu
    rw [htime, hutime, srtTimestamp_eq_iff]
    exact hall i j a ha' b hb' htag r hr s hs

section
variable [Controller σ] [Primitives]

theorem stamped_step (h : ∀ i, (x.conns i).Stamped) (e : CohortEvent n) :
    ∀ i, ((x.step e).conns i).Stamped := by
  cases e with
  | write members srctime b => exact stamped_writeAll h members x.written srctime b
  | replay i tag srctime b => exact stamped_writeAll h [i] tag srctime b
  | take i now => exact stamped_modifyConn h ((h i).take now)
  | input i inp => exact stamped_modifyConn h ((h i).input inp)

/-- **One write, one timestamp**, exactly where the copies are simultaneous: at every moment of
every run all packets of a message carry the same timestamp, those of a replay included, if and
only if the members have read their clocks for them equally long after their origins. -/
theorem copies_share_one_timestamp (cc : Fin n → σ) (now : Fin n → ℤ) (ep : Fin n → EstablishParams)
    (hcap : ∀ i, (ep i).sndCap ≤ 2 ^ 30) (hisn : ∀ i, Valid (ep i).sendISN)
    (es : List (CohortEvent n)) :
    AllStates step (fun x => x.OneTimestamp ↔ x.Simultaneous) (new cc now ep) es := by
  have hinit : ∀ i, ((new cc now ep).conns i).Stamped := by
    intro i
    obtain ⟨cell, s, hlogged⟩ := (Conn.recorded_establish (hcap i) (hisn i) (cc i) (now i)).logged
    have hfresh : (Conn.establish (cc i) (now i) (ep i)).history = [] ∧
        (Conn.establish (cc i) (now i) (ep i)).snd.sendQueue = [] := by
      obtain ⟨os, hos⟩ := Conn.exists_establish_eq (cc i) (now i) (ep i)
      rw [hos]
      exact ⟨rfl, rfl⟩
    refine ⟨?_, ⟨cell, _, s, hlogged⟩, by simp [new]⟩
    show Conn.Stamped _ [] (Conn.establish (cc i) (now i) (ep i))
    simp [Conn.Labelled, hfresh]
  have hrun : AllStates step (fun x => ∀ i, (x.conns i).Stamped) (new cc now ep) es :=
    (allSteps_of_forall_mem (T := fun _ => True) fun _ _ => trivial).allStates
      (fun _ e hx _ => stamped_step hx e) hinit
  exact hrun.mono fun _ hx => oneTimestamp_iff_of_stamped hx

end

end Cohort

namespace Cohort

open scoped XorCipher

def halfASecondLater {n : ℕ} (i : Fin n) : ℤ := if i.val = 0 then 0 else 500000

def slowMembers : Cohort 3 LiveCC := new (fun _ => LiveCC.new 100000 0) halfASecondLater fun _ =>
    { live := true }

/-- Three messages are written to two members, which take them a second after they have connected.
The last message is held back by the pacing on both of them, and is replayed on the third member. -/
def writtenInStep : List (CohortEvent 3) :=
  [.write [0, 1] 1000000 [1], .write [0, 1] 1000000 [2], .write [0, 1] 1000000 [3],
    .take 0 1000000, .take 0 1000000, .take 0 1000000, .input 0 (.timer 1014000 .sndPacing),
    .take 1 1500000, .take 1 1500000, .take 1 1500000, .input 1 (.timer 1514000 .sndPacing),
    .replay 2 2 1000000 [3], .take 2 1514000]

theorem copies_share_one_timestamp_in_step :
    (exec step slowMembers writtenInStep).OneTimestamp ∧
      ∀ i, ((exec step slowMembers writtenInStep).conns i).core.history.map
        (fun t => t.wire.header.timestamp) =
        if i = 2 then [1014000] else [1000000, 1000000, 1014000] := by
  have hiff := (copies_share_one_timestamp (fun _ : Fin 3 => LiveCC.new 100000 0) halfASecondLater
    (fun _ => { live := true }) (fun _ => by decide) (fun _ => by decide) writtenInStep).exec
  refine ⟨hiff.mpr ?_, ?_⟩
  · show (exec step slowMembers writtenInStep).Simultaneous
    decide +kernel
  · decide +kernel

def sentAtOnce : List (CohortEvent 2) :=
  [.write [0, 1] 1000000 [1, 2, 3], .take 0 1000000, .take 1 1000000]

/-- A message that both members send at the same moment carries two timestamps. -/
theorem copies_of_late_member_differ :
    ¬ AllStates step OneTimestamp (new (fun _ => LiveCC.new 0 0) halfASecondLater fun _ =>
      { live := true })
        sentAtOnce := by
  intro h
  have hstamps : ∀ i :
    Fin 2, (((exec step (new (fun _ => LiveCC.new 0 0) halfASecondLater fun _ => { live := true })
      sentAtOnce).conns i).core.history[0]?).map (fun t => t.wire.header.timestamp) =
        some (1000000 - 500000 * i.val) := by
    decide +kernel
  have hcopies : ∀ i : Fin 2, (((exec step (new (fun _ => LiveCC.new 0 0) halfASecondLater fun _ =>
      { live := true }) sentAtOnce).conns i).copies[0]?) =
        some { tag := 0, reading := some 1000000 } := by
    decide +kernel
  obtain ⟨t, ht, htime⟩ := Option.map_eq_some_iff.mp (hstamps 0)
  obtain ⟨u, hu, hutime⟩ := Option.map_eq_some_iff.mp (hstamps 1)
  have hsame := h.exec 0 1 0 0 _ _ t u (hcopies 0) ht (hcopies 1) hu rfl
  rw [htime, hutime] at hsame
  exact absurd hsame (by decide)

end Cohort

end Bonding

end SrtGo
