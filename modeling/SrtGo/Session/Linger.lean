import SrtGo.Core.Sides
import SrtGo.Crypto.XorCipher
import SrtGo.Session.Loop

/-!
# What a lingering close flushes

A session that closes with a linger time stays until everything it has accepted is with
the peer, or the time is up.  What it has accepted may be in three places: the queue of
writes, the send queue of the connection, and the send buffer.  The loop looks at the
first and at the last of them only.  A frame that pacing holds back in the send queue,
while everything sent before it has been acknowledged, is lost when the session closes:
the loop sends the shutdown long before the linger time is up.  Where the send queue is
empty whenever the send buffer is, nothing accepted is left behind.
-/

namespace SrtGo

open Congestion Crypto Run

namespace Core

def Event.isFatal : Event → Bool
  | .failed _ => true
  | .closed => true
  | _ => false

namespace Conn

variable {σ : Type} {c c' : Conn σ}

def EndsClosed (c : Conn σ) : Prop := ∀ e ∈ c.events, e.isFatal = true → c.closed = true

theorem EndsClosed.of_closed (h : c.closed = true) : c.EndsClosed := fun _ _ _ => h

theorem EndsClosed.of_eq (h : c.EndsClosed) (hevents : c'.events = c.events)
    (hclosed : c'.closed = c.closed) :
    c'.EndsClosed := by
  intro e he hfatal
  rw [hclosed]
  exact h e (hevents ▸ he) hfatal

theorem EndsClosed.raise (h : c.EndsClosed) {e : Event} (he : e.isFatal = false) :
    (c.raise e).EndsClosed := by
  intro e' he' hfatal
  rcases List.mem_append.mp he' with hold | hnew
  · exact h e' hold hfatal
  · rw [List.mem_singleton.mp hnew, he] at hfatal
    exact absurd hfatal (by simp)

theorem EndsClosed.sendFrame (h : c.EndsClosed) (hframe : SendFrame c c') : c'.EndsClosed :=
  h.of_eq hframe.events hframe.closed

variable [Controller σ] [Primitives]

theorem EndsClosed.move {i : Input} {c₀ : Conn σ} (h : c.EndsClosed) (hmove : Shift i c₀ c c') :
    c'.EndsClosed := by
  cases hmove with
  | book hbook => exact h.of_eq hbook.events hbook.closed
  | report hreport hsource =>
    rw [hreport.rest]
    exact h.of_eq rfl rfl
  | notify he hclosed => exact EndsClosed.of_closed hclosed
  | close => exact EndsClosed.of_closed rfl
  | deliver hmove hd =>
    cases hmove with
    | read htimer hread => exact (h.of_eq rfl rfl : EndsClosed (c.setRecvBuf _)).raise rfl
    | message htimer hmode hread => exact (h.of_eq rfl rfl : EndsClosed (c.setRecvBuf _)).raise rfl
    | @play timer rb p htimer hread =>
      have hread : EndsClosed ((c.setRecvBuf rb).modifyTimer (·.updateWrap p.header.timestamp)) :=
        h.of_eq rfl rfl
      exact hread.raise rfl
    | _ => exact h.of_eq rfl rfl
  | packet seqNo ts f => exact h.sendFrame (sendFrame_sendData c _ _ _ _)
  | response hi htype hos hes =>
    rcases hes with ⟨rfl, -⟩ | ⟨rfl, hes⟩
    · exact EndsClosed.of_closed rfl
    · intro e he hfatal
      rcases List.mem_append.mp he with hold | hnew
      · exact h e hold hfatal
      · rcases hes with rfl | rfl
        · exact absurd hnew List.not_mem_nil
        · rw [List.mem_singleton.mp hnew] at hfatal
          exact absurd hfatal (by simp [Event.isFatal])
  | _ => exact h.of_eq rfl rfl

theorem EndsClosed.step (h : c.EndsClosed) (i : Input) : (c.step i).EndsClosed :=
  step_preserves c i h fun _ _ hmove hc => hc.move hmove

end Conn

end Core

namespace Session

open SrtGo.Core

variable {σ : Type} {s : Session σ}

/-- Nothing that was accepted is left: not in the queue of writes, not in the send queue of
the connection, not in its send buffer. -/
def Flushed (s : Session σ) : Prop :=
  s.writeC = [] ∧ s.conn.snd.sendQueue = [] ∧ s.conn.pendingSend = 0

/-- The step, if it sends the shutdown of a session that `Close` has been called on, does
so when everything is flushed or the linger time is up. -/
def Lingers (s : Session σ) : Action σ → Prop
  | .stop now =>
    s.stage = .stopping → s.conn.closed = false → s.quit = true → 0 < s.linger →
      (s.closing = true ∧ s.closeDeadline < max s.now now) ∨ s.Flushed
  | _ => True

/-- The readers have kept up so far.  When the loop checks a closing session with an empty
send buffer, the send queue is empty too.  No write is accepted between this check and the
shutdown. -/
def Unhindered (s : Session σ) : Action σ → Prop
  | .check _ =>
    s.deliveries.err = false ∧
      (s.closing = true → s.conn.pendingSend = 0 → s.conn.snd.sendQueue = [])
  | .write _ => s.stage ≠ .stopping
  | _ => True

instance decidableFlushed (s : Session σ) : Decidable s.Flushed :=
  inferInstanceAs (Decidable (_ ∧ _ ∧ _))

instance decidableLingers (s : Session σ) : ∀ a, Decidable (s.Lingers a)
  | .stop _ => inferInstanceAs (Decidable (_ → _ → _ → _ → _ ∨ _))
  | .write _ | .close | .read | .check _ | .select _ _ => isTrue trivial

instance decidableUnhindered (s : Session σ) : ∀ a, Decidable (s.Unhindered a)
  | .check _ => inferInstanceAs (Decidable (_ ∧ (_ → _ → _)))
  | .write _ => inferInstanceAs (Decidable (_ ≠ _))
  | .close | .read | .select _ _ | .stop _ => isTrue trivial

/-! ## Why a session is over -/

/-- A session is over because its connection is, or because its readers did not keep up. -/
structure Accounted (s : Session σ) : Prop where
  endsClosed : s.conn.EndsClosed
  dead : s.dead = true → s.conn.closed = true ∨ s.deliveries.err = true

theorem Accounted.pollEvent (h : s.Accounted) (e : Event) (n : ℕ)
    (hfatal : e.isFatal = true → s.conn.closed = true) : (s.pollEvent (e, n)).Accounted := by
  cases e with
  | connected id => exact h
  | failed err => exact ⟨h.endsClosed, fun _ => Or.inl (hfatal rfl)⟩
  | closed => exact ⟨h.endsClosed, fun _ => Or.inl (hfatal rfl)⟩
  | dataReceived data seq msgNo boundary =>
    refine ⟨h.endsClosed, fun hdead => ?_⟩
    rcases Bool.or_eq_true_iff.mp hdead with hold | hnew
    · exact (h.dead hold).imp_right DeliveryQueue.err_push
    · exact Or.inr (DeliveryQueue.err_of_push (by simpa using hnew))

theorem conn_pollEvent (s : Session σ) (e : Event) (n : ℕ) :
    (s.pollEvent (e, n)).conn = s.conn := by
  cases e <;> rfl

theorem Accounted.foldl_pollEvent {fresh : List (Event × ℕ)} (h : s.Accounted)
    (hfatal : ∀ e ∈ fresh, e.1.isFatal = true → s.conn.closed = true) :
    (fresh.foldl Session.pollEvent s).Accounted ∧ (fresh.foldl Session.pollEvent s).conn =
      s.conn := by
  induction fresh generalizing s with
  | nil => exact ⟨h, rfl⟩
  | cons e fresh ih =>
    have hconn := conn_pollEvent s e.1 e.2
    have hnext := ih (h.pollEvent e.1 e.2 (hfatal e List.mem_cons_self)) fun e' he' hf => by
      rw [hconn]
      exact hfatal e' (List.mem_cons_of_mem e he') hf
    exact ⟨hnext.1, hnext.2.trans hconn⟩

theorem Accounted.drain (h : s.Accounted) : s.drain.Accounted ∧ s.drain.conn = s.conn := by
  apply Accounted.foldl_pollEvent
    (s := { s with host := s.host.drain, polled := s.conn.events.length })
  · exact ⟨h.endsClosed, h.dead⟩
  · intro e he hfatal
    exact h.endsClosed e.1 (List.mem_of_mem_drop (List.fst_mem_of_mem_zipIdx he)) hfatal

section
variable [Controller σ] [Primitives]

theorem Accounted.input (h : s.Accounted) (i : Input) : (s.input i).Accounted := by
  refine ⟨h.endsClosed.step i, fun hdead => ?_⟩
  exact (h.dead hdead).imp_left Conn.closed_step

theorem Accounted.fireTimers (h : s.Accounted) (order : List TimerID) :
    (s.fireTimers order).Accounted := by
  unfold Session.fireTimers
  induction order generalizing s with
  | nil => exact h
  | cons id order ih =>
    rw [List.foldl_cons]
    apply ih
    split
    · exact h
    · split_ifs
      · exact h.input _
      · exact h

theorem Accounted.pick (h : s.Accounted) (choice : Choice σ) : (s.pick choice).Accounted := by
  have hstage : ∀ {s : Session σ} (stage : Stage), s.Accounted → Accounted { s with stage } :=
    fun _ h => ⟨h.endsClosed, h.dead⟩
  cases choice with
  | quit =>
    unfold Session.pick
    simp only
    split_ifs
    · exact ⟨h.endsClosed, h.dead⟩
    · exact h
  | packet p => exact hstage _ (h.input _).drain.1
  | recvClosed => exact hstage _ h
  | write =>
    unfold Session.pick
    simp only
    split
    · exact h
    · rename_i req rest _
      have hrest : Accounted { s with writeC := rest } := ⟨h.endsClosed, h.dead⟩
      exact hstage _ (hrest.input _).drain.1
  | timer order => exact hstage _ (h.fireTimers order).drain.1
  | stats => exact hstage _ h
  | control fn =>
    have hrun : Accounted { s with host := { s.host with conn := fn.run s.conn } } := by
      refine ⟨h.endsClosed.of_eq (fn.events s.conn) (fn.closed s.conn), fun hdead => ?_⟩
      exact (h.dead hdead).imp_left (fn.closed s.conn).trans
    exact hstage _ hrun.drain.1

theorem stage_pick (h : s.stage = .selecting) (choice : Choice σ) :
    (s.pick choice).stage ≠ .stopping := by
  have hne : s.stage ≠ .stopping := by simp [h]
  cases choice with
  | quit =>
    unfold Session.pick
    simp only
    split_ifs
    · simp
    · exact hne
  | write =>
    unfold Session.pick
    simp only
    split
    · exact hne
    · simp
  | _ => simp [Session.pick]

end

/-! ## What the check has seen -/

/-- Between the check and the shutdown, a session with an open connection is closing, and it
is flushed or its time is up. -/
structure Sound (s : Session σ) : Prop extends Accounted s where
  stopping : s.stage = .stopping → s.conn.closed = false →
    s.closing = true ∧ (0 < s.linger → s.closeDeadline < s.now ∨ s.Flushed)

theorem Sound.of_stage (h : s.Accounted) (hstage : s.stage ≠ .stopping) : s.Sound :=
  ⟨h, fun hstop => absurd hstop hstage⟩

theorem closeFinished_cases (h : s.closeFinished = true) :
    s.closing = true ∧ s.writeC = [] ∧ (0 < s.linger → s.conn.pendingSend = 0 ∨
      s.closeDeadline < s.now) := by
  unfold closeFinished at h
  split_ifs at h with hclosing hwrites hlinger hpending
  · exact ⟨by simpa using hclosing, by simpa using hwrites,
      fun hpos => absurd hlinger (not_le.mpr hpos)⟩
  · exact ⟨by simpa using hclosing, by simpa using hwrites, fun _ => Or.inl hpending⟩
  · exact ⟨by simpa using hclosing, by simpa using hwrites, fun _ => Or.inr (of_decide_eq_true h)⟩

theorem Sound.lingers (h : s.Sound) (a : Action σ) : s.Lingers a := by
  cases a with
  | stop now =>
    intro hstop hopen _ hpos
    obtain ⟨hclosing, hflushed⟩ := h.stopping hstop hopen
    refine (hflushed hpos).imp_left fun hlate => ⟨hclosing, ?_⟩
    exact lt_of_lt_of_le hlate (le_max_left _ _)
  | _ => trivial

theorem Sound.check (h : s.Accounted) (now : ℤ) (hcond : s.Unhindered (.check now)) :
    Sound { s.tick now with
      stage := if (s.tick now).dead || (s.tick now).closeFinished then .stopping else
        .selecting } := by
  refine ⟨⟨h.endsClosed, h.dead⟩, fun hstop hopen => ?_⟩
  simp only [ite_eq_left_iff, reduceCtorEq, imp_false, not_not, Bool.or_eq_true] at hstop
  rcases hstop with hdead | hfinished
  · rcases h.dead hdead with hclosed | herr
    · exact absurd hopen (by simp [Session.conn, tick] at hclosed ⊢; simp [hclosed])
    · exact absurd herr (by simp [hcond.1])
  · obtain ⟨hclosing, hwrites, hlinger⟩ := closeFinished_cases hfinished
    refine ⟨hclosing, fun hpos => ?_⟩
    rcases hlinger hpos with hpending | hlate
    · exact Or.inr ⟨hwrites, hcond.2 hclosing hpending, hpending⟩
    · exact Or.inl hlate

variable [Controller σ]

theorem sound_newEstablished (cc : σ) (now : ℤ) (ep : EstablishParams) (linger : ℤ) (caps : ℕ → ℕ) :
    (newEstablished cc now ep linger caps).Sound := by
  obtain ⟨os, hos⟩ := Conn.exists_establish_eq cc now ep
  have hevents : (Conn.establish cc now ep).events = [] := by
    rw [hos]
    rfl
  have hinit : Accounted { host := { conn := Conn.establish cc now ep }, linger, caps, now } := by
    refine ⟨fun e he => ?_, fun hdead => absurd hdead (by simp)⟩
    rw [Session.conn, hevents] at he
    exact absurd he List.not_mem_nil
  refine Sound.of_stage hinit.drain.1 ?_
  simp [newEstablished, Session.drain, Session.conn, hevents]

variable [Primitives]

theorem Sound.step (h : s.Sound) (a : Action σ) (hcond : s.Unhindered a) : (s.step a).Sound := by
  cases a with
  | write req =>
    unfold Session.step
    simp only
    split_ifs
    · exact Sound.of_stage ⟨h.endsClosed, h.dead⟩ hcond
    · exact h
  | close => exact ⟨⟨h.endsClosed, h.dead⟩, h.stopping⟩
  | read =>
    refine ⟨⟨h.endsClosed, fun hdead => ?_⟩, h.stopping⟩
    exact (h.dead hdead).imp_right DeliveryQueue.err_pop
  | check now =>
    show Sound (ite _ _ _)
    by_cases hstage : s.stage = .checking
    · rw [if_pos hstage]
      exact Sound.check h.toAccounted now hcond
    · rw [if_neg hstage]
      exact h
  | select now choice =>
    unfold Session.step
    simp only
    split_ifs with hstage
    · have htick : (s.tick now).Accounted := ⟨h.endsClosed, h.dead⟩
      exact Sound.of_stage (htick.pick choice) (stage_pick (s := s.tick now) hstage choice)
    · exact h
  | stop now =>
    unfold Session.step
    simp only
    split_ifs
    · have htick : (s.tick now).Accounted := ⟨h.endsClosed, h.dead⟩
      have hdrain := (htick.input (.shutdown (s.tick now).now)).drain.1
      exact Sound.of_stage ⟨hdrain.endsClosed, hdrain.dead⟩ (by simp)
    · exact h

/-- **A lingering close flushes everything.**  Where the readers keep up, no write slips in
between the check and the shutdown, and the send queue is empty whenever the loop checks a
closing session with an empty send buffer, the shutdown is sent before the linger time is up
only if nothing accepted is left in any of the three queues. -/
theorem lingering_close_flushes (cc : σ) (now : ℤ) (ep : EstablishParams) (linger : ℤ)
    (caps : ℕ → ℕ) (actions : List (Action σ))
    (h : AllSteps step Unhindered (newEstablished cc now ep linger caps) actions) :
    AllSteps step Lingers (newEstablished cc now ep linger caps) actions :=
  h.allSteps (fun _ a hs hcond => hs.step a hcond) (fun _ a hs _ => hs.lingers a)
    (sound_newEstablished cc now ep linger caps)

end Session

namespace Session

open SrtGo.Core
open scoped XorCipher

def slowLink : EstablishParams := { sendISN := 1, live := true, maxBW := 1000 }

def writeAndClose : List (Action LiveCC) :=
  [.write ⟨[1, 2, 3], {}⟩, .check 1000000, .select 1000000 .write, .close, .check 1010000,
    .select 1010000 .quit, .check 1020000, .select 1020000 (.packet (Conn.liteACK 0 0 2)),
    .check 1020000, .stop 1020000]

theorem lingering_close_flushes_one_write :
    AllSteps step Lingers (newEstablished (LiveCC.new 0 0) 0 slowLink 1000000 fun _ => 0)
      writeAndClose ∧
    (exec step (newEstablished (LiveCC.new 0 0) 0 slowLink 1000000 fun _ => 0) writeAndClose).stage
      = .done := by
  have hunhindered : AllSteps step Unhindered
      (newEstablished (LiveCC.new 0 0) 0 slowLink 1000000 fun _ => 0) writeAndClose := by
    decide +kernel
  exact ⟨lingering_close_flushes _ _ _ _ _ _ hunhindered, by decide +kernel⟩

def writeTwiceAndClose : List (Action LiveCC) :=
  [.write ⟨[1, 2, 3], {}⟩, .write ⟨[4, 5, 6], {}⟩, .check 1000000, .select 1000000 .write,
    .check 1000000,
    .select 1000000 .write, .close, .check 1010000, .select 1010000 .quit, .check 1020000,
    .select 1020000 (.packet (Conn.liteACK 0 0 2)), .check 1020000, .stop 1020000]

/-- The session closes within twenty milliseconds of a linger time of one second, and the
second write is never sent. -/
theorem paced_write_lost_on_close :
    ¬ AllSteps step Lingers (newEstablished (LiveCC.new 0 0) 0 slowLink 1000000 fun _ => 0)
        writeTwiceAndClose ∧
    (exec step (newEstablished (LiveCC.new 0 0) 0 slowLink 1000000 fun _ => 0)
        writeTwiceAndClose).conn.snd.sendQueue.length = 1 := by
  exact ⟨by decide +kernel, by decide +kernel⟩

end Session

end SrtGo
