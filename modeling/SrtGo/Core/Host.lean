import SrtGo.Core.SendStep

/-!
# The host of a connection

The host keeps a table of the timers that are armed.  It hands inputs to the
connection, and between them it drains the outputs, which arm and cancel timers.  A
timer leaves the table when it fires; only a later output arms it again.  The host may
hand over several inputs before it drains.
-/

namespace SrtGo.Core

open Buffer Congestion Crypto

/-- A connection with the timers that its host has armed.  The first `drained` outputs
have been carried out. -/
structure Host (σ : Type) where
  conn : Conn σ
  timers : TimerID → Option ℤ := fun _ => none
  drained : ℕ := 0

inductive HostEvent where
  | input (i : Input)
  | drain

def HostEvent.Single : HostEvent → Prop
  | .input i => i.Single
  | .drain => True

instance : ∀ e : HostEvent, Decidable e.Single
  | .input i => inferInstanceAs (Decidable i.Single)
  | .drain => isTrue trivial

def applyOutput (timers : TimerID → Option ℤ) : Output → TimerID → Option ℤ
  | .setTimer id deadline => Function.update timers id (some deadline)
  | .clearTimer id => Function.update timers id none
  | .sendPacket _ _ => timers

section
variable {timers : TimerID → Option ℤ} {os : List Output} {id : TimerID}

theorem isSome_foldl_applyOutput (harmed : (timers id).isSome) (hkeep : .clearTimer id ∉ os) :
    (os.foldl applyOutput timers id).isSome := by
  induction os generalizing timers with
  | nil => exact harmed
  | cons o os ih =>
    rw [List.mem_cons, not_or] at hkeep
    apply ih _ hkeep.2
    cases o with
    | sendPacket p owned => exact harmed
    | setTimer id' d =>
      by_cases h : id = id'
      · simp [applyOutput, h]
      · simpa [applyOutput, h] using harmed
    | clearTimer id' =>
      have h : id ≠ id' := fun h => hkeep.1 (by rw [h])
      simpa [applyOutput, h] using harmed

theorem isSome_foldl_applyOutput_of_mem {d : ℤ} (hset : .setTimer id d ∈ os)
    (hkeep : .clearTimer id ∉ os) : (os.foldl applyOutput timers id).isSome := by
  induction os generalizing timers with
  | nil => simp at hset
  | cons o os ih =>
    rw [List.mem_cons, not_or] at hkeep
    rcases List.mem_cons.mp hset with h | h
    · rw [← h, List.foldl_cons]
      exact isSome_foldl_applyOutput (by simp [applyOutput]) hkeep.2
    · exact ih h hkeep.2

theorem foldl_applyOutput_congr {timers' : TimerID → Option ℤ} (hsame : timers' id = timers id) :
    os.foldl applyOutput timers' id = os.foldl applyOutput timers id := by
  induction os generalizing timers timers' with
  | nil => exact hsame
  | cons o os ih =>
    apply ih
    cases o with
    | sendPacket p owned => exact hsame
    | setTimer id' d => by_cases h : id = id' <;> simp [applyOutput, h, hsame]
    | clearTimer id' => by_cases h : id = id' <;> simp [applyOutput, h, hsame]

end

namespace Host

variable {σ : Type} {h : Host σ} {id : TimerID} {os : List Output}

def pending (h : Host σ) : List Output := h.conn.outputs.drop h.drained

def drain (h : Host σ) : Host σ :=
  { h with timers := h.pending.foldl applyOutput h.timers, drained := h.conn.outputs.length }

def disarm (timers : TimerID → Option ℤ) : Input → TimerID → Option ℤ
  | .timer _ id => Function.update timers id none
  | _ => timers

def step [Controller σ] [Primitives] (h : Host σ) : HostEvent → Host σ
  | .input i => { h with conn := h.conn.step i, timers := disarm h.timers i }
  | .drain => h.drain

/-- The timer will be armed once the outputs have been carried out. -/
def Armed (h : Host σ) (id : TimerID) : Prop := (h.drain.timers id).isSome

theorem pending_drain (h : Host σ) : h.drain.pending = [] := by simp [drain, pending]

theorem drain_of_pending (hpending : h.pending = []) : h.drain.timers = h.timers := by
  simp [drain, hpending]

theorem armed_drain : h.drain.Armed id ↔ h.Armed id := by
  unfold Armed
  rw [drain_of_pending h.pending_drain]

theorem clearTimer_notMem (hos : ∀ o ∈ os, Conn.KeepsTimers o) (hid : id ≠ .handshake ∧
    id ≠ .kmRefresh) :
    .clearTimer id ∉ os := by
  intro hmem
  have := hos _ hmem
  cases id <;> simp_all [Conn.KeepsTimers]

section
variable [Controller σ] [Primitives] {i : Input}

theorem pending_step (hdrained : h.drained ≤ h.conn.outputs.length)
    (hos : (h.conn.step i).outputs = h.conn.outputs ++ os) : (h.step (.input i)).pending =
      h.pending ++ os := by
  show (h.conn.step i).outputs.drop h.drained = h.conn.outputs.drop h.drained ++ os
  rw [hos, List.drop_append_of_le_length hdrained]

/-- An input leaves a timer armed that it does not fire. -/
theorem Armed.step (harmed : h.Armed id) (hdrained : h.drained ≤ h.conn.outputs.length)
    (horderly : h.conn.Orderly (h.conn.step i)) (hid : id ≠ .handshake ∧ id ≠ .kmRefresh)
    (hfire : ∀ now, i ≠ .timer now id) : (h.step (.input i)).Armed id := by
  obtain ⟨os, hos, hkeep⟩ := horderly
  have hsame : disarm h.timers i id = h.timers id := by
    cases i with
    | timer now id' =>
      have hne : id ≠ id' := fun heq => hfire now (by rw [heq])
      simp [disarm, hne]
    | _ => rfl
  show ((h.step (.input i)).pending.foldl applyOutput (disarm h.timers i) id).isSome
  rw [pending_step hdrained hos, foldl_applyOutput_congr hsame, List.foldl_append]
  exact isSome_foldl_applyOutput harmed (clearTimer_notMem hkeep hid)

end

end Host

namespace Conn

variable {σ : Type} {c c' c'' : Conn σ} {id : TimerID}

def Arms (id : TimerID) (c c' : Conn σ) : Prop :=
  ∃ os, c'.outputs = c.outputs ++ os ∧ ∃ d, .setTimer id d ∈ os

theorem Arms.push (c : Conn σ) (id : TimerID) (d : ℤ) : Arms id c (c.push (.setTimer id d)) :=
  ⟨[.setTimer id d], rfl, d, List.mem_singleton_self _⟩

theorem Arms.after (harms : Arms id c' c'') (horderly : Orderly c c') : Arms id c c'' := by
  obtain ⟨os, hos, -⟩ := horderly
  obtain ⟨os', hos', d, hd⟩ := harms
  exact ⟨os ++ os', by rw [hos', hos, List.append_assoc], d, List.mem_append_right os hd⟩

theorem Orderly.arms (horderly : Orderly c' c'') (harms : Arms id c c') : Arms id c c'' := by
  obtain ⟨os, hos, -⟩ := horderly
  obtain ⟨os', hos', d, hd⟩ := harms
  exact ⟨os' ++ os, by rw [hos, hos', List.append_assoc], d, List.mem_append_left os hd⟩

theorem Arms.armed [Controller σ] [Primitives] {h : Host σ} {i : Input}
    (harms : Arms id h.conn (h.conn.step i)) (hdrained : h.drained ≤ h.conn.outputs.length)
    (horderly : h.conn.Orderly (h.conn.step i)) (hid : id ≠ .handshake ∧ id ≠ .kmRefresh) :
    (h.step (.input i)).Armed id := by
  obtain ⟨os, hos, hkeep⟩ := horderly
  obtain ⟨os', hos', d, hd⟩ := harms
  have hsame : os' = os := List.append_cancel_left (hos'.symm.trans hos)
  show ((h.step (.input i)).pending.foldl applyOutput (Host.disarm h.timers i) id).isSome
  rw [Host.pending_step hdrained hos, List.foldl_append]
  exact isSome_foldl_applyOutput_of_mem (hsame ▸ hd) (Host.clearTimer_notMem hkeep hid)

end Conn

end SrtGo.Core
