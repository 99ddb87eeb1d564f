import Mathlib.Data.List.AList
import Mathlib.Data.List.MinMax
import SrtGo.Bonding.Group
import SrtGo.Message.Ordered

/-!
# Reading from a balancing group

A balancing group sends each message on one of its links, under a number that all links
share.  The reader puts the messages back in order: it keeps those that are ahead of the next
number, skips a number that does not come in time, or when too many wait behind it, and drops
what is behind.  To find the first number it gathers messages for a while before it starts.

The numbers have 26 bits and leave out zero, so that the circle of the numbers is one shorter
than the circle on which they are compared.  Two messages that are less than half of the
circle apart, but on both sides of the wrap, may look farther apart than that.
-/

namespace SrtGo.Bonding

open Bytes Run
open SrtGo.Core (messageNumber nextMsgNo_messageNumber)

/-! ## The reader -/

/-- How many messages may wait behind a missing one. -/
def balanceReorderMax : ℕ := 512

/-- How far `a` is ahead of `b` on the circle of 26 bits. -/
def groupMsgDist (a b : ℕ) : ℕ := ((a + 2 ^ 32 - b) % 2 ^ 32) &&& 0x03FFFFFF

def groupMsgAhead (a b : ℕ) : Bool := decide (groupMsgDist a b < 2 ^ 25)

/-- Where the reader stands: outside of `Read`, gathering the first messages (with or without
one), or waiting for a message. -/
inductive ReadPhase where
  | idle
  | anchoring (armed : Bool)
  | waiting
deriving DecidableEq, Repr

/-- The reader of a balancing group.  What `Read` has returned is not kept by the code. -/
structure Balancer (α : Type) where
  balBuf : AList fun _ : ℕ => α := ∅
  balNext : ℕ := 0
  balStarted : Bool := false
  recvDedups : ℕ := 0
  phase : ReadPhase := .idle
  returned : List α := []

/-- What the reader meets: a call of `Read`, a message or an error from the shared channel, the
timer, and the end of the group. -/
inductive BalanceEvent (α : Type) where
  | read
  | message (msgNo : ℕ) (data : α)
  | error (allBroken : Bool)
  | timeout
  | done

namespace Balancer

variable {α : Type}

/-- The buffered number that is the next one ahead. -/
def earliestBuffered (b : Balancer α) : ℕ :=
  (b.balBuf.keys.argmin fun m => groupMsgDist m b.balNext).getD 0

def deliver (b : Balancer α) (data : α) : Balancer α :=
  { b with
    balNext := Group.nextGroupMsgNo b.balNext
    phase := .idle
    returned := b.returned ++ [data] }

/-- The top of the loop: return the next message if it is there, or wait. -/
def settle (b : Balancer α) : Balancer α :=
  match b.balBuf.lookup b.balNext with
  | some data => { b with balBuf := b.balBuf.erase b.balNext }.deliver data
  | none => { b with phase := .waiting }

def skip (b : Balancer α) : Balancer α := { b with balNext := b.earliestBuffered }.settle

def store (b : Balancer α) (m : ℕ) (data : α) : Balancer α :=
  { b with balBuf := b.balBuf.insert m data }

def receive (b : Balancer α) (m : ℕ) (data : α) : Balancer α :=
  match b.phase with
  | .idle => b
  | .anchoring false => { b.store m data with balNext := m, phase := .anchoring true }
  | .anchoring true =>
    if !groupMsgAhead m b.balNext then { b.store m data with balNext := m } else b.store m data
  | .waiting =>
    if m = b.balNext then b.deliver data
    else if !groupMsgAhead m b.balNext then { b with recvDedups := b.recvDedups + 1 }.settle
    else if balanceReorderMax < (b.store m data).balBuf.keys.length then (b.store m data).skip
    else (b.store m data).settle

/-- The timer fires.  It is armed by the first message, or while messages are kept. -/
def expire (b : Balancer α) : Balancer α :=
  match b.phase with
  | .idle => b
  | .anchoring false => b
  | .anchoring true => { b with balStarted := true }.settle
  | .waiting => if 0 < b.balBuf.keys.length then b.skip else b

def step (b : Balancer α) : BalanceEvent α → Balancer α
  | .read =>
    match b.phase with
    | .idle => if b.balStarted then b.settle else { b with phase := .anchoring false }
    | .anchoring _ => b
    | .waiting => b
  | .message m data => b.receive m data
  | .error allBroken => if allBroken then { b with phase := .idle } else b
  | .timeout => b.expire
  | .done => { b with phase := .idle }

end Balancer

/-! ## Distances -/

theorem groupMsgDist_eq {a b : ℕ} (ha : a < 2 ^ 26) (hb : b < 2 ^ 26) :
    groupMsgDist a b = (a + 2 ^ 26 - b) % 2 ^ 26 := by
  have hmask : ((a + 2 ^ 32 - b) % 2 ^ 32) &&& 0x03FFFFFF = ((a + 2 ^ 32 - b) % 2 ^ 32) % 2 ^ 26 :=
    Nat.and_two_pow_sub_one_eq_mod _ 26
  rw [groupMsgDist, hmask]
  omega

theorem messageNumber_lt (p : ℕ) : messageNumber p < 2 ^ 26 := by
  unfold messageNumber
  omega

theorem messageNumber_inj {p q : ℕ} (h : messageNumber p = messageNumber q)
    (hpq : p < q + (2 ^ 26 - 1)) (hqp : q < p + (2 ^ 26 - 1)) : p = q := by
  unfold messageNumber at h
  omega

/-- The distance of two numbers is that of their positions, and one more across the wrap. -/
theorem dist_messageNumber {p q : ℕ} (hpq : p ≤ q) (hqp : q < p + (2 ^ 26 - 1)) :
    groupMsgDist (messageNumber q) (messageNumber p) =
      q - p + if q % (2 ^ 26 - 1) < p % (2 ^ 26 - 1) then 1 else 0 := by
  rw [groupMsgDist_eq (messageNumber_lt q) (messageNumber_lt p)]
  unfold messageNumber
  split_ifs <;> omega

theorem dist_lt_dist {p q r : ℕ} (hpq : p ≤ q) (hqr : q < r) (hrp : r < p + (2 ^ 26 - 1)) :
    groupMsgDist (messageNumber q) (messageNumber p) < groupMsgDist (messageNumber r)
      (messageNumber p) := by
  rw [dist_messageNumber hpq (by omega), dist_messageNumber (by omega) hrp]
  split_ifs <;> omega

theorem ahead_of_le {p q : ℕ} (hpq : p ≤ q) (hqp : q < p + (2 ^ 25 - 1)) :
    groupMsgAhead (messageNumber q) (messageNumber p) = true := by
  rw [groupMsgAhead, dist_messageNumber hpq (by omega), decide_eq_true_eq]
  split_ifs <;> omega

theorem not_ahead_of_lt {p q : ℕ} (hqp : q < p) (hpq : p < q + 2 ^ 25) :
    groupMsgAhead (messageNumber q) (messageNumber p) = false := by
  rw [groupMsgAhead, groupMsgDist_eq (messageNumber_lt q) (messageNumber_lt p),
    decide_eq_false_iff_not]
  have hround : p / (2 ^ 26 - 1) = q / (2 ^ 26 - 1) ∨ p / (2 ^ 26 - 1) = q / (2 ^ 26 - 1) + 1 := by
    omega
  unfold messageNumber
  rcases hround with hround | hround <;> omega

/-! ## Messages with their positions -/

/-- A message of the stream.  The position counts the messages; the code knows its number
only. -/
structure Letter where
  pos : ℕ
  data : Bytes
deriving DecidableEq, Repr

/-- Messages are kept under their numbers, from position `d` on, and not farther ahead than the
comparison reaches. -/
structure Holds (b : Balancer Letter) (d : ℕ) : Prop where
  keyed : ∀ m l, b.balBuf.lookup m = some l → m = messageNumber l.pos
  window : ∀ m l, b.balBuf.lookup m = some l → d ≤ l.pos ∧ l.pos < d + (2 ^ 25 - 1)

/-- The reader is at position `d`: the messages that it has returned are before it, in order. -/
structure At (b : Balancer Letter) (d : ℕ) : Prop extends Holds b d where
  next : b.balNext = messageNumber d
  increasing : (b.returned.map Letter.pos).Pairwise (· < ·)
  past : ∀ l ∈ b.returned, l.pos < d

variable {m k : ℕ}

theorem lookup_insert_cases {α : Type} {buf : AList fun _ : ℕ => α} {a a' : α}
    (h : (buf.insert k a).lookup m = some a') : m = k ∧ a' = a ∨ buf.lookup m = some a' := by
  by_cases hsame : m = k
  · rw [hsame, AList.lookup_insert] at h
    exact Or.inl ⟨hsame, (Option.some.inj h).symm⟩
  · rw [AList.lookup_insert_ne hsame] at h
    exact Or.inr h

theorem lookup_of_erase {α : Type} {buf : AList fun _ : ℕ => α} {a : α}
    (h : (buf.erase k).lookup m = some a) :
    buf.lookup m = some a := by
  by_cases hsame : m = k
  · rw [hsame, AList.lookup_erase] at h
    exact absurd h (by simp)
  · rwa [AList.lookup_erase_ne hsame] at h

namespace Holds

variable {b : Balancer Letter} {d : ℕ}

variable {l : Letter}

theorem store (h : Holds b d) (hl : d ≤ l.pos) (hl' : l.pos < d + (2 ^ 25 - 1)) :
    Holds (b.store (messageNumber l.pos) l) d := by
  refine ⟨fun m l' hm => ?_, fun m l' hm => ?_⟩
  · rcases lookup_insert_cases hm with ⟨hm, rfl⟩ | hold
    · exact hm
    · exact h.keyed m l' hold
  · rcases lookup_insert_cases hm with ⟨-, rfl⟩ | hold
    · exact ⟨hl, hl'⟩
    · exact h.window m l' hold

theorem earliest (h : Holds b d) (hnext : b.balNext = messageNumber d)
    (hsome : 0 < b.balBuf.keys.length) :
    ∃ l, b.balBuf.lookup b.earliestBuffered = some l ∧ ∀ m l', b.balBuf.lookup m = some l' →
      l.pos ≤ l'.pos := by
  unfold Balancer.earliestBuffered
  cases hmin : b.balBuf.keys.argmin fun m => groupMsgDist m b.balNext with
  | none =>
    rw [List.argmin_eq_none] at hmin
    rw [hmin] at hsome
    exact absurd hsome (lt_irrefl _)
  | some e =>
    have he : e ∈ b.balBuf := AList.mem_keys.mpr (List.argmin_mem hmin)
    obtain ⟨l, hl⟩ := Option.isSome_iff_exists.mp (AList.lookup_isSome.mpr he)
    refine ⟨l, hl, fun m l' hm => ?_⟩
    by_contra hlt
    have hmem : m ∈ b.balBuf.keys := AList.mem_keys.mp (AList.lookup_isSome.mp (by rw [hm]; rfl))
    have hle := List.le_of_mem_argmin hmem hmin
    obtain ⟨hd', hw'⟩ := h.window m l' hm
    obtain ⟨-, hw⟩ := h.window e l hl
    have hnear := dist_lt_dist hd' (not_le.mp hlt) (by omega : l.pos < d + (2 ^ 26 - 1))
    rw [hnext, h.keyed e l hl, h.keyed m l' hm] at hle
    exact absurd hle (not_le.mpr hnear)

end Holds

namespace At

variable {b : Balancer Letter} {d : ℕ}

variable {b' : Balancer Letter}

theorem congr (h : At b d) (hbuf : b'.balBuf = b.balBuf) (hnext : b'.balNext = b.balNext)
    (hret : b'.returned = b.returned) : At b' d :=
  ⟨⟨hbuf ▸ h.keyed, hbuf ▸ h.window⟩, hnext ▸ h.next, hret ▸ h.increasing, hret ▸ h.past⟩

theorem deliver (h : At b d) (hl : l.pos = d) (hnone : b.balBuf.lookup (messageNumber d) = none) :
    At (b.deliver l) (d + 1) where
  keyed := h.keyed
  window m l' hm := by
    obtain ⟨hd, hw⟩ := h.window m l' hm
    have hne : l'.pos ≠ d := by
      intro heq
      have hm' : b.balBuf.lookup (messageNumber d) = some l' := by
        rw [← heq, ← h.keyed m l' hm]
        exact hm
      rw [hnone] at hm'
      exact absurd hm' (by simp)
    omega
  next := by
    show Group.nextGroupMsgNo b.balNext = _
    rw [h.next]
    exact nextMsgNo_messageNumber d
  increasing := by
    show ((b.returned ++ [l]).map Letter.pos).Pairwise (· < ·)
    rw [List.map_append, List.pairwise_append]
    refine ⟨h.increasing, by simp, fun p hp q hq => ?_⟩
    obtain ⟨l', hl', rfl⟩ := List.mem_map.mp hp
    rw [List.map_singleton, List.mem_singleton] at hq
    rw [hq, hl]
    exact h.past l' hl'
  past l' hl' := by
    rcases List.mem_append.mp hl' with hold | hnew
    · exact (h.past l' hold).trans (Nat.lt_succ_self d)
    · rw [List.mem_singleton.mp hnew, hl]
      exact Nat.lt_succ_self d

theorem settle_some (h : At b d) (hl : b.balBuf.lookup b.balNext = some l) :
    l.pos = d ∧ b.settle = { b with balBuf := b.balBuf.erase b.balNext }.deliver l ∧
      At b.settle (d + 1) := by
  have hpos : l.pos = d := by
    obtain ⟨hd, hw⟩ := h.window _ l hl
    have hkey := h.keyed _ l hl
    rw [h.next] at hkey
    exact (messageNumber_inj hkey (by omega) (by omega)).symm
  have hsettle : b.settle = { b with balBuf := b.balBuf.erase b.balNext }.deliver l := by
    unfold Balancer.settle
    rw [hl]
  have herased : At { b with balBuf := b.balBuf.erase b.balNext } d :=
    ⟨⟨fun m l' hm => h.keyed m l' (lookup_of_erase hm),
      fun m l' hm => h.window m l' (lookup_of_erase hm)⟩,
      h.next, h.increasing, h.past⟩
  refine ⟨hpos, hsettle, ?_⟩
  rw [hsettle]
  apply herased.deliver hpos
  show (b.balBuf.erase b.balNext).lookup (messageNumber d) = none
  rw [h.next]
  exact AList.lookup_erase _ _

theorem skip (h : At b d) (hsome : 0 < b.balBuf.keys.length) :
    ∃ l, b.balBuf.lookup b.earliestBuffered = some l ∧ At b.skip (l.pos + 1) ∧
      b.skip = { b with
        balBuf := b.balBuf.erase b.earliestBuffered
        balNext := b.earliestBuffered }.deliver l := by
  obtain ⟨l, hl, hleast⟩ := h.earliest h.next hsome
  obtain ⟨hd, -⟩ := h.window _ l hl
  have hthere : At { b with balNext := b.earliestBuffered } l.pos := by
    refine ⟨⟨h.keyed, fun m l' hm => ⟨hleast m l' hm, ?_⟩⟩, h.keyed _ l hl, h.increasing,
      fun l' hl' => ?_⟩
    · have := (h.window m l' hm).2
      omega
    · exact (h.past l' hl').trans_le hd
  obtain ⟨-, heq, hat⟩ := hthere.settle_some hl
  exact ⟨l, hl, hat, heq⟩

end At

/-! ## What the reader keeps -/

namespace Balancer

variable {b b' : Balancer Letter} {new : Letter → Prop} {l' : Letter}

/-- The message has been returned, or is kept. -/
def Has (b : Balancer Letter) (l : Letter) : Prop :=
  l ∈ b.returned ∨ ∃ m, b.balBuf.lookup m = some l

def HasPos (b : Balancer Letter) (p : ℕ) : Prop := ∃ l, b.Has l ∧ l.pos = p

/-- Nothing is lost, and nothing comes in but `new`. -/
structure Grows (new : Letter → Prop) (b b' : Balancer Letter) : Prop where
  kept : ∀ p, b.HasPos p → b'.HasPos p
  fromNew : ∀ l, b'.Has l → b.Has l ∨ new l

theorem Grows.of_has (h : ∀ l, b'.Has l ↔ b.Has l ∨ new l) : Grows new b b' := by
  refine ⟨fun p => ?_, fun l => (h l).mp⟩
  rintro ⟨l, hl, hp⟩
  exact ⟨l, (h l).mpr (Or.inl hl), hp⟩

theorem Grows.of_eq (new : Letter → Prop) (hbuf : b'.balBuf = b.balBuf)
    (hret : b'.returned = b.returned) :
    Grows new b b' := by
  refine ⟨fun p hp => ?_, fun l hl => Or.inl ?_⟩
  · unfold HasPos Has
    rw [hbuf, hret]
    exact hp
  · unfold Has at hl
    rwa [hbuf, hret] at hl

theorem Grows.congr {b'' : Balancer Letter} (h : Grows new b b')
    (hsame : ∀ l, b''.Has l ↔ b'.Has l) :
    Grows new b b'' := by
  refine ⟨fun p hp => ?_, fun l hl => h.fromNew l ((hsame l).mp hl)⟩
  obtain ⟨l, hl, hlp⟩ := h.kept p hp
  exact ⟨l, (hsame l).mpr hl, hlp⟩

theorem has_erase (hl : b.balBuf.lookup m = some l) (hbuf : b'.balBuf = b.balBuf.erase m)
    (hret : b'.returned = b.returned ++ [l]) : b'.Has l' ↔ b.Has l' := by
  unfold Has
  rw [hbuf, hret, List.mem_append, List.mem_singleton]
  constructor
  · rintro ((hold | rfl) | ⟨m', hm'⟩)
    · exact Or.inl hold
    · exact Or.inr ⟨m, hl⟩
    · exact Or.inr ⟨m', lookup_of_erase hm'⟩
  · rintro (hold | ⟨m', hm'⟩)
    · exact Or.inl (Or.inl hold)
    · by_cases hsame : m' = m
      · rw [hsame, hl] at hm'
        exact Or.inl (Or.inr (Option.some.inj hm').symm)
      · exact Or.inr ⟨m', by rwa [AList.lookup_erase_ne hsame]⟩

theorem has_deliver : (b.deliver l).Has l' ↔ b.Has l' ∨ l' = l := by
  unfold Has
  show l' ∈ b.returned ++ [l] ∨ _ ↔ _
  rw [List.mem_append, List.mem_singleton]
  exact or_right_comm

variable {d : ℕ}

theorem grows_store (h : Holds b d) (hl : l.pos < d + (2 ^ 26 - 1)) (hl' : d ≤ l.pos + 2 ^ 25) :
    Grows (· = l) b (b.store (messageNumber l.pos) l) ∧
      (b.store (messageNumber l.pos) l).Has l := by
  have hnew : (b.store (messageNumber l.pos) l).Has l := Or.inr ⟨_, AList.lookup_insert _⟩
  refine ⟨⟨?_, fun l' => ?_⟩, hnew⟩
  · rintro p ⟨l', hret | ⟨m, hm⟩, hp⟩
    · exact ⟨l', Or.inl hret, hp⟩
    · by_cases hsame : m = messageNumber l.pos
      · obtain ⟨hd, hw⟩ := h.window m l' hm
        have heq : l'.pos = l.pos := messageNumber_inj ((h.keyed m l' hm).symm.trans hsame)
          (by omega) (by omega)
        exact ⟨l, hnew, heq ▸ hp⟩
      · exact ⟨l', Or.inr ⟨m, by rwa [store, AList.lookup_insert_ne hsame]⟩, hp⟩
  · rintro (hret | ⟨m, hm⟩)
    · exact Or.inl (Or.inl hret)
    · rcases lookup_insert_cases hm with ⟨-, hnew⟩ | hold
      · exact Or.inr hnew
      · exact Or.inl (Or.inr ⟨m, hold⟩)

end Balancer

/-! ## One step -/

structure Balanced (b : Balancer Letter) : Prop where
  fresh : b.balStarted = false → b.returned = [] ∧ b.phase ≠ .waiting
  gathering : b.phase = .anchoring true → ∃ d, At b d ∧ (b.balBuf.lookup b.balNext).isSome
  started : b.balStarted = true → ∃ last, b.returned.getLast? = some last ∧ At b (last.pos + 1) ∧
    (b.phase = .idle ∨ b.phase = .waiting ∧ b.balBuf.lookup b.balNext = none)

namespace Balanced

variable {b : Balancer Letter}

theorem of_deliver (hstarted : b.balStarted = true) (hphase : b.phase = .idle)
    (hlast : b.returned.getLast? = some l) (hat : At b (l.pos + 1)) : Balanced b where
  fresh h := absurd h (by simp [hstarted])
  gathering h := absurd h (by simp [hphase])
  started _ := ⟨l, hlast, hat, Or.inl hphase⟩

theorem of_gathering (hstarted : b.balStarted = false) (hphase : b.phase = .anchoring true)
    (hret : b.returned = [])
    (hholds : Holds b d) (hnext : b.balNext = messageNumber d) (hmem : b.balNext ∈ b.balBuf) :
    Balanced b where
  fresh _ := ⟨hret, by simp [hphase]⟩
  gathering _ := ⟨d, ⟨hholds, hnext, by simp [hret], by simp [hret]⟩, AList.lookup_isSome.mpr hmem⟩
  started h := absurd h (by simp [hstarted])

theorem of_erase {n : ℕ} (hl : b.balBuf.lookup m = some l) (hstarted : b.balStarted = true)
    (hat : At b' (l.pos + 1))
    (heq : b' = { b with balBuf := b.balBuf.erase m, balNext := n }.deliver l) :
    Balanced b' ∧ ∀ l', b'.Has l' ↔ b.Has l' := by
  subst heq
  exact ⟨of_deliver hstarted rfl List.getLast?_concat hat, fun l' => Balancer.has_erase hl rfl rfl⟩

theorem settle_some (hat : At b d) (hstarted : b.balStarted = true)
    (hl : b.balBuf.lookup b.balNext = some l) :
    Balanced b.settle ∧ ∀ l', b.settle.Has l' ↔ b.Has l' := by
  obtain ⟨hpos, heq, hat'⟩ := hat.settle_some hl
  exact of_erase hl hstarted (hpos ▸ hat') heq

theorem settle_none {last : Letter} (hlast : b.returned.getLast? = some last)
    (hat : At b (last.pos + 1))
    (hstarted : b.balStarted = true) (hnone : b.balBuf.lookup b.balNext = none) :
    Balanced b.settle ∧ ∀ l', b.settle.Has l' ↔ b.Has l' := by
  have heq : b.settle = { b with phase := .waiting } := by
    unfold Balancer.settle
    rw [hnone]
  rw [heq]
  refine ⟨⟨fun h => absurd h (by simp [hstarted]), fun h => absurd h (by simp), fun _ => ?_⟩,
    fun _ => Iff.rfl⟩
  exact ⟨last, hlast, hat.congr rfl rfl rfl, Or.inr ⟨rfl, hnone⟩⟩

theorem settle (h : Balanced b) (hstarted : b.balStarted = true) :
    Balanced b.settle ∧ ∀ l', b.settle.Has l' ↔ b.Has l' := by
  obtain ⟨last, hlast, hat, -⟩ := h.started hstarted
  cases hl : b.balBuf.lookup b.balNext with
  | some l => exact settle_some hat hstarted hl
  | none => exact settle_none hlast hat hstarted hl

theorem skip (hat : At b d) (hstarted : b.balStarted = true) (hsome : 0 < b.balBuf.keys.length) :
    Balanced b.skip ∧ ∀ l', b.skip.Has l' ↔ b.Has l' := by
  obtain ⟨l, hl, hat', heq⟩ := hat.skip hsome
  exact of_erase hl hstarted hat' heq

end Balanced

namespace Balancer

/-- The position has been passed: a message there or further on has been returned. -/
def passed (b : Balancer Letter) (l : Letter) : Bool :=
  b.balStarted && b.returned.getLast?.any fun last => decide (l.pos ≤ last.pos)

/-- A message that arrives is numbered by its position, and comes within reach of the
comparison: of the messages that are gathered, or of the next position.  No gathering of
first messages was broken off before. -/
def InReach (b : Balancer Letter) : BalanceEvent Letter → Prop
  | .message m l =>
    m = messageNumber l.pos ∧
      match b.phase with
      | .idle => True
      | .anchoring false => b.balBuf.keys = []
      | .anchoring true =>
        ∀ e ∈ b.balBuf.entries, l.pos < e.2.pos + (2 ^ 25 - 1) ∧ e.2.pos < l.pos + (2 ^ 25 - 1)
      | .waiting => ∀ last ∈ b.returned.getLast?,
          l.pos < last.pos + 1 + (2 ^ 25 - 1) ∧ last.pos + 1 < l.pos + 2 ^ 25
  | _ => True

end Balancer

namespace Balanced

variable {b : Balancer Letter} {l : Letter}

section

variable (h : Balanced b)

include h

theorem not_started {armed : Bool} (hphase : b.phase = .anchoring armed) :
    b.balStarted = false := by
  by_contra hstarted
  obtain ⟨last, -, -, hcases⟩ := h.started (by simpa using hstarted)
  rw [hphase] at hcases
  simp at hcases

theorem has_started (hphase : b.phase = .waiting) : b.balStarted = true := by
  by_contra hnot
  exact (h.fresh (by simpa using hnot)).2 hphase

theorem receive_first (hphase : b.phase = .anchoring false) (hempty : b.balBuf.keys = []) :
    Balanced (b.receive (messageNumber l.pos) l) ∧
      Balancer.Grows (· = l) b (b.receive (messageNumber l.pos) l) ∧
      (b.receive (messageNumber l.pos) l).Has l := by
  have hfresh := h.fresh (h.not_started hphase)
  have hholds : Holds b l.pos := by
    have hnone : ∀ m l', b.balBuf.lookup m ≠ some l' := by
      intro m l' hm
      have hmem : m ∈ b.balBuf.keys := AList.mem_keys.mp (AList.lookup_isSome.mp (by rw [hm]; rfl))
      rw [hempty] at hmem
      exact absurd hmem List.not_mem_nil
    exact ⟨fun m l' hm => absurd hm (hnone m l'), fun m l' hm => absurd hm (hnone m l')⟩
  have heq : b.receive (messageNumber l.pos) l =
      { b.store (messageNumber l.pos) l with
        balNext := messageNumber l.pos, phase := .anchoring true } := by
    unfold Balancer.receive
    rw [hphase]
  obtain ⟨hgrows, hhas⟩ := Balancer.grows_store hholds (l := l) (by omega) (by omega)
  have hstored := hholds.store (l := l) le_rfl (by omega)
  rw [heq]
  exact ⟨of_gathering (h.not_started hphase) rfl hfresh.1 { hstored with } rfl
    ((AList.mem_insert _).mpr (Or.inl rfl)), { hgrows with }, hhas⟩

theorem receive_gathering (hphase : b.phase = .anchoring true)
    (hnear : ∀ e ∈ b.balBuf.entries, l.pos < e.2.pos + (2 ^ 25 - 1) ∧
      e.2.pos < l.pos + (2 ^ 25 - 1)) :
    Balanced (b.receive (messageNumber l.pos) l) ∧
      Balancer.Grows (· = l) b (b.receive (messageNumber l.pos) l) ∧
      (b.receive (messageNumber l.pos) l).Has l := by
  have hfresh := h.fresh (h.not_started hphase)
  obtain ⟨d, hat, hsome⟩ := h.gathering hphase
  have hnear' : ∀ m l', b.balBuf.lookup m = some l' → l.pos < l'.pos + (2 ^ 25 - 1) ∧
      l'.pos < l.pos + (2 ^ 25 - 1) :=
    fun m l' hm => hnear ⟨m, l'⟩ (AList.mem_lookup_iff.mp hm)
  obtain ⟨first, hfirst⟩ := Option.isSome_iff_exists.mp hsome
  have hfirstPos : first.pos = d := (hat.settle_some hfirst).1
  obtain ⟨hahead, hbehind⟩ := hnear' _ first hfirst
  rw [hfirstPos] at hahead hbehind
  obtain ⟨hgrows, hhas⟩ := Balancer.grows_store hat.toHolds (l := l) (by omega) (by omega)
  by_cases hlt : l.pos < d
  · have heq : b.receive (messageNumber l.pos) l =
        { b.store (messageNumber l.pos) l with balNext := messageNumber l.pos } := by
      unfold Balancer.receive
      rw [hphase, hat.next, not_ahead_of_lt hlt (by omega)]
      rfl
    -- the window moves back to the new position
    have hholds : Holds b l.pos :=
      ⟨hat.keyed, fun m l' hm => ⟨hlt.le.trans (hat.window m l' hm).1, (hnear' m l' hm).2⟩⟩
    have hstored := hholds.store (l := l) le_rfl (by omega)
    rw [heq]
    exact ⟨of_gathering (h.not_started hphase) hphase hfresh.1 { hstored with } rfl
      ((AList.mem_insert _).mpr (Or.inl rfl)), { hgrows with }, hhas⟩
  · have heq : b.receive (messageNumber l.pos) l = b.store (messageNumber l.pos) l := by
      unfold Balancer.receive
      rw [hphase, hat.next, ahead_of_le (not_lt.mp hlt) hahead]
      rfl
    have hstored := hat.toHolds.store (l := l) (not_lt.mp hlt) hahead
    rw [heq]
    exact ⟨of_gathering (h.not_started hphase) hphase hfresh.1 hstored hat.next
      ((AList.mem_insert _).mpr (Or.inr (AList.lookup_isSome.mp hsome))), hgrows, hhas⟩

theorem receive_waiting (hphase : b.phase = .waiting)
    (hnear : ∀ last ∈ b.returned.getLast?, l.pos < last.pos + 1 + (2 ^ 25 - 1) ∧
      last.pos + 1 < l.pos + 2 ^ 25)
    :
    Balanced (b.receive (messageNumber l.pos) l) ∧
      Balancer.Grows (· = l) b (b.receive (messageNumber l.pos) l) ∧
      (b.passed l = false → (b.receive (messageNumber l.pos) l).Has l) := by
  have hstarted := h.has_started hphase
  obtain ⟨last, hlast, hat, hcases⟩ := h.started hstarted
  have hnone : b.balBuf.lookup b.balNext = none := by
    rcases hcases with hidle | ⟨-, hnone⟩
    · rw [hphase] at hidle
      exact absurd hidle (by simp)
    · exact hnone
  obtain ⟨hahead, hbehind⟩ := hnear last hlast
  have hreceive : b.receive (messageNumber l.pos) l =
      if messageNumber l.pos = b.balNext then b.deliver l
      else if !groupMsgAhead (messageNumber l.pos) b.balNext then
        { b with recvDedups := b.recvDedups + 1 }.settle
      else if balanceReorderMax < (b.store (messageNumber l.pos) l).balBuf.keys.length then
        (b.store (messageNumber l.pos) l).skip
      else (b.store (messageNumber l.pos) l).settle := by
    unfold Balancer.receive
    rw [hphase]
  have hstored (hlate : ¬(!groupMsgAhead (messageNumber l.pos) b.balNext) = true) :
      At (b.store (messageNumber l.pos) l) (last.pos + 1) := by
    have hle : last.pos + 1 ≤ l.pos := by
      by_contra hlt
      rw [hat.next, not_ahead_of_lt (not_le.mp hlt) hbehind] at hlate
      exact hlate rfl
    exact ⟨hat.toHolds.store hle hahead, hat.next, hat.increasing, hat.past⟩
  obtain ⟨hgrows, hhas⟩ := Balancer.grows_store hat.toHolds (l := l) (by omega) hbehind.le
  rw [hreceive]
  split_ifs with hnext hlate hfull
  · -- the next message
    have hpos : l.pos = last.pos + 1 := by
      rw [hat.next] at hnext
      exact messageNumber_inj hnext (by omega) (by omega)
    have hdelivered := hat.deliver hpos (hat.next ▸ hnone)
    rw [← hpos] at hdelivered
    refine ⟨of_deliver (l := l) hstarted rfl List.getLast?_concat hdelivered,
      Balancer.Grows.of_has fun _ => Balancer.has_deliver, fun _ => ?_⟩
    exact Balancer.has_deliver.mpr (Or.inr rfl)
  · -- a late one
    have hpassed : l.pos ≤ last.pos := by
      by_contra hnot
      rw [hat.next, ahead_of_le (by omega) hahead] at hlate
      simp at hlate
    have hsettled := settle_none (b := { b with recvDedups := b.recvDedups + 1 }) hlast
      (hat.congr rfl rfl rfl) hstarted hnone
    refine ⟨hsettled.1, ⟨fun p => ?_, fun l' hl' => Or.inl ((hsettled.2 l').mp hl')⟩,
      fun hnot => ?_⟩
    · rintro ⟨l', hl', hp⟩
      exact ⟨l', (hsettled.2 l').mpr hl', hp⟩
    · simp [Balancer.passed, hstarted, hlast, hpassed] at hnot
  · -- too many wait
    obtain ⟨hskipped, hsame⟩ := skip (hstored hlate) hstarted (Nat.zero_lt_of_lt hfull)
    exact ⟨hskipped, hgrows.congr hsame, fun _ => (hsame l).mpr hhas⟩
  · have hnone' : (b.store (messageNumber l.pos) l).balBuf.lookup b.balNext = none := by
      rw [Balancer.store, AList.lookup_insert_ne (Ne.symm hnext)]
      exact hnone
    obtain ⟨hsettled, hsame⟩ := settle_none (b := b.store (messageNumber l.pos) l) hlast
      (hstored hlate) hstarted hnone'
    exact ⟨hsettled, hgrows.congr hsame, fun _ => (hsame l).mpr hhas⟩

theorem receive (hreach : b.InReach (.message m l)) :
    Balanced (b.receive m l) ∧ Balancer.Grows (· = l) b (b.receive m l) ∧
      (b.phase ≠ .idle → b.passed l = false → (b.receive m l).Has l) := by
  obtain ⟨rfl, hreach⟩ := hreach
  cases hphase : b.phase with
  | idle =>
    have heq : b.receive (messageNumber l.pos) l = b := by
      unfold Balancer.receive
      rw [hphase]
    rw [heq]
    exact ⟨h, Balancer.Grows.of_eq _ rfl rfl, fun hne => absurd rfl hne⟩
  | anchoring armed =>
    rw [hphase] at hreach
    cases armed with
    | false =>
      obtain ⟨hbal, hgrows, hhas⟩ := h.receive_first hphase hreach
      exact ⟨hbal, hgrows, fun _ _ => hhas⟩
    | true =>
      obtain ⟨hbal, hgrows, hhas⟩ := h.receive_gathering hphase hreach
      exact ⟨hbal, hgrows, fun _ _ => hhas⟩
  | waiting =>
    rw [hphase] at hreach
    obtain ⟨hbal, hgrows, hhas⟩ := h.receive_waiting hphase hreach
    exact ⟨hbal, hgrows, fun _ => hhas⟩

theorem expire : Balanced b.expire ∧ ∀ l', b.expire.Has l' ↔ b.Has l' := by
  unfold Balancer.expire
  cases hphase : b.phase with
  | idle => exact ⟨h, fun _ => Iff.rfl⟩
  | anchoring armed =>
    cases armed with
    | false => exact ⟨h, fun _ => Iff.rfl⟩
    | true =>
      obtain ⟨d, hat, hsome⟩ := h.gathering hphase
      obtain ⟨first, hfirst⟩ := Option.isSome_iff_exists.mp hsome
      exact settle_some (b := { b with balStarted := true }) (d := d)
        (hat.congr rfl rfl rfl) rfl hfirst
  | waiting =>
    show Balanced (ite _ _ _) ∧ ∀ l', (ite _ _ _ : Balancer Letter).Has l' ↔ b.Has l'
    have hstarted := h.has_started hphase
    obtain ⟨last, hlast, hat, -⟩ := h.started hstarted
    split_ifs with hsome
    · exact skip hat hstarted hsome
    · exact ⟨h, fun _ => Iff.rfl⟩

theorem leave : Balanced { b with phase := .idle } where
  fresh hnot := ⟨(h.fresh hnot).1, by simp⟩
  gathering hphase := absurd hphase (by simp)
  started hstarted := by
    obtain ⟨last, hlast, hat, -⟩ := h.started hstarted
    exact ⟨last, hlast, hat.congr rfl rfl rfl, Or.inl rfl⟩

theorem read : Balanced (b.step .read) ∧ ∀ l', (b.step .read).Has l' ↔ b.Has l' := by
  unfold Balancer.step
  cases hphase : b.phase with
  | idle =>
    show Balanced (ite _ _ _) ∧ ∀ l', (ite _ _ _ : Balancer Letter).Has l' ↔ b.Has l'
    split_ifs with hstarted
    · exact h.settle hstarted
    · refine ⟨⟨fun _ => ⟨(h.fresh (by simpa using hstarted)).1, by simp⟩,
        fun hp => absurd hp (by simp),
        fun hs => absurd hs hstarted⟩, fun _ => Iff.rfl⟩
  | anchoring armed => exact ⟨h, fun _ => Iff.rfl⟩
  | waiting => exact ⟨h, fun _ => Iff.rfl⟩

end

end Balanced

/-! ## Runs -/

def BalanceEvent.letter? : BalanceEvent Letter → Option Letter
  | .message _ l => some l
  | _ => none

variable {e : BalanceEvent Letter}

/-- The step lemma: the invariant is kept, nothing is lost, nothing comes in but the message of
the event, and that message comes in unless its position has been passed. -/
theorem Balanced.step {b : Balancer Letter} (h : Balanced b) (hreach : b.InReach e) :
    Balanced (b.step e) ∧ Balancer.Grows (· ∈ e.letter?) b (b.step e) ∧
      ∀ l ∈ e.letter?, b.phase ≠ .idle → b.passed l = false → (b.step e).Has l := by
  have hmoves : ∀ b' : Balancer Letter, (Balanced b' ∧ ∀ l', b'.Has l' ↔ b.Has l') →
      Balanced b' ∧ Balancer.Grows (· ∈ (none : Option Letter)) b b' ∧
        ∀ l ∈ (none : Option Letter), b.phase ≠ .idle → b.passed l = false → b'.Has l := by
    intro b' hb'
    refine ⟨hb'.1, Balancer.Grows.of_has fun l' => ?_, by simp⟩
    rw [hb'.2 l']
    simp
  cases e with
  | message m l =>
    obtain ⟨hbal, hgrows, hhas⟩ := h.receive hreach
    refine ⟨hbal, ⟨hgrows.kept, fun l' hl' => ?_⟩, ?_⟩
    · rcases hgrows.fromNew l' hl' with hold | rfl
      · exact Or.inl hold
      · exact Or.inr rfl
    · rintro l' ⟨⟩
      exact hhas
  | read => exact hmoves _ h.read
  | timeout => exact hmoves _ h.expire
  | error allBroken =>
    apply hmoves
    cases allBroken with
    | false => exact ⟨h, fun _ => Iff.rfl⟩
    | true => exact ⟨h.leave, fun _ => Iff.rfl⟩
  | done => exact hmoves _ ⟨h.leave, fun _ => Iff.rfl⟩

/-- A reader with what has arrived, and what of it was not behind the point of delivery. -/
structure BalanceWatch where
  reader : Balancer Letter := {}
  arrived : List Letter := []
  accepted : List Letter := []

def BalanceWatch.step (w : BalanceWatch) (e : BalanceEvent Letter) : BalanceWatch where
  reader := w.reader.step e
  arrived := w.arrived ++ e.letter?.toList
  accepted := w.accepted ++
    e.letter?.toList.filter fun l => decide (w.reader.phase ≠ .idle) && !w.reader.passed l

/-- The messages come out in order and none twice, only those that have arrived, and each that
was not behind when it arrived has come out or is kept, to come out after those before it. -/
structure InOrder (w : BalanceWatch) : Prop where
  increasing : (w.reader.returned.map Letter.pos).Pairwise (· < ·)
  arrived : ∀ l ∈ w.reader.returned, l ∈ w.arrived
  kept : ∀ l ∈ w.accepted, w.reader.HasPos l.pos
  ahead : w.reader.balStarted = true → ∀ m l, w.reader.balBuf.lookup m = some l →
    ∀ l' ∈ w.reader.returned, l'.pos < l.pos

structure Reading (w : BalanceWatch) : Prop where
  balanced : Balanced w.reader
  known : ∀ l, w.reader.Has l → l ∈ w.arrived
  kept : ∀ l ∈ w.accepted, w.reader.HasPos l.pos

namespace Reading

variable {w : BalanceWatch}

theorem step (h : Reading w) (hreach : w.reader.InReach e) : Reading (w.step e) := by
  obtain ⟨hbal, hgrows, hhas⟩ := h.balanced.step hreach
  refine ⟨hbal, fun l hl => ?_, fun l hl => ?_⟩
  · rcases hgrows.fromNew l hl with hold | hnew
    · exact List.mem_append_left _ (h.known l hold)
    · exact List.mem_append_right _ (Option.mem_toList.mpr hnew)
  · rcases List.mem_append.mp hl with hold | hnew
    · exact hgrows.kept _ (h.kept l hold)
    · obtain ⟨hmem, hopen⟩ := List.mem_filter.mp hnew
      rw [Bool.and_eq_true, decide_eq_true_eq, Bool.not_eq_true'] at hopen
      exact ⟨l, hhas l (Option.mem_toList.mp hmem) hopen.1 hopen.2, rfl⟩

theorem inOrder (h : Reading w) : InOrder w := by
  have hknown : ∀ l ∈ w.reader.returned, l ∈ w.arrived := fun l hl => h.known l (Or.inl hl)
  cases hstarted : w.reader.balStarted with
  | false =>
    refine ⟨?_, hknown, h.kept, fun hs => absurd hs (by simp [hstarted])⟩
    rw [(h.balanced.fresh hstarted).1]
    exact List.Pairwise.nil
  | true =>
    obtain ⟨last, -, hat, -⟩ := h.balanced.started hstarted
    refine ⟨hat.increasing, hknown, h.kept, fun _ m l hm l' hl' => ?_⟩
    exact (hat.past l' hl').trans_le (hat.window m l hm).1

end Reading

theorem reading_new : Reading {} where
  balanced := ⟨fun _ => ⟨rfl, by simp⟩, fun h => absurd h (by simp), fun h => absurd h (by simp)⟩
  known l hl := by
    rcases hl with hret | ⟨m, hm⟩
    · exact absurd hret List.not_mem_nil
    · exact absurd hm (by simp)
  kept l hl := absurd hl List.not_mem_nil

/-- When the messages arrive within reach, they come out in order, and none is lost that was
not behind when it arrived. -/
theorem balanced_messages_in_order (events : List (BalanceEvent Letter))
    (hreach : AllSteps BalanceWatch.step (fun w e => w.reader.InReach e) {} events) :
    AllStates BalanceWatch.step InOrder {} events := by
  have hreading : AllStates BalanceWatch.step Reading {} events :=
    hreach.allStates (fun _ _ h hr => h.step hr) reading_new
  exact hreading.mono fun _ h => h.inOrder

instance (b : Balancer Letter) : ∀ e, Decidable (b.InReach e)
  | .message _ _ => by
    unfold Balancer.InReach
    cases b.phase with
    | idle => infer_instance
    | anchoring armed => cases armed <;> infer_instance
    | waiting => infer_instance
  | .read => isTrue trivial
  | .error _ => isTrue trivial
  | .timeout => isTrue trivial
  | .done => isTrue trivial

def arrival (p : ℕ) : BalanceEvent Letter := .message (messageNumber p) ⟨p, []⟩

/-- Five messages, the first two in the wrong order, the third one missing until it is late. -/
def skippedAndLate : List (BalanceEvent Letter) :=
  [.read, arrival 1, arrival 0, .timeout, .read, .read, arrival 3, .timeout, .read,
    arrival 2, arrival 4]

theorem balanced_messages_in_order_with_gap :
    AllStates BalanceWatch.step InOrder {} skippedAndLate ∧
      (exec BalanceWatch.step {} skippedAndLate).reader.returned.map Letter.pos = [0, 1, 3, 4] :=
  ⟨balanced_messages_in_order _ (by decide +kernel), by decide +kernel⟩

/-- The reader waits for position `2 ^ 26 - 2`, the last before the wrap, and a message comes
that is `2 ^ 25 - 1` positions ahead. -/
def acrossTheWrap : List (BalanceEvent Letter) :=
  [.read, arrival (2 ^ 26 - 3), .timeout, .read, arrival (2 ^ 26 - 2 + (2 ^ 25 - 1))]

/-- All links break while the first messages are gathered, and `Read` is called again. -/
def gatheringBrokenOff : List (BalanceEvent Letter) :=
  [.read, arrival 0, .error true, .read, arrival 5, .timeout, .read, .timeout]

/-- A message that is less than `2 ^ 25` positions ahead, but across the wrap, is dropped.  And
when the gathering of the first messages is broken off, a message that was gathered comes
out behind later ones. -/
theorem balanced_messages_out_of_order :
    ¬InOrder (exec BalanceWatch.step {} acrossTheWrap) ∧
      ¬InOrder (exec BalanceWatch.step {} gatheringBrokenOff) := by
  constructor
  · intro h
    obtain ⟨l, hl, hpos⟩ := h.kept ⟨2 ^ 26 - 2 + (2 ^ 25 - 1), []⟩ (by decide +kernel)
    have hreturned : (exec BalanceWatch.step {} acrossTheWrap).reader.returned =
        [⟨2 ^ 26 - 3, []⟩] := by
      decide +kernel
    have hempty : (exec BalanceWatch.step {} acrossTheWrap).reader.balBuf.entries = [] := by
      decide +kernel
    rcases hl with hret | ⟨m, hm⟩
    · rw [hreturned, List.mem_singleton] at hret
      rw [hret] at hpos
      exact absurd hpos (by decide)
    · have hmem := AList.mem_lookup_iff.mp hm
      rw [hempty] at hmem
      exact absurd hmem List.not_mem_nil
  · intro h
    exact absurd h.increasing (by decide +kernel)

end SrtGo.Bonding
