import SrtGo.Buffer.Recv

/-!
# The send buffer

A ring of the packets that wait for their acknowledgement.  `startSeq` is the oldest
number that is not acknowledged and `nextSeq` the number of the next packet.

The second half reads the ring as a window of positions, as for the receive buffer.
`Holds sb cell s n` says that the slots of the positions `s ≤ p < n` hold the packets
`cell p` and that every other slot is empty.  Pushing writes position `n`, an
acknowledgement empties the positions in front of it, and a retransmission only hands
out packets that the window holds.
-/

namespace SrtGo.Buffer

open SrtGo.Seq Function

/-- A slot of the send buffer.  The times are zero when they are not set. -/
structure SendEntry where
  pkt : Packet := {}
  used : Bool := false
  sentAt : ℤ := 0
  rexmitTime : ℤ := 0
  msgTTL : ℤ := 0
deriving DecidableEq, Repr, Inhabited

structure SendBuffer where
  entries : ℕ → SendEntry
  len : ℕ
  startSeq : ℕ
  nextSeq : ℕ
  size : ℤ := 0

namespace SendBuffer

def mask (sb : SendBuffer) : ℕ := sb.len - 1

def index (sb : SendBuffer) (s : ℕ) : ℕ := s &&& sb.mask

def entryAt (sb : SendBuffer) (s : ℕ) : SendEntry := sb.entries (sb.index s)

def setEntry (sb : SendBuffer) (i : ℕ) (e : SendEntry) : SendBuffer :=
  { sb with entries := Function.update sb.entries i e }

def new (capacity : ℤ) (initialSeq : ℕ) : SendBuffer :=
  { entries := fun _ => {}
    len := nextPow2 capacity
    startSeq := initialSeq
    nextSeq := initialSeq }

def push (sb : SendBuffer) (p : Packet) (sentAt : ℤ) : Option SendBuffer :=
  if (sb.len : ℤ) ≤ sb.size then none
  else
    some { sb.setEntry (sb.index sb.nextSeq) { pkt := p, used := true, sentAt := sentAt } with
      nextSeq := inc sb.nextSeq
      size := sb.size + 1 }

def release (sb : SendBuffer) : SendBuffer :=
  { sb.setEntry (sb.index sb.startSeq) {} with
    startSeq := inc sb.startSeq
    size := sb.size - 1 }

def ackLoop (ackSeq : ℕ) : ℕ → SendBuffer × ℕ → SendBuffer × ℕ
  | 0, r => r
  | fuel + 1, (sb, count) =>
    if lessThan sb.startSeq ackSeq ∧ 0 < sb.size then
      if (sb.entryAt sb.startSeq).used then ackLoop ackSeq fuel (sb.release, count + 1)
      else ackLoop ackSeq fuel ({ sb with startSeq := inc sb.startSeq }, count)
    else (sb, count)

def ack (sb : SendBuffer) (ackSeq : ℕ) : SendBuffer × ℕ :=
  ackLoop ackSeq (ahead sb.startSeq ackSeq) (sb, 0)

def outOfRange (sb : SendBuffer) (s : ℕ) : Bool :=
  lessThan s sb.startSeq || lessThanOrEqual sb.nextSeq s

def retransmission (p : Packet) : Packet :=
  { p with header := { p.header with retransmitted := true } }

def nak (sb : SendBuffer) (lossSeqs : List ℕ) : List Packet :=
  lossSeqs.filterMap fun s =>
    if sb.outOfRange s then none
    else
      let e := sb.entryAt s
      if e.used then some (retransmission e.pkt) else none

/-- One round of `NAKTimed`: the packet is skipped if it was sent again at `timeNAK` or
later. -/
def nakTimedStep (now timeNAK : ℤ) (r : SendBuffer × List Packet) (s : ℕ) :
    SendBuffer × List Packet :=
  let (sb, retransmit) := r
  if sb.outOfRange s then r
  else
    let e := sb.entryAt s
    if !e.used then r
    else if e.rexmitTime ≠ 0 ∧ ¬e.rexmitTime < timeNAK then r
    else
      (sb.setEntry (sb.index s) { e with rexmitTime := now }, retransmit ++ [retransmission e.pkt])

def nakTimed (sb : SendBuffer) (lossSeqs : List ℕ) (now rtt rttVar : ℤ) :
    SendBuffer × List Packet :=
  let rexmitGate := max (rtt - 4 * rttVar) 0
  lossSeqs.foldl (nakTimedStep now (now - rexmitGate)) (sb, [])

def unackedLoop (sb : SendBuffer) : ℕ → ℕ → List Packet
  | 0, _ => []
  | fuel + 1, s =>
    if lessThan s sb.nextSeq then
      let e := sb.entryAt s
      let rest := unackedLoop sb fuel (inc s)
      if e.used then retransmission e.pkt :: rest else rest
    else []

def getAllUnacked (sb : SendBuffer) : List Packet :=
  if sb.size = 0 then [] else unackedLoop sb (ahead sb.startSeq sb.nextSeq) sb.startSeq

/-- The age at which the head packet is given up; zero if there is none. -/
def effectiveDeadline (e : SendEntry) (thresh : ℤ) : ℤ :=
  let ttlUs := e.msgTTL.tdiv 1000
  if 0 < e.msgTTL ∧ (thresh = 0 ∨ ttlUs < thresh) then ttlUs else thresh

def headExpired (sb : SendBuffer) (now thresh : ℤ) : Bool :=
  let e := sb.entryAt sb.startSeq
  let eff := effectiveDeadline e thresh
  e.used && decide (0 < eff) && decide (eff < now - e.sentAt)

/-- What `DropTooLateSend` did: the range is meaningful only if something was dropped. -/
structure SendDrop where
  buffer : SendBuffer
  dropped : ℕ
  first : ℕ
  last : ℕ

def dropTooLateLoop (now thresh : ℤ) : ℕ → SendDrop → SendDrop
  | 0, r => r
  | fuel + 1, r =>
    if 0 < r.buffer.size ∧ r.buffer.headExpired now thresh then
      dropTooLateLoop now thresh fuel
        { r with
          buffer := r.buffer.release
          dropped := r.dropped + 1
          last := r.buffer.startSeq }
    else r

def dropTooLateSend (sb : SendBuffer) (now thresh : ℤ) : SendDrop :=
  dropTooLateLoop now thresh sb.size.toNat
    { buffer := sb, dropped := 0, first := sb.startSeq, last := 0 }

def setMsgTTL (sb : SendBuffer) (ttl : ℤ) : SendBuffer :=
  if sb.size = 0 then sb
  else
    let i := sb.index (dec sb.nextSeq)
    let e := sb.entries i
    if e.used then sb.setEntry i { e with msgTTL := ttl } else sb

/-- Move the next sequence number; an empty buffer moves altogether. -/
def overrideNextSeq (sb : SendBuffer) (nextSeq : ℕ) : SendBuffer :=
  if sb.size = 0 then { sb with startSeq := nextSeq, nextSeq := nextSeq }
  else { sb with nextSeq := nextSeq }

end SendBuffer

/-! ## The loops -/

namespace SendBuffer

variable {sb sb' sb'' : SendBuffer}

variable {a : ℕ} {r : SendDrop} {p : Packet}

theorem ackLoop_preserves {Q : SendBuffer × ℕ → Prop}
    (hrelease : ∀ sb count, lessThan sb.startSeq a = true → 0 < sb.size →
      (sb.entryAt sb.startSeq).used = true → Q (sb, count) → Q (sb.release, count + 1))
    (hskip : ∀ sb count, 0 < sb.size → ¬(sb.entryAt sb.startSeq).used = true → Q (sb, count) →
      Q ({ sb with startSeq := inc sb.startSeq }, count))
    (fuel : ℕ) {r : SendBuffer × ℕ} (h : Q r) : Q (ackLoop a fuel r) := by
  induction fuel generalizing r with
  | zero => exact h
  | succ fuel ih =>
    obtain ⟨sb, count⟩ := r
    rw [ackLoop]
    split_ifs with hmore hused
    · exact ih (hrelease sb count hmore.1 hmore.2 hused h)
    · exact ih (hskip sb count hmore.2 hused h)
    · exact h

theorem ack_of_not_lessThan (h : lessThan sb.startSeq a = false) : sb.ack a = (sb, 0) := by
  unfold ack
  cases ahead sb.startSeq a with
  | zero => rfl
  | succ fuel => rw [ackLoop, if_neg (by simp [h])]

theorem dropTooLateLoop_preserves {Q : SendDrop → Prop} (now thresh : ℤ)
    (hdrop : ∀ r, 0 < r.buffer.size → r.buffer.headExpired now thresh = true → Q r →
      Q { r with buffer := r.buffer.release, dropped := r.dropped + 1, last := r.buffer.startSeq })
    (fuel : ℕ) (h : Q r) : Q (dropTooLateLoop now thresh fuel r) := by
  induction fuel generalizing r with
  | zero => exact h
  | succ fuel ih =>
    rw [dropTooLateLoop]
    split_ifs with hlate
    · exact ih (hdrop r hlate.1 hlate.2 h)
    · exact h

theorem dropTooLateLoop_stops (now thresh : ℤ) (fuel : ℕ) (h : r.buffer.size ≤ fuel) :
    ¬(0 < (dropTooLateLoop now thresh fuel r).buffer.size ∧
      (dropTooLateLoop now thresh fuel r).buffer.headExpired now thresh = true) := by
  induction fuel generalizing r with
  | zero =>
    rw [dropTooLateLoop]
    omega
  | succ fuel ih =>
    rw [dropTooLateLoop]
    split_ifs with hlate
    · exact ih (by show r.buffer.size - 1 ≤ fuel; push_cast at h; omega)
    · exact hlate

theorem nakTimed_preserves {Q : SendBuffer × List Packet → Prop} {lossSeqs : List ℕ}
    {now rtt rttVar : ℤ}
    (hmark : ∀ sb ps, ∀ x ∈ lossSeqs, sb.outOfRange x = false → (sb.entryAt x).used = true →
      ¬((sb.entryAt x).rexmitTime ≠ 0 ∧ ¬(sb.entryAt x).rexmitTime <
        now - max (rtt - 4 * rttVar) 0) →
      Q (sb, ps) → Q (sb.setEntry (sb.index x) { sb.entryAt x with rexmitTime := now },
        ps ++ [retransmission (sb.entryAt x).pkt]))
    (h : Q (sb, [])) : Q (sb.nakTimed lossSeqs now rtt rttVar) := by
  have hfold : ∀ (xs : List ℕ) (r : SendBuffer × List Packet), (∀ x ∈ xs, x ∈ lossSeqs) → Q r →
      Q (xs.foldl (nakTimedStep now (now - max (rtt - 4 * rttVar) 0)) r) := by
    intro xs
    induction xs with
    | nil => exact fun r _ hr => hr
    | cons x xs ih =>
      rintro ⟨sb, ps⟩ hxs hr
      refine ih _ (fun y hy => hxs y (List.mem_cons_of_mem x hy)) ?_
      simp only [nakTimedStep]
      split_ifs with hrange hunused hrecent
      · exact hr
      · exact hr
      · exact hr
      · exact hmark sb ps x (hxs x List.mem_cons_self) (by simpa using hrange)
          (by simpa using hunused) hrecent hr
  exact hfold lossSeqs _ (fun x hx => hx) h

/-! ## Packets that a buffer holds -/

def CopyOf (sb : SendBuffer) (p : Packet) : Prop :=
  ∃ j, (sb.entries j).used = true ∧ p = retransmission (sb.entries j).pkt

def Within (sb sb' : SendBuffer) : Prop :=
  ∀ j, (sb'.entries j).used = true →
    ∃ k, (sb.entries k).used = true ∧ (sb'.entries j).pkt = (sb.entries k).pkt

theorem Within.refl (sb : SendBuffer) : Within sb sb := fun j hj => ⟨j, hj, rfl⟩

theorem Within.trans (h : Within sb sb') (h' : Within sb' sb'') : Within sb sb'' := by
  intro j hj
  obtain ⟨k, hk, hpkt⟩ := h' j hj
  obtain ⟨m, hm, hpkt'⟩ := h k hk
  exact ⟨m, hm, hpkt.trans hpkt'⟩

theorem CopyOf.of_within (h : Within sb sb') (hp : sb'.CopyOf p) : sb.CopyOf p := by
  obtain ⟨j, hj, rfl⟩ := hp
  obtain ⟨k, hk, hpkt⟩ := h j hj
  exact ⟨k, hk, by rw [hpkt]⟩

variable {e : SendEntry}

theorem within_setEntry (sb : SendBuffer) (i : ℕ)
    (he : e.used = true → ∃ k, (sb.entries k).used = true ∧ e.pkt = (sb.entries k).pkt) :
    Within sb (sb.setEntry i e) := by
  intro j hj
  by_cases hji : j = i
  · subst hji
    simp only [setEntry, update_self] at hj ⊢
    exact he hj
  · simp only [setEntry, update_of_ne hji] at hj ⊢
    exact ⟨j, hj, rfl⟩

theorem used_of_push {sentAt : ℤ} (h : sb.push p sentAt = some sb') (j : ℕ)
    (hj : (sb'.entries j).used = true) :
    (sb'.entries j).pkt = p ∨
      (sb.entries j).used = true ∧ (sb'.entries j).pkt = (sb.entries j).pkt := by
  unfold push at h
  split_ifs at h
  obtain rfl := Option.some.inj h
  by_cases hslot : j = sb.index sb.nextSeq
  · subst hslot
    simp [setEntry]
  · simp only [setEntry, update_of_ne hslot] at hj ⊢
    exact Or.inr ⟨hj, trivial⟩

theorem within_release (sb : SendBuffer) : Within sb sb.release :=
  within_setEntry sb (sb.index sb.startSeq) (by simp)

theorem within_ack (sb : SendBuffer) (ackSeq : ℕ) : Within sb (sb.ack ackSeq).1 :=
  ackLoop_preserves (Q := fun r => Within sb r.1) (fun _ _ _ _ _ h => h.trans (within_release _))
    (fun _ _ _ _ h => h) _ (Within.refl sb)

theorem copyOf_nak (sb : SendBuffer) (lossSeqs : List ℕ) : ∀ p ∈ sb.nak lossSeqs, sb.CopyOf p := by
  intro p hp
  obtain ⟨x, -, hx⟩ := List.mem_filterMap.mp hp
  simp only at hx
  split_ifs at hx with hrange hused
  cases hx
  exact ⟨_, hused, rfl⟩

theorem within_nakTimed (sb : SendBuffer) (lossSeqs : List ℕ) (now rtt rttVar : ℤ) :
    Within sb (sb.nakTimed lossSeqs now rtt rttVar).1 ∧
      ∀ p ∈ (sb.nakTimed lossSeqs now rtt rttVar).2, sb.CopyOf p := by
  refine nakTimed_preserves (Q := fun r => Within sb r.1 ∧ ∀ p ∈ r.2, sb.CopyOf p) ?_
    ⟨Within.refl sb, by simp⟩
  rintro sb' ps x - - hused - ⟨hwithin, hps⟩
  refine ⟨hwithin.trans (within_setEntry sb' _ fun _ => ⟨_, hused, rfl⟩), fun p hp => ?_⟩
  rcases List.mem_append.mp hp with hp | hp
  · exact hps p hp
  · exact CopyOf.of_within hwithin ⟨_, hused, List.mem_singleton.mp hp⟩

theorem nakTimed_within (sb : SendBuffer) (lossSeqs : List ℕ) (now rtt rttVar : ℤ) :
    Within (sb.nakTimed lossSeqs now rtt rttVar).1 sb := by
  refine nakTimed_preserves (Q := fun r => Within r.1 sb) ?_ (Within.refl sb)
  intro sb' ps x _ _ hused _ h
  refine Within.trans (fun j hj => ?_) h
  by_cases hslot : j = sb'.index x
  · subst hslot
    exact ⟨sb'.index x, by simpa [setEntry, entryAt] using hj, by simp [setEntry, entryAt]⟩
  · exact ⟨j, by simpa [setEntry, hslot] using hj, by simp [setEntry, hslot]⟩

theorem copyOf_nakTimed (sb : SendBuffer) (lossSeqs : List ℕ) (now rtt rttVar : ℤ) :
    ∀ p ∈ (sb.nakTimed lossSeqs now rtt rttVar).2,
      (sb.nakTimed lossSeqs now rtt rttVar).1.CopyOf p :=
  fun p hp => ((within_nakTimed sb lossSeqs now rtt rttVar).2 p hp).of_within
    (nakTimed_within sb lossSeqs now rtt rttVar)

theorem copyOf_unackedLoop (sb : SendBuffer) (fuel : ℕ) :
    ∀ x, ∀ p ∈ sb.unackedLoop fuel x, sb.CopyOf p := by
  induction fuel with
  | zero => exact fun x p hp => absurd hp List.not_mem_nil
  | succ fuel ih =>
    intro x p hp
    rw [unackedLoop] at hp
    simp only at hp
    split_ifs at hp with hlt hused
    · rcases List.mem_cons.mp hp with rfl | hp
      · exact ⟨_, hused, rfl⟩
      · exact ih _ p hp
    · exact ih _ p hp
    · exact absurd hp List.not_mem_nil

theorem copyOf_getAllUnacked (sb : SendBuffer) : ∀ p ∈ sb.getAllUnacked, sb.CopyOf p := by
  rw [getAllUnacked]
  split_ifs
  · exact fun p hp => absurd hp List.not_mem_nil
  · exact copyOf_unackedLoop sb _ _

theorem within_dropTooLateLoop (now thresh : ℤ) (fuel : ℕ) (r : SendDrop) :
    Within r.buffer (dropTooLateLoop now thresh fuel r).buffer :=
  dropTooLateLoop_preserves _ _ (Q := fun r' => Within r.buffer r'.buffer)
    (fun _ _ _ h => h.trans (within_release _)) fuel (Within.refl _)

theorem within_overrideNextSeq (sb : SendBuffer) (nextSeq : ℕ) :
    Within sb (sb.overrideNextSeq nextSeq) := by
  unfold overrideNextSeq
  split_ifs <;> exact Within.refl sb

theorem within_setMsgTTL (sb : SendBuffer) (ttl : ℤ) : Within sb (sb.setMsgTTL ttl) := by
  unfold setMsgTTL
  simp only
  split_ifs with hsize hused
  · exact Within.refl sb
  · exact within_setEntry sb _ fun _ => ⟨_, hused, rfl⟩
  · exact Within.refl sb

end SendBuffer

/-! ## The ring as a window of positions -/

/-- The ring has a power of two slots, and its ends are at the positions `s` and `n`. -/
structure SendBuffer.EndsAt (sb : SendBuffer) (s n : ℕ) : Prop where
  pow : ∃ k ≤ 30, sb.len = 2 ^ k
  start_le : s ≤ n
  startSeq_eq : sb.startSeq = wrap s
  nextSeq_eq : sb.nextSeq = wrap n

namespace SendBuffer.EndsAt

variable {sb : SendBuffer} {s n : ℕ}

theorem len_pos (h : sb.EndsAt s n) : 0 < sb.len := by
  obtain ⟨k, -, hlen⟩ := h.pow
  exact hlen ▸ Nat.two_pow_pos k

theorem len_le (h : sb.EndsAt s n) : sb.len ≤ 2 ^ 30 := by
  obtain ⟨k, hk, hlen⟩ := h.pow
  exact hlen ▸ Nat.pow_le_pow_right two_pos hk

theorem index_wrap (h : sb.EndsAt s n) (p : ℕ) : sb.index (wrap p) = p % sb.len := by
  obtain ⟨k, hk, hlen⟩ := h.pow
  have hdvd : 2 ^ k ∣ 2 ^ 31 := pow_dvd_pow 2 (by omega)
  rw [index, mask, hlen, Nat.and_two_pow_sub_one_eq_mod, wrap, Nat.mod_mod_of_dvd _ hdvd]

theorem separates (h : sb.EndsAt s n) : Ring.Separates (fun p => sb.index (wrap p)) sb.len := by
  simp only [h.index_wrap]
  exact Ring.separates_mod sb.len

end SendBuffer.EndsAt

/-- The ring holds the packets `cell p` of the positions `s ≤ p < n` and nothing else. -/
structure Holds (sb : SendBuffer) (cell : ℕ → SendEntry) (s n : ℕ) :
    Prop extends sb.EndsAt s n where
  size_eq : sb.size = (n - s : ℤ)
  width : n ≤ s + sb.len
  used : ∀ p, s ≤ p → p < n → (cell p).used = true
  ring : Ring.Represents (fun p => sb.index (wrap p)) {} sb.entries cell s n

namespace Holds

variable {sb : SendBuffer} {cell : ℕ → SendEntry} {s n i : ℕ}

theorem head_used (h : Holds sb cell s n) (hlt : s < n) : (sb.entryAt sb.startSeq).used = true := by
  rw [h.startSeq_eq, SendBuffer.entryAt, h.ring.inside s le_rfl hlt]
  exact h.used s le_rfl hlt

theorem exists_position (h : Holds sb cell s n) (hi : (sb.entries i).used = true) :
    ∃ p, s ≤ p ∧ p < n ∧ sb.index (wrap p) = i ∧ sb.entries i = cell p := by
  by_contra hnone
  push Not at hnone
  have hblank : sb.entries i = {} := by
    refine h.ring.outside i fun p hs hn hslot => hnone p hs hn hslot ?_
    rw [← hslot]
    exact h.ring.inside p hs hn
  rw [hblank] at hi
  exact absurd hi (by decide)

theorem push (h : Holds sb cell s n) (hroom : n < s + sb.len) (p : Packet) (sentAt : ℤ) :
    ∃ sb', sb.push p sentAt = some sb' ∧ sb'.len = sb.len ∧
      Holds sb' (update cell n { pkt := p, used := true, sentAt := sentAt }) s (n + 1) := by
  have hsize : ¬(sb.len : ℤ) ≤ sb.size := by
    rw [h.size_eq]
    omega
  have hle := h.start_le
  refine ⟨_, if_neg hsize, rfl, ⟨h.pow, by omega, h.startSeq_eq, ?_⟩, ?_, ?_, ?_, ?_⟩
  · show inc sb.nextSeq = _
    rw [h.nextSeq_eq, inc_wrap]
  · show sb.size + 1 = _
    rw [h.size_eq]
    push_cast
    ring
  · exact hroom
  · intro q hs hn
    by_cases hq : q = n
    · rw [hq, update_self]
    · rw [update_of_ne hq]
      exact h.used q hs (by omega)
  · have hpush := h.ring.push h.separates hle hroom { pkt := p, used := true, sentAt := sentAt }
    rw [← h.nextSeq_eq] at hpush
    exact hpush

theorem release (h : Holds sb cell s n) (hlt : s < n) : Holds sb.release cell (s + 1) n where
  pow := h.pow
  start_le := hlt
  startSeq_eq := by
    show inc sb.startSeq = _
    rw [h.startSeq_eq, inc_wrap]
  nextSeq_eq := h.nextSeq_eq
  size_eq := by
    show sb.size - 1 = _
    rw [h.size_eq]
    push_cast
    ring
  width := h.width.trans (by show s + sb.len ≤ s + 1 + sb.len; omega)
  used p hs hn := h.used p (by omega) hn
  ring := by
    have hpop := h.ring.popFront h.separates h.width
    rw [← h.startSeq_eq] at hpop
    exact hpop

theorem setEntry (h : Holds sb cell s n) {p : ℕ} (hs : s ≤ p) (hn : p < n) (hused : e.used = true) :
    Holds (sb.setEntry (sb.index (wrap p)) e) (update cell p e) s n where
  toEndsAt := { h with }
  size_eq := h.size_eq
  width := h.width
  used q hqs hqn := by
    by_cases hq : q = p
    · rw [hq, update_self, hused]
    · rw [update_of_ne hq]
      exact h.used q hqs hqn
  ring := h.ring.update h.separates h.width hs hn e

theorem ackLoop (fuel : ℕ) : ∀ {sb : SendBuffer} {s : ℕ} (count : ℕ),
    Holds sb cell s n → s ≤ a → a < s + 2 ^ 30 → fuel = a - s →
    Holds (SendBuffer.ackLoop (wrap a) fuel (sb, count)).1 cell (max s (min a n)) n ∧
      (SendBuffer.ackLoop (wrap a) fuel (sb, count)).1.len = sb.len := by
  induction fuel with
  | zero =>
    intro sb s count h hsa _ hfuel
    have hs : max s (min a n) = s := by omega
    rw [hs]
    exact ⟨h, rfl⟩
  | succ fuel ih =>
    intro sb s count h hsa hlt hfuel
    have hle := h.start_le
    have hsize := h.size_eq
    have hless : lessThan sb.startSeq (wrap a) = true := by
      rw [h.startSeq_eq, lessThan_wrap (by omega) (by omega)]
      exact decide_eq_true (by omega)
    rw [SendBuffer.ackLoop]
    by_cases hsn : s < n
    · rw [if_pos ⟨hless, by omega⟩, if_pos (h.head_used hsn)]
      obtain ⟨hholds, hlen⟩ := ih (count + 1) (h.release hsn) (by omega) (by omega) (by omega)
      have hs : max s (min a n) = max (s + 1) (min a n) := by omega
      rw [hs]
      exact ⟨hholds, hlen⟩
    · have hs : max s (min a n) = s := by omega
      rw [if_neg (by omega), hs]
      exact ⟨h, rfl⟩

/-- An acknowledgement ahead of the window moves its start, and the packets in front of
it are released. -/
theorem ack_of_le (h : Holds sb cell s n) (hsa : s ≤ a) (hlt : a < s + 2 ^ 30) :
    Holds (sb.ack (wrap a)).1 cell (max s (min a n)) n ∧ (sb.ack (wrap a)).1.len = sb.len := by
  refine Holds.ackLoop _ 0 h hsa hlt ?_
  rw [h.startSeq_eq]
  exact ahead_wrap hsa (by omega)

theorem ack_of_lt (h : Holds sb cell s n) (has : a < s) (hlt : s < a + 2 ^ 30) :
    sb.ack (wrap a) = (sb, 0) := by
  refine SendBuffer.ack_of_not_lessThan ?_
  rw [h.startSeq_eq, lessThan_wrap (by omega) (by omega)]
  exact decide_eq_false (by omega)

def SamePackets (cell cell' : ℕ → SendEntry) : Prop := ∀ p, (cell' p).pkt = (cell p).pkt

theorem SamePackets.update {cell cell' : ℕ → SendEntry} (h : SamePackets cell cell') {q : ℕ}
    (he : e.pkt = (cell' q).pkt) : SamePackets cell (update cell' q e) := by
  intro p
  by_cases hp : p = q
  · rw [hp, update_self, he]
    exact h q
  · rw [update_of_ne hp]
    exact h p

theorem note (h : Holds sb cell s n) (hi : (sb.entries i).used = true) (hused : e.used = true)
    (hpkt : e.pkt = (sb.entries i).pkt) {cell₀ : ℕ → SendEntry} (hsame : SamePackets cell₀ cell) :
    ∃ cell', SamePackets cell₀ cell' ∧ Holds (sb.setEntry i e) cell' s n := by
  obtain ⟨p, hs, hn, rfl, heq⟩ := h.exists_position hi
  exact ⟨update cell p e, hsame.update (by rw [hpkt, heq]), h.setEntry hs hn hused⟩

theorem nakTimed (h : Holds sb cell s n) (lossSeqs : List ℕ) (now rtt rttVar : ℤ) :
    ∃ cell', SamePackets cell cell' ∧ Holds (sb.nakTimed lossSeqs now rtt rttVar).1 cell' s n ∧
      (sb.nakTimed lossSeqs now rtt rttVar).1.len = sb.len := by
  refine SendBuffer.nakTimed_preserves (Q := fun r => ∃ cell', SamePackets cell cell' ∧
    Holds r.1 cell' s n ∧
    r.1.len = sb.len) ?_ ⟨cell, fun _ => rfl, h, rfl⟩
  rintro sb' ps x - - hused - ⟨cell', hsame, hholds, hlen⟩
  obtain ⟨cell'', hsame', hholds'⟩ :=
    hholds.note hused (e := { sb'.entryAt x with rexmitTime := now }) hused
    rfl hsame
  exact ⟨cell'', hsame', hholds', hlen⟩

end Holds

end SrtGo.Buffer
