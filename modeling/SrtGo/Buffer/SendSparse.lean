import SrtGo.Buffer.SendWindow

/-!
# A send buffer with holes

The members of a group number their packets together, so a member that was idle or full for a
while goes on with a later number and leaves a hole.  The ring is then read against the positions
`s ≤ p < s + len`, each of which has a slot of its own: `Sparse sb s n` says that only positions
before `n` are used and that the size counts the used slots.  Unlike the window without holes, the
next number may be more than a ring ahead of the start.
-/

namespace SrtGo.Buffer

open SrtGo.Seq Function SendBuffer

namespace SendBuffer

def usedSlots (sb : SendBuffer) : Finset ℕ :=
  (Finset.range sb.len).filter fun i => (sb.entries i).used = true

variable {i : ℕ}

theorem mem_usedSlots {sb : SendBuffer} : i ∈ sb.usedSlots ↔ i < sb.len ∧
    (sb.entries i).used = true := by
  rw [usedSlots, Finset.mem_filter, Finset.mem_range]

def UsedAt (sb : SendBuffer) (x : ℕ) : Prop := (sb.entryAt x).used = true

instance (sb : SendBuffer) (x : ℕ) : Decidable (sb.UsedAt x) :=
  inferInstanceAs (Decidable ((sb.entryAt x).used = true))

end SendBuffer

/-- The ring holds packets of positions `s ≤ p < s + len` with `p < n`. -/
structure Sparse (sb : SendBuffer) (s n : ℕ) : Prop extends sb.EndsAt s n where
  span : n < s + 2 ^ 31
  before : ∀ p, s ≤ p → p < s + sb.len → sb.UsedAt (wrap p) → p < n
  size_eq : sb.size = sb.usedSlots.card

namespace Sparse

variable {sb sb' : SendBuffer} {s n x : ℕ} {lossSeqs : List ℕ}

theorem exists_position (h : Sparse sb s n) (hi : i < sb.len) :
    ∃ p, s ≤ p ∧ p < s + sb.len ∧ sb.index (wrap p) = i := by
  have hpos := h.len_pos
  refine ⟨s + (i + (sb.len - s % sb.len)) % sb.len, by omega, ?_, ?_⟩
  · have := Nat.mod_lt (i + (sb.len - s % sb.len)) hpos
    omega
  · have hs := Nat.mod_lt s hpos
    rw [h.index_wrap, Nat.add_mod, Nat.mod_mod, ← Nat.add_mod]
    have hsum : s + (i + (sb.len - s % sb.len)) = i + (s / sb.len + 1) * sb.len := by
      have := Nat.div_add_mod s sb.len
      rw [Nat.add_mul, Nat.one_mul, Nat.mul_comm]
      omega
    rw [hsum, Nat.add_mul_mod_self_right, Nat.mod_eq_of_lt hi]

theorem exists_used (h : Sparse sb s n) (hsize : 0 < sb.size) :
    ∃ p, s ≤ p ∧ p < s + sb.len ∧ p < n ∧ sb.UsedAt (wrap p) := by
  have hcard : 0 < sb.usedSlots.card := by
    have := h.size_eq
    omega
  obtain ⟨i, hi⟩ := Finset.card_pos.mp hcard
  obtain ⟨hlen, hused⟩ := SendBuffer.mem_usedSlots.mp hi
  obtain ⟨p, hs, hn, rfl⟩ := h.exists_position hlen
  exact ⟨p, hs, hn, h.before p hs hn hused, hused⟩

theorem index_mem (h : Sparse sb s n) (p : ℕ) : sb.index (wrap p) < sb.len := index_lt h.len_pos _

theorem restart (h : Sparse sb s n) (hempty : sb.size = 0) (hx : Valid x) :
    Sparse { sb with startSeq := x, nextSeq := x } x x where
  toEndsAt := ⟨h.pow, le_rfl, (wrap_of_lt hx.lt).symm, (wrap_of_lt hx.lt).symm⟩
  span := by omega
  before p hs hlen hused := by
    -- an empty buffer uses no slot
    have hcard : sb.usedSlots.card = 0 := by
      have := h.size_eq
      omega
    have hmem : sb.index (wrap p) ∈ sb.usedSlots :=
      SendBuffer.mem_usedSlots.mpr ⟨h.index_mem p, hused⟩
    rw [Finset.card_eq_zero.mp hcard] at hmem
    exact absurd hmem (Finset.notMem_empty _)
  size_eq := h.size_eq

theorem leap (h : Sparse sb s n) (n' : ℕ) (hn : n ≤ n') (hspan : n' < s + 2 ^ 31) :
    Sparse { sb with nextSeq := wrap n' } s n' :=
  { h with
    start_le := h.start_le.trans hn
    span := hspan
    nextSeq_eq := rfl
    before := fun p hs hlen hused => (h.before p hs hlen hused).trans_le hn }

theorem usedSlots_setEntry (sb : SendBuffer) (hi : i < sb.len) (e : SendEntry) :
    (sb.setEntry i e).usedSlots = if e.used then insert i sb.usedSlots else
      sb.usedSlots.erase i := by
  ext j
  rw [mem_usedSlots]
  show j < sb.len ∧ (update sb.entries i e j).used = true ↔ _
  by_cases hj : j = i
  · subst hj
    by_cases he : e.used = true
    · simp [he, hi]
    · simp [he]
  · by_cases he : e.used = true
    · simp [he, hj, mem_usedSlots]
    · simp [he, hj, mem_usedSlots]

theorem entryAt_setEntry (h : Sparse sb s n) {p q : ℕ} (hp : s ≤ p ∧ p < s + sb.len)
    (hq : s ≤ q ∧ q < s + sb.len) (hne : p ≠ q) (e : SendEntry) :
    (sb.setEntry (sb.index (wrap q)) e).entryAt (wrap p) = sb.entryAt (wrap p) := by
  have hslot : sb.index (wrap p) ≠ sb.index (wrap q) := fun heq =>
    hne (h.separates p q (by omega) (by omega) heq)
  exact update_of_ne hslot _ _

/-! ## Taking packets out -/

/-- Every packet of the ring `sb'`, read from `s'` on, is one of the ring `sb`, read from `s` on. -/
structure Sub (sb : SendBuffer) (s : ℕ) (sb' : SendBuffer) (s' : ℕ) : Prop where
  len : sb'.len = sb.len
  start : s ≤ s'
  nextSeq : sb'.nextSeq = sb.nextSeq
  packet : ∀ p, s' ≤ p → p < s' + sb.len → sb'.UsedAt (wrap p) →
    p < s + sb.len ∧ sb.UsedAt (wrap p) ∧ (sb'.entryAt (wrap p)).pkt = (sb.entryAt (wrap p)).pkt

theorem Sub.refl (sb : SendBuffer) (s : ℕ) : Sub sb s sb s :=
  ⟨rfl, le_rfl, rfl, fun _ _ hlen hused => ⟨hlen, hused, rfl⟩⟩

theorem Sub.trans {sb'' : SendBuffer} {s' s'' : ℕ} (h : Sub sb s sb' s')
    (h' : Sub sb' s' sb'' s'') :
    Sub sb s sb'' s'' := by
  refine ⟨h'.len.trans h.len, h.start.trans h'.start, h'.nextSeq.trans h.nextSeq,
    fun p hp hlen hused => ?_⟩
  obtain ⟨hlen', hused', hpkt'⟩ := h'.packet p hp (by rw [h.len]; exact hlen) hused
  obtain ⟨hlen'', hused'', hpkt⟩ := h.packet p (h'.start.trans hp)
    (by rw [← h.len]; exact hlen') hused'
  exact ⟨hlen'', hused'', hpkt'.trans hpkt⟩

section

variable (h : Sparse sb s n)

include h

theorem of_sub {s' : ℕ} (hsub : Sub sb s sb' s') (hle : s' ≤ n) (hstart : sb'.startSeq = wrap s')
    (hsize : sb'.size = sb'.usedSlots.card) : Sparse sb' s' n where
  toEndsAt := ⟨hsub.len ▸ h.pow, hle, hstart, hsub.nextSeq.trans h.nextSeq_eq⟩
  span := by
    have := h.span
    have := hsub.start
    omega
  before p hs hlen hused := by
    rw [hsub.len] at hlen
    obtain ⟨hlen', hused', -⟩ := hsub.packet p hs hlen hused
    exact h.before p (hsub.start.trans hs) hlen' hused'
  size_eq := hsize

/-- The position that enters the ring when the head leaves it has the slot of the head. -/
theorem index_add_len : sb.index (wrap (s + sb.len)) = sb.index (wrap s) := by
  rw [h.index_wrap, h.index_wrap, Nat.add_mod_right]

theorem skip (hhead : ¬sb.UsedAt sb.startSeq) (hsize : 0 < sb.size) :
    Sparse { sb with startSeq := inc sb.startSeq } (s + 1) n ∧
      Sub sb s { sb with startSeq := inc sb.startSeq } (s + 1) := by
  rw [h.startSeq_eq] at hhead
  have hsub : Sub sb s { sb with startSeq := inc sb.startSeq } (s + 1) := by
    refine ⟨rfl, by omega, rfl, fun p hs hlen hused => ⟨?_, hused, rfl⟩⟩
    by_contra hout
    obtain rfl : p = s + sb.len := by omega
    refine hhead ?_
    rw [UsedAt, entryAt, ← h.index_add_len]
    exact hused
  refine ⟨h.of_sub hsub ?_ (by rw [h.startSeq_eq, inc_wrap]) h.size_eq, hsub⟩
  obtain ⟨p, hs, -, hn, hused⟩ := h.exists_used hsize
  have hne : p ≠ s := by
    rintro rfl
    exact hhead hused
  omega

theorem release (hhead : sb.UsedAt sb.startSeq) :
    Sparse sb.release (s + 1) n ∧ Sub sb s sb.release (s + 1) := by
  have hpos := h.len_pos
  have hsub : Sub sb s sb.release (s + 1) := by
    refine ⟨rfl, by omega, rfl, fun p hs hlen hused => ?_⟩
    have hentry : sb.release.entryAt (wrap p) = (sb.setEntry (sb.index (wrap s)) {}).entryAt
        (wrap p) := by
      rw [← h.startSeq_eq]
      rfl
    rw [UsedAt, hentry] at hused
    by_cases hp : p = s + sb.len
    · subst hp
      have hblank : (sb.setEntry (sb.index (wrap s)) {}).entryAt (wrap (s + sb.len)) = {} := by
        show update sb.entries (sb.index (wrap s)) {} (sb.index (wrap (s + sb.len))) = {}
        rw [h.index_add_len, update_self]
      rw [hblank] at hused
      exact absurd hused Bool.false_ne_true
    · have hsame := h.entryAt_setEntry (p := p) (q := s) ⟨by omega, by omega⟩ ⟨le_rfl, by omega⟩
        (by omega) {}
      rw [hsame] at hused hentry
      exact ⟨by omega, hused, by rw [hentry]⟩
  refine ⟨h.of_sub hsub ?_ ?_ ?_, hsub⟩
  · rw [h.startSeq_eq] at hhead
    exact h.before s le_rfl (by omega) hhead
  · show inc sb.startSeq = _
    rw [h.startSeq_eq, inc_wrap]
  · have hslots : sb.release.usedSlots = sb.usedSlots.erase (sb.index sb.startSeq) := by
      have hi : sb.index sb.startSeq < sb.len := index_lt h.len_pos _
      exact (usedSlots_setEntry sb hi {}).trans (if_neg Bool.false_ne_true)
    have hmem : sb.index sb.startSeq ∈ sb.usedSlots :=
      SendBuffer.mem_usedSlots.mpr ⟨index_lt h.len_pos _, hhead⟩
    have hcard := Finset.card_erase_add_one hmem
    rw [hslots]
    show sb.size - 1 = _
    have := h.size_eq
    omega

theorem ack (a : ℕ) : ∃ s', Sparse (sb.ack a).1 s' n ∧ Sub sb s (sb.ack a).1 s' := by
  refine ackLoop_preserves (Q := fun r => ∃ s', Sparse r.1 s' n ∧ Sub sb s r.1 s') ?_ ?_ _
    ⟨s, h, Sub.refl sb s⟩
  · rintro sb' count - - hused ⟨s', hsparse, hsub⟩
    obtain ⟨hnext, hsub'⟩ := hsparse.release hused
    exact ⟨s' + 1, hnext, hsub.trans hsub'⟩
  · rintro sb' count hsize hunused ⟨s', hsparse, hsub⟩
    obtain ⟨hnext, hsub'⟩ := hsparse.skip hunused hsize
    exact ⟨s' + 1, hnext, hsub.trans hsub'⟩

theorem dropTooLateSend (now thresh : ℤ) :
    ∃ s', Sparse (sb.dropTooLateSend now thresh).buffer s' n ∧
      Sub sb s (sb.dropTooLateSend now thresh).buffer s' := by
  refine dropTooLateLoop_preserves _ _ (Q := fun r => ∃ s', Sparse r.buffer s' n ∧
    Sub sb s r.buffer s')
    ?_ _ ⟨s, h, Sub.refl sb s⟩
  rintro r - hexpired ⟨s', hsparse, hsub⟩
  have hused : r.buffer.UsedAt r.buffer.startSeq := by
    unfold headExpired at hexpired
    simp only [Bool.and_eq_true] at hexpired
    exact hexpired.1.1
  obtain ⟨hnext, hsub'⟩ := hsparse.release hused
  exact ⟨s' + 1, hnext, hsub.trans hsub'⟩

end

/-! ## Sending again -/

theorem mark (h : Sparse sb s n) (hi : i < sb.len) {e : SendEntry}
    (hused : (sb.entries i).used = true) (he : e.used = true) (hpkt : e.pkt = (sb.entries i).pkt) :
    Sparse (sb.setEntry i e) s n ∧ Sub sb s (sb.setEntry i e) s := by
  have hsub : Sub sb s (sb.setEntry i e) s := by
    refine ⟨rfl, le_rfl, rfl, fun p hs hlen husedp => ⟨hlen, ?_⟩⟩
    by_cases hslot : sb.index (wrap p) = i
    · subst hslot
      have hself : (sb.setEntry (sb.index (wrap p)) e).entryAt (wrap p) = e := update_self _ _ _
      exact ⟨hused, by rw [hself]; exact hpkt⟩
    · have hsame : (sb.setEntry i e).entryAt (wrap p) = sb.entryAt (wrap p) :=
        update_of_ne hslot _ _
      rw [UsedAt, hsame] at husedp
      exact ⟨husedp, by rw [hsame]⟩
  refine ⟨h.of_sub hsub h.start_le h.startSeq_eq ?_, hsub⟩
  rw [usedSlots_setEntry sb hi e, if_pos he,
    Finset.insert_eq_of_mem (SendBuffer.mem_usedSlots.mpr ⟨hi, hused⟩)]
  exact h.size_eq

def Resends (sb : SendBuffer) (s : ℕ) (lossSeqs : List ℕ) (q : Packet) : Prop :=
  ∃ p, s ≤ p ∧ p < s + sb.len ∧ wrap p ∈ lossSeqs ∧ sb.UsedAt (wrap p) ∧
    q = SendBuffer.retransmission (sb.entryAt (wrap p)).pkt

def Near (sb : SendBuffer) (lossSeqs : List ℕ) : Prop :=
  ∀ x ∈ lossSeqs, sb.outOfRange x = false → ahead sb.startSeq x < sb.len

instance (sb : SendBuffer) (lossSeqs : List ℕ) : Decidable (Near sb lossSeqs) :=
  inferInstanceAs (Decidable (∀ x ∈ lossSeqs, sb.outOfRange x = false →
    ahead sb.startSeq x < sb.len))

theorem exists_of_near (h : Sparse sb s n) (hnear : Near sb lossSeqs) (hx : x ∈ lossSeqs)
    (hvalid : Valid x)
    (hrange : sb.outOfRange x = false) : ∃ p, s ≤ p ∧ p < s + sb.len ∧ wrap p = x := by
  have hahead := hnear x hx hrange
  rw [h.startSeq_eq] at hahead
  exact ⟨s + ahead (wrap s) x, by omega, by omega, wrap_add_ahead s hvalid⟩

theorem resends_nak (h : Sparse sb s n) (hvalid : ∀ x ∈ lossSeqs, Valid x)
    (hnear : Near sb lossSeqs) :
    ∀ q ∈ sb.nak lossSeqs, Resends sb s lossSeqs q := by
  intro q hq
  obtain ⟨x, hx, hout⟩ := List.mem_filterMap.mp hq
  simp only at hout
  split_ifs at hout with hrange hused
  obtain ⟨p, hs, hlen, rfl⟩ := h.exists_of_near hnear hx (hvalid x hx) (by simpa using hrange)
  exact ⟨p, hs, hlen, hx, hused, (Option.some.inj hout).symm⟩

/-- A loss report changes nothing but the bookkeeping, and if it names no number beyond the ring,
it hands out the packets of the numbers it names. -/
theorem nakTimed (h : Sparse sb s n) (lossSeqs : List ℕ) (now rtt rttVar : ℤ) :
    Sparse (sb.nakTimed lossSeqs now rtt rttVar).1 s n ∧
      Sub sb s (sb.nakTimed lossSeqs now rtt rttVar).1 s ∧
      ((∀ x ∈ lossSeqs, Valid x) → Near sb lossSeqs →
        ∀ q ∈ (sb.nakTimed lossSeqs now rtt rttVar).2, Resends sb s lossSeqs q) := by
  refine (fun hkept => ⟨hkept.1, hkept.2.1, hkept.2.2.2⟩) (@nakTimed_preserves sb
    (fun r => Sparse r.1 s n ∧ Sub sb s r.1 s ∧ r.1.startSeq = sb.startSeq ∧
      ((∀ x ∈ lossSeqs, Valid x) → Near sb lossSeqs → ∀ q ∈ r.2, Resends sb s lossSeqs q))
    lossSeqs now rtt rttVar ?_ ⟨h, Sub.refl sb s, rfl, by simp⟩)
  rintro sb' ps x hx hrange hused - ⟨hsparse, hsub, hstart, hps⟩
  obtain ⟨hsparse', hsub'⟩ := hsparse.mark (index_lt hsparse.len_pos x)
    (e := { sb'.entryAt x with rexmitTime := now }) hused hused rfl
  refine ⟨hsparse', hsub.trans hsub', hstart, fun hvalid hnear q hq => ?_⟩
  rcases List.mem_append.mp hq with hq | hq
  · exact hps hvalid hnear q hq
  · have hrange' : sb.outOfRange x = false := by
      rw [← hrange, outOfRange, outOfRange, hstart, hsub.nextSeq]
    obtain ⟨p, hs, hlen, rfl⟩ := h.exists_of_near hnear hx (hvalid x hx) hrange'
    obtain ⟨-, hused₀, hsame⟩ := hsub.packet p hs hlen hused
    exact ⟨p, hs, hlen, hx, hused₀, by rw [List.mem_singleton.mp hq, hsame]⟩

/-! ## Sending -/

theorem not_usedAt_nextSeq (h : Sparse sb s n) (hroom : n < s + sb.len) : ¬sb.UsedAt (wrap n) := by
  intro hused
  exact lt_irrefl n (h.before n h.start_le hroom hused)

section

variable (h : Sparse sb s n) (hroom : n < s + sb.len) {p : Packet} {sentAt : ℤ}
    (hpush : sb.push p sentAt = some sb')

include h hroom hpush

theorem push_entryAt : sb'.len = sb.len ∧ (sb'.entryAt (wrap n)).pkt = p ∧
      ∀ q, s ≤ q → q < s + sb.len → q ≠ n → sb'.entryAt (wrap q) = sb.entryAt (wrap q) := by
  unfold SendBuffer.push at hpush
  split_ifs at hpush with hfull
  obtain rfl := Option.some.inj hpush
  rw [h.nextSeq_eq]
  have hself :
    (sb.setEntry (sb.index (wrap n)) { pkt := p, used := true, sentAt := sentAt }).entryAt
      (wrap n) = { pkt := p, used := true, sentAt := sentAt } := update_self _ _ _
  refine ⟨rfl, congrArg SendEntry.pkt hself, fun q hs hq hne => ?_⟩
  exact h.entryAt_setEntry ⟨hs, hq⟩ ⟨h.start_le, hroom⟩ hne _

theorem push : Sparse sb' s (n + 1) := by
  obtain ⟨-, -, hother⟩ := h.push_entryAt hroom hpush
  unfold SendBuffer.push at hpush
  split_ifs at hpush with hfull
  obtain rfl := Option.some.inj hpush
  have hlen := h.len_le
  have hle := h.start_le
  have hi : sb.index sb.nextSeq < sb.len := index_lt h.len_pos _
  refine ⟨⟨h.pow, by omega, h.startSeq_eq, ?_⟩, by omega, fun q hs hq hused => ?_, ?_⟩
  · show inc sb.nextSeq = _
    rw [h.nextSeq_eq, inc_wrap]
  · by_cases hqn : q = n
    · omega
    · rw [UsedAt, hother q hs hq hqn] at hused
      exact (h.before q hs hq hused).trans (Nat.lt_succ_self n)
  · have hnot : sb.index sb.nextSeq ∉ sb.usedSlots := by
      intro hmem
      have hused := (SendBuffer.mem_usedSlots.mp hmem).2
      rw [h.nextSeq_eq] at hused
      exact h.not_usedAt_nextSeq hroom hused
    show sb.size + 1 = _
    have hslots := usedSlots_setEntry sb hi { pkt := p, used := true, sentAt := sentAt }
    rw [if_pos rfl] at hslots
    have hcard := Finset.card_insert_of_notMem hnot
    rw [← hslots] at hcard
    have := h.size_eq
    show sb.size + 1 = ((sb.setEntry (sb.index sb.nextSeq)
      { pkt := p, used := true, sentAt := sentAt }).usedSlots.card : ℤ)
    omega

end

theorem new {capacity : ℤ} (hcapacity : capacity ≤ 2 ^ 30) {isn : ℕ} (hisn : Valid isn) :
    Sparse (SendBuffer.new capacity isn) isn isn where
  toEndsAt := ⟨exists_nextPow2_eq hcapacity, le_rfl, (wrap_of_lt hisn.lt).symm,
    (wrap_of_lt hisn.lt).symm⟩
  span := by omega
  before p _ _ hused := absurd hused Bool.false_ne_true
  size_eq := by simp [usedSlots, SendBuffer.new]

end Sparse

end SrtGo.Buffer
