import SrtGo.Buffer.RecvPlaced

/-!
# The buffer under any drops

A drop at the request of the peer takes the head as far as the peer asks for, also past
the end of the buffer and then further.  `Spans` loses track when the head is half of the
sequence space past the end.  Two observations carry the argument through that point.
Every slot that the head went past beyond the end keeps the mark of the drop, so that
no packet is accepted into it; and where the order of the numbers turns round, the same
number can be read as an end a whole period further on.

So the end is never more than half of the sequence space away from the head, and the code
sees on which side of it the head is.
-/

namespace SrtGo.Buffer

open SrtGo.Seq

namespace RecvBuffer

variable {R : ℕ → Packet → Prop} {rb rb' : RecvBuffer} {s m q i : ℕ} {e : RecvEntry}

/-- The head is at position `s` and the end at `m`.  A head that went past the end has left
its mark in the slots in between. -/
structure Follows (R : ℕ → Packet → Prop) (rb : RecvBuffer) (s m : ℕ) : Prop where
  placed : Placed R rb s
  reaches : Reaches rb s m
  small : rb.len ≤ 2 ^ 29
  head_le : s ≤ m + 2 ^ 30
  end_le : m ≤ s + 2 ^ 30
  less : lessThan (wrap s) (wrap m) = decide (s < m)
  trail : ∀ x, m ≤ x → x < s → s ≤ x + rb.len → (rb.entries (x % rb.len)).state = .drop

def NumberAt (q : ℕ) (p : Packet) : Prop := p.header.sequenceNumber = wrap q

theorem Reaches.mono {m' : ℕ} (h : Reaches rb s m) (hle : m ≤ m') (hwrap : wrap m' = wrap m) :
    Reaches rb s m' :=
  ⟨h.maxSeq_eq.trans hwrap.symm, fun q hq hq' hheld => (h.covers q hq hq' hheld).trans_le hle⟩

namespace Follows

theorem lt_of_held (h : Follows R rb s m) (hheld : (rb.entries i).Held) : s < m := by
  obtain ⟨q, hq, hq', rfl, -⟩ := h.placed.held i hheld
  exact hq.trans_lt (h.reaches.covers q hq (by omega) hheld)

theorem lessThan_eq (h : Follows R rb s m) : lessThan rb.startSeq rb.maxSeq = decide (s < m) := by
  rw [h.placed.startSeq_eq, h.reaches.maxSeq_eq, h.less]

theorem lt_of_occupied (h : Follows R rb s m) (hocc : rb.Occupied) : s < m := by
  rcases hocc with hless | havailable
  · rw [h.lessThan_eq] at hless
    exact of_decide_eq_true hless
  · exact h.lt_of_held (Or.inl havailable)

/-! ## Reading and skipping -/

theorem same (h : Follows R rb s m) (hsame : SameRing rb rb') : Follows R rb' s m where
  __ := h
  placed := h.placed.same hsame
  reaches := h.reaches.same hsame
  small := hsame.len ▸ h.small
  trail x hx hx' := by
    rw [hsame.len, hsame.entries]
    exact h.trail x hx hx'

theorem pass (h : Follows R rb s m) (hlt : s < m) (he : ¬e.Held) (hpass : Passes e rb rb') :
    Follows R rb' (s + 1) m where
  placed := h.placed.pass he hpass
  reaches := h.reaches.pass h.placed.toHeadAt he hpass
  small := hpass.len ▸ h.small
  head_le := by omega
  end_le := by
    have := h.end_le
    omega
  less := by
    have := h.end_le
    exact lessThan_wrap (by omega) (by omega)
  trail x hx hx' := by omega

theorem takeHead (h : Follows R rb s m) (havailable : (rb.entryAt rb.startSeq).state = .available) :
    Follows R rb.takeHead (s + 1) m :=
  h.pass (h.lt_of_held (Or.inl havailable)) not_held_blank (passes_takeHead rb)

theorem edits (h : Follows R rb s m) (hedits : Edits False rb rb') :
    ∃ s', s ≤ s' ∧ s' ≤ max s m ∧ Follows R rb' s' m := by
  induction hedits with
  | refl => exact ⟨s, le_rfl, le_max_left _ _, h⟩
  | tail _ hstep ih =>
    obtain ⟨s', hs', hle, h'⟩ := ih
    cases hstep with
    | same hsame => exact ⟨s', hs', hle, h'.same hsame⟩
    | pass hpass hok =>
      have hlt := h'.lt_of_occupied (hok.2.resolve_left id)
      exact ⟨s' + 1, by omega, by omega, h'.pass hlt hok.1 hpass⟩
    | markRead i he hi =>
      have hlt := h'.lt_of_held (Or.inl hi)
      exact ⟨s', hs', hle, h'.placed.markRead he hi, h'.reaches.markRead hi, h'.small,
        h'.head_le, h'.end_le, h'.less, fun x hx hx' => by omega⟩

/-! ## Dropping -/

/-- Stepping past any head with the mark of a drop.  Where the head gets so far past the end that
the code takes it to be before it, the end is read as being a period further on. -/
theorem dropHead (h : Follows R rb s m) : ∃ m', Follows R rb.dropHead (s + 1) m' := by
  have hpass := passes_dropHead rb
  have hplaced := h.placed.pass not_held_drop hpass
  have hreaches := h.reaches.pass h.placed.toHeadAt not_held_drop hpass
  have hhead := h.head_le
  have hend := h.end_le
  rcases Nat.lt_or_ge s m with hlt | hge
  · exact ⟨m, h.pass hlt not_held_drop hpass⟩
  cases hturn : lessThan (wrap (s + 1)) (wrap m) with
  | true =>
    have hfar : m + 2 ^ 30 ≤ s + 1 := by
      by_contra hnear
      rw [lessThan_wrap (by omega) (by omega)] at hturn
      have := of_decide_eq_true hturn
      omega
    refine ⟨m + 2 ^ 31, hplaced, hreaches.mono (by omega) (wrap_add_period m), h.small, by omega,
      by omega, ?_, fun x hx hx' => by omega⟩
    rw [wrap_add_period, hturn]
    exact (decide_eq_true (by omega)).symm
  | false =>
    have hnear : s + 1 ≤ m + 2 ^ 30 := by
      by_contra hfar
      rw [← wrap_add_period m, lessThan_wrap (by omega) (by omega)] at hturn
      have := of_decide_eq_false hturn
      omega
    refine ⟨m, hplaced, hreaches, h.small, hnear, by omega, ?_, fun x hx hx' hlen => ?_⟩
    · rw [hturn]
      exact (decide_eq_false (by omega)).symm
    · -- the slot of the old head has just been marked
      have hlen : s + 1 ≤ x + rb.len := hlen
      show (rb.dropHead.entries (x % rb.len)).state = .drop
      rw [dropHead_entries, h.placed.startSeq_eq, h.placed.index_eq]
      by_cases heq : x % rb.len = s % rb.len
      · rw [heq, Function.update_self]
      · rw [Function.update_of_ne heq]
        have hne : x ≠ s := fun hxs => heq (hxs ▸ rfl)
        exact h.trail x hx (by omega) (by omega)

/-! ## Inserting -/

theorem lt_of_empty (h : Follows R rb s m) (hq : s ≤ q) (hq' : q + 1 < s + rb.len)
    (hempty : (rb.entries (q % rb.len)).state = .empty) : q + 1 < m + 2 ^ 30 := by
  have hsmall := h.small
  have hpos := h.placed.len_pos
  rcases Nat.lt_or_ge q (m + rb.len) with hlt | hge
  · omega
  · -- its slot would bear the mark of the drop that took the head past it a ring before
    have hslot : q % rb.len = (q - rb.len) % rb.len := by
      rw [Nat.mod_eq_sub_mod (by omega)]
    have hdrop := h.trail (q - rb.len) (by omega) (by omega) (by omega)
    rw [← hslot, hempty] at hdrop
    exact absurd hdrop (by simp)

variable {p : Packet}

theorem store (h : Follows R rb s m) (hseq : p.header.sequenceNumber = wrap q) (hq : s ≤ q)
    (hq' : q + 1 < s + rb.len) (hempty : (rb.entries (q % rb.len)).state = .empty) (hpkt : R q p)
    (now : ℤ) :
    Follows R (rb.store p now) s (max m (q + 1)) := by
  have hend := h.end_le
  have hsmall := h.small
  have hlen : (rb.store p now).len = rb.len := (sameRing_store rb p now).len
  refine ⟨h.placed.store hseq hq hq' hpkt now,
    h.reaches.store h.placed hend (h.lt_of_empty hq hq' hempty) hseq hq hq' now, hlen ▸ hsmall,
    by omega, by omega, ?_, fun x hx hx' => by omega⟩
  rcases Nat.lt_or_ge (q + 1) m with hlt | hge
  · rw [max_eq_left hlt.le]
    exact h.less
  · rw [max_eq_right hge]
    exact lessThan_wrap (by omega) (by omega)

theorem insert (h : Follows NumberAt rb s m) (hp : p.WellFormed) (now : ℤ) :
    ∃ m', Follows NumberAt (rb.insert p now).1 s m' := by
  rcases h.placed.insert_cases hp now with hrejected | ⟨q, hq, hq', hseq, hempty, hinsert⟩
  · rw [hrejected]
    exact ⟨m, h⟩
  · rw [hinsert]
    exact ⟨_, h.store hseq hq hq' hempty hseq now⟩

/-! ## The next packet -/

theorem isSome_peek (h : Follows R rb s m) (havailable : (rb.entries i).state = .available) :
    rb.peekNextAvailableTimestamp.isSome := by
  obtain ⟨q, hq, hq', rfl, -⟩ := h.placed.held i (Or.inl havailable)
  have hlt : q < m := h.reaches.covers q hq (by omega) (Or.inl havailable)
  have hend := h.end_le
  have hless : ∀ x, s ≤ x → x ≤ q → lessThan (wrap x) (wrap m) = true := by
    intro x hx hx'
    rcases Nat.eq_or_lt_of_le hx with rfl | hlt'
    · rw [h.less]
      exact decide_eq_true (by omega)
    · rw [lessThan_wrap (by omega) (by omega)]
      exact decide_eq_true (by omega)
  obtain ⟨x, hx, hx', hscan⟩ := exists_scan_le (fun n => decide ((rb.entryAt n).state = .available))
    hq
    (show q - s ≤ m - s by omega) hless
    (decide_eq_true (by rw [h.placed.entryAt_eq]; exact havailable))
  unfold peekNextAvailableTimestamp nextAvailable
  rw [h.placed.startSeq_eq, h.reaches.maxSeq_eq, ahead_wrap (by omega) (by omega), hscan]
  simp only [hless x hx hx', if_true, Option.map_some, Option.isSome_some]

end Follows

/-! ## Drops at the request of the peer -/

/-- A drop at the request of the peer takes neither the head nor the end a whole period ahead. -/
theorem Follows.drop (h : Follows R rb s m) {upTo : ℕ} (hupTo : Valid upTo) :
    ∃ s' m', s ≤ s' ∧ max s' m' < s + 2 ^ 31 ∧ Follows R (rb.drop upTo).buffer s' m' := by
  have hstart := h.placed.startSeq_eq
  have hvalid : Valid rb.startSeq := hstart ▸ valid_wrap s
  obtain ⟨m₁, h₁⟩ := dropLoop_span (Q := fun n b => ∃ m', Follows R b (s + n) m')
    (fun n b b' hsame hb => hb.elim fun m' hb => (hb.same hsame).dropHead) hvalid hupTo ⟨m, h⟩
  have hend := h₁.end_le
  have hspan : rb.dropSpan upTo ≤ 2 ^ 30 := by
    unfold dropSpan
    split_ifs with hless
    · exact (ahead_of_lessThan hvalid hupTo hless).2
    · omega
  have hmax : m₁ < s + 2 ^ 31 := by
    by_contra hperiod
    -- half of the sequence space ahead of the old head, and the end as far ahead again: then the
    -- end has the number of the old head, which is before the new one
    have hfull : rb.dropSpan upTo = 2 ^ 30 := by omega
    obtain rfl : m₁ = s + 2 ^ 31 := by omega
    have hback := h₁.less
    rw [decide_eq_true (by omega), wrap_add_period] at hback
    unfold dropSpan at hfull hback
    split_ifs at hfull hback with hless
    rw [hstart, wrap_add_ahead s hupTo, ← hstart, lessThan_asymm hless] at hback
    exact absurd hback (by simp)
  obtain ⟨s', hs', hle, h'⟩ := h₁.edits (readings_of_dropLoop rb upTo).edits
  exact ⟨s', m₁, by omega, by omega, h'⟩

/-! ## Packets that are kept -/

theorem entries_of_update_head (h : (rb.entries i).state = .available)
    (hhead : (rb.entryAt rb.startSeq).state ≠ .available) :
    Function.update rb.entries (rb.index rb.startSeq) e i = rb.entries i :=
  Function.update_of_ne (fun heq => hhead (heq ▸ h : (rb.entries _).state = _)) _ _

theorem releaseLoop_entries_of_available (fuel : ℕ) (rb : RecvBuffer)
    (h : (rb.entries i).state = .available) :
    (releaseLoop fuel rb).entries i = rb.entries i := by
  refine releaseLoop_preserves (Q := fun b => b.entries i = rb.entries i) (fun b _ hstate hb => ?_)
    fuel rfl
  rw [advance_entries, entries_of_update_head (hb ▸ h) (by rcases hstate with h | h <;> simp [h]),
    hb]

/-- Skipping what is too late discards no packet: it steps past slots that are empty, dropped or
read. -/
theorem dropTooLate_entries_of_available (rb : RecvBuffer) (now : ℤ) (deliveryTime : ℕ → ℤ)
    (h : (rb.entries i).state = .available) : (rb.dropTooLate now deliveryTime).1.entries i =
      rb.entries i := by
  obtain ⟨_, -, hkept, -⟩ := dropTooLateLoop_rounds now deliveryTime
    (Q := fun _ b => b.entries i = rb.entries i) (fun _ b hlate hb => by
      have hhead : (b.entryAt b.startSeq).state ≠ .available := by
        intro havailable
        simp [headTooLate, havailable] at hlate
      rw [dropHead_entries, entries_of_update_head (hb ▸ h) hhead, hb])
    (ahead rb.startSeq rb.maxSeq) (n := 0) rfl
  exact (releaseLoop_entries_of_available _ _ (hkept ▸ h)).trans hkept

/-! ## The new buffer -/

theorem follows_new {n : ℤ} (hn : n ≤ 2 ^ 29) {isn : ℕ} (hisn : Valid isn) (messageAPI : Bool) :
    Follows R ((RecvBuffer.new n isn).setMessageAPI messageAPI) isn isn where
  placed := placed_new (hn.trans (by norm_num)) hisn messageAPI
  reaches := reaches_new n hisn messageAPI
  small := by
    obtain ⟨k, hk, hlen⟩ := exists_nextPow2_eq_of_le (by norm_num) hn
    exact hlen.trans_le (Nat.pow_le_pow_right two_pos hk)
  head_le := by omega
  end_le := by omega
  less := (lessThan_self _).trans (decide_eq_false (lt_irrefl isn)).symm
  trail x hx hx' := by omega

end RecvBuffer

end SrtGo.Buffer
