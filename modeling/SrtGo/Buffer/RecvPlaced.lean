import SrtGo.Buffer.RecvWindow

/-!
# Where the packets of the receive buffer are

After a drop the slots behind the head keep the mark of it, and a ring later they
belong to other numbers.  What always holds is weaker than `Shows`: a slot that
holds a packet, or the trace of one that was read ahead of the head, belongs to a
position less than a ring ahead of the head.  So the position of a packet can be
told from its slot, and the head delivers the position it is at.
-/

namespace SrtGo.Buffer

open SrtGo.Seq Function

namespace RecvBuffer

variable {free : Prop} {R : ℕ → Packet → Prop} {rb rb' : RecvBuffer} {s m q isn i : ℕ}
    {e : RecvEntry}
  {p : Packet} {n : ℤ}

/-- The head is at position `s`, and each packet is in the slot of a position from there on;
`R` relates it to that position. -/
structure Placed (R : ℕ → Packet → Prop) (rb : RecvBuffer) (s : ℕ) : Prop extends rb.HeadAt s where
  held : ∀ i, (rb.entries i).Held → ∃ q, s ≤ q ∧ q + 1 < s + rb.len ∧ i = q % rb.len ∧
    ((rb.entries i).state = .available → R q (rb.entries i).pkt)

structure Reaches (rb : RecvBuffer) (s m : ℕ) : Prop where
  maxSeq_eq : rb.maxSeq = wrap m
  covers : ∀ q, s ≤ q → q < s + rb.len → (rb.entries (q % rb.len)).Held → q < m

namespace Placed

section

variable (h : Placed R rb s)

include h

theorem entryAt_eq (q : ℕ) : rb.entryAt (wrap q) = rb.entries (q % rb.len) := by
  rw [entryAt, h.index_eq]

theorem regular : rb.Regular := ⟨s, h.toHeadAt⟩

theorem at_position (hq : s ≤ q) (hq' : q < s + rb.len) (hheld : (rb.entries (q % rb.len)).Held) :
    q + 1 < s + rb.len ∧
      ((rb.entries (q % rb.len)).state = .available → R q (rb.entries (q % rb.len)).pkt) := by
  obtain ⟨r, hr, hr', hslot, hpkt⟩ := h.held _ hheld
  obtain rfl := Ring.separates_mod rb.len q r (by omega) (by omega) hslot
  exact ⟨hr', hpkt⟩

theorem head (havailable : (rb.entryAt rb.startSeq).state = .available) :
    R s (rb.entryAt rb.startSeq).pkt := by
  rw [h.startSeq_eq, h.entryAt_eq] at havailable ⊢
  have hpos := h.len_pos
  exact (h.at_position le_rfl (by omega) (Or.inl havailable)).2 havailable

theorem same (hsame : SameRing rb rb') : Placed R rb' s where
  toHeadAt := h.toHeadAt.same hsame
  held i hi := by
    rw [hsame.entries] at hi ⊢
    rw [hsame.len]
    exact h.held i hi

theorem pass (he : ¬e.Held) (hpass : Passes e rb rb') : Placed R rb' (s + 1) where
  toHeadAt := h.toHeadAt.pass hpass
  held i hi := by
    rw [hpass.entries, h.startSeq_eq, h.index_eq] at hi ⊢
    by_cases heq : i = s % rb.len
    · rw [heq, update_self] at hi
      exact absurd hi he
    · rw [update_of_ne heq] at hi ⊢
      obtain ⟨q, hq, hq', hslot, hpkt⟩ := h.held i hi
      have hne : q ≠ s := fun hqs => heq (hqs ▸ hslot)
      rw [hpass.len]
      exact ⟨q, by omega, by omega, hslot, hpkt⟩

theorem markRead (he : e.state = .read) (hi : (rb.entries i).state = .available) :
    Placed R (rb.setEntry i e) s where
  toHeadAt := ⟨h.pow, h.startSeq_eq⟩
  held j hj := by
    unfold setEntry at hj ⊢
    simp only at hj ⊢
    by_cases heq : j = i
    · subst heq
      rw [update_self]
      obtain ⟨q, hq, hq', hslot, -⟩ := h.held j (Or.inl hi)
      exact ⟨q, hq, hq', hslot, fun havailable => by simp [he] at havailable⟩
    · rw [update_of_ne heq] at hj ⊢
      exact h.held j hj

end

end Placed

namespace Reaches

theorem same (h : Reaches rb s m) (hsame : SameRing rb rb') : Reaches rb' s m where
  maxSeq_eq := hsame.maxSeq.trans h.maxSeq_eq
  covers q hq hq' := by
    rw [hsame.len] at hq' ⊢
    rw [hsame.entries]
    exact h.covers q hq hq'

theorem pass (h : Reaches rb s m) (hp : HeadAt rb s) (he : ¬e.Held) (hpass : Passes e rb rb') :
    Reaches rb' (s + 1) m where
  maxSeq_eq := hpass.maxSeq.trans h.maxSeq_eq
  covers q hq hq' hheld := by
    rw [hpass.len] at hq' hheld
    rw [hpass.entries, hp.startSeq_eq, hp.index_eq] at hheld
    by_cases heq : q % rb.len = s % rb.len
    · rw [heq, update_self] at hheld
      exact absurd hheld he
    · rw [update_of_ne heq] at hheld
      -- the last position of the new window has the slot of the old head
      refine h.covers q (by omega) ?_ hheld
      refine (show q ≤ s + rb.len by omega).lt_of_ne fun hlast => heq ?_
      rw [hlast, Nat.add_mod_right]

theorem markRead (h : Reaches rb s m) (hi : (rb.entries i).state = .available) :
    Reaches (rb.setEntry i e) s m where
  maxSeq_eq := h.maxSeq_eq
  covers q hq hq' hheld := by
    refine h.covers q hq hq' ?_
    by_cases heq : q % rb.len = i
    · rw [heq]
      exact Or.inl hi
    · have hslot : (update rb.entries i e (q % rb.len)).Held := hheld
      rwa [update_of_ne heq] at hslot

theorem lt_of_occupied (h : Reaches rb s m) (hp : Placed R rb s) (hs : s < m + 2 ^ 30)
    (hocc : rb.Occupied) : s < m := by
  rcases hocc with hless | havailable
  · rw [hp.startSeq_eq, h.maxSeq_eq] at hless
    exact lt_of_lessThan_wrap hless (by omega)
  · rw [hp.startSeq_eq, hp.entryAt_eq] at havailable
    exact h.covers s le_rfl (by have := hp.len_pos; omega) (Or.inl havailable)

end Reaches

/-! ## Edits -/

/-- How far an edit can take the head: without a drop at the request of the peer, not past
the end of the buffer. -/
theorem Placed.edits (h : Placed R rb s) (hedits : Edits free rb rb') : ∃ s', s ≤ s' ∧
    Placed R rb' s' ∧
    ∀ m, Reaches rb s m → Reaches rb' s' m ∧ (¬free → s ≤ m → m < s + rb.len → s' ≤ m) := by
  induction hedits with
  | refl => exact ⟨s, le_rfl, h, fun m hm => ⟨hm, fun _ hle _ => hle⟩⟩
  | @tail r r' hhead hstep ih =>
    obtain ⟨s', hs', hplaced, hreach⟩ := ih
    have hlen : r.len = rb.len := Chain.len_eq hhead
    cases hstep with
    | same hsame =>
      exact ⟨s', hs', hplaced.same hsame, fun m hm => ⟨(hreach m hm).1.same hsame, (hreach m hm).2⟩⟩
    | pass hpass hok =>
      refine ⟨s' + 1, by omega, hplaced.pass hok.1 hpass, fun m hm => ?_⟩
      obtain ⟨hm', hbound⟩ := hreach m hm
      refine ⟨hm'.pass hplaced.toHeadAt hok.1 hpass, fun hfree hle hlt => ?_⟩
      have := hbound hfree hle hlt
      exact hm'.lt_of_occupied hplaced (by omega) (hok.2.resolve_left hfree)
    | markRead i he hi =>
      exact ⟨s', hs', hplaced.markRead he hi, fun m hm => ⟨(hreach m hm).1.markRead hi,
        (hreach m hm).2⟩⟩

theorem Edits.held_of_held (hedits : Edits free rb rb') (hheld : (rb'.entries i).Held) :
    (rb.entries i).Held := by
  induction hedits with
  | refl => exact hheld
  | @tail r _ _ hstep ih =>
    refine ih ?_
    cases hstep with
    | same hsame => rwa [hsame.entries] at hheld
    | pass hpass hok =>
      -- a slot that the head has left holds nothing
      rw [hpass.entries] at hheld
      by_cases heq : i = r.index r.startSeq
      · rw [heq, update_self] at hheld
        exact absurd hheld hok.1
      · rwa [update_of_ne heq] at hheld
    | markRead j he hj =>
      by_cases heq : i = j
      · exact heq ▸ Or.inl hj
      · simp only [setEntry] at hheld
        rwa [update_of_ne heq] at hheld

/-! ## Inserting -/

theorem Reaches.gap (h : Reaches rb s m) (hgap : (rb.insertedAt (wrap q)).hasGap = true)
    (hmq : m < q + 2 ^ 30) : m < q ∧
      rb.insertedAt (wrap q) =
        { inserted := true, gapStart := wrap m, gapEnd := wrap (q - 1) } := by
  rw [insertedAt] at hgap ⊢
  split_ifs at hgap ⊢ with hcase
  · have hless := hcase.2
    rw [h.maxSeq_eq] at hless ⊢
    have hlt : m < q := lt_of_lessThan_wrap hless hmq
    have hdec := dec_wrap (q - 1)
    rw [Nat.sub_add_cancel (by omega)] at hdec
    exact ⟨hlt, by rw [hdec]⟩
  · simp [InsertResult.hasGap] at hgap

theorem Placed.store (h : Placed R rb s) (hseq : p.header.sequenceNumber = wrap q) (hq : s ≤ q)
    (hq' : q + 1 < s + rb.len) (hpkt : R q p) (now : ℤ) : Placed R (rb.store p now) s := by
  refine Placed.same (?_ : Placed R (rb.fill p now) s) (sameRing_store rb p now)
  refine ⟨⟨h.pow, h.startSeq_eq⟩, fun i hi => ?_⟩
  have hentries : (rb.fill p now).entries =
      update rb.entries (q % rb.len) { pkt := p, state := .available, arrivalTS := now } := by
    rw [← h.index_eq, ← hseq]
    rfl
  rw [hentries] at hi ⊢
  by_cases heq : i = q % rb.len
  · rw [heq, update_self]
    exact ⟨q, hq, hq', rfl, fun _ => hpkt⟩
  · rw [update_of_ne heq] at hi ⊢
    exact h.held i hi

/-- Storing a packet moves the end of the buffer past it, as long as its position is not half
of the sequence space past the end. -/
theorem Reaches.store (h : Reaches rb s m) (hp : Placed R rb s) (hm : m ≤ s + 2 ^ 30)
    (hend : q + 1 < m + 2 ^ 30) (hseq : p.header.sequenceNumber = wrap q) (hq : s ≤ q)
    (hq' : q + 1 < s + rb.len) (now : ℤ) : Reaches (rb.store p now) s (max m (q + 1)) := by
  have hlen := hp.len_le
  refine Reaches.same (?_ : Reaches (rb.fill p now) s _) (sameRing_store rb p now)
  refine ⟨?_, fun x hx hx' hheld => ?_⟩
  · rw [fill, hseq, inc_wrap]
    exact hp.extendedMax_eq h.maxSeq_eq hm hq hend
  · have hentries : (rb.fill p now).entries =
        update rb.entries (q % rb.len) { pkt := p, state := .available, arrivalTS := now } := by
      rw [← hp.index_eq, ← hseq]
      rfl
    have hx' : x < s + rb.len := hx'
    have hheld : ((rb.fill p now).entries (x % rb.len)).Held := hheld
    rw [hentries] at hheld
    by_cases heq : x % rb.len = q % rb.len
    · have := Ring.separates_mod rb.len x q (by omega) (by omega) heq
      omega
    · rw [update_of_ne heq] at hheld
      exact (h.covers x hx hx' hheld).trans_le (le_max_left _ _)

/-! ## The head and the end -/

/-- The head is at position `s` and the end at `m`, less than a ring ahead.  The head may have been
taken past the end, by less than the code can tell from a position before it. -/
structure Spans (R : ℕ → Packet → Prop) (rb : RecvBuffer) (s m : ℕ) : Prop where
  placed : Placed R rb s
  reaches : Reaches rb s m
  lt : m < s + rb.len
  past : m < s → lessThan rb.startSeq rb.maxSeq = false ∧ s ≤ m + 2 ^ 30

namespace Spans

theorem not_held (h : Spans R rb s m) (hpast : m < s) (i : ℕ) : ¬(rb.entries i).Held := by
  intro hheld
  obtain ⟨q, hq, hq', rfl, -⟩ := h.placed.held i hheld
  have := h.reaches.covers q hq (by omega) hheld
  omega

theorem edit_of_past (h : Spans R rb s m) (hpast : m < s)
    (hedit : Edit (fun rb e => ¬e.Held ∧ (False ∨ rb.Occupied)) rb rb') :
    Spans R rb' s m := by
  have hocc : ¬rb.Occupied := by
    rintro (hless | havailable)
    · simp [(h.past hpast).1] at hless
    · exact h.not_held hpast _ (Or.inl havailable)
  cases hedit with
  | same hsame =>
    refine ⟨h.placed.same hsame, h.reaches.same hsame, hsame.len ▸ h.lt, fun hlt => ?_⟩
    rw [hsame.startSeq, hsame.maxSeq]
    exact h.past hlt
  | pass _ hok => exact absurd (hok.2.resolve_left id) hocc
  | markRead i he hi => exact absurd (Or.inl hi) (h.not_held hpast i)

theorem edits (h : Spans R rb s m) (hedits : Edits False rb rb') :
    ∃ s', s ≤ s' ∧ Spans R rb' s' m ∧ (s ≤ m → s' ≤ m) := by
  rcases Nat.lt_or_ge m s with hpast | hle
  · have hspans : Spans R rb' s m :=
      hedits.preserves (Q := fun r => Spans R r s m) h fun _ _ hedit hr =>
        hr.edit_of_past hpast hedit
    exact ⟨s, le_rfl, hspans, fun hle => hle⟩
  · obtain ⟨s', hs', hplaced, hreach⟩ := h.placed.edits hedits
    obtain ⟨hreaches, hbound⟩ := hreach m h.reaches
    have hle' := hbound id hle h.lt
    have hlt := h.lt
    rw [← hedits.len_eq] at hlt
    exact ⟨s', hs', ⟨hplaced, hreaches, by omega, fun hlt => by omega⟩, fun _ => hle'⟩

theorem store (h : Spans R rb s m) (hs : s + rb.len ≤ m + 2 ^ 30)
    (hseq : p.header.sequenceNumber = wrap q)
    (hq : s ≤ q) (hq' : q + 1 < s + rb.len) (hpkt : R q p) (now : ℤ) :
    Spans R (rb.store p now) s (max m (q + 1)) := by
  have hlt := h.lt
  have hle := h.placed.len_le
  have hlen : (rb.store p now).len = rb.len := (sameRing_store rb p now).len
  exact ⟨h.placed.store hseq hq hq' hpkt now,
    h.reaches.store h.placed (by omega) (by omega) hseq hq hq' now, by omega, fun hpast => by omega⟩

end Spans

theorem Spans.drop (h : Spans R rb s m) (hle : s ≤ m) {upTo : ℕ} (hupTo : Valid upTo) :
    ∃ s', s ≤ s' ∧ Spans R (rb.drop upTo).buffer s' m := by
  have hstart := h.placed.startSeq_eq
  have hvalid : Valid rb.startSeq := hstart ▸ valid_wrap s
  have hlt := h.lt
  obtain ⟨hplaced, hreaches, hlen⟩ := dropLoop_span
    (Q := fun n b => Placed R b (s + n) ∧ Reaches b (s + n) m ∧ b.len = rb.len)
    (fun n b b' hsame hb => ⟨(hb.1.same hsame).pass not_held_drop (passes_dropHead b'),
      (hb.2.1.same hsame).pass (hb.1.same hsame).toHeadAt not_held_drop (passes_dropHead b'),
      hsame.len.trans hb.2.2⟩)
    hvalid hupTo ⟨h.placed, h.reaches, rfl⟩
  have hspans : Spans R (dropLoop upTo (ahead rb.startSeq upTo) { buffer := rb }).buffer
      (s + rb.dropSpan upTo) m := by
    refine ⟨hplaced, hreaches, by omega, fun hpast => ?_⟩
    have hless : lessThan rb.startSeq upTo = true := by
      by_contra hstay
      rw [dropSpan, if_neg hstay] at hpast
      omega
    have hhalf := (ahead_of_lessThan hvalid hupTo hless).2
    rw [dropSpan, if_pos hless] at hplaced hpast ⊢
    refine ⟨?_, by omega⟩
    rw [hplaced.startSeq_eq, hreaches.maxSeq_eq]
    rcases Nat.lt_or_ge (s + ahead rb.startSeq upTo) (m + 2 ^ 30) with hnear | hfar
    · rw [lessThan_wrap hnear (by omega)]
      exact decide_eq_false (by omega)
    · -- the head went half of the sequence space ahead of an empty buffer
      have hm : m = s := by omega
      rw [hstart, wrap_add_ahead _ hupTo, hm, ← hstart]
      exact lessThan_asymm hless
  obtain ⟨s', hs', hspans', -⟩ := hspans.edits (readings_of_dropLoop rb upTo).edits
  exact ⟨s', by omega, hspans'⟩

/-! ## Messages

The packets of a message that is read lie at successive positions.  At the head they are those
that the scan has seen.  Further on they are taken slot by slot; the slot before that of the head
is never filled, so that the way does not lead around the ring.
-/

theorem Placed.imp {R' : ℕ → Packet → Prop} (h : Placed R rb s) (himp : ∀ q p, R q p → R' q p) :
    Placed R' rb s where
  toHeadAt := h.toHeadAt
  held i hi := by
    obtain ⟨q, hq, hq', hslot, hpkt⟩ := h.held i hi
    exact ⟨q, hq, hq', hslot, fun havailable => himp _ _ (hpkt havailable)⟩

def InRow (R : ℕ → Packet → Prop) (q : ℕ) (ps : List Packet) : Prop :=
  ∀ k p, ps[k]? = some p → R (q + k) p

theorem InRow.cons {ps : List Packet} (hp : R q p) (hps : InRow R (q + 1) ps) :
    InRow R q (p :: ps) := by
  intro k p' hk
  cases k with
  | zero =>
    obtain rfl := Option.some.inj hk
    exact hp
  | succ k =>
    have hnext := hps k p' hk
    rwa [Nat.add_assoc, Nat.add_comm 1] at hnext

theorem Placed.takeMessage (h : Placed R rb s) {count : ℕ} (hready : rb.Ready s count) :
    InRow R s (RecvBuffer.takeMessage count rb).2 := by
  induction count generalizing rb s with
  | zero => exact fun k p hk => by simp [RecvBuffer.takeMessage] at hk
  | succ count ih =>
    exact (ih (h.pass not_held_blank (passes_takeMessageHead rb)) hready.takeMessageHead).cons
      (h.head hready.head)

theorem Placed.readMessageInOrder (h : Placed R rb s) (hread : rb.canReadInOrder = true)
    {ps : List Packet} (hps : rb.readMessageInOrder.2 = some ps) : InRow R s ps := by
  have hhead := h.head (of_decide_eq_true hread)
  unfold RecvBuffer.readMessageInOrder at hps
  simp only at hps
  split at hps
  · obtain rfl := Option.some.inj hps
    exact InRow.cons hhead fun k p hk => by simp at hk
  · rename_i hpos
    have hfirst : (rb.entryAt rb.startSeq).pkt.header.packetPosition.isLast = false := by
      rw [hpos]
      rfl
    cases hscan : rb.scanMessage (rb.entryAt rb.startSeq).pkt.header.messageNumber (rb.len + 2)
        rb.startSeq 0 with
    | incomplete => simp [hscan] at hps
    | corrupted => simp [hscan] at hps
    | complete count =>
      rw [hscan] at hps
      obtain rfl := Option.some.inj hps
      rw [h.startSeq_eq] at hscan
      exact h.takeMessage (scanMessage_ready h.toHeadAt hfirst _ _ 0 count (Nat.zero_le _)
        (by omega) hscan)
  · simp at hps
  · simp at hps

theorem Placed.readOutLoop (fuel : ℕ) : ∀ {rb : RecvBuffer} {i : ℕ} {pkts out : List Packet},
    Placed R rb s →
    (∀ q, s ≤ q → q + 1 < s + rb.len → i = q % rb.len → (readOutLoop fuel i pkts rb).2 = some out →
      ∃ ps, out = pkts ++ ps ∧ InRow R q ps) := by
  induction fuel with
  | zero => exact fun _ q _ _ _ hout => by simp [RecvBuffer.readOutLoop] at hout
  | succ fuel ih =>
    intro rb i pkts out h q hq hq' hi hout
    rw [RecvBuffer.readOutLoop] at hout
    simp only at hout
    by_cases hstate : (rb.entries i).state = .available
    · have hpkt : R q (rb.entries i).pkt := by
        have hat := h.at_position hq (by omega) (by rw [← hi]; exact Or.inl hstate)
        rw [hi] at hstate ⊢
        exact hat.2 hstate
      have hsame := sameRing_uncount rb (rb.entries i).pkt
      set next : RecvBuffer := { (rb.uncount (rb.entries i).pkt).setEntry i
        { rb.entries i with state := .read, pkt := {} } with
          size := (rb.uncount (rb.entries i).pkt).size - 1 } with hnext
      have hplaced : Placed R next s :=
        ((h.same hsame).markRead (e := { rb.entries i with state := .read, pkt := {} }) rfl
          (by rw [hsame.entries]; exact hstate)).same ⟨rfl, rfl, rfl, rfl⟩
      have hlen : next.len = rb.len := hsame.len
      rw [if_neg (by simp [hstate])] at hout
      split_ifs at hout with hlast hlong
      · exact ⟨[(rb.entries i).pkt], (Option.some.inj hout).symm,
          InRow.cons hpkt fun k p hk => by simp at hk⟩
      · have hslot : (i + 1) &&& next.mask = (q + 1) % next.len := by
          obtain ⟨k, -, hpow⟩ := hplaced.pow
          rw [mask, hpow, Nat.and_two_pow_sub_one_eq_mod, ← hpow, hlen, hi, Nat.mod_add_mod]
        -- the slot before that of the head is never filled
        have hmore : q + 1 + 1 < s + next.len := by
          by_contra hfull
          have hempty : ¬(next.entries ((q + 1) % next.len)).Held := fun hheld => by
            have := (hplaced.at_position (by omega) (by omega) hheld).1
            omega
          cases fuel with
          | zero => simp [RecvBuffer.readOutLoop] at hout
          | succ fuel =>
            rw [RecvBuffer.readOutLoop, hslot,
              if_pos fun havailable => hempty (Or.inl havailable)] at hout
            simp at hout
        obtain ⟨ps, hsplit, hrow⟩ := ih hplaced (q + 1) (by omega) hmore hslot hout
        exact ⟨(rb.entries i).pkt :: ps, by rw [hsplit]; simp, hrow.cons hpkt⟩
    · rw [if_pos hstate] at hout
      simp at hout

theorem Placed.readMessage (h : Placed R rb s) {ps : List Packet}
    (hps : rb.readMessage.2 = some ps) :
    ∃ q, InRow R q ps := by
  unfold RecvBuffer.readMessage at hps
  split_ifs at hps with hread hooo
  · exact ⟨s, h.readMessageInOrder hread hps⟩
  · unfold readMessageOutOfOrder at hps
    cases hfirst : rb.firstReadableOOO with
    | none => simp [hfirst] at hps
    | some readPos =>
      rw [hfirst] at hps
      simp only at hps
      cases hres : (RecvBuffer.readOutLoop (rb.len + 2) readPos [] rb).2 with
      | none => simp [hres] at hps
      | some out =>
        rw [hres] at hps
        obtain rfl := Option.some.inj hps
        have hstate : (rb.entries readPos).state = .available := by
          by_contra hnot
          rw [RecvBuffer.readOutLoop, if_pos hnot] at hres
          simp at hres
        obtain ⟨q, hq, hq', hslot, -⟩ := h.held readPos (Or.inl hstate)
        obtain ⟨ps, rfl, hrow⟩ := Placed.readOutLoop _ h q hq hq' hslot hres
        exact ⟨q, hrow⟩

/-! ## The new buffer -/

theorem placed_new (hn : n ≤ 2 ^ 30) (hisn : Valid isn) (messageAPI : Bool) :
    Placed R ((RecvBuffer.new n isn).setMessageAPI messageAPI) isn where
  toHeadAt := ⟨exists_nextPow2_eq hn, (wrap_of_lt hisn.lt).symm⟩
  held i hi := absurd hi (by simp [RecvEntry.Held, RecvBuffer.new, setMessageAPI])

theorem reaches_new (n : ℤ) (hisn : Valid isn) (messageAPI : Bool) :
    Reaches ((RecvBuffer.new n isn).setMessageAPI messageAPI) isn isn where
  maxSeq_eq := (wrap_of_lt hisn.lt).symm
  covers q _ _ hheld := absurd hheld (by simp [RecvEntry.Held, RecvBuffer.new, setMessageAPI])

theorem spans_new (hn : n ≤ 2 ^ 30) (hisn : Valid isn) (messageAPI : Bool) :
    Spans R ((RecvBuffer.new n isn).setMessageAPI messageAPI) isn isn where
  placed := placed_new hn hisn messageAPI
  reaches := reaches_new n hisn messageAPI
  lt := Nat.lt_add_of_pos_right (placed_new (R := R) hn hisn messageAPI).len_pos
  past hlt := absurd hlt (lt_irrefl isn)

end RecvBuffer

end SrtGo.Buffer
