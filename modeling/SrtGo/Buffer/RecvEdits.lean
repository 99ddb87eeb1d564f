import SrtGo.Buffer.Recv

/-!
# What an operation does to the ring

Every operation on the receive buffer but `insert` is a chain of three kinds of
edits: the counters change, the head steps past its slot and leaves it cleared or
marked as dropped, or a packet is marked as read in its slot.  What all of them
keep is then shown once for each edit.  Unlike `Shows` this makes no assumption
on the slots, which after a drop need not agree with the window.

Only a drop at the request of the peer takes the head past the end of the
buffer.  The parameter of `Edits` says whether this is allowed.
-/

namespace SrtGo.Buffer

open SrtGo.Seq RecvBuffer

def RecvEntry.Held (e : RecvEntry) : Prop := e.state = .available ∨ e.state = .read

/-! ## Rings -/

/-- Two buffers with the same ring; the counters may differ. -/
structure SameRing (rb rb' : RecvBuffer) : Prop where
  entries : rb'.entries = rb.entries
  len : rb'.len = rb.len
  startSeq : rb'.startSeq = rb.startSeq
  maxSeq : rb'.maxSeq = rb.maxSeq

theorem SameRing.refl (rb : RecvBuffer) : SameRing rb rb := ⟨rfl, rfl, rfl, rfl⟩

theorem SameRing.trans {rb rb' rb'' : RecvBuffer} (h : SameRing rb rb') (h' : SameRing rb' rb'') :
    SameRing rb rb'' :=
  ⟨h'.entries.trans h.entries, h'.len.trans h.len, h'.startSeq.trans h.startSeq,
    h'.maxSeq.trans h.maxSeq⟩

theorem RecvBuffer.sameRing_forget (rb : RecvBuffer) (p : Packet) : SameRing rb (rb.forget p) := by
  unfold forget
  simp only
  split_ifs <;> exact ⟨rfl, rfl, rfl, rfl⟩

theorem index_eq_of_len {rb rb' : RecvBuffer} (h : rb'.len = rb.len) (s : ℕ) :
    rb'.index s = rb.index s := by
  simp only [index, mask, h]

namespace RecvBuffer

theorem sameRing_countOutOfOrder (rb : RecvBuffer) : SameRing rb rb.countOutOfOrder :=
  ⟨rfl, rfl, rfl, rfl⟩

theorem sameRing_first (rb : RecvBuffer) (first : Option ℕ) :
    SameRing rb { rb with firstReadableOOO := first } := ⟨rfl, rfl, rfl, rfl⟩

theorem sameRing_onInsert (rb : RecvBuffer) (i : ℕ) :
    SameRing rb (rb.onInsertNotInOrderPacket i) := by
  unfold onInsertNotInOrderPacket
  simp only
  split_ifs <;> try exact SameRing.refl rb
  all_goals first | exact ⟨rfl, rfl, rfl, rfl⟩ | (split <;> exact ⟨rfl, rfl, rfl, rfl⟩)

theorem sameRing_update (rb : RecvBuffer) :
    SameRing rb rb.updateFirstReadableOutOfOrder := by
  unfold updateFirstReadableOutOfOrder
  simp only
  split_ifs
  · exact SameRing.refl rb
  · exact SameRing.refl rb
  · exact SameRing.refl rb
  · split <;> exact ⟨rfl, rfl, rfl, rfl⟩

theorem sameRing_uncount (rb : RecvBuffer) (p : Packet) : SameRing rb (rb.uncount p) := by
  unfold uncount
  split_ifs <;> exact ⟨rfl, rfl, rfl, rfl⟩

variable {free : Prop} {rb rb' rb'' : RecvBuffer} {Q : ℕ → RecvBuffer → Prop} {s count n : ℕ}

def Occupied (rb : RecvBuffer) : Prop :=
  lessThan rb.startSeq rb.maxSeq = true ∨ (rb.entryAt rb.startSeq).state = .available

/-- The head slot is overwritten by `e` and the head steps past it; the counters may differ. -/
structure Passes (e : RecvEntry) (rb rb' : RecvBuffer) : Prop where
  entries : rb'.entries = Function.update rb.entries (rb.index rb.startSeq) e
  len : rb'.len = rb.len
  startSeq : rb'.startSeq = inc rb.startSeq
  maxSeq : rb'.maxSeq = rb.maxSeq

theorem passes_advance (rb : RecvBuffer) : Passes {} rb rb.advance := ⟨rfl, rfl, rfl, rfl⟩

theorem passes_takeHead (rb : RecvBuffer) : Passes {} rb rb.takeHead := ⟨rfl, rfl, rfl, rfl⟩

theorem passes_dropHead (rb : RecvBuffer) : Passes { state := .drop } rb rb.dropHead :=
  ⟨rfl, rfl, rfl, rfl⟩

/-- The ring has a power of two slots, and its head is at position `s`. -/
structure HeadAt (rb : RecvBuffer) (s : ℕ) : Prop where
  pow : ∃ k ≤ 30, rb.len = 2 ^ k
  startSeq_eq : rb.startSeq = wrap s

namespace HeadAt

variable {s q : ℕ}

theorem len_pos (h : HeadAt rb s) : 0 < rb.len := by
  obtain ⟨k, -, hlen⟩ := h.pow
  exact hlen ▸ Nat.two_pow_pos k

theorem len_le (h : HeadAt rb s) : rb.len ≤ 2 ^ 30 := by
  obtain ⟨k, hk, hlen⟩ := h.pow
  exact hlen ▸ Nat.pow_le_pow_right two_pos hk

theorem index_eq (h : HeadAt rb s) (q : ℕ) : rb.index (wrap q) = q % rb.len := by
  obtain ⟨k, hk, hlen⟩ := h.pow
  have hdvd : 2 ^ k ∣ 2 ^ 31 := pow_dvd_pow 2 (by omega)
  rw [index, mask, hlen, Nat.and_two_pow_sub_one_eq_mod, wrap, Nat.mod_mod_of_dvd _ hdvd]

theorem separates (h : HeadAt rb s) : Ring.Separates (fun q => rb.index (wrap q)) rb.len := by
  simp only [h.index_eq]
  exact Ring.separates_mod rb.len

theorem same (h : HeadAt rb s) (hsame : SameRing rb rb') : HeadAt rb' s :=
  ⟨hsame.len ▸ h.pow, hsame.startSeq.trans h.startSeq_eq⟩

theorem pass (h : HeadAt rb s) {e : RecvEntry} (hpass : Passes e rb rb') : HeadAt rb' (s + 1) :=
  ⟨hpass.len ▸ h.pow, by rw [hpass.startSeq, h.startSeq_eq, inc_wrap]⟩

end HeadAt

def Regular (rb : RecvBuffer) : Prop := ∃ s, rb.HeadAt s

/-- One edit of the ring; `ok` says when the head may step on, and what it may leave in its slot. -/
inductive Edit (ok : RecvBuffer → RecvEntry → Prop) : RecvBuffer → RecvBuffer → Prop
  | same {rb rb' : RecvBuffer} (h : SameRing rb rb') : Edit ok rb rb'
  | pass {rb rb' : RecvBuffer} {e : RecvEntry} (hpass : Passes e rb rb') (h : ok rb e) :
    Edit ok rb rb'
  | markRead (rb : RecvBuffer) (i : ℕ) {e : RecvEntry} (he : e.state = .read)
      (hi : (rb.entries i).state = .available) : Edit ok rb (rb.setEntry i e)

abbrev Chain (ok : RecvBuffer → RecvEntry → Prop) : RecvBuffer → RecvBuffer → Prop :=
  Relation.ReflTransGen (Edit ok)

section
variable {ok : RecvBuffer → RecvEntry → Prop}

theorem Chain.same (h : SameRing rb rb') : Chain ok rb rb' := .single (.same h)

theorem Chain.after (h' : Chain ok rb' rb'') (h : Chain ok rb rb') : Chain ok rb rb'' := h.trans h'

theorem Chain.preserves {Q : RecvBuffer → Prop} (h : Chain ok rb rb') (hrb : Q rb)
    (hedit : ∀ rb rb', Edit ok rb rb' → Q rb → Q rb') : Q rb' := by
  induction h with
  | refl => exact hrb
  | tail _ hstep ih => exact hedit _ _ hstep ih

end

/-- The chains of edits that leave no packet behind in the slot of the head. -/
abbrev Edits (free : Prop) : RecvBuffer → RecvBuffer → Prop :=
  Chain fun rb e => ¬e.Held ∧ (free ∨ rb.Occupied)

/-- The chains of edits that reading consists of: what the head leaves behind is not a gap. -/
abbrev Readings (free : Prop) : RecvBuffer → RecvBuffer → Prop :=
  Chain fun rb e => e = {} ∧ (free ∨ rb.Occupied ∧ (rb.entryAt rb.startSeq).state ≠ .empty)

theorem not_held_blank : ¬RecvEntry.Held {} := by simp [RecvEntry.Held]

theorem not_held_drop : ¬RecvEntry.Held { state := .drop } := by simp [RecvEntry.Held]

theorem Readings.edits (h : Readings free rb rb') : Edits free rb rb' := by
  refine Relation.ReflTransGen.mono (fun _ _ hedit => ?_) _ _ h
  cases hedit with
  | same h => exact .same h
  | pass hpass h => exact .pass hpass ⟨h.1 ▸ not_held_blank, h.2.imp_right And.left⟩
  | markRead i he hi => exact .markRead _ i he hi

/-! ## The loops -/

theorem releaseLoop_preserves {Q : RecvBuffer → Prop}
    (hround : ∀ rb : RecvBuffer, lessThan rb.startSeq rb.maxSeq = true →
      (rb.entryAt rb.startSeq).state = .drop ∨ (rb.entryAt rb.startSeq).state = .read → Q rb →
        Q rb.advance)
    (fuel : ℕ) (h : Q rb) : Q (releaseLoop fuel rb) := by
  induction fuel generalizing rb with
  | zero => exact h
  | succ fuel ih =>
    rw [releaseLoop]
    split_ifs with hless
    · split
      · exact ih (hround rb hless (Or.inl ‹_›) h)
      · exact ih (hround rb hless (Or.inr ‹_›) h)
      · exact h
      · exact h
    · exact h

theorem dropLoop_rounds (upTo : ℕ)
    (hround : ∀ n (rb rb' : RecvBuffer), SameRing rb rb' → Q n rb → Q (n + 1) rb'.dropHead)
    (fuel : ℕ)
    {r : DropResult} (h : Q n r.buffer) : ∃ k ≤ fuel, Q (n + k) (dropLoop upTo fuel r).buffer ∧
      (k < fuel → lessThan (dropLoop upTo fuel r).buffer.startSeq upTo = false) := by
  induction fuel generalizing n r with
  | zero => exact ⟨0, le_rfl, h, fun hlt => absurd hlt (lt_irrefl 0)⟩
  | succ fuel ih =>
    -- one round of the loop, whatever it counts, followed by the rest of it
    have hrest (r' : DropResult) (hr' : Q (n + 1) r'.buffer) :
        ∃ k ≤ fuel + 1, Q (n + k) (dropLoop upTo fuel r').buffer ∧
          (k < fuel + 1 → lessThan (dropLoop upTo fuel r').buffer.startSeq upTo = false) := by
      obtain ⟨k, hk, hq, hstop⟩ := ih hr'
      exact ⟨k + 1, by omega, by rwa [Nat.add_right_comm] at hq, fun hlt => hstop (by omega)⟩
    rw [dropLoop]
    simp only
    split_ifs with hless
    · split
      · exact hrest _ (hround n _ _ (sameRing_forget r.buffer _) h)
      · exact hrest _ (hround n _ _ (SameRing.refl _) h)
      · exact hrest _ (hround n _ _ (SameRing.refl _) h)
      · exact hrest _ (hround n _ _ (SameRing.refl _) h)
    · exact ⟨0, by omega, h, fun _ => by simpa using hless⟩

/-- How many positions a drop takes the head forward, before anything is released. -/
def dropSpan (rb : RecvBuffer) (upTo : ℕ) : ℕ :=
  if lessThan rb.startSeq upTo then ahead rb.startSeq upTo else 0

theorem dropLoop_span (hround : ∀ n (rb rb' : RecvBuffer), SameRing rb rb' → Q n rb →
    Q (n + 1) rb'.dropHead)
    (hstart : Valid rb.startSeq) {upTo : ℕ} (hupTo : Valid upTo) (h : Q 0 rb) :
    Q (rb.dropSpan upTo) (dropLoop upTo (ahead rb.startSeq upTo) { buffer := rb }).buffer := by
  unfold dropSpan
  split_ifs with hless
  · obtain ⟨k, hk, ⟨hq, hhead⟩, hstop⟩ := dropLoop_rounds upTo
      (Q := fun n b => Q n b ∧ b.startSeq = wrap (rb.startSeq + n))
      (fun n b b' hsame hb => ⟨hround n b b' hsame hb.1, by
        rw [dropHead, hsame.startSeq, hb.2, inc_wrap, Nat.add_assoc]⟩)
      (ahead rb.startSeq upTo) (r := { buffer := rb }) ⟨h, (wrap_of_lt hstart.lt).symm⟩
    rw [Nat.zero_add] at hq hhead
    suffices heq : k = ahead rb.startSeq upTo by rwa [heq] at hq
    by_contra hne
    have hhalf := (ahead_of_lessThan hstart hupTo hless).2
    have hnumber : upTo = wrap (rb.startSeq + ahead rb.startSeq upTo) := by
      have hback := wrap_add_ahead rb.startSeq hupTo
      rw [wrap_of_lt hstart.lt] at hback
      exact hback.symm
    have hnot := hstop (by omega)
    rw [hhead] at hnot
    rcases Nat.eq_zero_or_pos k with rfl | hpos
    · rw [Nat.add_zero, wrap_of_lt hstart.lt, hless] at hnot
      exact absurd hnot (by simp)
    · rw [hnumber, lessThan_wrap (by omega) (by omega)] at hnot
      exact of_decide_eq_false hnot (by omega)
  · cases ahead rb.startSeq upTo with
    | zero => exact h
    | succ fuel =>
      simp only [dropLoop, hless, Bool.false_eq_true, if_false]
      exact h

theorem dropTooLateLoop_rounds (now : ℤ) (deliveryTime : ℕ → ℤ)
    (hround : ∀ n (rb : RecvBuffer), rb.headTooLate now deliveryTime = true → Q n rb →
      Q (n + 1) rb.dropHead)
    (fuel : ℕ) (h : Q n rb) : ∃ k ≤ fuel, Q (n + k) (dropTooLateLoop now deliveryTime fuel rb).1 ∧
      (rb.headTooLate now deliveryTime = true → 0 < fuel → 0 < k) := by
  induction fuel generalizing n rb with
  | zero => exact ⟨0, le_rfl, h, fun _ hlt => hlt⟩
  | succ fuel ih =>
    rw [dropTooLateLoop]
    split_ifs with hlate
    · obtain ⟨k, hk, hq, -⟩ := ih (hround n rb hlate h)
      exact ⟨k + 1, by omega, by rwa [Nat.add_right_comm] at hq, fun _ _ => by omega⟩
    · exact ⟨0, by omega, h, fun hlate' => absurd hlate' (by assumption)⟩

theorem lessThan_of_headTooLate {now : ℤ} {deliveryTime : ℕ → ℤ}
    (hlate : rb.headTooLate now deliveryTime = true) : lessThan rb.startSeq rb.maxSeq = true := by
  unfold headTooLate at hlate
  split_ifs at hlate with hless
  exact hless

/-! ## Reading -/

theorem readings_releaseLoop (fuel : ℕ) (rb : RecvBuffer) :
    Readings free rb (releaseLoop fuel rb) := by
  refine releaseLoop_preserves (Q := Readings free rb) (fun b hless hstate hb => hb.tail ?_) fuel
    .refl
  exact .pass (passes_advance b) ⟨rfl,
    Or.inr ⟨Or.inl hless, by rcases hstate with h | h <;> simp [h]⟩⟩

theorem readings_releaseFillerEntries (rb : RecvBuffer) :
    Readings free rb rb.releaseFillerEntries :=
  readings_releaseLoop _ rb

theorem readings_afterRead (rb : RecvBuffer) : Readings free rb rb.afterRead := by
  unfold afterRead
  simp only
  split_ifs
  · exact (Chain.same (sameRing_update _)).after (readings_releaseFillerEntries rb)
  · exact readings_releaseFillerEntries rb

def HeadReady (rb : RecvBuffer) : Prop := (rb.entryAt rb.startSeq).state = .available

theorem readings_pass (hpass : Passes {} rb rb') (h : free ∨ rb.HeadReady) :
    Readings free rb rb' := by
  refine .single (.pass hpass ⟨rfl, h.imp_right fun hready => ?_⟩)
  exact ⟨Or.inr hready, by rw [hready]; simp⟩

theorem headReady_of_canRead (h : rb.canReadInOrder = true) : free ∨ rb.HeadReady :=
  Or.inr (of_decide_eq_true h : (rb.entryAt rb.startSeq).state = .available)

theorem readings_readNext (rb : RecvBuffer) : Readings free rb rb.readNext.1 := by
  unfold readNext
  split_ifs with hread
  · exact readings_pass (passes_takeHead rb) (headReady_of_canRead hread)
  · exact .refl

theorem readings_readTSBPD (rb : RecvBuffer) (now : ℤ) (deliveryTime : ℕ → ℤ) :
    Readings free rb (rb.readTSBPD now deliveryTime).1 := by
  unfold readTSBPD
  simp only
  split_ifs with hstate
  · exact .refl
  · exact .refl
  · exact readings_pass (passes_takeHead rb) (Or.inr (not_not.mp hstate))

/-! ### Messages -/

theorem passes_takeMessageHead (rb : RecvBuffer) : Passes {} rb rb.takeMessageHead := by
  unfold takeMessageHead uncount
  split_ifs <;> exact ⟨rfl, rfl, rfl, rfl⟩

theorem readings_takeMessageHead (h : free ∨ rb.HeadReady) : Readings free rb rb.takeMessageHead :=
  readings_pass (passes_takeMessageHead rb) h

/-- The packets from the head on are available, and lie within a ring. -/
structure Ready (rb : RecvBuffer) (s count : ℕ) : Prop where
  headAt : rb.HeadAt s
  within : count ≤ rb.len
  available : ∀ k < count, (rb.entryAt (wrap (s + k))).state = .available

theorem Ready.head (h : rb.Ready s (count + 1)) : rb.HeadReady := by
  rw [HeadReady, h.headAt.startSeq_eq]
  exact h.available 0 (by omega)

theorem Ready.takeMessageHead (h : rb.Ready s (count + 1)) :
    rb.takeMessageHead.Ready (s + 1) count := by
  have hpass := passes_takeMessageHead rb
  have hwithin := h.within
  refine ⟨h.headAt.pass hpass, by rw [hpass.len]; omega, fun k hk => ?_⟩
  rw [Nat.add_assoc, Nat.add_comm 1, entryAt, index_eq_of_len hpass.len, hpass.entries,
    h.headAt.startSeq_eq, Function.update_of_ne fun hslot => ?_]
  · exact h.available (k + 1) (by omega)
  · -- the slot that is cleared is another one
    have := h.headAt.separates _ _ (by omega) (by omega) hslot
    omega

theorem readings_takeMessage (count : ℕ) (rb : RecvBuffer) (h : free ∨ ∃ s, rb.Ready s count) :
    Readings free rb (takeMessage count rb).1 := by
  induction count generalizing rb with
  | zero => exact .refl
  | succ count ih =>
    refine (readings_takeMessageHead (h.imp_right ?_)).trans (ih _ (h.imp_right ?_))
    · rintro ⟨s, hs⟩
      exact hs.head
    · rintro ⟨s, hs⟩
      exact ⟨s + 1, hs.takeMessageHead⟩

/-- A scan over a message that is found complete has seen available packets only, and no
slot twice: a whole ring further it would meet the first packet again. -/
theorem scanMessage_ready (hhead : rb.HeadAt s)
    (hfirst : (rb.entryAt rb.startSeq).pkt.header.packetPosition.isLast = false) (msgNo fuel : ℕ) :
    ∀ count n, count ≤ rb.len → (∀ k < count, (rb.entryAt (wrap (s + k))).state = .available) →
      rb.scanMessage msgNo fuel (wrap (s + count)) count = .complete n → rb.Ready s n := by
  induction fuel with
  | zero => exact fun count n _ _ h => absurd h (by simp [scanMessage])
  | succ fuel ih =>
    intro count n hcount hbefore h
    rw [scanMessage] at h
    split_ifs at h with hstate hmsg hlast hlong
    · have hn : count + 1 = n := MessageScan.complete.inj h
      have hlt : count < rb.len := by
        refine hcount.lt_of_ne fun heq => ?_
        have hround : rb.entryAt (wrap (s + count)) = rb.entryAt rb.startSeq := by
          rw [hhead.startSeq_eq, entryAt, entryAt, hhead.index_eq, hhead.index_eq, heq,
            Nat.add_mod_right]
        rw [hround, hfirst] at hlast
        exact absurd hlast (by simp)
      exact ⟨hhead, by omega, hn ▸ Nat.forall_lt_succ_right.mpr ⟨hbefore, not_not.mp hstate⟩⟩
    · exact ih (count + 1) n (by omega) (Nat.forall_lt_succ_right.mpr ⟨hbefore, not_not.mp hstate⟩)
        (by rwa [← Nat.add_assoc, ← inc_wrap])

theorem readings_readMessageInOrder (hread : rb.canReadInOrder = true) (h : free ∨ rb.Regular) :
    Readings free rb rb.readMessageInOrder.1 := by
  have hskip : Readings free rb rb.takeMessageHead.afterRead :=
    (readings_afterRead _).after (readings_takeMessageHead (headReady_of_canRead hread))
  unfold readMessageInOrder
  simp only
  split
  · exact hskip
  · rename_i hpos
    split
    · exact .refl
    · exact hskip
    · rename_i count hscan
      have hfirst : (rb.entryAt rb.startSeq).pkt.header.packetPosition.isLast = false := by
        rw [hpos]
        rfl
      refine (readings_afterRead _).after (readings_takeMessage _ rb (h.imp_right ?_))
      rintro ⟨s, hs⟩
      rw [hs.startSeq_eq] at hscan
      exact ⟨s, scanMessage_ready hs hfirst _ _ 0 count (Nat.zero_le _) (by omega) hscan⟩
  · exact hskip
  · exact hskip

theorem readings_readOutLoop (fuel : ℕ) (i : ℕ) (pkts : List Packet) (rb : RecvBuffer) :
    Readings free rb (readOutLoop fuel i pkts rb).1 := by
  induction fuel generalizing i pkts rb with
  | zero => exact .refl
  | succ fuel ih =>
    rw [readOutLoop]
    simp only
    have hsame := sameRing_uncount rb (rb.entries i).pkt
    by_cases hstate : (rb.entries i).state = .available
    · have hmark : Readings free rb { (rb.uncount (rb.entries i).pkt).setEntry i
          { rb.entries i with state := .read, pkt := {} } with
            size := (rb.uncount (rb.entries i).pkt).size - 1 } := by
        refine Chain.after (.same ?_) (Chain.after (.single (.markRead _ i
          (e := { rb.entries i with state := .read, pkt := {} }) rfl ?_)) (.same hsame))
        · exact ⟨rfl, rfl, rfl, rfl⟩
        · rw [hsame.entries]
          exact hstate
      rw [if_neg (by simp [hstate])]
      split_ifs
      · exact hmark
      · exact hmark
      · exact (ih _ _ _).after hmark
    · rw [if_pos hstate]

theorem readings_readMessage (h : free ∨ rb.Regular) : Readings free rb rb.readMessage.1 := by
  unfold readMessage
  split_ifs with hread
  · exact readings_readMessageInOrder hread h
  · unfold readMessageOutOfOrder
    split
    · exact .refl
    · rename_i readPos _
      have hout : Readings free rb _ := readings_readOutLoop (rb.len + 2) readPos [] rb
      have hfirst := (Chain.same (sameRing_first _ none)).after hout
      simp only
      split
      · exact hfirst
      · exact (Chain.same (sameRing_update _)).after
          ((readings_releaseFillerEntries _).after hfirst)
  · exact .refl

/-! ## Dropping -/

theorem edits_dropTooLateLoop (now : ℤ) (deliveryTime : ℕ → ℤ) (fuel : ℕ) (rb : RecvBuffer) :
    Edits free rb (dropTooLateLoop now deliveryTime fuel rb).1 := by
  obtain ⟨_, -, hedits, -⟩ := dropTooLateLoop_rounds now deliveryTime (Q := fun _ => Edits free rb)
    (fun _ b hlate hb => hb.tail (.pass (passes_dropHead b)
      ⟨not_held_drop, Or.inr (Or.inl (lessThan_of_headTooLate hlate))⟩))
    fuel (n := 0) .refl
  exact hedits

theorem edits_dropTooLate (rb : RecvBuffer) (now : ℤ) (deliveryTime : ℕ → ℤ) :
    Edits free rb (rb.dropTooLate now deliveryTime).1 :=
  (readings_releaseFillerEntries _).edits.after (edits_dropTooLateLoop now deliveryTime _ rb)

theorem edits_dropLoop (hfree : free) (upTo fuel : ℕ) (r : DropResult) :
    Edits free r.buffer (dropLoop upTo fuel r).buffer := by
  obtain ⟨_, -, hedits, -⟩ := dropLoop_rounds upTo (Q := fun _ => Edits free r.buffer)
    (fun _ b b' hsame hb => (hb.tail (.same hsame)).tail
      (.pass (passes_dropHead b') ⟨not_held_drop, Or.inl hfree⟩)) fuel (n := 0) .refl
  exact hedits

theorem sameRing_drop (rb : RecvBuffer) (upTo : ℕ) :
    SameRing (dropLoop upTo (ahead rb.startSeq upTo) { buffer := rb }).buffer.releaseFillerEntries
      (rb.drop upTo).buffer := by
  unfold drop
  simp only
  split_ifs
  · exact sameRing_update _
  · exact (sameRing_first _ none).trans (sameRing_update _)
  · exact SameRing.refl _

theorem readings_of_dropLoop (rb : RecvBuffer) (upTo : ℕ) :
    Readings free (dropLoop upTo (ahead rb.startSeq upTo) { buffer := rb }).buffer
      (rb.drop upTo).buffer :=
  (Chain.same (sameRing_drop rb upTo)).after (readings_releaseFillerEntries _)

theorem edits_drop (hfree : free) (rb : RecvBuffer) (upTo : ℕ) :
    Edits free rb (rb.drop upTo).buffer :=
  (readings_of_dropLoop rb upTo).edits.after (edits_dropLoop hfree upTo _ { buffer := rb })

/-! ## The bounds -/

structure Bounded (rb : RecvBuffer) : Prop where
  start : Valid rb.startSeq
  max : Valid rb.maxSeq

section
variable {ok : RecvBuffer → RecvEntry → Prop}

theorem valid_inc (a : ℕ) : Valid (inc a) := by
  constructor
  unfold inc maxNumber
  split_ifs <;> omega

theorem Edit.len_eq (h : Edit ok rb rb') : rb'.len = rb.len := by
  cases h with
  | same h => exact h.len
  | pass hpass => exact hpass.len
  | markRead => rfl

theorem Edit.maxSeq_eq (h : Edit ok rb rb') : rb'.maxSeq = rb.maxSeq := by
  cases h with
  | same h => exact h.maxSeq
  | pass hpass => exact hpass.maxSeq
  | markRead => rfl

theorem Chain.len_eq (h : Chain ok rb rb') : rb'.len = rb.len :=
  h.preserves (Q := fun r => r.len = rb.len) rfl fun _ _ hedit hr => hedit.len_eq.trans hr

theorem Edit.valid_startSeq (h : Edit ok rb rb') (hs : Valid rb.startSeq) : Valid rb'.startSeq := by
  cases h with
  | same h => exact h.startSeq ▸ hs
  | pass hpass => exact hpass.startSeq ▸ valid_inc _
  | markRead => exact hs

theorem Chain.bounded (h : Chain ok rb rb') (hb : rb.Bounded) : rb'.Bounded :=
  h.preserves hb fun _ _ hedit hr => ⟨hedit.valid_startSeq hr.start, hedit.maxSeq_eq ▸ hr.max⟩

theorem Chain.regular (h : Chain ok rb rb') (hr : rb.Regular) : rb'.Regular := by
  refine h.preserves hr fun _ _ hedit => ?_
  rintro ⟨s, hs⟩
  cases hedit with
  | same hsame => exact ⟨s, hs.same hsame⟩
  | pass hpass => exact ⟨s + 1, hs.pass hpass⟩
  | markRead => exact ⟨s, hs.pow, hs.startSeq_eq⟩

end

/-! ## Inserting -/

theorem sameRing_store (rb : RecvBuffer) (p : Packet) (now : ℤ) :
    SameRing (rb.fill p now) (rb.store p now) := by
  unfold store
  split_ifs
  · exact (sameRing_countOutOfOrder _).trans (sameRing_onInsert _ _)
  · exact SameRing.refl _

theorem insert_eq (rb : RecvBuffer) (p : Packet) (now : ℤ) : rb.insert p now = (rb, {}) ∨
    rb.insert p now = (rb.store p now, rb.insertedAt p.header.sequenceNumber) := by
  unfold RecvBuffer.insert
  simp only
  split_ifs <;> simp

theorem len_insert (rb : RecvBuffer) (p : Packet) (now : ℤ) : (rb.insert p now).1.len = rb.len := by
  rcases rb.insert_eq p now with h | h <;> rw [h]
  exact (sameRing_store rb p now).len

theorem Bounded.insert (hb : rb.Bounded) (p : Packet) (now : ℤ) : (rb.insert p now).1.Bounded := by
  rcases rb.insert_eq p now with h | h <;> rw [h]
  · exact hb
  · have hsame := sameRing_store rb p now
    refine ⟨hsame.startSeq ▸ hb.start, hsame.maxSeq ▸ ?_⟩
    simp only [fill, extendedMax]
    split_ifs
    · exact valid_inc _
    · exact hb.max

theorem eq_wrap_of_distance {p : ℕ} (hs : s < 2 ^ 31) (hnonneg : 0 ≤ distance (wrap p) s)
    (hlt : distance (wrap p) s < 2 ^ 30) : s = wrap (p + (distance (wrap p) s).toNat) := by
  unfold distance wrap threshold maxNumber int32 at *
  simp only at *
  split_ifs at * <;> omega

/-- What inserting does: the packet is rejected and nothing changes, or the slot of its
position was empty and within reach. -/
theorem HeadAt.insert_cases (h : HeadAt rb s) {p : Packet} (hp : p.WellFormed) (now : ℤ) :
    rb.insert p now = (rb, {}) ∨ ∃ q, s ≤ q ∧ q + 1 < s + rb.len ∧
      p.header.sequenceNumber = wrap q ∧
      (rb.entries (q % rb.len)).state = .empty ∧
      rb.insert p now = (rb.store p now, rb.insertedAt p.header.sequenceNumber) := by
  unfold RecvBuffer.insert
  simp only
  split_ifs with hold hdist hstate
  · exact Or.inl rfl
  · exact Or.inl rfl
  · exact Or.inl rfl
  · push Not at hdist
    rw [h.startSeq_eq] at hdist
    have hlen := h.len_le
    have hseq := eq_wrap_of_distance hp.lt hdist.1 (by omega)
    refine Or.inr ⟨_, Nat.le_add_right _ _, by omega, hseq, ?_, rfl⟩
    rw [← h.index_eq, ← hseq]
    exact not_not.mp hstate

theorem HeadAt.extendedMax_eq {m q : ℕ} (h : HeadAt rb s) (hmax : rb.maxSeq = wrap m)
    (hm : m ≤ s + 2 ^ 30) (hq : s ≤ q) (hend : q + 1 < m + 2 ^ 30) : rb.extendedMax (wrap (q + 1)) =
      wrap (max m (q + 1)) := by
  have hless : lessThan (wrap m) (wrap (q + 1)) = decide (m < q + 1) :=
    lessThan_wrap (by omega) (by omega)
  unfold extendedMax
  rw [hmax, h.startSeq_eq, hless]
  split_ifs with hcase
  · have hle : m ≤ q + 1 := by
      rcases hcase with hlt | heq
      · exact (of_decide_eq_true hlt).le
      · have := eq_of_wrap_eq heq (by omega) (by omega)
        omega
    rw [max_eq_right hle]
  · have hle : q + 1 ≤ m := by
      by_contra hlt
      exact hcase (Or.inl (decide_eq_true (by omega)))
    rw [max_eq_left hle]

end RecvBuffer

end SrtGo.Buffer
