import SrtGo.Buffer.RecvEdits

/-!
# The packets in the receive buffer

What a receive buffer hands out was put into it.  Nothing here depends on the shape of
the ring: a packet is offered if some slot holds it, inserting offers one packet more, and
no edit of the ring offers a packet that was not there before.
-/

namespace SrtGo.Buffer

open SrtGo.Seq Function

namespace RecvBuffer

variable {rb rb' rb'' : RecvBuffer} {p : Packet} {pkts : List Packet} {now : ℤ}

def Offers (rb : RecvBuffer) (p : Packet) : Prop :=
  ∃ j, (rb.entries j).state = .available ∧ (rb.entries j).pkt = p

/-- `rb'` holds only packets of `rb`, in their slots. -/
def Thins (rb rb' : RecvBuffer) : Prop :=
  ∀ j, (rb'.entries j).state = .available → rb'.entries j = rb.entries j

theorem Thins.refl (rb : RecvBuffer) : Thins rb rb := fun _ _ => rfl

theorem Thins.of_eq (h : rb'.entries = rb.entries) : Thins rb rb' := fun _ _ => by rw [h]

theorem Thins.trans (h : Thins rb rb') (h' : Thins rb' rb'') : Thins rb rb'' := by
  intro j hj
  have hmid := h' j hj
  exact hmid.trans (h j (hmid ▸ hj))

theorem Thins.after (h' : Thins rb' rb'') (h : Thins rb rb') : Thins rb rb'' := h.trans h'

theorem Offers.of_thins (h : Thins rb rb') (hp : rb'.Offers p) : rb.Offers p := by
  obtain ⟨j, havailable, hpkt⟩ := hp
  have hsame := h j havailable
  exact ⟨j, hsame ▸ havailable, hsame ▸ hpkt⟩

theorem thins_setEntry (rb : RecvBuffer) (i : ℕ) {e : RecvEntry} (he : e.state ≠ .available) :
    Thins rb (rb.setEntry i e) := by
  intro j hj
  by_cases hji : j = i
  · subst hji
    simp only [setEntry, update_self] at hj
    exact absurd hj he
  · simp only [setEntry, update_of_ne hji]

theorem thins_dropHead (rb : RecvBuffer) : Thins rb rb.dropHead :=
  (Thins.of_eq rfl).after (thins_setEntry rb _ (by simp))

theorem mem_timestamps_dropLoop {upTo ts : ℕ} (fuel : ℕ) : ∀ {r : DropResult}, Thins rb r.buffer →
    ts ∈ (dropLoop upTo fuel r).timestamps →
    ts ∈ r.timestamps ∨ ∃ p, rb.Offers p ∧ p.header.timestamp = ts := by
  induction fuel with
  | zero => exact fun _ h => Or.inl h
  | succ fuel ih =>
    intro r hthins h
    have hnext : ∀ {r' : RecvBuffer}, r'.entries = r.buffer.entries → Thins rb r'.dropHead :=
      fun heq => (thins_dropHead _).after ((Thins.of_eq heq).after hthins)
    rw [dropLoop] at h
    simp only at h
    split_ifs at h
    · split at h
      next havailable =>
        rcases ih (hnext (by unfold forget; simp only; split_ifs <;> rfl)) h with hmem | hoffers
        · rcases List.mem_append.mp hmem with hmem | hmem
          · exact Or.inl hmem
          · have hhead : r.buffer.Offers (r.buffer.entryAt r.buffer.startSeq).pkt :=
              ⟨_, havailable, rfl⟩
            exact Or.inr ⟨_, hhead.of_thins hthins, (List.mem_singleton.mp hmem).symm⟩
        · exact Or.inr hoffers
      all_goals
        have hrest := ih (hnext rfl) h
        exact hrest
    · exact Or.inl h

theorem offers_of_mem_timestamps {upTo ts : ℕ} (h : ts ∈ (rb.drop upTo).timestamps) :
    ∃ p, rb.Offers p ∧ p.header.timestamp = ts := by
  have hloop : ts ∈ (dropLoop upTo (ahead rb.startSeq upTo) { buffer := rb }).timestamps := by
    unfold drop at h
    simp only at h
    split_ifs at h <;> exact h
  exact (mem_timestamps_dropLoop _ (Thins.refl rb) hloop).resolve_left List.not_mem_nil

/-- Whatever is done to the ring, no packet is offered that was not there before. -/
theorem Edits.thins (h : Edits True rb rb') : Thins rb rb' := by
  refine h.preserves (Q := Thins rb) (Thins.refl rb) fun r _ hedit hr => hr.trans ?_
  cases hedit with
  | same h => exact Thins.of_eq h.entries
  | pass hpass hok =>
    exact (Thins.of_eq hpass.entries).after (thins_setEntry r _ fun h => hok.1 (Or.inl h))
  | markRead i he hi => exact thins_setEntry r i (by simp [he])

theorem Readings.thins (h : Readings True rb rb') : Thins rb rb' := Edits.thins h.edits

/-! ## Inserting -/

theorem Offers.of_insert {q : Packet} (h : (rb.insert p now).1.Offers q) : rb.Offers q ∨ q = p := by
  rcases rb.insert_eq p now with hinsert | hinsert <;> rw [hinsert] at h
  · exact Or.inl h
  · obtain ⟨j, havailable, hpkt⟩ := h
    rw [(sameRing_store rb p now).entries] at havailable hpkt
    by_cases hj : j = rb.index p.header.sequenceNumber
    · subst hj
      simp only [fill, setEntry, update_self] at hpkt
      exact Or.inr hpkt.symm
    · simp only [fill, setEntry, update_of_ne hj] at havailable hpkt
      exact Or.inl ⟨j, havailable, hpkt⟩

/-! ## Reading -/

theorem readNext_offers (h : rb.readNext = (rb', some p)) : rb.Offers p := by
  unfold readNext at h
  split_ifs at h with hread
  · simp only [Prod.mk.injEq, Option.some.injEq] at h
    exact ⟨_, of_decide_eq_true hread, h.2⟩
  · simp at h

theorem readTSBPD_offers {deliveryTime : ℕ → ℤ}
    (h : rb.readTSBPD now deliveryTime = (rb', some p)) :
    rb.Offers p := by
  unfold readTSBPD at h
  simp only at h
  split_ifs at h with hstate hearly
  · simp at h
  · simp at h
  · simp only [Prod.mk.injEq, Option.some.injEq] at h
    exact ⟨_, not_not.mp hstate, h.2⟩

/-! ## Messages -/

def Blanks (rb rb' : RecvBuffer) : Prop :=
  rb'.len = rb.len ∧ ∀ j, rb'.entries j = rb.entries j ∨ rb'.entries j = {}

theorem blanks_takeMessageHead (rb : RecvBuffer) : Blanks rb rb.takeMessageHead := by
  have hpass := passes_takeMessageHead rb
  refine ⟨hpass.len, fun j => ?_⟩
  rw [hpass.entries]
  by_cases hj : j = rb.index rb.startSeq
  · exact Or.inr (hj ▸ update_self _ _ _)
  · exact Or.inl (update_of_ne hj _ _)

theorem Blanks.trans (h : Blanks rb rb') (h' : Blanks rb' rb'') : Blanks rb rb'' := by
  refine ⟨h'.1.trans h.1, fun j => ?_⟩
  rcases h'.2 j with heq | hblank
  · rw [heq]
    exact h.2 j
  · exact Or.inr hblank

theorem scanMessage_complete (rb : RecvBuffer) (msgNo fuel : ℕ) :
    ∀ s count n, rb.scanMessage msgNo fuel s count = .complete n →
      count < n ∧ ∀ k < n - count, (rb.entryAt (inc^[k] s)).state = .available := by
  induction fuel with
  | zero => exact fun s count n h => absurd h (by simp [scanMessage])
  | succ fuel ih =>
    intro s count n h
    rw [scanMessage] at h
    split_ifs at h with hstate hmsg hlast hlong
    · have hn : count + 1 = n := MessageScan.complete.inj h
      refine ⟨by omega, fun k hk => ?_⟩
      obtain rfl : k = 0 := by omega
      exact not_not.mp hstate
    · obtain ⟨hlt, hall⟩ := ih _ _ _ h
      refine ⟨by omega, fun k hk => ?_⟩
      cases k with
      | zero => exact not_not.mp hstate
      | succ k => exact hall k (by omega)

/-- The packets of `ps` are held, except for empty ones.  A message that is longer than
the ring meets its own slots again, and finds them empty. -/
def OffersAll (rb : RecvBuffer) (ps : List Packet) : Prop := ∀ p ∈ ps, rb.Offers p ∨ p = {}

theorem takeMessage_offers (count : ℕ) : ∀ rb' : RecvBuffer, Blanks rb rb' →
    (∀ k < count, (rb.entryAt (inc^[k] rb'.startSeq)).state = .available) →
    rb.OffersAll (takeMessage count rb').2 := by
  induction count with
  | zero => exact fun rb' _ _ => by simp [OffersAll, takeMessage]
  | succ count ih =>
    intro rb' hblanks havailable
    have hnext := (passes_takeMessageHead rb').startSeq
    have hoffers := ih rb'.takeMessageHead (hblanks.trans (blanks_takeMessageHead rb'))
      (fun k hk => by rw [hnext]; exact havailable (k + 1) (by omega))
    intro p hp
    simp only [takeMessage, List.mem_cons] at hp
    rcases hp with rfl | hp
    · have hindex := index_eq_of_len hblanks.1 rb'.startSeq
      rcases hblanks.2 (rb'.index rb'.startSeq) with heq | hblank
      · refine Or.inl ⟨rb.index rb'.startSeq, havailable 0 (by omega), ?_⟩
        unfold entryAt
        rw [heq, hindex]
      · refine Or.inr ?_
        unfold entryAt
        rw [hblank]
    · exact hoffers p hp

theorem readOutLoop_offers (fuel : ℕ) : ∀ (i : ℕ) (pkts : List Packet) (rb : RecvBuffer)
    (out : List Packet),
    (readOutLoop fuel i pkts rb).2 = some out →
      ∃ p rest, out = pkts ++ p :: rest ∧ rb.Offers p ∧ ∀ q ∈ rest, rb.Offers q := by
  induction fuel with
  | zero => exact fun i pkts rb => by simp [readOutLoop]
  | succ fuel ih =>
    intro i pkts rb out hout
    rw [readOutLoop] at hout
    simp only at hout
    have hthins : ∀ e : RecvEntry, e.state ≠ .available → Thins rb
        { (rb.uncount (rb.entries i).pkt).setEntry i e with
          size := (rb.uncount (rb.entries i).pkt).size - 1 } := fun e he =>
      ((Thins.of_eq rfl).after (thins_setEntry _ i he)).after
        (Thins.of_eq (sameRing_uncount rb _).entries)
    split_ifs at hout with hstate hlast hlong
    · exact ⟨(rb.entries i).pkt, [], (Option.some.inj hout).symm, ⟨i, not_not.mp hstate, rfl⟩,
        by simp⟩
    · obtain ⟨p, rest, hsplit, hp, hall⟩ := ih _ _ _ _ hout
      refine ⟨(rb.entries i).pkt, p :: rest,
        by simp [hsplit], ⟨i, not_not.mp hstate, rfl⟩, fun q hq => ?_⟩
      rcases List.mem_cons.mp hq with rfl | hq
      · exact hp.of_thins (hthins _ (by simp))
      · exact (hall q hq).of_thins (hthins _ (by simp))

theorem readMessageInOrder_offers (hread : rb.canReadInOrder = true)
    (h : rb.readMessageInOrder.2 = some pkts) :
    ∃ p rest, pkts = p :: rest ∧ rb.Offers p ∧ rb.OffersAll rest := by
  have hhead : rb.Offers (rb.entryAt rb.startSeq).pkt := ⟨_, of_decide_eq_true hread, rfl⟩
  unfold readMessageInOrder at h
  simp only at h
  split at h
  · exact ⟨_, [], (Option.some.inj h).symm, hhead, by simp [OffersAll]⟩
  · cases hscan : rb.scanMessage (rb.entryAt rb.startSeq).pkt.header.messageNumber (rb.len + 2)
        rb.startSeq 0 with
    | incomplete => simp [hscan] at h
    | corrupted => simp [hscan] at h
    | complete count =>
      rw [hscan] at h
      obtain ⟨hpos, hall⟩ := rb.scanMessage_complete _ _ _ _ _ hscan
      have hblanks : Blanks rb rb := ⟨rfl, fun j => Or.inl rfl⟩
      have hoffers := takeMessage_offers count rb hblanks fun k hk => hall k (by omega)
      obtain ⟨count, rfl⟩ : ∃ m, count = m + 1 := ⟨count - 1, by omega⟩
      refine ⟨_, _, (Option.some.inj h).symm, hhead, fun p hp => hoffers p ?_⟩
      exact List.mem_cons_of_mem _ hp
  · simp at h
  · simp at h

theorem readMessage_offers (h : rb.readMessage.2 = some pkts) :
    ∃ p rest, pkts = p :: rest ∧ rb.Offers p ∧ rb.OffersAll rest := by
  unfold readMessage at h
  split_ifs at h with hread hooo
  · exact readMessageInOrder_offers hread h
  · unfold readMessageOutOfOrder at h
    cases hfirst : rb.firstReadableOOO with
    | none => simp [hfirst] at h
    | some readPos =>
      rw [hfirst] at h
      simp only at h
      cases hres : (readOutLoop (rb.len + 2) readPos [] rb).2 with
      | none => simp [hres] at h
      | some out =>
        obtain ⟨p, rest, hsplit, hp, hall⟩ := readOutLoop_offers _ _ _ _ _ hres
        rw [hres] at h
        exact ⟨p, rest, (Option.some.inj h).symm.trans hsplit, hp, fun q hq => Or.inl (hall q hq)⟩

end RecvBuffer

end SrtGo.Buffer
