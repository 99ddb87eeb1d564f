import SrtGo.Buffer.RecvEdits

/-!
# The receive buffer as a window of positions

Unwrapping the sequence numbers turns the receive buffer into something much
simpler: a window of positions that only moves forward, each holding a slot's
contents.  `Shows rb w` says that the ring `rb` is the window `w`, and the rest
of the file says what each operation of the buffer does to the window.

## Strategy

A window changes in two ways only.  A position at or after its start is written
(`Window.put`), which may move the end of the window, or the start moves forward
(`Window.skip`).  The two lemmas `Shows.put` and `Shows.skip_succ` are the only
places that look into the ring; everything else is assembled from them.  Reading
never turns an empty position into a full one or back, and it only leaves full
positions behind; `Consumes` says this in a form that composes, so that it is shown
once for each of the edits that reading consists of.
-/

namespace SrtGo.Buffer

open SrtGo.Seq

/-! ## Windows -/

/-- A window of positions: `cell p` is the contents of position `p`, and nothing
has been received at or after `stop`. -/
structure Window where
  start : ℕ
  stop : ℕ
  cell : ℕ → RecvEntry
  start_le_stop : start ≤ stop
  blank : ∀ p, stop ≤ p → cell p = {}

namespace Window

def empty (p : ℕ) : Window :=
  ⟨p, p, fun _ => {}, le_rfl, fun _ _ => rfl⟩

def put (w : Window) (p : ℕ) (e : RecvEntry) : Window where
  start := w.start
  stop := max w.stop (p + 1)
  cell := Function.update w.cell p e
  start_le_stop := w.start_le_stop.trans (le_max_left _ _)
  blank q hq := by
    rw [Function.update_of_ne (by omega)]
    exact w.blank q (by omega)

def skip (w : Window) (r : ℕ) (hr : r ≤ w.stop) : Window where
  start := r
  stop := w.stop
  cell := w.cell
  start_le_stop := hr
  blank := w.blank

@[simp] theorem put_start (w : Window) (p : ℕ) (e : RecvEntry) :
    (w.put p e).start = w.start := rfl

@[simp] theorem put_stop (w : Window) (p : ℕ) (e : RecvEntry) :
    (w.put p e).stop = max w.stop (p + 1) := rfl

@[simp] theorem put_cell_self (w : Window) (p : ℕ) (e : RecvEntry) :
    (w.put p e).cell p = e := Function.update_self _ _ _

variable {p : ℕ}

variable {q : ℕ}

theorem put_cell_of_ne (w : Window) (e : RecvEntry) (h : q ≠ p) :
    (w.put p e).cell q = w.cell q := Function.update_of_ne h _ _

theorem lt_stop_of_state (w : Window) (h : (w.cell p).state ≠ .empty) : p < w.stop := by
  by_contra hge
  exact h (by rw [w.blank p (by omega)])

end Window

/-! ## Rings that show a window -/

/-- The ring `rb` holds the contents of the window `w`.  The ring is at most
`2 ^ 30` slots long, so that its positions can be compared by their numbers, and
one of its slots is always free. -/
structure Shows (rb : RecvBuffer) (w : Window) : Prop extends rb.HeadAt w.start where
  maxSeq_eq : rb.maxSeq = wrap w.stop
  width : w.stop + 1 ≤ w.start + rb.len
  ring : Ring.Represents (fun p => rb.index (wrap p)) {} rb.entries w.cell w.start w.stop

namespace Shows

variable {rb rb' : RecvBuffer} {w : Window}

section

variable (h : Shows rb w)

include h

theorem same (hsame : SameRing rb rb') : Shows rb' w where
  toHeadAt := h.toHeadAt.same hsame
  maxSeq_eq := hsame.maxSeq.trans h.maxSeq_eq
  width := by rw [hsame.len]; exact h.width
  ring := by
    simp only [index_eq_of_len hsame.len, hsame.entries]
    exact h.ring

theorem entryAt_eq (hstart : w.start ≤ p) (hlen : p < w.start + rb.len) :
    rb.entryAt (wrap p) = w.cell p := by
  rcases lt_or_ge p w.stop with hlt | hge
  · exact h.ring.inside p hstart hlt
  · rw [w.blank p hge]
    exact h.ring.ahead h.separates hge hlen

theorem entryAt_startSeq : rb.entryAt rb.startSeq = w.cell w.start := by
  rw [h.startSeq_eq]
  exact h.entryAt_eq le_rfl (by have := h.len_pos; omega)

variable {i : ℕ}

theorem exists_position (hi : (rb.entries i).state ≠ .empty) :
    ∃ p, w.start ≤ p ∧ p < w.stop ∧ rb.index (wrap p) = i ∧ rb.entries i = w.cell p := by
  by_contra hnone
  push Not at hnone
  refine hi ?_
  rw [h.ring.outside i]
  intro p hstart hstop hslot
  refine hnone p hstart hstop hslot ?_
  rw [← hslot]
  exact h.ring.inside p hstart hstop

theorem lessThan_maxSeq (hstart : w.start ≤ p) (hstop : p ≤ w.stop) :
    lessThan (wrap p) rb.maxSeq = decide (p < w.stop) := by
  have hlen := h.len_le
  have hwidth := h.width
  rw [h.maxSeq_eq]
  exact lessThan_wrap (by omega) (by omega)

theorem ahead_eq : ahead rb.startSeq rb.maxSeq = w.stop - w.start := by
  have hlen := h.len_le
  have hwidth := h.width
  rw [h.startSeq_eq, h.maxSeq_eq]
  exact ahead_wrap w.start_le_stop (by omega)

theorem put (hstart : w.start ≤ p) (hlen : p + 1 < w.start + rb.len) (e : RecvEntry)
    (hentries : rb'.entries = Function.update rb.entries (rb.index (wrap p)) e)
    (hlen' : rb'.len = rb.len)
    (hstart' : rb'.startSeq = rb.startSeq) (hmax' : rb'.maxSeq = wrap (max w.stop (p + 1))) :
    Shows rb' (w.put p e) := by
  have hwidth := h.width
  have hgrow := h.ring.grow h.separates (le_max_left w.stop (p + 1)) (by omega)
    fun q hq _ => w.blank q hq
  have hupdate := hgrow.update h.separates (by omega) hstart (by omega) e
  refine ⟨⟨by rw [hlen']; exact h.pow, hstart'.trans h.startSeq_eq⟩, hmax', ?_, ?_⟩
  · rw [hlen', Window.put_stop, Window.put_start]
    omega
  · simp only [index_eq_of_len hlen', hentries]
    exact hupdate

theorem skip_succ (hlt : w.start < w.stop) (hpass : RecvBuffer.Passes {} rb rb') :
    Shows rb' (w.skip (w.start + 1) hlt) := by
  have hwidth := h.width
  refine ⟨h.toHeadAt.pass hpass, hpass.maxSeq.trans h.maxSeq_eq, ?_, ?_⟩
  · rw [hpass.len]
    change w.stop + 1 ≤ w.start + 1 + rb.len
    omega
  · simp only [index_eq_of_len hpass.len, hpass.entries, h.startSeq_eq]
    exact h.ring.popFront h.separates (by omega)

end

end Shows

/-! ## The operations -/

/-- What reading does to a window: its end stays, its start passes only full
positions, and the positions from the new start on are full or empty as they
were. -/
structure Consumes (w w' : Window) : Prop where
  stop : w'.stop = w.stop
  start_le : w.start ≤ w'.start
  passed : ∀ p, w.start ≤ p → p < w'.start → (w.cell p).state ≠ .empty
  kept : ∀ p, w'.start ≤ p → ((w'.cell p).state = .empty ↔ (w.cell p).state = .empty)

theorem Consumes.refl (w : Window) : Consumes w w :=
  ⟨rfl, le_rfl, fun p h h' => by omega, fun _ _ => Iff.rfl⟩

theorem Consumes.trans {w w' w'' : Window} (h : Consumes w w') (h' : Consumes w' w'') :
    Consumes w w'' where
  stop := h'.stop.trans h.stop
  start_le := h.start_le.trans h'.start_le
  passed p hp hp' := by
    rcases lt_or_ge p w'.start with hlt | hge
    · exact h.passed p hp hlt
    · rw [ne_eq, ← h.kept p hge]
      exact h'.passed p hge hp'
  kept p hp := (h'.kept p hp).trans (h.kept p (h'.start_le.trans hp))

theorem Consumes.skip_succ (w : Window) (hlt : w.start < w.stop)
    (hfull : (w.cell w.start).state ≠ .empty) : Consumes w (w.skip (w.start + 1) hlt) where
  stop := rfl
  start_le := Nat.le_succ _
  passed p hp hp' := by
    have hp' : p < w.start + 1 := hp'
    obtain rfl : p = w.start := by omega
    exact hfull
  kept _ _ := Iff.rfl

variable {e : RecvEntry}

theorem Consumes.put (w : Window) (hp : p < w.stop) (hfull : (w.cell p).state ≠ .empty)
    (he : e.state ≠ .empty) :
    Consumes w (w.put p e) where
  stop := max_eq_left hp
  start_le := le_rfl
  passed q hq hq' := absurd hq' (not_lt.mpr hq)
  kept q _ := by
    rcases eq_or_ne q p with rfl | hne
    · simp [hfull, he]
    · rw [w.put_cell_of_ne e hne]

namespace Shows

variable {rb rb' : RecvBuffer} {w : Window} {p : Packet}

open RecvBuffer

def Reads (w : Window) (rb' : RecvBuffer) : Prop := ∃ w', Shows rb' w' ∧ Consumes w w'

theorem reads_refl (h : Shows rb w) : Reads w rb := ⟨w, h, Consumes.refl w⟩

theorem Reads.trans {rb'' : RecvBuffer} (h : Reads w rb') (hnext : ∀ w', Shows rb' w' →
    Reads w' rb'') :
    Reads w rb'' := by
  obtain ⟨w', hshows, hconsumes⟩ := h
  obtain ⟨w'', hshows', hconsumes'⟩ := hnext w' hshows
  exact ⟨w'', hshows', hconsumes.trans hconsumes'⟩

section

variable (h : Shows rb w)

include h

theorem reads_pass (hpass : Passes {} rb rb') (hfull : (rb.entryAt rb.startSeq).state ≠ .empty) :
    Reads w rb' := by
  rw [h.entryAt_startSeq] at hfull
  have hlt := w.lt_stop_of_state hfull
  exact ⟨_, h.skip_succ hlt hpass, Consumes.skip_succ w hlt hfull⟩

theorem reads_markRead (hi : (rb.entries i).state = .available) (he : e.state ≠ .empty) :
    Reads w (rb.setEntry i e) := by
  obtain ⟨p, hstart, hstop, rfl, hcell⟩ := h.exists_position (i := i) (by simp [hi])
  have hwidth := h.width
  have hfull : (w.cell p).state ≠ .empty := by simp [← hcell, hi]
  refine ⟨w.put p e, h.put hstart (by omega) e rfl rfl rfl ?_, Consumes.put w hstop hfull he⟩
  rw [max_eq_left hstop]
  exact h.maxSeq_eq

theorem reads_of_readings (hreadings : Readings False rb rb') : Reads w rb' := by
  induction hreadings with
  | refl => exact h.reads_refl
  | tail _ hstep ih =>
    refine ih.trans fun w' h' => ?_
    cases hstep with
    | same hsame => exact (h'.same hsame).reads_refl
    | pass hpass hfull =>
      obtain ⟨rfl, hfull⟩ := hfull
      exact h'.reads_pass hpass (hfull.resolve_left id).2
    | markRead i he hi => exact h'.reads_markRead hi (by simp [he])

theorem reads_readMessage : Reads w rb.readMessage.1 :=
  h.reads_of_readings (readings_readMessage (Or.inr ⟨_, h.toHeadAt⟩))

theorem reads_readNext : Reads w rb.readNext.1 :=
  h.reads_of_readings (readings_readNext rb)

theorem reads_readTSBPD (now : ℤ) (deliveryTime : ℕ → ℤ) :
    Reads w (rb.readTSBPD now deliveryTime).1 :=
  h.reads_of_readings (readings_readTSBPD rb now deliveryTime)

theorem shows_store (hseq : p.header.sequenceNumber = wrap q) (hstart : w.start ≤ q)
    (hreach : q + 1 < w.start + rb.len) (arrivalTS : ℤ) : Shows (rb.store p arrivalTS)
      (w.put q { pkt := p, state := .available, arrivalTS := arrivalTS }) := by
  have hfill : Shows (rb.fill p arrivalTS)
      (w.put q { pkt := p, state := .available, arrivalTS := arrivalTS }) := by
    refine h.put hstart hreach _ (by rw [← hseq]; rfl) rfl rfl ?_
    have hwidth := h.width
    have hlen := h.len_le
    have hle := w.start_le_stop
    rw [fill, hseq, inc_wrap]
    exact h.extendedMax_eq h.maxSeq_eq (by omega) hstart (by omega)
  exact hfill.same (sameRing_store rb p arrivalTS)

/-- What inserting does: the packet is rejected and nothing changes, or its
position was free and within reach, and now holds it. -/
theorem insert_cases (hp : p.WellFormed) (arrivalTS : ℤ) : rb.insert p arrivalTS = (rb, {}) ∨
    ∃ q, w.start ≤ q ∧ q + 1 < w.start + rb.len ∧ p.header.sequenceNumber = wrap q ∧
      (w.cell q).state = .empty ∧
      rb.insert p arrivalTS = (rb.store p arrivalTS, rb.insertedAt p.header.sequenceNumber) := by
  refine (h.toHeadAt.insert_cases hp arrivalTS).imp_right ?_
  rintro ⟨q, hq, hreach, hseq, hempty, hinsert⟩
  rw [← h.index_eq] at hempty
  exact ⟨q, hq, hreach, hseq, by rwa [← h.entryAt_eq hq (by omega)], hinsert⟩

theorem insert_of_empty (hseq : p.header.sequenceNumber = wrap q) (hstart : w.start ≤ q)
    (hreach : q + 1 < w.start + rb.len) (hempty : (w.cell q).state = .empty) (arrivalTS : ℤ) :
    rb.insert p arrivalTS =
      (rb.store p arrivalTS, rb.insertedAt p.header.sequenceNumber) := by
  have hlen := h.len_le
  have hless : lessThan (wrap q) (wrap w.start) = false := by
    rw [lessThan_wrap (by omega) (by omega)]
    exact decide_eq_false (by omega)
  have hdist : distance (wrap w.start) (wrap q) = (q : ℤ) - w.start :=
    distance_wrap (by omega) (by omega)
  have hentry := h.entryAt_eq hstart (by omega)
  rw [entryAt] at hentry
  unfold RecvBuffer.insert
  simp only [hseq, h.startSeq_eq, hless, hdist, hentry, hempty]
  rw [if_neg (by simp), if_neg (by omega), if_neg (by simp)]

end

theorem insertedAt_inserted (rb : RecvBuffer) (s : ℕ) : (rb.insertedAt s).inserted = true := by
  unfold insertedAt
  split_ifs <;> rfl

/-- The acknowledgement point lies in the window, and everything before it is full. -/
theorem exists_ackSequence (h : Shows rb w) : ∃ r, w.start ≤ r ∧ r ≤ w.stop ∧
    rb.ackSequence = wrap r ∧ ∀ q, w.start ≤ q → q < r → (w.cell q).state ≠ .empty := by
  have hwidth := h.width
  have hlen := h.len_le
  obtain ⟨r, hstart, hstop, hscan, hbefore, -⟩ := exists_scan_eq
    (fun s => (rb.entryAt s).state = .empty) w.start_le_stop (by omega)
  refine ⟨r, hstart, hstop, ?_, fun q hq hr => ?_⟩
  · rw [ackSequence, h.ahead_eq, h.startSeq_eq, h.maxSeq_eq]
    exact hscan
  · rw [← h.entryAt_eq hq (by omega)]
    exact of_decide_eq_false (hbefore q hq hr)

/-! ### Dropping nothing -/

theorem reads_drop (h : Shows rb w) {upTo : ℕ} (hupTo : lessThan rb.startSeq upTo = false) :
    Reads w (rb.drop upTo).buffer := by
  have hloop : dropLoop upTo (ahead rb.startSeq upTo) { buffer := rb } = { buffer := rb } := by
    cases ahead rb.startSeq upTo with
    | zero => rfl
    | succ fuel => simp [dropLoop, hupTo]
  have hreadings : Readings False _ _ := readings_of_dropLoop rb upTo
  rw [hloop] at hreadings
  exact h.reads_of_readings hreadings

theorem reads_dropTooLate (h : Shows rb w) {now : ℤ} {deliveryTime : ℕ → ℤ}
    (hlate : rb.headTooLate now deliveryTime = false) :
    Reads w (rb.dropTooLate now deliveryTime).1 := by
  have hloop : dropTooLateLoop now deliveryTime (ahead rb.startSeq rb.maxSeq) rb = (rb, 0) := by
    cases ahead rb.startSeq rb.maxSeq with
    | zero => rfl
    | succ fuel => simp [dropTooLateLoop, hlate]
  unfold dropTooLate
  simp only [hloop]
  exact h.reads_of_readings (readings_releaseFillerEntries rb)

end Shows

/-! ## The new buffer -/

variable {n : ℤ}

theorem exists_nextPow2_eq_of_le {j : ℕ} (hj : j ≤ 30) (hn : n ≤ 2 ^ j) :
    ∃ k ≤ j, nextPow2 n = 2 ^ k := by
  unfold nextPow2
  split_ifs with hsmall
  · exact ⟨0, by omega, rfl⟩
  · have hpos : 0 < n.toNat - 1 := by omega
    have hlt : n.toNat - 1 < 2 ^ j := by
      zify [show 1 ≤ n.toNat by omega]
      omega
    have hpow : (2 : ℕ) ^ j ≤ 2 ^ 30 := Nat.pow_le_pow_right two_pos hj
    refine ⟨Nat.log 2 (n.toNat - 1) + 1, Nat.log_lt_of_lt_pow hpos.ne' hlt, ?_⟩
    rw [Ring.smear_eq hpos (by omega)]
    exact Nat.sub_add_cancel (Nat.one_le_two_pow)

theorem exists_nextPow2_eq (hn : n ≤ 2 ^ 30) : ∃ k ≤ 30, nextPow2 n = 2 ^ k :=
  exists_nextPow2_eq_of_le le_rfl hn

theorem le_nextPow2 (n : ℤ) : n ≤ nextPow2 n := by
  unfold nextPow2
  split_ifs with hsmall
  · exact_mod_cast hsmall
  · have := Ring.le_smear (n.toNat - 1)
    push_cast
    omega

theorem shows_new (hn : n ≤ 2 ^ 30) {isn : ℕ} (hisn : Valid isn) (messageAPI : Bool) :
    Shows ((RecvBuffer.new n isn).setMessageAPI messageAPI) (Window.empty isn) where
  pow := exists_nextPow2_eq hn
  startSeq_eq := (wrap_of_lt hisn.lt).symm
  maxSeq_eq := (wrap_of_lt hisn.lt).symm
  width := by
    obtain ⟨k, -, hk⟩ := exists_nextPow2_eq hn
    have hpos : 0 < nextPow2 n := hk ▸ Nat.two_pow_pos k
    exact Nat.add_le_add_left hpos isn
  ring := Ring.Represents.empty _ _ _ _

end SrtGo.Buffer
