import SrtGo.Buffer.RecvWindow

/-!
# Reading messages in order

The scan for the end of the message at the head of the receive buffer ends in one of three
ways, and each says something about the window: the message is complete, a packet of
another message stands where it should go on, or one of its packets is missing.
-/

namespace SrtGo.Buffer

open SrtGo.Seq

/-- The positions from `a` on and before `b` hold packets of one message, and none of them
is its last. -/
def Runs (cell : ℕ → RecvEntry) (msgNo a b : ℕ) : Prop :=
  ∀ q, a ≤ q → q < b → (cell q).state = .available ∧
    (cell q).pkt.header.messageNumber = msgNo ∧ (cell q).pkt.header.packetPosition.isLast = false

def ScanEnds (cell : ℕ → RecvEntry) (msgNo p count : ℕ) : RecvBuffer.MessageScan → Prop
  | .incomplete => ∃ b, p ≤ b ∧ Runs cell msgNo p b ∧ (cell b).state ≠ .available
  | .corrupted => ∃ b, p ≤ b ∧ Runs cell msgNo p b ∧ (cell b).state = .available ∧
      (cell b).pkt.header.messageNumber ≠ msgNo
  | .complete total => ∃ b, p ≤ b ∧ total = count + (b - p) + 1 ∧ Runs cell msgNo p b ∧
      (cell b).state = .available ∧ (cell b).pkt.header.messageNumber = msgNo ∧
      (cell b).pkt.header.packetPosition.isLast = true

variable {cell : ℕ → RecvEntry} {msgNo : ℕ}

theorem Runs.refl (cell : ℕ → RecvEntry) (msgNo a : ℕ) : Runs cell msgNo a a :=
  fun q hq hq' => by omega

theorem Runs.cons {a b : ℕ} (h : Runs cell msgNo (a + 1) b) (hstate : (cell a).state = .available)
    (hnumber : (cell a).pkt.header.messageNumber = msgNo)
    (hlast : (cell a).pkt.header.packetPosition.isLast = false) : Runs cell msgNo a b := by
  intro q hq hq'
  rcases Nat.eq_or_lt_of_le hq with rfl | hlt
  · exact ⟨hstate, hnumber, hlast⟩
  · exact h q hlt hq'

theorem ScanEnds.cons {p count : ℕ} {scan : RecvBuffer.MessageScan}
    (h : ScanEnds cell msgNo (p + 1) (count + 1) scan) (hstate : (cell p).state = .available)
    (hnumber : (cell p).pkt.header.messageNumber = msgNo)
    (hlast : (cell p).pkt.header.packetPosition.isLast = false) :
    ScanEnds cell msgNo p count scan := by
  cases scan with
  | incomplete =>
    obtain ⟨b, hb, hruns, hgap⟩ := h
    exact ⟨b, by omega, hruns.cons hstate hnumber hlast, hgap⟩
  | corrupted =>
    obtain ⟨b, hb, hruns, hother⟩ := h
    exact ⟨b, by omega, hruns.cons hstate hnumber hlast, hother⟩
  | complete total =>
    obtain ⟨b, hb, htotal, hruns, hend⟩ := h
    exact ⟨b, by omega, by omega, hruns.cons hstate hnumber hlast, hend⟩

/-- The fuel of the scan and its limit on the number of packets are never used up: less than
a ring from the head on there is no packet at `stop`. -/
theorem scanEnds {rb : RecvBuffer} {start stop : ℕ}
    (hcell : ∀ p, start ≤ p → p ≤ stop → rb.entryAt (wrap p) = cell p)
    (hstop : (cell stop).state ≠ .available) (hwidth : stop < start + rb.len) (fuel : ℕ) :
    ∀ {p count : ℕ}, start + count ≤ p → p ≤ stop → stop < p + fuel →
      ScanEnds cell msgNo p count (rb.scanMessage msgNo fuel (wrap p) count) := by
  induction fuel with
  | zero => exact fun _ _ hfuel => by omega
  | succ fuel ih =>
    intro p count hstart hp hfuel
    have hlt : (cell p).state = .available → p < stop :=
      fun hstate => hp.lt_of_ne fun heq => hstop (heq ▸ hstate)
    simp only [RecvBuffer.scanMessage, hcell p (by omega) hp, inc_wrap]
    split_ifs with hstate hnumber hlast hcount
    · exact ⟨p, le_rfl, Runs.refl cell msgNo p, hstate⟩
    · exact ⟨p, le_rfl, Runs.refl cell msgNo p, not_not.mp hstate, hnumber⟩
    · exact ⟨p, le_rfl,
        by omega, Runs.refl cell msgNo p, not_not.mp hstate, not_not.mp hnumber, hlast⟩
    · have := hlt (not_not.mp hstate)
      omega
    · exact (ih (by omega) (hlt (not_not.mp hstate)) (by omega)).cons (not_not.mp hstate)
        (not_not.mp hnumber) (by simpa using hlast)

namespace Shows

open RecvBuffer

variable {rb : RecvBuffer} {w : Window}

theorem scanEnds_head (h : Shows rb w) (msgNo : ℕ) :
    ScanEnds w.cell msgNo w.start 0 (scanMessage rb msgNo (rb.len + 2) rb.startSeq 0) := by
  have hwidth := h.width
  rw [h.startSeq_eq]
  refine scanEnds (fun p hp hp' => h.entryAt_eq hp (by omega)) ?_ (by omega) _ le_rfl
    w.start_le_stop
    (by omega)
  rw [w.blank w.stop le_rfl]
  simp

theorem takeMessage_eq (count : ℕ) : ∀ {rb : RecvBuffer} {w : Window}, Shows rb w →
    ∀ hstop : w.start + count ≤ w.stop,
      Shows (takeMessage count rb).1 (w.skip (w.start + count) hstop) ∧
      (takeMessage count rb).2 = (List.range' w.start count).map fun q => (w.cell q).pkt := by
  induction count with
  | zero => exact fun h _ => ⟨h, rfl⟩
  | succ count ih =>
    intro rb w h hstop
    have hlt : w.start < w.stop := by omega
    obtain ⟨hshows, hpkts⟩ := ih (h.skip_succ hlt (passes_takeMessageHead _))
      (show w.start + 1 + count ≤ w.stop by omega)
    refine ⟨?_, ?_⟩
    · have hskip : (w.skip (w.start + 1) hlt).skip (w.start + 1 + count) (by
          show w.start + 1 + count ≤ w.stop
          omega) = w.skip (w.start + (count + 1)) hstop := by
        unfold Window.skip
        congr 1
        omega
      rw [← hskip]
      exact hshows
    · rw [takeMessage, List.range'_succ, List.map_cons, h.entryAt_startSeq]
      exact congrArg _ hpkts

theorem releaseFillerEntries_eq (h : Shows rb w)
    (hhead : (w.cell w.start).state = .empty ∨ (w.cell w.start).state = .available) :
    rb.releaseFillerEntries = rb := by
  have hloop : ∀ fuel, releaseLoop fuel rb = rb := by
    intro fuel
    cases fuel with
    | zero => rfl
    | succ fuel =>
      rw [releaseLoop, h.entryAt_startSeq]
      rcases hhead with hempty | havailable
      · rw [hempty, ite_self]
      · rw [havailable, ite_self]
  exact hloop _

end Shows

end SrtGo.Buffer
