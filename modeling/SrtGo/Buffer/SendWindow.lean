import SrtGo.Buffer.RecvWindow
import SrtGo.Buffer.Send

/-!
# The window of the send buffer, whatever arrives

`Buffer.Send` follows the window of an acknowledgement that makes sense.  Here the
acknowledged number may be any word.  Whatever it is, the loop only ever releases head
packets, so that the window shrinks from the front by as many packets as it counts.  The
same goes for the packets that the sender gives up on.
-/

namespace SrtGo.Buffer

open SrtGo.Seq SendBuffer

theorem holds_new {n : ℤ} (hn : n ≤ 2 ^ 30) {isn : ℕ} (hisn : Valid isn) :
    Holds (SendBuffer.new n isn) (fun _ => {}) isn isn where
  toEndsAt := ⟨exists_nextPow2_eq hn, le_rfl, (wrap_of_lt hisn.lt).symm, (wrap_of_lt hisn.lt).symm⟩
  size_eq := by simp [SendBuffer.new]
  width := Nat.le_add_right _ _
  used p hp hp' := absurd hp' (not_lt.mpr hp)
  ring := Ring.Represents.empty _ _ _ _

def SendEntry.expired (e : SendEntry) (now thresh : ℤ) : Bool :=
  decide (0 < SendBuffer.effectiveDeadline e thresh) &&
    decide (SendBuffer.effectiveDeadline e thresh < now - e.sentAt)

def SendBuffer.Timely (sb : SendBuffer) (now thresh : ℤ) : Prop :=
  ∀ i < sb.len, (sb.entries i).used = true → (sb.entries i).expired now thresh = false

instance (sb : SendBuffer) (now thresh : ℤ) : Decidable (sb.Timely now thresh) :=
  inferInstanceAs (Decidable (∀ i < sb.len, _ → _))

namespace SendBuffer

variable {sb : SendBuffer}

theorem index_lt (hlen : 0 < sb.len) (x : ℕ) : sb.index x < sb.len := by
  have := Nat.and_le_right (n := x) (m := sb.len - 1)
  unfold index mask
  omega

theorem Timely.headExpired {now thresh : ℤ} (h : sb.Timely now thresh) (hlen : 0 < sb.len) :
    sb.headExpired now thresh = false := by
  have hhead : sb.headExpired now thresh =
      ((sb.entryAt sb.startSeq).used && (sb.entryAt sb.startSeq).expired now thresh) := by
    rw [SendEntry.expired, ← Bool.and_assoc]
    rfl
  rw [hhead]
  cases hused : (sb.entryAt sb.startSeq).used with
  | false => rfl
  | true => exact h (sb.index sb.startSeq) (index_lt hlen _) hused

theorem dropTooLateSend_of_timely {now thresh : ℤ} (h : sb.Timely now thresh) (hlen : 0 < sb.len) :
    (sb.dropTooLateSend now thresh).dropped = 0 := by
  unfold dropTooLateSend
  cases sb.size.toNat with
  | zero => rfl
  | succ fuel => rw [dropTooLateLoop, if_neg (by simp [h.headExpired hlen])]

theorem len_dropTooLateSend (sb : SendBuffer) (now thresh : ℤ) :
    (sb.dropTooLateSend now thresh).buffer.len = sb.len :=
  dropTooLateLoop_preserves _ _ (Q := fun r => r.buffer.len = sb.len) (fun _ _ _ h => h) _ rfl

theorem ackLoop_count_le (a fuel : ℕ) : ∀ r : SendBuffer × ℕ, (ackLoop a fuel r).2 ≤
    r.2 + fuel := by
  induction fuel with
  | zero => exact fun r => le_rfl
  | succ fuel ih =>
    rintro ⟨sb, count⟩
    rw [ackLoop]
    split_ifs
    · have := ih (sb.release, count + 1)
      simp only at this ⊢
      omega
    · have := ih ({ sb with startSeq := inc sb.startSeq }, count)
      simp only at this ⊢
      omega
    · simp

theorem ack_count_le (sb : SendBuffer) (a : ℕ) : (sb.ack a).2 ≤ ahead sb.startSeq a := by
  have := ackLoop_count_le a (ahead sb.startSeq a) (sb, 0)
  simpa [ack] using this

end SendBuffer

namespace Holds

variable {sb sb' : SendBuffer} {cell : ℕ → SendEntry} {s n : ℕ}

section

variable (h : Holds sb cell s n) {sentAt : ℤ} {p : Packet}

include h

theorem lt_of_size_pos (hsize : 0 < sb.size) : s < n := by
  have := h.size_eq
  omega

/-- Any acknowledgement releases the packets that it counts, from the head on, and their numbers are
before the one it names. -/
theorem ack_any (a : ℕ) : ∃ d, s + d ≤ n ∧ Holds (sb.ack a).1 cell (s + d) n ∧
    (sb.ack a).1.len = sb.len ∧
      (sb.ack a).2 = d ∧ ∀ p, s ≤ p → p < s + d → lessThan (wrap p) a = true := by
  refine ackLoop_preserves (Q := fun r => ∃ d, s + d ≤ n ∧ Holds r.1 cell (s + d) n ∧
    r.1.len = sb.len ∧ r.2 = d ∧ ∀ p, s ≤ p → p < s + d → lessThan (wrap p) a = true) ?_ ?_ _
    ⟨0, h.start_le, h, rfl, rfl, fun p hs hp => absurd hp (not_lt.mpr hs)⟩
  · rintro sb' count hless hsize - ⟨d, -, hholds, hlen, rfl, hbefore⟩
    have hlt := hholds.lt_of_size_pos hsize
    refine ⟨count + 1, hlt, hholds.release hlt, hlen, rfl, fun p hs hp => ?_⟩
    rcases Nat.lt_succ_iff_lt_or_eq.mp hp with hp | rfl
    · exact hbefore p hs hp
    · exact hholds.startSeq_eq ▸ hless
  · rintro sb' count hsize hunused ⟨d, -, hholds, -⟩
    exact absurd (hholds.head_used (hholds.lt_of_size_pos hsize)) hunused

theorem entryAt_wrap {p : ℕ} (hs : s ≤ p) (hn : p < n) : sb.entryAt (wrap p) = cell p :=
  h.ring.inside p hs hn

theorem size_eq_sub : sb.size = ((n - s : ℕ) : ℤ) := by
  have := h.start_le
  rw [h.size_eq]
  omega

theorem headExpired_eq (hlt : s < n) (now thresh : ℤ) :
    sb.headExpired now thresh = (cell s).expired now thresh := by
  have hentry : sb.entryAt sb.startSeq = cell s := by
    rw [h.startSeq_eq]
    exact h.entryAt_wrap le_rfl hlt
  unfold headExpired
  simp only [hentry, h.used s le_rfl hlt, Bool.true_and]
  rfl

/-- The sender gives up on the longest expired prefix of the window, and reports its ends. -/
theorem dropTooLateSend (now thresh : ℤ) :
    ∃ d, s + d ≤ n ∧ (∀ p, s ≤ p → p < s + d → (cell p).expired now thresh = true) ∧
      (s + d < n → (cell (s + d)).expired now thresh = false) ∧
      Holds (sb.dropTooLateSend now thresh).buffer cell (s + d) n ∧
      (sb.dropTooLateSend now thresh).dropped = d ∧
      (sb.dropTooLateSend now thresh).first = wrap s ∧
      (0 < d → (sb.dropTooLateSend now thresh).last = wrap (s + (d - 1))) := by
  have hround := dropTooLateLoop_preserves now thresh
    (Q := fun r => ∃ d, (∀ p, s ≤ p → p < s + d → (cell p).expired now thresh = true) ∧
      Holds r.buffer cell (s + d) n ∧ r.dropped = d ∧ r.first = wrap s ∧
        (0 < d → r.last = wrap (s + (d - 1)))) ?_
    sb.size.toNat (r := ⟨sb, 0, sb.startSeq, 0⟩)
    ⟨0, fun p hs hp => absurd hp (not_lt.mpr hs), h, rfl, h.startSeq_eq,
      fun hpos => absurd hpos (lt_irrefl 0)⟩
  · obtain ⟨d, hall, hholds, hdropped, hfirst, hlast⟩ := hround
    refine ⟨d, hholds.start_le, hall, fun hlt => ?_, hholds, hdropped, hfirst, hlast⟩
    -- the loop has come to a packet that is in time
    have hstop := dropTooLateLoop_stops now thresh sb.size.toNat
      (r := ⟨sb, 0, sb.startSeq, 0⟩) (by show sb.size ≤ _; omega)
    have hsize := hholds.size_eq
    rw [hholds.headExpired_eq hlt] at hstop
    simpa using fun hexpired => hstop ⟨by omega, hexpired⟩
  · rintro r hsize hexpired ⟨d, hall, hholds, hdropped, hfirst, -⟩
    have hlt := hholds.lt_of_size_pos hsize
    rw [hholds.headExpired_eq hlt] at hexpired
    refine ⟨d + 1, fun p hs hp => ?_, hholds.release hlt, congrArg (· + 1) hdropped, hfirst,
      fun _ => hholds.startSeq_eq⟩
    rcases Nat.lt_succ_iff_lt_or_eq.mp hp with hp | rfl
    · exact hall p hs hp
    · exact hexpired

theorem push_some (hpush : sb.push p sentAt = some sb') : sb'.len = sb.len ∧
      Holds sb' (Function.update cell n { pkt := p, used := true, sentAt := sentAt }) s
        (n + 1) := by
  have hroom : n < s + sb.len := by
    by_contra hfull
    have hsize := h.size_eq
    have hle := h.start_le
    rw [SendBuffer.push, if_pos (by omega)] at hpush
    exact absurd hpush (by simp)
  obtain ⟨sb'', hpush', hlen, hholds⟩ := h.push hroom p sentAt
  obtain rfl : sb'' = sb' := Option.some.inj (hpush'.symm.trans hpush)
  exact ⟨hlen, hholds⟩

theorem push_setMsgTTL (hpush : sb.push p sentAt = some sb') (ttl : ℤ) :
    (sb'.setMsgTTL ttl).len = sb.len ∧ Holds (sb'.setMsgTTL ttl)
      (Function.update cell n { pkt := p, used := true, sentAt := sentAt, msgTTL := ttl }) s
        (n + 1) := by
  obtain ⟨hlen, hpushed⟩ := h.push_some hpush
  have hle := h.start_le
  have hsize := hpushed.size_eq
  have hentry := hpushed.ring.inside n hle (Nat.lt_succ_self n)
  rw [Function.update_self] at hentry
  unfold setMsgTTL
  rw [if_neg (by omega), hpushed.nextSeq_eq, dec_wrap]
  simp only [hentry, if_true]
  have htagged := hpushed.setEntry hle (Nat.lt_succ_self n)
    (e := { pkt := p, used := true, sentAt := sentAt, msgTTL := ttl }) rfl
  rw [Function.update_idem] at htagged
  exact ⟨hlen, htagged⟩

theorem setMsgTTL_same (ttl : ℤ) : ∃ cell', SamePackets cell cell' ∧
    Holds (sb.setMsgTTL ttl) cell' s n := by
  unfold setMsgTTL
  by_cases hsize : sb.size = 0
  · rw [if_pos hsize]
    exact ⟨cell, fun _ => rfl, h⟩
  · rw [if_neg hsize]
    by_cases hused : (sb.entries (sb.index (dec sb.nextSeq))).used = true
    · rw [if_pos hused]
      exact h.note hused (e := { sb.entries (sb.index (dec sb.nextSeq)) with msgTTL := ttl }) hused
        rfl
        fun _ => rfl
    · rw [if_neg hused]
      exact ⟨cell, fun _ => rfl, h⟩

end

theorem timely_of_le {s' n' : ℕ} {now thresh : ℤ} (h : Holds sb cell s n)
    (h' : Holds sb' cell s' n')
    (hs : s ≤ s') (hn : n' ≤ n) (htimely : sb.Timely now thresh) : sb'.Timely now thresh := by
  intro i _ hused
  obtain ⟨p, hps, hpn, -, heq⟩ := h'.exists_position hused
  have hinside : sb.entries (sb.index (wrap p)) = cell p := h.ring.inside p (by omega) (by omega)
  have := htimely (sb.index (wrap p)) (index_lt h.len_pos _)
  rw [hinside, ← heq] at this
  exact this hused

end Holds

end SrtGo.Buffer
