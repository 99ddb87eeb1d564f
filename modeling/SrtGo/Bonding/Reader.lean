import SrtGo.Lib.Bytes
import SrtGo.Lib.Run
import SrtGo.Seq

/-!
# Reading from a group

Every member of a group hands what it has read to one channel, and `Read` takes from there
what has not been delivered yet.  In broadcast and backup mode the copies of a message carry
the same sequence number, and the group remembers the last number that it has returned.

The comparison with this number is one of plain integers.  It drops every copy, and as long
as the numbers do not wrap it drops nothing else; after the wrap it drops everything.
-/

namespace SrtGo.Bonding

open Bytes SrtGo.Seq Run

inductive RecvResult where
  | message (seqNo : ℕ) (data : Bytes)
  | failure (err : String)

inductive ReadResult where
  | data (b : Bytes)
  | failed (err : String)
  | groupClosed
  /-- The channel is empty, and the call waits. -/
  | waits

/-- The receive side of a group.  The two logs are not kept by the code: the numbers that have
been returned, and those that have been dropped, each with the last one returned before. -/
structure Reader where
  rcvBaseSeqNo : ℤ := -1
  recvPackets : ℕ := 0
  recvDedups : ℕ := 0
  returned : List ℕ := []
  dropped : List (ℕ × ℕ) := []

namespace Reader

/-- One round of the loop of `Read`; there is no result when the loop goes on. -/
def consider (r : Reader) (allBroken : Bool) : RecvResult → Reader × Option ReadResult
  | .failure err => (r, if allBroken then some (.failed err) else none)
  | .message seqNo data =>
    let base := r.rcvBaseSeqNo
    if 0 ≤ base ∧ (seqNo : ℤ) - base ≤ 0 then
      ({ r with recvDedups := r.recvDedups + 1, dropped := r.dropped ++ [(base.toNat, seqNo)] },
        none)
    else
      ({ r with
          rcvBaseSeqNo := seqNo
          recvPackets := r.recvPackets + 1
          returned := r.returned ++ [seqNo] }, some (.data data))

def readLoop (allBroken : Bool) : List RecvResult → Reader → Reader × List RecvResult × ReadResult
  | [], r => (r, [], .waits)
  | res :: rest, r =>
    match r.consider allBroken res with
    | (r, some out) => (r, rest, out)
    | (r, none) => readLoop allBroken rest r

def read (r : Reader) (closed allBroken : Bool) (recvCh : List RecvResult) :
    Reader × List RecvResult × ReadResult :=
  if closed then (r, recvCh, .groupClosed) else readLoop allBroken recvCh r

end Reader

inductive ReadEvent where
  | deliver (res : RecvResult)
  | read (closed allBroken : Bool)

structure Inbox where
  reader : Reader := {}
  recvCh : List RecvResult := []

namespace Inbox

def step (x : Inbox) : ReadEvent → Inbox
  | .deliver res => { x with recvCh := x.recvCh ++ [res] }
  | .read closed allBroken =>
    let r := x.reader.read closed allBroken x.recvCh
    { reader := r.1, recvCh := r.2.1 }

/-- No number has been returned twice, and none has been dropped that is after the last one
returned. -/
structure Deduplicated (x : Inbox) : Prop where
  once : x.reader.returned.Nodup
  behind : ∀ d ∈ x.reader.dropped, lessThan d.1 d.2 = false

end Inbox

/-! ## Plain order -/

/-- The two numbers are ordered by value as they are in the wrap-aware order. -/
def Plain (a b : ℕ) : Prop := lessThan a b = decide (a < b)

instance (a b : ℕ) : Decidable (Plain a b) := inferInstanceAs (Decidable (_ = _))

def RecvResult.number? : RecvResult → Option ℕ
  | .message seqNo _ => some seqNo
  | .failure _ => none

/-- The numbers that a message may be compared with: the last one returned and those that wait. -/
def Inbox.numbers (x : Inbox) : List ℕ :=
  (if 0 ≤ x.reader.rcvBaseSeqNo then [x.reader.rcvBaseSeqNo.toNat] else []) ++
    x.recvCh.filterMap RecvResult.number?

/-- The number that a member delivers does not lie across the wrap from those before it. -/
def Inbox.Straight (x : Inbox) : ReadEvent → Prop
  | .deliver res => ∀ s, res.number? = some s → ∀ n ∈ x.numbers, Plain n s
  | .read _ _ => True

structure Reader.Sound (r : Reader) (recvCh : List RecvResult) : Prop where
  increasing : r.returned.Pairwise (· < ·)
  last : ∀ n ∈ r.returned, (n : ℤ) ≤ r.rcvBaseSeqNo
  behind : ∀ d ∈ r.dropped, lessThan d.1 d.2 = false
  plain : ((if 0 ≤ r.rcvBaseSeqNo then [r.rcvBaseSeqNo.toNat] else []) ++
    recvCh.filterMap RecvResult.number?).Pairwise Plain

namespace Reader

variable {r : Reader} {recvCh : List RecvResult}

theorem Sound.consider {res : RecvResult} (h : r.Sound (res :: recvCh)) (allBroken : Bool) :
    (r.consider allBroken res).1.Sound recvCh := by
  cases res with
  | failure err => exact { h with }
  | message seqNo data =>
    have hplain := h.plain
    simp only [List.filterMap_cons, RecvResult.number?] at hplain
    unfold Reader.consider
    simp only
    split_ifs with hold
    · -- dropped: by value the number is not after the last one
      rw [if_pos hold.1] at hplain
      have hless : lessThan r.rcvBaseSeqNo.toNat seqNo = false := by
        have hpair : Plain r.rcvBaseSeqNo.toNat seqNo :=
          (List.pairwise_cons.mp hplain).1 seqNo List.mem_cons_self
        rw [hpair]
        exact decide_eq_false (by omega)
      refine ⟨h.increasing, h.last, fun d hd => ?_, ?_⟩
      · rcases List.mem_append.mp hd with hbefore | hnew
        · exact h.behind d hbefore
        · obtain rfl := List.mem_singleton.mp hnew
          exact hless
      · simp only [if_pos hold.1]
        exact hplain.sublist (by simp)
    · have hafter : ∀ n ∈ r.returned, n < seqNo := by
        intro n hn
        have := h.last n hn
        omega
      refine ⟨?_, fun n hn => ?_, h.behind, ?_⟩
      · refine List.pairwise_append.mpr ⟨h.increasing, List.pairwise_singleton _ _,
          fun n hn k hk => ?_⟩
        obtain rfl := List.mem_singleton.mp hk
        exact hafter n hn
      · show (n : ℤ) ≤ seqNo
        rcases List.mem_append.mp hn with hbefore | hnew
        · have := hafter n hbefore
          omega
        · obtain rfl := List.mem_singleton.mp hnew
          exact le_rfl
      · simp only [Int.natCast_nonneg, if_true, Int.toNat_natCast]
        exact hplain.sublist (List.sublist_append_right _ _)

theorem Sound.readLoop (h : r.Sound recvCh) (allBroken : Bool) :
    (readLoop allBroken recvCh r).1.Sound (readLoop allBroken recvCh r).2.1 := by
  induction recvCh generalizing r with
  | nil => exact h
  | cons res rest ih =>
    have hnext := h.consider allBroken
    rw [Reader.readLoop]
    split
    · rename_i r' out heq
      rw [heq] at hnext
      exact hnext
    · rename_i r' heq
      rw [heq] at hnext
      exact ih hnext

end Reader

theorem Reader.Sound.step {x : Inbox} (h : x.reader.Sound x.recvCh) {e : ReadEvent}
    (he : x.Straight e) :
    (x.step e).reader.Sound (x.step e).recvCh := by
  cases e with
  | deliver res =>
    refine { h with plain := ?_ }
    show (_ ++ (x.recvCh ++ [res]).filterMap RecvResult.number?).Pairwise Plain
    rw [List.filterMap_append, ← List.append_assoc]
    refine List.pairwise_append.mpr ⟨h.plain, ?_, fun n hn s hs => ?_⟩
    · rw [List.filterMap_cons, List.filterMap_nil]
      split <;> simp
    · obtain ⟨a, ha, hnumber⟩ := List.mem_filterMap.mp hs
      obtain rfl := List.mem_singleton.mp ha
      exact he s hnumber n hn
  | read closed allBroken =>
    unfold Inbox.step Reader.read
    simp only
    split_ifs
    · exact h
    · exact h.readLoop allBroken

/-- As long as the members' numbers do not wrap, `Read` returns no number twice and drops none that
is after the last one returned. -/
theorem read_deduplicates (es : List ReadEvent) (hes : AllSteps Inbox.step Inbox.Straight {} es) :
    AllStates Inbox.step Inbox.Deduplicated {} es := by
  have hinit : Reader.Sound {} [] := ⟨by simp, by simp, by simp, by simp⟩
  refine (hes.allStates (Q := fun x => x.reader.Sound x.recvCh) (fun x e hx he => hx.step he)
    hinit).mono ?_
  exact fun x hx => ⟨hx.increasing.imp (fun hlt => hlt.ne), hx.behind⟩

/-- Two links deliver the numbers 5 and 6; the second copies are dropped. -/
theorem read_deduplicates_copies :
    let x := exec Inbox.step {} [.deliver (.message 5 [1]), .deliver (.message 5 [1]),
      .read false false,
      .deliver (.message 6 [2]), .deliver (.message 6 [2]), .read false false, .read false false]
    x.Deduplicated ∧ x.reader.returned = [5, 6] ∧ x.reader.dropped = [(5, 5), (6, 6)] := by
  refine ⟨(read_deduplicates _ ?_).exec, by decide, by decide⟩
  simp only [AllSteps, Inbox.Straight, RecvResult.number?, Option.some.injEq, forall_eq',
    true_and, and_true]
  decide

/-- The last number before the wrap has been returned, and the first one after it is dropped. -/
theorem number_after_wrap_dropped :
    ¬AllStates Inbox.step Inbox.Deduplicated {} [.deliver (.message (2 ^ 31 - 1) [1]),
      .read false false, .deliver (.message 0 [2]), .read false false] := by
  intro h
  have hdropped := h.exec.behind (2 ^ 31 - 1, 0) (by decide)
  exact absurd hdropped (by decide)

end SrtGo.Bonding
