import Mathlib.Tactic

/-!
# 31-bit sequence numbers

SRT numbers its packets with unsigned 31-bit integers that wrap from
`0x7FFFFFFF` back to `0`.  A `Number` is held in a 32-bit word, so the model
keeps it as a natural number and reduces modulo `2 ^ 32` where the source's
arithmetic can leave the word; the conversions to `int32` are explicit too,
because a control packet may name a sequence number whose top bit is set.

The second half of the file says what these operations mean.  A connection only
ever moves forward, so every sequence number it holds is `wrap p` for some
position `p : ℕ` that never wraps, and as long as two positions are less than
`2 ^ 30` apart the wrap-aware comparison of their numbers is the comparison of
the positions themselves.
-/

namespace SrtGo.Seq

def maxNumber : ℕ := 0x7FFFFFFF

/-- Half of the sequence space: beyond it the order inverts. -/
def threshold : ℕ := 0x3FFFFFFF

/-- A word that holds a sequence number: its top bit is clear. -/
structure Valid (a : ℕ) : Prop where
  lt : a < 2 ^ 31

instance (a : ℕ) : Decidable (Valid a) :=
  decidable_of_iff (a < 2 ^ 31) ⟨Valid.mk, Valid.lt⟩

def int32 (n : ℕ) : ℤ :=
  if n % 2 ^ 32 < 2 ^ 31 then (n % 2 ^ 32 : ℕ) else (n % 2 ^ 32 : ℕ) - 2 ^ 32

def uint32 (z : ℤ) : ℕ := (z % 2 ^ 32).toNat

def inc (a : ℕ) : ℕ :=
  if a ≥ maxNumber then 0 else a + 1

def dec (a : ℕ) : ℕ :=
  if a = 0 then maxNumber else a - 1

/-- `a + n` with wrapping; the sum is taken in a 32-bit word first. -/
def add (a : ℕ) (n : ℕ) : ℕ :=
  let sum := (a + n) % 2 ^ 32
  if sum > maxNumber then sum - (maxNumber + 1) else sum

def sub (a : ℕ) (n : ℕ) : ℕ :=
  if a ≥ n then a - n else (maxNumber + 1 + 2 ^ 32 - (n - a)) % 2 ^ 32

/-- The signed distance from `a` to `b`, positive when `b` is ahead. -/
def distance (a b : ℕ) : ℤ :=
  if a = b then 0
  else
    let d := if b > a then b - a else a - b
    if d ≤ threshold then
      if b > a then int32 d else -int32 d
    else
      -- the subtraction from `Max` wraps in the 32-bit word
      let wrapped := (maxNumber + 2 ^ 32 - d + 1) % 2 ^ 32
      if b > a then -int32 wrapped else int32 wrapped

def lessThan (a b : ℕ) : Bool :=
  if a = b then false
  else if a > b then
    if a - b ≤ threshold then false else true
  else
    if b - a ≤ threshold then true else false

def lessThanOrEqual (a b : ℕ) : Bool := a = b || lessThan a b

def greaterThan (a b : ℕ) : Bool := if a = b then false else !lessThan a b

/-- How many increments lead from `a` to `b`: the loops of the source that count
a sequence number up to a bound run at most this often. -/
def ahead (a b : ℕ) : ℕ := (b + (2 ^ 31 - a)) % 2 ^ 31

/-- The source's loop `for s.LessThan(limit) { if stop(s) { break }; s = s.Inc() }`:
the number at which it ends. -/
def scan (stop : ℕ → Bool) (limit : ℕ) : ℕ → ℕ → ℕ
  | 0, s => s
  | fuel + 1, s =>
    if lessThan s limit then
      if stop s then s else scan stop limit fuel (inc s)
    else s

/-! ## Positions -/

/-- The sequence number carried by position `p` of a stream. -/
def wrap (p : ℕ) : ℕ := p % 2 ^ 31

theorem wrap_lt (p : ℕ) : wrap p < 2 ^ 31 := by
  unfold wrap
  exact Nat.mod_lt _ (by norm_num)

variable {p q : ℕ}

theorem wrap_of_lt (hp : p < 2 ^ 31) : wrap p = p := by
  unfold wrap
  exact Nat.mod_eq_of_lt hp

@[simp] theorem wrap_add_period (p : ℕ) : wrap (p + 2 ^ 31) = wrap p := by
  unfold wrap
  omega

@[simp] theorem inc_wrap (p : ℕ) : inc (wrap p) = wrap (p + 1) := by
  unfold inc wrap maxNumber
  split_ifs <;> omega

theorem inc_iterate_wrap (j p : ℕ) : inc^[j] (wrap p) = wrap (p + j) := by
  induction j with
  | zero => rfl
  | succ j ih => rw [Function.iterate_succ_apply', ih, inc_wrap, Nat.add_assoc]

@[simp] theorem dec_wrap (p : ℕ) : dec (wrap (p + 1)) = wrap p := by
  unfold dec wrap maxNumber
  split_ifs <;> omega

theorem add_wrap (p n : ℕ) : add (wrap p) n = wrap (p + n) := by
  unfold add wrap maxNumber
  simp only
  split_ifs <;> omega

theorem eq_of_wrap_eq (h : wrap p = wrap q) (hpq : p < q + 2 ^ 31) (hqp : q < p + 2 ^ 31) :
    p = q := by
  unfold wrap at h
  omega

/-- The distance of two numbers is the difference of their positions, within
half of the sequence space. -/
theorem distance_wrap (hpq : p < q + 2 ^ 30) (hqp : q < p + 2 ^ 30) :
    distance (wrap p) (wrap q) = (q : ℤ) - p := by
  unfold distance wrap threshold maxNumber int32
  simp only
  split_ifs <;> omega

theorem lessThan_wrap (hpq : p < q + 2 ^ 30) (hqp : q < p + 2 ^ 30) :
    lessThan (wrap p) (wrap q) = decide (p < q) := by
  unfold lessThan wrap threshold
  rw [Bool.eq_iff_iff]
  split_ifs <;> simp <;> omega

theorem lt_of_lessThan_wrap (h : lessThan (wrap p) (wrap q) = true) (hpq : p < q + 2 ^ 30) :
    p < q := by
  unfold lessThan wrap threshold at h
  split_ifs at h <;> simp at h <;> omega

theorem ahead_wrap (hpq : p ≤ q) (hqp : q < p + 2 ^ 31) : ahead (wrap p) (wrap q) = q - p := by
  unfold ahead wrap
  omega

def unwrap (b n : ℕ) : ℕ := b + ahead (wrap b) n

variable {b a : ℕ}

theorem unwrap_wrap (hb : b ≤ q) (hq : q < b + 2 ^ 31) : unwrap b (wrap q) = q := by
  rw [unwrap, ahead_wrap hb hq]
  omega

theorem greaterThan_wrap (hpq : p < q + 2 ^ 30) (hqp : q < p + 2 ^ 30) :
    greaterThan (wrap p) (wrap q) = decide (q < p) := by
  unfold greaterThan
  split_ifs with heq
  · obtain rfl := eq_of_wrap_eq heq (by omega) (by omega)
    exact (decide_eq_false (lt_irrefl p)).symm
  · rw [lessThan_wrap hpq hqp, ← decide_not]
    have hne : p ≠ q := fun h => heq (h ▸ rfl)
    exact decide_eq_decide.mpr (by omega)

/-- A scan between two positions ends at the first position that stops it, or at
the limit. -/
theorem exists_scan_eq (stop : ℕ → Bool) (hpq : p ≤ q) (hqp : q < p + 2 ^ 30) :
    ∃ r, p ≤ r ∧ r ≤ q ∧ scan stop (wrap q) (q - p) (wrap p) = wrap r ∧
      (∀ x, p ≤ x → x < r → stop (wrap x) = false) ∧ (r < q → stop (wrap r) = true) := by
  induction hfuel : q - p generalizing p with
  | zero => exact ⟨p, by omega, hpq, rfl, fun x hx hx' => by omega, fun hlt => by omega⟩
  | succ fuel ih =>
    have hlt : lessThan (wrap p) (wrap q) = true := by
      rw [lessThan_wrap (by omega) (by omega)]
      exact decide_eq_true (by omega)
    cases hstop : stop (wrap p) with
    | true =>
      refine ⟨p, le_rfl, hpq, ?_, fun x hx hx' => by omega, fun _ => hstop⟩
      simp [scan, hlt, hstop]
    | false =>
      obtain ⟨r, hpr, hrq, hscan, hbefore, hat⟩ :=
        ih (p := p + 1) (by omega) (by omega) (by omega)
      refine ⟨r, by omega, hrq, ?_, fun x hx hx' => ?_, hat⟩
      · simpa [scan, hlt, hstop] using hscan
      · rcases Nat.eq_or_lt_of_le hx with rfl | hlt'
        · exact hstop
        · exact hbefore x (by omega) hx'

theorem exists_scan_le (stop : ℕ → Bool) {limit fuel r : ℕ} (hpr : p ≤ r) (hfuel : r - p ≤ fuel)
    (hless : ∀ x, p ≤ x → x ≤ r → lessThan (wrap x) limit = true) (hstop : stop (wrap r) = true) :
    ∃ x, p ≤ x ∧ x ≤ r ∧ scan stop limit fuel (wrap p) = wrap x := by
  induction fuel generalizing p with
  | zero => exact ⟨p, le_rfl, hpr, rfl⟩
  | succ fuel ih =>
    rw [scan, if_pos (hless p le_rfl hpr)]
    split_ifs with hhere
    · exact ⟨p, le_rfl, hpr, rfl⟩
    · have hne : p ≠ r := fun heq => hhere (heq ▸ hstop)
      obtain ⟨x, hx, hx', hscan⟩ := ih (p := p + 1) (by omega) (by omega) fun x hx =>
        hless x (by omega)
      rw [inc_wrap]
      exact ⟨x, by omega, hx', hscan⟩

theorem lessThan_asymm (h : lessThan a b = true) : lessThan b a = false := by
  unfold lessThan at *
  split_ifs at * <;> first | rfl | omega

theorem lessThan_iff_distance_pos (ha : Valid a) (hb : Valid b) : lessThan a b = true ↔
    0 < distance a b := by
  have ha := ha.lt
  have hb := hb.lt
  unfold distance lessThan threshold maxNumber int32
  simp only
  split_ifs <;> simp <;> omega

/-- Counting `ahead a b` numbers on from `a` leads to `b`; when `b` compares as
later than `a` this is at most half of the sequence space. -/
theorem wrap_add_ahead (p : ℕ) (hb : Valid b) : wrap (p + ahead (wrap p) b) = b := by
  have hb := hb.lt
  unfold ahead wrap
  omega

theorem ahead_of_lessThan (ha : Valid a) (hb : Valid b) (h : lessThan a b = true) :
    0 < ahead a b ∧ ahead a b ≤ 2 ^ 30 := by
  have ha := ha.lt
  have hb := hb.lt
  unfold lessThan threshold at h
  unfold ahead
  split_ifs at h <;> omega

theorem ahead_eq_distance (ha : Valid a) (hb : Valid b) (h : lessThan a b = true) :
    (ahead a b : ℤ) = distance a b := by
  have ha := ha.lt
  have hb := hb.lt
  unfold lessThan threshold at h
  unfold ahead distance threshold maxNumber int32
  simp only
  split_ifs at h ⊢ <;> omega

theorem distance_le (ha : Valid a) (hb : Valid b) : distance a b ≤ 2 ^ 30 := by
  have ha := ha.lt
  have hb := hb.lt
  unfold distance threshold maxNumber int32
  simp only
  split_ifs <;> omega

theorem wrap_add_distance (p : ℕ) (hb : Valid b) (h : 0 ≤ distance (wrap p) b) :
    wrap (p + (distance (wrap p) b).toNat) = b := by
  have hb := hb.lt
  unfold distance threshold maxNumber int32 at *
  simp only at *
  unfold wrap at *
  split_ifs at * <;> omega

theorem valid_wrap (p : ℕ) : Valid (wrap p) := ⟨wrap_lt p⟩

theorem lessThan_self (a : ℕ) : lessThan a a = false := by
  simp [lessThan]

/-! ## The arithmetic as a whole -/

theorem sub_add {n : ℕ} (ha : Valid a) (hn : n < 2 ^ 31) : sub (add a n) n = a := by
  have ha := ha.lt
  rw [← wrap_of_lt ha, add_wrap]
  unfold sub wrap maxNumber
  split_ifs <;> omega

theorem inc_dec (ha : Valid a) : inc (dec a) = a := by
  have ha := ha.lt
  unfold inc dec maxNumber
  split_ifs <;> omega

theorem distance_swap (ha : Valid a) (hb : Valid b) : distance b a = -distance a b := by
  have ha := ha.lt
  have hb := hb.lt
  unfold distance threshold maxNumber int32
  simp only
  split_ifs <;> omega

theorem add_distance (ha : Valid a) (hb : Valid b) : add a (uint32 (distance a b)) = b := by
  have ha := ha.lt
  have hb := hb.lt
  unfold add uint32 distance threshold maxNumber int32
  simp only
  split_ifs <;> omega

/-- **The arithmetic of sequence numbers is coherent.** -/
theorem sequence_arithmetic_coherent {a b : ℕ} (ha : Valid a) (hb : Valid b) :
    (∀ n < 2 ^ 32, add a n = (a + n) % 2 ^ 31) ∧ (∀ n < 2 ^ 31, sub (add a n) n = a) ∧
    (inc a = add a 1 ∧ dec (inc a) = a ∧ inc (dec a) = a) ∧
    (a = b ∧ lessThan a b = false ∧ lessThan b a = false ∨ a ≠ b ∧ lessThan a b = true ∧
      lessThan b a = false ∨
      a ≠ b ∧ lessThan a b = false ∧ lessThan b a = true) ∧
    (lessThan a b = true ↔ 0 < distance a b) ∧ distance b a = -distance a b ∧
    add a (uint32 (distance a b)) = b ∧
    ∀ i < 2 ^ 30, ∀ j < 2 ^ 30, lessThan (add a i) (add a j) = decide (i < j) ∧
      distance (add a i) (add a j) = (j : ℤ) - i ∧
      ∀ k < 2 ^ 30, lessThan (add a i) (add a j) = true → lessThan (add a j) (add a k) = true →
        lessThan (add a i) (add a k) = true := by
  have hpos := wrap_of_lt ha.lt
  have hless : ∀ i < 2 ^ 30, ∀ j < 2 ^ 30, lessThan (add a i) (add a j) = decide (i < j) := by
    intro i hi j hj
    rw [← hpos, add_wrap, add_wrap, lessThan_wrap (by omega) (by omega)]
    exact decide_eq_decide.mpr (by omega)
  refine ⟨fun n _ => ?_, fun n hn => sub_add ha hn, ⟨?_, ?_, inc_dec ha⟩, ?_,
    lessThan_iff_distance_pos ha hb,
    distance_swap ha hb, add_distance ha hb, fun i hi j hj => ⟨hless i hi j hj, ?_,
      fun k hk hij hjk => ?_⟩⟩
  · rw [← hpos, add_wrap]
    unfold wrap
    omega
  · rw [← hpos, inc_wrap, add_wrap]
  · rw [← hpos, inc_wrap, dec_wrap]
  · unfold lessThan
    split_ifs <;> simp <;> omega
  · rw [← hpos, add_wrap, add_wrap, distance_wrap (by omega) (by omega)]
    push_cast
    ring
  · rw [hless i hi j hj, decide_eq_true_eq] at hij
    rw [hless j hj k hk, decide_eq_true_eq] at hjk
    rw [hless i hi k hk]
    exact decide_eq_true (hij.trans hjk)

/-- Numbers on both sides of the wrap. -/
theorem sequence_arithmetic_coherent_at_wrap :
    lessThan 0x7FFFFFFF 0 = true ∧ (lessThan 0x7FFFFFFF 0 = true ↔ 0 < distance 0x7FFFFFFF 0) :=
  ⟨by decide, (sequence_arithmetic_coherent (a := 0x7FFFFFFF) (b := 0) ⟨by decide⟩ ⟨by
    decide⟩).2.2.2.2.1⟩

end SrtGo.Seq
