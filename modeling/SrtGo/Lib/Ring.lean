import Mathlib.Data.Nat.Bitwise
import Mathlib.Data.Nat.Log
import Mathlib.Tactic

/-!
# Sliding windows over a ring of slots

A ring of slots is reused over and over by a window of positions that only
moves forward.  `Represents` says that the ring shows exactly the contents of
the window: the slot of a position inside it holds that position's value, and
every other slot is blank.  What makes this work is that the slot map separates
the positions of any window of a given width (`Separates`); the three things a
window does (grow at the back, overwrite one position, leave the front
position behind) then keep the representation.

The second part is about the power of two that such a ring is usually sized to:
or-ing a number with its own right shifts fills every bit below the highest one
(`smear_eq`), so that the number plus one is a power of two.
-/

namespace SrtGo.Ring

/-! ## The slot map -/

/-- `slot` gives different slots to different positions that are less than
`width` apart. -/
def Separates (slot : ℕ → ℕ) (width : ℕ) : Prop :=
  ∀ p q, p < q + width → q < p + width → slot p = slot q → p = q

theorem separates_mod (len : ℕ) : Separates (fun p => p % len) len := by
  intro p q hpq hqp hslot
  rcases le_total p q with hle | hle
  · have hdvd : len ∣ q - p := (Nat.modEq_iff_dvd' hle).mp hslot
    have := Nat.eq_zero_of_dvd_of_lt hdvd (by omega)
    omega
  · have hdvd : len ∣ p - q := (Nat.modEq_iff_dvd' hle).mp hslot.symm
    have := Nat.eq_zero_of_dvd_of_lt hdvd (by omega)
    omega

/-! ## Windows -/

variable {α : Type*} {slot : ℕ → ℕ} {width : ℕ}

/-- The ring shows the values `cell p` of the positions `lo ≤ p < hi`, and is
blank everywhere else. -/
structure Represents (slot : ℕ → ℕ) (blank : α) (ring : ℕ → α) (cell : ℕ → α)
    (lo hi : ℕ) : Prop where
  inside : ∀ p, lo ≤ p → p < hi → ring (slot p) = cell p
  outside : ∀ i, (∀ p, lo ≤ p → p < hi → slot p ≠ i) → ring i = blank

variable {blank : α} {ring : ℕ → α} {cell : ℕ → α} {lo hi : ℕ}

theorem Represents.empty (slot : ℕ → ℕ) (blank : α) (cell : ℕ → α) (lo : ℕ) :
    Represents slot blank (fun _ => blank) cell lo lo :=
  ⟨fun p hlo hhi => absurd hhi (by omega), fun _ _ => rfl⟩

section

variable (h : Represents slot blank ring cell lo hi) (hsep : Separates slot width) {p : ℕ}

include h hsep

theorem Represents.ahead (hp : hi ≤ p) (hwidth : p < lo + width) : ring (slot p) = blank := by
  refine h.outside _ fun q hlo hhi hslot => ?_
  have := hsep q p (by omega) (by omega) hslot
  omega

theorem Represents.grow {top : ℕ} (htop : hi ≤ top) (hwidth : top ≤ lo + width)
    (hblank : ∀ p, hi ≤ p → p < top → cell p = blank) : Represents slot blank ring cell lo top := by
  refine ⟨fun p hlo hp => ?_, fun i hi' => h.outside i fun p hlo hp => hi' p hlo (by omega)⟩
  rcases lt_or_ge p hi with hin | hout
  · exact h.inside p hlo hin
  · rw [hblank p hout hp]
    exact h.ahead hsep hout (by omega)

theorem Represents.update (hwidth : hi ≤ lo + width) (hlo : lo ≤ p) (hhi : p < hi) (value : α) :
    Represents slot blank (Function.update ring (slot p) value)
      (Function.update cell p value) lo hi := by
  refine ⟨fun q hq hq' => ?_, fun i hi' => ?_⟩
  · by_cases hqp : q = p
    · subst hqp; simp
    · have hne : slot q ≠ slot p := fun heq => hqp (hsep q p (by omega) (by omega) heq)
      rw [Function.update_of_ne hne, Function.update_of_ne hqp]
      exact h.inside q hq hq'
  · rw [Function.update_of_ne (hi' p hlo hhi).symm]
    exact h.outside i hi'

theorem Represents.push (hle : lo ≤ hi) (hwidth : hi < lo + width) (value : α) :
    Represents slot blank (Function.update ring (slot hi) value)
      (Function.update cell hi value) lo (hi + 1) := by
  refine ⟨fun q hq hq' => ?_, fun i hi' => ?_⟩
  · by_cases hqp : q = hi
    · subst hqp; simp
    · have hne : slot q ≠ slot hi := fun heq => hqp (hsep q hi (by omega) (by omega) heq)
      rw [Function.update_of_ne hne, Function.update_of_ne hqp]
      exact h.inside q hq (by omega)
  · rw [Function.update_of_ne (hi' hi hle (by omega)).symm]
    exact h.outside i fun p hlo hp => hi' p hlo (by omega)

theorem Represents.popFront (hwidth : hi ≤ lo + width) :
    Represents slot blank (Function.update ring (slot lo) blank) cell (lo + 1) hi := by
  refine ⟨fun q hq hq' => ?_, fun i hi' => ?_⟩
  · have hne : slot q ≠ slot lo := fun heq => by
      have := hsep q lo (by omega) (by omega) heq
      omega
    rw [Function.update_of_ne hne]
    exact h.inside q (by omega) hq'
  · by_cases hslot : i = slot lo
    · rw [hslot, Function.update_self]
    · rw [Function.update_of_ne hslot]
      refine h.outside i fun p hlo hp => ?_
      rcases Nat.eq_or_lt_of_le hlo with rfl | hlt'
      · exact fun heq => hslot heq.symm
      · exact hi' p (by omega) hp

end

/-! ## Rounding up to a power of two -/

def smearBy (shift n : ℕ) : ℕ := n ||| n >>> shift

/-- Every bit of `n` copied onto the 31 positions below it. -/
def smear (n : ℕ) : ℕ := smearBy 16 (smearBy 8 (smearBy 4 (smearBy 2 (smearBy 1 n))))

private theorem testBit_smearBy {n m width : ℕ}
    (h : ∀ j, n.testBit j = true ↔ ∃ i < width, m.testBit (j + i) = true) (j : ℕ) :
    (smearBy width n).testBit j = true ↔ ∃ i < 2 * width, m.testBit (j + i) = true := by
  simp only [smearBy, Nat.testBit_or, Nat.testBit_shiftRight, Bool.or_eq_true, h]
  constructor
  · rintro (⟨i, hi, hbit⟩ | ⟨i, hi, hbit⟩)
    · exact ⟨i, by omega, hbit⟩
    · exact ⟨width + i, by omega, by rwa [← Nat.add_assoc, Nat.add_comm j width]⟩
  · rintro ⟨i, hi, hbit⟩
    rcases lt_or_ge i width with hlt | hge
    · exact Or.inl ⟨i, hlt, hbit⟩
    · refine Or.inr ⟨i - width, by omega, ?_⟩
      rwa [show width + j + (i - width) = j + i by omega]

theorem testBit_smear (n j : ℕ) :
    (smear n).testBit j = true ↔ ∃ i < 32, n.testBit (j + i) = true := by
  have h0 : ∀ j, n.testBit j = true ↔ ∃ i < 1, n.testBit (j + i) = true := by
    intro j
    constructor
    · exact fun hbit => ⟨0, by omega, hbit⟩
    · rintro ⟨i, hi, hbit⟩
      rwa [show i = 0 by omega] at hbit
  exact testBit_smearBy (testBit_smearBy (testBit_smearBy (testBit_smearBy
    (testBit_smearBy h0)))) j

theorem le_smear (n : ℕ) : n ≤ smear n := by
  have hstep : ∀ shift m : ℕ, m ≤ smearBy shift m := fun shift m => Nat.left_le_or
  exact (hstep 1 n).trans ((hstep 2 _).trans ((hstep 4 _).trans ((hstep 8 _).trans
    (hstep 16 _))))

/-- Smearing a nonzero 32-bit number fills every bit below its highest one. -/
theorem smear_eq {n : ℕ} (hpos : 0 < n) (hn : n < 2 ^ 32) :
    smear n = 2 ^ (Nat.log 2 n + 1) - 1 := by
  have hlow : 2 ^ Nat.log 2 n ≤ n := Nat.pow_log_le_self 2 hpos.ne'
  have hhigh : n < 2 ^ (Nat.log 2 n + 1) := Nat.lt_pow_succ_log_self (by norm_num) n
  have htop : n.testBit (Nat.log 2 n) = true := by
    rw [Nat.testBit_eq_decide_div_mod_eq]
    have hquot : n / 2 ^ Nat.log 2 n = 1 :=
      Nat.div_eq_of_lt_le (by omega) (by rw [pow_succ] at hhigh; omega)
    simp [hquot]
  have hlog : Nat.log 2 n < 32 := Nat.log_lt_of_lt_pow hpos.ne' hn
  refine Nat.eq_of_testBit_eq fun j => ?_
  rw [Bool.eq_iff_iff, testBit_smear, Nat.testBit_two_pow_sub_one, decide_eq_true_eq]
  constructor
  · rintro ⟨i, -, hbit⟩
    by_contra hj
    have hlt : n < 2 ^ (j + i) :=
      hhigh.trans_le (Nat.pow_le_pow_right (by norm_num) (by omega))
    rw [Nat.testBit_lt_two_pow hlt] at hbit
    exact absurd hbit (by simp)
  · intro hj
    exact ⟨Nat.log 2 n - j, by omega, by rwa [show j + (Nat.log 2 n - j) = Nat.log 2 n by omega]⟩

end SrtGo.Ring
