import Mathlib.Tactic

/-!
# Byte strings

Numbers in network byte order, and byte-wise exclusive or.  `putBE k n` writes
the low `k` bytes of `n`, the most significant one first, and `readBE` reads a
whole byte string back; the two are inverse to each other up to the width.
-/

namespace SrtGo

abbrev Bytes := List UInt8

namespace Bytes

/-! ## Network byte order -/

/-- The low `k` bytes of `n`, most significant first. -/
def putBE : ℕ → ℕ → Bytes
  | 0, _ => []
  | k + 1, n => UInt8.ofNat (n / 256 ^ k) :: putBE k n

def readBE : Bytes → ℕ
  | [] => 0
  | b :: bs => b.toNat * 256 ^ bs.length + readBE bs

@[simp] theorem length_putBE (k n : ℕ) : (putBE k n).length = k := by
  induction k with
  | zero => rfl
  | succ k ih => simp [putBE, ih]

theorem readBE_putBE (k n : ℕ) : readBE (putBE k n) = n % 256 ^ k := by
  induction k with
  | zero => simp [putBE, readBE, Nat.mod_one]
  | succ k ih =>
    have hbyte : (UInt8.ofNat (n / 256 ^ k)).toNat = n / 256 ^ k % 256 := by
      simp [UInt8.toNat_ofNat']
    rw [putBE, readBE, length_putBE, ih, hbyte, pow_succ, Nat.mod_mul]
    ring

theorem readBE_lt (b : Bytes) : readBE b < 256 ^ b.length := by
  induction b with
  | nil => simp [readBE]
  | cons b bs ih =>
    have hb : b.toNat < 256 := b.toNat_lt
    rw [readBE, List.length_cons, pow_succ]
    calc b.toNat * 256 ^ bs.length + readBE bs
        < b.toNat * 256 ^ bs.length + 256 ^ bs.length := by omega
      _ = (b.toNat + 1) * 256 ^ bs.length := by ring
      _ ≤ 256 * 256 ^ bs.length := Nat.mul_le_mul_right _ hb
      _ = 256 ^ bs.length * 256 := by ring

theorem readBE_append (a b : Bytes) : readBE (a ++ b) = readBE a * 256 ^ b.length + readBE b := by
  induction a with
  | nil => simp [readBE]
  | cons x a ih =>
    rw [List.cons_append, readBE, readBE, ih, List.length_append, pow_add]
    ring

theorem putBE_mod (k n : ℕ) : putBE k (n % 256 ^ k) = putBE k n := by
  induction k generalizing n with
  | zero => rfl
  | succ k ih =>
    have hdiv : n % 256 ^ (k + 1) / 256 ^ k = n / 256 ^ k % 256 := by
      rw [pow_succ, Nat.mod_mul_right_div_self]
    have hlow : putBE k (n % 256 ^ (k + 1)) = putBE k n := by
      rw [← ih (n % 256 ^ (k + 1)), ← ih n, pow_succ, Nat.mod_mul_right_mod]
    rw [putBE, putBE, hdiv, hlow]
    congr 1
    apply UInt8.toNat_inj.mp
    simp [UInt8.toNat_ofNat']

theorem putBE_readBE (b : Bytes) : putBE b.length (readBE b) = b := by
  induction b with
  | nil => rfl
  | cons b bs ih =>
    have hlt := readBE_lt bs
    have hhigh : (b.toNat * 256 ^ bs.length + readBE bs) / 256 ^ bs.length = b.toNat := by
      rw [Nat.add_comm, Nat.add_mul_div_right _ _ (by positivity), Nat.div_eq_of_lt hlt,
        Nat.zero_add]
    have hlow : putBE bs.length (b.toNat * 256 ^ bs.length + readBE bs) = bs := by
      rw [← putBE_mod, Nat.mul_add_mod_self_right, putBE_mod, ih]
    rw [List.length_cons, readBE, putBE, hhigh, hlow]
    simp

theorem putBE_inj {n m : ℕ} (hn : n < 2 ^ 32) (hm : m < 2 ^ 32) (h : putBE 4 n = putBE 4 m) :
    n = m := by
  have hread := congrArg readBE h
  rw [readBE_putBE, readBE_putBE] at hread
  omega

/-! ## Exclusive or -/

/-- The exclusive or of the first bytes of `data` with `mask`, as far as `mask`
reaches; the rest of `data` stays. -/
def xorInto : Bytes → Bytes → Bytes
  | [], _ => []
  | data, [] => data
  | d :: data, m :: mask => (d ^^^ m) :: xorInto data mask

@[simp] theorem length_xorInto (data mask : Bytes) :
    (xorInto data mask).length = data.length := by
  induction data generalizing mask with
  | nil => rfl
  | cons d data ih =>
    cases mask with
    | nil => rfl
    | cons m mask => simp [xorInto, ih]

@[simp] theorem xorInto_xorInto (data mask : Bytes) :
    xorInto (xorInto data mask) mask = data := by
  induction data generalizing mask with
  | nil => rfl
  | cons d data ih =>
    cases mask with
    | nil => rfl
    | cons m mask =>
      rw [xorInto, xorInto, ih, UInt8.xor_assoc, UInt8.xor_self, UInt8.xor_zero]

theorem xorInto_nil (data : Bytes) : xorInto data [] = data := by
  cases data <;> rfl

theorem xorInto_append_of_le {data mask : Bytes} (h : data.length ≤ mask.length) (more : Bytes) :
    xorInto data (mask ++ more) = xorInto data mask := by
  induction data generalizing mask with
  | nil => rfl
  | cons d data ih =>
    cases mask with
    | nil => exact absurd h (by simp)
    | cons m mask => exact congrArg ((d ^^^ m) :: ·) (ih (Nat.le_of_succ_le_succ h))

theorem drop_xorInto (k : ℕ) (data mask : Bytes) :
    (xorInto data mask).drop k = xorInto (data.drop k) (mask.drop k) := by
  induction k generalizing data mask with
  | zero => rfl
  | succ k ih =>
    cases data with
    | nil => rfl
    | cons d data =>
      cases mask with
      | nil => rw [xorInto_nil, List.drop_nil, xorInto_nil]
      | cons m mask => exact ih data mask

theorem xorInto_injective (mask : Bytes) : Function.Injective fun data => xorInto data mask := by
  intro a b h
  have htwice := congrArg (fun data => xorInto data mask) h
  simpa using htwice

end Bytes

end SrtGo
