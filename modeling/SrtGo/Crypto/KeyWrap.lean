import SrtGo.Lib.Bytes

/-!
# Key wrap

Key material travels wrapped under a key-encryption key: six rounds over the
8-byte blocks of the plaintext, each step enciphering one block together with a
running check value.  The block cipher itself is not part of the repository; it
is a parameter (`Primitives`), and the one thing the wrap needs of it is that
deciphering undoes enciphering (`LawfulPrimitives`).
-/

namespace SrtGo.Crypto

open Bytes

/-- The cryptographic functions of the standard library.  `encrypt` and `decrypt`
are AES on one 16-byte block, `gcmSeal` and `gcmOpen` the authenticated mode, and
`pbkdf2` derives a key from a passphrase. -/
class Primitives where
  encrypt : Bytes → Bytes → Bytes
  decrypt : Bytes → Bytes → Bytes
  gcmSeal : (key nonce plaintext additional : Bytes) → Bytes
  gcmOpen : (key nonce ciphertext additional : Bytes) → Option Bytes
  pbkdf2 : (passphrase : String) → (salt : Bytes) → (keyLength : ℕ) → Bytes

/-- What is assumed of them: AES is a permutation of the 16-byte blocks under every
key, opening undoes sealing, a seal adds a tag of 16 bytes, and a derived key has the
length asked for. -/
class LawfulPrimitives [Primitives] : Prop where
  length_encrypt : ∀ key block : Bytes, block.length = 16 →
    (Primitives.encrypt key block).length = 16
  decrypt_encrypt : ∀ key block : Bytes, block.length = 16 →
    Primitives.decrypt key (Primitives.encrypt key block) = block
  gcmOpen_gcmSeal : ∀ key nonce plaintext additional : Bytes,
    Primitives.gcmOpen key nonce (Primitives.gcmSeal key nonce plaintext additional) additional =
      some plaintext
  length_gcmSeal : ∀ key nonce plaintext additional : Bytes,
    (Primitives.gcmSeal key nonce plaintext additional).length = plaintext.length + 16
  length_pbkdf2 : ∀ (passphrase : String) (salt : Bytes) (keyLength : ℕ),
    (Primitives.pbkdf2 passphrase salt keyLength).length = keyLength

def validKeySize (n : ℕ) : Bool := n = 16 || n = 24 || n = 32

def defaultIV : Bytes := List.replicate 8 0xA6

def blocks8 : ℕ → Bytes → List Bytes
  | 0, _ => []
  | n + 1, data => data.take 8 :: blocks8 n (data.drop 8)

def xorCounter (a : Bytes) (t : ℕ) : Bytes := putBE 8 (readBE a ^^^ t)

section Rounds

variable (enc dec : Bytes → Bytes)

/-- One round of wrapping over the blocks, with the counter of its first step. -/
def wrapRound : ℕ → Bytes → List Bytes → Bytes × List Bytes
  | _, a, [] => (a, [])
  | t, a, r :: rs =>
    let b := enc (a ++ r)
    let rest := wrapRound (t + 1) (xorCounter (b.take 8) t) rs
    (rest.1, b.drop 8 :: rest.2)

def unwrapRound : ℕ → Bytes → List Bytes → Bytes × List Bytes
  | _, a, [] => (a, [])
  | t, a, r :: rs =>
    let rest := unwrapRound (t + 1) a rs
    let b := dec (xorCounter rest.1 t ++ r)
    (b.take 8, b.drop 8 :: rest.2)

def wrapRounds (n : ℕ) : ℕ → Bytes × List Bytes → Bytes × List Bytes
  | 0, s => s
  | j + 1, s =>
    let s := wrapRounds n j s
    wrapRound enc (n * j + 1) s.1 s.2

def unwrapRounds (n : ℕ) : ℕ → Bytes × List Bytes → Bytes × List Bytes
  | 0, s => s
  | j + 1, s => unwrapRounds n j (unwrapRound dec (n * j + 1) s.1 s.2)

end Rounds

section
variable [Primitives]

def keyWrap (kek plaintext : Bytes) : Except String Bytes :=
  if plaintext.length % 8 ≠ 0 ∨ plaintext.length = 0 then
    .error "keywrap: plaintext must be a multiple of 8 bytes"
  else if !validKeySize kek.length then .error s!"crypto/aes: invalid key size {kek.length}"
  else
    let n := plaintext.length / 8
    let s := wrapRounds (Primitives.encrypt kek) n 6 (defaultIV, blocks8 n plaintext)
    .ok (s.1 ++ s.2.flatten)

def keyUnwrap (kek ciphertext : Bytes) : Except String Bytes :=
  if ciphertext.length % 8 ≠ 0 ∨ ciphertext.length < 16 then
    .error "keywrap: ciphertext must be a multiple of 8 bytes"
  else if !validKeySize kek.length then .error s!"crypto/aes: invalid key size {kek.length}"
  else
    let n := ciphertext.length / 8 - 1
    let s := unwrapRounds (Primitives.decrypt kek) n 6
      (ciphertext.take 8, blocks8 n (ciphertext.drop 8))
    if s.1 ≠ defaultIV then .error "keywrap: integrity check failed" else .ok s.2.flatten

end

/-! ## Unwrapping undoes wrapping -/

theorem length_xorCounter (a : Bytes) (t : ℕ) : (xorCounter a t).length = 8 :=
  length_putBE _ _

/-- The counter is cut to 64 bits, so that it cancels whatever its size. -/
theorem xorCounter_xorCounter {a : Bytes} (t : ℕ) (ha : a.length = 8) :
    xorCounter (xorCounter a t) t = a := by
  have hread : readBE a < 2 ^ 64 := by
    have := readBE_lt a
    rw [ha] at this
    norm_num at this ⊢
    exact this
  have hcut : (readBE a ^^^ t) % 2 ^ 64 ^^^ t % 2 ^ 64 = readBE a := by
    rw [← Nat.xor_mod_two_pow, Nat.xor_assoc, Nat.xor_self, Nat.xor_zero, Nat.mod_eq_of_lt hread]
  have hagain : (readBE (xorCounter a t) ^^^ t) % 256 ^ 8 = readBE a := by
    rw [xorCounter, readBE_putBE, show 256 ^ 8 = 2 ^ 64 by norm_num, Nat.xor_mod_two_pow,
      Nat.mod_mod, hcut]
  rw [xorCounter, ← putBE_mod, hagain, ← ha, putBE_readBE]

def WellSized (s : Bytes × List Bytes) : Prop := s.1.length = 8 ∧ ∀ r ∈ s.2, r.length = 8

section Inverse

variable {enc dec : Bytes → Bytes}
  (henc : ∀ b : Bytes, b.length = 16 → (enc b).length = 16)
  (hdec : ∀ b : Bytes, b.length = 16 → dec (enc b) = b)

include henc in
theorem wellSized_wrapRound (t : ℕ) (a : Bytes) (rs : List Bytes) (h : WellSized (a, rs)) :
    WellSized (wrapRound enc t a rs) ∧ (wrapRound enc t a rs).2.length = rs.length := by
  induction rs generalizing t a with
  | nil => exact ⟨h, rfl⟩
  | cons r rs ih =>
    have hblock : (enc (a ++ r)).length = 16 := by
      apply henc
      rw [List.length_append, h.1, h.2 r List.mem_cons_self]
    obtain ⟨hrest, hlen⟩ := ih (t + 1) (xorCounter ((enc (a ++ r)).take 8) t)
      ⟨length_xorCounter _ _, fun r' hr' => h.2 r' (List.mem_cons_of_mem _ hr')⟩
    refine ⟨⟨hrest.1, fun r' hr' => ?_⟩, by simp [wrapRound, hlen]⟩
    simp only [wrapRound, List.mem_cons] at hr'
    rcases hr' with rfl | hr'
    · simp [hblock]
    · exact hrest.2 r' hr'

include henc hdec in
theorem unwrapRound_wrapRound (t : ℕ) (a : Bytes) (rs : List Bytes) (h : WellSized (a, rs)) :
    unwrapRound dec t (wrapRound enc t a rs).1 (wrapRound enc t a rs).2 = (a, rs) := by
  induction rs generalizing t a with
  | nil => rfl
  | cons r rs ih =>
    have hsize : (a ++ r).length = 16 := by
      rw [List.length_append, h.1, h.2 r List.mem_cons_self]
    have hblock := henc _ hsize
    have hrest := ih (t + 1) (xorCounter ((enc (a ++ r)).take 8) t)
      ⟨length_xorCounter _ _, fun r' hr' => h.2 r' (List.mem_cons_of_mem _ hr')⟩
    have hhalf : ((enc (a ++ r)).take 8).length = 8 := by simp [hblock]
    simp only [wrapRound, unwrapRound, hrest, xorCounter_xorCounter t hhalf,
      List.take_append_drop, hdec _ hsize]
    rw [List.take_left' h.1, List.drop_left' h.1]

include henc in
theorem wellSized_wrapRounds (n j : ℕ) (s : Bytes × List Bytes) (h : WellSized s) :
    WellSized (wrapRounds enc n j s) ∧ (wrapRounds enc n j s).2.length = s.2.length := by
  induction j with
  | zero => exact ⟨h, rfl⟩
  | succ j ih =>
    obtain ⟨hsized, hlen⟩ := wellSized_wrapRound henc (n * j + 1) _ _ ih.1
    exact ⟨hsized, hlen.trans ih.2⟩

include henc hdec in
theorem unwrapRounds_wrapRounds (n j : ℕ) (s : Bytes × List Bytes) (h : WellSized s) :
    unwrapRounds dec n j (wrapRounds enc n j s) = s := by
  induction j with
  | zero => rfl
  | succ j ih =>
    have hsized := (wellSized_wrapRounds henc n j s h).1
    have hround := unwrapRound_wrapRound henc hdec (n * j + 1) _ _ hsized
    simp only [unwrapRounds, wrapRounds, hround]
    exact ih

end Inverse

/-! ## Blocks -/

theorem flatten_blocks8 (n : ℕ) (data : Bytes) (h : data.length = 8 * n) :
    (blocks8 n data).flatten = data := by
  induction n generalizing data with
  | zero => simpa [blocks8] using h
  | succ n ih =>
    rw [blocks8, List.flatten_cons, ih _ (by rw [List.length_drop]; omega), List.take_append_drop]

theorem blocks8_flatten (rs : List Bytes) (h : ∀ r ∈ rs, r.length = 8) (tail : Bytes) :
    blocks8 rs.length (rs.flatten ++ tail) = rs := by
  induction rs with
  | nil => rfl
  | cons r rs ih =>
    have hr := h r List.mem_cons_self
    rw [List.length_cons, blocks8, List.flatten_cons, List.append_assoc, List.take_left' hr,
      List.drop_left' hr, ih fun r' hr' => h r' (List.mem_cons_of_mem _ hr')]

theorem wellSized_blocks8 (n : ℕ) (data : Bytes) (h : data.length = 8 * n) :
    (∀ r ∈ blocks8 n data, r.length = 8) ∧ (blocks8 n data).length = n := by
  induction n generalizing data with
  | zero => simp [blocks8]
  | succ n ih =>
    obtain ⟨hall, hlen⟩ := ih (data.drop 8) (by rw [List.length_drop]; omega)
    refine ⟨fun r hr => ?_, by rw [blocks8, List.length_cons, hlen]⟩
    rw [blocks8, List.mem_cons] at hr
    rcases hr with rfl | hr
    · rw [List.length_take]; omega
    · exact hall r hr

theorem length_flatten_of_forall (rs : List Bytes) (h : ∀ r ∈ rs, r.length = 8) :
    rs.flatten.length = 8 * rs.length := by
  induction rs with
  | nil => rfl
  | cons r rs ih =>
    rw [List.flatten_cons, List.length_append, h r List.mem_cons_self,
      ih fun r' hr' => h r' (List.mem_cons_of_mem _ hr'), List.length_cons]
    omega

variable [Primitives]

theorem keyUnwrap_of_keyWrap {kek plaintext wrapped : Bytes}
    (henc : ∀ b : Bytes, b.length = 16 → (Primitives.encrypt kek b).length = 16)
    (hdec : ∀ b : Bytes, b.length = 16 → Primitives.decrypt kek (Primitives.encrypt kek b) = b)
    (h : keyWrap kek plaintext = .ok wrapped) :
    keyUnwrap kek wrapped = .ok plaintext ∧ wrapped.length = plaintext.length + 8 := by
  unfold keyWrap at h
  split_ifs at h with hlen hkey
  push Not at hlen
  set n := plaintext.length / 8 with hn
  have hdata : plaintext.length = 8 * n := by omega
  obtain ⟨hblocks, hcount⟩ := wellSized_blocks8 n plaintext hdata
  have hinit : WellSized (defaultIV, blocks8 n plaintext) := ⟨rfl, hblocks⟩
  obtain ⟨⟨ha, hall⟩, hsame⟩ := wellSized_wrapRounds henc n 6 _ hinit
  have hflat := length_flatten_of_forall _ hall
  have hunwrap := unwrapRounds_wrapRounds henc hdec n 6 _ hinit
  set s := wrapRounds (Primitives.encrypt kek) n 6 (defaultIV, blocks8 n plaintext) with hs
  have hwrapped : s.1 ++ s.2.flatten = wrapped := by simpa using h
  have hlength : wrapped.length = 8 * n + 8 := by
    rw [← hwrapped, List.length_append, ha, hflat, hsame, hcount]
    omega
  have hcipher : (wrapped.take 8, blocks8 n (wrapped.drop 8)) = s := by
    rw [← hwrapped, List.take_left' ha, List.drop_left' ha]
    have := blocks8_flatten s.2 hall []
    rw [hsame, hcount, List.append_nil] at this
    rw [this]
  refine ⟨?_, by omega⟩
  unfold keyUnwrap
  rw [if_neg (by omega), if_neg hkey]
  simp only [show wrapped.length / 8 - 1 = n by omega, hcipher, hunwrap]
  rw [if_neg (by simp), flatten_blocks8 n plaintext hdata]

theorem keyUnwrap_keyWrap [LawfulPrimitives] {kek plaintext wrapped : Bytes}
    (h : keyWrap kek plaintext = .ok wrapped) :
    keyUnwrap kek wrapped = .ok plaintext ∧ wrapped.length = plaintext.length + 8 :=
  keyUnwrap_of_keyWrap (LawfulPrimitives.length_encrypt kek) (LawfulPrimitives.decrypt_encrypt kek)
    h

theorem exists_keyWrap {kek plaintext : Bytes} (hkek : validKeySize kek.length = true)
    (hblocks : plaintext.length % 8 = 0) (hne : plaintext.length ≠ 0) :
    ∃ wrapped, keyWrap kek plaintext = .ok wrapped := by
  unfold keyWrap
  rw [if_neg (by simp [hblocks, hne]), if_neg (by simp [hkek])]
  exact ⟨_, rfl⟩

end SrtGo.Crypto
