import SrtGo.Lib.Bytes

/-!
# Typed blocks

A block is written as its kind, the length of its body in words of four bytes, and the body.
A reader takes one block after the other and hands each to a step that may refuse it; a rest
of less than four bytes is left alone.  What such a loop accepts is a list of blocks that the
step accepts one after the other (`loop_eq_ok_iff`), so that a result about the loop is one
about the step.
-/

namespace SrtGo.Bytes

/-- A kind and a body. -/
structure Block where
  kind : ℕ
  body : Bytes
deriving DecidableEq

namespace Block

def marshal (b : Block) : Bytes := putBE 2 b.kind ++ (putBE 2 (b.body.length / 4) ++ b.body)

def marshalAll (bs : List Block) : Bytes := bs.flatMap marshal

/-- The kind and the length fit their fields, and the body consists of words. -/
structure Fits (b : Block) : Prop where
  kind : b.kind < 2 ^ 16
  aligned : b.body.length % 4 = 0
  length : b.body.length / 4 < 2 ^ 16

def frontKind (pivot : Bytes) : ℕ := readBE (pivot.take 2)

def frontSize (pivot : Bytes) : ℕ := readBE ((pivot.drop 2).take 2) * 4

def parseAll : ℕ → Bytes → List Block
  | 0, _ => []
  | fuel + 1, pivot =>
    if pivot.length < 4 ∨ (pivot.drop 4).length < frontSize pivot then []
    else
      ⟨frontKind pivot, (pivot.drop 4).take (frontSize pivot)⟩ ::
        parseAll fuel ((pivot.drop 4).drop (frontSize pivot))

section Loop

variable {σ ε : Type*} (truncated : ℕ → ℕ → ℕ → ε) (step : σ → Block → Except ε σ)

/-- Take the blocks one after the other.  `truncated kind have want` is the error for a body
that the bytes do not hold. -/
def loop : ℕ → Bytes → σ → Except ε σ
  | 0, _, s => .ok s
  | fuel + 1, pivot, s =>
    if pivot.length < 4 then .ok s
    else if (pivot.drop 4).length < frontSize pivot then
      .error (truncated (frontKind pivot) (pivot.drop 4).length (frontSize pivot))
    else do
      let s ← step s ⟨frontKind pivot, (pivot.drop 4).take (frontSize pivot)⟩
      if (pivot.drop 4).length > frontSize pivot then
        loop fuel ((pivot.drop 4).drop (frontSize pivot)) s
      else .ok s

end Loop

/-! ## The front of the bytes -/

variable {b : Block} {bs : List Block} {pivot tail : Bytes} {fuel : ℕ}

@[simp] theorem marshalAll_nil : marshalAll [] = [] := rfl

@[simp] theorem marshalAll_cons (b : Block) (bs : List Block) :
    marshalAll (b :: bs) = b.marshal ++ marshalAll bs := List.flatMap_cons

@[simp] theorem marshalAll_append (bs bs' : List Block) :
    marshalAll (bs ++ bs') = marshalAll bs ++ marshalAll bs' := List.flatMap_append

theorem length_marshal (b : Block) : b.marshal.length = 4 + b.body.length := by
  simp only [marshal, List.length_append, length_putBE]
  omega

theorem frontKind_marshal (h : b.Fits) (rest : Bytes) : frontKind (b.marshal ++ rest) = b.kind := by
  have hfront : (b.marshal ++ rest).take 2 = putBE 2 b.kind := by
    rw [marshal, List.append_assoc]
    exact List.take_left' (length_putBE 2 b.kind)
  rw [frontKind, hfront, readBE_putBE]
  exact Nat.mod_eq_of_lt h.kind

theorem frontSize_marshal (h : b.Fits) (rest : Bytes) :
    frontSize (b.marshal ++ rest) = b.body.length := by
  have hsize : ((b.marshal ++ rest).drop 2).take 2 = putBE 2 (b.body.length / 4) := by
    rw [marshal, List.append_assoc, List.drop_left' (length_putBE 2 b.kind), List.append_assoc]
    exact List.take_left' (length_putBE 2 _)
  have hwords := Nat.div_add_mod b.body.length 4
  rw [h.aligned] at hwords
  have hfit : b.body.length / 4 < 256 ^ 2 := h.length
  rw [frontSize, hsize, readBE_putBE, Nat.mod_eq_of_lt hfit]
  omega

theorem drop_marshal (b : Block) (rest : Bytes) : (b.marshal ++ rest).drop 4 = b.body ++ rest := by
  have hsplit : b.marshal ++ rest =
      (putBE 2 b.kind ++ putBE 2 (b.body.length / 4)) ++ (b.body ++ rest) := by
    simp only [marshal, List.append_assoc]
  rw [hsplit]
  exact List.drop_left' (by simp)

theorem eq_marshal_append (hhead : ¬pivot.length < 4)
    (hbody : ¬(pivot.drop 4).length < frontSize pivot) :
    let b : Block := ⟨frontKind pivot, (pivot.drop 4).take (frontSize pivot)⟩
    b.Fits ∧ pivot = b.marshal ++ (pivot.drop 4).drop (frontSize pivot) := by
  intro b
  have hkind : (pivot.take 2).length = 2 := by rw [List.length_take]; omega
  have hsize : ((pivot.drop 2).take 2).length = 2 := by
    rw [List.length_take, List.length_drop]
    omega
  have hlength : b.body.length = frontSize pivot := by
    rw [List.length_take]
    omega
  have hwords : b.body.length / 4 = readBE ((pivot.drop 2).take 2) := by
    rw [hlength, frontSize, Nat.mul_div_cancel _ (by decide)]
  have hkindLt := readBE_lt (pivot.take 2)
  have hsizeLt := readBE_lt ((pivot.drop 2).take 2)
  rw [hkind] at hkindLt
  rw [hsize] at hsizeLt
  refine ⟨⟨hkindLt, by rw [hlength, frontSize, Nat.mul_mod_left], hwords ▸ hsizeLt⟩, ?_⟩
  have hkindBytes : putBE 2 b.kind = pivot.take 2 := by
    have hread := putBE_readBE (pivot.take 2)
    rwa [hkind] at hread
  have hsizeBytes : putBE 2 (b.body.length / 4) = (pivot.drop 2).take 2 := by
    have hread := putBE_readBE ((pivot.drop 2).take 2)
    rwa [hsize, ← hwords] at hread
  have hdrop : (pivot.drop 2).drop 2 = pivot.drop 4 := List.drop_drop
  calc pivot = pivot.take 2 ++ pivot.drop 2 := (List.take_append_drop 2 pivot).symm
    _ = pivot.take 2 ++ ((pivot.drop 2).take 2 ++ pivot.drop 4) := by
        rw [← hdrop, List.take_append_drop 2 (pivot.drop 2)]
    _ = pivot.take 2 ++ ((pivot.drop 2).take 2 ++
          (b.body ++ (pivot.drop 4).drop (frontSize pivot))) := by
        rw [show b.body = (pivot.drop 4).take (frontSize pivot) from rfl, List.take_append_drop]
    _ = b.marshal ++ (pivot.drop 4).drop (frontSize pivot) := by
        rw [marshal, hkindBytes, hsizeBytes, List.append_assoc, List.append_assoc]

/-! ## All blocks -/

theorem parseAll_marshal_append (h : b.Fits) (fuel : ℕ) (rest : Bytes) :
    parseAll (fuel + 1) (b.marshal ++ rest) = b :: parseAll fuel rest := by
  have hlength : ¬((b.marshal ++ rest).length < 4 ∨
      ((b.marshal ++ rest).drop 4).length < frontSize (b.marshal ++ rest)) := by
    rw [drop_marshal, frontSize_marshal h, List.length_append, List.length_append, length_marshal]
    omega
  rw [parseAll, if_neg hlength, frontKind_marshal h, frontSize_marshal h, drop_marshal,
    List.take_left, List.drop_left]

theorem parseAll_marshalAll (hfits : ∀ b ∈ bs, b.Fits) (htail : tail.length < 4)
    (hfuel : (marshalAll bs ++ tail).length ≤ fuel) :
      parseAll fuel (marshalAll bs ++ tail) = bs := by
  induction bs generalizing fuel with
  | nil =>
    cases fuel with
    | zero => rfl
    | succ fuel => simp [parseAll, htail]
  | cons b bs ih =>
    rw [marshalAll_cons, List.append_assoc, List.length_append, length_marshal] at hfuel
    obtain ⟨fuel, rfl⟩ : ∃ n, fuel = n + 1 := ⟨fuel - 1, by omega⟩
    rw [marshalAll_cons, List.append_assoc, parseAll_marshal_append (hfits b List.mem_cons_self),
      ih (fun b' hb' => hfits b' (List.mem_cons_of_mem b hb')) (by omega)]

section Loop

variable {σ ε : Type*} {truncated : ℕ → ℕ → ℕ → ε} {step : σ → Block → Except ε σ} {s s' : σ}

theorem bind_eq_ok {α β : Type _} {x : Except ε α} {f : α → Except ε β} {y : β} :
    (x >>= f) = .ok y ↔ ∃ a, x = .ok a ∧ f a = .ok y := by
  cases x with
  | error e =>
    constructor
    · intro h
      cases h
    · rintro ⟨a, ha, -⟩
      cases ha
  | ok a =>
    constructor
    · intro h
      exact ⟨a, rfl, h⟩
    · rintro ⟨a', ha, h⟩
      obtain rfl := Except.ok.inj ha
      exact h

theorem loop_of_short (h : pivot.length < 4) (fuel : ℕ) (s : σ) :
    loop truncated step fuel pivot s = .ok s := by
  cases fuel with
  | zero => rfl
  | succ fuel => rw [loop, if_pos h]

theorem loop_marshal_append (h : b.Fits) (fuel : ℕ) (rest : Bytes) (s : σ) :
    loop truncated step (fuel + 1) (b.marshal ++ rest) s =
      step s b >>= fun s => loop truncated step fuel rest s := by
  have hhead : ¬(b.marshal ++ rest).length < 4 := by
    rw [List.length_append, length_marshal]
    omega
  have hbody : ¬((b.marshal ++ rest).drop 4).length < frontSize (b.marshal ++ rest) := by
    rw [drop_marshal, frontSize_marshal h, List.length_append]
    omega
  rw [loop, if_neg hhead, if_neg hbody, frontKind_marshal h, frontSize_marshal h, drop_marshal,
    List.take_left, List.drop_left]
  congr 1
  funext s
  -- with nothing left the loop stops at once, as it would in its next round
  cases rest with
  | nil => rw [if_neg (by simp), loop_of_short (by simp)]
  | cons x rest => rw [if_pos (by simp)]

/-- The loop accepts what consists of blocks that the step accepts one after the other. -/
theorem loop_eq_ok_iff (hfuel : pivot.length ≤ fuel) : loop truncated step fuel pivot s = .ok s' ↔
      ∃ bs tail, (∀ b ∈ bs, b.Fits) ∧ tail.length < 4 ∧ pivot = marshalAll bs ++ tail ∧
        bs.foldlM step s = .ok s' := by
  induction fuel generalizing pivot s with
  | zero =>
    obtain rfl := List.eq_nil_of_length_eq_zero (Nat.le_zero.mp hfuel)
    constructor
    · intro h
      exact ⟨[], [], by simp, by simp, rfl, h⟩
    · rintro ⟨bs, tail, -, -, hpivot, h⟩
      cases bs with
      | nil => exact h
      | cons b bs =>
        have hlength := congrArg List.length hpivot
        rw [marshalAll_cons, List.length_append, List.length_append, length_marshal,
          List.length_nil] at hlength
        omega
  | succ fuel ih =>
    constructor
    · intro h
      -- the loop stops before a header, fails in a body, or takes one block off
      by_cases hhead : pivot.length < 4
      · rw [loop_of_short hhead] at h
        exact ⟨[], pivot, by simp, hhead, rfl, h⟩
      · by_cases hbody : (pivot.drop 4).length < frontSize pivot
        · rw [loop, if_neg hhead, if_pos hbody] at h
          cases h
        · obtain ⟨hfit, hsplit⟩ := eq_marshal_append hhead hbody
          set b : Block := ⟨frontKind pivot, (pivot.drop 4).take (frontSize pivot)⟩
          set rest := (pivot.drop 4).drop (frontSize pivot)
          have hshorter := congrArg List.length hsplit
          rw [List.length_append, length_marshal] at hshorter
          rw [hsplit, loop_marshal_append hfit, bind_eq_ok] at h
          obtain ⟨s₁, hstep, hloop⟩ := h
          obtain ⟨bs, tail, hfits, htail, hrest, hfold⟩ := (ih (by omega)).mp hloop
          refine ⟨b :: bs, tail, ?_, htail, ?_, ?_⟩
          · intro b' hb'
            rcases List.mem_cons.mp hb' with rfl | hb'
            · exact hfit
            · exact hfits b' hb'
          · rw [hsplit, hrest, marshalAll_cons, List.append_assoc]
          · rw [List.foldlM_cons, hstep]
            exact hfold
    · rintro ⟨bs, tail, hfits, htail, rfl, hfold⟩
      cases bs with
      | nil =>
        rw [marshalAll_nil, List.nil_append, loop_of_short htail]
        exact hfold
      | cons b bs =>
        rw [List.foldlM_cons, bind_eq_ok] at hfold
        obtain ⟨s₁, hstep, hfold⟩ := hfold
        rw [marshalAll_cons, List.append_assoc, List.length_append, length_marshal] at hfuel
        rw [marshalAll_cons, List.append_assoc, loop_marshal_append (hfits b List.mem_cons_self),
          hstep]
        exact (ih (by omega)).mpr ⟨bs, tail, fun b' hb' => hfits b' (List.mem_cons_of_mem b hb'),
          htail, rfl, hfold⟩

end Loop

end Block

end SrtGo.Bytes
