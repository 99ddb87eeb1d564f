import SrtGo.Packet.Cif

/-!
# Loss lists on the wire

A loss list is written as runs of consecutive numbers: one word for a run of one
number, and two words, the first one flagged, for a longer run.  The runs of a list
of 31-bit numbers can be told from its words, so two such lists never share an
encoding.  The reader gives back a list of at most 8192 numbers as it was written.
-/

namespace SrtGo

open Bytes

/-! ## Runs -/

def ValidRun (r : ℕ × ℕ) : Prop := r.1 ≤ r.2 ∧ r.2 < 2 ^ 31

/-- The runs of a list that continues the run from `start` to `stop`. -/
def lossRuns (start stop : ℕ) : List ℕ → List (ℕ × ℕ)
  | [] => [(start, stop)]
  | s :: rest =>
    if s = (stop + 1) % 2 ^ 32 then lossRuns start s rest
    else (start, stop) :: lossRuns s s rest

def runNumbers (r : ℕ × ℕ) : List ℕ := List.range' r.1 (r.2 + 1 - r.1)

def runWords (rs : List (ℕ × ℕ)) : List ℕ := rs.flatMap fun r => encodeRun r.1 r.2

theorem encodeRuns_eq (start stop : ℕ) (rest : List ℕ) :
    encodeRuns start stop rest = runWords (lossRuns start stop rest) := by
  induction rest generalizing start stop with
  | nil => simp [encodeRuns, lossRuns, runWords]
  | cons s rest ih =>
    rw [encodeRuns, lossRuns]
    split_ifs
    · exact ih start s
    · rw [ih s s]
      simp [runWords]

section

variable {start stop : ℕ} {rest : List ℕ} (hrun : ValidRun (start, stop))
    (hrest : ∀ s ∈ rest, s < 2 ^ 31)

include hrun hrest

theorem validRun_of_mem_lossRuns : ∀ r ∈ lossRuns start stop rest, ValidRun r := by
  induction rest generalizing start stop with
  | nil => simpa [lossRuns] using hrun
  | cons s rest ih =>
    obtain ⟨hle, hlt⟩ := hrun
    have hs : s < 2 ^ 31 := hrest s List.mem_cons_self
    have htail : ∀ s ∈ rest, s < 2 ^ 31 := fun x hx => hrest x (List.mem_cons_of_mem _ hx)
    rw [lossRuns]
    split_ifs with hnext
    · rw [Nat.mod_eq_of_lt (by omega)] at hnext
      exact ih ⟨by simp only at hle ⊢; omega, hs⟩ htail
    · intro r hr
      rcases List.mem_cons.mp hr with rfl | hr
      · exact ⟨hle, hlt⟩
      · exact ih ⟨le_rfl, hs⟩ htail r hr

theorem flatMap_lossRuns :
    (lossRuns start stop rest).flatMap runNumbers = runNumbers (start, stop) ++ rest := by
  induction rest generalizing start stop with
  | nil => simp [lossRuns]
  | cons s rest ih =>
    obtain ⟨hle, hlt⟩ := hrun
    simp only at hle hlt
    have hs : s < 2 ^ 31 := hrest s List.mem_cons_self
    have htail : ∀ s ∈ rest, s < 2 ^ 31 := fun x hx => hrest x (List.mem_cons_of_mem _ hx)
    rw [lossRuns]
    split_ifs with hnext
    · rw [Nat.mod_eq_of_lt (by omega)] at hnext
      have hrange : runNumbers (start, s) = runNumbers (start, stop) ++ [s] := by
        simp only [runNumbers]
        rw [hnext, show stop + 1 + 1 - start = stop + 1 - start + 1 by omega, List.range'_concat]
        congr 2
        omega
      rw [ih ⟨by simp only; omega, hs⟩ htail, hrange]
      simp
    · rw [List.flatMap_cons, ih ⟨le_rfl, hs⟩ htail]
      simp [runNumbers]

end

/-! ## Words -/

variable {n : ℕ}

theorem or_flag (h : n < 2 ^ 31) : n ||| 0x80000000 = n + 2 ^ 31 := by
  have hor := Nat.two_pow_add_eq_or_of_lt h 1
  rw [Nat.mul_one, Nat.or_comm] at hor
  rw [← hor]
  omega

theorem and_mask (n : ℕ) : n &&& 0x7FFFFFFF = n % 2 ^ 31 := Nat.and_two_pow_sub_one_eq_mod n 31

theorem and_flag_eq_zero_iff (h : n < 2 ^ 32) : n &&& 0x80000000 = 0 ↔ n < 2 ^ 31 := by
  have htest : n.testBit 31 = decide (n / 2 ^ 31 % 2 = 1) := Nat.testBit_eq_decide_div_mod_eq
  constructor
  · intro hzero
    have hbit : (n.testBit 31 && Nat.testBit 0x80000000 31) = false := by
      rw [← Nat.testBit_and, hzero, Nat.zero_testBit]
    have hset : Nat.testBit 0x80000000 31 = true := by decide
    rw [hset, Bool.and_true, htest, decide_eq_false_iff_not] at hbit
    omega
  · intro hlt
    refine Nat.eq_of_testBit_eq fun j => ?_
    rw [Nat.testBit_and, show (0x80000000 : ℕ) = 2 ^ 31 from rfl, Nat.testBit_two_pow,
      Nat.zero_testBit]
    by_cases hj : 31 = j
    · subst hj
      rw [htest, Nat.div_eq_of_lt hlt]
      rfl
    · simp [hj]

theorem encodeRun_eq {r : ℕ × ℕ} (h : ValidRun r) :
    encodeRun r.1 r.2 = if r.1 = r.2 then [r.1] else [r.1 + 2 ^ 31, r.2] := by
  obtain ⟨hle, hlt⟩ := h
  have hmask : ∀ n < 2 ^ 31, n &&& 0x7FFFFFFF = n := fun n hn => by
    rw [and_mask, Nat.mod_eq_of_lt hn]
  unfold encodeRun
  rw [hmask r.1 (by omega), hmask r.2 hlt, or_flag (by omega)]

variable {rs : List (ℕ × ℕ)}

theorem lt_of_mem_runWords (h : ∀ r ∈ rs, ValidRun r) : ∀ w ∈ runWords rs, w < 2 ^ 32 := by
  intro w hw
  obtain ⟨r, hr, hw⟩ := List.mem_flatMap.mp hw
  obtain ⟨hle, hlt⟩ := h r hr
  rw [encodeRun_eq (h r hr)] at hw
  split_ifs at hw
  · simp only [List.mem_singleton] at hw
    omega
  · simp only [List.mem_cons, List.not_mem_nil, or_false] at hw
    omega

/-- The first word tells a single number from a longer run. -/
theorem runWords_inj {rs' : List (ℕ × ℕ)} (h : ∀ r ∈ rs, ValidRun r) (h' : ∀ r ∈ rs', ValidRun r)
    (heq : runWords rs = runWords rs') : rs = rs' := by
  induction rs generalizing rs' with
  | nil =>
    cases rs' with
    | nil => rfl
    | cons r' rs' =>
      simp only [runWords, List.flatMap_nil, List.flatMap_cons,
        encodeRun_eq (h' r' List.mem_cons_self)] at heq
      split_ifs at heq <;> simp at heq
  | cons r rs ih =>
    have hr := h r List.mem_cons_self
    have htail : ∀ r ∈ rs, ValidRun r := fun x hx => h x (List.mem_cons_of_mem _ hx)
    cases rs' with
    | nil =>
      simp only [runWords, List.flatMap_nil, List.flatMap_cons, encodeRun_eq hr] at heq
      split_ifs at heq <;> simp at heq
    | cons r' rs' =>
      have hr' := h' r' List.mem_cons_self
      have htail' : ∀ r ∈ rs', ValidRun r := fun x hx => h' x (List.mem_cons_of_mem _ hx)
      obtain ⟨a, b⟩ := r
      obtain ⟨a', b'⟩ := r'
      obtain ⟨hle, hlt⟩ := hr
      obtain ⟨hle', hlt'⟩ := hr'
      simp only at hle hlt hle' hlt'
      have hwords : runWords ((a, b) :: rs) = (if a = b then [a] else [a + 2 ^ 31, b]) ++
          runWords rs := by
        rw [runWords, List.flatMap_cons, encodeRun_eq ⟨hle, hlt⟩]
        rfl
      have hwords' : runWords ((a', b') :: rs') =
          (if a' = b' then [a'] else [a' + 2 ^ 31, b']) ++ runWords rs' := by
        rw [runWords, List.flatMap_cons, encodeRun_eq ⟨hle', hlt'⟩]
        rfl
      rw [hwords, hwords'] at heq
      split_ifs at heq with hone hone' hone'
      · simp only [List.singleton_append, List.cons.injEq] at heq
        rw [ih htail htail' heq.2]
        congr 2 <;> omega
      · simp only [List.cons_append, List.nil_append, List.cons.injEq] at heq
        omega
      · simp only [List.cons_append, List.nil_append, List.cons.injEq] at heq
        omega
      · simp only [List.cons_append, List.nil_append, List.cons.injEq] at heq
        rw [ih htail htail' heq.2.2]
        congr 2 <;> omega

/-! ## Bytes -/

theorem flatMap_putBE_inj {ws ws' : List ℕ} (h : ∀ w ∈ ws, w < 2 ^ 32) (h' : ∀ w ∈ ws', w < 2 ^ 32)
    (heq : ws.flatMap (putBE 4) = ws'.flatMap (putBE 4)) : ws = ws' := by
  induction ws generalizing ws' with
  | nil =>
    cases ws' with
    | nil => rfl
    | cons w' ws' => simp [putBE] at heq
  | cons w ws ih =>
    cases ws' with
    | nil => simp [putBE] at heq
    | cons w' ws' =>
      rw [List.flatMap_cons, List.flatMap_cons] at heq
      obtain ⟨hhead, htail⟩ := List.append_inj heq (by simp)
      have hw := h w List.mem_cons_self
      have hw' := h' w' List.mem_cons_self
      have hread := congrArg readBE hhead
      rw [readBE_putBE, readBE_putBE] at hread
      rw [ih (fun x hx => h x (List.mem_cons_of_mem _ hx))
        (fun x hx => h' x (List.mem_cons_of_mem _ hx)) htail]
      congr 1
      omega

def runsOf : List ℕ → List (ℕ × ℕ)
  | [] => []
  | s :: rest => lossRuns s s rest

theorem marshalLossList_eq (lost : List ℕ) :
    marshalLossList lost = (runWords (runsOf lost)).flatMap (putBE 4) := by
  cases lost with
  | nil => rfl
  | cons s rest => rw [marshalLossList, encodeRuns_eq, runsOf]

variable {lost acc : List ℕ} {data : Bytes} {fuel : ℕ}

theorem validRun_of_mem_runsOf (h : ∀ s ∈ lost, s < 2 ^ 31) : ∀ r ∈ runsOf lost, ValidRun r := by
  cases lost with
  | nil => simp [runsOf]
  | cons s rest =>
    exact validRun_of_mem_lossRuns ⟨le_rfl, h s List.mem_cons_self⟩
      fun x hx => h x (List.mem_cons_of_mem _ hx)

theorem flatMap_runsOf (h : ∀ s ∈ lost, s < 2 ^ 31) : (runsOf lost).flatMap runNumbers = lost := by
  cases lost with
  | nil => rfl
  | cons s rest =>
    rw [runsOf, flatMap_lossRuns ⟨le_rfl, h s List.mem_cons_self⟩
      fun x hx => h x (List.mem_cons_of_mem _ hx)]
    simp [runNumbers]

/-- Two lists of 31-bit numbers never share an encoding. -/
theorem marshalLossList_inj {lost' : List ℕ} (h : ∀ s ∈ lost, s < 2 ^ 31)
    (h' : ∀ s ∈ lost', s < 2 ^ 31)
    (heq : marshalLossList lost = marshalLossList lost') : lost = lost' := by
  rw [marshalLossList_eq, marshalLossList_eq] at heq
  have hruns := validRun_of_mem_runsOf h
  have hruns' := validRun_of_mem_runsOf h'
  have hwords := flatMap_putBE_inj (lt_of_mem_runWords hruns) (lt_of_mem_runWords hruns') heq
  rw [← flatMap_runsOf h, ← flatMap_runsOf h', runWords_inj hruns hruns' hwords]

/-! ## Reading -/

/-- The reader of a run counts modulo 2³¹, from a position `s` that is not past the end. -/
theorem expandRun_eq {a b : ℕ} (hab : a ≤ b + 1) (hb : b < 2 ^ 31) (hfuel : b + 1 - a < fuel)
    (hcap : acc.length + (b + 1 - a) ≤ 8192) :
    expandRun b fuel (a % 2 ^ 31) acc = .ok (acc ++ List.range' a (b + 1 - a)) := by
  induction fuel generalizing a acc with
  | zero => omega
  | succ fuel ih =>
    rw [expandRun, and_mask]
    rcases Nat.eq_or_lt_of_le hab with rfl | hlt
    · simp
    · have hne : a % 2 ^ 31 ≠ (b + 1) % 2 ^ 31 := by omega
      rw [if_neg hne]
      simp only [List.length_append, List.length_singleton]
      rw [if_neg (by omega), and_mask, Nat.mod_add_mod, ih (by omega) (by omega) (by simp; omega)]
      rw [Nat.mod_eq_of_lt (by omega), show b + 1 - a = b + 1 - (a + 1) + 1 by omega,
        List.range'_succ]
      simp

theorem uint32At_append (pre rest : Bytes) {w : ℕ} (hw : w < 2 ^ 32) :
    uint32At (pre ++ (putBE 4 w ++ rest)) pre.length = w := by
  have hread := uint32At_putBE_append w rest
  rw [uint32At, List.drop_zero] at hread
  rw [uint32At, List.drop_left, hread, Nat.mod_eq_of_lt hw]

theorem unmarshalLossLoop_eq (h : ∀ r ∈ rs, ValidRun r) (hfuel : rs.length ≤ fuel) (pre : Bytes)
    (acc : List ℕ) (hcap : acc.length + (rs.flatMap runNumbers).length ≤ 8192) :
    unmarshalLossLoop (pre ++ (runWords rs).flatMap (putBE 4)) fuel pre.length acc =
      .ok (acc ++ rs.flatMap runNumbers) := by
  induction rs generalizing fuel pre acc with
  | nil =>
    cases fuel with
    | zero => simp [unmarshalLossLoop]
    | succ fuel => simp [unmarshalLossLoop, runWords]
  | cons r rs ih =>
    obtain ⟨fuel, rfl⟩ : ∃ n, fuel = n + 1 := ⟨fuel - 1, by simp at hfuel; omega⟩
    have hr := h r List.mem_cons_self
    have htail : ∀ r ∈ rs, ValidRun r := fun x hx => h x (List.mem_cons_of_mem _ hx)
    have hfuel' : rs.length ≤ fuel := by simpa using hfuel
    have hlength : (runNumbers r).length = r.2 + 1 - r.1 := by simp [runNumbers]
    have hle := hr.1
    have hlt := hr.2
    rw [List.flatMap_cons, List.length_append, hlength] at hcap
    set rest := (runWords rs).flatMap (putBE 4) with hrest
    -- a single number is one word, a longer run two, the first of them flagged
    by_cases hone : r.1 = r.2
    · have hwords : (runWords (r :: rs)).flatMap (putBE 4) = putBE 4 r.1 ++ rest := by
        rw [runWords, List.flatMap_cons, encodeRun_eq hr, if_pos hone]
        rfl
      have hnumbers : runNumbers r = [r.1] := by simp [runNumbers, ← hone]
      rw [hwords, unmarshalLossLoop, if_pos (by simp; omega), uint32At_append pre rest (by omega)]
      rw [if_neg (not_not.mpr ((and_flag_eq_zero_iff (by omega)).mpr (by omega)))]
      have hnext := ih htail hfuel' (pre ++ putBE 4 r.1) (acc ++ [r.1])
        (by rw [List.length_append, List.length_singleton]; omega)
      rw [List.append_assoc, List.length_append, length_putBE] at hnext
      rw [hnext, List.flatMap_cons, hnumbers]
      simp
    · have hwords : (runWords (r :: rs)).flatMap (putBE 4) =
          putBE 4 (r.1 + 2 ^ 31) ++ (putBE 4 r.2 ++ rest) := by
        rw [runWords, List.flatMap_cons, encodeRun_eq hr, if_neg hone]
        rfl
      have hsecond : uint32At (pre ++ (putBE 4 (r.1 + 2 ^ 31) ++ (putBE 4 r.2 ++ rest)))
        (pre.length + 4) =
          r.2 := by
        have := uint32At_append (pre ++ putBE 4 (r.1 + 2 ^ 31)) rest (show r.2 < 2 ^ 32 by omega)
        rwa [List.append_assoc, List.length_append, length_putBE] at this
      rw [hwords, unmarshalLossLoop, if_pos (by simp; omega),
        uint32At_append pre _ (show r.1 + 2 ^ 31 < 2 ^ 32 by omega)]
      rw [if_pos (fun hzero => by have := (and_flag_eq_zero_iff (by omega)).mp hzero; omega),
        if_neg (by simp; omega), hsecond, and_mask, and_mask, Nat.add_mod_right, Nat.mod_eq_of_lt
          hlt, expandRun_eq (by omega) hlt (by omega) (by omega)]
      have hnext := ih htail hfuel' (pre ++ (putBE 4 (r.1 + 2 ^ 31) ++ putBE 4 r.2))
        (acc ++ runNumbers r) (by rw [List.length_append, hlength]; omega)
      rw [List.append_assoc, List.append_assoc, List.length_append, List.length_append,
        length_putBE, length_putBE] at hnext
      simp only
      rw [show List.range' r.1 (r.2 + 1 - r.1) = runNumbers r from rfl, hnext, List.flatMap_cons,
        List.append_assoc]

theorem length_le_runWords (rs : List (ℕ × ℕ)) : rs.length ≤ (runWords rs).length := by
  induction rs with
  | nil => simp
  | cons r rs ih =>
    have hpos : 1 ≤ (encodeRun r.1 r.2).length := by
      unfold encodeRun
      split_ifs <;> simp
    rw [runWords, List.flatMap_cons, List.length_append, List.length_cons]
    unfold runWords at ih
    omega

theorem length_flatMap_putBE (ws : List ℕ) : (ws.flatMap (putBE 4)).length = 4 * ws.length := by
  induction ws with
  | nil => rfl
  | cons w ws ih => rw [List.flatMap_cons, List.length_append, length_putBE, ih,
    List.length_cons]; ring

theorem lt_of_mem_expandRun {stop : ℕ} (fuel : ℕ) : ∀ {s : ℕ} {acc lost : List ℕ}, s < 2 ^ 31 →
    (∀ x ∈ acc, x < 2 ^ 31) → expandRun stop fuel s acc = .ok lost → ∀ x ∈ lost, x < 2 ^ 31 := by
  induction fuel with
  | zero =>
    intro s acc lost _ hacc hread
    cases hread
    exact hacc
  | succ fuel ih =>
    intro s acc lost hs hacc hread
    rw [expandRun] at hread
    simp only at hread
    split_ifs at hread with hstop
    · cases hread
      exact hacc
    · refine ih ?_ ?_ hread
      · rw [and_mask]
        exact Nat.mod_lt _ (by norm_num)
      · intro x hx
        rcases List.mem_append.mp hx with hx | hx
        · exact hacc x hx
        · rw [List.mem_singleton.mp hx]
          exact hs

theorem lt_of_mem_unmarshalLossLoop (fuel : ℕ) : ∀ {i : ℕ} {acc lost : List ℕ},
    (∀ x ∈ acc, x < 2 ^ 31) → unmarshalLossLoop data fuel i acc = .ok lost →
      ∀ x ∈ lost, x < 2 ^ 31 := by
  induction fuel with
  | zero =>
    intro i acc lost hacc hread
    cases hread
    exact hacc
  | succ fuel ih =>
    intro i acc lost hacc hread
    rw [unmarshalLossLoop] at hread
    simp only at hread
    split_ifs at hread with hmore hflag hshort
    · split at hread
      · cases hread
      next run hrun =>
        refine ih (lt_of_mem_expandRun _ ?_ hacc hrun) hread
        rw [and_mask]
        exact Nat.mod_lt _ (by norm_num)
    · refine ih (fun x hx => ?_) hread
      rcases List.mem_append.mp hx with hx | hx
      · exact hacc x hx
      · rw [List.mem_singleton.mp hx]
        exact (and_flag_eq_zero_iff (uint32At_lt data i)).mp (not_not.mp hflag)
    · cases hread
      exact hacc

theorem lt_of_mem_unmarshalLossList (h : unmarshalLossList data = .ok lost) :
    ∀ x ∈ lost, x < 2 ^ 31 :=
  lt_of_mem_unmarshalLossLoop _ (fun _ hx => absurd hx List.not_mem_nil) h

theorem unmarshalLossList_marshalLossList (h : ∀ s ∈ lost, s < 2 ^ 31) (hcap : lost.length ≤ 8192) :
    unmarshalLossList (marshalLossList lost) = .ok lost := by
  have hfuel : (runsOf lost).length ≤ (marshalLossList lost).length := by
    have := length_le_runWords (runsOf lost)
    rw [marshalLossList_eq, length_flatMap_putBE]
    omega
  have hread := unmarshalLossLoop_eq (validRun_of_mem_runsOf h) hfuel [] []
    (by rw [flatMap_runsOf h]; simpa using hcap)
  rw [flatMap_runsOf h, List.nil_append, ← marshalLossList_eq] at hread
  exact hread

/-! ## Refusing -/

theorem exists_expandRun_error (fuel : ℕ) (acc : List ℕ) {a b : ℕ} (hab : a ≤ b + 1)
    (ha : b < a + (2 ^ 31 - 1)) (hacc : acc.length ≤ 8192) (hfuel : 8192 < acc.length + fuel)
    (hlong : 8192 < acc.length + (b + 1 - a)) : ∃ e, expandRun b fuel (a % 2 ^ 31) acc =
      .error e := by
  induction fuel generalizing a acc with
  | zero => omega
  | succ fuel ih =>
    have hne : a % 2 ^ 31 ≠ (b + 1) % 2 ^ 31 := by omega
    rw [expandRun, and_mask, if_neg hne]
    simp only [List.length_append, List.length_singleton]
    by_cases hfull : acc.length + 1 > 8192
    · rw [if_pos hfull]
      exact ⟨_, rfl⟩
    · rw [if_neg hfull, and_mask, Nat.mod_add_mod]
      exact ih _ (by omega) (by omega) (by simp; omega) (by simp; omega) (by simp; omega)

theorem exists_unmarshalLossList_error {a b : ℕ} (hb : b < 2 ^ 31) (ha : 0 < a)
    (hlong : 8192 < b + 1 - a) :
    ∃ e, unmarshalLossList (putBE 4 (a + 2 ^ 31) ++ putBE 4 b) = .error e := by
  obtain ⟨e, he⟩ := exists_expandRun_error 8194 [] (show a ≤ b + 1 by omega) (by omega)
    (by simp) (by simp)
    (by simpa using hlong)
  have hfirst := uint32At_append [] (putBE 4 b) (show a + 2 ^ 31 < 2 ^ 32 by omega)
  have hsecond := uint32At_append (putBE 4 (a + 2 ^ 31)) [] (show b < 2 ^ 32 by omega)
  rw [List.append_nil, length_putBE] at hsecond
  rw [List.nil_append, List.length_nil] at hfirst
  have hflag : ¬(a + 2 ^ 31) &&& 0x80000000 = 0 := fun hzero => by
    have := (and_flag_eq_zero_iff (by omega)).mp hzero
    omega
  refine ⟨e, ?_⟩
  rw [unmarshalLossList, List.length_append, length_putBE, length_putBE, unmarshalLossLoop,
    if_pos (by simp), hfirst, if_pos hflag, if_neg (by simp), Nat.zero_add, hsecond,
      and_mask, and_mask, Nat.add_mod_right, Nat.mod_eq_of_lt hb, he]

/-! ## The list of a reader that gives up

The source appends to the list of the packet as it reads, so a reader that gives up leaves
behind what it has read so far.  Here the list is kept beside the error, and the bounds on
the loops are parameters: from some point on they make no difference.
-/

def expandInto (stop : ℕ) : ℕ → ℕ → List ℕ → List ℕ × Option String
  | 0, _, acc => (acc, none)
  | fuel + 1, s, acc =>
    if s = (stop + 1) &&& 0x7FFFFFFF then (acc, none)
    else
      let acc := acc ++ [s]
      if acc.length > 8192 then
        (acc, some s!"packet: NAK loss list too large ({acc.length} entries)")
      else expandInto stop fuel ((s + 1) &&& 0x7FFFFFFF) acc

/-- Read a loss list from offset `i` on. -/
def readLossLoop (data : Bytes) (runFuel : ℕ) : ℕ → ℕ → List ℕ → List ℕ × Option String
  | 0, _, acc => (acc, none)
  | fuel + 1, i, acc =>
    if i + 3 < data.length then
      let val := uint32At data i
      if val &&& 0x80000000 ≠ 0 then
        if i + 7 ≥ data.length then (acc, some s!"packet: NAK range incomplete at offset {i}")
        else
          let run := expandInto (uint32At data (i + 4) &&& 0x7FFFFFFF) runFuel (val &&& 0x7FFFFFFF)
            acc
          if run.2.isSome then run else readLossLoop data runFuel fuel (i + 8) run.1
      else readLossLoop data runFuel fuel (i + 4) (acc ++ [val])
    else (acc, none)

def readOutcome (r : List ℕ × Option String) : Except String (List ℕ) :=
  r.2.elim (.ok r.1) .error

theorem expandRun_eq_readOutcome (stop fuel s : ℕ) (acc : List ℕ) :
    expandRun stop fuel s acc = readOutcome (expandInto stop fuel s acc) := by
  induction fuel generalizing s acc with
  | zero => rfl
  | succ fuel ih =>
    rw [expandRun, expandInto]
    simp only
    split_ifs
    · rfl
    · rfl
    · exact ih _ _

theorem unmarshalLossLoop_eq_readOutcome (data : Bytes) (fuel i : ℕ) (acc : List ℕ) :
    unmarshalLossLoop data fuel i acc = readOutcome (readLossLoop data 8194 fuel i acc) := by
  induction fuel generalizing i acc with
  | zero => rfl
  | succ fuel ih =>
    rw [unmarshalLossLoop, readLossLoop]
    simp only [expandRun_eq_readOutcome]
    split_ifs with _ _ _ herror
    · rfl
    · obtain ⟨e, he⟩ := Option.isSome_iff_exists.mp herror
      simp only [readOutcome, he, Option.elim_some]
    · simp only [readOutcome, Option.not_isSome_iff_eq_none.mp herror, Option.elim_none]
      exact ih _ _
    · exact ih _ _
    · rfl

theorem expandInto_of_le {stop fuel' s : ℕ} (hpos : 0 < fuel) (hfuel : 8193 ≤ acc.length + fuel)
    (hle : fuel ≤ fuel') : expandInto stop fuel' s acc = expandInto stop fuel s acc := by
  induction fuel generalizing fuel' s acc with
  | zero => omega
  | succ fuel ih =>
    obtain ⟨fuel', rfl⟩ : ∃ n, fuel' = n + 1 := ⟨fuel' - 1, by omega⟩
    rw [expandInto, expandInto]
    simp only [List.length_append, List.length_singleton]
    split_ifs with hstop hfull
    · rfl
    · rfl
    · exact ih (by omega) (by simp; omega) (by omega)

theorem readLossLoop_of_le {runFuel fuel' i : ℕ} (hrun : 8194 ≤ runFuel)
    (hfuel : data.length ≤ i + 4 * fuel)
    (hle : fuel ≤ fuel') : readLossLoop data runFuel fuel' i acc = readLossLoop data 8194
      fuel i acc := by
  induction fuel generalizing fuel' i acc with
  | zero =>
    cases fuel' with
    | zero => rfl
    | succ fuel' => rw [readLossLoop, readLossLoop, if_neg (by omega)]
  | succ fuel ih =>
    obtain ⟨fuel', rfl⟩ : ∃ n, fuel' = n + 1 := ⟨fuel' - 1, by omega⟩
    rw [readLossLoop, readLossLoop]
    simp only [expandInto_of_le (show 0 < 8194 by norm_num) (show 8193 ≤ acc.length + 8194 by omega)
      hrun]
    split_ifs
    · rfl
    · rfl
    · exact ih (by omega) (by omega)
    · exact ih (by omega) (by omega)
    · rfl

theorem length_expandInto (stop fuel s : ℕ) (acc : List ℕ) :
    (expandInto stop fuel s acc).1.length ≤ max (acc.length + 1) 8193 ∧
    ((expandInto stop fuel s acc).2 = none →
      (expandInto stop fuel s acc).1.length ≤ max acc.length 8192) := by
  induction fuel generalizing s acc with
  | zero => simp [expandInto]
  | succ fuel ih =>
    rw [expandInto]
    simp only [List.length_append, List.length_singleton]
    split_ifs with hstop hfull
    · simp
    · simp
    · obtain ⟨hall, hok⟩ := ih ((s + 1) &&& 0x7FFFFFFF) (acc ++ [s])
      simp only [List.length_append, List.length_singleton] at hall hok
      exact ⟨by omega, fun h => by have := hok h; omega⟩

theorem length_readLossLoop (runFuel fuel : ℕ) {i : ℕ} (hi : i ≤ data.length)
    (hacc : acc.length ≤ 8192 + i / 4) :
    (readLossLoop data runFuel fuel i acc).1.length ≤ 8192 + data.length / 4 := by
  induction fuel generalizing i acc with
  | zero =>
    show acc.length ≤ _
    omega
  | succ fuel ih =>
    rw [readLossLoop]
    simp only
    split_ifs with hmore hflag hshort herror
    · show acc.length ≤ _
      omega
    · -- the number that was one too many is paid for by the words of its run
      have hrun := (length_expandInto (uint32At data (i + 4) &&& 0x7FFFFFFF) runFuel
        (uint32At data i &&& 0x7FFFFFFF) acc).1
      omega
    · have hrun := (length_expandInto (uint32At data (i + 4) &&& 0x7FFFFFFF) runFuel
        (uint32At data i &&& 0x7FFFFFFF) acc).2 (Option.not_isSome_iff_eq_none.mp herror)
      exact ih (by omega) (by omega)
    · exact ih (by omega) (by rw [List.length_append, List.length_singleton]; omega)
    · show acc.length ≤ _
      omega

/-- **The codec of loss lists.**  A list of at most 8192 numbers is read as it was written;
and whatever the bytes are, the reader stops, with a list that is not much longer than what
it reads. -/
theorem lossList_roundTrip_and_bounded :
    (∀ lost : List ℕ, (∀ s ∈ lost, s < 2 ^ 31) → lost.length ≤ 8192 →
      unmarshalLossList (marshalLossList lost) = .ok lost) ∧
    ∀ data : Bytes, ∃ r : List ℕ × Option String,
      (∀ runFuel fuel, 8194 ≤ runFuel → data.length ≤ fuel →
        readLossLoop data runFuel fuel 0 [] = r) ∧
      unmarshalLossList data = readOutcome r ∧ r.1.length ≤ 8192 + data.length / 4 := by
  refine ⟨fun lost h hcap => unmarshalLossList_marshalLossList h hcap, fun data => ?_⟩
  refine ⟨readLossLoop data 8194 data.length 0 [], fun runFuel fuel hrun hfuel => ?_, ?_, ?_⟩
  · exact readLossLoop_of_le hrun (by omega) hfuel
  · exact unmarshalLossLoop_eq_readOutcome data data.length 0 []
  · exact length_readLossLoop 8194 data.length (Nat.zero_le _) (Nat.zero_le _)

/-- A list across the wrap, with a repeat. -/
theorem lossList_roundTrip_across_wrap :
    unmarshalLossList (marshalLossList [0x7FFFFFFF, 0, 1, 1]) = .ok [0x7FFFFFFF, 0, 1, 1] :=
  lossList_roundTrip_and_bounded.1 _ (by decide) (by decide)

end SrtGo
