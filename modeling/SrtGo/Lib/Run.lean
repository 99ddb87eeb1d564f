import Mathlib.Tactic

/-!
# Runs of a deterministic machine

A machine is a step function; a run feeds it a list of inputs.  `AllStates Q`
says that every state of a run satisfies `Q`, the first and the last included,
and `AllSteps P` that every step of it satisfies `P`, a condition on an input and
on the state that the input arrives in.  The invariant rule turns a fact about
one step into a fact about runs.
-/

namespace SrtGo.Run

variable {σ α : Type*} (step : σ → α → σ)

def exec : σ → List α → σ
  | s, [] => s
  | s, a :: as => exec (step s a) as

/-- Every state of the run satisfies `Q`. -/
def AllStates (Q : σ → Prop) : σ → List α → Prop
  | s, [] => Q s
  | s, a :: as => Q s ∧ AllStates Q (step s a) as

/-- Every step of the run satisfies `P` in the state before it. -/
def AllSteps (P : σ → α → Prop) : σ → List α → Prop
  | _, [] => True
  | s, a :: as => P s a ∧ AllSteps P (step s a) as

instance decidableAllSteps (P : σ → α → Prop) [∀ s a, Decidable (P s a)] :
    ∀ s as, Decidable (AllSteps step P s as)
  | _, [] => isTrue trivial
  | s, a :: as => @instDecidableAnd _ _ _ (decidableAllSteps P (step s a) as)

variable {step} {P T : σ → α → Prop} {Q R : σ → Prop} {s : σ} {as : List α}

theorem exec_append (s : σ) (as bs : List α) :
    exec step s (as ++ bs) = exec step (exec step s as) bs := by
  induction as generalizing s with
  | nil => rfl
  | cons a as ih => exact ih (step s a)

theorem AllStates.head (h : AllStates step Q s as) : Q s := by
  cases as with
  | nil => exact h
  | cons a as => exact h.1

theorem AllStates.exec (h : AllStates step Q s as) : Q (exec step s as) := by
  induction as generalizing s with
  | nil => exact h
  | cons a as ih => exact ih h.2

theorem AllStates.mono (hQR : ∀ s, Q s → R s) (h : AllStates step Q s as) :
    AllStates step R s as := by
  induction as generalizing s with
  | nil => exact hQR s h
  | cons a as ih => exact ⟨hQR s h.1, ih h.2⟩

/-- The invariant rule. -/
theorem AllSteps.allStates (hstep : ∀ s a, Q s → P s a → Q (step s a)) (hinit : Q s)
    (h : AllSteps step P s as) : AllStates step Q s as := by
  induction as generalizing s with
  | nil => exact hinit
  | cons a as ih => exact ⟨hinit, ih (hstep s a hinit h.1) h.2⟩

theorem AllSteps.last {a : α} (h : AllSteps step P s (as ++ [a])) : P (exec step s as) a := by
  induction as generalizing s with
  | nil => exact h.1
  | cons b as ih => exact ih h.2

theorem allSteps_of_invariant (hstep : ∀ s a, Q s → Q (step s a)) (hQP : ∀ s a, Q s → P s a)
    (hinit : Q s) : AllSteps step P s as := by
  induction as generalizing s with
  | nil => trivial
  | cons a as ih => exact ⟨hQP s a hinit, ih (hstep s a hinit)⟩

theorem allSteps_of_forall_mem {T : α → Prop} (h : ∀ a ∈ as, T a) :
    AllSteps step (fun _ a => T a) s as := by
  induction as generalizing s with
  | nil => trivial
  | cons a as ih => exact ⟨h a List.mem_cons_self, ih fun b hb => h b (List.mem_cons_of_mem a hb)⟩

theorem AllSteps.and (h : AllSteps step P s as) (h' : AllSteps step T s as) :
    AllSteps step (fun s a => P s a ∧ T s a) s as := by
  induction as generalizing s with
  | nil => trivial
  | cons a as ih => exact ⟨⟨h.1, h'.1⟩, ih h.2 h'.2⟩

/-- What an invariant implies of an allowed step holds of every step of an allowed run. -/
theorem AllSteps.allSteps (hstep : ∀ s a, Q s → P s a → Q (step s a))
    (hQT : ∀ s a, Q s → P s a → T s a)
    (hinit : Q s) (h : AllSteps step P s as) : AllSteps step T s as := by
  induction as generalizing s with
  | nil => trivial
  | cons a as ih => exact ⟨hQT s a hinit h.1, ih (hstep s a hinit h.1) h.2⟩

/-- When the invariant `Q` implies `R`, and a step that is not allowed always
breaks `R`, then the runs that keep `R` are exactly the allowed ones. -/
theorem allStates_iff_allSteps (hQR : ∀ s, Q s → R s)
    (hstep : ∀ s a, Q s → P s a → Q (step s a)) (hbreak : ∀ s a, Q s → ¬P s a → ¬R (step s a))
    (hinit : Q s) : AllStates step R s as ↔ AllSteps step P s as := by
  refine ⟨fun h => ?_, fun h => (h.allStates hstep hinit).mono hQR⟩
  induction as generalizing s with
  | nil => trivial
  | cons a as ih =>
    have hallowed : P s a := by
      by_contra hnot
      exact hbreak s a hinit hnot h.2.head
    exact ⟨hallowed, ih (hstep s a hinit hallowed) h.2⟩

end SrtGo.Run
