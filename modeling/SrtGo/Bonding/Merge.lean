import SrtGo.Lib.Bytes
import SrtGo.Lib.Run
import SrtGo.Seq

/-!
# Merging the streams of a bonded group

Each member of a group delivers the stream in order, but the members do not agree on
which packets they have and on when they deliver them.  The group keeps what is ahead of
the next number in a map, delivers from there in order, and gives up on a number once the
stream has moved more than a window beyond it.

As long as the numbers that arrive stay together, the merge delivers each of them at most
once and in order, and what it keeps is close to the next number.
-/

namespace SrtGo.Bonding

open Bytes SrtGo.Seq Run Function

/-- How far the stream goes past a gap before the gap is skipped. -/
def groupReorderWindow : ℕ := 256

/-- The receive side of a group.  The queue of deliveries is the complete log, and each
payload in it is written down with its sequence number, which the code does not keep. -/
structure Merge where
  pending : ℕ → Option Bytes := fun _ => none
  deliverNext : ℕ := 0
  dnInit : Bool := false
  maxSeen : ℕ := 0
  maxSeenSet : Bool := false
  delivered : List (ℕ × Bytes) := []
  dedups : ℕ := 0

namespace Merge

/-- One round of the loop of `drainPending`; there is none when the loop returns. -/
def drainStep (m : Merge) : Option Merge :=
  match m.pending m.deliverNext with
  | some data =>
    some { m with
      pending := Function.update m.pending m.deliverNext none
      delivered := m.delivered ++ [(m.deliverNext, data)]
      deliverNext := inc m.deliverNext }
  | none =>
    if m.maxSeenSet ∧ greaterThan m.maxSeen (add m.deliverNext groupReorderWindow) then
      some { m with deliverNext := inc m.deliverNext }
    else none

theorem drainStep_dedups {m : Merge} (h : m.drainStep = none) (n : ℕ) :
    drainStep { m with dedups := n } = none := by
  unfold drainStep at h ⊢
  cases hhead : m.pending m.deliverNext with
  | some data => simp [hhead] at h
  | none => simpa [hhead] using h

def drainLoop : ℕ → Merge → Merge
  | 0, m => m
  | fuel + 1, m =>
    match m.drainStep with
    | none => m
    | some m' => drainLoop fuel m'

/-- Deliver in order what can be delivered.  Each round moves the next number towards the highest
one. -/
def drainPending (m : Merge) : Merge := drainLoop (ahead m.deliverNext m.maxSeen + 1) m

def filterDelivery (m : Merge) (s : ℕ) (payload : Bytes) : Merge :=
  let m := if !m.dnInit then { m with deliverNext := s, dnInit := true } else m
  if lessThan s m.deliverNext then { m with dedups := m.dedups + 1 }
  else if (m.pending s).isSome then { m with dedups := m.dedups + 1 }
  else
    let m := { m with pending := Function.update m.pending s (some payload) }
    let m := if !m.maxSeenSet ∨ greaterThan s m.maxSeen then
      { m with maxSeen := s, maxSeenSet := true } else m
    m.drainPending

theorem filterDelivery_of_started {m : Merge} (hinit : m.dnInit = true) (hset : m.maxSeenSet = true)
    (s : ℕ) (payload : Bytes) : m.filterDelivery s payload =
      if lessThan s m.deliverNext then { m with dedups := m.dedups + 1 }
      else if (m.pending s).isSome then { m with dedups := m.dedups + 1 }
      else Merge.drainPending { m with
        pending := update m.pending s (some payload)
        maxSeen := if greaterThan s m.maxSeen then s else m.maxSeen } := by
  obtain ⟨pending, deliverNext, dnInit, maxSeen, maxSeenSet, delivered, dedups⟩ := m
  simp only at hinit hset
  subst hinit hset
  unfold filterDelivery
  simp only [Bool.not_true, Bool.false_eq_true, if_false, false_or]
  split_ifs <;> rfl

def behind (m : Merge) (s : ℕ) : Bool := m.dnInit && lessThan s m.deliverNext

end Merge

/-! ## Positions -/

/-- A merge with what has arrived: positions and payloads, and the positions that were not behind
when they arrived. -/
structure Watched where
  merge : Merge := {}
  arrived : List (ℕ × Bytes) := []
  accepted : List ℕ := []

def Watched.step (w : Watched) (a : ℕ × Bytes) : Watched where
  merge := w.merge.filterDelivery (wrap a.1) a.2
  arrived := w.arrived ++ [a]
  accepted := if w.merge.behind (wrap a.1) then w.accepted else w.accepted ++ [a.1]

structure Watched.InOrder (b : ℕ) (w : Watched) : Prop where
  rests : w.merge.drainStep = none
  increasing : (w.merge.delivered.map fun x => unwrap b x.1).Pairwise (· < ·)
  genuine : ∀ x ∈ w.merge.delivered, (unwrap b x.1, x.2) ∈ w.arrived
  kept : ∀ q ∈ w.accepted, wrap q ∈ w.merge.delivered.map Prod.fst ∨
    (w.merge.pending (wrap q)).isSome
  window : ∀ n, (w.merge.pending n).isSome →
    unwrap b w.merge.deliverNext ≤ unwrap b n ∧ unwrap b n ≤ unwrap b w.merge.deliverNext +
      groupReorderWindow
  skipped : ∀ a, w.arrived.head? = some a → ∀ x, a.1 ≤ x → x < unwrap b w.merge.deliverNext →
    wrap x ∈ w.merge.delivered.map Prod.fst ∨ x + groupReorderWindow < unwrap b w.merge.maxSeen

variable {b f d M q : ℕ} {ds : List (ℕ × Bytes)} {arrived : List (ℕ × Bytes)} {accepted : List ℕ}
  {m m' : Merge} {w : Watched}

/-- The merge started at position `f`, is about to deliver position `d`, has seen nothing beyond
`M` and has delivered `ds`. -/
structure Merges (b f d M : ℕ) (ds : List (ℕ × Bytes)) (arrived : List (ℕ × Bytes))
    (accepted : List ℕ) (m : Merge) : Prop where
  dnInit : m.dnInit = true
  maxSeenSet : m.maxSeenSet = true
  deliverNext : m.deliverNext = wrap d
  maxSeen : m.maxSeen = wrap M
  first : b ≤ f
  next : f ≤ d
  last : f ≤ M
  le : d ≤ M + 1
  span : M + 1 < b + 2 ^ 30
  pending : ∀ n data, m.pending n = some data → ∃ q, n = wrap q ∧ d ≤ q ∧ q ≤ M ∧
    (q, data) ∈ arrived
  delivered : m.delivered = ds.map fun x => (wrap x.1, x.2)
  increasing : (ds.map Prod.fst).Pairwise (· < ·)
  passed : ∀ x ∈ ds, f ≤ x.1 ∧ x.1 < d ∧ x ∈ arrived
  skipped : ∀ x, f ≤ x → x < d → x ∈ ds.map Prod.fst ∨ x + groupReorderWindow < M
  within : ∀ q ∈ accepted, b ≤ q ∧ q ≤ M
  kept : ∀ q ∈ accepted, q ∈ ds.map Prod.fst ∨ (m.pending (wrap q)).isSome

namespace Merges

section

variable (h : Merges b f d M ds arrived accepted m)

include h

theorem drainStep (hstep : m.drainStep = some m') :
    d ≤ M ∧ ∃ ds', Merges b f (d + 1) M ds' arrived accepted m' := by
  have hle := h.le
  have hspan := h.span
  have hfirst := h.first
  have hnext := h.next
  have hinc : inc m.deliverNext = wrap (d + 1) := by rw [h.deliverNext, inc_wrap]
  unfold Merge.drainStep at hstep
  cases hhead : m.pending m.deliverNext with
  | some data =>
    -- the next number waits and is delivered
    simp only [hhead, Option.some.injEq] at hstep
    obtain ⟨q, hq, hdq, hqM, harrived⟩ := h.pending _ _ hhead
    obtain rfl : d = q := eq_of_wrap_eq (h.deliverNext ▸ hq) (by omega) (by omega)
    refine ⟨hqM, ds ++ [(d, data)], ?_⟩
    subst hstep
    refine ⟨h.dnInit, h.maxSeenSet, hinc, h.maxSeen, hfirst,
      by omega, h.last, by omega, hspan, fun n data' hn => ?_, ?_,
      ?_, fun x hx => ?_, fun x hx hx' => ?_, h.within, fun q hq => ?_⟩
    · by_cases hsame : n = m.deliverNext
      · simp [hsame] at hn
      · simp only [update_of_ne hsame] at hn
        obtain ⟨q, rfl, hdq, hqM, harrived⟩ := h.pending n data' hn
        have hne : q ≠ d := fun heq => hsame (heq ▸ h.deliverNext.symm)
        exact ⟨q, rfl, by omega, hqM, harrived⟩
    · simp [h.delivered, h.deliverNext]
    · rw [List.map_append, List.pairwise_append]
      refine ⟨h.increasing, by simp, fun x hx y hy => ?_⟩
      obtain ⟨z, hz, rfl⟩ := List.mem_map.mp hx
      obtain rfl : y = d := by simpa using hy
      exact (h.passed z hz).2.1
    · rcases List.mem_append.mp hx with hold | hnew
      · obtain ⟨hf, hd, hin⟩ := h.passed x hold
        exact ⟨hf, by omega, hin⟩
      · obtain rfl := List.mem_singleton.mp hnew
        exact ⟨hnext, by simp, harrived⟩
    · rw [List.map_append]
      rcases Nat.lt_succ_iff_lt_or_eq.mp hx' with hlt | rfl
      · exact (h.skipped x hx hlt).imp_left (List.mem_append_left _)
      · exact Or.inl (by simp)
    · rw [List.map_append]
      rcases h.kept q hq with hdone | hwaits
      · exact Or.inl (List.mem_append_left _ hdone)
      · by_cases hsame : wrap q = m.deliverNext
        · obtain ⟨hbq, hqM'⟩ := h.within q hq
          have heq : q = d := eq_of_wrap_eq (hsame.trans h.deliverNext) (by omega) (by omega)
          exact Or.inl (by simp [heq])
        · refine Or.inr ?_
          simp only [update_of_ne hsame]
          exact hwaits
  | none =>
    -- a hole, passed over once the window has run full behind it
    simp only [hhead] at hstep
    split_ifs at hstep with hskip
    obtain rfl := Option.some.inj hstep
    have hfar : d + groupReorderWindow < M := by
      have hgreater := hskip.2
      have hwindow : groupReorderWindow = 256 := rfl
      rw [h.maxSeen, h.deliverNext, add_wrap, greaterThan_wrap (by omega) (by omega)] at hgreater
      exact of_decide_eq_true hgreater
    refine ⟨by omega, ds, { h with
      deliverNext := hinc
      next := by omega
      le := by omega
      pending := fun n data hn => ?_
      passed := fun x hx => ?_
      skipped := fun x hx hx' => ?_ }⟩
    · obtain ⟨q, rfl, hdq, hqM, harrived⟩ := h.pending n data hn
      have hne : q ≠ d := by
        rintro rfl
        rw [← h.deliverNext] at hn
        simp [hhead] at hn
      exact ⟨q, rfl, by omega, hqM, harrived⟩
    · obtain ⟨hf, hd, hin⟩ := h.passed x hx
      exact ⟨hf, by omega, hin⟩
    · rcases Nat.lt_succ_iff_lt_or_eq.mp hx' with hlt | rfl
      · exact h.skipped x hx hlt
      · exact Or.inr hfar

theorem drainLoop {fuel : ℕ} (hfuel : M + 1 - d ≤ fuel) : (Merge.drainLoop fuel m).drainStep =
    none ∧
      ∃ d' ds', Merges b f d' M ds' arrived accepted (Merge.drainLoop fuel m) := by
  induction fuel generalizing d ds m with
  | zero =>
    refine ⟨?_, d, ds, h⟩
    cases hstep : m.drainStep with
    | none => exact hstep
    | some m' =>
      have := (h.drainStep hstep).1
      omega
  | succ fuel ih =>
    rw [Merge.drainLoop]
    cases hstep : m.drainStep with
    | none => exact ⟨hstep, d, ds, h⟩
    | some m' =>
      obtain ⟨hdM, ds', h'⟩ := h.drainStep hstep
      exact ih h' (by omega)

theorem drainPending (hdM : d ≤ M) :
    m.drainPending.drainStep = none ∧
      ∃ d' ds', Merges b f d' M ds' arrived accepted m.drainPending := by
  have hspan := h.span
  have hfirst := h.first
  have hnext := h.next
  refine h.drainLoop ?_
  rw [h.deliverNext, h.maxSeen, ahead_wrap hdM (by omega)]
  omega

theorem dedup (a : ℕ × Bytes) :
    Merges b f d M ds (arrived ++ [a]) accepted { m with dedups := m.dedups + 1 } := by
  refine { h with pending := fun n data hn => ?_, passed := fun x hx => ?_ }
  · obtain ⟨q, hq, hdq, hqM, harrived⟩ := h.pending n data hn
    exact ⟨q, hq, hdq, hqM, List.mem_append_left _ harrived⟩
  · obtain ⟨hf, hd, harrived⟩ := h.passed x hx
    exact ⟨hf, hd, List.mem_append_left _ harrived⟩

theorem accept (hdq : d ≤ q) (hqb : q + 1 < b + 2 ^ 30) {p : ℕ → Option Bytes} {payload : Bytes}
    (hnew : (p (wrap q)).isSome)
    (hp : ∀ n data, p n = some data → n = wrap q ∧ data = payload ∨ m.pending n = some data)
    (hp' : ∀ n, (m.pending n).isSome → (p n).isSome) {n dedups : ℕ} (hn : n = wrap (max M q)) :
    Merges b f d (max M q) ds (arrived ++ [(q, payload)]) (accepted ++ [q])
      { m with pending := p, maxSeen := n, dedups := dedups } where
  __ := h
  maxSeen := hn
  last := h.last.trans (le_max_left _ _)
  le := by
    have := h.le
    omega
  span := by
    have := h.span
    omega
  pending x data hx := by
    rcases hp x data hx with ⟨rfl, rfl⟩ | hold
    · exact ⟨q, rfl, hdq, le_max_right _ _, by simp⟩
    · obtain ⟨y, hy, hdy, hyM, harrived⟩ := h.pending x data hold
      exact ⟨y, hy, hdy, by omega, List.mem_append_left _ harrived⟩
  passed x hx := by
    obtain ⟨hf, hd, harrived⟩ := h.passed x hx
    exact ⟨hf, hd, List.mem_append_left _ harrived⟩
  skipped x hx hx' := by
    refine (h.skipped x hx hx').imp_right fun hfar => ?_
    omega
  within x hx := by
    have hfirst := h.first
    have hnext := h.next
    rcases List.mem_append.mp hx with hold | hlast
    · obtain ⟨hbx, hxM⟩ := h.within x hold
      exact ⟨hbx, by omega⟩
    · obtain rfl := List.mem_singleton.mp hlast
      exact ⟨by omega, le_max_right _ _⟩
  kept x hx := by
    rcases List.mem_append.mp hx with hold | hlast
    · exact (h.kept x hold).imp_right (hp' _)
    · obtain rfl := List.mem_singleton.mp hlast
      exact Or.inr hnew

theorem filterDelivery (hbq : b ≤ q) (hqb : q + 1 < b + 2 ^ 30) (hrest : m.drainStep = none)
    (payload : Bytes) :
    (m.filterDelivery (wrap q) payload).drainStep = none ∧
      ∃ d' M' ds', Merges b f d' M' ds' (arrived ++ [(q, payload)])
        (if m.behind (wrap q) then accepted else accepted ++ [q])
        (m.filterDelivery (wrap q) payload) := by
  have hle := h.le
  have hspan := h.span
  have hfirst := h.first
  have hnext := h.next
  have hless : lessThan (wrap q) m.deliverNext = decide (q < d) := by
    rw [h.deliverNext]
    exact lessThan_wrap (by omega) (by omega)
  have hbehind : m.behind (wrap q) = decide (q < d) := by
    rw [Merge.behind, h.dnInit, hless, Bool.true_and]
  rw [Merge.filterDelivery_of_started h.dnInit h.maxSeenSet, hbehind, hless]
  by_cases hlt : q < d
  · simp only [hlt, decide_true, if_true]
    exact ⟨Merge.drainStep_dedups hrest _, d, M, ds, h.dedup _⟩
  simp only [hlt, decide_false, Bool.false_eq_true, if_false]
  by_cases hpending : (m.pending (wrap q)).isSome
  · -- another member has brought it already
    obtain ⟨data, hdata⟩ := Option.isSome_iff_exists.mp hpending
    obtain ⟨q', hq', hdq', hqM', -⟩ := h.pending _ _ hdata
    obtain rfl : q = q' := eq_of_wrap_eq hq' (by omega) (by omega)
    have hmax : m.maxSeen = wrap (max M q) := by rw [max_eq_left hqM', h.maxSeen]
    rw [if_pos hpending]
    exact ⟨Merge.drainStep_dedups hrest _, d, max M q, ds,
      h.accept hdq' hqb hpending (fun n data hn => Or.inr hn) (fun n hn => hn) hmax⟩
  · have hmax : (if greaterThan (wrap q) m.maxSeen then wrap q else m.maxSeen) =
        wrap (max M q) := by
      rw [h.maxSeen, greaterThan_wrap (by omega) (by omega)]
      simp only [decide_eq_true_eq]
      split_ifs with hahead
      · rw [max_eq_right hahead.le]
      · rw [max_eq_left (by omega)]
    have hold : ∀ x data, update m.pending (wrap q) (some payload) x = some data →
        x = wrap q ∧ data = payload ∨ m.pending x = some data := by
      intro x data hx
      by_cases hsame : x = wrap q
      · rw [hsame, update_self] at hx
        exact Or.inl ⟨hsame, (Option.some.inj hx).symm⟩
      · rw [update_of_ne hsame] at hx
        exact Or.inr hx
    have hstill : ∀ x, (m.pending x).isSome →
        (update m.pending (wrap q) (some payload) x).isSome := by
      intro x hx
      by_cases hsame : x = wrap q
      · simp [hsame]
      · rwa [update_of_ne hsame]
    obtain ⟨hrest', d', ds', h'⟩ :=
      (h.accept (by omega) hqb (by simp) hold hstill hmax).drainPending (by omega)
    rw [if_neg hpending]
    exact ⟨hrest', d', max M q, ds', h'⟩

end

end Merges

theorem merges_first (hbq : b ≤ q) (hqb : q + 1 < b + 2 ^ 30) (payload : Bytes) :
    (Merge.filterDelivery {} (wrap q) payload).drainStep = none ∧
      ∃ d' ds', Merges b q d' q ds' [(q, payload)] [q]
        (Merge.filterDelivery {} (wrap q) payload) := by
  have hstored : Merges b q q q [] [(q, payload)] [q]
      { pending := update (fun _ => none) (wrap q) (some payload), deliverNext := wrap q,
        dnInit := true,
        maxSeen := wrap q, maxSeenSet := true } := by
    refine ⟨rfl, rfl, rfl, rfl, hbq, le_rfl, le_rfl,
      by omega, hqb, fun n data hn => ?_, rfl, by simp, by simp,
      fun x hx hx' => by omega, fun x hx => ?_, fun x hx => ?_⟩
    · by_cases hsame : n = wrap q
      · simp only [hsame, update_self] at hn
        obtain rfl := Option.some.inj hn
        exact ⟨q, hsame, le_rfl, le_rfl, by simp⟩
      · simp [update_of_ne hsame] at hn
    · obtain rfl := List.mem_singleton.mp hx
      exact ⟨hbq, le_rfl⟩
    · obtain rfl := List.mem_singleton.mp hx
      exact Or.inr (by simp)
  have heq : Merge.filterDelivery {} (wrap q) payload = Merge.drainPending
      { pending := update (fun _ => none) (wrap q) (some payload), deliverNext := wrap q,
        dnInit := true,
        maxSeen := wrap q, maxSeenSet := true } := by
    simp [Merge.filterDelivery, lessThan_self]
  rw [heq]
  exact hstored.drainPending le_rfl

/-! ## Runs -/

def Watched.Sound (b : ℕ) (w : Watched) : Prop :=
  w.merge.drainStep = none ∧ (w = {} ∨ ∃ a d M ds, w.arrived.head? = some a ∧
    Merges b a.1 d M ds w.arrived w.accepted w.merge)

theorem Watched.Sound.step (h : w.Sound b) {a : ℕ × Bytes} (hba : b ≤ a.1)
    (hab : a.1 + 1 < b + 2 ^ 30) :
    (w.step a).Sound b := by
  obtain ⟨q, payload⟩ := a
  rcases h with ⟨hrest, rfl | ⟨first, d, M, ds, hfirst, hmerges⟩⟩
  · obtain ⟨hrest', d', ds', h'⟩ := merges_first hba hab payload
    exact ⟨hrest', Or.inr ⟨(q, payload), d', q, ds', rfl, h'⟩⟩
  · obtain ⟨hrest', d', M', ds', h'⟩ := hmerges.filterDelivery hba hab hrest payload
    refine ⟨hrest', Or.inr ⟨first, d', M', ds', ?_, h'⟩⟩
    show (w.arrived ++ [(q, payload)]).head? = some first
    rw [List.head?_append, hfirst]
    rfl

theorem Watched.Sound.inOrder (h : w.Sound b) : w.InOrder b := by
  obtain ⟨hrest, rfl | ⟨a, d, M, ds, hfirst, hmerges⟩⟩ := h
  · exact ⟨hrest, by simp, by simp, by simp, by simp, by simp⟩
  · have hle := hmerges.le
    have hspan := hmerges.span
    have hbf := hmerges.first
    have hlast := hmerges.last
    have hnext := hmerges.next
    have hunwrap : ∀ x ∈ ds, unwrap b (wrap x.1) = x.1 := fun x hx => by
      obtain ⟨hf, hd, -⟩ := hmerges.passed x hx
      exact unwrap_wrap (by omega) (by omega)
    have hnumbers : w.merge.delivered.map Prod.fst = (ds.map Prod.fst).map wrap := by
      rw [hmerges.delivered]
      simp
    have hd : unwrap b w.merge.deliverNext = d := by
      rw [hmerges.deliverNext]
      exact unwrap_wrap (by omega) (by omega)
    have hM : unwrap b w.merge.maxSeen = M := by
      rw [hmerges.maxSeen]
      exact unwrap_wrap (by omega) (by omega)
    refine ⟨hrest, ?_, fun x hx => ?_, fun q hq => ?_, fun n hn => ?_, fun a' ha' x hx hx' => ?_⟩
    · have hpositions : (w.merge.delivered.map fun x => unwrap b x.1) = ds.map Prod.fst := by
        rw [hmerges.delivered, List.map_map]
        exact List.map_congr_left hunwrap
      rw [hpositions]
      exact hmerges.increasing
    · rw [hmerges.delivered] at hx
      obtain ⟨y, hy, rfl⟩ := List.mem_map.mp hx
      show (unwrap b (wrap y.1), y.2) ∈ w.arrived
      rw [hunwrap y hy]
      exact (hmerges.passed y hy).2.2
    · rw [hnumbers]
      exact (hmerges.kept q hq).imp_left (List.mem_map_of_mem)
    · obtain ⟨data, hdata⟩ := Option.isSome_iff_exists.mp hn
      obtain ⟨q, rfl, hdq, hqM, -⟩ := hmerges.pending n data hdata
      rw [hd, unwrap_wrap (by omega) (by omega)]
      refine ⟨hdq, ?_⟩
      -- otherwise the loop would have skipped the next position
      by_contra hfar
      have hnone : w.merge.pending w.merge.deliverNext = none := by
        by_contra hsome
        obtain ⟨data', hdata'⟩ := Option.ne_none_iff_exists'.mp hsome
        simp [Merge.drainStep, hdata'] at hrest
      have hwindow : groupReorderWindow = 256 := rfl
      have hgreater : greaterThan w.merge.maxSeen (add w.merge.deliverNext groupReorderWindow) =
          true := by
        rw [hmerges.maxSeen, hmerges.deliverNext, add_wrap, greaterThan_wrap (by omega) (by omega)]
        exact decide_eq_true (by omega)
      simp [Merge.drainStep, hnone, hmerges.maxSeenSet, hgreater] at hrest
    · obtain rfl : a = a' := Option.some.inj (hfirst.symm.trans ha')
      rw [hd] at hx'
      rw [hM, hnumbers]
      exact (hmerges.skipped x hx hx').imp_left (List.mem_map_of_mem)

/-- The merge of any deliveries whose positions lie in an interval of fewer than `2 ^ 30` positions
is in order after each of them. -/
theorem merge_in_order {b n : ℕ} (hn : n < 2 ^ 30) (arrivals : List (ℕ × Bytes))
    (hspan : ∀ a ∈ arrivals, b ≤ a.1 ∧ a.1 < b + n) :
    AllStates Watched.step (Watched.InOrder b) {} arrivals := by
  have hsteps : AllSteps Watched.step (fun _ a => b ≤ a.1 ∧ a.1 < b + n) {} arrivals :=
    allSteps_of_forall_mem hspan
  have hinit : Watched.Sound b {} := ⟨rfl, Or.inl rfl⟩
  refine (hsteps.allStates (Q := Watched.Sound b) (fun w a hw ha => hw.step ha.1 (by omega))
    hinit).mono ?_
  exact fun w hw => hw.inOrder

/-- Across the wrap of the numbers: the second link has lost the last number before it. -/
theorem merge_in_order_across_wrap :
    let w := exec Watched.step {} [(2 ^ 31 - 2, [1]), (2 ^ 31, [3]), (2 ^ 31 - 1, [2]),
      (2 ^ 31, [3])]
    w.InOrder (2 ^ 31 - 2) ∧ w.merge.delivered.map Prod.fst = [2 ^ 31 - 2, 2 ^ 31 - 1, 0] := by
  refine ⟨?_, by decide +kernel⟩
  refine (merge_in_order (n := 3) (by norm_num) _ ?_).exec
  decide

/-- The numbers `2 ^ 30 - 1` and 0, in this order: the next number is `2 ^ 30`, from which 0 is so
far away that it counts as ahead.  It stays pending, far outside the window. -/
theorem stale_number_kept :
    ¬AllStates Watched.step (Watched.InOrder 0) {} [(2 ^ 30 - 1, [1]), (0, [2])] := by
  intro h
  have hwindow := (h.exec.window 0 (by decide +kernel)).1
  exact absurd hwindow (by decide +kernel)

end SrtGo.Bonding
