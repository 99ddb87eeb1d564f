import SrtGo.Lib.Bytes
import SrtGo.Seq

/-!
# The packet filter configuration

A filter string such as `fec,cols:10,rows:5,layout:staircase,arq:onreq` names the
size of the parity matrix, how its columns are laid out over the stream, and how
the filter shares loss reporting with retransmission.  The registry of filters
holds the built-in one only.
-/

namespace SrtGo.Filter

/-- How forward error correction shares loss reporting with retransmission. -/
inductive ARQLevel where
  | always
  | onReq
  | never
deriving DecidableEq, Repr, Inhabited

inductive Layout where
  | staircase
  | even
deriving DecidableEq, Repr, Inhabited

structure Config where
  cols : ℕ := 0
  rows : ℕ := 1
  layout : Layout := .staircase
  arq : ARQLevel := .onReq
  colsOnly : Bool := false
deriving DecidableEq, Repr, Inhabited

def digits? : List Char → Option ℕ
  | [] => none
  | cs =>
    if cs.all Char.isDigit then some (cs.foldl (fun n c => n * 10 + (c.toNat - 48)) 0) else none

def atoi (cs : List Char) : Option ℤ :=
  let value : Option ℤ :=
    match cs with
    | '-' :: cs => (digits? cs).map fun n => -(n : ℤ)
    | '+' :: cs => (digits? cs).map fun n => (n : ℤ)
    | cs => (digits? cs).map fun n => (n : ℤ)
  value.bind fun n => if -(2 ^ 63) ≤ n ∧ n < 2 ^ 63 then some n else none

def splitFirst (sep : Char) : List Char → Option (List Char × List Char)
  | [] => none
  | c :: cs =>
    if c = sep then some ([], cs)
    else (splitFirst sep cs).map fun kv => (c :: kv.1, kv.2)

def quoted (cs : List Char) : String := "\"" ++ String.ofList cs ++ "\""

/-- Apply one `key:value` parameter; the flag says whether `cols` has been seen. -/
def parseParameter (part : List Char) (state : Config × Bool) : Except String (Config × Bool) :=
  match splitFirst ':' part with
  | none => .error ("filter: invalid parameter " ++ quoted part ++ " (expected key:value)")
  | some (key, val) =>
    if key = "cols".toList then
      match atoi val with
      | none => .error ("filter: invalid cols value " ++ quoted val)
      | some v =>
        if v < 2 then .error s!"filter: cols must be >= 2, got {v}"
        else .ok ({ state.1 with cols := v.toNat }, true)
    else if key = "rows".toList then
      match atoi val with
      | none => .error ("filter: invalid rows value " ++ quoted val)
      | some v =>
        if v ≤ 0 then .error s!"filter: rows must be positive, got {v}"
        else .ok ({ state.1 with rows := v.toNat }, state.2)
    else if key = "layout".toList then
      if val = "staircase".toList then .ok ({ state.1 with layout := .staircase }, state.2)
      else if val = "even".toList then .ok ({ state.1 with layout := .even }, state.2)
      else .error ("filter: invalid layout " ++ quoted val ++
        " (must be \"even\" or \"staircase\")")
    else if key = "arq".toList then
      if val = "always".toList then .ok ({ state.1 with arq := .always }, state.2)
      else if val = "onreq".toList then .ok ({ state.1 with arq := .onReq }, state.2)
      else if val = "never".toList then .ok ({ state.1 with arq := .never }, state.2)
      else .error ("filter: invalid arq " ++ quoted val ++
        " (must be \"always\", \"onreq\", or \"never\")")
    else .error ("filter: unknown parameter " ++ quoted key)

def parseParameters : List (List Char) → Config × Bool → Except String (Config × Bool)
  | [], state => .ok state
  | part :: parts, state =>
    match parseParameter part state with
    | .error e => .error e
    | .ok state => parseParameters parts state

def parseConfig (s : String) : Except String Config :=
  if s.toList = [] then .error "filter: empty config string"
  else
    match s.toList.splitOn ',' with
    | [] => .error "filter: empty config parts"
    | name :: parts =>
      if name ≠ "fec".toList then
        .error ("filter: unknown filter type " ++ quoted name ++ " (registered: fec)")
      else
        match parseParameters parts ({}, false) with
        | .error e => .error e
        | .ok (cfg, hasCols) =>
          if !hasCols then .error "filter: cols parameter is mandatory" else .ok cfg

/-! ## What is accepted -/

/-- The parameters so far are within their bounds: `cols` once it has been seen,
`rows` always, and the rows are never suppressed. -/
def InBounds (state : Config × Bool) : Prop :=
  (state.2 = true → 2 ≤ state.1.cols) ∧ 1 ≤ state.1.rows ∧ state.1.colsOnly = false

theorem inBounds_parseParameter {part : List Char} {state state' : Config × Bool}
    (h : InBounds state) (hparse : parseParameter part state = .ok state') : InBounds state' := by
  unfold parseParameter at hparse
  split at hparse
  · simp at hparse
  · rename_i key val _
    split_ifs at hparse with hcols hrows hlayout hstair heven harq halways honreq hnever
    · split at hparse
      · simp at hparse
      · rename_i v _
        split_ifs at hparse with hv
        obtain rfl := Except.ok.inj hparse
        exact ⟨fun _ => by simp only; omega, h.2.1, h.2.2⟩
    · split at hparse
      · simp at hparse
      · rename_i v _
        split_ifs at hparse with hv
        obtain rfl := Except.ok.inj hparse
        exact ⟨h.1, by simp only; omega, h.2.2⟩
    all_goals
      obtain rfl := Except.ok.inj hparse
      exact h

theorem inBounds_parseParameters {parts : List (List Char)} {state state' : Config × Bool}
    (h : InBounds state) (hparse : parseParameters parts state = .ok state') :
    InBounds state' := by
  induction parts generalizing state with
  | nil =>
    obtain rfl := Except.ok.inj hparse
    exact h
  | cons part parts ih =>
    simp only [parseParameters] at hparse
    split at hparse
    · simp at hparse
    · rename_i next hnext
      exact ih (inBounds_parseParameter h hnext) hparse

theorem parseConfig_bounds {s : String} {cfg : Config} (h : parseConfig s = .ok cfg) :
    2 ≤ cfg.cols ∧ 1 ≤ cfg.rows ∧ cfg.colsOnly = false := by
  unfold parseConfig at h
  split_ifs at h
  split at h
  · simp at h
  · split_ifs at h
    split at h
    · simp at h
    · rename_i parsed hasCols hparse
      have hinit : InBounds ({}, false) := ⟨by simp, le_rfl, rfl⟩
      have hbounds := inBounds_parseParameters hinit hparse
      split_ifs at h with hcols
      obtain rfl := Except.ok.inj h
      exact ⟨hbounds.1 (by simpa using hcols), hbounds.2⟩

end SrtGo.Filter
