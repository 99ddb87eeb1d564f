import SrtGo.Secure.Keystream

/-!
# Repeated announcements

A new key is announced ahead of the switch, and the announcement is repeated when its timer fires,
until the peer confirms it or it has been repeated ten times.

`Watch` looks at a connection from outside: it keeps the announcements that were sent and that are
neither confirmed nor repeated ten times, and `Persists` says that a firing of the timer repeats
each of them.  The connection does not always do so.  It forgets the announcement when it switches
to the new key, which may be long before the peer has answered, it takes any answer for a
confirmation, whatever key the answer is about, and an announcement of the peer can replace the
key that waits.  As long as none of these happens, the announcement that the connection remembers
is the one that waits.
-/

namespace SrtGo.Core

open Buffer Bytes Congestion Crypto Run SrtGo.Seq

/-! ## Seen from outside -/

def Output.kmreq? (o : Output) : Option Bytes :=
  o.packet?.bind fun p => if p.isKMREQ then some p.data else none

def kmreqs (os : List Output) : List Bytes := os.filterMap Output.kmreq?

def Output.armsKMRefresh : Output → Bool
  | .setTimer .kmRefresh _ => true
  | _ => false

theorem kmreqs_append (os os' : List Output) : kmreqs (os ++ os') = kmreqs os ++ kmreqs os' :=
  List.filterMap_append

theorem kmreqs_eq_nil {os : List Output} (h : ∀ o ∈ os, o.isKMREQ = false) : kmreqs os = [] := by
  refine List.filterMap_eq_nil_iff.mpr fun o ho => ?_
  have hno := h o ho
  unfold Output.isKMREQ at hno
  unfold Output.kmreq?
  cases hp : o.packet? with
  | none => rfl
  | some p =>
    rw [hp] at hno
    rw [Option.bind_some, if_neg (by simpa using hno)]

/-- An announcement, and how often it has been repeated. -/
structure Announcement where
  payload : Bytes
  retries : ℕ
deriving DecidableEq

/-- A connection, and the announcements that wait: they are neither confirmed nor repeated ten
times. -/
structure Watch (σ : Type) where
  conn : Conn σ
  waiting : List Announcement := []

namespace Watch

variable {σ : Type} [Controller σ] [Primitives]

def sent (w : Watch σ) (i : Input) : List Output :=
  (w.conn.step i).outputs.drop w.conn.outputs.length

def first (w : Watch σ) (i : Input) : List Announcement := (kmreqs (w.sent i)).map fun a => ⟨a, 0⟩

/-- The announcements after a step: the timer repeats them, and an answer with the same key material
confirms one. -/
def note (w : Watch σ) (i : Input) : List Announcement :=
  match i with
  | .timer _ .kmRefresh =>
    w.waiting.map fun e => { e with retries := e.retries + (kmreqs (w.sent i)).count e.payload }
  | .packet _ p =>
    (w.waiting.filter fun e => !(p.isKMRSP && decide (p.data = e.payload))) ++ w.first i
  | _ => w.waiting ++ w.first i

def step (w : Watch σ) (i : Input) : Watch σ :=
  ⟨w.conn.step i, (w.note i).filter fun e => decide (e.retries < 10)⟩

/-- When the timer of an open connection fires, every announcement that waits is repeated, and the
timer is armed again unless this was the tenth time. -/
def Persists (w : Watch σ) : Input → Prop
  | .timer now .kmRefresh => w.conn.closed = false → ∀ e ∈ w.waiting,
      e.payload ∈ kmreqs (w.sent (.timer now .kmRefresh)) ∧
        (e.retries + 1 < 10 → ∃ o ∈ w.sent (.timer now .kmRefresh), o.armsKMRefresh = true)
  | _ => True

end Watch

/-! ## The announcement that the connection remembers

The connection counts down from ten what the watch counts up, and makes the announcement anew from
the slot `kmRetryKey` each time.
-/

namespace KeySide

def waits (k : KeySide) : Bool := k.kmAnnounced && !k.kmConfirmed && decide (0 < k.kmRetryCount)

/-- There is no hurry about the next `n` packets: they do not reach the switch, or they reach it
once, and the announcement does not wait any more. -/
def Unhurried (R n : ℕ) (k : KeySide) : Prop :=
  R = 0 ∨ k.kmPacketCount + n < R ∨
    k.kmAnnounced = true ∧ k.waits = false ∧ k.kmPacketCount + n < 2 * R

instance (R n : ℕ) (k : KeySide) : Decidable (k.Unhurried R n) :=
  inferInstanceAs (Decidable (_ ∨ _ ∨ _))

theorem Unhurried.mono {R n m : ℕ} {k : KeySide} (h : k.Unhurried R n) (hle : m ≤ n) :
    k.Unhurried R m := by
  rcases h with h | h | ⟨hann, hsettled, h⟩
  · exact Or.inl h
  · exact Or.inr (Or.inl (by omega))
  · exact Or.inr (Or.inr ⟨hann, hsettled, by omega⟩)

variable [Primitives]

def offer? (passphrase : String) (k : KeySide) : Option Bytes :=
  k.cryptoCtx.bind fun ctx => (ctx.marshalKM passphrase k.kmRetryKey).toOption.map
    CIFKeyMaterial.marshalCIF

/-- The announcements that wait are those that the keys remember. -/
def Tracks (passphrase : String) (k : KeySide) (es : List Announcement) : Prop :=
  (k.waits = true → ∃ a r, es = [⟨a, r⟩] ∧ (r : ℤ) + k.kmRetryCount = 10 ∧
    k.offer? passphrase = some a) ∧
    (k.waits = false → es = [])

variable {passphrase : String} {k k' : KeySide} {es : List Announcement} {R P n : ℕ}

theorem Tracks.congr (h : k.Tracks passphrase es) (hctx : k'.cryptoCtx = k.cryptoCtx)
    (hwaits : k'.waits = k.waits) (hkey : k'.kmRetryKey = k.kmRetryKey)
    (hcount : k'.kmRetryCount = k.kmRetryCount) : k'.Tracks passphrase es := by
  unfold Tracks offer?
  rw [hwaits, hctx, hkey, hcount]
  exact h

theorem Tracks.of_settled (h : k.Tracks passphrase es) (hsettled : k.waits = false)
    (hsettled' : k'.waits = false) : k'.Tracks passphrase es := by
  refine ⟨fun hwaits => absurd (hsettled'.symm.trans hwaits) Bool.false_ne_true,
    fun _ => h.2 hsettled⟩

theorem Tracks.filter (h : k.Tracks passphrase es) :
    es.filter (fun e => decide (e.retries < 10)) = es := by
  cases hwaits : k.waits with
  | false => rw [h.2 hwaits, List.filter_nil]
  | true =>
    obtain ⟨a, r, rfl, hretries, -⟩ := h.1 hwaits
    simp only [waits, Bool.and_eq_true, decide_eq_true_eq] at hwaits
    rw [List.filter_cons_of_pos (by simp only [decide_eq_true_eq]; omega), List.filter_nil]

omit [Primitives] in
theorem kmDecommission_of_kmAnnounced {W : Context → PacketEncryption → Prop} (h : Keeps W P k)
    (hann : k.kmAnnounced = true) : k.kmDecommission = false := by
  cases hwaits : k.kmDecommission with
  | false => rfl
  | true => exact absurd ((h.pending hwaits).2.2.symm.trans hann) Bool.false_ne_true

omit [Primitives] in
theorem decommission_fields (k : KeySide) (P : ℕ) : (k.decommission P).kmPacketCount =
    k.kmPacketCount ∧
    (k.decommission P).kmAnnounced = k.kmAnnounced ∧ (k.decommission P).waits = k.waits := by
  unfold decommission
  split_ifs <;> exact ⟨rfl, rfl, rfl⟩

abbrev Sized (preAnnounce : ℕ) (k : KeySide) : Prop :=
  Keeps (fun ctx _ => validKeySize ctx.keyLength = true) preAnnounce k

omit [Primitives] in
theorem Sized.advance (hrates : 2 * P ≤ R) (h : k.Sized P) : (k.advance R P).Sized P := by
  obtain ⟨ctx, hctx, -⟩ := h.context
  have hset : ∀ (ctx : Context) (key : PacketEncryption) (s : Slot),
    validKeySize ctx.keyLength = true →
      validKeySize (ctx.setSlot key s).keyLength = true := by
    intro ctx key s hsize
    rw [(Context.setSlot_fields ctx key s).2.1]
    exact hsize
  exact Keeps.advance hrates h hctx (fun ctx key other _ hsize => hset ctx other _ hsize)
    (fun _ _ hsize => hsize) (fun _ _ _ _ hsize => hsize)
    fun _ sek _ _ _ hsize => ⟨hset _ _ _ hsize, hset _ _ _ hsize⟩

variable [LawfulPrimitives]

omit [Primitives] [LawfulPrimitives] in
theorem advance_of_waits (hkeeps : k.Sized P) (hslow : k.Unhurried R (n + 1)) (hpos : 0 < R)
    (hwaits : k.waits = true) : k.count.due R P = false ∧ k.advance R P = k.count ∧
      k.kmPacketCount + 1 + n < R := by
  have hann : k.kmAnnounced = true := by
    simp only [waits, Bool.and_eq_true] at hwaits
    exact hwaits.1.1
  obtain ⟨ctx, hctx, -⟩ := hkeeps.context
  have hdue : k.count.due R P = false := due_of_announced hann R P
  have hfar : k.kmPacketCount + (n + 1) < R := by
    rcases hslow with hzero | hfar | ⟨-, hsettled, -⟩
    · omega
    · exact hfar
    · exact absurd (hsettled.symm.trans hwaits) Bool.false_ne_true
  exact ⟨hdue, advance_eq_count hctx hdue (by omega) (kmDecommission_of_kmAnnounced hkeeps hann),
    by omega⟩

omit [Primitives] [LawfulPrimitives] in
theorem advance_of_settled (hkeeps : k.Sized P) (hslow : k.Unhurried R (n + 1)) (hpos : 0 < R)
    (hann : k.kmAnnounced = true) (hsettled : k.waits = false) :
    k.count.due R P = false ∧ (k.advance R P).waits = false ∧ (k.advance R P).Unhurried R n := by
  obtain ⟨ctx, hctx, -⟩ := hkeeps.context
  have hdue : k.count.due R P = false := due_of_announced hann R P
  refine ⟨hdue, ?_⟩
  have hnear : k.kmPacketCount + (n + 1) < 2 * R := by
    rcases hslow with hzero | hfar | ⟨-, -, hnear⟩ <;> omega
  by_cases hswitch : R ≤ k.kmPacketCount + 1
  · have hadvance : k.advance R P = (k.count.switchKey R).decommission P := by
      unfold advance
      simp only [hctx, hdue, Bool.false_eq_true, if_false]
    have hswitched : k.count.switchKey R = { k.count with
        activeKey := oppositeKey k.activeKey
        kmPacketCount := 0
        kmAnnounced := false
        kmDecommission := true
        kmSwitchCount := 0 } := if_pos hswitch
    obtain ⟨hcount, -, hwaits⟩ := (k.count.switchKey R).decommission_fields P
    rw [hadvance]
    refine ⟨hwaits.trans (by rw [hswitched]; rfl), Or.inr (Or.inl ?_)⟩
    rw [hcount, show (k.count.switchKey R).kmPacketCount = 0 by rw [hswitched]]
    omega
  · have hfar : k.kmPacketCount + 1 < R := not_le.mp hswitch
    rw [advance_eq_count hctx hdue hfar (kmDecommission_of_kmAnnounced hkeeps hann)]
    refine ⟨hsettled, Or.inr (Or.inr ⟨hann, hsettled, ?_⟩)⟩
    show k.kmPacketCount + 1 + n < 2 * R
    omega

variable {ctx : Context}

omit [Primitives] [LawfulPrimitives] in
theorem advance_of_silent (hrates : 2 * P ≤ R) (hkeeps : k.Sized P) (hslow : k.Unhurried R (n + 1))
    (hpos : 0 < R) (hctx : k.cryptoCtx = some ctx) (hann : k.kmAnnounced = false) :
    (k.advance R P).kmPacketCount = k.kmPacketCount + 1 ∧ k.kmPacketCount + 1 + n < R ∧
      ((k.count.due R P = false ∨ (ctx.generateSEK (oppositeKey k.activeKey)).2 ≠ none) ∧
          (k.advance R P).kmAnnounced = false ∨
        k.count.due R P = true ∧ ∃ ctx', ctx.generateSEK (oppositeKey k.activeKey) = (ctx', none) ∧
          k.advance R P = k.count.announce ctx' (oppositeKey k.activeKey)) := by
  have hfar : k.kmPacketCount + (n + 1) < R := by
    rcases hslow with hzero | hfar | ⟨hann', -, -⟩
    · omega
    · exact hfar
    · exact absurd (hann.symm.trans hann') Bool.false_ne_true
  have hkeep : ∀ k' : KeySide, k'.kmPacketCount = k.kmPacketCount + 1 → k'.switchKey R = k' := by
    intro k' hcount
    refine if_neg ?_
    rw [hcount]
    omega
  unfold advance
  simp only [hctx]
  cases hdue : k.count.due R P with
  | false =>
    simp only [Bool.false_eq_true, if_false]
    rw [hkeep k.count rfl]
    obtain ⟨hcount, hannounced, -⟩ := k.count.decommission_fields P
    exact ⟨hcount, by omega, Or.inl ⟨Or.inl trivial, hannounced.trans hann⟩⟩
  | true =>
    simp only [if_true]
    rcases ctx.generateSEK_cases (oppositeKey_even_or_odd k.activeKey) with ⟨e, hgen⟩ | ⟨sek, -, -,
      hgen⟩
    · rw [hgen]
      exact ⟨rfl, by omega, Or.inl ⟨Or.inr (by simp), hann⟩⟩
    · rw [hgen]
      simp only
      rw [hkeep (k.count.announce _ _) rfl]
      -- the old key has been cleared by now
      have hcleared : k.kmDecommission = false := by
        cases hwaits : k.kmDecommission with
        | false => rfl
        | true =>
          obtain ⟨hcount, hlt, -⟩ := hkeeps.pending hwaits
          have hreached := le_of_due hdue
          omega
      have hsame : ∀ k' : KeySide, k'.kmDecommission = false → k'.decommission P = k' := by
        intro k' hk'
        exact if_neg (by rw [hk']; exact Bool.false_ne_true)
      rw [hsame (k.count.announce _ _) hcleared]
      exact ⟨rfl, by omega, Or.inr ⟨trivial, _, rfl, rfl⟩⟩

/-- One more packet: what waits goes on to wait, or the next key is announced. -/
theorem Tracks.advance (hrates : 2 * P ≤ R) (hkeeps : k.Sized P) (hpos : 0 < R)
    (hslow : k.Unhurried R (n + 1))
    (hctx : k.cryptoCtx = some ctx) (h : k.Tracks passphrase es) : (k.advance R P).Unhurried R n ∧
      ((k.count.due R P = false ∨ (ctx.generateSEK (oppositeKey k.activeKey)).2 ≠ none) ∧
          (k.advance R P).Tracks passphrase es ∨
        k.count.due R P = true ∧ ∃ ctx' km, ctx.generateSEK (oppositeKey k.activeKey) =
          (ctx', none) ∧
          ctx'.marshalKM passphrase (oppositeKey k.activeKey) = .ok km ∧
          (k.advance R P).Tracks passphrase (es ++ [⟨km.marshalCIF, 0⟩])) := by
  cases hwaits : k.waits with
  | true =>
    obtain ⟨hdue, hadvance, hfar⟩ := advance_of_waits hkeeps hslow hpos hwaits
    rw [hadvance]
    exact ⟨Or.inr (Or.inl hfar), Or.inl ⟨Or.inl hdue, h.congr rfl rfl rfl rfl⟩⟩
  | false =>
    cases hann : k.kmAnnounced with
    | true =>
      obtain ⟨hdue, hsettled, hunhurried⟩ := advance_of_settled hkeeps hslow hpos hann hwaits
      exact ⟨hunhurried, Or.inl ⟨Or.inl hdue, h.of_settled hwaits hsettled⟩⟩
    | false =>
      obtain ⟨hcount, hfar, hcases⟩ := advance_of_silent hrates hkeeps hslow hpos hctx hann
      refine ⟨Or.inr (Or.inl (by omega)), ?_⟩
      rcases hcases with ⟨hidle, hsilent⟩ | ⟨hdue, ctx', hgen, hadvance⟩
      · refine Or.inl ⟨hidle, h.of_settled hwaits ?_⟩
        unfold waits
        rw [hsilent]
        rfl
      · have hsize : validKeySize ctx'.keyLength = true := by
          have hsized := hkeeps.advance hrates
          rw [hadvance] at hsized
          obtain ⟨ctx₁, hctx₁, hsize, -⟩ := hsized.context
          obtain rfl : ctx' = ctx₁ := Option.some.inj hctx₁
          exact hsize
        obtain ⟨km, hkm⟩ : ∃ km, ctx'.marshalKM passphrase (oppositeKey k.activeKey) = .ok km :=
          Context.exists_marshalKM hsize (oppositeKey_ne_none _)
        refine Or.inr ⟨hdue, ctx', km, hgen, hkm, ?_⟩
        rw [h.2 hwaits, hadvance]
        refine ⟨fun _ => ⟨_, 0, rfl, by norm_num [announce, srtMaxKMRetry], ?_⟩, fun hnot => ?_⟩
        · show (ctx'.marshalKM passphrase (oppositeKey k.activeKey)).toOption.map _ = _
          rw [hkm]
          rfl
        · exact absurd hnot (by simp [waits, announce, srtMaxKMRetry])

end KeySide

/-! ## One step

A step may send many packets, each of which advances the rotation.  `Remembers` goes from packet to
packet; `bound` is the length of the history after the last of them.
-/

namespace Conn

variable {σ : Type} {c c' : Conn σ} {es : List Announcement} {bound : ℕ}

theorem kmreqs_of_emits (h : Emits (fun o => o.isKMREQ = false) c c') :
    kmreqs c'.outputs = kmreqs c.outputs := by
  obtain ⟨os, hos, hnone⟩ := h
  rw [hos, kmreqs_append, kmreqs_eq_nil hnone, List.append_nil]

theorem kmreqs_of_signal (h : Emits Signal c c') : kmreqs c'.outputs = kmreqs c.outputs :=
  kmreqs_of_emits (h.mono fun _ ho => (passive_of_signal ho).2)

section
variable [Controller σ] [Primitives]

/-- What a part of a step has done: what waited, and what has been announced since, is what the keys
remember. -/
structure Remembers (c : Conn σ) (es : List Announcement) (bound : ℕ) (c₁ : Conn σ) : Prop where
  params : c₁.params = c.params
  dataOnly : c₁.DataOnly
  sized : c₁.key.Sized c.params.kmPreAnnounce
  tracks : c₁.history.length ≤ bound → ∃ new, kmreqs c₁.outputs = kmreqs c.outputs ++ new ∧
    c₁.key.Tracks c.params.passphrase (es ++ new.map fun a => ⟨a, 0⟩) ∧
    c₁.key.Unhurried c.params.kmRefreshRate (bound - c₁.history.length)

omit [Controller σ] in
theorem Remembers.congr {c₁ c₂ : Conn σ} (h : Remembers c es bound c₁)
    (hparams : c₂.params = c₁.params)
    (hdata : c₂.DataOnly) (hkey : c₂.key = c₁.key) (hhistory : c₂.history = c₁.history)
    (hkmreqs : kmreqs c₂.outputs = kmreqs c₁.outputs) : Remembers c es bound c₂ := by
  refine ⟨hparams.trans h.params, hdata, by rw [hkey]; exact h.sized, fun hle => ?_⟩
  rw [hhistory] at hle
  rw [hhistory, hkmreqs, hkey]
  exact h.tracks hle

variable [LawfulPrimitives] {i : Input}

theorem Remembers.packet {c₁ : Conn σ}
    (hrates : c.params.kmRefreshRate = 0 ∨ 2 * c.params.kmPreAnnounce ≤ c.params.kmRefreshRate)
    (hpass : c.params.passphrase ≠ "") (h : Remembers c es bound c₁) (seqNo ts : ℕ) (f : Frame) :
    Remembers c es bound (c₁.sendData i.now seqNo ts f) := by
  have hmove : SideMove i c c₁ (c₁.sendData i.now seqNo ts f) := .packet c₁ seqNo ts f
  have hdata := hmove.dataOnly h.dataOnly
  have hparams := hmove.params.trans h.params
  have hp : c₁.params = c.params := h.params
  rcases sendData_transmits c₁ i.now seqNo ts f with hsame | ⟨c₂, hsends, hhistory, heq⟩
  · rw [hsame]
    exact h
  · have hquiet := kmreqs_of_emits hsends.silent
    have hlength := (congrArg List.length hhistory).trans hsends.length
    by_cases hrotates : c₁.key.cryptoCtx.isSome ∧ 0 < c₁.params.kmRefreshRate
    · rw [if_pos hrotates] at heq
      obtain ⟨ctx, hctx⟩ := Option.isSome_iff_exists.mp hrotates.1
      have hpos : 0 < c.params.kmRefreshRate := hp ▸ hrotates.2
      have hratio := hrates.resolve_left hpos.ne'
      have hkey : (c₁.sendData i.now seqNo ts f).key =
          c₁.key.advance c.params.kmRefreshRate c.params.kmPreAnnounce := by
        rw [heq, key_checkKeyRotation, hsends.key, hsends.params, hp]
      refine ⟨hparams, hdata, by rw [hkey]; exact h.sized.advance hratio, fun hle => ?_⟩
      obtain ⟨new, hnew, htracks, hslow⟩ := h.tracks (by omega)
      rw [show bound - c₁.history.length = bound - (c₁.sendData i.now seqNo ts f).history.length +
        1 by omega] at hslow
      obtain ⟨hslow', hcases⟩ := htracks.advance hratio h.sized hpos hslow hctx
      obtain ⟨hidle, hannounce⟩ :=
        outputs_checkKeyRotation c₂ i.now (by rw [hsends.key]; exact hctx)
      rw [← heq, hsends.key, hsends.params, hp] at hidle hannounce
      rw [hkey]
      -- either the packet is no occasion to announce, or one announcement joins what waits
      rcases hcases with ⟨hnot, htracks'⟩ | ⟨hdue, ctx', km, hgen, hkm, htracks'⟩
      · exact ⟨new, by rw [hidle hnot, hquiet, hnew], htracks', hslow'⟩
      · obtain ⟨deadline, hout⟩ := hannounce hdue ctx' hgen hpass km hkm
        refine ⟨new ++ [km.marshalCIF], ?_, ?_, hslow'⟩
        · rw [hout, kmreqs_append, hquiet, hnew, List.append_assoc]
          rfl
        · rw [List.map_append, ← List.append_assoc]
          exact htracks'
    · rw [if_neg hrotates] at heq
      have hkey : (c₁.sendData i.now seqNo ts f).key = c₁.key := by rw [heq, hsends.key]
      refine ⟨hparams, hdata, by rw [hkey]; exact h.sized, fun hle => ?_⟩
      obtain ⟨new, hnew, htracks, hslow⟩ := h.tracks (by omega)
      refine ⟨new, by rw [heq, hquiet, hnew], ?_, ?_⟩ <;> rw [hkey]
      · exact htracks
      · exact hslow.mono (by omega)

theorem remembers_step
    (hrates : c.params.kmRefreshRate = 0 ∨ 2 * c.params.kmPreAnnounce ≤ c.params.kmRefreshRate)
    (hpass : c.params.passphrase ≠ "") (h : Remembers c es bound c)
    (htimer : ∀ now, i ≠ .timer now .kmRefresh)
    (hin : ∀ now p, i = .packet now p → p.isKMREQ = false ∧ p.isKMRSP = false) :
    Remembers c es bound (c.step i) := by
  refine side_preserves c i h fun c₁ c₂ hmove hc₁ => ?_
  cases hmove with
  | aside hmove =>
    have hkey : c₂.key = c₁.key := by
      have hkey := hmove.key
      generalize c₂.key = k at hkey
      cases hkey with
      | same => rfl
      | retry hi n => exact absurd hi (htimer _)
      | request hi hkey hp => exact absurd hp (by simp [(hin _ _ hi).1])
      | response hi hp => exact absurd hp (by simp [(hin _ _ hi).2])
    refine hc₁.congr hmove.params (hc₁.dataOnly.of_within hmove.sendBuf) hkey hmove.history
      (kmreqs_of_emits (hmove.emits.mono fun o ho => ?_))
    rcases ho.passive_or_announces hc₁.dataOnly with hpassive | ⟨⟨now, hi⟩, -⟩
    · exact hpassive.2
    · exact absurd hi (htimer now)
  | packet seqNo ts f => exact hc₁.packet hrates hpass seqNo ts f

end

/-! ## The steps that are about keys -/

section
variable [Controller σ] [Primitives]

theorem sized_step (c : Conn σ) (i : Input) (hrates : c.params.kmRefreshRate = 0 ∨
      2 * c.params.kmPreAnnounce ≤ c.params.kmRefreshRate) (h :
        c.key.Sized c.params.kmPreAnnounce) :
    (c.step i).key.Sized c.params.kmPreAnnounce := by
  suffices hboth : (c.step i).params = c.params ∧ (c.step i).key.Sized c.params.kmPreAnnounce from
    hboth.2
  refine side_preserves (Q := fun c' => c'.params = c.params ∧ c'.key.Sized c.params.kmPreAnnounce)
    c i ⟨rfl, h⟩
    fun c₁ c₂ hmove hc₁ => ⟨hmove.params.trans hc₁.1, ?_⟩
  obtain ⟨hparams, hsized⟩ := hc₁
  cases hmove with
  | aside hmove =>
    rcases hmove.key.same_or_request with hsame | ⟨now, p, -, -, -, hrequest⟩
    · exact hsized.congr hsame
    · rw [hrequest]
      refine hsized.request _ fun ctx km key _ _ hsize => ?_
      rcases ctx.unmarshalKM_cases km c₁.params.passphrase with ⟨heq, -⟩ | ⟨even, odd, heq, -⟩ <;>
        rw [heq] <;>
        exact hsize
  | packet seqNo ts f =>
    rcases sendData_transmits c₁ i.now seqNo ts f with hsame | ⟨c₂, hsends, -, heq⟩
    · rw [hsame]
      exact hsized
    · rw [heq]
      split_ifs with hrotates
      · rw [hparams] at hrotates
        rw [key_checkKeyRotation, hsends.key, hsends.params, hparams]
        exact hsized.advance (hrates.resolve_left hrotates.2.ne')
      · rw [hsends.key]
        exact hsized

variable {p : Packet} {a : Bytes} {passphrase : String} {k : KeySide}

theorem step_of_isKMRSP (hopen : c.closed = false) (hp : p.isKMRSP = true) (now : ℤ) :
    (c.step (.packet now p)).key = c.key.response p.data ∧
      kmreqs (c.step (.packet now p)).outputs = kmreqs c.outputs := by
  obtain ⟨hcontrol, huser, hrsp⟩ := Packet.isKMRSP_iff.mp hp
  have hbook := book_noteAlive c now
  have hstep : c.step (.packet now p) = (c.noteAlive now).handleKMResponse p := by
    simp [Conn.step, handlePacket, hopen, hcontrol, huser, handleControl, handleUser, hrsp]
  obtain ⟨closed, os, es, heq, hos, -⟩ := (c.noteAlive now).handleKMResponse_spec p
  rw [hstep, heq, hbook.key]
  refine ⟨rfl, kmreqs_of_signal ⟨os, by rw [hbook.outputs], fun o ho => ?_⟩⟩
  rcases hos o ho with rfl | rfl <;> trivial

theorem step_kmRefresh (hopen : c.closed = false) (now : ℤ) :
    c.step (.timer now .kmRefresh) = (c.sampleInputBandwidth now).retryKMREQ now ∧
      (c.sampleInputBandwidth now).key = c.key ∧ (c.sampleInputBandwidth now).params = c.params ∧
      (c.sampleInputBandwidth now).outputs = c.outputs := by
  have hsample : (c.sampleInputBandwidth now).closed = c.closed ∧
    (c.sampleInputBandwidth now).key = c.key ∧
      (c.sampleInputBandwidth now).params = c.params ∧ (c.sampleInputBandwidth now).outputs =
        c.outputs := by
    unfold sampleInputBandwidth
    simp only
    split_ifs <;> exact ⟨rfl, rfl, rfl, rfl⟩
  refine ⟨?_, hsample.2⟩
  simp [Conn.step, handleTimer, hsample.1, hopen]

omit [Controller σ] in
theorem retryKMREQ_of_settled (hsettled : c.key.waits = false) (now : ℤ) :
    c.retryKMREQ now = c := by
  refine if_pos ?_
  by_contra hnot
  push Not at hnot
  have hwaits : c.key.waits = true := by
    unfold KeySide.waits
    simp only [Bool.and_eq_true, decide_eq_true_eq]
    exact ⟨⟨by simpa using hnot.1, by simpa using hnot.2.1⟩, hnot.2.2⟩
  exact absurd (hsettled.symm.trans hwaits) Bool.false_ne_true

theorem exists_of_offer? (h : k.offer? passphrase = some a) :
    ∃ ctx km, k.cryptoCtx = some ctx ∧ ctx.marshalKM passphrase k.kmRetryKey = .ok km ∧
      km.marshalCIF = a := by
  obtain ⟨ctx, hctx, hmap⟩ := Option.bind_eq_some_iff.mp h
  cases hkm : ctx.marshalKM passphrase k.kmRetryKey with
  | error e => simp [hkm, Except.toOption] at hmap
  | ok km =>
    rw [hkm] at hmap
    exact ⟨ctx, km, hctx, hkm, Option.some.inj hmap⟩

omit [Controller σ] in
theorem retryKMREQ_of_waits (hwaits : c.key.waits = true) (hpass : c.params.passphrase ≠ "")
    (hoffer : c.key.offer? c.params.passphrase = some a) (now : ℤ) :
    (c.retryKMREQ now).key = { c.key with kmRetryCount := c.key.kmRetryCount - 1 } ∧
      ∃ p timers, p.isKMREQ = true ∧ p.data = a ∧
        (c.retryKMREQ now).outputs = c.outputs ++ .sendPacket p true :: timers ∧
        (∀ o ∈ timers, o.isKMREQ = false) ∧
        (1 < c.key.kmRetryCount → ∃ o ∈ timers, o.armsKMRefresh = true) := by
  obtain ⟨ctx, km, hctx, hkm, rfl⟩ := exists_of_offer? hoffer
  simp only [KeySide.waits, Bool.and_eq_true, decide_eq_true_eq, Bool.not_eq_true'] at hwaits
  obtain ⟨⟨hann, hconfirmed⟩, hcount⟩ := hwaits
  have hcond : ¬((!c.key.kmAnnounced) = true ∨ c.key.kmConfirmed = true ∨
      c.key.kmRetryCount ≤ 0) := by
    rw [hann, hconfirmed]
    simpa using hcount
  rw [retryKMREQ_eq, if_neg hcond, hctx, Option.elim_some, announcement_eq hpass hkm]
  refine ⟨rfl, c.userControl now .kmReq km.marshalCIF, _, rfl, rfl, rfl, ?_, fun hmore => ?_⟩
  · split_ifs <;> simp [Output.isKMREQ, Output.packet?]
  · rw [if_pos (show 0 < c.key.kmRetryCount - 1 by omega)]
    exact ⟨_, List.mem_singleton_self _, rfl⟩

theorem length_of_offer? (h : k.offer? passphrase = some a) : a.length ≠ 4 := by
  obtain ⟨ctx, km, -, hkm, rfl⟩ := exists_of_offer? h
  obtain ⟨-, -, heq⟩ := Context.marshalKM_eq hkm
  rw [heq]
  simp only [CIFKeyMaterial.marshalCIF, ne_eq, not_true_eq_false, if_false, List.length_append,
    length_putBE]
  omega

/-- The announcements are not overtaken in this step. -/
def Unhurried (c : Conn σ) (i : Input) : Prop :=
  c.key.Unhurried c.params.kmRefreshRate (c.pending i) ∧
    match i with
    | .packet _ p => c.key.waits = true → p.isKMREQ = false ∧
        (p.isKMRSP = true → p.data.length = 4 ∨ c.key.offer? c.params.passphrase = some p.data)
    | _ => True

instance (c : Conn σ) : ∀ i, Decidable (c.Unhurried i)
  | .packet _ _ => inferInstanceAs (Decidable (_ ∧ (_ → _)))
  | .write _ _ _ | .writeCoordinated _ _ _ _ | .timer _ _ | .keepAlive _ | .shutdown _ =>
    inferInstanceAs (Decidable (_ ∧ True))

end

end Conn

/-! ## Whole runs -/

namespace Watch

variable {σ : Type} [Controller σ] [Primitives] {w : Watch σ} {i : Input} {now : ℤ}

structure Faithful (w : Watch σ) : Prop where
  rates : w.conn.params.kmRefreshRate = 0 ∨ 2 * w.conn.params.kmPreAnnounce ≤
    w.conn.params.kmRefreshRate
  passphrase : w.conn.params.passphrase ≠ ""
  numbered : ∃ isn, w.conn.Numbered isn
  dataOnly : w.conn.DataOnly
  sized : w.conn.key.Sized w.conn.params.kmPreAnnounce
  tracks : w.conn.closed = false → w.conn.key.Tracks w.conn.params.passphrase w.waiting

theorem kmreqs_sent {new : List Bytes}
    (h : kmreqs (w.conn.step i).outputs = kmreqs w.conn.outputs ++ new) :
    kmreqs (w.sent i) = new := by
  obtain ⟨os, hos⟩ := Conn.outputs_step w.conn i
  rw [hos, kmreqs_append] at h
  unfold sent
  rw [hos, List.drop_left]
  exact List.append_cancel_left h

theorem Faithful.kmRefresh (h : w.Faithful) (hopen : w.conn.closed = false) (now : ℤ) :
    w.Persists (.timer now .kmRefresh) ∧
      (w.conn.step (.timer now .kmRefresh)).key.Tracks w.conn.params.passphrase
        (w.step (.timer now .kmRefresh)).waiting := by
  have htracks := h.tracks hopen
  obtain ⟨hstep, hkey, hparams, houtputs⟩ := Conn.step_kmRefresh hopen now
  cases hwaits : w.conn.key.waits with
  | false =>
    have hnone := htracks.2 hwaits
    refine ⟨fun _ e he => absurd he (by simp [hnone]), ?_⟩
    rw [hstep, Conn.retryKMREQ_of_settled (by rw [hkey]; exact hwaits), hkey,
      show (w.step (.timer now .kmRefresh)).waiting = [] by simp [step, note, hnone]]
    exact hnone ▸ htracks
  | true =>
    obtain ⟨a, r, hes, hretries, hoffer⟩ := htracks.1 hwaits
    obtain ⟨hkey', p, timers, hp, hdata, hout, hnone, harms⟩ := Conn.retryKMREQ_of_waits
      (c := w.conn.sampleInputBandwidth now) (by rw [hkey]; exact hwaits)
        (by rw [hparams]; exact h.passphrase)
      (by rw [hkey, hparams]; exact hoffer) now
    have hsent : w.sent (.timer now .kmRefresh) = .sendPacket p true :: timers := by
      unfold sent
      rw [hstep, hout, houtputs, List.drop_left]
    have hkmreqs : kmreqs (w.sent (.timer now .kmRefresh)) = [a] := by
      have hfirst : (Output.sendPacket p true).kmreq? = some a := by
        simp [Output.kmreq?, Output.packet?, hp, hdata]
      rw [hsent, kmreqs, List.filterMap_cons_some hfirst]
      exact congrArg (a :: ·) (kmreqs_eq_nil hnone)
    refine ⟨fun _ e he => ?_, ?_⟩
    · rw [hes, List.mem_singleton] at he
      subst he
      refine ⟨by rw [hkmreqs]; exact List.mem_singleton_self a, fun hmore => ?_⟩
      obtain ⟨o, ho, harm⟩ := harms (by rw [hkey]; simp only at hmore; omega)
      exact ⟨o, by rw [hsent]; exact List.mem_cons_of_mem _ ho, harm⟩
    · have hwaiting : (w.step (.timer now .kmRefresh)).waiting =
          [⟨a, r + 1⟩].filter fun e : Announcement => decide (e.retries < 10) := by
        simp [step, note, hes, hkmreqs]
      rw [hstep, hkey', hkey, hwaiting]
      have hparts := hwaits
      simp only [KeySide.waits, Bool.and_eq_true, decide_eq_true_eq] at hparts
      -- the tenth repetition is the last on both counts
      by_cases hlast : 1 < w.conn.key.kmRetryCount
      · rw [List.filter_cons_of_pos (by simp only [decide_eq_true_eq]; omega), List.filter_nil]
        refine ⟨fun _ => ⟨a, r + 1, rfl, by push_cast; omega, hoffer⟩, fun hnot => absurd hnot ?_⟩
        simp only [KeySide.waits, hparts.1, Bool.true_and, decide_eq_false_iff_not, not_not]
        omega
      · rw [List.filter_cons_of_neg (by simp only [decide_eq_true_eq]; omega), List.filter_nil]
        refine ⟨fun hyes => absurd hyes ?_, fun _ => rfl⟩
        simp only [KeySide.waits, hparts.1, Bool.true_and, decide_eq_true_eq]
        omega

theorem Faithful.request (h : w.Faithful) (hopen : w.conn.closed = false) (hp : p.isKMREQ = true)
    (hsettled : w.conn.key.waits = false) :
    (w.conn.step (.packet now p)).key.Tracks w.conn.params.passphrase
      (w.step (.packet now p)).waiting := by
  obtain ⟨hkey, hemits⟩ := Conn.step_of_isKMREQ hopen hp now
  have hwaits : (w.conn.step (.packet now p)).key.waits = w.conn.key.waits := by
    rw [hkey, (w.conn.key.request_cases _ _).1]
    rfl
  have hnone := (h.tracks hopen).2 hsettled
  have hsent : kmreqs (w.sent (.packet now p)) = [] :=
    kmreqs_sent (by rw [Conn.kmreqs_of_signal hemits, List.append_nil])
  rw [show (w.step (.packet now p)).waiting = [] by simp [step, note, first, hnone, hsent]]
  exact (hnone ▸ h.tracks hopen).of_settled hsettled (hwaits.trans hsettled)

theorem Faithful.response (h : w.Faithful) (hopen : w.conn.closed = false) (hp : p.isKMRSP = true)
    (hanswer : w.conn.key.waits = true → p.data.length = 4 ∨
      w.conn.key.offer? w.conn.params.passphrase = some p.data) :
    (w.conn.step (.packet now p)).key.Tracks w.conn.params.passphrase
      (w.step (.packet now p)).waiting := by
  obtain ⟨hkey, hkmreqs⟩ := Conn.step_of_isKMRSP hopen hp now
  have hrefusal : p.data.length = 4 → (w.conn.step (.packet now p)).key.waits = w.conn.key.waits ∧
      (w.conn.step (.packet now p)).key.kmRetryCount = w.conn.key.kmRetryCount := by
    intro hlen
    rw [hkey, KeySide.response, if_pos hlen, KeySide.refused]
    split <;> exact ⟨rfl, rfl⟩
  have hconfirm : p.data.length ≠ 4 → (w.conn.step (.packet now p)).key.waits = false := by
    intro hlen
    rw [hkey, KeySide.response, if_neg hlen]
    simp [KeySide.waits]
  have hsent : kmreqs (w.sent (.packet now p)) = [] :=
    kmreqs_sent (by rw [hkmreqs, List.append_nil])
  have htracks := h.tracks hopen
  have hwaiting : (w.step (.packet now p)).waiting =
    (w.waiting.filter fun e => !decide (p.data = e.payload)).filter
      fun e => decide (e.retries < 10) := by
    simp [step, note, first, hsent, hp]
  rw [hwaiting]
  cases hwaits : w.conn.key.waits with
  | false =>
    rw [htracks.2 hwaits, List.filter_nil, List.filter_nil]
    refine (htracks.2 hwaits ▸ htracks).of_settled hwaits ?_
    by_cases hlen : p.data.length = 4
    · exact (hrefusal hlen).1.trans hwaits
    · exact hconfirm hlen
  | true =>
    obtain ⟨a, r, hes, hretries, hoffer⟩ := htracks.1 hwaits
    by_cases hlen : p.data.length = 4
    · -- a refusal is not what waits
      obtain ⟨hwaits', hcount⟩ := hrefusal hlen
      have hsame := w.conn.key.same_response p.data
      rw [← hkey] at hsame
      have hne : p.data ≠ a := by
        rintro rfl
        exact Conn.length_of_offer? hoffer hlen
      have hkept : (w.waiting.filter fun e => !decide (p.data = e.payload)) = w.waiting := by
        simp [hes, hne]
      rw [hkept, htracks.filter]
      exact htracks.congr hsame.cryptoCtx hwaits' hsame.kmRetryKey hcount
    · obtain heq : a = p.data :=
        Option.some.inj (hoffer.symm.trans ((hanswer hwaits).resolve_left hlen))
      have hgone : (w.waiting.filter fun e => !decide (p.data = e.payload)) = [] := by
        simp [hes, heq]
      rw [hgone, List.filter_nil]
      exact ⟨fun hyes => absurd ((hconfirm hlen).symm.trans hyes) Bool.false_ne_true, fun _ => rfl⟩

theorem faithful_establish {ep : EstablishParams} (hcap : ep.sndCap ≤ 2 ^ 30)
    (hisn : Valid ep.sendISN)
    (hctx : ep.context = some ctx) (hsize : validKeySize ctx.keyLength = true)
    (hactive : ep.activeKey = .even ∨ ep.activeKey = .odd) (hpass : ep.passphrase ≠ "")
    (hrates : 2 * ep.kmPreAnnounce ≤ ep.kmRefreshRate) (cc : σ) (now : ℤ) :
    (⟨Conn.establish cc now ep, []⟩ : Watch σ).Faithful := by
  have hsome := EstablishParams.isSome_cryptoCtx hctx
  have harm : Conn.Quiet (Conn.established cc now ep) (Conn.establish cc now ep) :=
    Conn.quiet_armTimers _ now
  have hkey : (Conn.establish cc now ep).key = Conn.establishedKeys ep := harm.key
  have hparams : (Conn.establish cc now ep).params = Conn.establishedParams now ep := harm.params
  refine ⟨Or.inr ?_, ?_, ⟨_, Conn.numbered_establish hcap hisn cc now⟩,
    Conn.dataOnly_establish cc now ep, ?_, ?_⟩
  · simp only [hparams, Conn.establishedParams, hsome, if_true]
    exact EstablishParams.two_mul_effectivePreAnnounce_le hrates
  · simp only [hparams, Conn.establishedParams, hsome, if_true]
    exact hpass
  · rw [hkey]
    refine ⟨⟨ctx, hctx, hsize, fun _ => hsize⟩, ?_, fun hwaits => absurd hwaits Bool.false_ne_true⟩
    simp only [Conn.establishedKeys, hsome, if_true]
    rcases hactive with heq | heq <;> simp [heq]
  · intro _
    rw [hkey]
    exact ⟨fun hwaits => absurd hwaits Bool.false_ne_true, fun _ => rfl⟩

variable [LawfulPrimitives]

theorem Faithful.other (h : w.Faithful) (hopen : w.conn.closed = false) (hsingle : i.Single)
    (hslow : w.conn.Unhurried i) (htimer : ∀ now, i ≠ .timer now .kmRefresh)
    (hin : ∀ now p, i = .packet now p → p.isKMREQ = false ∧ p.isKMRSP = false) :
    (w.conn.step i).key.Tracks w.conn.params.passphrase (w.step i).waiting := by
  obtain ⟨isn, hnumbered⟩ := h.numbered
  obtain ⟨-, sentNow, hsends⟩ := hnumbered.step hsingle
  have hlength : (w.conn.step i).history.length ≤ w.conn.history.length + w.conn.pending i := by
    rw [hsends.history, List.length_append]
    exact Nat.add_le_add_left hsends.length _
  have hstart : Conn.Remembers w.conn w.waiting (w.conn.history.length + w.conn.pending i)
      w.conn := by
    refine ⟨rfl, h.dataOnly, h.sized, fun _ => ⟨[], by rw [List.append_nil], ?_, ?_⟩⟩
    · rw [List.map_nil, List.append_nil]
      exact h.tracks hopen
    · rw [Nat.add_sub_cancel_left]
      exact hslow.1
  have hstep := Conn.remembers_step h.rates h.passphrase hstart htimer hin
  obtain ⟨new, hnew, htracks, -⟩ := hstep.tracks hlength
  have hnote : w.note i = w.waiting ++ new.map fun a => ⟨a, 0⟩ := by
    have hfirst : w.first i = new.map fun a => ⟨a, 0⟩ := by rw [first, kmreqs_sent hnew]
    rw [← hfirst]
    unfold note
    split
    · exact absurd rfl (htimer _)
    · rename_i now p
      have hnot := (hin now p rfl).2
      rw [show w.waiting.filter (fun e => !(p.isKMRSP && decide (p.data = e.payload))) =
        w.waiting by simp [hnot]]
    · rfl
  have hwaiting : (w.step i).waiting = w.waiting ++ new.map fun a => ⟨a, 0⟩ := by
    show (w.note i).filter _ = _
    rw [hnote]
    exact htracks.filter
  rw [hwaiting]
  exact htracks

theorem Faithful.step (h : w.Faithful) (hsingle : i.Single) (hslow : w.conn.Unhurried i) :
    (w.step i).Faithful ∧ w.Persists i := by
  have hparams : (w.conn.step i).params = w.conn.params := Conn.params_step w.conn i
  obtain ⟨isn, hnumbered⟩ := h.numbered
  -- a closed connection stays closed
  have hclosed : w.conn.closed = true → (w.step i).conn.closed = true :=
    fun hc => Conn.closed_step hc
  have htracks : w.conn.closed = false →
      (w.conn.step i).key.Tracks w.conn.params.passphrase (w.step i).waiting ∧ w.Persists i := by
    intro hopen
    by_cases htimer : ∃ now, i = .timer now .kmRefresh
    · obtain ⟨now, rfl⟩ := htimer
      exact ⟨(h.kmRefresh hopen now).2, (h.kmRefresh hopen now).1⟩
    · push Not at htimer
      have hquiet : w.Persists i := by
        unfold Persists
        split
        · exact absurd rfl (htimer _)
        · trivial
      refine ⟨?_, hquiet⟩
      by_cases hpacket : ∃ now p, i = .packet now p ∧ (p.isKMREQ = true ∨ p.isKMRSP = true)
      · obtain ⟨now, p, rfl, hreq | hrsp⟩ := hpacket
        · refine h.request hopen hreq ?_
          by_contra hwaits
          exact absurd ((hslow.2 (by simpa using hwaits)).1.symm.trans hreq) Bool.false_ne_true
        · exact h.response hopen hrsp fun hwaits => (hslow.2 hwaits).2 hrsp
      · push Not at hpacket
        refine h.other hopen hsingle hslow htimer fun now p hi => ?_
        obtain ⟨hreq, hrsp⟩ := hpacket now p hi
        exact ⟨by simpa using hreq, by simpa using hrsp⟩
  refine ⟨⟨?_, ?_, ⟨isn, (hnumbered.step hsingle).1⟩, h.dataOnly.step, ?_, fun hopen' => ?_⟩, ?_⟩
  · show (w.conn.step i).params.kmRefreshRate = 0 ∨ _
    rw [show (w.step i).conn.params = w.conn.params from hparams, hparams]
    exact h.rates
  · rw [show (w.step i).conn.params = w.conn.params from hparams]
    exact h.passphrase
  · rw [show (w.step i).conn.params = w.conn.params from hparams]
    exact Conn.sized_step w.conn i h.rates h.sized
  · rw [show (w.step i).conn.params = w.conn.params from hparams]
    refine (htracks ?_).1
    by_contra hc
    exact absurd (hopen'.symm.trans (hclosed (by simpa using hc))) Bool.false_ne_true
  · cases hc : w.conn.closed with
    | false => exact (htracks hc).2
    | true =>
      unfold Persists
      split
      · exact fun hopen => absurd (hopen.symm.trans hc) Bool.false_ne_true
      · trivial

/-- **Announcements persist.**  An encrypted connection that rotates its keys.  As long as no
switch overtakes an announcement that waits, and while one waits the peer announces no key and
answers nothing but a refusal or the key material that waits, each firing of the timer repeats the
announcement and arms the timer again, until the answer has come or it has been repeated ten
times. -/
theorem announcements_persist {ep : EstablishParams} (hcap : ep.sndCap ≤ 2 ^ 30)
    (hisn : Valid ep.sendISN)
    {ctx : Context} (hctx : ep.context = some ctx) (hsize : validKeySize ctx.keyLength = true)
    (hactive : ep.activeKey = .even ∨ ep.activeKey = .odd) (hpass : ep.passphrase ≠ "")
    (hrates : 2 * ep.kmPreAnnounce ≤ ep.kmRefreshRate) (cc : σ) (now : ℤ) {is : List Input}
    (hsingle : ∀ i ∈ is, i.Single)
    (hslow : AllSteps step (fun w i => w.conn.Unhurried i) ⟨Conn.establish cc now ep, []⟩ is) :
    AllSteps step Persists ⟨Conn.establish cc now ep, []⟩ is := by
  have hsolo : AllSteps step (fun (_ : Watch σ) (i : Input) => i.Single)
      ⟨Conn.establish cc now ep, []⟩ is :=
    allSteps_of_forall_mem hsingle
  exact (hslow.and hsolo).allSteps (Q := Faithful) (fun w i hw hi => (hw.step hi.2 hi.1).1)
    (fun w i hw hi => (hw.step hi.2 hi.1).2)
    (faithful_establish hcap hisn hctx hsize hactive hpass hrates cc now)

end Watch

namespace Watch

open scoped XorCipher

def watched : Watch LiveCC := ⟨Conn.establish (LiveCC.new 0 0) 0 (Pair.twoEnds true), []⟩

def writes (n : ℕ) : List Input := (List.range n).map fun k : ℕ => .write (100000 * (k + 1))
    [1, 2, 3] {}

/-- Three packets lead to an announcement, which is repeated twice. -/
theorem announcements_persist_twice :
    AllSteps step Persists watched (writes 3 ++ [.timer 500000 .kmRefresh,
      .timer 700000 .kmRefresh]) ∧
    (kmreqs (exec step watched (writes 3 ++ [.timer 500000 .kmRefresh,
      .timer 700000 .kmRefresh])).conn.outputs).length =
      3 := by
  have hslow : AllSteps step (fun w i => w.conn.Unhurried i) watched
      (writes 3 ++ [.timer 500000 .kmRefresh, .timer 700000 .kmRefresh]) := by
    decide +kernel
  have hisn : Valid (Pair.twoEnds true).sendISN := ⟨by norm_num [Pair.twoEnds]⟩
  exact ⟨announcements_persist (by decide +kernel) hisn rfl rfl (Or.inl rfl) (by decide)
    (by decide) _ 0
    (by decide +kernel) hslow, by decide +kernel⟩

/-- The fourth packet switches to the new key.  When the timer fires, the announcement is not
repeated, although nobody has answered it. -/
theorem announcement_forgotten_after_switch :
    ¬AllSteps step Persists watched (writes 4 ++ [.timer 500000 .kmRefresh]) := by
  intro h
  have hforgotten : (exec step watched (writes 4)).conn.closed = false ∧
      (∃ e ∈ (exec step watched (writes 4)).waiting, e.retries = 0) ∧
      kmreqs ((exec step watched (writes 4)).sent (.timer 500000 .kmRefresh)) = [] := by
    decide +kernel
  obtain ⟨hopen, ⟨e, he, -⟩, hnone⟩ := hforgotten
  have hrepeated := (h.last hopen e he).1
  rw [hnone] at hrepeated
  exact absurd hrepeated List.not_mem_nil

end Watch

end SrtGo.Core
