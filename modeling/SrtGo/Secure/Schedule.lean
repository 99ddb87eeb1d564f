import SrtGo.Secure.Duplex

/-!
# The timetable of the key rotation

A side that hears of no keys, and whose source of randomness does not fail, rotates its keys by the
clock of its own packets.  The keys are numbered: number 0 is the one of the handshake, and every
later one is drawn when it is announced.  With a refresh rate of `R` and a pre-announcement of `P`
packets, key `g` encrypts the packets `g * R ≤ n < (g + 1) * R`.  It is drawn and announced when
`g * R - P` packets have been sent, and cleared when `(g + 1) * R + P - 1` have been sent.

There are two slots, so that key `g + 2` takes the slot of key `g`.  It is announced after key `g`
has been cleared because `2 * P ≤ R`.
-/

namespace SrtGo.Core

open Buffer Bytes Congestion Crypto Run

/-- What a timetable is made from: the context and the active slot after the handshake, the refresh
rate and the pre-announcement. -/
structure Timetable where
  start : Context
  first : PacketEncryption
  refresh : ℕ
  preAnnounce : ℕ
  slot : first = .even ∨ first = .odd
  pos : 0 < preAnnounce
  rates : 2 * preAnnounce ≤ refresh
  keyLength : validKeySize start.keyLength = true
  random : ∀ n, (start.entropy n).isSome = true

namespace Timetable

variable (T : Timetable)

def slotOf (g : ℕ) : PacketEncryption := if g % 2 = 0 then T.first else oppositeKey T.first

/-- What the slot of the `g`-th key holds while the key lives. -/
def keyOf : ℕ → Option Slot
  | 0 => T.start.slot T.first
  | g + 1 => ((T.start.entropy (T.start.drawn + g)).map (fit T.start.keyLength)).map
      (Context.keyed T.start.mode)

/-- After `n` packets the `g`-th key has been announced and has not been cleared. -/
def Live (g n : ℕ) : Prop :=
  g * T.refresh ≤ n + T.preAnnounce ∧ n + 1 < (g + 1) * T.refresh + T.preAnnounce

instance (g n : ℕ) : Decidable (T.Live g n) := inferInstanceAs (Decidable (_ ∧ _))

theorem slotOf_even_or_odd (g : ℕ) : T.slotOf g = .even ∨ T.slotOf g = .odd := by
  unfold slotOf
  split_ifs
  · exact T.slot
  · exact (oppositeKey_cases T.slot).1

theorem oppositeKey_slotOf (g : ℕ) : oppositeKey (T.slotOf g) = T.slotOf (g + 1) := by
  unfold slotOf
  by_cases heven : g % 2 = 0
  · rw [if_pos heven, if_neg (by omega)]
  · rw [if_neg heven, if_pos (by omega)]
    exact (oppositeKey_cases T.slot).2.2

theorem slotOf_succ_ne (g : ℕ) : T.slotOf (g + 1) ≠ T.slotOf g := by
  rw [← oppositeKey_slotOf]
  exact (oppositeKey_cases (T.slotOf_even_or_odd g)).2.1

variable {g : ℕ}

/-- The keys that live after `q * R + r` packets are the current one, the next one shortly before
the switch and the last one shortly after it. -/
theorem Live.cases {T : Timetable} {q r : ℕ} (hr : r < T.refresh)
    (h : T.Live g (q * T.refresh + r)) :
    g = q ∨ g = q + 1 ∧ T.refresh ≤ r + T.preAnnounce ∨ g + 1 = q ∧ r + 1 < T.preAnnounce := by
  obtain ⟨hannounced, hcleared⟩ := h
  have hpos := T.pos
  have hrates := T.rates
  rcases lt_trichotomy g q with hlt | rfl | hgt
  · obtain ⟨d, rfl⟩ := Nat.exists_eq_add_of_lt hlt
    have hsplit : (g + d + 1) * T.refresh = (g + 1) * T.refresh + d * T.refresh := by ring
    rcases Nat.eq_zero_or_pos d with rfl | hd
    · exact Or.inr (Or.inr ⟨by omega, by omega⟩)
    · have := Nat.le_mul_of_pos_left T.refresh hd
      omega
  · exact Or.inl rfl
  · obtain ⟨d, rfl⟩ := Nat.exists_eq_add_of_lt hgt
    have hsplit : (q + d + 1) * T.refresh = q * T.refresh + T.refresh + d * T.refresh := by ring
    rcases Nat.eq_zero_or_pos d with rfl | hd
    · exact Or.inr (Or.inl ⟨by omega, by omega⟩)
    · have := Nat.le_mul_of_pos_left T.refresh hd
      omega

/-! ## The keys on time -/

/-- A context `r` packets after the switch to key `q`. -/
structure Serves (T : Timetable) (q r : ℕ) (ctx : Context) : Prop where
  mode : ctx.mode = T.start.mode
  keyLength : ctx.keyLength = T.start.keyLength
  salt : ctx.salt = T.start.salt
  nonce : ctx.useGcm153 = T.start.useGcm153
  entropy : ctx.entropy = T.start.entropy
  drawn : ctx.drawn = T.start.drawn + q + if T.refresh ≤ r + T.preAnnounce then 1 else 0
  current : ctx.slot (T.slotOf q) = T.keyOf q
  next : T.refresh ≤ r + T.preAnnounce → ctx.slot (T.slotOf (q + 1)) = T.keyOf (q + 1)
  previous : ∀ g, g + 1 = q → r + 1 < T.preAnnounce → ctx.slot (T.slotOf g) = T.keyOf g

/-- The state of the rotation `r` packets after the switch to key `q`. -/
structure OnTime (T : Timetable) (q r : ℕ) (k : KeySide) : Prop where
  lt : r < T.refresh
  active : k.activeKey = T.slotOf q
  count : k.kmPacketCount = r
  announced : k.kmAnnounced = decide (T.refresh ≤ r + T.preAnnounce)
  decommission : k.kmDecommission = decide (0 < q ∧ r + 1 < T.preAnnounce)
  switchCount : k.kmDecommission = true → k.kmSwitchCount = r + 1
  retryKey : k.kmAnnounced = true → k.kmRetryKey = T.slotOf (q + 1)
  context : ∃ ctx, k.cryptoCtx = some ctx ∧ T.Serves q r ctx

variable {T} {q r n : ℕ} {k : KeySide} {ctx : Context}

theorem Serves.slot_of_live (h : T.Serves q r ctx) (hr : r < T.refresh)
    (hlive : T.Live g (q * T.refresh + r)) :
    ctx.slot (T.slotOf g) = T.keyOf g := by
  rcases hlive.cases hr with rfl | ⟨rfl, hnext⟩ | ⟨hprevious, hrecent⟩
  · exact h.current
  · exact h.next hnext
  · exact h.previous g hprevious hrecent

theorem Serves.generateSEK (h : T.Serves q r ctx) (hr : r + 1 + T.preAnnounce = T.refresh) :
    ∃ ctx', ctx.generateSEK (T.slotOf (q + 1)) = (ctx', none) ∧ T.Serves q (r + 1) ctx' := by
  have hslot := T.slotOf_even_or_odd (q + 1)
  have hpos := T.pos
  have hrates := T.rates
  have hdrawn : ctx.drawn = T.start.drawn + q := by
    rw [h.drawn, if_neg (by omega), Nat.add_zero]
  obtain ⟨raw, hraw⟩ := Option.isSome_iff_exists.mp (T.random (T.start.drawn + q))
  have hdraw : (ctx.entropy ctx.drawn).map (fit ctx.keyLength) =
      some (fit T.start.keyLength raw) := by
    rw [h.entropy, hdrawn, hraw, h.keyLength, Option.map_some]
  have hkey : T.keyOf (q + 1) = some (Context.keyed ctx.mode (fit T.start.keyLength raw)) := by
    rw [keyOf, hraw, h.mode]
    rfl
  rcases ctx.generateSEK_cases hslot with ⟨e, hfail⟩ | ⟨sek, -, hsek, hgen⟩
  · -- drawing cannot fail
    have hvalid : validKeySize (fit T.start.keyLength raw).length = true := by
      rw [Context.length_fit]
      exact T.keyLength
    unfold Context.generateSEK Context.draw at hfail
    rw [hdraw] at hfail
    rcases hslot with hslot | hslot <;>
      simp [Context.newCipher, hvalid, hslot, Context.slot] at hfail
  · obtain rfl : fit T.start.keyLength raw = sek := Option.some.inj (hdraw.symm.trans hsek)
    refine ⟨_, hgen, ?_⟩
    set drawn : Context := { ctx with drawn := ctx.drawn + 1 } with hdrawnDef
    obtain ⟨hmode, hlength, hsalt, hentropy, hcount, hnonce⟩ := Context.setSlot_fields drawn
      (T.slotOf (q + 1)) (Context.keyed ctx.mode (fit T.start.keyLength raw))
    refine ⟨hmode.trans h.mode, hlength.trans h.keyLength, hsalt.trans h.salt, hnonce.trans h.nonce,
      hentropy.trans h.entropy, ?_, ?_, fun _ => ?_, fun g hg hrecent => ?_⟩
    · rw [hcount, if_pos (by omega)]
      show ctx.drawn + 1 = _
      rw [hdrawn]
    · rw [Context.slot_setSlot_of_ne drawn (T.slotOf_succ_ne q).symm]
      exact h.current
    · rw [Context.slot_setSlot_self drawn hslot, hkey]
    · omega

theorem Serves.clearSEK (h : T.Serves q r ctx) (hr : T.preAnnounce ≤ r + 1)
    (hquiet : ¬T.refresh ≤ r + T.preAnnounce) : T.Serves q r (ctx.clearSEK (T.slotOf (q + 1))) := by
  obtain ⟨hmode, hlength, hsalt, hentropy, hcount, hnonce⟩ := Context.setSlot_fields ctx
    (T.slotOf (q + 1)) {}
  refine ⟨hmode.trans h.mode, hlength.trans h.keyLength, hsalt.trans h.salt, hnonce.trans h.nonce,
    hentropy.trans h.entropy, hcount.trans h.drawn, ?_, fun hnext => absurd hnext hquiet,
    fun g hg hrecent => absurd hrecent (by omega)⟩
  rw [Context.clearSEK, Context.slot_setSlot_of_ne ctx (T.slotOf_succ_ne q).symm]
  exact h.current

theorem Serves.succ (h : T.Serves q r ctx) (hr : r + 1 + T.preAnnounce ≠ T.refresh) :
    T.Serves q (r + 1) ctx := by
  have hpos := T.pos
  refine { h with
    drawn := ?_
    next := fun hnext => h.next (by omega)
    previous := fun g hg hrecent => h.previous g hg (by omega) }
  rw [h.drawn]
  by_cases hnext : T.refresh ≤ r + T.preAnnounce
  · rw [if_pos hnext, if_pos (by omega)]
  · rw [if_neg hnext, if_neg (by omega)]

theorem Serves.switch (h : T.Serves q r ctx) (hr : r + 1 = T.refresh) : T.Serves (q + 1) 0 ctx := by
  have hpos := T.pos
  have hrates := T.rates
  refine { h with
    drawn := ?_
    current := h.next (by omega)
    next := fun hnext => by omega
    previous := fun g hg _ => ?_ }
  · rw [h.drawn, if_pos (by omega), if_neg (by omega)]
    omega
  · obtain rfl : g = q := by omega
    exact h.current

theorem onTime_decommission (hlt : r < T.refresh) (hactive : k.activeKey = T.slotOf q)
    (hcount : k.kmPacketCount = r)
    (hannounced : k.kmAnnounced = decide (T.refresh ≤ r + T.preAnnounce))
    (hretry : k.kmAnnounced = true → k.kmRetryKey = T.slotOf (q + 1))
    (hwaits : k.kmDecommission = decide (0 < q ∧ r < T.preAnnounce))
    (hwaited : k.kmDecommission = true → k.kmSwitchCount = r) (hctx : k.cryptoCtx = some ctx)
    (hserves : T.Serves q r ctx) : T.OnTime q r (k.decommission T.preAnnounce) := by
  have hrates := T.rates
  unfold KeySide.decommission
  by_cases hwaiting : k.kmDecommission = true
  · obtain ⟨hq, hr⟩ : 0 < q ∧ r < T.preAnnounce := by
      rw [hwaits, decide_eq_true_eq] at hwaiting
      exact hwaiting
    have hswitch := hwaited hwaiting
    have hopposite : oppositeKey k.activeKey = T.slotOf (q + 1) := by
      rw [hactive, oppositeKey_slotOf]
    rw [if_pos hwaiting, hswitch, hopposite]
    by_cases hcleared : T.preAnnounce ≤ r + 1
    · rw [if_pos hcleared]
      refine ⟨hlt, hactive, hcount, hannounced, ?_, fun h => absurd h Bool.false_ne_true, hretry,
        ctx.clearSEK (T.slotOf (q + 1)), by rw [hctx]; rfl, hserves.clearSEK hcleared (by omega)⟩
      show false = _
      rw [eq_comm, decide_eq_false_iff_not]
      omega
    · rw [if_neg hcleared]
      refine ⟨hlt, hactive, hcount, hannounced, ?_, fun _ => rfl, hretry, ctx, hctx, hserves⟩
      show k.kmDecommission = _
      rw [hwaiting, eq_comm, decide_eq_true_eq]
      exact ⟨hq, by omega⟩
  · rw [if_neg hwaiting]
    refine ⟨hlt, hactive, hcount, hannounced, ?_, fun h => absurd h hwaiting, hretry, ctx,
      hctx, hserves⟩
    rw [hwaits, decide_eq_true_eq] at hwaiting
    rw [hwaits, decide_eq_false hwaiting, eq_comm, decide_eq_false_iff_not]
    omega

/-- The next key is due once, when there are as many packets left as the pre-announcement says. -/
theorem OnTime.due_eq (h : T.OnTime q r k) :
    k.count.due T.refresh T.preAnnounce = decide (r + 1 + T.preAnnounce = T.refresh) := by
  unfold KeySide.due
  rw [show k.count.kmPacketCount = r + 1 from congrArg (· + 1) h.count,
    show k.count.kmAnnounced = k.kmAnnounced from rfl, h.announced]
  by_cases hnow : r + 1 + T.preAnnounce = T.refresh
  · simp only [hnow, decide_true, Bool.and_eq_true, Bool.not_eq_true', decide_eq_false_iff_not,
      decide_eq_true_eq]
    omega
  · simp only [hnow, decide_false, Bool.and_eq_false_iff, Bool.not_eq_false', decide_eq_true_eq,
      decide_eq_false_iff_not]
    omega

theorem OnTime.advance (h : T.OnTime q r k) :
    (r + 1 < T.refresh → T.OnTime q (r + 1) (k.advance T.refresh T.preAnnounce)) ∧
      (r + 1 = T.refresh → T.OnTime (q + 1) 0 (k.advance T.refresh T.preAnnounce)) := by
  obtain ⟨ctx, hctx, hserves⟩ := h.context
  have hpos := T.pos
  have hrates := T.rates
  have hopposite : oppositeKey k.activeKey = T.slotOf (q + 1) := by
    rw [h.active, oppositeKey_slotOf]
  have hcount : k.count.kmPacketCount = r + 1 := congrArg (· + 1) h.count
  unfold KeySide.advance
  simp only [hctx, h.due_eq, decide_eq_true_eq, hopposite]
  by_cases hnow : r + 1 + T.preAnnounce = T.refresh
  · -- the next key is drawn and announced, and no key is switched or cleared
    obtain ⟨ctx', hgen, hserves'⟩ := hserves.generateSEK hnow
    rw [if_pos hnow, hgen]
    simp only
    set k' := k.count.announce ctx' (T.slotOf (q + 1)) with hk'
    have hswitch : k'.switchKey T.refresh = k' := by
      refine if_neg ?_
      show ¬T.refresh ≤ k.count.kmPacketCount
      omega
    have hkept : k'.kmDecommission = false := by
      show k.kmDecommission = false
      rw [h.decommission, decide_eq_false_iff_not]
      omega
    have hclear : k'.decommission T.preAnnounce = k' := by
      unfold KeySide.decommission
      rw [hkept]
      rfl
    rw [hswitch, hclear]
    refine ⟨fun hlt => ⟨hlt, h.active, hcount, ?_, ?_, ?_, fun _ => rfl, ctx', rfl, hserves'⟩,
      fun hlast => ?_⟩
    · show true = _
      rw [eq_comm, decide_eq_true_eq]
      omega
    · rw [hkept, eq_comm, decide_eq_false_iff_not]
      omega
    · rw [hkept]
      exact fun habsurd => absurd habsurd (by decide)
    · omega
  · rw [if_neg hnow]
    constructor
    · intro hlt
      have hswitch : k.count.switchKey T.refresh = k.count := if_neg (by omega)
      rw [hswitch]
      refine onTime_decommission hlt h.active hcount ?_ h.retryKey h.decommission h.switchCount hctx
        (hserves.succ hnow)
      rw [show k.count.kmAnnounced = k.kmAnnounced from rfl, h.announced, decide_eq_decide]
      omega
    · intro hlast
      have hswitch : k.count.switchKey T.refresh = { k.count with
          activeKey := oppositeKey k.activeKey
          kmPacketCount := 0
          kmAnnounced := false
          kmDecommission := true
          kmSwitchCount := 0 } := if_pos (by omega)
      rw [hswitch]
      refine onTime_decommission (by omega) hopposite rfl ?_ (fun h => absurd h Bool.false_ne_true)
        ?_
        (fun _ => rfl) hctx (hserves.switch hlast)
      · show false = _
        rw [eq_comm, decide_eq_false_iff_not]
        omega
      · show true = _
        rw [eq_comm, decide_eq_true_eq]
        omega

theorem OnTime.congr {k' : KeySide} (h : T.OnTime q r k) (hsame : k.Same k') : T.OnTime q r k' where
  lt := h.lt
  active := hsame.activeKey.trans h.active
  count := hsame.kmPacketCount.trans h.count
  announced := hsame.kmAnnounced.trans h.announced
  decommission := hsame.kmDecommission.trans h.decommission
  switchCount hwaits := hsame.kmSwitchCount.trans (h.switchCount (hsame.kmDecommission ▸ hwaits))
  retryKey hann := hsame.kmRetryKey.trans (h.retryKey (hsame.kmAnnounced ▸ hann))
  context := by
    obtain ⟨ctx, hsome, hserves⟩ := h.context
    exact ⟨ctx, hsame.cryptoCtx.trans hsome, hserves⟩

abbrev OnTimeAt (T : Timetable) (n : ℕ) (k : KeySide) : Prop :=
  T.OnTime (n / T.refresh) (n % T.refresh) k

theorem refresh_pos (T : Timetable) : 0 < T.refresh := by
  have := T.pos
  have := T.rates
  omega

theorem OnTimeAt.advance (h : T.OnTimeAt n k) :
    T.OnTimeAt (n + 1) (k.advance T.refresh T.preAnnounce) := by
  obtain ⟨hwithin, hswitch⟩ := OnTime.advance h
  have hsplit := Nat.div_add_mod n T.refresh
  rcases Nat.lt_or_ge (n % T.refresh + 1) T.refresh with hlt | hge
  · obtain ⟨hdiv, hmod⟩ := (Nat.div_mod_unique T.refresh_pos).mpr
      ⟨show n % T.refresh + 1 + T.refresh * (n / T.refresh) = n + 1 by omega, hlt⟩
    unfold OnTimeAt
    rw [hdiv, hmod]
    exact hwithin hlt
  · have hlast : n % T.refresh + 1 = T.refresh := by
      have := Nat.mod_lt n T.refresh_pos
      omega
    obtain ⟨hdiv, hmod⟩ := (Nat.div_mod_unique T.refresh_pos).mpr
      ⟨show 0 + T.refresh * (n / T.refresh + 1) = n + 1 by rw [Nat.mul_add]; omega, T.refresh_pos⟩
    unfold OnTimeAt
    rw [hdiv, hmod]
    exact hswitch hlast

theorem Serves.drawn_eq (h : T.Serves (n / T.refresh) (n % T.refresh) ctx) :
    ctx.drawn = T.start.drawn + (n + T.preAnnounce) / T.refresh := by
  have hrates := T.rates
  have hpos := T.pos
  have hsplit := Nat.div_add_mod n T.refresh
  have hlt := Nat.mod_lt n T.refresh_pos
  rw [h.drawn]
  by_cases hnext : T.refresh ≤ n % T.refresh + T.preAnnounce
  · obtain ⟨hdiv, -⟩ := (Nat.div_mod_unique (c := n % T.refresh + T.preAnnounce - T.refresh)
      (d := n / T.refresh + 1) T.refresh_pos).mpr
      ⟨show _ = n + T.preAnnounce by rw [Nat.mul_add]; omega, by omega⟩
    rw [if_pos hnext, hdiv]
    omega
  · obtain ⟨hdiv, -⟩ :=
      (Nat.div_mod_unique (c := n % T.refresh + T.preAnnounce) (d := n / T.refresh)
      T.refresh_pos).mpr ⟨show _ = n + T.preAnnounce by omega, by omega⟩
    rw [if_neg hnext, hdiv, Nat.add_zero]

theorem eq_of_due (h : (g + 1) * T.refresh = n + 1 + T.preAnnounce) :
    n % T.refresh + 1 + T.preAnnounce = T.refresh ∧ g = n / T.refresh := by
  have hpos := T.pos
  have hrates := T.rates
  have hsplit := Nat.div_add_mod n T.refresh
  have hlt := Nat.mod_lt n T.refresh_pos
  have hdiv : (g + 1) * T.refresh = T.refresh * g + T.refresh := by ring
  rcases lt_trichotomy g (n / T.refresh) with hless | heq | hmore
  · have := Nat.mul_le_mul_left T.refresh (Nat.succ_le_of_lt hless)
    rw [Nat.mul_succ] at this
    omega
  · rw [← heq] at hsplit
    exact ⟨by omega, heq⟩
  · have := Nat.mul_le_mul_left T.refresh (Nat.succ_le_of_lt hmore)
    rw [Nat.mul_succ] at this
    omega

/-- The output announces the `g`-th key: it was written from a context that holds the key. -/
def Carries [Primitives] (T : Timetable) (passphrase : String) (g : ℕ) (o : Output) : Prop :=
  ∃ (ctx : Context) (km : CIFKeyMaterial) (p : Packet), o = .sendPacket p true ∧ p.isKMREQ = true ∧
    p.data = km.marshalCIF ∧
    ctx.marshalKM passphrase (T.slotOf g) = .ok km ∧ ctx.keyLength = T.start.keyLength ∧
    ctx.slot (T.slotOf g) = T.keyOf g

end Timetable

namespace Conn

variable {σ : Type} {T : Timetable}

variable [Primitives] {c c' : Conn σ} {i : Input}

structure Punctual (T : Timetable) (c : Conn σ) : Prop where
  keys : T.OnTimeAt c.history.length c.key
  refresh : c.params.kmRefreshRate = T.refresh
  preAnnounce : c.params.kmPreAnnounce = T.preAnnounce
  passphrase : c.params.passphrase ≠ ""
  total : firsts c.outputs = c.history.length
  sent : ∀ n t, c.history[n]? = some t → t.wire.header.encryption = T.slotOf (n / T.refresh) ∧
    ∃ ctx, t.context = some ctx ∧ T.Serves (n / T.refresh) (n % T.refresh) ctx
  told : ∀ g, (g + 1) * T.refresh ≤ c.history.length + T.preAnnounce →
    ∃ m o, c.outputs[m]? = some o ∧
    T.Carries c.params.passphrase (g + 1) o ∧ firsts (c.outputs.take m) + T.preAnnounce =
      (g + 1) * T.refresh

theorem Punctual.told_append (h : c.Punctual T) {os : List Output}
    (hg : (g + 1) * T.refresh ≤ c.history.length + T.preAnnounce) :
    ∃ m o, (c.outputs ++ os)[m]? = some o ∧ T.Carries c.params.passphrase (g + 1) o ∧
      firsts ((c.outputs ++ os).take m) + T.preAnnounce = (g + 1) * T.refresh := by
  obtain ⟨m, o, ho, hcarries, hcount⟩ := h.told g hg
  have hm := (List.getElem?_eq_some_iff.mp ho).1
  refine ⟨m, o, ?_, hcarries, ?_⟩
  · rw [List.getElem?_append_left hm]
    exact ho
  · rw [List.take_append_of_le_length hm.le]
    exact hcount

theorem Punctual.of_emits (h : c.Punctual T) (hparams : c'.params = c.params)
    (hhistory : c'.history = c.history) (hkeys : T.OnTimeAt c.history.length c'.key)
    (hemits : Emits (fun o => o.isFirst = false) c c') : c'.Punctual T := by
  obtain ⟨os, houtputs, hos⟩ := hemits
  refine ⟨hhistory ▸ hkeys, hparams ▸ h.refresh, hparams ▸ h.preAnnounce, hparams ▸ h.passphrase,
    ?_, ?_,
    fun g hg => ?_⟩
  · rw [houtputs, firsts_append, firsts_eq_zero hos, hhistory]
    exact h.total
  · rw [hhistory]
    exact h.sent
  · rw [hhistory] at hg
    rw [houtputs, hparams]
    exact h.told_append hg

theorem Punctual.aside (h : c.Punctual T) {c₀ : Conn σ} (hmove : Aside i c₀ c c')
    (hin : ∀ now p, i = .packet now p → p.isKMREQ = false) : c'.Punctual T := by
  refine h.of_emits hmove.params hmove.history (h.keys.congr (hmove.key.same_of_not_isKMREQ hin))
    (hmove.emits.mono fun o ho => ?_)
  have howned := ho.owned
  cases o with
  | sendPacket p owned => rw [show owned = true from howned]; rfl
  | setTimer id deadline => rfl
  | clearTimer id => rfl

theorem Punctual.transmitted (h : c.Punctual T) {wire : Packet} (plain : Packet)
    (hwire : wire.header.encryption = c.key.activeKey) :
    ∀ n t, (c.history ++ [Transmission.mk c.key.cryptoCtx plain wire])[n]? = some t →
      t.wire.header.encryption = T.slotOf (n / T.refresh) ∧
        ∃ ctx, t.context = some ctx ∧ T.Serves (n / T.refresh) (n % T.refresh) ctx := by
  intro n t ht
  rcases getElem?_concat_cases ht with hold | ⟨rfl, rfl⟩
  · exact h.sent n t hold
  · exact ⟨hwire.trans h.keys.active, h.keys.context⟩

section
variable [Controller σ] [LawfulPrimitives]

theorem Punctual.packet (h : c.Punctual T) (now : ℤ) (seqNo ts : ℕ) (f : Frame) :
    (c.sendData now seqNo ts f).Punctual T := by
  rcases sendData_transmits c now seqNo ts f with hsame | ⟨c₂, hsends, -, heq⟩
  · rw [hsame]
    exact h
  · obtain ⟨ctx, hctx, hserves⟩ := h.keys.context
    have hlength := hsends.length
    obtain ⟨os, houtputs, hpassive⟩ := hsends.outputs
    have htotal : firsts c₂.outputs = c.history.length + 1 := by rw [hsends.firsts_eq, h.total]
    rw [heq, if_pos ⟨by rw [hctx]; rfl, by rw [h.refresh]; exact T.refresh_pos⟩]
    have hframe := keyFrame_checkKeyRotation c₂ now
    have hparams := hframe.params.trans hsends.params
    have hadvance := key_checkKeyRotation c₂ now
    rw [hsends.key, hsends.params, h.refresh, h.preAnnounce] at hadvance
    obtain ⟨hidle, hannounce⟩ := outputs_checkKeyRotation c₂ now (by rw [hsends.key]; exact hctx)
    rw [hsends.key, hsends.params, h.refresh, h.preAnnounce, h.keys.due_eq, h.keys.active,
      Timetable.oppositeKey_slotOf] at hidle hannounce
    -- what the rotation sends, and what is announced by it
    obtain ⟨os', houtputs', hquiet, htold⟩ : ∃ os', (c₂.checkKeyRotation now).outputs =
      c₂.outputs ++ os' ∧
        (∀ o ∈ os', o.isFirst = false) ∧
        (c.history.length % T.refresh + 1 + T.preAnnounce = T.refresh → ∃ o, os'[0]? = some o ∧
          T.Carries c.params.passphrase (c.history.length / T.refresh + 1) o) := by
      by_cases hdue : c.history.length % T.refresh + 1 + T.preAnnounce = T.refresh
      · obtain ⟨ctx', hgen, hserves'⟩ := hserves.generateSEK hdue
        have hnone : T.slotOf (c.history.length / T.refresh + 1) ≠ .none := by
          rcases T.slotOf_even_or_odd (c.history.length / T.refresh + 1) with heq | heq <;>
            rw [heq] <;> decide
        have hsize : validKeySize ctx'.keyLength = true := by
          rw [hserves'.keyLength]
          exact T.keyLength
        obtain ⟨km, hkm⟩ : ∃ km, ctx'.marshalKM c.params.passphrase
            (T.slotOf (c.history.length / T.refresh + 1)) = .ok km :=
              Context.exists_marshalKM hsize hnone
        obtain ⟨deadline, hout⟩ := hannounce (decide_eq_true hdue) ctx' hgen h.passphrase km hkm
        refine ⟨_, hout, ?_, fun _ => ⟨_, rfl, ctx', km, _, rfl, rfl, rfl, hkm, hserves'.keyLength,
          ?_⟩⟩
        · simp [Output.isFirst]
        · exact hserves'.next (by omega)
      · refine ⟨[], ?_, by simp, fun hnow => absurd hnow hdue⟩
        rw [List.append_nil]
        exact hidle (Or.inl (decide_eq_false hdue))
    refine ⟨?_, ?_, ?_, ?_, ?_, ?_, fun g hg => ?_⟩
    · rw [hframe.history, hlength, hadvance]
      exact h.keys.advance
    · rw [hparams]
      exact h.refresh
    · rw [hparams]
      exact h.preAnnounce
    · rw [hparams]
      exact h.passphrase
    · rw [houtputs', firsts_append, htotal, firsts_eq_zero hquiet, hframe.history, hlength]
    · rw [hframe.history, hsends.history]
      exact h.transmitted _ (encryption_encrypt hctx _ _)
    · rw [hframe.history, hlength] at hg
      rw [hparams, houtputs']
      by_cases hold : (g + 1) * T.refresh ≤ c.history.length + T.preAnnounce
      · rw [houtputs, List.append_assoc]
        exact h.told_append hold
      · obtain ⟨hdue, rfl⟩ := Timetable.eq_of_due (T := T) (g := g) (n := c.history.length)
          (by omega)
        obtain ⟨o, ho, hcarries⟩ := htold hdue
        refine ⟨c₂.outputs.length, o, ?_, hcarries, ?_⟩
        · rw [List.getElem?_append_right le_rfl, Nat.sub_self]
          exact ho
        · rw [List.take_left, htotal]
          omega

theorem Punctual.step (hdata : c.DataOnly) (h : c.Punctual T)
    (hin : ∀ now p, i = .packet now p → p.isKMREQ = false) : (c.step i).Punctual T ∧
      (c.step i).DataOnly := by
  refine side_preserves (Q := fun c' => c'.Punctual T ∧ c'.DataOnly) c i ⟨h,
    hdata⟩ fun c₁ c₂ hmove hc₁ => ?_
  obtain ⟨hc₁, hdata₁⟩ := hc₁
  refine ⟨?_, hmove.dataOnly hdata₁⟩
  cases hmove with
  | aside hmove => exact hc₁.aside hmove hin
  | packet seqNo ts f => exact hc₁.packet i.now seqNo ts f

end

end Conn

/-! ## Whole runs -/

structure EstablishParams.Starts (T : Timetable) (ep : EstablishParams) : Prop where
  context : ep.context = some T.start
  active : ep.activeKey = T.first
  refresh : ep.kmRefreshRate = T.refresh
  preAnnounce : ep.kmPreAnnounce = T.preAnnounce
  passphrase : ep.passphrase ≠ ""

namespace Timetable

variable {T : Timetable} {ctx : Context}

theorem isSome_keyOf (husable : (T.start.keyOf T.first).isSome = true)
    (hmode : ctx.mode = T.start.mode)
    (hslot : ctx.slot (T.slotOf g) = T.keyOf g) : (ctx.keyOf (T.slotOf g)).isSome = true := by
  unfold Context.keyOf
  rw [hslot, hmode]
  cases g with
  | zero => exact husable
  | succ g =>
    obtain ⟨raw, hraw⟩ := Option.isSome_iff_exists.mp (T.random (T.start.drawn + g))
    rw [keyOf, hraw]
    cases hgcm : T.start.mode <;> simp [Context.keyed]

end Timetable

namespace Conn

variable {σ : Type} [Controller σ] [Primitives] {T : Timetable} {ep : EstablishParams}

theorem punctual_establish (h : ep.Starts T) (cc : σ) (now : ℤ) :
    (establish cc now ep).Punctual T ∧ (establish cc now ep).DataOnly := by
  have hpos := T.pos
  have hrates := T.rates
  have hsome := EstablishParams.isSome_cryptoCtx h.context
  have hfirst : T.first ≠ .none := by
    rcases T.slot with heq | heq <;> rw [heq] <;> decide
  have hactive : (established cc now ep).key.activeKey = T.first := by
    simp [established, establishedKeys, hsome, h.active, hfirst]
  have hzero : ∀ g, ¬(g + 1) * T.refresh ≤ 0 + T.preAnnounce := by
    intro g hg
    have : T.refresh ≤ (g + 1) * T.refresh := Nat.le_mul_of_pos_left T.refresh (Nat.succ_pos g)
    omega
  have hkeys : T.OnTimeAt 0 (established cc now ep).key := by
    unfold Timetable.OnTimeAt
    rw [Nat.zero_div, Nat.zero_mod]
    refine ⟨T.refresh_pos, hactive, rfl, ?_, ?_, fun hwaits => absurd hwaits Bool.false_ne_true,
      fun hann => absurd hann Bool.false_ne_true, T.start, h.context, ?_⟩
    · show false = _
      rw [eq_comm, decide_eq_false_iff_not]
      omega
    · show false = _
      rw [eq_comm, decide_eq_false_iff_not]
      omega
    · refine ⟨rfl, rfl, rfl, rfl, rfl, ?_, rfl, fun hnext => by omega, fun g hg => by omega⟩
      rw [if_neg (by omega)]
      rfl
  have hstart : (established cc now ep).Punctual T := by
    refine ⟨hkeys, ?_, ?_, ?_, rfl, fun n t ht => ?_, fun g hg => absurd hg (hzero g)⟩
    · simp [established, establishedParams, hsome, h.refresh]
    · simp only [established, establishedParams, hsome, if_true,
        EstablishParams.effectivePreAnnounce, h.refresh, h.preAnnounce]
      rw [if_neg (by omega)]
    · simp [established, establishedParams, hsome, h.passphrase]
    · simp [established] at ht
  exact ⟨hstart.aside (aside_establish cc now ep) (by simp), dataOnly_establish cc now ep⟩

variable [LawfulPrimitives]

theorem punctual_exec (h : ep.Starts T) (cc : σ) (now : ℤ) (is : List Input)
    (hin : ∀ i ∈ is, ∀ now p, i = .packet now p → p.isKMREQ = false) :
    (exec Conn.step (establish cc now ep) is).Punctual T := by
  have hsteps : AllSteps Conn.step (fun _ i => ∀ now p, i = .packet now p → p.isKMREQ = false)
      (establish cc now ep) is := allSteps_of_forall_mem hin
  have hstates := hsteps.allStates (Q := fun c => c.Punctual T ∧ c.DataOnly)
    (fun c i hc hi => Punctual.step hc.2 hc.1 hi) (punctual_establish h cc now)
  exact hstates.exec.1

/-- **The rotation keeps to its timetable.**  Whatever a connection sends and hears, as long as it
hears of no key and its randomness does not fail: the slot that encrypts a packet holds a key; a key
that was not part of the handshake was announced at least `P` packets before any packet that it
encrypts; from its announcement until it is cleared a key stays in its slot, and one key is drawn
for each announcement; and the slot that waits to be cleared is neither the active one nor
announced. -/
theorem rotation_on_timetable (h : ep.Starts T)
    (husable : (T.start.keyOf T.first).isSome = true) (cc : σ)
    (now : ℤ) (is : List Input) (hin : ∀ i ∈ is, ∀ now p, i = .packet now p → p.isKMREQ = false) :
    let c := exec Conn.step (establish cc now ep) is
    (∀ t ∈ c.history, ∃ ctx, t.context = some ctx ∧
      (ctx.keyOf t.wire.header.encryption).isSome = true) ∧
    (∀ n t, c.history[n]? = some t → t.wire.header.encryption = T.slotOf (n / T.refresh) ∧
      (T.refresh ≤ n → ∃ m o, c.outputs[m]? = some o ∧
        T.Carries c.params.passphrase (n / T.refresh) o ∧
        firsts (c.outputs.take m) + T.preAnnounce ≤ n)) ∧
    (∀ n t, c.history[n]? = some t → ∃ ctx, t.context = some ctx ∧
      ctx.drawn = T.start.drawn + (n + T.preAnnounce) / T.refresh ∧
      ∀ g, T.Live g n → ctx.slot (T.slotOf g) = T.keyOf g) ∧
    (∃ ctx, c.key.cryptoCtx = some ctx ∧
      ctx.slot c.key.activeKey = T.keyOf (c.history.length / T.refresh) ∧
      (c.key.kmAnnounced = true →
        ctx.slot (oppositeKey c.key.activeKey) = T.keyOf (c.history.length / T.refresh + 1)) ∧
      (c.key.kmDecommission = true →
        oppositeKey c.key.activeKey ≠ c.key.activeKey ∧ c.key.kmAnnounced = false)) := by
  intro c
  have hc : c.Punctual T := punctual_exec h cc now is hin
  have hlive : ∀ n t, c.history[n]? = some t → ∃ ctx, t.context = some ctx ∧
    ctx.mode = T.start.mode ∧
      ctx.drawn = T.start.drawn + (n + T.preAnnounce) / T.refresh ∧
      ∀ g, T.Live g n → ctx.slot (T.slotOf g) = T.keyOf g := by
    intro n t ht
    obtain ⟨ctx, hctx, hserves⟩ := (hc.sent n t ht).2
    refine ⟨ctx, hctx, hserves.mode, hserves.drawn_eq, fun g hg => ?_⟩
    refine hserves.slot_of_live (Nat.mod_lt n T.refresh_pos) ?_
    rw [Nat.mul_comm, Nat.div_add_mod]
    exact hg
  refine ⟨fun t ht => ?_, fun n t ht => ⟨(hc.sent n t ht).1, fun hrotated => ?_⟩, fun n t ht => ?_,
    ?_⟩
  · obtain ⟨n, hn⟩ := List.mem_iff_getElem?.mp ht
    obtain ⟨hslot, ctx, hctx, hserves⟩ := hc.sent n t hn
    rw [hslot]
    exact ⟨ctx, hctx, Timetable.isSome_keyOf husable hserves.mode hserves.current⟩
  · -- key `g` is told when the packets of key `g - 1` have `P` more to go
    have hn := (List.getElem?_eq_some_iff.mp ht).1
    have hkey : 0 < n / T.refresh := Nat.div_pos hrotated T.refresh_pos
    have hstart : n / T.refresh * T.refresh ≤ n := Nat.div_mul_le_self n T.refresh
    have hnumber : n / T.refresh - 1 + 1 = n / T.refresh := Nat.sub_add_cancel hkey
    obtain ⟨m, o, ho, hcarries, hcount⟩ := hc.told (n / T.refresh - 1) (by rw [hnumber]; omega)
    rw [hnumber] at hcarries hcount
    exact ⟨m, o, ho, hcarries, by omega⟩
  · obtain ⟨ctx, hctx, -, hdrawn, hslots⟩ := hlive n t ht
    exact ⟨ctx, hctx, hdrawn, hslots⟩
  · obtain ⟨ctx, hctx, hserves⟩ := hc.keys.context
    have hrates := T.rates
    refine ⟨ctx, hctx, ?_, fun hann => ?_, fun hwaits => ⟨?_, ?_⟩⟩
    · rw [hc.keys.active]
      exact hserves.current
    · rw [hc.keys.announced, decide_eq_true_eq] at hann
      rw [hc.keys.active, Timetable.oppositeKey_slotOf]
      exact hserves.next hann
    · rw [hc.keys.active, Timetable.oppositeKey_slotOf]
      exact T.slotOf_succ_ne _
    · rw [hc.keys.decommission, decide_eq_true_eq] at hwaits
      rw [hc.keys.announced, decide_eq_false_iff_not]
      omega

end Conn

section Examples

open scoped XorCipher

/-- A side that changes its key every six packets and announces the new one two packets earlier. -/
def sixes : Timetable where
  start := Pair.endContext 1
  first := .even
  refresh := 6
  preAnnounce := 2
  slot := Or.inl rfl
  pos := by decide
  rates := by decide
  keyLength := by decide
  random _ := rfl

def sixesParams : EstablishParams :=
  { cryptoCtx := some (Pair.endContext 1), activeKey := .even, passphrase := "swordfish"
    kmRefreshRate := 6, kmPreAnnounce := 2 }

def eightWrites : List Input := (List.range 8).map fun n : ℕ => .write (100000 * (n + 1))
    [1, 2, 3] {}

/-- The eighth packet is the second one under the odd key, which was announced after the fourth
one. -/
theorem eight_packets_on_timetable :
    let c := exec Conn.step (Conn.establish (LiveCC.new 0 0) 0 sixesParams) eightWrites
    c.history.length = 8 ∧ (∀ t, c.history[7]? = some t → t.wire.header.encryption = .odd ∧
      ∃ m o, c.outputs[m]? = some o ∧ sixes.Carries c.params.passphrase 1 o ∧
        firsts (c.outputs.take m) + 2 ≤ 7) := by
  intro c
  have hstarts : sixesParams.Starts sixes := ⟨rfl, rfl, rfl, rfl, by decide⟩
  obtain ⟨-, hannounced, -⟩ := Conn.rotation_on_timetable hstarts (by decide) (LiveCC.new 0 0)
    0 eightWrites
    (by
      intro i hi now p hp
      obtain ⟨n, -, rfl⟩ := List.mem_map.mp hi
      exact absurd hp (by simp))
  refine ⟨by decide +kernel, fun t ht => ?_⟩
  obtain ⟨hslot, htold⟩ := hannounced 7 t ht
  exact ⟨hslot, htold (by decide)⟩

end Examples

end SrtGo.Core
