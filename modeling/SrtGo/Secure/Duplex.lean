import SrtGo.Secure.Courier
import SrtGo.Secure.Integrity

/-!
# Keys for both directions

Two sides of one secured connection that both send data, over a network that delivers
control packets in order and without loss; data packets may arrive late, again or never.

A side that has not reached its first rotation only listens: it follows the
announcements of the other side, and so can read every packet that is not too old
(`run_decryptable`).  Once it rotates itself, it draws and clears keys in the very slots
that the other side uses.
-/

namespace SrtGo.Core

open Buffer Bytes Congestion Crypto

namespace KeySide

variable {ctx : Context} {k : KeySide}

theorem advance_idle {R P : ℕ} (hctx : k.cryptoCtx = some ctx)
    (hdecommission : k.kmDecommission = false)
    (hearly : k.kmPacketCount + 1 < R - P) : k.count.due R P = false ∧ k.advance R P = k.count := by
  have hnot : k.count.due R P = false := by
    unfold due
    rw [decide_eq_false (show ¬R - P ≤ k.count.kmPacketCount from not_le.mpr hearly)]
    exact Bool.and_false _
  exact ⟨hnot, advance_eq_count hctx hnot (by omega) hdecommission⟩

theorem response_rcvKmState (h : k.rcvKmState ≠ .securing) (data : Bytes) :
    (k.response data).rcvKmState ≠ .securing := by
  unfold response refused Conn.errorState
  split_ifs <;> simp [h]

variable [Primitives]

variable {p : Packet}

theorem request_context (hctx : k.cryptoCtx = some ctx) {passphrase : String}
    (hpass : passphrase ≠ "") (hp : p.isKMREQ = true) (owned : Bool) :
    (k.request passphrase p.data).cryptoCtx =
      some (learnOne passphrase ctx (.sendPacket p owned)) := by
  unfold request learnOne
  simp only [hctx, hpass, if_false, Output.packet?, hp, if_true]
  cases CIFKeyMaterial.unmarshalCIF p.data with
  | error e => exact hctx
  | ok km =>
    simp only
    cases hres : ctx.unmarshalKM km passphrase with
    | mk ctx' e => cases e <;> rfl

theorem request_rcvKmState (k : KeySide) (passphrase : String) (data : Bytes) :
    (k.request passphrase data).rcvKmState ≠ .securing := by
  unfold request
  split
  · simp [setReceived]
  · split_ifs
    · simp [setReceived]
    · split
      · simp [setReceived]
      · split <;> simp [setReceived]

end KeySide

namespace Conn

variable {σ : Type}

def Untouched (c : Conn σ) : Prop :=
  c.params.kmRefreshRate = 0 ∨ c.history.length < c.params.kmRefreshRate - c.params.kmPreAnnounce

instance (c : Conn σ) : Decidable c.Untouched := inferInstanceAs (Decidable (_ ∨ _))

structure Idle (c : Conn σ) : Prop where
  announced : c.key.kmAnnounced = false
  decommission : c.key.kmDecommission = false
  count : c.key.kmPacketCount ≤ c.history.length
  silent : ∀ o ∈ c.outputs, o.isKMREQ = false
  state : c.key.rcvKmState ≠ .securing

variable {c c' : Conn σ}

theorem Untouched.mono (h : c'.Untouched) (hparams : c'.params = c.params)
    (hlength : c.history.length ≤ c'.history.length) : c.Untouched := by
  unfold Untouched at h ⊢
  rw [hparams] at h
  omega

theorem Idle.of_passive (h : c.Idle) (hannounced : c'.key.kmAnnounced = c.key.kmAnnounced)
    (hdecommission : c'.key.kmDecommission = c.key.kmDecommission)
    (hcount : c'.key.kmPacketCount ≤ c'.history.length) (hstate : c'.key.rcvKmState ≠ .securing)
    (hemits : Emits (fun o => o.isKMREQ = false) c c') : c'.Idle := by
  refine ⟨hannounced.trans h.announced, hdecommission.trans h.decommission, hcount, fun o ho => ?_,
    hstate⟩
  rcases hemits.mem ho with hold | hnew
  · exact h.silent o hold
  · exact hnew

section
variable [Controller σ] [Primitives] {i : Input} {c₀ c₁ c₂ : Conn σ}

theorem SendMove.length_le (h : SendMove i c₀ c₁ c₂) : c₁.history.length ≤ c₂.history.length := by
  cases h with
  | aside hmove => rw [hmove.history]
  | transmit hpush => simp [Conn.transmit, push]
  | rotate hrate => rw [(keyFrame_checkKeyRotation c₁ i.now).history]

theorem SideMove.length_le (h : SideMove i c₀ c₁ c₂) : c₁.history.length ≤ c₂.history.length :=
  h.preserves (Q := fun c => c₁.history.length ≤ c.history.length)
    (fun _ _ hpart hle => hle.trans hpart.length_le) le_rfl

omit [Controller σ] in
theorem Idle.aside (hdata : c.DataOnly) (h : c.Idle) (hmove : Aside i c₀ c c') : c'.Idle := by
  obtain ⟨hannounced, hdecommission, hcount, hstate⟩ : c'.key.kmAnnounced = c.key.kmAnnounced ∧
      c'.key.kmDecommission = c.key.kmDecommission ∧ c'.key.kmPacketCount = c.key.kmPacketCount ∧
      c'.key.rcvKmState ≠ .securing := by
    have hkey := hmove.key
    generalize c'.key = k at hkey
    cases hkey with
    | same => exact ⟨rfl, rfl, rfl, h.state⟩
    | retry hi n => exact ⟨rfl, rfl, rfl, h.state⟩
    | @request now p hi hkey hp =>
      have hframe := (c.key.request_cases c.params.passphrase p.data).1
      exact ⟨by rw [hframe], by rw [hframe], by rw [hframe], KeySide.request_rcvKmState _ _ _⟩
    | @response now p hi hp =>
      have hsame := c.key.same_response p.data
      exact ⟨hsame.kmAnnounced, hsame.kmDecommission, hsame.kmPacketCount,
        KeySide.response_rcvKmState h.state _⟩
  refine h.of_passive hannounced hdecommission ?_ hstate (hmove.emits.mono fun o ho => ?_)
  · rw [hcount, hmove.history]
    exact h.count
  · rcases ho.passive_or_announces hdata with hpassive | ⟨-, hann, -⟩
    · exact hpassive.2
    · exact absurd hann (by simp [h.announced])

theorem Idle.packet (h : c.Idle) {now : ℤ} {seqNo ts : ℕ} {f : Frame}
    (hnot : (c.sendData now seqNo ts f).Untouched) : (c.sendData now seqNo ts f).Idle ∧
      (c.sendData now seqNo ts f).key.cryptoCtx = c.key.cryptoCtx := by
  rcases sendData_transmits c now seqNo ts f with hsame | ⟨c₁, hsends, -, heq⟩
  · rw [hsame]
    exact ⟨h, rfl⟩
  · have hcount := h.count
    rw [heq] at hnot ⊢
    split_ifs at hnot ⊢ with hrotates
    · obtain ⟨ctx, hctx⟩ := Option.isSome_iff_exists.mp hrotates.1
      have hframe := keyFrame_checkKeyRotation c₁ now
      -- the rotation is still ahead
      have hearly : c.key.kmPacketCount + 1 < c.params.kmRefreshRate - c.params.kmPreAnnounce := by
        rcases hnot with hzero | hlt
        · rw [hframe.params, hsends.params] at hzero
          exact absurd hrotates.2 (by omega)
        · rw [hframe.params, hframe.history, hsends.params, hsends.length] at hlt
          omega
      obtain ⟨hnotDue, hadvance⟩ := KeySide.advance_idle hctx h.decommission hearly
      have hnew := key_checkKeyRotation c₁ now
      rw [hsends.key, hsends.params, hadvance] at hnew
      have houtputs := (outputs_checkKeyRotation c₁ now (by rw [hsends.key]; exact hctx)).1
        (Or.inl (by rw [hsends.key, hsends.params]; exact hnotDue))
      refine ⟨h.of_passive (by rw [hnew]; rfl) (by rw [hnew]; rfl) ?_ (by rw [hnew]; exact h.state)
        (hsends.silent.trans (Emits.of_eq houtputs)), by rw [hnew]; rfl⟩
      rw [hnew, hframe.history, hsends.length]
      exact Nat.add_le_add_right hcount 1
    · refine ⟨h.of_passive (by rw [hsends.key]) (by rw [hsends.key]) ?_
        (by rw [hsends.key]; exact h.state)
        hsends.silent, by rw [hsends.key]⟩
      rw [hsends.key, hsends.length]
      exact Nat.le_succ_of_le hcount

/-- One step before the first rotation.  The context only changes when an announcement
arrives. -/
theorem Idle.step (hdata : c.DataOnly) (h : c.Idle) (hnot : (c.step i).Untouched) :
    (c.step i).Idle ∧ ((∀ now p, i = .packet now p → p.isKMREQ = false) →
      (c.step i).key.cryptoCtx = c.key.cryptoCtx) := by
  suffices hstep : ((c.step i).Untouched → (c.step i).Idle ∧
      ((∀ now p, i = .packet now p → p.isKMREQ = false) →
        (c.step i).key.cryptoCtx = c.key.cryptoCtx)) ∧ (c.step i).DataOnly from hstep.1 hnot
  refine side_preserves (Q := fun c' => (c'.Untouched → c'.Idle ∧
      ((∀ now p, i = .packet now p → p.isKMREQ = false) → c'.key.cryptoCtx = c.key.cryptoCtx)) ∧
    c'.DataOnly) c i ⟨fun _ => ⟨h, fun _ => rfl⟩, hdata⟩ fun c₁ c₂ hmove hc₁ => ?_
  obtain ⟨hc₁, hdata₁⟩ := hc₁
  refine ⟨fun hnot₂ => ?_, hmove.dataOnly hdata₁⟩
  obtain ⟨hidle, hsame⟩ := hc₁ (hnot₂.mono hmove.params hmove.length_le)
  cases hmove with
  | aside hmove =>
    exact ⟨hidle.aside hdata₁ hmove, fun hin =>
      (hmove.key.same_of_not_isKMREQ hin).cryptoCtx.trans (hsame hin)⟩
  | packet seqNo ts f =>
    obtain ⟨hsent, hkept⟩ := hidle.packet hnot₂
    exact ⟨hsent, fun hin => hkept.trans (hsame hin)⟩

theorem params_step (c : Conn σ) (i : Input) : (c.step i).params = c.params :=
  side_preserves (Q := fun c' => c'.params = c.params) c i rfl fun _ _ h hc₁ => h.params.trans hc₁

theorem outputs_step (c : Conn σ) (i : Input) : ∃ os, (c.step i).outputs = c.outputs ++ os := by
  suffices h : Emits (fun _ => True) c (c.step i) by
    obtain ⟨os, hos, -⟩ := h
    exact ⟨os, hos⟩
  refine send_preserves (Q := fun c' => Emits (fun _ => True) c c') c i (Emits.refl _ c)
    fun c₁ c₂ hmove hc₁ => hc₁.trans ?_
  cases hmove with
  | aside hmove => exact hmove.emits.mono fun _ _ => trivial
  | transmit hpush => exact Emits.push _ trivial
  | rotate hrate => exact (emits_checkKeyRotation c₁ i.now).mono fun _ _ => trivial

theorem step_of_isKMREQ (hopen : c.closed = false) (hp : p.isKMREQ = true) (now : ℤ) :
    (c.step (.packet now p)).key = c.key.request c.params.passphrase p.data ∧
      Emits Signal c (c.step (.packet now p)) := by
  obtain ⟨hcontrol, huser, hreq⟩ := Packet.isKMREQ_iff.mp hp
  have hbook := book_noteAlive c now
  have hstep : c.step (.packet now p) = (c.noteAlive now).handleKMRequest now p := by
    simp [Conn.step, handlePacket, hopen, hcontrol, huser, handleControl, handleUser, hreq]
  obtain ⟨os, heq, hos⟩ := (c.noteAlive now).handleKMRequest_spec now p
  rw [hstep, heq, hbook.key, hbook.params]
  refine ⟨rfl, os, by rw [hbook.outputs], fun o ho => ?_⟩
  obtain ⟨now, data, -, rfl⟩ := hos o ho
  exact ⟨rfl, rfl, fun huser => by simp [userControl] at huser⟩

end

end Conn

/-! ## The network -/

/-- The two sides, and how many outputs of the other side have passed through the control
channel to each. -/
structure Duplex (σ : Type) where
  conns : Pair σ
  heard : Bool → ℕ := fun _ => 0

/-- What can happen: the host of one side does something, the control channel passes on its
next output, or a data packet arrives. -/
inductive DuplexAction where
  | host (side : Bool) (i : Input)
  | control (side : Bool) (now : ℤ)
  | data (side : Bool) (now : ℤ) (k : ℕ)

namespace Duplex

variable {σ : Type}

def side : DuplexAction → Bool
  | .host x _ => x
  | .control x _ => x
  | .data x _ _ => x

def input? (l : Duplex σ) : DuplexAction → Option Input
  | .host _ (.packet _ _) => none
  | .host _ i => some i
  | .control x now =>
    ((l.conns.packetAt (!x) (l.heard x)).filter (·.header.isControl)).map (.packet now)
  | .data x now k => ((l.conns.packetAt (!x) k).filter (!·.header.isControl)).map (.packet now)

def hears (l : Duplex σ) : DuplexAction → Bool → ℕ
  | .control x _ =>
    if l.heard x < (l.conns !x).outputs.length then Function.update l.heard x (l.heard x + 1)
    else l.heard
  | _ => l.heard

/-- Every arrival is at a side that has not come to its first rotation. -/
def Untouched (l : Duplex σ) : DuplexAction → Prop
  | .data x _ _ => (l.conns x).Untouched
  | _ => True

theorem sent_of_input {l : Duplex σ} {a : DuplexAction} {now : ℤ}
    (h : l.input? a = some (.packet now p)) :
    ∃ owned, .sendPacket p owned ∈ (l.conns !side a).outputs := by
  cases a with
  | host x i => cases i <;> exact absurd h (by simp [input?])
  | control x now' =>
    obtain ⟨q, hq, heq⟩ := Option.map_eq_some_iff.mp h
    obtain ⟨-, rfl⟩ := Input.packet.inj heq
    exact Pair.mem_outputs_of_packetAt (Option.eq_some_of_filter_eq_some hq)
  | data x now' k =>
    obtain ⟨q, hq, heq⟩ := Option.map_eq_some_iff.mp h
    obtain ⟨-, rfl⟩ := Input.packet.inj heq
    exact Pair.mem_outputs_of_packetAt (Option.eq_some_of_filter_eq_some hq)

variable [Controller σ] [Primitives]

def step (l : Duplex σ) (a : DuplexAction) : Duplex σ where
  conns := match l.input? a with
    | none => l.conns
    | some i => Function.update l.conns (side a) ((l.conns (side a)).step i)
  heard := l.hears a

omit [Controller σ] in
/-- A data packet that arrives after the announcements before it, and before the sender has
sent another `P` packets, is decrypted to its plaintext.  The `n`-th transmission is the
one that it is a copy of. -/
def Decryptable (l : Duplex σ) : DuplexAction → Prop
  | .data x _ k => ∀ p ∈ l.conns.packetAt (!x) k, p.header.isControl = false →
      (l.conns x).closed = false → k ≤ l.heard x →
      ∀ n t, (l.conns !x).history[n]? = some t → IsCopy p t.wire →
      n < firsts ((l.conns !x).outputs.take (k + 1)) →
      (l.conns !x).history.length ≤ n + (l.conns !x).params.kmPreAnnounce →
      (l.conns x).decrypt p = some { p with data := t.plain.data }
  | _ => True

def new (cc : Bool → σ) (now : Bool → ℤ) (ep : Bool → EstablishParams) : Duplex σ where
  conns := Pair.new cc now ep

theorem step_other (l : Duplex σ) (a : DuplexAction) {x : Bool} (hx : x ≠ side a) :
    (l.step a).conns x = l.conns x ∧ (l.step a).heard x = l.heard x := by
  refine ⟨?_, ?_⟩
  · unfold step
    cases l.input? a with
    | none => rfl
    | some i => exact Function.update_of_ne hx _ _
  · cases a with
    | host y i => rfl
    | data y now k => rfl
    | control y now =>
      simp only [step, hears]
      split_ifs
      · exact Function.update_of_ne hx _ _
      · rfl

theorem step_of_none {l : Duplex σ} {a : DuplexAction} (h : l.input? a = none) :
    (l.step a).conns = l.conns := by
  unfold step
  rw [h]

theorem step_of_some {l : Duplex σ} {a : DuplexAction} {i : Input} (h : l.input? a = some i) :
    (l.step a).conns (side a) = (l.conns (side a)).step i := by
  unfold step
  rw [h]
  exact Function.update_self _ _ _

/-! ## One side follows the other -/

structure Linked (T : Terms) (ctx₀ : Context) (l : Duplex σ) (x : Bool) : Prop where
  idle : (l.conns x).Idle
  follows : (l.conns x).key.cryptoCtx = some (learn (l.conns x).params.passphrase ctx₀
    ((l.conns !x).outputs.take (l.heard x)))
  courier : (l.conns !x).Courier T ctx₀

structure Sound (T : Terms) (passphrase : String) (ctx₀ : Bool → Context) (l : Duplex σ) :
    Prop where
  dataOnly : ∀ x, (l.conns x).DataOnly
  rates : ∀ x, (l.conns x).params.kmRefreshRate = 0 ∨
    2 * (l.conns x).params.kmPreAnnounce ≤ (l.conns x).params.kmRefreshRate
  passphrase : ∀ x, (l.conns x).params.passphrase = passphrase
  heard : ∀ x, l.heard x ≤ (l.conns !x).outputs.length
  linked : ∀ x, (l.conns x).closed = false → (l.conns x).Untouched → l.Linked T (ctx₀ x) x

omit [Controller σ] in
theorem learn_take_succ (passphrase : String) (ctx₀ : Context) {os : List Output} {n : ℕ}
    {o : Output} (ho : os[n]? = some o) : learn passphrase ctx₀ (os.take (n + 1)) =
      learnOne passphrase (learn passphrase ctx₀ (os.take n)) o := by
  rw [List.take_add_one, ho, learn_append]
  rfl

variable {T : Terms} {passphrase : String} {ctx₀ : Bool → Context} {l : Duplex σ} {a : DuplexAction}

theorem step_conn (l : Duplex σ) (a : DuplexAction) (x : Bool) :
    (l.step a).conns x = l.conns x ∨ x = side a ∧ ∃ i, l.input? a = some i ∧
      (l.step a).conns x = (l.conns x).step i := by
  by_cases hx : x = side a
  · cases hinput : l.input? a with
    | none => exact Or.inl (by rw [step_of_none hinput])
    | some i =>
      rw [hx]
      exact Or.inr ⟨rfl, i, rfl, step_of_some hinput⟩
  · exact Or.inl (l.step_other a hx).1

theorem Linked.receive (hpass : passphrase ≠ "") (h : l.Sound T passphrase ctx₀)
    (hopen : ((l.step a).conns (side a)).closed = false)
    (hnot : ((l.step a).conns (side a)).Untouched) : (l.step a).Linked T (ctx₀ (side a))
    (side a) := by
  obtain ⟨hother, -⟩ := l.step_other a (x := !side a) (by simp)
  cases hinput : l.input? a with
  | none =>
    have hself : (l.step a).conns (side a) = l.conns (side a) := by
      rw [step_of_none hinput]
    rw [hself] at hopen hnot
    obtain ⟨hidle, hfollows, hcourier⟩ := h.linked (side a) hopen hnot
    refine ⟨by rwa [hself], ?_, by rwa [hother]⟩
    rw [hself, hother, hfollows]
    -- a timer, or a data packet, has passed
    cases a with
    | host x i => rfl
    | data x now k => rfl
    | control x now =>
      simp only [step, hears, side] at *
      split_ifs with hmore
      · rw [Function.update_self]
        obtain ⟨o, ho⟩ : ∃ o, (l.conns !x).outputs[l.heard x]? = some o :=
          ⟨_, List.getElem?_eq_getElem hmore⟩
        rw [learn_take_succ _ _ ho, learnOne_of_not_isKMREQ]
        unfold Output.isKMREQ
        cases hp : o.packet? with
        | none => rfl
        | some p =>
          have hat : l.conns.packetAt (!x) (l.heard x) = some p := by
            rw [Pair.packetAt, ho]
            exact hp
          simp only [input?, hat, Option.map_eq_none_iff, Option.filter_some] at hinput
          split_ifs at hinput with hcontrol
          simp [Packet.isKMREQ, hcontrol]
      · rfl
  | some i =>
    have hself := step_of_some hinput
    rw [hself] at hopen hnot
    have hopen₀ : (l.conns (side a)).closed = false := by
      by_contra hclosed
      have := Conn.closed_step (i := i) (by simpa using hclosed)
      simp [this] at hopen
    have hlength : (l.conns (side a)).history.length ≤ ((l.conns (side a)).step i).history.length :=
      Conn.side_preserves (Q := fun c => (l.conns (side a)).history.length ≤ c.history.length) _ i
        le_rfl fun _ _ hmove hle => hle.trans hmove.length_le
    have hnot₀ := hnot.mono (Conn.params_step _ _) hlength
    obtain ⟨hidle, hfollows, hcourier⟩ := h.linked (side a) hopen₀ hnot₀
    obtain ⟨hidle', hkept⟩ := hidle.step (h.dataOnly _) hnot
    refine ⟨by rwa [hself], ?_, by rwa [hother]⟩
    rw [hself, hother, Conn.params_step]
    cases a with
    | host x i' =>
      rw [hkept fun now p hi => ?_, hfollows]
      · rfl
      · subst hi
        cases i' <;> simp [input?] at hinput
    | data x now k =>
      obtain ⟨p, hp, rfl⟩ := Option.map_eq_some_iff.mp hinput
      rw [hkept fun now' q hi => ?_, hfollows]
      · rfl
      · obtain ⟨-, rfl⟩ := Input.packet.inj hi
        have hdata := (Option.filter_eq_some_iff.mp hp).2
        simp [Packet.isKMREQ, show p.header.isControl = false by simpa using hdata]
    | control x now =>
      obtain ⟨p, hp, rfl⟩ := Option.map_eq_some_iff.mp hinput
      have hat := Option.eq_some_of_filter_eq_some hp
      obtain ⟨o, ho, hop⟩ := Option.bind_eq_some_iff.mp hat
      have hmore : l.heard x < (l.conns !x).outputs.length := (List.getElem?_eq_some_iff.mp ho).1
      have hheard : (l.step (.control x now)).heard x = l.heard x + 1 := by
        simp [step, hears, hmore]
      simp only [side] at *
      rw [hheard, learn_take_succ _ _ ho]
      cases hreq : p.isKMREQ with
      | false =>
        rw [hkept fun now' q hi => ?_, hfollows, learnOne_of_not_isKMREQ]
        · simp [Output.isKMREQ, hop, hreq]
        · obtain ⟨-, rfl⟩ := Input.packet.inj hi
          exact hreq
      | true =>
        obtain ⟨owned, rfl⟩ : ∃ owned, o = .sendPacket p owned := by
          cases o with
          | sendPacket q owned => exact ⟨owned, by rw [Option.some.inj hop]⟩
          | setTimer id deadline => exact absurd hop (by simp [Output.packet?])
          | clearTimer id => exact absurd hop (by simp [Output.packet?])
        rw [(Conn.step_of_isKMREQ hopen₀ hreq _).1,
          KeySide.request_context hfollows (by rw [h.passphrase]; exact hpass) hreq owned]

variable [LawfulPrimitives]

section

variable (hlen : validKeySize T.keyLength = true) (hsalt : T.salt.length = 16)
    (hpass : passphrase ≠ "") (h : l.Sound T passphrase ctx₀)

include hlen hsalt hpass h

theorem Linked.send {x : Bool} (hx : x ≠ side a) (hlinked : l.Linked T (ctx₀ x) x) :
    (l.step a).Linked T (ctx₀ x) x := by
  obtain ⟨hself, hheard⟩ := l.step_other a hx
  have hside : side a = !x := by
    rw [Bool.eq_not]
    exact fun h => hx h.symm
  obtain ⟨hidle, hfollows, hcourier⟩ := hlinked
  rcases l.step_conn a (!x) with hsame | ⟨-, i, hinput, hstep⟩
  · exact ⟨by rwa [hself], by rwa [hself, hsame, hheard], by rwa [hsame]⟩
  · obtain ⟨os, hos⟩ := Conn.outputs_step (l.conns !x) i
    refine ⟨by rwa [hself], ?_, ?_⟩
    · rw [hself, hstep, hheard, hos, List.take_append_of_le_length (h.heard x)]
      exact hfollows
    · rw [hstep]
      refine hcourier.step hlen hsalt (h.rates _) (by rw [h.passphrase]; exact hpass)
        (h.dataOnly _) ?_
      -- whoever listens announces nothing
      rintro now p rfl
      obtain ⟨owned, hsent⟩ := sent_of_input hinput
      rw [hside, Bool.not_not] at hsent
      have hsilent := hidle.silent _ hsent
      simpa [Output.isKMREQ, Output.packet?] using hsilent

theorem Sound.step (a : DuplexAction) : (l.step a).Sound T passphrase ctx₀ := by
  have hparams : ∀ x, ((l.step a).conns x).params = (l.conns x).params := by
    intro x
    rcases l.step_conn a x with hsame | ⟨-, i, -, hstep⟩
    · rw [hsame]
    · rw [hstep, Conn.params_step]
  have hgrows : ∀ x, (l.conns x).outputs.length ≤ ((l.step a).conns x).outputs.length := by
    intro x
    rcases l.step_conn a x with hsame | ⟨-, i, -, hstep⟩
    · rw [hsame]
    · obtain ⟨os, hos⟩ := Conn.outputs_step (l.conns x) i
      rw [hstep, hos, List.length_append]
      omega
  refine ⟨fun x => ?_, fun x => ?_, fun x => ?_, fun x => ?_, fun x hopen hnot => ?_⟩
  · rcases l.step_conn a x with hsame | ⟨-, i, -, hstep⟩
    · rw [hsame]
      exact h.dataOnly x
    · rw [hstep]
      exact (h.dataOnly x).step
  · rw [hparams]
    exact h.rates x
  · rw [hparams]
    exact h.passphrase x
  · refine le_trans ?_ (hgrows !x)
    by_cases hx : x = side a
    · cases a with
      | host y i => exact h.heard x
      | data y now k => exact h.heard x
      | control y now =>
        obtain rfl : x = y := hx
        simp only [Duplex.step, hears]
        split_ifs with hmore
        · rw [Function.update_self]
          exact hmore
        · exact h.heard x
    · rw [(l.step_other a hx).2]
      exact h.heard x
  · by_cases hx : x = side a
    · rw [hx] at hopen hnot ⊢
      exact Linked.receive hpass h hopen hnot
    · rw [(l.step_other a hx).1] at hopen hnot
      exact Linked.send hlen hsalt hpass h hx (h.linked x hopen hnot)

end

omit [Controller σ] in
theorem Sound.decryptable (h : l.Sound T passphrase ctx₀) (hnot : l.Untouched a) :
    l.Decryptable a := by
  cases a with
  | host x i => trivial
  | control x now => trivial
  | data x now k =>
    intro p hp hdata hopen hheard n t ht hcopy hsent hrecent
    obtain ⟨hidle, hfollows, hcourier⟩ := h.linked x hopen hnot
    set learned := learn (l.conns x).params.passphrase (ctx₀ x)
      ((l.conns !x).outputs.take (l.heard x)) with hlearned
    have hseen : n < firsts ((l.conns !x).outputs.take (l.heard x + 1)) :=
      lt_of_lt_of_le hsent ((List.take_sublist_take_left (by omega)).countP_le)
    have hsoon : firsts ((l.conns !x).outputs.take (l.heard x)) ≤
        n + (l.conns !x).params.kmPreAnnounce := by
      calc firsts ((l.conns !x).outputs.take (l.heard x)) ≤ firsts (l.conns !x).outputs :=
            (List.take_sublist _ _).countP_le
        _ = (l.conns !x).history.length := hcourier.total
        _ ≤ n + (l.conns !x).params.kmPreAnnounce := hrecent
    have hread := hcourier.fresh n t ht (l.heard x) hseen hsoon
    have hagreed := hcourier.agreed (l.heard x)
    rw [h.passphrase !x, ← h.passphrase x, ← hlearned] at hread hagreed
    obtain ⟨sender, hsender, hsome, hkey⟩ := hread
    have henc := hcopy.fields.2.2
    rw [← henc] at hsome hkey
    have hplain := Conn.decryptPayload_of_made hagreed (hcourier.made t (List.mem_of_getElem? ht))
      hsender hcopy hkey hsome
    have hslot : p.header.encryption ≠ .none := by
      intro hnone
      simp [hnone, Context.keyOf, Context.slot] at hsome
    exact (Conn.decrypt_eq_some_iff hfollows).mpr ⟨hidle.state, hslot, rfl, hplain⟩

end Duplex

/-! ## Whole runs -/

/-- What the handshake has left: the terms, the passphrase, and a key in the slot that both
sides start with. -/
structure EstablishParams.Shares (T : Terms) (passphrase : String) (start : PacketEncryption)
    (sek : Bytes) (ctx : Context) (ep : EstablishParams) : Prop where
  context : ep.context = some ctx
  agreed : Agreed T ctx
  holds : ctx.Holds start sek
  active : ep.activeKey = start
  passphrase : ep.passphrase = passphrase
  ready : ep.hsv4AwaitKey = false
  rates : 2 * ep.kmPreAnnounce ≤ ep.kmRefreshRate

namespace Duplex

variable {σ : Type} [Controller σ] {T : Terms} {passphrase : String}
  {start : PacketEncryption} {sek : Bytes}

theorem established_shares {ep : EstablishParams} (h : ep.Shares T passphrase start sek ctx)
    (cc : σ) (now : ℤ) :
    (Conn.established cc now ep).params.passphrase = passphrase ∧
      2 * (Conn.established cc now ep).params.kmPreAnnounce ≤
        (Conn.established cc now ep).params.kmRefreshRate ∧
      (Conn.established cc now ep).key.cryptoCtx = some ctx ∧
      (Conn.established cc now ep).key.activeKey = start ∧
      (Conn.established cc now ep).key.rcvKmState = .secured := by
  have hsome := EstablishParams.isSome_cryptoCtx h.context
  refine ⟨?_, ?_, h.context, ?_, ?_⟩
  · simp [Conn.established, Conn.establishedParams, hsome, h.passphrase]
  · simp only [Conn.established, Conn.establishedParams, hsome, if_true]
    exact EstablishParams.two_mul_effectivePreAnnounce_le h.rates
  · have hstart : start ≠ .none := by
      rcases h.holds.usable.even_or_odd with rfl | rfl <;> decide
    simp [Conn.established, Conn.establishedKeys, hsome, h.active, hstart]
  · simp [Conn.established, Conn.establishedKeys, hsome, h.ready]

variable [Primitives] [LawfulPrimitives]

theorem sound_new (cc : Bool → σ) (now : Bool → ℤ) {ep : Bool → EstablishParams}
    {ctx₀ : Bool → Context} (hlen : validKeySize T.keyLength = true) (hsalt : T.salt.length = 16)
    (hsek : sek.length = T.keyLength)
    (hshared : ∀ x, (ep x).Shares T passphrase start sek (ctx₀ x)) :
    (Duplex.new cc now ep).Sound T passphrase ctx₀ := by
  have harm := fun x => Conn.aside_establish (cc x) (now x) (ep x)
  have hfresh := fun x => Conn.dataOnly_established (cc x) (now x) (ep x)
  have hfacts := fun x => established_shares (hshared x) (cc x) (now x)
  have hidle : ∀ x, (Conn.establish (cc x) (now x) (ep x)).Idle := by
    intro x
    have hstart : (Conn.established (cc x) (now x) (ep x)).Idle :=
      ⟨rfl, rfl, le_rfl, fun o ho => absurd ho (by simp [Conn.established]), by
        rw [(hfacts x).2.2.2.2]; decide⟩
    exact hstart.aside (hfresh x) (harm x)
  have hcourier : ∀ x, (Conn.establish (cc !x) (now !x) (ep !x)).Courier T (ctx₀ x) := by
    intro x
    obtain ⟨-, -, hctx, hactive, -⟩ := hfacts !x
    have hstart : (Conn.established (cc !x) (now !x) (ep !x)).Courier T (ctx₀ x) := by
      refine ⟨⟨⟨ctx₀ !x, hctx, ⟨(hshared !x).agreed, sek, hsek, ?_, ?_⟩, ?_⟩, ?_, ?_⟩, ?_, rfl,
        ?_, ?_, ?_, ?_⟩
      · rw [hactive]
        exact (hshared !x).holds
      · rw [hactive]
        exact (hshared x).holds.keyOf
      · exact fun hann => absurd hann (by simp [Conn.established, Conn.establishedKeys])
      · rw [hactive]
        exact (hshared !x).holds.usable.even_or_odd
      · exact fun hpending => absurd hpending (by simp [Conn.established, Conn.establishedKeys])
      · exact fun hann => absurd hann (by simp [Conn.established, Conn.establishedKeys])
      · exact fun t ht => absurd ht (by simp [Conn.established])
      · exact fun n t ht => absurd ht (by simp [Conn.established])
      · exact fun n t ht => absurd ht (by simp [Conn.established])
      · intro m
        simp only [Conn.established, List.take_nil]
        exact (hshared x).agreed
    exact hstart.aside hlen hsalt (hfresh !x) (harm !x) (by simp)
  refine ⟨fun x => ?_, fun x => Or.inr ?_, fun x => ?_, fun x => Nat.zero_le _,
    fun x _ _ => ⟨hidle x, ?_, hcourier x⟩⟩
  · exact Conn.dataOnly_establish (cc x) (now x) (ep x)
  · show 2 * (Conn.establish (cc x) (now x) (ep x)).params.kmPreAnnounce ≤ _
    rw [show (Duplex.new cc now ep).conns x = Conn.establish (cc x) (now x) (ep x) from rfl,
      (harm x).params]
    exact (hfacts x).2.1
  · show (Conn.establish (cc x) (now x) (ep x)).params.passphrase = passphrase
    rw [(harm x).params]
    exact (hfacts x).1
  · show (Conn.establish (cc x) (now x) (ep x)).key.cryptoCtx = _
    rw [(Conn.quiet_establish (cc x) (now x) (ep x)).key]
    exact (hfacts x).2.2.1

/-- **A listener can read.**  Two sides share their terms, a passphrase and the key that they
start with.  Whatever they send, in whichever order: a data packet that arrives in time at
a side that has not come to its first rotation is decrypted to its plaintext. -/
theorem run_decryptable (cc : Bool → σ) (now : Bool → ℤ) {ep : Bool → EstablishParams}
    {ctx₀ : Bool → Context} (hlen : validKeySize T.keyLength = true) (hsalt : T.salt.length = 16)
    (hpass : passphrase ≠ "") (hsek : sek.length = T.keyLength)
    (hshared : ∀ x, (ep x).Shares T passphrase start sek (ctx₀ x)) (as : List DuplexAction) :
    Run.AllSteps Duplex.step (fun l a => l.Untouched a → l.Decryptable a)
      (Duplex.new cc now ep) as :=
  Run.allSteps_of_invariant (Q := Sound T passphrase ctx₀)
    (fun _ a hl => hl.step hlen hsalt hpass a)
    (fun _ _ hl hnot => hl.decryptable hnot) (sound_new cc now hlen hsalt hsek hshared)

end Duplex

namespace Duplex

open scoped XorCipher

def start : Duplex LiveCC := Duplex.new (fun _ => LiveCC.new 0 0) (fun _ => 0) Pair.twoEnds

def writes (x : Bool) (n : ℕ) : List DuplexAction :=
  (List.range n).map (fun j : ℕ => .host x (.write (100000 * (j + 1)) [1, 2, 3] {})) ++
    List.replicate (3 * n + 3) (.control (!x) 600000)

/-- The fifth packet, which is output 9, is the first one under the new key. -/
theorem run_decryptable_announced :
    Run.AllSteps Duplex.step (fun l a => l.Untouched a → l.Decryptable a) start
      (writes true 5 ++ [.data false 700000 9]) ∧
    ((Run.exec Duplex.step start (writes true 5)).conns.packetAt true 9).bind (fun p =>
      ((Run.exec Duplex.step start (writes true 5)).conns false).decrypt p |>.map fun plain =>
        (p.header.encryption, plain.data)) = some (.odd, [1, 2, 3]) := by
  have hshared : ∀ x, (Pair.twoEnds x).Shares ⟨.ctr, List.replicate 16 0, 16,
    false⟩ "swordfish" .even
      (List.replicate 16 7) (Pair.endContext (if x then 1 else 2)) := fun x =>
    ⟨rfl, ⟨rfl, rfl, rfl, fun _ => rfl⟩, ⟨_, rfl, rfl, rfl, nofun⟩, rfl, rfl, rfl,
      by cases x <;> decide⟩
  exact ⟨run_decryptable _ _ (by decide) (by decide) (by decide) (by decide) hshared _,
    by decide +kernel⟩

/-- Four packets take one side through its first rotation, in which it clears the even key.
The first packet of the other side, which still uses that key, arrives at once and in
order, and cannot be decrypted. -/
theorem undecryptable_after_own_rotation :
    ¬Run.AllSteps Duplex.step Decryptable start
      (writes true 4 ++ writes false 1 ++ [.data true 700000 4]) := by
  intro h
  obtain ⟨p, hp, t, ht, hcopy, hrest⟩ : ∃ p ∈ (Run.exec Duplex.step start
      (writes true 4 ++ writes false 1)).conns.packetAt false 4, ∃ t ∈ ((Run.exec Duplex.step start
      (writes true 4 ++ writes false 1)).conns false).history[0]?, IsCopy p t.wire ∧
      p.header.isControl = false ∧
      ((Run.exec Duplex.step start (writes true 4 ++ writes false 1)).conns true).closed = false ∧
      4 ≤ (Run.exec Duplex.step start (writes true 4 ++ writes false 1)).heard true ∧
      0 < firsts (((Run.exec Duplex.step start
        (writes true 4 ++ writes false 1)).conns false).outputs.take (4 + 1)) ∧
      ((Run.exec Duplex.step start (writes true 4 ++ writes false 1)).conns false).history.length ≤
        0 + ((Run.exec Duplex.step start
          (writes true 4 ++ writes false 1)).conns false).params.kmPreAnnounce ∧
      ((Run.exec Duplex.step start (writes true 4 ++ writes false 1)).conns true).decrypt p =
        none := by
    decide +kernel
  have hlast := h.last
  clear h
  generalize Run.exec Duplex.step start (writes true 4 ++ writes false 1) = l at *
  obtain ⟨hdata, hopen, hheard, hsent, hrecent, hnone⟩ := hrest
  have hplain := hlast p hp hdata hopen hheard 0 t ht hcopy hsent hrecent
  exact absurd (hplain.symm.trans hnone) (by simp)

end Duplex

end SrtGo.Core
