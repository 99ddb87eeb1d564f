import SrtGo.Core.SendStep
import SrtGo.Secure.Duplex

/-!
# What a connection puts on the wire

Apart from loss reports a move sends only what has a fixed form: data packets, key
messages, and control packets with a short body.  `Shift.outputs` says so for all moves,
and names the two kinds of moves that report losses.
-/

namespace SrtGo.Core

open Buffer Bytes Congestion Crypto SrtGo.Filter

namespace Conn

variable {σ : Type} {c c' : Conn σ}

def KeyBody [Primitives] (passphrase : String) (data : Bytes) : Prop :=
  ∃ (ctx : Context) (key : PacketEncryption) (km : CIFKeyMaterial),
    ctx.marshalKM passphrase key = .ok km ∧ data = km.marshalCIF

/-- A timer, a data packet, or a control packet other than a loss report: its body is short or
a key message. -/
def Plain [Primitives] (passphrase : String) : Output → Prop
  | .sendPacket p _ => p.header.isControl = false ∨
      p.header.controlType ≠ .nak ∧ (p.data.length ≤ 28 ∨ KeyBody passphrase p.data)
  | .setTimer _ _ => True
  | .clearTimer _ => True

section
variable [Primitives] {passphrase : String} {o : Output}

theorem plain_of_isTimer (h : o.isTimer = true) : Plain passphrase o := by
  cases o with
  | sendPacket p owned => simp [Output.isTimer] at h
  | setTimer id deadline => trivial
  | clearTimer id => trivial

omit [Primitives] in
theorem timers_armTimers [Controller σ] (c : Conn σ) (now : ℤ) :
    Emits (fun o => o.isTimer = true) c (c.armTimers now) := by
  obtain ⟨os, heq, hos⟩ := c.armTimers_spec now
  refine ⟨os, by rw [heq], fun o ho => ?_⟩
  obtain ⟨id, deadline, rfl⟩ := hos o ho
  rfl

/-! ## Keys -/

theorem plain_of_announces {c : Conn σ} {ctx : Context} {key : PacketEncryption}
    (h : c.Announces ctx key o) :
    Plain c.params.passphrase o := by
  obtain ⟨now, km, hkm, rfl⟩ := h
  exact Or.inr ⟨by simp [userControl, control, Packet.newControl], Or.inr ⟨ctx, key, km, hkm, rfl⟩⟩

theorem plain_checkKeyRotation (c : Conn σ) (now : ℤ) :
    Emits (Plain c.params.passphrase) c (c.checkKeyRotation now) := by
  refine ⟨c.rotationNotice now, by rw [checkKeyRotation_eq], fun o ho => ?_⟩
  rcases mem_rotationNotice ho with ⟨deadline, rfl⟩ | ⟨ctx, ctx', -, -, -, hann⟩
  · trivial
  · exact plain_of_announces hann

/-! ## Data -/

theorem plain_sendData [Controller σ] (c : Conn σ) (now : ℤ) (seqNo ts : ℕ) (f : Frame) :
    Emits (Plain c.params.passphrase) c (c.sendData now seqNo ts f) := by
  have hfeed : ∀ (passphrase : String) (c : Conn σ) (p : Packet),
      Emits (Plain passphrase) c (c.feedFEC p) := by
    intro passphrase c p
    obtain ⟨fec, os, heq, hos⟩ := c.feedFEC_spec p
    rw [heq]
    refine ⟨os, rfl, fun o ho => ?_⟩
    obtain ⟨fp, rfl⟩ := hos o ho
    exact Or.inl rfl
  have hafter : ∀ c : Conn σ, Emits (Plain c.params.passphrase) c (c.afterSend now) := by
    intro c
    unfold afterSend
    split_ifs
    · exact plain_checkKeyRotation c now
    · exact Emits.refl _ c
  unfold sendData
  simp only
  split
  · exact Emits.refl _ c
  · rename_i sb _
    set wire := c.encrypt (c.framePacket seqNo ts f) seqNo with hwire
    set sent := c.transmit now (tagTTL sb f.ttlNs) (c.framePacket seqNo ts f) wire with hsent
    have htransmit : Emits (Plain c.params.passphrase) c sent :=
      ⟨[_], rfl, by
        intro o ho
        rw [List.mem_singleton.mp ho]
        exact Or.inl ((isControl_encrypt c _ seqNo).trans rfl)⟩
    have hparams : (sent.feedFEC wire).params = c.params := (sendFrame_feedFEC sent wire).params
    have hrotated := hafter (sent.feedFEC wire)
    rw [hparams] at hrotated
    exact (htransmit.trans (hfeed _ sent wire)).trans hrotated

end

/-! ## Moves -/

section
variable [Controller σ] [Primitives] {i : Input} {c₀ : Conn σ}

theorem Shift.outputs (h : Shift i c₀ c c') (hdata : c.DataOnly) :
    Emits (Plain c.params.passphrase) c c' ∨
      (∃ lost, LossSource i c₀ c lost ∧ c' = c.emitNAK i.now lost) ∨
      ReportsGap i c₀ c c' := by
  cases h with
  | book h => exact Or.inl (Emits.of_eq h.outputs)
  | arm ho => exact Or.inl (Emits.push c (plain_of_isTimer ho))
  | answer hcontrol hack hnak hreq hsmall =>
    exact Or.inl (Emits.push c (Or.inr ⟨hnak, Or.inl hsmall⟩))
  | ack hcontrol hack hbody hsmall =>
    exact Or.inl (Emits.push c (Or.inr ⟨by simp [hack], Or.inl hsmall⟩))
  | resend hcopy =>
    obtain ⟨j, hused, rfl⟩ := hcopy
    exact Or.inl (Emits.push c (Or.inl (hdata j hused)))
  | report h hsource => exact Or.inr hsource
  | deliver h hd => exact Or.inl (h.frame.emits_of fun _ => trivial)
  | packet seqNo ts f => exact Or.inl (plain_sendData c i.now seqNo ts f)
  | retry n hi hos =>
    refine Or.inl ⟨_, rfl, fun o ho => ?_⟩
    rcases hos o ho with ⟨deadline, rfl⟩ | ⟨-, ctx, -, hann⟩
    · trivial
    · exact plain_of_announces hann
  | request hi hkey htype hos =>
    refine Or.inl ⟨_, rfl, fun o ho => ?_⟩
    obtain ⟨now, data, hbody, rfl⟩ := hos o ho
    refine Or.inr
      ⟨by simp [userControl, control, Packet.newControl], hbody.imp_left fun hdata => ?_⟩
    simp [userControl, hdata]
  | response hi htype hos hes =>
    refine Or.inl ⟨_, rfl, fun o ho => ?_⟩
    rcases hos o ho with rfl | rfl <;> trivial
  | _ => exact Or.inl (Emits.of_eq rfl)

end

end Conn

end SrtGo.Core
