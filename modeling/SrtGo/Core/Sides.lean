import SrtGo.Buffer.RecvContents
import SrtGo.Core.Moves

/-!
# The moves, side by side

A property of the send side does not care how packets are delivered, and a property of
the receive side does not care how they are sent.  `SendMove` sorts the moves of a step by
what they do to the keys, the send buffer and the packets on the wire, and `RecvMove` by
what they do to the receive buffer and to what the application hears of.
-/

namespace SrtGo

def Packet.isKMREQ (p : Packet) : Bool :=
  p.header.isControl && decide (p.header.controlType = .user) && decide (p.header.subType = .kmReq)

def Packet.isKMRSP (p : Packet) : Bool :=
  p.header.isControl && decide (p.header.controlType = .user) && decide (p.header.subType = .kmRsp)

variable {p : Packet}

theorem Packet.isKMREQ_iff : p.isKMREQ = true ↔
    p.header.isControl = true ∧ p.header.controlType = .user ∧ p.header.subType = .kmReq := by
  simp [isKMREQ, and_assoc]

theorem Packet.isKMRSP_iff : p.isKMRSP = true ↔
    p.header.isControl = true ∧ p.header.controlType = .user ∧ p.header.subType = .kmRsp := by
  simp [isKMRSP, and_assoc]

end SrtGo

namespace SrtGo.Core

open Buffer Bytes Congestion Crypto SrtGo.Filter RecvBuffer

structure KeySide.Same (k k' : KeySide) : Prop where
  cryptoCtx : k'.cryptoCtx = k.cryptoCtx
  activeKey : k'.activeKey = k.activeKey
  kmAnnounced : k'.kmAnnounced = k.kmAnnounced
  kmDecommission : k'.kmDecommission = k.kmDecommission
  kmSwitchCount : k'.kmSwitchCount = k.kmSwitchCount
  kmPacketCount : k'.kmPacketCount = k.kmPacketCount
  kmRetryKey : k'.kmRetryKey = k.kmRetryKey

theorem KeySide.same_response (k : KeySide) (data : Bytes) : k.Same (k.response data) := by
  unfold response refused
  split_ifs
  · split <;> exact ⟨rfl, rfl, rfl, rfl, rfl, rfl, rfl⟩
  · exact ⟨rfl, rfl, rfl, rfl, rfl, rfl, rfl⟩

namespace Conn

variable {σ : Type} {c c' c'' : Conn σ} {o : Output} {now : ℤ} {p : Packet}

/-! ## The send side -/

/-- An output that carries neither data nor a key: a timer, or a control packet other
than a key announcement. -/
def Signal : Output → Prop
  | .sendPacket p owned => owned = true ∧ p.header.isControl = true ∧
      ¬(p.header.controlType = .user ∧ p.header.subType = .kmReq)
  | .setTimer _ _ => True
  | .clearTimer _ => True

theorem owned_of_signal (h : Signal o) : Owned o := by
  cases o with
  | sendPacket p owned => exact h.1
  | setTimer id deadline => trivial
  | clearTimer id => trivial

theorem signal_of_isTimer (h : o.isTimer = true) : Signal o := by
  cases o <;> trivial

theorem pkt_of_push {sb sb' : SendBuffer} {ttl : ℤ} (hpush : sb.push p now = some sb') {j : ℕ}
    (hj : ((tagTTL sb' ttl).entries j).used = true) : ((tagTTL sb' ttl).entries j).pkt = p ∨
      ∃ k, (sb.entries k).used = true ∧ ((tagTTL sb' ttl).entries j).pkt = (sb.entries k).pkt := by
  have htag : sb'.Within (tagTTL sb' ttl) := by
    unfold tagTTL
    split_ifs
    · exact SendBuffer.within_setMsgTTL sb' _
    · exact SendBuffer.Within.refl sb'
  obtain ⟨k, hk, hpkt⟩ := htag j hj
  rw [hpkt]
  exact (SendBuffer.used_of_push hpush k hk).imp_right fun hold => ⟨k, hold⟩

structure Quiet (c c' : Conn σ) : Prop where
  params : c'.params = c.params
  key : c'.key = c.key
  history : c'.history = c.history
  sendBuf : c'.snd.sendBuf = c.snd.sendBuf
  fecSender : c'.snd.fecSender = c.snd.fecSender
  emits : Emits Signal c c'

theorem Quiet.refl (c : Conn σ) : Quiet c c := ⟨rfl, rfl, rfl, rfl, rfl, Emits.refl _ c⟩

theorem Quiet.push (c : Conn σ) (ho : Signal o) : Quiet c (c.push o) :=
  ⟨rfl, rfl, rfl, rfl, rfl, Emits.push c ho⟩

theorem Quiet.send (c : Conn σ) (hcontrol : p.header.isControl = true)
    (hreq : ¬(p.header.controlType = .user ∧ p.header.subType = .kmReq)) : Quiet c (c.send p) :=
  Quiet.push c ⟨rfl, hcontrol, hreq⟩

theorem Quiet.of_recvFrame (h : RecvFrame c c') (hemits : Emits Signal c c') : Quiet c c' :=
  ⟨h.params, h.key, h.history, h.sendBuf, by rw [h.snd], hemits⟩

theorem quiet_armTimers [Controller σ] (c : Conn σ) (now : ℤ) : Quiet c (c.armTimers now) := by
  obtain ⟨os, heq, hos⟩ := c.armTimers_spec now
  rw [heq]
  refine ⟨rfl, rfl, rfl, rfl, rfl, os, rfl, fun o ho => ?_⟩
  obtain ⟨id, deadline, rfl⟩ := hos o ho
  trivial

theorem quiet_establish [Controller σ] (cc : σ) (now : ℤ) (ep : EstablishParams) :
    Quiet (established cc now ep) (establish cc now ep) := quiet_armTimers _ now

section
variable [Primitives] {i : Input} {c₀ : Conn σ} {k : KeySide}

/-- What a side sends apart from the first transmissions of packets. -/
inductive Utters (i : Input) (c : Conn σ) : Output → Prop
  | signal {o : Output} (h : Signal o) : Utters i c o
  | copy {p : Packet} (hcopy : c.snd.sendBuf.CopyOf p) : Utters i c (.sendPacket p true)
  | repair (fp : PendingFEC) (hfec : c.snd.fecSender.isSome = true) :
      Utters i c (.sendPacket (c.repairPacket fp) true)
  | announce {now : ℤ} {o : Output} {ctx : Context} (hi : i = .timer now .kmRefresh)
      (hannounced : c.key.kmAnnounced = true) (hctx : c.key.cryptoCtx = some ctx)
      (h : c.Announces ctx c.key.kmRetryKey o) : Utters i c o

/-- What becomes of the keys when no packet is counted. -/
inductive Turns (i : Input) (c₀ c : Conn σ) : KeySide → Prop
  | same : Turns i c₀ c c.key
  | retry {now : ℤ} (hi : i = .timer now .kmRefresh) (n : ℤ) :
      Turns i c₀ c { c.key with kmRetryCount := n }
  | request {now : ℤ} {p : Packet} (hi : i = .packet now p) (hkey : c.key = c₀.key)
      (hp : p.isKMREQ = true) : Turns i c₀ c (c.key.request c.params.passphrase p.data)
  | response {now : ℤ} {p : Packet} (hi : i = .packet now p) (hp : p.isKMRSP = true) :
      Turns i c₀ c (c.key.response p.data)

structure Aside (i : Input) (c₀ c c' : Conn σ) : Prop where
  params : c'.params = c.params
  history : c'.history = c.history
  sendBuf : c.snd.sendBuf.Within c'.snd.sendBuf
  fecSender : c'.snd.fecSender.isSome = c.snd.fecSender.isSome
  key : Turns i c₀ c c'.key
  emits : Emits (Utters i c) c c'

theorem Quiet.aside (h : Quiet c c') : Aside i c₀ c c' :=
  ⟨h.params, h.history, by rw [h.sendBuf]; exact SendBuffer.Within.refl _, by rw [h.fecSender],
    by rw [h.key]; exact .same, h.emits.mono fun _ => .signal⟩

theorem aside_establish [Controller σ] (cc : σ) (now : ℤ) (ep : EstablishParams) :
    Aside (.keepAlive now) (established cc now ep) (established cc now ep) (establish cc now ep) :=
  (quiet_establish cc now ep).aside

theorem aside_feedFEC (c : Conn σ) (p : Packet) : Aside i c₀ c (c.feedFEC p) := by
  unfold feedFEC
  cases hsender : c.snd.fecSender with
  | none => exact (Quiet.refl c).aside
  | some fec =>
    have hfec : c.snd.fecSender.isSome = true := by simp [hsender]
    simp only [foldl_send_eq]
    refine ⟨rfl, rfl, SendBuffer.Within.refl _, hfec.symm, .same, _, rfl, fun o ho => ?_⟩
    obtain ⟨q, hq, rfl⟩ := List.mem_map.mp ho
    obtain ⟨fp, -, rfl⟩ := List.mem_map.mp hq
    exact .repair fp hfec

theorem Turns.same_or_request (h : Turns i c₀ c k) : c.key.Same k ∨
    ∃ now p, i = .packet now p ∧ c.key = c₀.key ∧ p.isKMREQ = true ∧
      k = c.key.request c.params.passphrase p.data := by
  cases h with
  | request hi hkey hp => exact Or.inr ⟨_, _, hi, hkey, hp, rfl⟩
  | response hi hp => exact Or.inl (c.key.same_response _)
  | _ => exact Or.inl ⟨rfl, rfl, rfl, rfl, rfl, rfl, rfl⟩

theorem Turns.same_of_not_isKMREQ (h : Turns i c₀ c k) (hin : ∀ now p, i = .packet now p →
    p.isKMREQ = false) :
    c.key.Same k := by
  rcases h.same_or_request with hsame | ⟨now, p, hi, -, hp, -⟩
  · exact hsame
  · exact absurd hp (by simp [hin now p hi])

theorem Utters.owned (h : Utters i c o) : Owned o := by
  cases h with
  | signal h => exact owned_of_signal h
  | copy hcopy => rfl
  | repair fp hfec => rfl
  | announce hi hannounced hctx h =>
    obtain ⟨now, km, -, rfl⟩ := h
    rfl

variable [Controller σ] {Q : Conn σ → Prop}

/-- The moves by what they do on the send side.  Sending a packet is one move, together
with the repair packets and the rotation that it may bring about. -/
inductive SideMove (i : Input) (c₀ : Conn σ) : Conn σ → Conn σ → Prop
  | aside {c c' : Conn σ} (h : Aside i c₀ c c') : SideMove i c₀ c c'
  | packet (c : Conn σ) (seqNo ts : ℕ) (f : Frame) : SideMove i c₀ c (c.sendData i.now seqNo ts f)

/-- The same, with the parts of sending a packet as moves of their own. -/
inductive SendMove (i : Input) (c₀ : Conn σ) : Conn σ → Conn σ → Prop
  | aside {c c' : Conn σ} (h : Aside i c₀ c c') : SendMove i c₀ c c'
  | transmit (c : Conn σ) {sb : SendBuffer} {seqNo ts : ℕ} {f : Frame}
      (hpush : c.snd.sendBuf.push (c.encrypt (c.framePacket seqNo ts f) seqNo) i.now = some sb) :
      SendMove i c₀ c (c.transmit i.now (tagTTL sb f.ttlNs) (c.framePacket seqNo ts f)
        (c.encrypt (c.framePacket seqNo ts f) seqNo))
  | rotate (c : Conn σ) (hrate : 0 < c.params.kmRefreshRate) :
      SendMove i c₀ c (c.checkKeyRotation i.now)

abbrev SendMoves (i : Input) (c₀ : Conn σ) : Conn σ → Conn σ → Prop :=
  Relation.ReflTransGen (SendMove i c₀)

theorem SendMove.moves (h : SendMove i c₀ c c') : SendMoves i c₀ c c' :=
  Relation.ReflTransGen.single h

theorem sendMoves_sendData (c : Conn σ) (seqNo ts : ℕ) (f : Frame) :
    SendMoves i c₀ c (c.sendData i.now seqNo ts f) := by
  have hafter : ∀ c : Conn σ, SendMoves i c₀ c (c.afterSend i.now) := by
    intro c
    unfold afterSend
    split_ifs with hrate
    · exact (SendMove.rotate c hrate.2).moves
    · exact .refl
  unfold sendData
  simp only
  split
  · exact .refl
  · rename_i sb hpush
    exact ((SendMove.transmit c hpush).moves.trans (SendMove.aside (aside_feedFEC _ _)).moves).trans
      (hafter _)

theorem SideMove.quiet (h : Quiet c c') : SideMove i c₀ c c' := .aside h.aside

theorem Shift.sideMove (h : Shift i c₀ c c') : SideMove i c₀ c c' := by
  cases h with
  | packet seqNo ts f => exact .packet _ seqNo ts f
  | retry n hi hos =>
    refine .aside ⟨rfl, rfl, SendBuffer.Within.refl _, rfl, .retry hi n, _, rfl, fun o ho => ?_⟩
    rcases hos o ho with ⟨deadline, rfl⟩ | ⟨hannounced, ctx, hctx, h⟩
    · exact .signal trivial
    · exact .announce hi hannounced hctx h
  | request hi hkey htype hos =>
    refine .aside ⟨rfl, rfl, SendBuffer.Within.refl _, rfl,
      .request hi hkey (Packet.isKMREQ_iff.mpr htype), _, rfl, fun o ho => .signal ?_⟩
    obtain ⟨now, data, -, rfl⟩ := hos o ho
    exact ⟨rfl, rfl, fun huser => by simp [userControl] at huser⟩
  | response hi htype hos hes =>
    refine .aside ⟨rfl, rfl, SendBuffer.Within.refl _, rfl,
      .response hi (Packet.isKMRSP_iff.mpr htype), _,
      rfl, fun o ho => .signal ?_⟩
    rcases hos o ho with rfl | rfl <;> trivial
  | resend hcopy =>
    exact .aside ⟨rfl, rfl, SendBuffer.Within.refl _, rfl, .same, Emits.push _ (.copy hcopy)⟩
  | sendBuf hsb => exact .aside ⟨rfl, rfl, hsb, rfl, .same, Emits.of_eq rfl⟩
  | book h =>
    exact .quiet { h with emits := Emits.of_eq h.outputs }
  | arm ho => exact .quiet (Quiet.push _ (signal_of_isTimer ho))
  | answer hcontrol hack hnak hreq hsmall =>
    exact .quiet (Quiet.send _ hcontrol fun huser => hreq huser.2)
  | ack hcontrol hack hdata hsmall =>
    exact .quiet (Quiet.send _ hcontrol fun huser => by simp [hack] at huser)
  | report h hsource =>
    refine .quiet (Quiet.of_recvFrame h.recvFrame (h.emits.mono fun o ho => ?_))
    obtain ⟨p, rfl, hcontrol, htype⟩ := ho
    exact ⟨rfl, hcontrol, fun huser => by simp [htype] at huser⟩
  | deliver h hd =>
    refine .quiet (Quiet.of_recvFrame h.frame.recvFrame (h.frame.emits.mono fun o ho => ?_))
    obtain ⟨deadline, rfl⟩ := ho
    trivial
  | _ => exact .quiet ⟨rfl, rfl, rfl, rfl, rfl, Emits.of_eq rfl⟩

theorem SideMove.sendMoves (h : SideMove i c₀ c c') : SendMoves i c₀ c c' := by
  cases h with
  | aside h => exact (SendMove.aside h).moves
  | packet seqNo ts f => exact sendMoves_sendData _ seqNo ts f

/-- A property that every move keeps, with packets sent as a whole, is kept by every step. -/
theorem side_preserves (c : Conn σ) (i : Input) (hc : Q c) (hmove : ∀ c₁ c₂, SideMove i c c₁ c₂ →
    Q c₁ → Q c₂) :
    Q (c.step i) :=
  step_preserves c i hc fun c₁ c₂ h hc₁ => hmove c₁ c₂ h.sideMove hc₁

theorem SideMove.preserves (h : SideMove i c₀ c c') (hmove : ∀ c₁ c₂, SendMove i c₀ c₁ c₂ →
    Q c₁ → Q c₂)
    (hc : Q c) : Q c' := by
  have hmoves := h.sendMoves
  clear h
  induction hmoves with
  | refl => exact hc
  | tail _ hstep ih => exact hmove _ _ hstep ih

/-- A property that every move of the send side keeps is kept by every step. -/
theorem send_preserves (c : Conn σ) (i : Input) (hc : Q c) (hmove : ∀ c₁ c₂, SendMove i c c₁ c₂ →
    Q c₁ → Q c₂) :
    Q (c.step i) :=
  side_preserves c i hc fun _ _ h hc₁ => h.preserves hmove hc₁

end

/-! ## The receive side -/

def News (c c' : Conn σ) : Prop := ∃ es, c'.events = c.events ++ es ∧ ∀ e ∈ es, e.isData = false

theorem News.of_eq (h : c'.events = c.events) : News c c' := ⟨[], by simp [h], by simp⟩

theorem News.raise (c : Conn σ) {e : Event} (he : e.isData = false) : News c (c.raise e) :=
  ⟨[e], rfl, by simpa using he⟩

theorem News.of_response {closed : Bool} {es : List Event} (hevents : c'.events = c.events ++ es)
    (hes : closed = true ∧ (∃ err, es = [.failed err]) ∨
      closed = c.closed ∧ (es = [] ∨ es = [.connected c.params.peerSocketID])) : News c c' := by
  refine ⟨es, hevents, ?_⟩
  rcases hes with ⟨-, err, rfl⟩ | ⟨-, rfl | rfl⟩ <;> simp [Event.isData]

structure Still (c c' : Conn σ) : Prop where
  params : c'.params = c.params
  edits : RecvBuffer.Edits True c.rcv.recvBuf c'.rcv.recvBuf
  fecReceiver : c'.rcv.fecReceiver.isSome = c.rcv.fecReceiver.isSome
  news : News c c'

theorem Still.of_eq (hparams : c'.params = c.params) (hbuf : c'.rcv.recvBuf = c.rcv.recvBuf)
    (hfec : c'.rcv.fecReceiver = c.rcv.fecReceiver) (hevents : c'.events = c.events) : Still c c' :=
  ⟨hparams, by rw [hbuf], by rw [hfec], News.of_eq hevents⟩

theorem Still.of_sendFrame (h : SendFrame c c') : Still c c' :=
  Still.of_eq h.params (by rw [h.rcv]) (by rw [h.rcv]) h.events

section
variable [Controller σ] [Primitives] {i : Input}

/-- The moves by what they do on the receive side. -/
inductive RecvMove (i : Input) (c₀ : Conn σ) : Conn σ → Conn σ → Prop
  | still {c c' : Conn σ} (h : Still c c') : RecvMove i c₀ c c'
  | store (c : Conn σ) {now : ℤ} {p plain : Packet} (hi : i = .packet now p) (hkey : c.key = c₀.key)
      (hdata : p.header.isControl = false) (hdec : c.decrypt p = some plain) :
      RecvMove i c₀ c (c.setRecvBuf (c.rcv.recvBuf.insert plain now).1)
  | recover (c : Conn σ) (plain : Packet) (hfec : c.rcv.fecReceiver.isSome = true) :
      RecvMove i c₀ c (c.setRecvBuf (c.rcv.recvBuf.insert plain i.now).1)
  | read {c c' : Conn σ} {p : Packet} (hoffers : c.rcv.recvBuf.Offers p)
      (h : Still (c.emitData p) c') : RecvMove i c₀ c c'
  | message {c c' : Conn σ} {p : Packet} {rest : List Packet} (hmode : c.params.messageMode = true)
      (hread : c.rcv.recvBuf.readMessage.2 = some (p :: rest))
      (h : Still (c.emitMessage (p :: rest)) c') : RecvMove i c₀ c c'

omit [Controller σ] [Primitives] in
theorem Deliver.edits {free : Prop} {c c' : Conn σ} (h : Deliver now c c')
    (hfree : free ∨ c.rcv.tsbpdTimer.isSome = true ∨ c.rcv.recvBuf.Regular) :
    Edits free c.rcv.recvBuf c'.rcv.recvBuf := by
  have hregular : c.rcv.tsbpdTimer = none → free ∨ c.rcv.recvBuf.Regular := fun htimer =>
    hfree.imp_right (·.resolve_left (by simp [htimer]))
  cases h with
  | read htimer hread =>
    have hedits : Edits free _ _ := (readings_readNext c.rcv.recvBuf).edits
    rwa [hread] at hedits
  | message htimer hmode hread =>
    have hedits := (readings_readMessage (hregular htimer)).edits
    rwa [hread] at hedits
  | messageEnd htimer hread =>
    have hedits := (readings_readMessage (hregular htimer)).edits
    rwa [hread] at hedits
  | @play timer rb p htimer hread =>
    have hedits : Edits free _ _ :=
      (readings_readTSBPD c.rcv.recvBuf now timer.deliveryTime).edits
    rwa [hread] at hedits
  | skip htimer => exact edits_dropTooLate _ _ _
  | arm deadline => exact .refl

omit [Controller σ] in
theorem Deliver.recvMove {c₀ c c' : Conn σ} (h : Deliver now c c') : RecvMove i c₀ c c' := by
  have hedits : Edits True c.rcv.recvBuf c'.rcv.recvBuf := h.edits (Or.inl trivial)
  cases h with
  | read htimer hread => exact .read (readNext_offers hread) ⟨rfl, hedits, rfl, News.of_eq rfl⟩
  | play htimer hread => exact .read (readTSBPD_offers hread) ⟨rfl, hedits, rfl, News.of_eq rfl⟩
  | message htimer hmode hread =>
    obtain ⟨p, rest, rfl, -⟩ := readMessage_offers (congrArg Prod.snd hread)
    exact .message hmode (congrArg Prod.snd hread) ⟨rfl, hedits, rfl, News.of_eq rfl⟩
  | _ => exact .still ⟨rfl, hedits, rfl, News.of_eq rfl⟩

theorem Shift.recvMove {c₀ c c' : Conn σ} (h : Shift i c₀ c c') : RecvMove i c₀ c c' := by
  cases h with
  | store hi hkey hdata hdec hinserted => exact .store _ hi hkey hdata hdec
  | recover plain hfec => exact .recover _ plain hfec
  | deliver h hd => exact h.recvMove
  | drop hi htype hdr => exact .still ⟨rfl, edits_drop trivial _ _, rfl, News.of_eq rfl⟩
  | book h => exact .still (Still.of_eq h.params h.recvBuf h.fecReceiver h.events)
  | report h hsource =>
    rw [h.rest]
    exact .still (Still.of_eq rfl rfl rfl rfl)
  | notify he hclosed => exact .still ⟨rfl, .refl, rfl, News.raise _ he⟩
  | filter hi hfec => exact .still ⟨rfl, .refl, by rw [hfec]; rfl, News.of_eq rfl⟩
  | packet seqNo ts f => exact .still (Still.of_sendFrame (sendFrame_sendData _ _ _ _ _))
  | response hi htype hos hes => exact .still ⟨rfl, .refl, rfl, News.of_response rfl hes⟩
  | _ => exact .still (Still.of_eq rfl rfl rfl rfl)

omit [Controller σ] in
theorem RecvMove.isSome_fecReceiver {c₀ c c' : Conn σ} (h : RecvMove i c₀ c c') :
    c'.rcv.fecReceiver.isSome = c.rcv.fecReceiver.isSome := by
  cases h with
  | still h => exact h.fecReceiver
  | store hi hkey hdata hdec => rfl
  | recover plain hfec => rfl
  | read hoffers h => exact h.fecReceiver
  | message hmode hread h => exact h.fecReceiver

theorem Shift.ring {c₀ c c' : Conn σ} (h : Shift i c₀ c c') :
    Edits True c.rcv.recvBuf c'.rcv.recvBuf ∨
      ∃ p now, c'.rcv.recvBuf = (c.rcv.recvBuf.insert p now).1 := by
  cases h.recvMove with
  | still h => exact Or.inl h.edits
  | store hi hkey hdata hdec => exact Or.inr ⟨_, _, rfl⟩
  | recover plain hfec => exact Or.inr ⟨_, _, rfl⟩
  | read hoffers h => exact Or.inl h.edits
  | message hmode hread h => exact Or.inl h.edits

end

end Conn

end SrtGo.Core
