import SrtGo.Core.Frame

/-!
# The sender of a transfer

Without a key, a filter, a playout timer and deadlines for its packets, what remains of
the send path of a connection is a queue of frames in front of the send buffer.
`Sends isn posted s c` says that the connection has been given `posted`, that it has sent
a first part of them in order under the numbers from `isn` on, and that the packets from
the `s`-th on are in its buffer.

The window is what makes pushing succeed: a frame leaves the queue only while fewer
packets are in flight than the flow window allows, and the buffer is at least as large.
-/

namespace SrtGo.Core

open Buffer Congestion Crypto SrtGo.Seq

/-! ## Fragments -/

/-- What a data packet carries: a part of a message, and how it belongs to it. -/
structure Fragment where
  payload : Bytes
  number : ℕ
  position : PacketPosition
  order : Bool
deriving DecidableEq, Repr, Inhabited

namespace Fragment

def ofFrame (f : Frame) : Fragment := ⟨f.payload, f.msgNo, f.pos, f.order⟩

def ofPacket (p : Packet) : Fragment :=
  ⟨p.data, p.header.messageNumber, p.header.packetPosition, p.header.order⟩

end Fragment

/-! ## Cutting a payload -/

theorem isLast_fragmentPosition (isFirst isLast : Bool) :
    (fragmentPosition isFirst isLast).isLast = isLast := by
  cases isFirst <;> cases isLast <;> rfl

def pieces (size : ℕ) (payload : Bytes) : List Bytes :=
  if size = 0 ∨ payload.length ≤ size then [payload] else fragments size payload.length payload

theorem flatten_fragments {size : ℕ} (hsize : 0 < size) (fuel : ℕ) :
    ∀ payload : Bytes, payload.length ≤ fuel → (fragments size fuel payload).flatten = payload := by
  induction fuel with
  | zero =>
    intro payload hlen
    rw [List.length_eq_zero_iff.mp (Nat.le_zero.mp hlen)]
    rfl
  | succ fuel ih =>
    intro payload hlen
    rw [fragments]
    split_ifs with hnil
    · rw [hnil]
      rfl
    · have hpos : 0 < payload.length := List.length_pos_iff.mpr hnil
      rw [List.flatten_cons, ih _ (by rw [List.length_drop]; omega), List.take_append_drop]

theorem flatten_pieces (size : ℕ) (payload : Bytes) : (pieces size payload).flatten = payload := by
  unfold pieces
  split_ifs with hsingle
  · simp
  · exact flatten_fragments (by omega) _ _ le_rfl

theorem fragments_ne_nil (size : ℕ) {payload : Bytes} (hne : payload ≠ []) :
    fragments size payload.length payload ≠ [] := by
  obtain ⟨fuel, hfuel⟩ := Nat.exists_eq_add_of_lt (List.length_pos_iff.mpr hne)
  rw [hfuel, Nat.zero_add, fragments, if_neg hne]
  exact List.cons_ne_nil _ _

theorem pieces_ne_nil (size : ℕ) (payload : Bytes) : pieces size payload ≠ [] := by
  unfold pieces
  split_ifs with hsingle
  · exact List.cons_ne_nil _ _
  · exact fragments_ne_nil size (List.length_pos_iff.mp (by omega))

def cut (size number : ℕ) (order : Bool) (payload : Bytes) : List Fragment :=
  if size = 0 ∨ payload.length ≤ size then [⟨payload, number, .single, order⟩]
  else
    (fragments size payload.length payload).mapIdx fun i piece =>
      ⟨piece, number, fragmentPosition (i = 0)
        (i + 1 = (fragments size payload.length payload).length), order⟩

theorem cut_payload (size number : ℕ) (order : Bool) (payload : Bytes) :
    (cut size number order payload).map Fragment.payload = pieces size payload := by
  unfold cut pieces
  split_ifs
  · rfl
  · refine List.ext_getElem? fun i => ?_
    rw [List.getElem?_map, List.getElem?_mapIdx]
    cases (fragments size payload.length payload)[i]? <;> rfl

variable {σ : Type} {sb : SendBuffer} {f : Frame} {opts : MsgOptions} {rest : List Frame}
    {p : Packet}

structure BareMode (ctx : Option Context) (fecSender : Option Filter.FECSender)
    (fecReceiver : Option Filter.FECReceiver) (timer : Option Tsbpd.Timer) (sendDropThresh : ℤ)
    (msgTTLActive : Bool) : Prop where
  crypto : ctx = none
  fecSender : fecSender = none
  fecReceiver : fecReceiver = none
  timer : timer = none
  dropThresh : sendDropThresh ≤ 0
  ttl : msgTTLActive = false

abbrev Conn.IsBare (c : Conn σ) : Prop :=
  BareMode c.key.cryptoCtx c.snd.fecSender c.rcv.fecReceiver c.rcv.tsbpdTimer
    c.params.sendDropThresh c.snd.msgTTLActive

theorem messageFrames_fragment {c : Conn σ} (hc : c.IsBare) (now : ℤ) (payload : Bytes)
    (opts : MsgOptions) (msgNo : ℕ) :
    (c.messageFrames now payload opts msgNo).map Fragment.ofFrame =
      cut c.params.payloadSize msgNo opts.inOrder payload := by
  unfold Conn.messageFrames cut
  simp only [hc.timer, Option.isSome_none, Bool.false_eq_true, or_false]
  by_cases hsingle : c.params.payloadSize = 0 ∨ payload.length ≤ c.params.payloadSize
  · rw [if_pos hsingle, if_pos hsingle]
    rfl
  · rw [if_neg hsingle, if_neg hsingle]
    refine List.ext_getElem? fun i => ?_
    rw [List.getElem?_map, List.getElem?_mapIdx, List.getElem?_mapIdx]
    cases (fragments c.params.payloadSize payload.length payload)[i]? <;> rfl

def Conn.assign (c : Conn σ) (opts : MsgOptions) : ℕ :=
  if opts.forceMsgNo then opts.msgNo &&& 0x03FFFFFF else nextMsgNo c.snd.msgNumber

theorem messageFrames_ttlNs (c : Conn σ) (now : ℤ) (payload : Bytes) (hopts : opts.ttl ≤ 0)
    (msgNo : ℕ) :
    ∀ f ∈ c.messageFrames now payload opts msgNo, f.ttlNs = 0 := by
  intro f hf
  unfold Conn.messageFrames at hf
  simp only [if_neg (not_lt.mpr hopts)] at hf
  split_ifs at hf
  · rw [List.mem_singleton.mp hf]
  all_goals
    obtain ⟨i, hi, rfl⟩ := List.mem_mapIdx.mp hf
    rfl

/-! ## The invariant -/

/-- What a connection has been given to send: the fragments, and the number of the last
message. -/
structure Posted where
  frames : List Fragment := []
  number : ℕ := 0

def Posted.add (posted : Posted) (fragments : List Fragment) (number : ℕ) : Posted :=
  ⟨posted.frames ++ fragments, number⟩

/-- What has been given to a sender is what it has sent and what it still has queued.
The packets from the `s`-th on are in its buffer, and no more than the window allows. -/
structure SendState (isn : ℕ) (posted : Posted) (s : ℕ) (sb : SendBuffer) (flowWindow : ℤ)
    (history : List Transmission) (queue : List Frame) (msgNumber : ℕ) : Prop where
  held : ∃ cell, Holds sb cell (isn + s) (isn + history.length) ∧
    ∀ i t, s ≤ i → history[i]? = some t → (cell (isn + i)).pkt = t.wire
  room : flowWindow ≤ sb.len
  inFlight : (history.length : ℤ) ≤ s + flowWindow
  numbered : ∀ i t, history[i]? = some t →
    t.wire.header.isControl = false ∧ t.wire.header.sequenceNumber = wrap (isn + i)
  queued : history.map (fun t => Fragment.ofPacket t.wire) ++ queue.map Fragment.ofFrame =
    posted.frames
  noTTL : ∀ f ∈ queue, f.ttlNs = 0
  number : msgNumber = posted.number

theorem SendState.push {isn s : ℕ} {posted : Posted} {flowWindow : ℤ} {history : List Transmission}
    {msgNumber : ℕ} (h : SendState isn posted s sb flowWindow history (f :: rest) msgNumber)
    (hwindow : sb.size < flowWindow) (hcontrol : p.header.isControl = false)
    (hseq : p.header.sequenceNumber = sb.nextSeq) (hdata : Fragment.ofPacket p = Fragment.ofFrame f)
    (now : ℤ) :
    ∃ sb', sb.push p now = some sb' ∧ ∀ t : Transmission, t.wire = p →
      SendState isn posted s sb' flowWindow (history ++ [t]) rest msgNumber := by
  obtain ⟨cell, hholds, hcell⟩ := h.held
  have hsize := hholds.size_eq
  have hroom := h.room
  have hstart := hholds.start_le
  obtain ⟨sb', hpush, hlen, hholds'⟩ := hholds.push (by omega) p now
  refine ⟨sb', hpush,
    fun t ht => ⟨⟨Function.update cell (isn + history.length) ⟨p, true, now, 0, 0⟩,
    ?_, fun i u hi hu => ?_⟩, ?_, ?_, fun i u hu => ?_, ?_, ?_, h.number⟩⟩
  · rw [List.length_append, List.length_singleton, ← Nat.add_assoc]
    exact hholds'
  · rcases getElem?_concat_cases hu with hold | ⟨rfl, rfl⟩
    · have hlt := (List.getElem?_eq_some_iff.mp hold).1
      rw [Function.update_of_ne (by omega)]
      exact hcell i u hi hold
    · rw [Function.update_self, ht]
  · rw [hlen]
    exact hroom
  · rw [List.length_append, List.length_singleton]
    push_cast
    omega
  · rcases getElem?_concat_cases hu with hold | ⟨rfl, rfl⟩
    · exact h.numbered i u hold
    · rw [ht]
      exact ⟨hcontrol, hseq.trans hholds.nextSeq_eq⟩
  · rw [← h.queued, List.map_append, List.append_assoc]
    simp [ht, hdata]
  · exact fun g hg => h.noTTL g (List.mem_cons_of_mem _ hg)

/-- The connection has been given `posted`; it has sent a first part of them under the
numbers from `isn` on, and the packets from the `s`-th on wait for their
acknowledgement. -/
abbrev Sends (isn : ℕ) (posted : Posted) (s : ℕ) (c : Conn σ) : Prop :=
  SendState isn posted s c.snd.sendBuf c.params.flowWindow c.history c.snd.sendQueue
    c.snd.msgNumber

/-- Every packet among the outputs is the `i`-th transmission or a copy of it, for some
`i` from `s` on. -/
def Carried (c : Conn σ) (s : ℕ) : Output → Prop
  | .sendPacket p _ => ∃ i t, s ≤ i ∧ c.history[i]? = some t ∧
      (p = t.wire ∨ p = SendBuffer.retransmission t.wire)
  | .setTimer _ _ => True
  | .clearTimer _ => True

theorem getElem?_of_prefix {α : Type*} {l l' : List α} (h : l <+: l') {i : ℕ} {a : α}
    (ha : l[i]? = some a) : l'[i]? = some a := by
  obtain ⟨t, rfl⟩ := h
  rw [List.getElem?_append_left (List.getElem?_eq_some_iff.mp ha).1]
  exact ha

theorem Carried.mono {c c' : Conn σ} {s : ℕ} (h : c.history <+: c'.history) {o : Output}
    (ho : Carried c s o) : Carried c' s o := by
  cases o with
  | sendPacket p owned =>
    obtain ⟨i, t, hi, ht, hp⟩ := ho
    exact ⟨i, t, hi, getElem?_of_prefix h ht, hp⟩
  | setTimer id deadline => trivial
  | clearTimer id => trivial

variable {isn s : ℕ} {posted : Posted} {c c' : Conn σ}

theorem Sends.acked_le (h : Sends isn posted s c) : s ≤ c.history.length := by
  obtain ⟨cell, hholds, -⟩ := h.held
  have := hholds.start_le
  omega

theorem Sends.recvFrame (h : Sends isn posted s c) (hframe : c.RecvFrame c') :
    Sends isn posted s c' := by
  unfold Sends
  rw [hframe.snd, hframe.history, hframe.params]
  exact h

/-- What a part of the send path does: it keeps the invariant, and whatever it puts on
the wire is a packet of the history. -/
structure SendsOn (isn : ℕ) (posted : Posted) (s : ℕ) (c c' : Conn σ) : Prop where
  bare : c'.IsBare
  sends : Sends isn posted s c'
  history : c.history <+: c'.history
  emits : Conn.Emits (Carried c' s) c c'

theorem SendsOn.refl (hc : c.IsBare) (h : Sends isn posted s c) : SendsOn isn posted s c c :=
  ⟨hc, h, List.prefix_rfl, Conn.Emits.refl _ c⟩

theorem SendsOn.trans {c'' : Conn σ} (h : SendsOn isn posted s c c')
    (h' : SendsOn isn posted s c' c'') : SendsOn isn posted s c c'' :=
  ⟨h'.bare, h'.sends, h.history.trans h'.history,
    (h.emits.mono fun _ => Carried.mono h'.history).trans h'.emits⟩

/-! ## Acknowledgements and copies -/

theorem Sends.acknowledge (h : Sends isn posted s c) {a : ℕ} (hbehind : s < a + 2 ^ 30)
    (hahead : a < s + 2 ^ 30) (now : ℤ) :
    Sends isn posted (max s (min a c.history.length)) (c.acknowledge now (wrap (isn + a))).1 := by
  obtain ⟨cell, hholds, hcell⟩ := h.held
  have hacked := h.acked_le
  have hinFlight := h.inFlight
  have hreleased : Holds (c.snd.sendBuf.ack (wrap (isn + a))).1 cell
    (isn + max s (min a c.history.length))
      (isn + c.history.length) ∧ (c.snd.sendBuf.ack (wrap (isn + a))).1.len =
        c.snd.sendBuf.len := by
    rcases le_or_gt s a with hsa | has
    · have hmax : isn + max s (min a c.history.length) =
          max (isn + s) (min (isn + a) (isn + c.history.length)) := by omega
      rw [hmax]
      exact hholds.ack_of_le (a := isn + a) (by omega) (by omega)
    · rw [hholds.ack_of_lt (by omega) (by omega), max_eq_left (by omega)]
      exact ⟨hholds, rfl⟩
  refine ⟨⟨cell, hreleased.1, fun i t hi ht => hcell i t (by omega) ht⟩, ?_, ?_,
    h.numbered, h.queued,
    h.noTTL, h.number⟩
  · show c.params.flowWindow ≤ ((c.snd.sendBuf.ack (wrap (isn + a))).1.len : ℤ)
    rw [hreleased.2]
    exact h.room
  · show (c.history.length : ℤ) ≤ (max s (min a c.history.length) : ℕ) + c.params.flowWindow
    omega

theorem carried_of_copyOf {cell : ℕ → SendEntry}
    (hholds : Holds sb cell (isn + s) (isn + c.history.length))
    (hcell : ∀ i t, s ≤ i → c.history[i]? = some t → (cell (isn + i)).pkt = t.wire)
    (hp : sb.CopyOf p) (owned : Bool) : Carried c s (.sendPacket p owned) := by
  obtain ⟨j, hused, rfl⟩ := hp
  obtain ⟨q, hs, hn, -, heq⟩ := hholds.exists_position hused
  obtain ⟨i, rfl⟩ := Nat.exists_eq_add_of_le (show isn ≤ q by omega)
  have hlt : i < c.history.length := by omega
  refine ⟨i, c.history[i], by omega, List.getElem?_eq_getElem hlt, Or.inr ?_⟩
  rw [heq, hcell i _ (by omega) (List.getElem?_eq_getElem hlt)]

theorem SendsOn.resend (hc : c.IsBare) (h : Sends isn posted s c) {ps : List Packet}
    (hps : ∀ p ∈ ps, Carried c s (.sendPacket p true)) :
    SendsOn isn posted s c (ps.foldl Conn.send c) := by
  induction ps generalizing c with
  | nil => exact SendsOn.refl hc h
  | cons p ps ih =>
    have hone : SendsOn isn posted s c (c.send p) :=
      ⟨hc, h, List.prefix_rfl, Conn.Emits.push c (hps p List.mem_cons_self)⟩
    exact hone.trans (ih hone.bare hone.sends fun q hq => hps q (List.mem_cons_of_mem _ hq))

variable [Controller σ]

theorem Sends.handleNAK (hc : c.IsBare) (h : Sends isn posted s c) (now : ℤ) (p : Packet) :
    SendsOn isn posted s c (c.handleNAK now p) := by
  obtain ⟨cell, hholds, hcell⟩ := h.held
  unfold Conn.handleNAK
  split
  · exact SendsOn.refl hc h
  · rename_i lossList _
    simp only
    split_ifs
    · obtain ⟨cell', hsame, hholds', hlen⟩ := hholds.nakTimed lossList now c.ack.rtt c.ack.rttVar
      have hsends :
        Sends isn posted s ((c.setSendCC (Controller.onNAK c.snd.sendCC lossList)).setSendBuf
          (c.snd.sendBuf.nakTimed lossList now c.ack.rtt c.ack.rttVar).1) :=
        ⟨⟨cell', hholds', fun i t hi ht => (hsame _).trans (hcell i t hi ht)⟩,
          by rw [Conn.setSendBuf,
            hlen]; exact h.room, h.inFlight, h.numbered, h.queued, h.noTTL, h.number⟩
      have hresend :=
        SendsOn.resend (c := (c.setSendCC (Controller.onNAK c.snd.sendCC lossList)).setSendBuf
          (c.snd.sendBuf.nakTimed lossList now c.ack.rtt c.ack.rttVar).1) hc hsends
        fun q hq => carried_of_copyOf hholds hcell
          ((SendBuffer.within_nakTimed _ lossList now c.ack.rtt c.ack.rttVar).2 q hq) true
      exact { hresend with }
    · have hresend := SendsOn.resend (c := c.setSendCC (Controller.onNAK c.snd.sendCC lossList)) hc
        h
        fun q hq => carried_of_copyOf hholds hcell (SendBuffer.copyOf_nak _ lossList q hq) true
      exact { hresend with }

variable [Primitives]

/-! ## The pump -/

theorem sendPaced_eq (hc : c.IsBare) {now : ℤ} (hf : f.ttlNs = 0) {ts : ℕ}
    (hts : ts = if f.srcTime = 0 then c.wireTS now else f.srcTime)
    (hpush : c.snd.sendBuf.push (c.framePacket c.snd.sendBuf.nextSeq ts f) now = some sb) :
    c.sendPaced now f =
      let sent := c.transmit now sb (c.framePacket c.snd.sendBuf.nextSeq ts f)
        (c.framePacket c.snd.sendBuf.nextSeq ts f)
      sent.pace now sent.sendInterval := by
  subst hts
  unfold Conn.sendPaced Conn.sendOne Conn.sendData
  simp only [Conn.encrypt, hc.crypto, hpush, Conn.tagTTL, hf, lt_irrefl, if_false]
  have hfeed : ∀ (sent : Conn σ) (p : Packet), sent.snd.fecSender = none →
      sent.feedFEC p = sent := by
    intro sent p hsent
    rw [Conn.feedFEC, hsent]
  have hafter : ∀ sent : Conn σ, sent.key.cryptoCtx = none → sent.afterSend now = sent := by
    intro sent hsent
    rw [Conn.afterSend, hsent, if_neg (by simp)]
  rw [hfeed (c.transmit now sb _ _) _ hc.fecSender, hafter (c.transmit now sb _ _) hc.crypto]

theorem Sends.sendPaced (hc : c.IsBare) (h : Sends isn posted s c)
    (hq : c.snd.sendQueue = f :: rest) (hwindow : c.snd.sendBuf.size < c.window) (now : ℤ) :
    SendsOn isn posted s c ((c.dequeue rest).sendPaced now f) := by
  have hacked := h.acked_le
  have hbare : (c.dequeue rest).IsBare := hc
  have hstate : SendState isn posted s c.snd.sendBuf c.params.flowWindow c.history (f :: rest)
      c.snd.msgNumber := by
    rw [← hq]
    exact h
  obtain ⟨sb, hpush, hsent⟩ := hstate.push (hwindow.trans_le c.window_le_flowWindow)
    (p := (c.dequeue rest).framePacket c.snd.sendBuf.nextSeq
      (if f.srcTime = 0 then (c.dequeue rest).wireTS now else f.srcTime) f) rfl rfl rfl now
  rw [sendPaced_eq hbare (hstate.noTTL f List.mem_cons_self) rfl hpush]
  refine ⟨hc, hsent _ rfl, List.prefix_append _ _, [.sendPacket _ false], rfl, fun o ho => ?_⟩
  rw [List.mem_singleton.mp ho]
  exact ⟨c.history.length, _, hacked, List.getElem?_concat_length, Or.inl rfl⟩

theorem Sends.pumpLoop (now : ℤ) (fuel : ℕ) (hc : c.IsBare) (h : Sends isn posted s c) :
    SendsOn isn posted s c (Conn.pumpLoop now fuel c) :=
  Conn.pumpLoop_preserves now
    (fun b _ h => h.trans ⟨h.bare, h.sends, List.prefix_rfl, Conn.Emits.push b trivial⟩)
    (fun _ _ _ hq hopen _ h => h.trans (Sends.sendPaced h.bare h.sends hq hopen now)) fuel c
      (SendsOn.refl hc h)

theorem Sends.pump (hc : c.IsBare) (h : Sends isn posted s c) (now : ℤ) :
    SendsOn isn posted s c (c.pump now) := by
  have hdrop : c.checkSendDrop now = c := by
    rw [Conn.checkSendDrop, if_pos ⟨hc.dropThresh, by rw [hc.ttl]; rfl⟩]
  rw [Conn.pump, hdrop]
  exact Sends.pumpLoop now _ hc h

theorem Sends.writeMsg (hc : c.IsBare) (h : Sends isn posted s c) (hopen : c.closed = false)
    (now : ℤ) (payload : Bytes) (hopts : opts.ttl ≤ 0) :
    SendsOn isn (posted.add (cut c.params.payloadSize (c.assign opts) opts.inOrder payload)
      (c.assign opts)) s c (c.writeMsg now payload opts) := by
  rw [Conn.writeMsg, if_neg (by simp [hopen])]
  have hbare : (c.enqueue now payload opts).IsBare :=
    { hc with ttl := by simp [Conn.enqueue, hc.ttl, hopts] }
  have hsends :
    Sends isn (posted.add (cut c.params.payloadSize (c.assign opts) opts.inOrder payload)
      (c.assign opts)) s (c.enqueue now payload opts) := by
    refine ⟨h.held, h.room, h.inFlight, h.numbered, ?_, ?_, rfl⟩
    · rw [Posted.add, ← h.queued, ← messageFrames_fragment hc now payload opts, List.append_assoc,
        ← List.map_append]
      rfl
    · intro f hf
      rcases List.mem_append.mp hf with hf | hf
      · exact h.noTTL f hf
      · exact messageFrames_ttlNs c now payload hopts _ f hf
  have hpump := Sends.pump hbare hsends now
  exact { hpump with }

end SrtGo.Core
