import SrtGo.Flow.Outgoing

/-!
# Messages with a source time

An application may write a message together with the instant at which its data originated.  The
public layer turns the instant into a wire timestamp, and the packets of the message carry this
timestamp instead of the time at which they are sent.

The timestamps of a connection count from the time at which it was established.  The public layer
counts from the start of the clock instead, and it says `0` for "no source time".  So the timestamp
is that of a packet which was sent at the instant only if the clock stood at zero when the
connection was established.
-/

namespace SrtGo.Session

open Buffer Congestion SrtGo.Core Crypto Run SrtGo.Seq

/-- What the application says about a message: its source time as a reading of the clock, if it has
one, and its time to live in nanoseconds. -/
structure MsgCtrl where
  srcTime : Option ℤ := none
  msgTTL : ℤ := 0
  inOrder : Bool := false

def currentSRTTimestamp (clk : ℤ) : ℕ := srtTimestamp clk

/-- The options of a message; the difference of the times wraps around like the timestamps. -/
def msgOptions (clk : ℤ) : Option MsgCtrl → MsgOptions
  | none => { inOrder := true }
  | some mc =>
    { inOrder := mc.inOrder
      ttl := if 0 < mc.msgTTL then mc.msgTTL / 1000 else 0
      srcTime := match mc.srcTime with
        | none => 0
        | some t => (currentSRTTimestamp clk + 2 ^ 32 - srtTimestamp (clk - t)) % 2 ^ 32 }

/-- The options under which `WriteMsgCtrl` queues a message, when the clock shows `clk`.  A source
time that a group has pinned takes precedence. -/
def writeMsgCtrl (file : Bool) (payloadSize groupSrcTime : ℕ) (clk : ℤ) (b : Bytes)
    (mc : Option MsgCtrl) :
    Except String MsgOptions :=
  match Conn.checkPayloadSize file payloadSize b with
  | some e => .error e
  | none =>
    .ok (if groupSrcTime ≠ 0 then { msgOptions clk mc with srcTime := groupSrcTime } else
      msgOptions clk mc)

theorem srtTimestamp_sub (clk t : ℤ) :
    (srtTimestamp clk + 2 ^ 32 - srtTimestamp (clk - t)) % 2 ^ 32 = srtTimestamp t := by
  unfold srtTimestamp
  omega

theorem srcTime_of_writeMsgCtrl {file : Bool} {payloadSize : ℕ} {clk t : ℤ} {b : Bytes}
    {mc : MsgCtrl} {opts : MsgOptions} (hmc : mc.srcTime = some t)
    (h : writeMsgCtrl file payloadSize 0 clk b (some mc) = .ok opts) : opts.srcTime =
      srtTimestamp t := by
  unfold writeMsgCtrl at h
  split at h
  · exact absurd h (by simp)
  · obtain rfl := Except.ok.inj h
    show (msgOptions clk (some mc)).srcTime = srtTimestamp t
    simp only [msgOptions, hmc]
    exact srtTimestamp_sub clk t

section
variable {σ : Type} {c : Conn σ} {labels : List (Option ℕ)}

/-- A packet with a label carries it as its timestamp, as soon as it is sent. -/
abbrev Stamps : List (Option ℕ) → Conn σ → Prop :=
  Conn.Labelled (fun x t => ∀ ts ∈ x, t.wire.header.timestamp = ts) fun x f => ∀ ts ∈ x, ts ≠ 0 ∧
    f.srcTime = ts

theorem stamps_none (c : Conn σ) :
    Stamps (List.replicate (c.history.length + c.snd.sendQueue.length) none) c := by
  unfold Stamps Conn.Labelled
  rw [List.take_replicate, List.drop_replicate, min_eq_left (Nat.le_add_right _ _),
    Nat.add_sub_cancel_left]
  exact ⟨Conn.forall₂_replicate (by simp), Conn.forall₂_replicate (by simp)⟩

theorem stamps_sentAs {now : ℕ} (x : Option ℕ) (f : Frame) (t : Transmission)
    (hx : ∀ ts ∈ x, ts ≠ 0 ∧ f.srcTime = ts) (ht : f.SentAs now t) :
    ∀ ts ∈ x, t.wire.header.timestamp = ts := by
  intro ts hts
  obtain ⟨hne, heq⟩ := hx ts hts
  rw [ht.2, heq, if_neg hne]

theorem wireTS_eq_iff (start t : ℤ) (hbase : c.params.sndTSBase = srtTimestamp start) :
    srtTimestamp t = c.wireTS t ↔ srtTimestamp start = 0 := by
  unfold Conn.wireTS
  rw [hbase]
  unfold srtTimestamp
  omega

variable [Controller σ] [Primitives]

theorem Stamps.write {cell : ℕ → SendEntry} {isn s : ℕ} (h : Stamps labels c)
    (hlogged : c.Logged cell isn s)
    (hopen : c.closed = false) {now : ℤ} {b : Bytes} {opts : MsgOptions} {new : List (Option ℕ)}
    (hnew : List.Forall₂ (fun x f => ∀ ts ∈ x, ts ≠ 0 ∧ f.srcTime = ts) new
      (c.messageFrames now b opts (c.assign opts))) : Stamps (labels ++ new)
        (c.step (.write now b opts)) := by
  have hwritten := Conn.Labelled.write h hlogged (g := id) (fun _ _ hsent => hsent) hopen hnew
    stamps_sentAs
  rwa [Conn.relabel_id] at hwritten

theorem Stamps.exec {cell : ℕ → SendEntry} {isn s : ℕ} (h : Stamps labels c)
    (hlogged : c.Logged cell isn s) (is : List Input) (his : ∀ i ∈ is, i.Single) :
    ∃ more, Stamps (labels ++ more) (Run.exec Conn.step c is) := by
  induction is generalizing c labels cell s with
  | nil => exact ⟨[], by rw [List.append_nil]; exact h⟩
  | cons i is ih =>
    have hi := his i List.mem_cons_self
    have hrest : ∀ j ∈ is, j.Single := fun j hj => his j (List.mem_cons_of_mem i hj)
    obtain ⟨cell', s', hlogged'⟩ := (Conn.sendStep c hi).exists_logged hlogged
    have hstep : ∃ more, Stamps (labels ++ more) (c.step i) := by
      by_cases hwrite : ∃ now payload opts, i = .write now payload opts
      · obtain ⟨now, payload, opts, rfl⟩ := hwrite
        by_cases hclosed : c.closed = true
        · have hsame : c.step (.write now payload opts) = c := by
            simp [Conn.step, Conn.writeMsg, hclosed]
          exact ⟨[], by rw [hsame, List.append_nil]; exact h⟩
        · exact ⟨_,
            h.write hlogged (by simpa using hclosed) (Conn.forall₂_replicate (x := none) (by simp))⟩
      · have hkept := Conn.Labelled.step h hlogged (g := id) (fun _ _ hsent => hsent) hi
          (fun now payload opts heq => hwrite ⟨now, payload, opts, heq⟩) stamps_sentAs
        rw [Conn.relabel_id] at hkept
        exact ⟨[], by rw [List.append_nil]; exact hkept⟩
    obtain ⟨more, hmore⟩ := hstep
    obtain ⟨more', hmore'⟩ := ih hmore hlogged' hrest
    rw [List.append_assoc] at hmore'
    exact ⟨more ++ more', hmore'⟩

/-- Of a message that is written with a source time, each packet carries the timestamp of that
instant exactly if the clock stood at zero when the connection was established. -/
theorem source_time_is_stamped_iff {ep : EstablishParams} (hcap : ep.sndCap ≤ 2 ^ 30)
    (hisn : Valid ep.sendISN)
    (cc : σ) (start : ℤ) (before after : List Input) (hbefore : ∀ i ∈ before, i.Single)
    (hafter : ∀ i ∈ after, i.Single) {file : Bool} {payloadSize : ℕ} {clk t : ℤ} {b : Bytes}
    {mc : MsgCtrl} {opts : MsgOptions} (hmc : mc.srcTime = some t) (ht : srtTimestamp t ≠ 0)
    (hwrite : writeMsgCtrl file payloadSize 0 clk b (some mc) = .ok opts) (now : ℤ) :
    let c := exec Conn.step (Conn.establish cc start ep) before
    let first := c.history.length + c.snd.sendQueue.length
    ∀ k tr, first ≤ k → k < first + c.added (.write now b opts) →
      (exec Conn.step c (.write now b opts :: after)).history[k]? = some tr →
      (tr.wire.header.timestamp = c.wireTS t ↔ srtTimestamp start = 0) := by
  intro c first k tr hk hlt htr
  have hopts : opts.srcTime = srtTimestamp t := srcTime_of_writeMsgCtrl hmc hwrite
  obtain ⟨cell, s, hlogged⟩ :=
    ((Conn.recorded_establish hcap hisn cc start).exec before hbefore).1.logged
  have hbase : c.params.sndTSBase = srtTimestamp start := by
    have hsteps : AllSteps Conn.step (fun _ i => i.Single) (Conn.establish cc start ep) before :=
      allSteps_of_forall_mem hbefore
    have hstart : (Conn.establish cc start ep).params.sndTSBase = srtTimestamp start := by
      obtain ⟨os, hos⟩ := Conn.exists_establish_eq cc start ep
      rw [hos]
      rfl
    exact (hsteps.allStates
      (fun c i h hi => (congrArg Params.sndTSBase (Conn.sendStep c hi).params).trans h)
      hstart).exec
  -- a closed connection would have sent none of the packets
  have hopen : c.closed = false := by
    by_contra hclosed
    rw [Bool.not_eq_false] at hclosed
    rw [Conn.history_exec_of_closed (.write now b opts :: after) hclosed] at htr
    have := (List.getElem?_eq_some_iff.mp htr).1
    omega
  have hnew : List.Forall₂ (fun x f => ∀ ts ∈ x, ts ≠ 0 ∧ f.srcTime = ts)
      (List.replicate (c.added (.write now b opts)) (some opts.srcTime))
      (c.messageFrames now b opts (c.assign opts)) := by
    refine Conn.forall₂_replicate fun f hf ts hts => ?_
    obtain rfl := Option.some.inj hts
    have hne : opts.srcTime ≠ 0 := by rwa [hopts]
    exact ⟨hne, (Conn.srcTime_messageFrames hf).resolve_right fun h => hne h.1⟩
  -- what was queued before is not labelled, the frames of the message are
  have hwritten := (stamps_none c).write hlogged hopen hnew
  obtain ⟨cell', s', hlogged'⟩ :=
    (Conn.sendStep (i := .write now b opts) c trivial).exists_logged hlogged
  obtain ⟨more, hmore⟩ := Stamps.exec hwritten hlogged' after hafter
  have hlabel : ((List.replicate first none ++
      List.replicate (c.added (.write now b opts)) (some opts.srcTime)) ++ more)[k]? =
        some (some opts.srcTime) := by
    rw [List.getElem?_append_left
        (by simp only [List.length_append, List.length_replicate]; exact hlt),
      List.getElem?_append_right (by rw [List.length_replicate]; exact hk), List.length_replicate,
      List.getElem?_replicate, if_pos (by omega)]
  have hstamp : tr.wire.header.timestamp = opts.srcTime := hmore.of_sent hlabel htr opts.srcTime rfl
  rw [hstamp, hopts]
  exact wireTS_eq_iff start t hbase

end

section Examples

open scoped XorCipher

def smallBuffers : EstablishParams := { flowWindow := 4, bufferCapacity := 4 }

def aMillisecondOld : Input := .write 5000 [1] (msgOptions 5000 (some { srcTime := some 4000 }))

/-- A connection that is established when its clock starts stamps the source time. -/
theorem source_time_is_stamped_at_zero :
    ∃ tr, (exec Conn.step (Conn.establish (LiveCC.new 0 0) 0 smallBuffers)
      [aMillisecondOld]).history[0]? = some tr ∧
      tr.wire.header.timestamp = (Conn.establish (LiveCC.new 0 0) 0 smallBuffers).wireTS 4000 := by
  have hsome : ((exec Conn.step (Conn.establish (LiveCC.new 0 0) 0 smallBuffers)
      [aMillisecondOld]).history[0]?).isSome = true := by decide +kernel
  obtain ⟨tr, htr⟩ := Option.isSome_iff_exists.mp hsome
  have hwrite : writeMsgCtrl false 1316 0 5000 [1] (some { srcTime := some 4000 }) =
      .ok (msgOptions 5000 (some { srcTime := some 4000 })) := rfl
  have hiff := source_time_is_stamped_iff (show smallBuffers.sndCap ≤ 2 ^ 30 by decide) ⟨by decide⟩
    (LiveCC.new 0 0) 0 [] []
    (by simp) (by simp) rfl (by decide) hwrite 5000 0 tr (by decide +kernel) (by decide +kernel) htr
  exact ⟨tr, htr, hiff.mpr rfl⟩

/-- A connection that is accepted when the clock of its listener shows a second stamps a second too
much. -/
theorem source_time_of_late_connection :
    let c := exec Conn.step (Conn.establish (LiveCC.new 0 0) 1000000 smallBuffers)
      [.write 2000000 [1] (msgOptions 2000000 (some { srcTime := some 2000000 }))]
    c.history.map (fun tr => tr.wire.header.timestamp) = [2000000] ∧
      c.wireTS 2000000 = 1000000 := by
  decide +kernel

end Examples

end SrtGo.Session
