import SrtGo.Flow.WholeMessages

/-!
# What one step sends

The packets that a connection sends in one step were in its queue, or are written in this step, and
they are numbered on from those that it has sent before.
-/

namespace SrtGo.Core.Conn

open Buffer Congestion Crypto SrtGo.Seq

variable {σ : Type} {c c' : Conn σ} {isn s : ℕ} {cell : ℕ → SendEntry} {i : Input} {now : ℤ}
  {opts : MsgOptions} {payload : Bytes}

def added (c : Conn σ) : Input → ℕ
  | .write now payload opts => (c.messageFrames now payload opts (c.assign opts)).length
  | _ => 0

def pending (c : Conn σ) (i : Input) : ℕ := c.snd.sendQueue.length + c.added i

/-- The packets that a step sends, numbered from `n` on. -/
structure Outgoing (c c' : Conn σ) (n bound : ℕ) (new : List Transmission) : Prop where
  history : c'.history = c.history ++ new
  length : new.length ≤ bound
  numbered : ∀ k t, new[k]? = some t → t.wire.header.sequenceNumber = wrap (n + k)

theorem Outgoing.nil (h : c'.history = c.history) (n bound : ℕ) : Outgoing c c' n bound [] :=
  ⟨by rw [h, List.append_nil], Nat.zero_le _, fun k t ht => by simp at ht⟩

section
variable [Controller σ] [Primitives]

theorem Logged.exists_outgoing_pump (h : Logged c cell isn s) (now : ℤ) :
    ∃ new, Outgoing c (c.pump now) (isn + c.history.length) c.snd.sendQueue.length new := by
  obtain ⟨cell', s', frames, new, -, hsent⟩ := h.exists_sent_pump now
  refine ⟨new, hsent.history, ?_, fun k t ht => (hsent.added k t ht).2⟩
  rw [hsent.queue, List.length_append, hsent.made.length_eq]
  exact Nat.le_add_right _ _

theorem SendStep.exists_outgoing (hstep : SendStep i c c') (h : Logged c cell isn s) :
    ∃ new, Outgoing c c' (isn + c.history.length) (c.pending i) new := by
  cases hstep with
  | idle hkeep => exact ⟨[], Outgoing.nil hkeep.history _ _⟩
  | resend losses now rtt rttVar hkeep =>
    have hhistory : c'.history = c.history := hkeep.history
    exact ⟨[], Outgoing.nil hhistory _ _⟩
  | @pump b hb =>
    obtain ⟨-, hhistory, -⟩ := hb.pumpedFrom.frame
    have hqueue : b.snd.sendQueue.length ≤ c.pending i := by
      rcases hb.cases with hkeep | ⟨now, payload, opts, rfl, rfl⟩ | ⟨now, p, ack, -, -, -, hacked⟩
      · rw [hkeep.sendQueue]
        exact Nat.le_add_right _ _
      · exact (List.length_append ..).le
      · rw [hacked.sendQueue]
        exact Nat.le_add_right _ _
    obtain ⟨s', hlogged⟩ := hb.pumpedFrom.exists_logged h
    obtain ⟨new, hsends⟩ := hlogged.exists_outgoing_pump i.now
    rw [hhistory] at hsends
    exact ⟨new, hhistory ▸ hsends.history, hsends.length.trans hqueue, hsends.numbered⟩

end

structure Numbered (isn : ℕ) (c : Conn σ) : Prop where
  logged : ∃ cell s, Logged c cell isn s
  numbered : ∀ n t, c.history[n]? = some t → t.wire.header.sequenceNumber = wrap (isn + n)

section
variable [Controller σ] [Primitives]

theorem Numbered.step (h : c.Numbered isn) (hsingle : i.Single) : (c.step i).Numbered isn ∧
      ∃ new, Outgoing c (c.step i) (isn + c.history.length) (c.pending i) new := by
  obtain ⟨cell, s, hlogged⟩ := h.logged
  obtain ⟨new, hsends⟩ := (sendStep c hsingle).exists_outgoing hlogged
  refine ⟨⟨(sendStep c hsingle).exists_logged hlogged, fun n t ht => ?_⟩, new, hsends⟩
  rw [hsends.history] at ht
  by_cases hold : n < c.history.length
  · rw [List.getElem?_append_left hold] at ht
    exact h.numbered n t ht
  · rw [List.getElem?_append_right (not_lt.mp hold)] at ht
    rw [hsends.numbered _ t ht, Nat.add_assoc, Nat.add_sub_cancel' (not_lt.mp hold)]

theorem numbered_establish {ep : EstablishParams} (hcap : ep.sndCap ≤ 2 ^ 30)
    (hisn : Valid ep.sendISN) (cc : σ) (now : ℤ) : (establish cc now ep).Numbered ep.sendISN := by
  refine ⟨(recorded_establish hcap hisn cc now).logged, fun n t ht => ?_⟩
  rw [establish_eq] at ht
  exact absurd ht (by simp [established])

end

theorem srcTime_messageFrames {msgNo : ℕ} {f : Frame}
    (hf : f ∈ c.messageFrames now payload opts msgNo) :
    f.srcTime = opts.srcTime ∨ opts.srcTime = 0 ∧ f.srcTime = c.wireTS now := by
  unfold messageFrames at hf
  simp only at hf
  by_cases hsingle : c.params.payloadSize = 0 ∨ payload.length ≤ c.params.payloadSize ∨
      c.rcv.tsbpdTimer.isSome = true
  · rw [if_pos hsingle] at hf
    rw [List.mem_singleton.mp hf]
    exact Or.inl rfl
  · rw [if_neg hsingle] at hf
    obtain ⟨i, hi, rfl⟩ := List.mem_mapIdx.mp hf
    by_cases hzero : opts.srcTime = 0
    · exact Or.inr ⟨hzero, if_pos hzero⟩
    · exact Or.inl (if_neg hzero)

/-! ## Labels -/

section
variable {α : Type} {sent : α → Transmission → Prop} {waits : α → Frame → Prop}
    {labels : List α} {x : α}

/-- There is a label for each packet that has been written, in this order: `sent` says what is known
of one that was sent, and `waits` of one in the queue. -/
def Labelled (sent : α → Transmission → Prop) (waits : α → Frame → Prop) (labels : List α)
    (c : Conn σ) : Prop :=
  List.Forall₂ sent (labels.take c.history.length) c.history ∧
    List.Forall₂ waits (labels.drop c.history.length) c.snd.sendQueue

def relabel (g : α → α) (n : ℕ) (labels : List α) : List α := (labels.take n).map g ++ labels.drop n

@[simp] theorem relabel_id (n : ℕ) (labels : List α) : relabel id n labels = labels := by
  rw [relabel, List.map_id, List.take_append_drop]

theorem forall₂_replicate {β : Type} {r : α → β → Prop} : ∀ {ys : List β}, (∀ y ∈ ys, r x y) →
    List.Forall₂ r (List.replicate ys.length x) ys
  | [], _ => .nil
  | y :: _, h =>
    .cons (h y List.mem_cons_self) (forall₂_replicate fun z hz => h z (List.mem_cons_of_mem y hz))

section

variable (h : Labelled sent waits labels c)

include h

theorem Labelled.length_le : c.history.length ≤ labels.length := by
  have := h.1.length_eq
  rw [List.length_take] at this
  omega

theorem Labelled.of_sent {k : ℕ} {t : Transmission} (hx : labels[k]? = some x)
    (ht : c.history[k]? = some t) :
    sent x t := by
  obtain ⟨hk, rfl⟩ := List.getElem?_eq_some_iff.mp ht
  obtain ⟨hk', rfl⟩ := List.getElem?_eq_some_iff.mp hx
  have hlen : k < (labels.take c.history.length).length := by
    rw [List.length_take]
    exact lt_min hk hk'
  have := h.1.get hlen hk
  rwa [List.get_eq_getElem, List.getElem_take] at this

theorem Labelled.congr (hhistory : c'.history = c.history)
    (hqueue : c'.snd.sendQueue = c.snd.sendQueue) :
    Labelled sent waits labels c' := by
  unfold Labelled
  rw [hhistory, hqueue]
  exact h

variable {g : α → α} (hkeep : ∀ x t, sent x t → sent (g x) t)

include hkeep

theorem Labelled.relabel : Labelled sent waits (relabel g c.history.length labels) c := by
  have hlen : ((labels.take c.history.length).map g).length = c.history.length := by
    rw [List.length_map, List.length_take, min_eq_left h.length_le]
  refine ⟨?_, ?_⟩
  · rw [Conn.relabel, List.take_left' hlen]
    exact List.forall₂_map_left_iff.mpr (h.1.imp fun x t => hkeep x t)
  · rw [Conn.relabel, List.drop_left' hlen]
    exact h.2

theorem Labelled.sends {cell' : ℕ → SendEntry} {n : ℕ} {frames : List Frame}
    {new : List Transmission} (hsent : Sent c c' cell cell' now s n frames new)
    (hmake : ∀ x f t, waits x f → f.SentAs (c.wireTS now) t → sent (g x) t) :
    Labelled sent waits (Conn.relabel g c'.history.length labels) c' := by
  obtain ⟨hold, hqueue⟩ := h
  rw [hsent.queue] at hqueue
  have hfirst := List.forall₂_take_append _ _ _ hqueue
  have hrest := List.forall₂_drop_append _ _ _ hqueue
  have hnew : ∀ {xs : List α} {fs : List Frame} {ts : List Transmission}, List.Forall₂ waits xs fs →
      List.Forall₂ (Frame.SentAs (c.wireTS now)) fs ts →
        List.Forall₂ (fun x => sent (g x)) xs ts := by
    intro xs fs ts hxs
    induction hxs generalizing ts with
    | nil =>
      rintro ⟨⟩
      exact .nil
    | cons hone _ ih =>
      rintro (_ | ⟨hmade, hmore⟩)
      exact .cons (hmake _ _ _ hone hmade) (ih hmore)
  rw [hsent.made.length_eq] at hfirst hrest
  have hall : List.Forall₂ (fun x => sent (g x)) (labels.take c'.history.length) c'.history := by
    rw [hsent.history, List.length_append, List.take_add]
    exact List.rel_append (hold.imp fun x t => hkeep x t) (hnew hfirst hsent.made)
  have hlen : ((labels.take c'.history.length).map g).length = c'.history.length := by
    rw [List.length_map]
    exact hall.length_eq
  refine ⟨?_, ?_⟩
  · rw [Conn.relabel, List.take_left' hlen]
    exact List.forall₂_map_left_iff.mpr hall
  · rw [Conn.relabel, List.drop_left' hlen, hsent.history, List.length_append, ← List.drop_drop]
    exact hrest

end

variable [Controller σ] [Primitives]

section

variable (h : Labelled sent waits labels c) (hlogged : Logged c cell isn s) {g : α → α}
  (hkeep : ∀ x t, sent x t → sent (g x) t)

include h hlogged hkeep

theorem Labelled.pump (now : ℤ) (hmake : ∀ x f t, waits x f → f.SentAs (c.wireTS now) t →
    sent (g x) t) :
    Labelled sent waits (Conn.relabel g (c.pump now).history.length labels) (c.pump now) := by
  obtain ⟨cell', s', frames, new, -, hsent⟩ := hlogged.exists_sent_pump now
  exact h.sends hkeep hsent hmake

theorem Labelled.step (hi : i.Single) (hother : ∀ now payload opts, i ≠ .write now payload opts)
    (hmake : ∀ x f t, waits x f → f.SentAs (c.wireTS i.now) t → sent (g x) t) :
    Labelled sent waits (Conn.relabel g (c.step i).history.length labels) (c.step i) := by
  have hstep := sendStep c hi
  generalize c.step i = c' at hstep ⊢
  cases hstep with
  | idle hsame => exact (h.congr hsame.history hsame.sendQueue).relabel hkeep
  | resend losses now rtt rttVar hsame =>
    exact (h.congr hsame.history hsame.sendQueue).relabel hkeep
  | @pump b hb =>
    obtain ⟨hparams, hhistory, -⟩ := hb.pumpedFrom.frame
    have hqueue : b.snd.sendQueue = c.snd.sendQueue := by
      rcases hb.cases with hsame | ⟨now, payload, opts, hwrite, -⟩ | ⟨now, p, ack, -, -, -, hacked⟩
      · exact hsame.sendQueue
      · exact absurd hwrite (hother _ _ _)
      · exact hacked.sendQueue
    obtain ⟨s', hlogged'⟩ := hb.pumpedFrom.exists_logged hlogged
    refine (h.congr hhistory hqueue).pump hlogged' hkeep i.now ?_
    rw [wireTS, hparams]
    exact hmake

theorem Labelled.write (hopen : c.closed = false) {new : List α}
    (hnew : List.Forall₂ waits new (c.messageFrames now payload opts (c.assign opts)))
    (hmake : ∀ x f t, waits x f → f.SentAs (c.wireTS now) t → sent (g x) t) :
    Labelled sent waits (Conn.relabel g (c.step (.write now payload opts)).history.length
      (labels ++ new))
      (c.step (.write now payload opts)) := by
  have hstep : c.step (.write now payload opts) = (c.enqueue now payload opts).pump now := by
    simp [Conn.step, writeMsg, hopen]
  obtain ⟨s', hlogged'⟩ := (PumpedFrom.write now payload opts).exists_logged hlogged
  rw [hstep]
  refine Labelled.pump ⟨?_, ?_⟩ hlogged' hkeep now hmake
  · show List.Forall₂ sent ((labels ++ new).take c.history.length) c.history
    rw [List.take_append_of_le_length h.length_le]
    exact h.1
  · show List.Forall₂ waits ((labels ++ new).drop c.history.length) (c.snd.sendQueue ++ _)
    rw [List.drop_append_of_le_length h.length_le]
    exact List.rel_append h.2 hnew

end

end

end SrtGo.Core.Conn
