import SrtGo.Transfer.Receiver

/-!
# Delivery of a byte stream

In stream mode a packet is delivered as soon as it is at the head of the receive buffer, so
that the payloads that have been delivered are a first part of the log.
-/

namespace SrtGo.Core

open Buffer Bytes SrtGo.Seq

def Event.payload? : Event → Option Bytes
  | .dataReceived payload _ _ _ => some payload
  | _ => none

def delivered (events : List Event) : List Bytes := events.filterMap Event.payload?

theorem delivered_append (es es' : List Event) : delivered (es ++ es') = delivered es ++
    delivered es' :=
  List.filterMap_append

theorem delivered_of_not_isData {e : Event} (he : e.isData = false) : delivered [e] = [] := by
  cases e with
  | dataReceived payload seqNo msgNo boundary => simp [Event.isData] at he
  | _ => rfl

/-- What has been delivered is what the log has before the position `start`. -/
def ToldPackets (isn : ℕ) (log : List Fragment) (start : ℕ) (_ : RecvBuffer)
    (events : List Event) : Prop :=
  start = isn + (delivered events).length ∧ delivered events <+: log.map Fragment.payload

variable {σ : Type} {isn : ℕ} {log : List Fragment} {w : Window} {c : Conn σ}

theorem ToldPackets.emitData (hstate : RecvState isn log w c.rcv.recvBuf)
    (htold : ToldPackets isn log w.start c.rcv.recvBuf c.events) {rb : RecvBuffer} {p : Packet}
    (hread : c.rcv.recvBuf.readNext = (rb, some p)) :
    ∃ w', RecvState isn log w' rb ∧
      ToldPackets isn log w'.start rb ((c.setRecvBuf rb).emitData p).events ∧
      Forward w w' := by
  obtain ⟨hstart, hprefix⟩ := htold
  unfold RecvBuffer.readNext at hread
  split_ifs at hread with hhead
  swap
  · exact absurd (congrArg Prod.snd hread) (by simp)
  obtain ⟨rfl, rfl⟩ : c.rcv.recvBuf.takeHead = rb ∧
      (c.rcv.recvBuf.entryAt c.rcv.recvBuf.startSeq).pkt = p := by simpa using hread
  have havailable : (w.cell w.start).state = .available := by
    rw [← hstate.window.entryAt_startSeq]
    exact of_decide_eq_true hhead
  have hlt : w.start < w.stop := w.lt_stop_of_state (by rw [havailable]; simp)
  -- the head is the next fragment of the log
  have hnext : log[(delivered c.events).length]? =
      some (Fragment.ofPacket (w.cell w.start).pkt) := by
    have hfilled := hstate.filled (delivered c.events).length hstart.le
    rw [← hstart, havailable] at hfilled
    simpa using hfilled.resolve_left (by simp) |>.2.1
  have hlength := (List.getElem?_eq_some_iff.mp hnext).1
  have hdelivered : delivered ((c.setRecvBuf c.rcv.recvBuf.takeHead).emitData
      (c.rcv.recvBuf.entryAt c.rcv.recvBuf.startSeq).pkt).events =
      delivered c.events ++ [(w.cell w.start).pkt.data] := by
    rw [← hstate.window.entryAt_startSeq]
    exact List.filterMap_append
  refine ⟨w.skip (w.start + 1) hlt, ⟨hstate.window.skip_succ hlt (RecvBuffer.passes_takeHead _), ?_,
    ?_, fun i hi => ?_⟩,
    ⟨?_, ?_⟩, forward_skip w (Nat.le_succ _) hlt⟩
  · exact hstate.isn_le.trans (Nat.le_succ _)
  · show w.start + 1 ≤ isn + log.length
    omega
  · exact hstate.filled i (le_trans (Nat.le_succ _) hi)
  · rw [hdelivered, List.length_append, List.length_singleton, ← Nat.add_assoc, ← hstart]
    rfl
  · rw [hdelivered]
    obtain ⟨rest, hrest⟩ := hprefix
    have hhead : (log.map Fragment.payload)[(delivered c.events).length]? =
        some (w.cell w.start).pkt.data := by
      rw [List.getElem?_map, hnext]
      rfl
    rw [← hrest, List.getElem?_append_right le_rfl, Nat.sub_self] at hhead
    obtain ⟨tail, rfl⟩ : ∃ tail, rest = (w.cell w.start).pkt.data :: tail := by
      cases rest with
      | nil => simp at hhead
      | cons x tail => exact ⟨tail, by simpa using hhead⟩
    exact ⟨tail, by rw [← hrest, List.append_assoc]; rfl⟩

theorem ToldPackets.deliverLoop (fuel : ℕ) : ∀ {c : Conn σ} {w : Window},
    RecvState isn log w c.rcv.recvBuf → ToldPackets isn log w.start c.rcv.recvBuf c.events →
    ∃ w', RecvState isn log w' (Conn.deliverLoop fuel c).rcv.recvBuf ∧
      ToldPackets isn log w'.start (Conn.deliverLoop fuel c).rcv.recvBuf
        (Conn.deliverLoop fuel c).events ∧ Forward w w' := by
  induction fuel with
  | zero => exact fun hstate htold => ⟨_, hstate, htold, Forward.refl _⟩
  | succ fuel ih =>
    intro c w hstate htold
    rw [Conn.deliverLoop]
    split
    · exact ⟨w, hstate, htold, Forward.refl w⟩
    · rename_i rb p hread
      obtain ⟨w', hstate', htold', hforward⟩ := ToldPackets.emitData hstate htold hread
      obtain ⟨w'', hstate'', htold'', hforward'⟩ :=
        ih (c := (c.setRecvBuf rb).emitData p) hstate' htold'
      exact ⟨w'', hstate'', htold'', hforward.trans hforward'⟩

def Discipline.stream : Discipline where
  message := false
  Fit _ := True
  Told := ToldPackets
  fit_prefix _ _ := trivial
  mono h hlog := ⟨h.1, h.2.trans (hlog.map _)⟩
  news h he := by
    unfold ToldPackets
    rw [delivered_append, delivered_of_not_isData he, List.append_nil]
    exact h
  store h _ _ _ := h
  deliver := by
    intro σ c isn log w htimer hmode _ hstate htold now
    have hstream : c.deliverNow now = c.deliver := by
      rw [Conn.deliverNow, htimer, hmode]
      rfl
    rw [hstream]
    exact ToldPackets.deliverLoop _ hstate htold

end SrtGo.Core
