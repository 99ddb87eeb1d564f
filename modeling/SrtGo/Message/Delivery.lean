import SrtGo.Buffer.RecvMessages
import SrtGo.Lib.Delimited
import SrtGo.Transfer.Receiver

/-!
# Delivery of messages in order

In message mode a message is delivered when all of its packets are at the head of the
receive buffer.  The last packet of a message is marked, so that the messages can be read
back from the log of their fragments.  When every message is to be read in order, nothing
but the head of the buffer counts: the part of the buffer that looks for complete messages
further on stays idle.
-/

namespace SrtGo.Core

open Buffer Bytes SrtGo.Seq SrtGo.Delimited RecvBuffer

/-! ## Messages -/

def Fragment.isLast (f : Fragment) : Bool := f.position.isLast

/-- All fragments of one message that is to be read in order. -/
structure Whole (g : List Fragment) : Prop where
  ends : EndsAt Fragment.isLast g
  starts : ∀ f, g[0]? = some f → f.position = .first ∨ f.position = .single
  number : ∀ f ∈ g, ∀ f' ∈ g, f.number = f'.number
  order : ∀ f ∈ g, f.order = true

def tell (pos : ℕ) (g : List Fragment) : Event :=
  .dataReceived (g.flatMap Fragment.payload) (wrap pos) (g.headD default).number
    (g.headD default).position

/-- The events that tell of messages whose packets follow each other from the position
`pos` on. -/
def announce (pos : ℕ) : List (List Fragment) → List Event
  | [] => []
  | g :: gs => tell pos g :: announce (pos + g.length) gs

theorem announce_append (pos : ℕ) (gs hs : List (List Fragment)) :
    announce pos (gs ++ hs) = announce pos gs ++ announce (pos + gs.flatten.length) hs := by
  induction gs generalizing pos with
  | nil => rfl
  | cons g gs ih =>
    rw [List.cons_append, announce, announce, ih, List.flatten_cons, List.length_append,
      Nat.add_assoc]
    rfl

def FitMessages (log : List Fragment) : Prop :=
  ∃ messages : List (List Fragment), (∀ g ∈ messages, Whole g) ∧ log <+: messages.flatten

/-- The groups have been announced, and they are what the log has before the position
`start`. -/
structure Announced (isn : ℕ) (log : List Fragment) (start : ℕ) (rb : RecvBuffer)
    (events : List Event) (groups : List (List Fragment)) : Prop where
  whole : ∀ g ∈ groups, Whole g
  logged : groups.flatten <+: log
  start_eq : start = isn + groups.flatten.length
  told : events.filter Event.isData = announce isn groups
  counted : rb.numOutOfOrderPkts = 0
  first : rb.firstReadableOOO = none

def ToldMessages (isn : ℕ) (log : List Fragment) (start : ℕ) (rb : RecvBuffer)
    (events : List Event) :
    Prop :=
  ∃ groups, Announced isn log start rb events groups

variable {isn : ℕ} {log rest : List Fragment} {w : Window} {rb : RecvBuffer} {events : List Event}
  {groups : List (List Fragment)} {m : List Fragment}

/-! ## The buffer -/

theorem idle_takeMessage (count : ℕ) : ∀ {rb : RecvBuffer}, rb.numOutOfOrderPkts = 0 →
    rb.firstReadableOOO = none → (takeMessage count rb).1.numOutOfOrderPkts = 0 ∧
      (takeMessage count rb).1.firstReadableOOO = none := by
  induction count with
  | zero => exact fun hcounted hfirst => ⟨hcounted, hfirst⟩
  | succ count ih =>
    intro rb hcounted hfirst
    have huncount : rb.uncount (rb.entryAt rb.startSeq).pkt = rb := by
      rw [uncount, if_neg (by simp [hcounted])]
    refine ih ?_ ?_
    · rw [takeMessageHead, huncount]
      exact hcounted
    · rw [takeMessageHead, huncount]
      exact hfirst

theorem afterRead_eq (h : Shows rb w)
    (hhead : (w.cell w.start).state = .empty ∨ (w.cell w.start).state = .available)
    (hcounted : rb.numOutOfOrderPkts = 0) : rb.afterRead = rb := by
  have hupdate : rb.updateFirstReadableOutOfOrder = rb := by
    rw [updateFirstReadableOutOfOrder, if_pos (Or.inr (Or.inl (by rw [hcounted])))]
  unfold RecvBuffer.afterRead
  simp only [h.releaseFillerEntries_eq hhead, hupdate, ite_self]

theorem Announced.fragment_eq (hstate : RecvState isn log w rb)
    (h : Announced isn log w.start rb events groups)
    (hlog : log <+: groups.flatten ++ (m ++ rest)) {j : ℕ} (hj : j < m.length)
    (havailable : (w.cell (w.start + j)).state = .available) :
    m[j]? = some (Fragment.ofPacket (w.cell (w.start + j)).pkt) ∧
      (w.cell (w.start + j)).pkt.header.sequenceNumber = wrap (w.start + j) := by
  have hpos : w.start + j = isn + (groups.flatten.length + j) := by
    rw [h.start_eq, Nat.add_assoc]
  have hfilled := hstate.filled (groups.flatten.length + j) (by omega)
  rw [← hpos, havailable] at hfilled
  obtain ⟨-, hlogged, hseq⟩ := hfilled.resolve_left (by simp)
  have hnext := getElem?_of_prefix hlog hlogged
  rw [List.getElem?_append_right (Nat.le_add_right _ _), Nat.add_sub_cancel_left,
    List.getElem?_append_left hj] at hnext
  exact ⟨hnext, hseq⟩

section

variable (hm : Whole m) (hstate : RecvState isn log w rb)
    (h : Announced isn log w.start rb events groups) (hlog : log <+: groups.flatten ++ (m ++ rest))

include hm hstate h hlog

theorem Announced.lt_length_of_runs {msgNo b : ℕ} (hruns : Runs w.cell msgNo w.start b) :
    b - w.start < m.length := by
  by_contra hle
  have hpos := List.length_pos_iff.mpr hm.ends.ne_nil
  obtain ⟨havailable, -, hlast⟩ := hruns (w.start + (m.length - 1)) (by omega) (by omega)
  obtain ⟨hfragment, -⟩ := h.fragment_eq hstate hlog (by omega) havailable
  have hend : (Fragment.ofPacket (w.cell (w.start + (m.length - 1))).pkt).isLast = true :=
    (hm.ends.stop_iff hfragment).mpr (by omega)
  exact absurd (hend.symm.trans hlast) (by simp)

theorem Announced.readMessageInOrder (hhead : (w.cell w.start).state = .available) :
    rb.readMessageInOrder = (rb, none) ∨
      (∀ j < m.length, (w.cell (w.start + j)).state = .available) ∧
      rb.readMessageInOrder = ((takeMessage m.length rb).1.afterRead,
        some (takeMessage m.length rb).2) := by
  have hpos := List.length_pos_iff.mpr hm.ends.ne_nil
  obtain ⟨hfragment, -⟩ := h.fragment_eq hstate hlog hpos hhead
  have hends := hm.ends.stop_iff hfragment
  unfold RecvBuffer.readMessageInOrder
  simp only [hstate.window.entryAt_startSeq]
  rcases hm.starts _ hfragment with hfirst | hsingle
  · have hposition : (w.cell w.start).pkt.header.packetPosition = .first := hfirst
    have hscan := hstate.window.scanEnds_head (w.cell w.start).pkt.header.messageNumber
    simp only [hposition]
    split
    · exact Or.inl rfl
    · -- no fragment of the message has another number
      rename_i hcorrupted
      rw [hcorrupted] at hscan
      obtain ⟨b, hb, hruns, havailable, hnumber⟩ := hscan
      have hlt := h.lt_length_of_runs hm hstate hlog hruns
      have hcell : w.start + (b - w.start) = b := by omega
      obtain ⟨hother, -⟩ := h.fragment_eq hstate hlog hlt (by rw [hcell]; exact havailable)
      rw [hcell] at hother
      exact absurd (hm.number _ (List.mem_of_getElem? hother) _ (List.mem_of_getElem? hfragment))
        hnumber
    · rename_i count hcomplete
      rw [hcomplete] at hscan
      obtain ⟨b, hb, hcount, hruns, havailable, -, hlast⟩ := hscan
      have hlt := h.lt_length_of_runs hm hstate hlog hruns
      have hcell : w.start + (b - w.start) = b := by omega
      obtain ⟨hend, -⟩ := h.fragment_eq hstate hlog hlt (by rw [hcell]; exact havailable)
      rw [hcell] at hend
      have hlength := (hm.ends.stop_iff hend).mp hlast
      obtain rfl : count = m.length := by omega
      refine Or.inr ⟨fun j hj => ?_, rfl⟩
      rcases Nat.lt_or_ge (w.start + j) b with hbefore | hge
      · exact (hruns _ (by omega) hbefore).1
      · obtain rfl : b = w.start + j := by omega
        exact havailable
  · have hposition : (w.cell w.start).pkt.header.packetPosition = .single := hsingle
    have hlength : 0 + 1 = m.length := hends.mp (by rw [Fragment.isLast, hsingle]; rfl)
    simp only [hposition, ← hlength]
    refine Or.inr ⟨fun j hj => ?_, ?_⟩
    · obtain rfl : j = 0 := by omega
      exact hhead
    · simp only [takeMessage, hstate.window.entryAt_startSeq]

end

theorem Announced.pkts_eq (hstate : RecvState isn log w rb)
    (h : Announced isn log w.start rb events groups) (hlog : log <+: groups.flatten ++ (m ++ rest))
    (hall : ∀ j < m.length, (w.cell (w.start + j)).state = .available) :
    ((List.range' w.start m.length).map fun q => (w.cell q).pkt).map Fragment.ofPacket = m := by
  refine List.ext_getElem? fun j => ?_
  rw [List.map_map, List.getElem?_map]
  rcases Nat.lt_or_ge j m.length with hlt | hge
  · obtain ⟨hfragment, -⟩ := h.fragment_eq hstate hlog hlt (hall j hlt)
    rw [List.getElem?_range' hlt, hfragment, Nat.one_mul]
    rfl
  · rw [List.getElem?_eq_none hge, List.getElem?_eq_none (by rw [List.length_range']; exact hge)]
    rfl

theorem emitMessage_eq {σ : Type} (c : Conn σ) {pkts : List Packet} {p : Packet} {pos : ℕ}
    (hhead : pkts.head? = some p) (hseq : p.header.sequenceNumber = wrap pos) :
    (c.emitMessage pkts).events = c.events ++ [tell pos (pkts.map Fragment.ofPacket)] := by
  cases pkts with
  | nil => simp at hhead
  | cons q pkts =>
    obtain rfl : q = p := by simpa using hhead
    show c.events ++ [_] = _
    rw [tell, List.flatMap_map]
    simp only [List.headD_cons, List.map_cons, hseq]
    rfl

variable {σ : Type} {c : Conn σ}

/-- Reading once: nothing happens, or one more message is announced. -/
theorem ToldMessages.readMessage (hfit : FitMessages log)
    (hstate : RecvState isn log w c.rcv.recvBuf)
    (htold : ToldMessages isn log w.start c.rcv.recvBuf c.events) :
    c.rcv.recvBuf.readMessage = (c.rcv.recvBuf, none) ∨
    ∃ rb pkts w', c.rcv.recvBuf.readMessage = (rb, some pkts) ∧ RecvState isn log w' rb ∧
      ToldMessages isn log w'.start rb ((c.setRecvBuf rb).emitMessage pkts).events ∧
      Forward w w' := by
  obtain ⟨groups, h⟩ := htold
  obtain ⟨messages, hmessages, hlog⟩ := hfit
  have hshows := hstate.window
  unfold RecvBuffer.readMessage
  by_cases hhead : (w.cell w.start).state = .available
  swap
  · refine Or.inl ?_
    rw [if_neg (by simp [canReadInOrder, hshows.entryAt_startSeq, hhead]),
      if_neg (by simp [h.first])]
  rw [if_pos (by simp [canReadInOrder, hshows.entryAt_startSeq, hhead])]
  -- the groups announced so far are the first messages
  obtain ⟨later, hlater⟩ := prefix_of_flatten (fun g hg => (h.whole g hg).ends)
    (fun g hg => (hmessages g hg).ends) (h.logged.trans hlog)
  have hlogged : groups.flatten.length < log.length := by
    have hfilled := hstate.filled groups.flatten.length h.start_eq.le
    rw [← h.start_eq, hhead] at hfilled
    exact (List.getElem?_eq_some_iff.mp (hfilled.resolve_left (by simp)).2.1).1
  obtain ⟨m, later, rfl⟩ : ∃ m rest, later = m :: rest := by
    cases later with
    | nil =>
      have hle := hlog.length_le
      rw [← hlater, List.append_nil] at hle
      omega
    | cons m rest => exact ⟨m, rest, rfl⟩
  have hm : Whole m := hmessages m (by rw [← hlater]; simp)
  have hlog' : log <+: groups.flatten ++ (m ++ later.flatten) := by
    rw [← hlater, List.flatten_append, List.flatten_cons] at hlog
    exact hlog
  rcases h.readMessageInOrder hm hstate hlog' hhead with hnone | ⟨hall, hread⟩
  · exact Or.inl hnone
  refine Or.inr ?_
  have hpos := List.length_pos_iff.mpr hm.ends.ne_nil
  have hlast := hall (m.length - 1) (by omega)
  have hstop : w.start + m.length ≤ w.stop := by
    have := w.lt_stop_of_state (p := w.start + (m.length - 1)) (by rw [hlast]; simp)
    omega
  obtain ⟨hshows', hpkts⟩ := hshows.takeMessage_eq m.length hstop
  obtain ⟨hcounted, hfirst⟩ := idle_takeMessage m.length h.counted h.first
  -- the log reaches to the end of the message
  have hlength : w.start + m.length ≤ isn + log.length := by
    have hstart := h.start_eq
    have hfilled := hstate.filled (groups.flatten.length + (m.length - 1)) (by omega)
    rw [← Nat.add_assoc, ← hstart, hlast] at hfilled
    have := (List.getElem?_eq_some_iff.mp (hfilled.resolve_left (by simp)).2.1).1
    omega
  have hstate' : RecvState isn log (w.skip (w.start + m.length) hstop)
      (takeMessage m.length c.rcv.recvBuf).1 :=
    ⟨hshows', hstate.isn_le.trans (Nat.le_add_right _ _), hlength,
      fun i hi => hstate.filled i (le_trans (Nat.le_add_right _ _) hi)⟩
  have hafter : (takeMessage m.length c.rcv.recvBuf).1.afterRead =
      (takeMessage m.length c.rcv.recvBuf).1 := by
    refine afterRead_eq hshows' ?_ hcounted
    obtain ⟨i, hi⟩ := Nat.exists_eq_add_of_le hstate'.isn_le
    rw [hi]
    exact (hstate'.filled i hi.le).imp_right And.left
  rw [hread, hafter]
  refine ⟨_, _, w.skip (w.start + m.length) hstop, rfl, hstate', ⟨groups ++ [m], ?_⟩,
    forward_skip w (Nat.le_add_right _ _) hstop⟩
  have hflatten : (groups ++ [m]).flatten = groups.flatten ++ m := by simp
  refine ⟨fun g hg => ?_, ?_, ?_, ?_, hcounted, hfirst⟩
  · rcases List.mem_append.mp hg with hold | hnew
    · exact h.whole g hold
    · rw [List.mem_singleton.mp hnew]
      exact hm
  · rw [hflatten]
    have hnext : groups.flatten ++ m <+: groups.flatten ++ (m ++ later.flatten) := by
      rw [← List.append_assoc]
      exact List.prefix_append _ _
    refine List.prefix_of_prefix_length_le hnext hlog' ?_
    · rw [List.length_append]
      have := h.start_eq
      omega
  · rw [hflatten, List.length_append, ← Nat.add_assoc, ← h.start_eq]
    rfl
  · have hfragments := h.pkts_eq hstate hlog' hall
    rw [← hpkts] at hfragments
    have hfront : (takeMessage m.length c.rcv.recvBuf).2.head? =
        some (w.cell w.start).pkt := by
      obtain ⟨k, hk⟩ := Nat.exists_eq_add_of_le' hpos
      rw [hpkts, hk, List.range'_succ]
      rfl
    rw [emitMessage_eq _ hfront (h.fragment_eq hstate hlog' hpos hhead).2, hfragments,
      List.filter_append, announce_append, ← h.start_eq]
    exact congrArg (· ++ [tell w.start m]) h.told

theorem ToldMessages.deliverMessagesLoop (hfit : FitMessages log) (fuel : ℕ) :
    ∀ {c : Conn σ} {w : Window}, RecvState isn log w c.rcv.recvBuf →
    ToldMessages isn log w.start c.rcv.recvBuf c.events →
    ∃ w', RecvState isn log w' (Conn.deliverMessagesLoop fuel c).rcv.recvBuf ∧
      ToldMessages isn log w'.start (Conn.deliverMessagesLoop fuel c).rcv.recvBuf
        (Conn.deliverMessagesLoop fuel c).events ∧ Forward w w' := by
  induction fuel with
  | zero => exact fun hstate htold => ⟨_, hstate, htold, Forward.refl _⟩
  | succ fuel ih =>
    intro c w hstate htold
    rw [Conn.deliverMessagesLoop]
    rcases ToldMessages.readMessage hfit hstate htold with
      hnone | ⟨rb, pkts, w', hread, hstate', htold', hforward⟩
    · rw [hnone]
      exact ⟨w, hstate, htold, Forward.refl w⟩
    · rw [hread]
      obtain ⟨w'', hstate'', htold'', hforward'⟩ :=
        ih (c := (c.setRecvBuf rb).emitMessage pkts) hstate' htold'
      exact ⟨w'', hstate'', htold'', hforward.trans hforward'⟩

def Discipline.messages : Discipline where
  message := true
  Fit := FitMessages
  Told := ToldMessages
  fit_prefix := by
    rintro log log' ⟨messages, hwhole, hlog⟩ hprefix
    exact ⟨messages, hwhole, hprefix.trans hlog⟩
  mono := by
    rintro isn log log' start rb events ⟨groups, h⟩ hprefix
    exact ⟨groups, { h with logged := h.logged.trans hprefix }⟩
  news := by
    rintro isn log start rb events e ⟨groups, h⟩ he
    refine ⟨groups, { h with told := ?_ }⟩
    rw [List.filter_append, h.told]
    simp [he]
  store := by
    rintro isn log start rb events p ⟨groups, h⟩ ⟨messages, hwhole, hlog⟩ hp now
    obtain ⟨g, hg, hp⟩ := List.mem_flatten.mp (hlog.subset hp)
    have horder : p.header.order = true := (hwhole g hg).order _ hp
    have hstore : rb.store p now = rb.fill p now := by
      rw [RecvBuffer.store, if_neg (by simp [horder])]
    exact ⟨groups, h.whole, h.logged, h.start_eq, h.told, by rw [hstore]; exact h.counted,
      by rw [hstore]; exact h.first⟩
  deliver := by
    intro σ c isn log w htimer hmode hfit hstate htold now
    have hmessages : c.deliverNow now = c.deliverMessages := by
      rw [Conn.deliverNow, htimer, hmode]
      rfl
    rw [hmessages]
    exact ToldMessages.deliverMessagesLoop hfit _ hstate htold

end SrtGo.Core
