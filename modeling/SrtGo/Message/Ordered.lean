import SrtGo.Crypto.XorCipher
import SrtGo.Message.Delivery
import SrtGo.Transfer.Network

/-!
# End-to-end transfer of messages in order

Two connections in message mode are joined by a network that may lose, duplicate and
reorder.  What the application of one side hears is at every moment a first part of what
was written on the other side, message by message: the bytes of the message, its number,
the sequence number of its first packet, and whether it came in one packet.

The network and its invariant are those of `Transfer/Network`, and the account of what was
written is kept by message: the fragments that were posted are those of the messages, each
cut under its own number.

The numbers of messages have 26 bits and leave out zero, so that the `k`-th message, counted
from zero, has the number `messageNumber k`.  They repeat, and so do sequence numbers, in
runs of any length.
-/

namespace SrtGo.Core

open Buffer Bytes Congestion Crypto SrtGo.Seq SrtGo.Delimited Function

/-! ## What should be heard -/

def messageNumber (k : ℕ) : ℕ := k % (2 ^ 26 - 1) + 1

def packetCount (size : ℕ) (written : List Bytes) : ℕ :=
  (written.map fun payload => (pieces size payload).length).sum

/-- The events that tell of all messages written, when the packets are numbered from `isn`
on and carry at most `size` bytes. -/
def announcements (size isn : ℕ) (written : List Bytes) : List Event :=
  written.mapIdx fun k payload => .dataReceived payload
    (wrap (isn + packetCount size (written.take k))) (messageNumber k)
    (if (pieces size payload).length = 1 then .single else .first)

/-! ## The fragments of messages -/

theorem nextMsgNo_messageNumber (k : ℕ) : nextMsgNo (messageNumber k) = messageNumber (k + 1) := by
  have hmask : (messageNumber k + 1) &&& 0x03FFFFFF = (messageNumber k + 1) % 2 ^ 26 :=
    Nat.and_two_pow_sub_one_eq_mod _ 26
  unfold nextMsgNo
  simp only [hmask]
  unfold messageNumber
  split_ifs <;> omega

def letters (size : ℕ) (written : List Bytes) : List (List Fragment) :=
  written.mapIdx fun k payload => cut size (messageNumber k) true payload

theorem letters_concat (size : ℕ) (written : List Bytes) (payload : Bytes) :
    letters size (written ++ [payload]) =
      letters size written ++ [cut size (messageNumber written.length) true payload] :=
  List.mapIdx_concat

theorem length_cut (size number : ℕ) (order : Bool) (payload : Bytes) :
    (cut size number order payload).length = (pieces size payload).length := by
  rw [← cut_payload size number order payload, List.length_map]

variable {size : ℕ}

theorem getElem?_cut {number : ℕ} {order : Bool} {payload : Bytes} {i : ℕ} {f : Fragment}
    (hf : (cut size number order payload)[i]? = some f) : f.number = number ∧ f.order = order ∧
      f.position = fragmentPosition (i = 0) (i + 1 = (cut size number order payload).length) := by
  rw [length_cut]
  unfold cut at hf
  unfold pieces
  split_ifs at hf ⊢ with hsingle
  · have hi : i < 1 := (List.getElem?_eq_some_iff.mp hf).1
    obtain rfl : i = 0 := by omega
    obtain rfl := Option.some.inj hf
    exact ⟨rfl, rfl, rfl⟩
  · rw [List.getElem?_mapIdx] at hf
    obtain ⟨piece, -, rfl⟩ := Option.map_eq_some_iff.mp hf
    exact ⟨rfl, rfl, rfl⟩

theorem fragmentPosition_first (isLast : Bool) :
    fragmentPosition true isLast = if isLast = true then .single else .first := by
  cases isLast <;> rfl

theorem whole_cut (size number : ℕ) (payload : Bytes) : Whole (cut size number true payload) := by
  have hne : cut size number true payload ≠ [] := by
    rw [← List.length_pos_iff, length_cut, List.length_pos_iff]
    exact pieces_ne_nil size payload
  refine ⟨EndsAt.of_stop_iff hne fun i f hf => ?_, fun f hf => ?_, fun f hf f' hf' => ?_,
    fun f hf => ?_⟩
  · rw [Fragment.isLast, (getElem?_cut hf).2.2, isLast_fragmentPosition, decide_eq_true_iff]
  · rw [(getElem?_cut hf).2.2, decide_eq_true rfl, fragmentPosition_first]
    split_ifs <;> simp
  · obtain ⟨i, hi⟩ := List.mem_iff_getElem?.mp hf
    obtain ⟨j, hj⟩ := List.mem_iff_getElem?.mp hf'
    rw [(getElem?_cut hi).1, (getElem?_cut hj).1]
  · obtain ⟨i, hi⟩ := List.mem_iff_getElem?.mp hf
    exact (getElem?_cut hi).2.1

theorem tell_cut (size number pos : ℕ) (payload : Bytes) :
    tell pos (cut size number true payload) = .dataReceived payload (wrap pos) number
      (if (pieces size payload).length = 1 then .single else .first) := by
  have hbytes : (cut size number true payload).flatMap Fragment.payload = payload := by
    rw [List.flatMap_def, cut_payload, flatten_pieces]
  obtain ⟨f, rest, hcut⟩ := List.exists_cons_of_ne_nil (whole_cut size number payload).ends.ne_nil
  have hhead : (cut size number true payload)[0]? = some f := by
    rw [hcut]
    rfl
  obtain ⟨hnumber, -, hposition⟩ := getElem?_cut hhead
  have hheadD : (cut size number true payload).headD default = f := by
    rw [hcut]
    rfl
  rw [tell, hbytes, hheadD, hnumber, hposition, length_cut, decide_eq_true rfl,
    fragmentPosition_first]
  simp only [decide_eq_true_iff, Nat.zero_add, @eq_comm ℕ 1]

theorem length_flatten_letters (size : ℕ) (written : List Bytes) :
    (letters size written).flatten.length = packetCount size written := by
  induction written using List.reverseRecOn with
  | nil => rfl
  | append_singleton written payload ih =>
    rw [letters_concat, List.flatten_append, List.length_append, ih, List.flatten_singleton,
      length_cut, packetCount, packetCount, List.map_append, List.sum_append]
    simp

/-- What the fragments of the messages tell is what should be heard. -/
theorem announce_letters (size isn : ℕ) (written : List Bytes) :
    announce isn (letters size written) = announcements size isn written := by
  induction written using List.reverseRecOn with
  | nil => rfl
  | append_singleton written payload ih =>
    rw [letters_concat, announce_append, ih, length_flatten_letters]
    unfold announcements
    rw [List.mapIdx_concat, announce, announce, tell_cut, List.take_left]
    congr 1
    refine List.ext_getElem? fun k => ?_
    rw [List.getElem?_mapIdx, List.getElem?_mapIdx]
    rcases Nat.lt_or_ge k written.length with hlt | hge
    · rw [List.take_append_of_le_length hlt.le]
    · rw [List.getElem?_eq_none hge]
      rfl

variable {σ : Type} {written : List Bytes}

/-- The application of `y` has heard a first part of what was written to `x`. -/
def HearsInOrder (isn : ℕ) (x y : Party σ) : Prop :=
  y.conn.events.filter Event.isData <+: announcements x.conn.params.payloadSize isn x.written

instance (isn : ℕ) (x y : Party σ) : Decidable (HearsInOrder isn x y) :=
  inferInstanceAs (Decidable (_ <+: _))

/-! ## The invariant -/

def lastNumber (n : ℕ) : ℕ := if n = 0 then 0 else messageNumber (n - 1)

theorem nextMsgNo_lastNumber (n : ℕ) : nextMsgNo (lastNumber n) = messageNumber n := by
  unfold lastNumber
  split_ifs with hzero
  · rw [hzero]
    decide
  · rw [nextMsgNo_messageNumber, Nat.sub_add_cancel (by omega)]

/-- What has been given to a side is the messages that were written to it. -/
def Mailed (size : ℕ) (written : List Bytes) (posted : Posted) : Prop :=
  posted.frames = (letters size written).flatten ∧ posted.number = lastNumber written.length

theorem whole_of_mem_letters {g : List Fragment} (hg : g ∈ letters size written) : Whole g := by
  obtain ⟨k, hk, rfl⟩ := List.mem_mapIdx.mp hg
  exact whole_cut _ _ _

def messageAccount : Account .messages where
  Records := Mailed
  nil _ := ⟨rfl, rfl⟩
  concat := by
    intro size written posted h payload
    rw [h.2, nextMsgNo_lastNumber]
    refine ⟨?_, ?_⟩
    · rw [Posted.add, h.1, letters_concat, List.flatten_append, List.flatten_singleton]
    · rw [Posted.add, lastNumber, List.length_append, List.length_singleton]
      rfl
  fit := by
    intro size written posted h
    exact ⟨letters size written, fun _ => whole_of_mem_letters, by rw [h.1]⟩

/-- Under the invariant, what an application hears is a first part of what was written. -/
theorem Link.Holds.hearsInOrder {isn : Bool → ℕ} {l : Link σ} {posted : Bool → Posted}
    {s : Bool → ℕ} {w : Bool → Window} (h : Link.Holds messageAccount isn l posted s w)
    (x : Bool) : HearsInOrder (isn x) (l x) (l !x) := by
  have hend := h.linked.endpoint x
  have hother := h.linked.endpoint (!x)
  have hmailed : Mailed _ _ _ := h.records x
  rw [Bool.not_not] at hother
  obtain ⟨groups, hannounced⟩ := hother.receives.told
  have hlogged := hannounced.logged.trans hend.sends.log_prefix
  rw [hmailed.1] at hlogged
  -- both sides of the prefix are whole messages, so that it is one of messages
  obtain ⟨later, hlater⟩ := prefix_of_flatten (fun g hg => (hannounced.whole g hg).ends)
    (fun g hg => (whole_of_mem_letters hg).ends) hlogged
  refine ⟨announce (isn x + groups.flatten.length) later, ?_⟩
  rw [hannounced.told, ← announce_append, hlater, announce_letters]

section
variable [Controller σ] [Primitives]

/-- **Messages arrive in order.**  Whatever messages are written, whatever timers fire, and
whatever the network loses, duplicates and reorders: as long as no packet arrives `2 ^ 30`
numbers late, each side has heard at every moment a first part of the messages that were
written to the other. -/
theorem messages_in_order (cc : Bool → σ) (now : Bool → ℤ) (ep : Bool → EstablishParams)
    (hpair : PlainPair true ep) (hsized : ∀ x, Sized (ep x)) (as : List LinkAction)
    (htimely : Run.AllSteps Link.step Link.Timely (Link.new cc now ep) as) :
    Run.AllStates Link.step (fun l => ∀ x, HearsInOrder (ep x).sendISN (l x) (l !x))
      (Link.new cc now ep) as := by
  have htold : ∀ x, Discipline.messages.Told (ep !x).sendISN [] (ep !x).sendISN
      (Conn.establish (cc x) (now x) (ep x)).rcv.recvBuf [] := by
    intro x
    rw [Conn.establish_eq]
    exact ⟨[], by simp, List.nil_prefix, rfl, rfl, rfl, rfl⟩
  refine (Link.holds_run messageAccount hpair hsized cc now htold htimely).mono ?_
  rintro l ⟨posted, s, w, h⟩ x
  exact h.hearsInOrder x

end

section Examples

open scoped XorCipher

/-- Two connections with packets of two bytes, whose numbers are about to wrap around in one
direction. -/
def letterPair : Bool → EstablishParams
  | true => { sendISN := 2 ^ 31 - 1, recvISN := 5, message := true, payloadSize := 2 }
  | false => { sendISN := 5, recvISN := 2 ^ 31 - 1, message := true, payloadSize := 2 }

/-- A message of two packets and an empty one: the packets arrive in the wrong order, and
one of them twice. -/
def shuffledMessages : List LinkAction :=
  [.write true 0 [1, 2, 3] 0, .timer true 100000 .sndPacing, .write true 200000 [] 0,
    .deliver false 250000 2, .deliver false 260000 1, .deliver false 270000 2,
    .deliver false 280000 0, .timer false 290000 .ack, .deliver true 300000 0]

theorem messages_in_order_shuffled :
    Run.AllStates Link.step
      (fun l => ∀ x, HearsInOrder (letterPair x).sendISN (l x) (l !x))
      (Link.new (fun _ => LiveCC.new 0 0) (fun _ => 0) letterPair) shuffledMessages ∧
    (Run.exec Link.step
      (Link.new (fun _ => LiveCC.new 0 0) (fun _ => 0) letterPair)
      shuffledMessages false).conn.events =
      [.dataReceived [1, 2, 3] (2 ^ 31 - 1) 1 .first, .dataReceived [] 1 2 .single] := by
  refine ⟨messages_in_order _ _ _ ⟨?_, ?_, ?_, ?_, ?_, ?_⟩ ?_ _
    (by decide +kernel), by decide +kernel⟩
  · decide
  · decide
  · exact fun x => by cases x <;> rfl
  · decide
  · decide
  · decide
  · exact fun x => by cases x <;> exact ⟨by decide, by decide, by decide⟩

def hugeLetterPair (_ : Bool) : EstablishParams := { flowWindow := 2 ^ 32 + 1, message := true }

/-- With such a window the size of the ring is no power of two, and its mask maps the first
two packets to one slot: the second message, which arrives first, is taken for the head of
the buffer and delivered first. -/
theorem messages_swapped_huge_window :
    PlainPair true hugeLetterPair ∧
    Run.AllSteps Link.step Link.Timely
      (Link.new (fun _ => LiveCC.new 0 0) (fun _ => 0) hugeLetterPair)
      [.write true 0 [1] 0, .write true 100000 [2] 0, .deliver false 150000 1] ∧
    ¬Run.AllStates Link.step
      (fun l => ∀ x, HearsInOrder (hugeLetterPair x).sendISN (l x) (l !x))
      (Link.new (fun _ => LiveCC.new 0 0) (fun _ => 0) hugeLetterPair)
      [.write true 0 [1] 0, .write true 100000 [2] 0, .deliver false 150000 1] := by
  refine ⟨⟨by decide, by decide, fun _ => rfl, by decide, by decide, by decide⟩,
    by decide +kernel, fun h => ?_⟩
  have hheard := h.exec true
  revert hheard
  decide +kernel

end Examples

end SrtGo.Core
