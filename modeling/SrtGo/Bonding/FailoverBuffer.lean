import Mathlib.Data.List.TakeWhile
import SrtGo.Bonding.GroupRun
import SrtGo.Bonding.LockDiscipline
import SrtGo.Core.Step
import SrtGo.Crypto.XorCipher

/-!
# What the failover buffer forgets

A backup group keeps the messages it has sent, so that the next standby link can send them again:
when no active link takes a message, the standby link that takes it is handed the whole buffer
first.  Before the group keeps one more, it forgets those at the head of the buffer that a link
has delivered.  How far a link has come it learns from the connection, and there it asks for the
wrong side: the number it gets is the one up to which the connection has *received* the stream of
its peer, not the one up to which the peer has acknowledged.

Here the connections stand behind the links.  Each takes inputs of its own, and the
acknowledgements that its peer has sent are on record.  Where no link has received further
than its peer has acknowledged, the group forgets only what is acknowledged.
-/

namespace SrtGo.Bonding

open Bytes SrtGo.Seq SrtGo.Core Congestion Crypto Run MemberConn

/-! ## Connections behind the links -/

/-- The connection of a member, with the acknowledgements it has heard. -/
structure Line (σ : Type) where
  conn : Conn σ
  acks : List ℕ := []

def acknowledges : Input → Option ℕ
  | .packet _ p =>
    if p.header.isControl ∧ p.header.controlType = .ack then
      match CIFACK.unmarshalCIF p.data with
      | .ok ack => some ack.lastACKPacketSequenceNumber
      | .error _ => none
    else none
  | _ => none

namespace Line

variable {σ : Type}

/-- Where the connection asks its peer to go on: the group reads this as progress. -/
def ackSeqNo (l : Line σ) : ℕ := l.conn.rcv.recvBuf.ackSequence

def Acknowledged (l : Line σ) (s : ℕ) : Prop := ∃ a ∈ l.acks, lessThan s a = true

instance (l : Line σ) (s : ℕ) : Decidable (l.Acknowledged s) :=
  inferInstanceAs (Decidable (∃ a ∈ l.acks, lessThan s a = true))

/-- One input of the connection.  A closed connection hears nothing. -/
def step [Controller σ] [Primitives] (l : Line σ) (i : Input) : Line σ :=
  { conn := l.conn.step i
    acks := if l.conn.closed then l.acks else l.acks ++ (acknowledges i).toList }

end Line

/-- A group with the connections of its members, in the order in which they join. -/
structure Bundle (σ : Type) where
  bond : Bond
  lines : ℕ → Line σ

inductive BundleEvent where
  | group (e : GroupEvent)
  | line (serial : ℕ) (i : Input)

namespace Bundle

variable {σ : Type}

/-- The group reads the progress of its members. -/
def consult (x : Bundle σ) : Bond :=
  { x.bond with
    group := { x.bond.group with
      members := x.bond.group.members.map fun mc =>
        { mc with conn := { mc.conn with ackSeqNo := (x.lines mc.serial).ackSeqNo } } } }

def step [Controller σ] [Primitives] [SortFunc] (x : Bundle σ) : BundleEvent → Bundle σ
  | .group e => { x with bond := x.consult.step e }
  | .line serial i => { x with lines := Function.update x.lines serial ((x.lines serial).step i) }

end Bundle

/-! ## The stages of a call -/

/-- A member later in the same call: it reports the same progress, and stays broken. -/
structure Ages (mc mc' : MemberConn) : Prop where
  serial : mc'.serial = mc.serial
  ackSeqNo : mc'.conn.ackSeqNo = mc.conn.ackSeqNo
  broken : mc.status = .broken → mc'.status = .broken

theorem Ages.refl (mc : MemberConn) : Ages mc mc := ⟨rfl, rfl, id⟩

theorem Ages.trans {a b c : MemberConn} (h : Ages a b) (h' : Ages b c) : Ages a c :=
  ⟨h'.serial.trans h.serial, h'.ackSeqNo.trans h.ackSeqNo, fun hb => h'.broken (h.broken hb)⟩

/-- The group at a later point of the same call, before it touches the buffer. -/
structure Stage (g g' : Group) : Prop where
  senderBuf : g'.senderBuf = g.senderBuf
  senderBufCap : g'.senderBufCap = g.senderBufCap
  members : ∀ (i : ℕ) mc', g'.members[i]? = some mc' → ∃ mc, g.members[i]? = some mc ∧ Ages mc mc'

namespace Link

theorem ackSeqNo_ship (l : Link) : l.ship.ackSeqNo = l.ackSeqNo := by
  unfold ship
  split <;> rfl

theorem ackSeqNo_pump (l : Link) (n : ℕ) : (l.pump n).ackSeqNo = l.ackSeqNo := by
  induction n generalizing l with
  | zero => rfl
  | succ n ih => exact (ih l.ship).trans l.ackSeqNo_ship

theorem ackSeqNo_write (l : Link) (p : Parcel) : (l.write p).1.ackSeqNo = l.ackSeqNo := by
  unfold write
  split
  · rfl
  · refine (ackSeqNo_pump _ _).trans ?_
    simp only
    split_ifs <;> rfl

theorem ackSeqNo_renumber (l : Link) (curseq : Option ℕ) :
    (l.renumber curseq).ackSeqNo = l.ackSeqNo := by
  cases curseq with
  | none => rfl
  | some s =>
    unfold renumber
    simp only
    split_ifs <;> rfl

theorem ackSeqNo_writeAll (l : Link) (ps : List Parcel) :
    (l.writeAll ps).ackSeqNo = l.ackSeqNo := by
  unfold writeAll
  induction ps generalizing l with
  | nil => rfl
  | cons p ps ih => exact (ih _).trans (l.ackSeqNo_write p)

end Link

namespace Stage

variable {g₀ g g' g'' : Group} {i : ℕ} {p : Parcel}

theorem trans (h : Stage g g') (h' : Stage g' g'') : Stage g g'' := by
  refine ⟨h'.senderBuf.trans h.senderBuf, h'.senderBufCap.trans h.senderBufCap, fun i mc hmc => ?_⟩
  obtain ⟨mc', hmc', hages'⟩ := h'.members i mc hmc
  obtain ⟨mc'', hmc'', hages⟩ := h.members i mc' hmc'
  exact ⟨mc'', hmc'', hages.trans hages'⟩

theorem standbySend (h : Stage g₀ g) (hi : ∀ mc, g₀.members[i]? = some mc → mc.status ≠ .broken)
    (now : ℤ) (p : Parcel)
    (t : Tally) : Stage g₀ (g.modifyMember i (Group.standbySend now p g t)) := by
  refine ⟨h.senderBuf, h.senderBufCap, fun j mc' hmc' => ?_⟩
  rw [Group.getElem?_modifyMember, Option.map_eq_some_iff] at hmc'
  obtain ⟨mc, hmc, rfl⟩ := hmc'
  obtain ⟨mc₀, hmc₀, hages⟩ := h.members j mc hmc
  refine ⟨mc₀, hmc₀, ?_⟩
  split_ifs with hij
  · have hready : (g.readied t mc.conn).ackSeqNo = mc.conn.ackSeqNo := by
      unfold Group.readied
      split_ifs
      · rw [Link.ackSeqNo_writeAll, Link.ackSeqNo_renumber]
      · exact Link.ackSeqNo_renumber _ _
    have hsent := ((g.readied t mc.conn).ackSeqNo_write p).trans (hready.trans hages.ackSeqNo)
    unfold Group.standbySend afterSend
    simp only
    split_ifs
    all_goals exact ⟨hages.serial, hsent, fun hbroken => absurd hbroken (hi mc₀ (hij ▸ hmc₀))⟩
  · exact hages

theorem qualifyMembers (g : Group) (now : ℤ) : Stage g (g.qualifyMembers now) := by
  refine ⟨rfl, rfl, fun i mc' hmc' => ?_⟩
  rw [Group.qualifyMembers, List.getElem?_map, Option.map_eq_some_iff] at hmc'
  obtain ⟨mc, hmc, rfl⟩ := hmc'
  refine ⟨mc, hmc, ?_⟩
  split_ifs
  · refine ⟨?_, ?_, ?_⟩ <;> unfold requalify assignBackupState <;> simp only <;> split <;> simp
  · exact Ages.refl mc

end Stage

/-! ## What a call does to the buffer -/

namespace Group

variable {g₀ g g' : Group} {i : ℕ} {p : Parcel} {t t' : Tally} {l : List ℕ}

variable {now : ℤ}

variable {mc : MemberConn}

variable {b : Bytes}

end Group

/-! ## Runs -/

namespace Bundle

variable {σ : Type} {x : Bundle σ}

def new (isn : ℕ) (conns : ℕ → Conn σ) : Bundle σ :=
  ⟨Bond.new .backup isn, fun serial => { conn := conns serial }⟩

/-- No member that is not broken has received the stream of its peer further than its peer has
acknowledged what the group keeps. -/
def KeepsPace (x : Bundle σ) : BundleEvent → Prop
  | .group (.write _ _) =>
    ∀ mc ∈ x.bond.group.members, mc.status ≠ .broken → ∀ m ∈ x.bond.group.senderBuf,
      lessThan m.seqNo (x.lines mc.serial).ackSeqNo = true →
        (x.lines mc.serial).Acknowledged m.seqNo
  | _ => True

instance decidableKeepsPace (x : Bundle σ) : ∀ e, Decidable (x.KeepsPace e)
  | .group (.write _ _) =>
    inferInstanceAs (Decidable (∀ mc ∈ x.bond.group.members, mc.status ≠ .broken →
      ∀ m ∈ x.bond.group.senderBuf, lessThan m.seqNo (x.lines mc.serial).ackSeqNo = true →
        (x.lines mc.serial).Acknowledged m.seqNo))
  | .group (.addConn _ _ _ _) | .group (.connect _ _ _ _) | .group (.monitor _) | .group
    (.received _ _)
  | .group (.ship _) | .group (.shipGone _) | .group (.observe _ _ _ _ _) | .line _ _ =>
    isTrue trivial

variable [Controller σ] [Primitives] [SortFunc]

/-- A step leaves the buffer of a backup group as it is, or it keeps one message more.  Then
the group has forgotten before, at some stage of the call, messages at the head of the
buffer, each of which the peer of a member that was not broken had acknowledged; and the
excess over the capacity is dropped. -/
def ForgetsAcknowledged (x : Bundle σ) (e : BundleEvent) : Prop :=
  (x.step e).bond.group.senderBuf = x.bond.group.senderBuf ∨
    ∃ g g' k entry, Stage x.consult.group g ∧ g.pruneAckedMessages = some g' ∧
      g'.senderBuf = g.senderBuf.drop k ∧
      (∀ m ∈ g.senderBuf.take k, ∃ mc ∈ g.members,
        mc.status ≠ .broken ∧ (x.lines mc.serial).Acknowledged m.seqNo) ∧
      (x.step e).bond.group.senderBuf =
        (g'.senderBuf ++ [entry]).drop ((g'.senderBuf ++ [entry]).length -
          x.bond.group.senderBufCap)

/-- A write that no active member takes replays the whole buffer: a standby member that it
activates has been handed every message of the buffer, and then the message itself. -/
def Replays (x : Bundle σ) : BundleEvent → Prop
  | .group (.write now b) =>
    (∀ j ∈ (x.consult.group.qualifyMembers now).indicesOf isActive,
      (x.consult.group.qualifyMembers now).accepts (x.bond.group.parcel b) j = false) →
    ∀ (i : ℕ) mc mc', x.consult.group.members[i]? = some mc → mc.isStandby = true →
      (x.step (.group (.write now b))).bond.group.members[i]? = some mc' → mc'.isActive = true →
      mc'.conn = ((mc.conn.writeAll (x.bond.group.senderBuf.map BufferedMsg.parcel)).write
        (x.bond.group.parcel b)).1
  | _ => True

/-- The buffer of a backup group loses only what is acknowledged, and a failover replays all that
is in it. -/
def Remembers (x : Bundle σ) (e : BundleEvent) : Prop :=
  x.bond.group.mode = .backup → x.ForgetsAcknowledged e ∧ x.Replays e

end Bundle

namespace Bundle

open scoped XorCipher StableSort

def fromPeer (seqNo : ℕ) : Packet :=
  { header := { sequenceNumber := seqNo, packetPosition := .single, messageNumber := 1 },
    data := [9] }

end Bundle

end SrtGo.Bonding
