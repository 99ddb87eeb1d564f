import SrtGo.Core.KeyRotation

/-!
# What the key exchange does to a connection

A function of the key exchange changes the keys and queues its messages; the answer to an
announcement may also open or close the connection.  Each has one equation here, which says
how the keys change and what is queued, and leaves every other part as it is.
-/

namespace SrtGo.Core

open Bytes Congestion Crypto KeySide

/-! ## The keys -/

namespace KeySide

def count (k : KeySide) : KeySide := { k with kmPacketCount := k.kmPacketCount + 1 }

def due (refreshRate preAnnounce : ℕ) (k : KeySide) : Bool :=
  !k.kmAnnounced && decide (refreshRate - preAnnounce ≤ k.kmPacketCount)

/-- One encrypted packet: count it, announce, switch, clear. -/
def advance (refreshRate preAnnounce : ℕ) (k : KeySide) : KeySide :=
  match k.cryptoCtx with
  | none => k
  | some ctx =>
    if k.count.due refreshRate preAnnounce then
      match ctx.generateSEK (oppositeKey k.activeKey) with
      | (ctx, some _) => { k.count with cryptoCtx := some ctx }
      | (ctx, none) =>
        ((k.count.announce ctx (oppositeKey k.activeKey)).switchKey refreshRate).decommission
          preAnnounce
    else (k.count.switchKey refreshRate).decommission preAnnounce

def setReceived (k : KeySide) (state : KMState) : KeySide := { k with rcvKmState := state }

def request [Primitives] (passphrase : String) (data : Bytes) (k : KeySide) : KeySide :=
  match k.cryptoCtx with
  | none => k.setReceived .noSecret
  | some ctx =>
    if passphrase = "" then k.setReceived .noSecret
    else
      match CIFKeyMaterial.unmarshalCIF data with
      | .error _ => k.setReceived .badSecret
      | .ok km =>
        match ctx.unmarshalKM km passphrase with
        | (ctx, some _) =>
          { k with cryptoCtx := some ctx, sndKmState := .badSecret }.setReceived .badSecret
        | (ctx, none) => { k with cryptoCtx := some ctx }.setReceived .secured

def refused (data : Bytes) (k : KeySide) : KeySide :=
  match Conn.errorState data with
  | none => k
  | some state => { k with sndKmState := state, rcvKmState := state }

def response (data : Bytes) (k : KeySide) : KeySide :=
  if data.length = 4 then k.refused data
  else
    { k with kmConfirmed := true, sndKmState := .secured, rcvKmState := .secured,
             hsv4DeferConnect := false }

end KeySide

/-! ## The messages -/

namespace Conn

variable {σ : Type}

section
variable [Primitives] {c : Conn σ} {key : PacketEncryption} {ctx : Context} {o : Output} {now : ℤ}

def Announces (c : Conn σ) (ctx : Context) (key : PacketEncryption) (o : Output) : Prop :=
  ∃ now km, ctx.marshalKM c.params.passphrase key = .ok km ∧
    o = .sendPacket (c.userControl now .kmReq km.marshalCIF) true

def Replies (c : Conn σ) (o : Output) : Prop :=
  ∃ now data, (data = putBE 4 KMState.badSecret.code ∨
    ∃ (ctx : Context) (key : PacketEncryption) (km : CIFKeyMaterial),
    ctx.marshalKM c.params.passphrase key = .ok km ∧ data = km.marshalCIF) ∧
    o = .sendPacket (c.userControl now .kmRsp data) true

/-- What is queued to announce the key of a slot: nothing without a passphrase or a key. -/
def announcement (c : Conn σ) (now : ℤ) (ctx : Context) (key : PacketEncryption) : List Output :=
  if c.params.passphrase = "" then []
  else
    match ctx.marshalKM c.params.passphrase key with
    | .error _ => []
    | .ok km => [.sendPacket (c.userControl now .kmReq km.marshalCIF) true]

theorem announces_of_mem (ho : o ∈ c.announcement now ctx key) : c.Announces ctx key o := by
  unfold announcement at ho
  split_ifs at ho
  · exact absurd ho List.not_mem_nil
  · cases hkm : ctx.marshalKM c.params.passphrase key with
    | error e => simp [hkm] at ho
    | ok km =>
      simp only [hkm, List.mem_singleton] at ho
      exact ⟨now, km, hkm, ho⟩

theorem announcement_eq {km : CIFKeyMaterial} (hpass : c.params.passphrase ≠ "")
    (hkm : ctx.marshalKM c.params.passphrase key = .ok km) (now : ℤ) :
    c.announcement now ctx key = [.sendPacket (c.userControl now .kmReq km.marshalCIF) true] := by
  rw [announcement, if_neg hpass, hkm]

theorem sendKMREQ_eq (c : Conn σ) (now : ℤ) (key : PacketEncryption) :
    c.sendKMREQ now key =
      { c with outputs := c.outputs ++ c.key.cryptoCtx.elim [] (c.announcement now · key) } := by
  unfold sendKMREQ
  cases hctx : c.key.cryptoCtx with
  | none => simp
  | some ctx =>
    simp only [Option.elim_some, announcement]
    split_ifs
    · simp
    · cases ctx.marshalKM c.params.passphrase key with
      | error e => simp
      | ok km => rfl

def rotationNotice (c : Conn σ) (now : ℤ) : List Output :=
  match c.key.cryptoCtx with
  | none => []
  | some ctx =>
    if c.key.count.due c.params.kmRefreshRate c.params.kmPreAnnounce then
      match ctx.generateSEK (oppositeKey c.key.activeKey) with
      | (_, some _) => []
      | (ctx, none) => c.announcement now ctx (oppositeKey c.key.activeKey) ++
          [.setTimer .kmRefresh (now + c.kmRetryInterval)]
    else []

theorem mem_rotationNotice (ho : o ∈ c.rotationNotice now) :
    (∃ deadline, o = .setTimer .kmRefresh deadline) ∨ ∃ ctx ctx', c.key.cryptoCtx = some ctx ∧
      c.key.count.due c.params.kmRefreshRate c.params.kmPreAnnounce = true ∧
      ctx.generateSEK (oppositeKey c.key.activeKey) = (ctx', none) ∧
      c.Announces ctx' (oppositeKey c.key.activeKey) o := by
  unfold rotationNotice at ho
  cases hctx : c.key.cryptoCtx with
  | none => simp [hctx] at ho
  | some ctx =>
    simp only [hctx] at ho
    split_ifs at ho with hdue
    · cases hgen : ctx.generateSEK (oppositeKey c.key.activeKey) with
      | mk ctx' e =>
        cases e with
        | some e => simp [hgen] at ho
        | none =>
          simp only [hgen, List.mem_append, List.mem_singleton] at ho
          rcases ho with hann | htimer
          · exact Or.inr ⟨ctx, ctx', rfl, hdue, hgen, announces_of_mem hann⟩
          · exact Or.inl ⟨_, htimer⟩
    · exact absurd ho List.not_mem_nil

theorem checkKeyRotation_eq (c : Conn σ) (now : ℤ) :
    c.checkKeyRotation now = { c with
      key := c.key.advance c.params.kmRefreshRate c.params.kmPreAnnounce
      outputs := c.outputs ++ c.rotationNotice now } := by
  have hdue : c.countEncrypted.announcementDue =
      c.key.count.due c.params.kmRefreshRate c.params.kmPreAnnounce := rfl
  have hactive : c.countEncrypted.key.activeKey = c.key.activeKey := rfl
  unfold checkKeyRotation advance rotationNotice
  cases hctx : c.key.cryptoCtx with
  | none => simp
  | some ctx =>
    simp only [hdue, hactive]
    split_ifs
    · cases ctx.generateSEK (oppositeKey c.key.activeKey) with
      | mk ctx' e =>
        cases e with
        | some e => simp [setContext, countEncrypted, count]
        | none =>
          simp only [announceKey, sendKMREQ_eq, rotate, push, List.append_assoc]
          rfl
    · simp [rotate, countEncrypted, count]

theorem retryKMREQ_eq (c : Conn σ) (now : ℤ) :
    c.retryKMREQ now = if !c.key.kmAnnounced ∨ c.key.kmConfirmed ∨ c.key.kmRetryCount ≤ 0 then c
      else { c with
        key := { c.key with kmRetryCount := c.key.kmRetryCount - 1 }
        outputs := c.outputs ++ (c.key.cryptoCtx.elim [] (c.announcement now · c.key.kmRetryKey) ++
          if 0 < c.key.kmRetryCount - 1 then [.setTimer .kmRefresh (now + c.kmRetryInterval)] else
            []) } := by
  unfold retryKMREQ
  by_cases hdone : !c.key.kmAnnounced ∨ c.key.kmConfirmed ∨ c.key.kmRetryCount ≤ 0
  · rw [if_pos hdone, if_pos hdone]
  · rw [if_neg hdone, if_neg hdone]
    simp only [sendKMREQ_eq]
    split_ifs
    · simp only [push, List.append_assoc]
      rfl
    · simp only [List.append_nil]
      rfl

def Retries (c : Conn σ) (o : Output) : Prop :=
  (∃ deadline, o = .setTimer .kmRefresh deadline) ∨ c.key.kmAnnounced = true ∧
    ∃ ctx, c.key.cryptoCtx = some ctx ∧ c.Announces ctx c.key.kmRetryKey o

theorem retryKMREQ_spec (c : Conn σ) (now : ℤ) :
    ∃ n os, c.retryKMREQ now =
        { c with key := { c.key with kmRetryCount := n }, outputs := c.outputs ++ os } ∧
      ∀ o ∈ os, c.Retries o := by
  rw [retryKMREQ_eq]
  split_ifs with hdone
  · exact ⟨c.key.kmRetryCount, [], by simp, by simp⟩
  all_goals
    have hannounced : c.key.kmAnnounced = true := by
      by_contra h
      exact hdone (Or.inl (by simpa using h))
    have hrepeat : ∀ o ∈ c.key.cryptoCtx.elim [] (c.announcement now · c.key.kmRetryKey),
        c.key.kmAnnounced = true ∧ ∃ ctx, c.key.cryptoCtx = some ctx ∧
          c.Announces ctx c.key.kmRetryKey o := by
      intro o ho
      cases hctx : c.key.cryptoCtx with
      | none => simp [hctx] at ho
      | some ctx => exact ⟨hannounced, ctx, rfl, announces_of_mem (by simpa [hctx] using ho)⟩
    refine ⟨_, _, rfl, fun o ho => ?_⟩
    rcases List.mem_append.mp ho with hann | htimer
  · exact Or.inr (hrepeat o hann)
  · exact Or.inl ⟨_, List.mem_singleton.mp htimer⟩
  · exact Or.inr (hrepeat o hann)
  · exact absurd htimer List.not_mem_nil

theorem handleKMRequest_spec (c : Conn σ) (now : ℤ) (p : Packet) :
    ∃ os, c.handleKMRequest now p =
        { c with key := c.key.request c.params.passphrase p.data, outputs := c.outputs ++ os } ∧
      ∀ o ∈ os, c.Replies o := by
  unfold handleKMRequest request
  cases c.key.cryptoCtx with
  | none => exact ⟨[], by simp [setReceived], by simp⟩
  | some ctx =>
    simp only
    split_ifs with hpass
    · exact ⟨[], by simp [setReceived], by simp⟩
    · cases CIFKeyMaterial.unmarshalCIF p.data with
      | error e => exact ⟨[], by simp [setReceived], by simp⟩
      | ok km =>
        simp only
        obtain ⟨ctx', e⟩ := ctx.unmarshalKM km c.params.passphrase
        cases e with
        | some e => exact ⟨[_], rfl, fun o ho => ⟨now, _, Or.inl rfl, List.mem_singleton.mp ho⟩⟩
        | none =>
          simp only
          cases hresp : ctx'.marshalKM c.params.passphrase km.keyBasedEncryption with
          | error e => exact ⟨[], by simp [setReceived], by simp⟩
          | ok resp =>
            exact ⟨[_], rfl, fun o ho => ⟨now, _, Or.inr ⟨ctx', _, resp, hresp, rfl⟩,
              List.mem_singleton.mp ho⟩⟩

end

/-- An answer clears timers; if the connection waited for it, it is opened, or refused and closed.
-/
theorem handleKMResponse_spec [Controller σ] (c : Conn σ) (p : Packet) :
    ∃ closed os es, c.handleKMResponse p = { c with
        key := c.key.response p.data
        closed := closed
        outputs := c.outputs ++ os
        events := c.events ++ es } ∧
      (∀ o ∈ os, o = .clearTimer .kmRefresh ∨ o = .clearTimer .handshake) ∧
      (closed = true ∧ (∃ err, es = [.failed err]) ∨
        closed = c.closed ∧ (es = [] ∨ es = [.connected c.params.peerSocketID])) := by
  unfold handleKMResponse response
  by_cases hlen : p.data.length = 4
  · simp only [hlen, if_true, refused]
    cases errorState p.data with
    | none =>
      simp only
      split_ifs
      · exact ⟨true, [.clearTimer .kmRefresh, .clearTimer .handshake], [_],
          by simp only [fail, push, raise, List.append_assoc]; rfl,
          by simp, Or.inl ⟨rfl, _, rfl⟩⟩
      · exact ⟨c.closed, [], [], by simp, by simp, Or.inr ⟨rfl, Or.inl rfl⟩⟩
    | some state =>
      simp only
      split_ifs
      · exact ⟨true, [.clearTimer .kmRefresh, .clearTimer .handshake], [_],
          by simp only [fail, push, raise, List.append_assoc]; rfl,
          by simp, Or.inl ⟨rfl, _, rfl⟩⟩
      · exact ⟨c.closed, [], [], by simp, by simp, Or.inr ⟨rfl, Or.inl rfl⟩⟩
  · simp only [hlen, if_false, push]
    by_cases hdefer : c.key.hsv4DeferConnect = true
    · exact ⟨c.closed, [.clearTimer .kmRefresh], [.connected c.params.peerSocketID],
        by simp [hdefer, raise],
        by simp, Or.inr ⟨rfl, Or.inr rfl⟩⟩
    · have hsettled : c.key.hsv4DeferConnect = false := by simpa using hdefer
      exact ⟨c.closed, [.clearTimer .kmRefresh], [],
        by simp [hsettled], by simp, Or.inr ⟨rfl, Or.inl rfl⟩⟩

end Conn

end SrtGo.Core
