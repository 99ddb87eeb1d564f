import SrtGo.Bonding.GroupRun
import SrtGo.Bonding.LockDiscipline

/-!
# Members that have taken the same messages

The members of a broadcast or backup group number their packets on their own.  The copies of a
message carry the same number as long as the members take the same messages from the same first
number on: `Carries sh ms l k` says that a connection has taken the first `k` of the messages
`ms` and nothing else.  `Fits` adds that a member that writes go to has taken all of them.
-/

namespace SrtGo.Bonding

open Bytes SrtGo.Seq

/-! ## Connections in step -/

/-- What the connections of a group have in common. -/
structure Shape where
  start : ℕ
  payloadSize : ℕ
  tsbpd : Bool

namespace Shape

def size (sh : Shape) (b : Bytes) : ℕ := packetCount sh.payloadSize sh.tsbpd b

def offset (sh : Shape) (ms : List Bytes) (j : ℕ) : ℕ := ((ms.take j).map sh.size).sum

def number (sh : Shape) (ms : List Bytes) (j : ℕ) : ℕ := wrap (sh.start + sh.offset ms j)

variable {sh : Shape} {ms ms' : List Bytes} {j k : ℕ} {b : Bytes}

theorem offset_congr (ms' : List Bytes) (h : ms.take k = ms'.take k) (hj : j ≤ k) :
    sh.offset ms j = sh.offset ms' j := by
  have htake : ms.take j = ms'.take j := by
    rw [← Nat.min_eq_left hj, ← List.take_take, h, List.take_take]
  rw [offset, offset, htake]

theorem offset_succ (h : ms[j]? = some b) : sh.offset ms (j + 1) = sh.offset ms j + sh.size b := by
  simp [offset, List.take_add_one, h]

theorem number_succ (h : ms[j]? = some b) :
    sh.number ms (j + 1) = wrap (sh.number ms j + sh.size b) := by
  rw [number, number, offset_succ h]
  unfold wrap
  omega

end Shape

namespace Link

variable {sh : Shape} {ms ms' : List Bytes} {l : Link} {k : ℕ} {p : Parcel}

def taken (l : Link) : ℕ := l.sent.length + l.queue.length

/-- The connection has taken the first `k` messages, in order. -/
structure Carries (sh : Shape) (ms : List Bytes) (l : Link) (k : ℕ) : Prop where
  payloadSize_eq : l.payloadSize = sh.payloadSize
  tsbpd_eq : l.tsbpd = sh.tsbpd
  unaware : l.peerGroupID = 0
  le : k ≤ ms.length
  tags : l.sent.map Shipment.tag ++ l.queue.map Parcel.tag = List.range k
  data : ∀ p ∈ l.queue, ms[p.tag]? = some p.data
  numbers : ∀ s ∈ l.sent, s.seqNo = sh.number ms s.tag
  next : l.nextSeq = sh.number ms l.sent.length

section

variable (h : l.Carries sh ms k)

include h

theorem Carries.taken_eq : l.taken = k := by
  have := congrArg List.length h.tags
  simpa [taken] using this

theorem Carries.packets_eq (b : Bytes) : l.packets b = sh.size b := by
  rw [packets, Shape.size, h.payloadSize_eq, h.tsbpd_eq]

theorem Carries.congr (hms : ms.take k = ms'.take k) (hk : k ≤ ms'.length) :
    l.Carries sh ms' k := by
  have hget : ∀ j, j < k → ms[j]? = ms'[j]? := by
    intro j hj
    rw [← List.getElem?_take_of_lt hj, hms, List.getElem?_take_of_lt hj]
  have hlt : ∀ j, j ∈ l.sent.map Shipment.tag ++ l.queue.map Parcel.tag → j < k := by
    intro j hj
    rw [h.tags] at hj
    exact List.mem_range.mp hj
  have hlen : l.sent.length ≤ k := by
    have := h.taken_eq
    rw [taken] at this
    omega
  refine { h with le := hk, data := ?_, numbers := ?_, next := ?_ }
  · intro p hp
    rw [← hget p.tag (hlt _ (List.mem_append_right _ (List.mem_map_of_mem hp)))]
    exact h.data p hp
  · intro s hs
    have hs' : s.tag < k := hlt _ (List.mem_append_left _ (List.mem_map_of_mem hs))
    rw [h.numbers s hs, Shape.number, Shape.number, Shape.offset_congr _ hms hs'.le]
  · rw [h.next, Shape.number, Shape.number, Shape.offset_congr _ hms hlen]

theorem Carries.ship : l.ship.Carries sh ms k := by
  cases hq : l.queue with
  | nil => rwa [Link.ship, hq]
  | cons p rest =>
    have htags := h.tags
    rw [hq, List.map_cons] at htags
    -- the first waiting message is the one after those that were sent
    have hp : p.tag = l.sent.length := by
      have hat := congrArg (fun xs => xs[l.sent.length]?) htags
      simp only [List.getElem?_append_right (@List.length_map _ _ l.sent _).le,
        List.length_map, Nat.sub_self, List.getElem?_cons_zero] at hat
      have hlt : l.sent.length < k := by
        by_contra hle
        rw [List.getElem?_eq_none (by simpa using hle)] at hat
        exact absurd hat (by simp)
      rw [List.getElem?_range hlt] at hat
      exact Option.some.inj hat
    have hdata : ms[l.sent.length]? = some p.data := by
      rw [← hp]
      exact h.data p (by simp [hq])
    simp only [Link.ship, hq]
    refine { h with tags := ?_, data := ?_, numbers := ?_, next := ?_ }
    · simpa using htags
    · exact fun q hq' => h.data q (by simp [hq, hq'])
    · intro s hs
      rcases List.mem_append.mp hs with hs | hs
      · exact h.numbers s hs
      · rw [List.mem_singleton.mp hs, h.next, hp]
    · rw [h.next, h.packets_eq, ← Shape.number_succ hdata]
      simp

theorem Carries.pump (n : ℕ) : (l.pump n).Carries sh ms k := by
  rw [Link.pump]
  induction n generalizing l with
  | zero => exact h
  | succ n ih =>
    rw [Function.iterate_succ_apply]
    exact ih h.ship

end

theorem Carries.write_refused (h : l.Carries sh ms k) (hp : (l.write p).2 ≠ none) :
    (l.write p).1.Carries sh ms k := by
  unfold Link.write at hp ⊢
  split
  · exact h
  · rename_i hcheck
    simp only [hcheck] at hp
    have hsome : (l.result l.writes).isNone = false := by
      cases hr : l.result l.writes with
      | none => exact absurd hr hp
      | some err => rfl
    simp only [hsome]
    refine Carries.pump ?_ _
    exact { h with }

theorem Carries.write_taken (h : l.Carries sh ms k) (hp : (l.write p).2 = none) (htag : p.tag = k)
    (hdata : ms[k]? = some p.data) : (l.write p).1.Carries sh ms (k + 1) := by
  unfold Link.write at hp ⊢
  split
  · rename_i hcheck
    simp [hcheck] at hp
  · rename_i hcheck
    simp only [hcheck] at hp
    have hnone : (l.result l.writes).isNone = true := by rw [hp]; rfl
    simp only [hnone, if_true]
    refine Carries.pump ?_ _
    refine { h with le := ?_, tags := ?_, data := ?_ }
    · exact (List.getElem?_eq_some_iff.mp hdata).1
    · rw [List.range_succ, ← h.tags]
      simp [htag]
    · intro q hq
      rcases List.mem_append.mp hq with hq | hq
      · exact h.data q hq
      · rw [List.mem_singleton.mp hq, htag]
        exact hdata

end Link

/-! ## Members in step -/

namespace MemberConn

variable {sh : Shape} {ms : List Bytes} {mode : GroupMode} {mc : MemberConn}

def sends (mode : GroupMode) (mc : MemberConn) : Bool :=
  match mode with
  | .backup => mc.isActive
  | .broadcast | .balancing => mc.status = .running || mc.status = .idle

/-- In backup mode, the state of a member goes with its status. -/
def Sound (mode : GroupMode) (mc : MemberConn) : Prop :=
  mode = .backup → (mc.status = .running → mc.backupState ≠ .broken) ∧
    (mc.status = .idle → mc.backupState = .standby)

/-- The member has taken the first messages, and all of them if writes go to it. -/
structure Fits (sh : Shape) (ms : List Bytes) (mode : GroupMode) (mc : MemberConn) : Prop where
  carries : ∃ k, mc.conn.Carries sh ms k
  abreast : mc.sends mode = true → mc.conn.Carries sh ms ms.length
  sound : mc.Sound mode
  joined : mc.status ≠ .pending

theorem Fits.of_carries (h : mc.conn.Carries sh ms ms.length)
    (hsound : mc.Sound mode) (hjoined : mc.status ≠ .pending) :
    mc.Fits sh ms mode :=
  ⟨⟨_, h⟩, fun _ => h, hsound, hjoined⟩

theorem Fits.of_broken {k : ℕ} (h : mc.conn.Carries sh ms k) (hstatus : mc.status = .broken) :
    mc.Fits sh ms mode := by
  refine ⟨⟨k, h⟩, fun hsends => ?_, fun _ => ?_, ?_⟩
  · cases mode <;> simp [sends, isActive, hstatus] at hsends
  · simp [hstatus]
  · simp [hstatus]

theorem Fits.of_not_sends (h : mc.Fits sh ms mode) (hsends : mc.sends mode = false) (b : Bytes) :
    mc.Fits sh (ms ++ [b]) mode := by
  obtain ⟨k, hk⟩ := h.carries
  refine ⟨⟨k, hk.congr ?_ ?_⟩, fun h' => ?_, h.sound, h.joined⟩
  · rw [List.take_append_of_le_length hk.le]
  · simpa using Nat.le_succ_of_le hk.le
  · simp [hsends] at h'

@[simp]
theorem conn_assignBackupState (state : BackupState) (now : ℤ) :
    (mc.assignBackupState state now).conn = mc.conn := by
  unfold assignBackupState; split <;> rfl

@[simp]
theorem status_assignBackupState (state : BackupState) (now : ℤ) :
    (mc.assignBackupState state now).status = mc.status := by
  unfold assignBackupState; split <;> rfl

@[simp]
theorem backupState_assignBackupState (state : BackupState) (now : ℤ) :
    (mc.assignBackupState state now).backupState = state := by
  unfold assignBackupState; split <;> rfl

theorem qualifyBackupState_spec (stabTimeout now : ℤ) (hstatus : mc.status = .running)
    (hstate : mc.backupState ≠ .broken) :
    isBackupActive (mc.qualifyBackupState stabTimeout now).1 = isBackupActive mc.backupState ∧
      (mc.qualifyBackupState stabTimeout now).1 ≠ .broken := by
  have hactive : mc.backupState ≠ .standby → isBackupActive mc.backupState = true := by
    intro h
    cases hs : mc.backupState <;> simp_all [isBackupActive]
  unfold qualifyBackupState
  split_ifs with h1 h2 h3 h4
  · simp [hstatus] at h1
  · simp [h2]
  · exact ⟨rfl, hstate⟩
  all_goals
    rw [hactive h2]
    first
    | exact ⟨rfl, by simp⟩
    | simp only; split_ifs <;> exact ⟨rfl, by simp⟩

theorem Fits.requalify (h : mc.Fits sh ms mode) (stabTimeout now : ℤ)
    (hstatus : mc.status = .running) (hmode : mode = .backup) :
    (mc.requalify stabTimeout now).Fits sh ms mode ∧
      (mc.requalify stabTimeout now).status = .running := by
  subst hmode
  have hspec := qualifyBackupState_spec stabTimeout now hstatus ((h.sound rfl).1 hstatus)
  have hr : mc.requalify stabTimeout now =
      ({ mc with prevDrops := (mc.qualifyBackupState stabTimeout now).2 }).assignBackupState
        (mc.qualifyBackupState stabTimeout now).1 now := rfl
  rw [hr]
  refine ⟨⟨?_, ?_, ?_, ?_⟩, ?_⟩
  · simpa using h.carries
  · intro hsends
    simp only [conn_assignBackupState]
    apply h.abreast
    simpa [sends, isActive, hstatus, hspec.1] using hsends
  · intro _
    simpa [hstatus] using hspec.2
  · simp [hstatus]
  · simp [hstatus]

end MemberConn

end SrtGo.Bonding
