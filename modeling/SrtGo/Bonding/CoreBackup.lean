import SrtGo.Bonding.CoreGroup
import SrtGo.Core.Moves
import SrtGo.Crypto.XorCipher

/-!
# A write reaches an open member

A backup group gives up on an active member that has made no progress for four timeouts, and
does so for good.  As long as this happens to no member whose connection is open, every write
goes to an open member, if there is one.  A member makes progress only when the peer
acknowledges something, so a pause in which there is nothing to acknowledge is enough to lose it.
-/

namespace SrtGo.Core

open Buffer Bytes Congestion Crypto SrtGo.Seq Run

variable {σ : Type} {now : ℤ} {m : GroupMember σ}

namespace GroupMember

variable {m : GroupMember σ}

/-- The connection has made no progress for four timeouts. -/
def stalled (m : GroupMember σ) (stabTimeout now : ℤ) : Bool :=
  decide (4 * (m.track now).timeout stabTimeout < now - (m.track now).lastProgress)

@[simp]
theorem conn_track (now : ℤ) : (m.track now).conn = m.conn := by
  simp only [track]
  split_ifs <;> rfl

@[simp]
theorem conn_qualify (stabTimeout now : ℤ) : (m.qualify stabTimeout now).conn = m.conn := by
  unfold qualify
  split_ifs
  · rfl
  · rfl
  · exact conn_track now

theorem qualify_ne_broken {stabTimeout : ℤ} (hopen : m.conn.closed = false)
    (hstate : m.state ≠ .broken)
    (hprogress : m.state.active = true → m.stalled stabTimeout now = false) :
    (m.qualify stabTimeout now).state ≠ .broken := by
  rw [qualify, if_neg (by simp [hopen])]
  split_ifs with hidle
  · exact hstate
  · have hactive : m.state.active = true := by
      cases hs : m.state <;> simp_all [BackupState.active]
    have hnot : ¬4 * (m.track now).timeout stabTimeout < now - (m.track now).lastProgress := by
      simpa [stalled] using hprogress hactive
    have hsame : (m.track now).state = m.state := by
      simp only [track]
      split_ifs <;> rfl
    simp only [healthAt, if_neg hnot, hsame]
    split_ifs
    · simp
    · simp
    · simp
    · exact hstate

theorem qualify_of_closed (stabTimeout now : ℤ) (hclosed : m.conn.closed = true) :
    (m.qualify stabTimeout now).state = .broken := by
  rw [qualify, if_pos hclosed]

end GroupMember

namespace Group

variable {g : Group σ} {i : ℕ}

theorem mem_indicesOf {p : GroupMember σ → Bool} :
    i ∈ g.indicesOf p ↔ (g.members[i]?).any p = true := by
  rw [indicesOf, List.mem_filter, List.mem_range, and_iff_right_iff_imp]
  intro h
  by_contra hlen
  rw [List.getElem?_eq_none (not_lt.mp hlen)] at h
  exact Bool.false_ne_true h

theorem isReady_of_bestStandby (h : g.bestStandby = some i) :
    ∃ m, g.members[i]? = some m ∧ m.state = .standby ∧ m.conn.closed = false := by
  have hready := mem_indicesOf.mp (mem_of_heaviest_eq_some h)
  cases hm : g.members[i]? with
  | none => simp [hm] at hready
  | some m => exact ⟨m, rfl, by simpa [hm, GroupMember.isReady] using hready⟩

theorem nodup_indicesOf (p : GroupMember σ → Bool) : (g.indicesOf p).Nodup :=
  List.nodup_range.filter _

theorem exists_bestStandby (hm : m ∈ g.members) (hready : m.isReady = true) :
    ∃ i, g.bestStandby = some i := by
  rw [← Option.ne_none_iff_exists', bestStandby, Ne, heaviest_eq_none_iff]
  obtain ⟨i, hi⟩ := List.mem_iff_getElem?.mp hm
  refine List.ne_nil_of_mem (a := i) (mem_indicesOf.mpr ?_)
  rw [hi]
  exact hready

/-- No active member with an open connection has stalled. -/
def Progressing (g : Group σ) (now : ℤ) : Prop :=
  ∀ m ∈ g.members, m.conn.closed = false → m.state.active = true →
    m.stalled g.stabTimeout now = false

/-- Only members with a closed connection are given up on. -/
def Fair (g : Group σ) : Prop :=
  ∀ m ∈ g.members, m.state = .broken → m.conn.closed = true

end Group

section Handed

variable [Controller σ] [Primitives]

def Conn.writeAll (c : Conn σ) (now : ℤ) (msgs : List BufferedMsg) : Conn σ :=
  msgs.foldl (fun c m => c.writeCoordinated now m.payload m.seqNo m.srcTime) c

/-- A write is handed to a member whose connection is open.  If the write activates the member,
what the group has kept is handed to it first. -/
def Group.Reaches (g : Group σ) (now : ℤ) (payload : Bytes) : Prop :=
  ∃ (i : ℕ) (m m' : GroupMember σ), g.members[i]? = some m ∧ m.conn.closed = false ∧
    (g.write now payload).members[i]? = some m' ∧
    ∃ replayed ∈ [[], g.senderBuf],
      m'.conn = m.conn.writeAll now (replayed ++ [g.nextMsg now payload])

theorem Conn.closed_writeCoordinated (c : Conn σ) (now : ℤ) (payload : Bytes) (seqNo srcTime : ℕ) :
    (c.writeCoordinated now payload seqNo srcTime).closed = c.closed := by
  rw [Conn.writeCoordinated]
  by_cases hclosed : c.closed = true
  · rw [if_pos hclosed]
  · rw [if_neg hclosed]
    exact (Conn.sendFrame_sendData _ now seqNo srcTime _).closed

end Handed

namespace Group

variable {g g' : Group σ} {i : ℕ}

theorem Fair.of_members (h : g.Fair) (hmembers : ∀ m' ∈ g'.members, m'.state ≠ .broken ∨
    ∃ m ∈ g.members, m'.state = m.state ∧ (m.conn.closed = true → m'.conn.closed = true)) :
    g'.Fair := by
  intro m' hm' hbroken
  rcases hmembers m' hm' with hne | ⟨m, hm, hstate, hclosed⟩
  · exact absurd hbroken hne
  · exact hclosed (h m hm (hstate.symm.trans hbroken))

theorem mem_modify {members : List (GroupMember σ)} {f : GroupMember σ → GroupMember σ}
    {m' : GroupMember σ} (h : m' ∈ members.modify i f) : m' ∈ members ∨
      ∃ m ∈ members, m' = f m := by
  obtain ⟨j, hj⟩ := List.mem_iff_getElem?.mp h
  rw [List.getElem?_modify, Option.map_eq_map, Option.map_eq_some_iff] at hj
  obtain ⟨m, hm, hf⟩ := hj
  split_ifs at hf
  · exact Or.inr ⟨m, List.mem_of_getElem? hm, hf.symm⟩
  · exact Or.inl (hf ▸ List.mem_of_getElem? hm)

theorem Fair.modifyConn (h : g.Fair) {f : Conn σ → Conn σ}
    (hf : ∀ c : Conn σ, c.closed = true → (f c).closed = true) : (g.modifyConn i f).Fair := by
  refine h.of_members fun m' hm' => Or.inr ?_
  rcases mem_modify hm' with hm | ⟨m, hm, rfl⟩
  · exact ⟨m', hm, rfl, id⟩
  · exact ⟨m, hm, rfl, hf m.conn⟩

def qualified (g : Group σ) (now : ℤ) : Group σ :=
  { g with members := g.members.map fun m => m.qualify g.stabTimeout now }

theorem Fair.qualified (h : g.Fair) (hprogress : g.Progressing now) : (g.qualified now).Fair := by
  intro m' hm' hbroken
  obtain ⟨m, hm, rfl⟩ := List.mem_map.mp hm'
  rw [GroupMember.conn_qualify]
  by_contra hopen
  have hopen' : m.conn.closed = false := by simpa using hopen
  have hstate : m.state ≠ .broken := fun hs => hopen (h m hm hs)
  exact GroupMember.qualify_ne_broken hopen' hstate (hprogress m hm hopen') hbroken

theorem startClock_frame (now : ℤ) : (g.startClock now).members = g.members ∧
    (g.startClock now).stabTimeout = g.stabTimeout ∧
    (g.startClock now).senderBuf = g.senderBuf ∧ (g.startClock now).mode = g.mode := by
  rw [startClock]
  split_ifs <;> exact ⟨rfl, rfl, rfl, rfl⟩

theorem Fair.advance (h : g.Fair) (now : ℤ) : (g.advance now).Fair := by
  intro m hm
  exact h m ((startClock_frame now).1 ▸ hm)

theorem Progressing.advance (h : g.Progressing now) : (g.advance now).Progressing now := by
  intro m hm
  have hstab : (g.advance now).stabTimeout = g.stabTimeout := (startClock_frame now).2.1
  rw [hstab]
  exact h m ((startClock_frame now).1 ▸ hm)

theorem Fair.syncTimebases (h : g.Fair) : g.syncTimebases.Fair := by
  have hcapture : g.captureTimeBase.Fair := by
    unfold captureTimeBase
    split_ifs
    · exact h
    · split
      · exact h
      · refine h.of_members fun m' hm' => Or.inr ?_
        rcases mem_modify hm' with hm | ⟨m, hm, rfl⟩
        · exact ⟨m', hm, rfl, id⟩
        · exact ⟨m, hm, rfl, id⟩
  simp only [Group.syncTimebases]
  split
  · exact hcapture
  · refine hcapture.of_members fun m' hm' => Or.inr ?_
    obtain ⟨m, hm, rfl⟩ := List.mem_map.mp hm'
    refine ⟨m, hm, ?_⟩
    unfold syncMember
    split <;> exact ⟨rfl, id⟩

theorem Fair.alignReceivers (h : g.Fair) (i : ℕ) : (g.alignReceivers i).Fair := by
  unfold Group.alignReceivers
  split
  · exact h
  · refine h.of_members fun m' hm' => Or.inr ?_
    obtain ⟨j, hj, rfl⟩ := List.mem_mapIdx.mp hm'
    refine ⟨g.members[j], List.getElem_mem hj, ?_⟩
    split_ifs <;> exact ⟨rfl, id⟩

theorem Fair.drainEvents (h : g.Fair) (i : ℕ) : (g.drainEvents i).Fair := by
  unfold Group.drainEvents
  split
  · exact h
  · refine h.of_members fun m' hm' => Or.inr ?_
    rcases mem_modify hm' with hm | ⟨m, hm, rfl⟩
    · exact ⟨m', hm, rfl, id⟩
    · exact ⟨m, hm, rfl, id⟩

theorem Fair.routeMember (h : g.Fair) (i : ℕ) : (g.routeMember i).Fair := by
  simp only [Group.routeMember]
  split_ifs
  · exact (h.syncTimebases.alignReceivers i).drainEvents i
  · exact h.syncTimebases.drainEvents i

variable [Controller σ] [Primitives]

theorem Fair.sendOn (h : g.Fair) (is : List ℕ) (now : ℤ) (msg : BufferedMsg) :
    (g.sendOn is now msg).Fair := by
  rw [Group.sendOn]
  induction is generalizing g with
  | nil => exact h
  | cons i is ih =>
    rw [List.foldl_cons]
    exact ih (h.modifyConn fun c hc => by rwa [Conn.closed_writeCoordinated])

theorem Fair.activeMembers (h : g.Fair) (hprogress : g.Progressing now) :
    (g.activeMembers now).1.Fair := by
  have hq := h.qualified hprogress
  simp only [Group.activeMembers]
  split_ifs
  · exact hq
  · split
    · exact hq
    · refine hq.of_members fun m' hm' => ?_
      rcases mem_modify hm' with hm | ⟨m, hm, rfl⟩
      · exact Or.inr ⟨m', hm, rfl, id⟩
      · exact Or.inl (by simp)

/-! ## One write

A write walks over the indices that `activeMembers` returns and calls `writeCoordinated` on each
of these members.  The indices are different, so each of them is handed the payload once. -/

theorem getElem?_sendOn_of_notMem {is : List ℕ} {msg : BufferedMsg} (hi : i ∉ is) :
    (g.sendOn is now msg).members[i]? = g.members[i]? := by
  rw [sendOn]
  induction is generalizing g with
  | nil => rfl
  | cons j is ih =>
    rw [List.mem_cons, not_or] at hi
    rw [List.foldl_cons, ih hi.2]
    simp [modifyConn, Ne.symm hi.1]

theorem getElem?_sendOn {is : List ℕ} (now : ℤ) (msg : BufferedMsg) (hnodup : is.Nodup)
    (hi : i ∈ is) (hm : g.members[i]? = some m) : (g.sendOn is now msg).members[i]? =
      some { m with conn := m.conn.writeAll now [msg] } := by
  induction is generalizing g with
  | nil => exact absurd hi List.not_mem_nil
  | cons j is ih =>
    obtain ⟨hj, hnodup⟩ := List.nodup_cons.mp hnodup
    rw [sendOn, List.foldl_cons, ← sendOn]
    rcases List.mem_cons.mp hi with rfl | hi
    · rw [getElem?_sendOn_of_notMem hj]
      simp [modifyConn, hm, Conn.writeAll]
    · refine ih hnodup hi ?_
      have hne : j ≠ i := fun h => hj (h ▸ hi)
      simp [modifyConn, hne, hm]

/-- A member with an open connection that a write walks over, with what has been replayed to it. -/
def Carries (g : Group σ) (now : ℤ) (i : ℕ) : Prop :=
  i ∈ (g.activeMembers now).2 ∧ ∃ m m', g.members[i]? = some m ∧ m.conn.closed = false ∧
    (g.activeMembers now).1.members[i]? = some m' ∧
    ∃ replayed ∈ [[], g.senderBuf], m'.conn = m.conn.writeAll now replayed

theorem activeMembers_eq (g : Group σ) (now : ℤ) : g.activeMembers now =
    if (g.qualified now).members.any (fun m => m.state.healthy) then
      (g.qualified now, (g.qualified now).indicesOf fun m => m.state.active)
    else
      (g.qualified now).bestStandby.elim
        (g.qualified now, (g.qualified now).indicesOf fun m => m.state.active) fun i =>
        ((g.qualified now).activate now i,
          (g.qualified now).indicesOf (fun m => m.state.active) ++ [i]) := by
  have hfold : { g with members := g.members.map fun m => m.qualify g.stabTimeout now } =
      g.qualified now := rfl
  simp only [Group.activeMembers, hfold]
  cases (g.qualified now).bestStandby <;> rfl

theorem nodup_activeMembers (g : Group σ) (now : ℤ) : (g.activeMembers now).2.Nodup := by
  rw [activeMembers_eq]
  split_ifs
  · exact nodup_indicesOf _
  cases hbest : (g.qualified now).bestStandby with
  | none => exact nodup_indicesOf _
  | some i =>
    refine (nodup_indicesOf _).append (List.nodup_singleton i) ?_
    -- a ready member is in standby, so it is not among the active ones
    rw [List.disjoint_singleton, mem_indicesOf]
    obtain ⟨mi, hmi, hstate, -⟩ := isReady_of_bestStandby hbest
    simp [hmi, hstate, BackupState.active]

omit [Controller σ] [Primitives] in
theorem getElem?_of_qualified {m' : GroupMember σ}
    (h : (g.qualified now).members[i]? = some m') :
    ∃ m, g.members[i]? = some m ∧ m' = m.qualify g.stabTimeout now ∧ m'.conn = m.conn := by
  rw [qualified, List.getElem?_map, Option.map_eq_some_iff] at h
  obtain ⟨m, hm, rfl⟩ := h
  exact ⟨m, hm, rfl, GroupMember.conn_qualify _ now⟩

theorem carries_of_active {m' : GroupMember σ}
    (hwalk : g.activeMembers now =
      (g.qualified now, (g.qualified now).indicesOf fun m => m.state.active))
    (hm' : m' ∈ (g.qualified now).members) (hact : m'.state.active = true) :
    ∃ i, g.Carries now i := by
  obtain ⟨i, hi⟩ := List.mem_iff_getElem?.mp hm'
  obtain ⟨m, hm, hqual, hconn⟩ := getElem?_of_qualified hi
  have hopen : m.conn.closed = false := by
    by_contra hclosed
    rw [hqual, GroupMember.qualify_of_closed _ now (by simpa using hclosed)] at hact
    exact absurd hact (by simp [BackupState.active])
  refine ⟨i, ?_, m, m', hm, hopen, ?_, [], by simp, hconn⟩
  · rw [hwalk]
    exact mem_indicesOf.mpr (by rw [hi]; exact hact)
  · rw [hwalk]
    exact hi

theorem carries_of_bestStandby
    (hhealthy : ¬(g.qualified now).members.any (fun m => m.state.healthy) = true)
    (hbest : (g.qualified now).bestStandby = some i) : g.Carries now i := by
  have hwalk := activeMembers_eq g now
  rw [if_neg hhealthy, hbest, Option.elim_some] at hwalk
  obtain ⟨mi, hmi, -, hopen⟩ := isReady_of_bestStandby hbest
  obtain ⟨m, hm, -, hconn⟩ := getElem?_of_qualified hmi
  have hactivated : ((g.qualified now).activate now i).members[i]? =
      some { mi with
        state := .activeFresh
        activeSince := now
        lastProgress := now
        ackSeqSet := false
        conn := mi.conn.writeAll now g.senderBuf } := by
    simp only [activate, List.getElem?_modify, hmi]
    rfl
  rw [Carries, hwalk]
  refine ⟨by simp, m, _, hm, hconn ▸ hopen, hactivated, g.senderBuf, by simp, ?_⟩
  rw [← hconn]

/-- If only members with a closed connection have been given up on, a write walks over an open
member, if there is one. -/
theorem Fair.carries (h : g.Fair) (hprogress : g.Progressing now) (hm : m ∈ g.members)
    (hopen : m.conn.closed = false) : ∃ i, g.Carries now i := by
  have hwalk := activeMembers_eq g now
  by_cases hhealthy : (g.qualified now).members.any (fun m => m.state.healthy) = true
  · rw [if_pos hhealthy] at hwalk
    obtain ⟨m', hm', hh⟩ := List.any_eq_true.mp hhealthy
    have hact : m'.state.active = true := by
      cases hs : m'.state <;> simp_all [BackupState.healthy, BackupState.active]
    exact carries_of_active hwalk hm' hact
  cases hbest : (g.qualified now).bestStandby with
  | some i => exact ⟨i, carries_of_bestStandby hhealthy hbest⟩
  | none =>
    -- the open member is neither given up on nor ready, so it is active
    rw [if_neg hhealthy, hbest, Option.elim_none] at hwalk
    have hmq : m.qualify g.stabTimeout now ∈ (g.qualified now).members :=
      List.mem_map_of_mem hm
    have hnotbroken : (m.qualify g.stabTimeout now).state ≠ .broken := by
      intro hs
      have := h.qualified hprogress _ hmq hs
      rw [GroupMember.conn_qualify, hopen] at this
      exact Bool.false_ne_true this
    have hnotready : (m.qualify g.stabTimeout now).isReady = false := by
      by_contra hready
      obtain ⟨i, hi⟩ := exists_bestStandby hmq (by simpa using hready)
      rw [hbest] at hi
      cases hi
    refine carries_of_active hwalk hmq ?_
    rw [GroupMember.isReady, GroupMember.conn_qualify, hopen] at hnotready
    cases hs : (m.qualify g.stabTimeout now).state <;> simp_all [BackupState.active]

theorem Fair.reaches (h : g.Fair) (hprogress : g.Progressing now) (payload : Bytes)
    (hm : m ∈ g.members) (hopen : m.conn.closed = false) : g.Reaches now payload := by
  obtain ⟨hmembers, -, hbuf, hmode⟩ : (g.advance now).members = g.members ∧
      (g.advance now).stabTimeout = g.stabTimeout ∧
      (g.advance now).senderBuf = g.senderBuf ∧ (g.advance now).mode = g.mode :=
    startClock_frame now
  have hne : g.members ≠ [] := List.ne_nil_of_mem hm
  cases hcase : g.mode with
  | broadcast =>
    -- every member is walked over
    obtain ⟨i, hi⟩ := List.mem_iff_getElem?.mp hm
    have hrange : i ∈ List.range (g.advance now).members.length := by
      rw [hmembers]
      exact List.mem_range.mpr (List.getElem?_eq_some_iff.mp hi).1
    have hwrite : g.write now payload = (g.advance now).sendOn
        (List.range (g.advance now).members.length) now (g.nextMsg now payload) := by
      simp only [write, if_neg hne, hmode, hcase]
    have hhanded := getElem?_sendOn now (g.nextMsg now payload) List.nodup_range hrange
      (hmembers.symm ▸ hi)
    exact ⟨i, m, _, hi, hopen, hwrite ▸ hhanded, [], by simp, rfl⟩
  | backup =>
    obtain ⟨i, hmem, m, m', hm, hopen, hm', replayed, hreplayed, hconn⟩ :=
      (h.advance now).carries hprogress.advance (hmembers.symm ▸ hm) hopen
    have hwrite : (g.write now payload).members = (((g.advance now).activeMembers now).1.sendOn
        ((g.advance now).activeMembers now).2 now (g.nextMsg now payload)).members := by
      simp only [write, if_neg hne, hmode, hcase]
      rfl
    have hhanded := getElem?_sendOn now (g.nextMsg now payload)
      (nodup_activeMembers (g.advance now) now) hmem hm'
    refine ⟨i, m, _, hmembers ▸ hm, hopen, hwrite ▸ hhanded, replayed, hbuf ▸ hreplayed, ?_⟩
    rw [hconn]
    simp only [Conn.writeAll, List.foldl_append]

/-! ## Runs -/

/-- At each write and each round of the monitor, no active member with an open connection has
stalled. -/
def Unstalled (g : Group σ) : GroupInput σ → Prop
  | .write now _ | .monitor now => g.Progressing now
  | .setStabilityTimeout _ | .addMember _ _ | .routeMember _ | .member _ _ => True

instance (g : Group σ) (now : ℤ) : Decidable (g.Progressing now) :=
  inferInstanceAs (Decidable (∀ m ∈ g.members, m.conn.closed = false → m.state.active = true →
    m.stalled g.stabTimeout now = false))

instance (g : Group σ) : ∀ e : GroupInput σ, Decidable (g.Unstalled e)
  | .write now _ | .monitor now => inferInstanceAs (Decidable (g.Progressing now))
  | .setStabilityTimeout _ | .addMember _ _ | .routeMember _ | .member _ _ => isTrue trivial

/-- Every write goes to an open member, if there is one. -/
def NotIntoVoid (g : Group σ) : GroupInput σ → Prop
  | .write now payload => (∃ m ∈ g.members, m.conn.closed = false) → g.Reaches now payload
  | .setStabilityTimeout _ | .addMember _ _ | .monitor _ | .routeMember _ | .member _ _ => True

theorem fair_write (h : g.Fair) (payload : Bytes) (hprogress : g.Progressing now) :
    (g.write now payload).Fair := by
  rw [write]
  split_ifs
  · exact h
  · simp only
    split
    · exact ((h.advance now).activeMembers hprogress.advance).sendOn _ now _
    · exact (h.advance now).sendOn _ now _

theorem fair_step (h : g.Fair) (e : GroupInput σ) (he : g.Unstalled e) : (g.step e).Fair := by
  cases e with
  | setStabilityTimeout d =>
    simp only [step, setStabilityTimeout]
    split_ifs <;> exact h
  | addMember c weight =>
    refine h.of_members fun m' hm' => ?_
    simp only [step, addMember] at hm'
    split_ifs at hm'
    all_goals
      rcases List.mem_append.mp hm' with hm | hm
      · exact Or.inr ⟨m', hm, rfl, id⟩
      · rw [List.mem_singleton.mp hm]
        exact Or.inl (by simp)
  | write now payload => exact fair_write h payload he
  | monitor now =>
    simp only [step, monitor]
    split_ifs with hmode
    · exact h
    · exact h.activeMembers he
  | routeMember i => exact h.routeMember i
  | member i input => exact h.modifyConn fun c hc => Conn.closed_step hc

/-- In every run of a backup group in which no active member with an open connection stalls,
every write is handed to an open member, if there is one. -/
theorem write_reaches_open_member (es : List (GroupInput σ))
    (hrun : AllSteps Group.step Group.Unstalled (Group.new .backup : Group σ) es) :
    AllSteps Group.step Group.NotIntoVoid (Group.new .backup : Group σ) es := by
  have hinit : (Group.new .backup : Group σ).Fair := by simp [Fair, new]
  refine AllSteps.allSteps (Q := Fair) (fun g e hfair he => fair_step hfair e he)
    (fun g e hfair he => ?_) hinit hrun
  cases e with
  | write now payload =>
      rintro ⟨m, hm, hopen⟩
      exact hfair.reaches he payload hm hopen
  | setStabilityTimeout d => trivial
  | addMember c weight => trivial
  | monitor now => trivial
  | routeMember i => trivial
  | member i input => trivial

end Group

namespace Group

section Examples

open scoped XorCipher

private def liveMember : Conn LiveCC :=
  Conn.establish (LiveCC.new 0 0) 0 { live := true, flowWindow := 32, bufferCapacity := 32 }

private def shortRun : List (GroupInput LiveCC) :=
  [.addMember liveMember 1, .write 0 [1], .write 100000 [2]]

/-- The first write activates the member, and the second one reaches it. -/
theorem write_reaches_open_member_twice :
    AllSteps Group.step Group.Unstalled (Group.new .backup) shortRun ∧
      AllSteps Group.step Group.NotIntoVoid (Group.new .backup) shortRun ∧
      ((exec Group.step (Group.new .backup) shortRun).members.map fun m =>
        m.conn.history.map fun t => t.plain.data) = [[[1], [2]]] := by
  have hrun : AllSteps Group.step Group.Unstalled (Group.new .backup) shortRun := by decide +kernel
  exact ⟨hrun, write_reaches_open_member shortRun hrun, by decide +kernel⟩

/-- The monitor looks after a member to which nothing is written. -/
private def pause : List (GroupInput LiveCC) :=
  [.addMember liveMember 1, .monitor 0, .monitor 1000000, .monitor 10000000]

/-- The monitor activates the only member and finds nothing wrong with it after a second.  Nothing
is written for nine seconds; then the monitor gives the member up, and the next write goes
nowhere. -/
theorem idle_member_given_up :
    ¬AllSteps Group.step Group.NotIntoVoid (Group.new .backup)
      (pause ++ [.write 11000000 [1]]) := by
  intro h
  have hopen : (exec Group.step (Group.new .backup) pause).members.any
      (fun m => !m.conn.closed) = true := by decide +kernel
  obtain ⟨m, hm, hmopen⟩ := List.any_eq_true.mp hopen
  obtain ⟨i, m, m', hm, -, hm', replayed, hreplayed, hconn⟩ :=
    h.last ⟨m, hm, by simpa using hmopen⟩
  -- the member is not handed anything, so no packet is added to its history
  have hsent : ((exec Group.step (Group.new .backup) pause).write 11000000 [1]).members.map
      (fun m => m.conn.history.length) = [0] := by decide +kernel
  have hhanded : ∀ m ∈ (exec Group.step (Group.new .backup) pause).members,
      ∀ replayed ∈ [[], (exec Group.step (Group.new .backup) pause).senderBuf],
        (m.conn.writeAll 11000000 (replayed ++ [(exec Group.step (Group.new .backup)
          pause).nextMsg 11000000 [1]])).history.length = 1 := by decide +kernel
  have hone := hhanded m (List.mem_of_getElem? hm) replayed hreplayed
  rw [← hconn] at hone
  have hzero : m'.conn.history.length ∈ [0] :=
    hsent ▸ List.mem_map_of_mem (List.mem_of_getElem? hm')
  rw [hone] at hzero
  exact absurd hzero (by decide)

end Examples

end Group

end SrtGo.Core
