import SrtGo.Bonding.CoreBackup
import SrtGo.Core.Clock

/-!
# The playout clocks of a group

The members of a group should play a packet out at the same time, over whichever of them it
arrives.  The group takes the time base of the first member that has one and gives it to all
others.  What it takes are the anchor, the wrap phase and the drift correction; the timestamps
that have wrapped already are counted by each timer for itself, and this count is not handed on.
So the synchronised members agree exactly as long as their timers have seen the same wraps.  In
particular they agree as long as no member has heard a timestamp of the last thirty seconds before
a wrap.

Each step of a group is followed once, by `KeepsTime`: what it says about a member holds for every
step, except that a member counts no wrap only if what it hears is far from the wrap.
-/

namespace SrtGo.Core

open Bytes Congestion Crypto Run

variable {σ : Type}

namespace GroupMember

variable {far : Prop}

/-- The member is still the same, and whatever was known about its clock still holds; that it has
counted no wrap only if what it has heard is `far` from the wrap. -/
structure KeepsTime (far : Prop) (m m' : GroupMember σ) : Prop where
  synced : m'.tbSynced = m.tbSynced
  driftless : ∀ {d}, m.conn.Driftless d → m'.conn.Driftless d
  anchored : ∀ {d base drift}, m.conn.Driftless d → m.conn.Anchored base drift →
    m'.conn.Anchored base drift
  unwrapped : far → m.conn.Unwrapped → m'.conn.Unwrapped

theorem KeepsTime.of_conn_eq {m m' : GroupMember σ} (hsynced : m'.tbSynced = m.tbSynced)
    (h : m'.conn = m.conn) : KeepsTime far m m' :=
  ⟨hsynced, fun hd => h ▸ hd, fun _ ha => h ▸ ha, fun _ hu => h ▸ hu⟩

theorem KeepsTime.refl (m : GroupMember σ) : KeepsTime far m m := .of_conn_eq rfl rfl

theorem KeepsTime.trans {m m' m'' : GroupMember σ} (h : KeepsTime far m m')
    (h' : KeepsTime far m' m'') : KeepsTime far m m'' :=
  ⟨h'.synced.trans h.synced, fun hd => h'.driftless (h.driftless hd),
    fun hd ha => h'.anchored (h.driftless hd) (h.anchored hd ha),
    fun hfar hu => h'.unwrapped hfar (h.unwrapped hfar hu)⟩

end GroupMember

namespace Group

/-- The members come from those of an earlier state, and their clocks have not been touched. -/
structure KeepsTime (far : Prop) (g g' : Group σ) : Prop where
  groupTB : g'.groupTB = g.groupTB
  members : ∀ m' ∈ g'.members, ∃ m ∈ g.members, GroupMember.KeepsTime far m m'

/-- All members are live, with one delay and without drift correction, and those that are
synchronised are anchored at the time base of the group. -/
structure Aligned (d : ℤ) (g : Group σ) : Prop where
  driftless : ∀ m ∈ g.members, m.conn.Driftless d
  anchored : ∀ m ∈ g.members, m.tbSynced = true →
    ∃ tb, g.groupTB = some tb ∧ m.conn.Anchored tb.timeBase tb.drift

/-- No member has counted a wrap or begun one, and the time base of the group was not captured
in a wrap period. -/
structure Unwrapped (g : Group σ) : Prop where
  members : ∀ m ∈ g.members, m.conn.Unwrapped
  groupTB : ∀ tb, g.groupTB = some tb → tb.wrapPeriod = false

variable {g g' g'' : Group σ} {d : ℤ} {far : Prop}

theorem KeepsTime.refl (g : Group σ) : KeepsTime far g g := ⟨rfl, fun m hm => ⟨m, hm, .refl m⟩⟩

theorem KeepsTime.trans (h : KeepsTime far g g') (h' : KeepsTime far g' g'') :
    KeepsTime far g g'' := by
  refine ⟨h'.groupTB.trans h.groupTB, fun m'' hm'' => ?_⟩
  obtain ⟨m', hm', hkeeps'⟩ := h'.members m'' hm''
  obtain ⟨m, hm, hkeeps⟩ := h.members m' hm'
  exact ⟨m, hm, hkeeps.trans hkeeps'⟩

theorem KeepsTime.unwrapped (h : KeepsTime far g g') (hfar : far) (hg : g.Unwrapped) :
    g'.Unwrapped := by
  refine ⟨fun m' hm' => ?_, h.groupTB ▸ hg.groupTB⟩
  obtain ⟨m, hm, hkeeps⟩ := h.members m' hm'
  exact hkeeps.unwrapped hfar (hg.members m hm)

theorem KeepsTime.aligned (h : KeepsTime far g g') (hg : g.Aligned d) : g'.Aligned d := by
  constructor
  · intro m' hm'
    obtain ⟨m, hm, hkeeps⟩ := h.members m' hm'
    exact hkeeps.driftless (hg.driftless m hm)
  · intro m' hm' hsynced
    obtain ⟨m, hm, hkeeps⟩ := h.members m' hm'
    obtain ⟨tb, htb, hat⟩ := hg.anchored m hm (hkeeps.synced.symm.trans hsynced)
    exact ⟨tb, h.groupTB.trans htb, hkeeps.anchored (hg.driftless m hm) hat⟩

theorem keepsTime_modify (i : ℕ) {f : GroupMember σ → GroupMember σ}
    (hf : ∀ m, GroupMember.KeepsTime far m (f m)) (htb : g'.groupTB = g.groupTB)
    (hmembers : g'.members = g.members.modify i f) : KeepsTime far g g' := by
  refine ⟨htb, fun m' hm' => ?_⟩
  rcases mem_modify (hmembers ▸ hm') with hm | ⟨m, hm, rfl⟩
  · exact ⟨m', hm, .refl m'⟩
  · exact ⟨m, hm, hf m⟩

/-! ## Receiving -/

theorem keepsTime_resetRecvTo (m : GroupMember σ) (nextSeq : ℕ) :
    GroupMember.KeepsTime far m { m with conn := m.conn.resetRecvTo nextSeq } where
  synced := rfl
  driftless hd := hd
  anchored _ ha := ha
  unwrapped _ hu := by
    refine ⟨hu.fecReceiver, hu.timer, fun p hp => ?_⟩
    obtain ⟨j, hstate, -⟩ := hp
    exact absurd hstate (by simp [Conn.resetRecvTo, Buffer.RecvBuffer.setInitialRcvSeq])

theorem keepsTime_alignReceivers (i : ℕ) : KeepsTime far g (g.alignReceivers i) := by
  unfold Group.alignReceivers
  split
  · exact .refl g
  · refine ⟨rfl, fun m' hm' => ?_⟩
    obtain ⟨j, hj, rfl⟩ := List.mem_mapIdx.mp hm'
    refine ⟨g.members[j], List.getElem_mem hj, ?_⟩
    split_ifs
    · exact .refl _
    · exact keepsTime_resetRecvTo _ _
    · exact .refl _

theorem keepsTime_drainEvents (i : ℕ) : KeepsTime far g (g.drainEvents i) := by
  unfold Group.drainEvents
  split
  · exact .refl g
  · refine keepsTime_modify i (fun m => ?_) rfl rfl
    exact .of_conn_eq rfl rfl

theorem keepsTime_routeMember (i : ℕ) : KeepsTime far g.syncTimebases (g.routeMember i) := by
  simp only [Group.routeMember]
  split_ifs
  · exact (keepsTime_alignReceivers i).trans (keepsTime_drainEvents i)
  · exact keepsTime_drainEvents i

theorem of_firstTimeBase {members : List (GroupMember σ)} {i : ℕ} {tb : Tsbpd.GroupTimeBase}
    (h : firstTimeBase members = some (i, tb)) :
    ∃ m t, members[i]? = some m ∧ m.conn.rcv.tsbpdBaseSet = true ∧
      m.conn.rcv.tsbpdTimer = some t ∧ tb = t.getInternalTimeBase := by
  obtain ⟨⟨m, j⟩, hmem, hm⟩ := List.mem_filterMap.mp (List.mem_of_mem_head? h)
  simp only at hm
  split_ifs at hm with hbase
  obtain ⟨t, ht, heq⟩ := Option.map_eq_some_iff.mp hm
  rw [Prod.mk.injEq] at heq
  obtain ⟨rfl, rfl⟩ := heq
  exact ⟨m, t, List.mem_zipIdx_iff_getElem?.mp hmem, hbase, ht, rfl⟩

theorem Aligned.captureTimeBase (h : g.Aligned d) : g.captureTimeBase.Aligned d := by
  unfold Group.captureTimeBase
  split_ifs with hset
  · exact h
  split
  · exact h
  next i tb hfirst =>
    -- before the capture no member is synchronised
    have hnone : ∀ m ∈ g.members, m.tbSynced = false := by
      intro m hm
      by_contra hsynced
      obtain ⟨tb', htb', -⟩ := h.anchored m hm (by simpa using hsynced)
      exact hset (by rw [htb']; rfl)
    obtain ⟨m, t, hmi, hbase, ht, rfl⟩ := of_firstTimeBase hfirst
    refine ⟨fun m' hm' => ?_, fun m' hm' hsynced => ⟨_, rfl, ?_⟩⟩
    · rcases mem_modify hm' with hm | ⟨m, hm, rfl⟩
      · exact h.driftless m' hm
      · exact h.driftless m hm
    · obtain ⟨j, hj⟩ := List.mem_iff_getElem?.mp hm'
      rw [List.getElem?_modify, Option.map_eq_map, Option.map_eq_some_iff] at hj
      obtain ⟨m₀, hm₀, rfl⟩ := hj
      split_ifs at hsynced ⊢ with hij
      · subst hij
        obtain rfl : m = m₀ := Option.some.inj (hmi.symm.trans hm₀)
        refine ⟨hbase, fun t' ht' => ?_⟩
        obtain rfl : t = t' := Option.some.inj (ht.symm.trans ht')
        exact ⟨rfl, rfl⟩
      · rw [hnone m₀ (List.mem_of_getElem? hm₀)] at hsynced
        exact absurd hsynced Bool.false_ne_true

theorem Unwrapped.captureTimeBase (h : g.Unwrapped) : g.captureTimeBase.Unwrapped := by
  unfold Group.captureTimeBase
  split_ifs with hset
  · exact h
  split
  · exact h
  next i tb hfirst =>
    obtain ⟨m, t, hmi, -, ht, rfl⟩ := of_firstTimeBase hfirst
    have hm := h.members m (List.mem_of_getElem? hmi)
    refine ⟨fun m' hm' => ?_, fun tb htb => ?_⟩
    · rcases mem_modify hm' with hm | ⟨m, hm, rfl⟩
      · exact h.members m' hm
      · exact h.members m hm
    · obtain rfl := Option.some.inj htb
      exact (hm.timer t ht).wrapPeriod

theorem Unwrapped.syncTimebases (h : g.Unwrapped) : g.syncTimebases.Unwrapped := by
  have hc := h.captureTimeBase
  simp only [Group.syncTimebases]
  split
  · exact hc
  next tb htb =>
    refine ⟨fun m' hm' => ?_, hc.groupTB⟩
    obtain ⟨m, hm, rfl⟩ := List.mem_map.mp hm'
    have hm := hc.members m hm
    unfold syncMember
    split
    next t hnot ht =>
      -- the phase is that of the group, the count of the wraps is the member's own
      refine ⟨hm.fecReceiver, fun t' ht' => ?_, hm.waiting⟩
      obtain rfl := Option.some.inj ht'
      exact ⟨hc.groupTB tb htb, (hm.timer t ht).wrapOffset⟩
    next => exact hm

theorem Aligned.syncTimebases (h : g.Aligned d) : g.syncTimebases.Aligned d := by
  have hc := h.captureTimeBase
  simp only [Group.syncTimebases]
  split
  · exact hc
  next tb htb =>
    constructor
    · intro m' hm'
      obtain ⟨m, hm, rfl⟩ := List.mem_map.mp hm'
      obtain ⟨t, ht, hd, hdrift⟩ := hc.driftless m hm
      unfold syncMember
      split
      next t' hnot ht' =>
        obtain rfl : t = t' := Option.some.inj (ht.symm.trans ht')
        exact ⟨_, rfl, hd, hdrift⟩
      next => exact ⟨t, ht, hd, hdrift⟩
    · intro m' hm' hsynced
      obtain ⟨m, hm, rfl⟩ := List.mem_map.mp hm'
      refine ⟨tb, htb, ?_⟩
      unfold syncMember at hsynced ⊢
      split
      next t hnot ht =>
        refine ⟨rfl, fun t' ht' => ?_⟩
        cases ht'
        exact ⟨rfl, rfl⟩
      next hother =>
        -- a member that is left alone was synchronised before
        split at hsynced
        next t hnot ht => exact absurd ht (hother t hnot)
        next =>
          obtain ⟨tb', htb', hat⟩ := hc.anchored m hm hsynced
          obtain rfl : tb = tb' := Option.some.inj (htb.symm.trans htb')
          exact hat

theorem Unwrapped.addMember (h : g.Unwrapped) {c : Conn σ} (hc : c.Unwrapped) (weight : ℕ) :
    (g.addMember c weight).Unwrapped := by
  have happend : ∀ {g' : Group σ} {c' : Conn σ}, c'.Unwrapped → g'.groupTB = g.groupTB →
      g'.members = g.members ++ [{ conn := c', weight := weight }] → g'.Unwrapped := by
    intro g' c' hc' htb hmembers
    refine ⟨fun m hm => ?_, htb ▸ h.groupTB⟩
    rcases List.mem_append.mp (hmembers ▸ hm) with hm | hm
    · exact h.members m hm
    · rw [List.mem_singleton.mp hm]
      exact hc'
  unfold Group.addMember
  split_ifs
  · exact happend hc rfl rfl
  · have hmoved : ∀ sb, (c.setSendBuf sb).Unwrapped := fun _ =>
      ⟨hc.fecReceiver, hc.timer, hc.waiting⟩
    exact happend (hmoved _) rfl rfl
  · exact happend hc rfl rfl

theorem Aligned.addMember (h : g.Aligned d) {c : Conn σ} (hc : c.Driftless d) (weight : ℕ) :
    (g.addMember c weight).Aligned d := by
  have happend : ∀ {g' : Group σ} {c' : Conn σ}, c'.Driftless d → g'.groupTB = g.groupTB →
      g'.members = g.members ++ [{ conn := c', weight := weight }] → g'.Aligned d := by
    intro g' c' hc' htb hmembers
    constructor
    · intro m hm
      rcases List.mem_append.mp (hmembers ▸ hm) with hm | hm
      · exact h.driftless m hm
      · rw [List.mem_singleton.mp hm]
        exact hc'
    · intro m hm hsynced
      rcases List.mem_append.mp (hmembers ▸ hm) with hm | hm
      · rw [htb]
        exact h.anchored m hm hsynced
      · -- a new member is not synchronised yet
        rw [List.mem_singleton.mp hm] at hsynced
        exact absurd hsynced Bool.false_ne_true
  unfold Group.addMember
  split_ifs
  · exact happend hc rfl rfl
  · refine happend (Conn.SameClock.driftless ⟨?_, ?_⟩ hc) rfl rfl <;> rfl
  · exact happend hc rfl rfl

/-! ## Sending -/

section
variable [Controller σ] [Primitives]

theorem keepsTime_step (m : GroupMember σ) {i : Input} (hfar : far → i.FarFromWrap) :
    GroupMember.KeepsTime far m { m with conn := m.conn.step i } :=
  ⟨rfl, fun hd => hd.step i, fun hd ha => ha.step hd i, fun h hu => hu.step (hfar h)⟩

theorem keepsTime_writeAll (msgs : List BufferedMsg) (now : ℤ) (m : GroupMember σ) :
    GroupMember.KeepsTime far m { m with conn := m.conn.writeAll now msgs } := by
  rw [Conn.writeAll]
  induction msgs generalizing m with
  | nil => exact .refl m
  | cons msg msgs ih =>
    have hwrite : far →
        (Input.writeCoordinated now msg.payload msg.seqNo msg.srcTime).FarFromWrap :=
      fun _ => trivial
    exact (keepsTime_step m hwrite).trans (ih _)

theorem keepsTime_modifyConn (i : ℕ) {input : Input} (hfar : far → input.FarFromWrap) :
    KeepsTime far g (g.modifyConn i fun c => c.step input) :=
  keepsTime_modify i (fun m => keepsTime_step m hfar) rfl rfl

theorem keepsTime_sendOn (is : List ℕ) (now : ℤ) (msg : BufferedMsg) :
    KeepsTime far g (g.sendOn is now msg) := by
  rw [Group.sendOn]
  induction is generalizing g with
  | nil => exact .refl g
  | cons i is ih =>
    rw [List.foldl_cons]
    have hone : KeepsTime far g (g.modifyConn i fun c => c.writeAll now [msg]) :=
      keepsTime_modify i (fun m => keepsTime_writeAll [msg] now m) rfl rfl
    exact hone.trans ih

theorem keepsTime_activeMembers (now : ℤ) : KeepsTime far g (g.activeMembers now).1 := by
  have hqualified : KeepsTime far g (g.qualified now) := by
    refine ⟨rfl, fun m' hm' => ?_⟩
    obtain ⟨m, hm, rfl⟩ := List.mem_map.mp hm'
    refine ⟨m, hm, .of_conn_eq ?_ (GroupMember.conn_qualify _ now)⟩
    unfold GroupMember.qualify GroupMember.track
    simp only
    split_ifs <;> rfl
  simp only [Group.activeMembers]
  split_ifs
  · exact hqualified
  · split
    · exact hqualified
    next i hi =>
      refine hqualified.trans (keepsTime_modify i (fun m => ?_) rfl rfl)
      exact (keepsTime_writeAll g.senderBuf now m).trans (.of_conn_eq rfl rfl)

omit [Controller σ] [Primitives] in
theorem keepsTime_advance (now : ℤ) : KeepsTime far g (g.advance now) := by
  simp only [Group.advance, startClock]
  split_ifs <;> exact ⟨rfl, fun m hm => ⟨m, hm, .refl m⟩⟩

theorem keepsTime_write (now : ℤ) (payload : Bytes) : KeepsTime far g (g.write now payload) := by
  rw [Group.write]
  split_ifs
  · exact .refl g
  · simp only
    split
    · have hsent : KeepsTime far g _ := ((keepsTime_advance now).trans
        (keepsTime_activeMembers now)).trans
        (keepsTime_sendOn ((g.advance now).activeMembers now).2 now (g.nextMsg now payload))
      exact ⟨hsent.groupTB, hsent.members⟩
    · exact (keepsTime_advance now).trans (keepsTime_sendOn _ now _)

/-! ## Runs -/

/-- The members that are added are live, with the given delay and without drift correction. -/
def AddsDriftless (d : ℤ) : GroupInput σ → Prop
  | .addMember c _ => c.Driftless d
  | .setStabilityTimeout _ | .write _ _ | .monitor _ | .routeMember _ | .member _ _ => True

/-- The members that are added have counted no wrap, and no member hears a timestamp close to
one. -/
def FarFromWrap : GroupInput σ → Prop
  | .addMember c _ => c.Unwrapped
  | .member _ input => input.FarFromWrap
  | .setStabilityTimeout _ | .write _ _ | .monitor _ | .routeMember _ => True

theorem keepsTime_group_step (g : Group σ) (e : GroupInput σ) (hadd : ∀ c w, e ≠ .addMember c w)
    (hroute : ∀ i, e ≠ .routeMember i) : KeepsTime (FarFromWrap e) g (g.step e) := by
  cases e with
  | setStabilityTimeout d' =>
    simp only [Group.step, setStabilityTimeout]
    split_ifs <;> exact ⟨rfl, fun m hm => ⟨m, hm, .refl m⟩⟩
  | addMember c weight => exact absurd rfl (hadd c weight)
  | write now payload => exact keepsTime_write now payload
  | monitor now =>
    simp only [Group.step, monitor]
    split_ifs
    · exact .refl g
    · exact keepsTime_activeMembers now
  | routeMember i => exact absurd rfl (hroute i)
  | member i input => exact keepsTime_modifyConn i id

theorem Aligned.step (h : g.Aligned d) {e : GroupInput σ} (he : AddsDriftless d e) :
    (g.step e).Aligned d := by
  cases e with
  | addMember c weight => exact h.addMember he weight
  | routeMember i =>
    have hkeeps : KeepsTime True g.syncTimebases (g.routeMember i) := keepsTime_routeMember i
    exact hkeeps.aligned h.syncTimebases
  | _ => exact (keepsTime_group_step g _ (by simp) (by simp)).aligned h

theorem Unwrapped.step (h : g.Unwrapped) {e : GroupInput σ} (he : FarFromWrap e) :
    (g.step e).Unwrapped := by
  cases e with
  | addMember c weight => exact h.addMember he weight
  | routeMember i => exact (keepsTime_routeMember i).unwrapped trivial h.syncTimebases
  | _ => exact (keepsTime_group_step g _ (by simp) (by simp)).unwrapped he h

end

end Group

end SrtGo.Core

namespace SrtGo.Tsbpd

/-- Two timers with the same delay, time base and correction agree on all timestamps exactly when
they have counted the same wraps and are in the same phase. -/
theorem Timer.deliveryTime_agree_iff {t₁ t₂ : Timer} (hdelay : t₁.delay = t₂.delay)
    (hbase : t₁.timeBase = t₂.timeBase) (hdrift : t₁.driftOffset = t₂.driftOffset) :
    (∀ ts < 2 ^ 32, t₁.deliveryTime ts = t₂.deliveryTime ts) ↔
      t₁.wrapOffset = t₂.wrapOffset ∧ t₁.wrapPeriod = t₂.wrapPeriod := by
  constructor
  · intro h
    -- a timestamp above a minute is never carried over, the timestamp zero is so in the wrap period
    have hlarge := h (2 ^ 32 - 1) (by norm_num)
    have hzero := h 0 (by norm_num)
    have hnocarry : ¬((2 ^ 32 - 1 : ℕ) : ℤ) ≤ 2 * wrapThreshold := by norm_num [wrapThreshold]
    have hcarry : ((0 : ℕ) : ℤ) ≤ 2 * wrapThreshold := by norm_num [wrapThreshold]
    simp only [deliveryTime, fullTS, hdelay, hbase, hdrift, hnocarry, and_false, if_false] at hlarge
    simp only [deliveryTime, fullTS, hdelay, hbase, hdrift, hcarry, and_true] at hzero
    have hoffset : t₁.wrapOffset = t₂.wrapOffset := by omega
    refine ⟨hoffset, ?_⟩
    rw [hoffset] at hzero
    cases h₁ : t₁.wrapPeriod <;> cases h₂ : t₂.wrapPeriod <;>
      simp [h₁, h₂, timestampWrap] at hzero ⊢
  · rintro ⟨hoffset, hperiod⟩ ts -
    simp only [deliveryTime, fullTS, hdelay, hbase, hdrift, hoffset, hperiod]

end SrtGo.Tsbpd

namespace SrtGo.Core

open Bytes Congestion Crypto Run

namespace Group

variable {σ : Type}

/-- Two members that are synchronised agree on the delivery times exactly when their timers are in
the same phase of the wrap and have counted the same wraps. -/
def AgreeByWraps (g : Group σ) : Prop :=
  ∀ m₁ ∈ g.members, ∀ m₂ ∈ g.members, m₁.tbSynced = true → m₂.tbSynced = true →
    ∃ t₁ t₂, m₁.conn.rcv.tsbpdTimer = some t₁ ∧ m₂.conn.rcv.tsbpdTimer = some t₂ ∧
      ((∀ ts < 2 ^ 32, t₁.deliveryTime ts = t₂.deliveryTime ts) ↔
        t₁.wrapOffset = t₂.wrapOffset ∧ t₁.wrapPeriod = t₂.wrapPeriod)

theorem Aligned.agreeByWraps {g : Group σ} {d : ℤ} (h : g.Aligned d) : g.AgreeByWraps := by
  intro m₁ hm₁ m₂ hm₂ hsynced₁ hsynced₂
  obtain ⟨t₁, ht₁, hd₁, -⟩ := h.driftless m₁ hm₁
  obtain ⟨t₂, ht₂, hd₂, -⟩ := h.driftless m₂ hm₂
  obtain ⟨tb, htb, -, hat₁⟩ := h.anchored m₁ hm₁ hsynced₁
  obtain ⟨tb', htb', -, hat₂⟩ := h.anchored m₂ hm₂ hsynced₂
  obtain rfl : tb = tb' := Option.some.inj (htb.symm.trans htb')
  obtain ⟨hbase₁, hdrift₁⟩ := hat₁ t₁ ht₁
  obtain ⟨hbase₂, hdrift₂⟩ := hat₂ t₂ ht₂
  exact ⟨t₁, t₂, ht₁, ht₂, Tsbpd.Timer.deliveryTime_agree_iff (hd₁.trans hd₂.symm)
    (hbase₁.trans hbase₂.symm) (hdrift₁.trans hdrift₂.symm)⟩

/-- Any two synchronised members assign the same delivery time to a timestamp. -/
def AgreesOn (g : Group σ) (ts : ℕ) : Prop :=
  ∀ m₁ ∈ g.members, ∀ m₂ ∈ g.members, m₁.tbSynced = true → m₂.tbSynced = true →
    m₁.conn.rcv.tsbpdTimer.map (·.deliveryTime ts) = m₂.conn.rcv.tsbpdTimer.map (·.deliveryTime ts)

theorem AgreeByWraps.agreesOn {g : Group σ} (h : g.AgreeByWraps) (hun : g.Unwrapped) {ts : ℕ}
    (hts : ts < 2 ^ 32) : g.AgreesOn ts := by
  intro m₁ hm₁ m₂ hm₂ hsynced₁ hsynced₂
  obtain ⟨t₁, t₂, ht₁, ht₂, hiff⟩ := h m₁ hm₁ m₂ hm₂ hsynced₁ hsynced₂
  have hun₁ := (hun.members m₁ hm₁).timer t₁ ht₁
  have hun₂ := (hun.members m₂ hm₂).timer t₂ ht₂
  rw [ht₁, ht₂, Option.map_some, Option.map_some, hiff.mpr ⟨?_, ?_⟩ ts hts]
  · rw [hun₁.wrapOffset, hun₂.wrapOffset]
  · rw [hun₁.wrapPeriod, hun₂.wrapPeriod]

/-- In every run of a group of live members with one delay and without drift correction, whenever
they join: two synchronised members assign the same delivery times exactly when their timers have
counted the same wraps and are in the same phase.  So they do in every run in which no member
hears a timestamp close to the wrap. -/
theorem delivery_times_agree_iff [Controller σ] [Primitives] (mode : GroupMode) (d : ℤ)
    (es : List (GroupInput σ)) (hadds : ∀ e ∈ es, AddsDriftless d e) :
    AllStates Group.step AgreeByWraps (Group.new mode : Group σ) es ∧
      ((∀ e ∈ es, FarFromWrap e) →
        AllStates Group.step (fun g => ∀ ts < 2 ^ 32, g.AgreesOn ts)
          (Group.new mode : Group σ) es) := by
  have hinit : (Group.new mode : Group σ).Aligned d := by
    constructor <;> simp [new]
  have hsteps : AllSteps Group.step (fun _ e => AddsDriftless d e) (Group.new mode : Group σ) es :=
    allSteps_of_forall_mem hadds
  refine ⟨(hsteps.allStates (fun g e hg he => hg.step he) hinit).mono
    fun g hg => hg.agreeByWraps, fun hfar => ?_⟩
  have hunwrapped : (Group.new mode : Group σ).Unwrapped := by
    constructor <;> simp [new]
  have hboth : AllSteps Group.step (fun _ e => AddsDriftless d e ∧ FarFromWrap e)
      (Group.new mode : Group σ) es :=
    allSteps_of_forall_mem fun e he => ⟨hadds e he, hfar e he⟩
  exact (hboth.allStates (Q := fun g => g.Aligned d ∧ g.Unwrapped)
    (fun g e hg he => ⟨hg.1.step he.1, hg.2.step he.2⟩) ⟨hinit, hunwrapped⟩).mono
    fun g hg ts hts => hg.1.agreeByWraps.agreesOn hg.2 hts

end Group

variable {σ : Type}

namespace Group

section Examples

open scoped XorCipher

private def driftlessMember : Conn LiveCC :=
  (Conn.establish (LiveCC.new 0 0) 0
    { live := true, flowWindow := 32, bufferCapacity := 32 }).modifyTimer
    (·.setDriftEnabled false)

private def arrival (now : ℤ) (seqNo ts : ℕ) : List (GroupInput LiveCC) :=
  [.member 0 (.packet now (Packet.newData seqNo ts 0 [1])), .routeMember 0]

private def earlyJoin : List (GroupInput LiveCC) :=
  .addMember driftlessMember 1 :: arrival 0 0 1000000 ++ [.addMember driftlessMember 1,
    .routeMember 0]

/-- A second member joins after the timestamps of the sender have wrapped. -/
private def lateJoin : List (GroupInput LiveCC) :=
  .addMember driftlessMember 1 :: arrival 0 0 1000000 ++
    arrival 4283967296 1 4284967296 ++ arrival 4333967296 2 40000000 ++
    [.addMember driftlessMember 1, .routeMember 0]

private theorem unwrapped_driftlessMember : driftlessMember.Unwrapped := by
  refine ⟨rfl, fun t ht => ?_, fun p hp => ?_⟩
  · obtain rfl := Option.some.inj ht
    exact ⟨rfl, rfl⟩
  · obtain ⟨j, hstate, -⟩ := hp
    have hempty : (driftlessMember.rcv.recvBuf.entries j).state = .empty := rfl
    rw [hempty] at hstate
    cases hstate

theorem delivery_times_agree_iff_early :
    (∀ e ∈ earlyJoin, AddsDriftless 120000 e) ∧
      AllStates Group.step AgreeByWraps (Group.new .broadcast) earlyJoin ∧
      AllStates Group.step (fun g => ∀ ts < 2 ^ 32, g.AgreesOn ts)
        (Group.new .broadcast) earlyJoin ∧
      (exec Group.step (Group.new .broadcast) earlyJoin).members.map
        (fun m => (m.tbSynced, m.conn.rcv.tsbpdTimer.map (·.deliveryTime 2000000))) =
          [(true, some 1120000), (true, some 1120000)] := by
  have hadds : ∀ e ∈ earlyJoin, AddsDriftless 120000 e := by
    simp only [earlyJoin, arrival, List.cons_append, List.nil_append, List.forall_mem_cons]
    exact ⟨⟨_, rfl, rfl, rfl⟩, trivial, trivial, ⟨_, rfl, rfl, rfl⟩, trivial, by simp⟩
  have hfar : ∀ e ∈ earlyJoin, FarFromWrap e := by
    simp only [earlyJoin, arrival, List.cons_append, List.nil_append, List.forall_mem_cons]
    refine ⟨unwrapped_driftlessMember, ?_, trivial, unwrapped_driftlessMember, trivial, by simp⟩
    show Tsbpd.Timer.FarFromWrap 1000000
    decide
  have hagree := delivery_times_agree_iff .broadcast 120000 earlyJoin hadds
  exact ⟨hadds, hagree.1, hagree.2 hfar, by decide +kernel⟩

/-- A member that joins after a wrap plays a packet out more than an hour too early. -/
theorem late_member_misses_wrap :
    (∀ e ∈ lateJoin, AddsDriftless 120000 e) ∧
      ¬AgreesOn (exec Group.step (Group.new .broadcast) lateJoin) 41000000 := by
  constructor
  · simp only [lateJoin, arrival, List.cons_append, List.nil_append, List.forall_mem_cons]
    exact ⟨⟨_, rfl, rfl, rfl⟩, trivial, trivial, trivial, trivial, trivial, trivial,
      ⟨_, rfl, rfl, rfl⟩, trivial, by simp⟩
  · unfold AgreesOn
    decide +kernel

end Examples

end Group

end SrtGo.Core
