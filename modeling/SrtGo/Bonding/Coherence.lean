import SrtGo.Bonding.SendInStep

/-!
# One number for all copies of a message

A member that joins a group after the first message has not taken what came before, and neither
has a standby link, unless all of it is kept and sent to it.  The condition `Orderly` says where
this matters; in every other respect the members may fail, be dropped and be promoted at any time.
-/

namespace SrtGo.Bonding

open Bytes SrtGo.Seq Run MemberConn

/-! ## The monitor -/

namespace MemberConn

variable {sh : Shape} {ms : List Bytes} {mode : GroupMode} {mc : MemberConn}

theorem Fits.checkIdle (h : mc.Fits sh ms mode) (now : ℤ) :
    (mc.checkIdle now).Fits sh ms mode ∧ (mc.checkIdle now).status = mc.status := by
  rw [MemberConn.checkIdle]
  split_ifs
  · exact ⟨{ h with }, rfl⟩
  · exact ⟨h, rfl⟩

theorem conn_checkIdle (mc : MemberConn) (now : ℤ) : (mc.checkIdle now).conn = mc.conn ∧
    (mc.checkIdle now).isStandby = mc.isStandby := by
  rw [checkIdle]
  split_ifs <;> exact ⟨rfl, rfl⟩

theorem conn_requalify (stabTimeout now : ℤ) : (mc.requalify stabTimeout now).conn = mc.conn :=
  conn_assignBackupState _ now

theorem backupState_requalify (stabTimeout now : ℤ) :
    (mc.requalify stabTimeout now).backupState = (mc.qualifyBackupState stabTimeout now).1 :=
  backupState_assignBackupState _ now

theorem expire_cases (mc : MemberConn) (now : ℤ) : mc.expire now = mc ∨
    (mc.expire now).conn = mc.conn ∧ (mc.expire now).status = .broken := by
  rw [expire]
  generalize (if mc.conn.peerIdleTimeout = 0 then 5000000 else mc.conn.peerIdleTimeout) = d
  split_ifs
  · exact Or.inr ⟨rfl, rfl⟩
  · exact Or.inl rfl

theorem Fits.checkRunning (h : mc.Fits sh ms .backup) (stabTimeout now : ℤ)
    (hstatus : mc.status = .running) :
    (mc.checkRunning stabTimeout now).1.Fits sh ms .backup ∧
      ((mc.checkRunning stabTimeout now).1.isStandby = true →
        mc.isStandby = true ∧ (mc.checkRunning stabTimeout now).1.conn = mc.conn) := by
  obtain ⟨hfit, hrunning⟩ := h.requalify stabTimeout now hstatus rfl
  obtain ⟨hactive, -⟩ := qualifyBackupState_spec stabTimeout now hstatus ((h.sound rfl).1 hstatus)
  rw [← backupState_requalify] at hactive
  simp only [MemberConn.checkRunning]
  cases hs : (mc.requalify stabTimeout now).backupState with
  | activeStable => exact ⟨hfit, fun hst => absurd hst (by simp [isStandby, hrunning, hs])⟩
  | activeFresh => exact ⟨hfit, fun hst => absurd hst (by simp [isStandby, hrunning, hs])⟩
  | activeWary => exact ⟨hfit, fun hst => absurd hst (by simp [isStandby, hrunning, hs])⟩
  | activeUnstable =>
    obtain ⟨k, hk⟩ := hfit.carries
    rcases expire_cases (mc.requalify stabTimeout now) now with he | ⟨hconn, hbroken⟩
    · rw [he]
      exact ⟨hfit, fun hst => absurd hst (by simp [isStandby, hrunning, hs])⟩
    · exact ⟨Fits.of_broken (hconn ▸ hk) hbroken,
        fun hst => absurd hst (by simp [isStandby, hbroken])⟩
  | broken => exact absurd hs ((hfit.sound rfl).1 hrunning)
  | standby =>
    refine ⟨hfit, fun _ => ⟨?_, conn_requalify stabTimeout now⟩⟩
    -- a member that sends does not become a standby one
    rw [hs] at hactive
    cases hst : mc.backupState <;> simp_all [isStandby, isBackupActive]
    exact absurd hst ((h.sound rfl).1 hstatus)

theorem Fits.check (h : mc.Fits sh ms mode) (stabTimeout now : ℤ) (schedSeq : Option ℕ) :
    (mc.check mode stabTimeout now schedSeq).2.1.Fits sh ms mode ∧
      ((mc.check mode stabTimeout now schedSeq).2.1.isStandby = true →
        mc.isStandby = true ∧ (mc.check mode stabTimeout now schedSeq).2.1.conn = mc.conn) := by
  unfold MemberConn.check
  cases hst : mc.status with
  | broken => exact ⟨h, fun hs => ⟨hs, rfl⟩⟩
  | pending => exact absurd hst h.joined
  | idle =>
    obtain ⟨hconn, hstandby⟩ := conn_checkIdle mc now
    exact ⟨(h.checkIdle now).1, fun hs => ⟨hstandby ▸ hs, hconn⟩⟩
  | running =>
    obtain ⟨hconn, hstandby⟩ := conn_checkIdle mc now
    obtain ⟨hfit, hstatus⟩ := h.checkIdle now
    simp only
    split_ifs with hmode
    · subst hmode
      obtain ⟨hfit', hsame⟩ := hfit.checkRunning stabTimeout now (hstatus.trans hst)
      refine ⟨hfit', fun hs => ?_⟩
      obtain ⟨hs', hconn'⟩ := hsame hs
      exact ⟨hstandby ▸ hs', hconn'.trans hconn⟩
    · exact ⟨hfit, fun hs => ⟨hstandby ▸ hs, hconn⟩⟩

end MemberConn

namespace Group

variable {g : Group} {sh : Shape} {ms : List Bytes}

variable {mode : GroupMode}

theorem checkEach_fits (stabTimeout now : ℤ) (members : List MemberConn) (schedSeq : Option ℕ)
    (h : ∀ mc ∈ members, mc.Fits sh ms mode) :
    ∀ mc' ∈ (checkEach mode stabTimeout now members schedSeq).2.1, mc'.Fits sh ms mode ∧
      (mc'.isStandby = true → ∃ mc ∈ members, mc.isStandby = true ∧ mc'.conn = mc.conn) := by
  induction members generalizing schedSeq with
  | nil => simp [checkEach]
  | cons mc members ih =>
    intro mc' hmc'
    simp only [checkEach, List.mem_cons] at hmc'
    rcases hmc' with rfl | hmc'
    · obtain ⟨hfit, hsame⟩ := (h mc (by simp)).check stabTimeout now schedSeq
      exact ⟨hfit, fun hs => ⟨mc, by simp, hsame hs⟩⟩
    · obtain ⟨hfit, hsame⟩ := ih _ (fun mc hmc => h mc (List.mem_cons_of_mem _ hmc)) mc' hmc'
      refine ⟨hfit, fun hs => ?_⟩
      obtain ⟨mc1, hmc1, hs1⟩ := hsame hs
      exact ⟨mc1, List.mem_cons_of_mem _ hmc1, hs1⟩

/-- The monitor promotes a standby member only if it has taken every message. -/
def MonitorReady (g : Group) (now : ℤ) : Prop :=
  (g.checkAll now).2 = true ∨
    ∀ mc ∈ g.members, mc.isStandby = true → mc.conn.taken = g.written.length

theorem failover_spec (now : ℤ) (hasActive : Bool) :
    (g.failover now hasActive).mu = g.mu ∧ (g.failover now hasActive).mode = g.mode ∧
      (g.failover now hasActive).written = g.written ∧
      ∀ mc' ∈ (g.failover now hasActive).members, mc' ∈ g.members ∨
        g.mode = .backup ∧ hasActive = false ∧
          ∃ mc ∈ g.members, mc.isStandby = true ∧ mc' = activateFresh now mc := by
  rw [failover]
  split_ifs with hcond
  · rw [activateBestStandby]
    cases hbest : g.bestStandby with
    | none => exact ⟨rfl, rfl, rfl, fun _ => Or.inl⟩
    | some i =>
      refine ⟨rfl, rfl, rfl, fun mc' hmc' => (mem_modifyMember hmc').imp_right ?_⟩
      rintro ⟨mc, hmc, rfl⟩
      have hstandby := mem_indicesOf.mp (mem_of_heaviest_eq_some hbest)
      rw [hmc] at hstandby
      exact ⟨hcond.1, hcond.2, mc, List.mem_of_getElem? hmc, hstandby, rfl⟩
  · exact ⟨rfl, rfl, rfl, fun _ => Or.inl⟩

theorem checkMembers_fits (now : ℤ) (h : g.mu = .free) (hfit : g.AllFit sh g.written)
    (hready : g.mode = .backup → g.MonitorReady now) :
    ∃ g' dropped, g.checkMembers now = some (g', dropped) ∧ g'.AllFit sh g'.written ∧
      g'.mode = g.mode ∧ g'.written = g.written ∧
      ∀ mc ∈ dropped, ∃ k, mc.conn.Carries sh g.written k := by
  have hchecked := checkEach_fits g.stabTimeout now g.members g.lastSchedSeqNo hfit
  simp only [checkMembers, lock_of_free h, Option.bind_eq_bind, Option.bind_some]
  set gc := (({ g with mu := .writing } : Group).checkAll now).1 with hgc
  set hasActive := (({ g with mu := .writing } : Group).checkAll now).2 with hhas
  obtain ⟨hmu, hmode, hwritten, hmembers⟩ := failover_spec (g := gc) now hasActive
  -- a member that is promoted has taken every message
  have hfits : ∀ mc ∈ (gc.failover now hasActive).members, mc.Fits sh g.written g.mode := by
    intro mc' hmc'
    rcases hmembers mc' hmc' with hmc' | ⟨hbackup, hnone, mc, hmc, hstandby, rfl⟩
    · exact (hchecked mc' hmc').1
    · obtain ⟨hmcfit, hsame⟩ := hchecked mc hmc
      obtain ⟨mc0, hmc0, hstandby0, hconn⟩ := hsame hstandby
      obtain ⟨k, hk⟩ := hmcfit.carries
      have htaken : mc.conn.taken = g.written.length := by
        rcases hready hbackup with hactive | hall
        · exact absurd (hnone.symm.trans hactive) (by simp)
        · rw [hconn]
          exact hall mc0 hmc0 hstandby0
      have hall : mc.conn.Carries sh g.written g.written.length := by
        rw [← htaken, hk.taken_eq]
        exact hk
      exact MemberConn.Fits.of_carries hall (fun _ => by simp [activateFresh])
        (by simp [activateFresh])
  have hmuw : (gc.failover now hasActive).mu = .writing := hmu
  simp only [unlock, hmuw, if_true, Option.bind_some, Option.pure_def]
  refine ⟨_, _, rfl, fun mc hmc => ?_, hmode, hwritten, fun mc hmc => ?_⟩
  · have hm := hfits mc (List.mem_of_mem_filter hmc)
    have hw : (gc.failover now hasActive).written = g.written := hwritten
    have hmo : (gc.failover now hasActive).mode = g.mode := hmode
    simpa only [hw, hmo] using hm
  · exact (hfits mc (List.mem_of_mem_filter hmc)).carries

end Group

/-! ## Runs -/

structure Link.Starts (sh : Shape) (l : Link) : Prop where
  payloadSize_eq : l.payloadSize = sh.payloadSize
  tsbpd_eq : l.tsbpd = sh.tsbpd
  unaware : l.peerGroupID = 0
  queue_eq : l.queue = []
  sent_eq : l.sent = []
  next : l.nextSeq = wrap sh.start

variable {sh : Shape} {ms : List Bytes} {l : Link} {i j : ℕ}

theorem Link.Starts.carries (h : l.Starts sh) : l.Carries sh [] 0 :=
  ⟨h.payloadSize_eq, h.tsbpd_eq, h.unaware, le_rfl, by simp [h.sent_eq, h.queue_eq],
    by simp [h.queue_eq], by simp [h.sent_eq], by simp [h.sent_eq, h.next, Shape.number,
      Shape.offset]⟩

namespace Bond

/-- Members join before the first message, all with the same first number, payload size and mode,
and with peers that are not told of the group; the numbers do not run out; and a standby member
comes into use only if it has taken all messages, or takes all that it lacks from those that are
kept. -/
def Orderly (sh : Shape) (x : Bond) : GroupEvent → Prop
  | .addConn conn _ _ _ => x.group.written = [] ∧ conn.Starts sh
  | .connect conn _ _ _ => x.group.written = [] ∧
      (Group.dialGroupMember x.group.sendISN conn).Starts sh
  | .write now b =>
    sh.offset x.group.written x.group.written.length + sh.size b ≤ 2 ^ 31 ∧
      (x.group.mode = .backup → (x.group.qualifyMembers now).StandbyReady b)
  | .monitor now => x.group.mode = .backup → x.group.MonitorReady now
  | .received _ _ | .ship _ | .shipGone _ | .observe _ _ _ _ _ => True

/-- All copies of a message carry the same number, and no other message carries it. -/
structure Coherent (x : Bond) : Prop where
  same : ∀ l ∈ x.links, ∀ l' ∈ x.links, ∀ s ∈ l.sent, ∀ s' ∈ l'.sent, s.tag = s'.tag →
    s.seqNo = s'.seqNo
  distinct : ∀ l ∈ x.links, ∀ l' ∈ x.links, ∀ s ∈ l.sent, ∀ s' ∈ l'.sent, s.tag ≠ s'.tag →
    s.seqNo ≠ s'.seqNo

instance (x : Bond) : Decidable x.Coherent :=
  decidable_of_iff
    ((∀ l ∈ x.links, ∀ l' ∈ x.links, ∀ s ∈ l.sent, ∀ s' ∈ l'.sent, s.tag = s'.tag →
        s.seqNo = s'.seqNo) ∧
      ∀ l ∈ x.links, ∀ l' ∈ x.links, ∀ s ∈ l.sent, ∀ s' ∈ l'.sent, s.tag ≠ s'.tag →
        s.seqNo ≠ s'.seqNo)
    ⟨fun h => ⟨h.1, h.2⟩, fun h => ⟨h.same, h.distinct⟩⟩

structure InStep (sh : Shape) (x : Bond) : Prop where
  mode_ne : x.group.mode ≠ .balancing
  fit : x.group.AllFit sh x.group.written
  gone : ∀ l ∈ x.gone, ∃ k, l.Carries sh x.group.written k
  bound : sh.offset x.group.written x.group.written.length ≤ 2 ^ 31

variable {sh : Shape} {x : Bond}

theorem InStep.carries (h : x.InStep sh) (hl : l ∈ x.links) :
    ∃ k, l.Carries sh x.group.written k := by
  rcases List.mem_append.mp hl with hl | hl
  · obtain ⟨mc, hmc, rfl⟩ := List.mem_map.mp hl
    exact (h.fit mc hmc).carries
  · exact h.gone l hl

end Bond

theorem Shape.one_le_size (sh : Shape) (b : Bytes) : 1 ≤ sh.size b := by
  unfold Shape.size packetCount
  split_ifs with hb
  · exact le_rfl
  · push Not at hb
    cases b with
    | nil => exact absurd hb.2.1 (by simp)
    | cons x b => simp [Core.fragments]

theorem Shape.offset_lt (sh : Shape) (hij : i < j) (hj : j ≤ ms.length) :
    sh.offset ms i < sh.offset ms j := by
  induction j with
  | zero => omega
  | succ j ih =>
    have hget : ms[j]? = some ms[j] := List.getElem?_eq_getElem (by omega)
    have hsize := sh.one_le_size ms[j]
    rw [Shape.offset_succ hget]
    rcases Nat.lt_or_ge i j with hlt | hge
    · have := ih hlt (by omega)
      omega
    · have : i = j := by omega
      subst this
      omega

theorem Link.Carries.tag_lt {k : ℕ} (h : l.Carries sh ms k) {s : Shipment} (hs : s ∈ l.sent) :
    s.tag < ms.length := by
  have hmem : s.tag ∈ List.range k := by
    rw [← h.tags]
    exact List.mem_append_left _ (List.mem_map_of_mem hs)
  exact lt_of_lt_of_le (List.mem_range.mp hmem) h.le

/-- Different messages have different numbers, as long as these do not run out. -/
theorem Shape.number_ne (hbound : sh.offset ms ms.length ≤ 2 ^ 31) (hij : i < j)
    (hj : j < ms.length) :
    sh.number ms i ≠ sh.number ms j := by
  have hlt := sh.offset_lt hij hj.le
  have hend := sh.offset_lt hj le_rfl
  unfold Shape.number wrap
  omega

namespace Bond

variable {sh : Shape} {x : Bond}

theorem InStep.coherent (h : x.InStep sh) : x.Coherent := by
  refine ⟨fun l hl l' hl' s hs s' hs' htag => ?_, fun l hl l' hl' s hs s' hs' htag => ?_⟩
  · obtain ⟨k, hk⟩ := h.carries hl
    obtain ⟨k', hk'⟩ := h.carries hl'
    rw [hk.numbers s hs, hk'.numbers s' hs', htag]
  · obtain ⟨k, hk⟩ := h.carries hl
    obtain ⟨k', hk'⟩ := h.carries hl'
    rw [hk.numbers s hs, hk'.numbers s' hs']
    rcases Nat.lt_or_gt_of_ne htag with hlt | hgt
    · exact Shape.number_ne h.bound hlt (hk'.tag_lt hs')
    · exact (Shape.number_ne h.bound hgt (hk.tag_lt hs)).symm

theorem InStep.of_wrote (h : x.InStep sh) {g' : Group} {b : Bytes}
    (hwrote : Group.Wrote sh b x.group g')
    (hbound : sh.offset x.group.written x.group.written.length + sh.size b ≤ 2 ^ 31) :
    InStep sh { x with group := g' } := by
  rcases hwrote.written with hw | hw
  · refine ⟨hwrote.mode_eq ▸ h.mode_ne, hwrote.fit, ?_, ?_⟩
    · simpa only [hw] using h.gone
    · simpa only [hw] using h.bound
  · refine ⟨hwrote.mode_eq ▸ h.mode_ne, hwrote.fit, fun l hl => ?_, ?_⟩
    · obtain ⟨k, hk⟩ := h.gone l hl
      refine ⟨k, ?_⟩
      simp only [hw]
      refine hk.congr ?_ ?_
      · rw [List.take_append_of_le_length hk.le]
      · simpa using Nat.le_succ_of_le hk.le
    · simp only [hw, List.length_append, List.length_singleton]
      rw [Shape.offset_succ (b := b) (by simp),
        Shape.offset_congr x.group.written (k := x.group.written.length) (by simp) le_rfl]
      exact hbound

end Bond

namespace Group

variable {g : Group}

theorem write_of_held [SortFunc] (h : g.mu ≠ .free) (hclosed : g.closed = false) (now : ℤ)
    (b : Bytes) :
    g.write now b = none := by
  rw [write, if_neg (by simp [hclosed])]
  cases g.mode <;> simp [writeBroadcast, writeBackup, writeBalancing, lock, rLock, h]

theorem write_fits [SortFunc] (now : ℤ) (b : Bytes) (hmode : g.mode ≠ .balancing)
    (hmu : g.mu = .free) (hfit : g.AllFit sh g.written) (hready : g.mode = .backup →
      (g.qualifyMembers now).StandbyReady b) :
    ∃ g' r, g.write now b = some (g', r) ∧ Wrote sh b g g' := by
  rw [write]
  split_ifs
  · exact ⟨g, _, rfl, .refl hfit⟩
  cases hm : g.mode with
  | balancing => exact absurd hm hmode
  | broadcast =>
    obtain ⟨g', r, hrun, hspec⟩ := sendBroadcast_fits (b := b) hm hmu hfit
    rw [← writeBroadcast_of_free b hmu] at hrun
    exact ⟨g', r, hrun, hspec⟩
  | backup => exact writeBackup_fits now hm hmu hfit (hready hm)

theorem addConn_fits {conn : Link} (token : ℤ) (weight : ℕ) (now : ℤ) (hfit : g.AllFit sh g.written)
    (hwritten : g.written = []) (hconn : conn.Starts sh) :
    ∀ g' ∈ g.addConn conn token weight now, g'.AllFit sh g'.written ∧ g'.mode = g.mode ∧
      g'.written = g.written := by
  intro g' hg'
  have hjoin : (joinSeq g.lastSchedSeqNo conn).2 = conn := by
    unfold joinSeq
    split <;> simp [hconn.unaware]
  rw [Option.mem_def, addConn] at hg'
  split_ifs at hg'
  · cases hg'
    exact ⟨hfit, rfl, rfl⟩
  by_cases hmu : g.mu = .free
  · simp only [lock_of_free hmu, unlock, Option.bind_eq_bind, Option.bind_some, if_true,
      Option.some.injEq, hjoin] at hg'
    subst hg'
    refine ⟨fun mc hmc => ?_, rfl, rfl⟩
    rcases List.mem_append.mp hmc with hmc | hmc
    · exact hfit mc hmc
    · rw [List.mem_singleton.mp hmc]
      refine MemberConn.Fits.of_carries ?_ (fun _ => by simp) (by simp)
      simpa [hwritten] using hconn.carries
  · simp [lock, hmu] at hg'

theorem modifyConn_fits {f : Link → Link} (hfit : g.AllFit sh ms)
    (hf : ∀ (l : Link) (k : ℕ), l.Carries sh ms k → (f l).Carries sh ms k) :
    (g.modifyConn i f).AllFit sh ms := by
  refine hfit.modifyMember fun mc hmc => ?_
  have hm := hfit mc (List.mem_of_getElem? hmc)
  obtain ⟨k, hk⟩ := hm.carries
  exact ⟨⟨k, hf _ _ hk⟩, fun hs => hf _ _ (hm.abreast hs), hm.sound, hm.joined⟩

end Group

theorem MemberConn.Fits.received {mc : MemberConn} (h : mc.Fits sh ms mode) (now : ℤ) :
    Fits sh ms mode
      { mc with
        lastResponse := now
        status := if mc.status = .idle then .running else mc.status
        isIdle := false } := by
  by_cases hidle : mc.status = .idle
  · refine ⟨h.carries, fun hs => h.abreast ?_, fun hmode => ?_, by simp [hidle]⟩
    · cases mode with
      | backup => simp [sends, isActive, hidle, (h.sound rfl).2 hidle, isBackupActive] at hs
      | broadcast => simp [sends, hidle]
      | balancing => simp [sends, hidle]
    · simp [hidle, (h.sound hmode).2 hidle]
  · simp only [hidle, if_false]
    exact { h with }

namespace Group

variable {g : Group}

theorem received_fits (now : ℤ) (hfit : g.AllFit sh g.written) :
    ∀ g' ∈ g.received i now, g'.AllFit sh g'.written ∧ g'.mode = g.mode ∧
      g'.written = g.written := by
  intro g' hg'
  rw [Option.mem_def, received] at hg'
  by_cases hmu : g.mu = .free
  · simp only [lock_of_free hmu, unlock_modifyMember hmu, Option.bind_eq_bind, Option.bind_some,
      Option.some.injEq] at hg'
    subst hg'
    exact ⟨hfit.modifyMember fun mc hmc => (hfit mc (List.mem_of_getElem? hmc)).received now, rfl,
      rfl⟩
  · simp [lock, hmu] at hg'

end Group

namespace Bond

variable {sh : Shape} {x : Bond}

theorem InStep.attempt (h : x.InStep sh) {o : Option Group}
    (ho : ∀ g' ∈ o, g'.AllFit sh g'.written ∧ g'.mode = x.group.mode ∧
      g'.written = x.group.written) : (x.attempt o).InStep sh := by
  cases o with
  | none => exact h
  | some g' =>
    obtain ⟨hfit, hmode, hwritten⟩ := ho g' rfl
    refine ⟨hmode ▸ h.mode_ne, hfit, ?_, ?_⟩
    · change ∀ l ∈ x.gone, ∃ k, l.Carries sh g'.written k
      rw [hwritten]
      exact h.gone
    · change sh.offset g'.written g'.written.length ≤ 2 ^ 31
      rw [hwritten]
      exact h.bound

theorem inStep_write [SortFunc] (h : x.InStep sh) (now : ℤ) (b : Bytes)
    (ho : x.Orderly sh (.write now b)) :
    (x.step (.write now b)).InStep sh := by
  obtain ⟨hbound, hready⟩ := ho
  by_cases hmu : x.group.mu = .free
  · obtain ⟨g', r, hrun, hwrote⟩ := Group.write_fits now b h.mode_ne hmu h.fit hready
    simp only [step, Bond.attempt, hrun, Option.map_some, Option.getD_some]
    exact h.of_wrote hwrote hbound
  · by_cases hclosed : x.group.closed = true
    · simp only [step, Bond.attempt, Group.write, hclosed, if_true, Option.map_some,
        Option.getD_some]
      exact h
    · simp only [step, Bond.attempt, Group.write_of_held hmu (by simpa using hclosed),
        Option.map_none, Option.getD_none]
      exact h

theorem inStep_step [SortFunc] (h : x.InStep sh) (e : GroupEvent) (ho : x.Orderly sh e) :
    (x.step e).InStep sh := by
  cases e with
  | addConn conn token weight now =>
    exact h.attempt (Group.addConn_fits token weight now h.fit ho.1 ho.2)
  | connect conn token weight now =>
    refine h.attempt ?_
    rw [Group.connect, if_neg h.mode_ne]
    exact Group.addConn_fits token weight now h.fit ho.1 ho.2
  | write now b => exact inStep_write h now b ho
  | monitor now =>
    by_cases hmu : x.group.mu = .free
    · obtain ⟨g', dropped, hrun, hfit, hmode, hwritten, hdropped⟩ :=
        Group.checkMembers_fits now hmu h.fit ho
      simp only [step, hrun]
      refine ⟨hmode ▸ h.mode_ne, hfit, fun l hl => ?_, ?_⟩
      · simp only [hwritten]
        rcases List.mem_append.mp hl with hl | hl
        · exact h.gone l hl
        · obtain ⟨mc, hmc, rfl⟩ := List.mem_map.mp hl
          exact hdropped mc hmc
      · simp only [hwritten]
        exact h.bound
    · have hnone : x.group.checkMembers now = none := by simp [Group.checkMembers, Group.lock, hmu]
      simp only [step, hnone]
      exact h
  | received i now => exact h.attempt (Group.received_fits now h.fit)
  | ship i =>
    exact { h with fit := Group.modifyConn_fits h.fit fun l k hk => hk.ship }
  | shipGone i =>
    refine ⟨h.mode_ne, h.fit, fun l hl => ?_, h.bound⟩
    obtain ⟨j, hj⟩ := List.mem_iff_getElem?.mp hl
    simp only [step, List.getElem?_modify] at hj
    cases hlj : x.gone[j]? with
    | none => simp [hlj] at hj
    | some l0 =>
      obtain ⟨k, hk⟩ := h.gone l0 (List.mem_of_getElem? hlj)
      rw [hlj, Option.map_eq_map, Option.map_some, Option.some.injEq] at hj
      split_ifs at hj
      · exact ⟨k, hj ▸ hk.ship⟩
      · exact ⟨k, hj ▸ hk⟩
  | observe i ackSeqNo connected groupIdle stats =>
    refine ⟨h.mode_ne, Group.modifyConn_fits h.fit fun l k hk => ?_, h.gone, h.bound⟩
    exact { hk with }

theorem inStep_new (sh : Shape) (hmode : mode ≠ .balancing) (sendISN : ℕ) :
    (new mode sendISN).InStep sh :=
  ⟨hmode, by simp [Group.AllFit, new], by simp [new], by simp [new, Shape.offset]⟩

/-- In every run of a broadcast or backup group whose steps are orderly, all copies of a message
carry the same number, and no other message carries it. -/
theorem copies_share_one_number [SortFunc] (sh : Shape) (mode : GroupMode)
    (hmode : mode ≠ .balancing) (sendISN : ℕ) (es : List GroupEvent)
    (hrun : AllSteps Bond.step (fun x e => x.Orderly sh e) (new mode sendISN) es) :
    AllStates Bond.step Bond.Coherent (new mode sendISN) es := by
  have hinv : AllStates Bond.step (InStep sh) (new mode sendISN) es :=
    hrun.allStates (fun _ e h ho => inStep_step h e ho) (inStep_new sh hmode sendISN)
  exact hinv.mono fun _ => InStep.coherent

section Examples

open scoped StableSort

/-- A connection that takes one message and refuses the next one. -/
private def failingLink : Link :=
  { nextSeq := 0, result := fun n => if n = 0 then none else some "srt: connection closed" }

/-- Two members of a backup group; the first one fails at the second message. -/
private def failoverRun : List GroupEvent :=
  [.connect failingLink 1 100 0, .connect { nextSeq := 0 } 2 50 0, .write 0 [1], .write 100 [2]]

/-- The second member is sent the first message from those that are kept, and then the second
one, under the numbers that these have on the first member. -/
theorem copies_share_one_number_after_failover :
    AllSteps Bond.step (fun x e => x.Orderly ⟨7, 1316, true⟩ e) (new .backup 7) failoverRun ∧
      AllStates Bond.step Bond.Coherent (new .backup 7) failoverRun ∧
      (exec Bond.step (new .backup 7) failoverRun).links.map Link.sent =
        [[⟨0, 7⟩], [⟨0, 7⟩, ⟨1, 8⟩]] := by
  have horderly : AllSteps Bond.step (fun x e => x.Orderly ⟨7, 1316, true⟩ e) (new .backup 7)
      failoverRun := by
    refine ⟨⟨rfl, rfl, rfl, rfl, rfl, rfl, rfl⟩, ⟨rfl, rfl, rfl, rfl, rfl, rfl, rfl⟩,
      ⟨by decide, fun _ => by decide⟩, ⟨by decide, fun _ => by decide⟩, trivial⟩
  exact ⟨horderly, copies_share_one_number _ .backup (by decide) 7 _ horderly, rfl⟩

/-- A member joins a broadcast group after the first message.  The second message has the number
8 on the first member and the number 7 on the second one, which is that of the first message. -/
theorem late_member_starts_over :
    ¬(exec Bond.step (new .broadcast 7)
      [.connect { nextSeq := 0 } 1 0 0, .write 0 [1], .connect { nextSeq := 0 } 2 0 0,
        .write 100 [2]]).Coherent := by
  decide

end Examples

end Bond

end SrtGo.Bonding
