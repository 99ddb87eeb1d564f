import SrtGo.Bonding.Carries

/-!
# A write keeps the members in step

A call of `Write` hands the message to every member that is sending.  A member that takes it is
in step with the longer list of messages, and one that refuses it is broken.  In backup mode a
standby member may be used in addition, or instead; it is in step if it has caught up.
-/

namespace SrtGo.Bonding

open Bytes SrtGo.Seq MemberConn

/-! ## Sending -/

variable {l : Link} {f : MemberConn → MemberConn}

theorem Link.renumber_of_unaware (h : l.peerGroupID = 0) (curseq : Option ℕ) :
    l.renumber curseq = l := by
  cases curseq with
  | none => rfl
  | some s => exact if_neg (by simpa using h)

namespace Group

variable {g : Group} {p : Parcel} {i : ℕ}

theorem sendAll_unaware (sync : Bool) {activate : Group → ℕ → Option Group} {l : List ℕ} (t : Tally)
    (hactivate : ∀ (g : Group) (i : ℕ), g.mu = .free → activate g i = some (g.modifyMember i f))
    (hl : l.Nodup)
    (h : g.mu = .free) (hmem : ∀ i ∈ l, ∃ mc, g.members[i]? = some mc ∧ mc.conn.peerGroupID = 0) :
    ∃ g' t', sendAll sync activate p l (g, t) = some (g', t') ∧ Kept g g' ∧
      (∀ j, g'.members[j]? = (g.members[j]?).map fun mc =>
        if j ∈ l then mc.afterSend p g.mode f else mc) ∧
      (t'.nsuccessful = 0 ↔ t.nsuccessful = 0 ∧ ∀ i ∈ l, g.accepts p i = false) ∧
      ((t.curseq = none ↔ t.nsuccessful = 0) → (t'.curseq = none ↔ t'.nsuccessful = 0)) := by
  obtain ⟨g', t', hrun, hkept, hmembers, hcount⟩ := sendAll_spec sync hactivate (p := p) hl t h
  refine ⟨g', t', hrun, hkept, fun j => ?_, hcount⟩
  obtain ⟨curseq, hj⟩ := hmembers j
  rw [hj]
  by_cases hjl : j ∈ l
  · obtain ⟨mc, hmc, hpeer⟩ := hmem j hjl
    rw [hmc]
    simp [hjl, alignedSend, mapConn, Link.renumber_of_unaware hpeer]
  · simp [hjl]

/-- What is done to a member that has taken a message does not concern its connection. -/
structure Harmless (mode : GroupMode) (f : MemberConn → MemberConn) : Prop where
  conn_eq : ∀ mc, (f mc).conn = mc.conn
  joined : ∀ mc, mc.status ≠ .pending → (f mc).status ≠ .pending
  sound : ∀ mc, mc.Sound mode → (f mc).Sound mode

end Group

namespace MemberConn

open SrtGo.Bonding.Group

variable {sh : Shape} {ms : List Bytes} {mode : GroupMode} {mc : MemberConn} {b : Bytes}
  {f : MemberConn → MemberConn}

theorem carries_of_taken (h : mc.conn.Carries sh ms ms.length)
    (hp : (mc.conn.write ⟨ms.length, b⟩).2 = none) :
    (mc.conn.write ⟨ms.length, b⟩).1.Carries sh (ms ++ [b]) (ms ++ [b]).length := by
  have h' : mc.conn.Carries sh (ms ++ [b]) ms.length := h.congr (by simp) (by simp)
  rw [List.length_append, List.length_singleton]
  exact h'.write_taken hp rfl (by simp)

theorem Fits.afterSend (h : mc.Fits sh ms mode) (hsends : mc.sends mode = true)
    (hf : Harmless mode f) : (mc.afterSend ⟨ms.length, b⟩ mode f).Fits sh (ms ++ [b]) mode := by
  have hk := h.abreast hsends
  rw [MemberConn.afterSend]
  by_cases hp : (mc.conn.write ⟨ms.length, b⟩).2 = none
  · rw [if_pos hp]
    refine Fits.of_carries ?_ (hf.sound _ h.sound) (hf.joined _ h.joined)
    rw [hf.conn_eq]
    exact carries_of_taken hk hp
  · rw [if_neg hp]
    have hk' : mc.conn.Carries sh (ms ++ [b]) ms.length := hk.congr (by simp) (by simp)
    exact Fits.of_broken (hk'.write_refused hp) rfl

theorem Fits.afterSend_refused (h : mc.Fits sh ms mode) (hsends : mc.sends mode = true)
    (hp : (mc.conn.write ⟨ms.length, b⟩).2 ≠ none) :
    (mc.afterSend ⟨ms.length, b⟩ mode f).Fits sh ms mode ∧
      (mc.afterSend ⟨ms.length, b⟩ mode f).sends mode = false := by
  rw [MemberConn.afterSend, if_neg hp]
  refine ⟨Fits.of_broken ((h.abreast hsends).write_refused hp) rfl, ?_⟩
  cases mode <;> rfl

end MemberConn

variable {ms : List Bytes} {mc : MemberConn} {t : Tally} {g' : Group} {k : ℕ}

namespace Group

variable {g : Group} {sh : Shape} {b : Bytes} {q : MemberConn → Bool}

def AllFit (sh : Shape) (ms : List Bytes) (g : Group) : Prop :=
  ∀ mc ∈ g.members, mc.Fits sh ms g.mode

theorem AllFit.unaware (h : g.AllFit sh ms) :
    ∀ i ∈ g.indicesOf q, ∃ mc, g.members[i]? = some mc ∧ mc.conn.peerGroupID = 0 := by
  intro i hi
  rw [mem_indicesOf] at hi
  cases hmc : g.members[i]? with
  | none => simp [hmc] at hi
  | some mc =>
    obtain ⟨k, hk⟩ := (h mc (List.mem_of_getElem? hmc)).carries
    exact ⟨mc, rfl, hk.unaware⟩

theorem AllFit.modifyMember {i : ℕ} (h : g.AllFit sh ms)
    (hf : ∀ mc, g.members[i]? = some mc → (f mc).Fits sh ms g.mode) :
    (g.modifyMember i f).AllFit sh ms := by
  intro mc' hmc'
  rcases mem_modifyMember hmc' with hmc' | ⟨mc, hmc, rfl⟩
  · exact h mc' hmc'
  · exact hf mc hmc

/-- The messages that count: the one of this call does if a member has taken it. -/
def counted (t : Tally) (ms : List Bytes) (b : Bytes) : List Bytes :=
  if t.nsuccessful = 0 then ms else ms ++ [b]

theorem counted_cases (t : Tally) (ms : List Bytes) (b : Bytes) :
    t.nsuccessful = 0 ∧ counted t ms b = ms ∨ t.nsuccessful ≠ 0 ∧ counted t ms b = ms ++ [b] := by
  unfold counted
  split_ifs with ht
  · exact Or.inl ⟨ht, rfl⟩
  · exact Or.inr ⟨ht, rfl⟩

/-- What a call leaves behind: all members fit the messages that count. -/
structure Wrote (sh : Shape) (b : Bytes) (g g' : Group) : Prop where
  fit : g'.AllFit sh g'.written
  mode_eq : g'.mode = g.mode
  written : g'.written = g.written ∨ g'.written = g.written ++ [b]

theorem Wrote.refl (h : g.AllFit sh g.written) : Wrote sh b g g := ⟨h, rfl, Or.inl rfl⟩

theorem AllFit.record (h : g'.AllFit sh (counted t g.written b)) (hmode : g'.mode = g.mode)
    (hwritten : g'.written = g.written) : Wrote sh b g (g'.record b t) := by
  rw [Group.record]
  rcases counted_cases t g.written b with ⟨ht, hms⟩ | ⟨ht, hms⟩
  · rw [if_pos ht]
    exact ⟨by rw [hwritten]; exact hms ▸ h, hmode, Or.inl hwritten⟩
  · rw [if_neg ht]
    have hlonger : g'.written ++ [b] = g.written ++ [b] := by rw [hwritten]
    exact ⟨hlonger ▸ hms ▸ h, hmode, Or.inr hlonger⟩

theorem forall_indicesOf_refused {p : Parcel} : (∀ i ∈ g.indicesOf q, g.accepts p i = false) ↔
      ∀ mc ∈ g.members, q mc = true → (mc.conn.write p).2 ≠ none := by
  constructor
  · intro h mc hmc hq
    obtain ⟨i, hi⟩ := List.mem_iff_getElem?.mp hmc
    have hrefused := h i (by rw [mem_indicesOf, hi]; exact hq)
    simpa [accepts, hi] using hrefused
  · intro h i hi
    rw [mem_indicesOf] at hi
    cases hmc : g.members[i]? with
    | none => simp [hmc] at hi
    | some mc =>
      have hrefused := h mc (List.mem_of_getElem? hmc) (by simpa [hmc] using hi)
      simpa [accepts, hmc] using hrefused

private def setRunning (mc : MemberConn) : MemberConn := { mc with status := .running }

def broadcastTo (p : Parcel) (mode : GroupMode) (mc : MemberConn) : MemberConn :=
  match mc.status with
  | .running => mc.afterSend p mode id
  | .idle => mc.afterSend p mode setRunning
  | .pending | .broken => mc

theorem broadcast_phases (hmode : g.mode = .broadcast) (h : g.mu = .free)
    (hfit : g.AllFit sh g.written) :
    ∃ g1 t1 g2 t2,
      sendAll false (fun g _ => some g) (g.parcel b) (g.indicesOf fun mc => mc.status = .running)
        (g, {}) = some (g1, t1) ∧
      sendAll true promote (g.parcel b) (g.indicesOf fun mc => mc.status = .idle) (g1, t1) =
        some (g2, t2) ∧ Kept g g2 ∧
      g2.members = g.members.map (broadcastTo (g.parcel b) g.mode) ∧
      (t2.nsuccessful = 0 ↔ ∀ mc ∈ g.members, mc.sends g.mode = true →
        (mc.conn.write (g.parcel b)).2 ≠ none) := by
  have hmem : ∀ (st : MemberStatus) (j : ℕ) (mc : MemberConn), g.members[j]? = some mc →
      (j ∈ g.indicesOf (fun mc => mc.status = st) ↔ mc.status = st) := by
    intro st j mc hmc
    rw [mem_indicesOf, hmc]
    simp
  obtain ⟨g1, t1, hrun1, hkept1, hmembers1, hcount1, -⟩ :=
    sendAll_unaware _ (p := g.parcel b) (l := g.indicesOf fun mc => mc.status = .running)
      {} (fun g i _ => some_eq_modifyMember_id g i) (nodup_indicesOf g _) h hfit.unaware
  have hunchanged : ∀ j ∈ g.indicesOf (fun mc => mc.status = .idle),
      g1.members[j]? = g.members[j]? := by
    intro j hj
    rw [hmembers1]
    cases hmc : g.members[j]? with
    | none => rfl
    | some mc =>
      have hidle := (hmem .idle j mc hmc).mp hj
      have hnot : ¬j ∈ g.indicesOf (fun mc => mc.status = .running) := by
        rw [hmem .running j mc hmc, hidle]
        simp
      rw [Option.map_some, if_neg hnot]
  obtain ⟨g2, t2, hrun2, hkept2, hmembers2, hcount2, -⟩ :=
    sendAll_unaware _ (p := g.parcel b) (l := g.indicesOf fun mc => mc.status = .idle)
      (f := setRunning)
      t1 (fun g i hg => promote_of_free hg) (nodup_indicesOf g _) (hkept1.mu_eq.trans h)
        fun i hi => by
        rw [hunchanged i hi]
        exact hfit.unaware i hi
  refine ⟨g1, t1, g2, t2, hrun1, hrun2, hkept1.trans hkept2, ?_, ?_⟩
  · refine List.ext_getElem? fun j => ?_
    rw [hmembers2, hmembers1, List.getElem?_map, Option.map_map, hkept1.mode_eq]
    cases hmc : g.members[j]? with
    | none => rfl
    | some mc =>
      have hrunning := hmem .running j mc hmc
      have hidle := hmem .idle j mc hmc
      cases hst : mc.status <;> simp [broadcastTo, hst, hrunning, hidle]
  · have hidle : ∀ i ∈ g.indicesOf (fun mc => mc.status = .idle),
        (g1.accepts (g.parcel b) i = false ↔ g.accepts (g.parcel b) i = false) := by
      intro i hi
      rw [accepts_congr (hunchanged i hi)]
    rw [hcount2, hcount1, forall₂_congr hidle, forall_indicesOf_refused, forall_indicesOf_refused]
    simp only [true_and, ← forall₂_and, hmode, sends, Bool.or_eq_true, or_imp]

theorem harmless_id (mode : GroupMode) : Harmless mode id :=
  ⟨fun _ => rfl, fun _ => id, fun _ => id⟩

theorem harmless_setRunning : Harmless .broadcast setRunning :=
  ⟨fun _ => rfl, fun _ _ => by simp [setRunning], fun _ _ hmode => by simp at hmode⟩

theorem fits_broadcastTo (h : mc.Fits sh ms .broadcast) :
    (broadcastTo ⟨ms.length, b⟩ .broadcast mc).Fits sh (ms ++ [b]) .broadcast := by
  unfold broadcastTo
  cases hst : mc.status with
  | running => exact h.afterSend (by simp [sends, hst]) (harmless_id _)
  | idle => exact h.afterSend (by simp [sends, hst]) harmless_setRunning
  | pending => exact h.of_not_sends (by simp [sends, hst]) b
  | broken => exact h.of_not_sends (by simp [sends, hst]) b

theorem fits_broadcastTo_refused (h : mc.Fits sh ms .broadcast)
    (hp : mc.sends .broadcast = true → (mc.conn.write ⟨ms.length, b⟩).2 ≠ none) :
    (broadcastTo ⟨ms.length, b⟩ .broadcast mc).Fits sh ms .broadcast := by
  unfold broadcastTo
  have hsends : mc.status = .running ∨ mc.status = .idle → mc.sends .broadcast = true := by
    intro hst
    simpa [sends] using hst
  cases hst : mc.status with
  | running => exact (h.afterSend_refused (hsends (Or.inl hst)) (hp (hsends (Or.inl hst)))).1
  | idle => exact (h.afterSend_refused (hsends (Or.inr hst)) (hp (hsends (Or.inr hst)))).1
  | pending => exact h
  | broken => exact h

theorem sendBroadcast_fits (hmode : g.mode = .broadcast) (h : g.mu = .free)
    (hfit : g.AllFit sh g.written) :
    ∃ g' r, g.sendBroadcast b (g.indicesOf fun mc => mc.status = .running)
        (g.indicesOf fun mc => mc.status = .idle) = some (g', r) ∧ Wrote sh b g g' := by
  rw [sendBroadcast]
  split_ifs
  · exact ⟨g, _, rfl, .refl hfit⟩
  obtain ⟨g1, t1, g2, t2, hrun1, hrun2, hkept, hmembers, hcount⟩ :=
    broadcast_phases (b := b) hmode h hfit
  simp only [hrun1, hrun2, Option.bind_eq_bind, Option.bind_some, Option.pure_def]
  refine ⟨_, _, rfl, AllFit.record ?_ hkept.mode_eq hkept.written_eq⟩
  -- what the broadcast makes of a member fits as it should
  intro mc' hmc'
  change mc'.Fits sh _ g2.mode
  rw [show (g2.noteSeq t2.curseq).members = g2.members from rfl, hmembers] at hmc'
  obtain ⟨mc, hmc, rfl⟩ := List.mem_map.mp hmc'
  have hmcfit := hfit mc hmc
  rw [hkept.mode_eq]
  rcases counted_cases t2 g.written b with ⟨ht, hms⟩ | ⟨ht, hms⟩
  · have hp := hcount.mp ht mc hmc
    rw [hms]
    rw [hmode] at hmcfit hp ⊢
    exact fits_broadcastTo_refused hmcfit hp
  · rw [hms]
    rw [hmode] at hmcfit ⊢
    exact fits_broadcastTo hmcfit

/-! ## Backup -/

theorem AllFit.qualifyMembers (h : g.AllFit sh ms) (hmode : g.mode = .backup) (now : ℤ) :
    (g.qualifyMembers now).AllFit sh ms := by
  intro mc' hmc'
  obtain ⟨mc, hmc, rfl⟩ := List.mem_map.mp hmc'
  split_ifs with hst
  · exact ((h mc hmc).requalify _ now hst.1 hmode).1
  · exact h mc hmc

def parcels (ms : List Bytes) : List Parcel := ms.mapIdx fun j b => ⟨j, b⟩

end Group

def Link.takesAll : Link → List Parcel → Bool
  | _, [] => true
  | l, p :: ps => decide ((l.write p).2 = none) && takesAll (l.write p).1 ps

theorem Link.Carries.writeAll {sh : Shape} (h : l.Carries sh ms k)
    (hps : l.takesAll ((Group.parcels ms).drop k) = true) :
    (l.writeAll ((Group.parcels ms).drop k)).Carries sh ms ms.length := by
  -- on the number of messages that are missing
  induction hn : ms.length - k generalizing l k with
  | zero =>
    have hk : k = ms.length := by have := h.le; omega
    subst hk
    rw [List.drop_of_length_le (by simp [Group.parcels])]
    exact h
  | succ n ih =>
    have hk : k < ms.length := by omega
    have hdrop : (Group.parcels ms).drop k = ⟨k, ms[k]⟩ :: (Group.parcels ms).drop (k + 1) := by
      rw [List.drop_eq_getElem_cons (by simpa [Group.parcels] using hk)]
      simp [Group.parcels]
    rw [hdrop] at hps ⊢
    simp only [takesAll, Bool.and_eq_true, decide_eq_true_eq] at hps
    exact ih (h.write_taken hps.1 rfl (List.getElem?_eq_getElem hk)) hps.2 (by omega)

namespace Group

variable {g : Group} {sh : Shape} {b : Bytes} {i : ℕ}

/-- What a standby member needs before it is used: it has taken every message, or it takes those
that are kept and these are all that it lacks. -/
def CaughtUp (g : Group) (replay : Bool) (l : Link) : Prop :=
  if replay then
    g.senderBuf.map BufferedMsg.parcel = (parcels g.written).drop l.taken ∧
      l.takesAll (g.senderBuf.map BufferedMsg.parcel) = true
  else l.taken = g.written.length

instance (g : Group) (replay : Bool) (l : Link) : Decidable (g.CaughtUp replay l) := by
  unfold CaughtUp
  infer_instance

theorem CaughtUp.congr (h : g.CaughtUp (decide (t.nsuccessful = 0)) l)
    (hwritten : g'.written = g.written) (hbuf : t.nsuccessful = 0 → g'.senderBuf = g.senderBuf) :
    g'.CaughtUp (decide (t.nsuccessful = 0)) l := by
  rw [CaughtUp] at h ⊢
  by_cases ht : t.nsuccessful = 0
  · rw [hbuf ht, hwritten]
    exact h
  · simpa [ht, hwritten] using h

theorem CaughtUp.carries (h : g.CaughtUp (decide (t.nsuccessful = 0)) l)
    (hk : l.Carries sh (counted t g.written b) k) :
    (g.readied t l).Carries sh (counted t g.written b) g.written.length := by
  have htaken := hk.taken_eq
  rw [readied, Link.renumber_of_unaware hk.unaware]
  rw [CaughtUp] at h
  rcases counted_cases t g.written b with ⟨ht, hms⟩ | ⟨ht, -⟩
  · rw [if_pos (by simpa using ht), htaken] at h
    obtain ⟨hbuf, htakes⟩ := h
    rw [hms] at hk ⊢
    rw [if_pos ht]
    rw [hbuf] at htakes ⊢
    exact hk.writeAll htakes
  · rw [if_neg (by simpa using ht)] at h
    rw [if_neg ht, ← h, htaken]
    exact hk

structure Reached (sh : Shape) (mode : GroupMode) (ms : List Bytes) (b : Bytes) (g : Group)
    (t : Tally) : Prop where
  mu_eq : g.mu = .free
  mode_eq : g.mode = mode
  written_eq : g.written = ms
  fit : g.AllFit sh (counted t ms b)

/-- Trying the standby members: a call that counts leaves every member that sends with all
messages. -/
theorem activateStandby_fits (sh : Shape) (now : ℤ) {l : List ℕ} (t : Tally)
    (hmode : g.mode = .backup) (h : g.mu = .free) (hfit : g.AllFit sh (counted t g.written b))
    (hidle : t.nsuccessful = 0 → ∀ mc ∈ g.members, mc.sends g.mode = false) (hl : l.Nodup)
    (hcaught : ∀ i ∈ l, ∃ mc, g.members[i]? = some mc ∧
      g.CaughtUp (decide (t.nsuccessful = 0)) mc.conn) :
    ∃ g' t', activateStandby now (g.parcel b) l (g, t) = some (g', t') ∧
      Reached sh g.mode g.written b g' t' := by
  induction l generalizing g t with
  | nil => exact ⟨g, t, rfl, h, rfl, rfl, hfit⟩
  | cons i l ih =>
    obtain ⟨hi, hl⟩ := List.nodup_cons.mp hl
    obtain ⟨mc, hmc, hcaughti⟩ := hcaught i (by simp)
    obtain ⟨k, hk⟩ := (hfit mc (List.mem_of_getElem? hmc)).carries
    have hcarry := hcaughti.carries hk
    have haccepts : (g.modifyMember i (.mapConn (g.readied t))).accepts (g.parcel b) i =
        decide (((g.readied t mc.conn).write (g.parcel b)).2 = none) := by
      rw [accepts, getElem?_modifyMember, hmc]
      simp [mapConn]
    rcases activateStandby_cons (i := i) (p := g.parcel b) now t l h with ⟨hp, err, hrun⟩ | ⟨hp,
      seqNo, hrun⟩
    · -- the member is broken now, and the next one is tried
      have hrefused : ((g.readied t mc.conn).write (g.parcel b)).2 ≠ none := by
        simpa [haccepts] using hp
      obtain ⟨hconn, hbroken⟩ : (standbySend now (g.parcel b) g t mc).conn =
          ((g.readied t mc.conn).write (g.parcel b)).1 ∧
            (standbySend now (g.parcel b) g t mc).status = .broken := by
        rw [show standbySend now (g.parcel b) g t mc = _ from if_neg hrefused]
        exact ⟨rfl, rfl⟩
      rw [hrun]
      refine ih (g := g.modifyMember i (standbySend now (g.parcel b) g t))
        { t with lastErr := some err } hmode h
        ?_ ?_ hl ?_
      · refine hfit.modifyMember fun mc1 hmc1 => ?_
        obtain rfl := Option.some.inj (hmc.symm.trans hmc1)
        exact .of_broken (hconn ▸ hcarry.write_refused hrefused) hbroken
      · intro ht mc1 hmc1
        rcases mem_modifyMember hmc1 with hmc1 | ⟨mc2, hmc2, rfl⟩
        · exact hidle ht mc1 hmc1
        · obtain rfl := Option.some.inj (hmc.symm.trans hmc2)
          simp [Group.modifyMember, hmode, sends, isActive, hbroken]
      · intro j hj
        obtain ⟨mcj, hmcj, hcaughtj⟩ := hcaught j (List.mem_cons_of_mem i hj)
        have hne : j ≠ i := by rintro rfl; exact hi hj
        refine ⟨mcj, ?_, hcaughtj⟩
        rw [getElem?_modifyMember, hmcj, Option.map_some, if_neg hne]
    · -- the member has taken the message and sends from now on
      have htaken : ((g.readied t mc.conn).write (g.parcel b)).2 = none := by
        simpa [haccepts] using hp
      obtain ⟨hlonger, hcarry'⟩ : g.AllFit sh (g.written ++ [b]) ∧
          (g.readied t mc.conn).Carries sh (g.written ++ [b]) g.written.length := by
        rcases counted_cases t g.written b with ⟨ht, hms⟩ | ⟨-, hms⟩
        · rw [hms] at hfit hcarry
          exact ⟨fun mc1 hmc1 => (hfit mc1 hmc1).of_not_sends (hidle ht mc1 hmc1) b,
            hcarry.congr (by simp) (by simp)⟩
        · rw [hms] at hfit hcarry
          exact ⟨hfit, hcarry⟩
      have hall : (g.modifyMember i (standbySend now (g.parcel b) g t)).countSent.AllFit sh
          (g.written ++ [b]) := by
        refine hlonger.modifyMember fun mc1 hmc1 => ?_
        obtain rfl := Option.some.inj (hmc.symm.trans hmc1)
        rw [show standbySend now (g.parcel b) g t mc = _ from if_pos htaken]
        refine .of_carries ?_ (fun _ => by simp [activateFresh]) (by simp [activateFresh])
        rw [List.length_append, List.length_singleton]
        exact hcarry'.write_taken htaken rfl (by simp [parcel])
      have hms : counted (t.succeed (g.parcel b).data.length seqNo) g.written b =
          g.written ++ [b] :=
        if_neg (Nat.succ_ne_zero _)
      rw [hrun]
      split_ifs
      · obtain ⟨g1, hkeep, hmu1, hmembers, hmode1, hwritten1⟩ := keep_of_free (p := g.parcel b)
          (g := (g.modifyMember i (standbySend now (g.parcel b) g t)).countSent) h
          (t.succeed (g.parcel b).data.length seqNo).curseq
        rw [hkeep]
        refine ⟨g1, _, rfl, hmu1, hmode1, hwritten1, fun mc1 hmc1 => ?_⟩
        rw [hmode1, hms]
        exact hall mc1 (hmembers ▸ hmc1)
      · exact ⟨_, _, rfl, h, rfl, rfl, hms ▸ hall⟩

theorem silenceRedundantLinks_fits (now : ℤ) (hmode : g.mode = .backup) (h : g.mu = .free)
    (hfit : g.AllFit sh ms) : ∃ g', g.silenceRedundantLinks now = some g' ∧ g'.AllFit sh ms ∧
      g'.mode = g.mode ∧
      g'.written = g.written := by
  simp only [silenceRedundantLinks, lock_of_free h, Option.bind_eq_bind, Option.bind_some]
  split
  · exact ⟨_, rfl, hfit, rfl, rfl⟩
  · simp only [unlock, lock, if_true, Option.bind_some]
    refine ⟨_, rfl, fun mc' hmc' => ?_, rfl, rfl⟩
    obtain ⟨mc, hmc, rfl⟩ := List.mem_map.mp hmc'
    have hmcfit := hfit mc hmc
    split_ifs
    · refine ⟨?_, ?_, ?_, ?_⟩
      · simpa using hmcfit.carries
      · simp [hmode, sends, isActive, isBackupActive]
      · exact fun _ => by simp
      · simpa using hmcfit.joined
    · exact hmcfit

/-- No active member takes a message. -/
def FailsOver (g : Group) (p : Parcel) : Prop :=
  ∀ mc ∈ g.members, mc.isActive = true → (mc.conn.write p).2 ≠ none

instance (g : Group) (p : Parcel) : Decidable (g.FailsOver p) := by
  unfold FailsOver
  infer_instance

/-- The standby members are used only if they have caught up. -/
def StandbyReady (g : Group) (b : Bytes) : Prop :=
  g.FailsOver (g.parcel b) ∨ g.maxWeight (g.indicesOf MemberConn.isActive) <
      g.maxWeight (g.indicesOf MemberConn.isStandby) →
    ∀ mc ∈ g.members, mc.isStandby = true →
      g.CaughtUp (decide (g.FailsOver (g.parcel b))) mc.conn

instance (g : Group) (b : Bytes) : Decidable (g.StandbyReady b) := by
  unfold StandbyReady
  infer_instance

theorem not_isActive_of_isStandby (h : mc.isStandby = true) : mc.isActive = false := by
  rw [isStandby, Bool.or_eq_true, Bool.and_eq_true, decide_eq_true_eq,
    decide_eq_true_eq, decide_eq_true_eq] at h
  rcases h with h | ⟨-, h⟩
  · simp [isActive, h]
  · simp [isActive, h, isBackupActive]

theorem sendActive_spec (hmode : g.mode = .backup) (h : g.mu = .free)
    (hfit : g.AllFit sh g.written) :
    ∃ g1 t1, sendAll true (fun g _ => some g) (g.parcel b) (g.indicesOf isActive)
        (g, {}) = some (g1, t1) ∧ Kept g g1 ∧
      (∀ (j : ℕ) (mc : MemberConn), g.members[j]? = some mc → mc.isActive = false →
        g1.members[j]? = some mc) ∧
      (t1.nsuccessful = 0 ↔ g.FailsOver (g.parcel b)) ∧
      (t1.curseq = none ↔ t1.nsuccessful = 0) ∧
      g1.AllFit sh (counted t1 g.written b) ∧
      (t1.nsuccessful = 0 → ∀ mc ∈ g1.members, mc.sends g.mode = false) := by
  have hmem : ∀ (j : ℕ) (mc : MemberConn), g.members[j]? = some mc →
      (j ∈ g.indicesOf isActive ↔ mc.isActive = true) := by
    intro j mc hmc
    rw [mem_indicesOf, hmc]
    simp
  obtain ⟨g1, t1, hrun, hkept, hmembers, hcount, hseq⟩ :=
    sendAll_unaware true (p := g.parcel b) (l := g.indicesOf isActive) {}
      (fun g i _ => some_eq_modifyMember_id g i) (nodup_indicesOf g _) h hfit.unaware
  -- what has become of each member
  have hafter : g1.members = g.members.map fun mc =>
      if mc.isActive then mc.afterSend (g.parcel b) g.mode id else mc := by
    refine List.ext_getElem? fun j => ?_
    rw [hmembers, List.getElem?_map]
    cases hmc : g.members[j]? with
    | none => rfl
    | some mc => simp [hmem j mc hmc]
  have hfails : t1.nsuccessful = 0 ↔ g.FailsOver (g.parcel b) := by
    rw [hcount, forall_indicesOf_refused]
    simp [FailsOver]
  have hsends : ∀ mc : MemberConn, mc.sends g.mode = mc.isActive := fun mc => by rw [hmode]; rfl
  refine ⟨g1, t1, hrun, hkept, ?_, hfails, hseq (by simp), fun mc' hmc' => ?_,
    fun ht mc' hmc' => ?_⟩
  · intro j mc hmc hactive
    rw [hafter, List.getElem?_map, hmc]
    simp [hactive]
  · rw [hafter] at hmc'
    obtain ⟨mc, hmc, rfl⟩ := List.mem_map.mp hmc'
    rw [hkept.mode_eq]
    rcases counted_cases t1 g.written b with ⟨ht, hms⟩ | ⟨ht, hms⟩
    · rw [hms]
      split_ifs with hactive
      · exact ((hfit mc hmc).afterSend_refused (hsends mc ▸ hactive)
          (hfails.mp ht mc hmc hactive)).1
      · exact hfit mc hmc
    · rw [hms]
      split_ifs with hactive
      · exact (hfit mc hmc).afterSend (hsends mc ▸ hactive) (harmless_id _)
      · exact (hfit mc hmc).of_not_sends (by simpa [hsends] using hactive) b
  · rw [hafter] at hmc'
    obtain ⟨mc, hmc, rfl⟩ := List.mem_map.mp hmc'
    split_ifs with hactive
    · exact ((hfit mc hmc).afterSend_refused (hsends mc ▸ hactive) (hfails.mp ht mc hmc hactive)).2
    · simpa [hsends] using hactive

theorem sendBackup_fits [SortFunc] (now : ℤ) (hmode : g.mode = .backup) (h : g.mu = .free)
    (hfit : g.AllFit sh g.written) (hready : g.StandbyReady b) :
    ∃ g' t, g.sendBackup now b (g.indicesOf isActive)
        (g.indicesOf isStandby) = some (g', t) ∧ Reached sh g.mode g.written b g' t := by
  obtain ⟨g1, t1, hrun, hkept, hsame, hfails, hseq, hfit1, hidle⟩ :=
    sendActive_spec (b := b) hmode h hfit
  obtain ⟨g2, hkeep, hmu2, hmembers, hmode2, hwritten2⟩ :=
    keep_of_free (p := g.parcel b) (hkept.mu_eq.trans h) t1.curseq
  have hbuf : t1.nsuccessful = 0 → g2.senderBuf = g.senderBuf := by
    intro ht
    rw [hseq.mpr ht] at hkeep
    cases hkeep
    exact hkept.senderBuf_eq
  have hw2 : g2.written = g.written := hwritten2.trans hkept.written_eq
  have hm2 : g2.mode = g.mode := hmode2.trans hkept.mode_eq
  have hfit2 : g2.AllFit sh (counted t1 g.written b) := by
    intro mc hmc
    rw [hmode2]
    exact hfit1 mc (hmembers ▸ hmc)
  simp only [sendBackup, hrun, hkeep, Option.bind_eq_bind, Option.bind_some]
  split_ifs with hact
  · have hparcel : g2.parcel b = g.parcel b := by rw [parcel, parcel, hw2]
    rw [← hparcel]
    obtain ⟨g3, t3, hrun3, hreached⟩ := activateStandby_fits sh now (b := b)
      (l := g2.sortByWeight (g.indicesOf isStandby)) t1 (hm2.trans hmode) hmu2 (hw2 ▸ hfit2)
      (fun ht => by rw [hm2, hmembers]; exact hidle ht)
      ((SortFunc.perm _ _).nodup_iff.mpr (nodup_indicesOf g _))
      (fun i hi => by
        rw [mem_sortByWeight, mem_indicesOf] at hi
        cases hmc : g.members[i]? with
        | none => simp [hmc] at hi
        | some mc =>
          have hstandby : mc.isStandby = true := by simpa [hmc] using hi
          refine ⟨mc, ?_, ?_⟩
          · rw [hmembers]
            exact hsame i mc hmc (not_isActive_of_isStandby hstandby)
          · have hcaught := hready (hact.imp hfails.mp (by simp))
              mc (List.mem_of_getElem? hmc) hstandby
            rw [decide_eq_decide.mpr hfails.symm] at hcaught
            exact hcaught.congr hw2 hbuf)
    exact ⟨g3, t3, hrun3, hreached.mu_eq, hreached.mode_eq.trans hm2, hreached.written_eq.trans hw2,
      hw2 ▸ hreached.fit⟩
  · exact ⟨g2, t1, rfl, hmu2, hm2, hw2, hfit2⟩

theorem writeBackup_fits [SortFunc] (now : ℤ) (hmode : g.mode = .backup) (h : g.mu = .free)
    (hfit : g.AllFit sh g.written) (hready : (g.qualifyMembers now).StandbyReady b) :
    ∃ g' r, g.writeBackup now b = some (g', r) ∧ Wrote sh b g g' := by
  obtain ⟨g1, t1, hrun, hreached⟩ :=
    sendBackup_fits (g := g.qualifyMembers now) now hmode h (hfit.qualifyMembers hmode now) hready
  obtain ⟨g2, hsilence, hfit2, hmode2, hwritten2⟩ :=
    silenceRedundantLinks_fits now (hreached.mode_eq.trans hmode) hreached.mu_eq hreached.fit
  rw [writeBackup_of_free now b h]
  simp only [hrun, hsilence, Option.bind_eq_bind, Option.bind_some, Option.pure_def]
  exact ⟨_, _, rfl,
    AllFit.record hfit2 (hmode2.trans hreached.mode_eq) (hwritten2.trans hreached.written_eq)⟩

end Group

end SrtGo.Bonding
