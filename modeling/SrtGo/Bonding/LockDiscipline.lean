import SrtGo.Bonding.Group

/-!
# The group mutex after a write

Every helper of `Write` gives the mutex back, except one: `silenceRedundantLinks` takes it a
second time after the keepalives and returns with it, whenever there is a stable member.  So a
write in backup mode gives the mutex back exactly when no stable member takes the message.
-/

namespace SrtGo.Bonding

open Bytes MemberConn

/-! ## One member of a group -/

def Link.renumber (curseq : Option ℕ) (l : Link) : Link :=
  match curseq with
  | none => l
  | some s => if l.peerGroupID ≠ 0 then l.overrideSndSeqNo s else l

def Link.writeAll (l : Link) (ps : List Parcel) : Link := ps.foldl (fun l p => (l.write p).1) l

theorem Link.snd_write_renumber (curseq : Option ℕ) (l : Link) (p : Parcel) :
    ((l.renumber curseq).write p).2 = (l.write p).2 := by
  cases curseq with
  | none => rfl
  | some s =>
    unfold renumber
    simp only
    split_ifs
    · simp only [Link.write, overrideSndSeqNo]
      cases Core.Conn.checkPayloadSize l.fileCongestion l.payloadSize p.data <;> rfl
    · rfl

namespace MemberConn

def mapConn (f : Link → Link) (mc : MemberConn) : MemberConn := { mc with conn := f mc.conn }

def afterSend (p : Parcel) (mode : GroupMode) (f : MemberConn → MemberConn) (mc : MemberConn) :
    MemberConn :=
  let sent := { mc with conn := (mc.conn.write p).1 }
  if (mc.conn.write p).2 = none then f sent
  else
    { sent with
      status := .broken
      backupState := if mode = .backup then .broken else mc.backupState }

end MemberConn

namespace Group

variable {g g' g'' : Group} {i j : ℕ} {p : Parcel} {f f' : MemberConn → MemberConn} {l : List ℕ}

theorem getElem?_modifyMember (f : MemberConn → MemberConn) (j : ℕ) :
    (g.modifyMember i f).members[j]? =
      (g.members[j]?).map fun mc => if j = i then f mc else mc := by
  rw [modifyMember, List.getElem?_modify]
  cases g.members[j]? with
  | none => rfl
  | some mc =>
    by_cases hij : i = j
    · simp [hij]
    · simp [hij, Ne.symm hij]

theorem modifyMember_congr (h : ∀ mc, g.members[i]? = some mc → f mc = f' mc) :
    g.modifyMember i f = g.modifyMember i f' := by
  have hmembers : g.members.modify i f = g.members.modify i f' := by
    refine List.ext_getElem? fun j => ?_
    rw [List.getElem?_modify, List.getElem?_modify]
    cases hmc : g.members[j]? with
    | none => rfl
    | some mc =>
      by_cases hij : i = j
      · simp [hij, h mc (hij ▸ hmc)]
      · simp [hij]
  rw [modifyMember, modifyMember, hmembers]

theorem modifyMember_self (h : ∀ mc, g.members[i]? = some mc → f mc = mc) :
    g.modifyMember i f = g := by
  have hid : g.modifyMember i id = g := by simp [modifyMember]
  exact (modifyMember_congr h).trans hid

theorem modifyMember_of_none (f : MemberConn → MemberConn) (h : g.members[i]? = none) :
    g.modifyMember i f = g :=
  modifyMember_self fun mc hmc => absurd (h.symm.trans hmc) (by simp)

theorem modifyMember_of_some {mc : MemberConn} (h : g.members[i]? = some mc) (hf : f mc = f' mc) :
    g.modifyMember i f = g.modifyMember i f' :=
  modifyMember_congr fun _ hmc => Option.some.inj (h.symm.trans hmc) ▸ hf

theorem mem_modifyMember {mc' : MemberConn} (h : mc' ∈ (g.modifyMember i f).members) :
    mc' ∈ g.members ∨ ∃ mc, g.members[i]? = some mc ∧ mc' = f mc := by
  cases hmc : g.members[i]? with
  | none => exact Or.inl (modifyMember_of_none f hmc ▸ h)
  | some mc =>
    rw [modifyMember, List.modify_eq_set_getElem?, hmc] at h
    exact (List.mem_or_eq_of_mem_set h).imp_right fun heq => ⟨mc, rfl, heq⟩

theorem modifyMember_modifyMember (f f' : MemberConn → MemberConn) :
    (g.modifyMember i f).modifyMember i f' = g.modifyMember i fun mc => f' (f mc) := by
  simp only [modifyMember, List.modify_modify_eq]
  rfl

theorem align_eq (curseq : Option ℕ) :
    g.align i curseq = g.modifyMember i (.mapConn (.renumber curseq)) := by
  cases curseq with
  | none => exact (modifyMember_self fun _ _ => rfl).symm
  | some s =>
    cases hmc : g.members[i]? with
    | none => simp only [align, hmc, modifyMember_of_none]
    | some mc =>
      simp only [align, hmc]
      split_ifs with hcond
      · exact modifyMember_of_some hmc (by simp [mapConn, Link.renumber, hcond.1])
      · -- a number that is set already
        refine (modifyMember_self fun mc' hmc' => ?_).symm
        obtain rfl := Option.some.inj (hmc.symm.trans hmc')
        by_cases hpeer : mc.conn.peerGroupID = 0
        · simp [mapConn, Link.renumber, hpeer]
        · obtain rfl : s = mc.conn.nextSeq := by simpa [hpeer] using hcond
          simp [mapConn, Link.renumber, Link.overrideSndSeqNo]

theorem alignStandby_eq (curseq : Option ℕ) :
    g.alignStandby i curseq = g.modifyMember i (.mapConn (.renumber curseq)) := by
  cases curseq with
  | none => exact (modifyMember_self fun _ _ => rfl).symm
  | some s =>
    cases hmc : g.members[i]? with
    | none => simp only [alignStandby, hmc, modifyMember_of_none]
    | some mc =>
      simp only [alignStandby, hmc]
      split_ifs with hpeer
      · exact modifyMember_of_some hmc (by simp [mapConn, Link.renumber, hpeer])
      · refine (modifyMember_self fun mc' hmc' => ?_).symm
        obtain rfl := Option.some.inj (hmc.symm.trans hmc')
        simp [mapConn, Link.renumber, hpeer]

theorem connWrite_fst :
    (g.connWrite i p).1 = g.modifyMember i (.mapConn fun l => (l.write p).1) := by
  unfold connWrite
  split
  · rename_i hnone
    exact (modifyMember_of_none _ hnone).symm
  · rfl

theorem replaySenderBuf_eq : g.replaySenderBuf i =
    g.modifyMember i (.mapConn fun l => l.writeAll (g.senderBuf.map BufferedMsg.parcel)) := by
  rw [replaySenderBuf]
  generalize g.senderBuf = buf
  induction buf generalizing g with
  | nil => exact (modifyMember_self fun _ _ => rfl).symm
  | cons m buf ih =>
    rw [List.foldl_cons, ih, connWrite_fst, modifyMember_modifyMember]
    rfl

def accepts (g : Group) (p : Parcel) (i : ℕ) : Bool :=
  (g.members[i]?).all fun mc => (mc.conn.write p).2 = none

theorem accepts_congr (h : g'.members[j]? = g.members[j]?) : g'.accepts p j = g.accepts p j := by
  rw [accepts, accepts, h]

theorem accepts_renumber (curseq : Option ℕ) :
    (g.modifyMember i (.mapConn (.renumber curseq))).accepts p i = g.accepts p i := by
  rw [accepts, accepts, getElem?_modifyMember]
  cases g.members[i]? with
  | none => rfl
  | some mc => simp [mapConn, Link.snd_write_renumber]

/-! ## What the helpers do to the mutex -/

section

variable (h : g.mu = .free)

include h

theorem lock_of_free : g.lock = some { g with mu := .writing } := by
  rw [lock, if_pos h]

theorem rLock_of_free : g.rLock = some { g with mu := .reading } := by
  rw [rLock, if_pos h]

/-- Taking the mutex, changing a member and giving it back is changing the member. -/
theorem unlock_modifyMember (f : MemberConn → MemberConn) :
    ({ g with mu := .writing }.modifyMember i f).unlock = some (g.modifyMember i f) := by
  obtain ⟨⟩ := g
  simp only at h
  simp [unlock, modifyMember, h]

theorem markBroken_of_free : g.markBroken i = some (g.breakMember i) := by
  simp only [markBroken, lock_of_free h, Option.bind_eq_bind, Option.bind_some]
  exact unlock_modifyMember h _

theorem promote_of_free :
    g.promote i = some (g.modifyMember i fun mc => { mc with status := .running }) := by
  simp only [promote, lock_of_free h, Option.bind_eq_bind, Option.bind_some]
  exact unlock_modifyMember h _

/-- A message is handed to a member: it is broken if it refuses the message, and otherwise something
may be done to it. -/
theorem connWrite_cases (p : Parcel) (i : ℕ) (f : MemberConn → MemberConn) :
    (∃ g' err, g.connWrite i p = (g', some err) ∧ g.accepts p i = false ∧
      g'.markBroken i = some (g.modifyMember i (.afterSend p g.mode f))) ∨
    ∃ g', g.connWrite i p = (g', none) ∧ g.accepts p i = true ∧ g'.mu = .free ∧
      g'.modifyMember i f = g.modifyMember i (.afterSend p g.mode f) := by
  have hfst := @connWrite_fst g i p
  have hsnd : g.accepts p i = decide ((g.connWrite i p).2 = none) := by
    rw [accepts, connWrite]
    cases g.members[i]? <;> simp
  cases hw : g.connWrite i p with
  | mk g' err =>
    rw [hw] at hfst hsnd
    obtain rfl : g' = _ := hfst
    cases err with
    | some err =>
      refine Or.inl ⟨_, err, rfl, hsnd, ?_⟩
      rw [markBroken_of_free (by exact h), breakMember, modifyMember_modifyMember]
      refine congrArg some (modifyMember_congr fun mc hmc => ?_)
      have hrefused : (mc.conn.write p).2 ≠ none := by simpa [accepts, hmc] using hsnd
      rw [afterSend, if_neg hrefused]
      rfl
    | none =>
      refine Or.inr ⟨_, rfl, hsnd, h, ?_⟩
      rw [modifyMember_modifyMember]
      refine modifyMember_congr fun mc hmc => ?_
      have htaken : (mc.conn.write p).2 = none := by simpa [accepts, hmc] using hsnd
      rw [afterSend, if_pos htaken]
      rfl

end

@[simp]
theorem mu_record (b : Bytes) (t : Tally) : (g.record b t).mu = g.mu := by
  rw [record]
  split_ifs <;> rfl

theorem keep_of_free (h : g.mu = .free) (curseq : Option ℕ) :
    ∃ g', g.keep p curseq = some g' ∧ g'.mu = .free ∧ g'.members = g.members ∧
      g'.mode = g.mode ∧ g'.written = g.written := by
  have hprune : ∃ g', g.pruneAckedMessages = some g' ∧ g'.mu = .free ∧ g'.members = g.members ∧
      g'.mode = g.mode ∧ g'.written = g.written := by
    rw [pruneAckedMessages]
    split_ifs with hbuf
    · exact ⟨g, rfl, h, rfl, rfl, rfl⟩
    · simp only [rLock_of_free h, rUnlock, Option.bind_eq_bind, Option.bind_some, if_true]
      split
      · exact ⟨_, rfl, rfl, rfl, rfl, rfl⟩
      · exact ⟨_, rfl, rfl, rfl, rfl, rfl⟩
  cases curseq with
  | none => exact ⟨g, rfl, h, rfl, rfl, rfl⟩
  | some s =>
    obtain ⟨g', hg', hmu, hmembers, hmode, hwritten⟩ := hprune
    simp only [keep, bufferMsg, hg', Option.bind_eq_bind, Option.bind_some, Option.pure_def]
    exact ⟨_, rfl, hmu, hmembers, hmode, hwritten⟩

/-! ## Sending to the members -/

structure Kept (g g' : Group) : Prop where
  mu_eq : g'.mu = g.mu
  mode_eq : g'.mode = g.mode
  written_eq : g'.written = g.written
  senderBuf_eq : g'.senderBuf = g.senderBuf
  senderBufCap_eq : g'.senderBufCap = g.senderBufCap

theorem Kept.refl (g : Group) : Kept g g := ⟨rfl, rfl, rfl, rfl, rfl⟩

theorem Kept.trans (h : Kept g g') (h' : Kept g' g'') : Kept g g'' :=
  ⟨h'.mu_eq.trans h.mu_eq, h'.mode_eq.trans h.mode_eq, h'.written_eq.trans h.written_eq,
    h'.senderBuf_eq.trans h.senderBuf_eq, h'.senderBufCap_eq.trans h.senderBufCap_eq⟩

def alignedSend (p : Parcel) (mode : GroupMode) (f : MemberConn → MemberConn) (curseq : Option ℕ)
    (mc : MemberConn) : MemberConn :=
  (mc.mapConn (.renumber curseq)).afterSend p mode f

section

variable (sync : Bool) {activate : Group → ℕ → Option Group} {f : MemberConn → MemberConn}
    {l : List ℕ}
  (hactivate : ∀ (g : Group) (i : ℕ), g.mu = .free → activate g i = some (g.modifyMember i f))
include hactivate

theorem sendAll_cons (t : Tally) (h : g.mu = .free) : ∃ curseq,
    g.accepts p i = false ∧ (∃ err, sendAll sync activate p (i :: l) (g, t) =
      sendAll sync activate p l (g.modifyMember i (alignedSend p g.mode f curseq),
        { t with lastErr := some err })) ∨
    g.accepts p i = true ∧ ∃ seqNo, sendAll sync activate p (i :: l) (g, t) =
      sendAll sync activate p l
        ((g.modifyMember i (alignedSend p g.mode f curseq)).countSent,
          t.succeed p.data.length seqNo) := by
  obtain ⟨curseq, halign⟩ : ∃ curseq, (if sync then g.align i t.curseq else g) =
      g.modifyMember i (.mapConn (.renumber curseq)) := by
    cases sync with
    | true => exact ⟨t.curseq, align_eq _⟩
    | false => exact ⟨none, (modifyMember_self fun _ _ => rfl).symm⟩
  refine ⟨curseq, ?_⟩
  rw [sendAll, halign, ← accepts_renumber curseq]
  rcases connWrite_cases (g := g.modifyMember i (.mapConn (.renumber curseq))) h p i f with
    ⟨g', err, hw, hp, hbroken⟩ | ⟨g', hw, hp, hmu, hsent⟩
  · rw [modifyMember_modifyMember] at hbroken
    simp only [hw, hbroken, Option.bind_eq_bind, Option.bind_some]
    exact Or.inl ⟨hp, err, rfl⟩
  · rw [modifyMember_modifyMember] at hsent
    have hmuc : g'.countSent.mu = .free := hmu
    have hsame : g'.countSent.modifyMember i f =
        (g.modifyMember i (alignedSend p g.mode f curseq)).countSent := congrArg countSent hsent
    simp only [hw, hactivate g'.countSent i hmuc, hsame, Option.bind_eq_bind, Option.bind_some]
    exact Or.inr ⟨hp, _, rfl⟩

theorem sendAll_spec (hl : l.Nodup) (t : Tally) (h : g.mu = .free) :
    ∃ g' t', sendAll sync activate p l (g, t) = some (g', t') ∧ Kept g g' ∧
      (∀ j, ∃ curseq, g'.members[j]? = (g.members[j]?).map fun mc =>
        if j ∈ l then alignedSend p g.mode f curseq mc else mc) ∧
      (t'.nsuccessful = 0 ↔ t.nsuccessful = 0 ∧ ∀ i ∈ l, g.accepts p i = false) ∧
      ((t.curseq = none ↔ t.nsuccessful = 0) → (t'.curseq = none ↔ t'.nsuccessful = 0)) := by
  induction l generalizing g t with
  | nil => exact ⟨g, t, rfl, Kept.refl g, by simp, by simp, id⟩
  | cons i l ih =>
    obtain ⟨hi, hl⟩ := List.nodup_cons.mp hl
    obtain ⟨curseq, hcases⟩ := sendAll_cons sync hactivate (p := p) (i := i) (l := l) t h
    -- the rest of the loop, from a state in which only this member has changed
    have hrest : ∀ (g1 : Group) (t1 : Tally), Kept g g1 →
        g1.members = (g.modifyMember i (alignedSend p g.mode f curseq)).members →
        (t1.nsuccessful = 0 ↔ t.nsuccessful = 0 ∧ g.accepts p i = false) →
        ((t.curseq = none ↔ t.nsuccessful = 0) → (t1.curseq = none ↔ t1.nsuccessful = 0)) →
        ∃ g' t', sendAll sync activate p l (g1, t1) = some (g', t') ∧ Kept g g' ∧
          (∀ j, ∃ curseq, g'.members[j]? = (g.members[j]?).map fun mc =>
            if j ∈ i :: l then alignedSend p g.mode f curseq mc else mc) ∧
          (t'.nsuccessful = 0 ↔ t.nsuccessful = 0 ∧ ∀ k ∈ i :: l, g.accepts p k = false) ∧
          ((t.curseq = none ↔ t.nsuccessful = 0) → (t'.curseq = none ↔ t'.nsuccessful = 0)) := by
      intro g1 t1 hkept1 hmembers1 hcount1 hseq1
      have hother : ∀ j, j ≠ i → g1.members[j]? = g.members[j]? := by
        intro j hj
        rw [hmembers1, getElem?_modifyMember]
        simp [hj]
      obtain ⟨g', t', hrun, hkept', hmembers', hcount', hseq'⟩ := ih hl t1 (hkept1.mu_eq.trans h)
      refine ⟨g', t', hrun, hkept1.trans hkept', fun j => ?_, ?_, fun ht => hseq' (hseq1 ht)⟩
      · obtain ⟨curseq', hj'⟩ := hmembers' j
        rw [hkept1.mode_eq] at hj'
        by_cases hj : j = i
        · subst hj
          refine ⟨curseq, ?_⟩
          rw [hj', hmembers1, getElem?_modifyMember]
          cases g.members[j]? <;> simp [hi]
        · refine ⟨curseq', ?_⟩
          rw [hj', hother j hj]
          simp [hj]
      · rw [hcount', hcount1, List.forall_mem_cons, and_assoc]
        refine and_congr_right fun _ => and_congr_right fun _ => forall₂_congr fun j hj => ?_
        rw [accepts_congr (hother j (ne_of_mem_of_not_mem hj hi))]
    rcases hcases with ⟨hp, err, hrun⟩ | ⟨hp, seqNo, hrun⟩
    · rw [hrun]
      exact hrest _ _ ⟨rfl, rfl, rfl, rfl, rfl⟩ rfl (by simp [hp]) (by simp)
    · rw [hrun]
      exact hrest _ _ ⟨rfl, rfl, rfl, rfl, rfl⟩ rfl (by simp [hp, Tally.succeed])
        (by simp [Tally.succeed])

end

/-- A connection before it is used instead of others: its number is aligned, and it may be sent
what is kept. -/
def readied (g : Group) (t : Tally) (l : Link) : Link :=
  if t.nsuccessful = 0 then (l.renumber t.curseq).writeAll (g.senderBuf.map BufferedMsg.parcel)
  else l.renumber t.curseq

def standbySend (now : ℤ) (p : Parcel) (g : Group) (t : Tally) (mc : MemberConn) : MemberConn :=
  (mc.mapConn (g.readied t)).afterSend p g.mode (activateFresh now)

theorem activateStandby_cons (now : ℤ) (t : Tally) (l : List ℕ) (h : g.mu = .free) :
    (g.modifyMember i (.mapConn (g.readied t))).accepts p i = false ∧ (∃ err,
      activateStandby now p (i :: l) (g, t) =
        activateStandby now p l (g.modifyMember i (standbySend now p g t),
          { t with lastErr := some err })) ∨
    (g.modifyMember i (.mapConn (g.readied t))).accepts p i = true ∧ ∃ seqNo,
      activateStandby now p (i :: l) (g, t) =
        (if t.curseq.isNone then
          (g.modifyMember i (standbySend now p g t)).countSent.keep p
            (t.succeed p.data.length seqNo).curseq
        else some (g.modifyMember i (standbySend now p g t)).countSent).map
          (·, t.succeed p.data.length seqNo) := by
  have hready : (if t.nsuccessful = 0 then (g.alignStandby i t.curseq).replaySenderBuf i
      else g.alignStandby i t.curseq) = g.modifyMember i (.mapConn (g.readied t)) := by
    rw [alignStandby_eq]
    unfold readied
    split_ifs
    · rw [replaySenderBuf_eq, modifyMember_modifyMember]
      rfl
    · rfl
  rw [activateStandby, hready]
  rcases connWrite_cases (g := g.modifyMember i (.mapConn (g.readied t))) h p i
    (activateFresh now) with
    ⟨g', err, hw, hp, hbroken⟩ | ⟨g', hw, hp, hmu, hsent⟩
  · rw [modifyMember_modifyMember] at hbroken
    simp only [hw, hbroken, Option.bind_eq_bind, Option.bind_some]
    exact Or.inl ⟨hp, err, rfl⟩
  · rw [modifyMember_modifyMember] at hsent
    have hmuc : g'.countSent.mu = .free := hmu
    have hsame : g'.countSent.modifyMember i (activateFresh now) =
        (g.modifyMember i (standbySend now p g t)).countSent := congrArg countSent hsent
    simp only [hw, lock_of_free hmuc, unlock_modifyMember hmuc, hsame, Option.bind_eq_bind,
      Option.bind_some, Option.pure_def]
    refine Or.inr ⟨hp, (g.modifyMember i (standbySend now p g t)).countSent.schedSeqNo i, ?_⟩
    split_ifs
    · exact Option.map_eq_bind.symm
    · rfl

/-! ## Which members are stable -/

def stableAt (g : Group) (i : ℕ) : Bool := (g.members[i]?).any MemberConn.isStable

theorem bestStable_eq_none_iff : g.bestStable = none ↔ ∀ i, g.stableAt i = false := by
  rw [bestStable, heaviest_eq_none_iff, List.filter_eq_nil_iff]
  constructor
  · intro h i
    rw [stableAt, Option.any_eq_false]
    intro mc hmc
    simpa using h mc (List.mem_of_getElem? hmc)
  · intro h mc hmc
    obtain ⟨i, hi⟩ := List.mem_iff_getElem?.mp hmc
    have := h i
    simp_all [stableAt]

theorem stableAt_modifyMember (hf : ∀ mc, (f mc).isStable = false) :
    (g.modifyMember i f).stableAt j = (g.stableAt j && decide (i ≠ j)) := by
  rw [stableAt, stableAt, getElem?_modifyMember]
  cases g.members[j]? with
  | none => rfl
  | some mc =>
    by_cases hij : j = i
    · simp [hij, hf]
    · simp [hij, Ne.symm hij]

theorem stableAt_sendAll
    (hmembers : ∀ j, ∃ curseq, g'.members[j]? = (g.members[j]?).map fun mc => if j ∈
      l then alignedSend p g.mode id curseq mc else mc)
    (j : ℕ) : g'.stableAt j = (g.stableAt j && (decide (j ∉ l) || g.accepts p j)) := by
  obtain ⟨curseq, hj⟩ := hmembers j
  rw [stableAt, stableAt, accepts, hj]
  cases g.members[j]? with
  | none => rfl
  | some mc =>
    by_cases hmem : j ∈ l
    · by_cases htaken : (mc.conn.write p).2 = none
      · simp [hmem, alignedSend, afterSend, mapConn, Link.snd_write_renumber, htaken, isStable]
      · simp [hmem, alignedSend, afterSend, mapConn, Link.snd_write_renumber, htaken, isStable]
    · simp [hmem]

/-- Trying the standby members gives the mutex back, and no other member changes its state. -/
theorem activateStandby_of_free (now : ℤ) (t : Tally) (h : g.mu = .free) (hl : ∀ i ∈ l,
    g.stableAt i = false) :
    ∃ g' t', activateStandby now p l (g, t) = some (g', t') ∧ g'.mu = .free ∧
      ∀ j, g'.stableAt j = g.stableAt j := by
  induction l generalizing g t with
  | nil => exact ⟨g, t, rfl, h, fun _ => rfl⟩
  | cons i l ih =>
    set g1 := g.modifyMember i (standbySend now p g t) with hg1
    have hstable : ∀ j, g1.stableAt j = g.stableAt j := by
      intro j
      rw [hg1, stableAt_modifyMember fun mc => ?_]
      · by_cases hij : i = j
        · simp [← hij, hl i List.mem_cons_self]
        · simp [hij]
      · unfold standbySend afterSend
        simp only
        split_ifs <;> rfl
    rcases activateStandby_cons (i := i) (p := p) now t l h with ⟨-, err, hrun⟩ | ⟨-, seqNo, hrun⟩
    · rw [hrun]
      obtain ⟨g', t', hrun', hmu', hstable'⟩ :=
        ih (g := g1) { t with lastErr := some err } h fun k hk => by
        rw [hstable, hl k (List.mem_cons_of_mem _ hk)]
      exact ⟨g', t', hrun', hmu', fun j => (hstable' j).trans (hstable j)⟩
    · rw [hrun]
      split_ifs
      · obtain ⟨g2, hg2, hmu2, hmembers, -⟩ := keep_of_free (g := g1.countSent) (p := p) h
          (t.succeed p.data.length seqNo).curseq
        rw [hg2]
        refine ⟨g2, _, rfl, hmu2, fun j => ?_⟩
        rw [← hstable, stableAt, stableAt, hmembers]
        rfl
      · exact ⟨g1.countSent, _, rfl, h, hstable⟩

/-- Silencing the redundant members keeps the mutex if there is a stable one. -/
theorem silenceRedundantLinks_of_free (now : ℤ) (h : g.mu = .free) :
    ∃ g', g.silenceRedundantLinks now = some g' ∧
      (g'.mu = .free ↔ ∀ i, g.stableAt i = false) := by
  have hbest : ({ g with mu := Mutex.writing } : Group).bestStable = g.bestStable := rfl
  simp only [silenceRedundantLinks, lock_of_free h, Option.bind_eq_bind, Option.bind_some, hbest]
  rw [← bestStable_eq_none_iff]
  cases g.bestStable with
  | none => exact ⟨_, rfl, by simp⟩
  | some best =>
    simp only [unlock, lock, if_true, Option.bind_some]
    exact ⟨_, rfl, by simp⟩

theorem mem_indicesOf {q : MemberConn → Bool} :
    i ∈ g.indicesOf q ↔ (g.members[i]?).any q = true := by
  rw [indicesOf, List.mem_filter, List.mem_range, and_iff_right_iff_imp]
  intro h
  by_contra hlen
  rw [List.getElem?_eq_none (not_lt.mp hlen)] at h
  exact Bool.false_ne_true h

theorem nodup_indicesOf (g : Group) (q : MemberConn → Bool) : (g.indicesOf q).Nodup :=
  List.nodup_range.filter _

theorem mem_active_of_stableAt (h : g.stableAt i = true) : i ∈ g.indicesOf isActive := by
  rw [mem_indicesOf]
  rw [stableAt] at h
  cases hmc : g.members[i]? with
  | none => simp [hmc] at h
  | some mc =>
    simp only [hmc, Option.any_some, isStable, Bool.and_eq_true, decide_eq_true_eq] at h
    simp [isActive, h.1, h.2, isBackupActive]

theorem stableAt_of_mem_standby (h : i ∈ g.indicesOf isStandby) :
    g.stableAt i = false := by
  rw [mem_indicesOf] at h
  rw [stableAt]
  cases hmc : g.members[i]? with
  | none => rfl
  | some mc =>
    simp only [hmc, Option.any_some, isStandby, Bool.or_eq_true, Bool.and_eq_true,
      decide_eq_true_eq] at h
    rcases h with h | ⟨-, h⟩ <;> simp [isStable, h]

/-! ## The three ways to write -/

theorem some_eq_modifyMember_id (g : Group) (i : ℕ) : some g = some (g.modifyMember i id) :=
  congrArg some (modifyMember_self fun _ _ => rfl).symm

theorem writeBroadcast_of_free (b : Bytes) (h : g.mu = .free) :
    g.writeBroadcast b = g.sendBroadcast b (g.indicesOf fun mc => mc.status = .running)
      (g.indicesOf fun mc => mc.status = .idle) := by
  obtain ⟨⟩ := g
  simp only at h
  subst h
  rfl

theorem writeBalancing_of_free (b : Bytes) (h : g.mu = .free) :
    g.writeBalancing b =
      g.sendBalancing b (g.indicesOf fun mc => mc.status = .running || mc.status = .idle) := by
  obtain ⟨⟩ := g
  simp only at h
  subst h
  rfl

theorem writeBackup_of_free [SortFunc] (now : ℤ) (b : Bytes) (h : g.mu = .free) :
    g.writeBackup now b = do
      let q := g.qualifyMembers now
      let (g, t) ← q.sendBackup now b (q.indicesOf isActive)
        (q.indicesOf isStandby)
      let g ← g.silenceRedundantLinks now
      return (g.record b t,
        t.result "srt: all group members failed: " "srt: no active or standby group members") := by
  obtain ⟨⟩ := g
  simp only at h
  subst h
  rfl

theorem mu_sendBroadcast (b : Bytes) {activeLinks idleLinks : List ℕ} (hactive : activeLinks.Nodup)
    (hidle : idleLinks.Nodup) (h : g.mu = .free) :
    ∃ g' r, g.sendBroadcast b activeLinks idleLinks = some (g', r) ∧ g'.mu = .free := by
  rw [sendBroadcast]
  split_ifs
  · exact ⟨_, _, rfl, h⟩
  · obtain ⟨g1, t1, hrun1, hkept1, -⟩ := sendAll_spec false (p := g.parcel b)
      (fun g i _ => some_eq_modifyMember_id g i) hactive {} h
    obtain ⟨g2, t2, hrun2, hkept2, -⟩ := sendAll_spec true (p := g.parcel b)
      (fun g i hg => promote_of_free hg) hidle t1 (hkept1.mu_eq.trans h)
    simp only [hrun1, hrun2, Option.bind_eq_bind, Option.bind_some, Option.pure_def]
    refine ⟨_, _, rfl, ?_⟩
    rw [mu_record]
    exact (hkept1.trans hkept2).mu_eq.trans h

theorem mu_balanceLoop (links : List ℕ) (attempts : ℕ) (t : Tally) (h : g.mu = .free) :
    ∃ g' t', balanceLoop p links attempts (g, t) = some (g', t') ∧ g'.mu = .free := by
  induction attempts generalizing g t with
  | zero => exact ⟨g, t, rfl, h⟩
  | succ attempts ih =>
    rw [balanceLoop]
    set i := links.getD (g.balanceIdx % links.length) 0
    rcases connWrite_cases (g := { g with balanceIdx := g.balanceIdx + 1 }) h p i id with
      ⟨g1, err, hw, -, hbroken⟩ | ⟨g1, hw, -, hmu, -⟩
    · simp only [hw, hbroken, Option.bind_eq_bind, Option.bind_some]
      exact ih _ h
    · simp only [hw]
      exact ⟨_, _, rfl, hmu⟩

theorem mu_sendBalancing (b : Bytes) (links : List ℕ) (h : g.mu = .free) :
    ∃ g' r, g.sendBalancing b links = some (g', r) ∧ g'.mu = .free := by
  rw [sendBalancing]
  split_ifs
  · exact ⟨_, _, rfl, h⟩
  · have hmu : g.startBalance.mu = .free := by rw [startBalance]; split_ifs <;> exact h
    obtain ⟨g1, t1, hrun, hmu1⟩ := mu_balanceLoop (p := g.parcel b) links links.length {} hmu
    simp only [hrun, Option.bind_eq_bind, Option.bind_some, Option.pure_def]
    exact ⟨_, _, rfl, by rw [mu_record]; exact hmu1⟩

/-- Sending in backup mode gives the mutex back.  A member is stable afterwards if it was and has
taken the message. -/
theorem sendBackup_of_free [SortFunc] (now : ℤ) (b : Bytes) (h : g.mu = .free) :
    ∃ g' t, g.sendBackup now b (g.indicesOf isActive)
        (g.indicesOf isStandby) = some (g', t) ∧ g'.mu = .free ∧
      ∀ i, g'.stableAt i = (g.stableAt i && g.accepts (g.parcel b) i) := by
  obtain ⟨g1, t1, hactive, hkept1, hmembers1, -⟩ := sendAll_spec true (p := g.parcel b)
    (fun g i _ => some_eq_modifyMember_id g i) (nodup_indicesOf g isActive) {} h
  have hmu1 : g1.mu = .free := hkept1.mu_eq.trans h
  obtain ⟨g2, hkeep, hmu2, hmembers, -⟩ := keep_of_free (p := g.parcel b) hmu1 t1.curseq
  -- every stable member is active, so the call sends to it
  have hstable2 : ∀ i, g2.stableAt i = (g.stableAt i && g.accepts (g.parcel b) i) := by
    intro i
    rw [show g2.stableAt i = g1.stableAt i by rw [stableAt, stableAt, hmembers],
      stableAt_sendAll hmembers1]
    cases hi : g.stableAt i with
    | false => rfl
    | true => simp [mem_active_of_stableAt hi]
  simp only [sendBackup, hactive, hkeep, Option.bind_eq_bind, Option.bind_some]
  split_ifs
  · have hstandby : ∀ i ∈ g2.sortByWeight (g.indicesOf isStandby),
        g2.stableAt i = false := by
      intro i hi
      rw [mem_sortByWeight] at hi
      rw [hstable2, stableAt_of_mem_standby hi, Bool.false_and]
    obtain ⟨g3, t3, hrun, hmu3, hstable3⟩ :=
      activateStandby_of_free (p := g.parcel b) now t1 hmu2 hstandby
    exact ⟨g3, t3, hrun, hmu3, fun i => by rw [hstable3, hstable2]⟩
  · exact ⟨g2, t1, rfl, hmu2, hstable2⟩

/-! ## The mutex after a call -/

/-- The call takes no message on a stable member: it is closed or not in backup mode, or every
member that is stable at this time refuses the message. -/
def NoStableSend (g : Group) (now : ℤ) (b : Bytes) : Prop :=
  g.closed = true ∨ g.mode ≠ .backup ∨
    ∀ i, (g.qualifyMembers now).stableAt i = true →
      (g.qualifyMembers now).accepts (g.parcel b) i = false

/-- A call of `Write` gives the mutex back exactly when it takes no message on a stable member in
backup mode. -/
theorem write_frees_mutex_iff [SortFunc] (g : Group) (now : ℤ) (b : Bytes) (h : g.mu = .free) :
    (∃ g' r, g.write now b = some (g', r) ∧ g'.mu = .free) ↔ g.NoStableSend now b := by
  rw [write, NoStableSend]
  by_cases hclosed : g.closed = true
  · rw [if_pos hclosed]
    exact ⟨fun _ => Or.inl hclosed, fun _ => ⟨_, _, rfl, h⟩⟩
  rw [if_neg hclosed]
  cases hmode : g.mode with
  | broadcast =>
      obtain ⟨g', r, hrun, hmu⟩ :=
        mu_sendBroadcast b (nodup_indicesOf g fun mc => mc.status = .running)
        (nodup_indicesOf g fun mc => mc.status = .idle) h
      rw [← writeBroadcast_of_free b h] at hrun
      exact ⟨fun _ => Or.inr (Or.inl (by simp)), fun _ => ⟨g', r, hrun, hmu⟩⟩
  | balancing =>
      obtain ⟨g', r, hrun, hmu⟩ := mu_sendBalancing b
        (g.indicesOf fun mc => mc.status = .running || mc.status = .idle) h
      rw [← writeBalancing_of_free b h] at hrun
      exact ⟨fun _ => Or.inr (Or.inl (by simp)), fun _ => ⟨g', r, hrun, hmu⟩⟩
  | backup =>
      obtain ⟨g1, t1, hsend, hmu1, hstable⟩ :=
        sendBackup_of_free (g := g.qualifyMembers now) now b h
      obtain ⟨g2, hsilence, hmu2⟩ := silenceRedundantLinks_of_free now hmu1
      have hrun : g.writeBackup now b = some (g2.record b t1,
          t1.result "srt: all group members failed: "
            "srt: no active or standby group members") := by
        rw [writeBackup_of_free now b h]
        simp only [hsend, hsilence, Option.bind_eq_bind, Option.bind_some, Option.pure_def]
      -- the silencing takes the mutex once more if a stable member has taken the message
      have hfree : g2.mu = .free ↔ ∀ i, (g.qualifyMembers now).stableAt i = true →
          (g.qualifyMembers now).accepts (g.parcel b) i = false := by
        rw [hmu2]
        refine forall_congr' fun i => ?_
        rw [hstable]
        cases (g.qualifyMembers now).stableAt i with
        | false => simp
        | true => simp [parcel, qualifyMembers]
      constructor
      · rintro ⟨g', r, hwrite, hmu⟩
        rw [hrun] at hwrite
        cases hwrite
        exact Or.inr (Or.inr (hfree.mp ((mu_record b t1).symm.trans hmu)))
      · rintro (hclosed' | hmode' | hstable')
        · exact absurd hclosed' hclosed
        · exact absurd rfl hmode'
        · exact ⟨_, _, hrun, (mu_record b t1).trans (hfree.mpr hstable')⟩

/-! ## A stable member -/

section Examples

open scoped StableSort

private def activeMember (token : ℤ) (weight : ℕ) : MemberConn :=
  { conn := { nextSeq := 7 }
    token := token
    weight := weight
    status := .running
    backupState := .activeFresh
    activeSince := some 0
    lastResponse := 0 }

private def backupPair : Group :=
  { mode := .backup
    sendISN := 7
    joined := 2
    members := [activeMember 1 100,
      { conn := { nextSeq := 7 }, serial := 1, token := 2, weight := 50, lastResponse := 0 }]
    lastSchedSeqNo := some 7 }

/-- Right after the activation the member is fresh, and the mutex is given back. -/
theorem write_frees_mutex_while_fresh :
    backupPair.NoStableSend 500000 [1] ∧
      ∃ g' r, backupPair.write 500000 [1] = some (g', r) ∧ g'.mu = .free := by
  have hfresh : backupPair.NoStableSend 500000 [1] := by
    refine Or.inr (Or.inr fun i hi => ?_)
    have hnone : (backupPair.qualifyMembers 500000).bestStable = none := rfl
    exact absurd hi (by simp [bestStable_eq_none_iff.mp hnone i])
  exact ⟨hfresh, (write_frees_mutex_iff backupPair 500000 [1] rfl).mpr hfresh⟩

/-- After the probing time the member is stable.  The write succeeds and returns with the mutex,
and the next write waits for ever. -/
theorem stable_member_keeps_mutex :
    ∃ g, ({ backupPair with members := [{ activeMember 1 100 with lastResponse := 1400000 }] } :
        Group).write 1500000 [1] = some (g, .written 1) ∧
      g.mu = .writing ∧ g.write 1500100 [2] = none := by
  refine ⟨_, rfl, rfl, rfl⟩

end Examples

end Group

end SrtGo.Bonding
