import Smros.Signal.Delivery

/-!
# Rolling back a delivery

A record that was taken with a reservation can be put back later.  The queue is then the
one that the calls in between would have left had it never been taken, provided they did
not take or discard its signal.
-/

namespace Smros.Signal
open Lib List Function Program
open LinuxPendingSignals (ext)
open History (after new)
open EStateM.Result (ok)

/-! ## Equal masks -/

theorem mask_ext {first second} (same : ∀ signum, Marked first signum ↔ Marked second signum) :
  first = second := by
  refine BitVec.eq_of_getLsbD_eq fun idx hidx => ?_
  have marked := same (idx + 1)
  rw [marked_iff, marked_iff, Nat.add_sub_cancel] at marked
  have range : 1 ≤ idx + 1 ∧ idx + 1 ≤ linuxMaxSignal := by
    unfold linuxMaxSignal
    omega
  simp only [range.1, range.2, true_and] at marked
  exact Bool.eq_iff_iff.mpr marked

theorem or_or_comm (mask first snd : BitVec 64) :
  mask ||| first ||| snd = mask ||| snd ||| first := by
  rw [BitVec.or_assoc, BitVec.or_comm first, ← BitVec.or_assoc]

variable {signum number : Nat}
theorem or_and_not_comm (hother : number ≠ signum) (mask) :
  (mask ||| linuxSignalBit signum) &&& ~~~linuxSignalBit number =
    mask &&& ~~~linuxSignalBit number ||| linuxSignalBit signum := by
  refine mask_ext fun other => ?_
  rw [marked_and_not, marked_or, marked_or, marked_and_not]
  grind

theorem and_not_comm (mask first snd : BitVec 64) :
  mask &&& first &&& snd = mask &&& snd &&& first := by
  rw [BitVec.and_assoc, BitVec.and_comm first, ← BitVec.and_assoc]

namespace LinuxPendingSignals
variable {sigs first second taken settled : LinuxPendingSignals}

/-! ## Restoring -/

/-- The queue with a reserved record put back. -/
def restore (reservation : LinuxPendingSignalReservation) (record : LinuxPendingSignal)
  (signals : LinuxPendingSignals) : LinuxPendingSignals :=
  match reservation with
  | .standard signum => { signals with
    standardReserved := signals.standardReserved &&& ~~~linuxSignalBit signum
    standardPending := signals.standardPending ||| linuxSignalBit signum
    standardRecords := Function.update signals.standardRecords signum record }
  | .realtime sequence => { signals with
    realtimeReservations := signals.realtimeReservations.erase sequence
    realtimePending := insertBySequence ⟨sequence, record⟩ signals.realtimePending }

variable {reservation : LinuxPendingSignalReservation} {record : LinuxPendingSignal}
  {entries : List RealtimeEntry}
theorem rollback_eq_restore (hsound : sigs.Sound)
  (outstanding : sigs.Outstanding reservation) (fits : Fits reservation record) :
  rollbackReservation reservation record sigs = .ok () (restore reservation record sigs) := by
  cases reservation with
  | standard sig =>
    rw [rollback_standard_run,
      if_pos ⟨Eq.symm fits, ⟨outstanding.1, outstanding.2.1⟩, outstanding.2.2⟩]
    rfl
  | realtime seq =>
    rw [rollback_realtime_run hsound, if_pos ⟨fits, outstanding⟩]
    rfl

variable {idx : Nat}
theorem sound_restore (hsound : sigs.Sound) (outstanding : sigs.Outstanding reservation)
  (fits : Fits reservation record) : (restore reservation record sigs).Sound := by
  have hnext := hsound.next (.rollbackReservation reservation record)
  simpa only [next, attempt, rollback_eq_restore hsound outstanding fits] using hnext

variable {entry other last : RealtimeEntry}
theorem mem_insertBySequence :
  other ∈ insertBySequence entry entries ↔ other = entry ∨ other ∈ entries :=
  mem_orderedInsert _

/-- Removing the entry at a place leaves the others. -/
theorem mem_eraseIdx (hsound : sigs.Sound) (place : sigs.realtimePending[idx]? = some entry) :
  other ∈ sigs.realtimePending.eraseIdx idx ↔ other ∈ sigs.realtimePending ∧ other ≠ entry := by
  have nodup : sigs.realtimePending.Nodup :=
    hsound.increasing.imp fun less => ne_of_apply_ne RealtimeEntry.sequence less.ne
  obtain ⟨hlt, rfl⟩ := List.getElem?_eq_some_iff.mp place
  rw [← nodup.erase_getElem idx hlt, nodup.mem_erase_iff, and_comm]

variable {eligible : Nat → Bool}
/-- Putting a record back at once undoes the take. -/
theorem restore_taken (hsound : sigs.Sound) (kinds : sigs.Kinds)
  (take : sigs.takeEligibleReserved eligible = (taken, some (record, reservation))) :
  restore reservation record taken = sigs ∧ taken.Outstanding reservation ∧
    Fits reservation record := by
  have htaken : taken.Sound := by
    have hnext := hsound.next (.takeEligibleReserved eligible)
    simpa only [next, take] using hnext
  cases std : sigs.eligibleStandard eligible with
  | some sig =>
    obtain ⟨⟨pend, reserved, -⟩, -⟩ := eligibleStandard_some std
    obtain ⟨hlow, kind⟩ := kinds.standard pend
    have range := marked_iff.mp pend
    unfold takeEligibleReserved at take
    rw [std] at take
    cases take
    refine ⟨?_, ⟨range.1, hlow, marked_or.mpr (.inr ⟨range.1, range.2.1, rfl⟩)⟩, kind⟩
    refine ext (mask_ext fun num => ?_) (mask_ext fun num => ?_) ?_
      rfl rfl rfl
    · change Marked (sigs.standardPending &&& ~~~linuxSignalBit sig |||
        linuxSignalBit sig) num ↔ Marked sigs.standardPending num
      rw [marked_or, marked_and_not]
      grind
    · change Marked ((sigs.standardReserved ||| linuxSignalBit sig) &&&
        ~~~linuxSignalBit sig) num ↔ Marked sigs.standardReserved num
      rw [marked_and_not, marked_or]
      grind
    · change update (update _ _ _) sig _ = _
      rw [update_idem, update_eq_self]
  | none =>
    cases hfound : sigs.eligibleRealtime eligible with
    | none =>
      unfold takeEligibleReserved at take
      rw [std] at take
      simp only [hfound] at take
      cases take
    | some found =>
      obtain ⟨place, -, -⟩ := eligibleRealtime_some hsound hfound
      have hmem := mem_of_getElem? place
      have fresh : found.2.sequence ∉ sigs.realtimeReservations := fun held =>
        (nodup_append.mp hsound.distinct).2.2 _ (mem_map_of_mem hmem) _ held rfl
      rw [takeReserved_realtime hsound std hfound] at take
      cases take
      have held : found.2.sequence ∈ sigs.realtimeReservations ++ [found.2.sequence] := by simp
      have kind := kinds.realtime found.2 hmem
      refine ⟨?_, held, kind⟩
      refine ext rfl rfl rfl (increasing_ext
        (Sound.increasing (sound_restore htaken held kind)) hsound.increasing fun entry => ?_) ?_ rfl
      · change entry ∈ insertBySequence found.2 _ ↔ _
        rw [mem_insertBySequence, mem_eraseIdx hsound place]
        grind
      · change (sigs.realtimeReservations ++ [found.2.sequence]).erase _ = _
        rw [erase_append_right _ fresh, erase_cons_head, append_nil]

/-! ## Calls that leave a signal alone -/

/-- The call neither takes nor discards the signal, nor settles the reservation; a
standard signal is not delivered past the queue either. -/
def LeavesAlone (reservation : LinuxPendingSignalReservation) (signum : Nat) : Call → Prop
  | .queue _ => True
  | .reserveDirect record => record.signum ≠ signum ∨ linuxRealtimeSignalMin ≤ signum
  | .takeEligible eligible => eligible signum = false
  | .takeEligibleReserved eligible => eligible signum = false
  | .commitReservation other => other ≠ reservation
  | .rollbackReservation other _ => other ≠ reservation
  | .discard number => number ≠ signum

/-! ## Standard signals -/

variable {call : Call}

section
variable (range : 1 ≤ signum ∧ signum ≤ linuxMaxSignal)
include range
theorem queueStandard_restore (added : LinuxPendingSignal) :
  queueStandard added (restore (.standard signum) record sigs) =
    restore (.standard signum) record (queueStandard added sigs) := by
  have marked : Marked (restore (.standard signum) record sigs).standardPending added.signum ↔
    Marked sigs.standardPending added.signum ∨ signum = added.signum := by
    change Marked (_ ||| _) _ ↔ _
    rw [marked_or]
    grind
  unfold queueStandard
  by_cases pend : Marked sigs.standardPending added.signum
  · rw [if_neg pend, if_neg (marked.mpr (.inl pend))]
  rw [if_pos (not_not.mp pend)]
  by_cases same : signum = added.signum
  · rw [if_neg (marked.mpr (.inr same))]
    subst same
    refine ext ?_ rfl ?_ rfl rfl rfl
    · change _ = sigs.standardPending ||| linuxSignalBit _ ||| linuxSignalBit _
      rw [BitVec.or_assoc, BitVec.or_self]
      rfl
    · change _ = update (update _ _ _) _ _
      rw [update_idem]
      rfl
  · rw [if_pos (not_not.mp fun mark => (marked.mp mark).elim pend same)]
    refine ext ?_ rfl ?_ rfl rfl rfl
    · exact or_or_comm ..
    · exact update_comm same ..

theorem queue_restore_standard (added) : queue added (restore (.standard signum) record sigs) =
    mapState (restore (.standard signum) record) (queue added sigs) := by
  rw [queue_run, queue_run, queueStandard_restore range]
  simp only [apply_ite (mapState _)]
  rfl

end

section
variable (hother : number ≠ signum)
include hother
theorem reserveStandard_restore :
  (restore (.standard signum) record sigs).reserveStandard number =
    restore (.standard signum) record (sigs.reserveStandard number) :=
  ext rfl (or_and_not_comm hother.symm _).symm rfl rfl rfl rfl

theorem clearStandard_restore : (restore (.standard signum) record sigs).clearStandard number =
    restore (.standard signum) record (sigs.clearStandard number) :=
  ext (or_and_not_comm hother _) rfl (update_comm hother.symm ..) rfl rfl rfl

theorem marked_reserved_restore :
  (restore (.standard signum) record sigs).standardReserved &&& linuxSignalBit number ≠ 0#64 ↔
    sigs.standardReserved &&& linuxSignalBit number ≠ 0#64 := by
  change Marked (_ &&& _) _ ↔ _
  rw [marked_and_not]
  exact and_iff_left hother.symm

end

theorem ready_restore (helig : eligible signum = false) (number) :
  (restore (.standard signum) record sigs).Ready eligible number ↔ sigs.Ready eligible number := by
  by_cases same : number = signum
  · subst same
    simp [Ready, helig]
  have pend : Marked (restore (.standard signum) record sigs).standardPending number ↔
    Marked sigs.standardPending number := by
    change Marked (_ ||| _) _ ↔ _
    rw [marked_or]
    grind
  exact and_congr pend (and_congr_left' (not_congr (marked_reserved_restore same)))

theorem ready_ne (helig : eligible signum = false) (ready : sigs.Ready eligible number) :
  number ≠ signum := by
  rintro rfl
  exact Bool.false_ne_true (helig.symm.trans ready.2.2)

/-- A call that leaves the signal alone does the same before and after the rollback. -/
theorem next_restore_standard (hsound : sigs.Sound) (fits : record.signum = signum)
  (outstanding : sigs.Outstanding (.standard signum))
  (alone : LeavesAlone (.standard signum) signum call) :
  (restore (.standard signum) record sigs).next call =
    restore (.standard signum) record (sigs.next call) := by
  have range : 1 ≤ signum ∧ signum ≤ linuxMaxSignal :=
    ⟨outstanding.1, (marked_iff.mp outstanding.2.2).2.1⟩
  have restored : (restore (.standard signum) record sigs).Sound :=
    sound_restore hsound outstanding fits
  cases call with
  | queue added => exact attempt_mapState (queue_restore_standard range added)
  | reserveDirect added =>
    have hother : added.signum ≠ signum := alone.resolve_right (Nat.not_le.mpr outstanding.2.1)
    refine attempt_mapState ?_
    rw [reserveDirect_run restored, reserveDirect_run hsound]
    rw [queueStandard_restore range, reserveStandard_restore hother,
      if_congr (marked_reserved_restore hother) rfl rfl]
    simp only [apply_ite (mapState _)]
    rfl
  | takeEligible eligible =>
    simp only [next, takeEligible]
    rw [eligibleStandard_congr (ready_restore alone)]
    cases hstd : sigs.eligibleStandard eligible with
    | some num => exact clearStandard_restore (ready_ne alone (eligibleStandard_some hstd).1)
    | none =>
      have same : (restore (.standard signum) record sigs).eligibleRealtime eligible =
        sigs.eligibleRealtime eligible := rfl
      rw [same]
      cases sigs.eligibleRealtime eligible with
      | none => rfl
      | some found => rfl
  | takeEligibleReserved eligible =>
    simp only [next]
    have selects : (restore (.standard signum) record sigs).eligibleStandard eligible =
      sigs.eligibleStandard eligible := eligibleStandard_congr (ready_restore alone)
    cases hstd : sigs.eligibleStandard eligible with
    | some num =>
      have hother := ready_ne alone (eligibleStandard_some hstd).1
      unfold takeEligibleReserved
      rw [selects, hstd]
      simp only [clearStandard_restore hother, reserveStandard_restore hother]
    | none =>
      rw [hstd] at selects
      cases hfound : sigs.eligibleRealtime eligible with
      | none =>
        have restoredFound : (restore (.standard signum) record sigs).eligibleRealtime
          eligible = none := hfound
        unfold takeEligibleReserved
        rw [selects, hstd]
        simp only [hfound, restoredFound]
      | some found =>
        rw [takeReserved_realtime hsound hstd hfound, takeReserved_realtime restored selects hfound]
        rfl
  | commitReservation resv =>
    refine attempt_mapState ?_
    cases resv with
    | standard num =>
      have hother : num ≠ signum := fun same => alone (same ▸ rfl)
      rw [commit_standard_run, commit_standard_run, apply_ite (mapState _)]
      refine if_congr (or_congr_right (not_iff_not.mp (marked_reserved_restore hother))) rfl ?_
      exact congrArg (ok ()) (ext rfl (and_not_comm ..) rfl rfl rfl rfl)
    | realtime seq =>
      rw [commit_realtime_run, commit_realtime_run, apply_ite (mapState _)]
      rfl
  | rollbackReservation resv added =>
    refine attempt_mapState ?_
    cases resv with
    | standard num =>
      have hother : num ≠ signum := fun same => alone (same ▸ rfl)
      rw [rollback_standard_run, rollback_standard_run,
        apply_ite (mapState _)]
      refine if_congr (and_congr_right' (and_congr_right' (marked_reserved_restore hother))) ?_ rfl
      exact congrArg (ok ()) (ext (or_or_comm ..)
        (and_not_comm ..) (update_comm hother.symm ..) rfl rfl rfl)
    | realtime seq =>
      rw [rollback_realtime_run restored, rollback_realtime_run hsound,
        apply_ite (mapState _)]
      rfl
  | discard num =>
    refine ext (or_and_not_comm alone _) rfl ?_ rfl rfl rfl
    simp only [next, discard]
    split
    · exact update_comm (Ne.symm alone) ..
    · rfl

/-! ## Realtime signals -/

theorem insertBySequence_of_lt (less : ∀ queued ∈ entries, entry.sequence < queued.sequence) :
  insertBySequence entry entries = entry :: entries := by
  unfold insertBySequence
  cases entries with
  | nil => rfl
  | cons first rest => rw [orderedInsert_cons, if_pos (less first mem_cons_self)]

theorem insertBySequence_append (less : entry.sequence < last.sequence) (entries) :
  insertBySequence entry (entries ++ [last]) = insertBySequence entry entries ++ [last] := by
  unfold insertBySequence
  induction entries with
  | nil => simp [less]
  | cons first rest ih =>
    rw [cons_append, orderedInsert_cons, orderedInsert_cons, ih]
    split
    · rfl
    · rfl

theorem insertBySequence_filter {keep} (hkeep : keep entry = true)
  (increasing : entries.Pairwise fun first second => first.sequence < second.sequence) :
  insertBySequence entry (entries.filter keep) = (insertBySequence entry entries).filter keep := by
  induction entries with
  | nil => simp [insertBySequence, hkeep]
  | cons first rest ih =>
    obtain ⟨hfirst, hrest⟩ := pairwise_cons.mp increasing
    by_cases less : entry.sequence < first.sequence
    · have hall : ∀ queued ∈ first :: rest, entry.sequence < queued.sequence := by
        intro queued hqueued
        rcases mem_cons.mp hqueued with rfl | hqueued
        · exact less
        · exact less.trans (hfirst queued hqueued)
      rw [insertBySequence_of_lt hall, insertBySequence_of_lt fun queued hqueued =>
        hall queued (mem_filter.mp hqueued).1, filter_cons_of_pos hkeep]
    · have hcons : insertBySequence entry (first :: rest) =
        first :: insertBySequence entry rest := by
        unfold insertBySequence
        rw [orderedInsert_cons, if_neg less]
      rw [hcons, filter_cons, filter_cons, ← ih hrest]
      split
      · unfold insertBySequence
        rw [orderedInsert_cons, if_neg less]
      · rfl

theorem insertBySequence_comm {first snd} (hother : first.sequence ≠ snd.sequence) (entries) :
  insertBySequence first (insertBySequence snd entries) =
    insertBySequence snd (insertBySequence first entries) := by
  unfold insertBySequence
  induction entries with
  | nil => grind [orderedInsert]
  | cons queued rest ih => grind [orderedInsert]

section
variable {sequence : Nat}
theorem hasRoom_restore (held : sequence ∈ sigs.realtimeReservations) :
  (restore (.realtime sequence) record sigs).hasRoom = sigs.hasRoom := by
  have effect : Effect sigs (restore (.realtime sequence) record sigs) [] [] []
    [⟨sequence, record⟩] := .restores ⟨sequence, record⟩ held rfl rfl rfl
  have length := effect.balance.length_eq
  simp only [append_nil, map_nil] at length
  refine Bool.eq_iff_iff.mpr ?_
  rw [hasRoom_iff, hasRoom_iff, length]

theorem queueStandard_restore_realtime (added) :
  queueStandard added (restore (.realtime sequence) record sigs) =
    restore (.realtime sequence) record (queueStandard added sigs) := by
  unfold queueStandard
  change (if sigs.standardPending &&& linuxSignalBit added.signum = 0#64 then _ else _) = _
  split
  · rfl
  · rfl

variable (hsound : sigs.Sound)
include hsound
theorem queue_restore_realtime (held : sequence ∈ sigs.realtimeReservations) (added) :
  queue added (restore (.realtime sequence) record sigs) =
    mapState (restore (.realtime sequence) record) (queue added sigs) := by
  rw [queue_run, queue_run, queueStandard_restore_realtime, hasRoom_restore held]
  simp only [apply_ite (mapState _)]
  refine if_congr .rfl rfl (if_congr .rfl rfl (ite_congr rfl (fun _ => rfl) fun hopen => ?_))
  have less := (hsound.issued sequence (mem_append_right _ held)).2
    fun hnone => hopen (.inr hnone)
  refine congrArg (ok ()) (ext rfl rfl rfl ?_ rfl rfl)
  exact (insertBySequence_append less _).symm

section
variable (restored : (restore (.realtime sequence) record sigs).Sound)
include restored
/-- A search that does not accept the restored record finds the same entry. -/
theorem eligibleRealtime_restore (helig : eligible record.signum = false) :
  ((restore (.realtime sequence) record sigs).eligibleRealtime eligible).map Prod.snd =
    (sigs.eligibleRealtime eligible).map Prod.snd := by
  have entries : ∀ entry, eligible entry.record.signum = true →
    (entry ∈ (restore (.realtime sequence) record sigs).realtimePending ↔
      entry ∈ sigs.realtimePending) := by
    intro entry passes
    change entry ∈ insertBySequence _ _ ↔ _
    rw [mem_insertBySequence]
    refine or_iff_right ?_
    rintro rfl
    exact Bool.false_ne_true (helig.symm.trans passes)
  cases hfound : sigs.eligibleRealtime eligible with
  | none =>
    cases hother : (restore (.realtime sequence) record sigs).eligibleRealtime eligible with
    | none => rfl
    | some found =>
      obtain ⟨place, passes, -⟩ := eligibleRealtime_some restored hother
      have hmem := (entries _ passes).mp (mem_of_getElem? place)
      exact absurd passes (Bool.eq_false_iff.mp (eligibleRealtime_none hfound _ hmem))
  | some found =>
    obtain ⟨place, passes, hfirst⟩ := eligibleRealtime_some hsound hfound
    have hmem := mem_of_getElem? place
    cases hother : (restore (.realtime sequence) record sigs).eligibleRealtime eligible with
    | none =>
      exact absurd passes (Bool.eq_false_iff.mp
        (eligibleRealtime_none hother _ ((entries _ passes).mpr hmem)))
    | some other =>
      obtain ⟨otherPlace, otherPasses, otherFirst⟩ := eligibleRealtime_some restored hother
      have otherMem := (entries _ otherPasses).mp (mem_of_getElem? otherPlace)
      have forward := hfirst _ otherMem otherPasses
      have backward := otherFirst _ ((entries _ passes).mpr hmem) passes
      have hseq : found.2.sequence = other.2.sequence := by
        unfold ComesFirst at forward backward
        omega
      have nodup := (nodup_append.mp hsound.distinct).1
      exact congrArg some (inj_on_of_nodup_map nodup otherMem hmem hseq.symm)

variable {pos : Nat}
/-- Taking an entry and putting another one back can be exchanged. -/
theorem eraseIdx_restore (held : sequence ∈ sigs.realtimeReservations)
  (place : sigs.realtimePending[idx]? = some entry)
  (hpos : (restore (.realtime sequence) record sigs).realtimePending[pos]? = some entry) :
  (restore (.realtime sequence) record sigs).realtimePending.eraseIdx pos =
    insertBySequence ⟨sequence, record⟩ (sigs.realtimePending.eraseIdx idx) := by
  have disjoint := (nodup_append.mp hsound.distinct).2.2
  have hne : ∀ queued ∈ sigs.realtimePending, queued.sequence ≠ sequence := fun queued hqueued =>
    disjoint _ (mem_map_of_mem hqueued) _ held
  have sublist := eraseIdx_sublist sigs.realtimePending idx
  refine increasing_ext (restored.increasing.sublist (eraseIdx_sublist _ _))
    (insertBySequence_increasing (hsound.increasing.sublist sublist) fun queued hqueued =>
      hne queued (sublist.subset hqueued)) fun other => ?_
  rw [mem_eraseIdx restored hpos, mem_insertBySequence, mem_eraseIdx hsound place]
  change other ∈ insertBySequence _ _ ∧ _ ↔ _
  rw [mem_insertBySequence]
  have hentry : entry ≠ ⟨sequence, record⟩ := fun same =>
    hne entry (mem_of_getElem? place) (same ▸ rfl)
  grind

end

theorem next_restore_realtime (fits : linuxRealtimeSignalMin ≤ record.signum)
  (held : sequence ∈ sigs.realtimeReservations)
  (alone : LeavesAlone (.realtime sequence) record.signum call) :
  (restore (.realtime sequence) record sigs).next call =
    restore (.realtime sequence) record (sigs.next call) := by
  have restored : (restore (.realtime sequence) record sigs).Sound := sound_restore hsound held fits
  cases call with
  | queue added => exact attempt_mapState (queue_restore_realtime hsound held added)
  | reserveDirect added =>
    refine attempt_mapState ?_
    rw [reserveDirect_run restored, reserveDirect_run hsound]
    rw [queueStandard_restore_realtime, hasRoom_restore held]
    simp only [apply_ite (mapState _)]
    refine if_congr .rfl rfl (if_congr .rfl rfl (if_congr .rfl rfl ?_))
    refine congrArg (ok _) (ext rfl rfl rfl rfl ?_ rfl)
    exact (erase_append_left _ held).symm
  | takeEligible eligible =>
    simp only [next, takeEligible]
    have selects : (restore (.realtime sequence) record sigs).eligibleStandard eligible =
      sigs.eligibleStandard eligible := rfl
    rw [selects]
    cases sigs.eligibleStandard eligible with
    | some num => rfl
    | none =>
      have same := eligibleRealtime_restore hsound restored alone
      cases hfound : sigs.eligibleRealtime eligible with
      | none =>
        rw [hfound, Option.map_none, Option.map_eq_none_iff] at same
        simp only [same]
      | some found =>
        rw [hfound, Option.map_some, Option.map_eq_some_iff] at same
        obtain ⟨other, hother, entry⟩ := same
        obtain ⟨place, -, -⟩ := eligibleRealtime_some hsound hfound
        obtain ⟨pos, -, -⟩ := eligibleRealtime_some restored hother
        rw [entry] at pos
        simp only [hother]
        exact ext rfl rfl rfl (eraseIdx_restore hsound restored held place pos) rfl rfl
  | takeEligibleReserved eligible =>
    simp only [next]
    have selects : (restore (.realtime sequence) record sigs).eligibleStandard eligible =
      sigs.eligibleStandard eligible := rfl
    cases hstd : sigs.eligibleStandard eligible with
    | some num =>
      unfold takeEligibleReserved
      rw [selects, hstd]
      rfl
    | none =>
      rw [hstd] at selects
      have same := eligibleRealtime_restore hsound restored alone
      cases hfound : sigs.eligibleRealtime eligible with
      | none =>
        rw [hfound, Option.map_none, Option.map_eq_none_iff] at same
        unfold takeEligibleReserved
        rw [selects, hstd]
        simp only [hfound, same]
      | some found =>
        rw [hfound, Option.map_some, Option.map_eq_some_iff] at same
        obtain ⟨other, hother, entry⟩ := same
        obtain ⟨place, -, -⟩ := eligibleRealtime_some hsound hfound
        obtain ⟨pos, -, -⟩ := eligibleRealtime_some restored hother
        rw [takeReserved_realtime hsound hstd hfound, takeReserved_realtime restored selects hother]
        rw [entry] at pos ⊢
        exact ext rfl rfl rfl (eraseIdx_restore hsound restored held place pos)
          (erase_append_left _ held).symm rfl
  | commitReservation resv =>
    refine attempt_mapState ?_
    cases resv with
    | standard num =>
      rw [commit_standard_run, commit_standard_run, apply_ite (mapState _)]
      rfl
    | realtime other =>
      have hother : other ≠ sequence := fun same => alone (same ▸ rfl)
      have hmem : other ∈ sigs.realtimeReservations.erase sequence ↔
        other ∈ sigs.realtimeReservations := mem_erase_of_ne hother
      rw [commit_realtime_run, commit_realtime_run, apply_ite (mapState _)]
      refine if_congr hmem ?_ rfl
      exact congrArg (ok ()) (ext rfl rfl rfl rfl (erase_comm ..) rfl)
  | rollbackReservation resv added =>
    refine attempt_mapState ?_
    cases resv with
    | standard num =>
      rw [rollback_standard_run, rollback_standard_run,
        apply_ite (mapState _)]
      rfl
    | realtime other =>
      have hother : other ≠ sequence := fun same => alone (same ▸ rfl)
      have hmem : other ∈ sigs.realtimeReservations.erase sequence ↔
        other ∈ sigs.realtimeReservations := mem_erase_of_ne hother
      rw [rollback_realtime_run restored, rollback_realtime_run hsound,
        apply_ite (mapState _)]
      refine if_congr (and_congr_right' hmem) ?_ rfl
      exact congrArg (ok ()) (ext rfl rfl rfl (insertBySequence_comm hother _) (erase_comm ..) rfl)
  | discard num =>
    refine ext rfl rfl rfl ?_ rfl rfl
    refine (insertBySequence_filter ?_ hsound.increasing).symm
    exact bne_iff_ne.mpr (Ne.symm alone)

end

/-! ## Calls between a take and its rollback -/

/-- Settling a reservation keeps the others. -/
theorem outstanding_settled {other} (hother : other ≠ reservation)
  (outstanding : sigs.Outstanding reservation) (hsettled : match other with
    | .standard signum =>
      settled.standardReserved = sigs.standardReserved &&& ~~~linuxSignalBit signum ∧
        settled.realtimeReservations = sigs.realtimeReservations
    | .realtime sequence =>
      settled.standardReserved = sigs.standardReserved ∧
        settled.realtimeReservations = sigs.realtimeReservations.erase sequence) :
  settled.Outstanding reservation := by
  cases other with
  | standard signum =>
    cases reservation with
    | standard num =>
      refine ⟨outstanding.1, outstanding.2.1, ?_⟩
      rw [hsettled.1, marked_and_not]
      exact ⟨outstanding.2.2, fun same => hother (same ▸ rfl)⟩
    | realtime sequence =>
      change sequence ∈ settled.realtimeReservations
      rw [hsettled.2]
      exact outstanding
  | realtime sequence =>
    cases reservation with
    | standard num => exact ⟨outstanding.1, outstanding.2.1, hsettled.1 ▸ outstanding.2.2⟩
    | realtime num =>
      change num ∈ settled.realtimeReservations
      rw [hsettled.2]
      have hne : num ≠ sequence := fun same => hother (same ▸ rfl)
      exact (mem_erase_of_ne hne).mpr outstanding

/-- What a call does to a reservation that it leaves alone: nothing. -/
theorem outstanding_step {accepted delivered discarded back}
  (step : Step sigs call settled accepted delivered discarded back)
  (outstanding : sigs.Outstanding reservation)
  (alone : LeavesAlone reservation signum call) : settled.Outstanding reservation := by
  have keeps : ∀ {other : LinuxPendingSignals},
    (∀ num, Marked sigs.standardReserved num → Marked other.standardReserved num) →
    (∀ seq ∈ sigs.realtimeReservations, seq ∈ other.realtimeReservations) →
    other.Outstanding reservation := by
    intro other hstd hrt
    cases reservation with
    | standard num => exact ⟨outstanding.1, outstanding.2.1, hstd _ outstanding.2.2⟩
    | realtime seq => exact hrt _ outstanding
  cases step with
  | same => exact outstanding
  | marks =>
    unfold queueStandard
    split
    · exact keeps (fun _ => id) fun _ => id
    · exact outstanding
  | queues | takes | takesEntry | discards => exact keeps (fun _ => id) fun _ => id
  | reserves | holds => exact keeps (fun _ marked => marked_or.mpr (.inl marked)) fun _ => id
  | reservesNext | holdsEntry => exact keeps (fun _ => id) fun _ => mem_append_left _
  | commits | commitsEntry | restores | restoresEntry =>
    exact outstanding_settled alone outstanding ⟨rfl, rfl⟩

/-- Putting the record back undoes the take, whatever was called in between. -/
theorem restore_run (fits : Fits reservation record) {between}
  (alone : ∀ call ∈ between, LeavesAlone reservation record.signum call) (hsound : taken.Sound)
  (outstanding : taken.Outstanding reservation) :
  restore reservation record (run next taken between) =
    run next (restore reservation record taken) between ∧
    (run next taken between).Sound ∧ (run next taken between).Outstanding reservation := by
  induction between generalizing taken with
  | nil => exact ⟨rfl, hsound, outstanding⟩
  | cons call rest ih =>
    have hcall := alone call mem_cons_self
    have hstep : (restore reservation record taken).next call =
      restore reservation record (taken.next call) := by
      cases reservation with
      | standard signum =>
        have hsig : record.signum = signum := fits
        exact next_restore_standard hsound hsig outstanding (hsig ▸ hcall)
      | realtime seq => exact next_restore_realtime hsound fits outstanding hcall
    have hrest := ih (fun other hother => alone other (mem_cons_of_mem _ hother))
      (hsound.next call) (outstanding_step (next_step hsound call) outstanding hcall)
    change _ = run next ((restore reservation record taken).next call) rest ∧ _
    rw [hstep]
    exact hrest

end LinuxPendingSignals

/-! ## Delivery over every history -/

theorem history_signals (calls) : (after calls).signals = LinuxPendingSignals.after calls :=
  run_project (fun _ _ => rfl) new calls

/--
Over every history of calls: each accepted realtime record is pending, reserved, delivered
or discarded, and no two of these, so that for each number the delivered ones are those
accepted without the others; the queue holds the pending ones in the order of acceptance;
a take returns what `peekEligible` announced, the lowest standard signal or else the oldest
of the lowest realtime signal; no standard signal is pending twice; and a record that is
put back after calls that leave its signal alone leaves the queue as if it had never been
taken.
-/
theorem signals_delivered_once_and_restored (calls : List Call) : ((after calls).signals.numbers ++
    ((after calls).delivered ++ (after calls).discarded)).Perm
    ((after calls).ledger.map RealtimeEntry.sequence) ∧
  ((after calls).ledger.Pairwise fun first second => first.sequence < second.sequence) ∧
  (after calls).delivered.Nodup ∧
  (∀ signum, (after calls).ledger.filter (fun entry =>
      entry.record.signum = signum ∧ entry.sequence ∈ (after calls).delivered) =
    (after calls).ledger.filter fun entry => entry.record.signum = signum ∧
      entry ∉ (after calls).signals.realtimePending ∧
      entry.sequence ∉ (after calls).signals.realtimeReservations ∧
      entry.sequence ∉ (after calls).discarded) ∧
  (after calls).signals.realtimePending = (after calls).ledger.filter (fun entry => entry.sequence ∈
      (after calls).signals.realtimePending.map RealtimeEntry.sequence) ∧
  (∀ eligible, ((after calls).signals.takeEligible eligible).2 =
      (after calls).signals.peekEligible eligible ∧
    ((after calls).signals.takeEligibleReserved eligible).2.map Prod.fst =
      (after calls).signals.peekEligible eligible ∧
    (∀ record, (after calls).signals.peekEligible eligible = some record →
      (after calls).signals.Selects eligible record) ∧
    ((after calls).signals.peekEligible eligible = none →
      (∀ signum, ¬ (after calls).signals.Ready eligible signum) ∧
      ∀ entry ∈ (after calls).signals.realtimePending, eligible entry.record.signum = false)) ∧
  (∀ signum < linuxRealtimeSignalMin, (after calls).signals.pendingRecords.countP
      (fun record => record.signum == signum) ≤ 1) ∧
  ∀ eligible taken record reservation, (after calls).signals.takeEligibleReserved eligible =
      (taken, some (record, reservation)) →
    ∀ between : List Call,
      (∀ call ∈ between, LinuxPendingSignals.LeavesAlone reservation record.signum call) →
      LinuxPendingSignals.rollbackReservation reservation record
          (run LinuxPendingSignals.next taken between) =
        .ok () (run LinuxPendingSignals.next (after calls).signals between) := by
  have hrecorded := Recorded.after calls
  have hsound := hrecorded.sound
  have hkinds : (after calls).signals.Kinds :=
    history_signals calls ▸ LinuxPendingSignals.Kinds.after calls
  refine ⟨hrecorded.accounts, hrecorded.increasing,
    (List.nodup_append.mp hrecorded.distinct).2.1.of_append_left, hrecorded.delivered_eq,
    hrecorded.pending_eq, fun eligible => ?_, fun signum hstd =>
    hkinds.standard_once hstd, ?_⟩
  · exact ⟨LinuxPendingSignals.takeEligible_eq_peek _ _,
      LinuxPendingSignals.takeReserved_eq_peek hsound eligible,
      fun record => LinuxPendingSignals.peekEligible_selects hsound,
      LinuxPendingSignals.peekEligible_none⟩
  intro eligible taken record reservation htake between halone
  obtain ⟨hundone, houtstanding, hfits⟩ := LinuxPendingSignals.restore_taken hsound hkinds htake
  have htaken : taken.Sound := by
    have hnext := hsound.next (.takeEligibleReserved eligible)
    simpa only [LinuxPendingSignals.next, htake] using hnext
  obtain ⟨hrun, hlast, hheld⟩ := LinuxPendingSignals.restore_run hfits halone htaken houtstanding
  rw [LinuxPendingSignals.rollback_eq_restore hlast hheld hfits, hrun, hundone]

/-- A realtime signal with some payload. -/
def realtimeSignal (signum : Nat) (payload : UInt8) : LinuxPendingSignal :=
  ⟨signum, true, Vector.replicate linuxSignalInfoBytes payload, 0, 0⟩

/-- The second of two records of one number is delivered first when it is taken while the
first is reserved and then put back; and a record that is reserved outlives the discarding
of its number. -/
theorem rolled_back_record_is_delivered_late_and_survives_discard :
  (after [.queue (realtimeSignal 34 1), .queue (realtimeSignal 34 2),
    .takeEligibleReserved fun _ => true, .takeEligible fun _ => true,
    .rollbackReservation (.realtime 1) (realtimeSignal 34 1),
    .takeEligible fun _ => true]).delivered = [2, 1] ∧
  (LinuxPendingSignals.after [.queue (realtimeSignal 34 1),
    .takeEligibleReserved fun _ => true, .discard 34,
    .rollbackReservation (.realtime 1) (realtimeSignal 34 1)]).realtimePending ≠
  (LinuxPendingSignals.after [.queue (realtimeSignal 34 1), .discard 34]).realtimePending := by
  decide +kernel

end Smros.Signal
