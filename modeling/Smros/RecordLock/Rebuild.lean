import Smros.RecordLock.Table

/-!
# What a rebuilt table contains

`set` and `unlock` push pieces into an empty candidate.  This module states
the outcome over the contents: which pieces are pushed, when they fit, and what
sorting and coalescing keep.
-/

namespace Smros.RecordLock
open Lib List Bool LinuxRecordLockTable LinuxRecordLockRange

/-! ## Pushing a list of records -/

variable {record left right previous : LinuxRecordLock} {capacity : Nat}
namespace LinuxRecordLockTable
@[simp] theorem contents_new : (new capacity).contents = [] := by simp [new, contents]

@[simp] theorem contents_ofEntries (entries) (fits : entries.length ≤ capacity) :
  (ofEntries entries fits).contents = entries := by
  simp [ofEntries, contents]

variable {table pushed : LinuxRecordLockTable capacity}
theorem push_ok (hpush : table.push record = .ok pushed) :
  pushed.contents.Perm (record :: table.contents) := by
  unfold push at hpush
  split at hpush
  · cases hpush
  rename_i filled fill
  cases hpush
  exact fillFirst_perm fill

variable (table : LinuxRecordLockTable capacity)
/-- A push fails only on a full table. -/
theorem push_error_iff (rec) :
  (∃ error, table.push rec = .error error) ↔ table.contents.length = capacity := by
  have full := reduceOption_length_eq_iff (l := table.records)
  rw [table.records_length] at full
  unfold contents
  rw [full]
  unfold push
  split
  · rename_i fill
    have hnone := fillFirst_eq_none_iff.mp fill
    refine iff_of_true ⟨_, rfl⟩ fun slot hslot => ?_
    cases slot with
    | none => exact absurd hslot hnone
    | some taken => rfl
  · rename_i filled fill
    refine iff_of_false (by simp) fun hall => ?_
    have hnone : none ∉ table.records := fun hmem => by simpa using hall none hmem
    rw [fillFirst_eq_none_iff.mpr hnone] at fill
    cases fill

/-- Push every record of a list, stopping at the first failure. -/
def pushAll (table : LinuxRecordLockTable capacity) (entries : List LinuxRecordLock) :
  Except LinuxRecordLockTableError (LinuxRecordLockTable capacity) :=
  entries.foldlM push table

@[simp] theorem pushAll_nil : table.pushAll [] = .ok table := rfl

theorem pushAll_cons (record rest) :
  table.pushAll (record :: rest) = (table.push record).bind (·.pushAll rest) := rfl

@[simp] theorem pushAll_singleton (record) : table.pushAll [record] = table.push record := by
  rw [pushAll_cons]
  cases table.push record <;> rfl

theorem pushAll_append (front back) :
  table.pushAll (front ++ back) = (table.pushAll front).bind (·.pushAll back) :=
  foldlM_append

theorem pushAll_flatMap (pieces) (recs : List LinuxRecordLock)
  (table : LinuxRecordLockTable capacity) :
  recs.foldlM (fun candidate rec => candidate.pushAll (pieces rec)) table =
    table.pushAll (recs.flatMap pieces) := by
  induction recs generalizing table with
  | nil => rfl
  | cons rec rest ih =>
    rw [foldlM_cons, flatMap_cons, pushAll_append]
    exact congrArg (table.pushAll (pieces rec)).bind (funext ih)

variable {entries : List LinuxRecordLock}
theorem pushAll_ok {table : LinuxRecordLockTable capacity}
  (push : table.pushAll entries = .ok pushed) :
  pushed.contents.Perm (entries ++ table.contents) := by
  induction entries generalizing table with
  | nil =>
    cases push
    exact .refl _
  | cons rec rest ih =>
    rw [pushAll_cons] at push
    cases hfirst : table.push rec with
    | error error => rw [hfirst] at push; cases push
    | ok first =>
      rw [hfirst] at push
      exact (ih push).trans (((push_ok hfirst).append_left rest).trans perm_middle)

/-- The pushes succeed exactly when the records fit into the free slots. -/
theorem pushAll_ok_iff (entries) : (∃ pushed, table.pushAll entries = .ok pushed) ↔
    entries.length + table.contents.length ≤ capacity := by
  induction entries generalizing table with
  | nil => simpa using table.contents_length_le
  | cons rec rest ih =>
    have fail := push_error_iff table rec
    have hle := table.contents_length_le
    rw [pushAll_cons, length_cons]
    cases hfirst : table.push rec with
    | error error =>
      have full := fail.mp ⟨error, hfirst⟩
      refine iff_of_false (fun ⟨_, hok⟩ => by cases hok) ?_
      omega
    | ok first =>
      have length := (push_ok hfirst).length_eq
      rw [length_cons] at length
      refine (ih first).trans ?_
      omega

end LinuxRecordLockTable

/-! ## Pieces kept of one record -/

section
variable (record : LinuxRecordLock) (removed : LinuxRecordLockRange)

def leftPieces : List LinuxRecordLock :=
  if hleft : record.range.start < removed.start then
    [LinuxRecordLockTable.leftPiece record removed hleft]
  else
    []

def rightPieces : List LinuxRecordLock :=
  if hright : removed.stop < record.range.stop then
    [LinuxRecordLockTable.rightPiece record removed hright]
  else
    []

/-- The pieces of `record` outside `removed`. -/
def cutPieces : List LinuxRecordLock := leftPieces record removed ++ rightPieces record removed

end

def setPieces (fileId owner : Nat) (kind : LinuxRecordLockKind)
  (replacement : LinuxRecordLockRange) (record : LinuxRecordLock) : List LinuxRecordLock :=
  if record.fileId != fileId || record.owner != owner then
    [record]
  else if record.kind == kind && rangesTouchOrOverlap record.range replacement then
    []
  else if !linuxRecordLockRangesOverlap record.range replacement then
    [record]
  else
    cutPieces record replacement

def unlockPieces (fileId owner : Nat) (range : LinuxRecordLockRange)
  (record : LinuxRecordLock) : List LinuxRecordLock :=
  if record.fileId != fileId || record.owner != owner ||
      !linuxRecordLockRangesOverlap record.range range then
    [record]
  else
    cutPieces record range

variable (table : LinuxRecordLockTable capacity)
theorem pushLeftPiece_eq (record removed) :
  table.pushLeftPiece record removed = table.pushAll (leftPieces record removed) := by
  unfold pushLeftPiece leftPieces
  split <;> simp

theorem pushRightPiece_eq (record removed) :
  table.pushRightPiece record removed = table.pushAll (rightPieces record removed) := by
  unfold pushRightPiece rightPieces
  split <;> simp

theorem pushCut_eq (rec removed) : (do
    let candidate ← table.pushLeftPiece rec removed
    candidate.pushRightPiece rec removed) =
    table.pushAll (cutPieces rec removed) := by
  simp only [pushLeftPiece_eq, pushRightPiece_eq]
  exact (table.pushAll_append _ _).symm

theorem setRecord_eq (fid owner kind repl) (candidate : LinuxRecordLockTable capacity) (record) :
  candidate.setRecord fid owner kind repl record =
    candidate.pushAll (setPieces fid owner kind repl record) := by
  unfold setRecord setPieces
  repeat' split
  · simp
  · simp
  · simp
  · exact pushCut_eq candidate record repl

theorem unlockRecord_eq (fid owner range) (candidate : LinuxRecordLockTable capacity) (record) :
  candidate.unlockRecord fid owner range record =
    candidate.pushAll (unlockPieces fid owner range record) := by
  unfold unlockRecord unlockPieces
  split
  · simp
  · exact pushCut_eq candidate record range

/-! ## The widening loop -/

namespace LinuxRecordLockTable
variable {byte fid owner rounds : Nat} {recs : List LinuxRecordLock}
  {kind : LinuxRecordLockKind}
theorem widenOnce_cons (record rest replacement) :
  widenOnce fid owner kind (record :: rest) replacement = widenOnce fid owner kind rest
    (if absorbs fid owner kind replacement record then replacement.hull record.range
      else replacement) := rfl

theorem within_widenOnce (fid owner kind recs) (repl : LinuxRecordLockRange) :
  repl.Within (widenOnce fid owner kind recs repl) := by
  induction recs generalizing repl with
  | nil => exact .refl _
  | cons rec rest ih =>
    rw [widenOnce_cons]
    split
    · exact (within_hull_left _ _).trans (ih _)
    · exact ih repl

variable {replacement : LinuxRecordLockRange}
/-- A round that changes the range takes in a record that lay outside it. -/
theorem exists_absorbed_of_widenOnce_ne
  (changed : widenOnce fid owner kind recs replacement ≠ replacement) :
  ∃ record ∈ recs, ¬ record.range.Within replacement ∧
    record.range.Within (widenOnce fid owner kind recs replacement) := by
  induction recs with
  | nil => exact absurd rfl changed
  | cons record rest ih =>
    rw [widenOnce_cons] at changed ⊢
    by_cases inside : record.range.Within replacement
    · rw [(hull_eq_left_iff _ _).mpr inside, ite_self] at changed ⊢
      obtain ⟨found, hmem, hfound⟩ := ih changed
      exact ⟨found, mem_cons_of_mem _ hmem, hfound⟩
    split at changed
    · refine ⟨record, mem_cons_self, inside, ?_⟩
      rw [if_pos ‹_›]
      exact (within_hull_right _ _).trans (within_widenOnce _ _ _ _ _)
    · obtain ⟨found, hmem, hfound⟩ := ih changed
      rw [if_neg ‹_›]
      exact ⟨found, mem_cons_of_mem _ hmem, hfound⟩

/-- A round that changes nothing has every record it meets inside the range. -/
theorem within_of_widenOnce_eq (stable : widenOnce fid owner kind recs replacement = replacement)
  (hmem : record ∈ recs) (habsorbs : absorbs fid owner kind replacement record = true) :
  record.range.Within replacement := by
  induction recs with
  | nil => cases hmem
  | cons head rest ih =>
    rw [widenOnce_cons] at stable
    have hhead : absorbs fid owner kind replacement head = true →
      head.range.Within replacement := by
      intro hhead
      rw [if_pos hhead] at stable
      have hrest := within_widenOnce fid owner kind rest (replacement.hull head.range)
      rw [stable] at hrest
      exact (within_hull_right _ _).trans hrest
    rcases mem_cons.mp hmem with rfl | hrest
    · exact hhead habsorbs
    refine ih ?_ hrest
    split at stable
    · rwa [(hull_eq_left_iff _ _).mpr (hhead ‹_›)] at stable
    · exact stable

/-- A round adds only bytes of records of the same file, owner and kind. -/
theorem contains_widenOnce (hbyte : (widenOnce fid owner kind recs replacement).Contains byte) :
  replacement.Contains byte ∨ ∃ record ∈ recs, record.fileId = fid ∧
    record.owner = owner ∧ record.kind = kind ∧ record.range.Contains byte := by
  induction recs generalizing replacement with
  | nil => exact .inl hbyte
  | cons record rest ih =>
    rw [widenOnce_cons] at hbyte
    rcases ih hbyte with front | ⟨found, hmem, hfound⟩
    · split at front
      · rename_i habsorbs
        simp only [absorbs, and_eq_true, beq_iff_eq] at habsorbs
        obtain ⟨⟨⟨file, howner⟩, hkind⟩, touch⟩ := habsorbs
        rw [touch_comm] at touch
        rcases (contains_hull_iff touch byte).mp front with hold | hnew
        · exact .inl hold
        · exact .inr ⟨record, mem_cons_self, file, howner, hkind, hnew⟩
      · exact .inl front
    · exact .inr ⟨found, mem_cons_of_mem _ hmem, hfound⟩

/-- The records that a range does not cover yet. -/
def outside (records : List LinuxRecordLock) (replacement : LinuxRecordLockRange) :
  List LinuxRecordLock :=
  records.filter fun record => decide (¬ record.range.Within replacement)

theorem outside_widenOnce_lt (changed : widenOnce fid owner kind recs replacement ≠ replacement) :
  (outside recs (widenOnce fid owner kind recs replacement)).length <
    (outside recs replacement).length := by
  obtain ⟨rec, hmem, before, after⟩ := exists_absorbed_of_widenOnce_ne changed
  have grows := within_widenOnce fid owner kind recs replacement
  have nested : outside recs (widenOnce fid owner kind recs replacement) =
    (outside recs replacement).filter fun rec =>
      decide (¬ rec.range.Within (widenOnce fid owner kind recs replacement)) := by
    unfold outside
    rw [filter_filter]
    refine filter_congr fun other _ => ?_
    have mono : other.range.Within replacement →
      other.range.Within (widenOnce fid owner kind recs replacement) :=
      fun inside => inside.trans grows
    by_cases inside : other.range.Within replacement
    · simp [mono inside]
    · simp [inside]
  rw [nested, length_filter_lt_length_iff_exists]
  exact ⟨rec, mem_filter.mpr ⟨hmem, by simpa using before⟩, by simpa using after⟩

theorem widen_succ (recs rounds replacement) :
  widen fid owner kind recs (rounds + 1) replacement =
    if widenOnce fid owner kind recs replacement = replacement then replacement
    else widen fid owner kind recs rounds (widenOnce fid owner kind recs replacement) := rfl

theorem within_widen (recs rounds) (repl : LinuxRecordLockRange) :
  repl.Within (widen fid owner kind recs rounds repl) := by
  induction rounds generalizing repl with
  | zero => exact .refl _
  | succ rounds ih =>
    rw [widen_succ]
    split
    · exact .refl _
    · exact (within_widenOnce _ _ _ _ _).trans (ih _)

theorem contains_widen (hbyte : (widen fid owner kind recs rounds replacement).Contains byte) :
  replacement.Contains byte ∨ ∃ record ∈ recs, record.fileId = fid ∧
    record.owner = owner ∧ record.kind = kind ∧ record.range.Contains byte := by
  induction rounds generalizing replacement with
  | zero => exact .inl hbyte
  | succ rounds ih =>
    rw [widen_succ] at hbyte
    split at hbyte
    · exact .inl hbyte
    rcases ih hbyte with round | hrec
    · exact contains_widenOnce round
    · exact .inr hrec

/-- Enough rounds reach the exit of the source's loop. -/
theorem widen_stable (enough : (outside recs replacement).length < rounds) :
  widenOnce fid owner kind recs (widen fid owner kind recs rounds replacement) =
    widen fid owner kind recs rounds replacement := by
  induction rounds generalizing replacement with
  | zero => exact absurd enough (Nat.not_lt_zero _)
  | succ rounds ih =>
    rw [widen_succ]
    split
    · assumption
    rename_i changed
    have fewer := outside_widenOnce_lt changed
    exact ih (by omega)

end LinuxRecordLockTable

/-! ## Sorting and coalescing -/

theorem recordLess_trans_false (x y z) (hxy : recordLess y x = false) (hyz : recordLess z y = false)
  : recordLess z x = false := by
  simp only [recordLess, or_eq_false_iff, and_eq_false_imp, decide_eq_false_iff_not,
    beq_iff_eq] at *
  grind

theorem recordLess_asymm (x y) (less : recordLess y x = true) : recordLess x y = false := by
  by_contra both
  rw [not_eq_false] at both
  simp only [recordLess, or_eq_true, and_eq_true, decide_eq_true_eq, beq_iff_eq] at less both
  omega

theorem shouldSwap_trans (x y z) (hxy : shouldSwap x y = false) (hyz : shouldSwap y z = false) :
  shouldSwap x z = false := by
  cases x <;> cases y <;> cases z <;> simp_all only [shouldSwap, reduceCtorEq]
  exact recordLess_trans_false _ _ _ hxy hyz

theorem shouldSwap_asymm (x y) (hswap : shouldSwap x y = true) : shouldSwap y x = false := by
  cases x <;> cases y <;> simp_all only [shouldSwap, reduceCtorEq]
  exact recordLess_asymm _ _ hswap

/-- Records of one holder stand in the order of their starts. -/
def StartsOrdered (left right : LinuxRecordLock) : Prop :=
  sameHolder left right = true → left.range.start ≤ right.range.start

theorem startsOrdered_of_not_less (less : recordLess right left = false) :
  StartsOrdered left right := by
  intro same
  simp only [sameHolder, and_eq_true, beq_iff_eq] at same
  obtain ⟨⟨file, owner⟩, -⟩ := same
  by_contra start
  simp [recordLess, file, owner, Nat.lt_of_not_le start] at less

theorem pairwise_startsOrdered (positions slots) (enough : slots.length ≤ positions) :
  (exchangeSort shouldSwap positions slots).reduceOption.Pairwise StartsOrdered := by
  have sorted := exchangeSort_sorted shouldSwap_trans shouldSwap_asymm enough
  refine Pairwise.filterMap id ?_ sorted
  rintro left right hswap x rfl y rfl
  exact startsOrdered_of_not_less hswap

theorem extendEnd_range_eq_hull (start : previous.range.start ≤ record.range.start) :
  (extendEnd previous record).range = previous.range.hull record.range := by
  simp [extendEnd, hull, Nat.min_eq_left start]

end Smros.RecordLock
