import Smros.RecordLock.Rebuild

/-!
# Byte-level meaning of the table

POSIX record locks are a map from (file, owner, byte) to a lock kind.  The
table represents such a map when the bytes its records cover are exactly those
the map lists; every table operation carries the representation along.
-/

namespace Smros.RecordLock
open Lib List LinuxRecordLockTable LinuxRecordLockRange

/-- The kind each owner holds on each byte of each file. -/
def ByteLocks := Nat → Nat → Nat → Option LinuxRecordLockKind

variable {fileId owner : Nat} {kind : LinuxRecordLockKind} {range : LinuxRecordLockRange}
namespace ByteLocks
def empty : ByteLocks := fun _ _ _ => none

variable (locks : ByteLocks)
/-- The owner's bytes of the range get the kind, every other triple stays. -/
def set (fileId owner : Nat) (kind : LinuxRecordLockKind)
  (range : LinuxRecordLockRange) : ByteLocks :=
  fun file holder byte =>
    if file = fileId ∧ holder = owner ∧ range.Contains byte then some kind
    else locks file holder byte

def unlock (fileId owner : Nat) (range : LinuxRecordLockRange) : ByteLocks :=
  fun file holder byte =>
    if file = fileId ∧ holder = owner ∧ range.Contains byte then none
    else locks file holder byte

def releaseOwnerFile (owner fileId : Nat) : ByteLocks :=
  fun file holder byte =>
    if file = fileId ∧ holder = owner then none else locks file holder byte

def releaseOwner (owner : Nat) : ByteLocks :=
  fun file holder byte => if holder = owner then none else locks file holder byte

/-- Two kinds on one byte are incompatible unless both read. -/
def Incompatible (left right : LinuxRecordLockKind) : Prop := left = .write ∨ right = .write

/-- Another owner holds a byte of the range with an incompatible kind. -/
def Conflicts (fileId owner : Nat) (kind : LinuxRecordLockKind)
  (range : LinuxRecordLockRange) : Prop :=
  ∃ byte holder held, range.Contains byte ∧ holder ≠ owner ∧
    locks fileId holder byte = some held ∧ Incompatible held kind

/-- No byte has two owners unless both hold a read lock. -/
def Exclusive : Prop :=
  ∀ file byte left right leftKind rightKind, left ≠ right →
    locks file left byte = some leftKind → locks file right byte = some rightKind →
    leftKind = .read ∧ rightKind = .read

variable {locks} {smaller : ByteLocks}
theorem Exclusive.of_submap (exclusive : locks.Exclusive)
  (submap : ∀ file holder byte kind, smaller file holder byte = some kind →
    locks file holder byte = some kind) : smaller.Exclusive := by
  intro file byte left right leftKind rightKind differ hleft hright
  exact exclusive file byte left right leftKind rightKind differ
    (submap _ _ _ _ hleft) (submap _ _ _ _ hright)

/-- Granting a request that nothing contests keeps the locks exclusive. -/
theorem Exclusive.set (exclusive : locks.Exclusive)
  (free : ¬ locks.Conflicts fileId owner kind range) :
  (locks.set fileId owner kind range).Exclusive := by
  -- a byte granted to `owner` and held by someone else would contest the request
  have both : ∀ byte holder held, range.Contains byte → holder ≠ owner →
    locks fileId holder byte = some held → kind = .read ∧ held = .read := by
    intro byte holder held hbyte differ hheld
    have compatible : ¬ Incompatible held kind := fun incompatible =>
      free ⟨byte, holder, held, hbyte, differ, hheld, incompatible⟩
    unfold Incompatible at compatible
    cases held <;> cases kind <;> simp_all
  intro file byte left right leftKind rightKind differ hleft hright
  unfold ByteLocks.set at hleft hright
  split at hleft
  · rename_i hnew
    obtain ⟨rfl, rfl, hbyte⟩ := hnew
    cases hleft
    rw [if_neg (fun same => differ same.2.1.symm)] at hright
    exact both byte right rightKind hbyte differ.symm hright
  · split at hright
    · rename_i hnew
      obtain ⟨rfl, rfl, hbyte⟩ := hnew
      cases hright
      exact (both byte left leftKind hbyte differ hleft).symm
    · exact exclusive file byte left right leftKind rightKind differ hleft hright

end ByteLocks

/-- A record covers the byte for the holder with the kind. -/
def LinuxRecordLock.Covers (record : LinuxRecordLock) (file holder byte : Nat)
  (kind : LinuxRecordLockKind) : Prop :=
  record.fileId = file ∧ record.owner = holder ∧ record.kind = kind ∧ record.range.Contains byte

/-- Some record of the list covers the byte. -/
def Holds (records : List LinuxRecordLock) (file holder byte : Nat)
  (kind : LinuxRecordLockKind) : Prop :=
  ∃ record ∈ records, record.Covers file holder byte kind

variable {file holder byte : Nat}

@[simp] theorem holds_nil : Holds [] file holder byte kind ↔ False := by simp [Holds]

@[simp] theorem holds_cons (rec rest) : Holds (rec :: rest) file holder byte kind ↔
    rec.Covers file holder byte kind ∨ Holds rest file holder byte kind := by
  simp [Holds]

@[simp] theorem holds_append (front back) : Holds (front ++ back) file holder byte kind ↔
    Holds front file holder byte kind ∨ Holds back file holder byte kind := by
  simp only [Holds, mem_append, or_and_right, exists_or]

variable {left right : List LinuxRecordLock}
theorem holds_perm (perm : left.Perm right) :
  Holds left file holder byte kind ↔ Holds right file holder byte kind := by
  simp only [Holds, perm.mem_iff]

theorem holds_flatMap (pieces) (recs : List LinuxRecordLock) :
  Holds (recs.flatMap pieces) file holder byte kind ↔
    ∃ rec ∈ recs, Holds (pieces rec) file holder byte kind := by
  simp only [Holds, mem_flatMap]
  constructor
  · rintro ⟨piece, ⟨rec, hmem, hpiece⟩, covers⟩
    exact ⟨rec, hmem, piece, hpiece, covers⟩
  · rintro ⟨rec, hmem, piece, hpiece, covers⟩
    exact ⟨piece, ⟨rec, hmem, hpiece⟩, covers⟩

/-! ## Coalescing keeps every byte -/

variable {capacity : Nat} {record previous : LinuxRecordLock}
theorem covers_extendEnd_iff (same : sameHolder previous record = true)
  (touch : rangesTouchOrOverlap previous.range record.range = true)
  (start : previous.range.start ≤ record.range.start) :
  (extendEnd previous record).Covers file holder byte kind ↔
    previous.Covers file holder byte kind ∨ record.Covers file holder byte kind := by
  have hbyte : (extendEnd previous record).range.Contains byte ↔
    previous.range.Contains byte ∨ record.range.Contains byte := by
    rw [extendEnd_range_eq_hull start]
    exact contains_hull_iff touch byte
  simp only [sameHolder, Bool.and_eq_true, beq_iff_eq] at same
  obtain ⟨⟨hfile, owner⟩, hkind⟩ := same
  unfold LinuxRecordLock.Covers
  rw [hbyte, ← hfile, ← owner, ← hkind]
  simp only [extendEnd, and_or_left]

variable {rest recs : List LinuxRecordLock}
theorem holds_coalesceInto (ordered : (previous :: rest).Pairwise StartsOrdered) :
  Holds (coalesceInto previous rest) file holder byte kind ↔
    Holds (previous :: rest) file holder byte kind := by
  induction rest generalizing previous with
  | nil => simp [coalesceInto]
  | cons rec rest ih =>
    obtain ⟨hprevious, hrest⟩ := pairwise_cons.mp ordered
    unfold coalesceInto
    split
    · rename_i join
      obtain ⟨same, touch⟩ := Bool.and_eq_true_iff.mp join
      -- the joined rec starts where `previous` does, so it keeps the order
      have joined : (extendEnd previous rec :: rest).Pairwise StartsOrdered :=
        pairwise_cons.mpr ⟨fun other hother => hprevious other (mem_cons_of_mem _ hother),
          (pairwise_cons.mp hrest).2⟩
      have start := hprevious rec mem_cons_self same
      rw [ih joined, holds_cons, covers_extendEnd_iff same touch start, holds_cons,
        holds_cons, or_assoc]
    · rw [holds_cons, ih hrest, holds_cons previous]

theorem holds_coalesce (ordered : recs.Pairwise StartsOrdered) :
  Holds (coalesce recs) file holder byte kind ↔ Holds recs file holder byte kind := by
  cases recs with
  | nil => exact .rfl
  | cons rec rest => exact holds_coalesceInto ordered

theorem holds_sortAndCoalesce (table : LinuxRecordLockTable capacity) :
  Holds table.sortAndCoalesce.contents file holder byte kind ↔
    Holds table.contents file holder byte kind := by
  have ordered := pairwise_startsOrdered capacity table.records (Nat.le_of_eq table.records_length)
  have perm := (exchangeSort_perm shouldSwap capacity table.records).filterMap id
  unfold sortAndCoalesce
  rw [contents_ofEntries, holds_coalesce ordered]
  exact holds_perm perm

/-! ## Cutting keeps the bytes outside the cut -/

variable {newKind : LinuxRecordLockKind} {removed repl : LinuxRecordLockRange}
theorem holds_cutPieces (overlap : linuxRecordLockRangesOverlap record.range removed = true) :
  Holds (cutPieces record removed) file holder byte kind ↔
    record.Covers file holder byte kind ∧ ¬ removed.Contains byte := by
  have hrec := record.range.start_lt_stop
  have recordEnd := record.range.stop_le_endOfFile
  have removedEnd := removed.stop_le_endOfFile
  simp only [linuxRecordLockRangesOverlap, Bool.and_eq_true, decide_eq_true_eq] at overlap
  have hleft : Holds (leftPieces record removed) file holder byte kind ↔
    record.Covers file holder byte kind ∧ byte < removed.start := by
    unfold leftPieces
    split
    · simp only [holds_cons, holds_nil, or_false, LinuxRecordLock.Covers, leftPiece, Contains]
      have := removed.start_lt_stop
      grind
    · simp only [holds_nil, LinuxRecordLock.Covers, Contains]
      grind
  have hright : Holds (rightPieces record removed) file holder byte kind ↔
    record.Covers file holder byte kind ∧ removed.stop ≤ byte ∧ removed.stop ≠ endOfFile := by
    unfold rightPieces
    split
    · simp only [holds_cons, holds_nil, or_false, LinuxRecordLock.Covers, rightPiece, Contains]
      split
      · simp only [toEof]
        grind
      · simp only
        grind
    · simp only [holds_nil, LinuxRecordLock.Covers, Contains]
      grind
  rw [cutPieces, holds_append, hleft, hright, ← and_or_left]
  refine and_congr_right fun _ => ?_
  unfold Contains
  omega

theorem holds_setPieces (absorbed : absorbs fileId owner newKind repl record = true →
      record.range.Within repl) :
  Holds (setPieces fileId owner newKind repl record) file holder byte kind ↔
    record.Covers file holder byte kind ∧
      ¬ (file = fileId ∧ holder = owner ∧ repl.Contains byte) := by
  unfold setPieces
  split
  · -- another holder's record is kept as it is
    rename_i other
    simp only [Bool.or_eq_true, bne_iff_ne] at other
    simp only [holds_cons, holds_nil, or_false, iff_self_and]
    rintro ⟨hfile, howner, -⟩ ⟨rfl, rfl, -⟩
    exact other.elim (· hfile) (· howner)
  rename_i hholder
  simp only [Bool.or_eq_true, bne_iff_ne, not_or, not_not] at hholder
  obtain ⟨hfile, howner⟩ := hholder
  split
  · -- a joined record lies inside the repl
    rename_i join
    have within := absorbed (by
      simpa [absorbs, hfile, howner] using join)
    refine iff_of_false (by simp) ?_
    rintro ⟨⟨rfl, rfl, -, hbyte⟩, outside⟩
    exact outside ⟨hfile, howner, within.contains hbyte⟩
  split
  · rename_i apart
    simp only [Bool.not_eq_eq_eq_not, Bool.not_true] at apart
    simp only [holds_cons, holds_nil, or_false, iff_self_and]
    rintro ⟨-, -, -, hbyte⟩ ⟨-, -, inside⟩
    exact not_overlap_of_contains apart hbyte inside
  · rename_i overlap
    simp only [Bool.not_eq_eq_eq_not, Bool.not_true, Bool.not_eq_false] at overlap
    rw [holds_cutPieces overlap]
    refine and_congr_right ?_
    rintro ⟨rfl, rfl, -⟩
    simp [hfile, howner]

theorem holds_unlockPieces : Holds (unlockPieces fileId owner range record) file holder byte kind ↔
    record.Covers file holder byte kind ∧
      ¬ (file = fileId ∧ holder = owner ∧ range.Contains byte) := by
  unfold unlockPieces
  split
  · rename_i kept
    simp only [Bool.or_eq_true, bne_iff_ne, Bool.not_eq_eq_eq_not, Bool.not_true] at kept
    simp only [holds_cons, holds_nil, or_false, iff_self_and]
    rintro ⟨hfile, howner, -, hbyte⟩ ⟨rfl, rfl, inside⟩
    rcases kept with (differ | differ) | apart
    · exact differ hfile
    · exact differ howner
    · exact not_overlap_of_contains apart hbyte inside
  · rename_i hcut
    simp only [Bool.or_eq_true, bne_iff_ne, Bool.not_eq_eq_eq_not, Bool.not_true, not_or,
      not_not, Bool.not_eq_false] at hcut
    obtain ⟨⟨hfile, howner⟩, overlap⟩ := hcut
    rw [holds_cutPieces overlap]
    refine and_congr_right ?_
    rintro ⟨rfl, rfl, -⟩
    simp [hfile, howner]

/-! ## The table refines the byte map -/

namespace LinuxRecordLockTable
variable (table : LinuxRecordLockTable capacity)
/-- The bytes covered by the records are exactly those of the map. -/
def Represents (locks : ByteLocks) : Prop :=
  ∀ file holder byte kind,
    Holds table.contents file holder byte kind ↔ locks file holder byte = some kind

/-- The map read off the table: the kind of the first record over the byte. -/
def byteLocks : ByteLocks :=
  fun file holder byte =>
    (table.contents.find? fun record =>
      decide (record.fileId = file ∧ record.owner = holder ∧
        record.range.Contains byte)).map LinuxRecordLock.kind

variable {table} {locks : ByteLocks}
/-- A represented map is the one read off the table. -/
theorem Represents.eq_byteLocks (hrep : table.Represents locks) : locks = table.byteLocks := by
  funext file holder byte
  unfold byteLocks
  cases hfind : table.contents.find? fun rec =>
    decide (rec.fileId = file ∧ rec.owner = holder ∧ rec.range.Contains byte) with
  | some rec =>
    have covers := find?_some hfind
    rw [decide_eq_true_eq] at covers
    exact (hrep file holder byte rec.kind).mp
      ⟨rec, mem_of_find?_eq_some hfind, covers.1, covers.2.1, rfl, covers.2.2⟩
  | none =>
    rw [Option.map_none, Option.eq_none_iff_forall_ne_some]
    intro kind hkind
    obtain ⟨rec, hmem, hfile, owner, -, hbyte⟩ := (hrep file holder byte kind).mpr hkind
    have hskip := find?_eq_none.mp hfind rec hmem
    exact hskip (decide_eq_true ⟨hfile, owner, hbyte⟩)

theorem new_represents : (new capacity).Represents ByteLocks.empty := by
  intro file holder byte kind
  simp [ByteLocks.empty]

variable {updated : LinuxRecordLockTable capacity}
/-- A successful `set` rebuilds the table from the kept pieces and the new record. -/
theorem set_ok (hset : table.set fileId owner kind range = .ok updated) :
  ∃ candidate : LinuxRecordLockTable capacity, updated = candidate.sortAndCoalesce ∧
    candidate.contents.Perm
      (⟨fileId, owner, kind, replacementRange fileId owner kind table.contents range⟩ ::
        table.contents.flatMap (setPieces fileId owner kind
          (replacementRange fileId owner kind table.contents range))) := by
  unfold set at hset
  simp only [funext₂ (setRecord_eq fileId owner kind _), pushAll_flatMap] at hset
  cases hkept : (new capacity).pushAll (table.contents.flatMap (setPieces fileId owner kind
    (replacementRange fileId owner kind table.contents range))) with
  | error error => rw [hkept] at hset; cases hset
  | ok kept =>
    rw [hkept] at hset
    simp only [bind, Except.bind] at hset
    split at hset
    · cases hset
    rename_i candidate push
    cases hset
    refine ⟨candidate, rfl, (push_ok push).trans (.cons _ ?_)⟩
    simpa using pushAll_ok hkept

theorem set_represents (hrep : table.Represents locks)
  (hset : table.set fileId owner kind range = .ok updated) :
  updated.Represents (locks.set fileId owner kind range) := by
  intro file holder byte held
  obtain ⟨cand, rfl, perm⟩ := set_ok hset
  have pieces : ∀ rec ∈ table.contents, (Holds (setPieces fileId owner kind
        (replacementRange fileId owner kind table.contents range) rec) file holder byte held ↔ _) :=
    fun rec hmem => holds_setPieces (within_of_widenOnce_eq
      (widen_stable (Nat.lt_succ_of_le (length_filter_le _ _))) hmem)
  rw [holds_sortAndCoalesce, holds_perm perm, holds_cons, holds_flatMap]
  have kept : (∃ rec ∈ table.contents, Holds (setPieces fileId owner kind
        (replacementRange fileId owner kind table.contents range) rec) file holder byte held) ↔
      locks file holder byte = some held ∧ ¬ (file = fileId ∧ holder = owner ∧
        (replacementRange fileId owner kind table.contents range).Contains byte) := by
    rw [← hrep file holder byte held]
    constructor
    · rintro ⟨rec, hmem, holds⟩
      obtain ⟨covers, outside⟩ := (pieces rec hmem).mp holds
      exact ⟨⟨rec, hmem, covers⟩, outside⟩
    · rintro ⟨⟨rec, hmem, covers⟩, outside⟩
      exact ⟨rec, hmem, (pieces rec hmem).mpr ⟨covers, outside⟩⟩
  rw [kept]
  unfold ByteLocks.set LinuxRecordLock.Covers
  by_cases inside : file = fileId ∧ holder = owner ∧
    (replacementRange fileId owner kind table.contents range).Contains byte
  · obtain ⟨rfl, rfl, hbyte⟩ := inside
    by_cases hrange : range.Contains byte
    · simp [hbyte, hrange]
    · -- a byte that only widening added already had this kind
      have hold : locks file holder byte = some kind := by
        rcases contains_widen hbyte with hnew | hrec
        · exact absurd hnew hrange
        · exact (hrep _ _ _ _).mp hrec
      simp [hbyte, hrange, hold]
  · have hrange : ¬ (file = fileId ∧ holder = owner ∧ range.Contains byte) :=
      fun ⟨hfile, howner, hbyte⟩ => inside ⟨hfile, howner, (within_widen _ _ _).contains hbyte⟩
    rw [if_neg hrange]
    grind

theorem unlock_ok (hunlock : table.unlock fileId owner range = .ok updated) :
  ∃ candidate : LinuxRecordLockTable capacity, updated = candidate.sortAndCoalesce ∧
    candidate.contents.Perm (table.contents.flatMap (unlockPieces fileId owner range)) := by
  unfold unlock at hunlock
  simp only [funext₂ (unlockRecord_eq fileId owner range), pushAll_flatMap] at hunlock
  cases hkept : (new capacity).pushAll
    (table.contents.flatMap (unlockPieces fileId owner range)) with
  | error error => rw [hkept] at hunlock; cases hunlock
  | ok kept =>
    rw [hkept] at hunlock
    cases hunlock
    refine ⟨kept, rfl, ?_⟩
    simpa using pushAll_ok hkept

/-- `unlock` fails exactly when the remaining pieces need more slots than there are. -/
theorem unlock_ok_iff (table : LinuxRecordLockTable capacity) (fid owner range) :
  (∃ updated, table.unlock fid owner range = .ok updated) ↔
    (table.contents.flatMap (unlockPieces fid owner range)).length ≤ capacity := by
  have fits := pushAll_ok_iff (new capacity) (table.contents.flatMap (unlockPieces fid owner range))
  rw [contents_new, length_nil, Nat.add_zero] at fits
  rw [← fits]
  unfold unlock
  simp only [funext₂ (unlockRecord_eq fid owner range), pushAll_flatMap]
  cases (new capacity).pushAll (table.contents.flatMap (unlockPieces fid owner range)) with
  | error error => exact iff_of_false (fun ⟨_, hok⟩ => by cases hok) (by simp)
  | ok kept => exact iff_of_true ⟨_, rfl⟩ ⟨_, rfl⟩

theorem unlock_represents (hrep : table.Represents locks)
  (unlock : table.unlock fileId owner range = .ok updated) :
  updated.Represents (locks.unlock fileId owner range) := by
  intro file holder byte held
  obtain ⟨cand, rfl, perm⟩ := unlock_ok unlock
  rw [holds_sortAndCoalesce, holds_perm perm, holds_flatMap]
  simp only [holds_unlockPieces]
  have hold := hrep file holder byte held
  unfold ByteLocks.unlock
  split
  · rename_i removed
    exact iff_of_false (fun ⟨_, _, _, kept⟩ => kept removed) (by simp)
  rename_i kept
  rw [← hold]
  exact ⟨fun ⟨rec, hmem, covers, _⟩ => ⟨rec, hmem, covers⟩,
    fun ⟨rec, hmem, covers⟩ => ⟨rec, hmem, covers, kept⟩⟩

theorem holds_retain (table : LinuxRecordLockTable capacity) (keep file holder byte kind) :
  Holds (table.retain keep).contents file holder byte kind ↔
    ∃ record ∈ table.contents, keep record = true ∧ record.Covers file holder byte kind := by
  simp only [retain, contents_ofEntries, Holds, mem_filter, and_assoc]

section
variable (hrep : table.Represents locks)
include hrep
theorem releaseOwnerFile_represents (owner fid) :
  (table.releaseOwnerFile owner fid).Represents (locks.releaseOwnerFile owner fid) := by
  intro file holder byte held
  rw [releaseOwnerFile, holds_retain]
  unfold ByteLocks.releaseOwnerFile
  split
  · rename_i released
    refine iff_of_false ?_ (by simp)
    rintro ⟨rec, -, keep, hfile, howner, -⟩
    simp [hfile, howner, released] at keep
  · rename_i kept
    rw [← hrep file holder byte held]
    refine exists_congr fun rec => and_congr_right fun _ => ?_
    rw [and_iff_right_iff_imp]
    rintro ⟨hfile, howner, -⟩
    simp only [hfile, howner, Bool.or_eq_true, bne_iff_ne]
    tauto

theorem releaseOwner_represents (owner) :
  (table.releaseOwner owner).Represents (locks.releaseOwner owner) := by
  intro file holder byte held
  rw [releaseOwner, holds_retain]
  unfold ByteLocks.releaseOwner
  split
  · rename_i released
    refine iff_of_false ?_ (by simp)
    rintro ⟨rec, -, keep, -, howner, -⟩
    simp [howner, released] at keep
  · rename_i kept
    rw [← hrep file holder byte held]
    refine exists_congr fun rec => and_congr_right fun _ => ?_
    rw [and_iff_right_iff_imp]
    rintro ⟨-, howner, -⟩
    simpa [howner] using kept

/-- `first_conflict` finds a lock exactly when a byte of the range is contested. -/
theorem firstConflict_isSome_iff (fid owner kind range) :
  (table.firstConflict fid owner kind range).isSome = true ↔
    locks.Conflicts fid owner kind range := by
  rw [firstConflict, find?_isSome]
  unfold ByteLocks.Conflicts
  constructor
  · rintro ⟨rec, hmem, test⟩
    simp only [Bool.and_eq_true, beq_iff_eq, bne_iff_ne] at test
    obtain ⟨⟨⟨file, howner⟩, overlap⟩, kinds⟩ := test
    obtain ⟨byte, hrec, hrange⟩ := (overlap_iff_common_byte _ _).mp overlap
    refine ⟨byte, rec.owner, rec.kind, hrange, howner, ?_, ?_⟩
    · exact (hrep _ _ _ _).mp ⟨rec, hmem, file, rfl, rfl, hrec⟩
    · simpa [linuxRecordLockTypesConflict, ByteLocks.Incompatible] using kinds
  · rintro ⟨byte, holder, held, hrange, differ, hheld, kinds⟩
    obtain ⟨rec, hmem, file, howner, hkind, hrec⟩ := (hrep _ _ _ _).mpr hheld
    refine ⟨rec, hmem, ?_⟩
    simp only [Bool.and_eq_true, beq_iff_eq, bne_iff_ne]
    refine ⟨⟨⟨file, howner ▸ differ⟩, ?_⟩, ?_⟩
    · exact (overlap_iff_common_byte _ _).mpr ⟨byte, hrec, hrange⟩
    · simpa [linuxRecordLockTypesConflict, ByteLocks.Incompatible, hkind] using kinds

end

/-! ## Every reachable table -/

/-- The tables that calls build from an empty one; a failed call keeps the table. -/
inductive Reachable : LinuxRecordLockTable capacity → Prop where
  | new : Reachable (new capacity)
  | set {table updated : LinuxRecordLockTable capacity} {fileId owner : Nat}
      {kind : LinuxRecordLockKind} {range : LinuxRecordLockRange}
      (before : Reachable table) (hset : table.set fileId owner kind range = .ok updated) :
      Reachable updated
  | unlock {table updated : LinuxRecordLockTable capacity} {fileId owner : Nat}
      {range : LinuxRecordLockRange}
      (before : Reachable table) (hunlock : table.unlock fileId owner range = .ok updated) :
      Reachable updated
  | releaseOwnerFile {table : LinuxRecordLockTable capacity} (owner fileId : Nat)
      (before : Reachable table) : Reachable (table.releaseOwnerFile owner fileId)
  | releaseOwner {table : LinuxRecordLockTable capacity} (owner : Nat)
      (before : Reachable table) : Reachable (table.releaseOwner owner)

theorem Reachable.represents (reachable : Reachable table) : table.Represents table.byteLocks := by
  have hexists : ∃ locks, table.Represents locks := by
    induction reachable with
    | new => exact ⟨_, new_represents⟩
    | set before hset ih =>
      obtain ⟨locks, hrep⟩ := ih
      exact ⟨_, set_represents hrep hset⟩
    | unlock before hunlock ih =>
      obtain ⟨locks, hrep⟩ := ih
      exact ⟨_, unlock_represents hrep hunlock⟩
    | releaseOwnerFile owner fid before ih =>
      obtain ⟨locks, hrep⟩ := ih
      exact ⟨_, releaseOwnerFile_represents hrep owner fid⟩
    | releaseOwner owner before ih =>
      obtain ⟨locks, hrep⟩ := ih
      exact ⟨_, releaseOwner_represents hrep owner⟩
  obtain ⟨locks, hrep⟩ := hexists
  exact hrep.eq_byteLocks ▸ hrep

/--
Every reachable table holds one kind per (file, owner, byte), and each call acts
on that map byte by byte: `set` and `unlock` when they succeed, the releases
always.  `unlock` fails only when the pieces it leaves do not fit.
-/
theorem reachable_table_is_byte_map {table : LinuxRecordLockTable capacity}
  (hreachable : Reachable table) :
  table.Represents table.byteLocks ∧
  (∀ fileId owner kind range updated, table.set fileId owner kind range = .ok updated →
    updated.Represents (table.byteLocks.set fileId owner kind range)) ∧
  (∀ fileId owner range updated, table.unlock fileId owner range = .ok updated →
    updated.Represents (table.byteLocks.unlock fileId owner range)) ∧
  (∀ fileId owner range, table.unlock fileId owner range = .error .capacity ↔
    capacity < (table.contents.flatMap (unlockPieces fileId owner range)).length) ∧
  (∀ owner fileId, (table.releaseOwnerFile owner fileId).Represents
    (table.byteLocks.releaseOwnerFile owner fileId)) ∧
  (∀ owner, (table.releaseOwner owner).Represents (table.byteLocks.releaseOwner owner)) ∧
  (∀ fileId owner kind range, (table.firstConflict fileId owner kind range).isSome = true ↔
    table.byteLocks.Conflicts fileId owner kind range) := by
  have hrep := hreachable.represents
  refine ⟨hrep, ?_, ?_, ?_, ?_, ?_, ?_⟩
  · intro fileId owner kind range updated hset
    exact set_represents hrep hset
  · intro fileId owner range updated hunlock
    exact unlock_represents hrep hunlock
  · intro fileId owner range
    have hfits := unlock_ok_iff table fileId owner range
    rw [← Nat.not_le, ← hfits]
    cases table.unlock fileId owner range with
    | error error => exact iff_of_true rfl (by simp)
    | ok updated => exact iff_of_false (by simp) (not_not.mpr ⟨updated, rfl⟩)
  · exact releaseOwnerFile_represents hrep
  · exact releaseOwner_represents hrep
  · exact firstConflict_isSome_iff hrep

/-- Owner 7 write-locks bytes 0 to 9 of file 3, then downgrades bytes 4 and 5. -/
theorem reachable_table_is_byte_map_downgrade : ∃ locked downgraded : LinuxRecordLockTable 4,
    (new 4).set 3 7 .write ⟨0, 10, by decide, by decide⟩ = .ok locked ∧
    locked.set 3 7 .read ⟨4, 6, by decide, by decide⟩ = .ok downgraded ∧
    downgraded.contents.length = 3 ∧
    downgraded.Represents ((locked.byteLocks).set 3 7 .read ⟨4, 6, by decide, by decide⟩) :=
  ⟨_, _, rfl, rfl, rfl,
    (reachable_table_is_byte_map (.set .new rfl)).2.1 3 7 .read ⟨4, 6, by decide, by decide⟩ _
      rfl⟩

/-- In a full table an unlock that would split a record fails and removes nothing. -/
theorem full_table_unlock_fails : ∃ table : LinuxRecordLockTable 1, Reachable table ∧
    table.byteLocks 3 7 4 = some .write ∧
    table.unlock 3 7 ⟨4, 6, by decide, by decide⟩ = .error .capacity :=
  ⟨_, .set .new (show (LinuxRecordLockTable.new 1).set 3 7 .write
    ⟨0, 10, by decide, by decide⟩ = .ok _ from rfl), rfl, rfl⟩

end LinuxRecordLockTable
end Smros.RecordLock
