import Mathlib.Algebra.Group.Int.Defs
import Mathlib.Algebra.Group.Nat.Defs
import Mathlib.Data.List.Basic

/-!
# Record-lock byte ranges

A lock range is half open; a range that runs to the end of the file stores the
largest `u64` as its end.  Every constructor of the source yields a non-empty
range, so the structure carries that fact and the later `expect`s cannot fail.
-/

namespace Smros.RecordLock
open Bool

/-- `LINUX_RECORD_LOCK_END_OF_FILE`, which is `u64::MAX`. -/
def endOfFile : Nat := 2 ^ 64 - 1

inductive LinuxRecordLockRangeError where
  | invalid
  | overflow
  deriving DecidableEq

structure LinuxRecordLockRange where
  start : Nat
  stop : Nat
  start_lt_stop : start < stop
  stop_le_endOfFile : stop ≤ endOfFile
  deriving DecidableEq

variable {byte : Nat}
namespace LinuxRecordLockRange
def finite (start stop : Nat) : Option LinuxRecordLockRange :=
  if h : start < stop ∧ stop < endOfFile then
    some ⟨start, stop, h.1, Nat.le_of_lt h.2⟩
  else
    none

def toEof (start : Nat) (hstart : start < endOfFile) : LinuxRecordLockRange :=
  ⟨start, endOfFile, hstart, Nat.le_refl _⟩

/-- The byte offsets a range stands for; an end-of-file range has no last byte. -/
def Contains (range : LinuxRecordLockRange) (byte : Nat) : Prop :=
  range.start ≤ byte ∧ (byte < range.stop ∨ range.stop = endOfFile)

instance (range : LinuxRecordLockRange) (byte : Nat) : Decidable (range.Contains byte) :=
  inferInstanceAs (Decidable (_ ∧ (_ ∨ _)))

variable (left right : LinuxRecordLockRange)
/-- The smallest range around two ranges. -/
def hull : LinuxRecordLockRange where
  start := min left.start right.start
  stop := max left.stop right.stop
  start_lt_stop := by
    have := left.start_lt_stop
    omega
  stop_le_endOfFile := by
    have := left.stop_le_endOfFile
    have := right.stop_le_endOfFile
    omega

/-- `inner` lies inside `outer`. -/
def Within (inner outer : LinuxRecordLockRange) : Prop :=
  outer.start ≤ inner.start ∧ inner.stop ≤ outer.stop

instance (inner outer : LinuxRecordLockRange) : Decidable (inner.Within outer) :=
  inferInstanceAs (Decidable (_ ∧ _))

theorem Within.refl (range : LinuxRecordLockRange) : range.Within range :=
  ⟨Nat.le_refl _, Nat.le_refl _⟩

variable {inner middle outer : LinuxRecordLockRange}
theorem Within.trans (hinner : inner.Within middle) (houter : middle.Within outer) :
  inner.Within outer :=
  ⟨Nat.le_trans houter.1 hinner.1, Nat.le_trans hinner.2 houter.2⟩

theorem Within.contains (within : inner.Within outer) (hbyte : inner.Contains byte) :
  outer.Contains byte := by
  have := outer.stop_le_endOfFile
  unfold Within Contains at *
  omega

theorem within_hull_left : left.Within (hull left right) :=
  ⟨Nat.min_le_left _ _, Nat.le_max_left _ _⟩

theorem within_hull_right : right.Within (hull left right) :=
  ⟨Nat.min_le_right _ _, Nat.le_max_right _ _⟩

/-- A hull that adds nothing was already there. -/
theorem hull_eq_left_iff : hull left right = left ↔ right.Within left := by
  cases left
  cases right
  simp only [hull, Within, mk.injEq]
  omega

end LinuxRecordLockRange

/-! ## Overlap and adjacency -/

variable (left right : LinuxRecordLockRange)

def linuxRecordLockRangesOverlap : Bool := left.start < right.stop && right.start < left.stop

def rangesTouchOrOverlap : Bool :=
  linuxRecordLockRangesOverlap left right ||
    left.stop == right.start || right.stop == left.start

/-- Two ranges overlap exactly when some byte lies in both. -/
theorem overlap_iff_common_byte : linuxRecordLockRangesOverlap left right = true ↔
    ∃ byte, left.Contains byte ∧ right.Contains byte := by
  have hleft := left.start_lt_stop
  have hright := right.start_lt_stop
  have leftEnd := left.stop_le_endOfFile
  have rightEnd := right.stop_le_endOfFile
  simp only [linuxRecordLockRangesOverlap, and_eq_true, decide_eq_true_eq,
    LinuxRecordLockRange.Contains]
  constructor
  · intro overlap
    exact ⟨max left.start right.start, by omega⟩
  · rintro ⟨byte, hbyte⟩
    omega

theorem not_overlap_of_contains {left right}
  (disjoint : linuxRecordLockRangesOverlap left right = false) (hleft : left.Contains byte) :
  ¬ right.Contains byte := by
  intro hright
  have overlap := (overlap_iff_common_byte left right).mpr ⟨byte, hleft, hright⟩
  rw [disjoint] at overlap
  cases overlap

theorem overlap_comm :
  linuxRecordLockRangesOverlap left right = linuxRecordLockRangesOverlap right left := by
  simp only [linuxRecordLockRangesOverlap, Bool.and_comm]

theorem touch_comm : rangesTouchOrOverlap left right = rangesTouchOrOverlap right left := by
  simp only [rangesTouchOrOverlap, overlap_comm left right, Bool.or_assoc,
    Bool.or_comm (left.stop == right.start)]

variable {left right}

open LinuxRecordLockRange (hull finite toEof)

/-- The hull of two ranges that touch adds no byte of its own. -/
theorem contains_hull_iff (touch : rangesTouchOrOverlap left right = true) (byte) :
  (left.hull right).Contains byte ↔ left.Contains byte ∨ right.Contains byte := by
  have hleft := left.start_lt_stop
  have hright := right.start_lt_stop
  have leftEnd := left.stop_le_endOfFile
  have rightEnd := right.stop_le_endOfFile
  simp only [rangesTouchOrOverlap, linuxRecordLockRangesOverlap, or_eq_true,
    and_eq_true, decide_eq_true_eq, beq_iff_eq] at touch
  simp only [LinuxRecordLockRange.Contains, hull]
  omega

/-! ## From `struct flock` to a range -/

def i64Max : Int := 2 ^ 63 - 1

def i64Min : Int := -2 ^ 63

/-- `i64::checked_add`. -/
def checkedAddI64 (left right : Int) : Option Int :=
  if i64Min ≤ left + right ∧ left + right ≤ i64Max then some (left + right) else none

/-- `i64::try_from` on an unsigned value. -/
def i64TryFrom (value : Nat) : Option Int :=
  if (value : Int) ≤ i64Max then some value else none

variable {sum anchor : Int}
theorem checkedAddI64_some {left right} (hsum : checkedAddI64 left right = some sum) :
  sum = left + right ∧ sum ≤ i64Max := by
  unfold checkedAddI64 at hsum
  split at hsum
  · cases hsum
    omega
  · cases hsum

/-- A non-negative `i64` offset is below the end-of-file mark. -/
theorem toNat_lt_endOfFile {left right} (hsum : checkedAddI64 left right = some anchor) :
  anchor.toNat < endOfFile := by
  have bound := (checkedAddI64_some hsum).2
  unfold i64Max at bound
  unfold endOfFile
  omega

/-- The base offset that `l_whence` selects. -/
def lockBase (whence : Int) (cursor fileSize : Nat) : Except LinuxRecordLockRangeError Int :=
  if whence = 0 then
    .ok 0
  else if whence = 1 then
    (i64TryFrom cursor).elim (.error .overflow) .ok
  else if whence = 2 then
    (i64TryFrom fileSize).elim (.error .overflow) .ok
  else
    .error .invalid

def normalizeLinuxRecordLockRange (whence lStart lLen : Int) (cursor fileSize : Nat) :
  Except LinuxRecordLockRangeError LinuxRecordLockRange :=
  match lockBase whence cursor fileSize with
  | .error error => .error error
  | .ok base =>
    match hanchor : checkedAddI64 base lStart with
    | none => .error .overflow
    | some anchor =>
      if anchor < 0 then
        .error .invalid
      else if lLen = 0 then
        .ok (.toEof anchor.toNat (toNat_lt_endOfFile hanchor))
      else
        match checkedAddI64 anchor lLen with
        | none => .error .overflow
        | some endpoint =>
          if endpoint < 0 then
            .error .invalid
          else
            let bounds :=
              if 0 < lLen then (anchor.toNat, endpoint.toNat)
              else (endpoint.toNat, anchor.toNat)
            (finite bounds.1 bounds.2).elim (.error .invalid) .ok

/-- The offsets that a request names, up to the largest one for a length of zero. -/
def Requested (base lStart lLen offset : Int) : Prop :=
  if lLen = 0 then base + lStart ≤ offset ∧ offset ≤ i64Max
  else if 0 < lLen then base + lStart ≤ offset ∧ offset < base + lStart + lLen
  else base + lStart + lLen ≤ offset ∧ offset < base + lStart

/-- The checks on the first offset and on the end of a request. -/
def Accepted (anchor lLen : Int) : Prop :=
  0 ≤ anchor ∧ anchor ≤ i64Max ∧ (lLen ≠ 0 → 0 ≤ anchor + lLen ∧ anchor + lLen ≤ i64Max)

variable {whence lStart lLen base first last : Int} {cursor fileSize : Nat}
theorem accepted_iff :
  Accepted (base + lStart) lLen ↔ (∃ offset, Requested base lStart lLen offset) ∧
    ∀ offset, Requested base lStart lLen offset → 0 ≤ offset ∧ (lLen ≠ 0 → offset < i64Max) := by
  unfold Accepted Requested
  constructor
  · rintro ⟨positive, small, fits⟩
    refine ⟨⟨if lLen < 0 then base + lStart + lLen else base + lStart, ?_⟩, fun offset asked => ?_⟩
    · split_ifs <;> omega
    · split_ifs at asked <;> omega
  · rintro ⟨⟨offset, asked⟩, within⟩
    have first := within (if lLen < 0 then base + lStart + lLen else base + lStart)
    have last := within (if lLen < 0 then base + lStart - 1 else base + lStart + lLen - 1)
    split_ifs at asked first last <;> omega

theorem checkedAddI64_none {left right} (hsum : checkedAddI64 left right = none) :
  ¬ (0 ≤ left + right ∧ left + right ≤ i64Max) := by
  unfold checkedAddI64 at hsum
  split at hsum
  · cases hsum
  rename_i outside
  unfold i64Min at outside
  omega

theorem finite_contains (positive : 0 ≤ first) (order : first < last) (small : last ≤ i64Max) :
  ∃ range, finite first.toNat last.toNat = some range ∧
    ∀ byte : Nat, range.Contains byte ↔ first ≤ byte ∧ byte < last := by
  have inside : first.toNat < last.toNat ∧ last.toNat < endOfFile := by
    unfold endOfFile
    unfold i64Max at small
    omega
  refine ⟨_, dif_pos inside, fun byte => ?_⟩
  simp only [LinuxRecordLockRange.Contains]
  omega

/-- A request is accepted with its own offsets or refused. -/
theorem normalize_cases (lStart lLen) (hbase : lockBase whence cursor fileSize = .ok base) :
  (Accepted (base + lStart) lLen ∧
    ∃ range, normalizeLinuxRecordLockRange whence lStart lLen cursor fileSize = .ok range ∧
      ∀ byte : Nat, (byte : Int) ≤ i64Max →
        (range.Contains byte ↔ Requested base lStart lLen byte)) ∨
    ¬ Accepted (base + lStart) lLen ∧
      ∃ error, normalizeLinuxRecordLockRange whence lStart lLen cursor fileSize = .error error := by
  unfold normalizeLinuxRecordLockRange
  rw [hbase]
  dsimp only
  split
  next overflow => exact .inr ⟨fun fits => checkedAddI64_none overflow ⟨fits.1, fits.2.1⟩, _, rfl⟩
  next anchor hanchor =>
    obtain ⟨rfl, small⟩ := checkedAddI64_some hanchor
    split
    · exact .inr ⟨fun fits => by have := fits.1; omega, _, rfl⟩
    rename_i negative
    split
    · rename_i toEnd
      refine .inl ⟨⟨by omega, small, fun some => absurd toEnd some⟩, _, rfl, fun byte below => ?_⟩
      simp only [LinuxRecordLockRange.Contains, toEof, Requested, if_pos toEnd]
      exact ⟨fun held => ⟨by omega, below⟩, fun asked => ⟨by omega, .inr trivial⟩⟩
    rename_i toEnd
    cases hend : checkedAddI64 (base + lStart) lLen with
    | none => exact .inr ⟨fun fits => checkedAddI64_none hend (fits.2.2 toEnd), _, rfl⟩
    | some endpoint =>
      obtain ⟨rfl, fits⟩ := checkedAddI64_some hend
      dsimp only
      split
      · exact .inr ⟨fun fits => by have := (fits.2.2 toEnd).1; omega, _, rfl⟩
      rename_i before
      refine .inl ⟨⟨by omega, small, fun _ => ⟨by omega, fits⟩⟩, ?_⟩
      unfold Requested
      by_cases forward : 0 < lLen
      · obtain ⟨range, finite, contains⟩ := finite_contains (Int.not_lt.mp negative) (by omega) fits
        rw [if_pos forward, finite]
        refine ⟨range, rfl, fun byte _ => ?_⟩
        rw [contains, if_neg toEnd, if_pos forward]
      · obtain ⟨range, finite, contains⟩ := finite_contains (Int.not_lt.mp before) (by omega) small
        rw [if_neg forward, finite]
        refine ⟨range, rfl, fun byte _ => ?_⟩
        rw [contains, if_neg toEnd, if_neg forward]

/--
A request is accepted exactly when it names some offset and none before the file, and, if it
names a last one, that is not the largest; the range then holds the named offsets.
-/
theorem range_denotes_request (whence lStart lLen : Int) (cursor fileSize : Nat) :
  match lockBase whence cursor fileSize with
  | .error error => normalizeLinuxRecordLockRange whence lStart lLen cursor fileSize = .error error
  | .ok base =>
    ((normalizeLinuxRecordLockRange whence lStart lLen cursor fileSize).isOk = true ↔
      (∃ offset, Requested base lStart lLen offset) ∧ ∀ offset, Requested base lStart lLen offset →
          0 ≤ offset ∧ (lLen ≠ 0 → offset < i64Max)) ∧
    ∀ range, normalizeLinuxRecordLockRange whence lStart lLen cursor fileSize = .ok range →
      ∀ byte : Nat, (byte : Int) ≤ i64Max →
        (range.Contains byte ↔ Requested base lStart lLen byte) := by
  split
  next error hbase =>
    unfold normalizeLinuxRecordLockRange
    rw [hbase]
  next base hbase =>
    rw [← accepted_iff]
    rcases normalize_cases lStart lLen hbase with
      ⟨accepted, range, hrange, contains⟩ | ⟨refused, error, herror⟩
    · rw [hrange]
      refine ⟨iff_of_true rfl accepted, ?_⟩
      rintro _ ⟨⟩
      exact contains
    · rw [herror]
      exact ⟨iff_of_false Bool.false_ne_true refused, fun _ impossible => by cases impossible⟩

/-- The byte at the largest offset is within the file, and a request for it alone is refused. -/
theorem largest_offset_refused : Requested 0 i64Max 1 i64Max ∧
    normalizeLinuxRecordLockRange 0 i64Max 1 0 0 = .error .overflow := by
  refine ⟨?_, rfl⟩
  rw [Requested, if_neg (by decide), if_pos (by decide)]
  decide

end Smros.RecordLock
