import Smros.Lib.ExchangeSort
import Smros.Lib.Slots
import Smros.RecordLock.Range

/-!
# The record-lock table

The table is a fixed array of optional locks.  `set` and `unlock` never change
it in place: they push the surviving pieces into an empty candidate, sort and
coalesce the candidate, and store it only when every push found a free slot.
-/

namespace Smros.RecordLock
open Lib

inductive LinuxRecordLockKind where
  | read
  | write
  deriving DecidableEq

def linuxRecordLockTypesConflict (leftIsWrite rightIsWrite : Bool) : Bool :=
  leftIsWrite || rightIsWrite

structure LinuxRecordLock where
  fileId : Nat
  owner : Nat
  kind : LinuxRecordLockKind
  range : LinuxRecordLockRange
  deriving DecidableEq

inductive LinuxRecordLockTableError where
  | capacity
  deriving DecidableEq

structure LinuxRecordLockTable (capacity : Nat) where
  records : List (Option LinuxRecordLock)
  records_length : records.length = capacity

/-! ## Order of the stored records -/

def kindRank : LinuxRecordLockKind → Nat
  | .read => 0
  | .write => 1

/-- The tuple comparison of the source, component by component. -/
def recordLess (left right : LinuxRecordLock) : Bool :=
  left.fileId < right.fileId || (left.fileId == right.fileId &&
    (left.owner < right.owner || (left.owner == right.owner &&
      (left.range.start < right.range.start || (left.range.start == right.range.start &&
        (left.range.stop < right.range.stop || (left.range.stop == right.range.stop &&
          kindRank left.kind < kindRank right.kind)))))))

/-- The `should_swap` test of the sorting loop. -/
def shouldSwap : Option LinuxRecordLock → Option LinuxRecordLock → Bool
  | none, some _ => true
  | some left, some right => recordLess right left
  | _, none => false

/-! ## Coalescing -/

/-- The records `previous` absorbs have the same file, owner and kind. -/
def sameHolder (left right : LinuxRecordLock) : Bool :=
  left.fileId == right.fileId && left.owner == right.owner && left.kind == right.kind

/-- `previous.range.end = max(previous.range.end, record.range.end)`. -/
def extendEnd (previous record : LinuxRecordLock) : LinuxRecordLock :=
  { previous with
    range :=
      { start := previous.range.start
        stop := max previous.range.stop record.range.stop
        start_lt_stop := Nat.lt_of_lt_of_le previous.range.start_lt_stop (Nat.le_max_left _ _)
        stop_le_endOfFile :=
          Nat.max_le.mpr ⟨previous.range.stop_le_endOfFile, record.range.stop_le_endOfFile⟩ } }

/-- The coalescing loop, carrying the last stored record. -/
def coalesceInto : LinuxRecordLock → List LinuxRecordLock → List LinuxRecordLock
  | previous, [] => [previous]
  | previous, record :: rest =>
    if sameHolder previous record && rangesTouchOrOverlap previous.range record.range then
      coalesceInto (extendEnd previous record) rest
    else
      previous :: coalesceInto record rest

def coalesce : List LinuxRecordLock → List LinuxRecordLock
  | [] => []
  | record :: rest => coalesceInto record rest

theorem coalesceInto_length_le (previous rest) :
  (coalesceInto previous rest).length ≤ rest.length + 1 := by
  induction rest generalizing previous with
  | nil => simp [coalesceInto]
  | cons rec rest ih =>
    unfold coalesceInto
    split
    · exact Nat.le_succ_of_le (ih _)
    · exact Nat.succ_le_succ (ih _)

theorem coalesce_length_le (recs) : (coalesce recs).length ≤ recs.length := by
  cases recs with
  | nil => exact Nat.le_refl _
  | cons rec rest => exact coalesceInto_length_le rec rest

namespace LinuxRecordLockTable
variable {capacity : Nat}

def new (capacity : Nat) : LinuxRecordLockTable capacity :=
  ⟨List.replicate capacity none, List.length_replicate⟩

variable (table : LinuxRecordLockTable capacity)
/-- `self.records.iter().flatten()`. -/
def contents : List LinuxRecordLock := table.records.reduceOption

theorem contents_length_le : table.contents.length ≤ capacity := by
  have hle := List.reduceOption_length_le table.records
  rwa [table.records_length] at hle

/-- The table whose occupied slots are `entries`, in front. -/
def ofEntries (entries : List LinuxRecordLock) (hfits : entries.length ≤ capacity) :
  LinuxRecordLockTable capacity :=
  ⟨packed capacity entries, length_packed hfits⟩

variable (fileId owner : Nat)

def firstConflict
  (kind : LinuxRecordLockKind) (range : LinuxRecordLockRange) : Option LinuxRecordLock :=
  table.contents.find? fun record =>
    record.fileId == fileId && record.owner != owner &&
      linuxRecordLockRangesOverlap record.range range &&
      linuxRecordLockTypesConflict (record.kind == .write) (kind == .write)

variable (record : LinuxRecordLock)

def push : Except LinuxRecordLockTableError (LinuxRecordLockTable capacity) :=
  match hfill : fillFirst record table.records with
  | none => .error .capacity
  | some filled => .ok ⟨filled, (fillFirst_length hfill).trans table.records_length⟩

variable (removed : LinuxRecordLockRange)
/-- The part of `record` before `removed`, where the source's `expect` holds. -/
def leftPiece (hleft : record.range.start < removed.start) : LinuxRecordLock :=
  { record with
    range :=
      ⟨record.range.start, removed.start, hleft,
        Nat.le_trans (Nat.le_of_lt removed.start_lt_stop) removed.stop_le_endOfFile⟩ }

def pushLeftPiece : Except LinuxRecordLockTableError (LinuxRecordLockTable capacity) :=
  if hleft : record.range.start < removed.start then
    table.push (leftPiece record removed hleft)
  else
    .ok table

/-- The part of `record` after `removed`, up to the end of file when `record` is. -/
def rightPiece (hright : removed.stop < record.range.stop) : LinuxRecordLock :=
  let range : LinuxRecordLockRange :=
    if record.range.stop = endOfFile then
      .toEof removed.stop (Nat.lt_of_lt_of_le hright record.range.stop_le_endOfFile)
    else
      ⟨removed.stop, record.range.stop, hright, record.range.stop_le_endOfFile⟩
  { record with range := range }

def pushRightPiece : Except LinuxRecordLockTableError (LinuxRecordLockTable capacity) :=
  if hright : removed.stop < record.range.stop then
    table.push (rightPiece record removed hright)
  else
    .ok table

def retain (keep : LinuxRecordLock → Bool) : LinuxRecordLockTable capacity :=
  ofEntries (table.contents.filter keep)
    (Nat.le_trans (List.length_filter_le _ _) table.contents_length_le)

def sortAndCoalesce : LinuxRecordLockTable capacity :=
  let sorted := exchangeSort shouldSwap capacity table.records
  ofEntries (coalesce sorted.reduceOption) (calc
      (coalesce sorted.reduceOption).length ≤ sorted.reduceOption.length := coalesce_length_le _
      _ ≤ sorted.length := List.reduceOption_length_le _
      _ = capacity := (exchangeSort_perm _ _ _).length_eq.trans table.records_length)

/-! ## `set` -/

/-- A record of the same file, owner and kind that meets the new range. -/
def absorbs (kind : LinuxRecordLockKind)
  (replacement : LinuxRecordLockRange) (record : LinuxRecordLock) : Bool :=
  record.fileId == fileId && record.owner == owner && record.kind == kind &&
    rangesTouchOrOverlap record.range replacement

/-- One round of the widening loop over the table. -/
def widenOnce (kind : LinuxRecordLockKind)
  (records : List LinuxRecordLock) (replacement : LinuxRecordLockRange) : LinuxRecordLockRange :=
  records.foldl (fun replacement record =>
      if absorbs fileId owner kind replacement record then replacement.hull record.range
      else replacement)
    replacement

/-- The widening loop: repeat until a round changes nothing. -/
def widen (fileId owner : Nat) (kind : LinuxRecordLockKind)
  (records : List LinuxRecordLock) : Nat → LinuxRecordLockRange → LinuxRecordLockRange
  | 0, replacement => replacement
  | rounds + 1, before =>
    let replacement := widenOnce fileId owner kind records before
    if replacement = before then before
    else widen fileId owner kind records rounds replacement

variable (kind : LinuxRecordLockKind)
/-- The range `set` stores.  Each round but the last absorbs a further record,
so one round more than there are records reaches the fixed point. -/
def replacementRange (records : List LinuxRecordLock) (range : LinuxRecordLockRange) :
  LinuxRecordLockRange :=
  widen fileId owner kind records (records.length + 1) range

/-- What `set` keeps of one old record. -/
def setRecord (replacement : LinuxRecordLockRange) (candidate : LinuxRecordLockTable capacity)
  (record : LinuxRecordLock) : Except LinuxRecordLockTableError (LinuxRecordLockTable capacity) :=
  if record.fileId != fileId || record.owner != owner then
    candidate.push record
  else if record.kind == kind && rangesTouchOrOverlap record.range replacement then
    .ok candidate
  else if !linuxRecordLockRangesOverlap record.range replacement then
    candidate.push record
  else do
    let candidate ← candidate.pushLeftPiece record replacement
    candidate.pushRightPiece record replacement

def set (range : LinuxRecordLockRange) :
  Except LinuxRecordLockTableError (LinuxRecordLockTable capacity) := do
  let replacement := replacementRange fileId owner kind table.contents range
  let candidate ← table.contents.foldlM (setRecord fileId owner kind replacement) (new capacity)
  let candidate ← candidate.push ⟨fileId, owner, kind, replacement⟩
  return candidate.sortAndCoalesce

/-! ## `unlock` and the releases -/

variable (range : LinuxRecordLockRange)

def unlockRecord (candidate : LinuxRecordLockTable capacity) (record : LinuxRecordLock) :
  Except LinuxRecordLockTableError (LinuxRecordLockTable capacity) :=
  if record.fileId != fileId || record.owner != owner ||
      !linuxRecordLockRangesOverlap record.range range then
    candidate.push record
  else do
    let candidate ← candidate.pushLeftPiece record range
    candidate.pushRightPiece record range

def unlock : Except LinuxRecordLockTableError (LinuxRecordLockTable capacity) := do
  let candidate ← table.contents.foldlM (unlockRecord fileId owner range) (new capacity)
  return candidate.sortAndCoalesce

def releaseOwnerFile (owner fileId : Nat) : LinuxRecordLockTable capacity :=
  table.retain fun record => record.owner != owner || record.fileId != fileId

def releaseOwner (owner : Nat) : LinuxRecordLockTable capacity :=
  table.retain fun record => record.owner != owner

end LinuxRecordLockTable
end Smros.RecordLock
