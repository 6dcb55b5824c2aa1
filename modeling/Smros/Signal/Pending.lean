import Mathlib.Data.List.Sort
import Mathlib.Logic.Function.Basic
import Smros.Lib.Program
import Smros.Lib.SlotSearch

/-!
# Pending signals

A task and a process each have a queue of pending signals.  A standard signal is
pending once, as a bit with one record; realtime signals are queued by the number of
their acceptance.  A record that is being delivered is reserved: it leaves the queue but
keeps its number, so that a delivery that fails can put it back.
-/

namespace Smros.Signal
open Lib

def linuxMaxSignal : Nat := 64
def linuxRealtimeSignalMin : Nat := 32
def linuxSignalInfoBytes : Nat := 128
def linuxRtQueueLimit : Nat := 64

def linuxSignalBit (signum : Nat) : BitVec 64 :=
  if 1 ≤ signum ∧ signum ≤ linuxMaxSignal then 1#64 <<< (signum - 1) else 0#64

structure LinuxPendingSignal where
  signum : Nat
  hasInfo : Bool
  info : Vector UInt8 linuxSignalInfoBytes
  timerPid : Nat
  timerId : UInt32
  deriving DecidableEq

/-- `EMPTY`. -/
def LinuxPendingSignal.empty : LinuxPendingSignal :=
  ⟨0, false, Vector.replicate linuxSignalInfoBytes 0, 0, 0⟩

inductive LinuxPendingSignalReservation where
  | standard (signum : Nat)
  | realtime (sequence : Nat)
  deriving DecidableEq

inductive LinuxSignalRouteError where
  | invalidSignal
  | noSuchTask
  | queueFull
  | invalidReservation
  deriving DecidableEq

/-- A queued realtime record with the number of its acceptance. -/
structure RealtimeEntry where
  sequence : Nat
  record : LinuxPendingSignal
  deriving DecidableEq

/--
`realtimePending` is the used part of the two arrays of records and numbers, and
`realtimeReservations` that of the array of reserved numbers.  The standard records stand
in an array of 32; every access is below that.
-/
@[ext] structure LinuxPendingSignals where
  standardPending : BitVec 64
  standardReserved : BitVec 64
  standardRecords : Nat → LinuxPendingSignal
  realtimePending : List RealtimeEntry
  realtimeReservations : List Nat
  nextRealtimeSequence : Nat

abbrev SignalsM := Program LinuxPendingSignals LinuxSignalRouteError

namespace LinuxPendingSignals
def new : LinuxPendingSignals := ⟨0#64, 0#64, fun _ => .empty, [], [], 1⟩

/-- The used parts of the arrays become empty; the records of the standard signals are zeroed. -/
def resetInPlace (signals : LinuxPendingSignals) : LinuxPendingSignals where
  standardPending := 0
  standardReserved := 0
  standardRecords signum :=
    { signals.standardRecords signum with
      signum := 0, hasInfo := false, info := .replicate _ 0, timerPid := 0, timerId := 0 }
  realtimePending := []
  realtimeReservations := []
  nextRealtimeSequence := 1

theorem resetInPlace_eq_new (signals : LinuxPendingSignals) : signals.resetInPlace = .new := rfl

/-! ## Sequence numbers -/

def allocateRealtimeSequence : SignalsM Nat := do
  let signals ← get
  let sequence := signals.nextRealtimeSequence
  if sequence = 0 then throw .queueFull
  else
    set { signals with
      nextRealtimeSequence := if sequence + 1 < 2 ^ 64 then sequence + 1 else 0 }
    return sequence

def reserveRealtimeSequence (sequence : Nat) : SignalsM Unit := do
  let signals ← get
  if sequence = 0 ∨ linuxRtQueueLimit ≤ signals.realtimeReservations.length ∨
      sequence ∈ signals.realtimeReservations then
    throw .invalidReservation
  else
    set { signals with realtimeReservations := signals.realtimeReservations ++ [sequence] }

def releaseRealtimeSequence (signals : LinuxPendingSignals) (sequence : Nat) :
  Option LinuxPendingSignals :=
  if sequence ∈ signals.realtimeReservations then
    some { signals with realtimeReservations := signals.realtimeReservations.erase sequence }
  else none

/-- Place an entry before the first one with a greater number. -/
def insertBySequence (entry : RealtimeEntry) (entries : List RealtimeEntry) : List RealtimeEntry :=
  entries.orderedInsert (fun entry queued => entry.sequence < queued.sequence) entry

def insertRealtimeBySequence (sequence : Nat) (record : LinuxPendingSignal) : SignalsM Unit := do
  let signals ← get
  if sequence = 0 ∨ linuxRtQueueLimit ≤ signals.realtimePending.length then throw .queueFull
  else
    set { signals with
      realtimePending := insertBySequence ⟨sequence, record⟩ signals.realtimePending }

/-! ## Queueing -/

variable (signals : LinuxPendingSignals)

def hasRoom : Bool :=
  signals.realtimePending.length + signals.realtimeReservations.length < linuxRtQueueLimit

/-- A standard signal that is pending already is not recorded again. -/
def queueStandard (record : LinuxPendingSignal) (signals : LinuxPendingSignals) :
  LinuxPendingSignals :=
  if signals.standardPending &&& linuxSignalBit record.signum = 0#64 then
    { signals with
      standardPending := signals.standardPending ||| linuxSignalBit record.signum
      standardRecords := Function.update signals.standardRecords record.signum record }
  else signals

def queue (record : LinuxPendingSignal) : SignalsM Unit := do
  let signals ← get
  if ¬ (1 ≤ record.signum ∧ record.signum ≤ linuxMaxSignal) then throw .invalidSignal
  else if record.signum < linuxRealtimeSignalMin then set (queueStandard record signals)
  else if !signals.hasRoom then throw .queueFull
  else
    let sequence ← allocateRealtimeSequence
    modify fun signals =>
      { signals with realtimePending := signals.realtimePending ++ [⟨sequence, record⟩] }

/-! ## Taking -/

/-- The signals of a mask.  The loops of the source take the lowest bit each time. -/
def standardSignals (mask : BitVec 64) : List Nat :=
  (List.range' 1 linuxMaxSignal).filter fun signum => mask &&& linuxSignalBit signum != 0#64

variable (eligible : Nat → Bool)

def eligibleStandard : Option Nat :=
  (standardSignals signals.standardPending).find? fun signum =>
    signals.standardReserved &&& linuxSignalBit signum == 0#64 && eligible signum

/-- `lowest_linux_pending_index` on the realtime records, with the entry found. -/
def eligibleRealtime : Option (Nat × RealtimeEntry) :=
  leastEntry (fun entry => entry.record.signum)
    (Option.guard fun entry => eligible entry.record.signum) signals.realtimePending

def peekEligible : Option LinuxPendingSignal :=
  match signals.eligibleStandard eligible with
  | some signum => some (signals.standardRecords signum)
  | none => (signals.eligibleRealtime eligible).map fun found => found.2.record

def clearStandard (signum : Nat) : LinuxPendingSignals :=
  { signals with
    standardPending := signals.standardPending &&& ~~~linuxSignalBit signum
    standardRecords := Function.update signals.standardRecords signum .empty }

def reserveStandard (signum : Nat) : LinuxPendingSignals :=
  { signals with standardReserved := signals.standardReserved ||| linuxSignalBit signum }

def removeRealtime (index : Nat) : LinuxPendingSignals :=
  { signals with realtimePending := signals.realtimePending.eraseIdx index }

def takeEligible : LinuxPendingSignals × Option LinuxPendingSignal :=
  match signals.eligibleStandard eligible with
  | some signum => (signals.clearStandard signum, some (signals.standardRecords signum))
  | none =>
    match signals.eligibleRealtime eligible with
    | none => (signals, none)
    | some (index, entry) => (signals.removeRealtime index, some entry.record)

def takeEligibleReserved :
  LinuxPendingSignals × Option (LinuxPendingSignal × LinuxPendingSignalReservation) :=
  match signals.eligibleStandard eligible with
  | some signum =>
    ((signals.clearStandard signum).reserveStandard signum,
      some (signals.standardRecords signum, .standard signum))
  | none =>
    match signals.eligibleRealtime eligible with
    | none => (signals, none)
    | some (index, entry) =>
      match reserveRealtimeSequence entry.sequence signals with
      | .error _ reserved => (reserved, none)
      | .ok _ reserved =>
        (reserved.removeRealtime index, some (entry.record, .realtime entry.sequence))

/-! ## Reservations -/

/-- A standard signal that is being delivered already is queued instead. -/
def reserveDirect (record : LinuxPendingSignal) :
  SignalsM (Option LinuxPendingSignalReservation) := do
  let signals ← get
  if ¬ (1 ≤ record.signum ∧ record.signum ≤ linuxMaxSignal) then throw .invalidSignal
  else if record.signum < linuxRealtimeSignalMin then
    if signals.standardReserved &&& linuxSignalBit record.signum ≠ 0#64 then
      queue record
      return none
    else
      set (signals.reserveStandard record.signum)
      return some (.standard record.signum)
  else if !signals.hasRoom then throw .queueFull
  else
    let sequence ← allocateRealtimeSequence
    reserveRealtimeSequence sequence
    return some (.realtime sequence)

def commitReservation (reservation : LinuxPendingSignalReservation) : SignalsM Unit := do
  let signals ← get
  match reservation with
  | .standard signum =>
    if ¬ (1 ≤ signum ∧ signum < linuxRealtimeSignalMin) ∨
        signals.standardReserved &&& linuxSignalBit signum = 0#64 then
      throw .invalidReservation
    else
      set { signals with
        standardReserved := signals.standardReserved &&& ~~~linuxSignalBit signum }
  | .realtime sequence =>
    let released ← Program.orThrow .invalidReservation (signals.releaseRealtimeSequence sequence)
    set released

def requeueFront (record : LinuxPendingSignal) : SignalsM Unit := do
  let signals ← get
  if ¬ (1 ≤ record.signum ∧ record.signum ≤ linuxMaxSignal) then throw .invalidSignal
  else if record.signum < linuxRealtimeSignalMin then
    set { signals with
      standardPending := signals.standardPending ||| linuxSignalBit record.signum
      standardRecords := Function.update signals.standardRecords record.signum record }
  else if linuxRtQueueLimit ≤ signals.realtimePending.length then throw .queueFull
  else
    let sequence ← allocateRealtimeSequence
    modify fun signals =>
      { signals with realtimePending := ⟨sequence, record⟩ :: signals.realtimePending }

def rollbackReservation (reservation : LinuxPendingSignalReservation)
  (record : LinuxPendingSignal) : SignalsM Unit :=
  match reservation with
  | .standard signum =>
    if signum = record.signum then do
      commitReservation reservation
      requeueFront record
    else throw .invalidReservation
  | .realtime sequence =>
    if linuxRealtimeSignalMin ≤ record.signum then do
      commitReservation reservation
      insertRealtimeBySequence sequence record
    else throw .invalidReservation

def discard (signals : LinuxPendingSignals) (signum : Nat) : LinuxPendingSignals :=
  { signals with
    standardPending := signals.standardPending &&& ~~~linuxSignalBit signum
    standardRecords :=
      if signum < linuxRealtimeSignalMin then
        Function.update signals.standardRecords signum .empty
      else signals.standardRecords
    realtimePending := signals.realtimePending.filter fun entry => entry.record.signum != signum }

end LinuxPendingSignals
end Smros.Signal
