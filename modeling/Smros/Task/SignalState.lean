import Smros.Signal.Pending

/-!
# The signal state of a task

Beside its pending signals a task has a mask, an alternate stack, the frames of the
handlers it is running, at most one wait for signals and at most one system call to
restart.  A frame keeps what the return from its handler has to restore.
-/

namespace Smros.Task
open Lib Signal

def linuxSsDisable : BitVec 64 := 2

/-- The saved general registers of an exception frame. -/
abbrev Registers : Type := Vector (BitVec 64) 32

/-- The process and number of the timer that a signal record belongs to. -/
abbrev TimerIdentity : Type := Nat × UInt32

inductive LinuxPendingSignalSource where
  | task
  | process
  deriving DecidableEq

/-! ## Waits for signals -/

inductive LinuxSignalWaitOutcome where
  | waiting
  | signal
  | timedOut
  | interrupted
  deriving DecidableEq

structure LinuxSignalWait where
  waitMask : BitVec 64
  deadline : Option Nat
  outputAddress : Nat
  previousMask : Option (BitVec 64)
  outcome : LinuxSignalWaitOutcome
  signal : LinuxPendingSignal
  signalSource : Option LinuxPendingSignalSource
  signalReservation : Option LinuxPendingSignalReservation
  deriving DecidableEq

namespace LinuxSignalWait
def accepts (wait : LinuxSignalWait) (signum : Nat) : Bool :=
  wait.outcome == .waiting && wait.waitMask &&& linuxSignalBit signum != 0#64

end LinuxSignalWait

/-! ## Restarts, stacks and frames -/

inductive LinuxRestartTimeout where
  | unset
  | infinite
  | deadline (ticks : Nat) (realtime : Bool)
  deriving DecidableEq

structure LinuxRestartBlock where
  syscallNumber : BitVec 64
  arguments : Vector (BitVec 64) 6
  svcAddress : BitVec 64
  timeout : LinuxRestartTimeout
  deriving DecidableEq

/-- The record's padding is left out. -/
structure LinuxSignalStack where
  sp : BitVec 64
  flags : BitVec 32
  size : BitVec 64
  deriving DecidableEq

/-- `DISABLED`. -/
def LinuxSignalStack.disabled : LinuxSignalStack := ⟨0, linuxSsDisable.setWidth 32, 0⟩

structure LinuxSignalFrame where
  regs : Registers
  returnPc : BitVec 64
  previousMask : BitVec 64
  userSp : BitVec 64
  previousStackFlags : BitVec 64
  restart : Option LinuxRestartBlock
  deriving DecidableEq

/-- A frame with the timer whose notification its handler consumes. -/
structure SavedFrame where
  frame : LinuxSignalFrame
  timerNotification : Option TimerIdentity
  deriving DecidableEq

/--
`frames` is the used part of the arrays of frames and timer notifications, the innermost
handler last; its length is the depth.  Above it the source keeps empty entries.
-/
structure LinuxTaskSignalState where
  mask : BitVec 64
  pending : LinuxPendingSignals
  altStack : LinuxSignalStack
  frames : List SavedFrame
  sigreturnRequested : Bool
  signalWait : Option LinuxSignalWait
  restartBlock : Option LinuxRestartBlock
  suspendRestoreMask : Option (BitVec 64)

namespace LinuxTaskSignalState
def new : LinuxTaskSignalState where
  mask := 0
  pending := .new
  altStack := .disabled
  frames := []
  sigreturnRequested := false
  signalWait := none
  restartBlock := none
  suspendRestoreMask := none

variable (state : LinuxTaskSignalState)

def resetInPlace : LinuxTaskSignalState where
  mask := 0
  pending := state.pending.resetInPlace
  altStack := { state.altStack with sp := 0, flags := linuxSsDisable.setWidth 32, size := 0 }
  frames := []
  sigreturnRequested := false
  signalWait := none
  restartBlock := none
  suspendRestoreMask := none

theorem resetInPlace_eq_new : state.resetInPlace = .new := by
  rw [resetInPlace, LinuxPendingSignals.resetInPlace_eq_new]
  rfl

/-- The mask lets the signal through. -/
def unblocked (signum : Nat) : Bool := state.mask &&& linuxSignalBit signum == 0#64

/-! ## Waiting -/

def signalWaitAccepts (signum : Nat) : Bool := state.signalWait.any (·.accepts signum)

def completeSignalWait (state : LinuxTaskSignalState) (record : LinuxPendingSignal)
  (source : LinuxPendingSignalSource) (reservation : LinuxPendingSignalReservation) :
  Option LinuxTaskSignalState := do
  let wait ← state.signalWait
  if wait.previousMask.isSome ∨ ¬ wait.accepts record.signum then none
  else
    return { state with
      signalWait := some { wait with
        signal := record
        signalSource := some source
        signalReservation := some reservation
        outcome := .signal } }

def timedWaitInterruptedBy (signum : Nat) : Bool :=
  state.signalWait.any fun wait =>
    wait.previousMask.isNone && wait.outcome == .waiting && !wait.accepts signum &&
      state.unblocked signum

def interruptTimedSignalWait (signum : Nat) : Option LinuxTaskSignalState :=
  if state.timedWaitInterruptedBy signum then
    state.signalWait.map fun wait =>
      { state with signalWait := some { wait with outcome := .interrupted } }
  else none

def interruptSignalSuspend (signum : Nat) : Option LinuxTaskSignalState := do
  let wait ← state.signalWait
  if wait.previousMask.isNone ∨ ¬ wait.accepts signum then none
  else return { state with signalWait := some { wait with outcome := .interrupted } }

def expireSignalWait (now : Nat) : Option LinuxTaskSignalState := do
  let wait ← state.signalWait
  if wait.previousMask.isSome ∨ wait.outcome ≠ .waiting ∨ ¬ wait.deadline.any (· ≤ now) then none
  else return { state with signalWait := some { wait with outcome := .timedOut } }

/-! ## Routing -/

/-- An operation on the pending signals; a failed one keeps what it wrote. -/
def onPending {Value : Type} (operation : SignalsM Value) :
  Program LinuxTaskSignalState LinuxSignalRouteError Value :=
  Program.zoom pending (fun state signals => { state with pending := signals }) operation

/-- Queue a record, and wake the wait that `interrupt` ends. -/
def queueAndInterrupt (record : LinuxPendingSignal)
  (interrupt : LinuxTaskSignalState → Nat → Option LinuxTaskSignalState) :
  Program LinuxTaskSignalState LinuxSignalRouteError Bool := do
  onPending (LinuxPendingSignals.queue record)
  let state ← get
  match interrupt state record.signum with
  | none => return false
  | some interrupted =>
    set interrupted
    return true

end LinuxTaskSignalState
end Smros.Task
