import Smros.Lib.SlotSearch
import Smros.SysError

/-!
# The process table

One fixed array of processes.  A child is reserved under its parent, published in two
steps, runs, and becomes a zombie until its parent collects it; a process whose parent
is gone belongs to the launch reaper.  Every function here runs under one lock.
-/

namespace Smros.Process
open Lib

def linuxRootPid : Nat := 1
def linuxLaunchReaperPid : Nat := 2 ^ 64 - 1
def linuxMaxPid : Nat := 2 ^ 31 - 1
def linuxSigchld : Nat := 17

/-- A wait status, as the bits of the source's integer. -/
abbrev WaitStatus : Type := BitVec 32

/-- An empty slot of the table has no process at all. -/
inductive LinuxProcessState where
  | reserved
  | publishing
  | running
  | zombie
  deriving DecidableEq

structure LinuxProcessCore where
  pid : Nat
  parentPid : Nat
  processGroup : Nat
  rootSchedulerThread : Nat
  state : LinuxProcessState
  waitStatus : WaitStatus
  exitSignal : Nat
  deriving DecidableEq

structure LinuxProcessReservation where
  slot : Nat
  pid : Nat
  parentPid : Nat
  deriving DecidableEq

inductive LinuxWaitSelector where
  | pid (pid : Nat)
  | any
  | processGroup (processGroup : Nat)
  deriving DecidableEq

inductive LinuxWaitOutcome where
  | ready (pid : Nat) (status : WaitStatus)
  | wouldBlock
  | noChildren
  deriving DecidableEq

inductive LinuxSigchldExitPolicy where
  | retainZombieAndNotify
  | reapAndNotify
  | reapWithoutNotify
  deriving DecidableEq

namespace LinuxSigchldExitPolicy
def reapImmediately : LinuxSigchldExitPolicy → Bool
  | .retainZombieAndNotify => false
  | .reapAndNotify | .reapWithoutNotify => true

def notifyParent : LinuxSigchldExitPolicy → Bool
  | .retainZombieAndNotify | .reapAndNotify => true
  | .reapWithoutNotify => false

end LinuxSigchldExitPolicy

structure LinuxTerminalChildTransition where
  parentPid : Nat
  notificationSignal : Option Nat
  deriving DecidableEq

structure LinuxChildStateTransition where
  parentPid : Nat
  childPid : Nat
  status : WaitStatus
  deriving DecidableEq

inductive LinuxProcessError where
  | capacity
  | duplicateRoot
  | exhausted
  | noSuchParent
  deriving DecidableEq

inductive LinuxWaitCompletionError (E : Type) where
  | copy (error : E)
  | reap
  deriving DecidableEq

def linuxChildExitNotification (exitSignal : Nat) : Option Nat :=
  if exitSignal = 0 then none else some exitSignal

def linuxWaitStatusSignal (signum : Nat) (coreDumped : Bool) : Option WaitStatus :=
  if 1 ≤ signum ∧ signum ≤ 127 then
    some (BitVec.ofNat 32 signum ||| if coreDumped then 0x80#32 else 0#32)
  else none

def linuxWaitStatusStopped (signum : Nat) : Option WaitStatus :=
  if 1 ≤ signum ∧ signum ≤ 127 then some ((BitVec.ofNat 32 signum <<< 8) ||| 0x7f#32) else none

def linuxWaitStatusIsStopped (status : WaitStatus) : Bool := status &&& 0xff#32 == 0x7f#32

def linuxSigchldExitPolicy (sigchldIgnored noChildWait : Bool) : LinuxSigchldExitPolicy :=
  if sigchldIgnored then .reapWithoutNotify
  else if noChildWait then .reapAndNotify
  else .retainZombieAndNotify

namespace LinuxProcessCore
/-- Published, whether it still runs or not. -/
def isVisible (process : LinuxProcessCore) : Bool :=
  process.state == .running || process.state == .zombie

def isRunning (pid : Nat) (process : LinuxProcessCore) : Bool :=
  process.pid == pid && process.state == .running

def selectorMatches (process : LinuxProcessCore) : LinuxWaitSelector → Bool
  | .pid pid => process.pid == pid
  | .any => true
  | .processGroup processGroup => process.processGroup == processGroup

/-- A child that a wait of its parent can report. -/
def isWaitable (parentPid : Nat) (selector : LinuxWaitSelector) (includeStopped : Bool)
  (process : LinuxProcessCore) : Bool :=
  process.parentPid == parentPid && process.selectorMatches selector && (process.state == .zombie ||
      includeStopped && process.state == .running && linuxWaitStatusIsStopped process.waitStatus)

def exited (process : LinuxProcessCore) (waitStatus : WaitStatus) : LinuxProcessCore :=
  { process with state := .zombie, waitStatus := waitStatus }

/-- The process under the launch reaper, if it passes the test. -/
def reparentedIf (test : LinuxProcessCore → Bool) (process : LinuxProcessCore) : LinuxProcessCore :=
  if test process then { process with parentPid := linuxLaunchReaperPid } else process

def isVisibleChild (parentPid : Nat) (process : LinuxProcessCore) : Bool :=
  process.isVisible && process.parentPid == parentPid

def isDescendant (rootPid : Nat) (process : LinuxProcessCore) : Bool :=
  process.isVisible && process.pid != rootPid

end LinuxProcessCore

structure LinuxProcessTable (limit : Nat) where
  processes : List (Option LinuxProcessCore)
  nextPid : Nat
  exhausted : Bool
  launchReaperActive : Bool
  sized : processes.length = limit

namespace LinuxProcessTable
open LinuxProcessCore (isRunning isVisibleChild isDescendant reparentedIf)
variable {limit : Nat}

def withNextPid (limit nextPid : Nat) : LinuxProcessTable limit where
  processes := List.replicate limit none
  nextPid := nextPid
  exhausted := false
  launchReaperActive := false
  sized := List.length_replicate

def new (limit : Nat) : LinuxProcessTable limit := withNextPid limit (linuxRootPid + 1)

variable (table : LinuxProcessTable limit)
/-- The processes in the table, in the order of their slots. -/
def used : List LinuxProcessCore := table.processes.reduceOption

def write (table : LinuxProcessTable limit) (slot : Nat) (content : Option LinuxProcessCore) :
  LinuxProcessTable limit :=
  { table with
    processes := table.processes.set slot content
    sized := by rw [List.length_set, table.sized] }

/-- The first process that passes the test, with its slot. -/
def find (test : LinuxProcessCore → Bool) : Option (Nat × LinuxProcessCore) :=
  firstEntry test table.processes

def emptySlot : Option Nat := table.processes.findIdx? Option.isNone

/-- Change every process. -/
def mapProcesses (table : LinuxProcessTable limit)
  (change : LinuxProcessCore → LinuxProcessCore) : LinuxProcessTable limit :=
  { table with
    processes := table.processes.map (Option.map change)
    sized := by rw [List.length_map, table.sized] }

/-- Empty the slots of the processes that fail the test. -/
def keepProcesses (table : LinuxProcessTable limit) (test : LinuxProcessCore → Bool) :
  LinuxProcessTable limit :=
  { table with
    processes := table.processes.map fun slot => slot.filter test
    sized := by rw [List.length_map, table.sized] }

/-! ## Births -/

def registerRoot (schedulerThread : Nat) :
  Except LinuxProcessError (Nat × LinuxProcessTable limit) :=
  if table.launchReaperActive || table.used.any (·.pid == linuxRootPid) then .error .duplicateRoot
  else
    match table.emptySlot with
    | none => .error .capacity
    | some slot =>
      let root : LinuxProcessCore :=
        { pid := linuxRootPid
          parentPid := 0
          processGroup := linuxRootPid
          rootSchedulerThread := schedulerThread
          state := .running
          waitStatus := 0
          exitSignal := 0 }
      .ok (linuxRootPid, { table.write slot (some root) with launchReaperActive := true })

def reserveChildWithPid (parentPid schedulerThread pid exitSignal : Nat) :
  Except LinuxProcessError (LinuxProcessReservation × LinuxProcessTable limit) :=
  match table.find (isRunning parentPid) with
  | none => .error .noSuchParent
  | some (_, parent) =>
    match table.emptySlot with
    | none => .error .capacity
    | some slot =>
      if pid < linuxRootPid + 1 ∨ linuxMaxPid < pid ∨ table.used.any (·.pid == pid) then
        .error .exhausted
      else
        let child : LinuxProcessCore :=
          { pid := pid
            parentPid := parentPid
            processGroup := parent.processGroup
            rootSchedulerThread := schedulerThread
            state := .reserved
            waitStatus := 0
            exitSignal := exitSignal }
        .ok (⟨slot, pid, parentPid⟩, { table.write slot (some child) with
            nextPid :=
              if pid ≠ linuxMaxPid ∧ table.nextPid ≤ pid then pid + 1 else table.nextPid
            exhausted := table.exhausted || pid == linuxMaxPid })

def reserveChild (table : LinuxProcessTable limit) (parentPid schedulerThread : Nat) :
  Except LinuxProcessError LinuxProcessReservation × LinuxProcessTable limit :=
  if table.exhausted ∨ table.nextPid < linuxRootPid + 1 ∨ linuxMaxPid < table.nextPid then
    (.error .exhausted, { table with exhausted := true })
  else
    match table.reserveChildWithPid parentPid schedulerThread table.nextPid 0 with
    | .error error => (.error error, table)
    | .ok (reservation, next) => (.ok reservation, next)

/-- The process of a reservation, if it is in one of the states. -/
def reserved (states : List LinuxProcessState)
  (reservation : LinuxProcessReservation) : Option LinuxProcessCore :=
  (table.processes[reservation.slot]?).join.filter fun process =>
    process.state ∈ states && process.pid == reservation.pid &&
      process.parentPid == reservation.parentPid

variable (reservation : LinuxProcessReservation)

def publishFork : Option (LinuxProcessTable limit) :=
  (table.reserved [.reserved] reservation).map fun process =>
    table.write reservation.slot (some { process with state := .publishing })

def completeForkPublish : Option (LinuxProcessTable limit) :=
  (table.reserved [.publishing] reservation).map fun process =>
    table.write reservation.slot (some { process with state := .running })

def rollbackFork : Option (LinuxProcessTable limit) :=
  (table.reserved [.reserved, .publishing] reservation).map fun _ =>
    table.write reservation.slot none

def rollback : Option (LinuxProcessTable limit) :=
  (table.reserved [.reserved] reservation).map fun _ => table.write reservation.slot none

/-! ## Changes of state -/

def byPid (pid : Nat) : Option LinuxProcessCore :=
  table.used.find? fun process => process.isVisible && process.pid == pid

def exit (pid : Nat) (waitStatus : WaitStatus) : Option (LinuxProcessTable limit) :=
  (table.find (isRunning pid)).map fun (slot, process) =>
    table.write slot (some (process.exited waitStatus))

def stopChild (pid signum : Nat) :
  Option (LinuxChildStateTransition × LinuxProcessTable limit) := do
  let status ← linuxWaitStatusStopped signum
  let (slot, process) ← table.find (isRunning pid)
  return (⟨process.parentPid, process.pid, status⟩,
    table.write slot (some { process with waitStatus := status }))

def continueChild (pid : Nat) : Option (LinuxChildStateTransition × LinuxProcessTable limit) := do
  let (slot, process) ← table.find (isRunning pid)
  if linuxWaitStatusIsStopped process.waitStatus then
    return (⟨process.parentPid, process.pid, 0⟩,
      table.write slot (some { process with waitStatus := 0 }))
  else none

def setProcessGroup (pid processGroup : Nat) : Except SysError (LinuxProcessTable limit) :=
  if processGroup = 0 then .error .einval
  else
    match table.find (isRunning pid) with
    | none => .error .esrch
    | some (slot, process) =>
      .ok (table.write slot (some { process with processGroup := processGroup }))

def reap (parentPid pid : Nat) : Option (LinuxProcessCore × LinuxProcessTable limit) :=
  (table.find fun process =>
    process.state == .zombie && process.parentPid == parentPid && process.pid == pid).map
    fun (slot, process) => (process, table.write slot none)

/-- A process whose exit signal is not `SIGCHLD` is kept whatever the policy. -/
def terminateChild (pid : Nat) (waitStatus : WaitStatus) (policy : LinuxSigchldExitPolicy) :
  Option LinuxTerminalChildTransition × LinuxProcessTable limit :=
  match table.find (isRunning pid), table.exit pid waitStatus with
  | some (_, process), some exited =>
    let policy := if process.exitSignal = linuxSigchld then policy else .retainZombieAndNotify
    let transition : LinuxTerminalChildTransition :=
      { parentPid := process.parentPid
        notificationSignal :=
          if policy.notifyParent then linuxChildExitNotification process.exitSignal else none }
    if policy.reapImmediately then
      match exited.reap process.parentPid pid with
      | none => (none, exited)
      | some (_, reaped) => (some transition, reaped)
    else (some transition, exited)
  | _, _ => (none, table)

/-! ## Waiting -/

variable (parentPid : Nat) (selector : LinuxWaitSelector)

def selectWaitableWithOptions (includeStopped : Bool) : Option LinuxProcessCore :=
  (table.used.filter (LinuxProcessCore.isWaitable parentPid selector includeStopped)).argmin
    LinuxProcessCore.pid

def hasMatchingChild : Bool :=
  table.used.any fun process =>
    process.isVisible && process.parentPid == parentPid && process.selectorMatches selector

def waitOutcomeWithOptions (includeStopped : Bool) : LinuxWaitOutcome :=
  match table.selectWaitableWithOptions parentPid selector includeStopped with
  | some process => .ready process.pid process.waitStatus
  | none => if table.hasMatchingChild parentPid selector then .wouldBlock else .noChildren

def completeChildStateReport (parentPid pid : Nat)
  (status : WaitStatus) : Option (LinuxProcessTable limit) :=
  (table.find fun process =>
    process.pid == pid && process.parentPid == parentPid && process.state == .running &&
      process.waitStatus == status && linuxWaitStatusIsStopped status).map
    fun (slot, process) => table.write slot (some { process with waitStatus := 0 })

/-- Look again at what was selected, copy the status, and only then take the report. -/
def completeLinuxWaitWithOptions {E : Type} (table : LinuxProcessTable limit) (parentPid : Nat)
  (selector : LinuxWaitSelector) (pid : Nat) (status : WaitStatus) (includeStopped : Bool)
  (copyStatus : WaitStatus → Except E Unit) :
  Except (LinuxWaitCompletionError E) (Option Nat) × LinuxProcessTable limit :=
  if table.waitOutcomeWithOptions parentPid selector includeStopped ≠ .ready pid status then
    (.ok none, table)
  else
    match copyStatus status with
    | .error error => (.error (.copy error), table)
    | .ok () =>
      if (table.byPid pid).any (·.state == .zombie) then
        match table.reap parentPid pid with
        | none => (.error .reap, table)
        | some (_, reaped) => (.ok (some pid), reaped)
      else
        match table.completeChildStateReport parentPid pid status with
        | none => (.error .reap, table)
        | some reported => (.ok (some pid), reported)

/-! ## The launch reaper -/

def reparentChildrenToLaunchReaper (parentPid : Nat) : Nat × LinuxProcessTable limit :=
  if table.launchReaperActive then
    (table.used.countP (isVisibleChild parentPid),
      table.mapProcesses (reparentedIf (isVisibleChild parentPid)))
  else (0, table)

def adoptLaunchDescendants (rootPid : Nat) : Nat × LinuxProcessTable limit :=
  if table.launchReaperActive then
    (table.used.countP (isDescendant rootPid),
      table.mapProcesses (reparentedIf (isDescendant rootPid)))
  else (0, table)

def reapLaunchDescendants : Nat × LinuxProcessTable limit :=
  if table.launchReaperActive then
    (table.used.countP (isVisibleChild linuxLaunchReaperPid),
      table.keepProcesses fun process => !isVisibleChild linuxLaunchReaperPid process)
  else (0, table)

/-- The process numbers go on from where they were. -/
def reset (table : LinuxProcessTable limit) : LinuxProcessTable limit :=
  { table with
    processes := List.replicate limit none
    launchReaperActive := false
    sized := List.length_replicate }

end LinuxProcessTable
end Smros.Process
