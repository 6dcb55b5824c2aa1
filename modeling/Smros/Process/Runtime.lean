import Smros.Lib.Runs
import Smros.Process.Table

/-!
# Process calls

What the kernel does with the process table, one call for each time it takes the lock.
The end of the launch root takes the lock twice; other calls may come in between.
-/

namespace Smros.Process
open Lib

def linuxSaNocldwait : Nat := 2
def linuxSigIgn : Nat := 1

/-- What a process has asked for on a signal; only what the end of a child looks at. -/
structure LinuxKernelSigaction where
  handler : Nat
  flags : Nat
  deriving DecidableEq

inductive LinuxProcessExitOutcome where
  | descendant
  | launchRoot
  deriving DecidableEq

/-- The action on `SIGCHLD` of the process in each slot. -/
abbrev SigchldActions : Type := Nat → LinuxKernelSigaction

namespace LinuxProcessTable
variable {limit : Nat} (table : LinuxProcessTable limit)
/-- The process that a task acts for. -/
def current (tgid : Nat) : Option LinuxProcessCore :=
  (table.byPid tgid).filter (·.state == .running)

variable (actions : SigchldActions)
/-- What becomes of a child that ends: its parent has a say if it asked for `SIGCHLD`. -/
def exitPolicy (process : LinuxProcessCore) : Option LinuxSigchldExitPolicy :=
  if process.exitSignal = linuxSigchld then
    (table.find (LinuxProcessCore.isRunning process.parentPid)).map fun (parentSlot, _) =>
      linuxSigchldExitPolicy ((actions parentSlot).handler == linuxSigIgn)
        ((actions parentSlot).flags &&& linuxSaNocldwait != 0)
  else some .retainZombieAndNotify

def finishDescendant (pid : Nat) (waitStatus : WaitStatus) :
  Except SysError (Option LinuxTerminalChildTransition) × LinuxProcessTable limit :=
  match table.current pid with
  | none => (.error .esrch, table)
  | some process =>
    if process.parentPid = linuxLaunchReaperPid then
      match table.exit pid waitStatus with
      | none => (.error .esrch, table)
      | some exited => (.ok none, (exited.reparentChildrenToLaunchReaper pid).2)
    else
      match table.exitPolicy actions process with
      | none => (.error .esrch, table)
      | some policy =>
        match table.terminateChild pid waitStatus policy with
        | (none, terminated) => (.error .esrch, terminated)
        | (some transition, terminated) =>
          (.ok (some transition), (terminated.reparentChildrenToLaunchReaper pid).2)

/-- The first half of the end of the launch root. -/
def finishLaunchRoot (waitStatus : WaitStatus) : Except SysError Unit × LinuxProcessTable limit :=
  match table.exit linuxRootPid waitStatus with
  | none => (.error .esrch, table)
  | some exited => (.ok (), (exited.adoptLaunchDescendants linuxRootPid).2)

/-- The transition is what the parent is told by signal. -/
def finishTerminalProcess (pid : Nat) (waitStatus : WaitStatus) :
  Except SysError (LinuxProcessExitOutcome × Option LinuxTerminalChildTransition) ×
    LinuxProcessTable limit :=
  if pid ≠ linuxRootPid then
    let (result, next) := table.finishDescendant actions pid waitStatus
    (result.map fun transition => (.descendant, transition), next)
  else
    let (result, next) := table.finishLaunchRoot waitStatus
    (result.map fun _ => (.launchRoot, none), next)

def exitCurrentProcess (tgid : Nat) (waitStatus : WaitStatus) :
  Except SysError (LinuxProcessExitOutcome × Option LinuxTerminalChildTransition) ×
    LinuxProcessTable limit :=
  match table.current tgid with
  | none => (.error .esrch, table)
  | some process => table.finishTerminalProcess actions process.pid waitStatus

def terminateBySignal (tgid signum : Nat) :
  Except SysError (LinuxProcessExitOutcome × Option LinuxTerminalChildTransition) ×
    LinuxProcessTable limit :=
  match table.find (LinuxProcessCore.isRunning tgid) with
  | none => (.error .esrch, table)
  | some _ =>
    match linuxWaitStatusSignal signum false with
    | none => (.error .einval, table)
    | some waitStatus => table.finishTerminalProcess actions tgid waitStatus

def completeWaitCurrent (tgid : Nat)
  (selector : LinuxWaitSelector) (pid : Nat) (status : WaitStatus) (includeStopped : Bool)
  (copyStatus : WaitStatus → Except SysError Unit) :
  Except SysError (Option Nat) × LinuxProcessTable limit :=
  match table.current tgid with
  | none => (.error .esrch, table)
  | some parent =>
    match table.completeLinuxWaitWithOptions parent.pid selector pid status includeStopped
        copyStatus with
    | (.ok completed, next) => (.ok completed, next)
    | (.error (.copy error), next) => (.error error, next)
    | (.error .reap, next) => (.error .echild, next)

end LinuxProcessTable

/-- A call that takes the lock, with what its environment answers. -/
inductive ProcessCall where
  | registerRoot (schedulerThread : Nat)
  | reserveChild (parentPid schedulerThread : Nat)
  | reserveChildWithPid (parentPid schedulerThread pid exitSignal : Nat)
  | publishFork (reservation : LinuxProcessReservation)
  | completeForkPublish (reservation : LinuxProcessReservation)
  | rollbackFork (reservation : LinuxProcessReservation)
  | rollback (reservation : LinuxProcessReservation)
  | stopChild (pid signum : Nat)
  | continueChild (pid : Nat)
  | setProcessGroup (pid processGroup : Nat)
  | exitCurrentProcess (tgid : Nat) (waitStatus : WaitStatus) (actions : SigchldActions)
  | terminateBySignal (tgid signum : Nat) (actions : SigchldActions)
  | reapLaunchDescendants
  | completeWaitCurrent (tgid : Nat) (selector : LinuxWaitSelector) (pid : Nat)
      (status : WaitStatus) (includeStopped : Bool) (copyStatus : WaitStatus → Except SysError Unit)
  | reset

namespace LinuxProcessTable
variable {limit : Nat}
/-- The table after a call; a refused call leaves it as the call left it. -/
def next (table : LinuxProcessTable limit) : ProcessCall → LinuxProcessTable limit
  | .registerRoot schedulerThread =>
    match table.registerRoot schedulerThread with
    | .ok (_, next) => next
    | .error _ => table
  | .reserveChild parentPid schedulerThread => (table.reserveChild parentPid schedulerThread).2
  | .reserveChildWithPid parentPid schedulerThread pid exitSignal =>
    match table.reserveChildWithPid parentPid schedulerThread pid exitSignal with
    | .ok (_, next) => next
    | .error _ => table
  | .publishFork reservation => (table.publishFork reservation).getD table
  | .completeForkPublish reservation => (table.completeForkPublish reservation).getD table
  | .rollbackFork reservation => (table.rollbackFork reservation).getD table
  | .rollback reservation => (table.rollback reservation).getD table
  | .stopChild pid signum => ((table.stopChild pid signum).map Prod.snd).getD table
  | .continueChild pid => ((table.continueChild pid).map Prod.snd).getD table
  | .setProcessGroup pid processGroup =>
    match table.setProcessGroup pid processGroup with
    | .ok next => next
    | .error _ => table
  | .exitCurrentProcess tgid waitStatus actions =>
    (table.exitCurrentProcess actions tgid waitStatus).2
  | .terminateBySignal tgid signum actions => (table.terminateBySignal actions tgid signum).2
  | .reapLaunchDescendants => table.reapLaunchDescendants.2
  | .completeWaitCurrent tgid selector pid status includeStopped copyStatus =>
    (table.completeWaitCurrent tgid selector pid status includeStopped copyStatus).2
  | .reset => table.reset

end LinuxProcessTable
end Smros.Process
