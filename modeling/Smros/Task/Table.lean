import Smros.Lib.Runs
import Smros.Lib.Sweep
import Smros.Task.SignalState

/-!
# The task table

Parallel arrays hold, slot by slot, a task with its signal state, its sleep, its
scheduling parameter and the address to clear at its exit.  Here one slot carries all of
them.  A slot keeps its side state when it has no task; what a new task finds there is
what the functions below write.
-/

namespace Smros.Task
open Lib Signal
open Prod (snd)

def linuxRootTid : Nat := 1
def linuxMaxTid : Nat := 2 ^ 31 - 1

/-- An empty slot of the table has no task at all. -/
inductive LinuxTaskState where
  | starting
  | runnable
  | blocked
  | exited
  deriving DecidableEq

inductive LinuxBlockReason where
  | none
  | childWait
  | futex
  | mqueue
  | recordLock
  | sleep
  | signalWait
  | signalSuspend
  | stopped
  deriving DecidableEq

inductive LinuxSleepOutcome where
  | waiting
  | completed
  | interrupted
  deriving DecidableEq

structure LinuxSleepRelative where
  startedAt : Nat
  requestedNanoseconds : Nat
  deriving DecidableEq

structure LinuxSleepWait where
  deadline : Nat
  outcome : LinuxSleepOutcome
  relative : Option LinuxSleepRelative
  absoluteRealtimeNanoseconds : Option Nat
  precisionDeadlineNanoseconds : Option Nat
  deriving DecidableEq

structure LinuxTaskReservation where
  slot : Nat
  tid : Nat
  schedulerThread : Nat
  deriving DecidableEq

structure LinuxTaskSchedParam where
  policy : Nat
  priority : Int
  deriving DecidableEq

/-- `DEFAULT`. -/
def LinuxTaskSchedParam.default : LinuxTaskSchedParam := ⟨0, 0⟩

structure LinuxTaskCore where
  tid : Nat
  tgid : Nat
  schedulerThread : Nat
  state : LinuxTaskState
  blockReason : LinuxBlockReason
  deriving DecidableEq

inductive LinuxTaskError where
  | capacity
  | duplicateRoot
  deriving DecidableEq

def linuxTaskTidAllocation (nextTid : Nat) : Option (Nat × Option Nat) :=
  if nextTid ≤ linuxRootTid ∨ linuxMaxTid < nextTid then none
  else some (nextTid, if nextTid < linuxMaxTid then some (nextTid + 1) else none)

/-- The subtraction is exact in the source, and the result is a 64-bit number of ticks. -/
def linuxSleepRealtimeDeadlineTicks (realtimeNanoseconds : Nat)
  (realtimeOffsetNanoseconds : Int) (tickNanoseconds : Nat) : Option Nat :=
  if tickNanoseconds = 0 then none
  else
    let monotonicNanoseconds := (realtimeNanoseconds - realtimeOffsetNanoseconds).toNat
    if 2 ^ 64 ≤ monotonicNanoseconds then none
    else
      let ticks := monotonicNanoseconds / tickNanoseconds +
        if monotonicNanoseconds % tickNanoseconds ≠ 0 then 1 else 0
      if 2 ^ 64 ≤ ticks then none else some ticks

/-- What an expiry tells of a task: its identity and what it was blocked on. -/
abbrev Expiry : Type := Nat × Nat × LinuxBlockReason

namespace LinuxTaskCore
def isPublished (task : LinuxTaskCore) : Bool := task.state != .starting

def isLive (task : LinuxTaskCore) : Bool := task.state == .runnable || task.state == .blocked

def hasIdentity (tid schedulerThread : Nat) (task : LinuxTaskCore) : Bool :=
  task.tid == tid && task.schedulerThread == schedulerThread

def isBlockedOn (reason : LinuxBlockReason) (task : LinuxTaskCore) : Bool :=
  task.state == .blocked && task.blockReason == reason

def expiry (task : LinuxTaskCore) : Expiry := (task.tid, task.schedulerThread, task.blockReason)

end LinuxTaskCore

/-- What the arrays of the table hold at one index. -/
structure TaskSlot where
  task : Option LinuxTaskCore
  signalState : LinuxTaskSignalState
  sleepWait : Option LinuxSleepWait
  schedParam : LinuxTaskSchedParam
  clearChildTid : Nat

namespace TaskSlot
/-- A slot as it is given to a task, or left empty: no side state of an earlier task
(`resetInPlace_eq_new`). -/
def fresh (task : Option LinuxTaskCore) : TaskSlot := ⟨task, .new, none, .default, 0⟩

/-- The slot's sleep, if it has one that waits, the task being blocked on it. -/
def waitingSleep (slot : TaskSlot) : Option LinuxSleepWait :=
  if slot.task.any (·.isBlockedOn .sleep) then
    slot.sleepWait.filter (·.outcome == .waiting)
  else none

def endSleep (slot : TaskSlot) (outcome : LinuxSleepOutcome) : TaskSlot :=
  { slot with sleepWait := slot.sleepWait.map fun wait => { wait with outcome := outcome } }

/-- A slot whose sleep ends at a tick. -/
def sleepExpired (now : Nat) (slot : TaskSlot) : Bool :=
  slot.waitingSleep.any fun wait => wait.precisionDeadlineNanoseconds.isNone && wait.deadline ≤ now

/-- A slot whose sleep ends at a time in nanoseconds. -/
def precisionSleepExpired (nowNanoseconds : Nat) (slot : TaskSlot) : Bool :=
  slot.waitingSleep.any fun wait => wait.precisionDeadlineNanoseconds.any (· ≤ nowNanoseconds)

/-- A change of a slot at a time, with what is told of its task. -/
abbrev Expires : Type := TaskSlot → Option (Expiry × TaskSlot)

/-- The body of the loops over sleeps. -/
def completeSleep (ended : TaskSlot → Bool) : Expires := fun slot => do
  let task ← slot.task
  if ended slot then return (task.expiry, slot.endSleep .completed) else none

/-- The body of the loops over signal waits. -/
def expireSignalWait (now : Nat) : Expires := fun slot => do
  let task ← slot.task
  if task.isBlockedOn .signalWait then
    let expired ← slot.signalState.expireSignalWait now
    return (task.expiry, { slot with signalState := expired })
  else none

/-- One round of the loop of `refresh_realtime_sleep_deadlines`. -/
def refreshRealtimeSleepDeadline (now : Nat) (realtimeOffsetNanoseconds : Int)
  (tickNanoseconds : Nat) (slot : TaskSlot) : TaskSlot :=
  let deadline := do
    let wait ← slot.sleepWait
    let realtimeNanoseconds ← wait.absoluteRealtimeNanoseconds
    linuxSleepRealtimeDeadlineTicks realtimeNanoseconds realtimeOffsetNanoseconds tickNanoseconds
  match deadline with
  | none => slot
  | some deadline =>
    let moved : TaskSlot := { slot with
      sleepWait := slot.sleepWait.map fun wait => { wait with deadline := deadline } }
    if moved.waitingSleep.any (·.deadline ≤ now) then moved.endSleep .completed else moved

end TaskSlot

structure LinuxTaskTable (limit : Nat) where
  slots : List TaskSlot
  sleepExpiryCursor : Nat
  nextTid : Nat
  exhausted : Bool
  sized : slots.length = limit

/-- The task found in a slot. -/
structure FoundTask where
  index : Nat
  slot : TaskSlot
  task : LinuxTaskCore

namespace LinuxTaskTable
variable {limit : Nat}

def new (limit : Nat) : LinuxTaskTable limit where
  slots := List.replicate limit (.fresh none)
  sleepExpiryCursor := 0
  nextTid := linuxRootTid + 1
  exhausted := false
  sized := List.length_replicate

variable (table : LinuxTaskTable limit)

def tasks : List (Option LinuxTaskCore) := table.slots.map TaskSlot.task

/-- The tasks in the table, in the order of their slots. -/
def used : List LinuxTaskCore := table.tasks.reduceOption

def write (table : LinuxTaskTable limit) (index : Nat) (slot : TaskSlot) : LinuxTaskTable limit :=
  { table with
    slots := table.slots.set index slot
    sized := by rw [List.length_set, table.sized] }

/-- Change every slot. -/
def mapSlots (table : LinuxTaskTable limit) (change : TaskSlot → TaskSlot) : LinuxTaskTable limit :=
  { table with
    slots := table.slots.map change
    sized := by rw [List.length_map, table.sized] }

/-- The first task that passes the test, with its slot. -/
def find (test : LinuxTaskCore → Bool) : Option FoundTask := do
  let (index, slot) ← firstPlace (fun slot => slot.task.any test) table.slots
  let task ← slot.task
  return ⟨index, slot, task⟩

def emptySlot : Option Nat := table.slots.findIdx? fun slot => slot.task.isNone

variable (tid schedulerThread : Nat)

def taskSlot : Option FoundTask :=
  table.find fun task => task.isLive && task.hasIdentity tid schedulerThread

def taskSlotIndex : Option FoundTask := table.find fun task => task.hasIdentity tid schedulerThread

def taskForTransition : Option FoundTask :=
  table.find fun task => task.isPublished && task.hasIdentity tid schedulerThread

/-- The slot of a reservation with its task, if that is in one of the states. -/
def reserved (states : List LinuxTaskState)
  (reservation : LinuxTaskReservation) : Option FoundTask := do
  let slot ← table.slots[reservation.slot]?
  let task ← slot.task
  if task.state ∈ states ∧ task.hasIdentity reservation.tid reservation.schedulerThread then
    return ⟨reservation.slot, slot, task⟩
  else none

/-! ## Births -/

def registerRoot (schedulerThread : Nat) : Except LinuxTaskError (Nat × LinuxTaskTable limit) :=
  if table.used.any (·.tid == linuxRootTid) then .error .duplicateRoot
  else
    match table.emptySlot with
    | none => .error .capacity
    | some slot =>
      let root : LinuxTaskCore :=
        { tid := linuxRootTid
          tgid := linuxRootTid
          schedulerThread := schedulerThread
          state := .runnable
          blockReason := .none }
      .ok (linuxRootTid, table.write slot (.fresh (some root)))

def reserveChild (table : LinuxTaskTable limit) (tgid schedulerThread : Nat) :
  Option LinuxTaskReservation × LinuxTaskTable limit :=
  if table.exhausted then (none, table)
  else
    match table.emptySlot with
    | none => (none, table)
    | some slot =>
      match linuxTaskTidAllocation table.nextTid with
      | none => (none, { table with exhausted := true })
      | some (tid, followingTid) =>
        let child : LinuxTaskCore :=
          { tid := tid
            tgid := tgid
            schedulerThread := schedulerThread
            state := .starting
            blockReason := .none }
        (some ⟨slot, tid, schedulerThread⟩, { table.write slot (.fresh (some child)) with
            nextTid := followingTid.getD table.nextTid
            exhausted := followingTid.isNone })

variable (reservation : LinuxTaskReservation) (parentSchedulerThread : Nat)
/-- The slots of a live parent and of the child reserved in its thread group. -/
def parentOf : Option (FoundTask × FoundTask) := do
  let parent ← table.find fun task => task.isLive && task.schedulerThread == parentSchedulerThread
  let child ← table.reserved [.starting] reservation
  if child.task.tgid = parent.task.tgid then return (parent, child) else none

def inheritSignalMask : Option (LinuxTaskTable limit) :=
  (table.parentOf reservation parentSchedulerThread).map fun (parent, child) =>
    table.write child.index { child.slot with
      signalState := { child.slot.signalState.resetInPlace with
        mask := parent.slot.signalState.mask } }

def inheritSchedParam : Option (LinuxTaskTable limit) :=
  (table.parentOf reservation parentSchedulerThread).map fun (parent, child) =>
    table.write child.index { child.slot with schedParam := parent.slot.schedParam }

def publish : Option (LinuxTaskTable limit) :=
  (table.reserved [.starting] reservation).map fun found =>
    table.write found.index { found.slot with
      task := some { found.task with state := .runnable } }

def rollback : Option (LinuxTaskTable limit) :=
  (table.reserved [.starting, .runnable] reservation).map fun found =>
    table.write found.index (.fresh none)

/-! ## Changes of a task -/

def setSchedParam (param : LinuxTaskSchedParam) : Option (LinuxTaskTable limit) :=
  (table.taskSlotIndex tid schedulerThread).map fun found =>
    table.write found.index { found.slot with schedParam := param }

def block (reason : LinuxBlockReason) : Option (LinuxTaskTable limit) :=
  if reason = .none then none
  else do
    let found ← table.taskForTransition tid schedulerThread
    if found.task.state = .runnable then
      return table.write found.index { found.slot with
        task := some { found.task with state := .blocked, blockReason := reason } }
    else none

def wake : Option (LinuxTaskTable limit) := do
  let found ← table.taskForTransition tid schedulerThread
  if found.task.state = .blocked then
    return table.write found.index { found.slot with
      task := some { found.task with state := .runnable, blockReason := .none } }
  else none

def setClearChildTid (tid schedulerThread address : Nat) : Option (LinuxTaskTable limit) :=
  (table.taskSlot tid schedulerThread).map fun found =>
    table.write found.index { found.slot with clearChildTid := address }

def exitWithClearChildTid : Option (Nat × LinuxTaskTable limit) :=
  (table.taskSlot tid schedulerThread).map fun found =>
    (found.slot.clearChildTid, table.write found.index { found.slot with
      task := some { found.task with state := .exited, blockReason := .none }
      signalState := found.slot.signalState.resetInPlace
      sleepWait := none
      clearChildTid := 0 })

def retire : Option (LinuxTaskTable limit) := do
  let found ← table.taskSlotIndex tid schedulerThread
  if found.task.state = .exited then return table.write found.index (.fresh none) else none

/-- The tid counter is kept. -/
def reset (table : LinuxTaskTable limit) : LinuxTaskTable limit :=
  { table with
    slots := List.replicate limit (.fresh none)
    sleepExpiryCursor := 0
    sized := List.length_replicate }

/-! ## Sleeps -/

def installSleep (wait : LinuxSleepWait) : Option (LinuxTaskTable limit) := do
  let found ← table.taskSlot tid schedulerThread
  if wait.outcome ≠ .waiting ∨ found.slot.sleepWait.isSome then none
  else return table.write found.index { found.slot with sleepWait := some wait }

def takeSleepOutcome : Option (LinuxSleepWait × LinuxTaskTable limit) := do
  let found ← table.taskSlot tid schedulerThread
  let wait ← found.slot.sleepWait
  if wait.outcome = .waiting then none
  else return (wait, table.write found.index { found.slot with sleepWait := none })

def cancelSleep : Option (LinuxTaskTable limit) := do
  let found ← table.taskSlot tid schedulerThread
  if found.slot.sleepWait.isNone then none
  else return table.write found.index { found.slot with sleepWait := none }

def interruptSleep (tid schedulerThread signum : Nat) : Option (LinuxTaskTable limit) := do
  let found ← table.taskSlot tid schedulerThread
  if linuxSignalBit signum = 0#64 ∨ ¬ found.slot.signalState.unblocked signum ∨
      found.slot.waitingSleep.isNone then none
  else return table.write found.index (found.slot.endSleep .interrupted)

/-- The slots from the cursor on, and around to it. -/
def fromCursor : List (TaskSlot × Nat) :=
  table.slots.zipIdx.rotate (table.sleepExpiryCursor % limit)

/-- The first place with a slot to change: its index and the changed slot. -/
def firstExpiry (change : TaskSlot.Expires) (places : List (TaskSlot × Nat)) :
  Option (Expiry × Nat × TaskSlot) :=
  places.findSome? fun (slot, index) => (change slot).map (·.map id (index, ·))

def expireSlots (change : TaskSlot.Expires) : List Expiry × LinuxTaskTable limit :=
  ((sweep change table.slots).1, { table with
      slots := (sweep change table.slots).2
      sized := by rw [sweep, List.length_map, table.sized] })

/-- The used part of the array that `expire_sleeps` answers with is a list. -/
def expireSleeps (now : Nat) : List Expiry × LinuxTaskTable limit :=
  table.expireSlots (TaskSlot.completeSleep (TaskSlot.sleepExpired now))

def expireOneSleep (now : Nat) : Option (Expiry × LinuxTaskTable limit) :=
  (firstExpiry (TaskSlot.completeSleep (TaskSlot.sleepExpired now)) table.fromCursor).map
    fun (expiry, index, slot) =>
      (expiry, { table.write index slot with sleepExpiryCursor := (index + 1) % limit })

def expirePrecisionSleep (nowNanoseconds : Nat) : Option (Expiry × LinuxTaskTable limit) :=
  (firstExpiry (TaskSlot.completeSleep (TaskSlot.precisionSleepExpired nowNanoseconds))
    table.slots.zipIdx).map fun (expiry, index, slot) => (expiry, table.write index slot)

def nextPrecisionSleepDeadline : Option Nat :=
  (table.slots.filterMap fun slot => slot.waitingSleep.bind (·.precisionDeadlineNanoseconds)).min?

def refreshRealtimeSleepDeadlines (now : Nat)
  (realtimeOffsetNanoseconds : Int) (tickNanoseconds : Nat) : LinuxTaskTable limit :=
  table.mapSlots (·.refreshRealtimeSleepDeadline now realtimeOffsetNanoseconds tickNanoseconds)

/-! ## Signals -/

open LinuxTaskSignalState

/-- `signal_state_mut`: a change of the signal state of a live task. -/
def changeSignalState (tid schedulerThread : Nat)
  (change : LinuxTaskSignalState → LinuxTaskSignalState) : Option (LinuxTaskTable limit) :=
  (table.taskSlot tid schedulerThread).map fun found =>
    table.write found.index { found.slot with signalState := change found.slot.signalState }

def signalTarget (tgid : Option Nat) (tid : Nat) : Option FoundTask :=
  table.find fun task => task.isLive && task.tid == tid && tgid.all (task.tgid == ·)

/-- Run a program on the signal state of a found task. -/
def onSignalState {Value : Type} (table : LinuxTaskTable limit) (found : FoundTask)
  (program : Program LinuxTaskSignalState LinuxSignalRouteError Value) :
  Except LinuxSignalRouteError Value × LinuxTaskTable limit :=
  match program found.slot.signalState with
  | .ok value next => (.ok value, table.write found.index { found.slot with signalState := next })
  | .error error next =>
    (.error error, table.write found.index { found.slot with signalState := next })

def routeSignal (tgid : Option Nat) (tid : Nat) (record : LinuxPendingSignal) :
  Except LinuxSignalRouteError LinuxTaskCore × LinuxTaskTable limit :=
  match table.signalTarget tgid tid with
  | none => (.error .noSuchTask, table)
  | some found =>
    if record.signum = 0 then (.ok found.task, table)
    else
      let (result, next) := table.onSignalState found (onPending (LinuxPendingSignals.queue record))
      (result.map fun _ => found.task, next)

/-- What a routed signal does to the task it is for; the reason to wake the task, if any. -/
def routeToTask (reason : LinuxBlockReason) (record : LinuxPendingSignal) :
  Program LinuxTaskSignalState LinuxSignalRouteError (Option LinuxBlockReason) := do
  let state ← get
  if reason = .signalWait ∧ state.signalWaitAccepts record.signum then
    match ← onPending (LinuxPendingSignals.reserveDirect record) with
    | none => return none
    | some reservation =>
      let reserved ← get
      match reserved.completeSignalWait record .task reservation with
      | some completed =>
        set completed
        return some .signalWait
      | none => onPending (LinuxPendingSignals.rollbackReservation reservation record)
  let state ← get
  if reason = .signalWait then
    let interrupted ← queueAndInterrupt record interruptTimedSignalWait
    return if interrupted then some .signalWait else none
  else if reason = .signalSuspend ∧ state.signalWaitAccepts record.signum then
    let interrupted ← queueAndInterrupt record interruptSignalSuspend
    return if interrupted then some .signalSuspend else none
  else
    onPending (LinuxPendingSignals.queue record)
    return none

def routeSignalAndCompleteWait (tgid : Option Nat) (tid : Nat) (record : LinuxPendingSignal) :
  Except LinuxSignalRouteError (LinuxTaskCore × Option LinuxBlockReason) × LinuxTaskTable limit :=
  match table.signalTarget tgid tid with
  | none => (.error .noSuchTask, table)
  | some found =>
    if record.signum = 0 then (.ok (found.task, none), table)
    else
      let (result, next) := table.onSignalState found (routeToTask found.task.blockReason record)
      (result.map fun reason => (found.task, reason), next)

/-- The wait that a task is blocked in, ended the way the reason says. -/
def endedWait (reason : LinuxBlockReason) (state : LinuxTaskSignalState)
  (endTimed endSuspend : LinuxTaskSignalState → Option LinuxTaskSignalState) :
  Option LinuxTaskSignalState :=
  match reason with
  | .signalWait => endTimed state
  | .signalSuspend => endSuspend state
  | _ => none

def endSignalWait (tid schedulerThread : Nat)
  (endTimed endSuspend : LinuxTaskSignalState → Option LinuxTaskSignalState) :
  Option (LinuxBlockReason × LinuxTaskTable limit) := do
  let found ← table.taskSlot tid schedulerThread
  let ended ← endedWait found.task.blockReason found.slot.signalState endTimed endSuspend
  return (found.task.blockReason, table.write found.index { found.slot with signalState := ended })

def completeProcessSignalWait (tid schedulerThread : Nat)
  (record : LinuxPendingSignal) (reservation : LinuxPendingSignalReservation) :
  Option (LinuxBlockReason × LinuxTaskTable limit) :=
  table.endSignalWait tid schedulerThread (·.completeSignalWait record .process reservation)
    (·.interruptSignalSuspend record.signum)

def interruptProcessSignalWait
  (tid schedulerThread signum : Nat) : Option (LinuxBlockReason × LinuxTaskTable limit) :=
  table.endSignalWait tid schedulerThread (·.interruptTimedSignalWait signum)
    (·.interruptSignalSuspend signum)

def expireSignalWaits (now : Nat) : List Expiry × LinuxTaskTable limit :=
  table.expireSlots (TaskSlot.expireSignalWait now)

def expireOneSignalWait (now : Nat) : Option (Expiry × LinuxTaskTable limit) :=
  (firstExpiry (TaskSlot.expireSignalWait now) table.slots.zipIdx).map
    fun (expiry, index, slot) => (expiry, table.write index slot)

end LinuxTaskTable

/-! ## Calls -/

/-- The operations on the table; each one runs under one lock. -/
inductive TaskCall where
  | registerRoot (schedulerThread : Nat)
  | reserveChild (tgid schedulerThread : Nat)
  | inheritSignalMask (reservation : LinuxTaskReservation) (parentSchedulerThread : Nat)
  | inheritSchedParam (reservation : LinuxTaskReservation) (parentSchedulerThread : Nat)
  | publish (reservation : LinuxTaskReservation)
  | rollback (reservation : LinuxTaskReservation)
  | setSchedParam (tid schedulerThread : Nat) (param : LinuxTaskSchedParam)
  | block (tid schedulerThread : Nat) (reason : LinuxBlockReason)
  | wake (tid schedulerThread : Nat)
  | setClearChildTid (tid schedulerThread address : Nat)
  | exit (tid schedulerThread : Nat)
  | retire (tid schedulerThread : Nat)
  | reset
  | installSleep (tid schedulerThread : Nat) (wait : LinuxSleepWait)
  | takeSleepOutcome (tid schedulerThread : Nat)
  | cancelSleep (tid schedulerThread : Nat)
  | interruptSleep (tid schedulerThread signum : Nat)
  | expireSleeps (now : Nat)
  | expireOneSleep (now : Nat)
  | expirePrecisionSleep (nowNanoseconds : Nat)
  | refreshRealtimeSleepDeadlines (now : Nat) (realtimeOffsetNanoseconds : Int)
      (tickNanoseconds : Nat)
  | changeSignalState (tid schedulerThread : Nat)
      (change : LinuxTaskSignalState → LinuxTaskSignalState)
  | routeSignal (tgid : Option Nat) (tid : Nat) (record : LinuxPendingSignal)
  | routeSignalAndCompleteWait (tgid : Option Nat) (tid : Nat) (record : LinuxPendingSignal)
  | completeProcessSignalWait (tid schedulerThread : Nat) (record : LinuxPendingSignal)
      (reservation : LinuxPendingSignalReservation)
  | interruptProcessSignalWait (tid schedulerThread signum : Nat)
  | expireSignalWaits (now : Nat)
  | expireOneSignalWait (now : Nat)

namespace LinuxTaskTable
variable {limit : Nat}
/-- The table after a call, whatever the call answers. -/
def next (table : LinuxTaskTable limit) : TaskCall → LinuxTaskTable limit
  | .registerRoot schedulerThread =>
    match table.registerRoot schedulerThread with
    | .error _ => table
    | .ok (_, next) => next
  | .reserveChild tgid schedulerThread => (table.reserveChild tgid schedulerThread).2
  | .inheritSignalMask reservation parent => (table.inheritSignalMask reservation parent).getD table
  | .inheritSchedParam reservation parent => (table.inheritSchedParam reservation parent).getD table
  | .publish reservation => (table.publish reservation).getD table
  | .rollback reservation => (table.rollback reservation).getD table
  | .setSchedParam tid schedulerThread param =>
    (table.setSchedParam tid schedulerThread param).getD table
  | .block tid schedulerThread reason => (table.block tid schedulerThread reason).getD table
  | .wake tid schedulerThread => (table.wake tid schedulerThread).getD table
  | .setClearChildTid tid schedulerThread address =>
    (table.setClearChildTid tid schedulerThread address).getD table
  | .exit tid schedulerThread =>
    ((table.exitWithClearChildTid tid schedulerThread).map snd).getD table
  | .retire tid schedulerThread => (table.retire tid schedulerThread).getD table
  | .reset => table.reset
  | .installSleep tid schedulerThread wait =>
    (table.installSleep tid schedulerThread wait).getD table
  | .takeSleepOutcome tid schedulerThread =>
    ((table.takeSleepOutcome tid schedulerThread).map snd).getD table
  | .cancelSleep tid schedulerThread => (table.cancelSleep tid schedulerThread).getD table
  | .interruptSleep tid schedulerThread signum =>
    (table.interruptSleep tid schedulerThread signum).getD table
  | .expireSleeps now => (table.expireSleeps now).2
  | .expireOneSleep now => ((table.expireOneSleep now).map snd).getD table
  | .expirePrecisionSleep now => ((table.expirePrecisionSleep now).map snd).getD table
  | .refreshRealtimeSleepDeadlines now offset tick =>
    table.refreshRealtimeSleepDeadlines now offset tick
  | .changeSignalState tid schedulerThread change =>
    (table.changeSignalState tid schedulerThread change).getD table
  | .routeSignal tgid tid record => (table.routeSignal tgid tid record).2
  | .routeSignalAndCompleteWait tgid tid record =>
    (table.routeSignalAndCompleteWait tgid tid record).2
  | .completeProcessSignalWait tid schedulerThread record reservation =>
    ((table.completeProcessSignalWait tid schedulerThread record reservation).map snd).getD table
  | .interruptProcessSignalWait tid schedulerThread signum =>
    ((table.interruptProcessSignalWait tid schedulerThread signum).map snd).getD table
  | .expireSignalWaits now => (table.expireSignalWaits now).2
  | .expireOneSignalWait now => ((table.expireOneSignalWait now).map snd).getD table

/-- The tid that a call hands out. -/
def handedOut (table : LinuxTaskTable limit) : TaskCall → Option Nat
  | .registerRoot schedulerThread =>
    match table.registerRoot schedulerThread with
    | .error _ => none
    | .ok (tid, _) => some tid
  | .reserveChild tgid schedulerThread =>
    (table.reserveChild tgid schedulerThread).1.map LinuxTaskReservation.tid
  | _ => none

end LinuxTaskTable
end Smros.Task
