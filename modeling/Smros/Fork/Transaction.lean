import Smros.Lib.Program

/-!
# The fork transaction

A fork acquires one resource after another through operations that may fail, and
undoes what it has on the way out.  The ledger of the transaction records the stages
in their order; the ownership core keeps what the operations handed out.
-/

namespace Smros.Fork
open Lib

/-! ## Stages -/

inductive LinuxForkAcquisition where
  | schedulerThread
  | task
  | process
  | resources
  | memory
  | configured
  deriving DecidableEq

def LinuxForkAcquisition.order : List LinuxForkAcquisition :=
  [.schedulerThread, .task, .process, .resources, .memory, .configured]

/-- The failure points that the transaction itself asks about. -/
inductive LinuxForkFailurePoint where
  | schedulerThread
  | task
  | process
  | memory
  | configured
  | processPublication
  | taskPublication
  | schedulerPublication
  deriving DecidableEq

/-- The stages acquired so far, in order. -/
structure LinuxForkAcquisitionLedger where
  acquired : List LinuxForkAcquisition
  deriving DecidableEq

namespace LinuxForkAcquisitionLedger
def new : LinuxForkAcquisitionLedger := ⟨[]⟩

variable (ledger : LinuxForkAcquisitionLedger)
/-- Only the next stage of the order can be acquired. -/
def acquire (stage : LinuxForkAcquisition) : Option LinuxForkAcquisitionLedger :=
  if LinuxForkAcquisition.order[ledger.acquired.length]? = some stage then
    some ⟨ledger.acquired ++ [stage]⟩
  else none

/-- The stages to undo: the last one first. -/
def rollbackInto : List LinuxForkAcquisition := ledger.acquired.reverse

end LinuxForkAcquisitionLedger

/-! ## The transaction -/

/-- What the transaction runs on. -/
structure LinuxForkTransactionBackend : Type 1 where
  State : Type
  Error : Type
  Output : Type
  injectedFailure : State → Error
  acquireSchedulerThread : Program State Error Unit
  acquireTask : Program State Error Unit
  acquireProcess : Program State Error Unit
  acquireResources : Program State Error Unit
  acquireMemory : Program State Error Unit
  configureChild : Program State Error Unit
  installResources : Program State Error Unit
  beginPublication : Program State Error Unit
  publishProcess : Program State Error Unit
  publishTask : Program State Error Unit
  publishSchedulerThread : Program State Error Unit
  completePublication : Program State Error Unit
  finish : Program State Error Output
  rollback : LinuxForkAcquisition → State → State

structure LinuxForkTransaction (backend : LinuxForkTransactionBackend) where
  backend : backend.State
  ledger : LinuxForkAcquisitionLedger
  committed : Bool

namespace LinuxForkTransaction
variable (backend : LinuxForkTransactionBackend)

def new (start : backend.State) : LinuxForkTransaction backend := ⟨start, .new, false⟩

variable {backend} {Value : Type}
/-- Run an operation of the backend. -/
def onBackend (operation : Program backend.State backend.Error Value) :
  Program (LinuxForkTransaction backend) backend.Error Value :=
  Program.zoom LinuxForkTransaction.backend
    (fun transaction state => { transaction with backend := state }) operation

/-- The stage is recorded before the operation is tried. -/
def acquire (stage : LinuxForkAcquisition) (operation : Program backend.State backend.Error Unit) :
  Program (LinuxForkTransaction backend) backend.Error Unit := do
  let transaction ← get
  match transaction.ledger.acquire stage with
  | none => throw (backend.injectedFailure transaction.backend)
  | some ledger =>
    modify fun transaction => { transaction with ledger := ledger }
    onBackend operation

def failIf (shouldFail : LinuxForkFailurePoint → Bool) (point : LinuxForkFailurePoint) :
  Program (LinuxForkTransaction backend) backend.Error Unit := do
  let transaction ← get
  if shouldFail point then throw (backend.injectedFailure transaction.backend)

/-- Leaving the transaction undoes it unless it was committed. -/
def drop (transaction : LinuxForkTransaction backend) : backend.State :=
  if transaction.committed then transaction.backend
  else
    transaction.ledger.rollbackInto.foldl (fun state stage => backend.rollback stage state)
      transaction.backend

/-- The body of `run_linux_fork_transaction`; each point is asked about once at most. -/
def body (backend : LinuxForkTransactionBackend) (shouldFail : LinuxForkFailurePoint → Bool) :
  Program (LinuxForkTransaction backend) backend.Error backend.Output := do
  acquire .schedulerThread backend.acquireSchedulerThread
  failIf shouldFail .schedulerThread
  acquire .task backend.acquireTask
  failIf shouldFail .task
  acquire .process backend.acquireProcess
  failIf shouldFail .process
  acquire .resources backend.acquireResources
  acquire .memory backend.acquireMemory
  failIf shouldFail .memory
  acquire .configured backend.configureChild
  failIf shouldFail .configured
  onBackend backend.installResources
  onBackend backend.beginPublication
  onBackend backend.publishProcess
  failIf shouldFail .processPublication
  onBackend backend.publishTask
  failIf shouldFail .taskPublication
  onBackend backend.publishSchedulerThread
  failIf shouldFail .schedulerPublication
  onBackend backend.completePublication
  let output ← onBackend backend.finish
  modify fun transaction => { transaction with committed := true }
  return output

end LinuxForkTransaction

/-- The answer of the transaction, and the backend after it was left. -/
def runLinuxForkTransaction (backend : LinuxForkTransactionBackend) (start : backend.State)
  (shouldFail : LinuxForkFailurePoint → Bool) :
  Except backend.Error backend.Output × backend.State :=
  match LinuxForkTransaction.body backend shouldFail (.new backend start) with
  | .ok output transaction => (.ok output, transaction.drop)
  | .error error transaction => (.error error, transaction.drop)

/-! ## The ownership core -/

/-- The operations that a fork is made of, with what they hand out. -/
structure LinuxForkOwnershipOps : Type 1 where
  State : Type
  Error : Type
  Output : Type
  SchedulerThread : Type
  Parent : Type
  Task : Type
  Process : Type
  Resources : Type
  Memory : Type
  Configured : Type
  Publication : Type
  injectedFailure : State → Error
  acquireSchedulerThread : Program State Error SchedulerThread
  acquireTask : SchedulerThread → Program State Error (Parent × Task)
  acquireProcess : Parent → SchedulerThread → Task → Program State Error Process
  acquireResources : Parent → Program State Error Resources
  /-- The resources are passed by reference and may be changed. -/
  acquireMemory : Parent → Process → Program (State × Resources) Error Memory
  configureChild : Process → SchedulerThread → Memory → Program State Error Configured
  /-- The resources may be taken, whether the call succeeds or not. -/
  installResources : Process → Program (State × Option Resources) Error Unit
  beginPublication : Program State Error Publication
  publishProcess : Process → Configured → Program State Error Unit
  publishTask : Task → Program State Error Unit
  publishSchedulerThread : SchedulerThread → Program State Error Unit
  completePublication : Process → Program State Error Unit
  finish : Process → Configured → Program State Error Output
  restorePublication : Publication → State → State
  rollbackConfigured : Configured → State → State
  rollbackMemory : Memory → State → State
  rollbackReservedResources : Resources → State → State
  rollbackInstalledResources : Process → State → State
  rollbackProcess : Process → State → State
  rollbackTask : Task → State → State
  rollbackSchedulerThread : SchedulerThread → State → State

structure LinuxForkOwnershipCore (O : LinuxForkOwnershipOps) where
  ops : O.State
  schedulerThread : Option O.SchedulerThread
  parent : Option O.Parent
  task : Option O.Task
  process : Option O.Process
  resources : Option O.Resources
  resourcesInstalled : Bool
  memory : Option O.Memory
  configured : Option O.Configured
  publication : Option O.Publication

namespace LinuxForkOwnershipCore
variable {O : LinuxForkOwnershipOps} {Value : Type}

def new (ops : O.State) : LinuxForkOwnershipCore O :=
  ⟨ops, none, none, none, none, none, false, none, none, none⟩

/-- Run an operation on the operations' own state. -/
def onOps (operation : Program O.State O.Error Value) :
  Program (LinuxForkOwnershipCore O) O.Error Value :=
  Program.zoom ops (fun core ops => { core with ops := ops }) operation

/-- What the core holds; to hold nothing is a failure. -/
def held (field : LinuxForkOwnershipCore O → Option Value) :
  Program (LinuxForkOwnershipCore O) O.Error Value := do
  let core ← get
  Program.orThrow (O.injectedFailure core.ops) (field core)

def acquireSchedulerThread : Program (LinuxForkOwnershipCore O) O.Error Unit := do
  let schedulerThread ← onOps O.acquireSchedulerThread
  modify fun core => { core with schedulerThread := some schedulerThread }

def acquireTask : Program (LinuxForkOwnershipCore O) O.Error Unit := do
  let schedulerThread ← held schedulerThread
  let (parent, task) ← onOps (O.acquireTask schedulerThread)
  modify fun core => { core with parent := some parent, task := some task }

def acquireProcess : Program (LinuxForkOwnershipCore O) O.Error Unit := do
  let parent ← held parent
  let schedulerThread ← held schedulerThread
  let task ← held task
  let process ← onOps (O.acquireProcess parent schedulerThread task)
  modify fun core => { core with process := some process }

def acquireResources : Program (LinuxForkOwnershipCore O) O.Error Unit := do
  let parent ← held parent
  let resources ← onOps (O.acquireResources parent)
  modify fun core => { core with resources := some resources }

def acquireMemory : Program (LinuxForkOwnershipCore O) O.Error Unit := do
  let parent ← held parent
  let process ← held process
  let resources ← held resources
  let memory ← Program.zoom (fun core => (core.ops, resources))
    (fun core after => { core with ops := after.1, resources := some after.2 })
    (O.acquireMemory parent process)
  modify fun core => { core with memory := some memory }

def configureChild : Program (LinuxForkOwnershipCore O) O.Error Unit := do
  let process ← held process
  let schedulerThread ← held schedulerThread
  let memory ← held memory
  let configured ← onOps (O.configureChild process schedulerThread memory)
  modify fun core => { core with configured := some configured }

def installResources : Program (LinuxForkOwnershipCore O) O.Error Unit := do
  let process ← held process
  Program.zoom (fun core => (core.ops, core.resources))
    (fun core after => { core with ops := after.1, resources := after.2 })
    (O.installResources process)
  modify fun core => { core with resourcesInstalled := true }

def beginPublication : Program (LinuxForkOwnershipCore O) O.Error Unit := do
  let core ← get
  if core.publication.isSome then throw (O.injectedFailure core.ops)
  else
    let publication ← onOps O.beginPublication
    modify fun core => { core with publication := some publication }

def publishProcess : Program (LinuxForkOwnershipCore O) O.Error Unit := do
  let process ← held process
  let configured ← held configured
  onOps (O.publishProcess process configured)

def publishTask : Program (LinuxForkOwnershipCore O) O.Error Unit := do
  let task ← held task
  onOps (O.publishTask task)

def publishSchedulerThread : Program (LinuxForkOwnershipCore O) O.Error Unit := do
  let schedulerThread ← held schedulerThread
  onOps (O.publishSchedulerThread schedulerThread)

def completePublication : Program (LinuxForkOwnershipCore O) O.Error Unit := do
  let process ← held process
  onOps (O.completePublication process)

/-- Give a resource back, if there is one, and forget it. -/
def giveBack (held : Option Value) (release : Value → O.State → O.State)
  (core : LinuxForkOwnershipCore O) : LinuxForkOwnershipCore O :=
  match held with
  | none => core
  | some value => { core with ops := release value core.ops }

def restore (core : LinuxForkOwnershipCore O) : LinuxForkOwnershipCore O :=
  giveBack core.publication O.restorePublication { core with publication := none }

def finish : Program (LinuxForkOwnershipCore O) O.Error O.Output := do
  let process ← held process
  let configured ← held configured
  let output ← onOps (O.finish process configured)
  modify restore
  return output

def rollback (core : LinuxForkOwnershipCore O) : LinuxForkAcquisition → LinuxForkOwnershipCore O
  | .configured => giveBack core.configured O.rollbackConfigured { core with configured := none }
  | .memory => giveBack core.memory O.rollbackMemory { core with memory := none }
  | .resources =>
    let uninstalled :=
      if core.resourcesInstalled then
        giveBack core.process O.rollbackInstalledResources { core with resourcesInstalled := false }
      else core
    giveBack uninstalled.resources O.rollbackReservedResources { uninstalled with resources := none }
  | .process => giveBack core.process O.rollbackProcess { core with process := none }
  | .task => giveBack core.task O.rollbackTask { core with task := none }
  | .schedulerThread =>
    restore (giveBack core.schedulerThread O.rollbackSchedulerThread
      { core with schedulerThread := none })

/-- The core as what the transaction runs on. -/
def backend (O : LinuxForkOwnershipOps) : LinuxForkTransactionBackend where
  State := LinuxForkOwnershipCore O
  Error := O.Error
  Output := O.Output
  injectedFailure core := O.injectedFailure core.ops
  acquireSchedulerThread := acquireSchedulerThread
  acquireTask := acquireTask
  acquireProcess := acquireProcess
  acquireResources := acquireResources
  acquireMemory := acquireMemory
  configureChild := configureChild
  installResources := installResources
  beginPublication := beginPublication
  publishProcess := publishProcess
  publishTask := publishTask
  publishSchedulerThread := publishSchedulerThread
  completePublication := completePublication
  finish := finish
  rollback stage core := core.rollback stage

end LinuxForkOwnershipCore
end Smros.Fork
