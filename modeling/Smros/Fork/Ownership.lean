import Smros.Fork.Transaction

/-!
# Everything a fork acquires is given back once

The calls that a transaction makes to the operations are recorded.  A call may only
touch what earlier calls have handed out and nobody has given back; what is held is
kept as a stack, the last acquisition on top.
-/

namespace Smros.Fork
open Lib

/-! ## Calls and what they are about -/

/-- A call to the operations: what it was given, and what came of it. -/
inductive ForkCall (O : LinuxForkOwnershipOps) where
  | acquireSchedulerThread (result : Option O.SchedulerThread)
  | acquireTask (schedulerThread : O.SchedulerThread) (result : Option (O.Parent × O.Task))
  | acquireProcess (parent : O.Parent) (schedulerThread : O.SchedulerThread) (task : O.Task)
      (result : Option O.Process)
  | acquireResources (parent : O.Parent) (result : Option O.Resources)
  | acquireMemory (parent : O.Parent) (process : O.Process) (resources after : O.Resources)
      (result : Option O.Memory)
  | configureChild (process : O.Process) (schedulerThread : O.SchedulerThread)
      (memory : O.Memory) (result : Option O.Configured)
  | installResources (process : O.Process) (resources after : Option O.Resources)
      (result : Option Unit)
  | beginPublication (result : Option O.Publication)
  | publishProcess (process : O.Process) (configured : O.Configured) (result : Option Unit)
  | publishTask (task : O.Task) (result : Option Unit)
  | publishSchedulerThread (schedulerThread : O.SchedulerThread) (result : Option Unit)
  | completePublication (process : O.Process) (result : Option Unit)
  | finish (process : O.Process) (configured : O.Configured) (result : Option O.Output)
  | restorePublication (publication : O.Publication)
  | rollbackConfigured (configured : O.Configured)
  | rollbackMemory (memory : O.Memory)
  | rollbackReservedResources (resources : O.Resources)
  | rollbackInstalledResources (process : O.Process)
  | rollbackProcess (process : O.Process)
  | rollbackTask (task : O.Task)
  | rollbackSchedulerThread (schedulerThread : O.SchedulerThread)

/-- What a transaction has to give back. -/
inductive Holding (O : LinuxForkOwnershipOps) where
  | schedulerThread (schedulerThread : O.SchedulerThread)
  | task (task : O.Task)
  | process (process : O.Process)
  | resources (resources : O.Resources)
  | installed (process : O.Process)
  | memory (memory : O.Memory)
  | configured (configured : O.Configured)

variable {O : LinuxForkOwnershipOps}
/-- The call that gives it back. -/
def Holding.release : Holding O → ForkCall O
  | .schedulerThread found => .rollbackSchedulerThread found
  | .task found => .rollbackTask found
  | .process found => .rollbackProcess found
  | .resources found => .rollbackReservedResources found
  | .installed owner => .rollbackInstalledResources owner
  | .memory found => .rollbackMemory found
  | .configured found => .rollbackConfigured found

/-- What is held, the last acquisition first, the parent that the task was made for, and
the publication state to restore. -/
structure Ownership (O : LinuxForkOwnershipOps) where
  stack : List (Holding O)
  parent : Option O.Parent
  publication : Option O.Publication

namespace Ownership
def empty : Ownership O := ⟨[], none, none⟩

def push (own : Ownership O) (holding : Option (Holding O)) : Ownership O :=
  { own with stack := holding.toList ++ own.stack }

/-- Other holdings in the place of the resources. -/
def swap (holdings : List (Holding O)) : Holding O → List (Holding O)
  | .resources _ => holdings
  | holding => [holding]

variable (own : Ownership O)

def exchange (holdings : List (Holding O)) : Ownership O :=
  { own with stack := own.stack.flatMap (swap holdings) }

/-- What a call adds to what is held; installed resources are held in another way. -/
def after : ForkCall O → Ownership O
  | .acquireSchedulerThread result => own.push (result.map .schedulerThread)
  | .acquireTask _ result => { own.push (result.map fun made => .task made.2) with
    parent := (result.map Prod.fst).or own.parent }
  | .acquireProcess _ _ _ result => own.push (result.map .process)
  | .acquireResources _ result => own.push (result.map .resources)
  | .acquireMemory _ _ _ changed result =>
    (own.exchange [.resources changed]).push (result.map .memory)
  | .configureChild _ _ _ result => own.push (result.map .configured)
  | .installResources process _ left result =>
    own.exchange ((result.map fun _ => .installed process).toList ++ (left.map .resources).toList)
  | .beginPublication result => { own with publication := result.or own.publication }
  | _ => own

/-- What a call that gives nothing back may touch. -/
def Allows : ForkCall O → Prop
  | .acquireSchedulerThread _ => True
  | .acquireTask schedulerThread _ => .schedulerThread schedulerThread ∈ own.stack
  | .acquireProcess parent schedulerThread task _ =>
    own.parent = some parent ∧ .schedulerThread schedulerThread ∈ own.stack ∧ .task task ∈ own.stack
  | .acquireResources parent _ => own.parent = some parent
  | .acquireMemory parent process resources _ _ =>
    own.parent = some parent ∧ .process process ∈ own.stack ∧ .resources resources ∈ own.stack
  | .configureChild process schedulerThread memory _ =>
    .process process ∈ own.stack ∧ .schedulerThread schedulerThread ∈ own.stack ∧
      .memory memory ∈ own.stack
  | .installResources process resources _ _ =>
    .process process ∈ own.stack ∧ ∀ found, resources = some found → .resources found ∈ own.stack
  | .beginPublication _ => own.publication = none
  | .publishProcess process configured _ =>
    .process process ∈ own.stack ∧ .configured configured ∈ own.stack
  | .publishTask task _ => .task task ∈ own.stack
  | .publishSchedulerThread schedulerThread _ => .schedulerThread schedulerThread ∈ own.stack
  | .completePublication process _ => .process process ∈ own.stack
  | .finish process configured _ =>
    .process process ∈ own.stack ∧ .configured configured ∈ own.stack
  | _ => False

/-- The calls give nothing back, touch only what is held, and lead to `final`. -/
def Reaches : Ownership O → List (ForkCall O) → Ownership O → Prop
  | own, [], final => final = own
  | own, call :: rest, final => own.Allows call ∧ (own.after call).Reaches rest final

/-- Give everything back, the last acquisition first, and restore the publication state. -/
def undo (own : Ownership O) : List (ForkCall O) :=
  own.stack.map Holding.release ++ own.publication.toList.map .restorePublication

variable {own} {final : Ownership O}
theorem Reaches.concat {calls} (reaches : own.Reaches calls final) {call}
  (allows : final.Allows call) : own.Reaches (calls ++ [call]) (final.after call) := by
  induction calls generalizing own with
  | nil =>
    cases reaches
    exact ⟨allows, rfl⟩
  | cons first rest ih => exact ⟨reaches.1, ih reaches.2⟩

end Ownership

/-! ## Recording the calls -/

variable {State Error Value Call : Type}
/-- Run the program and note the call with its result. -/
def record (program : Program State Error Value) (call : Option Value → Call) :
  Program (State × List Call) Error Value :=
  fun (state, calls) =>
    match program state with
    | .ok value next => .ok value (next, calls ++ [call (some value)])
    | .error error next => .error error (next, calls ++ [call none])

/-- The same for a program that also changes a value it was lent. -/
def recordLent {Lent : Type} (program : Program (State × Lent) Error Value)
  (call : Lent → Lent → Option Value → Call) : Program ((State × List Call) × Lent) Error Value :=
  fun ((state, calls), lent) =>
    match program (state, lent) with
    | .ok value (next, after) => .ok value ((next, calls ++ [call lent after (some value)]), after)
    | .error error (next, after) => .error error ((next, calls ++ [call lent after none]), after)

/-- Note a call that cannot fail. -/
def note (change : State → State) (call : Call) (state : State × List Call) : State × List Call :=
  (change state.1, state.2 ++ [call])

/-- The operations with a record of the calls to them. -/
abbrev recorded (O : LinuxForkOwnershipOps) : LinuxForkOwnershipOps where
  State := O.State × List (ForkCall O)
  Error := O.Error
  Output := O.Output
  SchedulerThread := O.SchedulerThread
  Parent := O.Parent
  Task := O.Task
  Process := O.Process
  Resources := O.Resources
  Memory := O.Memory
  Configured := O.Configured
  Publication := O.Publication
  injectedFailure state := O.injectedFailure state.1
  acquireSchedulerThread := record O.acquireSchedulerThread .acquireSchedulerThread
  acquireTask schedulerThread :=
    record (O.acquireTask schedulerThread) (.acquireTask schedulerThread)
  acquireProcess parent schedulerThread task :=
    record (O.acquireProcess parent schedulerThread task)
      (.acquireProcess parent schedulerThread task)
  acquireResources parent := record (O.acquireResources parent) (.acquireResources parent)
  acquireMemory parent process :=
    recordLent (O.acquireMemory parent process) (.acquireMemory parent process)
  configureChild process schedulerThread memory :=
    record (O.configureChild process schedulerThread memory)
      (.configureChild process schedulerThread memory)
  installResources process := recordLent (O.installResources process) (.installResources process)
  beginPublication := record O.beginPublication .beginPublication
  publishProcess process configured :=
    record (O.publishProcess process configured) (.publishProcess process configured)
  publishTask task := record (O.publishTask task) (.publishTask task)
  publishSchedulerThread schedulerThread :=
    record (O.publishSchedulerThread schedulerThread) (.publishSchedulerThread schedulerThread)
  completePublication process :=
    record (O.completePublication process) (.completePublication process)
  finish process configured := record (O.finish process configured) (.finish process configured)
  restorePublication publication :=
    note (O.restorePublication publication) (.restorePublication publication)
  rollbackConfigured configured :=
    note (O.rollbackConfigured configured) (.rollbackConfigured configured)
  rollbackMemory memory := note (O.rollbackMemory memory) (.rollbackMemory memory)
  rollbackReservedResources resources :=
    note (O.rollbackReservedResources resources) (.rollbackReservedResources resources)
  rollbackInstalledResources process :=
    note (O.rollbackInstalledResources process) (.rollbackInstalledResources process)
  rollbackProcess process := note (O.rollbackProcess process) (.rollbackProcess process)
  rollbackTask task := note (O.rollbackTask task) (.rollbackTask task)
  rollbackSchedulerThread schedulerThread :=
    note (O.rollbackSchedulerThread schedulerThread) (.rollbackSchedulerThread schedulerThread)

end Smros.Fork
