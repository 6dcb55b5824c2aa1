import Smros.Lib.Runs
import Smros.ProcessMemory.Fork

/-!
# The process memories of a kernel

The memories of all processes, the references reserved by forks under way, and the
kernel they share.  A request is one call together with what the rest of the kernel
answers while it runs.
-/

namespace Smros.ProcessMemory
open Lib Kernel
open PageTable (pageSize FrameWindow)
open Program (zoom orThrow onError)

structure System where
  memories : List LinuxProcessMemory
  reserved : List (List LinuxSharedAttachmentClone)
  kernel : Kernel

abbrev SystemM := Program System SysError

namespace System
def new (window : FrameWindow) : System where
  memories := []
  reserved := []
  kernel := ⟨.new window, fun _ _ => 0, .new, {}⟩

variable (system : System)
/-- Where the memory of a process stands. -/
def indexOf (pid : Nat) : Option Nat := system.memories.findIdx? (·.pid == pid)

def memory (pid : Nat) : Option LinuxProcessMemory := system.memories.find? (·.pid == pid)

def withKernel (change : Kernel → Kernel) : System := { system with kernel := change system.kernel }

/-- The system after a call on the memory at `index`. -/
def put (index : Nat) (context : Context) : System :=
  { system with memories := system.memories.set index context.memory, kernel := context.kernel }

end System

def onSystemKernel {Value : Type} : KernelM Value → SystemM Value :=
  zoom System.kernel fun system kernel => { system with kernel := kernel }

/-- `with_pid`. -/
def withPid {Value : Type} (pid : Nat) (operation : MemoryM Value) : SystemM Value :=
  fun system =>
    match system.indexOf pid with
    | none => .error .esrch system
    | some index =>
      match system.memories[index]? with
      | none => .error .esrch system
      | some memory =>
        match operation ⟨memory, system.kernel⟩ with
        | .ok value context => .ok value (system.put index context)
        | .error error context => .error error (system.put index context)

/-! ## Whole processes -/

/-- The memory of a process that starts. -/
def rootMemory (pid : Nat) : LinuxProcessMemory where
  pid := pid
  privatePageTrackingEnabled := false
  privatePageHints := []
  addressSpace := .new
  mappings := []
  sharedAttachments := []
  nextAddr := linuxMmapBase
  brk := .new

/-- Whether the tables of a new address space can be had. -/
def newAddressSpace : KernelM Unit := fun kernel =>
  let (answer, rest) := nextAnswer none kernel.environment.tables
  let asked := { kernel with environment := { kernel.environment with tables := rest } }
  match answer with
  | some error => .error (mapAddressError error) asked
  | none => .ok () asked

def registerRoot (pid : Nat) : SystemM Unit := do
  let system ← get
  if (system.indexOf pid).isSome then throw .ebusy
  else
    onSystemKernel newAddressSpace
    modify fun system => { system with memories := system.memories ++ [rootMemory pid] }

/-- `unregister`: the memory is dropped. -/
def unregister (pid : Nat) : SystemM Unit := do
  let system ← get
  let index ← orThrow .esrch (system.indexOf pid)
  let memory ← orThrow .esrch system.memories[index]?
  set { system with
    memories := system.memories.eraseIdx index
    kernel := system.kernel.releaseAllPages memory.backings }

/-- Build the child; a failure drops it together with the reservations left. -/
def buildChild (parent : LinuxProcessMemory) (childPid : Nat)
  (attachments : List LinuxSharedAttachmentClone) : KernelM LinuxProcessMemory := fun kernel =>
  match cloneMemory parent ⟨⟨newChild parent childPid, kernel⟩, attachments⟩ with
  | .ok _ state => .ok state.child.memory state.child.kernel
  | .error error state =>
    .error error (releaseSharedAttachments state.attachments
      (state.child.kernel.releaseAllPages state.child.memory.backings))

/-- The tables of the parent are shared with the child from now on. -/
def shareTables (memory : LinuxProcessMemory) : LinuxProcessMemory :=
  { memory with addressSpace := { memory.addressSpace with ready := fun _ => false } }

variable (parentPid childPid : Nat)
/-- The part of `clone_for_fork` after the parent's pages have been promoted. -/
def cloneParent (attachments : List LinuxSharedAttachmentClone) : SystemM Unit := do
  let system ← get
  let index ← orThrow .esrch (system.indexOf parentPid)
  let parent ← orThrow .esrch system.memories[index]?
  onError (onSystemKernel newAddressSpace) (·.withKernel (releaseSharedAttachments attachments))
  let child ← onSystemKernel (buildChild parent childPid attachments)
  modify fun system => { system with
    memories := system.memories.set index (shareTables parent) ++ [child] }

/-- The checks and the promotion at the start of `clone_for_fork`. -/
def prepareFork : SystemM Unit := do
  let system ← get
  if (system.indexOf childPid).isSome then throw .ebusy
  else
    onSystemKernel (tryReserve 1)
    withPid parentPid promotePrivateForkPages

def cloneForFork (attachments : List LinuxSharedAttachmentClone) : SystemM Unit := do
  onError (prepareFork parentPid childPid) (·.withKernel (releaseSharedAttachments attachments))
  cloneParent parentPid childPid attachments

/-! ## Requests -/

inductive Call where
  | registerRoot (pid : Nat)
  | map (pid : Nat) (requested : Option Nat) (len : Nat) (prot : Prot) (flags : BitVec 64)
      (source : LinuxMappingSource) (replace : Bool) (contents : List UInt8)
  | mprotect (pid address len : Nat) (prot : Prot)
  | munmap (pid address len : Nat)
  | mremap (pid oldAddress oldSize newSize : Nat) (flags : MremapFlags) (newAddress : Nat)
  | brk (pid newBrk : Nat)
  | cowFault (pid address : Nat)
  | copyToUser (pid address : Nat) (bytes : List UInt8)
  | store (pid address : Nat) (byte : UInt8)
  | markShared (pid address len objectId : Nat)
  | removeSharedPageName (objectId : Nat)
  | reserveAttachments (pid : Nat)
  | releaseAttachments (slot : Nat)
  | fork (parentPid childPid slot : Nat)
  | exit (pid : Nat)
  deriving DecidableEq

/-- What a call returns: an address, a break or nothing of interest. -/
abbrev Reply := Except SysError Nat

/-- Reserve the attachments of a process for a fork. -/
def beginFork (pid : Nat) : SystemM Unit := do
  let system ← get
  let memory ← orThrow .esrch (system.memory pid)
  let attachments ← onSystemKernel (reserveSharedAttachments memory)
  modify fun system => { system with reserved := system.reserved ++ [attachments] }

/-- Take the reservations of a fork out of the system. -/
def takeReserved (slot : Nat) : SystemM (List LinuxSharedAttachmentClone) := do
  let system ← get
  let attachments ← orThrow .einval system.reserved[slot]?
  set { system with reserved := system.reserved.eraseIdx slot }
  return attachments

def abandonFork (slot : Nat) : SystemM Unit := do
  let attachments ← takeReserved slot
  modify (·.withKernel (releaseSharedAttachments attachments))

def fork (parentPid childPid slot : Nat) : SystemM Unit := do
  let attachments ← takeReserved slot
  cloneForFork parentPid childPid attachments

def Call.run : Call → SystemM Nat
  | .registerRoot pid => do
      ProcessMemory.registerRoot pid
      return 0
  | .map pid requested len prot flags source replace contents => do
      let result ← withPid pid (ProcessMemory.map requested len prot flags source replace contents)
      return result.1
  | .mprotect pid address len prot => do
      withPid pid (sysMprotect address len prot)
      return 0
  | .munmap pid address len => do
      let _ ← withPid pid (sysMunmap address len)
      return 0
  | .mremap pid oldAddress oldSize newSize flags newAddress => do
      let result ← withPid pid (sysMremap oldAddress oldSize newSize flags newAddress)
      return result.1
  | .brk pid newBrk => withPid pid (updateBrk newBrk)
  | .cowFault pid address => do
      let _ ← withPid pid (materializeCowPage address)
      return 0
  | .copyToUser pid address bytes => do
      withPid pid (ProcessMemory.copyToUser address bytes)
      return 0
  | .store pid address byte => do
      withPid pid (userStore address byte)
      return 0
  | .markShared pid address len objectId => do
      withPid pid (ProcessMemory.markShared address len objectId)
      return 0
  | .removeSharedPageName objectId => do
      modify (·.withKernel (ProcessMemory.removeSharedPageName objectId))
      return 0
  | .reserveAttachments pid => do
      beginFork pid
      return 0
  | .releaseAttachments slot => do
      abandonFork slot
      return 0
  | .fork parentPid childPid slot => do
      ProcessMemory.fork parentPid childPid slot
      return 0
  | .exit pid => do
      unregister pid
      return 0

structure Request where
  call : Call
  environment : Environment := {}
  deriving DecidableEq

namespace System
variable (system : System)
/-- Start a call with the answers that it will get. -/
def facing (environment : Environment) : System :=
  system.withKernel fun kernel => { kernel with environment := environment }

def step (request : Request) : Reply × System :=
  match request.call.run (system.facing request.environment) with
  | .ok reply next => (.ok reply, next)
  | .error error next => (.error error, next)

/-- The state after a request. -/
def next (request : Request) : System := (system.step request).2

end System
end Smros.ProcessMemory
