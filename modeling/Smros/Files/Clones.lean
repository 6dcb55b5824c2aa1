import Smros.Files.Tables
import Smros.Lib.Program

/-!
# Fork reservations

A fork takes a reference for every descriptor and every object of the parent
before it has a child to give them to.  The reservation is then either turned
into the child's tables or rolled back.  Rolling back drops references only: it
counts on the parent's own references, and reports where one was the last.
-/

namespace Smros.Files
open Lib Program

/-- How a call may end without a result: with an error number, by waiting, or
by an assertion of the kernel that fails. -/
inductive Failure where
  | errno (error : SysError)
  | waits
  | assertion
  deriving DecidableEq

abbrev FilesM := Program OpenFiles Failure

abbrev SystemM := Program System Failure

/-- A part of a call that works on what stands behind the descriptors. -/
def onFiles {Value : Type} (program : FilesM Value) : SystemM Value :=
  zoom System.files (fun system files => { system with files := files }) program

namespace OpenFiles
/-- An entry of a list of objects goes.  The answer is the handle that is left
without references: for shared memory its own count decides. -/
def releaseObjectEntry (files : OpenFiles) (id : Nat) : Option Nat × OpenFiles :=
  let object := files.table.openDescription id
  let (final, rest) := files.releaseOpenDescription id
  match object with
  | none => (none, rest)
  | some object =>
    if object.objectType = .sharedMemory then
      match rest.sharedMemoryId object.handle with
      | some sharedId => rest.releaseSharedMemoryReference sharedId
      | none => (none, rest)
    else (final.map fun _ => object.handle, rest)

/-- The two loops of `rollback_fork_resource_clone`; `true` if every reference
that was dropped left another one. -/
def rollbackObjects : OpenFiles → List Nat → Bool × OpenFiles
  | files, [] => (true, files)
  | files, id :: rest =>
    let (released, next) := files.releaseObjectEntry id
    let (preserved, last) := next.rollbackObjects rest
    (released.isNone && preserved, last)

def rollbackDescriptors : OpenFiles → List LinuxDescriptorEntry → Bool × OpenFiles
  | files, [] => (true, files)
  | files, entry :: rest =>
    let (released, next) := files.releaseOpenDescription entry.descriptionId
    let (preserved, last) := next.rollbackDescriptors rest
    (released.isNone && preserved, last)

def rollbackForkResourceClone (files : OpenFiles) (descriptors : List LinuxDescriptorEntry)
  (objects : List Nat) : Bool × OpenFiles :=
  let (objectsPreserved, next) := files.rollbackObjects objects.reverse
  let (descriptorsPreserved, last) := next.rollbackDescriptors descriptors.reverse
  (objectsPreserved && descriptorsPreserved, last)

/-- The two loops of `release_resource_clone`; the answer is the handles to close. -/
def releaseObjects : OpenFiles → List Nat → List Nat × OpenFiles
  | files, [] => ([], files)
  | files, id :: rest =>
    let (released, next) := files.releaseObjectEntry id
    let (handles, last) := next.releaseObjects rest
    (released.toList ++ handles, last)

def releaseDescriptors : OpenFiles → List LinuxDescriptorEntry → List Nat × OpenFiles
  | files, [] => ([], files)
  | files, entry :: rest =>
    let (released, next) := files.releaseOpenDescription entry.descriptionId
    match released with
    | none => next.releaseDescriptors rest
    | some description =>
      let (handles, last) := (next.removeLinuxFxfsFile description.handle).releaseDescriptors rest
      (description.handle :: handles, last)

def releaseResourceClone (files : OpenFiles) (descriptors : List LinuxDescriptorEntry)
  (objects : List Nat) : List Nat × OpenFiles :=
  let (objectHandles, next) := files.releaseObjects objects.reverse
  let (descriptorHandles, last) := next.releaseDescriptors descriptors.reverse
  (objectHandles ++ descriptorHandles, last)

/-- `for handle in released_handles`. -/
def closeHandles (files : OpenFiles) (handles : List Nat) : OpenFiles :=
  handles.foldl sysHandleClose files

end OpenFiles

/-- The kernel asserts that the parent's references were not the reserved ones. -/
def releaseReservedForkResources (descriptors : List LinuxDescriptorEntry) (objects : List Nat) :
  FilesM Unit := do
  let files ← get
  let (preserved, rest) := files.rollbackForkResourceClone descriptors objects
  set rest
  if preserved then pure () else throw .assertion

/-- A reservation that cannot go on gives back what it holds. -/
def abandonReservation {Value : Type} (descriptors : List LinuxDescriptorEntry)
  (objects : List Nat) : FilesM Value := do
  releaseReservedForkResources descriptors objects
  throw (.errno .enomem)

/-- The references to the parent's descriptors.  The failpoints are consumed in order;
a missing one does not fail. -/
def reserveDescriptors (held : List LinuxDescriptorEntry) :
  List LinuxDescriptorEntry → List Bool → FilesM (List Bool)
  | [], failpoints => pure failpoints
  | entry :: rest, failpoints => do
      let files ← get
      match files.acquireOpenDescription entry.descriptionId with
      | none => abandonReservation held []
      | some acquired => do
          set acquired
          if failpoints.headD false then abandonReservation (held ++ [entry]) []
          else reserveDescriptors (held ++ [entry]) rest failpoints.tail

/-- The reference to the record of a shared memory object; `id` is released
with the reservation where the record's own reference is not to be had. -/
def reserveSharedReference (descriptors : List LinuxDescriptorEntry) (held : List Nat)
  (id handle : Nat) (failpoint : Bool) : FilesM Unit := do
  let files ← get
  match files.sharedMemoryId handle with
  | none => do
      set (files.releaseOpenDescription id).2
      abandonReservation descriptors held
  | some sharedId =>
    match files.acquireSharedMemoryReference sharedId with
    | none => do
        set (files.releaseOpenDescription id).2
        abandonReservation descriptors held
    | some acquired =>
      if failpoint then do
        set ((acquired.releaseSharedMemoryReference sharedId).2.releaseOpenDescription id).2
        abandonReservation descriptors held
      else set acquired

/-- The references to the parent's objects. -/
def reserveObjects (descriptors : List LinuxDescriptorEntry) (held : List Nat) :
  List Nat → List Bool → FilesM Unit
  | [], _ => pure ()
  | id :: rest, failpoints => do
      let files ← get
      match files.acquireOpenDescription id with
      | none => abandonReservation descriptors held
      | some acquired => do
          set acquired
          if failpoints.headD false then do
            set (acquired.releaseOpenDescription id).2
            abandonReservation descriptors held
          else
            match acquired.table.openDescription id with
            | none => abandonReservation descriptors held
            | some description =>
              if description.objectType = .sharedMemory then do
                reserveSharedReference descriptors held id description.handle
                  (failpoints.tail.headD false)
                reserveObjects descriptors (held ++ [id]) rest failpoints.tail.tail
              else reserveObjects descriptors (held ++ [id]) rest failpoints.tail

/-- `reserve_resource_clone`; `memory` tells whether the vectors can be reserved,
`attachments` whether the parent's shared attachments can. -/
def reserveResourceClone (parentPid : Nat) (failpoints : List Bool) (memory attachments : Bool) :
  SystemM Nat := do
  let system ← get
  if ¬ memory then throw (.errno .enomem)
  else
    let parent := (system.processResources parentPid).getD (.new parentPid)
    let left ← onFiles (reserveDescriptors [] parent.descriptors failpoints)
    onFiles (reserveObjects parent.descriptors [] parent.objects left)
    if ¬ attachments then do
      onFiles (releaseReservedForkResources parent.descriptors parent.objects)
      throw (.errno .enomem)
    else do
      modify fun system => { system with
        reservations := system.reservations ++
          [⟨parent.descriptors, parent.objects, parent.effectiveUid, parent.effectiveGid,
            parent.umask⟩] }
      pure 0

/-- The reservation at a position, taken out of the list. -/
def takeReservation (index : Nat) : SystemM LinuxResourceClone := do
  let system ← get
  let clone ← orThrow (.errno .eagain) system.reservations[index]?
  set { system with reservations := system.reservations.eraseIdx index }
  pure clone

/-- `drop` of a reservation that was not committed. -/
def dropResourceClone (clone : LinuxResourceClone) : SystemM Unit :=
  onFiles (releaseReservedForkResources clone.descriptors clone.objects)

/-- The tables of the child; its first number to try follows its largest one. -/
def childResources (pid : Nat) (clone : LinuxResourceClone) : LinuxProcessResources where
  pid := pid
  descriptors := clone.descriptors
  nextFd := System.followingFd ((clone.descriptors.map (·.fd)).max?.getD compatFdStart)
  objects := clone.objects
  effectiveUid := clone.effectiveUid
  effectiveGid := clone.effectiveGid
  umask := clone.umask

/-- `LinuxResourceClone::commit`; `room` tells whether the process vector has
its reserved place still. -/
def commitResourceClone (index childPid : Nat) (room : Bool) : SystemM Nat := do
  let clone ← takeReservation index
  let system ← get
  if (system.processResources childPid).isSome ∨ ¬ room then do
    dropResourceClone clone
    throw (.errno .ebusy)
  else do
    set { system with resources := system.resources ++ [childResources childPid clone] }
    pure 0

/-- `rollback_reserved_resources`. -/
def rollbackReservedResources (index : Nat) : SystemM Nat := do
  let clone ← takeReservation index
  dropResourceClone clone
  pure 0

/-- `rollback_fork_process_resources`, on a child that has its tables. -/
def rollbackForkProcessResources (system : System) (pid : Nat) : Bool × System :=
  match system.processResources pid with
  | none => (false, system)
  | some resources =>
    let (preserved, files) :=
      system.files.rollbackForkResourceClone resources.descriptors resources.objects
    (preserved, { system with
        files := files
        resources := Counted.without (·.pid) pid system.resources })

/-- Two callers: `rollback_installed_resources` asserts the answer, and the
failure exit of `install_resources` ignores it. -/
def rollbackInstalledResources (pid : Nat) (asserted : Bool) : SystemM Nat := do
  let system ← get
  let (preserved, next) := rollbackForkProcessResources system pid
  set next
  if asserted ∧ ¬ preserved then throw .assertion else pure 0

/-- `release_linux_process_resources`, on exit. -/
def releaseLinuxProcessResources (system : System) (pid : Nat) : System :=
  match system.processResources pid with
  | none => system
  | some resources =>
    let (handles, files) :=
      system.files.releaseResourceClone resources.descriptors resources.objects
    { system with
      files := files.closeHandles handles
      resources := Counted.without (·.pid) pid system.resources }

end Smros.Files
