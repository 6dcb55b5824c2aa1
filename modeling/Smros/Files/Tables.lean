import Smros.Files.Fxfs
import Smros.Files.Objects
import Smros.SysError

/-!
# Descriptor tables

Each process has a table of descriptors, which name open file descriptions by
identifier, and a list of further objects it holds.  A regular file also has a
cursor, kept under the handle of its object, and files under `/dev/shm/` are
remembered by path.  Lists that the source keeps sorted or fills by swap
removal are plain lists here: process identifiers, descriptor numbers and
handles occur once in them.
-/

namespace Smros.Files
open Lib
open Counted (adjust without)

/-- `COMPAT_FD_START`. -/
def compatFdStart : Nat := 3

def usizeMax : Nat := 2 ^ 64 - 1

def linuxOAccmode : Nat := 0o3
def linuxORdonly : Nat := 0
def linuxOWronly : Nat := 1
def linuxORdwr : Nat := 2
def linuxOCreat : Nat := 0o100
def linuxOExcl : Nat := 0o200
def linuxOTrunc : Nat := 0o1000
def linuxOAppend : Nat := 0o2000
def linuxONonblock : Nat := 0o4000
def linuxODirectory : Nat := 0o40000
def linuxONofollow : Nat := 0o100000
def linuxOLargefile : Nat := 0o400000
def linuxOCloexec : Nat := 0o2000000

/-- `LINUX_FCNTL_STATUS_ALLOWED_FLAGS`. -/
def linuxFcntlStatusAllowedFlags : Nat := linuxOAppend ||| linuxONonblock

structure LinuxDescriptorEntry where
  fd : Nat
  descriptionId : Nat
  closeOnExec : Bool
  deriving DecidableEq

/-- The part of a process's resources that opening and forking read. -/
structure LinuxProcessResources where
  pid : Nat
  descriptors : List LinuxDescriptorEntry
  nextFd : Nat
  objects : List Nat
  effectiveUid : Nat
  effectiveGid : Nat
  umask : Nat
  deriving DecidableEq

def LinuxProcessResources.new (pid : Nat) : LinuxProcessResources where
  pid := pid
  descriptors := []
  nextFd := compatFdStart
  objects := []
  effectiveUid := 0
  effectiveGid := 0
  umask := 0o022

/-- What a fork has taken for its child and not given to it yet. -/
structure LinuxResourceClone where
  descriptors : List LinuxDescriptorEntry
  objects : List Nat
  effectiveUid : Nat
  effectiveGid : Nat
  umask : Nat
  deriving DecidableEq

structure LinuxSharedMemoryRecord where
  id : Nat
  handle : Nat
  size : Nat
  references : Nat
  deriving DecidableEq

structure LinuxFxfsFileRecord where
  handle : Nat
  cursor : FxfsCursor
  path : Path
  deriving DecidableEq

structure LinuxShmCachedHandle where
  path : Path
  handle : Nat
  descriptionId : Nat
  cursor : FxfsCursor
  deriving DecidableEq

/-- Everything that stands behind the descriptors. -/
structure OpenFiles where
  table : LinuxOpenDescriptions
  compat : CompatObjectTable
  sharedMemory : List LinuxSharedMemoryRecord
  nextSharedMemoryId : Nat
  fxfsFiles : List LinuxFxfsFileRecord
  shmCachedHandles : List LinuxShmCachedHandle
  fxfs : FxfsState
  deriving DecidableEq

/-- The reservations are those of the forks in progress; `serial` is what has
been written to the serial port. -/
structure System where
  files : OpenFiles
  resources : List LinuxProcessResources
  reservations : List LinuxResourceClone
  serial : List UInt8
  deriving DecidableEq

/-- A kernel with no process, over a file store. -/
def System.start (fxfs : FxfsState) : System where
  files :=
    { table := .empty
      compat := .empty
      sharedMemory := []
      nextSharedMemoryId := 1
      fxfsFiles := []
      shmCachedHandles := []
      fxfs := fxfs }
  resources := []
  reservations := []
  serial := []

/-! ## Files behind handles -/

namespace OpenFiles
variable (files : OpenFiles)

def linuxFxfsFile (handle : Nat) : Option LinuxFxfsFileRecord :=
  files.fxfsFiles.find? (·.handle = handle)

/-- What `linux_fxfs_file_mut` is used for: move the cursor of a file. -/
def setCursor (handle : Nat) (cursor : FxfsCursor) : OpenFiles :=
  { files with
    fxfsFiles := adjust (·.handle) handle (fun file => { file with cursor := cursor })
      files.fxfsFiles }

def bindLinuxFxfsFile (handle : Nat) (path : Path) (cursor : FxfsCursor) : OpenFiles :=
  if (files.linuxFxfsFile handle).isSome then
    { files with
      fxfsFiles := adjust (·.handle) handle
        (fun file => { file with cursor := cursor, path := path }) files.fxfsFiles }
  else
    { files with fxfsFiles := files.fxfsFiles ++ [⟨handle, cursor, path⟩] }

def linuxShmCachedHandle (path : Path) : Option LinuxShmCachedHandle :=
  files.shmCachedHandles.find? (·.path = path)

def cacheLinuxShmHandle (path : Path) (handle descriptionId : Nat) (cursor : FxfsCursor) :
  OpenFiles := { files with
    shmCachedHandles := files.shmCachedHandles.filter (·.path ≠ path) ++
      [⟨path, handle, descriptionId, cursor⟩] }

def removeLinuxShmCachedPath (path : Path) : OpenFiles :=
  { files with shmCachedHandles := files.shmCachedHandles.filter (·.path ≠ path) }

/-- The file of a handle goes; an unlinked object that was open only there goes too. -/
def removeLinuxFxfsFile (handle : Nat) : OpenFiles :=
  let uncached : OpenFiles := { files with
    shmCachedHandles := files.shmCachedHandles.filter (·.handle ≠ handle) }
  match files.linuxFxfsFile handle with
  | none => uncached
  | some file =>
    let rest := without (·.handle) handle files.fxfsFiles
    { uncached with
      fxfsFiles := rest
      fxfs :=
        if rest.any (·.cursor.objectId = file.cursor.objectId) then files.fxfs
        else
          match files.fxfs.releaseUnlinkedFile file.cursor.objectId with
          | .ok store => store
          | .error _ => files.fxfs }

/-- The last part of `sys_handle_close`: the object goes, and shared memory with it. -/
def sysHandleClose (handle : Nat) : OpenFiles :=
  if (files.compat.find handle).isSome then
    { files with
      compat := files.compat.close handle
      sharedMemory := files.sharedMemory.filter (·.handle ≠ handle) }
  else files

/-! ## Shared memory -/

/-- `register_shared_memory`; identifiers end at the largest `i32`. -/
def registerSharedMemory (handle size : Nat) : Option (Nat × OpenFiles) :=
  let id := files.nextSharedMemoryId
  if id = 0 ∨ 2 ^ 31 - 1 < id then none
  else
    some (id, { files with
        nextSharedMemoryId := id + 1
        sharedMemory := files.sharedMemory ++ [⟨id, handle, size, 1⟩] })

def sharedMemoryId (handle : Nat) : Option Nat :=
  (files.sharedMemory.find? (·.handle = handle)).map (·.id)

/-- `none` where the source returns `false`. -/
def acquireSharedMemoryReference (id : Nat) : Option OpenFiles :=
  (files.sharedMemory.find? (·.id = id)).map fun _ => { files with
    sharedMemory := adjust (·.id) id
      (fun record => { record with references := record.references + 1 }) files.sharedMemory }

/-- The handle of a record that has lost its last reference. -/
def releaseSharedMemoryReference (id : Nat) : Option Nat × OpenFiles :=
  match files.sharedMemory.find? (·.id = id) with
  | none => (none, files)
  | some record =>
    if record.references = 0 then (none, files)
    else if record.references = 1 then
      (some record.handle,
        { files with sharedMemory := without (·.id) id files.sharedMemory })
    else
      (none, { files with
          sharedMemory := adjust (·.id) id
            (fun record => { record with references := record.references - 1 })
            files.sharedMemory })

/-! ## References -/

def acquireOpenDescription (id : Nat) : Option OpenFiles :=
  (files.table.acquireOpenDescription id).map fun table => { files with table := table }

def releaseOpenDescription (id : Nat) : Option LinuxOpenDescription × OpenFiles :=
  let (released, table) := files.table.releaseOpenDescription id
  (released, { files with table := table })

def createOpenDescription (handle : Nat) (objectType : ObjectType) (statusFlags : Nat) :
  Nat × OpenFiles :=
  let (id, table) := files.table.createOpenDescription handle objectType statusFlags
  (id, { files with table := table })

def setDescriptionStatusFlags (id flags : Nat) : OpenFiles :=
  { files with
    table := files.table.openDescriptionMut id fun description => { description with
      statusFlags := (description.statusFlags &&& (usizeMax ^^^ linuxFcntlStatusAllowedFlags)) |||
        (flags &&& linuxFcntlStatusAllowedFlags) } }

def setDescriptionOffset (id offset : Nat) : OpenFiles :=
  { files with
    table := files.table.openDescriptionMut id fun description =>
      { description with offset := offset } }

/-- The first description of an object. -/
def descriptionOfHandle (handle : Nat) : Option Nat :=
  (files.table.descriptions.find? (·.handle = handle)).map (·.id)

end OpenFiles

/-! ## Descriptors -/

/-- What a descriptor number stands for. -/
structure LinuxFdRecord where
  fd : Nat
  descriptionId : Nat
  handle : Nat
  objectType : ObjectType
  statusFlags : Nat
  offset : Nat
  closeOnExec : Bool
  readable : Bool
  writable : Bool
  deriving DecidableEq

def LinuxFdRecord.of (fd : Nat) (closeOnExec : Bool) (description : LinuxOpenDescription) :
  LinuxFdRecord :=
  let access := description.statusFlags &&& linuxOAccmode
  { fd := fd
    descriptionId := description.id
    handle := description.handle
    objectType := description.objectType
    statusFlags := description.statusFlags
    offset := description.offset
    closeOnExec := closeOnExec
    readable := access ≠ linuxOWronly
    writable := access ≠ linuxORdonly }

/-- The search for a free number: each used number is passed over, and at the
largest `usize` the saturating addition of the source passes over it for ever. -/
def searchFd (used : List Nat) : Nat → Nat → Option Nat
  | 0, _ => none
  | fuel + 1, fd =>
    if fd ∈ used then
      if fd = usizeMax then none else searchFd used fuel (fd + 1)
    else some fd

namespace System
variable (system : System)

def processResources (pid : Nat) : Option LinuxProcessResources :=
  system.resources.find? (·.pid = pid)

/-- What `process_resources_mut` is used for; a process without resources gets empty ones. -/
def processResourcesMut (system : System) (pid : Nat)
  (change : LinuxProcessResources → LinuxProcessResources) : System :=
  { system with
    resources :=
      if (system.processResources pid).isSome then
        adjust (·.pid) pid change system.resources
      else system.resources ++ [change (.new pid)] }

def usedFds (pid : Nat) : List Nat :=
  match system.processResources pid with
  | some resources => resources.descriptors.map (·.fd)
  | none => []

/-- The first free number at or above `minFd`, the process's hint and the standard streams. -/
def freeFd (pid minFd : Nat) : Option Nat :=
  let hint := match system.processResources pid with
    | some resources => max (max resources.nextFd minFd) compatFdStart
    | none => max minFd compatFdStart
  searchFd (system.usedFds pid) ((system.usedFds pid).length + 1) hint

/-- `saturating_add(1)`. -/
def followingFd (fd : Nat) : Nat := min (fd + 1) usizeMax

/-- The acquisition's answer is ignored in the source. -/
def acquireIgnored (system : System) (descriptionId : Nat) : System :=
  match system.files.acquireOpenDescription descriptionId with
  | some files => { system with files := files }
  | none => system

/-- A new entry under a number that the search has found. -/
def pushFd (pid fd descriptionId : Nat) (closeOnExec : Bool) : System :=
  (system.acquireIgnored descriptionId).processResourcesMut pid fun resources => { resources with
    nextFd := followingFd fd
    descriptors := resources.descriptors ++ [⟨fd, descriptionId, closeOnExec⟩] }

/-- `none` where the search does not end. -/
def allocFdForDescription (pid descriptionId : Nat) (closeOnExec : Bool) : Option (Nat × System) :=
  (system.freeFd pid 0).map fun fd => (fd, system.pushFd pid fd descriptionId closeOnExec)

def allocFdWithFlags (system : System) (pid handle statusFlags : Nat) (closeOnExec : Bool) :
  Option (Nat × System) :=
  match system.files.descriptionOfHandle handle with
  | some id => system.allocFdForDescription pid id closeOnExec
  | none =>
    let objectType := (system.files.compat.objectType handle).getD .linuxFile
    let (id, files) := system.files.createOpenDescription handle objectType statusFlags
    let created : System := { system with files := files }
    created.allocFdForDescription pid id closeOnExec

def accessFlags (readable writable : Bool) : Nat :=
  match readable, writable with
  | true, true => linuxORdwr
  | false, true => linuxOWronly
  | _, _ => linuxORdonly

def allocFd (pid handle : Nat) (readable writable : Bool) : Option (Nat × System) :=
  system.allocFdWithFlags pid handle (accessFlags readable writable) false

def allocFdFrom (pid minFd handle : Nat) (readable writable : Bool) : Option (Nat × System) := do
  let fd ← system.freeFd pid minFd
  match system.files.descriptionOfHandle handle with
  | none => system.allocFd pid handle readable writable
  | some id => some (fd, system.pushFd pid fd id false)

/-- `none` where the source returns `false`. -/
def installFd (system : System) (pid fd descriptionId : Nat) (closeOnExec : Bool) : Option System :=
  (system.files.acquireOpenDescription descriptionId).map fun files =>
    let acquired : System := { system with files := files }
    acquired.processResourcesMut pid fun resources => { resources with
      descriptors := resources.descriptors ++ [⟨fd, descriptionId, closeOnExec⟩] }

def getFd (pid fd : Nat) : Option LinuxFdRecord := do
  let resources ← system.processResources pid
  let entry ← resources.descriptors.find? (·.fd = fd)
  let description ← system.files.table.openDescription entry.descriptionId
  some (.of fd entry.closeOnExec description)

def removeFdEntry (pid fd : Nat) : Option LinuxDescriptorEntry × System :=
  match system.processResources pid with
  | none => (none, system.processResourcesMut pid id)
  | some resources =>
    match resources.descriptors.find? (·.fd = fd) with
    | none => (none, system)
    | some entry =>
      (some entry, system.processResourcesMut pid fun resources =>
          { resources with
            descriptors := without (·.fd) fd resources.descriptors
            nextFd := min resources.nextFd entry.fd })

def setFdCloseOnExec (pid fd : Nat) (closeOnExec : Bool) : System :=
  system.processResourcesMut pid fun resources => { resources with
    descriptors := adjust (·.fd) fd
      (fun entry => { entry with closeOnExec := closeOnExec }) resources.descriptors }

def closeOnExecFds (pid : Nat) : List Nat :=
  match system.processResources pid with
  | some resources => (resources.descriptors.filter (·.closeOnExec)).map (·.fd)
  | none => []

/-- An entry of the list of objects; `false` where the reference is refused. -/
def registerProcessObject (system : System) (pid handle : Nat) (objectType : ObjectType) :
  Bool × System :=
  let (id, files) := system.files.createOpenDescription handle objectType 0
  match files.acquireOpenDescription id with
  | none => (false, { system with files := files })
  | some acquired =>
    let registered : System := { system with files := acquired }
    (true, registered.processResourcesMut pid fun resources =>
        { resources with objects := resources.objects ++ [id] })

end System
end Smros.Files
