import Smros.Files.Clones

/-!
# System calls on descriptors

The calls of one process, as the dispatcher runs them.  What the kernel reads
from elsewhere is an argument: the path of the program that is running, whether
memory for a longer file is there, whether a user buffer takes the result.
-/

namespace Smros.Files
open Lib Program

/-- `LINUX_MAX_OPEN_FDS`. -/
def linuxMaxOpenFds : Nat := 1024

/-- `usize::MAX - 99`, the directory descriptor for relative paths. -/
def linuxAtFdcwd : Nat := usizeMax - 99

/-- `LINUX_OPEN_ALLOWED_FLAGS`. -/
def linuxOpenAllowedFlags : Nat :=
  linuxOAccmode ||| linuxOCreat ||| linuxOExcl ||| linuxOTrunc ||| linuxOAppend |||
    linuxONonblock ||| linuxOLargefile ||| linuxODirectory ||| linuxONofollow ||| linuxOCloexec

/-- `LINUX_PIPE_ALLOWED_FLAGS`. -/
def linuxPipeAllowedFlags : Nat := linuxOCloexec ||| linuxONonblock

/-- `flags & !allowed == 0`. -/
def flagsWithin (flags allowed : Nat) : Bool := flags &&& (usizeMax ^^^ allowed) = 0

/-- `flags & mask != 0`. -/
def hasFlag (flags mask : Nat) : Bool := flags &&& mask ≠ 0

/-- `LINUX_SHM_ROOT_PATH`. -/
def linuxShmRootPath : Path := ['/', 'd', 'e', 'v', '/', 's', 'h', 'm', '/']

/-- `LINUX_NAME_MAX_BYTES`. -/
def linuxNameMaxBytes : Nat := 255

variable (path : Path)

def isShmPath : Bool := linuxShmRootPath.isPrefixOf path

def linuxPathIsContainerPseudoFile : Bool :=
  ['/', 's', 'y', 's', '/', 'f', 's', '/', 'c', 'g', 'r', 'o', 'u', 'p', '/'].isPrefixOf path ||
    ['/', 'p', 'r', 'o', 'c', '/', 's', 'e', 'l', 'f', '/', 'a', 't', 't', 'r', '/'].isPrefixOf path

def linuxShmPathError : Option SysError :=
  if isShmPath path then
    let name := path.drop linuxShmRootPath.length
    if name = [] ∨ '/' ∈ name then some .einval
    else if linuxNameMaxBytes < name.foldl (· + ·.utf8Size) 0 then some .enametoolong
    else none
  else none

def linuxModeAccessAllowed (mode ownerUid ownerGid effectiveUid effectiveGid : Nat)
  (read write : Bool) : Bool :=
  if effectiveUid = 0 then true
  else
    let permissionBits :=
      if effectiveUid = ownerUid then (mode >>> 6) &&& 0o7
      else if effectiveGid = ownerGid then (mode >>> 3) &&& 0o7
      else mode &&& 0o7
    (!read || hasFlag permissionBits 0o4) && (!write || hasFlag permissionBits 0o2)

def linuxCreationMode (mode umask : Nat) : Nat :=
  0o100000 ||| ((mode &&& 0o777) &&& (usizeMax ^^^ (umask &&& 0o777)))

def linuxFxfsError : FxfsError → SysError
  | .invalidPath => .einval
  | .notFound => .enoent
  | .alreadyExists => .eexist
  | .noSpace => .enomem
  | .notDirectory => .enotdir
  | .isDirectory => .eisdir
  | .notFile => .eisdir
  | .invalidOffset => .einval
  | .storageCorrupt => .eio

/-- `map_err` of a store operation. -/
def orErrno {State Error Value : Type} (error : Error → SysError) (result : Except Error Value) :
  Program State Failure Value :=
  match result with
  | .ok value => pure value
  | .error reason => throw (.errno (error reason))

/-- A check that answers with an error number. -/
def check {State : Type} : Option SysError → Program State Failure Unit
  | none => pure ()
  | some error => throw (.errno error)

/-- A part of a call that works on the file store. -/
def onFxfs {Value : Type} (program : Program FxfsState Failure Value) : SystemM Value :=
  zoom (fun system => system.files.fxfs)
    (fun system fxfs => { system with files := { system.files with fxfs := fxfs } }) program

/-- A number for a new descriptor; a search that does not end keeps the caller. -/
def allocating (alloc : System → Option (Nat × System)) : SystemM Nat := do
  let system ← get
  let (fd, next) ← orThrow .waits (alloc system)
  set next
  pure fd

def createObject (objectType : ObjectType) : SystemM Nat := do
  let system ← get
  let (handle, compat) ← orThrow (.errno .enomem) (system.files.compat.create objectType)
  set { system with files := { system.files with compat := compat } }
  pure handle

/-! ## Opening -/

variable (system : System)

def linuxFdIsDir (pid fd : Nat) : Bool :=
  match system.getFd pid fd with
  | some record => system.files.compat.objectType record.handle = some .linuxDir
  | none => false

def linuxFdKnown (pid fd : Nat) : Bool := fd ≤ 2 || (system.getFd pid fd).isSome

/-- Effective identifiers and the mask of a process, or the defaults. -/
def linuxShmCurrentCredentials (pid : Nat) : LinuxProcessResources :=
  (system.processResources pid).getD (.new pid)

def linuxShmCheckOpenPermissions (pid : Nat) (path : Path) (accessMode : Nat) : Option SysError :=
  match system.files.fxfs.attrs path with
  | .error _ => none
  | .ok attrs =>
    let credentials := linuxShmCurrentCredentials system pid
    if linuxModeAccessAllowed attrs.mode attrs.uid attrs.gid credentials.effectiveUid
        credentials.effectiveGid (accessMode ≠ linuxOWronly) (accessMode ≠ linuxORdonly) then none
    else some .eacces

def linuxPathVisible (store : FxfsState) (path : Path) (execPath : Option Path) : Bool :=
  store.contains path || linuxPathIsContainerPseudoFile path || execPath = some path

def openObjectType (flags : Nat) : ObjectType :=
  if hasFlag flags linuxODirectory then .linuxDir else .linuxFile

/-- The handle that an earlier open of the path has left. -/
def cachedHandle (path : Path) : Option LinuxShmCachedHandle :=
  if isShmPath path then system.files.linuxShmCachedHandle path else none

def createExclusive (flags : Nat) : Bool :=
  flags &&& (linuxOCreat ||| linuxOExcl) = linuxOCreat ||| linuxOExcl

/-- The checks of `sys_openat` before anything changes. -/
def openRefused (pid dirfd : Nat) (path : Path) (flags : Nat) : Option SysError :=
  let accessMode := flags &&& linuxOAccmode
  let cached := cachedHandle system path
  if dirfd ≠ linuxAtFdcwd ∧ ¬ dirfd ≤ 2 ∧ ¬ linuxFdIsDir system pid dirfd then some .enodev
  else if ¬ (accessMode = linuxORdonly ∨ accessMode = linuxOWronly ∨ accessMode = linuxORdwr) ∨
      ¬ flagsWithin flags linuxOpenAllowedFlags then some .einval
  else if (linuxShmPathError path).isSome then linuxShmPathError path
  else if cached.isSome ∧ createExclusive flags then some .eexist
  else if isShmPath path ∧ (cached.isSome ∨ system.files.fxfs.contains path) ∧
      (linuxShmCheckOpenPermissions system pid path accessMode).isSome then
    linuxShmCheckOpenPermissions system pid path accessMode
  else if cached.isSome ∧ hasFlag flags linuxOTrunc ∧ accessMode = linuxORdonly then some .einval
  else none

/-- `O_TRUNC` on a path that is in the cache. -/
def truncateCached (flags : Nat) (memory : Bool) : Program FxfsState Failure Unit := do
  let store ← get
  if hasFlag flags linuxOTrunc then do
    let written ← orErrno linuxFxfsError (store.writeFile path [] memory)
    set written
  else pure ()

/-- The checks of `sys_openat` after that. -/
def openUnavailable (pid : Nat) (path : Path) (flags : Nat)
  (execPath : Option Path) : Option SysError :=
  if openObjectType flags = .linuxFile ∧ flags &&& linuxOAccmode = linuxORdonly ∧
      ¬ hasFlag flags linuxOCreat ∧ ¬ linuxPathVisible system.files.fxfs path execPath then
    some .enoent
  else if linuxMaxOpenFds ≤ (system.usedFds pid).length then some .emfile
  else none

/-- The first part of `linux_prepare_fxfs_cursor`: the file is there afterwards,
unless the answer is `false` (a visible path outside the store). -/
def prepareFxfsFile (flags : Nat) (execPath : Option Path) (memory : Bool) :
  Program FxfsState Failure Bool := do
  let store ← get
  let create := hasFlag flags linuxOCreat
  if store.contains path then
    if create ∧ hasFlag flags linuxOExcl then throw (.errno .eexist)
    else if hasFlag flags linuxOTrunc then do
      let written ← orErrno linuxFxfsError (store.writeFile path [] memory)
      set written
      pure true
    else pure true
  else if create then do
    let written ← orErrno linuxFxfsError (store.writeFile path [] memory)
    set written
    pure true
  else if linuxPathVisible store path execPath then pure false
  else throw (.errno .enoent)

/-- The second part: a cursor at the start, or at the end for `O_APPEND`. -/
def startCursor (flags : Nat) : Program FxfsState Failure FxfsCursor := do
  let store ← get
  let cursor ← orErrno linuxFxfsError (store.openCursor path)
  if hasFlag flags linuxOAppend then do
    let attrs ← orErrno linuxFxfsError (store.attrs path)
    orErrno linuxFxfsError (store.seekCursor cursor attrs.size)
  else pure cursor

def linuxPrepareFxfsCursor (objectType : ObjectType) (flags : Nat)
  (execPath : Option Path) (memory : Bool) : Program FxfsState Failure (Option FxfsCursor) := do
  if objectType ≠ .linuxFile then pure none
  else
    let present ← prepareFxfsFile path flags execPath memory
    if present then some <$> startCursor path flags else pure none

def linuxApplyCreationAttributes (credentials : LinuxProcessResources) (path : Path) (mode : Nat) :
  Program FxfsState Failure Unit := do
  let store ← get
  let attrs ← orErrno linuxFxfsError (store.attrs path)
  let created := (attrs.mode &&& 0o170000) ||| (linuxCreationMode mode credentials.umask &&& 0o777)
  let changed ← orErrno linuxFxfsError
    (store.setAttrs path created (credentials.effectiveUid % 2 ^ 32)
      (credentials.effectiveGid % 2 ^ 32))
  set changed

def openStatusFlags (flags : Nat) : Nat :=
  flags &&& (linuxOAccmode ||| linuxFcntlStatusAllowedFlags)

/-- An open that finds the path in the cache: the description of the first
open is shared, and its cursor goes back to where the cache has it. -/
def openCached (pid : Nat) (path : Path) (flags : Nat) (cached : LinuxShmCachedHandle) :
  SystemM Nat := do
  let fd ← allocating fun system =>
    system.allocFdForDescription pid cached.descriptionId (hasFlag flags linuxOCloexec)
  onFiles (modify fun files => files.bindLinuxFxfsFile cached.handle path cached.cursor)
  pure fd

/-- The part of `linux_prepare_fxfs_cursor` and `linux_apply_creation_attributes`. -/
def prepareFile (pid : Nat) (path : Path) (flags mode : Nat) (execPath : Option Path)
  (memory : Bool) : SystemM (Option FxfsCursor) := do
  let system ← get
  let cursor ← onFxfs (linuxPrepareFxfsCursor path (openObjectType flags) flags execPath memory)
  if openObjectType flags = .linuxFile ∧ ¬ system.files.fxfs.contains path ∧
      hasFlag flags linuxOCreat then
    onFxfs (linuxApplyCreationAttributes (linuxShmCurrentCredentials system pid) path mode)
  else pure ()
  pure cursor

/-- The new description takes its cursor; a path under `/dev/shm/` is cached. -/
def bindOpened (pid fd handle : Nat) (path : Path) (cursor : FxfsCursor) : SystemM Nat := do
  onFiles (modify fun files => files.bindLinuxFxfsFile handle path cursor)
  if isShmPath path then do
    let system ← get
    let record ← orThrow (.errno .enodev) (system.getFd pid fd)
    onFiles (modify fun files => files.cacheLinuxShmHandle path handle record.descriptionId cursor)
    pure fd
  else pure fd

/-- An open that does not find the path in the cache. -/
def openFresh (pid : Nat) (path : Path) (flags mode : Nat) (execPath : Option Path)
  (memory : Bool) : SystemM Nat := do
  let cursor ← prepareFile pid path flags mode execPath memory
  let handle ← createObject (openObjectType flags)
  let fd ← allocating fun system =>
    system.allocFdWithFlags pid handle (openStatusFlags flags) (hasFlag flags linuxOCloexec)
  match cursor with
  | none => pure fd
  | some cursor => bindOpened pid fd handle path cursor

def sysOpenat (pid dirfd : Nat) (path : Path) (flags mode : Nat) (execPath : Option Path)
  (memory : Bool) : SystemM Nat := do
  let system ← get
  check (openRefused system pid dirfd path flags)
  match cachedHandle system path with
  | some cached => do
      onFxfs (truncateCached path flags memory)
      let truncated ← get
      check (openUnavailable truncated pid path flags execPath)
      openCached pid path flags cached
  | none => do
      check (openUnavailable system pid path flags execPath)
      openFresh pid path flags mode execPath memory

/-! ## Other new descriptors and objects -/

/-- A descriptor for a new object of one kind. -/
def sysCreate (pid : Nat) (objectType : ObjectType) (flags allowed : Nat) : SystemM Nat := do
  if flagsWithin flags allowed then do
    let handle ← createObject objectType
    allocating fun system => system.allocFd pid handle true true
  else throw (.errno .einval)

def sysEventfd2 (pid flags : Nat) : SystemM Nat :=
  sysCreate pid .eventFd flags (0x1 ||| 0x800 ||| 0x80000)

def sysEpollCreate1 (pid flags : Nat) : SystemM Nat := sysCreate pid .port flags 0x80000

def sysMsgget (pid : Nat) : SystemM Nat := do
  let handle ← createObject .messageQueue
  let system ← get
  let (registered, next) := system.registerProcessObject pid handle .messageQueue
  set next
  if registered then pure handle
  else do
    onFiles (modify fun files => { files with compat := files.compat.close handle })
    throw (.errno .enomem)

/-- `LINUX_MAX_IPC_BYTES`. -/
def linuxMaxIpcBytes : Nat := 65536

/-- `roundup_pages(size.max(PAGE_SIZE))`. -/
def sharedMemorySize (size : Nat) : Nat := (max size 4096 + 4095) / 4096 * 4096

/-- The record of a new shared memory object and its entry in the list of the process. -/
def registerShared (pid handle size : Nat) : SystemM Nat := do
  let system ← get
  match system.files.registerSharedMemory handle size with
  | none => do
      onFiles (modify fun files => { files with compat := files.compat.close handle })
      throw (.errno .enomem)
  | some (id, files) => do
      let shared : System := { system with files := files }
      let (registered, next) := shared.registerProcessObject pid handle .sharedMemory
      set next
      if registered then pure id
      else do
        onFiles (modify fun files =>
          let released := (files.releaseSharedMemoryReference id).2
          { released with compat := released.compat.close handle })
        throw (.errno .enomem)

def sysShmget (pid size : Nat) : SystemM Nat := do
  if size = 0 ∨ linuxMaxIpcBytes < size then throw (.errno .einval)
  else
    let handle ← createObject .sharedMemory
    onFiles (modify fun files => { files with compat := files.compat.setProperty handle size })
    registerShared pid handle (sharedMemorySize size)

/-! ## Closing and duplicating -/

/-- The reference of a closed descriptor goes; the object goes with the last one. -/
def OpenFiles.releaseAndClose (files : OpenFiles) (id : Nat) : OpenFiles :=
  match files.releaseOpenDescription id with
  | (none, rest) => rest
  | (some description, rest) =>
    (rest.removeLinuxFxfsFile description.handle).sysHandleClose description.handle

/-- `close_linux_fd_for_current_process`; `false` where the number is not in use. -/
def closeLinuxFd (system : System) (pid fd : Nat) : Bool × System :=
  match system.getFd pid fd with
  | none => (false, system)
  | some _ =>
    match system.removeFdEntry pid fd with
    | (none, next) => (false, next)
    | (some entry, next) =>
      (true, { next with files := next.files.releaseAndClose entry.descriptionId })

def sysClose (pid fd : Nat) : SystemM Nat := do
  let system ← get
  let (closed, next) := closeLinuxFd system pid fd
  set next
  if closed ∨ fd ≤ 2 then pure 0 else throw (.errno .ebadf)

def sysPipe2 (pid flags : Nat) (delivered : Bool) : SystemM Nat := do
  if ¬ flagsWithin flags linuxPipeAllowedFlags then throw (.errno .einval)
  else
    let system ← get
    let (pair, compat) := system.files.compat.createPair .linuxPipe
    set { system with files := { system.files with compat := compat } }
    let (readHandle, writeHandle) ← orThrow (.errno .enomem) pair
    let readFd ← allocating fun system =>
      system.allocFdWithFlags pid readHandle (linuxORdonly ||| (flags &&& linuxONonblock))
        (hasFlag flags linuxOCloexec)
    let writeFd ← allocating fun system =>
      system.allocFdWithFlags pid writeHandle (linuxOWronly ||| (flags &&& linuxONonblock))
        (hasFlag flags linuxOCloexec)
    if delivered then pure 0
    else do
      modify fun system => (closeLinuxFd (closeLinuxFd system pid readFd).2 pid writeFd).2
      throw (.errno .efault)

def sysDup (pid fd : Nat) : SystemM Nat := do
  let system ← get
  let record ← orThrow (.errno .ebusy) (system.getFd pid fd)
  allocating fun system => system.allocFd pid record.handle record.readable record.writable

def sysDup3 (pid fd newFd flags : Nat) : SystemM Nat := do
  if fd = newFd ∨ ¬ flagsWithin flags linuxOCloexec then throw (.errno .einval)
  else
    let system ← get
    let record ← orThrow (.errno .ebusy) (system.getFd pid fd)
    let closed := (closeLinuxFd system pid newFd).2
    set closed
    let next ← orThrow (.errno .enomem)
      (closed.installFd pid newFd record.descriptionId (hasFlag flags linuxOCloexec))
    set next
    pure newFd

def sysDup2 (pid fd newFd : Nat) : SystemM Nat := do
  if fd = newFd then
    let system ← get
    if linuxFdKnown system pid fd then pure newFd else throw (.errno .enodev)
  else sysDup3 pid fd newFd 0

/-- `F_DUPFD` and `F_DUPFD_CLOEXEC`. -/
def fcntlDupfd (pid fd minFd : Nat) (closeOnExec : Bool) : SystemM Nat := do
  let system ← get
  let record ← orThrow (.errno .ebadf) (system.getFd pid fd)
  let duplicated ← allocating fun system =>
    system.allocFdFrom pid minFd record.handle record.readable record.writable
  if closeOnExec then do
    modify fun system => system.setFdCloseOnExec pid duplicated true
    pure duplicated
  else pure duplicated

/-- `F_SETFD`. -/
def fcntlSetfd (pid fd argument : Nat) : SystemM Nat := do
  let system ← get
  if ¬ linuxFdKnown system pid fd then throw (.errno .ebadf)
  else if ¬ flagsWithin argument 1 then throw (.errno .einval)
  else do
    set (system.setFdCloseOnExec pid fd (hasFlag argument 1))
    pure 0

/-- `F_SETFL`. -/
def fcntlSetfl (pid fd argument : Nat) : SystemM Nat := do
  let system ← get
  if ¬ linuxFdKnown system pid fd then throw (.errno .ebadf)
  else if ¬ flagsWithin argument linuxFcntlStatusAllowedFlags then throw (.errno .einval)
  else
    let record ← orThrow (.errno .ebadf) (system.getFd pid fd)
    onFiles (modify fun files => files.setDescriptionStatusFlags record.descriptionId argument)
    pure 0

/-- `close_linux_close_on_exec_fds`. -/
def closeLinuxCloseOnExecFds (system : System) (pid : Nat) : System :=
  (system.closeOnExecFds pid).foldl (fun system fd => (closeLinuxFd system pid fd).2) system

/-! ## Reading and writing -/

variable (record : LinuxFdRecord)
/-- The cursor a write starts from: `O_APPEND` moves it to the end first. -/
def appendCursor (file : LinuxFxfsFileRecord) : FilesM FxfsCursor := do
  let files ← get
  if hasFlag record.statusFlags linuxOAppend then do
    let attrs ← orErrno linuxFxfsError (files.fxfs.cursorAttrs file.cursor)
    let cursor ← orErrno (fun _ => .einval) (files.fxfs.positionCursor file.cursor attrs.size)
    set (files.setCursor record.handle cursor)
    pure cursor
  else pure file.cursor

/-- A write to the file under a handle. -/
def writeFileBytes (file : LinuxFxfsFileRecord) (bytes : List UInt8) (memory : Bool) :
  FilesM Nat := do
  let cursor ← appendCursor record file
  let files ← get
  let (moved, fxfs) ← orErrno (fun _ => .eio) (files.fxfs.cursorWrite cursor bytes memory)
  let written : OpenFiles := { files.setCursor record.handle moved with fxfs := fxfs }
  set (written.setDescriptionOffset record.descriptionId moved.offset)
  pure bytes.length

/-- What a writable descriptor does with the bytes; `socket` is what the socket table answers
where it has the handle. -/
def writeRecord (bytes : List UInt8) (socket : Option (Except ZxError Nat)) (memory : Bool) :
    FilesM Nat := do
  let files ← get
  match socket, files.linuxFxfsFile record.handle with
  | some answer, _ => orErrno (fun _ => .eio) answer
  | none, some file => writeFileBytes record file bytes memory
  | none, none => do
      let (written, compat) ← orErrno (fun _ => .eio) (files.compat.writeBytes record.handle bytes)
      set { files with compat := compat }
      pure written

/-- Descriptors 1 and 2 write to the serial port, whatever the table says. -/
def linuxFdWriteBytes (pid fd : Nat) (bytes : List UInt8) (socket : Option (Except ZxError Nat))
    (memory : Bool) : SystemM Nat := do
  if fd = 1 ∨ fd = 2 then do
    modify fun system => { system with serial := system.serial ++ bytes }
    pure bytes.length
  else
    let system ← get
    let record ← orThrow (.errno .ebadf) ((system.getFd pid fd).filter (·.writable))
    onFiles (writeRecord record bytes socket memory)

/-- What a readable descriptor reads.  A pipe without data keeps the caller
waiting, unless it does not block, its peer is closed or the kernel makes the call for a
process (`kernel_dispatch_active`).  A socket answers for itself. -/
def readRecord (record : LinuxFdRecord) (len : Nat) (socket : Option (Except ZxError (List UInt8)))
    (dispatch : Bool) : FilesM (List UInt8) := do
  let files ← get
  match socket, files.linuxFxfsFile record.handle with
  | some (.ok bytes), _ => pure bytes
  | some (.error .errShouldWait), _ => pure []
  | some (.error _), _ => throw (.errno .eio)
  | none, some file => do
      let (bytes, cursor) ← orErrno (fun _ => .eio) (files.fxfs.cursorRead file.cursor len)
      set ((files.setCursor record.handle cursor).setDescriptionOffset record.descriptionId
        cursor.offset)
      pure bytes
  | none, none =>
    match files.compat.readBytes record.handle len with
    | .ok (bytes, compat) => do
        set { files with compat := compat }
        pure bytes
    | .error .errShouldWait =>
      if record.objectType = .linuxPipe then
        if hasFlag record.statusFlags linuxONonblock ∨ dispatch then throw (.errno .eagain)
        else throw .waits
      else pure []
    | .error .errPeerClosed =>
      if record.objectType = .linuxPipe then pure [] else throw (.errno .eio)
    | .error _ => throw (.errno .eio)

def linuxFdReadBytes (pid fd len : Nat) (socket : Option (Except ZxError (List UInt8)))
    (dispatch : Bool) : SystemM (List UInt8) := do
  let system ← get
  let record ← orThrow (.errno .ebadf) ((system.getFd pid fd).filter (·.readable))
  onFiles (readRecord record len socket dispatch)

/-- Bytes that were read and not delivered go back. -/
def linuxFdRollbackReadBytes (pid fd : Nat) (bytes : List UInt8) : SystemM Nat := do
  let system ← get
  let record ← orThrow (.errno .ebadf) ((system.getFd pid fd).filter (·.readable))
  match system.files.linuxFxfsFile record.handle with
  | some file =>
    if file.cursor.offset < bytes.length then throw (.errno .eio)
    else do
      let cursor ← orErrno (fun _ => .eio)
        (system.files.fxfs.seekCursor file.cursor (file.cursor.offset - bytes.length))
      onFiles (modify fun files => files.setCursor record.handle cursor)
      pure 0
  | none => do
      let compat ← orThrow (.errno .eio) (system.files.compat.restoreReadBytes record.handle bytes)
      onFiles (modify fun files => { files with compat := compat })
      pure 0

/-- `LINUX_SEEK_MAX_WHENCE`. -/
def linuxSeekMaxWhence : Nat := 5

/-- `checked_add` and `checked_sub` on `usize`; the offset is an `i64`. -/
def linuxLseekTarget (base : Nat) (offset : Int) : Option Nat :=
  let target := (base : Int) + offset
  if offset = -(2 ^ 63) ∨ target < 0 ∨ (usizeMax : Int) < target then none else some target.toNat

def lseekBase (files : OpenFiles) (file : LinuxFxfsFileRecord) (whence : Nat) :
  Except SysError Nat :=
  match whence with
  | 0 => .ok 0
  | 1 => .ok file.cursor.offset
  | 2 =>
    match files.fxfs.attrs file.path with
    | .ok attrs => .ok attrs.size
    | .error _ => .error .eio
  | _ => .error .einval

def seekRecord (record : LinuxFdRecord) (offset : Int) (whence : Nat) : FilesM Nat := do
  let files ← get
  match files.linuxFxfsFile record.handle with
  | some file => do
      let base ← orErrno id (lseekBase files file whence)
      let target ← orThrow (.errno .einval) (linuxLseekTarget base offset)
      let cursor ← orErrno (fun _ => .einval) (files.fxfs.seekCursor file.cursor target)
      set ((files.setCursor record.handle cursor).setDescriptionOffset record.descriptionId target)
      pure target
  | none => pure ((linuxLseekTarget 0 offset).getD 0)

def sysLseek (pid fd : Nat) (offset : Int) (whence : Nat) : SystemM Nat := do
  if linuxSeekMaxWhence < whence then throw (.errno .einval)
  else
    let system ← get
    let record ← orThrow (.errno .ebadf) (system.getFd pid fd)
    onFiles (seekRecord record offset whence)

/-- A read at a position works on a copy of the cursor. -/
def sysPread (pid fd len offset : Nat) (socket : Option (Except ZxError (List UInt8)))
    (dispatch : Bool) : SystemM (List UInt8) := do
  let system ← get
  let record ← orThrow (.errno .ebadf) ((system.getFd pid fd).filter (·.readable))
  match system.files.linuxFxfsFile record.handle with
  | some file => do
      let cursor ← orErrno (fun _ => .einval) (system.files.fxfs.positionCursor file.cursor offset)
      let (bytes, _) ← orErrno (fun _ => .eio) (system.files.fxfs.cursorRead cursor len)
      pure bytes
  | none => linuxFdReadBytes pid fd len socket dispatch

/-- The copy of the cursor that a positioned write uses. -/
def pwriteCursor (files : OpenFiles) (record : LinuxFdRecord) (file : LinuxFxfsFileRecord)
  (offset : Nat) : Except SysError FxfsCursor :=
  if hasFlag record.statusFlags linuxOAppend then
    match files.fxfs.cursorAttrs file.cursor with
    | .error error => .error (linuxFxfsError error)
    | .ok attrs =>
      match files.fxfs.positionCursor file.cursor attrs.size with
      | .ok cursor => .ok cursor
      | .error _ => .error .einval
  else
    match files.fxfs.positionCursor file.cursor offset with
    | .ok cursor => .ok cursor
    | .error _ => .error .einval

def sysPwrite (pid fd : Nat) (bytes : List UInt8) (offset : Nat)
    (socket : Option (Except ZxError Nat)) (memory : Bool) : SystemM Nat := do
  let system ← get
  let record ← orThrow (.errno .ebadf) ((system.getFd pid fd).filter (·.writable))
  match system.files.linuxFxfsFile record.handle with
  | some file => do
      let cursor ← orErrno id (pwriteCursor system.files record file offset)
      let (_, fxfs) ← orErrno (fun _ => .eio) (system.files.fxfs.cursorWrite cursor bytes memory)
      onFxfs (set fxfs)
      pure bytes.length
  | none => linuxFdWriteBytes pid fd bytes socket memory

def sysFtruncate (pid fd len : Nat) (memory : Bool) : SystemM Nat := do
  let system ← get
  let record ← orThrow (.errno .ebadf) (system.getFd pid fd)
  let file := system.files.linuxFxfsFile record.handle
  if ¬ record.writable then
    if record.objectType = .linuxFile ∧ (file.any fun file => isShmPath file.path) then
      throw (.errno .einval)
    else throw (.errno .ebadf)
  else if 2 ^ 63 - 1 < len then throw (.errno .einval)
  else
    match record.objectType with
    | .linuxFile => do
        let file ← orThrow (.errno .enodev) file
        let fxfs ← orErrno linuxFxfsError (system.files.fxfs.truncateCursor file.cursor len memory)
        onFxfs (set fxfs)
        pure 0
    | .memFd | .sharedMemory =>
      if (system.files.compat.find record.handle).isSome then do
        onFiles (modify fun files =>
          { files with compat := files.compat.setProperty record.handle len })
        pure 0
      else throw (.errno .enodev)
    | _ => throw (.errno .einval)

/-! ## Names, identities, exit -/

/-- `/dev/shm`, whose permissions guard unlinking below it. -/
def linuxShmDirectory : Path := linuxShmRootPath.dropLast

def linuxShmCheckUnlinkPermissions (system : System) (pid : Nat) (path : Path) : Option SysError :=
  if isShmPath path then
    match system.files.fxfs.attrs linuxShmDirectory with
    | .error error => some (linuxFxfsError error)
    | .ok attrs =>
      let credentials := linuxShmCurrentCredentials system pid
      if linuxModeAccessAllowed attrs.mode attrs.uid attrs.gid credentials.effectiveUid
          credentials.effectiveGid false true then none
      else some .eacces
  else none

def sysUnlinkat (pid : Nat) (path : Path) : SystemM Nat := do
  let system ← get
  check (linuxShmPathError path)
  check (linuxShmCheckUnlinkPermissions system pid path)
  let (objectId, fxfs) ← orErrno linuxFxfsError (system.files.fxfs.unlinkFile path)
  onFxfs (set fxfs)
  onFiles (modify fun files =>
    if isShmPath path then files.removeLinuxShmCachedPath path else files)
  if system.files.fxfsFiles.any (·.cursor.objectId = objectId) then pure 0
  else do
    let released ← orErrno linuxFxfsError (fxfs.releaseUnlinkedFile objectId)
    onFxfs (set released)
    pure 0

def sysSetuid (pid uid : Nat) : SystemM Nat := do
  modify fun system =>
    system.processResourcesMut pid fun resources => { resources with effectiveUid := uid }
  pure 0

def sysSetgid (pid gid : Nat) : SystemM Nat := do
  modify fun system =>
    system.processResourcesMut pid fun resources => { resources with effectiveGid := gid }
  pure 0

def sysUmask (pid mask : Nat) : SystemM Nat := do
  let system ← get
  modify fun system =>
    system.processResourcesMut pid fun resources => { resources with umask := mask &&& 0o777 }
  pure (linuxShmCurrentCredentials system pid).umask

/-! ## The calls together -/

inductive Call where
  | openat (pid dirfd : Nat) (path : Path) (flags mode : Nat) (execPath : Option Path)
      (memory : Bool)
  | eventfd2 (pid flags : Nat)
  | epollCreate1 (pid flags : Nat)
  | pipe2 (pid flags : Nat) (delivered : Bool)
  | msgget (pid : Nat)
  | shmget (pid size : Nat)
  | close (pid fd : Nat)
  | dup (pid fd : Nat)
  | dup2 (pid fd newFd : Nat)
  | dup3 (pid fd newFd flags : Nat)
  | dupfd (pid fd minFd : Nat) (closeOnExec : Bool)
  | setfd (pid fd argument : Nat)
  | setfl (pid fd argument : Nat)
  | read (pid fd len : Nat) (socket : Option (Except ZxError (List UInt8))) (dispatch : Bool)
  | rollbackRead (pid fd : Nat) (bytes : List UInt8)
  | write (pid fd : Nat) (bytes : List UInt8) (socket : Option (Except ZxError Nat)) (memory : Bool)
  | lseek (pid fd : Nat) (offset : Int) (whence : Nat)
  | pread (pid fd len offset : Nat) (socket : Option (Except ZxError (List UInt8)))
      (dispatch : Bool)
  | pwrite (pid fd : Nat) (bytes : List UInt8) (offset : Nat) (socket : Option (Except ZxError Nat))
      (memory : Bool)
  | ftruncate (pid fd len : Nat) (memory : Bool)
  | unlinkat (pid : Nat) (path : Path)
  | setuid (pid uid : Nat)
  | setgid (pid gid : Nat)
  | umask (pid mask : Nat)
  | reserveFork (parentPid : Nat) (failpoints : List Bool) (memory attachments : Bool)
  | commitFork (index childPid : Nat) (room : Bool)
  | rollbackReserved (index : Nat)
  | rollbackInstalled (pid : Nat) (asserted : Bool)
  | exec (pid : Nat)
  | exit (pid : Nat)
  deriving DecidableEq

/-- One call; a read answers with the number of its bytes. -/
def serve : Call → SystemM Nat
  | .openat pid dirfd path flags mode execPath memory =>
    sysOpenat pid dirfd path flags mode execPath memory
  | .eventfd2 pid flags => sysEventfd2 pid flags
  | .epollCreate1 pid flags => sysEpollCreate1 pid flags
  | .pipe2 pid flags delivered => sysPipe2 pid flags delivered
  | .msgget pid => sysMsgget pid
  | .shmget pid size => sysShmget pid size
  | .close pid fd => sysClose pid fd
  | .dup pid fd => sysDup pid fd
  | .dup2 pid fd newFd => sysDup2 pid fd newFd
  | .dup3 pid fd newFd flags => sysDup3 pid fd newFd flags
  | .dupfd pid fd minFd closeOnExec => fcntlDupfd pid fd minFd closeOnExec
  | .setfd pid fd argument => fcntlSetfd pid fd argument
  | .setfl pid fd argument => fcntlSetfl pid fd argument
  | .read pid fd len socket dispatch =>
    List.length <$> linuxFdReadBytes pid fd len socket dispatch
  | .rollbackRead pid fd bytes => linuxFdRollbackReadBytes pid fd bytes
  | .write pid fd bytes socket memory => linuxFdWriteBytes pid fd bytes socket memory
  | .lseek pid fd offset whence => sysLseek pid fd offset whence
  | .pread pid fd len offset socket dispatch =>
    List.length <$> sysPread pid fd len offset socket dispatch
  | .pwrite pid fd bytes offset socket memory => sysPwrite pid fd bytes offset socket memory
  | .ftruncate pid fd len memory => sysFtruncate pid fd len memory
  | .unlinkat pid path => sysUnlinkat pid path
  | .setuid pid uid => sysSetuid pid uid
  | .setgid pid gid => sysSetgid pid gid
  | .umask pid mask => sysUmask pid mask
  | .reserveFork parentPid failpoints memory attachments =>
    reserveResourceClone parentPid failpoints memory attachments
  | .commitFork index childPid room => commitResourceClone index childPid room
  | .rollbackReserved index => rollbackReservedResources index
  | .rollbackInstalled pid asserted => rollbackInstalledResources pid asserted
  | .exec pid => do
      modify fun system => closeLinuxCloseOnExecFds system pid
      pure 0
  | .exit pid => do
      modify fun system => releaseLinuxProcessResources system pid
      pure 0

/-- The state a call leaves: with a result, with an error number or at an
assertion that fails.  A call that does not return is no step. -/
def next (system : System) (call : Call) : System :=
  match serve call system with
  | .ok _ after => after
  | .error .waits _ => system
  | .error _ after => after

end Smros.Files
