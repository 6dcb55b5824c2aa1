import Smros.Lib.Counted
import Smros.Lib.Keyed
import Smros.ProcessMemory.Frames
import Smros.ProcessMemory.Layout

/-!
# What the process memories share

The frames, the reference-counted records of shared pages, and the answers that the
rest of the kernel gives while a call runs.  The records are sorted by key, so a
binary search for a key is a lookup.
-/

namespace Smros.ProcessMemory
open Lib
open PageTable (pageSize AddressSpaceCoreError FrameWindow)

/-! ## Records -/

structure LinuxSharedPageRecord where
  objectId : Nat
  pageIndex : Nat
  pfn : Nat
  references : Nat
  named : Bool
  deriving DecidableEq

def LinuxSharedPageRecord.key (record : LinuxSharedPageRecord) : SharedKey :=
  toLex (record.objectId, record.pageIndex)

structure LinuxSharedMmapObject where
  objectId : Nat
  fileObjectId : Option Nat
  fileBackingLen : Option Nat
  deriving DecidableEq

structure LinuxSharedPageRuntime where
  pages : List LinuxSharedPageRecord
  mmapObjects : List LinuxSharedMmapObject
  nextMmapObjectId : Nat
  deriving DecidableEq

def linuxSharedReferenceAcquire (references : Nat) : Option Nat :=
  if references ≠ 0 then checkedAdd references 1 else none

def linuxSharedReferenceRelease (references : Nat) : Option Nat :=
  if references = 0 then none else some (references - 1)

def linuxSharedFileIdentityMatches (left right : Nat) : Bool := left != 0 && left == right

namespace LinuxSharedPageRuntime
def new : LinuxSharedPageRuntime := ⟨[], [], 2 ^ 32 - 1⟩

variable (runtime : LinuxSharedPageRuntime)

def find (key : SharedKey) : Option LinuxSharedPageRecord :=
  Keyed.find LinuxSharedPageRecord.key key runtime.pages

def setReferences (key : SharedKey) (references : Nat) : LinuxSharedPageRuntime :=
  { runtime with
    pages := Counted.adjust LinuxSharedPageRecord.key key
      (fun record => { record with references := references }) runtime.pages }

def register (record : LinuxSharedPageRecord) : LinuxSharedPageRuntime :=
  { runtime with pages := Keyed.put LinuxSharedPageRecord.key record runtime.pages }

def forget (key : SharedKey) : LinuxSharedPageRuntime :=
  { runtime with pages := Counted.without LinuxSharedPageRecord.key key runtime.pages }

/-- `linux_shared_file_page_cacheable`: the pages of a mapped file outlive their holders. -/
def fileCacheable (objectId : Nat) : Bool :=
  runtime.mmapObjects.any fun object => object.objectId == objectId && object.fileObjectId.isSome

def hasPageOf (objectId : Nat) : Bool := runtime.pages.any (·.objectId == objectId)

/-- `remove_empty_shared_mmap_object_locked`. -/
def removeEmptyMmapObject (objectId : Nat) : LinuxSharedPageRuntime :=
  if runtime.hasPageOf objectId then runtime
  else { runtime with mmapObjects := runtime.mmapObjects.filter (·.objectId != objectId) }

def retainUsedMmapObjects : LinuxSharedPageRuntime :=
  { runtime with mmapObjects := runtime.mmapObjects.filter (runtime.hasPageOf ·.objectId) }

/-- A cached page: no holder, and kept for its file. -/
def idle (record : LinuxSharedPageRecord) : Bool :=
  record.references == 0 && runtime.fileCacheable record.objectId

end LinuxSharedPageRuntime

/-! ## The kernel a call runs in -/

/--
What the rest of the kernel answers during one call: whether the heap has room, whether
page tables can be made or detached, the page at which mapping a run of pages finds no
table, injected failures, and whether a shared-memory object takes another attachment.
Answers that run out are favourable.
-/
structure Environment where
  reservations : List Bool := []
  tables : List (Option AddressSpaceCoreError) := []
  bulk : Option Nat := none
  failpoints : List Bool := []
  attachments : List Bool := []
  deriving DecidableEq

structure Kernel where
  frames : PageFrameAllocator
  contents : Nat → Nat → UInt8
  shared : LinuxSharedPageRuntime
  environment : Environment

abbrev KernelM := Program Kernel SysError

/-- The next answer, or the favourable one. -/
def nextAnswer {Answer : Type} (favourable : Answer) : List Answer → Answer × List Answer
  | [] => (favourable, [])
  | answer :: rest => (answer, rest)

namespace Kernel
def withShared (kernel : Kernel) (shared : LinuxSharedPageRuntime) : Kernel :=
  { kernel with shared := shared }

/-- `try_reserve`; room for nothing is always there. -/
def reserve (additional : Nat) (kernel : Kernel) : Bool × Kernel :=
  if additional = 0 then (true, kernel)
  else
    let (granted, rest) := nextAnswer true kernel.environment.reservations
    (granted, { kernel with environment := { kernel.environment with reservations := rest } })

/-- A reservation whose refusal ends the call. -/
def tryReserve (additional : Nat) : KernelM Unit := fun kernel =>
  match reserve additional kernel with
  | (true, next) => .ok () next
  | (false, next) => .error .enomem next

/-- `fork_failpoint`. -/
def failpoint (kernel : Kernel) : Bool × Kernel :=
  let (fails, rest) := nextAnswer false kernel.environment.failpoints
  (fails, { kernel with environment := { kernel.environment with failpoints := rest } })

/-! ## Frames -/

def allocFrame : KernelM Nat := fun kernel =>
  match kernel.frames.alloc with
  | none => .error .enomem kernel
  | some (pfn, frames) => .ok pfn { kernel with frames := frames }

variable (pfn : Nat)

def freeFrame (kernel : Kernel) : Kernel := { kernel with frames := kernel.frames.free pfn }

/-- Every use of a frame's memory first asks for its address. -/
def physical : KernelM Unit := do
  let kernel ← get
  let _ ← Program.orThrow .enomem (kernel.frames.window.pfnAddress pfn)
  return ()

/-- Set the bytes of a frame. -/
def fill (bytes : Nat → UInt8) (kernel : Kernel) : Kernel :=
  { kernel with contents := Function.update kernel.contents pfn bytes }

/-- Write bytes to the start of a frame. -/
def writeFrame (bytes : List UInt8) (kernel : Kernel) : Kernel :=
  kernel.fill pfn fun offset => bytes.getD offset (kernel.contents pfn offset)

/-! ## Shared pages -/

/-- `zero_cached_shared_file_tail`: a cached page is cleared past the end of its file. -/
def zeroCachedSharedFileTail (record : LinuxSharedPageRecord) (kernel : Kernel) : Kernel :=
  match kernel.shared.mmapObjects.find? (·.objectId == record.objectId) with
  | none => kernel
  | some object =>
    match object.fileBackingLen, checkedMul record.pageIndex pageSize with
    | some fileBackingLen, some pageStart =>
      match checkedAdd pageStart pageSize with
      | none => kernel
      | some pageEnd =>
        if fileBackingLen ≥ pageEnd then kernel
        else if fileBackingLen - pageStart ≥ pageSize then kernel
        else if kernel.frames.window.Has record.pfn then
          kernel.fill record.pfn fun offset =>
            if offset < fileBackingLen - pageStart then kernel.contents record.pfn offset
            else 0
        else kernel
    | _, _ => kernel

/-- `LINUX_SHARED_FILE_PAGE_CACHE_LIMIT`. -/
def sharedFilePageCacheLimit : Nat := 64

/-- Split off the first idle records, as many as are to be evicted. -/
def evictIdle (cacheable : Nat → Bool) :
  Nat → List LinuxSharedPageRecord → List LinuxSharedPageRecord × List LinuxSharedPageRecord
  | _, [] => ([], [])
  | evict, record :: rest =>
    if evict != 0 && record.references == 0 && cacheable record.objectId then
      let (kept, evicted) := evictIdle cacheable (evict - 1) rest
      (kept, record :: evicted)
    else
      let (kept, evicted) := evictIdle cacheable evict rest
      (record :: kept, evicted)

def freeFrames (pfns : List Nat) (kernel : Kernel) : Kernel :=
  pfns.foldl (fun kernel pfn => kernel.freeFrame pfn) kernel

def pruneCachedSharedFilePages (kernel : Kernel) : Kernel :=
  let cached := kernel.shared.pages.countP kernel.shared.idle
  let evict := cached - sharedFilePageCacheLimit
  if evict = 0 then kernel
  else
    match reserve kernel.shared.mmapObjects.length kernel with
    | (false, next) => next
    | (true, next) =>
      let (kept, evicted) := evictIdle next.shared.fileCacheable evict next.shared.pages
      let pruned := next.freeFrames (evicted.map (·.pfn))
      pruned.withShared { pruned.shared with pages := kept }.retainUsedMmapObjects

/-- `acquire_cached_shared_page`. -/
def acquireCachedSharedPage (objectId pageIndex : Nat) (kernel : Kernel) : Option Nat × Kernel :=
  match kernel.shared.find (toLex (objectId, pageIndex)) with
  | none => (none, kernel)
  | some record =>
    if record.references = 0 then
      if kernel.shared.fileCacheable objectId then
        let zeroed := kernel.zeroCachedSharedFileTail record
        (some record.pfn, zeroed.withShared (zeroed.shared.setReferences record.key 1))
      else (none, kernel)
    else
      match linuxSharedReferenceAcquire record.references with
      | none => (none, kernel)
      | some references =>
        (some record.pfn, kernel.withShared (kernel.shared.setReferences record.key references))

/-- `acquire_or_register_shared_page`. -/
def acquireOrRegisterSharedPage (objectId pageIndex candidatePfn : Nat) (kernel : Kernel) :
  Option Nat × Kernel :=
  match kernel.shared.find (toLex (objectId, pageIndex)) with
  | some _ => kernel.acquireCachedSharedPage objectId pageIndex
  | none =>
    match reserve 1 kernel with
    | (false, next) => (none, next)
    | (true, next) =>
      (some candidatePfn,
        next.withShared (next.shared.register ⟨objectId, pageIndex, candidatePfn, 1, true⟩))

/-- `acquire_shared_page`. -/
def acquireSharedPage (objectId pageIndex : Nat) (kernel : Kernel) : Bool × Kernel :=
  match kernel.shared.find (toLex (objectId, pageIndex)) with
  | none => (false, kernel)
  | some record =>
    match linuxSharedReferenceAcquire record.references with
    | none => (false, kernel)
    | some references =>
      (true, kernel.withShared (kernel.shared.setReferences record.key references))

/-- `release_shared_page`: the frame to free when the last reference goes. -/
def releaseSharedPage (objectId pageIndex : Nat) (kernel : Kernel) : Option Nat × Kernel :=
  match kernel.shared.find (toLex (objectId, pageIndex)) with
  | none => (none, kernel)
  | some record =>
    match linuxSharedReferenceRelease record.references with
    | none => (none, kernel)
    | some references =>
      let released := kernel.withShared (kernel.shared.setReferences record.key references)
      if references ≠ 0 then (none, released)
      else if record.named && kernel.shared.fileCacheable objectId then
        (none, released.pruneCachedSharedFilePages)
      else
        (some record.pfn, released.withShared
            ((released.shared.forget record.key).removeEmptyMmapObject objectId))

def freeBacking (kernel : Kernel) : LinuxPageBacking → Kernel
  | .privatePage pfn => kernel.freeFrame pfn
  | .sharedPage objectId pageIndex _ =>
    match kernel.releaseSharedPage objectId pageIndex with
    | (none, next) => next
    | (some pfn, next) => next.freeFrame pfn

def freeBackings (pages : List LinuxPageBacking) (kernel : Kernel) : Kernel :=
  pages.foldl freeBacking kernel

end Kernel
end Smros.ProcessMemory
