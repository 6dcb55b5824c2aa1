import Smros.ProcessMemory.Kernel

/-!
# Getting and giving back pages

The functions that obtain the pages of a new mapping, and those that move or drop
references in bulk: the merge of a fork and the batch release of an exit.
-/

namespace Smros.ProcessMemory.Kernel
open Lib
open PageTable (pageSize)
open Program (onError orThrow)

/-! ## Private pages -/

/-- The allocation loop of `allocate_unmapped_pages`. -/
def allocateZeroedPages : Nat → List LinuxPageBacking → KernelM (List LinuxPageBacking)
  | 0, pages => pure pages
  | count + 1, pages => do
      let pfn ← onError allocFrame (freeBackings pages)
      onError (physical pfn) fun kernel => freeBackings pages (kernel.freeFrame pfn)
      modify (fill pfn fun _ => 0)
      allocateZeroedPages count (pages ++ [.privatePage pfn])

/-- The copy loop of `allocate_unmapped_pages`. -/
def copyContents : List LinuxPageBacking → List UInt8 → KernelM Unit
  | [], _ => pure ()
  | page :: rest, bytes =>
    if bytes.isEmpty then pure ()
    else do
      physical page.pfn
      modify (writeFrame page.pfn (bytes.take pageSize))
      copyContents rest (bytes.drop pageSize)

def allocateUnmappedPages (len : Nat) (contents : List UInt8) : KernelM (List LinuxPageBacking) :=
  if contents.length > len then throw .einval
  else do
    tryReserve (len / pageSize)
    let pages ← allocateZeroedPages (len / pageSize) []
    onError (copyContents pages contents) (freeBackings pages)
    return pages

/-! ## Pages of a shared mapping -/

/-- The object already known for a file. -/
def knownFileObject (runtime : LinuxSharedPageRuntime) (fileObjectId : Nat) : Option Nat :=
  runtime.mmapObjects.findIdx? fun object =>
    object.fileObjectId.any fun current => linuxSharedFileIdentityMatches current fileObjectId

def newMmapObject (file : Option (Nat × Nat)) : KernelM Nat := do
  let kernel ← get
  let objectId := kernel.shared.nextMmapObjectId
  if objectId < 0x80000000 then throw .enomem
  else
    set (kernel.withShared { kernel.shared with nextMmapObjectId := objectId - 1 })
    tryReserve 1
    modify fun kernel => kernel.withShared { kernel.shared with
      mmapObjects := kernel.shared.mmapObjects ++
        [⟨objectId, file.map Prod.fst, file.map Prod.snd⟩] }
    return objectId

/-- A file that is mapped already keeps its object, with the length it has now. -/
def fileMmapObject (source : FileSource) : KernelM Nat := do
  let kernel ← get
  match knownFileObject kernel.shared source.objectId with
  | some index =>
    set (kernel.withShared { kernel.shared with
      mmapObjects := kernel.shared.mmapObjects.modify index
        fun object => { object with fileBackingLen := some source.backingLen } })
    orThrow .enomem (kernel.shared.mmapObjects[index]?.map (·.objectId))
  | none => newMmapObject (some (source.objectId, source.backingLen))

/-- `shared_mmap_object`: the object and its page at the start of the mapping. -/
def sharedMmapObject : LinuxMappingSource → KernelM (Nat × Nat)
  | .anonymous => do
      let objectId ← newMmapObject none
      return (objectId, 0)
  | .file source => do
      let objectId ← fileMmapObject source
      return (objectId, source.offset / pageSize)
  | .sharedMemory _ => throw .einval

def removeEmptySharedMmapObject (objectId : Nat) (kernel : Kernel) : Kernel :=
  kernel.withShared (kernel.shared.removeEmptyMmapObject objectId)

/-- A page that no record has yet. -/
def newSharedPage (objectId pageIndex : Nat) (bytes : List UInt8) : KernelM LinuxPageBacking := do
  let candidatePfn ← allocFrame
  onError (physical candidatePfn) (freeFrame candidatePfn)
  modify (fill candidatePfn fun _ => 0)
  modify (writeFrame candidatePfn bytes)
  let acquired ← modifyGet (acquireOrRegisterSharedPage objectId pageIndex candidatePfn)
  let pfn ← onError (orThrow .enomem acquired) (freeFrame candidatePfn)
  modify fun kernel => if pfn ≠ candidatePfn then kernel.freeFrame candidatePfn else kernel
  return .sharedPage objectId pageIndex pfn

def cachedOrNewSharedPage (objectId pageIndex : Nat) (bytes : List UInt8) :
  Option Nat → KernelM LinuxPageBacking
  | some pfn => return .sharedPage objectId pageIndex pfn
  | none => newSharedPage objectId pageIndex bytes

def sharePage (objectId firstPage : Nat) (contents : List UInt8) (index : Nat) :
  KernelM LinuxPageBacking := do
  let pageIndex ← orThrow .einval (checkedAdd firstPage index)
  let cached ← modifyGet (acquireCachedSharedPage objectId pageIndex)
  cachedOrNewSharedPage objectId pageIndex ((contents.drop (index * pageSize)).take pageSize) cached

/-- The page loop of `allocate_shared_mmap_pages`. -/
def sharePages (objectId firstPage : Nat) (contents : List UInt8) :
  List Nat → List LinuxPageBacking → KernelM (List LinuxPageBacking)
  | [], shared => pure shared
  | index :: rest, shared => do
      let page ← onError (sharePage objectId firstPage contents index) fun kernel =>
        (kernel.freeBackings shared).removeEmptySharedMmapObject objectId
      sharePages objectId firstPage contents rest (shared ++ [page])

def allocateSharedMmapPages (len : Nat) (contents : List UInt8) (source : LinuxMappingSource) :
  KernelM (List LinuxPageBacking) := do
  let (objectId, firstPage) ← sharedMmapObject source
  onError (tryReserve (len / pageSize)) (removeEmptySharedMmapObject objectId)
  sharePages objectId firstPage contents (List.range (len / pageSize)) []

/-- The pages of a new mapping, shared or private as its flags say. -/
def allocateMappingPages (len : Nat) (flags : BitVec 64) (contents : List UInt8)
  (source : LinuxMappingSource) : KernelM (List LinuxPageBacking) :=
  if flags &&& linuxMapShared != 0#64 then allocateSharedMmapPages len contents source
  else allocateUnmappedPages len contents

/-! ## Merging the records of a fork -/

/-- The record of a frame that several private pages of the run name. -/
def forkRecord (pfn references : Nat) : LinuxSharedPageRecord :=
  ⟨linuxForkPrivateObjectId, pfn, pfn, references, true⟩

/-- One record for each run of equal frames. -/
def forkRecords : List Nat → List LinuxSharedPageRecord
  | [] => []
  | pfn :: rest =>
    match forkRecords rest with
    | [] => [forkRecord pfn 1]
    | record :: records =>
      if record.pfn = pfn then forkRecord pfn (record.references + 1) :: records
      else forkRecord pfn 1 :: record :: records

variable (runtime : LinuxSharedPageRuntime) (addition : LinuxSharedPageRecord)
/-- An addition that the records cannot take: another frame, or a count that overflows. -/
def refusesRecord : Bool :=
  match runtime.find addition.key with
  | none => false
  | some existing =>
    existing.pfn != addition.pfn || (checkedAdd existing.references addition.references).isNone

def mergeRecord : LinuxSharedPageRuntime :=
  match runtime.find addition.key with
  | some existing => runtime.setReferences addition.key (existing.references + addition.references)
  | none => runtime.register addition

/-- `linux_merge_shared_page_records_in_place`. -/
def mergeSharedPageRecords (additions : List LinuxSharedPageRecord) : KernelM Unit := do
  let kernel ← get
  if ¬ Keyed.Ascending LinuxSharedPageRecord.key additions then throw .enomem
  else if additions.any (refusesRecord kernel.shared) then throw .enomem
  else
    tryReserve additions.length
    modify fun kernel => kernel.withShared (additions.foldl mergeRecord kernel.shared)

/-! ## Batch release -/

/-- The state of the release loop: the records, the frames to free, the keys to remove. -/
structure Releasing where
  runtime : LinuxSharedPageRuntime
  releasedPfns : List Nat
  removedKeys : List SharedKey

def releaseKey (releasing : Releasing) (key : SharedKey) : Releasing :=
  match releasing.runtime.find key with
  | none => releasing
  | some record =>
    match linuxSharedReferenceRelease record.references with
    | none => releasing
    | some references =>
      let runtime := releasing.runtime.setReferences key references
      if references != 0 || record.named && runtime.fileCacheable record.objectId then
        { releasing with runtime := runtime }
      else
        ⟨runtime, releasing.releasedPfns ++ [record.pfn], releasing.removedKeys ++ [key]⟩

/-- The locked part of `release_shared_backings`. -/
def releaseKeys (keys : List SharedKey) (kernel : Kernel) : Kernel :=
  let released := keys.foldl releaseKey ⟨kernel.shared, [], []⟩
  let kept := { released.runtime with
    pages := released.runtime.pages.filter fun record => record.key ∉ released.removedKeys }
  ((kernel.withShared kept.retainUsedMmapObjects).pruneCachedSharedFilePages).freeFrames
    released.releasedPfns

/-- Several reservations, asked for until one is refused. -/
def reserveAll : List Nat → Kernel → Bool × Kernel
  | [], kernel => (true, kernel)
  | additional :: rest, kernel =>
    match reserve additional kernel with
    | (false, next) => (false, next)
    | (true, next) => reserveAll rest next

/-- Without room for its three lists the loop drops the references one by one. -/
def releaseSharedBackings (backings : List LinuxPageBacking) (kernel : Kernel) : Kernel :=
  let keys := backings.filterMap (·.key)
  if keys.length = 0 then kernel
  else
    match reserveAll [keys.length, keys.length, keys.length] kernel with
    | (false, next) => next.freeBackings (backings.filter (!·.isPrivate))
    | (true, next) => next.releaseKeys (keys.insertionSort (· ≤ ·))

end Smros.ProcessMemory.Kernel
