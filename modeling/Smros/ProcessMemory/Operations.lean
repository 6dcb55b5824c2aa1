import Smros.ProcessMemory.Memory

/-!
# The calls of one process

`map`, `protect`, `unmap`, `remap` and `update_brk`, with the checks that the system
calls make before them.  Each call plans its change, moves the page tables and commits
the plan; what it took before a failure it gives back on that failure's own path.
-/

namespace Smros.ProcessMemory
open Lib Kernel
open PageTable (pageSize)
open Program (orThrow onError attempt)

/-- `LINUX_MAX_PROCESS_MAPPINGS`. -/
def linuxMaxProcessMappings : Nat := 4096

/-! ## Finding room -/

/-- The scan of `range_is_mapped` from `cursor` on. -/
def coveredFrom (rangeEnd : Nat) : Nat → List LinuxProcessMapping → Bool
  | _, [] => false
  | cursor, mapping :: rest =>
    if mapping.stop ≥ 2 ^ 64 then coveredFrom rangeEnd cursor rest
    else if mapping.addr > cursor then false
    else if mapping.stop > cursor then
      if min mapping.stop rangeEnd = rangeEnd then true
      else coveredFrom rangeEnd (min mapping.stop rangeEnd) rest
    else coveredFrom rangeEnd cursor rest

/-- The end of the search of `find_free_region`. -/
def freeBelowBrk (candidate len : Nat) : Option Nat :=
  match checkedAdd candidate len with
  | none => none
  | some candidateEnd => if candidateEnd > linuxBrkBase then none else some candidate

/-- The search of `find_free_region` from `candidate` on. -/
def freeRegionFrom (len : Nat) : Nat → List LinuxProcessMapping → Option Nat
  | candidate, [] => freeBelowBrk candidate len
  | candidate, mapping :: rest =>
    if mapping.addr ≥ linuxBrkBase then freeBelowBrk candidate len
    else
      match checkedAdd candidate len with
      | none => none
      | some candidateEnd =>
        if candidateEnd ≤ mapping.addr then some candidate
        else freeRegionFrom len (max candidate mapping.stop) rest

namespace LinuxProcessMemory
variable (memory : LinuxProcessMemory) (address len : Nat)

def rangeIsMapped : Bool :=
  match checkedAdd address len with
  | none => false
  | some rangeEnd => len != 0 && coveredFrom rangeEnd address memory.mappings

/-- The range meets the area set aside for the break. -/
def overlapsBrk : Bool :=
  rangesOverlap address len memory.brk.start (memory.brk.limit - memory.brk.start)

def fixedRangeAvailable : Bool :=
  linuxUserPageRangeValid address len && !memory.overlapsBrk address len &&
    !memory.mappings.any fun mapping => rangesOverlap address len mapping.addr mapping.len

def rangeAvailable : Bool :=
  linuxUserPageRangeValid address len && linuxMmapBase ≤ address &&
    address + len ≤ linuxBrkBase && memory.fixedRangeAvailable address len

def findFreeRegion (requested : Option Nat) (len : Nat) : Option Nat :=
  match requested.filter (memory.fixedRangeAvailable · len) with
  | some address => some address
  | none =>
    let candidate := max memory.nextAddr linuxMmapBase
    freeRegionFrom len candidate (memory.mappings.dropWhile (·.stop ≤ candidate))

def withMappings (memory : LinuxProcessMemory) (mappings : List LinuxProcessMapping) :
  LinuxProcessMemory :=
  { memory with mappings := mappings }

/-- `commit_mapping_metadata`. -/
def commitMappingMetadata (plan : LinuxMappingMetadataPlan) (memory : LinuxProcessMemory) :
  LinuxProcessMemory :=
  { memory with mappings := plan.mappings, sharedAttachments := plan.sharedAttachments }

/-- The search for room goes on behind a mapping placed in the mmap area. -/
def searchAfter (address len : Nat) (memory : LinuxProcessMemory) : LinuxProcessMemory :=
  if linuxMmapBase ≤ address ∧ address < linuxBrkBase then
    { memory with nextAddr := address + len }
  else memory

end LinuxProcessMemory

/-- Give pages back to the kernel. -/
def Context.freeBackings (pages : List LinuxPageBacking) (context : Context) : Context :=
  context.withKernel (Kernel.freeBackings pages)

/-! ## Mapping -/

/-- Where a mapping goes. -/
def selectAddress (memory : LinuxProcessMemory) (requested : Option Nat) (len : Nat) :
  Bool → MemoryM Nat
  | true => do
      let address ← orThrow .einval requested
      if !linuxUserPageRangeValid address len || memory.overlapsBrk address len then
        throw .einval
      else return address
  | false => orThrow .enomem (memory.findFreeRegion requested len)

variable (mapping : LinuxProcessMapping)

def replaceMappingTransactionally : MemoryM (List (Nat × Nat)) := do
  let context ← get
  let oldPages ← onKernel
    (tryMappedPagesOverlapping context.memory.mappings mapping.addr mapping.len)
  let plan ← onKernel
    (tryCloneMappingMetadata context.memory.mappings context.memory.sharedAttachments)
  let plan ← onKernel (plan.transforming mapping.addr mapping.len none)
  onKernel (tryReserve 1)
  onKernel (tryReserve plan.sharedAttachments.length)
  let plan := (plan.insertMapping mapping).reconcileSharedAttachments
  unmapPagesTransactionally oldPages
  onError (mapMappingPages mapping.addr mapping.pages mapping.source mapping.prot 0)
    (restoreMappedPages oldPages)
  modify fun context =>
    (context.withMemory (·.commitMappingMetadata plan)).freeBackings plan.removed
  return plan.detached

variable (contents : List UInt8)
/-- The part of `map` that replaces whatever the range holds. -/
def mapReplacing : MemoryM (List (Nat × Nat)) := do
  let pages ← onKernel (allocateMappingPages mapping.len mapping.flags contents mapping.source)
  onError (replaceMappingTransactionally { mapping with pages := pages }) (·.freeBackings pages)

/-- The part of `map` that uses a free range. -/
def mapUnused : MemoryM (List (Nat × Nat)) := do
  let context ← get
  if context.memory.mappings.length ≥ linuxMaxProcessMappings then throw .enomem
  else
    onKernel (tryReserve 1)
    let pages ← onKernel (allocateMappingPages mapping.len mapping.flags contents mapping.source)
    onError (mapMappingPages mapping.addr pages mapping.source mapping.prot 0)
      (·.freeBackings pages)
    modify fun context => context.withMemory fun memory =>
      memory.withMappings (insertMapping { mapping with pages := pages } memory.mappings)
    return []

/-- `map`: the address, and the attachments that the replaced mappings gave up. -/
def map (requested : Option Nat) (len : Nat) (prot : Prot) (flags : BitVec 64)
  (source : LinuxMappingSource) (replace : Bool) (contents : List UInt8) :
  MemoryM (Nat × List (Nat × Nat)) :=
  if len = 0 ∨ len % pageSize ≠ 0 ∨ contents.length > len then throw .einval
  else do
    let context ← get
    let address ← selectAddress context.memory requested len replace
    let mapping : LinuxProcessMapping := ⟨address, len, prot, flags, [], source⟩
    let detached ← if replace then mapReplacing mapping contents else mapUnused mapping contents
    modify fun context => context.withMemory (·.searchAfter address len)
    return (address, detached)

/-! ## Protecting and unmapping -/

/-- The new protection of one page, read off the planned mappings. -/
def protectionChange (mappings : List LinuxProcessMapping) (page : LinuxMappedPage) :
  Option LinuxPageProtectionChange :=
  (mappings.find? fun mapping => mapping.addr ≤ page.address && page.address < mapping.stop).map
    fun mapping =>
      { address := page.address
        oldProt := page.prot
        newProt := protectionForBacking page.backing
          (mappingPageProt mapping.source mapping.prot ((page.address - mapping.addr) / pageSize)) }

/-- `protection_changes`. -/
def protectionChanges (pages : List LinuxMappedPage) (mappings : List LinuxProcessMapping) :
  KernelM (List LinuxPageProtectionChange) := do
  tryReserve pages.length
  orThrow .einval (pages.mapM (protectionChange mappings))

def protect (address len : Nat) (prot : Prot) : MemoryM Unit := do
  let context ← get
  if !context.memory.rangeIsMapped address len then throw .einval
  else
    let plan ← onKernel
      (tryCloneMappingMetadata context.memory.mappings context.memory.sharedAttachments)
    let plan ← onKernel (plan.transforming address len (some prot))
    let pages ← onKernel (tryMappedPagesOverlapping context.memory.mappings address len)
    let changes ← onKernel (protectionChanges pages plan.mappings)
    protectPagesTransactionally changes
    modify (·.withMemory (·.commitMappingMetadata plan))

/-- A mapping that is exactly the range is removed without a plan. -/
def exactMapping (mappings : List LinuxProcessMapping) (address len : Nat) : Option Nat :=
  mappings.findIdx? fun mapping =>
    mapping.addr == address && mapping.len == len && !mapping.source.isSharedMemory

def unmapExact (index : Nat) (mapping : LinuxProcessMapping) : MemoryM (List (Nat × Nat)) := do
  unmapExactMappingPagesTransactionally mapping
  modify fun context => (context.withMemory fun memory =>
    { memory with
      mappings := memory.mappings.eraseIdx index
      nextAddr := min memory.nextAddr mapping.addr }).freeBackings mapping.pages
  return []

variable (address len : Nat)

def unmapOverlapping : MemoryM (List (Nat × Nat)) := do
  let context ← get
  let pages ← onKernel (tryMappedPagesOverlapping context.memory.mappings address len)
  if pages.isEmpty then throw .einval
  else
    let plan ← onKernel
      (tryCloneMappingMetadata context.memory.mappings context.memory.sharedAttachments)
    let plan ← onKernel (plan.transforming address len none)
    onKernel (tryReserve plan.sharedAttachments.length)
    let plan := plan.reconcileSharedAttachments
    unmapPagesTransactionally pages
    modify fun context =>
      (context.withMemory (·.commitMappingMetadata plan)).freeBackings plan.removed
    return plan.detached

def unmapFound (memory : LinuxProcessMemory) : Option Nat → MemoryM (List (Nat × Nat))
  | some index => do
      let mapping ← orThrow .einval memory.mappings[index]?
      unmapExact index mapping
  | none => unmapOverlapping address len

def unmap : MemoryM (List (Nat × Nat)) := do
  let _ ← orThrow .einval (checkedAdd address len)
  let context ← get
  unmapFound address len context.memory (exactMapping context.memory.mappings address len)

/-! ## The break -/

/-- The chunks of `zero_user_range`. -/
def zeroChunks : Nat → Nat → Nat → MemoryM Unit
  | 0, _, _ => pure ()
  | count + 1, address, len =>
    if len = 0 then pure ()
    else do
      copyToMappedPages address (List.replicate (min 256 len) 0)
      zeroChunks count (address + min 256 len) (len - min 256 len)

def zeroUserRange (address len : Nat) : MemoryM Unit := zeroChunks len address len

def linuxBrkProt : Prot := linuxProtRead ||| linuxProtWrite

def growBrk (newBrk : Nat) : MemoryM Unit := do
  let context ← get
  let brk := context.memory.brk
  let oldPages := pageCount (brk.current - brk.start)
  let newPages := pageCount (newBrk - brk.start)
  let start := brk.start + oldPages * pageSize
  let len := (newPages - oldPages) * pageSize
  onKernel (tryReserve (brk.pages.length + (newPages - oldPages)))
  let pages ← onKernel (allocateUnmappedPages len [])
  let mapped ← onError (onKernel (tryMappedPagesForMapping start pages .anonymous linuxBrkProt))
    (·.freeBackings pages)
  onError (mapUnmappedPagesWithProtection start pages fun _ => linuxBrkProt) (·.freeBackings pages)
  onError (zeroUserRange brk.current (newBrk - brk.current)) fun context =>
    (attempt (unmapPagesTransactionally mapped) context).freeBackings pages
  modify fun context => context.withMemory fun memory =>
    { memory with brk := { memory.brk with pages := brk.pages ++ pages } }

def shrinkBrk (newPages : Nat) : MemoryM Unit := do
  let context ← get
  let brk := context.memory.brk
  let oldPages := pageCount (brk.current - brk.start)
  onKernel (tryReserve newPages)
  onKernel (tryReserve (oldPages - newPages))
  let backings := (brk.pages.take oldPages).drop newPages
  let removed ← onKernel
    (tryMappedPagesForMapping (brk.start + newPages * pageSize) backings .anonymous linuxBrkProt)
  unmapPagesTransactionally removed
  modify fun context => (context.withMemory fun memory =>
    { memory with brk := { memory.brk with pages := brk.pages.take newPages } }).freeBackings
      backings

/-- Make the pages of the break area reach `newBrk`. -/
def resizeBrk (newBrk : Nat) (brk : BrkState) : MemoryM Unit :=
  let oldPages := pageCount (brk.current - brk.start)
  let newPages := pageCount (newBrk - brk.start)
  if newPages > oldPages then growBrk newBrk
  else if newPages < oldPages then shrinkBrk newPages
  else if newBrk > brk.current then zeroUserRange brk.current (newBrk - brk.current)
  else pure ()

def updateBrk (newBrk : Nat) : MemoryM Nat := do
  let context ← get
  let brk := context.memory.brk
  if newBrk = 0 then return brk.current
  else if newBrk < brk.start ∨ newBrk > brk.limit then return brk.current
  else
    resizeBrk newBrk brk
    modify fun context => context.withMemory fun memory =>
      { memory with brk := { memory.brk with current := newBrk } }
    return newBrk

/-! ## Remapping -/

def linuxMremapRequiresMove (oldAddress oldLen newLen : Nat) (fixed : Option Nat)
  (dontUnmap : Bool) : Bool :=
  dontUnmap || oldLen != newLen || fixed.any (· != oldAddress)

/-- `copy_mapping_backings`: the first bytes of the pages. -/
def copyMappingBackings (pages : List LinuxPageBacking) (length : Nat) : KernelM (List UInt8) := do
  let kernel ← get
  if length > pages.length * pageSize then throw .efault
  else if (pages.take (pageCount length)).all fun page =>
      kernel.frames.window.Has page.pfn then
    return (List.range length).map fun index =>
      kernel.contents ((pages[index / pageSize]?.map (·.pfn)).getD 0) (index % pageSize)
  else throw .enomem

/-- The mapping grows into the free range behind it. -/
def growMapping (index : Nat) (mapping : LinuxProcessMapping) (newLen : Nat) :
  MemoryM (Nat × List (Nat × Nat)) := do
  let source ← onKernel (trySlice mapping.source 0)
  onKernel (tryReserve (mapping.pages.length + (newLen - mapping.len) / pageSize))
  let pages ← onKernel (allocateUnmappedPages (newLen - mapping.len) [])
  onError (mapMappingPages mapping.stop pages source mapping.prot mapping.pages.length)
    (·.freeBackings pages)
  modify fun context => context.withMemory fun memory =>
    memory.withMappings (memory.mappings.modify index fun mapping =>
      { mapping with len := newLen, pages := mapping.pages ++ pages })
  return (mapping.addr, [])

/-- Where a moved mapping goes. -/
def remapDestination (memory : LinuxProcessMemory) (mapping : LinuxProcessMapping)
  (newLen : Nat) : Option Nat → MemoryM Nat
  | some address =>
    if !linuxUserPageRangeValid address newLen ||
        rangesOverlap address newLen mapping.addr mapping.len ||
        memory.overlapsBrk address newLen then
      throw .einval
    else return address
  | none => orThrow .enomem (memory.findFreeRegion none newLen)

/-- The plan of a move: the destination, and unless it stays the source, are cut out. -/
def planMove (memory : LinuxProcessMemory) (mapping : LinuxProcessMapping)
  (newAddress newLen : Nat) (dontUnmap : Bool) : KernelM LinuxMappingMetadataPlan := do
  let plan ← tryCloneMappingMetadata memory.mappings memory.sharedAttachments
  let plan ← plan.transforming newAddress newLen none
  let plan ← if dontUnmap then pure plan
    else plan.transforming mapping.addr mapping.len none
  tryReserve 1
  tryReserve plan.sharedAttachments.length
  return plan

def rollbackRemapDestination (mapped replaced : List LinuxMappedPage) (context : Context) :
  Context :=
  restoreMappedPages replaced (attempt (unmapPagesTransactionally mapped) context)

/-- The page-table part of a move. -/
def movePages (moved : LinuxProcessMapping) (mapped replaced sourcePages : List LinuxMappedPage) :
  MemoryM Unit := do
  unmapPagesTransactionally replaced
  onError (mapMappingPages moved.addr moved.pages moved.source moved.prot 0)
    (restoreMappedPages replaced)
  onError (unmapPagesTransactionally sourcePages) (rollbackRemapDestination mapped replaced)

def moveMapping (mapping : LinuxProcessMapping) (newLen : Nat) (fixed : Option Nat)
  (dontUnmap : Bool) : MemoryM (Nat × List (Nat × Nat)) := do
  let context ← get
  let source ← onKernel (trySlice mapping.source 0)
  let newAddress ← remapDestination context.memory mapping newLen fixed
  let replaced ← onKernel (tryMappedPagesOverlapping context.memory.mappings newAddress newLen)
  let sourcePages ← if dontUnmap then pure []
    else onKernel (tryMappedPagesOverlapping context.memory.mappings mapping.addr mapping.len)
  let plan ← onKernel (planMove context.memory mapping newAddress newLen dontUnmap)
  onKernel (tryReserve (min mapping.len newLen))
  let contents ← onKernel (copyMappingBackings mapping.pages (min mapping.len newLen))
  let pages ← onKernel (allocateUnmappedPages newLen contents)
  let mapped ← onError (onKernel (tryMappedPagesForMapping newAddress pages source mapping.prot))
    (·.freeBackings pages)
  let moved : LinuxProcessMapping :=
    ⟨newAddress, newLen, mapping.prot, mapping.flags, pages, source⟩
  let plan := (plan.insertMapping moved).reconcileSharedAttachments
  onError (movePages moved mapped replaced sourcePages) (·.freeBackings pages)
  modify fun context =>
    (context.withMemory (·.commitMappingMetadata plan)).freeBackings plan.removed
  modify fun context => context.withMemory (·.searchAfter newAddress newLen)
  return (newAddress, plan.detached)

/-- The part of `remap` that has found its mapping. -/
def remapFound (index : Nat) (mapping : LinuxProcessMapping) (newLen : Nat) (mayMove : Bool)
  (fixed : Option Nat) (dontUnmap : Bool) : MemoryM (Nat × List (Nat × Nat)) := do
  let context ← get
  let requiresMove := linuxMremapRequiresMove mapping.addr mapping.len newLen fixed dontUnmap
  let inPlace := fixed.isNone && !dontUnmap
  if mapping.flags &&& linuxMapShared != 0#64 && requiresMove then throw .einval
  else if !requiresMove then return (mapping.addr, [])
  else if dontUnmap && mapping.len != newLen then throw .einval
  else if inPlace && newLen < mapping.len then
    let detached ← unmap (mapping.addr + newLen) (mapping.len - newLen)
    return (mapping.addr, detached)
  else if inPlace && mapping.len < newLen &&
      context.memory.rangeAvailable mapping.stop (newLen - mapping.len) then
    growMapping index mapping newLen
  else if !mayMove then throw .enomem
  else moveMapping mapping newLen fixed dontUnmap

def remap (oldAddress oldLen newLen : Nat) (mayMove : Bool) (fixed : Option Nat)
  (dontUnmap : Bool) : MemoryM (Nat × List (Nat × Nat)) := do
  let context ← get
  let index ← orThrow .einval (context.memory.mappings.findIdx? fun mapping =>
    mapping.addr == oldAddress && mapping.len == oldLen)
  let mapping ← orThrow .einval context.memory.mappings[index]?
  remapFound index mapping newLen mayMove fixed dontUnmap

/-! ## The checks of the system calls -/

/-- `roundup_pages`, which saturates. -/
def roundupPages (size : Nat) : Nat :=
  let pages := if size % pageSize = 0 then size / pageSize else size / pageSize + 1
  (checkedMul pages pageSize).getD (2 ^ 64 - 1)

def pageAligned (address : Nat) : Bool := address % pageSize == 0

def sysMprotect (address len : Nat) (prot : Prot) : MemoryM Unit :=
  if !pageAligned address || len == 0 then throw .einval
  else protect address (roundupPages len) (prot &&& 7#64)

def sysMunmap (address len : Nat) : MemoryM (List (Nat × Nat)) :=
  if !pageAligned address || len == 0 then throw .einval
  else unmap address (roundupPages len)

structure MremapFlags where
  mayMove : Bool
  fixed : Bool
  dontUnmap : Bool
  deriving DecidableEq

def sysMremap (oldAddress oldSize newSize : Nat) (flags : MremapFlags) (newAddress : Nat) :
  MemoryM (Nat × List (Nat × Nat)) :=
  if oldAddress == 0 || newSize == 0 then throw .einval
  else if !pageAligned oldAddress || oldSize == 0 then throw .einval
  else if (flags.fixed || flags.dontUnmap) && !flags.mayMove then throw .einval
  else if flags.fixed && (newAddress == 0 || !pageAligned newAddress) then throw .einval
  else
    remap oldAddress (roundupPages oldSize) (roundupPages newSize) flags.mayMove
      (if flags.fixed then some newAddress else none) flags.dontUnmap

end Smros.ProcessMemory
