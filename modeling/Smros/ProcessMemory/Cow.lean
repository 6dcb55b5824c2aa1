import Smros.ProcessMemory.Operations

/-!
# Copy on write

A fork turns the private pages of the parent into references to records that parent
and child share, and takes the write permission away.  A write then copies the page
first.  After the first fork a process remembers, in hints, which of its pages have
become private again.
-/

namespace Smros.ProcessMemory
open Lib Kernel
open PageTable (pageSize)

/-! ## Locating a page -/

/-- A place that holds a backing. -/
inductive PageSlot where
  | mapping (index pageIndex : Nat)
  | brk (pageIndex : Nat)
  deriving DecidableEq

structure LocatedPage where
  slot : PageSlot
  backing : LinuxPageBacking
  prot : Prot
  deriving DecidableEq

namespace LinuxProcessMemory
/-- The page of one mapping; a mapping without the backing is a fault. -/
def locateInMapping (index : Nat) (mapping : LinuxProcessMapping) (pageAddress : Nat) :
  Except SysError (Option LocatedPage) :=
  let pageIndex := (pageAddress - mapping.addr) / pageSize
  match mapping.pages[pageIndex]? with
  | none => .error .efault
  | some backing =>
    .ok (some ⟨.mapping index pageIndex, backing,
      mappingPageProt mapping.source mapping.prot pageIndex⟩)

def locateInBrk (brk : BrkState) (pageAddress : Nat) : Except SysError (Option LocatedPage) :=
  if pageAddress < brk.start ∨ pageAddress ≥ brk.start + brk.pages.length * pageSize then .ok none
  else
    let pageIndex := (pageAddress - brk.start) / pageSize
    match brk.pages[pageIndex]? with
    | none => .error .efault
    | some backing => .ok (some ⟨.brk pageIndex, backing, linuxBrkProt⟩)

variable (memory : LinuxProcessMemory)
/-- The first mapping with the address, or the break area. -/
def locatePage (pageAddress : Nat) : Except SysError (Option LocatedPage) :=
  match memory.mappings.findIdx? fun mapping =>
      mapping.addr ≤ pageAddress && pageAddress < mapping.stop with
  | some index =>
    match memory.mappings[index]? with
    | some mapping => locateInMapping index mapping pageAddress
    | none => .error .efault
  | none => locateInBrk memory.brk pageAddress

def setBacking (slot : PageSlot) (backing : LinuxPageBacking) : LinuxProcessMemory :=
  match slot with
  | .mapping index pageIndex =>
    memory.withMappings (memory.mappings.modify index fun mapping =>
      { mapping with pages := mapping.pages.set pageIndex backing })
  | .brk pageIndex =>
    { memory with brk := { memory.brk with pages := memory.brk.pages.set pageIndex backing } }

/-- The hints gained by a page that became private. -/
def trackPrivate (address pfn : Nat) : LinuxProcessMemory :=
  if memory.privatePageTrackingEnabled then
    { memory with privatePageHints := memory.privatePageHints ++ [⟨address, pfn⟩] }
  else memory

end LinuxProcessMemory

/-- The result of a lookup that may fault. -/
def orFault {Value : Type} : Except SysError Value → MemoryM Value
  | .ok value => pure value
  | .error error => throw error

/-! ## Materializing a page -/

def pageBase (address : Nat) : Nat := address / pageSize * pageSize

/-- Copy the page to a frame of its own and enter that one. -/
def copyCowPage (pageAddress : Nat) (page : LocatedPage) : MemoryM Unit := do
  let context ← get
  onKernel (tryReserve (if context.memory.privatePageTrackingEnabled then 1 else 0))
  let newPfn ← onKernel allocFrame
  let free := fun context : Context => context.withKernel (freeFrame newPfn)
  Program.onError (onKernel (physical page.backing.pfn)) free
  Program.onError (onKernel (physical newPfn)) free
  modify fun context => context.withKernel fun kernel =>
    kernel.fill newPfn (kernel.contents page.backing.pfn)
  let _ ← Program.onError (replacePage pageAddress newPfn (page.prot ||| linuxProtWrite)) free
  modify fun context => (context.withMemory fun memory =>
    (memory.setBacking page.slot (.privatePage newPfn)).trackPrivate pageAddress
      newPfn).freeBackings [page.backing]

def materializeLocated (pageAddress : Nat) : Option LocatedPage → MemoryM Bool
  | none => return false
  | some page =>
    if !page.backing.isCow || page.prot &&& linuxProtWrite == 0#64 then return false
    else do
      copyCowPage pageAddress page
      return true

def materializeCowPage (address : Nat) : MemoryM Bool := do
  let context ← get
  let located ← orFault (context.memory.locatePage (pageBase address))
  materializeLocated (pageBase address) located

def materializeCowPages : List Nat → MemoryM Unit
  | [] => pure ()
  | page :: rest => do
      let _ ← materializeCowPage page
      materializeCowPages rest

/-- The first addresses of the pages that a range meets. -/
def pagesOfRange (address len : Nat) : List Nat :=
  (List.range (pageCount (address % pageSize + len))).map fun index =>
    pageBase address + index * pageSize

/-! ## Writing -/

structure LinuxMappingAccessRange where
  addr : Nat
  len : Nat
  prot : Prot

def linuxMappingAllows (prot : Prot) (write : Bool) : Bool :=
  if write then prot &&& linuxProtWrite != 0#64
  else prot &&& (linuxProtRead ||| linuxProtWrite) != 0#64

/-- The furthest end of a range that allows the access and starts no later than `cursor`;
a range that ends past the last address is passed over. -/
def accessCoveredUntil (ranges : List LinuxMappingAccessRange) (write : Bool) (cursor : Nat) :
  Nat :=
  ranges.foldl (fun coveredUntil range =>
    if linuxMappingAllows range.prot write && range.addr + range.len < 2 ^ 64 &&
        range.addr ≤ cursor && coveredUntil < range.addr + range.len then range.addr + range.len
    else coveredUntil) cursor

/-- The loop of `linux_mapping_access_range_covered`; every round passes the end of another
range. -/
def accessRangeCovered (ranges : List LinuxMappingAccessRange) (rangeEnd : Nat) (write : Bool) :
  Nat → Nat → Bool
  | 0, _ => false
  | rounds + 1, cursor =>
    if cursor ≥ rangeEnd then true
    else
      let coveredUntil := accessCoveredUntil ranges write cursor
      if coveredUntil = cursor then false
      else accessRangeCovered ranges rangeEnd write rounds (min coveredUntil rangeEnd)

def linuxMappingAccessRangeCovered (ranges : List LinuxMappingAccessRange) (address len : Nat)
  (write : Bool) : Bool :=
  match checkedAdd address len with
  | none => false
  | some rangeEnd =>
    len != 0 && accessRangeCovered ranges rangeEnd write (ranges.length + 1) address

/-- The part of a copy that lies in the page of its first byte. -/
def linuxUserCopyChunk (address remaining pageSize : Nat) : Option Nat :=
  if remaining = 0 ∨ pageSize = 0 then none
  else some (min remaining (pageSize - address % pageSize))

namespace LinuxProcessMemory
variable (memory : LinuxProcessMemory)

def addressIsCow (address : Nat) : Bool :=
  match memory.locatePage (pageBase address) with
  | .ok (some page) => page.backing.isCow
  | _ => false

def accessRanges : List LinuxMappingAccessRange :=
  memory.mappings.map (fun mapping => ⟨mapping.addr, mapping.len, mapping.prot⟩) ++
    [⟨memory.brk.start, memory.brk.pages.length * pageSize, linuxBrkProt⟩]

/-- The loop of `range_accessible`, which looks at the first byte of every chunk; a chunk is
not empty, so a round for every byte is enough. -/
def chunksAccessible (address len : Nat) (write : Bool) : Nat → Nat → Bool
  | 0, offset => offset ≥ len
  | rounds + 1, offset =>
    if offset < len then
      match checkedAdd address offset with
      | none => false
      | some current =>
        if (translateUser memory current write).isNone && !(write && memory.addressIsCow current) then
          false
        else
          match linuxUserCopyChunk current (len - offset) pageSize with
          | none => false
          | some chunk => chunksAccessible address len write rounds (offset + chunk)
    else true

def rangeAccessible (address len : Nat) (write : Bool) : Bool :=
  (checkedMul memory.brk.pages.length pageSize).isSome &&
    linuxMappingAccessRangeCovered memory.accessRanges address len write &&
    memory.chunksAccessible address len write len 0

end LinuxProcessMemory

/-- `copy_to_user` of a process memory. -/
def copyToUser (address : Nat) (bytes : List UInt8) : MemoryM Unit := do
  let _ ← Program.orThrow .efault (checkedAdd address bytes.length)
  materializeCowPages (pagesOfRange address bytes.length)
  let context ← get
  if !context.memory.rangeAccessible address bytes.length true then throw .efault
  else copyToMappedPages address bytes

/-- The store that the processor repeats after a fault was resolved. -/
def storeUser (address : Nat) (byte : UInt8) : MemoryM Unit := do
  let context ← get
  let target ← Program.orThrow .efault (translateUser context.memory address true)
  modify (·.withKernel (storeByte · target byte))

/-- A store of user code.  One that faults is repeated if the fault handler made the page
writable, and ends in a signal if not. -/
def userStore (address : Nat) (byte : UInt8) : MemoryM Unit := do
  let context ← get
  if (translateUser context.memory address true).isSome then storeUser address byte
  else
    let resolved ← materializeCowPage address
    if resolved then storeUser address byte else throw .efault

/-! ## Promoting the private pages of a parent -/

/-- A hint that still names a private page, with the page's protection. -/
structure TrackedPage where
  address : Nat
  pfn : Nat
  prot : Prot
  cowProt : Prot
  deriving DecidableEq

namespace LinuxProcessMemory
variable (memory : LinuxProcessMemory)
/-- `private_page_details` for the page of a hint. -/
def trackedPage (hint : LinuxPrivatePageHint) : Option TrackedPage :=
  match memory.locatePage hint.address with
  | .ok (some page) =>
    if page.backing = .privatePage hint.pfn then
      some ⟨hint.address, hint.pfn, page.prot, protectionForBacking (.cow hint.pfn) page.prot⟩
    else none
  | _ => none

/-- `promote_private_backing`. -/
def promotePrivateBacking (page : TrackedPage) : LinuxProcessMemory :=
  match memory.locatePage page.address with
  | .ok (some located) =>
    if located.backing = .privatePage page.pfn then
      memory.setBacking located.slot (.cow page.pfn)
    else memory
  | _ => memory

/-- All backings, mapping after mapping and then the break area. -/
def backings : List LinuxPageBacking := memory.mappings.flatMap (·.pages) ++ memory.brk.pages

end LinuxProcessMemory

def LinuxPageBacking.privatePfn : LinuxPageBacking → Option Nat
  | privatePage pfn => some pfn
  | sharedPage .. => none

/-- A private page becomes a copy-on-write page. -/
def LinuxPageBacking.promoted : LinuxPageBacking → LinuxPageBacking
  | privatePage pfn => .cow pfn
  | shared => shared

def protectAll : List (Nat × Prot) → MemoryM Unit
  | [] => pure ()
  | (address, prot) :: rest => do
      protectPage address prot
      protectAll rest

/-- The second half of a tracked promotion: switch the backings, then protect the pages. -/
def switchTrackedPages (tracked : List TrackedPage) : MemoryM Unit := do
  onKernel (tryReserve tracked.length)
  modify (·.withMemory fun memory => tracked.foldl LinuxProcessMemory.promotePrivateBacking memory)
  protectAll ((tracked.filter fun page => page.cowProt != page.prot).map fun page =>
    (page.address, page.cowProt))

/-- The first half: the pages that the hints still name, with their records merged. -/
def mergeTrackedPages : MemoryM (List TrackedPage) := do
  let context ← get
  let hints := context.memory.privatePageHints
  modify (·.withMemory fun memory => { memory with privatePageHints := [] })
  onKernel (tryReserve hints.length)
  let tracked := (hints.filterMap context.memory.trackedPage).insertionSort
    fun first second => first.pfn ≤ second.pfn
  if tracked.isEmpty then return []
  else
    onKernel (tryReserve tracked.length)
    onKernel (mergeSharedPageRecords (forkRecords (tracked.map (·.pfn))))
    return tracked

def promoteTrackedPrivateForkPages : MemoryM Unit := do
  let tracked ← mergeTrackedPages
  if tracked.isEmpty then pure () else switchTrackedPages tracked

/-- The pages to protect after an untracked promotion. -/
def LinuxProcessMemory.cowProtections (memory : LinuxProcessMemory) : List (Nat × Prot) :=
  (memory.mappings.flatMap fun mapping =>
    (mapping.mappedPages.mapIdx fun index page =>
      (page, mappingPageProt mapping.source mapping.prot index)).filterMap
        fun (page, prot) => if page.prot != prot then some (page.address, page.prot) else none) ++
  (memory.brk.pages.mapIdx fun index page =>
    (memory.brk.start + index * pageSize, protectionForBacking page linuxBrkProt)).filter
      fun (_, prot) => prot != linuxBrkProt

/-- Every private page becomes a copy-on-write page, and tracking starts. -/
def LinuxProcessMemory.promoteAll (memory : LinuxProcessMemory) : LinuxProcessMemory :=
  { memory with
    mappings := memory.mappings.map fun mapping =>
      { mapping with pages := mapping.pages.map LinuxPageBacking.promoted }
    brk := { memory.brk with pages := memory.brk.pages.map LinuxPageBacking.promoted }
    privatePageTrackingEnabled := true }

def switchAllPages : MemoryM Unit := do
  modify (·.withMemory LinuxProcessMemory.promoteAll)
  let context ← get
  onKernel (tryReserve (context.memory.mappings.length + 1))
  protectAll context.memory.cowProtections

def mergeAllPages : MemoryM Bool := do
  let context ← get
  let pfns := context.memory.backings.filterMap (·.privatePfn)
  if pfns.isEmpty then
    modify (·.withMemory fun memory => { memory with privatePageTrackingEnabled := true })
    return false
  else
    onKernel (tryReserve pfns.length)
    onKernel (tryReserve pfns.length)
    onKernel (mergeSharedPageRecords (forkRecords (pfns.insertionSort (· ≤ ·))))
    return true

def promoteAllPrivateForkPages : MemoryM Unit := do
  let merged ← mergeAllPages
  if merged then switchAllPages else pure ()

def promotePrivateForkPages : MemoryM Unit := do
  let context ← get
  if context.memory.privatePageTrackingEnabled then promoteTrackedPrivateForkPages
  else promoteAllPrivateForkPages

end Smros.ProcessMemory
