import Smros.ProcessMemory.Cow

/-!
# Forking a process memory

The child gets the mappings of the parent with references of its own, or copies of the
pages that stayed private.  References to the pages of shared-memory attachments are
taken beforehand and handed to the child.  A fork that fails drops what the child has.
-/

namespace Smros.ProcessMemory
open Lib Kernel
open PageTable (pageSize)
open Program (orThrow onError zoom)

/-! ## Dropping a memory -/

namespace Kernel
/-- `release_all_pages`: private frames first, shared references in one batch if the heap
has room to collect them. -/
def releaseAllPages (backings : List LinuxPageBacking) (kernel : Kernel) : Kernel :=
  let shared := backings.filter (!·.isPrivate)
  match reserve shared.length kernel with
  | (true, next) => (next.freeBackings (backings.filter (·.isPrivate))).releaseSharedBackings shared
  | (false, next) => next.freeBackings backings

end Kernel

/-! ## References for a forked child -/

/-- The last count that `references + 1` still fits. -/
def maxReferences : Nat := 2 ^ 64 - 1

namespace LinuxSharedPageRuntime
variable (runtime : LinuxSharedPageRuntime)
/-- Where the records of the pages stand next to each other, in the pages' order. -/
def contiguousStart (pages : List LinuxPageBacking) : Option Nat := do
  let first ← pages.head?
  let key ← first.key
  let start ← runtime.pages.findIdx? (·.key == key)
  if ((runtime.pages.drop start).take pages.length).map (fun record => some record.key) =
      pages.map (·.key) then
    some start
  else none

/-- One more reference to each of `count` records from `start` on. -/
def acquireSpan (start count : Nat) : LinuxSharedPageRuntime :=
  { runtime with
    pages := runtime.pages.mapIdx fun index record =>
      if start ≤ index ∧ index < start + count then
        { record with references := record.references + 1 }
      else record }

def acquireKey (key : SharedKey) : LinuxSharedPageRuntime :=
  { runtime with
    pages := Counted.adjust LinuxSharedPageRecord.key key
      (fun record => { record with references := record.references + 1 }) runtime.pages }

/-- The page has a record that can take another reference. -/
def acquirable (page : LinuxPageBacking) : Bool :=
  match page.key.bind runtime.find with
  | some record => record.references != maxReferences
  | none => false

end LinuxSharedPageRuntime

namespace Kernel
/-- The locked part of `clone_shared_linux_fork_pages`. -/
def acquireForkPages (pages : List LinuxPageBacking) (runtime : LinuxSharedPageRuntime) :
  Option LinuxSharedPageRuntime :=
  match runtime.contiguousStart pages with
  | some start =>
    if ((runtime.pages.drop start).take pages.length).all (·.references != maxReferences) then
      some (runtime.acquireSpan start pages.length)
    else none
  | none =>
    if pages.all runtime.acquirable then
      some ((pages.filterMap (·.key)).foldl LinuxSharedPageRuntime.acquireKey runtime)
    else none

variable (parentPages : List LinuxPageBacking)

def cloneSharedForkPages : KernelM (List LinuxPageBacking) := do
  tryReserve parentPages.length
  let kernel ← get
  let runtime ← orThrow .enomem (acquireForkPages parentPages kernel.shared)
  set (kernel.withShared runtime)
  return parentPages

/-- An injected failure. -/
def failIf (fails : Bool) : KernelM Unit := if fails then throw .enomem else pure ()

def checkFailpoint : KernelM Unit := do
  let fails ← modifyGet failpoint
  failIf fails

/-- One injected failure for each page, until one happens. -/
def checkFailpoints : List LinuxPageBacking → KernelM Unit
  | [] => pure ()
  | _ :: rest => do
      checkFailpoint
      checkFailpoints rest

/-- A private page of the parent is copied. -/
def clonePrivatePage (pfn : Nat) : KernelM LinuxPageBacking := do
  let childPfn ← allocFrame
  let release := freeBackings [.privatePage childPfn]
  onError checkFailpoint release
  onError checkFailpoint release
  onError (physical pfn) release
  onError (physical childPfn) release
  modify fun kernel => kernel.fill childPfn (kernel.contents pfn)
  onError checkFailpoint release
  onError checkFailpoint release
  return .privatePage childPfn

/-- A shared page gets another reference. -/
def cloneSharedPage (page : LinuxPageBacking) (objectId pageIndex : Nat) :
  KernelM LinuxPageBacking := do
  let acquired ← modifyGet (acquireSharedPage objectId pageIndex)
  failIf (!acquired)
  onError checkFailpoint (freeBackings [page])
  return page

def cloneForkPage : LinuxPageBacking → KernelM LinuxPageBacking
  | .privatePage pfn => clonePrivatePage pfn
  | .sharedPage objectId pageIndex pfn =>
    cloneSharedPage (.sharedPage objectId pageIndex pfn) objectId pageIndex

/-- The loop of `clone_linux_fork_pages`. -/
def cloneForkPagesFrom : List LinuxPageBacking → List LinuxPageBacking →
  KernelM (List LinuxPageBacking)
  | childPages, [] => pure childPages
  | childPages, parent :: rest => do
      let child ← onError (cloneForkPage parent) (freeBackings childPages.reverse)
      cloneForkPagesFrom (childPages ++ [child]) rest

def cloneForkPages : KernelM (List LinuxPageBacking) := do
  tryReserve parentPages.length
  cloneForkPagesFrom [] parentPages

/-- The child's pages for a run of the parent's. -/
def clonePages : KernelM (List LinuxPageBacking) :=
  if parentPages.all (!·.isPrivate) then do
    let pages ← cloneSharedForkPages parentPages
    onError (checkFailpoints pages) (freeBackings pages)
    return pages
  else cloneForkPages parentPages

end Kernel

/-! ## Attachments -/

/-- References taken for the part of an attachment that one mapping holds. -/
structure LinuxSharedAttachmentClone where
  objectId : Nat
  attachmentAddr : Nat
  attachmentLen : Nat
  addr : Nat
  len : Nat
  pages : List LinuxPageBacking
  ownsAttachmentReference : Bool
  deriving DecidableEq

/-- `release_shared_attachments`. -/
def releaseSharedAttachments (attachments : List LinuxSharedAttachmentClone) (kernel : Kernel) :
  Kernel :=
  attachments.reverse.foldl (fun kernel attachment =>
    kernel.freeBackings (attachment.pages.reverse.filter (!·.isPrivate))) kernel

namespace LinuxProcessMemory
/-- The reservation that a mapping asks for. -/
def attachmentClone (memory : LinuxProcessMemory) (mapping : LinuxProcessMapping) :
  Option LinuxSharedAttachmentClone :=
  match mapping.source with
  | .sharedMemory id =>
    (memory.sharedAttachments.find? fun attachment =>
      attachment.objectId == id &&
        rangesOverlap attachment.addr attachment.len mapping.addr mapping.len).map
      fun attachment =>
        ⟨id, attachment.addr, attachment.len, mapping.addr, mapping.len, mapping.pages, false⟩
  | _ => none

end LinuxProcessMemory

/-- Drop references without freeing a frame. -/
def dropReferences (pages : List LinuxPageBacking) (kernel : Kernel) : Kernel :=
  pages.foldl (fun kernel page =>
    match page with
    | .privatePage _ => kernel
    | .sharedPage objectId pageIndex _ => (kernel.releaseSharedPage objectId pageIndex).2) kernel

def acquireAttachmentPage : LinuxPageBacking → KernelM Unit
  | .privatePage _ => throw .einval
  | .sharedPage objectId pageIndex _ => do
      let acquired ← modifyGet (acquireSharedPage objectId pageIndex)
      failIf (!acquired)

/-- Take the references for one attachment; `localAcquired` are those taken so far. -/
def acquireAttachmentPages : List LinuxPageBacking → List LinuxPageBacking → KernelM Unit
  | _, [] => pure ()
  | localAcquired, page :: rest => do
      onError (acquireAttachmentPage page) (dropReferences localAcquired.reverse)
      onError checkFailpoint (dropReferences (localAcquired ++ [page]).reverse)
      acquireAttachmentPages (localAcquired ++ [page]) rest

/-- Whether the shared-memory object takes another attachment. -/
def acquireAttachmentReference : KernelM Unit := do
  let granted ← modifyGet fun kernel : Kernel =>
    let (granted, rest) := nextAnswer true kernel.environment.attachments
    (granted, { kernel with environment := { kernel.environment with attachments := rest } })
  failIf (!granted)
  checkFailpoint

def reserveAttachment (acquired : List LinuxSharedAttachmentClone)
  (attachment : LinuxSharedAttachmentClone) : KernelM LinuxSharedAttachmentClone := do
  tryReserve attachment.pages.length
  let owns := !acquired.any fun other =>
    other.objectId == attachment.objectId && other.attachmentAddr == attachment.attachmentAddr
  if owns then acquireAttachmentReference else pure ()
  acquireAttachmentPages [] attachment.pages
  return { attachment with ownsAttachmentReference := owns }

/-- The second loop of `reserve_shared_attachments`. -/
def reserveAttachments : List LinuxSharedAttachmentClone → List LinuxSharedAttachmentClone →
  KernelM (List LinuxSharedAttachmentClone)
  | acquired, [] => pure acquired
  | acquired, attachment :: rest => do
      let reserved ← onError (reserveAttachment acquired attachment)
        (releaseSharedAttachments acquired)
      reserveAttachments (acquired ++ [reserved]) rest

/-- Heap room for copies of the pages of each attachment. -/
def reserveCopies : List LinuxSharedAttachmentClone → KernelM Unit
  | [] => pure ()
  | attachment :: rest => do
      tryReserve attachment.pages.length
      reserveCopies rest

def reserveSharedAttachments (memory : LinuxProcessMemory) :
  KernelM (List LinuxSharedAttachmentClone) := do
  let attachments := memory.mappings.filterMap memory.attachmentClone
  tryReserve (memory.mappings.countP (·.source.isSharedMemory))
  reserveCopies attachments
  tryReserve attachments.length
  reserveAttachments [] attachments

/-! ## Attaching a shared-memory object -/

/-- The page loop of `mark_shared`. -/
def registerPages (objectId : Nat) : List LinuxPageBacking → List LinuxPageBacking →
  KernelM (List LinuxPageBacking)
  | shared, [] => pure shared
  | shared, original :: rest => do
      let acquired ← modifyGet (acquireOrRegisterSharedPage objectId shared.length original.pfn)
      let pfn ← onError (orThrow .einval acquired) (dropReferences shared.reverse)
      registerPages objectId (shared ++ [.sharedPage objectId shared.length pfn]) rest

/-- The page of the object takes the place of an original page, whose frame is freed
unless it is now the object's. -/
def releaseOriginal (objectId : Nat) (kernel : Kernel) (page : Nat × LinuxPageBacking) : Kernel :=
  let canonicalPfn := (kernel.shared.find (toLex (objectId, page.1))).map (·.pfn)
  match page.2 with
  | .privatePage pfn => if canonicalPfn = some pfn then kernel else kernel.freeFrame pfn
  | .sharedPage objectId pageIndex _ =>
    match kernel.releaseSharedPage objectId pageIndex with
    | (none, next) => next
    | (some pfn, next) => if canonicalPfn = some pfn then next else next.freeFrame pfn

def releaseOriginals (objectId : Nat) (originals : List LinuxPageBacking) (kernel : Kernel) :
  Kernel :=
  (originals.mapIdx fun index page => (index, page)).foldl (releaseOriginal objectId) kernel

/-- The page-table part of `mark_shared`. -/
def remapShared (pages : List LinuxMappedPage) (marked : LinuxProcessMapping) : MemoryM Unit := do
  unmapPagesTransactionally pages
  onError (mapMappingPages marked.addr marked.pages marked.source marked.prot 0)
    (restoreMappedPages pages)

/-- `mark_shared`; its `false` is the `EINVAL` that `shmat` makes of it. -/
def markShared (address len objectId : Nat) : MemoryM Unit := do
  let context ← get
  let index ← orThrow .einval (context.memory.mappings.findIdx? fun mapping =>
    mapping.addr == address && mapping.len == len)
  let mapping ← orThrow .einval context.memory.mappings[index]?
  let plan ← onKernel
    (tryCloneMappingMetadata context.memory.mappings context.memory.sharedAttachments)
  onKernel (tryReserve 1)
  onKernel (tryReserve mapping.pages.length)
  onKernel (tryReserve mapping.pages.length)
  onKernel (tryReserve mapping.pages.length)
  let pages ← onKernel (tryMappedPagesOverlapping context.memory.mappings address len)
  if pages.isEmpty then throw .einval
  else
    let shared ← onKernel (registerPages objectId [] mapping.pages)
    let marked := { mapping with pages := shared, source := .sharedMemory objectId }
    onError (remapShared pages marked) (·.withKernel (dropReferences shared.reverse))
    modify fun context => (context.withMemory (·.commitMappingMetadata { plan with
        mappings := plan.mappings.set index marked
        sharedAttachments := plan.sharedAttachments ++ [⟨objectId, address, len⟩] })).withKernel
          (releaseOriginals objectId mapping.pages)

/-- `remove_shared_page_name`. -/
def removeSharedPageName (objectId : Nat) (kernel : Kernel) : Kernel :=
  kernel.withShared { kernel.shared with
    pages := kernel.shared.pages.map fun record =>
      if record.objectId = objectId then { record with named := false } else record }

/-! ## The child -/

/-- A child under construction, and the reservations not yet handed to it. -/
structure ForkState where
  child : Context
  attachments : List LinuxSharedAttachmentClone

abbrev ForkM := Program ForkState SysError

def onChild {Value : Type} : MemoryM Value → ForkM Value :=
  zoom ForkState.child fun state child => { state with child := child }

/-- Hand the pages of a reservation to the child. -/
def takeAttachment (index : Nat) (attachment : LinuxSharedAttachmentClone) :
  ForkM (List LinuxPageBacking) := do
  modify fun state =>
    { child := state.child.withMemory fun memory =>
        if attachment.ownsAttachmentReference then
          { memory with sharedAttachments := memory.sharedAttachments ++
            [⟨attachment.objectId, attachment.attachmentAddr, attachment.attachmentLen⟩] }
        else memory
      attachments := state.attachments.set index
        { attachment with pages := [], ownsAttachmentReference := false } }
  return attachment.pages

/-- The reservation made for a mapping. -/
def reservedFor (attachments : List LinuxSharedAttachmentClone) (mapping : LinuxProcessMapping) :
  Option Nat :=
  attachments.findIdx? fun attachment =>
    attachment.addr == mapping.addr && attachment.len == mapping.len &&
      mapping.source == .sharedMemory attachment.objectId

def childPagesReserved (mapping : LinuxProcessMapping)
  (attachments : List LinuxSharedAttachmentClone) :
  Option Nat → ForkM (List LinuxPageBacking)
  | some index => do
      let attachment ← orThrow .einval attachments[index]?
      takeAttachment index attachment
  | none => onChild (onKernel (clonePages mapping.pages))

def childPages (mapping : LinuxProcessMapping) : ForkM (List LinuxPageBacking) := do
  let state ← get
  childPagesReserved mapping state.attachments (reservedFor state.attachments mapping)

/-- The copies of private pages take the place of the parent's pages in the child's tables. -/
def remapPrivatePages : List LinuxMappedPage → MemoryM Unit
  | [] => pure ()
  | page :: rest =>
    if page.backing.isPrivate then do
      let _ ← unmapPage page.address
      mapPage page.address page.backing.pfn page.prot
      remapPrivatePages rest
    else remapPrivatePages rest

def cloneMapping (mapping : LinuxProcessMapping) : ForkM Unit := do
  let source ← onChild (onKernel (trySlice mapping.source 0))
  let pages ← childPages mapping
  let cloned := { mapping with pages := pages, source := source }
  onChild (onError (remapPrivatePages cloned.mappedPages) (·.freeBackings pages))
  modify fun state => { state with
    child := state.child.withMemory fun memory =>
      memory.withMappings (memory.mappings ++ [cloned]) }

def cloneAllMappings : List LinuxProcessMapping → ForkM Unit
  | [] => pure ()
  | mapping :: rest => do
      cloneMapping mapping
      cloneAllMappings rest

/-- The break area, as a mapping of its own. -/
def BrkState.mappedPages (start : Nat) (pages : List LinuxPageBacking) : List LinuxMappedPage :=
  LinuxProcessMapping.mappedPages ⟨start, 0, linuxBrkProt, 0, pages, .anonymous⟩

def cloneBrk (brk : BrkState) : MemoryM Unit := do
  let pages ← onKernel (clonePages brk.pages)
  onError (remapPrivatePages (BrkState.mappedPages brk.start pages)) (·.freeBackings pages)
  modify (·.withMemory fun memory => { memory with brk := { memory.brk with pages := pages } })

/-- The reservations have all been handed over. -/
def checkAttachments : ForkM Unit := do
  let state ← get
  if state.attachments.any fun attachment =>
      !attachment.pages.isEmpty || attachment.ownsAttachmentReference then
    throw .einval
  else pure ()

variable (parent : LinuxProcessMemory)
/-- The child before its mappings are cloned. -/
def newChild (childPid : Nat) : LinuxProcessMemory where
  pid := childPid
  privatePageTrackingEnabled := true
  privatePageHints := []
  addressSpace := ⟨parent.addressSpace.pages, fun _ => false⟩
  mappings := []
  sharedAttachments := []
  nextAddr := parent.nextAddr
  brk := { parent.brk with pages := [] }

def cloneMemory : ForkM Unit := do
  let state ← get
  onChild (onKernel (tryReserve parent.mappings.length))
  onChild (onKernel (tryReserve state.attachments.length))
  cloneAllMappings parent.mappings
  checkAttachments
  onChild (cloneBrk parent.brk)

end Smros.ProcessMemory
