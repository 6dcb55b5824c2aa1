import Smros.ProcessMemory.Pages
import Smros.ProcessMemory.Plan

/-!
# One process memory and its page tables

Of the page tables a process memory sees the pages they translate, and that a call may
find no table: a region of 2 MiB whose tables are missing, or shared with a forked
space, needs new ones before an entry of it can change.  Mapping a run of pages keeps
the pages it has already entered when it runs out of tables.
-/

namespace Smros.ProcessMemory
open Lib Kernel
open PageTable (pageSize PageMap UserPage FrameWindow AddressSpaceCoreError Reference.ReferenceM
  userRangeValid)

/-- The translated pages, and the regions whose tables are present and the space's own. -/
structure UserTables where
  pages : PageMap
  ready : Nat → Bool

def UserTables.new : UserTables := ⟨fun _ => none, fun _ => false⟩

/-- The region of one leaf table. -/
def tableRegion (vaddr : Nat) : Nat := vaddr / 2 ^ 21

structure LinuxProcessMemory where
  pid : Nat
  privatePageTrackingEnabled : Bool
  privatePageHints : List LinuxPrivatePageHint
  addressSpace : UserTables
  mappings : List LinuxProcessMapping
  sharedAttachments : List LinuxSharedAttachmentRecord
  nextAddr : Nat
  brk : BrkState

/-- A process memory at work in the kernel. -/
structure Context where
  memory : LinuxProcessMemory
  kernel : Kernel

abbrev MemoryM := Program Context SysError

/-- Run a kernel function from a call on a process memory. -/
def onKernel {Value : Type} : KernelM Value → MemoryM Value :=
  Program.zoom Context.kernel fun context kernel => { context with kernel := kernel }

namespace Context
variable (context : Context)

def withKernel (change : Kernel → Kernel) : Context :=
  { context with kernel := change context.kernel }

def withMemory (change : LinuxProcessMemory → LinuxProcessMemory) : Context :=
  { context with memory := change context.memory }

def withPages (pages : PageMap) : Context :=
  context.withMemory fun memory =>
    { memory with addressSpace := { memory.addressSpace with pages := pages } }

end Context

/-! ## Page-table calls -/

def mapAddressError : AddressSpaceCoreError → SysError
  | .outOfMemory => .enomem
  | .permissionDenied => .efault
  | .invalidAddress => .einval
  | .alreadyMapped => .einval
  | .notMapped => .einval

/-- A call on the translated pages. -/
def onPages {Value : Type} (call : Reference.ReferenceM Value) : MemoryM Value := fun context =>
  match call context.memory.addressSpace.pages with
  | .ok value pages => .ok value (context.withPages pages)
  | .error error pages => .error (mapAddressError error) (context.withPages pages)

/-- Make or detach the tables of a page, unless the space has them to itself. -/
def ensureTables (vaddr : Nat) : MemoryM Unit := fun context =>
  if context.memory.addressSpace.ready (tableRegion vaddr) then .ok () context
  else
    let (answer, rest) := nextAnswer none context.kernel.environment.tables
    let asked := context.withKernel fun kernel =>
      { kernel with environment := { kernel.environment with tables := rest } }
    match answer with
    | some error => .error (mapAddressError error) asked
    | none =>
      .ok () (asked.withMemory fun memory =>
        { memory with addressSpace := { memory.addressSpace with
          ready := Function.update memory.addressSpace.ready (tableRegion vaddr) true } })

/-- A call on one page: its address is checked before its tables are. -/
def pageCall {Value : Type} (vaddr : Nat) (call : FrameWindow → Reference.ReferenceM Value) :
  MemoryM Value :=
  if !userRangeValid vaddr pageSize then throw .einval
  else do
    ensureTables vaddr
    let context ← get
    onPages (call context.kernel.frames.window)

def mapPage (address pfn : Nat) (prot : Prot) : MemoryM Unit :=
  pageCall address fun window =>
    PageTable.Reference.mapUserPage window address pfn (pagePermissions prot)

def protectPage (address : Nat) (prot : Prot) : MemoryM Unit :=
  pageCall address fun _ => PageTable.Reference.protectUserPage address (pagePermissions prot)

def unmapPage (address : Nat) : MemoryM Nat :=
  pageCall address fun _ => PageTable.Reference.unmapUserPage address

def replacePage (address pfn : Nat) (prot : Prot) : MemoryM Nat :=
  pageCall address fun window =>
    PageTable.Reference.replaceUserPage window address pfn (pagePermissions prot)

/-- The regions of the first pages of a run. -/
def readyThrough (vaddr reached : Nat) (ready : Nat → Bool) (region : Nat) : Bool :=
  ready region || (List.range reached).any fun pageIndex =>
    tableRegion (vaddr + pageIndex * pageSize) == region

/-- `map_user_pages_with_protection`: a run that finds no table at some page leaves the
pages before it mapped. -/
def mapUserPagesWithProtection (vaddr pageCount : Nat) (pfnAt : Nat → Nat)
  (protectionAt : Nat → PageTable.Core.Permissions) : MemoryM Unit :=
  if !userRangeValid vaddr (pageCount * pageSize) then throw .einval
  else do
    onKernel (tryReserve 2)
    onKernel (tryReserve pageCount)
    let context ← get
    let reached := min (context.kernel.environment.bulk.getD pageCount) pageCount
    onPages (PageTable.Reference.mapProtectedPages context.kernel.frames.window
      context.memory.addressSpace.pages vaddr pfnAt protectionAt (List.range reached))
    modify fun context => context.withMemory fun memory =>
      { memory with addressSpace := { memory.addressSpace with
        ready := readyThrough vaddr reached memory.addressSpace.ready } }
    if reached < pageCount then throw .enomem else pure ()

/-! ## Pages with their protection -/

structure LinuxMappedPage where
  address : Nat
  backing : LinuxPageBacking
  prot : Prot
  deriving DecidableEq

namespace LinuxProcessMapping
/-- The page at an index, protected as the page tables have it. -/
def mappedPage (mapping : LinuxProcessMapping) (index : Nat) (backing : LinuxPageBacking) :
  LinuxMappedPage where
  address := mapping.addr + index * pageSize
  backing := backing
  prot := protectionForBacking backing (mappingPageProt mapping.source mapping.prot index)

def mappedPages (mapping : LinuxProcessMapping) : List LinuxMappedPage :=
  mapping.pages.mapIdx mapping.mappedPage

/-- The mapped pages of the mapping inside a range. -/
def mappedPagesOverlapping (address len : Nat) (mapping : LinuxProcessMapping) :
  List LinuxMappedPage :=
  if rangesOverlap address len mapping.addr mapping.len then
    (mapping.mappedPages.take
        ((mapping.overlapStop (address + len) - mapping.addr) / pageSize)).drop
      ((mapping.overlapStart address - mapping.addr) / pageSize)
  else []

end LinuxProcessMapping

/-- `try_mapped_pages_overlapping`. -/
def tryMappedPagesOverlapping (mappings : List LinuxProcessMapping) (address len : Nat) :
  KernelM (List LinuxMappedPage) := do
  let _ ← Program.orThrow .einval (checkedAdd address len)
  let pages := mappings.flatMap (·.mappedPagesOverlapping address len)
  tryReserve pages.length
  return pages.insertionSort fun first second => first.address ≤ second.address

/-- `try_mapped_pages_for_mapping`, for pages below the address limit. -/
def tryMappedPagesForMapping (address : Nat) (pages : List LinuxPageBacking)
  (source : LinuxMappingSource) (requestedProt : Prot) : KernelM (List LinuxMappedPage) := do
  tryReserve pages.length
  return { addr := address, len := 0, prot := requestedProt, flags := 0, pages, source :
    LinuxProcessMapping }.mappedPages

/-! ## Changes of several pages -/

def restoreMappedPages (pages : List LinuxMappedPage) (context : Context) : Context :=
  pages.foldl (fun context page =>
    Program.attempt (mapPage page.address page.backing.pfn page.prot) context) context

/-- Unmap one page after another; `undo` puts the pages done back when one fails. -/
def unmapPages (undo : List LinuxMappedPage → Context → Context) :
  List LinuxMappedPage → List LinuxMappedPage → MemoryM Unit
  | _, [] => pure ()
  | done, page :: rest => do
      let _ ← Program.onError (unmapPage page.address) (undo done)
      unmapPages undo (done ++ [page]) rest

def unmapPagesTransactionally (pages : List LinuxMappedPage) : MemoryM Unit :=
  unmapPages restoreMappedPages [] pages

/-- The pages of one mapping; they are put back from the last to the first. -/
def unmapExactMappingPagesTransactionally (mapping : LinuxProcessMapping) : MemoryM Unit :=
  unmapPages (fun done => restoreMappedPages done.reverse) [] mapping.mappedPages

structure LinuxPageProtectionChange where
  address : Nat
  oldProt : Prot
  newProt : Prot
  deriving DecidableEq

def undoProtections (changes : List LinuxPageProtectionChange) (context : Context) : Context :=
  changes.foldl (fun context change =>
    Program.attempt (protectPage change.address change.oldProt) context) context

def protectPages : List LinuxPageProtectionChange → List LinuxPageProtectionChange → MemoryM Unit
  | _, [] => pure ()
  | done, change :: rest => do
      Program.onError (protectPage change.address change.newProt)
        (undoProtections (change :: done.reverse))
      protectPages (done ++ [change]) rest

def protectPagesTransactionally (changes : List LinuxPageProtectionChange) : MemoryM Unit :=
  protectPages [] changes

/-! ## Mapping the pages of a mapping -/

/-- The hints for the private pages of a run. -/
def privateHints (address : Nat) (pages : List LinuxPageBacking) : List LinuxPrivatePageHint :=
  (pages.mapIdx fun index page => (page, address + index * pageSize)).filterMap
    fun (page, pageAddress) =>
      match page with
      | .privatePage pfn => some ⟨pageAddress, pfn⟩
      | .sharedPage .. => none

def mapUnmappedPagesWithProtection (address : Nat) (pages : List LinuxPageBacking)
  (protection : Nat → Prot) : MemoryM Unit := do
  let context ← get
  let hints :=
    if context.memory.privatePageTrackingEnabled then privateHints address pages else []
  onKernel (tryReserve hints.length)
  mapUserPagesWithProtection address pages.length (fun index => (pages[index]?.map (·.pfn)).getD 0)
    (fun index => pagePermissions ((pages[index]?.map fun page =>
      protectionForBacking page (protection index)).getD 0))
  modify fun context => context.withMemory fun memory =>
    { memory with privatePageHints := memory.privatePageHints ++ hints }

def mapMappingPages (address : Nat) (pages : List LinuxPageBacking) (source : LinuxMappingSource)
  (requestedProt : Prot) (firstPageIndex : Nat) : MemoryM Unit :=
  mapUnmappedPagesWithProtection address pages fun index =>
    mappingPageProt source requestedProt (saturatingAdd firstPageIndex index)

/-! ## Access to the bytes of a page -/

/-- The frame and offset behind an address, if the access is allowed. -/
def translateUser (memory : LinuxProcessMemory) (vaddr : Nat) (write : Bool) : Option (Nat × Nat) :=
  (PageTable.Reference.translateUser memory.addressSpace.pages vaddr write).map fun physical =>
    (physical / pageSize, physical % pageSize)

def storeByte (kernel : Kernel) (target : Nat × Nat) (byte : UInt8) : Kernel :=
  kernel.fill target.1 (Function.update (kernel.contents target.1) target.2 byte)

/-- Store the bytes one after another; addresses that do not translate are skipped. -/
def storeBytes (memory : LinuxProcessMemory) : Nat → List UInt8 → Kernel → Kernel
  | _, [], kernel => kernel
  | vaddr, byte :: rest, kernel =>
    storeBytes memory (vaddr + 1) rest (match translateUser memory vaddr true with
      | none => kernel
      | some target => storeByte kernel target byte)

/-- `copy_to_mapped_pages`: every byte must be writable before the first is written. -/
def copyToMappedPages (address : Nat) (bytes : List UInt8) : MemoryM Unit := do
  let context ← get
  let _ ← Program.orThrow .efault (checkedAdd address bytes.length)
  if (List.range bytes.length).all fun index =>
      (translateUser context.memory (address + index) true).isSome then
    modify (·.withKernel (storeBytes context.memory address bytes))
  else throw .efault

end Smros.ProcessMemory
