import Smros.Lib.Program
import Smros.Lib.Vectors
import Smros.PageTable.Backend

/-!
# User address spaces

Three levels of tables translate a user page.  A cloned space shares the
level-one tables of its parent; whichever space changes a mapping first detaches
the shared tables on the path to it.  The functions follow the source's own
order of checks, so a failure leaves exactly the tables it leaves there.
-/

namespace Smros.PageTable
open Lib
open Program (orThrow onError)

/-- `AARCH64_USER_BASE`. -/
def userBase : Nat := 0x10000000

/-- `AARCH64_USER_LIMIT`. -/
def userLimit : Nat := 0x20000000

/-- `AARCH64_VA_BITS`. -/
def vaBits : Nat := 39

/-- The root, level-one and leaf index of an address. -/
def tableIndices (vaddr : Nat) : Option (Nat × Nat × Nat) :=
  if vaddr ≥ 2 ^ vaBits then none
  else
    some (vaddr / 2 ^ 30 % tableEntries, vaddr / 2 ^ 21 % tableEntries,
      vaddr / 2 ^ 12 % tableEntries)

/-- `aarch64_user_range_valid`; the bound also covers `checked_add`. -/
def userRangeValid (start len : Nat) : Bool :=
  start % pageSize == 0 && len != 0 && len % pageSize == 0 && userBase ≤ start &&
    start + len ≤ userLimit

/-- The root of an address space and the tables it holds. -/
structure AddressSpace where
  rootPfn : Nat
  tablePfns : List Nat
  deriving DecidableEq

/--
An address space at work over the shared backend.  `created` and `mapped` are the
undo lists of the running mapping call.
-/
structure Core where
  space : AddressSpace
  backend : TableBackend
  created : List (Nat × Nat × Nat)
  mapped : List Nat

abbrev CoreM := Program Core AddressSpaceCoreError

namespace Core
/-- Open a call on `space`. -/
def start (space : AddressSpace) (backend : TableBackend) : Core := ⟨space, backend, [], []⟩

variable (core : Core)

def withBackend (backend : TableBackend) : Core := { core with backend := backend }

def withTables (tablePfns : List Nat) : Core :=
  { core with space := { core.space with tablePfns := tablePfns } }

def pushTable (pfn : Nat) : Core := core.withTables (core.space.tablePfns ++ [pfn])

def releaseTable (pfn : Nat) : Core := core.withBackend (core.backend.releaseTable pfn)

/-- Pop and release the tables above `length`. -/
def truncateTables (length : Nat) (core : Core) : Core :=
  (core.withTables (core.space.tablePfns.take length)).withBackend
    (core.backend.releaseAll (core.space.tablePfns.drop length).reverse)

/-! ## Primitive steps -/

def allocateTable : CoreM Nat := fun core =>
  match core.backend.allocateTable with
  | (.ok pfn, backend) => .ok pfn (core.withBackend backend)
  | (.error error, backend) => .error error (core.withBackend backend)

def readTableEntry (pfn index : Nat) : CoreM Descriptor := do
  let core ← get
  orThrow .invalidAddress (core.backend.readTableEntry pfn index)

/-- A refused write ends the call with `InvalidAddress`. -/
def writeTableEntry (pfn index : Nat) (descriptor : Descriptor) : CoreM Unit := do
  let core ← get
  let backend ← orThrow .invalidAddress (core.backend.writeTableEntry pfn index descriptor)
  set (core.withBackend backend)

def copyTableWithin (sourcePfn destinationPfn : Nat) : CoreM Unit := do
  let core ← get
  let backend ← orThrow .invalidAddress (core.backend.copyTableWithin sourcePfn destinationPfn)
  set (core.withBackend backend)

def retainTable (pfn : Nat) : CoreM Unit := do
  let core ← get
  let backend ← orThrow .outOfMemory (core.backend.retainTable pfn)
  set (core.withBackend backend)

/-! ## Detaching shared tables -/

/-- Hold every child of the copied level-one table. -/
def retainChildren (destinationPfn : Nat) : List Nat → CoreM Unit
  | [] => pure ()
  | index :: rest => do
      let descriptor ← readTableEntry destinationPfn index
      if descriptorValid descriptor then
        retainTable (descriptorPfn descriptor)
        modify (·.pushTable (descriptorPfn descriptor))
      retainChildren destinationPfn rest

def rollbackDetachedTable (destinationPfn retainedStart : Nat) (core : Core) : Core :=
  (core.releaseTable destinationPfn).truncateTables retainedStart

/-- The last part of `detach_shared_table`: the copy takes the place of the source. -/
def linkDetachedTable (parentPfn parentIndex sourcePfn destinationPfn : Nat) : CoreM Unit := do
  let core ← get
  let destinationPaddr ← orThrow .invalidAddress (core.backend.pfnAddress destinationPfn)
  let position ← orThrow .invalidAddress (core.space.tablePfns.findIdx? (· == sourcePfn))
  writeTableEntry parentPfn parentIndex (tableDescriptor destinationPaddr)
  modify fun core => ((core.withTables (swapRemove core.space.tablePfns position)).releaseTable
    sourcePfn).pushTable destinationPfn

/-- The part of `detach_shared_table` after the copy has been allocated; every
failure in it takes the copy and the retained children back. -/
def fillDetachedTable (parentPfn parentIndex sourcePfn destinationPfn level : Nat) :
  CoreM Unit := do
  copyTableWithin sourcePfn destinationPfn
  if level = 1 then
    retainChildren destinationPfn (List.range tableEntries)
  linkDetachedTable parentPfn parentIndex sourcePfn destinationPfn

def detachSharedTable (parentPfn parentIndex sourcePfn level : Nat) : CoreM Nat := do
  let core ← get
  if core.backend.tableIsShared sourcePfn then
    let destinationPfn ← allocateTable
    onError (fillDetachedTable parentPfn parentIndex sourcePfn destinationPfn level)
      (rollbackDetachedTable destinationPfn core.space.tablePfns.length)
    return destinationPfn
  else
    return sourcePfn

def ensurePrivateExistingPath (vaddr : Nat) : CoreM Unit := do
  let indices ← orThrow .invalidAddress (tableIndices vaddr)
  let core ← get
  let levelOne ← readTableEntry core.space.rootPfn indices.1
  if levelOne = 0#64 then
    return ()
  else if !descriptorValid levelOne then
    throw .alreadyMapped
  else
    let levelOnePfn ← detachSharedTable core.space.rootPfn indices.1 (descriptorPfn levelOne) 1
    let levelTwo ← readTableEntry levelOnePfn indices.2.1
    if levelTwo = 0#64 then
      return ()
    else if !descriptorValid levelTwo then
      throw .alreadyMapped
    else
      let _ ← detachSharedTable levelOnePfn indices.2.1 (descriptorPfn levelTwo) 2
      return ()

/-! ## Walking and growing the tables -/

/-- One level of `leaf_location`. -/
def childTable (backend : TableBackend) (tablePfn index : Nat) : Except AddressSpaceCoreError Nat :=
  match backend.readTableEntry tablePfn index with
  | none => .error .invalidAddress
  | some descriptor =>
    if descriptorValid descriptor then .ok (descriptorPfn descriptor) else .error .notMapped

def leafLocation (space : AddressSpace) (backend : TableBackend) (vaddr : Nat) :
  Except AddressSpaceCoreError (Nat × Nat) :=
  match tableIndices vaddr with
  | none => .error .invalidAddress
  | some indices => do
      let levelOnePfn ← childTable backend space.rootPfn indices.1
      let leafPfn ← childTable backend levelOnePfn indices.2.1
      return (leafPfn, indices.2.2)

/-- One level of `ensure_leaf_table`. -/
def ensureChildTable (tablePfn index : Nat) : CoreM Nat := do
  let descriptor ← readTableEntry tablePfn index
  if descriptor = 0#64 then
    let childPfn ← allocateTable
    let core ← get
    let childPaddr ← onError (orThrow .invalidAddress (core.backend.pfnAddress childPfn))
      (·.releaseTable childPfn)
    modify fun core =>
      { core.pushTable childPfn with created := core.created ++ [(tablePfn, index, childPfn)] }
    writeTableEntry tablePfn index (tableDescriptor childPaddr)
    return childPfn
  else if descriptorValid descriptor then
    return descriptorPfn descriptor
  else
    throw .alreadyMapped

def ensureLeafTable (indices : Nat × Nat × Nat) : CoreM Nat := do
  let core ← get
  let levelOnePfn ← ensureChildTable core.space.rootPfn indices.1
  ensureChildTable levelOnePfn indices.2.1

/-- A write whose refusal is ignored. -/
def tryWrite (pfn index : Nat) (descriptor : Descriptor) : Core :=
  match core.backend.writeTableEntry pfn index descriptor with
  | none => core
  | some backend => core.withBackend backend

/-- Clear one page that the failed call had mapped. -/
def unmapRecorded (vaddr : Nat) : Core :=
  match leafLocation core.space core.backend vaddr with
  | .error _ => core
  | .ok (tablePfn, index) => core.tryWrite tablePfn index 0#64

/-- Unlink one table that the failed call had created; it leaves the held list only
when it is the last one there. -/
def unlinkCreated (created : Nat × Nat × Nat) : Core :=
  let unlinked := core.tryWrite created.1 created.2.1 0#64
  let popped :=
    if unlinked.space.tablePfns.getLast? = some created.2.2 then
      unlinked.withTables unlinked.space.tablePfns.dropLast
    else
      unlinked
  popped.releaseTable created.2.2

def rollbackMappingTransaction : Core :=
  let cleared := core.mapped.reverse.foldl unmapRecorded core
  core.created.reverse.foldl unlinkCreated cleared

/-! ## Mapping -/

/-- Readable, writable and executable. -/
abbrev Permissions := Bool × Bool × Bool

def pageDescriptor (paddr : Nat) (permissions : Permissions) : Descriptor :=
  userPageDescriptor paddr permissions.1 permissions.2.1 permissions.2.2

def mapUserPageRecorded (vaddr pfn : Nat) (permissions : Permissions) : CoreM Unit :=
  if !userRangeValid vaddr pageSize then
    throw .invalidAddress
  else do
    ensurePrivateExistingPath vaddr
    let core ← get
    let paddr ← orThrow .invalidAddress (core.backend.pfnAddress pfn)
    let indices ← orThrow .invalidAddress (tableIndices vaddr)
    let tablePfn ← ensureLeafTable indices
    let descriptor ← readTableEntry tablePfn indices.2.2
    if descriptor ≠ 0#64 then
      throw .alreadyMapped
    else
      writeTableEntry tablePfn indices.2.2 (pageDescriptor paddr permissions)
      modify fun core => { core with mapped := core.mapped ++ [vaddr] }

def mapUserPage (vaddr pfn : Nat) (permissions : Permissions) : CoreM Unit :=
  if !userRangeValid vaddr pageSize then
    throw .invalidAddress
  else do
    ensurePrivateExistingPath vaddr
    let core ← get
    let paddr ← orThrow .invalidAddress (core.backend.pfnAddress pfn)
    match leafLocation core.space core.backend vaddr with
    | .ok (tablePfn, index) =>
      let descriptor ← readTableEntry tablePfn index
      if descriptor ≠ 0#64 then
        throw .alreadyMapped
      else
        writeTableEntry tablePfn index (pageDescriptor paddr permissions)
    | .error _ => onError (mapUserPageRecorded vaddr pfn permissions) rollbackMappingTransaction

/-- The page loop of `map_user_region`. -/
def mapRegionPages (vaddr firstPfn : Nat) (permissions : Permissions) : List Nat → CoreM Unit
  | [] => pure ()
  | pageIndex :: rest => do
      mapUserPageRecorded (vaddr + pageIndex * pageSize) (firstPfn + pageIndex) permissions
      mapRegionPages vaddr firstPfn permissions rest

/-- `checked_mul` and `checked_add` fail at `2 ^ 64`. -/
def mapUserRegion (vaddr firstPfn pageCount : Nat) (permissions : Permissions) : CoreM Unit :=
  if 2 ^ 64 ≤ pageCount * pageSize then
    throw .invalidAddress
  else if !userRangeValid vaddr (pageCount * pageSize) then
    throw .invalidAddress
  else if 2 ^ 64 ≤ firstPfn + (pageCount - 1) then
    throw .invalidAddress
  else
    onError (mapRegionPages vaddr firstPfn permissions (List.range pageCount))
      rollbackMappingTransaction

/-- The leaf remembered from the page before, or a lookup. -/
def cachedLeafTable (cached : Option ((Nat × Nat) × Nat)) (indices : Nat × Nat × Nat) : CoreM Nat :=
  match cached with
  | some (cachedIndices, cachedLeaf) =>
    if cachedIndices = (indices.1, indices.2.1) then pure cachedLeaf
    else ensureLeafTable indices
  | none => ensureLeafTable indices

/-- The page loop of `map_user_pages_with_protection`.  Only a page that is already
mapped undoes the earlier ones; the other failures return at once. -/
def mapProtectedPages (vaddr : Nat) (pfnAt : Nat → Nat) (protectionAt : Nat → Permissions) :
  Option ((Nat × Nat) × Nat) → List Nat → CoreM Unit
  | _, [] => pure ()
  | cached, pageIndex :: rest => do
      let pageVaddr := vaddr + pageIndex * pageSize
      ensurePrivateExistingPath pageVaddr
      let indices ← orThrow .invalidAddress (tableIndices pageVaddr)
      let tablePfn ← cachedLeafTable cached indices
      let descriptor ← readTableEntry tablePfn indices.2.2
      if descriptor ≠ 0#64 then
        modify rollbackMappingTransaction
        throw .alreadyMapped
      else
        let core ← get
        let paddr ← orThrow .invalidAddress (core.backend.pfnAddress (pfnAt pageIndex))
        onError
          (writeTableEntry tablePfn indices.2.2 (pageDescriptor paddr (protectionAt pageIndex)))
          rollbackMappingTransaction
        modify fun core => { core with mapped := core.mapped ++ [pageVaddr] }
        mapProtectedPages vaddr pfnAt protectionAt (some ((indices.1, indices.2.1), tablePfn)) rest

def mapUserPagesWithProtection (vaddr pageCount : Nat) (pfnAt : Nat → Nat)
  (protectionAt : Nat → Permissions) : CoreM Unit :=
  if 2 ^ 64 ≤ pageCount * pageSize then
    throw .invalidAddress
  else if !userRangeValid vaddr (pageCount * pageSize) then
    throw .invalidAddress
  else if pageCount = 0 then
    pure ()
  else
    mapProtectedPages vaddr pfnAt protectionAt none (List.range pageCount)

/-! ## Changing one mapped page -/

/-- The common start of the calls on one mapped page: its leaf slot and descriptor. -/
def mappedPage (vaddr : Nat) : CoreM ((Nat × Nat) × Descriptor) := do
  ensurePrivateExistingPath vaddr
  let core ← get
  match leafLocation core.space core.backend vaddr with
  | .error error => throw error
  | .ok (tablePfn, index) =>
    let descriptor ← readTableEntry tablePfn index
    if !descriptorValid descriptor then
      throw .notMapped
    else
      return ((tablePfn, index), descriptor)

def protectUserPage (vaddr : Nat) (permissions : Permissions) : CoreM Unit :=
  if !userRangeValid vaddr pageSize then
    throw .invalidAddress
  else do
    let ((tablePfn, index), descriptor) ← mappedPage vaddr
    writeTableEntry tablePfn index 0#64
    writeTableEntry tablePfn index (pageDescriptor (descriptor &&& descAddrMask).toNat permissions)

def replaceUserPage (vaddr pfn : Nat) (permissions : Permissions) : CoreM Nat :=
  if !userRangeValid vaddr pageSize then
    throw .invalidAddress
  else do
    let core ← get
    let replacementPaddr ← orThrow .invalidAddress (core.backend.pfnAddress pfn)
    let ((tablePfn, index), descriptor) ← mappedPage vaddr
    writeTableEntry tablePfn index 0#64
    onError (writeTableEntry tablePfn index (pageDescriptor replacementPaddr permissions))
      fun core => core.tryWrite tablePfn index descriptor
    return descriptorPfn descriptor

def unmapUserPage (vaddr : Nat) : CoreM Nat :=
  if !userRangeValid vaddr pageSize then
    throw .invalidAddress
  else do
    let ((tablePfn, index), descriptor) ← mappedPage vaddr
    writeTableEntry tablePfn index 0#64
    return descriptorPfn descriptor

/-! ## Cloning -/

/-- The loop of `clone_shared_mappings_from` over the root entries of `source`. -/
def cloneRootEntries (source : AddressSpace) : List Nat → CoreM Unit
  | [] => pure ()
  | rootIndex :: rest => do
      let descriptor ← readTableEntry source.rootPfn rootIndex
      let core ← get
      if descriptor = 0#64 then
        cloneRootEntries source rest
      else if !descriptorValid descriptor then
        writeTableEntry core.space.rootPfn rootIndex descriptor
        cloneRootEntries source rest
      else
        retainTable (descriptorPfn descriptor)
        modify (·.pushTable (descriptorPfn descriptor))
        writeTableEntry core.space.rootPfn rootIndex descriptor
        cloneRootEntries source rest

def cloneSharedMappingsFrom (source : AddressSpace) : CoreM Unit := do
  let core ← get
  onError (cloneRootEntries source (List.range tableEntries))
    (truncateTables core.space.tablePfns.length)

end Core

namespace AddressSpace
/-- `Aarch64AddressSpaceCore::new`. -/
def new (backend : TableBackend) : Except AddressSpaceCoreError AddressSpace × TableBackend :=
  match backend.allocateTable with
  | (.ok rootPfn, backend) => (.ok ⟨rootPfn, [rootPfn]⟩, backend)
  | (.error error, backend) => (.error error, backend)

/-- `Drop`: release every held table. -/
def drop (space : AddressSpace) (backend : TableBackend) : TableBackend :=
  backend.releaseAll space.tablePfns

/-- A new space that shares the mappings of `parent`; a failed clone is dropped. -/
def newForFork (parent : AddressSpace) (backend : TableBackend) :
  Except AddressSpaceCoreError AddressSpace × TableBackend :=
  match new backend with
  | (.error error, backend) => (.error error, backend)
  | (.ok child, backend) =>
    match Core.cloneSharedMappingsFrom parent (.start child backend) with
    | .ok _ core => (.ok core.space, core.backend)
    | .error error core => (.error error, core.space.drop core.backend)

/-- The physical address behind a user address, if the access is allowed. -/
def translateUser (space : AddressSpace) (backend : TableBackend) (vaddr : Nat)
  (write : Bool) : Option Nat :=
  if ¬ (userBase ≤ vaddr ∧ vaddr < userLimit) then
    none
  else
    match Core.leafLocation space backend vaddr with
    | .error _ => none
    | .ok (tablePfn, index) =>
      match backend.readTableEntry tablePfn index with
      | none => none
      | some descriptor =>
        if !descriptorValid descriptor || descriptor &&& descApUser == 0#64 ||
            (write && descriptor &&& descApReadOnly != 0#64) then
          none
        else
          some ((descriptor &&& descAddrMask).toNat ||| (vaddr % pageSize))

end AddressSpace
end Smros.PageTable
