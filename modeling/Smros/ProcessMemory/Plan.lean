import Smros.ProcessMemory.Kernel

/-!
# Planning a change of the mappings

Before the page tables are touched, a call builds the mapping list it will commit.  A
range is cut out of every mapping it meets, or given a new protection there; what
remains of a mapping on either side becomes a mapping of its own.
-/

namespace Smros.ProcessMemory
open Lib Kernel
open PageTable (pageSize)

structure LinuxMappingMetadataPlan where
  mappings : List LinuxProcessMapping
  removed : List LinuxPageBacking
  sharedAttachments : List LinuxSharedAttachmentRecord
  detached : List (Nat × Nat)
  deriving DecidableEq

namespace LinuxProcessMapping
variable (mapping : LinuxProcessMapping)
/-- The backings from one address of the mapping up to another. -/
def pagesBetween (start stop : Nat) : List LinuxPageBacking :=
  (mapping.pages.take ((stop - mapping.addr) / pageSize)).drop ((start - mapping.addr) / pageSize)

def piece (start stop : Nat) (prot : Prot) : LinuxProcessMapping where
  addr := start
  len := stop - start
  prot := prot
  flags := mapping.flags
  pages := mapping.pagesBetween start stop
  source := mapping.source.slice (start - mapping.addr)

/-- The part of a range that lies in the mapping. -/
def overlapStart (address : Nat) : Nat := max address mapping.addr

def overlapStop (rangeEnd : Nat) : Nat := min rangeEnd mapping.stop

/-- The addresses and protections of the pieces that replace an overlapped mapping. -/
def cuts (address rangeEnd : Nat) (replacement : Option Prot) : List (Nat × Nat × Prot) :=
  let overlapStart := mapping.overlapStart address
  let overlapStop := mapping.overlapStop rangeEnd
  (if overlapStart > mapping.addr then [(mapping.addr, overlapStart, mapping.prot)] else []) ++
    (replacement.map fun prot => (overlapStart, overlapStop, prot)).toList ++
    (if overlapStop < mapping.stop then [(overlapStop, mapping.stop, mapping.prot)] else [])

/-- What becomes of one mapping when `[address, address + len)` is transformed. -/
def transformed (address len : Nat) (replacement : Option Prot) (mapping : LinuxProcessMapping) :
  List LinuxProcessMapping :=
  if rangesOverlap address len mapping.addr mapping.len then
    (mapping.cuts address (address + len) replacement).map fun (start, stop, prot) =>
      mapping.piece start stop prot
  else [mapping]

/-- The backings of the mapping inside the range. -/
def overlapPages (address len : Nat) (mapping : LinuxProcessMapping) : List LinuxPageBacking :=
  if rangesOverlap address len mapping.addr mapping.len then
    mapping.pagesBetween (mapping.overlapStart address) (mapping.overlapStop (address + len))
  else []

end LinuxProcessMapping

/-- `try_slice`. -/
def trySlice (source : LinuxMappingSource) (delta : Nat) : KernelM LinuxMappingSource := do
  tryReserve source.pathLength
  return source.slice delta

def tryMappingPiece (mapping : LinuxProcessMapping) (start stop : Nat) (prot : Prot) :
  KernelM LinuxProcessMapping := do
  tryReserve (mapping.pagesBetween start stop).length
  let source ← trySlice mapping.source (start - mapping.addr)
  return { mapping.piece start stop prot with source := source }

def tryMappingPieces (mapping : LinuxProcessMapping) :
  List (Nat × Nat × Prot) → KernelM (List LinuxProcessMapping)
  | [] => pure []
  | (start, stop, prot) :: rest => do
      let piece ← tryMappingPiece mapping start stop prot
      let pieces ← tryMappingPieces mapping rest
      return piece :: pieces

def tryTransformMapping (address len : Nat) (replacement : Option Prot)
  (mapping : LinuxProcessMapping) : KernelM (List LinuxProcessMapping) :=
  if rangesOverlap address len mapping.addr mapping.len then
    tryMappingPieces mapping (mapping.cuts address (address + len) replacement)
  else pure [mapping]

/-- Put a mapping behind those that start no later. -/
def insertMapping (mapping : LinuxProcessMapping) (mappings : List LinuxProcessMapping) :
  List LinuxProcessMapping :=
  mappings.takeWhile (·.addr ≤ mapping.addr) ++
    mapping :: mappings.dropWhile (·.addr ≤ mapping.addr)

/-- A method of a plan, which keeps the changes it has made when it fails. -/
abbrev PlanM := Program (LinuxMappingMetadataPlan × Kernel) SysError

def onPlanKernel {Value : Type} : KernelM Value → PlanM Value :=
  Program.zoom Prod.snd fun state kernel => (state.1, kernel)

def onPlan (change : LinuxMappingMetadataPlan → LinuxMappingMetadataPlan) : PlanM Unit :=
  modify fun state => (change state.1, state.2)

namespace LinuxMappingMetadataPlan
variable (plan : LinuxMappingMetadataPlan)
/-- The plan after a range is cut out (`none`) or protected anew. -/
def transformRange (address len : Nat) (replacement : Option Prot) : LinuxMappingMetadataPlan :=
  { plan with
    mappings := plan.mappings.flatMap (·.transformed address len replacement)
    removed := plan.removed ++
      if replacement.isNone then plan.mappings.flatMap (·.overlapPages address len) else [] }

/-- What the loop of `try_transform_range` has made of a plan when it is through with some
mappings: the list has been taken out of it. -/
def partly (address len : Nat) (replacement : Option Prot) (earlier : List LinuxProcessMapping) :
    LinuxMappingMetadataPlan :=
  { plan with
    mappings := []
    removed := plan.removed ++
      if replacement.isNone then earlier.flatMap (·.overlapPages address len) else [] }

/-- The second loop of `try_transform_range`, with the list that it builds. -/
def tryTransformMappings (address len : Nat) (replacement : Option Prot) :
    List LinuxProcessMapping → PlanM (List LinuxProcessMapping)
  | [] => pure []
  | mapping :: rest => do
      onPlan (·.partly address len replacement [mapping])
      let pieces ← onPlanKernel (tryTransformMapping address len replacement mapping)
      let others ← tryTransformMappings address len replacement rest
      return pieces ++ others

/-- A failure inside the loop leaves the plan without its mappings. -/
def tryTransformRange (address len : Nat) (replacement : Option Prot) : PlanM Unit := do
  let _ ← Program.orThrow .einval (checkedAdd address len)
  let plan ← Prod.fst <$> get
  let next := plan.transformRange address len replacement
  onPlanKernel (tryReserve next.mappings.length)
  onPlanKernel (tryReserve (next.removed.length - plan.removed.length))
  onPlan fun plan => { plan with mappings := [] }
  let mappings ← tryTransformMappings address len replacement plan.mappings
  onPlan fun plan => { plan with mappings := mappings }

/-- The callers own the plan, and drop it with the error. -/
def transforming (address len : Nat) (replacement : Option Prot) :
    KernelM LinuxMappingMetadataPlan := fun kernel =>
  match tryTransformRange address len replacement (plan, kernel) with
  | .ok () (next, after) => .ok next after
  | .error error (_, after) => .error error after

def insertMapping (mapping : LinuxProcessMapping) : LinuxMappingMetadataPlan :=
  { plan with mappings := ProcessMemory.insertMapping mapping plan.mappings }

/-- The attachment still has a mapping of its object. -/
def attached (mappings : List LinuxProcessMapping) (attachment : LinuxSharedAttachmentRecord) :
  Bool :=
  mappings.any fun mapping =>
    mapping.source == .sharedMemory attachment.objectId &&
      rangesOverlap attachment.addr attachment.len mapping.addr mapping.len

def reconcileSharedAttachments (plan : LinuxMappingMetadataPlan) : LinuxMappingMetadataPlan :=
  { plan with
    sharedAttachments := plan.sharedAttachments.filter (attached plan.mappings)
    detached := plan.detached ++
      (plan.sharedAttachments.filter fun attachment => !attached plan.mappings attachment).map
        fun attachment => (attachment.objectId, attachment.addr) }

end LinuxMappingMetadataPlan

/-- `try_clone_mapping`. -/
def tryCloneMapping (mapping : LinuxProcessMapping) : KernelM LinuxProcessMapping := do
  tryReserve mapping.pages.length
  let source ← trySlice mapping.source 0
  return { mapping with source := source }

def tryCloneMappings : List LinuxProcessMapping → KernelM (List LinuxProcessMapping)
  | [] => pure []
  | mapping :: rest => do
      let cloned ← tryCloneMapping mapping
      let others ← tryCloneMappings rest
      return cloned :: others

/-- `try_clone_mapping_metadata`: the plan that changes nothing yet. -/
def tryCloneMappingMetadata (mappings : List LinuxProcessMapping)
  (sharedAttachments : List LinuxSharedAttachmentRecord) : KernelM LinuxMappingMetadataPlan := do
  tryReserve mappings.length
  let cloned ← tryCloneMappings mappings
  tryReserve sharedAttachments.length
  return ⟨cloned, [], sharedAttachments, []⟩

end Smros.ProcessMemory
