import Smros.Objects.Rights
import Smros.ProcessMemory.Operations

/-!
# Regions of virtual memory

A region (VMAR) keeps a list of mappings.  Unmapping and protecting cut the mappings that
meet the range; the system calls test the rights of the handles and act on the region
that a handle resolves to.  The children of a region and its parent, which only its
destruction follows, are left out.
-/

namespace Smros.Objects
open ProcessMemory (checkedAdd pageAligned rangesOverlap roundupPages)
open PageTable (pageSize)

structure MmuFlags where
  read : Bool
  write : Bool
  execute : Bool
  user : Bool
  deriving DecidableEq

structure VmarMapping where
  vaddr : Nat
  size : Nat
  vmoHandle : Nat
  vmoOffset : Nat
  mmuFlags : MmuFlags
  valid : Bool
  deriving DecidableEq

namespace VmarMapping
variable (mapping : VmarMapping)

def meets (vaddr len : Nat) : Bool :=
  mapping.valid && rangesOverlap vaddr len mapping.vaddr mapping.size

/-- The part of a mapping below an address. -/
def below (vaddr : Nat) : List VmarMapping :=
  if mapping.vaddr < vaddr then [{ mapping with size := vaddr - mapping.vaddr }] else []

/-- The part of a mapping from an address on.  `sys_vmar_map` has tested that the VMO reaches
to the end of the mapping, so the offset in it stays a word. -/
def above (vaddr : Nat) : List VmarMapping :=
  if vaddr < mapping.vaddr + mapping.size then
    [{ mapping with
      vaddr := vaddr
      size := mapping.vaddr + mapping.size - vaddr
      vmoOffset := mapping.vmoOffset + (vaddr - mapping.vaddr) }]
  else []

/-- The part of a mapping in a range that it meets, with other flags. -/
def withFlags (vaddr len : Nat) (flags : MmuFlags) : VmarMapping :=
  let start := max vaddr mapping.vaddr
  { mapping with
    vaddr := start
    size := min (vaddr + len) (mapping.vaddr + mapping.size) - start
    vmoOffset := mapping.vmoOffset + (start - mapping.vaddr)
    mmuFlags := flags }

end VmarMapping

structure Vmar where
  baseAddr : Nat
  size : Nat
  mappings : List VmarMapping
  deriving DecidableEq

namespace Vmar
def new (baseAddr size : Nat) : Vmar := ⟨baseAddr, size, []⟩

def sortMappings (vmar : Vmar) : Vmar :=
  { vmar with mappings := vmar.mappings.insertionSort fun first second => first.vaddr ≤ second.vaddr }

variable (vmar : Vmar)

def containsRange (vaddr len : Nat) : Bool :=
  match checkedAdd vaddr len, checkedAdd vmar.baseAddr vmar.size with
  | some stop, some limit => vmar.baseAddr ≤ vaddr && stop ≤ limit
  | _, _ => false

def rangeAvailable (vaddr len : Nat) : Bool :=
  vmar.containsRange vaddr len && !vmar.mappings.any (·.meets vaddr len)

/-- The loop of `find_free_region` and `find_free_region_aligned`; `align` gives the next
candidate from the end of a mapping. -/
def findFreeFrom (vmar : Vmar) (size : Nat) (align : Nat → Option Nat) :
  Nat → List VmarMapping → Except ZxError Nat
  | candidate, [] =>
    if vmar.containsRange candidate size then .ok candidate else .error .errNoMemory
  | candidate, mapping :: rest =>
    if !mapping.valid then vmar.findFreeFrom size align candidate rest
    else if (checkedAdd candidate size).any (· ≤ mapping.vaddr) then .ok candidate
    else
      match (checkedAdd mapping.vaddr mapping.size).bind align with
      | none => .error .errNoMemory
      | some next => vmar.findFreeFrom size align next rest

def alignUp (addr : Nat) : Option Nat :=
  (checkedAdd addr (pageSize - 1)).map fun biased => biased / pageSize * pageSize

/-- The address for a new mapping: at the offset, or the first that is free. -/
def place (offset : Option Nat) (len : Nat) (align : Nat → Option Nat) :
  Except ZxError Nat × Vmar :=
  match offset with
  | some offset =>
    (if !pageAligned offset then .error .errInvalidArgs
      else (checkedAdd vmar.baseAddr offset).elim (.error .errOutOfRange) .ok, vmar)
  | none =>
    ((align vmar.baseAddr).elim (.error .errNoMemory) fun candidate =>
      vmar.findFreeFrom len align candidate vmar.sortMappings.mappings, vmar.sortMappings)

/-- Place a mapping where no other is. -/
def insert (vmar : Vmar) (offset : Option Nat) (len : Nat) (align : Nat → Option Nat)
  (mapping : Nat → VmarMapping) : Except ZxError Nat × Vmar :=
  match vmar.place offset len align with
  | (.error reason, vmar) => (.error reason, vmar)
  | (.ok vaddr, vmar) =>
    if !vmar.rangeAvailable vaddr len then (.error .errAlreadyExists, vmar)
    else (.ok vaddr, { vmar with mappings := vmar.mappings ++ [mapping vaddr] })

def map (vmarOffset : Option Nat) (vmoHandle vmoOffset len : Nat)
  (mmuFlags : MmuFlags) : Except ZxError Nat × Vmar :=
  if len == 0 || !pageAligned vmoOffset then (.error .errInvalidArgs, vmar)
  else
    let (answer, after) := vmar.insert vmarOffset (roundupPages len) some fun vaddr =>
      ⟨vaddr, roundupPages len, vmoHandle, vmoOffset, mmuFlags, true⟩
    (answer, if answer.isOk then after.sortMappings else after)

variable (vaddr len : Nat)
/-- The loop of `unmap` and `protect`.  A mapping that meets a range has an end, so that
the loop is not left early. -/
def recut (pieces : VmarMapping → List VmarMapping) : Except ZxError Unit × Vmar :=
  if len == 0 || !pageAligned vaddr || !pageAligned len then (.error .errInvalidArgs, vmar)
  else if !vmar.containsRange vaddr len then (.error .errOutOfRange, vmar)
  else
    (if vmar.mappings.any (·.meets vaddr len) then .ok () else .error .errNotFound,
      sortMappings ⟨vmar.baseAddr, vmar.size, vmar.mappings.flatMap fun mapping =>
        if mapping.meets vaddr len then pieces mapping else [mapping]⟩)

def unmap : Except ZxError Unit × Vmar :=
  vmar.recut vaddr len fun mapping => mapping.below vaddr ++ mapping.above (vaddr + len)

def protect (newFlags : MmuFlags) : Except ZxError Unit × Vmar :=
  vmar.recut vaddr len fun mapping =>
    mapping.below vaddr ++ mapping.withFlags vaddr len newFlags :: mapping.above (vaddr + len)

def mapExt (vmarOffset : Option Nat) (vmoHandle vmoOffset len : Nat)
  (mappingFlags : MmuFlags) (overwrite : Bool) : Except ZxError Nat × Vmar :=
  if overwrite then
    match vmarOffset with
    | none => (.error .errInvalidArgs, vmar)
    | some offset =>
      match checkedAdd vmar.baseAddr offset with
      | none => (.error .errOutOfRange, vmar)
      | some addr =>
        match vmar.unmap addr (roundupPages len) with
        | (.error reason, after) =>
          if reason = .errNotFound then
            after.map (some offset) vmoHandle vmoOffset len mappingFlags
          else (.error reason, after)
        | (.ok (), after) => after.map (some offset) vmoHandle vmoOffset len mappingFlags
  else vmar.map vmarOffset vmoHandle vmoOffset len mappingFlags

end Vmar

/-! ## System calls -/

abbrev VmOptions : Type := BitVec 32

namespace VmOptions
def permRead : VmOptions := 1 <<< 0
def permWrite : VmOptions := 1 <<< 1
def permExecute : VmOptions := 1 <<< 2
def specific : VmOptions := 1 <<< 3
def specificOverwrite : VmOptions := 1 <<< 4

def contains (options option : VmOptions) : Bool := options &&& option == option

end VmOptions

/-- `mmu_flags_from_vm_options`: no permission stands for reading. -/
def mmuFlagsFromVmOptions (options : VmOptions) : MmuFlags :=
  let flags : MmuFlags := ⟨options.contains .permRead, options.contains .permWrite,
    options.contains .permExecute, true⟩
  if flags = ⟨false, false, false, true⟩ then { flags with read := true } else flags

/-- The rights that `sys_vmar_map` requires of the VMO handle. -/
def vmoRequiredRights (options : VmOptions) : Rights :=
  .map ||| (if options.contains .permRead then .read else 0) |||
    (if options.contains .permWrite then .write else 0) |||
    (if options.contains .permExecute then .execute else 0)

inductive MemoryObject where
  | vmo
  | vmar
  | other
  deriving DecidableEq

structure KernelHandleRecord where
  handle : Nat
  objectHandle : Nat
  objType : MemoryObject
  rights : Rights

/-- The handle table, and the lengths of the VMOs. -/
structure MemoryHandles where
  handles : List KernelHandleRecord
  vmoLen : Nat → Option Nat

namespace MemoryHandles
variable (state : MemoryHandles) (handle : Nat)

def handleRecord : Option KernelHandleRecord := state.handles.find? (·.handle == handle)

def handleRights : Option Rights := (state.handleRecord handle).map (·.rights)

def handleHasRights (required : Rights) : Bool :=
  (state.handleRights handle).any (rightsHas · required)

def resolveHandle (objType : MemoryObject) : Option Nat :=
  ((state.handleRecord handle).filter (·.objType == objType)).map (·.objectHandle)

end MemoryHandles

/-- The regions, by their handles. -/
abbrev Vmars : Type := Nat → Option Vmar

/-- `get_vmar_mut`, and what is done with the region. -/
def onVmar {Value : Type} (state : MemoryHandles) (vmars : Vmars) (handle : Nat)
  (operation : Vmar → Except ZxError Value × Vmar) : Except ZxError Value × Vmars :=
  match state.resolveHandle handle .vmar with
  | none => (.error .errNotFound, vmars)
  | some object =>
    match vmars object with
    | none => (.error .errNotFound, vmars)
    | some vmar => ((operation vmar).1, Function.update vmars object (some (operation vmar).2))

variable (state : MemoryHandles) (vmars : Vmars)

def sysVmarMap (vmarHandle : Nat) (options : VmOptions) (vmarOffset vmoHandle vmoOffset len : Nat) :
  Except ZxError Nat × Vmars :=
  let size := roundupPages len
  if options &&& ~~~0x3FF != 0 || size == 0 || !pageAligned vmoOffset then
    (.error .errInvalidArgs, vmars)
  else if !state.handleHasRights vmarHandle .map ||
      !state.handleHasRights vmoHandle (vmoRequiredRights options) then
    (.error .errAccessDenied, vmars)
  else
    match (state.resolveHandle vmoHandle .vmo).bind state.vmoLen with
    | none => (.error .errNotFound, vmars)
    | some vmoLen =>
      if !(checkedAdd vmoOffset size).any (· ≤ vmoLen) then (.error .errOutOfRange, vmars)
      else if !state.handleHasRights vmarHandle .opChildren then (.error .errAccessDenied, vmars)
      else
        let overwrite := options.contains .specificOverwrite
        onVmar state vmars vmarHandle fun vmar =>
          vmar.mapExt (if options.contains .specific || overwrite then some vmarOffset else none)
            vmoHandle vmoOffset size (mmuFlagsFromVmOptions options) overwrite

def sysVmarUnmap (vmarHandle addr len : Nat) : Except ZxError Unit × Vmars :=
  if !pageAligned addr || len == 0 then (.error .errInvalidArgs, vmars)
  else if !state.handleHasRights vmarHandle .opChildren then (.error .errAccessDenied, vmars)
  else onVmar state vmars vmarHandle (·.unmap addr (roundupPages len))

def sysVmarProtect (vmarHandle : Nat) (options : VmOptions) (addr len : Nat) :
  Except ZxError Unit × Vmars :=
  if options &&& ~~~0x3FF != 0 || !pageAligned addr || len == 0 then (.error .errInvalidArgs, vmars)
  else if !state.handleHasRights vmarHandle .map then (.error .errAccessDenied, vmars)
  else onVmar state vmars vmarHandle
    (·.protect addr (roundupPages len) (mmuFlagsFromVmOptions options))

/-- `sys_vmar_allocate`: the range of the child is taken by a mapping without access.  The
child gets a handle from the counter; of two regions with one handle the first is found. -/
def sysVmarAllocate (parentVmar : Nat) (options : BitVec 32) (offset size childHandle : Nat) :
  Except ZxError Nat × Vmars :=
  let size := roundupPages size
  if options &&& ~~~0xF != 0 || size == 0 then (.error .errInvalidArgs, vmars)
  else if !state.handleHasRights parentVmar .opChildren then (.error .errAccessDenied, vmars)
  else
    let requested := if options &&& 1 == 1 || offset != 0 then some offset else none
    match onVmar state vmars parentVmar fun parent =>
        parent.insert requested size Vmar.alignUp fun vaddr =>
          ⟨vaddr, size, childHandle, 0, ⟨false, false, false, false⟩, true⟩ with
    | (.error reason, after) => (.error reason, after)
    | (.ok addr, after) => (.ok addr, if (after childHandle).isSome then after
        else Function.update after childHandle (some (.new addr size)))

end Smros.Objects
