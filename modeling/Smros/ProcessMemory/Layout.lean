import Mathlib.Data.List.Basic
import Mathlib.Data.Prod.Lex
import Smros.PageTable.Reference
import Smros.SysError

/-!
# What a process memory records

A process memory is a list of mappings and a break area; both name, page by page, the
frame behind the page.  This module has the records, the window they live in and the
protection of a page.
-/

namespace Smros.ProcessMemory
open PageTable (pageSize)

/-! ## Machine words -/

variable (left right : Nat)
/-- `usize::checked_add`. -/
def checkedAdd : Option Nat :=
  if left + right < 2 ^ 64 then some (left + right) else none

/-- `usize::checked_mul`. -/
def checkedMul : Option Nat :=
  if left * right < 2 ^ 64 then some (left * right) else none

/-- `u64::saturating_add`. -/
def saturatingAdd : Nat := min (left + right) (2 ^ 64 - 1)

/-! ## The user window -/

def linuxUserBase : Nat := 0x10000000
def linuxUserLimit : Nat := 0x20000000
def linuxMmapBase : Nat := 0x12000000
def linuxBrkBase : Nat := 0x1d000000
def linuxBrkLimit : Nat := linuxBrkBase + 0x100000

def linuxUserPageRangeValid (address len : Nat) : Bool :=
  address % pageSize == 0 && len != 0 && len % pageSize == 0 && linuxUserBase ≤ address &&
    match checkedAdd address len with
    | some rangeEnd => rangeEnd ≤ linuxUserLimit
    | none => false

/-- Two ranges share an address; a range past the last address overlaps nothing. -/
def rangesOverlap (first firstLen second secondLen : Nat) : Bool :=
  match checkedAdd first firstLen, checkedAdd second secondLen with
  | some firstEnd, some secondEnd => first < secondEnd && second < firstEnd
  | _, _ => false

/-- Pages that `len` bytes reach into. -/
def pageCount (len : Nat) : Nat := saturatingAdd len (pageSize - 1) / pageSize

/-! ## Protection bits -/

abbrev Prot := BitVec 64

def linuxProtRead : Prot := 1#64
def linuxProtWrite : Prot := 2#64
def linuxProtExec : Prot := 4#64
def linuxMapShared : BitVec 64 := 1#64

/-- The object whose pages are copied before they are written. -/
def linuxForkPrivateObjectId : Nat := 0x80000000

/-- Readable, writable and executable. -/
def pagePermissions (prot : Prot) : PageTable.Core.Permissions :=
  (prot &&& (linuxProtRead ||| linuxProtWrite) != 0#64, prot &&& linuxProtWrite != 0#64,
    prot &&& linuxProtExec != 0#64)

/-! ## Backings -/

/-- An object and a page of it, in the order of the shared-page records. -/
abbrev SharedKey := Nat ×ₗ Nat

/-- The frame behind one page: the page's own, or a reference to a shared page. -/
inductive LinuxPageBacking where
  | privatePage (pfn : Nat)
  | sharedPage (objectId pageIndex pfn : Nat)
  deriving DecidableEq

namespace LinuxPageBacking
def pfn : LinuxPageBacking → Nat
  | privatePage pfn => pfn
  | sharedPage _ _ pfn => pfn

def isPrivate : LinuxPageBacking → Bool
  | privatePage _ => true
  | sharedPage .. => false

/-- The shared page a backing refers to. -/
def key : LinuxPageBacking → Option SharedKey
  | privatePage _ => none
  | sharedPage objectId pageIndex _ => some (toLex (objectId, pageIndex))

def isCow : LinuxPageBacking → Bool
  | privatePage _ => false
  | sharedPage objectId _ _ => objectId == linuxForkPrivateObjectId

/-- The backing of a private page once it is shared with a forked child. -/
def cow (pfn : Nat) : LinuxPageBacking := sharedPage linuxForkPrivateObjectId pfn pfn

end LinuxPageBacking

/-- `linux_page_protection_for_backing`. -/
def protectionForBacking (backing : LinuxPageBacking) (prot : Prot) : Prot :=
  if backing.isCow then prot &&& ~~~linuxProtWrite else prot

/-! ## Mappings -/

/-- A mapped file; its offset and length are machine words. -/
structure FileSource where
  fd : Nat
  offset : Nat
  path : String
  objectId : Nat
  backingLen : Nat
  offset_lt : offset < 2 ^ 64
  backingLen_lt : backingLen < 2 ^ 64
  deriving DecidableEq

inductive LinuxMappingSource where
  | anonymous
  | file (source : FileSource)
  | sharedMemory (id : Nat)
  deriving DecidableEq

namespace LinuxMappingSource
/-- The source of the part of a mapping that starts `delta` bytes in. -/
def slice (delta : Nat) : LinuxMappingSource → LinuxMappingSource
  | anonymous => anonymous
  | file source =>
    file { source with
      offset := saturatingAdd source.offset delta
      offset_lt := by unfold saturatingAdd; omega }
  | sharedMemory id => sharedMemory id

/-- The heap bytes that copying the source takes. -/
def pathLength : LinuxMappingSource → Nat
  | file source => source.path.length
  | _ => 0

def isSharedMemory : LinuxMappingSource → Bool
  | sharedMemory _ => true
  | _ => false

end LinuxMappingSource

/-- `linux_effective_mapping_page_prot`: nothing is allowed past the end of the file. -/
def linuxEffectiveMappingPageProt (prot : Prot) (file : Option (Nat × Nat))
  (pageIndex : Nat) : Prot :=
  match file with
  | none => prot
  | some (fileOffset, backingLen) =>
    match (checkedMul pageIndex pageSize).bind (checkedAdd fileOffset) with
    | none => 0#64
    | some pageOffset => if pageOffset ≥ backingLen then 0#64 else prot

def mappingPageProt (source : LinuxMappingSource) (requestedProt : Prot) (pageIndex : Nat) : Prot :=
  match source with
  | .file source =>
    linuxEffectiveMappingPageProt requestedProt (some (source.offset, source.backingLen)) pageIndex
  | _ => linuxEffectiveMappingPageProt requestedProt none pageIndex

structure LinuxProcessMapping where
  addr : Nat
  len : Nat
  prot : Prot
  flags : BitVec 64
  pages : List LinuxPageBacking
  source : LinuxMappingSource
  deriving DecidableEq

/-- The first address past a mapping.  Mappings lie below the user limit, so the
saturating and checked sums of the source are plain sums. -/
def LinuxProcessMapping.stop (mapping : LinuxProcessMapping) : Nat := mapping.addr + mapping.len

structure BrkState where
  start : Nat
  current : Nat
  limit : Nat
  pages : List LinuxPageBacking
  deriving DecidableEq

def BrkState.new : BrkState := ⟨linuxBrkBase, linuxBrkBase, linuxBrkLimit, []⟩

structure LinuxSharedAttachmentRecord where
  objectId : Nat
  addr : Nat
  len : Nat
  deriving DecidableEq

/-- A page that became private after the first fork of the process. -/
structure LinuxPrivatePageHint where
  address : Nat
  pfn : Nat
  deriving DecidableEq

end Smros.ProcessMemory
