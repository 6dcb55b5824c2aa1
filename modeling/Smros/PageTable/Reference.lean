import Smros.PageTable.Accounting

/-!
# The reference model

Each address space is a map from pages to frames of its own.  The calls check
their arguments and the pages in the order of the source, but they know nothing of
tables.
-/

namespace Smros.PageTable
open Lib Function

/-- A mapped page; its frame fits the address field of a descriptor. -/
structure UserPage where
  pfn : Nat
  permissions : Core.Permissions
  pfn_lt : pfn < 2 ^ 36
  deriving DecidableEq

namespace UserPage
variable (page : UserPage)

def descriptor : Descriptor := Core.pageDescriptor (page.pfn * pageSize) page.permissions

/-- Some access to the page is allowed. -/
def accessible : Bool := page.permissions.1 || page.permissions.2.1 || page.permissions.2.2

theorem descriptor_valid : descriptorValid page.descriptor = true := userPageDescriptor_valid ..

theorem descriptor_ne_zero : page.descriptor ≠ 0#64 := userPageDescriptor_ne_zero _ _ _ _

theorem descriptor_address : (page.descriptor &&& descAddrMask).toNat = page.pfn * pageSize :=
  userPageDescriptor_address page.pfn_lt ..

theorem pfn_descriptor : descriptorPfn page.descriptor = page.pfn :=
  pfn_userPageDescriptor page.pfn_lt ..

end UserPage

abbrev PageMap := Nat → Option UserPage

/-- The leaf entry for a page of the reference map. -/
def encode : Option UserPage → Descriptor
  | none => 0#64
  | some page => page.descriptor

@[simp] theorem encode_none : encode none = 0#64 := rfl

@[simp] theorem encode_some (page) : encode (some page) = page.descriptor := rfl

theorem encode_eq_zero {page} : encode page = 0#64 ↔ page = none := by
  cases page with
  | none => simp
  | some page => simp [page.descriptor_ne_zero]

def encodePages (pages : PageMap) (page : Nat) : Descriptor := encode (pages page)

theorem encodePages_update (pages page entry) : encodePages (update pages page entry) =
    update (encodePages pages) page (encode entry) := by
  funext other
  by_cases same : other = page
  · simp [encodePages, same]
  · simp [encodePages, same]

namespace Reference

abbrev ReferenceM := Program PageMap AddressSpaceCoreError

open PageTable.Core (Permissions)
variable {vaddr : Nat} (window : FrameWindow)

def mapUserPage (vaddr pfn : Nat) (permissions : Permissions) : ReferenceM Unit :=
  if !userRangeValid vaddr pageSize then
    throw .invalidAddress
  else if hpfn : window.Has pfn then do
    let pages ← get
    if (pages (vaddr / pageSize)).isSome then
      throw .alreadyMapped
    else
      set (Function.update pages (vaddr / pageSize) (some ⟨pfn, permissions, hpfn.lt⟩))
  else
    throw .invalidAddress

theorem mapUserPage_run (valid : userRangeValid vaddr pageSize = true) (window pfn perms pages) :
  mapUserPage window vaddr pfn perms pages =
    if hpfn : window.Has pfn then
      if (pages (vaddr / pageSize)).isSome then .error .alreadyMapped pages
      else .ok () (update pages (vaddr / pageSize) (some ⟨pfn, perms, hpfn.lt⟩))
    else .error .invalidAddress pages := by
  unfold mapUserPage
  rw [valid]
  by_cases hpfn : window.Has pfn
  · rw [dif_pos hpfn, dif_pos hpfn]
    change (if (pages (vaddr / pageSize)).isSome then _ else _ : ReferenceM Unit) pages = _
    by_cases mapped : (pages (vaddr / pageSize)).isSome = true
    · rw [if_pos mapped, if_pos mapped]
      rfl
    · rw [if_neg mapped, if_neg mapped]
      rfl
  · rw [dif_neg hpfn, dif_neg hpfn]
    rfl

theorem mapUserPage_run_invalid (valid : ¬ userRangeValid vaddr pageSize = true)
  (window pfn perms pages) :
  mapUserPage window vaddr pfn perms pages = .error .invalidAddress pages := by
  unfold mapUserPage
  rw [if_pos (by simpa using valid)]
  rfl

def mapRegionPages (window : FrameWindow) (vaddr firstPfn : Nat) (permissions : Permissions) :
  List Nat → ReferenceM Unit
  | [] => pure ()
  | pageIndex :: rest => do
      mapUserPage window (vaddr + pageIndex * pageSize) (firstPfn + pageIndex) permissions
      mapRegionPages window vaddr firstPfn permissions rest

/-- All pages of the region or none. -/
def mapUserRegion (vaddr firstPfn pageCount : Nat) (permissions : Permissions) : ReferenceM Unit :=
  if 2 ^ 64 ≤ pageCount * pageSize then
    throw .invalidAddress
  else if !userRangeValid vaddr (pageCount * pageSize) then
    throw .invalidAddress
  else if 2 ^ 64 ≤ firstPfn + (pageCount - 1) then
    throw .invalidAddress
  else do
    let pages ← get
    Program.onError (mapRegionPages window vaddr firstPfn permissions (List.range pageCount))
      fun _ => pages

/-- A page that is already mapped restores `before`; a frame outside the window keeps
the pages mapped so far. -/
def mapProtectedPages (window : FrameWindow) (before : PageMap) (vaddr : Nat)
  (pfnAt : Nat → Nat) (protectionAt : Nat → Permissions) : List Nat → ReferenceM Unit
  | [] => pure ()
  | pageIndex :: rest => do
      let pages ← get
      if (pages ((vaddr + pageIndex * pageSize) / pageSize)).isSome then
        set before
        throw .alreadyMapped
      else if hpfn : window.Has (pfnAt pageIndex) then
        set (Function.update pages ((vaddr + pageIndex * pageSize) / pageSize)
          (some ⟨pfnAt pageIndex, protectionAt pageIndex, hpfn.lt⟩))
        mapProtectedPages window before vaddr pfnAt protectionAt rest
      else
        throw .invalidAddress

theorem mapProtected_run_cons (before vaddr pfnAt protAt page rest pages) :
  mapProtectedPages window before vaddr pfnAt protAt (page :: rest) pages =
    if (pages ((vaddr + page * pageSize) / pageSize)).isSome then
      .error .alreadyMapped before
    else if hpfn : window.Has (pfnAt page) then
      mapProtectedPages window before vaddr pfnAt protAt rest
        (update pages ((vaddr + page * pageSize) / pageSize)
          (some ⟨pfnAt page, protAt page, hpfn.lt⟩))
    else
      .error .invalidAddress pages := by
  rw [mapProtectedPages, Program.get_bind_run]
  by_cases mapped : (pages ((vaddr + page * pageSize) / pageSize)).isSome = true
  · rw [if_pos mapped, if_pos mapped]
    rfl
  rw [if_neg mapped, if_neg mapped]
  by_cases hpfn : window.Has (pfnAt page)
  · rw [dif_pos hpfn, dif_pos hpfn]
    rfl
  · rw [dif_neg hpfn, dif_neg hpfn]
    rfl

def mapUserPagesWithProtection (vaddr pageCount : Nat)
  (pfnAt : Nat → Nat) (protectionAt : Nat → Permissions) : ReferenceM Unit :=
  if 2 ^ 64 ≤ pageCount * pageSize then
    throw .invalidAddress
  else if !userRangeValid vaddr (pageCount * pageSize) then
    throw .invalidAddress
  else do
    let pages ← get
    mapProtectedPages window pages vaddr pfnAt protectionAt (List.range pageCount)

/-- The page at `vaddr`, which must be mapped. -/
def mappedPage (vaddr : Nat) : ReferenceM UserPage := do
  let pages ← get
  Program.orThrow .notMapped (pages (vaddr / pageSize))

def putPage (vaddr : Nat) (page : Option UserPage) : ReferenceM Unit :=
  modify fun pages => Function.update pages (vaddr / pageSize) page

def protectUserPage (vaddr : Nat) (permissions : Permissions) : ReferenceM Unit :=
  if !userRangeValid vaddr pageSize then
    throw .invalidAddress
  else do
    let page ← mappedPage vaddr
    putPage vaddr (some { page with permissions := permissions })

def replaceUserPage (vaddr pfn : Nat) (permissions : Permissions) : ReferenceM Nat :=
  if !userRangeValid vaddr pageSize then
    throw .invalidAddress
  else if hpfn : window.Has pfn then do
    let page ← mappedPage vaddr
    putPage vaddr (some ⟨pfn, permissions, hpfn.lt⟩)
    return page.pfn
  else
    throw .invalidAddress

def unmapUserPage (vaddr : Nat) : ReferenceM Nat :=
  if !userRangeValid vaddr pageSize then
    throw .invalidAddress
  else do
    let page ← mappedPage vaddr
    putPage vaddr none
    return page.pfn

variable {pages : PageMap}
theorem mappedPage_run_some {page} (hpage : pages (vaddr / pageSize) = some page) :
  mappedPage vaddr pages = .ok page pages := by
  change Program.orThrow AddressSpaceCoreError.notMapped (pages (vaddr / pageSize)) pages = _
  rw [hpage]
  rfl

theorem mappedPage_run_none (page : pages (vaddr / pageSize) = none) :
  mappedPage vaddr pages = .error .notMapped pages := by
  change Program.orThrow AddressSpaceCoreError.notMapped (pages (vaddr / pageSize)) pages = _
  rw [page]
  rfl

/-- The physical address behind a user address, if the access is allowed. -/
def translateUser (pages : PageMap) (vaddr : Nat) (write : Bool) : Option Nat :=
  if ¬ (userBase ≤ vaddr ∧ vaddr < userLimit) then
    none
  else
    match pages (vaddr / pageSize) with
    | none => none
    | some page =>
      if !page.accessible || (write && !page.permissions.2.1) then none
      else some (page.pfn * pageSize + vaddr % pageSize)

end Reference
end Smros.PageTable
