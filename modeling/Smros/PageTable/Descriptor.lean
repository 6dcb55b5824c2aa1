import Mathlib.Data.BitVec

/-!
# Translation-table descriptors

A descriptor is a 64-bit word.  A table descriptor names the frame of the next
table; a page descriptor names the mapped frame and its permissions.  The
lemmas below are the only facts about bits that the later modules use.
-/

namespace Smros.PageTable
open Nat

abbrev Descriptor := BitVec 64

/-- `AARCH64_PAGE_SIZE`. -/
def pageSize : Nat := 0x1000

/-- `AARCH64_TABLE_ENTRIES`. -/
def tableEntries : Nat := 512

def descValid : Descriptor := 1#64

def descTableOrPage : Descriptor := 2#64

def descAf : Descriptor := 1#64 <<< 10

def descApUser : Descriptor := 1#64 <<< 6

def descApReadOnly : Descriptor := 1#64 <<< 7

def descInnerShareable : Descriptor := 3#64 <<< 8

def descPxn : Descriptor := 1#64 <<< 53

def descUxn : Descriptor := 1#64 <<< 54

def descAddrMask : Descriptor := 0x0000fffffffff000#64

variable (paddr : Nat)
/-- `aarch64_table_descriptor`. -/
def tableDescriptor : Descriptor :=
  (BitVec.ofNat 64 paddr &&& descAddrMask) ||| descValid ||| descTableOrPage

/-- The test for a table at levels one and two, and for a page at level three. -/
def descriptorValid (descriptor : Descriptor) : Bool :=
  descriptor &&& (descValid ||| descTableOrPage) == descValid ||| descTableOrPage

/-- `(descriptor & AARCH64_DESC_ADDR_MASK) / AARCH64_PAGE_SIZE`. -/
def descriptorPfn (descriptor : Descriptor) : Nat := (descriptor &&& descAddrMask).toNat / pageSize

variable (readable writable executable : Bool)
/-- `aarch64_user_page_descriptor`. -/
def userPageDescriptor : Descriptor :=
  let userAccess := if readable || writable || executable then descApUser else 0#64
  let readOnly := if writable then 0#64 else descApReadOnly
  let executeNever := if executable then 0#64 else descUxn
  (BitVec.ofNat 64 paddr &&& descAddrMask) ||| descValid ||| descTableOrPage ||| descAf |||
    userAccess ||| descInnerShareable ||| readOnly ||| executeNever ||| descPxn

/-! ## Frame numbers survive the address mask -/

variable {pfn : Nat}
theorem addrMask_pfn (hpfn : pfn < 2 ^ 36) :
  (BitVec.ofNat 64 (pfn * pageSize) &&& descAddrMask).toNat = pfn * pageSize := by
  have shift : pfn * pageSize = pfn <<< 12 := by
    rw [shiftLeft_eq]
    rfl
  have mask : (0x0000fffffffff000 : Nat) = (2 ^ 36 - 1) <<< 12 := by decide
  have small : pfn * pageSize < 2 ^ 64 := by
    unfold pageSize
    omega
  rw [BitVec.toNat_and, BitVec.toNat_ofNat, mod_eq_of_lt small]
  change (pfn * pageSize) &&& 0x0000fffffffff000 = _
  rw [shift, mask, ← shiftLeft_and_distrib, and_two_pow_sub_one_eq_mod, mod_eq_of_lt hpfn]

/-- Flag bits outside the mask leave the address field alone. -/
theorem addrMask_or (addr flags) (hflags : flags &&& descAddrMask = 0#64) :
  ((addr &&& descAddrMask) ||| flags) &&& descAddrMask = addr &&& descAddrMask := by
  rw [BitVec.and_or_distrib_right, hflags, BitVec.and_assoc, BitVec.and_self, BitVec.or_zero]

variable {mask test : Descriptor}
/-- An address field contributes nothing to a flag test outside of it. -/
theorem masked_or (htest : mask &&& test = 0#64) (addr flags) :
  ((addr &&& mask) ||| flags) &&& test = flags &&& test := by
  rw [BitVec.and_or_distrib_right, BitVec.and_assoc, htest, BitVec.and_zero, BitVec.zero_or]

theorem flags_or (addr flags test) (htest : descAddrMask &&& test = 0#64) :
  ((addr &&& descAddrMask) ||| flags) &&& test = flags &&& test :=
  masked_or htest addr flags

/-- The flag word of a user page. -/
def userPageFlags : Descriptor :=
  descValid ||| descTableOrPage ||| descAf |||
    (if readable || writable || executable then descApUser else 0#64) |||
    descInnerShareable ||| (if writable then 0#64 else descApReadOnly) |||
    (if executable then 0#64 else descUxn) ||| descPxn

theorem userPageDescriptor_eq : userPageDescriptor paddr readable writable executable =
    (BitVec.ofNat 64 paddr &&& descAddrMask) |||
      userPageFlags readable writable executable := by
  simp only [userPageDescriptor, userPageFlags, BitVec.or_assoc]

/-! ## Table descriptors -/

theorem tableDescriptor_valid : descriptorValid (tableDescriptor paddr) = true := by
  unfold descriptorValid tableDescriptor
  rw [BitVec.or_assoc, flags_or _ _ _ (by decide)]
  decide

theorem pfn_table (hpfn : pfn < 2 ^ 36) :
  descriptorPfn (tableDescriptor (pfn * pageSize)) = pfn := by
  unfold descriptorPfn tableDescriptor
  rw [BitVec.or_assoc, addrMask_or _ _ (by decide), addrMask_pfn hpfn]
  exact Nat.mul_div_cancel _ (by decide)

/-! ## Page descriptors -/

theorem userPageDescriptor_valid :
  descriptorValid (userPageDescriptor paddr readable writable executable) = true := by
  unfold descriptorValid
  rw [userPageDescriptor_eq, flags_or _ _ _ (by decide)]
  revert readable writable executable
  decide

theorem descriptorValid_zero : descriptorValid 0#64 = false := by decide

theorem userPageDescriptor_ne_zero :
  userPageDescriptor paddr readable writable executable ≠ 0#64 := by
  intro zero
  have valid := userPageDescriptor_valid paddr readable writable executable
  rw [zero, descriptorValid_zero] at valid
  cases valid

theorem tableDescriptor_ne_zero : tableDescriptor paddr ≠ 0#64 := by
  intro zero
  have valid := tableDescriptor_valid paddr
  rw [zero, descriptorValid_zero] at valid
  cases valid

theorem userPageDescriptor_address (hpfn : pfn < 2 ^ 36) (readable writable executable) :
  (userPageDescriptor (pfn * pageSize) readable writable executable &&&
    descAddrMask).toNat = pfn * pageSize := by
  have flags : userPageFlags readable writable executable &&& descAddrMask = 0#64 := by
    revert readable writable executable
    decide
  rw [userPageDescriptor_eq, addrMask_or _ _ flags, addrMask_pfn hpfn]

theorem pfn_userPageDescriptor (hpfn : pfn < 2 ^ 36) (readable writable executable) :
  descriptorPfn (userPageDescriptor (pfn * pageSize) readable writable executable) = pfn := by
  unfold descriptorPfn
  rw [userPageDescriptor_address hpfn]
  exact Nat.mul_div_cancel _ (by decide)

/-- User access is granted exactly when some permission is. -/
theorem userPageDescriptor_apUser :
  (userPageDescriptor paddr readable writable executable &&& descApUser == 0#64) =
    !(readable || writable || executable) := by
  rw [userPageDescriptor_eq, flags_or _ _ _ (by decide)]
  revert readable writable executable
  decide

/-- The read-only bit is set exactly when the page is not writable. -/
theorem userPageDescriptor_apReadOnly :
  (userPageDescriptor paddr readable writable executable &&& descApReadOnly != 0#64) =
    !writable := by
  rw [userPageDescriptor_eq, flags_or _ _ _ (by decide)]
  revert readable writable executable
  decide

end Smros.PageTable
