import Mathlib.Logic.Function.Basic
import Smros.PageTable.Descriptor

/-!
# Table frames

The kernel's backend keeps every table in a frame of one physical window and
counts, for each frame, how many address spaces hold it as a table.  Reading
or writing a frame that has been freed still reaches its memory: only the next
allocation clears it.
-/

namespace Smros.PageTable
open Function (update update_of_ne)

inductive AddressSpaceCoreError where
  | outOfMemory
  | invalidAddress
  | alreadyMapped
  | notMapped
  | permissionDenied
  deriving DecidableEq

/-- The managed frames; their addresses fit the address field of a descriptor. -/
structure FrameWindow where
  basePfn : Nat
  totalPages : Nat
  bounded : basePfn + totalPages ≤ 2 ^ 36

variable {pfn : Nat}
namespace FrameWindow
def Has (window : FrameWindow) (pfn : Nat) : Prop :=
  window.basePfn ≤ pfn ∧ pfn < window.basePfn + window.totalPages

instance (window : FrameWindow) (pfn : Nat) : Decidable (window.Has pfn) :=
  inferInstanceAs (Decidable (_ ∧ _))

theorem Has.lt {window : FrameWindow} (hpfn : window.Has pfn) : pfn < 2 ^ 36 :=
  Nat.lt_of_lt_of_le hpfn.2 window.bounded

def pfnAddress (window : FrameWindow) (pfn : Nat) : Option Nat :=
  if window.Has pfn then some (pfn * pageSize) else none

end FrameWindow

/-- The largest holder count, `u16::MAX`. -/
def maxTableReferences : Nat := 65535

/--
Table memory and holder counts.  `offers` are the frames that the frame
allocator answers with next; an offer that is not a free frame of the window
stands for an allocation that fails.
-/
structure TableBackend where
  window : FrameWindow
  entries : Nat → Nat → Descriptor
  references : Nat → Nat
  offers : List Nat
  references_window : ∀ pfn, references pfn ≠ 0 → window.Has pfn

namespace TableBackend
def new (window : FrameWindow) : TableBackend where
  window := window
  entries := fun _ _ => 0#64
  references := fun _ => 0
  offers := []
  references_window := fun _ hne => absurd rfl hne

/-- Put new answers of the frame allocator in place. -/
def withOffers (backend : TableBackend) (offers : List Nat) : TableBackend :=
  { backend with offers := offers }

def pfnAddress (backend : TableBackend) (pfn : Nat) : Option Nat := backend.window.pfnAddress pfn

variable (backend : TableBackend)
/-- A frame the allocator may hand out as a table. -/
def Free (pfn : Nat) : Prop := backend.references pfn = 0 ∧ backend.window.Has pfn

instance (backend : TableBackend) (pfn : Nat) : Decidable (backend.Free pfn) :=
  inferInstanceAs (Decidable (_ ∧ _))

/-- The state after `pfn` became a cleared table with one holder. -/
def take (pfn : Nat) (rest : List Nat) (hfree : backend.Free pfn) : TableBackend where
  window := backend.window
  entries := update backend.entries pfn fun _ => 0#64
  references := update backend.references pfn 1
  offers := rest
  references_window := by
    intro other hother
    by_cases hsame : other = pfn
    · exact hsame ▸ hfree.2
    · rw [update_of_ne hsame] at hother
      exact backend.references_window other hother

def allocateTable : Except AddressSpaceCoreError Nat × TableBackend :=
  match backend.offers with
  | [] => (.error .outOfMemory, backend)
  | pfn :: rest =>
    if hfree : backend.Free pfn then
      (.ok pfn, backend.take pfn rest hfree)
    else
      (.error .outOfMemory, backend.withOffers rest)

def readTableEntry (pfn index : Nat) : Option Descriptor :=
  if backend.window.Has pfn ∧ index < tableEntries then some (backend.entries pfn index)
  else none

def setEntry (backend : TableBackend) (pfn index : Nat) (descriptor : Descriptor) : TableBackend :=
  { backend with
    entries := update backend.entries pfn (update (backend.entries pfn) index descriptor) }

/-- `none` stands for the `false` of a refused write. -/
def writeTableEntry (pfn index : Nat) (descriptor : Descriptor) : Option TableBackend :=
  if backend.window.Has pfn ∧ index < tableEntries then
    some (backend.setEntry pfn index descriptor)
  else
    none

def copyTable (backend : TableBackend) (sourcePfn destinationPfn : Nat) : TableBackend :=
  { backend with
    entries := update backend.entries destinationPfn (backend.entries sourcePfn) }

def copyTableWithin (sourcePfn destinationPfn : Nat) : Option TableBackend :=
  if backend.window.Has sourcePfn ∧ backend.window.Has destinationPfn then
    some (backend.copyTable sourcePfn destinationPfn)
  else
    none

/-- One more holder for a table that is allocated and below the limit. -/
def retainTable (backend : TableBackend) (pfn : Nat) : Option TableBackend :=
  if hheld : backend.references pfn ≠ 0 ∧ backend.references pfn ≠ maxTableReferences then
    some
      { backend with
        references := update backend.references pfn (backend.references pfn + 1)
        references_window := by
          intro other hother
          by_cases hsame : other = pfn
          · exact hsame ▸ backend.references_window pfn hheld.1
          · rw [update_of_ne hsame] at hother
            exact backend.references_window other hother }
  else
    none

/-- One holder less; the last one frees the frame, and nothing happens at zero. -/
def releaseTable (backend : TableBackend) (pfn : Nat) : TableBackend :=
  { backend with
    references := update backend.references pfn (backend.references pfn - 1)
    references_window := by
      intro other hother
      by_cases hsame : other = pfn
      · rw [hsame, Function.update_self] at hother
        exact hsame ▸ backend.references_window pfn (by omega)
      · rw [update_of_ne hsame] at hother
        exact backend.references_window other hother }

def releaseAll (pfns : List Nat) : TableBackend := pfns.foldl releaseTable backend

def tableIsShared (pfn : Nat) : Bool := 1 < backend.references pfn

/-! ## Fields after each operation -/

section
variable (pfn idx : Nat) (descriptor : Descriptor)

@[simp] theorem setEntry_references :
  (backend.setEntry pfn idx descriptor).references = backend.references := rfl

variable {other slot : Nat}
theorem setEntry_of_ne (hother : other ≠ pfn) :
  (backend.setEntry pfn idx descriptor).entries other = backend.entries other :=
  update_of_ne hother ..

@[simp] theorem setEntry_self :
  (backend.setEntry pfn idx descriptor).entries pfn idx = descriptor := by
  simp [setEntry]

theorem setEntry_self_of_ne (hslot : slot ≠ idx) :
  (backend.setEntry pfn idx descriptor).entries pfn slot = backend.entries pfn slot := by
  simp [setEntry, hslot]

@[simp] theorem releaseTable_entries : (backend.releaseTable pfn).entries = backend.entries := rfl

@[simp] theorem releaseTable_window : (backend.releaseTable pfn).window = backend.window := rfl

theorem releaseTable_references (other) : (backend.releaseTable pfn).references other =
    backend.references other - if other = pfn then 1 else 0 := by
  by_cases same : other = pfn
  · subst same
    simp [releaseTable]
  · simp [releaseTable, same]

@[simp] theorem releaseAll_nil : backend.releaseAll [] = backend := rfl

@[simp] theorem releaseAll_cons (pfns) :
  backend.releaseAll (pfn :: pfns) = (backend.releaseTable pfn).releaseAll pfns := rfl

@[simp] theorem releaseAll_entries (pfns) :
  (backend.releaseAll pfns).entries = backend.entries := by
  induction pfns generalizing backend with
  | nil => rfl
  | cons pfn pfns ih => rw [releaseAll_cons, ih, releaseTable_entries]

@[simp] theorem releaseAll_window (pfns) : (backend.releaseAll pfns).window = backend.window := by
  induction pfns generalizing backend with
  | nil => rfl
  | cons pfn pfns ih => rw [releaseAll_cons, ih, releaseTable_window]

/-- Releasing a list takes one holder away for each occurrence. -/
theorem releaseAll_references (pfns other) : (backend.releaseAll pfns).references other =
    backend.references other - pfns.count other := by
  induction pfns generalizing backend with
  | nil => simp
  | cons pfn pfns ih =>
    rw [releaseAll_cons, ih, releaseTable_references, List.count_cons]
    by_cases same : other = pfn
    · simp only [same, beq_self_eq_true, if_true]
      omega
    · simp [same, Ne.symm same]

end

variable {backend} {idx : Nat}
theorem readEntry_eq (hpfn : backend.window.Has pfn) (hidx : idx < tableEntries) :
  backend.readTableEntry pfn idx = some (backend.entries pfn idx) :=
  if_pos ⟨hpfn, hidx⟩

theorem writeEntry_eq (descriptor) (hpfn : backend.window.Has pfn) (hidx : idx < tableEntries) :
  backend.writeTableEntry pfn idx descriptor = some (backend.setEntry pfn idx descriptor) :=
  if_pos ⟨hpfn, hidx⟩

end TableBackend
end Smros.PageTable
