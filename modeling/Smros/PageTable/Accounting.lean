import Mathlib.Data.List.Dedup
import Smros.PageTable.AddressSpace

/-!
# Holders and parents of tables

A table is held once for every occurrence in the list of a live space; the
backend's counter must say exactly that.  A table is also reached through
parents: a root through its space, a level-one table through each root that
points to it, a leaf table through each entry of a live level-one table.  Sharing is
sound as long as no table has more parents than holders.
-/

namespace Smros.PageTable
open Lib List Nat

/-- The table a descriptor points to. -/
def pointer (descriptor : Descriptor) : Option Nat :=
  if descriptorValid descriptor then some (descriptorPfn descriptor) else none

@[simp] theorem pointer_zero : pointer 0#64 = none := by simp [pointer, descriptorValid_zero]

variable {pfn table child : Nat}
theorem pointer_table (hpfn : pfn < 2 ^ 36) :
  pointer (tableDescriptor (pfn * pageSize)) = some pfn := by
  simp [pointer, tableDescriptor_valid, pfn_table hpfn]

/-- An entry of a root or level-one table: empty, or a link to a table. -/
def IsLink (descriptor : Descriptor) : Prop :=
  descriptor = 0#64 ∨ ∃ pfn < 2 ^ 36, descriptor = tableDescriptor (pfn * pageSize)

variable {other : TableBackend}
namespace TableBackend
/-- The tables that the entries of `table` point to, in order. -/
def children (backend : TableBackend) (table : Nat) : List Nat :=
  (List.range tableEntries).filterMap fun index => pointer (backend.entries table index)

variable {backend : TableBackend}
theorem mem_children : child ∈ backend.children table ↔
    ∃ index < tableEntries, pointer (backend.entries table index) = some child := by
  simp [children]

variable {source index left right leaf : Nat}
theorem children_congr (entries : other.entries table = backend.entries source) :
  other.children table = backend.children source := by
  unfold children
  rw [entries]

theorem children_of_cleared (cleared : backend.entries table = fun _ => 0#64) :
  backend.children table = [] := by
  unfold children
  rw [cleared]
  simp

/-- Writing one entry trades the old child of the slot for the new one. -/
theorem count_children_setEntry (backend : TableBackend) (table) (hidx : index < tableEntries)
  (descriptor child) :
  ((backend.setEntry table index descriptor).children table).count child +
    (if pointer (backend.entries table index) = some child then 1 else 0) =
    (backend.children table).count child + (if pointer descriptor = some child then 1 else 0) := by
  have count := countP_range_update hidx
    (fun slot => pointer (backend.entries table slot) == some child)
    (fun slot => pointer ((backend.setEntry table index descriptor).entries table slot) ==
      some child)
    (fun slot hslot => by rw [setEntry_self_of_ne _ _ _ _ hslot])
  simp only [setEntry_self, beq_iff_eq] at count
  unfold children
  rw [count_filterMap, count_filterMap]
  exact count

/-- A child that occurs once sits in one slot. -/
theorem slot_unique_of_count (count : (backend.children table).count child ≤ 1)
  (hleft : left < tableEntries) (hright : right < tableEntries)
  (leftChild : pointer (backend.entries table left) = some child)
  (rightChild : pointer (backend.entries table right) = some child) : left = right := by
  by_contra hne
  have cleared := backend.count_children_setEntry table hleft 0#64 child
  have stays : child ∈ (backend.setEntry table left 0#64).children table := by
    refine mem_children.mpr ⟨right, hright, ?_⟩
    rwa [setEntry_self_of_ne _ _ _ _ (Ne.symm hne)]
  have hpos := count_pos_iff.mpr stays
  simp only [leftChild, pointer_zero, reduceCtorEq, if_true, if_false] at cleared
  omega

variable (backend : TableBackend)
/-- The row of page descriptors behind a level-one entry. -/
def leafRow (link : Descriptor) : Nat → Descriptor :=
  match pointer link with
  | none => fun _ => 0#64
  | some leaf => backend.entries leaf

@[simp] theorem leafRow_zero : backend.leafRow 0#64 = fun _ => 0#64 := by simp [leafRow]

theorem leafRow_of_pointer {link} (hptr : pointer link = some leaf) :
  backend.leafRow link = backend.entries leaf := by
  simp [leafRow, hptr]

end TableBackend

variable {space : AddressSpace}
namespace AddressSpace
/-- The level-one table below the root; user addresses use root entry zero. -/
def levelOne (space : AddressSpace) (backend : TableBackend) : Option Nat :=
  pointer (backend.entries space.rootPfn 0)

/-- The descriptor that translates a page below root entry zero, zero when there is
none. -/
def view (space : AddressSpace) (backend : TableBackend) (page : Nat) : Descriptor :=
  match space.levelOne backend with
  | none => 0#64
  | some table =>
    if page / tableEntries < tableEntries then
      backend.leafRow (backend.entries table (page / tableEntries)) (page % tableEntries)
    else
      0#64

variable {backend : TableBackend}
theorem levelOne_congr (root : other.entries space.rootPfn = backend.entries space.rootPfn) :
  space.levelOne other = space.levelOne backend := by
  unfold levelOne
  rw [root]

end AddressSpace

/-! ## Counting parents -/

/-- The level-one tables in use, once for each space. -/
def levelOnes (backend : TableBackend) (spaces : List AddressSpace) : List Nat :=
  spaces.filterMap (·.levelOne backend)

def holders (spaces : List AddressSpace) (pfn : Nat) : Nat :=
  (spaces.flatMap (·.tablePfns)).count pfn

/-- How many spaces, roots and level-one entries lead directly to the table. -/
def parents (backend : TableBackend) (spaces : List AddressSpace) (pfn : Nat) : Nat :=
  (spaces.map (·.rootPfn)).count pfn + (levelOnes backend spaces).count pfn +
    ((levelOnes backend spaces).dedup.flatMap backend.children).count pfn

section
variable {backend : TableBackend} {others : List AddressSpace}
theorem levelOnes_cons_none (hnone : space.levelOne backend = none) :
  levelOnes backend (space :: others) = levelOnes backend others :=
  filterMap_cons_none hnone

theorem levelOnes_cons_some (hsome : space.levelOne backend = some table) :
  levelOnes backend (space :: others) = table :: levelOnes backend others :=
  filterMap_cons_some hsome

/-- One when the statement holds, zero otherwise. -/
def indicator (holds : Prop) [Decidable holds] : Nat := if holds then 1 else 0

theorem indicator_some : indicator (some child = some pfn) = indicator (pfn = child) := by
  simp [indicator, eq_comm]

theorem indicator_none : indicator (none = some pfn) = 0 := by simp [indicator]

theorem holders_cons (pfn) :
  holders (space :: others) pfn = space.tablePfns.count pfn + holders others pfn := by
  simp [holders]

theorem parents_cons_none (hnone : space.levelOne backend = none) (pfn) :
  parents backend (space :: others) pfn =
    indicator (pfn = space.rootPfn) + parents backend others pfn := by
  unfold parents indicator
  rw [levelOnes_cons_none hnone]
  simp only [map_cons, count_cons, beq_iff_eq, eq_comm (a := space.rootPfn)]
  omega

variable (hsome : space.levelOne backend = some table)
include hsome
theorem parents_cons_shared (shared : table ∈ levelOnes backend others) (pfn) :
  parents backend (space :: others) pfn =
    indicator (pfn = space.rootPfn) + indicator (pfn = table) + parents backend others pfn := by
  unfold parents indicator
  rw [levelOnes_cons_some hsome, dedup_cons_of_mem shared]
  simp only [map_cons, count_cons, beq_iff_eq, eq_comm (a := space.rootPfn), eq_comm (a := table)]
  omega

theorem parents_cons_own (hown : table ∉ levelOnes backend others) (pfn) :
  parents backend (space :: others) pfn =
    indicator (pfn = space.rootPfn) + indicator (pfn = table) +
      (backend.children table).count pfn + parents backend others pfn := by
  unfold parents indicator
  rw [levelOnes_cons_some hsome, dedup_cons_of_notMem hown]
  simp only [map_cons, count_cons, flatMap_cons, count_append, beq_iff_eq,
    eq_comm (a := space.rootPfn), eq_comm (a := table)]
  omega

end

/-! ## What a table without parents cannot be -/

variable {spaces : List AddressSpace} {backend : TableBackend}
theorem root_ne_of_no_parents (zero : parents backend spaces pfn = 0) (hspace : space ∈ spaces)
  : space.rootPfn ≠ pfn := by
  rintro rfl
  have hpos := count_pos_iff.mpr (mem_map_of_mem (f := (·.rootPfn)) hspace)
  unfold parents at zero
  omega

theorem not_mem_levelOnes_of_no_parents (zero : parents backend spaces pfn = 0) :
  pfn ∉ levelOnes backend spaces := by
  intro hmem
  have hpos := count_pos_iff.mpr hmem
  unfold parents at zero
  omega

theorem mem_levelOnes (hspace : space ∈ spaces) (hsome : space.levelOne backend = some table) :
  table ∈ levelOnes backend spaces :=
  mem_filterMap.mpr ⟨space, hspace, hsome⟩

theorem parents_pos_of_child (htable : table ∈ levelOnes backend spaces)
  (child : pfn ∈ backend.children table) : 0 < parents backend spaces pfn := by
  have hpos : 0 < ((levelOnes backend spaces).dedup.flatMap backend.children).count pfn :=
    count_pos_iff.mpr (mem_flatMap.mpr ⟨table, mem_dedup.mpr htable, child⟩)
  unfold parents
  omega

theorem parents_pos_of_root (hspace : space ∈ spaces) : 0 < parents backend spaces space.rootPfn :=
  Nat.pos_of_ne_zero fun zero => root_ne_of_no_parents zero hspace rfl

theorem parents_pos_of_levelOne (hmem : pfn ∈ levelOnes backend spaces) :
  0 < parents backend spaces pfn :=
  Nat.pos_of_ne_zero fun zero => not_mem_levelOnes_of_no_parents zero hmem

/-! ## Changes that no space can see -/

/-- The two backends agree on the root and level-one tables of the spaces. -/
def AgreeUpper (before after : TableBackend) (spaces : List AddressSpace) : Prop :=
  ∀ pfn, pfn ∈ spaces.map (·.rootPfn) ∨ pfn ∈ levelOnes before spaces →
    after.entries pfn = before.entries pfn

variable {before after : TableBackend}
namespace AgreeUpper
variable (agree : AgreeUpper before after spaces)
include agree
theorem levelOne (hspace : space ∈ spaces) : space.levelOne after = space.levelOne before :=
  AddressSpace.levelOne_congr (agree _ (.inl (mem_map_of_mem hspace)))

theorem levelOnes_eq : levelOnes after spaces = levelOnes before spaces :=
  filterMap_congr fun _ space => agree.levelOne space

theorem children (htable : table ∈ levelOnes before spaces) :
  after.children table = before.children table :=
  TableBackend.children_congr (agree _ (.inr htable))

theorem parents_eq (pfn) : parents after spaces pfn = parents before spaces pfn := by
  have flat : (levelOnes before spaces).dedup.flatMap after.children =
    (levelOnes before spaces).dedup.flatMap before.children :=
    flatMap_congr fun table htable => agree.children (mem_dedup.mp htable)
  unfold parents
  rw [agree.levelOnes_eq, flat]

end AgreeUpper

/-- The two backends agree on every table the spaces reach. -/
def Agree (before after : TableBackend) (spaces : List AddressSpace) : Prop :=
  ∀ pfn, parents before spaces pfn ≠ 0 → after.entries pfn = before.entries pfn

namespace Agree
variable {middle : TableBackend}
theorem upper (agree : Agree before after spaces) : AgreeUpper before after spaces := by
  rintro pfn (root | level)
  · obtain ⟨space, hspace, rfl⟩ := mem_map.mp root
    exact agree _ (ne_of_gt (parents_pos_of_root hspace))
  · exact agree _ (ne_of_gt (parents_pos_of_levelOne level))

theorem view_eq (agree : Agree before after spaces) (hspace : space ∈ spaces) :
  space.view after = space.view before := by
  funext page
  unfold AddressSpace.view
  rw [agree.upper.levelOne hspace]
  cases level : space.levelOne before with
  | none => rfl
  | some table =>
    have htable := mem_levelOnes hspace level
    have entries := agree table (ne_of_gt (parents_pos_of_levelOne htable))
    simp only [entries, TableBackend.leafRow]
    by_cases slot : page / tableEntries < tableEntries
    · rw [if_pos slot, if_pos slot]
      cases hleaf : pointer (before.entries table (page / tableEntries)) with
      | none => rfl
      | some leaf =>
        have child : leaf ∈ before.children table := TableBackend.mem_children.mpr ⟨_, slot, hleaf⟩
        have seen := agree leaf (ne_of_gt (parents_pos_of_child htable child))
        simp only [seen]
    · rw [if_neg slot, if_neg slot]

theorem refl (backend spaces) : Agree backend backend spaces := fun _ _ => rfl

theorem trans (hfirst : Agree before middle spaces) (hsnd : Agree middle after spaces) :
  Agree before after spaces := by
  intro pfn parents
  rw [hsnd pfn (by rwa [hfirst.upper.parents_eq pfn]), hfirst pfn parents]

end Agree
end Smros.PageTable
