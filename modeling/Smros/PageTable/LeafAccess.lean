import Smros.PageTable.PrivatePath
import Smros.PageTable.Reference

/-!
# Reading and writing leaf entries

Under the invariant a walk ends at the leaf that the space's view comes from, and a
write through a private path changes that one page of this space only.
-/

namespace Smros.PageTable
open Lib Lib.Program TableBackend PageTable.Core

/-! ## Walks -/

section
variable {backend : TableBackend} {spaces : List AddressSpace}
  {space : AddressSpace} {vaddr table idx : Nat}
theorem Core.childTable_eq (htable : backend.window.Has table) (hidx : idx < tableEntries) :
  childTable backend table idx =
    match pointer (backend.entries table idx) with
    | none => .error .notMapped
    | some child => .ok child := by
  unfold childTable pointer
  rw [readEntry_eq htable hidx]
  by_cases valid : descriptorValid (backend.entries table idx) = true
  · simp [valid]
  · simp [valid]

variable (hinv : Inv backend spaces) (hspace : space ∈ spaces) (hvaddr : vaddr < userLimit)
include hinv hspace hvaddr

omit hinv hspace in
/-- A walk through tables of the window. -/
theorem leafLocation_eq (root : backend.window.Has space.rootPfn)
  (tables : ∀ table, space.levelOne backend = some table → backend.window.Has table) :
  leafLocation space backend vaddr =
    match space.levelOne backend with
    | none => .error .notMapped
    | some table =>
      match pointer (backend.entries table (slotOf vaddr)) with
      | none => .error .notMapped
      | some leaf => .ok (leaf, vaddr / pageSize % tableEntries) := by
  unfold leafLocation
  rw [tableIndices_user hvaddr]
  dsimp only
  rw [childTable_eq root (by decide)]
  change (match space.levelOne backend with
    | none => Except.error AddressSpaceCoreError.notMapped
    | some child => Except.ok child) >>= _ = _
  cases level : space.levelOne backend with
  | none => rfl
  | some table =>
    change childTable backend table _ >>= _ = _
    rw [childTable_eq (tables table level) (slotOf_lt hvaddr)]
    dsimp only
    cases pointer (backend.entries table (slotOf vaddr)) with
    | none => rfl
    | some leaf => rfl

omit hinv hspace in
/-- The descriptor behind a user address. -/
theorem view_eq : space.view backend (vaddr / pageSize) =
    match space.levelOne backend with
    | none => 0#64
    | some table =>
      backend.leafRow (backend.entries table (slotOf vaddr)) (vaddr / pageSize % tableEntries) := by
  unfold AddressSpace.view
  cases space.levelOne backend with
  | none => rfl
  | some table => exact if_pos (slotOf_lt hvaddr)

/-- A walk finds the leaf the view comes from, or the view is empty. -/
theorem leafLocation_cases : (∃ table leaf, space.levelOne backend = some table ∧
    pointer (backend.entries table (slotOf vaddr)) = some leaf ∧ backend.window.Has leaf ∧
    leafLocation space backend vaddr = .ok (leaf, vaddr / pageSize % tableEntries) ∧
    space.view backend (vaddr / pageSize) =
      backend.entries leaf (vaddr / pageSize % tableEntries)) ∨
  leafLocation space backend vaddr = .error .notMapped ∧
    space.view backend (vaddr / pageSize) = 0#64 := by
  rw [leafLocation_eq hvaddr (hinv.window_root hspace) fun _ => hinv.window_levelOne hspace,
    view_eq hvaddr]
  cases level : space.levelOne backend with
  | none => exact .inr ⟨rfl, rfl⟩
  | some table =>
    dsimp only
    cases hleaf : pointer (backend.entries table (slotOf vaddr)) with
    | none => exact .inr ⟨rfl, by simp [leafRow, hleaf]⟩
    | some leaf =>
      have child : leaf ∈ backend.children table := mem_children.mpr ⟨_, slotOf_lt hvaddr, hleaf⟩
      exact .inl ⟨table, leaf, rfl, hleaf, hinv.window_child hspace level child, rfl,
        by simp [leafRow, hleaf]⟩

end

namespace Core
/-- The space translates the pages of the reference map. -/
abbrev Shows (base : TableBackend) (others : List AddressSpace)
  (pages : PageMap) (core : Core) : Prop :=
  Keeps base others (encodePages pages) core

/-- The slot has a leaf table, and the path to it is private. -/
structure LeafReady (core : Core) (slot leaf : Nat) : Prop where
  path : ∃ table, core.levelOne = some table ∧ pointer (core.backend.entries table slot) = some leaf
  isPrivate : PathPrivate core slot

variable {base : TableBackend} {others : List AddressSpace} {pages : PageMap}
  {core : Core} {vaddr leaf slot : Nat}
theorem LeafReady.window (ready : LeafReady core (slotOf vaddr) leaf)
  (hinv : Inv core.backend (core.space :: others)) (hvaddr : vaddr < userLimit) :
  core.backend.window.Has leaf := by
  obtain ⟨table, level, hleaf⟩ := ready.path
  exact hinv.window_child List.mem_cons_self level (mem_children.mpr ⟨_, slotOf_lt hvaddr, hleaf⟩)

theorem LeafReady.entry (ready : LeafReady core (slotOf vaddr) leaf)
  (shows : Shows base others pages core) (hvaddr : vaddr < userLimit) :
  core.backend.entries leaf (vaddr / pageSize % tableEntries) =
    encode (pages (vaddr / pageSize)) := by
  obtain ⟨table, level, hleaf⟩ := ready.path
  have level' : core.space.levelOne core.backend = some table := level
  have view := congrFun shows.view (vaddr / pageSize)
  rw [view_eq hvaddr, level'] at view
  dsimp only at view
  rw [leafRow_of_pointer _ hleaf] at view
  exact view

theorem mod_lt (page) : page % tableEntries < tableEntries := Nat.mod_lt _ (by decide)

/-- The state after one leaf entry was written. -/
def wrote (core : Core) (leaf vaddr : Nat) (descriptor : Descriptor) : Core :=
  core.withBackend (core.backend.setEntry leaf (vaddr / pageSize % tableEntries) descriptor)

theorem wrote_sameShape (hinv : Inv core.backend (core.space :: others))
  (ready : LeafReady core (slotOf vaddr) leaf) (hvaddr : vaddr < userLimit) (descriptor) :
  SameShape core (core.wrote leaf vaddr descriptor) := by
  obtain ⟨table, level, hleaf⟩ := ready.path
  have level' : core.space.levelOne core.backend = some table := level
  have child : leaf ∈ core.backend.children table := mem_children.mpr ⟨_, slotOf_lt hvaddr, hleaf⟩
  have root : core.space.rootPfn ≠ leaf :=
    hinv.child_ne_root (mem_levelOnes List.mem_cons_self level') child List.mem_cons_self
  refine ⟨AddressSpace.levelOne_congr ?_, ?_, fun _ => rfl, rfl⟩
  · exact core.backend.setEntry_of_ne _ _ _ root
  intro found hfound
  obtain rfl := Option.some.inj (level.symm.trans hfound)
  exact core.backend.setEntry_of_ne _ _ _ (hinv.child_ne_table level' child).symm

theorem wrote_shows (shows : Shows base others pages core)
  (ready : LeafReady core (slotOf vaddr) leaf) (hvaddr : vaddr < userLimit) (page) :
  Shows base others (Function.update pages (vaddr / pageSize) page)
    (core.wrote leaf vaddr (encode page)) := by
  obtain ⟨table, level, hleaf⟩ := ready.path
  have slot := slotOf_lt hvaddr
  have hprivate := ready.isPrivate.1 table level
  have hone := (ready.isPrivate.2 table level leaf hleaf).2
  have hpage : vaddr / pageSize = pageOf (slotOf vaddr) (vaddr / pageSize % tableEntries) :=
    (eq_pageOf_iff (mod_lt _)).mpr ⟨rfl, rfl⟩
  refine ⟨shows.inv.writeLeaf_inv level slot hleaf _,
    shows.agree.trans (shows.inv.writeLeaf_agree level hprivate slot hleaf hone _),
    shows.window, ?_⟩
  rw [encodePages_update, ← shows.view]
  refine (shows.inv.writeLeaf_view level hprivate slot hleaf hone (mod_lt _) _).trans ?_
  rw [← hpage]

theorem LeafReady.of_sameShape {after} (ready : LeafReady core slot leaf)
  (hslot : slot < tableEntries) (same : SameShape core after) : LeafReady after slot leaf := by
  obtain ⟨table, level, hleaf⟩ := ready.path
  refine ⟨⟨table, same.levelOne.trans level, ?_⟩,
    same.evolves.topPrivate ready.isPrivate.1, same.evolves.calm slot hslot ready.isPrivate.2⟩
  rwa [same.entries table level]

/-! ## Translation -/

/-- The page offset only fills the bits below the frame address. -/
theorem or_offset (pfn vaddr) :
  pfn * pageSize ||| vaddr % pageSize = pfn * pageSize + vaddr % pageSize := by
  have offset : vaddr % pageSize < 2 ^ 12 := Nat.mod_lt _ (by decide)
  have hor := Nat.shiftLeft_add_eq_or_of_lt offset pfn
  rw [Nat.shiftLeft_eq] at hor
  exact hor.symm

/-- What a page's descriptor allows, and the address it leads to. -/
theorem pageDescriptor_translates (page : UserPage) (vaddr write) :
  (if !descriptorValid page.descriptor || page.descriptor &&& descApUser == 0#64 ||
    (write && page.descriptor &&& descApReadOnly != 0#64) then none
    else some ((page.descriptor &&& descAddrMask).toNat ||| (vaddr % pageSize))) =
    if !page.accessible || (write && !page.permissions.2.1) then none
    else some (page.pfn * pageSize + vaddr % pageSize) := by
  have user : (page.descriptor &&& descApUser == 0#64) = !page.accessible :=
    userPageDescriptor_apUser ..
  have readOnly : (page.descriptor &&& descApReadOnly != 0#64) = !page.permissions.2.1 :=
    userPageDescriptor_apReadOnly ..
  simp only [page.descriptor_valid, user, readOnly, page.descriptor_address, Bool.not_true,
    Bool.false_or, or_offset]

/-- An invariant space translates user addresses as the reference map does. -/
theorem translateUser_eq {backend spaces space pages} (hinv : Inv backend spaces)
  (hspace : space ∈ spaces) (view : space.view backend = encodePages pages) (vaddr write) :
  space.translateUser backend vaddr write = Reference.translateUser pages vaddr write := by
  unfold AddressSpace.translateUser Reference.translateUser
  by_cases range : userBase ≤ vaddr ∧ vaddr < userLimit
  · rw [if_neg (not_not.mpr range), if_neg (not_not.mpr range)]
    have entry := congrFun view (vaddr / pageSize)
    unfold encodePages at entry
    rcases leafLocation_cases hinv hspace range.2 with
      ⟨table, leaf, -, -, window, walk, found⟩ | ⟨walk, found⟩
    · rw [walk]
      dsimp only
      rw [readEntry_eq window (mod_lt _), ← found, entry]
      cases pages (vaddr / pageSize) with
      | none => simp [descriptorValid_zero]
      | some page =>
        dsimp only
        rw [encode_some, pageDescriptor_translates]
    · rw [walk]
      rw [found] at entry
      rw [encode_eq_zero.mp entry.symm]
  · rw [if_pos range, if_pos range]

end Core
end Smros.PageTable
