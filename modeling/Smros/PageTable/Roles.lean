import Smros.PageTable.LeafAccess

/-!
# The places of the tables of one space

In a space that shares no table, every table has one place in the tree: the root, the
level-one table of a root entry, or the leaf of a level-one entry.  Two entries that
point to the same table would give it two places, so no table is aliased.  Entries outside
the user slots may hold supervisor blocks, or tables of them.
-/

namespace Smros.PageTable
open Lib Lib.Program Function PageTable.Core

inductive Role where
  | root
  | levelOne (rootIndex : Nat)
  | leaf (rootIndex slot : Nat)
  deriving DecidableEq

variable {index : Nat}
namespace Role
/-- The place that an entry of a table leads to; the entries of a leaf lead to pages. -/
def child : Role → Nat → Option Role
  | .root, index => some (.levelOne index)
  | .levelOne rootIndex, index => some (.leaf rootIndex index)
  | .leaf .., _ => none

/-- The slots of the level-one table that translate user addresses. -/
def UserSlot (slot : Nat) : Prop :=
  userBase / pageSize / tableEntries ≤ slot ∧ slot < userLimit / pageSize / tableEntries

/-- The entries on the way to a user page. -/
def UserCell : Role → Nat → Prop
  | .root, index => index = 0
  | .levelOne rootIndex, index => rootIndex = 0 ∧ UserSlot index
  | .leaf .., _ => True

instance (slot : Nat) : Decidable (UserSlot slot) := inferInstanceAs (Decidable (_ ∧ _))

instance : ∀ (role : Role) (index : Nat), Decidable (role.UserCell index)
  | .root, index => inferInstanceAs (Decidable (index = 0))
  | .levelOne rootIndex, index => inferInstanceAs (Decidable (rootIndex = 0 ∧ UserSlot index))
  | .leaf .., _ => .isTrue trivial

variable {next : Role}
theorem child_ne_root {role : Role} (child : role.child index = some next) : next ≠ .root := by
  cases role <;> cases child <;> exact nofun

end Role

/-- An address of the user range. -/
def UserAddress (vaddr : Nat) : Prop := userBase ≤ vaddr ∧ vaddr < userLimit

/-- Every table of the space has one holder and one place. -/
structure Placed (roles : Nat → Option Role) (space : AddressSpace) (backend : TableBackend) :
  Prop where
  root : ∀ pfn, roles pfn = some .root ↔ pfn = space.rootPfn
  held : ∀ pfn role, roles pfn = some role → backend.references pfn = 1
  linked : ∀ {pfn role index next child}, roles pfn = some role → index < tableEntries →
    role.child index = some next → pointer (backend.entries pfn index) = some child →
    roles child = some next
  links : ∀ {pfn role index next}, roles pfn = some role → role.child index = some next →
    role.UserCell index → IsLink (backend.entries pfn index)

/-- The user pages of the space are those of the map. -/
def Contents (pages : PageMap) (space : AddressSpace) (backend : TableBackend) : Prop :=
  ∀ vaddr, UserAddress vaddr →
    space.view backend (vaddr / pageSize) = encode (pages (vaddr / pageSize))

/-- The entry that decides a supervisor address: in the level-one table if the root entry
leads to one. -/
def supervisorEntry (space : AddressSpace) (backend : TableBackend) (vaddr : Nat) : Descriptor :=
  match pointer (backend.entries space.rootPfn (vaddr / 2 ^ 30 % tableEntries)) with
  | none => backend.entries space.rootPfn (vaddr / 2 ^ 30 % tableEntries)
  | some table => backend.entries table (vaddr / 2 ^ 21 % tableEntries)

/-- What the space says of supervisor addresses is as it was. -/
def SupervisorSame (space : AddressSpace) (backend after : TableBackend) : Prop :=
  ∀ vaddr < 2 ^ vaBits, ¬ UserAddress vaddr →
    supervisorEntry space after vaddr = supervisorEntry space backend vaddr

variable {pfn leaf vaddr : Nat} {roles : Nat → Option Role} {space : AddressSpace}
  {backend : TableBackend}
section
variable {other : Nat}
theorem UserAddress.slot (user : UserAddress vaddr) : Role.UserSlot (slotOf vaddr) := by
  unfold UserAddress userBase userLimit at user
  unfold Role.UserSlot slotOf userBase userLimit pageSize tableEntries
  omega

namespace Placed
variable {table : Nat}
section
variable (placed : Placed roles space backend)
include placed
theorem window {role} (hrole : roles pfn = some role) : backend.window.Has pfn :=
  backend.references_window pfn (by rw [placed.held pfn role hrole]; decide)

/-- A free table has no place. -/
theorem not_free (free : backend.references pfn = 0) : roles pfn = none := by
  cases hrole : roles pfn with
  | none => rfl
  | some role =>
    rw [placed.held pfn role hrole] at free
    cases free

theorem rootRole : roles space.rootPfn = some .root := (placed.root _).mpr rfl

theorem levelOne_role (level : space.levelOne backend = some table) :
  roles table = some (.levelOne 0) :=
  placed.linked placed.rootRole (by decide) rfl level

theorem leaf_role {slot} (level : space.levelOne backend = some table) (hslot : slot < tableEntries)
  (hleaf : pointer (backend.entries table slot) = some leaf) : roles leaf = some (.leaf 0 slot) :=
  placed.linked (placed.levelOne_role level) hslot rfl hleaf

end

variable {different : Role}
/-- Tables with different places are different. -/
theorem ne_of_roles {role} (hrole : roles pfn = some role) (hother : roles other = some different)
  (hne : role ≠ different) : pfn ≠ other := by
  rintro rfl
  rw [hrole] at hother
  exact hne (Option.some.inj hother)

theorem rootLink (placed : Placed roles space backend) : IsLink (backend.entries space.rootPfn 0) :=
  placed.links placed.rootRole rfl rfl

theorem userLink {slot} (placed : Placed roles space backend)
  (level : space.levelOne backend = some table) (hslot : Role.UserSlot slot) :
  IsLink (backend.entries table slot) :=
  placed.links (placed.levelOne_role level) rfl ⟨rfl, hslot⟩

end Placed

/-- The leaf table of a slot. -/
def LeafAt (space : AddressSpace) (backend : TableBackend) (slot leaf : Nat) : Prop :=
  ∃ table, space.levelOne backend = some table ∧ pointer (backend.entries table slot) = some leaf

theorem LeafAt.role {slot : Nat} (hleaf : LeafAt space backend slot leaf)
  (placed : Placed roles space backend) (hslot : slot < tableEntries) :
  roles leaf = some (.leaf 0 slot) := by
  obtain ⟨table, level, pointer⟩ := hleaf
  exact placed.leaf_role level hslot pointer

section
variable (hleaf : LeafAt space backend (slotOf vaddr) leaf)
include hleaf
theorem LeafAt.view (hvaddr : vaddr < userLimit) :
  space.view backend (vaddr / pageSize) = backend.entries leaf (vaddr / pageSize % tableEntries) := by
  obtain ⟨table, level, pointer⟩ := hleaf
  rw [view_eq hvaddr, level]
  exact congrFun (backend.leafRow_of_pointer pointer) _

theorem LeafAt.location (placed : Placed roles space backend) (hvaddr : vaddr < userLimit) :
  leafLocation space backend vaddr = .ok (leaf, vaddr / pageSize % tableEntries) := by
  obtain ⟨table, level, hptr⟩ := hleaf
  rw [leafLocation_eq hvaddr (placed.window placed.rootRole) fun _ found =>
    placed.window (placed.levelOne_role found), level]
  dsimp only
  rw [hptr]

end

/-- A walk ends at a leaf, or nothing is mapped in the slot. -/
theorem Placed.walk (placed : Placed roles space backend) (user : UserAddress vaddr) :
  (∃ leaf, LeafAt space backend (slotOf vaddr) leaf) ∨
    (∀ leaf, ¬ LeafAt space backend (slotOf vaddr) leaf) ∧ leafLocation space backend vaddr =
      .error .notMapped ∧ space.view backend (vaddr / pageSize) = 0#64 := by
  have hvaddr := user.2
  rw [leafLocation_eq hvaddr (placed.window placed.rootRole) fun _ found =>
    placed.window (placed.levelOne_role found)]
  cases level : space.levelOne backend with
  | none =>
    refine .inr ⟨fun leaf => ?_, rfl, ?_⟩
    · rintro ⟨table, htable, -⟩
      rw [level] at htable
      cases htable
    · rw [view_eq hvaddr, level]
  | some table =>
    cases hleaf : pointer (backend.entries table (slotOf vaddr)) with
    | some leaf => exact .inl ⟨leaf, table, level, hleaf⟩
    | none =>
      refine .inr ⟨fun leaf => ?_, ?_, ?_⟩
      · rintro ⟨other, hother, hptr⟩
        rw [level] at hother
        cases hother
        rw [hleaf] at hptr
        cases hptr
      · dsimp only
        rw [hleaf]
      · rw [view_eq hvaddr, level]
        simp [TableBackend.leafRow, hleaf]

/-- A slot has one leaf. -/
theorem LeafAt.unique {slot} (hleaf : LeafAt space backend slot leaf)
  (hother : LeafAt space backend slot other) : leaf = other := by
  obtain ⟨table, level, pointer⟩ := hleaf
  obtain ⟨found, hfound, same⟩ := hother
  cases level.symm.trans hfound
  exact Option.some.inj (pointer.symm.trans same)

end

/-! ## Only the root of the space counts -/

variable {pages : PageMap} {after : TableBackend}
section
variable {other : AddressSpace} (hroot : other.rootPfn = space.rootPfn)
include hroot
theorem Placed.of_root (placed : Placed roles space backend) : Placed roles other backend :=
  { placed with root := fun pfn => hroot ▸ placed.root pfn }

theorem levelOne_of_root : other.levelOne backend = space.levelOne backend := by
  unfold AddressSpace.levelOne
  rw [hroot]

theorem LeafAt.of_root {slot} (hleaf : LeafAt space backend slot leaf) :
  LeafAt other backend slot leaf := by
  unfold LeafAt
  rw [levelOne_of_root hroot]
  exact hleaf

theorem Contents.of_root (contents : Contents pages space backend) :
  Contents pages other backend := by
  intro vaddr user
  rw [← contents vaddr user, view_eq user.2, view_eq user.2, levelOne_of_root hroot]

theorem SupervisorSame.of_root (same : SupervisorSame space backend after) :
  SupervisorSame other backend after := by
  intro vaddr hvaddr user
  unfold supervisorEntry
  rw [hroot]
  exact same vaddr hvaddr user

end

/-! ## Changes that the space does not see -/

variable {between : TableBackend}
/-- The tables of the space are as they were. -/
def AgreeOn (roles : Nat → Option Role) (backend after : TableBackend) : Prop :=
  ∀ pfn role, roles pfn = some role →
    after.entries pfn = backend.entries pfn ∧ after.references pfn = backend.references pfn

theorem Placed.of_agree (placed : Placed roles space backend) (agree : AgreeOn roles backend after)
  : Placed roles space after where
  root := placed.root
  held pfn role hrole := (agree pfn role hrole).2.trans (placed.held pfn role hrole)
  linked {pfn role idx next child} hrole hidx hchild pointer := by
    rw [(agree pfn role hrole).1] at pointer
    exact placed.linked hrole hidx hchild pointer
  links {pfn role idx next} hrole hchild user := by
    rw [(agree pfn role hrole).1]
    exact placed.links hrole hchild user

theorem AgreeOn.leafAt (agree : AgreeOn roles backend after) (placed : Placed roles space backend)
  {slot} : LeafAt space after slot leaf ↔ LeafAt space backend slot leaf := by
  have hroot := (agree _ _ placed.rootRole).1
  have level : space.levelOne after = space.levelOne backend := AddressSpace.levelOne_congr hroot
  unfold LeafAt
  rw [level]
  refine exists_congr fun table => and_congr_right fun htable => ?_
  rw [(agree _ _ (placed.levelOne_role htable)).1]

theorem Contents.of_agree (contents : Contents pages space backend)
  (placed : Placed roles space backend) (agree : AgreeOn roles backend after) :
  Contents pages space after := by
  intro vaddr user
  rw [← contents vaddr user]
  rcases placed.walk user with ⟨leaf, hleaf⟩ | ⟨hnone, -, view⟩
  · have role := hleaf.role placed (slotOf_lt user.2)
    rw [hleaf.view user.2, ((agree.leafAt placed).mpr hleaf).view user.2, (agree leaf _ role).1]
  · rcases (placed.of_agree agree).walk user with ⟨leaf, hleaf⟩ | ⟨-, -, hafter⟩
    · exact absurd ((agree.leafAt placed).mp hleaf) (hnone leaf)
    · rw [view, hafter]

theorem SupervisorSame.trans (hfirst : SupervisorSame space backend between)
  (hsnd : SupervisorSame space between after) : SupervisorSame space backend after :=
  fun vaddr hvaddr user => (hsnd vaddr hvaddr user).trans (hfirst vaddr hvaddr user)

theorem index_lt (value) : value % tableEntries < tableEntries := Nat.mod_lt _ (by decide)

theorem SupervisorSame.of_agree (placed : Placed roles space backend)
  (agree : AgreeOn roles backend after) : SupervisorSame space backend after := by
  intro vaddr _ _
  unfold supervisorEntry
  rw [(agree _ _ placed.rootRole).1]
  cases htable : pointer (backend.entries space.rootPfn (vaddr / 2 ^ 30 % tableEntries)) with
  | none => rfl
  | some table =>
    have role := placed.linked placed.rootRole (index_lt _) rfl htable
    exact congrFun (agree _ _ role).1 _

/-- Below root entry zero a supervisor address is in no user slot. -/
theorem not_userSlot_of_supervisor (hlt : vaddr < 2 ^ vaBits) (user : ¬ UserAddress vaddr)
  (hroot : vaddr / 2 ^ 30 % tableEntries = 0) :
  ¬ Role.UserSlot (vaddr / 2 ^ 21 % tableEntries) := by
  unfold UserAddress userBase userLimit at user
  unfold vaBits at hlt
  unfold tableEntries at hroot
  unfold Role.UserSlot userBase userLimit pageSize tableEntries
  omega

/-! ## Writing a leaf -/

variable {slot : Nat} {desc : Descriptor}
theorem setEntry_other (hne : pfn ≠ leaf) :
  (backend.setEntry leaf index desc).entries pfn = backend.entries pfn :=
  backend.setEntry_of_ne leaf index desc hne

variable (placed : Placed roles space backend) {rootIndex place found : Nat}
include placed

section
variable (hleaf : roles leaf = some (.leaf rootIndex slot))
include hleaf
theorem Placed.writeLeaf : Placed roles space (backend.setEntry leaf index desc) where
  root := placed.root
  held := placed.held
  linked {pfn role pos next child} hrole hidx hchild pointer := by
    have hne : pfn ≠ leaf := by
      rintro rfl
      rw [hleaf] at hrole
      cases hrole
      cases hchild
    rw [setEntry_other hne] at pointer
    exact placed.linked hrole hidx hchild pointer
  links {pfn role pos next} hrole hchild user := by
    have hne : pfn ≠ leaf := by
      rintro rfl
      rw [hleaf] at hrole
      cases hrole
      cases hchild
    rw [setEntry_other hne]
    exact placed.links hrole hchild user

theorem Placed.leafAt_writeLeaf :
  LeafAt space (backend.setEntry leaf index desc) place found ↔
    LeafAt space backend place found := by
  have hroot : space.rootPfn ≠ leaf := Placed.ne_of_roles placed.rootRole hleaf nofun
  have level : space.levelOne (backend.setEntry leaf index desc) = space.levelOne backend :=
    AddressSpace.levelOne_congr (setEntry_other hroot)
  unfold LeafAt
  rw [level]
  refine exists_congr fun table => and_congr_right fun htable => ?_
  rw [setEntry_other (Placed.ne_of_roles (placed.levelOne_role htable) hleaf nofun)]

end

theorem Contents.writeLeaf (contents : Contents pages space backend) (user : UserAddress vaddr)
  (hleaf : LeafAt space backend (slotOf vaddr) leaf) (page) :
  Contents (update pages (vaddr / pageSize) page) space
    (backend.setEntry leaf (vaddr / pageSize % tableEntries) (encode page)) := by
  have role := hleaf.role placed (slotOf_lt user.2)
  intro other hother
  rcases placed.walk hother with ⟨found, hfound⟩ | ⟨hnone, -, view⟩
  · have after : LeafAt space (backend.setEntry leaf (vaddr / pageSize % tableEntries)
      (encode page)) (slotOf other) found := (placed.leafAt_writeLeaf role).mpr hfound
    rw [after.view hother.2]
    by_cases same : other / pageSize = vaddr / pageSize
    · have slot : slotOf other = slotOf vaddr := congrArg (· / tableEntries) same
      rw [slot] at hfound
      cases hfound.unique hleaf
      rw [same, update_self, TableBackend.setEntry_self]
    rw [update_of_ne same, ← contents other hother, hfound.view hother.2]
    by_cases slot : slotOf other = slotOf vaddr
    · rw [slot] at hfound
      cases hfound.unique hleaf
      have idx : other / pageSize % tableEntries ≠ vaddr / pageSize % tableEntries := by
        intro idx
        apply same
        rw [← Nat.div_add_mod (other / pageSize) tableEntries, idx]
        change tableEntries * slotOf other + _ = _
        rw [slot]
        exact Nat.div_add_mod (vaddr / pageSize) tableEntries
      exact TableBackend.setEntry_self_of_ne _ _ _ _ idx
    · have hother := hfound.role placed (slotOf_lt hother.2)
      have hne : found ≠ leaf := Placed.ne_of_roles hother role (by simpa using slot)
      rw [setEntry_other hne]
  · have hpage : other / pageSize ≠ vaddr / pageSize := by
      intro same
      have slot : slotOf other = slotOf vaddr := congrArg (· / tableEntries) same
      rw [← slot] at hleaf
      exact hnone leaf hleaf
    rw [update_of_ne hpage, ← contents other hother, view]
    rcases (placed.writeLeaf role).walk hother with ⟨found, hfound⟩ | ⟨-, -, after⟩
    · exact absurd ((placed.leafAt_writeLeaf role).mp hfound) (hnone found)
    · exact after

theorem SupervisorSame.writeLeaf (hleaf : roles leaf = some (.leaf rootIndex slot)) :
  SupervisorSame space backend (backend.setEntry leaf index desc) := by
  intro vaddr _ _
  unfold supervisorEntry
  rw [setEntry_other (Placed.ne_of_roles placed.rootRole hleaf nofun)]
  cases htable : pointer (backend.entries space.rootPfn (vaddr / 2 ^ 30 % tableEntries)) with
  | none => rfl
  | some table =>
    have role := placed.linked placed.rootRole (index_lt _) rfl htable
    exact congrFun (setEntry_other (Placed.ne_of_roles role hleaf nofun)) _

end Smros.PageTable
