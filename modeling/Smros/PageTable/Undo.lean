import Smros.PageTable.MapCalls
import Smros.PageTable.Roles

/-!
# Linking tables, and taking them back

A mapping call links cleared tables on the way to its pages and records what it links
and maps.  Undoing the records gives every older table the entries it had.
-/

namespace Smros.PageTable
open Lib Lib.Program List Function TableBackend

/-! ## Linking a new table -/

variable {leaf parent index child vaddr : Nat} {roles : Nat → Option Role} {core after : Core}
  {role next : Role}
section
open PageTable.Core
variable {position pfn found slot : Nat} {place : Role}
theorem Core.Grown.link (hgrown : Grown core after parent index child) :
  after.backend.entries parent index = tableDescriptor (child * pageSize) := by
  rw [hgrown.entry, update_self]

theorem Core.Grown.beside (hgrown : Grown core after parent index child) (hpos : position ≠ index) :
  after.backend.entries parent position = core.backend.entries parent position := by
  rw [hgrown.entry, update_of_ne hpos]

variable (hplaced : Placed roles core.space core.backend) (hparent : roles parent = some role)
  (hgrown : Grown core after parent index child) (hchild : role.child index = some next)
  (hzero : core.backend.entries parent index = 0#64)
include hplaced hgrown
/-- The new table was nowhere. -/
theorem Placed.child_ne (hpfn : roles pfn = some place) : pfn ≠ child := by
  rintro rfl
  rw [hplaced.not_free hgrown.free.1] at hpfn
  cases hpfn

include hparent hchild
theorem Placed.grown : Placed (update roles child (some next)) core.space after.backend := by
  have hold : ∀ {pfn place}, update roles child (some next) pfn = some place →
    pfn ≠ child → roles pfn = some place := by
    intro pfn place hpfn hother
    rwa [update_of_ne hother] at hpfn
  constructor
  · intro pfn
    by_cases hsame : pfn = child
    · subst hsame
      rw [update_self]
      refine ⟨fun hroot => absurd (Option.some.inj hroot) (Role.child_ne_root hchild), ?_⟩
      rintro rfl
      exact absurd rfl (hplaced.child_ne hgrown hplaced.rootRole)
    · rw [update_of_ne hsame]
      exact hplaced.root pfn
  · intro pfn place hpfn
    rw [hgrown.references]
    by_cases hsame : pfn = child
    · rw [indicator, if_pos hsame, hsame, hgrown.free.1]
    · rw [indicator, if_neg hsame, hplaced.held pfn place (hold hpfn hsame)]
  · intro pfn place position below found hpfn hpos hbelow hpointer
    by_cases hsame : pfn = child
    · rw [hsame, hgrown.fresh] at hpointer
      simp at hpointer
    have hplace := hold hpfn hsame
    by_cases hlink : pfn = parent ∧ position = index
    · obtain ⟨rfl, rfl⟩ := hlink
      rw [hgrown.link, pointer_table hgrown.free.2.lt] at hpointer
      cases hpointer
      cases hparent.symm.trans hplace
      rw [update_self, ← hchild, ← hbelow]
    have hentries : after.backend.entries pfn position = core.backend.entries pfn position := by
      by_cases htable : pfn = parent
      · subst htable
        exact hgrown.beside fun hindex => hlink ⟨rfl, hindex⟩
      · exact congrFun (hgrown.elsewhere _ htable hsame) position
    rw [hentries] at hpointer
    have hfound := hplaced.linked hplace hpos hbelow hpointer
    rw [update_of_ne (hplaced.child_ne hgrown hfound)]
    exact hfound
  · intro pfn place position below hpfn hbelow huser
    by_cases hsame : pfn = child
    · rw [hsame, hgrown.fresh]
      exact .inl rfl
    have hplace := hold hpfn hsame
    by_cases htable : pfn = parent
    · subst htable
      by_cases hindex : position = index
      · rw [hindex, hgrown.link]
        exact .inr ⟨child, hgrown.free.2.lt, rfl⟩
      · rw [hgrown.beside hindex]
        exact hplaced.links hplace hbelow huser
    · rw [hgrown.elsewhere _ htable hsame]
      exact hplaced.links hplace hbelow huser

omit hparent hchild in
include hzero in
/-- A link that was there is still there. -/
theorem Placed.pointer_grown (hpfn : roles pfn = some place)
  (hptr : pointer (core.backend.entries pfn position) = some found) :
  pointer (after.backend.entries pfn position) = some found := by
  have hsame := hplaced.child_ne hgrown hpfn
  by_cases htable : pfn = parent
  · subst htable
    have hidx : position ≠ index := by
      rintro rfl
      rw [hzero, pointer_zero] at hptr
      cases hptr
    rw [hgrown.beside hidx, hptr]
  · rw [hgrown.elsewhere _ htable hsame, hptr]

omit hparent hchild in
include hzero in
theorem LeafAt.grown (hleaf : LeafAt core.space core.backend slot leaf) :
  LeafAt core.space after.backend slot leaf := by
  obtain ⟨table, hlevel, hptr⟩ := hleaf
  exact ⟨table, hplaced.pointer_grown hgrown hzero hplaced.rootRole hlevel,
    hplaced.pointer_grown hgrown hzero (hplaced.levelOne_role hlevel) hptr⟩

/-- A leaf after the link is an older one, or the new table. -/
theorem LeafAt.of_grown (hleaf : LeafAt core.space after.backend slot leaf) :
  leaf = child ∨ LeafAt core.space core.backend slot leaf := by
  obtain ⟨table, hlevel, hpointer⟩ := hleaf
  by_cases htable : table = child
  · rw [htable, hgrown.fresh] at hpointer
    simp at hpointer
  · -- The link is not the root's, or the level-one table would be the new one.
    have level' : core.space.levelOne core.backend = some table := by
      change pointer (after.backend.entries core.space.rootPfn 0) = _ at hlevel
      change pointer (core.backend.entries core.space.rootPfn 0) = some table
      by_cases hroot : core.space.rootPfn = parent
      · by_cases hindex : index = 0
        · subst hindex
          rw [hroot, hgrown.link, pointer_table hgrown.free.2.lt] at hlevel
          exact absurd (Option.some.inj hlevel).symm htable
        · rw [hroot, hgrown.beside (Ne.symm hindex)] at hlevel
          rwa [hroot]
      · rwa [hgrown.elsewhere _ hroot (hplaced.child_ne hgrown hplaced.rootRole)] at hlevel
    by_cases hlink : table = parent ∧ slot = index
    · obtain ⟨rfl, rfl⟩ := hlink
      rw [hgrown.link, pointer_table hgrown.free.2.lt] at hpointer
      exact .inl (Option.some.inj hpointer).symm
    refine .inr ⟨table, level', ?_⟩
    by_cases hsame : table = parent
    · subst hsame
      rwa [hgrown.beside fun hindex => hlink ⟨rfl, hindex⟩] at hpointer
    · rwa [hgrown.elsewhere _ hsame htable] at hpointer

include hzero in
theorem Contents.grown {pages} (hcontents : Contents pages core.space core.backend) :
  Contents pages core.space after.backend := by
  intro vaddr huser
  rw [← hcontents vaddr huser]
  rcases hplaced.walk huser with ⟨leaf, hleaf⟩ | ⟨hnone, -, hview⟩
  · have hrole := hleaf.role hplaced (Core.slotOf_lt huser.2)
    have hne : leaf ≠ parent := by
      rintro rfl
      cases hrole.symm.trans hparent
      cases hchild
    rw [hleaf.view huser.2, (hleaf.grown hplaced hgrown hzero).view huser.2,
      hgrown.elsewhere _ hne (hplaced.child_ne hgrown hrole)]
  · rcases (hplaced.grown hparent hgrown hchild).walk huser with
      ⟨leaf, hleaf⟩ | ⟨-, -, hafter⟩
    · rcases hleaf.of_grown hplaced hparent hgrown hchild with rfl | hold
      · rw [hview, hleaf.view huser.2, hgrown.fresh]
      · exact absurd hold (hnone leaf)
    · rw [hview, hafter]

include hzero in
theorem SupervisorSame.grown (huser : role.UserCell index) :
  SupervisorSame core.space core.backend after.backend := by
  intro vaddr hvaddr hsupervisor
  unfold supervisorEntry
  by_cases hroot : core.space.rootPfn = parent
  · -- The root gets a level-one table for the user addresses.
    have hrole : role = .root := by
      rw [← hroot, hplaced.rootRole] at hparent
      exact (Option.some.inj hparent).symm
    subst hrole
    have hidx : index = 0 := huser
    subst hidx
    by_cases hzeroIndex : vaddr / 2 ^ 30 % tableEntries = 0
    · rw [hzeroIndex, hroot, hgrown.link, pointer_table hgrown.free.2.lt, hzero]
      simp only [pointer_zero]
      rw [hgrown.fresh]
    rw [hroot, hgrown.beside hzeroIndex]
    cases htable : pointer (core.backend.entries parent (vaddr / 2 ^ 30 % tableEntries)) with
    | none => rfl
    | some table =>
      have htableRole := hplaced.linked hparent (index_lt _) rfl htable
      exact congrFun (hgrown.elsewhere _
        (Placed.ne_of_roles htableRole hparent nofun) (hplaced.child_ne hgrown htableRole)) _
  · rw [hgrown.elsewhere _ hroot (hplaced.child_ne hgrown hplaced.rootRole)]
    cases htable : pointer (core.backend.entries core.space.rootPfn (vaddr / 2 ^ 30 % tableEntries)) with
    | none => rfl
    | some table =>
      have htableRole := hplaced.linked hplaced.rootRole (index_lt _) rfl htable
      by_cases hsame : table = parent
      · subst hsame
        cases htableRole.symm.trans hparent
        obtain ⟨hidx, hslot⟩ := huser
        have hother : vaddr / 2 ^ 21 % tableEntries ≠ index := by
          rintro rfl
          exact not_userSlot_of_supervisor hvaddr hsupervisor hidx hslot
        exact hgrown.beside hother
      · exact congrFun (hgrown.elsewhere _ hsame (hplaced.child_ne hgrown htableRole)) _

end

/-! ## What a call has recorded -/

variable {old : Nat → Option Role} {start : Core}
section
open PageTable.Core

/-- The entries that hold the links to the created tables. -/
def LinkCell (created : List (Nat × Nat × Nat)) (pfn index : Nat) : Prop :=
  ∃ child, (pfn, index, child) ∈ created

/-- The leaf entries of the pages. -/
def PageCell (space : AddressSpace) (backend : TableBackend) (vaddrs : List Nat)
  (pfn index : Nat) : Prop :=
  ∃ vaddr ∈ vaddrs, LeafAt space backend (slotOf vaddr) pfn ∧
    index = vaddr / pageSize % tableEntries

/-- An entry that the records of the call name. -/
def Recorded (core : Core) (pfn index : Nat) : Prop :=
  LinkCell core.created pfn index ∨ PageCell core.space core.backend core.mapped pfn index

/-- The tables that the call has created. -/
def createdTables (core : Core) : List Nat := core.created.map fun entry => entry.2.2

/--
A running call: it holds the tables it has created, and the entries of the older tables
are those of the start except where a record says so, and there they were empty.
-/
structure Since (old roles : Nat → Option Role) (start core : Core) : Prop where
  placed : Placed roles core.space core.backend
  kept : ∀ {pfn role}, old pfn = some role → roles pfn = some role
  root : core.space.rootPfn = start.space.rootPfn
  window : core.backend.window = start.backend.window
  tables : core.space.tablePfns = start.space.tablePfns ++ createdTables core
  references : ∀ pfn, core.backend.references pfn =
    start.backend.references pfn + (createdTables core).count pfn
  created : ∀ entry ∈ core.created, entry.2.1 < tableEntries ∧ ∃ role, roles entry.1 = some role
  mapped : ∀ vaddr ∈ core.mapped, UserAddress vaddr ∧
    ∃ leaf, LeafAt core.space core.backend (slotOf vaddr) leaf
  empty : ∀ {pfn role index}, old pfn = some role → Recorded core pfn index →
    start.backend.entries pfn index = 0#64
  same : ∀ {pfn role index}, old pfn = some role → ¬ Recorded core pfn index →
    core.backend.entries pfn index = start.backend.entries pfn index
  supervisor : SupervisorSame start.space start.backend core.backend

theorem Since.begin (hplaced : Placed old start.space start.backend) (created : start.created = [])
  (hmapped : start.mapped = []) : Since old old start start := by
  have nothing : ∀ {pfn index}, ¬ Recorded start pfn index := by
    rintro pfn index (⟨child, hchild⟩ | ⟨vaddr, hvaddr, -⟩)
    · rw [created] at hchild
      cases hchild
    · rw [hmapped] at hvaddr
      cases hvaddr
  have htables : createdTables start = [] := by rw [createdTables, created, map_nil]
  refine ⟨hplaced, id, rfl, rfl, ?_, ?_, ?_, ?_, fun _ hrecorded => absurd hrecorded nothing,
    fun _ _ => rfl, fun _ _ _ => rfl⟩
  · rw [htables, append_nil]
  · intro pfn
    rw [htables, count_nil, Nat.add_zero]
  · rw [created]
    exact nofun
  · rw [hmapped]
    exact nofun

theorem Core.Idle.agreeOn (idle : Idle core after) (hplaced : Placed roles core.space core.backend)
  : AgreeOn roles core.backend after.backend := by
  intro pfn role hrole
  have held : core.backend.references pfn ≠ 0 := by
    rw [hplaced.held pfn role hrole]
    decide
  exact ⟨idle.entries pfn held, idle.references pfn⟩

variable (hsince : Since old roles start core)
include hsince
/-- A failed allocation. -/
theorem Since.idle (idle : Idle core after) : Since old roles start after := by
  have agree := idle.agreeOn hsince.placed
  have hleaf : ∀ {slot leaf}, LeafAt after.space after.backend slot leaf ↔
    LeafAt core.space core.backend slot leaf := by
    intro slot leaf
    rw [idle.space]
    exact agree.leafAt hsince.placed
  have hrecorded : ∀ {pfn index}, Recorded after pfn index ↔ Recorded core pfn index := by
    intro pfn index
    unfold Recorded PageCell
    rw [idle.created, idle.mapped]
    simp only [hleaf]
  have htables : createdTables after = createdTables core := by
    unfold createdTables
    rw [idle.created]
  constructor
  · rw [idle.space]
    exact hsince.placed.of_agree agree
  · exact hsince.kept
  · rw [idle.space, hsince.root]
  · rw [idle.window, hsince.window]
  · rw [idle.space, htables, hsince.tables]
  · intro pfn
    rw [idle.references, htables, hsince.references]
  · rw [idle.created]
    exact hsince.created
  · rw [idle.mapped]
    simp only [hleaf]
    exact hsince.mapped
  · intro pfn role index hold hrecord
    exact hsince.empty hold (hrecorded.mp hrecord)
  · intro pfn role index hold hrecord
    rw [(agree pfn role (hsince.kept hold)).1]
    exact hsince.same hold fun hcore => hrecord (hrecorded.mpr hcore)
  · exact hsince.supervisor.trans
      ((SupervisorSame.of_agree hsince.placed agree).of_root hsince.root.symm)

/-- A new table is linked where nothing was. -/
theorem Since.grown (hgrown : Grown core after parent index child)
  (hparent : roles parent = some role) (hchild : role.child index = some next)
  (huser : role.UserCell index) (hidx : index < tableEntries)
  (hzero : core.backend.entries parent index = 0#64) :
  Since old (update roles child (some next)) start after := by
  have hplaced := hsince.placed
  have hrole : ∀ {pfn place}, roles pfn = some place →
    update roles child (some next) pfn = some place := by
    intro pfn place hpfn
    rwa [update_of_ne (hplaced.child_ne hgrown hpfn)]
  have hleaf : ∀ {slot leaf}, LeafAt core.space core.backend slot leaf →
    LeafAt after.space after.backend slot leaf := fun hleaf =>
    (hleaf.grown hplaced hgrown hzero).of_root hgrown.root
  have hrecorded : ∀ {pfn index}, Recorded core pfn index → Recorded after pfn index := by
    rintro pfn pos (⟨created, hmem⟩ | ⟨vaddr, hvaddr, hmapped, rfl⟩)
    · refine .inl ⟨created, ?_⟩
      rw [hgrown.created]
      exact mem_append_left _ hmem
    · exact .inr ⟨vaddr, hgrown.mapped ▸ hvaddr, hleaf hmapped, rfl⟩
  have htables : createdTables after = createdTables core ++ [child] := by
    unfold createdTables
    rw [hgrown.created, map_append]
    rfl
  constructor
  · exact (hplaced.grown hparent hgrown hchild).of_root hgrown.root
  · exact fun hold => hrole (hsince.kept hold)
  · rw [hgrown.root, hsince.root]
  · rw [hgrown.window, hsince.window]
  · rw [hgrown.tables, htables, hsince.tables, append_assoc]
  · intro pfn
    rw [hgrown.references, htables, count_append, hsince.references, count_singleton, Nat.add_assoc]
    by_cases hsame : pfn = child
    · simp [indicator, hsame]
    · simp [indicator, hsame, Ne.symm hsame]
  · rw [hgrown.created]
    intro entry hentry
    rcases mem_append.mp hentry with hearlier | hlast
    · obtain ⟨hlt, place, hplace⟩ := hsince.created entry hearlier
      exact ⟨hlt, place, hrole hplace⟩
    · cases mem_singleton.mp hlast
      exact ⟨hidx, role, hrole hparent⟩
  · intro vaddr hvaddr
    rw [hgrown.mapped] at hvaddr
    obtain ⟨haddress, leaf, hfound⟩ := hsince.mapped vaddr hvaddr
    exact ⟨haddress, leaf, hleaf hfound⟩
  · intro pfn place pos hold hrec
    by_cases hcore : Recorded core pfn pos
    · exact hsince.empty hold hcore
    · -- The only new rec is the link.
      rw [← hsince.same hold hcore]
      rcases hrec with ⟨created, hmem⟩ | ⟨vaddr, hvaddr, hfound, rfl⟩
      · rw [hgrown.created] at hmem
        rcases mem_append.mp hmem with hearlier | hlast
        · exact absurd (.inl ⟨created, hearlier⟩) hcore
        · cases mem_singleton.mp hlast
          exact hzero
      · rw [hgrown.mapped] at hvaddr
        obtain ⟨haddress, leaf, hearlier⟩ := hsince.mapped vaddr hvaddr
        cases (hleaf hearlier).unique hfound
        exact absurd (.inr ⟨vaddr, hvaddr, hearlier, rfl⟩) hcore
  · intro pfn place pos hold hrec
    rw [← hsince.same hold fun hcore => hrec (hrecorded hcore)]
    by_cases htable : pfn = parent
    · subst htable
      refine hgrown.beside ?_
      rintro rfl
      refine hrec (.inl ⟨child, ?_⟩)
      rw [hgrown.created]
      exact mem_append_right _ (mem_singleton.mpr rfl)
    · rw [hgrown.elsewhere pfn htable (hplaced.child_ne hgrown (hsince.kept hold))]
  · exact hsince.supervisor.trans
      ((SupervisorSame.grown hplaced hparent hgrown hchild hzero huser).of_root hsince.root.symm)

/-- A page is written to its leaf, where nothing was, and recorded. -/
theorem Since.record (huser : UserAddress vaddr)
  (hleaf : LeafAt core.space core.backend (slotOf vaddr) leaf)
  (hzero : core.backend.entries leaf (vaddr / pageSize % tableEntries) = 0#64) (descriptor) :
  Since old roles start (recorded core leaf vaddr descriptor) := by
  have hplaced := hsince.placed
  have hrole := hleaf.role hplaced (slotOf_lt huser.2)
  have leaves : ∀ {slot found},
    LeafAt core.space (recorded core leaf vaddr descriptor).backend slot found ↔
      LeafAt core.space core.backend slot found := hplaced.leafAt_writeLeaf hrole
  constructor
  · exact hplaced.writeLeaf hrole
  · exact hsince.kept
  · exact hsince.root
  · exact hsince.window
  · exact hsince.tables
  · exact hsince.references
  · exact hsince.created
  · intro other hother
    change other ∈ core.mapped ++ [vaddr] at hother
    rcases mem_append.mp hother with hearlier | hlast
    · obtain ⟨haddress, found, hfound⟩ := hsince.mapped other hearlier
      exact ⟨haddress, found, leaves.mpr hfound⟩
    · cases mem_singleton.mp hlast
      exact ⟨huser, leaf, leaves.mpr hleaf⟩
  · intro pfn place position hold hrecord
    by_cases hcore : Recorded core pfn position
    · exact hsince.empty hold hcore
    rw [← hsince.same hold hcore]
    rcases hrecord with created | ⟨other, hother, hfound, rfl⟩
    · exact absurd (.inl created) hcore
    rcases mem_append.mp hother with hearlier | hlast
    · exact absurd (.inr ⟨other, hearlier, leaves.mp hfound, rfl⟩) hcore
    cases mem_singleton.mp hlast
    cases (leaves.mp hfound).unique hleaf
    exact hzero
  · intro pfn place position hold hrecord
    have hcore : ¬ Recorded core pfn position := by
      rintro (created | ⟨other, hother, hfound, rfl⟩)
      · exact hrecord (.inl created)
      · exact hrecord (.inr ⟨other, mem_append_left _ hother, leaves.mpr hfound, rfl⟩)
    rw [← hsince.same hold hcore]
    by_cases hsame : pfn = leaf
    · subst hsame
      refine setEntry_self_of_ne _ _ _ _ ?_
      rintro rfl
      exact hrecord (.inr ⟨vaddr, mem_append_right _ (mem_singleton.mpr rfl),
        leaves.mpr hleaf, rfl⟩)
    · exact congrFun (setEntry_other hsame) position
  · exact hsince.supervisor.trans
      ((SupervisorSame.writeLeaf hplaced hrole).of_root hsince.root.symm)

end

/-! ## Undoing the records -/

open PageTable.Core

/-- The named entries were cleared, and no other one changed. -/
structure Zeroed (named : Nat → Nat → Prop) (before after : TableBackend) : Prop where
  window : after.window = before.window
  cleared : ∀ {pfn index}, named pfn index → after.entries pfn index = 0#64
  kept : ∀ {pfn index}, ¬ named pfn index → after.entries pfn index = before.entries pfn index

variable {named whole : Nat → Nat → Prop} {tables : List Nat}
/-- Clear one entry first, then the others. -/
theorem Zeroed.cons {before after} (rest : Zeroed named (before.setEntry parent index 0#64) after)
  (hwhole : ∀ {pfn pos}, whole pfn pos ↔
    pfn = parent ∧ pos = index ∨ named pfn pos) : Zeroed whole before after := by
  refine ⟨rest.window, fun {pfn pos} hnamed => ?_, fun {pfn pos} hnamed => ?_⟩
  · by_cases later : named pfn pos
    · exact rest.cleared later
    rcases hwhole.mp hnamed with ⟨rfl, rfl⟩ | hother
    · rw [rest.kept later, setEntry_self]
    · exact absurd hother later
  · rw [rest.kept fun later => hnamed (hwhole.mpr (.inr later))]
    by_cases hsame : pfn = parent
    · subst hsame
      refine setEntry_self_of_ne _ _ _ _ ?_
      rintro rfl
      exact hnamed (hwhole.mpr (.inl ⟨rfl, rfl⟩))
    · rw [setEntry_other hsame]

theorem unmapRecorded_eq (hplaced : Placed roles core.space core.backend)
  (huser : UserAddress vaddr) (hleaf : LeafAt core.space core.backend (slotOf vaddr) leaf) :
  core.unmapRecorded vaddr =
    core.withBackend (core.backend.setEntry leaf (vaddr / pageSize % tableEntries) 0#64) := by
  have window := hplaced.window (hleaf.role hplaced (slotOf_lt huser.2))
  unfold unmapRecorded
  rw [hleaf.location hplaced huser.2]
  dsimp only
  unfold tryWrite
  rw [writeEntry_eq _ window (index_lt _)]

theorem foldl_unmapRecorded (vaddrs) (hplaced : Placed roles core.space core.backend)
  (hmapped : ∀ vaddr ∈ vaddrs, UserAddress vaddr ∧
    ∃ leaf, LeafAt core.space core.backend (slotOf vaddr) leaf) :
  ∃ backend, vaddrs.foldl unmapRecorded core = core.withBackend backend ∧
    backend.references = core.backend.references ∧
    Zeroed (PageCell core.space core.backend vaddrs) core.backend backend := by
  induction vaddrs generalizing core with
  | nil =>
    refine ⟨core.backend, rfl, rfl, rfl, ?_, fun _ => rfl⟩
    rintro pfn idx ⟨vaddr, hvaddr, -⟩
    cases hvaddr
  | cons vaddr rest ih =>
    obtain ⟨huser, leaf, hleaf⟩ := hmapped vaddr mem_cons_self
    have hrole := hleaf.role hplaced (slotOf_lt huser.2)
    rw [foldl_cons, unmapRecorded_eq hplaced huser hleaf]
    have leaves : ∀ {slot found}, LeafAt core.space
      (core.backend.setEntry leaf (vaddr / pageSize % tableEntries) 0#64) slot found ↔
        LeafAt core.space core.backend slot found := hplaced.leafAt_writeLeaf hrole
    have hrest : ∀ other ∈ rest, UserAddress other ∧ ∃ found, LeafAt core.space
      (core.backend.setEntry leaf (vaddr / pageSize % tableEntries) 0#64) (slotOf other)
      found := by
      intro other hother
      obtain ⟨haddress, found, hfound⟩ := hmapped other (mem_cons_of_mem _ hother)
      exact ⟨haddress, found, leaves.mpr hfound⟩
    let cleared :=
      core.withBackend (core.backend.setEntry leaf (vaddr / pageSize % tableEntries) 0#64)
    have hcleared : Placed roles cleared.space cleared.backend := hplaced.writeLeaf hrole
    obtain ⟨backend, fold, references, zeroed⟩ := ih hcleared hrest
    refine ⟨backend, fold, references, zeroed.cons fun {pfn pos} => ?_⟩
    constructor
    · rintro ⟨other, hother, hfound, rfl⟩
      rcases mem_cons.mp hother with rfl | later
      · exact .inl ⟨hfound.unique hleaf, rfl⟩
      · exact .inr ⟨other, later, leaves.mpr hfound, rfl⟩
    · rintro (⟨rfl, rfl⟩ | ⟨other, hother, hfound, rfl⟩)
      · exact ⟨vaddr, mem_cons_self, hleaf, rfl⟩
      · exact ⟨other, mem_cons_of_mem _ hother, leaves.mp hfound, rfl⟩

theorem unlinkCreated_eq (hparent : core.backend.window.Has parent) (hidx : index < tableEntries)
  (htables : core.space.tablePfns = tables ++ [child]) :
  core.unlinkCreated (parent, index, child) = (core.withTables tables).withBackend
    ((core.backend.setEntry parent index 0#64).releaseTable child) := by
  unfold unlinkCreated tryWrite
  dsimp only
  rw [writeEntry_eq _ hparent hidx]
  dsimp only
  have hlast : (core.withBackend (core.backend.setEntry parent index 0#64)).space.tablePfns.getLast? =
    some child := by
    change core.space.tablePfns.getLast? = _
    rw [htables, getLast?_concat]
  rw [if_pos hlast]
  have rest : (core.withBackend (core.backend.setEntry parent index 0#64)).space.tablePfns.dropLast =
    tables := by
    change core.space.tablePfns.dropLast = _
    rw [htables, dropLast_concat]
  rw [rest]
  rfl

theorem foldl_unlinkCreated (created)
  (hcreated : ∀ entry ∈ created, core.backend.window.Has entry.1 ∧ entry.2.1 < tableEntries)
  (htables : core.space.tablePfns = tables ++ created.map fun entry => entry.2.2) :
  ∃ backend, created.reverse.foldl unlinkCreated core =
    (core.withTables tables).withBackend backend ∧
    (∀ pfn, backend.references pfn =
      core.backend.references pfn - (created.map fun entry => entry.2.2).count pfn) ∧
    Zeroed (LinkCell created) core.backend backend := by
  induction created using reverseRecOn generalizing core with
  | nil =>
    rw [map_nil, append_nil] at htables
    refine ⟨core.backend, ?_, fun _ => rfl, rfl, ?_, fun _ => rfl⟩
    · rw [← htables]
      rfl
    · rintro pfn idx ⟨child, hchild⟩
      cases hchild
  | append_singleton earlier entry ih =>
    obtain ⟨parent, idx, child⟩ := entry
    obtain ⟨hparent, hidx⟩ := hcreated _ (mem_append_right _ mem_cons_self)
    rw [map_append, map_singleton, ← append_assoc] at htables
    rw [reverse_append, reverse_singleton, singleton_append, foldl_cons,
      unlinkCreated_eq hparent hidx htables]
    let unlinked := (core.withTables (tables ++ earlier.map fun entry => entry.2.2)).withBackend
      ((core.backend.setEntry parent idx 0#64).releaseTable child)
    have hearlier : ∀ entry ∈ earlier,
      unlinked.backend.window.Has entry.1 ∧ entry.2.1 < tableEntries :=
      fun entry hentry => hcreated entry (mem_append_left _ hentry)
    obtain ⟨backend, fold, references, zeroed⟩ := ih hearlier rfl
    refine ⟨backend, fold, fun pfn => ?_, ?_⟩
    · rw [references pfn, map_append, count_append, map_singleton, count_singleton]
      change ((core.backend.setEntry parent idx 0#64).releaseTable child).references pfn - _ = _
      rw [releaseTable_references, setEntry_references]
      by_cases hsame : pfn = child
      · simp only [hsame, if_true, beq_self_eq_true]
        omega
      · simp [hsame, Ne.symm hsame]
    · have rest : Zeroed (LinkCell earlier) (core.backend.setEntry parent idx 0#64) backend :=
        ⟨zeroed.window, zeroed.cleared, zeroed.kept⟩
      refine rest.cons fun {pfn pos} => ?_
      constructor
      · rintro ⟨found, hfound⟩
        rcases mem_append.mp hfound with hearlier | hlast
        · exact .inr ⟨found, hearlier⟩
        · cases mem_singleton.mp hlast
          exact .inl ⟨rfl, rfl⟩
      · rintro (⟨rfl, rfl⟩ | ⟨found, hfound⟩)
        · exact ⟨child, mem_append_right _ (mem_singleton.mpr rfl)⟩
        · exact ⟨found, mem_append_left _ hfound⟩

/-- The space is as it was, and so is every table of it. -/
structure Restored (old : Nat → Option Role) (start after : Core) : Prop where
  space : after.space = start.space
  window : after.backend.window = start.backend.window
  references : ∀ pfn, after.backend.references pfn = start.backend.references pfn
  entries : ∀ {pfn role}, old pfn = some role →
    after.backend.entries pfn = start.backend.entries pfn

theorem Since.rollback (hsince : Since old roles start core) :
  Restored old start (rollbackMappingTransaction core) := by
  obtain ⟨cleared, hclear, refs, pages⟩ := foldl_unmapRecorded core.mapped.reverse
    hsince.placed fun vaddr hvaddr => hsince.mapped vaddr (mem_reverse.mp hvaddr)
  have created : ∀ entry ∈ core.created,
    (core.withBackend cleared).backend.window.Has entry.1 ∧ entry.2.1 < tableEntries := by
    intro entry hentry
    obtain ⟨hlt, role, hrole⟩ := hsince.created entry hentry
    refine ⟨?_, hlt⟩
    change cleared.window.Has entry.1
    rw [pages.window]
    exact hsince.placed.window hrole
  obtain ⟨backend, unlink, counts, links⟩ := foldl_unlinkCreated core.created created hsince.tables
  have rollback : rollbackMappingTransaction core =
    ((core.withBackend cleared).withTables start.space.tablePfns).withBackend backend := by
    unfold rollbackMappingTransaction
    dsimp only
    rw [hclear, unlink]
  rw [rollback]
  constructor
  · change .mk core.space.rootPfn start.space.tablePfns = start.space
    rw [hsince.root]
  · exact (links.window.trans pages.window).trans hsince.window
  · intro pfn
    change backend.references pfn = _
    rw [counts pfn]
    change cleared.references pfn - _ = _
    rw [refs, hsince.references pfn]
    exact Nat.add_sub_cancel _ _
  · intro pfn role hold
    funext idx
    change backend.entries pfn idx = _
    by_cases hlink : LinkCell core.created pfn idx
    · rw [links.cleared hlink, hsince.empty hold (.inl hlink)]
    rw [links.kept hlink]
    change cleared.entries pfn idx = _
    by_cases page : PageCell core.space core.backend core.mapped.reverse pfn idx
    · obtain ⟨vaddr, hvaddr, hleaf, rfl⟩ := page
      rw [pages.cleared ⟨vaddr, hvaddr, hleaf, rfl⟩,
        hsince.empty hold (.inr ⟨vaddr, mem_reverse.mp hvaddr, hleaf, rfl⟩)]
    rw [pages.kept page]
    refine hsince.same hold ?_
    rintro (created | ⟨vaddr, hvaddr, hleaf, rfl⟩)
    · exact hlink created
    · exact page ⟨vaddr, mem_reverse.mpr hvaddr, hleaf, rfl⟩

end Smros.PageTable
