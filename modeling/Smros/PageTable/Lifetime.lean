import Smros.PageTable.MapCalls

/-!
# Creating, cloning and dropping spaces

What `new`, `clone_shared_mappings_from` and `Drop` do to a family of spaces that
satisfies the sharing invariant.
-/

namespace Smros.PageTable
open Lib Lib.Program List Function TableBackend AddressSpace
variable {backend after : TableBackend} {spaces : List AddressSpace}

/-! ## New spaces -/

variable {root : Nat} (rest : List Nat)
theorem take_agree (hinv : Inv backend spaces) (free) :
  Agree backend (backend.take root rest free) spaces := by
  intro pfn parents
  refine update_of_ne ?_ ..
  rintro rfl
  exact parents (hinv.parents_of_free free.1)

theorem take_references (free pfn) : (backend.take root rest free).references pfn =
    backend.references pfn + indicator (pfn = root) := by
  change update backend.references root 1 pfn = _
  by_cases same : pfn = root
  · subst same
    simp [indicator, free.1]
  · simp [indicator, same]

theorem take_entries (free idx) : (backend.take root rest free).entries root idx = 0#64 := by
  simp [TableBackend.take]

theorem take_levelOne (free tablePfns) :
  (⟨root, tablePfns⟩ : AddressSpace).levelOne (backend.take root rest free) = none := by
  unfold levelOne
  rw [take_entries, pointer_zero]

/-- A new space holds its root and nothing else. -/
theorem Inv.new (hinv : Inv backend spaces) (free) :
  Inv (backend.take root rest free) (⟨root, [root]⟩ :: spaces) := by
  have agree := take_agree rest hinv free
  have level := take_levelOne rest free [root]
  have hparents : ∀ pfn, parents (backend.take root rest free) (⟨root, [root]⟩ :: spaces) pfn =
    indicator (pfn = root) + parents backend spaces pfn := by
    intro pfn
    rw [parents_cons_none level, agree.upper.parents_eq]
  refine ⟨?_, ?_, ?_, ?_⟩
  · intro pfn
    rw [take_references, holders_cons, hinv.counted, count_singleton]
    by_cases same : pfn = root
    · simp [indicator, same, Nat.add_comm]
    · simp [indicator, same, Ne.symm same]
  · intro pfn
    have covered := hinv.covered pfn
    rw [hparents, take_references]
    omega
  · rw [levelOnes_cons_none level, agree.upper.levelOnes_eq]
    intro table htable other hother
    rw [agree.upper.children hother]
    exact hinv.apart table htable other hother
  intro space hspace
  rcases mem_cons.mp hspace with rfl | hspace
  · refine ⟨?_, ?_, ?_, ?_, ?_, ?_⟩
    · rw [take_references, free.1]
      simp [indicator]
    · exact fun idx _ _ => take_entries rest free idx
    · exact .inl (take_entries rest free 0)
    · intro table htable
      cases level.symm.trans htable
    · intro table htable
      cases level.symm.trans htable
    · intro table htable
      cases level.symm.trans htable
  · refine (hinv.spaceOk space hspace).of_agree agree.upper hspace ?_
    rw [take_references]
    have hne : space.rootPfn ≠ root := root_ne_of_no_parents (hinv.parents_of_free free.1) hspace
    simp [indicator, hne]

theorem new_view (free) : (⟨root, [root]⟩ : AddressSpace).view (backend.take root rest free) =
    encodePages fun _ => none := by
  refine (view_eq_zero ?_).trans rfl
  intro table htable
  cases (take_levelOne rest free [root]).symm.trans htable

theorem new_ok (offer : Core.OfferFree backend) : ∃ root rest, ∃ free : backend.Free root,
    AddressSpace.new backend = (.ok ⟨root, [root]⟩, backend.take root rest free) := by
  obtain ⟨root, rest, hoffers, free⟩ := offer
  refine ⟨root, rest, free, ?_⟩
  unfold AddressSpace.new allocateTable
  rw [hoffers]
  simp [free]

/-! ## Sharing the level-one table of a parent -/

/-- `child` gets the level-one table `table` of another space. -/
structure Shares (backend after : TableBackend) (child : AddressSpace) (table : Nat)
  (link : Descriptor) : Prop where
  pointer : pointer link = some table
  isLink : IsLink link
  entry : after.entries child.rootPfn = Function.update (backend.entries child.rootPfn) 0 link
  elsewhere : ∀ pfn, pfn ≠ child.rootPfn → after.entries pfn = backend.entries pfn
  references : ∀ pfn, after.references pfn = backend.references pfn + indicator (pfn = table)

variable {others : List AddressSpace}
section
variable {child : AddressSpace} {table : Nat} {link : Descriptor}
  (hinv : Inv backend (child :: others)) (level : child.levelOne backend = none)
  (shared : table ∈ levelOnes backend others) (hstep : Shares backend after child table link)
include hstep
theorem Shares.levelOne (tablePfns) :
  (⟨child.rootPfn, tablePfns⟩ : AddressSpace).levelOne after = some table := by
  unfold AddressSpace.levelOne
  rw [hstep.entry, update_self, hstep.pointer]

include hinv
theorem Shares.agree : Agree backend after others := by
  intro pfn parents
  refine hstep.elsewhere pfn ?_
  rintro rfl
  exact parents hinv.parents_others_root

/-- The child shows what the parent shows. -/
theorem Shares.view_eq {parent} (hparent : parent ∈ others)
  (parentLevel : parent.levelOne backend = some table) :
  (⟨child.rootPfn, child.tablePfns ++ [table]⟩ : AddressSpace).view after =
    parent.view backend := by
  have agree := hstep.agree hinv
  rw [← agree.view_eq hparent]
  unfold view
  rw [hstep.levelOne, agree.upper.levelOne hparent, parentLevel]

include level shared
theorem Shares.inv : Inv after (⟨child.rootPfn, child.tablePfns ++ [table]⟩ :: others) := by
  have agree := hstep.agree hinv
  have hnew := hstep.levelOne (child.tablePfns ++ [table])
  have sharedAfter : table ∈ levelOnes after others := by rwa [agree.upper.levelOnes_eq]
  have hmem : table ∈ levelOnes backend (child :: others) := by rwa [levelOnes_cons_none level]
  have roots : ∀ other ∈ child :: others,
    after.references other.rootPfn = backend.references other.rootPfn := by
    intro other hother
    rw [hstep.references]
    simp [indicator, hinv.root_ne_levelOne hmem hother]
  have hparents : ∀ pfn, parents after (⟨child.rootPfn, child.tablePfns ++ [table]⟩ :: others) pfn =
        parents backend (child :: others) pfn + indicator (pfn = table) := by
    intro pfn
    rw [parents_cons_shared hnew sharedAfter, parents_cons_none level, agree.upper.parents_eq]
    dsimp only
    omega
  refine hinv.of_focus agree.upper ?_ ?_ ?_ ?_ ?_
  · exact fun other hother => roots other (mem_cons_of_mem _ hother)
  · intro pfn
    have counted := hinv.counted pfn
    rw [holders_cons] at counted ⊢
    rw [hstep.references, counted, count_append, count_singleton]
    by_cases same : pfn = table
    · simp only [indicator, same, beq_self_eq_true, if_true]
      omega
    · simp [indicator, same, Ne.symm same]
  · intro pfn
    have covered := hinv.covered pfn
    rw [hparents, hstep.references]
    omega
  · rw [levelOnes_cons_some hnew, agree.upper.levelOnes_eq]
    have hothers : ∀ found ∈ table :: levelOnes backend others,
      found ∈ levelOnes backend others := by
      intro found hfound
      rcases mem_cons.mp hfound with rfl | hfound
      · exact shared
      · exact hfound
    intro left hleft right hright
    rw [agree.upper.children (hothers right hright)]
    refine hinv.apart left ?_ right ?_
    · rw [levelOnes_cons_none level]
      exact hothers left hleft
    · rw [levelOnes_cons_none level]
      exact hothers right hright
  · obtain ⟨parent, hparent, parentLevel⟩ := mem_filterMap.mp shared
    have hok := hinv.spaceOk child mem_cons_self
    have parentOk := hinv.spaceOk parent (mem_cons_of_mem _ hparent)
    have entries : after.entries table = backend.entries table := agree.upper _ (.inr shared)
    refine ⟨?_, ?_, ?_, ?_, ?_, ?_⟩
    · rw [roots child mem_cons_self]
      exact hok.rootPrivate
    · intro idx hidx hne
      rw [hstep.entry, update_of_ne hne]
      exact hok.rootEntries idx hidx hne
    · rw [hstep.entry, update_self]
      exact hstep.isLink
    · intro found hfound
      obtain rfl := Option.some.inj (hnew.symm.trans hfound)
      rw [entries]
      exact parentOk.levelOneLinks table parentLevel
    · intro found hfound
      obtain rfl := Option.some.inj (hnew.symm.trans hfound)
      rw [children_congr entries]
      exact parentOk.distinct table parentLevel
    · intro found hfound
      obtain rfl := Option.some.inj (hnew.symm.trans hfound)
      simp

end

namespace Core
variable {core : Core} {parent : AddressSpace}
/-- Empty root entries are skipped. -/
theorem cloneRootEntries_ends_empty (indices) (window : core.backend.window.Has parent.rootPfn)
  (empty : ∀ index ∈ indices, index < tableEntries ∧
    core.backend.entries parent.rootPfn index = 0#64) :
  Ends (cloneRootEntries parent indices) core (fun _ next => next = core) (fun _ _ => False) := by
  induction indices with
  | nil => exact ends_pure.mpr rfl
  | cons index rest ih =>
    obtain ⟨hidx, zero⟩ := empty index mem_cons_self
    unfold cloneRootEntries
    rw [ends_readEntry_bind window hidx, ends_get_bind, if_pos zero]
    exact ih fun other hother => empty other (mem_cons_of_mem _ hother)

theorem range_tableEntries : range tableEntries = 0 :: (range (tableEntries - 1)).map Nat.succ :=
  range_succ_eq_map

theorem truncateTables_self (core) : truncateTables core.space.tablePfns.length core = core := by
  unfold truncateTables
  rw [take_length, drop_length]
  rfl

variable (hinv : Inv core.backend (core.space :: others)) (level : core.levelOne = none)
  (hparent : parent ∈ others)
include hinv hparent
/-- The root entries after the first one are empty. -/
theorem cloneRootEntries_ends_rest {next} (window : next.backend.window = core.backend.window)
  (entries : next.backend.entries parent.rootPfn = core.backend.entries parent.rootPfn) :
  Ends (cloneRootEntries parent ((range (tableEntries - 1)).map Nat.succ)) next
    (fun _ final => final = next) (fun _ _ => False) := by
  have hmem := mem_cons_of_mem core.space hparent
  refine cloneRootEntries_ends_empty _ ?_ fun idx hidx => ?_
  · rw [window]
    exact hinv.window_root hmem
  obtain ⟨slot, hslot, rfl⟩ := mem_map.mp hidx
  have hlt : slot.succ < tableEntries := by
    have hrange := mem_range.mp hslot
    omega
  rw [entries]
  exact ⟨hlt, (hinv.spaceOk parent hmem).rootEntries _ hlt (Nat.succ_ne_zero slot)⟩

include level
/-- The state after the level-one table of the parent was retained and linked. -/
theorem shares_keeps {table retained} (hretained : Retained core.backend retained table)
  (parentLevel : parent.levelOne core.backend = some table) :
  Keeps core.backend others (parent.view core.backend)
    (((core.withBackend retained).pushTable table).withBackend
      (retained.setEntry core.space.rootPfn 0 (core.backend.entries parent.rootPfn 0))) := by
  have hmem := mem_cons_of_mem core.space hparent
  have hstep : Shares core.backend
    (retained.setEntry core.space.rootPfn 0 (core.backend.entries parent.rootPfn 0)) core.space
    table (core.backend.entries parent.rootPfn 0) := by
    refine ⟨parentLevel, (hinv.spaceOk parent hmem).rootLink, ?_, ?_, ?_⟩
    · rw [← hretained.entries]
      simp [setEntry]
    · intro pfn hpfn
      rw [← hretained.entries]
      exact retained.setEntry_of_ne _ 0 _ hpfn
    intro pfn
    rw [setEntry_references, hretained.references]
    by_cases same : pfn = table
    · simp [indicator, same]
    · simp [indicator, same]
  exact ⟨hstep.inv hinv level (mem_levelOnes hparent parentLevel), hstep.agree hinv,
    hretained.window, hstep.view_eq hinv hparent parentLevel⟩

/-- Nothing has changed, and the level-one table of the parent has no reference left to give. -/
def CloneRefused (parent : AddressSpace) (core : Core) (error : AddressSpaceCoreError) (next : Core) :
  Prop :=
  next = core ∧ error = .outOfMemory ∧ ∃ table, parent.levelOne core.backend = some table ∧
    core.backend.references table = maxTableReferences

theorem cloneShared_ends : Ends (cloneSharedMappingsFrom parent) core
    (fun _ next => Keeps core.backend others (parent.view core.backend) next)
    (CloneRefused parent core) := by
  have hmem := mem_cons_of_mem core.space hparent
  have hok := hinv.spaceOk parent hmem
  have roots : parent.rootPfn ≠ core.space.rootPfn :=
    root_ne_of_no_parents hinv.parents_others_root hparent
  have hloop : Ends (cloneRootEntries parent (range tableEntries)) core
    (fun _ next => Keeps core.backend others (parent.view core.backend) next)
    (CloneRefused parent core) := by
    rw [range_tableEntries]
    unfold cloneRootEntries
    rw [ends_readEntry_bind (hinv.window_root hmem) (by decide), ends_get_bind]
    rcases link_cases hok.rootLink with ⟨zero, hnone⟩ | ⟨hne, valid, parentLevel⟩
    · rw [if_pos zero]
      refine (cloneRootEntries_ends_rest hinv hparent rfl rfl).mono ?_
        fun _ _ hfalse => hfalse.elim
      intro _ next hnext
      rw [hnext]
      have view : core.space.view core.backend = parent.view core.backend := by
        rw [view_eq_zero, view_eq_zero]
        · intro table htable
          cases hnone.symm.trans htable
        · intro table htable
          cases level.symm.trans htable
      exact ⟨hinv, .refl _ _, rfl, view⟩
    · rw [if_neg hne, valid]
      generalize htable : descriptorPfn (core.backend.entries parent.rootPfn 0) = table
        at parentLevel ⊢
      have retain : Ends (retainTable table) core
        (fun _ next => ∃ retained, Retained core.backend retained table ∧
          next = core.withBackend retained)
        (CloneRefused parent core) := by
        refine retainTable_ends (fun backend hretained => ⟨backend, hretained, rfl⟩) ?_
        rintro (zero | hmax)
        · exact absurd zero (hinv.held_levelOne hmem parentLevel).ne'
        · exact ⟨rfl, rfl, table, parentLevel, hmax⟩
      refine .bind retain ?_
      rintro _ _ ⟨retained, hretained, rfl⟩
      have rootWindow :
        ((core.withBackend retained).pushTable table).backend.window.Has core.space.rootPfn := by
        change retained.window.Has core.space.rootPfn
        rw [hretained.window]
        exact hinv.window_root mem_cons_self
      rw [ends_modify_bind, ends_writeEntry_bind rootWindow (by decide)]
      refine (cloneRootEntries_ends_rest hinv hparent ?_ ?_).mono ?_
        fun _ _ hfalse => hfalse.elim
      · exact hretained.window
      · refine .trans ?_ (congrFun hretained.entries parent.rootPfn)
        exact retained.setEntry_of_ne _ 0 _ roots
      · rintro _ _ rfl
        exact shares_keeps hinv level hparent hretained parentLevel
  unfold cloneSharedMappingsFrom
  rw [ends_get_bind]
  refine hloop.onError ?_
  rintro error next ⟨rfl, reason⟩
  exact ⟨truncateTables_self next, reason⟩

end Core

/-! ## Dropping a space -/

variable {space : AddressSpace}
/-- Dropping a space is sound when the others hold what they reach. -/
theorem Inv.drop (hinv : Inv backend (space :: others))
  (covered : ∀ pfn, parents backend others pfn ≤ holders others pfn) :
  Inv (space.drop backend) others := by
  have refs : ∀ pfn, (space.drop backend).references pfn = holders others pfn := by
    intro pfn
    have counted := hinv.counted pfn
    rw [holders_cons] at counted
    unfold AddressSpace.drop
    rw [releaseAll_references, counted]
    omega
  have entries : (space.drop backend).entries = backend.entries := releaseAll_entries ..
  have agree : AgreeUpper backend (space.drop backend) others := fun pfn _ => by rw [entries]
  have hmem : ∀ table ∈ levelOnes backend others, table ∈ levelOnes backend (space :: others) := by
    intro table htable
    obtain ⟨other, hother, level⟩ := mem_filterMap.mp htable
    exact mem_levelOnes (mem_cons_of_mem _ hother) level
  refine ⟨refs, ?_, ?_, ?_⟩
  · intro pfn
    rw [agree.parents_eq, refs]
    exact covered pfn
  · intro table htable other hother
    rw [agree.levelOnes_eq] at htable hother
    rw [agree.children hother]
    exact hinv.apart table (hmem table htable) other (hmem other hother)
  intro other hother
  have hok := hinv.spaceOk other (mem_cons_of_mem _ hother)
  refine hok.of_agree agree hother ?_
  -- the root of a remaining space has one holder, and that is the space itself
  have counted := hinv.counted other.rootPfn
  have hone := hok.rootPrivate
  have hpos : 0 < parents backend others other.rootPfn := parents_pos_of_root hother
  have hle := covered other.rootPfn
  rw [holders_cons] at counted
  rw [refs]
  omega

end Smros.PageTable
