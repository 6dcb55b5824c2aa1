import Mathlib.Data.List.Induction
import Smros.PageTable.LeafAccess

/-!
# Undoing a mapping call

`rollback_mapping_transaction` clears the pages a failed call had mapped and unlinks
the tables it had created, last one first.  It takes a created table out of the held
list only from the end, so it is right as long as no table was detached after
the first one was created.
-/

namespace Smros.PageTable
open Lib Lib.Program List Function TableBackend
namespace Core

/-! ## Created tables -/

/-- The undo list of a call that created `leaves` as slot and table, and before them
the level-one table if `top`. -/
def createdList (root table : Nat) (top : Bool) (leaves : List (Nat × Nat)) :
  List (Nat × Nat × Nat) :=
  (if top then [(root, 0, table)] else []) ++ leaves.map fun leaf => (table, leaf)

open Prod (snd fst)

/-- The created tables are still linked where they were, private, and last in the held
list; a created level-one table has no other leaves. -/
structure Linked (core : Core) (table : Nat) (top : Bool) (leaves : List (Nat × Nat)) :
  Prop where
  level : core.levelOne = some table
  isPrivate : core.backend.references table ≤ 1
  tables : ∃ kept, core.space.tablePfns = kept ++ (if top then [table] else []) ++ leaves.map snd
  slots : (leaves.map fst).Nodup
  link : ∀ leaf ∈ leaves, leaf.1 < tableEntries ∧
    pointer (core.backend.entries table leaf.1) = some leaf.2 ∧
    core.backend.references leaf.2 ≤ 1
  complete : top = true → ∀ slot < tableEntries,
    pointer (core.backend.entries table slot) ≠ none → slot ∈ leaves.map fst

/-- What undoing the call needs: nothing was created, or the created tables are as they
were and cover no page of `pages`. -/
def Undo (pages : PageMap) (core : Core) : Prop :=
  core.created = [] ∨
    ∃ table top leaves, core.created = createdList core.space.rootPfn table top leaves ∧
      Linked core table top leaves ∧
      ∀ slot ∈ leaves.map fst, ∀ page, page / tableEntries = slot → pages page = none

variable {leaves : List (Nat × Nat)} {leaf table pfn index parent child slot : Nat}
  {free : Prop} {base : TableBackend} {others : List AddressSpace} {pages : PageMap}
  {core : Core} {top : Bool}
theorem tryWrite_eq {descriptor} (hpfn : core.backend.window.Has pfn)
  (hidx : index < tableEntries) :
  core.tryWrite pfn index descriptor =
    core.withBackend (core.backend.setEntry pfn index descriptor) := by
  unfold tryWrite
  rw [writeEntry_eq _ hpfn hidx]

/-- The state after the last table of the held list was unlinked. -/
def unlinked (core : Core) (parent index child : Nat) (kept : List Nat) : Core :=
  ((core.withBackend (core.backend.setEntry parent index 0#64)).withTables kept).releaseTable child

theorem unlinkCreated_eq {kept} (hparent : core.backend.window.Has parent)
  (hidx : index < tableEntries) (tables : core.space.tablePfns = kept ++ [child]) :
  core.unlinkCreated (parent, index, child) = core.unlinked parent index child kept := by
  unfold unlinkCreated unlinked
  rw [tryWrite_eq hparent hidx]
  have last : (core.withBackend (core.backend.setEntry parent index 0#64)).space.tablePfns =
    kept ++ [child] := tables
  simp only [last, getLast?_append, getLast?_singleton, Option.some_or, if_true, dropLast_concat]

variable {kept : List Nat}
theorem unlinked_entry : (core.unlinked parent index child kept).backend.entries parent =
  update (core.backend.entries parent) index 0#64 := by
  change (core.backend.setEntry parent index 0#64).entries parent = _
  simp [setEntry]

theorem unlinked_entries_of_ne (hpfn : pfn ≠ parent) :
  (core.unlinked parent index child kept).backend.entries pfn = core.backend.entries pfn :=
  core.backend.setEntry_of_ne parent index _ hpfn

theorem unlinked_references (held : core.backend.references child ≠ 0) (pfn) :
  (core.unlinked parent index child kept).backend.references pfn + indicator (pfn = child) =
    core.backend.references pfn := by
  change ((core.backend.setEntry parent index 0#64).releaseTable child).references pfn + _ = _
  rw [releaseTable_references, setEntry_references]
  by_cases same : pfn = child
  · subst same
    simp only [indicator, if_true]
    omega
  · simp [indicator, same]

theorem unlinked_held (tables : core.space.tablePfns = kept ++ [child]) (pfn) :
  (core.unlinked parent index child kept).space.tablePfns.count pfn +
    indicator (pfn = child) = core.space.tablePfns.count pfn := by
  change kept.count pfn + _ = _
  rw [tables, count_append, count_singleton]
  by_cases same : pfn = child
  · simp [indicator, same]
  · simp [indicator, same, Ne.symm same]

/-- Unlinking the last created leaf, whose pages are not mapped. -/
theorem unlinkLeaf_spec (shows : Shows base others pages core)
  (linked : Linked core table top (leaves ++ [(slot, leaf)]))
  (empty : ∀ page, page / tableEntries = slot → pages page = none) :
  Shows base others pages (core.unlinkCreated (table, slot, leaf)) ∧
    (core.unlinkCreated (table, slot, leaf)).space.rootPfn = core.space.rootPfn ∧
    Linked (core.unlinkCreated (table, slot, leaf)) table top leaves := by
  obtain ⟨kept, tables⟩ := linked.tables
  obtain ⟨hslot, hleaf, -⟩ : slot < tableEntries ∧ pointer (core.backend.entries table slot) =
    some leaf ∧ core.backend.references leaf ≤ 1 := linked.link (slot, leaf) (by simp)
  have level : core.space.levelOne core.backend = some table := linked.level
  have window := shows.inv.window_levelOne mem_cons_self level
  rw [map_append, ← append_assoc] at tables
  rw [unlinkCreated_eq window hslot tables]
  have held : core.backend.references leaf ≠ 0 := by
    have held := shows.inv.held_child mem_cons_self level (mem_children.mpr ⟨slot, hslot, hleaf⟩)
    omega
  generalize hrest : kept ++ (if top then [table] else []) ++ leaves.map snd = rest at tables ⊢
  generalize hafter : core.unlinked table slot leaf rest = after
  have root : after.space.rootPfn = core.space.rootPfn := by rw [← hafter]; rfl
  have hstep : RelinksLeaf core.backend after.backend core.space table slot 0#64
    after.space.tablePfns := by
    rw [← hafter]
    refine ⟨hslot, .inl rfl, unlinked_entry, fun _ hpfn _ => unlinked_entries_of_ne hpfn, ?_,
      ?_, ?_⟩
    · intro child hchild
      simp at hchild
    · intro pfn
      rw [hleaf, indicator_some, pointer_zero, indicator_none, Nat.add_zero]
      exact unlinked_references held pfn
    · intro pfn
      rw [hleaf, indicator_some, pointer_zero, indicator_none, Nat.add_zero]
      exact unlinked_held tables pfn
  have levelAfter := levelOne_of_relinksLeaf shows.inv linked.level root hstep
  have hothers : ∀ other, other ≠ slot →
    after.backend.entries table other = core.backend.entries table other := by
    intro other hne
    rw [hstep.entry, update_of_ne hne]
  have hrow : ∀ index < tableEntries, after.backend.leafRow 0#64 index =
    core.backend.leafRow (core.backend.entries table slot) index := by
    intro index hindex
    have view := congrFun shows.view (pageOf slot index)
    unfold AddressSpace.view encodePages at view
    rw [level, empty _ (pageOf_div hindex)] at view
    dsimp only at view
    rw [pageOf_div hindex, pageOf_mod hindex, if_pos hslot] at view
    rw [view, leafRow_zero, encode_none]
  have nodup : (leaves.map fst).Nodup ∧ slot ∉ leaves.map fst := by
    have slots := linked.slots
    rw [map_append, nodup_append] at slots
    exact ⟨slots.1, fun hmem => slots.2.2 slot hmem slot (by simp) rfl⟩
  refine ⟨⟨?_, ?_, ?_, ?_⟩, root, levelAfter, ?_, ⟨kept, ?_⟩, nodup.1, ?_, ?_⟩
  · rw [space_eq_of_root root]
    exact hstep.inv shows.inv level linked.isPrivate
  · exact shows.agree.trans (hstep.agree shows.inv level linked.isPrivate)
  · rw [← hafter]
    exact shows.window
  · rw [space_eq_of_root root, hstep.view_eq shows.inv level hrow]
    exact shows.view
  · rw [hstep.references_table shows.inv level]
    exact linked.isPrivate
  · rw [hrest, ← hafter]
    rfl
  · intro other hother
    have hne : other.1 ≠ slot := fun same => nodup.2 (same ▸ mem_map_of_mem hother)
    obtain ⟨hlt, hpointer, single⟩ := linked.link other (mem_append_left _ hother)
    refine ⟨hlt, by rwa [hothers _ hne], ?_⟩
    rwa [(hstep.unmoved_slot shows.inv level hlt hne hpointer).1]
  · intro htop other hother present
    have hne : other ≠ slot := by
      rintro rfl
      rw [hstep.entry, update_self, pointer_zero] at present
      exact present rfl
    rw [hothers other hne] at present
    have hmem := linked.complete htop other hother present
    rw [map_append, mem_append] at hmem
    exact hmem.resolve_right fun last => hne (by simpa using last)

/-- Unlinking a created level-one table without leaves. -/
theorem unlinkTop_shows (shows : Shows base others pages core)
  (linked : Linked core table true []) :
  Shows base others pages (core.unlinkCreated (core.space.rootPfn, 0, table)) := by
  obtain ⟨kept, tables⟩ := linked.tables
  rw [if_pos rfl, map_nil, append_nil] at tables
  have level : core.space.levelOne core.backend = some table := linked.level
  have children : core.backend.children table = [] := by
    refine eq_nil_iff_forall_not_mem.mpr fun leaf hleaf => ?_
    obtain ⟨slot, hslot, pointer⟩ := mem_children.mp hleaf
    have hmem := linked.complete rfl slot hslot (by rw [pointer]; exact Option.some_ne_none leaf)
    cases hmem
  rw [unlinkCreated_eq (shows.inv.window_root mem_cons_self) (by decide) tables]
  generalize hafter : core.unlinked core.space.rootPfn 0 table kept = after
  have root : after.space.rootPfn = core.space.rootPfn := by rw [← hafter]; rfl
  have held := (shows.inv.held_levelOne mem_cons_self level).ne'
  have hstep : RelinksRoot core.backend after.backend core.space 0#64 [] after.space.tablePfns := by
    rw [← hafter]
    refine ⟨.inl rfl, unlinked_entry, fun _ hpfn _ => unlinked_entries_of_ne hpfn,
      fun _ => rfl, ?_, fun _ => rfl, ?_, ?_, ?_⟩
    · intro found hfound
      obtain rfl := Option.some.inj (level.symm.trans hfound)
      exact ⟨children.symm, .inr children⟩
    · intro found hfound
      simp at hfound
    · intro pfn
      rw [level, indicator_some, pointer_zero, indicator_none]
      exact unlinked_references held pfn
    · intro pfn
      rw [level, indicator_some, pointer_zero, indicator_none]
      exact unlinked_held tables pfn
  refine ⟨?_, shows.agree.trans (hstep.agree shows.inv), ?_, ?_⟩
  · rw [space_eq_of_root root]
    exact hstep.inv shows.inv
  · rw [← hafter]
    exact shows.window
  have hnone : after.space.levelOne after.backend = none := by
    rw [space_eq_of_root root, hstep.levelOne, pointer_zero]
  rw [← shows.view, AddressSpace.view_eq_zero, AddressSpace.view_eq_zero]
  · intro found hfound
    obtain rfl := Option.some.inj (level.symm.trans hfound)
    exact children
  · intro found hfound
    cases hnone.symm.trans hfound

/-- Unlinking all created tables, last one first. -/
theorem unlinkAll_shows (leaves) (shows : Shows base others pages core)
  (linked : Linked core table top leaves)
  (empty : ∀ slot ∈ leaves.map fst, ∀ page, page / tableEntries = slot → pages page = none) :
  Shows base others pages
    ((createdList core.space.rootPfn table top leaves).reverse.foldl unlinkCreated core) := by
  induction leaves using reverseRecOn generalizing core with
  | nil =>
    cases top with
    | false => exact shows
    | true => exact unlinkTop_shows shows linked
  | append_singleton leaves last ih =>
    obtain ⟨slot, leaf⟩ := last
    have hlast := unlinkLeaf_spec shows linked (empty slot (by simp))
    have rest := ih hlast.1 hlast.2.2 fun other hother =>
      empty other (by
        rw [map_append]
        exact mem_append_left _ hother)
    rw [hlast.2.1] at rest
    have hsplit : createdList core.space.rootPfn table top (leaves ++ [(slot, leaf)]) =
      createdList core.space.rootPfn table top leaves ++ [(table, slot, leaf)] := by
      simp [createdList]
    rw [hsplit, reverse_append]
    exact rest

/-! ## Mapped pages -/

variable {after first snd third : Core}
theorem SameShape.refl (core) : SameShape core core := ⟨rfl, fun _ _ => rfl, fun _ => rfl, rfl⟩

variable {vaddr : Nat}
theorem SameShape.trans (hfirst : SameShape first snd) (hsnd : SameShape snd third) :
  SameShape first third where
  levelOne := hsnd.levelOne.trans hfirst.levelOne
  entries table htable :=
    (hsnd.entries table (hfirst.levelOne.trans htable)).trans (hfirst.entries table htable)
  references pfn := (hsnd.references pfn).trans (hfirst.references pfn)
  tables := hsnd.tables.trans hfirst.tables

theorem Linked.of_sameShape {top} (linked : Linked core table top leaves)
  (same : SameShape core after) : Linked after table top leaves where
  level := same.levelOne.trans linked.level
  isPrivate := by
    rw [same.references]
    exact linked.isPrivate
  tables := by
    rw [same.tables]
    exact linked.tables
  slots := linked.slots
  link := by
    intro leaf hleaf
    rw [same.entries table linked.level, same.references]
    exact linked.link leaf hleaf
  complete := by
    rw [same.entries table linked.level]
    exact linked.complete

theorem Undo.of_sameShape (undo : Undo pages core) (same : SameShape core after)
  (root : after.space.rootPfn = core.space.rootPfn) (created : after.created = core.created) :
  Undo pages after := by
  rcases undo with hnone | ⟨table, top, leaves, hlist, linked, empty⟩
  · exact .inl (created.trans hnone)
  · refine .inr ⟨table, top, leaves, ?_, linked.of_sameShape same, empty⟩
    rw [created, root, hlist]

/-- A page whose mapping the call can take back. -/
structure Reached (core : Core) (vaddr : Nat) : Prop where
  user : vaddr < userLimit
  present : Present core (slotOf vaddr)
  isPrivate : PathPrivate core (slotOf vaddr)

theorem Reached.of_evolves (reached : Reached core vaddr) (evolves : Evolves core after) :
  Reached after vaddr :=
  have slot := slotOf_lt reached.user
  ⟨reached.user, evolves.present _ slot reached.present,
    evolves.topPrivate reached.isPrivate.1, evolves.calm _ slot reached.isPrivate.2⟩

theorem Reached.leafReady (reached : Reached core vaddr) :
  ∃ leaf, LeafReady core (slotOf vaddr) leaf := by
  obtain ⟨table, level, present⟩ := reached.present
  obtain ⟨leaf, hleaf⟩ := Option.ne_none_iff_exists'.mp present
  exact ⟨leaf, ⟨table, level, hleaf⟩, reached.isPrivate⟩

theorem unmapRecorded_eq (hinv : Inv core.backend (core.space :: others))
  (ready : LeafReady core (slotOf vaddr) leaf) (hvaddr : vaddr < userLimit) :
  core.unmapRecorded vaddr = core.wrote leaf vaddr 0#64 := by
  have window := ready.window hinv hvaddr
  obtain ⟨table, level, hleaf⟩ := ready.path
  have level' : core.space.levelOne core.backend = some table := level
  unfold unmapRecorded
  rw [leafLocation_eq hvaddr (hinv.window_root mem_cons_self)
    fun _ => hinv.window_levelOne mem_cons_self, level']
  dsimp only
  rw [hleaf]
  exact tryWrite_eq window (mod_lt _)

/-- Clearing a list of mapped pages. -/
theorem unmapAll_spec (vaddrs : List Nat) (shows : Shows base others pages core)
  (reached : ∀ vaddr ∈ vaddrs, Reached core vaddr) :
  Shows base others
    (fun page => if page ∈ vaddrs.map (· / pageSize) then none else pages page)
    (vaddrs.foldl unmapRecorded core) ∧
    SameShape core (vaddrs.foldl unmapRecorded core) ∧
    (vaddrs.foldl unmapRecorded core).space.rootPfn = core.space.rootPfn := by
  induction vaddrs generalizing core pages with
  | nil => exact ⟨by simpa using shows, SameShape.refl core, rfl⟩
  | cons vaddr rest ih =>
    have hfirst := reached vaddr mem_cons_self
    obtain ⟨leaf, ready⟩ := hfirst.leafReady
    have same := wrote_sameShape shows.inv ready hfirst.user 0#64
    have wrote := wrote_shows shows ready hfirst.user none
    rw [foldl_cons, unmapRecorded_eq shows.inv ready hfirst.user]
    obtain ⟨hrest, shape, root⟩ := ih wrote fun other hother =>
      (reached other (mem_cons_of_mem _ hother)).of_evolves same.evolves
    have hpages : (fun page => if page ∈ (vaddr :: rest).map (· / pageSize) then none
      else pages page) =
      fun page => if page ∈ rest.map (· / pageSize) then none
        else update pages (vaddr / pageSize) none page := by
      funext page
      by_cases hpage : page = vaddr / pageSize
      · simp [hpage]
      · simp [hpage]
    rw [hpages]
    exact ⟨hrest, same.trans shape, root⟩

/-! ## The running call -/

/--
A call that started in `start`, where the space showed `before`, has come to `core`
and shows `pages`.  Under `free` everything it did can be taken back.
-/
structure Transaction (base : TableBackend) (others : List AddressSpace)
  (start : Core) (before : PageMap) (free : Prop) (pages : PageMap) (core : Core) :
  Prop where
  shows : Shows base others pages core
  evolves : Evolves start core
  cleared : ∀ page, before page =
    if page ∈ core.mapped.map (· / pageSize) then none else pages page
  reached : ∀ vaddr ∈ core.mapped, Reached core vaddr
  undo : free → Undo before core

variable {start : Core} {before : PageMap}
/-- Rolling back shows what the space showed before the call. -/
theorem Transaction.rollback_shows {base others}
  (call : Transaction base others start before free pages core) (hfree : free) :
  Shows base others before core.rollbackMappingTransaction := by
  obtain ⟨shows, shape, root⟩ := unmapAll_spec core.mapped.reverse call.shows
    fun vaddr hvaddr => call.reached vaddr (mem_reverse.mp hvaddr)
  have hbefore : (fun page => if page ∈ core.mapped.reverse.map (· / pageSize) then none
    else pages page) = before := by
    funext page
    rw [call.cleared page, map_reverse]
    simp only [mem_reverse]
  rw [hbefore] at shows
  unfold rollbackMappingTransaction
  dsimp only
  rcases call.undo hfree with hnone | ⟨table, top, leaves, created, linked, empty⟩
  · rw [hnone]
    exact shows
  · rw [created, ← root]
    exact unlinkAll_shows leaves shows (linked.of_sameShape shape) empty

end Core
end Smros.PageTable
