import Smros.PageTable.Rollback

/-!
# Growing the tables of a running call

`ensure_leaf_table` creates the missing tables on the way to a page.  A new table
changes no translation, and the running call can take it back.
-/

namespace Smros.PageTable
open Lib Lib.Program List Function Option
namespace Core
/-- A fresh table `child` was linked below `parent`, held and recorded. -/
structure Grown (before after : Core) (parent index child : Nat) : Prop where
  root : after.space.rootPfn = before.space.rootPfn
  free : before.backend.Free child
  entry : after.backend.entries parent =
    Function.update (before.backend.entries parent) index (tableDescriptor (child * pageSize))
  fresh : after.backend.entries child = fun _ => 0#64
  elsewhere : ∀ pfn, pfn ≠ parent → pfn ≠ child →
    after.backend.entries pfn = before.backend.entries pfn
  window : after.backend.window = before.backend.window
  offers : before.backend.offers = child :: after.backend.offers
  references : ∀ pfn,
    after.backend.references pfn = before.backend.references pfn + indicator (pfn = child)
  tables : after.space.tablePfns = before.space.tablePfns ++ [child]
  created : after.created = before.created ++ [(parent, index, child)]
  mapped : after.mapped = before.mapped

variable {parent idx child : Nat}
/-- Taking a free table, holding it and linking it below a held one. -/
theorem Grown.of_take {core rest} (hparent : core.backend.references parent ≠ 0) (free)
  (offers : core.backend.offers = child :: rest) :
  Grown core ⟨(core.pushTable child).space, (core.backend.take child rest free).setEntry parent idx
    (tableDescriptor (child * pageSize)), core.created ++ [(parent, idx, child)],
    core.mapped⟩ parent idx child := by
  have hne : parent ≠ child := by
    rintro rfl
    exact hparent free.1
  refine ⟨rfl, free, ?_, ?_, ?_, rfl, offers, ?_, rfl, rfl, rfl⟩
  · change update (update core.backend.entries child _) parent _ parent = _
    rw [update_self]
    change update (update core.backend.entries child _ parent) idx _ = _
    rw [update_of_ne hne]
  · change update (update core.backend.entries child _) parent _ child = _
    rw [update_of_ne hne.symm, update_self]
  · intro pfn hpfn hchild
    change update (update core.backend.entries child _) parent _ pfn = _
    rw [update_of_ne hpfn, update_of_ne hchild]
  · intro pfn
    change update core.backend.references child 1 pfn = _
    by_cases same : pfn = child
    · subst same
      simp [indicator, free.1]
    · simp [indicator, same]

variable {core : Core}
section
variable (hparent : core.backend.references parent ≠ 0) (hindex : idx < tableEntries)
include hparent hindex
theorem ensureChild_ends_absent (absent : core.backend.entries parent idx = 0#64) :
  Ends (ensureChildTable parent idx) core (fun child after => Grown core after parent idx child)
    (fun _ after => Idle core after ∧ ¬ OfferFree core.backend) := by
  have window := core.backend.references_window parent hparent
  unfold ensureChildTable
  rw [ends_readEntry_bind window hindex, if_pos absent]
  refine ends_allocateTable_bind (fun child rest hoffers free => ?_) fun offers short =>
    ⟨⟨rfl, rfl, fun _ => rfl, fun _ _ => rfl, rfl, rfl⟩, short⟩
  have paddr : (core.withBackend (core.backend.take child rest free)).backend.pfnAddress child =
    some (child * pageSize) := if_pos free.2
  rw [ends_get_bind, paddr]
  refine (ends_bind_of_ok rfl).mpr ?_
  rw [ends_modify_bind]
  refine (ends_bind_of_ok (writeEntry_run ?_ hindex)).mpr (ends_pure.mpr ?_)
  · exact window
  exact .of_take hparent free hoffers

theorem ensureChild_ends_present (link : IsLink (core.backend.entries parent idx))
  (hchild : pointer (core.backend.entries parent idx) = some child) :
  Ends (ensureChildTable parent idx) core
    (fun found after => found = child ∧ after = core) (fun _ _ => False) := by
  have window := core.backend.references_window parent hparent
  unfold ensureChildTable
  rw [ends_readEntry_bind window hindex]
  rcases link_cases link with ⟨-, hnone⟩ | ⟨hne, valid, hpointer⟩
  · cases hnone.symm.trans hchild
  · rw [if_neg hne, if_pos valid, ends_pure]
    exact ⟨some.inj (hpointer.symm.trans hchild), rfl⟩

end

variable {others : List AddressSpace} {after : Core} {table slot : Nat}
theorem Grown.relinksLeaf (grown : Grown core after table slot child) (hslot : slot < tableEntries)
  (absent : core.backend.entries table slot = 0#64) :
  RelinksLeaf core.backend after.backend core.space table slot
    (tableDescriptor (child * pageSize)) after.space.tablePfns := by
  have hchild : child < 2 ^ 36 := grown.free.2.lt
  refine ⟨hslot, .inr ⟨child, hchild, rfl⟩, grown.entry, ?_, ?_, ?_, ?_⟩
  · intro pfn hpfn held
    refine grown.elsewhere pfn hpfn ?_
    rintro rfl
    exact held grown.free.1
  · intro leaf hleaf
    rw [pointer_table hchild] at hleaf
    cases hleaf
    exact grown.free.1
  · intro pfn
    rw [absent, pointer_zero, indicator_none, pointer_table hchild, indicator_some]
    exact grown.references pfn
  · intro pfn
    rw [absent, pointer_zero, indicator_none, pointer_table hchild, indicator_some,
      grown.tables, count_append, count_singleton]
    by_cases same : pfn = child
    · simp [indicator, same]
    · simp [indicator, same, Ne.symm same]

theorem Grown.relinksRoot (grown : Grown core after core.space.rootPfn 0 child)
  (level : core.levelOne = none) :
  RelinksRoot core.backend after.backend core.space (tableDescriptor (child * pageSize)) []
    after.space.tablePfns := by
  have hchild : child < 2 ^ 36 := grown.free.2.lt
  have hnone : core.space.levelOne core.backend = none := level
  refine ⟨.inr ⟨child, hchild, rfl⟩, grown.entry, ?_, fun _ => rfl, ?_, fun _ => rfl, ?_, ?_, ?_⟩
  · intro pfn hpfn held
    refine grown.elsewhere pfn hpfn ?_
    rintro rfl
    exact held grown.free.1
  · intro found hfound
    cases hnone.symm.trans hfound
  · intro found hfound
    rw [pointer_table hchild] at hfound
    cases hfound
    refine ⟨grown.free.1, TableBackend.children_of_cleared grown.fresh, ?_⟩
    intro idx _
    rw [grown.fresh]
    exact .inl rfl
  · intro pfn
    rw [hnone, indicator_none, pointer_table hchild, indicator_some, count_nil]
    exact grown.references pfn
  · intro pfn
    rw [hnone, indicator_none, pointer_table hchild, indicator_some, count_nil,
      grown.tables, count_append, count_singleton]
    by_cases same : pfn = child
    · simp [indicator, same]
    · simp [indicator, same, Ne.symm same]

/-- A new leaf is the last of the created ones. -/
theorem Linked.grow {top leaves} (linked : Linked core table top leaves)
  (hinv : Inv core.backend (core.space :: others))
  (grown : Grown core after table slot child) (hslot : slot < tableEntries)
  (absent : core.backend.entries table slot = 0#64) :
  Linked after table top (leaves ++ [(slot, child)]) := by
  have hchild : child < 2 ^ 36 := grown.free.2.lt
  have hstep := grown.relinksLeaf hslot absent
  have hothers : ∀ other, other ≠ slot →
    after.backend.entries table other = core.backend.entries table other := by
    intro other hne
    rw [grown.entry, update_of_ne hne]
  have hnew : pointer (after.backend.entries table slot) = some child := by
    rw [grown.entry, update_self, pointer_table hchild]
  have fresh : slot ∉ leaves.map Prod.fst := by
    intro hmem
    obtain ⟨leaf, hleaf, rfl⟩ := mem_map.mp hmem
    have hptr := (linked.link leaf hleaf).2.1
    rw [absent, pointer_zero] at hptr
    cases hptr
  refine ⟨levelOne_of_relinksLeaf hinv linked.level grown.root hstep, ?_, ?_, ?_, ?_, ?_⟩
  · rw [hstep.references_table hinv linked.level]
    exact linked.isPrivate
  · obtain ⟨kept, tables⟩ := linked.tables
    refine ⟨kept, ?_⟩
    rw [grown.tables, tables, map_append, ← append_assoc]
    rfl
  · rw [map_append, nodup_append]
    refine ⟨linked.slots, nodup_singleton _, ?_⟩
    rintro left hleft right hright rfl
    have same : left = slot := by simpa using hright
    exact fresh (same ▸ hleft)
  · intro leaf hleaf
    rcases mem_append.mp hleaf with hleaf | hleaf
    · obtain ⟨hlt, hptr, hone⟩ := linked.link leaf hleaf
      have hne : leaf.1 ≠ slot := fun same => fresh (same ▸ mem_map_of_mem hleaf)
      refine ⟨hlt, by rwa [hothers _ hne], ?_⟩
      rwa [(hstep.unmoved_slot hinv linked.level hlt hne hptr).1]
    · obtain rfl := mem_singleton.mp hleaf
      exact ⟨hslot, hnew, Nat.le_of_eq
        (hstep.references_new hinv linked.level (pointer_table hchild))⟩
  · intro htop other hother present
    rw [map_append, mem_append]
    by_cases hne : other = slot
    · exact .inr (by simp [hne])
    · rw [hothers other hne] at present
      exact .inl (linked.complete htop other hother present)

/-- A new level-one table has no leaves yet. -/
theorem Linked.of_top (hinv : Inv core.backend (core.space :: others))
  (grown : Grown core after core.space.rootPfn 0 child) (level : core.levelOne = none) :
  Linked after child true [] := by
  have hchild : child < 2 ^ 36 := grown.free.2.lt
  have hstep := grown.relinksRoot level
  refine ⟨levelOne_of_relinksRoot grown.root hstep (pointer_table hchild),
    Nat.le_of_eq (hstep.references_new hinv (pointer_table hchild)),
    ⟨core.space.tablePfns, by simp [grown.tables]⟩, nodup_nil, ?_, ?_⟩
  · intro leaf hleaf
    cases hleaf
  · intro _ other _ present
    rw [grown.fresh, pointer_zero] at present
    exact absurd rfl present

/-- Before the first table is created nothing needs to be taken back. -/
theorem Linked.empty (hlevel : core.levelOne = some table)
  (hprivate : core.backend.references table ≤ 1) : Linked core table false [] where
  level := hlevel
  isPrivate := hprivate
  tables := ⟨core.space.tablePfns, by simp⟩
  slots := nodup_nil
  link := fun _ leaf => by cases leaf
  complete := fun htop => by cases htop

/-! ## Steps of the running call -/

namespace Transaction
variable {free : Prop} {base : TableBackend} {start : Core} {before pages : PageMap} {page : Nat}
/-- Nothing has happened yet. -/
theorem begin (hshows : Shows base others pages core) (created : core.created = [])
  (mapped : core.mapped = []) : Transaction base others core pages free pages core where
  shows := hshows
  evolves := .refl core
  cleared page := by simp [mapped]
  reached vaddr hvaddr := by
    rw [mapped] at hvaddr
    cases hvaddr
  undo _ := .inl created

variable (call : Transaction base others start before free pages core)
include call
/-- A step that moves tables without recording them must not follow a created one. -/
theorem of_quiet (quiet : Quiet others core after) (hundo : SameUndo core after)
  (same : free → core.created ≠ [] → after = core) :
  Transaction base others start before free pages after where
  shows := quiet.keeps call.shows
  evolves := call.evolves.trans quiet.evolves
  cleared page := by
    rw [hundo.2]
    exact call.cleared page
  reached vaddr hvaddr := by
    rw [hundo.2] at hvaddr
    exact (call.reached vaddr hvaddr).of_evolves quiet.evolves
  undo hfree := by
    by_cases created : core.created = []
    · exact .inl (hundo.1.trans created)
    · rw [same hfree created]
      exact call.undo hfree

/-- The undo list in one form, whether or not a table was created before. -/
theorem undo_linked (hfree : free) (level : core.levelOne = some table) (htop : TopPrivate core) :
  ∃ top leaves, core.created = createdList core.space.rootPfn table top leaves ∧
    Linked core table top leaves ∧
    ∀ slot ∈ leaves.map Prod.fst, ∀ page, page / tableEntries = slot → before page = none := by
  rcases call.undo hfree with hnone | ⟨found, top, leaves, created, linked, empty⟩
  · refine ⟨false, [], by simp [hnone, createdList], Linked.empty level (htop table level), ?_⟩
    intro slot hslot
    cases hslot
  · obtain rfl := some.inj (level.symm.trans linked.level)
    exact ⟨top, leaves, created, linked, empty⟩

/-- A slot without a leaf showed no page when the call started. -/
theorem before_none (level : core.levelOne = some table) (hslot : slot < tableEntries)
  (absent : core.backend.entries table slot = 0#64) (hpage : page / tableEntries = slot) :
  before page = none := by
  have level' : core.space.levelOne core.backend = some table := level
  have view := congrFun call.shows.view page
  unfold AddressSpace.view encodePages at view
  rw [level'] at view
  dsimp only at view
  rw [hpage, if_pos hslot, absent, TableBackend.leafRow_zero] at view
  rw [call.cleared page, encode_eq_zero.mp view.symm, ite_self]

theorem grow_quiet (quiet : Quiet others core after) (mapped : after.mapped = core.mapped)
  (hundo : free → Undo before after) :
  Transaction base others start before free pages after where
  shows := quiet.keeps call.shows
  evolves := call.evolves.trans quiet.evolves
  cleared page := by
    rw [mapped]
    exact call.cleared page
  reached vaddr hvaddr := by
    rw [mapped] at hvaddr
    exact (call.reached vaddr hvaddr).of_evolves quiet.evolves
  undo := hundo

theorem growLeaf (grown : Grown core after table slot child) (level : core.levelOne = some table)
  (htop : TopPrivate core) (hslot : slot < tableEntries)
  (absent : core.backend.entries table slot = 0#64) :
  Transaction base others start before free pages after ∧ Costs 1 core after ∧
    LeafReady after slot child := by
  have hinv := call.shows.inv
  have hprivate := htop table level
  have hchild : child < 2 ^ 36 := grown.free.2.lt
  have hstep := grown.relinksLeaf hslot absent
  have quiet : Quiet others core after := by
    refine quiet_of_relinksLeaf hinv level hprivate grown.root grown.window hstep hchild ?_
    intro idx _
    rw [grown.fresh, absent, TableBackend.leafRow_zero]
  have hafter := levelOne_of_relinksLeaf hinv level grown.root hstep
  have hnew : pointer (after.backend.entries table slot) = some child := by
    rw [grown.entry, update_self, pointer_table hchild]
  refine ⟨call.grow_quiet quiet grown.mapped fun hfree => ?_,
    costs_of_relinksLeaf hinv level hprivate grown.root grown.window hstep hchild
      grown.offers, ⟨table, hafter, hnew⟩,
    topPrivate_of_relinksLeaf hinv level grown.root hstep hprivate, ?_⟩
  · obtain ⟨top, leaves, created, linked, empty⟩ := call.undo_linked hfree level htop
    refine .inr ⟨table, top, leaves ++ [(slot, child)], ?_, linked.grow hinv grown hslot absent, ?_⟩
    · rw [grown.created, grown.root, created]
      simp [createdList]
    intro other hother page hpage
    rw [map_append, mem_append] at hother
    rcases hother with hother | hother
    · exact empty other hother page hpage
    · exact call.before_none level hslot absent (hpage.trans (by simpa using hother))
  · intro found hfound leaf hleaf
    obtain rfl := some.inj (hafter.symm.trans hfound)
    obtain rfl := some.inj (hnew.symm.trans hleaf)
    exact ⟨by rwa [hstep.references_table hinv level], Nat.le_of_eq
      (hstep.references_new hinv level (pointer_table hchild))⟩

theorem growTop (grown : Grown core after core.space.rootPfn 0 child)
  (level : core.levelOne = none) :
  Transaction base others start before free pages after ∧ Costs 1 core after ∧
    after.levelOne = some child ∧ TopPrivate after ∧
    ∀ slot, after.backend.entries child slot = 0#64 := by
  have hinv := call.shows.inv
  have hchild : child < 2 ^ 36 := grown.free.2.lt
  have hstep := grown.relinksRoot level
  have quiet : Quiet others core after := by
    refine quiet_of_relinksRoot hinv grown.root grown.window hstep hchild ?_
    intro old hold
    cases level.symm.trans hold
  refine ⟨call.grow_quiet quiet grown.mapped fun hfree => ?_,
    costs_of_relinksRoot hinv grown.root grown.window hstep hchild grown.offers,
    levelOne_of_relinksRoot grown.root hstep (pointer_table hchild),
    topPrivate_of_relinksRoot hinv grown.root hstep (pointer_table hchild), ?_⟩
  · rcases call.undo hfree with hnone | ⟨found, top, leaves, -, linked, -⟩
    · refine .inr ⟨child, true, [], ?_, .of_top hinv grown level, ?_⟩
      · rw [grown.created, grown.root, hnone]
        simp [createdList]
      · intro slot hslot
        cases hslot
    · cases level.symm.trans linked.level
  · intro slot
    rw [grown.fresh]

theorem of_idle (idle : Idle core after) :
  Transaction base others start before free pages after :=
  call.grow_quiet (idle.quiet call.shows.inv) idle.mapped fun hfree =>
    (call.undo hfree).of_sameShape (idle.sameShape call.shows.inv)
      (congrArg _ idle.space) idle.created

/-- The leaf below a level-one table that is already private. -/
theorem ensureLeaf_ends (level : core.levelOne = some table) (path : PathPrivate core slot)
  (hslot : slot < tableEntries) :
  Ends (ensureChildTable table slot) core
    (fun leaf next => Transaction base others start before free pages next ∧
      Costs 1 core next ∧ LeafReady next slot leaf ∧ next.mapped = core.mapped ∧
      (Present core slot → next = core))
    (fun _ next => Transaction base others start before free pages next ∧
      ¬ Supply 1 core) := by
  have hinv := call.shows.inv
  have links := (hinv.spaceOk _ mem_cons_self).levelOneLinks table level slot hslot
  have held := (hinv.held_levelOne mem_cons_self level).ne'
  rcases link_cases links with ⟨absent, hnone⟩ | ⟨-, -, hleaf⟩
  · refine (ensureChild_ends_absent held hslot absent).mono ?_ ?_
    · intro child next grown
      obtain ⟨hnext, costs, ready⟩ := call.growLeaf grown level path.1 hslot absent
      refine ⟨hnext, costs, ready, grown.mapped, ?_⟩
      rintro ⟨found, hfound, present⟩
      obtain rfl := some.inj (level.symm.trans hfound)
      exact absurd hnone present
    · rintro _ next ⟨idle, short⟩
      exact ⟨call.of_idle idle, fun supply => short supply.offerFree⟩
  · refine (ensureChild_ends_present held hslot links hleaf).mono ?_ ?_
    · rintro leaf next ⟨rfl, rfl⟩
      exact ⟨call, .refl 1 next, ⟨⟨table, level, hleaf⟩, path⟩, rfl, fun _ => rfl⟩
    · intro _ _ hfalse
      exact hfalse.elim

/-- The tables on the path to a page, created where they are missing. -/
theorem ensureLeafTable_ends (path : PathPrivate core slot) (hslot : slot < tableEntries) (idx) :
  Ends (ensureLeafTable (0, slot, idx)) core
    (fun leaf next => Transaction base others start before free pages next ∧
      Costs 2 core next ∧ LeafReady next slot leaf ∧ next.mapped = core.mapped ∧
      (Present core slot → next = core))
    (fun _ next => Transaction base others start before free pages next ∧
      ¬ Supply 2 core) := by
  have hok := call.shows.inv.spaceOk _ mem_cons_self
  have held : core.backend.references core.space.rootPfn ≠ 0 := by
    rw [hok.rootPrivate]
    exact Nat.one_ne_zero
  unfold ensureLeafTable
  rw [ends_get_bind]
  rcases link_cases hok.rootLink with ⟨absent, hnone⟩ | ⟨-, -, level⟩
  · have level : core.levelOne = none := hnone
    refine .bind ((ensureChild_ends_absent held (by decide) absent).mono
      (fun _ _ grown => grown) ?_) ?_
    · rintro _ next ⟨idle, short⟩
      exact ⟨call.of_idle idle, fun supply => short supply.offerFree⟩
    intro top mid grown
    obtain ⟨hmid, costs, levelMiddle, htop, cleared⟩ := call.growTop grown level
    have calm : Calm mid slot := by
      intro found hfound leaf hleaf
      obtain rfl := some.inj (levelMiddle.symm.trans hfound)
      rw [cleared slot, pointer_zero] at hleaf
      cases hleaf
    refine (hmid.ensureLeaf_ends levelMiddle ⟨htop, calm⟩ hslot).mono ?_ ?_
    · rintro leaf next ⟨hnext, costsLeaf, ready, mapped, -⟩
      refine ⟨hnext, costs.trans costsLeaf, ready, mapped.trans grown.mapped, ?_⟩
      rintro ⟨found, hfound, -⟩
      cases level.symm.trans hfound
    · rintro _ next ⟨hnext, short⟩
      exact ⟨hnext, fun supply => short (costs 1 supply)⟩
  · refine .bind ((ensureChild_ends_present held (by decide) hok.rootLink level).mono
      (fun _ _ hfound => hfound) fun _ _ hfalse => hfalse.elim) ?_
    rintro _ _ ⟨rfl, rfl⟩
    refine (call.ensureLeaf_ends level path hslot).mono ?_ ?_
    · rintro leaf next ⟨hnext, costs, ready⟩
      exact ⟨hnext, (Costs.refl 1 _).trans costs, ready⟩
    · rintro _ next ⟨hnext, short⟩
      exact ⟨hnext, fun supply => short (supply.mono (by decide))⟩

end Transaction
end Core

end Smros.PageTable
