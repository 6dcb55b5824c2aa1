import Smros.PageTable.Detach

/-!
# The private path

What the space at work may rely on between two steps of a call: which of its slots
have a leaf table, which of them are shared, and whether the allocator can still
deliver.  `ensure_private_existing_path` keeps all translations, and it fails only
when tables run out or when the space does not hold a shared leaf it uses.
-/

namespace Smros.PageTable
open Lib Lib.Program List Option TableBackend Nat
namespace Core

/-! ## Slots of the level-one table -/

variable (core : Core)

def levelOne : Option Nat := core.space.levelOne core.backend

/-- The level-one slot points to a leaf table. -/
def Present (slot : Nat) : Prop :=
  ∃ table, core.levelOne = some table ∧ pointer (core.backend.entries table slot) ≠ none

/-- No other space holds the level-one table. -/
def TopPrivate : Prop := ∀ table, core.levelOne = some table → core.backend.references table ≤ 1

/-- If the slot has a leaf, no other space holds the tables on the path to it. -/
def Calm (slot : Nat) : Prop :=
  ∀ table, core.levelOne = some table →
    ∀ leaf, pointer (core.backend.entries table slot) = some leaf →
      core.backend.references table ≤ 1 ∧ core.backend.references leaf ≤ 1

/-- A shared leaf below a level-one table of its own is in the space's list. -/
def Owned (slot : Nat) : Prop :=
  ∀ table, core.levelOne = some table → core.backend.references table ≤ 1 →
    ∀ leaf, pointer (core.backend.entries table slot) = some leaf →
      2 ≤ core.backend.references leaf → leaf ∈ core.space.tablePfns

/-- What no step of a mapping call takes back. -/
structure Evolves (before after : Core) : Prop where
  present : ∀ slot < tableEntries, Present before slot → Present after slot
  topPrivate : TopPrivate before → TopPrivate after
  calm : ∀ slot < tableEntries, Calm before slot → Calm after slot
  owned : ∀ slot < tableEntries, Owned before slot → Owned after slot

theorem Evolves.refl (core) : Evolves core core := ⟨fun _ _ => id, id, fun _ _ => id, fun _ _ => id⟩

variable {first snd third : Core}
theorem Evolves.trans (hfirst : Evolves first snd) (hsnd : Evolves snd third) :
  Evolves first third where
  present slot hslot := hsnd.present slot hslot ∘ hfirst.present slot hslot
  topPrivate := hsnd.topPrivate ∘ hfirst.topPrivate
  calm slot hslot := hsnd.calm slot hslot ∘ hfirst.calm slot hslot
  owned slot hslot := hsnd.owned slot hslot ∘ hfirst.owned slot hslot

/-- The allocator has `tables` frames left, and no child of a shared level-one table
is near its holder limit. -/
structure Supply (tables : Nat) (core : Core) : Prop where
  enough : tables ≤ core.backend.offers.length
  nodup : core.backend.offers.Nodup
  free : ∀ pfn ∈ core.backend.offers, core.backend.Free pfn
  room : ¬ TopPrivate core → ∀ table, core.levelOne = some table →
    ∀ child ∈ core.backend.children table,
      core.backend.references child + tableEntries ≤ maxTableReferences

/--
The invariant holds, the other spaces see what they saw at `base`, and this space
translates `pages`.
-/
structure Keeps (base : TableBackend) (others : List AddressSpace)
  (pages : Nat → Descriptor) (core : Core) : Prop where
  inv : Inv core.backend (core.space :: others)
  agree : Agree base core.backend others
  window : core.backend.window = base.window
  view : core.space.view core.backend = pages

variable {core} {base : TableBackend} {others : List AddressSpace}
  {pages : Nat → Descriptor} {after : Core}

/-! ## Steps that move no table -/

theorem Idle.keeps (idle : Idle core after) (keeps : Keeps base others pages core) :
  Keeps base others pages after := by
  have spaces : Agree core.backend after.backend (core.space :: others) := by
    intro pfn hparents
    have covered := keeps.inv.covered pfn
    exact idle.entries pfn (by omega)
  have hothers : Agree core.backend after.backend others := by
    intro pfn hparents
    have hle : parents core.backend others pfn ≤ parents core.backend (core.space :: others) pfn :=
      parents_others_le pfn
    exact spaces pfn (by omega)
  refine ⟨?_, keeps.agree.trans hothers, idle.window.trans keeps.window, ?_⟩
  · rw [idle.space]
    exact keeps.inv.of_agree spaces.upper idle.references
  · rw [idle.space, spaces.view_eq mem_cons_self]
    exact keeps.view

/-- The tables above the leaves, the counts and the held list are the same. -/
structure SameShape (before after : Core) : Prop where
  levelOne : after.levelOne = before.levelOne
  entries : ∀ table, before.levelOne = some table →
    after.backend.entries table = before.backend.entries table
  references : ∀ pfn, after.backend.references pfn = before.backend.references pfn
  tables : after.space.tablePfns = before.space.tablePfns

theorem SameShape.evolves (same : SameShape core after) : Evolves core after := by
  refine ⟨?_, ?_, ?_, ?_⟩
  · rintro slot - ⟨table, level, hleaf⟩
    refine ⟨table, same.levelOne.trans level, ?_⟩
    rwa [same.entries table level]
  · intro htop table level
    rw [same.levelOne] at level
    rw [same.references]
    exact htop table level
  · intro slot _ calm table level leaf hleaf
    rw [same.levelOne] at level
    rw [same.entries table level] at hleaf
    rw [same.references, same.references]
    exact calm table level leaf hleaf
  · intro slot _ owned table level hone leaf hleaf htwo
    rw [same.levelOne] at level
    rw [same.entries table level] at hleaf
    rw [same.references] at hone htwo
    rw [same.tables]
    exact owned table level hone leaf hleaf htwo

theorem Idle.sameShape (idle : Idle core after)
  (hinv : Inv core.backend (core.space :: others)) : SameShape core after := by
  have hroot : after.backend.entries core.space.rootPfn =
    core.backend.entries core.space.rootPfn := by
    have hone := (hinv.spaceOk _ mem_cons_self).rootPrivate
    exact idle.entries _ (by omega)
  have level : after.levelOne = core.levelOne := by
    unfold levelOne
    rw [idle.space]
    exact AddressSpace.levelOne_congr hroot
  refine ⟨level, ?_, idle.references, by rw [idle.space]⟩
  intro table htable
  exact idle.entries table (hinv.held_levelOne mem_cons_self htable).ne'

/-! ## Steps that link a new table -/

/-- The space after a step that keeps its root. -/
theorem space_eq_of_root (hroot : after.space.rootPfn = core.space.rootPfn) :
  after.space = ⟨core.space.rootPfn, after.space.tablePfns⟩ := by
  rw [← hroot]

variable {table slot new : Nat} {link : Descriptor}
  (hinv : Inv core.backend (core.space :: others)) (level : core.levelOne = some table)
  (hprivate : core.backend.references table ≤ 1) (hroot : after.space.rootPfn = core.space.rootPfn)
  (hwindow : after.backend.window = core.backend.window)
section
variable
  (hstep : RelinksLeaf core.backend after.backend core.space table slot link after.space.tablePfns)
  (hnew : pointer link = some new)
include hinv level hroot hstep
theorem levelOne_of_relinksLeaf : after.levelOne = some table := by
  unfold levelOne
  rw [space_eq_of_root hroot]
  exact hstep.levelOne hinv level

theorem topPrivate_of_relinksLeaf (hprivate : core.backend.references table ≤ 1) :
  TopPrivate after := by
  intro found hfound
  obtain rfl := some.inj ((levelOne_of_relinksLeaf hinv level hroot hstep).symm.trans hfound)
  rwa [hstep.references_table hinv level]

include hprivate hnew
theorem evolves_of_relinksLeaf : Evolves core after := by
  have hafter := levelOne_of_relinksLeaf hinv level hroot hstep
  have htop := topPrivate_of_relinksLeaf hinv level hroot hstep hprivate
  have hslot : pointer (after.backend.entries table slot) = some new := by
    rw [hstep.entry, Function.update_self, hnew]
  have others : ∀ other, other ≠ slot →
    after.backend.entries table other = core.backend.entries table other := by
    intro other hne
    rw [hstep.entry, Function.update_of_ne hne]
  have hone := hstep.references_new hinv level hnew
  refine ⟨?_, fun _ => htop, ?_, ?_⟩
  · rintro other - ⟨found, hfound, hleaf⟩
    obtain rfl := some.inj (level.symm.trans hfound)
    refine ⟨table, hafter, ?_⟩
    by_cases hne : other = slot
    · rw [hne, hslot]
      exact some_ne_none new
    · rwa [others other hne]
  · intro other hother calm found hfound leaf hleaf
    obtain rfl := some.inj (hafter.symm.trans hfound)
    refine ⟨htop table hafter, ?_⟩
    by_cases hne : other = slot
    · obtain rfl := some.inj (hslot.symm.trans (hne ▸ hleaf))
      exact le_of_eq hone
    · rw [others other hne] at hleaf
      rw [(hstep.unmoved_slot hinv level hother hne hleaf).1]
      exact (calm table level leaf hleaf).2
  · intro other hother owned found hfound _ leaf hleaf htwo
    obtain rfl := some.inj (hafter.symm.trans hfound)
    by_cases hne : other = slot
    · obtain rfl := some.inj (hslot.symm.trans (hne ▸ hleaf))
      omega
    rw [others other hne] at hleaf
    obtain ⟨refs, count⟩ := hstep.unmoved_slot hinv level hother hne hleaf
    rw [refs] at htwo
    have hmem := count_pos_iff.mpr (owned table level hprivate leaf hleaf htwo)
    rw [← count] at hmem
    exact count_pos_iff.mp hmem

end

variable {gained : List Nat}
section
variable
  (hstep : RelinksRoot core.backend after.backend core.space link gained after.space.tablePfns)
  (hnew : pointer link = some new)
  (hcopy : ∀ old, core.levelOne = some old → after.backend.entries new = core.backend.entries old)
include hroot hstep hnew
theorem levelOne_of_relinksRoot : after.levelOne = some new := by
  unfold levelOne
  rw [space_eq_of_root hroot, ← hnew]
  exact hstep.levelOne

include hinv
theorem topPrivate_of_relinksRoot : TopPrivate after := by
  intro found hfound
  obtain rfl := some.inj ((levelOne_of_relinksRoot hroot hstep hnew).symm.trans hfound)
  exact le_of_eq (hstep.references_new hinv hnew)

include hcopy
theorem evolves_of_relinksRoot : Evolves core after := by
  have hafter := levelOne_of_relinksRoot hroot hstep hnew
  have htop := topPrivate_of_relinksRoot hinv hroot hstep hnew
  -- every leaf below the new table is a gained one
  have hgained : ∀ slot < tableEntries, ∀ leaf,
    pointer (after.backend.entries new slot) = some leaf → leaf ∈ gained := by
    intro slot hslot leaf hleaf
    rw [← (hstep.newSome new hnew).2.1]
    exact mem_children.mpr ⟨slot, hslot, hleaf⟩
  refine ⟨?_, fun _ => htop, ?_, ?_⟩
  · rintro slot - ⟨old, hold, hleaf⟩
    exact ⟨new, hafter, by rwa [hcopy old hold]⟩
  · intro slot hslot calm found hfound leaf hleaf
    obtain rfl := some.inj (hafter.symm.trans hfound)
    have hmem := hgained slot hslot leaf hleaf
    obtain ⟨old, hold, child⟩ := hstep.mem_gained hmem
    rw [hcopy old hold] at hleaf
    -- a calm leaf had a private level-one table, which is never replaced
    have hone := (calm old hold leaf hleaf).1
    rcases (hstep.oldSome old hold).2 with htwo | empty
    · omega
    · rw [empty] at child
      cases child
  · intro slot hslot _ found hfound _ leaf hleaf _
    obtain rfl := some.inj (hafter.symm.trans hfound)
    exact hstep.gained_mem hinv (hgained slot hslot leaf hleaf)

end

/-! ## Supply -/

variable {tables fewer left right : Nat}
theorem Supply.offerFree (supply : Supply (tables + 1) core) : OfferFree core.backend := by
  have length := supply.enough
  cases offers : core.backend.offers with
  | nil =>
    rw [offers] at length
    exact absurd length (not_succ_le_zero tables)
  | cons offer rest => exact ⟨offer, rest, offers, supply.free offer (offers ▸ mem_cons_self)⟩

theorem Supply.mono (hle : fewer ≤ tables) (supply : Supply tables core) : Supply fewer core :=
  { supply with enough := le_trans hle supply.enough }

/-- One table less after a step that took the first offer. -/
theorem Supply.take (supply : Supply (tables + 1) core)
  (offers : core.backend.offers = new :: after.backend.offers)
  (hwindow : after.backend.window = core.backend.window)
  (refs : ∀ pfn, pfn ≠ new → core.backend.references pfn = 0 →
    after.backend.references pfn = 0) (htop : TopPrivate after) : Supply tables after := by
  have length := supply.enough
  have nodup := supply.nodup
  rw [offers] at length nodup
  refine ⟨le_of_succ_le_succ length, nodup.of_cons, ?_, fun shared => absurd htop shared⟩
  intro pfn hpfn
  have free := supply.free pfn (offers ▸ mem_cons_of_mem _ hpfn)
  refine ⟨refs pfn ?_ free.1, hwindow ▸ free.2⟩
  rintro rfl
  exact (nodup_cons.mp nodup).1 hpfn

theorem SameShape.supply (same : SameShape core after)
  (offers : after.backend.offers = core.backend.offers)
  (hwindow : after.backend.window = core.backend.window) (supply : Supply tables core) :
  Supply tables after := by
  refine ⟨offers ▸ supply.enough, offers ▸ supply.nodup, ?_, ?_⟩
  · intro pfn hpfn
    have free := supply.free pfn (offers ▸ hpfn)
    exact ⟨(same.references pfn).trans free.1, hwindow ▸ free.2⟩
  intro shared table level child hchild
  rw [same.levelOne] at level
  rw [children_congr (same.entries table level)] at hchild
  rw [same.references]
  refine supply.room (fun htop => shared ?_) table level child hchild
  exact same.evolves.topPrivate htop

/-! ## Steps that keep every translation -/

/-- The step keeps all translations and what `Evolves` lists. -/
structure Quiet (others : List AddressSpace) (before after : Core) : Prop where
  keeps : ∀ {base pages}, Keeps base others pages before →
    Keeps base others pages after
  evolves : Evolves before after
  root : after.space.rootPfn = before.space.rootPfn

/-- The step takes at most `cost` tables. -/
def Costs (cost : Nat) (before after : Core) : Prop :=
  ∀ tables, Supply (tables + cost) before → Supply tables after

theorem Quiet.refl (core) : Quiet others core core := ⟨id, Evolves.refl core, rfl⟩

theorem Quiet.trans (hfirst : Quiet others first snd)
  (hsnd : Quiet others snd third) : Quiet others first third where
  keeps := hsnd.keeps ∘ hfirst.keeps
  evolves := hfirst.evolves.trans hsnd.evolves
  root := hsnd.root.trans hfirst.root

theorem Costs.refl (cost core) : Costs cost core core :=
  fun _ supply => supply.mono (le_add_right _ _)

theorem Costs.trans (hfirst : Costs left first snd) (hsnd : Costs right snd third) :
  Costs (left + right) first third := by
  intro tables supply
  refine hsnd tables (hfirst (tables + right) ?_)
  rwa [add_assoc, add_comm right left]

theorem Idle.quiet (idle : Idle core after)
  (hinv : Inv core.backend (core.space :: others)) : Quiet others core after where
  keeps := idle.keeps
  evolves := (idle.sameShape hinv).evolves
  root := congrArg _ idle.space

section
variable (hstep : RelinksLeaf core.backend after.backend core.space table slot
  (tableDescriptor (new * pageSize)) after.space.tablePfns) (hnew : new < 2 ^ 36)
include hinv level hprivate hroot hwindow hstep hnew
/-- Linking a leaf that shows what the slot showed before. -/
theorem quiet_of_relinksLeaf (hrow : ∀ index < tableEntries, after.backend.entries new index =
  core.backend.leafRow (core.backend.entries table slot) index) :
  Quiet others core after where
  keeps := by
    intro base pages hkeeps
    have space := space_eq_of_root hroot
    refine ⟨space ▸ hstep.inv hinv level hprivate,
      hkeeps.agree.trans (hstep.agree hinv level hprivate), hwindow.trans hkeeps.window, ?_⟩
    rw [space, hstep.view_eq hinv level ?_]
    · exact hkeeps.view
    intro index hidx
    rw [leafRow_of_pointer _ (pointer_table hnew)]
    exact hrow index hidx
  evolves := evolves_of_relinksLeaf hinv level hprivate hroot hstep (pointer_table hnew)
  root := hroot

theorem costs_of_relinksLeaf (offers : core.backend.offers = new :: after.backend.offers) :
  Costs 1 core after := by
  intro tables supply
  refine supply.take offers hwindow ?_ (topPrivate_of_relinksLeaf hinv level hroot hstep hprivate)
  intro pfn hpfn zero
  have refs := hstep.references pfn
  rw [pointer_table hnew] at refs
  simp only [indicator, some.injEq, if_neg (Ne.symm hpfn)] at refs
  omega

end

section
variable (hstep : RelinksRoot core.backend after.backend core.space
  (tableDescriptor (new * pageSize)) gained after.space.tablePfns) (hnew : new < 2 ^ 36)
include hinv hroot hwindow hstep hnew
/-- Linking a level-one table that shows what the old one showed. -/
theorem quiet_of_relinksRoot (hcopy : ∀ old, core.levelOne = some old →
  after.backend.entries new = core.backend.entries old) : Quiet others core after where
  keeps := by
    intro base pages hkeeps
    have space := space_eq_of_root hroot
    refine ⟨space ▸ hstep.inv hinv, hkeeps.agree.trans (hstep.agree hinv),
      hwindow.trans hkeeps.window, ?_⟩
    rw [space, ← hkeeps.view]
    cases hold : core.levelOne with
    | none =>
      have level := levelOne_of_relinksRoot hroot hstep (pointer_table hnew)
      rw [← space, AddressSpace.view_eq_zero, AddressSpace.view_eq_zero]
      · intro table htable
        cases hold.symm.trans htable
      intro table htable
      obtain rfl := some.inj (level.symm.trans htable)
      rw [(hstep.newSome _ (pointer_table hnew)).2.1]
      exact hstep.oldNone hold
    | some old => exact hstep.view_eq_of_copy hinv hold (pointer_table hnew) (hcopy old hold)
  evolves := evolves_of_relinksRoot hinv hroot hstep (pointer_table hnew) hcopy
  root := hroot

theorem costs_of_relinksRoot (offers : core.backend.offers = new :: after.backend.offers) :
  Costs 1 core after := by
  intro tables supply
  refine supply.take offers hwindow ?_
    (topPrivate_of_relinksRoot hinv hroot hstep (pointer_table hnew))
  intro pfn hpfn zero
  have refs := hstep.references pfn
  have hgained : gained.count pfn = 0 :=
    count_eq_zero.mpr fun hmem => hstep.gained_held hinv hmem zero
  rw [pointer_table hnew] at refs
  simp only [indicator, some.injEq, if_neg (Ne.symm hpfn)] at refs
  omega

end

/-! ## Detaching -/

section
variable {source copy : Nat}
theorem Detached.relinksLeaf (hslot : slot < tableEntries)
  (hleaf : pointer (core.backend.entries table slot) = some source)
  (detached : Detached core after table slot source copy []) :
  RelinksLeaf core.backend after.backend core.space table slot
    (tableDescriptor (copy * pageSize)) after.space.tablePfns := by
  have hcopy : copy < 2 ^ 36 := detached.free.2.lt
  refine ⟨hslot, .inr ⟨copy, hcopy, rfl⟩, detached.entry, ?_, ?_, ?_, ?_⟩
  · intro pfn hpfn held
    refine detached.elsewhere pfn hpfn ?_
    rintro rfl
    exact held detached.free.1
  · intro leaf hptr
    rw [pointer_table hcopy] at hptr
    cases hptr
    exact detached.free.1
  · intro pfn
    have balance := detached.references pfn
    rw [hleaf, pointer_table hcopy]
    simpa [indicator, eq_comm] using balance
  · intro pfn
    have balance := detached.held pfn
    rw [hleaf, pointer_table hcopy]
    simpa [indicator, eq_comm] using balance

include hinv
theorem Detached.relinksRoot (level : core.levelOne = some source)
  (hsource : 2 ≤ core.backend.references source)
  (detached : Detached core after core.space.rootPfn 0 source copy (core.backend.children source)) :
  RelinksRoot core.backend after.backend core.space (tableDescriptor (copy * pageSize))
    (core.backend.children source) after.space.tablePfns := by
  have hcopy : copy < 2 ^ 36 := detached.free.2.lt
  have level' : core.space.levelOne core.backend = some source := level
  refine ⟨.inr ⟨copy, hcopy, rfl⟩, detached.entry, ?_, ?_, ?_, ?_, ?_, ?_, ?_⟩
  · intro pfn hpfn held
    refine detached.elsewhere pfn hpfn ?_
    rintro rfl
    exact held detached.free.1
  · intro hnone
    cases level'.symm.trans hnone
  · intro table htable
    obtain rfl := some.inj (level'.symm.trans htable)
    exact ⟨rfl, .inl hsource⟩
  · intro hnone
    rw [pointer_table hcopy] at hnone
    cases hnone
  · intro table htable
    rw [pointer_table hcopy] at htable
    cases htable
    refine ⟨detached.free.1, children_congr detached.copied, ?_⟩
    rw [detached.copied]
    exact (hinv.spaceOk _ mem_cons_self).levelOneLinks source level'
  · intro pfn
    have balance := detached.references pfn
    rw [level', pointer_table hcopy]
    simpa [indicator, eq_comm] using balance
  · intro pfn
    have balance := detached.held pfn
    rw [level', pointer_table hcopy]
    simpa [indicator, eq_comm] using balance

/-- The undo lists of the running call are the same. -/
def SameUndo (before after : Core) : Prop :=
  after.created = before.created ∧ after.mapped = before.mapped

omit hinv in
theorem SameUndo.trans (hfirst : SameUndo first snd) (hsnd : SameUndo snd third) :
  SameUndo first third :=
  ⟨hsnd.1.trans hfirst.1, hsnd.2.trans hfirst.2⟩

include level
theorem detachTop_ends : Ends (detachSharedTable core.space.rootPfn 0 table 1) core
    (fun top after => Quiet others core after ∧ Costs 1 core after ∧
      SameUndo core after ∧ after.levelOne = some top ∧ TopPrivate after)
    (fun _ after => Quiet others core after ∧ SameUndo core after ∧
      ¬ TopPrivate core ∧ ¬ Supply 1 core) := by
  have hok := hinv.spaceOk _ mem_cons_self
  by_cases shared : 2 ≤ core.backend.references table
  · have hroot : core.backend.references core.space.rootPfn ≠ 0 := by
      rw [hok.rootPrivate]
      exact one_ne_zero
    have htop : ¬ TopPrivate core := by
      intro htop
      have hone := htop table level
      omega
    refine (detachTable_ends rfl hroot (by decide) shared).mono ?_ ?_
    · intro copy after detached
      have hcopy : copy < 2 ^ 36 := detached.free.2.lt
      have hstep := detached.relinksRoot hinv level shared
      refine ⟨quiet_of_relinksRoot hinv detached.root detached.window hstep hcopy ?_,
        costs_of_relinksRoot hinv detached.root detached.window hstep hcopy detached.offers,
        ⟨detached.created, detached.mapped⟩,
        levelOne_of_relinksRoot detached.root hstep (pointer_table hcopy),
        topPrivate_of_relinksRoot hinv detached.root hstep (pointer_table hcopy)⟩
      intro old hold
      obtain rfl := some.inj (level.symm.trans hold)
      exact detached.copied
    · rintro _ after ⟨idle, fails⟩
      refine ⟨idle.quiet hinv, ⟨idle.created, idle.mapped⟩, htop, fun supply => ?_⟩
      rcases fails with short | missing | ⟨child, hchild, limit⟩
      · exact short supply.offerFree
      · exact missing (hok.held table level)
      have room := supply.room htop table level child hchild
      have held := hinv.held_child mem_cons_self level hchild
      omega
  · have hone : core.backend.references table ≤ 1 := by omega
    refine (ends_of_ok (detachTable_run_private hone)).mpr
      ⟨Quiet.refl core, Costs.refl 1 core, ⟨rfl, rfl⟩, level, ?_⟩
    intro found hfound
    obtain rfl := some.inj (level.symm.trans hfound)
    exact hone

theorem detachLeaf_ends (htop : TopPrivate core) (hslot : slot < tableEntries)
  (hleaf : pointer (core.backend.entries table slot) = some source) :
  Ends (detachSharedTable table slot source 2) core
    (fun _ after => Quiet others core after ∧ Costs 1 core after ∧
      SameUndo core after ∧ TopPrivate after ∧ Calm after slot)
    (fun _ after => Quiet others core after ∧ SameUndo core after ∧
      ¬ Calm core slot ∧ ¬ (Supply 1 core ∧ Owned core slot)) := by
  have hprivate := htop table level
  by_cases shared : 2 ≤ core.backend.references source
  · have htable := (hinv.held_levelOne mem_cons_self level).ne'
    refine (detachTable_ends rfl htable hslot shared).mono ?_ ?_
    · intro copy after detached
      have hcopy : copy < 2 ^ 36 := detached.free.2.lt
      have hstep := detached.relinksLeaf hslot hleaf
      have hafter := levelOne_of_relinksLeaf hinv level detached.root hstep
      have topAfter := topPrivate_of_relinksLeaf hinv level detached.root hstep hprivate
      refine ⟨quiet_of_relinksLeaf hinv level hprivate detached.root detached.window hstep hcopy ?_,
        costs_of_relinksLeaf hinv level hprivate detached.root detached.window hstep hcopy
          detached.offers, ⟨detached.created, detached.mapped⟩, topAfter, ?_⟩
      · intro idx _
        rw [leafRow_of_pointer _ hleaf, detached.copied]
      intro found hfound leaf hptr
      obtain rfl := some.inj (hafter.symm.trans hfound)
      refine ⟨topAfter table hafter, le_of_eq (hstep.references_new hinv level ?_)⟩
      rwa [hstep.entry, Function.update_self] at hptr
    · rintro _ after ⟨idle, fails⟩
      refine ⟨idle.quiet hinv, ⟨idle.created, idle.mapped⟩, ?_, ?_⟩
      · intro calm
        have hone := (calm table level source hleaf).2
        omega
      rintro ⟨supply, owned⟩
      rcases fails with short | missing | ⟨child, hchild, -⟩
      · exact short supply.offerFree
      · exact missing (owned table level hprivate source hleaf shared)
      · cases hchild
  · have hone : core.backend.references source ≤ 1 := by omega
    refine (ends_of_ok (detachTable_run_private hone)).mpr
      ⟨Quiet.refl core, Costs.refl 1 core, ⟨rfl, rfl⟩, htop, ?_⟩
    intro found hfound leaf hptr
    obtain rfl := some.inj (level.symm.trans hfound)
    obtain rfl := some.inj (hleaf.symm.trans hptr)
    exact ⟨hprivate, hone⟩

end

/-! ## The whole path -/

/-- The level-one slot of a user address. -/
def slotOf (vaddr : Nat) : Nat := vaddr / pageSize / tableEntries

variable {vaddr : Nat}
theorem tableIndices_user (hvaddr : vaddr < userLimit) :
  tableIndices vaddr = some (0, slotOf vaddr, vaddr / pageSize % tableEntries) := by
  unfold tableIndices slotOf userLimit vaBits pageSize tableEntries at *
  rw [if_neg (by omega)]
  congr 2
  · omega
  · congr 1
    omega

theorem slotOf_lt (hvaddr : vaddr < userLimit) : slotOf vaddr < tableEntries := by
  unfold slotOf userLimit pageSize tableEntries at *
  omega

/-- Reading a link: empty, or a valid descriptor of a table. -/
theorem link_cases {descriptor} (link : IsLink descriptor) :
  descriptor = 0#64 ∧ pointer descriptor = none ∨
    descriptor ≠ 0#64 ∧ descriptorValid descriptor = true ∧
      pointer descriptor = some (descriptorPfn descriptor) := by
  rcases link with rfl | ⟨pfn, -, rfl⟩
  · exact .inl ⟨rfl, pointer_zero⟩
  · exact .inr ⟨tableDescriptor_ne_zero _, tableDescriptor_valid _,
      if_pos (tableDescriptor_valid _)⟩

/-- No other space holds a table on the path to the slot. -/
def PathPrivate (core : Core) (slot : Nat) : Prop := TopPrivate core ∧ Calm core slot

include hinv
theorem ensurePrivateExistingPath_ends (hvaddr : vaddr < userLimit) :
  Ends (ensurePrivateExistingPath vaddr) core
    (fun _ after => Quiet others core after ∧ Costs 2 core after ∧
      SameUndo core after ∧ PathPrivate after (slotOf vaddr))
    (fun _ after => Quiet others core after ∧ SameUndo core after ∧
      ¬ PathPrivate core (slotOf vaddr) ∧ ¬ (Supply 2 core ∧ Owned core (slotOf vaddr))) := by
  have slot := slotOf_lt hvaddr
  unfold ensurePrivateExistingPath
  rw [tableIndices_user hvaddr, ends_orThrow_some, ends_get_bind,
    ends_readEntry_bind (hinv.window_root mem_cons_self) (by decide : 0 < tableEntries)]
  rcases link_cases (hinv.spaceOk _ mem_cons_self).rootLink with
    ⟨zero, hnone⟩ | ⟨hne, valid, level⟩
  · rw [if_pos zero, ends_pure]
    have level : core.levelOne = none := hnone
    refine ⟨Quiet.refl core, Costs.refl 2 core, ⟨rfl, rfl⟩, ?_, ?_⟩
    · intro table htable
      cases level.symm.trans htable
    · intro table htable
      cases level.symm.trans htable
  · rw [if_neg hne, valid]
    refine Ends.bind ((detachTop_ends hinv level).mono (fun _ _ ends => ends) ?_) ?_
    · rintro _ after ⟨quiet, undo, htop, short⟩
      exact ⟨quiet, undo, fun hprivate => htop hprivate.1, fun ready =>
        short (ready.1.mono (by decide))⟩
    rintro top mid ⟨quiet, costs, undo, hmid, htop⟩
    have keeps := quiet.keeps ⟨hinv, Agree.refl _ _, rfl, rfl⟩
    have hwindow := keeps.inv.window_levelOne mem_cons_self hmid
    rw [ends_readEntry_bind hwindow slot]
    have links := (keeps.inv.spaceOk _ mem_cons_self).levelOneLinks top hmid
    rcases link_cases (links _ slot) with ⟨zero, hnone⟩ | ⟨hne, valid, hleaf⟩
    · rw [if_pos zero, ends_pure]
      refine ⟨quiet, costs.trans (Costs.refl 1 mid), undo, htop, ?_⟩
      intro table htable leaf pointer
      obtain rfl := some.inj (hmid.symm.trans htable)
      cases hnone.symm.trans pointer
    rw [if_neg hne, valid]
    refine Ends.bind ((detachLeaf_ends keeps.inv hmid htop slot hleaf).mono
      (fun _ _ ends => ends) ?_) ?_
    · rintro _ after ⟨hsnd, undoSecond, calm, short⟩
      refine ⟨quiet.trans hsnd, undo.trans undoSecond, fun hprivate => ?_, ?_⟩
      · exact calm (quiet.evolves.calm _ slot hprivate.2)
      · rintro ⟨supply, owned⟩
        exact short ⟨costs 1 supply, quiet.evolves.owned _ slot owned⟩
    · rintro _ after ⟨hsnd, costsSecond, undoSecond, hprivate⟩
      exact ends_pure.mpr ⟨quiet.trans hsnd, costs.trans costsSecond,
        undo.trans undoSecond, hprivate⟩

/-- A path without shared tables is left as it is. -/
theorem ensurePrivate_ends_private (hvaddr : vaddr < userLimit)
  (hprivate : PathPrivate core (slotOf vaddr)) :
  Ends (ensurePrivateExistingPath vaddr) core (fun _ after => after = core) (fun _ _ => False) := by
  unfold ensurePrivateExistingPath
  rw [tableIndices_user hvaddr, ends_orThrow_some, ends_get_bind,
    ends_readEntry_bind (hinv.window_root mem_cons_self) (by decide : 0 < tableEntries)]
  have hok := hinv.spaceOk _ mem_cons_self
  rcases link_cases hok.rootLink with ⟨zero, -⟩ | ⟨hne, valid, level⟩
  · rw [if_pos zero, ends_pure]
  rw [if_neg hne, valid]
  refine (ends_bind_of_ok (detachTable_run_private (hprivate.1 _ level))).mpr ?_
  rw [ends_readEntry_bind (hinv.window_levelOne mem_cons_self level) (slotOf_lt hvaddr)]
  rcases link_cases (hok.levelOneLinks _ level _ (slotOf_lt hvaddr)) with
    ⟨zero, -⟩ | ⟨hne, valid, leaf⟩
  · rw [if_pos zero, ends_pure]
  rw [if_neg hne, valid]
  exact (ends_bind_of_ok (detachTable_run_private
    (hprivate.2 _ level _ leaf).2)).mpr (ends_pure.mpr rfl)

end Core
end Smros.PageTable
