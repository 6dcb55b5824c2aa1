import Smros.PageTable.Sharing

/-!
# Elementary table changes

What linking a new table, detaching a shared one, unlinking one that was created
and writing a private leaf do to the sharing invariant and to the translations.
-/

namespace Smros.PageTable
open List Function Option TableBackend AddressSpace

/-! ## Relinking a leaf below a private level-one table -/

variable {pfn table slot leaf : Nat} {other space : AddressSpace} 
  {backend after : TableBackend} {others : List AddressSpace} {link : Descriptor}
  {tablePfns : List Nat} (hinv : Inv backend (space :: others))
  (level : space.levelOne backend = some table) (hprivate : backend.references table ≤ 1)
section

/--
One entry of a private level-one table changes to `link`.  Apart from that only
tables without any holder are written, and each holder that comes or goes belongs
to the old or the new leaf of the entry.
-/
structure RelinksLeaf (backend after : TableBackend) (space : AddressSpace)
  (table slot : Nat) (link : Descriptor) (tablePfns : List Nat) : Prop where
  slot_lt : slot < tableEntries
  isLink : IsLink link
  entry : after.entries table = Function.update (backend.entries table) slot link
  elsewhere : ∀ pfn, pfn ≠ table → backend.references pfn ≠ 0 →
    after.entries pfn = backend.entries pfn
  newLeaf : ∀ leaf, pointer link = some leaf → backend.references leaf = 0
  references : ∀ pfn,
    after.references pfn + indicator (pointer (backend.entries table slot) = some pfn) =
      backend.references pfn + indicator (pointer link = some pfn)
  held : ∀ pfn, tablePfns.count pfn + indicator (pointer (backend.entries table slot) = some pfn) =
      space.tablePfns.count pfn + indicator (pointer link = some pfn)

variable (hstep : RelinksLeaf backend after space table slot link tablePfns)
include hstep
namespace RelinksLeaf
/-- Tables other than the old and the new leaf of the entry keep their holders. -/
theorem unmoved (held : backend.references pfn ≠ 0)
  (hold : pointer (backend.entries table slot) ≠ some pfn) :
  after.references pfn = backend.references pfn ∧
    tablePfns.count pfn = space.tablePfns.count pfn := by
  have references := hstep.references pfn
  have count := hstep.held pfn
  have hnew : pointer link ≠ some pfn := fun hptr => held (hstep.newLeaf pfn hptr)
  simp only [indicator, if_neg hold, if_neg hnew] at references count
  exact ⟨references, count⟩

include hinv level
theorem root_entries : after.entries space.rootPfn = backend.entries space.rootPfn := by
  have root := (hinv.spaceOk space mem_cons_self).rootPrivate
  exact hstep.elsewhere _ (hinv.levelOne_ne_root level).symm (by omega)

theorem levelOne : (⟨space.rootPfn, tablePfns⟩ : AddressSpace).levelOne after = some table := by
  unfold AddressSpace.levelOne at level ⊢
  rw [hstep.root_entries hinv level, level]

/-- The old and the new leaf of the entry are no live roots. -/
theorem references_root (hother : other ∈ space :: others) :
  after.references other.rootPfn = backend.references other.rootPfn := by
  have balance := hstep.references other.rootPfn
  have root := (hinv.spaceOk other hother).rootPrivate
  have hold : pointer (backend.entries table slot) ≠ some other.rootPfn := by
    intro hptr
    have child := mem_children.mpr ⟨slot, hstep.slot_lt, hptr⟩
    exact hinv.child_ne_root (mem_levelOnes mem_cons_self level) child hother rfl
  have hnew : pointer link ≠ some other.rootPfn := by
    intro hptr
    have free := hstep.newLeaf _ hptr
    omega
  simp only [indicator, if_neg hold, if_neg hnew] at balance
  omega

/-- The new leaf had no holder, so it is no second link to another slot's leaf. -/
theorem nodup_children : (after.children table).Nodup := by
  have nodup := (hinv.spaceOk space mem_cons_self).distinct table level
  have hrow : after.entries table = (backend.setEntry table slot link).entries table := by
    rw [hstep.entry]
    simp [setEntry]
  rw [children_congr hrow]
  refine nodup_iff_count_le_one.mpr fun child => ?_
  have count := backend.count_children_setEntry table hstep.slot_lt link child
  have before := nodup_iff_count_le_one.mp nodup child
  by_cases hnew : pointer link = some child
  · have free := hstep.newLeaf child hnew
    have hnone : (backend.children table).count child = 0 := by
      refine count_eq_zero.mpr fun hchild => ?_
      have held := hinv.held_child mem_cons_self level hchild
      omega
    rw [if_pos hnew] at count
    omega
  · rw [if_neg hnew] at count
    omega

theorem references_table : after.references table = backend.references table := by
  refine (hstep.unmoved (hinv.held_levelOne mem_cons_self level).ne' fun pointer => ?_).1
  exact hinv.child_ne_table level (mem_children.mpr ⟨slot, hstep.slot_lt, pointer⟩) rfl

theorem unmoved_slot {other} (hother : other < tableEntries) (hne : other ≠ slot)
  (hleaf : pointer (backend.entries table other) = some leaf) :
  after.references leaf = backend.references leaf ∧
    tablePfns.count leaf = space.tablePfns.count leaf := by
  have child : leaf ∈ backend.children table := mem_children.mpr ⟨other, hother, hleaf⟩
  have held := hinv.held_child mem_cons_self level child
  have nodup := (hinv.spaceOk space mem_cons_self).distinct table level
  refine hstep.unmoved (by omega) fun hold => hne ?_
  exact slot_unique_of_count (nodup_iff_count_le_one.mp nodup leaf) hother hstep.slot_lt hleaf hold

theorem references_new (hleaf : pointer link = some leaf) : after.references leaf = 1 := by
  have free := hstep.newLeaf leaf hleaf
  have references := hstep.references leaf
  have hold : pointer (backend.entries table slot) ≠ some leaf := by
    intro hptr
    have held := hinv.held_child mem_cons_self level (mem_children.mpr ⟨slot, hstep.slot_lt, hptr⟩)
    omega
  simp only [indicator, if_neg hold, if_pos hleaf] at references
  omega

theorem spaceOk : SpaceOk after ⟨space.rootPfn, tablePfns⟩ := by
  have hok := hinv.spaceOk space mem_cons_self
  have entries := hstep.root_entries hinv level
  have hafter := hstep.levelOne hinv level
  refine ⟨?_, ?_, ?_, ?_, ?_, ?_⟩
  · exact (hstep.references_root hinv level mem_cons_self).trans hok.rootPrivate
  · rw [entries]
    exact hok.rootEntries
  · rw [entries]
    exact hok.rootLink
  · intro found hfound idx hidx
    obtain rfl := some.inj (hafter.symm.trans hfound)
    rw [hstep.entry]
    by_cases hslot : idx = slot
    · rw [hslot, update_self]
      exact hstep.isLink
    · rw [update_of_ne hslot]
      exact hok.levelOneLinks table level idx hidx
  · intro found hfound
    obtain rfl := some.inj (hafter.symm.trans hfound)
    exact hstep.nodup_children hinv level
  · intro found hfound
    obtain rfl := some.inj (hafter.symm.trans hfound)
    have held := count_pos_iff.mpr (hok.held table level)
    have balance := hstep.held table
    have hold : pointer (backend.entries table slot) ≠ some table := by
      intro hptr
      exact hinv.child_ne_table level (mem_children.mpr ⟨slot, hstep.slot_lt, hptr⟩) rfl
    simp only [indicator, if_neg hold] at balance
    have hpos : 0 < tablePfns.count table := by omega
    exact count_pos_iff.mp hpos

/-- The view survives when the new leaf shows the row of the old one. -/
theorem view_eq (hrow : ∀ index < tableEntries,
  after.leafRow link index = backend.leafRow (backend.entries table slot) index) :
  (⟨space.rootPfn, tablePfns⟩ : AddressSpace).view after = space.view backend := by
  funext page
  unfold view
  rw [hstep.levelOne hinv level, level]
  dsimp only
  rw [hstep.entry]
  refine if_ctx_congr .rfl (fun hpage => ?_) fun _ => rfl
  by_cases hslot : page / tableEntries = slot
  · rw [hslot, update_self]
    exact hrow _ (Nat.mod_lt _ (by decide))
  rw [update_of_ne hslot]
  unfold leafRow
  cases hptr : pointer (backend.entries table (page / tableEntries)) with
  | none => rfl
  | some leaf =>
    have child : leaf ∈ backend.children table := mem_children.mpr ⟨_, hpage, hptr⟩
    have held := hinv.held_child mem_cons_self level child
    simp only
    rw [hstep.elsewhere leaf (hinv.child_ne_table level child) (by omega)]

include hprivate
theorem agree : Agree backend after others := by
  intro pfn hparents
  have htable : pfn ≠ table := by
    rintro rfl
    exact hparents (hinv.own_levelOne level hprivate).2.1
  exact hstep.elsewhere pfn htable fun free => hparents (hinv.parents_others_of_free free)

theorem levelOnes_eq : levelOnes after (⟨space.rootPfn, tablePfns⟩ :: others) =
    levelOnes backend (space :: others) := by
  rw [levelOnes_cons_some (hstep.levelOne hinv level), levelOnes_cons_some level,
    (hstep.agree hinv level hprivate).upper.levelOnes_eq]

theorem parents_eq (pfn) : parents after (⟨space.rootPfn, tablePfns⟩ :: others) pfn +
      indicator (pointer (backend.entries table slot) = some pfn) =
    parents backend (space :: others) pfn + indicator (pointer link = some pfn) := by
  have agree := hstep.agree hinv level hprivate
  have hnot := (hinv.own_levelOne level hprivate).1
  have hown := hstep.levelOne hinv level
  have notAfter : table ∉ levelOnes after others := by rwa [agree.upper.levelOnes_eq]
  have count := backend.count_children_setEntry table hstep.slot_lt link pfn
  have hrow : after.entries table = (backend.setEntry table slot link).entries table := by
    rw [hstep.entry]
    simp [setEntry]
  rw [parents_cons_own hown notAfter, parents_cons_own level hnot, agree.upper.parents_eq,
    children_congr hrow]
  dsimp only [indicator] at count ⊢
  omega

/-- Relinking a leaf keeps the invariant. -/
theorem inv : Inv after (⟨space.rootPfn, tablePfns⟩ :: others) := by
  have agree := hstep.agree hinv level hprivate
  refine hinv.of_focus agree.upper ?_ ?_ ?_ ?_ (hstep.spaceOk hinv level)
  · intro other hother
    exact hstep.references_root hinv level (mem_cons_of_mem _ hother)
  · intro pfn
    have before := hinv.counted pfn
    have refs := hstep.references pfn
    have held := hstep.held pfn
    rw [holders_cons] at before ⊢
    dsimp only
    omega
  · intro pfn
    have covered := hinv.covered pfn
    have refs := hstep.references pfn
    have parents := hstep.parents_eq hinv level hprivate pfn
    omega
  · rw [hstep.levelOnes_eq hinv level hprivate]
    intro left hleft other hother child
    by_cases same : other = table
    · subst same
      obtain ⟨idx, hidx, pointer⟩ := mem_children.mp child
      rw [hstep.entry] at pointer
      by_cases hslot : idx = slot
      · rw [hslot, update_self] at pointer
        have zero := hinv.parents_of_free (hstep.newLeaf left pointer)
        exact not_mem_levelOnes_of_no_parents zero hleft
      · rw [update_of_ne hslot] at pointer
        exact hinv.apart left hleft other hother (mem_children.mpr ⟨idx, hidx, pointer⟩)
    · have seen := hinv.covered other
      have parents := parents_pos_of_levelOne hother
      rw [children_congr (hstep.elsewhere other same (by omega))] at child
      exact hinv.apart left hleft other hother child

end RelinksLeaf
end

/-! ## Relinking the level-one table of a root -/

section
variable {gained : List Nat}

/--
The user entry of a root changes to `link`.  A new level-one table shows the
children of the old one, which are held once more for it; an old table is given
up only while others hold it or when it is empty.
-/
structure RelinksRoot (backend after : TableBackend) (space : AddressSpace)
  (link : Descriptor) (gained tablePfns : List Nat) : Prop where
  isLink : IsLink link
  entry : after.entries space.rootPfn = Function.update (backend.entries space.rootPfn) 0 link
  elsewhere : ∀ pfn, pfn ≠ space.rootPfn → backend.references pfn ≠ 0 →
    after.entries pfn = backend.entries pfn
  oldNone : space.levelOne backend = none → gained = []
  oldSome : ∀ table, space.levelOne backend = some table → gained = backend.children table ∧
      (2 ≤ backend.references table ∨ backend.children table = [])
  newNone : pointer link = none → gained = []
  newSome : ∀ table, pointer link = some table →
    backend.references table = 0 ∧ after.children table = gained ∧
      ∀ index < tableEntries, IsLink (after.entries table index)
  references : ∀ pfn, after.references pfn + indicator (space.levelOne backend = some pfn) =
      backend.references pfn + indicator (pointer link = some pfn) + gained.count pfn
  held : ∀ pfn, tablePfns.count pfn + indicator (space.levelOne backend = some pfn) =
      space.tablePfns.count pfn + indicator (pointer link = some pfn) + gained.count pfn

variable (hstep : RelinksRoot backend after space link gained tablePfns)
include hstep
namespace RelinksRoot
theorem levelOne : (⟨space.rootPfn, tablePfns⟩ : AddressSpace).levelOne after = pointer link := by
  unfold AddressSpace.levelOne
  rw [hstep.entry, update_self]

/-- Gained tables are children of a live level-one table. -/
theorem mem_gained (hgained : pfn ∈ gained) :
  ∃ table, space.levelOne backend = some table ∧ pfn ∈ backend.children table := by
  cases level : space.levelOne backend with
  | none =>
    rw [hstep.oldNone level] at hgained
    cases hgained
  | some table =>
    rw [(hstep.oldSome table level).1] at hgained
    exact ⟨table, rfl, hgained⟩

include hinv
theorem agree : Agree backend after others := by
  intro pfn hparents
  have root : pfn ≠ space.rootPfn := by
    rintro rfl
    exact hparents hinv.parents_others_root
  exact hstep.elsewhere pfn root fun free => hparents (hinv.parents_others_of_free free)

theorem references_root (hother : other ∈ space :: others) :
  after.references other.rootPfn = backend.references other.rootPfn := by
  have balance := hstep.references other.rootPfn
  have root := (hinv.spaceOk other hother).rootPrivate
  have hold : space.levelOne backend ≠ some other.rootPfn := fun level =>
    hinv.root_ne_levelOne (mem_levelOnes mem_cons_self level) hother rfl
  have hnew : pointer link ≠ some other.rootPfn := by
    intro hptr
    have free := (hstep.newSome _ hptr).1
    omega
  have hgained : gained.count other.rootPfn = 0 := by
    refine count_eq_zero.mpr fun hmem => ?_
    obtain ⟨table, level, child⟩ := hstep.mem_gained hmem
    exact hinv.child_ne_root (mem_levelOnes mem_cons_self level) child hother rfl
  simp only [indicator, if_neg hold, if_neg hnew] at balance
  omega

/-- Gained tables have a holder already. -/
theorem gained_held (hgained : pfn ∈ gained) : backend.references pfn ≠ 0 := by
  obtain ⟨table, level, child⟩ := hstep.mem_gained hgained
  have held := hinv.held_child mem_cons_self level child
  omega

variable {left right old new : Nat}
theorem references_new (htable : pointer link = some table) : after.references table = 1 := by
  have free := (hstep.newSome table htable).1
  have references := hstep.references table
  have hold : space.levelOne backend ≠ some table := fun level =>
    (hinv.held_levelOne mem_cons_self level).ne' free
  have hgained : gained.count table = 0 :=
    count_eq_zero.mpr fun hmem => hstep.gained_held hinv hmem free
  simp only [indicator, if_neg hold, if_pos htable] at references
  omega

/-- A gained table is in the new list of the space. -/
theorem gained_mem (hgained : pfn ∈ gained) : pfn ∈ tablePfns := by
  obtain ⟨table, level, child⟩ := hstep.mem_gained hgained
  have held := hstep.held pfn
  have hold : space.levelOne backend ≠ some pfn := by
    rintro same
    obtain rfl := some.inj (level.symm.trans same)
    exact hinv.child_ne_table level child rfl
  have count := count_pos_iff.mpr hgained
  simp only [indicator, if_neg hold] at held
  have hpos : 0 < tablePfns.count pfn := by omega
  exact count_pos_iff.mp hpos

/-- A new level-one table is not in use by another space. -/
theorem new_not_mem (hptr : pointer link = some table) : table ∉ levelOnes after others := by
  rw [(hstep.agree hinv).upper.levelOnes_eq]
  exact not_mem_levelOnes_of_no_parents (hinv.parents_others_of_free (hstep.newSome table hptr).1)

/-- The parents after the step, in terms of the other spaces. -/
theorem parents_after (pfn) : parents after (⟨space.rootPfn, tablePfns⟩ :: others) pfn =
    indicator (pfn = space.rootPfn) + indicator (pointer link = some pfn) +
      gained.count pfn + parents backend others pfn := by
  have agree := hstep.agree hinv
  have level := hstep.levelOne
  cases hptr : pointer link with
  | none =>
    rw [hptr] at level
    rw [parents_cons_none level, agree.upper.parents_eq, hstep.newNone hptr]
    simp [indicator]
  | some table =>
    rw [hptr] at level
    rw [parents_cons_own level (hstep.new_not_mem hinv hptr), agree.upper.parents_eq,
      (hstep.newSome table hptr).2.1]
    simp [indicator, eq_comm]

/-- The parents after the step; what the old table no longer leads to is lost. -/
theorem parents_le (pfn) : parents after (⟨space.rootPfn, tablePfns⟩ :: others) pfn +
      indicator (space.levelOne backend = some pfn) ≤
    parents backend (space :: others) pfn + indicator (pointer link = some pfn) +
      gained.count pfn := by
  rw [hstep.parents_after hinv]
  cases level : space.levelOne backend with
  | none =>
    rw [parents_cons_none level]
    simp only [indicator, reduceCtorEq, if_false]
    omega
  | some table =>
    simp only [indicator, some.injEq, eq_comm (a := table)]
    by_cases shared : table ∈ levelOnes backend others
    · rw [parents_cons_shared level shared]
      simp only [indicator]
      omega
    · rw [parents_cons_own level shared]
      simp only [indicator]
      omega

theorem spaceOk : SpaceOk after ⟨space.rootPfn, tablePfns⟩ := by
  have hok := hinv.spaceOk space mem_cons_self
  have hafter := hstep.levelOne
  refine ⟨?_, ?_, ?_, ?_, ?_, ?_⟩
  · exact (hstep.references_root hinv mem_cons_self).trans hok.rootPrivate
  · intro idx hidx hne
    rw [hstep.entry, update_of_ne hne]
    exact hok.rootEntries idx hidx hne
  · rw [hstep.entry, update_self]
    exact hstep.isLink
  · intro table htable
    exact (hstep.newSome table (hafter.symm.trans htable)).2.2
  · intro table htable
    rw [(hstep.newSome table (hafter.symm.trans htable)).2.1]
    cases hold : space.levelOne backend with
    | none =>
      rw [hstep.oldNone hold]
      exact nodup_nil
    | some old =>
      rw [(hstep.oldSome old hold).1]
      exact hok.distinct old hold
  · intro table htable
    have pointer := hafter.symm.trans htable
    have free := (hstep.newSome table pointer).1
    have balance := hstep.held table
    have hold : space.levelOne backend ≠ some table := fun level =>
      (hinv.held_levelOne mem_cons_self level).ne' free
    simp only [indicator, if_neg hold, if_pos pointer] at balance
    have hpos : 0 < tablePfns.count table := by omega
    exact count_pos_iff.mp hpos

theorem apart (hleft : left ∈ levelOnes after (⟨space.rootPfn, tablePfns⟩ :: others))
  (hright : right ∈ levelOnes after (⟨space.rootPfn, tablePfns⟩ :: others)) :
  left ∉ after.children right := by
  have agree := hstep.agree hinv
  have hothers : ∀ table, table ∈ levelOnes backend others →
    table ∈ levelOnes backend (space :: others) := by
    intro table htable
    obtain ⟨other, hother, level⟩ := mem_filterMap.mp htable
    exact mem_levelOnes (mem_cons_of_mem _ hother) level
  -- each of the two tables is the new one, without parents so far, or another space's
  have hcases : ∀ table, table ∈ levelOnes after (⟨space.rootPfn, tablePfns⟩ :: others) →
    pointer link = some table ∨ table ∈ levelOnes backend others := by
    intro table htable
    obtain ⟨other, hother, level⟩ := mem_filterMap.mp htable
    rcases mem_cons.mp hother with rfl | hother
    · exact .inl (hstep.levelOne.symm.trans level)
    · rw [← agree.upper.levelOnes_eq]
      exact .inr (mem_levelOnes hother level)
  have hnew : ∀ table, pointer link = some table →
    ∀ parent ∈ levelOnes backend (space :: others), table ∉ backend.children parent := by
    intro table hptr parent hparent child
    have zero := hinv.parents_of_free (hstep.newSome table hptr).1
    exact Nat.ne_of_gt (parents_pos_of_child hparent child) zero
  rcases hcases right hright with hptr | hright
  · rw [(hstep.newSome right hptr).2.1]
    intro gained
    obtain ⟨table, level, child⟩ := hstep.mem_gained gained
    have htable : table ∈ levelOnes backend (space :: others) := mem_levelOnes mem_cons_self level
    rcases hcases left hleft with hptr | hleft
    · exact hnew left hptr table htable child
    · exact hinv.apart left (hothers left hleft) table htable child
  · rw [agree.upper.children hright]
    rcases hcases left hleft with hptr | hleft
    · exact hnew left hptr right (hothers right hright)
    · exact hinv.apart left (hothers left hleft) right (hothers right hright)

/-- Relinking the level-one table keeps the invariant. -/
theorem inv : Inv after (⟨space.rootPfn, tablePfns⟩ :: others) := by
  refine hinv.of_focus (hstep.agree hinv).upper ?_ ?_ ?_ ?_ (hstep.spaceOk hinv)
  · intro other hother
    exact hstep.references_root hinv (mem_cons_of_mem _ hother)
  · intro pfn
    have before := hinv.counted pfn
    have refs := hstep.references pfn
    have held := hstep.held pfn
    rw [holders_cons] at before ⊢
    dsimp only
    omega
  · intro pfn
    have covered := hinv.covered pfn
    have refs := hstep.references pfn
    have parents := hstep.parents_le hinv pfn
    omega
  · intro left hleft right hright
    exact hstep.apart hinv hleft hright

/-- A copied level-one table shows the same pages. -/
theorem view_eq_of_copy (hold : space.levelOne backend = some old) (hnew : pointer link = some new)
  (copy : after.entries new = backend.entries old) :
  (⟨space.rootPfn, tablePfns⟩ : AddressSpace).view after = space.view backend := by
  funext page
  unfold view
  rw [hstep.levelOne, hnew, hold]
  dsimp only
  rw [copy]
  refine if_ctx_congr .rfl (fun hpage => ?_) fun _ => rfl
  unfold leafRow
  cases hptr : pointer (backend.entries old (page / tableEntries)) with
  | none => rfl
  | some leaf =>
    have child : leaf ∈ backend.children old := mem_children.mpr ⟨_, hpage, hptr⟩
    have hmem : old ∈ levelOnes backend (space :: others) := mem_levelOnes mem_cons_self hold
    have parents := parents_pos_of_child hmem child
    have covered := hinv.covered leaf
    have root := hinv.child_ne_root hmem child mem_cons_self
    simp only
    rw [hstep.elsewhere leaf root.symm (by omega)]

end RelinksRoot
end

/-- A space whose level-one table has no children shows no page. -/
theorem AddressSpace.view_eq_zero {backend}
  (empty : ∀ table, space.levelOne backend = some table → backend.children table = []) :
  space.view backend = fun _ => 0#64 := by
  funext page
  unfold view
  cases level : space.levelOne backend with
  | none => rfl
  | some table =>
    refine ite_eq_right_iff.mpr fun hpage => ?_
    unfold leafRow
    cases hptr : pointer (backend.entries table (page / tableEntries)) with
    | none => rfl
    | some leaf =>
      have child : leaf ∈ backend.children table := mem_children.mpr ⟨_, hpage, hptr⟩
      rw [empty table level] at child
      cases child

/-! ## Writing a private leaf -/

variable {index : Nat}
/-- The page that a level-one slot and a leaf index translate. -/
def pageOf (slot index : Nat) : Nat := slot * tableEntries + index

section
variable (hindex : index < tableEntries)
include hindex
theorem pageOf_div : pageOf slot index / tableEntries = slot := by
  unfold pageOf tableEntries at *
  omega

theorem pageOf_mod : pageOf slot index % tableEntries = index := by
  unfold pageOf tableEntries at *
  omega

variable {page : Nat}
theorem eq_pageOf_iff :
  page = pageOf slot index ↔ page / tableEntries = slot ∧ page % tableEntries = index := by
  unfold pageOf tableEntries at *
  omega

end

variable (hslot : slot < tableEntries)
  (hleaf : pointer (backend.entries table slot) = some leaf) (hone : backend.references leaf ≤ 1)
include hinv level hslot hleaf
/-- A leaf is neither a root nor a level-one table, so writing it moves no table. -/
theorem Inv.writeLeaf_inv (descriptor) :
  Inv (backend.setEntry leaf index descriptor) (space :: others) := by
  have child : leaf ∈ backend.children table := mem_children.mpr ⟨slot, hslot, hleaf⟩
  have htable : table ∈ levelOnes backend (space :: others) := mem_levelOnes mem_cons_self level
  refine hinv.of_agree ?_ fun _ => rfl
  rintro pfn (root | hmem)
  · obtain ⟨other, hother, rfl⟩ := mem_map.mp root
    exact backend.setEntry_of_ne leaf index descriptor (hinv.child_ne_root htable child hother)
  · refine backend.setEntry_of_ne leaf index descriptor ?_
    rintro rfl
    exact hinv.apart pfn hmem table htable child

include hprivate hone
theorem Inv.writeLeaf_agree (descriptor) :
  Agree backend (backend.setEntry leaf index descriptor) others := by
  intro pfn parents
  refine backend.setEntry_of_ne leaf index descriptor ?_
  rintro rfl
  exact parents (hinv.own_leaf level hprivate (mem_children.mpr ⟨slot, hslot, hleaf⟩) hone).1

/-- Writing a private leaf changes the one page it is for. -/
theorem Inv.writeLeaf_view (hidx : index < tableEntries) (descriptor) :
  space.view (backend.setEntry leaf index descriptor) =
    update (space.view backend) (pageOf slot index) descriptor := by
  have child : leaf ∈ backend.children table := mem_children.mpr ⟨slot, hslot, hleaf⟩
  have htable : table ∈ levelOnes backend (space :: others) := mem_levelOnes mem_cons_self level
  have root := hinv.child_ne_root htable child mem_cons_self
  have after : space.levelOne (backend.setEntry leaf index descriptor) = some table := by
    rw [← level]
    exact levelOne_congr (backend.setEntry_of_ne leaf index _ root)
  have hrow := backend.setEntry_of_ne leaf index descriptor (hinv.child_ne_table level child).symm
  funext page
  by_cases hpage : page = pageOf slot index
  · subst hpage
    rw [update_self]
    unfold view
    rw [after]
    dsimp only
    rw [pageOf_div hidx, pageOf_mod hidx, if_pos hslot, hrow,
      leafRow_of_pointer _ hleaf, setEntry_self]
  · rw [update_of_ne hpage]
    unfold view
    rw [after, level]
    dsimp only
    rw [hrow]
    refine if_ctx_congr .rfl (fun slotPage => ?_) fun _ => rfl
    unfold leafRow
    cases hptr : pointer (backend.entries table (page / tableEntries)) with
    | none => rfl
    | some other =>
      dsimp only
      by_cases same : other = leaf
      · -- the leaf has one slot, so only another index of it is left
        subst same
        have count := (hinv.own_leaf level hprivate child hone).2
        have slots := slot_unique_of_count (Nat.le_of_eq count) slotPage hslot hptr hleaf
        refine backend.setEntry_self_of_ne other index descriptor fun hmod => hpage ?_
        exact (eq_pageOf_iff hidx).mpr ⟨slots, hmod⟩
      · rw [backend.setEntry_of_ne leaf index descriptor same]

end Smros.PageTable
