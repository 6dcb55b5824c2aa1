import Smros.PageTable.Accounting

/-!
# The sharing invariant

The invariant of a family of address spaces over one backend, and what it says
about the tables of the space at work and those of the others.
-/

namespace Smros.PageTable
open List

/-- What a live space looks like on its own. -/
structure SpaceOk (backend : TableBackend) (space : AddressSpace) : Prop where
  rootPrivate : backend.references space.rootPfn = 1
  rootEntries : ∀ index < tableEntries, index ≠ 0 → backend.entries space.rootPfn index = 0#64
  rootLink : IsLink (backend.entries space.rootPfn 0)
  levelOneLinks : ∀ table, space.levelOne backend = some table →
    ∀ index < tableEntries, IsLink (backend.entries table index)
  distinct : ∀ table, space.levelOne backend = some table → (backend.children table).Nodup
  held : ∀ table, space.levelOne backend = some table → table ∈ space.tablePfns

/--
Holder counts are exact, no table has more parents than holders, and level-one
tables are never leaves.
-/
structure Inv (backend : TableBackend) (spaces : List AddressSpace) :
  Prop where
  counted : ∀ pfn, backend.references pfn = holders spaces pfn
  covered : ∀ pfn, parents backend spaces pfn ≤ backend.references pfn
  apart : ∀ table ∈ levelOnes backend spaces, ∀ other ∈ levelOnes backend spaces,
    table ∉ backend.children other
  spaceOk : ∀ space ∈ spaces, SpaceOk backend space

variable {pfn leaf table : Nat} {backend after : TableBackend}
  {spaces left right : List AddressSpace} {space : AddressSpace}
theorem SpaceOk.of_agree (hok : SpaceOk backend space) (agree : AgreeUpper backend after spaces)
  (hspace : space ∈ spaces)
  (root : after.references space.rootPfn = backend.references space.rootPfn) :
  SpaceOk after space := by
  have entries := agree _ (.inl (mem_map_of_mem hspace))
  have level := agree.levelOne hspace
  refine ⟨root.trans hok.rootPrivate, ?_, ?_, ?_, ?_, ?_⟩
  · rw [entries]
    exact hok.rootEntries
  · rw [entries]
    exact hok.rootLink
  · intro table htable
    rw [level] at htable
    rw [agree _ (.inr (mem_levelOnes hspace htable))]
    exact hok.levelOneLinks table htable
  · intro table htable
    rw [level] at htable
    rw [agree.children (mem_levelOnes hspace htable)]
    exact hok.distinct table htable
  · intro table htable
    rw [level] at htable
    exact hok.held table htable

section
variable (hinv : Inv backend spaces)
include hinv
/-- A change below the level-one tables keeps the invariant. -/
theorem Inv.of_agree (agree : AgreeUpper backend after spaces)
  (refs : ∀ pfn, after.references pfn = backend.references pfn) : Inv after spaces where
  counted pfn := (refs pfn).trans (hinv.counted pfn)
  covered pfn := by
    rw [agree.parents_eq, refs]
    exact hinv.covered pfn
  apart table htable other hother := by
    rw [agree.levelOnes_eq] at htable hother
    rw [agree.children hother]
    exact hinv.apart table htable other hother
  spaceOk space hspace := (hinv.spaceOk space hspace).of_agree agree hspace (refs _)

/-- A free table has no parent. -/
theorem Inv.parents_of_free (free : backend.references pfn = 0) : parents backend spaces pfn = 0 :=
  Nat.le_zero.mp (free ▸ hinv.covered pfn)

/-- Whatever has a parent lies in the frame window. -/
theorem Inv.window_of_parents (hparents : 0 < parents backend spaces pfn) :
  backend.window.Has pfn :=
  backend.references_window pfn (Nat.ne_of_gt (Nat.lt_of_lt_of_le hparents (hinv.covered pfn)))

theorem Inv.window_root (hspace : space ∈ spaces) : backend.window.Has space.rootPfn :=
  hinv.window_of_parents (parents_pos_of_root hspace)

variable (hspace : space ∈ spaces)
include hspace
theorem Inv.window_levelOne (htable : space.levelOne backend = some table) :
  backend.window.Has table :=
  hinv.window_of_parents (parents_pos_of_levelOne (mem_levelOnes hspace htable))

theorem Inv.held_levelOne (level : space.levelOne backend = some table) :
  0 < backend.references table :=
  (parents_pos_of_levelOne (mem_levelOnes hspace level)).trans_le (hinv.covered table)

theorem Inv.held_child (level : space.levelOne backend = some table)
  (hleaf : leaf ∈ backend.children table) : 0 < backend.references leaf :=
  (parents_pos_of_child (mem_levelOnes hspace level) hleaf).trans_le (hinv.covered leaf)

theorem Inv.window_child (htable : space.levelOne backend = some table)
  (hleaf : leaf ∈ backend.children table) : backend.window.Has leaf :=
  hinv.window_of_parents (parents_pos_of_child (mem_levelOnes hspace htable) hleaf)

end

theorem levelOnes_perm (backend) (perm : left.Perm right) :
  (levelOnes backend left).Perm (levelOnes backend right) :=
  perm.filterMap _

theorem holders_perm (perm : left.Perm right) (pfn) : holders left pfn = holders right pfn :=
  (perm.flatMap_right _).count_eq pfn

theorem parents_perm (perm : left.Perm right) (pfn) :
  parents backend left pfn = parents backend right pfn := by
  have levels := levelOnes_perm backend perm
  unfold parents
  rw [(perm.map (·.rootPfn)).count_eq, levels.count_eq,
    (levels.dedup.flatMap_right backend.children).count_eq]

theorem Inv.perm (hinv : Inv backend left) (perm : left.Perm right) :
  Inv backend right where
  counted pfn := (hinv.counted pfn).trans (holders_perm perm pfn)
  covered pfn := parents_perm perm pfn ▸ hinv.covered pfn
  apart table htable other hother :=
    hinv.apart table ((levelOnes_perm backend perm).mem_iff.mpr htable) other
      ((levelOnes_perm backend perm).mem_iff.mpr hother)
  spaceOk space hspace := hinv.spaceOk space (perm.mem_iff.mpr hspace)

/-! ## The space at work and the others -/

variable {other : AddressSpace} {others : List AddressSpace}
theorem parents_others_le (pfn) :
  parents backend others pfn ≤ parents backend (space :: others) pfn := by
  cases level : space.levelOne backend with
  | none => rw [parents_cons_none level]; omega
  | some table =>
    by_cases shared : table ∈ levelOnes backend others
    · rw [parents_cons_shared level shared]; omega
    · rw [parents_cons_own level shared]; omega

theorem Inv.parents_others_of_free (hinv : Inv backend (space :: others)) {pfn}
  (free : backend.references pfn = 0) : parents backend others pfn = 0 :=
  Nat.le_zero.mp ((parents_others_le pfn).trans (hinv.parents_of_free free).le)

theorem parents_others_root_lt (root : pfn = space.rootPfn) :
  parents backend others pfn < parents backend (space :: others) pfn := by
  cases level : space.levelOne backend with
  | none => rw [parents_cons_none level]; simp only [indicator, if_pos root]; omega
  | some table =>
    by_cases shared : table ∈ levelOnes backend others
    · rw [parents_cons_shared level shared]; simp only [indicator, if_pos root]; omega
    · rw [parents_cons_own level shared]; simp only [indicator, if_pos root]; omega

/-- No other space reaches the root of this one. -/
theorem Inv.parents_others_root (hinv : Inv backend (space :: others)) :
  parents backend others space.rootPfn = 0 := by
  have hone := (hinv.spaceOk space mem_cons_self).rootPrivate
  have covered := hinv.covered space.rootPfn
  have hown : parents backend others space.rootPfn < parents backend (space :: others) _ :=
    parents_others_root_lt rfl
  omega

/-- A level-one table with one holder is reached from this space only. -/
theorem Inv.own_levelOne (hinv : Inv backend (space :: others))
  (level : space.levelOne backend = some table) (hprivate : backend.references table ≤ 1) :
  table ∉ levelOnes backend others ∧ parents backend others table = 0 ∧ table ≠ space.rootPfn := by
  have covered := hinv.covered table
  have hnot : table ∉ levelOnes backend others := by
    intro shared
    have hpos := parents_pos_of_levelOne shared
    rw [parents_cons_shared level shared] at covered
    simp only [indicator, if_true] at covered
    omega
  rw [parents_cons_own level hnot] at covered
  refine ⟨hnot, ?_, ?_⟩
  · simp only [indicator, if_true] at covered
    omega
  · intro root
    simp only [indicator, if_pos root, if_true] at covered
    omega

/-- No table links to the root of a live space. -/
theorem Inv.root_unlinked (hinv : Inv backend spaces) (hother : other ∈ spaces) :
  other.rootPfn ∉ levelOnes backend spaces ∧
    other.rootPfn ∉ (levelOnes backend spaces).dedup.flatMap backend.children := by
  have root := (hinv.spaceOk other hother).rootPrivate
  have covered := hinv.covered other.rootPfn
  have hfirst : 0 < (spaces.map (·.rootPfn)).count other.rootPfn :=
    count_pos_iff.mpr (mem_map_of_mem hother)
  unfold parents at covered
  rw [← count_eq_zero, ← count_eq_zero]
  omega

/-- A level-one table is never the root of a space. -/
theorem Inv.root_ne_levelOne (hinv : Inv backend spaces)
  (htable : table ∈ levelOnes backend spaces) (hother : other ∈ spaces) : other.rootPfn ≠ table :=
  fun same => (hinv.root_unlinked hother).1 (same ▸ htable)

theorem Inv.levelOne_ne_root (hinv : Inv backend (space :: others))
  (level : space.levelOne backend = some table) : table ≠ space.rootPfn :=
  (hinv.root_ne_levelOne (mem_levelOnes mem_cons_self level) mem_cons_self).symm

/-- A child is not the root of any live space. -/
theorem Inv.child_ne_root (hinv : Inv backend spaces)
  (htable : table ∈ levelOnes backend spaces) (hleaf : leaf ∈ backend.children table)
  (hother : other ∈ spaces) : other.rootPfn ≠ leaf := fun same =>
  (hinv.root_unlinked hother).2 (same ▸ mem_flatMap.mpr ⟨table, mem_dedup.mpr htable, hleaf⟩)

variable (hinv : Inv backend (space :: others))
include hinv
/-- A leaf with one holder below a level-one table with one holder is this space's. -/
theorem Inv.own_leaf (level : space.levelOne backend = some table)
  (hprivate : backend.references table ≤ 1) (hleaf : leaf ∈ backend.children table)
  (hone : backend.references leaf ≤ 1) :
  parents backend others leaf = 0 ∧ (backend.children table).count leaf = 1 := by
  obtain ⟨hnot, -, -⟩ := hinv.own_levelOne level hprivate
  have covered := hinv.covered leaf
  have own := parents_cons_own level hnot leaf
  have hpos := count_pos_iff.mpr hleaf
  omega

theorem Inv.child_ne_table (level : space.levelOne backend = some table)
  (hleaf : leaf ∈ backend.children table) : leaf ≠ table := by
  rintro rfl
  have hmem : leaf ∈ levelOnes backend (space :: others) := mem_levelOnes mem_cons_self level
  exact hinv.apart leaf hmem leaf hmem hleaf

variable {changed : AddressSpace}
/-- Reassemble the invariant after a step of one space. -/
theorem Inv.of_focus {after} (agree : AgreeUpper backend after others)
  (roots : ∀ other ∈ others, after.references other.rootPfn = backend.references other.rootPfn)
  (hcounted : ∀ pfn, after.references pfn = holders (changed :: others) pfn)
  (hcovered : ∀ pfn, parents after (changed :: others) pfn ≤ after.references pfn)
  (hapart : ∀ table ∈ levelOnes after (changed :: others),
    ∀ other ∈ levelOnes after (changed :: others), table ∉ after.children other)
  (hchanged : SpaceOk after changed) : Inv after (changed :: others) where
  counted := hcounted
  covered := hcovered
  apart := hapart
  spaceOk other hother := by
    rcases mem_cons.mp hother with rfl | hother
    · exact hchanged
    · exact (hinv.spaceOk other (mem_cons_of_mem _ hother)).of_agree agree hother
        (roots other hother)

end Smros.PageTable
