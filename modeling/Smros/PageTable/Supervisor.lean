import Smros.PageTable.Alone

/-!
# Supervisor blocks

`map_supervisor_range` puts 2 MiB blocks into the level-one tables, outside the user
range.  A space whose tables have one place each keeps them so, and its user pages stay.
-/

namespace Smros.PageTable
open Lib Lib.Program Function TableBackend AddressSpace

/-- `AARCH64_L2_BLOCK_SIZE`. -/
def l2BlockSize : Nat := 2 ^ 21

/-- `AARCH64_L2_BLOCK_ADDR_MASK`. -/
def l2BlockAddrMask : Descriptor := 0x0000ffffffe00000#64

def supervisorBlockDescriptor (paddr : Nat) (device executable : Bool) : Descriptor :=
  let attrIndex := if device then 1#64 <<< 2 else 0#64
  let executeNever := descUxn ||| if executable then 0#64 else descPxn
  (BitVec.ofNat 64 paddr &&& l2BlockAddrMask) ||| descValid ||| descAf ||| descInnerShareable |||
    attrIndex ||| executeNever

/-- A block is no table. -/
theorem pointer_supervisorBlock (paddr device executable) :
  pointer (supervisorBlockDescriptor paddr device executable) = none := by
  have mask : l2BlockAddrMask &&& (descValid ||| descTableOrPage) = 0#64 := by decide
  have valid : descriptorValid (supervisorBlockDescriptor paddr device executable) = false := by
    unfold descriptorValid supervisorBlockDescriptor
    simp only [BitVec.or_assoc, masked_or mask]
    revert device executable
    decide
  rw [pointer, valid]
  rfl

namespace Core
def ensureLevelTwoTable (index : Nat) : CoreM Nat := do
  let core ← get
  let descriptor ← readTableEntry core.space.rootPfn index
  if descriptor = 0#64 then
    let childPfn ← allocateTable
    let core ← get
    let childPaddr ← Program.onError
      (Program.orThrow .invalidAddress (core.backend.pfnAddress childPfn))
      (·.releaseTable childPfn)
    Program.onError (writeTableEntry core.space.rootPfn index (tableDescriptor childPaddr))
      (·.releaseTable childPfn)
    modify (·.pushTable childPfn)
    return childPfn
  else if descriptorValid descriptor then
    return descriptorPfn descriptor
  else
    throw .alreadyMapped

/-- One block of `map_supervisor_range`. -/
def mapSupervisorBlock (device executable : Bool) (current : Nat) : CoreM Unit := do
  let indices ← Program.orThrow .invalidAddress (tableIndices current)
  let tablePfn ← ensureLevelTwoTable indices.1
  let existing ← readTableEntry tablePfn indices.2.1
  if existing = 0#64 then
    writeTableEntry tablePfn indices.2.1 (supervisorBlockDescriptor current device executable)
  else if existing ≠ supervisorBlockDescriptor current device executable then
    throw .alreadyMapped

/-- The loop of `map_supervisor_range`; a block that fails leaves the earlier ones. -/
def mapSupervisorBlocks (device executable : Bool) : List Nat → CoreM Unit
  | [] => pure ()
  | current :: rest => do
      mapSupervisorBlock device executable current
      mapSupervisorBlocks device executable rest

/-- The blocks from `blockStart` to `blockEnd`. -/
def blocksBetween (blockStart blockEnd : Nat) : List Nat :=
  (List.range ((blockEnd - blockStart) / l2BlockSize)).map fun index =>
    blockStart + index * l2BlockSize

/-- `checked_add` fails at `2 ^ 64`. -/
def mapSupervisorRange (start len : Nat) (device executable : Bool) : CoreM Unit :=
  if len = 0 ∨ 2 ^ 64 ≤ start + len then
    throw .invalidAddress
  else if 2 ^ 64 ≤ start + len + (l2BlockSize - 1) then
    throw .invalidAddress
  else
    let blockStart := start / l2BlockSize * l2BlockSize
    let blockEnd := (start + len + (l2BlockSize - 1)) / l2BlockSize * l2BlockSize
    if 2 ^ vaBits < blockEnd then
      throw .invalidAddress
    else if blockStart < userLimit ∧ userBase < blockEnd then
      throw .invalidAddress
    else
      mapSupervisorBlocks device executable (blocksBetween blockStart blockEnd)

end Core

/-! ## Blocks beside the user slots -/

section
variable {roles : Nat → Option Role} {space : AddressSpace} {backend : TableBackend}
  {table index rootIndex pfn position vaddr leaf : Nat} {descriptor : Descriptor}
  (hplaced : Placed roles space backend) (htable : roles table = some (.levelOne rootIndex))
  (hindex : ¬ (Role.levelOne rootIndex).UserCell index)
/-- Only the entry itself is written. -/
theorem setEntry_beside (hne : ¬ (pfn = table ∧ position = index)) :
  (backend.setEntry table index descriptor).entries pfn position =
    backend.entries pfn position := by
  by_cases same : pfn = table
  · subst same
    exact setEntry_self_of_ne _ _ _ _ fun hpos => hne ⟨rfl, hpos⟩
  · rw [setEntry_other same]

include hplaced htable hindex
theorem Placed.writeBlock (hdescriptor : pointer descriptor = none) :
  Placed roles space (backend.setEntry table index descriptor) where
  root := hplaced.root
  held := hplaced.held
  linked {pfn role position next child} hrole hpos hchild hpointer := by
    have hne : ¬ (pfn = table ∧ position = index) := by
      rintro ⟨rfl, rfl⟩
      rw [setEntry_self, hdescriptor] at hpointer
      cases hpointer
    rw [setEntry_beside hne] at hpointer
    exact hplaced.linked hrole hpos hchild hpointer
  links {pfn role position next} hrole hchild user := by
    have hne : ¬ (pfn = table ∧ position = index) := by
      rintro ⟨rfl, rfl⟩
      cases htable.symm.trans hrole
      exact hindex user
    rw [setEntry_beside hne]
    exact hplaced.links hrole hchild user

theorem Placed.leafAt_writeBlock (user : UserAddress vaddr) :
  LeafAt space (backend.setEntry table index descriptor) (Core.slotOf vaddr) leaf ↔
    LeafAt space backend (Core.slotOf vaddr) leaf := by
  have root : space.rootPfn ≠ table := Placed.ne_of_roles hplaced.rootRole htable nofun
  have level : space.levelOne (backend.setEntry table index descriptor) = space.levelOne backend :=
    levelOne_congr (setEntry_other root)
  unfold LeafAt
  rw [level]
  refine exists_congr fun other => and_congr_right fun hother => ?_
  rw [setEntry_beside]
  rintro ⟨rfl, rfl⟩
  cases htable.symm.trans (hplaced.levelOne_role hother)
  exact hindex ⟨rfl, user.slot⟩

theorem Contents.writeBlock {pages} (contents : Contents pages space backend)
  (hdescriptor : pointer descriptor = none) :
  Contents pages space (backend.setEntry table index descriptor) := by
  intro vaddr user
  rw [← contents vaddr user]
  have after := hplaced.writeBlock htable hindex hdescriptor
  rcases hplaced.walk user with ⟨leaf, hleaf⟩ | ⟨hnone, -, view⟩
  · have hne := Placed.ne_of_roles (hleaf.role hplaced (Core.slotOf_lt user.2)) htable nofun
    rw [hleaf.view user.2, ((hplaced.leafAt_writeBlock htable hindex user).mpr hleaf).view user.2,
      setEntry_other hne]
  · rcases after.walk user with ⟨leaf, hleaf⟩ | ⟨-, -, same⟩
    · exact absurd ((hplaced.leafAt_writeBlock htable hindex user).mp hleaf) (hnone leaf)
    · rw [view, same]

end

/-! ## A space with blocks keeps its pages -/

/-- Every table of the space has one place, and the space shows the pages. -/
structure Apart (pages : PageMap) (space : AddressSpace) (backend : TableBackend) : Prop where
  placed : ∃ roles, Placed roles space backend
  contents : Contents pages space backend

variable {backend after : TableBackend}
/-- A new space shows no page. -/
theorem AddressSpace.new_apart {space} (hnew : new backend = (.ok space, after)) :
  Apart (fun _ => none) space after := by
  cases offers : backend.offers with
  | nil => simp [AddressSpace.new, allocateTable, offers] at hnew
  | cons offer rest =>
    by_cases free : backend.Free offer
    · simp only [AddressSpace.new, allocateTable, offers, free, dite_true,
        Prod.mk.injEq, Except.ok.injEq] at hnew
      obtain ⟨rfl, rfl⟩ := hnew
      have hrow : (backend.take offer rest free).entries offer = fun _ => 0#64 := update_self ..
      have hplaced : Placed (update (fun _ => none) offer (some .root))
        ⟨offer, [offer]⟩ (backend.take offer rest free) := by
        have hrole : ∀ {pfn role}, update (fun _ => none) offer (some Role.root) pfn =
          some role → pfn = offer := by
          intro pfn role hpfn
          by_contra hne
          rw [update_of_ne hne] at hpfn
          cases hpfn
        constructor
        · intro pfn
          refine ⟨hrole, ?_⟩
          rintro rfl
          exact update_self ..
        · intro pfn role hpfn
          rw [hrole hpfn]
          exact update_self ..
        · intro pfn role idx next child hpfn _ _ hptr
          rw [hrole hpfn, hrow, pointer_zero] at hptr
          cases hptr
        · intro pfn role idx next hpfn _ _
          rw [hrole hpfn, hrow]
          exact .inl rfl
      refine ⟨⟨_, hplaced⟩, fun vaddr user => ?_⟩
      rcases hplaced.walk user with ⟨leaf, table, level, -⟩ | ⟨-, -, view⟩
      · change pointer ((backend.take offer rest free).entries offer 0) = _ at level
        rw [hrow, pointer_zero] at level
        cases level
      · exact view
    · simp [AddressSpace.new, allocateTable, offers, free] at hnew

namespace Core
variable {pages : PageMap} {core : Core} (apart : Apart pages core.space core.backend)
  {index cur : Nat}
include apart
theorem ensureLevelTwoTable_apart (hidx : index < tableEntries) :
  Ends (ensureLevelTwoTable index) core
    (fun table after => ∃ roles, Placed roles after.space after.backend ∧
      Contents pages after.space after.backend ∧ roles table = some (.levelOne index))
    (fun _ after => Apart pages after.space after.backend) := by
  obtain ⟨⟨roles, hplaced⟩, contents⟩ := apart
  have root := hplaced.window hplaced.rootRole
  have held : core.backend.references core.space.rootPfn ≠ 0 := by
    rw [hplaced.held _ _ hplaced.rootRole]
    decide
  unfold ensureLevelTwoTable
  rw [ends_get_bind, ends_readEntry_bind root hidx]
  split
  · rename_i zero
    have refused (offers) : Apart pages core.space (core.backend.withOffers offers) :=
      have agree : AgreeOn roles core.backend (core.backend.withOffers offers) :=
        fun _ _ _ => ⟨rfl, rfl⟩
      ⟨⟨roles, hplaced.of_agree agree⟩, contents.of_agree hplaced agree⟩
    refine ends_allocateTable_bind (fun child rest hoffers free => ?_) fun offers _ =>
      refused offers
    have paddr : (core.withBackend (core.backend.take child rest free)).backend.pfnAddress child =
      some (child * pageSize) := if_pos free.2
    have grown : Grown core _ core.space.rootPfn index child := .of_take held free hoffers
    have taken : (core.withBackend (core.backend.take child rest free)).backend.window.Has
      core.space.rootPfn := root
    rw [ends_get_bind, paddr]
    refine (ends_bind_of_ok rfl).mpr ?_
    refine (ends_bind_of_ok (onError_writeEntry taken hidx _)).mpr ?_
    rw [ends_modify_bind, ends_pure]
    exact ⟨_, (hplaced.grown hplaced.rootRole grown rfl).of_root grown.root,
      (contents.grown hplaced hplaced.rootRole grown rfl zero).of_root grown.root, update_self ..⟩
  · split
    · rename_i valid
      rw [ends_pure]
      have hptr : pointer (core.backend.entries core.space.rootPfn index) =
        some (descriptorPfn (core.backend.entries core.space.rootPfn index)) := by
        rw [pointer, if_pos valid]
      exact ⟨roles, hplaced, contents, hplaced.linked hplaced.rootRole hidx rfl hptr⟩
    · rw [ends_throw]
      exact ⟨⟨roles, hplaced⟩, contents⟩

theorem mapSupervisorBlock_apart (device executable) (hcurrent : cur < 2 ^ vaBits)
  (supervisor : ¬ UserAddress cur) :
  Ends (mapSupervisorBlock device executable cur) core
    (fun _ after => Apart pages after.space after.backend)
    (fun _ after => Apart pages after.space after.backend) := by
  unfold mapSupervisorBlock tableIndices
  rw [if_neg (Nat.not_le.mpr hcurrent), ends_orThrow_some]
  refine .bind (ensureLevelTwoTable_apart apart (index_lt _)) ?_
  rintro table after ⟨roles, hplaced, contents, htable⟩
  rw [ends_readEntry_bind (hplaced.window htable) (index_lt _)]
  by_cases zero : after.backend.entries table (cur / 2 ^ 21 % tableEntries) = 0#64
  · have slot : ¬ (Role.levelOne (cur / 2 ^ 30 % tableEntries)).UserCell
      (cur / 2 ^ 21 % tableEntries) := fun ⟨root, slot⟩ =>
      not_userSlot_of_supervisor hcurrent supervisor root slot
    have pointer := pointer_supervisorBlock cur device executable
    rw [if_pos zero, ends_writeEntry (hplaced.window htable) (index_lt _)]
    exact ⟨⟨roles, hplaced.writeBlock htable slot pointer⟩,
      contents.writeBlock hplaced htable slot pointer⟩
  · rw [if_neg zero]
    by_cases other : after.backend.entries table (cur / 2 ^ 21 % tableEntries) ≠
      supervisorBlockDescriptor cur device executable
    · rw [if_pos other, ends_throw]
      exact ⟨⟨roles, hplaced⟩, contents⟩
    · rw [if_neg other, ends_pure]
      exact ⟨⟨roles, hplaced⟩, contents⟩

theorem mapSupervisorBlocks_apart (device executable) {blocks}
  (hblocks : ∀ cur ∈ blocks, cur < 2 ^ vaBits ∧ ¬ UserAddress cur) :
  Ends (mapSupervisorBlocks device executable blocks) core
    (fun _ after => Apart pages after.space after.backend)
    (fun _ after => Apart pages after.space after.backend) := by
  induction blocks generalizing core with
  | nil => exact ends_pure.mpr apart
  | cons cur rest ih =>
    obtain ⟨hcurrent, supervisor⟩ := hblocks cur List.mem_cons_self
    refine .bind (mapSupervisorBlock_apart apart device executable hcurrent supervisor) ?_
    intro _ after hafter
    exact ih hafter fun later hlater => hblocks later (List.mem_cons_of_mem _ hlater)

/-- Mapping a supervisor range changes no user page, whether it succeeds or fails. -/
theorem mapSupervisorRange_apart (start len device executable) :
  Ends (mapSupervisorRange start len device executable) core
    (fun _ after => Apart pages after.space after.backend)
    (fun _ after => Apart pages after.space after.backend) := by
  unfold mapSupervisorRange
  dsimp only
  split_ifs with hlen round hend user
  · exact ends_throw.mpr apart
  · exact ends_throw.mpr apart
  · exact ends_throw.mpr apart
  · exact ends_throw.mpr apart
  refine mapSupervisorBlocks_apart apart device executable fun cur hcurrent => ?_
  obtain ⟨idx, hidx, rfl⟩ := List.mem_map.mp hcurrent
  have inside := List.mem_range.mp hidx
  unfold UserAddress
  unfold vaBits userBase userLimit l2BlockSize at *
  omega

end Core
end Smros.PageTable
