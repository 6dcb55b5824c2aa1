import Smros.Lib.Runs
import Smros.Objects.VmarMappings

/-!
# The access of mappings

A history notes for each address the rights that the VMO handle had with which the mapping
there was created.  Cutting a mapping keeps its access below those rights; protecting it
does only if the new access is.
-/

namespace Smros.Objects
open Lib List Option
open ProcessMemory (checkedAdd roundupPages)

/-- The flags give no access that the rights do not give. -/
def MmuFlags.within (flags : MmuFlags) (rights : Rights) : Bool :=
  (!flags.read || rightsHas rights .read) && (!flags.write || rightsHas rights .write) &&
    (!flags.execute || rightsHas rights .execute)

variable {rights first snd : Rights}
theorem rightsHas_or :
  rightsHas rights (first ||| snd) = (rightsHas rights first && rightsHas rights snd) := by
  rw [Bool.eq_iff_iff]
  simp only [rightsHas, Bool.and_eq_true, beq_iff_eq, BitVec.eq_of_getLsbD_eq_iff,
    BitVec.getLsbD_and, BitVec.getLsbD_or]
  grind

def VmarMapping.Covers (mapping : VmarMapping) (address : Nat) : Prop :=
  mapping.vaddr ≤ address ∧ address < mapping.vaddr + mapping.size

/-- A mapping within the rights that were granted. -/
structure Kept (granted : Nat → Rights) (mapping : VmarMapping) : Prop where
  valid : mapping.valid = true
  ends : mapping.vaddr + mapping.size < 2 ^ 64
  within : ∀ address, mapping.Covers address → mapping.mmuFlags.within (granted address)

variable {len : Nat}
namespace Vmar
def Sound (granted : Nat → Rights) (vmar : Vmar) : Prop :=
  ∀ mapping ∈ vmar.mappings, Kept granted mapping

variable {granted : Nat → Rights} {vmar : Vmar} {mapping piece : VmarMapping} {vaddr : Nat}
theorem kept_part (kept : Kept granted mapping) (hvalid : piece.valid = mapping.valid)
  (flags : piece.mmuFlags = mapping.mmuFlags) (start : mapping.vaddr ≤ piece.vaddr)
  (hstop : piece.vaddr + piece.size ≤ mapping.vaddr + mapping.size) : Kept granted piece where
  valid := hvalid.trans kept.valid
  ends := hstop.trans_lt kept.ends
  within := fun addr covers =>
    flags ▸ kept.within addr ⟨start.trans covers.1, covers.2.trans_le hstop⟩

/-- What is left of a mapping around a range that it meets. -/
theorem kept_around (kept : Kept granted mapping) (meets : mapping.meets vaddr len = true)
  (hpiece : piece ∈ mapping.below vaddr ∨ piece ∈ mapping.above (vaddr + len)) :
  Kept granted piece := by
  obtain ⟨-, -, -, bounds⟩ := meets_iff.mp meets
  simp only [VmarMapping.below, VmarMapping.above, mem_ite_nil_right, mem_singleton] at hpiece
  rcases hpiece with ⟨hlt, rfl⟩ | ⟨hlt, rfl⟩
  · exact kept_part kept rfl rfl le_rfl (by dsimp only; omega)
  · exact kept_part kept rfl rfl bounds.2.le (by dsimp only; omega)

variable {flags : MmuFlags} (hsound : vmar.Sound granted)
section
include hsound
theorem sound_of_perm {after : Vmar} (perm : after.mappings ~ vmar.mappings) :
  after.Sound granted := fun mapping hmem => hsound mapping (perm.mem_iff.mp hmem)

theorem sound_recut {pieces} (hpieces : ∀ mapping ∈ vmar.mappings, mapping.meets vaddr len = true →
    ∀ piece ∈ pieces mapping, Kept granted piece) :
  (vmar.recut vaddr len pieces).2.Sound granted := by
  unfold recut
  split
  · exact hsound
  split
  · exact hsound
  refine sound_of_perm (fun piece hpiece => ?_) sortMappings_perm
  obtain ⟨mapping, hmem, hpiece⟩ := mem_flatMap.mp hpiece
  split at hpiece
  · exact hpieces mapping hmem ‹_› piece hpiece
  · exact mem_singleton.mp hpiece ▸ hsound mapping hmem

theorem sound_unmap : (vmar.unmap vaddr len).2.Sound granted :=
  sound_recut hsound fun mapping hmem meets _ piece =>
    kept_around (hsound mapping hmem) meets (mem_append.mp piece)

/-- Protecting keeps below the rights if the new access is, where there are mappings. -/
theorem sound_protect
  (hflags : ∀ mapping ∈ vmar.mappings, ∀ addr, mapping.Covers addr → vaddr ≤ addr →
    addr < vaddr + len → flags.within (granted addr)) :
  (vmar.protect vaddr len flags).2.Sound granted := by
  refine sound_recut hsound fun mapping hmem meets piece hpiece => ?_
  obtain ⟨-, -, -, bounds⟩ := meets_iff.mp meets
  have kept := hsound mapping hmem
  rcases mem_append.mp hpiece with below | rest
  · exact kept_around kept meets (.inl below)
  rcases mem_cons.mp rest with rfl | above
  · have ends := kept.ends
    refine ⟨kept.valid, ?_, fun addr ⟨start, hstop⟩ => ?_⟩ <;>
      dsimp only [VmarMapping.withFlags] at *
    · omega
    · exact hflags mapping hmem addr ⟨by omega, by omega⟩ (by omega) (by omega)
  · exact kept_around kept meets (.inr above)

end

/-- The rights after a new mapping. -/
def overwrite (granted : Nat → Rights) (vaddr len : Nat) (rights : Rights) : Nat → Rights :=
  fun address => if vaddr ≤ address ∧ address < vaddr + len then rights else granted address

/-- A placing that succeeds leaves the region within the new rights. -/
def Placed (granted : Nat → Rights) (len : Nat) (rights : Rights) : Except ZxError Nat × Vmar → Prop
  | (.ok vaddr, after) => after.Sound (overwrite granted vaddr len rights)
  | (.error _, after) => after.Sound granted

variable {offset vmarOffset : Option Nat} {vmoHandle vmoOffset : Nat}
include hsound
/-- The range is free, so that no other mapping sees the rights change. -/
theorem Adds.placed {new answer} (adds : vmar.Adds offset len new answer)
  (hnew : ∀ vaddr, (new vaddr).vaddr = vaddr ∧ (new vaddr).size = len ∧
    (new vaddr).valid = true ∧ (new vaddr).mmuFlags.within rights) :
  Placed granted len rights answer := by
  obtain ⟨_ | vaddr, after⟩ := answer
  · exact sound_of_perm hsound adds
  obtain ⟨-, available, perm⟩ := adds
  simp only [rangeAvailable, containsRange, checkedAdd] at available
  obtain ⟨start, size, valid, within⟩ := hnew vaddr
  intro mapping hmem
  rcases mem_cons.mp (perm.mem_iff.mp hmem) with rfl | hold
  · refine ⟨valid, by grind, fun addr covers => ?_⟩
    rw [VmarMapping.Covers, start, size] at covers
    rwa [overwrite, if_pos covers]
  obtain ⟨old', ends, kept⟩ := hsound mapping hold
  refine ⟨old', ends, fun addr covers => ?_⟩
  have apart : ¬ (vaddr ≤ addr ∧ addr < vaddr + len) := by
    unfold VmarMapping.Covers at covers
    grind [meets_iff]
  rw [overwrite, if_neg apart]
  exact kept addr covers

theorem sound_map (hflags : flags.within rights) : Placed granted (roundupPages len) rights
    (vmar.map vmarOffset vmoHandle vmoOffset len flags) :=
  Adds.placed hsound map_adds fun _ => ⟨rfl, rfl, rfl, hflags⟩

theorem sound_mapExt {replaces} (hflags : flags.within rights) :
  Placed granted (roundupPages len) rights
    (vmar.mapExt vmarOffset vmoHandle vmoOffset len flags replaces) := by
  cases replaces with
  | false => exact sound_map hsound hflags
  | true =>
    rcases mapExt_cases vmar len vmoHandle vmoOffset flags vmarOffset with
      ⟨reason, unchanged⟩ | ⟨offset, vaddr, -, -, -, -, -, unmap, same⟩
    · rw [unchanged]
      exact hsound
    have cut : (vmar.unmap vaddr (roundupPages len)).2.Sound granted := sound_unmap hsound
    rw [unmap] at cut
    rw [same]
    exact sound_map cut hflags

end Vmar

/-! ## Histories -/

/-- For each region and address, the rights with which the mapping there was created. -/
structure MappingHistory where
  vmars : Vmars
  granted : Nat → Nat → Rights

/-- A call comes with the handles as they are when it is made.  Destroying a region drops
it and unmaps it in its parent. -/
inductive MappingCall where
  | create (object baseAddr size : Nat)
  | map (state : MemoryHandles) (vmarHandle : Nat) (options : VmOptions)
      (vmarOffset vmoHandle vmoOffset len : Nat)
  | unmap (state : MemoryHandles) (vmarHandle addr len : Nat)
  | protect (state : MemoryHandles) (vmarHandle : Nat) (options : VmOptions) (addr len : Nat)
  | allocate (state : MemoryHandles) (parentVmar : Nat) (options : BitVec 32)
      (offset size childHandle : Nat)
  | drop (object : Nat)
  | release (object addr len : Nat)

namespace MappingHistory
open Vmar

def new : MappingHistory := ⟨fun _ => none, fun _ _ => 0⟩

variable (history : MappingHistory)
/-- The history after a call that places a mapping. -/
def grant (state : MemoryHandles) (handle len : Nat) (rights : Rights) :
  Except ZxError Nat × Vmars → MappingHistory
  | (.error _, vmars) => { history with vmars := vmars }
  | (.ok vaddr, vmars) => ⟨vmars, fun object =>
      if state.resolveHandle handle .vmar = some object then
        overwrite (history.granted object) vaddr len rights
      else history.granted object⟩

/-- The length of a mapping is rounded by the call and by the method. -/
def step : MappingCall → MappingHistory
  | .create object baseAddr size => { history with
      vmars := if (history.vmars object).isSome then history.vmars
        else Function.update history.vmars object (some (.new baseAddr size)) }
  | .map state vmarHandle options vmarOffset vmoHandle vmoOffset len =>
    history.grant state vmarHandle (roundupPages (roundupPages len))
      ((state.handleRights vmoHandle).getD 0)
      (sysVmarMap state history.vmars vmarHandle options vmarOffset vmoHandle vmoOffset len)
  | .unmap state vmarHandle addr len =>
    { history with vmars := (sysVmarUnmap state history.vmars vmarHandle addr len).2 }
  | .protect state vmarHandle options addr len =>
    { history with vmars := (sysVmarProtect state history.vmars vmarHandle options addr len).2 }
  | .allocate state parentVmar options offset size childHandle =>
    history.grant state parentVmar (roundupPages size) (BitVec.allOnes 32)
      (sysVmarAllocate state history.vmars parentVmar options offset size childHandle)
  | .drop object => { history with vmars := Function.update history.vmars object none }
  | .release object addr len => { history with
      vmars := Function.update history.vmars object
        ((history.vmars object).map fun vmar => (vmar.unmap addr len).2) }

/-- A mapping call names a permission, or its handle has the right to read; a protection
stays within the rights of the mappings that it meets. -/
def Allowed : MappingCall → Prop
  | .map state _ options _ vmoHandle _ _ =>
    (options.contains .permRead || options.contains .permWrite ||
      options.contains .permExecute || state.handleHasRights vmoHandle .read) = true
  | .protect state vmarHandle options addr len =>
    ∀ object ∈ state.resolveHandle vmarHandle .vmar, ∀ vmar ∈ history.vmars object,
      ∀ mapping ∈ vmar.mappings, ∀ address, mapping.Covers address → addr ≤ address →
        address < addr + roundupPages len →
        (mmuFlagsFromVmOptions options).within (history.granted object address)
  | _ => True

def Sound : Prop := ∀ object, ∀ vmar ∈ history.vmars object, vmar.Sound (history.granted object)

variable {history} {state : MemoryHandles} {handle object : Nat}

section
variable (hsound : history.Sound)
include hsound
/-- A call that changes one region and grants nothing. -/
theorem sound_update {changed} (hchanged : ∀ vmar ∈ changed, vmar.Sound (history.granted object)) :
  Sound { history with vmars := Function.update history.vmars object changed } := by
  intro other vmar hvmar
  by_cases hother : other = object
  · subst hother
    exact hchanged vmar (by simpa using hvmar)
  · exact hsound other vmar (by simpa [hother] using hvmar)

theorem sound_onVmar {operation : Vmar → Except ZxError Unit × Vmar}
  (hoperation : ∀ object ∈ state.resolveHandle handle .vmar, ∀ vmar ∈ history.vmars object,
    (operation vmar).2.Sound (history.granted object)) :
  Sound { history with vmars := (onVmar state history.vmars handle operation).2 } := by
  unfold onVmar
  split
  · exact hsound
  rename_i object hobj
  split
  · exact hsound
  rename_i vmar hvmar
  refine sound_update hsound fun changed hchanged => ?_
  obtain rfl := some_inj.mp hchanged
  exact hoperation object hobj vmar hvmar

theorem sound_grant {operation} (hoperation : ∀ object vmar, vmar.Sound (history.granted object) →
    Placed (history.granted object) len rights (operation vmar)) :
  (history.grant state handle len rights (onVmar state history.vmars handle operation)).Sound := by
  unfold onVmar
  split
  · exact hsound
  rename_i object hobj
  split
  · exact hsound
  rename_i vmar hvmar
  have placed := hoperation object vmar (hsound object vmar hvmar)
  generalize operation vmar = answer at placed ⊢
  obtain ⟨_ | vaddr, after⟩ := answer
  · refine sound_update hsound fun changed hchanged => ?_
    obtain rfl := some_inj.mp hchanged
    exact placed
  intro other changed hchanged
  simp only [grant, hobj, some_inj] at hchanged ⊢
  by_cases hother : object = other
  · subst hother
    rw [Function.update_self] at hchanged
    obtain rfl := some_inj.mp hchanged
    rw [if_pos rfl]
    exact placed
  · rw [if_neg hother]
    exact hsound other changed (by simpa [Ne.symm hother] using hchanged)

end

theorem sound_new : new.Sound := fun _ _ vmar => nomatch vmar

theorem sound_step {call} (hsound : history.Sound) (allowed : history.Allowed call) :
  (history.step call).Sound := by
  cases call with
  | create obj baseAddr size =>
    simp only [step]
    split
    · exact hsound
    refine sound_update hsound fun vmar hvmar => ?_
    obtain rfl := some_inj.mp hvmar
    nofun
  | map state vmarHandle options vmarOffset vmoHandle vmoOffset len =>
    simp only [step, sysVmarMap]
    split
    · exact hsound
    split
    · exact hsound
    rename_i hrights
    split
    · exact hsound
    split
    · exact hsound
    split
    · exact hsound
    refine sound_grant hsound fun obj vmar hvmar => sound_mapExt hvmar ?_
    -- the VMO handle is one that has rights
    simp only [Bool.or_eq_true, Bool.not_eq_true', not_or, Bool.not_eq_false] at hrights
    cases found : state.handleRights vmoHandle with
    | none => simp [MemoryHandles.handleHasRights, found] at hrights
    | some rights =>
      simp only [Allowed, MemoryHandles.handleHasRights, found, any_some] at allowed hrights
      have required := hrights.2
      simp only [vmoRequiredRights, rightsHas_or, Bool.and_eq_true] at required
      unfold mmuFlagsFromVmOptions MmuFlags.within
      cases read : options.contains .permRead <;> cases write : options.contains .permWrite <;>
        cases execute : options.contains .permExecute <;> simp_all
  | unmap state vmarHandle addr len =>
    simp only [step, sysVmarUnmap]
    split
    · exact hsound
    split
    · exact hsound
    · exact sound_onVmar hsound fun obj _ vmar hvmar => sound_unmap (hsound obj vmar hvmar)
  | protect state vmarHandle options addr len =>
    simp only [step, sysVmarProtect]
    split
    · exact hsound
    split
    · exact hsound
    · exact sound_onVmar hsound fun obj hobj vmar hvmar =>
        sound_protect (hsound obj vmar hvmar) (allowed obj hobj vmar hvmar)
  | allocate state parentVmar options offset size childHandle =>
    simp only [step, sysVmarAllocate]
    split
    · exact hsound
    split
    · exact hsound
    generalize hanswer : onVmar state history.vmars parentVmar _ = answer
    have grant : (history.grant state parentVmar (roundupPages size) (BitVec.allOnes 32)
      answer).Sound := hanswer ▸ sound_grant hsound fun _ _ hvmar =>
      Adds.placed hvmar insert_adds fun _ => ⟨rfl, rfl, rfl, by simp [MmuFlags.within]⟩
    obtain ⟨_ | addr, after⟩ := answer
    · exact grant
    dsimp only
    split
    · exact grant
    refine sound_update grant fun vmar hvmar => ?_
    obtain rfl := some_inj.mp hvmar
    nofun
  | drop obj => exact sound_update hsound nofun
  | release obj addr len =>
    refine sound_update hsound fun vmar hvmar => ?_
    obtain ⟨before, hbefore, rfl⟩ := map_eq_some_iff.mp hvmar
    exact sound_unmap (hsound obj before hbefore)

/--
In every run in which each mapping call names a permission or has a handle with the right
to read, and each protection stays within the rights of the mappings that it meets, no
mapping gives access that the VMO handle with which it was created did not.
-/
theorem access_within_rights (calls : List MappingCall)
  (hallowed : Guarded Allowed step new calls) (object : Nat) (vmar : Vmar)
  (hvmar : (run step new calls).vmars object = some vmar) (mapping : VmarMapping)
  (hmem : mapping ∈ vmar.mappings) (address : Nat) (hcovers : mapping.Covers address) :
  mapping.mmuFlags.within ((run step new calls).granted object address) :=
  have hsound : (run step new calls).Sound :=
    guarded_invariant (fun _ _ => sound_step) sound_new hallowed
  (hsound object vmar hvmar mapping hmem).within address hcovers

/-- Handle 1 is of a region, and handle 2 of a VMO of one page. -/
def handlesWith (rights : Rights) : MemoryHandles :=
  ⟨[⟨1, 1, .vmar, .map ||| .opChildren⟩, ⟨2, 2, .vmo, rights⟩], fun _ => some 0x1000⟩

/-- The page is mapped for reading, with a handle for reading. -/
def readerCalls : List MappingCall :=
  [.create 1 0x10000 0x10000, .map (handlesWith (.map ||| .read)) 1 .permRead 0 2 0 0x1000]

/-- Two pages are mapped for reading and writing, and the second is then made read-only. -/
def narrowedCalls : List MappingCall :=
  let handles := { handlesWith (.map ||| .read ||| .write) with vmoLen := fun _ => some 0x2000 }
  [.create 1 0x10000 0x10000, .map handles 1 (.permRead ||| .permWrite) 0 2 0 0x2000,
    .protect handles 1 .permRead 0x11000 0x1000]

theorem narrowedCalls_allowed : Guarded Allowed step new narrowedCalls := by
  refine ⟨trivial, by simp only [Allowed]; decide, ?_, trivial⟩
  intro object hobject vmar _ mapping _ address _ hlow hhigh
  cases hobject
  have hgranted : ((new.step narrowedCalls[0]).step narrowedCalls[1]).granted 1 address =
      .map ||| .read ||| .write := if_pos ⟨le_trans (by decide : 0x10000 ≤ 0x11000) hlow, hhigh⟩
  change MmuFlags.within _ (granted (step (step new narrowedCalls[0]) narrowedCalls[1]) _ _)
  rw [hgranted]
  decide

theorem access_within_rights_reading :
    (⟨true, false, false, true⟩ : MmuFlags).within
      ((run step new narrowedCalls).granted 1 0x11000) :=
  access_within_rights narrowedCalls narrowedCalls_allowed 1
    ⟨0x10000, 0x10000, [⟨0x10000, 0x1000, 2, 0, ⟨true, true, false, true⟩, true⟩,
      ⟨0x11000, 0x1000, 2, 0x1000, ⟨true, false, false, true⟩, true⟩]⟩
    (by decide +kernel) ⟨0x11000, 0x1000, 2, 0x1000, ⟨true, false, false, true⟩, true⟩
    (by decide) 0x11000 ⟨le_rfl, by decide⟩

/-- A page that was mapped with a handle for reading is made writable; and a page is mapped
for reading with a handle that does not have the right. -/
theorem protection_raises_access : ((run step new (readerCalls ++
    [.protect (handlesWith (.map ||| .read)) 1 .permWrite 0x10000 0x1000])).vmars 1).map
      (·.mappings.map fun mapping => (mapping.vmoHandle, mapping.mmuFlags.write)) =
    some [(2, true)] ∧
  ((run step new [.create 1 0x10000 0x10000, .map (handlesWith .map) 1 0 0 2 0 0x1000]).vmars 1).map
      (·.mappings.map fun mapping => (mapping.vmoHandle, mapping.mmuFlags.read)) =
    some [(2, true)] := by
  decide +kernel

end MappingHistory
end Smros.Objects
