import Smros.Objects.Vmar

/-!
# The mappings of a region

A new mapping is added where no other is.  A request to map over others first cuts its
range out of the mappings and then adds the new one.  The adding tests the offsets again,
which has no effect in a region that starts at a page: the cut has tested the address.
-/

namespace Smros.Objects
open List
open ProcessMemory (checkedAdd checkedMul pageAligned rangesOverlap roundupPages)

/-- The VMO, the place in it and the access that a mapping gives an address. -/
def VmarMapping.page (mapping : VmarMapping) (address : Nat) : Nat × Nat × MmuFlags :=
  (mapping.vmoHandle, mapping.vmoOffset + (address - mapping.vaddr), mapping.mmuFlags)

/-- What unmapping a range leaves of a mapping. -/
def VmarMapping.cut (mapping : VmarMapping) (vaddr len : Nat) : List VmarMapping :=
  if mapping.meets vaddr len then mapping.below vaddr ++ mapping.above (vaddr + len)
  else [mapping]

namespace Vmar
/-- A mapping of the region gives the address that page. -/
def Shows (vmar : Vmar) (address : Nat) (page : Nat × Nat × MmuFlags) : Prop :=
  ∃ mapping ∈ vmar.mappings, mapping.meets address 1 ∧ mapping.page address = page

def cutOut (vmar : Vmar) (vaddr len : Nat) : Vmar :=
  sortMappings ⟨vmar.baseAddr, vmar.size, vmar.mappings.flatMap (·.cut vaddr len)⟩

variable {vmar : Vmar} {mapping piece : VmarMapping} {vaddr len addr vmo first : Nat}
  {page : Nat × Nat × MmuFlags} {flags : MmuFlags} {wanted : Option Nat}
theorem meets_iff : mapping.meets vaddr len = true ↔ mapping.valid = true ∧ vaddr + len < 2 ^ 64 ∧
    mapping.vaddr + mapping.size < 2 ^ 64 ∧ vaddr < mapping.vaddr + mapping.size ∧
      mapping.vaddr < vaddr + len := by
  unfold VmarMapping.meets rangesOverlap checkedAdd
  grind

theorem sortMappings_perm : vmar.sortMappings.mappings ~ vmar.mappings := perm_insertionSort _ _

/-! ## Adding a mapping -/

/-- A mapping is added where it was asked for and no other is, or the mappings stay. -/
def Adds (vmar : Vmar) (wanted : Option Nat) (len : Nat) (new : Nat → VmarMapping) :
  Except ZxError Nat × Vmar → Prop
  | (.error _, after) => after.mappings ~ vmar.mappings
  | (.ok vaddr, after) => (∀ offset ∈ wanted, checkedAdd vmar.baseAddr offset = some vaddr) ∧
    vmar.rangeAvailable vaddr len = true ∧ after.mappings ~ new vaddr :: vmar.mappings

theorem insert_adds {align new} : vmar.Adds wanted len new (vmar.insert wanted len align new) := by
  have placed : (vmar.place wanted len align).2.mappings ~ vmar.mappings ∧
    (vmar.place wanted len align).2.containsRange = vmar.containsRange ∧
    ∀ vaddr, (vmar.place wanted len align).1 = .ok vaddr →
      ∀ offset ∈ wanted, checkedAdd vmar.baseAddr offset = some vaddr := by
    cases wanted with
    | none => exact ⟨sortMappings_perm, rfl, by simp⟩
    | some offset =>
      refine ⟨.refl _, rfl, ?_⟩
      cases start : checkedAdd vmar.baseAddr offset <;> grind [place]
  unfold insert
  generalize vmar.place wanted len align = answer at placed ⊢
  obtain ⟨_ | vaddr, region⟩ := answer <;> obtain ⟨perm, contains, start⟩ := placed
  · exact perm
  dsimp only
  split
  · exact perm
  rename_i available
  refine ⟨start vaddr rfl, ?_, (perm_append_singleton _ _).trans (perm.cons _)⟩
  rw [rangeAvailable, contains, perm.any_eq] at available
  simpa [rangeAvailable] using available

theorem map_adds : vmar.Adds wanted (roundupPages len)
    (⟨·, roundupPages len, vmo, first, flags, true⟩) (vmar.map wanted vmo first len flags) := by
  unfold map
  split
  · exact Perm.refl _
  generalize inserted : vmar.insert wanted (roundupPages len) some _ = answer
  have adds : vmar.Adds wanted (roundupPages len) _ answer := inserted ▸ insert_adds
  obtain ⟨_ | vaddr, after⟩ := answer
  · exact adds
  · exact ⟨adds.1, adds.2.1, sortMappings_perm.trans adds.2.2⟩

/-- With offsets at pages a mapping can be placed where the range is free. -/
theorem map_available {offset} (available : vmar.rangeAvailable vaddr (roundupPages len) = true)
  (start : checkedAdd vmar.baseAddr offset = some vaddr) (hlen : len ≠ 0)
  (hfirst : pageAligned first = true) (hoffset : pageAligned offset = true) :
  (vmar.map (some offset) vmo first len flags).1 = .ok vaddr := by
  simp [map, insert, place, hlen, hfirst, hoffset, start, available]

/-! ## Cutting out a range -/

/-- The pieces of a mapping show what it showed outside the range. -/
theorem shows_cut (ends : vaddr + len < 2 ^ 64) :
  (∃ piece ∈ mapping.cut vaddr len, piece.meets addr 1 ∧ piece.page addr = page) ↔
    ¬ (vaddr ≤ addr ∧ addr < vaddr + len) ∧ mapping.meets addr 1 ∧ mapping.page addr = page := by
  unfold VmarMapping.cut
  split
  · rename_i meets
    rw [meets_iff] at meets
    simp only [VmarMapping.below, VmarMapping.above, mem_append, mem_ite_nil_right, mem_singleton,
      meets_iff, VmarMapping.page]
    constructor
    · rintro ⟨piece, ⟨hlt, rfl⟩ | ⟨hlt, rfl⟩, covers, rfl⟩ <;> grind
    rintro ⟨outside, covers, rfl⟩
    rcases Nat.lt_or_ge addr vaddr with below | above
    · exact ⟨_, .inl ⟨by omega, rfl⟩, by grind⟩
    · exact ⟨_, .inr ⟨by omega, rfl⟩, by grind⟩
  · simp only [mem_singleton, exists_eq_left]
    grind [meets_iff]

theorem mem_cutOut : piece ∈ (vmar.cutOut vaddr len).mappings ↔
    ∃ mapping ∈ vmar.mappings, piece ∈ mapping.cut vaddr len :=
  sortMappings_perm.mem_iff.trans mem_flatMap

theorem shows_cutOut (ends : vaddr + len < 2 ^ 64) : (vmar.cutOut vaddr len).Shows addr page ↔
    ¬ (vaddr ≤ addr ∧ addr < vaddr + len) ∧ vmar.Shows addr page := by
  constructor
  · rintro ⟨piece, hpiece, shown⟩
    obtain ⟨mapping, hmem, hpiece⟩ := mem_cutOut.mp hpiece
    obtain ⟨outside, shown⟩ := (shows_cut ends).mp ⟨piece, hpiece, shown⟩
    exact ⟨outside, mapping, hmem, shown⟩
  · rintro ⟨outside, mapping, hmem, shown⟩
    obtain ⟨piece, hpiece, shown⟩ := (shows_cut ends).mpr ⟨outside, shown⟩
    exact ⟨piece, mem_cutOut.mpr ⟨mapping, hmem, hpiece⟩, shown⟩

theorem cutOut_free : (vmar.cutOut vaddr len).mappings.any (·.meets vaddr len) = false := by
  rw [any_eq_false]
  intro piece hpiece
  obtain ⟨mapping, -, hpiece⟩ := mem_cutOut.mp hpiece
  unfold VmarMapping.cut at hpiece
  split at hpiece
  · simp only [VmarMapping.below, VmarMapping.above, mem_append, mem_ite_nil_right,
      mem_singleton] at hpiece
    rcases hpiece with ⟨hlt, rfl⟩ | ⟨hlt, rfl⟩ <;> grind [meets_iff]
  · rwa [mem_singleton.mp hpiece]

/-- Unmapping refuses its arguments or cuts out the range. -/
theorem unmap_cases (vmar : Vmar) (vaddr len : Nat) :
    (∃ reason, reason ≠ .errNotFound ∧ vmar.unmap vaddr len = (.error reason, vmar)) ∨
    len ≠ 0 ∧ pageAligned vaddr = true ∧ vmar.containsRange vaddr len = true ∧
      vmar.unmap vaddr len =
        (if vmar.mappings.any (·.meets vaddr len) then .ok () else .error .errNotFound,
          vmar.cutOut vaddr len) := by
  unfold unmap recut
  split
  · exact .inl ⟨_, by decide, rfl⟩
  split
  · exact .inl ⟨_, by decide, rfl⟩
  · rename_i args contains
    simp only [Bool.or_eq_true, Bool.not_eq_true', not_or, Bool.not_eq_false,
      beq_iff_eq] at args
    exact .inr ⟨args.1.1, args.1.2, by simpa using contains, rfl⟩

variable (vmar wanted vmo first len flags)
/-- Mapping over others refuses the range, or maps into the region without it. -/
theorem mapExt_cases :
    (∃ reason, vmar.mapExt wanted vmo first len flags true = (.error reason, vmar)) ∨
    ∃ offset vaddr, wanted = some offset ∧ checkedAdd vmar.baseAddr offset = some vaddr ∧
      len ≠ 0 ∧ pageAligned vaddr = true ∧ vmar.containsRange vaddr (roundupPages len) = true ∧
      (vmar.unmap vaddr (roundupPages len)).2 = vmar.cutOut vaddr (roundupPages len) ∧
      vmar.mapExt wanted vmo first len flags true =
        (vmar.cutOut vaddr (roundupPages len)).map wanted vmo first len flags := by
  unfold mapExt
  cases wanted with
  | none => exact .inl ⟨_, rfl⟩
  | some offset =>
    rw [if_pos rfl]
    dsimp only
    cases start : checkedAdd vmar.baseAddr offset with
    | none => exact .inl ⟨_, rfl⟩
    | some vaddr =>
      rcases unmap_cases vmar vaddr (roundupPages len) with
        ⟨reason, hne, unmap⟩ | ⟨hlen, aligned, contains, unmap⟩
      · simp [unmap, hne]
      refine .inr ⟨offset, vaddr, rfl, start, ?_, aligned, contains, by rw [unmap], ?_⟩
      · exact fun zero => hlen (by simp [zero, roundupPages, checkedMul])
      · dsimp only
        rw [unmap]
        cases vmar.mappings.any (·.meets vaddr (roundupPages len)) <;> rfl

variable {vmar wanted vmo first len flags} {overwrite : Bool} {reason : ZxError} {after : Vmar}
/-- A request that fails leaves the mappings of a region that starts at a page. -/
theorem mapExt_failed (hbase : pageAligned vmar.baseAddr = true) (hfirst : pageAligned first = true)
    (failed : vmar.mapExt wanted vmo first len flags overwrite = (.error reason, after)) :
    after.mappings ~ vmar.mappings := by
  cases overwrite with
  | false =>
    have adds : vmar.Adds wanted _ _ (vmar.map wanted vmo first len flags) := map_adds
    rw [show vmar.map wanted vmo first len flags = _ from failed] at adds
    exact adds
  | true =>
    rcases mapExt_cases vmar len vmo first flags wanted with
      ⟨reason, unchanged⟩ | ⟨offset, vaddr, rfl, start, hlen, aligned, contains, -, same⟩
    · obtain ⟨-, rfl⟩ := Prod.ext_iff.mp (unchanged.symm.trans failed)
      exact .refl _
    -- The range was cut out, so that the new mapping has its place.
    have hoffset : pageAligned offset = true := by
      unfold checkedAdd at start
      unfold pageAligned PageTable.pageSize at *
      grind
    have free : (vmar.cutOut vaddr (roundupPages len)).rangeAvailable vaddr
        (roundupPages len) = true := by
      rw [rangeAvailable, cutOut_free]
      exact (Bool.and_true _).trans contains
    have placed := (congrArg Prod.fst (same.symm.trans failed)).symm.trans
      (map_available free start hlen hfirst hoffset)
    cases placed

/-- A request that maps over others replaces what its range shows. -/
theorem mapExt_replaces (mapped : vmar.mapExt wanted vmo first len flags true = (.ok vaddr, after))
    (addr page) : after.Shows addr page ↔
      if vaddr ≤ addr ∧ addr < vaddr + roundupPages len then
        page = (vmo, first + (addr - vaddr), flags)
      else vmar.Shows addr page := by
  rcases mapExt_cases vmar len vmo first flags wanted with
    ⟨reason, unchanged⟩ | ⟨offset, start, rfl, hstart, -, -, contains, -, same⟩
  · cases unchanged.symm.trans mapped
  have adds : (vmar.cutOut start (roundupPages len)).Adds (some offset) _ _ (.ok vaddr, after) :=
    same.symm.trans mapped ▸ map_adds
  obtain ⟨hvaddr, -, perm⟩ := adds
  obtain rfl : start = vaddr :=
    Option.some_inj.mp (hstart.symm.trans (hvaddr offset rfl))
  have ends : start + roundupPages len < 2 ^ 64 := by
    unfold containsRange checkedAdd at contains
    grind
  have shown : after.Shows addr page ↔ (start ≤ addr ∧ addr < start + roundupPages len) ∧
      (vmo, first + (addr - start), flags) = page ∨
        (vmar.cutOut start (roundupPages len)).Shows addr page := by
    simp only [Shows, perm.mem_iff, exists_mem_cons_iff, meets_iff, VmarMapping.page]
    grind
  rw [shown, shows_cutOut ends]
  grind

end Vmar
end Smros.Objects
