import Smros.ProcessMemory.Coverage
import Smros.ProcessMemory.System

/-!
# What a planned range does to each page

A mapping is read as a list of entries, one for each page, with the source from that page
on.  Cutting a range out of the mappings, or protecting it anew, changes the entries inside
the range and no others, however the mappings are cut.
-/

namespace Smros.ProcessMemory
open List Lib Kernel
open PageTable (pageSize)
open LinuxProcessMapping (stop)

/-! ## Pages of a mapping -/

structure PageEntry where
  address : Nat
  backing : LinuxPageBacking
  prot : Prot
  flags : BitVec 64
  source : LinuxMappingSource

variable {address len : Nat}
namespace PageEntry
def protect (prot : Prot) (entry : PageEntry) : PageEntry := { entry with prot := prot }

def inRange (address len : Nat) (entry : PageEntry) : Bool :=
  address ≤ entry.address && entry.address < address + len

/-- What is left of a page: outside the range all, inside it nothing or a new protection. -/
def change (address len : Nat) (replacement : Option Prot) (entry : PageEntry) : Option PageEntry :=
  if entry.inRange address len then replacement.map entry.protect else some entry

/-- Pages outside the range stay. -/
theorem filterMap_change_eq_self {repl : Option Prot} {entries : List PageEntry}
  (outside : ∀ entry ∈ entries, ¬ entry.inRange address len = true) :
  entries.filterMap (·.change address len repl) = entries := by
  refine (filterMap_congr fun entry member => ?_).trans filterMap_some
  exact if_neg (outside entry member)

end PageEntry

variable {replacement : Option Prot}
namespace LinuxProcessMapping
open PageEntry

variable (mapping : LinuxProcessMapping)

def entry (index : Nat) (backing : LinuxPageBacking) : PageEntry :=
  ⟨mapping.addr + index * pageSize, backing, mapping.prot, mapping.flags,
    mapping.source.slice (index * pageSize)⟩

def entries : List PageEntry :=
  mapping.pages.zipIdx.map fun (backing, index) => mapping.entry index backing

/-- The entries from one index up to another. -/
def part (first last : Nat) : List PageEntry := (mapping.entries.take last).drop first

/-- The mapping consists of whole pages below the last address. -/
structure Paged (mapping : LinuxProcessMapping) : Prop where
  aligned : mapping.addr % pageSize = 0
  whole : mapping.len = mapping.pages.length * pageSize
  fits : mapping.stop < 2 ^ 64

variable {mapping} {first last : Nat} {entry : PageEntry} (paged : mapping.Paged)
theorem length_entries : mapping.entries.length = mapping.pages.length := by simp [entries]

theorem address_of_mem (member : entry ∈ mapping.part first last) : ∃ index, first ≤ index ∧
  index < last ∧ index < mapping.pages.length ∧
    entry.address = mapping.addr + index * pageSize := by
  obtain ⟨index, bound, rfl⟩ := mem_iff_getElem.mp member
  simp only [part, length_drop, length_take, length_entries] at bound
  refine ⟨first + index, by omega, by omega, by omega, ?_⟩
  simp [part, entries, LinuxProcessMapping.entry]

theorem part_all : mapping.part 0 mapping.pages.length = mapping.entries := by
  rw [part, ← length_entries, take_length, drop_zero]

theorem map_protect_part : (mapping.part first last).map (·.protect mapping.prot) =
  mapping.part first last := by
  rw [part, map_drop, map_take, entries, map_map]
  rfl

theorem map_backing_part :
  (mapping.part first last).map (·.backing) = (mapping.pages.take last).drop first := by
  have backings : mapping.entries.map (·.backing) = mapping.pages := by
    rw [entries, map_map]
    exact zipIdx_map_fst ..
  rw [part, map_drop, map_take, backings]

/-- Slices compose: the offset saturates once or twice with the same result. -/
theorem slice_slice (source : LinuxMappingSource) (outer inner) :
  (source.slice outer).slice inner = source.slice (outer + inner) := by
  cases source with
  | file source =>
    simp only [LinuxMappingSource.slice, saturatingAdd]
    congr 2
    omega
  | _ => rfl

theorem pagesBetween_eq : mapping.pagesBetween (mapping.addr + first * pageSize)
  (mapping.addr + last * pageSize) = (mapping.pages.take last).drop first := by
  have positive : 0 < pageSize := Nat.succ_pos _
  rw [pagesBetween, Nat.add_sub_cancel_left, Nat.add_sub_cancel_left,
    Nat.mul_div_cancel _ positive, Nat.mul_div_cancel _ positive]

theorem entries_piece (mapping : LinuxProcessMapping) (first last prot) :
  (mapping.piece (mapping.addr + first * pageSize) (mapping.addr + last * pageSize) prot).entries =
    (mapping.part first last).map (·.protect prot) := by
  refine ext_getElem? fun idx => ?_
  simp only [entries, part, piece, pagesBetween_eq, getElem?_map, getElem?_zipIdx, getElem?_drop,
    getElem?_take]
  split_ifs
  · cases mapping.pages[first + idx]? with
    | none => rfl
    | some backing =>
      simp [LinuxProcessMapping.entry, PageEntry.protect, slice_slice, Nat.add_assoc, Nat.add_mul]
  · rfl

/-! ## A range that meets a mapping -/

/-- The pages of the mapping inside the range, from one index up to another. -/
structure Meets (mapping : LinuxProcessMapping) (address len first last : Nat) : Prop where
  start : mapping.overlapStart address = mapping.addr + first * pageSize
  stop : mapping.overlapStop (address + len) = mapping.addr + last * pageSize
  le : first ≤ last
  last_le : last ≤ mapping.pages.length
  inside : ∀ index < mapping.pages.length, (address ≤ mapping.addr + index * pageSize ∧
    mapping.addr + index * pageSize < address + len) ↔ first ≤ index ∧ index < last

section
include paged
theorem Paged.rangesOverlap_iff (fits : address + len < 2 ^ 64) :
  rangesOverlap address len mapping.addr mapping.len = true ↔
    address < mapping.stop ∧ mapping.addr < address + len := by
  have below : mapping.addr + mapping.len < 2 ^ 64 := paged.fits
  rw [rangesOverlap, checkedAdd_of_lt fits, checkedAdd_of_lt below, Bool.and_eq_true,
    decide_eq_true_eq, decide_eq_true_eq]
  rfl

theorem Paged.meets (aligned : address % pageSize = 0) (whole : len % pageSize = 0)
  (reaches : address < mapping.stop) (starts : mapping.addr < address + len) :
  ∃ first last, mapping.Meets address len first last := by
  obtain ⟨page, size, -⟩ := paged
  unfold stop at reaches
  refine ⟨(max address mapping.addr - mapping.addr) / pageSize,
    (min (address + len) mapping.stop - mapping.addr) / pageSize, ?_⟩
  unfold pageSize stop at *
  constructor
  case start => unfold overlapStart pageSize; omega
  case stop => unfold overlapStop stop pageSize; omega
  case le | last_le => omega
  all_goals unfold pageSize; omega

end

section
variable (meets : mapping.Meets address len first last)
include meets
theorem Meets.entries_eq : mapping.entries = mapping.part 0 first ++
  (mapping.part first last ++ mapping.part last mapping.pages.length) := by
  have head : mapping.entries.take first = (mapping.entries.take last).take first := by
    rw [take_take, min_eq_left meets.le]
  rw [part, part, part, drop_zero, head, ← append_assoc, take_append_drop, ← length_entries,
    take_length, take_append_drop]

theorem Meets.inRange (member : entry ∈ mapping.part first last) :
  entry.inRange address len = true := by
  obtain ⟨idx, low, high, bound, place⟩ := address_of_mem member
  have inside := (meets.inside idx bound).mpr ⟨low, high⟩
  simpa only [PageEntry.inRange, place, Bool.and_eq_true, decide_eq_true_eq] using inside

/-- The pages before and behind the range. -/
theorem Meets.not_inRange (member : entry ∈ mapping.part 0 first ∨
  entry ∈ mapping.part last mapping.pages.length) : ¬ entry.inRange address len = true := by
  obtain ⟨idx, bound, outside, place⟩ : ∃ idx < mapping.pages.length,
    ¬ (first ≤ idx ∧ idx < last) ∧ entry.address = mapping.addr + idx * pageSize := by
    rcases member with before | behind
    · obtain ⟨idx, -, high, bound, place⟩ := address_of_mem before
      exact ⟨idx, bound, by omega, place⟩
    · obtain ⟨idx, low, -, bound, place⟩ := address_of_mem behind
      exact ⟨idx, bound, by omega, place⟩
  rw [← meets.inside idx bound] at outside
  simpa only [PageEntry.inRange, place, Bool.and_eq_true, decide_eq_true_eq] using outside

theorem Meets.filter_entries :
  mapping.entries.filter (·.inRange address len) = mapping.part first last := by
  rw [meets.entries_eq, filter_append, filter_append,
    filter_eq_nil_iff.mpr fun _ member => meets.not_inRange (.inl member),
    filter_eq_self.mpr fun _ => meets.inRange,
    filter_eq_nil_iff.mpr fun _ member => meets.not_inRange (.inr member), nil_append, append_nil]

theorem Meets.filterMap_entries : mapping.entries.filterMap (·.change address len replacement) =
  mapping.part 0 first ++ ((mapping.part first last).filterMap (replacement.map ·.protect) ++
    mapping.part last mapping.pages.length) := by
  rw [meets.entries_eq, filterMap_append, filterMap_append,
    filterMap_change_eq_self fun _ member => meets.not_inRange (.inl member),
    filterMap_change_eq_self fun _ member => meets.not_inRange (.inr member)]
  refine congrArg (fun pages => _ ++ (pages ++ _)) (filterMap_congr fun entry member => ?_)
  exact if_pos (meets.inRange member)

end

section
include paged
theorem Meets.entries_transformed (meets : mapping.Meets address len first last)
  (overlap : rangesOverlap address len mapping.addr mapping.len = true) :
  (mapping.transformed address len replacement).flatMap entries =
    mapping.entries.filterMap (·.change address len replacement) := by
  have stop : mapping.stop = mapping.addr + mapping.pages.length * pageSize :=
    congrArg (mapping.addr + ·) paged.whole
  have positive : 0 < pageSize := Nat.succ_pos _
  rw [meets.filterMap_entries, transformed, if_pos overlap, cuts, meets.start, meets.stop,
    map_append, map_append, flatMap_append, flatMap_append, append_assoc]
  congr 1
  · rcases first.eq_zero_or_pos with rfl | some
    · simp [part]
    have piece := mapping.entries_piece 0 first mapping.prot
    rw [map_protect_part, Nat.zero_mul] at piece
    rw [if_pos (Nat.lt_add_of_pos_right (Nat.mul_pos some positive)), map_singleton,
      flatMap_singleton]
    exact piece
  congr 1
  · cases replacement with
    | none => exact (filterMap_eq_nil_iff.mpr fun _ _ => rfl).symm
    | some prot =>
      have piece := mapping.entries_piece first last prot
      rw [← filterMap_eq_map] at piece
      rw [Option.map_some, Option.toList_some, map_singleton, flatMap_singleton]
      exact piece
  · rcases meets.last_le.eq_or_lt with all | more
    · simp [all, stop, part, ← length_entries]
    have piece := mapping.entries_piece last mapping.pages.length mapping.prot
    rw [map_protect_part] at piece
    rw [stop, if_pos (Nat.add_lt_add_left (Nat.mul_lt_mul_of_pos_right more positive) _),
      map_singleton, flatMap_singleton]
    exact piece

variable (fits : address + len < 2 ^ 64)
include fits
theorem Paged.not_inRange (apart : ¬ rangesOverlap address len mapping.addr mapping.len = true)
  (member : entry ∈ mapping.entries) : ¬ entry.inRange address len = true := by
  obtain ⟨idx, -, -, high, place⟩ := address_of_mem (part_all ▸ member)
  rw [paged.rangesOverlap_iff fits, stop, paged.whole] at apart
  simp only [PageEntry.inRange, place, Bool.and_eq_true, decide_eq_true_eq]
  unfold pageSize at *
  omega

variable (aligned : address % pageSize = 0) (whole : len % pageSize = 0)
include aligned whole
theorem Paged.entries_transformed : (mapping.transformed address len replacement).flatMap entries =
    mapping.entries.filterMap (·.change address len replacement) := by
  by_cases overlap : rangesOverlap address len mapping.addr mapping.len = true
  · obtain ⟨reaches, starts⟩ := (paged.rangesOverlap_iff fits).mp overlap
    obtain ⟨first, last, meets⟩ := paged.meets aligned whole reaches starts
    exact meets.entries_transformed paged overlap
  · rw [transformed, if_neg overlap, flatMap_singleton]
    exact (filterMap_change_eq_self fun _ => paged.not_inRange fits overlap).symm

theorem Paged.overlapPages_eq : mapping.overlapPages address len =
  (mapping.entries.filter (·.inRange address len)).map (·.backing) := by
  unfold overlapPages
  split_ifs with overlap
  · obtain ⟨reaches, starts⟩ := (paged.rangesOverlap_iff fits).mp overlap
    obtain ⟨first, last, meets⟩ := paged.meets aligned whole reaches starts
    rw [meets.filter_entries, meets.start, meets.stop, pagesBetween_eq, map_backing_part]
  · rw [filter_eq_nil_iff.mpr fun _ => paged.not_inRange fits overlap]
    rfl

end

theorem Paged.entries_ascending (paged : mapping.Paged) :
  mapping.entries.Pairwise (·.address < ·.address) ∧
    ∀ entry ∈ mapping.entries, mapping.addr ≤ entry.address ∧ entry.address < mapping.stop := by
  refine ⟨?_, fun entry member => ?_⟩
  · have addresses : mapping.entries.map (·.address) =
      (range' 0 mapping.pages.length).map (mapping.addr + · * pageSize) := by
      rw [entries, map_map, ← zipIdx_map_snd 0 mapping.pages, map_map]
      rfl
    have positive : 0 < pageSize := Nat.succ_pos _
    refine pairwise_map.mp (addresses ▸ (pairwise_lt_range' ..).map _ fun _ _ less => ?_)
    exact Nat.add_lt_add_left (Nat.mul_lt_mul_of_pos_right less positive) _
  · obtain ⟨idx, -, -, high, place⟩ := address_of_mem (part_all ▸ member)
    unfold stop
    rw [place, paged.whole]
    unfold pageSize
    omega

end LinuxProcessMapping

/-! ## Reserving room -/

/-- The kernel after some reservations have been answered. -/
def Kernel.answered (kernel : Kernel) (used : Nat) : Kernel :=
  { kernel with environment := { kernel.environment with
    reservations := kernel.environment.reservations.drop used } }

/-- The program only reserves room: it gives the value, unless a reservation is refused. -/
def Reserves {Value : Type} (program : KernelM Value) (value : Value) : Prop :=
  ∀ kernel, ∃ used, program kernel = .ok value (kernel.answered used) ∨
    program kernel = .error .enomem (kernel.answered used) ∧ false ∈ kernel.environment.reservations

namespace Reserves
variable {Value Result : Type} {value : Value} {result : Result}
theorem pure (value : Value) : Reserves (Pure.pure value) value := fun _ => ⟨0, .inl rfl⟩

theorem bind {prog next} (first : Reserves prog value) (then_ : Reserves (next value) result)
  : Reserves (prog >>= next) result := by
  intro kernel
  obtain ⟨used, done | ⟨refused, answer⟩⟩ := first kernel
  · obtain ⟨more, rest⟩ := then_ (kernel.answered used)
    refine ⟨used + more, ?_⟩
    rw [Program.bind_run_ok done]
    unfold Kernel.answered at rest ⊢
    rw [← drop_drop]
    exact rest.imp_right (And.imp_right mem_of_mem_drop)
  · exact ⟨used, .inr ⟨Program.bind_run_error refused, answer⟩⟩

theorem reserve (additional) : Reserves (tryReserve additional) () := by
  intro kernel
  unfold tryReserve Kernel.reserve
  by_cases nothing : additional = 0
  · rw [if_pos nothing]
    exact ⟨0, .inl rfl⟩
  rw [if_neg nothing]
  unfold Kernel.answered
  cases answers : kernel.environment.reservations with
  | nil => exact ⟨1, .inl rfl⟩
  | cons answer rest =>
    cases answer with
    | true => exact ⟨1, .inl rfl⟩
    | false => exact ⟨1, .inr ⟨rfl, mem_cons_self⟩⟩

theorem slice (source : LinuxMappingSource) (delta : Nat) :
  Reserves (trySlice source delta) (source.slice delta) :=
  (reserve _).bind (pure _)

theorem mappingPiece (mapping : LinuxProcessMapping) (start stop : Nat) (prot : Prot) :
  Reserves (tryMappingPiece mapping start stop prot) (mapping.piece start stop prot) :=
  (reserve _).bind ((slice _ _).bind (pure _))

theorem mappingPieces (mapping : LinuxProcessMapping) (cuts : List (Nat × Nat × Prot)) :
  Reserves (tryMappingPieces mapping cuts)
    (cuts.map fun (start, stop, prot) => mapping.piece start stop prot) := by
  induction cuts with
  | nil => exact pure _
  | cons cut rest ih => exact (mappingPiece _ _ _ _).bind (ih.bind (pure _))

theorem transformMapping (address len : Nat) (repl : Option Prot)
    (mapping : LinuxProcessMapping) :
    Reserves (tryTransformMapping address len repl mapping)
      (mapping.transformed address len repl) := by
  unfold tryTransformMapping LinuxProcessMapping.transformed
  split_ifs
  · exact mappingPieces _ _
  · exact pure _

end Reserves

/-! ## The planned range -/

namespace LinuxMappingMetadataPlan
variable {plan : LinuxMappingMetadataPlan}
/-- The pages of all mappings. -/
def pages (plan : LinuxMappingMetadataPlan) : List PageEntry := plan.mappings.flatMap (·.entries)

/-- The method gives the value and the plan, unless a reservation is refused; then it leaves a
plan of `fails`. -/
def Runs {Value : Type} (program : PlanM Value) (plan : LinuxMappingMetadataPlan) (value : Value)
    (next : LinuxMappingMetadataPlan) (fails : LinuxMappingMetadataPlan → Prop) : Prop :=
  ∀ kernel, ∃ used, program (plan, kernel) = .ok value (next, kernel.answered used) ∨
    false ∈ kernel.environment.reservations ∧ ∃ left, fails left ∧
      program (plan, kernel) = .error .enomem (left, kernel.answered used)

namespace Runs
variable {Value Result : Type} {value : Value} {result : Result}
  {middle next : LinuxMappingMetadataPlan} {fails : LinuxMappingMetadataPlan → Prop}
theorem pure (plan fails) (value : Value) : Runs (Pure.pure value) plan value plan fails :=
  fun _ => ⟨0, .inl rfl⟩

theorem change (change : LinuxMappingMetadataPlan → LinuxMappingMetadataPlan) (fails) :
    Runs (onPlan change) plan () (change plan) fails :=
  fun _ => ⟨0, .inl rfl⟩

theorem current (plan fails) : Runs (Prod.fst <$> get) plan plan plan fails :=
  fun _ => ⟨0, .inl rfl⟩

theorem bind {prog rest} (first : Runs prog plan value middle fails)
    (second : Runs (rest value) middle result next fails) :
    Runs (prog >>= rest) plan result next fails := by
  intro kernel
  obtain ⟨used, done | ⟨refused, left, hfails, run⟩⟩ := first kernel
  · obtain ⟨more, last⟩ := second (kernel.answered used)
    refine ⟨used + more, ?_⟩
    rw [Program.bind_run_ok done]
    unfold Kernel.answered at last ⊢
    rw [← drop_drop]
    exact last.imp_right (And.imp_left mem_of_mem_drop)
  · exact ⟨used, .inr ⟨refused, left, hfails, Program.bind_run_error run⟩⟩

theorem kernel {prog : KernelM Value} (reserves : Reserves prog value) (hfails : fails plan) :
    Runs (onPlanKernel prog) plan value plan fails := by
  intro kernel
  obtain ⟨used, done | ⟨refused, answer⟩⟩ := reserves kernel
  · refine ⟨used, .inl ?_⟩
    unfold onPlanKernel Program.zoom
    rw [done]
  · refine ⟨used, .inr ⟨answer, plan, hfails, ?_⟩⟩
    unfold onPlanKernel Program.zoom
    rw [refused]

end Runs

theorem partly_append (plan : LinuxMappingMetadataPlan) (address len repl earlier mappings) :
    (plan.partly address len repl earlier).partly address len repl mappings =
      plan.partly address len repl (earlier ++ mappings) := by
  unfold partly
  cases repl <;> simp

/-- What a failure leaves: the plan, or what the loop had made of it. -/
def Left (plan : LinuxMappingMetadataPlan) (address len : Nat) (replacement : Option Prot)
    (left : LinuxMappingMetadataPlan) : Prop :=
  left = plan ∨ ∃ earlier later, plan.mappings = earlier ++ later ∧
    left = plan.partly address len replacement earlier

/-- The loop, from the mappings that it is through with. -/
theorem tryTransformMappings_runs (rest earlier : List LinuxProcessMapping)
    (whole : plan.mappings = earlier ++ rest) :
    Runs (tryTransformMappings address len replacement rest)
      (plan.partly address len replacement earlier)
      (rest.flatMap (·.transformed address len replacement))
      (plan.partly address len replacement plan.mappings)
      (plan.Left address len replacement) := by
  induction rest generalizing earlier with
  | nil =>
    rw [whole, append_nil]
    exact .pure _ _ _
  | cons mapping rest ih =>
    have next : plan.mappings = (earlier ++ [mapping]) ++ rest := by rw [whole, append_cons]
    have failed : plan.Left address len replacement
        (plan.partly address len replacement (earlier ++ [mapping])) :=
      .inr ⟨_, rest, next, rfl⟩
    refine (Runs.change (·.partly address len replacement [mapping]) _).bind ?_
    rw [partly_append]
    exact (Runs.kernel (.transformMapping _ _ _ _) failed).bind ((ih _ next).bind (.pure _ _ _))

theorem tryTransformRange_runs (plan : LinuxMappingMetadataPlan) (replacement : Option Prot)
    (fits : address + len < 2 ^ 64) :
    Runs (tryTransformRange address len replacement) plan ()
      (plan.transformRange address len replacement) (plan.Left address len replacement) := by
  have taken : { plan with mappings := [] } = plan.partly address len replacement [] := by
    unfold partly
    cases replacement <;> simp
  have loop : Runs (tryTransformMappings address len replacement plan.mappings) _ _ _ _ :=
    tryTransformMappings_runs plan.mappings [] rfl
  unfold tryTransformRange
  rw [checkedAdd_of_lt fits]
  refine (Runs.pure plan _ _).bind ((Runs.current plan _).bind ?_)
  refine (Runs.kernel (.reserve _) (.inl rfl)).bind ((Runs.kernel (.reserve _) (.inl rfl)).bind ?_)
  refine (Runs.change (fun plan => { plan with mappings := [] }) _).bind ?_
  rw [taken]
  exact loop.bind (Runs.change _ _)

theorem pages_ascending (ordered : Ordered plan.mappings)
  (paged : ∀ mapping ∈ plan.mappings, mapping.Paged) :
  plan.pages.Pairwise (·.address < ·.address) := by
  refine pairwise_flatMap.mpr ⟨fun mapping member => (paged mapping member).entries_ascending.1, ?_⟩
  refine ordered.imp_of_mem fun {first snd} one other apart entry member later last => ?_
  have low := (paged first one).entries_ascending.2 entry member
  have high := (paged snd other).entries_ascending.2 later last
  omega

/-- The backings of the pages that a removal takes. -/
def cutPages (address len : Nat) (replacement : Option Prot) (pages : List PageEntry) :
    List LinuxPageBacking :=
  if replacement.isNone then (pages.filter (·.inRange address len)).map (·.backing) else []

theorem overlaps_eq {mappings : List LinuxProcessMapping}
    (paged : ∀ mapping ∈ mappings, mapping.Paged) (aligned : address % pageSize = 0)
    (whole : len % pageSize = 0) (fits : address + len < 2 ^ 64) :
    (if replacement.isNone then mappings.flatMap (·.overlapPages address len) else []) =
      cutPages address len replacement (mappings.flatMap (·.entries)) := by
  unfold cutPages
  split_ifs
  · rw [filter_flatMap, map_flatMap]
    exact flatMap_congr fun mapping member =>
      (paged mapping member).overlapPages_eq fits aligned whole
  · rfl

variable (paged : ∀ mapping ∈ plan.mappings, mapping.Paged) (aligned : address % pageSize = 0)
  (whole : len % pageSize = 0) (fits : address + len < 2 ^ 64)
include paged aligned whole fits
theorem pages_transformRange : (plan.transformRange address len replacement).pages =
  plan.pages.filterMap (·.change address len replacement) := by
  unfold pages transformRange
  rw [flatMap_assoc, filterMap_flatMap]
  exact flatMap_congr fun mapping member =>
    (paged mapping member).entries_transformed fits aligned whole

theorem removed_transformRange : (plan.transformRange address len replacement).removed =
    plan.removed ++ cutPages address len replacement plan.pages :=
  congrArg (plan.removed ++ ·) (overlaps_eq paged aligned whole fits)

end LinuxMappingMetadataPlan

open LinuxMappingMetadataPlan

/-- A mapping of three pages. -/
def threePages (address : Nat) : LinuxMappingMetadataPlan :=
  ⟨[⟨address, 3 * pageSize, linuxProtRead, 0, [.privatePage 7, .privatePage 8, .privatePage 9],
    .anonymous⟩], [], [], []⟩

end Smros.ProcessMemory
