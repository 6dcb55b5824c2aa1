import Smros.PageTable.AddressSpace

/-!
# The frames of the machine

Page frames are taken from the RAM behind the kernel.  They lie below or above the window
of the user addresses, in whichever part is larger.
-/

namespace Smros.PageTable

structure UserWindow where
  base : Nat
  limit : Nat
  ordered : base ≤ limit
  aligned : base % pageSize = 0 ∧ limit % pageSize = 0

/-- `usize::MAX`. -/
def usizeMax : Nat := 0xffffffffffffffff

/-- The window of the source's constants. -/
def userWindow : UserWindow := ⟨userBase, userLimit, by decide, by decide⟩

/-- The larger part of a range on either side of the window. -/
def frameRangeBeside (window : UserWindow) (start stop : Nat) : Option (Nat × Nat) :=
  if stop ≤ start then none
  else if stop ≤ window.base ∨ window.limit ≤ start then some (start, stop)
  else
    let beforeEnd := min stop window.base
    let beforeLen := beforeEnd - start
    let afterStart := max start window.limit
    let afterLen := stop - afterStart
    if beforeLen ≤ afterLen ∧ afterLen ≠ 0 then some (afterStart, stop)
    else if beforeLen ≠ 0 then some (start, beforeEnd)
    else none

/-- `aarch64_frame_range`. -/
def frameRange (window : UserWindow) (kernelEnd ramBase ramEnd : Nat) : Option (Nat × Nat) :=
  if usizeMax < kernelEnd + (pageSize - 1) then none
  else
    frameRangeBeside window (max ((kernelEnd + (pageSize - 1)) / pageSize * pageSize) ramBase)
      (ramEnd / pageSize * pageSize)

/-- `aarch64_frame_range_cap`; an end that overflows is the largest address. -/
def frameRangeCap (start stop capacityBytes : Nat) : Option (Nat × Nat) :=
  let cappedEnd := min stop
    (if start + capacityBytes ≤ usizeMax then start + capacityBytes else usizeMax)
  if start < cappedEnd then some (start, cappedEnd) else none

/-- Whole pages of RAM behind the kernel and outside the window. -/
structure Usable (window : UserWindow) (kernelEnd ramBase ramEnd : Nat) (range : Nat × Nat) :
  Prop where
  nonempty : range.1 < range.2
  aligned : range.1 % pageSize = 0 ∧ range.2 % pageSize = 0
  inRam : ramBase ≤ range.1 ∧ range.2 ≤ ramEnd
  behindKernel : kernelEnd ≤ range.1
  outside : range.2 ≤ window.base ∨ window.limit ≤ range.1

/-- A largest of the admitted ranges, if there is one. -/
structure Largest (admitted : Nat × Nat → Prop) (found : Option (Nat × Nat)) : Prop where
  fits : ∀ range, found = some range → admitted range
  longest : ∀ range, admitted range →
    ∃ best, found = some best ∧ range.2 - range.1 ≤ best.2 - best.1

variable {window : UserWindow} {kernelEnd ramBase ramEnd start stop : Nat} {range : Nat × Nat}
/-- A range between two addresses that does not meet the window. -/
def Beside (window : UserWindow) (start stop : Nat) (range : Nat × Nat) : Prop :=
  start ≤ range.1 ∧ range.1 < range.2 ∧ range.2 ≤ stop ∧
    (range.2 ≤ window.base ∨ window.limit ≤ range.1)

theorem frameRangeBeside_largest :
  Largest (Beside window start stop) (frameRangeBeside window start stop) := by
  have ordered := window.ordered
  constructor
  · intro range found
    unfold frameRangeBeside at found
    grind [Beside]
  rintro range ⟨low, nonempty, high, outside⟩
  cases found : frameRangeBeside window start stop with
  | none =>
    unfold frameRangeBeside at found
    grind
  | some best =>
    unfold frameRangeBeside at found
    exact ⟨best, rfl, by grind⟩

theorem frameRangeBeside_bounds (found : frameRangeBeside window start stop = some range) :
  (range.1 = start ∨ range.1 = window.limit) ∧ (range.2 = stop ∨ range.2 = window.base) := by
  unfold frameRangeBeside at found
  grind

theorem usable_iff : Usable window kernelEnd ramBase ramEnd range ↔
    Beside window (max ((kernelEnd + (pageSize - 1)) / pageSize * pageSize) ramBase)
      (ramEnd / pageSize * pageSize) range ∧
    range.1 % pageSize = 0 ∧ range.2 % pageSize = 0 := by
  unfold pageSize
  constructor
  · rintro ⟨nonempty, aligned, inRam, behind, outside⟩
    unfold pageSize at aligned
    refine ⟨⟨?_, nonempty, ?_, outside⟩, aligned⟩ <;> omega
  · rintro ⟨⟨low, nonempty, high, outside⟩, aligned⟩
    refine ⟨nonempty, aligned, ?_, ?_, outside⟩ <;> omega

/-- The part that starts at the given address is taken unless the window cuts it off and the
part above the window is at least as long. -/
theorem frameRangeBeside_start (found : frameRangeBeside window start stop = some range) :
    range.1 = start ↔ ¬ (window.base < stop ∧ start < window.limit ∧
      window.base - start ≤ stop - window.limit) := by
  have ordered := window.ordered
  unfold frameRangeBeside at found
  grind

theorem frameRangeBeside_none : frameRangeBeside window start stop = none ↔
    stop ≤ start ∨ window.base ≤ start ∧ stop ≤ window.limit := by
  have ordered := window.ordered
  unfold frameRangeBeside
  grind

/-- The RAM starts at a page or not behind the kernel, or its base does not start the frames. -/
def StartsAtPage (window : UserWindow) (kernelEnd ramBase ramEnd : Nat) : Prop :=
  let stop := ramEnd / pageSize * pageSize
  ramBase % pageSize = 0 ∨ ramBase ≤ (kernelEnd + (pageSize - 1)) / pageSize * pageSize ∨
    stop ≤ ramBase ∨
    window.base < stop ∧ ramBase < window.limit ∧ window.base - ramBase ≤ stop - window.limit

theorem frameRange_largest_iff (hram : ramEnd ≤ usizeMax) :
    Largest (Usable window kernelEnd ramBase ramEnd)
        (frameRange window kernelEnd ramBase ramEnd) ↔
      StartsAtPage window kernelEnd ramBase ramEnd := by
  have ordered := window.ordered
  have aligned := window.aligned
  unfold frameRange StartsAtPage
  split_ifs with overflow
  · refine iff_of_true ⟨nofun, fun range usable => ?_⟩ ?_
    · obtain ⟨nonempty, aligned, inRam, behind, -⟩ := usable
      unfold pageSize usizeMax at *
      omega
    · unfold pageSize usizeMax at *
      omega
  obtain ⟨fits, longest⟩ := @frameRangeBeside_largest window
    (max ((kernelEnd + (pageSize - 1)) / pageSize * pageSize) ramBase)
    (ramEnd / pageSize * pageSize)
  constructor
  · intro largest
    cases found : frameRangeBeside window
        (max ((kernelEnd + (pageSize - 1)) / pageSize * pageSize) ramBase)
        (ramEnd / pageSize * pageSize) with
    | none =>
      rw [frameRangeBeside_none] at found
      unfold pageSize at *
      omega
    | some range =>
      have start := frameRangeBeside_start found
      have whole := (largest.fits range found).aligned.1
      unfold pageSize at *
      omega
  · intro starts
    refine ⟨fun range found => usable_iff.mpr ⟨fits range found, ?_⟩,
      fun range usable => longest range (usable_iff.mp usable).1⟩
    have bounds := frameRangeBeside_bounds found
    have start := frameRangeBeside_start found
    have inside := fits range found
    unfold Beside at inside
    unfold pageSize at *
    omega
theorem frameRangeCap_largest_iff (hram : ramEnd ≤ usizeMax)
  (largest : Largest (Usable window kernelEnd ramBase ramEnd) (some (start, stop))) (capacity) :
  Largest (fun range => Usable window kernelEnd ramBase ramEnd range ∧
    range.2 - range.1 ≤ capacity) (frameRangeCap start stop capacity) ↔
    capacity % pageSize = 0 ∨ stop - start ≤ capacity := by
  obtain ⟨nonempty, aligned, inRam, behind, outside⟩ := largest.fits _ rfl
  have capped : frameRangeCap start stop capacity =
    if capacity = 0 then none else some (start, min stop (start + capacity)) := by
    unfold frameRangeCap
    grind
  rw [capped]
  split_ifs with zero
  · refine iff_of_true ⟨nofun, fun range fits => ?_⟩ (.inl (by rw [zero, Nat.zero_mod]))
    have pages := fits.1.nonempty
    omega
  constructor
  · intro cut
    have whole := (cut.fits _ rfl).1.aligned.2
    unfold pageSize at *
    omega
  intro fits
  constructor
  · rintro _ ⟨⟩
    refine ⟨⟨?_, ⟨aligned.1, ?_⟩, ⟨inRam.1, ?_⟩, behind, ?_⟩, ?_⟩ <;>
      unfold pageSize at * <;> omega
  · rintro range ⟨usable, length⟩
    obtain ⟨best, ⟨⟩, longest⟩ := largest.longest range usable
    exact ⟨_, rfl, by omega⟩

/--
For every machine the range is a largest one just if the frames do not start at a RAM base
inside a page.  A cap then leaves a largest range of its size just if it is a number of pages
or does not cut the range.
-/
theorem frame_range_is_largest_iff (window : UserWindow) (kernelEnd ramBase ramSize : Nat)
    (hram : ramBase + ramSize ≤ usizeMax) :
    let usable := Usable window kernelEnd ramBase (ramBase + ramSize)
    let found := frameRange window kernelEnd ramBase (ramBase + ramSize)
    (Largest usable found ↔ StartsAtPage window kernelEnd ramBase (ramBase + ramSize)) ∧
      ∀ start stop, found = some (start, stop) → Largest usable found → ∀ capacity,
        (Largest (fun range => usable range ∧ range.2 - range.1 ≤ capacity)
          (frameRangeCap start stop capacity) ↔
            capacity % pageSize = 0 ∨ stop - start ≤ capacity) := by
  refine ⟨frameRange_largest_iff hram, fun start stop hfound largest capacity => ?_⟩
  rw [hfound] at largest
  exact frameRangeCap_largest_iff hram largest capacity

theorem frame_range_is_largest_two_parts :
    0 + 0x3c000000 ≤ usizeMax ∧ Largest (Usable userWindow 0x8000000 0 (0 + 0x3c000000))
      (frameRange userWindow 0x8000000 0 (0 + 0x3c000000)) :=
  ⟨by decide, (frame_range_is_largest_iff _ _ _ _ (by decide)).1.mpr (.inl rfl)⟩

/-- RAM that starts inside a page, behind the kernel. -/
theorem range_starts_inside_page :
  frameRange userWindow 0x40000000 0x40200800 0x48000000 = some (0x40200800, 0x48000000) ∧
    0x40200800 % pageSize ≠ 0 := by
  decide

end Smros.PageTable
