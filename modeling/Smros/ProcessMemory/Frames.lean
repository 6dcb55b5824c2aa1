import Smros.PageTable.Backend

/-!
# The frame allocator

A bitmap over the frames of one physical window.  The search for a free frame starts
behind the frame handed out last, or at the lowest frame freed since.
-/

namespace Smros.ProcessMemory
open PageTable (FrameWindow)

structure PageFrameAllocator where
  window : FrameWindow
  bitmap : Nat → Bool
  nextSearchPage : Nat

namespace PageFrameAllocator
def new (window : FrameWindow) : PageFrameAllocator := ⟨window, fun _ => false, 0⟩

/-- The frame belongs to the window and its bit is set. -/
def Allocated (frames : PageFrameAllocator) (pfn : Nat) : Prop :=
  frames.window.Has pfn ∧ frames.bitmap (pfn - frames.window.basePfn) = true

instance (frames : PageFrameAllocator) (pfn : Nat) : Decidable (frames.Allocated pfn) :=
  inferInstanceAs (Decidable (_ ∧ _))

variable (frames : PageFrameAllocator)
/-- The first page index whose bit is clear, in search order. -/
def search : Option Nat :=
  let start := min frames.nextSearchPage (frames.window.totalPages - 1)
  ((List.range frames.window.totalPages).map fun offset =>
    (start + offset) % frames.window.totalPages).find? fun pageIndex => !frames.bitmap pageIndex

def alloc : Option (Nat × PageFrameAllocator) :=
  if frames.window.totalPages = 0 then none
  else
    match frames.search with
    | none => none
    | some pageIndex =>
      some (frames.window.basePfn + pageIndex, { frames with
          bitmap := Function.update frames.bitmap pageIndex true
          nextSearchPage := (pageIndex + 1) % frames.window.totalPages })

def free (pfn : Nat) : PageFrameAllocator :=
  if frames.Allocated pfn then
    { frames with
      bitmap := Function.update frames.bitmap (pfn - frames.window.basePfn) false
      nextSearchPage := min frames.nextSearchPage (pfn - frames.window.basePfn) }
  else
    frames

end PageFrameAllocator
end Smros.ProcessMemory
