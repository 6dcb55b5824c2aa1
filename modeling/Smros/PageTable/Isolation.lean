import Smros.PageTable.Family

/-!
# Isolation of cloned spaces

With enough tables, a family of address spaces behaves like a family of independent
page maps in every run whose calls and drops find the tables they need in the lists
of the spaces.
-/

namespace Smros.PageTable
open Lib List

/-! ## Deciding the conditions -/

namespace Core
variable (core : Core)

instance (slot : Nat) : Decidable (Present core slot) :=
  decidableExistsSome core.levelOne fun table => pointer (core.backend.entries table slot) ≠ none

instance : Decidable (TopPrivate core) :=
  decidableForallSome core.levelOne fun table => core.backend.references table ≤ 1

instance (slot : Nat) : Decidable (Calm core slot) :=
  decidableForallSome core.levelOne fun table =>
    ∀ leaf, pointer (core.backend.entries table slot) = some leaf →
      core.backend.references table ≤ 1 ∧ core.backend.references leaf ≤ 1

instance (slot : Nat) : Decidable (Owned core slot) :=
  decidableForallSome core.levelOne fun table =>
    core.backend.references table ≤ 1 →
      ∀ leaf, pointer (core.backend.entries table slot) = some leaf →
        2 ≤ core.backend.references leaf → leaf ∈ core.space.tablePfns

instance (vaddrs : List Nat) : Decidable (NoHole core vaddrs) :=
  inferInstanceAs (Decidable (vaddrs.Pairwise _))

instance (tables : Nat) : Decidable (Supply tables core) :=
  decidable_of_iff (tables ≤ core.backend.offers.length ∧ core.backend.offers.Nodup ∧
      (∀ pfn ∈ core.backend.offers, core.backend.Free pfn) ∧
      (¬ TopPrivate core → ∀ table, core.levelOne = some table →
        ∀ child ∈ core.backend.children table,
          core.backend.references child + tableEntries ≤ maxTableReferences))
    ⟨fun ⟨henough, hnodup, hfree, hroom⟩ => ⟨henough, hnodup, hfree, hroom⟩,
      fun hsupply => ⟨hsupply.enough, hsupply.nodup, hsupply.free, hsupply.room⟩⟩

instance (backend : TableBackend) : Decidable (OfferFree backend) :=
  decidable_of_iff (∃ offer, backend.offers.head? = some offer ∧ backend.Free offer)
    ⟨fun ⟨offer, hhead, hfree⟩ => by
      obtain ⟨rest, hrest⟩ := List.head?_eq_some_iff.mp hhead
      exact ⟨offer, rest, hrest, hfree⟩,
     fun ⟨offer, rest, hoffers, hfree⟩ => ⟨offer, by rw [hoffers]; rfl, hfree⟩⟩

end Core

/-- Every table that a parent link leads to. -/
def linkedTables (backend : TableBackend) (spaces : List AddressSpace) : List Nat :=
  spaces.map (·.rootPfn) ++ levelOnes backend spaces ++
    (levelOnes backend spaces).dedup.flatMap backend.children

theorem parents_eq_count (backend spaces pfn) :
  parents backend spaces pfn = (linkedTables backend spaces).count pfn := by
  unfold parents linkedTables
  rw [count_append, count_append]

/-- Only linked tables have parents to compare. -/
theorem covered_iff (backend spaces) : (∀ pfn ∈ linkedTables backend spaces,
    (linkedTables backend spaces).count pfn ≤ holders spaces pfn) ↔
  ∀ pfn, parents backend spaces pfn ≤ holders spaces pfn := by
  constructor
  · intro linked pfn
    rw [parents_eq_count]
    by_cases hpfn : pfn ∈ linkedTables backend spaces
    · exact linked pfn hpfn
    · rw [count_eq_zero.mpr hpfn]
      exact Nat.zero_le _
  · intro hall pfn _
    rw [← parents_eq_count]
    exact hall pfn

namespace Family
variable (family : Family)

instance : ∀ request, Decidable (Supplied family request)
  | ⟨.new, _⟩ => inferInstanceAs (Decidable (Core.OfferFree _))
  | ⟨.fork _, _⟩ => inferInstanceAs (Decidable (_ ∧ _))
  | ⟨.call member call, offers⟩ =>
    inferInstanceAs (Decidable (∀ space, family.spaces[member]? = some space →
      Core.Supply call.tables (family.working ⟨.call member call, offers⟩ space)))
  | ⟨.drop _, _⟩ => .isTrue trivial

instance : ∀ request, Decidable (Owning family request)
  | ⟨.call member call, offers⟩ =>
    inferInstanceAs (Decidable (∀ space, family.spaces[member]? = some space →
      ∀ vaddr ∈ call.pages, Core.Owned (family.working ⟨.call member call, offers⟩ space)
        (Core.slotOf vaddr)))
  | ⟨.new, _⟩ => .isTrue trivial
  | ⟨.fork _, _⟩ => .isTrue trivial
  | ⟨.drop _, _⟩ => .isTrue trivial

instance (members : List PageMap) : ∀ request, Decidable (Undoable family request members)
  | ⟨.call member call, offers⟩ =>
    inferInstanceAs (Decidable (∀ space, family.spaces[member]? = some space →
      Core.NoHole (family.working ⟨.call member call, offers⟩ space) call.pages ∨
        (Reference.step family.backend.window members ⟨.call member call, offers⟩).1.isOk = true))
  | ⟨.new, _⟩ => .isTrue trivial
  | ⟨.fork _, _⟩ => .isTrue trivial
  | ⟨.drop _, _⟩ => .isTrue trivial

instance : ∀ request, Decidable (Covered family request)
  | ⟨.drop member, _⟩ =>
    decidable_of_iff _ (covered_iff family.backend (family.spaces.eraseIdx member))
  | ⟨.new, _⟩ => .isTrue trivial
  | ⟨.fork _, _⟩ => .isTrue trivial
  | ⟨.call _ _, _⟩ => .isTrue trivial

/-- The request finds enough tables, and the lists of the spaces name every table that
it has to give back or to detach.  The second part of the state is the reference family. -/
def Sound (state : Family × List PageMap) (request : Request) : Prop :=
  Supplied state.1 request ∧ Owning state.1 request ∧ Undoable state.1 request state.2 ∧
    Covered state.1 request

instance (state : Family × List PageMap) (request : Request) : Decidable (Sound state request) :=
  inferInstanceAs (Decidable (_ ∧ _ ∧ _ ∧ _))

/-- The family after a request. -/
def next (request : Request) : Family := (family.step request).2

/-- The space at every index translates user addresses as its map does. -/
def TranslatesAs (members : List PageMap) : Prop :=
  family.spaces.length = members.length ∧ ∀ (member : Nat) (space : AddressSpace) (pages : PageMap),
      family.spaces[member]? = some space →
      members[member]? = some pages → ∀ vaddr write,
        space.translateUser family.backend vaddr write = Reference.translateUser pages vaddr write

theorem Related.translatesAs {fam window members}
  (related : Related window fam members) : fam.TranslatesAs members := by
  refine ⟨by simpa using congrArg length related.views, ?_⟩
  intro member space pages hspace hpages vaddr write
  obtain ⟨found, hfound, view⟩ := related.lookup_some hspace
  obtain rfl := Option.some.inj (hpages.symm.trans hfound)
  exact Core.translateUser_eq related.inv (mem_of_getElem? hspace) view vaddr write

/-- In every run of sound requests, every call answers as on independent page maps,
and every space translates as its own map. -/
theorem cloned_spaces_are_independent (window : FrameWindow) (requests : List Request)
    (hsound : Guarded Sound (sideBySide step (Reference.step window)) (empty window, [])
      requests) :
    (trace step (empty window) requests).1 = (trace (Reference.step window) [] requests).1 ∧
      (trace step (empty window) requests).2.TranslatesAs
        (trace (Reference.step window) [] requests).2 := by
  have hstep : ∀ (fam : Family) (members : List PageMap) (request : Request),
      Related window fam members → Sound (fam, members) request →
      (fam.step request).1 = (Reference.step window members request).1 ∧
        Related window (fam.step request).2 (Reference.step window members request).2 := by
    rintro fam members request hrelated ⟨hsupplied, howning, hundoable, hcovered⟩
    exact step_simulates hrelated hsupplied howning hundoable hcovered
  obtain ⟨hreplies, hrelated⟩ := trace_simulation hstep related_empty hsound
  exact ⟨hreplies, hrelated.translatesAs⟩

/-- A window of frames, as on the boards. -/
def exampleWindow : FrameWindow := ⟨0x8000, 0x2000, by decide⟩

/-- Frames for one call. -/
def framesFrom (first : Nat) : List Nat := (List.range 6).map (first + ·)

/-- The child of a fork changes a page before the parent does, and is dropped. -/
def childFirstRun : List Request :=
  [⟨.new, [0x8000]⟩,
   ⟨.call 0 (.mapUserPage 0x10000000 0x9000 (true, true, false)), framesFrom 0x8001⟩,
   ⟨.fork 0, [0x8003]⟩,
   ⟨.call 1 (.protectUserPage 0x10000000 (true, false, false)), framesFrom 0x8004⟩,
   ⟨.call 0 (.unmapUserPage 0x10000000), framesFrom 0x8006⟩,
   ⟨.drop 1, []⟩]

theorem cloned_spaces_are_independent_child_first :
    Guarded Sound (sideBySide step (Reference.step exampleWindow)) (empty exampleWindow, [])
      childFirstRun ∧
    (trace step (empty exampleWindow) childFirstRun).1 =
      (trace (Reference.step exampleWindow) [] childFirstRun).1 :=
  have hsound : Guarded Sound (sideBySide step (Reference.step exampleWindow))
      (empty exampleWindow, []) childFirstRun := by decide +kernel
  ⟨hsound, (cloned_spaces_are_independent exampleWindow childFirstRun hsound).1⟩

/-- The parent of a fork detaches the level-one table first and with it takes one more
holder for each leaf; the child is left with a shared leaf that is not in its list. -/
def parentFirstRun : List Request :=
  [⟨.new, [0x8000]⟩,
   ⟨.call 0 (.mapUserPage 0x10000000 0x9000 (true, true, false)), framesFrom 0x8001⟩,
   ⟨.call 0 (.mapUserPage 0x10200000 0x9001 (true, true, false)), framesFrom 0x8003⟩,
   ⟨.fork 0, [0x8004]⟩,
   ⟨.call 0 (.protectUserPage 0x10000000 (true, false, false)), framesFrom 0x8005⟩,
   ⟨.call 1 (.unmapUserPage 0x10200000), framesFrom 0x8007⟩]

/-- With enough tables the child cannot unmap its own page. -/
theorem parent_first_unmap_fails : Guarded Supplied next (empty exampleWindow) parentFirstRun ∧
    (trace step (empty exampleWindow) parentFirstRun).1.getLast? = some (.error .invalidAddress) ∧
    (trace (Reference.step exampleWindow) [] parentFirstRun).1.getLast? =
      some (.ok (some 0x9001)) := by
  decide +kernel

end Family
end Smros.PageTable
