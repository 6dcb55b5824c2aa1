import Smros.PageTable.Relink

/-!
# Detaching shared tables

`ensure_private_existing_path` copies the shared tables on the path to an address.
It changes no translation of any space, whether it succeeds or fails, and after a
success the tables on the path belong to this space alone.
-/

namespace Smros.PageTable
open Lib Lib.Program List Function TableBackend Program
open AddressSpaceCoreError (invalidAddress)
namespace Core

/-! ## The primitive steps -/

variable {core : Core} {pfn index source copy : Nat} {Value : Type} {post : Value → Core → Prop}
  {fail : AddressSpaceCoreError → Core → Prop} {desc : Descriptor} {next : Unit → CoreM Value}
section
variable (hpfn : core.backend.window.Has pfn) (hindex : index < tableEntries)
include hpfn hindex
theorem ends_readEntry_bind {next} : Ends (readTableEntry pfn index >>= next) core post fail ↔
    Ends (next (core.backend.entries pfn index)) core post fail := by
  have hrun : readTableEntry pfn index core = .ok (core.backend.entries pfn index) core := by
    change orThrow invalidAddress (core.backend.readTableEntry pfn index) core = _
    rw [readEntry_eq hpfn hindex]
    rfl
  exact ends_bind_of_ok hrun

theorem writeEntry_run : writeTableEntry pfn index desc core =
    .ok () (core.withBackend (core.backend.setEntry pfn index desc)) := by
  change EStateM.bind (orThrow invalidAddress
    (core.backend.writeTableEntry pfn index desc)) _ core = _
  rw [writeEntry_eq _ hpfn hindex]
  rfl

variable {written : Unit → Core → Prop}
theorem ends_writeEntry : Ends (writeTableEntry pfn index desc) core written fail ↔
    written () (core.withBackend (core.backend.setEntry pfn index desc)) :=
  ends_of_ok (writeEntry_run hpfn hindex)

theorem ends_writeEntry_bind :
  Ends (writeTableEntry pfn index desc >>= next) core post fail ↔
    Ends (next ()) (core.withBackend (core.backend.setEntry pfn index desc)) post fail :=
  ends_bind_of_ok (writeEntry_run hpfn hindex)

/-- A write to a table of the window does not fail. -/
theorem onError_writeEntry (cleanup) :
  onError (writeTableEntry pfn index desc) cleanup core =
    .ok () (core.withBackend (core.backend.setEntry pfn index desc)) := by
  rw [onError, writeEntry_run hpfn hindex]

end

theorem ends_copyTableWithin_bind (hsource : core.backend.window.Has source)
  (hcopy : core.backend.window.Has copy) :
  Ends (copyTableWithin source copy >>= next) core post fail ↔
    Ends (next ()) (core.withBackend (core.backend.copyTable source copy)) post fail := by
  have hrun : copyTableWithin source copy core =
    .ok () (core.withBackend (core.backend.copyTable source copy)) := by
    change EStateM.bind (orThrow invalidAddress
      (core.backend.copyTableWithin source copy)) _ core = _
    rw [TableBackend.copyTableWithin, if_pos ⟨hsource, hcopy⟩]
    rfl
  exact ends_bind_of_ok hrun

/-- The table cannot take one more holder. -/
def Saturated (backend : TableBackend) (pfn : Nat) : Prop :=
  backend.references pfn = 0 ∨ backend.references pfn = maxTableReferences

/-- The backend after one more holder came to `pfn`. -/
structure Retained (before after : TableBackend) (pfn : Nat) : Prop where
  window : after.window = before.window
  entries : after.entries = before.entries
  offers : after.offers = before.offers
  references : after.references = Function.update before.references pfn (before.references pfn + 1)

variable {retained : Unit → Core → Prop}
theorem retainTable_ends
  (post : ∀ backend, Retained core.backend backend pfn → retained () (core.withBackend backend))
  (hfail : Saturated core.backend pfn → fail .outOfMemory core) :
  Ends (retainTable pfn) core retained fail := by
  unfold retainTable
  rw [ends_get_bind, TableBackend.retainTable]
  by_cases held : core.backend.references pfn ≠ 0 ∧ core.backend.references pfn ≠ maxTableReferences
  · rw [dif_pos held, ends_orThrow_some]
    exact ends_set.mpr (post _ ⟨rfl, rfl, rfl, rfl⟩)
  rw [dif_neg held, ends_orThrow_none]
  refine hfail ?_
  by_cases zero : core.backend.references pfn = 0
  · exact .inl zero
  · exact .inr (not_not.mp fun hmax => held ⟨zero, hmax⟩)

/-- The next offer of the frame allocator is a free frame. -/
def OfferFree (backend : TableBackend) : Prop :=
  ∃ offer rest, backend.offers = offer :: rest ∧ backend.Free offer

theorem ends_allocateTable_bind {next : Nat → CoreM Value}
  (taken : ∀ offer rest, core.backend.offers = offer :: rest → ∀ hfree : core.backend.Free offer,
    Ends (next offer) (core.withBackend (core.backend.take offer rest hfree)) post fail)
  (hfail : ∀ offers, ¬ OfferFree core.backend →
    fail .outOfMemory (core.withBackend (core.backend.withOffers offers))) :
  Ends (allocateTable >>= next) core post fail := by
  cases hoffers : core.backend.offers with
  | nil =>
    have hrun : allocateTable core = .error .outOfMemory core := by
      simp [allocateTable, TableBackend.allocateTable, hoffers, withBackend]
    have short : ¬ OfferFree core.backend := by
      rintro ⟨offer, rest, hcons, -⟩
      rw [hoffers] at hcons
      cases hcons
    exact (ends_bind_of_error hrun).mpr (hfail core.backend.offers short)
  | cons offer rest =>
    by_cases hfree : core.backend.Free offer
    · have hrun : allocateTable core =
        .ok offer (core.withBackend (core.backend.take offer rest hfree)) := by
        simp [allocateTable, TableBackend.allocateTable, hoffers, hfree]
      exact (ends_bind_of_ok hrun).mpr (taken offer rest hoffers hfree)
    have hrun : allocateTable core =
      .error .outOfMemory (core.withBackend (core.backend.withOffers rest)) := by
      simp [allocateTable, TableBackend.allocateTable, hoffers, hfree]
    refine (ends_bind_of_error hrun).mpr (hfail rest ?_)
    rintro ⟨other, tail, hcons, hother⟩
    rw [hoffers] at hcons
    cases hcons
    exact hfree hother

/-! ## Holding the children of a copied table -/

/-- The call appended `gained` to the held list and counted each of them. -/
structure Extends (before after : Core) (gained : List Nat) : Prop where
  root : after.space.rootPfn = before.space.rootPfn
  tables : after.space.tablePfns = before.space.tablePfns ++ gained
  entries : after.backend.entries = before.backend.entries
  window : after.backend.window = before.backend.window
  offers : after.backend.offers = before.backend.offers
  references : ∀ pfn,
    after.backend.references pfn = before.backend.references pfn + gained.count pfn
  created : after.created = before.created
  mapped : after.mapped = before.mapped

theorem Extends.refl (core) : Extends core core [] :=
  ⟨rfl, by simp, rfl, rfl, rfl, by simp, rfl, rfl⟩

variable {first snd third before middle after : Core} {gained more wanted : List Nat}
  {table child bound : Nat}
theorem Extends.trans (hfirst : Extends first snd gained) (hsnd : Extends snd third more) :
  Extends first third (gained ++ more) where
  root := hsnd.root.trans hfirst.root
  tables := by rw [hsnd.tables, hfirst.tables, append_assoc]
  entries := hsnd.entries.trans hfirst.entries
  window := hsnd.window.trans hfirst.window
  offers := hsnd.offers.trans hfirst.offers
  references pfn := by rw [hsnd.references, hfirst.references, count_append, Nat.add_assoc]
  created := hsnd.created.trans hfirst.created
  mapped := hsnd.mapped.trans hfirst.mapped

variable {backend : TableBackend}
theorem Extends.of_retained (retained : Retained core.backend backend pfn) :
  Extends core ((core.withBackend backend).pushTable pfn) [pfn] where
  root := rfl
  tables := rfl
  entries := retained.entries
  window := retained.window
  offers := retained.offers
  references other := by
    change backend.references other = _
    rw [retained.references, count_singleton]
    by_cases same : other = pfn
    · simp [same]
    · simp [same, Ne.symm same]
  created := rfl
  mapped := rfl

/-- The tables that the entries at the indices point to. -/
def pointers (backend : TableBackend) (table : Nat) (indices : List Nat) : List Nat :=
  indices.filterMap fun index => pointer (backend.entries table index)

theorem pointers_cons_some (hptr : pointer (backend.entries table index) = some child) (rest) :
  pointers backend table (index :: rest) = child :: pointers backend table rest := by
  simp [pointers, hptr]

theorem pointers_cons_none (hptr : pointer (backend.entries table index) = none) (rest) :
  pointers backend table (index :: rest) = pointers backend table rest := by
  simp [pointers, hptr]

/-- How `retain_children` can fail: one of the wanted children is at its limit. -/
def RetainFails (before after : Core) (wanted : List Nat) (bound : Nat) : Prop :=
  ∃ taken, ∃ child ∈ wanted, taken.length < bound ∧ Extends before after taken ∧
    Saturated after.backend child

theorem RetainFails.after_one {first} (hfirst : Extends before middle [first])
  (fails : RetainFails middle after wanted bound) :
  RetainFails before after (first :: wanted) (bound + 1) := by
  obtain ⟨taken, child, hchild, length, hextends, saturated⟩ := fails
  exact ⟨[first] ++ taken, child, mem_cons_of_mem _ hchild, by simpa using length,
    hfirst.trans hextends, saturated⟩

theorem retainChildren_ends (table indices core) (htable : core.backend.window.Has table)
  (hindices : ∀ index ∈ indices, index < tableEntries) :
  Ends (retainChildren table indices) core
    (fun _ next => Extends core next (pointers core.backend table indices))
    (fun _ next => RetainFails core next (pointers core.backend table indices) indices.length) := by
  induction indices generalizing core with
  | nil => exact ends_pure.mpr (.refl core)
  | cons index rest ih =>
    have hrest : ∀ slot ∈ rest, slot < tableEntries := fun slot hslot =>
      hindices slot (mem_cons_of_mem _ hslot)
    unfold retainChildren
    rw [ends_readEntry_bind htable (hindices index mem_cons_self)]
    by_cases valid : descriptorValid (core.backend.entries table index) = true
    · rw [if_pos valid, pointers_cons_some (if_pos valid)]
      generalize descriptorPfn (core.backend.entries table index) = child
      have retain : Ends (retainTable child) core
        (fun _ next => Extends core (next.pushTable child) [child])
        (fun _ next => next = core ∧ Saturated core.backend child) :=
        retainTable_ends (fun _ retained => .of_retained retained)
          fun saturated => ⟨rfl, saturated⟩
      refine (retain.mono (fun _ _ ends => ends) ?_).bind fun _ mid hmid => ?_
      · rintro _ next ⟨rfl, saturated⟩
        exact ⟨[], child, mem_cons_self, Nat.succ_pos _, .refl next, saturated⟩
      rw [ends_modify_bind]
      have window : (mid.pushTable child).backend.window.Has table := by rwa [hmid.window]
      have same : pointers (mid.pushTable child).backend table rest =
        pointers core.backend table rest := by
        unfold pointers
        rw [hmid.entries]
      refine (ih (mid.pushTable child) window hrest).mono ?_ ?_
      · intro _ next hextends
        rw [same] at hextends
        exact hmid.trans hextends
      · intro _ next fails
        rw [same] at fails
        exact fails.after_one hmid
    · rw [if_neg valid, pointers_cons_none (if_neg valid)]
      refine (ih core htable hrest).mono (fun _ _ hextends => hextends) ?_
      rintro _ next ⟨taken, child, hchild, length, hextends⟩
      exact ⟨taken, child, hchild, Nat.lt_succ_of_lt length, hextends⟩

/-! ## One detached table -/

/-- Only the allocator's answers and the content of free frames changed. -/
structure Idle (before after : Core) : Prop where
  space : after.space = before.space
  window : after.backend.window = before.backend.window
  references : ∀ pfn, after.backend.references pfn = before.backend.references pfn
  entries : ∀ pfn, before.backend.references pfn ≠ 0 →
    after.backend.entries pfn = before.backend.entries pfn
  created : after.created = before.created
  mapped : after.mapped = before.mapped

/-- `copy` took the place of `source` below `parent`, and `gained` are held for it. -/
structure Detached (before after : Core) (parent index source copy : Nat)
  (gained : List Nat) : Prop where
  root : after.space.rootPfn = before.space.rootPfn
  free : before.backend.Free copy
  entry : after.backend.entries parent =
    Function.update (before.backend.entries parent) index (tableDescriptor (copy * pageSize))
  copied : after.backend.entries copy = before.backend.entries source
  elsewhere : ∀ pfn, pfn ≠ parent → pfn ≠ copy →
    after.backend.entries pfn = before.backend.entries pfn
  window : after.backend.window = before.backend.window
  offers : before.backend.offers = copy :: after.backend.offers
  references : ∀ pfn, after.backend.references pfn + indicator (pfn = source) =
    before.backend.references pfn + indicator (pfn = copy) + gained.count pfn
  held : ∀ pfn, after.space.tablePfns.count pfn + indicator (pfn = source) =
    before.space.tablePfns.count pfn + indicator (pfn = copy) + gained.count pfn
  created : after.created = before.created
  mapped : after.mapped = before.mapped

/-- Why a table could not be detached. -/
def DetachFails (core : Core) (source : Nat) (gained : List Nat) : Prop :=
  ¬ OfferFree core.backend ∨ source ∉ core.space.tablePfns ∨
    ∃ child ∈ gained, core.backend.references child = 0 ∨
      maxTableReferences < core.backend.references child + tableEntries

variable {pos level parent : Nat} {rest taken tables : List Nat}
  (hfree : core.backend.Free copy)
/-- The state after the copy was allocated and filled. -/
def copied (core : Core) (source copy : Nat) (rest : List Nat)
  (hfree : core.backend.Free copy) : Core :=
  core.withBackend ((core.backend.take copy rest hfree).copyTable source copy)

theorem copied_references (pfn) : (copied core source copy rest hfree).backend.references pfn =
    core.backend.references pfn + indicator (pfn = copy) := by
  change update core.backend.references copy 1 pfn = _
  by_cases same : pfn = copy
  · subst same
    simp [indicator, hfree.1]
  · simp [indicator, same]

theorem copied_entries_of_ne (hpfn : pfn ≠ copy) :
  (copied core source copy rest hfree).backend.entries pfn = core.backend.entries pfn := by
  change update (update core.backend.entries copy _) copy _ pfn = _
  rw [update_of_ne hpfn, update_of_ne hpfn]

theorem copied_entries_copy (hsource : source ≠ copy) :
  (copied core source copy rest hfree).backend.entries copy = core.backend.entries source := by
  change update (update core.backend.entries copy _) copy
    (update core.backend.entries copy _ source) copy = _
  rw [update_self, update_of_ne hsource]

/-- Taking the copy and the retained children back restores every count. -/
theorem idle_of_rollback {next} (hextends : Extends (copied core source copy rest hfree) next taken)
  : Idle core (rollbackDetachedTable copy core.space.tablePfns.length next) := by
  have tables : next.space.tablePfns = core.space.tablePfns ++ taken := hextends.tables
  have drop : next.space.tablePfns.drop core.space.tablePfns.length = taken := by
    rw [tables, drop_left]
  refine ⟨?_, ?_, ?_, ?_, hextends.created, hextends.mapped⟩
  · change (⟨next.space.rootPfn, next.space.tablePfns.take _⟩ : AddressSpace) = core.space
    rw [tables, take_left, hextends.root]
    rfl
  · change ((next.backend.releaseTable copy).releaseAll _).window = _
    rw [releaseAll_window, releaseTable_window]
    exact hextends.window
  · intro pfn
    change ((next.backend.releaseTable copy).releaseAll
      (next.space.tablePfns.drop core.space.tablePfns.length).reverse).references pfn = _
    rw [drop, releaseAll_references, releaseTable_references,
      hextends.references, copied_references, count_reverse]
    dsimp only [indicator]
    omega
  · intro pfn held
    change ((next.backend.releaseTable copy).releaseAll _).entries pfn = _
    rw [releaseAll_entries, releaseTable_entries, hextends.entries]
    refine copied_entries_of_ne hfree ?_
    rintro rfl
    exact held hfree.1

theorem count_swapRemove_append (hpos : tables.findIdx? (· == source) = some pos) (pfn) :
  (swapRemove tables pos ++ [copy]).count pfn + indicator (pfn = source) =
    tables.count pfn + indicator (pfn = copy) := by
  obtain ⟨hlt, found, -⟩ := findIdx?_eq_some_iff_getElem.mp hpos
  have hsource : tables[pos] = source := by simpa using found
  have perm := (swapRemove_perm hlt).count_eq pfn
  rw [hsource, count_cons] at perm
  rw [count_append, count_singleton]
  simp only [beq_iff_eq, eq_comm (b := pfn)] at perm ⊢
  dsimp only [indicator]
  omega

/-- Linking the copy after the children have been retained. -/
theorem linkDetachedTable_ends {next}
  (hextends : Extends (copied core source copy rest hfree) next gained)
  (offers : core.backend.offers = copy :: rest) (hparent : core.backend.references parent ≠ 0)
  (hidx : index < tableEntries) (hsource : 2 ≤ core.backend.references source) :
  Ends (linkDetachedTable parent index source copy) next
    (fun _ after => Detached core after parent index source copy gained)
    (fun _ after => after = next ∧ source ∉ core.space.tablePfns) := by
  have window : next.backend.window = core.backend.window := hextends.window
  have paddr : next.backend.pfnAddress copy = some (copy * pageSize) := by
    unfold pfnAddress FrameWindow.pfnAddress
    rw [window, if_pos hfree.2]
  unfold linkDetachedTable
  rw [ends_get_bind, paddr, ends_orThrow_some]
  cases hpos : next.space.tablePfns.findIdx? (· == source) with
  | none =>
    refine ends_orThrow_none.mpr ⟨rfl, fun hmem => ?_⟩
    have hin : source ∈ next.space.tablePfns := by
      rw [hextends.tables]
      exact mem_append_left _ hmem
    have hnone := findIdx?_eq_none_iff.mp hpos source hin
    simp at hnone
  | some pos =>
    have parentWindow : next.backend.window.Has parent := by
      rw [window]
      exact core.backend.references_window parent hparent
    rw [ends_orThrow_some, ends_writeEntry_bind parentWindow hidx, ends_modify]
    have parentCopy : parent ≠ copy := by
      rintro rfl
      exact hparent hfree.1
    have sourceCopy : source ≠ copy := by
      rintro rfl
      have zero := hfree.1
      omega
    refine ⟨hextends.root, hfree, ?_, ?_, ?_, ?_, ?_, ?_, ?_, hextends.created, hextends.mapped⟩
    · change update next.backend.entries parent _ parent = _
      rw [update_self, hextends.entries, copied_entries_of_ne hfree parentCopy]
    · change update next.backend.entries parent _ copy = _
      rw [update_of_ne parentCopy.symm, hextends.entries, copied_entries_copy hfree sourceCopy]
    · intro pfn hpfn hcopy
      change update next.backend.entries parent _ pfn = _
      rw [update_of_ne hpfn, hextends.entries, copied_entries_of_ne hfree hcopy]
    · exact window
    · rw [offers]
      exact congrArg _ hextends.offers.symm
    · intro pfn
      change (next.backend.releaseTable source).references pfn + _ = _
      have count := hextends.references pfn
      rw [copied_references] at count
      rw [releaseTable_references, count]
      by_cases same : pfn = source
      · subst same
        simp only [indicator, if_true, if_neg sourceCopy]
        omega
      · simp [indicator, same]
    · intro pfn
      change (swapRemove next.space.tablePfns pos ++ [copy]).count pfn + _ = _
      rw [count_swapRemove_append hpos, hextends.tables, count_append]
      change core.space.tablePfns.count pfn + _ + _ = _
      omega

/-- A retained child that is at its limit was close to it before. -/
theorem detachFails_of_saturated {next}
  (hextends : Extends (copied core source copy rest hfree) next taken)
  (length : taken.length < tableEntries) (hchild : child ∈ gained)
  (saturated : Saturated next.backend child) : DetachFails core source gained := by
  refine .inr (.inr ⟨child, hchild, ?_⟩)
  have count := hextends.references child
  have hle := count_le_length (a := child) (l := taken)
  rw [copied_references] at count
  by_cases same : child = copy
  · exact .inl (same ▸ hfree.1)
  simp only [indicator, if_neg same] at count
  rcases saturated with zero | hmax
  · exact .inl (by omega)
  · exact .inr (by omega)

section
variable (hgained : gained = if level = 1 then core.backend.children source else [])
include hgained
theorem fillDetachedTable_ends (offers : core.backend.offers = copy :: rest)
  (hparent : core.backend.references parent ≠ 0) (hidx : index < tableEntries)
  (hsource : 2 ≤ core.backend.references source) :
  Ends (fillDetachedTable parent index source copy level)
    (core.withBackend (core.backend.take copy rest hfree))
    (fun _ after => Detached core after parent index source copy gained)
    (fun _ after => (∃ taken, Extends (copied core source copy rest hfree) after taken) ∧
      DetachFails core source gained) := by
  have sourceWindow := core.backend.references_window source (by omega)
  have sourceCopy : source ≠ copy := by
    rintro rfl
    have zero := hfree.1
    omega
  have link : ∀ {next}, Extends (copied core source copy rest hfree) next gained →
    Ends (linkDetachedTable parent index source copy) next
      (fun _ after => Detached core after parent index source copy gained)
      (fun _ after => (∃ taken, Extends (copied core source copy rest hfree) after taken) ∧
        DetachFails core source gained) := by
    intro next hextends
    refine (linkDetachedTable_ends hfree hextends offers hparent hidx hsource).mono
      (fun _ _ ends => ends) ?_
    rintro _ after ⟨rfl, missing⟩
    exact ⟨⟨_, hextends⟩, .inr (.inl missing)⟩
  unfold fillDetachedTable
  have htaken : (core.withBackend (core.backend.take copy rest hfree)).backend.window =
    core.backend.window := rfl
  rw [ends_copyTableWithin_bind (htaken ▸ sourceWindow) (htaken ▸ hfree.2)]
  change Ends _ (copied core source copy rest hfree) _ _
  by_cases hlevel : level = 1
  · have children : pointers (copied core source copy rest hfree).backend copy
      (range tableEntries) = gained := by
      rw [hgained, if_pos hlevel]
      exact children_congr (copied_entries_copy hfree sourceCopy)
    rw [if_pos hlevel]
    have indices : ∀ slot ∈ range tableEntries, slot < tableEntries := fun slot => mem_range.mp
    have copyWindow : (copied core source copy rest hfree).backend.window.Has copy := hfree.2
    have retain := retainChildren_ends copy (range tableEntries) _ copyWindow indices
    rw [children, length_range] at retain
    refine (retain.mono (fun _ _ ends => ends) ?_).bind fun _ next hextends => link hextends
    rintro _ after ⟨taken, child, hchild, length, hextends, saturated⟩
    exact ⟨⟨taken, hextends⟩, detachFails_of_saturated hfree hextends length hchild saturated⟩
  · rw [if_neg hlevel]
    rw [if_neg hlevel] at hgained
    subst hgained
    exact link (.refl _)

theorem detachTable_ends (hparent : core.backend.references parent ≠ 0)
  (hidx : index < tableEntries) (hsource : 2 ≤ core.backend.references source) :
  Ends (detachSharedTable parent index source level) core
    (fun copy after => Detached core after parent index source copy gained)
    (fun _ after => Idle core after ∧ DetachFails core source gained) := by
  have shared : core.backend.tableIsShared source = true := decide_eq_true hsource
  unfold detachSharedTable
  rw [ends_get_bind, if_pos shared]
  refine ends_allocateTable_bind (fun copy rest hoffers hfree => ?_) fun offers short =>
    ⟨⟨rfl, rfl, fun _ => rfl, fun _ _ => rfl, rfl, rfl⟩, .inl short⟩
  have fill := fillDetachedTable_ends hfree hgained hoffers hparent hidx hsource
  refine (fill.onError ?_).bind fun _ after detached => ends_pure.mpr detached
  rintro _ next ⟨⟨taken, hextends⟩, fails⟩
  exact ⟨idle_of_rollback hfree hextends, fails⟩

end

theorem detachTable_run_private (hsource : core.backend.references source ≤ 1) :
  detachSharedTable parent index source level core = .ok source core := by
  have shared : ¬ core.backend.tableIsShared source = true := by simpa [tableIsShared] using hsource
  change (if core.backend.tableIsShared source = true then _ else _ : CoreM Nat) core = _
  rw [if_neg shared]
  rfl

end Core
end Smros.PageTable
