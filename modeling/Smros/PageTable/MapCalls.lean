import Smros.PageTable.PageCalls

/-!
# The mapping calls

`map_user_page`, `map_user_region` and `map_user_pages_with_protection` as
transactions over one page after the other.
-/

namespace Smros.PageTable
open Lib Lib.Program List Program Reference
namespace Core
/-- The state after one page was written and recorded. -/
def recorded (core : Core) (leaf vaddr : Nat) (descriptor : Descriptor) : Core :=
  { core.wrote leaf vaddr descriptor with mapped := core.mapped ++ [vaddr] }

variable {core : Core} {vaddr leaf : Nat}
theorem recorded_sameShape {others} (hinv : Inv core.backend (core.space :: others))
  (ready : LeafReady core (slotOf vaddr) leaf) (hvaddr : vaddr < userLimit) (descriptor) :
  SameShape core (recorded core leaf vaddr descriptor) :=
  have same := wrote_sameShape hinv ready hvaddr descriptor
  ⟨same.levelOne, same.entries, same.references, same.tables⟩

/-- The leaf of a page, remembered or looked up. -/
theorem ends_cachedLeafTable {cached indices post fail}
  (hit : ∀ leaf, cached = some ((indices.1, indices.2.1), leaf) → post leaf core)
  (miss : Ends (ensureLeafTable indices) core post fail) :
  Ends (cachedLeafTable cached indices) core post fail := by
  cases cached with
  | none => exact miss
  | some entry =>
    obtain ⟨found, leaf⟩ := entry
    unfold cachedLeafTable
    dsimp only
    split
    · rename_i same
      rw [ends_pure]
      exact hit leaf (by rw [same])
    · exact miss

variable {free : Prop} {base : TableBackend} {others : List AddressSpace} {start : Core}
  {before pages : PageMap}
namespace Transaction
variable (call : Transaction base others start before free pages core)
include call
/-- Once a table was created, a page that was calm at the start has a private path. -/
theorem path_of_created (hfree : free) (created : core.created ≠ []) (hvaddr : vaddr < userLimit)
  (calm : Calm start (slotOf vaddr)) : PathPrivate core (slotOf vaddr) := by
  refine ⟨?_, call.evolves.calm _ (slotOf_lt hvaddr) calm⟩
  rcases call.undo hfree with hnone | ⟨table, top, leaves, -, linked, -⟩
  · exact absurd hnone created
  intro found hfound
  obtain rfl := Option.some.inj (linked.level.symm.trans hfound)
  exact linked.isPrivate

/-- The first step of every page. -/
theorem ensurePrivate_ends (hvaddr : vaddr < userLimit)
  (calm : free → core.created ≠ [] → Calm start (slotOf vaddr)) :
  Ends (ensurePrivateExistingPath vaddr) core
    (fun _ next => Transaction base others start before free pages next ∧
      Costs 2 core next ∧ SameUndo core next ∧ PathPrivate next (slotOf vaddr) ∧
      (PathPrivate core (slotOf vaddr) → next = core))
    (fun _ next => Transaction base others start before free pages next ∧
      ¬ PageReady core vaddr) := by
  have path : free → core.created ≠ [] → PathPrivate core (slotOf vaddr) := fun hfree created =>
    call.path_of_created hfree created hvaddr (calm hfree created)
  have ends := ensurePrivateExistingPath_ends call.shows.inv hvaddr
  have hprivate := ensurePrivate_ends_private call.shows.inv hvaddr
  refine ⟨fun hrun => ?_, fun hrun => ?_⟩
  · obtain ⟨quiet, costs, undo, hnext⟩ := ends.ok hrun
    exact ⟨call.of_quiet quiet undo fun hfree created =>
      (hprivate (path hfree created)).ok hrun, costs, undo, hnext, fun hcore =>
      (hprivate hcore).ok hrun⟩
  · obtain ⟨quiet, undo, shared, short⟩ := ends.error hrun
    exact ⟨call.of_quiet quiet undo fun hfree created => absurd (path hfree created) shared, short⟩

/-- Writing the entry of a page that was not mapped, and recording it. -/
theorem record (ready : LeafReady core (slotOf vaddr) leaf) (hvaddr : vaddr < userLimit)
  (hnone : pages (vaddr / pageSize) = none) (page) :
  Transaction base others start before free
    (Function.update pages (vaddr / pageSize) (some page))
    (recorded core leaf vaddr page.descriptor) := by
  have same := recorded_sameShape call.shows.inv ready hvaddr page.descriptor
  obtain ⟨table, level, hleaf⟩ := ready.path
  have reached : Reached core vaddr := by
    refine ⟨hvaddr, ⟨table, level, ?_⟩, ready.isPrivate⟩
    rw [hleaf]
    exact Option.some_ne_none leaf
  refine ⟨?_, call.evolves.trans same.evolves, ?_, ?_, ?_⟩
  · obtain ⟨hinv, agree, window, view⟩ := wrote_shows call.shows ready hvaddr (some page)
    exact ⟨hinv, agree, window, view⟩
  · intro other
    have hmapped : (recorded core leaf vaddr page.descriptor).mapped.map (· / pageSize) =
      core.mapped.map (· / pageSize) ++ [vaddr / pageSize] := map_append
    rw [call.cleared other, hmapped]
    by_cases hother : other = vaddr / pageSize
    · simp [hother, hnone]
    · simp [hother]
  · intro other hother
    refine .of_evolves ?_ same.evolves
    rcases mem_append.mp hother with hother | hother
    · exact call.reached other hother
    · exact (mem_singleton.mp hother) ▸ reached
  · intro hfree
    exact (call.undo hfree).of_sameShape same rfl rfl

/-- The tables on the path to the page, and whether one was created. -/
theorem leaf_ends (hvaddr : vaddr < userLimit) (path : PathPrivate core (slotOf vaddr)) :
  Ends (ensureLeafTable (0, slotOf vaddr, vaddr / pageSize % tableEntries)) core
    (fun leaf next => Transaction base others start before free pages next ∧
      Costs 2 core next ∧ LeafReady next (slotOf vaddr) leaf ∧
      (next.created ≠ [] → core.created ≠ [] ∨ ¬ Present start (slotOf vaddr)))
    (fun _ next => Transaction base others start before free pages next ∧
      ¬ Supply 2 core) := by
  have slot := slotOf_lt hvaddr
  refine (call.ensureLeafTable_ends path slot _).mono ?_ fun _ _ fail => fail
  rintro leaf next ⟨hnext, costs, ready, -, same⟩
  refine ⟨hnext, costs, ready, fun created => ?_⟩
  by_cases present : Present core (slotOf vaddr)
  · exact .inl (same present ▸ created)
  · exact .inr fun hstart => present (call.evolves.present _ slot hstart)

/-- One page of a region. -/
theorem mapUserPageRecorded_ends (vaddr)
  (calm : free → core.created ≠ [] → Calm start (slotOf vaddr)) (pfn perms) :
  Ends (mapUserPageRecorded vaddr pfn perms) core (fun _ next => ∃ after,
    Reference.mapUserPage base.window vaddr pfn perms pages = .ok () after ∧
    Transaction base others start before free after next ∧ Costs 4 core next ∧
    (next.created ≠ [] → core.created ≠ [] ∨ ¬ Present start (slotOf vaddr)))
    (fun error next => Transaction base others start before free pages next ∧
      (Supply 4 core → Owned start (slotOf vaddr) →
        Reference.mapUserPage base.window vaddr pfn perms pages = .error error pages)) := by
  unfold mapUserPageRecorded
  by_cases valid : userRangeValid vaddr pageSize = true
  · obtain ⟨hvaddr, -⟩ := lt_limit_of_valid valid
    have ref := mapUserPage_run valid base.window pfn perms pages
    rw [if_neg (by simp [valid])]
    refine .bind ((call.ensurePrivate_ends hvaddr calm).mono (fun _ _ ends => ends) ?_) ?_
    · rintro _ next ⟨hnext, short⟩
      exact ⟨hnext, fun supply owned => absurd
        ⟨supply.mono (by decide), call.evolves.owned _ (slotOf_lt hvaddr) owned⟩ short⟩
    rintro _ mid ⟨hmid, costs, undo, path, -⟩
    rw [ends_get_bind, pfnAddress_of_window hmid.shows.window]
    split
    · rename_i hpfn
      rw [ends_orThrow_some, tableIndices_user hvaddr, ends_orThrow_some]
      refine .bind ((hmid.leaf_ends hvaddr path).mono (fun _ _ ends => ends) ?_) ?_
      · rintro _ next ⟨hnext, short⟩
        exact ⟨hnext, fun supply _ => absurd (costs 2 supply) short⟩
      rintro leaf next ⟨hnext, costsLeaf, ready, created⟩
      rw [ends_readEntry_bind (ready.window hnext.shows.inv hvaddr) (mod_lt _),
        ready.entry hnext.shows hvaddr]
      cases hpage : pages (vaddr / pageSize) with
      | some page =>
        rw [if_pos (by simp [page.descriptor_ne_zero]), ends_throw]
        refine ⟨hnext, fun _ _ => ?_⟩
        rw [ref, dif_pos hpfn, if_pos (by simp [hpage])]
      | none =>
        rw [if_neg (by simp), ends_writeEntry_bind
          (ready.window hnext.shows.inv hvaddr) (mod_lt _), ends_modify]
        refine ⟨_, ?_, hnext.record ready hvaddr hpage ⟨pfn, perms, hpfn.lt⟩, ?_, ?_⟩
        · rw [ref, dif_pos hpfn, if_neg (by simp [hpage])]
        · intro tables supply
          exact (recorded_sameShape hnext.shows.inv ready hvaddr _).supply rfl rfl
            ((costs.trans costsLeaf) tables supply)
        · intro nonempty
          rw [← undo.1]
          exact created nonempty
    · rename_i hpfn
      rw [ends_orThrow_none]
      refine ⟨hmid, fun _ _ => ?_⟩
      rw [ref, dif_neg hpfn]
  · rw [if_pos (by simpa using valid), ends_throw]
    exact ⟨call, fun _ _ => mapUserPage_run_invalid valid _ _ _ _⟩

end Transaction

/-! ## Regions -/

/-- Once the call finds a slot without a leaf, no later page of it is in a slot with a
shared one. -/
def NoHole (core : Core) (vaddrs : List Nat) : Prop :=
  vaddrs.Pairwise fun first later => ¬ Present core (slotOf first) → Calm core (slotOf later)

/-- The pages of a region. -/
def regionPages (vaddr : Nat) (indices : List Nat) : List Nat :=
  indices.map fun pageIndex => vaddr + pageIndex * pageSize

/-- The tables and the held leaves that a call on the pages may need. -/
def PagesReady (core : Core) (vaddrs : List Nat) : Prop :=
  Supply (4 * vaddrs.length) core ∧ ∀ vaddr ∈ vaddrs, Owned core (slotOf vaddr)

namespace Transaction
variable {next : Core} {first : Nat}
/-- The later pages are calm if a table has been created when the first one is done. -/
theorem calm_rest {rest} (holes : free → NoHole start (first :: rest))
  (calm : free → core.created ≠ [] → ∀ later ∈ first :: rest, Calm start (slotOf later))
  (created : next.created ≠ [] → core.created ≠ [] ∨ ¬ Present start (slotOf first)) :
  free → next.created ≠ [] → ∀ later ∈ rest, Calm start (slotOf later) := by
  intro hfree hnext later hlater
  rcases created hnext with hcore | absent
  · exact calm hfree hcore later (mem_cons_of_mem _ hlater)
  · exact (pairwise_cons.mp (holes hfree)).1 later hlater absent

theorem mapRegionPages_ends (vaddr indices)
  (call : Transaction base others start before free pages core)
  (holes : free → NoHole start (regionPages vaddr indices))
  (calm : free → core.created ≠ [] → ∀ later ∈ regionPages vaddr indices, Calm start (slotOf later))
  (firstPfn perms) :
  Ends (mapRegionPages vaddr firstPfn perms indices) core (fun _ next => ∃ after,
    Reference.mapRegionPages base.window vaddr firstPfn perms indices pages = .ok () after ∧
    Transaction base others start before free after next)
    (fun error next => ∃ reached, Transaction base others start before free reached next ∧
      (Supply (4 * indices.length) core →
        (∀ later ∈ regionPages vaddr indices, Owned start (slotOf later)) →
        ∃ left, Reference.mapRegionPages base.window vaddr firstPfn perms indices pages =
          .error error left)) := by
  induction indices generalizing core pages with
  | nil => exact ends_pure.mpr ⟨pages, rfl, call⟩
  | cons page rest ih =>
    have holesRest : free → NoHole start (regionPages vaddr rest) := fun hfree =>
      (pairwise_cons.mp (holes hfree)).2
    have hfirst := call.mapUserPageRecorded_ends (vaddr + page * pageSize)
      (fun hfree created => calm hfree created _ mem_cons_self) (firstPfn + page) perms
    unfold mapRegionPages Reference.mapRegionPages
    refine .bind (hfirst.mono (fun _ _ ends => ends) ?_) ?_
    · rintro error next ⟨hnext, fail⟩
      refine ⟨pages, hnext, fun supply owned => ⟨pages, ?_⟩⟩
      refine bind_run_error (fail (supply.mono ?_) (owned _ mem_cons_self))
      simp only [length_cons]
      omega
    rintro _ next ⟨after, ref, hnext, costs, created⟩
    refine (ih hnext holesRest (calm_rest holes calm created)).mono ?_ ?_
    · rintro _ final ⟨result, hresult, hfinal⟩
      exact ⟨result, (bind_run_ok ref).trans hresult, hfinal⟩
    rintro error final ⟨reached, hfinal, fail⟩
    refine ⟨reached, hfinal, fun supply owned => ?_⟩
    obtain ⟨left, hleft⟩ := fail (costs _ (by simpa [Nat.mul_succ] using supply))
      fun later hlater => owned later (mem_cons_of_mem _ hlater)
    exact ⟨left, (bind_run_ok ref).trans hleft⟩

/-- The leaf remembered from the page before, if it is of the same slot. -/
def Cached (core : Core) (cached : Option ((Nat × Nat) × Nat)) : Prop :=
  ∀ slot leaf, cached = some ((0, slot), leaf) → LeafReady core slot leaf

theorem mapProtected_ends (vaddr pfnAt protAt indices cached)
  (call : Transaction base others start before free pages core)
  (hcached : Cached core cached) (user : ∀ later ∈ regionPages vaddr indices, later < userLimit)
  (holes : free → NoHole start (regionPages vaddr indices)) (calm : free → core.created ≠ [] →
    ∀ later ∈ regionPages vaddr indices, Calm start (slotOf later)) :
  Ends (mapProtectedPages vaddr pfnAt protAt cached indices) core (fun _ next => ∃ after,
    Reference.mapProtectedPages base.window before vaddr pfnAt protAt indices pages =
      .ok () after ∧ Shows base others after next)
    (fun error next => ∃ after, (free → Shows base others after next) ∧
      (Supply (4 * indices.length) core →
        (∀ later ∈ regionPages vaddr indices, Owned start (slotOf later)) →
        Reference.mapProtectedPages base.window before vaddr pfnAt protAt indices pages =
          .error error after)) := by
  induction indices generalizing core pages cached with
  | nil => exact ends_pure.mpr ⟨pages, rfl, call.shows⟩
  | cons pageIndex rest ih =>
    have holesRest : free → NoHole start (regionPages vaddr rest) := fun hfree =>
      (pairwise_cons.mp (holes hfree)).2
    have ref := Reference.mapProtected_run_cons base.window before vaddr pfnAt
      protAt pageIndex rest pages
    have hvaddr := user _ mem_cons_self
    have hslot := slotOf_lt hvaddr
    have length : 4 * (pageIndex :: rest).length = 4 * rest.length + 4 := by
      rw [length_cons, Nat.mul_succ]
    unfold mapProtectedPages
    refine .bind ((call.ensurePrivate_ends hvaddr fun hfree created =>
      calm hfree created _ mem_cons_self).mono (fun _ _ ends => ends) ?_) ?_
    · rintro _ next ⟨hnext, short⟩
      refine ⟨pages, fun _ => hnext.shows, fun supply owned => absurd ⟨supply.mono ?_, ?_⟩ short⟩
      · omega
      · exact call.evolves.owned _ hslot (owned _ mem_cons_self)
    rintro _ mid ⟨hmid, costs, undo, path, kept⟩
    have remembered : ∀ leaf, cached = some ((0, slotOf (vaddr + pageIndex * pageSize)), leaf) →
      LeafReady mid (slotOf (vaddr + pageIndex * pageSize)) leaf := by
      intro leaf hleaf
      have ready := hcached _ leaf hleaf
      rwa [kept ready.isPrivate]
    rw [tableIndices_user hvaddr, ends_orThrow_some]
    dsimp only
    have leaf := ends_cachedLeafTable (fun leaf found =>
      ⟨hmid, .refl 2 mid, remembered leaf found, .inl⟩) (hmid.leaf_ends hvaddr path)
    refine .bind (leaf.mono (fun _ _ ends => ends) ?_) ?_
    · rintro _ next ⟨hnext, short⟩
      refine ⟨pages, fun _ => hnext.shows, fun supply _ => absurd (costs 2 (supply.mono ?_)) short⟩
      omega
    rintro leaf next ⟨hnext, costsLeaf, ready, created⟩
    have window := ready.window hnext.shows.inv hvaddr
    rw [ends_readEntry_bind window (mod_lt _), ready.entry hnext.shows hvaddr]
    cases hpage : pages ((vaddr + pageIndex * pageSize) / pageSize) with
    | some page =>
      rw [if_pos (by simp [page.descriptor_ne_zero]), ends_modify_bind, ends_throw]
      refine ⟨before, hnext.rollback_shows, fun _ _ => ?_⟩
      rw [ref, if_pos (by simp [hpage])]
    | none =>
      rw [if_neg (by simp), ends_get_bind, pfnAddress_of_window hnext.shows.window]
      by_cases hpfn : base.window.Has (pfnAt pageIndex)
      · have recorded := hnext.record ready hvaddr hpage
          ⟨pfnAt pageIndex, protAt pageIndex, hpfn.lt⟩
        have same := recorded_sameShape hnext.shows.inv ready hvaddr
          (pageDescriptor (pfnAt pageIndex * pageSize) (protAt pageIndex))
        have createdCore : next.created ≠ [] → core.created ≠ [] ∨
          ¬ Present start (slotOf (vaddr + pageIndex * pageSize)) := by
          rw [← undo.1]
          exact created
        rw [if_pos hpfn, ends_orThrow_some,
          ends_bind_of_ok (onError_writeEntry window (mod_lt _) _), ends_modify_bind]
        rw [if_neg (by simp [hpage]), dif_pos hpfn] at ref
        refine (ih _ recorded ?_ ?_ holesRest (calm_rest holes calm createdCore)).mono ?_ ?_
        · rintro slot found hfound
          cases hfound
          exact ready.of_sameShape hslot same
        · exact fun later hlater => user later (mem_cons_of_mem _ hlater)
        · rintro _ final ⟨after, result, hfinal⟩
          exact ⟨after, ref.trans result, hfinal⟩
        rintro error final ⟨after, hfinal, result⟩
        refine ⟨after, hfinal, fun supply owned => ?_⟩
        rw [length] at supply
        exact ref.trans (result (same.supply rfl rfl ((costs.trans costsLeaf) _ supply))
          fun later hlater => owned later (mem_cons_of_mem _ hlater))
      · rw [if_neg hpfn, ends_orThrow_none]
        refine ⟨pages, fun _ => hnext.shows, fun _ _ => ?_⟩
        rw [ref, if_neg (by simp [hpage]), dif_neg hpfn]

end Transaction

variable (shows : Shows base others pages core) (created : core.created = [])
  (hmapped : core.mapped = [])
include shows created hmapped
theorem mapRegion_follows (firstPfn pageCount perms) :
  Follows base others pages core (PagesReady core (regionPages vaddr (range pageCount)))
    (NoHole core (regionPages vaddr (range pageCount)))
    (mapUserRegion vaddr firstPfn pageCount perms)
    (Reference.mapUserRegion base.window vaddr firstPfn pageCount perms) := by
  refine follows_ite shows fun _ => follows_valid shows fun _ => follows_ite shows fun _ => ?_
  have begin : Transaction base others core pages
    (NoHole core (regionPages vaddr (range pageCount))) pages core :=
    .begin shows created hmapped
  have hloop := begin.mapRegionPages_ends vaddr (range pageCount) id
    (fun _ hne => absurd created hne) firstPfn perms
  refine (hloop.mono ?_ fun _ _ fail => fail).onError ?_
  · rintro _ next ⟨after, ref, hnext⟩
    refine ⟨after, ?_, hnext.shows⟩
    change onError _ (fun _ => pages) pages = _
    rw [onError, ref]
  · rintro error next ⟨reached, hnext, fail⟩
    refine ⟨pages, hnext.rollback_shows, fun ready => ?_⟩
    obtain ⟨left, hleft⟩ := fail (by simpa [regionPages] using ready.1) ready.2
    change onError _ (fun _ => pages) pages = _
    rw [onError, hleft]

theorem mapProtection_follows (pageCount pfnAt protAt) :
  Follows base others pages core (PagesReady core (regionPages vaddr (range pageCount)))
    (NoHole core (regionPages vaddr (range pageCount)))
    (mapUserPagesWithProtection vaddr pageCount pfnAt protAt)
    (Reference.mapUserPagesWithProtection base.window vaddr pageCount pfnAt protAt) := by
  refine follows_ite shows fun _ => follows_valid shows fun valid => ?_
  have user : ∀ later ∈ regionPages vaddr (range pageCount), later < userLimit := by
    intro later hlater
    obtain ⟨page, idx, rfl⟩ := mem_map.mp hlater
    have limit := (lt_limit_of_valid valid).2
    have inside : page < pageCount := mem_range.mp idx
    unfold pageSize at *
    omega
  by_cases zero : pageCount = 0
  · subst zero
    exact ends_pure.mpr ⟨pages, rfl, shows⟩
  have begin : Transaction base others core pages
    (NoHole core (regionPages vaddr (range pageCount))) pages core :=
    .begin shows created hmapped
  have hloop := Transaction.mapProtected_ends vaddr pfnAt protAt
    (range pageCount) none begin (fun _ _ hnone => by cases hnone) user id
    (fun _ hne => absurd created hne)
  rw [if_neg zero]
  refine hloop.mono ?_ ?_
  · rintro _ next ⟨after, ref, hnext⟩
    exact ⟨after, ref, hnext⟩
  · rintro error next ⟨after, hnext, ref⟩
    exact ⟨after, hnext, fun ready => ref (by simpa [regionPages] using ready.1) ready.2⟩

theorem mapUserPage_follows (pfn perms) :
  Follows base others pages core (Supply 6 core ∧ Owned core (slotOf vaddr)) True
    (mapUserPage vaddr pfn perms)
    (Reference.mapUserPage base.window vaddr pfn perms) := by
  unfold Follows mapUserPage
  by_cases valid : userRangeValid vaddr pageSize = true
  · obtain ⟨hvaddr, -⟩ := lt_limit_of_valid valid
    have reference := mapUserPage_run valid base.window pfn perms pages
    rw [if_neg (by simp [valid])]
    refine .bind ((ensurePrivateExistingPath_ends shows.inv hvaddr).mono
      (fun _ _ ends => ends) ?_) ?_
    · rintro _ next ⟨quiet, -, -, short⟩
      exact ⟨pages, fun _ => quiet.keeps shows, fun ready => absurd
        ⟨ready.1.mono (by decide), ready.2⟩ short⟩
    rintro _ middle ⟨quiet, costs, undo, path⟩
    have hmiddle := quiet.keeps shows
    rw [ends_get_bind, pfnAddress_of_window hmiddle.window]
    split
    · rename_i hpfn
      rw [ends_orThrow_some]
      rcases leafLocation_cases hmiddle.inv mem_cons_self hvaddr with
        ⟨table, leaf, level, hleaf, window, walk, -⟩ | ⟨walk, -⟩
      · have ready : LeafReady middle (slotOf vaddr) leaf := ⟨⟨table, level, hleaf⟩, path⟩
        rw [walk]
        dsimp only
        rw [ends_readEntry_bind window (mod_lt _), ready.entry hmiddle hvaddr]
        cases hpage : pages (vaddr / pageSize) with
        | some page =>
          rw [if_pos (by simp [page.descriptor_ne_zero]), ends_throw]
          refine ⟨pages, fun _ => hmiddle, fun _ => ?_⟩
          rw [reference, dif_pos hpfn, if_pos (by simp [hpage])]
        | none =>
          rw [if_neg (by simp), ends_writeEntry window (mod_lt _)]
          refine ⟨_, ?_, wrote_shows hmiddle ready hvaddr (some ⟨pfn, perms, hpfn.lt⟩)⟩
          rw [reference, dif_pos hpfn, if_neg (by simp [hpage])]
      · -- no leaf yet: the recorded variant, with nothing to undo so far
        have begin : Transaction base others middle pages True pages middle :=
          .begin hmiddle (undo.1.trans created) (undo.2.trans hmapped)
        have ends := begin.mapUserPageRecorded_ends vaddr
          (fun _ hne => absurd (undo.1.trans created) hne) pfn perms
        rw [walk]
        refine (ends.mono ?_ fun _ _ fail => fail).onError ?_
        · rintro _ next ⟨after, result, hnext, -⟩
          exact ⟨after, result, hnext.shows⟩
        · rintro error next ⟨hnext, fail⟩
          refine ⟨pages, hnext.rollback_shows, fun ready => ?_⟩
          exact fail (costs 4 ready.1) (quiet.evolves.owned _ (slotOf_lt hvaddr) ready.2)
    · rename_i hpfn
      rw [ends_orThrow_none]
      refine ⟨pages, fun _ => hmiddle, fun _ => ?_⟩
      rw [reference, dif_neg hpfn]
  · rw [if_pos (by simpa using valid), ends_throw]
    exact ⟨pages, fun _ => shows, fun _ => mapUserPage_run_invalid valid _ _ _ _⟩

end Core
end Smros.PageTable
