import Smros.PageTable.Alone
import Smros.PageTable.Isolation

/-!
# The calls on a space of its own

Each call against its counterpart on the map of the pages: a success is one of the map,
and a failure leaves the pages as they were.
-/

namespace Smros.PageTable
open Lib Lib.Program List Function Reference
namespace Core
/-- A success is the reference's, and under `sure` a failure changes no page. -/
def Answers {Value : Type} (sure : Prop) (first : AddressSpace) (base : TableBackend)
  (pages : PageMap) (core : Core) (program : CoreM Value)
  (reference : Reference.ReferenceM Value) : Prop :=
  Ends program core (fun value next => ∃ after, reference pages = .ok value after ∧
      Lone first base after next.space next.backend)
    (fun _ next => sure → Lone first base pages next.space next.backend)

variable {Value Result : Type} {sure strong : Prop} {first : AddressSpace} {base : TableBackend}
  {pages : PageMap} {core : Core} {prog : CoreM Value} {reference : ReferenceM Value}
  {leaf : Nat}

section
variable (answers : Answers sure first base pages core prog reference)
include answers
theorem Answers.map (result : Value → Result) :
  Answers sure first base pages core (result <$> prog) (result <$> reference) := by
  refine ⟨fun {value next} hrun => ?_, fun {error next} hrun => ?_⟩
  · obtain ⟨found, hfound, rfl⟩ := map_run_ok hrun
    obtain ⟨after, hafter, lone⟩ := answers.ok hfound
    exact ⟨after, by rw [map_run, hafter], lone⟩
  · exact answers.error (map_run_error hrun)

theorem Answers.mono (hsure : strong → sure) :
  Answers strong first base pages core prog reference :=
  Ends.mono answers (fun _ _ hok => hok) fun _ _ fail hstrong => fail (hsure hstrong)

end

variable {vaddr : Nat} (lone : Lone first base pages core.space core.backend)
section
variable {refused : Prop} {len : Nat} {error : AddressSpaceCoreError}
include lone
/-- Both sides make the same check first. -/
theorem answers_ite [Decidable refused]
  (passed : ¬ refused → Answers sure first base pages core prog reference) :
  Answers sure first base pages core
    (if refused then throw error else prog) (if refused then throw error else reference) := by
  by_cases hrefused : refused
  · rw [if_pos hrefused, if_pos hrefused]
    exact ends_throw.mpr fun _ => lone
  · rw [if_neg hrefused, if_neg hrefused]
    exact passed hrefused

theorem answers_valid
  (passed : userRangeValid vaddr len = true → Answers sure first base pages core prog reference) :
  Answers sure first base pages core (if !userRangeValid vaddr len then throw error else prog)
    (if !userRangeValid vaddr len then throw error else reference) :=
  answers_ite lone fun refused => passed (by simpa using refused)

theorem Lone.ensurePrivate_bind {next : Unit → CoreM Value}
  {post : Value → Core → Prop} {fail : AddressSpaceCoreError → Core → Prop}
  (user : UserAddress vaddr) :
  Ends (ensurePrivateExistingPath vaddr >>= next) core post fail ↔
    Ends (next ()) core post fail := by
  obtain ⟨roles, placed⟩ := lone.placed
  exact ends_bind_of_ok (ensurePrivate_run placed user)

/-- A call that goes on with the mapped page. -/
theorem answers_mappedPage (user : UserAddress vaddr)
  {next : (Nat × Nat) × Descriptor → CoreM Value} {ref : UserPage → ReferenceM Value}
  (hnext : ∀ leaf page, pages (vaddr / pageSize) = some page →
    LeafAt core.space core.backend (slotOf vaddr) leaf → core.backend.window.Has leaf →
    Answers sure first base pages core
      (next ((leaf, vaddr / pageSize % tableEntries), page.descriptor)) (ref page)) :
  Answers sure first base pages core (mappedPage vaddr >>= next)
    (Reference.mappedPage vaddr >>= ref) := by
  have ends : Ends (mappedPage vaddr) core
    (fun found after => after = core ∧ ∃ leaf page, pages (vaddr / pageSize) = some page ∧
      LeafAt core.space core.backend (slotOf vaddr) leaf ∧ core.backend.window.Has leaf ∧
      found = ((leaf, vaddr / pageSize % tableEntries), page.descriptor))
    (fun _ after => sure → Lone first base pages after.space after.backend) := by
    unfold mappedPage
    rw [Lone.ensurePrivate_bind lone user, ends_get_bind]
    rcases lone.walk user with ⟨leaf, hleaf, window, walk⟩ | ⟨walk, -⟩
    · rw [walk]
      dsimp only
      rw [ends_readEntry_bind window (mod_lt _), lone.contents.entry user hleaf]
      cases hpage : pages (vaddr / pageSize) with
      | none =>
        rw [encode_none, descriptorValid_zero]
        exact ends_throw.mpr fun _ => lone
      | some page =>
        rw [encode_some, page.descriptor_valid]
        exact ends_pure.mpr ⟨rfl, leaf, page, rfl, hleaf, window, rfl⟩
    · rw [walk]
      exact ends_throw.mpr fun _ => lone
  refine .bind ends ?_
  rintro _ _ ⟨rfl, leaf, page, hpage, hleaf, window, rfl⟩
  refine .mono (hnext leaf page hpage hleaf window) ?_ fun _ _ fail => fail
  rintro value final ⟨after, hafter, hfinal⟩
  exact ⟨after, (bind_run_ok (mappedPage_run_some hpage)).trans hafter, hfinal⟩

/-- Clearing an entry and writing it again. -/
theorem Lone.rewriteLeaf (user : UserAddress vaddr)
  (hleaf : LeafAt core.space core.backend (slotOf vaddr) leaf) (page) :
  Lone first base (update pages (vaddr / pageSize) (some page)) core.space
    ((core.wrote leaf vaddr 0#64).wrote leaf vaddr page.descriptor).backend := by
  obtain ⟨roles, placed⟩ := lone.placed
  have role := hleaf.role placed (slotOf_lt user.2)
  have cleared := lone.writeLeaf user hleaf none
  have wrote := cleared.writeLeaf user ((placed.leafAt_writeLeaf role).mpr hleaf) (some page)
  rwa [update_idem] at wrote

theorem unmapUserPage_answers :
  Answers sure first base pages core (unmapUserPage vaddr) (Reference.unmapUserPage vaddr) := by
  refine answers_valid lone fun valid => ?_
  have user := userAddress_of_valid valid
  refine answers_mappedPage lone user fun leaf page hpage hleaf window => ?_
  unfold Answers
  rw [ends_writeEntry_bind window (mod_lt _), ends_pure]
  refine ⟨update pages (vaddr / pageSize) none, ?_, lone.writeLeaf user hleaf none⟩
  rw [page.pfn_descriptor]
  rfl

theorem protectUserPage_answers (perms) :
  Answers sure first base pages core (protectUserPage vaddr perms)
    (Reference.protectUserPage vaddr perms) := by
  refine answers_valid lone fun valid => ?_
  have user := userAddress_of_valid valid
  refine answers_mappedPage lone user fun leaf page hpage hleaf window => ?_
  have cleared : (core.wrote leaf vaddr 0#64).backend.window.Has leaf := window
  unfold Answers
  rw [ends_writeEntry_bind window (mod_lt _)]
  change Ends _ (core.wrote leaf vaddr 0#64) _ _
  rw [ends_writeEntry cleared (mod_lt _), page.descriptor_address]
  exact ⟨_, rfl, Lone.rewriteLeaf lone user hleaf { page with permissions := perms }⟩

theorem replaceUserPage_answers (pfn perms) :
  Answers sure first base pages core (replaceUserPage vaddr pfn perms)
    (Reference.replaceUserPage base.window vaddr pfn perms) := by
  refine answers_valid lone fun valid => ?_
  have user := userAddress_of_valid valid
  unfold Answers
  rw [ends_get_bind, pfnAddress_of_window lone.window]
  by_cases hpfn : base.window.Has pfn
  · rw [if_pos hpfn, dif_pos hpfn, ends_orThrow_some]
    refine answers_mappedPage lone user fun leaf page hpage hleaf window => ?_
    have cleared : (core.wrote leaf vaddr 0#64).backend.window.Has leaf := window
    unfold Answers
    rw [ends_writeEntry_bind window (mod_lt _)]
    change Ends _ (core.wrote leaf vaddr 0#64) _ _
    rw [ends_bind_of_ok (onError_writeEntry cleared (mod_lt _) _), ends_pure, page.pfn_descriptor]
    exact ⟨_, rfl, Lone.rewriteLeaf lone user hleaf ⟨pfn, perms, hpfn.lt⟩⟩
  · rw [if_neg hpfn, ends_orThrow_none]
    exact fun _ => lone

end

/-! ## The mapping calls -/

variable {before : PageMap} {old roles : Nat → Option Role} {start : Core}
theorem Contents.record (since : Since old roles start core)
  (contents : Contents pages core.space core.backend) (user : UserAddress vaddr)
  (hleaf : LeafAt core.space core.backend (slotOf vaddr) leaf)
  (hnone : pages (vaddr / pageSize) = none) (page) :
  Since old roles start (recorded core leaf vaddr page.descriptor) ∧
    Contents (update pages (vaddr / pageSize) (some page)) core.space
      (recorded core leaf vaddr page.descriptor).backend := by
  have zero : core.backend.entries leaf (vaddr / pageSize % tableEntries) = 0#64 := by
    rw [contents.entry user hleaf, hnone, encode_none]
  exact ⟨since.record user hleaf zero page.descriptor,
    contents.writeLeaf since.placed user hleaf (some page)⟩

/-- One page of a region. -/
theorem mapUserPageRecorded_since (vaddr pfn perms) (since : Since old roles start core)
  (contents : Contents pages core.space core.backend) :
  Ends (mapUserPageRecorded vaddr pfn perms) core (fun _ next => ∃ grown after,
    Reference.mapUserPage start.backend.window vaddr pfn perms pages = .ok () after ∧
    Since old grown start next ∧ Contents after next.space next.backend)
    (fun _ next => ∃ grown, Since old grown start next) := by
  unfold mapUserPageRecorded
  by_cases valid : userRangeValid vaddr pageSize = true
  · have user := userAddress_of_valid valid
    have ref := mapUserPage_run valid start.backend.window pfn perms pages
    rw [if_neg (by simp [valid]),
      ends_bind_of_ok (ensurePrivate_run since.placed user), ends_get_bind,
      pfnAddress_of_window since.window]
    split
    · rename_i hpfn
      rw [ends_orThrow_some, tableIndices_user user.2, ends_orThrow_some]
      refine .bind ((ensureLeaf_since since contents user).mono (fun _ _ ends => ends) ?_) ?_
      · rintro _ next ⟨grown, hnext, -, -⟩
        exact ⟨grown, hnext⟩
      rintro leaf next ⟨grown, hnext, hpages, hleaf, -⟩
      have window := hleaf.window hnext.placed user
      rw [ends_readEntry_bind window (mod_lt _), hpages.entry user hleaf]
      cases hpage : pages (vaddr / pageSize) with
      | some page =>
        rw [if_pos (by simp [page.descriptor_ne_zero]), ends_throw]
        exact ⟨grown, hnext⟩
      | none =>
        rw [if_neg (by simp), ends_writeEntry_bind window (mod_lt _), ends_modify]
        obtain ⟨recorded, hafter⟩ := Contents.record hnext hpages user hleaf hpage
          ⟨pfn, perms, hpfn.lt⟩
        refine ⟨grown, _, ?_, recorded, hafter⟩
        rw [ref, dif_pos hpfn, if_neg (by simp [hpage])]
    · rw [ends_orThrow_none]
      exact ⟨roles, since⟩
  · rw [if_pos (by simpa using valid), ends_throw]
    exact ⟨roles, since⟩

theorem mapRegionPages_since (vaddr firstPfn perms indices)
  (since : Since old roles start core) (contents : Contents pages core.space core.backend) :
  Ends (mapRegionPages vaddr firstPfn perms indices) core (fun _ next => ∃ grown after,
    Reference.mapRegionPages start.backend.window vaddr firstPfn perms indices pages =
      .ok () after ∧ Since old grown start next ∧ Contents after next.space next.backend)
    (fun _ next => ∃ grown, Since old grown start next) := by
  induction indices generalizing core pages roles with
  | nil => exact ends_pure.mpr ⟨roles, pages, rfl, since, contents⟩
  | cons page rest ih =>
    unfold mapRegionPages Reference.mapRegionPages
    refine .bind (mapUserPageRecorded_since (vaddr + page * pageSize)
      (firstPfn + page) perms since contents) ?_
    rintro _ next ⟨grown, after, ref, hnext, hpages⟩
    refine (ih hnext hpages).mono ?_ fun _ _ fail => fail
    rintro _ final ⟨wider, result, hresult, hfinal⟩
    exact ⟨wider, result, (bind_run_ok ref).trans hresult, hfinal⟩

/-- The pages that are left to map are one that is also the first of the call, or their
frames are in the window and there are tables for all of them. -/
def Unfailing (window : FrameWindow) (pfnAt : Nat → Nat) (before pages : PageMap)
  (indices : List Nat) (backend : TableBackend) : Prop :=
  (indices.length ≤ 1 ∧ (indices ≠ [] → pages = before)) ∨
    (∀ pageIndex ∈ indices, window.Has (pfnAt pageIndex)) ∧ Plenty (2 * indices.length) backend

theorem mapProtected_since (vaddr pfnAt protAt indices cached)
  (since : Since old roles start core) (contents : Contents pages core.space core.backend)
  (placed : Placed old start.space start.backend)
  (hstart : Lone first base before start.space start.backend)
  (hcached : ∀ slot leaf, cached = some ((0, slot), leaf) →
    LeafAt core.space core.backend slot leaf)
  (user : ∀ pageIndex ∈ indices, UserAddress (vaddr + pageIndex * pageSize)) :
  Ends (mapProtectedPages vaddr pfnAt protAt cached indices) core (fun _ next => ∃ after,
    Reference.mapProtectedPages base.window before vaddr pfnAt protAt indices pages =
      .ok () after ∧ Lone first base after next.space next.backend)
    (fun _ next => Unfailing base.window pfnAt before pages indices core.backend →
      Lone first base before next.space next.backend) := by
  induction indices generalizing core pages cached roles with
  | nil => exact ends_pure.mpr ⟨pages, rfl, since.lone hstart contents⟩
  | cons pageIndex rest ih =>
    have ref := Reference.mapProtected_run_cons base.window before vaddr pfnAt
      protAt pageIndex rest pages
    have addr := user _ mem_cons_self
    have hslot := slotOf_lt addr.2
    unfold mapProtectedPages
    rw [ends_bind_of_ok (ensurePrivate_run since.placed addr),
      tableIndices_user addr.2, ends_orThrow_some]
    dsimp only
    have leaf := ends_cachedLeafTable (fun leaf found =>
      ⟨roles, since, contents, hcached _ leaf found, .refl 2 _⟩)
      (ensureLeaf_since since contents addr)
    refine .bind (leaf.mono (fun _ _ ends => ends) ?_) ?_
    · rintro _ next ⟨grown, hnext, hpages, short⟩ (⟨-, hfirst⟩ | ⟨-, plenty⟩)
      · rw [← hfirst (cons_ne_nil _ _)]
        exact hnext.lone hstart hpages
      · refine absurd (plenty.mono ?_) short
        rw [length_cons, Nat.mul_succ]
        exact Nat.le_add_left 2 _
    rintro leaf next ⟨grown, hnext, hpages, hleaf, spends⟩
    have window := hleaf.window hnext.placed addr
    rw [ends_readEntry_bind window (mod_lt _), hpages.entry addr hleaf]
    cases hpage : pages ((vaddr + pageIndex * pageSize) / pageSize) with
    | some page =>
      rw [if_pos (by simp [page.descriptor_ne_zero]), ends_modify_bind, ends_throw]
      exact fun _ => hnext.rollback.lone placed hstart
    | none =>
      rw [if_neg (by simp), ends_get_bind, pfnAddress_of_window (hnext.window.trans hstart.window)]
      by_cases hpfn : base.window.Has (pfnAt pageIndex)
      · obtain ⟨recorded, hafter⟩ := Contents.record hnext hpages addr hleaf hpage
          ⟨pfnAt pageIndex, protAt pageIndex, hpfn.lt⟩
        rw [if_neg (by simp [hpage]), dif_pos hpfn] at ref
        rw [if_pos hpfn, ends_orThrow_some,
          ends_bind_of_ok (onError_writeEntry window (mod_lt _) _), ends_modify_bind]
        refine (ih _ recorded hafter ?_ ?_).mono ?_ ?_
        · rintro slot found hfound
          cases hfound
          exact (hnext.placed.leafAt_writeLeaf (hleaf.role hnext.placed hslot)).mpr hleaf
        · exact fun later hlater => user later (mem_cons_of_mem _ hlater)
        · rintro _ final ⟨after, result, hfinal⟩
          exact ⟨after, ref.trans result, hfinal⟩
        rintro error final fail unfailing
        refine fail ?_
        rcases unfailing with ⟨length, -⟩ | ⟨frames, plenty⟩
        · have hrest : rest = [] := eq_nil_of_length_eq_zero
            (Nat.le_zero.mp (Nat.le_of_succ_le_succ length))
          rw [hrest]
          exact .inl ⟨Nat.zero_le 1, fun hne => absurd rfl hne⟩
        · have hleft := spends (2 * rest.length) plenty
          exact .inr ⟨fun later hlater => frames later (mem_cons_of_mem _ hlater),
            hleft.enough, hleft.nodup, hleft.free⟩
      · rw [if_neg hpfn, ends_orThrow_none]
        rintro (⟨-, hfirst⟩ | ⟨frames, -⟩)
        · rw [← hfirst (cons_ne_nil _ _)]
          exact hnext.lone hstart hpages
        · exact absurd (frames _ mem_cons_self) hpfn

variable (created : core.created = []) (mapped : core.mapped = [])
include lone created mapped
theorem mapUserPage_answers (pfn perms) :
  Answers sure first base pages core (mapUserPage vaddr pfn perms)
    (Reference.mapUserPage base.window vaddr pfn perms) := by
  unfold Answers mapUserPage
  by_cases valid : userRangeValid vaddr pageSize = true
  · have user := userAddress_of_valid valid
    have ref := mapUserPage_run valid base.window pfn perms pages
    rw [if_neg (by simp [valid]), Lone.ensurePrivate_bind lone user, ends_get_bind,
      pfnAddress_of_window lone.window]
    split
    · rename_i hpfn
      rw [ends_orThrow_some]
      rcases lone.walk user with ⟨leaf, hleaf, window, walk⟩ | ⟨walk, -⟩
      · rw [walk]
        dsimp only
        rw [ends_readEntry_bind window (mod_lt _), lone.contents.entry user hleaf]
        cases hpage : pages (vaddr / pageSize) with
        | some page =>
          rw [if_pos (by simp [page.descriptor_ne_zero]), ends_throw]
          exact fun _ => lone
        | none =>
          rw [if_neg (by simp), ends_writeEntry window (mod_lt _)]
          refine ⟨_, ?_, lone.writeLeaf user hleaf (some ⟨pfn, perms, hpfn.lt⟩)⟩
          rw [ref, dif_pos hpfn, if_neg (by simp [hpage])]
      · obtain ⟨roles, placed⟩ := lone.placed
        have ends := mapUserPageRecorded_since vaddr pfn perms
          (.begin placed created mapped) lone.contents
        rw [walk]
        refine (ends.mono ?_ fun _ _ fail => fail).onError ?_
        · rintro _ next ⟨grown, after, result, hnext, hpages⟩
          rw [lone.window] at result
          exact ⟨after, result, hnext.lone lone hpages⟩
        · rintro error next ⟨grown, hnext⟩ -
          exact hnext.rollback.lone placed lone
    · rw [ends_orThrow_none]
      exact fun _ => lone
  · rw [if_pos (by simpa using valid), ends_throw]
    exact fun _ => lone

theorem mapRegion_answers (firstPfn pageCount perms) :
  Answers sure first base pages core (mapUserRegion vaddr firstPfn pageCount perms)
    (Reference.mapUserRegion base.window vaddr firstPfn pageCount perms) := by
  refine answers_ite lone fun _ => answers_valid lone fun _ => answers_ite lone fun _ => ?_
  obtain ⟨roles, placed⟩ := lone.placed
  have hloop := mapRegionPages_since vaddr firstPfn perms (range pageCount)
    (.begin placed created mapped) lone.contents
  refine (hloop.mono ?_ fun _ _ fail => fail).onError ?_
  · rintro _ next ⟨grown, after, ref, hnext, hpages⟩
    refine ⟨after, ?_, hnext.lone lone hpages⟩
    rw [lone.window] at ref
    change Program.onError _ (fun _ => pages) pages = _
    rw [Program.onError, ref]
  · rintro error next ⟨grown, hnext⟩ -
    exact hnext.rollback.lone placed lone

theorem mapProtection_answers (pageCount pfnAt protAt) :
  Answers (Unfailing base.window pfnAt pages pages (range pageCount) core.backend)
    first base pages core
    (mapUserPagesWithProtection vaddr pageCount pfnAt protAt)
    (Reference.mapUserPagesWithProtection base.window vaddr pageCount pfnAt protAt) := by
  refine answers_ite lone fun _ => answers_valid lone fun valid => ?_
  unfold Answers
  by_cases zero : pageCount = 0
  · subst zero
    exact ends_pure.mpr ⟨pages, rfl, lone⟩
  obtain ⟨roles, placed⟩ := lone.placed
  rw [if_neg zero]
  exact mapProtected_since vaddr pfnAt protAt (range pageCount) none
    (.begin placed created mapped) lone.contents placed lone nofun
    fun page idx => userAddress_of_region valid (mem_range.mp idx)

end Core
end Smros.PageTable
