import Smros.PageTable.Grow

/-!
# The calls on one mapped page

`protect_user_page`, `replace_user_page` and `unmap_user_page` do to the view of the
space what the reference calls do to its map.
-/

namespace Smros.PageTable
open Lib Lib.Program Reference
namespace Core

/--
The program does to the space what the reference does to `pages`.  If `ready` holds, the
reference fails the same way; the space then shows what the reference left if also `free`.
-/
def Follows {Value : Type} (base : TableBackend) (others : List AddressSpace)
  (pages : PageMap) (core : Core) (ready free : Prop) (program : CoreM Value)
  (reference : Reference.ReferenceM Value) : Prop :=
  Ends program core (fun value next => ∃ after, reference pages = .ok value after ∧
      Shows base others after next)
    (fun error next => ∃ after, (free → Shows base others after next) ∧
      (ready → reference pages = .error error after))

variable {vaddr len : Nat}
theorem lt_limit_of_valid (valid : userRangeValid vaddr len = true) :
  vaddr < userLimit ∧ vaddr + len ≤ userLimit := by
  unfold userRangeValid at valid
  simp only [Bool.and_eq_true, bne_iff_ne, decide_eq_true_eq] at valid
  omega

variable {ready free refused : Prop} {base : TableBackend} {others : List AddressSpace}
  {pages : PageMap} {core : Core} {leaf : Nat} (shows : Shows base others pages core)
theorem pfnAddress_of_window {backend : TableBackend} (window : backend.window = base.window) (pfn) :
  backend.pfnAddress pfn = if base.window.Has pfn then some (pfn * pageSize) else none := by
  unfold TableBackend.pfnAddress FrameWindow.pfnAddress
  rw [window]

/-- The tables and the held leaf that a call on the page may need. -/
def PageReady (core : Core) (vaddr : Nat) : Prop := Supply 2 core ∧ Owned core (slotOf vaddr)

variable {Value : Type}
/-- Clearing an entry and writing it again. -/
theorem rewrote_shows {after} (hafter : Shows base others pages after)
  (ready : LeafReady after (slotOf vaddr) leaf) (hvaddr : vaddr < userLimit) (page) :
  Shows base others (Function.update pages (vaddr / pageSize) (some page))
    ((after.wrote leaf vaddr 0#64).wrote leaf vaddr page.descriptor) := by
  have same := wrote_sameShape hafter.inv ready hvaddr 0#64
  have cleared := wrote_shows hafter ready hvaddr none
  have wrote := wrote_shows cleared (ready.of_sameShape (slotOf_lt hvaddr) same) hvaddr (some page)
  rwa [Function.update_idem] at wrote

include shows
theorem mappedPage_ends (hvaddr : vaddr < userLimit) : Ends (mappedPage vaddr) core
    (fun found next => ∃ leaf page, pages (vaddr / pageSize) = some page ∧
      found = ((leaf, vaddr / pageSize % tableEntries), page.descriptor) ∧
      Shows base others pages next ∧ LeafReady next (slotOf vaddr) leaf)
    (fun error next => Shows base others pages next ∧
      (PageReady core vaddr → error = .notMapped ∧ pages (vaddr / pageSize) = none)) := by
  unfold mappedPage
  refine Ends.bind ((ensurePrivateExistingPath_ends shows.inv hvaddr).mono
    (fun _ _ ends => ends) ?_) ?_
  · rintro _ next ⟨quiet, -, -, short⟩
    exact ⟨quiet.keeps shows, fun ready => absurd ready short⟩
  rintro _ next ⟨quiet, -, -, path⟩
  have hnext := quiet.keeps shows
  have view := congrFun hnext.view (vaddr / pageSize)
  rw [ends_get_bind]
  rcases leafLocation_cases hnext.inv List.mem_cons_self hvaddr with
    ⟨table, leaf, level, hleaf, window, walk, hfound⟩ | ⟨walk, hfound⟩
  · rw [walk]
    dsimp only
    rw [ends_readEntry_bind window (mod_lt _), ← hfound, view]
    unfold encodePages
    cases hpage : pages (vaddr / pageSize) with
    | none =>
      rw [encode_none, descriptorValid_zero]
      exact ends_throw.mpr ⟨hnext, fun _ => ⟨rfl, rfl⟩⟩
    | some page =>
      rw [encode_some, page.descriptor_valid]
      exact ends_pure.mpr ⟨leaf, page, rfl, rfl, hnext, ⟨table, level, hleaf⟩, path⟩
  · rw [walk]
    rw [hfound] at view
    exact ends_throw.mpr ⟨hnext, fun _ => ⟨rfl, encode_eq_zero.mp view.symm⟩⟩

/-- A call that goes on with the mapped page. -/
theorem follows_mappedPage (hvaddr : vaddr < userLimit)
  {next : (Nat × Nat) × Descriptor → CoreM Value} {ref : UserPage → ReferenceM Value}
  (hnext : ∀ leaf page after, pages (vaddr / pageSize) = some page →
    Shows base others pages after → LeafReady after (slotOf vaddr) leaf →
    Follows base others pages after (PageReady core vaddr) True
      (next ((leaf, vaddr / pageSize % tableEntries), page.descriptor)) (ref page)) :
  Follows base others pages core (PageReady core vaddr) True
    (mappedPage vaddr >>= next) (Reference.mappedPage vaddr >>= ref) := by
  refine Ends.bind ((mappedPage_ends shows hvaddr).mono (fun _ _ ends => ends) ?_) ?_
  · rintro error after ⟨hafter, fail⟩
    refine ⟨pages, fun _ => hafter, fun ready => ?_⟩
    obtain ⟨rfl, hnone⟩ := fail ready
    exact bind_run_error (mappedPage_run_none hnone)
  rintro _ after ⟨leaf, page, hpage, rfl, hafter, ready⟩
  have hrun := mappedPage_run_some hpage
  refine (hnext leaf page after hpage hafter ready).mono ?_ ?_
  · rintro value final ⟨result, hresult, hfinal⟩
    exact ⟨result, (bind_run_ok hrun).trans hresult, hfinal⟩
  · rintro error final ⟨result, hfinal, hresult⟩
    exact ⟨result, hfinal, fun ready => (bind_run_ok hrun).trans (hresult ready)⟩

variable {error : AddressSpaceCoreError} {prog : CoreM Value} {ref : ReferenceM Value}
/-- Both sides make the same check first. -/
theorem follows_ite [Decidable refused]
  (passed : ¬ refused → Follows base others pages core ready free prog ref) :
  Follows base others pages core ready free
    (if refused then throw error else prog) (if refused then throw error else ref) := by
  by_cases hrefused : refused
  · rw [if_pos hrefused, if_pos hrefused]
    exact ends_throw.mpr ⟨pages, fun _ => shows, fun _ => rfl⟩
  · rw [if_neg hrefused, if_neg hrefused]
    exact passed hrefused

theorem follows_valid (passed : userRangeValid vaddr len = true →
    Follows base others pages core ready free prog ref) :
  Follows base others pages core ready free
    (if !userRangeValid vaddr len then throw error else prog)
    (if !userRangeValid vaddr len then throw error else ref) :=
  follows_ite shows fun refused => passed (by simpa using refused)

theorem unmapUserPage_follows : Follows base others pages core (PageReady core vaddr) True
    (unmapUserPage vaddr) (Reference.unmapUserPage vaddr) := by
  refine follows_valid shows fun valid => ?_
  obtain ⟨hvaddr, -⟩ := lt_limit_of_valid valid
  refine follows_mappedPage shows hvaddr fun leaf page after hpage hafter ready => ?_
  unfold Follows
  rw [ends_writeEntry_bind (ready.window hafter.inv hvaddr) (mod_lt _), ends_pure]
  refine ⟨Function.update pages (vaddr / pageSize) none, ?_, wrote_shows hafter ready hvaddr none⟩
  rw [page.pfn_descriptor]
  rfl

theorem protectUserPage_follows (perms) :
  Follows base others pages core (PageReady core vaddr) True
    (protectUserPage vaddr perms) (Reference.protectUserPage vaddr perms) := by
  refine follows_valid shows fun valid => ?_
  obtain ⟨hvaddr, -⟩ := lt_limit_of_valid valid
  refine follows_mappedPage shows hvaddr fun leaf page after hpage hafter ready => ?_
  have window := ready.window hafter.inv hvaddr
  have windowCleared : (after.wrote leaf vaddr 0#64).backend.window.Has leaf := window
  unfold Follows
  rw [ends_writeEntry_bind window (mod_lt _)]
  change Ends _ (after.wrote leaf vaddr 0#64) _ _
  rw [ends_writeEntry windowCleared (mod_lt _), page.descriptor_address]
  exact ⟨_, rfl, rewrote_shows hafter ready hvaddr { page with permissions := perms }⟩

theorem replaceUserPage_follows (pfn perms) :
  Follows base others pages core (PageReady core vaddr) True
    (replaceUserPage vaddr pfn perms)
    (Reference.replaceUserPage base.window vaddr pfn perms) := by
  refine follows_valid shows fun valid => ?_
  obtain ⟨hvaddr, -⟩ := lt_limit_of_valid valid
  unfold Follows
  rw [ends_get_bind, pfnAddress_of_window shows.window]
  by_cases hpfn : base.window.Has pfn
  · rw [if_pos hpfn, dif_pos hpfn, ends_orThrow_some]
    refine follows_mappedPage shows hvaddr fun leaf page after hpage hafter ready => ?_
    have window := ready.window hafter.inv hvaddr
    have windowCleared : (after.wrote leaf vaddr 0#64).backend.window.Has leaf := window
    unfold Follows
    rw [ends_writeEntry_bind window (mod_lt _)]
    change Ends _ (after.wrote leaf vaddr 0#64) _ _
    rw [ends_bind_of_ok (onError_writeEntry windowCleared (mod_lt _) _), ends_pure,
      page.pfn_descriptor]
    exact ⟨_, rfl, rewrote_shows hafter ready hvaddr ⟨pfn, perms, hpfn.lt⟩⟩
  · rw [if_neg hpfn, dif_neg hpfn, ends_orThrow_none]
    exact ⟨pages, fun _ => shows, fun _ => rfl⟩

end Core
end Smros.PageTable
