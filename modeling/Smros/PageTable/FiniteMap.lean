import Smros.PageTable.LoneCalls
import Smros.PageTable.Supervisor

/-!
# A space of its own as a finite map

A space that shares no table translates as a finite map from pages to frames: a call
that succeeds changes the pages it names, a call that fails changes none, and the
supervisor addresses stay as they are.
-/

namespace Smros.PageTable
open Lib Lib.Program List Function PageTable.Core

/-! ## What a call asks for -/

variable {pfn : Nat}
namespace Call
/-- The page that a call asks for; the frames of a window fit. -/
def userPage (pfn : Nat) (permissions : Core.Permissions) : Option UserPage :=
  if hpfn : pfn < 2 ^ 36 then some ⟨pfn, permissions, hpfn⟩ else none

theorem userPage_of_lt (hpfn : pfn < 2 ^ 36) (perms) :
  userPage pfn perms = some ⟨pfn, perms, hpfn⟩ :=
  dif_pos hpfn

/-- The pages after a call that succeeds. -/
def change (pages : PageMap) : Call → PageMap
  | .mapUserPage vaddr pfn permissions =>
    Function.update pages (vaddr / pageSize) (userPage pfn permissions)
  | .mapUserRegion vaddr firstPfn pageCount permissions => fun page =>
    if vaddr / pageSize ≤ page ∧ page < vaddr / pageSize + pageCount then
      userPage (firstPfn + (page - vaddr / pageSize)) permissions
    else pages page
  | .mapUserPagesWithProtection vaddr pageCount pfnAt protectionAt => fun page =>
    if vaddr / pageSize ≤ page ∧ page < vaddr / pageSize + pageCount then
      userPage (pfnAt (page - vaddr / pageSize)) (protectionAt (page - vaddr / pageSize))
    else pages page
  | .protectUserPage vaddr permissions =>
    Function.update pages (vaddr / pageSize)
      ((pages (vaddr / pageSize)).map fun page => { page with permissions := permissions })
  | .replaceUserPage vaddr pfn permissions =>
    Function.update pages (vaddr / pageSize) (userPage pfn permissions)
  | .unmapUserPage vaddr => Function.update pages (vaddr / pageSize) none

/-- What a call needs: the pages in the user range, frames of the window, no page that is
mapped already for a map, and a mapped page for a change. -/
def Allowed (window : FrameWindow) (pages : PageMap) : Call → Prop
  | .mapUserPage vaddr pfn _ =>
    userRangeValid vaddr pageSize = true ∧ window.Has pfn ∧ pages (vaddr / pageSize) = none
  | .mapUserRegion vaddr firstPfn pageCount _ =>
    userRangeValid vaddr (pageCount * pageSize) = true ∧ ∀ pageIndex < pageCount,
      window.Has (firstPfn + pageIndex) ∧ pages (vaddr / pageSize + pageIndex) = none
  | .mapUserPagesWithProtection vaddr pageCount pfnAt _ =>
    userRangeValid vaddr (pageCount * pageSize) = true ∧ ∀ pageIndex < pageCount,
      window.Has (pfnAt pageIndex) ∧ pages (vaddr / pageSize + pageIndex) = none
  | .protectUserPage vaddr _ =>
    userRangeValid vaddr pageSize = true ∧ (pages (vaddr / pageSize)).isSome = true
  | .replaceUserPage vaddr pfn _ =>
    userRangeValid vaddr pageSize = true ∧ window.Has pfn ∧ (pages (vaddr / pageSize)).isSome = true
  | .unmapUserPage vaddr =>
    userRangeValid vaddr pageSize = true ∧ (pages (vaddr / pageSize)).isSome = true

/-- The frame that a call returns: the one mapped before. -/
def frame (pages : PageMap) : Call → Option Nat
  | .replaceUserPage vaddr _ _ => (pages (vaddr / pageSize)).map UserPage.pfn
  | .unmapUserPage vaddr => (pages (vaddr / pageSize)).map UserPage.pfn
  | .mapUserPage .. => none
  | .mapUserRegion .. => none
  | .mapUserPagesWithProtection .. => none
  | .protectUserPage .. => none

end Call

/-! ## A success of the map -/

namespace Reference
open PageTable.Core (Permissions)
variable {window : FrameWindow} {pages before after : PageMap} {vaddr firstPfn pageCount len : Nat}
  {perms : Permissions} {indices : List Nat} {Value : Type}
theorem mapUserPage_ok (hok : mapUserPage window vaddr pfn perms pages = .ok () after) :
  userRangeValid vaddr pageSize = true ∧ ∃ hpfn : window.Has pfn, pages (vaddr / pageSize) = none ∧
    after = update pages (vaddr / pageSize) (some ⟨pfn, perms, hpfn.lt⟩) := by
  by_cases valid : userRangeValid vaddr pageSize = true
  · rw [mapUserPage_run valid] at hok
    by_cases hpfn : window.Has pfn
    · rw [dif_pos hpfn] at hok
      split at hok
      · cases hok
      rename_i mapped
      cases hok
      exact ⟨valid, hpfn, by simpa using mapped, rfl⟩
    · rw [dif_neg hpfn] at hok
      cases hok
  · rw [mapUserPage_run_invalid valid] at hok
    cases hok

/-- The page loops of the two calls succeed alike. -/
theorem mapRegionPages_ok (before)
  (hok : mapRegionPages window vaddr firstPfn perms indices pages = .ok () after) :
  mapProtectedPages window before vaddr (firstPfn + ·) (fun _ => perms) indices pages =
    .ok () after := by
  induction indices generalizing pages with
  | nil => exact hok
  | cons page rest ih =>
    rw [mapProtected_run_cons]
    cases hfirst : mapUserPage window (vaddr + page * pageSize) (firstPfn + page) perms pages with
    | error error next =>
      rw [mapRegionPages, bind_run_error hfirst] at hok
      cases hok
    | ok value next =>
      rw [mapRegionPages, bind_run_ok hfirst] at hok
      obtain ⟨-, hpfn, hnone, rfl⟩ := mapUserPage_ok hfirst
      rw [if_neg (by simp [hnone]), dif_pos hpfn]
      exact ih hok

theorem page_of_index (vaddr pageIndex) :
  (vaddr + pageIndex * pageSize) / pageSize = vaddr / pageSize + pageIndex :=
  Nat.add_mul_div_right _ _ (by decide)

variable {pfnAt : Nat → Nat} {protAt : Nat → Permissions}
theorem mapProtected_ok
  (hok : mapProtectedPages window before vaddr pfnAt protAt indices pages = .ok () after) :
  (∀ pageIndex ∈ indices,
    window.Has (pfnAt pageIndex) ∧ pages (vaddr / pageSize + pageIndex) = none) ∧
    ∀ page, after page =
      if vaddr / pageSize ≤ page ∧ page - vaddr / pageSize ∈ indices then
        Call.userPage (pfnAt (page - vaddr / pageSize)) (protAt (page - vaddr / pageSize))
      else pages page := by
  induction indices generalizing pages with
  | nil =>
    cases hok
    exact ⟨nofun, fun page => by simp⟩
  | cons pageIndex rest ih =>
    rw [mapProtected_run_cons, page_of_index] at hok
    split at hok
    · cases hok
    rename_i mapped
    by_cases hpfn : window.Has (pfnAt pageIndex)
    · rw [dif_pos hpfn] at hok
      obtain ⟨hrest, hafter⟩ := ih hok
      refine ⟨?_, fun page => ?_⟩
      · intro other hother
        rcases mem_cons.mp hother with rfl | later
        · exact ⟨hpfn, by simpa using mapped⟩
        obtain ⟨hhas, hnone⟩ := hrest other later
        refine ⟨hhas, ?_⟩
        by_cases same : other = pageIndex
        · rw [same, update_self] at hnone
          cases hnone
        · rwa [update_of_ne (by omega)] at hnone
      · rw [hafter page]
        by_cases hpage : page = vaddr / pageSize + pageIndex
        · -- The page of this idx: no later idx names it again.
          have idx : page - vaddr / pageSize = pageIndex := by omega
          have later : pageIndex ∉ rest := by
            intro hmem
            have hnone := (hrest pageIndex hmem).2
            rw [update_self] at hnone
            cases hnone
          rw [idx, if_neg fun hmem => later hmem.2, if_pos ⟨by omega, mem_cons_self⟩,
            hpage, update_self, Call.userPage_of_lt hpfn.lt]
        · rw [update_of_ne hpage]
          have hmem : (vaddr / pageSize ≤ page ∧ page - vaddr / pageSize ∈ pageIndex :: rest) ↔
            vaddr / pageSize ≤ page ∧ page - vaddr / pageSize ∈ rest := by
            refine and_congr_right fun hle => ?_
            rw [mem_cons]
            exact or_iff_right fun same => hpage (by omega)
          simp only [hmem]
    · rw [dif_neg hpfn] at hok
      cases hok

theorem mapProtected_range_ok
  (hok : mapProtectedPages window before vaddr pfnAt protAt (range pageCount) pages =
    .ok () after) :
  (∀ pageIndex < pageCount,
    window.Has (pfnAt pageIndex) ∧ pages (vaddr / pageSize + pageIndex) = none) ∧
    after = Call.change pages (.mapUserPagesWithProtection vaddr pageCount pfnAt protAt) := by
  obtain ⟨allowed, hafter⟩ := mapProtected_ok hok
  refine ⟨fun pageIndex idx => allowed pageIndex (mem_range.mpr idx), ?_⟩
  funext page
  have hrange : (vaddr / pageSize ≤ page ∧ page - vaddr / pageSize ∈ range pageCount) ↔
    vaddr / pageSize ≤ page ∧ page < vaddr / pageSize + pageCount := by
    rw [mem_range]
    omega
  rw [hafter page, Call.change]
  simp only [hrange]

variable {value : Value}
/-- A call on one mapped page that succeeds. -/
theorem mappedPage_bind_ok {next} (hok : (mappedPage vaddr >>= next) pages = .ok value after) :
  ∃ page, pages (vaddr / pageSize) = some page ∧ next page pages = .ok value after := by
  cases hpage : pages (vaddr / pageSize) with
  | none =>
    rw [bind_run_error (mappedPage_run_none hpage)] at hok
    cases hok
  | some page =>
    rw [bind_run_ok (mappedPage_run_some hpage)] at hok
    exact ⟨page, rfl, hok⟩

variable {error : AddressSpaceCoreError} {prog : ReferenceM Value}
/-- A check that a successful call has passed. -/
theorem check_ok {refused} [Decidable refused]
  (hok : (if refused then throw error else prog) pages = .ok value after) :
  ¬ refused ∧ prog pages = .ok value after := by
  split at hok
  · cases hok
  · rename_i hrefused
    exact ⟨hrefused, hok⟩

theorem valid_ok (hok : (if !userRangeValid vaddr len then throw error else prog) pages =
    .ok value after) : userRangeValid vaddr len = true ∧ prog pages = .ok value after := by
  obtain ⟨valid, hprogram⟩ := check_ok hok
  exact ⟨by simpa using valid, hprogram⟩

/-- A call that succeeds was allowed, changes the pages it names as it asks, and returns
the frame that was there. -/
theorem call_ok {call : Call} {value : Option Nat}
  (hok : call.reference window pages = .ok value after) :
  call.Allowed window pages ∧ after = call.change pages ∧ value = call.frame pages := by
  cases call with
  | mapUserPage vaddr pfn perms =>
    obtain ⟨_, hrun, rfl⟩ := map_run_ok hok
    obtain ⟨valid, hpfn, hnone, rfl⟩ := mapUserPage_ok hrun
    refine ⟨⟨valid, hpfn, hnone⟩, ?_, rfl⟩
    rw [Call.change, Call.userPage_of_lt hpfn.lt]
  | mapUserRegion vaddr firstPfn pageCount perms =>
    obtain ⟨_, hrun, rfl⟩ := map_run_ok hok
    obtain ⟨-, hrun⟩ := check_ok hrun
    obtain ⟨valid, hrun⟩ := valid_ok hrun
    obtain ⟨-, hrun⟩ := check_ok hrun
    rw [get_bind_run, Program.onError] at hrun
    cases hloop : mapRegionPages window vaddr firstPfn perms (range pageCount) pages with
    | error error next =>
      rw [hloop] at hrun
      cases hrun
    | ok result next =>
      rw [hloop] at hrun
      cases hrun
      obtain ⟨allowed, rfl⟩ := mapProtected_range_ok (mapRegionPages_ok pages hloop)
      exact ⟨⟨valid, allowed⟩, rfl, rfl⟩
  | mapUserPagesWithProtection vaddr pageCount pfnAt protAt =>
    obtain ⟨_, hrun, rfl⟩ := map_run_ok hok
    obtain ⟨-, hrun⟩ := check_ok hrun
    obtain ⟨valid, hrun⟩ := valid_ok hrun
    rw [get_bind_run] at hrun
    obtain ⟨allowed, rfl⟩ := mapProtected_range_ok hrun
    exact ⟨⟨valid, allowed⟩, rfl, rfl⟩
  | protectUserPage vaddr perms =>
    obtain ⟨_, hrun, rfl⟩ := map_run_ok hok
    obtain ⟨valid, hrun⟩ := valid_ok hrun
    obtain ⟨page, hpage, hput⟩ := mappedPage_bind_ok hrun
    cases hput
    refine ⟨⟨valid, by simp [hpage]⟩, ?_, rfl⟩
    rw [Call.change, hpage, Option.map_some]
  | replaceUserPage vaddr pfn perms =>
    obtain ⟨_, hrun, rfl⟩ := map_run_ok hok
    obtain ⟨valid, hrun⟩ := valid_ok hrun
    by_cases hpfn : window.Has pfn
    · rw [dif_pos hpfn] at hrun
      obtain ⟨page, hpage, hput⟩ := mappedPage_bind_ok hrun
      cases hput
      refine ⟨⟨valid, hpfn, by simp [hpage]⟩, ?_, by rw [Call.frame, hpage]; rfl⟩
      rw [Call.change, Call.userPage_of_lt hpfn.lt]
    · rw [dif_neg hpfn] at hrun
      cases hrun
  | unmapUserPage vaddr =>
    obtain ⟨_, hrun, rfl⟩ := map_run_ok hok
    obtain ⟨valid, hrun⟩ := valid_ok hrun
    obtain ⟨page, hpage, hput⟩ := mappedPage_bind_ok hrun
    cases hput
    exact ⟨⟨valid, by simp [hpage]⟩, rfl, by rw [Call.frame, hpage]; rfl⟩

end Reference

/-! ## Runs of calls -/

/-- A call and the tables that the frame allocator offers it. -/
structure Attempt where
  call : Call
  offers : List Nat

/-- A space, and the pages that the answers of its calls have promised. -/
structure Tracked where
  space : AddressSpace
  backend : TableBackend
  pages : PageMap

namespace Tracked
variable (tracked : Tracked) (attempt : Attempt)

def result : EStateM.Result AddressSpaceCoreError Core (Option Nat) :=
  attempt.call.run (.start tracked.space (tracked.backend.withOffers attempt.offers))

def reply : Reply :=
  match tracked.result attempt with
  | .ok value _ => .ok value
  | .error error _ => .error error

/-- The pages follow the answer: a success changes them as asked, a failure not at all. -/
def next : Tracked :=
  match tracked.result attempt with
  | .ok _ core => ⟨core.space, core.backend, attempt.call.change tracked.pages⟩
  | .error _ core => ⟨core.space, core.backend, tracked.pages⟩

/-- `map_user_pages_with_protection` returns at once when a frame is outside the window or
no table is left, and keeps the pages before that one; so its frames are in the window and
there are two tables for each of its pages, or it has no second page. -/
def Provided : Prop :=
  match attempt.call with
  | .mapUserPagesWithProtection _ pageCount pfnAt _ =>
    pageCount ≤ 1 ∨ (∀ pageIndex < pageCount, tracked.backend.window.Has (pfnAt pageIndex)) ∧
      Core.Plenty (2 * pageCount) (tracked.backend.withOffers attempt.offers)
  | _ => True

instance : ∀ attempt, Decidable (tracked.Provided attempt)
  | ⟨.mapUserPagesWithProtection _ pageCount pfnAt _, offers⟩ =>
    inferInstanceAs (Decidable (pageCount ≤ 1 ∨
      (∀ pageIndex < pageCount, tracked.backend.window.Has (pfnAt pageIndex)) ∧
        Core.Plenty (2 * pageCount) (tracked.backend.withOffers offers)))
  | ⟨.mapUserPage .., _⟩ => .isTrue trivial
  | ⟨.mapUserRegion .., _⟩ => .isTrue trivial
  | ⟨.protectUserPage .., _⟩ => .isTrue trivial
  | ⟨.replaceUserPage .., _⟩ => .isTrue trivial
  | ⟨.unmapUserPage .., _⟩ => .isTrue trivial

end Tracked

section
variable {first : AddressSpace} {base : TableBackend} {tracked : Tracked}
  (hlone : Lone first base tracked.pages tracked.space tracked.backend)
include hlone
theorem Tracked.result_answers (attempt) :
  Answers (tracked.Provided attempt) first base tracked.pages
    (.start tracked.space (tracked.backend.withOffers attempt.offers)) attempt.call.run
    (attempt.call.reference base.window) := by
  obtain ⟨call, offers⟩ := attempt
  have start := hlone.withOffers offers
  cases call with
  | mapUserPage vaddr pfn perms => exact (mapUserPage_answers start rfl rfl pfn perms).map _
  | mapUserRegion vaddr firstPfn pageCount perms =>
    exact (mapRegion_answers start rfl rfl firstPfn pageCount perms).map _
  | mapUserPagesWithProtection vaddr pageCount pfnAt protAt =>
    refine ((mapProtection_answers start rfl rfl pageCount pfnAt protAt).mono ?_).map _
    rintro (single | ⟨frames, plenty⟩)
    · exact .inl ⟨by simpa using single, fun _ => rfl⟩
    rw [hlone.window] at frames
    exact .inr ⟨fun page idx => frames page (mem_range.mp idx), by rw [length_range]; exact plenty⟩
  | protectUserPage vaddr perms => exact (protectUserPage_answers start perms).map _
  | replaceUserPage vaddr pfn perms => exact (replaceUserPage_answers start pfn perms).map _
  | unmapUserPage vaddr => exact (unmapUserPage_answers start).map _

variable {attempt : Attempt}
theorem Tracked.next_lone (provided : tracked.Provided attempt) :
  Lone first base (tracked.next attempt).pages (tracked.next attempt).space
    (tracked.next attempt).backend := by
  have answers := tracked.result_answers hlone attempt
  unfold Tracked.next
  cases result : tracked.result attempt with
  | ok value core =>
    obtain ⟨after, ref, hafter⟩ := answers.ok result
    obtain ⟨-, rfl, -⟩ := Reference.call_ok ref
    exact hafter
  | error error core => exact answers.error result provided

/-- A success was allowed, and returns the frame that was mapped. -/
theorem Tracked.reply_ok {value : Option Nat} (reply : tracked.reply attempt = .ok value) :
  attempt.call.Allowed tracked.backend.window tracked.pages ∧
    value = attempt.call.frame tracked.pages := by
  have answers := tracked.result_answers hlone attempt
  unfold Tracked.reply at reply
  cases result : tracked.result attempt with
  | ok found core =>
    rw [result] at reply
    cases reply
    obtain ⟨after, ref, -⟩ := answers.ok result
    obtain ⟨allowed, -, frame⟩ := Reference.call_ok ref
    rw [hlone.window]
    exact ⟨allowed, frame⟩
  | error error core =>
    rw [result] at reply
    cases reply

end

theorem Apart.lone {space backend pages} (apart : Apart pages space backend) :
  Lone space backend pages space backend :=
  ⟨apart.placed, apart.contents, rfl, rfl, fun _ _ _ => rfl⟩

/--
In every run of provided calls from a space of its own, the space translates as the map
that the answers have promised, a call succeeds only if the map allows it, and what the
space says of supervisor addresses never changes.
-/
theorem user_pages_are_a_finite_map {space : AddressSpace} {backend : TableBackend}
  {pages : PageMap} (hapart : Apart pages space backend) (attempts : List Attempt)
  (hprovided : Guarded Tracked.Provided Tracked.next ⟨space, backend, pages⟩ attempts) :
  let reached := run Tracked.next ⟨space, backend, pages⟩ attempts
  (∀ vaddr write, reached.space.translateUser reached.backend vaddr write =
      Reference.translateUser reached.pages vaddr write) ∧
    (∀ attempt value, reached.reply attempt = .ok value →
      attempt.call.Allowed reached.backend.window reached.pages ∧
        value = attempt.call.frame reached.pages) ∧
    reached.space.rootPfn = space.rootPfn ∧
    SupervisorSame space backend reached.backend := by
  intro reached
  have hkeeps : ∀ (tracked : Tracked) (attempt : Attempt),
      Lone space backend tracked.pages tracked.space tracked.backend →
      tracked.Provided attempt → Lone space backend (tracked.next attempt).pages
        (tracked.next attempt).space (tracked.next attempt).backend :=
    fun tracked attempt hlone hstep => tracked.next_lone hlone hstep
  have hlone : Lone space backend reached.pages reached.space reached.backend :=
    guarded_invariant hkeeps hapart.lone hprovided
  exact ⟨hlone.translateUser, fun attempt value hreply => Tracked.reply_ok hlone hreply,
    hlone.root, hlone.supervisor⟩

/-- A new space with one supervisor block. -/
def blockSpace : Tracked :=
  match AddressSpace.new ((TableBackend.new Family.exampleWindow).withOffers [0x8000]) with
  | (.error _, backend) => ⟨⟨0, []⟩, backend, fun _ => none⟩
  | (.ok space, backend) =>
    let core := Program.attempt (Core.mapSupervisorRange 0x40000000 0x200000 false true)
      (.start space (backend.withOffers [0x8001]))
    ⟨core.space, core.backend, fun _ => none⟩

theorem blockSpace_apart : Apart (fun _ => none) blockSpace.space blockSpace.backend := by
  have hnew : ∃ backend, AddressSpace.new
    ((TableBackend.new Family.exampleWindow).withOffers [0x8000]) =
      (.ok ⟨0x8000, [0x8000]⟩, backend) := ⟨_, rfl⟩
  obtain ⟨backend, hnew⟩ := hnew
  have apart := AddressSpace.new_apart hnew
  have offers : Apart (fun _ => none) ⟨0x8000, [0x8000]⟩ (backend.withOffers [0x8001]) :=
    ⟨(apart.lone.withOffers _).placed, (apart.lone.withOffers _).contents⟩
  unfold blockSpace
  rw [hnew]
  exact (mapSupervisorRange_apart offers 0x40000000 0x200000 false true).attempt
    (fun _ _ after => after) fun _ _ after => after

/-- Two pages in two slots, then a page mapped again, replaced and unmapped. -/
def providedRun : List Attempt :=
  [⟨.mapUserPagesWithProtection 0x101ff000 2 (0x9000 + ·) (fun _ => (true, true, false)),
      Family.framesFrom 0x8010⟩,
   ⟨.mapUserPage 0x10200000 0x9002 (true, true, true), Family.framesFrom 0x8020⟩,
   ⟨.replaceUserPage 0x10200000 0x9002 (true, false, true), []⟩, ⟨.unmapUserPage 0x101ff000, []⟩]

theorem user_pages_are_a_finite_map_two_slots :
  Guarded Tracked.Provided Tracked.next blockSpace providedRun ∧
    (run Tracked.next blockSpace providedRun).space.translateUser
        (run Tracked.next blockSpace providedRun).backend 0x10200004 false =
      Reference.translateUser (run Tracked.next blockSpace providedRun).pages 0x10200004 false :=
  have hprovided : Guarded Tracked.Provided Tracked.next blockSpace providedRun := by decide +kernel
  ⟨hprovided, (user_pages_are_a_finite_map blockSpace_apart providedRun hprovided).1 _ _⟩

/-- Two pages in two slots, with tables for the first one only. -/
def shortOfTables : Attempt :=
  ⟨.mapUserPagesWithProtection 0x101ff000 2 (0x9000 + ·) (fun _ => (true, true, false)),
    [0x8010, 0x8011]⟩

/-- The call fails, and the first of its pages is mapped. -/
theorem failed_call_maps_a_page : blockSpace.reply shortOfTables = .error .outOfMemory ∧
    blockSpace.space.translateUser blockSpace.backend 0x101ff000 true = none ∧
    (blockSpace.next shortOfTables).space.translateUser
      (blockSpace.next shortOfTables).backend 0x101ff000 true = some 0x9000000 := by
  decide +kernel

end Smros.PageTable
