import Smros.Lib.Runs
import Smros.PageTable.Lifetime

/-!
# Families of address spaces

Address spaces are created, cloned, changed and dropped in any order over one
backend.  The reference family is a list of independent page maps, in which a clone
copies the map of its parent.
-/

namespace Smros.PageTable
open Lib Lib.Program List Option TableBackend PageTable.Core Reference AddressSpace

/-! ## Calls -/

/-- The calls that change the mappings of one space. -/
inductive Call where
  | mapUserPage (vaddr pfn : Nat) (permissions : Core.Permissions)
  | mapUserRegion (vaddr firstPfn pageCount : Nat) (permissions : Core.Permissions)
  | mapUserPagesWithProtection (vaddr pageCount : Nat) (pfnAt : Nat → Nat)
      (protectionAt : Nat → Core.Permissions)
  | protectUserPage (vaddr : Nat) (permissions : Core.Permissions)
  | replaceUserPage (vaddr pfn : Nat) (permissions : Core.Permissions)
  | unmapUserPage (vaddr : Nat)

/-- The answer of a call: nothing, or the frame that was mapped before. -/
abbrev Reply := Except AddressSpaceCoreError (Option Nat)

namespace Call
def run : Call → CoreM (Option Nat)
  | .mapUserPage vaddr pfn permissions => (fun _ => none) <$> Core.mapUserPage vaddr pfn permissions
  | .mapUserRegion vaddr firstPfn pageCount permissions =>
    (fun _ => none) <$> Core.mapUserRegion vaddr firstPfn pageCount permissions
  | .mapUserPagesWithProtection vaddr pageCount pfnAt protectionAt =>
    (fun _ => none) <$> Core.mapUserPagesWithProtection vaddr pageCount pfnAt protectionAt
  | .protectUserPage vaddr permissions => (fun _ => none) <$> Core.protectUserPage vaddr permissions
  | .replaceUserPage vaddr pfn permissions => some <$> Core.replaceUserPage vaddr pfn permissions
  | .unmapUserPage vaddr => some <$> Core.unmapUserPage vaddr

def reference (window : FrameWindow) : Call → Reference.ReferenceM (Option Nat)
  | .mapUserPage vaddr pfn permissions =>
    (fun _ => none) <$> Reference.mapUserPage window vaddr pfn permissions
  | .mapUserRegion vaddr firstPfn pageCount permissions =>
    (fun _ => none) <$> Reference.mapUserRegion window vaddr firstPfn pageCount permissions
  | .mapUserPagesWithProtection vaddr pageCount pfnAt protectionAt =>
    (fun _ => none) <$>
      Reference.mapUserPagesWithProtection window vaddr pageCount pfnAt protectionAt
  | .protectUserPage vaddr permissions =>
    (fun _ => none) <$> Reference.protectUserPage vaddr permissions
  | .replaceUserPage vaddr pfn permissions =>
    some <$> Reference.replaceUserPage window vaddr pfn permissions
  | .unmapUserPage vaddr => some <$> Reference.unmapUserPage vaddr

/-- The page addresses the call works on. -/
def pages : Call → List Nat
  | .mapUserPage vaddr _ _ => [vaddr]
  | .mapUserRegion vaddr _ pageCount _ => Core.regionPages vaddr (List.range pageCount)
  | .mapUserPagesWithProtection vaddr pageCount _ _ => Core.regionPages vaddr (List.range pageCount)
  | .protectUserPage vaddr _ => [vaddr]
  | .replaceUserPage vaddr _ _ => [vaddr]
  | .unmapUserPage vaddr => [vaddr]

/-- Tables that are enough for the call: it detaches at most two for each page and
creates at most two, and `map_user_page` may walk twice. -/
def tables (call : Call) : Nat := 6 * call.pages.length

end Call

/-! ## The family -/

structure Family where
  backend : TableBackend
  spaces : List AddressSpace

inductive Action where
  | new
  | fork (parent : Nat)
  | call (member : Nat) (call : Call)
  | drop (member : Nat)

/-- An action, with the frames that the allocator answers with during it. -/
structure Request where
  action : Action
  offers : List Nat

namespace Family
def empty (window : FrameWindow) : Family := ⟨.new window, []⟩

/-- A created space joins the family. -/
def enlist (spaces : List AddressSpace) :
  Except AddressSpaceCoreError AddressSpace × TableBackend → Reply × Family
  | (.ok space, backend) => (.ok none, ⟨backend, spaces ++ [space]⟩)
  | (.error error, backend) => (.error error, ⟨backend, spaces⟩)

/-- A request for a member that does not exist does nothing. -/
def step (family : Family) (request : Request) : Reply × Family :=
  let backend := family.backend.withOffers request.offers
  match request.action with
  | .new => enlist family.spaces (AddressSpace.new backend)
  | .fork parent =>
    match family.spaces[parent]? with
    | none => (.ok none, family)
    | some space => enlist family.spaces (AddressSpace.newForFork space backend)
  | .call member call =>
    match family.spaces[member]? with
    | none => (.ok none, family)
    | some space =>
      match call.run (.start space backend) with
      | .ok value core => (.ok value, ⟨core.backend, family.spaces.set member core.space⟩)
      | .error error core => (.error error, ⟨core.backend, family.spaces.set member core.space⟩)
  | .drop member =>
    match family.spaces[member]? with
    | none => (.ok none, family)
    | some space => (.ok none, ⟨space.drop backend, family.spaces.eraseIdx member⟩)

end Family

namespace Reference
/-- The map of a new space. -/
def noPages : PageMap := fun _ => none

/-- The family of independent page maps. -/
def step (window : FrameWindow) (members : List PageMap) (request : Request) :
  Reply × List PageMap :=
  match request.action with
  | .new => (.ok none, members ++ [noPages])
  | .fork parent =>
    match members[parent]? with
    | none => (.ok none, members)
    | some pages => (.ok none, members ++ [pages])
  | .call member call =>
    match members[member]? with
    | none => (.ok none, members)
    | some pages =>
      match call.reference window pages with
      | .ok value after => (.ok value, members.set member after)
      | .error error after => (.error error, members.set member after)
  | .drop member => (.ok none, members.eraseIdx member)

end Reference

/-! ## Every call follows its reference -/

variable {call : Call}
namespace Core
variable {ready free strongReady strongFree : Prop} {base : TableBackend}
  {others : List AddressSpace} {pages : PageMap} {core : Core} {Value Result : Type}
  {prog : CoreM Value} {reference : ReferenceM Value} {vaddr : Nat}

section
variable (follows : Follows base others pages core ready free prog reference)
include follows
theorem Follows.map (result : Value → Result) :
  Follows base others pages core ready free (result <$> prog) (result <$> reference) := by
  refine ⟨fun {value next} hrun => ?_, fun {error next} hrun => ?_⟩
  · obtain ⟨found, hfound, rfl⟩ := map_run_ok hrun
    obtain ⟨after, hafter, shows⟩ := follows.ok hfound
    exact ⟨after, by rw [map_run, hafter], shows⟩
  · obtain ⟨after, shows, hafter⟩ := follows.error (map_run_error hrun)
    exact ⟨after, shows, fun hready => by rw [map_run, hafter hready]⟩

theorem Follows.mono (hready : strongReady → ready) (hfree : strongFree → free) :
  Follows base others pages core strongReady strongFree prog reference := by
  refine Ends.mono follows (fun _ _ ends => ends) ?_
  rintro error next ⟨after, shows, hafter⟩
  exact ⟨after, fun strong => shows (hfree strong), fun needed => hafter (hready needed)⟩

end

/-- The supply and the held leaves that a call may need. -/
def CallReady (core : Core) (call : Call) : Prop :=
  Supply call.tables core ∧ ∀ vaddr ∈ call.pages, Owned core (slotOf vaddr)

theorem CallReady.pageReady (ready : CallReady core call) (pages : call.pages = [vaddr]) :
  Supply 6 core ∧ Owned core (slotOf vaddr) := by
  obtain ⟨supply, owned⟩ := ready
  unfold Call.tables at supply
  rw [pages] at supply owned
  exact ⟨supply, owned vaddr mem_cons_self⟩

theorem CallReady.pagesReady (ready : CallReady core call) : PagesReady core call.pages :=
  ⟨ready.1.mono (Nat.mul_le_mul_right _ (by decide)), ready.2⟩

/-- Every call does to the space what its reference does to the map. -/
theorem call_follows (shows : Shows base others pages core) (created : core.created = [])
  (mapped : core.mapped = []) (call : Call) :
  Follows base others pages core (CallReady core call) (NoHole core call.pages)
    call.run (call.reference base.window) := by
  cases call with
  | mapUserPage vaddr pfn perms =>
    exact ((mapUserPage_follows shows created mapped pfn perms).mono
      (fun ready => ready.pageReady rfl) fun _ => trivial).map _
  | mapUserRegion vaddr firstPfn pageCount perms =>
    exact ((mapRegion_follows shows created mapped firstPfn pageCount perms).mono
      CallReady.pagesReady id).map _
  | mapUserPagesWithProtection vaddr pageCount pfnAt protAt =>
    exact ((mapProtection_follows shows created mapped pageCount pfnAt
      protAt).mono CallReady.pagesReady id).map _
  | protectUserPage vaddr perms =>
    refine ((protectUserPage_follows shows perms).mono (fun ready => ?_) fun _ => trivial).map _
    exact ⟨(ready.pageReady rfl).1.mono (by decide), (ready.pageReady rfl).2⟩
  | replaceUserPage vaddr pfn perms =>
    refine ((replaceUserPage_follows shows pfn perms).mono (fun ready => ?_) fun _ => trivial).map _
    exact ⟨(ready.pageReady rfl).1.mono (by decide), (ready.pageReady rfl).2⟩
  | unmapUserPage vaddr =>
    refine ((unmapUserPage_follows shows).mono (fun ready => ?_) fun _ => trivial).map _
    exact ⟨(ready.pageReady rfl).1.mono (by decide), (ready.pageReady rfl).2⟩

end Core

/-! ## What a run must meet -/

namespace Family
variable (family : Family) (request : Request)
/-- The space at work, with the answers of the allocator in place. -/
def working (space : AddressSpace) : Core := .start space (family.backend.withOffers request.offers)

/-- The allocator can deliver every table that the request may need. -/
def Supplied : Prop :=
  match request.action with
  | .new => Core.OfferFree (family.backend.withOffers request.offers)
  | .fork parent =>
    Core.OfferFree (family.backend.withOffers request.offers) ∧
      ∀ space, family.spaces[parent]? = some space →
        ∀ table, space.levelOne family.backend = some table →
          family.backend.references table ≠ maxTableReferences
  | .call member call =>
    ∀ space, family.spaces[member]? = some space →
      Core.Supply call.tables (family.working request space)
  | .drop _ => True

/-- The space holds each shared leaf, below a level-one table of its own, that the call
works on. -/
def Owning : Prop :=
  match request.action with
  | .call member call =>
    ∀ space, family.spaces[member]? = some space →
      ∀ vaddr ∈ call.pages, Core.Owned (family.working request space) (Core.slotOf vaddr)
  | _ => True

/-- The call meets no shared leaf after a slot without a leaf, or succeeds on the page maps. -/
def Undoable (members : List PageMap) : Prop :=
  match request.action with
  | .call member call =>
    ∀ space, family.spaces[member]? = some space →
      Core.NoHole (family.working request space) call.pages ∨
        (Reference.step family.backend.window members request).1.isOk = true
  | _ => True

/-- The spaces left after a drop hold what they reach. -/
def Covered : Prop :=
  match request.action with
  | .drop member =>
    ∀ pfn, parents family.backend (family.spaces.eraseIdx member) pfn ≤
      holders (family.spaces.eraseIdx member) pfn
  | _ => True

/-! ## The simulation -/

/-- The invariant holds and each space translates the pages of its map. -/
structure Related (window : FrameWindow) (family : Family)
  (members : List PageMap) : Prop where
  inv : Inv family.backend family.spaces
  window : family.backend.window = window
  views : family.spaces.map (·.view family.backend) = members.map encodePages

variable {family request} {window : FrameWindow} {members : List PageMap}
theorem related_empty : Related window (empty window) [] := by
  refine ⟨⟨fun _ => rfl, fun _ => Nat.le_refl 0, ?_, ?_⟩, rfl, rfl⟩
  · intro table htable
    cases htable
  · intro space hspace
    cases hspace

variable {space : AddressSpace} {member : Nat} {backend : TableBackend} {pages : PageMap}
/-- New answers of the allocator change nothing. -/
theorem Inv.withOffers {spaces} (hinv : Inv backend spaces) (offers) :
  Inv (backend.withOffers offers) spaces :=
  hinv.of_agree (fun _ _ => rfl) fun _ => rfl

variable (related : Related window family members)
section
include related
theorem Related.lookup (member : Nat) : (family.spaces[member]?).map (·.view family.backend) =
    (members[member]?).map encodePages := by
  rw [← getElem?_map, ← getElem?_map, related.views]

/-- The space at work shows its map. -/
theorem Related.shows (request : Request) (hspace : family.spaces[member]? = some space) :
  ∃ pages, members[member]? = some pages ∧ Shows (family.backend.withOffers request.offers)
    (family.spaces.eraseIdx member) pages (family.working request space) := by
  have lookup := related.lookup member
  rw [hspace, map_some] at lookup
  obtain ⟨pages, hpages, view⟩ := map_eq_some_iff.mp lookup.symm
  have perm := perm_eraseIdx hspace
  exact ⟨pages, hpages, Inv.withOffers (related.inv.perm perm.symm) _, Agree.refl _ _, rfl,
    view.symm⟩

/-- The family after one space has changed. -/
theorem Related.set (hmember : member < family.spaces.length) {core}
  (shows : Shows (family.backend.withOffers request.offers)
    (family.spaces.eraseIdx member) pages core) :
  Related window ⟨core.backend, family.spaces.set member core.space⟩
    (members.set member pages) := by
  refine ⟨shows.inv.perm (set_perm_cons_eraseIdx hmember core.space).symm,
    shows.window.trans related.window, ?_⟩
  have same : ∀ space ∈ family.spaces.eraseIdx member,
    space.view core.backend = space.view family.backend := fun space hspace =>
    shows.agree.view_eq hspace
  rw [map_set_of_erase same, related.views, shows.view, map_set]

/-- A space that joins the family. -/
theorem Related.append (hinv : Inv backend (space :: family.spaces))
  (agree : Agree family.backend backend family.spaces) (hwindow : backend.window = window)
  (view : space.view backend = encodePages pages) :
  Related window ⟨backend, family.spaces ++ [space]⟩ (members ++ [pages]) := by
  refine ⟨hinv.perm (perm_append_singleton space family.spaces).symm, hwindow, ?_⟩
  have same : family.spaces.map (·.view backend) = family.spaces.map (·.view family.backend) :=
    map_congr_left fun other hother => agree.view_eq hother
  rw [map_append, map_append, same, related.views, map_singleton, view, map_singleton]

end

/-- One step of the family, next to one step of the reference. -/
def Simulates (window : FrameWindow) (expected : Reply × List PageMap) (result : Reply × Family) :
    Prop :=
  result.1 = expected.1 ∧ Related window result.2 expected.2

include related
theorem new_simulates {offers} (supplied : OfferFree (family.backend.withOffers offers)) :
    Simulates window (.ok none, members ++ [noPages])
      (enlist family.spaces (new (family.backend.withOffers offers))) := by
  have hinv := Inv.withOffers related.inv offers
  obtain ⟨root, rest, free, hnew⟩ := new_ok supplied
  rw [hnew]
  exact ⟨rfl, related.append (hinv.new rest free) (take_agree rest hinv free)
    related.window (new_view rest free)⟩

variable {parent : Nat}
theorem fork_simulates (hspace : family.spaces[parent]? = some space)
    (hpages : members[parent]? = some pages) {offers}
    (supplied : OfferFree (family.backend.withOffers offers))
    (room : ∀ table, space.levelOne family.backend = some table →
      family.backend.references table ≠ maxTableReferences) :
    Simulates window (.ok none, members ++ [pages])
      (enlist family.spaces (newForFork space (family.backend.withOffers offers))) := by
  have hinv := Inv.withOffers related.inv offers
  have hmem : space ∈ family.spaces := mem_of_getElem? hspace
  have view : space.view family.backend = encodePages pages := by
    have lookup := related.lookup parent
    rw [hspace, hpages] at lookup
    exact some.inj lookup
  unfold newForFork
  obtain ⟨root, rest, free, hnew⟩ := new_ok supplied
  have taken := take_agree rest hinv free
  have child := hinv.new rest free
  have ends : Ends (cloneSharedMappingsFrom space)
      (.start ⟨root, [root]⟩ (take _ root rest free)) _ _ :=
    cloneShared_ends child (take_levelOne rest free [root]) hmem
  rw [hnew]
  dsimp only
  cases hrun : cloneSharedMappingsFrom space (.start ⟨root, [root]⟩ _) with
  | ok value core =>
    have keeps := ends.ok hrun
    refine ⟨rfl, related.append keeps.inv (taken.trans keeps.agree)
      (keeps.window.trans related.window) ?_⟩
    exact keeps.view.trans ((taken.view_eq hmem).trans view)
  | error error core =>
    -- the parent's level-one table was at its limit
    obtain ⟨rfl, -, table, level, hmax⟩ := ends.error hrun
    have parentLevel := (taken.upper.levelOne hmem).symm.trans level
    refine absurd ?_ (room table parentLevel)
    have hne : table ≠ root := by
      rintro rfl
      have parents := parents_pos_of_levelOne (mem_levelOnes hmem parentLevel)
      exact Nat.ne_of_gt parents (hinv.parents_of_free free.1)
    have count := take_references rest free table
    simp only [indicator, if_neg hne] at count
    exact count.symm.trans hmax

theorem call_simulates (hspace : family.spaces[member]? = some space)
    (hpages : members[member]? = some pages) (action : request.action = .call member call)
    (ready : CallReady (family.working request space) call)
    (undo : Undoable family request members) :
    Simulates window (Reference.step window members request) (family.step request) := by
  obtain ⟨found, hfound, shows⟩ := related.shows request hspace
  obtain rfl := some.inj (hpages.symm.trans hfound)
  have hmember : member < family.spaces.length := (List.getElem?_eq_some_iff.mp hspace).1
  have follows := call_follows shows rfl rfl call
  have base : (family.backend.withOffers request.offers).window = window := related.window
  rw [base] at follows
  have hstep : family.step request =
      match call.run (family.working request space) with
      | .ok value core => (.ok value, ⟨core.backend, family.spaces.set member core.space⟩)
      | .error error core =>
        (.error error, ⟨core.backend, family.spaces.set member core.space⟩) := by
    unfold step
    rw [action]
    dsimp only
    rw [hspace]
    rfl
  have href : Reference.step window members request =
      match call.reference window pages with
      | .ok value after => (.ok value, members.set member after)
      | .error error after => (.error error, members.set member after) := by
    unfold Reference.step
    rw [action]
    dsimp only
    rw [hpages]
  unfold Undoable at undo
  rw [action] at undo
  have free := undo space hspace
  rw [related.window, href] at free
  rw [href, hstep]
  cases hrun : call.run (family.working request space) with
  | ok value core =>
    obtain ⟨after, ref, hafter⟩ := follows.ok hrun
    rw [ref]
    exact ⟨rfl, related.set hmember hafter⟩
  | error error core =>
    obtain ⟨after, hafter, ref⟩ := follows.error hrun
    rw [ref ready] at free ⊢
    exact ⟨rfl, related.set hmember (hafter (free.resolve_right Bool.false_ne_true))⟩

theorem drop_simulates (hspace : family.spaces[member]? = some space)
    (covered : ∀ pfn, parents family.backend (family.spaces.eraseIdx member) pfn ≤
      holders (family.spaces.eraseIdx member) pfn) (offers) :
    Related window
      ⟨space.drop (family.backend.withOffers offers), family.spaces.eraseIdx member⟩
      (members.eraseIdx member) := by
  have perm := perm_eraseIdx hspace
  have hinv := Inv.withOffers (related.inv.perm perm.symm) offers
  refine ⟨hinv.drop covered, (releaseAll_window ..).trans related.window, ?_⟩
  have same : (family.spaces.eraseIdx member).map
      (·.view (space.drop (family.backend.withOffers offers))) =
      (family.spaces.eraseIdx member).map (·.view family.backend) := by
    refine map_congr_left fun other hother => ?_
    have agree : Agree family.backend (space.drop (family.backend.withOffers offers))
        (family.spaces.eraseIdx member) := fun pfn _ =>
      congrFun (releaseAll_entries ..) pfn
    exact agree.view_eq hother
  rw [same, ← eraseIdx_map, related.views, eraseIdx_map]

theorem Related.lookup_none (space : family.spaces[member]? = none) : members[member]? = none := by
  have lookup := related.lookup member
  rw [space, map_none] at lookup
  exact map_eq_none_iff.mp lookup.symm

theorem Related.lookup_some (hspace : family.spaces[member]? = some space) :
    ∃ pages, members[member]? = some pages ∧ space.view family.backend = encodePages pages := by
  have lookup := related.lookup member
  rw [hspace, map_some] at lookup
  obtain ⟨pages, hpages, view⟩ := map_eq_some_iff.mp lookup.symm
  exact ⟨pages, hpages, view.symm⟩

/-- One request to the family, next to the same request to the reference. -/
theorem step_simulates (supplied : Supplied family request) (owning : Owning family request)
    (undo : Undoable family request members) (covered : Covered family request) :
    Simulates window (Reference.step window members request) (family.step request) := by
  obtain ⟨action, offers⟩ := request
  cases action with
  | new => exact new_simulates related supplied
  | fork parent =>
    unfold step Reference.step
    dsimp only
    cases hspace : family.spaces[parent]? with
    | none =>
      rw [related.lookup_none hspace]
      exact ⟨rfl, related⟩
    | some space =>
      obtain ⟨pages, hpages, -⟩ := related.lookup_some hspace
      rw [hpages]
      exact fork_simulates related hspace hpages supplied.1 (supplied.2 space hspace)
  | call member call =>
    cases hspace : family.spaces[member]? with
    | none =>
      unfold step Reference.step
      dsimp only
      rw [hspace, related.lookup_none hspace]
      exact ⟨rfl, related⟩
    | some space =>
      obtain ⟨pages, hpages, -⟩ := related.lookup_some hspace
      exact call_simulates related hspace hpages rfl
        ⟨supplied space hspace, owning space hspace⟩ undo
  | drop member =>
    unfold step Reference.step
    dsimp only
    cases hspace : family.spaces[member]? with
    | none =>
      have short := getElem?_eq_none_iff.mp (related.lookup_none hspace)
      rw [eraseIdx_of_length_le short]
      exact ⟨rfl, related⟩
    | some space => exact ⟨rfl, drop_simulates related hspace covered offers⟩

end Family
end Smros.PageTable
