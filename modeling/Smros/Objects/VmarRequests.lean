import Smros.Objects.VmarRights

/-!
# Requests to map

The regions of the kernel start at pages: the ones that it makes itself do, and a child
starts at an offset that is a number of pages or at an address that was rounded.  So a
request that `sys_vmar_map` refuses has not removed anything.
-/

namespace Smros.Objects
open Lib List
open ProcessMemory (checkedAdd pageAligned roundupPages)
open PageTable (pageSize)
namespace Vmar
variable {vmar : Vmar} {vaddr len : Nat} {wanted : Option Nat} {align : Nat → Option Nat}

theorem recut_baseAddr {pieces} : (vmar.recut vaddr len pieces).2.baseAddr = vmar.baseAddr := by
  unfold recut
  split
  · rfl
  · split <;> rfl

theorem insert_baseAddr {new} : (vmar.insert wanted len align new).2.baseAddr = vmar.baseAddr := by
  unfold insert place
  cases wanted <;> dsimp only <;> split
  all_goals
    rename_i placed
    obtain ⟨-, rfl⟩ := Prod.mk.inj placed
    first
    | rfl
    | split <;> rfl

theorem map_baseAddr {vmo first flags} :
    (vmar.map wanted vmo first len flags).2.baseAddr = vmar.baseAddr := by
  unfold map
  split
  · rfl
  dsimp only
  split <;> exact insert_baseAddr

theorem mapExt_baseAddr {vmo first flags overwrite} :
    (vmar.mapExt wanted vmo first len flags overwrite).2.baseAddr = vmar.baseAddr := by
  cases overwrite with
  | false => exact map_baseAddr
  | true =>
    rcases mapExt_cases vmar len vmo first flags wanted with
      ⟨reason, same⟩ | ⟨offset, vaddr, -, -, -, -, -, -, same⟩
    · rw [same]
    · rw [same, map_baseAddr]
      rfl

theorem pageAligned_alignUp {next} (aligned : alignUp vaddr = some next) :
    pageAligned next = true := by
  obtain ⟨biased, -, rfl⟩ := Option.map_eq_some_iff.mp aligned
  exact beq_iff_eq.mpr (Nat.mul_mod_left _ _)

/-- A free place starts at a page, if the candidates do. -/
theorem pageAligned_findFreeFrom {candidate mappings}
    (hcandidate : pageAligned candidate = true)
    (found : vmar.findFreeFrom len alignUp candidate mappings = .ok vaddr) :
    pageAligned vaddr = true := by
  induction mappings generalizing candidate with
  | nil =>
    unfold findFreeFrom at found
    split at found <;> cases found
    exact hcandidate
  | cons mapping rest ih =>
    unfold findFreeFrom at found
    split at found
    · exact ih hcandidate found
    split at found
    · cases found
      exact hcandidate
    split at found
    · cases found
    · rename_i next hnext
      obtain ⟨stop, -, aligned⟩ := Option.bind_eq_some_iff.mp hnext
      exact ih (pageAligned_alignUp aligned) found

theorem pageAligned_place {after} (hbase : pageAligned vmar.baseAddr = true)
    (placed : vmar.place wanted len alignUp = (.ok vaddr, after)) : pageAligned vaddr = true := by
  unfold place at placed
  cases wanted with
  | some offset =>
    unfold checkedAdd at placed
    unfold pageAligned pageSize at *
    grind [Option.elim]
  | none =>
    cases aligned : alignUp vmar.baseAddr with
    | none => simp [aligned] at placed
    | some candidate =>
      rw [aligned] at placed
      exact pageAligned_findFreeFrom (pageAligned_alignUp aligned) (Prod.mk.inj placed).1

theorem pageAligned_insert {new} (hbase : pageAligned vmar.baseAddr = true)
    (placed : (vmar.insert wanted len alignUp new).1 = .ok vaddr) : pageAligned vaddr = true := by
  unfold insert at placed
  split at placed
  · cases placed
  rename_i place
  split at placed <;> cases placed
  exact pageAligned_place hbase place

end Vmar

/-- Every region starts at a page. -/
def AtPages (vmars : Vmars) : Prop :=
  ∀ object, ∀ vmar ∈ vmars object, pageAligned vmar.baseAddr = true

variable {vmars : Vmars} {state : MemoryHandles} {handle object : Nat}
theorem AtPages.update (atPages : AtPages vmars) {changed : Option Vmar}
    (hchanged : ∀ vmar ∈ changed, pageAligned vmar.baseAddr = true) :
    AtPages (Function.update vmars object changed) := by
  intro other vmar hvmar
  by_cases same : other = object
  · subst same
    exact hchanged vmar (by simpa using hvmar)
  · exact atPages other vmar (by simpa [same] using hvmar)

/-- A call on a region that finds one answers as the region does. -/
theorem onVmar_cases {Value : Type} (state : MemoryHandles) (vmars : Vmars) (handle : Nat)
    (operation : Vmar → Except ZxError Value × Vmar) :
    (∃ reason, onVmar state vmars handle operation = (.error reason, vmars)) ∨
    ∃ object vmar, state.resolveHandle handle .vmar = some object ∧ vmars object = some vmar ∧
      onVmar state vmars handle operation =
        ((operation vmar).1, Function.update vmars object (some (operation vmar).2)) := by
  unfold onVmar
  cases resolve : state.resolveHandle handle .vmar with
  | none => exact .inl ⟨_, rfl⟩
  | some object =>
    cases found : vmars object with
    | none => exact .inl ⟨.errNotFound, by simp [found]⟩
    | some vmar => exact .inr ⟨object, vmar, rfl, found, by simp [found]⟩

theorem AtPages.onVmar {Value : Type} {operation : Vmar → Except ZxError Value × Vmar}
    (atPages : AtPages vmars) (hbase : ∀ vmar, (operation vmar).2.baseAddr = vmar.baseAddr) :
    AtPages (onVmar state vmars handle operation).2 := by
  rcases onVmar_cases state vmars handle operation with ⟨reason, same⟩ | ⟨object, vmar, -, found, same⟩
  · rw [same]
    exact atPages
  · rw [same]
    refine atPages.update fun changed hchanged => ?_
    obtain rfl := Option.some_inj.mp hchanged
    rw [hbase]
    exact atPages object vmar found

/-- A place for a child starts at a page. -/
theorem AtPages.insert (atPages : AtPages vmars) {wanted : Option Nat} {len : Nat}
    {new : Nat → VmarMapping} {answer : Except ZxError Nat × Vmars}
    (hanswer : Objects.onVmar state vmars handle
      (fun parent => parent.insert wanted len Vmar.alignUp new) = answer) :
    AtPages answer.2 ∧ ∀ vaddr, answer.1 = .ok vaddr → pageAligned vaddr = true := by
  subst hanswer
  refine ⟨atPages.onVmar fun _ => Vmar.insert_baseAddr, fun vaddr placed => ?_⟩
  rcases onVmar_cases state vmars handle (fun parent => parent.insert wanted len Vmar.alignUp new)
    with ⟨reason, same⟩ | ⟨object, parent, -, found, same⟩
  · rw [same] at placed
    cases placed
  · rw [same] at placed
    exact Vmar.pageAligned_insert (atPages object parent found) placed

/-- `sys_vmar_map` refuses a request before it comes to a region, or asks the region. -/
theorem sysVmarMap_cases (state : MemoryHandles) (vmars : Vmars) (handle : Nat)
    (options : VmOptions) (offset vmo first len : Nat) :
    (∃ reason, sysVmarMap state vmars handle options offset vmo first len =
      (.error reason, vmars)) ∨
    ∃ object vmar wanted, state.resolveHandle handle .vmar = some object ∧
      vmars object = some vmar ∧ pageAligned first = true ∧
      let asked := vmar.mapExt wanted vmo first (roundupPages len)
        (mmuFlagsFromVmOptions options) (options.contains .specificOverwrite)
      sysVmarMap state vmars handle options offset vmo first len =
        (asked.1, Function.update vmars object (some asked.2)) := by
  unfold sysVmarMap
  dsimp only
  split
  · exact .inl ⟨_, rfl⟩
  rename_i args
  split
  · exact .inl ⟨_, rfl⟩
  split
  · exact .inl ⟨_, rfl⟩
  split
  · exact .inl ⟨_, rfl⟩
  split
  · exact .inl ⟨_, rfl⟩
  rcases onVmar_cases state vmars handle (fun vmar => vmar.mapExt
      (if options.contains .specific || options.contains .specificOverwrite then some offset
        else none) vmo first (roundupPages len) (mmuFlagsFromVmOptions options)
      (options.contains .specificOverwrite)) with refused | ⟨object, vmar, resolve, found, same⟩
  · exact .inl refused
  · exact .inr ⟨object, vmar, _, resolve, found, by grind, same⟩

namespace MappingHistory
open Vmar
variable {history : MappingHistory}

theorem grant_vmars {len rights answer} :
    (history.grant state handle len rights answer).vmars = answer.2 := by
  obtain ⟨_ | vaddr, vmars⟩ := answer <;> rfl

/-- The regions that the kernel makes start at pages. -/
def CreatesAtPage : MappingCall → Prop
  | .create _ baseAddr _ => pageAligned baseAddr = true
  | _ => True

theorem atPages_step {call : MappingCall} (atPages : AtPages history.vmars)
    (creates : CreatesAtPage call) : AtPages (history.step call).vmars := by
  cases call with
  | create object baseAddr size =>
    simp only [step]
    split
    · exact atPages
    refine atPages.update fun vmar hvmar => ?_
    obtain rfl := Option.some_inj.mp hvmar
    exact creates
  | map state handle options offset vmo first len =>
    simp only [step, grant_vmars]
    rcases sysVmarMap_cases state history.vmars handle options offset vmo first len with
      ⟨reason, same⟩ | ⟨object, vmar, wanted, -, found, -, same⟩
    · rw [same]
      exact atPages
    rw [same]
    refine atPages.update fun changed hchanged => ?_
    obtain rfl := Option.some_inj.mp hchanged
    rw [mapExt_baseAddr]
    exact atPages object vmar found
  | unmap state handle addr len =>
    simp only [step, sysVmarUnmap]
    split
    · exact atPages
    split
    · exact atPages
    · exact atPages.onVmar fun _ => recut_baseAddr
  | protect state handle options addr len =>
    simp only [step, sysVmarProtect]
    split
    · exact atPages
    split
    · exact atPages
    · exact atPages.onVmar fun _ => recut_baseAddr
  | allocate state parentVmar options offset size childHandle =>
    simp only [step, grant_vmars, sysVmarAllocate]
    split
    · exact atPages
    split
    · exact atPages
    generalize hanswer : onVmar state history.vmars parentVmar _ = answer
    obtain ⟨kept, aligned⟩ := atPages.insert hanswer
    obtain ⟨_ | addr, after⟩ := answer
    · exact kept
    dsimp only
    split
    · exact kept
    refine kept.update fun vmar hvmar => ?_
    obtain rfl := Option.some_inj.mp hvmar
    exact aligned addr rfl
  | drop object =>
    refine atPages.update fun vmar hvmar => ?_
    cases hvmar
  | release object addr len =>
    refine atPages.update fun vmar hvmar => ?_
    obtain ⟨before, found, rfl⟩ := Option.map_eq_some_iff.mp hvmar
    unfold unmap
    rw [recut_baseAddr]
    exact atPages object before found

/--
A request to map that fails leaves the mappings of every region, up to their order: `map` in
any region, and `sys_vmar_map` in every state of every run.  One that maps over others replaces
just what its range shows.
-/
theorem map_request_effect (calls : List MappingCall)
    (hcreates : Guarded (fun _ => CreatesAtPage) step new calls) (state : MemoryHandles)
    (handle : Nat) (options : VmOptions) (offset vmo first len : Nat) :
    let vmars := (run step new calls).vmars
    (∀ (vmar : Vmar) wanted flags reason after,
      vmar.map wanted vmo first len flags = (.error reason, after) →
        after.mappings ~ vmar.mappings) ∧
    (∀ reason after,
      sysVmarMap state vmars handle options offset vmo first len = (.error reason, after) →
        ∀ object, Option.Rel (fun before now => now.mappings ~ before.mappings) (vmars object)
          (after object)) ∧
    (∀ vaddr after,
      sysVmarMap state vmars handle options offset vmo first len = (.ok vaddr, after) →
      options.contains .specificOverwrite = true →
        ∃ object before now, state.resolveHandle handle .vmar = some object ∧
          vmars object = some before ∧ after = Function.update vmars object (some now) ∧
          ∀ addr page, now.Shows addr page ↔
            if vaddr ≤ addr ∧ addr < vaddr + roundupPages (roundupPages len) then
              page = (vmo, first + (addr - vaddr), mmuFlagsFromVmOptions options)
            else before.Shows addr page) := by
  intro vmars
  have hatPages : AtPages vmars := by
    have hkeeps : ∀ (history : MappingHistory) (call : MappingCall), AtPages history.vmars →
        CreatesAtPage call → AtPages (history.step call).vmars := fun _ _ => atPages_step
    exact guarded_invariant hkeeps (fun _ _ hvmar => nomatch hvmar) hcreates
  have hsame : ∀ found : Option Vmar,
      Option.Rel (fun before now => now.mappings ~ before.mappings) found found := fun found => by
    cases found with
    | none => exact .none
    | some vmar => exact .some (.refl _)
  refine ⟨fun vmar wanted flags reason after hfailed => ?_, fun reason after hfailed object => ?_,
    fun vaddr after hmapped hover => ?_⟩
  · have hadds : vmar.Adds wanted _ _ (vmar.map wanted vmo first len flags) := map_adds
    rw [hfailed] at hadds
    exact hadds
  · rcases sysVmarMap_cases state vmars handle options offset vmo first len with
      ⟨refusal, hrefused⟩ | ⟨target, vmar, wanted, -, hfound, hfirst, hasked⟩
    · obtain ⟨-, rfl⟩ := Prod.mk.inj (hrefused.symm.trans hfailed)
      exact hsame _
    obtain ⟨hreason, rfl⟩ := Prod.mk.inj (hasked.symm.trans hfailed)
    by_cases hobject : object = target
    · subst hobject
      rw [Function.update_self, hfound]
      exact .some (mapExt_failed (hatPages object vmar hfound) hfirst
        (Prod.ext hreason rfl))
    · rw [Function.update_of_ne hobject]
      exact hsame _
  · rcases sysVmarMap_cases state vmars handle options offset vmo first len with
      ⟨refusal, hrefused⟩ | ⟨target, vmar, wanted, hresolve, hfound, -, hasked⟩
    · cases hrefused.symm.trans hmapped
    obtain ⟨hvaddr, rfl⟩ := Prod.mk.inj (hasked.symm.trans hmapped)
    rw [hover] at hvaddr ⊢
    exact ⟨target, vmar, _, hresolve, hfound, rfl, mapExt_replaces (Prod.ext hvaddr rfl)⟩

/-- Handle 1 is of a region, and handles 2 and 3 of VMOs of one page. -/
def twoVmos : MemoryHandles :=
  ⟨[⟨1, 1, .vmar, .map ||| .opChildren⟩, ⟨2, 2, .vmo, .map⟩, ⟨3, 3, .vmo, .map⟩],
    fun _ => some 0x1000⟩

def thirdMapped : List MappingCall :=
  [.create 1 0x10000 0x10000, .map twoVmos 1 .specific 0 3 0 0x1000]

/-- A page of one VMO is mapped over a page of the other. -/
theorem map_request_effect_overwrite :
    let vmars := (run step new thirdMapped).vmars
    let answer := sysVmarMap twoVmos vmars 1 .specificOverwrite 0 2 0 0x1000
    answer.1 = .ok 0x10000 ∧ ∃ object before now, twoVmos.resolveHandle 1 .vmar = some object ∧
      vmars object = some before ∧ answer.2 = Function.update vmars object (some now) ∧
      ∀ addr page, now.Shows addr page ↔
        if 0x10000 ≤ addr ∧ addr < 0x10000 + roundupPages (roundupPages 0x1000) then
          page = (2, 0 + (addr - 0x10000), mmuFlagsFromVmOptions .specificOverwrite)
        else before.Shows addr page :=
  ⟨by decide +kernel, (map_request_effect thirdMapped ⟨rfl, trivial, trivial⟩ twoVmos 1
    .specificOverwrite 0 2 0 0x1000).2.2 0x10000 _ (Prod.ext (by decide +kernel) rfl) rfl⟩

end MappingHistory
end Smros.Objects
