import Mathlib.Order.Bounds.Basic
import Smros.Files.OwnOpens

/-!
# The number of a new descriptor

The search for a number begins at the hint of the process, which every allocation raises
and every close lowers, so a number below the hint is not looked at even when it is free.
-/

namespace Smros.Files
open Lib Program Files.System

/-- The process that asks for a new descriptor, and the least number it asks for. -/
def Call.asks : Call → Option (Nat × Nat)
  | .openat pid .. | .dup pid _ => some (pid, 0)
  | .dupfd pid _ minFd _ => some (pid, minFd)
  | _ => none

variable {system next : System} {pid minFd fd : Nat}
namespace System
/-- The numbers that a request may be answered with. -/
def freeFrom (system : System) (pid minFd : Nat) : Set Nat :=
  {number | max minFd compatFdStart ≤ number ∧ number ∉ system.usedFds pid}

/-- The number found is the lowest one where the hint passes over no free number. -/
theorem isLeast_freeFd (free : system.freeFd pid minFd = some fd)
    (full : ∀ number, compatFdStart ≤ number → number < system.hint pid →
      number ∈ system.usedFds pid) : IsLeast (system.freeFrom pid minFd) fd := by
  rw [freeFd_eq] at free
  obtain ⟨hnew, hstart, below⟩ := searchFd_some free
  obtain ⟨-, hleast⟩ := Nat.max_le.mp hstart
  refine ⟨⟨hleast, hnew⟩, fun number ⟨least, unused⟩ => le_of_not_gt fun less => ?_⟩
  rcases lt_or_ge number (system.hint pid) with early | late
  · exact unused (full number (Nat.max_le.mp least).2 early)
  · exact unused (below number (Nat.max_le.mpr ⟨late, least⟩) less)

theorem freeFd_congr (same : next.resources = system.resources) :
  next.freeFd pid minFd = system.freeFd pid minFd := by
  unfold freeFd usedFds processResources
  rw [same]

end System

/-! ## What the calls do before they search -/

variable {Value Result : Type} {prog : SystemM Value} {last : Nat → SystemM Nat}
theorem allocating_ok {alloc} (hrun : allocating alloc system = .ok fd next) :
    alloc system = some (fd, next) := by
  unfold allocating at hrun
  rw [get_bind_run] at hrun
  cases halloc : alloc system with
  | none =>
    rw [halloc] at hrun
    cases hrun
  | some found =>
    rw [halloc] at hrun
    cases hrun
    rfl

/-- The program leaves the tables of the processes alone. -/
def Quiet (program : SystemM Value) : Prop :=
  ∀ system value after, program system = .ok value after → after.resources = system.resources

/-- The program answers with the number that the search finds. -/
def Numbers (pid : Nat) (answer : SystemM Nat) : Prop :=
  ∀ system fd after, answer system = .ok fd after → system.freeFd pid 0 = some fd

theorem quiet_get : Quiet get := by
  rintro system _ _ ⟨⟩
  rfl

theorem quiet_pure (value : Value) : Quiet (pure value) := by
  rintro system _ _ ⟨⟩
  rfl

theorem quiet_check (error) : Quiet (check error) := by
  cases error with
  | none => exact quiet_pure ()
  | some error => rintro system _ _ ⟨⟩

theorem quiet_orThrow (reason) (value : Option Value) : Quiet (orThrow reason value) := by
  cases value with
  | none => rintro system _ _ ⟨⟩
  | some value => exact quiet_pure value

theorem quiet_onFxfs (prog : Program FxfsState Failure Value) : Quiet (onFxfs prog) := by
  intro system value after hrun
  unfold onFxfs zoom at hrun
  split at hrun
  · cases hrun
    rfl
  · cases hrun

theorem Quiet.bind {rest : Value → SystemM Result} (hprog : Quiet prog)
  (hrest : ∀ value, Quiet (rest value)) : Quiet (prog >>= rest) := by
  intro system value after hrun
  obtain ⟨first, mid, hfirst, hlast⟩ := bind_ok hrun
  exact (hrest _ _ _ _ hlast).trans (hprog _ _ _ hfirst)

theorem Quiet.numbers {rest : Value → SystemM Nat} (hprog : Quiet prog)
  (hrest : ∀ value, Numbers pid (rest value)) : Numbers pid (prog >>= rest) := by
  intro system fd after hrun
  obtain ⟨first, mid, hfirst, hlast⟩ := bind_ok hrun
  rw [← freeFd_congr (hprog _ _ _ hfirst)]
  exact hrest _ _ _ _ hlast

theorem quiet_prepareFile (path flags mode execPath memory) :
  Quiet (prepareFile pid path flags mode execPath memory) := by
  refine quiet_get.bind fun system => (quiet_onFxfs _).bind fun cursor => ?_
  split
  · exact (quiet_onFxfs _).bind fun _ => quiet_pure cursor
  · exact quiet_pure cursor

theorem allocFdWithFlags_free {handle statusFlags cloexec}
  (alloc : system.allocFdWithFlags pid handle statusFlags cloexec = some (fd, next)) :
  system.freeFd pid 0 = some fd := by
  unfold allocFdWithFlags at alloc
  split at alloc
  all_goals
    obtain ⟨found, free, hfound⟩ := Option.map_eq_some_iff.mp alloc
    cases hfound
    exact free

theorem quiet_createObject (objectType) : Quiet (createObject objectType) := by
  intro system handle after hrun
  unfold createObject at hrun
  rw [get_bind_run] at hrun
  obtain ⟨⟨found, compat⟩, mid, -, rest⟩ := bind_ok hrun
  cases rest
  rfl

theorem bindOpened_answer {handle path cursor answer after}
  (hrun : bindOpened pid fd handle path cursor system = .ok answer after) : answer = fd := by
  unfold bindOpened at hrun
  obtain ⟨_, mid, -, rest⟩ := bind_ok hrun
  split at rest
  · obtain ⟨_, _, -, rec⟩ := bind_ok rest
    obtain ⟨_, _, -, cached⟩ := bind_ok rec
    obtain ⟨_, _, -, answered⟩ := bind_ok cached
    cases answered
    rfl
  · cases rest
    rfl

theorem numbers_openFresh (path flags mode execPath memory) :
  Numbers pid (openFresh pid path flags mode execPath memory) := by
  refine (quiet_prepareFile _ _ _ _ _).numbers fun cursor =>
    (quiet_createObject _).numbers fun handle => ?_
  intro system fd after hrun
  obtain ⟨found, mid, alloc, rest⟩ := bind_ok hrun
  have free := allocFdWithFlags_free (allocating_ok alloc)
  cases cursor with
  | none =>
    cases rest
    exact free
  | some cursor =>
    rw [bindOpened_answer rest]
    exact free

theorem numbers_sysOpenat (dirfd path flags mode execPath memory) :
  Numbers pid (sysOpenat pid dirfd path flags mode execPath memory) := by
  refine quiet_get.numbers fun system => (quiet_check _).numbers fun _ => ?_
  cases cachedHandle system path with
  | none => exact (quiet_check _).numbers fun _ => numbers_openFresh path flags mode execPath memory
  | some cached =>
    refine (quiet_onFxfs _).numbers fun _ => quiet_get.numbers fun _ =>
      (quiet_check _).numbers fun _ => ?_
    intro system fd after hrun
    obtain ⟨found, mid, alloc, rest⟩ := bind_ok hrun
    obtain ⟨_, _, -, answered⟩ := bind_ok rest
    cases answered
    obtain ⟨num, free, hfound⟩ := Option.map_eq_some_iff.mp (allocating_ok alloc)
    cases hfound
    exact free

theorem numbers_sysDup (old) : Numbers pid (sysDup pid old) := by
  refine quiet_get.numbers fun system => (quiet_orThrow _ _).numbers fun rec => ?_
  exact fun _ _ _ hrun => allocFdWithFlags_free (allocating_ok hrun)

theorem fcntlDupfd_free {old cloexec after}
  (hrun : fcntlDupfd pid old minFd cloexec system = .ok fd after) :
  system.freeFd pid minFd = some fd := by
  unfold fcntlDupfd at hrun
  rw [get_bind_run] at hrun
  cases hget : system.getFd pid old with
  | none =>
    rw [hget] at hrun
    cases hrun
  | some rec =>
    rw [hget, orThrow, pure_bind] at hrun
    obtain ⟨found, mid, alloc, rest⟩ := bind_ok hrun
    obtain ⟨num, free, hfound⟩ := Option.bind_eq_some_iff.mp (allocating_ok alloc)
    obtain ⟨entry, desc, -, hopen, rfl⟩ := getFd_entryOf hget
    have known : (system.files.descriptionOfHandle desc.handle).isSome := by
      unfold OpenFiles.descriptionOfHandle
      rw [Option.isSome_map, List.find?_isSome]
      exact ⟨desc, openDesc_mem hopen, by simp⟩
    obtain ⟨id, hid⟩ := Option.isSome_iff_exists.mp known
    dsimp only [LinuxFdRecord.of] at hfound
    rw [hid] at hfound
    cases hfound
    cases cloexec <;> cases rest <;> exact free

theorem serve_free {call after} (hasks : call.asks = some (pid, minFd))
  (hserve : serve call system = .ok fd after) : system.freeFd pid minFd = some fd := by
  cases call <;> cases hasks
  · exact numbers_sysOpenat _ _ _ _ _ _ _ _ _ hserve
  · exact numbers_sysDup _ _ _ _ hserve
  · exact fcntlDupfd_free hserve

/-! ## Every number below the hint is in use -/

/-- The numbers of a table below its hint are all in use. -/
def Packed (resources : LinuxProcessResources) : Prop :=
  ∀ number, compatFdStart ≤ number → number < resources.nextFd →
    number ∈ resources.descriptors.map (·.fd)

def System.Full (system : System) : Prop := ∀ resources ∈ system.resources, Packed resources

theorem packed_new : Packed (.new pid) :=
  fun _ least less => absurd less (not_lt_of_ge least)

theorem packed_grown {resources changed : LinuxProcessResources} (packed : Packed resources)
    (sameNext : changed.nextFd = resources.nextFd)
    (more : resources.descriptors.map (·.fd) ⊆ changed.descriptors.map (·.fd)) : Packed changed :=
  fun number least less => more (packed number least (sameNext ▸ less))

variable {resources : LinuxProcessResources} {hint : Nat → Nat}
/-- A new number that is placed keeps the numbers below the hint in use. -/
theorem packed_placed {entry : LinuxDescriptorEntry} (placed : Placed system pid entry.fd hint)
    (hres : (system.processResources pid).getD (.new pid) = resources) (packed : Packed resources) :
    Packed { resources with
      nextFd := hint resources.nextFd
      descriptors := resources.descriptors ++ [entry] } := by
  have grown : resources.descriptors.map (·.fd) ⊆ (resources.descriptors ++ [entry]).map (·.fd) := by
    rw [List.map_append]
    exact List.subset_append_left ..
  rcases placed with same | ⟨rfl, below⟩
  · exact packed_grown packed (same _) grown
  intro number least less
  -- the number follows the hint, or it is the new one or below it
  have hle : number ≤ entry.fd := Nat.le_of_lt_succ (less.trans_le (Nat.min_le_left ..))
  rcases hle.eq_or_lt with rfl | before
  · simp
  by_cases early : number < resources.nextFd
  · exact grown (packed number least early)
  refine grown ?_
  unfold System.hint System.usedFds at below
  cases hfind : system.processResources pid with
  | none =>
    rw [hfind] at below
    exact absurd (below number before (by simpa using least)) List.not_mem_nil
  | some found =>
    rw [hfind] at below hres
    obtain rfl : found = resources := hres
    exact below number before (Nat.max_le.mpr ⟨Nat.not_lt.mp early, least⟩)

theorem packed_aliased {entry : LinuxDescriptorEntry}
    (pids : (system.resources.map (·.pid)).Nodup) (placed : Placed system pid entry.fd hint)
    (packed : system.Full) :
    (aliased system pid entry hint).Full := by
  obtain ⟨hres, -⟩ := acquireIgnored_tables system entry.descriptionId
  refine resources_mut (hres ▸ pids) (hres ▸ packed) packed_new fun resources find => ?_
  unfold System.processResources at find
  rw [hres] at find
  exact packed_placed placed find

theorem packed_listed {objectType : ObjectType} {handle : Nat}
    (pids : (system.resources.map (·.pid)).Nodup)
    (packed : system.Full) :
    (listed system pid handle objectType).Full := by
  obtain ⟨hres, -⟩ := described_tables system handle objectType 0
  exact resources_mut (hres ▸ pids) (hres ▸ packed) packed_new fun _ _ => id

variable {before after : Stage}
theorem Effect.packed (effect : Effect false before after) (well : WellFormed before)
    (packed : before.system.Full) :
    after.system.Full := by
  have pids := well.pids
  cases effect with
  | store | print | queues | flags | uncache | created | skipped | abandoned | reordered | bound
  | cached | seek | offset => exact packed
  | attributes pid samePid sameFds sameObjects sameNext =>
    refine resources_mut pids packed packed_new fun resources _ old => ?_
    have both := congrArg (List.map Prod.fst) (sameFds resources)
    rw [List.map_map, List.map_map] at both
    exact packed_grown old (sameNext resources) (both ▸ List.Subset.refl _)
  | duplicated pid free live placed => exact packed_aliased pids (placed rfl) packed
  | opened pid kind free placed => exact packed_aliased pids placed packed
  | registered pid => exact packed_listed pids packed
  | shared pid registers => exact packed_listed pids packed
  | @closed system pending pid fd =>
    cases hget : system.getFd pid fd with
    | none =>
      rw [closeFd_of_none hget]
      exact packed
    | some record =>
      obtain ⟨resources, entry, -, -, -, close⟩ := closeFd_of_getFd hget
      rw [close]
      dsimp only [withoutEntry, System.Full]
      refine resources_mut pids packed packed_new fun resources _ old number least less => ?_
      obtain ⟨hnext, hentry⟩ := Nat.lt_min.mp less
      obtain ⟨kept, hkept, rfl⟩ := List.mem_map.mp (old number least hnext)
      exact List.mem_map_of_mem (Counted.mem_without.mpr ⟨hkept, hentry.ne⟩)
  | @exited system pending pid =>
    unfold releaseLinuxProcessResources
    cases system.processResources pid with
    | none => exact packed
    | some found => exact fun resources hmem => packed resources (Counted.mem_without.mp hmem).1

theorem Chain.packed (chain : Chain false before after) (well : WellFormed before)
    (packed : before.system.Full) :
    after.system.Full := by
  induction chain with
  | refl => exact packed
  | tail steps effect ih => exact effect.packed (Chain.wellFormed steps well) ih

/-- The table of a child has no number free below its largest one, and is not empty. -/
def LinuxResourceClone.Gapless (clone : LinuxResourceClone) : Prop :=
  clone.descriptors ≠ [] ∧ ∀ entry ∈ clone.descriptors, ∀ number < entry.fd,
    compatFdStart ≤ number → number ∈ clone.descriptors.map (·.fd)

theorem LinuxResourceClone.Gapless.packed {clone : LinuxResourceClone} (gapless : clone.Gapless) :
    Packed (childResources pid clone) := by
  obtain ⟨some, full⟩ := gapless
  intro number least less
  cases hmax : (clone.descriptors.map (·.fd)).max? with
  | none => exact absurd (List.map_eq_nil_iff.mp (List.max?_eq_none_iff.mp hmax)) some
  | some last =>
    have hlast : last ∈ clone.descriptors.map (·.fd) := List.max?_mem hmax
    have hle : number ≤ last := by
      have hless : number < min (last + 1) usizeMax := by
        simpa [childResources, followingFd, hmax] using less
      omega
    rcases hle.eq_or_lt with rfl | earlier
    · exact hlast
    · obtain ⟨entry, hentry, rfl⟩ := List.mem_map.mp hlast
      exact full entry hentry number earlier least

/-- No duplicate is asked for above a number that is free at or above the hint, and no child
gets an empty table or one with a gap. -/
def Orderly (system : System) : Call → Prop
  | .commitFork index _ _ => ∀ clone ∈ system.reservations[index]?, clone.Gapless
  | call => call.First system

section
variable {call : Call} (packed : system.Full)
include packed
theorem packed_onFiles {Value : Type} (prog : FilesM Value) :
    Keeps Full (onFiles prog) system := by
  have ends : Ends prog system.files (fun _ _ => True) (fun _ _ => True) :=
    ⟨fun _ => trivial, fun _ => trivial⟩
  refine (ends_onFiles ends).mono ?_ ?_
  · rintro _ _ ⟨files, -, rfl⟩
    exact packed
  · rintro _ _ ⟨files, -, rfl⟩
    exact packed

theorem next_packed (well : WellFormed ⟨system, []⟩) (orderly : Orderly system call) :
    (Files.next system call).Full := by
  by_cases forks : call.forks = false
  · have first : call.First system := by
      cases call <;> first | exact orderly | cases forks
    exact (next_chain well forks fun _ => first).packed well packed
  have dropped : ∀ index, (system.unreserved index).Full := fun _ => packed
  refine next_of_keeps Full packed ?_
  cases call with
  | reserveFork parent failpoints memory attachments =>
    unfold Keeps serve reserveResourceClone
    rw [ends_get_bind]
    refine ends_ite (fun _ => ends_throw.mpr packed) fun _ => ?_
    refine .bind (packed_onFiles packed _) fun _ middle hmiddle => ?_
    refine .bind (packed_onFiles hmiddle _) fun _ last hlast => ?_
    refine ends_ite (fun _ => ?_) fun _ => ?_
    · exact .bind (packed_onFiles hlast _) fun _ _ hnext => ends_throw.mpr hnext
    · rw [ends_modify_bind, ends_pure]
      exact hlast
  | commitFork index childPid room =>
    unfold Keeps serve commitResourceClone
    cases hclone : system.reservations[index]? with
    | none =>
      rw [ends_bind_of_error (takeReservation_none hclone)]
      exact packed
    | some clone =>
      rw [ends_bind_of_ok (takeReservation_run hclone), ends_get_bind]
      refine ends_ite (fun _ => ?_) fun _ => ?_
      · exact .bind (packed_onFiles (dropped index) _) fun _ _ hnext => ends_throw.mpr hnext
      rw [ends_set_bind, ends_pure]
      intro resources hmem
      rcases List.mem_append.mp hmem with hold | hnew
      · exact packed resources hold
      · rw [List.mem_singleton.mp hnew]
        exact (orderly clone hclone).packed
  | rollbackReserved index =>
    unfold Keeps serve rollbackReservedResources
    cases hclone : system.reservations[index]? with
    | none =>
      rw [ends_bind_of_error (takeReservation_none hclone)]
      exact packed
    | some clone =>
      rw [ends_bind_of_ok (takeReservation_run hclone)]
      exact .bind (packed_onFiles (dropped index) _) fun _ _ hnext => ends_pure.mpr hnext
  | rollbackInstalled pid asserted =>
    refine keeps_rolledBack ?_
    unfold rollbackForkProcessResources
    cases system.processResources pid with
    | none => exact packed
    | some found => exact fun resources hmem => packed resources (Counted.mem_without.mp hmem).1
  | _ => exact absurd rfl forks

end

/-- After calls that are orderly, a new descriptor has the lowest number of those that are
asked for and free. -/
theorem new_descriptor_lowest {fxfs : FxfsState} {calls : List Call} (call : Call)
    {after : System} (horderly : Guarded Orderly Files.next (start fxfs) calls)
    (hasks : call.asks = some (pid, minFd))
    (hserve : serve call (run Files.next (start fxfs) calls) = .ok fd after) :
    IsLeast ((run Files.next (start fxfs) calls).freeFrom pid minFd) fd := by
  have keeps : ∀ (system : System) (call : Call), WellFormed ⟨system, []⟩ ∧ system.Full →
      Orderly system call → WellFormed ⟨Files.next system call, []⟩ ∧ (Files.next system call).Full :=
    fun system call ⟨well, packed⟩ orderly =>
      ⟨next_wellFormed call well, next_packed packed well orderly⟩
  have first : WellFormed ⟨start fxfs, []⟩ ∧ (start fxfs).Full :=
    ⟨run_wellFormed fxfs [], fun _ hmem => nomatch hmem⟩
  obtain ⟨-, packed⟩ := guarded_invariant keeps first horderly
  refine isLeast_freeFd (serve_free hasks hserve) fun number least less => ?_
  unfold System.hint at less
  unfold System.usedFds
  cases hfind : (run Files.next (start fxfs) calls).processResources pid with
  | none =>
    rw [hfind] at less
    cases less
  | some resources =>
    rw [hfind] at less
    exact packed resources (System.processResources_some hfind).1 number least less

/-- Three descriptors, one of them asked for at or above `5`, go to a child, which closes two. -/
def childCloses : List Call :=
  [openRoot, .dup 1 3, .dupfd 1 3 5 false, .reserveFork 1 [] true true, .commitFork 0 2 true,
    .close 2 4, .close 2 3]

/-- The lowest number of those that were closed is given again. -/
theorem new_descriptor_lowest_in_child :
    IsLeast ((run Files.next (start rootStore) childCloses).freeFrom 2 0) 3 :=
  new_descriptor_lowest (.dup 2 5)
    ⟨trivial, trivial, by simp only [Orderly, Call.First]; decide +kernel, trivial,
      by simp only [Orderly, LinuxResourceClone.Gapless]; decide +kernel, trivial, trivial, trivial⟩
    rfl rfl

/-- A duplicate at or above `100` moves the hint, and the next one does not get `4`. -/
theorem duplicate_above_moves_hint : ∃ after,
    serve (.dup 1 3) (run Files.next (start rootStore) [openRoot, .dupfd 1 3 100 false]) =
      .ok 101 after ∧
    4 ∈ (run Files.next (start rootStore) [openRoot, .dupfd 1 3 100 false]).freeFrom 1 0 :=
  ⟨_, rfl, by decide, by decide⟩

end Smros.Files
