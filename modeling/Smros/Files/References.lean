import Smros.Files.Forks
import Smros.Lib.Runs

/-!
# Every run keeps the references

The calls of a fork keep the books as the other calls do, as long as a clone
that is rolled back holds no last reference: the rollback closes no object.
-/

namespace Smros.Files
open Lib Program LinuxOpenDescriptions List
open Files.System (start)

/-! ## Shape along every run -/

variable {Value : Type} {failpoints : List Bool} {ppid pid : Nat}
  {memory attachments room : Bool} {files : OpenFiles} {pending : List Nat}
/-- Both ends of a program keep a property of the state. -/
abbrev Keeps {State Value : Type} (invariant : State → Prop)
  (program : Program State Failure Value) (state : State) : Prop :=
  Ends program state (fun _ => invariant) fun _ => invariant

section
variable (shaped : Shaped files pending)
include shaped
theorem Shaped.rollbackObjects (ids) : Shaped (files.rollbackObjects ids).2 pending := by
  induction ids generalizing files with
  | nil => exact shaped
  | cons id rest ih => exact ih (shaped.releaseObjectEntry id)

theorem Shaped.rollbackDescriptors (descs) :
  Shaped (files.rollbackDescriptors descs).2 pending := by
  induction descs generalizing files with
  | nil => exact shaped
  | cons entry rest ih => exact ih (shaped.release entry.descriptionId)

theorem Shaped.rollbackClone (descs ids) :
  Shaped (files.rollbackForkResourceClone descs ids).2 pending :=
  (shaped.rollbackObjects ids.reverse).rollbackDescriptors descs.reverse

end

variable {descs : List LinuxDescriptorEntry} {held : List Nat}
theorem keeps_releaseReserved (shaped : Shaped files pending) :
  Keeps (Shaped · pending) (releaseReservedForkResources descs held) files := by
  have rolled := shaped.rollbackClone descs held
  unfold Keeps releaseReservedForkResources
  rw [ends_get_bind]
  cases back : files.rollbackForkResourceClone descs held with
  | mk preserved rest =>
    rw [back] at rolled
    rw [ends_set_bind]
    cases preserved with
    | true => exact ends_pure.mpr rolled
    | false => exact ends_throw.mpr rolled

theorem keeps_abandon (shaped : Shaped files pending) :
  Keeps (Shaped · pending) (abandonReservation descs held : FilesM Value) files := by
  unfold Keeps abandonReservation
  refine (keeps_releaseReserved shaped).bind fun _ _ hnext => ?_
  exact ends_throw.mpr hnext

theorem keeps_reserveDescriptors {rest} (shaped : Shaped files pending) :
  Keeps (Shaped · pending) (reserveDescriptors descs rest failpoints) files := by
  induction rest generalizing descs files failpoints with
  | nil => exact ends_pure.mpr shaped
  | cons entry rest ih =>
    unfold Keeps reserveDescriptors
    rw [ends_get_bind]
    cases acquire : files.acquireOpenDescription entry.descriptionId with
    | none => exact keeps_abandon shaped
    | some acquired =>
      have hacquired := shaped.acquire acquire
      rw [ends_set_bind]
      exact ends_ite (fun _ => keeps_abandon hacquired) fun _ => ih hacquired

variable {id handle : Nat} {failpoint : Bool}
theorem keeps_reserveSharedReference (shaped : Shaped files pending) :
  Keeps (Shaped · pending) (reserveSharedReference descs held id handle failpoint)
    files := by
  unfold Keeps reserveSharedReference
  rw [ends_get_bind]
  cases files.sharedMemoryId handle with
  | none =>
    rw [ends_set_bind]
    exact keeps_abandon (shaped.release id)
  | some sharedId =>
    dsimp only
    cases acquire : files.acquireSharedMemoryReference sharedId with
    | none =>
      rw [ends_set_bind]
      exact keeps_abandon (shaped.release id)
    | some acquired =>
      have hacquired : Shaped acquired pending := by
        obtain ⟨rec, -, rfl⟩ := Option.map_eq_some_iff.mp acquire
        exact shaped.setShared _ _
      dsimp only
      refine ends_ite (fun _ => ?_) fun _ => ends_set.mpr hacquired
      rw [ends_set_bind]
      exact keeps_abandon ((hacquired.releaseShared sharedId).release id)

theorem keeps_reserveObjects {rest} (shaped : Shaped files pending) :
  Keeps (Shaped · pending) (reserveObjects descs held rest failpoints) files := by
  induction rest generalizing held files failpoints with
  | nil => exact ends_pure.mpr shaped
  | cons id rest ih =>
    unfold Keeps reserveObjects
    rw [ends_get_bind]
    cases acquire : files.acquireOpenDescription id with
    | none => exact keeps_abandon shaped
    | some acquired =>
      have hacquired := shaped.acquire acquire
      rw [ends_set_bind]
      refine ends_ite (fun _ => ?_) fun _ => ?_
      · rw [ends_set_bind]
        exact keeps_abandon (hacquired.release id)
      cases acquired.table.openDescription id with
      | none => exact keeps_abandon hacquired
      | some desc =>
        exact ends_ite (fun _ => (keeps_reserveSharedReference hacquired).bind fun _ _ => ih)
          fun _ => ih hacquired

variable {call : Call} {idx cpid : Nat} {asserted : Bool} {system : System}
  (well : WellFormed ⟨system, []⟩)
section
include well
/-- A part of a call on the files keeps the processes. -/
theorem keeps_onFiles {prog : FilesM Value} (keeps : Keeps (Shaped · []) prog system.files) :
  Keeps (fun next => WellFormed ⟨next, []⟩) (onFiles prog) system := by
  refine (ends_onFiles keeps).mono ?_ ?_
  · rintro _ _ ⟨files, hfiles, rfl⟩
    exact ⟨hfiles, well.pids⟩
  · rintro _ _ ⟨files, hfiles, rfl⟩
    exact ⟨hfiles, well.pids⟩

theorem keeps_reserveClone : Keeps (fun next => WellFormed ⟨next, []⟩)
    (reserveResourceClone ppid failpoints memory attachments) system := by
  unfold Keeps reserveResourceClone
  rw [ends_get_bind]
  refine ends_ite (fun _ => ends_throw.mpr well) fun _ => ?_
  refine .bind (keeps_onFiles well (keeps_reserveDescriptors well.shaped)) ?_
  intro left mid hmid
  refine .bind (keeps_onFiles hmid (keeps_reserveObjects hmid.shaped)) ?_
  intro _ last hlast
  refine ends_ite (fun _ => ?_) fun _ => ?_
  · refine .bind (keeps_onFiles hlast (keeps_releaseReserved hlast.shaped)) ?_
    exact fun _ _ hnext => ends_throw.mpr hnext
  · rw [ends_modify_bind, ends_pure]
    exact ⟨hlast.shaped, hlast.pids⟩

theorem keeps_takeReservation :
  Keeps (fun next => WellFormed ⟨next, []⟩) (takeReservation idx) system := by
  unfold Keeps takeReservation
  rw [ends_get_bind]
  cases system.reservations[idx]? with
  | none =>
    rw [ends_orThrow_none]
    exact well
  | some clone =>
    rw [ends_orThrow_some, ends_set_bind, ends_pure]
    exact ⟨well.shaped, well.pids⟩

end

theorem pids_child (pids : (system.resources.map (·.pid)).Nodup)
  (hnone : system.processResources cpid = none) (clone) :
  ((system.resources ++ [childResources cpid clone]).map (·.pid)).Nodup := by
  have fresh := System.processResources_none hnone
  rw [map_append, map_singleton]
  refine nodup_append.mpr ⟨pids, nodup_singleton _, ?_⟩
  rintro pid hpid child hchild rfl
  obtain ⟨resources, hres, rfl⟩ := mem_map.mp hpid
  exact fresh resources hres (mem_singleton.mp hchild)

theorem keeps_rolledBack {property} (rolled : property (rollbackForkProcessResources system pid).2) :
  Keeps property (rollbackInstalledResources pid asserted) system := by
  unfold Keeps rollbackInstalledResources
  rw [ends_get_bind]
  dsimp only
  rw [ends_set_bind]
  exact ends_ite (fun _ => ends_throw.mpr rolled) fun _ => ends_pure.mpr rolled

section
include well
theorem keeps_commitResourceClone :
  Keeps (fun next => WellFormed ⟨next, []⟩) (commitResourceClone idx cpid room) system := by
  unfold Keeps commitResourceClone
  refine .bind (keeps_takeReservation well) fun clone mid hmid => ?_
  rw [ends_get_bind]
  refine ends_ite (fun _ => ?_) fun busy => ?_
  · refine .bind (keeps_onFiles hmid (keeps_releaseReserved hmid.shaped)) ?_
    exact fun _ _ hnext => ends_throw.mpr hnext
  rw [ends_set_bind, ends_pure]
  refine ⟨hmid.shaped, ?_⟩
  have hnone : mid.processResources cpid = none :=
    Option.not_isSome_iff_eq_none.mp fun hsome => busy (.inl hsome)
  exact pids_child hmid.pids hnone clone

theorem keeps_rollbackInstalled :
  Keeps (fun next => WellFormed ⟨next, []⟩) (rollbackInstalledResources pid asserted)
    system := by
  refine keeps_rolledBack ?_
  unfold rollbackForkProcessResources
  cases system.processResources pid with
  | none => exact well
  | some res => exact ⟨well.shaped.rollbackClone _ _, well.pids.sublist (filter_sublist.map _)⟩

theorem keeps_rollbackReserved :
  Keeps (fun next => WellFormed ⟨next, []⟩) (rollbackReservedResources idx) system := by
  refine .bind (keeps_takeReservation well) fun clone mid hmid => ?_
  refine .bind (keeps_onFiles hmid (keeps_releaseReserved hmid.shaped)) ?_
  exact fun _ _ hnext => ends_pure.mpr hnext

end

/-- A call that keeps a property at both ends keeps it as a step. -/
theorem next_of_keeps (invariant) (start : invariant system)
  (keeps : Keeps invariant (serve call) system) : invariant (next system call) := by
  unfold next
  cases hrun : serve call system with
  | ok answer after => exact keeps.ok hrun
  | error reason after =>
    cases reason with
    | waits => exact start
    | errno error => exact keeps.error hrun
    | assertion => exact keeps.error hrun

/-- Every call keeps the tables well formed, those of a fork included. -/
theorem next_wellFormed (call) (well : WellFormed ⟨system, []⟩) :
  WellFormed ⟨next system call, []⟩ := by
  by_cases forks : call.forks = false
  · have chain : Chain true ⟨system, []⟩ ⟨next system call, []⟩ := next_chain well forks nofun
    exact chain.wellFormed well
  refine next_of_keeps (fun next => WellFormed ⟨next, []⟩) well ?_
  cases call with
  | reserveFork => exact keeps_reserveClone well
  | commitFork => exact keeps_commitResourceClone well
  | rollbackReserved => exact keeps_rollbackReserved well
  | rollbackInstalled => exact keeps_rollbackInstalled well
  | _ => exact absurd rfl forks

theorem run_wellFormed (fxfs calls) : WellFormed ⟨run next (.start fxfs) calls, []⟩ := by
  have keeps : ∀ system call, WellFormed ⟨system, []⟩ → WellFormed ⟨next system call, []⟩ :=
    fun _ call => next_wellFormed call
  exact run_invariant keeps (Sound.start fxfs).wellFormed calls

/-! ## References along a run -/

section
variable (system : System)
/-- Where a clone is rolled back, another reference remains to whatever it names. -/
def forkGuard : Call → Prop
  | .commitFork index childPid room =>
    (system.processResources childPid).isSome ∨ ¬ room → ∀ clone ∈ system.reservations[index]?,
        Spared system.files.table.descriptions (clone.fdNames ++ clone.objects)
  | .rollbackReserved index =>
    ∀ clone ∈ system.reservations[index]?,
      Spared system.files.table.descriptions (clone.fdNames ++ clone.objects)
  | .rollbackInstalled pid _ =>
    ∀ resources ∈ system.processResources pid,
      Spared system.files.table.descriptions (resources.fdNames ++ resources.objects)
  | _ => True

/-- The system without the reservation at a position. -/
def System.unreserved (index : Nat) : System :=
  { system with reservations := system.reservations.eraseIdx index }

/-- The system with the tables of a child in place of a reservation. -/
def System.committed (index childPid : Nat) (clone : LinuxResourceClone) : System :=
  { system.unreserved index with
    resources := system.resources ++ [childResources childPid clone] }

end

variable {clone : LinuxResourceClone}
theorem takeReservation_run (hclone : system.reservations[idx]? = some clone) :
  takeReservation idx system = .ok clone (system.unreserved idx) := by
  unfold takeReservation
  rw [get_bind_run, hclone]
  rfl

theorem takeReservation_none (clone : system.reservations[idx]? = none) :
  takeReservation idx system = .error (.errno .eagain) system := by
  unfold takeReservation
  rw [get_bind_run, clone]
  rfl

theorem names_unreserved (hclone : system.reservations[idx]? = some clone) :
  system.fdNames.Perm (clone.fdNames ++ (system.unreserved idx).fdNames) ∧
    system.objectNames.Perm (clone.objects ++ (system.unreserved idx).objectNames) := by
  obtain ⟨hidx, rfl⟩ := List.getElem?_eq_some_iff.mp hclone
  exact names_clone rfl (List.getElem_cons_eraseIdx_perm hidx).symm

section
variable (sound : Sound ⟨system, []⟩)
include sound

section
variable (hclone : system.reservations[idx]? = some clone)
include hclone
/-- A clone that is dropped leaves the books of the others. -/
theorem sound_dropped
  (spared : Spared system.files.table.descriptions (clone.fdNames ++ clone.objects)) :
  ∃ files, dropResourceClone clone (system.unreserved idx) =
    .ok () { system.unreserved idx with files := files } ∧
    Sound ⟨{ system.unreserved idx with files := files }, []⟩ := by
  have names := names_unreserved hclone
  have accounts := sound.accounts.names names.1 names.2
  obtain ⟨files, rollback, shaped, books⟩ :=
    Accounts.rollbackClone sound.wellFormed.shaped accounts (spared.named accounts)
  refine ⟨files, onFiles_run_ok (releaseReserved_run rollback), ?_⟩
  constructor
  · exact ⟨shaped, sound.wellFormed.pids⟩
  · exact books
  · exact sound.numbers
  · exact fun other hother => sound.reserved other (mem_of_mem_eraseIdx hother)

theorem sound_committed (hnone : system.processResources cpid = none) :
  Sound ⟨system.committed idx cpid clone, []⟩ := by
  have before := names_unreserved hclone
  have hres : (system.committed idx cpid clone).resources =
    (system.unreserved idx).resources ++ [childResources cpid clone] := rfl
  have resvs : (system.committed idx cpid clone).reservations =
    (system.unreserved idx).reservations := rfl
  have child := names_child (system.unreserved idx) hres resvs
  constructor
  · exact ⟨sound.wellFormed.shaped, pids_child sound.wellFormed.pids hnone clone⟩
  · exact sound.accounts.names (before.1.trans child.1.symm) (before.2.trans child.2.symm)
  · intro res hres
    rcases mem_append.mp hres with hold | hnew
    · exact sound.numbers res hold
    · cases mem_singleton.mp hnew
      exact sound.reserved clone (mem_of_getElem? hclone)
  · exact fun other hother => sound.reserved other (mem_of_mem_eraseIdx hother)

end

theorem sound_reserve : Keeps (fun next => Sound ⟨next, []⟩)
    (reserveResourceClone ppid failpoints memory attachments) system := by
  refine (ends_reserveClone sound).mono ?_ ?_
  · rintro _ _ ⟨clone, files, reserving, nums, rfl⟩
    exact reserving.sound sound nums
  · rintro _ _ ⟨-, rfl⟩
    exact sound

theorem sound_commit (guard : forkGuard system (.commitFork idx cpid room)) :
  Keeps (fun next => Sound ⟨next, []⟩) (commitResourceClone idx cpid room) system := by
  unfold Keeps commitResourceClone
  cases hclone : system.reservations[idx]? with
  | none =>
    rw [ends_bind_of_error (takeReservation_none hclone)]
    exact sound
  | some clone =>
    rw [ends_bind_of_ok (takeReservation_run hclone), ends_get_bind]
    refine ends_ite (fun busy => ?_) fun busy => ?_
    · obtain ⟨files, dropped, hnext⟩ := sound_dropped sound hclone (guard busy clone hclone)
      rw [ends_bind_of_ok dropped]
      exact ends_throw.mpr hnext
    · rw [ends_set_bind, ends_pure]
      exact sound_committed sound hclone
        (Option.not_isSome_iff_eq_none.mp fun hsome => busy (.inl hsome))

theorem sound_rollbackReserved (guard : forkGuard system (.rollbackReserved idx)) :
  Keeps (fun next => Sound ⟨next, []⟩) (rollbackReservedResources idx) system := by
  unfold Keeps rollbackReservedResources
  cases hclone : system.reservations[idx]? with
  | none =>
    rw [ends_bind_of_error (takeReservation_none hclone)]
    exact sound
  | some clone =>
    obtain ⟨files, dropped, hnext⟩ := sound_dropped sound hclone (guard clone hclone)
    rw [ends_bind_of_ok (takeReservation_run hclone), ends_bind_of_ok dropped]
    exact ends_pure.mpr hnext

theorem sound_rollbackInstalled (guard : forkGuard system (.rollbackInstalled pid asserted)) :
  Keeps (fun next => Sound ⟨next, []⟩) (rollbackInstalledResources pid asserted) system := by
  refine keeps_rolledBack ?_
  unfold rollbackForkProcessResources
  cases hres : system.processResources pid with
  | none => exact sound
  | some res =>
    obtain ⟨hfds, objs⟩ := names_without sound.wellFormed.pids hres
      (system.files.rollbackForkResourceClone res.descriptors res.objects).2
    have accounts := sound.accounts.names hfds objs
    obtain ⟨files, rollback, shaped, books⟩ :=
      Accounts.rollbackClone sound.wellFormed.shaped accounts ((guard res hres).named accounts)
    dsimp only
    rw [rollback] at books ⊢
    constructor
    · exact ⟨shaped, sound.wellFormed.pids.sublist (filter_sublist.map _)⟩
    · exact books
    · exact fun other hother => sound.numbers other (mem_of_mem_filter hother)
    · exact sound.reserved

theorem next_sound (guard : forkGuard system call) : Sound ⟨next system call, []⟩ := by
  by_cases forks : call.forks = false
  · have chain : Chain true ⟨system, []⟩ ⟨next system call, []⟩ :=
      next_chain sound.wellFormed forks nofun
    exact chain.sound sound
  refine next_of_keeps (fun next => Sound ⟨next, []⟩) sound ?_
  cases call with
  | reserveFork => exact sound_reserve sound
  | commitFork => exact sound_commit sound guard
  | rollbackReserved => exact sound_rollbackReserved sound guard
  | rollbackInstalled => exact sound_rollbackInstalled sound guard
  | _ => exact absurd rfl forks

end

theorem run_sound {fxfs calls} (guarded : Guarded forkGuard next (.start fxfs) calls) :
  Sound ⟨run next (.start fxfs) calls, []⟩ := by
  have keeps : ∀ system call, Sound ⟨system, []⟩ → forkGuard system call →
    Sound ⟨next system call, []⟩ := fun _ _ => next_sound
  exact guarded_invariant keeps (.start fxfs) guarded

/-! ## Undoing a fork -/

theorem next_of_ok {after} (answer) (hrun : serve call system = .ok answer after) :
  next system call = after := by
  unfold next
  rw [hrun]

theorem unreserved_reserved (files clone) :
  (system.reserved files clone).unreserved system.reservations.length =
    { system with files := files } := by
  unfold System.reserved System.unreserved
  rw [eraseIdx_append_of_length_le (Nat.le_refl _), Nat.sub_self, eraseIdx_cons_zero, append_nil]

theorem getElem?_reserved (files clone) :
  (system.reserved files clone).reservations[system.reservations.length]? = some clone :=
  getElem?_concat_length

/-- Giving a reservation up at once restores the system. -/
theorem rollbackReserved_reserved
  (restores : files.rollbackForkResourceClone clone.descriptors clone.objects =
    (true, system.files)) :
  next (system.reserved files clone) (.rollbackReserved system.reservations.length) = system := by
  refine next_of_ok 0 ?_
  change rollbackReservedResources _ _ = _
  unfold rollbackReservedResources
  rw [bind_run_ok (takeReservation_run (getElem?_reserved files clone)), unreserved_reserved]
  have dropped : dropResourceClone clone { system with files := files } = .ok () system :=
    onFiles_run_ok (releaseReserved_run restores)
  rw [bind_run_ok dropped]
  rfl

theorem commitResourceClone_run (hclone : system.reservations[idx]? = some clone)
  (hnone : system.processResources cpid = none) :
  commitResourceClone idx cpid true system = .ok 0 (system.committed idx cpid clone) := by
  have free : ¬ (((system.unreserved idx).processResources cpid).isSome ∨ ¬ true) := by
    have same : (system.unreserved idx).processResources cpid = none := hnone
    rw [same]
    decide
  unfold commitResourceClone
  rw [bind_run_ok (takeReservation_run hclone), get_bind_run, if_neg free]
  rfl

theorem rollbackInstalled_run {res} (hres : system.processResources pid = some res)
  (restores : system.files.rollbackForkResourceClone res.descriptors res.objects = (true, files)) :
  rollbackInstalledResources pid asserted system = .ok 0 { system with
    files := files
    resources := Counted.without (·.pid) pid system.resources } := by
  unfold rollbackInstalledResources rollbackForkProcessResources
  rw [get_bind_run, hres]
  dsimp only
  rw [restores, set_bind_run, if_neg fun fail => fail.2 rfl]
  rfl

section
variable (hnone : system.processResources cpid = none)
include hnone
theorem processResources_committed :
  (system.committed idx cpid clone).processResources cpid = some (childResources cpid clone) := by
  unfold System.processResources at hnone ⊢
  change (system.resources ++ [_]).find? _ = _
  rw [find?_append, hnone, Option.none_or, find?_cons_of_pos]
  exact decide_eq_true rfl

/-- So does taking the tables of the child away again. -/
theorem rollbackInstalled_committed
  (restores : files.rollbackForkResourceClone clone.descriptors clone.objects =
    (true, system.files)) :
  run next (system.reserved files clone) [.commitFork system.reservations.length cpid true,
    .rollbackInstalled cpid asserted] = system := by
  have reserved : (system.reserved files clone).processResources cpid = none := hnone
  have commit : next (system.reserved files clone)
    (.commitFork system.reservations.length cpid true) =
      (system.reserved files clone).committed system.reservations.length cpid clone :=
    next_of_ok 0 (commitResourceClone_run (getElem?_reserved files clone) reserved)
  have without : Counted.without (·.pid) cpid
    (system.resources ++ [childResources cpid clone]) = system.resources :=
    Counted.without_concat rfl (System.processResources_none hnone)
  have back : ((system.reserved files clone).unreserved
    system.reservations.length).reservations = system.reservations := by
    rw [unreserved_reserved]
  change next (next _ _) _ = _
  rw [commit]
  refine next_of_ok 0 ((rollbackInstalled_run (processResources_committed reserved)
    restores).trans (congrArg (EStateM.Result.ok 0) ?_))
  change System.mk _ (Counted.without (·.pid) cpid
    (system.resources ++ [childResources cpid clone])) _ _ = _
  rw [without]
  exact congrArg (fun reservations => { system with reservations := reservations }) back

end

/-- A reservation is refused and changes nothing, or undoing the fork restores
everything, before the child has its tables and after. -/
def ForkUndone (system : System) : Prop :=
  ∀ parentPid failpoints memory attachments,
    next system (.reserveFork parentPid failpoints memory attachments) = system ∨
      next (next system (.reserveFork parentPid failpoints memory attachments))
          (.rollbackReserved system.reservations.length) = system ∧
        ∀ childPid asserted, system.processResources childPid = none →
          run next (next system (.reserveFork parentPid failpoints memory attachments))
            [.commitFork system.reservations.length childPid true,
              .rollbackInstalled childPid asserted] = system

theorem Sound.forkUndone (sound : Sound ⟨system, []⟩) : ForkUndone system := by
  intro ppid failpoints memory attachments
  let reserve : Call := .reserveFork ppid failpoints memory attachments
  have ends : Ends (serve reserve) system _ _ := ends_reserveClone sound
  cases hrun : serve reserve system with
  | ok answer after =>
    obtain ⟨clone, files, reserving, -, rfl⟩ := ends.ok hrun
    rw [next_of_ok answer hrun]
    refine .inr ⟨rollbackReserved_reserved reserving.restores, ?_⟩
    exact fun cpid asserted hnone => rollbackInstalled_committed hnone reserving.restores
  | error reason after =>
    obtain ⟨rfl, rfl⟩ := ends.error hrun
    refine .inl ?_
    unfold next
    rw [hrun]

/-! ## The references of a run -/

/-- What holds of the descriptions between calls: they count the entries that
name them, the index is exact, numbers are unique in a table, and a description
is there, with its object, just while it is named. -/
structure Kept (system : System) : Prop where
  counts : ∀ description ∈ system.files.table.descriptions,
    description.references = (system.fdNames ++ system.objectNames).count description.id
  index : system.files.table.Indexed
  numbers : ∀ resources ∈ system.resources, (resources.descriptors.map (·.fd)).Nodup
  named : ∀ id, id ∈ system.files.table.descriptions.map (·.id) ↔
    id ∈ system.fdNames ++ system.objectNames
  objects : ∀ handle, handle ∈ system.files.compat.handles ↔
    handle ∈ system.files.table.descriptions.map (·.handle)

theorem Sound.kept (sound : Sound ⟨system, []⟩) : Kept system where
  counts desc hmem := sound.accounts.books.balanced.counts _ (mem_map_of_mem hmem)
  index := sound.wellFormed.shaped.indexed
  numbers := sound.numbers
  named id := by
    rw [sound.accounts.books.balanced.named, map_map]
    rfl
  objects handle := by
    rw [← sound.accounts.books.live.mem_iff, nil_append, map_map]
    rfl

/-- In every run in which no clone that is rolled back holds a last reference,
the references are kept, and a fork can be undone at every point. -/
theorem references_kept {fxfs : FxfsState} {calls : List Call}
  (hguarded : Guarded forkGuard next (start fxfs) calls) :
  Kept (run next (start fxfs) calls) ∧ ForkUndone (run next (start fxfs) calls) :=
  ⟨(run_sound hguarded).kept, (run_sound hguarded).forkUndone⟩

/-- A store that holds the root directory only. -/
def rootStore : FxfsState where
  objects := [⟨fxfsRootObjectId, .directory, [], ⟨0o755, 0, 0, 0, 1⟩⟩]
  dirents := []
  nextObjectId := 2

def openRoot : Call := .openat 1 linuxAtFdcwd ['/', 'a'] (linuxOCreat ||| linuxORdwr) 0o644 none true

/-- A process opens a file, and a fork reserves its descriptor. -/
def forkingCalls : List Call := [openRoot, .reserveFork 1 [] true true]

/-- One fork is undone before the child has its tables and one after; the child of a third
one exits. -/
def undoneForks : List Call :=
  forkingCalls ++ [.rollbackReserved 0, .reserveFork 1 [] true true, .commitFork 0 2 true,
    .rollbackInstalled 2 true, .reserveFork 1 [] true true, .commitFork 0 2 true, .close 1 3, .exit 2]

theorem references_kept_forking : Guarded forkGuard next (start rootStore) undoneForks ∧
    Kept (run next (start rootStore) undoneForks) := by
  have hguarded : Guarded forkGuard next (start rootStore) undoneForks := by
    refine ⟨trivial, trivial, ?_, trivial, ?_, ?_, trivial, ?_, trivial, trivial, trivial⟩
    all_goals
      unfold forkGuard Spared
      decide +kernel
  exact ⟨hguarded, (references_kept hguarded).1⟩

/-- The parent closes its descriptor while a fork is in progress.  Where the
answer of the rollback is ignored, the object stays without a description;
where it is asserted, the assertion fails. -/
theorem rollback_loses_object : ¬ Kept (run next (start rootStore)
      (forkingCalls ++ [.close 1 3, .commitFork 0 2 true, .rollbackInstalled 2 false])) ∧
    ∃ after, serve (.rollbackReserved 0)
      (run next (start rootStore) (forkingCalls ++ [.close 1 3])) = .error .assertion after := by
  constructor
  · intro hkept
    have hlive := (hkept.objects compatHandleStart).mp (by decide)
    exact absurd hlive (by decide)
  · exact ⟨_, rfl⟩

/-- In every run, also where a rollback loses objects, no two descriptions or two cursors share
a handle, no live handle is given out again, and no two tables are of one process. -/
theorem handles_not_shared (fxfs : FxfsState) (calls : List Call) :
  let sys := run next (start fxfs) calls
  (sys.files.table.descriptions.map (·.handle)).Nodup ∧ (sys.files.fxfsFiles.map (·.handle)).Nodup ∧
    (∀ handle ∈ sys.files.compat.handles, handle < sys.files.compat.nextHandle) ∧
    (sys.resources.map (·.pid)).Nodup :=
  have ⟨shaped, pids⟩ := run_wellFormed fxfs calls
  ⟨shaped.handles, shaped.fileHandles, shaped.live, pids⟩

/-- Where no rollback loses an object, a cursor and a cached handle never dangle: they are of
a description that a descriptor names. -/
theorem backings_are_named {fxfs : FxfsState} {calls : List Call}
  (hguarded : Guarded forkGuard next (start fxfs) calls) :
  let sys := run next (start fxfs) calls
  (∀ file ∈ sys.files.fxfsFiles, ∃ desc ∈ sys.files.table.descriptions,
    desc.handle = file.handle ∧ desc.id ∈ sys.fdNames) ∧
  ∀ cached ∈ sys.files.shmCachedHandles, ∃ desc ∈ sys.files.table.descriptions,
    desc.handle = cached.handle ∧ desc.id = cached.descriptionId ∧ desc.id ∈ sys.fdNames := by
  intro sys
  have sound : Sound ⟨sys, []⟩ := run_sound hguarded
  obtain ⟨books, owned, cached, -⟩ := sound.accounts
  -- files are no objects of a process
  have named {desc} (hdesc : desc ∈ sys.files.table.descriptions)
      (kind : desc.objectType = .linuxFile) : desc.id ∈ sys.fdNames := by
    have names := (sound.kept.named _).mp (mem_map_of_mem hdesc)
    refine (mem_append.mp names).resolve_right fun hobj => ?_
    exact books.objectKinds _ (mem_map_of_mem hdesc) hobj kind
  refine ⟨fun file hfile => ?_, fun entry hentry => ?_⟩
  · obtain ⟨desc, hdesc, same, kind⟩ := owned file hfile
    exact ⟨desc, hdesc, same, named hdesc kind⟩
  · obtain ⟨desc, hdesc, same, id, kind⟩ := cached entry hentry
    exact ⟨desc, hdesc, same, id, named hdesc kind⟩

theorem backings_are_named_open :
  ∃ desc ∈ (run next (start rootStore) [openRoot]).files.table.descriptions,
    desc.handle = compatHandleStart ∧ desc.id ∈ (run next (start rootStore) [openRoot]).fdNames :=
  (@backings_are_named rootStore [openRoot] ⟨trivial, trivial⟩).1 _ (mem_singleton_self _)

end Smros.Files
