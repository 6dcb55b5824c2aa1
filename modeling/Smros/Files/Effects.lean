import Mathlib.Logic.Relation
import Smros.Files.Shape
import Smros.Files.Syscalls

/-!
# What a call can do

The steps that calls other than forks are made of, each with the facts that
make it safe.  A call is a chain of them; what every step keeps, every call
keeps.
-/

namespace Smros.Files
open Lib LinuxOpenDescriptions List OpenFiles

/-- A state inside a call, with the objects that have no description yet. -/
structure Stage where
  system : System
  pending : List Nat

/-- The files are in shape, and a process has one set of resources. -/
structure WellFormed (stage : Stage) : Prop where
  shaped : Shaped stage.system.files stage.pending
  pids : (stage.system.resources.map (·.pid)).Nodup

variable {change : LinuxProcessResources → LinuxProcessResources}
namespace System
variable {system : System} {pid : Nat}
/-- A descriptor is added to a table. -/
def addEntry (system : System) (pid : Nat) (entry : LinuxDescriptorEntry) (hint : Nat → Nat) :
  System :=
  system.processResourcesMut pid fun resources => { resources with
    nextFd := hint resources.nextFd
    descriptors := resources.descriptors ++ [entry] }

/-- The hint of a process; without resources there is none. -/
def hint (system : System) (pid : Nat) : Nat :=
  ((system.processResources pid).map (·.nextFd)).getD 0

/-- An object is added to a list. -/
def addObject (system : System) (pid id : Nat) : System :=
  system.processResourcesMut pid fun resources =>
    { resources with objects := resources.objects ++ [id] }

theorem processResources_some {res} (hfind : system.processResources pid = some res) :
  res ∈ system.resources ∧ res.pid = pid :=
  ⟨mem_of_find?_eq_some hfind, by simpa using find?_some hfind⟩

theorem processResources_none (hfind : system.processResources pid = none) :
  ∀ resources ∈ system.resources, resources.pid ≠ pid := fun resources hmem => by
  simpa using find?_eq_none.mp hfind resources hmem

variable (pids : (system.resources.map (·.pid)).Nodup)
include pids
/-- The resources around those of one process, which are there or are new. -/
theorem processResourcesMut_perm (pid) : ∃ old others,
    ((system.processResources pid = some old ∧ system.resources.Perm (old :: others)) ∨
      (system.processResources pid = none ∧ old = .new pid ∧ system.resources = others)) ∧
    old.pid = pid ∧
    ∀ change, (system.processResourcesMut pid change).resources.Perm (change old :: others) := by
  cases find : system.processResources pid with
  | none =>
    refine ⟨.new pid, system.resources, .inr ⟨rfl, rfl, rfl⟩, rfl, fun change => ?_⟩
    unfold processResourcesMut
    rw [find]
    exact perm_append_singleton _ _
  | some old =>
    obtain ⟨hmem, rfl⟩ := processResources_some find
    obtain ⟨others, perm, adjust, -⟩ := Counted.perm_around pids hmem
    refine ⟨old, others, .inl ⟨rfl, perm⟩, rfl, fun change => ?_⟩
    unfold processResourcesMut
    rw [find]
    exact adjust change

theorem pids_processResourcesMut (hpid : ∀ res, (change res).pid = res.pid) :
  ((system.processResourcesMut pid change).resources.map (·.pid)).Nodup := by
  obtain ⟨old, others, hold, same, perm⟩ := processResourcesMut_perm pids pid
  refine ((perm change).map _).nodup_iff.mpr ?_
  rw [map_cons, hpid]
  rcases hold with ⟨-, hall⟩ | ⟨hnone, -, rfl⟩
  · exact (hall.map _).nodup_iff.mp pids
  refine nodup_cons.mpr ⟨fun hmem => ?_, pids⟩
  obtain ⟨res, hres, other⟩ := mem_map.mp hmem
  exact processResources_none hnone res hres (other.trans same)

end System

/-! ## Steps -/

variable (system : System)
/-- Some table has an entry for the description. -/
def Named (id : Nat) : Prop :=
  ∃ resources ∈ system.resources, ∃ entry ∈ resources.descriptors, entry.descriptionId = id

/-- The table entry and the reference of a duplicate. -/
def aliased (pid : Nat) (entry : LinuxDescriptorEntry) (hint : Nat → Nat) : System :=
  (system.acquireIgnored entry.descriptionId).addEntry pid entry hint

/-- A description for a new object. -/
def described (handle : Nat) (objectType : ObjectType) (statusFlags : Nat) : System :=
  { system with files := (system.files.createOpenDescription handle objectType statusFlags).2 }

/-- The description of a new object, taken for the list of a process. -/
def listed (pid handle : Nat) (objectType : ObjectType) : System :=
  ((described system handle objectType 0).acquireIgnored
    system.files.table.nextOpenDescriptionId).addObject pid system.files.table.nextOpenDescriptionId

/-- A new number leaves the hint alone, or no number between the hint and it is free. -/
def Placed (pid fd : Nat) (hint : Nat → Nat) : Prop :=
  (∀ next, hint next = next) ∨ (hint = fun _ => System.followingFd fd) ∧
    ∀ number < fd, max (system.hint pid) compatFdStart ≤ number → number ∈ system.usedFds pid

/-- The steps; a duplicate may be placed above numbers that are free where `above` says so. -/
inductive Effect (above : Bool) : Stage → Stage → Prop where
  | store {system : System} {pending : List Nat} (fxfs : FxfsState) :
      Effect above ⟨system, pending⟩
        ⟨{ system with files := { system.files with fxfs := fxfs } }, pending⟩
  | print {system : System} {pending : List Nat} (serial : List UInt8) :
      Effect above ⟨system, pending⟩ ⟨{ system with serial := serial }, pending⟩
  | queues {system : System} {pending : List Nat} {compat : CompatObjectTable}
      (handles : compat.handles = system.files.compat.handles)
      (next : compat.nextHandle = system.files.compat.nextHandle) :
      Effect above ⟨system, pending⟩
        ⟨{ system with files := { system.files with compat := compat } }, pending⟩
  | flags {system : System} {pending : List Nat} (id flags : Nat) :
      Effect above ⟨system, pending⟩
        ⟨{ system with files := system.files.setDescriptionStatusFlags id flags }, pending⟩
  | uncache {system : System} {pending : List Nat} (path : Path) :
      Effect above ⟨system, pending⟩
        ⟨{ system with files := system.files.removeLinuxShmCachedPath path }, pending⟩
  | attributes {system : System} {pending : List Nat} (pid : Nat)
      {change : LinuxProcessResources → LinuxProcessResources}
      (samePid : ∀ resources, (change resources).pid = resources.pid)
      (sameFds : ∀ resources,
        (change resources).descriptors.map (fun entry => (entry.fd, entry.descriptionId)) =
          resources.descriptors.map fun entry => (entry.fd, entry.descriptionId))
      (sameObjects : ∀ resources, (change resources).objects = resources.objects)
      (sameNext : ∀ resources, (change resources).nextFd = resources.nextFd) :
      Effect above ⟨system, pending⟩ ⟨system.processResourcesMut pid change, pending⟩
  | duplicated {system : System} {pending : List Nat} (pid : Nat) {entry : LinuxDescriptorEntry}
      {hint : Nat → Nat} (free : system.getFd pid entry.fd = none)
      (live : Named system entry.descriptionId ∨
        ∃ cached ∈ system.files.shmCachedHandles, cached.descriptionId = entry.descriptionId)
      (placed : above = false → Placed system pid entry.fd hint) :
      Effect above ⟨system, pending⟩ ⟨aliased system pid entry hint, pending⟩
  | reordered {system : System} {pending other : List Nat} (perm : pending.Perm other) :
      Effect above ⟨system, pending⟩ ⟨system, other⟩
  | created {system : System} {pending : List Nat} {compat : CompatObjectTable}
      (last : system.files.compat.nextHandle ≠ invalidHandle)
      (next : compat.nextHandle = system.files.compat.nextHandle + 1)
      (handles : compat.handles = system.files.compat.handles ++ [system.files.compat.nextHandle]) :
      Effect above ⟨system, pending⟩
        ⟨{ system with files := { system.files with compat := compat } },
          system.files.compat.nextHandle :: pending⟩
  | skipped {system : System} {pending : List Nat} {compat : CompatObjectTable}
      (last : system.files.compat.nextHandle ≠ invalidHandle)
      (next : compat.nextHandle = system.files.compat.nextHandle + 1)
      (handles : compat.handles = system.files.compat.handles) :
      Effect above ⟨system, pending⟩
        ⟨{ system with files := { system.files with compat := compat } }, pending⟩
  | abandoned {system : System} {pending : List Nat} {handle : Nat} :
      Effect above ⟨system, handle :: pending⟩ ⟨{ system with
            files := { system.files with compat := system.files.compat.close handle } }, pending⟩
  | opened {system : System} {pending : List Nat} (pid : Nat) {handle fd : Nat}
      {objectType : ObjectType} {statusFlags : Nat} {closeOnExec : Bool} {hint : Nat → Nat}
      (kind : objectType ≠ .sharedMemory) (free : fd ∉ system.usedFds pid)
      (placed : Placed system pid fd hint) :
      Effect above ⟨system, handle :: pending⟩
        ⟨aliased (described system handle objectType statusFlags) pid
          ⟨fd, system.files.table.nextOpenDescriptionId, closeOnExec⟩ hint, pending⟩
  | registered {system : System} {pending : List Nat} (pid : Nat) {handle : Nat} :
      Effect above ⟨system, handle :: pending⟩ ⟨listed system pid handle .messageQueue, pending⟩
  | shared {system : System} {pending : List Nat} (pid : Nat) {handle size id : Nat}
      {files : OpenFiles} (registers : system.files.registerSharedMemory handle size = some (id, files)) :
      Effect above ⟨system, handle :: pending⟩
        ⟨listed { system with files := files } pid handle .sharedMemory, pending⟩
  | closed {system : System} {pending : List Nat} (pid fd : Nat) :
      Effect above ⟨system, pending⟩ ⟨(closeLinuxFd system pid fd).2, pending⟩
  | exited {system : System} {pending : List Nat} (pid : Nat) :
      Effect above ⟨system, pending⟩ ⟨releaseLinuxProcessResources system pid, pending⟩
  | bound {system : System} {handle : Nat} {path : Path} {cursor : FxfsCursor}
      (live : (∃ description ∈ system.files.table.descriptions,
          description.handle = handle ∧ description.objectType = .linuxFile) ∨
        ∃ cached ∈ system.files.shmCachedHandles, cached.handle = handle) :
      Effect above ⟨system, []⟩
        ⟨{ system with files := system.files.bindLinuxFxfsFile handle path cursor }, []⟩
  | cached {system : System} {handle id : Nat} {path : Path} {cursor : FxfsCursor}
      (live : ∃ description ∈ system.files.table.descriptions,
        description.handle = handle ∧ description.id = id ∧ description.objectType = .linuxFile) :
      Effect above ⟨system, []⟩
        ⟨{ system with files := system.files.cacheLinuxShmHandle path handle id cursor }, []⟩
  | seek {system : System} {pending : List Nat} (handle : Nat) (cursor : FxfsCursor) :
      Effect above ⟨system, pending⟩
        ⟨{ system with files := system.files.setCursor handle cursor }, pending⟩
  | offset {system : System} {pending : List Nat} (id offset : Nat) :
      Effect above ⟨system, pending⟩
        ⟨{ system with files := system.files.setDescriptionOffset id offset }, pending⟩

/-! ## The steps keep the shape -/

variable {system} {pending : List Nat}
theorem Shaped.acquireIgnored (hshaped : Shaped system.files pending) (id) :
  Shaped (system.acquireIgnored id).files pending := by
  unfold System.acquireIgnored
  cases acquire : system.files.acquireOpenDescription id with
  | none => exact hshaped
  | some acquired => exact hshaped.acquire acquire

theorem acquireIgnored_tables (system : System) (id) :
  (system.acquireIgnored id).resources = system.resources ∧
    (system.acquireIgnored id).reservations = system.reservations := by
  unfold System.acquireIgnored
  cases system.files.acquireOpenDescription id with
  | none => exact ⟨rfl, rfl⟩
  | some acquired => exact ⟨rfl, rfl⟩

theorem usedFds_congr {other : System} (res : other.resources = system.resources) (pid) :
  other.usedFds pid = system.usedFds pid := by
  unfold System.usedFds System.processResources
  rw [res]

variable {entry : LinuxDescriptorEntry} {id handle size : Nat}
section
variable (well : WellFormed ⟨system, pending⟩) {pid : Nat}
include well
theorem WellFormed.processResourcesMut (hpid : ∀ res, (change res).pid = res.pid)
  : WellFormed ⟨system.processResourcesMut pid change, pending⟩ :=
  ⟨well.shaped, System.pids_processResourcesMut well.pids hpid⟩

theorem WellFormed.acquireIgnored (id) : WellFormed ⟨system.acquireIgnored id, pending⟩ := by
  refine ⟨well.shaped.acquireIgnored id, ?_⟩
  rw [(acquireIgnored_tables system id).1]
  exact well.pids

theorem WellFormed.aliased {hint} : WellFormed ⟨aliased system pid entry hint, pending⟩ :=
  (well.acquireIgnored _).processResourcesMut fun _ => rfl

theorem WellFormed.addObject : WellFormed ⟨(system.acquireIgnored id).addObject pid id, pending⟩ :=
  (well.acquireIgnored _).processResourcesMut fun _ => rfl

end

variable {files next : OpenFiles} {pid fd : Nat}
/-- Only what stands behind the descriptors changes. -/
theorem WellFormed.setFiles {left} (well : WellFormed ⟨system, pending⟩)
  (hshaped : Shaped files left) : WellFormed ⟨{ system with files := files }, left⟩ :=
  ⟨hshaped, well.pids⟩

theorem Shaped.releaseAndClose (hshaped : Shaped files pending) (id) :
  Shaped (files.releaseAndClose id) pending := by
  have hreleased := hshaped.release id
  unfold OpenFiles.releaseAndClose
  cases release : files.releaseOpenDescription id with
  | mk released rest =>
    rw [release] at hreleased
    cases released with
    | none => exact hreleased
    | some desc => exact (hreleased.removeFile _).sysHandleClose _

variable {rec : LinuxFdRecord}
/-- The table of a process without one of its entries. -/
def withoutEntry (system : System) (pid : Nat) (entry : LinuxDescriptorEntry) : System :=
  system.processResourcesMut pid fun resources => { resources with
    descriptors := Counted.without (·.fd) entry.fd resources.descriptors
    nextFd := min resources.nextFd entry.fd }

/-- Closing a number in use drops its entry and its reference. -/
theorem closeFd_of_getFd (hget : system.getFd pid fd = some rec) :
  ∃ resources entry, system.processResources pid = some resources ∧
    entry ∈ resources.descriptors ∧ entry.fd = fd ∧ 
    closeLinuxFd system pid fd = (true, { withoutEntry system pid entry with
          files := system.files.releaseAndClose entry.descriptionId }) := by
  obtain ⟨resources, hres, rest⟩ := Option.bind_eq_some_iff.mp hget
  obtain ⟨entry, find, -⟩ := Option.bind_eq_some_iff.mp rest
  have hfd : entry.fd = fd := by simpa using find?_some find
  subst hfd
  refine ⟨resources, entry, hres, mem_of_find?_eq_some find, rfl, ?_⟩
  unfold closeLinuxFd System.removeFdEntry
  rw [hget, hres]
  simp only
  rw [find]
  rfl

theorem closeFd_of_none (hget : system.getFd pid fd = none) :
  closeLinuxFd system pid fd = (false, system) := by
  unfold closeLinuxFd
  rw [hget]

theorem WellFormed.withoutEntry (well : WellFormed ⟨system, pending⟩) :
  WellFormed ⟨withoutEntry system pid entry, pending⟩ :=
  well.processResourcesMut fun _ => rfl

theorem WellFormed.closed (well : WellFormed ⟨system, pending⟩) :
  WellFormed ⟨(closeLinuxFd system pid fd).2, pending⟩ := by
  cases hget : system.getFd pid fd with
  | none =>
    rw [closeFd_of_none hget]
    exact well
  | some rec =>
    obtain ⟨res, entry, -, -, -, close⟩ := closeFd_of_getFd hget
    rw [close]
    exact ⟨well.shaped.releaseAndClose _, well.withoutEntry.pids⟩

theorem Shaped.setShared (hshaped : Shaped files pending) (sharedMemory nextSharedMemoryId) : Shaped
    { files with
      sharedMemory := sharedMemory
      nextSharedMemoryId := nextSharedMemoryId } pending :=
  { hshaped with }

theorem registerSharedMemory_some
  (register : files.registerSharedMemory handle size = some (id, next)) :
  id = files.nextSharedMemoryId ∧ 0 < id ∧
    next =
      { files with
        nextSharedMemoryId := files.nextSharedMemoryId + 1
        sharedMemory := files.sharedMemory ++ [⟨files.nextSharedMemoryId, handle, size, 1⟩] } := by
  unfold registerSharedMemory at register
  dsimp only at register
  split at register
  · cases register
  rename_i full
  cases register
  exact ⟨rfl, Nat.pos_of_ne_zero fun zero => full (.inl zero), rfl⟩

section
variable (hshaped : Shaped files pending)
include hshaped
theorem Shaped.registerShared (register : files.registerSharedMemory handle size = some (id, next))
  : Shaped next pending := by
  obtain ⟨-, -, rfl⟩ := registerSharedMemory_some register
  exact hshaped.setShared _ _

theorem Shaped.releaseShared (id) : Shaped (files.releaseSharedMemoryReference id).2 pending := by
  unfold releaseSharedMemoryReference
  cases files.sharedMemory.find? (·.id = id) with
  | none => exact hshaped
  | some rec =>
    simp only
    split
    · exact hshaped
    split
    · exact hshaped.setShared _ _
    · exact hshaped.setShared _ _

theorem Shaped.releaseObjectEntry (id) : Shaped (files.releaseObjectEntry id).2 pending := by
  have released := hshaped.release id
  unfold OpenFiles.releaseObjectEntry
  cases files.table.openDescription id with
  | none => exact released
  | some obj =>
    simp only
    split
    · cases (files.releaseOpenDescription id).2.sharedMemoryId obj.handle with
      | none => exact released
      | some sharedId => exact released.releaseShared sharedId
    · exact released

theorem Shaped.releaseObjects (objs) : Shaped (files.releaseObjects objs).2 pending := by
  induction objs generalizing files with
  | nil => exact hshaped
  | cons id rest ih => exact ih (hshaped.releaseObjectEntry id)

theorem Shaped.releaseDescriptors (descriptors) :
  Shaped (files.releaseDescriptors descriptors).2 pending := by
  induction descriptors generalizing files with
  | nil => exact hshaped
  | cons entry rest ih =>
    have hreleased := hshaped.release entry.descriptionId
    unfold releaseDescriptors
    cases release : files.releaseOpenDescription entry.descriptionId with
    | mk released next =>
      rw [release] at hreleased
      cases released with
      | none => exact ih hreleased
      | some desc => exact ih (hreleased.removeFile _)

end

theorem WellFormed.exited (well : WellFormed ⟨system, pending⟩) :
  WellFormed ⟨releaseLinuxProcessResources system pid, pending⟩ := by
  unfold releaseLinuxProcessResources
  cases system.processResources pid with
  | none => exact well
  | some res =>
    refine ⟨.closeHandles ?_ _, well.pids.sublist (filter_sublist.map _)⟩
    exact (well.shaped.releaseObjects _).releaseDescriptors _

variable {before after : Stage}
theorem Effect.wellFormed {above} (effect : Effect above before after) (well : WellFormed before)
  : WellFormed after := by
  have hshaped := well.shaped
  cases effect with
  | store fxfs => exact well.setFiles { hshaped with }
  | print serial => exact ⟨hshaped, well.pids⟩
  | queues handles next =>
    refine well.setFiles (hshaped.setCompat ?_ next)
    rw [handles]
  | flags id flags => exact well.setFiles (hshaped.openDescriptionMut (fun _ => rfl) fun _ => rfl)
  | uncache path =>
    exact well.setFiles (hshaped.setCached fun cached hcached =>
      hshaped.cachedBound cached (mem_filter.mp hcached).1)
  | attributes pid samePid => exact well.processResourcesMut samePid
  | duplicated => exact well.aliased
  | reordered perm => exact ⟨hshaped.reorder perm, well.pids⟩
  | created last next handles => exact well.setFiles (hshaped.createObject last next handles)
  | skipped last next handles => exact well.setFiles (hshaped.skipHandle last next handles)
  | abandoned => exact well.setFiles (hshaped.giveUp.closeObject _)
  | opened => exact (well.setFiles hshaped.describe).aliased
  | registered pid => exact (well.setFiles hshaped.describe).addObject
  | shared pid regs =>
    have hregistered := hshaped.registerShared regs
    exact (well.setFiles hregistered.describe).addObject
  | closed pid fd => exact well.closed
  | exited pid => exact well.exited
  | bound live =>
    refine well.setFiles (hshaped.bind ?_ not_mem_nil)
    rcases live with ⟨desc, hdesc, rfl, -⟩ | ⟨cached, hcached, rfl⟩
    · exact hshaped.described desc hdesc
    · exact hshaped.cachedBound cached hcached
  | cached live =>
    obtain ⟨desc, hdesc, rfl, -⟩ := live
    exact well.setFiles (hshaped.cache (hshaped.described desc hdesc))
  | seek handle cursor => exact well.setFiles hshaped.setCursor
  | offset id offset => exact well.setFiles (hshaped.openDescriptionMut (fun _ => rfl) fun _ => rfl)

end Smros.Files
