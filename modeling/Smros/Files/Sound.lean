import Smros.Files.Accounts
import Smros.Files.Calls

/-!
# Every reference is counted

The names of descriptions are those in the tables and lists of the processes
and in the fork reservations.  Every step of a call keeps the books over them.
-/

namespace Smros.Files
open Lib LinuxOpenDescriptions List Counted Files.System Subset Accounts

/-! ## The names in use -/

def LinuxProcessResources.fdNames (resources : LinuxProcessResources) : List Nat :=
  resources.descriptors.map (·.descriptionId)

def LinuxResourceClone.fdNames (clone : LinuxResourceClone) : List Nat :=
  clone.descriptors.map (·.descriptionId)

/-- The descriptions that table entries name, over all processes and reservations. -/
def System.fdNames (system : System) : List Nat :=
  system.resources.flatMap (·.fdNames) ++ system.reservations.flatMap (·.fdNames)

/-- The descriptions that entries of the lists of objects name. -/
def System.objectNames (system : System) : List Nat :=
  system.resources.flatMap (·.objects) ++ system.reservations.flatMap (·.objects)

variable {sys : System}
/-- The names around those of one process. -/
theorem names_around (pids : (sys.resources.map (·.pid)).Nodup) (pid) : ∃ old fdRest objectRest,
    (sys.processResources pid = some old ∨ sys.processResources pid = none ∧ old = .new pid) ∧
    sys.fdNames.Perm (old.fdNames ++ fdRest) ∧
    sys.objectNames.Perm (old.objects ++ objectRest) ∧
    ∀ change, (sys.processResourcesMut pid change).fdNames.Perm ((change old).fdNames ++ fdRest) ∧
      (sys.processResourcesMut pid change).objectNames.Perm
        ((change old).objects ++ objectRest) := by
  obtain ⟨old, others, hold, -, perm⟩ := processResourcesMut_perm pids pid
  have after : ∀ (change : LinuxProcessResources → LinuxProcessResources)
    (part : LinuxProcessResources → List Nat) (rest : List Nat),
    ((sys.processResourcesMut pid change).resources.flatMap part ++ rest).Perm
      (part (change old) ++ (others.flatMap part ++ rest)) := fun change part rest => by
    have hall := ((perm change).flatMap_right part).append_right rest
    rw [flatMap_cons, append_assoc] at hall
    exact hall
  have before : ∀ (part : LinuxProcessResources → List Nat) (rest : List Nat),
    part (.new pid) = [] →
    (sys.resources.flatMap part ++ rest).Perm
      (part old ++ (others.flatMap part ++ rest)) := fun part rest hnew => by
    rcases hold with ⟨-, hall⟩ | ⟨-, rfl, rfl⟩
    · have hsome := (hall.flatMap_right part).append_right rest
      rw [flatMap_cons, append_assoc] at hsome
      exact hsome
    · rw [hnew]
      exact .refl _
  refine ⟨old, _, _, ?_, before _ _ rfl, before _ _ rfl, fun change =>
    ⟨after change _ _, after change _ _⟩⟩
  rcases hold with ⟨hsome, -⟩ | ⟨hnone, hnew, -⟩
  · exact .inl hsome
  · exact .inr ⟨hnone, hnew⟩

/-- The books are kept, and the numbers of a table are distinct. -/
structure Sound (stage : Stage) : Prop where
  wellFormed : WellFormed stage
  accounts : Accounts stage.system.files stage.system.fdNames stage.system.objectNames stage.pending
  numbers : ∀ resources ∈ stage.system.resources, (resources.descriptors.map (·.fd)).Nodup
  reserved : ∀ clone ∈ stage.system.reservations, (clone.descriptors.map (·.fd)).Nodup

/-! ## Names after a step -/

variable {change : LinuxProcessResources → LinuxProcessResources}
  {resources : LinuxProcessResources} {pid : Nat}
section
variable {other : System}
theorem fdNames_congr (res : other.resources = sys.resources)
  (resvs : other.reservations = sys.reservations) : other.fdNames = sys.fdNames := by
  unfold fdNames
  rw [res, resvs]

theorem objectNames_congr (res : other.resources = sys.resources)
  (resvs : other.reservations = sys.reservations) : other.objectNames = sys.objectNames := by
  unfold objectNames
  rw [res, resvs]

variable (pids : (sys.resources.map (·.pid)).Nodup)
include pids
/-- A change that leaves what a process names. -/
theorem names_same (hfds : ∀ res, (change res).fdNames = res.fdNames)
  (objs : ∀ res, (change res).objects = res.objects) :
  sys.fdNames.Perm (sys.processResourcesMut pid change).fdNames ∧
    sys.objectNames.Perm (sys.processResourcesMut pid change).objectNames := by
  obtain ⟨old, fdRest, objectRest, -, beforeFds, beforeObjects, after⟩ := names_around pids pid
  obtain ⟨afterFds, afterObjects⟩ := after change
  rw [hfds] at afterFds
  rw [objs] at afterObjects
  exact ⟨beforeFds.trans afterFds.symm, beforeObjects.trans afterObjects.symm⟩

theorem names_addEntry (pid entry hint) :
  (entry.descriptionId :: sys.fdNames).Perm (sys.addEntry pid entry hint).fdNames ∧
    sys.objectNames.Perm (sys.addEntry pid entry hint).objectNames := by
  obtain ⟨old, fdRest, objectRest, -, beforeFds, beforeObjects, after⟩ := names_around pids pid
  obtain ⟨afterFds, afterObjects⟩ := after fun res => { res with
    nextFd := hint res.nextFd
    descriptors := res.descriptors ++ [entry] }
  refine ⟨((beforeFds.cons _).trans ?_).trans afterFds.symm, beforeObjects.trans afterObjects.symm⟩
  unfold LinuxProcessResources.fdNames
  rw [map_append, map_singleton, append_assoc]
  exact perm_middle.symm

theorem names_addObject (pid id) : sys.fdNames.Perm (sys.addObject pid id).fdNames ∧
    (id :: sys.objectNames).Perm (sys.addObject pid id).objectNames := by
  obtain ⟨old, fdRest, objectRest, -, beforeFds, beforeObjects, after⟩ := names_around pids pid
  obtain ⟨afterFds, afterObjects⟩ := after fun res => { res with objects := res.objects ++ [id] }
  refine ⟨beforeFds.trans afterFds.symm, ((beforeObjects.cons _).trans ?_).trans afterObjects.symm⟩
  rw [append_assoc]
  exact perm_middle.symm

theorem names_withoutEntry {entry} (hres : sys.processResources pid = some resources)
  (nums : (resources.descriptors.map (·.fd)).Nodup) (hentry : entry ∈ resources.descriptors) :
  sys.fdNames.Perm (entry.descriptionId :: (withoutEntry sys pid entry).fdNames) ∧
    sys.objectNames.Perm (withoutEntry sys pid entry).objectNames := by
  obtain ⟨old, fdRest, objectRest, hold, beforeFds, beforeObjects, after⟩ := names_around pids pid
  have same : old = resources := by
    rcases hold with hsome | ⟨hnone, -⟩
    · exact Option.some.inj (hsome.symm.trans hres)
    · cases hnone.symm.trans hres
  subst same
  obtain ⟨afterFds, afterObjects⟩ := after fun resources => { resources with
    descriptors := without (·.fd) entry.fd resources.descriptors
    nextFd := min resources.nextFd entry.fd }
  obtain ⟨others, perm, -, hwithout⟩ := perm_around nums hentry
  refine ⟨beforeFds.trans (.trans ?_ (afterFds.symm.cons _)), beforeObjects.trans afterObjects.symm⟩
  have taken := (perm.trans (hwithout.symm.cons entry)).map (·.descriptionId)
  exact taken.append_right fdRest

/-- A property of the resources that a change of one set of them keeps. -/
theorem resources_mut {property : LinuxProcessResources → Prop}
  (hall : ∀ resources ∈ sys.resources, property resources) (hnew : property (.new pid))
  (hchange : ∀ resources, (sys.processResources pid).getD (.new pid) = resources →
    property resources → property (change resources)) :
  ∀ resources ∈ (sys.processResourcesMut pid change).resources, property resources := by
  intro resources hmem
  obtain ⟨old, others, hold, -, perm⟩ := processResourcesMut_perm pids pid
  rcases mem_cons.mp ((perm change).mem_iff.mp hmem) with rfl | other
  · rcases hold with ⟨hsome, all'⟩ | ⟨hnone, rfl, -⟩
    · refine hchange old (by rw [hsome]; rfl) ?_
      exact hall old (all'.mem_iff.mpr (mem_cons_self ..))
    · exact hchange _ (by rw [hnone]; rfl) hnew
  · rcases hold with ⟨-, all'⟩ | ⟨-, -, rfl⟩
    · exact hall resources (all'.mem_iff.mpr (mem_cons_of_mem _ other))
    · exact hall resources other

end

/-! ## Steps keep the books -/

variable {pending : List Nat} {fd id : Nat}
theorem Sound.start (fxfs) : Sound ⟨start fxfs, []⟩ where
  wellFormed := ⟨.start fxfs, nodup_nil⟩
  accounts := .start fxfs
  numbers _ hmem := by cases hmem
  reserved _ hmem := by cases hmem

theorem mem_fdNames (named : Named sys id) : id ∈ sys.fdNames := by
  obtain ⟨res, hres, entry, hentry, rfl⟩ := named
  refine mem_append_left _ (mem_flatMap.mpr ⟨res, hres, ?_⟩)
  exact mem_map_of_mem hentry

/-- A number without a description has no entry. -/
theorem Sound.free (sound : Sound ⟨sys, pending⟩) (hnone : sys.getFd pid fd = none) :
  fd ∉ sys.usedFds pid := by
  rw [not_used_iff]
  cases hentry : sys.entryOf pid fd with
  | none => rfl
  | some entry =>
    have name := mem_fdNames (named_of_entryOf hentry)
    obtain ⟨desc, -, -, hopen, -⟩ := sound.accounts.around sound.wellFormed.shaped.indexed
      (mem_append_left _ name)
    rw [getFd_eq, hentry, Option.bind_some, hopen] at hnone
    cases hnone

/-- What a duplicate or a cached handle names is there and is no shared memory. -/
theorem Sound.nameable (sound : Sound ⟨sys, pending⟩) (live : Named sys id ∨
      ∃ cached ∈ sys.files.shmCachedHandles, cached.descriptionId = id) :
    ∃ desc, sys.files.table.openDescription id = some desc ∧
      desc.objectType ≠ .sharedMemory ∧ id ∈ sys.fdNames ++ sys.objectNames := by
  have indexed := sound.wellFormed.shaped.indexed
  have balanced := sound.accounts.books.balanced
  rcases live with named | ⟨cached, hcached, rfl⟩
  · have name := mem_fdNames named
    have hany := mem_append_left sys.objectNames name
    obtain ⟨desc, others, rfl, hopen, -⟩ := sound.accounts.around indexed hany
    obtain ⟨hmem, -⟩ := (openDesc_iff indexed).mp hopen
    refine ⟨desc, hopen, ?_, hany⟩
    exact sound.accounts.books.fdKinds _ (mem_map_of_mem hmem) name
  · obtain ⟨desc, hmem, -, hid, kind⟩ := sound.accounts.cached cached hcached
    refine ⟨desc, (openDesc_iff indexed).mpr ⟨hmem, hid⟩, ?_, ?_⟩
    · rw [kind]
      decide
    · rw [balanced.named, ← hid, map_map]
      exact mem_map_of_mem hmem

variable {entry : LinuxDescriptorEntry} {before after : Stage} {above : Bool} {hint : Nat → Nat}
  {handle : Nat}
theorem Sound.accounts_duplicated (sound : Sound ⟨sys, pending⟩)
  (live : Named sys entry.descriptionId ∨
    ∃ cached ∈ sys.files.shmCachedHandles, cached.descriptionId = entry.descriptionId) :
  Accounts (aliased sys pid entry hint).files (aliased sys pid entry hint).fdNames
    (aliased sys pid entry hint).objectNames pending := by
  obtain ⟨desc, hopen, kind, name⟩ := sound.nameable live
  obtain ⟨res, resvs⟩ := acquireIgnored_tables sys entry.descriptionId
  have pids : ((sys.acquireIgnored entry.descriptionId).resources.map (·.pid)).Nodup := by
    rw [res]
    exact sound.wellFormed.pids
  obtain ⟨hfds, objs⟩ := names_addEntry pids pid entry hint
  rw [fdNames_congr res resvs] at hfds
  rw [objectNames_congr res resvs] at objs
  obtain ⟨-, acquired⟩ := sound.accounts.acquireFd sound.wellFormed.shaped.indexed name
    fun other hother => by
      cases hopen.symm.trans hother
      exact kind
  rw [aliased_files_of_open hopen]
  exact acquired.names hfds objs

section
variable {flags : Nat} {objectType : ObjectType}
/-- The files after a description is created and taken. -/
theorem described_acquired (shaped : Shaped sys.files (handle :: pending)) :
  ((described sys handle objectType flags).acquireIgnored
    sys.files.table.nextOpenDescriptionId).files =
    { sys.files with
      table := (sys.files.createOpenDescription handle objectType flags).2.table.openDescriptionMut
        sys.files.table.nextOpenDescriptionId addReference } := by
  have created : (described sys handle objectType flags).files.table.openDescription
    sys.files.table.nextOpenDescriptionId =
      some (Shaped.created sys.files handle objectType flags) :=
    openDesc_create_self shaped
  rw [acquireIgnored_of_open created]
  rfl

theorem described_tables (sys handle objectType flags) :
  ((described sys handle objectType flags).acquireIgnored
    sys.files.table.nextOpenDescriptionId).resources = sys.resources ∧
    ((described sys handle objectType flags).acquireIgnored
      sys.files.table.nextOpenDescriptionId).reservations = sys.reservations :=
  acquireIgnored_tables _ _

theorem Sound.accounts_opened {cloexec} (sound : Sound ⟨sys, handle :: pending⟩)
  (kind : objectType ≠ .sharedMemory) :
  Accounts (aliased (described sys handle objectType flags) pid
    ⟨fd, sys.files.table.nextOpenDescriptionId, cloexec⟩ hint).files
    (aliased (described sys handle objectType flags) pid
      ⟨fd, sys.files.table.nextOpenDescriptionId, cloexec⟩ hint).fdNames
    (aliased (described sys handle objectType flags) pid
      ⟨fd, sys.files.table.nextOpenDescriptionId, cloexec⟩ hint).objectNames pending := by
  have shaped := sound.wellFormed.shaped
  obtain ⟨res, resvs⟩ := described_tables sys handle objectType flags
  have pids : (((described sys handle objectType flags).acquireIgnored
    sys.files.table.nextOpenDescriptionId).resources.map (·.pid)).Nodup := by
    rw [res]
    exact sound.wellFormed.pids
  have names := names_addEntry pids pid ⟨fd, sys.files.table.nextOpenDescriptionId, cloexec⟩ hint
  rw [fdNames_congr res resvs, objectNames_congr res resvs] at names
  refine Accounts.names ?_ names.1 names.2
  change Accounts ((described sys handle objectType flags).acquireIgnored
    sys.files.table.nextOpenDescriptionId).files _ _ _
  rw [described_acquired shaped]
  refine sound.accounts.addDescription (descriptions_created shaped) ?_ sound.accounts.sharedBound
  exact sound.accounts.books.openFd kind (fresh_account shaped)

theorem names_listed (pids : (sys.resources.map (·.pid)).Nodup) (pid handle objectType) :
  sys.fdNames.Perm (listed sys pid handle objectType).fdNames ∧
    (sys.files.table.nextOpenDescriptionId :: sys.objectNames).Perm
      (listed sys pid handle objectType).objectNames := by
  obtain ⟨resources, resvs⟩ := described_tables sys handle objectType 0
  have same : (((described sys handle objectType 0).acquireIgnored
    sys.files.table.nextOpenDescriptionId).resources.map (·.pid)).Nodup := by
    rw [resources]
    exact pids
  have names := names_addObject same pid sys.files.table.nextOpenDescriptionId
  rw [fdNames_congr resources resvs, objectNames_congr resources resvs] at names
  exact names

variable (sound : Sound ⟨sys, handle :: pending⟩) {next size : Nat} {base : System}
include sound
/-- A new object takes its place in the list of a process. -/
theorem Sound.accounts_listed {shared} (hbase : base = { sys with
    files := { sys.files with sharedMemory := shared, nextSharedMemoryId := next } })
  (books : Books (⟨sys.files.table.nextOpenDescriptionId, handle, objectType, 1⟩ ::
    sys.files.table.descriptions.map (·.account)) sys.files.compat.handles shared
    sys.fdNames (sys.files.table.nextOpenDescriptionId :: sys.objectNames) pending)
  (bound : ∀ record ∈ shared, record.id < next) :
  Accounts (listed base pid handle objectType).files (listed base pid handle objectType).fdNames
    (listed base pid handle objectType).objectNames pending := by
  have res : base.resources = sys.resources := by rw [hbase]
  have resvs : base.reservations = sys.reservations := by rw [hbase]
  have htable : base.files.table = sys.files.table := by rw [hbase]
  have shaped : Shaped base.files (handle :: pending) := by
    rw [hbase]
    exact sound.wellFormed.shaped.setShared shared next
  have pids : (base.resources.map (·.pid)).Nodup := by
    rw [res]
    exact sound.wellFormed.pids
  have names := names_listed pids pid handle objectType
  rw [fdNames_congr res resvs, objectNames_congr res resvs, htable] at names
  have hlisted : (listed base pid handle objectType).files =
    { sys.files with
      table := (sys.files.createOpenDescription handle objectType 0).2.table.openDescriptionMut
        sys.files.table.nextOpenDescriptionId addReference
      sharedMemory := shared
      nextSharedMemoryId := next } := by
    refine (described_acquired shaped).trans ?_
    rw [hbase]
    rfl
  refine Accounts.names ?_ names.1 names.2
  rw [hlisted]
  exact sound.accounts.addDescription (descriptions_created sound.wellFormed.shaped) books bound

theorem Sound.accounts_registered : Accounts (listed sys pid handle .messageQueue).files
    (listed sys pid handle .messageQueue).fdNames
    (listed sys pid handle .messageQueue).objectNames pending := by
  refine sound.accounts_listed rfl ?_ sound.accounts.sharedBound
  exact sound.accounts.books.openObject (by decide) (by decide)
    (fresh_account sound.wellFormed.shaped)

theorem Sound.accounts_shared {files}
  (register : sys.files.registerSharedMemory handle size = some (id, files)) :
  Accounts (listed { sys with files := files } pid handle .sharedMemory).files
    (listed { sys with files := files } pid handle .sharedMemory).fdNames
    (listed { sys with files := files } pid handle .sharedMemory).objectNames pending := by
  obtain ⟨rfl, -, rfl⟩ := registerSharedMemory_some register
  refine sound.accounts_listed rfl ?_ ?_
  · refine sound.accounts.books.openShared (fresh_account sound.wellFormed.shaped) ?_
      rfl rfl
    intro hmem
    obtain ⟨rec, hrec, same⟩ := mem_map.mp hmem
    have bound := sound.accounts.sharedBound rec hrec
    exact absurd same (Nat.ne_of_lt bound)
  · intro rec hrec
    rcases mem_append.mp hrec with hold | hnew
    · exact Nat.lt_succ_of_lt (sound.accounts.sharedBound rec hold)
    · rw [mem_singleton.mp hnew]
      exact Nat.lt_succ_self _

end

theorem Sound.accounts_closed (sound : Sound ⟨sys, pending⟩) :
  Accounts (closeLinuxFd sys pid fd).2.files (closeLinuxFd sys pid fd).2.fdNames
    (closeLinuxFd sys pid fd).2.objectNames pending := by
  cases hget : sys.getFd pid fd with
  | none =>
    rw [closeFd_of_none hget]
    exact sound.accounts
  | some rec =>
    obtain ⟨res, entry, hres, hentry, -, close⟩ := closeFd_of_getFd hget
    have nums := sound.numbers res (processResources_some hres).1
    obtain ⟨hfds, objs⟩ := names_withoutEntry sound.wellFormed.pids hres nums hentry
    rw [close]
    exact (sound.accounts.names hfds objs).releaseAndClose sound.wellFormed.shaped.indexed

/-- The names of a process that goes, and the others. -/
theorem names_without (pids : (sys.resources.map (·.pid)).Nodup)
  (hres : sys.processResources pid = some resources) (files) :
  sys.fdNames.Perm (resources.fdNames ++ ({ sys with
          files := files
          resources := without (·.pid) pid sys.resources } : System).fdNames) ∧
    sys.objectNames.Perm (resources.objects ++ ({ sys with
          files := files
          resources := without (·.pid) pid sys.resources } : System).objectNames) := by
  obtain ⟨hmem, rfl⟩ := processResources_some hres
  obtain ⟨others, perm, -, hwithout⟩ := perm_around pids hmem
  have hall := perm.trans (hwithout.symm.cons resources)
  have parts : ∀ (part : LinuxProcessResources → List Nat) (rest : List Nat),
    (sys.resources.flatMap part ++ rest).Perm (part resources ++
      ((without (·.pid) resources.pid sys.resources).flatMap part ++ rest)) :=
    fun part rest => by
      have hsome := (hall.flatMap_right part).append_right rest
      rw [flatMap_cons, append_assoc] at hsome
      exact hsome
  exact ⟨parts _ _, parts _ _⟩

theorem Sound.accounts_exited (sound : Sound ⟨sys, pending⟩) :
  Accounts (releaseLinuxProcessResources sys pid).files
    (releaseLinuxProcessResources sys pid).fdNames
    (releaseLinuxProcessResources sys pid).objectNames pending := by
  unfold releaseLinuxProcessResources
  cases hres : sys.processResources pid with
  | none => exact sound.accounts
  | some res =>
    obtain ⟨hfds, objs⟩ := names_without sound.wellFormed.pids hres
      ((sys.files.releaseResourceClone res.descriptors res.objects).2.closeHandles
        (sys.files.releaseResourceClone res.descriptors res.objects).1)
    exact .releaseResourceClone sound.wellFormed.shaped (sound.accounts.names hfds objs)

theorem handles_adjust {files : List LinuxFxfsFileRecord}
  {change : LinuxFxfsFileRecord → LinuxFxfsFileRecord}
  (same : ∀ file, (change file).handle = file.handle) :
  (adjust (·.handle) handle change files).map (·.handle) ⊆ files.map (·.handle) := by
  rw [map_adjust same]
  exact refl _

/-- Binding a file to a handle that has a description. -/
theorem Sound.accounts_bound {path : Path} {cursor : FxfsCursor} (sound : Sound ⟨sys, pending⟩)
  (live : (∃ desc ∈ sys.files.table.descriptions,
    desc.handle = handle ∧ desc.objectType = .linuxFile) ∨
    ∃ cached ∈ sys.files.shmCachedHandles, cached.handle = handle) :
  Accounts (sys.files.bindLinuxFxfsFile handle path cursor) sys.fdNames sys.objectNames
    pending := by
  have owner : ∃ desc ∈ sys.files.table.descriptions,
    desc.handle = handle ∧ desc.objectType = .linuxFile := by
    rcases live with hsome | ⟨cached, hcached, rfl⟩
    · exact hsome
    · obtain ⟨desc, hmem, hhandle, -, kind⟩ := sound.accounts.cached cached hcached
      exact ⟨desc, hmem, hhandle, kind⟩
  unfold OpenFiles.bindLinuxFxfsFile
  split
  · exact sound.accounts.congr rfl rfl rfl rfl (handles_adjust fun _ => rfl) (refl _)
  refine { sound.accounts with owned := fun file hfile => ?_ }
  rcases mem_append.mp hfile with hold | hnew
  · exact sound.accounts.owned file hold
  · rw [mem_singleton.mp hnew]
    exact owner

theorem account_openDescMut {table : LinuxOpenDescriptions}
  {change : LinuxOpenDescription → LinuxOpenDescription} (indexed : table.Indexed)
  (same : ∀ desc, (change desc).account = desc.account) :
  (table.openDescriptionMut id change).descriptions.map (·.account) =
    table.descriptions.map (·.account) := by
  rw [openDescMut_eq indexed]
  exact map_adjust same

theorem Effect.accounts (effect : Effect above before after) (sound : Sound before) :
  Accounts after.system.files after.system.fdNames after.system.objectNames after.pending := by
  have accounts := sound.accounts
  have indexed := sound.wellFormed.shaped.indexed
  cases effect with
  | store fxfs => exact accounts.congr rfl rfl rfl rfl (refl _) (refl _)
  | print serial => exact accounts
  | queues handles next => exact accounts.congr rfl handles rfl rfl (refl _) (refl _)
  | flags id flags
  | offset id offset =>
    refine accounts.congr ?_ rfl rfl rfl (refl _) (refl _)
    exact account_openDescMut indexed fun _ => rfl
  | uncache path => exact accounts.congr rfl rfl rfl rfl (refl _) filter_sublist.subset
  | seek handle cursor =>
    exact accounts.congr rfl rfl rfl rfl (handles_adjust fun _ => rfl) (refl _)
  | attributes pid samePid sameFds sameObjects =>
    obtain ⟨fds, objs⟩ := names_same sound.wellFormed.pids (fun res => by
      have both := congrArg (map Prod.snd) (sameFds res)
      rwa [map_map, map_map] at both) sameObjects
    exact accounts.names fds objs
  | duplicated pid free live => exact sound.accounts_duplicated live
  | reordered perm => exact accounts.pendingPerm perm
  | created last next handles =>
    refine { accounts with books := ?_ }
    rw [handles]
    refine accounts.books.createObject fun hmem => ?_
    exact absurd (sound.wellFormed.shaped.live _ hmem) (Nat.lt_irrefl _)
  | skipped last next handles => exact accounts.congr rfl handles rfl rfl (refl _) (refl _)
  | abandoned =>
    refine { accounts with books := ?_ }
    rw [CompatObjectTable.handles_close]
    exact accounts.books.closeObject
  | opened pid kind free => exact sound.accounts_opened kind
  | registered pid => exact sound.accounts_registered
  | shared pid regs => exact sound.accounts_shared regs
  | closed pid fd => exact sound.accounts_closed
  | exited pid => exact sound.accounts_exited
  | bound live => exact sound.accounts_bound live
  | cached live =>
    obtain ⟨desc, hmem, hhandle, hid, hkind⟩ := live
    refine { accounts with cached := fun cached hcached => ?_ }
    rcases mem_append.mp hcached with hold | hnew
    · exact accounts.cached cached (mem_filter.mp hold).1
    · rw [mem_singleton.mp hnew]
      exact ⟨desc, hmem, hhandle, hid, hkind⟩

/-- A new entry under a free number. -/
theorem numbers_addEntry (pids : (sys.resources.map (·.pid)).Nodup)
  (numbers : ∀ resources ∈ sys.resources, (resources.descriptors.map (·.fd)).Nodup)
  (free : entry.fd ∉ sys.usedFds pid) :
  ∀ resources ∈ (sys.addEntry pid entry hint).resources,
    (resources.descriptors.map (·.fd)).Nodup := by
  refine resources_mut pids numbers nodup_nil fun resources hres nodup => ?_
  have hnew : entry.fd ∉ resources.descriptors.map (·.fd) := by
    unfold usedFds at free
    cases find : sys.processResources pid with
    | none =>
      rw [find] at hres
      rw [← hres]
      exact not_mem_nil
    | some found =>
      rw [find] at hres free
      rw [← hres]
      exact free
  rw [map_append, map_singleton, nodup_append_comm, singleton_append]
  exact nodup_cons.mpr ⟨hnew, nodup⟩

theorem numbers_aliased (pids : (sys.resources.map (·.pid)).Nodup)
  (nums : ∀ resources ∈ sys.resources, (resources.descriptors.map (·.fd)).Nodup)
  (free : entry.fd ∉ sys.usedFds pid) :
  ∀ resources ∈ (aliased sys pid entry hint).resources,
    (resources.descriptors.map (·.fd)).Nodup := by
  obtain ⟨hres, -⟩ := acquireIgnored_tables sys entry.descriptionId
  refine numbers_addEntry ?_ ?_ ?_
  · rw [hres]
    exact pids
  · rw [hres]
    exact nums
  · rw [usedFds_congr hres]
    exact free

theorem numbers_listed {objectType : ObjectType} (pids : (sys.resources.map (·.pid)).Nodup)
  (numbers : ∀ resources ∈ sys.resources, (resources.descriptors.map (·.fd)).Nodup) :
  ∀ resources ∈ (listed sys pid handle objectType).resources,
    (resources.descriptors.map (·.fd)).Nodup := by
  obtain ⟨hres, -⟩ := described_tables sys handle objectType 0
  refine resources_mut ?_ ?_ nodup_nil fun _ _ nodup => nodup
  · rw [hres]
    exact pids
  · rw [hres]
    exact numbers

section
variable (effect : Effect above before after)
include effect
theorem Effect.numbers (sound : Sound before) :
  ∀ resources ∈ after.system.resources, (resources.descriptors.map (·.fd)).Nodup := by
  have numbers := sound.numbers
  have pids := sound.wellFormed.pids
  cases effect with
  | store | print | queues | flags | uncache | created | skipped | abandoned | reordered | bound
  | cached | seek | offset => exact numbers
  | attributes pid samePid sameFds sameObjects =>
    refine resources_mut pids numbers nodup_nil fun resources _ nodup => ?_
    have both := congrArg (map Prod.fst) (sameFds resources)
    rw [map_map, map_map] at both
    exact both ▸ nodup
  | duplicated pid free live => exact numbers_aliased pids numbers (sound.free free)
  | opened pid kind free => exact numbers_aliased pids numbers free
  | registered pid => exact numbers_listed pids numbers
  | shared pid regs => exact numbers_listed pids numbers
  | @closed sys pend pid fd =>
    cases hget : sys.getFd pid fd with
    | none =>
      rw [closeFd_of_none hget]
      exact numbers
    | some rec =>
      obtain ⟨resources, entry, -, -, -, close⟩ := closeFd_of_getFd hget
      rw [close]
      dsimp only [withoutEntry]
      refine resources_mut pids numbers nodup_nil fun _ _ nodup => ?_
      exact nodup.sublist (filter_sublist.map _)
  | @exited sys pend pid =>
    unfold releaseLinuxProcessResources
    cases sys.processResources pid with
    | none => exact numbers
    | some found => exact fun resources hmem => numbers resources (mem_without.mp hmem).1

theorem Effect.reservations : after.system.reservations = before.system.reservations := by
  cases effect with
  | store | print | queues | flags | uncache | attributes | created | skipped | abandoned
  | reordered | bound | cached | seek | offset => rfl
  | duplicated => exact (acquireIgnored_tables _ _).2
  | opened => exact (acquireIgnored_tables _ _).2
  | registered => exact (acquireIgnored_tables _ _).2
  | shared => exact (acquireIgnored_tables _ _).2
  | @closed sys pending pid fd =>
    cases hget : sys.getFd pid fd with
    | none => rw [closeFd_of_none hget]
    | some rec =>
      obtain ⟨resources, entry, -, -, -, close⟩ := closeFd_of_getFd hget
      rw [close]
      rfl
  | @exited sys pending pid =>
    unfold releaseLinuxProcessResources
    cases sys.processResources pid with
    | none => rfl
    | some found => rfl

theorem Effect.sound (sound : Sound before) : Sound after where
  wellFormed := effect.wellFormed sound.wellFormed
  accounts := effect.accounts sound
  numbers := effect.numbers sound
  reserved := by
    rw [effect.reservations]
    exact sound.reserved

end

theorem Chain.sound (chain : Chain above before after) (sound : Sound before) : Sound after := by
  induction chain with
  | refl => exact sound
  | tail _ hstep ih =>
    exact hstep.sound ih

end Smros.Files
