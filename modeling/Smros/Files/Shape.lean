import Smros.Files.Clones

/-!
# The shape of the tables

What holds in every state that calls lead to, rolled back forks included: the
index is exact, handles and identifiers occur once and lie below the counters.
Inside a call an object may be there that has no description yet; `pending`
lists the handles of such objects.  Every description is made for a handle of
its own, so the identifiers run out after the handles and never start again.
-/

namespace Smros.Files
open Lib LinuxOpenDescriptions List Counted Nat

structure Shaped (files : OpenFiles) (pending : List Nat) : Prop where
  indexed : files.table.Indexed
  ids : ∀ description ∈ files.table.descriptions, description.id < files.table.nextOpenDescriptionId
  handles : (files.table.descriptions.map (·.handle)).Nodup
  described : ∀ description ∈ files.table.descriptions, description.handle < files.compat.nextHandle
  room : files.table.nextOpenDescriptionId + compatHandleStart + pending.length ≤
    files.compat.nextHandle + 1
  waiting : pending.Nodup
  undescribed : ∀ handle ∈ pending, handle < files.compat.nextHandle ∧
    handle ∉ files.table.descriptions.map (·.handle) ∧ handle ∉ files.fxfsFiles.map (·.handle)
  limit : files.compat.nextHandle ≤ invalidHandle
  objects : files.compat.handles.Nodup
  live : ∀ handle ∈ files.compat.handles, handle < files.compat.nextHandle
  fileHandles : (files.fxfsFiles.map (·.handle)).Nodup
  fileBound : ∀ file ∈ files.fxfsFiles, file.handle < files.compat.nextHandle
  cachedBound : ∀ cached ∈ files.shmCachedHandles, cached.handle < files.compat.nextHandle

namespace Shaped
variable {files : OpenFiles} {pending : List Nat} {handle id flags : Nat}
theorem start (fxfs) : Shaped (System.start fxfs).files [] where
  indexed := fun name idx => by simp [System.start, empty]
  ids := fun _ hmem => by cases hmem
  handles := nodup_nil
  described := fun _ hmem => by cases hmem
  room := by
    change 1 + compatHandleStart + 0 ≤ compatHandleStart + 1
    decide
  waiting := nodup_nil
  undescribed := fun _ hmem => by cases hmem
  limit := by
    change compatHandleStart ≤ invalidHandle
    decide
  objects := nodup_nil
  live := fun _ hmem => by cases hmem
  fileHandles := nodup_nil
  fileBound := fun _ hmem => by cases hmem
  cachedBound := fun _ hmem => by cases hmem

variable {compat : CompatObjectTable} (shaped : Shaped files pending)
section
variable {changed acquired : OpenFiles}
include shaped
/-- Fewer or changed records under the names there were. -/
theorem shrink (hindexed : changed.table.Indexed)
  (hids : changed.table.nextOpenDescriptionId = files.table.nextOpenDescriptionId)
  (descriptions : (changed.table.descriptions.map (·.handle)).Nodup)
  (hold : ∀ desc ∈ changed.table.descriptions, ∃ old ∈ files.table.descriptions,
    old.id = desc.id ∧ old.handle = desc.handle)
  (hnext : changed.compat.nextHandle = files.compat.nextHandle)
  (hobjs : changed.compat.handles.Sublist files.compat.handles)
  (hfiles : (changed.fxfsFiles.map (·.handle)).Sublist (files.fxfsFiles.map (·.handle)))
  (hcached : ∀ cached ∈ changed.shmCachedHandles,
    ∃ old ∈ files.shmCachedHandles, old.handle = cached.handle) :
  Shaped changed pending where
  indexed := hindexed
  ids desc hmem := by
    obtain ⟨old, memOld, hid, -⟩ := hold desc hmem
    rw [hids, ← hid]
    exact shaped.ids old memOld
  handles := descriptions
  described desc hmem := by
    obtain ⟨old, memOld, -, hhandle⟩ := hold desc hmem
    rw [hnext, ← hhandle]
    exact shaped.described old memOld
  room := by
    rw [hids, hnext]
    exact shaped.room
  waiting := shaped.waiting
  undescribed handle hmem := by
    obtain ⟨hlt, hundescribed, nofile⟩ := shaped.undescribed handle hmem
    refine ⟨lt_of_lt_of_eq hlt hnext.symm, fun hdescribed => ?_, fun hfile =>
      nofile (hfiles.subset hfile)⟩
    obtain ⟨desc, hdesc, rfl⟩ := mem_map.mp hdescribed
    obtain ⟨old, memOld, -, hhandle⟩ := hold desc hdesc
    exact hundescribed (hhandle ▸ mem_map_of_mem memOld)
  limit := by
    rw [hnext]
    exact shaped.limit
  objects := shaped.objects.sublist hobjs
  live handle hmem := by
    rw [hnext]
    exact shaped.live handle (hobjs.subset hmem)
  fileHandles := shaped.fileHandles.sublist hfiles
  fileBound file hfile := by
    obtain ⟨old, memOld, hhandle⟩ := mem_map.mp (hfiles.subset (mem_map_of_mem hfile))
    rw [hnext, ← hhandle]
    exact shaped.fileBound old memOld
  cachedBound cached hmem := by
    obtain ⟨old, memOld, hhandle⟩ := hcached cached hmem
    rw [hnext, ← hhandle]
    exact shaped.cachedBound old memOld

/-- Another table of descriptions, with the same or fewer names. -/
theorem setTable {table} (indexed : table.Indexed)
  (hids : table.nextOpenDescriptionId = files.table.nextOpenDescriptionId)
  (descriptions : (table.descriptions.map (·.handle)).Nodup)
  (hold : ∀ desc ∈ table.descriptions, ∃ old ∈ files.table.descriptions,
    old.id = desc.id ∧ old.handle = desc.handle) :
  Shaped { files with table := table } pending :=
  shaped.shrink indexed hids descriptions hold rfl (Sublist.refl _) (Sublist.refl _)
    fun cached hmem => ⟨cached, hmem, rfl⟩

/-- A description changes, but not what names it. -/
theorem openDescriptionMut {change} (hid : ∀ desc, (change desc).id = desc.id)
  (handle : ∀ desc, (change desc).handle = desc.handle) :
  Shaped { files with table := files.table.openDescriptionMut id change } pending := by
  have indexed : (files.table.openDescriptionMut id change).Indexed :=
    openDescMut_indexed shaped.indexed hid
  rw [openDescMut_eq shaped.indexed] at indexed ⊢
  refine shaped.setTable indexed rfl ?_ fun desc hmem => ?_
  · rw [map_adjust handle]
    exact shaped.handles
  obtain ⟨old, memOld, rfl⟩ := mem_adjust.mp hmem
  refine ⟨old, memOld, ?_⟩
  split
  · exact ⟨(hid old).symm, (handle old).symm⟩
  · exact ⟨rfl, rfl⟩

theorem acquire (hacquire : files.acquireOpenDescription id = some acquired) :
  Shaped acquired pending := by
  obtain ⟨table, htable, rfl⟩ := Option.map_eq_some_iff.mp hacquire
  obtain ⟨_, -, rfl⟩ := Option.map_eq_some_iff.mp htable
  exact shaped.openDescriptionMut (fun _ => rfl) fun _ => rfl

/-- Dropping a reference, the last one or not. -/
theorem releaseTable (id) :
  Shaped { files with table := (files.table.releaseOpenDescription id).2 } pending := by
  cases find : files.table.find id with
  | none =>
    have same : files.table.releaseOpenDescription id = (none, files.table) := by
      unfold releaseOpenDescription
      rw [find]
    rw [same]
    exact shaped
  | some place =>
    obtain ⟨idx, desc⟩ := place
    obtain ⟨hdesc, rfl⟩ := find_some find
    have hmem := mem_of_getElem? hdesc
    rcases lt_trichotomy desc.references 1 with zero | hone | more
    · have same : files.table.releaseOpenDescription desc.id = (none, files.table) := by
        unfold releaseOpenDescription
        rw [find]
        simp only
        rw [if_pos (by omega)]
      rw [same]
      exact shaped
    · obtain ⟨rest, release, indexed, hnext, perm⟩ := releaseDesc_last shaped.indexed hmem hone
      rw [release]
      refine shaped.setTable indexed hnext ?_ fun other hother => ?_
      · refine (perm.map _).nodup_iff.mpr (shaped.handles.sublist ?_)
        exact filter_sublist.map _
      · exact ⟨other, (mem_without.mp (perm.mem_iff.mp hother)).1, rfl, rfl⟩
    · rw [releaseDesc_more shaped.indexed hmem more]
      exact shaped.openDescriptionMut (fun _ => rfl) fun _ => rfl

theorem release (id) : Shaped (files.releaseOpenDescription id).2 pending := shaped.releaseTable id

/-! ## New objects and descriptions -/

theorem next_ne : files.compat.nextHandle ∉ files.table.descriptions.map (·.handle) ∧
    files.compat.nextHandle ∉ files.fxfsFiles.map (·.handle) := by
  constructor
  · intro hmem
    obtain ⟨desc, hdesc, handle⟩ := mem_map.mp hmem
    exact absurd (shaped.described desc hdesc) (by omega)
  · intro hmem
    obtain ⟨file, hfile, handle⟩ := mem_map.mp hmem
    exact absurd (shaped.fileBound file hfile) (by omega)

variable (last : files.compat.nextHandle ≠ invalidHandle)
  (hnext : compat.nextHandle = files.compat.nextHandle + 1)
include last hnext
/-- The next handle is given, to wait or to live or to be lost. -/
theorem giveHandle {waiting} (hwaiting : waiting.Nodup)
  (length : waiting.length ≤ pending.length + 1)
  (waits : ∀ handle ∈ waiting, handle = files.compat.nextHandle ∨ handle ∈ pending)
  (hobjs : compat.handles.Nodup)
  (lives : ∀ handle ∈ compat.handles,
    handle = files.compat.nextHandle ∨ handle ∈ files.compat.handles) :
  Shaped { files with compat := compat } waiting := by
  have hlimit := shaped.limit
  have hroom := shaped.room
  have later : ∀ {other : Nat}, other < files.compat.nextHandle → other < compat.nextHandle :=
    fun hlt => by omega
  have spare : files.table.nextOpenDescriptionId + compatHandleStart + waiting.length ≤
    compat.nextHandle + 1 := by omega
  have below : compat.nextHandle ≤ invalidHandle := by omega
  have hself : files.compat.nextHandle < compat.nextHandle := by omega
  exact
    { indexed := shaped.indexed
      ids := shaped.ids
      handles := shaped.handles
      described := fun desc hmem => later (shaped.described desc hmem)
      room := spare
      waiting := hwaiting
      undescribed := fun handle hmem => by
        rcases waits handle hmem with rfl | hold
        · exact ⟨hself, shaped.next_ne⟩
        · obtain ⟨hlt, rest⟩ := shaped.undescribed handle hold
          exact ⟨later hlt, rest⟩
      limit := below
      objects := hobjs
      live := fun other hother => by
        rcases lives other hother with rfl | hold
        · exact hself
        · exact later (shaped.live other hold)
      fileHandles := shaped.fileHandles
      fileBound := fun file hmem => later (shaped.fileBound file hmem)
      cachedBound := fun cached hmem => later (shaped.cachedBound cached hmem) }

/-- A new object takes a handle that nothing has. -/
theorem createObject (hhandles : compat.handles = files.compat.handles ++ [files.compat.nextHandle])
  : Shaped { files with compat := compat } (files.compat.nextHandle :: pending) := by
  have unused : files.compat.nextHandle ∉ pending := fun hmem =>
    lt_irrefl _ (shaped.undescribed _ hmem).1
  have hperm := hhandles ▸ perm_append_singleton files.compat.nextHandle files.compat.handles
  have fresh : files.compat.nextHandle ∉ files.compat.handles := fun hmem =>
    lt_irrefl _ (shaped.live _ hmem)
  exact shaped.giveHandle last hnext (nodup_cons.mpr ⟨unused, shaped.waiting⟩) le_rfl
    (fun _ => mem_cons.mp) (hperm.nodup_iff.mpr (nodup_cons.mpr ⟨fresh, shaped.objects⟩))
    fun _ hmem => mem_cons.mp (hperm.mem_iff.mp hmem)

/-- A handle is given and lost again. -/
theorem skipHandle (handles : compat.handles = files.compat.handles) :
  Shaped { files with compat := compat } pending :=
  shaped.giveHandle last hnext shaped.waiting (Nat.le_succ _) (fun _ => .inr)
    (handles ▸ shaped.objects) fun _ hmem => .inr (handles ▸ hmem)

end

theorem next_lt (shaped : Shaped files (handle :: pending)) :
  files.table.nextOpenDescriptionId + 1 < 2 ^ 32 := by
  have room := shaped.room
  have limit := shaped.limit
  rw [length_cons] at room
  unfold compatHandleStart at room
  unfold invalidHandle at limit
  omega

theorem fresh_id (shaped : Shaped files pending) :
  files.table.nextOpenDescriptionId ∉ files.table.descriptions.map (·.id) := by
  intro hmem
  obtain ⟨desc, hdesc, hid⟩ := mem_map.mp hmem
  exact absurd (shaped.ids desc hdesc) (by omega)

/-- The description that is created for a handle. -/
def created (files : OpenFiles) (handle : Nat) (objectType : ObjectType) (statusFlags : Nat) :
  LinuxOpenDescription :=
  ⟨files.table.nextOpenDescriptionId, handle, objectType, statusFlags, 0, 0⟩

/-- A pending handle gets its description. -/
theorem describe {objectType} (shaped : Shaped files (handle :: pending)) :
  Shaped (files.createOpenDescription handle objectType flags).2 pending := by
  obtain ⟨bound, fresh, -⟩ := shaped.undescribed handle (mem_cons_self ..)
  have hnext : followingId files.table.nextOpenDescriptionId =
    files.table.nextOpenDescriptionId + 1 := if_pos shaped.next_lt
  have spare : followingId files.table.nextOpenDescriptionId + compatHandleStart +
    pending.length ≤ files.compat.nextHandle + 1 := by
    have hroom := shaped.room
    rw [length_cons] at hroom
    omega
  have hids : ∀ {id : Nat}, id ≤ files.table.nextOpenDescriptionId →
    id < followingId files.table.nextOpenDescriptionId := fun hle => by omega
  have hall : ∀ {property : LinuxOpenDescription → Prop},
    (∀ desc ∈ files.table.descriptions, property desc) →
    property (created files handle objectType flags) →
    ∀ desc ∈ files.table.descriptions ++ [created files handle objectType flags],
      property desc := by
    intro property hold hnew desc hdesc
    rcases mem_append.mp hdesc with front | back
    · exact hold desc front
    · rw [mem_singleton.mp back]
      exact hnew
  exact
    { indexed := createDesc_indexed shaped.indexed shaped.fresh_id
      ids := by
        refine hall (fun desc hdesc => ?_) (hids (le_refl _))
        exact hids (le_of_lt (shaped.ids desc hdesc))
      handles := by
        change ((files.table.descriptions ++ [created files handle objectType flags]).map _).Nodup
        rw [map_append, map_singleton, nodup_append_comm, singleton_append]
        exact nodup_cons.mpr ⟨fresh, shaped.handles⟩
      described := hall shaped.described bound
      room := spare
      waiting := (nodup_cons.mp shaped.waiting).2
      undescribed := fun other hother => by
        obtain ⟨hlt, hundescribed, nofile⟩ := shaped.undescribed other (mem_cons_of_mem _ hother)
        refine ⟨hlt, fun hmem => ?_, nofile⟩
        change other ∈ (files.table.descriptions ++
          [created files handle objectType flags]).map _ at hmem
        rw [map_append, mem_append, map_singleton, mem_singleton] at hmem
        rcases hmem with hold | same
        · exact hundescribed hold
        · have hhandle : other = handle := same
          exact (nodup_cons.mp shaped.waiting).1 (hhandle ▸ hother)
      limit := shaped.limit
      objects := shaped.objects
      live := shaped.live
      fileHandles := shaped.fileHandles
      fileBound := shaped.fileBound
      cachedBound := shaped.cachedBound }

/-- A pending object is given up. -/
theorem reorder {other} (shaped : Shaped files pending) (perm : pending.Perm other) :
  Shaped files other :=
  { shaped with
    room := perm.length_eq ▸ shaped.room
    waiting := perm.nodup_iff.mp shaped.waiting
    undescribed := fun handle hhandle => shaped.undescribed handle (perm.mem_iff.mpr hhandle) }

theorem giveUp (shaped : Shaped files (handle :: pending)) : Shaped files pending :=
  { shaped with
    room := by
      have hroom := shaped.room
      rw [length_cons] at hroom
      omega
    waiting := (nodup_cons.mp shaped.waiting).2
    undescribed := fun other hother => shaped.undescribed other (mem_cons_of_mem _ hother) }

/-! ## Objects, files and the cache -/

include shaped
/-- The bytes and properties of objects do not matter, and objects may go. -/
theorem setCompat (handles : compat.handles.Sublist files.compat.handles)
  (hnext : compat.nextHandle = files.compat.nextHandle) :
  Shaped { files with compat := compat } pending :=
  shaped.shrink shaped.indexed rfl shaped.handles
    (fun desc hmem => ⟨desc, hmem, rfl, rfl⟩) hnext handles (Sublist.refl _)
    fun cached hmem => ⟨cached, hmem, rfl⟩

theorem closeObject (handle) :
  Shaped { files with compat := files.compat.close handle } pending := by
  refine shaped.setCompat ?_ CompatObjectTable.nextHandle_close
  rw [CompatObjectTable.handles_close]
  exact filter_sublist

theorem sysHandleClose (handle) : Shaped (files.sysHandleClose handle) pending := by
  unfold OpenFiles.sysHandleClose
  split
  · exact { shaped.closeObject handle with }
  · exact shaped

theorem closeHandles (handles) : Shaped (files.closeHandles handles) pending := by
  unfold OpenFiles.closeHandles
  induction handles generalizing files with
  | nil => exact shaped
  | cons handle rest ih => exact ih (shaped.sysHandleClose handle)

/-- Other files under the handles there were. -/
theorem setFxfsFiles {fxfsFiles}
  (same : (fxfsFiles.map (·.handle)).Sublist (files.fxfsFiles.map (·.handle))) :
  Shaped { files with fxfsFiles := fxfsFiles } pending :=
  shaped.shrink shaped.indexed rfl shaped.handles
    (fun desc hmem => ⟨desc, hmem, rfl, rfl⟩) rfl (Sublist.refl _) same
    fun cached hmem => ⟨cached, hmem, rfl⟩

theorem setCached {shmCachedHandles}
  (fewer : ∀ cached ∈ shmCachedHandles, cached.handle < files.compat.nextHandle) :
  Shaped { files with shmCachedHandles := shmCachedHandles } pending :=
  { shaped with cachedBound := fewer }

theorem adjustFile {change} (same : ∀ file, (change file).handle = file.handle) : Shaped
    { files with
      fxfsFiles := adjust (·.handle) handle change files.fxfsFiles } pending := by
  refine shaped.setFxfsFiles ?_
  rw [map_adjust same]

variable {cursor : FxfsCursor} {descriptionId : Nat}
theorem setCursor : Shaped (files.setCursor handle cursor) pending := shaped.adjustFile fun _ => rfl

variable {path : Path}
theorem bind (bound : handle < files.compat.nextHandle) (hnone : handle ∉ pending) :
  Shaped (files.bindLinuxFxfsFile handle path cursor) pending := by
  unfold OpenFiles.bindLinuxFxfsFile OpenFiles.linuxFxfsFile
  split
  · exact shaped.adjustFile fun _ => rfl
  rename_i unbound
  have hnew : handle ∉ files.fxfsFiles.map (·.handle) := by
    intro hmem
    obtain ⟨file, hfile, hhandle⟩ := mem_map.mp hmem
    refine unbound (find?_isSome.mpr ⟨file, hfile, ?_⟩)
    exact decide_eq_true hhandle
  exact { shaped with
    undescribed := fun other hother => by
      obtain ⟨hlt, hundescribed, nofile⟩ := shaped.undescribed other hother
      refine ⟨hlt, hundescribed, fun hmem => ?_⟩
      rw [map_append, mem_append, map_singleton, mem_singleton] at hmem
      rcases hmem with hold | same
      · exact nofile hold
      · have hhandle : other = handle := same
        exact hnone (hhandle ▸ hother)
    fileHandles := by
      rw [map_append, map_singleton, nodup_append_comm, singleton_append]
      exact nodup_cons.mpr ⟨hnew, shaped.fileHandles⟩
    fileBound := fun file hfile => by
      rcases mem_append.mp hfile with hold | last
      · exact shaped.fileBound file hold
      · rw [mem_singleton.mp last]
        exact bound }

theorem removeFile (handle) : Shaped (files.removeLinuxFxfsFile handle) pending := by
  have uncached : Shaped
    { files with
      shmCachedHandles := files.shmCachedHandles.filter (·.handle ≠ handle) } pending :=
    shaped.setCached fun cached hcached => shaped.cachedBound cached (mem_filter.mp hcached).1
  unfold OpenFiles.removeLinuxFxfsFile
  cases files.linuxFxfsFile handle with
  | none => exact uncached
  | some file =>
    have fewer : ((without (·.handle) handle files.fxfsFiles).map
      (·.handle)).Sublist (files.fxfsFiles.map (·.handle)) := filter_sublist.map _
    exact { uncached.setFxfsFiles fewer with }

theorem cache (bound : handle < files.compat.nextHandle) :
  Shaped (files.cacheLinuxShmHandle path handle descriptionId cursor) pending := by
  refine shaped.setCached fun cached hcached => ?_
  rcases mem_append.mp hcached with hold | hnew
  · exact shaped.cachedBound cached (mem_filter.mp hold).1
  · rw [mem_singleton.mp hnew]
    exact bound

end Shaped
end Smros.Files
