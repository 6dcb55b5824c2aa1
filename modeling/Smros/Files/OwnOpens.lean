import Smros.Files.References

/-!
# Descriptions of one's own

An open makes a description for itself, with the access that was asked for and
a cursor of its own, just where its path is not in the cache of `/dev/shm/`.
-/

namespace Smros.Files
open Lib Program LinuxOpenDescriptions List
open Files.System (start)

/-- What an open promises its caller and the other processes. -/
structure OwnOpen (before after : System) (pid fd : Nat) (path : Path) (flags : Nat)
  (record : LinuxFdRecord) : Prop where
  get : after.getFd pid fd = some record
  fresh : record.descriptionId ∉ before.files.table.descriptions.map (·.id)
  single : ∃ description, after.files.table.openDescription record.descriptionId =
    some description ∧ description.references = 1 ∧ description.offset = 0
  access : record.statusFlags &&& linuxOAccmode = flags &&& linuxOAccmode
  starts : ∀ file, after.files.linuxFxfsFile record.handle = some file →
    StartsAt after.files.fxfs file.cursor flags
  permitted : isShmPath path → before.files.fxfs.contains path →
    linuxShmCheckOpenPermissions before pid path (flags &&& linuxOAccmode) = none
  refuses : flags &&& linuxOAccmode = linuxORdonly → ∀ bytes offset socket memory,
    serve (.write pid fd bytes socket memory) after = .error (.errno .ebadf) after ∧
      serve (.pwrite pid fd bytes offset socket memory) after = .error (.errno .ebadf) after
  descriptions : ∀ id ∈ before.files.table.descriptions.map (·.id),
    after.files.table.openDescription id = before.files.table.openDescription id
  cursors : ∀ handle file, before.files.linuxFxfsFile handle = some file →
    after.files.linuxFxfsFile handle = some file

variable {before after sys : System} {pid dirfd fd flags mode handle id : Nat} {path : Path}
  {execPath : Option Path} {memory : Bool}
theorem openStatusFlags_access (flags) :
  openStatusFlags flags &&& linuxOAccmode = flags &&& linuxOAccmode := by
  have mask : (linuxOAccmode ||| linuxFcntlStatusAllowedFlags) &&& linuxOAccmode =
    linuxOAccmode := by decide
  unfold openStatusFlags
  rw [Nat.and_assoc, mask]

/-- An open that is not refused had its access checked. -/
theorem permitted_of_accepted (accepted : openRefused before pid dirfd path flags = none)
  (hshm : isShmPath path) (contains : before.files.fxfs.contains path) :
  linuxShmCheckOpenPermissions before pid path (flags &&& linuxOAccmode) = none := by
  by_contra denied
  have hsome : (linuxShmCheckOpenPermissions before pid path (flags &&& linuxOAccmode)).isSome :=
    Option.isSome_iff_ne_none.mpr denied
  unfold openRefused at accepted
  dsimp only at accepted
  split at accepted
  · cases accepted
  split at accepted
  · cases accepted
  split at accepted
  · rename_i error
    rw [accepted] at error
    cases error
  split at accepted
  · cases accepted
  split at accepted
  · exact denied accepted
  · rename_i permitted
    exact permitted ⟨hshm, .inr contains, hsome⟩

variable {record : LinuxFdRecord}
/-- A descriptor without write access takes no bytes. -/
theorem write_refused (hget : after.getFd pid fd = some record) (writable : record.writable = false)
  (num : compatFdStart ≤ fd) (bytes offset socket memory) :
  serve (.write pid fd bytes socket memory) after = .error (.errno .ebadf) after ∧
    serve (.pwrite pid fd bytes offset socket memory) after = .error (.errno .ebadf) after := by
  have stream : ¬ (fd = 1 ∨ fd = 2) := by
    unfold compatFdStart at num
    omega
  have hnone : (after.getFd pid fd).filter (·.writable) = none := by
    rw [hget, Option.filter_some, if_neg (by simp [writable])]
  constructor
  · change linuxFdWriteBytes pid fd bytes socket memory after = _
    unfold linuxFdWriteBytes
    rw [if_neg stream, get_bind_run, hnone]
    rfl
  · change sysPwrite pid fd bytes offset socket memory after = _
    unfold sysPwrite
    rw [get_bind_run, hnone]
    rfl

variable {files changed : OpenFiles} {added file : LinuxFxfsFileRecord}
theorem linuxFxfsFile_append (hfiles : changed.fxfsFiles = files.fxfsFiles ++ [added])
  (hfile : files.linuxFxfsFile handle = some file) : changed.linuxFxfsFile handle = some file := by
  unfold OpenFiles.linuxFxfsFile at hfile ⊢
  rw [hfiles, find?_append, hfile]
  rfl

/-- A new handle has no file yet. -/
theorem linuxFxfsFile_new {pend} (shaped : Shaped before.files pend) :
  before.files.linuxFxfsFile before.files.compat.nextHandle = none :=
  find?_eq_none.mpr fun file hfile => by
    have bound := shaped.fileBound file hfile
    simpa using Nat.ne_of_lt bound

theorem OpenedFile.starts (shaped : Shaped before.files [])
  (opened : OpenedFile before after pid fd path flags)
  (hfile : after.files.linuxFxfsFile before.files.compat.nextHandle = some file) :
  StartsAt after.files.fxfs file.cursor flags := by
  have hnone := linuxFxfsFile_new shaped
  unfold OpenFiles.linuxFxfsFile at hfile hnone
  rcases opened.files with same | ⟨-, cursor, starts, added⟩
  · rw [same, hnone] at hfile
    cases hfile
  rw [added, find?_append, hnone, Option.none_or, find?_cons_of_pos] at hfile
  · cases hfile
    exact starts
  · exact decide_eq_true rfl

/-- Where the path is not cached, the open keeps its promise. -/
theorem OpenedFile.own (well : WellFormed ⟨before, []⟩)
  (accepted : openRefused before pid dirfd path flags = none)
  (opened : OpenedFile before after pid fd path flags) :
  ∃ record, OwnOpen before after pid fd path flags record := by
  have hget : after.getFd pid fd = some (.of fd (hasFlag flags linuxOCloexec)
    ⟨before.files.table.nextOpenDescriptionId, before.files.compat.nextHandle,
      openObjectType flags, openStatusFlags flags, 0, 1⟩) := by
    rw [System.getFd_eq, opened.entry, Option.bind_some, opened.description]
    rfl
  refine ⟨_, hget, well.shaped.fresh_id, ⟨_, opened.description, rfl, rfl⟩,
    openStatusFlags_access flags, fun file => opened.starts well.shaped,
    permitted_of_accepted accepted, ?_, ?_, ?_⟩
  · intro readOnly bytes offset socket memory
    refine write_refused hget ?_ opened.number bytes offset socket memory
    simp only [LinuxFdRecord.of, openStatusFlags_access, readOnly]
    rfl
  · intro id hid
    refine opened.others id ?_
    rintro rfl
    exact well.shaped.fresh_id hid
  · intro handle file hfile
    rcases opened.files with same | ⟨-, cursor, -, added⟩
    · unfold OpenFiles.linuxFxfsFile at hfile ⊢
      rw [same]
      exact hfile
    · exact linuxFxfsFile_append added hfile

theorem openDesc_mem {table : LinuxOpenDescriptions} {desc : LinuxOpenDescription}
  (hopen : table.openDescription id = some desc) : desc ∈ table.descriptions := by
  obtain ⟨⟨idx, found⟩, find, rfl⟩ := Option.map_eq_some_iff.mp hopen
  exact mem_of_getElem? (find_some find).1

theorem acquireIgnored_ids (indexed : sys.files.table.Indexed) (id) :
  (sys.acquireIgnored id).files.table.descriptions.map (·.id) =
    sys.files.table.descriptions.map (·.id) := by
  cases hopen : sys.files.table.openDescription id with
  | none =>
    unfold System.acquireIgnored OpenFiles.acquireOpenDescription acquireOpenDescription
    rw [hopen]
    rfl
  | some desc =>
    rw [acquireIgnored_of_open hopen]
    dsimp only
    rw [openDescMut_eq indexed]
    exact Counted.map_adjust fun _ => rfl

theorem sharedOpen_table (sys cached) :
  (sharedOpen sys pid fd path flags cached).files.table =
    (sys.acquireIgnored cached.descriptionId).files.table := by
  unfold sharedOpen OpenFiles.bindLinuxFxfsFile
  dsimp only
  split <;> rfl

/-- A cached path never gives a new description: the one it names is there, or
the descriptor names nothing. -/
theorem sharedOpen_not_own {cached : LinuxShmCachedHandle} (indexed : sys.files.table.Indexed)
  (table : sys.files.table = before.files.table) (free : fd ∉ sys.usedFds pid) :
  ¬ OwnOpen before (sharedOpen sys pid fd path flags cached) pid fd path flags record := by
  intro hown
  have res : (sharedOpen sys pid fd path flags cached).resources =
    (sys.pushFd pid fd cached.descriptionId (hasFlag flags linuxOCloexec)).resources := rfl
  have pushed : (sharedOpen sys pid fd path flags cached).entryOf pid fd =
    some ⟨fd, cached.descriptionId, hasFlag flags linuxOCloexec⟩ := by
    rw [System.entryOf_congr res, pushFd_eq]
    refine System.entryOf_addEntry_self ?_
    rw [usedFds_congr (acquireIgnored_tables _ _).1]
    exact free
  have hids : (sharedOpen sys pid fd path flags cached).files.table.descriptions.map (·.id) =
    before.files.table.descriptions.map (·.id) := by
    rw [sharedOpen_table, acquireIgnored_ids indexed, table]
  obtain ⟨entry, desc, hentry, hopen, hrec⟩ := System.getFd_entryOf hown.get
  refine hown.fresh ?_
  rw [hrec, ← hids]
  exact mem_map_of_mem (openDesc_mem hopen)

/-- In every state that calls lead to, a successful open gives its caller a
description of its own just where the path is not in the cache. -/
theorem open_own_iff_uncached {fxfs : FxfsState} {calls : List Call}
  (hrun : run next (start fxfs) calls = before)
  (hopen : serve (.openat pid dirfd path flags mode execPath memory) before = .ok fd after) :
  (∃ record, OwnOpen before after pid fd path flags record) ↔ cachedHandle before path = none := by
  have hwell : WellFormed ⟨before, []⟩ := hrun ▸ run_wellFormed fxfs calls
  have hleads : Leads true (sysOpenat pid dirfd path flags mode execPath memory) ⟨before, []⟩ _ :=
    leads_sysOpenat hwell
  obtain ⟨pend, -, -, haccepted, hresult⟩ := hleads.ok hopen
  cases hresult with
  | own huncached hopened => exact ⟨fun _ => huncached, fun _ => hopened.own hwell haccepted⟩
  | shares hfound hfree =>
    rw [hfound]
    refine ⟨?_, fun hnone => by cases hnone⟩
    rintro ⟨record, hown⟩
    exact absurd hown (sharedOpen_not_own hwell.shaped.indexed rfl hfree)

/-- A store with an empty directory `/dev/shm`. -/
def shmStore : FxfsState where
  objects :=
    [⟨1, .directory, [], ⟨0o755, 0, 0, 0, 1⟩⟩, ⟨2, .directory, [], ⟨0o755, 0, 0, 0, 1⟩⟩,
      ⟨3, .directory, [], ⟨0o777, 0, 0, 0, 1⟩⟩]
  dirents := [⟨1, ['d', 'e', 'v'], 2⟩, ⟨2, ['s', 'h', 'm'], 3⟩]
  nextObjectId := 4

/-- An open of a file in `/dev/shm`. -/
def openShmAt (name : Char) (pid flags : Nat) : Call :=
  .openat pid linuxAtFdcwd (linuxShmRootPath ++ [name]) flags 0o644 none true

/-- An open of `/dev/shm/m`. -/
def openShm : Nat → Nat → Call := openShmAt 'm'

/-- Two processes open the same file. -/
def openedTwice : List Call := [openShm 1 (linuxOCreat ||| linuxORdwr), openShm 2 linuxORdonly]

/-- After that, one of them opens another file. -/
theorem open_own_iff_uncached_other : ∃ before after, run next (start shmStore) openedTwice = before ∧
    serve (openShmAt 'n' 2 (linuxOCreat ||| linuxORdwr)) before = .ok 4 after ∧
    ∃ record, OwnOpen before after 2 4 (linuxShmRootPath ++ ['n']) (linuxOCreat ||| linuxORdwr)
      record := by
  obtain ⟨after, hafter⟩ : ∃ after, serve (openShmAt 'n' 2 (linuxOCreat ||| linuxORdwr))
      (run next (start shmStore) openedTwice) = .ok 4 after := ⟨_, rfl⟩
  exact ⟨_, after, rfl, hafter, (open_own_iff_uncached rfl hafter).mpr (by decide +kernel)⟩

/-- Process 1 creates the file and writes two bytes; process 2 is another user. -/
def sharingCalls : List Call :=
  [openShm 1 (linuxOCreat ||| linuxORdwr), .write 1 3 [7, 8] none true, .setuid 2 1000]

/-- Process 2 may not write the file.  It opens it for reading, and the cursor
of process 1 goes back to the start; then it writes. -/
theorem reader_writes :
  ∃ before opened written, run next (start shmStore) sharingCalls = before ∧
    serve (openShm 2 linuxORdwr) before = .error (.errno .eacces) before ∧
    serve (openShm 2 linuxORdonly) before = .ok 3 opened ∧
    serve (.write 2 3 [9] none true) opened = .ok 1 written ∧
    before.files.fxfsFiles.map (·.cursor.offset) = [2] ∧
    opened.files.fxfsFiles.map (·.cursor.offset) = [0] ∧
    written.files.fxfs.objects.map (·.data) = [[], [], [], [9, 8]] :=
  ⟨_, _, _, rfl, rfl, rfl, rfl, by decide, by decide, by decide⟩

end Smros.Files
