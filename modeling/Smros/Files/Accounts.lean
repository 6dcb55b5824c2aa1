import Smros.Files.Books
import Smros.Files.Lookup

/-!
# The books of the open files

The descriptions, the objects and the shared memory records against the names
in use, and the files and cached handles against the descriptions they belong
to.
-/

namespace Smros.Files
open Lib LinuxOpenDescriptions List Counted

structure Accounts (files : OpenFiles) (fds objects pending : List Nat) : Prop where
  books : Books (files.table.descriptions.map (·.account)) files.compat.handles files.sharedMemory
    fds objects pending
  owned : ∀ file ∈ files.fxfsFiles, ∃ description ∈ files.table.descriptions,
    description.handle = file.handle ∧ description.objectType = .linuxFile
  cached : ∀ cached ∈ files.shmCachedHandles, ∃ description ∈ files.table.descriptions,
    description.handle = cached.handle ∧ description.id = cached.descriptionId ∧
      description.objectType = .linuxFile
  sharedBound : ∀ record ∈ files.sharedMemory, record.id < files.nextSharedMemoryId

namespace Accounts
variable {files : OpenFiles} {fds objs pending waiting ids handles : List Nat} {id handle : Nat}
theorem start (fxfs) : Accounts (System.start fxfs).files [] [] [] where
  books := .nil
  owned _ hmem := by cases hmem
  cached _ hmem := by cases hmem
  sharedBound _ hmem := by cases hmem

variable {fds' objects' pending' : List Nat}
section
variable (accounts : Accounts files fds objs pending)
include accounts
theorem names (hfds : fds.Perm fds') (hobjs : objs.Perm objects') :
  Accounts files fds' objects' pending :=
  { accounts with books := accounts.books.names hfds hobjs }

theorem pendingPerm (perm : pending.Perm pending') : Accounts files fds objs pending' :=
  { accounts with
    books := accounts.books.perm (.refl _) (.refl _) (.refl _) (.refl _) perm }

/-- A change of what the books are not about. -/
theorem congr {changed} (account : changed.table.descriptions.map (·.account) =
      files.table.descriptions.map (·.account))
  (handles : changed.compat.handles = files.compat.handles)
  (shared : changed.sharedMemory = files.sharedMemory)
  (hnext : changed.nextSharedMemoryId = files.nextSharedMemoryId)
  (hfiles : changed.fxfsFiles.map (·.handle) ⊆ files.fxfsFiles.map (·.handle))
  (hcached : changed.shmCachedHandles ⊆ files.shmCachedHandles) :
    Accounts changed fds objs pending := by
  have kept : ∀ desc ∈ files.table.descriptions,
    ∃ same ∈ changed.table.descriptions, same.account = desc.account :=
    fun desc hmem => by
      have account' : desc.account ∈ changed.table.descriptions.map (·.account) := by
        rw [account]
        exact mem_map_of_mem hmem
      exact mem_map.mp account'
  constructor
  · rw [account, handles, shared]
    exact accounts.books
  · intro file hfile
    obtain ⟨old, hold, hsame⟩ := mem_map.mp (hfiles (mem_map_of_mem hfile))
    obtain ⟨desc, hmem, handle, kind⟩ := accounts.owned old hold
    obtain ⟨same, there, heq⟩ := kept desc hmem
    refine ⟨same, there, ?_, ?_⟩
    · exact (congrArg Account.handle heq).trans (handle.trans hsame)
    · exact (congrArg Account.objectType heq).trans kind
  · intro cached hmem
    obtain ⟨desc, hdesc, handle, hid, kind⟩ := accounts.cached cached (hcached hmem)
    obtain ⟨same, there, heq⟩ := kept desc hdesc
    refine ⟨same, there, ?_, ?_, ?_⟩
    · exact (congrArg Account.handle heq).trans handle
    · exact (congrArg Account.id heq).trans hid
    · exact (congrArg Account.objectType heq).trans kind
  · rw [shared, hnext]
    exact accounts.sharedBound

end

/-! ## One description -/

/-- A description among the others, and what a change makes of it. -/
theorem around (indexed : files.table.Indexed) (accounts : Accounts files fds objs pending)
  (name : id ∈ fds ++ objs) :
  ∃ desc others, desc.id = id ∧ files.table.openDescription id = some desc ∧
    desc.references = (fds ++ objs).count id ∧
    files.table.descriptions.Perm (desc :: others) ∧
    (∀ change, (files.table.openDescriptionMut id change).descriptions.Perm
      (change desc :: others)) ∧
    (without (·.id) id files.table.descriptions).Perm others := by
  obtain ⟨account, haccount, rfl⟩ := accounts.books.balanced.exists_record name
  obtain ⟨desc, hmem, rfl⟩ := mem_map.mp haccount
  obtain ⟨others, perm, adjust, hwithout⟩ := perm_around indexed.nodup hmem
  refine ⟨desc, others, rfl, (openDesc_iff indexed).mpr ⟨hmem, rfl⟩,
    accounts.books.balanced.counts _ haccount, perm, fun change => ?_, hwithout⟩
  rw [openDescMut_eq indexed]
  exact adjust change

variable {desc changed : LinuxOpenDescription} {others : List LinuxOpenDescription}
  {table : LinuxOpenDescriptions} {shared : List LinuxSharedMemoryRecord}
/-- One description is changed in its count. -/
theorem place (accounts : Accounts files fds objs pending)
  (perm : files.table.descriptions.Perm (desc :: others))
  (htable : table.descriptions.Perm (changed :: others)) (hid : changed.id = desc.id)
  (handle : changed.handle = desc.handle)
  (kind : changed.objectType = desc.objectType)
  (books : Books (changed.account :: others.map (·.account)) files.compat.handles shared fds'
    objects' pending') (bound : ∀ record ∈ shared, record.id < files.nextSharedMemoryId) :
  Accounts { files with table := table, sharedMemory := shared } fds' objects' pending' := by
  have kept : ∀ old ∈ files.table.descriptions, ∃ same ∈ table.descriptions,
    same.id = old.id ∧ same.handle = old.handle ∧ same.objectType = old.objectType := by
    intro old hold
    rcases mem_cons.mp (perm.mem_iff.mp hold) with rfl | other
    · exact ⟨changed, htable.mem_iff.mpr (mem_cons_self ..), hid, handle, kind⟩
    · exact ⟨old, htable.mem_iff.mpr (mem_cons_of_mem _ other), rfl, rfl, rfl⟩
  constructor
  · have accounts' := (htable.map (·.account)).symm
    exact books.perm accounts' (.refl _) (.refl _) (.refl _) (.refl _)
  · intro file hfile
    obtain ⟨old, hold, owner, fileKind⟩ := accounts.owned file hfile
    obtain ⟨same, there, -, hsame, sameKind⟩ := kept old hold
    exact ⟨same, there, hsame.trans owner, sameKind.trans fileKind⟩
  · intro cached hcached
    obtain ⟨old, hold, owner, name, fileKind⟩ := accounts.cached cached hcached
    obtain ⟨same, there, sameId, hsame, sameKind⟩ := kept old hold
    exact ⟨same, there, hsame.trans owner, sameId.trans name, sameKind.trans fileKind⟩
  · exact bound

/-- One description goes, with the files and cached handles that are its own. -/
theorem takeOut {fxfsFiles shmCachedHandles fxfs} (accounts : Accounts files fds objs pending)
  (perm : files.table.descriptions.Perm (desc :: others))
  (htable : table.descriptions.Perm others)
  (books : Books (others.map (·.account)) files.compat.handles shared fds' objects' pending')
  (bound : ∀ record ∈ shared, record.id < files.nextSharedMemoryId)
  (hfiles : ∀ file ∈ fxfsFiles, file ∈ files.fxfsFiles ∧
    (file.handle = desc.handle → desc.objectType ≠ .linuxFile))
  (hcached : ∀ cached ∈ shmCachedHandles, cached ∈ files.shmCachedHandles ∧
    (cached.handle = desc.handle → desc.objectType ≠ .linuxFile)) :
  Accounts
    { files with
      table := table
      sharedMemory := shared
      fxfsFiles := fxfsFiles
      shmCachedHandles := shmCachedHandles
      fxfs := fxfs } fds' objects' pending' := by
  constructor
  · exact books.perm (htable.map (·.account)).symm (.refl _) (.refl _) (.refl _) (.refl _)
  · intro file hfile
    obtain ⟨hold, other⟩ := hfiles file hfile
    obtain ⟨owner, howner, handle, kind⟩ := accounts.owned file hold
    rcases mem_cons.mp (perm.mem_iff.mp howner) with rfl | rest
    · exact absurd kind (other handle.symm)
    · exact ⟨owner, htable.mem_iff.mpr rest, handle, kind⟩
  · intro cached hmem
    obtain ⟨hold, other⟩ := hcached cached hmem
    obtain ⟨owner, howner, handle, hid, kind⟩ := accounts.cached cached hold
    rcases mem_cons.mp (perm.mem_iff.mp howner) with rfl | rest
    · exact absurd kind (other handle.symm)
    · exact ⟨owner, htable.mem_iff.mpr rest, handle, hid, kind⟩
  · exact bound

/-- The books of a named description and the others. -/
theorem booksAround (accounts : Accounts files fds objs pending)
  (perm : files.table.descriptions.Perm (desc :: others)) :
  Books (desc.account :: others.map (·.account)) files.compat.handles files.sharedMemory
    fds objs pending :=
  accounts.books.perm (perm.map (·.account)) (.refl _) (.refl _) (.refl _) (.refl _)

/-! ## Descriptors -/

/-- Another descriptor for a description that descriptors may name. -/
theorem acquireFd (indexed : files.table.Indexed) (accounts : Accounts files fds objs pending)
  (name : id ∈ fds ++ objs)
  (kind : ∀ desc, files.table.openDescription id = some desc → desc.objectType ≠ .sharedMemory) :
  files.acquireOpenDescription id =
    some { files with table := files.table.openDescriptionMut id addReference } ∧
    Accounts { files with table := files.table.openDescriptionMut id addReference } (id :: fds)
      objs pending := by
  obtain ⟨desc, others, rfl, hopen, -, perm, hmut, -⟩ := accounts.around indexed name
  constructor
  · unfold OpenFiles.acquireOpenDescription acquireOpenDescription
    rw [hopen]
    rfl
  · refine accounts.place perm (hmut addReference) rfl rfl rfl ?_ accounts.sharedBound
    exact (accounts.booksAround perm).acquireFd (kind desc hopen)

/-- Removing the file of a handle. -/
theorem removeLinuxFxfsFile_eq (files : OpenFiles) (handle) :
  ∃ fxfs, files.removeLinuxFxfsFile handle =
    { files with
      fxfsFiles := without (·.handle) handle files.fxfsFiles
      shmCachedHandles := files.shmCachedHandles.filter (·.handle ≠ handle)
      fxfs := fxfs } := by
  unfold OpenFiles.removeLinuxFxfsFile OpenFiles.linuxFxfsFile
  cases hfind : files.fxfsFiles.find? (·.handle = handle) with
  | none =>
    have same : without (·.handle) handle files.fxfsFiles = files.fxfsFiles :=
      filter_eq_self.mpr fun file hfile => by simpa using find?_eq_none.mp hfind file hfile
    rw [same]
    exact ⟨files.fxfs, rfl⟩
  | some file => exact ⟨_, rfl⟩

/-- One of the names of a description is given up: the description counts down, or goes
with the last of them. -/
theorem released {names} (accounts : Accounts files fds objs pending)
  (indexed : files.table.Indexed) (hnames : (fds ++ objs).Perm (id :: names)) :
  ∃ desc others, desc.id = id ∧ files.table.openDescription id = some desc ∧
    files.table.descriptions.Perm (desc :: others) ∧
    ((id ∈ names ∧ 1 < desc.references ∧ ∃ table,
      files.releaseOpenDescription id = (none, { files with table := table }) ∧
      table.descriptions.Perm (dropReference desc :: others)) ∨
      (id ∉ names ∧ desc.references = 1 ∧ ∃ table, files.releaseOpenDescription id =
        (some (dropReference desc), { files with table := table }) ∧
        table.descriptions.Perm others)) := by
  obtain ⟨desc, others, rfl, hopen, count, perm, hmut, without⟩ :=
    accounts.around indexed (hnames.mem_iff.mpr (mem_cons_self ..))
  obtain ⟨hmem, -⟩ := (openDesc_iff indexed).mp hopen
  rw [hnames.count_eq, count_cons_self] at count
  refine ⟨desc, others, rfl, hopen, perm, ?_⟩
  unfold OpenFiles.releaseOpenDescription
  by_cases more : desc.id ∈ names
  · have hpos : 1 < desc.references := by
      have := count_pos_iff.mpr more
      omega
    rw [releaseDesc_more indexed hmem hpos]
    exact .inl ⟨more, hpos, _, rfl, hmut dropReference⟩
  · have hone : desc.references = 1 := by rw [count, count_eq_zero.mpr more]
    obtain ⟨rest, release, -, -, hothers⟩ := releaseDesc_last indexed hmem hone
    rw [release]
    exact .inr ⟨more, hone, rest, rfl, hothers.trans without⟩

/-- A descriptor gives up its reference. -/
theorem releaseFd (indexed : files.table.Indexed)
  (accounts : Accounts files (id :: fds) objs pending) :
  (id ∈ fds ++ objs ∧ ∃ next, files.releaseOpenDescription id = (none, next) ∧
    Accounts next fds objs pending) ∨
  (id ∉ fds ++ objs ∧ ∃ desc next, files.releaseOpenDescription id = (some desc, next) ∧
    Accounts (next.removeLinuxFxfsFile desc.handle) fds objs (desc.handle :: pending)) := by
  obtain ⟨desc, others, rfl, -, perm, released⟩ := accounts.released indexed .rfl
  have books := accounts.booksAround perm
  rcases released with ⟨more, -, table, release, htable⟩ | ⟨last, -, table, release, htable⟩
  · refine .inl ⟨more, _, release, ?_⟩
    refine accounts.place perm htable rfl rfl rfl ?_ accounts.sharedBound
    exact books.releaseFd more
  refine .inr ⟨last, _, _, release, ?_⟩
  obtain ⟨fxfs, removed⟩ := removeLinuxFxfsFile_eq { files with table := table }
    (dropReference desc).handle
  rw [removed]
  refine accounts.takeOut perm htable (books.releaseFd_last last) accounts.sharedBound ?_ ?_
  · intro file hfile
    obtain ⟨hold, hne⟩ := mem_without.mp hfile
    exact ⟨hold, fun same => absurd same hne⟩
  · intro cached hcached
    obtain ⟨hold, hne⟩ := mem_filter.mp hcached
    exact ⟨hold, fun same => absurd same (of_decide_eq_true hne)⟩

/-- An object without a description is closed. -/
theorem sysHandleClose (accounts : Accounts files fds objs (handle :: pending)) :
  Accounts (files.sysHandleClose handle) fds objs pending := by
  have live : handle ∈ files.compat.handles := accounts.books.live.mem_iff.mp (mem_cons_self ..)
  have hfind : (files.compat.find handle).isSome := by
    obtain ⟨obj, hobj, same⟩ := mem_map.mp live
    unfold CompatObjectTable.find
    rw [find?_isSome]
    exact ⟨obj, hobj, decide_eq_true same⟩
  unfold OpenFiles.sysHandleClose
  rw [if_pos hfind, accounts.books.pending_unshared]
  refine { accounts with books := ?_ }
  change Books _ (files.compat.close handle).handles _ _ _ _
  rw [CompatObjectTable.handles_close]
  exact accounts.books.closeObject

/-- Closing a descriptor, of the last reference with the object. -/
theorem releaseAndClose (indexed : files.table.Indexed)
  (accounts : Accounts files (id :: fds) objs pending) :
  Accounts (files.releaseAndClose id) fds objs pending := by
  unfold OpenFiles.releaseAndClose
  rcases accounts.releaseFd indexed with
    ⟨-, next, release, hnext⟩ | ⟨-, desc, next, release, hnext⟩
  · rw [release]
    exact hnext
  · rw [release]
    exact hnext.sysHandleClose

/-! ## New descriptions -/

variable {objectType : ObjectType} {flags next : Nat}
/-- The descriptions after one is created and taken. -/
theorem descriptions_created (shaped : Shaped files (handle :: waiting)) :
  ((files.createOpenDescription handle objectType flags).2.table.openDescriptionMut
    files.table.nextOpenDescriptionId addReference).descriptions.Perm
    (addReference (Shaped.created files handle objectType flags) :: files.table.descriptions) := by
  have indexed : (files.createOpenDescription handle objectType flags).2.table.Indexed :=
    shaped.describe.indexed
  have hold : adjust (·.id) files.table.nextOpenDescriptionId addReference
    files.table.descriptions = files.table.descriptions :=
    adjust_eq_self fun desc hmem => Nat.ne_of_lt (shaped.ids desc hmem)
  have append : adjust (·.id) files.table.nextOpenDescriptionId addReference
    (files.table.descriptions ++ [Shaped.created files handle objectType flags]) =
      files.table.descriptions ++
        [addReference (Shaped.created files handle objectType flags)] := by
    unfold adjust at hold ⊢
    rw [map_append, hold, map_singleton, if_pos]
    rfl
  rw [openDescMut_eq indexed]
  change (adjust (·.id) files.table.nextOpenDescriptionId addReference
    (files.table.descriptions ++ [Shaped.created files handle objectType flags])).Perm _
  rw [append]
  exact perm_append_singleton _ _

/-- One description is new. -/
theorem addDescription {created} (accounts : Accounts files fds objs pending)
  (htable : table.descriptions.Perm (created :: files.table.descriptions))
  (books : Books (created.account :: files.table.descriptions.map (·.account))
    files.compat.handles shared fds' objects' waiting)
  (bound : ∀ record ∈ shared, record.id < next) :
  Accounts
    { files with
      table := table
      sharedMemory := shared
      nextSharedMemoryId := next } fds' objects' waiting := by
  constructor
  · have accounts' := (htable.map (·.account)).symm
    exact books.perm accounts' (.refl _) (.refl _) (.refl _) (.refl _)
  · intro file hfile
    obtain ⟨owner, howner, handle, kind⟩ := accounts.owned file hfile
    exact ⟨owner, htable.mem_iff.mpr (mem_cons_of_mem _ howner), handle, kind⟩
  · intro cached hcached
    obtain ⟨owner, howner, handle, hid, kind⟩ := accounts.cached cached hcached
    exact ⟨owner, htable.mem_iff.mpr (mem_cons_of_mem _ howner), handle, hid, kind⟩
  · exact bound

theorem fresh_account (shaped : Shaped files waiting) : files.table.nextOpenDescriptionId ∉
    (files.table.descriptions.map (·.account)).map (·.id) := by
  rw [map_map]
  exact shaped.fresh_id

/-! ## Objects of a process -/

/-- The record that is found for the handle of a shared memory description. -/
theorem sharedMemoryId_some (accounts : Accounts files fds objs pending)
  (perm : files.table.descriptions.Perm (desc :: others))
  (kind : desc.objectType = .sharedMemory) :
  ∃ record ∈ files.sharedMemory, record.handle = desc.handle ∧
    files.sharedMemoryId desc.handle = some record.id := by
  obtain ⟨owner, howner, same⟩ := (accounts.booksAround perm).exists_record kind
  have hsome : (files.sharedMemory.find? (·.handle = desc.handle)).isSome := by
    rw [find?_isSome]
    exact ⟨owner, howner, decide_eq_true same⟩
  obtain ⟨record, hrec⟩ := Option.isSome_iff_exists.mp hsome
  refine ⟨record, mem_of_find?_eq_some hrec, by simpa using find?_some hrec, ?_⟩
  unfold OpenFiles.sharedMemoryId
  rw [hrec]
  rfl

variable {record : LinuxSharedMemoryRecord}
theorem findShared (accounts : Accounts files fds objs pending)
  (hrec : record ∈ files.sharedMemory) :
  files.sharedMemory.find? (·.id = record.id) = some record :=
  find?_of_nodup_map accounts.books.sharedIds hrec

section
variable (hfind : files.sharedMemory.find? (·.id = record.id) = some record)
include hfind
theorem releaseRecord_more (more : 1 < record.references) :
  files.releaseSharedMemoryReference record.id = (none, { files with
        sharedMemory := adjust (·.id) record.id
          (fun record => { record with references := record.references - 1 })
          files.sharedMemory }) := by
  unfold OpenFiles.releaseSharedMemoryReference
  rw [hfind]
  dsimp only
  rw [if_neg (by omega), if_neg (by omega)]

theorem releaseRecord_last (hone : record.references = 1) :
  files.releaseSharedMemoryReference record.id = (some record.handle,
    { files with sharedMemory := without (·.id) record.id files.sharedMemory }) := by
  unfold OpenFiles.releaseSharedMemoryReference
  rw [hfind]
  dsimp only
  rw [if_neg (by omega), if_pos hone]

end

theorem sharedBound_adjust {change} (accounts : Accounts files fds objs pending)
  (hid : ∀ rec, (change rec).id = rec.id) :
  ∀ rec ∈ adjust (·.id) id change files.sharedMemory, rec.id < files.nextSharedMemoryId := by
  intro rec hrec
  obtain ⟨old, hold, rfl⟩ := mem_adjust.mp hrec
  have bound := accounts.sharedBound old hold
  split
  · rw [hid]
    exact bound
  · exact bound

/-- Another entry of a list of objects, in the description and in the record. -/
theorem acquireShared {table} (accounts : Accounts files fds objs pending)
  (name : desc.id ∈ objs) (kind : desc.objectType = .sharedMemory)
  (perm : files.table.descriptions.Perm (desc :: others))
  (htable : table.descriptions.Perm (addReference desc :: others))
  (hrec : record ∈ files.sharedMemory) (handle : record.handle = desc.handle) :
  Accounts
    { files with
      table := table
      sharedMemory := adjust (·.id) record.id
        (fun record => { record with references := record.references + 1 }) files.sharedMemory }
    fds (desc.id :: objs) pending := by
  refine accounts.place perm htable rfl rfl rfl ?_ (accounts.sharedBound_adjust fun _ => rfl)
  exact (accounts.booksAround perm).acquireShared name kind hrec handle

/-- An entry of a list of objects gives up its reference. -/
theorem releaseObject (indexed : files.table.Indexed)
  (accounts : Accounts files fds (id :: objs) pending) :
  (id ∈ fds ++ objs ∧ ∃ next, files.releaseObjectEntry id = (none, next) ∧
    Accounts next fds objs pending) ∨
  (id ∉ fds ++ objs ∧ ∃ handle next, files.releaseObjectEntry id = (some handle, next) ∧
    Accounts next fds objs (handle :: pending)) := by
  obtain ⟨desc, others, rfl, hopen, perm, released⟩ := accounts.released indexed perm_middle
  have books := accounts.booksAround perm
  unfold OpenFiles.releaseObjectEntry
  rw [hopen]
  dsimp only
  rcases released with ⟨more, hpos, table, release, htable⟩ | ⟨last, hone, table, release, htable⟩
  · rw [release]
    refine .inl ⟨more, ?_⟩
    by_cases kind : desc.objectType = .sharedMemory
    · obtain ⟨rec, hrec, hhandle, found⟩ := accounts.sharedMemoryId_some perm kind
      obtain ⟨same, -⟩ := books.record_of_handle kind hrec hhandle
      have hfind := accounts.findShared hrec
      have recordPos : 1 < rec.references := same ▸ hpos
      have found' : OpenFiles.sharedMemoryId { files with table := table } desc.handle =
        some rec.id := found
      rw [if_pos kind, found']
      refine ⟨_, releaseRecord_more hfind recordPos, ?_⟩
      refine accounts.place perm htable rfl rfl rfl ?_ (accounts.sharedBound_adjust fun _ => rfl)
      exact books.releaseShared kind more hrec hhandle
    · rw [if_neg kind]
      refine ⟨_, rfl, accounts.place perm htable rfl rfl rfl ?_ accounts.sharedBound⟩
      exact books.releaseObject kind more
  · have notFile : desc.objectType ≠ .linuxFile :=
      books.objectKinds _ (mem_cons_self ..) (mem_cons_self ..)
    rw [release]
    refine .inr ⟨last, desc.handle, ?_⟩
    by_cases kind : desc.objectType = .sharedMemory
    · obtain ⟨rec, hrec, hhandle, found⟩ := accounts.sharedMemoryId_some perm kind
      obtain ⟨same, -⟩ := books.record_of_handle kind hrec hhandle
      have hfind := accounts.findShared hrec
      have found' : OpenFiles.sharedMemoryId { files with table := table } desc.handle =
        some rec.id := found
      rw [if_pos kind, found', ← hhandle]
      refine ⟨_, releaseRecord_last hfind (same.trans hone), ?_⟩
      rw [hhandle]
      exact accounts.takeOut perm htable (books.releaseShared_last kind last hrec hhandle)
        (fun other hother => accounts.sharedBound other (mem_without.mp hother).1)
        (fun file hfile => ⟨hfile, fun _ => notFile⟩)
        (fun cached hcached => ⟨hcached, fun _ => notFile⟩)
    · rw [if_neg kind]
      refine ⟨_, rfl, ?_⟩
      exact accounts.takeOut perm htable (books.releaseObject_last kind last) accounts.sharedBound
        (fun file hfile => ⟨hfile, fun _ => notFile⟩)
        (fun cached hcached => ⟨hcached, fun _ => notFile⟩)

/-! ## Whole tables -/

/-- Every entry of a list of objects gives up its reference. -/
theorem releaseObjects (shaped : Shaped files waiting)
  (accounts : Accounts files fds (ids ++ objs) pending) :
  Accounts (files.releaseObjects ids).2 fds objs ((files.releaseObjects ids).1 ++ pending) := by
  induction ids generalizing files pending with
  | nil => exact accounts
  | cons id rest ih =>
    have kept := shaped.releaseObjectEntry id
    unfold OpenFiles.releaseObjects
    rcases Accounts.releaseObject shaped.indexed accounts with
      ⟨-, next, release, hnext⟩ | ⟨-, handle, next, release, hnext⟩
    · rw [release] at kept ⊢
      exact ih kept hnext
    · rw [release] at kept ⊢
      exact (ih kept hnext).pendingPerm perm_middle

variable {descs : List LinuxDescriptorEntry}
theorem releaseDescriptors (shaped : Shaped files waiting)
  (accounts : Accounts files (descs.map (·.descriptionId) ++ fds) objs pending) :
  Accounts (files.releaseDescriptors descs).2 fds objs
    ((files.releaseDescriptors descs).1 ++ pending) := by
  induction descs generalizing files pending with
  | nil => exact accounts
  | cons entry rest ih =>
    have kept := shaped.release entry.descriptionId
    unfold OpenFiles.releaseDescriptors
    rcases Accounts.releaseFd shaped.indexed accounts with
      ⟨-, next, release, hnext⟩ | ⟨-, desc, next, release, hnext⟩
    · rw [release] at kept ⊢
      exact ih kept hnext
    · rw [release] at kept ⊢
      exact (ih (kept.removeFile _) hnext).pendingPerm perm_middle

theorem closeHandles (accounts : Accounts files fds objs (handles ++ pending)) :
  Accounts (files.closeHandles handles) fds objs pending := by
  induction handles generalizing files with
  | nil => exact accounts
  | cons handle rest ih => exact ih accounts.sysHandleClose

/-- The tables of a process that exits. -/
theorem releaseResourceClone (shaped : Shaped files waiting)
  (accounts : Accounts files (descs.map (·.descriptionId) ++ fds) (ids ++ objs) pending) :
  Accounts ((files.releaseResourceClone descs ids).2.closeHandles
    (files.releaseResourceClone descs ids).1) fds objs pending := by
  have reversed : Accounts files (descs.reverse.map (·.descriptionId) ++ fds)
    (ids.reverse ++ objs) pending :=
    accounts.names (((reverse_perm _).symm.map _).append_right _)
      ((reverse_perm _).symm.append_right _)
  have hobjs := reversed.releaseObjects shaped
  have hall := hobjs.releaseDescriptors (shaped.releaseObjects ids.reverse)
  unfold OpenFiles.releaseResourceClone
  refine .closeHandles (hall.pendingPerm ?_)
  rw [← append_assoc]
  exact perm_append_comm.append_right _

end Accounts
end Smros.Files
