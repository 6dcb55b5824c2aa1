import Smros.Files.Chains

/-!
# What an open does

An open that does not find its path in the cache makes a description of its
own, with a cursor at the start of the file or at its end.  One that does shares
the description of the first open.
-/

namespace Smros.Files
open Lib Program LinuxOpenDescriptions List FxfsState

/-! ## The cursor of a new description -/

variable {objectType : ObjectType} {path : Path} {flags mode offset : Nat}
  {cursor moved : FxfsCursor} {memory : Bool} {store next : FxfsState}
/-- A cursor at the start, or at the end of its file for `O_APPEND`. -/
def StartsAt (store : FxfsState) (cursor : FxfsCursor) (flags : Nat) : Prop :=
  ∃ attrs, store.cursorAttrs cursor = .ok attrs ∧
    cursor.offset = if hasFlag flags linuxOAppend then attrs.size else 0

variable {object : FxfsObject} {State Error Value : Type}
theorem resolvePath_find (resolve : store.resolvePath path = .ok object) :
  store.findObject object.objectId = some object := by
  obtain ⟨objectId, -, hobj⟩ := except_bind_ok resolve
  unfold objectById at hobj
  split at hobj
  · cases hobj
    rename_i hfind
    have same : object.objectId = objectId := by simpa using find?_some hfind
    rw [same]
    exact hfind
  · cases hobj

theorem openCursor_ok (hopen : store.openCursor path = .ok cursor) :
  ∃ object, store.resolvePath path = .ok object ∧ object.kind = .file ∧
    cursor = ⟨object.objectId, 0⟩ := by
  obtain ⟨object, hobj, rest⟩ := except_bind_ok hopen
  by_cases kind : object.kind = .file
  · rw [if_neg (not_not.mpr kind)] at rest
    cases rest
    exact ⟨object, hobj, kind, rfl⟩
  · rw [if_pos kind] at rest
    cases rest

theorem cursorAttrs_of_find (find : store.findObject cursor.objectId = some object) :
  store.cursorAttrs cursor = .ok object.attrs := by
  unfold cursorAttrs
  rw [find]

theorem cursorAttrs_ok {attrs} (hattrs : store.cursorAttrs cursor = .ok attrs) :
  ∃ object, store.findObject cursor.objectId = some object ∧ object.attrs = attrs := by
  unfold cursorAttrs at hattrs
  split at hattrs
  · rename_i object find
    exact ⟨object, find, Except.ok.inj hattrs⟩
  · cases hattrs

theorem seekCursor_ok (seek : store.seekCursor cursor offset = .ok moved) :
  moved = { cursor with offset := offset } := by
  obtain ⟨obj, -, rest⟩ := except_bind_ok seek
  by_cases valid : fxfsSeekValid offset obj.attrs.size
  · rw [if_pos valid] at rest
    exact (Except.ok.inj rest).symm
  · rw [if_neg valid] at rest
    cases rest

variable {state after : State}
/-- `map_err` of a result that is there. -/
theorem orErrno_ok {error : Error → SysError} {result : Except Error Value} {value : Value}
  (hrun : (orErrno error result : Program State Failure Value) state = .ok value after) :
  result = .ok value ∧ after = state := by
  cases result with
  | error reason => cases hrun
  | ok found =>
    cases hrun
    exact ⟨rfl, rfl⟩

theorem startCursor_ok (hrun : startCursor path flags store = .ok cursor next) :
  next = store ∧ StartsAt store cursor flags := by
  unfold startCursor at hrun
  rw [get_bind_run] at hrun
  obtain ⟨fresh, mid, hopen, rest⟩ := bind_ok hrun
  obtain ⟨opened, rfl⟩ := orErrno_ok hopen
  obtain ⟨obj, resolve, -, rfl⟩ := openCursor_ok opened
  have hattrs : mid.cursorAttrs ⟨obj.objectId, 0⟩ = .ok obj.attrs :=
    cursorAttrs_of_find (resolvePath_find resolve)
  by_cases append : hasFlag flags linuxOAppend
  · rw [if_pos append] at rest
    obtain ⟨attrs, last, hpath, seek⟩ := bind_ok rest
    obtain ⟨found, rfl⟩ := orErrno_ok hpath
    obtain ⟨moved, rfl⟩ := orErrno_ok seek
    have size : attrs = obj.attrs := by
      unfold FxfsState.attrs at found
      rw [resolve] at found
      exact (Except.ok.inj found).symm
    rw [seekCursor_ok moved]
    refine ⟨rfl, obj.attrs, hattrs, ?_⟩
    rw [if_pos append, size]
  · rw [if_neg append] at rest
    cases rest
    exact ⟨rfl, obj.attrs, hattrs, (if_neg append).symm⟩

theorem linuxPrepareFxfsCursor_ok {execPath}
  (hrun : linuxPrepareFxfsCursor path objectType flags execPath memory store =
    .ok (some cursor) next) :
  objectType = .linuxFile ∧ StartsAt next cursor flags ∧
    prepareFxfsFile path flags execPath memory store = .ok true next := by
  unfold linuxPrepareFxfsCursor at hrun
  by_cases file : objectType = .linuxFile
  · rw [if_neg (not_not.mpr file)] at hrun
    obtain ⟨present, mid, prepare, rest⟩ := bind_ok hrun
    cases present with
    | false => cases rest
    | true =>
      obtain ⟨found, start, hfound⟩ := map_run_ok rest
      cases hfound
      obtain ⟨rfl, starts⟩ := startCursor_ok start
      exact ⟨file, starts, prepare⟩
  · rw [if_pos file] at hrun
    cases hrun

variable {change : FxfsObject → FxfsObject}
theorem findObject_modifyObject (hid : ∀ object, (change object).objectId = object.objectId)
  (objectId other) :
  (store.modifyObject objectId change).findObject other = (store.findObject other).map fun object =>
    if object.objectId = objectId then change object else object := by
  have kept : ∀ object : FxfsObject,
    (if object.objectId = objectId then change object else object).objectId =
      object.objectId := fun object => by
    by_cases same : object.objectId = objectId
    · rw [if_pos same, hid]
    · rw [if_neg same]
  unfold findObject modifyObject Counted.adjust
  rw [find?_map]
  simp only [Function.comp_def, kept]

theorem StartsAt.modifyObject (objectId) (starts : StartsAt store cursor flags)
  (hid : ∀ obj, (change obj).objectId = obj.objectId)
  (size : ∀ obj, (change obj).attrs.size = obj.attrs.size) :
  StartsAt (store.modifyObject objectId change) cursor flags := by
  obtain ⟨attrs, hattrs, offset⟩ := starts
  obtain ⟨found, hfound, rfl⟩ := cursorAttrs_ok hattrs
  have changed : (store.modifyObject objectId change).findObject cursor.objectId =
    some (if found.objectId = objectId then change found else found) := by
    rw [findObject_modifyObject hid, hfound]
    rfl
  refine ⟨_, cursorAttrs_of_find changed, offset.trans ?_⟩
  by_cases same : found.objectId = objectId
  · rw [if_pos same, size]
  · rw [if_neg same]

/-- New attributes leave the size of every file. -/
theorem applyAttributes_ok {creds : LinuxProcessResources}
  (hrun : linuxApplyCreationAttributes creds path mode store = .ok () next)
  (starts : StartsAt store cursor flags) : StartsAt next cursor flags := by
  unfold linuxApplyCreationAttributes at hrun
  rw [get_bind_run] at hrun
  obtain ⟨attrs, mid, hattrs, rest⟩ := bind_ok hrun
  obtain ⟨-, rfl⟩ := orErrno_ok hattrs
  obtain ⟨changed, last, hset, hdone⟩ := bind_ok rest
  obtain ⟨hchanged, rfl⟩ := orErrno_ok hset
  cases hdone
  unfold setAttrs at hchanged
  generalize last.resolvePath path = found at hchanged
  cases found with
  | error reason => cases hchanged
  | ok obj =>
    cases hchanged
    exact starts.modifyObject _ (fun _ => rfl) fun _ => rfl

/-! ## A description of its own -/

variable {sys before : System} {pid handle fd flags : Nat} {execPath : Option Path}
  {above cloexec : Bool}
/-- The store may change and the new file has a cursor. -/
theorem leads_prepareFile (well : WellFormed ⟨sys, []⟩) :
  Leads above (prepareFile pid path flags mode execPath memory) ⟨sys, []⟩
    fun cursor after => ∃ fxfs,
      after = ⟨{ sys with files := { sys.files with fxfs := fxfs } }, []⟩ ∧
        ∀ start, cursor = some start →
          openObjectType flags = .linuxFile ∧ StartsAt fxfs start flags := by
  unfold prepareFile
  refine leads_get_bind (.bind well leads_onFxfs ?_)
  rintro cursor mid hmid ⟨store, prepare, rfl⟩
  have starts : ∀ start, cursor = some start →
    openObjectType flags = .linuxFile ∧ StartsAt store start flags := by
    rintro start rfl
    obtain ⟨file, hstart, -⟩ := linuxPrepareFxfsCursor_ok prepare
    exact ⟨file, hstart⟩
  dsimp only
  by_cases create : openObjectType flags = .linuxFile ∧ ¬ sys.files.fxfs.contains path ∧
    hasFlag flags linuxOCreat
  · rw [if_pos create]
    refine .bind hmid leads_onFxfs ?_
    rintro _ last - ⟨changed, attrs, rfl⟩
    refine leads_pure ⟨changed, rfl, fun start hcursor => ?_⟩
    obtain ⟨file, hstart⟩ := starts start hcursor
    exact ⟨file, applyAttributes_ok attrs hstart⟩
  · rw [if_neg create]
    exact leads_pure ⟨store, rfl, starts⟩

/-- A new descriptor with a description of its own. -/
structure OpenedFile (before after : System) (pid fd : Nat) (path : Path) (flags : Nat) :
  Prop where
  entry : after.entryOf pid fd =
    some ⟨fd, before.files.table.nextOpenDescriptionId, hasFlag flags linuxOCloexec⟩
  description : after.files.table.openDescription before.files.table.nextOpenDescriptionId =
    some ⟨before.files.table.nextOpenDescriptionId, before.files.compat.nextHandle,
      openObjectType flags, openStatusFlags flags, 0, 1⟩
  others : ∀ id, id ≠ before.files.table.nextOpenDescriptionId →
    after.files.table.openDescription id = before.files.table.openDescription id
  files : after.files.fxfsFiles = before.files.fxfsFiles ∨
    openObjectType flags = .linuxFile ∧ ∃ cursor, StartsAt after.files.fxfs cursor flags ∧
      after.files.fxfsFiles =
        before.files.fxfsFiles ++ [⟨before.files.compat.nextHandle, cursor, path⟩]
  number : compatFdStart ≤ fd

theorem bindLinuxFxfsFile_new {files : OpenFiles} (hnew : handle ∉ files.fxfsFiles.map (·.handle)) :
  files.bindLinuxFxfsFile handle path cursor =
    { files with fxfsFiles := files.fxfsFiles ++ [⟨handle, cursor, path⟩] } := by
  unfold OpenFiles.bindLinuxFxfsFile OpenFiles.linuxFxfsFile
  have hnone : files.fxfsFiles.find? (·.handle = handle) = none :=
    find?_eq_none.mpr fun file hfile => by
      have hne : file.handle ≠ handle := fun same => hnew (same ▸ mem_map_of_mem hfile)
      simpa using hne
  rw [hnone]
  rfl

theorem Opened.getFd (opened : Opened before sys pid fd handle objectType flags cloexec) :
  sys.getFd pid fd = some (.of fd cloexec
    (addReference (Shaped.created before.files handle objectType flags))) := by
  rw [System.getFd_eq, opened.entry, Option.bind_some, opened.description]
  rfl

theorem leads_bindOpened (well : WellFormed ⟨sys, []⟩)
  (opened : Opened before sys pid fd handle .linuxFile (openStatusFlags flags)
    (hasFlag flags linuxOCloexec)) (hnew : handle ∉ sys.files.fxfsFiles.map (·.handle)) :
  Leads above (bindOpened pid fd handle path cursor) ⟨sys, []⟩ fun answer after =>
    answer = fd ∧ after.pending = [] ∧ after.system.files.table = sys.files.table ∧
      after.system.resources = sys.resources ∧ after.system.files.fxfs = sys.files.fxfs ∧
      after.system.files.fxfsFiles = sys.files.fxfsFiles ++ [⟨handle, cursor, path⟩] := by
  obtain ⟨hmem, -⟩ := (openDesc_iff well.shaped.indexed).mp opened.description
  have bound : Chain above ⟨sys, []⟩
    ⟨{ sys with files := sys.files.bindLinuxFxfsFile handle path cursor }, []⟩ :=
    .of_effect (.bound (.inl ⟨_, hmem, rfl, rfl⟩))
  unfold bindOpened
  refine .bind well (leads_files_modify [] bound) ?_
  rintro _ mid hmid rfl
  dsimp only at hmid ⊢
  rw [bindLinuxFxfsFile_new hnew] at hmid ⊢
  split
  · refine leads_get_bind (.bind hmid leads_orThrow ?_)
    rintro record last hlast ⟨hget, rfl⟩
    have found : sys.getFd pid fd = some record := hget
    rw [opened.getFd] at found
    cases found
    refine .bind hlast (leads_files_modify [] (.of_effect (.cached ?_))) ?_
    · exact ⟨_, hmem, rfl, rfl, rfl⟩
    · rintro _ final - rfl
      exact leads_pure ⟨rfl, rfl, rfl, rfl, rfl, rfl⟩
  · exact leads_pure ⟨rfl, rfl, rfl, rfl, rfl, rfl⟩

theorem openObjectType_ne_sharedMemory (flags) : openObjectType flags ≠ .sharedMemory := by
  unfold openObjectType
  split
  · decide
  · decide

theorem leads_openFresh (well : WellFormed ⟨sys, []⟩) :
  Leads above (openFresh pid path flags mode execPath memory) ⟨sys, []⟩ fun fd after =>
    after.pending = [] ∧ OpenedFile sys after.system pid fd path flags := by
  unfold openFresh
  refine .bind well (leads_prepareFile well) ?_
  rintro cursor mid hmid ⟨fxfs, rfl, hcursor⟩
  refine .bind hmid (leads_createObject hmid) ?_
  rintro handle created hcreated ⟨compat, rfl, rfl, htype⟩
  refine .bind hcreated
    (leads_allocFdWithFlags hcreated htype (openObjectType_ne_sharedMemory flags)) ?_
  rintro fd ⟨opened, pending⟩ well' ⟨hpend, hopened⟩
  cases hpend
  cases cursor with
  | none =>
    exact leads_pure ⟨rfl, hopened.entry, hopened.description, hopened.others,
      .inl hopened.fxfsFiles, hopened.fd_ge⟩
  | some start =>
    obtain ⟨file, starts⟩ := hcursor start rfl
    obtain ⟨-, -, unbound⟩ := hcreated.shaped.undescribed _ (mem_cons_self ..)
    have hnew : sys.files.compat.nextHandle ∉ opened.files.fxfsFiles.map (·.handle) := by
      rw [hopened.fxfsFiles]
      exact unbound
    have openedFile := hopened
    rw [file] at openedFile
    refine (leads_bindOpened well' openedFile hnew).mono ?_
    rintro answer ⟨after, left⟩ ⟨rfl, rfl, table, res, hfxfs, files⟩
    dsimp only at table res hfxfs files
    refine ⟨rfl, ?_, ?_, ?_, .inr ⟨file, start, ?_, ?_⟩, hopened.fd_ge⟩
    · rw [System.entryOf_congr res]
      exact hopened.entry
    · rw [table]
      exact hopened.description
    · rw [table]
      exact hopened.others
    · rw [hfxfs, hopened.fxfs]
      exact starts
    · rw [files, hopened.fxfsFiles]

/-! ## The description of an earlier open -/

variable {dirfd : Nat} {cached : LinuxShmCachedHandle}
theorem cachedHandle_some (hcached : cachedHandle sys path = some cached) :
  cached ∈ sys.files.shmCachedHandles ∧ cached.path = path ∧ isShmPath path := by
  unfold cachedHandle at hcached
  by_cases hshm : isShmPath path
  · rw [if_pos hshm] at hcached
    exact ⟨mem_of_find?_eq_some hcached, by simpa using find?_some hcached, hshm⟩
  · rw [if_neg hshm] at hcached
    cases hcached

/-- A new number for the cached description, whose file gets the cached cursor. -/
def sharedOpen (system : System) (pid fd : Nat) (path : Path) (flags : Nat)
  (cached : LinuxShmCachedHandle) : System :=
  let pushed := system.pushFd pid fd cached.descriptionId (hasFlag flags linuxOCloexec)
  { pushed with files := pushed.files.bindLinuxFxfsFile cached.handle path cached.cursor }

theorem acquireIgnored_cached (sys : System) (id) :
  (sys.acquireIgnored id).files.shmCachedHandles = sys.files.shmCachedHandles ∧
    (sys.acquireIgnored id).files.fxfsFiles = sys.files.fxfsFiles := by
  unfold System.acquireIgnored OpenFiles.acquireOpenDescription
  cases sys.files.table.acquireOpenDescription id with
  | none => exact ⟨rfl, rfl⟩
  | some table => exact ⟨rfl, rfl⟩

theorem leads_openCached (well : WellFormed ⟨sys, []⟩)
  (hcached : cached ∈ sys.files.shmCachedHandles) :
  Leads above (openCached pid path flags cached) ⟨sys, []⟩ fun fd after =>
    after = ⟨sharedOpen sys pid fd path flags cached, []⟩ ∧ fd ∉ sys.usedFds pid := by
  unfold openCached
  refine .bind well (leads_allocFdFor (.inr ⟨cached, hcached, rfl⟩)) ?_
  rintro fd mid hmid ⟨rfl, free⟩
  have still : cached ∈ (sys.pushFd pid fd cached.descriptionId
    (hasFlag flags linuxOCloexec)).files.shmCachedHandles := by
    change cached ∈ (sys.acquireIgnored cached.descriptionId).files.shmCachedHandles
    rw [(acquireIgnored_cached sys _).1]
    exact hcached
  refine .bind hmid (leads_files_modify [] (.of_effect (.bound (.inr ⟨cached, still, rfl⟩)))) ?_
  rintro _ last - rfl
  exact leads_pure ⟨rfl, free⟩

/-- What a successful open leaves, by whether the path was in the cache. -/
inductive OpenResult (before : System) (pid fd : Nat) (path : Path) (flags : Nat) :
  System → Prop where
  | own {after : System} (uncached : cachedHandle before path = none)
      (opened : OpenedFile before after pid fd path flags) :
      OpenResult before pid fd path flags after
  | shares {cached : LinuxShmCachedHandle} {store : FxfsState}
      (found : cachedHandle before path = some cached) (free : fd ∉ before.usedFds pid) :
      OpenResult before pid fd path flags
        (sharedOpen { before with files := { before.files with fxfs := store } } pid fd path flags
          cached)

theorem leads_sysOpenat (well : WellFormed ⟨sys, []⟩) :
  Leads above (sysOpenat pid dirfd path flags mode execPath memory) ⟨sys, []⟩ fun fd after =>
    after.pending = [] ∧ openRefused sys pid dirfd path flags = none ∧
      OpenResult sys pid fd path flags after.system := by
  unfold sysOpenat
  refine leads_get_bind (.bind well leads_check ?_)
  rintro _ mid - ⟨accepted, rfl⟩
  cases hcached : cachedHandle sys path with
  | none =>
    refine .bind well leads_check ?_
    rintro _ mid - ⟨-, rfl⟩
    refine (leads_openFresh well).mono ?_
    rintro fd after ⟨pending, opened⟩
    exact ⟨pending, accepted, .own hcached opened⟩
  | some cached =>
    refine .bind well leads_onFxfs ?_
    rintro _ truncated htruncated ⟨store, -, rfl⟩
    refine leads_get_bind (.bind htruncated leads_check ?_)
    rintro _ mid - ⟨-, rfl⟩
    refine (leads_openCached htruncated (cachedHandle_some hcached).1).mono ?_
    rintro fd after ⟨rfl, free⟩
    exact ⟨rfl, accepted, .shares hcached free⟩

end Smros.Files
