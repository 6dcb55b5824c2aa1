import Smros.Files.Sound

/-!
# Forks

A reservation takes a reference for every name of the parent and gives them
back in reverse order where it fails, which restores the files exactly.  A
clone is rolled back without closing objects, so the books are kept just where
every description that it names has another reference.
-/

namespace Smros.Files
open Lib Program LinuxOpenDescriptions List Counted OpenFiles

/-! ## Taking a reference and giving it back -/

theorem drop_add {table : LinuxOpenDescriptions} (indexed : table.Indexed) (id) :
  (table.openDescriptionMut id addReference).openDescriptionMut id dropReference = table := by
  have added : (table.openDescriptionMut id addReference).Indexed :=
    openDescMut_indexed indexed fun _ => rfl
  have back : adjust (·.id) id dropReference
    (adjust (·.id) id addReference table.descriptions) = table.descriptions :=
    adjust_adjust (fun _ => rfl) fun _ => rfl
  rw [openDescMut_eq added, openDescMut_eq indexed, back]

variable {files : OpenFiles} {id : Nat} {desc : LinuxOpenDescription}
namespace OpenFiles
/-- The files with one more reference to a description. -/
def acquired (files : OpenFiles) (id : Nat) : OpenFiles :=
  { files with table := files.table.openDescriptionMut id addReference }

theorem acquire_eq (hopen : files.table.openDescription id = some desc) :
  files.acquireOpenDescription id = some (files.acquired id) := by
  unfold acquireOpenDescription LinuxOpenDescriptions.acquireOpenDescription
  rw [hopen]
  rfl

theorem openDesc_acquired (indexed : files.table.Indexed)
  (hopen : files.table.openDescription id = some desc) :
  (files.acquired id).table.openDescription id = some (addReference desc) :=
  openDesc_mut_self indexed (fun _ => rfl) hopen

/-- A reference that was just taken is not the last one. -/
theorem release_acquired (indexed : files.table.Indexed)
  (hopen : files.table.openDescription id = some desc) (hpos : 0 < desc.references) :
  (files.acquired id).releaseOpenDescription id = (none, files) := by
  have added : (files.acquired id).table.Indexed := openDescMut_indexed indexed fun _ => rfl
  obtain ⟨hmem, hid⟩ := (openDesc_iff added).mp (openDesc_acquired indexed hopen)
  have release := releaseDesc_more added hmem (Nat.lt_add_of_pos_left hpos)
  have back : (files.acquired id).table.openDescriptionMut id dropReference = files.table :=
    drop_add indexed id
  rw [hid, back] at release
  unfold releaseOpenDescription
  rw [release]
  rfl

def addShared (record : LinuxSharedMemoryRecord) : LinuxSharedMemoryRecord :=
  { record with references := record.references + 1 }

/-- The files with one more reference to a shared memory record. -/
def acquiredShared (files : OpenFiles) (sharedId : Nat) : OpenFiles :=
  { files with sharedMemory := Counted.adjust (·.id) sharedId addShared files.sharedMemory }

variable {record : LinuxSharedMemoryRecord}
theorem acquireShared_eq (find : files.sharedMemory.find? (·.id = record.id) = some record) :
  files.acquireSharedMemoryReference record.id = some (files.acquiredShared record.id) := by
  unfold acquireSharedMemoryReference
  rw [find]
  rfl

theorem sharedMemoryId_acquiredShared (sharedId handle) :
  (files.acquiredShared sharedId).sharedMemoryId handle = files.sharedMemoryId handle := by
  have kept : ∀ rec : LinuxSharedMemoryRecord,
    (if rec.id = sharedId then addShared rec else rec).handle = rec.handle ∧
      (if rec.id = sharedId then addShared rec else rec).id = rec.id := by
    intro rec
    split <;> exact ⟨rfl, rfl⟩
  unfold sharedMemoryId acquiredShared adjust
  rw [find?_map, Option.map_map]
  simp only [Function.comp_def, kept]

theorem release_acquiredShared (hfind : files.sharedMemory.find? (·.id = record.id) = some record)
  (hpos : 0 < record.references) :
  (files.acquiredShared record.id).releaseSharedMemoryReference record.id = (none, files) := by
  have added : (files.acquiredShared record.id).sharedMemory.find? (·.id = record.id) =
    some (addShared record) := by
    refine Eq.trans ?_ (congrArg (Option.map addShared) hfind)
    exact find?_adjust_self fun _ => rfl
  have more : 1 < (addShared record).references := Nat.lt_add_of_pos_left hpos
  have back : adjust (·.id) record.id
    (fun record : LinuxSharedMemoryRecord => { record with references := record.references - 1 })
    (adjust (·.id) record.id addShared files.sharedMemory) = files.sharedMemory :=
    adjust_adjust (fun _ => rfl) fun _ => rfl
  refine (Accounts.releaseRecord_more added more).trans (congrArg (Prod.mk none) ?_)
  exact congrArg (fun shared => { files with sharedMemory := shared }) back

theorem release_acquiredEntry (indexed : files.table.Indexed)
  (hopen : files.table.openDescription id = some desc) (kind : desc.objectType ≠ .sharedMemory)
  (hpos : 0 < desc.references) : (files.acquired id).releaseObjectEntry id = (none, files) := by
  unfold releaseObjectEntry
  rw [openDesc_acquired indexed hopen, release_acquired indexed hopen hpos]
  exact if_neg kind

theorem release_acquiredSharedEntry (indexed : files.table.Indexed)
  (hopen : files.table.openDescription id = some desc) (kind : desc.objectType = .sharedMemory)
  (hpos : 0 < desc.references) (found : files.sharedMemoryId desc.handle = some record.id)
  (find : files.sharedMemory.find? (·.id = record.id) = some record)
  (hrec : 0 < record.references) :
  ((files.acquired id).acquiredShared record.id).releaseObjectEntry id = (none, files) := by
  have release : ((files.acquired id).acquiredShared record.id).releaseOpenDescription id =
    (none, files.acquiredShared record.id) := by
    have shared : (files.acquiredShared record.id).table.openDescription id = some desc := hopen
    have same : (files.acquiredShared record.id).table.Indexed := indexed
    exact release_acquired same shared hpos
  have there : ((files.acquired id).acquiredShared record.id).table.openDescription id =
    some (addReference desc) := openDesc_acquired indexed hopen
  unfold releaseObjectEntry
  rw [there, release]
  dsimp only
  have same : (files.acquiredShared record.id).sharedMemoryId (addReference desc).handle =
    some record.id := (sharedMemoryId_acquiredShared record.id desc.handle).trans found
  have shared : (addReference desc).objectType = .sharedMemory := kind
  rw [if_pos shared, same]
  exact release_acquiredShared find hrec

end OpenFiles

/-! ## Reserving -/

variable {failpoints : List Bool} {fds objects pending : List Nat}
  {descs : List LinuxDescriptorEntry}
section
variable {base before : OpenFiles} {held : List Nat} {rest : List LinuxDescriptorEntry}
theorem rollback_object (release : files.releaseObjectEntry id = (none, before))
  (hbefore : before.rollbackForkResourceClone descs held = (true, base)) :
  files.rollbackForkResourceClone descs (held ++ [id]) = (true, base) := by
  unfold rollbackForkResourceClone at hbefore ⊢
  rw [reverse_append, reverse_singleton, singleton_append, rollbackObjects, release]
  exact hbefore

theorem rollback_descriptor {entry}
  (release : files.releaseOpenDescription entry.descriptionId = (none, before))
  (hbefore : before.rollbackForkResourceClone descs [] = (true, base)) :
  files.rollbackForkResourceClone (descs ++ [entry]) [] = (true, base) := by
  unfold rollbackForkResourceClone at hbefore ⊢
  rw [reverse_append, reverse_singleton, singleton_append, reverse_nil, rollbackObjects]
  dsimp only
  rw [rollbackDescriptors, release]
  exact hbefore

/-- What a reservation in progress holds: giving it all back leads to `base`. -/
structure Reserving (base : OpenFiles) (fds objects pending : List Nat)
  (descriptors : List LinuxDescriptorEntry) (held : List Nat) (files : OpenFiles) : Prop where
  restores : files.rollbackForkResourceClone descriptors held = (true, base)
  accounts : Accounts files (descriptors.map (·.descriptionId) ++ fds) (held ++ objects) pending
  shaped : Shaped files pending

/-- A reservation that fails has changed nothing. -/
def Refused (base : OpenFiles) (reason : Failure) (files : OpenFiles) : Prop :=
  reason = .errno .enomem ∧ files = base

theorem Reserving.start (hshaped : Shaped base pending)
  (accounts : Accounts base fds objects pending) : Reserving base fds objects pending [] [] base :=
  ⟨rfl, accounts, hshaped⟩

section
variable (hrestores : files.rollbackForkResourceClone descs held = (true, base))
include hrestores
theorem releaseReserved_run : releaseReservedForkResources descs held files = .ok () base := by
  unfold releaseReservedForkResources
  rw [get_bind_run, hrestores]
  rfl

theorem ends_abandon {Value : Type} {post : Value → OpenFiles → Prop}
  : Ends (abandonReservation descs held) files post (Refused base) := by
  unfold abandonReservation
  rw [ends_bind_of_ok (releaseReserved_run hrestores)]
  exact ends_throw.mpr ⟨rfl, rfl⟩

end

/-- Every name in use has a description with its references. -/
theorem Accounts.openNamed (indexed : files.table.Indexed)
  (accounts : Accounts files fds objects pending) (name : id ∈ fds ++ objects) :
  ∃ desc, files.table.openDescription id = some desc ∧ 0 < desc.references := by
  obtain ⟨desc, -, -, hopen, count, -⟩ := accounts.around indexed name
  refine ⟨desc, hopen, ?_⟩
  rw [count]
  exact count_pos_iff.mpr name

theorem ends_reserveDescriptors (reserving : Reserving base fds objects pending descs [] files)
  (names : ∀ entry ∈ rest, entry.descriptionId ∈ fds) :
  Ends (reserveDescriptors descs rest failpoints) files
    (fun _ => Reserving base fds objects pending (descs ++ rest) []) (Refused base) := by
  induction rest generalizing descs files failpoints with
  | nil =>
    rw [append_nil]
    exact ends_pure.mpr reserving
  | cons entry rest ih =>
    have indexed := reserving.shaped.indexed
    have hfd := names entry (mem_cons_self ..)
    have name : entry.descriptionId ∈ (descs.map (·.descriptionId) ++ fds) ++ ([] ++ objects) :=
      mem_append_left _ (mem_append_right _ hfd)
    obtain ⟨desc, hopen, hpos⟩ := reserving.accounts.openNamed indexed name
    have kind : desc.objectType ≠ .sharedMemory := by
      obtain ⟨hmem, hid⟩ := (openDesc_iff indexed).mp hopen
      refine reserving.accounts.books.fdKinds _ (mem_map_of_mem hmem) ?_
      change desc.id ∈ _
      rw [hid]
      exact mem_append_right _ hfd
    have acquired := reserving.accounts.acquireFd indexed name fun other hother => by
      cases hopen.symm.trans hother
      exact kind
    have hnext : Reserving base fds objects pending (descs ++ [entry]) []
      (files.acquired entry.descriptionId) := by
      constructor
      · exact rollback_descriptor (release_acquired indexed hopen hpos) reserving.restores
      · refine acquired.2.names ?_ (Perm.refl _)
        rw [map_append, append_assoc]
        exact perm_middle.symm
      · exact reserving.shaped.acquire (acquire_eq hopen)
    unfold reserveDescriptors
    rw [ends_get_bind, acquire_eq hopen]
    dsimp only
    rw [ends_set_bind]
    split
    · exact ends_abandon hnext.restores
    · rw [append_cons descs entry rest]
      exact ih hnext fun other hother => names other (mem_cons_of_mem _ hother)

variable (reserving : Reserving base fds objects pending descs held files)
include reserving
/-- The entry of a list of objects, with the record of shared memory. -/
theorem Reserving.acquireEntry (name : id ∈ objects)
  (hopen : files.table.openDescription id = some desc) (kind : desc.objectType ≠ .sharedMemory) :
  Reserving base fds objects pending descs (held ++ [id]) (files.acquired id) := by
  have indexed := reserving.shaped.indexed
  have hany : id ∈ (descs.map (·.descriptionId) ++ fds) ++ (held ++ objects) :=
    mem_append_right _ (mem_append_right _ name)
  obtain ⟨same, others, rfl, hsame, count, perm, hmut, -⟩ := reserving.accounts.around indexed hany
  cases hopen.symm.trans hsame
  have hpos : 0 < desc.references := count ▸ count_pos_iff.mpr hany
  constructor
  · exact rollback_object (release_acquiredEntry indexed hopen kind hpos) reserving.restores
  · have entry : Accounts (files.acquired desc.id)
      (descs.map (·.descriptionId) ++ fds) (desc.id :: (held ++ objects)) pending :=
      reserving.accounts.place perm (hmut addReference) rfl rfl rfl
        ((reserving.accounts.booksAround perm).acquireObject
          (mem_append_right _ name) kind) reserving.accounts.sharedBound
    refine entry.names (Perm.refl _) ?_
    rw [append_assoc]
    exact perm_middle.symm
  · exact reserving.shaped.acquire (acquire_eq hopen)

theorem Reserving.acquireSharedEntry (name : id ∈ objects)
  (hopen : files.table.openDescription id = some desc)
  (kind : desc.objectType = .sharedMemory) :
  ∃ record : LinuxSharedMemoryRecord, files.sharedMemoryId desc.handle = some record.id ∧
    files.sharedMemory.find? (·.id = record.id) = some record ∧ 0 < record.references ∧
    Reserving base fds objects pending descs (held ++ [id])
      ((files.acquired id).acquiredShared record.id) := by
  have indexed := reserving.shaped.indexed
  have hany : id ∈ (descs.map (·.descriptionId) ++ fds) ++ (held ++ objects) :=
    mem_append_right _ (mem_append_right _ name)
  obtain ⟨same, others, rfl, hsame, count, perm, hmut, -⟩ := reserving.accounts.around indexed hany
  cases hopen.symm.trans hsame
  have hpos : 0 < desc.references := count ▸ count_pos_iff.mpr hany
  obtain ⟨record, hmem, handle, found⟩ := reserving.accounts.sharedMemoryId_some perm kind
  have find := reserving.accounts.findShared hmem
  have hrec : 0 < record.references :=
    ((reserving.accounts.booksAround perm).record_of_handle kind hmem handle).1 ▸ hpos
  refine ⟨record, found, find, hrec, ?_, ?_, ?_⟩
  · exact rollback_object (release_acquiredSharedEntry indexed hopen kind hpos found find hrec)
      reserving.restores
  · have entry := reserving.accounts.acquireShared (mem_append_right held name) kind perm
      (hmut addReference) hmem handle
    refine entry.names (Perm.refl _) ?_
    rw [append_assoc]
    exact perm_middle.symm
  · exact (reserving.shaped.acquire (acquire_eq hopen)).setShared _ _

variable {failpoint : Bool}
theorem Reserving.ends_reserveSharedReference {record : LinuxSharedMemoryRecord}
  (hopen : files.table.openDescription id = some desc) (hpos : 0 < desc.references)
  (found : files.sharedMemoryId desc.handle = some record.id)
  (find : files.sharedMemory.find? (·.id = record.id) = some record)
  (hrec : 0 < record.references) :
  Ends (reserveSharedReference descs held id desc.handle failpoint)
    (files.acquired id) (fun _ next => next = (files.acquired id).acquiredShared record.id)
    (Refused base) := by
  have same : (files.acquired id).sharedMemoryId desc.handle = some record.id := found
  have there : (files.acquired id).sharedMemory.find? (·.id = record.id) = some record := find
  unfold reserveSharedReference
  rw [ends_get_bind, same]
  dsimp only
  rw [acquireShared_eq there]
  dsimp only
  by_cases fail : failpoint
  · rw [if_pos fail, ends_set_bind, release_acquiredShared there hrec,
      release_acquired reserving.shaped.indexed hopen hpos]
    exact ends_abandon reserving.restores
  · rw [if_neg fail]
    exact ends_set.mpr rfl

theorem ends_reserveObjects {rest : List Nat} (names : ∀ id ∈ rest, id ∈ objects) :
  Ends (reserveObjects descs held rest failpoints) files
    (fun _ => Reserving base fds objects pending descs (held ++ rest)) (Refused base) := by
  induction rest generalizing held files failpoints with
  | nil =>
    rw [append_nil]
    exact ends_pure.mpr reserving
  | cons id rest ih =>
    have indexed := reserving.shaped.indexed
    have name := names id (mem_cons_self ..)
    have hany : id ∈ (descs.map (·.descriptionId) ++ fds) ++ (held ++ objects) :=
      mem_append_right _ (mem_append_right _ name)
    obtain ⟨desc, hopen, hpos⟩ := reserving.accounts.openNamed indexed hany
    have hrest := fun other hother => names other (mem_cons_of_mem id hother)
    unfold reserveObjects
    rw [ends_get_bind, acquire_eq hopen]
    dsimp only
    rw [ends_set_bind]
    split
    · rw [ends_set_bind, release_acquired indexed hopen hpos]
      exact ends_abandon reserving.restores
    rw [openDesc_acquired indexed hopen]
    dsimp only
    split
    · rename_i kind
      obtain ⟨rec, found, find, hrec, hnext⟩ := reserving.acquireSharedEntry name hopen kind
      refine (reserving.ends_reserveSharedReference hopen hpos found find hrec).bind ?_
      rintro _ _ rfl
      rw [append_cons held id rest]
      exact ih hnext hrest
    · rename_i kind
      rw [append_cons held id rest]
      exact ih (reserving.acquireEntry name hopen kind) hrest

end

/-! ## The reservation of a fork -/

variable {system : System} {ppid : Nat} {parent child : LinuxProcessResources}
  {memory attachments : Bool}
/-- What a reservation takes is what the parent names. -/
theorem parent_names (sound : Sound ⟨system, pending⟩)
  (hparent : (system.processResources ppid).getD (.new ppid) = parent) :
  (∀ entry ∈ parent.descriptors, entry.descriptionId ∈ system.fdNames) ∧
    (∀ id ∈ parent.objects, id ∈ system.objectNames) ∧
    (parent.descriptors.map (·.fd)).Nodup := by
  cases find : system.processResources ppid with
  | none =>
    rw [find] at hparent
    subst hparent
    exact ⟨forall_mem_nil _, forall_mem_nil _, nodup_nil⟩
  | some res =>
    rw [find, Option.getD_some] at hparent
    subst hparent
    obtain ⟨hmem, -⟩ := System.processResources_some find
    refine ⟨fun entry hentry => ?_, fun id hid => ?_, sound.numbers res hmem⟩
    · exact mem_fdNames ⟨res, hmem, entry, hentry, rfl⟩
    · exact mem_append_left _ (mem_flatMap.mpr ⟨res, hmem, hid⟩)

variable {Value : Type} {prog : FilesM Value}
theorem onFiles_run_ok {value} (hrun : prog system.files = .ok value files) :
  onFiles prog system = .ok value { system with files := files } := by
  unfold onFiles zoom
  rw [hrun]

/-- A part of a call on the files, in the system around them. -/
theorem ends_onFiles {post fail} (ends : Ends prog system.files post fail) :
  Ends (onFiles prog) system
    (fun value next => ∃ files, post value files ∧ next = { system with files := files })
    (fun reason next => ∃ files, fail reason files ∧ next = { system with files := files }) :=
  ends_zoom.mpr (ends.mono (fun _ files hpost => ⟨files, hpost, rfl⟩)
    fun _ files hfail => ⟨files, hfail, rfl⟩)

/-- The system with one more reservation over changed files. -/
def System.reserved (system : System) (files : OpenFiles) (clone : LinuxResourceClone) : System :=
  { system with files := files, reservations := system.reservations ++ [clone] }

theorem ends_unchanged (base) {post} (ends : Ends prog system.files post (Refused base.files))
  (same : ∀ files, { system with files := files } = { base with files := files }) :
  Ends (onFiles prog) system
    (fun value next => ∃ files, post value files ∧ next = { base with files := files })
    (fun reason next => reason = .errno .enomem ∧ next = base) := by
  refine (ends_onFiles ends).mono ?_ ?_
  · rintro value _ ⟨files, hpost, rfl⟩
    exact ⟨files, hpost, same files⟩
  · rintro reason _ ⟨_, ⟨rfl, rfl⟩, rfl⟩
    exact ⟨rfl, same base.files⟩

/-- A reservation holds what its rollback gives back, or it has changed nothing. -/
theorem ends_reserveClone (sound : Sound ⟨system, pending⟩) :
  Ends (reserveResourceClone ppid failpoints memory attachments) system
    (fun _ next => ∃ clone files,
      Reserving system.files system.fdNames system.objectNames pending clone.descriptors
        clone.objects files ∧
      (clone.descriptors.map (·.fd)).Nodup ∧ next = system.reserved files clone)
    (fun reason next => reason = .errno .enomem ∧ next = system) := by
  unfold reserveResourceClone
  rw [ends_get_bind]
  split
  · exact ends_throw.mpr ⟨rfl, rfl⟩
  generalize hparent : (system.processResources ppid).getD (.new ppid) = parent
  obtain ⟨hfds, objects, nums⟩ := parent_names sound hparent
  have start := Reserving.start sound.wellFormed.shaped sound.accounts
  refine Ends.bind (ends_unchanged system (ends_reserveDescriptors start hfds) fun _ => rfl) ?_
  rintro left _ ⟨mid, hmid, rfl⟩
  refine Ends.bind (ends_unchanged system (ends_reserveObjects hmid objects) fun _ => rfl) ?_
  rintro _ _ ⟨files, hfiles, rfl⟩
  split
  · have released : onFiles (releaseReservedForkResources parent.descriptors parent.objects)
      { system with files := files } = .ok () system :=
      onFiles_run_ok (releaseReserved_run hfiles.restores)
    rw [ends_bind_of_ok released]
    exact ends_throw.mpr ⟨rfl, rfl⟩
  · rw [ends_modify_bind, ends_pure]
    exact ⟨_, files, hfiles, nums, rfl⟩

/-! ## The names of a clone -/

variable {clone : LinuxResourceClone}
theorem names_clone {base : System} (res : system.resources = base.resources)
  (perm : system.reservations.Perm (clone :: base.reservations)) :
  system.fdNames.Perm (clone.fdNames ++ base.fdNames) ∧
    system.objectNames.Perm (clone.objects ++ base.objectNames) := by
  have parts : ∀ (part : LinuxResourceClone → List Nat) (rest : List Nat),
    (rest ++ system.reservations.flatMap part).Perm
      (part clone ++ (rest ++ base.reservations.flatMap part)) := fun part rest => by
    have hsome := (perm.flatMap_right part).append_left rest
    rw [flatMap_cons] at hsome
    exact hsome.trans (perm_append_comm_assoc _ _ _)
  unfold System.fdNames System.objectNames
  rw [res]
  exact ⟨parts _ _, parts _ _⟩

theorem names_child (base : System) (res : system.resources = base.resources ++ [child])
  (resvs : system.reservations = base.reservations) :
  system.fdNames.Perm (child.fdNames ++ base.fdNames) ∧
    system.objectNames.Perm (child.objects ++ base.objectNames) := by
  have parts : ∀ (part : LinuxProcessResources → List Nat) (rest : List Nat),
    (system.resources.flatMap part ++ rest).Perm
      (part child ++ (base.resources.flatMap part ++ rest)) := fun part rest => by
    rw [res, flatMap_append, flatMap_singleton, append_assoc]
    exact perm_append_comm_assoc _ _ _
  unfold System.fdNames System.objectNames
  rw [resvs]
  exact ⟨parts _ _, parts _ _⟩

theorem Reserving.sound (sound : Sound ⟨system, pending⟩)
  (reserving : Reserving system.files system.fdNames system.objectNames pending
    clone.descriptors clone.objects files) (hnumbers : (clone.descriptors.map (·.fd)).Nodup) :
  Sound ⟨system.reserved files clone, pending⟩ where
  wellFormed := ⟨reserving.shaped, sound.wellFormed.pids⟩
  accounts := by
    have names : (system.reserved files clone).fdNames.Perm (clone.fdNames ++ system.fdNames) ∧
      (system.reserved files clone).objectNames.Perm (clone.objects ++ system.objectNames) :=
      names_clone rfl (perm_append_singleton _ _)
    exact reserving.accounts.names names.1.symm names.2.symm
  numbers := sound.numbers
  reserved := by
    intro other hother
    rcases mem_append.mp hother with hold | hnew
    · exact sound.reserved other hold
    · cases mem_singleton.mp hnew
      exact hnumbers

/-! ## Rolling back -/

variable {fdNames objectNames : List Nat}
section
variable (hshaped : Shaped files pending) {ids : List Nat}
include hshaped
theorem Accounts.rollbackObjects (accounts : Accounts files fds (ids ++ objects) pending)
  (named : ∀ id ∈ ids, id ∈ fds ++ objects) :
  ∃ next, files.rollbackObjects ids = (true, next) ∧ Shaped next pending ∧
    Accounts next fds objects pending := by
  induction ids generalizing files with
  | nil => exact ⟨files, rfl, hshaped, accounts⟩
  | cons id rest ih =>
    have kept := hshaped.releaseObjectEntry id
    have name : id ∈ fds ++ (rest ++ objects) := by
      have := named id (mem_cons_self ..)
      simp only [mem_append] at this ⊢
      tauto
    unfold rollbackObjects
    rcases accounts.releaseObject hshaped.indexed with
      ⟨-, next, release, hnext⟩ | ⟨gone, -⟩
    · rw [release] at kept ⊢
      obtain ⟨last, hlast, hrest⟩ :=
        ih kept hnext fun other hother => named other (mem_cons_of_mem _ hother)
      refine ⟨last, ?_, hrest⟩
      dsimp only
      rw [hlast]
      rfl
    · exact absurd name gone

theorem Accounts.rollbackDescriptors
  (accounts : Accounts files (descs.map (·.descriptionId) ++ fds) objects pending)
  (named : ∀ entry ∈ descs, entry.descriptionId ∈ fds ++ objects) :
  ∃ next, files.rollbackDescriptors descs = (true, next) ∧ Shaped next pending ∧
    Accounts next fds objects pending := by
  induction descs generalizing files with
  | nil => exact ⟨files, rfl, hshaped, accounts⟩
  | cons entry rest ih =>
    have kept := hshaped.release entry.descriptionId
    have name : entry.descriptionId ∈ (rest.map (·.descriptionId) ++ fds) ++ objects := by
      rw [append_assoc]
      exact mem_append_right _ (named entry (mem_cons_self ..))
    unfold rollbackDescriptors
    rcases accounts.releaseFd hshaped.indexed with
      ⟨-, next, release, hnext⟩ | ⟨gone, -⟩
    · rw [release] at kept ⊢
      obtain ⟨last, hlast, hrest⟩ :=
        ih kept hnext fun other hother => named other (mem_cons_of_mem _ hother)
      refine ⟨last, ?_, hrest⟩
      dsimp only
      rw [hlast]
      rfl
    · exact absurd name gone

/-- A clone goes whose names all stand elsewhere too. -/
theorem Accounts.rollbackClone
  (accounts : Accounts files (descs.map (·.descriptionId) ++ fds) (ids ++ objects) pending)
  (named : ∀ id ∈ descs.map (·.descriptionId) ++ ids, id ∈ fds ++ objects) :
  ∃ next, files.rollbackForkResourceClone descs ids = (true, next) ∧
    Shaped next pending ∧ Accounts next fds objects pending := by
  have reversed : Accounts files (descs.reverse.map (·.descriptionId) ++ fds)
    (ids.reverse ++ objects) pending :=
    accounts.names (((reverse_perm _).symm.map _).append_right _)
      ((reverse_perm _).symm.append_right _)
  obtain ⟨mid, hmid, kept, books⟩ := reversed.rollbackObjects hshaped fun id hid => by
    have := named id (mem_append_right _ (mem_reverse.mp hid))
    rw [append_assoc]
    exact mem_append_right _ this
  obtain ⟨last, hlast, rest⟩ := books.rollbackDescriptors kept fun entry hentry =>
    named _ (mem_append_left _ (mem_map_of_mem (mem_reverse.mp hentry)))
  refine ⟨last, ?_, rest⟩
  unfold rollbackForkResourceClone
  rw [hmid]
  dsimp only
  rw [hlast]
  rfl

end

/-- No description has all its references among these names. -/
def Spared (descriptions : List LinuxOpenDescription) (names : List Nat) : Prop :=
  ∀ description ∈ descriptions, description.id ∈ names →
    names.count description.id < description.references

instance (descriptions : List LinuxOpenDescription) (names : List Nat) :
  Decidable (Spared descriptions names) :=
  inferInstanceAs (Decidable (∀ description ∈ descriptions, _))

theorem Spared.named (accounts : Accounts files (fdNames ++ fds) (objectNames ++ objects) pending)
  (spared : Spared files.table.descriptions (fdNames ++ objectNames)) :
  ∀ id ∈ fdNames ++ objectNames, id ∈ fds ++ objects := by
  intro id hid
  have hany : id ∈ (fdNames ++ fds) ++ (objectNames ++ objects) := by
    simp only [mem_append] at hid ⊢
    tauto
  obtain ⟨account, haccount, rfl⟩ := accounts.books.balanced.exists_record hany
  obtain ⟨desc, hmem, rfl⟩ := mem_map.mp haccount
  have count := accounts.books.balanced.counts _ haccount
  have less := spared desc hmem hid
  apply count_pos_iff.mp
  change desc.references = _ at count
  change (fdNames ++ objectNames).count desc.id < _ at less
  simp only [count_append] at count less ⊢
  change _ = (fdNames.count desc.id + fds.count desc.id) +
    (objectNames.count desc.id + objects.count desc.id) at count
  change 0 < fds.count desc.id + objects.count desc.id
  omega

end Smros.Files
