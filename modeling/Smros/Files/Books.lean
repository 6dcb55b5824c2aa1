import Smros.Files.Tables

/-!
# Who holds what

The books of the open descriptions: an account for each description, the
objects that are alive, the shared memory records, and the names in use.  A
handle in the last list is alive without a description: it is about to get one
or to be closed.  Lists are taken up to permutation.
-/

namespace Smros.Files
open Lib List Counted

/-- What the books have about a description. -/
structure Account where
  id : Nat
  handle : Nat
  objectType : ObjectType
  references : Nat
  deriving DecidableEq

def LinuxOpenDescription.account (description : LinuxOpenDescription) : Account :=
  ⟨description.id, description.handle, description.objectType, description.references⟩

/-- The handles and counts that shared memory records have to show. -/
def sharedAccounts (accounts : List Account) : List (Nat × Nat) :=
  (accounts.filter (·.objectType = .sharedMemory)).map fun account =>
    (account.handle, account.references)

structure Books (accounts : List Account) (handles : List Nat)
  (shared : List LinuxSharedMemoryRecord) (fds objects pending : List Nat) : Prop where
  balanced : Counted.Balanced Account.id Account.references accounts (fds ++ objects)
  live : (pending ++ accounts.map (·.handle)).Perm handles
  distinct : handles.Nodup
  fdKinds : ∀ account ∈ accounts, account.id ∈ fds → account.objectType ≠ .sharedMemory
  objectKinds : ∀ account ∈ accounts, account.id ∈ objects → account.objectType ≠ .linuxFile
  sharedIds : (shared.map (·.id)).Nodup
  sharedCounts : (shared.map fun record => (record.handle, record.references)).Perm
    (sharedAccounts accounts)

namespace Books
variable {accounts others : List Account} {account : Account}
  {handles fds objects pending handles' fds' objects' pending' names' : List Nat}
  {shared : List LinuxSharedMemoryRecord} {handle name id : Nat}
theorem nil : Books [] [] [] [] [] [] where
  balanced := ⟨nodup_nil, fun _ hmem => (by cases hmem), fun _ => .rfl⟩
  live := .nil
  distinct := nodup_nil
  fdKinds _ hmem := by cases hmem
  objectKinds _ hmem := by cases hmem
  sharedIds := nodup_nil
  sharedCounts := .nil

theorem perm {accounts'} (books : Books accounts handles shared fds objects pending)
  (haccounts : accounts.Perm accounts') (hhandles : handles.Perm handles') (hfds : fds.Perm fds')
  (hobjs : objects.Perm objects') (hpend : pending.Perm pending') :
  Books accounts' handles' shared fds' objects' pending' where
  balanced := books.balanced.perm haccounts (hfds.append hobjs)
  live := ((hpend.append (haccounts.map _)).symm.trans books.live).trans hhandles
  distinct := hhandles.nodup_iff.mp books.distinct
  fdKinds account hmem name :=
    books.fdKinds account (haccounts.mem_iff.mpr hmem) (hfds.mem_iff.mpr name)
  objectKinds account hmem name :=
    books.objectKinds account (haccounts.mem_iff.mpr hmem) (hobjs.mem_iff.mpr name)
  sharedIds := books.sharedIds
  sharedCounts := books.sharedCounts.trans ((haccounts.filter _).map _)

variable {shared' : List LinuxSharedMemoryRecord}
section
variable (books : Books accounts handles shared fds objects pending)
include books
theorem names (hfds : fds.Perm fds') (hobjs : objects.Perm objects') :
  Books accounts handles shared fds' objects' pending :=
  books.perm (.refl _) (.refl _) hfds hobjs (.refl _)

theorem accountHandles : (accounts.map (·.handle)).Nodup :=
  (books.live.nodup_iff.mpr books.distinct).of_append_right

end

/-! ## Shared memory -/

theorem sharedAccounts_cons_shared (kind : account.objectType = .sharedMemory) :
  sharedAccounts (account :: others) =
    (account.handle, account.references) :: sharedAccounts others := by
  unfold sharedAccounts
  rw [filter_cons_of_pos (by simpa using kind), map_cons]

theorem sharedAccounts_cons_other (kind : account.objectType ≠ .sharedMemory) :
  sharedAccounts (account :: others) = sharedAccounts others := by
  unfold sharedAccounts
  rw [filter_cons_of_neg (by simpa using kind)]

variable {kind objectType : ObjectType}
/-- Names that are added for the first account are all of its kind. -/
theorem kinds_cons {names : List Nat} (first : account.id ∈ names → account.objectType ≠ kind)
  (rest : ∀ other ∈ others, other.id ∈ names → other.objectType ≠ kind)
  (apart : ∀ other ∈ others, other.id ≠ account.id)
  (hnames : ∀ name ∈ names', name ∈ names ∨ name = account.id ∧ account.objectType ≠ kind) :
  ∀ other ∈ account :: others, other.id ∈ names' → other.objectType ≠ kind := by
  intro other hmem hname
  rcases mem_cons.mp hmem with rfl | later
  · rcases hnames _ hname with hold | ⟨-, kind⟩
    · exact first hold
    · exact kind
  · rcases hnames _ hname with hold | ⟨same, -⟩
    · exact rest other later hold
    · exact absurd same (apart other later)

section
variable (books : Books (account :: others) handles shared fds objects pending)
include books
/-- The record of a shared memory account. -/
theorem exists_record (kind : account.objectType = .sharedMemory) :
  ∃ record ∈ shared, record.handle = account.handle := by
  have hmem : (account.handle, account.references) ∈
    shared.map fun record => (record.handle, record.references) := by
    rw [books.sharedCounts.mem_iff, sharedAccounts_cons_shared kind]
    exact mem_cons_self ..
  obtain ⟨record, hrec, same⟩ := mem_map.mp hmem
  exact ⟨record, hrec, congrArg Prod.fst same⟩

/-- A record belongs to the account with its handle and shows its count; the
other records show the other accounts. -/
theorem record_of_handle (kind : account.objectType = .sharedMemory) {rec}
  (hrec : rec ∈ shared) (handle : rec.handle = account.handle) :
  rec.references = account.references ∧
    ∃ rest, (∀ change, (adjust (·.id) rec.id change shared).Perm (change rec :: rest)) ∧
      (without (·.id) rec.id shared).Perm rest ∧
      (rest.map fun rec => (rec.handle, rec.references)).Perm (sharedAccounts others) := by
  have count : rec.references = account.references := by
    have hmem : (rec.handle, rec.references) ∈ sharedAccounts (account :: others) :=
      books.sharedCounts.mem_iff.mp (mem_map.mpr ⟨rec, hrec, rfl⟩)
    obtain ⟨owner, howner, same⟩ := mem_map.mp hmem
    have mine : owner = account :=
      inj_on_of_nodup_map books.accountHandles (mem_filter.mp howner).1
        (mem_cons_self ..) ((congrArg Prod.fst same).trans handle)
    rw [← mine]
    exact (congrArg Prod.snd same).symm
  obtain ⟨rest, perm, hadjust, hwithout⟩ := perm_around books.sharedIds hrec
  refine ⟨count, rest, hadjust, hwithout, ?_⟩
  have hall := (perm.map fun rec => (rec.handle, rec.references)).symm.trans books.sharedCounts
  rw [map_cons, sharedAccounts_cons_shared kind, handle, count] at hall
  exact hall.cons_inv

/-! ## References -/

/-- One account is changed in its count. -/
theorem change (refs) (hbalanced : Balanced Account.id Account.references
  ({ account with references := refs } :: others) (fds' ++ objects'))
  (hfds : ∀ name ∈ fds', name ∈ fds ∨ name = account.id ∧ account.objectType ≠ .sharedMemory)
  (hobjs : ∀ name ∈ objects', name ∈ objects ∨ name = account.id ∧ account.objectType ≠ .linuxFile)
  (hids : (shared'.map (·.id)).Nodup)
  (counts : (shared'.map fun record => (record.handle, record.references)).Perm
    (sharedAccounts ({ account with references := refs } :: others))) :
  Books ({ account with references := refs } :: others) handles shared' fds' objects' pending where
  balanced := hbalanced
  live := books.live
  distinct := books.distinct
  fdKinds := kinds_cons (books.fdKinds account (mem_cons_self ..))
    (fun other later => books.fdKinds other (mem_cons_of_mem _ later))
    (fun _ => books.balanced.key_ne) hfds
  objectKinds := kinds_cons (books.objectKinds account (mem_cons_self ..))
    (fun other later => books.objectKinds other (mem_cons_of_mem _ later))
    (fun _ => books.balanced.key_ne) hobjs
  sharedIds := hids
  sharedCounts := counts

/-- One account goes, and its object is alive without a description. -/
theorem drop (hbalanced : Balanced Account.id Account.references others (fds' ++ objects'))
  (hfds : fds' ⊆ fds) (hobjs : objects' ⊆ objects) (hids : (shared'.map (·.id)).Nodup)
  (counts : (shared'.map fun record => (record.handle, record.references)).Perm
    (sharedAccounts others)) :
  Books others handles shared' fds' objects' (account.handle :: pending) where
  balanced := hbalanced
  live := by
    refine .trans ?_ books.live
    rw [map_cons]
    exact perm_middle.symm
  distinct := books.distinct
  fdKinds other hmem name := books.fdKinds other (mem_cons_of_mem _ hmem) (hfds name)
  objectKinds other hmem name := books.objectKinds other (mem_cons_of_mem _ hmem) (hobjs name)
  sharedIds := hids
  sharedCounts := counts

end

/-- An object without a description gets its account. -/
theorem add (books : Books accounts handles shared fds objects (account.handle :: pending))
  (hbalanced : Balanced Account.id Account.references (account :: accounts) (fds' ++ objects'))
  (hfds : ∀ name ∈ fds', name ∈ fds ∨ name = account.id ∧ account.objectType ≠ .sharedMemory)
  (hobjs : ∀ name ∈ objects', name ∈ objects ∨ name = account.id ∧ account.objectType ≠ .linuxFile)
  (fresh : account.id ∉ fds ++ objects) (hids : (shared'.map (·.id)).Nodup)
  (counts : (shared'.map fun record => (record.handle, record.references)).Perm
    (sharedAccounts (account :: accounts))) :
  Books (account :: accounts) handles shared' fds' objects' pending where
  balanced := hbalanced
  live := by
    rw [map_cons]
    exact perm_middle.trans books.live
  distinct := books.distinct
  fdKinds := kinds_cons (fun hold => absurd (mem_append_left _ hold) fresh) books.fdKinds
    (fun _ => hbalanced.key_ne) hfds
  objectKinds := kinds_cons (fun hold => absurd (mem_append_right _ hold) fresh) books.objectKinds
    (fun _ => hbalanced.key_ne) hobjs
  sharedIds := hids
  sharedCounts := counts

/-- The counts of shared memory do not change with another account. -/
theorem sharedCounts_other (books : Books (account :: others) handles shared fds objects pending)
  (kind : account.objectType ≠ .sharedMemory) :
  (shared.map fun record => (record.handle, record.references)).Perm (sharedAccounts others) := by
  have same := books.sharedCounts
  rw [sharedAccounts_cons_other kind] at same
  exact same

theorem mem_cons_cases {names kind} (hkind : kind) (hname : name ∈ id :: names) :
  name ∈ names ∨ name = id ∧ kind := by
  rcases mem_cons.mp hname with rfl | hold
  · exact .inr ⟨rfl, hkind⟩
  · exact .inl hold

/-- Another reference by a descriptor. -/
theorem acquireFd (books : Books (account :: others) handles shared fds objects pending)
  (kind : account.objectType ≠ .sharedMemory) :
  Books ({ account with references := account.references + 1 } :: others) handles shared
    (account.id :: fds) objects pending := by
  refine books.change _ (books.balanced.acquire rfl rfl) (fun _ => mem_cons_cases kind)
    (fun _ => .inl) books.sharedIds ?_
  rw [sharedAccounts_cons_other]
  · exact books.sharedCounts_other kind
  · exact kind

section
variable (books : Books (account :: others) handles shared (account.id :: fds) objects pending)
include books
theorem fd_kind : account.objectType ≠ .sharedMemory :=
  books.fdKinds account (mem_cons_self ..) (mem_cons_self ..)

/-- A descriptor gives up a reference that is not the last one. -/
theorem releaseFd (more : account.id ∈ fds ++ objects) :
  Books ({ account with references := account.references - 1 } :: others) handles shared fds
    objects pending := by
  refine books.change _ (books.balanced.release more rfl rfl)
    (fun _ name => .inl (mem_cons_of_mem _ name)) (fun _ => .inl) books.sharedIds ?_
  rw [sharedAccounts_cons_other]
  · exact books.sharedCounts_other books.fd_kind
  · exact books.fd_kind

theorem releaseFd_last (last : account.id ∉ fds ++ objects) :
  Books others handles shared fds objects (account.handle :: pending) :=
  books.drop (books.balanced.release_last last) (subset_cons_self ..) (Subset.refl _)
    books.sharedIds (books.sharedCounts_other books.fd_kind)

end

/-- A new description with its first descriptor. -/
theorem openFd (books : Books accounts handles shared fds objects (handle :: pending))
  (kind : objectType ≠ .sharedMemory) (fresh : id ∉ accounts.map (·.id)) :
  Books (⟨id, handle, objectType, 1⟩ :: accounts) handles shared (id :: fds) objects pending := by
  have unnamed : id ∉ fds ++ objects := fun name => fresh ((books.balanced.named id).mp name)
  refine Books.add books (books.balanced.create fresh rfl) (fun _ => mem_cons_cases kind)
    (fun _ => .inl) unnamed books.sharedIds ?_
  rw [sharedAccounts_cons_other]
  · exact books.sharedCounts
  · exact kind

theorem balanced_object
  (balanced : Balanced Account.id Account.references accounts (id :: (fds ++ objects))) :
  Balanced Account.id Account.references accounts (fds ++ id :: objects) :=
  balanced.perm (.refl _) perm_middle.symm

theorem object_balanced (books : Books accounts handles shared fds (account.id :: objects) pending)
  : Balanced Account.id Account.references accounts (account.id :: (fds ++ objects)) :=
  books.balanced.perm (.refl _) perm_middle

/-- Another reference by a list of objects. -/
theorem acquireObject (books : Books (account :: others) handles shared fds objects pending)
  (name : account.id ∈ objects) (kind : account.objectType ≠ .sharedMemory) :
  Books ({ account with references := account.references + 1 } :: others) handles shared fds
    (account.id :: objects) pending := by
  have file := books.objectKinds account (mem_cons_self ..) name
  refine books.change _ (balanced_object (books.balanced.acquire rfl rfl)) (fun _ => Or.inl)
    (fun _ => mem_cons_cases file) books.sharedIds ?_
  rw [sharedAccounts_cons_other]
  · exact books.sharedCounts_other kind
  · exact kind

section
variable (books : Books (account :: others) handles shared fds (account.id :: objects) pending)
include books
theorem releaseObject (kind : account.objectType ≠ .sharedMemory)
  (more : account.id ∈ fds ++ objects) :
  Books ({ account with references := account.references - 1 } :: others) handles shared fds
    objects pending := by
  refine books.change _ (books.object_balanced.release more rfl rfl) (fun _ => .inl)
    (fun _ name => .inl (mem_cons_of_mem _ name)) books.sharedIds ?_
  rw [sharedAccounts_cons_other]
  · exact books.sharedCounts_other kind
  · exact kind

theorem releaseObject_last (kind : account.objectType ≠ .sharedMemory)
  (last : account.id ∉ fds ++ objects) :
  Books others handles shared fds objects (account.handle :: pending) :=
  books.drop (books.object_balanced.release_last last) (Subset.refl _)
    (subset_cons_self ..) books.sharedIds (books.sharedCounts_other kind)

end

theorem openObject (books : Books accounts handles shared fds objects (handle :: pending))
  (kind : objectType ≠ .sharedMemory) (file : objectType ≠ .linuxFile)
  (fresh : id ∉ accounts.map (·.id)) :
  Books (⟨id, handle, objectType, 1⟩ :: accounts) handles shared fds (id :: objects) pending := by
  have unnamed : id ∉ fds ++ objects := fun name => fresh ((books.balanced.named id).mp name)
  refine Books.add books (balanced_object (books.balanced.create fresh rfl)) (fun _ => Or.inl)
    (fun _ => mem_cons_cases file) unnamed books.sharedIds ?_
  rw [sharedAccounts_cons_other]
  · exact books.sharedCounts
  · exact kind

variable {record : LinuxSharedMemoryRecord}
theorem sharedIds_adjust {change} (books : Books accounts handles shared fds objects pending)
  (hid : ∀ rec, (change rec).id = rec.id) :
  ((adjust (·.id) id change shared).map (·.id)).Nodup := by
  rw [map_adjust hid]
  exact books.sharedIds

/-- Another reference to shared memory, in the description and in the record. -/
theorem acquireShared (books : Books (account :: others) handles shared fds objects pending)
  (name : account.id ∈ objects) (kind : account.objectType = .sharedMemory)
  (hrec : record ∈ shared) (handle : record.handle = account.handle) :
  Books ({ account with references := account.references + 1 } :: others) handles
    (adjust (·.id) record.id
      (fun record => { record with references := record.references + 1 }) shared)
    fds (account.id :: objects) pending := by
  have file := books.objectKinds account (mem_cons_self ..) name
  obtain ⟨count, rest, hadjust, -, hrest⟩ := books.record_of_handle kind hrec handle
  refine books.change _ (balanced_object (books.balanced.acquire rfl rfl)) (fun _ => Or.inl)
    (fun _ => mem_cons_cases file) (books.sharedIds_adjust fun _ => rfl) ?_
  refine ((hadjust _).map _).trans ?_
  rw [map_cons, sharedAccounts_cons_shared, handle, count]
  · exact hrest.cons _
  · exact kind

section
variable (books : Books (account :: others) handles shared fds (account.id :: objects) pending)
include books
theorem releaseShared (kind : account.objectType = .sharedMemory)
  (more : account.id ∈ fds ++ objects) (hrec : record ∈ shared)
  (handle : record.handle = account.handle) :
  Books ({ account with references := account.references - 1 } :: others) handles
    (adjust (·.id) record.id
      (fun record => { record with references := record.references - 1 }) shared)
    fds objects pending := by
  obtain ⟨count, rest, hadjust, -, hrest⟩ := books.record_of_handle kind hrec handle
  refine books.change _ (books.object_balanced.release more rfl rfl) (fun _ => .inl)
    (fun _ name => .inl (mem_cons_of_mem _ name)) (books.sharedIds_adjust fun _ => rfl) ?_
  refine ((hadjust _).map _).trans ?_
  rw [map_cons, sharedAccounts_cons_shared, handle, count]
  · exact hrest.cons _
  · exact kind

theorem releaseShared_last (kind : account.objectType = .sharedMemory)
  (last : account.id ∉ fds ++ objects) (hrec : record ∈ shared)
  (handle : record.handle = account.handle) :
  Books others handles (without (·.id) record.id shared) fds objects
    (account.handle :: pending) := by
  obtain ⟨-, rest, -, hwithout, hrest⟩ := books.record_of_handle kind hrec handle
  refine books.drop (books.object_balanced.release_last last) (Subset.refl _)
    (subset_cons_self ..) (books.sharedIds.sublist (filter_sublist.map _)) ?_
  exact (hwithout.map _).trans hrest

end

/-- A new shared memory object with its record. -/
theorem openShared (books : Books accounts handles shared fds objects (handle :: pending))
  (fresh : id ∉ accounts.map (·.id)) (hnew : record.id ∉ shared.map (·.id))
  (hhandle : record.handle = handle) (hone : record.references = 1) :
  Books (⟨id, handle, .sharedMemory, 1⟩ :: accounts) handles (shared ++ [record]) fds
    (id :: objects) pending := by
  have unnamed : id ∉ fds ++ objects := fun name => fresh ((books.balanced.named id).mp name)
  refine Books.add books (balanced_object (books.balanced.create fresh rfl)) (fun _ => Or.inl)
    (fun _ => mem_cons_cases ObjectType.noConfusion) unnamed ?_ ?_
  · rw [map_append, map_singleton, nodup_append_comm, singleton_append]
    exact nodup_cons.mpr ⟨hnew, books.sharedIds⟩
  · rw [sharedAccounts_cons_shared rfl, map_append, map_singleton, hhandle, hone]
    exact (perm_append_singleton _ _).trans (books.sharedCounts.cons _)

/-! ## Objects -/

theorem createObject (books : Books accounts handles shared fds objects pending)
  (hnew : handle ∉ handles) :
  Books accounts (handles ++ [handle]) shared fds objects (handle :: pending) :=
  { books with
    live := (books.live.cons handle).trans (perm_append_singleton _ _).symm
    distinct := by
      rw [nodup_append_comm, singleton_append]
      exact nodup_cons.mpr ⟨hnew, books.distinct⟩ }

variable (books : Books accounts handles shared fds objects (handle :: pending))
include books
/-- An object without a description goes. -/
theorem closeObject : Books accounts (handles.filter (· ≠ handle)) shared fds objects pending :=
  { books with
    live := by
      have nodup := books.live.nodup_iff.mpr books.distinct
      rw [cons_append] at nodup
      have kept := books.live.filter (· ≠ handle)
      rw [cons_append, filter_cons_of_neg (by simp)] at kept
      refine (Perm.of_eq (filter_eq_self.mpr fun other hother => ?_).symm).trans kept
      refine decide_eq_true fun same => ?_
      exact (nodup_cons.mp nodup).1 (same ▸ hother)
    distinct := books.distinct.filter _ }

/-- No record belongs to an object without a description. -/
theorem pending_unshared : shared.filter (·.handle ≠ handle) = shared := by
  refine filter_eq_self.mpr fun rec hrec => decide_eq_true fun same => ?_
  have hmem : (rec.handle, rec.references) ∈ sharedAccounts accounts :=
    books.sharedCounts.mem_iff.mp (mem_map.mpr ⟨rec, hrec, rfl⟩)
  obtain ⟨owner, howner, pair⟩ := mem_map.mp hmem
  have hhandle : owner.handle = handle := (congrArg Prod.fst pair).trans same
  have nodup := books.live.nodup_iff.mpr books.distinct
  rw [cons_append] at nodup
  refine (nodup_cons.mp nodup).1 (mem_append_right _ ?_)
  exact hhandle ▸ mem_map_of_mem (mem_filter.mp howner).1

end Books
end Smros.Files
