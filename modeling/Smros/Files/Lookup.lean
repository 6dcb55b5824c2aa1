import Smros.Files.Effects

/-!
# What a descriptor number stands for after a step

The record of a number depends on the table entry and on the description it
names; a step changes the records it has to and leaves the others.
-/

namespace Smros.Files
open Lib LinuxOpenDescriptions List Option Counted Nat
variable {fd fuel start : Nat} {used : List Nat}
theorem searchFd_some (search : searchFd used fuel start = some fd) :
  fd ∉ used ∧ start ≤ fd ∧ ∀ number, start ≤ number → number < fd → number ∈ used := by
  induction fuel generalizing start with
  | zero => cases search
  | succ fuel ih =>
    unfold searchFd at search
    by_cases hused : start ∈ used
    · rw [if_pos hused] at search
      split at search
      · cases search
      obtain ⟨free, hle, below⟩ := ih search
      refine ⟨free, le_of_succ_le hle, fun number least less => ?_⟩
      rcases eq_or_lt_of_le least with rfl | later
      · exact hused
      · exact below number later less
    · rw [if_neg hused] at search
      cases search
      exact ⟨hused, le_refl _, fun _ least less => absurd less (not_lt_of_ge least)⟩

variable {other id pid : Nat} {sys : System}
namespace System
variable {minFd otherPid otherFd : Nat}
theorem freeFd_some (free : sys.freeFd pid minFd = some fd) :
  fd ∉ sys.usedFds pid ∧ compatFdStart ≤ fd := by
  obtain ⟨hnew, hle, -⟩ := searchFd_some free
  refine ⟨hnew, le_trans ?_ hle⟩
  cases sys.processResources pid with
  | none => exact le_max_right _ _
  | some res => exact le_max_right _ _

theorem freeFd_eq (sys : System) (pid minFd) : sys.freeFd pid minFd = searchFd (sys.usedFds pid)
    ((sys.usedFds pid).length + 1) (max (sys.hint pid) (max minFd compatFdStart)) := by
  unfold freeFd hint
  cases sys.processResources pid with
  | none => simp
  | some res => simp [max_assoc]

/-- The number that the search finds, where none that is free is below the number asked for. -/
theorem placed_of_free (free : sys.freeFd pid minFd = some fd)
    (first : ∀ number < minFd, max (sys.hint pid) compatFdStart ≤ number →
      number ∈ sys.usedFds pid) : Placed sys pid fd fun _ => followingFd fd := by
  rw [freeFd_eq] at free
  obtain ⟨-, -, below⟩ := searchFd_some free
  refine .inr ⟨rfl, fun number hless hleast => ?_⟩
  by_cases early : number < minFd
  · exact first number early hleast
  · exact below number (by omega) hless

theorem placed_free (free : sys.freeFd pid 0 = some fd) :
    Placed sys pid fd fun _ => followingFd fd :=
  placed_of_free free nofun

variable {change : LinuxProcessResources → LinuxProcessResources}
  (hpid : ∀ resources, (change resources).pid = resources.pid)
section
include hpid
theorem processResources_mut_self : (sys.processResourcesMut pid change).processResources pid =
    some (change ((sys.processResources pid).getD (.new pid))) := by
  unfold processResourcesMut
  cases hfind : sys.processResources pid with
  | none =>
    have hnone := processResources_none hfind
    have hnew : (change (.new pid)).pid = pid := hpid _
    unfold processResources
    rw [if_neg (by simp), find?_append, find?_eq_none.mpr (by simpa using hnone)]
    simp [hnew]
  | some res =>
    unfold processResources at hfind ⊢
    rw [if_pos (by simp), find?_adjust_self hpid, hfind]
    rfl

theorem processResources_mut_ne (hne : other ≠ pid) :
  (sys.processResourcesMut pid change).processResources other = sys.processResources other := by
  unfold processResourcesMut
  cases hfind : sys.processResources pid with
  | none =>
    have hnew : (change (.new pid)).pid = pid := hpid _
    unfold processResources
    rw [if_neg (by simp), find?_append]
    simp [hnew, Ne.symm hne]
  | some res =>
    unfold processResources
    rw [if_pos (by simp), find?_adjust_ne hpid hne]

end

/-- The entry of a number in the table of a process. -/
def entryOf (system : System) (pid fd : Nat) : Option LinuxDescriptorEntry :=
  (system.processResources pid).bind fun resources => resources.descriptors.find? (·.fd = fd)

theorem getFd_eq (sys : System) (pid fd) :
  sys.getFd pid fd = (sys.entryOf pid fd).bind fun entry =>
    (sys.files.table.openDescription entry.descriptionId).map (.of fd entry.closeOnExec) := by
  unfold getFd entryOf
  rw [bind_assoc]
  refine congrArg _ (funext fun res => congrArg _ (funext fun entry => ?_))
  rw [map_eq_bind]
  rfl

variable {entry : LinuxDescriptorEntry}
theorem named_of_entryOf (hentry : sys.entryOf pid fd = some entry) :
  Named sys entry.descriptionId := by
  obtain ⟨res, hres, find⟩ := bind_eq_some_iff.mp hentry
  obtain ⟨hmem, -⟩ := processResources_some hres
  exact ⟨res, hmem, entry, mem_of_find?_eq_some find, rfl⟩

/-- The entry and the description of a number in use. -/
theorem getFd_entryOf {rec} (hget : sys.getFd pid fd = some rec) :
  ∃ entry desc, sys.entryOf pid fd = some entry ∧
    sys.files.table.openDescription entry.descriptionId = some desc ∧
    rec = .of fd entry.closeOnExec desc := by
  rw [getFd_eq] at hget
  obtain ⟨entry, hentry, rest⟩ := bind_eq_some_iff.mp hget
  obtain ⟨desc, hopen, hrec⟩ := map_eq_some_iff.mp rest
  exact ⟨entry, desc, hentry, hopen, hrec.symm⟩

theorem entryOf_congr {other : System} (res : other.resources = sys.resources) :
  other.entryOf pid fd = sys.entryOf pid fd := by
  unfold entryOf processResources
  rw [res]

theorem not_used_iff : fd ∉ sys.usedFds pid ↔ sys.entryOf pid fd = none := by
  unfold usedFds entryOf
  cases sys.processResources pid with
  | none => simp
  | some res => simp

theorem getFd_of_free (free : fd ∉ sys.usedFds pid) : sys.getFd pid fd = none := by
  rw [getFd_eq, not_used_iff.mp free]
  rfl

section
include hpid
/-- The entries of a process follow its table. -/
theorem entryOf_mut_self : (sys.processResourcesMut pid change).entryOf pid fd =
    (change ((sys.processResources pid).getD (.new pid))).descriptors.find? (·.fd = fd) := by
  unfold entryOf
  rw [processResources_mut_self hpid]
  rfl

theorem entryOf_mut_ne (hne : other ≠ pid) :
  (sys.processResourcesMut pid change).entryOf other fd = sys.entryOf other fd := by
  unfold entryOf
  rw [processResources_mut_ne hpid hne]

end

/-- The table of a process, empty where it has none yet. -/
theorem entryOf_getD :
  ((sys.processResources pid).getD (.new pid)).descriptors.find? (·.fd = fd) =
    sys.entryOf pid fd := by
  unfold entryOf
  cases sys.processResources pid with
  | none => rfl
  | some res => rfl

variable {hint : Nat → Nat}
theorem entryOf_addEntry_self (free : entry.fd ∉ sys.usedFds pid) :
  (sys.addEntry pid entry hint).entryOf pid entry.fd = some entry := by
  unfold addEntry
  rw [entryOf_mut_self, find?_append, entryOf_getD, not_used_iff.mp free]
  · simp
  · exact fun _ => rfl

theorem entryOf_withoutEntry_self : (withoutEntry sys pid entry).entryOf pid entry.fd = none := by
  unfold withoutEntry
  rw [entryOf_mut_self]
  · refine find?_eq_none.mpr fun other hother => ?_
    simpa using (mem_without.mp hother).2
  · exact fun _ => rfl

theorem entryOf_withoutEntry_ne (hne : otherPid ≠ pid ∨ otherFd ≠ entry.fd) :
  (withoutEntry sys pid entry).entryOf otherPid otherFd = sys.entryOf otherPid otherFd := by
  by_cases hpid : otherPid = pid
  · subst hpid
    have hfd : otherFd ≠ entry.fd := hne.resolve_left fun hno => hno rfl
    unfold withoutEntry
    rw [entryOf_mut_self, find?_without_ne hfd, entryOf_getD]
    exact fun _ => rfl
  · exact entryOf_mut_ne (fun _ => rfl) hpid

/-- Closing a number leaves the entries of the others. -/
theorem entryOf_closed_ne (hne : otherPid ≠ pid ∨ otherFd ≠ fd) :
  (closeLinuxFd sys pid fd).2.entryOf otherPid otherFd = sys.entryOf otherPid otherFd := by
  cases hget : sys.getFd pid fd with
  | none => rw [closeFd_of_none hget]
  | some rec =>
    obtain ⟨res, entry, -, -, rfl, close⟩ := closeFd_of_getFd hget
    rw [close]
    exact entryOf_withoutEntry_ne hne

end System

/-! ## Descriptions -/

variable {desc : LinuxOpenDescription} {files : OpenFiles} {handle flags : Nat}
  {table : LinuxOpenDescriptions}
/-- The description under an identifier after a change in place. -/
theorem openDesc_mut_self (indexed : table.Indexed) {change}
  (hid : ∀ desc, (change desc).id = desc.id) (hopen : table.openDescription id = some desc) :
  (table.openDescriptionMut id change).openDescription id = some (change desc) := by
  obtain ⟨hmem, rfl⟩ := (openDesc_iff indexed).mp hopen
  refine (openDesc_iff (openDescMut_indexed indexed hid)).mpr ⟨?_, hid _⟩
  rw [openDescMut_eq indexed]
  exact mem_adjust.mpr ⟨desc, hmem, (if_pos rfl).symm⟩

theorem openDesc_mut_ne (indexed : table.Indexed) {change}
  (hid : ∀ desc, (change desc).id = desc.id) (hne : other ≠ id) :
  (table.openDescriptionMut id change).openDescription other = table.openDescription other := by
  refine ext fun desc => ?_
  rw [openDesc_iff (openDescMut_indexed indexed hid), openDesc_iff indexed,
    openDescMut_eq indexed, mem_adjust]
  constructor
  · rintro ⟨⟨old, hold, rfl⟩, same⟩
    by_cases changed : old.id = id
    · rw [if_pos changed, hid] at same
      exact absurd (same.symm.trans changed) hne
    · rw [if_neg changed] at same ⊢
      exact ⟨hold, same⟩
  · rintro ⟨hmem, rfl⟩
    exact ⟨⟨desc, hmem, (if_neg hne).symm⟩, rfl⟩

variable {pend : List Nat} {objectType : ObjectType}
/-- The description that has just been created. -/
theorem openDesc_create_self (shaped : Shaped files (handle :: pend)) :
  (files.createOpenDescription handle objectType flags).2.table.openDescription
    files.table.nextOpenDescriptionId =
    some (Shaped.created files handle objectType flags) := by
  have indexed : (files.createOpenDescription handle objectType flags).2.table.Indexed :=
    shaped.describe.indexed
  refine (openDesc_iff indexed).mpr ⟨?_, rfl⟩
  exact mem_append_right _ (mem_singleton_self _)

theorem openDesc_create_ne (shaped : Shaped files (handle :: pend))
  (hne : id ≠ files.table.nextOpenDescriptionId) :
  (files.createOpenDescription handle objectType flags).2.table.openDescription id =
    files.table.openDescription id := by
  have indexed : (files.createOpenDescription handle objectType flags).2.table.Indexed :=
    shaped.describe.indexed
  refine ext fun desc => ?_
  rw [openDesc_iff indexed, openDesc_iff shaped.indexed]
  constructor
  · rintro ⟨hmem, rfl⟩
    rcases mem_append.mp hmem with hold | hnew
    · exact ⟨hold, rfl⟩
    · exact absurd (congrArg LinuxOpenDescription.id (mem_singleton.mp hnew)) hne
  · rintro ⟨hmem, hid⟩
    exact ⟨mem_append_left _ hmem, hid⟩

/-- An object has one description. -/
theorem descOfHandle_of_mem (shaped : Shaped files pend) (hmem : desc ∈ files.table.descriptions) :
  files.descriptionOfHandle desc.handle = some desc.id := by
  have hfind := find?_of_nodup_map shaped.handles hmem
  unfold OpenFiles.descriptionOfHandle
  rw [show (fun other : LinuxOpenDescription => decide (other.handle = desc.handle)) =
    fun other => other.handle == desc.handle from rfl, hfind]
  rfl

/-- Taking a reference on a description that is there. -/
theorem acquireIgnored_of_open (hopen : sys.files.table.openDescription id = some desc) :
  sys.acquireIgnored id =
    { sys with
      files :=
        { sys.files with
          table := sys.files.table.openDescriptionMut id addReference } } := by
  unfold System.acquireIgnored OpenFiles.acquireOpenDescription acquireOpenDescription
  rw [hopen]
  rfl

theorem aliased_files_of_open {entry hint}
  (hopen : sys.files.table.openDescription entry.descriptionId = some desc) :
  (aliased sys pid entry hint).files =
    { sys.files with
      table := sys.files.table.openDescriptionMut entry.descriptionId addReference } := by
  change (sys.acquireIgnored entry.descriptionId).files = _
  rw [acquireIgnored_of_open hopen]

end Smros.Files
