import Smros.Lib.Counted
import Smros.Lib.Positions

/-!
# Open file descriptions

The descriptions stand in a vector in no particular order, and a second vector
gives the position of each identifier.  Removing a description moves the last
one into its place, so its entry of the second vector moves along.
-/

namespace Smros.Files
open Lib List

/-- The kinds of objects that the modelled calls create. -/
inductive ObjectType where
  | port
  | sharedMemory
  | messageQueue
  | eventFd
  | memFd
  | linuxFile
  | linuxPipe
  | linuxDir
  deriving DecidableEq

/-- Each reference is a table entry in memory, so the counter of the source, a
`usize`, cannot overflow; it is a number here. -/
structure LinuxOpenDescription where
  id : Nat
  handle : Nat
  objectType : ObjectType
  statusFlags : Nat
  offset : Nat
  references : Nat
  deriving DecidableEq

/-- The position `usize::MAX`, which stands for a free identifier, is `none`. -/
structure LinuxOpenDescriptions where
  descriptions : List LinuxOpenDescription
  indices : List (Option Nat)
  nextOpenDescriptionId : Nat
  deriving DecidableEq

namespace LinuxOpenDescriptions
def empty : LinuxOpenDescriptions where
  descriptions := []
  indices := []
  nextOpenDescriptionId := 1

variable (table : LinuxOpenDescriptions)
/-- The position and the description of an identifier. -/
def find (id : Nat) : Option (Nat × LinuxOpenDescription) := do
  let index ← table.indices[id]?.join
  let description ← table.descriptions[index]?
  if description.id = id then some (index, description) else none

def openDescription (id : Nat) : Option LinuxOpenDescription := (table.find id).map Prod.snd

/-- What `open_description_mut` is used for: change one description in place. -/
def openDescriptionMut (table : LinuxOpenDescriptions) (id : Nat)
  (change : LinuxOpenDescription → LinuxOpenDescription) : LinuxOpenDescriptions :=
  match table.find id with
  | some (index, description) =>
    { table with descriptions := table.descriptions.set index (change description) }
  | none => table

/-- `checked_add(1).unwrap_or(1)` on `u32`. -/
def followingId (id : Nat) : Nat :=
  if id + 1 < 2 ^ 32 then id + 1 else 1

def createOpenDescription (handle : Nat)
  (objectType : ObjectType) (statusFlags : Nat) : Nat × LinuxOpenDescriptions :=
  let id := table.nextOpenDescriptionId
  let grown := table.indices ++ List.replicate (id + 1 - table.indices.length) none
  (id,
    { descriptions := table.descriptions ++ [⟨id, handle, objectType, statusFlags, 0, 0⟩]
      indices := grown.set id (some table.descriptions.length)
      nextOpenDescriptionId := followingId id })

variable (description : LinuxOpenDescription)

def addReference : LinuxOpenDescription :=
  { description with references := description.references + 1 }

def dropReference : LinuxOpenDescription :=
  { description with references := description.references - 1 }

/-- `none` where the source returns `false`. -/
def acquireOpenDescription (id : Nat) : Option LinuxOpenDescriptions :=
  (table.openDescription id).map fun _ => table.openDescriptionMut id addReference

def releaseOpenDescription (table : LinuxOpenDescriptions) (id : Nat) :
  Option LinuxOpenDescription × LinuxOpenDescriptions :=
  match table.find id with
  | none => (none, table)
  | some (index, description) =>
    if description.references = 0 then
      (none, table)
    else if description.references = 1 then
      let rest := swapRemove table.descriptions index
      let vacated := table.indices.set id none
      -- the description that was last has moved to `index`
      let indices := match rest[index]? with
        | some moved => vacated.set moved.id (some index)
        | none => vacated
      (some (dropReference description), { table with descriptions := rest, indices := indices })
    else
      (none, table.openDescriptionMut id dropReference)

/-- The second vector is the exact inverse of the first. -/
abbrev Indexed : Prop := Inverse LinuxOpenDescription.id table.descriptions table.indices

variable {table description} {id index handle flags : Nat}
theorem find_some (hfind : table.find id = some (index, description)) :
  table.descriptions[index]? = some description ∧ description.id = id := by
  unfold find at hfind
  obtain ⟨pos, -, rest⟩ := Option.bind_eq_some_iff.mp hfind
  obtain ⟨found, hfound, same⟩ := Option.bind_eq_some_iff.mp rest
  by_cases hid : found.id = id
  · rw [if_pos hid] at same
    cases same
    exact ⟨hfound, hid⟩
  · rw [if_neg hid] at same
    cases same

section
variable (indexed : table.Indexed)
include indexed
theorem find_of_getElem? (hdesc : table.descriptions[index]? = some description) :
  table.find description.id = some (index, description) := by
  unfold find
  rw [indexed.getElem? hdesc]
  simp [hdesc]

theorem find_of_mem (hmem : description ∈ table.descriptions) :
  ∃ index, table.find description.id = some (index, description) ∧
    table.descriptions[index]? = some description := by
  obtain ⟨index, hidx⟩ := getElem?_of_mem hmem
  exact ⟨index, find_of_getElem? indexed hidx, hidx⟩

theorem openDesc_iff : table.openDescription id = some description ↔
    description ∈ table.descriptions ∧ description.id = id := by
  constructor
  · intro hopen
    obtain ⟨⟨idx, found⟩, find, rfl⟩ := Option.map_eq_some_iff.mp hopen
    obtain ⟨hdesc, hid⟩ := find_some find
    exact ⟨mem_of_getElem? hdesc, hid⟩
  · rintro ⟨hmem, rfl⟩
    obtain ⟨idx, find, -⟩ := find_of_mem indexed hmem
    rw [openDescription, find]
    rfl

end

variable {change : LinuxOpenDescription → LinuxOpenDescription}
/-- A change in place is a change of the description with the identifier. -/
theorem openDescMut_eq (indexed : table.Indexed) : table.openDescriptionMut id change =
    { table with descriptions := Counted.adjust (·.id) id change table.descriptions } := by
  unfold openDescriptionMut
  cases find : table.find id with
  | none =>
    have hnone : ∀ desc ∈ table.descriptions, desc.id ≠ id := by
      rintro desc hmem rfl
      obtain ⟨idx, hsome, -⟩ := find_of_mem indexed hmem
      rw [find] at hsome
      cases hsome
    rw [Counted.adjust_eq_self hnone]
  | some place =>
    obtain ⟨idx, desc⟩ := place
    obtain ⟨hdesc, hid⟩ := find_some find
    refine congrArg (fun changed => { table with descriptions := changed }) ?_
    refine ext_getElem? fun pos => ?_
    simp only [Counted.adjust, getElem?_map]
    by_cases hpos : idx = pos
    · subst hpos
      rw [List.getElem?_set_self (List.getElem?_eq_some_iff.mp hdesc).1, hdesc,
        Option.map_some, if_pos hid]
    rw [getElem?_set_ne hpos]
    cases hother : table.descriptions[pos]? with
    | none => rfl
    | some other =>
      have hne : other.id ≠ id := fun same =>
        hpos (indexed.index_unique hdesc hother (hid.trans same.symm))
      rw [Option.map_some, if_neg hne]

theorem openDescMut_indexed (indexed : table.Indexed) (same : ∀ desc, (change desc).id = desc.id) :
  (table.openDescriptionMut id change).Indexed := by
  rw [openDescMut_eq indexed]
  refine indexed.map fun desc => ?_
  split
  · exact same desc
  · rfl

theorem createDesc_indexed {objectType} (indexed : table.Indexed)
  (fresh : table.nextOpenDescriptionId ∉ table.descriptions.map (·.id)) :
  (table.createOpenDescription handle objectType flags).2.Indexed := by
  let created : LinuxOpenDescription :=
    ⟨table.nextOpenDescriptionId, handle, objectType, flags, 0, 0⟩
  have hcreated : created.id ∉ table.descriptions.map (·.id) := fresh
  exact indexed.append hcreated

/-- A reference that is not the last one is only counted down. -/
theorem releaseDesc_more (indexed : table.Indexed)
  (hmem : description ∈ table.descriptions) (count : 1 < description.references) :
  table.releaseOpenDescription description.id =
    (none, table.openDescriptionMut description.id dropReference) := by
  obtain ⟨idx, find, -⟩ := find_of_mem indexed hmem
  unfold releaseOpenDescription
  rw [find]
  simp only
  rw [if_neg (by omega), if_neg (by omega)]

/-- The last reference takes the description out. -/
theorem releaseDesc_last (indexed : table.Indexed)
  (hmem : description ∈ table.descriptions) (count : description.references = 1) :
  ∃ rest, table.releaseOpenDescription description.id = (some (dropReference description), rest) ∧
    rest.Indexed ∧ rest.nextOpenDescriptionId = table.nextOpenDescriptionId ∧
    rest.descriptions.Perm (Counted.without (·.id) description.id table.descriptions) := by
  obtain ⟨idx, find, hidx⟩ := find_of_mem indexed hmem
  have removed := indexed.swapRemove hidx
  unfold releaseOpenDescription
  rw [find]
  simp only
  rw [if_neg (by omega), if_pos count]
  refine ⟨_, rfl, ?_, rfl, ?_⟩
  · unfold Indexed
    simp only
    cases hmoved : (swapRemove table.descriptions idx)[idx]? with
    | none
    | some moved =>
      rw [hmoved] at removed
      exact removed
  obtain ⟨others, perm, -, hrest⟩ := perm_around hidx
  have nodup := (perm.map (·.id)).nodup_iff.mp indexed.nodup
  rw [map_cons] at nodup
  have hothers : others.filter (fun other => other.id ≠ description.id) = others :=
    filter_eq_self.mpr fun other hother =>
      decide_eq_true fun same => (nodup_cons.mp nodup).1 (same ▸ mem_map_of_mem hother)
  have without := perm.filter fun other => other.id ≠ description.id
  rw [filter_cons_of_neg (by simp), hothers] at without
  exact hrest.trans without.symm

end LinuxOpenDescriptions
end Smros.Files
