import Smros.Lib.Runs
import Smros.Lib.SlotSearch
import Smros.Objects.Rights

/-!
# The handle table of a process

Handles are numbered by a counter, and values chosen elsewhere can be imported.  A handle
that is duplicated or replaced hands its object on with the same rights or fewer.
-/

namespace Smros.Objects
open Lib

def maxHandlesPerProcess : Nat := 1024

variable {Kind : Type}

structure HandleEntry (Kind : Type) where
  handle : Nat
  objType : Kind
  rights : Rights
  deriving DecidableEq

/-- An invalid entry is an empty slot; the counter is a word of 32 bits. -/
structure HandleTable (Kind : Type) where
  entries : List (Option (HandleEntry Kind))
  nextHandle : Nat

variable {idx : Nat} {entry : HandleEntry Kind}
namespace HandleTable
def new : HandleTable Kind := ⟨List.replicate maxHandlesPerProcess none, 1⟩

def add (table : HandleTable Kind) (objType : Kind) (rights : Rights) :
  Option Nat × HandleTable Kind :=
  if ¬ rightsAreValid rights then (none, table)
  else
    let counted := { table with nextHandle := (table.nextHandle + 1) % 2 ^ 32 }
    if ¬ handleIsValid table.nextHandle then (none, counted)
    else
      match fillFirst ⟨table.nextHandle, objType, rights⟩ table.entries with
      | none => (none, counted)
      | some filled => (some table.nextHandle, { counted with entries := filled })

variable (table : HandleTable Kind)
/-- The search of the lookups: the first valid entry with the value, and its slot. -/
def find (handle : Nat) : Option (Nat × HandleEntry Kind) :=
  firstEntry (fun entry => entry.handle == handle) table.entries

def getRights (handle : Nat) : Option Rights := (table.find handle).map fun found => found.2.rights

def contains (handle : Nat) : Bool := (table.getRights handle).isSome

def addExisting (table : HandleTable Kind) (handle : Nat) (objType : Kind) (rights : Rights) :
  Bool × HandleTable Kind :=
  if ¬ handleIsValid handle ∨ ¬ rightsAreValid rights ∨ table.contains handle then (false, table)
  else
    match fillFirst ⟨handle, objType, rights⟩ table.entries with
    | none => (false, table)
    | some filled => (true, { table with entries := filled })

def remove (table : HandleTable Kind) (handle : Nat) : Bool × HandleTable Kind :=
  match table.find handle with
  | none => (false, table)
  | some (index, _) => (true, { table with entries := table.entries.set index none })

def duplicate (handle : Nat) (rights : Rights) : Option Nat × HandleTable Kind :=
  match table.find handle with
  | none => (none, table)
  | some (_, entry) =>
    if ¬ duplicateRightsAllowed entry.rights rights then (none, table)
    else table.add entry.objType (grantedRights entry.rights rights)

def replace (handle : Nat) (rights : Rights) : Option Nat × HandleTable Kind :=
  match table.find handle with
  | none => (none, table)
  | some (_, entry) =>
    if ¬ replaceRightsAllowed entry.rights rights then (none, table)
    else
      match table.add entry.objType (grantedRights entry.rights rights) with
      | (none, added) => (none, added)
      | (some newHandle, added) =>
        match added.remove handle with
        | (true, removed) => (some newHandle, removed)
        | (false, _) => (none, (added.remove newHandle).2)

/-- The valid entries. -/
def live : List (HandleEntry Kind) := table.entries.reduceOption

variable {table} {handle : Nat}
/-- A refused handle may cost a value of the counter as well. -/
theorem add_cases (table : HandleTable Kind) (room : table.nextHandle + 1 < 2 ^ 32)
    (objType rights) :
    (∃ counted, table.add objType rights = (none, counted) ∧ counted.live = table.live ∧
      table.nextHandle ≤ counted.nextHandle) ∨
    ∃ added, table.add objType rights = (some table.nextHandle, added) ∧
      added.live.Perm (⟨table.nextHandle, objType, rights⟩ :: table.live) ∧
      table.nextHandle < added.nextHandle := by
  have counts : table.nextHandle < (table.nextHandle + 1) % 2 ^ 32 := by
    rw [Nat.mod_eq_of_lt room]
    exact Nat.lt_succ_self _
  unfold add
  split
  · exact .inl ⟨_, rfl, rfl, Nat.le_refl _⟩
  dsimp only
  split
  · exact .inl ⟨_, rfl, rfl, Nat.le_of_lt counts⟩
  cases fill : fillFirst ⟨table.nextHandle, objType, rights⟩ table.entries with
  | none => exact .inl ⟨_, rfl, rfl, Nat.le_of_lt counts⟩
  | some filled => exact .inr ⟨_, rfl, fillFirst_perm fill, counts⟩

theorem find_some (find : table.find handle = some (idx, entry)) :
  entry ∈ table.live ∧ entry.handle = handle := by
  obtain ⟨slot, same⟩ := firstEntry_some find
  exact ⟨List.reduceOption_mem_iff.mpr (List.mem_of_getElem? slot), beq_iff_eq.mp same⟩

theorem find_none : table.find handle = none ↔ ∀ entry ∈ table.live, entry.handle ≠ handle := by
  unfold find live
  rw [firstEntry_eq_none]
  simp only [beq_eq_false_iff_ne]

variable (table)
/-- A removal takes one entry of the value, where there is one. -/
theorem remove_cases (handle) :
    (table.remove handle = (false, table) ∧ ∀ entry ∈ table.live, entry.handle ≠ handle) ∨
    ∃ entry removed, table.remove handle = (true, removed) ∧
      removed.nextHandle = table.nextHandle ∧ table.live.Perm (entry :: removed.live) := by
  unfold remove
  cases find : table.find handle with
  | none => exact .inl ⟨rfl, find_none.mp find⟩
  | some found =>
    obtain ⟨idx, entry⟩ := found
    obtain ⟨slot, -⟩ := firstEntry_some find
    obtain ⟨others, before, after⟩ := reduceOption_set slot
    exact .inr ⟨entry, _, rfl, rfl, before.trans ((after none).symm.cons entry)⟩

theorem addExisting_cases (handle objType rights) :
    table.addExisting handle objType rights = (false, table) ∨
    ∃ added, table.addExisting handle objType rights = (true, added) ∧
      added.nextHandle = table.nextHandle ∧ (∀ entry ∈ table.live, entry.handle ≠ handle) ∧
      added.live.Perm (⟨handle, objType, rights⟩ :: table.live) := by
  unfold addExisting
  split
  · exact .inl rfl
  rename_i hopen
  have hnone : table.find handle = none := by
    simpa [contains, getRights] using fun found => hopen (.inr (.inr found))
  cases fill : fillFirst ⟨handle, objType, rights⟩ table.entries with
  | none => exact .inl rfl
  | some filled => exact .inr ⟨_, rfl, rfl, find_none.mp hnone, fillFirst_perm fill⟩

end HandleTable

/-! ## Chains of handles -/

inductive HandleCall (Kind : Type) where
  | add (objType : Kind) (rights : Rights)
  | addExisting (handle : Nat) (objType : Kind) (rights : Rights)
  | duplicate (handle : Nat) (rights : Rights)
  | replace (handle : Nat) (rights : Rights)
  | remove (handle : Nat)

/-- An imported value was given out by the counter before, and a call that takes a value from
the counter does not turn it over. -/
def HandleCall.Behind (nextHandle : Nat) : HandleCall Kind → Prop
  | .addExisting handle .. => handle < nextHandle
  | .remove _ => True
  | .add .. | .duplicate .. | .replace .. => nextHandle + 1 < 2 ^ 32

instance (nextHandle : Nat) (call : HandleCall Kind) : Decidable (call.Behind nextHandle) := by
  cases call <;> simp only [HandleCall.Behind] <;> infer_instance

/-- The table, and for each value the rights of the handles it was made from, one from the
other by duplication and replacement. -/
structure HandleHistory (Kind : Type) where
  table : HandleTable Kind
  chain : Nat → List Rights

namespace HandleHistory
open HandleTable

def new : HandleHistory Kind := ⟨.new, fun _ => []⟩

variable (history : HandleHistory Kind)
/-- The handle that a call returns continues the chain. -/
def continued (earlier : List Rights) : Option Nat × HandleTable Kind → HandleHistory Kind
  | (none, table) => { history with table := table }
  | (some handle, table) => ⟨table, Function.update history.chain handle earlier⟩

/-- The rights of a handle and of those it was made from. -/
def upTo (handle : Nat) : List Rights :=
  (history.table.getRights handle).toList ++ history.chain handle

def step : HandleCall Kind → HandleHistory Kind
  | .add objType rights => history.continued [] (history.table.add objType rights)
  | .addExisting handle objType rights =>
    match history.table.addExisting handle objType rights with
    | (false, table) => { history with table := table }
    | (true, table) => history.continued [] (some handle, table)
  | .duplicate handle rights =>
    history.continued (history.upTo handle) (history.table.duplicate handle rights)
  | .replace handle rights =>
    history.continued (history.upTo handle) (history.table.replace handle rights)
  | .remove handle => { history with table := (history.table.remove handle).2 }

/-- Handles have values of their own, and no more rights than those they were made from. -/
structure Linked (live : List (HandleEntry Kind)) (chain : Nat → List Rights) : Prop where
  distinct : (live.map HandleEntry.handle).Nodup
  shrinks : ∀ entry ∈ live, ∀ earlier ∈ chain entry.handle, rightsSubset entry.rights earlier

variable {earlier : List Rights}
namespace Linked
variable {live others : List (HandleEntry Kind)} {chain : Nat → List Rights}
theorem perm (linked : Linked live chain) (hperm : live.Perm others) : Linked others chain :=
  ⟨(hperm.map _).nodup_iff.mp linked.distinct, fun entry hentry =>
    linked.shrinks entry (hperm.mem_iff.mpr hentry)⟩

theorem tail (linked : Linked (entry :: others) chain) : Linked others chain :=
  ⟨(List.nodup_cons.mp linked.distinct).2, fun other hother =>
    linked.shrinks other (List.mem_cons_of_mem _ hother)⟩

theorem cons (linked : Linked live chain) (fresh : ∀ other ∈ live, other.handle ≠ entry.handle)
  (subset : ∀ rights ∈ earlier, rightsSubset entry.rights rights) :
  Linked (entry :: live) (Function.update chain entry.handle earlier) := by
  constructor
  · refine List.nodup_cons.mpr ⟨fun hmem => ?_, linked.distinct⟩
    obtain ⟨other, hother, same⟩ := List.mem_map.mp hmem
    exact fresh other hother same
  intro other hother rights hrights
  rcases List.mem_cons.mp hother with rfl | hother
  · rw [Function.update_self] at hrights
    exact subset rights hrights
  · rw [Function.update_of_ne (fresh other hother)] at hrights
    exact linked.shrinks other hother rights hrights

end Linked

/-- The counter has passed every live value. -/
structure Kept (history : HandleHistory Kind) : Prop where
  linked : Linked history.table.live history.chain
  below : ∀ entry ∈ history.table.live, entry.handle < history.table.nextHandle

variable {history} {rights : Rights} {handle : Nat} {objType : Kind}

section
variable (kept : history.Kept)
include kept
theorem kept_add (room : history.table.nextHandle + 1 < 2 ^ 32)
    (subset : ∀ other ∈ earlier, rightsSubset rights other) :
    (history.continued earlier (history.table.add objType rights)).Kept := by
  rcases add_cases history.table room objType rights with
    ⟨counted, hadd, live, counts⟩ | ⟨added, hadd, live, counts⟩
  · rw [hadd]
    constructor
    · change Linked counted.live history.chain
      rw [live]
      exact kept.linked
    · change ∀ entry ∈ counted.live, entry.handle < counted.nextHandle
      rw [live]
      exact fun entry hentry => Nat.lt_of_lt_of_le (kept.below entry hentry) counts
  · rw [hadd]
    have entry : Linked (⟨history.table.nextHandle, objType, rights⟩ :: history.table.live) _ :=
      kept.linked.cons (fun other hother => Nat.ne_of_lt (kept.below other hother)) subset
    refine ⟨entry.perm live.symm, fun other hother => ?_⟩
    rcases List.mem_cons.mp (live.mem_iff.mp hother) with rfl | hother
    · exact counts
    · exact Nat.lt_trans (kept.below other hother) counts

/-- What a handle may be given is within its own rights and those it was made from. -/
theorem upTo_subset (find : history.table.find handle = some (idx, entry))
  (hrights : rightsSubset rights entry.rights) :
  ∀ earlier ∈ history.upTo handle, rightsSubset rights earlier := by
  obtain ⟨hmem, same⟩ := find_some find
  intro earlier hearlier
  unfold upTo getRights at hearlier
  rw [find] at hearlier
  rcases List.mem_cons.mp hearlier with rfl | hearlier
  · exact hrights
  · exact rightsSubset_trans hrights (kept.linked.shrinks entry hmem earlier (same ▸ hearlier))

theorem kept_addExisting (given : handle < history.table.nextHandle) :
    (history.step (.addExisting handle objType rights)).Kept := by
  simp only [step]
  rcases addExisting_cases history.table handle objType rights with
    hadd | ⟨added, hadd, counter, fresh, live⟩
  · rw [hadd]
    exact kept
  rw [hadd]
  have entry : Linked (⟨handle, objType, rights⟩ :: history.table.live) _ :=
    kept.linked.cons fresh (List.forall_mem_nil _)
  refine ⟨entry.perm live.symm, fun other hother => ?_⟩
  change other.handle < added.nextHandle
  rw [counter]
  rcases List.mem_cons.mp (live.mem_iff.mp hother) with rfl | hother
  · exact given
  · exact kept.below other hother

theorem kept_remove (handle) :
    ({ history with table := (history.table.remove handle).2 }).Kept := by
  rcases remove_cases history.table handle with ⟨remove, -⟩ | ⟨entry, removed, remove, same, live⟩
  · rw [remove]
    exact kept
  rw [remove]
  refine ⟨(kept.linked.perm live).tail, fun other hother => ?_⟩
  change other.handle < removed.nextHandle
  rw [same]
  exact kept.below other (live.mem_iff.mpr (List.mem_cons_of_mem _ hother))

theorem kept_duplicate (room : history.table.nextHandle + 1 < 2 ^ 32) :
    (history.step (.duplicate handle rights)).Kept := by
  simp only [step, duplicate]
  cases find : history.table.find handle with
  | none => exact kept
  | some found =>
    dsimp only
    split
    · exact kept
    rename_i allowed
    rw [not_not, duplicateRightsAllowed, Bool.and_eq_true] at allowed
    exact kept_add kept room (upTo_subset kept find (grantedRights_subset allowed.2))

/-- A replacement adds the new handle before it removes the old one. -/
theorem kept_replace (room : history.table.nextHandle + 1 < 2 ^ 32) :
    (history.step (.replace handle rights)).Kept := by
  simp only [step, replace]
  cases find : history.table.find handle with
  | none => exact kept
  | some found =>
    dsimp only
    split
    · exact kept
    rename_i allowed
    have hadded : (history.continued (history.upTo handle) (history.table.add found.2.objType
        (grantedRights found.2.rights rights))).Kept :=
      kept_add kept room (upTo_subset kept find (grantedRights_subset (not_not.mp allowed)))
    rcases add_cases history.table room found.2.objType (grantedRights found.2.rights rights) with
      ⟨counted, hadd, -⟩ | ⟨added, hadd, live, -⟩
    · rw [hadd] at hadded ⊢
      exact hadded
    rw [hadd] at hadded ⊢
    have hremoved := kept_remove hadded handle
    rcases remove_cases added handle with ⟨-, hnone⟩ | ⟨entry, removed, remove, -⟩
    · obtain ⟨hmem, same⟩ := find_some find
      exact absurd same (hnone _ (live.mem_iff.mpr (List.mem_cons_of_mem _ hmem)))
    · dsimp only [continued] at hremoved ⊢
      rw [remove] at hremoved ⊢
      exact hremoved

end

theorem kept_step {call} (kept : history.Kept) (behind : call.Behind history.table.nextHandle) :
    (history.step call).Kept := by
  cases call with
  | add objType rights => exact kept_add kept behind (List.forall_mem_nil _)
  | addExisting handle objType rights => exact kept_addExisting kept behind
  | duplicate handle rights => exact kept_duplicate kept behind
  | replace handle rights => exact kept_replace kept behind
  | remove handle => exact kept_remove kept handle

theorem kept_new : (new : HandleHistory Kind).Kept := by
  have none : (new : HandleHistory Kind).table.live = [] := by
    unfold live new HandleTable.new
    rw [List.reduceOption_replicate_none]
  constructor
  · rw [none]
    exact ⟨.nil, List.forall_mem_nil _⟩
  · rw [none]
    exact List.forall_mem_nil _

/--
In every run in which each imported value lies below the counter and the counter does not
turn over, the live handles have values of their own below the counter, and each has no right
that some handle before it in its chain of duplications and replacements lacks.
-/
theorem handles_distinct_and_rights_shrink (calls : List (HandleCall Kind))
    (hbehind : Guarded (fun history call => call.Behind history.table.nextHandle) step new calls) :
    ((run step new calls).table.live.map HandleEntry.handle).Nodup ∧
      ∀ entry ∈ (run step new calls).table.live,
        entry.handle < (run step new calls).table.nextHandle ∧
        (run step new calls).table.getRights entry.handle = some entry.rights ∧
        ∀ earlier ∈ (run step new calls).chain entry.handle, rightsSubset entry.rights earlier := by
  have hkeeps : ∀ (history : HandleHistory Kind) (call : HandleCall Kind), history.Kept →
      call.Behind history.table.nextHandle → (history.step call).Kept := fun _ _ => kept_step
  have hkept : (run step new calls).Kept := guarded_invariant hkeeps kept_new hbehind
  have hlinked := hkept.linked
  refine ⟨hlinked.distinct, fun entry hentry =>
    ⟨hkept.below entry hentry, ?_, hlinked.shrinks entry hentry⟩⟩
  unfold getRights
  cases hfind : (run step new calls).table.find entry.handle with
  | none => exact absurd rfl (find_none.mp hfind entry hentry)
  | some found =>
    obtain ⟨hmem, hsame⟩ := find_some hfind
    rw [Option.map_some, List.inj_on_of_nodup_map hlinked.distinct hmem hentry hsame]

/-- A value that was removed is imported again, and a duplicate with fewer rights is
replaced. -/
theorem handles_distinct_and_rights_shrink_replaced :
    ((run step new [.add () .defaultChannel, .add () .read, .remove 2, .addExisting 2 () .write,
      .duplicate 1 .read, .replace 3 0]).table.live.map HandleEntry.handle).Nodup :=
  (handles_distinct_and_rights_shrink [.add () .defaultChannel, .add () .read, .remove 2,
    .addExisting 2 () .write, .duplicate 1 .read, .replace 3 0] (by decide +kernel)).1

/-- The counter reaches a value that was imported: both handles are live, and a duplicate
is seen with the rights of the imported one. -/
theorem counter_meets_imported_handle :
  (run step new [.addExisting 1 () .read, .add () .write]).table.live.map HandleEntry.handle =
    [1, 1] ∧
  (run step new [.addExisting 2 () rightsAll, .add () .duplicate,
    .duplicate 1 rightSameRights]).table.getRights 2 = some rightsAll ∧
  (run step new [.addExisting 2 () rightsAll, .add () .duplicate,
    .duplicate 1 rightSameRights]).chain 2 = [.duplicate] := by
  decide +kernel

end HandleHistory
end Smros.Objects
