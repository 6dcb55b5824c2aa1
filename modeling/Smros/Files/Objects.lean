import Smros.Files.Descriptions

/-!
# Compatibility objects

Every descriptor stands for an object of the kernel's compatibility table.
Handles count up and are never given twice; the table refuses further objects
when they run out.  The objects modelled here all carry read and write rights.
A handle occurs once, so what the source does to the first object with a handle
is done to the object with the handle.
-/

namespace Smros.Files
open Lib List

/-- `COMPAT_HANDLE_START`. -/
def compatHandleStart : Nat := 0x80000000

/-- `INVALID_HANDLE`, the largest `u32`. -/
def invalidHandle : Nat := 0xffffffff

/-- `MAX_COMPAT_OBJECTS`. -/
def maxCompatObjects : Nat := 4096

/-- `MAX_COMPAT_QUEUE_BYTES`. -/
def maxCompatQueueBytes : Nat := 65536

structure CompatObject where
  handle : Nat
  objType : ObjectType
  peer : Option Nat
  queue : List UInt8
  propertyValue : Nat
  deriving DecidableEq

structure CompatObjectTable where
  objects : List CompatObject
  nextHandle : Nat
  deriving DecidableEq

/-- The answers of the byte queues. -/
inductive ZxError where
  | errAccessDenied
  | errPeerClosed
  | errNoMemory
  | errShouldWait
  deriving DecidableEq

namespace CompatObjectTable
def empty : CompatObjectTable where
  objects := []
  nextHandle := compatHandleStart

def allocHandle (table : CompatObjectTable) : Option (Nat × CompatObjectTable) :=
  if table.nextHandle = invalidHandle then none
  else some (table.nextHandle, { table with nextHandle := table.nextHandle + 1 })

def push (table : CompatObjectTable) (handle : Nat) (objType : ObjectType) (peer : Option Nat) :
  CompatObjectTable :=
  { table with objects := table.objects ++ [⟨handle, objType, peer, [], 0⟩] }

variable (table : CompatObjectTable)

def create (objType : ObjectType) : Option (Nat × CompatObjectTable) :=
  if maxCompatObjects ≤ table.objects.length then none
  else table.allocHandle.map fun (handle, next) => (handle, next.push handle objType none)

/-- A second handle that is refused costs the first one. -/
def createPair (objType : ObjectType) : Option (Nat × Nat) × CompatObjectTable :=
  if maxCompatObjects < table.objects.length + 2 then (none, table)
  else
    match table.allocHandle with
    | none => (none, table)
    | some (left, next) =>
      match next.allocHandle with
      | none => (none, next)
      | some (right, last) =>
        (some (left, right), (last.push left objType (some right)).push right objType (some left))

def find (table : CompatObjectTable) (handle : Nat) : Option CompatObject :=
  table.objects.find? (·.handle = handle)

def objectType (handle : Nat) : Option ObjectType := (table.find handle).map (·.objType)

def modifyObject (table : CompatObjectTable) (handle : Nat)
  (change : CompatObject → CompatObject) : CompatObjectTable :=
  { table with objects := Counted.adjust (·.handle) handle change table.objects }

def setProperty (handle value : Nat) : CompatObjectTable :=
  table.modifyObject handle fun object => { object with propertyValue := value }

/-- The peer of an object that is closed stays without one. -/
def partPeer (object : CompatObject) : CompatObjectTable :=
  match object.peer with
  | some peer => table.modifyObject peer fun other => { other with peer := none }
  | none => table

def close (handle : Nat) : CompatObjectTable :=
  match table.find handle with
  | none => table
  | some object => { table.partPeer object with
    objects := Counted.without (·.handle) handle (table.partPeer object).objects }

def writeBytes (handle : Nat) (bytes : List UInt8) : Except ZxError (Nat × CompatObjectTable) :=
  match table.find handle with
  | none => .error .errAccessDenied
  | some object =>
    let target := object.peer.getD handle
    match table.find target with
    | none => .error .errPeerClosed
    | some receiver =>
      if maxCompatQueueBytes < receiver.queue.length + bytes.length then .error .errNoMemory
      else
        .ok (bytes.length,
          table.modifyObject target fun other => { other with queue := other.queue ++ bytes })

def readBytes (handle len : Nat) : Except ZxError (List UInt8 × CompatObjectTable) :=
  match table.find handle with
  | none => .error .errAccessDenied
  | some object =>
    if object.queue = [] then
      .error (if object.peer.isSome then .errShouldWait else .errPeerClosed)
    else
      .ok (object.queue.take len,
        table.modifyObject handle fun other => { other with queue := other.queue.drop len })

/-- `none` where the source returns `false`. -/
def restoreReadBytes (handle : Nat) (bytes : List UInt8) : Option CompatObjectTable :=
  match table.find handle with
  | none => none
  | some object =>
    if maxCompatQueueBytes < object.queue.length + bytes.length then none
    else
      some (table.modifyObject handle fun other => { other with queue := bytes ++ other.queue })

/-! ## What the operations do to the handles -/

def handles : List Nat := table.objects.map (·.handle)

variable {table} {next : CompatObjectTable} {handle other : Nat} {objType : ObjectType}
theorem create_some (hcreate : table.create objType = some (handle, next)) :
  handle = table.nextHandle ∧ table.nextHandle ≠ invalidHandle ∧
    next.nextHandle = table.nextHandle + 1 ∧ next.handles = table.handles ++ [handle] ∧
    next.objects = table.objects ++ [⟨handle, objType, none, [], 0⟩] := by
  unfold create allocHandle at hcreate
  split at hcreate
  · cases hcreate
  split at hcreate
  · cases hcreate
  rename_i last
  cases hcreate
  exact ⟨rfl, last, rfl, by simp [handles, push], rfl⟩

variable {peer : Option Nat}
theorem handles_push : (table.push handle objType peer).handles = table.handles ++ [handle] := by
  simp [handles, push]

theorem objectType_push_self (hnew : handle ∉ table.handles) :
  (table.push handle objType peer).objectType handle = some objType := by
  have hnone : table.objects.find? (·.handle = handle) = none :=
    find?_eq_none.mpr fun obj hobj => by
      have hne : obj.handle ≠ handle := fun same => hnew (same ▸ mem_map_of_mem hobj)
      simpa using hne
  unfold push objectType find
  rw [find?_append, hnone]
  simp

theorem objectType_push_old {known} (hold : table.objectType other = some known) :
  (table.push handle objType peer).objectType other = some known := by
  obtain ⟨obj, hobj, rfl⟩ := Option.map_eq_some_iff.mp hold
  unfold find at hobj
  unfold push objectType find
  rw [find?_append, hobj]
  rfl

section
variable (live : ∀ handle ∈ table.handles, handle < table.nextHandle)
include live
/-- A new handle is not among those that were given out. -/
theorem create_objectType (create : table.create objType = some (handle, next)) :
  next.objectType handle = some objType := by
  obtain ⟨rfl, -, -, -, objs⟩ := create_some create
  have hnew : table.nextHandle ∉ table.handles := fun hmem => absurd (live _ hmem) (Nat.lt_irrefl _)
  have pushed : (table.push table.nextHandle objType none).objectType table.nextHandle =
    some objType := objectType_push_self hnew
  unfold objectType find at pushed ⊢
  rw [objs]
  exact pushed

/-- Two objects are created one after the other, or at most a handle is lost. -/
theorem createPair_cases (objType) : table.createPair objType = (none, table) ∨
  (∃ next, table.createPair objType = (none, next) ∧ table.nextHandle ≠ invalidHandle ∧
    next.nextHandle = table.nextHandle + 1 ∧ next.handles = table.handles) ∨
  (∃ alone next : CompatObjectTable,
    table.createPair objType = (some (table.nextHandle, alone.nextHandle), next) ∧
    table.nextHandle ≠ invalidHandle ∧ alone.nextHandle = table.nextHandle + 1 ∧
    alone.handles = table.handles ++ [table.nextHandle] ∧ alone.nextHandle ≠ invalidHandle ∧
    next.nextHandle = alone.nextHandle + 1 ∧ next.handles = alone.handles ++ [alone.nextHandle] ∧
    next.objectType table.nextHandle = some objType ∧
    next.objectType alone.nextHandle = some objType) := by
  unfold createPair allocHandle
  by_cases full : maxCompatObjects < table.objects.length + 2
  · exact Or.inl (if_pos full)
  rw [if_neg full]
  by_cases hfirst : table.nextHandle = invalidHandle
  · rw [if_pos hfirst]
    exact Or.inl rfl
  rw [if_neg hfirst]
  dsimp only
  by_cases hsnd : table.nextHandle + 1 = invalidHandle
  · rw [if_pos hsnd]
    exact Or.inr (Or.inl ⟨_, rfl, hfirst, rfl, rfl⟩)
  rw [if_neg hsnd]
  have hleft : table.nextHandle ∉ table.handles := fun hmem => Nat.lt_irrefl _ (live _ hmem)
  have hright : table.nextHandle + 1 ∉ table.handles ++ [table.nextHandle] := fun hmem => by
    rcases mem_append.mp hmem with hold | hnew
    · exact absurd (live _ hold) (by omega)
    · exact absurd (mem_singleton.mp hnew) (by omega)
  refine Or.inr (Or.inr ⟨{ table with nextHandle := table.nextHandle + 1 }.push
    table.nextHandle objType (some (table.nextHandle + 1)), _, rfl, hfirst, rfl,
    handles_push, hsnd, rfl, ?_, ?_, ?_⟩)
  · simp [handles, push]
  · exact objectType_push_old (objectType_push_self hleft)
  refine objectType_push_self ?_
  rw [handles_push]
  exact hright

end

@[simp] theorem handles_modifyObject {change} (same : ∀ obj, (change obj).handle = obj.handle) :
  (table.modifyObject handle change).handles = table.handles :=
  Counted.map_adjust same

variable {bytes : List UInt8} {written len : Nat}
theorem writeBytes_ok (write : table.writeBytes handle bytes = .ok (written, next)) :
  next.handles = table.handles ∧ next.nextHandle = table.nextHandle := by
  unfold writeBytes at write
  split at write
  · cases write
  dsimp only at write
  split at write
  · cases write
  split at write
  · cases write
  · cases write
    exact ⟨handles_modifyObject fun _ => rfl, rfl⟩

theorem readBytes_ok (read : table.readBytes handle len = .ok (bytes, next)) :
  next.handles = table.handles ∧ next.nextHandle = table.nextHandle := by
  unfold readBytes at read
  split at read
  · cases read
  split at read
  · cases read
  · cases read
    exact ⟨handles_modifyObject fun _ => rfl, rfl⟩

theorem restoreReadBytes_some (restore : table.restoreReadBytes handle bytes = some next) :
  next.handles = table.handles ∧ next.nextHandle = table.nextHandle := by
  unfold restoreReadBytes at restore
  split at restore
  · cases restore
  split at restore
  · cases restore
  · cases restore
    exact ⟨handles_modifyObject fun _ => rfl, rfl⟩

variable {obj : CompatObject}
theorem handles_partPeer : (table.partPeer obj).handles = table.handles := by
  unfold partPeer
  cases obj.peer with
  | none => rfl
  | some peer => exact handles_modifyObject fun _ => rfl

theorem handles_close : (table.close handle).handles = table.handles.filter (· ≠ handle) := by
  unfold close
  cases hfind : table.find handle with
  | none =>
    refine (filter_eq_self.mpr fun other hother => ?_).symm
    obtain ⟨obj, hobj, rfl⟩ := mem_map.mp hother
    have hne := find?_eq_none.mp hfind obj hobj
    simpa using hne
  | some obj =>
    have kept : (Counted.without CompatObject.handle handle
      (table.partPeer obj).objects).map CompatObject.handle =
        (table.partPeer obj).handles.filter (· ≠ handle) :=
      Counted.map_key_without handle _
    rw [handles_partPeer] at kept
    exact kept

theorem nextHandle_partPeer : (table.partPeer obj).nextHandle = table.nextHandle := by
  unfold partPeer
  cases obj.peer with
  | none => rfl
  | some peer => rfl

theorem nextHandle_close : (table.close handle).nextHandle = table.nextHandle := by
  unfold close
  cases table.find handle with
  | none => rfl
  | some obj => exact nextHandle_partPeer

end CompatObjectTable
end Smros.Files
