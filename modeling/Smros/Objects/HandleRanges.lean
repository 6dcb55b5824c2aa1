import Smros.Objects.Channel

/-!
# Handle values across the tables

Each table of objects numbers its handles by a counter of its own, from a start of its own.
A creation that another test refuses (options, rights, room) changes nothing and is left out.
-/

namespace Smros.Objects
open Lib List Function

inductive ObjectTable where
  | memory
  | compat
  | socket
  | fifo
  | port
  | channel
  deriving DecidableEq

/-- A counter of 32 bits, and the values that were handed out and not closed. -/
structure HandleValues where
  next : Nat
  live : List Nat

namespace ObjectTable
def start : ObjectTable → Nat
  | memory => 0x1000
  | compat => 0x8000_0000
  | socket => 0x9000_0000
  | fifo => 0x9100_0000
  | port => 0x9200_0000
  | channel => channelHandleStart

/-- Where the values of the next table begin. -/
def limit : ObjectTable → Nat
  | memory => 0x8000_0000
  | compat => 0x9000_0000
  | socket => 0x9100_0000
  | fifo => 0x9200_0000
  | port => channelHandleStart
  | channel => invalidHandle

variable (table : ObjectTable)
/-- `alloc_handle`, and `next_id` of the channels. -/
def allocHandle (values : HandleValues) : Option Nat × HandleValues :=
  match table with
  | memory | channel => (some values.next, { values with next := (values.next + 1) % 2 ^ 32 })
  | _ =>
    -- the checked addition fails for the same value
    if values.next = invalidHandle then (none, values)
    else (if handleIsValid values.next then some values.next else none,
      { values with next := values.next + 1 })

/-- An object, or a pair of them. -/
def create (pair : Bool) (values : HandleValues) : HandleValues :=
  match table.allocHandle values with
  | (none, counted) => counted
  | (some left, counted) =>
    let created := { counted with live := counted.live ++ [left] }
    if !pair then created
    else
      match table.allocHandle counted with
      | (none, counted) => counted
      | (some right, counted) => { counted with live := created.live ++ [right] }

end ObjectTable

/-- `register_handle` for another handle of an object of the memory, in place of the one
that is replaced. -/
def registerHandle (values : HandleValues) (replaced : Option Nat) : HandleValues :=
  if !handleIsValid values.next || values.live.contains values.next then
    (ObjectTable.memory.allocHandle values).2
  else
    let registered := ObjectTable.memory.create false values
    { registered with live := replaced.elim registered.live registered.live.erase }

abbrev ObjectTables : Type := ObjectTable → HandleValues

inductive ObjectCall where
  | create (table : ObjectTable) (pair : Bool)
  | duplicate (handle : Nat)
  | replace (handle : Nat)
  | close (handle : Nat)

namespace ObjectTables
open ObjectTable

/-- The region of the root is there from the start. -/
def new : ObjectTables
  | .memory => ⟨0x1001, [0x1000]⟩
  | table => ⟨table.start, []⟩

variable (tables : ObjectTables)
/-- `sys_handle_close` asks the tables one after the other. -/
def close (handle : Nat) : ObjectTables :=
  match [memory, channel, fifo, port, socket, compat].find? fun table =>
      (tables table).live.contains handle with
  | none => tables
  | some table => update tables table
      { tables table with live := (tables table).live.erase handle }

/-- Only handles of the memory are duplicated, or replaced by other values. -/
def duplicate (handle : Nat) (replaced : Option Nat) : ObjectTables :=
  if (tables memory).live.contains handle then
    update tables memory (registerHandle (tables memory) replaced)
  else tables

def step : ObjectCall → ObjectTables
  | .create table pair => update tables table (table.create pair (tables table))
  | .duplicate handle => tables.duplicate handle none
  | .replace handle => tables.duplicate handle (some handle)
  | .close handle => tables.close handle

/-- The values that the call takes are below the start of the next table. -/
def Allowed : ObjectCall → Prop
  | .create table pair => (tables table).next + pair.toNat < table.limit
  | .duplicate _ | .replace _ => (tables memory).next < memory.limit
  | .close _ => True

instance (tables : ObjectTables) (call : ObjectCall) : Decidable (tables.Allowed call) := by
  cases call <;> unfold Allowed <;> infer_instance

/-- The values of a table lie between its start and its counter. -/
structure Kept (table : ObjectTable) (values : HandleValues) : Prop where
  started : table.start ≤ values.next
  limited : values.next ≤ table.limit
  within : ∀ handle ∈ values.live, table.start ≤ handle ∧ handle < values.next
  distinct : values.live.Nodup

def Sound (tables : ObjectTables) : Prop := ∀ table, Kept table (tables table)

variable {tables} {table : ObjectTable} {values : HandleValues} {handle : Nat}
theorem allocHandle_below (hkept : Kept table values) (below : values.next < table.limit) :
  table.allocHandle values = (some values.next, { values with next := values.next + 1 }) := by
  have bounds : 0 < values.next ∧ values.next < 0xFFFF_FFFF := by
    have started := hkept.started
    cases table <;> simp only [start, limit, invalidHandle, channelHandleStart] at * <;> omega
  have count : values.next + 1 < 4294967296 := by omega
  have valid : handleIsValid values.next = true ∧ values.next ≠ invalidHandle := by
    simp [handleIsValid, invalidHandle]
    omega
  cases table <;> simp [allocHandle, count, valid]

theorem Kept.taken (hkept : Kept table values) (below : values.next < table.limit) :
  Kept table ⟨values.next + 1, values.live ++ [values.next]⟩ where
  started := Nat.le_succ_of_le hkept.started
  limited := below
  within := by
    intro handle hmem
    rcases mem_append.mp hmem with hold | hnew
    · exact ⟨(hkept.within handle hold).1, Nat.lt_succ_of_lt (hkept.within handle hold).2⟩
    · rw [mem_singleton.mp hnew]
      exact ⟨hkept.started, Nat.lt_succ_self _⟩
  distinct := hkept.distinct.append (nodup_singleton _) (disjoint_singleton.mpr fun hmem =>
    Nat.lt_irrefl _ (hkept.within _ hmem).2)

theorem kept_create {pair} (hkept : Kept table values)
  (below : values.next + pair.toNat < table.limit) : Kept table (table.create pair values) := by
  unfold create
  rw [allocHandle_below hkept (by omega)]
  have taken := hkept.taken (by omega)
  cases pair with
  | false => exact taken
  | true =>
    have hsnd : table.allocHandle { values with next := values.next + 1 } = _ :=
      allocHandle_below ⟨taken.started, taken.limited,
        fun handle hmem => taken.within handle (mem_append_left _ hmem), hkept.distinct⟩ below
    simp only [hsnd, Bool.not_true, Bool.false_eq_true, if_false]
    exact taken.taken below

theorem Kept.erased (hkept : Kept table values) (handle) :
  Kept table { values with live := values.live.erase handle } :=
  ⟨hkept.started, hkept.limited, fun value hmem => hkept.within value (mem_of_mem_erase hmem),
    hkept.distinct.erase _⟩

variable {replaced : Option Nat}
theorem kept_register (hkept : Kept memory values) (below : values.next < memory.limit) :
  Kept memory (registerHandle values replaced) := by
  unfold registerHandle
  split
  · rw [allocHandle_below hkept below]
    exact ⟨Nat.le_succ_of_le hkept.started, below, fun handle hmem =>
      ⟨(hkept.within handle hmem).1, Nat.lt_succ_of_lt (hkept.within handle hmem).2⟩,
      hkept.distinct⟩
  · have created : Kept memory (memory.create false values) := kept_create hkept below
    cases replaced with
    | none => exact created
    | some handle => exact created.erased handle

section
variable (hkept : tables.Sound)
include hkept
theorem kept_update (hvalues : Kept table values) (other) :
  Kept other (update tables table values other) := by
  by_cases hother : other = table
  · subst hother
    rwa [update_self]
  · rw [update_of_ne hother]
    exact hkept other

theorem kept_close (other) : Kept other (tables.close handle other) := by
  unfold close
  generalize find? _ _ = found
  cases found with
  | none => exact hkept other
  | some table => exact kept_update hkept ((hkept table).erased handle) other

theorem kept_duplicate (below : (tables memory).next < memory.limit) (other) :
  Kept other (tables.duplicate handle replaced other) := by
  unfold duplicate
  split
  · exact kept_update hkept (kept_register (hkept memory) below) other
  · exact hkept other

theorem kept_step {call} (allowed : tables.Allowed call) : (tables.step call).Sound := by
  cases call with
  | create table pair => exact kept_update hkept (kept_create (hkept table) allowed)
  | duplicate handle => exact kept_duplicate hkept allowed
  | replace handle => exact kept_duplicate hkept allowed
  | close handle => exact kept_close hkept

end

theorem kept_new : new.Sound := by
  intro table
  cases table <;> exact ⟨by decide, by decide, by decide, by decide⟩

/--
In every run in which no counter reaches the start of the next table, no value is live in
two tables, or twice in one.
-/
theorem live_values_distinct (calls : List ObjectCall)
  (hallowed : Guarded Allowed step new calls) (table : ObjectTable) :
  (run step new calls table).live.Nodup ∧ ∀ other handle, handle ∈ (run step new calls table).live →
      handle ∈ (run step new calls other).live → other = table := by
  have hkeeps : ∀ (tables : ObjectTables) (call : ObjectCall), tables.Sound →
      tables.Allowed call → (tables.step call).Sound := fun _ _ hkept => kept_step hkept
  have hkept : (run step new calls).Sound := guarded_invariant hkeeps kept_new hallowed
  refine ⟨(hkept table).distinct, fun other handle hmine hother => ?_⟩
  have hfirst := (hkept table).within handle hmine
  have hsnd := (hkept other).within handle hother
  have hlimits := And.intro (hkept table).limited (hkept other).limited
  cases table <;> cases other <;> first
    | rfl
    | (simp only [start, limit, channelHandleStart, invalidHandle] at *; omega)

/-- A region is duplicated, and a pair of sockets is closed in part. -/
theorem live_values_distinct_mixed :
  (run step new [.create .socket true, .duplicate 0x1000, .close 0x9000_0000] .socket).live.Nodup :=
  (live_values_distinct [.create .socket true, .duplicate 0x1000, .close 0x9000_0000]
    (by decide) .socket).1

/-- Objects are created and closed, one after the other. -/
def rounds : Nat → List ObjectCall
  | 0 => []
  | count + 1 => rounds count ++ [.create .compat false, .close (0x8000_0000 + count)]

theorem run_rounds {count} (hcount : count ≤ 2 ^ 28) :
  run step new (rounds count) = update new compat ⟨0x8000_0000 + count, []⟩ := by
  induction count with
  | zero => exact (update_eq_self _ _).symm
  | succ count ih =>
    have bounds : Kept compat ⟨0x8000_0000 + count, []⟩ := by
      refine ⟨?_, ?_, nofun, nodup_nil⟩ <;> simp only [start, limit] <;> omega
    unfold run at ih ⊢
    rw [rounds, foldl_append, ih (by omega)]
    simp only [foldl_cons, foldl_nil, step, update_self, update_idem, create,
      allocHandle_below bounds (by simp only [limit]; omega)]
    have find : [memory, channel, fifo, port, socket, compat].find? (fun table =>
      (update new compat ⟨0x8000_0000 + count + 1, [] ++ [0x8000_0000 + count]⟩ table).live.contains
        (0x8000_0000 + count)) = some compat := by
      have root : 0x8000_0000 + count ≠ 0x1000 := by omega
      simp [new, update, root]
    simp only [close, Bool.not_false, if_true, find, update_self, update_idem]
    simp [Nat.add_assoc]

/-- The compatibility table has used its values up and takes that of a socket. -/
theorem socket_value_taken : 0x9000_0000 ∈ (run step new (rounds (2 ^ 28) ++
    [.create .compat false, .create .socket true]) .compat).live ∧
  0x9000_0000 ∈ (run step new (rounds (2 ^ 28) ++
    [.create .compat false, .create .socket true]) .socket).live := by
  have hrounds := run_rounds (le_refl (2 ^ 28))
  unfold run at hrounds ⊢
  rw [foldl_append, hrounds]
  decide

end ObjectTables
end Smros.Objects
