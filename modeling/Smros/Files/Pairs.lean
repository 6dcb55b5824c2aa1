import Smros.Files.Objects
import Smros.Lib.Runs

/-!
# Pairs of compatibility objects

The two ends of a pair write into each other's queue.  When one is closed the other loses
its peer, and from then on what is written there goes into its own queue.
-/

namespace Smros.Files
open Lib List Function CompatObjectTable
namespace CompatObjectTable
variable {table : CompatObjectTable} {handle other : Nat} {obj : CompatObject}
theorem find_modify {change} (same : ∀ obj, (change obj).handle = obj.handle) :
  (table.modifyObject handle change).find other =
    if other = handle then (table.find other).map change else table.find other := by
  split
  · subst other
    exact Counted.find?_adjust_self same
  · exact Counted.find?_adjust_ne same ‹_›

theorem find_close_self : (table.close handle).find handle = none := by
  unfold close
  cases hfind : table.find handle with
  | none => exact hfind
  | some obj => exact find?_eq_none.mpr fun kept hkept => by simp_all [Counted.mem_without]

theorem find_close_ne (hfind : table.find handle = some obj) (hne : other ≠ handle) :
  (table.close handle).find other = (table.partPeer obj).find other := by
  unfold close
  rw [hfind]
  exact Counted.find?_without_ne hne

end CompatObjectTable

/-- What is done at an end; a read that cannot be copied out is put back. -/
inductive PairCall where
  | write (side : Bool) (bytes : List UInt8)
  | read (side : Bool) (len : Nat) (copied : Bool)
  | close (side : Bool)

/-- The table, what each end took while the other was open and later, and what it gave. -/
structure PairHistory where
  table : CompatObjectTable
  sent : Bool → List UInt8
  late : Bool → List UInt8
  got : Bool → List UInt8

namespace PairHistory
variable (ends : Bool → Nat) (hist : PairHistory)

def next (hist : PairHistory) : PairCall → PairHistory
  | .write side bytes =>
    match hist.table.writeBytes (ends side) bytes with
    | .error _ => hist
    | .ok (_, table) =>
      if (hist.table.find (ends !side)).isSome then
        { hist with
          table := table
          sent := update hist.sent side (hist.sent side ++ bytes) }
      else
        { hist with
          table := table
          late := update hist.late side (hist.late side ++ bytes) }
  | .read side len copied =>
    match hist.table.readBytes (ends side) len with
    | .error _ => hist
    | .ok (bytes, table) =>
      if copied then
        { hist with table := table, got := update hist.got side (hist.got side ++ bytes) }
      else { hist with table := (table.restoreReadBytes (ends side) bytes).getD table }
  | .close side => { hist with table := hist.table.close (ends side) }

/-- An open end has taken what the other sent, and then what was written to itself. -/
def Settled (side : Bool) : Prop :=
  match hist.table.find (ends side) with
  | some obj => obj.peer = (hist.table.find (ends !side)).map (fun _ => ends !side) ∧
    obj.queue.length ≤ maxCompatQueueBytes ∧ hist.late (!side) = [] ∧
    hist.got side ++ obj.queue = hist.sent (!side) ++ hist.late side
  | none => hist.got side <+: hist.sent (!side) ++ hist.late side

variable {ends hist}
theorem forall_sides {holds : Bool → Prop} (side) (this : holds side) (that : holds !side) :
  ∀ side, holds side := by
  intro other
  cases side <;> cases other <;> assumption

variable (distinct : ∀ side, ends side ≠ ends !side) (settled : ∀ side, hist.Settled ends side)
include distinct settled
theorem settled_write (side bytes) :
  ∀ other, (hist.next ends (.write side bytes)).Settled ends other := by
  have hne := distinct side
  have hne' := hne.symm
  unfold next writeBytes
  dsimp only
  cases hfind : hist.table.find (ends side) with
  | none => exact settled
  | some obj =>
    have this := settled side
    rw [Settled, hfind] at this
    obtain ⟨peer, length, hlate, hbytes⟩ := this
    have that := settled !side
    dsimp only
    rw [peer]
    cases hother : hist.table.find (ends !side) <;>
      simp only [Option.map_none, Option.map_some, Option.getD_none, Option.getD_some, hfind,
        hother] <;>
      split_ifs
    any_goals exact settled
    all_goals
      refine forall_sides side ?_ ?_ <;> clear settled distinct <;>
        simp_all [Settled, find_modify, ← append_assoc]

theorem settled_read (side len copied) :
  ∀ other, (hist.next ends (.read side len copied)).Settled ends other := by
  have hne := distinct side
  have hne' := hne.symm
  unfold next readBytes
  dsimp only
  cases hfind : hist.table.find (ends side) with
  | none => exact settled
  | some obj =>
    have this := settled side
    rw [Settled, hfind] at this
    obtain ⟨peer, length, hlate, hbytes⟩ := this
    have that := settled !side
    have fits : ¬ maxCompatQueueBytes < (obj.queue.drop len).length +
      (obj.queue.take len).length := by
      rw [length_drop, length_take]
      omega
    have shorter : (obj.queue.drop len).length ≤ maxCompatQueueBytes :=
      Nat.le_trans (drop_sublist ..).length_le length
    dsimp only
    by_cases empty : obj.queue = []
    · rw [if_pos empty]
      exact settled
    rw [if_neg empty]
    cases copied
    · simp only [restoreReadBytes, find_modify, if_true, hfind, Option.map_some, if_neg fits,
        Option.getD_some, implies_true]
      refine forall_sides side ?_ ?_ <;> cases hother : hist.table.find (ends !side) <;>
        clear settled distinct <;> simp_all [Settled, find_modify]
    · refine forall_sides side ?_ ?_ <;> cases hother : hist.table.find (ends !side) <;>
        clear settled distinct <;> simp_all [Settled, find_modify, -length_drop]

theorem settled_close (side) : ∀ other, (hist.next ends (.close side)).Settled ends other := by
  have hne' := (distinct side).symm
  cases hfind : hist.table.find (ends side) with
  | none => simpa only [next, close, hfind] using settled
  | some obj =>
    have this := settled side
    have that := settled !side
    rw [Settled, hfind] at this
    obtain ⟨peer, -, hlate, hbytes⟩ := this
    have hclose := find_close_ne hfind hne'
    refine forall_sides side ?_ ?_
    · simp only [Settled, next, find_close_self]
      exact hbytes ▸ prefix_append ..
    · cases hother : hist.table.find (ends !side) <;>
        simp_all [Settled, next, partPeer, find_modify, find_close_self]

theorem settled_next (call) : ∀ side, (hist.next ends call).Settled ends side := by
  cases call with
  | write side bytes => exact settled_write distinct settled side bytes
  | read side len copied => exact settled_read distinct settled side len copied
  | close side => exact settled_close distinct settled side

omit distinct settled
/-- Nothing was written or read yet. -/
def new (table : CompatObjectTable) : PairHistory := ⟨table, fun _ => [], fun _ => [], fun _ => []⟩

variable {table start : CompatObjectTable} {objType : ObjectType} {left right : Nat}
theorem settled_new (live : ∀ handle ∈ table.handles, handle < table.nextHandle)
  (pair : table.createPair objType = (some (left, right), start)) :
  left ≠ right ∧ ∀ side, (new start).Settled (bif · then right else left) side := by
  have fresh : ∀ handle, table.nextHandle ≤ handle → table.find handle = none := by
    intro handle hle
    refine find?_eq_none.mpr fun obj hobj same => ?_
    have below := live obj.handle (mem_map_of_mem hobj)
    simp only [decide_eq_true_eq] at same
    omega
  have hleft := fresh table.nextHandle (Nat.le_refl _)
  have hright := fresh (table.nextHandle + 1) (Nat.le_succ _)
  unfold createPair allocHandle at pair
  by_cases full : maxCompatObjects < table.objects.length + 2
  · simp [full] at pair
  by_cases hfirst : table.nextHandle = invalidHandle
  · simp [full, hfirst] at pair
  by_cases hsecond : table.nextHandle + 1 = invalidHandle
  · simp [full, hfirst, hsecond] at pair
  simp only [full, hfirst, hsecond, if_false, Prod.mk.injEq, Option.some.injEq] at pair
  obtain ⟨⟨rfl, rfl⟩, rfl⟩ := pair
  unfold find at hleft hright
  refine ⟨by omega, forall_sides true ?_ ?_⟩ <;>
    simp [Settled, new, find, push, hleft, hright]

/-- The bytes that were written at an end. -/
def written (hist : PairHistory) (side : Bool) : List UInt8 := hist.sent side ++ hist.late side

/-- A write at an end whose other end is closed is empty or does not fit into its own queue. -/
def Refused (ends : Bool → Nat) (hist : PairHistory) : PairCall → Prop
  | .write side bytes => hist.table.find (ends !side) = none →
    bytes = [] ∨ ∀ obj ∈ hist.table.find (ends side),
      maxCompatQueueBytes < obj.queue.length + bytes.length
  | _ => True

/-- Then nothing is taken at an end after the other end was closed. -/
theorem late_next {call : PairCall} (settled : ∀ side, hist.Settled ends side)
    (none : ∀ side, hist.late side = []) (refused : Refused ends hist call) (side) :
    (hist.next ends call).late side = [] := by
  cases call with
  | close side => exact none _
  | read side len copied =>
    unfold next
    dsimp only
    split
    · exact none _
    · split <;> exact none _
  | write writer bytes =>
    unfold next
    dsimp only
    cases hwrite : hist.table.writeBytes (ends writer) bytes with
    | error => exact none _
    | ok result =>
      dsimp only
      split
      · exact none _
      rename_i closed
      rw [Bool.not_eq_true, Option.isSome_eq_false_iff, Option.isNone_iff_eq_none] at closed
      have empty : bytes = [] := by
        refine (refused closed).resolve_right fun full => ?_
        have this := settled writer
        unfold Settled at this
        cases hfind : hist.table.find (ends writer) with
        | none => simp [writeBytes, hfind] at hwrite
        | some obj =>
          -- The peer is gone, so the bytes would go into the end's own queue.
          rw [hfind, closed] at this
          simp [writeBytes, hfind, this.1, full obj hfind] at hwrite
      by_cases same : side = writer
      · subst same
        simp [empty, none]
      · simp [same, none]

/-- The bytes that came out of an end and those in its queue are those written at the other,
in every run in which each write at an end whose other end is closed is empty or does not
fit.  Any write there fails just if it does not fit. -/
theorem pair_bytes_delivered (live : ∀ handle ∈ table.handles, handle < table.nextHandle)
    (pair : table.createPair objType = (some (left, right), start)) (calls : List PairCall)
    (refused : Guarded (Refused (bif · then right else left)) (next (bif · then right else left))
      (new start) calls) (side : Bool) :
    let ends : Bool → Nat := (bif · then right else left)
    let hist := run (next ends) (new start) calls
    (∀ obj, hist.table.find (ends side) = some obj →
      hist.got side ++ obj.queue = hist.written !side ∧
      (hist.table.find (ends !side) = none → ∀ bytes,
        (hist.table.writeBytes (ends side) bytes).isOk = true ↔
          obj.queue.length + bytes.length ≤ maxCompatQueueBytes)) ∧
    hist.got side <+: hist.written !side := by
  intro ends hist
  obtain ⟨hne, hnew⟩ := settled_new live pair
  have distinct : ∀ side, ends side ≠ ends !side := forall_sides true hne.symm hne
  have keeps : ∀ (hist : PairHistory) (call : PairCall),
      ((∀ side, hist.Settled ends side) ∧ ∀ side, hist.late side = []) → Refused ends hist call →
      (∀ side, (hist.next ends call).Settled ends side) ∧
        ∀ side, (hist.next ends call).late side = [] :=
    fun hist call ⟨settled, unspent⟩ refused =>
      ⟨settled_next distinct settled call, late_next settled unspent refused⟩
  obtain ⟨settled, none⟩ : (∀ side, hist.Settled ends side) ∧ ∀ side, hist.late side = [] :=
    guarded_invariant keeps ⟨hnew, fun _ => rfl⟩ refused
  have this := settled side
  rw [written, none, append_nil]
  refine ⟨fun obj hfind => ?_, ?_⟩
  · rw [Settled, hfind] at this
    obtain ⟨peer, -, -, hbytes⟩ := this
    rw [none, append_nil] at hbytes
    refine ⟨hbytes, fun closed bytes => ?_⟩
    rw [closed, Option.map_none] at peer
    simp only [writeBytes, hfind, peer, Option.getD_none]
    split <;> simp [Except.isOk, Except.toBool] <;> omega
  · unfold Settled at this
    rw [none, none, append_nil] at this
    split at this
    · exact this.2.2.2 ▸ prefix_append ..
    · exact this

/-- Two bytes on their way through a pipe; the writer's end is closed, and then its reader
writes nothing. -/
theorem pair_bytes_delivered_pipe :
    let hist := run (next (bif · then 0x80000001 else 0x80000000))
      (new (empty.createPair .linuxPipe).2)
      [.write false [1, 2], .read true 1 true, .close false, .write true []]
    ∃ obj, hist.table.find 0x80000001 = some obj ∧ hist.got true = [1] ∧
      hist.got true ++ obj.queue = hist.written false :=
  have live : ∀ handle ∈ empty.handles, handle < empty.nextHandle := by simp [handles, empty]
  ⟨_, rfl, rfl, ((pair_bytes_delivered live rfl
    [.write false [1, 2], .read true 1 true, .close false, .write true []]
    (And.intro (fun closed => nomatch closed)
      ⟨trivial, trivial, fun _ => .inl rfl, trivial⟩) true).1 _ rfl).1⟩

/-- After the other end is closed, a byte comes back to the end where it was written. -/
theorem closed_pipe_returns_bytes :
  let hist := run (next (bif · then 0x80000001 else 0x80000000))
    (new (empty.createPair .linuxPipe).2) [.close false, .write true [7], .read true 1 true]
  hist.got true = [7] ∧ hist.written false = [] := by
  decide

end PairHistory
end Smros.Files
