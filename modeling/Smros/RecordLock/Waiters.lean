import Smros.Lib.SlotSearch
import Smros.RecordLock.Bytes

/-!
# Waiters for record locks

A blocked request is published in a fixed array beside the lock table.  A scan
moves every grantable waiter to `woken`, oldest first, and reports whom to wake.
-/

namespace Smros.RecordLock
open Lib List Option

inductive LinuxRecordLockWaitOutcome where
  | waiting
  | woken
  | interrupted
  deriving DecidableEq

structure LinuxRecordLockWaiter where
  fileId : Nat
  owner : Nat
  kind : LinuxRecordLockKind
  range : LinuxRecordLockRange
  tid : Nat
  schedulerThread : Nat
  sequence : Nat
  outcome : LinuxRecordLockWaitOutcome
  deriving DecidableEq

namespace LinuxRecordLockWaiter
def new (fileId owner : Nat) (kind : LinuxRecordLockKind) (range : LinuxRecordLockRange)
  (tid schedulerThread : Nat) : LinuxRecordLockWaiter :=
  ⟨fileId, owner, kind, range, tid, schedulerThread, 0, .waiting⟩

def identity (waiter : LinuxRecordLockWaiter) : Nat × Nat := (waiter.tid, waiter.schedulerThread)

end LinuxRecordLockWaiter

inductive LinuxRecordLockWaiterError where
  | capacity
  | duplicate
  | exhausted
  deriving DecidableEq

structure LinuxRecordLockState (lockCapacity waiterCapacity : Nat) where
  locks : LinuxRecordLockTable lockCapacity
  waiters : List (Option LinuxRecordLockWaiter)
  waiters_length : waiters.length = waiterCapacity
  nextSequence : Nat

variable {lockCapacity waiterCapacity : Nat}
namespace LinuxRecordLockState
def new (lockCapacity waiterCapacity : Nat) : LinuxRecordLockState lockCapacity waiterCapacity :=
  ⟨.new lockCapacity, List.replicate waiterCapacity none, List.length_replicate, 0⟩

/-- `checked_add(1)` on the `u64` sequence counter. -/
def checkedNextSequence (sequence : Nat) : Option Nat :=
  if sequence + 1 < 2 ^ 64 then some (sequence + 1) else none

def push (state : LinuxRecordLockState lockCapacity waiterCapacity)
  (waiter : LinuxRecordLockWaiter) :
  Except LinuxRecordLockWaiterError (LinuxRecordLockState lockCapacity waiterCapacity) :=
  if state.waiters.reduceOption.any fun current =>
      current.tid == waiter.tid && current.schedulerThread == waiter.schedulerThread then
    .error .duplicate
  else
    match checkedNextSequence state.nextSequence with
    | none => .error .exhausted
    | some nextSequence =>
      match hfill : fillFirst
          { waiter with sequence := state.nextSequence, outcome := .waiting }
          state.waiters with
      | none => .error .capacity
      | some filled =>
        .ok
          { state with
            waiters := filled
            waiters_length := (fillFirst_length hfill).trans state.waiters_length
            nextSequence := nextSequence }

end LinuxRecordLockState

/-! ## The wake scan -/

variable (locks : LinuxRecordLockTable lockCapacity)
/-- A waiter the scan selects: still waiting, and nothing conflicts any more. -/
def grantable (waiter : LinuxRecordLockWaiter) : Bool :=
  waiter.outcome == .waiting &&
    (locks.firstConflict waiter.fileId waiter.owner waiter.kind waiter.range).isNone

namespace LinuxRecordLockState
/-- Every round of the loop but the last wakes one waiter, so one round more
than there are slots runs the loop to its end. -/
def wakeReady (state : LinuxRecordLockState lockCapacity waiterCapacity) :
  LinuxRecordLockState lockCapacity waiterCapacity × List (Nat × Nat) :=
  let scanned := markOldest LinuxRecordLockWaiter.sequence (grantable state.locks)
    (fun waiter => { waiter with outcome := .woken }) (waiterCapacity + 1) state.waiters
  ({ state with
      waiters := scanned.1
      waiters_length := (markOldest_length _ _).trans state.waiters_length },
    scanned.2.map LinuxRecordLockWaiter.identity)

def names (identity : Nat × Nat) (waiter : LinuxRecordLockWaiter) : Bool :=
  waiter.tid == identity.1 && waiter.schedulerThread == identity.2

def setSlot (state : LinuxRecordLockState lockCapacity waiterCapacity) (index : Nat)
  (slot : Option LinuxRecordLockWaiter) : LinuxRecordLockState lockCapacity waiterCapacity :=
  { state with
    waiters := state.waiters.set index slot
    waiters_length := List.length_set.trans state.waiters_length }

variable (state : LinuxRecordLockState lockCapacity waiterCapacity)
def interrupt (identity : Nat × Nat) : LinuxRecordLockState lockCapacity waiterCapacity × Bool :=
  match firstEntry (names identity) state.waiters with
  | none => (state, false)
  | some (index, waiter) =>
    if waiter.outcome != .waiting then
      (state, false)
    else
      (state.setSlot index (some { waiter with outcome := .interrupted }), true)

def removeTask (state : LinuxRecordLockState lockCapacity waiterCapacity) (identity : Nat × Nat) :
  LinuxRecordLockState lockCapacity waiterCapacity × Nat :=
  ({ state with
      waiters := state.waiters.map fun slot => slot.filter fun waiter => !names identity waiter
      waiters_length := (List.length_map _).trans state.waiters_length },
    state.waiters.reduceOption.countP (names identity))

def takeOutcome (identity : Nat × Nat) : LinuxRecordLockState lockCapacity waiterCapacity ×
    Option LinuxRecordLockWaitOutcome :=
  match firstEntry (fun waiter => names identity waiter && waiter.outcome != .waiting)
      state.waiters with
  | none => (state, none)
  | some (index, waiter) => (state.setSlot index none, some waiter.outcome)

def reset (_state : LinuxRecordLockState lockCapacity waiterCapacity) :
  LinuxRecordLockState lockCapacity waiterCapacity :=
  new lockCapacity waiterCapacity

end LinuxRecordLockState

/-! ## What the scan does -/

variable {idx rounds : Nat}
/-- A grantable waiter becomes `woken`, every other one stays. -/
def wakeIfGrantable (waiter : LinuxRecordLockWaiter) : LinuxRecordLockWaiter :=
  if grantable locks waiter then { waiter with outcome := .woken } else waiter

theorem not_grantable_woken (waiter : LinuxRecordLockWaiter) :
    grantable locks { waiter with outcome := .woken } = false := rfl

theorem not_grantable_wakeIfGrantable (waiter) :
  grantable locks (wakeIfGrantable locks waiter) = false := by
  unfold wakeIfGrantable
  split
  · rfl
  · exact Bool.not_eq_true _ ▸ ‹¬ grantable locks waiter = true›

/-- The grantable waiters among the slots. -/
def grantables (waiters : List (Option LinuxRecordLockWaiter)) : List LinuxRecordLockWaiter :=
  waiters.reduceOption.filter (grantable locks)

/-! ## The waiting set under each operation -/

namespace LinuxRecordLockState
variable {state : LinuxRecordLockState lockCapacity waiterCapacity}

section
variable (state : LinuxRecordLockState lockCapacity waiterCapacity) (waiter : LinuxRecordLockWaiter)
/-- The waiter is published and has no outcome yet. -/
def Waits : Prop := some waiter ∈ state.waiters ∧ waiter.outcome = .waiting

/-- The waiter's request conflicts with a lock of another owner. -/
def Blocked : Prop :=
  (state.locks.firstConflict waiter.fileId waiter.owner waiter.kind waiter.range).isSome = true

end

variable {waiter : LinuxRecordLockWaiter} {identity : Nat × Nat}
/-- Clearing or deciding a slot only takes waiters away. -/
theorem Waits.of_setSlot {slot} (decided : ∀ waiter, slot = some waiter → waiter.outcome ≠ .waiting)
  (waits : (state.setSlot idx slot).Waits waiter) : state.Waits waiter := by
  obtain ⟨hmem, waiting⟩ := waits
  rcases mem_or_eq_of_mem_set hmem with hold | hslot
  · exact ⟨hold, waiting⟩
  · exact absurd waiting (decided waiter hslot.symm)

theorem interrupt_locks (ident) : (state.interrupt ident).1.locks = state.locks := by
  unfold interrupt
  repeat' split
  all_goals rfl

theorem Waits.of_interrupt (waits : (state.interrupt identity).1.Waits waiter) :
  state.Waits waiter := by
  unfold interrupt at waits
  repeat' split at waits
  · exact waits
  · exact waits
  refine waits.of_setSlot ?_
  rintro decided ⟨⟩
  exact nofun

theorem Waits.of_removeTask (waits : (state.removeTask identity).1.Waits waiter) :
  state.Waits waiter := by
  obtain ⟨hmem, waiting⟩ := waits
  obtain ⟨slot, hslot, kept⟩ := mem_map.mp hmem
  rw [filter_eq_some_iff] at kept
  exact ⟨kept.1 ▸ hslot, waiting⟩

theorem takeOutcome_locks (ident) : (state.takeOutcome ident).1.locks = state.locks := by
  unfold takeOutcome
  split <;> rfl

theorem Waits.of_takeOutcome (waits : (state.takeOutcome identity).1.Waits waiter) :
  state.Waits waiter := by
  unfold takeOutcome at waits
  split at waits
  · exact waits
  · exact waits.of_setSlot (by simp)

theorem push_ok {pushed} (hpush : state.push waiter = .ok pushed) :
  pushed.locks = state.locks ∧ ∀ other, pushed.Waits other → state.Waits other ∨
    other = { waiter with sequence := state.nextSequence, outcome := .waiting } := by
  unfold push at hpush
  repeat' split at hpush
  · cases hpush
  · cases hpush
  · cases hpush
  rename_i filled fill
  cases hpush
  refine ⟨rfl, fun other waits => ?_⟩
  have perm := fillFirst_perm fill
  have hmem := perm.mem_iff.mp (reduceOption_mem_iff.mpr waits.1)
  rcases mem_cons.mp hmem with hnew | hold
  · exact .inr hnew
  · exact .inl ⟨reduceOption_mem_iff.mp hold, waits.2⟩

/-- The scan wakes exactly the grantable waiters and reports each identity. -/
theorem wakeReady_spec (state : LinuxRecordLockState lockCapacity waiterCapacity) :
  state.wakeReady.1.locks = state.locks ∧
  state.wakeReady.1.waiters = state.waiters.map (Option.map (wakeIfGrantable state.locks)) ∧
  state.wakeReady.2.Perm
    ((grantables state.locks state.waiters).map LinuxRecordLockWaiter.identity) := by
  have enough : state.waiters.reduceOption.countP (grantable state.locks) ≤ waiterCapacity + 1 :=
    calc state.waiters.reduceOption.countP (grantable state.locks)
        ≤ state.waiters.reduceOption.length := countP_le_length
      _ ≤ state.waiters.length := reduceOption_length_le _
      _ ≤ waiterCapacity + 1 := state.waiters_length.trans_le (Nat.le_succ _)
  obtain ⟨waiters, marked⟩ :=
    markOldest_all LinuxRecordLockWaiter.sequence (not_grantable_woken state.locks) enough
  exact ⟨rfl, waiters, marked.map _⟩

/-- After a scan every waiter that still waits is blocked. -/
theorem Waits.blocked_of_wakeReady (waits : state.wakeReady.1.Waits waiter) :
  state.wakeReady.1.Blocked waiter := by
  obtain ⟨locks, waiters, -⟩ := wakeReady_spec state
  obtain ⟨hmem, waiting⟩ := waits
  rw [waiters] at hmem
  obtain ⟨slot, -, hslot⟩ := mem_map.mp hmem
  obtain ⟨before, -, rfl⟩ := map_eq_some_iff.mp hslot
  have refused := not_grantable_wakeIfGrantable state.locks before
  unfold grantable at refused
  rw [waiting] at refused
  unfold Blocked
  rw [locks]
  simpa using refused

end LinuxRecordLockState
end Smros.RecordLock
