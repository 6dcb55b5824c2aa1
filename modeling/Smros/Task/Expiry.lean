import Mathlib.Order.Bounds.Defs
import Smros.Task.Effects

/-!
# Expiry one task at a time

The timer ends one wait per lock section, from wherever its cursor stands, until no wait
is over.  That ends the waits which one pass over the table would end.
-/

namespace Smros.Task
open Lib List LinuxTaskTable

namespace TaskSlot
variable {slot changed : TaskSlot} {expiry : Expiry} {now : Nat}
theorem not_sleepExpired_endSleep (now) (slot : TaskSlot) :
  (slot.endSleep .completed).sleepExpired now = false := by
  have ended : (slot.endSleep .completed).waitingSleep = none := by
    unfold waitingSleep
    split
    · simp [endSleep]
    · rfl
  rw [sleepExpired, ended]
  rfl

theorem completeSleep_fst : (slot.completeSleep (sleepExpired now)).map Prod.fst = some expiry ↔
    ∃ task wait, slot.task = some task ∧ slot.waitingSleep = some wait ∧
      wait.precisionDeadlineNanoseconds = none ∧ wait.deadline ≤ now ∧ task.expiry = expiry := by
  cases htask : slot.task with
  | none => simp [completeSleep, htask]
  | some task =>
    cases hwait : slot.waitingSleep <;>
      simp [completeSleep, htask, sleepExpired, hwait, and_assoc]

theorem expireSignalWait_isSome {state : LinuxTaskSignalState} :
  (state.expireSignalWait now).isSome ↔ ∃ wait deadline, state.signalWait = some wait ∧
    wait.previousMask = none ∧ wait.outcome = .waiting ∧ wait.deadline = some deadline ∧
    deadline ≤ now := by
  unfold LinuxTaskSignalState.expireSignalWait
  cases hwait : state.signalWait with
  | none => simp
  | some wait => cases hdue : wait.deadline <;> simp [hdue]

theorem expireSignalWait_fst : (slot.expireSignalWait now).map Prod.fst = some expiry ↔
    ∃ task, slot.task = some task ∧ task.isBlockedOn .signalWait = true ∧
      (slot.signalState.expireSignalWait now).isSome = true ∧ task.expiry = expiry := by
  cases htask : slot.task with
  | none => simp [expireSignalWait, htask]
  | some task =>
    cases hexpired : slot.signalState.expireSignalWait now <;>
      simp [expireSignalWait, htask, hexpired]

theorem expireSignalWait_once (expire : slot.expireSignalWait now = some (expiry, changed)) :
  changed.expireSignalWait now = none := by
  obtain ⟨task, expired, htask, blocked, hexpired, rfl, rfl⟩ := expireSignalWait_some expire
  simp only [LinuxTaskSignalState.expireSignalWait, Option.bind_eq_bind,
    Option.bind_eq_some_iff] at hexpired
  obtain ⟨wait, hwait, hexpired⟩ := hexpired
  split at hexpired <;> cases hexpired
  simp [expireSignalWait, LinuxTaskSignalState.expireSignalWait]

end TaskSlot

namespace LinuxTaskTable
variable {limit : Nat} {change : TaskSlot.Expires} {places : List (TaskSlot × Nat)}
  {table : LinuxTaskTable limit}
theorem firstExpiry_none (hplaces : table.slots.zipIdx ⊆ places)
  (hfirst : firstExpiry change places = none) : ∀ slot ∈ table.slots, change slot = none := by
  intro slot hslot
  obtain ⟨idx, hidx⟩ := getElem?_of_mem hslot
  have hplace := hplaces (mk_mem_zipIdx_iff_getElem?.mpr hidx)
  exact Option.map_eq_none_iff.mp (findSome?_eq_none_iff.mp hfirst _ hplace)

theorem expireOneSleep_changesOne (now) :
  ChangesOne (TaskSlot.completeSleep (TaskSlot.sleepExpired now)) LinuxTaskTable.slots
    fun table : LinuxTaskTable limit => table.expireOneSleep now where
  once complete := by
    cases completeSleep_some complete
    simp [TaskSlot.completeSleep, TaskSlot.not_sleepExpired_endSleep]
  idle hcall := firstExpiry_none (fun _ => mem_rotate.mpr) (Option.map_eq_none_iff.mp hcall)
  works hcall := by
    obtain ⟨⟨expiry, idx, changed⟩, hfirst, same⟩ := Option.map_eq_some_iff.mp hcall
    cases same
    obtain ⟨slot, hslot, complete⟩ := firstExpiry_some (fromCursor_subset _) hfirst
    exact ⟨idx, slot, changed, hslot, complete, rfl⟩

theorem expireOne_changesOne (now) :
  ChangesOne (TaskSlot.expireSignalWait now) LinuxTaskTable.slots
    fun table : LinuxTaskTable limit => table.expireOneSignalWait now where
  once := TaskSlot.expireSignalWait_once
  idle hcall := firstExpiry_none (Subset.refl _) (Option.map_eq_none_iff.mp hcall)
  works hcall := by
    obtain ⟨⟨expiry, idx, changed⟩, hfirst, same⟩ := Option.map_eq_some_iff.mp hcall
    cases same
    obtain ⟨slot, hslot, expire⟩ := firstExpiry_some (Subset.refl _) hfirst
    exact ⟨idx, slot, changed, hslot, expire, rfl⟩

/-- The time in nanoseconds until which a task of the table sleeps. -/
def PrecisionDeadline (table : LinuxTaskTable limit) (deadline : Nat) : Prop :=
  ∃ slot ∈ table.slots, ∃ wait, slot.waitingSleep = some wait ∧
    wait.precisionDeadlineNanoseconds = some deadline

/-- Waits ended one call at a time are those which one pass ends: the ones that are over. -/
theorem expiry_one_at_a_time (table : LinuxTaskTable limit) (now : Nat) :
  (∃ expired last, Drains (fun table => table.expireOneSleep now) table expired last ∧
    expired.Perm (table.expireSleeps now).1 ∧ last.slots = (table.expireSleeps now).2.slots) ∧
  (∃ expired last, Drains (fun table => table.expireOneSignalWait now) table expired last ∧
    expired.Perm (table.expireSignalWaits now).1 ∧
    last.slots = (table.expireSignalWaits now).2.slots) ∧
  (∀ expiry, expiry ∈ (table.expireSleeps now).1 ↔ ∃ slot ∈ table.slots, ∃ task wait,
    slot.task = some task ∧ slot.waitingSleep = some wait ∧
    wait.precisionDeadlineNanoseconds = none ∧ wait.deadline ≤ now ∧ task.expiry = expiry) ∧
  (∀ expiry, expiry ∈ (table.expireSignalWaits now).1 ↔ ∃ slot ∈ table.slots,
    ∃ task, slot.task = some task ∧ task.isBlockedOn .signalWait = true ∧
      (∃ wait deadline, slot.signalState.signalWait = some wait ∧ wait.previousMask = none ∧
        wait.outcome = .waiting ∧ wait.deadline = some deadline ∧ deadline ≤ now) ∧
      task.expiry = expiry) ∧
  ∀ deadline, table.nextPrecisionSleepDeadline = some deadline ↔
    IsLeast { time | table.PrecisionDeadline time } deadline := by
  refine ⟨(expireOneSleep_changesOne now).drains table,
    (expireOne_changesOne now).drains table, fun expiry => ?_, fun expiry => ?_,
    fun deadline => ?_⟩
  · exact mem_filterMap.trans (by simp only [TaskSlot.completeSleep_fst])
  · exact mem_filterMap.trans (by simp only [TaskSlot.expireSignalWait_fst,
      TaskSlot.expireSignalWait_isSome])
  · rw [nextPrecisionSleepDeadline, min?_eq_some_iff]
    simp only [mem_filterMap, Option.bind_eq_some_iff]
    rfl

/-- A task that sleeps until a time in nanoseconds is not woken at the tick of its deadline. -/
theorem precision_sleep_outlasts_tick :
  let wait : LinuxSleepWait := ⟨104, .waiting, some ⟨100, 40000000⟩, none, some 140000000⟩
  let table : LinuxTaskTable 1 :=
    ⟨[{ TaskSlot.fresh (some ⟨2, 1, 8, .blocked, .sleep⟩) with sleepWait := some wait }],
      0, 3, false, rfl⟩
  wait.deadline ≤ 104 ∧ (table.expireSleeps 104).1 = [] ∧
    (table.expireOneSleep 104).isNone = true := by
  decide +kernel

end LinuxTaskTable
end Smros.Task
