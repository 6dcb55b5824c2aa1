import Mathlib.Data.List.Rotate
import Smros.Task.Table

/-!
# What a call does to the task table

Most calls write the side state of one slot and leave the tasks alone.  The others put a
new task into an empty slot, change the state of one task, or empty slots.
-/

namespace Smros.Task
open Lib Signal List
open Option (bind_eq_bind bind_eq_some_iff map_eq_some_iff)

/-- A task has a reason to be blocked exactly when it is blocked. -/
def LinuxTaskCore.ReasonFits (task : LinuxTaskCore) : Prop :=
  task.blockReason ≠ .none ↔ task.state = .blocked

variable {task : LinuxTaskCore}
theorem LinuxTaskCore.reasonFits_of_none (reason : task.blockReason = .none)
  (state : task.state ≠ .blocked) : task.ReasonFits :=
  ⟨fun hsome => absurd reason hsome, fun blocked => absurd blocked state⟩

namespace LinuxTaskTable
open LinuxTaskCore
variable {limit thr sig now : Nat} {table : LinuxTaskTable limit}
/-- The counter of tids is as it was. -/
structure SameCounter (table after : LinuxTaskTable limit) : Prop where
  nextTid : after.nextTid = table.nextTid
  exhausted : after.exhausted = table.exhausted

/-- What a call can do to the tasks and to the counter of tids. -/
inductive Effect (table after : LinuxTaskTable limit) : Prop where
  | keeps (tasks : after.tasks = table.tasks) (counter : SameCounter table after)
  | exhausts (slots : after.slots = table.slots) (exhausted : after.exhausted = true)
  | root (index : Nat) (task : LinuxTaskCore) (empty : table.tasks[index]? = some none)
      (unused : ∀ other ∈ table.used, other.tid ≠ linuxRootTid) (number : task.tid = linuxRootTid)
      (reason : task.ReasonFits) (slots : after.slots = table.slots.set index (.fresh (some task)))
      (counter : SameCounter table after)
  | child (index : Nat) (task : LinuxTaskCore) (empty : table.tasks[index]? = some none)
      (number : task.tid = table.nextTid) (high : linuxRootTid < task.tid)
      (reason : task.ReasonFits) (slots : after.slots = table.slots.set index (.fresh (some task)))
      (before : table.exhausted = false)
      (counter : after.exhausted = true ∨ after.nextTid = task.tid + 1)
  | turns (index : Nat) (task turned : LinuxTaskCore) (held : table.tasks[index]? = some (some task))
      (number : turned.tid = task.tid) (reason : task.ReasonFits → turned.ReasonFits)
      (tasks : after.tasks = table.tasks.set index (some turned)) (counter : SameCounter table after)
  | leaves (index : Nat) (task : LinuxTaskCore) (held : table.tasks[index]? = some (some task))
      (tasks : after.tasks = table.tasks.set index none) (counter : SameCounter table after)
  | clears (slots : after.slots = List.replicate limit (.fresh none))
      (counter : SameCounter table after)

theorem SameCounter.refl : SameCounter table table := ⟨rfl, rfl⟩

theorem Effect.refl : Effect table table := .keeps rfl .refl

/-! ## Writing a slot -/

@[simp] theorem tasks_write (idx slot) :
  (table.write idx slot).tasks = table.tasks.set idx slot.task := map_set

variable {after : LinuxTaskTable limit} {tid thr idx : Nat} {found parent child : FoundTask}
  {resv : LinuxTaskReservation} {slot changed : TaskSlot}
theorem sameCounter_write : SameCounter table (table.write idx slot) := ⟨rfl, rfl⟩

section
variable (hslot : table.slots[idx]? = some slot)
include hslot
theorem tasks_getElem : table.tasks[idx]? = some slot.task := by
  rw [tasks, getElem?_map, hslot, Option.map_some]

/-- A write that leaves the slot's task alone. -/
theorem tasks_write_of_task_eq (task : changed.task = slot.task) :
  (table.write idx changed).tasks = table.tasks := by
  obtain ⟨hlt, same⟩ := List.getElem?_eq_some_iff.mp (tasks_getElem hslot)
  rw [tasks_write, task, ← same, set_getElem_self hlt]

theorem Effect.side (task : changed.task = slot.task) : Effect table (table.write idx changed) :=
  .keeps (tasks_write_of_task_eq hslot task) sameCounter_write

end

/-- What a search has found. -/
structure Finds (table : LinuxTaskTable limit) (found : FoundTask) : Prop where
  slot : table.slots[found.index]? = some found.slot
  task : found.slot.task = some found.task

theorem Finds.held (hfound : table.Finds found) :
  table.tasks[found.index]? = some (some found.task) := by
  rw [tasks_getElem hfound.slot, hfound.task]

variable {test : LinuxTaskCore → Bool}
theorem find_some (hfind : table.find test = some found) :
  table.Finds found ∧ test found.task = true := by
  simp only [find, bind_eq_bind, bind_eq_some_iff, Option.pure_def, Option.some.injEq] at hfind
  obtain ⟨⟨idx, slot⟩, hfirst, task, htask, rfl⟩ := hfind
  obtain ⟨hslot, htest⟩ := firstPlace_some hfirst
  rw [htask] at htest
  exact ⟨⟨hslot, htask⟩, htest⟩

theorem reserved_some {states} (find : table.reserved states resv = some found) :
  table.Finds found ∧ found.task.state ∈ states := by
  simp only [reserved, bind_eq_bind, bind_eq_some_iff] at find
  obtain ⟨slot, hslot, task, htask, find⟩ := find
  split at find
  · rename_i fits
    cases find
    exact ⟨⟨hslot, htask⟩, fits.1⟩
  · cases find

theorem emptySlot_some (empty : table.emptySlot = some idx) : table.tasks[idx]? = some none := by
  obtain ⟨hlt, hnone, -⟩ := findIdx?_eq_some_iff_getElem.mp empty
  rw [tasks_getElem (getElem?_eq_getElem hlt)]
  exact congrArg some (Option.isNone_iff_eq_none.mp hnone)

section
variable (hfound : table.Finds found)
include hfound
/-- A search followed by a write of the slot's side state. -/
theorem Effect.side_of_find (task : changed.task = found.slot.task) :
  Effect table (table.write found.index changed) :=
  .side hfound.slot task

variable {turned : LinuxTaskCore}
theorem Effect.turn (hchanged : changed.task = some turned) (num : turned.tid = found.task.tid)
  (reason : found.task.ReasonFits → turned.ReasonFits) :
  Effect table (table.write found.index changed) := by
  apply Effect.turns found.index found.task turned hfound.held num reason _ sameCounter_write
  rw [tasks_write, hchanged]

theorem Effect.leave : Effect table (table.write found.index (.fresh none)) :=
  .leaves found.index found.task hfound.held (tasks_write _ _) sameCounter_write

end

/-! ## The calls -/

/-- A search whose result is written back with a change of its side state. -/
theorem Effect.of_map_find {change : FoundTask → TaskSlot}
  (task : ∀ found, (change found).task = found.slot.task) (after)
  (hafter : (table.find test).map (fun found => table.write found.index (change found)) =
    some after) : Effect table after := by
  obtain ⟨found, hfound, rfl⟩ := map_eq_some_iff.mp hafter
  exact .side_of_find (find_some hfound).1 (task found)

/-- A call that may fail, and then changes nothing. -/
theorem Effect.of_option {result} (effect : ∀ after, result = some after → Effect table after) :
  Effect table (result.getD table) := by
  cases hresult : result with
  | none => exact .refl
  | some after => exact effect after hresult

theorem registerRoot_effect (root : table.registerRoot thr = .ok (tid, after)) :
  Effect table after := by
  unfold registerRoot at root
  split at root
  · cases root
  rename_i unused
  split at root
  · cases root
  rename_i idx empty
  cases root
  refine .root idx _ (emptySlot_some empty) ?_ rfl ?_ rfl sameCounter_write
  · intro other hother htid
    exact unused (any_eq_true.mpr ⟨other, hother, beq_iff_eq.mpr htid⟩)
  · exact reasonFits_of_none rfl nofun

theorem reserveChild_effect (tgid thr) : Effect table (table.reserveChild tgid thr).2 := by
  unfold reserveChild
  split
  · exact .refl
  rename_i exhausted
  split
  · exact .refl
  rename_i idx empty
  split
  · exact .exhausts rfl rfl
  rename_i tid followingTid alloc
  unfold linuxTaskTidAllocation at alloc
  split at alloc
  · cases alloc
  rename_i range
  rw [not_or, Nat.not_le, Nat.not_lt] at range
  cases alloc
  refine .child idx _ (emptySlot_some empty) rfl range.1 ?_ rfl ?_ ?_
  · exact reasonFits_of_none rfl nofun
  · simpa using exhausted
  split
  · exact .inr rfl
  · exact .inl rfl

theorem parentOf_some (hparent : table.parentOf resv thr = some (parent, child)) :
  table.Finds child := by
  simp only [parentOf, bind_eq_bind, bind_eq_some_iff] at hparent
  obtain ⟨_, -, found, hfound, hparent⟩ := hparent
  split at hparent
  · cases hparent
    exact (reserved_some hfound).1
  · cases hparent

theorem refreshSleep_task (now offset tick) (slot : TaskSlot) :
  (slot.refreshRealtimeSleepDeadline now offset tick).task = slot.task := by
  unfold TaskSlot.refreshRealtimeSleepDeadline
  dsimp only
  split
  · rfl
  · split <;> rfl

theorem onSignalState_effect {Value} (hfound : table.Finds found)
  (prog : Program LinuxTaskSignalState LinuxSignalRouteError Value) :
  Effect table (table.onSignalState found prog).2 := by
  unfold onSignalState
  split
  · exact .side_of_find hfound rfl
  · exact .side_of_find hfound rfl

variable {endTimed endSuspend : LinuxTaskSignalState → Option LinuxTaskSignalState}
theorem endSignalWait_effect {answer}
  (hend : table.endSignalWait tid thr endTimed endSuspend = some answer) :
  Effect table answer.2 := by
  simp only [endSignalWait, bind_eq_bind, bind_eq_some_iff, Option.pure_def,
    Option.some.injEq] at hend
  obtain ⟨found, hfound, ended, -, rfl⟩ := hend
  exact .side_of_find (find_some hfound).1 rfl

theorem publish_effect (publish : table.publish resv = some after) : Effect table after := by
  obtain ⟨found, hfound, rfl⟩ := map_eq_some_iff.mp publish
  obtain ⟨finds, state⟩ := reserved_some hfound
  have starting : found.task.state = .starting := mem_singleton.mp state
  refine .turn finds rfl rfl fun fits => reasonFits_of_none ?_ nofun
  by_contra reason
  exact absurd (fits.mp reason) (by rw [starting]; exact nofun)

theorem block_effect {reason} (hblock : table.block tid thr reason = some after) :
  Effect table after := by
  unfold block at hblock
  split at hblock
  · cases hblock
  rename_i hreason
  simp only [bind_eq_bind, bind_eq_some_iff] at hblock
  obtain ⟨found, hfound, hblock⟩ := hblock
  split at hblock
  · cases hblock
    exact .turn (find_some hfound).1 rfl rfl fun _ => ⟨fun _ => rfl, fun _ => hreason⟩
  · cases hblock

theorem wake_effect (hwake : table.wake tid thr = some after) : Effect table after := by
  simp only [wake, bind_eq_bind, bind_eq_some_iff] at hwake
  obtain ⟨found, hfound, hwake⟩ := hwake
  split at hwake
  · cases hwake
    exact .turn (find_some hfound).1 rfl rfl fun _ => reasonFits_of_none rfl nofun
  · cases hwake

theorem exit_effect {answer} (exit : table.exitWithClearChildTid tid thr = some answer) :
  Effect table answer.2 := by
  obtain ⟨found, hfound, rfl⟩ := map_eq_some_iff.mp exit
  exact .turn (find_some hfound).1 rfl rfl fun _ => reasonFits_of_none rfl nofun

theorem retire_effect (hretire : table.retire tid thr = some after) : Effect table after := by
  simp only [retire, bind_eq_bind, bind_eq_some_iff] at hretire
  obtain ⟨found, hfound, hretire⟩ := hretire
  split at hretire
  · cases hretire
    exact .leave (find_some hfound).1
  · cases hretire

theorem routeSignal_effect (tgid : Option Nat) (tid : Nat) (rec : LinuxPendingSignal) :
  Effect table (table.routeSignal tgid tid rec).2 := by
  unfold routeSignal
  split
  · exact .refl
  rename_i found hfound
  split
  · exact .refl
  · exact onSignalState_effect (find_some hfound).1 _

theorem routeSignalAndCompleteWait_effect (tgid : Option Nat) (tid : Nat)
  (rec : LinuxPendingSignal) : Effect table (table.routeSignalAndCompleteWait tgid tid rec).2 := by
  unfold routeSignalAndCompleteWait
  split
  · exact .refl
  rename_i found hfound
  split
  · exact .refl
  · exact onSignalState_effect (find_some hfound).1 _

theorem installSleep_effect {wait} (install : table.installSleep tid thr wait = some after) :
  Effect table after := by
  simp only [installSleep, bind_eq_bind, bind_eq_some_iff] at install
  obtain ⟨found, hfound, install⟩ := install
  split at install
  · cases install
  · cases install
    exact .side_of_find (find_some hfound).1 rfl

theorem takeSleepOutcome_effect {answer} (take : table.takeSleepOutcome tid thr = some answer) :
  Effect table answer.2 := by
  simp only [takeSleepOutcome, bind_eq_bind, bind_eq_some_iff] at take
  obtain ⟨found, hfound, wait, -, take⟩ := take
  split at take
  · cases take
  · cases take
    exact .side_of_find (find_some hfound).1 rfl

theorem cancelSleep_effect (cancel : table.cancelSleep tid thr = some after) :
  Effect table after := by
  simp only [cancelSleep, bind_eq_bind, bind_eq_some_iff] at cancel
  obtain ⟨found, hfound, cancel⟩ := cancel
  split at cancel
  · cases cancel
  · cases cancel
    exact .side_of_find (find_some hfound).1 rfl

theorem interruptSleep_effect (hinterrupt : table.interruptSleep tid thr sig = some after) :
  Effect table after := by
  simp only [interruptSleep, bind_eq_bind, bind_eq_some_iff] at hinterrupt
  obtain ⟨found, hfound, hinterrupt⟩ := hinterrupt
  split at hinterrupt
  · cases hinterrupt
  · cases hinterrupt
    exact .side_of_find (find_some hfound).1 rfl

variable {change : TaskSlot.Expires} {places : List (TaskSlot × Nat)}
  {expiry : Expiry}
theorem firstExpiry_some (hplaces : places ⊆ table.slots.zipIdx)
  (hfirst : firstExpiry change places = some (expiry, idx, changed)) :
  ∃ slot, table.slots[idx]? = some slot ∧ change slot = some (expiry, changed) := by
  obtain ⟨⟨slot, place⟩, hplace, hchange⟩ := exists_of_findSome?_eq_some hfirst
  obtain ⟨⟨told, expired⟩, hslot, same⟩ := map_eq_some_iff.mp hchange
  cases same
  exact ⟨slot, mk_mem_zipIdx_iff_getElem?.mp (hplaces hplace), hslot⟩

theorem fromCursor_subset (table : LinuxTaskTable limit) :
  table.fromCursor ⊆ table.slots.zipIdx := fun _ => mem_rotate.mp

theorem completeSleep_some {ended} (complete : slot.completeSleep ended = some (expiry, changed)) :
  changed = slot.endSleep .completed := by
  simp only [TaskSlot.completeSleep, bind_eq_bind, bind_eq_some_iff] at complete
  obtain ⟨task, -, complete⟩ := complete
  split at complete <;> cases complete
  rfl

theorem expireSignalWait_some (expire : slot.expireSignalWait now = some (expiry, changed)) :
  ∃ task expired, slot.task = some task ∧ task.isBlockedOn .signalWait = true ∧
    slot.signalState.expireSignalWait now = some expired ∧ expiry = task.expiry ∧
    changed = { slot with signalState := expired } := by
  simp only [TaskSlot.expireSignalWait, bind_eq_bind, bind_eq_some_iff] at expire
  obtain ⟨task, htask, expire⟩ := expire
  split at expire
  next blocked =>
    obtain ⟨expired, hexpired, same⟩ := bind_eq_some_iff.mp expire
    cases same
    exact ⟨task, expired, htask, blocked, hexpired, rfl, rfl⟩
  · cases expire

/-- A pass over all slots whose changes keep the tasks. -/
theorem expireSlots_effect (hchange : ∀ {slot expiry changed},
    change slot = some (expiry, changed) → changed.task = slot.task) :
    Effect table (table.expireSlots change).2 := by
  refine .keeps ?_ ⟨rfl, rfl⟩
  change (table.slots.map _).map TaskSlot.task = table.slots.map TaskSlot.task
  rw [map_map]
  refine map_congr_left fun slot _ => ?_
  cases hslot : change slot with
  | none => simp [hslot]
  | some answer => simpa [hslot] using hchange hslot

theorem next_effect (table : LinuxTaskTable limit) (call) : Effect table (table.next call) := by
  cases call with
  | registerRoot thr =>
    rw [next]
    split
    · exact .refl
    · rename_i root
      exact registerRoot_effect root
  | reserveChild tgid thr => exact reserveChild_effect tgid thr
  | inheritSignalMask resv thr
  | inheritSchedParam resv thr =>
    refine .of_option fun after hafter => ?_
    obtain ⟨⟨parent, child⟩, hparent, rfl⟩ := map_eq_some_iff.mp hafter
    exact .side_of_find (parentOf_some hparent) rfl
  | publish resv => exact .of_option fun _ => publish_effect
  | rollback resv =>
    refine .of_option fun after hafter => ?_
    obtain ⟨found, hfound, rfl⟩ := map_eq_some_iff.mp hafter
    exact .leave (reserved_some hfound).1
  | setSchedParam tid thr param => exact .of_option (.of_map_find fun _ => rfl)
  | block tid thr reason => exact .of_option fun _ => block_effect
  | wake tid thr => exact .of_option fun _ => wake_effect
  | setClearChildTid tid thr addr => exact .of_option (.of_map_find fun _ => rfl)
  | exit tid thr =>
    refine .of_option fun after hafter => ?_
    obtain ⟨answer, hexit, rfl⟩ := map_eq_some_iff.mp hafter
    exact exit_effect hexit
  | retire tid thr => exact .of_option fun _ => retire_effect
  | reset => exact .clears rfl ⟨rfl, rfl⟩
  | installSleep tid thr wait => exact .of_option fun _ => installSleep_effect
  | takeSleepOutcome tid thr =>
    refine .of_option fun after hafter => ?_
    obtain ⟨answer, take, rfl⟩ := map_eq_some_iff.mp hafter
    exact takeSleepOutcome_effect take
  | cancelSleep tid thr => exact .of_option fun _ => cancelSleep_effect
  | interruptSleep tid thr sig => exact .of_option fun _ => interruptSleep_effect
  | expireSleeps now =>
    exact expireSlots_effect fun complete => by rw [completeSleep_some complete, TaskSlot.endSleep]
  | expireOneSleep now =>
    refine .of_option fun after hafter => ?_
    simp only [expireOneSleep, Option.map_map, map_eq_some_iff] at hafter
    obtain ⟨⟨expiry, idx, changed⟩, hfirst, rfl⟩ := hafter
    obtain ⟨slot, hslot, complete⟩ := firstExpiry_some table.fromCursor_subset hfirst
    cases completeSleep_some complete
    have tasks : (table.write idx (slot.endSleep .completed)).tasks = table.tasks :=
      tasks_write_of_task_eq hslot rfl
    exact .keeps tasks ⟨rfl, rfl⟩
  | expirePrecisionSleep now =>
    refine .of_option fun after hafter => ?_
    simp only [expirePrecisionSleep, Option.map_map, map_eq_some_iff] at hafter
    obtain ⟨⟨expiry, idx, changed⟩, hfirst, rfl⟩ := hafter
    obtain ⟨slot, hslot, complete⟩ := firstExpiry_some (Subset.refl _) hfirst
    cases completeSleep_some complete
    exact .side hslot rfl
  | refreshRealtimeSleepDeadlines now offset tick =>
    refine .keeps ?_ ⟨rfl, rfl⟩
    change ((table.slots.map _).map TaskSlot.task) = table.slots.map TaskSlot.task
    rw [map_map]
    exact map_congr_left fun slot _ => refreshSleep_task now offset tick slot
  | changeSignalState tid thr change => exact .of_option (.of_map_find fun _ => rfl)
  | routeSignal tgid tid rec => exact routeSignal_effect tgid tid rec
  | routeSignalAndCompleteWait tgid tid rec => exact routeSignalAndCompleteWait_effect tgid tid rec
  | completeProcessSignalWait tid thr rec resv
  | interruptProcessSignalWait tid thr sig =>
    refine .of_option fun after hafter => ?_
    obtain ⟨answer, hend, rfl⟩ := map_eq_some_iff.mp hafter
    exact endSignalWait_effect hend
  | expireSignalWaits now =>
    refine expireSlots_effect fun expire => ?_
    obtain ⟨-, -, -, -, -, -, rfl⟩ := expireSignalWait_some expire
    rfl
  | expireOneSignalWait now =>
    refine .of_option fun after hafter => ?_
    simp only [expireOneSignalWait, Option.map_map, map_eq_some_iff] at hafter
    obtain ⟨⟨expiry, idx, changed⟩, hfirst, rfl⟩ := hafter
    obtain ⟨slot, hslot, expire⟩ := firstExpiry_some (Subset.refl _) hfirst
    obtain ⟨-, -, -, -, -, -, rfl⟩ := expireSignalWait_some expire
    exact .side hslot rfl

end LinuxTaskTable
end Smros.Task
