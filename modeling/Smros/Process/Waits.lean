import Mathlib.Algebra.Ring.Nat
import Smros.Process.Sound

/-!
# Terminations are reported once

The end of a child stands in the table until a wait of its parent takes it.  The books
of a run are kept for each process number and status: what ended was collected, was
dropped on purpose, or is still there.
-/

namespace Smros.Process
open Lib List LinuxProcessCore
namespace LinuxProcessCore
/-- An uncollected end with this status. -/
def isEnded (pid : Nat) (status : WaitStatus) (process : LinuxProcessCore) : Bool :=
  process.state == .zombie && process.pid == pid && process.waitStatus == status

@[simp] theorem isEnded_reparentedIf (pid status test) (proc : LinuxProcessCore) :
  (proc.reparentedIf test).isEnded pid status = proc.isEnded pid status := by
  simp [isEnded, LinuxProcessTable.reparentedIf_pid]

variable {pid : Nat} {status : WaitStatus}
theorem isEnded_of_ne {proc : LinuxProcessCore} (state : proc.state ≠ .zombie) :
  proc.isEnded pid status = false := by
  simp [isEnded, state]

end LinuxProcessCore

namespace LinuxProcessTable
variable {limit : Nat} {table after : LinuxProcessTable limit}

/-! ## The books -/

section
variable (pid : Nat) (status : WaitStatus) (table : LinuxProcessTable limit)
/-- The ends that stand in the table. -/
def waiting : Nat := table.used.countP (LinuxProcessCore.isEnded pid status)

variable (call : ProcessCall)

def endings : Nat :=
  match table.event call with
  | .ended ended endedStatus _ => if ended = pid ∧ endedStatus = status then 1 else 0
  | _ => 0

def collections : Nat :=
  match table.event call with
  | .collected _ collected collectedStatus =>
    if collected = pid ∧ collectedStatus = status then 1 else 0
  | _ => 0

/-- Ends that nobody is to be told of: the parent's action on `SIGCHLD` says so, or the
launch is over. -/
def drops : Nat :=
  match table.event call with
  | .ended ended endedStatus kept =>
    if ended = pid ∧ endedStatus = status ∧ kept = false then 1 else 0
  | .tornDown => table.used.countP fun process =>
    process.isEnded pid status && LinuxProcessCore.isVisibleChild linuxLaunchReaperPid process
  | .reset => table.waiting pid status
  | _ => 0

end

variable (pid : Nat) (status : WaitStatus) {process changed : LinuxProcessCore}
  {others : List LinuxProcessCore}
theorem waiting_of_turns {processes} (hafter : table.Turns after processes) :
  after.waiting pid status = processes.countP (isEnded pid status) :=
  hafter.used.countP_eq _

theorem waiting_of_perm (before : table.used.Perm (process :: others)) :
  table.waiting pid status = others.countP (isEnded pid status) +
    if process.isEnded pid status then 1 else 0 :=
  (before.countP_eq _).trans countP_cons

/-- A process that was no zombie and is none now does not matter. -/
theorem waiting_change (before : table.used.Perm (process :: others))
  (hafter : table.Turns after (changed :: others)) (hproc : process.state ≠ .zombie)
  (hchanged : changed.state ≠ .zombie) : after.waiting pid status = table.waiting pid status := by
  rw [waiting_of_turns pid status hafter, waiting_of_perm pid status before, countP_cons,
    isEnded_of_ne hproc, isEnded_of_ne hchanged]

variable {ended : Nat} {endedStatus : WaitStatus}
theorem waiting_finish {kept : Bool} {test : LinuxProcessCore → Bool}
  (finished : table.Finished after ended endedStatus kept process others test) :
  after.waiting pid status + (if ended = pid ∧ endedStatus = status ∧ kept = false then 1 else 0) =
    table.waiting pid status + if ended = pid ∧ endedStatus = status then 1 else 0 := by
  have running : process.state ≠ .zombie := by simp [finished.running]
  have count : after.waiting pid status =
    (remains kept process endedStatus).countP (isEnded pid status) +
      others.countP (isEnded pid status) := by
    rw [waiting_of_turns pid status finished.after, countP_map, ← countP_append]
    refine countP_congr fun left _ => ?_
    rw [Function.comp_apply, isEnded_reparentedIf]
  rw [count, waiting_of_perm pid status finished.before, isEnded_of_ne running]
  have hexited : (process.exited endedStatus).isEnded pid status = true ↔
    ended = pid ∧ endedStatus = status := by
    simp [isEnded, exited, finished.number]
  cases kept with
  | true =>
    simp only [remains, if_true, countP_singleton, hexited]
    simp
    omega
  | false => simp [remains]

theorem Effect.balance {event : ProcessEvent} (effect : table.Effect after event) {call : ProcessCall}
  (hevent : table.event call = event) :
  after.waiting pid status + (table.collections pid status call + table.drops pid status call) =
    table.waiting pid status + table.endings pid status call := by
  unfold collections drops endings
  rw [hevent]
  cases effect with
  | same hafter => exact waiting_of_turns pid status hafter
  | root root hpid hparent state fresh used active =>
    have hnew := (used.countP_eq (isEnded pid status)).trans countP_cons
    rw [isEnded_of_ne (by simp [state])] at hnew
    exact hnew
  | reserve parent child hmem hparent state hlow high fresh hafter =>
    have hnew := (waiting_of_turns pid status hafter).trans countP_cons
    rw [isEnded_of_ne (by simp [state])] at hnew
    exact hnew
  | prepare proc others state before hafter
  | publish proc others state before hafter =>
    exact waiting_change pid status before hafter (by simp [state]) (by simp)
  | withdraw proc others state before hafter =>
    have notZombie : proc.state ≠ .zombie := by
      intro zombie
      simp [isVisible, zombie] at state
    rw [waiting_of_turns pid status hafter, waiting_of_perm pid status before,
      isEnded_of_ne notZombie]
    rfl
  | revise proc others waitStatus processGroup state before hafter =>
    exact waiting_change pid status before hafter (by simp [state]) (by simp [state])
  | finish proc others test finished =>
    have balance := waiting_finish pid status finished
    simpa using balance
  | collect proc others state before hafter =>
    rw [waiting_of_turns pid status hafter, waiting_of_perm pid status before]
    simp [isEnded, state]
  | tearDown hafter =>
    have hsplit := countP_eq_countP_filter_add table.used (isEnded pid status)
      (isVisibleChild linuxLaunchReaperPid)
    rw [countP_filter, Nat.add_comm] at hsplit
    rw [waiting_of_turns pid status hafter, Nat.zero_add]
    exact hsplit.symm
  | reset hafter => simp [waiting, hafter]

theorem waiting_le_one (sound : Sound table) : table.waiting pid status ≤ 1 := by
  have once := nodup_iff_count_le_one.mp sound.distinct pid
  rw [count, countP_map] at once
  refine le_trans (countP_mono_left fun proc _ ended => ?_) once
  simp only [isEnded, Bool.and_eq_true] at ended
  exact ended.1.2

/-! ## Waits -/

/-- What the waits of a process can do in this state. -/
structure WaitsReport (table : LinuxProcessTable limit) : Prop where
  /-- Only the parent takes a report, and of the children it may wait for that have one the
  child with the smallest number; a child that ended is gone afterwards. -/
  completes : ∀ {tgid : Nat} {selector : LinuxWaitSelector} {pid : Nat} {status : WaitStatus}
    {includeStopped : Bool} {copyStatus : WaitStatus → Except SysError Unit} {found : Nat}
    {after : LinuxProcessTable limit},
    table.completeWaitCurrent tgid selector pid status includeStopped copyStatus =
        (.ok (some found), after) →
      found = pid ∧ (table.current tgid).isSome = true ∧
        ∃ child ∈ table.used, child.pid = pid ∧ child.parentPid = tgid ∧
          child.waitStatus = status ∧ child.isWaitable tgid selector includeStopped = true ∧
          (∀ other ∈ table.used, other.isWaitable tgid selector includeStopped = true →
            pid ≤ other.pid) ∧
          (child.state = .zombie → ∀ later ∈ after.used, later.pid ≠ pid)
  /-- A status that cannot be copied changes nothing. -/
  copyFails : ∀ {tgid : Nat} {selector : LinuxWaitSelector} {pid : Nat} {status : WaitStatus}
    {includeStopped : Bool} {copyStatus : WaitStatus → Except SysError Unit} {error : SysError},
    copyStatus status = .error error →
      (table.completeWaitCurrent tgid selector pid status includeStopped copyStatus).2 = table
  /-- The child that is found ready is the one that is reported. -/
  selects : ∀ {tgid : Nat} {selector : LinuxWaitSelector} {pid : Nat} {status : WaitStatus}
    {includeStopped : Bool} {copyStatus : WaitStatus → Except SysError Unit},
    (table.current tgid).isSome = true →
    table.waitOutcomeWithOptions tgid selector includeStopped = .ready pid status →
    copyStatus status = .ok () →
      (table.completeWaitCurrent tgid selector pid status includeStopped copyStatus).1 =
        .ok (some pid)

variable {pid status} {tgid found : Nat} {selector : LinuxWaitSelector} {stopped : Bool}
  {copyStatus : WaitStatus → Except SysError Unit}
theorem completeCurrent_of_ready (sound : Sound table) (cur : (table.current tgid).isSome = true)
  (ready : table.waitOutcomeWithOptions tgid selector stopped = .ready pid status)
  (copy : copyStatus status = .ok ()) :
  ∃ child others after, table.completeWaitCurrent tgid selector pid status stopped copyStatus =
    (.ok (some pid), after) ∧
    table.used.Perm (child :: others) ∧ child.isWaitable tgid selector stopped = true ∧
    child.pid = pid ∧ child.waitStatus = status ∧ table.Reports after child others := by
  obtain ⟨parent, hparent⟩ := Option.isSome_iff_exists.mp cur
  obtain ⟨-, rfl, -⟩ := current_some hparent
  obtain ⟨child, others, after, complete, hchild⟩ := completeWait_of_ready sound.distinct ready copy
  refine ⟨child, others, after, ?_, hchild⟩
  simp only [completeWaitCurrent, hparent, complete]

theorem completeCurrent_of_copy_error {error} (copy : copyStatus status = .error error) :
  (table.completeWaitCurrent tgid selector pid status stopped copyStatus).2 = table := by
  unfold completeWaitCurrent
  cases table.current tgid with
  | none => rfl
  | some parent =>
    by_cases ready : table.waitOutcomeWithOptions parent.pid selector stopped = .ready pid status
    · simp only [completeLinuxWaitWithOptions, ready, ne_eq, not_true_eq_false, if_false, copy]
    · simp only [completeLinuxWaitWithOptions, ne_eq, ready, not_false_eq_true, if_true]

/-- A wait that reports something has found it ready and has copied it. -/
theorem ready_of_completeCurrent
  (complete : table.completeWaitCurrent tgid selector pid status stopped copyStatus =
    (.ok (some found), after)) :
  (table.current tgid).isSome = true ∧ table.waitOutcomeWithOptions tgid selector stopped =
    .ready pid status ∧ copyStatus status = .ok () := by
  unfold completeWaitCurrent at complete
  split at complete
  · cases complete
  rename_i parent current
  obtain ⟨-, rfl, -⟩ := current_some current
  by_cases ready : table.waitOutcomeWithOptions parent.pid selector stopped = .ready pid status
  · cases copy : copyStatus status with
    | error error =>
      simp only [completeLinuxWaitWithOptions, ready, ne_eq, not_true_eq_false, if_false,
        copy] at complete
      cases complete
    | ok copied => exact ⟨by rw [current, Option.isSome_some], ready, rfl⟩
  · simp only [completeLinuxWaitWithOptions, ne_eq, ready, not_false_eq_true, if_true] at complete
    cases complete

theorem waitsReport (sound : Sound table) : WaitsReport table where
  completes complete := by
    obtain ⟨cur, ready, copy⟩ := ready_of_completeCurrent complete
    obtain ⟨child, others, after, hdone, used, waitable, rfl, rfl, reports⟩ :=
      completeCurrent_of_ready sound cur ready copy
    obtain ⟨-, -, -, -, -, least⟩ := waitOutcome_eq_ready ready
    cases hdone.symm.trans complete
    refine ⟨rfl, cur, child, used.mem_iff.mpr mem_cons_self, rfl,
      (isWaitable_iff.mp waitable).1, rfl, waitable, least, fun zombie later hlater hpid => ?_⟩
    cases reports with
    | ended _ hafter =>
      have notMem := (nodup_cons.mp (sound.nodup_others used)).1
      exact notMem (mem_map.mpr ⟨later, hafter.used.mem_iff.mp hlater, hpid⟩)
    | stopped running _ => cases running.symm.trans zombie
  copyFails copy := completeCurrent_of_copy_error copy
  selects cur ready copy := by
    obtain ⟨child, others, after, hdone, -⟩ := completeCurrent_of_ready sound cur ready copy
    rw [hdone]

/-- In every state that any calls lead to, waits report as they should, and every end of a
process has been collected by one wait, has been dropped, or is the only one of its number
that still stands in the table. -/
theorem terminations_reported_once (limit : Nat) (calls : List ProcessCall) :
  let table := run next (new limit) calls
  WaitsReport table ∧ ∀ pid status, table.waiting pid status ≤ 1 ∧ table.waiting pid status +
        (total (collections pid status) next (new limit) calls +
          total (drops pid status) next (new limit) calls) =
      total (endings pid status) next (new limit) calls := by
  have hsound : Sound (run next (new limit) calls) := sound_run calls
  refine ⟨waitsReport hsound, fun pid status => ⟨waiting_le_one pid status hsound, ?_⟩⟩
  have hnew : (new limit).waiting pid status = 0 := by
    rw [waiting, show (new limit).used = [] from List.reduceOption_replicate_none, List.countP_nil]
  have hbalance : (run next (new limit) calls).waiting pid status +
      total (fun table call => collections pid status table call + drops pid status table call)
        next (new limit) calls =
      (new limit).waiting pid status + total (endings pid status) next (new limit) calls :=
    total_balance (waiting pid status) _ (endings pid status)
      (fun _ call hsound => Sound.next hsound call)
      (fun _ call hsound => (next_effect hsound call).balance pid status rfl) sound_new calls
  rwa [total_add, hnew, Nat.zero_add] at hbalance

theorem collected_termination_is_reported_once : let calls : List ProcessCall :=
    [.registerRoot 10, .reserveChildWithPid 1 11 2 17, .publishFork ⟨1, 2, 1⟩,
      .completeForkPublish ⟨1, 2, 1⟩, .exitCurrentProcess 2 0x500 (fun _ => ⟨0, 0⟩),
      .completeWaitCurrent 1 .any 2 0x500 false (fun _ => .error .efault),
      .completeWaitCurrent 1 .any 2 0x500 false (fun _ => .ok ())]
  total (endings 2 0x500) next (new 4) calls = 1 ∧
    total (collections 2 0x500) next (new 4) calls = 1 ∧
    WaitsReport (run next (new 4) calls) :=
  ⟨by decide, by decide, (terminations_reported_once 4 _).1⟩

/-- The parent ignores `SIGCHLD`: its child ends, and no wait ever hears of it. -/
theorem ignored_termination_is_not_reported :
  let forked := run next (new 4)
    [.registerRoot 10, .reserveChildWithPid 1 11 2 17, .publishFork ⟨1, 2, 1⟩,
      .completeForkPublish ⟨1, 2, 1⟩]
  let exit : ProcessCall := .exitCurrentProcess 2 0x500 (fun _ => ⟨linuxSigIgn, 0⟩)
  forked.event exit = .ended 2 0x500 false ∧
    (forked.next exit).waitOutcomeWithOptions 1 .any true = .noChildren := by
  decide

end LinuxProcessTable
end Smros.Process
