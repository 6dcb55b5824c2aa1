import Mathlib.Data.List.Nodup
import Smros.Process.Runtime

/-!
# What a process call can do

The slots only matter for finding an empty one: what a call does to the processes it
does to them in any order.
-/

namespace Smros.Process
open Lib List LinuxProcessCore
open Bool (and_eq_true not_eq_true)
variable {slot limit ppid pid : Nat} {states : List LinuxProcessState}
  {resv : LinuxProcessReservation} {table after : LinuxProcessTable limit}
  {process : LinuxProcessCore}
namespace LinuxProcessTable
variable {tgid : Nat}
/-- The processes after a change, in some order; the launch reaper is as before. -/
structure Turns (table after : LinuxProcessTable limit) (processes : List LinuxProcessCore) :
  Prop where
  used : after.used.Perm processes
  active : after.launchReaperActive = table.launchReaperActive

/-! ## Slots -/

variable {first second changed : LinuxProcessCore} {others processes : List LinuxProcessCore}
  {selector : LinuxWaitSelector} {includeStopped : Bool} {test : LinuxProcessCore → Bool}
theorem find_some (find : table.find test = some (slot, process)) :
  test process = true ∧ ∃ others, table.used.Perm (process :: others) ∧
    ∀ content, table.Turns (table.write slot content) (content.toList ++ others) := by
  obtain ⟨hslot, htest⟩ := firstEntry_some find
  obtain ⟨others, before, after⟩ := reduceOption_set hslot
  exact ⟨htest, others, before, fun content => ⟨after content, rfl⟩⟩

theorem find_eq_none : table.find test = none ↔ ∀ process ∈ table.used, test process = false :=
  firstEntry_eq_none

theorem reserved_some (reserved : table.reserved states resv = some process) :
  (process.state ∈ states ∧ process.pid = resv.pid ∧ process.parentPid = resv.parentPid) ∧
    ∃ others, table.used.Perm (process :: others) ∧
      ∀ content, table.Turns (table.write resv.slot content) (content.toList ++ others) := by
  obtain ⟨join, test⟩ := Option.filter_eq_some_iff.mp reserved
  obtain ⟨others, before, after⟩ := reduceOption_set (Option.join_eq_some_iff.mp join)
  simp only [and_eq_true, decide_eq_true_eq, beq_iff_eq, and_assoc] at test
  exact ⟨test, others, before, fun content => ⟨after content, rfl⟩⟩

theorem emptySlot_some (empty : table.emptySlot = some slot) (proc) :
  (table.write slot (some proc)).used.Perm (proc :: table.used) := by
  obtain ⟨hlt, hnone, -⟩ := findIdx?_eq_some_iff_getElem.mp empty
  have hslot : table.processes[slot]? = some none := by
    rw [getElem?_eq_getElem hlt, Option.isNone_iff_eq_none.mp hnone]
  obtain ⟨others, before, after⟩ := reduceOption_around hslot
  exact (after (some proc)).trans (before.symm.cons proc)

@[simp] theorem mapProcesses_used (change) :
  (table.mapProcesses change).used = table.used.map change :=
  reduceOption_map

@[simp] theorem keepProcesses_used (test) :
  (table.keepProcesses test).used = table.used.filter test :=
  reduceOption_map_filter test table.processes

@[simp] theorem reset_used : table.reset.used = [] := reduceOption_replicate_none

/-! ## Processes by their number -/

/-- Each process number is used once. -/
def Distinct (table : LinuxProcessTable limit) : Prop := (table.used.map LinuxProcessCore.pid).Nodup

theorem Distinct.eq (hdistinct : Distinct table) (hfirst : first ∈ table.used)
  (hsnd : second ∈ table.used) (hpid : first.pid = second.pid) : first = second :=
  inj_on_of_nodup_map hdistinct hfirst hsnd hpid

theorem byPid_some (byPid : table.byPid pid = some process) :
  process ∈ table.used ∧ process.isVisible = true ∧ process.pid = pid := by
  have found := find?_some byPid
  simp only [and_eq_true, beq_iff_eq] at found
  exact ⟨mem_of_find?_eq_some byPid, found⟩

theorem current_some (cur : table.current tgid = some process) :
  process ∈ table.used ∧ process.pid = tgid ∧ process.state = .running := by
  obtain ⟨byPid, running⟩ := Option.filter_eq_some_iff.mp cur
  obtain ⟨hmem, -, hpid⟩ := byPid_some byPid
  exact ⟨hmem, hpid, beq_iff_eq.mp running⟩

theorem isRunning_iff :
  isRunning pid process = true ↔ process.pid = pid ∧ process.state = .running := by
  simp [isRunning]

/-! ## The end of a process -/

variable {waitStatus status : WaitStatus}
theorem exit_some (exit : table.exit pid waitStatus = some after) :
  ∃ process others, (process.pid = pid ∧ process.state = .running) ∧
    table.used.Perm (process :: others) ∧
    table.Turns after (process.exited waitStatus :: others) := by
  obtain ⟨⟨slot, process⟩, find, rfl⟩ := Option.map_eq_some_iff.mp exit
  obtain ⟨running, others, before, hafter⟩ := find_some find
  exact ⟨process, others, isRunning_iff.mp running, before, hafter _⟩

/-- A zombie of the parent can be reaped. -/
theorem reap_of_mem (hdistinct : Distinct table) (used : table.used.Perm (process :: others))
  (zombie : process.state = .zombie) :
  ∃ after, table.reap process.parentPid process.pid = some (process, after) ∧
    table.Turns after others := by
  have hmem : process ∈ table.used := used.mem_iff.mpr mem_cons_self
  cases reap : table.reap process.parentPid process.pid with
  | none =>
    have hnone := find_eq_none.mp (Option.map_eq_none_iff.mp reap) process hmem
    simp [zombie] at hnone
  | some found =>
    obtain ⟨⟨slot, reaped⟩, find, rfl⟩ := Option.map_eq_some_iff.mp reap
    obtain ⟨test, left, before, hafter⟩ := find_some find
    simp only [and_eq_true, beq_iff_eq] at test
    have same : reaped = process := hdistinct.eq (before.mem_iff.mpr mem_cons_self) hmem test.2
    rw [same] at before
    exact ⟨_, same ▸ rfl, (hafter none).used.trans (before.symm.trans used).cons_inv,
      (hafter none).active⟩

theorem Distinct.of_perm (hdistinct : Distinct table) (before : table.used.Perm (process :: others))
  (hafter : after.used.Perm (changed :: others)) (hpid : changed.pid = process.pid) :
  Distinct after := by
  have nodup := (before.map pid).nodup_iff.mp hdistinct
  refine (hafter.map pid).nodup_iff.mpr ?_
  rw [map_cons, hpid]
  exact nodup

/-- What is left of a process that ends. -/
def remains (kept : Bool) (process : LinuxProcessCore) (waitStatus : WaitStatus) :
  List LinuxProcessCore :=
  if kept then [process.exited waitStatus] else []

theorem terminateChild_turns (hdistinct : Distinct table) (hmem : process ∈ table.used)
  (running : process.state = .running) (status) {policy}
  (hpolicy : process.exitSignal ≠ linuxSigchld → policy = .retainZombieAndNotify) :
  ∃ transition others, (table.terminateChild process.pid status policy).1 = some transition ∧
    table.used.Perm (process :: others) ∧
    table.Turns (table.terminateChild process.pid status policy).2
      (remains (!policy.reapImmediately) process status ++ others) := by
  cases find : table.find (isRunning process.pid) with
  | none =>
    have hnone := find_eq_none.mp find process hmem
    simp [isRunning, running] at hnone
  | some found =>
    obtain ⟨slot, other⟩ := found
    obtain ⟨hother, others, before, after⟩ := find_some find
    have same : other = process := hdistinct.eq (before.mem_iff.mpr mem_cons_self) hmem
      (isRunning_iff.mp hother).1
    subst same
    have setting : (if other.exitSignal = linuxSigchld then policy
      else .retainZombieAndNotify) = policy := by
      split_ifs with signal
      · rfl
      · exact (hpolicy signal).symm
    have exited := after (some (other.exited status))
    unfold terminateChild exit
    simp only [find, Option.map_some, setting]
    cases reap : policy.reapImmediately with
    | false => exact ⟨_, others, rfl, before, exited⟩
    | true =>
      obtain ⟨reaped, hreaped, gone⟩ := reap_of_mem
        (hdistinct.of_perm before exited.used rfl) exited.used rfl
      have reaped' : (table.write slot (some (other.exited status))).reap other.parentPid
        other.pid = some (other.exited status, reaped) := hreaped
      simp only [reaped', if_true]
      exact ⟨_, others, rfl, before, gone.used, gone.active.trans exited.active⟩

theorem Turns.reparent (turns : table.Turns after processes)
  (hactive : table.launchReaperActive = true) (pid) :
  table.Turns (after.reparentChildrenToLaunchReaper pid).2
    (processes.map (reparentedIf (isVisibleChild pid))) := by
  unfold reparentChildrenToLaunchReaper
  rw [if_pos (turns.active.trans hactive)]
  refine ⟨?_, turns.active⟩
  rw [mapProcesses_used]
  exact turns.used.map _

theorem Turns.adopt (turns : table.Turns after processes)
  (hactive : table.launchReaperActive = true) (pid) :
  table.Turns (after.adoptLaunchDescendants pid).2
    (processes.map (reparentedIf (isDescendant pid))) := by
  unfold adoptLaunchDescendants
  rw [if_pos (turns.active.trans hactive)]
  refine ⟨?_, turns.active⟩
  rw [mapProcesses_used]
  exact turns.used.map _

/-- A running process ends: it stays as a zombie or not, and the visible processes that
pass the test get the launch reaper as their parent, all its visible children among them. -/
structure Finished (table after : LinuxProcessTable limit) (pid : Nat) (waitStatus : WaitStatus)
  (kept : Bool) (process : LinuxProcessCore) (others : List LinuxProcessCore)
  (test : LinuxProcessCore → Bool) : Prop where
  number : process.pid = pid
  running : process.state = .running
  before : table.used.Perm (process :: others)
  visible : ∀ other, test other = true → other.isVisible = true
  children : ∀ other, other.isVisible = true → other.parentPid = pid →
    test other = true ∨ other.pid = linuxRootPid
  root : ∀ other, other.pid = linuxRootPid → test other = true → other.parentPid = pid
  after : table.Turns after
    ((remains kept process waitStatus ++ others).map (LinuxProcessCore.reparentedIf test))

/-- The parent's action on `SIGCHLD` lets the kernel drop the process when it ends. -/
def discards (table : LinuxProcessTable limit) (actions : SigchldActions) (pid : Nat) : Bool :=
  pid != linuxRootPid && (table.current pid).any fun process =>
    process.parentPid != linuxLaunchReaperPid &&
      (table.exitPolicy actions process).any LinuxSigchldExitPolicy.reapImmediately

theorem active_of_mem (hactive : table.used ≠ [] → table.launchReaperActive = true)
  (used : table.used.Perm (process :: others)) : table.launchReaperActive = true := by
  refine hactive fun hnil => ?_
  rw [hnil] at used
  exact cons_ne_nil _ _ used.nil_eq.symm

section
variable (hdistinct : Distinct table)
include hdistinct
section
variable (hactive : table.used ≠ [] → table.launchReaperActive = true)
include hactive
theorem finishDescendant_cases (actions) (hpid : pid ≠ linuxRootPid) (status) :
  (∃ error, table.finishDescendant actions pid status = (.error error, table)) ∨
    ∃ transition after process others test,
      table.finishDescendant actions pid status = (.ok transition, after) ∧
      table.Finished after pid status (!table.discards actions pid) process others test := by
  unfold finishDescendant
  cases cur : table.current pid with
  | none => exact .inl ⟨_, rfl⟩
  | some process =>
    obtain ⟨hmem, rfl, running⟩ := current_some cur
    have children : ∀ other : LinuxProcessCore, other.isVisible = true →
      other.parentPid = process.pid → isVisibleChild process.pid other = true ∨
        other.pid = linuxRootPid := by
      intro other visible parent
      simp [isVisibleChild, visible, parent]
    have visible : ∀ other : LinuxProcessCore,
      isVisibleChild process.pid other = true → other.isVisible = true := by
      intro other child
      simp only [isVisibleChild, and_eq_true] at child
      exact child.1
    have root : ∀ other : LinuxProcessCore, other.pid = linuxRootPid →
      isVisibleChild process.pid other = true → other.parentPid = process.pid := by
      intro other _ child
      simp only [isVisibleChild, and_eq_true, beq_iff_eq] at child
      exact child.2
    by_cases reaper : process.parentPid = linuxLaunchReaperPid
    · have kept : table.discards actions process.pid = false := by simp [discards, cur, reaper]
      simp only [reaper, if_true, kept, Bool.not_false]
      cases exit : table.exit process.pid status with
      | none => exact .inl ⟨_, rfl⟩
      | some exited =>
        obtain ⟨found, others, ⟨hfound, foundRunning⟩, before, hafter⟩ := exit_some exit
        refine .inr ⟨_, _, found, others, _, rfl, hfound, foundRunning, before, visible,
          children, root, ?_⟩
        exact hafter.reparent (active_of_mem hactive before) process.pid
    · simp only [reaper, if_false]
      cases hpolicy : table.exitPolicy actions process with
      | none => exact .inl ⟨_, rfl⟩
      | some policy =>
        have kept : table.discards actions process.pid = policy.reapImmediately := by
          simp [discards, cur, bne_iff_ne.mpr reaper, hpolicy, bne_iff_ne.mpr hpid]
        have retain : process.exitSignal ≠ linuxSigchld → policy = .retainZombieAndNotify := by
          intro signal
          rw [exitPolicy, if_neg signal] at hpolicy
          exact (Option.some.inj hpolicy).symm
        obtain ⟨transition, others, htransition, before, hafter⟩ :=
          terminateChild_turns hdistinct hmem running status retain
        rcases terminate : table.terminateChild process.pid status policy with
          ⟨result, terminated⟩
        rw [terminate] at htransition hafter
        cases htransition
        simp only [terminate, kept]
        exact .inr ⟨_, _, process, others, _, rfl, rfl, running, before, visible, children,
          root, hafter.reparent (active_of_mem hactive before) process.pid⟩

theorem finishTerminal_cases (actions pid status) :
  (∃ error, table.finishTerminalProcess actions pid status = (.error error, table)) ∨
    ∃ outcome after process others test,
      table.finishTerminalProcess actions pid status = (.ok outcome, after) ∧
      table.Finished after pid status (!table.discards actions pid) process others test := by
  unfold finishTerminalProcess
  by_cases hpid : pid = linuxRootPid
  · subst hpid
    have kept : table.discards actions linuxRootPid = false := by simp [discards]
    simp only [ne_eq, not_true_eq_false, if_false, finishLaunchRoot, kept, Bool.not_false]
    cases exit : table.exit linuxRootPid status with
    | none => exact .inl ⟨_, rfl⟩
    | some exited =>
      obtain ⟨found, others, ⟨hfound, foundRunning⟩, before, hafter⟩ := exit_some exit
      refine .inr ⟨_, _, found, others, _, rfl, hfound, foundRunning, before, ?_, ?_, ?_,
        hafter.adopt (active_of_mem hactive before) linuxRootPid⟩
      · intro other hother
        simp only [isDescendant, and_eq_true] at hother
        exact hother.1
      · intro other visible _
        by_cases root : other.pid = linuxRootPid
        · exact .inr root
        · exact .inl (by simp [isDescendant, visible, root])
      · intro other root hother
        simp [isDescendant, root] at hother
  · simp only [ne_eq, hpid, not_false_eq_true, if_true]
    rcases finishDescendant_cases hdistinct hactive actions hpid status with
      ⟨error, herror⟩ | ⟨transition, after, process, others, test, hok, finished⟩
    · rw [herror]
      exact .inl ⟨error, rfl⟩
    · rw [hok]
      exact .inr ⟨_, after, process, others, test, rfl, finished⟩

end

/-! ## Waiting -/

theorem byPid_of_mem (hmem : process ∈ table.used) (visible : process.isVisible = true) :
  table.byPid process.pid = some process := by
  cases byPid : table.byPid process.pid with
  | none =>
    have hnone := find?_eq_none.mp byPid process hmem
    simp [visible] at hnone
  | some found =>
    obtain ⟨hfound, -, hpid⟩ := byPid_some byPid
    rw [hdistinct.eq hfound hmem hpid]

end

/-- What a wait finds ready: of the children that it can report, the one with the smallest
number. -/
theorem waitOutcome_eq_ready
  (ready : table.waitOutcomeWithOptions ppid selector includeStopped = .ready pid status) :
  ∃ child ∈ table.used, child.isWaitable ppid selector includeStopped = true ∧
    child.pid = pid ∧ child.waitStatus = status ∧
    ∀ other ∈ table.used, other.isWaitable ppid selector includeStopped = true →
      pid ≤ other.pid := by
  unfold waitOutcomeWithOptions at ready
  cases select : table.selectWaitableWithOptions ppid selector includeStopped with
  | none =>
    rw [select] at ready
    split_ifs at ready
  | some child =>
    rw [select] at ready
    cases ready
    obtain ⟨hmem, waitable⟩ := mem_filter.mp (argmin_mem select)
    refine ⟨child, hmem, waitable, rfl, rfl, fun other hother otherWaitable => ?_⟩
    exact le_of_mem_argmin (mem_filter.mpr ⟨hother, otherWaitable⟩) select

theorem isWaitable_iff : process.isWaitable ppid selector includeStopped = true ↔
    process.parentPid = ppid ∧ process.selectorMatches selector = true ∧
      (process.state = .zombie ∨ includeStopped = true ∧ process.state = .running ∧
        linuxWaitStatusIsStopped process.waitStatus = true) := by
  simp only [isWaitable, and_eq_true, Bool.or_eq_true, beq_iff_eq, and_assoc]

/-- What a completed wait takes: a zombie as a whole, of a stopped child the report. -/
inductive Reports (table after : LinuxProcessTable limit) (child : LinuxProcessCore)
  (others : List LinuxProcessCore) : Prop where
  | ended (hzombie : child.state = .zombie) (hafter : table.Turns after others)
  | stopped (hrunning : child.state = .running)
      (hafter : table.Turns after ({ child with waitStatus := 0 } :: others))

theorem completeWait_of_ready {E : Type} (hdistinct : Distinct table)
  {copyStatus : WaitStatus → Except E Unit}
  (ready : table.waitOutcomeWithOptions ppid selector includeStopped = .ready pid status)
  (copy : copyStatus status = .ok ()) :
  ∃ child others after,
    table.completeLinuxWaitWithOptions ppid selector pid status includeStopped copyStatus =
      (.ok (some pid), after) ∧
    table.used.Perm (child :: others) ∧ child.isWaitable ppid selector includeStopped = true ∧
    child.pid = pid ∧ child.waitStatus = status ∧ table.Reports after child others := by
  obtain ⟨child, hmem, waitable, rfl, rfl, -⟩ := waitOutcome_eq_ready ready
  obtain ⟨parent, -, state⟩ := isWaitable_iff.mp waitable
  subst parent
  unfold completeLinuxWaitWithOptions
  simp only [ready, ne_eq, not_true_eq_false, if_false, copy]
  rcases state with zombie | ⟨-, running, stopped⟩
  · have byPid := byPid_of_mem hdistinct hmem (by simp [isVisible, zombie])
    have used := perm_cons_erase hmem
    obtain ⟨after, reap, hafter⟩ := reap_of_mem hdistinct used zombie
    simp only [byPid, Option.any_some, zombie, beq_self_eq_true, if_true, reap]
    exact ⟨child, _, after, rfl, used, waitable, rfl, rfl, .ended zombie hafter⟩
  have byPid := byPid_of_mem hdistinct hmem (by simp [isVisible, running])
  have hnot : (LinuxProcessState.running == .zombie) = false := rfl
  simp only [byPid, Option.any_some, running, hnot, Bool.false_eq_true, if_false]
  cases report : table.completeChildStateReport child.parentPid child.pid child.waitStatus with
  | none =>
    have hnone := find_eq_none.mp (Option.map_eq_none_iff.mp report) child hmem
    simp [running, stopped] at hnone
  | some after =>
    obtain ⟨⟨slot, found⟩, find, rfl⟩ := Option.map_eq_some_iff.mp report
    obtain ⟨test, others, used, hafter⟩ := find_some find
    simp only [and_eq_true, beq_iff_eq, and_assoc] at test
    have same : found = child := hdistinct.eq (used.mem_iff.mpr mem_cons_self) hmem test.1
    subst same
    exact ⟨found, others, _, rfl, used, waitable, rfl, rfl, .stopped running (hafter _)⟩

end LinuxProcessTable

/-! ## One call -/

/-- What a call means for the children and their parents. -/
inductive ProcessEvent where
  | quiet
  | published (parentPid : Nat)
  | ended (pid : Nat) (status : WaitStatus) (kept : Bool)
  | collected (parentPid pid : Nat) (status : WaitStatus)
  | tornDown
  | reset
  deriving DecidableEq

namespace LinuxProcessTable
variable {thr exitSignal : Nat}

def event (table : LinuxProcessTable limit) : ProcessCall → ProcessEvent
  | .completeForkPublish reservation =>
    if (table.completeForkPublish reservation).isSome then .published reservation.parentPid
    else .quiet
  | .exitCurrentProcess tgid waitStatus actions =>
    match (table.exitCurrentProcess actions tgid waitStatus).1 with
    | .ok _ => .ended tgid waitStatus (!table.discards actions tgid)
    | .error _ => .quiet
  | .terminateBySignal tgid signum actions =>
    match (table.terminateBySignal actions tgid signum).1, linuxWaitStatusSignal signum false with
    | .ok _, some waitStatus => .ended tgid waitStatus (!table.discards actions tgid)
    | _, _ => .quiet
  | .reapLaunchDescendants => if table.launchReaperActive then .tornDown else .quiet
  | .completeWaitCurrent tgid selector pid status includeStopped copyStatus =>
    match (table.completeWaitCurrent tgid selector pid status includeStopped copyStatus).1 with
    | .ok (some found) =>
      if (table.byPid found).any (·.state == .zombie) then .collected tgid found status
      else .quiet
    | _ => .quiet
  | .reset => .reset
  | _ => .quiet

inductive Effect (table after : LinuxProcessTable limit) : ProcessEvent → Prop where
  | same (hafter : table.Turns after table.used) : Effect table after .quiet
  | root (root : LinuxProcessCore) (hpid : root.pid = linuxRootPid) (hparent : root.parentPid = 0)
      (hstate : root.state = .running) (hfresh : ∀ process ∈ table.used, process.pid ≠ root.pid)
      (hused : after.used.Perm (root :: table.used)) (hactive : after.launchReaperActive = true) :
      Effect table after .quiet
  | reserve (parent child : LinuxProcessCore) (hmem : parent ∈ table.used)
      (hparent : child.parentPid = parent.pid) (hstate : child.state = .reserved)
      (hlow : linuxRootPid < child.pid) (hhigh : child.pid ≤ linuxMaxPid)
      (hfresh : ∀ process ∈ table.used, process.pid ≠ child.pid)
      (hafter : table.Turns after (child :: table.used)) : Effect table after .quiet
  | prepare (process : LinuxProcessCore) (others : List LinuxProcessCore)
      (hstate : process.state = .reserved) (hbefore : table.used.Perm (process :: others))
      (hafter : table.Turns after ({ process with state := .publishing } :: others)) :
      Effect table after .quiet
  | publish (process : LinuxProcessCore) (others : List LinuxProcessCore)
      (hstate : process.state = .publishing) (hbefore : table.used.Perm (process :: others))
      (hafter : table.Turns after ({ process with state := .running } :: others)) :
      Effect table after (.published process.parentPid)
  | withdraw (process : LinuxProcessCore) (others : List LinuxProcessCore)
      (hstate : process.isVisible = false) (hbefore : table.used.Perm (process :: others))
      (hafter : table.Turns after others) : Effect table after .quiet
  | revise (process : LinuxProcessCore) (others : List LinuxProcessCore) (waitStatus : WaitStatus)
      (processGroup : Nat) (hstate : process.state = .running)
      (hbefore : table.used.Perm (process :: others))
      (hafter : table.Turns after
        ({ process with waitStatus := waitStatus, processGroup := processGroup } :: others)) :
      Effect table after .quiet
  | finish {pid : Nat} {status : WaitStatus} {kept : Bool} (process : LinuxProcessCore)
      (others : List LinuxProcessCore) (test : LinuxProcessCore → Bool)
      (hfinished : table.Finished after pid status kept process others test) :
      Effect table after (.ended pid status kept)
  | collect (process : LinuxProcessCore) (others : List LinuxProcessCore)
      (hstate : process.state = .zombie) (hbefore : table.used.Perm (process :: others))
      (hafter : table.Turns after others) :
      Effect table after (.collected process.parentPid process.pid process.waitStatus)
  | tearDown (hafter : table.Turns after (table.used.filter fun process =>
        !LinuxProcessCore.isVisibleChild linuxLaunchReaperPid process)) :
      Effect table after .tornDown
  | reset (hafter : after.used = []) : Effect table after .reset

theorem Turns.same : table.Turns table table.used := ⟨.rfl, rfl⟩

theorem registerRoot_effect (thr) : table.Effect (table.next (.registerRoot thr)) .quiet := by
  unfold next registerRoot
  split_ifs with duplicate
  · exact .same .same
  rw [Bool.or_eq_true, not_or, not_eq_true, not_eq_true, any_eq_false] at duplicate
  cases empty : table.emptySlot with
  | none => exact .same .same
  | some slot =>
    refine .root _ rfl rfl rfl (fun proc hmem => ?_) (emptySlot_some empty _) rfl
    simpa using duplicate.2 proc hmem

theorem reserveChildWithPid_effect (reserve : table.reserveChildWithPid ppid thr pid exitSignal =
    .ok (resv, after)) : table.Effect after .quiet := by
  unfold reserveChildWithPid at reserve
  split at reserve
  · cases reserve
  rename_i parentSlot parent find
  obtain ⟨running, others, before, -⟩ := find_some find
  obtain ⟨rfl, -⟩ := isRunning_iff.mp running
  split at reserve
  · cases reserve
  rename_i slot empty
  dsimp only at reserve
  split at reserve
  · cases reserve
  rename_i range
  cases reserve
  rw [not_or, not_or, not_eq_true, any_eq_false] at range
  refine .reserve parent _ (before.mem_iff.mpr mem_cons_self) rfl rfl (Nat.not_lt.mp range.1)
    (Nat.not_lt.mp range.2.1) (fun proc hmem => ?_) ⟨emptySlot_some empty _, rfl⟩
  simpa using range.2.2 proc hmem

theorem reserveChild_effect (ppid thr) : table.Effect (table.reserveChild ppid thr).2 .quiet := by
  unfold reserveChild
  split_ifs with exhausted
  · exact .same ⟨.rfl, rfl⟩
  cases reserve : table.reserveChildWithPid ppid thr table.nextPid 0 with
  | error error => exact .same .same
  | ok result => exact reserveChildWithPid_effect reserve

/-- A step on a reservation: refused, or taken for the process it is about. -/
theorem getD_reserved_effect {event} (content : LinuxProcessCore → Option LinuxProcessCore)
  (quiet : table.reserved states resv = none → event = .quiet)
  (taken : ∀ proc others, proc.state ∈ states → proc.parentPid = resv.parentPid →
    table.reserved states resv = some proc → table.used.Perm (proc :: others) →
    table.Turns (table.write resv.slot (content proc)) ((content proc).toList ++ others) →
    table.Effect (table.write resv.slot (content proc)) event) :
  table.Effect (((table.reserved states resv).map fun proc =>
    table.write resv.slot (content proc)).getD table) event := by
  cases reserved : table.reserved states resv with
  | none =>
    rw [quiet reserved]
    exact .same .same
  | some proc =>
    obtain ⟨⟨state, -, parent⟩, others, before, after⟩ := reserved_some reserved
    exact taken proc others state parent reserved before (after _)

variable (resv : LinuxProcessReservation)
theorem publishFork_effect : table.Effect ((table.publishFork resv).getD table) .quiet := by
  refine getD_reserved_effect _ (fun _ => rfl) fun proc others state _ _ before after => ?_
  exact .prepare proc others (mem_singleton.mp state) before after

theorem completeForkPublish_effect :
  table.Effect ((table.completeForkPublish resv).getD table)
    (table.event (.completeForkPublish resv)) := by
  refine getD_reserved_effect _ (fun hnone => ?_)
    fun proc others state parent hsome before after => ?_
  · simp [event, completeForkPublish, hnone]
  have hevent : table.event (.completeForkPublish resv) = .published proc.parentPid := by
    simp [event, completeForkPublish, hsome, parent]
  rw [hevent]
  exact .publish proc others (mem_singleton.mp state) before after

theorem rollbackFork_effect : table.Effect ((table.rollbackFork resv).getD table) .quiet := by
  refine getD_reserved_effect (fun _ => none) (fun _ => rfl)
    fun proc others state _ _ before after => ?_
  refine .withdraw proc others ?_ before after
  rcases mem_cons.mp state with reserved | publishing
  · simp [isVisible, reserved]
  · simp [isVisible, mem_singleton.mp publishing]

theorem rollback_effect : table.Effect ((table.rollback resv).getD table) .quiet := by
  refine getD_reserved_effect (fun _ => none) (fun _ => rfl)
    fun proc others state _ _ before after => ?_
  refine .withdraw proc others ?_ before after
  simp [isVisible, mem_singleton.mp state]

theorem revise_effect (find : table.find (isRunning pid) = some (slot, process))
  (status processGroup) :
  table.Effect (table.write slot
    (some { process with waitStatus := status, processGroup := processGroup })) .quiet := by
  obtain ⟨running, others, before, after⟩ := find_some find
  exact .revise process others status processGroup (isRunning_iff.mp running).2 before (after _)

theorem stopChild_effect (pid sig) : table.Effect (table.next (.stopChild pid sig)) .quiet := by
  simp only [next, stopChild]
  cases linuxWaitStatusStopped sig with
  | none => exact .same .same
  | some status =>
    cases find : table.find (isRunning pid) with
    | none => exact .same .same
    | some found => exact revise_effect find status found.2.processGroup

theorem continueChild_effect (pid) : table.Effect (table.next (.continueChild pid)) .quiet := by
  simp only [next, continueChild]
  cases find : table.find (isRunning pid) with
  | none => exact .same .same
  | some found =>
    by_cases stopped : linuxWaitStatusIsStopped found.2.waitStatus = true
    · simp only [Option.bind_eq_bind, Option.bind_some, if_pos stopped]
      exact revise_effect find 0 found.2.processGroup
    · simp only [Option.bind_eq_bind, Option.bind_some, if_neg stopped]
      exact .same .same

theorem setProcessGroup_effect (pid processGroup) :
  table.Effect (table.next (.setProcessGroup pid processGroup)) .quiet := by
  simp only [next, setProcessGroup]
  by_cases zero : processGroup = 0
  · simp only [if_pos zero]
    exact .same .same
  simp only [if_neg zero]
  cases find : table.find (isRunning pid) with
  | none => exact .same .same
  | some found => exact revise_effect find found.2.waitStatus processGroup

/-- What every process in the table is like; only a hidden one needs its parent's number. -/
structure Fits (process : LinuxProcessCore) : Prop where
  low : linuxRootPid ≤ process.pid
  high : process.pid ≤ linuxMaxPid
  rootParent : process.pid = linuxRootPid → process.parentPid = 0
  hiddenParent : process.isVisible = false → linuxRootPid ≤ process.parentPid ∧
    process.parentPid ≤ linuxMaxPid ∧ process.parentPid ≠ process.pid

structure Sound (table : LinuxProcessTable limit) : Prop where
  distinct : Distinct table
  active : table.used ≠ [] → table.launchReaperActive = true
  fits : ∀ process ∈ table.used, Fits process

theorem exitCurrentProcess_effect (sound : Sound table) (tgid status actions) :
  table.Effect (table.next (.exitCurrentProcess tgid status actions))
    (table.event (.exitCurrentProcess tgid status actions)) := by
  simp only [next, event, exitCurrentProcess]
  cases cur : table.current tgid with
  | none => exact .same .same
  | some proc =>
    obtain ⟨-, rfl, -⟩ := current_some cur
    rcases finishTerminal_cases sound.distinct sound.active actions proc.pid
      status with ⟨error, herror⟩ | ⟨outcome, after, proc, others, test, hok, finished⟩
    · simp only [herror]
      exact .same .same
    · simp only [hok]
      exact .finish proc others test finished

theorem terminateBySignal_effect (sound : Sound table) (tgid sig actions) :
  table.Effect (table.next (.terminateBySignal tgid sig actions))
    (table.event (.terminateBySignal tgid sig actions)) := by
  simp only [next, event, terminateBySignal]
  cases find : table.find (isRunning tgid) with
  | none => exact .same .same
  | some found =>
    cases status : linuxWaitStatusSignal sig false with
    | none => exact .same .same
    | some waitStatus =>
      rcases finishTerminal_cases sound.distinct sound.active actions tgid
        waitStatus with ⟨error, herror⟩ | ⟨outcome, after, proc, others, test, hok, finished⟩
      · simp only [herror]
        exact .same .same
      · simp only [hok]
        exact .finish proc others test finished

theorem reapLaunchDescendants_effect :
  table.Effect (table.next .reapLaunchDescendants) (table.event .reapLaunchDescendants) := by
  simp only [next, event, reapLaunchDescendants]
  by_cases hactive : table.launchReaperActive = true
  · simp only [if_pos hactive]
    exact .tearDown ⟨.of_eq (keepProcesses_used _), rfl⟩
  · simp only [if_neg hactive]
    exact .same .same

theorem completeCurrent_effect (sound : Sound table)
  (tgid selector pid status includeStopped copyStatus) :
  table.Effect
    (table.next (.completeWaitCurrent tgid selector pid status includeStopped copyStatus))
    (table.event (.completeWaitCurrent tgid selector pid status includeStopped copyStatus)) := by
  simp only [next, event, completeWaitCurrent]
  cases cur : table.current tgid with
  | none => exact .same .same
  | some parent =>
    obtain ⟨-, rfl, -⟩ := current_some cur
    by_cases ready : table.waitOutcomeWithOptions parent.pid selector includeStopped =
      .ready pid status
    · cases copy : copyStatus status with
      | error error =>
        simp only [completeLinuxWaitWithOptions, ready, ne_eq, not_true_eq_false, if_false, copy]
        exact .same .same
      | ok copied =>
        obtain ⟨child, others, after, complete, before, waitable, rfl, rfl, reports⟩ :=
          completeWait_of_ready sound.distinct ready copy
        have hmem : child ∈ table.used := before.mem_iff.mpr mem_cons_self
        obtain ⟨hparent, -, -⟩ := isWaitable_iff.mp waitable
        cases reports with
        | ended zombie hafter =>
          have byPid := byPid_of_mem sound.distinct hmem (by simp [isVisible, zombie])
          simp only [complete, byPid, Option.any_some, zombie, beq_self_eq_true, if_true]
          rw [← hparent]
          exact .collect child others zombie before hafter
        | stopped running hafter =>
          have byPid := byPid_of_mem sound.distinct hmem (by simp [isVisible, running])
          have hnot : (LinuxProcessState.running == .zombie) = false := rfl
          simp only [complete, byPid, Option.any_some, running, hnot, Bool.false_eq_true, if_false]
          exact .revise child others 0 child.processGroup running before hafter
    · simp only [completeLinuxWaitWithOptions, ne_eq, ready, not_false_eq_true, if_true]
      exact .same .same

theorem next_effect (sound : Sound table) (call) :
  table.Effect (table.next call) (table.event call) := by
  cases call with
  | registerRoot thr => exact registerRoot_effect thr
  | reserveChild ppid thr => exact reserveChild_effect ppid thr
  | reserveChildWithPid ppid thr pid exitSignal =>
    simp only [next, event]
    cases reserve : table.reserveChildWithPid ppid thr pid exitSignal with
    | error error => exact .same .same
    | ok result => exact reserveChildWithPid_effect reserve
  | publishFork resv => exact publishFork_effect resv
  | completeForkPublish resv => exact completeForkPublish_effect resv
  | rollbackFork resv => exact rollbackFork_effect resv
  | rollback resv => exact rollback_effect resv
  | stopChild pid sig => exact stopChild_effect pid sig
  | continueChild pid => exact continueChild_effect pid
  | setProcessGroup pid processGroup => exact setProcessGroup_effect pid processGroup
  | exitCurrentProcess tgid waitStatus actions =>
    exact exitCurrentProcess_effect sound tgid waitStatus actions
  | terminateBySignal tgid sig actions => exact terminateBySignal_effect sound tgid sig actions
  | reapLaunchDescendants => exact reapLaunchDescendants_effect
  | completeWaitCurrent tgid selector pid status includeStopped copyStatus =>
    exact completeCurrent_effect sound tgid selector pid status includeStopped copyStatus
  | reset => exact .reset reset_used

end LinuxProcessTable
end Smros.Process
