import Smros.Process.Sound

/-!
# Every visible process has a parent

A process that ends hands its visible children to the launch reaper.  A child that is
still being forked is not visible then; nobody looks at its parent again when it is
published.
-/

namespace Smros.Process
open Lib List LinuxProcessCore
namespace LinuxProcessTable
variable {limit pid : Nat} {table after : LinuxProcessTable limit}
/-- Some process with this number still runs. -/
def Runs (processes : List LinuxProcessCore) (pid : Nat) : Prop :=
  ∃ process ∈ processes, process.pid = pid ∧ process.state = .running

instance (processes : List LinuxProcessCore) (pid : Nat) : Decidable (Runs processes pid) :=
  inferInstanceAs (Decidable (∃ process ∈ processes, _))

/-- A visible process belongs to the kernel, to the launch reaper, or to a process that
still runs. -/
def Parented (processes : List LinuxProcessCore) : Prop :=
  ∀ process ∈ processes, process.isVisible = true →
    process.parentPid = 0 ∨ process.parentPid = linuxLaunchReaperPid ∨
      Runs processes process.parentPid

instance (processes : List LinuxProcessCore) : Decidable (Parented processes) :=
  inferInstanceAs (Decidable (∀ process ∈ processes, _))

/-- No child of the launch reaper has a visible child of its own. -/
def AdoptedChildless (processes : List LinuxProcessCore) : Prop :=
  ∀ process ∈ processes, process.isVisible = true → process.parentPid ≠ linuxLaunchReaperPid →
    ∀ parent ∈ processes, LinuxProcessCore.isVisibleChild linuxLaunchReaperPid parent = true →
      parent.pid ≠ process.parentPid

/-- A child is published only while its parent runs, and the launch is torn down only when
the processes that go have no children that stay. -/
def ParentStays (table : LinuxProcessTable limit) : ProcessCall → Prop
  | .completeForkPublish reservation =>
    (table.reserved [.publishing] reservation).isSome = true → Runs table.used reservation.parentPid
  | .reapLaunchDescendants => table.launchReaperActive = true → AdoptedChildless table.used
  | _ => True

variable {processes changedProcesses : List LinuxProcessCore} {process : LinuxProcessCore}
theorem Runs.mono (hsub : ∀ process ∈ processes, process.state = .running →
      ∃ later ∈ changedProcesses, later.pid = process.pid ∧ later.state = .running)
  (runs : Runs processes pid) : Runs changedProcesses pid := by
  obtain ⟨process, hmem, rfl, running⟩ := runs
  obtain ⟨later, hlater, hpid, still⟩ := hsub process hmem running
  exact ⟨later, hlater, hpid, still⟩

theorem Parented.perm (perm : changedProcesses.Perm processes) (parented : Parented processes) :
  Parented changedProcesses := by
  intro proc hmem visible
  refine (parented proc (perm.mem_iff.mp hmem) visible).imp_right (.imp_right ?_)
  exact .mono fun other hother running => ⟨other, perm.mem_iff.mpr hother, rfl, running⟩

/-- Processes that keep their parents, while nobody who runs goes. -/
theorem Parented.of_origin (parented : Parented processes)
  (horigin : ∀ later ∈ changedProcesses, later.isVisible = true →
    later.parentPid = 0 ∨ later.parentPid = linuxLaunchReaperPid ∨
      ∃ origin ∈ processes, origin.isVisible = true ∧ origin.parentPid = later.parentPid)
  (runs : ∀ process ∈ processes, process.state = .running →
    ∃ later ∈ changedProcesses, later.pid = process.pid ∧ later.state = .running) :
  Parented changedProcesses := by
  intro later hmem visible
  rcases horigin later hmem visible with zero | reaper | ⟨origin, horigin, seen, parent⟩
  · exact .inl zero
  · exact .inr (.inl reaper)
  · rw [← parent]
    exact (parented origin horigin seen).imp_right (.imp_right (.mono runs))

/-! ## One call -/

section
variable {changed : LinuxProcessCore} {others : List LinuxProcessCore}
theorem mem_others (before : table.used.Perm (process :: others)) (state : process.state ≠ .running)
  {other} (hother : other ∈ table.used) (running : other.state = .running) : other ∈ others := by
  rcases mem_cons.mp (before.mem_iff.mp hother) with rfl | hmem
  · exact absurd running state
  · exact hmem

/-- A process that does not run may go. -/
theorem Parented.remove (parented : Parented table.used)
  (before : table.used.Perm (process :: others)) (state : process.state ≠ .running) :
  Parented others :=
  parented.of_origin (fun other hother visible => .inr (.inr ⟨other,
    before.mem_iff.mpr (mem_cons_of_mem _ hother), visible, rfl⟩))
    fun other hother running => ⟨other, mem_others before state hother running, rfl, running⟩

theorem Parented.add_hidden {processes} (parented : Parented processes)
  (hidden : changed.isVisible = false) : Parented (changed :: processes) := by
  refine parented.of_origin (fun later hlater visible => ?_)
    fun other hother running => ⟨other, mem_cons_of_mem _ hother, rfl, running⟩
  rcases mem_cons.mp hlater with rfl | hmem
  · rw [hidden] at visible
    cases visible
  · exact .inr (.inr ⟨later, hmem, visible, rfl⟩)

variable (sound : Sound table) (parented : Parented table.used)
include sound parented
/-- A published child is fine just if its parent runs. -/
theorem parented_publish_iff (before : table.used.Perm (process :: others))
  (hstate : process.state = .publishing)
  (hafter : table.Turns after ({ process with state := .running } :: others)) :
  Parented after.used ↔ Runs table.used process.parentPid := by
  have hidden : process.isVisible = false := by simp [isVisible, hstate]
  have notRunning : process.state ≠ .running := by simp [hstate]
  obtain ⟨hlow, high, hself⟩ := (sound.fits_others before).1.hiddenParent hidden
  constructor
  · intro afterParented
    have hmem : { process with state := .running } ∈ after.used :=
      hafter.used.mem_iff.mpr mem_cons_self
    rcases afterParented _ hmem rfl with zero | reaper | ⟨parent, hparent, hpid, running⟩
    · change process.parentPid = 0 at zero
      rw [zero] at hlow
      exact absurd hlow (by decide)
    · change process.parentPid = linuxLaunchReaperPid at reaper
      rw [reaper] at high
      exact absurd high (by decide)
    · rcases mem_cons.mp (hafter.used.mem_iff.mp hparent) with rfl | hother
      · exact absurd hpid.symm hself
      · exact ⟨parent, before.mem_iff.mpr (mem_cons_of_mem _ hother), hpid, running⟩
  · intro runs
    refine .perm hafter.used ?_
    have kept : ∀ other ∈ table.used, other.state = .running →
      ∃ later ∈ { process with state := .running } :: others,
        later.pid = other.pid ∧ later.state = .running :=
      fun other hother running => ⟨other,
        mem_cons_of_mem _ (mem_others before notRunning hother running), rfl, running⟩
    intro later hlater visible
    rcases mem_cons.mp hlater with rfl | hother
    · exact .inr (.inr (runs.mono kept))
    · have hmem := before.mem_iff.mpr (mem_cons_of_mem process hother)
      exact (parented later hmem visible).imp_right (.imp_right (.mono kept))

theorem parented_finish {status kept test}
  (finished : table.Finished after pid status kept process others test) : Parented after.used := by
  refine .perm finished.after.used ?_
  intro later hlater visible
  obtain ⟨left, hleft, rfl⟩ := mem_map.mp hlater
  by_cases htest : test left = true
  · exact .inr (.inl (by simp [reparentedIf, htest]))
  have same : left.reparentedIf test = left := if_neg htest
  rw [same] at visible ⊢
  obtain ⟨origin, horigin, hpid, hparent, seen⟩ := finished.origin hleft
  rcases parented origin horigin (seen ▸ visible) with zero | reaper | runs
  · exact .inl (hparent.trans zero)
  · exact .inr (.inl (hparent.trans reaper))
  obtain ⟨parent, hmem, num, running⟩ := runs
  rcases mem_cons.mp (finished.before.mem_iff.mp hmem) with rfl | other
  -- the parent is the process that ends: only the root can stay with it, and has none
  · have child : left.parentPid = pid := by rw [hparent, ← num, finished.number]
    rcases finished.children left visible child with passes | root
    · exact absurd passes htest
    · exact .inl (hparent.trans ((sound.fits origin horigin).rootParent (hpid ▸ root)))
  · refine .inr (.inr ⟨parent.reparentedIf test, ?_, ?_, ?_⟩)
    · exact mem_map_of_mem (mem_append_right _ other)
    · rw [reparentedIf_pid, num, hparent]
    · rw [reparentedIf_state, running]

theorem parented_tearDown_iff (hafter : table.Turns after (table.used.filter fun process =>
    !isVisibleChild linuxLaunchReaperPid process)) :
  Parented after.used ↔ AdoptedChildless table.used := by
  have stays : ∀ process, process ∈ after.used ↔ process ∈ table.used ∧
    isVisibleChild linuxLaunchReaperPid process = false := by
    intro process
    rw [hafter.used.mem_iff, mem_filter, Bool.not_eq_true']
  constructor
  · intro afterParented process hmem visible reaper parent hparent adopted hpid
    have hproc : process ∈ after.used :=
      (stays process).mpr ⟨hmem, by simp [isVisibleChild, reaper]⟩
    rcases afterParented process hproc visible with zero | same | ⟨other, hother, num, -⟩
    · have hlow := (sound.fits parent hparent).low
      rw [hpid, zero] at hlow
      exact absurd hlow (by decide)
    · exact reaper same
    · obtain ⟨otherMem, otherStays⟩ := (stays other).mp hother
      rw [sound.distinct.eq otherMem hparent (num.trans hpid.symm), adopted] at otherStays
      cases otherStays
  · intro hall process hproc visible
    obtain ⟨hmem, kept⟩ := (stays process).mp hproc
    have reaper : process.parentPid ≠ linuxLaunchReaperPid := by
      simpa [isVisibleChild, visible] using kept
    rcases parented process hmem visible with zero | same | ⟨parent, hparent, hpid, running⟩
    · exact .inl zero
    · exact absurd same reaper
    refine .inr (.inr ⟨parent, (stays parent).mpr ⟨hparent, ?_⟩, hpid, running⟩)
    rw [← Bool.not_eq_true]
    exact fun adopted => hall process hmem visible reaper parent hparent adopted hpid

end

/-- The condition in terms of what the call does. -/
def ParentStaysAt (table : LinuxProcessTable limit) : ProcessEvent → Prop
  | .published parentPid => Runs table.used parentPid
  | .tornDown => AdoptedChildless table.used
  | _ => True

theorem Effect.parented_iff (sound : Sound table) (parented : Parented table.used) {event}
  (effect : table.Effect after event) : Parented after.used ↔ table.ParentStaysAt event := by
  cases effect with
  | publish proc others state before hafter =>
    exact parented_publish_iff sound parented before state hafter
  | tearDown hafter => exact parented_tearDown_iff sound parented hafter
  | same hafter => exact iff_of_true (parented.perm hafter.used) trivial
  | root root hpid hparent state fresh used active =>
    refine iff_of_true (.perm used (parented.of_origin ?_ ?_)) trivial
    · intro later hlater visible
      rcases mem_cons.mp hlater with rfl | hmem
      · exact .inl hparent
      · exact .inr (.inr ⟨later, hmem, visible, rfl⟩)
    · exact fun other hother running => ⟨other, mem_cons_of_mem _ hother, rfl, running⟩
  | reserve parent child hmem hparent state hlow high fresh hafter =>
    have hidden : child.isVisible = false := by simp [isVisible, state]
    exact iff_of_true ((parented.add_hidden hidden).perm hafter.used) trivial
  | prepare proc others state before hafter =>
    have hothers := parented.remove before (by simp [state])
    exact iff_of_true ((hothers.add_hidden rfl).perm hafter.used) trivial
  | withdraw proc others state before hafter =>
    have notRunning : proc.state ≠ .running := by
      intro running
      simp [isVisible, running] at state
    exact iff_of_true ((parented.remove before notRunning).perm hafter.used) trivial
  | revise proc others status processGroup state before hafter =>
    have beforeParented := parented.perm before.symm
    refine iff_of_true (.perm hafter.used (beforeParented.of_origin ?_ ?_)) trivial
    · intro later hlater visible
      rcases mem_cons.mp hlater with rfl | hmem
      · exact .inr (.inr ⟨proc, mem_cons_self, visible, rfl⟩)
      · exact .inr (.inr ⟨later, mem_cons_of_mem _ hmem, visible, rfl⟩)
    · intro other hother running
      rcases mem_cons.mp hother with rfl | hmem
      · exact ⟨_, mem_cons_self, rfl, running⟩
      · exact ⟨other, mem_cons_of_mem _ hmem, rfl, running⟩
  | finish proc others test finished =>
    exact iff_of_true (parented_finish sound parented finished) trivial
  | collect proc others state before hafter =>
    have hothers := parented.remove before (by simp [state])
    exact iff_of_true (hothers.perm hafter.used) trivial
  | reset hafter =>
    refine iff_of_true ?_ trivial
    rw [hafter]
    exact fun proc hmem => absurd hmem not_mem_nil

theorem parentStays_iff (call) :
  table.ParentStays call ↔ table.ParentStaysAt (table.event call) := by
  cases call with
  | completeForkPublish resv =>
    simp only [ParentStays, event, completeForkPublish, Option.isSome_map]
    split_ifs with reserved
    · exact ⟨fun stays => stays reserved, fun runs _ => runs⟩
    · exact iff_of_true (fun hsome => absurd hsome reserved) trivial
  | reapLaunchDescendants =>
    simp only [ParentStays, event]
    split_ifs with active
    · exact ⟨fun stays => stays active, fun childless _ => childless⟩
    · exact iff_of_true (fun hsome => absurd hsome active) trivial
  | exitCurrentProcess tgid waitStatus actions
  | terminateBySignal tgid sig actions =>
    simp only [ParentStays, event]
    split <;> exact iff_of_true trivial trivial
  | completeWaitCurrent tgid selector pid status includeStopped copyStatus =>
    simp only [ParentStays, event]
    split
    · split_ifs <;> exact iff_of_true trivial trivial
    · exact iff_of_true trivial trivial
  | _ => exact .rfl

/-- In every run the process numbers are distinct, and every visible process has a parent in
every state just if every step of the run meets the condition. -/
theorem visible_processes_have_parents_iff (limit : Nat) (calls : List ProcessCall) :
  Distinct (run next (new limit) calls) ∧
    (Guarded (fun table call => Parented (next table call).used) next (new limit) calls ↔
      Guarded ParentStays next (new limit) calls) := by
  refine ⟨(sound_run calls).distinct, ?_⟩
  have hparented : Parented (new limit).used := by
    rw [show (new limit).used = [] from List.reduceOption_replicate_none]
    exact fun proc hmem => absurd hmem List.not_mem_nil
  have hstep : ∀ (table : LinuxProcessTable limit) (call : ProcessCall), Sound table →
      Parented table.used →
      (Parented (next table call).used ↔ ParentStays table call) := by
    intro table call hsound hgood
    exact ((next_effect hsound call).parented_iff hsound hgood).trans (parentStays_iff call).symm
  exact guarded_keeps_iff (fun _ call hsound => Sound.next hsound call) hstep sound_new hparented
    calls

/-- A child is reserved, its parent ends and is collected, and then the child is published:
its parent's number may be given to somebody else. -/
theorem child_published_after_parent_is_reaped :
  let table := run next (new 4)
    [.registerRoot 10, .reserveChildWithPid 1 11 2 17, .publishFork ⟨1, 2, 1⟩,
      .completeForkPublish ⟨1, 2, 1⟩, .reserveChildWithPid 2 12 3 17,
      .exitCurrentProcess 2 0 (fun _ => ⟨0, 0⟩),
      .completeWaitCurrent 1 .any 2 0 false (fun _ => .ok ()),
      .publishFork ⟨2, 3, 2⟩, .completeForkPublish ⟨2, 3, 2⟩]
  (table.byPid 3).map LinuxProcessCore.parentPid = some 2 ∧ table.byPid 2 = none ∧
    ¬ Parented table.used := by
  decide

end LinuxProcessTable
end Smros.Process
