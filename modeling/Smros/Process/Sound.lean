import Smros.Process.Effects

/-!
# Process numbers

Whatever is called, the processes in the table have different numbers, all of them in
the range from which numbers are given out.
-/

namespace Smros.Process
open Lib List LinuxProcessCore
namespace LinuxProcessTable
variable {limit : Nat} {table after : LinuxProcessTable limit}
theorem Sound.of_turns (sound : Sound table) {processes : List LinuxProcessCore}
  (hafter : table.Turns after processes) (nodup : (processes.map pid).Nodup)
  (hfits : ∀ process ∈ processes, Fits process)
  (hactive : processes ≠ [] → table.used ≠ []) : Sound after where
  distinct := (hafter.used.map _).nodup_iff.mpr nodup
  active hne := by
    rw [hafter.active]
    refine sound.active (hactive fun hnil => hne ?_)
    rw [hnil] at hafter
    exact hafter.used.eq_nil
  fits process hmem := hfits process (hafter.used.mem_iff.mp hmem)

section
variable {process changed : LinuxProcessCore} {others : List LinuxProcessCore}
theorem Sound.fits_others (sound : Sound table) (before : table.used.Perm (process :: others)) :
  Fits process ∧ ∀ other ∈ others, Fits other :=
  ⟨sound.fits process (before.mem_iff.mpr mem_cons_self), fun other hother =>
    sound.fits other (before.mem_iff.mpr (mem_cons_of_mem _ hother))⟩

theorem Sound.nodup_others (sound : Sound table) (before : table.used.Perm (process :: others)) :
  ((process :: others).map pid).Nodup :=
  (before.map _).nodup_iff.mp sound.distinct

theorem ne_nil_of_perm (before : table.used.Perm (process :: others)) : table.used ≠ [] := by
  intro hnil
  rw [hnil] at before
  exact cons_ne_nil _ _ before.nil_eq.symm

variable (sound : Sound table)
include sound
/-- A process may change as long as it keeps its number. -/
theorem Sound.change (before : table.used.Perm (process :: others))
  (hafter : table.Turns after (changed :: others)) (hpid : changed.pid = process.pid)
  (fits : Fits process → Fits changed) : Sound after := by
  obtain ⟨hproc, hothers⟩ := sound.fits_others before
  refine sound.of_turns hafter ?_ ?_ fun _ => ne_nil_of_perm before
  · rw [map_cons, hpid]
    exact sound.nodup_others before
  · exact forall_mem_cons.mpr ⟨fits hproc, hothers⟩

theorem Sound.remove (before : table.used.Perm (process :: others))
  (hafter : table.Turns after others) : Sound after :=
  sound.of_turns hafter (nodup_cons.mp (sound.nodup_others before)).2
    (sound.fits_others before).2 fun _ => ne_nil_of_perm before

theorem Sound.add (fits : Fits changed) (fresh : ∀ process ∈ table.used, process.pid ≠ changed.pid)
  : ((changed :: table.used).map pid).Nodup ∧ ∀ process ∈ changed :: table.used, Fits process := by
  refine ⟨nodup_cons.mpr ⟨fun hmem => ?_, sound.distinct⟩, forall_mem_cons.mpr ⟨fits, sound.fits⟩⟩
  obtain ⟨process, hproc, hpid⟩ := mem_map.mp hmem
  exact fresh process hproc hpid

end

variable (test : LinuxProcessCore → Bool) (process : LinuxProcessCore)

@[simp] theorem reparentedIf_pid : (process.reparentedIf test).pid = process.pid := by
  unfold reparentedIf
  split_ifs <;> rfl

@[simp] theorem reparentedIf_state : (process.reparentedIf test).state = process.state := by
  unfold reparentedIf
  split_ifs <;> rfl

@[simp] theorem reparentedIf_waitStatus :
  (process.reparentedIf test).waitStatus = process.waitStatus := by
  unfold reparentedIf
  split_ifs <;> rfl

@[simp] theorem reparentedIf_isVisible :
  (process.reparentedIf test).isVisible = process.isVisible := by
  simp [isVisible]

/-- What is left of an ending process and the others are the processes there were. -/
theorem Finished.origin {pid status kept proc others test}
  (finished : table.Finished after pid status kept proc others test) {left}
  (hleft : left ∈ remains kept proc status ++ others) :
  ∃ origin ∈ table.used, left.pid = origin.pid ∧ left.parentPid = origin.parentPid ∧
    left.isVisible = origin.isVisible := by
  rcases mem_append.mp hleft with hremains | other
  · unfold remains at hremains
    split_ifs at hremains
    · rw [mem_singleton.mp hremains]
      refine ⟨proc, finished.before.mem_iff.mpr mem_cons_self, rfl, rfl, ?_⟩
      simp [isVisible, exited, finished.running]
    · exact absurd hremains not_mem_nil
  · exact ⟨left, finished.before.mem_iff.mpr (mem_cons_of_mem _ other), rfl, rfl, rfl⟩

theorem Sound.finish (sound : Sound table) {pid : Nat} {status : WaitStatus} {kept : Bool}
  {proc : LinuxProcessCore} {others : List LinuxProcessCore} {test : LinuxProcessCore → Bool}
  (finished : table.Finished after pid status kept proc others test) : Sound after := by
  refine sound.of_turns finished.after ?_ ?_ fun _ => ne_nil_of_perm finished.before
  · have nodup := sound.nodup_others finished.before
    have pids : ((remains kept proc status ++ others).map
      (LinuxProcessCore.reparentedIf test)).map LinuxProcessCore.pid =
      (if kept then [proc.pid] else []) ++ others.map LinuxProcessCore.pid := by
      cases kept <;> simp [remains, LinuxProcessCore.exited, Function.comp_def]
    rw [pids]
    cases kept with
    | true => exact nodup
    | false => exact (nodup_cons.mp nodup).2
  · intro changed hchanged
    obtain ⟨left, hleft, rfl⟩ := mem_map.mp hchanged
    obtain ⟨origin, horigin, hpid, parent, visible⟩ := finished.origin hleft
    obtain ⟨hlow, high, root, hidden⟩ := sound.fits origin horigin
    rw [← hpid] at hlow high root hidden
    rw [← parent] at root hidden
    rw [← visible] at hidden
    by_cases htest : test left = true
    · refine ⟨by rwa [reparentedIf_pid], by rwa [reparentedIf_pid], fun rootPid => ?_, fun hnot => ?_⟩
      · rw [reparentedIf_pid] at rootPid
        have zero : pid = 0 := (finished.root left rootPid htest).symm.trans (root rootPid)
        have hproc := (sound.fits_others finished.before).1.low
        rw [finished.number, zero] at hproc
        exact absurd hproc (by decide)
      · rw [reparentedIf_isVisible, finished.visible left htest] at hnot
        cases hnot
    · have same : left.reparentedIf test = left := if_neg htest
      rw [same]
      exact ⟨hlow, high, root, hidden⟩

theorem Effect.sound (sound : Sound table) {event : ProcessEvent}
  (effect : table.Effect after event) : Sound after := by
  cases effect with
  | same hafter => exact sound.of_turns hafter sound.distinct sound.fits id
  | root root hpid hparent state fresh used active =>
    have fits : Fits root := by
      refine ⟨hpid.ge, ?_, fun _ => hparent, fun hidden => ?_⟩
      · rw [hpid]
        decide
      · simp [isVisible, state] at hidden
    obtain ⟨nodup, hall⟩ := sound.add fits fresh
    exact ⟨(used.map _).nodup_iff.mpr nodup, fun _ => active, fun proc hmem =>
      hall proc (used.mem_iff.mp hmem)⟩
  | reserve parent child hmem hparent state hlow high fresh hafter =>
    have parentFits := sound.fits parent hmem
    have fits : Fits child := by
      refine ⟨hlow.le, high, fun hroot => absurd hroot hlow.ne', fun _ => ?_⟩
      rw [hparent]
      exact ⟨parentFits.low, parentFits.high, fresh parent hmem⟩
    obtain ⟨nodup, hall⟩ := sound.add fits fresh
    exact sound.of_turns hafter nodup hall fun _ => ne_nil_of_mem hmem
  | prepare proc others state before hafter =>
    have hidden : proc.isVisible = false := by simp [isVisible, state]
    exact sound.change before hafter rfl fun fits =>
      ⟨fits.low, fits.high, fits.rootParent, fun _ => fits.hiddenParent hidden⟩
  | publish proc others state before hafter =>
    exact sound.change before hafter rfl fun fits =>
      ⟨fits.low, fits.high, fits.rootParent, fun hidden => by cases hidden⟩
  | withdraw proc others state before hafter => exact sound.remove before hafter
  | revise proc others status processGroup state before hafter =>
    exact sound.change before hafter rfl fun fits =>
      ⟨fits.low, fits.high, fits.rootParent, fits.hiddenParent⟩
  | finish proc others test finished => exact sound.finish finished
  | collect proc others state before hafter => exact sound.remove before hafter
  | tearDown hafter =>
    refine sound.of_turns hafter (sound.distinct.sublist (filter_sublist.map _))
      (fun proc hmem => sound.fits proc (mem_of_mem_filter hmem)) fun hne hnil => ?_
    rw [hnil] at hne
    exact hne rfl
  | reset hafter =>
    have hmem : ∀ proc, proc ∉ after.used := by simp [hafter]
    exact ⟨by simp [Distinct, hafter], fun hne => absurd hafter hne, fun proc hproc =>
      absurd hproc (hmem proc)⟩

theorem Sound.next (sound : Sound table) (call) : Sound (table.next call) :=
  (next_effect sound call).sound sound

theorem sound_new : Sound (new limit) := by
  have used : (new limit).used = [] := reduceOption_replicate_none
  have hmem : ∀ proc, proc ∉ (new limit).used := by simp [used]
  exact ⟨by simp [Distinct, used], fun hne => absurd used hne, fun proc hproc =>
    absurd hproc (hmem proc)⟩

theorem sound_run (calls) : Sound (run next (new limit) calls) :=
  run_invariant (fun _ call sound => sound.next call) sound_new calls

end LinuxProcessTable
end Smros.Process
