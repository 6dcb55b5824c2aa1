import Smros.Task.Effects

/-!
# The identities of tasks

The tids of children come from a counter that no call turns back, not even a reset.  The
root always has the same tid, so a table that is reset gives it to the next root again.
-/

namespace Smros.Task
open Lib List
namespace LinuxTaskTable
variable {limit idx position tid : Nat} {table after : LinuxTaskTable limit}
/-- Whatever call puts a task into an empty slot writes all of the slot. -/
def CleanBirths (table : LinuxTaskTable limit) : Prop :=
  ∀ (call : TaskCall) (index : Nat) (task : LinuxTaskCore), table.tasks[index]? = some none →
    (table.next call).tasks[index]? = some (some task) →
      (table.next call).slots[index]? = some (.fresh (some task))

theorem tasks_of_slots {slot} (slots : after.slots = table.slots.set idx slot) :
  after.tasks = table.tasks.set idx slot.task := by
  rw [tasks, slots, map_set]
  rfl

variable {born task : LinuxTaskCore}
theorem slots_of_birth (slots : after.slots = table.slots.set idx (.fresh (some born)))
  (empty : table.tasks[position]? = some none) (hborn : after.tasks[position]? = some (some task)) :
  after.slots[position]? = some (.fresh (some task)) := by
  rw [tasks_of_slots slots] at hborn
  by_cases same : idx = position
  · subst same
    obtain ⟨hlt, -⟩ := List.getElem?_eq_some_iff.mp empty
    rw [List.getElem?_set_self hlt] at hborn
    cases hborn
    rw [slots, getElem?_set_self (by simpa [tasks] using hlt)]
  · rw [getElem?_set_ne same, empty] at hborn
    cases hborn

theorem cleanBirths (table : LinuxTaskTable limit) : table.CleanBirths := by
  intro call position task empty hborn
  have unchanged : ∀ {idx : Nat} {held : LinuxTaskCore} {content : Option LinuxTaskCore},
    table.tasks[idx]? = some (some held) →
    (table.next call).tasks = table.tasks.set idx content → False := by
    intro idx held content hheld htasks
    have differ : idx ≠ position := by
      rintro rfl
      rw [hheld] at empty
      cases empty
    rw [htasks, getElem?_set_ne differ, empty] at hborn
    cases hborn
  cases next_effect table call with
  | keeps tasks =>
    rw [tasks, empty] at hborn
    cases hborn
  | exhausts slots =>
    rw [LinuxTaskTable.tasks, slots, ← LinuxTaskTable.tasks, empty] at hborn
    cases hborn
  | root idx born _ _ _ _ slots => exact slots_of_birth slots empty hborn
  | child idx born _ _ _ _ slots => exact slots_of_birth slots empty hborn
  | turns idx held turned hheld _ _ tasks => exact (unchanged hheld tasks).elim
  | leaves idx held hheld tasks => exact (unchanged hheld tasks).elim
  | clears slots =>
    rw [tasks, slots, map_replicate, getElem?_replicate] at hborn
    split at hborn <;> cases hborn

/-! ## The counter -/

/-- No call turns the counter back. -/
theorem Effect.counter (effect : Effect table after) (hopen : after.exhausted = false) :
  table.exhausted = false ∧ table.nextTid ≤ after.nextTid := by
  cases effect with
  | keeps _ counter | root _ _ _ _ _ _ _ counter | turns _ _ _ _ _ _ _ counter
  | leaves _ _ _ _ counter | clears _ counter =>
    exact ⟨counter.exhausted ▸ hopen, counter.nextTid.ge⟩
  | exhausts _ exhausted => exact absurd exhausted (by rw [hopen]; exact nofun)
  | child _ task _ num _ _ _ before counter =>
    refine ⟨before, ?_⟩
    rcases counter with hexhausted | hnext
    · rw [hopen] at hexhausted
      cases hexhausted
    · omega

/-- A tid other than the root's is the next one of the counter, which moves past it. -/
theorem handedOut_counter {call} (handed : table.handedOut call = some tid) :
  tid = linuxRootTid ∨ table.exhausted = false ∧ tid = table.nextTid ∧
    ((table.next call).exhausted = true ∨ (table.next call).nextTid = tid + 1) := by
  cases call with
  | registerRoot thr =>
    left
    simp only [handedOut, registerRoot] at handed
    split at handed
    · cases handed
    rename_i root hroot
    split at hroot
    · cases hroot
    split at hroot
    · cases hroot
    cases hroot
    cases handed
    rfl
  | reserveChild tgid thr =>
    right
    simp only [handedOut, next, reserveChild, linuxTaskTidAllocation] at handed ⊢
    split at handed
    · cases handed
    rename_i hopen
    rw [if_neg hopen]
    refine ⟨by simpa using hopen, ?_⟩
    split at handed
    · cases handed
    split at handed
    · cases handed
    rename_i alloc
    split at alloc
    · cases alloc
    rename_i range
    cases alloc
    cases handed
    refine ⟨rfl, ?_⟩
    dsimp only
    split
    · exact .inr rfl
    · exact .inl rfl
  | _ => cases handed

/-! ## The numbers of tasks -/

/-- The root's, or below the counter. -/
def Past (table : LinuxTaskTable limit) (tid : Nat) : Prop :=
  tid = linuxRootTid ∨ tid < table.nextTid

/-- The tasks of the table under a write of one slot. -/
theorem used_around {content} (hcontent : table.tasks[idx]? = some content) :
  ∃ others, table.used.Perm (content.toList ++ others) ∧
    ∀ {after : LinuxTaskTable limit} {written : Option LinuxTaskCore},
      after.tasks = table.tasks.set idx written → after.used.Perm (written.toList ++ others) := by
  obtain ⟨others, hused, hafter⟩ := reduceOption_around hcontent
  refine ⟨others, hused, fun {after written} tasks => ?_⟩
  rw [used, tasks]
  exact hafter written

/-- What the tasks of a table satisfy, with the counter that numbers the next one. -/
structure Numbered (table : LinuxTaskTable limit) : Prop where
  distinct : (table.used.map LinuxTaskCore.tid).Nodup
  reasons : ∀ task ∈ table.used, task.ReasonFits
  past : table.exhausted = false → ∀ task ∈ table.used, table.Past task.tid

variable {used others : List LinuxTaskCore}
theorem Numbered.of_perm (hused : after.used.Perm used)
  (distinct : (used.map LinuxTaskCore.tid).Nodup) (reasons : ∀ task ∈ used, task.ReasonFits)
  (past : after.exhausted = false → ∀ task ∈ used, after.Past task.tid) : Numbered after :=
  ⟨(hused.map _).nodup_iff.mpr distinct, fun task htask => reasons task (hused.subset htask),
    fun hopen task htask => past hopen task (hused.subset htask)⟩

/-- A task with a new number takes an empty slot. -/
theorem Numbered.add (numbered : Numbered table) (used : table.used.Perm others)
  (hafter : after.used.Perm (task :: others)) (fresh : ∀ other ∈ table.used, other.tid ≠ task.tid)
  (reason : task.ReasonFits) (hpast : after.exhausted = false → after.Past task.tid)
  (past : after.exhausted = false → ∀ other ∈ table.used, after.Past other.tid) :
  Numbered after := by
  have same : ∀ other ∈ others, other ∈ table.used := fun other hother => used.symm.subset hother
  refine .of_perm hafter ?_ ?_ ?_
  · refine nodup_cons.mpr ⟨fun hmem => ?_, (used.map _).nodup_iff.mp numbered.distinct⟩
    obtain ⟨other, hother, htid⟩ := mem_map.mp hmem
    exact fresh other (same other hother) htid
  · exact forall_mem_cons.mpr ⟨reason, fun other hother =>
      numbered.reasons other (same other hother)⟩
  · exact fun hopen => forall_mem_cons.mpr ⟨hpast hopen, fun other hother =>
      past hopen other (same other hother)⟩

theorem used_of_replicate (slots : table.slots = replicate limit (.fresh none)) :
  table.used = [] := by
  rw [used, tasks, slots, map_replicate]
  exact reduceOption_replicate_none

theorem Numbered.of_used_nil (used : table.used = []) : table.Numbered :=
  .of_perm (.of_eq used) nodup_nil nofun fun _ => nofun

theorem Numbered.of_effect (numbered : Numbered table) (effect : Effect table after) :
  Numbered after := by
  -- What is below the counter stays below it.
  have past : after.exhausted = false → ∀ task ∈ table.used, after.Past task.tid := by
    intro hopen task htask
    obtain ⟨hbefore, hle⟩ := effect.counter hopen
    exact (numbered.past hbefore task htask).imp id fun hlt => hlt.trans_le hle
  cases effect with
  | keeps tasks =>
    have used : after.used = table.used := congrArg reduceOption tasks
    exact .of_perm (.of_eq used) numbered.distinct numbered.reasons past
  | exhausts slots =>
    have used : after.used = table.used :=
      congrArg (fun slots => (slots.map TaskSlot.task).reduceOption) slots
    exact .of_perm (.of_eq used) numbered.distinct numbered.reasons past
  | root idx task empty unused num reason slots counter =>
    obtain ⟨others, used, hafter⟩ := used_around empty
    exact numbered.add used (hafter (tasks_of_slots slots))
      (fun other hother htid => unused other hother (htid.trans num)) reason
      (fun _ => .inl num) past
  | child idx task empty num high reason slots before counter =>
    obtain ⟨others, used, hafter⟩ := used_around empty
    refine numbered.add used (hafter (tasks_of_slots slots)) ?_ reason (fun hopen => .inr ?_) past
    · intro other hother htid
      rcases numbered.past before other hother with hroot | hlt
      · omega
      · omega
    · rcases counter with exhausted | hnext
      · rw [hopen] at exhausted
        cases exhausted
      · omega
  | turns idx task turned held num reason tasks counter =>
    obtain ⟨others, used, hafter⟩ := used_around held
    have same : ∀ other ∈ task :: others, other ∈ table.used := fun other hother =>
      used.symm.subset hother
    obtain ⟨htask, hothers⟩ := forall_mem_cons.mp same
    refine .of_perm (hafter tasks) ?_ ?_ ?_
    · have distinct := (used.map LinuxTaskCore.tid).nodup_iff.mp numbered.distinct
      change (turned.tid :: others.map LinuxTaskCore.tid).Nodup
      rw [num]
      exact distinct
    · exact forall_mem_cons.mpr ⟨reason (numbered.reasons task htask), fun other hother =>
        numbered.reasons other (hothers other hother)⟩
    · refine fun hopen => forall_mem_cons.mpr ⟨?_, fun other hother =>
        past hopen other (hothers other hother)⟩
      rw [num]
      exact past hopen task htask
  | leaves idx task held tasks counter =>
    obtain ⟨others, used, hafter⟩ := used_around held
    have hothers : ∀ other ∈ others, other ∈ table.used := fun other hother =>
      used.symm.subset (mem_cons_of_mem task hother)
    refine .of_perm (hafter tasks) ?_ (fun other hother => numbered.reasons other
      (hothers other hother)) fun hopen other hother => past hopen other (hothers other hother)
    exact (nodup_cons.mp ((used.map LinuxTaskCore.tid).nodup_iff.mp numbered.distinct)).2
  | clears slots counter => exact .of_used_nil (used_of_replicate slots)

end LinuxTaskTable

/-! ## Histories -/

/-- A table with the tids that its calls have handed out so far. -/
structure TaskHistory (limit : Nat) where
  table : LinuxTaskTable limit
  issued : List Nat

namespace TaskHistory
open LinuxTaskTable
variable {limit : Nat}

def start (limit : Nat) : TaskHistory limit := ⟨.new limit, []⟩

def next (history : TaskHistory limit) (call : TaskCall) : TaskHistory limit :=
  ⟨history.table.next call, history.issued ++ (history.table.handedOut call).toList⟩

structure Sound (history : TaskHistory limit) : Prop where
  numbered : history.table.Numbered
  past : history.table.exhausted = false → ∀ tid ∈ history.issued, history.table.Past tid
  once : (history.issued.filter (· ≠ linuxRootTid)).Nodup

theorem start_sound : (start limit).Sound :=
  ⟨.of_used_nil (used_of_replicate rfl), fun _ => nofun, nodup_nil⟩

theorem Sound.next {history : TaskHistory limit} (sound : history.Sound) (call) :
  (history.next call).Sound := by
  have effect := next_effect history.table call
  have past : (history.table.next call).exhausted = false →
    ∀ tid ∈ history.issued, (history.table.next call).Past tid := by
    intro hopen tid htid
    obtain ⟨before, hle⟩ := effect.counter hopen
    exact (sound.past before tid htid).imp id fun hlt => hlt.trans_le hle
  refine ⟨sound.numbered.of_effect effect, fun hopen tid htid => ?_, ?_⟩
  · rcases mem_append.mp htid with hold | hnew
    · exact past hopen tid hold
    rcases handedOut_counter (Option.mem_toList.mp hnew) with root | ⟨-, -, counter⟩
    · exact .inl root
    rcases counter with exhausted | hnext
    · exact absurd exhausted (Bool.not_eq_true _ ▸ hopen)
    · exact .inr (hnext ▸ Nat.lt_succ_self tid)
  · change ((history.issued ++ _).filter _).Nodup
    rw [filter_append]
    cases handed : history.table.handedOut call with
    | none => simpa using sound.once
    | some tid =>
      refine sound.once.append ((nodup_singleton tid).filter _) ?_
      intro other hother hnew
      obtain ⟨hold, child⟩ := mem_filter.mp hother
      have hother : other = tid := by simpa using (mem_filter.mp hnew).1
      subst hother
      have child : other ≠ linuxRootTid := by simpa using child
      rcases handedOut_counter handed with root | ⟨hopen, num, -⟩
      · exact child root
      rcases sound.past hopen other hold with root | hlt
      · exact child root
      · omega

theorem run_sound (calls) : (run next (start limit) calls).Sound :=
  run_invariant (fun _ call sound => sound.next call) start_sound calls

/--
After any calls the tasks have different tids and fitting reasons, no tid but the root's
has been handed out twice, and a slot that goes to a new task has nothing of another one.
-/
theorem tasks_keep_their_identities (limit : Nat) (calls : List TaskCall) :
  let history := run next (start limit) calls
  (history.table.used.map LinuxTaskCore.tid).Nodup ∧
    (history.issued.filter (· ≠ linuxRootTid)).Nodup ∧
    (∀ task ∈ history.table.used, task.ReasonFits) ∧ history.table.CleanBirths := by
  have hsound : (run next (start limit) calls).Sound := run_sound calls
  exact ⟨hsound.numbered.distinct, hsound.once, hsound.numbered.reasons, cleanBirths _⟩

/-- After a reset the next root gets the root's tid again. -/
theorem root_tid_handed_out_twice :
  (run next (start 2) [.registerRoot 3, .reset, .registerRoot 3]).issued = [1, 1] := by
  decide

end TaskHistory
end Smros.Task
