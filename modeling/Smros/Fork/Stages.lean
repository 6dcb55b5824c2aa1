import Smros.Fork.Ownership

/-!
# The stages of a fork account for what they hold

Each operation of the core is followed through its success and its failure: the calls it
makes touch only what is held, and what the core holds afterwards is what they led to.
-/

namespace Smros.Fork
open Lib Ownership
variable {O : LinuxForkOwnershipOps}
namespace LinuxForkOwnershipCore

/-! ## What the core holds -/

variable {res : O.Resources} (core : LinuxForkOwnershipCore (recorded O))
/-- The calls made so far. -/
def calls : List (ForkCall O) := core.ops.2

def ownership : Ownership O where
  stack :=
    (core.configured.map (@Holding.configured O)).toList ++ (core.memory.map (@Holding.memory O)).toList ++
      (if core.resourcesInstalled then (core.process.map (@Holding.installed O)).toList else []) ++
      (core.resources.map (@Holding.resources O)).toList ++ (core.process.map (@Holding.process O)).toList ++
      (core.task.map (@Holding.task O)).toList ++
      (core.schedulerThread.map (@Holding.schedulerThread O)).toList
  parent := core.parent
  publication := core.publication

variable {Value : Type}
theorem flatMap_swap {holdings} (make : Value → Holding O)
  (kept : ∀ value, swap holdings (make value) = [make value]) (held : Option Value) :
  (held.map make).toList.flatMap (swap holdings) = (held.map make).toList := by
  cases held with
  | none => rfl
  | some value => simp [kept]

/-- Only the resources themselves are exchanged. -/
theorem exchange_ownership {core : LinuxForkOwnershipCore (recorded O)}
  (inst : core.resourcesInstalled = false) (hres : core.resources = some res)
  (holdings : List (Holding O)) :
  core.ownership.exchange holdings =
    { core.ownership with
      stack := (core.configured.map (@.configured O)).toList ++
        (core.memory.map (@.memory O)).toList ++ holdings ++
        (core.process.map (@.process O)).toList ++ (core.task.map (@.task O)).toList ++
        (core.schedulerThread.map (@.schedulerThread O)).toList } := by
  unfold exchange ownership
  simp only [inst, hres, List.flatMap_append, flatMap_swap (@.configured O) (fun _ => rfl),
    flatMap_swap (@.memory O) (fun _ => rfl), flatMap_swap (@.process O) (fun _ => rfl),
    flatMap_swap (@.task O) (fun _ => rfl), flatMap_swap (@.schedulerThread O) (fun _ => rfl)]
  simp [swap]

/-- The calls so far account for what the core holds. -/
def Tracks : Prop := Ownership.empty.Reaches core.calls core.ownership

/-- Before the stage of this number nothing of it and of later stages is held. -/
structure Before (stage : Nat) (core : LinuxForkOwnershipCore (recorded O)) : Prop where
  schedulerThread : stage = 0 → core.schedulerThread = none
  task : stage ≤ 1 → core.task = none
  process : stage ≤ 2 → core.process = none
  resources : stage ≤ 3 → core.resources = none
  installed : stage ≤ 6 → core.resourcesInstalled = false
  memory : stage ≤ 4 → core.memory = none
  configured : stage ≤ 5 → core.configured = none

/-- The core after an operation that was recorded. -/
def noted (core : LinuxForkOwnershipCore (recorded O)) (state : O.State) (call : ForkCall O) :
  LinuxForkOwnershipCore (recorded O) :=
  { core with ops := (state, core.calls ++ [call]) }

variable {core} {next : LinuxForkOwnershipCore (recorded O)}
theorem Tracks.noted (tracks : Tracks core) {call} (calls : next.calls = core.calls ++ [call])
  (allows : core.ownership.Allows call) (own : next.ownership = core.ownership.after call) :
  Tracks next := by
  unfold Tracks
  rw [calls, own]
  exact .concat tracks allows

section
open Program
variable {Result Lent : Type} {post : Result → LinuxForkOwnershipCore (recorded O) → Prop}
  {fail : O.Error → LinuxForkOwnershipCore (recorded O) → Prop}
  {next : Value → Program (LinuxForkOwnershipCore (recorded O)) O.Error Result}
theorem ends_held_bind {field} (hfail : fail (O.injectedFailure core.ops.1) core)
  (hnext : ∀ value, field core = some value → Ends (next value) core post fail) :
  Ends (held field >>= next) core post fail := by
  cases hfield : field core with
  | none =>
    have hrun : held field core = .error (O.injectedFailure core.ops.1) core := by
      change (get >>= fun core => orThrow _ (field core)) core = _
      rw [get_bind_run, hfield]
      rfl
    exact (ends_bind_of_error hrun).mpr hfail
  | some value =>
    have hrun : held field core = .ok value core := by
      change (get >>= fun core => orThrow _ (field core)) core = _
      rw [get_bind_run, hfield]
      rfl
    exact (ends_bind_of_ok hrun).mpr (hnext value hfield)

theorem ends_onOps_bind {prog call}
  (hfail : ∀ reason state, fail reason (core.noted state (call none)))
  (hnext : ∀ value state, Ends (next value) (core.noted state (call (some value))) post fail) :
  Ends (onOps (O := recorded O) (record prog call) >>= next) core post fail := by
  cases hprogram : prog core.ops.1 with
  | ok value state =>
    have hrun : onOps (O := recorded O) (record prog call) core =
      .ok value (core.noted state (call (some value))) := by
      simp only [onOps, zoom, record, hprogram]
      rfl
    exact (ends_bind_of_ok hrun).mpr (hnext value state)
  | error reason state =>
    have hrun : onOps (O := recorded O) (record prog call) core =
      .error reason (core.noted state (call none)) := by
      simp only [onOps, zoom, record, hprogram]
      rfl
    exact (ends_bind_of_error hrun).mpr (hfail reason state)

/-- The last operation of a program. -/
theorem ends_onOps {prog call} (hfail : ∀ reason state, fail reason (core.noted state (call none)))
  (hpost : ∀ value state, post value (core.noted state (call (some value)))) :
  Ends (onOps (O := recorded O) (record prog call)) core post fail := by
  have hbind : Ends (onOps (O := recorded O) (record prog call) >>= pure) core post fail :=
    ends_onOps_bind hfail fun value state => ends_pure.mpr (hpost value state)
  rwa [bind_pure] at hbind

/-- An operation that is lent a value besides. -/
theorem ends_lent_bind {prog : Program (O.State × Lent) O.Error Value}
  {call : Lent → Lent → Option Value → ForkCall O}
  {view : LinuxForkOwnershipCore (recorded O) → (O.State × List (ForkCall O)) × Lent}
  {update : LinuxForkOwnershipCore (recorded O) → (O.State × List (ForkCall O)) × Lent →
    LinuxForkOwnershipCore (recorded O)} (hfail : ∀ reason state after, fail reason (update core
    ((state, (view core).1.2 ++ [call (view core).2 after none]), after)))
  (hnext : ∀ value state after, Ends (next value) (update core
    ((state, (view core).1.2 ++ [call (view core).2 after (some value)]), after)) post fail) :
  Ends (zoom view update (recordLent prog call) >>= next) core post fail := by
  cases hprogram : prog ((view core).1.1, (view core).2) with
  | ok value result =>
    have hrun : zoom view update (recordLent prog call) core = .ok value (update core
      ((result.1, (view core).1.2 ++ [call (view core).2 result.2 (some value)]), result.2)) := by
      simp only [zoom, recordLent, hprogram]
    exact (ends_bind_of_ok hrun).mpr (hnext value result.1 result.2)
  | error reason result =>
    have hrun : zoom view update (recordLent prog call) core = .error reason (update core
      ((result.1, (view core).1.2 ++ [call (view core).2 result.2 none]), result.2)) := by
      simp only [zoom, recordLent, hprogram]
    exact (ends_bind_of_error hrun).mpr (hfail reason result.1 result.2)

end

/-- Whether the operation succeeds or not, the core is as described. -/
def Leads {Value : Type} (core : LinuxForkOwnershipCore (recorded O))
  (operation : Program (LinuxForkOwnershipCore (recorded O)) O.Error Value)
  (description : LinuxForkOwnershipCore (recorded O) → Prop) : Prop :=
  Program.Ends operation core (fun _ => description) (fun _ => description)

/-! ## Acquiring -/

section
open Program
variable (tracks : Tracks core)
include tracks
theorem acquireThread_leads (before : Before 0 core) :
  Leads core acquireSchedulerThread fun next => Tracks next ∧ Before 1 next := by
  obtain ⟨hthr, task, process, res, installed, memory, configured⟩ := before
  simp only [Nat.zero_le, forall_const] at hthr task process res installed memory configured
  refine ends_onOps_bind (fun reason state => ⟨?_, ?_⟩) fun thr state => ends_modify.mpr ⟨?_, ?_⟩
  · exact tracks.noted rfl trivial rfl
  · constructor <;> simp [noted, task, process, res, installed, memory, configured]
  · refine tracks.noted rfl trivial ?_
    simp [ownership, noted, after, push, hthr, task, process, res, memory, configured, installed]
  · constructor <;> simp [noted, task, process, res, installed, memory, configured]

theorem acquireTask_leads (before : Before 1 core) :
  Leads core acquireTask fun next => Tracks next ∧ Before 2 next := by
  obtain ⟨-, task, process, res, installed, memory, configured⟩ := before
  simp only [Nat.reduceLeDiff, Nat.le_refl, forall_const]
    at task process res installed memory configured
  refine ends_held_bind ⟨tracks, ?_⟩ fun thr hthr =>
    ends_onOps_bind (fun reason state => ⟨?_, ?_⟩) fun made state => ends_modify.mpr ⟨?_, ?_⟩
  · constructor <;> simp [process, res, installed, memory, configured]
  · exact tracks.noted rfl (by simp [Allows, ownership, hthr]) rfl
  · constructor <;> simp [noted, process, res, installed, memory, configured]
  · refine tracks.noted rfl (by simp [Allows, ownership, hthr]) ?_
    simp [ownership, noted, after, push, task, process, res, memory, configured, installed]
  · constructor <;> simp [noted, process, res, installed, memory, configured]

theorem acquireProcess_leads (before : Before 2 core) :
  Leads core acquireProcess fun next => Tracks next ∧ Before 3 next := by
  obtain ⟨-, -, hprocess, res, installed, memory, configured⟩ := before
  simp only [Nat.reduceLeDiff, Nat.le_refl, forall_const]
    at hprocess res installed memory configured
  have fail : Tracks core ∧ Before 3 core :=
    ⟨tracks, by constructor <;> simp [res, installed, memory, configured]⟩
  refine ends_held_bind fail fun parent hparent => ends_held_bind fail fun thr hthr =>
    ends_held_bind fail fun task htask => ?_
  have allows : ∀ result, core.ownership.Allows (.acquireProcess parent thr task result) := by
    simp [Allows, ownership, hparent, hthr, htask]
  refine ends_onOps_bind (fun reason state => ⟨?_, ?_⟩) fun process state =>
    ends_modify.mpr ⟨?_, ?_⟩
  · exact tracks.noted rfl (allows none) rfl
  · constructor <;> simp [noted, res, installed, memory, configured]
  · refine tracks.noted rfl (allows (some process)) ?_
    simp [ownership, noted, after, push, hprocess, res, memory, configured, installed]
  · constructor <;> simp [noted, res, installed, memory, configured]

theorem acquireResources_ends (before : Before 3 core) : Ends acquireResources core
    (fun _ next => (Tracks next ∧ Before 4 next) ∧ ∃ res, next.resources = some res)
    (fun _ next => Tracks next ∧ Before 4 next) := by
  obtain ⟨-, -, -, hresources, installed, memory, configured⟩ := before
  simp only [Nat.reduceLeDiff, Nat.le_refl, forall_const] at hresources installed memory configured
  refine ends_held_bind ⟨tracks, ?_⟩ fun parent hparent =>
    ends_onOps_bind (fun reason state => ⟨?_, ?_⟩) fun res state =>
      ends_modify.mpr ⟨⟨?_, ?_⟩, res, rfl⟩
  · constructor <;> simp [installed, memory, configured]
  · exact tracks.noted rfl hparent rfl
  · constructor <;> simp [noted, installed, memory, configured]
  · refine tracks.noted rfl hparent ?_
    simp [ownership, noted, after, push, hresources, memory, configured, installed]
  · constructor <;> simp [noted, installed, memory, configured]

theorem acquireMemory_ends (before : Before 4 core) : Ends acquireMemory core
    (fun _ next => (Tracks next ∧ Before 5 next) ∧ ∃ res, next.resources = some res)
    (fun _ next => Tracks next ∧ Before 5 next) := by
  obtain ⟨-, -, -, -, installed, hmemory, configured⟩ := before
  simp only [Nat.reduceLeDiff, Nat.le_refl, forall_const] at installed hmemory configured
  have fail : Tracks core ∧ Before 5 core :=
    ⟨tracks, by constructor <;> simp [installed, configured]⟩
  refine ends_held_bind fail fun parent hparent => ends_held_bind fail fun process hprocess =>
    ends_held_bind fail fun res hresources => ?_
  have allows : ∀ changed result,
    core.ownership.Allows (.acquireMemory parent process res changed result) := by
    simp [Allows, ownership, hparent, hprocess, hresources]
  refine ends_lent_bind (fun reason state changed => ⟨?_, ?_⟩) fun memory state changed =>
    ends_modify.mpr ⟨⟨?_, ?_⟩, changed, rfl⟩
  · refine tracks.noted rfl (allows changed none) ?_
    rw [after, exchange_ownership installed hresources]
    simp [push, ownership, installed]
  · constructor <;> simp [installed, configured]
  · refine tracks.noted rfl (allows changed (some memory)) ?_
    rw [after, exchange_ownership installed hresources]
    simp [push, ownership, hmemory, configured, installed]
  · constructor <;> simp [installed, configured]

theorem configureChild_ends (before : Before 5 core) (hres : core.resources = some res) :
  Ends configureChild core
    (fun _ next => (Tracks next ∧ Before 6 next) ∧ ∃ res, next.resources = some res)
    (fun _ next => Tracks next ∧ Before 6 next) := by
  obtain ⟨-, -, -, -, installed, -, hconfigured⟩ := before
  simp only [Nat.reduceLeDiff, Nat.le_refl, forall_const] at installed hconfigured
  have fail : Tracks core ∧ Before 6 core := ⟨tracks, by constructor <;> simp [installed]⟩
  refine ends_held_bind fail fun process hprocess => ends_held_bind fail fun thr hthr =>
    ends_held_bind fail fun memory hmemory => ?_
  have allows : ∀ result, core.ownership.Allows (.configureChild process thr memory result) := by
    simp [Allows, ownership, hprocess, hthr, hmemory]
  refine ends_onOps_bind (fun reason state => ⟨?_, ?_⟩) fun configured state =>
    ends_modify.mpr ⟨⟨?_, ?_⟩, res, hres⟩
  · exact tracks.noted rfl (allows none) rfl
  · constructor <;> simp [noted, installed]
  · refine tracks.noted rfl (allows (some configured)) ?_
    simp [ownership, noted, after, push, hconfigured]
  · constructor <;> simp [noted, installed]

end

/-! ## Publishing -/

open Program

/-- Nothing has to be absent any more. -/
theorem before_seven : Before 7 core := by constructor <;> simp

variable (tracks : Tracks core)
include tracks
theorem installResources_leads (before : Before 6 core)
  (hres : core.resources = some res) : Leads core installResources Tracks := by
  have installed := before.installed (Nat.le_refl 6)
  refine ends_held_bind tracks fun process hprocess => ?_
  have allows : ∀ left result,
    core.ownership.Allows (.installResources process core.resources left result) := by
    simp [Allows, ownership, hprocess, hres]
  refine ends_lent_bind (fun reason state left => ?_) fun value state left => ends_modify.mpr ?_
  · refine tracks.noted rfl (allows left none) ?_
    rw [after, exchange_ownership installed hres]
    simp [ownership, installed]
  · refine tracks.noted rfl (allows left (some value)) ?_
    rw [after, exchange_ownership installed hres]
    simp [ownership, hprocess]

theorem beginPublication_leads : Leads core beginPublication Tracks := by
  unfold Leads beginPublication
  rw [ends_get_bind]
  cases hpublication : core.publication with
  | some publication =>
    simp only [Option.isSome_some, if_true]
    exact ends_throw.mpr tracks
  | none =>
    simp only [Option.isSome_none, Bool.false_eq_true, if_false]
    refine ends_onOps_bind (fun reason state => ?_) fun publication state => ends_modify.mpr ?_
    · exact tracks.noted rfl hpublication rfl
    · exact tracks.noted rfl hpublication rfl

theorem publishProcess_leads : Leads core publishProcess Tracks := by
  refine ends_held_bind tracks fun process hprocess => ends_held_bind tracks
    fun configured hconfigured => ?_
  have allows : ∀ result, core.ownership.Allows (.publishProcess process configured result) := by
    simp [Allows, ownership, hprocess, hconfigured]
  exact ends_onOps (fun reason state => tracks.noted rfl (allows none) rfl)
    fun value state => tracks.noted rfl (allows (some value)) rfl

theorem publishTask_leads : Leads core publishTask Tracks := by
  refine ends_held_bind tracks fun task htask => ?_
  have allows : ∀ result, core.ownership.Allows (.publishTask task result) := by
    simp [Allows, ownership, htask]
  exact ends_onOps (fun reason state => tracks.noted rfl (allows none) rfl)
    fun value state => tracks.noted rfl (allows (some value)) rfl

theorem publishThread_leads : Leads core publishSchedulerThread Tracks := by
  refine ends_held_bind tracks fun thr hthr => ?_
  have allows : ∀ result, core.ownership.Allows (.publishSchedulerThread thr result) := by
    simp [Allows, ownership, hthr]
  exact ends_onOps (fun reason state => tracks.noted rfl (allows none) rfl)
    fun value state => tracks.noted rfl (allows (some value)) rfl

theorem completePublication_leads : Leads core completePublication Tracks := by
  refine ends_held_bind tracks fun process hprocess => ?_
  have allows : ∀ result, core.ownership.Allows (.completePublication process result) := by
    simp [Allows, ownership, hprocess]
  exact ends_onOps (fun reason state => tracks.noted rfl (allows none) rfl)
    fun value state => tracks.noted rfl (allows (some value)) rfl

end LinuxForkOwnershipCore
end Smros.Fork
