import Mathlib.Logic.Basic
import Smros.Fork.Stages
import Smros.Fork.Recording

/-!
# Leaving the transaction

A transaction that fails undoes the stages of its ledger; a stage that acquired nothing has
nothing to undo.  One that succeeds only restores the publication state.
-/

namespace Smros.Fork
open Lib List LinuxForkOwnershipCore
open LinuxForkAcquisition (order)
variable {O : LinuxForkOwnershipOps}
namespace LinuxForkOwnershipCore

/-! ## Giving back -/

variable {Value : Type}
/-- Giving something back only makes the call. -/
theorem giveBack_eq (core : LinuxForkOwnershipCore (recorded O)) (held : Option Value)
  (change : Value → O.State → O.State) (call : Value → ForkCall O) :
  ∃ state, giveBack (O := recorded O) held (fun value => note (change value) (call value)) core =
    { core with ops := (state, core.calls ++ held.toList.map call) } := by
  cases held with
  | none =>
    refine ⟨core.ops.1, ?_⟩
    simp [giveBack, calls]
  | some value => exact ⟨change value core.ops.1, rfl⟩

theorem restore_eq (core : LinuxForkOwnershipCore (recorded O)) : ∃ state, core.restore =
    { core with
      publication := none
      ops := (state, core.calls ++ core.publication.toList.map (@.restorePublication O)) } :=
  giveBack_eq { core with publication := none } core.publication O.restorePublication _

variable (core : LinuxForkOwnershipCore (recorded O))
theorem rollback_configured : ∃ state, core.rollback .configured = { core with
    configured := none
    ops := (state, core.calls ++ core.configured.toList.map (@.rollbackConfigured O)) } :=
  giveBack_eq { core with configured := none } core.configured O.rollbackConfigured _

theorem rollback_memory : ∃ state, core.rollback .memory = { core with
    memory := none
    ops := (state, core.calls ++ core.memory.toList.map (@.rollbackMemory O)) } :=
  giveBack_eq { core with memory := none } core.memory O.rollbackMemory _

theorem rollback_resources : ∃ state, core.rollback .resources = { core with
    resources := none
    resourcesInstalled := false
    ops := (state, core.calls ++ (if core.resourcesInstalled then
      core.process.toList.map (@.rollbackInstalledResources O) else []) ++
      core.resources.toList.map (@.rollbackReservedResources O)) } := by
  cases inst : core.resourcesInstalled with
  | true =>
    obtain ⟨mid, uninstalled⟩ := giveBack_eq { core with resourcesInstalled := false }
      core.process O.rollbackInstalledResources (@.rollbackInstalledResources O)
    simp only [rollback, inst, if_true]
    rw [uninstalled]
    exact giveBack_eq { core with
      resourcesInstalled := false
      resources := none
      ops := (mid, _) } core.resources O.rollbackReservedResources _
  | false =>
    simp only [rollback, inst, Bool.false_eq_true, if_false, append_nil]
    rw [← inst]
    exact giveBack_eq { core with resources := none } core.resources O.rollbackReservedResources _

theorem rollback_process : ∃ state, core.rollback .process = { core with
    process := none
    ops := (state, core.calls ++ core.process.toList.map (@.rollbackProcess O)) } :=
  giveBack_eq { core with process := none } core.process O.rollbackProcess _

theorem rollback_task : ∃ state, core.rollback .task = { core with
    task := none
    ops := (state, core.calls ++ core.task.toList.map (@.rollbackTask O)) } :=
  giveBack_eq { core with task := none } core.task O.rollbackTask _

theorem rollback_thread : ∃ state, core.rollback .schedulerThread = { core with
    schedulerThread := none
    publication := none
    ops := (state, core.calls ++ core.schedulerThread.toList.map (@.rollbackSchedulerThread O) ++
      core.publication.toList.map (@.restorePublication O)) } := by
  obtain ⟨mid, thr⟩ := giveBack_eq { core with schedulerThread := none }
    core.schedulerThread O.rollbackSchedulerThread (@.rollbackSchedulerThread O)
  simp only [rollback]
  rw [thr]
  exact restore_eq _

theorem map_release (make : Value → Holding O) (call : Value → ForkCall O)
  (hmake : ∀ value, (make value).release = call value) (held : Option Value) :
  (held.map make).toList.map Holding.release = held.toList.map call := by
  cases held with
  | none => rfl
  | some value => simp [hmake]

/-- Undoing all stages gives back what is held, the last acquisition first. -/
theorem calls_rollback_all : (order.reverse.foldl rollback core).calls =
    core.calls ++ core.ownership.undo := by
  change ((((((core.rollback .configured).rollback .memory).rollback .resources).rollback
    .process).rollback .task).rollback .schedulerThread).calls = _
  rw [(rollback_configured _).choose_spec, (rollback_memory _).choose_spec,
    (rollback_resources _).choose_spec, (rollback_process _).choose_spec,
    (rollback_task _).choose_spec, (rollback_thread _).choose_spec]
  simp only [Ownership.undo, ownership, map_append, apply_ite (map Holding.release), map_nil,
    map_release (@.configured O) (@.rollbackConfigured O) (fun _ => rfl), map_release (@.memory O)
    (@.rollbackMemory O) (fun _ => rfl), map_release (@.installed O)
    (@.rollbackInstalledResources O) (fun _ => rfl), map_release (@.resources O)
    (@.rollbackReservedResources O) (fun _ => rfl), map_release (@.process O) (@.rollbackProcess O)
    (fun _ => rfl), map_release (@.task O) (@.rollbackTask O) (fun _ => rfl),
    map_release (@.schedulerThread O) (@.rollbackSchedulerThread O) (fun _ => rfl)]
  simp only [calls, append_assoc]

variable {core}
/-- Nothing of the stage is held. -/
def Vacant (core : LinuxForkOwnershipCore (recorded O)) : LinuxForkAcquisition → Prop
  | .schedulerThread => core.schedulerThread = none ∧ core.publication = none
  | .task => core.task = none
  | .process => core.process = none
  | .resources => core.resources = none ∧ core.resourcesInstalled = false
  | .memory => core.memory = none
  | .configured => core.configured = none

variable {stage : LinuxForkAcquisition}
theorem rollback_vacant (vacant : Vacant core stage) : core.rollback stage = core := by
  obtain ⟨ops, schedulerThread, parent, task, proc, res, resourcesInstalled, memory,
    conf, publication⟩ := core
  cases stage with
  | schedulerThread =>
    obtain ⟨thr, hpublication⟩ := vacant
    cases thr
    cases hpublication
    rfl
  | task =>
    cases vacant
    rfl
  | process =>
    cases vacant
    rfl
  | resources =>
    obtain ⟨hres, inst⟩ := vacant
    cases hres
    cases inst
    rfl
  | memory =>
    cases vacant
    rfl
  | configured =>
    cases vacant
    rfl

theorem foldl_rollback_vacant {stages : List LinuxForkAcquisition}
  (vacant : ∀ stage ∈ stages, Vacant core stage) : stages.foldl rollback core = core := by
  induction stages with
  | nil => rfl
  | cons stage rest ih =>
    rw [foldl_cons, rollback_vacant (vacant stage mem_cons_self)]
    exact ih fun other hother => vacant other (mem_cons_of_mem _ hother)

theorem Before.vacant {stage} (before : Before (stage + 1) core) :
  ∀ acquisition ∈ order.drop (stage + 1), Vacant core acquisition := by
  obtain ⟨-, task, proc, res, inst, memory, conf⟩ := before
  rcases stage with _ | _ | _ | _ | _ | stage
  · simp [order, Vacant, task, proc, res, inst, memory, conf]
  · simp [order, Vacant, proc, res, inst, memory, conf]
  · simp [order, Vacant, res, inst, memory, conf]
  · simp [order, Vacant, memory, conf]
  · simp [order, Vacant, conf]
  · simp [order]

/-- The ledger names every stage that may hold something. -/
theorem calls_rollback_ledger {stage : Nat} (before : Before (stage + 1) core) :
  ((order.take (stage + 1)).reverse.foldl rollback core).calls =
    core.calls ++ core.ownership.undo := by
  have hsplit : order.reverse = (order.drop (stage + 1)).reverse ++
        (order.take (stage + 1)).reverse := by
    rw [← reverse_append, take_append_drop]
  have later : (order.drop (stage + 1)).reverse.foldl rollback core = core :=
    foldl_rollback_vacant fun acquisition hmem => before.vacant acquisition (mem_reverse.mp hmem)
  rw [← calls_rollback_all, hsplit, foldl_append, later]

/-- The transaction ended well: the publication state was restored, if it had been changed,
and nothing was given back. -/
def Completed (core : LinuxForkOwnershipCore (recorded O)) : Prop :=
  ∃ forward own, Ownership.empty.Reaches forward own ∧
    core.calls = forward ++ own.publication.toList.map (@ForkCall.restorePublication O)

theorem finish_ends {core : LinuxForkOwnershipCore (recorded O)} (tracks : Tracks core) :
  Program.Ends finish core (fun _ next => Completed next) (fun _ next => Tracks next) := by
  refine ends_held_bind tracks fun process hprocess => ends_held_bind tracks
    fun configured hconfigured => ?_
  have allows : ∀ result, core.ownership.Allows (.finish process configured result) := by
    simp [Ownership.Allows, ownership, hprocess, hconfigured]
  refine ends_onOps_bind (fun reason state => tracks.noted rfl (allows none) rfl)
    fun output state => ?_
  have finished : Tracks (core.noted state (.finish process configured (some output))) :=
    tracks.noted rfl (allows (some output)) rfl
  rw [Program.ends_modify_bind]
  refine Program.ends_pure.mpr ⟨_, _, finished, ?_⟩
  obtain ⟨last, restore⟩ := restore_eq (core.noted state (.finish process configured (some output)))
  rw [restore]
  rfl

end LinuxForkOwnershipCore

namespace LinuxForkTransaction
open Program

/-- The transaction is open, its ledger has the first stages, and its calls account for what
it holds. -/
structure At (stage : Nat) (transaction : Recorded O) : Prop where
  acquired : transaction.ledger.acquired = order.take stage
  uncommitted : transaction.committed = false
  tracks : LinuxForkOwnershipCore.Tracks transaction.backend
  before : LinuxForkOwnershipCore.Before stage transaction.backend

def Abandoned (transaction : Recorded O) : Prop := ∃ stage, At (stage + 1) transaction

variable {stage : Nat} {transaction : Recorded O}
  {operation : Program (LinuxForkOwnershipCore (recorded O)) O.Error Unit}
  {acquisition : LinuxForkAcquisition}
theorem acquire_ends {extra : LinuxForkOwnershipCore (recorded O) → Prop}
  (hat : At stage transaction) (hstage : order[stage]? = some acquisition)
  (hoperation : Ends operation transaction.backend
    (fun _ core => (core.Tracks ∧ core.Before (stage + 1)) ∧ extra core)
    (fun _ core => core.Tracks ∧ core.Before (stage + 1))) :
  Ends (acquire acquisition operation : Program (Recorded O) O.Error Unit) transaction
    (fun _ next => At (stage + 1) next ∧ extra next.backend) (fun _ next => Abandoned next) := by
  have length : transaction.ledger.acquired.length = stage := by
    obtain ⟨hlt, -⟩ := List.getElem?_eq_some_iff.mp hstage
    rw [hat.acquired, List.length_take]
    omega
  have ledger : transaction.ledger.acquire acquisition = some ⟨order.take (stage + 1)⟩ := by
    unfold LinuxForkAcquisitionLedger.acquire
    rw [length, if_pos hstage, hat.acquired, take_add_one, hstage]
    rfl
  unfold acquire
  rw [ends_get_bind]
  simp only [ledger]
  rw [ends_modify_bind]
  refine ends_zoom.mpr (hoperation.mono ?_ ?_)
  · rintro value core ⟨⟨tracks, before⟩, hextra⟩
    exact ⟨⟨rfl, hat.uncommitted, tracks, before⟩, hextra⟩
  · rintro reason core ⟨tracks, before⟩
    exact ⟨stage, rfl, hat.uncommitted, tracks, before⟩

theorem acquire_leads (hat : At stage transaction) (hstage : order[stage]? = some acquisition)
  (hoperation : transaction.backend.Leads operation
    fun core => core.Tracks ∧ core.Before (stage + 1)) :
  Ends (acquire acquisition operation : Program (Recorded O) O.Error Unit) transaction
    (fun _ next => At (stage + 1) next) (fun _ next => Abandoned next) := by
  have without : Ends operation transaction.backend
    (fun _ core => (core.Tracks ∧ core.Before (stage + 1)) ∧ True)
    (fun _ core => core.Tracks ∧ core.Before (stage + 1)) :=
    hoperation.mono (fun _ _ hcore => ⟨hcore, trivial⟩) fun _ _ hcore => hcore
  exact (acquire_ends hat hstage without).mono (fun _ _ hnext => hnext.1)
    fun _ _ abandoned => abandoned

theorem ends_failIf_bind {Value : Type} {shouldFail : LinuxForkFailurePoint → Bool}
  {point : LinuxForkFailurePoint} {next : Unit → Program (Recorded O) O.Error Value}
  {post : Value → Recorded O → Prop} (hat : At (stage + 1) transaction)
  (hnext : Ends (next ()) transaction post (fun _ after => Abandoned after)) :
  Ends ((failIf shouldFail point : Program (Recorded O) O.Error Unit) >>= next) transaction post
    (fun _ after => Abandoned after) := by
  have fail : Ends (failIf shouldFail point : Program (Recorded O) O.Error Unit) transaction
    (fun _ after => after = transaction) (fun _ after => Abandoned after) := by
    unfold failIf
    rw [ends_get_bind]
    split
    · exact ends_throw.mpr ⟨stage, hat⟩
    · exact ends_pure.mpr rfl
  refine fail.bind fun _ after same => ?_
  rw [same]
  exact hnext

theorem onBackend_ends (hat : At 6 transaction ∨ At 7 transaction)
  (hoperation : transaction.backend.Leads operation Tracks) :
  Ends (onBackend operation : Program (Recorded O) O.Error Unit) transaction
    (fun _ next => At 7 next) (fun _ next => Abandoned next) := by
  have ledger : transaction.ledger.acquired = order.take 7 ∧ transaction.committed = false := by
    rcases hat with hat | hat
    · exact ⟨hat.acquired, hat.uncommitted⟩
    · exact ⟨hat.acquired, hat.uncommitted⟩
  refine ends_zoom.mpr (hoperation.mono ?_ ?_)
  · exact fun value core tracks => ⟨ledger.1, ledger.2, tracks, before_seven⟩
  · exact fun reason core tracks => ⟨6, ledger.1, ledger.2, tracks, before_seven⟩

open LinuxForkOwnershipCore in
theorem body_ends (shouldFail start) :
  Ends (body (LinuxForkOwnershipCore.backend (recorded O)) shouldFail)
    (new (LinuxForkOwnershipCore.backend (recorded O)) (LinuxForkOwnershipCore.new (start, [])))
    (fun _ next => next.committed = true ∧ LinuxForkOwnershipCore.Completed next.backend)
    (fun _ next => Abandoned next) := by
  have hnew : At 0 (new (LinuxForkOwnershipCore.backend (recorded O)) (.new (start, []))) := by
    refine ⟨rfl, rfl, rfl, ?_⟩
    constructor <;> exact fun _ => rfl
  -- the six stages, in the order of the ledger
  refine (acquire_leads hnew rfl (acquireThread_leads hnew.tracks hnew.before)).bind
    fun _ withThread thr => ends_failIf_bind thr ?_
  refine (acquire_leads thr rfl (acquireTask_leads thr.tracks thr.before)).bind
    fun _ withTask task => ends_failIf_bind task ?_
  refine (acquire_leads task rfl (acquireProcess_leads task.tracks task.before)).bind
    fun _ withProcess proc => ends_failIf_bind proc ?_
  refine (acquire_ends proc rfl (acquireResources_ends proc.tracks proc.before)).bind
    fun _ withResources ⟨res, _⟩ => ?_
  refine (acquire_ends res rfl (acquireMemory_ends res.tracks res.before)).bind
    fun _ withMemory ⟨memory, _, reserved⟩ => ends_failIf_bind memory ?_
  refine (acquire_ends memory rfl (configureChild_ends memory.tracks memory.before reserved)).bind
    fun _ conf ⟨hconf, _, still⟩ => ends_failIf_bind hconf ?_
  -- publishing acquires nothing that the ledger knows of
  refine (onBackend_ends (.inl hconf) (installResources_leads hconf.tracks hconf.before still)).bind
    fun _ inst hinst => ?_
  refine (onBackend_ends (.inr hinst) (beginPublication_leads hinst.tracks)).bind
    fun _ begun hbegun => ?_
  refine (onBackend_ends (.inr hbegun) (publishProcess_leads hbegun.tracks)).bind
    fun _ publishing hpublishing => ends_failIf_bind hpublishing ?_
  refine (onBackend_ends (.inr hpublishing) (publishTask_leads hpublishing.tracks)).bind
    fun _ withChild child => ends_failIf_bind child ?_
  refine (onBackend_ends (.inr child) (publishThread_leads child.tracks)).bind
    fun _ runnable hrunnable => ends_failIf_bind hrunnable ?_
  refine (onBackend_ends (.inr hrunnable) (completePublication_leads hrunnable.tracks)).bind
    fun _ published hpublished => ?_
  have hfinish : Ends (onBackend finish : Program (Recorded O) O.Error O.Output) published
    (fun _ next => Completed next.backend) (fun _ next => Abandoned next) :=
    ends_zoom.mpr ((finish_ends hpublished.tracks).mono (fun _ _ completed => completed)
      fun _ core tracks => ⟨6, hpublished.acquired, hpublished.uncommitted, tracks, before_seven⟩)
  refine hfinish.bind fun output finished hfinished => ?_
  rw [ends_modify_bind]
  exact ends_pure.mpr ⟨rfl, hfinished⟩

theorem Abandoned.calls_drop {transaction : Recorded O} (abandoned : Abandoned transaction) :
  ∃ forward own, Ownership.empty.Reaches forward own ∧
    calls transaction.drop = forward ++ own.undo := by
  obtain ⟨stage, hat⟩ := abandoned
  refine ⟨_, _, hat.tracks, ?_⟩
  have ledger := calls_rollback_ledger hat.before
  unfold drop LinuxForkAcquisitionLedger.rollbackInto
  rw [hat.uncommitted, hat.acquired]
  exact ledger

end LinuxForkTransaction

/-- Whatever the operations do, the calls made are calls on what was handed out before, and
then nothing is given back after a success and everything, the last acquisition first, after
a failure; the publication state is restored once if publication was begun. -/
theorem runLinuxForkTransaction_gives_back_once (O : LinuxForkOwnershipOps) (start : O.State)
  (shouldFail : LinuxForkFailurePoint → Bool) :
  let run := runLinuxForkTransaction (LinuxForkOwnershipCore.backend (recorded O))
    (.new (start, [])) shouldFail
  runLinuxForkTransaction (LinuxForkOwnershipCore.backend O) (.new start) shouldFail =
      Prod.map id LinuxForkOwnershipCore.plain run ∧
    ∃ forward own, Ownership.empty.Reaches forward own ∧
      LinuxForkOwnershipCore.calls run.2 = forward ++
        match run.1 with
        | .ok _ => own.publication.toList.map (@ForkCall.restorePublication O)
        | .error _ => own.undo := by
  refine ⟨runFork_plain (.new (start, [])) shouldFail, ?_⟩
  have hends := LinuxForkTransaction.body_ends shouldFail start
  unfold runLinuxForkTransaction
  cases hbody : LinuxForkTransaction.body (LinuxForkOwnershipCore.backend (recorded O)) shouldFail
      (.new _ (.new (start, []))) with
  | ok output transaction =>
    obtain ⟨hcommitted, forward, own, hreaches, hcalls⟩ := hends.ok hbody
    refine ⟨forward, own, hreaches, ?_⟩
    rw [← hcalls]
    exact congrArg LinuxForkOwnershipCore.calls (if_pos hcommitted)
  | error reason transaction => exact (hends.error hbody).calls_drop

end Smros.Fork
