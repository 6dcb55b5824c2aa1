import Smros.Fork.Ownership

/-!
# The record does not change the transaction

Without the record, a transaction on recorded operations is the transaction on the
operations themselves: it gives the same answer and leaves the same state.
-/

namespace Smros.Fork
open Lib Program LinuxForkOwnershipCore
variable {O : LinuxForkOwnershipOps} {Value State Error Call Lent : Type}
theorem record_forgets (program : Program State Error Value) (call : Option Value → Call) :
  Forgets Prod.fst (record program call) program := by
  refine .of_eq fun ⟨state, calls⟩ => ?_
  unfold record
  dsimp only
  cases program state with
  | ok value next => rfl
  | error reason next => rfl

theorem recordLent_forgets (program : Program (State × Lent) Error Value)
  (call : Lent → Lent → Option Value → Call) :
  Forgets (Prod.map Prod.fst id) (recordLent program call) program := by
  refine .of_eq fun ⟨⟨state, calls⟩, lent⟩ => ?_
  unfold recordLent
  dsimp only [Prod.map, id]
  cases program (state, lent) with
  | ok value result => rfl
  | error reason result => rfl

namespace LinuxForkOwnershipCore
/-- The core without the record. -/
def plain (core : LinuxForkOwnershipCore (recorded O)) : LinuxForkOwnershipCore O where
  ops := core.ops.1
  schedulerThread := core.schedulerThread
  parent := core.parent
  task := core.task
  process := core.process
  resources := core.resources
  resourcesInstalled := core.resourcesInstalled
  memory := core.memory
  configured := core.configured
  publication := core.publication

theorem held_forgets {field : LinuxForkOwnershipCore (recorded O) → Option Value}
  {plainField : LinuxForkOwnershipCore O → Option Value}
  (hfield : ∀ core, plainField core.plain = field core) :
  Forgets plain (held field) (held plainField) := by
  refine .get_bind fun core => ?_
  rw [hfield core]
  exact .orThrow _ _

theorem onOps_forgets (prog : Program O.State O.Error Value) (call : Option Value → ForkCall O) :
  Forgets plain (onOps (record prog call) :
    Program (LinuxForkOwnershipCore (recorded O)) O.Error Value)
    (onOps prog) :=
  (record_forgets prog call).zoom (fun _ => rfl) fun _ _ => rfl

theorem acquireThread_forgets :
  Forgets plain (acquireSchedulerThread (O := recorded O)) acquireSchedulerThread :=
  (onOps_forgets _ _).bind fun _ => .modify fun _ => rfl

theorem acquireTask_forgets : Forgets plain (acquireTask (O := recorded O)) acquireTask :=
  .bind (held_forgets fun _ => rfl) fun _ => (onOps_forgets _ _).bind fun _ => .modify fun _ => rfl

theorem acquireProcess_forgets : Forgets plain (acquireProcess (O := recorded O)) acquireProcess :=
  .bind (held_forgets fun _ => rfl) fun _ => .bind (held_forgets fun _ => rfl) fun _ =>
    .bind (held_forgets fun _ => rfl) fun _ => (onOps_forgets _ _).bind fun _ =>
      .modify fun _ => rfl

theorem acquireResources_forgets :
  Forgets plain (acquireResources (O := recorded O)) acquireResources :=
  .bind (held_forgets fun _ => rfl) fun _ => (onOps_forgets _ _).bind fun _ => .modify fun _ => rfl

theorem acquireMemory_forgets : Forgets plain (acquireMemory (O := recorded O)) acquireMemory :=
  .bind (held_forgets fun _ => rfl) fun _ => .bind (held_forgets fun _ => rfl) fun _ =>
    .bind (held_forgets fun _ => rfl) fun _ =>
      .bind (.zoom (recordLent_forgets _ _) (fun _ => rfl) fun _ _ => rfl) fun _ =>
        .modify fun _ => rfl

theorem configureChild_forgets : Forgets plain (configureChild (O := recorded O)) configureChild :=
  .bind (held_forgets fun _ => rfl) fun _ => .bind (held_forgets fun _ => rfl) fun _ =>
    .bind (held_forgets fun _ => rfl) fun _ => (onOps_forgets _ _).bind fun _ =>
      .modify fun _ => rfl

theorem installResources_forgets :
  Forgets plain (installResources (O := recorded O)) installResources :=
  .bind (held_forgets fun _ => rfl) fun _ =>
    .bind (.zoom (recordLent_forgets _ _) (fun _ => rfl) fun _ _ => rfl) fun _ =>
      .modify fun _ => rfl

theorem beginPublication_forgets :
  Forgets plain (beginPublication (O := recorded O)) beginPublication := by
  refine .get_bind fun core => ?_
  change Forgets plain _ (if core.publication.isSome then _ else _)
  split
  · exact .throw _
  · exact (onOps_forgets _ _).bind fun _ => .modify fun _ => rfl

theorem publishProcess_forgets : Forgets plain (publishProcess (O := recorded O)) publishProcess :=
  .bind (held_forgets fun _ => rfl) fun _ => .bind (held_forgets fun _ => rfl) fun _ =>
    onOps_forgets _ _

theorem giveBack_plain {call : Value → ForkCall O} {release : Value → O.State → O.State}
  (found core) :
  (giveBack found (fun value => note (release value) (call value)) core).plain =
    giveBack found release core.plain := by
  cases found with
  | none => rfl
  | some value => rfl

theorem restore_plain (core : LinuxForkOwnershipCore (recorded O)) :
  core.restore.plain = core.plain.restore :=
  giveBack_plain _ _

theorem finish_forgets : Forgets plain (finish (O := recorded O)) finish :=
  .bind (held_forgets fun _ => rfl) fun _ => .bind (held_forgets fun _ => rfl) fun _ =>
    (onOps_forgets _ _).bind fun _ => (Forgets.modify fun core => (restore_plain core).symm).bind
      fun _ => .pure _

theorem rollback_plain (core : LinuxForkOwnershipCore (recorded O)) (stage) :
  (core.rollback stage).plain = core.plain.rollback stage := by
  cases stage with
  | configured => exact giveBack_plain _ _
  | memory => exact giveBack_plain _ _
  | resources =>
    refine (giveBack_plain _ _).trans ?_
    have uninstalled : (if core.resourcesInstalled then
      giveBack core.process (recorded O).rollbackInstalledResources
        { core with resourcesInstalled := false }
      else core).plain =
      if core.plain.resourcesInstalled then
        giveBack core.plain.process O.rollbackInstalledResources
          { core.plain with resourcesInstalled := false }
      else core.plain := by
      by_cases inst : core.resourcesInstalled = true
      · rw [if_pos inst, if_pos (show core.plain.resourcesInstalled = true from inst)]
        exact giveBack_plain _ _
      · rw [if_neg inst, if_neg (show ¬core.plain.resourcesInstalled = true from inst)]
    unfold rollback
    simp only [← uninstalled]
    rfl
  | process => exact giveBack_plain _ _
  | task => exact giveBack_plain _ _
  | schedulerThread => exact (restore_plain _).trans (congrArg restore (giveBack_plain _ _))

end LinuxForkOwnershipCore

namespace LinuxForkTransaction
/-- A transaction on recorded operations. -/
abbrev Recorded (O : LinuxForkOwnershipOps) : Type :=
  LinuxForkTransaction (LinuxForkOwnershipCore.backend (recorded O))

/-- The transaction without the record. -/
def plain (transaction : Recorded O) : LinuxForkTransaction (LinuxForkOwnershipCore.backend O) where
  backend := LinuxForkOwnershipCore.plain transaction.backend
  ledger := transaction.ledger
  committed := transaction.committed

theorem onBackend_forgets {operation plainOperation}
  (hoperation : Forgets .plain operation plainOperation) :
  Forgets plain (onBackend operation : Program (Recorded O) O.Error Value)
    (onBackend plainOperation) :=
  hoperation.zoom (fun _ => rfl) fun _ _ => rfl

theorem acquire_forgets {operation plainOperation} (stage)
  (hoperation : Forgets .plain operation plainOperation) :
  Forgets plain (acquire stage operation : Program (Recorded O) O.Error Unit)
    (acquire stage plainOperation) := by
  refine .get_bind fun transaction => ?_
  dsimp only [plain]
  cases transaction.ledger.acquire stage with
  | none => exact .throw _
  | some ledger => exact .bind (.modify fun _ => rfl) fun _ => onBackend_forgets hoperation

theorem failIf_forgets (shouldFail point) :
  Forgets plain (failIf shouldFail point : Program (Recorded O) O.Error Unit)
    (failIf shouldFail point) := by
  refine .get_bind fun transaction => ?_
  split
  · exact .throw _
  · exact .pure _

open LinuxForkOwnershipCore in
theorem body_forgets (shouldFail) :
  Forgets plain (body (LinuxForkOwnershipCore.backend (recorded O)) shouldFail)
    (body (LinuxForkOwnershipCore.backend O) shouldFail) := by
  refine .bind (acquire_forgets _ acquireThread_forgets) fun _ => ?_
  refine .bind (failIf_forgets _ _) fun _ => ?_
  refine .bind (acquire_forgets _ acquireTask_forgets) fun _ => ?_
  refine .bind (failIf_forgets _ _) fun _ => ?_
  refine .bind (acquire_forgets _ acquireProcess_forgets) fun _ => ?_
  refine .bind (failIf_forgets _ _) fun _ => ?_
  refine .bind (acquire_forgets _ acquireResources_forgets) fun _ => ?_
  refine .bind (acquire_forgets _ acquireMemory_forgets) fun _ => ?_
  refine .bind (failIf_forgets _ _) fun _ => ?_
  refine .bind (acquire_forgets _ configureChild_forgets) fun _ => ?_
  refine .bind (failIf_forgets _ _) fun _ => ?_
  refine .bind (onBackend_forgets installResources_forgets) fun _ => ?_
  refine .bind (onBackend_forgets beginPublication_forgets) fun _ => ?_
  refine .bind (onBackend_forgets publishProcess_forgets) fun _ => ?_
  refine .bind (failIf_forgets _ _) fun _ => ?_
  refine .bind (onBackend_forgets
    (.bind (held_forgets fun _ => rfl) fun _ => onOps_forgets _ _)) fun _ => ?_
  refine .bind (failIf_forgets _ _) fun _ => ?_
  refine .bind (onBackend_forgets
    (.bind (held_forgets fun _ => rfl) fun _ => onOps_forgets _ _)) fun _ => ?_
  refine .bind (failIf_forgets _ _) fun _ => ?_
  refine .bind (onBackend_forgets
    (.bind (held_forgets fun _ => rfl) fun _ => onOps_forgets _ _)) fun _ => ?_
  refine .bind (onBackend_forgets finish_forgets) fun _ => ?_
  exact .bind (.modify fun _ => rfl) fun _ => .pure _

theorem foldl_rollback_plain (stages : List LinuxForkAcquisition)
  (core : LinuxForkOwnershipCore (recorded O)) :
  (stages.foldl rollback core).plain = stages.foldl rollback core.plain := by
  induction stages generalizing core with
  | nil => rfl
  | cons stage rest ih => rw [List.foldl_cons, List.foldl_cons, ih, rollback_plain]

theorem drop_plain (transaction : Recorded O) :
  .plain transaction.drop = transaction.plain.drop := by
  unfold drop
  by_cases committed : transaction.committed = true
  · rw [if_pos committed, if_pos (show transaction.plain.committed = true from committed)]
    rfl
  · rw [if_neg committed, if_neg (show ¬transaction.plain.committed = true from committed)]
    exact foldl_rollback_plain _ _

end LinuxForkTransaction

open LinuxForkTransaction in
theorem runFork_plain (start shouldFail) :
  runLinuxForkTransaction (LinuxForkOwnershipCore.backend O) start.plain shouldFail =
    Prod.map id LinuxForkOwnershipCore.plain
      (runLinuxForkTransaction (LinuxForkOwnershipCore.backend (recorded O)) start shouldFail) := by
  unfold runLinuxForkTransaction
  cases hbody : body (backend (recorded O)) shouldFail (new _ start) with
  | ok output transaction =>
    rw [show body (LinuxForkOwnershipCore.backend O) shouldFail (new _ start.plain) = _ from
      (body_forgets shouldFail).ok hbody]
    exact congrArg (Prod.mk (Except.ok output)) (drop_plain transaction).symm
  | error reason transaction =>
    rw [show body (LinuxForkOwnershipCore.backend O) shouldFail (new _ start.plain) = _ from
      (body_forgets shouldFail).error hbody]
    exact congrArg (Prod.mk (Except.error reason)) (drop_plain transaction).symm

end Smros.Fork
