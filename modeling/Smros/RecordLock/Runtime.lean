import Mathlib.Logic.Function.Basic
import Smros.Lib.Runs
import Smros.RecordLock.Waiters
import Smros.SysError

/-!
# The record-lock runtime

Each kernel entry runs a few critical sections under one spin lock.  Between
two sections of a thread any other thread may run its own, so a step of the
machine is one section of one thread.  Answers of the task layer (`current_tid`,
`block_current`, `wake_blocked`) come from outside and may be anything.
-/

namespace Smros.RecordLock
open Lib Option LinuxRecordLockTable
variable {lockCapacity waiterCapacity : Nat}

inductive LinuxRecordLockRuntimeError where
  | conflict
  | capacity
  deriving DecidableEq

/-- What an entry point returns. -/
inductive Reply where
  | done
  | runtimeError (error : LinuxRecordLockRuntimeError)
  | sysError (error : SysError)
  | interrupted (success : Bool)
  | removed (count : Nat)
  deriving DecidableEq

structure LockRequest where
  fileId : Nat
  owner : Nat
  kind : LinuxRecordLockKind
  range : LinuxRecordLockRange
  deriving DecidableEq

/-- Where a thread stands between two critical sections. -/
inductive Phase where
  | idle (last : Option Reply)
  /-- The lock table has changed; `wake_ready` comes next. -/
  | scan (reply : Reply)
  /-- The identities that the loop of `wake_ready_tasks` has still to wake. -/
  | waking (identities : List (Nat × Nat)) (reply : Reply)
  /-- `wake_blocked` failed; the outcome of this identity is taken back. -/
  | discard (identity : Nat × Nat) (rest : List (Nat × Nat)) (reply : Reply)
  /-- Head of the loop of `set_blocking`. -/
  | attempt (request : LockRequest)
  | published (request : LockRequest) (identity : Nat × Nat)
  | sleeping (request : LockRequest) (identity : Nat × Nat)
  | withdraw (identity : Nat × Nat)
  | interrupting (identity : Nat × Nat)
  | discardInterrupt (identity : Nat × Nat)
  deriving DecidableEq

/-- Calls of the entry points, and what the task layer answers on the way. -/
inductive Event where
  | setNonblocking (fileId owner : Nat) (kind : Option LinuxRecordLockKind)
      (range : LinuxRecordLockRange)
  | setBlocking (cpu : Nat) (request : LockRequest)
  | releaseOwnerFile (owner fileId : Nat)
  | releaseOwner (owner : Nat)
  | interruptTask (identity : Nat × Nat)
  | removeTaskWaiters (identity : Nat × Nat)
  | reset
  | current (identity : Except SysError (Nat × Nat))
  | blockCurrent (task : Option (Nat × Nat))
  | wakeBlocked (success : Bool)
  | proceed

/-! ## Critical sections -/

abbrev RuntimeState (lockCapacity waiterCapacity : Nat) :=
  LinuxRecordLockState lockCapacity waiterCapacity

variable (state : RuntimeState lockCapacity waiterCapacity)
/-- The locked section of `set_nonblocking`; only a success goes on to the scan. -/
def setNonblocking (fileId owner : Nat) (kind : Option LinuxRecordLockKind)
  (range : LinuxRecordLockRange) : RuntimeState lockCapacity waiterCapacity × Phase :=
  match kind with
  | some kind =>
    if (state.locks.firstConflict fileId owner kind range).isSome then
      (state, .idle (some (.runtimeError .conflict)))
    else
      match state.locks.set fileId owner kind range with
      | .ok locks => ({ state with locks := locks }, .scan .done)
      | .error _ => (state, .idle (some (.runtimeError .capacity)))
  | none =>
    match state.locks.unlock fileId owner range with
    | .ok locks => ({ state with locks := locks }, .scan .done)
    | .error _ => (state, .idle (some (.runtimeError .capacity)))

/-- The locked section at the head of the `set_blocking` loop. -/
def setBlockingAttempt (request : LockRequest) (identity : Nat × Nat) :
  RuntimeState lockCapacity waiterCapacity × Phase :=
  if (state.locks.firstConflict request.fileId request.owner request.kind request.range).isNone then
    match state.locks.set request.fileId request.owner request.kind request.range with
    | .ok locks => ({ state with locks := locks }, .scan .done)
    | .error _ => (state, .idle (some (.sysError .enolck)))
  else
    match state.push (.new request.fileId request.owner request.kind request.range
        identity.1 identity.2) with
    | .ok pushed => (pushed, .published request identity)
    | .error _ => (state, .idle (some (.sysError .enolck)))

/-- The locked section after `schedule` returns to the sleeper. -/
def setBlockingResume (request : LockRequest) (identity : Nat × Nat) :
  RuntimeState lockCapacity waiterCapacity × Phase :=
  match state.takeOutcome identity with
  | (taken, some .woken) => (taken, .attempt request)
  | (taken, some .interrupted) => (taken, .idle (some (.sysError .eintr)))
  | (taken, some .waiting) => (taken, .sleeping request identity)
  | (taken, none) => (taken, .withdraw identity)

/-- One step of one thread; an event that the phase does not expect does nothing. -/
def advance : Phase → Event → RuntimeState lockCapacity waiterCapacity × Phase
  | .idle _, .setNonblocking fileId owner kind range => setNonblocking state fileId owner kind range
  | .idle _, .setBlocking cpu request =>
    if cpu ≠ 0 then (state, .idle (some (.sysError .einval))) else (state, .attempt request)
  | .attempt _, .current (.error error) => (state, .idle (some (.sysError error)))
  | .attempt request, .current (.ok identity) => setBlockingAttempt state request identity
  | .published request identity, .blockCurrent task =>
    if task = some identity then (state, .sleeping request identity)
    else (state, .withdraw identity)
  | .sleeping request identity, .proceed => setBlockingResume state request identity
  | .withdraw identity, .proceed =>
    ((state.removeTask identity).1, .idle (some (.sysError .eagain)))
  | .idle _, .releaseOwnerFile owner fileId =>
    ({ state with locks := state.locks.releaseOwnerFile owner fileId }, .scan .done)
  | .idle _, .releaseOwner owner =>
    ({ state with locks := state.locks.releaseOwner owner }, .scan .done)
  | .scan reply, .proceed => (state.wakeReady.1, .waking state.wakeReady.2 reply)
  | .waking [] reply, .proceed => (state, .idle (some reply))
  | .waking (identity :: rest) reply, .wakeBlocked success =>
    if success then (state, .waking rest reply) else (state, .discard identity rest reply)
  | .discard identity rest reply, .proceed => ((state.takeOutcome identity).1, .waking rest reply)
  | .idle _, .interruptTask identity =>
    match state.interrupt identity with
    | (marked, true) => (marked, .interrupting identity)
    | (marked, false) => (marked, .idle (some (.interrupted false)))
  | .interrupting identity, .wakeBlocked success =>
    if success then (state, .idle (some (.interrupted true)))
    else (state, .discardInterrupt identity)
  | .discardInterrupt identity, .proceed =>
    ((state.takeOutcome identity).1, .idle (some (.interrupted false)))
  | .idle _, .removeTaskWaiters identity =>
    ((state.removeTask identity).1, .idle (some (.removed (state.removeTask identity).2)))
  | .idle _, .reset => (state.reset, .idle (some .done))
  | phase, _ => (state, phase)

/-- The shared state and the phase of every thread. -/
structure Config (lockCapacity waiterCapacity : Nat) where
  state : RuntimeState lockCapacity waiterCapacity
  phase : Nat → Phase

namespace Config
def new (lockCapacity waiterCapacity : Nat) : Config lockCapacity waiterCapacity :=
  ⟨.new lockCapacity waiterCapacity, fun _ => .idle none⟩

def step (config : Config lockCapacity waiterCapacity) (label : Nat × Event) :
  Config lockCapacity waiterCapacity :=
  let next := advance config.state (config.phase label.1) label.2
  ⟨next.1, Function.update config.phase label.1 next.2⟩

end Config

open Config (step new)

/-! ## What one step can do -/

/-- The thread has changed the lock table and not yet rescanned the waiters. -/
def Phase.ScanPending (phase : Phase) : Prop := ∃ reply, phase = .scan reply

/-- The effect of one step on the shared state, guards included. -/
inductive Effect (state : RuntimeState lockCapacity waiterCapacity) (phase : Phase) :
  RuntimeState lockCapacity waiterCapacity → Phase → Prop where
  | locked {fileId owner : Nat} {kind : LinuxRecordLockKind} {range : LinuxRecordLockRange}
      {locks : LinuxRecordLockTable lockCapacity}
      (hfree : (state.locks.firstConflict fileId owner kind range).isSome = false)
      (hset : state.locks.set fileId owner kind range = .ok locks) :
      Effect state phase { state with locks := locks } (.scan .done)
  | unlocked {fileId owner : Nat} {range : LinuxRecordLockRange}
      {locks : LinuxRecordLockTable lockCapacity}
      (hunlock : state.locks.unlock fileId owner range = .ok locks) :
      Effect state phase { state with locks := locks } (.scan .done)
  | releasedFile (owner fileId : Nat) :
      Effect state phase { state with locks := state.locks.releaseOwnerFile owner fileId }
        (.scan .done)
  | released (owner : Nat) :
      Effect state phase { state with locks := state.locks.releaseOwner owner } (.scan .done)
  | scanned (reply : Reply) (hphase : phase = .scan reply) :
      Effect state phase state.wakeReady.1 (.waking state.wakeReady.2 reply)
  | waitersOnly {next : RuntimeState lockCapacity waiterCapacity} {after : Phase}
      (hphase : phase.ScanPending → after.ScanPending)
      (hlocks : next.locks = state.locks)
      (hwaits : ∀ waiter, next.Waits waiter → state.Waits waiter ∨ state.Blocked waiter) :
      Effect state phase next after
  | cleared : Effect state phase state.reset (.idle (some .done))

namespace Effect
variable {state} {phase after : Phase}
/-- A step that leaves the shared state alone. -/
theorem unchanged (hphase : phase.ScanPending → after.ScanPending) :
  Effect state phase state after :=
  .waitersOnly hphase rfl fun _ waits => .inl waits

variable (hphase : ∀ reply, phase ≠ .scan reply)
include hphase
theorem not_scanPending : phase.ScanPending → after.ScanPending :=
  fun ⟨reply, scan⟩ => absurd scan (hphase reply)

theorem of_takeOutcome (ident) : Effect state phase (state.takeOutcome ident).1 after :=
  .waitersOnly (not_scanPending hphase) (state.takeOutcome_locks ident)
    fun _ waits => .inl waits.of_takeOutcome

theorem of_removeTask (ident) : Effect state phase (state.removeTask ident).1 after :=
  .waitersOnly (not_scanPending hphase) rfl fun _ waits => .inl waits.of_removeTask

theorem of_setNonblocking (fid owner kind range) :
  Effect state phase (setNonblocking state fid owner kind range).1
    (setNonblocking state fid owner kind range).2 := by
  cases kind with
  | some kind =>
    unfold setNonblocking
    dsimp only
    split
    · exact unchanged (not_scanPending hphase)
    split
    · exact .locked (Bool.not_eq_true _ ▸ ‹¬ _ = true›) ‹_›
    · exact unchanged (not_scanPending hphase)
  | none =>
    unfold setNonblocking
    dsimp only
    split
    · exact .unlocked ‹_›
    · exact unchanged (not_scanPending hphase)

theorem of_setBlockingAttempt (request ident) :
  Effect state phase (setBlockingAttempt state request ident).1
    (setBlockingAttempt state request ident).2 := by
  unfold setBlockingAttempt
  split
  · rename_i free
    rw [← not_isSome, Bool.not_eq_eq_eq_not, Bool.not_true] at free
    split
    · exact .locked free ‹_›
    · exact unchanged (not_scanPending hphase)
  rename_i conflict
  split
  · rename_i pushed push
    obtain ⟨locks, waits⟩ := LinuxRecordLockState.push_ok push
    refine .waitersOnly (not_scanPending hphase) locks fun waiter hwaiter => ?_
    rcases waits waiter hwaiter with hold | rfl
    · exact .inl hold
    · -- the published request is the one that was just found in conflict
      right
      simpa [LinuxRecordLockState.Blocked, LinuxRecordLockWaiter.new,
        ← isSome_iff_ne_none] using conflict
  · exact unchanged (not_scanPending hphase)

theorem of_setBlockingResume (request ident) :
  Effect state phase (setBlockingResume state request ident).1
    (setBlockingResume state request ident).2 := by
  have htaken {after : Phase} : Effect state phase (state.takeOutcome ident).1 after :=
    of_takeOutcome hphase ident
  unfold setBlockingResume
  cases take : state.takeOutcome ident with
  | mk taken outcome =>
    rw [take] at htaken
    rcases outcome with _ | _ | _ | _ <;> exact htaken

end Effect

open Effect (not_scanPending)

/-- Every step has one of the listed effects. -/
theorem advance_effect (state : RuntimeState lockCapacity waiterCapacity) (phase : Phase)
  (event : Event) :
  Effect state phase (advance state phase event).1 (advance state phase event).2 := by
  unfold advance
  split
  · exact .of_setNonblocking (by simp) _ _ _ _
  · split <;> exact .unchanged (not_scanPending (by simp))
  · exact .unchanged (not_scanPending (by simp))
  · exact .of_setBlockingAttempt (by simp) _ _
  · split <;> exact .unchanged (not_scanPending (by simp))
  · exact .of_setBlockingResume (by simp) _ _
  · exact .of_removeTask (by simp) _
  · exact .releasedFile _ _
  · exact .released _
  · exact .scanned _ rfl
  · exact .unchanged (not_scanPending (by simp))
  · split <;> exact .unchanged (not_scanPending (by simp))
  · exact .of_takeOutcome (by simp) _
  · rename_i last ident
    have hmarked {after : Phase} : Effect state (.idle last) (state.interrupt ident).1 after :=
      .waitersOnly (not_scanPending (by simp)) (state.interrupt_locks ident)
        fun _ waits => .inl waits.of_interrupt
    cases hinterrupt : state.interrupt ident with
    | mk marked success =>
      rw [hinterrupt] at hmarked
      cases success <;> exact hmarked
  · split <;> exact .unchanged (not_scanPending (by simp))
  · exact .of_takeOutcome (by simp) _
  · exact .of_removeTask (by simp) _
  · exact .cleared
  · exact .unchanged id

/-! ## Mutual exclusion -/

/-- The table is a byte map in which two owners share only read-locked bytes. -/
def ExclusiveTable (table : LinuxRecordLockTable lockCapacity) : Prop :=
  ∃ locks : ByteLocks, table.Represents locks ∧ locks.Exclusive

theorem exclusiveTable_new : ExclusiveTable (.new lockCapacity) := by
  refine ⟨_, new_represents, ?_⟩
  intro file byte left right leftKind rightKind differ hleft
  cases hleft

variable {state} {next : RuntimeState lockCapacity waiterCapacity} {phase after : Phase}
theorem Effect.exclusive (effect : Effect state phase next after)
  (exclusive : ExclusiveTable state.locks) : ExclusiveTable next.locks := by
  obtain ⟨locks, hrep, hlocks⟩ := exclusive
  cases effect with
  | locked free hset =>
    refine ⟨_, set_represents hrep hset, hlocks.set ?_⟩
    rw [← firstConflict_isSome_iff hrep, free]
    exact Bool.false_ne_true
  | unlocked unlock =>
    refine ⟨_, unlock_represents hrep unlock, hlocks.of_submap ?_⟩
    intro file older byte kind held
    exact (ite_none_left_eq_some.mp held).2
  | releasedFile owner fid =>
    refine ⟨_, releaseOwnerFile_represents hrep owner fid, hlocks.of_submap ?_⟩
    intro file older byte kind held
    exact (ite_none_left_eq_some.mp held).2
  | released owner =>
    refine ⟨_, releaseOwner_represents hrep owner, hlocks.of_submap ?_⟩
    intro file older byte kind held
    exact (ite_none_left_eq_some.mp held).2
  | scanned reply hphase => exact ⟨locks, hrep, hlocks⟩
  | waitersOnly hphase same waits => exact same ▸ ⟨locks, hrep, hlocks⟩
  | cleared => exact exclusiveTable_new

variable (config : Config lockCapacity waiterCapacity)
/-- The shared table of the configuration is exclusive. -/
def Config.Exclusive : Prop := ExclusiveTable config.state.locks

theorem Config.step_exclusive (label : Nat × Event) (exclusive : config.Exclusive) :
  (config.step label).Exclusive :=
  (advance_effect config.state (config.phase label.1) label.2).exclusive exclusive

theorem exclusive_run (lockCapacity waiterCapacity labels) :
  (run step (new lockCapacity waiterCapacity) labels).Exclusive :=
  run_invariant Config.step_exclusive
    (show (new lockCapacity waiterCapacity).Exclusive from exclusiveTable_new) labels

/--
In every interleaving of the runtime's sections, two different owners hold the
same byte of a file only when both hold it with a read lock.
-/
theorem record_locks_mutually_exclusive (labels : List (Nat × Event))
  (file byte left right : Nat) (leftKind rightKind : LinuxRecordLockKind) (hdiffer : left ≠ right)
  (hleft : Holds (run step (new lockCapacity waiterCapacity)
    labels).state.locks.contents file left byte leftKind)
  (hright : Holds (run step (new lockCapacity waiterCapacity)
    labels).state.locks.contents file right byte rightKind) :
  leftKind = .read ∧ rightKind = .read := by
  obtain ⟨locks, hrep, hexclusive⟩ := exclusive_run lockCapacity waiterCapacity labels
  exact hexclusive file byte left right leftKind rightKind hdiffer
    ((hrep _ _ _ _).mp hleft) ((hrep _ _ _ _).mp hright)

/-- Owners 1 and 2 both read-lock the first bytes of file 5 and share byte 3. -/
def sharedReadRun : List (Nat × Event) :=
  [(0, .setNonblocking 5 1 (some .read) ⟨0, 8, by decide, by decide⟩),
    (1, .setNonblocking 5 2 (some .read) ⟨2, 6, by decide, by decide⟩),
    (0, .proceed), (1, .proceed)]

theorem record_locks_mutually_exclusive_shared_read :
  Holds (run step (new 4 2) sharedReadRun).state.locks.contents 5 1 3 .read ∧
  Holds (run step (new 4 2) sharedReadRun).state.locks.contents 5 2 3 .read ∧
  LinuxRecordLockKind.read = .read ∧ LinuxRecordLockKind.read = .read := by
  have hfirst : Holds (run step (new 4 2) sharedReadRun).state.locks.contents 5 1 3 .read :=
    ⟨⟨5, 1, .read, ⟨0, 8, by decide, by decide⟩⟩, by decide, rfl, rfl, rfl, by decide⟩
  have hsnd : Holds (run step (new 4 2) sharedReadRun).state.locks.contents 5 2 3 .read :=
    ⟨⟨5, 2, .read, ⟨2, 6, by decide, by decide⟩⟩, by decide, rfl, rfl, rfl, by decide⟩
  exact ⟨hfirst, hsnd,
    record_locks_mutually_exclusive sharedReadRun 5 3 1 2 .read .read (by decide) hfirst hsnd⟩

/-! ## No lost wakeup -/

/-- Either some thread still owes a scan, or every waiter is blocked. -/
def NoneForgotten : Prop :=
  (∃ thread, (config.phase thread).ScanPending) ∨
    ∀ waiter, config.state.Waits waiter → config.state.Blocked waiter

theorem Config.step_noneForgotten (label : Nat × Event) (before : NoneForgotten config) :
  NoneForgotten (config.step label) := by
  obtain ⟨thr, event⟩ := label
  have hown : (config.step (thr, event)).phase thr =
    (advance config.state (config.phase thr) event).2 :=
    Function.update_self ..
  have others : ∀ other, other ≠ thr →
    (config.step (thr, event)).phase other = config.phase other :=
    fun other hother => Function.update_of_ne hother ..
  have hstate : (config.step (thr, event)).state =
    (advance config.state (config.phase thr) event).1 := rfl
  generalize (config.step (thr, event)) = next at *
  obtain ⟨state, phases⟩ := next
  dsimp only at hown others hstate
  have effect := advance_effect config.state (config.phase thr) event
  rw [← hown, ← hstate] at effect
  generalize hafter : phases thr = after at effect
  generalize hphase : config.phase thr = phase at effect
  cases effect with
  | locked free hset => exact .inl ⟨thr, _, hafter⟩
  | unlocked unlock => exact .inl ⟨thr, _, hafter⟩
  | releasedFile owner fid => exact .inl ⟨thr, _, hafter⟩
  | released owner => exact .inl ⟨thr, _, hafter⟩
  | scanned reply scan => exact .inr fun waiter waits => waits.blocked_of_wakeReady
  | waitersOnly keep locks waits =>
    rcases before with ⟨owing, howing⟩ | blocked
    · by_cases same : owing = thr
      · subst same
        rw [hphase] at howing
        refine .inl ⟨owing, ?_⟩
        change (phases owing).ScanPending
        rw [hafter]
        exact keep howing
      · refine .inl ⟨owing, ?_⟩
        change (phases owing).ScanPending
        rwa [others owing same]
    · right
      intro waiter hwaiter
      unfold LinuxRecordLockState.Blocked at *
      rw [locks]
      exact (waits waiter hwaiter).elim (blocked waiter) id
  | cleared =>
    right
    intro waiter waits
    exact absurd waits.1 (by simp [LinuxRecordLockState.reset, LinuxRecordLockState.new])

theorem noneForgotten_run (labels) :
  NoneForgotten (run .step (.new lockCapacity waiterCapacity) labels) := by
  refine run_invariant Config.step_noneForgotten ?_ labels
  right
  intro waiter waits
  exact absurd waits.1 (by simp [Config.new, LinuxRecordLockState.new])

/--
No wakeup is lost in any interleaving.  Once no thread stands between a change
of the table and its scan, every published waiter contends with a lock that
another owner holds; and the scan of any thread marks exactly the waiters that
nothing blocks, hands their identities to the waking loop, and leaves only
blocked ones waiting.
-/
theorem record_lock_wakeups_complete (lockCapacity waiterCapacity : Nat)
  (labels : List (Nat × Event)) :
  let config := run step (new lockCapacity waiterCapacity) labels
  ((∀ thread, ¬ (config.phase thread).ScanPending) → ∀ waiter, config.state.Waits waiter →
      config.state.locks.byteLocks.Conflicts waiter.fileId waiter.owner waiter.kind waiter.range) ∧
  ∀ thread reply, config.phase thread = .scan reply → ∃ identities,
      (config.step (thread, .proceed)).phase thread = .waking identities reply ∧
      identities.Perm ((grantables config.state.locks config.state.waiters).map
        LinuxRecordLockWaiter.identity) ∧
      (config.step (thread, .proceed)).state.waiters =
        config.state.waiters.map (Option.map (wakeIfGrantable config.state.locks)) ∧
      ∀ waiter, (config.step (thread, .proceed)).state.Waits waiter →
        config.state.locks.byteLocks.Conflicts waiter.fileId waiter.owner waiter.kind
          waiter.range := by
  intro config
  obtain ⟨locks, hrep, -⟩ := exclusive_run lockCapacity waiterCapacity labels
  obtain rfl := hrep.eq_byteLocks
  have hconflicts : ∀ waiter, config.state.Blocked waiter →
      config.state.locks.byteLocks.Conflicts waiter.fileId waiter.owner waiter.kind waiter.range :=
    fun waiter hblocked => (LinuxRecordLockTable.firstConflict_isSome_iff hrep ..).mp hblocked
  constructor
  · intro hquiet waiter hwaits
    rcases noneForgotten_run labels with ⟨thread, hpend⟩ | hblocked
    · exact absurd hpend (hquiet thread)
    · exact hconflicts waiter (hblocked waiter hwaits)
  intro thread reply hscan
  obtain ⟨hlocks, hwaiters, hreported⟩ := config.state.wakeReady_spec
  have hadvance : advance config.state (config.phase thread) .proceed =
      (config.state.wakeReady.1, .waking config.state.wakeReady.2 reply) := by
    rw [hscan]
    rfl
  have hphase : (config.step (thread, .proceed)).phase thread =
      .waking config.state.wakeReady.2 reply := by
    simp [step, hadvance]
  have hstate : (config.step (thread, .proceed)).state = config.state.wakeReady.1 := by
    simp [step, hadvance]
  refine ⟨_, hphase, hreported, hstate ▸ hwaiters, fun waiter hwaits => ?_⟩
  rw [hstate] at hwaits
  exact hconflicts waiter hwaits.blocked_of_wakeReady

/-- Owner 1 write-locks file 5, owner 2 sleeps on it, owner 1 downgrades. -/
def downgradeRun : List (Nat × Event) :=
  [(0, .setNonblocking 5 1 (some .write) ⟨0, 8, by decide, by decide⟩),
    (0, .proceed), (0, .proceed), (1, .setBlocking 0 ⟨5, 2, .read, ⟨2, 6, by decide, by decide⟩⟩),
    (1, .current (.ok (20, 3))), (1, .blockCurrent (some (20, 3))),
    (0, .setNonblocking 5 1 (some .read) ⟨0, 8, by decide, by decide⟩)]

theorem record_lock_wakeups_complete_downgrade :
  let config := run step (new 4 2) downgradeRun
  config.phase 0 = .scan .done ∧
    ∃ identities, (config.step (0, .proceed)).phase 0 = .waking identities .done ∧
      identities.Perm [(20, 3)] := by
  refine ⟨rfl, ?_⟩
  obtain ⟨identities, hphase, hreported, -⟩ :=
    (record_lock_wakeups_complete 4 2 downgradeRun).2 0 .done rfl
  exact ⟨identities, hphase, hreported⟩

end Smros.RecordLock
