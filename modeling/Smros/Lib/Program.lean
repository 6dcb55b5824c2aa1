import Mathlib.Init

/-!
# Programs that keep their state when they fail

A program reads and writes a state and may stop with an error; the state it
leaves behind is kept either way, so undoing partial work is the program's own
business.  `Ends` states what holds after both kinds of ends.
-/

namespace Smros.Lib
/-- A state-passing computation whose failures keep the state reached. -/
abbrev Program (State Error Value : Type) := EStateM Error State Value

namespace Program
variable {State Error Value Result : Type}
/-- Fail with `error` on `none`. -/
def orThrow (error : Error) (value : Option Value) : Program State Error Value :=
  match value with
  | some value => pure value
  | none => throw error

variable (program : Program State Error Value)
/-- Run `cleanup` on the state a failure leaves, and fail the same way. -/
def onError (cleanup : State → State) : Program State Error Value :=
  fun state =>
    match program state with
    | .ok value next => .ok value next
    | .error error next => .error error (cleanup next)

/-- The state a program leaves, whether it succeeds or not. -/
def attempt (state : State) : State :=
  match program state with
  | .ok _ next => next
  | .error _ next => next

/-- Change the state that a run has led to. -/
def mapState (change : State → State) :
  EStateM.Result Error State Value → EStateM.Result Error State Value
  | .ok value next => .ok value (change next)
  | .error error next => .error error (change next)

variable {program} {change : State → State} {state : State}
/-- A program that commutes with a change of the state. -/
theorem attempt_mapState (commutes : program (change state) = mapState change (program state)) :
  attempt program (change state) = change (attempt program state) := by
  unfold attempt
  rw [commutes]
  cases program state with
  | ok value next => rfl
  | error error next => rfl

/-- Run a program on a part of the state. -/
def zoom {Part : Type} (view : State → Part) (update : State → Part → State)
  (program : Program Part Error Value) : Program State Error Value :=
  fun state =>
    match program (view state) with
    | .ok value part => .ok value (update state part)
    | .error error part => .error error (update state part)

/-- From `state`, a success ends in `post` and a failure in `fail`. -/
structure Ends (program : Program State Error Value) (state : State)
  (post : Value → State → Prop) (fail : Error → State → Prop) : Prop where
  ok : ∀ {value next}, program state = .ok value next → post value next
  error : ∀ {reason next}, program state = .error reason next → fail reason next

variable {middle other after : State} {fail : Error → State → Prop}
  {first left right : Program State Error Value} {next rest : Value → Program State Error Result}
  {post : Value → State → Prop} {reason error : Error} {value : Value}
theorem ends_of_ok {next} (hrun : program state = .ok value next) :
  Ends program state post fail ↔ post value next := by
  refine ⟨fun ends => ends.ok hrun, fun hpost => ⟨fun hok => ?_, fun error => ?_⟩⟩
  · cases hrun.symm.trans hok
    exact hpost
  · cases hrun.symm.trans error

theorem ends_of_error {next} (hrun : program state = .error reason next) :
  Ends program state post fail ↔ fail reason next := by
  refine ⟨fun ends => ends.error hrun, fun hfail => ⟨fun hok => ?_, fun error => ?_⟩⟩
  · cases hrun.symm.trans hok
  · cases hrun.symm.trans error
    exact hfail

variable {Part : Type}
theorem ends_congr (hrun : left state = right other) :
  Ends left state post fail ↔ Ends right other post fail :=
  ⟨fun ends => ⟨fun hok => ends.ok (hrun.trans hok), fun error => ends.error (hrun.trans error)⟩,
   fun ends => ⟨fun hok => ends.ok (hrun.symm.trans hok), fun error =>
    ends.error (hrun.symm.trans error)⟩⟩

@[simp] theorem ends_pure :
  Ends (pure value : Program State Error Value) state post fail ↔ post value state :=
  ends_of_ok rfl

@[simp] theorem ends_throw :
  Ends (throw error : Program State Error Value) state post fail ↔ fail error state :=
  ends_of_error rfl

theorem ends_ite {test : Prop} [Decidable test] (hyes : test → Ends left state post fail)
  (hno : ¬ test → Ends right state post fail) :
  Ends (if test then left else right) state post fail := by
  split
  · exact hyes ‹_›
  · exact hno ‹_›

@[simp] theorem ends_set {next post} :
  Ends (set next : Program State Error PUnit) state post fail ↔ post () next :=
  ends_of_ok rfl

@[simp] theorem ends_modify {post} :
  Ends (modify change : Program State Error PUnit) state post fail ↔ post () (change state) :=
  ends_of_ok rfl

theorem bind_run_ok (hrun : first state = .ok value middle) :
  (first >>= next) state = next value middle := by
  change EStateM.bind first next state = _
  rw [EStateM.bind, hrun]

theorem bind_run_error (hrun : first state = .error reason middle) :
  (first >>= next) state = .error reason middle := by
  change EStateM.bind first next state = _
  rw [EStateM.bind, hrun]

theorem map_run (result : Value → Result) : (result <$> program) state =
    match program state with
    | .ok value next => .ok (result value) next
    | .error error next => .error error next := by
  change EStateM.map result program state = _
  rw [EStateM.map]
  cases program state with
  | ok value next => rfl
  | error error next => rfl

variable {result : Value → Result}
theorem map_run_ok {value next} (hrun : (result <$> program) state = .ok value next) :
  ∃ found, program state = .ok found next ∧ result found = value := by
  rw [map_run] at hrun
  cases hcase : program state with
  | ok found mid =>
    rw [hcase] at hrun
    cases hrun
    exact ⟨found, rfl, rfl⟩
  | error error mid =>
    rw [hcase] at hrun
    cases hrun

theorem map_run_error {next} (hrun : (result <$> program) state = .error reason next) :
  program state = .error reason next := by
  rw [map_run] at hrun
  cases hcase : program state with
  | ok found mid =>
    rw [hcase] at hrun
    cases hrun
  | error error mid =>
    rw [hcase] at hrun
    cases hrun
    rfl

theorem get_bind_run {next : State → Program State Error Result} :
  (get >>= next) state = next state state :=
  bind_run_ok rfl

theorem set_bind_run {next : PUnit → Program State Error Result} :
  (set middle >>= next) state = next () middle :=
  bind_run_ok rfl

/-- A sequence that succeeds has succeeded in both parts. -/
theorem bind_ok {result} (hrun : (first >>= rest) state = .ok result after) :
  ∃ value middle, first state = .ok value middle ∧ rest value middle = .ok result after := by
  cases hfirst : first state with
  | ok value middle =>
    rw [bind_run_ok hfirst] at hrun
    exact ⟨value, middle, rfl, hrun⟩
  | error reason middle =>
    rw [bind_run_error hfirst] at hrun
    cases hrun

theorem ends_bind_of_ok {post} (hrun : first state = .ok value middle) :
  Ends (first >>= next) state post fail ↔ Ends (next value) middle post fail :=
  ends_congr (bind_run_ok hrun)

theorem ends_bind_of_error {post} (hrun : first state = .error reason middle) :
  Ends (first >>= next) state post fail ↔ fail reason middle :=
  ends_of_error (bind_run_error hrun)

@[simp] theorem ends_get_bind {next : State → Program State Error Result}
  {post : Result → State → Prop} :
  Ends (get >>= next) state post fail ↔ Ends (next state) state post fail :=
  ends_congr get_bind_run

@[simp] theorem ends_modify_bind {next : PUnit → Program State Error Result}
  {post : Result → State → Prop} :
  Ends (modify change >>= next) state post fail ↔ Ends (next ()) (change state) post fail :=
  ends_bind_of_ok rfl

@[simp] theorem ends_set_bind {next : PUnit → Program State Error Result}
  {post : Result → State → Prop} :
  Ends (set middle >>= next) state post fail ↔ Ends (next ()) middle post fail :=
  ends_bind_of_ok rfl

@[simp] theorem ends_orThrow_some {post} :
  Ends (orThrow error (some value) >>= next) state post fail ↔ Ends (next value) state post fail :=
  ends_bind_of_ok rfl

@[simp] theorem ends_orThrow_none {post} :
  Ends (orThrow error none >>= next) state post fail ↔ fail error state :=
  ends_bind_of_error rfl

theorem ends_zoom {view : State → Part} {update : State → Part → State}
  {prog : Program Part Error Value} :
  Ends (zoom view update prog) state post fail ↔
    Ends prog (view state) (fun value part => post value (update state part))
      (fun error part => fail error (update state part)) := by
  cases hrun : prog (view state) with
  | ok value part =>
    have hzoom : zoom view update prog state = .ok value (update state part) := by
      rw [zoom, hrun]
    rw [ends_of_ok hzoom, ends_of_ok hrun]
  | error error part =>
    have hzoom : zoom view update prog state = .error error (update state part) := by
      rw [zoom, hrun]
    rw [ends_of_error hzoom, ends_of_error hrun]

namespace Ends
variable {mid weaker : Value → State → Prop}
theorem bind {post} (hfirst : Ends first state mid fail)
  (hnext : ∀ value middle, mid value middle → Ends (next value) middle post fail) :
  Ends (first >>= next) state post fail := by
  cases hrun : first state with
  | ok value middle =>
    rw [ends_bind_of_ok hrun]
    exact hnext value middle (hfirst.ok hrun)
  | error error middle =>
    rw [ends_bind_of_error hrun]
    exact hfirst.error hrun

variable {cleanup : State → State} {failed weakFail : Error → State → Prop}
theorem onError (hprog : Ends program state post failed)
  (hcleanup : ∀ error next, failed error next → fail error (cleanup next)) :
  Ends (.onError program cleanup) state post fail := by
  cases hrun : program state with
  | ok value next =>
    have same : Program.onError program cleanup state = .ok value next := by
      rw [Program.onError, hrun]
    exact (ends_of_ok same).mpr (hprog.ok hrun)
  | error error next =>
    have clean : Program.onError program cleanup state = .error error (cleanup next) := by
      rw [Program.onError, hrun]
    exact (ends_of_error clean).mpr (hcleanup error next (hprog.error hrun))

theorem attempt {either : State → Prop} (ends : Ends program state post fail)
  (hpost : ∀ value next, post value next → either next)
  (hfail : ∀ error next, fail error next → either next) :
  either (Program.attempt program state) := by
  unfold Program.attempt
  cases hrun : program state with
  | ok value next => exact hpost value next (ends.ok hrun)
  | error error next => exact hfail error next (ends.error hrun)

/-- Weaken both ends. -/
theorem mono (ends : Ends program state post fail)
  (hpost : ∀ value next, post value next → weaker value next)
  (hfail : ∀ error next, fail error next → weakFail error next) :
  Ends program state weaker weakFail :=
  ⟨fun hrun => hpost _ _ (ends.ok hrun), fun hrun => hfail _ _ (ends.error hrun)⟩

end Ends

/-! ## Forgetting a part of the state -/

variable {Inner InnerPart : Type}
/-- What `program` does, `plain` does to what `forget` leaves of the state. -/
structure Forgets (forget : State → Part) (program : Program State Error Value)
  (plain : Program Part Error Value) : Prop where
  ok : ∀ {state value next}, program state = .ok value next →
    plain (forget state) = .ok value (forget next)
  error : ∀ {state reason next}, program state = .error reason next →
    plain (forget state) = .error reason (forget next)

namespace Forgets
variable {forget : State → Part}
/-- Both runs from a state end alike. -/
theorem of_eq {plain} (same : ∀ state, plain (forget state) = match program state with
    | .ok value next => .ok value (forget next)
    | .error reason next => .error reason (forget next)) : Forgets forget program plain where
  ok hrun := by rw [same, hrun]
  error hrun := by rw [same, hrun]

theorem eq {plain} (forgets : Forgets forget program plain) (state) :
  plain (forget state) = match program state with
    | .ok value next => .ok value (forget next)
    | .error reason next => .error reason (forget next) := by
  cases hrun : program state with
  | ok value next => exact forgets.ok hrun
  | error reason next => exact forgets.error hrun

theorem pure (value) : Forgets forget (pure value : Program State Error Value) (Pure.pure value) :=
  of_eq fun _ => rfl

theorem throw (reason) :
  Forgets forget (throw reason : Program State Error Value) (MonadExcept.throw reason) :=
  of_eq fun _ => rfl

theorem orThrow (error value) :
  Forgets forget (orThrow error value : Program State Error Value) (.orThrow error value) := by
  cases value with
  | none => exact throw error
  | some value => exact pure value

theorem modify {plain} (hchange : ∀ state, plain (forget state) = forget (change state)) :
  Forgets forget (modify change : Program State Error PUnit) (modify plain) :=
  of_eq fun state => congrArg (EStateM.Result.ok PUnit.unit) (hchange state)

theorem bind {plainFirst plainNext} (hfirst : Forgets forget first plainFirst)
  (hnext : ∀ value, Forgets forget (next value) (plainNext value)) :
  Forgets forget (first >>= next) (plainFirst >>= plainNext) := by
  refine of_eq fun state => ?_
  cases start : first state with
  | ok value mid =>
    rw [bind_run_ok start, bind_run_ok (hfirst.ok start)]
    exact (hnext value).eq mid
  | error reason mid => rw [bind_run_error start, bind_run_error (hfirst.error start)]

theorem get_bind {next : State → Program State Error Result}
  {plainNext : Part → Program Part Error Result}
  (hnext : ∀ state, Forgets forget (next state) (plainNext (forget state))) :
  Forgets forget (get >>= next) (get >>= plainNext) := by
  refine of_eq fun state => ?_
  rw [get_bind_run, get_bind_run]
  exact (hnext state).eq state

theorem zoom {inner : Inner → InnerPart} {view : State → Inner} {update : State → Inner → State}
  {plainView : Part → InnerPart} {plainUpdate : Part → InnerPart → Part}
  {prog : Program Inner Error Value} {plain : Program InnerPart Error Value}
  (hprog : Forgets inner prog plain)
  (hview : ∀ state, plainView (forget state) = inner (view state))
  (hupdate : ∀ state part, plainUpdate (forget state) (inner part) = forget (update state part)) :
  Forgets forget (zoom view update prog) (.zoom plainView plainUpdate plain) := by
  refine of_eq fun state => ?_
  unfold Program.zoom
  rw [hview, hprog.eq]
  cases prog (view state) with
  | ok value part => exact congrArg (EStateM.Result.ok value) (hupdate state part)
  | error reason part => exact congrArg (EStateM.Result.error reason) (hupdate state part)

end Forgets
end Program

variable {Error Value Result : Type}
/-- A computation that may fail succeeds in steps. -/
theorem except_bind_ok {first : Except Error Value} {rest : Value → Except Error Result}
  {result : Result} (hbind : (first >>= rest) = .ok result) :
  ∃ value, first = .ok value ∧ rest value = .ok result := by
  cases first with
  | error error => cases hbind
  | ok value => exact ⟨value, rfl, hbind⟩

end Smros.Lib
