import Mathlib.Algebra.Group.Basic

/-!
# Runs of a deterministic machine

A run is a left fold of a step function over labels.  A guard restricts which
labels a run may take where; an invariant that guarded steps keep holds at the
end of every guarded run.
-/

namespace Smros.Lib
variable {State Label Part : Type}
/-- The state after the labels, in order. -/
def run (step : State → Label → State) (start : State) (labels : List Label) : State :=
  labels.foldl step start

/-- Every label of the run meets the guard in the state where it is taken. -/
def Guarded (guard : State → Label → Prop) (step : State → Label → State) :
  State → List Label → Prop
  | _, [] => True
  | state, label :: rest => guard state label ∧ Guarded guard step (step state label) rest

instance Guarded.decidable {guard : State → Label → Prop} {step : State → Label → State}
  [∀ state label, Decidable (guard state label)] :
  ∀ (state : State) (labels : List Label), Decidable (Guarded guard step state labels)
  | _, [] => .isTrue trivial
  | state, label :: rest =>
  @instDecidableAnd _ _ _ (Guarded.decidable (step state label) rest)

variable {labels : List Label} {guard other : State → Label → Prop} {step : State → Label → State}
  {invariant : State → Prop} {start : State}
theorem guarded_invariant (keeps : ∀ state label, invariant state → guard state label →
      invariant (step state label)) (hstart : invariant start)
  (guarded : Guarded guard step start labels) : invariant (run step start labels) := by
  induction labels generalizing start with
  | nil => exact hstart
  | cons label rest ih =>
    obtain ⟨hfirst, hrest⟩ := guarded
    exact ih (keeps start label hstart hfirst) hrest

section
variable (keeps : ∀ state label, invariant state → invariant (step state label))
include keeps
theorem run_invariant (hstart : invariant start) (labels) : invariant (run step start labels) := by
  induction labels generalizing start with
  | nil => exact hstart
  | cons label rest ih => exact ih (keeps start label hstart)

/-- Guards that agree in invariant states restrict runs alike. -/
theorem guarded_congr
  (agree : ∀ state label, invariant state → (guard state label ↔ other state label))
  (hstart : invariant start) (labels) :
  Guarded guard step start labels ↔ Guarded other step start labels := by
  induction labels generalizing start with
  | nil => exact Iff.rfl
  | cons label rest ih => exact and_congr (agree start label hstart) (ih (keeps start label hstart))

end

/-- A property that steps keep just under a guard holds all along a run just under it. -/
theorem guarded_keeps_iff {good : State → Prop}
  (keeps : ∀ state label, invariant state → invariant (step state label))
  (hstep : ∀ state label, invariant state → good state →
    (good (step state label) ↔ guard state label)) (hstart : invariant start) (hgood : good start)
  (labels) :
  Guarded (fun state label => good (step state label)) step start labels ↔
    Guarded guard step start labels := by
  induction labels generalizing start with
  | nil => exact Iff.rfl
  | cons label rest ih =>
    have hfirst := hstep start label hstart hgood
    have hrest := ih (keeps start label hstart)
    exact ⟨fun hall => ⟨hfirst.mp hall.1, (hrest hall.1).mp hall.2⟩, fun hall =>
      ⟨hfirst.mpr hall.1, (hrest (hfirst.mpr hall.1)).mpr hall.2⟩⟩

variable {partStep : Part → Label → Part} {project : State → Part}
/-- A part of the state that steps on its own runs on its own. -/
theorem run_project
  (hstep : ∀ state label, project (step state label) = partStep (project state) label)
  (start labels) : project (run step start labels) = run partStep (project start) labels := by
  induction labels generalizing start with
  | nil => rfl
  | cons label rest ih =>
    have hrest := ih (step start label)
    rw [hstep] at hrest
    exact hrest

/-! ## Totals of a run -/

section
variable {Amount : Type} [AddCommMonoid Amount]
/-- What the steps of a run add up to. -/
def total (amount : State → Label → Amount) (step : State → Label → State) :
  State → List Label → Amount
  | _, [] => 0
  | state, label :: rest => amount state label + total amount step (step state label) rest

variable {paid gained : State → Label → Amount}
/-- Amounts that agree at every step of invariant states have the same total. -/
theorem total_congr (keeps : ∀ state label, invariant state → invariant (step state label))
  (agree : ∀ state label, invariant state → paid state label = gained state label)
  (hstart : invariant start) (labels) :
  total paid step start labels = total gained step start labels := by
  induction labels generalizing start with
  | nil => rfl
  | cons label rest ih => rw [total, total, agree start label hstart, ih (keeps start label hstart)]

theorem total_add :
  total (fun state label => paid state label + gained state label) step start labels =
    total paid step start labels + total gained step start labels := by
  induction labels generalizing start with
  | nil => exact (add_zero 0).symm
  | cons label rest ih => rw [total, total, total, ih, add_add_add_comm]

/-- A stock that each step changes by what it gains and pays balances over a run. -/
theorem total_balance (stock : State → Amount) (paid gained : State → Label → Amount)
  (keeps : ∀ state label, invariant state → invariant (step state label))
  (balance : ∀ state label, invariant state →
    stock (step state label) + paid state label = stock state + gained state label)
  (hstart : invariant start) (labels : List Label) :
  stock (run step start labels) + total paid step start labels =
    stock start + total gained step start labels := by
  induction labels generalizing start with
  | nil => rfl
  | cons label rest ih =>
    have hrest := ih (keeps start label hstart)
    change stock (run step (step start label) rest) + (_ + _) = _ + (_ + _)
    rw [add_left_comm, hrest, add_left_comm, ← add_assoc, balance start label hstart, add_assoc]

end

/-! ## Machines that answer -/

variable {Abstract Output : Type}
/-- The answers of a run, in order, and the state it ends in. -/
def trace (step : State → Label → Output × State) : State → List Label → List Output × State
  | state, [] => ([], state)
  | state, label :: rest =>
    let (output, next) := step state label
    let (outputs, final) := trace step next rest
    (output :: outputs, final)

/-- Two machines that take the same labels. -/
def sideBySide (concrete : State → Label → Output × State)
    (abstract : Abstract → Label → Output × Abstract) (state : State × Abstract) (label : Label) :
    State × Abstract :=
  ((concrete state.1 label).2, (abstract state.2 label).2)

/-- If each guarded step answers alike and keeps the relation, so does each guarded run. -/
theorem trace_simulation {concrete : State → Label → Output × State}
    {abstract : Abstract → Label → Output × Abstract} {related : State → Abstract → Prop}
    {guard : State × Abstract → Label → Prop}
    (simulates : ∀ state spec label, related state spec → guard (state, spec) label →
      (concrete state label).1 = (abstract spec label).1 ∧
        related (concrete state label).2 (abstract spec label).2) {spec : Abstract}
    (hstart : related start spec)
    (guarded : Guarded guard (sideBySide concrete abstract) (start, spec) labels) :
    (trace concrete start labels).1 = (trace abstract spec labels).1 ∧
      related (trace concrete start labels).2 (trace abstract spec labels).2 := by
  induction labels generalizing start spec with
  | nil => exact ⟨rfl, hstart⟩
  | cons label rest ih =>
    obtain ⟨hfirst, hrest⟩ := guarded
    obtain ⟨output, hrelated⟩ := simulates start spec label hstart hfirst
    obtain ⟨outputs, final⟩ := ih hrelated hrest
    refine ⟨?_, final⟩
    exact (congrArg (· :: _) output).trans (congrArg (_ :: ·) outputs)

end Smros.Lib
