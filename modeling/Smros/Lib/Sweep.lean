import Smros.Lib.Vectors

/-!
# One at a time or all at once

A sweep changes every entry that a change applies to.  Calls that change one such entry
each, wherever they look for it, end in the same entries when no call finds one any more.
-/

namespace Smros.Lib
open List
variable {State Answer Entry : Type}
/-- Calls made until one answers nothing: their answers and the state they end in. -/
inductive Drains (call : State → Option (Answer × State)) : State → List Answer → State → Prop where
  | done {state} (hcall : call state = none) : Drains call state [] state
  | more {state next last answer answers} (hcall : call state = some (answer, next))
      (rest : Drains call next answers last) : Drains call state (answer :: answers) last

/-- The answers of all the changes, and the entries after them. -/
def sweep (change : Entry → Option (Answer × Entry)) (entries : List Entry) :
  List Answer × List Entry :=
  (entries.filterMap fun entry => (change entry).map Prod.fst,
    entries.map fun entry => ((change entry).map Prod.snd).getD entry)

/-- A call that makes one change, where there is one to make. -/
structure ChangesOne (change : Entry → Option (Answer × Entry)) (entries : State → List Entry)
  (call : State → Option (Answer × State)) : Prop where
  once : ∀ {entry answer changed}, change entry = some (answer, changed) → change changed = none
  idle : ∀ {state}, call state = none → ∀ entry ∈ entries state, change entry = none
  works : ∀ {state answer next}, call state = some (answer, next) → ∃ place entry changed,
    (entries state)[place]? = some entry ∧ change entry = some (answer, changed) ∧
      entries next = (entries state).set place changed

variable {change : Entry → Option (Answer × Entry)} {list : List Entry} {place : Nat}
  {entry changed : Entry} {answer : Answer}
theorem sweep_of_idle (idle : ∀ entry ∈ list, change entry = none) :
  sweep change list = ([], list) := by
  refine Prod.ext (filterMap_eq_nil_iff.mpr fun entry hentry => ?_) ?_
  · rw [idle entry hentry]
    rfl
  · refine (map_congr_left fun entry hentry => ?_).trans (map_id list)
    rw [idle entry hentry]
    rfl

/-- One change leaves the sweep the others to make. -/
theorem sweep_set (hentry : list[place]? = some entry)
  (hchange : change entry = some (answer, changed)) (once : change changed = none) :
  (sweep change list).1.Perm (answer :: (sweep change (list.set place changed)).1) ∧
    (sweep change (list.set place changed)).2 = (sweep change list).2 := by
  constructor
  · obtain ⟨others, before, after, -⟩ := perm_around hentry
    have answers := before.filterMap fun entry => (change entry).map Prod.fst
    rw [filterMap_cons, hchange] at answers
    have rest := (after changed).filterMap fun entry => (change entry).map Prod.fst
    rw [filterMap_cons, once] at rest
    exact answers.trans (rest.symm.cons answer)
  · obtain ⟨hlt, rfl⟩ := List.getElem?_eq_some_iff.mp hentry
    dsimp only [sweep]
    refine ext_getElem (by simp) fun idx _ _ => ?_
    simp only [getElem_map, getElem_set]
    split
    next same =>
      subst same
      rw [once, hchange]
      rfl
    · rfl

variable {entries : State → List Entry} {call : State → Option (Answer × State)}
/-- Calls until nothing is found come to an end and do what the sweep does. -/
theorem ChangesOne.drains (one : ChangesOne change entries call) (state) :
  ∃ answers last, Drains call state answers last ∧ answers.Perm (sweep change (entries state)).1 ∧
    entries last = (sweep change (entries state)).2 := by
  -- Each call takes one answer from those that the sweep has to give.
  induction count : (sweep change (entries state)).1.length using Nat.strongRecOn
    generalizing state with
  | _ count ih =>
    cases hcall : call state with
    | none =>
      rw [sweep_of_idle (one.idle hcall)]
      exact ⟨[], state, .done hcall, .rfl, rfl⟩
    | some found =>
      obtain ⟨place, entry, changed, hentry, hchange, hnext⟩ := one.works hcall
      obtain ⟨taken, same⟩ := sweep_set hentry hchange (one.once hchange)
      rw [← hnext] at taken same
      have fewer := taken.length_eq
      rw [length_cons] at fewer
      obtain ⟨answers, last, drains, perm, hlast⟩ := ih _ (by omega) found.2 rfl
      exact ⟨_, last, .more hcall drains, (perm.cons _).trans taken.symm, hlast.trans same⟩

end Smros.Lib
