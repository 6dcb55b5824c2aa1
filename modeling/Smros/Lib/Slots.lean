import Mathlib.Algebra.Group.Nat.Defs
import Mathlib.Data.List.ReduceOption

/-!
# Fixed slot arrays

A bounded table is an array of optional entries.  Its contents are the
occupied slots read in order (`List.reduceOption`); a new entry goes into the
first empty slot, and a rebuilt table packs its entries in front.
-/

namespace Smros.Lib
open List
variable {α : Type}
/-- Put an entry into the first empty slot; `none` when every slot is taken. -/
def fillFirst (entry : α) : List (Option α) → Option (List (Option α))
  | [] => none
  | none :: rest => some (some entry :: rest)
  | some taken :: rest => (fillFirst entry rest).map (some taken :: ·)

/-- The slots of length `capacity` whose front is `entries`. -/
def packed (capacity : Nat) (entries : List α) : List (Option α) :=
  entries.map some ++ List.replicate (capacity - entries.length) none

variable {entry : α} {slots filled : List (Option α)} {capacity : Nat}
theorem fillFirst_length (fill : fillFirst entry slots = some filled) :
  filled.length = slots.length := by
  induction slots generalizing filled with
  | nil => simp [fillFirst] at fill
  | cons slot rest ih =>
    cases slot with
    | none =>
      simp only [fillFirst, Option.some.injEq] at fill
      simp [← fill]
    | some taken =>
      simp only [fillFirst, Option.map_eq_some_iff] at fill
      obtain ⟨inner, hinner, rfl⟩ := fill
      simp [ih hinner]

/-- Filling a slot adds exactly the new entry to the contents. -/
theorem fillFirst_perm (fill : fillFirst entry slots = some filled) :
  filled.reduceOption.Perm (entry :: slots.reduceOption) := by
  induction slots generalizing filled with
  | nil => simp [fillFirst] at fill
  | cons slot rest ih =>
    cases slot with
    | none =>
      simp only [fillFirst, Option.some.injEq] at fill
      simp [← fill]
    | some taken =>
      simp only [fillFirst, Option.map_eq_some_iff] at fill
      obtain ⟨inner, hinner, rfl⟩ := fill
      simp only [reduceOption_cons_of_some]
      exact ((ih hinner).cons taken).trans (.swap entry taken _)

/-- A full table is one with no empty slot. -/
theorem fillFirst_eq_none_iff : fillFirst entry slots = none ↔ none ∉ slots := by
  induction slots with
  | nil => simp [fillFirst]
  | cons slot rest ih => cases slot <;> simp [fillFirst, ih]

@[simp] theorem reduceOption_packed (capacity : Nat) (entries : List α) :
  (packed capacity entries).reduceOption = entries := by
  have front : (entries.map some).reduceOption = entries := by
    induction entries with
    | nil => rfl
    | cons entry rest ih => simp [ih]
  simp [packed, reduceOption_append, front]

variable {entries : List α}
theorem length_packed (fits : entries.length ≤ capacity) :
  (packed capacity entries).length = capacity := by
  simp only [packed, length_append, length_map, length_replicate]
  omega

end Smros.Lib
