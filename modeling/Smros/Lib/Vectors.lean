import Mathlib.Algebra.Group.Nat.Defs
import Mathlib.Data.List.Count
import Mathlib.Data.List.Nodup
import Mathlib.Data.List.Perm.Basic

/-!
# Vector operations on lists, and tests over options
-/

namespace Smros.Lib
open List Nat
variable {α κ β : Type}
/-- The last element takes the place of the removed one. -/
def swapRemove (items : List α) (position : Nat) : List α :=
  match items.getLast? with
  | none => items
  | some last => (items.set position last).dropLast

variable {items : List α} {pos : Nat}
/-- Swap removal takes exactly the element at the position away. -/
theorem swapRemove_perm (hpos : pos < items.length) :
  (items[pos] :: swapRemove items pos).Perm items := by
  rcases eq_nil_or_concat' items with rfl | ⟨front, last, rfl⟩
  · exact absurd hpos (not_lt_zero _)
  have shape : swapRemove (front ++ [last]) pos = ((front ++ [last]).set pos last).dropLast := by
    simp [swapRemove]
  rw [shape]
  by_cases inner : pos < front.length
  · rw [set_append_left _ _ inner, dropLast_concat, getElem_append_left inner,
      set_eq_take_append_cons_drop, if_pos inner]
    have hsplit : front = front.take pos ++ front[pos] :: front.drop (pos + 1) := by
      rw [← drop_eq_getElem_cons inner, take_append_drop]
    conv_rhs => rw [hsplit]
    rw [append_assoc, cons_append]
    refine Perm.trans ?_ perm_middle.symm
    refine Perm.cons _ (Perm.append_left _ ?_)
    exact (perm_append_singleton _ _).symm
  · have hlast : pos = front.length := by
      simp only [length_append, length_singleton] at hpos
      omega
    subst hlast
    simp only [getElem_concat_length, set_append_right _ _ (Nat.le_refl _),
      Nat.sub_self, set_cons_zero, dropLast_concat]
    exact (perm_append_singleton _ _).symm

variable {item left right : α}
theorem perm_eraseIdx (hitem : items[pos]? = some item) :
  (item :: items.eraseIdx pos).Perm items := by
  obtain ⟨hlt, rfl⟩ := List.getElem?_eq_some_iff.mp hitem
  exact getElem_cons_eraseIdx_perm hlt

/-- The elements around a position: a replacement joins them, swap removal leaves them. -/
theorem perm_around (hitem : items[pos]? = some item) : ∃ others, items.Perm (item :: others) ∧
    (∀ replacement, (items.set pos replacement).Perm (replacement :: others)) ∧
    (swapRemove items pos).Perm others := by
  obtain ⟨hlt, rfl⟩ := List.getElem?_eq_some_iff.mp hitem
  refine ⟨swapRemove items pos, (swapRemove_perm hlt).symm, fun replacement => ?_, .rfl⟩
  have hset : pos < (items.set pos replacement).length := by rwa [length_set]
  refine (getElem_cons_eraseIdx_perm hset).symm.trans ?_
  rw [getElem_set_self, eraseIdx_set_eq]
  refine Perm.cons _ ((perm_cons items[pos]).mp ?_)
  exact (getElem_cons_eraseIdx_perm hlt).trans (swapRemove_perm hlt).symm

/-- A search for the key of an element finds the element where keys are not repeated. -/
theorem find?_of_nodup_map [DecidableEq κ] {key : α → κ} (nodup : (items.map key).Nodup)
  (hitem : item ∈ items) : items.find? (key · == key item) = some item := by
  cases hfind : items.find? (key · == key item) with
  | none =>
    have diff := find?_eq_none.mp hfind item hitem
    exact absurd (beq_self_eq_true (key item)) diff
  | some found =>
    have same := find?_some hfind
    exact congrArg some (inj_on_of_nodup_map nodup (mem_of_find?_eq_some hfind) hitem
      (eq_of_beq same))

/-- The first element that passes the test, with its position. -/
def firstPlace (test : α → Bool) (items : List α) : Option (Nat × α) :=
  (items.zipIdx.find? fun place => test place.1).map Prod.swap

variable {test drop : α → Bool}
theorem firstPlace_some (hfirst : firstPlace test items = some (pos, item)) :
  items[pos]? = some item ∧ test item = true := by
  obtain ⟨⟨found, idx⟩, hfind, place⟩ := Option.map_eq_some_iff.mp hfirst
  cases place
  have passes := find?_some hfind
  exact ⟨mk_mem_zipIdx_iff_getElem?.mp (mem_of_find?_eq_some hfind), passes⟩

/-- Dropping one element lowers a count by one at most. -/
theorem countP_le_eraseP (test drop) (items : List α) :
  items.countP test ≤ (items.eraseP drop).countP test + 1 := by
  rcases exists_or_eq_self_of_eraseP drop items with same |
    ⟨item, front, back, -, -, hitems, erased⟩
  · rw [same]
    exact le_succ _
  · rw [erased, hitems, countP_append, countP_append, countP_cons]
    split <;> omega

/-- Dropping an element that does not count keeps the count. -/
theorem countP_eraseP_of_disjoint (disjoint : ∀ item, drop item = true → test item = false)
  (items : List α) : (items.eraseP drop).countP test = items.countP test := by
  rcases exists_or_eq_self_of_eraseP drop items with same |
    ⟨item, front, back, -, hdrop, hitems, erased⟩
  · rw [same]
  · rw [erased, hitems, countP_append, countP_append,
      countP_cons_of_neg (by simp [disjoint item hdrop])]

variable {before after : α → β}
/-- Replacing one element changes the image at its position only. -/
theorem map_set_of_erase (same : ∀ item ∈ items.eraseIdx pos, after item = before item) (repl) :
  (items.set pos repl).map after = (items.map before).set pos (after repl) := by
  rw [map_set]
  refine ext_getElem? fun idx => ?_
  by_cases hidx : idx = pos
  · subst hidx
    simp [getElem?_set_self']
  rw [getElem?_set_ne (Ne.symm hidx), getElem?_set_ne (Ne.symm hidx), getElem?_map, getElem?_map]
  cases hitem : items[idx]? with
  | none => rfl
  | some item =>
    have hmem := mem_eraseIdx_iff_getElem?.mpr ⟨idx, hidx, hitem⟩
    simp only [Option.map_some, same item hmem]

/-- Changing one position of a row of tests changes the number that pass by that one. -/
theorem countP_range_update {size} (hpos : pos < size) (before after)
  (same : ∀ index, index ≠ pos → after index = before index) :
  (range size).countP after + (if before pos then 1 else 0) =
    (range size).countP before + (if after pos then 1 else 0) := by
  induction size with
  | zero => exact absurd hpos (not_lt_zero _)
  | succ size ih =>
    rw [range_succ, countP_append, countP_append, countP_singleton, countP_singleton]
    by_cases last : pos = size
    · subst last
      have front : (range pos).countP after = (range pos).countP before :=
        countP_congr fun index hidx => by rw [same index (Nat.ne_of_lt (mem_range.mp hidx))]
      rw [front]
      omega
    · have rest := ih (by omega)
      rw [same size (Ne.symm last)]
      omega

/-! ## Quantifiers over the value of an option -/

instance decidableForallSome (value : Option α) (property : α → Prop) [DecidablePred property] :
  Decidable (∀ item, value = some item → property item) :=
  match value with
  | none => .isTrue fun _ hsome => nomatch hsome
  | some item =>
    decidable_of_iff (property item)
      ⟨fun hitem _ hsome => Option.some.inj hsome ▸ hitem, fun hall => hall item rfl⟩

instance decidableExistsSome (value : Option α) (property : α → Prop) [DecidablePred property] :
  Decidable (∃ item, value = some item ∧ property item) :=
  match value with
  | none => .isFalse fun hsome => nomatch hsome.choose_spec.1
  | some item =>
    decidable_of_iff (property item) ⟨fun hitem => ⟨item, rfl, hitem⟩, fun ⟨_, hsome, hother⟩ =>
        (Option.some.inj hsome).symm ▸ hother⟩

end Smros.Lib
