import Mathlib.Data.List.Basic

/-!
# In-place exchange sort

For each position `left`, the loop compares the element at `left` with every
later element and exchanges the two whenever `swap` asks for it.  Only the
elements at `left` and `right` move in one comparison, so the pass over the
suffix is a recursion that carries the element currently at `left`.
-/

namespace Smros.Lib
open List
variable {α : Type}
/-- One pass of the inner loop: the element left at the front, and the rest. -/
def exchangePass (swap : α → α → Bool) : α → List α → α × List α
  | front, [] => (front, [])
  | front, next :: rest =>
    if swap front next then
      let inner := exchangePass swap next rest
      (inner.1, front :: inner.2)
    else
      let inner := exchangePass swap front rest
      (inner.1, next :: inner.2)

/-- The outer loop; the first argument counts its remaining positions. -/
def exchangeSort (swap : α → α → Bool) : Nat → List α → List α
  | 0, items => items
  | _ + 1, [] => []
  | positions + 1, front :: rest =>
    let inner := exchangePass swap front rest
    inner.1 :: exchangeSort swap positions inner.2

variable (swap : α → α → Bool)
theorem exchangePass_perm (front : α) (rest : List α) :
  ((exchangePass swap front rest).1 :: (exchangePass swap front rest).2).Perm (front :: rest) := by
  induction rest generalizing front with
  | nil => simp [exchangePass]
  | cons next rest ih =>
    unfold exchangePass
    split
    · exact ((Perm.swap front _ _).trans ((ih next).cons front))
    · exact ((Perm.swap next _ _).trans ((ih front).cons next)).trans (.swap front next rest)

theorem exchangeSort_perm (positions : Nat) (items : List α) :
  (exchangeSort swap positions items).Perm items := by
  induction positions generalizing items with
  | zero => simp [exchangeSort]
  | succ positions ih =>
    cases items with
    | nil => simp [exchangeSort]
    | cons front rest => exact ((ih _).cons _).trans (exchangePass_perm swap front rest)

variable {swap} (swap_trans : ∀ x y z, swap x y = false → swap y z = false → swap x z = false)
  (swap_asymm : ∀ x y, swap x y = true → swap y x = false)
include swap_trans swap_asymm
/-- The element a pass leaves in front need not be exchanged with any other. -/
theorem exchangePass_least (front rest) : swap (exchangePass swap front rest).1 front = false ∧
    ∀ item ∈ (exchangePass swap front rest).2,
      swap (exchangePass swap front rest).1 item = false := by
  have swap_refl (x : α) : swap x x = false := by
    by_contra hswap
    rw [Bool.not_eq_false] at hswap
    exact absurd (swap_asymm _ _ hswap) (by simp [hswap])
  induction rest generalizing front with
  | nil => simp [exchangePass, swap_refl]
  | cons next rest ih =>
    unfold exchangePass
    split
    · rename_i hswap
      obtain ⟨hnext, hrest⟩ := ih next
      have hfront := swap_trans _ _ _ hnext (swap_asymm _ _ hswap)
      refine ⟨hfront, fun item hitem => ?_⟩
      rcases mem_cons.mp hitem with rfl | hitem
      · exact hfront
      · exact hrest item hitem
    · rename_i hswap
      obtain ⟨hfront, hrest⟩ := ih front
      refine ⟨hfront, fun item hitem => ?_⟩
      rcases mem_cons.mp hitem with rfl | hitem
      · exact swap_trans _ _ _ hfront (Bool.not_eq_true _ ▸ hswap)
      · exact hrest item hitem

/-- With one outer round per element, no later element asks for an exchange. -/
theorem exchangeSort_sorted {positions items} (enough : items.length ≤ positions) :
  (exchangeSort swap positions items).Pairwise fun x y => swap x y = false := by
  induction positions generalizing items with
  | zero =>
    cases items with
    | nil => simp [exchangeSort]
    | cons => simp at enough
  | succ positions ih =>
    cases items with
    | nil => simp [exchangeSort]
    | cons front rest =>
      have length := (exchangePass_perm swap front rest).length_eq
      have inner := @ih (exchangePass swap front rest).2
        (by simp only [length_cons] at length enough; omega)
      refine pairwise_cons.mpr ⟨fun item hitem => ?_, inner⟩
      exact (exchangePass_least swap_trans swap_asymm front rest).2 item
        ((exchangeSort_perm swap positions _).mem_iff.mp hitem)

end Smros.Lib
