import Smros.Lib.Vectors

/-!
# A vector with an index of its positions

Items with distinct keys stand in a vector in any order; an index gives, for
each key, the position of its item, or nothing.
-/

namespace Smros.Lib
open List
variable {Item : Type} (key : Item → Nat)
/-- The index is the exact inverse of the vector. -/
def Inverse (items : List Item) (indices : List (Option Nat)) : Prop :=
  ∀ name index, indices[name]? = some (some index) ↔
    ∃ item, items[index]? = some item ∧ key item = name

variable {key} {items : List Item} {indices : List (Option Nat)}
namespace Inverse
variable {index : Nat} {item last old new : Item} (inverse : Inverse key items indices)
section
include inverse
theorem getElem? (hitem : items[index]? = some item) : indices[key item]? = some (some index) :=
  (inverse _ _).mpr ⟨item, hitem, rfl⟩

theorem key_lt (hmem : item ∈ items) : key item < indices.length := by
  obtain ⟨idx, hitem⟩ := List.getElem?_of_mem hmem
  exact (List.getElem?_eq_some_iff.mp (inverse.getElem? hitem)).1

variable {first second : Nat} {left right : Item}
theorem index_unique (hleft : items[first]? = some left) (hright : items[second]? = some right)
  (hkey : key left = key right) : first = second := by
  have hfirst := inverse.getElem? hleft
  rw [hkey, inverse.getElem? hright] at hfirst
  exact (Option.some.inj (Option.some.inj hfirst)).symm

theorem nodup : (items.map key).Nodup := by
  rw [nodup_iff_getElem?_ne_getElem?]
  intro first snd hlt length same
  rw [length_map] at length
  have hleft := getElem?_eq_getElem (Nat.lt_trans hlt length)
  have hright := getElem?_eq_getElem length
  rw [getElem?_map, getElem?_map, hleft, hright] at same
  exact absurd (inverse.index_unique hleft hright (Option.some.inj same)) (Nat.ne_of_lt hlt)

/-- Changes that keep the keys keep the index. -/
theorem map {change} (hkey : ∀ item, key (change item) = key item) :
  Inverse key (items.map change) indices := by
  intro name idx
  rw [inverse name idx, getElem?_map]
  cases items[idx]? with
  | none => simp
  | some item => simp [hkey]

/-- A new item at the end, under a key that was free. -/
theorem append (fresh : key item ∉ items.map key) : Inverse key (items ++ [item])
    ((indices ++ replicate (key item + 1 - indices.length) none).set (key item)
      (some items.length)) := by
  intro name idx
  have length : key item < (indices ++ replicate (key item + 1 - indices.length) none).length := by
    rw [length_append, length_replicate]
    omega
  have hend : (items ++ [item])[idx]? =
    if idx < items.length then items[idx]?
    else if idx = items.length then some item else none := by
    by_cases hidx : idx < items.length
    · rw [if_pos hidx, getElem?_append_left hidx]
    rw [if_neg hidx, getElem?_append_right (Nat.le_of_not_lt hidx)]
    by_cases same : idx = items.length
    · simp [same]
    · rw [if_neg same]
      exact getElem?_eq_none (by rw [length_singleton]; omega)
  rw [hend]
  by_cases hname : key item = name
  · subst hname
    rw [getElem?_set_self length]
    constructor
    · intro hsome
      cases hsome
      exact ⟨item, by simp, rfl⟩
    rintro ⟨other, hother, hkey⟩
    split at hother
    · exact absurd (hkey ▸ mem_map_of_mem (mem_of_getElem? hother)) fresh
    split at hother
    · rename_i same
      rw [same]
    · cases hother
  · rw [getElem?_set_ne hname]
    have grown : (indices ++ replicate (key item + 1 - indices.length) none)[name]? =
      some (some idx) ↔ indices[name]? = some (some idx) := by
      by_cases inside : name < indices.length
      · rw [getElem?_append_left inside]
      rw [getElem?_append_right (Nat.le_of_not_lt inside),
        getElem?_eq_none (Nat.le_of_not_lt inside), getElem?_replicate]
      split <;> simp
    rw [grown, inverse name idx]
    by_cases hidx : idx < items.length
    · rw [if_pos hidx]
    rw [if_neg hidx, getElem?_eq_none (Nat.le_of_not_lt hidx)]
    constructor
    · rintro ⟨other, hother, -⟩
      cases hother
    rintro ⟨other, hother, hkey⟩
    split at hother
    · cases hother
      exact absurd hkey hname
    · cases hother

end

/-- The last item goes and its key becomes free. -/
theorem of_concat (inverse : Inverse key (items ++ [last]) indices) :
  Inverse key items (indices.set (key last) none) := by
  have hlast : (items ++ [last])[items.length]? = some last := by simp
  have front : ∀ {idx : Nat} {item : Item}, items[idx]? = some item →
    (items ++ [last])[idx]? = some item := fun hitem => by
    rw [List.getElem?_append_left (List.getElem?_eq_some_iff.mp hitem).1, hitem]
  intro name idx
  by_cases hname : key last = name
  · subst hname
    rw [getElem?_set_self (inverse.key_lt (by simp))]
    constructor
    · intro hsome
      cases hsome
    · rintro ⟨item, hitem, hkey⟩
      have same := inverse.index_unique (front hitem) hlast hkey
      exact absurd (List.getElem?_eq_some_iff.mp hitem).1 (same ▸ Nat.lt_irrefl _)
  · rw [List.getElem?_set_ne hname, inverse name idx]
    constructor
    · rintro ⟨item, hitem, hkey⟩
      by_cases hidx : idx < items.length
      · rw [getElem?_append_left hidx] at hitem
        exact ⟨item, hitem, hkey⟩
      · rw [getElem?_append_right (Nat.le_of_not_lt hidx)] at hitem
        rw [mem_singleton.mp (mem_of_getElem? hitem)] at hkey
        exact absurd hkey hname
    · rintro ⟨item, hitem, hkey⟩
      exact ⟨item, front hitem, hkey⟩

include inverse
/-- An item under a free key takes the place of another one. -/
theorem replace (hold : items[index]? = some old) (fresh : key new ∉ items.map key)
  (inside : key new < indices.length) :
  Inverse key (items.set index new) ((indices.set (key old) none).set (key new) (some index)) := by
  have hidx := (List.getElem?_eq_some_iff.mp hold).1
  intro name pos
  by_cases hname : key new = name
  · subst hname
    rw [getElem?_set_self (by rwa [length_set])]
    by_cases hpos : index = pos
    · subst hpos
      simp [getElem?_set_self hidx]
    rw [getElem?_set_ne hpos]
    constructor
    · intro hsome
      exact absurd (Option.some.inj (Option.some.inj hsome)) hpos
    · rintro ⟨item, hitem, hkey⟩
      exact absurd (hkey ▸ mem_map_of_mem (mem_of_getElem? hitem)) fresh
  · rw [getElem?_set_ne hname]
    by_cases gone : key old = name
    · subst gone
      rw [getElem?_set_self (inverse.key_lt (mem_of_getElem? hold))]
      constructor
      · intro hsome
        cases hsome
      rintro ⟨item, hitem, hkey⟩
      by_cases hpos : index = pos
      · subst hpos
        rw [getElem?_set_self hidx] at hitem
        cases hitem
        exact absurd hkey hname
      · rw [getElem?_set_ne hpos] at hitem
        exact absurd (inverse.index_unique hold hitem hkey.symm) hpos
    · rw [getElem?_set_ne gone, inverse name pos]
      by_cases hpos : index = pos
      · subst hpos
        rw [hold, getElem?_set_self hidx]
        simp [gone, hname]
      · rw [getElem?_set_ne hpos]

/-- Swap removal frees the key of the removed item and moves that of the last one. -/
theorem swapRemove (hitem : items[index]? = some item) : Inverse key (Lib.swapRemove items index)
    (match (Lib.swapRemove items index)[index]? with
      | some moved => (indices.set (key item) none).set (key moved) (some index)
      | none => indices.set (key item) none) := by
  have hidx := (List.getElem?_eq_some_iff.mp hitem).1
  rcases List.eq_nil_or_concat' items with rfl | ⟨front, last, rfl⟩
  · cases hitem
  have removed : Lib.swapRemove (front ++ [last]) index =
    ((front ++ [last]).set index last).dropLast := by
    simp [Lib.swapRemove]
  have rest := inverse.of_concat
  by_cases hfront : index < front.length
  · rw [getElem?_append_left hfront] at hitem
    rw [removed, set_append_left _ _ hfront, dropLast_concat, getElem?_set_self hfront]
    have nodup := inverse.nodup
    rw [map_append, map_singleton, nodup_append_comm, singleton_append] at nodup
    have fresh : key last ∉ front.map key := (nodup_cons.mp nodup).1
    have hne : key last ≠ key item := fun same =>
      fresh (same ▸ mem_map_of_mem (mem_of_getElem? hitem))
    have hlast : key last < (indices.set (key last) none).length := by
      rw [length_set]
      exact inverse.key_lt (by simp)
    have replaced := rest.replace hitem fresh hlast
    rw [set_comm _ _ hne, set_set] at replaced
    exact replaced
  · have hend : index = front.length := by
      rw [length_append, length_singleton] at hidx
      omega
    subst hend
    have same : item = last := by simpa using hitem.symm
    subst same
    have shape : Lib.swapRemove (front ++ [item]) front.length = front := by
      rw [removed, set_append_right _ _ (Nat.le_refl _)]
      simp
    rw [shape, getElem?_eq_none (Nat.le_refl _)]
    exact rest

end Inverse
end Smros.Lib
