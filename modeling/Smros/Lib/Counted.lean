import Mathlib.Algebra.Group.Int.Defs
import Mathlib.Algebra.Group.Nat.Defs
import Mathlib.Data.List.Count
import Mathlib.Data.List.Nodup
import Mathlib.Data.List.Perm.Basic

/-!
# Records that count the names given to them

A table of records, each under its own key with a count, against the list of
all the names in use.  The table balances when each count is the number of
times its key is named and the keys are just the names in use, so a record goes
when its last name goes.
-/

namespace Smros.Lib.Counted
open List
variable {Record Key : Type} [DecidableEq Key]
/-- Change the record under a key. -/
def adjust (key : Record → Key) (wanted : Key) (change : Record → Record) (records : List Record) :
    List Record :=
  records.map fun record => if key record = wanted then change record else record

/-- Take the record under a key out. -/
def without (key : Record → Key) (wanted : Key) (records : List Record) : List Record :=
  records.filter fun record => key record ≠ wanted

variable (key count : Record → Nat)
structure Balanced (records : List Record) (names : List Nat) : Prop where
  keys : (records.map key).Nodup
  counts : ∀ record ∈ records, count record = names.count (key record)
  named : ∀ name, name ∈ names ↔ name ∈ records.map key

variable {key count} {records : List Record} {names : List Nat} {wanted other : Nat} {record : Record}
section
variable {change : Record → Record}
theorem map_adjust {Value : Type} {value : Record → Value}
  (same : ∀ rec, value (change rec) = value rec) :
  (adjust key wanted change records).map value = records.map value := by
  unfold adjust
  rw [map_map]
  refine map_congr_left fun rec _ => ?_
  simp only [Function.comp_apply]
  split
  · exact same rec
  · rfl

theorem mem_adjust : record ∈ adjust key wanted change records ↔
    ∃ old ∈ records, record = if key old = wanted then change old else old := by
  simp only [adjust, mem_map, eq_comm]

theorem adjust_eq_self (hnone : ∀ record ∈ records, key record ≠ wanted) :
  adjust key wanted change records = records := by
  refine (map_congr_left fun record hrec => ?_).trans (map_id records)
  rw [if_neg (hnone record hrec), id]

/-- A change that another one takes back. -/
theorem adjust_adjust {back} (hkey : ∀ record, key (change record) = key record)
  (hback : ∀ record, back (change record) = record) :
  adjust key wanted back (adjust key wanted change records) = records := by
  unfold adjust
  rw [map_map]
  refine (map_congr_left fun record _ => ?_).trans (map_id records)
  by_cases same : key record = wanted
  · simp only [Function.comp_apply, if_pos same, hkey, hback, id]
  · simp only [Function.comp_apply, if_neg same, id]

variable (hkey : ∀ record, key (change record) = key record)
include hkey
/-- The record under the changed key is the changed one. -/
theorem find?_adjust_self : (adjust key wanted change records).find? (key · = wanted) =
    (records.find? (key · = wanted)).map change := by
  induction records with
  | nil => rfl
  | cons rec rest ih =>
    by_cases hrec : key rec = wanted
    · simp [adjust, hrec, hkey]
    · simpa [adjust, hrec] using ih

/-- The record under another key is as it was. -/
theorem find?_adjust_ne (hne : other ≠ wanted) :
  (adjust key wanted change records).find? (key · = other) = records.find? (key · = other) := by
  induction records with
  | nil => rfl
  | cons rec rest ih =>
    by_cases hrec : key rec = wanted
    · have hother : key rec ≠ other := fun same => hne (same.symm.trans hrec)
      simpa [adjust, hrec, hkey, hother, Ne.symm hne] using ih
    · by_cases hother : key rec = other
      · simp [adjust, hother, hne]
      · simpa [adjust, hrec, hother] using ih

end

theorem find?_without_ne (hne : other ≠ wanted) :
  (without key wanted records).find? (key · = other) = records.find? (key · = other) := by
  unfold without
  rw [find?_filter]
  congr 1
  funext rec
  by_cases hother : key rec = other
  · simp [hother, hne]
  · simp [hother]

theorem mem_without :
  record ∈ without key wanted records ↔ record ∈ records ∧ key record ≠ wanted := by
  simp [without]

/-- A record that was put at the end under a new key goes again. -/
theorem without_concat (hkey : key record = wanted) (hnew : ∀ other ∈ records, key other ≠ wanted) :
  without key wanted (records ++ [record]) = records := by
  have hold : without key wanted records = records :=
    filter_eq_self.mpr fun other hother => decide_eq_true (hnew other hother)
  unfold without at hold ⊢
  rw [filter_append, hold, filter_singleton, hkey]
  simp

theorem map_key_without (wanted recs) :
  (without key wanted recs).map key = (recs.map key).filter (· ≠ wanted) := by
  rw [without, filter_map]
  rfl

/-- The records around the one under a key. -/
theorem perm_around (nodup : (records.map key).Nodup) (hrec : record ∈ records) :
  ∃ others, records.Perm (record :: others) ∧
    (∀ change, (adjust key (key record) change records).Perm (change record :: others)) ∧
    (without key (key record) records).Perm others := by
  obtain ⟨front, back, rfl⟩ := append_of_mem hrec
  have perm : (front ++ record :: back).Perm (record :: (front ++ back)) := perm_middle
  have hothers := (perm.map key).nodup_iff.mp nodup
  rw [map_cons] at hothers
  have hne : ∀ other ∈ front ++ back, key other ≠ key record := fun other hother same =>
    (nodup_cons.mp hothers).1 (same ▸ mem_map_of_mem hother)
  refine ⟨front ++ back, perm, fun change => ?_, ?_⟩
  · have changed := perm.map fun other => if key other = key record then change other else other
    rw [map_cons, if_pos rfl] at changed
    have same : adjust key (key record) change (front ++ back) = front ++ back := adjust_eq_self hne
    unfold adjust at same
    rw [same] at changed
    exact changed
  · have kept := perm.filter fun other => key other ≠ key record
    rw [filter_cons_of_neg (by simp)] at kept
    refine kept.trans (Perm.of_eq (filter_eq_self.mpr fun other hother => ?_))
    exact decide_eq_true (hne other hother)

namespace Balanced
theorem perm {others same} (balanced : Balanced key count records names)
  (hrecords : records.Perm others) (hnames : names.Perm same) : Balanced key count others same where
  keys := (hrecords.map key).nodup_iff.mp balanced.keys
  counts rec hrecord := by
    rw [balanced.counts rec (hrecords.mem_iff.mpr hrecord), hnames.count_eq]
  named name := by rw [← hnames.mem_iff, balanced.named, (hrecords.map key).mem_iff]

theorem exists_record (balanced : Balanced key count records names) (name : wanted ∈ names) :
  ∃ record ∈ records, key record = wanted :=
  mem_map.mp ((balanced.named wanted).mp name)

variable {changed : Record} {others : List Record}

section
variable (balanced : Balanced key count (record :: others) names)
include balanced
theorem key_ne {other} (hother : other ∈ others) : key other ≠ key record := fun same =>
  (nodup_cons.mp balanced.keys).1 (same ▸ mem_map_of_mem hother)

/-- Naming a record once more. -/
theorem acquire (hkey : key changed = key record) (hcount : count changed = count record + 1) :
  Balanced key count (changed :: others) (key record :: names) where
  keys := by
    rw [map_cons, hkey]
    exact balanced.keys
  counts other hother := by
    rcases mem_cons.mp hother with rfl | rest
    · rw [hcount, hkey, balanced.counts record (mem_cons_self ..), count_cons_self]
    · rw [balanced.counts other (mem_cons_of_mem _ rest),
        count_cons_of_ne (Ne.symm (balanced.key_ne rest))]
  named name := by
    rw [mem_cons, balanced.named, map_cons, map_cons, hkey, mem_cons]
    exact or_iff_right_of_imp Or.inl

end

section
variable (balanced : Balanced key count (record :: others) (key record :: names))
include balanced
/-- Dropping a name that is not the last one. -/
theorem release (more : key record ∈ names) (hkey : key changed = key record)
  (hcount : count changed = count record - 1) : Balanced key count (changed :: others) names where
  keys := by
    rw [map_cons, hkey]
    exact balanced.keys
  counts other hother := by
    rcases mem_cons.mp hother with rfl | rest
    · rw [hcount, hkey, balanced.counts record (mem_cons_self ..), count_cons_self,
        Nat.add_sub_cancel]
    · rw [balanced.counts other (mem_cons_of_mem _ rest),
        count_cons_of_ne (Ne.symm (balanced.key_ne rest))]
  named name := by
    rw [map_cons, hkey, ← map_cons, ← balanced.named, mem_cons]
    exact (or_iff_right_of_imp fun same => same ▸ more).symm

/-- Dropping the last name takes the record out. -/
theorem release_last (last : key record ∉ names) : Balanced key count others names where
  keys := (nodup_cons.mp balanced.keys).2
  counts other hother := by
    rw [balanced.counts other (mem_cons_of_mem _ hother),
      count_cons_of_ne (Ne.symm (balanced.key_ne hother))]
  named name := by
    have hnamed := balanced.named name
    rw [mem_cons, map_cons, mem_cons] at hnamed
    constructor
    · intro hname
      rcases hnamed.mp (Or.inr hname) with same | rest
      · exact absurd (same ▸ hname) last
      · exact rest
    · intro rest
      rcases hnamed.mpr (Or.inr rest) with same | hname
      · exact absurd (same ▸ rest) (nodup_cons.mp balanced.keys).1
      · exact hname

end

/-- A new record under a fresh key, named once. -/
theorem create (balanced : Balanced key count others names) (fresh : key record ∉ others.map key)
  (hone : count record = 1) : Balanced key count (record :: others) (key record :: names) where
  keys := nodup_cons.mpr ⟨fresh, balanced.keys⟩
  counts other hother := by
    rcases mem_cons.mp hother with rfl | rest
    · rw [hone, count_cons_self, count_eq_zero.mpr (mt (balanced.named _).mp fresh)]
    · have hne : key other ≠ key record := fun same => fresh (same ▸ mem_map_of_mem rest)
      rw [balanced.counts other rest, count_cons_of_ne (Ne.symm hne)]
  named name := by rw [mem_cons, balanced.named, map_cons, mem_cons]

end Balanced
end Smros.Lib.Counted
