import Mathlib.Data.List.Sort
import Mathlib.Order.Basic

/-!
# Lists of records in the order of their keys

A list whose keys ascend has at most one record for a key, so looking a key up is a function
of the key, and so are the changes of `Lib.Counted`.
-/

namespace Smros.Lib.Keyed
variable {Record Key : Type} [LinearOrder Key] (key : Record → Key)
/-- The keys ascend; in particular no key occurs twice. -/
def Ascending (records : List Record) : Prop :=
  records.Pairwise fun first second => key first < key second

instance (records : List Record) : Decidable (Ascending key records) :=
  inferInstanceAs (Decidable (records.Pairwise _))

/-- The record with a key. -/
def find (wanted : Key) (records : List Record) : Option Record :=
  records.find? fun record => key record = wanted

/-- Put a record where its key belongs. -/
def put (record : Record) (records : List Record) : List Record :=
  records.orderedInsert (fun first second => key first ≤ key second) record

end Smros.Lib.Keyed
