import Mathlib.Data.List.MinMax
import Mathlib.Data.List.Range
import Smros.Lib.Slots

/-!
# Searching and deciding slots

Waiters stand in the slots of a fixed array and carry the number of their arrival.
Searches go through the slots from the front; the search for the oldest waiter keeps
the smallest number seen so far.  What an operation does to the array is said of its
contents, up to order.
-/

namespace Smros.Lib
open List Option
variable {α : Type}

/-! ## Numbers of arrival -/

/-- The last of the 64-bit numbers is handed out once; then the numbers are exhausted. -/
def countNumber (next : Nat) (exhausted : Bool) : Nat × Bool :=
  if next + 1 < 2 ^ 64 then (next + 1, exhausted) else (next, true)

/-- One more number has been handed out. -/
theorem countNumber_sum {next exhausted} (more : exhausted = false) :
    (countNumber next exhausted).1 + (countNumber next exhausted).2.toNat =
      next + exhausted.toNat + 1 := by
  unfold countNumber
  split <;> simp [more]

/-! ## The later record of a wait -/

section
variable {Outcome : Type} {outcome : α → Outcome} {decided : Outcome → α → α} {waiting : Outcome}
  {earlier later : α}

variable (outcome decided waiting) in
/-- The later record of the same wait: unchanged, or decided in the meantime. -/
def Continues (earlier later : α) : Prop :=
  later = earlier ∨ outcome earlier = waiting ∧ ∃ result ≠ waiting, later = decided result earlier

namespace Continues
/-- What no decision changes stays. -/
theorem value_eq {Value : Type} {value : α → Value}
    (continues : Continues outcome decided waiting earlier later)
    (hvalue : ∀ waiter result, value (decided result waiter) = value waiter) :
    value later = value earlier := by
  rcases continues with rfl | ⟨-, result, -, rfl⟩
  · rfl
  · exact hvalue earlier result

/-- A decided waiter keeps its outcome. -/
theorem eq_of_decided (continues : Continues outcome decided waiting earlier later)
    (hdecided : outcome earlier ≠ waiting) : later = earlier :=
  continues.resolve_right fun still => hdecided still.1

theorem trans {third} (houtcome : ∀ waiter result, outcome (decided result waiter) = result)
    (hfirst : Continues outcome decided waiting earlier later)
    (hsecond : Continues outcome decided waiting later third) :
    Continues outcome decided waiting earlier third := by
  rcases hfirst with rfl | ⟨waits, result, hresult, rfl⟩
  · exact hsecond
  · rw [hsecond.eq_of_decided (by rwa [houtcome])]
    exact .inr ⟨waits, result, hresult, rfl⟩

end Continues
end

/-! ## Changing one slot -/

variable {slots : List (Option α)} {idx : Nat}
/-- The contents around a slot: whatever is put into the slot joins the rest. -/
theorem reduceOption_around {content} (hslot : slots[idx]? = some content) :
  ∃ others, slots.reduceOption.Perm (content.toList ++ others) ∧
    ∀ slot, (slots.set idx slot).reduceOption.Perm (slot.toList ++ others) := by
  obtain ⟨hlt, hget⟩ := List.getElem?_eq_some_iff.mp hslot
  have around : ∀ slot, (slots.set idx slot).reduceOption.Perm
    (slot.toList ++ ((slots.take idx).reduceOption ++ (slots.drop (idx + 1)).reduceOption)) := by
    intro slot
    rw [set_eq_take_append_cons_drop, if_pos hlt, reduceOption_append]
    cases slot with
    | none =>
      rw [reduceOption_cons_of_none]
      exact .rfl
    | some entry =>
      rw [reduceOption_cons_of_some]
      exact perm_middle
  refine ⟨_, ?_, around⟩
  have hcontent := around content
  rwa [← hget, set_getElem_self, hget] at hcontent

variable {entry : α}
theorem reduceOption_set (hslot : slots[idx]? = some (some entry)) :
  ∃ others, slots.reduceOption.Perm (entry :: others) ∧
    ∀ slot, (slots.set idx slot).reduceOption.Perm (slot.toList ++ others) :=
  reduceOption_around hslot

/-- Emptying every slot whose entry fails a test filters the contents. -/
theorem reduceOption_map_filter (test) (slots : List (Option α)) :
  (slots.map fun slot => slot.filter test).reduceOption = slots.reduceOption.filter test := by
  induction slots with
  | nil => rfl
  | cons slot rest ih =>
    cases slot with
    | none => simpa using ih
    | some entry =>
      by_cases passes : test entry = true
      · simp [filter_some, passes, ih]
      · simp [filter_some, passes, ih]

/-! ## The first slot that passes a test -/

/-- The slot's entry, if it passes the test. -/
def passing (test : α → Bool) (slot : Option α × Nat) : Option (Nat × α) :=
  (slot.1.filter test).map fun entry => (slot.2, entry)

/-- The first entry that passes the test, with its slot. -/
def firstEntry (test : α → Bool) (slots : List (Option α)) : Option (Nat × α) :=
  slots.zipIdx.findSome? (passing test)

variable {test : α → Bool}
theorem firstEntry_some (hfirst : firstEntry test slots = some (idx, entry)) :
  slots[idx]? = some (some entry) ∧ test entry = true := by
  obtain ⟨⟨slot, pos⟩, hmem, passing⟩ := exists_of_findSome?_eq_some hfirst
  obtain ⟨content, hcontent, pair⟩ := map_eq_some_iff.mp passing
  obtain ⟨rfl, htest⟩ := filter_eq_some_iff.mp hcontent
  cases pair
  exact ⟨mk_mem_zipIdx_iff_getElem?.mp hmem, htest⟩

theorem firstEntry_eq_none :
  firstEntry test slots = none ↔ ∀ entry ∈ slots.reduceOption, test entry = false := by
  unfold firstEntry
  rw [findSome?_eq_none_iff]
  refine ⟨fun hall entry hentry => ?_, fun hall pair hpair => ?_⟩
  · obtain ⟨idx, hlt, hget⟩ := mem_iff_getElem.mp (reduceOption_mem_iff.mp hentry)
    have hpair : (some entry, idx) ∈ slots.zipIdx :=
      mk_mem_zipIdx_iff_getElem?.mpr (by rw [getElem?_eq_getElem hlt, hget])
    have hnone := hall _ hpair
    simpa [passing] using hnone
  · obtain ⟨slot, idx⟩ := pair
    cases slot with
    | none => rfl
    | some entry =>
      have hslot := mk_mem_zipIdx_iff_getElem?.mp hpair
      have fails := hall entry (reduceOption_mem_iff.mpr (mem_of_getElem? hslot))
      simp [passing, fails]

/-! ## The least entry -/

section
variable {β κ : Type} [LinearOrder κ] {least : α}
/-- Where the minimum stands: what comes before it is greater, nothing is less. -/
theorem argmin_split {key : α → κ} {entries : List α} (hleast : entries.argmin key = some least) :
  ∃ front back, entries = front ++ least :: back ∧ (∀ entry ∈ front, key least < key entry) ∧
    ∀ entry ∈ back, key least ≤ key entry := by
  induction entries with
  | nil => cases hleast
  | cons first rest ih =>
    rw [argmin_cons] at hleast
    cases hrest : rest.argmin key with
    | none =>
      rw [hrest] at hleast
      cases hleast
      rw [argmin_eq_none.mp hrest]
      exact ⟨[], [], rfl, by simp, by simp⟩
    | some other =>
      simp only [hrest] at hleast
      split at hleast
      · rename_i less
        cases hleast
        obtain ⟨front, back, rfl, hfront, hback⟩ := ih hrest
        refine ⟨first :: front, back, rfl, fun entry hentry => ?_, hback⟩
        rcases mem_cons.mp hentry with rfl | hentry
        · exact less
        · exact hfront entry hentry
      · rename_i less
        cases hleast
        refine ⟨[], rest, rfl, by simp, fun entry hentry => ?_⟩
        exact (not_lt.mp less).trans (le_of_mem_argmin hentry hrest)

/-- What is picked from the places of a list, with the place. -/
def candidates (pick : β → Option α) (places : List β) : List (Nat × α) :=
  places.zipIdx.filterMap fun place => (pick place.1).map (place.2, ·)

/-- The least of what is picked, with its place; the first one where several are least. -/
def leastEntry (key : α → κ) (pick : β → Option α) (places : List β) : Option (Nat × α) :=
  (candidates pick places).argmin fun candidate => key candidate.2

variable {key : α → κ} {pick : β → Option α} {places : List β}
theorem mem_candidates : (idx, entry) ∈ candidates pick places ↔
    ∃ place, places[idx]? = some place ∧ pick place = some entry := by
  unfold candidates
  rw [mem_filterMap]
  refine ⟨fun ⟨⟨place, pos⟩, hmem, hpick⟩ => ?_, fun ⟨place, hplace, hpick⟩ => ?_⟩
  · obtain ⟨found, hfound, pair⟩ := map_eq_some_iff.mp hpick
    cases pair
    exact ⟨place, mk_mem_zipIdx_iff_getElem?.mp hmem, hfound⟩
  · exact ⟨(place, idx), mk_mem_zipIdx_iff_getElem?.mpr hplace, by rw [hpick]; rfl⟩

theorem candidates_pairwise :
  (candidates pick places).Pairwise fun first second => first.1 < second.1 := by
  unfold candidates
  rw [pairwise_filterMap]
  have indices : places.zipIdx.Pairwise fun first second => first.2 < second.2 := by
    rw [← pairwise_map (f := Prod.snd) (R := (· < ·)), zipIdx_map_snd]
    exact pairwise_lt_range' _
  refine indices.imp fun less found hfound other hother => ?_
  obtain ⟨_, -, rfl⟩ := map_eq_some_iff.mp hfound
  obtain ⟨_, -, rfl⟩ := map_eq_some_iff.mp hother
  exact less

theorem leastEntry_eq_none :
  leastEntry key pick places = none ↔ ∀ place ∈ places, pick place = none := by
  unfold leastEntry
  rw [argmin_eq_none]
  refine ⟨fun hnil place hplace => ?_, fun hnone => ?_⟩
  · obtain ⟨idx, hlt, rfl⟩ := mem_iff_getElem.mp hplace
    cases hpick : pick places[idx] with
    | none => rfl
    | some entry =>
      have hmem := mem_candidates.mpr ⟨_, getElem?_eq_getElem hlt, hpick⟩
      rw [hnil] at hmem
      cases hmem
  · refine eq_nil_iff_forall_not_mem.mpr fun ⟨idx, entry⟩ hmem => ?_
    obtain ⟨place, hplace, hpick⟩ := mem_candidates.mp hmem
    rw [hnone place (mem_of_getElem? hplace)] at hpick
    cases hpick

theorem leastEntry_some (least : leastEntry key pick places = some (idx, entry)) :
  (∃ place, places[idx]? = some place ∧ pick place = some entry) ∧
    ∀ {position : Nat} {place : β} {other : α}, places[position]? = some place → pick place =
      some other → key entry ≤ key other ∧ (position < idx → key entry < key other) := by
  refine ⟨mem_candidates.mp (argmin_mem least), fun hplace hpick => ?_⟩
  have hmem := mem_candidates.mpr ⟨_, hplace, hpick⟩
  have hle := le_of_mem_argmin (f := fun cand => key cand.2) hmem least
  refine ⟨hle, fun before => ?_⟩
  obtain ⟨front, back, hsplit, hfront, -⟩ := argmin_split least
  have sorted : (candidates pick places).Pairwise _ := candidates_pairwise
  rw [hsplit] at hmem sorted
  rcases mem_append.mp hmem with early | late
  · exact hfront _ early
  rcases mem_cons.mp late with same | late
  · cases same
    exact absurd before (lt_irrefl _)
  · have after := (pairwise_cons.mp (pairwise_append.mp sorted).2.1).1 _ late
    exact absurd (before.trans after) (lt_irrefl _)

end

/-! ## The oldest entry -/

section

/-- The slot of the oldest entry that passes the test. -/
def oldestEntry (sequence : α → Nat) (test : α → Bool) (slots : List (Option α)) :
  Option (Nat × α) :=
  leastEntry sequence (Option.filter test) slots

variable {sequence : α → Nat}
theorem oldestEntry_none (oldest : oldestEntry sequence test slots = none) :
  ∀ entry ∈ slots.reduceOption, test entry = false := by
  intro entry hentry
  have hnone := leastEntry_eq_none.mp oldest _ (reduceOption_mem_iff.mp hentry)
  simpa using hnone

theorem oldestEntry_some (oldest : oldestEntry sequence test slots = some (idx, entry)) :
  slots[idx]? = some (some entry) ∧ test entry = true ∧
    ∀ other ∈ slots.reduceOption, test other = true → sequence entry ≤ sequence other := by
  obtain ⟨⟨slot, hslot, pick⟩, least⟩ := leastEntry_some oldest
  obtain ⟨rfl, htest⟩ := filter_eq_some_iff.mp pick
  refine ⟨hslot, htest, fun other hother passes => ?_⟩
  obtain ⟨pos, hlt, hget⟩ := mem_iff_getElem.mp (reduceOption_mem_iff.mp hother)
  have place : slots[pos]? = some (some other) := by rw [getElem?_eq_getElem hlt, hget]
  exact (least place (filter_eq_some_iff.mpr ⟨rfl, passes⟩)).1

end

/-! ## Deciding several entries, oldest first -/

variable (sequence : α → Nat) (test : α → Bool) (mark : α → α)
/-- Mark the oldest passing entry up to `rounds` times; the entries marked, in order. -/
def markOldest : Nat → List (Option α) → List (Option α) × List α
  | 0, slots => (slots, [])
  | rounds + 1, slots =>
    match oldestEntry sequence test slots with
    | none => (slots, [])
    | some (index, entry) =>
      let (after, marked) := markOldest rounds (slots.set index (some (mark entry)))
      (after, entry :: marked)

variable {sequence test mark}
/-- What holds of no marking and is kept when one more entry is marked first. -/
theorem markOldest_induction {motive : List (Option α) → List (Option α) → List α → Prop}
  (none : ∀ slots, motive slots slots [])
  (one : ∀ {slots after : List (Option α)} {marked : List α} {idx : Nat} {entry : α},
    slots[idx]? = some (some entry) → test entry = true →
    motive (slots.set idx (some (mark entry))) after marked →
    motive slots after (entry :: marked)) (rounds slots) :
  motive slots (markOldest sequence test mark rounds slots).1
    (markOldest sequence test mark rounds slots).2 := by
  induction rounds generalizing slots with
  | zero => exact none slots
  | succ rounds ih =>
    unfold markOldest
    cases oldest : oldestEntry sequence test slots with
    | none => exact none slots
    | some best =>
      obtain ⟨slot, htest, -⟩ := oldestEntry_some oldest
      exact one slot htest (ih _)

@[simp] theorem markOldest_length (rounds slots) :
  (markOldest sequence test mark rounds slots).1.length = slots.length := by
  refine markOldest_induction (motive := fun before after _ => after.length = before.length)
    (fun _ => rfl) ?_ rounds slots
  intro slots after marked idx entry _ _ length
  rw [length, length_set]

variable {rounds first second : Nat}
/-- Only entries that pass the test are marked. -/
theorem markOldest_passing (hmem : entry ∈ (markOldest sequence test mark rounds slots).2) :
  test entry = true := by
  refine markOldest_induction
    (motive := fun _ _ marked => ∀ entry ∈ marked, test entry = true) (by simp) ?_ rounds slots entry hmem
  intro slots after marked idx first _ passes rest entry hentry
  rcases mem_cons.mp hentry with rfl | later
  · exact passes
  · exact rest entry later

/-- `taken` are passing entries in order of age, and no younger than the passing ones left. -/
structure TakesOldest (sequence : α → Nat) (test : α → Bool) (entries taken rest : List α) :
  Prop where
  split : entries.Perm (taken ++ rest)
  passing : ∀ entry ∈ taken, test entry = true
  ordered : taken.Pairwise fun first second => sequence first ≤ sequence second
  oldest : ∀ first ∈ taken, ∀ second ∈ rest, test second = true → sequence first ≤ sequence second

theorem markOldest_of_none (oldest : oldestEntry sequence test slots = none) (rounds) :
  markOldest sequence test mark rounds slots = (slots, []) := by
  cases rounds with
  | zero => rfl
  | succ rounds => rw [markOldest, oldest]

theorem markOldest_of_some (oldest : oldestEntry sequence test slots = some (idx, entry)) (rounds) :
  markOldest sequence test mark (rounds + 1) slots =
    ((markOldest sequence test mark rounds (slots.set idx (some (mark entry)))).1,
      entry :: (markOldest sequence test mark rounds (slots.set idx (some (mark entry)))).2) := by
  rw [markOldest, oldest]

/-- Marking goes on where it stopped. -/
theorem markOldest_add (first snd slots) : markOldest sequence test mark (first + snd) slots =
    ((markOldest sequence test mark snd (markOldest sequence test mark first slots).1).1,
      (markOldest sequence test mark first slots).2 ++
        (markOldest sequence test mark snd (markOldest sequence test mark first slots).1).2) := by
  induction first generalizing slots with
  | zero => rw [Nat.zero_add, markOldest, nil_append]
  | succ first ih =>
    cases oldest : oldestEntry sequence test slots with
    | none => simp only [markOldest_of_none oldest, nil_append]
    | some found =>
      rw [Nat.succ_add, markOldest_of_some oldest, markOldest_of_some oldest, ih, cons_append]

variable (sequence) (unmarked : ∀ entry, test (mark entry) = false)
include unmarked
theorem markOldest_takes (rounds slots) : ∃ rest, TakesOldest sequence test slots.reduceOption
      (markOldest sequence test mark rounds slots).2 rest ∧
    (markOldest sequence test mark rounds slots).1.reduceOption.Perm
      ((markOldest sequence test mark rounds slots).2.map mark ++ rest) ∧
    (markOldest sequence test mark rounds slots).2.length =
      min rounds (slots.reduceOption.countP test) := by
  induction rounds generalizing slots with
  | zero => exact ⟨_, ⟨.rfl, by simp [markOldest], .nil, by simp [markOldest]⟩, .rfl, by simp [markOldest]⟩
  | succ rounds ih =>
    cases oldest : oldestEntry sequence test slots with
    | none =>
      have hnone := oldestEntry_none oldest
      rw [markOldest_of_none oldest]
      refine ⟨_, ⟨.rfl, by simp, .nil, by simp⟩, .rfl, ?_⟩
      rw [countP_eq_zero.mpr (by simpa using hnone), Nat.min_zero, length_nil]
    | some found =>
      obtain ⟨idx, entry⟩ := found
      obtain ⟨slot, passes, least⟩ := oldestEntry_some oldest
      obtain ⟨others, before, after⟩ := reduceOption_set slot
      obtain ⟨rest, ⟨split, passing, ordered, older⟩, marked, count⟩ :=
        ih (slots.set idx (some (mark entry)))
      rw [markOldest_of_some oldest]
      dsimp only
      have perm := (after (some (mark entry))).symm.trans split
      -- the entry just marked no longer passes, so it is among those left
      have left : mark entry ∈ rest := by
        rcases mem_append.mp (perm.mem_iff.mp mem_cons_self) with taken | left
        · exact absurd (passing _ taken) (by simp [unmarked])
        · exact left
      obtain ⟨rest, hrest⟩ : ∃ others, rest.Perm (mark entry :: others) := by
        classical exact ⟨_, perm_cons_erase left⟩
      have perm : others.Perm (_ ++ rest) :=
        ((perm.trans (hrest.append_left _)).trans perm_middle).cons_inv
      have least : ∀ other ∈ others, test other = true → sequence entry ≤ sequence other :=
        fun other hother => least other (before.mem_iff.mpr (mem_cons_of_mem _ hother))
      refine ⟨rest, ⟨before.trans (perm.cons entry), ?_, ?_, ?_⟩, ?_, ?_⟩
      · exact forall_mem_cons.mpr ⟨passes, passing⟩
      · exact pairwise_cons.mpr ⟨fun other hother =>
          least other (perm.mem_iff.mpr (mem_append_left _ hother)) (passing other hother), ordered⟩
      · intro first hfirst snd hsnd test
        rcases mem_cons.mp hfirst with rfl | later
        · exact least snd (perm.mem_iff.mpr (mem_append_right _ hsnd)) test
        · exact older first later snd (hrest.mem_iff.mpr (mem_cons_of_mem _ hsnd)) test
      · exact (marked.trans (hrest.append_left _)).trans perm_middle
      · rw [length_cons, count, (after (some (mark entry))).countP_eq, before.countP_eq,
          toList_some, singleton_append, countP_cons_of_neg (by simp [unmarked]),
          countP_cons_of_pos passes]
        omega

/-- With a round for each passing entry none is left. -/
theorem oldestEntry_markOldest (enough : slots.reduceOption.countP test ≤ rounds) :
  oldestEntry sequence test (markOldest sequence test mark rounds slots).1 = none := by
  obtain ⟨rest, takes, after, count⟩ := markOldest_takes sequence unmarked rounds slots
  have none : rest.countP test = 0 := by
    have total := takes.split.countP_eq test
    rw [countP_append, countP_eq_length.mpr takes.passing] at total
    omega
  cases oldest : oldestEntry sequence test (markOldest sequence test mark rounds slots).1 with
  | none => rfl
  | some found =>
    obtain ⟨slot, passes, -⟩ := oldestEntry_some oldest
    have hmem := after.mem_iff.mp (reduceOption_mem_iff.mpr (mem_of_getElem? slot))
    rcases mem_append.mp hmem with marked | left
    · obtain ⟨entry, -, same⟩ := mem_map.mp marked
      rw [← same, unmarked] at passes
      cases passes
    · exact absurd passes (countP_eq_zero.mp none _ left)

/-- With a round for each passing entry, all of them are marked and no other. -/
theorem markOldest_all (enough : slots.reduceOption.countP test ≤ rounds) :
    (markOldest sequence test mark rounds slots).1 =
      slots.map (Option.map fun entry => if test entry then mark entry else entry) ∧
    (markOldest sequence test mark rounds slots).2.Perm (slots.reduceOption.filter test) := by
  have stops := oldestEntry_none (oldestEntry_markOldest sequence unmarked enough)
  refine ⟨?_, ?_⟩
  · -- marking changes nothing that a later marking would not change
    have same : (markOldest sequence test mark rounds slots).1.map
        (Option.map fun entry => if test entry then mark entry else entry) =
        slots.map (Option.map fun entry => if test entry then mark entry else entry) := by
      refine markOldest_induction (motive := fun before after _ =>
        after.map (Option.map fun entry => if test entry then mark entry else entry) =
          before.map (Option.map fun entry => if test entry then mark entry else entry))
        (fun _ => rfl) ?_ rounds slots
      intro slots after marked idx entry slot passes rest
      rw [rest, map_set, Option.map_some, if_neg (by simp [unmarked])]
      refine ext_getElem? fun pos => ?_
      rw [getElem?_set]
      split
      · rename_i hpos
        obtain ⟨hlt, hget⟩ := List.getElem?_eq_some_iff.mp slot
        simp [← hpos, hget, passes, hlt]
      · rfl
    rw [← same]
    refine ((map_congr_left fun slot hslot => ?_).trans (map_id _)).symm
    cases slot with
    | none => rfl
    | some entry => simp [stops entry (reduceOption_mem_iff.mpr hslot)]
  · obtain ⟨rest, takes, after, -⟩ := markOldest_takes sequence unmarked rounds slots
    have left : rest.filter test = [] := filter_eq_nil_iff.mpr fun entry hentry => by
      simp [stops entry (after.mem_iff.mpr (mem_append_right _ hentry))]
    have perm := takes.split.filter test
    rw [filter_append, left, append_nil, filter_eq_self.mpr takes.passing] at perm
    exact perm.symm

/-- More rounds than there are passing entries change nothing. -/
theorem markOldest_eq (henough : slots.reduceOption.countP test ≤ first)
  (hsnd : slots.reduceOption.countP test ≤ second) :
  markOldest sequence test mark first slots = markOldest sequence test mark second slots := by
  have stops : ∀ {rounds more}, slots.reduceOption.countP test ≤ rounds →
    markOldest sequence test mark (rounds + more) slots =
      markOldest sequence test mark rounds slots := by
    intro rounds more enough
    rw [markOldest_add, markOldest_of_none (oldestEntry_markOldest sequence unmarked enough), append_nil]
  rcases Nat.le_total first second with order | order
  · obtain ⟨more, rfl⟩ := Nat.exists_eq_add_of_le order
    exact (stops henough).symm
  · obtain ⟨more, rfl⟩ := Nat.exists_eq_add_of_le order
    exact stops hsnd

end Smros.Lib
