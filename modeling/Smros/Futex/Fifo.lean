import Smros.Futex.Outcomes

/-!
# The oldest waiters first

The search for the oldest waiter in reused slots, repeated, is a first-in-first-out queue.
-/

namespace Smros.Futex
open Lib List FutexWaiter
namespace FutexQueue
variable {capacity first second nowMonotonic nowRealtime rounds : Nat} (queue : FutexQueue capacity)
theorem countP_published_le (test) : queue.published.countP test ≤ capacity :=
  calc queue.published.countP test ≤ queue.published.length := countP_le_length
    _ ≤ queue.waiters.length := reduceOption_length_le _
    _ = capacity := queue.waiters_length

theorem not_wakeable_woken (address bitset) (waiter : FutexWaiter) :
  wakeable address bitset (waiter.decided .woken) = false := rfl

theorem not_expirable_timedOut (nowMonotonic nowRealtime) (waiter : FutexWaiter) :
  expirable nowMonotonic nowRealtime (waiter.decided .timedOut) = false := rfl

variable {test : FutexWaiter → Bool} {outcome : FutexWaitOutcome}
/-- What `decideOldest` does to the published waiters, and what it reports. -/
theorem decideOldest_takes (unmarked : ∀ waiter, test (decided outcome waiter) = false) (rounds) :
  ∃ taken rest, TakesOldest sequence test queue.published taken rest ∧
    taken.length = min rounds (queue.published.countP test) ∧
    (queue.decideOldest test outcome rounds).1.published.Perm (taken.map (decided outcome) ++ rest) ∧
    (queue.decideOldest test outcome rounds).2 = taken.map identity := by
  obtain ⟨rest, takes, after, count⟩ := markOldest_takes sequence unmarked rounds queue.waiters
  exact ⟨_, rest, takes, count, after, rfl⟩

theorem decideOldest_eq (unmarked : ∀ waiter, test (decided outcome waiter) = false)
  (hfirst : queue.published.countP test ≤ first) (hsnd : queue.published.countP test ≤ second) :
  queue.decideOldest test outcome first = queue.decideOldest test outcome second := by
  have same := markOldest_eq sequence unmarked hfirst hsnd
  simp only [decideOldest, same]

/-- The limit of one round for each slot is none. -/
theorem wake_eq (addr count bitset) : queue.wake addr count bitset =
    queue.decideOldest (wakeable addr bitset) .woken count := by
  unfold wake
  split
  next refused =>
    have none : queue.published.countP (wakeable addr bitset) = 0 ∨ count = 0 := by
      rcases Bool.or_eq_true_iff.mp refused with zero | invalid
      · exact .inr (of_decide_eq_true zero)
      refine .inl (countP_eq_zero.mpr fun waiter _ => ?_)
      simp only [futexBitsetValid, Bool.not_eq_true', bne_eq_false_iff_eq] at invalid
      simp [wakeable, futexBitsetMatches, invalid]
    rcases none with none | rfl
    · exact queue.decideOldest_eq (not_wakeable_woken _ _) (Nat.le_of_eq none)
        (none.trans_le (Nat.zero_le count))
    · rfl
  · rcases Nat.le_total count capacity with small | large
    · rw [Nat.min_eq_left small]
    · have most := queue.countP_published_le (wakeable addr bitset)
      exact queue.decideOldest_eq (not_wakeable_woken _ _) (by omega) (by omega)

/-- `expire_one` called until it finds no waiter, for at most so many calls. -/
def expireEach (nowMonotonic nowRealtime : Nat) :
  Nat → FutexQueue capacity → FutexQueue capacity × List (Nat × Nat)
  | 0, queue => (queue, [])
  | calls + 1, queue =>
    match queue.expireOne nowMonotonic nowRealtime with
    | (queue, none) => (queue, [])
    | (queue, some identity) =>
      let (after, later) := expireEach nowMonotonic nowRealtime calls queue
      (after, identity :: later)

theorem expireEach_eq (nowMonotonic nowRealtime calls) (queue : FutexQueue capacity) :
  expireEach nowMonotonic nowRealtime calls queue =
    queue.decideOldest (expirable nowMonotonic nowRealtime) .timedOut calls := by
  induction calls generalizing queue with
  | zero => rfl
  | succ calls ih =>
    unfold expireEach expireOne decideOldest
    cases oldest : oldestEntry sequence (expirable nowMonotonic nowRealtime) queue.waiters with
    | none =>
      simp only [markOldest_of_none oldest]
      rfl
    | some found =>
      simp only [markOldest_of_some oldest, ih]
      rfl

/--
A wake decides the oldest matching waiters up to its count, wakes add up, the timer decides
exactly the waiters whose deadline is over, at once or one after another, and a waiter that
arrives gets a number above all others.
-/
theorem oldest_waiters_first (queue : FutexQueue capacity) : (∀ address count bitset, ∃ woken rest,
    TakesOldest sequence (wakeable address bitset) queue.published woken rest ∧
    woken.length = min count (queue.published.countP (wakeable address bitset)) ∧
    (queue.wake address count bitset).1.published.Perm (woken.map (decided .woken) ++ rest) ∧
    (queue.wake address count bitset).2 = woken.map identity) ∧
  (∀ address first second bitset, queue.wake address (first + second) bitset =
    (((queue.wake address first bitset).1.wake address second bitset).1,
      (queue.wake address first bitset).2 ++
        ((queue.wake address first bitset).1.wake address second bitset).2)) ∧
  (∀ nowMonotonic nowRealtime, ∃ expired rest,
    TakesOldest sequence (expirable nowMonotonic nowRealtime) queue.published expired
      rest ∧ (∀ waiter ∈ rest, expirable nowMonotonic nowRealtime waiter = false) ∧
    (queue.expire nowMonotonic nowRealtime).1.published.Perm
      (expired.map (decided .timedOut) ++ rest) ∧
    (queue.expire nowMonotonic nowRealtime).2 = expired.map identity ∧
    (∀ calls, expired.length ≤ calls →
      expireEach nowMonotonic nowRealtime calls queue = queue.expire nowMonotonic nowRealtime) ∧
    ((queue.expire nowMonotonic nowRealtime).1.expireOne nowMonotonic nowRealtime).2 = none) ∧
  ∀ calls waiter pushed, (after capacity calls).push waiter = .ok pushed →
    ∃ sequence, pushed.published.Perm ({ waiter with sequence } :: (after capacity calls).published) ∧
      ∀ earlier ∈ (after capacity calls).published, earlier.sequence < sequence := by
  refine ⟨fun address count bitset => ?_, fun address first second bitset => ?_,
    fun nowMonotonic nowRealtime => ?_, fun calls waiter pushed hpush => ?_⟩
  · rw [wake_eq]
    exact queue.decideOldest_takes (not_wakeable_woken _ _) count
  · simp only [wake_eq, decideOldest, markOldest_add, map_append]
    rfl
  · have most := queue.countP_published_le (expirable nowMonotonic nowRealtime)
    obtain ⟨expired, rest, takes, count, perm, reported⟩ :=
      queue.decideOldest_takes (not_expirable_timedOut nowMonotonic nowRealtime) capacity
    rw [Nat.min_eq_right most] at count
    refine ⟨expired, rest, takes, fun waiter hwaiter => ?_, perm, reported, fun calls enough => ?_, ?_⟩
    · have total := takes.split.countP_eq (expirable nowMonotonic nowRealtime)
      rw [countP_append, countP_eq_length.mpr takes.passing] at total
      have none : rest.countP (expirable nowMonotonic nowRealtime) = 0 := by omega
      simpa using countP_eq_zero.mp none waiter hwaiter
    · rw [expireEach_eq]
      exact queue.decideOldest_eq (not_expirable_timedOut _ _) (count ▸ enough) most
    · have none := oldestEntry_markOldest sequence
        (not_expirable_timedOut nowMonotonic nowRealtime) most
      unfold expire expireOne decideOldest
      dsimp only [withWaiters]
      rw [none]
  · obtain ⟨-, -, -, -, -, perm⟩ := push_ok hpush
    exact ⟨_, perm, (sound_after capacity calls).bounded⟩

end FutexQueue
end Smros.Futex
