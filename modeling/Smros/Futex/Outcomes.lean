import Mathlib.Algebra.Ring.Nat
import Mathlib.Data.List.Nodup
import Mathlib.Data.Nat.Basic
import Mathlib.Order.Basic
import Smros.Futex.Queue

/-!
# One outcome for every futex wait

What a call does to the published waiters is one of three things: a new waiter is
published, some waiters that wait are decided, or some waiters leave.  The laws of the
queue over whole histories follow from that.
-/

namespace Smros.Futex
open Lib List FutexWaiter

/-! ## What a call does to the waiters -/

/-- Waiters that wait are decided one after another. -/
inductive Decides (outcome : FutexWaitOutcome) :
  List FutexWaiter → List FutexWaiter → List FutexWaiter → Prop
  | none {before after : List FutexWaiter} (hperm : before.Perm after) :
      Decides outcome [] before after
  | one {waiter : FutexWaiter} {before others after marked : List FutexWaiter}
      (hperm : before.Perm (waiter :: others)) (hwaiting : waiter.outcome = .waiting)
      (hrest : Decides outcome marked (waiter.decided outcome :: others) after) :
      Decides outcome (waiter :: marked) before after

variable {waiter later first second : FutexWaiter} {outcome : FutexWaitOutcome}
  {before marked : List FutexWaiter}
namespace Decides
variable {after other : List FutexWaiter}
theorem of_perm (decides : Decides outcome marked before after) (perm : before.Perm other) :
  Decides outcome marked other after := by
  cases decides with
  | none same => exact .none (perm.symm.trans same)
  | one hfirst waiting rest => exact .one (perm.symm.trans hfirst) waiting rest

/-- A value that no decision changes is the same for all waiters. -/
theorem map_perm {Value : Type} {value : FutexWaiter → Value}
  (hvalue : ∀ waiter, value (waiter.decided outcome) = value waiter)
  (decides : Decides outcome marked before after) : (after.map value).Perm (before.map value) := by
  induction decides with
  | none perm => exact (perm.map value).symm
  | @one waiter before others after marked perm waiting rest ih =>
    refine ih.trans ?_
    rw [map_cons, hvalue, ← map_cons]
    exact (perm.map value).symm

/-- A waiter that has its outcome keeps it. -/
theorem mem_of_decided (decides : Decides outcome marked before after) (hmem : waiter ∈ before)
  (decided : waiter.outcome ≠ .waiting) : waiter ∈ after := by
  induction decides with
  | none perm => exact perm.mem_iff.mp hmem
  | @one first before others after marked perm waiting rest ih =>
    rcases mem_cons.mp (perm.mem_iff.mp hmem) with rfl | other
    · exact absurd waiting decided
    · exact ih (mem_cons_of_mem _ other)

end Decides

abbrev Continues := Lib.Continues FutexWaiter.outcome FutexWaiter.decided .waiting

namespace Continues
variable {earlier : FutexWaiter}
theorem sequence_eq (continues : Continues earlier later) : later.sequence = earlier.sequence :=
  continues.value_eq fun _ _ => rfl

theorem trans {third} : Continues first second → Continues second third → Continues first third :=
  Lib.Continues.trans fun _ _ => rfl

end Continues

theorem Decides.continues {after} (houtcome : outcome ≠ .waiting)
  (decides : Decides outcome marked before after) (hmem : later ∈ after) :
  ∃ earlier ∈ before, Continues earlier later := by
  induction decides with
  | none perm => exact ⟨later, perm.mem_iff.mpr hmem, .inl rfl⟩
  | @one waiter before others after marked perm waiting rest ih =>
    obtain ⟨earlier, hearlier, continues⟩ := ih hmem
    rcases mem_cons.mp hearlier with rfl | other
    · exact ⟨waiter, perm.mem_iff.mpr mem_cons_self,
        .trans (.inr ⟨waiting, outcome, houtcome, rfl⟩) continues⟩
    · exact ⟨earlier, perm.mem_iff.mpr (mem_cons_of_mem _ other), continues⟩

/-! ## Woken outcomes -/

/-- The waiter waits before and is woken after. -/
def becomesWoken (after : List FutexWaiter) (waiter : FutexWaiter) : Bool :=
  waiter.outcome == .waiting && after.contains (waiter.decided .woken)

theorem becomesWoken_iff {after} : becomesWoken after waiter = true ↔
    waiter.outcome = .waiting ∧ waiter.decided .woken ∈ after := by
  simp [becomesWoken]

/-- Where every woken waiter was woken before, nobody becomes woken. -/
theorem countP_becomesWoken_eq_zero {after} (sequences : (before.map sequence).Nodup)
  (hold : ∀ waiter ∈ after, waiter.outcome = .woken → waiter ∈ before) :
  before.countP (becomesWoken after) = 0 := by
  refine countP_eq_zero.mpr fun waiter hmem becomes => ?_
  obtain ⟨waiting, hafter⟩ := becomesWoken_iff.mp becomes
  have hbefore := hold _ hafter rfl
  have same : waiter = waiter.decided .woken := inj_on_of_nodup_map sequences hmem hbefore rfl
  rw [same] at waiting
  cases waiting

theorem Decides.countP_becomesWoken {after} (sequences : (before.map sequence).Nodup)
  (decides : Decides .woken marked before after) :
  before.countP (becomesWoken after) = marked.length := by
  induction decides with
  | none perm =>
    exact countP_becomesWoken_eq_zero sequences fun waiter hmem _ => perm.mem_iff.mpr hmem
  | @one waiter before others after marked perm waiting rest ih =>
    have hafter : waiter.decided .woken ∈ after := rest.mem_of_decided mem_cons_self nofun
    have hfirst : becomesWoken after waiter = true := becomesWoken_iff.mpr ⟨waiting, hafter⟩
    have decided : ¬ becomesWoken after (waiter.decided .woken) = true := fun again =>
      FutexWaitOutcome.noConfusion (becomesWoken_iff.mp again).1
    have hothers := ih ((perm.map sequence).nodup_iff.mp sequences)
    rw [countP_cons_of_neg decided] at hothers
    rw [perm.countP_eq, countP_cons_of_pos hfirst, hothers, length_cons]

/-- Decisions other than waking make nobody woken. -/
theorem Decides.woken_old {after} (other : outcome ≠ .woken)
  (decides : Decides outcome marked before after) (hmem : waiter ∈ after)
  (woken : waiter.outcome = .woken) : waiter ∈ before := by
  induction decides with
  | none perm => exact perm.mem_iff.mpr hmem
  | @one first before others after marked perm waiting rest ih =>
    rcases mem_cons.mp (ih hmem) with rfl | hold
    · exact absurd woken other
    · exact perm.mem_iff.mpr (mem_cons_of_mem _ hold)

variable {capacity : Nat}
namespace FutexQueue
variable {index nowMonotonic nowRealtime : Nat} {queue pushed : FutexQueue capacity}
/-- The published waiters. -/
def published (queue : FutexQueue capacity) : List FutexWaiter := queue.waiters.reduceOption

/-- How many sequence numbers have been handed out. -/
def issued (queue : FutexQueue capacity) : Nat := queue.nextSequence + queue.sequenceExhausted.toNat

/-- What one call does: the waits it publishes, the waiters that leave and those woken. -/
inductive Effect (before after : FutexQueue capacity) : Nat → Nat → Nat → Prop
  | publishes (waiter : FutexWaiter) (hwaiting : waiter.outcome = .waiting)
      (hsequence : waiter.sequence = before.issued) (hissued : after.issued = before.issued + 1)
      (hfresh : ∀ other ∈ before.published, other.identity ≠ waiter.identity)
      (hperm : after.published.Perm (waiter :: before.published)) : Effect before after 1 0 0
  | wakes (marked : List FutexWaiter) (hissued : after.issued = before.issued)
      (hdecides : Decides .woken marked before.published after.published) :
      Effect before after 0 0 marked.length
  | decides (outcome : FutexWaitOutcome) (marked : List FutexWaiter)
      (houtcome : outcome ≠ .waiting) (hother : outcome ≠ .woken)
      (hissued : after.issued = before.issued)
      (hdecides : Decides outcome marked before.published after.published) :
      Effect before after 0 0 0
  | departs (gone : List FutexWaiter) (hissued : after.issued = before.issued)
      (hperm : before.published.Perm (gone ++ after.published)) :
      Effect before after 0 gone.length 0

theorem Effect.unchanged (queue : FutexQueue capacity) : Effect queue queue 0 0 0 :=
  .departs [] rfl .rfl

theorem names_iff {identity} : waiter.names identity = true ↔ waiter.identity = identity := by
  obtain ⟨tid, schedulerThread⟩ := identity
  simp [names, identity]

/-- What a push that succeeds has checked, and the queue it leaves. -/
theorem push_ok (hpush : queue.push waiter = .ok pushed) :
  futexAddressValid waiter.address = true ∧ waiter.outcome = .waiting ∧
    (∀ other ∈ queue.published, other.identity ≠ waiter.identity) ∧
    queue.sequenceExhausted = false ∧ pushed.issued = queue.issued + 1 ∧
    pushed.published.Perm ({ waiter with sequence := queue.issued } :: queue.published) := by
  unfold push at hpush
  split at hpush
  · cases hpush
  rename_i valid
  split at hpush
  · cases hpush
  rename_i fresh
  split at hpush
  · cases hpush
  rename_i more
  split at hpush
  · cases hpush
  rename_i filled fill
  cases hpush
  simp only [Bool.or_eq_true, not_or, bne_iff_ne, ne_eq, not_not, Bool.not_eq_true',
    Bool.not_eq_false] at valid
  rw [Bool.not_eq_true] at more
  have hseq : queue.issued = queue.nextSequence := by simp [issued, more]
  refine ⟨valid.1.1.1, valid.2, ?_, more, countNumber_sum more, ?_⟩
  · intro other hother same
    exact fresh (any_eq_true.mpr ⟨other, hother, names_iff.mpr same⟩)
  · rw [hseq]
    exact fillFirst_perm fill

theorem push_effect (push : queue.push waiter = .ok pushed) : Effect queue pushed 1 0 0 := by
  obtain ⟨-, waiting, fresh, -, issued, perm⟩ := push_ok push
  exact .publishes { waiter with sequence := queue.issued } waiting rfl issued fresh perm

section
variable (slot : queue.waiters[index]? = some (some waiter))
include slot
theorem setSlot_decides (waiting : waiter.outcome = .waiting) (houtcome : outcome ≠ .waiting)
  (other : outcome ≠ .woken) :
  Effect queue (queue.setSlot index (some (waiter.decided outcome))) 0 0 0 := by
  obtain ⟨others, before, after⟩ := reduceOption_set slot
  exact .decides outcome [waiter] houtcome other rfl
    (.one before waiting (.none (after (some (waiter.decided outcome))).symm))

theorem setSlot_departs : Effect queue (queue.setSlot index none) 0 1 0 := by
  obtain ⟨others, before, after⟩ := reduceOption_set slot
  exact .departs [waiter] rfl (before.trans ((after none).symm.cons waiter))

end

/-- The entries marked, oldest first, are the waiters decided. -/
theorem markOldest_decides {test} (htest : ∀ waiter, test waiter = true → waiter.outcome = .waiting)
  (rounds slots) :
  Decides outcome (markOldest sequence test (decided outcome) rounds slots).2 slots.reduceOption
    (markOldest sequence test (decided outcome) rounds slots).1.reduceOption := by
  refine markOldest_induction (motive := fun before after marked =>
    Decides outcome marked before.reduceOption after.reduceOption) (fun _ => .none .rfl) ?_ rounds
    slots
  intro slots after marked idx waiter slot passes rest
  obtain ⟨others, hbefore, hafter⟩ := reduceOption_set slot
  refine .one hbefore (htest waiter passes) ?_
  exact rest.of_perm (hafter _)

theorem wakeable_waiting {addr bitset} (hwakeable : waiter.wakeable addr bitset = true) :
  waiter.outcome = .waiting := by
  unfold wakeable at hwakeable
  simp only [Bool.and_eq_true, beq_iff_eq] at hwakeable
  exact hwakeable.1.1

theorem expirable_waiting (hexpirable : waiter.expirable nowMonotonic nowRealtime = true) :
  waiter.outcome = .waiting := by
  unfold expirable at hexpirable
  simp only [Bool.and_eq_true, beq_iff_eq] at hexpirable
  exact hexpirable.1

variable (queue : FutexQueue capacity)
theorem wake_effect (addr count : Nat) (bitset : BitVec 32) :
  Effect queue (queue.wake addr count bitset).1 0 0 (queue.wake addr count bitset).2.length := by
  unfold wake
  split
  · exact .unchanged queue
  unfold decideOldest
  rw [length_map]
  exact .wakes _ rfl (markOldest_decides (fun _ => wakeable_waiting) _ _)

variable (identity : Nat × Nat)
theorem removeTask_published : (queue.removeTask identity).1.published =
    queue.published.filter fun waiter => !waiter.names identity :=
  reduceOption_map_filter _ _

theorem removeTask_effect :
  Effect queue (queue.removeTask identity).1 0 (queue.removeTask identity).2 0 := by
  have count : (queue.removeTask identity).2 = (queue.published.filter (names identity)).length :=
    countP_eq_length_filter
  rw [count]
  refine .departs _ rfl ?_
  rw [removeTask_published]
  exact (filter_append_perm (names identity) queue.published).symm

theorem remove_effect :
  Effect queue (queue.remove identity).1 0 (queue.remove identity).2.toNat 0 := by
  unfold remove
  cases hfirst : firstEntry (names identity) queue.waiters with
  | none => exact .unchanged queue
  | some found => exact setSlot_departs (firstEntry_some hfirst).1

theorem takeOutcome_effect : Effect queue (queue.takeOutcome identity).1 0
    (queue.takeOutcome identity).2.isSome.toNat 0 := by
  unfold takeOutcome
  cases hfirst : firstEntry
    (fun waiter => waiter.names identity && waiter.outcome != .waiting) queue.waiters with
  | none => exact .unchanged queue
  | some found => exact setSlot_departs (firstEntry_some hfirst).1

theorem interrupt_effect : Effect queue (queue.interrupt identity).1 0 0 0 := by
  unfold interrupt
  cases hfirst : firstEntry
    (fun waiter => waiter.names identity && waiter.outcome == .waiting) queue.waiters with
  | none => exact .unchanged queue
  | some found =>
    obtain ⟨slot, passes⟩ := firstEntry_some hfirst
    rw [Bool.and_eq_true, beq_iff_eq] at passes
    exact setSlot_decides slot passes.2 (by decide) (by decide)

theorem expireOne_effect (nowMonotonic nowRealtime : Nat) :
  Effect queue (queue.expireOne nowMonotonic nowRealtime).1 0 0 0 := by
  unfold expireOne
  cases oldest : oldestEntry sequence (expirable nowMonotonic nowRealtime) queue.waiters with
  | none => exact .unchanged queue
  | some found =>
    obtain ⟨slot, passes, -⟩ := oldestEntry_some oldest
    exact setSlot_decides slot (expirable_waiting passes) (by decide) (by decide)

end FutexQueue

/-! ## Calls -/

inductive Call where
  | push (waiter : FutexWaiter)
  | wake (address count : Nat) (bitset : BitVec 32)
  | expire (nowMonotonic nowRealtime : Nat)
  | expireOne (nowMonotonic nowRealtime : Nat)
  | interrupt (identity : Nat × Nat)
  | remove (identity : Nat × Nat)
  | removeTask (identity : Nat × Nat)
  | takeOutcome (identity : Nat × Nat)
  deriving DecidableEq

namespace FutexQueue
variable {queue third : FutexQueue capacity}
section
variable (queue : FutexQueue capacity)
/-- The queue after a call. -/
def next : Call → FutexQueue capacity
  | .push waiter => (queue.push waiter).toOption.getD queue
  | .wake address count bitset => (queue.wake address count bitset).1
  | .expire nowMonotonic nowRealtime => (queue.expire nowMonotonic nowRealtime).1
  | .expireOne nowMonotonic nowRealtime => (queue.expireOne nowMonotonic nowRealtime).1
  | .interrupt identity => (queue.interrupt identity).1
  | .remove identity => (queue.remove identity).1
  | .removeTask identity => (queue.removeTask identity).1
  | .takeOutcome identity => (queue.takeOutcome identity).1

/-- The waiters that a call reports as woken. -/
def reported : Call → Nat
  | .wake address count bitset => (queue.wake address count bitset).2.length
  | _ => 0

/-- The waits that a call publishes. -/
def accepted : Call → Nat
  | .push waiter => (queue.push waiter).toOption.isSome.toNat
  | _ => 0

/-- The waiters that leave with a call, as the call's answer tells. -/
def departed : Call → Nat
  | .remove identity => (queue.remove identity).2.toNat
  | .removeTask identity => (queue.removeTask identity).2
  | .takeOutcome identity => (queue.takeOutcome identity).2.isSome.toNat
  | _ => 0

/-- The waiters whose outcome a call changes from `waiting` to `woken`. -/
def assigned (call : Call) : Nat :=
  queue.published.countP (becomesWoken (queue.next call).published)

theorem next_effect (call : Call) :
  Effect queue (queue.next call) (queue.accepted call) (queue.departed call)
    (queue.reported call) := by
  cases call with
  | push waiter =>
    change Effect queue ((queue.push waiter).toOption.getD queue)
      (queue.push waiter).toOption.isSome.toNat 0 0
    cases hpush : queue.push waiter with
    | error reason => exact .unchanged queue
    | ok pushed => exact push_effect hpush
  | wake addr count bitset => exact wake_effect queue addr count bitset
  | expire nowMonotonic nowRealtime =>
    exact .decides .timedOut _ (by decide) (by decide) rfl
      (markOldest_decides (fun _ => expirable_waiting) _ _)
  | expireOne nowMonotonic nowRealtime => exact expireOne_effect queue nowMonotonic nowRealtime
  | interrupt ident => exact interrupt_effect queue ident
  | remove ident => exact remove_effect queue ident
  | removeTask ident => exact removeTask_effect queue ident
  | takeOutcome ident => exact takeOutcome_effect queue ident

end

/-! ## The invariant -/

/-- No task has two waiters, and the waiters have distinct numbers that were handed out. -/
structure Sound (queue : FutexQueue capacity) : Prop where
  identities : (queue.published.map FutexWaiter.identity).Nodup
  sequences : (queue.published.map FutexWaiter.sequence).Nodup
  bounded : ∀ waiter ∈ queue.published, waiter.sequence < queue.issued

theorem published_new (capacity) : (new capacity).published = [] := reduceOption_replicate_none

theorem sound_new (capacity) : (new capacity).Sound := by
  refine ⟨?_, ?_, ?_⟩
  · simp [published_new]
  · simp [published_new]
  · simp [published_new]

section
variable (hsound : queue.Sound)
include hsound
theorem Sound.eq_of_sequence (hfirst : first ∈ queue.published) (hsnd : second ∈ queue.published)
  (seq : first.sequence = second.sequence) : first = second :=
  inj_on_of_nodup_map hsound.sequences hfirst hsnd seq

theorem Sound.of_decides {after : FutexQueue capacity} (houtcome : outcome ≠ .waiting)
  (issued : after.issued = queue.issued)
  (decides : Decides outcome marked queue.published after.published) : after.Sound := by
  refine ⟨?_, ?_, fun later hlater => ?_⟩
  · exact (decides.map_perm fun _ => rfl).nodup_iff.mpr hsound.identities
  · exact (decides.map_perm fun _ => rfl).nodup_iff.mpr hsound.sequences
  obtain ⟨earlier, hearlier, continues⟩ := decides.continues houtcome hlater
  rw [continues.sequence_eq, issued]
  exact hsound.bounded earlier hearlier

theorem Sound.effect {after accepted departed reported}
  (effect : Effect queue after accepted departed reported) : after.Sound := by
  cases effect with
  | publishes waiter waiting seq issued fresh perm =>
    refine ⟨?_, ?_, fun other hother => ?_⟩
    · rw [(perm.map _).nodup_iff, map_cons, nodup_cons]
      refine ⟨fun hmem => ?_, hsound.identities⟩
      obtain ⟨other, hother, same⟩ := mem_map.mp hmem
      exact fresh other hother same
    · rw [(perm.map _).nodup_iff, map_cons, nodup_cons]
      refine ⟨fun hmem => ?_, hsound.sequences⟩
      obtain ⟨other, hother, same⟩ := mem_map.mp hmem
      have := hsound.bounded other hother
      omega
    · rcases mem_cons.mp (perm.mem_iff.mp hother) with rfl | hold
      · omega
      · have := hsound.bounded other hold
        omega
  | wakes marked issued hdecides => exact hsound.of_decides (by decide) issued hdecides
  | decides outcome marked houtcome hother issued hdecides =>
    exact hsound.of_decides houtcome issued hdecides
  | departs gone issued perm =>
    have sublist : after.published.Sublist (gone ++ after.published) := sublist_append_right ..
    refine ⟨?_, ?_, fun waiter hwaiter => ?_⟩
    · exact ((perm.map _).nodup_iff.mp hsound.identities).sublist (sublist.map _)
    · exact ((perm.map _).nodup_iff.mp hsound.sequences).sublist (sublist.map _)
    · rw [issued]
      exact hsound.bounded waiter (perm.mem_iff.mpr (sublist.subset hwaiter))

theorem Sound.next (call) : (queue.next call).Sound := hsound.effect (next_effect queue call)

end

/-! ## Waits over a history -/

/-- Every waiter of the later queue was published in between, or continues an earlier one. -/
structure Precedes (before after : FutexQueue capacity) : Prop where
  issued_le : before.issued ≤ after.issued
  continues : ∀ later ∈ after.published,
    before.issued ≤ later.sequence ∨ ∃ earlier ∈ before.published, Continues earlier later

theorem Precedes.refl (queue : FutexQueue capacity) : queue.Precedes queue :=
  ⟨le_rfl, fun later hlater => .inr ⟨later, hlater, .inl rfl⟩⟩

theorem Precedes.trans {first snd : FutexQueue capacity} (hfirst : first.Precedes snd)
  (hsnd : snd.Precedes third) : first.Precedes third := by
  refine ⟨hfirst.issued_le.trans hsnd.issued_le, fun later hlater => ?_⟩
  rcases hsnd.continues later hlater with hnew | ⟨mid, hmid, continues⟩
  · exact .inl (hfirst.issued_le.trans hnew)
  rcases hfirst.continues mid hmid with hnew | ⟨earlier, hearlier, early⟩
  · exact .inl (continues.sequence_eq ▸ hnew)
  · exact .inr ⟨earlier, hearlier, early.trans continues⟩

theorem Effect.precedes {after accepted departed reported}
  (effect : Effect queue after accepted departed reported) : queue.Precedes after := by
  cases effect with
  | publishes waiter waiting seq issued fresh perm =>
    refine ⟨by omega, fun later hlater => ?_⟩
    rcases mem_cons.mp (perm.mem_iff.mp hlater) with rfl | hold
    · exact .inl seq.ge
    · exact .inr ⟨later, hold, .inl rfl⟩
  | wakes marked issued hdecides =>
    exact ⟨issued.ge, fun later hlater => .inr (hdecides.continues (by decide) hlater)⟩
  | decides outcome marked houtcome other issued hdecides =>
    exact ⟨issued.ge, fun later hlater => .inr (hdecides.continues houtcome hlater)⟩
  | departs gone issued perm =>
    refine ⟨issued.ge, fun later hlater => .inr ⟨later, ?_, .inl rfl⟩⟩
    exact perm.mem_iff.mpr (mem_append_right _ hlater)

theorem precedes_run (queue : FutexQueue capacity) (calls) :
  queue.Precedes (run next queue calls) := by
  induction calls generalizing queue with
  | nil => exact .refl queue
  | cons call rest ih => exact (next_effect queue call).precedes.trans (ih _)

/-- A waiter that a call publishes has no outcome yet. -/
theorem Effect.waiting_of_new {after accepted departed reported}
  (effect : Effect queue after accepted departed reported) (hsound : queue.Sound)
  (hmem : waiter ∈ after.published) (hnew : queue.issued ≤ waiter.sequence) :
  waiter.outcome = .waiting := by
  have hold : ∀ earlier ∈ queue.published, ¬ queue.issued ≤ earlier.sequence := fun earlier h =>
    Nat.not_le.mpr (hsound.bounded earlier h)
  cases effect with
  | publishes fresh waiting sequence issued hfresh perm =>
    rcases mem_cons.mp (perm.mem_iff.mp hmem) with rfl | hmem
    · exact waiting
    · exact absurd hnew (hold waiter hmem)
  | wakes marked issued hdecides =>
    obtain ⟨earlier, hearlier, continues⟩ := hdecides.continues (by decide) hmem
    exact absurd (continues.sequence_eq ▸ hnew) (hold earlier hearlier)
  | decides outcome marked houtcome other issued hdecides =>
    obtain ⟨earlier, hearlier, continues⟩ := hdecides.continues houtcome hmem
    exact absurd (continues.sequence_eq ▸ hnew) (hold earlier hearlier)
  | departs gone issued perm =>
    exact absurd hnew (hold waiter (perm.mem_iff.mpr (mem_append_right _ hmem)))

/-! ## Counting -/

theorem len_eq (queue : FutexQueue capacity) : queue.len = queue.published.length := by
  unfold len published
  induction queue.waiters with
  | nil => rfl
  | cons slot rest ih =>
    cases slot with
    | none => simpa using ih
    | some waiter => simpa using ih

theorem Effect.length {after : FutexQueue capacity} {accepted departed reported : Nat}
  (effect : Effect queue after accepted departed reported) :
  after.published.length + departed = queue.published.length + accepted := by
  have decided : ∀ {outcome : FutexWaitOutcome} {marked : List FutexWaiter},
    Decides outcome marked queue.published after.published →
    after.published.length = queue.published.length := by
    intro outcome marked hdecides
    simpa using (hdecides.map_perm fun waiter =>
      (rfl : (waiter.decided outcome).sequence = waiter.sequence)).length_eq
  cases effect with
  | publishes waiter waiting seq issued fresh perm => exact perm.length_eq
  | wakes marked issued hdecides => exact decided hdecides
  | decides outcome marked houtcome other issued hdecides => exact decided hdecides
  | departs gone issued perm =>
    rw [perm.length_eq, length_append]
    omega

theorem Effect.assigned {after accepted departed reported} (hsound : queue.Sound)
  (effect : Effect queue after accepted departed reported) :
  queue.published.countP (becomesWoken after.published) = reported := by
  cases effect with
  | publishes waiter waiting seq issued fresh perm =>
    refine countP_becomesWoken_eq_zero hsound.sequences fun later hlater woken => ?_
    rcases mem_cons.mp (perm.mem_iff.mp hlater) with rfl | hold
    · rw [waiting] at woken
      cases woken
    · exact hold
  | wakes marked issued hdecides => exact hdecides.countP_becomesWoken hsound.sequences
  | decides outcome marked houtcome other issued hdecides =>
    exact countP_becomesWoken_eq_zero hsound.sequences fun later hlater woken =>
      hdecides.woken_old other hlater woken
  | departs gone issued perm =>
    exact countP_becomesWoken_eq_zero hsound.sequences fun later hlater _ =>
      perm.mem_iff.mpr (mem_append_right _ hlater)

/-! ## Every history -/

/-- The queue after the calls. -/
def after (capacity : Nat) (calls : List Call) : FutexQueue capacity :=
  run next (new capacity) calls

theorem sound_after (capacity calls) : (after capacity calls).Sound :=
  run_invariant (fun _ call hsound => hsound.next call) (sound_new capacity) calls

/-- The occupied slots, by their index. -/
def occupied (queue : FutexQueue capacity) : List Nat :=
  (List.range capacity).filter fun index => (queue.waiters[index]?.join).isSome

theorem length_occupied (queue : FutexQueue capacity) : queue.occupied.length = queue.len := by
  have count : ∀ slots : List (Option FutexWaiter),
    ((range slots.length).filter fun idx => (slots[idx]?.join).isSome).length =
      slots.countP (·.isSome) := by
    intro slots
    induction slots using reverseRecOn with
    | nil => rfl
    | append_singleton front slot ih =>
      have hfront : (range front.length).filter (fun idx => ((front ++ [slot])[idx]?.join).isSome) =
        (range front.length).filter fun idx => (front[idx]?.join).isSome := by
        refine filter_congr fun idx hidx => ?_
        rw [getElem?_append_left (mem_range.mp hidx)]
      rw [length_append, length_singleton, range_succ, filter_append,
        length_append, hfront, ih, countP_append]
      cases slot with
      | none => simp
      | some waiter => simp
  have hqueue := count queue.waiters
  rw [queue.waiters_length] at hqueue
  exact hqueue

/--
Over every history of calls: the later record of a wait is the earlier one, decided at
most once; a call publishes waits without an outcome; tasks and sequence numbers occur
once; the length counts the occupied slots, which are the waits accepted and not yet
gone; and the waiters reported by `wake` are as many as were ever given `woken`.
-/
theorem every_wait_has_one_outcome (capacity : Nat) (earlier later : List Call) :
  (∀ waiter ∈ (after capacity earlier).published,
    ∀ record ∈ (after capacity (earlier ++ later)).published,
      record.sequence = waiter.sequence → Continues waiter record) ∧
  (∀ call, ∀ waiter ∈ ((after capacity earlier).next call).published,
    (∀ old ∈ (after capacity earlier).published, old.sequence ≠ waiter.sequence) →
      waiter.outcome = .waiting) ∧
  ((after capacity earlier).published.map FutexWaiter.identity).Nodup ∧
  ((after capacity earlier).published.map FutexWaiter.sequence).Nodup ∧
  (after capacity earlier).occupied.length = (after capacity earlier).len ∧
  (after capacity earlier).len + total departed next (new capacity) earlier =
    total accepted next (new capacity) earlier ∧
  total reported next (new capacity) earlier = total assigned next (new capacity) earlier := by
  have hsound := sound_after capacity earlier
  have hkeeps : ∀ (queue : FutexQueue capacity) (call : Call), queue.Sound →
      (queue.next call).Sound := fun _ call hsound => hsound.next call
  refine ⟨?_, ?_, hsound.identities, hsound.sequences, length_occupied _, ?_, ?_⟩
  · intro waiter hwaiter record hrec hseq
    rw [after, run, foldl_append] at hrec
    rcases (precedes_run (after capacity earlier) later).continues record hrec with
      hnew | ⟨orig, horig, hcontinues⟩
    · have := hsound.bounded waiter hwaiter
      omega
    · have hsame : orig = waiter := hsound.eq_of_sequence horig hwaiter
        (hcontinues.sequence_eq.symm.trans hseq)
      exact hsame ▸ hcontinues
  · intro call waiter hwaiter hnew
    have heffect := next_effect (after capacity earlier) call
    rcases heffect.precedes.continues waiter hwaiter with
      hissued | ⟨orig, horig, hcontinues⟩
    · exact heffect.waiting_of_new hsound hwaiter hissued
    · exact absurd hcontinues.sequence_eq.symm (hnew orig horig)
  · have hbalance := total_balance len departed accepted hkeeps (fun queue call _ => by
        rw [len_eq, len_eq]
        exact (next_effect queue call).length) (sound_new capacity) earlier
    have hempty : (new capacity).len = 0 := by rw [len_eq, published_new, List.length_nil]
    rw [hempty, Nat.zero_add] at hbalance
    exact hbalance
  · exact total_congr hkeeps (fun queue call hsound =>
      ((next_effect queue call).assigned hsound).symm) (sound_new capacity) earlier

end FutexQueue
end Smros.Futex
