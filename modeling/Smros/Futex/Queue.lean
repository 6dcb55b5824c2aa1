import Smros.Lib.Runs
import Smros.Lib.SlotSearch

/-!
# The futex queue

Published futex waits stand in a fixed array.  Wakers, the timer and signals decide
the outcome of a waiter in its slot; the waiting task collects the outcome and
empties the slot.
-/

namespace Smros.Futex
open Lib

inductive FutexClock where
  | monotonic
  | realtime
  deriving DecidableEq

structure FutexDeadline where
  ticks : Nat
  clock : FutexClock
  deriving DecidableEq

inductive FutexWaitOutcome where
  | waiting
  | woken
  | timedOut
  | interrupted
  deriving DecidableEq

structure FutexWaiter where
  address : Nat
  bitset : BitVec 32
  tid : Nat
  schedulerThread : Nat
  deadline : Option FutexDeadline
  sequence : Nat
  outcome : FutexWaitOutcome
  deriving DecidableEq

inductive FutexQueueError where
  | capacity
  | duplicate
  | exhausted
  | invalid
  deriving DecidableEq

def futexAddressValid (address : Nat) : Bool :=
  address != 0 && address % 4 == 0 && address + 4 < 2 ^ 64

def futexBitsetValid (bitset : BitVec 32) : Bool := bitset != 0#32

/-- `smros_linux_futex_bitset_matches_body`. -/
def futexBitsetMatches (waiter requested : BitVec 32) : Bool :=
  waiter != 0#32 && requested != 0#32 && waiter &&& requested != 0#32

/-- `smros_linux_futex_deadline_expired_body`. -/
def futexDeadlineExpired (now deadline : Nat) : Bool := now ≥ deadline

namespace FutexWaiter
def identity (waiter : FutexWaiter) : Nat × Nat := (waiter.tid, waiter.schedulerThread)

/-- The waiter of a task. -/
def names (identity : Nat × Nat) (waiter : FutexWaiter) : Bool :=
  waiter.tid == identity.1 && waiter.schedulerThread == identity.2

def decided (outcome : FutexWaitOutcome) (waiter : FutexWaiter) : FutexWaiter :=
  { waiter with outcome := outcome }

/-- A waiter that `wake` selects. -/
def wakeable (address : Nat) (bitset : BitVec 32) (waiter : FutexWaiter) : Bool :=
  waiter.outcome == .waiting && waiter.address == address && futexBitsetMatches waiter.bitset bitset

/-- A waiter that `expire` selects. -/
def expirable (nowMonotonic nowRealtime : Nat) (waiter : FutexWaiter) : Bool :=
  waiter.outcome == .waiting && waiter.deadline.any fun deadline =>
    match deadline.clock with
    | .monotonic => futexDeadlineExpired nowMonotonic deadline.ticks
    | .realtime => futexDeadlineExpired nowRealtime deadline.ticks

end FutexWaiter

structure FutexQueue (capacity : Nat) where
  waiters : List (Option FutexWaiter)
  waiters_length : waiters.length = capacity
  nextSequence : Nat
  sequenceExhausted : Bool

namespace FutexQueue
variable {capacity : Nat}

def new (capacity : Nat) : FutexQueue capacity :=
  ⟨List.replicate capacity none, List.length_replicate, 0, false⟩

variable (queue : FutexQueue capacity)

def len : Nat := queue.waiters.countP (·.isSome)

/-- The queue with other slots. -/
def withWaiters (queue : FutexQueue capacity) (waiters : List (Option FutexWaiter))
  (hlength : waiters.length = queue.waiters.length) : FutexQueue capacity :=
  { queue with
    waiters := waiters
    waiters_length := hlength.trans queue.waiters_length }

def setSlot (index : Nat) (slot : Option FutexWaiter) : FutexQueue capacity :=
  queue.withWaiters (queue.waiters.set index slot) List.length_set

def countSequence (queue : FutexQueue capacity) : FutexQueue capacity :=
  let counted := countNumber queue.nextSequence queue.sequenceExhausted
  { queue with nextSequence := counted.1, sequenceExhausted := counted.2 }

open FutexWaiter (names sequence decided identity wakeable expirable)

def push (waiter : FutexWaiter) : Except FutexQueueError (FutexQueue capacity) :=
  if !futexAddressValid waiter.address || !futexBitsetValid waiter.bitset || waiter.tid == 0 ||
      waiter.outcome != .waiting then
    .error .invalid
  else if queue.waiters.reduceOption.any (names waiter.identity) then
    .error .duplicate
  else if queue.sequenceExhausted then .error .exhausted
  else
    match hfill : fillFirst { waiter with sequence := queue.nextSequence } queue.waiters with
    | none => .error .capacity
    | some filled => .ok (queue.withWaiters filled (fillFirst_length hfill)).countSequence

/-- Give up to `rounds` waiters that pass the test an outcome, the oldest first. -/
def decideOldest (test : FutexWaiter → Bool) (outcome : FutexWaitOutcome) (rounds : Nat) :
  FutexQueue capacity × List (Nat × Nat) :=
  let marked := markOldest sequence test (decided outcome) rounds queue.waiters
  (queue.withWaiters marked.1 (markOldest_length _ _), marked.2.map identity)

def wake (address count : Nat) (bitset : BitVec 32) : FutexQueue capacity × List (Nat × Nat) :=
  if count = 0 || !futexBitsetValid bitset then (queue, [])
  else queue.decideOldest (wakeable address bitset) .woken (min count capacity)

def expire (nowMonotonic nowRealtime : Nat) : FutexQueue capacity × List (Nat × Nat) :=
  queue.decideOldest (expirable nowMonotonic nowRealtime) .timedOut capacity

def expireOne (nowMonotonic nowRealtime : Nat) : FutexQueue capacity × Option (Nat × Nat) :=
  match oldestEntry sequence (expirable nowMonotonic nowRealtime) queue.waiters with
  | none => (queue, none)
  | some (index, waiter) =>
    (queue.setSlot index (some (waiter.decided .timedOut)), some waiter.identity)

variable (identity : Nat × Nat)

def interrupt : FutexQueue capacity × Bool :=
  match firstEntry (fun waiter => waiter.names identity && waiter.outcome == .waiting)
      queue.waiters with
  | none => (queue, false)
  | some (index, waiter) => (queue.setSlot index (some (waiter.decided .interrupted)), true)

def takeOutcome : FutexQueue capacity × Option FutexWaitOutcome :=
  match firstEntry (fun waiter => waiter.names identity && waiter.outcome != .waiting)
      queue.waiters with
  | none => (queue, none)
  | some (index, waiter) => (queue.setSlot index none, some waiter.outcome)

def remove : FutexQueue capacity × Bool :=
  match firstEntry (names identity) queue.waiters with
  | none => (queue, false)
  | some (index, _) => (queue.setSlot index none, true)

def removeTask : FutexQueue capacity × Nat :=
  (queue.withWaiters
      (queue.waiters.map fun slot => slot.filter fun waiter => !waiter.names identity)
      (List.length_map _), queue.waiters.reduceOption.countP (names identity))

end FutexQueue
end Smros.Futex
