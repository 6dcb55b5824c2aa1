import Mathlib.Algebra.Ring.Nat
import Smros.Lib.Runs
import Smros.Lib.Vectors

/-!
# Deferred retirements

A CPU that leaves a terminated thread still stands on the thread's stack.  It records the
thread before the switch, confirms the record once it runs another thread, and takes it
after that to reclaim the thread's slot.
-/

namespace Smros.Scheduler
open Lib List

def deferredRetirementCapacity : Nat := 1024

/-- `EMPTY`, the largest word. -/
def emptyWord : Nat := 0xffffffffffffffff

/-- `RECLAIMABLE_BIT`, the highest bit; the words from here on have it. -/
def reclaimableBit : Nat := 0x8000000000000000

/-- The words of each CPU. -/
abbrev DeferredThreadRetirements : Type := Nat → List Nat

namespace DeferredThreadRetirements
def new : DeferredThreadRetirements := fun _ => replicate deferredRetirementCapacity emptyWord

section
variable (cpuCount : Nat) (retired : DeferredThreadRetirements) (cpuId : Nat)
/-- Exchange the first word of the CPU that passes the test; the word it was. -/
def exchangeFirst (test : Nat → Bool) (change : Nat → Nat) :
  Option (Nat × DeferredThreadRetirements) :=
  if cpuCount ≤ cpuId then none
  else (firstPlace test (retired cpuId)).map fun (slot, word) =>
    (word, Function.update retired cpuId ((retired cpuId).set slot (change word)))

def recordBeforeSwitch (thread : Nat) : Option (Nat × DeferredThreadRetirements) :=
  if thread = 0 ∨ reclaimableBit ≤ thread then none
  else exchangeFirst cpuCount retired cpuId (· == emptyWord) fun _ => thread

def confirmAfterSwitch (currentThread : Nat) : Option (Nat × DeferredThreadRetirements) :=
  exchangeFirst cpuCount retired cpuId (fun pending => pending != emptyWord &&
    decide (pending < reclaimableBit) && pending != currentThread) (· + reclaimableBit)

def takeReclaimable : Option (Nat × DeferredThreadRetirements) :=
  (exchangeFirst cpuCount retired cpuId (fun reclaimable => reclaimable != emptyWord &&
    decide (reclaimableBit ≤ reclaimable)) fun _ => emptyWord).map fun (encoded, next) =>
      (encoded - reclaimableBit, next)

end

inductive Call where
  | record (cpuId thread : Nat)
  | confirm (cpuId currentThread : Nat)
  | take (cpuId : Nat)
  deriving DecidableEq

section
variable (cpuCount : Nat)

def serve (retired : DeferredThreadRetirements) : Call → Option (Nat × DeferredThreadRetirements)
  | .record cpuId thread => recordBeforeSwitch cpuCount retired cpuId thread
  | .confirm cpuId currentThread => confirmAfterSwitch cpuCount retired cpuId currentThread
  | .take cpuId => takeReclaimable cpuCount retired cpuId

def next (retired : DeferredThreadRetirements) (call : Call) : DeferredThreadRetirements :=
  ((serve cpuCount retired call).map Prod.snd).getD retired

variable (cpuId thread : Nat) (retired : DeferredThreadRetirements) (call : Call)

def records : Nat :=
  if call = .record cpuId thread ∧ (serve cpuCount retired call).isSome then 1 else 0

/-- A confirmation of the thread while the CPU runs another one. -/
def confirmations : Nat :=
  match call with
  | .confirm cpu current =>
    if (cpu = cpuId ∧ current ≠ thread) ∧ (serve cpuCount retired call).any (·.1 = thread) then 1
    else 0
  | _ => 0

def handouts : Nat :=
  if call = .take cpuId ∧ (serve cpuCount retired call).any (·.1 = thread) then 1 else 0

end

variable {cpuCount cpuId cpu word thread : Nat} {retired after : DeferredThreadRetirements}
  {test : Nat → Bool} {change : Nat → Nat}
/-- One word of one CPU goes and another one comes. -/
theorem exchangeFirst_some
  (exchange : exchangeFirst cpuCount retired cpu test change = some (word, after)) :
  test word = true ∧ ∀ cpuId counted,
    (after cpuId).count counted + (if cpu = cpuId ∧ word = counted then 1 else 0) =
      (retired cpuId).count counted + if cpu = cpuId ∧ change word = counted then 1 else 0 := by
  unfold exchangeFirst at exchange
  split_ifs at exchange
  obtain ⟨⟨slot, found⟩, first, result⟩ := Option.map_eq_some_iff.mp exchange
  cases result
  obtain ⟨place, passes⟩ := firstPlace_some first
  refine ⟨passes, fun cpuId counted => ?_⟩
  by_cases same : cpu = cpuId
  · subst same
    obtain ⟨others, before, set, -⟩ := perm_around place
    rw [Function.update_self, (set _).count_eq, before.count_eq, count_cons, count_cons]
    simp only [true_and, beq_iff_eq]
    omega
  · rw [Function.update_of_ne (Ne.symm same)]
    simp [same]

/-- The balance of the words of a thread in its two states. -/
theorem next_balance (hthr : thread < emptyWord - reclaimableBit) (call) :
  (next cpuCount retired call cpuId).count thread +
    confirmations cpuCount cpuId thread retired call =
    (retired cpuId).count thread + records cpuCount cpuId thread retired call ∧
  (next cpuCount retired call cpuId).count (thread + reclaimableBit) +
    handouts cpuCount cpuId thread retired call =
    (retired cpuId).count (thread + reclaimableBit) +
      confirmations cpuCount cpuId thread retired call := by
  have largest : emptyWord = 2 * reclaimableBit - 1 := by decide
  have positive : 0 < reclaimableBit := by decide
  cases hserve : serve cpuCount retired call with
  | none => cases call <;> simp [next, records, confirmations, handouts, hserve]
  | some result =>
    obtain ⟨word, after⟩ := result
    cases call with
    | record cpu recorded =>
      have exchange := hserve
      simp only [serve, recordBeforeSwitch] at exchange
      split_ifs at exchange with refused
      obtain ⟨passes, counts⟩ := exchangeFirst_some exchange
      have pend := counts cpuId thread
      have ready := counts cpuId (thread + reclaimableBit)
      simp [next, records, confirmations, handouts, hserve] at *
      grind
    | confirm cpu cur =>
      have exchange := hserve
      simp only [serve, confirmAfterSwitch] at exchange
      obtain ⟨passes, counts⟩ := exchangeFirst_some exchange
      have pend := counts cpuId thread
      have ready := counts cpuId (thread + reclaimableBit)
      simp [next, records, confirmations, handouts, hserve] at *
      grind
    | take cpu =>
      obtain ⟨⟨encoded, _⟩, exchange, result⟩ := Option.map_eq_some_iff.mp hserve
      obtain ⟨decoded, rfl⟩ := Prod.mk.inj result
      obtain ⟨passes, counts⟩ := exchangeFirst_some exchange
      have pend := counts cpuId thread
      have ready := counts cpuId (thread + reclaimableBit)
      simp only [Bool.and_eq_true, bne_iff_ne, decide_eq_true_eq] at passes decoded
      simp [next, records, confirmations, handouts, hserve]
      grind

/-- After any calls of any CPUs: what a CPU recorded of a thread is still there or was
confirmed on that CPU while it ran another thread, and what was confirmed is still there or
was handed out on that CPU, each once. -/
theorem retirements_handed_out_once (cpuCount cpuId thread : Nat) (calls : List Call)
  (hthread : thread < emptyWord - reclaimableBit) :
  let retired := run (next cpuCount) new calls
  (retired cpuId).count thread +
      total (confirmations cpuCount cpuId thread) (next cpuCount) new calls =
    total (records cpuCount cpuId thread) (next cpuCount) new calls ∧
  (retired cpuId).count (thread + reclaimableBit) +
      total (handouts cpuCount cpuId thread) (next cpuCount) new calls =
    total (confirmations cpuCount cpuId thread) (next cpuCount) new calls := by
  have absent : ∀ counted ≠ emptyWord, (new cpuId).count counted = 0 := fun counted hne =>
    count_eq_zero.mpr fun hmem => hne (eq_of_mem_replicate hmem)
  -- No invariant is needed: each call keeps the balance in any state.
  have balance := @total_balance _ _ (next cpuCount) (fun _ => True) new Nat _
  have pend := balance (fun retired => (retired cpuId).count thread) _ _
    (fun _ _ _ => trivial) (fun _ call _ => (next_balance hthread call).1) trivial calls
  have ready := balance (fun retired => (retired cpuId).count (thread + reclaimableBit)) _ _
    (fun _ _ _ => trivial) (fun _ call _ => (next_balance hthread call).2) trivial calls
  rw [absent _ (by omega), Nat.zero_add] at pend
  rw [absent _ (by omega), Nat.zero_add] at ready
  exact ⟨pend, ready⟩

/-- Two CPUs that retire the same slot number, one after the other. -/
theorem retirements_handed_out_once_two_cpus :
  let calls : List Call := [.record 0 5, .take 0, .confirm 0 5, .confirm 0 7, .record 1 5, .take 0]
  total (handouts 2 0 5) (next 2) new calls = 1 ∧
    (run (next 2) new calls 1).count 5 + total (confirmations 2 1 5) (next 2) new calls =
      total (records 2 1 5) (next 2) new calls :=
  ⟨by decide +kernel, (retirements_handed_out_once 2 1 5 _ (by decide)).1⟩

end DeferredThreadRetirements
end Smros.Scheduler
