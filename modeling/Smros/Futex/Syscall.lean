import Smros.Futex.Outcomes
import Smros.ProcessMemory.Cow

/-!
# The futex call

`sys_futex` decodes its operation, checks the address in the memory of the calling
process and turns it into the key under which the queue holds waiters: the address
itself, or the frame and offset of a shared page.
-/

namespace Smros.Futex
open Lib
open PageTable (pageSize)
open ProcessMemory (LinuxProcessMemory LinuxPageBacking)

/-! ## Operations -/

inductive FutexCommand where
  | wait
  | wake
  | waitBitset
  | wakeBitset
  deriving DecidableEq

structure DecodedFutexOp where
  command : FutexCommand
  isPrivate : Bool
  realtime : Bool
  deriving DecidableEq

def futexWait : BitVec 32 := 0#32
def futexWake : BitVec 32 := 1#32
def futexWaitBitset : BitVec 32 := 9#32
def futexWakeBitset : BitVec 32 := 10#32
def futexPrivateFlag : BitVec 32 := 128#32
def futexClockRealtime : BitVec 32 := 256#32
def futexCmdMask : BitVec 32 := 0x7f#32
def futexBitsetMatchAny : BitVec 32 := 0xffffffff#32

def futexAllowedOpBits : BitVec 32 := futexCmdMask ||| futexPrivateFlag ||| futexClockRealtime

/-- The command with a number. -/
def futexCommand (number : BitVec 32) : Option FutexCommand :=
  if number = futexWait then some .wait
  else if number = futexWake then some .wake
  else if number = futexWaitBitset then some .waitBitset
  else if number = futexWakeBitset then some .wakeBitset
  else none

def decodeFutexOp (op : BitVec 32) : Option DecodedFutexOp :=
  if op &&& ~~~futexAllowedOpBits ≠ 0#32 then none
  else
    match futexCommand (op &&& futexCmdMask) with
    | none => none
    | some command =>
      if op &&& futexClockRealtime ≠ 0#32 ∧ op &&& futexCmdMask ≠ futexWaitBitset then none
      else some ⟨command, op &&& futexPrivateFlag != 0#32, op &&& futexClockRealtime != 0#32⟩

/-! ## Keys -/

/-- `FUTEX_SHARED_KEY_TAG`. -/
def futexSharedKeyTag : Nat := 2 ^ 63

def futexSharedKey (pfn address : Nat) : Nat :=
  futexSharedKeyTag ||| (pfn * 0x1000 % 2 ^ 64 &&& (2 ^ 64 - 1 - futexSharedKeyTag)) |||
    (address &&& 0xfff)

variable (memory : LinuxProcessMemory)
/-- The recorded backing of an address, in the first mapping that has the address. -/
def backingAt (address : Nat) : Option LinuxPageBacking :=
  match memory.mappings.find? fun mapping =>
      mapping.addr ≤ address && address < mapping.stop with
  | none => none
  | some mapping => mapping.pages[(address - mapping.addr) / pageSize]?

def futexAddressKey (address : Nat) : Nat :=
  match backingAt memory address with
  | some (.sharedPage _ _ pfn) => futexSharedKey pfn address
  | some (.privatePage _) => address
  | none => address

/-- The key of a call. -/
def futexKey (uaddr : Nat) (isPrivate : Bool) : Nat :=
  if isPrivate then uaddr else futexAddressKey memory uaddr

/-! ## The call -/

/--
The calling task, and what the rest of the kernel answers: the word it reads at the
address, the deadline that its timeout means, the time, and whether the task blocks.
-/
structure FutexTask where
  tid : Nat
  schedulerThread : Nat
  observed : Option (BitVec 32)
  deadline : Except SysError (Option FutexDeadline)
  now : Nat
  blocks : Bool

abbrev QueueM (capacity : Nat) := Program (FutexQueue capacity) SysError

variable {capacity : Nat}
/-- Publish a waiter; every refusal of the queue is `EAGAIN`. -/
def publish (waiter : FutexWaiter) : QueueM capacity Unit := fun queue =>
  match queue.push waiter with
  | .ok pushed => .ok () pushed
  | .error _ => .error .eagain queue

/-- A task that does not block takes its waiter back. -/
def block (task : FutexTask) : QueueM capacity Unit :=
  if task.blocks then pure ()
  else do
    modify fun queue => (queue.remove (task.tid, task.schedulerThread)).1
    throw .eagain

/-- The part of `wait` up to the point where the task sleeps. -/
def wait (task : FutexTask) (key : Nat) (expected bitset : BitVec 32) : QueueM capacity Unit :=
  if !futexBitsetValid bitset then throw .einval
  else do
    let observed ← Program.orThrow .efault task.observed
    if observed ≠ expected then throw .eagain
    else
      match task.deadline with
      | .error error => throw error
      | .ok deadline =>
        if deadline.any fun deadline => futexDeadlineExpired task.now deadline.ticks then
          throw .etimedout
        else do
          publish ⟨key, bitset, task.tid, task.schedulerThread, deadline, 0, .waiting⟩
          block task

/-- The loop of `wake`: one waiter a round.  A waiter whose task is not blocked yet does
not count; its outcome is taken away again.  The identities counted, in order. -/
def wakeLoop (key : Nat) (bitset : BitVec 32) (woke : Nat × Nat → Bool) :
  Nat → Nat → FutexQueue capacity → List (Nat × Nat) × FutexQueue capacity
  | 0, _, queue => ([], queue)
  | _ + 1, 0, queue => ([], queue)
  | rounds + 1, requested + 1, queue =>
    match (queue.wake key 1 bitset).2 with
    | [] => ([], (queue.wake key 1 bitset).1)
    | identity :: _ =>
      if woke identity then
        let rest := wakeLoop key bitset woke rounds requested (queue.wake key 1 bitset).1
        (identity :: rest.1, rest.2)
      else
        wakeLoop key bitset woke rounds (requested + 1)
          ((queue.wake key 1 bitset).1.takeOutcome identity).1

/-- `wake`: every round but the last decides a waiter, so one round more than there are
slots runs the loop to its end. -/
def wake (key requested : Nat) (bitset : BitVec 32) (woke : Nat × Nat → Bool) :
  QueueM capacity (List (Nat × Nat)) :=
  if !futexBitsetValid bitset then throw .einval
  else
    modifyGet fun queue => wakeLoop key bitset woke (capacity + 1) (min requested capacity) queue

/-- The checks of `sys_futex` on its address. -/
def checkAddress (memory : LinuxProcessMemory) (uaddr : Nat) : Except SysError Unit :=
  if uaddr % 4 ≠ 0 then .error .einval
  else if !futexAddressValid uaddr || !memory.rangeAccessible uaddr 4 false then .error .efault
  else .ok ()

/-- The part of `sys_futex` after its checks: the identities woken. -/
def dispatch (task : FutexTask) (woke : Nat × Nat → Bool) (key : Nat) (decoded : DecodedFutexOp)
  (val val3 : BitVec 32) : QueueM capacity (List (Nat × Nat)) :=
  match decoded.command with
  | .wait => do
      wait task key val futexBitsetMatchAny
      return []
  | .waitBitset => do
      wait task key val val3
      return []
  | .wake => wake key val.toNat futexBitsetMatchAny woke
  | .wakeBitset => wake key val.toNat val3 woke

/-- `sys_futex` in the memory of the calling process; a wake returns how many it woke. -/
def sysFutex (memory : LinuxProcessMemory) (task : FutexTask) (woke : Nat × Nat → Bool)
  (uaddr : Nat) (op val val3 : BitVec 32) : QueueM capacity (List (Nat × Nat)) :=
  match decodeFutexOp op with
  | none => throw .einval
  | some decoded =>
    match checkAddress memory uaddr with
    | .error error => throw error
    | .ok () => dispatch task woke (futexKey memory uaddr decoded.isPrivate) decoded val val3

end Smros.Futex
