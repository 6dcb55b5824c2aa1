import Smros.Futex.Fifo
import Smros.Futex.Syscall
import Smros.ProcessMemory.Coverage
import Smros.ProcessMemory.System

/-!
# Futexes of different processes

The queue is one for all processes and finds waiters by a number.  A wake reaches a
waiter of another process exactly when the two calls are turned into one number.
-/

namespace Smros.Futex
open Lib List FutexWaiter Program Nat FutexQueue
open PageTable (pageSize)
open ProcessMemory (LinuxProcessMemory LinuxPageBacking linuxForkPrivateObjectId)
open Bool (and_eq_true and_eq_true_iff)

/-! ## What a wake leaves alone -/

variable {outcome : FutexWaitOutcome} {marked before : List FutexWaiter} {waiter : FutexWaiter}
theorem Decides.mem_of_unmarked {after} (decides : Decides outcome marked before after)
  (hmem : waiter ∈ before) (unmarked : waiter ∉ marked) : waiter ∈ after := by
  induction decides with
  | none perm => exact perm.mem_iff.mp hmem
  | @one first before others after marked perm waiting rest ih =>
    rw [mem_cons, not_or] at unmarked
    rcases mem_cons.mp (perm.mem_iff.mp hmem) with rfl | other
    · exact absurd rfl unmarked.1
    · exact ih (mem_cons_of_mem _ other) unmarked.2

theorem Decides.mem_of_marked {after} (houtcome : outcome ≠ .waiting)
  (decides : Decides outcome marked before after) :
  ∀ waiter ∈ marked, waiter ∈ before ∧ waiter.outcome = .waiting := by
  induction decides with
  | none perm => simp
  | @one first before others after marked perm waiting rest ih =>
    intro waiter hmem
    rcases mem_cons.mp hmem with rfl | later
    · exact ⟨perm.mem_iff.mpr mem_cons_self, waiting⟩
    obtain ⟨there, waits⟩ := ih waiter later
    rcases mem_cons.mp there with rfl | other
    · exact absurd waits houtcome
    · exact ⟨perm.mem_iff.mpr (mem_cons_of_mem _ other), waits⟩

variable {capacity : Nat} {queue : FutexQueue capacity}
namespace FutexQueue
/-- The waiters that a wake reports: each is there before, under the key of the wake, and
decided after. -/
theorem wake_marks (queue : FutexQueue capacity) (key count bitset) : ∃ marked : List FutexWaiter,
    (queue.wake key count bitset).2 = marked.map identity ∧
    (∀ waiter ∈ marked, waiter.address = key) ∧
    Decides .woken marked queue.published (queue.wake key count bitset).1.published := by
  unfold wake
  split
  · exact ⟨[], rfl, by simp, .none .rfl⟩
  refine ⟨_, rfl, fun waiter hmem => ?_, markOldest_decides (fun _ => wakeable_waiting) _ _⟩
  have passes := markOldest_passing hmem
  unfold wakeable at passes
  simp only [and_eq_true, beq_iff_eq] at passes
  exact passes.1.2

/-- Collecting an outcome takes waiters of that identity away. -/
theorem takeOutcome_gone (queue : FutexQueue capacity) (ident) : ∃ gone : List FutexWaiter,
    queue.published.Perm (gone ++ (queue.takeOutcome ident).1.published) ∧
    ∀ waiter ∈ gone, waiter.identity = ident := by
  unfold takeOutcome
  cases hfirst : firstEntry
    (fun waiter => waiter.names ident && waiter.outcome != .waiting) queue.waiters with
  | none => exact ⟨[], .rfl, nofun⟩
  | some found =>
    obtain ⟨slot, passes⟩ := firstEntry_some hfirst
    obtain ⟨others, before, after⟩ := reduceOption_set slot
    rw [and_eq_true, names_iff] at passes
    exact ⟨[found.2], before.trans ((after none).symm.cons _), by simpa using passes.1⟩

theorem mem_takeOutcome {ident} (hmem : waiter ∈ queue.published)
    (other : waiter.identity ≠ ident) : waiter ∈ (queue.takeOutcome ident).1.published := by
  obtain ⟨gone, perm, named⟩ := queue.takeOutcome_gone ident
  exact (mem_append.mp (perm.mem_iff.mp hmem)).resolve_left fun left => other (named waiter left)

theorem wake_keeps (sound : queue.Sound) (hmem : waiter ∈ queue.published) {key}
  (hkey : waiter.address ≠ key) (count bitset) :
  waiter ∈ (queue.wake key count bitset).1.published ∧
    waiter.identity ∉ (queue.wake key count bitset).2 := by
  obtain ⟨marked, reported, address, decides⟩ := queue.wake_marks key count bitset
  refine ⟨decides.mem_of_unmarked hmem fun hmarked => hkey (address waiter hmarked), ?_⟩
  rw [reported]
  intro identity
  obtain ⟨other, hother, same⟩ := mem_map.mp identity
  have there := (decides.mem_of_marked (by decide) other hother).1
  have heq : other = waiter := inj_on_of_nodup_map sound.identities there hmem same
  exact hkey (heq ▸ address other hother)

theorem wakeLoop_keeps {key} (hkey : waiter.address ≠ key) (bitset woke rounds asked)
  (sound : queue.Sound) (hmem : waiter ∈ queue.published) :
  waiter ∈ (wakeLoop key bitset woke rounds asked queue).2.published ∧
    waiter.identity ∉ (wakeLoop key bitset woke rounds asked queue).1 := by
  induction rounds generalizing asked queue with
  | zero => exact ⟨hmem, not_mem_nil⟩
  | succ rounds ih =>
    cases asked with
    | zero => exact ⟨hmem, not_mem_nil⟩
    | succ asked =>
      obtain ⟨kept, unreported⟩ := wake_keeps sound hmem hkey 1 bitset
      have hnext : (queue.wake key 1 bitset).1.Sound := sound.next (.wake key 1 bitset)
      unfold wakeLoop
      cases reported : (queue.wake key 1 bitset).2 with
      | nil => exact ⟨kept, not_mem_nil⟩
      | cons identity others =>
        rw [reported, mem_cons, not_or] at unreported
        by_cases hwoke : woke identity = true
        · obtain ⟨last, rest⟩ := ih asked hnext kept
          simp only [hwoke, if_true]
          exact ⟨last, fun counted => (mem_cons.mp counted).elim unreported.1 rest⟩
        · simp only [hwoke]
          exact ih (asked + 1) (hnext.next (.takeOutcome identity))
            (mem_takeOutcome kept unreported.1)

theorem countP_takeOutcome (test : FutexWaiter → Bool) (ident) :
    (queue.takeOutcome ident).1.published.countP test ≤ queue.published.countP test := by
  obtain ⟨gone, perm, -⟩ := queue.takeOutcome_gone ident
  rw [perm.countP_eq, countP_append]
  exact Nat.le_add_left ..

/-- One round of a wake reports the oldest waiter, and leaves one less. -/
theorem wake_one {key} {bitset : BitVec 32} (hmem : waiter ∈ queue.published)
    (wakes : waiter.wakeable key bitset = true) : ∃ first ∈ queue.published,
    (queue.wake key 1 bitset).2 = [first.identity] ∧
    (queue.wake key 1 bitset).1.published.countP (wakeable key bitset) <
      queue.published.countP (wakeable key bitset) ∧
    (first = waiter ∨ waiter ∈ (queue.wake key 1 bitset).1.published) := by
  rw [wake_eq]
  obtain ⟨taken, rest, takes, hcount, perm, reported⟩ :=
    queue.decideOldest_takes (not_wakeable_woken key bitset) 1
  have some := countP_pos_iff.mpr ⟨waiter, hmem, wakes⟩
  obtain ⟨first, rfl⟩ := length_eq_one_iff.mp (hcount.trans (Nat.min_eq_left some))
  have total := takes.split.countP_eq (wakeable key bitset)
  refine ⟨first, takes.split.mem_iff.mpr (mem_append_left _ mem_cons_self), reported, ?_, ?_⟩
  · rw [perm.countP_eq, total]
    simp [not_wakeable_woken, takes.passing first mem_cons_self]
  · rcases mem_append.mp (takes.split.mem_iff.mp hmem) with found | missed
    · exact .inl (mem_singleton.mp found).symm
    · exact .inr (perm.mem_iff.mpr (mem_append_right _ missed))

/-- The loop counts a waiter whose task is blocked, or as many others as it was asked to. -/
theorem wakeLoop_reaches {key asked rounds} {bitset : BitVec 32} {woke : Nat × Nat → Bool}
    (sound : queue.Sound) (hmem : waiter ∈ queue.published)
    (wakes : waiter.wakeable key bitset = true) (blocked : woke waiter.identity = true)
    (enough : queue.published.countP (wakeable key bitset) < rounds) :
    waiter.identity ∈ (wakeLoop key bitset woke rounds asked queue).1 ∨
      (wakeLoop key bitset woke rounds asked queue).1.length = asked := by
  induction rounds generalizing asked queue with
  | zero => cases enough
  | succ rounds ih =>
    cases asked with
    | zero => exact .inr rfl
    | succ asked =>
      obtain ⟨first, hfirst, reported, fewer, found⟩ := wake_one hmem wakes
      have hnext : (queue.wake key 1 bitset).1.Sound := sound.next (.wake key 1 bitset)
      simp only [wakeLoop, reported]
      rcases eq_or_ne first waiter with rfl | other
      · rw [if_pos blocked]
        exact .inl mem_cons_self
      have kept := found.resolve_left other
      split
      · rcases ih hnext kept (by omega) with counted | all
        · exact .inl (mem_cons_of_mem _ counted)
        · exact .inr (congrArg (· + 1) all)
      · have hne : waiter.identity ≠ first.identity := fun same =>
          other (inj_on_of_nodup_map sound.identities hfirst hmem same.symm)
        refine ih (hnext.next (.takeOutcome first.identity)) (mem_takeOutcome kept hne) ?_
        exact (countP_takeOutcome _ _).trans_lt (by omega)

end FutexQueue

/-! ## What the calls do to the queue -/

/-- The queue has a new waiter under the key. -/
def Parks (key : Nat) (queue parked : FutexQueue capacity) : Prop :=
  ∃ waiter : FutexWaiter, waiter.address = key ∧ queue.push waiter = .ok parked

theorem publish_ends (waiter : FutexWaiter) (queue : FutexQueue capacity) :
  Ends (publish waiter) queue (fun _ => Parks waiter.address queue) fun _ _ => True := by
  refine ⟨fun hok => ?_, fun _ => trivial⟩
  unfold publish at hok
  split at hok
  · rename_i pushed push
    cases hok
    exact ⟨waiter, rfl, push⟩
  · cases hok

theorem wait_ends (task : FutexTask) (key : Nat) (expected bitset : BitVec 32)
  (queue : FutexQueue capacity) :
  Ends (wait task key expected bitset) queue (fun _ => Parks key queue)
    fun _ _ => True := by
  unfold wait
  split
  · simp
  cases task.observed with
  | none => simp
  | some observed =>
    rw [ends_orThrow_some]
    split
    · simp
    cases task.deadline with
    | error error => simp
    | ok due =>
      dsimp only
      split
      · simp
      refine (publish_ends _ queue).bind fun _ parked parks => ?_
      unfold block
      split
      · exact ends_pure.mpr parks
      · simp

/-! ## Pairs of calls -/

/-- A futex call of a process: its memory at the time of the call, the address, and the
operation. -/
structure FutexCall where
  memory : LinuxProcessMemory
  uaddr : Nat
  op : BitVec 32

namespace FutexCall
def command (call : FutexCall) : Option FutexCommand :=
  (decodeFutexOp call.op).map DecodedFutexOp.command

variable (call : FutexCall)

def isWait : Bool := call.command == some .wait || call.command == some .waitBitset

def isWake : Bool := call.command == some .wake || call.command == some .wakeBitset

def isPrivate : Bool := call.op &&& futexPrivateFlag != 0#32

/-- The bits that a wait publishes, where the last argument of the call is `val3`. -/
def waitBits (val3 : BitVec 32) : BitVec 32 :=
  if call.command == some .waitBitset then val3 else futexBitsetMatchAny

/-- The bits that a wake looks for. -/
def wakeBits (val3 : BitVec 32) : BitVec 32 :=
  if call.command == some .wakeBitset then val3 else futexBitsetMatchAny

/-- The call, with its remaining arguments. -/
def perform {capacity : Nat} (call : FutexCall) (task : FutexTask) (woke : Nat × Nat → Bool)
  (val val3 : BitVec 32) : QueueM capacity (List (Nat × Nat)) :=
  sysFutex call.memory task woke call.uaddr call.op val val3

def key : Nat := futexKey call.memory call.uaddr call.isPrivate

def addressOk : Bool := (checkAddress call.memory call.uaddr).isOk

/-- A wait that the checks let through. -/
def canWait : Bool := call.isWait && call.addressOk && futexAddressValid call.key

/-- A wake that the checks let through. -/
def canWake : Bool := call.isWake && call.addressOk

/-- The frame that the key of the call names, if it is not the address. -/
def sharedFrame : Option Nat :=
  if call.isPrivate then none
  else
    match backingAt call.memory call.uaddr with
    | some (.sharedPage _ _ pfn) => some pfn
    | _ => none

variable (left right : FutexCall)
/-- Both addresses are the same offset of the same page of a shared mapping. -/
def SameSharedOffset : Prop :=
  left.uaddr % pageSize = right.uaddr % pageSize ∧
    backingAt left.memory left.uaddr = backingAt right.memory right.uaddr ∧
    (backingAt left.memory left.uaddr).any (fun backing => !backing.isPrivate && !backing.isCow)

/-- The calls name different addresses, or different places in frames; an address and a
place in a frame are never the same. -/
def Apart : Prop :=
  match left.sharedFrame, right.sharedFrame with
  | none, none => left.uaddr ≠ right.uaddr
  | some first, some second =>
    first % 2 ^ 51 ≠ second % 2 ^ 51 ∨ left.uaddr % pageSize ≠ right.uaddr % pageSize
  | some _, none => True
  | none, some _ => True

/--
No wake of the one process completes or counts a wait of the other, whatever happens
before and in between: the record of the wait stays as it is, with its place in the order.
-/
def Undisturbed : Prop :=
  ∀ (capacity : Nat) (earlier later : List Call) (task : FutexTask) (woke : Nat × Nat → Bool)
    (val val3 : BitVec 32) (reply : List (Nat × Nat)) (parked : FutexQueue capacity),
    left.isWait = true →
    left.perform task woke val val3 (.after capacity earlier) = .ok reply parked →
    ∀ waiter ∈ (run next parked later).published,
      waiter.sequence = (FutexQueue.after capacity earlier).issued →
    ∀ (waker : FutexTask) (blocked : Nat × Nat → Bool) (count mask : BitVec 32)
      (woken : List (Nat × Nat)) (final : FutexQueue capacity),
      right.isWake = true →
      right.perform waker blocked count mask (run next parked later) = .ok woken final →
      waiter ∈ final.published ∧ waiter.identity ∉ woken

/-! ## Keys of accepted calls -/

variable {left right} {call}
theorem canWait_iff : call.canWait = true ↔
    (call.isWait = true ∧ call.addressOk = true) ∧ futexAddressValid call.key = true := by
  rw [canWait, and_eq_true, and_eq_true]

theorem addressOk_lt (hok : call.addressOk = true) : call.uaddr < 2 ^ 63 := by
  unfold addressOk checkAddress at hok
  split at hok
  · cases hok
  split at hok
  · cases hok
  rename_i checks
  simp only [Bool.or_eq_true, not_or, Bool.not_eq_true', Bool.not_eq_false] at checks
  obtain ⟨-, -, accessible⟩ := ProcessMemory.rangeAccessible_iff.mp checks.2
  have hfirst := (accessible 0 (by decide)).resolve_right nofun
  unfold ProcessMemory.translateUser PageTable.Reference.translateUser at hfirst
  split at hfirst
  · cases hfirst
  rename_i window
  have limit : call.uaddr < PageTable.userLimit := (not_not.mp window).2
  exact limit.trans (by decide)

theorem futexSharedKey_eq (pfn addr) :
  futexSharedKey pfn addr = 2 ^ 63 + pfn % 2 ^ 51 * 2 ^ 12 + addr % 2 ^ 12 := by
  have frame : pfn * 0x1000 % 2 ^ 64 &&& (2 ^ 64 - 1 - futexSharedKeyTag) =
    2 ^ 12 * (pfn % 2 ^ 51) := by
    rw [show 2 ^ 64 - 1 - futexSharedKeyTag = 2 ^ 63 - 1 by rfl, and_two_pow_sub_one_eq_mod]
    omega
  have offset : addr &&& 0xfff = addr % 2 ^ 12 := and_two_pow_sub_one_eq_mod addr 12
  have htag : futexSharedKeyTag ||| 2 ^ 12 * (pfn % 2 ^ 51) = 2 ^ 12 * (2 ^ 51 + pfn % 2 ^ 51) := by
    have small : 2 ^ 12 * (pfn % 2 ^ 51) < 2 ^ 63 := by omega
    have hor := two_pow_add_eq_or_of_lt small 1
    rw [mul_one] at hor
    rw [futexSharedKeyTag, ← hor]
    omega
  rw [futexSharedKey, frame, offset, htag, ← two_pow_add_eq_or_of_lt (mod_lt addr (by decide)) _]
  omega

theorem key_eq (call : FutexCall) : call.key = match call.sharedFrame with
    | some pfn => futexSharedKey pfn call.uaddr
    | none => call.uaddr := by
  unfold key futexKey sharedFrame futexAddressKey
  split
  · rfl
  · split <;> simp_all

theorem key_ne_iff (hleft : left.addressOk = true)
  (hright : right.addressOk = true) : left.key ≠ right.key ↔ Apart left right := by
  have leftSmall := addressOk_lt hleft
  have rightSmall := addressOk_lt hright
  rw [key_eq, key_eq]
  unfold Apart
  cases left.sharedFrame with
  | none =>
    cases right.sharedFrame with
    | none => rfl
    | some snd =>
      simp only [futexSharedKey_eq, ne_eq, iff_true]
      omega
  | some first =>
    cases right.sharedFrame with
    | none =>
      simp only [futexSharedKey_eq, ne_eq, iff_true]
      omega
    | some snd =>
      simp only [futexSharedKey_eq, pageSize]
      omega

/-! ## Performing the calls -/

variable {op : BitVec 32}
theorem decodeFutexOp_isPrivate {decoded} (decode : decodeFutexOp op = some decoded) :
  decoded.isPrivate = (op &&& futexPrivateFlag != 0#32) := by
  unfold decodeFutexOp at decode
  split at decode
  · cases decode
  split at decode
  · cases decode
  split at decode
  · cases decode
  · cases decode
    rfl

variable {asked : Nat} {task : FutexTask} {woke : Nat × Nat → Bool}
  {val val3 bitset : BitVec 32} {final : FutexQueue capacity} {reply : List (Nat × Nat)}
/-- A call whose checks pass is dispatched under its key. -/
theorem perform_eq {decoded : DecodedFutexOp} (decode : decodeFutexOp call.op = some decoded)
  (hok : call.addressOk = true) :
  (call.perform task woke val val3 : QueueM capacity _) =
    dispatch task woke call.key decoded val val3 := by
  unfold addressOk at hok
  unfold perform sysFutex key isPrivate
  rw [decode, ← decodeFutexOp_isPrivate decode]
  cases check : checkAddress call.memory call.uaddr with
  | error error =>
    rw [check] at hok
    cases hok
  | ok value => rfl

/-- A call that succeeds has passed its checks. -/
theorem perform_ok (hrun : call.perform task woke val val3 queue = .ok reply final) :
    call.addressOk = true := by
  unfold perform sysFutex at hrun
  unfold addressOk
  cases decode : decodeFutexOp call.op with
  | none =>
    rw [decode] at hrun
    cases hrun
  | some decoded =>
    rw [decode] at hrun
    cases check : checkAddress call.memory call.uaddr with
    | error error =>
      simp only [check] at hrun
      cases hrun
    | ok value => rfl

theorem perform_isWait (hwait : call.isWait = true) (hok : call.addressOk = true) :
    (call.perform task woke val val3 : QueueM capacity _) =
      (do wait task call.key val (call.waitBits val3); return []) := by
  unfold isWait command at hwait
  unfold waitBits command
  cases decode : decodeFutexOp call.op with
  | none => simp [decode] at hwait
  | some decoded =>
    rw [perform_eq decode hok]
    cases hcommand : decoded.command <;> simp_all [dispatch]

theorem perform_isWake (hwake : call.isWake = true) (hok : call.addressOk = true) :
    (call.perform task woke val val3 : QueueM capacity _) =
      wake call.key val.toNat (call.wakeBits val3) woke := by
  unfold isWake command at hwake
  unfold wakeBits command
  cases decode : decodeFutexOp call.op with
  | none => simp [decode] at hwake
  | some decoded =>
    rw [perform_eq decode hok]
    cases hcommand : decoded.command <;> simp_all [dispatch]

theorem perform_wait (hwait : call.isWait = true)
    (hrun : call.perform task woke val val3 queue = .ok reply final) :
    call.addressOk = true ∧ Parks call.key queue final := by
  have hok := perform_ok hrun
  rw [perform_isWait hwait hok] at hrun
  have ends : Ends (do wait task call.key val (call.waitBits val3); return []) queue
      (fun _ : List (Nat × Nat) => Parks call.key queue) fun _ _ => True :=
    (wait_ends ..).bind fun _ _ parks => ends_pure.mpr parks
  exact ⟨hok, ends.ok hrun⟩

theorem perform_wake (hwake : call.isWake = true)
    (hrun : call.perform task woke val val3 queue = .ok reply final) :
    call.addressOk = true ∧ wakeLoop call.key (call.wakeBits val3) woke (capacity + 1)
      (min val.toNat capacity) queue = (reply, final) := by
  have hok := perform_ok hrun
  rw [perform_isWake hwake hok, wake] at hrun
  refine ⟨hok, ?_⟩
  split at hrun
  · cases hrun
  · cases hrun
    rfl

variable {parked : FutexQueue capacity}
/-- The record of a parked wait keeps its key whatever follows. -/
theorem parked_address {key} (sound : queue.Sound) (parks : Parks key queue parked) {later}
  (hmem : waiter ∈ (run .next parked later).published) (seq : waiter.sequence = queue.issued) :
  waiter.address = key := by
  obtain ⟨fresh, rfl, push⟩ := parks
  obtain ⟨-, -, -, -, issued, perm⟩ := push_ok push
  rcases (precedes_run parked later).continues waiter hmem with
    hnew | ⟨orig, horig, continues⟩
  · omega
  rw [show waiter.address = orig.address from continues.value_eq fun _ _ => rfl]
  rcases mem_cons.mp (perm.mem_iff.mp horig) with rfl | hold
  · rfl
  have := sound.bounded orig hold
  have := continues.sequence_eq
  omega

theorem parked_sound {key} (sound : queue.Sound) (parks : Parks key queue parked) (later) :
    (run next parked later).Sound := by
  obtain ⟨fresh, -, push⟩ := parks
  exact run_invariant (fun _ call sound => sound.next call) (sound.effect (push_effect push)) later

theorem undisturbed_of_key_ne
  (keys : left.canWait = true → right.canWake = true → left.key ≠ right.key) :
  Undisturbed left right := by
  intro capacity earlier later task woke val val3 reply parked wait hparked waiter hmem seq
    waker blocked count mask woken final wake hwoken
  have sound := sound_after capacity earlier
  obtain ⟨hleft, parks⟩ := perform_wait wait hparked
  obtain ⟨hright, hloop⟩ := perform_wake wake hwoken
  have hcanWait : left.canWait = true := by
    obtain ⟨fresh, addr, push⟩ := parks
    exact canWait_iff.mpr ⟨⟨wait, hleft⟩, addr ▸ (push_ok push).1⟩
  have hcanWake : right.canWake = true := and_eq_true_iff.mpr ⟨wake, hright⟩
  have addr : waiter.address ≠ right.key :=
    parked_address sound parks hmem seq ▸ keys hcanWait hcanWake
  have keeps := wakeLoop_keeps addr (right.wakeBits mask) blocked (capacity + 1)
    (min count.toNat capacity) (parked_sound sound parks later) hmem
  rw [hloop] at keeps
  exact keeps

/-! ## Two calls with one key -/

/-- A task that finds the value it expects and sleeps without a deadline. -/
def sleeper : FutexTask := ⟨1, 0, some 0#32, .ok none, 0, true⟩

/-- The waiter of that task. -/
def sleeping (key : Nat) : FutexWaiter := ⟨key, futexBitsetMatchAny, 1, 0, none, 0, .waiting⟩

/-- A queue with one slot, which holds the waiter. -/
def parkedAlone (waiter : FutexWaiter) : FutexQueue 1 := ⟨[some waiter], rfl, 1, false⟩

theorem push_alone {key} (valid : futexAddressValid key = true) :
  (new 1).push (sleeping key) = .ok (parkedAlone (sleeping key)) := by
  have checks : (!futexAddressValid (sleeping key).address ||
    !futexBitsetValid (sleeping key).bitset || (sleeping key).tid == 0 ||
    (sleeping key).outcome != .waiting) = false := by
    simp [sleeping, valid, futexBitsetValid, futexBitsetMatchAny]
  unfold push
  rw [checks]
  rfl

theorem perform_sleep (hwait : call.canWait = true) :
  call.perform sleeper (fun _ => true) 0#32 futexBitsetMatchAny (after 1 []) =
    .ok [] (parkedAlone (sleeping call.key)) := by
  obtain ⟨⟨hisWait, hok⟩, valid⟩ := canWait_iff.mp hwait
  have sleep : wait sleeper call.key 0#32 futexBitsetMatchAny (new 1) =
    .ok () (parkedAlone (sleeping call.key)) := by
    change (publish (sleeping call.key) >>= fun _ => block sleeper) (new 1) = _
    rw [bind_run_ok (show publish (sleeping call.key) (new 1) =
      .ok () (parkedAlone (sleeping call.key)) by rw [publish, push_alone valid])]
    rfl
  have bits : call.waitBits futexBitsetMatchAny = futexBitsetMatchAny := ite_self _
  rw [perform_isWait hisWait hok, bits]
  exact bind_run_ok sleep

theorem perform_wake_alone (hwake : call.canWake = true) :
  call.perform sleeper (fun _ => true) 1#32 futexBitsetMatchAny (parkedAlone (sleeping call.key)) =
    .ok [(1, 0)] (parkedAlone ((sleeping call.key).decided .woken)) := by
  obtain ⟨hisWake, hok⟩ := and_eq_true_iff.mp hwake
  have hmatches : (sleeping call.key).wakeable call.key futexBitsetMatchAny = true := by
    simp [sleeping, wakeable, futexBitsetMatches, futexBitsetMatchAny]
  have round : (parkedAlone (sleeping call.key)).wake call.key 1 futexBitsetMatchAny =
    (parkedAlone ((sleeping call.key).decided .woken), [(1, 0)]) := by
    have marked : markOldest sequence (wakeable call.key futexBitsetMatchAny) (decided .woken) 1
      (parkedAlone (sleeping call.key)).waiters =
      ([some ((sleeping call.key).decided .woken)], [sleeping call.key]) := by
      simp [markOldest, oldestEntry, leastEntry, candidates, parkedAlone, Option.filter_some,
        hmatches]
    change (decideOldest _ _ _ 1) = _
    unfold decideOldest
    simp only [marked]
    rfl
  have woken : wake call.key 1 futexBitsetMatchAny (fun _ => true)
    (parkedAlone (sleeping call.key)) =
    .ok [(1, 0)] (parkedAlone ((sleeping call.key).decided .woken)) := by
    change EStateM.Result.ok (wakeLoop _ _ _ 2 1 _).1 (wakeLoop _ _ _ 2 1 _).2 = _
    simp only [wakeLoop, round, if_true]
  have bits : call.wakeBits futexBitsetMatchAny = futexBitsetMatchAny := ite_self _
  rw [perform_isWake hisWake hok, bits]
  exact woken

theorem disturbed_of_key_eq (wait : left.canWait = true)
  (wake : right.canWake = true) (hkey : left.key = right.key) : ¬ Undisturbed left right := by
  intro undisturbed
  have isWait : left.isWait = true := (canWait_iff.mp wait).1.1
  have isWake : right.isWake = true := (and_eq_true_iff.mp wake).1
  have woken := perform_wake_alone wake
  rw [← hkey] at woken
  have claim := undisturbed 1 [] [] sleeper _ _ _ _ _ isWait (perform_sleep wait)
    (sleeping left.key) mem_cons_self rfl sleeper _ _ _ _ _ isWake woken
  exact claim.2 mem_cons_self

/-! ## Isolation -/

/-- Calls of one process, or on one place of a shared mapping, may meet. -/
def Excused (left right : FutexCall) : Prop :=
  left.memory.pid = right.memory.pid ∨ SameSharedOffset left right

/--
A wait of one process stays undisturbed by the wakes of another exactly when one of the
calls fails its checks or their keys name different things.
-/
theorem other_process_undisturbed_iff (left right : FutexCall) :
  (Excused left right ∨ Undisturbed left right) ↔
    (Excused left right ∨ left.canWait = false ∨ right.canWake = false ∨ Apart left right) := by
  refine or_congr_right' fun _ => ⟨fun hundisturbed => ?_, fun happart => ?_⟩
  · by_contra hmeet
    simp only [not_or, Bool.not_eq_false] at hmeet
    obtain ⟨hwait, hwake, hkeys⟩ := hmeet
    have hleft : left.addressOk = true := (canWait_iff.mp hwait).1.2
    have hright : right.addressOk = true := (and_eq_true_iff.mp hwake).2
    rw [← key_ne_iff hleft hright, not_not] at hkeys
    exact disturbed_of_key_eq hwait hwake hkeys hundisturbed
  · refine undisturbed_of_key_ne fun hwait hwake => ?_
    rw [hwait, hwake] at happart
    simp only [Bool.true_eq_false, false_or] at happart
    exact (key_ne_iff (canWait_iff.mp hwait).1.2 (and_eq_true_iff.mp hwake).2).mpr happart

/-- A process maps a private page and forks. -/
def forkedPair : ProcessMemory.System :=
  run ProcessMemory.System.next (.new ⟨0x100, 16, by decide⟩)
    [⟨.registerRoot 1, {}⟩, ⟨.map 1 none 4096 3#64 2#64 .anonymous false [], {}⟩,
      ⟨.reserveAttachments 1, {}⟩, ⟨.fork 1 2 0, {}⟩]

/-- `FUTEX_WAIT_PRIVATE` on the first address that `mmap` hands out. -/
def privateWait (memory : LinuxProcessMemory) : FutexCall :=
  ⟨memory, 0x12000000, futexWait ||| futexPrivateFlag⟩

def privateWake (memory : LinuxProcessMemory) : FutexCall :=
  ⟨memory, 0x12000000, futexWake ||| futexPrivateFlag⟩

/-- A child's wake on its copy of a private page completes the wait of its parent. -/
theorem private_wake_of_child_completes_wait_of_parent :
  ∃ parent child, forkedPair.memory 1 = some parent ∧ forkedPair.memory 2 = some child ∧
    ¬ (Excused (privateWait parent) (privateWake child) ∨
      Undisturbed (privateWait parent) (privateWake child)) := by
  have hfound : ((forkedPair.memory 1).bind fun parent => (forkedPair.memory 2).map fun child =>
      parent.pid != child.pid && (privateWait parent).canWait && (privateWake child).canWake &&
        !(backingAt parent 0x12000000).any
          fun backing => !backing.isPrivate && !backing.isCow) = some true := by
    decide +kernel
  obtain ⟨parent, hparent, hrest⟩ := Option.bind_eq_some_iff.mp hfound
  obtain ⟨child, hchild, hchecks⟩ := Option.map_eq_some_iff.mp hrest
  simp only [and_eq_true, bne_iff_ne, Bool.not_eq_true'] at hchecks
  obtain ⟨⟨⟨hpids, hwait⟩, hwake⟩, hshared⟩ := hchecks
  refine ⟨parent, child, hparent, hchild, ?_⟩
  rintro ((hsame | ⟨-, -, hoffset⟩) | hundisturbed)
  · exact hpids hsame
  · exact Bool.false_ne_true (hshared.symm.trans hoffset)
  have hwaitPrivate : (privateWait parent).isPrivate = true :=
    show ((futexWait ||| futexPrivateFlag) &&& futexPrivateFlag != 0#32) = true by decide
  have hwakePrivate : (privateWake child).isPrivate = true :=
    show ((futexWake ||| futexPrivateFlag) &&& futexPrivateFlag != 0#32) = true by decide
  have hkeys : (privateWait parent).key = (privateWake child).key := by
    rw [key, key, hwaitPrivate, hwakePrivate]
    rfl
  exact disturbed_of_key_eq hwait hwake hkeys hundisturbed

/-! ## Calls of one process -/

/-- The wake counts the waiter of the wait, where its task is blocked, or as many others as it
was asked to. -/
def Reaches (left right : FutexCall) : Prop :=
  ∀ (capacity : Nat) (earlier later : List Call) (task : FutexTask) (woke : Nat × Nat → Bool)
    (val val3 : BitVec 32) (reply : List (Nat × Nat)) (parked : FutexQueue capacity),
    left.isWait = true →
    left.perform task woke val val3 (.after capacity earlier) = .ok reply parked →
    ∀ waiter ∈ (run next parked later).published,
      waiter.sequence = (FutexQueue.after capacity earlier).issued → waiter.outcome = .waiting →
    ∀ (waker : FutexTask) (blocked : Nat × Nat → Bool) (count mask : BitVec 32)
      (woken : List (Nat × Nat)) (final : FutexQueue capacity),
      right.isWake = true → futexBitsetMatches waiter.bitset (right.wakeBits mask) = true →
      blocked waiter.identity = true →
      right.perform waker blocked count mask (run next parked later) = .ok woken final →
      waiter.identity ∈ woken ∨ woken.length = min count.toNat capacity

/-- Both calls find the address in the same shared frame, or in none; the key has 51 bits for
the number of a frame. -/
def SameFrame (left right : FutexCall) : Prop :=
  left.sharedFrame.map (· % 2 ^ 51) = right.sharedFrame.map (· % 2 ^ 51)

instance (left right : FutexCall) : Decidable (SameFrame left right) :=
  inferInstanceAs (Decidable (_ = _))

theorem key_eq_iff (hleft : left.addressOk = true) (hright : right.addressOk = true)
    (address : left.uaddr = right.uaddr) : left.key = right.key ↔ SameFrame left right := by
  rw [← not_iff_not, ← ne_eq, key_ne_iff hleft hright]
  unfold Apart SameFrame
  rw [address]
  cases left.sharedFrame <;> cases right.sharedFrame <;> simp

theorem reaches_of_key_eq (hkey : left.key = right.key) : Reaches left right := by
  intro capacity earlier later task woke val val3 reply parked wait hparked waiter hmem seq
    waiting waker blocked count mask woken final wake overlap hblocked hwoken
  have sound := sound_after capacity earlier
  obtain ⟨-, parks⟩ := perform_wait wait hparked
  obtain ⟨-, hloop⟩ := perform_wake wake hwoken
  have place := parked_address sound parks hmem seq
  have wakes : waiter.wakeable right.key (right.wakeBits mask) = true := by
    rw [wakeable, waiting, place, hkey, overlap, beq_self_eq_true, beq_self_eq_true]
    rfl
  have enough : (run next parked later).published.countP
      (wakeable right.key (right.wakeBits mask)) < capacity + 1 :=
    lt_succ_of_le (countP_published_le _ _)
  have reaches : _ ∨ _ = min count.toNat capacity :=
    wakeLoop_reaches (parked_sound sound parks later) hmem wakes hblocked enough
  rwa [hloop] at reaches

/-- The only wait is taken from the queue by a wake that wakes nobody. -/
def takesUnblocked (call : FutexCall) : Bool :=
  match call.perform sleeper (fun _ => false) 1#32 futexBitsetMatchAny
      (parkedAlone (sleeping call.key)) with
  | .ok woken final => woken.isEmpty && final.published.isEmpty
  | .error _ _ => false

end FutexCall
end Smros.Futex
