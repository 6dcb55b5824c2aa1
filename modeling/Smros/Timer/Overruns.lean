import Mathlib.Algebra.Group.Nat.Defs
import Smros.Lib.Runs

/-!
# Overruns of POSIX timers

A timer has period points at its first expiry and at every interval after it.  A call that
comes late passes several of them at once: the first one makes a notification, unless one is
still to be delivered, and the others are overruns.
-/

namespace Smros.Timer
open Lib

inductive LinuxPosixClock where
  | realtime | monotonic | processCpu | threadCpu
  deriving DecidableEq

structure LinuxPosixTimerSpec where
  interval : Nat
  value : Nat

/-- The part of a timer that its calls read; the signal it sends is left out. -/
structure LinuxPosixTimerCore where
  clock : LinuxPosixClock
  deadlineClock : LinuxPosixClock
  deadline : Option Nat
  interval : Nat
  notificationPending : Bool
  overrun : Nat
  precisionDeadlineConsumed : Bool

def u64Max : Nat := 2 ^ 64 - 1
def i32Max : Nat := 2 ^ 31 - 1

/-- The result of a `checked_add` or a `checked_mul`. -/
def checked (value : Nat) : Option Nat := if value ≤ u64Max then some value else none

def saturatingAdd (left right : Nat) : Nat := min (left + right) u64Max

def nowFor (clock : LinuxPosixClock) (nowMonotonic nowRealtime : Nat) : Nat :=
  match clock with
  | .realtime => nowRealtime
  | .monotonic | .processCpu | .threadCpu => nowMonotonic

namespace LinuxPosixTimerCore
variable (timer : LinuxPosixTimerCore)

def arm (absolute : Bool) (nowMonotonic : Nat) (spec : LinuxPosixTimerSpec) :
  Option LinuxPosixTimerCore :=
  if spec.value = 0 then
    some { timer with deadline := none, interval := 0, notificationPending := false, overrun := 0 }
  else
    let target := if absolute then some (timer.clock, spec.value)
      else (checked (nowMonotonic + spec.value)).map fun deadline => (.monotonic, deadline)
    target.map fun (deadlineClock, deadline) =>
      ⟨timer.clock, deadlineClock, some deadline, spec.interval, false, 0, false⟩

def acknowledgeNotification : LinuxPosixTimerCore := { timer with notificationPending := false }

/-- The points that a call at `now` counts once it meets the deadline. -/
def expirations (deadline now : Nat) : Nat :=
  if timer.interval = 0 then 1
  else (checked ((now - deadline) / timer.interval + 1)).getD u64Max

/-- The deadline after them; a timer whose next point does not fit is stopped. -/
def advance (deadline expirations : Nat) : Option Nat :=
  if timer.interval = 0 then none
  else (checked (expirations * timer.interval)).bind fun advance => checked (deadline + advance)

/-- `true` where a notification is made. -/
def expire (nowMonotonic nowRealtime : Nat) : Bool × LinuxPosixTimerCore :=
  match timer.deadline with
  | none => (false, timer)
  | some deadline =>
    let now := nowFor timer.deadlineClock nowMonotonic nowRealtime
    if now < deadline then (false, timer)
    else
      let expirations := timer.expirations deadline now
      let next := timer.advance deadline expirations
      let moved := { timer with
        deadline := next
        interval := if next.isNone then 0 else timer.interval
        precisionDeadlineConsumed := timer.precisionDeadlineConsumed || timer.interval != 0 }
      if timer.notificationPending then
        (false, { moved with overrun := saturatingAdd timer.overrun expirations })
      else (true, { moved with
        notificationPending := true
        overrun := saturatingAdd timer.overrun (expirations - 1) })

/-- The answer of `sys_linux_timer_getoverrun`. -/
def getoverrun : Nat := min timer.overrun i32Max

/-- The period points that a call at `now` passes. -/
def due (now : Nat) : Nat :=
  match timer.deadline with
  | none => 0
  | some deadline =>
    if now < deadline then 0
    else if timer.interval = 0 then 1
    else (now - deadline) / timer.interval + 1

variable {timer} {deadline now : Nat}
theorem expirations_eq (hdue : timer.deadline = some deadline) (reached : deadline ≤ now) :
  timer.expirations deadline now = min (timer.due now) u64Max := by
  unfold expirations due checked
  rw [hdue]
  dsimp only
  rw [if_neg (Nat.not_lt.mpr reached)]
  split_ifs with single fits
  · rfl
  · exact (Nat.min_eq_left fits).symm
  · exact (Nat.min_eq_right (Nat.le_of_not_le fits)).symm

end LinuxPosixTimerCore

inductive Event where
  | arm (absolute : Bool) (nowMonotonic : Nat) (spec : LinuxPosixTimerSpec)
  | expire (nowMonotonic nowRealtime : Nat)
  | acknowledge

/-- A timer with the points passed after that of its last notification, and those that were
overrun before it. -/
structure History where
  timer : LinuxPosixTimerCore
  since : Nat
  earlier : Nat

namespace History
open LinuxPosixTimerCore

def next (history : History) : Event → History
  | .arm absolute nowMonotonic spec =>
    match history.timer.arm absolute nowMonotonic spec with
    | none => history
    | some timer => ⟨timer, 0, 0⟩
  | .acknowledge => { history with timer := history.timer.acknowledgeNotification }
  | .expire nowMonotonic nowRealtime =>
    let due := history.timer.due (nowFor history.timer.deadlineClock nowMonotonic nowRealtime)
    match history.timer.expire nowMonotonic nowRealtime with
    | (true, timer) => ⟨timer, due - 1, history.earlier + history.since⟩
    | (false, timer) => ⟨timer, history.since + due, history.earlier⟩

/-- The timer counts the overruns of all its notifications together. -/
def Recorded (history : History) : Prop :=
  history.timer.getoverrun = min (history.earlier + history.since) i32Max

variable {history : History}
theorem overrun_arm {timer armed : LinuxPosixTimerCore} {absolute nowMonotonic spec}
  (harm : timer.arm absolute nowMonotonic spec = some armed) : armed.overrun = 0 := by
  unfold arm at harm
  split at harm
  · cases harm
    rfl
  · obtain ⟨_, -, rfl⟩ := Option.map_eq_some_iff.mp harm
    rfl

theorem Recorded.expire (recorded : Recorded history) (nowMonotonic nowRealtime) :
  Recorded (history.next (.expire nowMonotonic nowRealtime)) := by
  unfold Recorded getoverrun at recorded ⊢
  simp only [History.next]
  generalize hnow : nowFor history.timer.deadlineClock nowMonotonic nowRealtime = now
  cases hdue : history.timer.deadline with
  | none =>
    simp only [LinuxPosixTimerCore.expire, due, hdue]
    exact recorded
  | some deadline =>
    rcases Nat.lt_or_ge now deadline with early | reached
    · simp only [LinuxPosixTimerCore.expire, due, hdue, hnow, if_pos early]
      exact recorded
    -- The counter saturates far above the largest answer.
    simp only [LinuxPosixTimerCore.expire, hdue, hnow, if_neg (Nat.not_lt.mpr reached),
      expirations_eq hdue reached, saturatingAdd, u64Max]
    unfold i32Max at recorded ⊢
    generalize history.timer.due now = due
    cases history.timer.notificationPending with
    | true =>
      simp only [if_true]
      omega
    | false =>
      simp only [Bool.false_eq_true, if_false]
      omega

theorem Recorded.next (recorded : Recorded history) (event) : Recorded (history.next event) := by
  cases event with
  | arm absolute nowMonotonic spec =>
    simp only [History.next]
    split
    · exact recorded
    · rename_i harm
      simp only [Recorded, getoverrun, overrun_arm harm]
  | expire nowMonotonic nowRealtime => exact recorded.expire nowMonotonic nowRealtime
  | acknowledge => exact recorded

end History
end Smros.Timer
