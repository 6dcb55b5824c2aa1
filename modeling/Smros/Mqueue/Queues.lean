import Mathlib.Algebra.GroupWithZero.Nat
import Mathlib.Data.Prod.Lex
import Mathlib.Order.OrderDual
import Smros.Lib.Runs
import Smros.Lib.SlotSearch
import Smros.Lib.Vectors

/-!
# POSIX message queues

Queues stand in a vector, messages in the vector of their queue, and the tasks that
wait for a queue in one fixed array.  Vectors give up their order when an element
leaves; the numbers that messages and waiters carry tell who came first.
-/

namespace Smros.Mqueue
open Lib

def linuxMqPrioMax : Nat := 32768
def linuxMqDefaultMaxmsg : Nat := 10
def linuxMqDefaultMsgsize : Nat := 8192
def linuxMqMaxmsgLimit : Nat := 1024
def linuxMqMsgsizeLimit : Nat := 8192
def linuxMqNameMax : Nat := 255

structure LinuxMqueueMessage where
  bytes : List UInt8
  priority : Nat
  deriving DecidableEq

structure LinuxMqueueAttr where
  flags : Nat
  maxmsg : Nat
  msgsize : Nat
  curmsgs : Nat
  deriving DecidableEq

def LinuxMqueueAttr.defaults : LinuxMqueueAttr :=
  ⟨0, linuxMqDefaultMaxmsg, linuxMqDefaultMsgsize, 0⟩

structure LinuxMqueueOpen where
  created : Bool
  attr : LinuxMqueueAttr
  deriving DecidableEq

structure LinuxMqueueNotification where
  handle : Nat
  pid : Nat
  signum : Nat
  deriving DecidableEq

/-- A task that may wait: its thread number and its scheduler slot. -/
abbrev Identity : Type := Nat × Nat

structure LinuxMqueueSendOutcome where
  receiver : Option Identity
  notification : Option LinuxMqueueNotification
  deriving DecidableEq

structure LinuxMqueueReceiveOutcome where
  message : LinuxMqueueMessage
  sender : Option Identity
  deriving DecidableEq

inductive LinuxMqueueWaitKind where
  | send
  | receive
  deriving DecidableEq

inductive LinuxMqueueWaitOutcome where
  | waiting
  | woken
  | timedOut
  | interrupted
  deriving DecidableEq

inductive LinuxMqueueError where
  | badDescriptor
  | capacity
  | alreadyExists
  | invalid
  | messageTooLarge
  | nameTooLong
  | notFound
  | wouldBlock
  | busy
  deriving DecidableEq

structure LinuxMqueueQueuedMessage where
  message : LinuxMqueueMessage
  sequence : Nat
  deriving DecidableEq

/-- A name as the bytes of its text. -/
abbrev QueueName : Type := List UInt8

structure LinuxMqueueQueue where
  id : Nat
  name : Option QueueName
  handles : List Nat
  attr : LinuxMqueueAttr
  messages : List LinuxMqueueQueuedMessage
  notification : Option LinuxMqueueNotification
  deriving DecidableEq

structure LinuxMqueueWaiter where
  queueId : Nat
  kind : LinuxMqueueWaitKind
  tid : Nat
  schedulerThread : Nat
  deadline : Option Nat
  sequence : Nat
  outcome : LinuxMqueueWaitOutcome
  deriving DecidableEq

namespace LinuxMqueueWaiter
def identity (waiter : LinuxMqueueWaiter) : Identity := (waiter.tid, waiter.schedulerThread)

def decided (outcome : LinuxMqueueWaitOutcome) (waiter : LinuxMqueueWaiter) : LinuxMqueueWaiter :=
  { waiter with outcome := outcome }

/-- A waiter that `wake_one` may select. -/
def wakeable (queueId : Nat) (kind : LinuxMqueueWaitKind) (waiter : LinuxMqueueWaiter) : Bool :=
  waiter.queueId == queueId && waiter.kind == kind && waiter.outcome == .waiting

/-- A waiter that `expire_one` may select. -/
def expirable (now : Nat) (waiter : LinuxMqueueWaiter) : Bool :=
  waiter.outcome == .waiting && waiter.deadline.any (· ≤ now)

end LinuxMqueueWaiter

def slash : UInt8 := 47

def linuxMqueueNameComponent (name : QueueName) : Except LinuxMqueueError QueueName :=
  let component := if name.head? = some slash then name.tail else name
  if component.isEmpty then .error .invalid
  else if component.length > linuxMqNameMax then .error .nameTooLong
  else if component.any (· == slash) then .error .invalid
  else .ok component

def validateLinuxMqueueAttr (attr : LinuxMqueueAttr) : Except LinuxMqueueError LinuxMqueueAttr :=
  if attr.maxmsg == 0 || attr.msgsize == 0 || attr.maxmsg > linuxMqMaxmsgLimit ||
      attr.msgsize > linuxMqMsgsizeLimit then
    .error .invalid
  else .ok { attr with flags := 0, curmsgs := 0 }

namespace LinuxMqueueQueue
/-- A message is preferred for its priority, then for its age. -/
def preference (queued : LinuxMqueueQueuedMessage) : ℕᵒᵈ ×ₗ Nat :=
  toLex (OrderDual.toDual queued.message.priority, queued.sequence)

variable (queue : LinuxMqueueQueue)

def bestMessage : Option (Nat × LinuxMqueueQueuedMessage) :=
  leastEntry preference some queue.messages

def ready : LinuxMqueueWaitKind → Bool
  | .send => queue.messages.length < queue.attr.maxmsg
  | .receive => !queue.messages.isEmpty

/-- The queue without one of its handles; a notification asked for through it goes too. -/
def detach (handle : Nat) : LinuxMqueueQueue :=
  { queue with
    handles := match queue.handles.findIdx? (· == handle) with
      | none => queue.handles
      | some index => swapRemove queue.handles index
    notification := queue.notification.filter (·.handle != handle) }

end LinuxMqueueQueue

/-- At most `queueLimit` queues, `handleLimit` open handles and `waiterLimit` waiters. -/
structure LinuxMqueueState (queueLimit handleLimit waiterLimit : Nat) where
  queues : List LinuxMqueueQueue
  waiters : List (Option LinuxMqueueWaiter)
  waiters_length : waiters.length = waiterLimit
  nextQueueId : Nat
  nextMessageSequence : Nat
  nextWaiterSequence : Nat
  queueIdExhausted : Bool
  messageSequenceExhausted : Bool
  waiterSequenceExhausted : Bool

variable {queueLimit handleLimit waiterLimit : Nat}
namespace LinuxMqueueState
def new (queueLimit handleLimit waiterLimit : Nat) :
  LinuxMqueueState queueLimit handleLimit waiterLimit where
  queues := []
  waiters := List.replicate waiterLimit none
  waiters_length := List.length_replicate
  nextQueueId := 1
  nextMessageSequence := 0
  nextWaiterSequence := 0
  queueIdExhausted := false
  messageSequenceExhausted := false
  waiterSequenceExhausted := false

variable (state : LinuxMqueueState queueLimit handleLimit waiterLimit)

/-! ## Numbers -/

def countQueueId : LinuxMqueueState queueLimit handleLimit waiterLimit :=
  let counted := countNumber state.nextQueueId state.queueIdExhausted
  { state with nextQueueId := counted.1, queueIdExhausted := counted.2 }

def countMessage : LinuxMqueueState queueLimit handleLimit waiterLimit :=
  let counted := countNumber state.nextMessageSequence state.messageSequenceExhausted
  { state with nextMessageSequence := counted.1, messageSequenceExhausted := counted.2 }

def countWaiter : LinuxMqueueState queueLimit handleLimit waiterLimit :=
  let counted := countNumber state.nextWaiterSequence state.waiterSequenceExhausted
  { state with nextWaiterSequence := counted.1, waiterSequenceExhausted := counted.2 }

/-! ## Queues -/

/-- The first queue that passes the test, with its place. -/
def queueWhere (test : LinuxMqueueQueue → Bool) : Option (Nat × LinuxMqueueQueue) :=
  firstPlace test state.queues

variable (handle : Nat)

def queueByHandle : Option (Nat × LinuxMqueueQueue) :=
  state.queueWhere fun queue => queue.handles.any (· == handle)

def queueByName (name : QueueName) : Option (Nat × LinuxMqueueQueue) :=
  state.queueWhere fun queue => queue.name == some name

def openHandleCount : Nat := (state.queues.map (·.handles.length)).sum

def validateNewHandle : Except LinuxMqueueError Unit :=
  if handle == 0 || state.openHandleCount ≥ handleLimit || (state.queueByHandle handle).isSome then
    .error .capacity
  else .ok ()

def setQueue (index : Nat) (queue : LinuxMqueueQueue) :
  LinuxMqueueState queueLimit handleLimit waiterLimit :=
  { state with queues := state.queues.set index queue }

/-! ## Waiters -/

/-- The state with other slots. -/
def withWaiters (waiters : List (Option LinuxMqueueWaiter))
  (hlength : waiters.length = state.waiters.length) :
  LinuxMqueueState queueLimit handleLimit waiterLimit :=
  { state with
    waiters := waiters
    waiters_length := hlength.trans state.waiters_length }

def setSlot (index : Nat) (slot : Option LinuxMqueueWaiter) :
  LinuxMqueueState queueLimit handleLimit waiterLimit :=
  state.withWaiters (state.waiters.set index slot) List.length_set

variable (test : LinuxMqueueWaiter → Bool)
/-- Keep the waiters that pass the test. -/
def keepWaiters : LinuxMqueueState queueLimit handleLimit waiterLimit :=
  state.withWaiters (state.waiters.map fun slot => slot.filter test) (List.length_map _)

def oldestWaiter : Option (Nat × LinuxMqueueWaiter) :=
  oldestEntry LinuxMqueueWaiter.sequence test state.waiters

/-- Give the oldest waiter that passes the test an outcome; its task is reported. -/
def decideOldest (outcome : LinuxMqueueWaitOutcome) :
  LinuxMqueueState queueLimit handleLimit waiterLimit × Option Identity :=
  match state.oldestWaiter test with
  | none => (state, none)
  | some (index, waiter) =>
    (state.setSlot index (some (waiter.decided outcome)), some waiter.identity)

def wakeOne (queueId : Nat) (kind : LinuxMqueueWaitKind) :
  LinuxMqueueState queueLimit handleLimit waiterLimit × Option Identity :=
  state.decideOldest (LinuxMqueueWaiter.wakeable queueId kind) .woken

def removeQueueWaiters (queueId : Nat) : LinuxMqueueState queueLimit handleLimit waiterLimit :=
  state.keepWaiters fun waiter => waiter.queueId != queueId

/-! ## Opening and closing -/

/-- A queue that lost a handle or its name; without either it goes away with its waiters. -/
def settleQueue (index : Nat) (queue : LinuxMqueueQueue) :
  LinuxMqueueState queueLimit handleLimit waiterLimit :=
  if queue.handles.isEmpty && queue.name.isNone then
    removeQueueWaiters { state with queues := swapRemove state.queues index } queue.id
  else state.setQueue index queue

/-- The heap may refuse the vectors, which `reserved` says. -/
def openNamed (name : QueueName) (handle : Nat) (create exclusive : Bool)
  (attr : Option LinuxMqueueAttr) (reserved : Bool) :
  Except LinuxMqueueError
    (LinuxMqueueOpen × LinuxMqueueState queueLimit handleLimit waiterLimit) := do
  let component ← linuxMqueueNameComponent name
  state.validateNewHandle handle
  match state.queueByName component with
  | some (index, queue) =>
    if create && exclusive then .error .alreadyExists
    else if !reserved then .error .capacity
    else
      .ok (⟨false, { queue.attr with curmsgs := queue.messages.length }⟩,
        state.setQueue index { queue with handles := queue.handles ++ [handle] })
  | none =>
    if !create then .error .notFound
    else if state.queues.length ≥ queueLimit || state.queueIdExhausted then .error .capacity
    else
      let createdAttr ← validateLinuxMqueueAttr (attr.getD LinuxMqueueAttr.defaults)
      if !reserved then .error .capacity
      else
        let queue : LinuxMqueueQueue :=
          ⟨state.nextQueueId, some component, [handle], createdAttr, [], none⟩
        .ok (⟨true, createdAttr⟩, { state.countQueueId with queues := state.queues ++ [queue] })

def closeHandle : LinuxMqueueState queueLimit handleLimit waiterLimit × Bool :=
  match state.queueByHandle handle with
  | none => (state, false)
  | some (index, queue) => (state.settleQueue index (queue.detach handle), true)

def unlink (name : QueueName) :
  Except LinuxMqueueError (LinuxMqueueState queueLimit handleLimit waiterLimit) := do
  let component ← linuxMqueueNameComponent name
  match state.queueByName component with
  | none => .error .notFound
  | some (index, queue) => .ok (state.settleQueue index { queue with name := none })

def notify (notification : Option LinuxMqueueNotification) :
  Except LinuxMqueueError (LinuxMqueueState queueLimit handleLimit waiterLimit) :=
  match state.queueByHandle handle with
  | none => .error .badDescriptor
  | some (index, queue) =>
    if notification.isSome && queue.notification.isSome then .error .busy
    else .ok (state.setQueue index { queue with notification := notification })

/-! ## Messages -/

/-- Store the message and wake a receiver; the notification is due only when the queue was
empty and nobody waited for the message. -/
def accept (index : Nat) (queue : LinuxMqueueQueue) (message : LinuxMqueueMessage) :
  LinuxMqueueSendOutcome × LinuxMqueueState queueLimit handleLimit waiterLimit :=
  let queued : LinuxMqueueQueuedMessage := ⟨message, state.nextMessageSequence⟩
  let woken := state.countMessage.wakeOne queue.id .receive
  let notifies := queue.messages.isEmpty && woken.2.isNone
  (⟨woken.2, if notifies then queue.notification else none⟩, woken.1.setQueue index { queue with
        messages := queue.messages ++ [queued]
        notification := if notifies then none else queue.notification })

def send (bytes : List UInt8) (priority : Nat) (reserved : Bool) : Except LinuxMqueueError
    (LinuxMqueueSendOutcome × LinuxMqueueState queueLimit handleLimit waiterLimit) :=
  match state.queueByHandle handle with
  | none => .error .badDescriptor
  | some (index, queue) =>
    if priority ≥ linuxMqPrioMax then .error .invalid
    else if bytes.length > queue.attr.msgsize then .error .messageTooLarge
    else if queue.messages.length ≥ queue.attr.maxmsg then .error .wouldBlock
    else if state.messageSequenceExhausted || !reserved then .error .capacity
    else .ok (state.accept index queue ⟨bytes, priority⟩)

/-- Take the message out and wake a sender. -/
def deliver (index : Nat) (queue : LinuxMqueueQueue) (messageIndex : Nat)
  (message : LinuxMqueueMessage) :
  LinuxMqueueReceiveOutcome × LinuxMqueueState queueLimit handleLimit waiterLimit :=
  let woken := state.wakeOne queue.id .send
  (⟨message, woken.2⟩,
    woken.1.setQueue index { queue with messages := swapRemove queue.messages messageIndex })

def receive (handle bufferLen : Nat) : Except LinuxMqueueError
    (LinuxMqueueReceiveOutcome × LinuxMqueueState queueLimit handleLimit waiterLimit) :=
  match state.queueByHandle handle with
  | none => .error .badDescriptor
  | some (index, queue) =>
    if bufferLen < queue.attr.msgsize then .error .messageTooLarge
    else
      match queue.bestMessage with
      | none => .error .wouldBlock
      | some (messageIndex, queued) => .ok (state.deliver index queue messageIndex queued.message)

def ready (handle : Nat) (kind : LinuxMqueueWaitKind) : Except LinuxMqueueError Bool :=
  match state.queueByHandle handle with
  | none => .error .badDescriptor
  | some (_, queue) => .ok (queue.ready kind)

/-! ## Waiting -/

variable (kind : LinuxMqueueWaitKind)

def pushWaiter (task : Identity) (deadline : Option Nat) :
  Except LinuxMqueueError (LinuxMqueueState queueLimit handleLimit waiterLimit) :=
  if task.1 == 0 then .error .invalid
  else
    match state.queueByHandle handle with
    | none => .error .badDescriptor
    | some (_, queue) =>
      if state.waiterSequenceExhausted then .error .capacity
      else if state.waiters.reduceOption.any fun waiter =>
          waiter.identity == task && waiter.outcome == .waiting then
        .error .busy
      else
        match hfill : fillFirst
            ⟨queue.id, kind, task.1, task.2, deadline, state.nextWaiterSequence, .waiting⟩
            state.waiters with
        | none => .error .capacity
        | some filled => .ok (state.withWaiters filled (fillFirst_length hfill)).countWaiter

/-- One section of `wait`: publish the waiter, then look whether the queue is ready. -/
def register (task : Identity) (deadline : Option Nat) : Except LinuxMqueueError
    (Bool × LinuxMqueueState queueLimit handleLimit waiterLimit) := do
  let published ← state.pushWaiter handle kind task deadline
  let ready ← published.ready handle kind
  return (ready, published)

def expireOne (now : Nat) : LinuxMqueueState queueLimit handleLimit waiterLimit × Option Identity :=
  state.decideOldest (LinuxMqueueWaiter.expirable now) .timedOut

variable (task : Identity)

def interrupt : LinuxMqueueState queueLimit handleLimit waiterLimit × Bool :=
  match firstEntry (fun waiter => waiter.identity == task && waiter.outcome == .waiting)
      state.waiters with
  | none => (state, false)
  | some (index, waiter) => (state.setSlot index (some (waiter.decided .interrupted)), true)

def takeOutcome :
  LinuxMqueueState queueLimit handleLimit waiterLimit × Option LinuxMqueueWaitOutcome :=
  match firstEntry (fun waiter => waiter.identity == task && waiter.outcome != .waiting)
      state.waiters with
  | none => (state, none)
  | some (index, waiter) => (state.setSlot index none, some waiter.outcome)

def removeTask : LinuxMqueueState queueLimit handleLimit waiterLimit × Nat :=
  (state.keepWaiters fun waiter => waiter.identity != task,
    state.waiters.reduceOption.countP (·.identity == task))

def reset (_state : LinuxMqueueState queueLimit handleLimit waiterLimit) :
  LinuxMqueueState queueLimit handleLimit waiterLimit :=
  new queueLimit handleLimit waiterLimit

end LinuxMqueueState

/-! ## Calls -/

/-- The sections that run under the lock of the message queues, with the task that enters. -/
inductive MqueueCall where
  | openNamed (name : QueueName) (handle : Nat) (create exclusive : Bool)
      (attr : Option LinuxMqueueAttr) (reserved : Bool)
  | closeHandle (handle : Nat)
  | unlink (name : QueueName)
  | notify (handle : Nat) (notification : Option LinuxMqueueNotification)
  | send (task : Identity) (handle : Nat) (bytes : List UInt8) (priority : Nat)
      (reserved : Bool)
  | receive (task : Identity) (handle bufferLen : Nat)
  | register (task : Identity) (handle : Nat) (kind : LinuxMqueueWaitKind)
      (deadline : Option Nat)
  | expireOne (now : Nat)
  | interrupt (task : Identity)
  /-- `wait` collects the outcome of its own task. -/
  | takeOutcome (task : Identity)
  /-- `interrupt_task` clears the outcome of a task that it could not wake. -/
  | clearOutcome (task : Identity)
  | removeTask (task : Identity)
  | reset
  deriving DecidableEq

/-- The calls that neither move a message nor publish a waiter nor start afresh. -/
def MqueueCall.isAside : MqueueCall → Bool
  | .send .. => false
  | .receive .. => false
  | .register .. => false
  | .reset => false
  | _ => true

namespace LinuxMqueueState
/-- A call that fails leaves the state as it is. -/
def next (state : LinuxMqueueState queueLimit handleLimit waiterLimit) :
  MqueueCall → LinuxMqueueState queueLimit handleLimit waiterLimit
  | .openNamed name handle create exclusive attr reserved =>
    match state.openNamed name handle create exclusive attr reserved with
    | .ok (_, after) => after
    | .error _ => state
  | .closeHandle handle => (state.closeHandle handle).1
  | .unlink name =>
    match state.unlink name with
    | .ok after => after
    | .error _ => state
  | .notify handle notification =>
    match state.notify handle notification with
    | .ok after => after
    | .error _ => state
  | .send _ handle bytes priority reserved =>
    match state.send handle bytes priority reserved with
    | .ok (_, after) => after
    | .error _ => state
  | .receive _ handle bufferLen =>
    match state.receive handle bufferLen with
    | .ok (_, after) => after
    | .error _ => state
  | .register task handle kind deadline =>
    match state.register handle kind task deadline with
    | .ok (_, after) => after
    | .error _ => state
  | .expireOne now => (state.expireOne now).1
  | .interrupt task => (state.interrupt task).1
  | .takeOutcome task => (state.takeOutcome task).1
  | .clearOutcome task => (state.takeOutcome task).1
  | .removeTask task => (state.removeTask task).1
  | .reset => state.reset

end LinuxMqueueState
end Smros.Mqueue
