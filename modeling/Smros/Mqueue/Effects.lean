import Smros.Lib.Program
import Smros.Mqueue.Queues

/-!
# What the calls do to queues and waiters

The laws of the message queues speak of the contents of the queues and of the published
waiters, both up to order.  Each call gets one description in these terms.
-/

namespace Smros.Mqueue
open Lib List LinuxMqueueWaiter LinuxMqueueQueue

/-- A queue without its names, handles and notification. -/
structure Content where
  id : Nat
  attr : LinuxMqueueAttr
  messages : List LinuxMqueueQueuedMessage

def LinuxMqueueQueue.content (queue : LinuxMqueueQueue) : Content :=
  ⟨queue.id, queue.attr, queue.messages⟩

/-- How many numbers of each kind have been handed out. -/
@[ext] structure Numbers where
  queues : Nat
  messages : Nat
  waiters : Nat

/-! ## Deciding one waiter -/

/-- Some waiter that passes the test is decided, or nobody passes it. -/
inductive Decided (test : LinuxMqueueWaiter → Bool) (outcome : LinuxMqueueWaitOutcome)
  (before after : List LinuxMqueueWaiter) : Option LinuxMqueueWaiter → Prop
  | nobody (hnobody : ∀ waiter ∈ before, test waiter = false) (hsame : after = before) :
      Decided test outcome before after none
  | one (waiter : LinuxMqueueWaiter) (others : List LinuxMqueueWaiter)
      (hpasses : test waiter = true) (hbefore : before.Perm (waiter :: others))
      (hafter : after.Perm (waiter.decided outcome :: others)) :
      Decided test outcome before after (some waiter)

/-- No new waiter: one is decided, or some leave. -/
inductive WaitersEffect (before after : List LinuxMqueueWaiter) : Prop
  | decides (waiter : LinuxMqueueWaiter) (others : List LinuxMqueueWaiter)
      (outcome : LinuxMqueueWaitOutcome) (hwaiting : waiter.outcome = .waiting)
      (houtcome : outcome ≠ .waiting) (hbefore : before.Perm (waiter :: others))
      (hafter : after.Perm (waiter.decided outcome :: others)) : WaitersEffect before after
  | departs (gone : List LinuxMqueueWaiter) (hperm : before.Perm (gone ++ after)) :
      WaitersEffect before after

variable {before after : List LinuxMqueueWaiter} {queueId : Nat}
theorem Decided.effect {test outcome decided}
  (waiting : ∀ waiter, test waiter = true → waiter.outcome = .waiting)
  (houtcome : outcome ≠ .waiting) (hdecided : Decided test outcome before after decided) :
  WaitersEffect before after := by
  cases hdecided with
  | nobody hnobody same => exact .departs [] (.of_eq same.symm)
  | one waiter others passes hbefore hafter =>
    exact .decides waiter others outcome (waiting waiter passes) houtcome hbefore hafter

variable {waiter : LinuxMqueueWaiter}
/-- Nobody starts to wait. -/
theorem WaitersEffect.mem_waiting (effect : WaitersEffect before after) (hwaiter : waiter ∈ after)
  (waiting : waiter.outcome = .waiting) : waiter ∈ before := by
  cases effect with
  | decides found others outcome hfound houtcome hbefore hafter =>
    rcases mem_cons.mp (hafter.mem_iff.mp hwaiter) with rfl | other
    · exact absurd waiting houtcome
    · exact hbefore.mem_iff.mpr (mem_cons_of_mem _ other)
  | departs gone perm => exact perm.mem_iff.mpr (mem_append_right _ hwaiter)

variable {kind : LinuxMqueueWaitKind}
theorem wakeable_iff : waiter.wakeable queueId kind = true ↔
    waiter.queueId = queueId ∧ waiter.kind = kind ∧ waiter.outcome = .waiting := by
  simp [wakeable, and_assoc]

namespace LinuxMqueueState
variable {queueLimit handleLimit waiterLimit messageIndex now : Nat}
  {state after : LinuxMqueueState queueLimit handleLimit waiterLimit}
section
variable (state : LinuxMqueueState queueLimit handleLimit waiterLimit)

def contents : List Content := state.queues.map LinuxMqueueQueue.content

/-- The published waiters. -/
def published : List LinuxMqueueWaiter := state.waiters.reduceOption

def issued : Numbers where
  queues := state.nextQueueId + state.queueIdExhausted.toNat
  messages := state.nextMessageSequence + state.messageSequenceExhausted.toNat
  waiters := state.nextWaiterSequence + state.waiterSequenceExhausted.toNat

end

/-! ## Single changes of the state -/

variable {queue : LinuxMqueueQueue} {before : LinuxMqueueState queueLimit handleLimit waiterLimit}
  {handle idx prio : Nat} {reserved create exclusive ready : Bool} {bytes : List UInt8}
  {name : QueueName} {task : Identity}
theorem queueWhere_some {test} (hqueue : state.queueWhere test = some (idx, queue)) :
  state.queues[idx]? = some queue :=
  (firstPlace_some hqueue).1

theorem handle_mem (hqueue : state.queueByHandle handle = some (idx, queue)) :
  handle ∈ queue.handles := by
  unfold queueByHandle queueWhere at hqueue
  simpa using (firstPlace_some hqueue).2

theorem contents_around (hqueue : state.queues[idx]? = some queue) :
  ∃ others, state.contents.Perm (queue.content :: others) ∧
    (∀ repl : LinuxMqueueQueue, ((state.queues.set idx repl).map content).Perm
      (repl.content :: others)) ∧
    ((swapRemove state.queues idx).map content).Perm others := by
  obtain ⟨others, perm, hset, removed⟩ := perm_around hqueue
  exact ⟨others.map content, perm.map _, fun repl => (hset repl).map _, removed.map _⟩

variable {repl : LinuxMqueueQueue}
/-- Names, handles and the notification are not part of the content. -/
theorem contents_setQueue (hqueue : state.queues[idx]? = some queue)
  (content : repl.content = queue.content) :
  (state.setQueue idx repl).contents.Perm state.contents := by
  obtain ⟨others, before, hset, -⟩ := contents_around hqueue
  refine (hset repl).trans ?_
  rw [content]
  exact before.symm

theorem published_keepWaiters (test) :
  (state.keepWaiters test).published = state.published.filter test :=
  reduceOption_map_filter test state.waiters

section
variable (state : LinuxMqueueState queueLimit handleLimit waiterLimit)
theorem decideOldest_decided (test outcome) :
  Decided test outcome state.published (state.decideOldest test outcome).1.published
    ((state.oldestWaiter test).map Prod.snd) := by
  unfold decideOldest
  cases oldest : state.oldestWaiter test with
  | none => exact .nobody (oldestEntry_none oldest) rfl
  | some found =>
    obtain ⟨idx, waiter⟩ := found
    obtain ⟨slot, passes, -⟩ := oldestEntry_some oldest
    obtain ⟨others, before, hset⟩ := reduceOption_set slot
    exact .one waiter others passes before (hset _)

theorem decideOldest_elsewhere (test outcome) :
  (state.decideOldest test outcome).1.queues = state.queues ∧
    (state.decideOldest test outcome).1.issued = state.issued := by
  unfold decideOldest
  split
  · exact ⟨rfl, rfl⟩
  · exact ⟨rfl, rfl⟩

end

/-! ## Numbers -/

@[simp] theorem countMessage_waiters : state.countMessage.waiters = state.waiters := rfl

@[simp] theorem countMessage_queues : state.countMessage.queues = state.queues := rfl

/-! ## Sending and receiving -/

/-- A message joined the queue; the oldest waiting receiver, if any, was woken. -/
structure Sent (before after : LinuxMqueueState queueLimit handleLimit waiterLimit)
  (queue : Content) (message : LinuxMqueueMessage) : Prop where
  contents : ∃ others, before.contents.Perm (queue :: others) ∧ after.contents.Perm
      ({ queue with messages := queue.messages ++ [⟨message, before.issued.messages⟩] } :: others)
  wakes : Decided (wakeable queue.id .receive) .woken before.published after.published
    ((before.oldestWaiter (wakeable queue.id .receive)).map Prod.snd)
  issued : after.issued = { before.issued with messages := before.issued.messages + 1 }

/-- The best message left the queue; the oldest waiting sender, if any, was woken. -/
structure Received (before after : LinuxMqueueState queueLimit handleLimit waiterLimit)
  (queue : Content) (queued : LinuxMqueueQueuedMessage)
  (rest : List LinuxMqueueQueuedMessage) : Prop where
  contents : ∃ others, before.contents.Perm (queue :: others) ∧
    after.contents.Perm ({ queue with messages := rest } :: others)
  taken : queue.messages.Perm (queued :: rest)
  best : ∀ other ∈ queue.messages,
    LinuxMqueueQueue.preference queued ≤ LinuxMqueueQueue.preference other
  wakes : Decided (wakeable queue.id .send) .woken before.published after.published
    ((before.oldestWaiter (wakeable queue.id .send)).map Prod.snd)
  issued : after.issued = before.issued

theorem oldestWaiter_countMessage (test) :
  state.countMessage.oldestWaiter test = state.oldestWaiter test := by
  unfold oldestWaiter
  rw [countMessage_waiters]

theorem accept_sent (hqueue : state.queues[idx]? = some queue)
  (more : state.messageSequenceExhausted = false) (message) :
  Sent state (state.accept idx queue message).2 queue.content message := by
  obtain ⟨others, before, hset, -⟩ := contents_around hqueue
  have wakes := decideOldest_decided state.countMessage (wakeable queue.id .receive) .woken
  obtain ⟨queues, hissued⟩ := decideOldest_elsewhere state.countMessage
    (wakeable queue.id .receive) .woken
  have num : state.issued.messages = state.nextMessageSequence := by simp [issued, more]
  refine ⟨⟨others, before, ?_⟩, ?_,
    hissued.trans (congrArg (Numbers.mk _ · _) (countNumber_sum more))⟩
  · change ((decideOldest _ _ _).1.queues.set _ _ |>.map _).Perm _
    rw [num, queues, countMessage_queues]
    exact hset _
  · rw [oldestWaiter_countMessage, published, countMessage_waiters] at wakes
    exact wakes

theorem send_ok {outcome} (hsend : state.send handle bytes prio reserved = .ok (outcome, after)) :
  ∃ idx queue, state.queueByHandle handle = some (idx, queue) ∧
    Sent state after queue.content ⟨bytes, prio⟩ := by
  unfold send at hsend
  split at hsend
  · cases hsend
  rename_i idx queue hqueue
  split_ifs at hsend with hpriority large full refused
  have more : state.messageSequenceExhausted = false := by
    cases exhausted : state.messageSequenceExhausted with
    | false => rfl
    | true => simp [exhausted] at refused
  have sent := accept_sent (queueWhere_some hqueue) more ⟨bytes, prio⟩
  rw [Except.ok.inj hsend] at sent
  exact ⟨idx, queue, hqueue, sent⟩

/-- A send would block where the queue is full. -/
theorem send_wouldBlock (hsend : state.send handle bytes prio reserved = .error .wouldBlock) :
  ∃ idx queue, state.queueByHandle handle = some (idx, queue) ∧
    queue.attr.maxmsg ≤ queue.messages.length := by
  unfold send at hsend
  split at hsend
  · cases hsend
  rename_i idx queue hqueue
  split_ifs at hsend with hpriority large full refused
  · cases hsend
  · cases hsend
  · exact ⟨idx, queue, hqueue, full⟩
  · cases hsend

variable {queued : LinuxMqueueQueuedMessage} {deadline : Option Nat}
theorem bestMessage_some (best : queue.bestMessage = some (messageIndex, queued)) :
  queue.messages.Perm (queued :: swapRemove queue.messages messageIndex) ∧ ∀ other ∈ queue.messages,
    preference queued ≤ preference other := by
  obtain ⟨⟨place, hplace, pick⟩, least⟩ := leastEntry_some best
  cases pick
  obtain ⟨hlt, rfl⟩ := List.getElem?_eq_some_iff.mp hplace
  refine ⟨(swapRemove_perm hlt).symm, fun other hother => ?_⟩
  obtain ⟨pos, hpos⟩ := mem_iff_getElem?.mp hother
  exact (least hpos rfl).1

theorem bestMessage_eq_none : queue.bestMessage = none ↔ queue.messages = [] := by
  unfold bestMessage
  rw [leastEntry_eq_none, eq_nil_iff_forall_not_mem]
  simp

theorem deliver_received (hqueue : state.queues[idx]? = some queue)
  (best : queue.bestMessage = some (messageIndex, queued)) :
  Received state (state.deliver idx queue messageIndex queued.message).2 queue.content queued
    (swapRemove queue.messages messageIndex) := by
  obtain ⟨others, before, hset, -⟩ := contents_around hqueue
  obtain ⟨queues, issued⟩ := decideOldest_elsewhere state (wakeable queue.id .send) .woken
  obtain ⟨taken, preferred⟩ := bestMessage_some best
  refine ⟨⟨others, before, ?_⟩, taken, preferred, decideOldest_decided state _ _, issued⟩
  change ((decideOldest _ _ _).1.queues.set _ _ |>.map _).Perm _
  rw [queues]
  exact hset _

variable {bufferLen : Nat}
theorem receive_ok {outcome} (hrecv : state.receive handle bufferLen = .ok (outcome, after)) :
  ∃ idx queue messageIndex queued, state.queueByHandle handle = some (idx, queue) ∧
    queue.bestMessage = some (messageIndex, queued) ∧
    Received state after queue.content queued (swapRemove queue.messages messageIndex) := by
  unfold receive at hrecv
  split at hrecv
  · cases hrecv
  rename_i idx queue hqueue
  split_ifs at hrecv with small
  split at hrecv
  · cases hrecv
  rename_i messageIndex queued best
  have received := deliver_received (queueWhere_some hqueue) best
  rw [Except.ok.inj hrecv] at received
  exact ⟨idx, queue, messageIndex, queued, hqueue, best, received⟩

/-- A receive would block where the queue is empty. -/
theorem receive_wouldBlock (hrecv : state.receive handle bufferLen = .error .wouldBlock) :
  ∃ idx queue, state.queueByHandle handle = some (idx, queue) ∧ queue.messages = [] := by
  unfold receive at hrecv
  split at hrecv
  · cases hrecv
  rename_i idx queue hqueue
  split at hrecv
  · cases hrecv
  split at hrecv
  · rename_i best
    exact ⟨idx, queue, hqueue, bestMessage_eq_none.mp best⟩
  · cases hrecv

theorem mem_contents_of_handle (hqueue : state.queueByHandle handle = some (idx, queue)) :
  queue.content ∈ state.contents :=
  mem_map_of_mem (mem_of_getElem? (queueWhere_some hqueue))

/-! ## Opening and closing -/

/-- The queue that a call takes away: the last handle of a queue without a name is closed,
or the name of a queue without handles is unlinked. -/
def doomed (state : LinuxMqueueState queueLimit handleLimit waiterLimit) : MqueueCall → Option Nat
  | .closeHandle handle =>
    match state.queueByHandle handle with
    | none => none
    | some (_, queue) =>
      if queue.handles.length = 1 ∧ queue.name = none then some queue.id else none
  | .unlink name =>
    match linuxMqueueNameComponent name with
    | .error _ => none
    | .ok component =>
      match state.queueByName component with
      | none => none
      | some (_, queue) => if queue.handles = [] then some queue.id else none
  | _ => none

/-- What the calls that send and receive nothing do to the queues; the queue that goes. -/
inductive Lifecycle (before after : LinuxMqueueState queueLimit handleLimit waiterLimit) :
  Option Nat → Prop
  | keeps (hcontents : after.contents.Perm before.contents)
      (hpublished : after.published = before.published) (hissued : after.issued = before.issued) :
      Lifecycle before after none
  | creates (queue : Content) (hempty : queue.messages = [])
      (hid : queue.id = before.issued.queues) (hcontents : after.contents = before.contents ++ [queue])
      (hpublished : after.published = before.published)
      (hissued : after.issued = { before.issued with queues := before.issued.queues + 1 }) :
      Lifecycle before after none
  | destroys (queue : Content) (hcontents : before.contents.Perm (queue :: after.contents))
      (hpublished : after.published = before.published.filter (·.queueId != queue.id))
      (hissued : after.issued = before.issued) : Lifecycle before after (some queue.id)

theorem Lifecycle.unchanged : Lifecycle state state none := .keeps .rfl rfl rfl

theorem setQueue_lifecycle (hqueue : state.queues[idx]? = some queue)
  (content : repl.content = queue.content) : Lifecycle state (state.setQueue idx repl) none :=
  .keeps (contents_setQueue hqueue content) rfl rfl

theorem settleQueue_lifecycle (hqueue : state.queues[idx]? = some queue)
  (content : repl.content = queue.content) :
  Lifecycle state (state.settleQueue idx repl)
    (if repl.handles = [] ∧ repl.name = none then some queue.id else none) := by
  unfold settleQueue
  by_cases goes : repl.handles = [] ∧ repl.name = none
  · have check : (repl.handles.isEmpty && repl.name.isNone) = true := by
      simpa using goes
    rw [if_pos goes, if_pos check]
    obtain ⟨others, before, -, removed⟩ := contents_around hqueue
    have hid : repl.id = queue.content.id := congrArg Content.id content
    refine .destroys queue.content (before.trans (removed.symm.cons _)) ?_ rfl
    rw [← hid]
    exact published_keepWaiters _
  · have check : ¬ (repl.handles.isEmpty && repl.name.isNone) = true := by
      simpa using goes
    rw [if_neg goes, if_neg check]
    exact setQueue_lifecycle hqueue content

theorem openNamed_lifecycle {attr opened}
  (hopen : state.openNamed name handle create exclusive attr reserved = .ok (opened, after)) :
  Lifecycle state after none := by
  unfold openNamed at hopen
  obtain ⟨component, -, hopen⟩ := except_bind_ok hopen
  obtain ⟨-, -, hopen⟩ := except_bind_ok hopen
  split at hopen
  · rename_i idx queue hqueue
    split_ifs at hopen
    obtain ⟨-, rfl⟩ := Prod.mk.inj (Except.ok.inj hopen)
    exact setQueue_lifecycle (queueWhere_some hqueue) rfl
  split at hopen
  · cases hopen
  split at hopen
  · cases hopen
  rename_i limit
  obtain ⟨createdAttr, -, hopen⟩ := except_bind_ok hopen
  split at hopen
  · cases hopen
  obtain ⟨-, rfl⟩ := Prod.mk.inj (Except.ok.inj hopen)
  have more : state.queueIdExhausted = false := by
    cases exhausted : state.queueIdExhausted with
    | false => rfl
    | true => simp [exhausted] at limit
  refine .creates ⟨state.nextQueueId, createdAttr, []⟩ rfl ?_ ?_ rfl
    (congrArg (Numbers.mk · _ _) (countNumber_sum more))
  · simp [issued, more]
  · exact map_append

/-- A handle of the queue is closed: one fewer is left. -/
theorem detach_handles (hhandle : handle ∈ queue.handles) :
  (queue.detach handle).handles = [] ↔ queue.handles.length = 1 := by
  unfold detach
  cases find : queue.handles.findIdx? (· == handle) with
  | none =>
    have diff := findIdx?_eq_none_iff.mp find handle hhandle
    simp at diff
  | some pos =>
    obtain ⟨hlt, -⟩ := findIdx?_eq_some_iff_getElem.mp find
    have length := (swapRemove_perm hlt).length_eq
    rw [length_cons] at length
    rw [← length_eq_zero_iff]
    change (swapRemove queue.handles pos).length = 0 ↔ _
    omega

theorem closeHandle_lifecycle (handle) :
  Lifecycle state (state.closeHandle handle).1 (state.doomed (.closeHandle handle)) := by
  simp only [closeHandle, doomed]
  cases hqueue : state.queueByHandle handle with
  | none => exact .unchanged
  | some found =>
    obtain ⟨idx, queue⟩ := found
    simp only [← detach_handles (handle_mem hqueue)]
    exact settleQueue_lifecycle (queueWhere_some hqueue) rfl

theorem unlink_lifecycle (hunlink : state.unlink name = .ok after) :
  Lifecycle state after (state.doomed (.unlink name)) := by
  unfold unlink at hunlink
  obtain ⟨component, hcomponent, hunlink⟩ := except_bind_ok hunlink
  simp only [doomed, hcomponent]
  split at hunlink
  · cases hunlink
  rename_i idx queue hqueue
  cases hunlink
  have lifecycle : Lifecycle state (state.settleQueue idx { queue with name := none }) _ :=
    settleQueue_lifecycle (queueWhere_some hqueue) rfl
  simpa only [hqueue, and_true] using lifecycle

/-- A name that is not there dooms no queue. -/
theorem doomed_unlink_of_error {error} (hunlink : state.unlink name = .error error) :
  state.doomed (.unlink name) = none := by
  simp only [doomed]
  cases hcomponent : linuxMqueueNameComponent name with
  | error other => rfl
  | ok component =>
    cases queue : state.queueByName component with
    | none => simp only [queue]
    | some found =>
      simp only [unlink, hcomponent, queue, bind, Except.bind] at hunlink
      cases hunlink

theorem notify_lifecycle {notification} (hnotify : state.notify handle notification = .ok after) :
  Lifecycle state after none := by
  unfold notify at hnotify
  split at hnotify
  · cases hnotify
  rename_i idx queue hqueue
  split_ifs at hnotify
  cases hnotify
  exact setQueue_lifecycle (queueWhere_some hqueue) rfl

/-! ## Waiting -/

/-- A waiter was published on the queue of the handle. -/
structure Published (before after : LinuxMqueueState queueLimit handleLimit waiterLimit)
  (queue : LinuxMqueueQueue) (kind : LinuxMqueueWaitKind) (task : Identity)
  (deadline : Option Nat) : Prop where
  published : after.published.Perm
    (⟨queue.id, kind, task.1, task.2, deadline, before.issued.waiters, .waiting⟩ ::
      before.published)
  queues : after.queues = before.queues
  issued : after.issued = { before.issued with waiters := before.issued.waiters + 1 }

theorem pushWaiter_ok (push : state.pushWaiter handle kind task deadline = .ok after) :
  ∃ idx queue, state.queueByHandle handle = some (idx, queue) ∧
    Published state after queue kind task deadline := by
  unfold pushWaiter at push
  split at push
  · cases push
  split at push
  · cases push
  rename_i idx queue hqueue
  split at push
  · cases push
  rename_i exhausted
  split at push
  · cases push
  split at push
  · cases push
  rename_i filled fill
  cases push
  have more : state.waiterSequenceExhausted = false := by simpa using exhausted
  have num : state.nextWaiterSequence = state.issued.waiters := by simp [issued, more]
  refine ⟨idx, queue, hqueue, ?_, rfl, ?_⟩
  · rw [← num]
    exact fillFirst_perm fill
  · exact congrArg (Numbers.mk _ _) (countNumber_sum more)

/-- A registration answers whether the queue is ready and leaves the waiter either way. -/
theorem register_ok (register : state.register handle kind task deadline = .ok (ready, after)) :
  ∃ idx queue, state.queueByHandle handle = some (idx, queue) ∧
    ready = queue.ready kind ∧ Published state after queue kind task deadline := by
  obtain ⟨published, push, register⟩ := except_bind_ok register
  obtain ⟨answer, hready, register⟩ := except_bind_ok register
  cases register
  obtain ⟨idx, queue, hqueue, hpublished⟩ := pushWaiter_ok push
  refine ⟨idx, queue, hqueue, ?_, hpublished⟩
  have same : after.queueByHandle handle = some (idx, queue) := by
    unfold queueByHandle queueWhere
    rw [hpublished.queues]
    exact hqueue
  unfold LinuxMqueueState.ready at hready
  rw [same] at hready
  exact (Except.ok.inj hready).symm

/-- Waiters are decided or leave; nothing else changes. -/
structure WaitersChange (before after : LinuxMqueueState queueLimit handleLimit waiterLimit) :
  Prop where
  queues : after.queues = before.queues
  issued : after.issued = before.issued
  published : WaitersEffect before.published after.published

theorem expirable_waiting (waiter : LinuxMqueueWaiter) (hexpirable : waiter.expirable now = true) :
  waiter.outcome = .waiting := by
  simp only [expirable, Bool.and_eq_true, beq_iff_eq] at hexpirable
  exact hexpirable.1

theorem expireOne_changes (now) : WaitersChange state (state.expireOne now).1 := by
  obtain ⟨queues, issued⟩ := decideOldest_elsewhere state (expirable now) .timedOut
  have decided := decideOldest_decided state (expirable now) .timedOut
  exact ⟨queues, issued, decided.effect expirable_waiting LinuxMqueueWaitOutcome.noConfusion⟩

/-- The wait that an interruption ends. -/
def interruptible (task : Identity) (waiter : LinuxMqueueWaiter) : Bool :=
  waiter.identity == task && waiter.outcome == .waiting

theorem interruptible_waiting (waiter) (hinterruptible : interruptible task waiter = true) :
  waiter.outcome = .waiting := by
  simp only [interruptible, Bool.and_eq_true, beq_iff_eq] at hinterruptible
  exact hinterruptible.2

theorem interrupt_decided (state : LinuxMqueueState queueLimit handleLimit waiterLimit) (task) :
  Decided (interruptible task) .interrupted state.published (state.interrupt task).1.published
    ((firstEntry (interruptible task) state.waiters).map Prod.snd) := by
  unfold interrupt
  rw [show (fun waiter : LinuxMqueueWaiter => waiter.identity == task &&
    waiter.outcome == .waiting) = interruptible task from rfl]
  cases hfirst : firstEntry (interruptible task) state.waiters with
  | none => exact .nobody (firstEntry_eq_none.mp hfirst) rfl
  | some found =>
    obtain ⟨idx, waiter⟩ := found
    obtain ⟨slot, passes⟩ := firstEntry_some hfirst
    obtain ⟨others, before, hset⟩ := reduceOption_set slot
    exact .one waiter others passes before (hset _)

theorem interrupt_changes (task) : WaitersChange state (state.interrupt task).1 := by
  have elsewhere : (state.interrupt task).1.queues = state.queues ∧
    (state.interrupt task).1.issued = state.issued := by
    unfold interrupt
    split <;> exact ⟨rfl, rfl⟩
  exact ⟨elsewhere.1, elsewhere.2, (interrupt_decided state task).effect interruptible_waiting
    LinuxMqueueWaitOutcome.noConfusion⟩

/-- Collecting takes one decided waiter of the task away, if there is one. -/
theorem takeOutcome_departs (state : LinuxMqueueState queueLimit handleLimit waiterLimit) (task) :
  ∃ gone, state.published.Perm (gone ++ (state.takeOutcome task).1.published) ∧
    (gone = [] ↔ ∀ waiter ∈ state.published, waiter.identity = task → waiter.outcome = .waiting) ∧
    ∀ waiter ∈ gone, waiter.identity = task ∧ waiter.outcome ≠ .waiting := by
  unfold takeOutcome
  split
  · rename_i hfirst
    refine ⟨[], .rfl, ⟨fun _ waiter hwaiter identity => ?_, fun _ => rfl⟩, by simp⟩
    have fails := firstEntry_eq_none.mp hfirst waiter hwaiter
    simpa [identity] using fails
  rename_i idx waiter hfirst
  obtain ⟨slot, names⟩ := firstEntry_some hfirst
  obtain ⟨others, before, hset⟩ := reduceOption_set slot
  simp only [Bool.and_eq_true, beq_iff_eq, bne_iff_ne] at names
  refine ⟨[waiter], before.trans ((hset none).symm.cons waiter), ⟨fun hnil => ?_, ?_⟩, ?_⟩
  · cases hnil
  · intro waiting
    exact absurd (waiting waiter (before.mem_iff.mpr mem_cons_self) names.1) names.2
  · intro other hother
    cases mem_singleton.mp hother
    exact names

theorem takeOutcome_changes (task) : WaitersChange state (state.takeOutcome task).1 := by
  obtain ⟨gone, perm, -⟩ := takeOutcome_departs state task
  have elsewhere : (state.takeOutcome task).1.queues = state.queues ∧
    (state.takeOutcome task).1.issued = state.issued := by
    unfold takeOutcome
    split <;> exact ⟨rfl, rfl⟩
  exact ⟨elsewhere.1, elsewhere.2, .departs gone perm⟩

theorem removeTask_changes (task) : WaitersChange state (state.removeTask task).1 := by
  refine ⟨rfl, rfl, .departs (state.published.filter (!·.identity != task)) ?_⟩
  change state.published.Perm (_ ++ (state.keepWaiters _).published)
  rw [published_keepWaiters]
  exact (filter_append_perm _ _).symm.trans perm_append_comm

/-! ## All calls -/

/-- What a call does that moves no message, publishes no waiter and does not start afresh. -/
inductive Aside (before after : LinuxMqueueState queueLimit handleLimit waiterLimit) : Prop
  | lives (gone : Option Nat) (hlifecycle : Lifecycle before after gone) : Aside before after
  | waits (hchange : WaitersChange before after) : Aside before after

/-- What a call does. -/
inductive Effect (before after : LinuxMqueueState queueLimit handleLimit waiterLimit) : Prop
  | sends (queue : LinuxMqueueQueue) (message : LinuxMqueueMessage)
      (hsent : Sent before after queue.content message) : Effect before after
  | receives (queue : LinuxMqueueQueue) (queued : LinuxMqueueQueuedMessage)
      (rest : List LinuxMqueueQueuedMessage)
      (hreceived : Received before after queue.content queued rest) : Effect before after
  | publishes (queue : LinuxMqueueQueue) (kind : LinuxMqueueWaitKind) (task : Identity)
      (deadline : Option Nat) (hqueue : queue ∈ before.queues)
      (hpublished : Published before after queue kind task deadline) : Effect before after
  | aside (haside : Aside before after) : Effect before after
  | resets (hreset : after = new queueLimit handleLimit waiterLimit) : Effect before after

section
variable (state : LinuxMqueueState queueLimit handleLimit waiterLimit)
theorem next_aside {call} (haside : call.isAside = true) : Aside state (state.next call) := by
  cases call with
  | openNamed name handle create exclusive attr reserved =>
    simp only [next]
    split
    · rename_i hopen
      exact .lives _ (openNamed_lifecycle hopen)
    · exact .lives none .unchanged
  | closeHandle handle => exact .lives _ (closeHandle_lifecycle handle)
  | unlink name =>
    simp only [next]
    split
    · rename_i hunlink
      exact .lives _ (unlink_lifecycle hunlink)
    · exact .lives none .unchanged
  | notify handle notification =>
    simp only [next]
    split
    · rename_i hnotify
      exact .lives _ (notify_lifecycle hnotify)
    · exact .lives none .unchanged
  | send task handle bytes prio reserved => cases haside
  | receive task handle bufferLen => cases haside
  | register task handle kind due => cases haside
  | expireOne now => exact .waits (expireOne_changes now)
  | interrupt task => exact .waits (interrupt_changes task)
  | takeOutcome task => exact .waits (takeOutcome_changes task)
  | clearOutcome task => exact .waits (takeOutcome_changes task)
  | removeTask task => exact .waits (removeTask_changes task)
  | reset => cases haside

theorem next_effect (call) : Effect state (state.next call) := by
  cases hcall : call.isAside with
  | true => exact .aside (next_aside state hcall)
  | false =>
    cases call with
    | send task handle bytes prio reserved =>
      simp only [next]
      split
      · rename_i hsend
        obtain ⟨idx, queue, -, sent⟩ := send_ok hsend
        exact .sends queue _ sent
      · exact .aside (.lives none .unchanged)
    | receive task handle bufferLen =>
      simp only [next]
      split
      · rename_i hreceive
        obtain ⟨idx, queue, messageIndex, queued, -, -, received⟩ := receive_ok hreceive
        exact .receives queue queued _ received
      · exact .aside (.lives none .unchanged)
    | register task handle kind due =>
      simp only [next]
      split
      · rename_i hregister
        obtain ⟨idx, queue, hqueue, -, published⟩ := register_ok hregister
        exact .publishes queue kind task due (mem_of_getElem? (queueWhere_some hqueue)) published
      · exact .aside (.lives none .unchanged)
    | reset => exact .resets rfl
    | _ => cases hcall

end

section
variable (haside : Aside before after)
include haside
/-- Calls aside keep the contents of the queues that stay; a new queue is empty and has a
new number. -/
theorem Aside.mem_contents {content} (hcontent : content ∈ after.contents) :
  content ∈ before.contents ∨ content.messages = [] ∧ content.id = before.issued.queues := by
  cases haside with
  | lives gone lifecycle =>
    cases lifecycle with
    | keeps hcontents published issued => exact .inl (hcontents.mem_iff.mp hcontent)
    | creates queue empty hid hcontents published issued =>
      rw [hcontents] at hcontent
      rcases mem_append.mp hcontent with hold | hnew
      · exact .inl hold
      · rw [mem_singleton.mp hnew]
        exact .inr ⟨empty, hid⟩
    | destroys queue hcontents published issued =>
      exact .inl (hcontents.mem_iff.mpr (mem_cons_of_mem _ hcontent))
  | waits hchange =>
    unfold contents at hcontent ⊢
    rw [hchange.queues] at hcontent
    exact .inl hcontent

/-- Calls aside start no wait. -/
theorem Aside.mem_waiting (hwaiter : waiter ∈ after.published) (waiting : waiter.outcome = .waiting)
  : waiter ∈ before.published := by
  cases haside with
  | lives gone lifecycle =>
    cases lifecycle with
    | keeps contents published issued => rwa [published] at hwaiter
    | creates queue empty hid contents published issued => rwa [published] at hwaiter
    | destroys queue contents published issued =>
      rw [published] at hwaiter
      exact (mem_filter.mp hwaiter).1
  | waits hchange => exact hchange.published.mem_waiting hwaiter waiting

theorem Aside.issued_waiters : after.issued.waiters = before.issued.waiters := by
  cases haside with
  | lives gone lifecycle =>
    cases lifecycle with
    | keeps contents published issued => rw [issued]
    | creates queue empty hid contents published issued => rw [issued]
    | destroys queue contents published issued => rw [issued]
  | waits hchange => rw [hchange.issued]

end

theorem new_published : (new queueLimit handleLimit waiterLimit).published = [] :=
  reduceOption_replicate_none

end LinuxMqueueState
end Smros.Mqueue
