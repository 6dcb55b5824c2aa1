import Smros.Mqueue.Numbers

/-!
# Wakeups in flight

A task that was woken is to retry its call.  Until it does, the wakeup stands for one
message that a receiver may take, or for one free place that a sender may fill.  A task
that sleeps on a queue that is ready is covered by such wakeups, as long as no wakeup is
given up: nothing hands on the wakeup of a task that is removed or whose retry fails.
-/

namespace Smros.Mqueue
open Lib List LinuxMqueueState LinuxMqueueWaiter Nat

/-- What the queue has for tasks of a kind: messages to receive, or places to fill. -/
def Content.supply (content : Content) : LinuxMqueueWaitKind → Nat
  | .receive => content.messages.length
  | .send => content.attr.maxmsg - content.messages.length

/-- Of this kind, on this queue. -/
def LinuxMqueueWaiter.on (queueId : Nat) (kind : LinuxMqueueWaitKind)
  (waiter : LinuxMqueueWaiter) : Bool :=
  waiter.queueId == queueId && waiter.kind == kind

/-- Of this task, too. -/
def LinuxMqueueWaiter.owedTo (task : Identity) (queueId : Nat) (kind : LinuxMqueueWaitKind)
  (waiter : LinuxMqueueWaiter) : Bool :=
  waiter.identity == task && waiter.on queueId kind

/-- The message queues with what their callers are about to do. -/
structure Pending (queueLimit handleLimit waiterLimit : Nat) where
  state : LinuxMqueueState queueLimit handleLimit waiterLimit
  /-- Waiters whose registration found the queue ready: they will be withdrawn. -/
  withdrawing : List Nat
  /-- Waiters that were woken and whose task has not retried since. -/
  outstanding : List LinuxMqueueWaiter

namespace Pending
variable {queueLimit handleLimit waiterLimit queueId : Nat}

def start (queueLimit handleLimit waiterLimit : Nat) : Pending queueLimit handleLimit waiterLimit :=
  ⟨.new queueLimit handleLimit waiterLimit, [], []⟩

variable (pending : Pending queueLimit handleLimit waiterLimit)
/-- The wakeups after a task tried its call: a message moved or the queue was not ready. -/
def retried (task : Identity)
  (handle : Nat) (kind : LinuxMqueueWaitKind) : List LinuxMqueueWaiter :=
  match pending.state.queueByHandle handle with
  | none => pending.outstanding
  | some (_, queue) => pending.outstanding.eraseP (owedTo task queue.id kind)

/-- The waiter that a moved message wakes. -/
def wakes (handle : Nat) (kind : LinuxMqueueWaitKind) : List LinuxMqueueWaiter :=
  match pending.state.queueByHandle handle with
  | none => []
  | some (_, queue) => ((pending.state.oldestWaiter (wakeable queue.id kind)).map Prod.snd).toList

def outstandingNext : MqueueCall → List LinuxMqueueWaiter
  | .send task handle bytes priority reserved =>
    match pending.state.send handle bytes priority reserved with
    | .ok _ => pending.retried task handle .send ++ pending.wakes handle .receive
    | .error .wouldBlock => pending.retried task handle .send
    | .error _ => pending.outstanding
  | .receive task handle bufferLen =>
    match pending.state.receive handle bufferLen with
    | .ok _ => pending.retried task handle .receive ++ pending.wakes handle .send
    | .error .wouldBlock => pending.retried task handle .receive
    | .error _ => pending.outstanding
  | .reset => []
  | _ => pending.outstanding

def withdrawingNext : MqueueCall → List Nat
  | .register task handle kind deadline =>
    match pending.state.register handle kind task deadline with
    -- the number of the waiter that is published
    | .ok (true, _) => pending.withdrawing ++ [pending.state.issued.waiters]
    | _ => pending.withdrawing
  | .reset => []
  | _ => pending.withdrawing

/-- The call gives the wakeup up: it removes the task, or the task's retry fails otherwise
than by finding the queue not ready. -/
def forfeits (waiter : LinuxMqueueWaiter) : MqueueCall → Bool
  | .removeTask task => waiter.identity == task
  | .send task handle bytes priority reserved =>
    match pending.state.send handle bytes priority reserved with
    | .ok _ | .error .wouldBlock => false
    | .error _ => waiter.identity == task && waiter.kind == .send
  | .receive task handle bufferLen =>
    match pending.state.receive handle bufferLen with
    | .ok _ | .error .wouldBlock => false
    | .error _ => waiter.identity == task && waiter.kind == .receive
  | _ => false

def next (pending : Pending queueLimit handleLimit waiterLimit) (call : MqueueCall) :
    Pending queueLimit handleLimit waiterLimit :=
  ⟨pending.state.next call, pending.withdrawingNext call,
    (pending.outstandingNext call).filter fun waiter => !pending.forfeits waiter call⟩

/-- The call gives no outstanding wakeup up. -/
def Kept (pending : Pending queueLimit handleLimit waiterLimit) (call : MqueueCall) : Prop :=
  ∀ waiter ∈ pending.outstanding, pending.forfeits waiter call = false

instance (pending : Pending queueLimit handleLimit waiterLimit) (call : MqueueCall) :
    Decidable (Kept pending call) :=
  inferInstanceAs (Decidable (∀ waiter ∈ pending.outstanding, _))

/-- A task sleeps, or is about to: its waiter waits and will not be withdrawn. -/
structure Parked (pending : Pending queueLimit handleLimit waiterLimit)
  (waiter : LinuxMqueueWaiter) : Prop where
  published : waiter ∈ pending.state.published
  waiting : waiter.outcome = .waiting
  stays : waiter.sequence ∉ pending.withdrawing

structure Covered (pending : Pending queueLimit handleLimit waiterLimit) : Prop where
  sound : pending.state.Sound
  covered : ∀ content ∈ pending.state.contents, ∀ waiter, Parked pending waiter →
    waiter.queueId = content.id →
    content.supply waiter.kind ≤ pending.outstanding.countP (on content.id waiter.kind)
  sequences_nodup : (pending.outstanding.map sequence).Nodup
  sequences_lt : ∀ waiter ∈ pending.outstanding, waiter.sequence < pending.state.issued.waiters
  waiting_fresh : ∀ waiter ∈ pending.state.published, waiter.outcome = .waiting →
    waiter.sequence ∉ pending.outstanding.map sequence

variable {pending} {after : LinuxMqueueState queueLimit handleLimit waiterLimit}
theorem Kept.next_eq {call : MqueueCall} (kept : Kept pending call) : pending.next call =
    ⟨pending.state.next call, pending.withdrawingNext call, pending.outstandingNext call⟩ := by
  unfold next
  congr 1
  refine filter_eq_self.mpr fun waiter hwaiter => ?_
  have none := kept waiter
  rw [Bool.not_eq_true']
  cases call with
  | removeTask task => exact none hwaiter
  | send task handle bytes prio reserved =>
    simp only [forfeits, outstandingNext] at hwaiter none ⊢
    generalize pending.state.send handle bytes prio reserved = answer at hwaiter none ⊢
    obtain error | result := answer
    · cases error <;> first | rfl | exact none hwaiter
    · rfl
  | receive task handle bufferLen =>
    simp only [forfeits, outstandingNext] at hwaiter none ⊢
    generalize pending.state.receive handle bufferLen = answer at hwaiter none ⊢
    obtain error | result := answer
    · cases error <;> first | rfl | exact none hwaiter
    · rfl
  | _ => rfl

/-- A call aside parks nobody and fills no queue. -/
theorem Covered.aside (hcovered : Covered pending) (aside : Aside pending.state after) :
  Covered ⟨after, pending.withdrawing, pending.outstanding⟩ where
  sound := hcovered.sound.aside aside
  covered := by
    intro content hcontent waiter parked queue
    have before := aside.mem_waiting parked.published parked.waiting
    rcases aside.mem_contents hcontent with hold | ⟨-, hid⟩
    · exact hcovered.covered content hold waiter ⟨before, parked.waiting, parked.stays⟩ queue
    · have less := hcovered.sound.waiters.queues_lt waiter before
      omega
  sequences_nodup := hcovered.sequences_nodup
  sequences_lt := by
    intro waiter hwaiter
    change waiter.sequence < after.issued.waiters
    rw [aside.issued_waiters]
    exact hcovered.sequences_lt waiter hwaiter
  waiting_fresh waiter hwaiter waiting :=
    hcovered.waiting_fresh waiter (aside.mem_waiting hwaiter waiting) waiting

variable {before : LinuxMqueueState queueLimit handleLimit waiterLimit}
  {woken : Option LinuxMqueueWaiter} {own other kind : LinuxMqueueWaitKind} {queue moved : Content}
  {waiter : LinuxMqueueWaiter} {task : Identity}
theorem on_iff : waiter.on queueId kind = true ↔ waiter.queueId = queueId ∧ waiter.kind = kind := by
  simp [on]

/-- A retry on one queue and of one kind takes no other wakeup. -/
theorem owedTo_elsewhere {other otherKind} (hother : queueId ≠ other ∨ kind ≠ otherKind)
  (waiter : LinuxMqueueWaiter) (owed : waiter.owedTo task queueId kind = true) :
  waiter.on other otherKind = false := by
  simp only [owedTo, Bool.and_eq_true] at owed
  obtain ⟨queue, hkind⟩ := on_iff.mp owed.2
  cases hon : waiter.on other otherKind with
  | false => rfl
  | true =>
    obtain ⟨queueToo, kindToo⟩ := on_iff.mp hon
    rcases hother with diff | diff
    · exact absurd (queue.symm.trans queueToo) diff
    · exact absurd (hkind.symm.trans kindToo) diff

/-- A task found the queue not ready: its wakeup is spent, and none is needed. -/
theorem Covered.spend (hcovered : Covered pending) (hqueue : queue ∈ pending.state.contents)
  (nothing : queue.supply kind = 0) :
  Covered ⟨pending.state, pending.withdrawing,
    pending.outstanding.eraseP (owedTo task queue.id kind)⟩ where
  sound := hcovered.sound
  covered := by
    intro content hcontent waiter parked waits
    have before := hcovered.covered content hcontent waiter
      ⟨parked.published, parked.waiting, parked.stays⟩ waits
    by_cases same : queue.id = content.id ∧ kind = waiter.kind
    · obtain ⟨hid, rfl⟩ := same
      have hcontent : queue = content :=
        inj_on_of_nodup_map hcovered.sound.contents.ids_nodup hqueue hcontent hid
      rw [← hcontent, nothing]
      exact zero_le _
    · change _ ≤ countP _ (eraseP _ _)
      rw [countP_eraseP_of_disjoint (owedTo_elsewhere (not_and_or.mp same))]
      exact before
  sequences_nodup := hcovered.sequences_nodup.sublist (eraseP_sublist.map _)
  sequences_lt waiter hwaiter := hcovered.sequences_lt waiter (eraseP_sublist.subset hwaiter)
  waiting_fresh waiter hwaiter waiting hmem :=
    hcovered.waiting_fresh waiter hwaiter waiting ((eraseP_sublist.map _).subset hmem)

/-- What a moved message changes: the mover's kind has one fewer, the other kind one more,
and a waiter of the other kind is woken. -/
structure Moves (before after : LinuxMqueueState queueLimit handleLimit waiterLimit)
  (queue moved : Content) (own other : LinuxMqueueWaitKind) (woken : Option LinuxMqueueWaiter) :
  Prop where
  contents : ∃ others, before.contents.Perm (queue :: others) ∧ after.contents.Perm (moved :: others)
  id : moved.id = queue.id
  kinds : own ≠ other
  spends : moved.supply own ≤ queue.supply own - 1
  gains : moved.supply other ≤ queue.supply other + 1
  wakes : Decided (wakeable queue.id other) .woken before.published after.published woken
  issued : after.issued.waiters = before.issued.waiters

section
variable (moves : Moves before after queue moved own other woken)
include moves
theorem Moves.mem_waiting (hwaiter : waiter ∈ after.published) (waiting : waiter.outcome = .waiting)
  : waiter ∈ before.published :=
  (moves.wakes.effect (fun _ wakeable => (wakeable_iff.mp wakeable).2.2)
    LinuxMqueueWaitOutcome.noConfusion).mem_waiting hwaiter waiting

/-- Who was woken had waited for that kind of call on that queue. -/
theorem Moves.mem_woken (hwoken : waiter ∈ woken.toList) :
  waiter ∈ before.published ∧ waiter.wakeable queue.id other = true := by
  cases moves.wakes with
  | nobody hnobody same => cases hwoken
  | one found others passes hbefore after =>
    cases mem_singleton.mp hwoken
    exact ⟨hbefore.mem_iff.mpr mem_cons_self, passes⟩

/-- A waiter that still waits is not the one that was woken. -/
theorem Moves.waiting_ne_woken (sound : before.Sound) {found} (hwaiter : waiter ∈ after.published)
  (waiting : waiter.outcome = .waiting) (hwoken : found ∈ woken.toList) :
  waiter.sequence ≠ found.sequence := by
  cases moves.wakes with
  | nobody hnobody same => cases hwoken
  | one found others passes hbefore hafter =>
    cases mem_singleton.mp hwoken
    rcases mem_cons.mp (hafter.mem_iff.mp hwaiter) with rfl | other
    · cases waiting
    have nodup := (sound.waiters.of_perm hbefore).sequences_nodup
    intro same
    exact (nodup_cons.mp nodup).1 (same ▸ mem_map_of_mem other)

end

theorem other_kind (kinds : own ≠ other) (hkind : kind ≠ own) : kind = other := by
  cases own <;> cases other <;> cases kind <;> first | rfl | contradiction

theorem Covered.move (covered : Covered pending) (sound : after.Sound)
  (moves : Moves pending.state after queue moved own other woken) (task) :
  Covered ⟨after, pending.withdrawing,
    pending.outstanding.eraseP (owedTo task queue.id own) ++ woken.toList⟩ := by
  obtain ⟨others, before, hafter⟩ := moves.contents
  have hids := (covered.sound.contents.of_perm before).ids_nodup
  refine ⟨sound, fun content hcontent waiter parked waits => ?_, ?_, ?_, ?_⟩
  · have hold := moves.mem_waiting parked.published parked.waiting
    have parkedBefore : Parked pending waiter := ⟨hold, parked.waiting, parked.stays⟩
    change _ ≤ countP _ (eraseP _ _ ++ _)
    rw [countP_append]
    rcases mem_cons.mp (hafter.mem_iff.mp hcontent) with rfl | hother
    · rw [moves.id] at waits ⊢
      have hqueue := covered.covered queue (before.mem_iff.mpr mem_cons_self) waiter
        parkedBefore waits
      by_cases kind : waiter.kind = own
      · have spends := moves.spends
        have hleft := countP_le_eraseP (on queue.id own)
          (owedTo task queue.id own) pending.outstanding
        rw [kind] at hqueue ⊢
        omega
      have receiver := other_kind moves.kinds kind
      have gains := moves.gains
      have wakeable : waiter.wakeable queue.id other = true :=
        wakeable_iff.mpr ⟨waits, receiver, parked.waiting⟩
      rw [countP_eraseP_of_disjoint (owedTo_elsewhere (.inr fun same => kind same.symm))]
      rw [receiver] at hqueue ⊢
      have hone : woken.toList.countP (on queue.id other) = 1 := by
        cases moves.wakes with
        | nobody hnobody same =>
          rw [hnobody waiter hold] at wakeable
          cases wakeable
        | one found rest passes beforeWakes afterWakes =>
          obtain ⟨queueId, foundKind, -⟩ := wakeable_iff.mp passes
          exact countP_eq_length.mpr fun waiter hwaiter => by
            cases mem_singleton.mp hwaiter
            exact on_iff.mpr ⟨queueId, foundKind⟩
      omega
    · have diff : queue.id ≠ content.id := fun same =>
        (nodup_cons.mp hids).1 (mem_map.mpr ⟨content, hother, same.symm⟩)
      have contentBefore := covered.covered content
        (before.mem_iff.mpr (mem_cons_of_mem _ hother)) waiter parkedBefore waits
      rw [countP_eraseP_of_disjoint (owedTo_elsewhere (.inl diff))]
      omega
  · change (map _ (eraseP _ _ ++ _)).Nodup
    rw [map_append]
    refine nodup_append.mpr ⟨covered.sequences_nodup.sublist (eraseP_sublist.map _), ?_, ?_⟩
    · cases woken with
      | none => exact nodup_nil
      | some found => exact nodup_singleton _
    intro first hfirst snd hsnd same
    obtain ⟨found, hfound, rfl⟩ := mem_map.mp hsnd
    obtain ⟨published, wakeable⟩ := moves.mem_woken hfound
    refine covered.waiting_fresh found published (wakeable_iff.mp wakeable).2.2 ?_
    rw [← same]
    exact (eraseP_sublist.map _).subset hfirst
  · intro waiter hwaiter
    change waiter.sequence < after.issued.waiters
    rw [moves.issued]
    rcases mem_append.mp hwaiter with hold | hwoken
    · exact covered.sequences_lt waiter (eraseP_sublist.subset hold)
    · exact covered.sound.waiters.sequences_lt waiter (moves.mem_woken hwoken).1
  · intro waiter hwaiter waiting hmem
    change waiter.sequence ∈ map _ (eraseP _ _ ++ _) at hmem
    rw [map_append] at hmem
    rcases mem_append.mp hmem with hold | hwoken
    · exact covered.waiting_fresh waiter (moves.mem_waiting hwaiter waiting) waiting
        ((eraseP_sublist.map _).subset hold)
    · obtain ⟨found, hfound, same⟩ := mem_map.mp hwoken
      exact moves.waiting_ne_woken covered.sound hwaiter waiting hfound same.symm

/-! ## Steps -/

open Content (supply)

theorem sent_moves {msg} (sent : Sent before after queue msg) : Moves before after queue
    { queue with messages := queue.messages ++ [⟨msg, before.issued.messages⟩] }
    .send .receive
    ((before.oldestWaiter (wakeable queue.id .receive)).map Prod.snd) where
  contents := sent.contents
  id := rfl
  kinds := nofun
  spends := by
    simp only [supply, length_append, length_singleton]
    omega
  gains := by
    simp only [supply, length_append, length_singleton]
    omega
  wakes := sent.wakes
  issued := by rw [sent.issued]

theorem received_moves {queued rest} (recv : Received before after queue queued rest) :
  Moves before after queue { queue with messages := rest } .receive .send
    ((before.oldestWaiter (wakeable queue.id .send)).map Prod.snd) := by
  have length := recv.taken.length_eq
  rw [length_cons] at length
  refine ⟨recv.contents, rfl, nofun, ?_, ?_, recv.wakes, ?_⟩
  · simp only [supply]
    omega
  · simp only [supply]
    omega
  · rw [recv.issued]

open LinuxMqueueState (send_ok send_wouldBlock mem_contents_of_handle receive_ok register_ok queueWhere_some)

theorem Covered.send (covered : Covered pending) {task handle bytes prio reserved}
    (kept : Kept pending (.send task handle bytes prio reserved)) :
    Covered (pending.next (.send task handle bytes prio reserved)) := by
  rw [kept.next_eq]
  simp only [LinuxMqueueState.next, withdrawingNext, outstandingNext]
  cases send : pending.state.send handle bytes prio reserved with
  | ok result =>
    obtain ⟨outcome, after⟩ := result
    obtain ⟨idx, queue, hqueue, sent⟩ := send_ok send
    have moved := covered.move (covered.sound.sent sent) (sent_moves sent) task
    simp only [retried, wakes, hqueue]
    exact moved
  | error error =>
    by_cases full : error = .wouldBlock
    · subst full
      obtain ⟨idx, queue, hqueue, room⟩ := send_wouldBlock send
      simp only [retried, hqueue]
      exact covered.spend (mem_contents_of_handle hqueue) (Nat.sub_eq_zero_of_le room)
    · cases error <;> first | exact covered | contradiction

theorem Covered.receive (covered : Covered pending) {task handle bufferLen}
    (kept : Kept pending (.receive task handle bufferLen)) :
    Covered (pending.next (.receive task handle bufferLen)) := by
  rw [kept.next_eq]
  simp only [LinuxMqueueState.next, withdrawingNext, outstandingNext]
  cases receive : pending.state.receive handle bufferLen with
  | ok result =>
    obtain ⟨outcome, after⟩ := result
    obtain ⟨idx, queue, messageIndex, queued, hqueue, -, received⟩ := receive_ok receive
    have moved := covered.move (covered.sound.received received) (received_moves received) task
    simp only [retried, wakes, hqueue]
    exact moved
  | error error =>
    by_cases empty : error = .wouldBlock
    · subst empty
      obtain ⟨idx, queue, hqueue, nothing⟩ := LinuxMqueueState.receive_wouldBlock receive
      simp only [retried, hqueue]
      exact covered.spend (mem_contents_of_handle hqueue) (length_eq_zero_iff.mpr nothing)
    · cases error <;> first | exact covered | contradiction

/-- Where the queue is not ready there is nothing to supply. -/
theorem supply_eq_zero {queue : LinuxMqueueQueue}
  (ready : queue.ready kind = false) : queue.content.supply kind = 0 := by
  cases kind with
  | send => simpa [LinuxMqueueQueue.ready, supply, LinuxMqueueQueue.content,
      Nat.sub_eq_zero_iff_le] using ready
  | receive => simpa [LinuxMqueueQueue.ready, supply, LinuxMqueueQueue.content] using ready

/-- A registration parks its task only where the queue has nothing for it. -/
theorem Covered.publish {queue : LinuxMqueueQueue} {due : Option Nat} {withdrawing : List Nat}
  (covered : Covered pending) (hqueue : queue.content ∈ pending.state.contents)
  (sound : after.Sound) (published : Published pending.state after queue kind task due)
  (grows : ∀ sequence, sequence ∉ withdrawing → sequence ∉ pending.withdrawing)
  (ready : pending.state.issued.waiters ∈ withdrawing ∨ queue.ready kind = false) :
  Covered ⟨after, withdrawing, pending.outstanding⟩ := by
  have hcontents : after.contents = pending.state.contents := by
    unfold contents
    rw [published.queues]
  refine ⟨sound, fun content hcontent waiter parked waits => ?_, covered.sequences_nodup,
    fun waiter hwaiter => ?_, fun waiter hwaiter waiting => ?_⟩
  · change content ∈ after.contents at hcontent
    rw [hcontents] at hcontent
    rcases mem_cons.mp (published.published.mem_iff.mp parked.published) with rfl | hold
    · rcases ready with withdrawn | ready
      · exact absurd withdrawn parked.stays
      have same : queue.content = content :=
        inj_on_of_nodup_map covered.sound.contents.ids_nodup hqueue hcontent waits
      rw [← same, supply_eq_zero ready]
      exact zero_le _
    · exact covered.covered content hcontent waiter
        ⟨hold, parked.waiting, grows _ parked.stays⟩ waits
  · change waiter.sequence < after.issued.waiters
    rw [published.issued]
    exact lt_succ_of_lt (covered.sequences_lt waiter hwaiter)
  · rcases mem_cons.mp (published.published.mem_iff.mp hwaiter) with rfl | hold
    · intro hmem
      obtain ⟨found, hfound, same⟩ := mem_map.mp hmem
      have less := covered.sequences_lt found hfound
      exact absurd same (Nat.ne_of_lt less)
    · exact covered.waiting_fresh waiter hold waiting

theorem Covered.register (covered : Covered pending) {task handle kind due}
    (kept : Kept pending (.register task handle kind due)) :
    Covered (pending.next (.register task handle kind due)) := by
  rw [kept.next_eq]
  simp only [LinuxMqueueState.next, withdrawingNext, outstandingNext]
  cases register : pending.state.register handle kind task due with
  | error error => exact covered
  | ok result =>
    obtain ⟨ready, after⟩ := result
    obtain ⟨idx, queue, hqueue, hready, published⟩ := register_ok register
    have hmem := mem_contents_of_handle hqueue
    have sound := covered.sound.published (mem_of_getElem? (queueWhere_some hqueue)) published
    cases ready with
    | false => exact covered.publish hmem sound published (fun _ hnot => hnot) (.inr hready.symm)
    | true =>
      refine covered.publish hmem sound published (fun seq hnot hold => ?_) (.inl ?_)
      · exact hnot (mem_append_left _ hold)
      · exact mem_append_right _ mem_cons_self

theorem start_covered (queueLimit handleLimit waiterLimit) :
  Covered (start queueLimit handleLimit waiterLimit) where
  sound := new_sound queueLimit handleLimit waiterLimit
  covered := by
    intro content hcontent
    cases hcontent
  sequences_nodup := nodup_nil
  sequences_lt := by
    intro waiter hwaiter
    cases hwaiter
  waiting_fresh := by
    intro waiter hwaiter waiting hmem
    cases hmem

theorem Covered.next (covered : Covered pending) {call} (kept : Kept pending call) :
    Covered (pending.next call) := by
  cases hcall : call.isAside with
  | true =>
    rw [kept.next_eq]
    have aside := covered.aside (next_aside pending.state hcall)
    cases call with
    | send task handle bytes prio reserved => cases hcall
    | receive task handle bufferLen => cases hcall
    | register task handle kind due => cases hcall
    | reset => cases hcall
    | _ => exact aside
  | false =>
    cases call with
    | send task handle bytes prio reserved => exact covered.send kept
    | receive task handle bufferLen => exact covered.receive kept
    | register task handle kind due => exact covered.register kept
    | reset => exact start_covered queueLimit handleLimit waiterLimit
    | _ => cases hcall

/-- Two receivers wait and one message comes. -/
def firstWoken : List MqueueCall :=
  [.openNamed [113] 1 true false none true, .register (4, 2) 1 .receive none,
    .register (5, 3) 1 .receive none, .send (6, 4) 1 [7] 0 true]

end Pending
end Smros.Mqueue
