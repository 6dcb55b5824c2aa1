import Smros.Mqueue.Numbers

/-!
# How waiters leave

A task that waits learns what became of its wait from the outcome in its slot.  So a
waiter should leave only when its own task collects the outcome or is removed.  A queue
that goes away takes its waiters with it without a word.
-/

namespace Smros.Mqueue
open Lib List LinuxMqueueWaitOutcome

abbrev Continues := Lib.Continues LinuxMqueueWaiter.outcome LinuxMqueueWaiter.decided .waiting

variable {waiter : LinuxMqueueWaiter} {test : LinuxMqueueWaiter → Bool}
  {outcome : LinuxMqueueWaitOutcome}
  {before after : List LinuxMqueueWaiter} {decided : Option LinuxMqueueWaiter}
theorem Decided.continues (hdecided : Decided test outcome before after decided)
  (waiting : ∀ waiter, test waiter = true → waiter.outcome = .waiting)
  (houtcome : outcome ≠ .waiting) (hwaiter : waiter ∈ before) :
  ∃ later ∈ after, Continues waiter later := by
  cases hdecided with
  | nobody hnobody same =>
    rw [same]
    exact ⟨waiter, hwaiter, .inl rfl⟩
  | one found others passes hbefore hafter =>
    rcases mem_cons.mp (hbefore.mem_iff.mp hwaiter) with rfl | other
    · exact ⟨_, hafter.mem_iff.mpr mem_cons_self, .inr ⟨waiting _ passes, outcome, houtcome, rfl⟩⟩
    · exact ⟨waiter, hafter.mem_iff.mpr (mem_cons_of_mem _ other), .inl rfl⟩

namespace LinuxMqueueState
variable {queueLimit handleLimit waiterLimit : Nat}
  {state after : LinuxMqueueState queueLimit handleLimit waiterLimit}
section
variable (state : LinuxMqueueState queueLimit handleLimit waiterLimit)
/-- The tasks that a call reports, so that they are woken. -/
def reported : MqueueCall → List Identity
  | .send _ handle bytes priority reserved =>
    match state.send handle bytes priority reserved with
    | .ok (outcome, _) => outcome.receiver.toList
    | .error _ => []
  | .receive _ handle bufferLen =>
    match state.receive handle bufferLen with
    | .ok (outcome, _) => outcome.sender.toList
    | .error _ => []
  | .expireOne now => (state.expireOne now).2.toList
  | .interrupt task => if (state.interrupt task).2 then [task] else []
  | _ => []

/-- The queue exists before the call and not after it. -/
def QueueGoes (call : MqueueCall) (id : Nat) : Prop :=
  id ∈ state.contents.map Content.id ∧ id ∉ (state.next call).contents.map Content.id

/-- Waiters leave only to their own task, or with it; one whose queue goes away is decided
and reported. -/
def KeepsWaiters (call : MqueueCall) : Prop :=
  ∀ waiter ∈ state.published, (∃ later ∈ (state.next call).published, Continues waiter later ∧
      (waiter.outcome = .waiting → state.QueueGoes call waiter.queueId →
        later.outcome ≠ .waiting ∧ waiter.identity ∈ state.reported call)) ∨
    call = .takeOutcome waiter.identity ∧ waiter.outcome ≠ .waiting ∨
    call = .removeTask waiter.identity

/-- No waiter stands in the way: a queue goes away only when nobody waits for it, the
queues are reset only when nobody waits at all, and an interruption finds no outcome to
clear. -/
def WaitersUntouched : MqueueCall → Prop
  | .reset => state.published = []
  | .clearOutcome task =>
    ∀ waiter ∈ state.published, waiter.identity = task → waiter.outcome = .waiting
  | call => ∀ waiter ∈ state.published, state.doomed call ≠ some waiter.queueId

end

/-! ## Calls that keep the queues -/

variable {call : MqueueCall}
/-- Where every waiter continues and no queue goes, nothing is asked for. -/
theorem keeps_of_continues (hnext : state.next call = after)
  (hids : ∀ id ∈ state.contents.map Content.id, id ∈ after.contents.map Content.id)
  (continues : ∀ waiter ∈ state.published, ∃ later ∈ after.published, Continues waiter later) :
  state.KeepsWaiters call := by
  subst hnext
  intro waiter hwaiter
  obtain ⟨later, hlater, continues⟩ := continues waiter hwaiter
  exact .inl ⟨later, hlater, continues, fun _ goes => absurd (hids _ goes.1) goes.2⟩

theorem keeps_of_same (hnext : state.next call = state) : state.KeepsWaiters call :=
  keeps_of_continues hnext (fun _ hid => hid) fun waiter hwaiter => ⟨waiter, hwaiter, .inl rfl⟩

theorem wakeable_waiting {queueId kind} (waiter : LinuxMqueueWaiter)
  (wakeable : waiter.wakeable queueId kind = true) : waiter.outcome = .waiting :=
  (wakeable_iff.mp wakeable).2.2

/-- Replacing the messages of a queue keeps the queues. -/
theorem ids_replaced {before after others : List Content} {queue : Content}
  {msgs : List LinuxMqueueQueuedMessage} (hbefore : before.Perm (queue :: others))
  (hafter : after.Perm ({ queue with messages := msgs } :: others)) :
  ∀ id ∈ before.map Content.id, id ∈ after.map Content.id := by
  intro id hid
  have hmem := (hbefore.map Content.id).mem_iff.mp hid
  exact (hafter.map Content.id).mem_iff.mpr hmem

theorem send_keepsWaiters (task handle bytes prio reserved) :
  state.KeepsWaiters (.send task handle bytes prio reserved) := by
  cases send : state.send handle bytes prio reserved with
  | error error => exact keeps_of_same (by simp only [next, send])
  | ok result =>
    obtain ⟨outcome, after⟩ := result
    obtain ⟨idx, queue, -, sent⟩ := send_ok send
    obtain ⟨others, before, hafter⟩ := sent.contents
    exact keeps_of_continues (by simp only [next, send]) (ids_replaced before hafter)
      fun waiter hwaiter => sent.wakes.continues wakeable_waiting noConfusion hwaiter

theorem receive_keepsWaiters (task handle bufferLen) :
  state.KeepsWaiters (.receive task handle bufferLen) := by
  cases receive : state.receive handle bufferLen with
  | error error => exact keeps_of_same (by simp only [next, receive])
  | ok result =>
    obtain ⟨outcome, after⟩ := result
    obtain ⟨idx, queue, messageIndex, queued, -, -, received⟩ := receive_ok receive
    obtain ⟨others, before, hafter⟩ := received.contents
    exact keeps_of_continues (by simp only [next, receive]) (ids_replaced before hafter)
      fun waiter hwaiter => received.wakes.continues wakeable_waiting noConfusion hwaiter

theorem register_keepsWaiters (task handle kind due) :
  state.KeepsWaiters (.register task handle kind due) := by
  cases register : state.register handle kind task due with
  | error error => exact keeps_of_same (by simp only [next, register])
  | ok result =>
    obtain ⟨ready, after⟩ := result
    obtain ⟨idx, queue, -, -, published⟩ := register_ok register
    refine keeps_of_continues (by simp only [next, register]) ?_ fun waiter hwaiter =>
      ⟨waiter, published.published.mem_iff.mpr (mem_cons_of_mem _ hwaiter), .inl rfl⟩
    unfold contents
    rw [published.queues]
    exact fun id hid => hid

/-- A decision by the timer or by a signal. -/
theorem decided_keepsWaiters (hchange : WaitersChange state (state.next call))
  (waiting : ∀ waiter, test waiter = true → waiter.outcome = .waiting)
  (houtcome : outcome ≠ .waiting)
  (hdecided : Decided test outcome state.published (state.next call).published decided) :
  state.KeepsWaiters call := by
  refine keeps_of_continues rfl ?_ fun waiter hwaiter => hdecided.continues waiting houtcome hwaiter
  unfold contents
  rw [hchange.queues]
  exact fun id hid => hid

/-! ## Calls that take waiters away -/

/-- The own task collects, or goes. -/
theorem takeOutcome_keepsWaiters (task) : state.KeepsWaiters (.takeOutcome task) := by
  intro waiter hwaiter
  obtain ⟨gone, perm, -, hgone⟩ := takeOutcome_departs state task
  rcases mem_append.mp (perm.mem_iff.mp hwaiter) with leaves | stays
  · obtain ⟨rfl, decided⟩ := hgone waiter leaves
    exact .inr (.inl ⟨rfl, decided⟩)
  refine .inl ⟨waiter, stays, .inl rfl, fun _ goes => ?_⟩
  have queues : (state.next (.takeOutcome task)).queues = state.queues :=
    (takeOutcome_changes task).queues
  unfold QueueGoes contents at goes
  rw [queues] at goes
  exact absurd goes.1 goes.2

theorem removeTask_keepsWaiters (task) : state.KeepsWaiters (.removeTask task) := by
  intro waiter hwaiter
  by_cases owner : waiter.identity = task
  · exact .inr (.inr (by rw [owner]))
  refine .inl ⟨waiter, ?_, .inl rfl, fun _ goes => absurd goes.1 goes.2⟩
  change waiter ∈ (state.keepWaiters _).published
  rw [published_keepWaiters]
  exact mem_filter.mpr ⟨hwaiter, by simpa using owner⟩

/-- An interruption that clears the outcome of another task takes a waiter from it. -/
theorem clearOutcome_keeps_iff (sound : state.Sound) (task) :
  state.KeepsWaiters (.clearOutcome task) ↔ state.WaitersUntouched (.clearOutcome task) := by
  obtain ⟨gone, perm, nobody, hgone⟩ := takeOutcome_departs state task
  change _ ↔ ∀ waiter ∈ state.published, waiter.identity = task → waiter.outcome = .waiting
  rw [← nobody]
  refine ⟨fun keeps => eq_nil_iff_forall_not_mem.mpr fun waiter leaves => ?_, ?_⟩
  · rcases keeps waiter (perm.mem_iff.mpr (mem_append_left _ leaves)) with
      ⟨later, hlater, continues, -⟩ | ⟨call, -⟩ | call
    · rw [continues.eq_of_decided (hgone waiter leaves).2] at hlater
      have nodup := (sound.waiters.of_perm perm).sequences_nodup
      rw [map_append] at nodup
      exact (nodup_append.mp nodup).2.2 _ (mem_map_of_mem leaves) _ (mem_map_of_mem hlater) rfl
    · cases call
    · cases call
  · rintro rfl waiter hwaiter
    refine .inl ⟨waiter, perm.mem_iff.mp hwaiter, .inl rfl, fun _ goes => ?_⟩
    have queues : (state.next (.clearOutcome task)).queues = state.queues :=
      (takeOutcome_changes task).queues
    unfold QueueGoes contents at goes
    rw [queues] at goes
    exact absurd goes.1 goes.2

/-- A queue that goes away takes its waiters with it. -/
theorem lifecycle_keeps_iff {gone} (lifecycle : Lifecycle state after gone)
  (hnext : state.next call = after) (collects : ∀ task, call ≠ .takeOutcome task)
  (removes : ∀ task, call ≠ .removeTask task) :
  state.KeepsWaiters call ↔ ∀ waiter ∈ state.published, gone ≠ some waiter.queueId := by
  subst hnext
  cases lifecycle with
  | keeps contents published issued =>
    refine ⟨fun _ waiter _ => nofun, fun _ => keeps_of_continues rfl ?_ ?_⟩
    · exact fun id hid => (contents.map Content.id).mem_iff.mpr hid
    · rw [published]
      exact fun waiter hwaiter => ⟨waiter, hwaiter, .inl rfl⟩
  | creates queue empty hid contents published issued =>
    refine ⟨fun _ waiter _ => nofun, fun _ => keeps_of_continues rfl ?_ ?_⟩
    · rw [contents, map_append]
      exact fun id hid => mem_append_left _ hid
    · rw [published]
      exact fun waiter hwaiter => ⟨waiter, hwaiter, .inl rfl⟩
  | destroys queue contents published issued =>
    refine ⟨fun hkeeps waiter hwaiter doomed => ?_, fun nobody waiter hwaiter => ?_⟩
    · rcases hkeeps waiter hwaiter with ⟨later, hlater, continues, -⟩ | ⟨hcall, -⟩ | hcall
      · rw [published] at hlater
        have other := (mem_filter.mp hlater).2
        have same : later.queueId = waiter.queueId := continues.value_eq fun _ _ => rfl
        rw [same, ← Option.some.inj doomed] at other
        simp at other
      · exact collects _ hcall
      · exact removes _ hcall
    · have other : waiter.queueId ≠ queue.id := fun same =>
        nobody waiter hwaiter (congrArg some same.symm)
      refine .inl ⟨waiter, ?_, .inl rfl, fun _ goes => ?_⟩
      · rw [published]
        exact mem_filter.mpr ⟨hwaiter, by simpa using other⟩
      obtain ⟨before, after⟩ := goes
      rcases mem_cons.mp ((contents.map Content.id).mem_iff.mp before) with
        same | stays
      · exact absurd same other
      · exact absurd stays after

theorem reset_keepsWaiters_iff : state.KeepsWaiters .reset ↔ state.WaitersUntouched .reset := by
  have nobody : (state.next .reset).published = [] := new_published
  refine ⟨fun keeps => eq_nil_iff_forall_not_mem.mpr fun waiter hwaiter => ?_, ?_⟩
  · rcases keeps waiter hwaiter with ⟨later, hlater, -⟩ | ⟨call, -⟩ | call
    · rw [nobody] at hlater
      cases hlater
    · cases call
    · cases call
  · intro empty waiter hwaiter
    change state.published = [] at empty
    rw [empty] at hwaiter
    cases hwaiter

/-- Calls that doom no queue and clear no outcome touch no waiter. -/
theorem untouched_of_not_doomed (keeps : state.KeepsWaiters call)
  (doomed : state.doomed call = none) (untouched : state.WaitersUntouched call =
    ∀ waiter ∈ state.published, state.doomed call ≠ some waiter.queueId) :
  state.KeepsWaiters call ↔ state.WaitersUntouched call := by
  rw [untouched, doomed]
  exact ⟨fun _ waiter _ => nofun, fun _ => keeps⟩

theorem keepsWaiters_iff (sound : state.Sound) (call) :
  state.KeepsWaiters call ↔ state.WaitersUntouched call := by
  cases call with
  | openNamed name handle create exclusive attr reserved =>
    refine untouched_of_not_doomed ?_ rfl rfl
    cases hopen : state.openNamed name handle create exclusive attr reserved with
    | error error => exact keeps_of_same (by simp only [next, hopen])
    | ok result =>
      have lifecycle := openNamed_lifecycle hopen
      exact (lifecycle_keeps_iff lifecycle (by simp only [next, hopen]) (by simp)
        (by simp)).mpr fun _ _ => (Option.some_ne_none _).symm
  | closeHandle handle =>
    exact lifecycle_keeps_iff (closeHandle_lifecycle handle) rfl (by simp) (by simp)
  | unlink name =>
    cases hunlink : state.unlink name with
    | error error =>
      have same : state.next (.unlink name) = state := by simp only [next, hunlink]
      exact untouched_of_not_doomed (keeps_of_same same) (doomed_unlink_of_error hunlink) rfl
    | ok after =>
      exact lifecycle_keeps_iff (unlink_lifecycle hunlink) (by simp only [next, hunlink])
        (by simp) (by simp)
  | notify handle notification =>
    refine untouched_of_not_doomed ?_ rfl rfl
    cases hnotify : state.notify handle notification with
    | error error => exact keeps_of_same (by simp only [next, hnotify])
    | ok after =>
      exact (lifecycle_keeps_iff (notify_lifecycle hnotify) (by simp only [next, hnotify])
        (by simp) (by simp)).mpr fun _ _ => (Option.some_ne_none _).symm
  | send task handle bytes prio reserved =>
    exact untouched_of_not_doomed (send_keepsWaiters task handle bytes prio reserved) rfl rfl
  | receive task handle bufferLen =>
    exact untouched_of_not_doomed (receive_keepsWaiters task handle bufferLen) rfl rfl
  | register task handle kind due =>
    exact untouched_of_not_doomed (register_keepsWaiters task handle kind due) rfl rfl
  | expireOne now =>
    exact untouched_of_not_doomed (decided_keepsWaiters (expireOne_changes now)
      expirable_waiting noConfusion (decideOldest_decided state _ _)) rfl rfl
  | interrupt task =>
    exact untouched_of_not_doomed (decided_keepsWaiters (interrupt_changes task)
      interruptible_waiting noConfusion (interrupt_decided state task))
      rfl rfl
  | takeOutcome task => exact untouched_of_not_doomed (takeOutcome_keepsWaiters task) rfl rfl
  | clearOutcome task => exact clearOutcome_keeps_iff sound task
  | removeTask task => exact untouched_of_not_doomed (removeTask_keepsWaiters task) rfl rfl
  | reset => exact reset_keepsWaiters_iff

/-- In a run of the message queues every waiter leaves to its own task or with it, and is
told when its queue goes away, exactly if no call takes away a queue or an outcome that a
waiter is still there for. -/
theorem waiters_leave_to_their_task_iff (queueLimit handleLimit waiterLimit : Nat)
  (calls : List MqueueCall) :
  Guarded KeepsWaiters next (new queueLimit handleLimit waiterLimit) calls ↔
    Guarded WaitersUntouched next (new queueLimit handleLimit waiterLimit) calls := by
  have hkeeps : ∀ (state : LinuxMqueueState queueLimit handleLimit waiterLimit)
      (call : MqueueCall), Sound state → Sound (state.next call) :=
    fun _ call hsound => hsound.next call
  exact guarded_congr hkeeps (fun _ call hsound => keepsWaiters_iff hsound call)
    (new_sound queueLimit handleLimit waiterLimit) calls

/-- A task waits for a queue that was unlinked; when the last handle is closed its waiter
is gone, without an outcome and without a report. -/
theorem closing_the_last_handle_drops_waiter :
  let waiting := run next (new 1 1 1)
    [.openNamed [113] 1 true false none true, .unlink [113], .register (4, 2) 1 .receive none]
  waiting.published = [⟨1, .receive, 4, 2, none, 0, .waiting⟩] ∧
    (waiting.next (.closeHandle 1)).published = [] ∧
    waiting.reported (.closeHandle 1) = [] ∧ ¬ waiting.KeepsWaiters (.closeHandle 1) := by
  refine ⟨by decide, by decide, rfl, fun hkeeps => ?_⟩
  rcases hkeeps ⟨1, .receive, 4, 2, none, 0, .waiting⟩ (by decide) with
    ⟨later, hlater, -⟩ | ⟨hcall, -⟩ | hcall
  · have hnobody : later ∉ ([] : List LinuxMqueueWaiter) := List.not_mem_nil
    exact hnobody hlater
  · cases hcall
  · cases hcall

end LinuxMqueueState
end Smros.Mqueue
