import Smros.Mqueue.Numbers

/-!
# Messages are delivered as by an ideal priority queue

The ideal queue keeps its messages in the order of their arrival and gives out the
oldest of those with the highest priority.  Every run of the kernel's queues is
followed by such a queue for each of them.
-/

namespace Smros.Mqueue
open Lib List LinuxMqueueState Nat LinuxMqueueQueue
open LinuxMqueueQueuedMessage (message)

/-! ## The ideal queue -/

/-- A POSIX message queue with its history. -/
structure PosixQueue where
  maxmsg : Nat
  msgsize : Nat
  contents : List LinuxMqueueMessage
  accepted : List LinuxMqueueMessage
  received : List LinuxMqueueMessage

namespace PosixQueue
variable {queue : PosixQueue}

def empty (attr : LinuxMqueueAttr) : PosixQueue := ⟨attr.maxmsg, attr.msgsize, [], [], []⟩

section
variable (queue : PosixQueue)

def send (message : LinuxMqueueMessage) : Except LinuxMqueueError PosixQueue :=
  if message.priority ≥ linuxMqPrioMax then .error .invalid
  else if message.bytes.length > queue.msgsize then .error .messageTooLarge
  else if queue.contents.length ≥ queue.maxmsg then .error .wouldBlock
  else
    .ok { queue with
      contents := queue.contents ++ [message]
      accepted := queue.accepted ++ [message] }

/-- The oldest message whose priority none exceeds. -/
def front : Option LinuxMqueueMessage :=
  queue.contents.find? fun message =>
    queue.contents.all fun other => other.priority ≤ message.priority

def receive (bufferLen : Nat) : Except LinuxMqueueError (LinuxMqueueMessage × PosixQueue) :=
  if bufferLen < queue.msgsize then .error .messageTooLarge
  else
    match queue.front with
    | none => .error .wouldBlock
    | some message =>
      .ok (message, { queue with
          contents := queue.contents.erase message
          received := queue.received ++ [message] })

/-- The queue after a send; a refused one is not tried. -/
def afterSend (message : LinuxMqueueMessage) (refused : Bool) : PosixQueue :=
  if refused then queue
  else
    match queue.send message with
    | .ok after => after
    | .error _ => queue

/-- What a send answers; a refusal is reported only where the queue would have accepted. -/
def answerSend (message : LinuxMqueueMessage) (refused : Bool) : Except LinuxMqueueError Unit :=
  (queue.send message).bind fun _ => if refused then .error .capacity else .ok ()

def afterReceive (bufferLen : Nat) : PosixQueue :=
  match queue.receive bufferLen with
  | .ok (_, after) => after
  | .error _ => queue

end

variable {message : LinuxMqueueMessage} {after : PosixQueue} {refused : Bool} {bufferLen : Nat}
theorem afterSend_of_error {error} (answer : queue.answerSend message refused = .error error) :
  queue.afterSend message refused = queue := by
  unfold afterSend
  unfold answerSend at answer
  cases refused with
  | true => rfl
  | false =>
    cases send : queue.send message with
    | error other => rfl
    | ok after =>
      rw [send] at answer
      cases answer

theorem afterSend_of_ok (answer : queue.answerSend message refused = .ok ()) :
  queue.send message = .ok (queue.afterSend message refused) := by
  unfold afterSend
  unfold answerSend at answer
  cases send : queue.send message with
  | error other =>
    rw [send] at answer
    cases answer
  | ok after =>
    rw [send] at answer
    cases refused with
    | true => cases answer
    | false => rfl

/-- Everything accepted was received or is still there. -/
def Balanced (queue : PosixQueue) : Prop := queue.accepted.Perm (queue.received ++ queue.contents)

/-- The message that stands between older ones of lower and younger ones of no higher priority. -/
structure Splits (queue : PosixQueue) (message : LinuxMqueueMessage)
  (older younger : List LinuxMqueueMessage) : Prop where
  contents : queue.contents = older ++ message :: younger
  older_lt : ∀ other ∈ older, other.priority < message.priority
  younger_le : ∀ other ∈ younger, other.priority ≤ message.priority

variable {older younger : List LinuxMqueueMessage}
theorem Splits.front (splits : Splits queue message older younger) :
  queue.front = some message := by
  have hmem : message ∈ queue.contents := by
    rw [splits.contents]
    exact mem_append_right _ mem_cons_self
  unfold PosixQueue.front
  refine find?_eq_some_iff_append.mpr ⟨?_, older, younger, splits.contents, ?_⟩
  · refine all_eq_true.mpr fun other hother => decide_eq_true ?_
    rw [splits.contents] at hother
    rcases mem_append.mp hother with hold | young
    · exact le_of_lt (splits.older_lt other hold)
    rcases mem_cons.mp young with rfl | young
    · exact le_refl _
    · exact splits.younger_le other young
  · intro other hother
    have less := splits.older_lt other hother
    simp only [Bool.not_eq_true']
    refine all_eq_false.mpr ⟨message, hmem, ?_⟩
    simpa using less

theorem Splits.erase (splits : Splits queue message older younger) :
  queue.contents.erase message = older ++ younger := by
  have hnew : message ∉ older := fun hmem => absurd (splits.older_lt message hmem) (lt_irrefl _)
  rw [splits.contents, erase_append_right _ hnew, erase_cons_head]

/-- The front is the oldest message of the highest priority. -/
theorem splits_of_front (front : queue.front = some message) :
  ∃ older younger, Splits queue message older younger := by
  obtain ⟨hall, older, younger, contents, holder⟩ := find?_eq_some_iff_append.mp front
  have highest : ∀ other ∈ queue.contents, other.priority ≤ message.priority :=
    fun other hother => of_decide_eq_true (all_eq_true.mp hall other hother)
  refine ⟨older, younger, contents, fun other hother => ?_, fun other hother => ?_⟩
  · have exceeded := holder other hother
    rw [Bool.not_eq_true'] at exceeded
    obtain ⟨better, hbetter, exceeds⟩ := all_eq_false.mp exceeded
    have hle := highest better hbetter
    simp only [decide_eq_true_eq, not_le] at exceeds
    exact lt_of_lt_of_le exceeds hle
  · refine highest other ?_
    rw [contents]
    exact mem_append_right _ (mem_cons_of_mem _ hother)

theorem Balanced.send (balanced : Balanced queue) (send : queue.send message = .ok after) :
  Balanced after := by
  unfold PosixQueue.send at send
  split_ifs at send
  cases send
  change (queue.accepted ++ [message]).Perm (queue.received ++ (queue.contents ++ [message]))
  rw [← append_assoc]
  exact .append_right _ balanced

theorem receive_ok (receive : queue.receive bufferLen = .ok (message, after)) :
  queue.front = some message ∧ after = { queue with
    contents := queue.contents.erase message
    received := queue.received ++ [message] } := by
  unfold PosixQueue.receive at receive
  split at receive
  · cases receive
  split at receive
  · cases receive
  rename_i found front
  cases receive
  exact ⟨front, rfl⟩

theorem Balanced.receive (balanced : Balanced queue)
  (receive : queue.receive bufferLen = .ok (message, after)) : Balanced after := by
  obtain ⟨front, rfl⟩ := receive_ok receive
  obtain ⟨older, younger, splits⟩ := splits_of_front front
  unfold Balanced at balanced ⊢
  refine balanced.trans ?_
  rw [splits.erase, splits.contents, append_assoc, singleton_append]
  exact .append_left _ perm_middle

end PosixQueue

/-! ## The ideal queue follows the kernel's -/

/-- The ideal queue holds the messages of the kernel's queue in the order of their numbers. -/
structure Represents (content : Content) (ideal : PosixQueue) : Prop where
  maxmsg : ideal.maxmsg = content.attr.maxmsg
  msgsize : ideal.msgsize = content.attr.msgsize
  contents : ∃ ordered : List LinuxMqueueQueuedMessage, ordered.Perm content.messages ∧
    ordered.Pairwise (fun first second => first.sequence < second.sequence) ∧
    ideal.contents = ordered.map message

variable {first second : LinuxMqueueQueuedMessage}
theorem preference_le_iff : preference first ≤ preference second ↔
    second.message.priority < first.message.priority ∨
      first.message.priority = second.message.priority ∧ first.sequence ≤ second.sequence := by
  unfold preference
  rw [Prod.Lex.toLex_le_toLex]
  simp

namespace Represents
variable {content : Content} {ideal : PosixQueue}
theorem length (represents : Represents content ideal) :
  ideal.contents.length = content.messages.length := by
  obtain ⟨ordered, perm, -, contents⟩ := represents.contents
  rw [contents, length_map, perm.length_eq]

variable {id seq : Nat}
theorem empty {attr} : Represents ⟨id, attr, []⟩ (.empty attr) := ⟨rfl, rfl, [], .rfl, .nil, rfl⟩

/-- A new message has the highest number. -/
theorem append {msg after} (represents : Represents content ideal)
  (hnew : ∀ queued ∈ content.messages, queued.sequence < seq) (send : ideal.send msg = .ok after) :
  Represents { content with messages := content.messages ++ [⟨msg, seq⟩] } after := by
  obtain ⟨ordered, perm, hordered, contents⟩ := represents.contents
  unfold PosixQueue.send at send
  split_ifs at send
  cases send
  refine ⟨represents.maxmsg, represents.msgsize, ordered ++ [⟨msg, seq⟩],
    perm.append_right _, ?_, ?_⟩
  · refine pairwise_append.mpr ⟨hordered, pairwise_singleton _ _, ?_⟩
    intro queued hqueued last hlast
    rw [mem_singleton.mp hlast]
    exact hnew queued (perm.mem_iff.mp hqueued)
  · simp [contents]

variable {queued : LinuxMqueueQueuedMessage} {rest : List LinuxMqueueQueuedMessage}
/-- The message that is preferred over all others is at the front of the ideal queue. -/
theorem best (represents : Represents content ideal)
  (taken : content.messages.Perm (queued :: rest))
  (hbest : ∀ other ∈ content.messages, preference queued ≤ preference other) :
  ideal.front = some queued.message ∧ Represents { content with messages := rest }
    { ideal with
      contents := ideal.contents.erase queued.message
      received := ideal.received ++ [queued.message] } := by
  obtain ⟨ordered, perm, hordered, hcontents⟩ := represents.contents
  have hmem : queued ∈ ordered := (perm.trans taken).mem_iff.mpr mem_cons_self
  obtain ⟨older, younger, rfl⟩ := append_of_mem hmem
  have holder : ∀ other ∈ older, other.sequence < queued.sequence := fun other hother =>
    (pairwise_append.mp hordered).2.2 other hother queued mem_cons_self
  have prefers : ∀ other ∈ older ++ queued :: younger, preference queued ≤ preference other :=
    fun other hother => hbest other (perm.mem_iff.mp hother)
  have splits : PosixQueue.Splits ideal queued.message (older.map message)
    (younger.map message) := by
    refine ⟨by simp [hcontents], fun message hmsg => ?_, fun message hmsg => ?_⟩
    · obtain ⟨other, hother, rfl⟩ := mem_map.mp hmsg
      have num := holder other hother
      rcases preference_le_iff.mp (prefers other (mem_append_left _ hother)) with
        less | ⟨-, hle⟩
      · exact less
      · omega
    · obtain ⟨other, hother, rfl⟩ := mem_map.mp hmsg
      rcases preference_le_iff.mp (prefers other (mem_append_right _
        (mem_cons_of_mem _ hother))) with less | ⟨same, -⟩
      · exact le_of_lt less
      · exact le_of_eq same.symm
  refine ⟨splits.front, represents.maxmsg, represents.msgsize, older ++ younger, ?_, ?_, ?_⟩
  · exact (perm_cons queued).mp (perm_middle.symm.trans (perm.trans taken))
  · exact hordered.sublist ((sublist_cons_self _ _).append_left older)
  · change ideal.contents.erase queued.message = _
    rw [splits.erase, map_append]

end Represents

/-! ## Runs beside ideal queues -/

/-- There is no number or no memory for one more message. -/
def LinuxMqueueState.refuses {queueLimit handleLimit waiterLimit : Nat}
  (state : LinuxMqueueState queueLimit handleLimit waiterLimit) (reserved : Bool) : Bool :=
  state.messageSequenceExhausted || !reserved

/-- The kernel's queues, and an ideal queue for each of them. -/
structure Observed (queueLimit handleLimit waiterLimit : Nat) where
  state : LinuxMqueueState queueLimit handleLimit waiterLimit
  ideal : Nat → Option PosixQueue

namespace Observed
variable {queueLimit handleLimit waiterLimit : Nat}

def start (queueLimit handleLimit waiterLimit : Nat) :
  Observed queueLimit handleLimit waiterLimit :=
  ⟨.new queueLimit handleLimit waiterLimit, fun _ => none⟩

variable (observed : Observed queueLimit handleLimit waiterLimit)
/-- Let one ideal queue change. -/
def change (handle : Nat) (step : PosixQueue → PosixQueue) (id : Nat) : Option PosixQueue :=
  match observed.state.queueByHandle handle with
  | none => observed.ideal id
  | some (_, queue) =>
    if queue.id = id then (observed.ideal id).map step else observed.ideal id

/-- Sends and receives are the ideal queue's own; it exists as long as the kernel's does. -/
def idealNext : MqueueCall → Nat → Option PosixQueue
  | .send _ handle bytes priority reserved =>
    observed.change handle fun queue =>
      queue.afterSend ⟨bytes, priority⟩ (observed.state.refuses reserved)
  | .receive _ handle bufferLen => observed.change handle (·.afterReceive bufferLen)
  | call => fun id =>
    ((observed.state.next call).contents.find? (·.id == id)).map fun content =>
      (observed.ideal id).getD (PosixQueue.empty content.attr)

def next (call : MqueueCall) : Observed queueLimit handleLimit waiterLimit :=
  ⟨observed.state.next call, observed.idealNext call⟩

/-- The kernel's queues and the ideal ones agree. -/
structure Agrees (observed : Observed queueLimit handleLimit waiterLimit) : Prop where
  sound : observed.state.Sound
  represented : ∀ content ∈ observed.state.contents, ∃ ideal,
    observed.ideal content.id = some ideal ∧ Represents content ideal ∧ ideal.Balanced
  exist : ∀ id ideal, observed.ideal id = some ideal →
    ∃ content ∈ observed.state.contents, content.id = id

variable {observed}

/-! ## Answers -/

variable {queue : LinuxMqueueQueue} {step : PosixQueue → PosixQueue} {handle index : Nat}
section
variable (hqueue : observed.state.queueByHandle handle = some (index, queue)) {ideal : PosixQueue}
  (represents : Represents queue.content ideal)
include hqueue represents
theorem send_agrees (bytes prio reserved) :
  (observed.state.send handle bytes prio reserved).map (fun _ => ()) =
    ideal.answerSend ⟨bytes, prio⟩ (observed.state.refuses reserved) := by
  have length : ideal.contents.length = queue.messages.length := represents.length
  have maxmsg : ideal.maxmsg = queue.attr.maxmsg := represents.maxmsg
  have msgsize : ideal.msgsize = queue.attr.msgsize := represents.msgsize
  unfold LinuxMqueueState.send PosixQueue.answerSend PosixQueue.send refuses
  rw [length, maxmsg, msgsize]
  simp only [hqueue]
  split_ifs <;> rfl

theorem receive_agrees (bufferLen) : (observed.state.receive handle bufferLen).map (·.1.message) =
    (ideal.receive bufferLen).map Prod.fst := by
  have msgsize : ideal.msgsize = queue.attr.msgsize := represents.msgsize
  unfold LinuxMqueueState.receive PosixQueue.receive
  rw [msgsize]
  simp only [hqueue]
  split
  · rfl
  cases best : queue.bestMessage with
  | none =>
    have empty : ideal.contents = [] := by
      rw [← length_eq_zero_iff, represents.length]
      exact length_eq_zero_iff.mpr (bestMessage_eq_none.mp best)
    have front : ideal.front = none := by simp [PosixQueue.front, empty]
    rw [front]
    rfl
  | some found =>
    obtain ⟨messageIndex, queued⟩ := found
    obtain ⟨taken, preferred⟩ := bestMessage_some best
    have front := (represents.best taken preferred).1
    rw [front]
    rfl

end

/-! ## Steps -/

variable {after : LinuxMqueueState queueLimit handleLimit waiterLimit}
  {msgs : List LinuxMqueueQueuedMessage}
/-- The step of one queue: its new content is represented, the others are as they were. -/
theorem Agrees.change {others} (hagrees : Agrees observed) (sound : after.Sound)
  (hqueue : observed.state.queueByHandle handle = some (index, queue))
  (before : observed.state.contents.Perm (queue.content :: others))
  (hafter : after.contents.Perm ({ queue.content with messages := msgs } :: others))
  (hstep : ∀ ideal, Represents queue.content ideal → ideal.Balanced →
    Represents { queue.content with messages := msgs } (step ideal) ∧
      (step ideal).Balanced) : Agrees ⟨after, observed.change handle step⟩ := by
  have hids := (hagrees.sound.contents.of_perm before).ids_nodup
  have hchange : ∀ id, observed.change handle step id =
    if queue.id = id then (observed.ideal id).map step else observed.ideal id := by
    intro id
    unfold Observed.change
    rw [hqueue]
  refine ⟨sound, fun content hcontent => ?_, fun id ideal hideal => ?_⟩
  · rcases mem_cons.mp (hafter.mem_iff.mp hcontent) with rfl | other
    · obtain ⟨ideal, hideal, represents, balanced⟩ :=
        hagrees.represented queue.content (mem_contents_of_handle hqueue)
      obtain ⟨hnext, nextBalanced⟩ := hstep ideal represents balanced
      refine ⟨step ideal, ?_, hnext, nextBalanced⟩
      have hthis : observed.ideal queue.id = some ideal := hideal
      change observed.change handle step queue.id = _
      rw [hchange, if_pos rfl, hthis]
      rfl
    · obtain ⟨ideal, hideal, rest⟩ := hagrees.represented content
        (before.mem_iff.mpr (mem_cons_of_mem _ other))
      have diff : queue.id ≠ content.id := fun same =>
        (nodup_cons.mp hids).1 (mem_map.mpr ⟨content, other, same.symm⟩)
      refine ⟨ideal, ?_, rest⟩
      change observed.change handle step content.id = _
      rw [hchange, if_neg diff]
      exact hideal
  · have beforeIdeal : ∃ old, observed.ideal id = some old := by
      change observed.change handle step id = _ at hideal
      rw [hchange] at hideal
      split at hideal
      · obtain ⟨old, hold, -⟩ := Option.map_eq_some_iff.mp hideal
        exact ⟨old, hold⟩
      · exact ⟨ideal, hideal⟩
    obtain ⟨old, hold⟩ := beforeIdeal
    obtain ⟨content, hcontent, rfl⟩ := hagrees.exist id old hold
    rcases mem_cons.mp (before.mem_iff.mp hcontent) with rfl | other
    · exact ⟨_, hafter.mem_iff.mpr mem_cons_self, rfl⟩
    · exact ⟨content, hafter.mem_iff.mpr (mem_cons_of_mem _ other), rfl⟩

theorem change_of_no_queue (hnone : observed.state.queueByHandle handle = none) :
  observed.change handle step = observed.ideal := by
  funext id
  unfold change
  rw [hnone]

section
variable (hagrees : Agrees observed)
include hagrees
/-- A call that failed, where the ideal queue stays as it is too. -/
theorem Agrees.refuse (hqueue : observed.state.queueByHandle handle = some (index, queue))
  (hstep : ∀ ideal, Represents queue.content ideal → step ideal = ideal) :
  Agrees ⟨observed.state, observed.change handle step⟩ := by
  obtain ⟨others, before, -⟩ := contents_around (queueWhere_some hqueue)
  refine hagrees.change hagrees.sound hqueue before before fun ideal represents balanced => ?_
  rw [hstep ideal represents]
  exact ⟨represents, balanced⟩

theorem Agrees.send (task handle bytes prio reserved) :
  Agrees (observed.next (.send task handle bytes prio reserved)) := by
  unfold next
  simp only [LinuxMqueueState.next, idealNext]
  cases hqueue : observed.state.queueByHandle handle with
  | none =>
    have send : observed.state.send handle bytes prio reserved = .error .badDescriptor := by
      simp only [LinuxMqueueState.send, hqueue]
    rw [send, change_of_no_queue hqueue]
    exact hagrees
  | some found =>
    obtain ⟨idx, queue⟩ := found
    cases send : observed.state.send handle bytes prio reserved with
    | error error =>
      refine hagrees.refuse hqueue fun ideal represents => ?_
      have answer := send_agrees hqueue represents bytes prio reserved
      rw [send] at answer
      exact PosixQueue.afterSend_of_error answer.symm
    | ok result =>
      obtain ⟨outcome, after⟩ := result
      obtain ⟨idx, queue, again, sent⟩ := LinuxMqueueState.send_ok send
      obtain ⟨others, before, hafter⟩ := sent.contents
      refine hagrees.change (hagrees.sound.sent sent) again before hafter
        fun ideal represents balanced => ?_
      have answer := send_agrees again represents bytes prio reserved
      rw [send] at answer
      have hideal := PosixQueue.afterSend_of_ok answer.symm
      have hnew := hagrees.sound.contents.sequences_lt queue.content (LinuxMqueueState.mem_contents_of_handle again)
      exact ⟨represents.append hnew hideal, balanced.send hideal⟩

theorem Agrees.receive (task handle bufferLen) :
  Agrees (observed.next (.receive task handle bufferLen)) := by
  unfold next
  simp only [LinuxMqueueState.next, idealNext]
  cases hqueue : observed.state.queueByHandle handle with
  | none =>
    have receive : observed.state.receive handle bufferLen = .error .badDescriptor := by
      simp only [LinuxMqueueState.receive, hqueue]
    rw [receive, change_of_no_queue hqueue]
    exact hagrees
  | some found =>
    obtain ⟨idx, queue⟩ := found
    cases receive : observed.state.receive handle bufferLen with
    | error error =>
      refine hagrees.refuse hqueue fun ideal represents => ?_
      have answer := receive_agrees hqueue represents bufferLen
      unfold PosixQueue.afterReceive
      cases hideal : ideal.receive bufferLen with
      | error other => rfl
      | ok result =>
        rw [receive, hideal] at answer
        cases answer
    | ok result =>
      obtain ⟨outcome, after⟩ := result
      obtain ⟨idx, queue, messageIndex, queued, again, best, received⟩ :=
        LinuxMqueueState.receive_ok receive
      obtain ⟨others, before, hafter⟩ := received.contents
      refine hagrees.change (hagrees.sound.received received) again before hafter
        fun ideal represents balanced => ?_
      have answer := receive_agrees again represents bufferLen
      obtain ⟨front, rest⟩ := represents.best received.taken received.best
      unfold PosixQueue.afterReceive
      cases hideal : ideal.receive bufferLen with
      | error other =>
        rw [receive, hideal] at answer
        cases answer
      | ok taken =>
        obtain ⟨msg, later⟩ := taken
        obtain ⟨same, rfl⟩ := PosixQueue.receive_ok hideal
        cases front.symm.trans same
        exact ⟨rest, balanced.receive hideal⟩

/-- The ideal queues after a call that moves no message. -/
theorem Agrees.stay (sound : after.Sound)
  (contents : ∀ content ∈ after.contents, content ∈ observed.state.contents ∨
    content.messages = [] ∧ content.id = observed.state.issued.queues) :
  Agrees ⟨after, fun id => (after.contents.find? (·.id == id)).map fun content =>
    (observed.ideal id).getD (.empty content.attr)⟩ := by
  refine ⟨sound, fun content hcontent => ?_, fun id ideal hideal => ?_⟩
  · have hfind : after.contents.find? (·.id == content.id) = some content :=
      find?_of_nodup_map sound.contents.ids_nodup hcontent
    change ∃ ideal, Option.map _ (after.contents.find? (·.id == content.id)) = _ ∧ _
    rw [hfind]
    refine ⟨_, rfl, ?_⟩
    rcases contents content hcontent with hold | ⟨empty, hid⟩
    · obtain ⟨ideal, hideal, rest⟩ := hagrees.represented content hold
      rw [hideal]
      exact rest
    have hnone : observed.ideal content.id = none := by
      cases hideal : observed.ideal content.id with
      | none => rfl
      | some ideal =>
        obtain ⟨other, hother, same⟩ := hagrees.exist _ _ hideal
        have less := hagrees.sound.contents.ids_lt other hother
        omega
    rw [hnone]
    obtain ⟨id, attr, msgs⟩ := content
    cases empty
    exact ⟨.empty, .rfl⟩
  · obtain ⟨content, hfind, -⟩ := Option.map_eq_some_iff.mp hideal
    have hid := find?_some hfind
    exact ⟨content, mem_of_find?_eq_some hfind, by simpa using hid⟩

theorem Agrees.register (task handle kind due) :
  Agrees (observed.next (.register task handle kind due)) := by
  have queues : (observed.state.next (.register task handle kind due)).queues =
    observed.state.queues := by
    simp only [LinuxMqueueState.next]
    split
    · rename_i register
      obtain ⟨idx, queue, -, -, published⟩ := register_ok register
      exact published.queues
    · rfl
  refine hagrees.stay (hagrees.sound.next _) fun content hcontent => .inl ?_
  unfold contents at hcontent ⊢
  rwa [queues] at hcontent

theorem Agrees.next (call) : Agrees (observed.next call) := by
  cases hcall : call.isAside with
  | false =>
    cases call with
    | send task handle bytes prio reserved => exact hagrees.send task handle bytes prio reserved
    | receive task handle bufferLen => exact hagrees.receive task handle bufferLen
    | register task handle kind due => exact hagrees.register task handle kind due
    | reset => exact hagrees.stay (hagrees.sound.next .reset) (fun _ content => by cases content)
    | _ => cases hcall
  | true =>
    have aside := next_aside observed.state hcall
    have stay := hagrees.stay (hagrees.sound.aside aside) fun _ => aside.mem_contents
    cases call with
    | send task handle bytes prio reserved => cases hcall
    | receive task handle bufferLen => cases hcall
    | _ => exact stay

end

theorem start_agrees (queueLimit handleLimit waiterLimit) :
  Agrees (start queueLimit handleLimit waiterLimit) where
  sound := new_sound queueLimit handleLimit waiterLimit
  represented := by
    intro content hcontent
    cases hcontent
  exist := by
    intro id ideal hideal
    cases hideal

/-- In every run of the message queues each queue holds what an ideal priority queue with
the same history holds, nothing that was accepted is lost or given out twice, and the next
send and the next receive answer as the ideal queue does; the ideal queue gives out the
oldest of its messages of the highest priority. -/
theorem messages_delivered_as_by_posix_queue (queueLimit handleLimit waiterLimit : Nat)
  (calls : List MqueueCall) :
  let reached := run next (start queueLimit handleLimit waiterLimit) calls
  ∀ queue ∈ reached.state.queues, ∃ ideal, reached.ideal queue.id = some ideal ∧
    Represents queue.content ideal ∧
    ideal.accepted.Perm (ideal.received ++ ideal.contents) ∧
    ∀ handle index, reached.state.queueByHandle handle = some (index, queue) →
      (∀ bytes priority reserved,
        (reached.state.send handle bytes priority reserved).map (fun _ => ()) =
          ideal.answerSend ⟨bytes, priority⟩ (reached.state.refuses reserved)) ∧
      ∀ bufferLen, (reached.state.receive handle bufferLen).map (·.1.message) =
            (ideal.receive bufferLen).map Prod.fst ∧
          ∀ message after, ideal.receive bufferLen = .ok (message, after) →
            ∃ older younger, ideal.contents = older ++ message :: younger ∧
              (∀ other ∈ older, other.priority < message.priority) ∧
              (∀ other ∈ younger, other.priority ≤ message.priority) ∧
              after.contents = older ++ younger := by
  intro reached queue hqueue
  have hagrees : Agrees reached :=
    run_invariant (fun _ call hagrees => hagrees.next call)
      (start_agrees queueLimit handleLimit waiterLimit) calls
  obtain ⟨ideal, hideal, hrepresents, hbalanced⟩ :=
    hagrees.represented queue.content (List.mem_map_of_mem hqueue)
  refine ⟨ideal, hideal, hrepresents, hbalanced, fun handle index hhandle =>
    ⟨send_agrees hhandle hrepresents, fun bufferLen =>
      ⟨receive_agrees hhandle hrepresents bufferLen, fun message after hreceive => ?_⟩⟩⟩
  obtain ⟨hfront, rfl⟩ := PosixQueue.receive_ok hreceive
  obtain ⟨older, younger, hsplits⟩ := PosixQueue.splits_of_front hfront
  exact ⟨older, younger, hsplits.contents, hsplits.older_lt, hsplits.younger_le, hsplits.erase⟩

/-- Three messages are sent with two priorities, and one is received. -/
def sentAndReceived : List MqueueCall :=
  [.openNamed [113] 1 true false none true, .send (4, 2) 1 [7] 3 true,
    .send (4, 2) 1 [8] 5 true, .send (4, 2) 1 [9] 5 true, .receive (6, 2) 1 8192]

theorem sent_message_is_accounted_for :
    let reached := run next (start 1 1 1) sentAndReceived
    ∃ queue ∈ reached.state.queues, queue.messages = [⟨⟨[7], 3⟩, 0⟩, ⟨⟨[9], 5⟩, 2⟩] ∧
      ∃ ideal, reached.ideal queue.id = some ideal ∧ ideal.received = [⟨[8], 5⟩] ∧
        ideal.accepted.Perm (ideal.received ++ ideal.contents) := by
  refine ⟨⟨1, some [113], [1], .defaults, [⟨⟨[7], 3⟩, 0⟩, ⟨⟨[9], 5⟩, 2⟩], none⟩, by decide, rfl, ?_⟩
  obtain ⟨ideal, hideal, -, hbalanced, -⟩ := messages_delivered_as_by_posix_queue 1 1 1
    sentAndReceived ⟨1, some [113], [1], .defaults, [⟨⟨[7], 3⟩, 0⟩, ⟨⟨[9], 5⟩, 2⟩], none⟩ (by decide)
  refine ⟨ideal, hideal, ?_, hbalanced⟩
  cases hideal
  rfl

end Observed
end Smros.Mqueue
