import Smros.Mqueue.Effects

/-!
# Numbers are not given out twice

Queues, messages and waiters are told apart by the numbers they carry.
-/

namespace Smros.Mqueue
open Lib List LinuxMqueueState Nat

/-- Queues and messages carry numbers that have been handed out, each queue its own. -/
structure ContentsSound (contents : List Content) (issued : Numbers) : Prop where
  ids_nodup : (contents.map Content.id).Nodup
  ids_lt : ∀ content ∈ contents, content.id < issued.queues
  sequences_lt : ∀ content ∈ contents, ∀ queued ∈ content.messages,
    queued.sequence < issued.messages

/-- Waiters carry numbers that have been handed out, each its own. -/
structure WaitersSound (published : List LinuxMqueueWaiter) (issued : Numbers) : Prop where
  sequences_nodup : (published.map LinuxMqueueWaiter.sequence).Nodup
  sequences_lt : ∀ waiter ∈ published, waiter.sequence < issued.waiters
  queues_lt : ∀ waiter ∈ published, waiter.queueId < issued.queues

namespace ContentsSound
variable {contents others : List Content} {issued later : Numbers} {content : Content}
theorem of_perm {permuted} (sound : ContentsSound contents issued) (perm : contents.Perm permuted) :
  ContentsSound permuted issued where
  ids_nodup := (perm.map _).nodup_iff.mp sound.ids_nodup
  ids_lt content hcontent := sound.ids_lt content (perm.mem_iff.mpr hcontent)
  sequences_lt content hcontent := sound.sequences_lt content (perm.mem_iff.mpr hcontent)

theorem mono (sound : ContentsSound contents issued) (queues : issued.queues ≤ later.queues)
  (msgs : issued.messages ≤ later.messages) : ContentsSound contents later where
  ids_nodup := sound.ids_nodup
  ids_lt content hcontent := (sound.ids_lt content hcontent).trans_le queues
  sequences_lt content hcontent queued hqueued :=
    (sound.sequences_lt content hcontent queued hqueued).trans_le msgs

theorem tail (sound : ContentsSound (content :: others) issued) : ContentsSound others issued where
  ids_nodup := (nodup_cons.mp sound.ids_nodup).2
  ids_lt other hother := sound.ids_lt other (mem_cons_of_mem _ hother)
  sequences_lt other hother := sound.sequences_lt other (mem_cons_of_mem _ hother)

variable {msgs : List LinuxMqueueQueuedMessage}
/-- The messages of one queue may change as long as their numbers are handed out. -/
theorem replace (sound : ContentsSound (content :: others) issued)
  (hmessages : ∀ queued ∈ msgs, queued.sequence < issued.messages) :
  ContentsSound ({ content with messages := msgs } :: others) issued where
  ids_nodup := sound.ids_nodup
  ids_lt := by
    intro other hother
    rcases mem_cons.mp hother with rfl | hother
    · exact sound.ids_lt content mem_cons_self
    · exact sound.ids_lt other (mem_cons_of_mem _ hother)
  sequences_lt := by
    intro other hother
    rcases mem_cons.mp hother with rfl | hother
    · exact hmessages
    · exact sound.sequences_lt other (mem_cons_of_mem _ hother)

/-- A new queue takes the next number. -/
theorem create (sound : ContentsSound contents issued) (hid : content.id = issued.queues)
  (empty : content.messages = []) :
  ContentsSound (contents ++ [content]) { issued with queues := issued.queues + 1 } := by
  have more : ContentsSound contents { issued with queues := issued.queues + 1 } :=
    sound.mono (le_succ _) (le_refl _)
  have fresh : content.id ∉ contents.map Content.id := by
    intro hold
    obtain ⟨other, hother, same⟩ := mem_map.mp hold
    have less := sound.ids_lt other hother
    omega
  have hcons : ContentsSound (content :: contents) { issued with queues := issued.queues + 1 } :=
    { ids_nodup := nodup_cons.mpr ⟨fresh, sound.ids_nodup⟩
      ids_lt := by
        intro other hother
        rcases mem_cons.mp hother with rfl | hother
        · exact lt_succ_of_le (le_of_eq hid)
        · exact more.ids_lt other hother
      sequences_lt := by
        intro other hother queued hqueued
        rcases mem_cons.mp hother with rfl | hother
        · rw [empty] at hqueued
          cases hqueued
        · exact more.sequences_lt other hother queued hqueued }
  exact hcons.of_perm (perm_append_singleton _ _).symm

end ContentsSound

namespace WaitersSound
variable {published others after : List LinuxMqueueWaiter} {issued later : Numbers}
  {waiter : LinuxMqueueWaiter}
section
variable (sound : WaitersSound published issued)
include sound
theorem mono (waiters : issued.waiters ≤ later.waiters) (queues : issued.queues ≤ later.queues) :
  WaitersSound published later where
  sequences_nodup := sound.sequences_nodup
  sequences_lt waiter hwaiter := (sound.sequences_lt waiter hwaiter).trans_le waiters
  queues_lt waiter hwaiter := (sound.queues_lt waiter hwaiter).trans_le queues

variable {permuted : List LinuxMqueueWaiter}
theorem of_perm (perm : published.Perm permuted) : WaitersSound permuted issued where
  sequences_nodup := (perm.map _).nodup_iff.mp sound.sequences_nodup
  sequences_lt waiter hwaiter := sound.sequences_lt waiter (perm.mem_iff.mpr hwaiter)
  queues_lt waiter hwaiter := sound.queues_lt waiter (perm.mem_iff.mpr hwaiter)

theorem sublist (fewer : others.Sublist published) : WaitersSound others issued where
  sequences_nodup := sound.sequences_nodup.sublist (fewer.map _)
  sequences_lt waiter hwaiter := sound.sequences_lt waiter (fewer.subset hwaiter)
  queues_lt waiter hwaiter := sound.queues_lt waiter (fewer.subset hwaiter)

end

theorem cons (sound : WaitersSound others issued)
  (fresh : waiter.sequence ∉ others.map LinuxMqueueWaiter.sequence)
  (seq : waiter.sequence < issued.waiters) (queue : waiter.queueId < issued.queues) :
  WaitersSound (waiter :: others) issued where
  sequences_nodup := nodup_cons.mpr ⟨fresh, sound.sequences_nodup⟩
  sequences_lt := by
    intro other hother
    rcases mem_cons.mp hother with rfl | hother
    · exact seq
    · exact sound.sequences_lt other hother
  queues_lt := by
    intro other hother
    rcases mem_cons.mp hother with rfl | hother
    · exact queue
    · exact sound.queues_lt other hother

theorem effect (sound : WaitersSound published issued) (heffect : WaitersEffect published after) :
  WaitersSound after issued := by
  cases heffect with
  | decides waiter others outcome waiting houtcome before hafter =>
    have hsplit := sound.of_perm before
    have rest := hsplit.sublist (sublist_cons_self waiter others)
    refine of_perm (rest.cons ?_ ?_ ?_) hafter.symm
    · exact (nodup_cons.mp hsplit.sequences_nodup).1
    · exact hsplit.sequences_lt waiter mem_cons_self
    · exact hsplit.queues_lt waiter mem_cons_self
  | departs gone perm => exact (sound.of_perm perm).sublist (sublist_append_right gone after)

end WaitersSound

namespace LinuxMqueueState
variable {queueLimit handleLimit waiterLimit : Nat}
  {before after : LinuxMqueueState queueLimit handleLimit waiterLimit}

structure Sound (state : LinuxMqueueState queueLimit handleLimit waiterLimit) : Prop where
  contents : ContentsSound state.contents state.issued
  waiters : WaitersSound state.published state.issued

theorem new_sound (queueLimit handleLimit waiterLimit) :
  Sound (new queueLimit handleLimit waiterLimit) := by
  refine ⟨⟨nodup_nil, by simp [new, contents], by simp [new, contents]⟩, ?_⟩
  rw [new_published]
  exact ⟨nodup_nil, by simp, by simp⟩

variable {queue : Content} {msg : LinuxMqueueMessage}
theorem Sent.effect (sent : Sent before after queue msg) :
  WaitersEffect before.published after.published :=
  sent.wakes.effect (fun _ wakeable => (wakeable_iff.mp wakeable).2.2)
    LinuxMqueueWaitOutcome.noConfusion

variable {queued : LinuxMqueueQueuedMessage} {rest : List LinuxMqueueQueuedMessage}
theorem Received.effect (recv : Received before after queue queued rest) :
  WaitersEffect before.published after.published :=
  recv.wakes.effect (fun _ wakeable => (wakeable_iff.mp wakeable).2.2)
    LinuxMqueueWaitOutcome.noConfusion

section
variable (sound : Sound before)
include sound
theorem Sound.sent (sent : Sent before after queue msg) : Sound after := by
  obtain ⟨others, hbefore, hafter⟩ := sent.contents
  refine ⟨?_, ?_⟩
  · have more : ContentsSound (queue :: others) after.issued := by
      rw [sent.issued]
      exact (sound.contents.of_perm hbefore).mono (le_refl _) (le_succ _)
    refine (more.replace fun queued hqueued => ?_).of_perm hafter.symm
    rcases mem_append.mp hqueued with hold | hnew
    · exact more.sequences_lt queue mem_cons_self queued hold
    · rw [mem_singleton.mp hnew, sent.issued]
      exact lt_succ_self _
  · rw [sent.issued]
    exact (sound.waiters.effect sent.effect).mono (le_refl _) (le_refl _)

theorem Sound.received (recv : Received before after queue queued rest) : Sound after := by
  obtain ⟨others, hbefore, hafter⟩ := recv.contents
  have hsplit := sound.contents.of_perm hbefore
  refine ⟨?_, ?_⟩
  · rw [recv.issued]
    refine (hsplit.replace fun other hother => ?_).of_perm hafter.symm
    exact hsplit.sequences_lt queue mem_cons_self other
      (recv.taken.mem_iff.mpr (mem_cons_of_mem _ hother))
  · rw [recv.issued]
    exact sound.waiters.effect recv.effect

variable {due gone : Option Nat}
theorem Sound.published {queue kind task} (hqueue : queue ∈ before.queues)
  (published : Published before after queue kind task due) : Sound after := by
  refine ⟨?_, ?_⟩
  · rw [published.issued]
    unfold LinuxMqueueState.contents
    rw [published.queues]
    exact sound.contents.mono (le_refl _) (le_refl _)
  rw [published.issued]
  have more : WaitersSound before.published
    { before.issued with waiters := before.issued.waiters + 1 } :=
    sound.waiters.mono (le_succ _) (le_refl _)
  refine (more.cons ?_ (lt_succ_self _) ?_).of_perm published.published.symm
  · intro hold
    obtain ⟨other, hother, same⟩ := mem_map.mp hold
    have less := sound.waiters.sequences_lt other hother
    exact absurd same (Nat.ne_of_lt less)
  · exact sound.contents.ids_lt queue.content (mem_map_of_mem hqueue)

theorem Sound.lifecycle (lifecycle : Lifecycle before after gone) : Sound after := by
  cases lifecycle with
  | keeps contents published issued =>
    refine ⟨?_, ?_⟩
    · rw [issued]
      exact sound.contents.of_perm contents.symm
    · rw [issued, published]
      exact sound.waiters
  | creates queue empty hid contents published issued =>
    refine ⟨?_, ?_⟩
    · rw [issued, contents]
      exact sound.contents.create hid empty
    · rw [issued, published]
      exact sound.waiters.mono (le_refl _) (le_succ _)
  | destroys queue contents published issued =>
    refine ⟨?_, ?_⟩
    · rw [issued]
      exact (sound.contents.of_perm contents).tail
    · rw [issued, published]
      exact sound.waiters.sublist filter_sublist

theorem Sound.aside (aside : Aside before after) : Sound after := by
  cases aside with
  | lives gone lifecycle => exact sound.lifecycle lifecycle
  | waits hchange =>
    refine ⟨?_, ?_⟩
    · rw [hchange.issued]
      unfold LinuxMqueueState.contents
      rw [hchange.queues]
      exact sound.contents
    · rw [hchange.issued]
      exact sound.waiters.effect hchange.published

end

theorem Sound.next {state : LinuxMqueueState queueLimit handleLimit waiterLimit}
  (sound : Sound state) (call) : Sound (state.next call) := by
  cases next_effect state call with
  | sends queue msg sent => exact sound.sent sent
  | receives queue queued rest received => exact sound.received received
  | publishes queue kind task due hqueue published => exact sound.published hqueue published
  | aside haside => exact sound.aside haside
  | resets reset =>
    rw [reset]
    exact new_sound queueLimit handleLimit waiterLimit

end LinuxMqueueState
end Smros.Mqueue
