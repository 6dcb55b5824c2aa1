import Smros.Lib.Runs
import Smros.Signal.Pending

/-!
# Reserved numbers

A realtime record keeps the number of its acceptance while it is pending or reserved.
What a call does to the numbers is one of a few things; from them follow the bounds of
the queue and that every reservation can be rolled back.
-/

namespace Smros.Signal
open Lib List Program

/-! ## Masks -/

/-- The bit of the signal is set. -/
def Marked (mask : BitVec 64) (signum : Nat) : Prop := mask &&& linuxSignalBit signum ≠ 0#64

theorem getLsbD_signalBit (sig idx) : (linuxSignalBit sig).getLsbD idx =
    decide (1 ≤ sig ∧ sig ≤ linuxMaxSignal ∧ idx = sig - 1) := by
  unfold linuxSignalBit linuxMaxSignal
  split
  · rename_i range
    rw [← BitVec.twoPow, BitVec.getLsbD_twoPow, ← Bool.decide_and, decide_eq_decide]
    omega
  · rename_i range
    rw [BitVec.getLsbD_zero, eq_comm, decide_eq_false_iff_not]
    omega

variable {mask : BitVec 64} {signum set cleared : Nat}
theorem marked_iff : Marked mask signum ↔
    1 ≤ signum ∧ signum ≤ linuxMaxSignal ∧ mask.getLsbD (signum - 1) = true := by
  constructor
  · intro marked
    by_contra hnot
    refine marked (BitVec.eq_of_getLsbD_eq fun idx _ => ?_)
    rw [BitVec.getLsbD_and, getLsbD_signalBit, BitVec.getLsbD_zero, Bool.and_eq_false_iff]
    by_cases hidx : 1 ≤ signum ∧ signum ≤ linuxMaxSignal ∧ idx = signum - 1
    · obtain ⟨hlow, high, rfl⟩ := hidx
      exact .inl (Bool.eq_false_iff.mpr fun hbit => hnot ⟨hlow, high, hbit⟩)
    · exact .inr (decide_eq_false hidx)
  · rintro ⟨hlow, high, hbit⟩ zero
    have hget := congrArg (fun bits => bits.getLsbD (signum - 1)) zero
    simp [getLsbD_signalBit, hbit, hlow, high] at hget

theorem marked_or :
  Marked (mask ||| linuxSignalBit set) signum ↔
    Marked mask signum ∨ (1 ≤ set ∧ set ≤ linuxMaxSignal ∧ set = signum) := by
  rw [marked_iff, marked_iff, BitVec.getLsbD_or, Bool.or_eq_true, getLsbD_signalBit,
    decide_eq_true_eq]
  grind

theorem marked_and_not :
  Marked (mask &&& ~~~linuxSignalBit cleared) signum ↔ Marked mask signum ∧ cleared ≠ signum := by
  rw [marked_iff, marked_iff, BitVec.getLsbD_and, Bool.and_eq_true, BitVec.getLsbD_not,
   Bool.and_eq_true, Bool.not_eq_true', getLsbD_signalBit,
    decide_eq_false_iff_not, decide_eq_true_eq]
  unfold linuxMaxSignal
  grind

variable {rec : LinuxPendingSignal} {entry : RealtimeEntry}
namespace LinuxPendingSignals

/-! ## What the programs do -/

/-- The number after one that was handed out; zero when there is none. -/
def followingSequence (sequence : Nat) : Nat := if sequence + 1 < 2 ^ 64 then sequence + 1 else 0

/-- The state once a number was handed out. -/
def advanced (signals : LinuxPendingSignals) : LinuxPendingSignals :=
  { signals with nextRealtimeSequence := followingSequence signals.nextRealtimeSequence }

variable {signals : LinuxPendingSignals}
theorem allocateSequence_bind {Value} (rest : Nat → SignalsM Value) :
  (allocateRealtimeSequence >>= rest) signals =
    if signals.nextRealtimeSequence = 0 then .error .queueFull signals
    else rest signals.nextRealtimeSequence signals.advanced := by
  unfold allocateRealtimeSequence
  split
  · rename_i hnext
    exact bind_run_error (by rw [get_bind_run, if_pos hnext]; rfl)
  · rename_i hnext
    exact bind_run_ok (by rw [get_bind_run, if_neg hnext]; rfl)

theorem queue_run (rec : LinuxPendingSignal) : queue rec signals =
    if ¬ (1 ≤ rec.signum ∧ rec.signum ≤ linuxMaxSignal) then
      .error .invalidSignal signals
    else if rec.signum < linuxRealtimeSignalMin then .ok () (queueStandard rec signals)
    else if signals.hasRoom = false ∨ signals.nextRealtimeSequence = 0 then
      .error .queueFull signals
    else .ok () { signals.advanced with
      realtimePending := signals.realtimePending ++ [⟨signals.nextRealtimeSequence, rec⟩] } := by
  unfold queue
  rw [get_bind_run]
  split
  · rfl
  split
  · rfl
  cases room : signals.hasRoom with
  | false => rfl
  | true =>
    simp only [Bool.true_eq_false, false_or]
    exact allocateSequence_bind _

/-- The numbers in use: those of pending records and the reserved ones. -/
def numbers (signals : LinuxPendingSignals) : List Nat :=
  signals.realtimePending.map RealtimeEntry.sequence ++ signals.realtimeReservations

/-- The queue keeps to its limit, the pending numbers increase, no number occurs twice, and
all were handed out. -/
structure Sound (signals : LinuxPendingSignals) : Prop where
  capacity : signals.numbers.length ≤ linuxRtQueueLimit
  increasing : signals.realtimePending.Pairwise fun first second => first.sequence < second.sequence
  distinct : signals.numbers.Nodup
  issued : ∀ sequence ∈ signals.numbers, 0 < sequence ∧
    (signals.nextRealtimeSequence ≠ 0 → sequence < signals.nextRealtimeSequence)

theorem length_numbers : signals.numbers.length =
  signals.realtimePending.length + signals.realtimeReservations.length := by
  rw [numbers, length_append, length_map]

theorem hasRoom_iff : signals.hasRoom = true ↔ signals.numbers.length < linuxRtQueueLimit := by
  rw [length_numbers, hasRoom, decide_eq_true_eq]

variable {sequence : Nat}
theorem reserveSequence_run (positive : 0 < sequence)
  (room : signals.realtimeReservations.length < linuxRtQueueLimit)
  (fresh : sequence ∉ signals.realtimeReservations) :
  reserveRealtimeSequence sequence signals = .ok () { signals with
    realtimeReservations := signals.realtimeReservations ++ [sequence] } := by
  unfold reserveRealtimeSequence
  rw [get_bind_run, if_neg]
  · rfl
  rintro (rfl | full | hmem)
  · exact lt_irrefl _ positive
  · omega
  · exact fresh hmem

/-- The next number is not in use. -/
theorem Sound.next_fresh (sound : signals.Sound) (hnext : signals.nextRealtimeSequence ≠ 0) :
  signals.nextRealtimeSequence ∉ signals.numbers := fun hmem =>
  lt_irrefl _ ((sound.issued _ hmem).2 hnext)

theorem reserveDirect_run (sound : signals.Sound) (rec : LinuxPendingSignal) :
  reserveDirect rec signals =
    if ¬ (1 ≤ rec.signum ∧ rec.signum ≤ linuxMaxSignal) then
      .error .invalidSignal signals
    else if rec.signum < linuxRealtimeSignalMin then
      if signals.standardReserved &&& linuxSignalBit rec.signum ≠ 0#64 then
        .ok none (queueStandard rec signals)
      else .ok (some (.standard rec.signum)) (signals.reserveStandard rec.signum)
    else if signals.hasRoom = false ∨ signals.nextRealtimeSequence = 0 then
      .error .queueFull signals
    else .ok (some (.realtime signals.nextRealtimeSequence)) { signals.advanced with
      realtimeReservations := signals.realtimeReservations ++ [signals.nextRealtimeSequence] } := by
  unfold reserveDirect
  rw [get_bind_run]
  split
  · rfl
  rename_i valid
  split
  · rename_i standard
    split
    · have hqueue : queue rec signals = .ok () (queueStandard rec signals) := by
        rw [queue_run, if_neg valid, if_pos standard]
      exact bind_run_ok hqueue
    · rfl
  cases room : signals.hasRoom with
  | false => rfl
  | true =>
    simp only [Bool.true_eq_false, false_or]
    refine (allocateSequence_bind _).trans (if_ctx_congr .rfl (fun _ => rfl) fun hnext => ?_)
    have fresh := sound.next_fresh hnext
    have length := hasRoom_iff.mp room
    rw [length_numbers] at length
    refine bind_run_ok (reserveSequence_run (Nat.pos_of_ne_zero hnext) ?_ ?_)
    · change signals.realtimeReservations.length < _
      omega
    · exact fun hmem => fresh (mem_append_right _ hmem)

theorem commit_realtime_run (seq) :
  commitReservation (.realtime seq) signals =
    if seq ∈ signals.realtimeReservations then
      .ok () { signals with
        realtimeReservations := signals.realtimeReservations.erase seq }
    else .error .invalidReservation signals := by
  unfold commitReservation
  rw [get_bind_run]
  unfold releaseRealtimeSequence
  dsimp only
  by_cases hmem : seq ∈ signals.realtimeReservations
  · rw [if_pos hmem, if_pos hmem]
    rfl
  · rw [if_neg hmem, if_neg hmem]
    rfl

theorem commit_standard_run (sig) :
  commitReservation (.standard sig) signals =
    if ¬ (1 ≤ sig ∧ sig < linuxRealtimeSignalMin) ∨
      signals.standardReserved &&& linuxSignalBit sig = 0#64 then
      .error .invalidReservation signals
    else .ok () { signals with
      standardReserved := signals.standardReserved &&& ~~~linuxSignalBit sig } := by
  unfold commitReservation
  rw [get_bind_run]
  dsimp only
  split
  · rfl
  · rfl

theorem requeueFront_standard_run (hlow : 1 ≤ rec.signum)
  (std : rec.signum < linuxRealtimeSignalMin) :
  requeueFront rec signals = .ok () { signals with
    standardPending := signals.standardPending ||| linuxSignalBit rec.signum
    standardRecords := Function.update signals.standardRecords rec.signum rec } := by
  unfold requeueFront
  rw [get_bind_run, if_neg, if_pos std]
  · rfl
  unfold linuxRealtimeSignalMin at std
  unfold linuxMaxSignal
  omega

theorem rollback_standard_run (sig rec) :
  rollbackReservation (.standard sig) rec signals =
    if sig = rec.signum ∧ (1 ≤ sig ∧ sig < linuxRealtimeSignalMin) ∧
      signals.standardReserved &&& linuxSignalBit sig ≠ 0#64 then
      .ok () { signals with
        standardReserved := signals.standardReserved &&& ~~~linuxSignalBit sig
        standardPending := signals.standardPending ||| linuxSignalBit sig
        standardRecords := Function.update signals.standardRecords sig rec }
    else .error .invalidReservation signals := by
  unfold rollbackReservation
  by_cases same : sig = rec.signum
  · subst same
    simp only [true_and, if_true]
    by_cases held : (1 ≤ rec.signum ∧ rec.signum < linuxRealtimeSignalMin) ∧
      signals.standardReserved &&& linuxSignalBit rec.signum ≠ 0#64
    · rw [if_pos held, bind_run_ok (by
        rw [commit_standard_run, if_neg (by tauto)])]
      exact requeueFront_standard_run held.1.1 held.1.2
    · rw [if_neg held]
      exact bind_run_error (by rw [commit_standard_run, if_pos (by tauto)])
  · dsimp only
    rw [if_neg same, if_neg fun hall => same hall.1]
    rfl

theorem rollback_realtime_run (sound : signals.Sound) (seq rec) :
  rollbackReservation (.realtime seq) rec signals =
    if linuxRealtimeSignalMin ≤ rec.signum ∧ seq ∈ signals.realtimeReservations then
      .ok () { signals with
        realtimeReservations := signals.realtimeReservations.erase seq
        realtimePending := insertBySequence ⟨seq, rec⟩ signals.realtimePending }
    else .error .invalidReservation signals := by
  unfold rollbackReservation
  by_cases kind : linuxRealtimeSignalMin ≤ rec.signum
  · simp only [kind, true_and, if_true]
    by_cases hmem : seq ∈ signals.realtimeReservations
    · rw [if_pos hmem, bind_run_ok (by
        rw [commit_realtime_run, if_pos hmem])]
      have positive := (sound.issued seq (mem_append_right _ hmem)).1
      have room := sound.capacity
      have held := length_pos_of_mem hmem
      rw [length_numbers] at room
      unfold insertRealtimeBySequence
      rw [get_bind_run, if_neg]
      · rfl
      · dsimp only
        omega
    · rw [if_neg hmem]
      exact bind_run_error (by rw [commit_realtime_run, if_neg hmem])
  · dsimp only
    rw [if_neg kind, if_neg fun hall => kind hall.1]
    rfl

/-! ## What a call does to the numbers -/

/-- The records accepted, the numbers delivered and discarded, and the records put back. -/
inductive Effect (before after : LinuxPendingSignals) :
  List RealtimeEntry → List Nat → List Nat → List RealtimeEntry → Prop
  | keeps (hpending : after.realtimePending = before.realtimePending)
      (hreserved : after.realtimeReservations = before.realtimeReservations)
      (hnext : after.nextRealtimeSequence = before.nextRealtimeSequence) :
      Effect before after [] [] [] []
  | queues (record : LinuxPendingSignal) (hissued : before.nextRealtimeSequence ≠ 0)
      (hroom : before.numbers.length < linuxRtQueueLimit)
      (hpending : after.realtimePending =
        before.realtimePending ++ [⟨before.nextRealtimeSequence, record⟩])
      (hreserved : after.realtimeReservations = before.realtimeReservations)
      (hnext : after.nextRealtimeSequence = followingSequence before.nextRealtimeSequence) :
      Effect before after [⟨before.nextRealtimeSequence, record⟩] [] [] []
  | reserves (record : LinuxPendingSignal) (hissued : before.nextRealtimeSequence ≠ 0)
      (hroom : before.numbers.length < linuxRtQueueLimit)
      (hpending : after.realtimePending = before.realtimePending)
      (hreserved : after.realtimeReservations =
        before.realtimeReservations ++ [before.nextRealtimeSequence])
      (hnext : after.nextRealtimeSequence = followingSequence before.nextRealtimeSequence) :
      Effect before after [⟨before.nextRealtimeSequence, record⟩] [] [] []
  | takes (entry : RealtimeEntry) (front back : List RealtimeEntry)
      (hbefore : before.realtimePending = front ++ entry :: back)
      (hpending : after.realtimePending = front ++ back)
      (hreserved : after.realtimeReservations = before.realtimeReservations)
      (hnext : after.nextRealtimeSequence = before.nextRealtimeSequence) :
      Effect before after [] [entry.sequence] [] []
  | holds (entry : RealtimeEntry) (front back : List RealtimeEntry)
      (hbefore : before.realtimePending = front ++ entry :: back)
      (hpending : after.realtimePending = front ++ back)
      (hreserved : after.realtimeReservations = before.realtimeReservations ++ [entry.sequence])
      (hnext : after.nextRealtimeSequence = before.nextRealtimeSequence) :
      Effect before after [] [] [] []
  | commits (sequence : Nat) (hheld : sequence ∈ before.realtimeReservations)
      (hpending : after.realtimePending = before.realtimePending)
      (hreserved : after.realtimeReservations = before.realtimeReservations.erase sequence)
      (hnext : after.nextRealtimeSequence = before.nextRealtimeSequence) :
      Effect before after [] [sequence] [] []
  | restores (entry : RealtimeEntry) (hheld : entry.sequence ∈ before.realtimeReservations)
      (hpending : after.realtimePending = insertBySequence entry before.realtimePending)
      (hreserved : after.realtimeReservations = before.realtimeReservations.erase entry.sequence)
      (hnext : after.nextRealtimeSequence = before.nextRealtimeSequence) :
      Effect before after [] [] [] [entry]
  | discards (signum : Nat)
      (hpending : after.realtimePending =
        before.realtimePending.filter fun entry => entry.record.signum != signum)
      (hreserved : after.realtimeReservations = before.realtimeReservations)
      (hnext : after.nextRealtimeSequence = before.nextRealtimeSequence) :
      Effect before after [] []
        ((before.realtimePending.filter fun entry => entry.record.signum == signum).map
          RealtimeEntry.sequence) []

theorem insertBySequence_perm (entry entries) :
  (insertBySequence entry entries).Perm (entry :: entries) :=
  perm_orderedInsert _ _ _

variable {before after : LinuxPendingSignals} {accepted restored : List RealtimeEntry}
  {delivered discarded : List Nat}
section
variable (effect : Effect before after accepted delivered discarded restored)
include effect
/-- Every number in use or accepted is afterwards in use, delivered or discarded. -/
theorem Effect.balance : (after.numbers ++ (delivered ++ discarded)).Perm
    (before.numbers ++ accepted.map RealtimeEntry.sequence) := by
  unfold numbers
  cases effect with
  | keeps pend reserved hnext => simp [pend, reserved]
  | queues rec issued room pend reserved hnext =>
    rw [pend, reserved]
    simp only [map_append, map_cons, map_nil, append_nil, append_assoc]
    exact .append_left _ perm_append_comm
  | reserves rec issued room pend reserved hnext => simp [pend, reserved]
  | takes entry front back hbefore pend reserved hnext
  | holds entry front back hbefore pend reserved hnext =>
    rw [pend, reserved, hbefore]
    simp only [map_append, map_cons, map_nil, append_nil, append_assoc]
    refine .append_left _ ?_
    rw [← append_assoc]
    exact perm_append_singleton _ _
  | commits sequence held pend reserved hnext =>
    rw [pend, reserved]
    simp only [map_nil, append_nil, append_assoc]
    exact .append_left _ ((perm_append_singleton _ _).trans (perm_cons_erase held).symm)
  | restores entry held pend reserved hnext =>
    rw [pend, reserved]
    simp only [map_nil, append_nil]
    refine (((insertBySequence_perm entry _).map RealtimeEntry.sequence).append_right _).trans ?_
    rw [map_cons, cons_append]
    exact perm_middle.symm.trans (.append_left _ (perm_cons_erase held).symm)
  | discards sig pend reserved hnext =>
    rw [pend, reserved]
    simp only [map_nil, append_nil, nil_append, append_assoc]
    refine (Perm.append_left _ perm_append_comm).trans ?_
    rw [← append_assoc, ← map_append]
    refine .append_right _ (.map _ ?_)
    refine perm_append_comm.trans ?_
    exact filter_append_perm (fun entry : RealtimeEntry => entry.record.signum == sig) _

theorem Effect.accepted_room :
  accepted = [] ∧ after.nextRealtimeSequence = before.nextRealtimeSequence ∨
    accepted.map RealtimeEntry.sequence = [before.nextRealtimeSequence] ∧
      before.nextRealtimeSequence ≠ 0 ∧ before.numbers.length < linuxRtQueueLimit ∧
      after.nextRealtimeSequence = followingSequence before.nextRealtimeSequence := by
  cases effect with
  | queues rec issued room pend reserved hnext
  | reserves rec issued room pend reserved hnext => exact .inr ⟨rfl, issued, room, hnext⟩
  | keeps pend reserved hnext => exact .inl ⟨rfl, hnext⟩
  | takes entry front back hbefore pend reserved hnext => exact .inl ⟨rfl, hnext⟩
  | holds entry front back hbefore pend reserved hnext => exact .inl ⟨rfl, hnext⟩
  | commits sequence held pend reserved hnext => exact .inl ⟨rfl, hnext⟩
  | restores entry held pend reserved hnext => exact .inl ⟨rfl, hnext⟩
  | discards sig pend reserved hnext => exact .inl ⟨rfl, hnext⟩

end

theorem insertBySequence_increasing {entries}
  (increasing : entries.Pairwise fun first second => first.sequence < second.sequence)
  (fresh : ∀ queued ∈ entries, queued.sequence ≠ entry.sequence) :
  (insertBySequence entry entries).Pairwise fun first second =>
    first.sequence < second.sequence := by
  unfold insertBySequence
  induction entries with
  | nil => simp
  | cons queued rest ih =>
    obtain ⟨hfirst, hrest⟩ := pairwise_cons.mp increasing
    rw [orderedInsert_cons]
    split
    · rename_i less
      refine pairwise_cons.mpr ⟨fun other hother => ?_, increasing⟩
      rcases mem_cons.mp hother with rfl | hother
      · exact less
      · exact less.trans (hfirst other hother)
    · rename_i less
      refine pairwise_cons.mpr ⟨fun other hother => ?_, ih hrest fun other hother =>
        fresh other (mem_cons_of_mem _ hother)⟩
      rcases (mem_orderedInsert _).mp hother with rfl | hother
      · exact lt_of_le_of_ne (not_lt.mp less) (fresh queued mem_cons_self)
      · exact hfirst other hother

theorem Sound.increasing_effect (sound : before.Sound)
  (effect : Effect before after accepted delivered discarded restored) :
  after.realtimePending.Pairwise fun first second => first.sequence < second.sequence := by
  have hold := sound.increasing
  have drop : ∀ {entry : RealtimeEntry} {front back : List RealtimeEntry},
    before.realtimePending = front ++ entry :: back →
    (front ++ back).Pairwise fun first second => first.sequence < second.sequence := by
    intro entry front back hbefore
    rw [hbefore] at hold
    exact hold.sublist (.append_left (sublist_cons_self _ _) _)
  cases effect with
  | keeps pend reserved hnext => rwa [pend]
  | queues rec issued room pend reserved hnext =>
    rw [pend, pairwise_append]
    refine ⟨hold, pairwise_singleton _ _, fun queued hqueued last hlast => ?_⟩
    cases mem_singleton.mp hlast
    exact (sound.issued _ (mem_append_left _ (mem_map_of_mem hqueued))).2 issued
  | reserves rec issued room pend reserved hnext => rwa [pend]
  | takes entry front back hbefore pend reserved hnext
  | holds entry front back hbefore pend reserved hnext =>
    rw [pend]
    exact drop hbefore
  | commits sequence held pend reserved hnext => rwa [pend]
  | restores entry held pend reserved hnext =>
    rw [pend]
    refine insertBySequence_increasing hold fun queued hqueued same => ?_
    have disjoint := (nodup_append.mp sound.distinct).2.2
    exact disjoint _ (mem_map_of_mem hqueued) _ held same
  | discards sig pend reserved hnext =>
    rw [pend]
    exact hold.filter _

theorem lt_followingSequence (more : followingSequence sequence ≠ 0) :
  sequence < followingSequence sequence := by
  unfold followingSequence at more ⊢
  split at more
  · rename_i hlt
    rw [if_pos hlt]
    omega
  · exact absurd rfl more

theorem Sound.effect (sound : before.Sound)
  (effect : Effect before after accepted delivered discarded restored) : after.Sound := by
  have balance := effect.balance
  have used : ∀ seq ∈ after.numbers,
    seq ∈ before.numbers ++ accepted.map RealtimeEntry.sequence := fun seq hmem =>
    balance.mem_iff.mp (mem_append_left _ hmem)
  have length := balance.length_eq
  simp only [length_append] at length
  have capacity := sound.capacity
  rcases effect.accepted_room with ⟨haccepted, hnext⟩ | ⟨haccepted, issued, room, hnext⟩
  · rw [haccepted, map_nil, length_nil] at length
    rw [haccepted, map_nil, append_nil] at balance used
    refine ⟨by omega, sound.increasing_effect effect, ?_, fun seq hmem => ?_⟩
    · exact ((balance.nodup_iff.mpr sound.distinct)).of_append_left
    · rw [hnext]
      exact sound.issued seq (used seq hmem)
  · rw [haccepted, length_singleton] at length
    rw [haccepted] at balance used
    refine ⟨by omega, sound.increasing_effect effect, ?_, fun seq hmem => ?_⟩
    · refine (balance.nodup_iff.mpr ?_).of_append_left
      refine nodup_append.mpr ⟨sound.distinct, nodup_singleton _, ?_⟩
      intro seq hmem next hnew same
      rw [mem_singleton.mp hnew] at same
      exact sound.next_fresh issued (same ▸ hmem)
    · rw [hnext]
      rcases mem_append.mp (used seq hmem) with hold | hnew
      · obtain ⟨positive, less⟩ := sound.issued seq hold
        exact ⟨positive, fun more => (less issued).trans (lt_followingSequence more)⟩
      · rw [mem_singleton.mp hnew]
        exact ⟨Nat.pos_of_ne_zero issued, lt_followingSequence⟩

/-! ## Calls -/

end LinuxPendingSignals

inductive Call where
  | queue (record : LinuxPendingSignal)
  | reserveDirect (record : LinuxPendingSignal)
  | takeEligible (eligible : Nat → Bool)
  | takeEligibleReserved (eligible : Nat → Bool)
  | commitReservation (reservation : LinuxPendingSignalReservation)
  | rollbackReservation (reservation : LinuxPendingSignalReservation)
      (record : LinuxPendingSignal)
  | discard (signum : Nat)

namespace LinuxPendingSignals
variable (signals : LinuxPendingSignals)
/-- The state after a call. -/
def next : Call → LinuxPendingSignals
  | .queue record => Program.attempt (queue record) signals
  | .reserveDirect record => Program.attempt (reserveDirect record) signals
  | .takeEligible eligible => (signals.takeEligible eligible).1
  | .takeEligibleReserved eligible => (signals.takeEligibleReserved eligible).1
  | .commitReservation reservation => Program.attempt (commitReservation reservation) signals
  | .rollbackReservation reservation record =>
    Program.attempt (rollbackReservation reservation record) signals
  | .discard signum => signals.discard signum

/-- The realtime records that a call accepts. -/
def accepted : Call → List RealtimeEntry
  | .queue record =>
    match queue record signals with
    | .ok _ _ =>
      if linuxRealtimeSignalMin ≤ record.signum then
        [⟨signals.nextRealtimeSequence, record⟩]
      else []
    | .error _ _ => []
  | .reserveDirect record =>
    match reserveDirect record signals with
    | .ok (some (.realtime sequence)) _ => [⟨sequence, record⟩]
    | _ => []
  | _ => []

/-- The realtime numbers whose records a call delivers, by taking or by committing. -/
def delivered : Call → List Nat
  | .takeEligible eligible =>
    match signals.eligibleStandard eligible with
    | some _ => []
    | none => ((signals.eligibleRealtime eligible).map fun found => found.2.sequence).toList
  | .commitReservation (.realtime sequence) =>
    match commitReservation (.realtime sequence) signals with
    | .ok _ _ => [sequence]
    | .error _ _ => []
  | _ => []

/-- The realtime numbers whose records a call discards. -/
def discarded : Call → List Nat
  | .discard signum =>
    (signals.realtimePending.filter fun entry => entry.record.signum == signum).map
      RealtimeEntry.sequence
  | _ => []

/-- The realtime records that a call puts back. -/
def restored : Call → List RealtimeEntry
  | .rollbackReservation (.realtime sequence) record =>
    match rollbackReservation (.realtime sequence) record signals with
    | .ok _ _ => [⟨sequence, record⟩]
    | .error _ _ => []
  | _ => []

variable {signals}
/-- What a call does, with the records it accepts, the numbers it delivers and discards, and the
records it puts back. -/
inductive Step (signals : LinuxPendingSignals) : Call → LinuxPendingSignals →
  List RealtimeEntry → List Nat → List Nat → List RealtimeEntry → Prop
  | same {call : Call} : Step signals call signals [] [] [] []
  | marks {call : Call} {record : LinuxPendingSignal}
    (standard : record.signum < linuxRealtimeSignalMin) :
    Step signals call (queueStandard record signals) [] [] [] []
  | queues {call : Call} {record : LinuxPendingSignal}
    (realtime : linuxRealtimeSignalMin ≤ record.signum)
    (issued : signals.nextRealtimeSequence ≠ 0) (room : signals.hasRoom = true) :
    Step signals call { signals.advanced with realtimePending :=
        signals.realtimePending ++ [⟨signals.nextRealtimeSequence, record⟩] }
      [⟨signals.nextRealtimeSequence, record⟩] [] [] []
  | reserves {call : Call} {signum : Nat} :
    Step signals call (signals.reserveStandard signum) [] [] [] []
  | reservesNext {call : Call} {record : LinuxPendingSignal}
    (issued : signals.nextRealtimeSequence ≠ 0) (room : signals.hasRoom = true) :
    Step signals call { signals.advanced with
        realtimeReservations := signals.realtimeReservations ++ [signals.nextRealtimeSequence] }
      [⟨signals.nextRealtimeSequence, record⟩] [] [] []
  | takes {call : Call} {signum : Nat} :
    Step signals call (signals.clearStandard signum) [] [] [] []
  | takesEntry {call : Call} {eligible : Nat → Bool} {index : Nat} {entry : RealtimeEntry}
    (found : signals.eligibleRealtime eligible = some (index, entry)) :
    Step signals call (signals.removeRealtime index) [] [entry.sequence] [] []
  | holds {call : Call} {signum : Nat} :
    Step signals call ((signals.clearStandard signum).reserveStandard signum) [] [] [] []
  | holdsEntry {call : Call} {eligible : Nat → Bool} {index : Nat} {entry : RealtimeEntry}
    (found : signals.eligibleRealtime eligible = some (index, entry)) :
    Step signals call { signals with
        realtimeReservations := signals.realtimeReservations ++ [entry.sequence]
        realtimePending := signals.realtimePending.eraseIdx index } [] [] [] []
  | commits {signum : Nat} : Step signals (.commitReservation (.standard signum)) { signals with
        standardReserved := signals.standardReserved &&& ~~~linuxSignalBit signum } [] [] [] []
  | commitsEntry {sequence : Nat} (held : sequence ∈ signals.realtimeReservations) :
    Step signals (.commitReservation (.realtime sequence)) { signals with
        realtimeReservations := signals.realtimeReservations.erase sequence } [] [sequence] [] []
  | restores {record : LinuxPendingSignal} (standard : record.signum < linuxRealtimeSignalMin) :
    Step signals (.rollbackReservation (.standard record.signum) record) { signals with
        standardReserved := signals.standardReserved &&& ~~~linuxSignalBit record.signum
        standardPending := signals.standardPending ||| linuxSignalBit record.signum
        standardRecords := Function.update signals.standardRecords record.signum record }
      [] [] [] []
  | restoresEntry {sequence : Nat} {record : LinuxPendingSignal}
    (realtime : linuxRealtimeSignalMin ≤ record.signum)
    (held : sequence ∈ signals.realtimeReservations) :
    Step signals (.rollbackReservation (.realtime sequence) record) { signals with
        realtimeReservations := signals.realtimeReservations.erase sequence
        realtimePending := insertBySequence ⟨sequence, record⟩ signals.realtimePending }
      [] [] [] [⟨sequence, record⟩]
  | discards {signum : Nat} : Step signals (.discard signum) (signals.discard signum) [] []
      (signals.discarded (.discard signum)) []

variable {elig : Nat → Bool} {idx : Nat}
/-- The entry that a take selects stands in the queue. -/
theorem eligibleRealtime_split (found : signals.eligibleRealtime elig = some (idx, entry)) :
  ∃ front back, signals.realtimePending = front ++ entry :: back ∧
    signals.realtimePending.eraseIdx idx = front ++ back := by
  obtain ⟨⟨place, hplace, pick⟩, -⟩ := leastEntry_some found
  cases (Option.guard_eq_some_iff.mp pick).1
  obtain ⟨hlt, hget⟩ := List.getElem?_eq_some_iff.mp hplace
  refine ⟨signals.realtimePending.take idx, signals.realtimePending.drop (idx + 1), ?_,
    eraseIdx_eq_take_drop_succ ..⟩
  rw [← hget, ← drop_eq_getElem_cons hlt, take_append_drop]

/-- A reserved take holds the number of the entry it removes. -/
theorem takeReserved_realtime (sound : signals.Sound) (std : signals.eligibleStandard elig = none)
  (found : signals.eligibleRealtime elig = some (idx, entry)) :
  signals.takeEligibleReserved elig = ({ signals with
        realtimeReservations := signals.realtimeReservations ++ [entry.sequence]
        realtimePending := signals.realtimePending.eraseIdx idx },
      some (entry.record, .realtime entry.sequence)) := by
  obtain ⟨front, back, before, -⟩ := eligibleRealtime_split found
  have hmem : entry ∈ signals.realtimePending := by rw [before]; simp
  have used : entry.sequence ∈ signals.numbers := mem_append_left _ (mem_map_of_mem hmem)
  have capacity := sound.capacity
  have hsome := length_pos_of_mem hmem
  rw [length_numbers] at capacity
  have reserve := reserveSequence_run (sound.issued _ used).1
    (show signals.realtimeReservations.length < linuxRtQueueLimit by omega) fun held =>
      (nodup_append.mp sound.distinct).2.2 _ (mem_map_of_mem hmem) _ held rfl
  unfold takeEligibleReserved
  rw [std]
  simp only [found, reserve]
  rfl

theorem Step.effect {call next accepted delivered discarded restored}
  (step : Step signals call next accepted delivered discarded restored) :
  Effect signals next accepted delivered discarded restored := by
  cases step with
  | same | reserves | takes | holds | commits | restores => exact .keeps rfl rfl rfl
  | marks =>
    unfold queueStandard
    split
    · exact .keeps rfl rfl rfl
    · exact .keeps rfl rfl rfl
  | queues rt issued room => exact .queues _ issued (hasRoom_iff.mp room) rfl rfl rfl
  | reservesNext issued room => exact .reserves _ issued (hasRoom_iff.mp room) rfl rfl rfl
  | takesEntry found =>
    obtain ⟨front, back, before, after⟩ := eligibleRealtime_split found
    exact .takes _ front back before after rfl rfl
  | holdsEntry found =>
    obtain ⟨front, back, before, after⟩ := eligibleRealtime_split found
    exact .holds _ front back before after rfl rfl
  | commitsEntry held => exact .commits _ held rfl rfl rfl
  | restoresEntry rt held => exact .restores _ held rfl rfl rfl
  | discards => exact .discards _ rfl rfl rfl

theorem next_step (sound : signals.Sound) (call) :
  Step signals call (signals.next call) (signals.accepted call) (signals.delivered call)
    (signals.discarded call) (signals.restored call) := by
  cases call with
  | queue rec =>
    have hrun : queue rec signals = _ := queue_run rec
    simp only [next, accepted, attempt]
    split at hrun
    · rw [hrun]
      exact .same
    split at hrun
    · rename_i std
      simp only [hrun, Nat.not_le.mpr std, if_false]
      exact .marks std
    rename_i rt
    split at hrun
    · rw [hrun]
      exact .same
    rename_i hopen
    rw [not_or, Bool.not_eq_false] at hopen
    simp only [hrun, Nat.not_lt.mp rt, if_true]
    exact .queues (Nat.not_lt.mp rt) hopen.2 hopen.1
  | reserveDirect rec =>
    have hrun := reserveDirect_run sound rec
    simp only [next, accepted, attempt]
    split at hrun
    · rw [hrun]
      exact .same
    split at hrun
    · rename_i std
      split at hrun
      · rw [hrun]
        exact .marks std
      · rw [hrun]
        exact .reserves
    split at hrun
    · rw [hrun]
      exact .same
    rename_i hopen
    rw [not_or, Bool.not_eq_false] at hopen
    rw [hrun]
    exact .reservesNext hopen.2 hopen.1
  | takeEligible elig =>
    simp only [next, delivered, takeEligible]
    cases signals.eligibleStandard elig with
    | some sig => exact .takes
    | none =>
      cases hfound : signals.eligibleRealtime elig with
      | none => exact .same
      | some found => exact .takesEntry hfound
  | takeEligibleReserved elig =>
    simp only [next]
    cases std : signals.eligibleStandard elig with
    | some sig =>
      unfold takeEligibleReserved
      rw [std]
      exact .holds
    | none =>
      cases hfound : signals.eligibleRealtime elig with
      | none =>
        unfold takeEligibleReserved
        rw [std]
        simp only [hfound]
        exact .same
      | some found =>
        rw [takeReserved_realtime sound std hfound]
        exact .holdsEntry hfound
  | commitReservation resv =>
    simp only [next, attempt]
    cases resv with
    | standard sig =>
      have hrun : commitReservation (.standard sig) signals = _ := commit_standard_run sig
      split at hrun
      · rw [hrun]
        exact .same
      · rw [hrun]
        exact .commits
    | realtime seq =>
      have hrun : commitReservation (.realtime seq) signals = _ := commit_realtime_run seq
      simp only [delivered]
      split at hrun
      · rename_i held
        rw [hrun]
        exact .commitsEntry held
      · rw [hrun]
        exact .same
  | rollbackReservation resv rec =>
    simp only [next, attempt]
    cases resv with
    | standard sig =>
      have hrun : rollbackReservation (.standard sig) rec signals = _ :=
        rollback_standard_run sig rec
      split at hrun
      · rename_i held
        obtain ⟨rfl, ⟨-, std⟩, -⟩ := held
        rw [hrun]
        exact .restores std
      · rw [hrun]
        exact .same
    | realtime seq =>
      have hrun := rollback_realtime_run sound seq rec
      simp only [restored]
      split at hrun
      · rename_i held
        rw [hrun]
        exact .restoresEntry held.1 held.2
      · rw [hrun]
        exact .same
  | discard sig => exact .discards

theorem Sound.next (sound : signals.Sound) (call) : (signals.next call).Sound :=
  sound.effect (next_step sound call).effect

theorem sound_new : new.Sound := ⟨by decide, .nil, .nil, by simp [numbers, new]⟩

/-- The state after the calls. -/
def after (calls : List Call) : LinuxPendingSignals := run LinuxPendingSignals.next new calls

theorem sound_after (calls) : (after calls).Sound :=
  run_invariant (fun _ call sound => sound.next call) sound_new calls

/-! ## Rolling back -/

/-- The reservation is outstanding. -/
def Outstanding (signals : LinuxPendingSignals) : LinuxPendingSignalReservation → Prop
  | .standard signum =>
    1 ≤ signum ∧ signum < linuxRealtimeSignalMin ∧ Marked signals.standardReserved signum
  | .realtime sequence => sequence ∈ signals.realtimeReservations

/-- The record is of the kind that the reservation was made for. -/
def Fits : LinuxPendingSignalReservation → LinuxPendingSignal → Prop
  | .standard signum, record => record.signum = signum
  | .realtime _, record => linuxRealtimeSignalMin ≤ record.signum

/-- Roll back one reservation after the other. -/
def rollbackAll : List (LinuxPendingSignalReservation × LinuxPendingSignal) → SignalsM Unit
  | [] => pure ()
  | held :: rest => do
      rollbackReservation held.1 held.2
      rollbackAll rest

/-- What rolling back leaves: no reservation of the list, every record of it pending, the
realtime ones among the others in the order of their numbers, and nothing else changed. -/
structure RolledBack (order : List (LinuxPendingSignalReservation × LinuxPendingSignal))
    (before after : LinuxPendingSignals) : Prop where
  sound : after.Sound
  outstanding : ∀ other, after.Outstanding other ↔
    before.Outstanding other ∧ other ∉ order.map Prod.fst
  realtime : ∀ entry, entry ∈ after.realtimePending ↔
    entry ∈ before.realtimePending ∨ (.realtime entry.sequence, entry.record) ∈ order
  standard : ∀ signum record, (.standard signum, record) ∈ order →
    Marked after.standardPending signum ∧ after.standardRecords signum = record
  others : ∀ signum, .standard signum ∉ order.map Prod.fst →
    (Marked after.standardPending signum ↔ Marked before.standardPending signum) ∧
      after.standardRecords signum = before.standardRecords signum

theorem rollback_succeeds (sound : signals.Sound) {resv}
    (outstanding : signals.Outstanding resv) (fits : Fits resv rec) :
    ∃ next, rollbackReservation resv rec signals = .ok () next ∧
      RolledBack [(resv, rec)] signals next := by
  have hnext := sound.next (.rollbackReservation resv rec)
  cases resv with
  | standard sig =>
    obtain ⟨hlow, high, marked⟩ := outstanding
    have hrun : rollbackReservation (.standard sig) rec signals = _ := rollback_standard_run sig rec
    rw [if_pos ⟨.symm fits, ⟨hlow, high⟩, marked⟩] at hrun
    simp only [LinuxPendingSignals.next, attempt, hrun] at hnext
    have hmax : sig ≤ linuxMaxSignal := high.le.trans (by decide)
    refine ⟨_, hrun, hnext, fun other => ?_, by simp, fun num record same => ?_,
      fun num other => ?_⟩
    · cases other with
      | standard num => simp [Outstanding, marked_and_not, and_assoc, eq_comm]
      | realtime seq => simp [Outstanding]
    · cases mem_singleton.mp same
      exact ⟨marked_or.mpr (.inr ⟨hlow, hmax, rfl⟩), Function.update_self ..⟩
    · have hne : num ≠ sig := by simpa using other
      exact ⟨by simp [marked_or, hne.symm], Function.update_of_ne hne ..⟩
  | realtime seq =>
    have hrun := rollback_realtime_run sound seq rec
    rw [if_pos ⟨fits, outstanding⟩] at hrun
    simp only [LinuxPendingSignals.next, attempt, hrun] at hnext
    refine ⟨_, hrun, hnext, fun other => ?_, fun entry => ?_, by simp, by simp⟩
    · cases other with
      | standard num => simp [Outstanding]
      | realtime num =>
        have distinct := (nodup_append.mp sound.distinct).2.1
        simp [Outstanding, distinct.mem_erase_iff, and_comm]
    · rw [(insertBySequence_perm _ _).mem_iff]
      obtain ⟨num, record⟩ := entry
      simp [or_comm]

/-- Rolling back one reservation and then the others. -/
theorem RolledBack.cons {held rest mid final} (hfirst : RolledBack [held] signals mid)
    (hrest : RolledBack rest mid final) (fresh : held.1 ∉ rest.map Prod.fst) :
    RolledBack (held :: rest) signals final where
  sound := hrest.sound
  outstanding other := by
    rw [hrest.outstanding, hfirst.outstanding]
    simp [and_assoc]
  realtime entry := by
    rw [hrest.realtime, hfirst.realtime]
    simp [or_assoc]
  standard signum record hmem := by
    rcases mem_cons.mp hmem with rfl | later
    · rw [(hrest.others signum fresh).1, (hrest.others signum fresh).2]
      exact hfirst.standard signum record mem_cons_self
    · exact hrest.standard signum record later
  others signum hother := by
    simp only [map_cons, mem_cons, not_or] at hother
    rw [(hrest.others signum hother.2).1, (hrest.others signum hother.2).2]
    exact hfirst.others signum (by simpa using hother.1)

theorem rollbackAll_succeeds (sound : signals.Sound) {order} (distinct : (order.map Prod.fst).Nodup)
    (hheld : ∀ held ∈ order, signals.Outstanding held.1 ∧ Fits held.1 held.2) :
    ∃ final, rollbackAll order signals = .ok () final ∧ RolledBack order signals final := by
  induction order generalizing signals with
  | nil => exact ⟨signals, rfl, sound, by simp, by simp, by simp, by simp⟩
  | cons first rest ih =>
    obtain ⟨outstanding, fits⟩ := hheld first mem_cons_self
    obtain ⟨mid, hrun, hmid⟩ := rollback_succeeds sound outstanding fits
    rw [map_cons, nodup_cons] at distinct
    obtain ⟨final, hfinal, hrest⟩ := ih hmid.sound distinct.2 fun held hmem => by
      obtain ⟨other, kind⟩ := hheld held (mem_cons_of_mem _ hmem)
      refine ⟨(hmid.outstanding held.1).mpr ⟨other, fun same => distinct.1 ?_⟩, kind⟩
      exact mem_singleton.mp same ▸ mem_map_of_mem hmem
    exact ⟨final, (bind_run_ok hrun).trans hfinal, hmid.cons hrest distinct.1⟩

/--
In every state that calls lead to, the pending realtime records and the outstanding
reservations keep to the limit, pending numbers increase, reserved numbers are distinct
and none is pending; and outstanding reservations can be rolled back in any order, which
leaves their records pending and keeps all this.
-/
theorem reservations_can_be_rolled_back (calls : List Call) :
    (after calls).realtimePending.length + (after calls).realtimeReservations.length ≤
      linuxRtQueueLimit ∧
    ((after calls).realtimePending.Pairwise fun first second => first.sequence < second.sequence) ∧
    (after calls).realtimeReservations.Nodup ∧
    (∀ entry ∈ (after calls).realtimePending, entry.sequence ∉ (after calls).realtimeReservations) ∧
    ∀ order : List (LinuxPendingSignalReservation × LinuxPendingSignal),
      (order.map Prod.fst).Nodup →
      (∀ held ∈ order, (after calls).Outstanding held.1 ∧ Fits held.1 held.2) →
      ∃ final, rollbackAll order (after calls) = .ok () final ∧
        RolledBack order (after calls) final := by
  have hsound := sound_after calls
  obtain ⟨-, hreserved, hdisjoint⟩ := List.nodup_append.mp hsound.distinct
  refine ⟨?_, hsound.increasing, hreserved, fun entry hentry hheld => ?_, fun order =>
    rollbackAll_succeeds hsound⟩
  · rw [← length_numbers]
    exact hsound.capacity
  · exact hdisjoint _ (List.mem_map_of_mem hentry) _ hheld rfl

/-- Of two reservations the later is rolled back first. -/
theorem later_reservation_rolled_back_first :
    let record := { LinuxPendingSignal.empty with signum := 34 }
    let order := [(.realtime 2, record), (.realtime 1, record)]
    let signals := after [.reserveDirect record, .reserveDirect record]
    ∃ final, rollbackAll order signals = .ok () final ∧ RolledBack order signals final := by
  refine (reservations_can_be_rolled_back _).2.2.2.2 _ (by decide) fun held hmem => ?_
  rcases mem_pair.mp hmem with rfl | rfl <;> unfold Outstanding Fits <;> decide

end LinuxPendingSignals
end Smros.Signal
