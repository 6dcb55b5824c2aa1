import Smros.Signal.Reservations

/-!
# Delivering signals

A ledger keeps every realtime record that was accepted, in the order of acceptance.  At
any time each of them is pending, reserved, delivered or discarded, and only one of
these; the queue holds the pending ones in the order of the ledger.
-/

namespace Smros.Signal
open Lib List Function LinuxPendingSignals Program RealtimeEntry

/-! ## The ledger -/

/-- A queue with its ledger and the numbers delivered and discarded, in order. -/
structure History where
  signals : LinuxPendingSignals
  ledger : List RealtimeEntry
  delivered : List Nat
  discarded : List Nat

variable {first second : List RealtimeEntry}
/-- Lists in the order of acceptance are equal when they have the same entries. -/
theorem increasing_ext
  (hfirst : first.Pairwise fun earlier later => earlier.sequence < later.sequence)
  (hsnd : second.Pairwise fun earlier later => earlier.sequence < later.sequence)
  (same : ∀ entry, entry ∈ first ↔ entry ∈ second) : first = second := by
  have : Std.Antisymm fun earlier later : RealtimeEntry => earlier.sequence < later.sequence :=
    ⟨fun _ _ less greater => absurd (less.trans greater) (lt_irrefl _)⟩
  have : Std.Irrefl fun earlier later : RealtimeEntry => earlier.sequence < later.sequence :=
    ⟨fun _ => lt_irrefl _⟩
  exact hfirst.eq_of_mem_iff hsnd same

/-- The entry with the record that was put back in its place. -/
def replaced (restored : List RealtimeEntry) (entry : RealtimeEntry) : RealtimeEntry :=
  (restored.find? fun back => back.sequence == entry.sequence).getD entry

namespace History
def new : History := ⟨.new, [], [], []⟩

def next (history : History) (call : Call) : History where
  signals := history.signals.next call
  ledger := history.ledger.map (replaced (history.signals.restored call)) ++
    history.signals.accepted call
  delivered := history.delivered ++ history.signals.delivered call
  discarded := history.discarded ++ history.signals.discarded call

/-- The history of the calls. -/
def after (calls : List Call) : History := run next new calls

end History

theorem replaced_sequence (restored entry) :
  (replaced restored entry).sequence = entry.sequence := by
  unfold replaced
  cases hfind : restored.find? fun back => back.sequence == entry.sequence with
  | none => rfl
  | some back => simpa using find?_some hfind

/-- What the ledger says of the queue. -/
structure Recorded (history : History) : Prop where
  sound : history.signals.Sound
  accounts : (history.signals.numbers ++ (history.delivered ++ history.discarded)).Perm
    (history.ledger.map RealtimeEntry.sequence)
  increasing : history.ledger.Pairwise fun first second => first.sequence < second.sequence
  issued : history.signals.nextRealtimeSequence ≠ 0 →
    ∀ entry ∈ history.ledger, entry.sequence < history.signals.nextRealtimeSequence
  pending : ∀ entry ∈ history.signals.realtimePending, entry ∈ history.ledger

variable {entry : RealtimeEntry}
namespace Recorded
variable {hist : History}
theorem new : Recorded .new where
  sound := sound_new
  accounts := .refl _
  increasing := .nil
  issued := by simp [History.new]
  pending := by simp [History.new, LinuxPendingSignals.new]

theorem map_replaced_sequence (restored) (ledger : List RealtimeEntry) :
  (ledger.map (replaced restored)).map sequence = ledger.map sequence := by
  rw [map_map]
  exact map_congr_left fun entry _ => replaced_sequence restored entry

theorem replaced_nil (ledger : List RealtimeEntry) : ledger.map (replaced []) = ledger := by
  rw [show replaced [] = id from rfl, map_id]

variable {ledger : List RealtimeEntry} {back : RealtimeEntry}
/-- A pending record of the ledger is still there once a record was put back elsewhere. -/
theorem mem_replaced (hmem : entry ∈ ledger) (other : back.sequence ≠ entry.sequence) :
  entry ∈ ledger.map (replaced [back]) := by
  refine mem_map.mpr ⟨entry, hmem, ?_⟩
  simp [replaced, other]

section
variable {after : LinuxPendingSignals} {accepted restored : List RealtimeEntry}
  {delivered discarded : List Nat} (recorded : Recorded hist)
  (effect : hist.signals.Effect after accepted delivered discarded restored)
include recorded effect
theorem accounts_effect :
  (after.numbers ++ (hist.delivered ++ delivered ++ (hist.discarded ++ discarded))).Perm
    ((hist.ledger.map (replaced restored) ++ accepted).map sequence) := by
  rw [map_append, map_replaced_sequence]
  refine perm_iff_count.mpr fun sequence => ?_
  have before := recorded.accounts.count_eq sequence
  have balance := effect.balance.count_eq sequence
  simp only [count_append] at before balance ⊢
  omega

theorem increasing_effect :
  (hist.ledger.map (replaced restored) ++ accepted).Pairwise fun first second =>
    first.sequence < second.sequence := by
  have hold : (hist.ledger.map (replaced restored)).Pairwise fun first second =>
    first.sequence < second.sequence := by
    rw [pairwise_map]
    refine recorded.increasing.imp fun less => ?_
    rwa [replaced_sequence, replaced_sequence]
  rcases effect.accepted_room with ⟨haccepted, -⟩ | ⟨haccepted, issued, -, -⟩
  · rwa [haccepted, append_nil]
  obtain ⟨entry, rfl, sequence⟩ := map_eq_singleton_iff.mp haccepted
  refine pairwise_append.mpr ⟨hold, pairwise_singleton _ _, ?_⟩
  intro earlier hearlier last hlast
  obtain ⟨orig, horig, rfl⟩ := mem_map.mp hearlier
  rw [mem_singleton.mp hlast, replaced_sequence, sequence]
  exact recorded.issued issued orig horig

theorem issued_effect (more : after.nextRealtimeSequence ≠ 0) :
  ∀ entry ∈ hist.ledger.map (replaced restored) ++ accepted,
    entry.sequence < after.nextRealtimeSequence := by
  intro entry hentry
  rcases effect.accepted_room with ⟨rfl, hnext⟩ | ⟨haccepted, issued, -, hnext⟩
  · rw [append_nil] at hentry
    obtain ⟨orig, horig, rfl⟩ := mem_map.mp hentry
    rw [hnext] at more ⊢
    rw [replaced_sequence]
    exact recorded.issued more orig horig
  rw [hnext] at more ⊢
  have follows := lt_followingSequence more
  obtain ⟨last, rfl, sequence⟩ := map_eq_singleton_iff.mp haccepted
  rcases mem_append.mp hentry with hold | hlast
  · obtain ⟨orig, horig, rfl⟩ := mem_map.mp hold
    rw [replaced_sequence]
    exact (recorded.issued issued orig horig).trans follows
  · rw [mem_singleton.mp hlast, sequence]
    exact follows

theorem pending_effect : ∀ entry ∈ after.realtimePending,
    entry ∈ hist.ledger.map (replaced restored) ++ accepted := by
  have kept : ∀ {entries : List RealtimeEntry},
    (∀ entry ∈ entries, entry ∈ hist.signals.realtimePending) →
    ∀ entry ∈ entries, ∀ accepted, entry ∈ hist.ledger.map (replaced []) ++ accepted := by
    intro entries subset entry hentry accepted
    rw [replaced_nil]
    exact mem_append_left _ (recorded.pending entry (subset entry hentry))
  intro entry hentry
  cases effect with
  | keeps pend reserved hnext =>
    rw [pend] at hentry
    exact kept (fun _ => id) entry hentry _
  | queues rec issued room pend reserved hnext =>
    rw [pend] at hentry
    rcases mem_append.mp hentry with hold | last
    · exact kept (fun _ => id) entry hold _
    · exact mem_append_right _ last
  | reserves rec issued room pend reserved hnext =>
    rw [pend] at hentry
    exact kept (fun _ => id) entry hentry _
  | takes taken front back before pend reserved hnext
  | holds taken front back before pend reserved hnext =>
    rw [pend] at hentry
    refine kept (fun queued hqueued => ?_) entry hentry _
    rw [before]
    exact (Sublist.append_left (sublist_cons_self _ _) _).subset hqueued
  | commits seq held pend reserved hnext =>
    rw [pend] at hentry
    exact kept (fun _ => id) entry hentry _
  | restores back held pend reserved hnext =>
    rw [pend] at hentry
    refine mem_append_left _ ?_
    rcases mem_cons.mp ((insertBySequence_perm _ _).mem_iff.mp hentry) with rfl | hold
    · have num : entry.sequence ∈ hist.ledger.map sequence :=
        recorded.accounts.mem_iff.mp (mem_append_left _ (mem_append_right _ held))
      obtain ⟨orig, horig, same⟩ := mem_map.mp num
      exact mem_map.mpr ⟨orig, horig, by simp [replaced, same]⟩
    · have disjoint := (nodup_append.mp recorded.sound.distinct).2.2
      exact mem_replaced (recorded.pending entry hold) fun same =>
        disjoint _ (mem_map_of_mem hold) _ held same.symm
  | discards sig pend reserved hnext =>
    rw [pend] at hentry
    exact kept (fun queued hqueued => (mem_filter.mp hqueued).1) entry hentry _

end

theorem next (recorded : Recorded hist) (call) : Recorded (hist.next call) := by
  have effect := (next_step recorded.sound call).effect
  exact ⟨recorded.sound.next call, recorded.accounts_effect effect,
    recorded.increasing_effect effect, recorded.issued_effect effect,
    recorded.pending_effect effect⟩

theorem after (calls) : Recorded (.after calls) :=
  run_invariant (fun _ call recorded => recorded.next call) .new calls

variable (recorded : Recorded hist)
include recorded
/-- No number has two fates. -/
theorem distinct : (hist.signals.numbers ++ (hist.delivered ++ hist.discarded)).Nodup := by
  rw [recorded.accounts.nodup_iff]
  exact (pairwise_map.mpr recorded.increasing).imp fun less => less.ne

theorem eq_of_sequence {first second} (hfirst : first ∈ hist.ledger)
  (hsecond : second ∈ hist.ledger) (same : first.sequence = second.sequence) :
  first = second := by
  have nodup : (hist.ledger.map sequence).Nodup := recorded.accounts.nodup_iff.mp recorded.distinct
  exact inj_on_of_nodup_map nodup hfirst hsecond same

/-- The queue holds the pending records of the ledger in the ledger's order. -/
theorem pending_eq : hist.signals.realtimePending = hist.ledger.filter fun entry =>
    entry.sequence ∈ hist.signals.realtimePending.map sequence := by
  refine increasing_ext recorded.sound.increasing (recorded.increasing.filter _) fun entry => ?_
  rw [mem_filter, decide_eq_true_eq]
  refine ⟨fun hmem => ⟨recorded.pending entry hmem, mem_map_of_mem hmem⟩, ?_⟩
  rintro ⟨ledger, num⟩
  obtain ⟨queued, hqueued, same⟩ := mem_map.mp num
  have heq : queued = entry := recorded.eq_of_sequence (recorded.pending queued hqueued) ledger same
  exact heq ▸ hqueued

/--
For each realtime number, the delivered records are those accepted, without the pending,
the reserved and the discarded ones.
-/
theorem delivered_eq (sig) : hist.ledger.filter (fun entry =>
      entry.record.signum = sig ∧ entry.sequence ∈ hist.delivered) =
    hist.ledger.filter fun entry => entry.record.signum = sig ∧
      entry ∉ hist.signals.realtimePending ∧ entry.sequence ∉ hist.signals.realtimeReservations ∧
      entry.sequence ∉ hist.discarded := by
  refine filter_congr fun entry hentry => decide_eq_decide.mpr (and_congr_right fun _ => ?_)
  have number : entry.sequence ∈ hist.ledger.map sequence := mem_map_of_mem hentry
  rw [← recorded.accounts.mem_iff, numbers, mem_append, mem_append, mem_append] at number
  have pending : entry ∈ hist.signals.realtimePending ↔
    entry.sequence ∈ hist.signals.realtimePending.map sequence := by
    refine ⟨mem_map_of_mem, fun hmem => ?_⟩
    obtain ⟨queued, hqueued, same⟩ := mem_map.mp hmem
    exact recorded.eq_of_sequence (recorded.pending queued hqueued) hentry same ▸ hqueued
  obtain ⟨-, ends, apart⟩ := nodup_append.mp recorded.distinct
  obtain ⟨-, -, fates⟩ := nodup_append.mp ends
  rw [pending]
  constructor
  · intro delivered
    have used : entry.sequence ∉ hist.signals.numbers := fun hmem =>
      apart _ hmem _ (mem_append_left _ delivered) rfl
    rw [numbers, mem_append, not_or] at used
    exact ⟨used.1, used.2, fun gone => fates _ delivered _ gone rfl⟩
  · rintro ⟨notPending, notReserved, notDiscarded⟩
    rcases number with (hmem | hmem) | hmem | hmem
    · exact absurd hmem notPending
    · exact absurd hmem notReserved
    · exact hmem
    · exact absurd hmem notDiscarded

end Recorded

/-! ## The record that is delivered next -/

namespace LinuxPendingSignals
variable {sigs : LinuxPendingSignals} {eligible : Nat → Bool}
/-- A standard signal that a take may select. -/
def Ready (signals : LinuxPendingSignals) (eligible : Nat → Bool) (signum : Nat) : Prop :=
  Marked signals.standardPending signum ∧ ¬ Marked signals.standardReserved signum ∧
    eligible signum = true

variable {signum idx : Nat}
theorem mem_standardSignals {mask} : signum ∈ standardSignals mask ↔ Marked mask signum := by
  unfold standardSignals
  rw [mem_filter, mem_range'_1, bne_iff_ne]
  refine ⟨fun hmem => hmem.2, fun marked => ⟨?_, marked⟩⟩
  obtain ⟨hlow, high, -⟩ := marked_iff.mp marked
  omega

theorem standardSignals_increasing (mask) : (standardSignals mask).Pairwise (· < ·) :=
  (pairwise_lt_range' _).filter _

theorem eligibleStandard_some (found : sigs.eligibleStandard eligible = some signum) :
  sigs.Ready eligible signum ∧ ∀ other, sigs.Ready eligible other → signum ≤ other := by
  have test : ∀ number, (sigs.standardReserved &&& linuxSignalBit number == 0#64 &&
    eligible number) = true ↔ ¬ Marked sigs.standardReserved number ∧ eligible number = true := by
    intro number
    rw [Bool.and_eq_true, beq_iff_eq, Marked, not_not]
  obtain ⟨passes, front, back, hsplit, hfront⟩ := find?_eq_some_iff_append.mp found
  have hmem : ∀ {number}, number ∈ front ++ signum :: back ↔
    Marked sigs.standardPending number := by
    intro number
    rw [← hsplit, mem_standardSignals]
  refine ⟨⟨hmem.mp (by simp), (test signum).mp passes⟩, fun other ready => ?_⟩
  rcases mem_append.mp (hmem.mpr ready.1) with early | late
  · have fails := hfront other early
    rw [Bool.not_eq_true', (test other).mpr ready.2] at fails
    cases fails
  have sorted := standardSignals_increasing sigs.standardPending
  rw [hsplit] at sorted
  rcases mem_cons.mp late with rfl | late
  · exact le_rfl
  · exact ((pairwise_cons.mp (pairwise_append.mp sorted).2.1).1 other late).le

theorem eligibleStandard_none (hnone : sigs.eligibleStandard eligible = none) (signum) :
  ¬ sigs.Ready eligible signum := by
  rintro ⟨pend, reserved, helig⟩
  have fails := find?_eq_none.mp hnone signum (mem_standardSignals.mpr pend)
  rw [Marked, not_not] at reserved
  simp [reserved, helig] at fails

/-- The search looks only at the signals that are ready. -/
theorem eligibleStandard_congr {other : LinuxPendingSignals}
  (ready : ∀ signum, sigs.Ready eligible signum ↔ other.Ready eligible signum) :
  sigs.eligibleStandard eligible = other.eligibleStandard eligible := by
  cases hfirst : sigs.eligibleStandard eligible with
  | none =>
    cases hsnd : other.eligibleStandard eligible with
    | none => rfl
    | some signum =>
      exact absurd ((ready signum).mpr (eligibleStandard_some hsnd).1)
        (eligibleStandard_none hfirst signum)
  | some signum =>
    obtain ⟨selected, lowest⟩ := eligibleStandard_some hfirst
    cases hsnd : other.eligibleStandard eligible with
    | none => exact absurd ((ready signum).mp selected) (eligibleStandard_none hsnd signum)
    | some num =>
      obtain ⟨hother, otherLowest⟩ := eligibleStandard_some hsnd
      rw [Nat.le_antisymm (lowest num ((ready num).mpr hother))
        (otherLowest signum ((ready signum).mp selected))]

/-- The entry comes before the other: a lower signal, or the same and accepted earlier. -/
def ComesFirst (entry other : RealtimeEntry) : Prop :=
  entry.record.signum < other.record.signum ∨
    entry.record.signum = other.record.signum ∧ entry.sequence ≤ other.sequence

theorem eligibleRealtime_some (sound : sigs.Sound)
  (found : sigs.eligibleRealtime eligible = some (idx, entry)) :
  sigs.realtimePending[idx]? = some entry ∧ eligible entry.record.signum = true ∧
    ∀ other ∈ sigs.realtimePending, eligible other.record.signum = true →
      ComesFirst entry other := by
  obtain ⟨⟨place, hplace, pick⟩, least⟩ := leastEntry_some found
  obtain ⟨rfl, helig⟩ := Option.guard_eq_some_iff.mp pick
  refine ⟨hplace, helig, fun other hother passes => ?_⟩
  obtain ⟨pos, hlt, hget⟩ := mem_iff_getElem.mp hother
  have hpos : sigs.realtimePending[pos]? = some other := by
    rw [getElem?_eq_getElem hlt, hget]
  obtain ⟨hle, less⟩ := least hpos (Option.guard_eq_some_iff.mpr ⟨rfl, passes⟩)
  rcases Nat.lt_or_ge pos idx with before | after
  · exact .inl (less before)
  rcases hle.lt_or_eq with lower | same
  · exact .inl lower
  refine .inr ⟨same, ?_⟩
  rcases after.lt_or_eq with after | rfl
  · obtain ⟨hidx, hentry⟩ := List.getElem?_eq_some_iff.mp hplace
    have order := List.pairwise_iff_getElem.mp sound.increasing idx pos hidx hlt after
    rw [hentry, hget] at order
    exact order.le
  · rw [hplace] at hpos
    cases hpos
    exact le_rfl

theorem eligibleRealtime_none (hnone : sigs.eligibleRealtime eligible = none) :
  ∀ entry ∈ sigs.realtimePending, eligible entry.record.signum = false := by
  intro entry hentry
  have pick := leastEntry_eq_none.mp hnone entry hentry
  simpa using pick

/-- The record that is delivered next: the lowest standard signal that is ready, or the
oldest record of the lowest realtime signal. -/
inductive Selects (signals : LinuxPendingSignals) (eligible : Nat → Bool) :
  LinuxPendingSignal → Prop
  | standard (signum : Nat) (hready : signals.Ready eligible signum)
      (hlowest : ∀ other, signals.Ready eligible other → signum ≤ other) :
      Selects signals eligible (signals.standardRecords signum)
  | realtime (entry : RealtimeEntry) (hstandard : ∀ signum, ¬ signals.Ready eligible signum)
      (hmem : entry ∈ signals.realtimePending) (heligible : eligible entry.record.signum = true)
      (hfirst : ∀ other ∈ signals.realtimePending, eligible other.record.signum = true →
        ComesFirst entry other) : Selects signals eligible entry.record

variable {record : LinuxPendingSignal}
theorem peekEligible_selects (sound : sigs.Sound)
  (peek : sigs.peekEligible eligible = some record) : sigs.Selects eligible record := by
  unfold peekEligible at peek
  cases std : sigs.eligibleStandard eligible with
  | some sig =>
    rw [std] at peek
    cases peek
    obtain ⟨ready, lowest⟩ := eligibleStandard_some std
    exact .standard sig ready lowest
  | none =>
    rw [std] at peek
    obtain ⟨found, hfound, rfl⟩ := Option.map_eq_some_iff.mp peek
    obtain ⟨place, helig, hfirst⟩ := eligibleRealtime_some sound hfound
    exact .realtime found.2 (eligibleStandard_none std) (mem_of_getElem? place) helig hfirst

theorem peekEligible_none (peek : sigs.peekEligible eligible = none) :
  (∀ signum, ¬ sigs.Ready eligible signum) ∧
    ∀ entry ∈ sigs.realtimePending, eligible entry.record.signum = false := by
  unfold peekEligible at peek
  cases std : sigs.eligibleStandard eligible with
  | some signum =>
    rw [std] at peek
    cases peek
  | none =>
    rw [std] at peek
    exact ⟨eligibleStandard_none std, eligibleRealtime_none (Option.map_eq_none_iff.mp peek)⟩

theorem takeEligible_eq_peek (sigs : LinuxPendingSignals) (eligible) :
  (sigs.takeEligible eligible).2 = sigs.peekEligible eligible := by
  unfold takeEligible peekEligible
  cases sigs.eligibleStandard eligible with
  | some sig => rfl
  | none =>
    cases sigs.eligibleRealtime eligible with
    | none => rfl
    | some found => rfl

theorem takeReserved_eq_peek (sound : sigs.Sound) (eligible) :
  (sigs.takeEligibleReserved eligible).2.map Prod.fst = sigs.peekEligible eligible := by
  unfold peekEligible
  cases std : sigs.eligibleStandard eligible with
  | some sig =>
    unfold takeEligibleReserved
    rw [std]
    rfl
  | none =>
    cases hfound : sigs.eligibleRealtime eligible with
    | none =>
      unfold takeEligibleReserved
      rw [std]
      simp only [hfound]
      rfl
    | some found =>
      rw [takeReserved_realtime sound std hfound]
      rfl

/-! ## Standard signals are pending once -/

/-- The records that are pending. -/
def pendingRecords (signals : LinuxPendingSignals) : List LinuxPendingSignal :=
  (standardSignals signals.standardPending).map signals.standardRecords ++
    signals.realtimePending.map RealtimeEntry.record

/-- Each standard signal that is pending has a record of its own number, and the queue
holds realtime records only. -/
structure Kinds (signals : LinuxPendingSignals) : Prop where
  standard : ∀ {signum}, Marked signals.standardPending signum →
    signum < linuxRealtimeSignalMin ∧ (signals.standardRecords signum).signum = signum
  realtime : ∀ entry ∈ signals.realtimePending, linuxRealtimeSignalMin ≤ entry.record.signum

namespace Kinds
theorem new : Kinds .new where
  standard marked := by simp [Marked, LinuxPendingSignals.new] at marked
  realtime := by simp [LinuxPendingSignals.new]

variable {other : LinuxPendingSignals}
section
variable (kinds : Kinds sigs)
include kinds
/-- The kinds depend on the pending signals only. -/
theorem of_eq (pend : other.standardPending = sigs.standardPending)
  (recs : other.standardRecords = sigs.standardRecords)
  (rt : ∀ entry ∈ other.realtimePending, linuxRealtimeSignalMin ≤ entry.record.signum) :
  Kinds other := by
  refine ⟨fun marked => ?_, rt⟩
  rw [pend] at marked
  rw [recs]
  exact kinds.standard marked

theorem mark (std : record.signum < linuxRealtimeSignalMin)
  (pend : other.standardPending = sigs.standardPending ||| linuxSignalBit record.signum)
  (recs : other.standardRecords = update sigs.standardRecords record.signum record)
  (rt : other.realtimePending = sigs.realtimePending) : Kinds other := by
  refine ⟨fun {signum} marked => ?_, rt ▸ kinds.realtime⟩
  rw [pend, marked_or] at marked
  rw [recs]
  by_cases same : signum = record.signum
  · subst same
    rw [update_self]
    exact ⟨std, rfl⟩
  · rw [update_of_ne same]
    rcases marked with hold | ⟨-, -, hnew⟩
    · exact kinds.standard hold
    · exact absurd hnew.symm same

variable {cleared : Nat}
theorem clear (pend : other.standardPending = sigs.standardPending &&& ~~~linuxSignalBit cleared)
  (recs : ∀ signum ≠ cleared, other.standardRecords signum = sigs.standardRecords signum)
  (rt : ∀ entry ∈ other.realtimePending, linuxRealtimeSignalMin ≤ entry.record.signum) :
  Kinds other := by
  refine ⟨fun {signum} marked => ?_, rt⟩
  rw [pend, marked_and_not] at marked
  rw [recs signum (Ne.symm marked.2)]
  exact kinds.standard marked.1

theorem queueStandard (std : record.signum < linuxRealtimeSignalMin) :
  Kinds (queueStandard record sigs) := by
  unfold LinuxPendingSignals.queueStandard
  split
  · exact kinds.mark std rfl rfl rfl
  · exact kinds

theorem clearStandard (sig) : Kinds (sigs.clearStandard sig) :=
  kinds.clear rfl (fun _ other => update_of_ne other _ _) kinds.realtime

theorem removeRealtime (idx) : ∀ entry ∈ sigs.realtimePending.eraseIdx idx,
    linuxRealtimeSignalMin ≤ entry.record.signum := fun entry hentry =>
  kinds.realtime entry ((eraseIdx_sublist _ _).subset hentry)

theorem step {call accepted delivered discarded restored}
  (step : Step sigs call other accepted delivered discarded restored) : Kinds other := by
  cases step with
  | same => exact kinds
  | marks std => exact kinds.queueStandard std
  | queues rt issued room =>
    refine kinds.of_eq rfl rfl fun entry hentry => ?_
    rcases mem_append.mp hentry with hold | hnew
    · exact kinds.realtime entry hold
    · rw [mem_singleton.mp hnew]
      exact rt
  | reserves | reservesNext | commits | commitsEntry => exact kinds.of_eq rfl rfl kinds.realtime
  | takes => exact kinds.clearStandard _
  | takesEntry | holdsEntry => exact kinds.of_eq rfl rfl (kinds.removeRealtime _)
  | holds => exact (kinds.clearStandard _).of_eq rfl rfl kinds.realtime
  | restores std => exact kinds.mark std rfl rfl rfl
  | restoresEntry rt held =>
    refine kinds.of_eq rfl rfl fun entry hentry => ?_
    rcases mem_cons.mp ((insertBySequence_perm _ _).mem_iff.mp hentry) with rfl | hold
    · exact rt
    · exact kinds.realtime entry hold
  | @discards sig =>
    refine kinds.clear rfl (fun num other => ?_) fun entry hentry =>
      kinds.realtime entry (mem_filter.mp hentry).1
    simp only [discard]
    split
    · exact update_of_ne other _ _
    · rfl

end

theorem after (calls) : Kinds (.after calls) := by
  have keeps : ∀ (sigs : LinuxPendingSignals) (call : Call), sigs.Sound ∧ Kinds sigs →
    (sigs.next call).Sound ∧ Kinds (sigs.next call) := fun _ call both =>
    ⟨both.1.next call, both.2.step (next_step both.1 call)⟩
  exact (run_invariant keeps ⟨sound_new, .new⟩ calls).2

/-- No standard signal has two pending records. -/
theorem standard_once (kinds : Kinds sigs) (std : signum < linuxRealtimeSignalMin) :
  sigs.pendingRecords.countP (fun record => record.signum == signum) ≤ 1 := by
  have rt : (sigs.realtimePending.map record).countP
    (fun record => record.signum == signum) = 0 := by
    refine countP_eq_zero.mpr fun record hrec same => ?_
    obtain ⟨entry, hentry, rfl⟩ := mem_map.mp hrec
    have kind := kinds.realtime entry hentry
    rw [beq_iff_eq.mp same] at kind
    omega
  have nums : ((standardSignals sigs.standardPending).map sigs.standardRecords).countP
    (fun record => record.signum == signum) =
    (standardSignals sigs.standardPending).count signum := by
    rw [countP_map, count]
    refine countP_congr fun num hnumber => ?_
    rw [comp_apply, (kinds.standard (mem_standardSignals.mp hnumber)).2]
  rw [pendingRecords, countP_append, rt, nums, Nat.add_zero]
  exact nodup_iff_count_le_one.mp
    ((standardSignals_increasing sigs.standardPending).imp fun less => less.ne) signum

end Kinds
end LinuxPendingSignals

end Smros.Signal
