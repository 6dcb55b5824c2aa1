import Smros.Lib.Vectors
import Smros.Objects.Channel

/-!
# Channels over whole runs

For each handle a history keeps the messages that were accepted for its end and those that
were read there.  The queue of an open end is what lies between.
-/

namespace Smros.Objects
open Lib List Function Channel
variable {bytesLen handlesCount : Nat}
namespace Channel
variable {channel after : Channel} {endpoint : Nat} {message : ChannelMessage} {side : Side}
/-- The channel once its first end was closed. -/
def halfClosed (channel : Channel) (side : Side) : Channel :=
  { channel.setQueue side [] with refCount := 1, state := .peerClosed }

theorem handle_of_side (hside : channel.side endpoint = some side) :
  channel.handle side = endpoint := by
  unfold Channel.side at hside
  split at hside
  · rename_i same
    cases hside
    exact same.symm
  split at hside
  · rename_i same
    cases hside
    exact same.symm
  · cases hside

theorem has_iff : channel.has endpoint ↔ ∃ side, channel.handle side = endpoint := by
  constructor
  · intro hhas
    obtain ⟨side, hside⟩ := Option.isSome_iff_exists.mp hhas
    exact ⟨side, handle_of_side hside⟩
  rintro ⟨side, rfl⟩
  unfold has Channel.side
  cases side with
  | zero => rw [if_pos rfl]; rfl
  | one =>
    split
    · rfl
    · rw [if_pos rfl]
      rfl

theorem write_ok (hwrite : channel.write endpoint message = .ok ((), after)) :
  ∃ side, channel.side endpoint = some side ∧ channel.state = .active ∧
    after = channel.setQueue side.other (channel.queue side.other ++ [message]) := by
  unfold write at hwrite
  split at hwrite
  · cases hwrite
  rename_i active
  split at hwrite
  · cases hwrite
  split at hwrite
  · cases hwrite
  split at hwrite
  · cases hwrite
  rename_i side hside
  split at hwrite
  · cases hwrite
  · cases hwrite
    exact ⟨side, hside, not_not.mp active, rfl⟩

theorem popFront_ok (hpop : channel.popFront endpoint = .ok (message, after)) :
  ∃ side rest, channel.side endpoint = some side ∧ channel.queue side = message :: rest ∧
    after = channel.setQueue side rest := by
  unfold popFront at hpop
  split at hpop
  · cases hpop
  rename_i side hside
  split at hpop
  · cases hpop
  rename_i first rest queue
  cases hpop
  exact ⟨side, rest, hside, queue, rfl⟩

theorem read_ok (hread : channel.read endpoint = .ok (message, after)) :
  channel.popFront endpoint = .ok (message, after) := by
  unfold read at hread
  split at hread
  · cases hread
  split at hread
  · cases hread
  · exact hread

theorem sysRead_ok (read : channel.sysRead endpoint bytesLen handlesCount = .ok (message, after)) :
  channel.popFront endpoint = .ok (message, after) := by
  unfold sysRead at read
  split at read
  · cases read
  rename_i hpop
  rw [hpop]
  split at read
  · cases read
  · exact read

end Channel

namespace ChannelTable
variable {table : ChannelTable} {handle index : Nat} {channel : Channel}
theorem getChannel_some (hget : table.getChannel handle = some (channel, index)) :
  table.channels[index]? = some channel ∧ channel.has handle :=
  ⟨mk_mem_zipIdx_iff_getElem?.mp (mem_of_find?_eq_some hget),
    find?_some (p := fun place : Channel × Nat => place.1.has handle) hget⟩

theorem getChannel_none :
  table.getChannel handle = none ↔ ∀ channel ∈ table.channels, channel.has handle = false := by
  unfold getChannel
  rw [find?_eq_none]
  constructor
  · intro hall channel hmem
    obtain ⟨idx, hlt, rfl⟩ := mem_iff_getElem.mp hmem
    have hplace := hall (_, idx) (mk_mem_zipIdx_iff_getElem?.mpr (getElem?_eq_getElem hlt))
    exact Bool.eq_false_iff.mpr hplace
  · intro hall place hplace
    exact Bool.eq_false_iff.mp (hall _ (fst_mem_of_mem_zipIdx hplace))

/-- An operation fails and changes nothing, or changes the channel of the handle. -/
theorem onChannel_cases {Value} (operation : Channel → Except ZxError (Value × Channel)) :
  (∃ reason, table.onChannel handle operation = (.error reason, table)) ∨
  ∃ channel index value after, table.getChannel handle = some (channel, index) ∧
    operation channel = .ok (value, after) ∧ table.onChannel handle operation =
      (.ok value, { table with channels := table.channels.set index after }) := by
  unfold onChannel
  cases hget : table.getChannel handle with
  | none => exact .inl ⟨_, rfl⟩
  | some place =>
    obtain ⟨channel, index⟩ := place
    cases hrun : operation channel with
    | error reason =>
      simp only [hrun]
      exact .inl ⟨reason, rfl⟩
    | ok result =>
      simp only [hrun]
      exact .inr ⟨channel, index, result.1, result.2, rfl, hrun, rfl⟩

end ChannelTable

/-! ## Histories -/

inductive ChannelCall where
  | create
  | write (handle : Nat) (message : ChannelMessage)
  | writeMessage (handle : Nat) (data : List UInt8)
  | sysChannelWrite (handle options bytesPtr handlesPtr : Nat) (message : ChannelMessage)
  | read (handle : Nat)
  | readMessage (handle : Nat)
  | sysChannelRead (handle options bytesPtr bytesLen handlesPtr handlesCount : Nat)
  | close (handle : Nat)

/-- An end since its creation; one that was never created counts as closed.  What the reads
took from the queue is `received`, and what they gave to their callers is `delivered`. -/
structure End where
  closed : Bool
  accepted : List ChannelMessage
  received : List ChannelMessage
  delivered : List ChannelMessage

structure ChannelHistory where
  table : ChannelTable
  ends : Nat → End

namespace ChannelHistory
open ChannelTable

def new : ChannelHistory := ⟨.new, fun _ => ⟨true, [], [], []⟩⟩

variable (history : ChannelHistory) (handle : Nat)

def onEnd (change : End → End) : Nat → End :=
  Function.update history.ends handle (change (history.ends handle))

/-- The handle of the other end. -/
def peer : Option Nat := do
  let place ← history.table.getChannel handle
  let side ← place.1.side handle
  return place.1.handle side.other

def wrote (message : ChannelMessage) : Except ZxError Unit × ChannelTable → ChannelHistory
  | (.error _, table) => { history with table := table }
  | (.ok _, table) =>
    match history.peer handle with
    | none => { history with table := table }
    | some peer =>
      ⟨table, history.onEnd peer fun reader =>
        { reader with accepted := reader.accepted ++ [message] }⟩

def readAt (given : ChannelMessage → ChannelMessage) :
    Except ZxError ChannelMessage × ChannelTable → ChannelHistory
  | (.error _, table) => { history with table := table }
  | (.ok message, table) =>
    ⟨table, history.onEnd handle fun reader =>
      { reader with
        received := reader.received ++ [message]
        delivered := reader.delivered ++ [given message] }⟩

def step : ChannelCall → ChannelHistory
  | .create =>
    match history.table.createChannel with
    | (none, table) => { history with table := table }
    | (some (handle0, handle1), table) =>
      ⟨table, Function.update (Function.update history.ends handle0 ⟨false, [], [], []⟩) handle1
        ⟨false, [], [], []⟩⟩
  | .write handle message => history.wrote handle message (history.table.write handle message)
  | .writeMessage handle data =>
    history.wrote handle ⟨data, []⟩ (history.table.writeMessage handle data)
  | .sysChannelWrite handle options bytesPtr handlesPtr message =>
    history.wrote handle message
      (history.table.sysChannelWrite handle options bytesPtr handlesPtr message)
  | .read handle => history.readAt handle id (history.table.read handle)
  -- `read_message` reads with the method and gives the bytes
  | .readMessage handle =>
    history.readAt handle (fun message => ⟨message.data, []⟩) (history.table.read handle)
  | .sysChannelRead handle options bytesPtr bytesLen handlesPtr handlesCount =>
    history.readAt handle id
      (history.table.sysChannelRead handle options bytesPtr bytesLen handlesPtr handlesCount)
  | .close handle =>
    ⟨(history.table.removeChannel handle).2, history.onEnd handle fun closing =>
      { closing with closed := true }⟩

/-- The queue of an open end lies between what was accepted and what was read; a channel
counts its open ends. -/
structure Holds (ends : Side → End) (channel : Channel) : Prop where
  injective : Function.Injective channel.handle
  rights : channel.rights = fun _ => .defaultChannel
  open_queue : ∀ side, (ends side).closed = false →
    (ends side).accepted = (ends side).received ++ channel.queue side
  closed_queue : ∀ side, (ends side).closed = true → channel.queue side = []
  counted : (channel.state = .active ∧ channel.refCount = 2 ∧ ∀ side, (ends side).closed = false) ∨
    channel.state = .peerClosed ∧ channel.refCount = 1 ∧
      ∃ side, (ends side).closed = false ∧ (ends side.other).closed = true

/-- The ends of a channel. -/
def endsOf (history : ChannelHistory) (channel : Channel) (side : Side) : End :=
  history.ends (channel.handle side)

/-- The channels have handles of their own. -/
def Apart (first second : Channel) : Prop := ∀ side other, first.handle side ≠ second.handle other

variable {first snd : Channel} {options bytesPtr handlesPtr : Nat}
theorem Apart.symm (apart : Apart first snd) : Apart snd first :=
  fun side other => (apart other side).symm

structure Sound (history : ChannelHistory) : Prop where
  apart : history.table.channels.Pairwise Apart
  holds : ∀ channel ∈ history.table.channels, Holds (history.endsOf channel) channel
  present : ∀ handle, (history.ends handle).closed = false →
    ∃ channel ∈ history.table.channels, ∃ side, channel.handle side = handle
  prefixes : ∀ handle, (history.ends handle).received <+: (history.ends handle).accepted

variable {handle} {history} {after : ChannelHistory} {index : Nat} {channel : Channel} {side : Side}
  {others : List Channel}
/-- A step that puts one channel in the place of another, or none, keeps the channels whose
handles it does not touch. -/
theorem Sound.change (hsound : history.Sound) (touched : Nat → Prop) (old left : Option Channel)
  (before : history.table.channels.Perm (old.toList ++ others))
  (hafter : after.table.channels.Perm (left.toList ++ others))
  (hold : ∀ channel ∈ old, ∀ side, touched (channel.handle side))
  (hothers : ∀ other ∈ others, ∀ side, ¬ touched (other.handle side))
  (hleft : ∀ channel ∈ left, (∀ side, touched (channel.handle side)) ∧
    Holds (after.endsOf channel) channel)
  (same : ∀ handle, ¬ touched handle → after.ends handle = history.ends handle)
  (htouched : ∀ handle, touched handle →
    (after.ends handle).received <+: (after.ends handle).accepted ∧
    ((after.ends handle).closed = false → ∃ channel ∈ left, ∃ side, channel.handle side = handle)) :
  after.Sound := by
  have kept : ∀ other ∈ others, other ∈ history.table.channels := fun other hother =>
    before.mem_iff.mpr (mem_append_right _ hother)
  refine ⟨?_, fun channel hmem => ?_, fun handle hopen => ?_, fun handle => ?_⟩
  · have rest := (pairwise_append.mp ((before.pairwise_iff .symm).mp hsound.apart)).2.1
    refine (hafter.pairwise_iff .symm).mpr (pairwise_append.mpr ⟨?_, rest, ?_⟩)
    · cases left with
      | none => exact .nil
      | some channel => exact pairwise_singleton _ _
    · intro channel hmem other hother side place heq
      exact hothers other hother place (heq ▸ (hleft channel (Option.mem_toList.mp hmem)).1 side)
  · rcases mem_append.mp (hafter.mem_iff.mp hmem) with hnew | hother
    · exact (hleft channel (Option.mem_toList.mp hnew)).2
    have ends : after.endsOf channel = history.endsOf channel :=
      funext fun side => same _ (hothers channel hother side)
    rw [ends]
    exact hsound.holds channel (kept channel hother)
  · by_cases mine : touched handle
    · obtain ⟨channel, hnew, hside⟩ := (htouched handle mine).2 hopen
      exact ⟨channel, hafter.mem_iff.mpr (mem_append_left _ (Option.mem_toList.mpr hnew)), hside⟩
    rw [same handle mine] at hopen
    obtain ⟨channel, hmem, side, rfl⟩ := hsound.present handle hopen
    rcases mem_append.mp (before.mem_iff.mp hmem) with hfirst | hother
    · exact absurd (hold channel (Option.mem_toList.mp hfirst) side) mine
    · exact ⟨channel, hafter.mem_iff.mpr (mem_append_right _ hother), side, rfl⟩
  · by_cases mine : touched handle
    · exact (htouched handle mine).1
    · rw [same handle mine]
      exact hsound.prefixes handle

/-! ## Steps -/

/-- What a step does to one end, the others see nothing of. -/
theorem onEnd_handle (injective : Injective channel.handle) (side change) :
  (fun other => history.onEnd (channel.handle side) change (channel.handle other)) =
    update (history.endsOf channel) side (change (history.endsOf channel side)) := by
  funext other
  unfold onEnd endsOf
  rw [update_apply, update_apply]
  simp only [injective.eq_iff]

section
variable (hsound : history.Sound)
include hsound
section
variable (hget : history.table.getChannel handle = some (channel, index))
include hget
/-- The channel that a call reaches, and the end that it is called at. -/
theorem Sound.located :
  Holds (history.endsOf channel) channel ∧ ∃ side, channel.side handle = some side ∧
    channel.handle side = handle := by
  obtain ⟨place, hhas⟩ := getChannel_some hget
  obtain ⟨side, hside⟩ := Option.isSome_iff_exists.mp hhas
  exact ⟨hsound.holds channel (mem_of_getElem? place), side, hside, handle_of_side hside⟩

variable {channels : List Channel}
/-- A step changes one end of one channel, or it is the last of the channel. -/
theorem Sound.changeEnd (left : Option Channel) {change} (hchannels : channels = match left with
    | none => history.table.channels.eraseIdx index
    | some changed => history.table.channels.set index changed)
  (hleft : ∀ changed ∈ left, changed.handle = channel.handle ∧ Holds
    (update (history.endsOf channel) side (change (history.endsOf channel side))) changed)
  (last : left = none → ∀ other, (update (history.endsOf channel) side
    (change (history.endsOf channel side)) other).closed = true)
  (ordered : (change (history.endsOf channel side)).received <+:
    (change (history.endsOf channel side)).accepted) :
  Sound ⟨{ history.table with channels := channels },
    history.onEnd (channel.handle side) change⟩ := by
  obtain ⟨hplace, -⟩ := getChannel_some hget
  obtain ⟨others, before, hset, -⟩ := perm_around hplace
  have ends : (fun other => history.onEnd (channel.handle side) change (channel.handle other)) = _ :=
    onEnd_handle (hsound.holds channel (mem_of_getElem? hplace)).injective side change
  have apart := (pairwise_cons.mp ((before.pairwise_iff .symm).mp hsound.apart)).1
  refine hsound.change (fun handle => ∃ side, channel.handle side = handle) (some channel) left
    before ?_ ?_ ?_ ?_ ?_ ?_
  · subst hchannels
    cases left with
    | none => exact (perm_cons channel).mp ((perm_eraseIdx hplace).trans before)
    | some changed => exact hset changed
  · rintro _ ⟨⟩ other
    exact ⟨other, rfl⟩
  · rintro other hother place ⟨mine, heq⟩
    exact apart other hother mine place heq
  · intro changed hchanged
    obtain ⟨hhandle, holds⟩ := hleft changed hchanged
    refine ⟨fun other => ⟨other, by rw [hhandle]⟩, ?_⟩
    rw [← ends] at holds
    unfold endsOf
    rw [hhandle]
    exact holds
  · exact fun other hother => update_of_ne (fun heq => hother ⟨side, heq.symm⟩) _ _
  · rintro _ ⟨other, rfl⟩
    have hother := congrFun ends other
    dsimp only at hother ⊢
    rw [hother]
    refine ⟨?_, fun hopen => ?_⟩
    · rw [update_apply]
      split
      · exact ordered
      · exact hsound.prefixes _
    · cases left with
      | none =>
        rw [last rfl other] at hopen
        cases hopen
      | some changed => exact ⟨changed, rfl, other, by rw [(hleft changed rfl).1]⟩

/-- A message joins or leaves the queue of an open end. -/
theorem Sound.queue
  (hopen : (history.endsOf channel side).closed = false) {queue : List ChannelMessage}
  {change : End → End} (closed : ∀ reader, (change reader).closed = reader.closed)
  (hqueue : (change (history.endsOf channel side)).accepted =
    (change (history.endsOf channel side)).received ++ queue) :
  Sound ⟨{ history.table with
    channels := history.table.channels.set index (channel.setQueue side queue) },
    history.onEnd (channel.handle side) change⟩ := by
  obtain ⟨holds, -⟩ := hsound.located hget
  have same : ∀ other, (update (history.endsOf channel) side
    (change (history.endsOf channel side)) other).closed = (history.endsOf channel other).closed := by
    intro other
    rw [update_apply]
    split
    · rename_i hother
      rw [hother, closed]
    · rfl
  refine hsound.changeEnd hget (some (channel.setQueue side queue)) rfl ?_ nofun
    ⟨queue, hqueue.symm⟩
  rintro _ ⟨⟩
  refine ⟨rfl, holds.injective, holds.rights, fun other hother => ?_, fun other hother => ?_, ?_⟩
  · rw [same] at hother
    by_cases hside : other = side
    · subst hside
      simpa [setQueue] using hqueue
    · simpa [setQueue, hside] using holds.open_queue other hother
  · rw [same] at hother
    have hside : other ≠ side := by
      rintro rfl
      rw [hopen] at hother
      cases hother
    simpa [setQueue, hside] using holds.closed_queue other hother
  · simp only [same]
    exact holds.counted

end

theorem sound_wrote (msg : ChannelMessage) :
  (history.wrote handle msg (history.table.write handle msg)).Sound := by
  unfold ChannelTable.write
  rcases onChannel_cases _ with ⟨reason, hrun⟩ | ⟨chan, idx, _, after, hget, write, hrun⟩
  · rw [hrun]
    exact hsound
  obtain ⟨side, hside, active, rfl⟩ := write_ok write
  have hpeer : history.peer handle = some (chan.handle side.other) := by simp [peer, hget, hside]
  obtain ⟨holds, -⟩ := hsound.located hget
  -- both ends of an active chan are open
  have hopen : (history.endsOf chan side.other).closed = false := by
    rcases holds.counted with counted | ⟨closed, -⟩
    · exact counted.2.2 _
    · rw [active] at closed
      cases closed
  rw [hrun]
  simp only [wrote, hpeer]
  refine hsound.queue hget hopen (fun _ => rfl) ?_
  rw [holds.open_queue _ hopen, append_assoc]

/-- Both ways of reading take the first message of the end. -/
theorem sound_readAt {operation : Channel → Except ZxError (ChannelMessage × Channel)} {given}
  (hoperation : ∀ channel message after, operation channel = .ok (message, after) →
    channel.popFront handle = .ok (message, after)) :
  (history.readAt handle given (history.table.onChannel handle operation)).Sound := by
  rcases onChannel_cases operation with
    ⟨reason, hrun⟩ | ⟨channel, idx, message, after, hget, read, hrun⟩
  · rw [hrun]
    exact hsound
  obtain ⟨side, rest, hside, hfirst, rfl⟩ := popFront_ok (hoperation channel message after read)
  obtain rfl := handle_of_side hside
  obtain ⟨holds, -⟩ := hsound.located hget
  have hopen : (history.endsOf channel side).closed = false := by
    by_contra closed
    rw [holds.closed_queue side (Bool.not_eq_false _ ▸ closed)] at hfirst
    cases hfirst
  rw [hrun]
  refine hsound.queue hget hopen (fun _ => rfl) ?_
  rw [holds.open_queue side hopen, hfirst, append_cons]

/-- An open end has its channel, with the messages that were accepted for it and not read. -/
theorem Sound.open_end (hopen : (history.ends handle).closed = false) :
  ∃ channel index side, history.table.getChannel handle = some (channel, index) ∧
    channel.side handle = some side ∧
    (history.ends handle).accepted = (history.ends handle).received ++ channel.queue side := by
  cases hget : history.table.getChannel handle with
  | none =>
    obtain ⟨channel, hmem, hside⟩ := hsound.present handle hopen
    exact absurd (has_iff.mpr hside) (Bool.eq_false_iff.mp (getChannel_none.mp hget channel hmem))
  | some place =>
    obtain ⟨holds, side, hside, rfl⟩ := hsound.located hget
    exact ⟨place.1, place.2, side, rfl, hside, holds.open_queue side hopen⟩

/-- Closing the second end, the channel goes; closing the first, it stays for the other. -/
theorem sound_close
  (close : (history.ends handle).closed = false ∨ history.table.getChannel handle = none) :
  (history.step (.close handle)).Sound := by
  cases hget : history.table.getChannel handle with
  | none =>
    -- no chan has the handle, so the end is closed already
    have closed : (history.ends handle).closed = true := by
      by_contra hopen
      obtain ⟨_, _, _, found, -⟩ := hsound.open_end (Bool.not_eq_true _ ▸ hopen)
      cases hget.symm.trans found
    have same : history.step (.close handle) = history := by
      simp only [step, removeChannel, hget, onEnd, ← closed, update_eq_self]
    rw [same]
    exact hsound
  | some place =>
    obtain ⟨chan, idx⟩ := place
    obtain ⟨holds, side, hside, rfl⟩ := hsound.located hget
    have hopen : (history.endsOf chan side).closed = false :=
      close.resolve_right (by rw [hget]; nofun)
    rcases holds.counted with ⟨-, count, both⟩ | ⟨-, count, other, -, closed⟩
    · simp only [step, removeChannel, hget, closeEndpoint, hside, count]
      refine hsound.changeEnd hget (some (chan.halfClosed side)) rfl ?_ nofun (hsound.prefixes _)
      rintro _ ⟨⟩
      refine ⟨rfl, holds.injective, holds.rights, fun other hother => ?_, fun other hother => ?_,
        .inr ⟨rfl, rfl, side.other, ?_, ?_⟩⟩
      · have hne : other ≠ side := by
          rintro rfl
          simp at hother
        simpa [halfClosed, setQueue, hne] using holds.open_queue other (both other)
      · by_cases same : other = side
        · subst same
          simp [halfClosed, setQueue]
        · rw [update_of_ne same, both] at hother
          cases hother
      · rw [update_of_ne (by cases side <;> nofun)]
        exact both _
      · cases side <;> simp [Side.other]
    · simp only [step, removeChannel, hget, closeEndpoint, hside, count]
      refine hsound.changeEnd hget none rfl nofun (fun _ place => ?_) (hsound.prefixes _)
      by_cases hplace : place = side
      · rw [hplace, update_self]
      · -- the open end of the two is the one that is closed now
        rw [update_of_ne hplace]
        cases place <;> cases side <;> cases other <;> simp_all [Side.other]

end

/-- The values that the counter gives next are not in use. -/
def Fresh (history : ChannelHistory) : Prop :=
  ∀ channel ∈ history.table.channels, channel.has history.table.nextId = false ∧
    channel.has ((history.table.nextId + 1) % 2 ^ 32) = false

theorem sound_create (hsound : history.Sound) (fresh : history.Fresh) :
  (history.step .create).Sound := by
  by_cases full : maxChannelObjects ≤ history.table.channels.length
  · simpa only [step, createChannel, full, if_true] using hsound
  simp only [step, createChannel, full, if_false]
  generalize hone : (history.table.nextId + 1) % 2 ^ 32 = handle1
  generalize zero : history.table.nextId = handle0 at hone
  unfold Fresh at fresh
  rw [zero, hone] at fresh
  have hne : handle0 ≠ handle1 := by omega
  refine hsound.change (fun handle => handle = handle0 ∨ handle = handle1) none
    (some (.new handle0 handle1)) .rfl (perm_append_singleton _ _) nofun ?_ ?_ ?_ ?_
  · rintro chan hmem side (same | same)
    · exact Bool.eq_false_iff.mp (fresh chan hmem).1 (Channel.has_iff.mpr ⟨side, same⟩)
    · exact Bool.eq_false_iff.mp (fresh chan hmem).2 (Channel.has_iff.mpr ⟨side, same⟩)
  · rintro _ ⟨⟩
    have ends : ∀ side, update (update history.ends handle0 ⟨false, [], [], []⟩)
      handle1 ⟨false, [], [], []⟩ ((Channel.new handle0 handle1).handle side) = ⟨false, [], [], []⟩ := by
      intro side
      cases side <;> simp [Channel.new, hne]
    refine ⟨fun side => by cases side <;> simp [Channel.new], ?_⟩
    unfold endsOf
    simp only [ends]
    refine ⟨fun side other same => ?_, rfl, fun _ _ => rfl, nofun, .inl ⟨rfl, rfl, fun _ => rfl⟩⟩
    cases side <;> cases other <;> simp_all [Channel.new]
  · intro handle hother
    rw [not_or] at hother
    exact (update_of_ne hother.2 _ _).trans (update_of_ne hother.1 _ _)
  · rintro handle (rfl | rfl)
    · exact ⟨by simp [hne], fun _ => ⟨_, rfl, .zero, rfl⟩⟩
    · exact ⟨by simp, fun _ => ⟨_, rfl, .one, rfl⟩⟩

/-- A new channel gets values that are not in use, and an end that is closed is not closed
again while its channel is there. -/
def Allowed (history : ChannelHistory) : ChannelCall → Prop
  | .create => history.Fresh
  | .close handle => (history.ends handle).closed = false ∨ history.table.getChannel handle = none
  | _ => True

theorem sound_step {call} (hsound : history.Sound) (allowed : history.Allowed call) :
  (history.step call).Sound := by
  cases call with
  | create => exact sound_create hsound allowed
  | write handle msg => exact sound_wrote hsound msg
  | writeMessage handle data => exact sound_wrote hsound ⟨data, []⟩
  | sysChannelWrite handle options bytesPtr handlesPtr msg =>
    simp only [step, sysChannelWrite]
    split
    · exact hsound
    · exact sound_wrote hsound msg
  | read handle => exact sound_readAt hsound fun _ _ _ => read_ok
  | readMessage handle => exact sound_readAt hsound fun _ _ _ => read_ok
  | sysChannelRead handle options bytesPtr bytesLen handlesPtr handlesCount =>
    simp only [step, sysChannelRead]
    split
    · exact hsound
    · exact sound_readAt hsound fun _ _ _ => sysRead_ok
  | close handle => exact sound_close hsound allowed

theorem sound_new : new.Sound where
  apart := .nil
  holds := nofun
  present := nofun
  prefixes := fun _ => prefix_refl _

theorem sound_run {calls} (allowed : Guarded Allowed step new calls) : (run step new calls).Sound :=
  guarded_invariant (fun _ _ => sound_step) sound_new allowed

/-- A read by the system call that fails changes nothing and is not answered with a closed peer. -/
theorem sysChannelRead_error {reason}
  (error : (history.table.sysChannelRead handle options bytesPtr bytesLen handlesPtr
    handlesCount).1 = .error reason) :
  (history.table.sysChannelRead handle options bytesPtr bytesLen handlesPtr handlesCount).2 =
    history.table ∧ reason ≠ .errPeerClosed := by
  unfold sysChannelRead onChannel sysRead popFront at error ⊢
  grind

/-! ## Messages kept intact -/

/-- The first message that is queued for the handle, in the channel that it is found in. -/
def front (history : ChannelHistory) (handle : Nat) : Option (ChannelState × ChannelMessage) := do
  let place ← history.table.getChannel handle
  let side ← place.1.side handle
  let message ← (place.1.queue side).head?
  return (place.1.state, message)

/-- The counter of handles does not turn over, an end that is closed is not closed again while
its channel is there, the method reads a queued message only in an active channel, and
`read_message` only one without handles. -/
def Intact (history : ChannelHistory) : ChannelCall → Prop
  | .create => history.table.nextId + 2 < 2 ^ 32
  | .close handle => (history.ends handle).closed = false ∨ history.table.getChannel handle = none
  | .read handle => ∀ first ∈ history.front handle, first.1 = .active
  | .readMessage handle =>
    ∀ first ∈ history.front handle, first.1 = .active ∧ first.2.handles = []
  | _ => True

/-- The counter has passed the handles of the channels. -/
def Below (table : ChannelTable) : Prop :=
  ∀ channel ∈ table.channels, ∀ side, channel.handle side < table.nextId

theorem Below.fresh (below : Below history.table) (room : history.table.nextId + 2 < 2 ^ 32) :
    history.Fresh := by
  intro chan hmem
  have none : ∀ handle, history.table.nextId ≤ handle → chan.has handle = false := by
    intro handle hle
    refine Bool.eq_false_iff.mpr fun hhas => ?_
    obtain ⟨side, rfl⟩ := has_iff.mp hhas
    exact Nat.not_le.mpr (below chan hmem side) hle
  refine ⟨none _ (Nat.le_refl _), none _ ?_⟩
  rw [Nat.mod_eq_of_lt (by omega)]
  exact Nat.le_succ _

theorem below_set {table : ChannelTable} (below : Below table) {changed : Channel}
    (place : table.channels[index]? = some channel) (same : changed.handle = channel.handle) :
    Below { table with channels := table.channels.set index changed } := by
  intro chan hmem side
  rcases mem_or_eq_of_mem_set hmem with hold | rfl
  · exact below chan hold side
  · rw [same]
    exact below channel (mem_of_getElem? place) side

theorem below_onChannel {table : ChannelTable} (below : Below table) {Value}
    {operation : Channel → Except ZxError (Value × Channel)}
    (same : ∀ channel value after, operation channel = .ok (value, after) →
      after.handle = channel.handle) : Below (table.onChannel handle operation).2 := by
  rcases onChannel_cases operation with ⟨reason, hrun⟩ | ⟨chan, idx, value, after, hget, ok, hrun⟩
  · rw [hrun]
    exact below
  · rw [hrun]
    exact below_set below (getChannel_some hget).1 (same chan value after ok)

theorem below_step {call} (below : Below history.table) (intact : history.Intact call) :
    Below (history.step call).table := by
  have wrote : ∀ handle msg answer, Below answer.2 →
      Below (history.wrote handle msg answer).table := by
    rintro handle msg ⟨_ | _, table⟩ hbelow
    · exact hbelow
    · simp only [ChannelHistory.wrote]
      split <;> exact hbelow
  have readAt : ∀ handle given answer, Below answer.2 →
      Below (history.readAt handle given answer).table := by
    rintro handle given ⟨_ | _, table⟩ hbelow <;> exact hbelow
  have write : ∀ handle msg, Below (history.table.write handle msg).2 := fun handle msg =>
    below_onChannel below fun chan _ after ok => by
      obtain ⟨side, -, -, rfl⟩ := write_ok ok
      rfl
  have popped : ∀ {chan : Channel} {handle msg after}, chan.popFront handle = .ok (msg, after) →
      after.handle = chan.handle := fun ok => by
    obtain ⟨side, rest, -, -, rfl⟩ := popFront_ok ok
    rfl
  cases call with
  | create =>
    have room : history.table.nextId + 2 < 2 ^ 32 := intact
    by_cases full : maxChannelObjects ≤ history.table.channels.length
    · simpa only [step, createChannel, full, if_true] using below
    simp only [step, createChannel, full, if_false]
    rw [Nat.mod_eq_of_lt (by omega : history.table.nextId + 1 < 2 ^ 32), Nat.mod_eq_of_lt room]
    intro chan hmem side
    rcases mem_append.mp hmem with hold | hnew
    · have hlt := below chan hold side
      dsimp only
      omega
    · rw [mem_singleton.mp hnew]
      cases side <;> simp [Channel.new]
  | write handle msg => exact wrote _ _ _ (write handle msg)
  | writeMessage handle data => exact wrote _ _ _ (write handle ⟨data, []⟩)
  | sysChannelWrite handle options bytesPtr handlesPtr msg =>
    refine wrote _ _ _ ?_
    unfold ChannelTable.sysChannelWrite
    split
    · exact below
    · exact write handle msg
  | read handle =>
    exact readAt _ _ _ (below_onChannel below fun _ _ _ ok => popped (read_ok ok))
  | readMessage handle =>
    exact readAt _ _ _ (below_onChannel below fun _ _ _ ok => popped (read_ok ok))
  | sysChannelRead handle options bytesPtr bytesLen handlesPtr handlesCount =>
    refine readAt _ _ _ ?_
    unfold ChannelTable.sysChannelRead
    split
    · exact below
    · exact below_onChannel below fun _ _ _ ok => popped (sysRead_ok ok)
  | close handle =>
    simp only [step, removeChannel]
    cases hget : history.table.getChannel handle with
    | none => exact below
    | some place =>
      obtain ⟨chan, idx⟩ := place
      simp only [closeEndpoint]
      split
      · exact below
      · rename_i closed hclosed
        split at hclosed <;> cases hclosed
        split
        · exact fun chan hmem => below chan (mem_of_mem_eraseIdx hmem)
        · exact below_set below (getChannel_some hget).1 rfl

/-- What was taken was given to the caller. -/
def Handed (history : ChannelHistory) : Prop :=
  ∀ handle, (history.ends handle).delivered = (history.ends handle).received

theorem Handed.onEnd (handed : history.Handed) {change}
    (same : ∀ reader, reader.delivered = reader.received →
      (change reader).delivered = (change reader).received) (table) :
    Handed ⟨table, history.onEnd handle change⟩ := by
  intro other
  by_cases hother : other = handle
  · subst hother
    simpa [ChannelHistory.onEnd] using same _ (handed other)
  · simpa [ChannelHistory.onEnd, hother] using handed other

/-- A read gives the caller the message that it takes, where that is the first of the queue. -/
theorem handed_readAt (handed : history.Handed) {given}
    {operation : Channel → Except ZxError (ChannelMessage × Channel)}
    (hoperation : ∀ channel message after, operation channel = .ok (message, after) →
      channel.popFront handle = .ok (message, after))
    (hgiven : ∀ first ∈ history.front handle, given first.2 = first.2) :
    (history.readAt handle given (history.table.onChannel handle operation)).Handed := by
  rcases onChannel_cases operation with
    ⟨reason, hrun⟩ | ⟨channel, idx, message, after, hget, read, hrun⟩
  · rw [hrun]
    exact handed
  obtain ⟨side, rest, hside, hfirst, -⟩ := popFront_ok (hoperation channel message after read)
  have same : given message = message :=
    hgiven (channel.state, message) (by simp [front, hget, hside, hfirst])
  rw [hrun]
  exact handed.onEnd (fun reader heq => by simp [heq, same]) _

theorem handed_step {call} (handed : history.Handed) (intact : history.Intact call) :
    (history.step call).Handed := by
  have wrote : ∀ handle msg answer, (history.wrote handle msg answer).Handed := by
    rintro handle msg ⟨_ | _, table⟩
    · exact handed
    · simp only [ChannelHistory.wrote]
      split
      · exact handed
      · refine handed.onEnd ?_ _
        exact fun _ heq => heq
  cases call with
  | create =>
    simp only [step]
    split
    · exact handed
    · intro handle
      simp only [Function.update_apply]
      split
      · rfl
      split
      · rfl
      · exact handed handle
  | write handle msg => exact wrote _ _ _
  | writeMessage handle data => exact wrote _ _ _
  | sysChannelWrite handle options bytesPtr handlesPtr msg => exact wrote _ _ _
  | read handle => exact handed_readAt handed (fun _ _ _ => read_ok) fun _ _ => rfl
  | readMessage handle =>
    refine handed_readAt handed (fun _ _ _ => read_ok) fun first hfirst => ?_
    rw [← (intact first hfirst).2]
  | sysChannelRead handle options bytesPtr bytesLen handlesPtr handlesCount =>
    simp only [step, sysChannelRead]
    split
    · exact handed
    · exact handed_readAt handed (fun _ _ _ => sysRead_ok) fun _ _ => rfl
  | close handle =>
    unfold step
    refine handed.onEnd ?_ _
    exact fun _ heq => heq

theorem Intact.allowed {call} (below : Below history.table) (intact : history.Intact call) :
    history.Allowed call := by
  cases call with
  | create => exact below.fresh intact
  | close handle => exact intact
  | _ => trivial

/-- What was given at an end is the front part of what was accepted for it; at an open end
the rest is queued, whether or not the other end was closed, and each read that the guard admits
gives its first message; and a read that is refused changes nothing and, at an open end, reports
a closed peer only if nothing is queued. -/
structure Delivers (history : ChannelHistory) (handle : Nat) : Prop where
  ordered : (history.ends handle).delivered <+: (history.ends handle).accepted
  queued : (history.ends handle).closed = false → ∃ channel index side,
    history.table.getChannel handle = some (channel, index) ∧
    (history.ends handle).accepted = (history.ends handle).delivered ++ channel.queue side ∧
    (∀ message rest, channel.queue side = message :: rest →
      (∀ bytesPtr bytesLen handlesPtr handlesCount,
        channelBuffersValid bytesPtr bytesLen handlesPtr handlesCount →
        message.data.length ≤ bytesLen → message.handles.length ≤ handlesCount →
        (history.table.sysChannelRead handle 0 bytesPtr bytesLen handlesPtr handlesCount).1 =
          .ok message) ∧
      (history.Intact (.read handle) → (history.table.read handle).1 = .ok message) ∧
      (history.Intact (.readMessage handle) →
        (history.table.readMessage handle).1 = .ok message.data ∧ message.handles = [])) ∧
    (history.Intact (.read handle) →
      (history.table.read handle).1 = .error .errPeerClosed → channel.queue side = [])
  refused : ∀ options bytesPtr bytesLen handlesPtr handlesCount reason,
    (history.table.sysChannelRead handle options bytesPtr bytesLen handlesPtr handlesCount).1 =
      .error reason →
    (history.table.sysChannelRead handle options bytesPtr bytesLen handlesPtr handlesCount).2 =
      history.table ∧ reason ≠ .errPeerClosed

theorem messages_read_as_accepted (calls : List ChannelCall)
    (hintact : Guarded Intact step new calls) (handle : Nat) :
    (run step new calls).Delivers handle := by
  have hkeeps : ∀ (history : ChannelHistory) (call : ChannelCall),
      (history.Sound ∧ Below history.table ∧ history.Handed) → history.Intact call →
      (history.step call).Sound ∧ Below (history.step call).table ∧ (history.step call).Handed :=
    fun history call ⟨hsound, hbelow, hhanded⟩ hcall =>
      ⟨sound_step hsound (hcall.allowed hbelow), below_step hbelow hcall, handed_step hhanded hcall⟩
  obtain ⟨hsound, -, hhanded⟩ := guarded_invariant hkeeps
    ⟨sound_new, (fun _ hmem => nomatch hmem : Below new.table), fun _ => rfl⟩ hintact
  refine ⟨hhanded handle ▸ hsound.prefixes handle, fun hopen => ?_,
    fun _ _ _ _ _ _ => sysChannelRead_error⟩
  obtain ⟨chan, idx, side, hget, hside, hqueue⟩ := hsound.open_end hopen
  have hrights : chan.hasRights handle .read = true := by
    rw [hasRights, hside, (hsound.located hget).1.rights]
    exact (by decide : rightsHas .defaultChannel .read = true)
  have hread : ∀ msg rest, chan.queue side = msg :: rest →
      (run step new calls).Intact (.read handle) →
      ((run step new calls).table.read handle).1 = .ok msg := by
    intro msg rest front hactive
    have hstate : chan.state = .active :=
      hactive (chan.state, msg) (by simp [ChannelHistory.front, hget, hside, front])
    simp [ChannelTable.read, onChannel, hget, Channel.read, hstate, hrights, popFront, hside, front]
  refine ⟨chan, idx, side, hget, hhanded handle ▸ hqueue, fun msg rest front => ⟨?_, ?_, ?_⟩, ?_⟩
  · intro bytesPtr bytesLen handlesPtr handlesCount valid bytes handles
    simp [sysChannelRead, valid, onChannel, hget, sysRead, popFront, hside, front,
      Nat.not_lt.mpr bytes, Nat.not_lt.mpr handles]
  · exact hread msg rest front
  · intro hbare
    refine ⟨?_, (hbare (chan.state, msg) (by simp [ChannelHistory.front, hget, hside, front])).2⟩
    rw [readMessage, hread msg rest front fun first hfirst => (hbare first hfirst).1]
    rfl
  · intro hactive hclosed
    cases front : chan.queue side with
    | nil => rfl
    | cons msg rest =>
      rw [hread msg rest front hactive] at hclosed
      cases hclosed

/-- A message of one byte. -/
def smallMessage : ChannelMessage := ⟨[7], []⟩

/-- A message is written, and the end of the writer closed. -/
def writerCalls : List ChannelCall :=
  [.create, .write channelHandleStart smallMessage, .close channelHandleStart]

/-- The first of two messages is read with the method before the end of the writer is closed. -/
def readerCalls : List ChannelCall :=
  [.create, .write channelHandleStart smallMessage, .read (channelHandleStart + 1),
    .write channelHandleStart smallMessage, .close channelHandleStart]

theorem messages_read_as_accepted_after_close :
    (run step new readerCalls).Delivers (channelHandleStart + 1) :=
  messages_read_as_accepted readerCalls
    ⟨(by decide : new.table.nextId + 2 < 2 ^ 32), trivial, by simp only [Intact]; decide +kernel,
      trivial, .inl (by decide), trivial⟩ _

/-- The method does not read a message that the system call reads. -/
theorem method_refuses_queued_message :
  ((run step new writerCalls).table.read (channelHandleStart + 1)).1 = .error .errPeerClosed ∧
  ((run step new writerCalls).table.sysChannelRead (channelHandleStart + 1) 0 1 1 0 0).1 =
      .ok smallMessage := by
  decide +kernel

/-- Closing an end that is closed fails and changes nothing just when its channel is gone; a
channel in the table has an open end; and an open end has its channel and its messages. -/
structure Lasts (history : ChannelHistory) (handle : Nat) : Prop where
  closed : (history.ends handle).closed = true →
    (history.table.removeChannel handle = (false, history.table) ↔
      ∀ channel ∈ history.table.channels, channel.has handle = false)
  needed : ∀ channel ∈ history.table.channels,
    ∃ side, (history.ends (channel.handle side)).closed = false
  kept : (history.ends handle).closed = false → ∃ channel index side,
    history.table.getChannel handle = some (channel, index) ∧ channel.side handle = some side ∧
    (history.ends handle).accepted = (history.ends handle).received ++ channel.queue side

theorem channels_last_while_open (calls : List ChannelCall)
  (hallowed : Guarded Allowed step new calls) (handle : Nat) :
  (run step new calls).Lasts handle := by
  have hsound := sound_run hallowed
  refine ⟨fun _ => ?_, fun chan hmem => ?_, hsound.open_end⟩
  · rw [← getChannel_none]
    unfold removeChannel
    grind
  · rcases (hsound.holds chan hmem).counted with ⟨-, -, hboth⟩ | ⟨-, -, side, hopen, -⟩
    · exact ⟨.zero, hboth .zero⟩
    · exact ⟨side, hopen⟩

theorem channels_last_while_open_reader :
  (run step new writerCalls).Lasts (channelHandleStart + 1) :=
  channels_last_while_open writerCalls ⟨nofun, trivial, .inl (by decide), trivial⟩ _

/-- One end is closed twice: the second time succeeds and takes the channel from the end
that is open, with the message that was queued for it. -/
theorem closing_twice_destroys_channel :
  ((run step new writerCalls).table.removeChannel channelHandleStart).1 = true ∧
  ((run step new writerCalls).table.removeChannel channelHandleStart).2.channels.length = 0 ∧
  ((run step new writerCalls).ends (channelHandleStart + 1)).closed = false ∧
  ((run step new writerCalls).ends (channelHandleStart + 1)).accepted = [smallMessage] := by
  decide +kernel

end ChannelHistory
end Smros.Objects
