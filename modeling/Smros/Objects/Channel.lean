import Smros.Lib.Runs
import Smros.Lib.Slots
import Smros.Objects.Rights

/-!
# Channels

A channel has two endpoints, each with the queue of the messages for it.  What is written
at one endpoint is queued for the other; closing an endpoint empties its own queue, and
the channel leaves the table with its last reference.
-/

namespace Smros.Objects
open Lib

def maxChannelMsgSize : Nat := 65536
def maxChannelMsgHandles : Nat := 64
def channelHandleStart : Nat := 0x9300_0000
def maxChannelObjects : Nat := 256
def maxChannelQueueMessages : Nat := 32

/-- The flag `valid`, which is always set, is left out. -/
structure ChannelMessage where
  data : List UInt8
  handles : List Nat
  deriving DecidableEq

inductive ChannelState where
  | active
  | peerClosed
  | closed
  deriving DecidableEq

/-- The ends of a channel: `0` and `1` in the names of its fields. -/
inductive Side where
  | zero
  | one
  deriving DecidableEq

def Side.other : Side → Side
  | .zero => .one
  | .one => .zero

/-- The two handles, queues and rights are indexed by the side. -/
structure Channel where
  handle : Side → Nat
  queue : Side → List ChannelMessage
  state : ChannelState
  refCount : Nat
  maxMsgSize : Nat
  rights : Side → Rights

namespace Channel
def new (handle0 handle1 : Nat) : Channel where
  handle := fun side => match side with
    | .zero => handle0
    | .one => handle1
  queue := fun _ => []
  state := .active
  refCount := 2
  maxMsgSize := maxChannelMsgSize
  rights := fun _ => .defaultChannel

variable (channel : Channel)
/-- The end that a handle stands for. -/
def side (endpoint : Nat) : Option Side :=
  if endpoint = channel.handle .zero then some .zero
  else if endpoint = channel.handle .one then some .one
  else none

def hasRights (endpoint : Nat) (required : Rights) : Bool :=
  (channel.side endpoint).any fun side => rightsHas (channel.rights side) required

def setQueue (channel : Channel) (side : Side) (queue : List ChannelMessage) : Channel :=
  { channel with queue := Function.update channel.queue side queue }

/-- `write`; a refused write comes before every change. -/
def write (channel : Channel) (endpoint : Nat) (message : ChannelMessage) :
  Except ZxError (Unit × Channel) :=
  if channel.state ≠ .active then .error .errPeerClosed
  else if ¬ channel.hasRights endpoint .write then .error .errAccessDenied
  else if ¬ (message.data.length ≤ channel.maxMsgSize ∧
      message.handles.length ≤ maxChannelMsgHandles) then .error .errInvalidArgs
  else
    match channel.side endpoint with
    | none => .error .errInvalidArgs
    | some side =>
      if maxChannelQueueMessages ≤ (channel.queue side.other).length then .error .errShouldWait
      else .ok ((), channel.setQueue side.other (channel.queue side.other ++ [message]))

/-- Take the first message of an end. -/
def popFront (endpoint : Nat) : Except ZxError (ChannelMessage × Channel) :=
  match channel.side endpoint with
  | none => .error .errInvalidArgs
  | some side =>
    match channel.queue side with
    | [] => .error .errShouldWait
    | message :: rest => .ok (message, channel.setQueue side rest)

/-- `read`, the method of the object. -/
def read (channel : Channel) (endpoint : Nat) : Except ZxError (ChannelMessage × Channel) :=
  if channel.state ≠ .active then .error .errPeerClosed
  else if ¬ channel.hasRights endpoint .read then .error .errAccessDenied
  else channel.popFront endpoint

/-- The reading of `sys_channel_read`, with room for so many bytes and handles. -/
def sysRead (endpoint bytesLen handlesCount : Nat) : Except ZxError (ChannelMessage × Channel) :=
  match channel.popFront endpoint with
  | .error reason => .error reason
  | .ok (message, rest) =>
    if bytesLen < message.data.length ∨ handlesCount < message.handles.length then
      .error .errOutOfRange
    else .ok (message, rest)

/-- The count of references is a word of 32 bits. -/
def closeEndpoint (endpoint : Nat) : Except ZxError Channel :=
  match channel.side endpoint with
  | none => .error .errInvalidArgs
  | some side =>
    let refCount := (channel.refCount + (2 ^ 32 - 1)) % 2 ^ 32
    .ok { channel.setQueue side [] with
      refCount := refCount
      state := if refCount = 0 then .closed else .peerClosed }

/-- The handle is one of the two. -/
def has (handle : Nat) : Bool := (channel.side handle).isSome

end Channel

/-- The counter is a word of 32 bits. -/
structure ChannelTable where
  channels : List Channel
  nextId : Nat

namespace ChannelTable
def new : ChannelTable := ⟨[], channelHandleStart⟩

variable (table : ChannelTable)

def createChannel : Option (Nat × Nat) × ChannelTable :=
  if maxChannelObjects ≤ table.channels.length then (none, table)
  else
    let handle1 := (table.nextId + 1) % 2 ^ 32
    (some (table.nextId, handle1),
      ⟨table.channels ++ [Channel.new table.nextId handle1], (handle1 + 1) % 2 ^ 32⟩)

/-- The first channel with the handle, and its place. -/
def getChannel (handle : Nat) : Option (Channel × Nat) :=
  table.channels.zipIdx.find? fun place => place.1.has handle

/-- Close an end; the channel goes with its last reference. -/
def removeChannel (table : ChannelTable) (handle : Nat) : Bool × ChannelTable :=
  match table.getChannel handle with
  | none => (false, table)
  | some (channel, index) =>
    match channel.closeEndpoint handle with
    | .error _ => (true, table)
    | .ok closed =>
      if closed.state = .closed then
        (true, { table with channels := table.channels.eraseIdx index })
      else (true, { table with channels := table.channels.set index closed })

/-- An operation on the channel of a handle. -/
def onChannel {Value : Type} (table : ChannelTable) (handle : Nat)
  (operation : Channel → Except ZxError (Value × Channel)) : Except ZxError Value × ChannelTable :=
  match table.getChannel handle with
  | none => (.error .errNotFound, table)
  | some (channel, index) =>
    match operation channel with
    | .error reason => (.error reason, table)
    | .ok (value, after) => (.ok value, { table with channels := table.channels.set index after })

/-- The method `write` of the channel of a handle. -/
def write (table : ChannelTable) (handle : Nat) (message : ChannelMessage) :
  Except ZxError Unit × ChannelTable :=
  table.onChannel handle fun channel => channel.write handle message

def read (table : ChannelTable) (handle : Nat) : Except ZxError ChannelMessage × ChannelTable :=
  table.onChannel handle fun channel => channel.read handle

def writeMessage (handle : Nat) (data : List UInt8) : Except ZxError Unit × ChannelTable :=
  table.write handle ⟨data, []⟩

/-- `read_message`; the handles that were read are dropped. -/
def readMessage (handle : Nat) : Except ZxError (List UInt8) × ChannelTable :=
  ((table.read handle).1.map (·.data), (table.read handle).2)

/-- `channel_buffers_valid`. -/
def channelBuffersValid (bytesPtr bytesLen handlesPtr handlesLen : Nat) : Bool :=
  (bytesLen == 0 || bytesPtr != 0) && (handlesLen == 0 || handlesPtr != 0)

/-- The buffers hold the message. -/
def sysChannelWrite (handle options bytesPtr handlesPtr : Nat)
  (message : ChannelMessage) : Except ZxError Unit × ChannelTable :=
  if options ≠ 0 ∨
      ¬ channelBuffersValid bytesPtr message.data.length handlesPtr message.handles.length then
    (.error .errInvalidArgs, table)
  else table.write handle message

def sysChannelRead (handle options bytesPtr bytesLen handlesPtr handlesCount : Nat) :
  Except ZxError ChannelMessage × ChannelTable :=
  if options ≠ 0 ∨ ¬ channelBuffersValid bytesPtr bytesLen handlesPtr handlesCount then
    (.error .errInvalidArgs, table)
  else table.onChannel handle fun channel => channel.sysRead handle bytesLen handlesCount

end ChannelTable
end Smros.Objects
