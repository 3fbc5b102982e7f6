import Libemq.Delivery
import Libemq.Lockstep

namespace Libemq.Machines

open Libemq.CStrings
open Libemq.ExitCode
open Libemq.Blocks (Memory)
open Libemq.Inventories
open Libemq.Client
open Libemq.Network
open Libemq.Packet
open Libemq.Protocol
open Libemq.Commands
open Libemq.Transactions
open Libemq.Calls
open Libemq.HeapLists
open Libemq.Connections
open Libemq.Subscriptions
open Libemq.Delivery (StatusOnly)
open Libemq.Lifetimes (always)
open Libemq.Events (readArray readPattern readEventHeader)

/-- A connection with the memory of its client. The subscriptions of the world are those
that the memory should hold. -/
structure Machine where
  world : World
  mem : Memory Resource

inductive Violation where
  | memory
  | fault (reason : Fault)
  deriving DecidableEq, Repr

abbrev Reentrant := Code Machine Violation

variable {α : Type}

def onWorld (x : Emq α) : Reentrant α := fun m =>
  match x m.world with
  | .next value w => .next value { m with world := w }
  | .error w => .error { m with world := w }
  | .fault reason w => .fault (.fault reason) { m with world := w }

def inMemory (x : Life α) : Reentrant α := fun m =>
  match x m.mem with
  | some (value, mem) => .next value { m with mem := mem }
  | none => .fault .memory m

/-- What a callback is given. Its name is the one in the subscription at this address, while
`topic` and `pattern` are arrays of the function that hands them out. -/
structure Handed where
  callback : CallbackPtr
  type : CallbackType
  subscription : Nat
  topic : Option (List UInt8)
  pattern : Option (List UInt8)
  msg : Option EmqMsg

def Handed.name (h : Handed) : CharPtr := .name h.subscription

def Handed.args (h : Handed) (name : List UInt8) : CallbackArgs :=
  ⟨h.type, name, h.topic, h.pattern, h.msg⟩

def callback? : Resource → Option CallbackPtr
  | .queueSubscription s => some s.callback
  | .channelSubscription s => some s.callback
  | _ => none

/-- `subscription->callback` -/
def hand (subscription : Nat) (type : CallbackType) (topic pattern : Option (List UInt8))
    (msg : Option EmqMsg) : Reentrant (Option Handed) := do
  let callback ← inMemory (load callback? subscription)
  pure (some ⟨callback, type, subscription, topic, pattern, msg⟩)

def emqQueueReceive (k : Kernel) (client : Nat) (header : ProtocolEventHeader) :
    Reentrant (Option Handed) := do
  match ← onWorld (readArray k 64) with
  | none => pure none
  | some name =>
      match ← inMemory (search client .queues name) with
      | none => pure none
      | some subscription =>
          if header.type = emqProtocolEventMessage then
            match ← onWorld (emqReadMessage k
              ((header.bodylen.toNat + 4294967296 - 64) % 4294967296)) with
            | none => pure none
            | some msg => hand subscription .queue none none (some msg)
          else hand subscription .queue none none none

def emqChannelReceive (k : Kernel) (client : Nat) (header : ProtocolEventHeader)
    (extended : Bool) : Reentrant (Option Handed) := do
  match ← onWorld (readArray k 64) with
  | none => pure none
  | some name =>
      match ← onWorld (readArray k 32) with
      | none => pure none
      | some topic =>
          match ← onWorld (readPattern k extended) with
          | none => pure none
          | some pattern =>
              match ← inMemory (search client .channels name) with
              | none => pure none
              | some subscription =>
                  match ← onWorld (emqReadMessage k ((header.bodylen.toNat + 4294967296 -
                    (if extended then 128 else 96)) % 4294967296)) with
                  | none => pure none
                  | some msg => hand subscription .channel (some topic) pattern (some msg)

/-- The strings of the request of a call, in the order in which its builder checks them. -/
def strings (c : Command) : List CString :=
  (stringLimits (request c).command.layout (request c).values).map Prod.fst

/-- A call that waits for a status only, with the pointers that it is given. -/
inductive Call where
  | queueSubscribe (name : CharPtr) (flags : UInt32) (callback : CallbackPtr)
  | queueUnsubscribe (name : CharPtr)
  | channelSubscribe (name topic : CharPtr) (callback : CallbackPtr)
  | channelPsubscribe (name pattern : CharPtr) (callback : CallbackPtr)
  | channelUnsubscribe (name topic : CharPtr)
  | channelPunsubscribe (name pattern : CharPtr)
  | other (names : List CharPtr) (make : List CString → Command)
      (hmake : ∀ given, StatusOnly (make given) ∧ commit (make given) = .nothing)
      (hstrings : ∀ given, given.length = names.length → strings (make given) = given)

namespace Call

def names : Call → List CharPtr
  | .queueSubscribe name _ _ => [name]
  | .queueUnsubscribe name => [name]
  | .channelSubscribe name topic _ => [name, topic]
  | .channelPsubscribe name pattern _ => [name, pattern]
  | .channelUnsubscribe name topic => [name, topic]
  | .channelPunsubscribe name pattern => [name, pattern]
  | .other names _ _ _ => names

def make : Call → List CString → Command
  | .queueSubscribe _ flags callback, given =>
      .queueSubscribe (given.getD 0 emptyString) flags callback
  | .queueUnsubscribe _, given => .queueUnsubscribe (given.getD 0 emptyString)
  | .channelSubscribe _ _ callback, given =>
      .channelSubscribe (given.getD 0 emptyString) (given.getD 1 emptyString) callback
  | .channelPsubscribe _ _ callback, given =>
      .channelPsubscribe (given.getD 0 emptyString) (given.getD 1 emptyString) callback
  | .channelUnsubscribe _ _, given =>
      .channelUnsubscribe (given.getD 0 emptyString) (given.getD 1 emptyString)
  | .channelPunsubscribe _ _, given =>
      .channelPunsubscribe (given.getD 0 emptyString) (given.getD 1 emptyString)
  | .other _ make _ _, given => make given

def edit : Call → Option Edit
  | .queueSubscribe name _ callback => some (.subscribeQueue name callback)
  | .queueUnsubscribe name => some (.unsubscribeQueue name)
  | .channelSubscribe name topic callback => some (.subscribeChannel name topic callback)
  | .channelPsubscribe name pattern callback => some (.subscribeChannel name pattern callback)
  | .channelUnsubscribe name _ => some (.unsubscribeChannel name)
  | .channelPunsubscribe name _ => some (.unsubscribeChannel name)
  | .other .. => none

end Call

/-- The strings that a call finds at its pointers. It looks at one after the other, and at none
once something is wrong: the rest does not matter then. -/
def look (mem : Memory Resource) (make : List CString → Command) (done : List CString) :
    List CharPtr → Option (List CString)
  | [] => some done
  | name :: names =>
      if Accepts (make (done ++ (name :: names).map fun _ => emptyString)) then
        (name.resolve mem).bind fun array => look mem make (done ++ [contents array]) names
      else some (done ++ (name :: names).map fun _ => emptyString)

/-- The command that a call comes to, unless it reads what is not there. -/
def Call.command (mem : Memory Resource) (call : Call) : Option Command :=
  (look mem call.make [] call.names).map call.make

/-- The lists are changed only when the request was acknowledged, or needed not to be. Memory
is granted. -/
def Call.run (k : Kernel) (client : Nat) (call : Call) : Reentrant Unit := fun m =>
  match call.command m.mem with
  | none => .fault .memory m
  | some c =>
      match issue k c m.world with
      | .fault reason w => .fault (.fault reason) { m with world := w }
      | .returned reply w =>
          match call.edit with
          | none => .next () { m with world := w }
          | some edit =>
              if reply = .status .ok then
                (inMemory (edit.run always client) >>= fun _ => pure ()) { m with world := w }
              else .next () { m with world := w }

inductive Move where
  | call (call : Call)
  | noackEnable
  | noackDisable

def Move.run (k : Kernel) (client : Nat) : Move → Reentrant Unit
  | .call made => made.run k client
  | .noackEnable => onWorld (Code.modify emqNoackEnable)
  | .noackDisable => onWorld (Code.modify emqNoackDisable)

def runMoves (k : Kernel) (client : Nat) : List Move → Reentrant Unit
  | [] => pure ()
  | move :: moves => do
      move.run k client
      runMoves k client moves

/-- What the callbacks do when they get control, and what they return then. -/
abbrev Behaviour := Handed → Machine → List Move × Int

def Machine.give (m : Machine) (h : Handed) (name : List UInt8) : Machine :=
  { m with world := Runs.invoked (h.callback, h.args name) m.world }

def invoke (k : Kernel) (client : Nat) (behaviour : Behaviour) (h : Handed) :
    Reentrant Int := do
  let name ← inMemory h.name.read
  Code.modify fun m => m.give h name
  let (moves, ret) ← Code.reads (behaviour h)
  runMoves k client moves
  pure ret

/-- The end of `emq_queue_process` and of `emq_channel_process`. -/
def deliver (k : Kernel) (client : Nat) (behaviour : Behaviour) :
    Option Handed → Reentrant Int
  | none => pure (-1)
  | some h => do
      let ret ← invoke k client behaviour h
      if ret = 0 then pure 0
      else
        let length ← inMemory (lengthOf client .queues)
        if length = 0 then pure 1 else pure 0

def emqQueueProcess (k : Kernel) (client : Nat) (behaviour : Behaviour)
    (header : ProtocolEventHeader) : Reentrant Int := do
  deliver k client behaviour (← emqQueueReceive k client header)

def emqChannelProcess (k : Kernel) (client : Nat) (behaviour : Behaviour)
    (header : ProtocolEventHeader) (extended : Bool) : Reentrant Int := do
  deliver k client behaviour (← emqChannelReceive k client header extended)

def dispatch (k : Kernel) (client : Nat) (behaviour : Behaviour) (header : ProtocolEventHeader) :
    Reentrant Int :=
  if header.cmd = ProtocolCommand.queueSubscribe.code then
    emqQueueProcess k client behaviour header
  else if header.cmd = ProtocolCommand.channelSubscribe.code then
    emqChannelProcess k client behaviour header false
  else emqChannelProcess k client behaviour header true

/-- Whether both lists of the client are empty. -/
def isIdle (client : Nat) : Reentrant Bool := do
  let queues ← inMemory (lengthOf client .queues)
  if queues = 0 then do
    let channels ← inMemory (lengthOf client .channels)
    pure (channels = 0)
  else pure false

def emqProcessLoop (k : Kernel) (client : Nat) (behaviour : Behaviour) :
    (fuel : Nat) → Reentrant Unit
  | 0 => Code.undefined (.fault .outOfFuel)
  | fuel + 1 => do
      if ← isIdle client then pure ()
      else
        let header ← onWorld (readEventHeader k)
        let status ← dispatch k client behaviour header
        if status = 1 then pure ()
        else if status = -1 then Code.raise
        else emqProcessLoop k client behaviour fuel

def setStatus (status : Status) (m : Machine) : Machine :=
  { m with world := Client.setStatus status m.world }

def emqProcess (k : Kernel) (client : Nat) (behaviour : Behaviour) :
    Machine → Outcome Machine Violation Status :=
  Code.body (setStatus .ok) (setStatus .err) .err do
    onWorld clearError
    let fuel ← Code.reads fun m => m.world.input.length + 1
    emqProcessLoop k client behaviour fuel
    pure .ok

/-- What an iteration receives before it passes control to a callback. -/
def receiveBody (k : Kernel) (client : Nat) (header : ProtocolEventHeader) :
    Reentrant (Option Handed) :=
  if header.cmd = ProtocolCommand.queueSubscribe.code then emqQueueReceive k client header
  else if header.cmd = ProtocolCommand.channelSubscribe.code then
    emqChannelReceive k client header false
  else emqChannelReceive k client header true

def receiveEvent (k : Kernel) (client : Nat) : Reentrant Handed := do
  let header ← onWorld (readEventHeader k)
  match ← receiveBody k client header with
  | none => Code.raise
  | some h => pure h

end Libemq.Machines
