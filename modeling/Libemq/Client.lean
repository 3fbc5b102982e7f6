import Libemq.CStrings
import Libemq.ExitCode

/-!
The data of the library: what the application passes in and gets back, the
connection context, and the outside world a call runs in. The kernel and the
allocator are an oracle indexed by how many calls were made before.
-/

namespace Libemq.Client

open Libemq.CStrings
open Libemq.ExitCode

inductive Status where
  | ok
  | err
  deriving DecidableEq, Repr

inductive EmqError where
  | none | alloc | data | write | read | response | packet | command | access | memory
  | notDeclared | notFound | noData
  deriving DecidableEq, Repr

def emqErrorArray : EmqError → String
  | .none => ""
  | .alloc => "Error allocate memory"
  | .data => "Error input data"
  | .write => "Error write request"
  | .read => "Error read request"
  | .response => "Response error"
  | .packet => "Packet error"
  | .command => "Command error"
  | .access => "Access error"
  | .memory => "Memory error"
  | .notDeclared => "Value not declared"
  | .notFound => "Value not found"
  | .noData => "No data"

def emqDefaultRequestSize : Nat := 4096

def emqMaxRequestSize : Nat := 2147483647

/-- `emq_msg`. The size of a message is the number of bytes its data pointer
stands for. -/
structure EmqMsg where
  data : List UInt8
  tag : UInt64
  expire : UInt32
  zeroCopy : Bool
  deriving DecidableEq, Repr

def EmqMsg.size (msg : EmqMsg) : Nat := msg.data.length

/-- A pointer to an `emq_msg_callback`; `0` is `NULL`. -/
abbrev CallbackPtr := Nat

structure EmqUser where
  name : List UInt8
  password : List UInt8
  perm : UInt64
  deriving DecidableEq, Repr

structure EmqQueue where
  name : List UInt8
  maxMsg : UInt32
  maxMsgSize : UInt32
  flags : UInt32
  size : UInt32
  declaredClients : UInt32
  subscribedClients : UInt32
  deriving DecidableEq, Repr

structure EmqRoute where
  name : List UInt8
  flags : UInt32
  keys : UInt32
  deriving DecidableEq, Repr

structure EmqRouteKey where
  key : List UInt8
  queue : List UInt8
  deriving DecidableEq, Repr

structure EmqChannel where
  name : List UInt8
  flags : UInt32
  topics : UInt32
  patterns : UInt32
  deriving DecidableEq, Repr

/-- What a `void *value` of a returned list points to. -/
inductive Record where
  | user (user : EmqUser)
  | queue (queue : EmqQueue)
  | route (route : EmqRoute)
  | routeKey (routeKey : EmqRouteKey)
  | channel (channel : EmqChannel)
  deriving DecidableEq, Repr

structure EmqQueueSubscription where
  name : FieldString 64
  callback : CallbackPtr
  deriving DecidableEq, Repr

/-- `emq_channel_subscription`. The member `channel` holds the topic or the
pattern. -/
structure EmqChannelSubscription where
  name : FieldString 64
  channel : FieldString 32
  callback : CallbackPtr
  deriving DecidableEq, Repr

/-- `emq_client` without its descriptor. The two lists are in iteration order,
the most recently added entry first. -/
structure EmqClient where
  status : Status
  error : String
  request : Option (List UInt8)
  size : Nat
  pos : Nat
  noack : Bool
  queueSubscriptions : List EmqQueueSubscription
  channelSubscriptions : List EmqChannelSubscription
  deriving DecidableEq, Repr

/-- The calls of the request/response interface with their arguments. -/
inductive Command where
  | auth (name password : CString)
  | ping
  | stat
  | save (async : UInt8)
  | flush (flags : UInt32)
  | userCreate (name password : CString) (perm : UInt64)
  | userList
  | userRename (fromName toName : CString)
  | userSetPerm (name : CString) (perm : UInt64)
  | userDelete (name : CString)
  | queueCreate (name : CString) (maxMsg maxMsgSize flags : UInt32)
  | queueDeclare (name : CString)
  | queueExist (name : CString)
  | queueList
  | queueRename (fromName toName : CString)
  | queueSize (name : CString)
  | queuePush (name : CString) (msg : EmqMsg)
  | queueGet (name : CString)
  | queuePop (name : CString) (timeout : UInt32)
  | queueConfirm (name : CString) (tag : UInt64)
  | queueSubscribe (name : CString) (flags : UInt32) (callback : CallbackPtr)
  | queueUnsubscribe (name : CString)
  | queuePurge (name : CString)
  | queueDelete (name : CString)
  | routeCreate (name : CString) (flags : UInt32)
  | routeExist (name : CString)
  | routeList
  | routeKeys (name : CString)
  | routeRename (fromName toName : CString)
  | routeBind (name queue key : CString)
  | routeUnbind (name queue key : CString)
  | routePush (name key : CString) (msg : EmqMsg)
  | routeDelete (name : CString)
  | channelCreate (name : CString) (flags : UInt32)
  | channelExist (name : CString)
  | channelList
  | channelRename (fromName toName : CString)
  | channelPublish (name topic : CString) (msg : EmqMsg)
  | channelSubscribe (name topic : CString) (callback : CallbackPtr)
  | channelPsubscribe (name pattern : CString) (callback : CallbackPtr)
  | channelUnsubscribe (name topic : CString)
  | channelPunsubscribe (name pattern : CString)
  | channelDelete (name : CString)
  deriving DecidableEq, Repr

/-- What a call gives back: its return value and, for `emq_stat`, the bytes it
stored through its second argument. -/
inductive Reply where
  | status (status : Status)
  | stat (status : Status) (stored : Option (List UInt8))
  | value (n : Int)
  | list (records : Option (List Record))
  | msg (msg : Option EmqMsg)
  deriving DecidableEq, Repr

inductive CallbackType where
  | queue
  | channel
  deriving DecidableEq, Repr

structure CallbackArgs where
  type : CallbackType
  name : List UInt8
  topic : Option (List UInt8)
  pattern : Option (List UInt8)
  msg : Option EmqMsg
  deriving DecidableEq, Repr

/-- What the application can observe of its own use of the library: the calls
that returned to it and the callbacks that were invoked. -/
inductive TraceEvent where
  | issued (command : Command) (reply : Reply)
  | invoked (callback : CallbackPtr) (args : CallbackArgs)
  deriving DecidableEq, Repr

/-- A connection and its surroundings. `input` is all the peer will still send,
`output` all the kernel accepted so far. The counters number the system and
allocator calls; `failures` counts those that failed. -/
structure World where
  client : EmqClient
  input : List UInt8
  output : List UInt8
  reads : Nat
  writes : Nat
  mallocs : Nat
  failures : Nat
  trace : List TraceEvent
  deriving DecidableEq, Repr

/-- The results of `read`, `write`, `writev` and the allocator. Each call is
given its number and the size it asks for; `none` is `-1`. -/
structure Kernel where
  read : Nat → Nat → Option Nat
  write : Nat → Nat → Option Nat
  writev : Nat → Nat → Option Nat
  /-- How often `writev` is interrupted before it gives that result. -/
  interrupts : Nat → Nat
  malloc : Nat → Nat → Bool

/-- Undefined behaviour the library can run into. -/
inductive Fault where
  | nullDereference
  | bufferOverrun
  | signedOverflow
  | outOfFuel
  deriving DecidableEq, Repr

abbrev Emq := Code World Fault

abbrev Result := Outcome World Fault

/-- What the callbacks of the application do. The trace makes any behaviour
that depends on earlier invocations a function of the world. -/
abbrev Callbacks := CallbackPtr → CallbackArgs → World → Result Int

def updateClient (f : EmqClient → EmqClient) : Emq Unit :=
  Code.modify fun w => { w with client := f w.client }

def clearError : Emq Unit := updateClient fun c => { c with error := "" }

def emqClientSetError (error : EmqError) : Emq Unit :=
  updateClient fun c => { c with error := emqErrorArray error }

/-- `emq_client_set_error(client, error); goto error;` -/
def failWith {α : Type} (error : EmqError) : Emq α := do
  emqClientSetError error
  Code.raise

def setStatus (status : Status) (w : World) : World :=
  { w with client := { w.client with status := status } }

/-- `malloc`, `calloc` or `realloc`: whether memory was obtained. -/
def malloc (k : Kernel) (size : Nat) : Emq Bool := fun w =>
  if k.malloc w.mallocs size then
    .next true { w with mallocs := w.mallocs + 1 }
  else
    .next false { w with mallocs := w.mallocs + 1, failures := w.failures + 1 }

theorem malloc_granted {k : Kernel} {size : Nat} {w : World}
    (h : k.malloc w.mallocs size = true) :
    malloc k size w = .next true { w with mallocs := w.mallocs + 1 } := by
  simp [malloc, h]

theorem malloc_refused {k : Kernel} {size : Nat} {w : World}
    (h : k.malloc w.mallocs size = false) :
    malloc k size w =
      .next false { w with mallocs := w.mallocs + 1, failures := w.failures + 1 } := by
  simp [malloc, h]

/-- The context that a successful `emq_client_init` returns; `heap` is what the
fresh request buffer happens to hold. -/
def emqClientInit (heap : List UInt8) : EmqClient where
  status := .ok
  error := ""
  request := some (heap.take emqDefaultRequestSize ++
    List.replicate (emqDefaultRequestSize - heap.length) 0)
  size := emqDefaultRequestSize
  pos := 0
  noack := false
  queueSubscriptions := []
  channelSubscriptions := []

/-- A connection just after `emq_tcp_connect` or `emq_unix_connect`, whose peer
will send `input`. -/
def World.connected (heap input : List UInt8) : World where
  client := emqClientInit heap
  input := input
  output := []
  reads := 0
  writes := 0
  mallocs := 0
  failures := 0
  trace := []

/-- The client owns a request buffer of the size it records. -/
def EmqClient.HasBuffer (c : EmqClient) : Prop :=
  ∃ buffer, c.request = some buffer ∧ buffer.length = c.size

@[simp] theorem setStatus_client (status : Status) (w : World) :
    (setStatus status w).client = { w.client with status := status } := rfl

@[simp] theorem setStatus_input (status : Status) (w : World) :
    (setStatus status w).input = w.input := rfl

@[simp] theorem setStatus_output (status : Status) (w : World) :
    (setStatus status w).output = w.output := rfl

@[simp] theorem setStatus_reads (status : Status) (w : World) :
    (setStatus status w).reads = w.reads := rfl

@[simp] theorem setStatus_failures (status : Status) (w : World) :
    (setStatus status w).failures = w.failures := rfl

@[simp] theorem setStatus_trace (status : Status) (w : World) :
    (setStatus status w).trace = w.trace := rfl

end Libemq.Client
