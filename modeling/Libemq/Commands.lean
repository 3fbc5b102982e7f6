import Libemq.Network
import Libemq.Packet

/-!
The request/response functions of `emq.c`. They share one course: build the
request, hand it to the kernel, and finish with the response. Each function is
that course with its own builder, way of sending and way of finishing.
-/

namespace Libemq.Commands

open Libemq.CStrings
open Libemq.PackedLayout (bytesLE valueLE)
open Libemq.ExitCode
open Libemq.Client
open Libemq.Network
open Libemq.Protocol
open Libemq.Packet

/-- `emq_list_add_value`: whether it succeeded, and the list after it. -/
def emqListAddValue {α : Type} (k : Kernel) (list : List α) (value : α) :
    Emq (Status × List α) := do
  if ← malloc k 24 then pure (.ok, value :: list) else pure (.err, list)

/-- The loop that rewinds a list, steps through it and calls
`emq_list_delete_node` on the nodes whose value matches. -/
def deleteMatching {α : Type} (doomed : α → Bool) : List α → List α
  | [] => []
  | value :: list =>
      if doomed value then deleteMatching doomed list else value :: deleteMatching doomed list

theorem deleteMatching_eq_filter {α : Type} (doomed : α → Bool) (list : List α) :
    deleteMatching doomed list = list.filter fun value => !doomed value := by
  induction list with
  | nil => rfl
  | cons value list ih =>
      simp only [deleteMatching, List.filter_cons, ih]
      cases doomed value <;> simp

def emqReadMessage (k : Kernel) (size : Nat) : Emq (Option EmqMsg) := do
  if ← malloc k 32 then
    if ← malloc k size then
      match ← emqClientRead k (toInt size) with
      | some data => pure (some ⟨data, 0, 0, false⟩)
      | none => do
          emqClientSetError .read
          pure none
    else do
      emqClientSetError .alloc
      pure none
  else do
    emqClientSetError .alloc
    pure none

/-- `emq_read_message_tag`. The subtraction is one of `size_t`. -/
def emqReadMessageTag (k : Kernel) (size : Nat) : Emq (Option EmqMsg) := do
  match ← emqClientRead k 8 with
  | none => pure none
  | some tag =>
      match ← emqReadMessage k ((size + 18446744073709551616 - 8) % 18446744073709551616) with
      | none => Code.undefined .nullDereference
      | some msg => pure (some { msg with tag := UInt64.ofNat (valueLE tag) })

/-- The five kinds of records a list response is made of. -/
inductive RecordKind where
  | users
  | queues
  | routes
  | routeKeys
  | channels
  deriving DecidableEq, Repr

def RecordKind.command : RecordKind → ProtocolCommand
  | .users => .userList
  | .queues => .queueList
  | .routes => .routeList
  | .routeKeys => .routeKeys
  | .channels => .channelList

/-- The bytes that one turn of the record loop copies out of the body. They are
also the size of the structure it fills. -/
def RecordKind.size : RecordKind → Nat
  | .users => 72
  | .queues => 88
  | .routes => 72
  | .routeKeys => 96
  | .channels => 76

def uint32At (offset : Nat) (bytes : List UInt8) : UInt32 :=
  UInt32.ofNat (valueLE ((bytes.drop offset).take 4))

/-- The copies of one turn of the record loop. -/
def RecordKind.decode : RecordKind → List UInt8 → Record
  | .users, bytes =>
      .user
        { name := bytes.take 32
          password := (bytes.drop 32).take 32
          perm := UInt64.ofNat (valueLE ((bytes.drop 64).take 8)) }
  | .queues, bytes =>
      .queue
        { name := bytes.take 64
          maxMsg := uint32At 64 bytes
          maxMsgSize := uint32At 68 bytes
          flags := uint32At 72 bytes
          size := uint32At 76 bytes
          declaredClients := uint32At 80 bytes
          subscribedClients := uint32At 84 bytes }
  | .routes, bytes =>
      .route
        { name := bytes.take 64
          flags := uint32At 64 bytes
          keys := uint32At 68 bytes }
  | .routeKeys, bytes =>
      .routeKey
        { key := bytes.take 32
          queue := (bytes.drop 32).take 64 }
  | .channels, bytes =>
      .channel
        { name := bytes.take 64
          flags := uint32At 64 bytes
          topics := uint32At 68 bytes
          patterns := uint32At 72 bytes }

/-- The loop over the body of a list response, from offset `i`. The result of
`emq_list_add_value` is ignored. -/
def recordLoop (k : Kernel) (kind : RecordKind) (buffer : List UInt8) (bodylen : Nat) :
    (fuel : Nat) → (i : Nat) → (list : List Record) → Emq (List Record)
  | 0, _, _ => Code.undefined .outOfFuel
  | fuel + 1, i, list =>
      if i < bodylen then do
        if ← malloc k kind.size then
          if i + kind.size ≤ buffer.length then do
            let record := kind.decode ((buffer.drop i).take kind.size)
            let (_, list) ← emqListAddValue k list record
            recordLoop k kind buffer bodylen fuel ((i + kind.size) % 4294967296) list
          else Code.undefined .bufferOverrun
        else failWith .alloc
      else pure list

def emqQueueSubscriptionCreate (k : Kernel) (name : CString) (callback : CallbackPtr) :
    Emq (Option EmqQueueSubscription) := do
  if ← malloc k 72 then
    if h : strlen name < 64 then pure (some ⟨⟨name, h⟩, callback⟩)
    else Code.undefined .bufferOverrun
  else pure none

abbrev channelSubscription (name data : CString) (callback : CallbackPtr)
    (h : strlen name < 64 ∧ strlen data < 32) : EmqChannelSubscription :=
  ⟨⟨name, h.1⟩, ⟨data, h.2⟩, callback⟩

def emqChannelSubscriptionCreate (k : Kernel) (name data : CString) (callback : CallbackPtr) :
    Emq (Option EmqChannelSubscription) := do
  if ← malloc k 104 then
    if h : strlen name < 64 ∧ strlen data < 32 then
      pure (some (channelSubscription name data callback h))
    else Code.undefined .bufferOverrun
  else pure none

/-- What a subscribing or unsubscribing call does to the local lists once its
request is acknowledged. -/
inductive Commit where
  | nothing
  | subscribeQueue (name : CString) (callback : CallbackPtr)
  | subscribeChannel (name data : CString) (callback : CallbackPtr)
  | unsubscribeQueue (name : CString)
  | unsubscribeChannel (name : CString)
  deriving DecidableEq, Repr

def Commit.run (k : Kernel) : Commit → Emq Unit
  | .nothing => pure ()
  | .subscribeQueue name callback => do
      match ← emqQueueSubscriptionCreate k name callback with
      | none => failWith .alloc
      | some subscription => do
          let list ← Code.reads fun w => w.client.queueSubscriptions
          let (_, list) ← emqListAddValue k list subscription
          updateClient fun c => { c with queueSubscriptions := list }
  | .subscribeChannel name data callback => do
      match ← emqChannelSubscriptionCreate k name data callback with
      | none => failWith .alloc
      | some subscription => do
          let list ← Code.reads fun w => w.client.channelSubscriptions
          let (_, list) ← emqListAddValue k list subscription
          updateClient fun c => { c with channelSubscriptions := list }
  | .unsubscribeQueue name =>
      updateClient fun c =>
        { c with
          queueSubscriptions :=
            deleteMatching (fun s => strcmpEq s.name.array name.array) c.queueSubscriptions }
  | .unsubscribeChannel name =>
      updateClient fun c =>
        { c with
          channelSubscriptions :=
            deleteMatching (fun s => strcmpEq s.name.array name.array) c.channelSubscriptions }

/-- The part of the request buffer that holds the request. -/
def EmqClient.pending (c : EmqClient) : List UInt8 := (c.request.getD []).take c.pos

def writeRequest (k : Kernel) : Emq Unit := do
  let client ← Code.reads fun w => w.client
  let ret ← emqClientWrite k (EmqClient.pending client) (toInt client.pos)
  if ret = -1 then failWith .write else pure ()

def writevRequest (k : Kernel) (parts : List (List UInt8)) : Emq Unit := do
  let client ← Code.reads fun w => w.client
  let ret ← emqClientWritev k (EmqClient.pending client :: parts)
  if ret = -1 then failWith .write else pure ()

/-- How a request leaves the client: the parts that follow it in an `iovec`, or
nothing when it is written alone. -/
abbrev Parts := Option (List (List UInt8))

def sendRequest (k : Kernel) : Parts → Emq Unit
  | none => writeRequest k
  | some parts => writevRequest k parts

/-- Read a response of `size` bytes, check its header and then its status. -/
def awaitResponse (k : Kernel) (size : Nat) (check : ProtocolResponseHeader → Status) :
    Emq (List UInt8) := do
  match ← emqClientRead k size with
  | none => failWith .read
  | some response =>
      let header := ProtocolResponseHeader.parse response
      if check header = .err then failWith .response
      else if emqCheckStatus header .success = .err then failWith (emqGetError header)
      else pure response

/-- `if (!client->noack)`: wait for the status response. -/
def acknowledge (k : Kernel) (check : ProtocolResponseHeader → Status) : Emq Unit := do
  let noack ← Code.reads fun w => w.client.noack
  if noack then pure ()
  else do
    let _ ← awaitResponse k 8 check
    pure ()

/-- How a call finishes once its request is sent. -/
inductive Finish where
  | acknowledge (check : ProtocolResponseHeader → Status) (commit : Commit)
  | stat
  | value (cmd : ProtocolCommand) (failure : Int)
  | records (kind : RecordKind)
  | message (cmd : ProtocolCommand)

def Finish.failure : Finish → Reply
  | .acknowledge .. => .status .err
  | .stat => .stat .err none
  | .value _ failure => .value failure
  | .records _ => .list none
  | .message _ => .msg none

/-- The rest of a list function after the status check. -/
def readRecords (k : Kernel) (kind : RecordKind) (bodylen : Nat) : Emq Reply := do
  if ← malloc k bodylen then
    match ← emqClientRead k (toInt bodylen) with
    | none => failWith .read
    | some buffer =>
        if ← malloc k 32 then do
          let list ← recordLoop k kind buffer bodylen (bodylen + 1) 0 []
          pure (.list (some list))
        else failWith .alloc
  else failWith .alloc

def Finish.run (k : Kernel) : Finish → Emq Reply
  | .acknowledge check commit => do
      Commands.acknowledge k check
      commit.run k
      pure (.status .ok)
  | .stat => do
      let response ← awaitResponse k 63 (emqCheckResponseHeader .stat 55)
      pure (.stat .ok (some (response.drop 8)))
  | .value cmd _ => do
      let _ ← awaitResponse k 8 (emqCheckResponseHeader cmd 4)
      match ← emqClientRead k 4 with
      | none => failWith .read
      | some body => pure (.value (toInt (valueLE body)))
  | .records kind => do
      let response ← awaitResponse k 8 (emqCheckResponseHeaderMini kind.command)
      readRecords k kind (ProtocolResponseHeader.parse response).bodylen.toNat
  | .message cmd => do
      let response ← awaitResponse k 8 (emqCheckResponseHeaderMini cmd)
      let bodylen := (ProtocolResponseHeader.parse response).bodylen.toNat
      match ← emqReadMessageTag k bodylen with
      | none => Code.raise
      | some msg => pure (.msg (some msg))

/-- Refuse bad arguments, build the request and send it. -/
def issueRequest (k : Kernel) (valid : Bool) (request : Emq Status) (parts : Parts) :
    Emq Unit := do
  if valid then
    match ← request with
    | .err => failWith .data
    | .ok => sendRequest k parts
  else failWith .data

/-- The course of every request/response function. `valid` is the check that some
make on their arguments before the request is built. -/
def transact (k : Kernel) (valid : Bool) (request : Emq Status) (parts : Parts)
    (finish : Finish) : World → Result Reply :=
  Code.body (setStatus .ok) (setStatus .err) finish.failure do
    clearError
    issueRequest k valid request parts
    finish.run k

section Functions

variable (k : Kernel)

def statusCall (request : Emq Status) (cmd : ProtocolCommand) : World → Result Reply :=
  transact k true request none (.acknowledge (emqCheckResponseHeader cmd 0) .nothing)

def emqAuth (name password : CString) := statusCall k (emqAuthRequest k name password) .auth

def emqPing := statusCall k (emqPingRequest k) .ping

def emqStat := transact k true (emqStatRequest k) none .stat

def emqSave (async : UInt8) := statusCall k (emqSaveRequest k async) .save

def emqFlush (flags : UInt32) := statusCall k (emqFlushRequest k flags) .flush

def emqUserCreate (name password : CString) (perm : UInt64) :=
  statusCall k (emqUserCreateRequest k name password perm) .userCreate

def emqUserList := transact k true (emqUserListRequest k) none (.records .users)

def emqUserRename (fromName toName : CString) :=
  statusCall k (emqUserRenameRequest k fromName toName) .userRename

def emqUserSetPerm (name : CString) (perm : UInt64) :=
  statusCall k (emqUserSetPermRequest k name perm) .userSetPerm

def emqUserDelete (name : CString) := statusCall k (emqUserDeleteRequest k name) .userDelete

def emqQueueCreate (name : CString) (maxMsg maxMsgSize flags : UInt32) :=
  statusCall k (emqQueueCreateRequest k name maxMsg maxMsgSize flags) .queueCreate

def emqQueueDeclare (name : CString) :=
  statusCall k (emqQueueDeclareRequest k name) .queueDeclare

def emqQueueExist (name : CString) :=
  transact k true (emqQueueExistRequest k name) none (.value .queueExist 0)

def emqQueueList := transact k true (emqQueueListRequest k) none (.records .queues)

def emqQueueRename (fromName toName : CString) :=
  statusCall k (emqQueueRenameRequest k fromName toName) .queueRename

def emqQueueSize (name : CString) :=
  transact k true (emqQueueSizeRequest k name) none (.value .queueSize (-1))

/-- A call that sends a message: it refuses an empty one. The size is passed to
the builder as a `uint32_t`. -/
def pushCall (request : UInt32 → Emq Status) (msg : EmqMsg) (extra : List (List UInt8))
    (cmd : ProtocolCommand) : World → Result Reply :=
  transact k (decide (1 ≤ msg.size))
    (request (UInt32.ofNat (extra.flatten.length + msg.size)))
    (some (extra ++ [msg.data])) (.acknowledge (emqCheckResponseHeader cmd 0) .nothing)

def emqQueuePush (name : CString) (msg : EmqMsg) :=
  pushCall k (emqQueuePushRequest k name) msg [bytesLE 4 msg.expire.toNat] .queuePush

def emqQueueGet (name : CString) :=
  transact k true (emqQueueGetRequest k name) none (.message .queueGet)

def emqQueuePop (name : CString) (timeout : UInt32) :=
  transact k true (emqQueuePopRequest k name timeout) none (.message .queuePop)

/-- Unlike its siblings, it does not look at the body length of the response. -/
def emqQueueConfirm (name : CString) (tag : UInt64) :=
  transact k true (emqQueueConfirmRequest k name tag) none
    (.acknowledge (emqCheckResponseHeaderMini .queueConfirm) .nothing)

def emqQueueSubscribe (name : CString) (flags : UInt32) (callback : CallbackPtr) :=
  transact k (decide (callback ≠ 0)) (emqQueueSubscribeRequest k name flags) none
    (.acknowledge (emqCheckResponseHeader .queueSubscribe 0) (.subscribeQueue name callback))

def emqQueueUnsubscribe (name : CString) :=
  transact k true (emqQueueUnsubscribeRequest k name) none
    (.acknowledge (emqCheckResponseHeader .queueUnsubscribe 0) (.unsubscribeQueue name))

def emqQueuePurge (name : CString) := statusCall k (emqQueuePurgeRequest k name) .queuePurge

def emqQueueDelete (name : CString) := statusCall k (emqQueueDeleteRequest k name) .queueDelete

def emqRouteCreate (name : CString) (flags : UInt32) :=
  statusCall k (emqRouteCreateRequest k name flags) .routeCreate

def emqRouteExist (name : CString) :=
  transact k true (emqRouteExistRequest k name) none (.value .routeExist 0)

def emqRouteList := transact k true (emqRouteListRequest k) none (.records .routes)

def emqRouteKeys (name : CString) :=
  transact k true (emqRouteKeysRequest k name) none (.records .routeKeys)

def emqRouteRename (fromName toName : CString) :=
  statusCall k (emqRouteRenameRequest k fromName toName) .routeRename

def emqRouteBind (name queue key : CString) :=
  statusCall k (emqRouteBindRequest k name queue key) .routeBind

def emqRouteUnbind (name queue key : CString) :=
  statusCall k (emqRouteUnbindRequest k name queue key) .routeUnbind

def emqRoutePush (name key : CString) (msg : EmqMsg) :=
  pushCall k (emqRoutePushRequest k name key) msg [bytesLE 4 msg.expire.toNat] .routePush

def emqRouteDelete (name : CString) := statusCall k (emqRouteDeleteRequest k name) .routeDelete

def emqChannelCreate (name : CString) (flags : UInt32) :=
  statusCall k (emqChannelCreateRequest k name flags) .channelCreate

def emqChannelExist (name : CString) :=
  transact k true (emqChannelExistRequest k name) none (.value .channelExist 0)

def emqChannelList := transact k true (emqChannelListRequest k) none (.records .channels)

def emqChannelRename (fromName toName : CString) :=
  statusCall k (emqChannelRenameRequest k fromName toName) .channelRename

/-- A published message carries no expire field. -/
def emqChannelPublish (name topic : CString) (msg : EmqMsg) :=
  pushCall k (emqChannelPublishRequest k name topic) msg [] .channelPublish

def emqChannelSubscribe (name topic : CString) (callback : CallbackPtr) :=
  transact k (decide (callback ≠ 0)) (emqChannelSubscribeRequest k name topic) none
    (.acknowledge (emqCheckResponseHeader .channelSubscribe 0)
      (.subscribeChannel name topic callback))

def emqChannelPsubscribe (name pattern : CString) (callback : CallbackPtr) :=
  transact k (decide (callback ≠ 0)) (emqChannelPsubscribeRequest k name pattern) none
    (.acknowledge (emqCheckResponseHeader .channelPsubscribe 0)
      (.subscribeChannel name pattern callback))

def emqChannelUnsubscribe (name topic : CString) :=
  transact k true (emqChannelUnsubscribeRequest k name topic) none
    (.acknowledge (emqCheckResponseHeader .channelUnsubscribe 0) (.unsubscribeChannel name))

/-- The response is checked against the command of `emq_channel_unsubscribe`. -/
def emqChannelPunsubscribe (name pattern : CString) :=
  transact k true (emqChannelPunsubscribeRequest k name pattern) none
    (.acknowledge (emqCheckResponseHeader .channelUnsubscribe 0) (.unsubscribeChannel name))

def emqChannelDelete (name : CString) :=
  statusCall k (emqChannelDeleteRequest k name) .channelDelete

def exec : Command → World → Result Reply
  | .auth name password => emqAuth k name password
  | .ping => emqPing k
  | .stat => emqStat k
  | .save async => emqSave k async
  | .flush flags => emqFlush k flags
  | .userCreate name password perm => emqUserCreate k name password perm
  | .userList => emqUserList k
  | .userRename fromName toName => emqUserRename k fromName toName
  | .userSetPerm name perm => emqUserSetPerm k name perm
  | .userDelete name => emqUserDelete k name
  | .queueCreate name maxMsg maxMsgSize flags => emqQueueCreate k name maxMsg maxMsgSize flags
  | .queueDeclare name => emqQueueDeclare k name
  | .queueExist name => emqQueueExist k name
  | .queueList => emqQueueList k
  | .queueRename fromName toName => emqQueueRename k fromName toName
  | .queueSize name => emqQueueSize k name
  | .queuePush name msg => emqQueuePush k name msg
  | .queueGet name => emqQueueGet k name
  | .queuePop name timeout => emqQueuePop k name timeout
  | .queueConfirm name tag => emqQueueConfirm k name tag
  | .queueSubscribe name flags callback => emqQueueSubscribe k name flags callback
  | .queueUnsubscribe name => emqQueueUnsubscribe k name
  | .queuePurge name => emqQueuePurge k name
  | .queueDelete name => emqQueueDelete k name
  | .routeCreate name flags => emqRouteCreate k name flags
  | .routeExist name => emqRouteExist k name
  | .routeList => emqRouteList k
  | .routeKeys name => emqRouteKeys k name
  | .routeRename fromName toName => emqRouteRename k fromName toName
  | .routeBind name queue key => emqRouteBind k name queue key
  | .routeUnbind name queue key => emqRouteUnbind k name queue key
  | .routePush name key msg => emqRoutePush k name key msg
  | .routeDelete name => emqRouteDelete k name
  | .channelCreate name flags => emqChannelCreate k name flags
  | .channelExist name => emqChannelExist k name
  | .channelList => emqChannelList k
  | .channelRename fromName toName => emqChannelRename k fromName toName
  | .channelPublish name topic msg => emqChannelPublish k name topic msg
  | .channelSubscribe name topic callback => emqChannelSubscribe k name topic callback
  | .channelPsubscribe name pattern callback => emqChannelPsubscribe k name pattern callback
  | .channelUnsubscribe name topic => emqChannelUnsubscribe k name topic
  | .channelPunsubscribe name pattern => emqChannelPunsubscribe k name pattern
  | .channelDelete name => emqChannelDelete k name

/-- A call that leaves its result in the trace. -/
def issue (c : Command) (w : World) : Result Reply :=
  match exec k c w with
  | .returned reply w' => .returned reply { w' with trace := w'.trace ++ [.issued c reply] }
  | .fault reason w' => .fault reason w'

end Functions

def emqNoackEnable (w : World) : World := { w with client := { w.client with noack := true } }

def emqNoackDisable (w : World) : World := { w with client := { w.client with noack := false } }

end Libemq.Commands
