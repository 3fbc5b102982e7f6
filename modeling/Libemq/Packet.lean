import Libemq.Client
import Libemq.Protocol

namespace Libemq.Packet

open Libemq.CStrings
open Libemq.PackedLayout
open Libemq.ExitCode
open Libemq.Client
open Libemq.Protocol

def strlenz (str : CString) : Nat := strlen str + 1

def emqSetHeaderRequest (cmd : ProtocolCommand) (noack : Bool) (bodylen : UInt32) :
    ProtocolRequestHeader where
  magic := emqProtocolReq
  cmd := cmd.code
  noack := if noack then 1 else 0
  bodylen := bodylen

/-- `emq_set_client_request`: copy the request to the start of the buffer. -/
def emqSetClientRequest (request : List UInt8) : Emq Unit := do
  match ← Code.reads fun w => w.client.request with
  | none => Code.undefined .nullDereference
  | some buffer =>
      if buffer.length < request.length then Code.undefined .bufferOverrun
      else updateClient fun c =>
        { c with
          request := some (request ++ buffer.drop request.length)
          pos := request.length }

/-- `emq_check_realloc_client_request`. What `realloc` adds to the buffer is
unspecified and stands as zeros. -/
def emqCheckReallocClientRequest (k : Kernel) (size : Nat) : Emq Status := do
  let client ← Code.reads fun w => w.client
  if client.size < size then
    if size > emqMaxRequestSize then pure .err
    else if ← malloc k size then do
      updateClient fun c =>
        { c with
          request := some (c.request.getD [] ++
            List.replicate (size - (c.request.getD []).length) 0)
          size := size }
      pure .ok
    else do
      updateClient fun c => { c with request := none, size := size }
      pure .err
  else pure .ok

def emqCheckResponseHeader (cmd : ProtocolCommand) (bodylen : UInt32)
    (header : ProtocolResponseHeader) : Status :=
  if header.magic ≠ emqProtocolRes ∨ header.cmd ≠ cmd.code ∨ header.bodylen ≠ bodylen then .err
  else .ok

def emqCheckResponseHeaderMini (cmd : ProtocolCommand) (header : ProtocolResponseHeader) :
    Status :=
  if header.magic ≠ emqProtocolRes ∨ header.cmd ≠ cmd.code then .err else .ok

def emqCheckEventHeader (header : ProtocolEventHeader) (type1 type2 : UInt8) : Status :=
  if header.magic ≠ emqProtocolEvent ∨ (header.type ≠ type1 ∧ header.type ≠ type2) then .err
  else .ok

def emqCheckStatus (header : ProtocolResponseHeader) (status : ProtocolResponseStatus) : Status :=
  if header.status = status.code then .ok else .err

def emqGetError (header : ProtocolResponseHeader) : EmqError :=
  if header.status = ProtocolResponseStatus.errorPacket.code then .packet
  else if header.status = ProtocolResponseStatus.errorCommand.code then .command
  else if header.status = ProtocolResponseStatus.errorAccess.code then .access
  else if header.status = ProtocolResponseStatus.errorMemory.code then .memory
  else if header.status = ProtocolResponseStatus.errorNotDeclared.code then .notDeclared
  else if header.status = ProtocolResponseStatus.errorNotFound.code then .notFound
  else if header.status = ProtocolResponseStatus.errorNoData.code then .noData
  else .none

/-- The bytes of a request: the header with `sizeof(req.body) + msg_size` and the
members of the body. -/
def requestBytes (cmd : ProtocolCommand) (noack : Bool) (members : List (List UInt8))
    (msgSize : UInt32) : List UInt8 :=
  (emqSetHeaderRequest cmd noack
    (UInt32.ofNat (members.flatten.length + msgSize.toNat))).bytes ++ members.flatten

/-- The common body of the request builders. `limits` are the strings with the
bounds their `strlenz` is compared to, `members` the stored members of `req.body`
in their order. -/
def buildRequest (k : Kernel) (cmd : ProtocolCommand) (limits : List (CString × Nat))
    (members : List (List UInt8)) (msgSize : UInt32) : Emq Status :=
  if limits.any fun p => strlenz p.1 > p.2 then pure .err
  else do
    let noack ← Code.reads fun w => w.client.noack
    let req := requestBytes cmd noack members msgSize
    match ← emqCheckReallocClientRequest k req.length with
    | .err => pure .err
    | .ok => do
        emqSetClientRequest req
        pure .ok

section Builders

variable (k : Kernel)

def emqAuthRequest (name password : CString) : Emq Status :=
  buildRequest k .auth [(name, 32), (password, 32)]
    [charArray 32 name, charArray 32 password] 0

def emqPingRequest : Emq Status := buildRequest k .ping [] [] 0

def emqStatRequest : Emq Status := buildRequest k .stat [] [] 0

def emqSaveRequest (async : UInt8) : Emq Status :=
  buildRequest k .save [] [bytesLE 1 async.toNat] 0

def emqFlushRequest (flags : UInt32) : Emq Status :=
  buildRequest k .flush [] [bytesLE 4 flags.toNat] 0

def emqUserCreateRequest (name password : CString) (perm : UInt64) : Emq Status :=
  buildRequest k .userCreate [(name, 32), (password, 32)]
    [charArray 32 name, charArray 32 password, bytesLE 8 perm.toNat] 0

def emqUserListRequest : Emq Status := buildRequest k .userList [] [] 0

def emqUserRenameRequest (fromName toName : CString) : Emq Status :=
  buildRequest k .userRename [(fromName, 32), (toName, 32)]
    [charArray 32 fromName, charArray 32 toName] 0

def emqUserSetPermRequest (name : CString) (perm : UInt64) : Emq Status :=
  buildRequest k .userSetPerm [(name, 32)] [charArray 32 name, bytesLE 8 perm.toNat] 0

def emqUserDeleteRequest (name : CString) : Emq Status :=
  buildRequest k .userDelete [(name, 32)] [charArray 32 name] 0

def emqQueueCreateRequest (name : CString) (maxMsg maxMsgSize flags : UInt32) : Emq Status :=
  buildRequest k .queueCreate [(name, 64)]
    [charArray 64 name, bytesLE 4 maxMsg.toNat, bytesLE 4 maxMsgSize.toNat,
      bytesLE 4 flags.toNat] 0

def emqQueueDeclareRequest (name : CString) : Emq Status :=
  buildRequest k .queueDeclare [(name, 64)] [charArray 64 name] 0

def emqQueueExistRequest (name : CString) : Emq Status :=
  buildRequest k .queueExist [(name, 64)] [charArray 64 name] 0

def emqQueueListRequest : Emq Status := buildRequest k .queueList [] [] 0

def emqQueueRenameRequest (fromName toName : CString) : Emq Status :=
  buildRequest k .queueRename [(fromName, 64), (toName, 64)]
    [charArray 64 fromName, charArray 64 toName] 0

def emqQueueSizeRequest (name : CString) : Emq Status :=
  buildRequest k .queueSize [(name, 64)] [charArray 64 name] 0

def emqQueuePushRequest (name : CString) (msgSize : UInt32) : Emq Status :=
  buildRequest k .queuePush [(name, 64)] [charArray 64 name] msgSize

def emqQueueGetRequest (name : CString) : Emq Status :=
  buildRequest k .queueGet [(name, 64)] [charArray 64 name] 0

def emqQueuePopRequest (name : CString) (timeout : UInt32) : Emq Status :=
  buildRequest k .queuePop [(name, 64)] [charArray 64 name, bytesLE 4 timeout.toNat] 0

def emqQueueConfirmRequest (name : CString) (tag : UInt64) : Emq Status :=
  buildRequest k .queueConfirm [(name, 64)] [charArray 64 name, bytesLE 8 tag.toNat] 0

def emqQueueSubscribeRequest (name : CString) (flags : UInt32) : Emq Status :=
  buildRequest k .queueSubscribe [(name, 64)] [charArray 64 name, bytesLE 4 flags.toNat] 0

def emqQueueUnsubscribeRequest (name : CString) : Emq Status :=
  buildRequest k .queueUnsubscribe [(name, 64)] [charArray 64 name] 0

def emqQueuePurgeRequest (name : CString) : Emq Status :=
  buildRequest k .queuePurge [(name, 64)] [charArray 64 name] 0

def emqQueueDeleteRequest (name : CString) : Emq Status :=
  buildRequest k .queueDelete [(name, 64)] [charArray 64 name] 0

def emqRouteCreateRequest (name : CString) (flags : UInt32) : Emq Status :=
  buildRequest k .routeCreate [(name, 64)] [charArray 64 name, bytesLE 4 flags.toNat] 0

def emqRouteExistRequest (name : CString) : Emq Status :=
  buildRequest k .routeExist [(name, 64)] [charArray 64 name] 0

def emqRouteListRequest : Emq Status := buildRequest k .routeList [] [] 0

def emqRouteKeysRequest (name : CString) : Emq Status :=
  buildRequest k .routeKeys [(name, 64)] [charArray 64 name] 0

def emqRouteRenameRequest (fromName toName : CString) : Emq Status :=
  buildRequest k .routeRename [(fromName, 64), (toName, 64)]
    [charArray 64 fromName, charArray 64 toName] 0

def emqRouteBindRequest (name queue key : CString) : Emq Status :=
  buildRequest k .routeBind [(name, 64), (queue, 64), (key, 32)]
    [charArray 64 name, charArray 64 queue, charArray 32 key] 0

def emqRouteUnbindRequest (name queue key : CString) : Emq Status :=
  buildRequest k .routeUnbind [(name, 64), (queue, 64), (key, 32)]
    [charArray 64 name, charArray 64 queue, charArray 32 key] 0

def emqRoutePushRequest (name key : CString) (msgSize : UInt32) : Emq Status :=
  buildRequest k .routePush [(name, 64), (key, 32)]
    [charArray 64 name, charArray 32 key] msgSize

def emqRouteDeleteRequest (name : CString) : Emq Status :=
  buildRequest k .routeDelete [(name, 64)] [charArray 64 name] 0

def emqChannelCreateRequest (name : CString) (flags : UInt32) : Emq Status :=
  buildRequest k .channelCreate [(name, 64)] [charArray 64 name, bytesLE 4 flags.toNat] 0

def emqChannelExistRequest (name : CString) : Emq Status :=
  buildRequest k .channelExist [(name, 64)] [charArray 64 name] 0

def emqChannelListRequest : Emq Status := buildRequest k .channelList [] [] 0

def emqChannelRenameRequest (fromName toName : CString) : Emq Status :=
  buildRequest k .channelRename [(fromName, 64), (toName, 64)]
    [charArray 64 fromName, charArray 64 toName] 0

def emqChannelPublishRequest (name topic : CString) (msgSize : UInt32) : Emq Status :=
  buildRequest k .channelPublish [(name, 64), (topic, 32)]
    [charArray 64 name, charArray 32 topic] msgSize

def emqChannelSubscribeRequest (name topic : CString) : Emq Status :=
  buildRequest k .channelSubscribe [(name, 64), (topic, 32)]
    [charArray 64 name, charArray 32 topic] 0

def emqChannelPsubscribeRequest (name pattern : CString) : Emq Status :=
  buildRequest k .channelPsubscribe [(name, 64), (pattern, 32)]
    [charArray 64 name, charArray 32 pattern] 0

def emqChannelUnsubscribeRequest (name topic : CString) : Emq Status :=
  buildRequest k .channelUnsubscribe [(name, 64), (topic, 32)]
    [charArray 64 name, charArray 32 topic] 0

def emqChannelPunsubscribeRequest (name pattern : CString) : Emq Status :=
  buildRequest k .channelPunsubscribe [(name, 64), (pattern, 32)]
    [charArray 64 name, charArray 32 pattern] 0

def emqChannelDeleteRequest (name : CString) : Emq Status :=
  buildRequest k .channelDelete [(name, 64)] [charArray 64 name] 0

end Builders

/-- A call of one of the request builders. -/
inductive Request where
  | auth (name password : CString)
  | ping
  | stat
  | save (async : UInt8)
  | flush (flags : UInt32)
  | userCreate (name password : CString) (perm : UInt64)
  | userList
  | userRename (fromName toName : CString)
  | userSetPerm (name : CString) (perm : UInt64)
  | userDelete (name : CString)
  | queueCreate (name : CString) (maxMsg maxMsgSize flags : UInt32)
  | queueDeclare (name : CString)
  | queueExist (name : CString)
  | queueList
  | queueRename (fromName toName : CString)
  | queueSize (name : CString)
  | queuePush (name : CString) (msgSize : UInt32)
  | queueGet (name : CString)
  | queuePop (name : CString) (timeout : UInt32)
  | queueConfirm (name : CString) (tag : UInt64)
  | queueSubscribe (name : CString) (flags : UInt32)
  | queueUnsubscribe (name : CString)
  | queuePurge (name : CString)
  | queueDelete (name : CString)
  | routeCreate (name : CString) (flags : UInt32)
  | routeExist (name : CString)
  | routeList
  | routeKeys (name : CString)
  | routeRename (fromName toName : CString)
  | routeBind (name queue key : CString)
  | routeUnbind (name queue key : CString)
  | routePush (name key : CString) (msgSize : UInt32)
  | routeDelete (name : CString)
  | channelCreate (name : CString) (flags : UInt32)
  | channelExist (name : CString)
  | channelList
  | channelRename (fromName toName : CString)
  | channelPublish (name topic : CString) (msgSize : UInt32)
  | channelSubscribe (name topic : CString)
  | channelPsubscribe (name pattern : CString)
  | channelUnsubscribe (name topic : CString)
  | channelPunsubscribe (name pattern : CString)
  | channelDelete (name : CString)
  deriving DecidableEq, Repr

def Request.build (k : Kernel) : Request → Emq Status
  | .auth name password => emqAuthRequest k name password
  | .ping => emqPingRequest k
  | .stat => emqStatRequest k
  | .save async => emqSaveRequest k async
  | .flush flags => emqFlushRequest k flags
  | .userCreate name password perm => emqUserCreateRequest k name password perm
  | .userList => emqUserListRequest k
  | .userRename fromName toName => emqUserRenameRequest k fromName toName
  | .userSetPerm name perm => emqUserSetPermRequest k name perm
  | .userDelete name => emqUserDeleteRequest k name
  | .queueCreate name maxMsg maxMsgSize flags =>
      emqQueueCreateRequest k name maxMsg maxMsgSize flags
  | .queueDeclare name => emqQueueDeclareRequest k name
  | .queueExist name => emqQueueExistRequest k name
  | .queueList => emqQueueListRequest k
  | .queueRename fromName toName => emqQueueRenameRequest k fromName toName
  | .queueSize name => emqQueueSizeRequest k name
  | .queuePush name msgSize => emqQueuePushRequest k name msgSize
  | .queueGet name => emqQueueGetRequest k name
  | .queuePop name timeout => emqQueuePopRequest k name timeout
  | .queueConfirm name tag => emqQueueConfirmRequest k name tag
  | .queueSubscribe name flags => emqQueueSubscribeRequest k name flags
  | .queueUnsubscribe name => emqQueueUnsubscribeRequest k name
  | .queuePurge name => emqQueuePurgeRequest k name
  | .queueDelete name => emqQueueDeleteRequest k name
  | .routeCreate name flags => emqRouteCreateRequest k name flags
  | .routeExist name => emqRouteExistRequest k name
  | .routeList => emqRouteListRequest k
  | .routeKeys name => emqRouteKeysRequest k name
  | .routeRename fromName toName => emqRouteRenameRequest k fromName toName
  | .routeBind name queue key => emqRouteBindRequest k name queue key
  | .routeUnbind name queue key => emqRouteUnbindRequest k name queue key
  | .routePush name key msgSize => emqRoutePushRequest k name key msgSize
  | .routeDelete name => emqRouteDeleteRequest k name
  | .channelCreate name flags => emqChannelCreateRequest k name flags
  | .channelExist name => emqChannelExistRequest k name
  | .channelList => emqChannelListRequest k
  | .channelRename fromName toName => emqChannelRenameRequest k fromName toName
  | .channelPublish name topic msgSize => emqChannelPublishRequest k name topic msgSize
  | .channelSubscribe name topic => emqChannelSubscribeRequest k name topic
  | .channelPsubscribe name pattern => emqChannelPsubscribeRequest k name pattern
  | .channelUnsubscribe name topic => emqChannelUnsubscribeRequest k name topic
  | .channelPunsubscribe name pattern => emqChannelPunsubscribeRequest k name pattern
  | .channelDelete name => emqChannelDeleteRequest k name

def Request.command : Request → ProtocolCommand
  | .auth .. => .auth
  | .ping => .ping
  | .stat => .stat
  | .save .. => .save
  | .flush .. => .flush
  | .userCreate .. => .userCreate
  | .userList => .userList
  | .userRename .. => .userRename
  | .userSetPerm .. => .userSetPerm
  | .userDelete .. => .userDelete
  | .queueCreate .. => .queueCreate
  | .queueDeclare .. => .queueDeclare
  | .queueExist .. => .queueExist
  | .queueList => .queueList
  | .queueRename .. => .queueRename
  | .queueSize .. => .queueSize
  | .queuePush .. => .queuePush
  | .queueGet .. => .queueGet
  | .queuePop .. => .queuePop
  | .queueConfirm .. => .queueConfirm
  | .queueSubscribe .. => .queueSubscribe
  | .queueUnsubscribe .. => .queueUnsubscribe
  | .queuePurge .. => .queuePurge
  | .queueDelete .. => .queueDelete
  | .routeCreate .. => .routeCreate
  | .routeExist .. => .routeExist
  | .routeList => .routeList
  | .routeKeys .. => .routeKeys
  | .routeRename .. => .routeRename
  | .routeBind .. => .routeBind
  | .routeUnbind .. => .routeUnbind
  | .routePush .. => .routePush
  | .routeDelete .. => .routeDelete
  | .channelCreate .. => .channelCreate
  | .channelExist .. => .channelExist
  | .channelList => .channelList
  | .channelRename .. => .channelRename
  | .channelPublish .. => .channelPublish
  | .channelSubscribe .. => .channelSubscribe
  | .channelPsubscribe .. => .channelPsubscribe
  | .channelUnsubscribe .. => .channelUnsubscribe
  | .channelPunsubscribe .. => .channelPunsubscribe
  | .channelDelete .. => .channelDelete

def Request.values : Request → List Value
  | .auth name password => [.str name, .str password]
  | .ping | .stat | .userList | .queueList | .routeList | .channelList => []
  | .save async => [.int async.toNat]
  | .flush flags => [.int flags.toNat]
  | .userCreate name password perm => [.str name, .str password, .int perm.toNat]
  | .userRename fromName toName => [.str fromName, .str toName]
  | .userSetPerm name perm => [.str name, .int perm.toNat]
  | .userDelete name => [.str name]
  | .queueCreate name maxMsg maxMsgSize flags =>
      [.str name, .int maxMsg.toNat, .int maxMsgSize.toNat, .int flags.toNat]
  | .queueDeclare name | .queueExist name | .queueSize name | .queuePush name _
  | .queueGet name | .queueUnsubscribe name | .queuePurge name | .queueDelete name => [.str name]
  | .queueRename fromName toName => [.str fromName, .str toName]
  | .queuePop name timeout => [.str name, .int timeout.toNat]
  | .queueConfirm name tag => [.str name, .int tag.toNat]
  | .queueSubscribe name flags => [.str name, .int flags.toNat]
  | .routeCreate name flags => [.str name, .int flags.toNat]
  | .routeExist name | .routeKeys name | .routeDelete name => [.str name]
  | .routeRename fromName toName => [.str fromName, .str toName]
  | .routeBind name queue key => [.str name, .str queue, .str key]
  | .routeUnbind name queue key => [.str name, .str queue, .str key]
  | .routePush name key _ => [.str name, .str key]
  | .channelCreate name flags => [.str name, .int flags.toNat]
  | .channelExist name | .channelDelete name => [.str name]
  | .channelRename fromName toName => [.str fromName, .str toName]
  | .channelPublish name topic _ => [.str name, .str topic]
  | .channelSubscribe name topic => [.str name, .str topic]
  | .channelPsubscribe name pattern => [.str name, .str pattern]
  | .channelUnsubscribe name topic => [.str name, .str topic]
  | .channelPunsubscribe name pattern => [.str name, .str pattern]

def Request.msgSize : Request → UInt32
  | .queuePush _ msgSize => msgSize
  | .routePush _ _ msgSize => msgSize
  | .channelPublish _ _ msgSize => msgSize
  | _ => 0

def stringLimits : List Member → List Value → List (CString × Nat)
  | .chars width :: layout, .str s :: values => (s, width) :: stringLimits layout values
  | _ :: layout, _ :: values => stringLimits layout values
  | _, _ => []

def Request.members (r : Request) : List (List UInt8) :=
  List.zipWith encodeMember r.command.layout r.values

/-- Every argument of the request fits its member. -/
def Request.Accepted (r : Request) : Prop :=
  List.Forall₂ Fits r.command.layout r.values

/-- The frame that a request puts into the request buffer. -/
def Request.bytes (noack : Bool) (r : Request) : List UInt8 :=
  requestBytes r.command noack r.members r.msgSize

/-- The forty-three builders follow one scheme, driven by the structures of
`protocol.h`. -/
theorem Request.build_eq (k : Kernel) (r : Request) :
    r.build k = buildRequest k r.command (stringLimits r.command.layout r.values)
      r.members r.msgSize := by
  cases r <;> rfl

theorem uint8_fits (n : UInt8) : Fits (.uint 1) (.int n.toNat) := n.toNat_lt

theorem uint32_fits (n : UInt32) : Fits (.uint 4) (.int n.toNat) := n.toNat_lt

theorem uint64_fits (n : UInt64) : Fits (.uint 8) (.int n.toNat) := n.toNat_lt

/-- The length checks of a builder are exactly what its structure needs. -/
theorem Request.accepted_iff_limits (r : Request) :
    r.Accepted ↔ ∀ p ∈ stringLimits r.command.layout r.values, strlenz p.1 ≤ p.2 := by
  cases r <;>
    simp [Request.Accepted, Request.command, Request.values, ProtocolCommand.layout,
      stringLimits, strlenz, fits_chars, uint8_fits, uint32_fits, uint64_fits, Nat.lt_succ_iff]

instance (r : Request) : Decidable r.Accepted :=
  decidable_of_iff _ r.accepted_iff_limits.symm

theorem structSize_layout_le (cmd : ProtocolCommand) :
    structSize cmd.layout ≤ 160 := by
  cases cmd <;> decide

end Libemq.Packet
