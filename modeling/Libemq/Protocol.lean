import Libemq.PackedLayout

/-!
The wire protocol: commands, status and event codes, the three 8-byte headers
and the packed body of each request. The structures of the source have the
memory order of a little-endian machine.
-/

namespace Libemq.Protocol

open Libemq.PackedLayout

inductive ProtocolCommand where
  | auth | ping | stat | save | flush
  | userCreate | userList | userRename | userSetPerm | userDelete
  | queueCreate | queueDeclare | queueExist | queueList | queueRename | queueSize
  | queuePush | queueGet | queuePop | queueConfirm | queueSubscribe | queueUnsubscribe
  | queuePurge | queueDelete
  | routeCreate | routeExist | routeList | routeKeys | routeRename | routeBind
  | routeUnbind | routePush | routeDelete
  | channelCreate | channelExist | channelList | channelRename | channelPublish
  | channelSubscribe | channelPsubscribe | channelUnsubscribe | channelPunsubscribe
  | channelDelete
  deriving DecidableEq, Repr

def ProtocolCommand.code : ProtocolCommand → UInt8
  | .auth => 0xA
  | .ping => 0xB
  | .stat => 0xC
  | .save => 0xD
  | .flush => 0xE
  | .userCreate => 0x1E
  | .userList => 0x1F
  | .userRename => 0x20
  | .userSetPerm => 0x21
  | .userDelete => 0x22
  | .queueCreate => 0x23
  | .queueDeclare => 0x24
  | .queueExist => 0x25
  | .queueList => 0x26
  | .queueRename => 0x27
  | .queueSize => 0x28
  | .queuePush => 0x29
  | .queueGet => 0x2A
  | .queuePop => 0x2B
  | .queueConfirm => 0x2C
  | .queueSubscribe => 0x2D
  | .queueUnsubscribe => 0x2E
  | .queuePurge => 0x2F
  | .queueDelete => 0x30
  | .routeCreate => 0x31
  | .routeExist => 0x32
  | .routeList => 0x33
  | .routeKeys => 0x34
  | .routeRename => 0x35
  | .routeBind => 0x36
  | .routeUnbind => 0x37
  | .routePush => 0x38
  | .routeDelete => 0x39
  | .channelCreate => 0x3A
  | .channelExist => 0x3B
  | .channelList => 0x3C
  | .channelRename => 0x3D
  | .channelPublish => 0x3E
  | .channelSubscribe => 0x3F
  | .channelPsubscribe => 0x40
  | .channelUnsubscribe => 0x41
  | .channelPunsubscribe => 0x42
  | .channelDelete => 0x43

def ProtocolCommand.ofCode : UInt8 → Option ProtocolCommand
  | 0xA => some .auth
  | 0xB => some .ping
  | 0xC => some .stat
  | 0xD => some .save
  | 0xE => some .flush
  | 0x1E => some .userCreate
  | 0x1F => some .userList
  | 0x20 => some .userRename
  | 0x21 => some .userSetPerm
  | 0x22 => some .userDelete
  | 0x23 => some .queueCreate
  | 0x24 => some .queueDeclare
  | 0x25 => some .queueExist
  | 0x26 => some .queueList
  | 0x27 => some .queueRename
  | 0x28 => some .queueSize
  | 0x29 => some .queuePush
  | 0x2A => some .queueGet
  | 0x2B => some .queuePop
  | 0x2C => some .queueConfirm
  | 0x2D => some .queueSubscribe
  | 0x2E => some .queueUnsubscribe
  | 0x2F => some .queuePurge
  | 0x30 => some .queueDelete
  | 0x31 => some .routeCreate
  | 0x32 => some .routeExist
  | 0x33 => some .routeList
  | 0x34 => some .routeKeys
  | 0x35 => some .routeRename
  | 0x36 => some .routeBind
  | 0x37 => some .routeUnbind
  | 0x38 => some .routePush
  | 0x39 => some .routeDelete
  | 0x3A => some .channelCreate
  | 0x3B => some .channelExist
  | 0x3C => some .channelList
  | 0x3D => some .channelRename
  | 0x3E => some .channelPublish
  | 0x3F => some .channelSubscribe
  | 0x40 => some .channelPsubscribe
  | 0x41 => some .channelUnsubscribe
  | 0x42 => some .channelPunsubscribe
  | 0x43 => some .channelDelete
  | _ => none

@[simp] theorem ProtocolCommand.ofCode_code (cmd : ProtocolCommand) :
    ProtocolCommand.ofCode cmd.code = some cmd := by
  cases cmd <;> rfl

theorem ProtocolCommand.code_inj {a b : ProtocolCommand} : a.code = b.code ↔ a = b := by
  constructor
  · intro h
    have := congrArg ProtocolCommand.ofCode h
    simpa using this
  · exact congrArg _

def emqProtocolReq : UInt16 := 0x70

def emqProtocolRes : UInt16 := 0x80

def emqProtocolEvent : UInt16 := 0x90

inductive ProtocolResponseStatus where
  | success | error | errorPacket | errorCommand | errorAccess | errorMemory | errorValue
  | errorNotDeclared | errorNotFound | errorNoData
  deriving DecidableEq, Repr

def ProtocolResponseStatus.code : ProtocolResponseStatus → UInt8
  | .success => 0x1
  | .error => 0x2
  | .errorPacket => 0x3
  | .errorCommand => 0x4
  | .errorAccess => 0x5
  | .errorMemory => 0x6
  | .errorValue => 0x7
  | .errorNotDeclared => 0x8
  | .errorNotFound => 0x9
  | .errorNoData => 0xA

def emqProtocolEventNotify : UInt8 := 0x1

def emqProtocolEventMessage : UInt8 := 0x2

structure ProtocolRequestHeader where
  magic : UInt16
  cmd : UInt8
  noack : UInt8
  bodylen : UInt32
  deriving DecidableEq, Repr

structure ProtocolResponseHeader where
  magic : UInt16
  cmd : UInt8
  status : UInt8
  bodylen : UInt32
  deriving DecidableEq, Repr

structure ProtocolEventHeader where
  magic : UInt16
  cmd : UInt8
  type : UInt8
  bodylen : UInt32
  deriving DecidableEq, Repr

/-- The 8 bytes that the three headers share: a 16-bit magic, a command byte, a
byte for the noack flag, status or event type, and a 32-bit body length. -/
def headerBytes (magic : UInt16) (cmd flag : UInt8) (bodylen : UInt32) : List UInt8 :=
  bytesLE 2 magic.toNat ++ cmd :: flag :: bytesLE 4 bodylen.toNat

def headerMagic (bytes : List UInt8) : UInt16 := UInt16.ofNat (valueLE (bytes.take 2))

def headerCmd (bytes : List UInt8) : UInt8 := bytes.getD 2 0

def headerFlag (bytes : List UInt8) : UInt8 := bytes.getD 3 0

def headerBodylen (bytes : List UInt8) : UInt32 :=
  UInt32.ofNat (valueLE ((bytes.drop 4).take 4))

def ProtocolRequestHeader.bytes (h : ProtocolRequestHeader) : List UInt8 :=
  headerBytes h.magic h.cmd h.noack h.bodylen

def ProtocolResponseHeader.bytes (h : ProtocolResponseHeader) : List UInt8 :=
  headerBytes h.magic h.cmd h.status h.bodylen

def ProtocolEventHeader.bytes (h : ProtocolEventHeader) : List UInt8 :=
  headerBytes h.magic h.cmd h.type h.bodylen

def ProtocolRequestHeader.parse (bytes : List UInt8) : ProtocolRequestHeader :=
  ⟨headerMagic bytes, headerCmd bytes, headerFlag bytes, headerBodylen bytes⟩

def ProtocolResponseHeader.parse (bytes : List UInt8) : ProtocolResponseHeader :=
  ⟨headerMagic bytes, headerCmd bytes, headerFlag bytes, headerBodylen bytes⟩

def ProtocolEventHeader.parse (bytes : List UInt8) : ProtocolEventHeader :=
  ⟨headerMagic bytes, headerCmd bytes, headerFlag bytes, headerBodylen bytes⟩

@[simp] theorem headerBytes_length (magic : UInt16) (cmd flag : UInt8) (bodylen : UInt32) :
    (headerBytes magic cmd flag bodylen).length = 8 := by
  simp [headerBytes]

theorem headerMagic_append (magic : UInt16) (cmd flag : UInt8) (bodylen : UInt32)
    (rest : List UInt8) :
    headerMagic (headerBytes magic cmd flag bodylen ++ rest) = magic := by
  have hlt : magic.toNat < 256 ^ 2 := magic.toNat_lt
  have htake : (headerBytes magic cmd flag bodylen ++ rest).take 2 = bytesLE 2 magic.toNat := by
    simp [headerBytes, bytesLE]
  rw [headerMagic, htake, valueLE_bytesLE hlt, UInt16.ofNat_toNat]

@[simp] theorem headerCmd_append (magic : UInt16) (cmd flag : UInt8) (bodylen : UInt32)
    (rest : List UInt8) :
    headerCmd (headerBytes magic cmd flag bodylen ++ rest) = cmd := by
  simp [headerCmd, headerBytes, bytesLE]

@[simp] theorem headerFlag_append (magic : UInt16) (cmd flag : UInt8) (bodylen : UInt32)
    (rest : List UInt8) :
    headerFlag (headerBytes magic cmd flag bodylen ++ rest) = flag := by
  simp [headerFlag, headerBytes, bytesLE]

theorem headerBodylen_append (magic : UInt16) (cmd flag : UInt8) (bodylen : UInt32)
    (rest : List UInt8) :
    headerBodylen (headerBytes magic cmd flag bodylen ++ rest) = bodylen := by
  have hlt : bodylen.toNat < 256 ^ 4 := bodylen.toNat_lt
  have htake : ((headerBytes magic cmd flag bodylen ++ rest).drop 4).take 4 =
      bytesLE 4 bodylen.toNat := by
    simp [headerBytes, bytesLE]
  rw [headerBodylen, htake, valueLE_bytesLE hlt, UInt32.ofNat_toNat]

attribute [simp] headerMagic_append headerBodylen_append

@[simp] theorem ProtocolRequestHeader.parse_bytes (h : ProtocolRequestHeader)
    (rest : List UInt8) : ProtocolRequestHeader.parse (h.bytes ++ rest) = h := by
  simp [ProtocolRequestHeader.parse, ProtocolRequestHeader.bytes]

@[simp] theorem ProtocolResponseHeader.parse_bytes (h : ProtocolResponseHeader)
    (rest : List UInt8) : ProtocolResponseHeader.parse (h.bytes ++ rest) = h := by
  simp [ProtocolResponseHeader.parse, ProtocolResponseHeader.bytes]

@[simp] theorem ProtocolEventHeader.parse_bytes (h : ProtocolEventHeader)
    (rest : List UInt8) : ProtocolEventHeader.parse (h.bytes ++ rest) = h := by
  simp [ProtocolEventHeader.parse, ProtocolEventHeader.bytes]

/-- The `body` of each `protocol_request_*` structure, as `protocol.h` declares
it. Requests that are a bare header have an empty body. -/
def ProtocolCommand.layout : ProtocolCommand → List Member
  | .auth => [.chars 32, .chars 32]
  | .ping => []
  | .stat => []
  | .save => [.uint 1]
  | .flush => [.uint 4]
  | .userCreate => [.chars 32, .chars 32, .uint 8]
  | .userList => []
  | .userRename => [.chars 32, .chars 32]
  | .userSetPerm => [.chars 32, .uint 8]
  | .userDelete => [.chars 32]
  | .queueCreate => [.chars 64, .uint 4, .uint 4, .uint 4]
  | .queueDeclare => [.chars 64]
  | .queueExist => [.chars 64]
  | .queueList => []
  | .queueRename => [.chars 64, .chars 64]
  | .queueSize => [.chars 64]
  | .queuePush => [.chars 64]
  | .queueGet => [.chars 64]
  | .queuePop => [.chars 64, .uint 4]
  | .queueConfirm => [.chars 64, .uint 8]
  | .queueSubscribe => [.chars 64, .uint 4]
  | .queueUnsubscribe => [.chars 64]
  | .queuePurge => [.chars 64]
  | .queueDelete => [.chars 64]
  | .routeCreate => [.chars 64, .uint 4]
  | .routeExist => [.chars 64]
  | .routeList => []
  | .routeKeys => [.chars 64]
  | .routeRename => [.chars 64, .chars 64]
  | .routeBind => [.chars 64, .chars 64, .chars 32]
  | .routeUnbind => [.chars 64, .chars 64, .chars 32]
  | .routePush => [.chars 64, .chars 32]
  | .routeDelete => [.chars 64]
  | .channelCreate => [.chars 64, .uint 4]
  | .channelExist => [.chars 64]
  | .channelList => []
  | .channelRename => [.chars 64, .chars 64]
  | .channelPublish => [.chars 64, .chars 32]
  | .channelSubscribe => [.chars 64, .chars 32]
  | .channelPsubscribe => [.chars 64, .chars 32]
  | .channelUnsubscribe => [.chars 64, .chars 32]
  | .channelPunsubscribe => [.chars 64, .chars 32]
  | .channelDelete => [.chars 64]

end Libemq.Protocol
