import Libemq.Completion
import Libemq.RequestFormat
import Libemq.ServerErrors

namespace Libemq.RoundTrip

open Libemq.CStrings
open Libemq.PackedLayout
open Libemq.ExitCode
open Libemq.Client
open Libemq.Network
open Libemq.Protocol
open Libemq.Packet
open Libemq.Commands
open Libemq.Transactions
open Libemq.Responses
open Libemq.Calls
open Libemq.Completion
open Libemq.RequestFormat
open Libemq.ServerErrors
open Libemq.Runs

/-- The bytes are one frame: the header declares what follows it. -/
def OneFrame (bytes : List UInt8) : Prop :=
  bytes.length = 8 + (ProtocolRequestHeader.parse bytes).bodylen.toNat

def expire (pushed : List UInt8) : UInt32 := UInt32.ofNat (valueLE ((pushed.drop (8 + 64)).take 4))

def stored (pushed : List UInt8) : List UInt8 := pushed.drop (8 + 64 + 4)

def answer (cmd : ProtocolCommand) (tag : UInt64) (pushed : List UInt8) : List UInt8 :=
  ProtocolResponseHeader.bytes
      ⟨emqProtocolRes, cmd.code, ProtocolResponseStatus.success.code,
        UInt32.ofNat (8 + (stored pushed).length)⟩ ++
    (bytesLE 8 tag.toNat ++ stored pushed)

structure Pushes (noack : Bool) (name : CString) (msg : EmqMsg) (pushed : List UInt8) :
    Prop where
  one : OneFrame pushed
  decodes : decodeRequest (pushed.take (8 + 64)) =
    some (noack, .queuePush name (UInt32.ofNat (4 + msg.size)))
  expire : expire pushed = msg.expire
  payload : stored pushed = msg.data

/-- The call returns a message with this data and tag, which owns its data. -/
def Receives (k : Kernel) (c : Command) (w : World) (data : List UInt8) (tag : UInt64)
    (rest : List UInt8) : Prop :=
  ∃ msg w', exec k c w = .returned (.msg (some msg)) w' ∧ w'.client.status = .ok ∧
    w'.input = rest ∧ msg.data = data ∧ msg.size = data.length ∧ msg.tag = tag ∧
    msg.zeroCopy = false

section Frames

variable {name : CString} (hname : strlen name < 64)

include hname

theorem accepted_named {r : Request}
    (h : stringLimits r.command.layout r.values = [(name, 64)]) : r.Accepted := by
  rw [Request.accepted_iff_limits, h]
  intro p hp
  rw [List.mem_singleton.mp hp]
  exact hname

theorem push_frame (noack : Bool) (msg : EmqMsg) :
    frame (.queuePush name msg) noack =
        (Request.queuePush name (UInt32.ofNat (4 + msg.size))).bytes noack ++
          (bytesLE 4 msg.expire.toNat ++ msg.data) ∧
      ((Request.queuePush name (UInt32.ofNat (4 + msg.size))).bytes noack).length = 8 + 64 := by
  refine ⟨?_, Request.bytes_length (accepted_named hname rfl) noack⟩
  simp [frame, wire, request, parts]

theorem push_length (noack : Bool) (msg : EmqMsg) :
    (frame (.queuePush name msg) noack).length = 76 + msg.size := by
  obtain ⟨hframe, hlength⟩ := push_frame hname noack msg
  rw [hframe, List.length_append, hlength, List.length_append, bytesLE_length, EmqMsg.size]
  omega

theorem pushes_frame (noack : Bool) {msg : EmqMsg} (hsize : msg.size ≤ 2147483571) :
    Pushes noack name msg (frame (.queuePush name msg) noack) := by
  generalize hr : Request.queuePush name (UInt32.ofNat (4 + msg.size)) = r
  have haccepted : r.Accepted := by
    rw [← hr]
    exact accepted_named hname rfl
  have hmsg : r.msgSize.toNat = 4 + msg.size := by
    rw [← hr]
    exact UInt32.toNat_ofNat_of_lt' (by
      change _ < 4294967296
      omega)
  have hstruct : structSize r.command.layout = 64 := by
    rw [← hr]
    rfl
  have hfits : SizeFits r := by
    rw [SizeFits, hstruct, hmsg]
    omega
  obtain ⟨hframe, hlength⟩ := push_frame hname noack msg
  rw [hr] at hframe hlength
  have hheader : ProtocolRequestHeader.parse (frame (.queuePush name msg) noack) =
      ProtocolRequestHeader.parse (r.bytes noack) := by
    rw [hframe, Request.bytes, requestBytes, List.append_assoc,
      ProtocolRequestHeader.parse_bytes, ProtocolRequestHeader.parse_bytes]
  constructor
  · rw [OneFrame, hheader, bytes_bodylen haccepted hfits, push_length hname, hstruct, hmsg]
    omega
  · rw [hframe, List.take_left' hlength, decodeRequest_bytes haccepted hfits, hr]
  · rw [RoundTrip.expire, hframe, List.drop_left' hlength, List.take_left' (bytesLE_length ..),
      valueLE_bytesLE (by exact msg.expire.toNat_lt), UInt32.ofNat_toNat]
  · rw [stored, hframe, ← List.append_assoc, List.drop_left' (by
      rw [List.length_append, hlength, bytesLE_length])]

end Frames

theorem oneFrame_confirm {name : CString} (hname : strlen name < 64) (noack : Bool) (tag : UInt64) :
    OneFrame (frame (.queueConfirm name tag) noack) ∧
      decodeRequest (frame (.queueConfirm name tag) noack) =
        some (noack, .queueConfirm name tag) := by
  have haccepted := accepted_named hname (r := .queueConfirm name tag) rfl
  have hfits : SizeFits (.queueConfirm name tag) := (by decide : 72 + 0 < 4294967296)
  have hframe : frame (.queueConfirm name tag) noack =
      (Request.queueConfirm name tag).bytes noack := List.append_nil _
  rw [hframe]
  refine ⟨?_, decodeRequest_bytes haccepted hfits noack⟩
  rw [OneFrame, bytes_bodylen haccepted hfits, Request.bytes_length haccepted]
  rfl

section Server

variable {k : Kernel} (hk : Kernel.Reliable k) {c : Command} {cmd : ProtocolCommand}
  (hc : finish c = .message cmd) (haccepts : Accepts c)

include hk hc haccepts

/-- A call that asks for a message gets what the server kept. -/
theorem receives_answer {w : World} (hready : Ready w.client) {pushed rest : List UInt8}
    {tag : UInt64} (hsize : (stored pushed).length ≤ 2147483571)
    (hinput : w.input = answer cmd tag pushed ++ rest) :
    Receives k c w (stored pushed) tag rest := by
  have hread : ¬ Misread k w.writes (frame c w.client.noack).length (parts c) :=
    not_misread_of_awaits (by rw [hc]; rfl) _ _
  have hbodylen : (UInt32.ofNat (8 + (stored pushed).length)).toNat =
      8 + (stored pushed).length :=
    UInt32.toNat_ofNat_of_lt' (by
      change _ < 4294967296
      omega)
  have htag : (bytesLE 8 tag.toNat).length = 8 := bytesLE_length ..
  have hlength : (bytesLE 8 tag.toNat ++ stored pushed).length = 8 + (stored pushed).length := by
    rw [List.length_append, htag]
  have hbodySize : BodySize (finish c) (bytesLE 8 tag.toNat ++ stored pushed).length := by
    rw [hc, hlength]
    exact ⟨Nat.le_add_right .., by unfold intMax; omega⟩
  obtain ⟨w', hexec, hdone⟩ := answered_completes hk hready haccepts hread (by rw [hc]; rfl)
    hinput (by rw [hc]; simp [Finish.check, emqCheckResponseHeaderMini]) rfl
    (hbodylen.trans hlength.symm) hbodySize
  have hbody : (w.input.drop 8).take (8 + (stored pushed).length) =
      bytesLE 8 tag.toNat ++ stored pushed := by
    rw [hinput, answer, ProtocolResponseHeader.bytes, List.append_assoc,
      List.drop_left' (headerBytes_length ..), List.take_left' hlength]
  rw [hc, hlength] at hexec
  simp only [Finish.reply, Finish.head, Finish.size, hbody] at hexec
  refine ⟨_, w', hexec, hdone.status, hdone.input, ?_, ?_, ?_, rfl⟩
  · exact List.drop_left' htag
  · exact congrArg List.length (List.drop_left' htag)
  · change UInt64.ofNat (valueLE ((bytesLE 8 tag.toNat ++ stored pushed).take 8)) = tag
    rw [List.take_left' htag, valueLE_bytesLE (by exact tag.toNat_lt), UInt64.ofNat_toNat]

end Server

/-- A message that is pushed comes back from `emq_queue_get` and `emq_queue_pop` with the
tag of the server, and `emq_queue_confirm` sends this tag. -/
theorem message_round_trip (k : Kernel) (hk : Kernel.Reliable k) (name : CString)
    (hname : strlen name ≤ 63) (msg : EmqMsg) (hpos : 1 ≤ msg.size)
    (hsize : msg.size ≤ 2147483571) (tag : UInt64) (w : World) (hready : Ready w.client) :
    ∃ pushed, (∃ reply w', exec k (.queuePush name msg) w = .returned reply w' ∧
        w'.output = w.output ++ pushed) ∧
      Pushes w.client.noack name msg pushed ∧
      (∀ w2 rest, Ready w2.client → w2.input = answer .queueGet tag pushed ++ rest →
        Receives k (.queueGet name) w2 msg.data tag rest) ∧
      (∀ w2 timeout rest, Ready w2.client → w2.input = answer .queuePop tag pushed ++ rest →
        Receives k (.queuePop name timeout) w2 msg.data tag rest) ∧
      ∀ w2, Ready w2.client →
        ∃ reply w', exec k (.queueConfirm name tag) w2 = .returned reply w' ∧
          ∃ confirmed, w'.output = w2.output ++ confirmed ∧ OneFrame confirmed ∧
            decodeRequest confirmed = some (w2.client.noack, .queueConfirm name tag) := by
  have hname' : strlen name < 64 := Nat.lt_succ_of_le hname
  have hpushes := pushes_frame hname' w.client.noack hsize
  have hread : ¬ Misread k w.writes (frame (.queuePush name msg) w.client.noack).length
      (parts (.queuePush name msg)) := by
    rw [misread_iff hk.writes]
    rintro ⟨_, hwrap⟩
    have := toInt_eq_neg_one hwrap
    have := push_length hname' w.client.noack msg
    omega
  have haccepts : Accepts (.queuePush name msg) :=
    ⟨decide_eq_true hpos, accepted_named hname' rfl⟩
  have hkept : (stored (frame (.queuePush name msg) w.client.noack)).length ≤ 2147483571 := by
    rw [hpushes.payload]
    exact hsize
  refine ⟨_, frame_emitted hk hready haccepts hread rfl, hpushes, ?_, ?_, ?_⟩
  · intro w2 rest hready2 hinput
    rw [← hpushes.payload]
    exact receives_answer hk rfl ⟨rfl, accepted_named hname' rfl⟩ hready2 hkept hinput
  · intro w2 timeout rest hready2 hinput
    rw [← hpushes.payload]
    exact receives_answer hk rfl ⟨rfl, accepted_named hname' rfl⟩ hready2 hkept hinput
  · intro w2 hready2
    obtain ⟨reply, w', hexec, houtput⟩ := frame_emitted hk hready2
      (c := .queueConfirm name tag) ⟨rfl, accepted_named hname' rfl⟩ not_false rfl
    exact ⟨reply, w', hexec, _, houtput, oneFrame_confirm hname' _ tag⟩

def hello : EmqMsg := ⟨[104, 105], 0, 60, true⟩

theorem message_round_trip_hello :
    ∃ pushed, (∃ reply w', exec generous (.queuePush queueQ hello) (World.connected [] []) =
          .returned reply w' ∧ w'.output = [] ++ pushed) ∧
      Pushes false queueQ hello pushed ∧
      (∀ w2 rest, Ready w2.client → w2.input = answer .queueGet 7 pushed ++ rest →
        Receives generous (.queueGet queueQ) w2 hello.data 7 rest) ∧
      (∀ w2 timeout rest, Ready w2.client → w2.input = answer .queuePop 7 pushed ++ rest →
        Receives generous (.queuePop queueQ timeout) w2 hello.data 7 rest) ∧
      ∀ w2, Ready w2.client →
        ∃ reply w', exec generous (.queueConfirm queueQ 7) w2 = .returned reply w' ∧
          ∃ confirmed, w'.output = w2.output ++ confirmed ∧ OneFrame confirmed ∧
            decodeRequest confirmed = some (w2.client.noack, .queueConfirm queueQ 7) :=
  message_round_trip generous generous_reliable queueQ (by decide) hello (by decide) (by decide) 7
    (World.connected [] []) (ready_connected [] [])

end Libemq.RoundTrip
