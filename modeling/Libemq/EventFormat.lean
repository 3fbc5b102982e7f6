import Libemq.Runs

namespace Libemq.EventFormat

open Libemq.CStrings
open Libemq.ExitCode
open Libemq.Client
open Libemq.Network
open Libemq.Protocol
open Libemq.Packet
open Libemq.Transactions
open Libemq.Responses
open Libemq.Events
open Libemq.Runs

/-- A `char[width]` member of a frame that holds a terminated string. Whatever
follows the terminator is not part of the string. -/
structure WireString (width : Nat) where
  bytes : List UInt8
  length_eq : bytes.length = width
  terminated : (0 : UInt8) ∈ bytes

def WireString.str {width : Nat} (s : WireString width) : CString := contents s.bytes

@[simp] theorem WireString.contents_str {width : Nat} (s : WireString width) :
    contents (charArray width s.str) = s.str :=
  contents_charArray (by
    have := strlen_contents_lt s.terminated
    rwa [s.length_eq] at this)

structure Payload where
  data : List UInt8
  nonempty : 1 ≤ data.length
  bounded : data.length ≤ intMax

def oneByte : Payload := ⟨[1], by decide, by decide⟩

/-- What a server tells its subscribers. -/
inductive Event where
  | notify (queue : WireString 64)
  | message (queue : WireString 64) (payload : Payload)
  | publish (channel : WireString 64) (topic : WireString 32) (payload : Payload)
  | patternPublish (channel : WireString 64) (topic pattern : WireString 32)
      (payload : Payload)

namespace Event

def name : Event → WireString 64
  | notify queue => queue
  | message queue _ => queue
  | publish channel _ _ => channel
  | patternPublish channel _ _ _ => channel

def arrays : Event → List UInt8
  | notify queue => queue.bytes
  | message queue _ => queue.bytes
  | publish channel topic _ => channel.bytes ++ topic.bytes
  | patternPublish channel topic pattern _ => channel.bytes ++ topic.bytes ++ pattern.bytes

def payload : Event → List UInt8
  | notify _ => []
  | message _ payload => payload.data
  | publish _ _ payload => payload.data
  | patternPublish _ _ _ payload => payload.data

def command : Event → ProtocolCommand
  | notify _ => .queueSubscribe
  | message _ _ => .queueSubscribe
  | publish _ _ _ => .channelSubscribe
  | patternPublish _ _ _ _ => .channelPsubscribe

def type : Event → UInt8
  | notify _ => emqProtocolEventNotify
  | _ => emqProtocolEventMessage

def header (e : Event) : ProtocolEventHeader :=
  ⟨emqProtocolEvent, e.command.code, e.type,
    UInt32.ofNat (e.arrays.length + e.payload.length)⟩

def bytes (e : Event) : List UInt8 := e.header.bytes ++ e.arrays ++ e.payload

/-- The callback that the client finds for the event: that of the first
subscription with its name. -/
def subscriber (e : Event) (c : EmqClient) : Option CallbackPtr :=
  match e with
  | notify queue | message queue _ =>
      (c.queueSubscriptions.find? fun s => s.name.str = queue.str).map
        EmqQueueSubscription.callback
  | publish channel _ _ | patternPublish channel _ _ _ =>
      (c.channelSubscriptions.find? fun s => s.name.str = channel.str).map
        EmqChannelSubscription.callback

def args : Event → CallbackArgs
  | notify queue => ⟨.queue, charArray 64 queue.str, none, none, none⟩
  | message queue payload =>
      ⟨.queue, charArray 64 queue.str, none, none, some ⟨payload.data, 0, 0, false⟩⟩
  | publish channel topic payload =>
      ⟨.channel, charArray 64 channel.str, some topic.bytes, none,
        some ⟨payload.data, 0, 0, false⟩⟩
  | patternPublish channel topic pattern payload =>
      ⟨.channel, charArray 64 channel.str, some topic.bytes, some pattern.bytes,
        some ⟨payload.data, 0, 0, false⟩⟩

theorem arrays_length (e : Event) : e.arrays.length = prefixSize e.header := by
  cases e <;> simp [arrays, header, command, prefixSize, WireString.length_eq,
    ProtocolCommand.code_inj]

theorem payload_length_le (e : Event) : e.payload.length ≤ intMax := by
  cases e with
  | notify queue => exact Nat.zero_le _
  | message queue payload => exact payload.bounded
  | publish channel topic payload => exact payload.bounded
  | patternPublish channel topic pattern payload => exact payload.bounded

theorem header_bodylen (e : Event) :
    e.header.bodylen.toNat = e.arrays.length + e.payload.length := by
  have hle := e.payload_length_le
  have hlow := prefixSize_ge e.header
  have harrays := prefixSize_le e.header
  rw [← arrays_length] at harrays
  unfold intMax at hle
  exact UInt32.toNat_ofNat_of_lt' (by
    change _ < 4294967296
    omega)

theorem wellFormed (e : Event) : WellFormed e.header := by
  cases e <;> exact ⟨rfl, by simp [header, command]⟩

theorem messageSize_header (e : Event) : messageSize e.header = e.payload.length := by
  have hbodylen := e.header_bodylen
  have hle := e.payload_length_le
  have harrays := e.arrays_length
  unfold intMax at hle
  cases e with
  | notify queue =>
      exact if_neg (by simp [hasMessage, header, command, type, emqProtocolEventNotify,
        emqProtocolEventMessage])
  | _ =>
      rw [messageSize, if_pos (by simp [hasMessage, header, type]), hbodylen, ← harrays]
      omega

theorem bytes_length (e : Event) :
    e.bytes.length = 8 + prefixSize e.header + messageSize e.header := by
  rw [bytes, List.length_append, List.length_append, arrays_length, messageSize_header]
  simp [ProtocolEventHeader.bytes]

theorem parse_bytes (e : Event) (rest : List UInt8) :
    ProtocolEventHeader.parse (e.bytes ++ rest) = e.header := by
  rw [bytes, List.append_assoc, List.append_assoc, ProtocolEventHeader.parse_bytes]

theorem drop_header (e : Event) (rest : List UInt8) :
    (e.bytes ++ rest).drop 8 = e.arrays ++ e.payload ++ rest := by
  have hlength : e.header.bytes.length = 8 := headerBytes_length ..
  rw [bytes, List.append_assoc, List.append_assoc, ← hlength, List.drop_left,
    List.append_assoc]

theorem take_name (e : Event) (rest : List UInt8) :
    ((e.bytes ++ rest).drop 8).take 64 = e.name.bytes := by
  rw [drop_header]
  cases e <;>
    simp [arrays, name, WireString.length_eq]

theorem find_name {α : Type} (list : List α) (field : α → FieldString 64)
    (callback : α → CallbackPtr) (name : WireString 64) :
    ((list.find? fun s => strcmpEq (field s).array name.bytes).map fun s =>
        (callback s, (field s).array)) =
      ((list.find? fun s => (field s).str = name.str).map callback).map fun callback =>
        (callback, charArray 64 name.str) := by
  have hsame : (fun s => strcmpEq (field s).array name.bytes) =
      fun s => decide ((field s).str = name.str) := by
    funext s
    rw [Bool.eq_iff_iff, decide_eq_true_iff, FieldString.strcmpEq_array _ name.terminated,
      eq_comm]
    rfl
  rw [hsame]
  cases hfind : list.find? fun s => decide ((field s).str = name.str) with
  | none => rfl
  | some s =>
      have hname := List.find?_some hfind
      rw [decide_eq_true_iff] at hname
      simp [FieldString.array, hname]

theorem not_queue {e : Event} (h : (e.command == .queueSubscribe) = false) :
    e.header.cmd ≠ ProtocolCommand.queueSubscribe.code := by
  simpa [header, ProtocolCommand.code_inj] using h

theorem subscriber_header (e : Event) (c : EmqClient) :
    Events.subscriber e.header c e.name.bytes =
      (e.subscriber c).map fun callback => (callback, charArray 64 e.name.str) := by
  have hqueue := find_name c.queueSubscriptions EmqQueueSubscription.name
    EmqQueueSubscription.callback e.name
  have hchannel := find_name c.channelSubscriptions EmqChannelSubscription.name
    EmqChannelSubscription.callback e.name
  cases e with
  | notify queue => exact (if_pos rfl).trans hqueue
  | message queue payload => exact (if_pos rfl).trans hqueue
  | publish channel topic payload => exact (if_neg (not_queue rfl)).trans hchannel
  | patternPublish channel topic pattern payload => exact (if_neg (not_queue rfl)).trans hchannel

theorem eventArgs_header (e : Event) (rest : List UInt8) :
    eventArgs e.header (charArray 64 e.name.str) (e.arrays ++ e.payload ++ rest) = e.args := by
  have hmsg : eventMsg e.header (e.arrays ++ e.payload ++ rest) =
      if hasMessage e.header then some ⟨e.payload, 0, 0, false⟩ else none := by
    rw [eventMsg, messageSize_header, ← arrays_length, List.append_assoc, List.drop_left,
      List.take_left]
  rw [eventArgs, hmsg]
  cases e with
  | notify queue =>
      rw [if_pos (by rfl), if_neg (by simp [hasMessage, header, command, type,
        emqProtocolEventNotify, emqProtocolEventMessage])]
      rfl
  | message queue payload =>
      rw [if_pos (by rfl), if_pos (by simp [hasMessage, header, type])]
      rfl
  | publish channel topic payload =>
      rw [if_neg (not_queue rfl), if_pos (by rfl), if_pos (by simp [hasMessage, header, type])]
      simp [arrays, args, WireString.length_eq, name, Event.payload]
  | patternPublish channel topic pattern payload =>
      have hchannel : channel.bytes.drop 96 = [] :=
        List.drop_of_length_le (by
          rw [channel.length_eq]
          omega)
      rw [if_neg (not_queue rfl),
        if_neg (by simp [header, command, ProtocolCommand.code_inj]),
        if_pos (by simp [hasMessage, header, type])]
      simp [arrays, args, WireString.length_eq, hchannel, List.drop_append, name,
        Event.payload]

end Event

theorem receiveEvent_delivered {k : Kernel} {w w' : World} {e : Event} {rest : List UInt8}
    (hinput : w.input = e.bytes ++ rest) {delivery : Delivery}
    (h : receiveEvent k w = .next delivery w') :
    ∃ callback reads mallocs, e.subscriber w.client = some callback ∧
      delivery = (callback, e.args) ∧
      w' = consumed w e.bytes.length reads mallocs w.failures := by
  have houtcome := receiveEvent_outcome k w
  rw [h] at houtcome
  generalize hexit : Exit.next delivery w' = exit at houtcome
  cases houtcome with
  | complete callback name reads mallocs hreads hheader hsome henough hle =>
      cases hexit
      rw [hinput, e.parse_bytes, e.take_name, e.subscriber_header] at hsome
      cases hsubscriber : e.subscriber w.client with
      | none =>
          rw [hsubscriber] at hsome
          cases hsome
      | some found =>
          rw [hsubscriber] at hsome
          cases hsome
          refine ⟨_, reads, mallocs, rfl, ?_, ?_⟩
          · rw [hinput, e.parse_bytes, e.drop_header, e.eventArgs_header]
          · rw [hinput, e.parse_bytes, e.bytes_length]
  | _ => cases hexit

/-- Over a reliable connection an event is received iff a subscription has its name.
Otherwise its data stays behind. -/
theorem receiveEvent_event {k : Kernel} (hreads : Kernel.ReadsOk k)
    (hmallocs : Kernel.MallocsOk k) {w : World} {e : Event} {rest : List UInt8}
    (hinput : w.input = e.bytes ++ rest) :
    (∃ callback reads mallocs, e.subscriber w.client = some callback ∧
      receiveEvent k w = .next (callback, e.args)
        (consumed w e.bytes.length reads mallocs w.failures)) ∨
    (∃ reads, e.subscriber w.client = none ∧
      receiveEvent k w = .error (received w (8 + e.arrays.length) reads w.failures)) := by
  have hlength := e.bytes_length
  have hpayload := e.payload_length_le
  have hsize := congrArg List.length hinput
  rw [List.length_append] at hsize
  have houtcome := receiveEvent_outcome k w
  generalize hexit : receiveEvent k w = exit at houtcome
  cases houtcome with
  | unread dropped reads hlt hend =>
      have := (hend hreads).1
      omega
  | malformed reads hlt henough hheader =>
      rw [hinput, e.parse_bytes] at hheader
      exact absurd e.wellFormed hheader
  | unregistered reads hlt hheader henough hnone =>
      rw [hinput, e.parse_bytes, e.take_name, e.subscriber_header,
        Option.map_eq_none_iff] at hnone
      refine .inr ⟨reads, hnone, ?_⟩
      rw [hinput, e.parse_bytes, ← e.arrays_length]
  | truncated error dropped reads mallocs failures hlt hheader hfailures hcause =>
      have := hcause hreads hmallocs
      rw [hinput, e.parse_bytes, List.length_append, e.messageSize_header] at this
      rw [e.messageSize_header] at hlength
      omega
  | complete =>
      obtain ⟨callback, reads, mallocs, hsubscriber, hdelivery, hstate⟩ :=
        receiveEvent_delivered hinput hexit
      exact .inl ⟨callback, reads, mallocs, hsubscriber, by rw [hdelivery, hstate]⟩
  | faulted reason w' hle =>
      rw [hinput, e.parse_bytes, e.messageSize_header] at hle
      omega

end Libemq.EventFormat
