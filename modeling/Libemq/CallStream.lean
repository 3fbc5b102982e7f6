import Libemq.Codecs
import Libemq.FrameLength
import Libemq.Completion

namespace Libemq.CallStream

open Libemq.CStrings
open Libemq.PackedLayout
open Libemq.ExitCode
open Libemq.Client
open Libemq.Network
open Libemq.Protocol
open Libemq.Packet
open Libemq.Commands
open Libemq.Transactions
open Libemq.Responses
open Libemq.Calls
open Libemq.Events
open Libemq.Runs
open Libemq.RequestFormat
open Libemq.Framing
open Libemq.Codecs

instance (r : Request) : Decidable (SizeFits r) := by
  unfold SizeFits
  infer_instance

/-- A call as it goes over the wire: a request whose strings fit, and behind it the message
that its header announces. -/
structure Call where
  noack : Bool
  request : Request
  payload : List UInt8
  accepted : request.Accepted
  announced : payload.length = request.msgSize.toNat
  fits : SizeFits request
  deriving DecidableEq

namespace Call

def bytes (call : Call) : List UInt8 := call.request.bytes call.noack ++ call.payload

/-- Take one call from the front of the input. Its frame is as long as its header says, a
request structure with a message behind it. -/
def parse (input : List UInt8) : Option (Call × List UInt8) := do
  let bodylen := (ProtocolRequestHeader.parse input).bodylen.toNat
  if input.length < 8 + bodylen then none
  else
    let cmd ← ProtocolCommand.ofCode (ProtocolRequestHeader.parse input).cmd
    let size := 8 + structSize cmd.layout
    let (noack, request) ← decodeRequest (input.take size)
    let payload := (input.take (8 + bodylen)).drop size
    if h : request.Accepted ∧ payload.length = request.msgSize.toNat ∧ SizeFits request then
      some (⟨noack, request, payload, h.1, h.2.1, h.2.2⟩, input.drop (8 + bodylen))
    else none

theorem parse_shortens {input rest : List UInt8} {call : Call}
    (h : parse input = some (call, rest)) : rest.length < input.length := by
  simp only [parse] at h
  split at h
  · cases h
  · rename_i hlong
    simp only [Option.bind_eq_bind, Option.bind_eq_some_iff] at h
    obtain ⟨cmd, -, ⟨noack, request⟩, -, h⟩ := h
    split at h
    · cases h
      rw [List.length_drop]
      omega
    · cases h

variable (call : Call)

theorem request_length :
    (call.request.bytes call.noack).length = 8 + structSize call.request.command.layout :=
  Request.bytes_length call.accepted call.noack

theorem bytes_length : call.bytes.length =
    8 + (structSize call.request.command.layout + call.request.msgSize.toNat) := by
  rw [bytes, List.length_append, call.request_length, call.announced, Nat.add_assoc]

theorem header_parse {front back : List UInt8} (h : call.bytes = front ++ back)
    (hlong : 8 ≤ front.length) (rest : List UInt8) :
    (ProtocolRequestHeader.parse (front ++ rest)).bodylen.toNat =
        structSize call.request.command.layout + call.request.msgSize.toNat ∧
      (ProtocolRequestHeader.parse (front ++ rest)).cmd = call.request.command.code := by
  have htake : (front ++ rest).take 8 = call.bytes.take 8 := by
    rw [h, List.take_append_of_le_length hlong, List.take_append_of_le_length hlong]
  have hparse : ProtocolRequestHeader.parse (front ++ rest) =
      ProtocolRequestHeader.parse call.bytes := by
    have hfields : ∀ bytes : List UInt8,
        ProtocolRequestHeader.parse bytes = ProtocolRequestHeader.parse (bytes.take 8) :=
      fun bytes => by
        simp only [ProtocolRequestHeader.parse]
        obtain ⟨hmagic, hcmd, hflag, hbodylen⟩ := header_take (le_refl 8) bytes
        rw [hmagic, hcmd, hflag, hbodylen]
    rw [hfields, htake, ← hfields]
  rw [hparse, bytes]
  refine ⟨?_, ?_⟩
  · rw [← bytes_bodylen call.accepted call.fits call.noack]
    rw [Request.bytes, requestBytes, List.append_assoc, ProtocolRequestHeader.parse_bytes,
      ProtocolRequestHeader.parse_bytes]
  · rw [Request.bytes, requestBytes, List.append_assoc, ProtocolRequestHeader.parse_bytes]
    rfl

theorem parse_bytes (rest : List UInt8) : parse (call.bytes ++ rest) = some (call, rest) := by
  have hlength := call.bytes_length
  obtain ⟨hbodylen, hcmd⟩ := call.header_parse (List.append_nil call.bytes).symm
    (by rw [hlength]; exact Nat.le_add_right _ _) rest
  have hrequest : (call.bytes ++ rest).take (8 + structSize call.request.command.layout) =
      call.request.bytes call.noack := by
    rw [bytes, List.append_assoc, ← call.request_length, List.take_left]
  have hframe : (call.bytes ++ rest).take
      (8 + (structSize call.request.command.layout + call.request.msgSize.toNat)) =
        call.bytes := by
    rw [← hlength, List.take_left]
  have hpayload : call.bytes.drop (8 + structSize call.request.command.layout) =
      call.payload := by
    rw [bytes, ← call.request_length, List.drop_left]
  have hrest : (call.bytes ++ rest).drop
      (8 + (structSize call.request.command.layout + call.request.msgSize.toNat)) = rest := by
    rw [← hlength, List.drop_left]
  have hlong : ¬ (call.bytes ++ rest).length <
      8 + (structSize call.request.command.layout + call.request.msgSize.toNat) := by
    rw [List.length_append, hlength]
    omega
  simp only [parse, hbodylen, hcmd, hlong, if_false, ProtocolCommand.ofCode_code,
    Option.bind_eq_bind, Option.bind_some, hrequest, hframe, hpayload, hrest,
    decodeRequest_bytes call.accepted call.fits]
  rw [dif_pos ⟨call.accepted, call.announced, call.fits⟩]

theorem parse_cut {front back : List UInt8} (h : call.bytes = front ++ back) (hback : back ≠ []) :
    parse front = none := by
  have hlength := congrArg List.length h
  have hpos := List.length_pos_iff.mpr hback
  rw [call.bytes_length, List.length_append] at hlength
  have hshort : front.length < 8 + (ProtocolRequestHeader.parse front).bodylen.toNat := by
    by_cases hlong : 8 ≤ front.length
    · have hbodylen := (call.header_parse h hlong []).1
      rw [List.append_nil] at hbodylen
      omega
    · omega
  simp only [parse, if_pos hshort]

end Call

def callCodec : Codec Call UInt8 where
  encode := Call.bytes
  decode := Call.parse
  encode_ne_nil call := by
    have hlength := call.bytes_length
    intro hnil
    rw [hnil, List.length_nil] at hlength
    omega
  decode_encode := Call.parse_bytes
  decode_cut call _ _ := call.parse_cut

/-- What follows the request of a command. -/
def payload (c : Command) : List UInt8 := ((parts c).getD []).flatten

/-- The header of the command can say how long its body is. -/
def Compact (c : Command) : Prop :=
  structSize (request c).command.layout + (payload c).length < 4294967296

instance (c : Command) : Decidable (Compact c) := by
  unfold Compact
  infer_instance

theorem frame_eq (c : Command) (noack : Bool) :
    frame c noack = (request c).bytes noack ++ payload c := rfl

theorem msgSize_of_compact {c : Command} (h : Compact c) :
    (request c).msgSize.toNat = (payload c).length := by
  unfold Compact payload at *
  cases c with
  | queuePush name msg =>
      simp only [parts, request, Request.msgSize, EmqMsg.size, Option.getD_some,
        List.flatten_cons, List.flatten_nil, List.append_nil, List.length_append,
        bytesLE_length] at h ⊢
      exact UInt32.toNat_ofNat_of_lt' (lt_of_le_of_lt (Nat.le_add_left _ _) h)
  | routePush name key msg =>
      simp only [parts, request, Request.msgSize, EmqMsg.size, Option.getD_some,
        List.flatten_cons, List.flatten_nil, List.append_nil, List.length_append,
        bytesLE_length] at h ⊢
      exact UInt32.toNat_ofNat_of_lt' (lt_of_le_of_lt (Nat.le_add_left _ _) h)
  | channelPublish name topic msg =>
      simp only [parts, request, Request.msgSize, EmqMsg.size, Option.getD_some,
        List.flatten_cons, List.flatten_nil, List.append_nil, Nat.zero_add] at h ⊢
      exact UInt32.toNat_ofNat_of_lt' (lt_of_le_of_lt (Nat.le_add_left _ _) h)
  | _ => rfl

def Call.of (c : Command) (noack : Bool) (haccepts : Accepts c) (hcompact : Compact c) : Call where
  noack := noack
  request := Transactions.request c
  payload := CallStream.payload c
  accepted := haccepts.2
  announced := (msgSize_of_compact hcompact).symm
  fits := by
    rw [SizeFits, msgSize_of_compact hcompact]
    exact hcompact

/-- What a server is told by some calls, their noack bytes apart. -/
abbrev Told := List (Request × List UInt8)

def Call.told (call : Call) : Request × List UInt8 := (call.request, call.payload)

/-- What the calls in a trace were to tell the server. Those that the client itself refuses
tell nothing. -/
def tell : TraceEvent → Told
  | .issued c _ => if Accepts c then [(request c, payload c)] else []
  | .invoked .. => []

def told (trace : List TraceEvent) : Told := trace.flatMap tell

/-- Every message in the trace is short enough for its header. -/
def AllCompact (trace : List TraceEvent) : Prop :=
  ∀ c reply, .issued c reply ∈ trace → Compact c

/-- The output is a stream of calls, and they tell what the trace was to tell. -/
def Transcribed (w : World) : Prop :=
  ∃ calls : List Call, w.output = stream Call.bytes calls ∧ calls.map Call.told = told w.trace

theorem told_append (trace trace' : List TraceEvent) :
    told (trace ++ trace') = told trace ++ told trace' := List.flatMap_append

theorem AllCompact.of_append {trace trace' : List TraceEvent} (h : AllCompact (trace ++ trace')) :
    AllCompact trace :=
  fun c reply hmem => h c reply (List.mem_append_left _ hmem)

theorem AllCompact.last {trace : List TraceEvent} {c : Command} {reply : Reply}
    (h : AllCompact (trace ++ [.issued c reply])) : Compact c :=
  h c reply (List.mem_append_right _ List.mem_cons_self)

section Steps

variable {k : Kernel} (hwrites : Kernel.WritesOk k)

include hwrites

/-- A call that gets through its own checks puts its frame on the wire, whatever comes of
it. -/
theorem exec_output {c : Command} {w w' : World} {reply : Reply} (hready : Ready w.client)
    (h : exec k c w = .returned reply w') :
    w'.output = w.output ++ if Accepts c then frame c w.client.noack else [] := by
  have hsent : ∀ w1, Issued k c w w1 → w1.output = w.output ++
      if Accepts c then frame c w.client.noack else [] := by
    intro w1 hissued
    rw [if_pos hissued.accepts]
    exact hissued.output.mpr (Completion.not_stalls hwrites _ _ _)
  have houtcome := exec_outcome k c w hready.1
  rw [h] at houtcome
  generalize hresult : Outcome.returned reply w' = result at houtcome
  cases houtcome with
  | refused hnot =>
      cases hresult
      rw [if_neg hnot, List.append_nil]
      rfl
  | exhausted size _ hsmall => exact absurd hsmall hready.large
  | unsent n writes failures rest mallocs haccepts _ _ _ hwhole =>
      cases hresult
      rw [if_pos haccepts]
      change w.output ++ List.take n _ = _
      rw [List.take_of_length_le (hwhole hwrites)]
  | unread w1 dropped reads hissued =>
      cases hresult
      exact hsent w1 hissued
  | rejected w1 reads hissued =>
      cases hresult
      exact hsent w1 hissued
  | denied w1 reads hissued =>
      cases hresult
      exact hsent w1 hissued
  | finished response w2 exit haccepted hbody =>
      obtain ⟨w1, reads, hissued, _, rfl⟩ := haccepted.issued
      cases hbody with
      | done =>
          cases hresult
          exact hsent w1 hissued
      | failed =>
          cases hresult
          exact hsent w1 hissued
      | unnamed =>
          cases hresult
          exact hsent w1 hissued
      | faulted => cases hresult

theorem issue_transcribed {c : Command} {reply : Reply} {w w' : World} (hready : Ready w.client)
    (h : issue k c w = .returned reply w') (hw : AllCompact w.trace → Transcribed w)
    (hcompact : AllCompact w'.trace) : Transcribed w' := by
  obtain ⟨s, hexec, rfl⟩ := issue_returned h
  obtain ⟨_, _, htrace, _⟩ := exec_returned hready hexec
  have houtput := exec_output hwrites hready hexec
  rw [htrace] at hcompact
  obtain ⟨calls, hcalls, htold⟩ := hw hcompact.of_append
  by_cases haccepts : Accepts c
  · let call := Call.of c w.client.noack haccepts hcompact.last
    refine ⟨calls ++ [call], ?_, ?_⟩
    · change s.output = _
      rw [houtput, if_pos haccepts, hcalls, stream, stream, List.flatMap_append]
      simp [call, Call.of, Call.bytes, frame_eq, List.flatMap_cons]
    · change _ = told (s.trace ++ _)
      rw [htrace, told_append, List.map_append, htold]
      simp [told, tell, haccepts, call, Call.told, Call.of]
  · refine ⟨calls, ?_, ?_⟩
    · change s.output = _
      rw [houtput, if_neg haccepts, List.append_nil, hcalls]
    · change _ = told (s.trace ++ _)
      rw [htrace, told_append, htold]
      simp [told, tell, haccepts]

theorem step_transcribed {w w' : World} (hready : Ready w.client) (hstep : Step k w w')
    (hw : AllCompact w.trace → Transcribed w) (hcompact : AllCompact w'.trace) :
    Transcribed w' := by
  cases hstep with
  | issue c reply h => exact issue_transcribed hwrites hready h hw hcompact
  | processEvent delivery h =>
      obtain ⟨_, htrace, houtput, _⟩ := receiveEvent_client h
      rw [invoked, htrace] at hcompact
      obtain ⟨calls, hcalls, htold⟩ := hw hcompact.of_append
      refine ⟨calls, ?_, ?_⟩
      · change _ = _ at houtput
        rw [invoked, houtput, hcalls]
      · rw [invoked, htrace, told_append, htold]
        simp [told, tell]
  | processFailed h =>
      obtain ⟨_, htrace, houtput, _⟩ := receiveEvent_error h
      rw [setStatus_trace, htrace] at hcompact
      obtain ⟨calls, hcalls, htold⟩ := hw hcompact
      exact ⟨calls, by rw [setStatus_output, houtput, hcalls],
        by rw [setStatus_trace, htrace, htold]⟩
  | _ => exact hw hcompact

/-- Whatever an application does, by itself and in its callbacks, its server reads exactly
the calls that were issued and not refused, each once and in their order. -/
theorem output_read (w : World) (hreachable : Reachable k w) (hcompact : AllCompact w.trace) :
    (callCodec.read w.output).2 = [] ∧
      (callCodec.read w.output).1.map Call.told = told w.trace := by
  obtain ⟨heap, input, hsteps⟩ := hreachable
  have hkept := Runs.of_steps
    (P := fun w => Ready w.client ∧ (AllCompact w.trace → Transcribed w))
    (fun hw hstep => ⟨hstep.ready hw.1, step_transcribed hwrites hw.1 hstep hw.2⟩) hsteps
    ⟨ready_connected heap input, fun _ => ⟨[], rfl, rfl⟩⟩
  obtain ⟨calls, hcalls, htold⟩ := hkept.2 hcompact
  have hread : callCodec.read w.output = (calls, []) := by
    rw [hcalls]
    exact callCodec.read_whole_stream calls
  rw [hread]
  exact ⟨rfl, htold⟩

end Steps

def accepting : World :=
  World.connected []
    ((ProtocolResponseHeader.mk emqProtocolRes ProtocolCommand.queueCreate.code
        ProtocolResponseStatus.success.code 0).bytes ++
      (ProtocolResponseHeader.mk emqProtocolRes ProtocolCommand.queuePush.code
        ProtocolResponseStatus.success.code 0).bytes)

def acknowledged : List Command :=
  [.queueCreate queueQ 1 1 0, .queuePush queueQ ⟨[1, 2, 3], 0, 0, false⟩,
    .queueDelete ⟨List.replicate 64 97, by decide⟩]

/-- The last call is made under noack. -/
def exchanged : World :=
  issueAll generous [.queuePurge queueQ] (emqNoackEnable (issueAll generous acknowledged accepting))

theorem reachable_exchanged : Reachable generous exchanged := by
  have hconnected : Reachable generous accepting := ⟨[], _, .refl⟩
  have hpushed := @Reachable.issueAll generous acknowledged (by decide) _ hconnected
  exact (hpushed.step (.noackEnable _)).issueAll (by decide)

theorem output_read_exchanged :
    (told exchanged.trace).length = 3 ∧ (callCodec.read exchanged.output).2 = [] ∧
      (callCodec.read exchanged.output).1.map Call.told = told exchanged.trace := by
  have htrace : exchanged.trace =
      [.issued (.queueCreate queueQ 1 1 0) (.status .ok),
        .issued (.queuePush queueQ ⟨[1, 2, 3], 0, 0, false⟩) (.status .ok),
        .issued (.queueDelete ⟨List.replicate 64 97, by decide⟩) (.status .err),
        .issued (.queuePurge queueQ) (.status .ok)] := by decide +kernel
  have hcompact : AllCompact exchanged.trace := by
    rw [htrace]
    intro c reply hmem
    simp only [List.mem_cons, TraceEvent.issued.injEq, List.not_mem_nil, or_false] at hmem
    rcases hmem with ⟨rfl, _⟩ | ⟨rfl, _⟩ | ⟨rfl, _⟩ | ⟨rfl, _⟩ <;> decide
  refine ⟨?_, output_read generous_reliable.writes _ reachable_exchanged hcompact⟩
  rw [htrace]
  decide +kernel

end Libemq.CallStream
