import Libemq.Runs

namespace Libemq.RequestFormat

open Libemq.CStrings
open Libemq.PackedLayout
open Libemq.ExitCode
open Libemq.Client
open Libemq.Network
open Libemq.Protocol
open Libemq.Packet
open Libemq.Commands
open Libemq.Transactions
open Libemq.Calls
open Libemq.Runs

def ofArgs : ProtocolCommand → List Value → (msgSize : UInt32) → Option Request
  | .auth, [.str name, .str password], _ => some (.auth name password)
  | .ping, [], _ => some (.ping)
  | .stat, [], _ => some (.stat)
  | .save, [.int async], _ => some (.save (UInt8.ofNat async))
  | .flush, [.int flags], _ => some (.flush (UInt32.ofNat flags))
  | .userCreate, [.str name, .str password, .int perm], _ =>
      some (.userCreate name password (UInt64.ofNat perm))
  | .userList, [], _ => some (.userList)
  | .userRename, [.str fromName, .str toName], _ => some (.userRename fromName toName)
  | .userSetPerm, [.str name, .int perm], _ => some (.userSetPerm name (UInt64.ofNat perm))
  | .userDelete, [.str name], _ => some (.userDelete name)
  | .queueCreate, [.str name, .int maxMsg, .int maxMsgSize, .int flags], _ =>
      some (.queueCreate name (UInt32.ofNat maxMsg) (UInt32.ofNat maxMsgSize)
        (UInt32.ofNat flags))
  | .queueDeclare, [.str name], _ => some (.queueDeclare name)
  | .queueExist, [.str name], _ => some (.queueExist name)
  | .queueList, [], _ => some (.queueList)
  | .queueRename, [.str fromName, .str toName], _ => some (.queueRename fromName toName)
  | .queueSize, [.str name], _ => some (.queueSize name)
  | .queuePush, [.str name], msgSize => some (.queuePush name msgSize)
  | .queueGet, [.str name], _ => some (.queueGet name)
  | .queuePop, [.str name, .int timeout], _ => some (.queuePop name (UInt32.ofNat timeout))
  | .queueConfirm, [.str name, .int tag], _ => some (.queueConfirm name (UInt64.ofNat tag))
  | .queueSubscribe, [.str name, .int flags], _ => some (.queueSubscribe name (UInt32.ofNat flags))
  | .queueUnsubscribe, [.str name], _ => some (.queueUnsubscribe name)
  | .queuePurge, [.str name], _ => some (.queuePurge name)
  | .queueDelete, [.str name], _ => some (.queueDelete name)
  | .routeCreate, [.str name, .int flags], _ => some (.routeCreate name (UInt32.ofNat flags))
  | .routeExist, [.str name], _ => some (.routeExist name)
  | .routeList, [], _ => some (.routeList)
  | .routeKeys, [.str name], _ => some (.routeKeys name)
  | .routeRename, [.str fromName, .str toName], _ => some (.routeRename fromName toName)
  | .routeBind, [.str name, .str queue, .str key], _ => some (.routeBind name queue key)
  | .routeUnbind, [.str name, .str queue, .str key], _ => some (.routeUnbind name queue key)
  | .routePush, [.str name, .str key], msgSize => some (.routePush name key msgSize)
  | .routeDelete, [.str name], _ => some (.routeDelete name)
  | .channelCreate, [.str name, .int flags], _ => some (.channelCreate name (UInt32.ofNat flags))
  | .channelExist, [.str name], _ => some (.channelExist name)
  | .channelList, [], _ => some (.channelList)
  | .channelRename, [.str fromName, .str toName], _ => some (.channelRename fromName toName)
  | .channelPublish, [.str name, .str topic], msgSize => some (.channelPublish name topic msgSize)
  | .channelSubscribe, [.str name, .str topic], _ => some (.channelSubscribe name topic)
  | .channelPsubscribe, [.str name, .str pattern], _ => some (.channelPsubscribe name pattern)
  | .channelUnsubscribe, [.str name, .str topic], _ => some (.channelUnsubscribe name topic)
  | .channelPunsubscribe, [.str name, .str pattern], _ => some (.channelPunsubscribe name pattern)
  | .channelDelete, [.str name], _ => some (.channelDelete name)
  | _, _, _ => none

/-- Read one request frame. The structure has to be complete, its flag `0` or `1`, and
its body length what is left for a message behind the structure. -/
def decodeRequest (bytes : List UInt8) : Option (Bool × Request) :=
  let header := ProtocolRequestHeader.parse bytes
  if bytes.length < 8 ∨ header.magic ≠ emqProtocolReq ∨ 1 < header.noack then none
  else
    match ProtocolCommand.ofCode header.cmd with
    | none => none
    | some cmd =>
        match decode cmd.layout (bytes.drop 8) with
        | some (values, []) =>
            if header.bodylen.toNat < structSize cmd.layout then none
            else
              (ofArgs cmd values
                (UInt32.ofNat (header.bodylen.toNat - structSize cmd.layout))).map fun r =>
                  (header.noack = 1, r)
        | _ => none

theorem ofArgs_values (r : Request) :
    ofArgs r.command r.values r.msgSize = some r := by
  cases r <;> simp [Request.command, Request.values, Request.msgSize, ofArgs]

def SizeFits (r : Request) : Prop :=
  structSize r.command.layout + r.msgSize.toNat < 4294967296

theorem members_length {r : Request} (h : r.Accepted) :
    r.members.flatten.length = structSize r.command.layout := encode_length h

theorem bytes_bodylen {r : Request} (h : r.Accepted) (hsize : SizeFits r) (noack : Bool) :
    (ProtocolRequestHeader.parse (r.bytes noack)).bodylen.toNat =
      structSize r.command.layout + r.msgSize.toNat := by
  rw [Request.bytes, requestBytes, ProtocolRequestHeader.parse_bytes, emqSetHeaderRequest,
    members_length h]
  exact UInt32.toNat_ofNat_of_lt' hsize

/-- The decoder inverts every builder. -/
theorem decodeRequest_bytes {r : Request} (h : r.Accepted) (hsize : SizeFits r) (noack : Bool) :
    decodeRequest (r.bytes noack) = some (noack, r) := by
  have hbodylen := bytes_bodylen h hsize noack
  have hheader : ProtocolRequestHeader.parse (r.bytes noack) =
      emqSetHeaderRequest r.command noack
        (UInt32.ofNat (r.members.flatten.length + r.msgSize.toNat)) :=
    ProtocolRequestHeader.parse_bytes _ _
  have hlong : ¬ (r.bytes noack).length < 8 := by
    rw [Request.bytes_length h]
    omega
  have hdrop : (r.bytes noack).drop 8 = encode r.command.layout r.values := by
    rw [Request.bytes, requestBytes]
    exact List.drop_left' (headerBytes_length ..)
  have hdecode : decode r.command.layout ((r.bytes noack).drop 8) = some (r.values, []) := by
    rw [hdrop, ← List.append_nil (encode _ _)]
    exact decode_encode h []
  have hnoack : ¬ 1 < (if noack then 1 else 0 : UInt8) ∧
      decide ((if noack then 1 else 0 : UInt8) = 1) = noack := by
    cases noack <;> decide
  rw [hheader] at hbodylen
  have hmsg : UInt32.ofNat ((emqSetHeaderRequest r.command noack (UInt32.ofNat
      (r.members.flatten.length + r.msgSize.toNat))).bodylen.toNat -
        structSize r.command.layout) = r.msgSize := by
    rw [hbodylen, Nat.add_sub_cancel_left, UInt32.ofNat_toNat]
  have hnotShort : ¬ (emqSetHeaderRequest r.command noack (UInt32.ofNat
      (r.members.flatten.length + r.msgSize.toNat))).bodylen.toNat <
        structSize r.command.layout := by
    omega
  unfold decodeRequest
  rw [hheader]
  generalize hh : emqSetHeaderRequest r.command noack _ = header at hmsg hnotShort
  have hfields : header.magic = emqProtocolReq ∧ header.cmd = r.command.code ∧
      header.noack = if noack then 1 else 0 := by
    rw [← hh]
    exact ⟨rfl, rfl, rfl⟩
  simp only [hfields.1, hfields.2.1, hfields.2.2, hlong, hnoack.1, ne_eq, not_true_eq_false,
    or_false, if_false, ProtocolCommand.ofCode_code, hdecode, hnotShort, hmsg, ofArgs_values,
    Option.map_some, hnoack.2]

/-- Distinct calls give distinct frames. -/
theorem bytes_injective {r r' : Request} (h : r.Accepted) (h' : r'.Accepted)
    (hsize : SizeFits r) (hsize' : SizeFits r') {noack noack' : Bool}
    (hbytes : r.bytes noack = r'.bytes noack') : noack = noack' ∧ r = r' := by
  have hdecode := congrArg decodeRequest hbytes
  rw [decodeRequest_bytes h hsize, decodeRequest_bytes h' hsize'] at hdecode
  simpa using hdecode

/-- What a builder leaves in the client when every string fits: the whole frame of the
call in a buffer it does not outgrow. -/
structure Built (r : Request) (w w' : World) : Prop where
  pos : w'.client.pos = 8 + structSize r.command.layout
  room : w'.client.pos ≤ w'.client.size
  size : w'.client.size = w.client.size
  buffer : w'.client.HasBuffer
  decodes : decodeRequest (EmqClient.pending w'.client) = some (w.client.noack, r)
  bodylen : (ProtocolRequestHeader.parse (EmqClient.pending w'.client)).bodylen.toNat =
    w'.client.pos - 8 + r.msgSize.toNat

theorem build_built {k : Kernel} {r : Request} {w : World} (hready : Ready w.client)
    (h : r.Accepted) (hsize : SizeFits r) :
    ∃ w', r.build k w = .next .ok w' ∧ Built r w w' := by
  have houtcome := Request.build_outcome k r w hready.1
  generalize r.build k w = exit at houtcome
  cases houtcome with
  | rejected hnot => exact absurd h hnot
  | exhausted size _ hsmall => exact absurd hsmall hready.large
  | built rest mallocs _ hroom =>
      have hframed := (ready_framed hready hroom).1
      have hlength := Request.bytes_length h w.client.noack
      refine ⟨_, rfl, ?_, ?_, ?_, hframed.1, ?_, ?_⟩
      · exact hlength
      · exact Nat.le_add_right ..
      · rw [hframed.2, hready.2]
      · rw [framed_pending]
        exact decodeRequest_bytes h hsize w.client.noack
      · rw [framed_pending, framed_pos, bytes_bodylen h hsize, hlength, Nat.add_sub_cancel_left]

theorem build_rejected {k : Kernel} {r : Request} {w : World} (hready : Ready w.client)
    (h : ¬ r.Accepted) : r.build k w = .next .err w := by
  have houtcome := Request.build_outcome k r w hready.1
  generalize r.build k w = exit at houtcome
  cases houtcome with
  | rejected => rfl
  | exhausted size haccepted => exact absurd haccepted h
  | built rest mallocs haccepted => exact absurd haccepted h

theorem exec_rejected {k : Kernel} {c : Command} {w : World} (hready : Ready w.client)
    (h : ¬ (request c).Accepted) :
    exec k c w = .returned (finish c).failure (setStatus .err (withError .data w)) := by
  have houtcome := exec_outcome k c w hready.1
  generalize exec k c w = result at houtcome
  have hnot : ¬ Accepts c := fun haccepts => h haccepts.2
  cases houtcome with
  | refused => rfl
  | exhausted size haccepts => exact absurd haccepts hnot
  | unsent n writes failures rest mallocs haccepts => exact absurd haccepts hnot
  | unread w1 dropped reads hissued => exact absurd hissued.accepts hnot
  | rejected w1 reads hissued => exact absurd hissued.accepts hnot
  | denied w1 reads hissued => exact absurd hissued.accepts hnot
  | finished response w2 exit haccepted hbody =>
      obtain ⟨w1, reads, hissued, _, _⟩ := haccepted.issued
      exact absurd hissued.accepts hnot

/-- In every reachable state, every builder either puts a frame into the buffer that
decodes to its own call, or refuses a string that does not fit, changes nothing and
makes its call fail with nothing sent; and distinct calls give distinct frames. -/
theorem build_decodes (k : Kernel) (w : World) (hreachable : Reachable k w) :
    (∀ r : Request, r.Accepted → SizeFits r → ∃ w', r.build k w = .next .ok w' ∧ Built r w w') ∧
    (∀ r : Request, ¬ r.Accepted → r.build k w = .next .err w) ∧
    (∀ c : Command, ¬ (request c).Accepted → ∃ w',
      exec k c w = .returned (finish c).failure w' ∧ w'.client.status = .err ∧
        w'.client.error = emqErrorArray .data ∧ w'.client.request = w.client.request ∧
        w'.client.pos = w.client.pos ∧ w'.output = w.output ∧ w'.writes = w.writes ∧
        w'.reads = w.reads) ∧
    ∀ (r r' : Request) (noack noack' : Bool), r.Accepted → r'.Accepted → SizeFits r →
      SizeFits r' → r.bytes noack = r'.bytes noack' → noack = noack' ∧ r = r' := by
  have hready := hreachable.ready
  refine ⟨?_, ?_, ?_, ?_⟩
  · intro r h hsize
    exact build_built hready h hsize
  · intro r h
    exact build_rejected hready h
  · intro c h
    exact ⟨_, exec_rejected hready h, rfl, rfl, rfl, rfl, rfl, rfl, rfl⟩
  · intro r r' noack noack' h h' hsize hsize'
    exact bytes_injective h h' hsize hsize'

theorem build_decodes_auth :
    (∃ w', (Request.auth ⟨[101, 97, 103, 108, 101], by decide⟩
        ⟨[101, 97, 103, 108, 101], by decide⟩).build generous (World.connected [] []) =
          .next .ok w' ∧
      Built (.auth ⟨[101, 97, 103, 108, 101], by decide⟩ ⟨[101, 97, 103, 108, 101], by decide⟩)
        (World.connected [] []) w') ∧
    (Request.userDelete ⟨List.replicate 32 101, by decide⟩).build generous
      (World.connected [] []) = .next .err (World.connected [] []) := by
  obtain ⟨hbuilt, hrefused, _⟩ := build_decodes generous (World.connected [] [])
    ⟨[], [], .refl⟩
  exact ⟨hbuilt _ (by decide) (by unfold SizeFits; decide), hrefused _ (by decide)⟩

end Libemq.RequestFormat
