import Libemq.Commands

namespace Libemq.Transactions

open Libemq.CStrings
open Libemq.PackedLayout
open Libemq.ExitCode
open Libemq.Client
open Libemq.Network
open Libemq.Protocol
open Libemq.Packet
open Libemq.Commands

def request : Command → Request
  | .auth name password => .auth name password
  | .ping => .ping
  | .stat => .stat
  | .save async => .save async
  | .flush flags => .flush flags
  | .userCreate name password perm => .userCreate name password perm
  | .userList => .userList
  | .userRename fromName toName => .userRename fromName toName
  | .userSetPerm name perm => .userSetPerm name perm
  | .userDelete name => .userDelete name
  | .queueCreate name maxMsg maxMsgSize flags => .queueCreate name maxMsg maxMsgSize flags
  | .queueDeclare name => .queueDeclare name
  | .queueExist name => .queueExist name
  | .queueList => .queueList
  | .queueRename fromName toName => .queueRename fromName toName
  | .queueSize name => .queueSize name
  | .queuePush name msg => .queuePush name (UInt32.ofNat (4 + msg.size))
  | .queueGet name => .queueGet name
  | .queuePop name timeout => .queuePop name timeout
  | .queueConfirm name tag => .queueConfirm name tag
  | .queueSubscribe name flags _ => .queueSubscribe name flags
  | .queueUnsubscribe name => .queueUnsubscribe name
  | .queuePurge name => .queuePurge name
  | .queueDelete name => .queueDelete name
  | .routeCreate name flags => .routeCreate name flags
  | .routeExist name => .routeExist name
  | .routeList => .routeList
  | .routeKeys name => .routeKeys name
  | .routeRename fromName toName => .routeRename fromName toName
  | .routeBind name queue key => .routeBind name queue key
  | .routeUnbind name queue key => .routeUnbind name queue key
  | .routePush name key msg => .routePush name key (UInt32.ofNat (4 + msg.size))
  | .routeDelete name => .routeDelete name
  | .channelCreate name flags => .channelCreate name flags
  | .channelExist name => .channelExist name
  | .channelList => .channelList
  | .channelRename fromName toName => .channelRename fromName toName
  | .channelPublish name topic msg => .channelPublish name topic (UInt32.ofNat (0 + msg.size))
  | .channelSubscribe name topic _ => .channelSubscribe name topic
  | .channelPsubscribe name pattern _ => .channelPsubscribe name pattern
  | .channelUnsubscribe name topic => .channelUnsubscribe name topic
  | .channelPunsubscribe name pattern => .channelPunsubscribe name pattern
  | .channelDelete name => .channelDelete name

def valid : Command → Bool
  | .queuePush _ msg | .routePush _ _ msg | .channelPublish _ _ msg => decide (1 ≤ msg.size)
  | .queueSubscribe _ _ callback | .channelSubscribe _ _ callback
  | .channelPsubscribe _ _ callback => decide (callback ≠ 0)
  | _ => true

def parts : Command → Parts
  | .queuePush _ msg => some [bytesLE 4 msg.expire.toNat, msg.data]
  | .routePush _ _ msg => some [bytesLE 4 msg.expire.toNat, msg.data]
  | .channelPublish _ _ msg => some [msg.data]
  | _ => none

/-- The changes of the local lists that a call makes when it succeeds. -/
def commit : Command → Commit
  | .queueSubscribe name _ callback => .subscribeQueue name callback
  | .queueUnsubscribe name => .unsubscribeQueue name
  | .channelSubscribe name topic callback => .subscribeChannel name topic callback
  | .channelPsubscribe name pattern callback => .subscribeChannel name pattern callback
  | .channelUnsubscribe name _ => .unsubscribeChannel name
  | .channelPunsubscribe name _ => .unsubscribeChannel name
  | _ => .nothing

/-- How a call deals with its response. -/
def finish (c : Command) : Finish :=
  match c with
  | .stat => .stat
  | .queueExist _ => .value .queueExist 0
  | .queueSize _ => .value .queueSize (-1)
  | .routeExist _ => .value .routeExist 0
  | .channelExist _ => .value .channelExist 0
  | .userList => .records .users
  | .queueList => .records .queues
  | .routeList => .records .routes
  | .routeKeys _ => .records .routeKeys
  | .channelList => .records .channels
  | .queueGet _ => .message .queueGet
  | .queuePop .. => .message .queuePop
  | .queueConfirm .. => .acknowledge (emqCheckResponseHeaderMini .queueConfirm) (commit c)
  | .channelPunsubscribe .. =>
      .acknowledge (emqCheckResponseHeader .channelUnsubscribe 0) (commit c)
  | _ => .acknowledge (emqCheckResponseHeader (request c).command 0) (commit c)

/-- Every call is the common course with its own stages. -/
theorem exec_eq (k : Kernel) (c : Command) :
    exec k c = transact k (valid c) ((request c).build k) (parts c) (finish c) := by
  cases c <;> rfl

def withError (error : EmqError) (w : World) : World :=
  { w with client := { w.client with error := emqErrorArray error } }

def framed (w : World) (frame rest : List UInt8) (mallocs : Nat) : World :=
  { w with
    client :=
      { w.client with
        request := some (frame ++ rest)
        size := frame.length + rest.length
        pos := frame.length }
    mallocs := mallocs }

def bufferLost (w : World) (size : Nat) : World :=
  { w with
    client := { w.client with request := none, size := size }
    mallocs := w.mallocs + 1
    failures := w.failures + 1 }

@[simp] theorem emqClientSetError_apply (error : EmqError) (w : World) :
    emqClientSetError error w = .next () (withError error w) := rfl

@[simp] theorem bind_emqClientSetError {α : Type} (error : EmqError) (f : Unit → Emq α)
    (w : World) : (emqClientSetError error >>= f) w = f () (withError error w) := rfl

@[simp] theorem failWith_apply {α : Type} (error : EmqError) (w : World) :
    (failWith error : Emq α) w = .error (withError error w) := rfl

@[simp] theorem clearError_apply (w : World) :
    clearError w = .next () (withError .none w) := rfl

@[simp] theorem bind_clearError {α : Type} (f : Unit → Emq α) (w : World) :
    (clearError >>= f) w = f () (withError .none w) := rfl

@[simp] theorem updateClient_apply (f : EmqClient → EmqClient) (w : World) :
    updateClient f w = .next () { w with client := f w.client } := rfl

@[simp] theorem bind_updateClient {α : Type} (f : EmqClient → EmqClient) (g : Unit → Emq α)
    (w : World) : (updateClient f >>= g) w = g () { w with client := f w.client } := rfl

section WithError

variable (error : EmqError) (w : World)

@[simp] theorem withError_error :
    (withError error w).client.error = emqErrorArray error := rfl

@[simp] theorem withError_status : (withError error w).client.status = w.client.status := rfl

@[simp] theorem withError_request : (withError error w).client.request = w.client.request := rfl

@[simp] theorem withError_size : (withError error w).client.size = w.client.size := rfl

@[simp] theorem withError_pos : (withError error w).client.pos = w.client.pos := rfl

@[simp] theorem withError_noack : (withError error w).client.noack = w.client.noack := rfl

@[simp] theorem withError_queueSubscriptions :
    (withError error w).client.queueSubscriptions = w.client.queueSubscriptions := rfl

@[simp] theorem withError_channelSubscriptions :
    (withError error w).client.channelSubscriptions = w.client.channelSubscriptions := rfl

@[simp] theorem withError_input : (withError error w).input = w.input := rfl

@[simp] theorem withError_output : (withError error w).output = w.output := rfl

@[simp] theorem withError_reads : (withError error w).reads = w.reads := rfl

@[simp] theorem withError_writes : (withError error w).writes = w.writes := rfl

@[simp] theorem withError_mallocs : (withError error w).mallocs = w.mallocs := rfl

@[simp] theorem withError_failures : (withError error w).failures = w.failures := rfl

@[simp] theorem withError_trace : (withError error w).trace = w.trace := rfl

end WithError

theorem Request.bytes_length {r : Request} (h : r.Accepted) (noack : Bool) :
    (r.bytes noack).length = 8 + structSize r.command.layout := by
  have hbody : r.members.flatten.length = structSize r.command.layout := encode_length h
  simp only [Request.bytes, requestBytes, List.length_append, ProtocolRequestHeader.bytes,
    headerBytes_length, hbody]

theorem Request.bytes_length_le {r : Request} (h : r.Accepted) (noack : Bool) :
    (r.bytes noack).length ≤ 168 := by
  have := structSize_layout_le r.command
  rw [Request.bytes_length h]
  omega

theorem emqSetClientRequest_apply {frame buffer : List UInt8} {w : World}
    (hbuffer : w.client.request = some buffer) (hroom : frame.length ≤ buffer.length) :
    emqSetClientRequest frame w =
      .next ()
        { w with
          client :=
            { w.client with
              request := some (frame ++ buffer.drop frame.length)
              pos := frame.length } } := by
  simp [emqSetClientRequest, hbuffer, Nat.not_lt.mpr hroom]

section Realloc

variable {k : Kernel} {size : Nat} {w : World}

theorem emqCheckReallocClientRequest_kept (henough : ¬ w.client.size < size) :
    emqCheckReallocClientRequest k size w = .next .ok w := by
  simp [emqCheckReallocClientRequest, henough]

theorem emqCheckReallocClientRequest_lost (hsmall : w.client.size < size)
    (hmax : size ≤ emqMaxRequestSize) (hmalloc : k.malloc w.mallocs size = false) :
    emqCheckReallocClientRequest k size w = .next .err (bufferLost w size) := by
  simp only [emqCheckReallocClientRequest, Code.bind_reads, hsmall, if_true, gt_iff_lt,
    not_lt.mpr hmax, if_false]
  rw [Code.bind_of_next (malloc_refused hmalloc)]
  simp [bufferLost]

/-- The buffer after a successful `realloc`. -/
def grown (buffer : List UInt8) (size : Nat) : List UInt8 :=
  buffer ++ List.replicate (size - buffer.length) 0

theorem emqCheckReallocClientRequest_grown {buffer : List UInt8} (hsmall : w.client.size < size)
    (hmax : size ≤ emqMaxRequestSize) (hmalloc : k.malloc w.mallocs size = true)
    (hrequest : w.client.request = some buffer) :
    emqCheckReallocClientRequest k size w =
      .next .ok
        { w with
          client := { w.client with request := some (grown buffer size), size := size }
          mallocs := w.mallocs + 1 } := by
  simp only [emqCheckReallocClientRequest, Code.bind_reads, hsmall, if_true, gt_iff_lt,
    not_lt.mpr hmax, if_false]
  rw [Code.bind_of_next (malloc_granted hmalloc)]
  simp [hrequest, grown]

end Realloc

/-- What the request buffer holds behind the request, and how many allocations
were made, when the buffer was large enough to begin with. -/
def Room (w : World) (length : Nat) (rest : List UInt8) (mallocs : Nat) : Prop :=
  168 ≤ w.client.size → ∃ buffer, w.client.request = some buffer ∧
    rest = buffer.drop length ∧ length + rest.length = w.client.size ∧ mallocs = w.mallocs

inductive BuildOutcome (k : Kernel) (r : Request) (w : World) : Exit World Fault Status → Prop
  | rejected (h : ¬ r.Accepted) : BuildOutcome k r w (.next .err w)
  | exhausted (size : Nat) (h : r.Accepted) (hsmall : w.client.size < 168)
      (hmalloc : ¬ Kernel.MallocsOk k) : BuildOutcome k r w (.next .err (bufferLost w size))
  | built (rest : List UInt8) (mallocs : Nat) (h : r.Accepted)
      (hroom : Room w (r.bytes w.client.noack).length rest mallocs) :
      BuildOutcome k r w (.next .ok (framed w (r.bytes w.client.noack) rest mallocs))

theorem Request.build_outcome (k : Kernel) (r : Request) (w : World)
    (hbuffer : w.client.HasBuffer) : BuildOutcome k r w (r.build k w) := by
  rw [Request.build_eq, buildRequest]
  by_cases haccepted : r.Accepted
  · have hlimits := (Request.accepted_iff_limits r).mp haccepted
    have hfalse : ((stringLimits r.command.layout r.values).any
        fun p => decide (strlenz p.1 > p.2)) = false := by
      rw [List.any_eq_false]
      intro p hp
      have := hlimits p hp
      simp only [decide_eq_true_eq]
      omega
    obtain ⟨buffer, hrequest, hlength⟩ := hbuffer
    have hbytes : requestBytes r.command w.client.noack r.members r.msgSize =
        r.bytes w.client.noack := rfl
    have hle := Request.bytes_length_le haccepted w.client.noack
    simp only [hfalse, Bool.false_eq_true, if_false, Code.bind_reads, hbytes]
    generalize hframe : r.bytes w.client.noack = frame at hle
    by_cases hsmall : w.client.size < frame.length
    · have hmax : frame.length ≤ emqMaxRequestSize := hle.trans (by decide)
      cases hmalloc : k.malloc w.mallocs frame.length with
      | false =>
          rw [Code.bind_of_next (emqCheckReallocClientRequest_lost hsmall hmax hmalloc)]
          refine .exhausted frame.length haccepted (by omega) ?_
          intro hok
          simp [hok w.mallocs frame.length] at hmalloc
      | true =>
          have hgrown : (grown buffer frame.length).length = frame.length := by
            simp only [grown, List.length_append, List.length_replicate]
            omega
          rw [Code.bind_of_next
            (emqCheckReallocClientRequest_grown hsmall hmax hmalloc hrequest)]
          have hset := @emqSetClientRequest_apply frame _
            { w with
              client :=
                { w.client with
                  request := some (grown buffer frame.length)
                  size := frame.length }
              mallocs := w.mallocs + 1 } rfl hgrown.ge
          simp only
          rw [Code.bind_of_next hset, List.drop_eq_nil_of_le hgrown.le]
          have hbuilt := @BuildOutcome.built k r w [] (w.mallocs + 1) haccepted
            (fun hroom => by omega)
          rw [hframe] at hbuilt
          simpa [framed] using hbuilt
    · have hcheck := emqCheckReallocClientRequest_kept (k := k) hsmall
      have hset := @emqSetClientRequest_apply frame _ _ hrequest (by omega)
      have hdrop : frame.length + (buffer.drop frame.length).length = w.client.size := by
        rw [List.length_drop]
        omega
      rw [Code.bind_of_next hcheck]
      simp only
      rw [Code.bind_of_next hset]
      have hbuilt := @BuildOutcome.built k r w (buffer.drop frame.length) w.mallocs haccepted
        (fun _ => ⟨buffer, hrequest, by rw [hframe], by rw [hframe, hdrop], rfl⟩)
      rw [hframe, framed, hdrop] at hbuilt
      exact hbuilt
  · have hlimits := haccepted
    rw [Request.accepted_iff_limits] at hlimits
    push Not at hlimits
    obtain ⟨p, hp, hlong⟩ := hlimits
    have htrue : ((stringLimits r.command.layout r.values).any
        fun p => decide (strlenz p.1 > p.2)) = true := by
      rw [List.any_eq_true]
      exact ⟨p, hp, by simpa using hlong⟩
    simp only [htrue, if_true]
    exact .rejected haccepted

/-- Everything that a request puts on the wire: its frame and what follows it. -/
def wire (r : Request) (parts : Parts) (noack : Bool) : List UInt8 :=
  r.bytes noack ++ (parts.getD []).flatten

/-- Starting with this call, the kernel takes less than so many bytes without
reporting an error. -/
def Stalls (k : Kernel) (call size : Nat) : Parts → Prop
  | none => WriteStalls k call size
  | some _ => ∃ m, writevResult k call size = some m ∧ m < size ∧ toInt m ≠ -1

/-- The count that `writev` returns for the call reads as `-1` in an `int`. -/
def Misread (k : Kernel) (call size : Nat) : Parts → Prop
  | none => False
  | some _ => ∃ m, writevResult k call size = some m ∧ toInt (min m size : Nat) = -1

inductive IssueOutcome (k : Kernel) (valid : Bool) (r : Request) (parts : Parts) (w : World) :
    Exit World Fault Unit → Prop
  | refused (h : valid = false ∨ ¬ r.Accepted) :
      IssueOutcome k valid r parts w (.error (withError .data w))
  | exhausted (size : Nat) (hvalid : valid = true) (h : r.Accepted)
      (hsmall : w.client.size < 168) (hmalloc : ¬ Kernel.MallocsOk k) :
      IssueOutcome k valid r parts w (.error (withError .data (bufferLost w size)))
  | failed (n writes failures : Nat) (rest : List UInt8) (mallocs : Nat)
      (hvalid : valid = true) (h : r.Accepted)
      (hroom : Room w (r.bytes w.client.noack).length rest mallocs)
      (hstall : ¬ Stalls k w.writes (wire r parts w.client.noack).length parts)
      (hcause : (¬ Kernel.WritesOk k ∧ failures = w.failures + 1) ∨
        (Misread k w.writes (wire r parts w.client.noack).length parts ∧
          failures = w.failures))
      (hwhole : Kernel.WritesOk k → (wire r parts w.client.noack).length ≤ n) :
      IssueOutcome k valid r parts w
        (.error (withError .write (sent (framed w (r.bytes w.client.noack) rest mallocs)
          ((wire r parts w.client.noack).take n) writes failures)))
  | short (n writes : Nat) (rest : List UInt8) (mallocs : Nat)
      (hvalid : valid = true) (h : r.Accepted)
      (hroom : Room w (r.bytes w.client.noack).length rest mallocs)
      (hn : n < (wire r parts w.client.noack).length)
      (hstall : Stalls k w.writes (wire r parts w.client.noack).length parts)
      (hread : ¬ Misread k w.writes (wire r parts w.client.noack).length parts) :
      IssueOutcome k valid r parts w
        (.next () (sent (framed w (r.bytes w.client.noack) rest mallocs)
          ((wire r parts w.client.noack).take n) writes w.failures))
  | whole (writes : Nat) (rest : List UInt8) (mallocs : Nat)
      (hvalid : valid = true) (h : r.Accepted)
      (hroom : Room w (r.bytes w.client.noack).length rest mallocs)
      (hstall : ¬ Stalls k w.writes (wire r parts w.client.noack).length parts)
      (hread : ¬ Misread k w.writes (wire r parts w.client.noack).length parts) :
      IssueOutcome k valid r parts w
        (.next () (sent (framed w (r.bytes w.client.noack) rest mallocs)
          (wire r parts w.client.noack) writes w.failures))

theorem framed_pending (w : World) (frame rest : List UInt8) (mallocs : Nat) :
    EmqClient.pending (framed w frame rest mallocs).client = frame := by
  simp [EmqClient.pending, framed]

theorem framed_pos (w : World) (frame rest : List UInt8) (mallocs : Nat) :
    (framed w frame rest mallocs).client.pos = frame.length := rfl

theorem writeRequest_apply (k : Kernel) (w : World) :
    writeRequest k w =
      (emqClientWrite k (EmqClient.pending w.client) (toInt w.client.pos) >>= fun ret =>
        if ret = -1 then failWith .write else pure ()) w := by
  rw [writeRequest, Code.bind_reads]

theorem writevRequest_apply (k : Kernel) (parts : List (List UInt8)) (w : World) :
    writevRequest k parts w =
      (emqClientWritev k (EmqClient.pending w.client :: parts) >>= fun ret =>
        if ret = -1 then failWith .write else pure ()) w := by
  rw [writevRequest, Code.bind_reads]

theorem writeRequest_outcome (k : Kernel) {r : Request} {w : World} {rest : List UInt8}
    {mallocs : Nat} (h : r.Accepted)
    (hroom : Room w (r.bytes w.client.noack).length rest mallocs) :
    IssueOutcome k true r none w
      (writeRequest k (framed w (r.bytes w.client.noack) rest mallocs)) := by
  have hle := Request.bytes_length_le h w.client.noack
  have hwire : wire r none w.client.noack = r.bytes w.client.noack := by
    simp [wire]
  have hsize : (r.bytes w.client.noack).length ≤ intMax := hle.trans (by decide)
  have houtcome := emqClientWrite_outcome k (r.bytes w.client.noack) hsize
    (framed w (r.bytes w.client.noack) rest mallocs)
  rw [writeRequest_apply, framed_pending, framed_pos, toInt_natCast hsize]
  generalize hcall : emqClientWrite k _ _ _ = exit at houtcome
  cases houtcome with
  | whole writes hstall =>
      rw [Code.bind_of_next hcall, if_neg (by omega)]
      have := @IssueOutcome.whole k true r none w writes rest
        mallocs rfl h hroom (by rwa [hwire]) not_false
      rwa [hwire] at this
  | short n writes hn hstall =>
      rw [Code.bind_of_next hcall, if_neg (by omega)]
      have := @IssueOutcome.short k true r none w n writes
        rest mallocs rfl h hroom (by rwa [hwire]) (by rwa [hwire]) not_false
      rwa [hwire] at this
  | failed n writes hn hstall hfail =>
      rw [Code.bind_of_next hcall, if_pos rfl, failWith_apply]
      have := @IssueOutcome.failed k true r none w n writes
        (w.failures + 1) rest mallocs rfl h hroom (by rwa [hwire]) (.inl ⟨hfail, rfl⟩)
        (fun hok => absurd hok hfail)
      rwa [hwire] at this

theorem writevRequest_outcome (k : Kernel) {r : Request} {w : World} {rest : List UInt8}
    {mallocs : Nat} {parts : List (List UInt8)} (h : r.Accepted)
    (hroom : Room w (r.bytes w.client.noack).length rest mallocs) :
    IssueOutcome k true r (some parts) w
      (writevRequest k parts (framed w (r.bytes w.client.noack) rest mallocs)) := by
  have hwire : (r.bytes w.client.noack :: parts).flatten = wire r (some parts) w.client.noack := by
    simp [wire]
  have hcall := emqClientWritev_eq k (r.bytes w.client.noack :: parts)
    (framed w (r.bytes w.client.noack) rest mallocs)
  have hwrites : (framed w (r.bytes w.client.noack) rest mallocs).writes = w.writes := rfl
  rw [writevRequest_apply, framed_pending]
  rw [hwire, hwrites] at hcall
  cases hresult : writevResult k w.writes (wire r (some parts) w.client.noack).length with
  | none =>
      rw [hresult] at hcall
      have hfail : ¬ Kernel.WritesOk k := by
        intro hok
        obtain ⟨m, -, hm⟩ := hok.writev (w.writes + k.interrupts w.writes)
          (wire r (some parts) w.client.noack).length
        simp [writevResult, hm] at hresult
      rw [Code.bind_of_next hcall, if_pos rfl, failWith_apply]
      refine .failed 0 _ (w.failures + 1) rest mallocs rfl h hroom ?_ (.inl ⟨hfail, rfl⟩)
        (fun hok => absurd hok hfail)
      rintro ⟨m, hm, -⟩
      simp [hresult] at hm
  | some m =>
      rw [hresult] at hcall
      rw [Code.bind_of_next hcall]
      have hmisread : Misread k w.writes (wire r (some parts) w.client.noack).length
          (some parts) ↔ toInt (min m (wire r (some parts) w.client.noack).length : Nat) = -1 := by
        simp [Misread, hresult]
      have hstalls : Stalls k w.writes (wire r (some parts) w.client.noack).length
          (some parts) ↔ m < (wire r (some parts) w.client.noack).length ∧ toInt m ≠ -1 := by
        simp [Stalls, hresult]
      by_cases hwrap : toInt (min m (wire r (some parts) w.client.noack).length : Nat) = -1
      · rw [if_pos hwrap, failWith_apply]
        refine .failed m _ w.failures rest mallocs rfl h hroom ?_
          (.inr ⟨hmisread.mpr hwrap, rfl⟩) ?_
        · rw [hstalls]
          rintro ⟨hlt, hne⟩
          rw [Nat.min_eq_left hlt.le] at hwrap
          exact hne hwrap
        · intro hok
          obtain ⟨m', hle, hm'⟩ := hok.writev (w.writes + k.interrupts w.writes)
            (wire r (some parts) w.client.noack).length
          rw [writevResult, hm'] at hresult
          cases hresult
          exact hle
      · rw [if_neg hwrap]
        by_cases hall : (wire r (some parts) w.client.noack).length ≤ m
        · rw [List.take_of_length_le hall]
          exact .whole _ rest mallocs rfl h hroom (fun hstall => by
            have := (hstalls.mp hstall).1
            omega) (fun hread => hwrap (hmisread.mp hread))
        · rw [Nat.min_eq_left (by omega)] at hwrap
          exact .short m _ rest mallocs rfl h hroom (by omega)
            (hstalls.mpr ⟨by omega, hwrap⟩) (fun hread => by
              have := hmisread.mp hread
              rw [Nat.min_eq_left (by omega)] at this
              exact hwrap this)

/-- One spec for everything a call does before it looks at the response. -/
theorem issueRequest_outcome (k : Kernel) (valid : Bool) (r : Request) (parts : Parts)
    (w : World) (hbuffer : w.client.HasBuffer) :
    IssueOutcome k valid r parts w (issueRequest k valid (r.build k) parts w) := by
  cases valid with
  | false =>
      simp only [issueRequest, Bool.false_eq_true, if_false, failWith_apply]
      exact .refused (.inl rfl)
  | true =>
      have houtcome := Request.build_outcome k r w hbuffer
      simp only [issueRequest, if_true]
      generalize hbuild : r.build k w = exit at houtcome
      cases houtcome with
      | rejected h =>
          rw [Code.bind_of_next hbuild]
          exact .refused (.inr h)
      | exhausted size h hsmall hmalloc =>
          rw [Code.bind_of_next hbuild]
          exact .exhausted size rfl h hsmall hmalloc
      | built rest mallocs h hroom =>
          rw [Code.bind_of_next hbuild]
          cases parts with
          | none => exact writeRequest_outcome k h hroom
          | some parts => exact writevRequest_outcome k h hroom

theorem issueRequest_ne_fault {k : Kernel} {valid : Bool} {r : Request} {parts : Parts}
    {w s : World} (hbuffer : w.client.HasBuffer) {reason : Fault} :
    issueRequest k valid (r.build k) parts w ≠ .fault reason s := by
  intro h
  have houtcome := issueRequest_outcome k valid r parts w hbuffer
  rw [h] at houtcome
  generalize hexit : Exit.fault reason s = exit at houtcome
  cases houtcome <;> cases hexit

end Libemq.Transactions
