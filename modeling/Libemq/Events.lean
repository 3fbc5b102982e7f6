import Libemq.Calls

namespace Libemq.Events

open Libemq.CStrings
open Libemq.ExitCode
open Libemq.Client
open Libemq.Network
open Libemq.Protocol
open Libemq.Packet
open Libemq.Commands
open Libemq.Transactions
open Libemq.Responses

/-- A callback with the arguments it is about to get. -/
abbrev Delivery := CallbackPtr × CallbackArgs

/-- Read one array of an event. Nothing stands for `return -1`. -/
def readArray (k : Kernel) (size : Nat) : Emq (Option (List UInt8)) := do
  match ← emqClientRead k size with
  | none => do
      emqClientSetError .read
      pure none
  | some bytes => pure (some bytes)

/-- The part of `emq_queue_process` before the callback. Nothing stands for
`return -1`. -/
def emqQueueReceive (k : Kernel) (header : ProtocolEventHeader) : Emq (Option Delivery) := do
  match ← readArray k 64 with
  | none => pure none
  | some name =>
      let list ← Code.reads fun w => w.client.queueSubscriptions
      match list.find? fun s => strcmpEq s.name.array name with
      | none => pure none
      | some subscription =>
          if header.type = emqProtocolEventMessage then
            match ← emqReadMessage k ((header.bodylen.toNat + 4294967296 - 64) % 4294967296) with
            | none => pure none
            | some msg =>
                pure (some (subscription.callback,
                  ⟨.queue, subscription.name.array, none, none, some msg⟩))
          else
            pure (some (subscription.callback,
              ⟨.queue, subscription.name.array, none, none, none⟩))

def readPattern (k : Kernel) (extended : Bool) : Emq (Option (Option (List UInt8))) :=
  if extended then do
    match ← readArray k 32 with
    | none => pure none
    | some pattern => pure (some (some pattern))
  else pure (some none)

def emqChannelReceive (k : Kernel) (header : ProtocolEventHeader) (extended : Bool) :
    Emq (Option Delivery) := do
  match ← readArray k 64 with
  | none => pure none
  | some name =>
      match ← readArray k 32 with
      | none => pure none
      | some topic =>
          match ← readPattern k extended with
          | none => pure none
          | some pattern =>
              let list ← Code.reads fun w => w.client.channelSubscriptions
              match list.find? fun s => strcmpEq s.name.array name with
              | none => pure none
              | some subscription =>
                  match ← emqReadMessage k ((header.bodylen.toNat + 4294967296 -
                    (if extended then 128 else 96)) % 4294967296) with
                  | none => pure none
                  | some msg =>
                      pure (some (subscription.callback,
                        ⟨.channel, subscription.name.array, some topic, pattern, some msg⟩))

def invoke (callbacks : Callbacks) (delivery : Delivery) : Emq Int := fun w =>
  match callbacks delivery.1 delivery.2
    { w with trace := w.trace ++ [.invoked delivery.1 delivery.2] } with
  | .returned ret w' => .next ret w'
  | .fault reason w' => .fault reason w'

/-- The end of `emq_queue_process` and of `emq_channel_process`. Both look at the
queue subscriptions. -/
def deliver (callbacks : Callbacks) : Option Delivery → Emq Int
  | none => pure (-1)
  | some delivery => do
      let ret ← invoke callbacks delivery
      let length ← Code.reads fun w => w.client.queueSubscriptions.length
      if ret ≠ 0 ∧ length = 0 then pure 1 else pure 0

def emqQueueProcess (k : Kernel) (callbacks : Callbacks) (header : ProtocolEventHeader) :
    Emq Int := do
  deliver callbacks (← emqQueueReceive k header)

def emqChannelProcess (k : Kernel) (callbacks : Callbacks) (header : ProtocolEventHeader)
    (extended : Bool) : Emq Int := do
  deliver callbacks (← emqChannelReceive k header extended)

def readEventHeader (k : Kernel) : Emq ProtocolEventHeader := do
  match ← emqClientRead k 8 with
  | none => failWith .read
  | some bytes =>
      let header := ProtocolEventHeader.parse bytes
      if emqCheckEventHeader header emqProtocolEventNotify emqProtocolEventMessage = .err then
        failWith .read
      else if header.cmd ≠ ProtocolCommand.queueSubscribe.code ∧
          header.cmd ≠ ProtocolCommand.channelSubscribe.code ∧
          header.cmd ≠ ProtocolCommand.channelPsubscribe.code then
        failWith .read
      else pure header

/-- The first `switch` of `emq_process`. -/
def dispatch (k : Kernel) (callbacks : Callbacks) (header : ProtocolEventHeader) : Emq Int :=
  if header.cmd = ProtocolCommand.queueSubscribe.code then
    emqQueueProcess k callbacks header
  else if header.cmd = ProtocolCommand.channelSubscribe.code then
    emqChannelProcess k callbacks header false
  else emqChannelProcess k callbacks header true

def Idle (c : EmqClient) : Prop :=
  c.queueSubscriptions.length = 0 ∧ c.channelSubscriptions.length = 0

instance (c : EmqClient) : Decidable (Idle c) := by
  unfold Idle
  infer_instance

def emqProcessLoop (k : Kernel) (callbacks : Callbacks) : (fuel : Nat) → Emq Unit
  | 0 => Code.undefined .outOfFuel
  | fuel + 1 => do
      let client ← Code.reads fun w => w.client
      if Idle client then pure ()
      else
        let header ← readEventHeader k
        let status ← dispatch k callbacks header
        if status = 1 then pure ()
        else if status = -1 then Code.raise
        else emqProcessLoop k callbacks fuel

def emqProcess (k : Kernel) (callbacks : Callbacks) : World → Result Status :=
  Code.body (setStatus .ok) (setStatus .err) .err do
    clearError
    let fuel ← Code.reads fun w => w.input.length + 1
    emqProcessLoop k callbacks fuel
    pure .ok

def receiveBody (k : Kernel) (header : ProtocolEventHeader) : Emq (Option Delivery) :=
  if header.cmd = ProtocolCommand.queueSubscribe.code then emqQueueReceive k header
  else if header.cmd = ProtocolCommand.channelSubscribe.code then
    emqChannelReceive k header false
  else emqChannelReceive k header true

/-- Receive one event. A failure leaves the loop. -/
def receiveEvent (k : Kernel) : Emq Delivery := do
  let header ← readEventHeader k
  match ← receiveBody k header with
  | none => Code.raise
  | some delivery => pure delivery

theorem dispatch_eq (k : Kernel) (callbacks : Callbacks) (header : ProtocolEventHeader) :
    dispatch k callbacks header = receiveBody k header >>= deliver callbacks := by
  unfold dispatch receiveBody
  split
  · rfl
  · split <;> rfl

theorem emqProcessLoop_succ (k : Kernel) (callbacks : Callbacks) (fuel : Nat) (w : World) :
    emqProcessLoop k callbacks (fuel + 1) w =
      if Idle w.client then .next () w
      else
        (receiveEvent k >>= fun delivery => invoke callbacks delivery >>= fun ret =>
          Code.reads (fun w => w.client.queueSubscriptions.length) >>= fun length =>
            if ret ≠ 0 ∧ length = 0 then pure () else emqProcessLoop k callbacks fuel) w := by
  simp only [emqProcessLoop, Code.bind_reads]
  split
  · rfl
  · rw [receiveEvent, Code.bind_bind]
    cases hheader : readEventHeader k w with
    | error w' => rw [Code.bind_of_error hheader, Code.bind_of_error hheader]
    | fault reason w' => rw [Code.bind_of_fault hheader, Code.bind_of_fault hheader]
    | next header w' =>
        rw [Code.bind_of_next hheader, Code.bind_of_next hheader, dispatch_eq, Code.bind_bind,
          Code.bind_bind]
        cases hbody : receiveBody k header w' with
        | error w'' => rw [Code.bind_of_error hbody, Code.bind_of_error hbody]
        | fault reason w'' => rw [Code.bind_of_fault hbody, Code.bind_of_fault hbody]
        | next delivery w'' =>
            rw [Code.bind_of_next hbody, Code.bind_of_next hbody]
            cases delivery with
            | none => simp [deliver]
            | some delivery =>
                simp only [deliver, Code.bind_bind, Code.pure_bind]
                cases hinvoke : invoke callbacks delivery w'' with
                | error s => rw [Code.bind_of_error hinvoke, Code.bind_of_error hinvoke]
                | fault reason s => rw [Code.bind_of_fault hinvoke, Code.bind_of_fault hinvoke]
                | next ret s =>
                    rw [Code.bind_of_next hinvoke, Code.bind_of_next hinvoke, Code.bind_reads,
                      Code.bind_reads]
                    split <;> simp

/-- The header is one of an event that the client knows. -/
def WellFormed (header : ProtocolEventHeader) : Prop :=
  emqCheckEventHeader header emqProtocolEventNotify emqProtocolEventMessage = .ok ∧
    (header.cmd = ProtocolCommand.queueSubscribe.code ∨
      header.cmd = ProtocolCommand.channelSubscribe.code ∨
      header.cmd = ProtocolCommand.channelPsubscribe.code)

instance (header : ProtocolEventHeader) : Decidable (WellFormed header) := by
  unfold WellFormed
  infer_instance

/-- The size of the arrays in front of the message of an event. -/
def prefixSize (header : ProtocolEventHeader) : Nat :=
  if header.cmd = ProtocolCommand.queueSubscribe.code then 64
  else if header.cmd = ProtocolCommand.channelSubscribe.code then 96
  else 128

theorem prefixSize_ge (header : ProtocolEventHeader) : 64 ≤ prefixSize header := by
  unfold prefixSize
  split
  · exact le_refl _
  · split <;> decide

theorem prefixSize_le (header : ProtocolEventHeader) : prefixSize header ≤ 128 := by
  unfold prefixSize
  split
  · decide
  · split <;> decide

def arraySizes (header : ProtocolEventHeader) : List Nat :=
  if header.cmd = ProtocolCommand.queueSubscribe.code then [64]
  else if header.cmd = ProtocolCommand.channelSubscribe.code then [64, 32]
  else [64, 32, 32]

/-- Whether a message is read after the arrays. -/
def hasMessage (header : ProtocolEventHeader) : Prop :=
  header.cmd = ProtocolCommand.queueSubscribe.code → header.type = emqProtocolEventMessage

instance (header : ProtocolEventHeader) : Decidable (hasMessage header) := by
  unfold hasMessage
  infer_instance

def messageSize (header : ProtocolEventHeader) : Nat :=
  if hasMessage header then
    (header.bodylen.toNat + 4294967296 - prefixSize header) % 4294967296
  else 0

theorem messageSize_lt (header : ProtocolEventHeader) : messageSize header < 4294967296 := by
  unfold messageSize
  split
  · exact Nat.mod_lt _ (by decide)
  · decide

/-- The callback of the first subscription of the right list with this name, and
the name that it is given. -/
def subscriber (header : ProtocolEventHeader) (c : EmqClient) (name : List UInt8) :
    Option (CallbackPtr × List UInt8) :=
  if header.cmd = ProtocolCommand.queueSubscribe.code then
    (c.queueSubscriptions.find? fun s => strcmpEq s.name.array name).map fun s =>
      (s.callback, s.name.array)
  else
    (c.channelSubscriptions.find? fun s => strcmpEq s.name.array name).map fun s =>
      (s.callback, s.name.array)

/-- The message that follows the arrays of an event. -/
def eventMsg (header : ProtocolEventHeader) (body : List UInt8) : Option EmqMsg :=
  if hasMessage header then
    some ⟨(body.drop (prefixSize header)).take (messageSize header), 0, 0, false⟩
  else none

/-- What a callback is given for an event with this body. -/
def eventArgs (header : ProtocolEventHeader) (name body : List UInt8) : CallbackArgs :=
  if header.cmd = ProtocolCommand.queueSubscribe.code then
    ⟨.queue, name, none, none, eventMsg header body⟩
  else if header.cmd = ProtocolCommand.channelSubscribe.code then
    ⟨.channel, name, some ((body.drop 64).take 32), none, eventMsg header body⟩
  else
    ⟨.channel, name, some ((body.drop 64).take 32), some ((body.drop 96).take 32),
      eventMsg header body⟩

/-- What receiving an event can do. -/
inductive ReceiveOutcome (k : Kernel) (w : World) : Exit World Fault Delivery → Prop
  | unread (dropped reads : Nat) (hreads : w.reads < reads)
      (hend : Kernel.ReadsOk k → w.input.length < 8 ∧ w.input.length ≤ dropped) :
      ReceiveOutcome k w (.error (withError .read (received w dropped reads (w.failures + 1))))
  | malformed (reads : Nat) (hreads : w.reads < reads) (henough : 8 ≤ w.input.length)
      (hheader : ¬ WellFormed (.parse w.input)) :
      ReceiveOutcome k w (.error (withError .read (received w 8 reads w.failures)))
  | unregistered (reads : Nat) (hreads : w.reads < reads) (hheader : WellFormed (.parse w.input))
      (henough : 8 + prefixSize (.parse w.input) ≤ w.input.length)
      (hnone : subscriber (.parse w.input) w.client ((w.input.drop 8).take 64) = none)
      (hdelivers : Delivers k w.reads (8 :: arraySizes (.parse w.input))) :
      ReceiveOutcome k w
        (.error (received w (8 + prefixSize (.parse w.input)) reads w.failures))
  | truncated (error : EmqError) (dropped reads mallocs failures : Nat) (hreads : w.reads < reads)
      (hheader : WellFormed (.parse w.input)) (hfailures : w.failures < failures)
      (hcause : Kernel.ReadsOk k → Kernel.MallocsOk k →
        w.input.length < 8 + prefixSize (.parse w.input) + messageSize (.parse w.input) ∨
          intMax < messageSize (.parse w.input)) :
      ReceiveOutcome k w
        (.error (withError error (consumed w dropped reads mallocs failures)))
  | complete (callback : CallbackPtr) (name : List UInt8) (reads mallocs : Nat)
      (hreads : w.reads < reads) (hheader : WellFormed (.parse w.input))
      (hsome : subscriber (.parse w.input) w.client ((w.input.drop 8).take 64) =
        some (callback, name))
      (henough : 8 + prefixSize (.parse w.input) + messageSize (.parse w.input) ≤
        w.input.length)
      (hle : messageSize (.parse w.input) ≤ intMax) :
      ReceiveOutcome k w
        (.next (callback, eventArgs (.parse w.input) name (w.input.drop 8))
          (consumed w (8 + prefixSize (.parse w.input) + messageSize (.parse w.input)) reads
            mallocs w.failures))
  | faulted (reason : Fault) (w' : World) (hle : intMax < messageSize (.parse w.input)) :
      ReceiveOutcome k w (.fault reason w')

inductive ArrayOutcome (k : Kernel) (size : Nat) (w : World) :
    Exit World Fault (Option (List UInt8)) → Prop
  | whole (reads : Nat) (henough : size ≤ w.input.length) (hreads : w.reads ≤ reads)
      (hdelivers : ∀ counts, Delivers k w.reads (size :: counts) ↔ Delivers k reads counts) :
      ArrayOutcome k size w
        (.next (some (w.input.take size)) (received w size reads w.failures))
  | failed (dropped reads : Nat) (hreads : w.reads ≤ reads)
      (hend : Kernel.ReadsOk k → w.input.length < size)
      (hcut : size ≤ w.input.length → ∀ counts, ¬ Delivers k w.reads (size :: counts)) :
      ArrayOutcome k size w
        (.next none (withError .read (received w dropped reads (w.failures + 1))))

theorem readArray_outcome (k : Kernel) {size : Nat} (hsize : size ≤ intMax) (w : World) :
    ArrayOutcome k size w (readArray k size w) := by
  have houtcome := emqClientRead_outcome k hsize w
  unfold readArray
  generalize hread : emqClientRead k size w = exit at houtcome
  cases houtcome with
  | whole reads henough hreads hpos hdelivers =>
      rw [Code.bind_of_next hread]
      exact .whole reads henough hreads hdelivers
  | failed dropped reads hreads hend hcut =>
      rw [Code.bind_of_next hread]
      exact .failed dropped reads (by omega) (fun hok => (hend hok).1) hcut

inductive ReceiveBodyOutcome (k : Kernel) (header : ProtocolEventHeader) (w : World) :
    Exit World Fault (Option Delivery) → Prop
  | unregistered (reads : Nat) (hreads : w.reads ≤ reads)
      (henough : prefixSize header ≤ w.input.length)
      (hnone : subscriber header w.client (w.input.take 64) = none)
      (hdelivers : Delivers k w.reads (arraySizes header)) :
      ReceiveBodyOutcome k header w
        (.next none (received w (prefixSize header) reads w.failures))
  | truncated (error : EmqError) (dropped reads mallocs failures : Nat) (hreads : w.reads ≤ reads)
      (hfailures : w.failures < failures)
      (hcause : Kernel.ReadsOk k → Kernel.MallocsOk k →
        w.input.length < prefixSize header + messageSize header ∨ intMax < messageSize header) :
      ReceiveBodyOutcome k header w
        (.next none (withError error (consumed w dropped reads mallocs failures)))
  | complete (callback : CallbackPtr) (name : List UInt8) (reads mallocs : Nat)
      (hreads : w.reads ≤ reads)
      (hsome : subscriber header w.client (w.input.take 64) = some (callback, name))
      (henough : prefixSize header + messageSize header ≤ w.input.length)
      (hle : messageSize header ≤ intMax) :
      ReceiveBodyOutcome k header w
        (.next (some (callback, eventArgs header name w.input))
          (consumed w (prefixSize header + messageSize header) reads mallocs w.failures))
  | faulted (reason : Fault) (w' : World) (hle : intMax < messageSize header) :
      ReceiveBodyOutcome k header w (.fault reason w')

theorem receiveMessage_outcome (k : Kernel) (header : ProtocolEventHeader) (w : World)
    {callback : CallbackPtr} {name : List UInt8} {reads : Nat} (hreads : w.reads ≤ reads)
    (hmessage : hasMessage header)
    (hsome : subscriber header w.client (w.input.take 64) = some (callback, name))
    (henough : prefixSize header ≤ w.input.length)
    (f : Option EmqMsg → Emq (Option Delivery))
    (hfail : f none = pure none)
    (hwhole : f (eventMsg header w.input) =
      pure (some (callback, eventArgs header name w.input))) :
    ReceiveBodyOutcome k header w
      ((emqReadMessage k ((header.bodylen.toNat + 4294967296 - prefixSize header) % 4294967296)
        >>= f) (received w (prefixSize header) reads w.failures)) := by
  have hsize : messageSize header =
      (header.bodylen.toNat + 4294967296 - prefixSize header) % 4294967296 := if_pos hmessage
  rw [← hsize]
  have houtcome := emqReadMessage_outcome k (size_cases (messageSize_lt header))
    (received w (prefixSize header) reads w.failures)
  generalize hrun : emqReadMessage k _ _ = exit at houtcome
  cases houtcome with
  | whole reads' mallocs hle henough' hreads' =>
      rw [Code.bind_of_next hrun]
      simp only [received_input, List.length_drop] at henough'
      have hmsg : eventMsg header w.input =
          some ⟨(w.input.drop (prefixSize header)).take (messageSize header), 0, 0, false⟩ :=
        if_pos hmessage
      rw [received_input, ← hmsg, hwhole, Code.pure_apply]
      have := @ReceiveBodyOutcome.complete k header w callback name
        reads' mallocs (le_trans hreads hreads') hsome (by omega) hle
      simpa [consumed, received] using this
  | failed error dropped reads' mallocs failures hreads' hfailures hcause =>
      rw [Code.bind_of_next hrun, hfail, Code.pure_apply]
      have := @ReceiveBodyOutcome.truncated k header w error
        (prefixSize header + dropped) reads' mallocs failures (le_trans hreads hreads') hfailures
        (fun hok hmalloc => by
          have := hcause hok hmalloc
          simp only [received_input, List.length_drop] at this
          omega)
      simpa [consumed, received, withError] using this
  | faulted reason w' hle =>
      rw [Code.bind_of_fault hrun]
      exact .faulted reason w' hle

theorem ReceiveBodyOutcome.short {k : Kernel} {header : ProtocolEventHeader} {w : World}
    {error : EmqError} {dropped reads failures : Nat} (hreads : w.reads ≤ reads)
    (hfailures : w.failures < failures)
    (hend : Kernel.ReadsOk k → w.input.length < prefixSize header) :
    ReceiveBodyOutcome k header w
      (.next none (withError error (received w dropped reads failures))) := by
  have := @ReceiveBodyOutcome.truncated k header w error dropped reads w.mallocs failures hreads
    hfailures (fun hok _ => .inl (by
      have := hend hok
      omega))
  exact this

theorem emqQueueReceive_outcome (k : Kernel) (header : ProtocolEventHeader)
    (hcmd : header.cmd = ProtocolCommand.queueSubscribe.code) (w : World) :
    ReceiveBodyOutcome k header w (emqQueueReceive k header w) := by
  have harrays : prefixSize header = 64 := if_pos hcmd
  have hcounts : arraySizes header = [64] := if_pos hcmd
  have hsubscriber : ∀ c name, subscriber header c name =
      (c.queueSubscriptions.find? fun s => strcmpEq s.name.array name).map fun s =>
        (s.callback, s.name.array) := fun c name => if_pos hcmd
  have houtcome := @readArray_outcome k 64 (by decide) w
  unfold emqQueueReceive
  generalize hread : readArray k 64 w = exit at houtcome
  cases houtcome with
  | failed dropped reads hreads hend =>
      rw [Code.bind_of_next hread]
      exact .short hreads (by omega) (fun hok => by
        have := hend hok
        omega)
  | whole reads henough hreads hdelivers =>
      rw [Code.bind_of_next hread]
      simp only [Code.bind_reads]
      have hfind := hsubscriber w.client (w.input.take 64)
      cases hlookup : w.client.queueSubscriptions.find? fun s =>
        strcmpEq s.name.array (w.input.take 64) with
      | none =>
          simp only [received_client, hlookup]
          rw [hlookup] at hfind
          have := @ReceiveBodyOutcome.unregistered k header w reads
            hreads (by omega) hfind (hcounts ▸ (hdelivers []).mpr (.done _))
          rwa [harrays] at this
      | some subscription =>
          simp only [received_client, hlookup]
          rw [hlookup] at hfind
          by_cases htype : header.type = emqProtocolEventMessage
          · have hmessage : hasMessage header := fun _ => htype
            rw [if_pos htype]
            have := receiveMessage_outcome k header w hreads hmessage hfind (by omega)
              (fun msg =>
                match msg with
                | none => pure none
                | some msg => pure (some (subscription.callback,
                    ⟨.queue, subscription.name.array, none, none, some msg⟩)))
              rfl (by simp [eventMsg, hmessage, eventArgs, hcmd])
            rwa [harrays] at this
          · have hmessage : ¬ hasMessage header := fun h => htype (h hcmd)
            have hzero : messageSize header = 0 := if_neg hmessage
            rw [if_neg htype, Code.pure_apply]
            have := @ReceiveBodyOutcome.complete k header w _ _ reads
              w.mallocs hreads hfind (by omega) (by omega)
            rw [harrays, hzero] at this
            simpa [eventArgs, hcmd, eventMsg, hmessage, consumed, received] using this

theorem readPattern_outcome (k : Kernel) (extended : Bool) (w : World) :
    (∃ reads, w.reads ≤ reads ∧ (if extended then 32 else 0) ≤ w.input.length ∧
      (∀ counts, Delivers k w.reads ((if extended then [32] else []) ++ counts) ↔
        Delivers k reads counts) ∧
      readPattern k extended w =
        .next (some (if extended then some (w.input.take 32) else none))
          (received w (if extended then 32 else 0) reads w.failures)) ∨
    ∃ dropped reads, w.reads ≤ reads ∧
      (Kernel.ReadsOk k → w.input.length < if extended then 32 else 0) ∧
      ((if extended then 32 else 0) ≤ w.input.length →
        ¬ Delivers k w.reads (if extended then [32] else [])) ∧
      readPattern k extended w =
        .next none (withError .read (received w dropped reads (w.failures + 1))) := by
  cases extended with
  | false => exact .inl ⟨w.reads, le_refl _, Nat.zero_le _, fun _ => Iff.rfl, rfl⟩
  | true =>
      have houtcome := @readArray_outcome k 32 (by decide) w
      simp only [readPattern, if_true]
      generalize hread : readArray k 32 w = exit at houtcome
      cases houtcome with
      | whole reads henough hreads hdelivers =>
          exact .inl ⟨reads, hreads, henough, hdelivers, by rw [Code.bind_of_next hread]; rfl⟩
      | failed dropped reads hreads hend hcut =>
          exact .inr ⟨dropped, reads, hreads, hend, fun henough => hcut henough [],
            by rw [Code.bind_of_next hread]; rfl⟩

section ChannelEvents

variable {header : ProtocolEventHeader} (hqueue : header.cmd ≠ ProtocolCommand.queueSubscribe.code)

include hqueue

theorem hasMessage_of_channel : hasMessage header :=
  fun h => absurd h hqueue

theorem subscriber_of_channel (c : EmqClient) (name : List UInt8) :
    subscriber header c name =
      (c.channelSubscriptions.find? fun s => strcmpEq s.name.array name).map fun s =>
        (s.callback, s.name.array) :=
  if_neg hqueue

variable {extended : Bool}
  (hcmd : extended = decide (header.cmd ≠ ProtocolCommand.channelSubscribe.code))

include hcmd

theorem prefixSize_of_channel : prefixSize header = 96 + if extended then 32 else 0 := by
  by_cases hchannel : header.cmd = ProtocolCommand.channelSubscribe.code <;>
    simp [prefixSize, hqueue, hchannel, hcmd, ProtocolCommand.code_inj]

theorem arraySizes_of_channel : arraySizes header = 64 :: 32 :: if extended then [32] else [] := by
  by_cases hchannel : header.cmd = ProtocolCommand.channelSubscribe.code <;>
    simp [arraySizes, hqueue, hchannel, hcmd, ProtocolCommand.code_inj]

theorem eventArgs_of_channel (name body : List UInt8) :
    eventArgs header name body =
      ⟨.channel, name, some ((body.drop 64).take 32),
        if extended then some ((body.drop 96).take 32) else none, eventMsg header body⟩ := by
  by_cases hchannel : header.cmd = ProtocolCommand.channelSubscribe.code <;>
    simp [eventArgs, hqueue, hchannel, hcmd, ProtocolCommand.code_inj]

end ChannelEvents

theorem emqChannelReceive_outcome (k : Kernel) (header : ProtocolEventHeader) (extended : Bool)
    (hqueue : header.cmd ≠ ProtocolCommand.queueSubscribe.code)
    (hcmd : extended = decide (header.cmd ≠ ProtocolCommand.channelSubscribe.code)) (w : World) :
    ReceiveBodyOutcome k header w (emqChannelReceive k header extended w) := by
  have harrays := prefixSize_of_channel hqueue hcmd
  have hsize : (if extended then 128 else 96) = prefixSize header := by
    rw [harrays]
    cases extended <;> rfl
  have hmessage := hasMessage_of_channel hqueue
  have hname := @readArray_outcome k 64 (by decide) w
  unfold emqChannelReceive
  generalize hreadName : readArray k 64 w = exit at hname
  cases hname with
  | failed dropped reads hreads hend =>
      rw [Code.bind_of_next hreadName]
      exact .short hreads (by omega) (fun hok => by
        have := hend hok
        omega)
  | whole reads henough hreads hdelivers =>
      rw [Code.bind_of_next hreadName]
      simp only
      have htopic := @readArray_outcome k 32 (by decide)
        (received w 64 reads w.failures)
      generalize hreadTopic : readArray k 32 _ = exit at htopic
      cases htopic with
      | failed dropped reads' hreads' hend =>
          rw [Code.bind_of_next hreadTopic]
          have := @ReceiveBodyOutcome.short k header w .read (64 + dropped) _ _
            (le_trans hreads hreads')
            (Nat.lt_succ_self w.failures) (fun hok => by
              have := hend hok
              simp only [received_input, List.length_drop] at this
              omega)
          simpa [received, withError] using this
      | whole reads' henough' hreads' hdelivers' =>
          rw [Code.bind_of_next hreadTopic]
          simp only [received_input, List.length_drop] at henough'
          have hstate : received (received w 64 reads w.failures) 32 reads' w.failures =
              received w 96 reads' w.failures := by
            simp [received]
          simp only [received_failures, received_input, hstate]
          rcases readPattern_outcome k extended (received w 96 reads' w.failures) with
            ⟨reads'', hreads'', henough'', hdelivers'', hpattern⟩ |
            ⟨dropped, reads'', hreads'', hend, _, hpattern⟩
          · rw [Code.bind_of_next hpattern]
            have hstate' : received (received w 96 reads' w.failures)
                (if extended then 32 else 0) reads'' w.failures =
                  received w (prefixSize header) reads'' w.failures := by
              rw [harrays]
              simp [received]
            simp only [received_input, List.length_drop] at henough''
            have hbody : prefixSize header ≤ w.input.length := by omega
            have hreadsAll : w.reads ≤ reads'' := le_trans hreads (le_trans hreads' hreads'')
            have hfind := subscriber_of_channel hqueue w.client (w.input.take 64)
            simp only [received_failures, hstate', received_input, Code.bind_reads,
              received_client]
            cases hlookup : w.client.channelSubscriptions.find? fun s =>
              strcmpEq s.name.array (w.input.take 64) with
            | none =>
                rw [hlookup] at hfind
                refine .unregistered reads'' hreadsAll hbody hfind ?_
                rw [arraySizes_of_channel hqueue hcmd, hdelivers]
                refine (hdelivers' _).mpr ?_
                rw [← List.append_nil (if extended then [32] else [])]
                exact (hdelivers'' []).mpr (.done _)
            | some subscription =>
                rw [hlookup] at hfind
                simp only
                rw [hsize]
                refine receiveMessage_outcome k header w hreadsAll hmessage hfind hbody _ rfl ?_
                rw [eventArgs_of_channel hqueue hcmd]
                simp [eventMsg, hmessage]
          · rw [Code.bind_of_next hpattern]
            have := @ReceiveBodyOutcome.short k header w .read (96 + dropped) _ _
              (le_trans hreads (le_trans hreads' hreads'')) (Nat.lt_succ_self w.failures)
              (fun hok => by
                have := hend hok
                simp only [received_input, List.length_drop] at this
                omega)
            simpa [received, withError] using this

theorem receiveBody_outcome (k : Kernel) (header : ProtocolEventHeader) (w : World) :
    ReceiveBodyOutcome k header w (receiveBody k header w) := by
  unfold receiveBody
  split
  · exact emqQueueReceive_outcome k header ‹_› w
  · split
    · exact emqChannelReceive_outcome k header false ‹_› (by simp [*]) w
    · exact emqChannelReceive_outcome k header true ‹_› (by simp [*]) w

theorem readEventHeader_outcome (k : Kernel) (w : World) :
    (∃ dropped reads, w.reads < reads ∧
      (Kernel.ReadsOk k → w.input.length < 8 ∧ w.input.length ≤ dropped) ∧
      (8 ≤ w.input.length → ∀ counts, ¬ Delivers k w.reads (8 :: counts)) ∧
      readEventHeader k w =
        .error (withError .read (received w dropped reads (w.failures + 1)))) ∨
    (∃ reads, w.reads < reads ∧ 8 ≤ w.input.length ∧
      ¬ WellFormed (.parse w.input) ∧
      readEventHeader k w = .error (withError .read (received w 8 reads w.failures))) ∨
    ∃ reads, w.reads < reads ∧ 8 ≤ w.input.length ∧ WellFormed (.parse w.input) ∧
      (∀ counts, Delivers k w.reads (8 :: counts) ↔ Delivers k reads counts) ∧
      readEventHeader k w = .next (.parse w.input) (received w 8 reads w.failures) := by
  have houtcome : ReadOutcome k 8 [] w (emqClientRead k 8 w) :=
    emqClientRead_outcome k (by decide) w
  unfold readEventHeader
  generalize hread : emqClientRead k 8 w = exit at houtcome
  cases houtcome with
  | failed dropped reads hreads hend hcut =>
      rw [Code.bind_of_next hread]
      exact .inl ⟨dropped, reads, hreads, hend, hcut, rfl⟩
  | whole reads henough hle hpos hdelivers =>
      have hreads := hpos (by omega)
      have hparse : ProtocolEventHeader.parse ([] ++ w.input.take 8) = .parse w.input := by
        rw [List.nil_append]
        exact parseEvent_take (le_refl 8) w.input
      rw [Code.bind_of_next hread]
      simp only [hparse]
      by_cases hwf : WellFormed (.parse w.input)
      · refine .inr (.inr ⟨reads, hreads, henough, hwf, hdelivers, ?_⟩)
        obtain ⟨hcheck, hcmd⟩ := hwf
        have hknown : ¬ ((ProtocolEventHeader.parse w.input).cmd ≠
            ProtocolCommand.queueSubscribe.code ∧
            (ProtocolEventHeader.parse w.input).cmd ≠ ProtocolCommand.channelSubscribe.code ∧
            (ProtocolEventHeader.parse w.input).cmd ≠ ProtocolCommand.channelPsubscribe.code) := by
          tauto
        simp [hcheck, hknown]
      · refine .inr (.inl ⟨reads, hreads, henough, hwf, ?_⟩)
        split
        · rfl
        · split
          · rfl
          · rename_i hcheck hcmd
            refine absurd ⟨?_, by tauto⟩ hwf
            cases h : emqCheckEventHeader (.parse w.input) emqProtocolEventNotify
              emqProtocolEventMessage with
            | ok => rfl
            | err => exact absurd h hcheck

/-- One spec for an iteration of the event loop up to its callback. -/
theorem receiveEvent_outcome (k : Kernel) (w : World) :
    ReceiveOutcome k w (receiveEvent k w) := by
  unfold receiveEvent
  rcases readEventHeader_outcome k w with ⟨dropped, reads, hreads, hend, _, hheader⟩ |
    ⟨reads, hreads, henough, hwf, hheader⟩ | ⟨reads, hreads, henough, hwf, hdelivers, hheader⟩
  · rw [Code.bind_of_error hheader]
    exact .unread dropped reads hreads hend
  · rw [Code.bind_of_error hheader]
    exact .malformed reads hreads henough hwf
  · rw [Code.bind_of_next hheader]
    have houtcome := receiveBody_outcome k (.parse w.input) (received w 8 reads w.failures)
    generalize hbody : receiveBody k _ _ = exit at houtcome
    cases houtcome with
    | unregistered reads' hreads' henough' hnone hdelivers' =>
        rw [Code.bind_of_next hbody]
        simp only [received_input, List.length_drop] at henough'
        have := ReceiveOutcome.unregistered (k := k) (w := w) reads' (by
          change reads ≤ reads' at hreads'
          omega) hwf (by omega) hnone ((hdelivers _).mpr hdelivers')
        simpa [received] using this
    | truncated error dropped reads' mallocs failures hreads' hfailures hcause =>
        rw [Code.bind_of_next hbody]
        have := ReceiveOutcome.truncated (k := k) (w := w) error (8 + dropped) reads' mallocs
          failures (by
            change reads ≤ reads' at hreads'
            omega) hwf hfailures (fun hok hmalloc => by
              have := hcause hok hmalloc
              simp only [received_input, List.length_drop] at this
              omega)
        simpa [received, consumed, withError] using this
    | complete callback name reads' mallocs hreads' hsome henough' hle =>
        rw [Code.bind_of_next hbody]
        simp only [received_input, List.length_drop] at henough'
        have := ReceiveOutcome.complete (k := k) (w := w) callback name reads' mallocs (by
          change reads ≤ reads' at hreads'
          omega) hwf hsome (by omega) hle
        simpa [received, consumed, Nat.add_assoc] using this
    | faulted reason w' hle =>
        rw [Code.bind_of_fault hbody]
        exact .faulted reason w' hle

end Libemq.Events
