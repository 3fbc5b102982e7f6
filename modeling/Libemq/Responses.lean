import Libemq.Transactions

namespace Libemq.Responses

open Libemq.CStrings
open Libemq.PackedLayout (valueLE)
open Libemq.ExitCode
open Libemq.Client
open Libemq.Network
open Libemq.Protocol
open Libemq.Packet
open Libemq.Commands
open Libemq.Transactions

theorem header_take {n : Nat} (h : 8 ≤ n) (bytes : List UInt8) :
    headerMagic (bytes.take n) = headerMagic bytes ∧
      headerCmd (bytes.take n) = headerCmd bytes ∧
      headerFlag (bytes.take n) = headerFlag bytes ∧
      headerBodylen (bytes.take n) = headerBodylen bytes := by
  refine ⟨?_, ?_, ?_, ?_⟩
  · rw [headerMagic, headerMagic, List.take_take, Nat.min_eq_left (by omega)]
  · simp only [headerCmd, List.getD_eq_getElem?_getD]
    rw [List.getElem?_take_of_lt (by omega)]
  · simp only [headerFlag, List.getD_eq_getElem?_getD]
    rw [List.getElem?_take_of_lt (by omega)]
  · rw [headerBodylen, headerBodylen, List.drop_take, List.take_take,
      Nat.min_eq_left (by omega)]

theorem parse_take {n : Nat} (h : 8 ≤ n) (bytes : List UInt8) :
    ProtocolResponseHeader.parse (bytes.take n) = ProtocolResponseHeader.parse bytes := by
  obtain ⟨hmagic, hcmd, hflag, hlen⟩ := header_take h bytes
  simp only [ProtocolResponseHeader.parse, hmagic, hcmd, hflag, hlen]

theorem parseEvent_take {n : Nat} (h : 8 ≤ n) (bytes : List UInt8) :
    ProtocolEventHeader.parse (bytes.take n) = ProtocolEventHeader.parse bytes := by
  obtain ⟨hmagic, hcmd, hflag, hlen⟩ := header_take h bytes
  simp only [ProtocolEventHeader.parse, hmagic, hcmd, hflag, hlen]

/-- What waiting for a response can do. The header is at the front of the input. -/
inductive AwaitOutcome (k : Kernel) (size : Nat) (check : ProtocolResponseHeader → Status)
    (w : World) : Exit World Fault (List UInt8) → Prop
  | unread (dropped reads : Nat) (hreads : w.reads < reads)
      (hend : Kernel.ReadsOk k → w.input.length < size ∧ w.input.length ≤ dropped)
      (hcut : size ≤ w.input.length → ∀ counts, ¬ Delivers k w.reads (size :: counts)) :
      AwaitOutcome k size check w
        (.error (withError .read (received w dropped reads (w.failures + 1))))
  | rejected (reads : Nat) (hreads : w.reads < reads) (henough : size ≤ w.input.length)
      (hcheck : check (.parse w.input) = .err) :
      AwaitOutcome k size check w
        (.error (withError .response (received w size reads w.failures)))
  | denied (reads : Nat) (hreads : w.reads < reads) (henough : size ≤ w.input.length)
      (hcheck : check (.parse w.input) = .ok)
      (hstatus : (ProtocolResponseHeader.parse w.input).status ≠
        ProtocolResponseStatus.success.code)
      (hdelivers : ∀ counts, Delivers k w.reads (size :: counts) ↔ Delivers k reads counts) :
      AwaitOutcome k size check w
        (.error (withError (emqGetError (.parse w.input)) (received w size reads w.failures)))
  | accepted (reads : Nat) (hreads : w.reads < reads) (henough : size ≤ w.input.length)
      (hcheck : check (.parse w.input) = .ok)
      (hstatus : (ProtocolResponseHeader.parse w.input).status =
        ProtocolResponseStatus.success.code)
      (hdelivers : ∀ counts, Delivers k w.reads (size :: counts) ↔ Delivers k reads counts) :
      AwaitOutcome k size check w
        (.next (w.input.take size) (received w size reads w.failures))

theorem awaitResponse_outcome (k : Kernel) {size : Nat} (hsize : 8 ≤ size ∧ size ≤ intMax)
    (check : ProtocolResponseHeader → Status) (w : World) :
    AwaitOutcome k size check w (awaitResponse k size check w) := by
  have houtcome := emqClientRead_outcome k hsize.2 w
  unfold awaitResponse
  generalize hread : emqClientRead k size w = exit at houtcome
  cases houtcome with
  | failed dropped reads hreads hend hcut =>
      rw [Code.bind_of_next hread]
      exact .unread dropped reads hreads hend hcut
  | whole reads henough hle hpos hdelivers =>
      have hreads := hpos (by omega)
      rw [Code.bind_of_next hread]
      simp only [List.nil_append, parse_take hsize.1]
      cases hcheck : check (.parse w.input) with
      | err =>
          simp only [if_true, failWith_apply]
          exact .rejected reads hreads henough hcheck
      | ok =>
          by_cases hstatus : (ProtocolResponseHeader.parse w.input).status =
            ProtocolResponseStatus.success.code
          · simp only [emqCheckStatus, hstatus, if_true, reduceCtorEq, if_false,
              Code.pure_apply]
            exact .accepted reads hreads henough hcheck hstatus hdelivers
          · simp only [emqCheckStatus, hstatus, if_true, reduceCtorEq, if_false,
              failWith_apply]
            exact .denied reads hreads henough hcheck hstatus hdelivers

theorem awaitResponse_ne_fault {k : Kernel} {size : Nat} (hsize : 8 ≤ size ∧ size ≤ intMax)
    {check : ProtocolResponseHeader → Status} {w s : World} {reason : Fault} :
    awaitResponse k size check w ≠ .fault reason s := by
  intro h
  have houtcome := awaitResponse_outcome k hsize check w
  rw [h] at houtcome
  generalize hexit : Exit.fault reason s = exit at houtcome
  cases houtcome <;> cases hexit

/-- The bytes that a call reads before it looks at any of them. -/
def Finish.head : Finish → Nat
  | .stat => 63
  | _ => 8

def Finish.check : Finish → ProtocolResponseHeader → Status
  | .acknowledge check _ => check
  | .stat => emqCheckResponseHeader .stat 55
  | .value cmd _ => emqCheckResponseHeader cmd 4
  | .records kind => emqCheckResponseHeaderMini kind.command
  | .message cmd => emqCheckResponseHeaderMini cmd

def Finish.awaits : Finish → (noack : Bool) → Bool
  | .acknowledge .., noack => !noack
  | _, _ => true

@[simp] theorem Finish.awaits_acknowledged (f : Finish) : Finish.awaits f false = true := by
  cases f <;> rfl

def Finish.body (k : Kernel) : Finish → (response : List UInt8) → Emq Reply
  | .acknowledge _ commit, _ => do
      commit.run k
      pure (.status .ok)
  | .stat, response => pure (.stat .ok (some (response.drop 8)))
  | .value _ _, _ => do
      match ← emqClientRead k 4 with
      | none => failWith .read
      | some body => pure (.value (toInt (valueLE body)))
  | .records kind, response =>
      readRecords k kind (ProtocolResponseHeader.parse response).bodylen.toNat
  | .message _, response => do
      match ← emqReadMessageTag k (ProtocolResponseHeader.parse response).bodylen.toNat with
      | none => Code.raise
      | some msg => pure (.msg (some msg))

theorem Finish.head_bounds (f : Finish) : 8 ≤ Finish.head f ∧ Finish.head f ≤ intMax := by
  unfold intMax
  cases f <;> simp [Finish.head]

/-- Every way of finishing first waits, unless acknowledgements are off, and then
goes on with its own rest. -/
theorem Finish.run_eq (k : Kernel) (f : Finish) (w : World) :
    f.run k w =
      if Finish.awaits f w.client.noack then
        (awaitResponse k (Finish.head f) (Finish.check f) >>= Finish.body k f) w
      else Finish.body k f [] w := by
  cases f with
  | acknowledge check commit =>
      simp only [Finish.run, Commands.acknowledge, Finish.awaits, Finish.head, Finish.check,
        Code.bind_bind, Code.bind_reads]
      cases w.client.noack with
      | true => simp [Finish.body]
      | false =>
          simp only [Bool.false_eq_true, if_false, Bool.not_false, if_true, Code.bind_bind,
            Code.pure_bind]
          rfl
  | _ => rfl

def consumed (w : World) (n reads mallocs failures : Nat) : World :=
  { w with
    input := w.input.drop n
    reads := reads
    mallocs := mallocs
    failures := failures }

section Consumed

variable (w : World) (n reads mallocs failures : Nat)

@[simp] theorem consumed_client : (consumed w n reads mallocs failures).client = w.client := rfl

@[simp] theorem consumed_input :
    (consumed w n reads mallocs failures).input = w.input.drop n := rfl

@[simp] theorem consumed_output : (consumed w n reads mallocs failures).output = w.output := rfl

@[simp] theorem consumed_writes : (consumed w n reads mallocs failures).writes = w.writes := rfl

@[simp] theorem consumed_reads : (consumed w n reads mallocs failures).reads = reads := rfl

@[simp] theorem consumed_mallocs : (consumed w n reads mallocs failures).mallocs = mallocs := rfl

@[simp] theorem consumed_failures :
    (consumed w n reads mallocs failures).failures = failures := rfl

@[simp] theorem consumed_trace : (consumed w n reads mallocs failures).trace = w.trace := rfl

end Consumed

def Commit.Fits : Commit → Prop
  | .subscribeQueue name _ => strlen name < 64
  | .subscribeChannel name data _ => strlen name < 64 ∧ strlen data < 32
  | _ => True

def Commit.queueList : Commit → List EmqQueueSubscription → List EmqQueueSubscription
  | .subscribeQueue name callback, list =>
      if h : strlen name < 64 then ⟨⟨name, h⟩, callback⟩ :: list else list
  | .unsubscribeQueue name, list =>
      deleteMatching (fun s => strcmpEq s.name.array name.array) list
  | _, list => list

def Commit.channelList : Commit → List EmqChannelSubscription → List EmqChannelSubscription
  | .subscribeChannel name data callback, list =>
      if h : strlen name < 64 ∧ strlen data < 32 then
        channelSubscription name data callback h :: list
      else list
  | .unsubscribeChannel name, list =>
      deleteMatching (fun s => strcmpEq s.name.array name.array) list
  | _, list => list

def Commit.applied (commit : Commit) (w : World) : World :=
  { w with
    client :=
      { w.client with
        queueSubscriptions := Commit.queueList commit w.client.queueSubscriptions
        channelSubscriptions := Commit.channelList commit w.client.channelSubscriptions } }

theorem Commit.applied_nothing (w : World) : Commit.applied .nothing w = w := rfl

def Commit.allocation : Commit → Option Nat
  | .subscribeQueue .. => some 72
  | .subscribeChannel .. => some 104
  | _ => none

/-- What a commit can do. The subscription is lost when only its list node cannot
be allocated. -/
inductive CommitOutcome (k : Kernel) (commit : Commit) (w : World) :
    Exit World Fault Unit → Prop
  | applied (mallocs : Nat)
      (halloc : ∀ size, Commit.allocation commit = some size → k.malloc w.mallocs size = true) :
      CommitOutcome k commit w
        (.next () (consumed (Commit.applied commit w) 0 w.reads mallocs w.failures))
  | lost (mallocs : Nat) (size : Nat) (hsize : Commit.allocation commit = some size)
      (halloc : k.malloc w.mallocs size = true) (hmalloc : ¬ Kernel.MallocsOk k) :
      CommitOutcome k commit w (.next () (consumed w 0 w.reads mallocs (w.failures + 1)))
  | exhausted (mallocs : Nat) (size : Nat) (hsize : Commit.allocation commit = some size)
      (halloc : k.malloc w.mallocs size = false) :
      CommitOutcome k commit w
        (.error (withError .alloc (consumed w 0 w.reads mallocs (w.failures + 1))))

theorem not_mallocsOk {k : Kernel} {call size : Nat} (h : k.malloc call size = false) :
    ¬ Kernel.MallocsOk k := by
  intro hok
  simp [hok call size] at h

def failuresAfter (k : Kernel) (w : World) (size : Nat) : Nat :=
  if k.malloc w.mallocs size then w.failures else w.failures + 1

theorem malloc_apply (k : Kernel) (size : Nat) (w : World) :
    malloc k size w =
      .next (k.malloc w.mallocs size)
        (consumed w 0 w.reads (w.mallocs + 1) (failuresAfter k w size)) := by
  unfold malloc failuresAfter
  cases k.malloc w.mallocs size <;> simp [consumed]

theorem emqListAddValue_apply {α : Type} (k : Kernel) (list : List α) (value : α) (w : World) :
    emqListAddValue k list value w =
      .next (if k.malloc w.mallocs 24 then (.ok, value :: list) else (.err, list))
        (consumed w 0 w.reads (w.mallocs + 1) (failuresAfter k w 24)) := by
  unfold emqListAddValue
  rw [Code.bind_of_next (malloc_apply k 24 w)]
  cases k.malloc w.mallocs 24 <;> rfl

theorem emqQueueSubscriptionCreate_apply (k : Kernel) {name : CString}
    (h : strlen name < 64) (callback : CallbackPtr) (w : World) :
    emqQueueSubscriptionCreate k name callback w =
      .next (if k.malloc w.mallocs 72 then some ⟨⟨name, h⟩, callback⟩ else none)
        (consumed w 0 w.reads (w.mallocs + 1) (failuresAfter k w 72)) := by
  unfold emqQueueSubscriptionCreate
  rw [Code.bind_of_next (malloc_apply k 72 w)]
  cases k.malloc w.mallocs 72 with
  | false => rfl
  | true => simp [h]

theorem emqChannelSubscriptionCreate_apply (k : Kernel) {name data : CString}
    (h : strlen name < 64 ∧ strlen data < 32) (callback : CallbackPtr) (w : World) :
    emqChannelSubscriptionCreate k name data callback w =
      .next (if k.malloc w.mallocs 104 then some (channelSubscription name data callback h)
          else none)
        (consumed w 0 w.reads (w.mallocs + 1) (failuresAfter k w 104)) := by
  unfold emqChannelSubscriptionCreate
  rw [Code.bind_of_next (malloc_apply k 104 w)]
  cases k.malloc w.mallocs 104 with
  | false => rfl
  | true => rw [if_pos rfl, dif_pos h]; rfl

theorem commit_outcome (k : Kernel) (commit : Commit) (w : World)
    (hfits : Commit.Fits commit) : CommitOutcome k commit w (commit.run k w) := by
  cases commit with
  | nothing => exact .applied w.mallocs (by simp [Commit.allocation])
  | unsubscribeQueue name => exact .applied w.mallocs (by simp [Commit.allocation])
  | unsubscribeChannel name => exact .applied w.mallocs (by simp [Commit.allocation])
  | subscribeQueue name callback =>
      simp only [Commit.run]
      rw [Code.bind_of_next (emqQueueSubscriptionCreate_apply k hfits callback w)]
      cases hfirst : k.malloc w.mallocs 72 with
      | false =>
          simp only [failuresAfter, hfirst, Bool.false_eq_true, if_false]
          exact .exhausted _ 72 rfl hfirst
      | true =>
          simp only [failuresAfter, hfirst, if_true]
          rw [Code.bind_reads, Code.bind_of_next (emqListAddValue_apply ..)]
          cases hsecond : k.malloc (w.mallocs + 1) 24 with
          | false =>
              simp only [failuresAfter, consumed_mallocs, hsecond]
              exact .lost _ 72 rfl hfirst (not_mallocsOk hsecond)
          | true =>
              simp only [failuresAfter, consumed_mallocs, hsecond]
              have := @CommitOutcome.applied k (.subscribeQueue name callback) w
                (w.mallocs + 1 + 1) (by simpa [Commit.allocation] using hfirst)
              simp only [Commit.Fits] at hfits
              simpa [consumed, Commit.applied, Commit.queueList, Commit.channelList, hfits]
                using this
  | subscribeChannel name data callback =>
      simp only [Commit.run]
      rw [Code.bind_of_next (emqChannelSubscriptionCreate_apply k hfits callback w)]
      cases hfirst : k.malloc w.mallocs 104 with
      | false =>
          simp only [failuresAfter, hfirst, Bool.false_eq_true, if_false]
          exact .exhausted _ 104 rfl hfirst
      | true =>
          simp only [failuresAfter, hfirst, if_true]
          rw [Code.bind_reads, Code.bind_of_next (emqListAddValue_apply ..)]
          cases hsecond : k.malloc (w.mallocs + 1) 24 with
          | false =>
              simp only [failuresAfter, consumed_mallocs, hsecond]
              exact .lost _ 104 rfl hfirst (not_mallocsOk hsecond)
          | true =>
              simp only [failuresAfter, consumed_mallocs, hsecond]
              have := @CommitOutcome.applied k (.subscribeChannel name data callback) w
                (w.mallocs + 1 + 1)
                (by simpa [Commit.allocation] using hfirst)
              simp only [Commit.Fits] at hfits
              simpa [consumed, Commit.applied, Commit.queueList, Commit.channelList, hfits]
                using this

/-- The records of a body from offset `i` on, in the order of the body. -/
def recordsFrom (kind : RecordKind) (buffer : List UInt8) (i : Nat) : List Record :=
  (List.range ((buffer.length - i) / kind.size)).map fun j =>
    kind.decode ((buffer.drop (i + j * kind.size)).take kind.size)

theorem RecordKind.size_pos (kind : RecordKind) : 0 < kind.size := by
  cases kind <;> decide

theorem recordsFrom_of_done {kind : RecordKind} {buffer : List UInt8} {i : Nat}
    (h : buffer.length ≤ i) : recordsFrom kind buffer i = [] := by
  simp [recordsFrom, Nat.sub_eq_zero_of_le h]

theorem recordsFrom_step {kind : RecordKind} {buffer : List UInt8} {i : Nat}
    (h : i + kind.size ≤ buffer.length) :
    recordsFrom kind buffer i =
      kind.decode ((buffer.drop i).take kind.size) ::
        recordsFrom kind buffer (i + kind.size) := by
  have hpos := RecordKind.size_pos kind
  have hcount : (buffer.length - i) / kind.size =
      (buffer.length - (i + kind.size)) / kind.size + 1 := by
    rw [← Nat.add_div_right _ hpos]
    congr 1
    omega
  simp only [recordsFrom, hcount, List.range_succ_eq_map, List.map_cons, List.map_map]
  congr 1
  · simp
  · apply List.map_congr_left
    intro j _
    have : i + (j + 1) * kind.size = i + kind.size + j * kind.size := by ring
    simp only [Function.comp_apply, Nat.succ_eq_add_one, this]

inductive RecordLoopOutcome (k : Kernel) (kind : RecordKind) (buffer : List UInt8) (i : Nat)
    (list : List Record) (w : World) : Exit World Fault (List Record) → Prop
  | listed (list' : List Record) (mallocs failures : Nat)
      (hsize : kind.size ∣ buffer.length - i) (hfailures : w.failures ≤ failures)
      (hall : Kernel.MallocsOk k →
        list' = (recordsFrom kind buffer i).reverse ++ list ∧ failures = w.failures) :
      RecordLoopOutcome k kind buffer i list w
        (.next list' (consumed w 0 w.reads mallocs failures))
  | exhausted (mallocs failures : Nat) (hfailures : w.failures < failures)
      (hmalloc : ¬ Kernel.MallocsOk k) :
      RecordLoopOutcome k kind buffer i list w
        (.error (withError .alloc (consumed w 0 w.reads mallocs failures)))
  | overrun (mallocs failures : Nat) (hsize : ¬ kind.size ∣ buffer.length - i) :
      RecordLoopOutcome k kind buffer i list w
        (.fault .bufferOverrun (consumed w 0 w.reads mallocs failures))

theorem recordLoop_outcome (k : Kernel) (kind : RecordKind) (buffer : List UInt8)
    (hbuffer : buffer.length ≤ intMax) (fuel : Nat) :
    ∀ (i : Nat) (list : List Record) (w : World), i ≤ buffer.length →
      buffer.length - i < fuel →
      RecordLoopOutcome k kind buffer i list w
        (recordLoop k kind buffer buffer.length fuel i list w) := by
  induction fuel with
  | zero =>
      intro i list w _ hfuel
      omega
  | succ fuel ih =>
      intro i list w hi hfuel
      have hpos := RecordKind.size_pos kind
      unfold intMax at hbuffer
      by_cases hmore : i < buffer.length
      · simp only [recordLoop, hmore, if_true]
        rw [Code.bind_of_next (malloc_apply ..)]
        cases hfirst : k.malloc w.mallocs kind.size with
        | false =>
            simp only [failuresAfter, hfirst, Bool.false_eq_true, if_false, failWith_apply]
            exact .exhausted _ _ (by omega) (not_mallocsOk hfirst)
        | true =>
            simp only [failuresAfter, hfirst, if_true]
            by_cases hroom : i + kind.size ≤ buffer.length
            · have hwrap : (i + kind.size) % 4294967296 = i + kind.size :=
                Nat.mod_eq_of_lt (by omega)
              simp only [hroom, if_true, hwrap]
              rw [Code.bind_of_next (emqListAddValue_apply ..)]
              generalize hadded : (if k.malloc _ 24 = true then _ else _) = added
              have hstep := ih (i + kind.size) added.2
                (consumed (consumed w 0 w.reads (w.mallocs + 1) w.failures) 0 w.reads
                  (w.mallocs + 1 + 1) (failuresAfter k
                    (consumed w 0 w.reads (w.mallocs + 1) w.failures) 24))
                hroom (by omega)
              have hrest : buffer.length - i = buffer.length - (i + kind.size) + kind.size := by
                omega
              have hdvd : kind.size ∣ buffer.length - i ↔
                  kind.size ∣ buffer.length - (i + kind.size) := by
                rw [hrest]
                exact Nat.dvd_add_self_right
              have hmono : w.failures ≤ failuresAfter k
                  (consumed w 0 w.reads (w.mallocs + 1) w.failures) 24 := by
                unfold failuresAfter
                split <;> simp
              simp only [consumed_reads, consumed_mallocs] at hstep ⊢
              generalize recordLoop k kind buffer buffer.length fuel _ _ _ = exit at hstep ⊢
              cases hstep with
              | listed list' mallocs failures hsize hfailures hall =>
                  refine .listed list' mallocs failures (hdvd.mpr hsize)
                    (le_trans hmono hfailures) ?_
                  intro hok
                  obtain ⟨hlist, hsame⟩ := hall hok
                  have hyes := hok (w.mallocs + 1) 24
                  simp only [consumed_mallocs, hyes, if_true] at hadded
                  simp only [consumed_failures, failuresAfter, consumed_mallocs, hyes,
                    if_true] at hsame
                  refine ⟨?_, hsame⟩
                  rw [hlist, recordsFrom_step hroom, ← hadded]
                  simp
              | exhausted mallocs failures hfailures hmalloc =>
                  exact .exhausted mallocs failures (lt_of_le_of_lt hmono hfailures) hmalloc
              | overrun mallocs failures hsize =>
                  exact .overrun mallocs failures (fun h => hsize (hdvd.mp h))
            · simp only [hroom, if_false, Code.undefined_apply]
              refine .overrun _ _ ?_
              intro hdvd
              have := Nat.le_of_dvd (by omega) hdvd
              omega
      · have hzero : buffer.length - i = 0 := by omega
        simp only [recordLoop, hmore, if_false, Code.pure_apply]
        refine .listed list w.mallocs w.failures (by simp [hzero]) (le_refl _) ?_
        intro _
        simp [@recordsFrom_of_done kind _ _ (not_lt.mp hmore)]

/-- What `emq_read_message` can do. -/
inductive MessageOutcome (k : Kernel) (size : Nat) (w : World) :
    Exit World Fault (Option EmqMsg) → Prop
  | whole (reads mallocs : Nat) (hle : size ≤ intMax) (henough : size ≤ w.input.length)
      (hreads : w.reads ≤ reads) :
      MessageOutcome k size w
        (.next (some ⟨w.input.take size, 0, 0, false⟩)
          (consumed w size reads mallocs w.failures))
  | failed (error : EmqError) (dropped reads mallocs failures : Nat) (hreads : w.reads ≤ reads)
      (hfailures : w.failures < failures)
      (hcause : Kernel.ReadsOk k → Kernel.MallocsOk k →
        intMax < size ∨ w.input.length < size) :
      MessageOutcome k size w
        (.next none (withError error (consumed w dropped reads mallocs failures)))
  | faulted (reason : Fault) (w' : World) (hle : intMax < size) (hreads : w.reads ≤ w'.reads)
      (houtput : w'.output = w.output) :
      MessageOutcome k size w (.fault reason w')

theorem emqReadMessage_outcome (k : Kernel) {size : Nat}
    (hsize : size ≤ intMax ∨ toInt size < 0) (w : World) :
    MessageOutcome k size w (emqReadMessage k size w) := by
  unfold emqReadMessage
  rw [Code.bind_of_next (malloc_apply ..)]
  cases hfirst : k.malloc w.mallocs 32 with
  | false =>
      simp only [failuresAfter, hfirst, Bool.false_eq_true, if_false, bind_emqClientSetError,
        Code.pure_apply]
      exact .failed .alloc 0 w.reads _ _ (le_refl _) (by omega)
        (fun _ hok => absurd hok (not_mallocsOk hfirst))
  | true =>
      simp only [failuresAfter, hfirst, if_true]
      rw [Code.bind_of_next (malloc_apply ..)]
      cases hsecond : k.malloc (w.mallocs + 1) size with
      | false =>
          simp only [failuresAfter, consumed_mallocs, hsecond, Bool.false_eq_true, if_false,
            bind_emqClientSetError, Code.pure_apply]
          exact .failed .alloc 0 w.reads _ (w.failures + 1) (le_refl _) (by omega)
            (fun _ hok => absurd hok (not_mallocsOk hsecond))
      | true =>
          simp only [failuresAfter, consumed_mallocs, hsecond, if_true]
          generalize hw : consumed (consumed w 0 w.reads (w.mallocs + 1) w.failures) 0 _ _ _ = w1
          have hinput : w1.input = w.input := by
            simp [← hw]
          have hw1 : ∀ n r f, received w1 n r f = consumed w n r (w.mallocs + 1 + 1) f := by
            intro n r f
            simp [← hw, received, consumed]
          have hreadsEq : w1.reads = w.reads := by
            simp [← hw]
          have hfailuresEq : w1.failures = w.failures := by
            simp [← hw]
          rcases hsize with hle | hneg
          · rw [toInt_natCast hle]
            have houtcome := emqClientRead_outcome k hle w1
            generalize hread : emqClientRead k size w1 = exit at houtcome
            cases houtcome with
            | whole reads henough hreads hpos =>
                rw [Code.bind_of_next hread, hw1, hinput, hfailuresEq]
                rw [hinput] at henough
                exact .whole reads _ hle henough (by omega)
            | failed dropped reads hreads hend =>
                rw [Code.bind_of_next hread, hw1, hfailuresEq]
                rw [hinput] at hend
                exact .failed .read dropped reads _ _ (by omega) (by omega)
                  (fun hok _ => .inr (hend hok).1)
          · have hover : intMax < size := by
              by_contra hle
              rw [toInt_natCast (not_lt.mp hle)] at hneg
              omega
            have houtcome := emqClientRead_overlong k hneg (intMin_le_toInt _) w1
            generalize hread : emqClientRead k (toInt size) w1 = exit at houtcome
            cases houtcome with
            | failed dropped reads hreads =>
                rw [Code.bind_of_next hread, hw1, hfailuresEq]
                exact .failed .read dropped reads _ _ (by omega) (by omega)
                  (fun _ _ => .inl hover)
            | overflow dropped reads hreads =>
                rw [Code.bind_of_fault hread, hw1]
                exact .faulted _ _ hover (by
                  rw [consumed_reads]
                  omega) rfl

def Finish.size : Finish → (bodylen : Nat) → Nat
  | .acknowledge .., _ => 0
  | .stat, _ => 0
  | .value .., _ => 4
  | .records _, bodylen => bodylen
  | .message _, bodylen => bodylen

/-- The body lengths that a call can take in. -/
def Finish.WellSized : Finish → (bodylen : Nat) → Prop
  | .records kind, bodylen => bodylen ≤ intMax ∧ kind.size ∣ bodylen
  | .message _, bodylen => 8 ≤ bodylen ∧ bodylen ≤ intMax + 8
  | _, _ => True

def Finish.reply : Finish → (response body : List UInt8) → Reply
  | .acknowledge .., _, _ => .status .ok
  | .stat, response, _ => .stat .ok (some (response.drop 8))
  | .value .., _, body => .value (toInt (valueLE body))
  | .records kind, _, body => .list (some (recordsFrom kind body 0).reverse)
  | .message _, _, body =>
      .msg (some ⟨body.drop 8, UInt64.ofNat (valueLE (body.take 8)), 0, false⟩)

def Finish.Successful : Finish → Reply → Prop
  | .acknowledge .., reply => reply = .status .ok
  | .stat, reply => ∃ stored, reply = .stat .ok stored
  | .value .., reply => ∃ n, reply = .value n
  | .records _, reply => ∃ records, reply = .list (some records)
  | .message _, reply => ∃ msg, reply = .msg (some msg)

def Finish.commit : Finish → Commit
  | .acknowledge _ commit => commit
  | _ => .nothing

/-- What a call can do with an accepted response. -/
inductive BodyOutcome (k : Kernel) (f : Finish) (response : List UInt8) (bodylen : Nat)
    (w : World) : Exit World Fault Reply → Prop
  | done (reply : Reply) (commit : Commit) (reads mallocs failures : Nat)
      (hsized : Finish.WellSized f bodylen)
      (henough : Finish.size f bodylen ≤ w.input.length) (hreads : w.reads ≤ reads)
      (hfailures : w.failures ≤ failures)
      (hcommit : commit = Finish.commit f ∨ commit = .nothing)
      (hreply : Finish.Successful f reply)
      (halloc : ∀ size, Commit.allocation (Finish.commit f) = some size →
        k.malloc w.mallocs size = true)
      (hall : Kernel.MallocsOk k → commit = Finish.commit f ∧ failures = w.failures ∧
        reply = Finish.reply f response (w.input.take (Finish.size f bodylen)))
      (hquiet : Finish.awaits f true = false → reads = w.reads) :
      BodyOutcome k f response bodylen w
        (.next reply (consumed (Commit.applied commit w) (Finish.size f bodylen) reads mallocs
          failures))
  | failed (error : EmqError) (dropped reads mallocs failures : Nat) (hreads : w.reads ≤ reads)
      (hfailures : w.failures < failures)
      (halloc : Finish.awaits f true = false → reads = w.reads ∧ ∃ size,
        Commit.allocation (Finish.commit f) = some size ∧ k.malloc w.mallocs size = false)
      (hcause : Kernel.ReadsOk k → Kernel.MallocsOk k →
        ¬ Finish.WellSized f bodylen ∨ w.input.length < Finish.size f bodylen) :
      BodyOutcome k f response bodylen w
        (.error (withError error (consumed w dropped reads mallocs failures)))
  | unnamed (dropped reads mallocs failures : Nat) (hreads : w.reads ≤ reads)
      (hfailures : w.failures < failures) (hawaits : Finish.awaits f true = true)
      (hcause : Kernel.ReadsOk k → Kernel.MallocsOk k →
        ¬ Finish.WellSized f bodylen ∨ w.input.length < Finish.size f bodylen) :
      BodyOutcome k f response bodylen w
        (.error (consumed w dropped reads mallocs failures))
  | faulted (reason : Fault) (w' : World) (hreads : w.reads ≤ w'.reads)
      (houtput : w'.output = w.output) (hawaits : Finish.awaits f true = true)
      (hcause : Kernel.ReadsOk k → Kernel.MallocsOk k →
        ¬ Finish.WellSized f bodylen ∨ w.input.length < Finish.size f bodylen) :
      BodyOutcome k f response bodylen w (.fault reason w')

theorem acknowledge_body_outcome (k : Kernel) (check : ProtocolResponseHeader → Status)
    (commit : Commit) (response : List UInt8) (bodylen : Nat) (w : World)
    (hfits : Commit.Fits commit) :
    BodyOutcome k (.acknowledge check commit) response bodylen w
      (Finish.body k (.acknowledge check commit) response w) := by
  have houtcome := commit_outcome k commit w hfits
  simp only [Finish.body]
  generalize hrun : commit.run k w = exit at houtcome
  cases houtcome with
  | applied mallocs halloc =>
      rw [Code.bind_of_next hrun]
      exact .done (.status .ok) commit w.reads mallocs w.failures trivial (Nat.zero_le _)
        (le_refl _) (le_refl _) (.inl rfl) rfl halloc
        (fun _ => ⟨rfl, rfl, rfl⟩) (fun _ => rfl)
  | lost mallocs size hsize halloc hmalloc =>
      rw [Code.bind_of_next hrun]
      exact .done (.status .ok) .nothing w.reads mallocs (w.failures + 1) trivial
        (Nat.zero_le _) (le_refl _) (by omega) (.inr rfl) rfl
        (fun size' hsize' => by
          simp only [Finish.commit, hsize, Option.some.injEq] at hsize'
          rwa [← hsize'])
        (fun hok => absurd hok hmalloc) (fun _ => rfl)
  | exhausted mallocs size hsize halloc =>
      rw [Code.bind_of_error hrun]
      exact .failed .alloc 0 w.reads mallocs (w.failures + 1) (le_refl _) (by omega)
        (fun _ => ⟨rfl, size, hsize, halloc⟩) (fun _ hok => absurd hok (not_mallocsOk halloc))

theorem stat_body_outcome (k : Kernel) (response : List UInt8) (bodylen : Nat) (w : World) :
    BodyOutcome k .stat response bodylen w (Finish.body k .stat response w) := by
  exact .done (.stat .ok (some (response.drop 8))) .nothing w.reads w.mallocs w.failures trivial
    (Nat.zero_le _) (le_refl _) (le_refl _) (.inl rfl) ⟨_, rfl⟩
    (by simp [Finish.commit, Commit.allocation]) (fun _ => ⟨rfl, rfl, rfl⟩) (fun _ => rfl)

theorem value_body_outcome (k : Kernel) (cmd : ProtocolCommand) (failure : Int)
    (response : List UInt8) (bodylen : Nat) (w : World) :
    BodyOutcome k (.value cmd failure) response bodylen w
      (Finish.body k (.value cmd failure) response w) := by
  have houtcome : ReadOutcome k 4 [] w (emqClientRead k 4 w) :=
    emqClientRead_outcome k (by decide) w
  simp only [Finish.body]
  generalize hread : emqClientRead k 4 w = exit at houtcome
  cases houtcome with
  | whole reads henough hreads hpos =>
      rw [Code.bind_of_next hread]
      exact .done _ .nothing reads w.mallocs w.failures trivial henough hreads (le_refl _)
        (.inl rfl) ⟨_, rfl⟩ (by simp [Finish.commit, Commit.allocation])
        (fun _ => ⟨rfl, rfl, rfl⟩) (by simp [Finish.awaits])
  | failed dropped reads hreads hend =>
      rw [Code.bind_of_next hread]
      exact .failed .read dropped reads w.mallocs (w.failures + 1) (by omega) (by omega)
        (by simp [Finish.awaits]) (fun hok _ => .inr (hend hok).1)

inductive ReadRecordsOutcome (k : Kernel) (kind : RecordKind) (bodylen : Nat) (w : World) :
    Exit World Fault Reply → Prop
  | listed (list : List Record) (reads mallocs failures : Nat)
      (hsized : Finish.WellSized (.records kind) bodylen) (henough : bodylen ≤ w.input.length)
      (hreads : w.reads ≤ reads) (hfailures : w.failures ≤ failures)
      (hall : Kernel.MallocsOk k →
        list = (recordsFrom kind (w.input.take bodylen) 0).reverse ∧ failures = w.failures) :
      ReadRecordsOutcome k kind bodylen w
        (.next (.list (some list)) (consumed w bodylen reads mallocs failures))
  | failed (error : EmqError) (dropped reads mallocs failures : Nat) (hreads : w.reads ≤ reads)
      (hfailures : w.failures < failures)
      (hend : Kernel.ReadsOk k → Kernel.MallocsOk k → w.input.length < bodylen ∧
        (intMax < bodylen → (w.input.length : Int) ≤ toInt bodylen - intMin)) :
      ReadRecordsOutcome k kind bodylen w
        (.error (withError error (consumed w dropped reads mallocs failures)))
  | faulted (reason : Fault) (w' : World) (hreads : w.reads ≤ w'.reads)
      (houtput : w'.output = w.output)
      (hcounted : bodylen ≤ intMax → bodylen ≤ w.input.length ∧ ¬ kind.size ∣ bodylen)
      (hmore : intMax < bodylen → toInt bodylen - intMin < w.input.length) :
      ReadRecordsOutcome k kind bodylen w (.fault reason w')

theorem readRecords_counted (k : Kernel) (kind : RecordKind) {bodylen : Nat}
    (hle : bodylen ≤ intMax) (w : World) :
    ReadRecordsOutcome k kind bodylen w (readRecords k kind bodylen w) := by
  unfold readRecords
  rw [Code.bind_of_next (malloc_apply ..), toInt_natCast hle]
  cases hfirst : k.malloc w.mallocs bodylen with
  | false =>
      simp only [failuresAfter, hfirst, Bool.false_eq_true, if_false, failWith_apply]
      exact .failed .alloc 0 w.reads _ _ (le_refl _) (by omega)
        (fun _ hok => absurd hok (not_mallocsOk hfirst))
  | true =>
      simp only [failuresAfter, hfirst, if_true]
      have houtcome := emqClientRead_outcome k hle
        (consumed w 0 w.reads (w.mallocs + 1) w.failures)
      generalize hread : emqClientRead k bodylen _ = exit at houtcome
      cases houtcome with
      | failed dropped reads hreads hend =>
          rw [Code.bind_of_next hread]
          exact .failed .read dropped reads (w.mallocs + 1) (w.failures + 1)
            (Nat.le_of_lt hreads) (by omega)
            (fun hok _ => ⟨(hend hok).1, fun hlow => absurd hle (not_le.mpr hlow)⟩)
      | whole reads henough hreads hpos =>
          rw [Code.bind_of_next hread]
          simp only [List.nil_append]
          rw [Code.bind_of_next (malloc_apply ..)]
          change bodylen ≤ w.input.length at henough
          change w.reads ≤ reads at hreads
          have hlength : (w.input.take bodylen).length = bodylen := by
            rw [List.length_take, Nat.min_eq_left henough]
          cases hsecond : k.malloc (w.mallocs + 1) 32 with
          | false =>
              simp only [failuresAfter, received_mallocs, consumed_mallocs, hsecond,
                Bool.false_eq_true, if_false, failWith_apply]
              exact .failed .alloc bodylen reads (w.mallocs + 1 + 1) (w.failures + 1) hreads
                (by omega) (fun _ hok => absurd hok (not_mallocsOk hsecond))
          | true =>
              simp only [failuresAfter, received_mallocs, consumed_mallocs, hsecond, if_true]
              have hloop := recordLoop_outcome k kind (w.input.take bodylen)
                (by rwa [hlength]) (bodylen + 1) 0 []
                (consumed w bodylen reads (w.mallocs + 1 + 1) w.failures)
                (Nat.zero_le _) (by omega)
              rw [hlength] at hloop
              have hstate : consumed (received (consumed w 0 w.reads (w.mallocs + 1)
                  w.failures) bodylen reads w.failures) 0 reads (w.mallocs + 1 + 1)
                  w.failures = consumed w bodylen reads (w.mallocs + 1 + 1) w.failures := by
                simp [consumed, received]
              simp only [consumed_failures, received_failures, received_reads,
                consumed_input, List.drop_zero] at hstate ⊢
              rw [hstate]
              generalize hrun : recordLoop k kind _ _ _ _ _ _ = exit at hloop
              cases hloop with
              | listed list mallocs failures hsize hfailures hall =>
                  rw [Code.bind_of_next hrun]
                  have hdvd : kind.size ∣ bodylen := by
                    rw [hlength] at hsize
                    exact hsize
                  rw [List.append_nil] at hall
                  exact .listed list reads mallocs failures ⟨hle, hdvd⟩ henough hreads hfailures
                    hall
              | exhausted mallocs failures hfailures hmalloc =>
                  rw [Code.bind_of_error hrun]
                  exact .failed .alloc bodylen reads mallocs failures hreads hfailures
                    (fun _ hok => absurd hok hmalloc)
              | overrun mallocs failures hsize =>
                  rw [Code.bind_of_fault hrun]
                  rw [hlength] at hsize
                  exact .faulted _ _ hreads rfl (fun _ => ⟨henough, hsize⟩)
                    (fun hlow => absurd hle (not_le.mpr hlow))

theorem readRecords_overlong (k : Kernel) (kind : RecordKind) {bodylen : Nat}
    (hlow : intMax < bodylen) (hhigh : bodylen < 4294967296) (w : World) :
    ReadRecordsOutcome k kind bodylen w (readRecords k kind bodylen w) := by
  have htoInt := toInt_of_overlong hlow hhigh
  unfold readRecords
  rw [Code.bind_of_next (malloc_apply ..)]
  cases hfirst : k.malloc w.mallocs bodylen with
  | false =>
      simp only [failuresAfter, hfirst, Bool.false_eq_true, if_false, failWith_apply]
      exact .failed .alloc 0 w.reads _ _ (le_refl _) (by omega)
        (fun _ hok => absurd hok (not_mallocsOk hfirst))
  | true =>
      simp only [failuresAfter, hfirst, if_true]
      have houtcome := emqClientRead_overlong k (by omega) (intMin_le_toInt bodylen)
        (consumed w 0 w.reads (w.mallocs + 1) w.failures)
      generalize hread : emqClientRead k (toInt bodylen) _ = exit at houtcome
      cases houtcome with
      | failed dropped reads hreads hend =>
          rw [Code.bind_of_next hread]
          refine .failed .read dropped reads (w.mallocs + 1) (w.failures + 1)
            (Nat.le_of_lt hreads) (by omega) (fun hok _ => ?_)
          have hroom : (w.input.length : Int) ≤ toInt bodylen - intMin := (hend hok).1
          refine ⟨?_, fun _ => hroom⟩
          unfold intMin at hroom
          omega
      | overflow dropped reads hreads hmore =>
          rw [Code.bind_of_fault hread]
          exact .faulted _ _ (Nat.le_of_lt hreads) rfl
            (fun hle => absurd hle (not_le.mpr hlow)) (fun _ => hmore)

theorem readRecords_outcome (k : Kernel) (kind : RecordKind) {bodylen : Nat}
    (hbodylen : bodylen < 4294967296) (w : World) :
    ReadRecordsOutcome k kind bodylen w (readRecords k kind bodylen w) := by
  by_cases hle : bodylen ≤ intMax
  · exact readRecords_counted k kind hle w
  · exact readRecords_overlong k kind (not_le.mp hle) hbodylen w

theorem records_body_outcome (k : Kernel) (kind : RecordKind) (response : List UInt8)
    (w : World)
    (hbodylen : (ProtocolResponseHeader.parse response).bodylen.toNat < 4294967296) :
    BodyOutcome k (.records kind) response
      (ProtocolResponseHeader.parse response).bodylen.toNat w
      (Finish.body k (.records kind) response w) := by
  simp only [Finish.body]
  generalize (ProtocolResponseHeader.parse response).bodylen.toNat = bodylen at hbodylen ⊢
  have houtcome := readRecords_outcome k kind hbodylen w
  generalize readRecords k kind bodylen w = exit at houtcome
  cases houtcome with
  | listed list reads mallocs failures hsized henough hreads hfailures hall =>
      have := @BodyOutcome.done k (.records kind) response bodylen w (.list (some list)) .nothing
        reads mallocs failures hsized henough hreads hfailures (.inl rfl) ⟨_, rfl⟩
        (by simp [Finish.commit, Commit.allocation]) (fun hok => by
          obtain ⟨hlist, hsame⟩ := hall hok
          exact ⟨rfl, hsame, by simp [Finish.reply, Finish.size, hlist]⟩)
        (by simp [Finish.awaits])
      simpa [Finish.size, Commit.applied_nothing] using this
  | failed error dropped reads mallocs failures hreads hfailures hend =>
      exact .failed error dropped reads mallocs failures hreads hfailures
        (by simp [Finish.awaits]) (fun hok hmalloc => .inr (hend hok hmalloc).1)
  | faulted reason w' hreads houtput hcounted hmore =>
      refine .faulted reason w' hreads houtput rfl (fun _ _ => .inl fun hsized => ?_)
      exact (hcounted hsized.1).2 hsized.2

theorem message_body_outcome (k : Kernel) (cmd : ProtocolCommand) (response : List UInt8)
    (w : World)
    (hbodylen : (ProtocolResponseHeader.parse response).bodylen.toNat < 4294967296) :
    BodyOutcome k (.message cmd) response
      (ProtocolResponseHeader.parse response).bodylen.toNat w
      (Finish.body k (.message cmd) response w) := by
  simp only [Finish.body]
  generalize (ProtocolResponseHeader.parse response).bodylen.toNat = bodylen at hbodylen ⊢
  have houtcome : ReadOutcome k 8 [] w (emqClientRead k 8 w) :=
    emqClientRead_outcome k (by decide) w
  unfold emqReadMessageTag
  rw [Code.bind_bind]
  generalize hread : emqClientRead k 8 w = exit at houtcome
  cases houtcome with
  | failed dropped reads hreads hend =>
      rw [Code.bind_of_next hread]
      refine .unnamed dropped reads w.mallocs (w.failures + 1) (by omega) (by omega) rfl ?_
      intro hok _
      have hshort := (hend hok).1
      by_cases hsized : Finish.WellSized (.message cmd) bodylen
      · have : 8 ≤ bodylen := hsized.1
        exact .inr (by simp only [Finish.size]; omega)
      · exact .inl hsized
  | whole reads henough hreads hpos =>
      rw [Code.bind_of_next hread]
      simp only [List.nil_append, Code.bind_bind]
      have hcases := tagSize_cases hbodylen
      generalize hsize : (bodylen + 18446744073709551616 - 8) % 18446744073709551616 = size
        at hcases ⊢
      have hmessage := emqReadMessage_outcome k hcases (received w 8 reads w.failures)
      have hsized : Finish.WellSized (.message cmd) bodylen → size ≤ intMax := by
        rintro ⟨hlow, hhigh⟩
        unfold intMax at hhigh ⊢
        omega
      generalize hrun : emqReadMessage k size _ = exit at hmessage
      cases hmessage with
      | whole reads' mallocs hle henough' hreads' =>
          rw [Code.bind_of_next hrun]
          change size ≤ (w.input.drop 8).length at henough'
          rw [List.length_drop] at henough'
          change reads ≤ reads' at hreads'
          have hbound : 8 ≤ bodylen ∧ bodylen ≤ intMax + 8 ∧ 8 + size = bodylen := by
            unfold intMax at hle ⊢
            omega
          have htake : (w.input.drop 8).take size = (w.input.take bodylen).drop 8 := by
            rw [← hbound.2.2, List.drop_take, Nat.add_sub_cancel_left]
          have htag : (w.input.take bodylen).take 8 = w.input.take 8 := by
            rw [List.take_take, Nat.min_eq_left hbound.1]
          have := @BodyOutcome.done k (.message cmd) response bodylen w
            (.msg (some ⟨(w.input.take bodylen).drop 8,
              UInt64.ofNat (valueLE (w.input.take 8)), 0, false⟩))
            .nothing reads' mallocs w.failures ⟨hbound.1, hbound.2.1⟩
            (by simp only [Finish.size]; omega) (by omega) (le_refl _) (.inl rfl)
            ⟨_, rfl⟩ (by simp [Finish.commit, Commit.allocation])
            (fun _ => ⟨rfl, rfl, by simp [Finish.reply, Finish.size, htag]⟩)
            (by simp [Finish.awaits])
          simpa [consumed, received, Finish.size, Commit.applied_nothing, htake, hbound.2.2]
            using this
      | failed error dropped reads' mallocs failures hreads' hfailures hcause =>
          rw [Code.bind_of_next hrun]
          refine .faulted _ _ (le_trans hreads hreads') rfl rfl ?_
          intro hok hmalloc
          rcases hcause hok hmalloc with hlarge | hshort
          · exact .inl fun h => absurd (hsized h) (by omega)
          · by_cases h : Finish.WellSized (.message cmd) bodylen
            · have hlow : 8 ≤ bodylen := h.1
              simp only [received_input, List.length_drop] at hshort
              have := hsized h
              unfold intMax at this
              exact .inr (by simp only [Finish.size]; omega)
            · exact .inl h
      | faulted reason w' hlarge hreads' houtput =>
          rw [Code.bind_of_fault hrun]
          exact .faulted _ _ (le_trans hreads hreads') houtput rfl
            (fun _ _ => .inl fun h => absurd (hsized h) (by omega))

/-- One spec for what every call does with an accepted response. -/
theorem body_outcome (k : Kernel) (f : Finish) (response : List UInt8) (w : World)
    (hfits : Commit.Fits (Finish.commit f)) :
    BodyOutcome k f response (ProtocolResponseHeader.parse response).bodylen.toNat w
      (Finish.body k f response w) := by
  have hbodylen := (ProtocolResponseHeader.parse response).bodylen.toNat_lt
  cases f with
  | acknowledge check commit => exact acknowledge_body_outcome k check commit _ _ w hfits
  | stat => exact stat_body_outcome k _ _ w
  | value cmd failure => exact value_body_outcome k cmd failure _ _ w
  | records kind => exact records_body_outcome k kind _ w hbodylen
  | message cmd => exact message_body_outcome k cmd _ w hbodylen

end Libemq.Responses
