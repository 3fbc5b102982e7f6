import Libemq.Completion
import Libemq.Stopping

namespace Libemq.MessageBounds

open Libemq.CStrings
open Libemq.PackedLayout (valueLE)
open Libemq.ExitCode
open Libemq.Client
open Libemq.Network
open Libemq.Protocol
open Libemq.Packet
open Libemq.Commands
open Libemq.Transactions
open Libemq.Responses
open Libemq.Calls
open Libemq.Completion
open Libemq.Events
open Libemq.Runs
open Libemq.Stopping

/-- A body is too short for the part of fixed size in front of its message, too long for
the count of the reader, or cut off. -/
def Defective (fixed bodylen arriving : Nat) : Prop :=
  bodylen < fixed ∨ intMax + fixed < bodylen ∨ arriving < bodylen

/-- The message function hands this size to `emq_read_message`, for a body of this
length. -/
inductive TagRead (k : Kernel) (c : Command) (w : World) : (bodylen size : Nat) → Prop
  | intro {response tag : List UInt8} {w2 w3 : World} (haccepted : Accepted k c w response w2)
      (htag : emqClientRead k 8 w2 = .next (some tag) w3) :
      TagRead k c w (ProtocolResponseHeader.parse response).bodylen.toNat
        (((ProtocolResponseHeader.parse response).bodylen.toNat + 18446744073709551616 - 8) %
          18446744073709551616)

structure CallSurvives (k : Kernel) (c : Command) (w : World) : Prop where
  sizes : ∀ bodylen size, TagRead k c w bodylen size → 8 ≤ bodylen ∧ toInt size = size
  returns : ∃ reply w', exec k c w = .returned reply w' ∧
    (Defective 8 (ProtocolResponseHeader.parse w.input).bodylen.toNat (w.input.length - 8) →
      reply = .msg none ∧ w'.client.status = .err)

/-- The first response in the input is a success that this call accepts. -/
def Answered (c : Command) (w : World) : Prop :=
  Accepts c ∧ Finish.head (finish c) ≤ w.input.length ∧
    Finish.check (finish c) (.parse w.input) = .ok ∧
    (ProtocolResponseHeader.parse w.input).status = ProtocolResponseStatus.success.code

/-- The tag is not read, or the whole message is and there is memory for it. -/
def Readable (k : Kernel) (w : World) : Prop :=
  w.input.length < 16 ∨ ¬ Delivers k w.reads [8, 8] ∨
    (8 ≤ (ProtocolResponseHeader.parse w.input).bodylen.toNat ∧
      (ProtocolResponseHeader.parse w.input).bodylen.toNat ≤ intMax + 8 ∧
      8 + (ProtocolResponseHeader.parse w.input).bodylen.toNat ≤ w.input.length ∧
      Delivers k w.reads [8, 8, (ProtocolResponseHeader.parse w.input).bodylen.toNat - 8] ∧
      k.malloc w.mallocs 32 = true ∧
      k.malloc (w.mallocs + 1)
        ((ProtocolResponseHeader.parse w.input).bodylen.toNat - 8) = true)

theorem counted_iff {size : Nat} (hsize : size ≤ intMax ∨ toInt size < 0) :
    toInt size = size ↔ size ≤ intMax := by
  constructor
  · intro heq
    rcases hsize with hle | hneg
    · exact hle
    · omega
  · exact toInt_natCast

theorem tagSize_counted {bodylen : Nat} (hbodylen : bodylen < 4294967296) :
    (8 ≤ bodylen ∧ toInt ((bodylen + 18446744073709551616 - 8) % 18446744073709551616 : Nat) =
        ((bodylen + 18446744073709551616 - 8) % 18446744073709551616 : Nat)) ↔
      8 ≤ bodylen ∧ bodylen ≤ intMax + 8 := by
  refine and_congr_right fun hlow => ?_
  have hsize : (bodylen + 18446744073709551616 - 8) % 18446744073709551616 = bodylen - 8 := by
    omega
  rw [hsize, counted_iff (size_cases (by omega))]
  omega

theorem emqReadMessage_some {k : Kernel} {size : Nat} {w w' : World} {msg : EmqMsg}
    (hsize : size ≤ intMax ∨ toInt size < 0)
    (h : emqReadMessage k size w = .next (some msg) w') :
    k.malloc w.mallocs 32 = true ∧ k.malloc (w.mallocs + 1) size = true ∧
      size ≤ w.input.length ∧ Delivers k w.reads [size] := by
  have hle : size ≤ intMax := by
    have houtcome := emqReadMessage_outcome k hsize w
    rw [h] at houtcome
    generalize hexit : Exit.next (some msg) w' = exit at houtcome
    cases houtcome with
    | whole reads mallocs hle => exact hle
    | _ => cases hexit
  unfold emqReadMessage at h
  rw [Code.bind_of_next (malloc_apply ..)] at h
  cases hfirst : k.malloc w.mallocs 32 with
  | false =>
      rw [hfirst] at h
      cases h
  | true =>
      rw [hfirst] at h
      simp only [if_true] at h
      rw [Code.bind_of_next (malloc_apply ..)] at h
      cases hsecond : k.malloc (w.mallocs + 1) size with
      | false =>
          simp only [consumed_mallocs, hsecond] at h
          cases h
      | true =>
          simp only [consumed_mallocs, hsecond, if_true, toInt_natCast hle] at h
          generalize hw : consumed _ _ _ _ _ = w1 at h
          have hinput : w1.input = w.input := by
            rw [← hw]
            rfl
          have hcall : w1.reads = w.reads := by
            rw [← hw]
            rfl
          have houtcome := emqClientRead_outcome k hle w1
          generalize hread : emqClientRead k size w1 = exit at houtcome
          cases houtcome with
          | whole reads henough _ _ hdelivers =>
              rw [hinput] at henough
              rw [hcall] at hdelivers
              exact ⟨rfl, rfl, henough, (hdelivers []).mpr (.done _)⟩
          | failed =>
              rw [Code.bind_of_next hread] at h
              cases h

theorem emqReadMessage_granted {k : Kernel} (size : Nat) (w : World)
    (hreads : Delivers k w.reads [size])
    (hfirst : k.malloc w.mallocs 32 = true) (hsecond : k.malloc (w.mallocs + 1) size = true)
    (hle : size ≤ intMax) (henough : size ≤ w.input.length) :
    ∃ msg w', emqReadMessage k size w = .next (some msg) w' := by
  unfold emqReadMessage
  rw [Code.bind_of_next (malloc_apply ..), hfirst]
  simp only [if_true]
  rw [Code.bind_of_next (malloc_apply ..)]
  simp only [consumed_mallocs, hsecond, if_true]
  rw [toInt_natCast hle]
  generalize hw : consumed _ _ _ _ _ = w1
  have hinput : w1.input = w.input := by
    rw [← hw]
    rfl
  have hcall : w1.reads = w.reads := by
    rw [← hw]
    rfl
  have houtcome := emqClientRead_outcome k hle w1
  generalize hread : emqClientRead k size w1 = exit at houtcome
  cases houtcome with
  | whole =>
      rw [Code.bind_of_next hread]
      exact ⟨_, _, rfl⟩
  | failed dropped reads _ _ hcut =>
      rw [hinput, hcall] at hcut
      exact absurd hreads (hcut henough [])

section Call

variable {c : Command} {cmd : ProtocolCommand} (hc : finish c = .message cmd) {w : World}

include hc

theorem accepted_message {k : Kernel} {response : List UInt8} {w2 : World}
    (hready : Ready w.client) (h : Accepted k c w response w2) :
    Answered c w ∧ ProtocolResponseHeader.parse response = .parse w.input ∧
      w2.input.length = w.input.length - 8 ∧ w2.mallocs = w.mallocs ∧
      ∀ counts, Delivers k w.reads (8 :: counts) ↔ Delivers k w2.reads counts := by
  cases h with
  | unanswered _ _ hnot =>
      rw [hc] at hnot
      cases hnot
  | answered w1 reads hissued _ _ henough hcheck hstatus hdelivers =>
      have hhead : Finish.head (finish c) = 8 := by
        rw [hc]
        rfl
      rw [hhead] at hdelivers
      refine ⟨⟨hissued.accepts, henough, hcheck, hstatus⟩, parse_take (Finish.head_bounds _).1 _,
        ?_, (hissued.ready hready).2, hdelivers⟩
      rw [received_input, hissued.input, List.length_drop, hhead]

/-- The tag is read when its bytes are there, and `emq_read_message` gets the rest. -/
theorem body_message (k : Kernel) (response : List UInt8) (w2 : World) :
    (∃ w3, emqClientRead k 8 w2 = .next none w3 ∧ w3.client = w2.client ∧
        Finish.body k (finish c) response w2 = .error w3 ∧
        (8 ≤ w2.input.length → ∀ counts, ¬ Delivers k w2.reads (8 :: counts))) ∨
      ∃ tag reads, emqClientRead k 8 w2 = .next (some tag) (received w2 8 reads w2.failures) ∧
        8 ≤ w2.input.length ∧
        (∀ counts, Delivers k w2.reads (8 :: counts) ↔ Delivers k reads counts) ∧
        Finish.body k (finish c) response w2 =
          (emqReadMessage k (((ProtocolResponseHeader.parse response).bodylen.toNat +
              18446744073709551616 - 8) % 18446744073709551616) >>= fun msg =>
            match msg with
            | none => Code.undefined .nullDereference
            | some msg =>
                pure (.msg (some { msg with tag := UInt64.ofNat (valueLE tag) })))
              (received w2 8 reads w2.failures) := by
  have houtcome : ReadOutcome k 8 [] w2 (emqClientRead k 8 w2) :=
    emqClientRead_outcome k (by decide) w2
  rw [hc, Finish.body, emqReadMessageTag, Code.bind_bind]
  generalize hread : emqClientRead k 8 w2 = exit at houtcome
  cases houtcome with
  | failed dropped reads _ _ hcut =>
      rw [Code.bind_of_next hread]
      exact .inl ⟨_, rfl, rfl, rfl, hcut⟩
  | whole reads henough _ _ hdelivers =>
      rw [Code.bind_of_next hread]
      refine .inr ⟨_, _, rfl, henough, hdelivers, ?_⟩
      generalize (_ + 18446744073709551616 - 8) % 18446744073709551616 = size
      simp only [Code.bind_bind]
      refine congrFun (congrArg (_ >>= ·) (funext fun msg => ?_)) _
      cases msg <;> rfl

theorem callSurvives_of_readable {k : Kernel} (hready : Ready w.client)
    (h : Answered c w → Readable k w) : CallSurvives k c w := by
  have hbodylen := (ProtocolResponseHeader.parse w.input).bodylen.toNat_lt
  have hfailure : (finish c).failure = .msg none := by
    rw [hc]
    rfl
  constructor
  · rintro _ _ @⟨response, tag, w2, w3, haccepted, htag⟩
    obtain ⟨hanswered, hparse, hlength, _, hheader⟩ := accepted_message hc hready haccepted
    rw [hparse, tagSize_counted hbodylen]
    rcases body_message hc k response w2 with
      ⟨_, hnone, _⟩ | ⟨_, _, _, henough, hdelivers, _⟩
    · rw [htag] at hnone
      cases hnone
    · rcases h hanswered with hshort | hcut | ⟨hlow, hhigh, _⟩
      · omega
      · exact absurd ((hheader [8]).mpr ((hdelivers []).mpr (.done _))) hcut
      · exact ⟨hlow, hhigh⟩
  · rcases exec_body k c w hready.1 with ⟨_, _, hexec, _⟩ | ⟨response, w2, haccepted, hexec⟩
    · exact ⟨_, _, hexec, fun _ => ⟨hfailure, rfl⟩⟩
    · obtain ⟨hanswered, hparse, hlength, hmallocs, hheader⟩ :=
        accepted_message hc hready haccepted
      rcases body_message hc k response w2 with
        ⟨w3, _, _, hbody, _⟩ | ⟨tag, reads, _, henough, hdelivers, hbody⟩
      · rw [hbody] at hexec
        exact ⟨_, _, hexec, fun _ => ⟨hfailure, rfl⟩⟩
      · rcases h hanswered with hshort | hcut | ⟨hlow, hhigh, hall, hreads, hfirst, hsecond⟩
        · omega
        · exact absurd ((hheader [8]).mpr ((hdelivers []).mpr (.done _))) hcut
        · have hsize : ((ProtocolResponseHeader.parse response).bodylen.toNat +
              18446744073709551616 - 8) % 18446744073709551616 =
                (ProtocolResponseHeader.parse w.input).bodylen.toNat - 8 := by
            rw [hparse]
            omega
          rw [hsize] at hbody
          obtain ⟨msg, w4, hmsg⟩ := emqReadMessage_granted
            ((ProtocolResponseHeader.parse w.input).bodylen.toNat - 8)
            (received w2 8 reads w2.failures) ((hdelivers _).mp ((hheader _).mp hreads))
            (by rw [received_mallocs, hmallocs]; exact hfirst)
            (by rw [received_mallocs, hmallocs]; exact hsecond) (by omega)
            (by rw [received_input, List.length_drop]; omega)
          rw [hbody, Code.bind_of_next hmsg] at hexec
          refine ⟨_, _, hexec, ?_⟩
          rintro (hdefect | hdefect | hdefect) <;> omega

theorem readable_of_callSurvives {k : Kernel} (hwrites : Kernel.WritesOk k)
    (hready : Ready w.client) (h : CallSurvives k c w) (hanswered : Answered c w) :
    Readable k w := by
  have hbodylen := (ProtocolResponseHeader.parse w.input).bodylen.toNat_lt
  obtain ⟨haccepts, henough, hcheck, hstatus⟩ := hanswered
  have hhead : Finish.head (finish c) = 8 := by
    rw [hc]
    rfl
  by_cases htagged : Delivers k w.reads [8, 8]
  swap
  · exact .inr (.inl htagged)
  have hreads : Delivers k w.reads (Finish.head (finish c) :: [8]) := by
    rw [hhead]
    exact htagged
  obtain ⟨w2, haccepted, hrest, hexec⟩ := answered_body hwrites hready haccepts
    (not_misread_of_awaits (by rw [hc]; rfl) _ _) hreads (by rw [hc]; rfl) henough hcheck hstatus
  obtain ⟨_, hparse, hlength, hmallocs, hheader⟩ := accepted_message hc hready haccepted
  rcases body_message hc k (w.input.take (Finish.head (finish c))) w2 with
    ⟨w3, _, _, _, hcut⟩ | ⟨tag, reads, htag, _, hdelivers, hbody⟩
  · refine .inl ?_
    by_contra hlong
    exact hcut (by omega) [] hrest
  · have hsizes := h.sizes _ _ (.intro haccepted htag)
    rw [hparse] at hsizes hbody
    obtain ⟨hlow, hhigh⟩ := (tagSize_counted hbodylen).mp hsizes
    have hsize : ((ProtocolResponseHeader.parse w.input).bodylen.toNat +
        18446744073709551616 - 8) % 18446744073709551616 =
          (ProtocolResponseHeader.parse w.input).bodylen.toNat - 8 := by
      omega
    rw [hsize] at hbody
    obtain ⟨reply, w', hreturned, _⟩ := h.returns
    rw [hexec, hbody] at hreturned
    have hcounted : (ProtocolResponseHeader.parse w.input).bodylen.toNat - 8 ≤ intMax := by
      omega
    cases hread : emqReadMessage k ((ProtocolResponseHeader.parse w.input).bodylen.toNat - 8)
        (received w2 8 reads w2.failures) with
    | error w4 =>
        have houtcome := emqReadMessage_outcome k (.inl hcounted)
          (received w2 8 reads w2.failures)
        rw [hread] at houtcome
        generalize hexit : Exit.error w4 = exit at houtcome
        cases houtcome <;> cases hexit
    | fault reason w4 =>
        rw [Code.bind_of_fault hread] at hreturned
        cases hreturned
    | next msg w4 =>
        rw [Code.bind_of_next hread] at hreturned
        cases msg with
        | none => cases hreturned
        | some msg =>
            obtain ⟨hfirst, hsecond, hlong, hreads⟩ := emqReadMessage_some (.inl hcounted) hread
            rw [received_mallocs, hmallocs] at hfirst hsecond
            rw [received_input, List.length_drop] at hlong
            exact .inr (.inr ⟨hlow, hhigh, by omega,
              (hheader _).mpr ((hdelivers _).mpr hreads), hfirst, hsecond⟩)

end Call

/-- After the header of an event, its arrays are read and the name is found; then this
size is handed to `emq_read_message` in this world. -/
inductive ArraysRead (k : Kernel) (header : ProtocolEventHeader) (w : World) :
    (size : Nat) → World → Prop
  | queue {name : List UInt8} {subscription : EmqQueueSubscription} {w1 : World}
      (hcmd : header.cmd = ProtocolCommand.queueSubscribe.code)
      (hname : readArray k 64 w = .next (some name) w1)
      (hfind : (w1.client.queueSubscriptions.find? fun s => strcmpEq s.name.array name) =
        some subscription)
      (htype : header.type = emqProtocolEventMessage) :
      ArraysRead k header w ((header.bodylen.toNat + 4294967296 - 64) % 4294967296) w1
  | channel {name topic : List UInt8} {pattern : Option (List UInt8)} {extended : Bool}
      {subscription : EmqChannelSubscription} {w1 w2 w3 : World}
      (hcmd : header.cmd ≠ ProtocolCommand.queueSubscribe.code)
      (hextended : extended = decide (header.cmd ≠ ProtocolCommand.channelSubscribe.code))
      (hname : readArray k 64 w = .next (some name) w1)
      (htopic : readArray k 32 w1 = .next (some topic) w2)
      (hpattern : readPattern k extended w2 = .next (some pattern) w3)
      (hfind : (w3.client.channelSubscriptions.find? fun s => strcmpEq s.name.array name) =
        some subscription) :
      ArraysRead k header w
        ((header.bodylen.toNat + 4294967296 - (if extended then 128 else 96)) % 4294967296) w3

/-- The arrays of the event are in the stream, and its name is registered. -/
def Addressed (header : ProtocolEventHeader) (c : EmqClient) (body : List UInt8) : Prop :=
  prefixSize header ≤ body.length ∧ subscriber header c (body.take 64) ≠ none

theorem readArray_some {k : Kernel} {size : Nat} (hsize : size ≤ intMax) {w w' : World}
    {bytes : List UInt8} (h : readArray k size w = .next (some bytes) w') :
    size ≤ w.input.length ∧ bytes = w.input.take size ∧ w'.client = w.client ∧
      w'.input = w.input.drop size ∧
      ∀ counts, Delivers k w.reads (size :: counts) ↔ Delivers k w'.reads counts := by
  have houtcome := readArray_outcome k hsize w
  rw [h] at houtcome
  generalize hexit : Exit.next (some bytes) w' = exit at houtcome
  cases houtcome with
  | whole reads henough _ hdelivers =>
      cases hexit
      exact ⟨henough, rfl, rfl, rfl, hdelivers⟩
  | failed => cases hexit

theorem readPattern_some {k : Kernel} {extended : Bool} {w w' : World}
    {pattern : Option (List UInt8)} (h : readPattern k extended w = .next (some pattern) w') :
    (if extended then 32 else 0) ≤ w.input.length ∧ w'.client = w.client ∧
      w'.input = w.input.drop (if extended then 32 else 0) ∧
      ∀ counts, Delivers k w.reads ((if extended then [32] else []) ++ counts) ↔
        Delivers k w'.reads counts := by
  rcases readPattern_outcome k extended w with ⟨reads, _, henough, hdelivers, hread⟩ |
    ⟨dropped, reads, _, _, _, hread⟩
  · rw [h] at hread
    cases hread
    exact ⟨henough, rfl, rfl, hdelivers⟩
  · rw [h] at hread
    cases hread

theorem ArraysRead.addressed {k : Kernel} {header : ProtocolEventHeader} {w w' : World}
    {size : Nat} (h : ArraysRead k header w size w') :
    Addressed header w.client w.input ∧ hasMessage header ∧ size = messageSize header ∧
      w'.input.length = w.input.length - prefixSize header ∧
      ∀ counts, Delivers k w.reads (arraySizes header ++ counts) ↔ Delivers k w'.reads counts := by
  cases h with
  | queue hcmd hname hfind htype =>
      have hsize : prefixSize header = 64 := if_pos hcmd
      have hsizes : arraySizes header = [64] := if_pos hcmd
      have hmessage : hasMessage header := fun _ => htype
      obtain ⟨henough, rfl, hclient, hinput, hdelivers⟩ := readArray_some (by decide) hname
      refine ⟨⟨by omega, ?_⟩, hmessage, ?_, ?_, hsizes ▸ hdelivers⟩
      · rw [subscriber, if_pos hcmd, ← hclient, hfind]
        exact Option.some_ne_none _
      · rw [messageSize, if_pos hmessage, hsize]
      · rw [hinput, List.length_drop, hsize]
  | channel hcmd hextended hname htopic hpattern hfind =>
      have hsize := prefixSize_of_channel hcmd hextended
      have hmessage := hasMessage_of_channel hcmd
      obtain ⟨henough1, rfl, hclient1, hinput1, hdelivers1⟩ := readArray_some (by decide) hname
      obtain ⟨henough2, rfl, hclient2, hinput2, hdelivers2⟩ := readArray_some (by decide) htopic
      obtain ⟨henough3, hclient3, hinput3, hdelivers3⟩ := readPattern_some hpattern
      rw [hinput1, List.length_drop] at henough2
      rw [hinput2, hinput1, List.length_drop, List.length_drop] at henough3
      refine ⟨⟨by omega, ?_⟩, hmessage, ?_, ?_, fun counts => ?_⟩
      · rw [subscriber, if_neg hcmd, ← hclient1, ← hclient2, ← hclient3, hfind]
        exact Option.some_ne_none _
      · have hfixed : ∀ longer : Bool,
            (if longer then 128 else 96) = 96 + if longer then 32 else 0 := by decide
        rw [messageSize, if_pos hmessage, hsize, hfixed]
      · rw [hinput3, hinput2, hinput1, List.length_drop, List.length_drop, List.length_drop]
        omega
      · rw [arraySizes_of_channel hcmd hextended]
        exact (hdelivers1 _).trans ((hdelivers2 _).trans (hdelivers3 _))

theorem ArraysRead.delivers {k : Kernel} {header : ProtocolEventHeader} {w w' : World}
    {size : Nat} (h : ArraysRead k header w size w') :
    Delivers k w.reads (arraySizes header) := by
  obtain ⟨_, _, _, _, hdelivers⟩ := h.addressed
  have := (hdelivers []).mpr (.done _)
  rwa [List.append_nil] at this

inductive ArraysOutcome (k : Kernel) (header : ProtocolEventHeader) (w : World) :
    Exit World Fault (Option Delivery) → Prop
  | refused (w' : World)
      (hcause : Delivers k w.reads (arraySizes header) → ¬ Addressed header w.client w.input)
      (hsilent : Delivers k w.reads (arraySizes header) → prefixSize header ≤ w.input.length →
        w'.client = w.client) :
      ArraysOutcome k header w (.next none w')
  | notified (delivery : Delivery) (w' : World) (haddressed : Addressed header w.client w.input)
      (hmessage : ¬ hasMessage header) (hdelivers : Delivers k w.reads (arraySizes header)) :
      ArraysOutcome k header w (.next (some delivery) w')
  | reading (w' : World) (f : EmqMsg → Delivery)
      (hread : ArraysRead k header w (messageSize header) w') :
      ArraysOutcome k header w
        ((emqReadMessage k (messageSize header) >>= fun msg =>
          match msg with
          | none => pure none
          | some msg => pure (some (f msg))) w')

theorem emqQueueReceive_arrays (k : Kernel) {header : ProtocolEventHeader}
    (hcmd : header.cmd = ProtocolCommand.queueSubscribe.code) (w : World) :
    ArraysOutcome k header w (emqQueueReceive k header w) := by
  have hsize : prefixSize header = 64 := if_pos hcmd
  have hsizes : arraySizes header = [64] := if_pos hcmd
  have hsubscriber : ∀ c name, subscriber header c name =
      (c.queueSubscriptions.find? fun s => strcmpEq s.name.array name).map fun s =>
        (s.callback, s.name.array) := fun c name => if_pos hcmd
  have houtcome := @readArray_outcome k 64 (by decide) w
  unfold emqQueueReceive
  generalize hname : readArray k 64 w = exit at houtcome
  cases houtcome with
  | failed dropped reads _ _ hcut =>
      rw [Code.bind_of_next hname]
      have hcut' : prefixSize header ≤ w.input.length →
          ¬ Delivers k w.reads (arraySizes header) := fun henough => by
        rw [hsizes]
        exact hcut (by omega) []
      exact .refused _ (fun hok h => hcut' h.1 hok) fun hok h => absurd hok (hcut' h)
  | whole reads henough _ hdelivers =>
      rw [Code.bind_of_next hname]
      simp only [Code.bind_reads, received_client]
      cases hfind : w.client.queueSubscriptions.find? fun s =>
        strcmpEq s.name.array (w.input.take 64) with
      | none =>
          refine .refused _ (fun _ h => h.2 ?_) fun _ _ => rfl
          rw [hsubscriber, hfind]
          rfl
      | some subscription =>
          have haddressed : Addressed header w.client w.input := by
            refine ⟨by omega, ?_⟩
            rw [hsubscriber, hfind]
            exact Option.some_ne_none _
          by_cases htype : header.type = emqProtocolEventMessage
          · have hread := ArraysRead.queue hcmd hname hfind htype
            have hmessage := hread.addressed.2.2.1
            rw [hmessage] at hread
            simp only [if_pos htype, hmessage]
            exact .reading _ (fun msg => (subscription.callback,
              ⟨.queue, subscription.name.array, none, none, some msg⟩)) hread
          · simp only [if_neg htype]
            exact .notified _ _ haddressed (fun h => htype (h hcmd))
              (hsizes ▸ (hdelivers []).mpr (.done _))

theorem emqChannelReceive_arrays (k : Kernel) {header : ProtocolEventHeader} {extended : Bool}
    (hcmd : header.cmd ≠ ProtocolCommand.queueSubscribe.code)
    (hextended : extended = decide (header.cmd ≠ ProtocolCommand.channelSubscribe.code))
    (w : World) : ArraysOutcome k header w (emqChannelReceive k header extended w) := by
  have hsize := prefixSize_of_channel hcmd hextended
  have hsizes := arraySizes_of_channel hcmd hextended
  have hsubscriber : ∀ c name, subscriber header c name =
      (c.channelSubscriptions.find? fun s => strcmpEq s.name.array name).map fun s =>
        (s.callback, s.name.array) := fun c name => if_neg hcmd
  have hrefused : ∀ {s : World}, (prefixSize header ≤ w.input.length →
      ¬ Delivers k w.reads (arraySizes header)) → ArraysOutcome k header w (.next none s) :=
    fun hcut => .refused _ (fun hok h => hcut h.1 hok) fun hok h => absurd hok (hcut h)
  have hfirst := @readArray_outcome k 64 (by decide) w
  unfold emqChannelReceive
  generalize hname : readArray k 64 w = exit at hfirst
  cases hfirst with
  | failed dropped reads _ _ hcut =>
      rw [Code.bind_of_next hname]
      refine hrefused fun henough => ?_
      rw [hsizes]
      exact hcut (by omega) _
  | whole reads henough _ hdelivers =>
      rw [Code.bind_of_next hname]
      have hsecond := @readArray_outcome k 32 (by decide) (received w 64 reads w.failures)
      simp only
      generalize htopic : readArray k 32 _ = exit at hsecond
      cases hsecond with
      | failed dropped reads' _ _ hcut =>
          rw [Code.bind_of_next htopic]
          rw [received_input, List.length_drop] at hcut
          refine hrefused fun henough => ?_
          rw [hsizes, hdelivers]
          exact hcut (by omega) _
      | whole reads' henough' _ hdelivers' =>
          rw [Code.bind_of_next htopic]
          rw [received_input, List.length_drop] at henough'
          simp only
          rcases readPattern_outcome k extended (received (received w 64 reads w.failures) 32
            reads' (received w 64 reads w.failures).failures) with
            ⟨reads'', _, henough'', _, hpattern⟩ | ⟨dropped, reads'', _, _, hcut, hpattern⟩
          · rw [Code.bind_of_next hpattern]
            simp only [received_input, List.length_drop] at henough''
            simp only [Code.bind_reads, received_client]
            cases hfind : w.client.channelSubscriptions.find? fun s =>
              strcmpEq s.name.array (w.input.take 64) with
            | none =>
                refine .refused _ (fun _ h => h.2 ?_) fun _ _ => rfl
                rw [hsubscriber, hfind]
                rfl
            | some subscription =>
                have hread := ArraysRead.channel hcmd hextended hname htopic hpattern hfind
                have hmessage := hread.addressed.2.2.1
                rw [hmessage] at hread
                simp only [hmessage]
                exact .reading _ (fun msg => (subscription.callback,
                  ⟨.channel, subscription.name.array, some _, _, some msg⟩)) hread
          · rw [Code.bind_of_next hpattern]
            simp only [received_input, List.length_drop] at hcut
            refine hrefused fun henough => ?_
            rw [hsizes, hdelivers]
            exact fun hall => hcut (by omega) ((hdelivers' _).mp hall)

theorem receiveBody_arrays (k : Kernel) (header : ProtocolEventHeader) (w : World) :
    ArraysOutcome k header w (receiveBody k header w) := by
  unfold receiveBody
  split
  · exact emqQueueReceive_arrays k ‹_› w
  · split
    · exact emqChannelReceive_arrays k ‹_› (by simp [*]) w
    · exact emqChannelReceive_arrays k ‹_› (by simp [*]) w

structure IterationSurvives (k : Kernel) (callbacks : Callbacks) (w w1 : World) : Prop where
  sizes : ∀ header s size w2, readEventHeader k w1 = .next header s →
    ArraysRead k header s size w2 →
      prefixSize header ≤ header.bodylen.toNat ∧ toInt size = size
  reading : ∀ reason w2, receiveEvent k w1 ≠ .fault reason w2
  failing : Defective (prefixSize (.parse w1.input))
      (ProtocolEventHeader.parse w1.input).bodylen.toNat (w1.input.length - 8) →
    ∃ w2, receiveEvent k w1 = .error w2 ∧
      emqProcess k callbacks w = .returned .err (setStatus .err w2)

/-- The length of an event for a registered name whose arrays are read has room for them
and leaves a message that the reader can count. A notification also arrives whole. -/
def Receivable (k : Kernel) (w : World) : Prop :=
  WellFormed (.parse w.input) → Addressed (.parse w.input) w.client (w.input.drop 8) →
    Delivers k w.reads (8 :: arraySizes (.parse w.input)) →
    prefixSize (.parse w.input) ≤ (ProtocolEventHeader.parse w.input).bodylen.toNat ∧
      (ProtocolEventHeader.parse w.input).bodylen.toNat ≤
        intMax + prefixSize (.parse w.input) ∧
      (¬ hasMessage (.parse w.input) →
        (ProtocolEventHeader.parse w.input).bodylen.toNat ≤ w.input.length - 8)

theorem messageSize_counted {header : ProtocolEventHeader} (hmessage : hasMessage header) :
    (prefixSize header ≤ header.bodylen.toNat ∧
        toInt (messageSize header) = messageSize header) ↔
      prefixSize header ≤ header.bodylen.toNat ∧
        header.bodylen.toNat ≤ intMax + prefixSize header := by
  have hlt := header.bodylen.toNat_lt
  refine and_congr_right fun hlow => ?_
  have hsize : messageSize header = header.bodylen.toNat - prefixSize header := by
    rw [messageSize, if_pos hmessage]
    omega
  rw [hsize, counted_iff (size_cases (by omega))]
  omega

/-- What an iteration does up to its callback, in terms of what it hands to
`emq_read_message`. -/
theorem receiveEvent_arrays (k : Kernel) (w : World) :
    (∃ w2, receiveEvent k w = .error w2 ∧
        (8 ≤ w.input.length → WellFormed (.parse w.input) →
          ∀ counts, ¬ Delivers k w.reads (8 :: counts))) ∨
      ∃ s exit, readEventHeader k w = .next (.parse w.input) s ∧ s.client = w.client ∧
        s.input = w.input.drop 8 ∧
        (∀ counts, Delivers k w.reads (8 :: counts) ↔ Delivers k s.reads counts) ∧
        WellFormed (.parse w.input) ∧
        ArraysOutcome k (.parse w.input) s exit ∧
        receiveEvent k w = match exit with
          | .next none s' => .error s'
          | .next (some delivery) s' => .next delivery s'
          | .error s' => .error s'
          | .fault reason s' => .fault reason s' := by
  unfold receiveEvent
  rcases readEventHeader_outcome k w with ⟨dropped, reads, _, _, hcut, hheader⟩ |
    ⟨reads, _, _, hnot, hheader⟩ | ⟨reads, _, henough, hwf, hdelivers, hheader⟩
  · rw [Code.bind_of_error hheader]
    exact .inl ⟨_, rfl, fun henough _ => hcut henough⟩
  · rw [Code.bind_of_error hheader]
    exact .inl ⟨_, rfl, fun _ h => absurd h hnot⟩
  · rw [Code.bind_of_next hheader]
    refine .inr ⟨_, receiveBody k (.parse w.input) (received w 8 reads w.failures), hheader,
      rfl, rfl, hdelivers, hwf, receiveBody_arrays .., ?_⟩
    cases hbody : receiveBody k (.parse w.input) (received w 8 reads w.failures) with
    | next delivery s =>
        rw [Code.bind_of_next hbody]
        cases delivery <;> rfl
    | error s => rw [Code.bind_of_error hbody]
    | fault reason s => rw [Code.bind_of_fault hbody]

theorem readEventHeader_next {k : Kernel} {w s : World} {header : ProtocolEventHeader}
    (h : readEventHeader k w = .next header s) :
    header = .parse w.input ∧ WellFormed header ∧ s.client = w.client ∧
      s.input = w.input.drop 8 ∧
      ∀ counts, Delivers k w.reads (8 :: counts) ↔ Delivers k s.reads counts := by
  rcases readEventHeader_outcome k w with ⟨_, _, _, _, _, hheader⟩ | ⟨_, _, _, _, hheader⟩ |
    ⟨reads, _, _, hwf, hdelivers, hheader⟩
  · rw [h] at hheader
    cases hheader
  · rw [h] at hheader
    cases hheader
  · rw [h] at hheader
    cases hheader
    exact ⟨rfl, hwf, rfl, rfl, hdelivers⟩

section Iteration

variable {k : Kernel} {callbacks : Callbacks} {w w1 : World}

theorem iterationSurvives_of_receivable
    (hfails : ∀ w2, receiveEvent k w1 = .error w2 →
      emqProcess k callbacks w = .returned .err (setStatus .err w2))
    (h : Receivable k w1) : IterationSurvives k callbacks w w1 := by
  have hresult : (∃ w2, receiveEvent k w1 = .error w2) ∨
      (∃ delivery w2, receiveEvent k w1 = .next delivery w2 ∧
        ¬ Defective (prefixSize (.parse w1.input))
          (ProtocolEventHeader.parse w1.input).bodylen.toNat (w1.input.length - 8)) := by
    rcases receiveEvent_arrays k w1 with ⟨w2, herror, _⟩ |
      ⟨s, exit, _, hclient, hinput, hheader, hwf, houtcome, hreceive⟩
    · exact .inl ⟨w2, herror⟩
    · rw [hreceive]
      cases houtcome with
      | refused s' => exact .inl ⟨s', rfl⟩
      | notified delivery s' haddressed hmessage hdelivers =>
          rw [hclient, hinput] at haddressed
          obtain ⟨hlow, hhigh, hall⟩ := h hwf haddressed ((hheader _).mpr hdelivers)
          refine .inr ⟨delivery, s', rfl, ?_⟩
          rintro (hdefect | hdefect | hdefect)
          · omega
          · omega
          · exact absurd (hall hmessage) (not_le.mpr hdefect)
      | reading s' f hread =>
          obtain ⟨haddressed, hmessage, _, hlength, _⟩ := hread.addressed
          rw [hclient, hinput] at haddressed
          obtain ⟨hlow, hhigh, _⟩ := h hwf haddressed ((hheader _).mpr hread.delivers)
          have hlt := (ProtocolEventHeader.parse w1.input).bodylen.toNat_lt
          have hsize : messageSize (.parse w1.input) =
              (ProtocolEventHeader.parse w1.input).bodylen.toNat -
                prefixSize (.parse w1.input) := by
            rw [messageSize, if_pos hmessage]
            omega
          have hle : messageSize (.parse w1.input) ≤ intMax := by omega
          rw [hinput, List.length_drop] at hlength
          have houtcome := emqReadMessage_outcome k (.inl hle) s'
          generalize hrun : emqReadMessage k _ s' = exit' at houtcome
          cases houtcome with
          | whole reads mallocs _ henough =>
              rw [Code.bind_of_next hrun]
              refine .inr ⟨_, _, rfl, ?_⟩
              have harrays := haddressed.1
              rw [List.length_drop] at harrays
              rintro (hdefect | hdefect | hdefect) <;> omega
          | failed =>
              rw [Code.bind_of_next hrun]
              exact .inl ⟨_, rfl⟩
          | faulted reason w' hover => omega
  constructor
  · intro header s size w2 hheader hread
    obtain ⟨rfl, hwf, hclient, hinput, hheader⟩ := readEventHeader_next hheader
    obtain ⟨haddressed, hmessage, hsize, _⟩ := hread.addressed
    rw [hclient, hinput] at haddressed
    obtain ⟨hlow, hhigh, _⟩ := h hwf haddressed ((hheader _).mpr hread.delivers)
    rw [hsize]
    exact (messageSize_counted hmessage).mpr ⟨hlow, hhigh⟩
  · intro reason w2 hfault
    rcases hresult with ⟨_, herror⟩ | ⟨_, _, hnext, _⟩
    · rw [hfault] at herror
      cases herror
    · rw [hfault] at hnext
      cases hnext
  · intro hdefective
    rcases hresult with ⟨w2, herror⟩ | ⟨_, _, _, hnot⟩
    · exact ⟨w2, herror, hfails w2 herror⟩
    · exact absurd hdefective hnot

theorem receivable_of_iterationSurvives (h : IterationSurvives k callbacks w w1) :
    Receivable k w1 := by
  intro hwf haddressed hreads
  rcases receiveEvent_arrays k w1 with ⟨w2, _, hcut⟩ |
    ⟨s, exit, hheader, hclient, hinput, hdelivers, _, houtcome, hreceive⟩
  · have hpos := prefixSize_ge (.parse w1.input)
    have harrays := haddressed.1
    rw [List.length_drop] at harrays
    exact absurd hreads (hcut (by omega) hwf _)
  · cases houtcome with
    | refused s' hnot =>
        rw [hclient, hinput] at hnot
        exact absurd haddressed (hnot ((hdelivers _).mp hreads))
    | notified delivery s' _ hmessage =>
        by_cases hdefective : Defective (prefixSize (.parse w1.input))
            (ProtocolEventHeader.parse w1.input).bodylen.toNat (w1.input.length - 8)
        · obtain ⟨w2, herror, _⟩ := h.failing hdefective
          rw [herror] at hreceive
          cases hreceive
        · unfold Defective at hdefective
          push Not at hdefective
          exact ⟨hdefective.1, hdefective.2.1, fun _ => hdefective.2.2⟩
    | reading s' f hread =>
        have hmessage := hread.addressed.2.1
        obtain ⟨hlow, hhigh⟩ := (messageSize_counted hmessage).mp
          (h.sizes _ _ _ _ hheader hread)
        exact ⟨hlow, hhigh, fun hnot => absurd hmessage hnot⟩

end Iteration

theorem emqProcess_of_error {k : Kernel} {callbacks : Callbacks} (huse : UseLibrary k callbacks)
    {w w1 w2 : World} (hready : Ready w.client)
    (hhead : LoopHead k callbacks (withError .none w) w1) (hactive : ¬ Idle w1.client)
    (h : receiveEvent k w1 = .error w2) :
    emqProcess k callbacks w = .returned .err (setStatus .err w2) := by
  obtain ⟨_, fuel, hfuel, hloop⟩ :=
    loop_reaches huse hhead hready (w.input.length + 1) (Nat.lt_succ_self _)
  obtain ⟨fuel, rfl⟩ : ∃ fuel', fuel = fuel' + 1 := ⟨fuel - 1, by omega⟩
  rw [emqProcess_eq, hloop, emqProcessLoop_succ, if_neg hactive, Code.bind_of_error h]

theorem readable_congr {k k' : Kernel} (hmalloc : k'.malloc = k.malloc)
    (hread : k'.read = k.read) (w : World) : Readable k' w ↔ Readable k w := by
  simp only [Readable, hmalloc, delivers_congr hread]

/-- `emq_queue_get` and `emq_queue_pop` survive the body of their response, whatever the
kernel does with their writes, iff it is readable; and every iteration of `emq_process`
survives the body of its event iff it is receivable. -/
theorem message_readers_survive_iff (k : Kernel) :
    (∀ (c : Command) (cmd : ProtocolCommand) (w : World), finish c = .message cmd →
      Ready w.client →
      ((∀ k', k'.malloc = k.malloc → k'.read = k.read → CallSurvives k' c w) ↔
        (Answered c w → Readable k w))) ∧
    ∀ (callbacks : Callbacks) (w : World), UseLibrary k callbacks → Ready w.client →
      ((∀ w1, LoopHead k callbacks (withError .none w) w1 → ¬ Idle w1.client →
          IterationSurvives k callbacks w w1) ↔
        ∀ w1, LoopHead k callbacks (withError .none w) w1 → ¬ Idle w1.client →
          Receivable k w1) := by
  constructor
  · intro c cmd w hc hready
    constructor
    · intro h hanswered
      exact (@readable_congr k (transmitting k) rfl rfl w).mp
        (readable_of_callSurvives hc (transmitting_writes k) hready (h (transmitting k) rfl rfl)
          hanswered)
    · intro h k' hmalloc hread
      rw [← readable_congr hmalloc hread w] at h
      exact callSurvives_of_readable hc hready h
  · intro callbacks w huse hready
    constructor
    · intro h w1 hhead hactive
      exact receivable_of_iterationSurvives (h w1 hhead hactive)
    · intro h w1 hhead hactive
      exact iterationSurvives_of_receivable
        (fun w2 herror => emqProcess_of_error huse hready hhead hactive herror)
        (h w1 hhead hactive)

def getHeader : ProtocolResponseHeader :=
  ⟨emqProtocolRes, ProtocolCommand.queueGet.code, ProtocolResponseStatus.success.code, 9⟩

def getting (body : List UInt8) : World := World.connected [] (getHeader.bytes ++ body)

/-- The stream ends after the tag: the message that was not read is dereferenced. -/
theorem unread_message_dereferenced :
    ¬ ((∀ (k : Kernel) (c : Command) (cmd : ProtocolCommand) (w : World),
        Kernel.ReadsOk k → finish c = .message cmd → Reachable k w → CallSurvives k c w) ∧
      ∀ (k : Kernel) (callbacks : Callbacks) (w w1 : World), Kernel.ReadsOk k →
        UseLibrary k callbacks → Reachable k w →
        LoopHead k callbacks (withError .none w) w1 → ¬ Idle w1.client →
        IterationSurvives k callbacks w w1) := by
  rintro ⟨h, _⟩
  obtain ⟨reply, w', hexec, _⟩ := (h generous (.queueGet queueQ) .queueGet
    (getting (List.replicate 8 0)) generous_reliable.reads rfl ⟨[], _, .refl⟩).returns
  have hfaults : (exec generous (.queueGet queueQ) (getting (List.replicate 8 0))).result =
      none := by
    decide +kernel
  rw [hexec] at hfaults
  cases hfaults

theorem message_readers_survive_iff_whole :
    CallSurvives generous (.queueGet queueQ) (getting (List.replicate 9 0)) ∧
      ∀ w1, LoopHead generous Delivery.leave (withError .none Delivery.subscribed) w1 →
        ¬ Idle w1.client →
        IterationSurvives generous Delivery.leave Delivery.subscribed w1 := by
  have hall := message_readers_survive_iff generous
  constructor
  · refine (hall.1 _ .queueGet _ rfl (ready_connected _ _)).mpr (fun _ => ?_) generous rfl rfl
    have hbody : 8 ≤ (ProtocolResponseHeader.parse
          (getting (List.replicate 9 0)).input).bodylen.toNat ∧
        (ProtocolResponseHeader.parse
          (getting (List.replicate 9 0)).input).bodylen.toNat ≤ intMax + 8 ∧
        8 + (ProtocolResponseHeader.parse
          (getting (List.replicate 9 0)).input).bodylen.toNat ≤
            (getting (List.replicate 9 0)).input.length := by
      decide +kernel
    obtain ⟨hlow, hhigh, hall⟩ := hbody
    exact .inr (.inr ⟨hlow, hhigh, hall, generous_reliable.reads.delivers _ _, rfl, rfl⟩)
  · refine (hall.2 _ _ leave_useLibrary Delivery.ready_subscribed).mpr fun w1 hhead hactive => ?_
    rcases Delivery.subscribed_head hhead with heq | heq
    · have hbounds : prefixSize (.parse (withError .none Delivery.subscribed).input) ≤
            (ProtocolEventHeader.parse (withError .none Delivery.subscribed).input).bodylen.toNat ∧
          (ProtocolEventHeader.parse (withError .none Delivery.subscribed).input).bodylen.toNat ≤
            intMax + prefixSize (.parse (withError .none Delivery.subscribed).input) ∧
          hasMessage (.parse (withError .none Delivery.subscribed).input) := by
        decide +kernel
      rw [heq]
      exact fun _ _ _ => ⟨hbounds.1, hbounds.2.1, fun hnot => absurd hbounds.2.2 hnot⟩
    · rw [heq] at hactive
      exact absurd Delivery.idle_left hactive

end Libemq.MessageBounds
