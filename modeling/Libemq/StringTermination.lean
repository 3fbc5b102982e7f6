import Libemq.AllocationFailure

namespace Libemq.StringTermination

open Libemq.CStrings
open Libemq.ExitCode
open Libemq.Client
open Libemq.Network
open Libemq.Protocol
open Libemq.Commands
open Libemq.Transactions
open Libemq.Responses
open Libemq.Calls
open Libemq.Completion
open Libemq.Events
open Libemq.Runs
open Libemq.ListBounds
open Libemq.MessageBounds
open Libemq.AllocationFailure

abbrev Terminated (array : List UInt8) : Prop := (0 : UInt8) ∈ array

def Record.arrays : Record → List (List UInt8)
  | .user user => [user.name, user.password]
  | .queue queue => [queue.name]
  | .route route => [route.name]
  | .routeKey routeKey => [routeKey.key, routeKey.queue]
  | .channel channel => [channel.name]

/-- Where the character arrays of a record are on the wire, and how long they are. -/
def RecordKind.strings : RecordKind → List (Nat × Nat)
  | .users => [(0, 32), (32, 32)]
  | .queues => [(0, 64)]
  | .routes => [(0, 64)]
  | .routeKeys => [(0, 32), (32, 64)]
  | .channels => [(0, 64)]

/-- The server terminated every string in a list response. -/
def BodyTerminated (kind : RecordKind) (body : List UInt8) : Prop :=
  ∀ j, (j + 1) * kind.size ≤ body.length → ∀ field ∈ RecordKind.strings kind,
    Terminated ((body.drop (j * kind.size + field.1)).take field.2)

def ListTerminated (k : Kernel) (c : Command) (w : World) : Prop :=
  ∀ records w', exec k c w = .returned (.list (some records)) w' →
    ∀ record ∈ records, ∀ array ∈ Record.arrays record, Terminated array

theorem arrays_decode (kind : RecordKind) (bytes : List UInt8) :
    Record.arrays (kind.decode bytes) =
      (RecordKind.strings kind).map fun field => (bytes.drop field.1).take field.2 := by
  cases kind <;> rfl

theorem strings_bound {kind : RecordKind} {field : Nat × Nat}
    (h : field ∈ RecordKind.strings kind) : field.1 + field.2 ≤ kind.size := by
  revert field
  cases kind <;> decide

theorem bodyTerminated_iff {kind : RecordKind} {body : List UInt8} :
    BodyTerminated kind body ↔
      ∀ record ∈ recordsFrom kind body 0, ∀ array ∈ Record.arrays record, Terminated array := by
  have hfield : ∀ (j : Nat) (field : Nat × Nat), field ∈ RecordKind.strings kind →
      (((body.drop (0 + j * kind.size)).take kind.size).drop field.1).take field.2 =
        (body.drop (j * kind.size + field.1)).take field.2 := by
    intro j field hmem
    have hbound := strings_bound hmem
    rw [List.drop_take, List.take_take, List.drop_drop, Nat.zero_add,
      Nat.min_eq_left (by omega)]
  have hcount : ∀ j, j < (body.length - 0) / kind.size ↔ (j + 1) * kind.size ≤ body.length := by
    intro j
    rw [← Nat.succ_le_iff, Nat.le_div_iff_mul_le (RecordKind.size_pos kind), Nat.sub_zero]
  simp only [recordsFrom, List.forall_mem_map, List.mem_range, hcount, arrays_decode]
  constructor
  · intro h j hj field hmem
    rw [hfield j field hmem]
    exact h j hj field hmem
  · intro h j hj field hmem
    rw [← hfield j field hmem]
    exact h j hj field hmem

theorem listTerminated_of_body {k : Kernel} {c : Command} {kind : RecordKind} {w : World}
    (hc : finish c = .records kind) (hready : Ready w.client)
    (h : Answered c w →
      Finish.WellSized (.records kind) (ProtocolResponseHeader.parse w.input).bodylen.toNat →
      (ProtocolResponseHeader.parse w.input).bodylen.toNat ≤ w.input.length - 8 →
      BodyTerminated kind
        ((w.input.drop 8).take (ProtocolResponseHeader.parse w.input).bodylen.toNat)) :
    ListTerminated k c w := by
  intro records w' hreturned record hrecord
  rcases exec_body k c w hready.1 with ⟨_, _, hexec, _⟩ | ⟨response, w2, haccepted, hexec⟩
  · rw [hreturned, hc] at hexec
    cases hexec
  · obtain ⟨⟨_, hanswered⟩, _⟩ := accepted_start hready haccepted
    obtain ⟨hinput, hbody⟩ := accepted_records hc haccepted
    have houtcome := readRecords_allocations k kind
      (ProtocolResponseHeader.parse w.input).bodylen.toNat_lt w2
    rw [hreturned, hbody] at hexec
    generalize readRecords k kind _ w2 = exit at houtcome hexec
    cases houtcome with
    | listed list w3 hsized henough hsublist =>
        cases hexec
        rw [hinput] at henough hsublist
        rw [List.length_drop] at henough
        have hterminated := h (hanswered (by rw [hc]; rfl)) hsized henough
        exact bodyTerminated_iff.mp hterminated record
          (List.mem_reverse.mp (hsublist.subset hrecord))
    | failed error w3 =>
        rw [hc] at hexec
        cases hexec
    | faulted => cases hexec

theorem body_of_listTerminated {c : Command} {kind : RecordKind} {w : World}
    (hc : finish c = .records kind) (hready : Ready w.client)
    (h : ListTerminated generous c w) (hanswered : Answered c w)
    (hsized : Finish.WellSized (.records kind)
      (ProtocolResponseHeader.parse w.input).bodylen.toNat)
    (henough : (ProtocolResponseHeader.parse w.input).bodylen.toNat ≤ w.input.length - 8) :
    BodyTerminated kind
      ((w.input.drop 8).take (ProtocolResponseHeader.parse w.input).bodylen.toNat) := by
  obtain ⟨response, w2, haccepted, hexec⟩ := exec_favourable hready generous_reliable.writes
    generous_reliable.reads (not_misread_of_awaits (by rw [hc]; rfl) _ _)
    ⟨hanswered.1, fun _ => hanswered⟩
  obtain ⟨hinput, hbody⟩ := accepted_records hc haccepted
  have houtcome := readRecords_outcome generous kind
    (ProtocolResponseHeader.parse w.input).bodylen.toNat_lt w2
  rw [hbody] at hexec
  generalize readRecords generous kind _ w2 = exit at houtcome hexec
  cases houtcome with
  | listed list reads mallocs failures _ _ _ _ hall =>
      obtain ⟨hlist, _⟩ := hall generous_reliable.mallocs
      have hterminated := h list _ hexec
      rw [hlist, hinput] at hterminated
      refine bodyTerminated_iff.mpr fun record hrecord => ?_
      exact hterminated record (List.mem_reverse.mpr hrecord)
  | failed error dropped reads mallocs failures _ _ hend =>
      have := (hend generous_reliable.reads generous_reliable.mallocs).1
      rw [hinput, List.length_drop] at this
      omega
  | faulted reason w' _ _ hcounted => exact absurd hsized.2 (hcounted hsized.1).2

structure ArgsTerminated (args : CallbackArgs) : Prop where
  name : Terminated args.name
  topic : ∀ topic, args.topic = some topic → Terminated topic
  pattern : ∀ pattern, args.pattern = some pattern → Terminated pattern

/-- The next event is for a registered name, and a message that comes with it arrives, is
one that the reader can count, and gets its memory. -/
def Deliverable (malloc : Nat → Nat → Bool) (w : World) : Prop :=
  WellFormed (.parse w.input) ∧ Addressed (.parse w.input) w.client (w.input.drop 8) ∧
    (hasMessage (.parse w.input) →
      messageSize (.parse w.input) ≤ intMax ∧
      8 + prefixSize (.parse w.input) + messageSize (.parse w.input) ≤ w.input.length ∧
      malloc w.mallocs 32 = true ∧
      malloc (w.mallocs + 1) (messageSize (.parse w.input)) = true)

/-- Whoever published an event terminated its topic and its pattern. -/
def EventTerminated (header : ProtocolEventHeader) (body : List UInt8) : Prop :=
  header.cmd ≠ ProtocolCommand.queueSubscribe.code →
    Terminated ((body.drop 64).take 32) ∧
      (header.cmd ≠ ProtocolCommand.channelSubscribe.code →
        Terminated ((body.drop 96).take 32))

theorem FieldString.terminated {width : Nat} (field : FieldString width) :
    Terminated field.array := by
  rw [FieldString.array, charArray_eq field.fits]
  exact List.mem_append_right _ List.mem_cons_self

theorem subscriber_terminated {header : ProtocolEventHeader} {c : EmqClient}
    {field : List UInt8} {callback : CallbackPtr} {name : List UInt8}
    (h : subscriber header c field = some (callback, name)) : Terminated name := by
  unfold subscriber at h
  split at h
  · obtain ⟨s, _, hs⟩ := Option.map_eq_some_iff.mp h
    cases hs
    exact FieldString.terminated s.name
  · obtain ⟨s, _, hs⟩ := Option.map_eq_some_iff.mp h
    cases hs
    exact FieldString.terminated s.name

theorem argsTerminated_iff {header : ProtocolEventHeader} {name body : List UInt8}
    (hname : Terminated name) :
    ArgsTerminated (eventArgs header name body) ↔ EventTerminated header body := by
  unfold eventArgs EventTerminated
  split
  · rename_i hqueue
    exact iff_of_true ⟨hname, nofun, nofun⟩ fun hnot => absurd hqueue hnot
  · rename_i hqueue
    split
    · rename_i hchannel
      constructor
      · intro h _
        exact ⟨h.topic _ rfl, fun hnot => absurd hchannel hnot⟩
      · intro h
        refine ⟨hname, ?_, nofun⟩
        rintro topic ⟨rfl⟩
        exact (h hqueue).1
    · rename_i hchannel
      constructor
      · intro h _
        exact ⟨h.topic _ rfl, fun _ => h.pattern _ rfl⟩
      · intro h
        obtain ⟨htopic, hpattern⟩ := h hqueue
        refine ⟨hname, ?_, ?_⟩
        · rintro topic ⟨rfl⟩
          exact htopic
        · rintro pattern ⟨rfl⟩
          exact hpattern hchannel

theorem delivered_args {k : Kernel} {w w' : World} {delivery : Delivery}
    (h : receiveEvent k w = .next delivery w') :
    ArgsTerminated delivery.2 ↔ EventTerminated (.parse w.input) (w.input.drop 8) := by
  have houtcome := receiveEvent_outcome k w
  rw [h] at houtcome
  generalize hexit : Exit.next delivery w' = exit at houtcome
  cases houtcome with
  | complete callback name reads mallocs _ _ hsome =>
      cases hexit
      exact argsTerminated_iff (subscriber_terminated hsome)
  | _ => cases hexit

theorem readArray_mallocs {k : Kernel} {size : Nat} (hsize : size ≤ intMax) {w w' : World}
    {bytes : List UInt8} (h : readArray k size w = .next (some bytes) w') :
    w'.mallocs = w.mallocs := by
  have houtcome := readArray_outcome k hsize w
  rw [h] at houtcome
  generalize hexit : Exit.next (some bytes) w' = exit at houtcome
  cases houtcome with
  | whole reads =>
      cases hexit
      rfl
  | failed => cases hexit

theorem readPattern_mallocs {k : Kernel} {extended : Bool} {w w' : World}
    {pattern : Option (List UInt8)} (h : readPattern k extended w = .next (some pattern) w') :
    w'.mallocs = w.mallocs := by
  rcases readPattern_outcome k extended w with ⟨_, _, _, _, hread⟩ | ⟨_, _, _, _, _, hread⟩
  · rw [h] at hread
    cases hread
    rfl
  · rw [h] at hread
    cases hread

theorem ArraysRead.mallocs {k : Kernel} {header : ProtocolEventHeader} {w w' : World}
    {size : Nat} (h : ArraysRead k header w size w') : w'.mallocs = w.mallocs := by
  cases h with
  | queue hcmd hname => exact readArray_mallocs (by decide) hname
  | channel hcmd hextended hname htopic hpattern =>
      rw [readPattern_mallocs hpattern, readArray_mallocs (by decide) htopic,
        readArray_mallocs (by decide) hname]

theorem readEventHeader_mallocs {k : Kernel} {w s : World} {header : ProtocolEventHeader}
    (h : readEventHeader k w = .next header s) : s.mallocs = w.mallocs := by
  rcases readEventHeader_outcome k w with ⟨_, _, _, _, _, hheader⟩ | ⟨_, _, _, _, hheader⟩ |
    ⟨reads, _, _, _, _, hheader⟩
  · rw [h] at hheader
    cases hheader
  · rw [h] at hheader
    cases hheader
  · rw [h] at hheader
    cases hheader
    rfl

theorem message_read_iff {k : Kernel} (hreads : Kernel.ReadsOk k) {size : Nat}
    (hsize : size < 4294967296) (w : World) :
    (∃ msg w', emqReadMessage k size w = .next (some msg) w') ↔
      size ≤ intMax ∧ size ≤ w.input.length ∧ k.malloc w.mallocs 32 = true ∧
        k.malloc (w.mallocs + 1) size = true := by
  constructor
  · rintro ⟨msg, w', h⟩
    obtain ⟨hfirst, hsecond, hlength, _⟩ := emqReadMessage_some (size_cases hsize) h
    have houtcome := emqReadMessage_outcome k (size_cases hsize) w
    rw [h] at houtcome
    generalize hexit : Exit.next (some msg) w' = exit at houtcome
    cases houtcome with
    | whole reads mallocs hle => exact ⟨hle, hlength, hfirst, hsecond⟩
    | _ => cases hexit
  · rintro ⟨hle, hlength, hfirst, hsecond⟩
    exact emqReadMessage_granted size w (hreads.delivers [_] _) hfirst hsecond hle hlength

/-- An iteration of `emq_process` reaches a callback exactly when its event is
deliverable. -/
theorem delivers_iff {k : Kernel} (hreads : Kernel.ReadsOk k) (w : World) :
    (∃ delivery w', receiveEvent k w = .next delivery w') ↔ Deliverable k.malloc w := by
  have hpos := prefixSize_ge (.parse w.input)
  rcases receiveEvent_arrays k w with ⟨w2, herror, hshort⟩ |
    ⟨s, exit, hheader, hclient, hinput, _, hwf, houtcome, hreceive⟩
  · rw [herror]
    refine iff_of_false (fun ⟨_, _, h⟩ => by cases h) fun ⟨hwf, haddressed, _⟩ => ?_
    have harrays := haddressed.1
    rw [List.length_drop] at harrays
    exact hshort (by omega) hwf [] (hreads.delivers _ _)
  · rw [hreceive]
    have hmallocs := readEventHeader_mallocs hheader
    cases houtcome with
    | refused s' hcause =>
        rw [hclient, hinput] at hcause
        exact iff_of_false (fun ⟨_, _, h⟩ => by cases h) fun ⟨_, haddressed, _⟩ =>
          hcause (hreads.delivers _ _) haddressed
    | notified delivery s' haddressed hmessage =>
        rw [hclient, hinput] at haddressed
        exact iff_of_true ⟨delivery, s', rfl⟩
          ⟨hwf, haddressed, fun hnot => absurd hnot hmessage⟩
    | reading s' f hread =>
        obtain ⟨haddressed, hmessage, _, hlength, _⟩ := hread.addressed
        have hread := message_read_iff hreads (messageSize_lt (.parse w.input)) s'
        rw [hclient, hinput] at haddressed
        have harrays := haddressed.1
        rw [hinput] at hlength
        rw [List.length_drop] at hlength harrays
        rw [ArraysRead.mallocs ‹_›, hmallocs, hlength] at hread
        have hsame : Deliverable k.malloc w ↔
            ∃ msg w', emqReadMessage k (messageSize (.parse w.input)) s' = .next (some msg) w' := by
          rw [hread]
          constructor
          · rintro ⟨_, _, hall⟩
            obtain ⟨hle, henough, hmemory⟩ := hall hmessage
            exact ⟨hle, by omega, hmemory⟩
          · rintro ⟨hle, henough, hmemory⟩
            exact ⟨hwf, haddressed, fun _ => ⟨hle, by omega, hmemory⟩⟩
        rw [hsame]
        cases hrun : emqReadMessage k (messageSize (.parse w.input)) s' with
        | next msg w' =>
            rw [Code.bind_of_next hrun]
            cases msg with
            | none => exact iff_of_false (fun ⟨_, _, h⟩ => by cases h) fun ⟨_, _, h⟩ => by cases h
            | some msg => exact iff_of_true ⟨_, _, rfl⟩ ⟨_, _, rfl⟩
        | error w' =>
            rw [Code.bind_of_error hrun]
            exact iff_of_false (fun ⟨_, _, h⟩ => by cases h) fun ⟨_, _, h⟩ => by cases h
        | fault reason w' =>
            rw [Code.bind_of_fault hrun]
            exact iff_of_false (fun ⟨_, _, h⟩ => by cases h) fun ⟨_, _, h⟩ => by cases h

def CallbacksTerminated (k : Kernel) (callbacks : Callbacks) (w : World) : Prop :=
  ∀ w1, LoopHead k callbacks (withError .none w) w1 → ¬ Idle w1.client →
    ∀ delivery w2, receiveEvent k w1 = .next delivery w2 → ArgsTerminated delivery.2

/-- The strings in what a list function returns are terminated, whatever the kernel does,
iff the server terminated those in the body; and the callbacks of `emq_process` are called
with terminated strings iff the topics and patterns of the events that reach them are. -/
theorem strings_terminated_iff (k : Kernel) (hreads : Kernel.ReadsOk k) :
    (∀ (c : Command) (kind : RecordKind) (w : World), finish c = .records kind →
      Ready w.client →
      ((∀ k', ListTerminated k' c w) ↔
        (Answered c w →
          Finish.WellSized (.records kind)
            (ProtocolResponseHeader.parse w.input).bodylen.toNat →
          (ProtocolResponseHeader.parse w.input).bodylen.toNat ≤ w.input.length - 8 →
          BodyTerminated kind
            ((w.input.drop 8).take (ProtocolResponseHeader.parse w.input).bodylen.toNat)))) ∧
    ∀ (callbacks : Callbacks) (w : World),
      (CallbacksTerminated k callbacks w ↔
        ∀ w1, LoopHead k callbacks (withError .none w) w1 → ¬ Idle w1.client →
          Deliverable k.malloc w1 →
          EventTerminated (.parse w1.input) (w1.input.drop 8)) := by
  constructor
  · intro c kind w hc hready
    constructor
    · intro h
      exact body_of_listTerminated hc hready (h generous)
    · intro h k'
      exact listTerminated_of_body hc hready h
  · intro callbacks w
    constructor
    · intro h w1 hhead hactive hdeliverable
      obtain ⟨delivery, w2, hreceive⟩ := (delivers_iff hreads w1).mpr hdeliverable
      exact (delivered_args hreceive).mp (h w1 hhead hactive delivery w2 hreceive)
    · intro h w1 hhead hactive delivery w2 hreceive
      exact (delivered_args hreceive).mpr
        (h w1 hhead hactive ((delivers_iff hreads w1).mp ⟨delivery, w2, hreceive⟩))

def fullName : List UInt8 := List.replicate 32 97

/-- The array of a user name that fills it has no terminator. -/
theorem full_name_unterminated :
    ¬ ((∀ (k : Kernel) (c : Command) (kind : RecordKind) (w : World),
        finish c = .records kind → Reachable k w → ListTerminated k c w) ∧
      ∀ (k : Kernel) (callbacks : Callbacks) (w : World), UseLibrary k callbacks →
        Reachable k w → CallbacksTerminated k callbacks w) := by
  rintro ⟨h, _⟩
  obtain ⟨w', hexec⟩ := Outcome.eq_returned
    (by decide +kernel : (exec generous .userList
      (listed 72 (fullName ++ List.replicate 40 0))).result =
        some (.list (some [.user ⟨fullName, List.replicate 32 0, 0⟩])))
  have hname := h generous .userList .users (listed 72 (fullName ++ List.replicate 40 0)) rfl
    ⟨[], _, .refl⟩ _ w' hexec _ List.mem_cons_self fullName List.mem_cons_self
  exact absurd hname (by decide)

theorem strings_terminated_iff_short :
    ListTerminated generous .userList (listed 72 (97 :: List.replicate 71 0)) ∧
      CallbacksTerminated generous Delivery.leave Delivery.subscribed := by
  have hall := strings_terminated_iff generous generous_reliable.reads
  constructor
  · refine (hall.1 .userList .users (listed 72 (97 :: List.replicate 71 0)) rfl
      (ready_connected _ _)).mpr (fun _ _ _ j hj => ?_) generous
    have hlength : ((List.drop 8 (listed 72 (97 :: List.replicate 71 0)).input).take
        (ProtocolResponseHeader.parse
          (listed 72 (97 :: List.replicate 71 0)).input).bodylen.toNat).length = 72 := by
      decide +kernel
    have hfirst : j = 0 := by
      rw [hlength] at hj
      simp only [RecordKind.size] at hj
      omega
    subst hfirst
    decide +kernel
  · refine (hall.2 Delivery.leave Delivery.subscribed).mpr fun w1 hhead hactive _ => ?_
    rcases Delivery.subscribed_head hhead with heq | heq
    · have hqueue : (ProtocolEventHeader.parse
          (withError .none Delivery.subscribed).input).cmd =
            ProtocolCommand.queueSubscribe.code := by
        decide +kernel
      rw [heq]
      exact fun hnot => absurd hqueue hnot
    · rw [heq] at hactive
      exact absurd Delivery.idle_left hactive

end Libemq.StringTermination
