import Libemq.Consumption
import Libemq.Framing

namespace Libemq.Rejection

open Libemq.CStrings
open Libemq.ExitCode
open Libemq.Client
open Libemq.Network
open Libemq.Protocol
open Libemq.Packet
open Libemq.Commands
open Libemq.Transactions
open Libemq.Responses
open Libemq.Calls
open Libemq.Events
open Libemq.Runs
open Libemq.Consumption
open Libemq.Framing

structure Frame where
  header : ProtocolResponseHeader
  body : List UInt8
  complete : body.length = header.bodylen.toNat
  bounded : body.length ≤ intMax

def Frame.bytes (f : Frame) : List UInt8 := f.header.bytes ++ f.body

theorem Frame.bytes_length (f : Frame) : f.bytes.length = 8 + f.body.length := by
  simp [Frame.bytes, ProtocolResponseHeader.bytes]

/-- The bytes that were taken are a whole number of the frames. -/
def TookFrames (frames : List Frame) (w w' : World) : Prop :=
  ∃ j, w.input = stream Frame.bytes (frames.take j) ++ w'.input

theorem tookFrames_iff_rest {frames : List Frame} {w w' : World}
    (hinput : w.input = stream Frame.bytes frames) :
    TookFrames frames w w' ↔ ∃ j, w'.input = stream Frame.bytes (frames.drop j) := by
  constructor
  · rintro ⟨j, hj⟩
    refine ⟨j, ?_⟩
    rw [hinput, ← stream_take_append_drop Frame.bytes frames j] at hj
    exact (List.append_cancel_left hj).symm
  · rintro ⟨j, hj⟩
    exact ⟨j, by rw [hinput, hj, stream_take_append_drop]⟩

theorem tookFrames_iff_boundary {frames : List Frame} {n : Nat} {w w' : World}
    (hinput : w.input = stream Frame.bytes frames) (htook : Took n w w') :
    TookFrames frames w w' ↔ Boundary Frame.bytes frames n := by
  obtain ⟨hn, hrest⟩ := htook
  rw [tookFrames_iff_rest hinput, hrest, hinput, boundary_iff_rest]
  rwa [hinput] at hn

theorem boundary_header {f : Frame} {frames : List Frame} :
    Boundary Frame.bytes (f :: frames) 8 ↔ f.body = [] := by
  rw [boundary_within_first Frame.bytes (by omega) (by
    rw [Frame.bytes_length]
    omega), Frame.bytes_length]
  constructor
  · intro h
    exact List.eq_nil_of_length_eq_zero (by omega)
  · intro h
    simp [h]

/-- The call looks at a response: it takes its arguments and waits, and the count of
its `writev` is not misread. -/
def LooksAtResponse (k : Kernel) (c : Command) (w : World) : Prop :=
  Accepts c ∧ ¬ Misread k w.writes (frame c w.client.noack).length (parts c) ∧
    Finish.awaits (finish c) w.client.noack = true

theorem looksAtResponse_of_issued {k : Kernel} {c : Command} {w w1 : World} (h : Issued k c w w1)
    (hawaits : Finish.awaits (finish c) w.client.noack = true) : LooksAtResponse k c w := by
  cases h with
  | intro n writes rest mallocs haccepts hroom hn hwhole hread =>
      exact ⟨haccepts, hread, hawaits⟩

/-- A call that fails although nothing failed below it has taken nothing or the head
of the response it looked at. -/
theorem took_of_failed {k : Kernel} {c : Command} {w : World} (hready : Ready w.client)
    {reply : Reply} {w' : World} (h : exec k c w = .returned reply w')
    (herr : w'.client.status = .err) (hno : w'.failures = w.failures) :
    (¬ LooksAtResponse k c w ∧ Took 0 w w') ∨
      (LooksAtResponse k c w ∧ Took (Finish.head (finish c)) w w') := by
  have houtcome := exec_outcome k c w hready.1
  rw [h] at houtcome
  generalize hresult : Outcome.returned reply w' = result at houtcome
  cases houtcome with
  | refused hrefused =>
      cases hresult
      exact .inl ⟨fun hlooks => hrefused hlooks.1, Nat.zero_le _, rfl⟩
  | exhausted size haccepts hsmall => exact absurd hsmall hready.large
  | unsent n writes failures rest mallocs haccepts hroom hstall hcause =>
      cases hresult
      rcases hcause with ⟨_, hmore⟩ | ⟨hmisread, _⟩
      · change failures = w.failures at hno
        omega
      · exact .inl ⟨fun hlooks => hlooks.2.1 hmisread, Nat.zero_le _, rfl⟩
  | unread w1 dropped reads hissued =>
      cases hresult
      change w.failures + 1 = w.failures at hno
      omega
  | rejected w1 reads hissued hawaits hlt hlong =>
      cases hresult
      refine .inr ⟨looksAtResponse_of_issued hissued hawaits, hlong, ?_⟩
      rw [← hissued.input]
      rfl
  | denied w1 reads hissued hawaits hlt hlong =>
      cases hresult
      refine .inr ⟨looksAtResponse_of_issued hissued hawaits, hlong, ?_⟩
      rw [← hissued.input]
      rfl
  | finished response w2 exit haccepted hbody =>
      obtain ⟨w1, reads, hissued, _, hw2⟩ := haccepted.issued
      subst hw2
      cases hbody with
      | done => cases hresult; cases herr
      | failed error dropped reads mallocs failures hreads hmore =>
          cases hresult
          change w.failures < failures at hmore
          change failures = w.failures at hno
          omega
      | unnamed dropped reads mallocs failures hreads hmore =>
          cases hresult
          change w.failures < failures at hmore
          change failures = w.failures at hno
          omega
      | faulted => cases hresult

theorem failed_call_tookFrames_iff {k : Kernel} {c : Command} {w : World}
    (hready : Ready w.client) {frames : List Frame}
    (hinput : w.input = stream Frame.bytes frames) {reply : Reply} {w' : World}
    (h : exec k c w = .returned reply w') (herr : w'.client.status = .err)
    (hno : w'.failures = w.failures) :
    TookFrames frames w w' ↔
      (LooksAtResponse k c w → Boundary Frame.bytes frames (Finish.head (finish c))) := by
  rcases took_of_failed hready h herr hno with ⟨hnot, htook⟩ | ⟨hlooks, htook⟩
  · rw [tookFrames_iff_boundary hinput htook]
    exact iff_of_true (boundary_zero Frame.bytes frames) (fun h => absurd h hnot)
  · rw [tookFrames_iff_boundary hinput htook]
    exact ⟨fun h _ => h, fun h => h hlooks⟩

/-- An event that the client will not deliver is at the front of the input: its header
is none of an event, or its name has no subscription. -/
def Rejects (w : World) : Prop :=
  ¬ WellFormed (.parse w.input) ∨
    subscriber (.parse w.input) w.client ((w.input.drop 8).take 64) = none

/-- The bytes that are taken of a rejected event. -/
def rejectedSize (header : ProtocolEventHeader) : Nat :=
  if WellFormed header then 8 + prefixSize header else 8

/-- An event that is refused although nothing failed below is rejected, and its header
and, if that is well formed, its arrays were taken. -/
theorem took_of_refused {k : Kernel} {w w' : World} (h : receiveEvent k w = .error w')
    (hno : w'.failures = w.failures) :
    Rejects w ∧ Took (rejectedSize (.parse w.input)) w w' := by
  have houtcome := receiveEvent_outcome k w
  rw [h] at houtcome
  generalize hexit : Exit.error w' = exit at houtcome
  cases houtcome with
  | unread =>
      cases hexit
      change w.failures + 1 = w.failures at hno
      omega
  | malformed reads hreads henough hheader =>
      cases hexit
      rw [rejectedSize, if_neg hheader]
      exact ⟨.inl hheader, henough, rfl⟩
  | unregistered reads hreads hheader henough hnone =>
      cases hexit
      rw [rejectedSize, if_pos hheader]
      exact ⟨.inr hnone, henough, rfl⟩
  | truncated error dropped reads mallocs failures hreads hheader hfailures =>
      cases hexit
      change failures = w.failures at hno
      omega
  | complete => cases hexit
  | faulted => cases hexit

theorem not_rejects_of_received {k : Kernel} {w w' : World} {delivery : Delivery}
    (h : receiveEvent k w = .next delivery w') : ¬ Rejects w := by
  have houtcome := receiveEvent_outcome k w
  rw [h] at houtcome
  generalize hexit : Exit.next delivery w' = exit at houtcome
  cases houtcome with
  | complete callback name reads mallocs hreads hheader hsome =>
      rintro (hnot | hnone)
      · exact hnot hheader
      · rw [hsome] at hnone
        cases hnone
  | _ => cases hexit

theorem first_frame {frames : List Frame} {w : World} {n : Nat}
    (hinput : w.input = stream Frame.bytes frames) (hpos : 0 < n) (hle : n ≤ w.input.length) :
    ∃ f rest, frames = f :: rest ∧
      (ProtocolEventHeader.parse w.input).bodylen = f.header.bodylen := by
  cases frames with
  | nil =>
      rw [hinput] at hle
      simp only [stream_nil, List.length_nil] at hle
      omega
  | cons f rest =>
      refine ⟨f, rest, rfl, ?_⟩
      have hparse := ProtocolResponseHeader.parse_bytes f.header
        (f.body ++ stream Frame.bytes rest)
      rw [hinput, stream_cons, Frame.bytes, List.append_assoc]
      exact congrArg ProtocolResponseHeader.bodylen hparse

/-- A delivered event leaves the input at the end of its frame, unless it is a queue
notification of another length. -/
theorem received_boundary {k : Kernel} {w w' : World} {delivery : Delivery}
    {frames : List Frame} (hinput : w.input = stream Frame.bytes frames)
    (h : receiveEvent k w = .next delivery w')
    (hnotify : IsQueueNotify (.parse w.input) →
      (ProtocolEventHeader.parse w.input).bodylen.toNat = 64) :
    ∃ j, w'.input = stream Frame.bytes (frames.drop j) := by
  obtain ⟨hheader, hle, htook⟩ := took_of_received h
  obtain ⟨f, rest, hframes, hbodylen⟩ := first_frame hinput (by omega) htook.1
  have hsize := (size_of_event hheader hle).mpr hnotify
  rw [← hsize, hbodylen, ← f.complete, ← Frame.bytes_length] at htook
  rw [← tookFrames_iff_rest hinput, tookFrames_iff_boundary hinput htook, hframes]
  exact boundary_first Frame.bytes f rest

def At (frames : List Frame) (w : World) : Prop :=
  ∃ j, w.input = stream Frame.bytes (frames.drop j)

def Left (frames left : List Frame) (w : World) : Prop :=
  (∃ j, left = frames.drop j) ∧ w.input = stream Frame.bytes left

/-- Every queue notification that the loop delivers has the length of a name, and
callbacks that begin at the end of a frame return at the end of one. -/
structure Orderly (k : Kernel) (callbacks : Callbacks) (frames : List Frame) (w : World) :
    Prop where
  notify : ∀ w1 delivery s, LoopHead k callbacks w w1 →
    receiveEvent k w1 = .next delivery s → IsQueueNotify (.parse w1.input) →
    (ProtocolEventHeader.parse w1.input).bodylen.toNat = 64
  callback : ∀ w1 delivery s ret s', LoopHead k callbacks w w1 →
    receiveEvent k w1 = .next delivery s →
    callbacks delivery.1 delivery.2 (invoked delivery s) = .returned ret s' →
    At frames s → At frames s'

theorem Orderly.turn {k : Kernel} {callbacks : Callbacks} {frames : List Frame} {w s : World}
    (h : Orderly k callbacks frames w) (hturn : Turn k callbacks w s) :
    Orderly k callbacks frames s where
  notify := fun w1 delivery s' hhead => h.notify w1 delivery s' (.head hturn hhead)
  callback := fun w1 delivery s' ret s'' hhead =>
    h.callback w1 delivery s' ret s'' (.head hturn hhead)

theorem at_of_turn {k : Kernel} {callbacks : Callbacks} {frames : List Frame} {w s : World}
    (horderly : Orderly k callbacks frames w) (hat : At frames w)
    (hturn : Turn k callbacks w s) : At frames s := by
  obtain ⟨delivery, s1, ret, hreceive, hcallback, _⟩ := hturn.goes_on
  obtain ⟨j, hj⟩ := hat
  obtain ⟨i, hi⟩ := received_boundary hj hreceive
    (horderly.notify w delivery s1 .refl hreceive)
  refine horderly.callback w delivery s1 ret s .refl hreceive hcallback ⟨j + i, ?_⟩
  rw [hi, List.drop_drop]

theorem at_of_loopHead {k : Kernel} {callbacks : Callbacks} {frames : List Frame} {w w1 : World}
    (horderly : Orderly k callbacks frames w) (hat : At frames w)
    (hhead : LoopHead k callbacks w w1) : At frames w1 := by
  induction hhead using Relation.ReflTransGen.head_induction_on with
  | refl => exact hat
  | head hturn _ ih => exact ih (horderly.turn hturn) (at_of_turn horderly hat hturn)

/-- The loop begins an iteration here that rejects an event. -/
structure RejectsAt (k : Kernel) (callbacks : Callbacks) (w w1 : World) : Prop where
  head : LoopHead k callbacks w w1
  active : ¬ Idle w1.client
  rejects : Rejects w1

theorem not_turn_of_rejects {k : Kernel} {callbacks : Callbacks} {w w' : World}
    (h : Rejects w) : ¬ Turn k callbacks w w' := by
  intro hturn
  obtain ⟨delivery, s, ret, hreceive, _⟩ := hturn.goes_on
  exact not_rejects_of_received hreceive h

theorem rejectsAt_unique {k : Kernel} {callbacks : Callbacks} {w w1 w2 : World}
    (h1 : RejectsAt k callbacks w w1) (h2 : RejectsAt k callbacks w w2) : w1 = w2 := by
  have hlast : ∀ {s t}, Rejects s → LoopHead k callbacks s t → s = t := by
    intro s t hrejects hhead
    cases Relation.ReflTransGen.cases_head hhead with
    | inl heq => exact heq
    | inr hmore =>
        obtain ⟨_, hturn, _⟩ := hmore
        exact absurd hturn (not_turn_of_rejects hrejects)
  have hunique : Relator.RightUnique (Turn k callbacks) := fun _ _ _ => turn_unique
  rcases Relation.ReflTransGen.total_of_right_unique hunique h1.head h2.head with hhead | hhead
  · exact hlast h1.rejects hhead
  · exact (hlast h2.rejects hhead).symm

/-- A loop that fails although nothing failed below ends with a rejected event. -/
theorem took_of_failed_process {k : Kernel} {callbacks : Callbacks}
    (huse : UseLibrary k callbacks) {w w' : World} (hready : Ready w.client)
    (h : emqProcess k callbacks w = .returned .err w') (hno : w'.failures = w.failures) :
    ∃ w1, RejectsAt k callbacks (withError .none w) w1 ∧
      Took (rejectedSize (.parse w1.input)) w1 w' := by
  obtain ⟨w1, s, hhead, hactive, hreceive, rfl⟩ := emqProcess_err h
  have hsteps := hhead.steps huse
  have hbefore : w.failures ≤ w1.failures := (Steps.advances hsteps hready).failures
  have hafter := receiveEvent_advances (k := k) (w := w1)
  rw [hreceive] at hafter
  have hfailed : s.failures = w.failures := hno
  obtain ⟨hrejects, htook⟩ := took_of_refused hreceive (by
    have := hafter.failures
    omega)
  exact ⟨w1, ⟨hhead, hactive, hrejects⟩, htook⟩

theorem orderly_process_tookFrames_iff {k : Kernel} {callbacks : Callbacks}
    (huse : UseLibrary k callbacks) {w w' : World} (hready : Ready w.client)
    {frames : List Frame} (hinput : w.input = stream Frame.bytes frames)
    (horderly : Orderly k callbacks frames (withError .none w))
    (h : emqProcess k callbacks w = .returned .err w') (hno : w'.failures = w.failures) :
    TookFrames frames w w' ↔
      ∀ w1 left, RejectsAt k callbacks (withError .none w) w1 → Left frames left w1 →
        Boundary Frame.bytes left (rejectedSize (.parse w1.input)) := by
  obtain ⟨w1, hrejects, hlong, hrest⟩ := took_of_failed_process huse hready h hno
  have hpos : 0 < rejectedSize (.parse w1.input) := by
    unfold rejectedSize
    split <;> omega
  have hleft : ∀ left, Left frames left w1 →
      (TookFrames frames w w' ↔ Boundary Frame.bytes left (rejectedSize (.parse w1.input))) := by
    rintro left ⟨⟨j, rfl⟩, hinput1⟩
    have hlong' := hlong
    rw [hinput1] at hlong'
    rw [boundary_drop_iff Frame.bytes hpos (by rwa [← hinput1]), ← hinput1, ← hrest,
      tookFrames_iff_rest hinput]
  constructor
  · intro htook w2 left hrejects2 hleft2
    rw [rejectsAt_unique hrejects2 hrejects] at hleft2 ⊢
    exact (hleft left hleft2).mp htook
  · intro hall
    obtain ⟨j, hj⟩ := at_of_loopHead horderly ⟨0, hinput⟩ hrejects.head
    exact (hleft _ ⟨⟨j, rfl⟩, hj⟩).mpr (hall w1 _ hrejects ⟨⟨j, rfl⟩, hj⟩)

/-- A call that fails although nothing failed below it ends at the end of a frame iff
the response it looked at is no longer than the head it read. An `emq_process` that
fails so after notifications of their length and callbacks that return at the end of a
frame ends at the end of a frame iff the event that it rejects does not go on behind
what is taken of it. -/
theorem failure_tookFrames_iff (k : Kernel) :
    (∀ (c : Command) (w w' : World) (reply : Reply) (frames : List Frame),
      Ready w.client → w.input = stream Frame.bytes frames →
      exec k c w = .returned reply w' → w'.client.status = .err →
      w'.failures = w.failures →
      (TookFrames frames w w' ↔
        (LooksAtResponse k c w → Boundary Frame.bytes frames (Finish.head (finish c))))) ∧
    ∀ (callbacks : Callbacks) (w w' : World) (frames : List Frame),
      UseLibrary k callbacks → Ready w.client → w.input = stream Frame.bytes frames →
      Orderly k callbacks frames (withError .none w) →
      emqProcess k callbacks w = .returned .err w' → w'.failures = w.failures →
      (TookFrames frames w w' ↔
        ∀ w1 left, RejectsAt k callbacks (withError .none w) w1 → Left frames left w1 →
          Boundary Frame.bytes left (rejectedSize (.parse w1.input))) := by
  constructor
  · intro c w w' reply frames hready hinput h herr hno
    exact failed_call_tookFrames_iff hready hinput h herr hno
  · intro callbacks w w' frames huse hready hinput horderly h hno
    exact orderly_process_tookFrames_iff huse hready hinput horderly h hno

/-- The answer to `emq_queue_exist` of a server that refuses access but sends the body
of a success along. -/
def deniedFrame : Frame where
  header := ⟨emqProtocolRes, ProtocolCommand.queueExist.code,
    ProtocolResponseStatus.errorAccess.code, 4⟩
  body := [0, 0, 0, 0]
  complete := rfl
  bounded := by decide

/-- The query leaves the four bytes of the body in the input. -/
theorem denied_query_leaves_body :
    ¬ ((∀ (k : Kernel) (c : Command) (w w' : World) (reply : Reply) (frames : List Frame),
      Ready w.client → w.input = stream Frame.bytes frames →
      exec k c w = .returned reply w' → w'.client.status = .err →
      w'.failures = w.failures → TookFrames frames w w') ∧
    ∀ (k : Kernel) (callbacks : Callbacks) (w w' : World) (frames : List Frame),
      UseLibrary k callbacks → Ready w.client → w.input = stream Frame.bytes frames →
      emqProcess k callbacks w = .returned .err w' → w'.failures = w.failures →
      TookFrames frames w w') := by
  rintro ⟨h, _⟩
  let w := World.connected [] deniedFrame.bytes
  let c := Command.queueExist queueQ
  have hinput : w.input = stream Frame.bytes [deniedFrame] := rfl
  have hleft : (exec generous c w).state.input = [0, 0, 0, 0] := by decide +kernel
  have herr : (exec generous c w).state.client.status = .err := by decide +kernel
  have hno : (exec generous c w).state.failures = 0 := by decide +kernel
  have hresult : (exec generous c w).result = some (.value 0) := by decide +kernel
  obtain ⟨w', hexec⟩ := Outcome.eq_returned hresult
  rw [hexec] at hleft herr hno
  have htook := h generous c w w' _ [deniedFrame] (ready_connected _ _) hinput hexec herr hno
  rw [tookFrames_iff_rest hinput] at htook
  obtain ⟨j, hj⟩ := htook
  have hlength := congrArg List.length (hj.symm.trans hleft)
  cases j with
  | zero => exact absurd hlength (by decide +kernel)
  | succ j =>
      simp [stream_nil] at hlength

def strayFrame : Frame where
  header := ⟨emqProtocolRes, ProtocolCommand.ping.code, ProtocolResponseStatus.error.code, 0⟩
  body := []
  complete := rfl
  bounded := by decide

def silent : Callbacks := fun _ _ w => .returned 0 w

def strayed : World :=
  { World.connected [] strayFrame.bytes with
    client := { emqClientInit [] with queueSubscriptions := [subscriptionQ] } }

theorem strayed_unreceived {delivery : Delivery} {s : World} :
    receiveEvent generous (withError .none strayed) ≠ .next delivery s := by
  intro hnext
  have hnot : (receiveEvent generous (withError .none strayed)).isNext = false := by
    decide +kernel
  rw [hnext] at hnot
  cases hnot

theorem strayed_head {w1 : World}
    (h : LoopHead generous silent (withError .none strayed) w1) :
    w1 = withError .none strayed := by
  cases Relation.ReflTransGen.cases_head h with
  | inl heq => exact heq.symm
  | inr hmore =>
      obtain ⟨s, hturn, _⟩ := hmore
      obtain ⟨_, _, _, hnext, _⟩ := hturn.goes_on
      exact absurd hnext strayed_unreceived

theorem strayed_orderly : Orderly generous silent [strayFrame] (withError .none strayed) where
  notify := fun w1 delivery s hhead hreceive => by
    rw [strayed_head hhead] at hreceive
    exact absurd hreceive strayed_unreceived
  callback := fun w1 delivery s ret s' hhead hreceive => by
    rw [strayed_head hhead] at hreceive
    exact absurd hreceive strayed_unreceived

theorem failure_tookFrames_iff_stray :
    (∃ reply w', exec generous .ping (World.connected [] strayFrame.bytes) =
        .returned reply w' ∧
      TookFrames [strayFrame] (World.connected [] strayFrame.bytes) w') ∧
    ∃ w', emqProcess generous silent strayed = .returned .err w' ∧
      TookFrames [strayFrame] strayed w' := by
  constructor
  · let w := World.connected [] strayFrame.bytes
    have hresult : (exec generous .ping w).result = some (.status .err) := by decide +kernel
    have herr : (exec generous .ping w).state.client.status = .err := by decide +kernel
    have hno : (exec generous .ping w).state.failures = 0 := by decide +kernel
    obtain ⟨w', hexec⟩ := Outcome.eq_returned hresult
    rw [hexec] at herr hno
    exact ⟨_, w', hexec, ((failure_tookFrames_iff generous).1 .ping w w' _ [strayFrame]
      (ready_connected _ _) rfl hexec herr hno).mpr fun _ => boundary_header.mpr rfl⟩
  · have hresult : (emqProcess generous silent strayed).result = some .err := by decide +kernel
    have hno : (emqProcess generous silent strayed).state.failures = 0 := by decide +kernel
    obtain ⟨w', hprocess⟩ := Outcome.eq_returned hresult
    rw [hprocess] at hno
    refine ⟨w', hprocess, ((failure_tookFrames_iff generous).2 silent strayed w' [strayFrame]
      (fun _ _ _ _ _ h => by cases h; exact .refl) (ready_connected [] []) rfl strayed_orderly
      hprocess hno).mpr ?_⟩
    rintro w1 left hrejects ⟨⟨j, rfl⟩, hleft⟩
    rw [strayed_head hrejects.head] at hleft ⊢
    have hsize : rejectedSize (.parse (withError .none strayed).input) = 8 := by decide +kernel
    rw [hsize]
    cases j with
    | zero => exact boundary_header.mpr rfl
    | succ j =>
        have hlength : (withError .none strayed).input.length = 8 := by decide +kernel
        rw [hleft] at hlength
        simp [stream_nil] at hlength

end Libemq.Rejection
