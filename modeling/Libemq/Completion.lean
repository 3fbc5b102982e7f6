import Libemq.Calls

namespace Libemq.Completion

open Libemq.CStrings
open Libemq.ExitCode
open Libemq.Client
open Libemq.Network
open Libemq.Protocol
open Libemq.Packet
open Libemq.Commands
open Libemq.Transactions
open Libemq.Responses
open Libemq.Calls

theorem not_stalls {k : Kernel} (hwrites : Kernel.WritesOk k) (call size : Nat) (extra : Parts) :
    ¬ Stalls k call size extra := by
  cases extra with
  | none =>
      intro hstall
      change WriteStalls k call size at hstall
      induction hstall with
      | now hpos hzero =>
          obtain ⟨m, hm⟩ := hwrites.write _ _
          rw [hm] at hzero
          cases hzero
      | later _ _ _ _ ih => exact ih
  | some parts =>
      rintro ⟨m, hm, hlt, _⟩
      obtain ⟨m', hle, hm'⟩ := hwrites.writev (call + k.interrupts call) size
      rw [writevResult, hm'] at hm
      cases hm
      omega

section Answered

variable {k : Kernel} (hwrites : Kernel.WritesOk k) {w : World} (hready : Ready w.client)
  {c : Command} (haccepts : Accepts c)
  (hread : ¬ Misread k w.writes (frame c w.client.noack).length (parts c))

include hwrites hready haccepts hread

theorem issueRequest_next :
    ∃ w1, issueRequest k (valid c) ((request c).build k) (parts c) (withError .none w) =
      .next () w1 ∧ Issued k c w w1 := by
  have houtcome := issueRequest_outcome k (valid c) (request c) (parts c) (withError .none w)
    hready.1
  cases hissue : issueRequest k (valid c) ((request c).build k) (parts c) (withError .none w) with
  | next value w1 => exact ⟨w1, rfl, issued_of_next hready.1 hissue⟩
  | fault reason s => exact absurd hissue (issueRequest_ne_fault (w := withError .none w) hready.1)
  | error s =>
      rw [hissue] at houtcome
      generalize hexit : Exit.error s = exit at houtcome
      cases houtcome with
      | refused h =>
          rcases h with h | h
          · exact absurd haccepts.1 (by simp [h])
          · exact absurd haccepts.2 h
      | exhausted size _ _ hsmall =>
          exact absurd hsmall hready.large
      | failed n writes failures rest mallocs _ _ hroom hstall hcause =>
          rcases hcause with ⟨hfail, _⟩ | ⟨hwrap, _⟩
          · exact absurd hwrites hfail
          · exact absurd hwrap hread
      | short => cases hexit
      | whole => cases hexit

theorem answered_body {counts : List Nat}
    (hreads : Delivers k w.reads (Finish.head (finish c) :: counts))
    (hawaits : Finish.awaits (finish c) w.client.noack = true)
    (henough : Finish.head (finish c) ≤ w.input.length)
    (hcheck : Finish.check (finish c) (.parse w.input) = .ok)
    (hstatus : (ProtocolResponseHeader.parse w.input).status =
      ProtocolResponseStatus.success.code) :
    ∃ w2, Accepted k c w (w.input.take (Finish.head (finish c))) w2 ∧
      Delivers k w2.reads counts ∧
      exec k c w = close (finish c)
        (Finish.body k (finish c) (w.input.take (Finish.head (finish c))) w2) := by
  obtain ⟨w1, hissue, hissued⟩ := issueRequest_next hwrites hready haccepts hread
  have houtcome := awaitResponse_outcome k (Finish.head_bounds (finish c))
    (Finish.check (finish c)) w1
  rw [transact_eq, Code.bind_of_next hissue, Finish.run_eq, hissued.noack, hawaits, if_pos rfl]
  generalize hawait : awaitResponse k _ _ w1 = exit at houtcome
  cases houtcome with
  | unread dropped reads _ _ hcut =>
      rw [hissued.input, hissued.reads] at hcut
      exact absurd hreads (hcut henough counts)
  | rejected reads _ _ herr =>
      rw [hissued.input, hcheck] at herr
      cases herr
  | denied reads _ _ _ hdenied =>
      rw [hissued.input] at hdenied
      exact absurd hstatus hdenied
  | accepted reads _ _ _ _ hdelivers =>
      rw [hissued.reads] at hdelivers
      rw [Code.bind_of_next hawait]
      have haccepted := accepted_of_next hissued hawaits hawait
      rw [hissued.input] at haccepted ⊢
      exact ⟨_, haccepted, (hdelivers counts).mp hreads, rfl⟩

end Answered

def BodySize : Finish → Nat → Prop
  | .acknowledge .., n => n = 0
  | .stat, n => n = 55
  | .value .., n => n = 4
  | .records kind, n => n ≤ intMax ∧ kind.size ∣ n
  | .message _, n => 8 ≤ n ∧ n ≤ intMax + 8

theorem BodySize.wellSized {f : Finish} {n : Nat} (h : BodySize f n) : Finish.WellSized f n := by
  cases f with
  | records kind => exact h
  | message cmd => exact h
  | _ => trivial

theorem BodySize.whole {f : Finish} {n : Nat} (h : BodySize f n) :
    Finish.head f + Finish.size f n = 8 + n := by
  cases f <;> simp_all [BodySize, Finish.head, Finish.size]

theorem BodySize.lt {f : Finish} {n : Nat} (h : BodySize f n) : n < 4294967296 := by
  cases f <;> simp only [BodySize, intMax] at h <;> omega

structure Completed (c : Command) (tail : List UInt8) (w w' : World) : Prop where
  status : w'.client.status = .ok
  input : w'.input = tail
  output : w'.output = w.output ++ frame c w.client.noack
  ready : Ready w'.client
  noack : w'.client.noack = w.client.noack
  failures : w'.failures = w.failures

section Reliable

variable {k : Kernel} (hk : Kernel.Reliable k) {w : World} (hready : Ready w.client)
  {c : Command} (haccepts : Accepts c)
  (hread : ¬ Misread k w.writes (frame c w.client.noack).length (parts c))

include hk hready haccepts hread

/-- A successful response of the size that the call reads completes it. -/
theorem answered_completes (hawaits : Finish.awaits (finish c) w.client.noack = true)
    {header : ProtocolResponseHeader} {body tail : List UInt8}
    (hinput : w.input = header.bytes ++ body ++ tail)
    (hcheck : Finish.check (finish c) header = .ok)
    (hstatus : header.status = ProtocolResponseStatus.success.code)
    (hbodylen : header.bodylen.toNat = body.length)
    (hsize : BodySize (finish c) body.length) :
    ∃ w', exec k c w = .returned
        (Finish.reply (finish c) (w.input.take (Finish.head (finish c)))
          ((w.input.drop (Finish.head (finish c))).take
            (Finish.size (finish c) body.length))) w' ∧
      Completed c tail w w' := by
  have hsized := hsize.wellSized
  have hwhole := hsize.whole
  have hparse : ProtocolResponseHeader.parse w.input = header := by
    rw [hinput, List.append_assoc, ProtocolResponseHeader.parse_bytes]
  have hfront : (header.bytes ++ body).length = 8 + body.length := by
    simp [ProtocolResponseHeader.bytes]
  have hlength : w.input.length = 8 + body.length + tail.length := by
    rw [hinput, List.length_append, hfront]
  have houtcome := exec_outcome k c w hready.1
  generalize exec k c w = result at houtcome
  cases houtcome with
  | refused h => exact absurd haccepts h
  | exhausted size _ hsmall => exact absurd hsmall hready.large
  | unsent n writes failures rest mallocs _ hroom hstall hcause =>
      rcases hcause with ⟨hfail, _⟩ | ⟨hwrap, _⟩
      · exact absurd hk.writes hfail
      · exact absurd hwrap hread
  | unread w1 dropped reads hissued _ hlt hend =>
      have := (hend hk.reads).1
      omega
  | rejected w1 reads hissued _ hlt hlong herr =>
      rw [hparse, hcheck] at herr
      cases herr
  | denied w1 reads hissued _ hlt hlong hok hdenied =>
      rw [hparse] at hdenied
      exact absurd hstatus hdenied
  | finished response w2 exit haccepted hbody =>
      cases haccepted with
      | unanswered _ hissued hnot =>
          rw [hawaits] at hnot
          cases hnot
      | answered w1 reads hissued _ hlt hlong hok hsuccess =>
          rw [parse_take (Finish.head_bounds _).1, hparse, hbodylen] at hbody
          have henough : ¬ (¬ Finish.WellSized (finish c) body.length ∨
              (received w1 (Finish.head (finish c)) reads w.failures).input.length <
                Finish.size (finish c) body.length) := by
            rintro (hnot | hshort)
            · exact hnot hsized
            · rw [received_input, hissued.input, List.length_drop] at hshort
              omega
          cases hbody with
          | done reply done reads' mallocs failures _ _ hreads hfailures hcommit hreply halloc
              hall =>
              obtain ⟨_, hsame, hreplyEq⟩ := hall hk.mallocs
              rw [received_input, hissued.input] at hreplyEq
              subst hreplyEq
              refine ⟨_, rfl, rfl, ?_, ?_, (hissued.ready hready).1, hissued.noack, hsame⟩
              · change List.drop _ (List.drop _ w1.input) = tail
                rw [List.drop_drop, hissued.input, hwhole, hinput, ← hfront, List.drop_left]
              · exact hissued.output.mpr (not_stalls hk.writes _ _ _)
          | failed error dropped reads' mallocs failures hreads hfailures halloc hcause =>
              exact absurd (hcause hk.reads hk.mallocs) henough
          | unnamed dropped reads' mallocs failures hreads hfailures hanswers hcause =>
              exact absurd (hcause hk.reads hk.mallocs) henough
          | faulted reason w' hreads houtput hanswers hcause =>
              exact absurd (hcause hk.reads hk.mallocs) henough

/-- A call that waits for no response completes with its frame. -/
theorem unanswered_completes (hawaits : Finish.awaits (finish c) w.client.noack = false) :
    ∃ w', exec k c w = .returned (.status .ok) w' ∧ Completed c w.input w w' := by
  have houtcome := exec_outcome k c w hready.1
  generalize exec k c w = result at houtcome
  cases houtcome with
  | refused h => exact absurd haccepts h
  | exhausted size _ hsmall => exact absurd hsmall hready.large
  | unsent n writes failures rest mallocs _ hroom hstall hcause =>
      rcases hcause with ⟨hfail, _⟩ | ⟨hwrap, _⟩
      · exact absurd hk.writes hfail
      · exact absurd hwrap hread
  | unread w1 dropped reads hissued hwaits => simp [hwaits] at hawaits
  | rejected w1 reads hissued hwaits => simp [hwaits] at hawaits
  | denied w1 reads hissued hwaits => simp [hwaits] at hawaits
  | finished response w2 exit haccepted hbody =>
      cases haccepted with
      | answered w1 reads hissued hwaits => simp [hwaits] at hawaits
      | unanswered _ hissued _ =>
          cases hfinish : finish c with
          | acknowledge check commit =>
              rw [hfinish] at hbody
              cases hbody with
              | done reply done reads' mallocs failures _ _ _ _ _ hreply _ hall =>
                  cases hreply
                  exact ⟨_, rfl, rfl, hissued.input, hissued.output.mpr
                    (not_stalls hk.writes _ _ _), (hissued.ready hready).1, hissued.noack,
                    (hall hk.mallocs).2.1.trans hissued.failures⟩
              | failed error dropped reads' mallocs failures _ _ _ hcause =>
                  have hnot : ¬ (¬ True ∨ w2.input.length < 0) := by simp
                  exact absurd (hcause hk.reads hk.mallocs) hnot
              | unnamed dropped reads' mallocs failures _ _ hwaits => cases hwaits
              | faulted reason w' _ _ hwaits => cases hwaits
          | _ =>
              rw [hfinish] at hawaits
              cases hawaits

/-- A call whose only answer is a status puts its frame on the wire, whatever the answer
turns out to be. -/
theorem frame_emitted (hc : Finish.awaits (finish c) true = false) :
    ∃ reply w', exec k c w = .returned reply w' ∧
      w'.output = w.output ++ frame c w.client.noack := by
  have hsent : ∀ w1, Issued k c w w1 → w1.output = w.output ++ frame c w.client.noack :=
    fun _ hissued => hissued.output.mpr (not_stalls hk.writes _ _ _)
  have houtcome := exec_outcome k c w hready.1
  generalize exec k c w = result at houtcome
  cases houtcome with
  | refused h => exact absurd haccepts h
  | exhausted size _ hsmall => exact absurd hsmall hready.large
  | unsent n writes failures rest mallocs _ hroom hstall hcause =>
      rcases hcause with ⟨hfail, _⟩ | ⟨hwrap, _⟩
      · exact absurd hk.writes hfail
      · exact absurd hwrap hread
  | unread w1 dropped reads hissued => exact ⟨_, _, rfl, hsent w1 hissued⟩
  | rejected w1 reads hissued => exact ⟨_, _, rfl, hsent w1 hissued⟩
  | denied w1 reads hissued => exact ⟨_, _, rfl, hsent w1 hissued⟩
  | finished response w2 exit haccepted hbody =>
      obtain ⟨w1, reads, hissued, _, rfl⟩ := haccepted.issued
      cases hbody with
      | done => exact ⟨_, _, rfl, hsent w1 hissued⟩
      | failed => exact ⟨_, _, rfl, hsent w1 hissued⟩
      | unnamed => exact ⟨_, _, rfl, hsent w1 hissued⟩
      | faulted reason w' _ _ hwaits =>
          rw [hc] at hwaits
          cases hwaits

end Reliable

end Libemq.Completion
