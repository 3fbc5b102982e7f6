import Libemq.CallStream
import Libemq.Relational
import Libemq.Waiting

/-!
A call in two halves: up to its request, and from there on. What has come in by then does
not matter to the first half, and the second takes an answer only when it is there as a
whole.
-/

namespace Libemq.Halves

open Libemq.CStrings
open Libemq.ExitCode
open Libemq.Relational
open Libemq.Client
open Libemq.Network
open Libemq.Protocol
open Libemq.Packet
open Libemq.Commands
open Libemq.Transactions
open Libemq.Responses
open Libemq.Calls
open Libemq.Completion
open Libemq.Runs
open Libemq.ServerErrors
open Libemq.Waiting
open Libemq.CallStream

/-- The first half of a call: up to its request. -/
def start (k : Kernel) (c : Command) : Emq Unit := do
  clearError
  issueRequest k (valid c) ((request c).build k) (parts c)

/-- The second half. -/
def conclude (k : Kernel) (c : Command) (w : World) : Result Reply :=
  close (finish c) ((finish c).run k w)

section Join

variable {k : Kernel} {c : Command} {w : World}

theorem start_apply : start k c w =
    issueRequest k (valid c) ((request c).build k) (parts c) (withError .none w) := rfl

theorem exec_of_started {w1 : World} (h : start k c w = .next () w1) :
    exec k c w = conclude k c w1 := by
  rw [start_apply] at h
  rw [transact_eq, Code.bind_of_next h]
  rfl

end Join

/-- The code does the same, whatever else there is to read. -/
abbrev Deaf {α : Type} (x : Emq α) : Prop :=
  ∀ input, Agree (fun w w' : World => w' = { w with input := input }) x x

theorem updateClient_deaf (f : EmqClient → EmqClient) : Deaf (updateClient f) := by
  intro input
  apply agree_modify
  rintro w _ rfl
  rfl

theorem failWith_deaf {α : Type} (error : EmqError) : Deaf (failWith error : Emq α) :=
  fun input => (updateClient_deaf _ input).bind fun _ => agree_raise

theorem readsClient_deaf {α : Type} (f : EmqClient → α) :
    Deaf (Code.reads fun w => f w.client) := by
  intro input
  apply agree_reads
  rintro w _ rfl
  rfl

section Sending

variable (k : Kernel)

theorem malloc_deaf (size : Nat) : Deaf (malloc k size) := by
  rintro input w _ rfl
  unfold malloc
  split
  · exact .next true rfl
  · exact .next false rfl

theorem sysWrite_deaf (bytes : List UInt8) : Deaf (sysWrite k bytes) := by
  rintro input w _ rfl
  unfold sysWrite
  cases k.write w.writes bytes.length with
  | none => exact .next none rfl
  | some m => exact .next _ rfl

theorem sysWritev_deaf (iov : List (List UInt8)) : Deaf (sysWritev k iov) := by
  rintro input w _ rfl
  unfold sysWritev
  cases k.writev w.writes iov.flatten.length with
  | none => exact .next none rfl
  | some m => exact .next _ rfl

theorem emqClientWriteLoop_deaf (count : Int) (fuel : Nat) :
    ∀ (totlen : Int) (buf : List UInt8), Deaf (emqClientWriteLoop k count fuel totlen buf) := by
  induction fuel with
  | zero => exact fun _ _ _ => agree_undefined _
  | succ fuel ih =>
      intro totlen buf input
      refine agree_ite (agree_pure _) ((sysWrite_deaf k _ input).bind fun nwritten => ?_)
      cases nwritten with
      | none => exact agree_pure _
      | some n =>
          cases n with
          | zero => exact agree_pure _
          | succ n => exact ih _ _ input

theorem retryWritev_deaf (iov : List (List UInt8)) (interrupts : Nat) :
    Deaf (retryWritev k iov interrupts) := by
  intro input
  induction interrupts with
  | zero =>
      refine (sysWritev_deaf k iov input).bind fun ret => ?_
      cases ret with
      | none => exact agree_pure _
      | some ret => exact agree_pure _
  | succ interrupts ih =>
      refine (agree_modify ?_).bind fun _ => ih
      rintro w _ rfl
      rfl

theorem emqClientWritev_deaf (iov : List (List UInt8)) : Deaf (emqClientWritev k iov) := by
  intro input
  refine (agree_reads ?_).bind fun interrupts => retryWritev_deaf k iov interrupts input
  rintro w _ rfl
  rfl

theorem emqCheckReallocClientRequest_deaf (size : Nat) :
    Deaf (emqCheckReallocClientRequest k size) := by
  intro input
  refine (readsClient_deaf id input).bind fun client => agree_ite ?_ (agree_pure _)
  refine agree_ite (agree_pure _)
    ((malloc_deaf k size input).bind fun granted => agree_ite ?_ ?_)
  · exact (updateClient_deaf _ input).bind fun _ => agree_pure _
  · exact (updateClient_deaf _ input).bind fun _ => agree_pure _

theorem emqSetClientRequest_deaf (frame : List UInt8) : Deaf (emqSetClientRequest frame) := by
  intro input
  refine (readsClient_deaf EmqClient.request input).bind fun buffer => ?_
  cases buffer with
  | none => exact agree_undefined _
  | some buffer => exact agree_ite (agree_undefined _) (updateClient_deaf _ input)

theorem build_deaf (r : Request) : Deaf (r.build k) := by
  intro input
  rw [Request.build_eq]
  refine agree_ite (agree_pure _)
    ((readsClient_deaf EmqClient.noack input).bind fun noack => ?_)
  refine (emqCheckReallocClientRequest_deaf k _ input).bind fun status => ?_
  cases status with
  | err => exact agree_pure _
  | ok => exact (emqSetClientRequest_deaf _ input).bind fun _ => agree_pure _

theorem sendRequest_deaf (parts : Parts) : Deaf (sendRequest k parts) := by
  intro input
  cases parts with
  | none =>
      refine (readsClient_deaf id input).bind fun client => ?_
      refine (emqClientWriteLoop_deaf k _ _ _ _ input).bind fun ret => ?_
      exact agree_ite (failWith_deaf _ input) (agree_pure _)
  | some parts =>
      refine (readsClient_deaf id input).bind fun client => ?_
      refine (emqClientWritev_deaf k _ input).bind fun ret => ?_
      exact agree_ite (failWith_deaf _ input) (agree_pure _)

theorem start_deaf (c : Command) : Deaf (start k c) := by
  intro input
  refine (updateClient_deaf _ input).bind fun _ => ?_
  refine agree_ite ((build_deaf k _ input).bind fun status => ?_) (failWith_deaf _ input)
  cases status with
  | err => exact failWith_deaf _ input
  | ok => exact sendRequest_deaf k _ input

end Sending

/-- What comes in while a call waits might as well have been there before it. -/
theorem start_input {k : Kernel} {c : Command} {w w1 : World} (h : start k c w = .next () w1)
    (input : List UInt8) :
    start k c { w with input := input } = .next () { w1 with input := input } := by
  have hexit := start_deaf k c input w _ rfl
  rw [h] at hexit
  generalize start k c { w with input := input } = exit at hexit
  cases hexit with
  | next _ h => rw [h]

section Start

variable {k : Kernel} {c : Command} {w : World} (hready : Ready w.client)

include hready

theorem start_accepted (hk : Kernel.Reliable k) (haccepts : Accepts c)
    (hlength : ¬ LengthMisread c w.client.noack) :
    ∃ w1, start k c w = .next () w1 ∧ Issued k c w w1 := by
  refine issueRequest_next hk.writes hready haccepts ?_
  rw [misread_iff hk.writes]
  exact hlength

theorem start_issued {w1 : World} (h : start k c w = .next () w1) : Issued k c w w1 :=
  issued_of_next hready.1 h

theorem start_refused (hnot : ¬ Accepts c) :
    start k c w = .error (withError .data (withError .none w)) := by
  have houtcome := issueRequest_outcome k (valid c) (request c) (parts c) (withError .none w)
    hready.1
  rw [start_apply]
  generalize issueRequest k (valid c) ((request c).build k) (parts c) _ = exit at houtcome
  cases houtcome with
  | refused => rfl
  | exhausted size _ _ hsmall => exact absurd hsmall hready.large
  | failed _ _ _ _ _ hvalid haccepted => exact absurd ⟨hvalid, haccepted⟩ hnot
  | short _ _ _ _ hvalid haccepted => exact absurd ⟨hvalid, haccepted⟩ hnot
  | whole _ _ _ hvalid haccepted => exact absurd ⟨hvalid, haccepted⟩ hnot

end Start

/-- What the call returns that is given the answer. -/
def replyOf {c : Command} (answer : Answer c) : Reply :=
  if answer.status = .success ∧ ¬ ExpectsOther c then
    Finish.reply (finish c) answer.bytes answer.body
  else (finish c).failure

/-- The answer is not sent, or the call that gets it waits for more. -/
def Blocks {c : Command} (answer : Answer c) (noack : Bool) : Prop :=
  (noack = true ∧ answer.body = []) ∨ (c = .stat ∧ answer.status ≠ .success)

instance {c : Command} (answer : Answer c) (noack : Bool) : Decidable (Blocks answer noack) := by
  unfold Blocks
  infer_instance

section Front

variable {c : Command} (answer : Answer c) {front more : List UInt8}
  (hfront : front ++ more = answer.bytes)

include hfront

theorem header_of_front (hlong : 8 ≤ front.length) :
    ProtocolResponseHeader.parse front = answer.header := by
  have htake : front = answer.bytes.take front.length := by
    rw [← hfront, List.take_left]
  rw [htake, parse_take hlong, Answer.bytes, ProtocolResponseHeader.parse_bytes]

theorem front_length : front.length + more.length = 8 + answer.body.length := by
  rw [← answer_bytes_length, ← hfront, List.length_append]

/-- There is nothing behind the header of an answer that disappoints its call. -/
theorem front_disappointed (hnot : ¬ (answer.status = .success ∧ ¬ ExpectsOther c))
    (hhead : Finish.head (finish c) ≤ front.length) :
    more = [] ∧ front.drop (Finish.head (finish c)) = [] ∧ c ≠ .stat ∧
      replyOf answer = (finish c).failure := by
  have hnil : answer.body = [] := by
    by_cases hsuccess : answer.status = .success
    · refine answer_body_nil answer ?_
      have hother : ExpectsOther c = true := by
        by_contra hown
        exact hnot ⟨hsuccess, hown⟩
      cases c <;> first | rfl | cases hother
    · exact answer.refusal hsuccess
  have hlength := front_length answer hfront
  have hle := (Finish.head_bounds (finish c)).1
  rw [hnil, List.length_nil] at hlength
  refine ⟨List.eq_nil_of_length_eq_zero (by omega), List.drop_eq_nil_of_le (by omega), ?_,
    if_neg hnot⟩
  rintro rfl
  change 63 ≤ front.length at hhead
  omega

theorem reply_of_parts (hnil : more = []) (hgood : answer.status = .success ∧ ¬ ExpectsOther c) :
    Finish.reply (finish c) (front.take (Finish.head (finish c)))
        ((front.drop (Finish.head (finish c))).take
          (Finish.size (finish c) answer.body.length)) = replyOf answer := by
  have hsized := answer.success hgood.1
  have hbytes : front = answer.bytes := by
    rw [← hfront, hnil, List.append_nil]
  have hheader : answer.header.bytes.length = 8 := headerBytes_length ..
  have hrest : answer.bytes.drop 8 = answer.body := by
    rw [Answer.bytes, ← hheader, List.drop_left]
  rw [replyOf, if_pos hgood, hbytes]
  cases hfinish : finish c with
  | acknowledge check commit => rfl
  | stat =>
      rw [hfinish] at hsized
      change answer.body.length = 55 at hsized
      have hlength : answer.bytes.length = 63 := by
        rw [answer_bytes_length, hsized]
      simp only [Finish.reply, Finish.head, ← hlength, List.take_length]
  | value cmd failure =>
      rw [hfinish] at hsized
      change answer.body.length = 4 at hsized
      simp only [Finish.reply, Finish.head, Finish.size, hrest, ← hsized, List.take_length]
  | records kind => simp only [Finish.reply, Finish.head, Finish.size, hrest, List.take_length]
  | message cmd => simp only [Finish.reply, Finish.head, Finish.size, hrest, List.take_length]

end Front

section Reading

variable {k : Kernel} (hk : Kernel.Reliable k) {c : Command} {w : World}
  (hready : Ready w.client) (hwaits : Waits c w.client.noack) (answer : Answer c)

include hk hready hwaits

/-- A call that returns without having met the end of what is there was given its whole
answer. -/
theorem exec_front {more : List UInt8} (hfront : w.input ++ more = answer.bytes)
    {reply : Reply} {w' : World} (hexec : exec k c w = .returned reply w')
    (hfailures : w'.failures = w.failures) :
    more = [] ∧ w'.input = [] ∧ (c = .stat → answer.status = .success) ∧
      reply = replyOf answer := by
  have hhead := (Finish.head_bounds (finish c)).1
  have hdisappointed : ∀ w1, Issued k c w w1 → Finish.head (finish c) ≤ w.input.length →
      ¬ (answer.status = .success ∧ ¬ ExpectsOther c) → more = [] ∧
        w1.input.drop (Finish.head (finish c)) = [] ∧ (c = .stat → answer.status = .success) ∧
          (finish c).failure = replyOf answer := by
    intro w1 hissued hlong hnot
    obtain ⟨hmore, hdrop, hstat, hreply⟩ := front_disappointed answer hfront hnot hlong
    rw [hissued.input]
    exact ⟨hmore, hdrop, fun h => absurd h hstat, hreply.symm⟩
  have houtcome := exec_outcome k c w hready.1
  rw [hexec] at houtcome
  generalize hresult : Outcome.returned reply w' = result at houtcome
  cases houtcome with
  | refused h => exact absurd hwaits.1 h
  | exhausted size _ hsmall => exact absurd hsmall hready.large
  | unsent n writes failures rest mallocs _ _ _ hcause =>
      rcases hcause with ⟨hfail, _⟩ | ⟨hmisread, _⟩
      · exact absurd hk.writes hfail
      · rw [misread_iff hk.writes] at hmisread
        exact absurd hmisread hwaits.2.1
  | unread w1 dropped reads hissued =>
      cases hresult
      exact absurd hfailures (Nat.succ_ne_self w.failures)
  | rejected w1 reads hissued _ _ hlong herr =>
      cases hresult
      rw [header_of_front answer hfront (hhead.trans hlong)] at herr
      refine hdisappointed w1 hissued hlong ?_
      rintro ⟨hsuccess, hown⟩
      rw [answer_check answer hsuccess, if_neg hown] at herr
      cases herr
  | denied w1 reads hissued _ _ hlong _ hstatus =>
      cases hresult
      rw [header_of_front answer hfront (hhead.trans hlong)] at hstatus
      refine hdisappointed w1 hissued hlong ?_
      rintro ⟨hsuccess, _⟩
      exact hstatus (congrArg ProtocolResponseStatus.code hsuccess)
  | finished response w2 exit haccepted hbody =>
      cases haccepted with
      | unanswered _ _ hawaits => simp [hwaits.2.2] at hawaits
      | answered w1 reads hissued _ _ hlong hcheck hstatus =>
          rw [header_of_front answer hfront (hhead.trans hlong)] at hcheck hstatus
          have hsuccess := success_of_code hstatus
          have hown : ¬ ExpectsOther c := by
            intro hother
            rw [answer_check answer hsuccess, if_pos hother] at hcheck
            cases hcheck
          rw [parse_take hhead, header_of_front answer hfront (hhead.trans hlong),
            answer_bodylen answer] at hbody
          have hwhole := (answer.success hsuccess).whole
          have hlength := front_length answer hfront
          cases hbody with
          | done reply' done reads' mallocs failures _ henough _ _ _ _ _ hall =>
              cases hresult
              rw [received_input, hissued.input] at henough hall
              rw [List.length_drop] at henough
              have hmore : more = [] := List.eq_nil_of_length_eq_zero (by omega)
              refine ⟨hmore, ?_, fun _ => hsuccess, ?_⟩
              · change List.drop _ (List.drop _ w1.input) = []
                rw [List.drop_drop, hissued.input, hwhole]
                exact List.drop_eq_nil_of_le (by omega)
              · rw [(hall hk.mallocs).2.2]
                exact reply_of_parts answer hfront hmore ⟨hsuccess, hown⟩
          | failed error dropped reads' mallocs failures _ hlt =>
              cases hresult
              exact absurd hfailures (Nat.ne_of_gt hlt)
          | unnamed dropped reads' mallocs failures _ hlt =>
              cases hresult
              exact absurd hfailures (Nat.ne_of_gt hlt)
          | faulted => cases hresult

end Reading

/-- The first half of the call is over and left this world. -/
def Underway (k : Kernel) (c : Command) (w : World) : Prop :=
  ∃ before, Ready before.client ∧ start k c before = .next () w

section Underway

variable {k : Kernel} {c : Command} {w : World}

theorem Underway.input (h : Underway k c w) (input : List UInt8) :
    Underway k c { w with input := input } := by
  obtain ⟨before, hready, hstart⟩ := h
  exact ⟨{ before with input := input }, hready, start_input hstart input⟩

theorem Underway.exec (h : Underway k c w) :
    ∃ before, Ready before.client ∧ Issued k c before w ∧ exec k c before = conclude k c w := by
  obtain ⟨before, hready, hstart⟩ := h
  exact ⟨before, hready, start_issued hready hstart, exec_of_started hstart⟩

variable (hk : Kernel.Reliable k) (h : Underway k c w)

include h

theorem Underway.returned {reply : Reply} {w' : World}
    (hreturn : conclude k c w = .returned reply w') :
    Ready w'.client ∧ w'.client.noack = w.client.noack ∧ w'.trace = w.trace := by
  obtain ⟨before, hready, hissued, hexec⟩ := h.exec
  rw [← hexec] at hreturn
  obtain ⟨hready', hnoack, htrace, _⟩ := exec_returned hready hreturn
  exact ⟨hready', hnoack.trans hissued.noack.symm, htrace.trans hissued.trace.symm⟩

include hk

theorem Underway.waits (hawaits : Finish.awaits (finish c) w.client.noack = true) :
    Waits c w.client.noack := by
  obtain ⟨before, hready, hissued, _⟩ := h.exec
  rw [hissued.noack] at hawaits ⊢
  cases hissued with
  | intro n writes rest mallocs haccepts _ _ _ hread =>
      rw [misread_iff hk.writes] at hread
      exact ⟨haccepts, hread, hawaits⟩

/-- A call that waits for nothing returns with what was there. -/
theorem Underway.unawaited (hawaits : Finish.awaits (finish c) w.client.noack = false) :
    ∃ w', conclude k c w = .returned (.status .ok) w' ∧ w'.input = w.input ∧
      w'.failures = w.failures := by
  obtain ⟨before, hready, hissued, hexec⟩ := h.exec
  rw [hissued.noack] at hawaits
  have hread : ¬ Misread k before.writes (frame c before.client.noack).length (parts c) := by
    cases hissued with
    | intro n writes rest mallocs _ _ _ _ hread => exact hread
  obtain ⟨w', hreturn, hdone⟩ := unanswered_completes hk hready hissued.accepts hread hawaits
  rw [hexec] at hreturn
  exact ⟨w', hreturn, hdone.input.trans hissued.input.symm,
    hdone.failures.trans hissued.failures.symm⟩

variable (hawaits : Finish.awaits (finish c) w.client.noack = true) (answer : Answer c)

include hawaits

theorem Underway.front {more : List UInt8} (hfront : w.input ++ more = answer.bytes)
    {reply : Reply} {w' : World} (hreturn : conclude k c w = .returned reply w')
    (hfailures : w'.failures = w.failures) :
    more = [] ∧ w'.input = [] ∧ (c = .stat → answer.status = .success) ∧
      reply = replyOf answer := by
  have hwaits := h.waits hk hawaits
  obtain ⟨before, hready, hissued, hexec⟩ := h.exec
  rw [hissued.noack] at hwaits
  rw [hissued.input] at hfront
  rw [hissued.failures] at hfailures
  rw [← hexec] at hreturn
  exact exec_front hk hready hwaits answer hfront hreturn hfailures

/-- A call with its answer in front of it returns, except for a refused `emq_stat`. -/
theorem Underway.whole (hinput : w.input = answer.bytes)
    (hgranted : c = .stat → answer.status = .success) :
    ∃ reply w', conclude k c w = .returned reply w' ∧ w'.failures = w.failures := by
  have hwaits := h.waits hk hawaits
  obtain ⟨before, hready, hissued, hexec⟩ := h.exec
  rw [hissued.noack] at hwaits
  rw [hissued.input] at hinput
  obtain ⟨reply, w', hreturn, _, hfailures⟩ := exec_waited hk hready answer hinput hwaits
  rw [hexec] at hreturn
  exact ⟨reply, w', hreturn, (hfailures.mpr hgranted).trans hissued.failures.symm⟩

end Underway

end Libemq.Halves
