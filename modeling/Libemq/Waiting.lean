import Libemq.Completion
import Libemq.ServerErrors

namespace Libemq.Waiting

open Libemq.CStrings
open Libemq.ExitCode
open Libemq.Client
open Libemq.Network
open Libemq.Protocol
open Libemq.Packet
open Libemq.Commands
open Libemq.Transactions
open Libemq.Responses
open Libemq.Calls
open Libemq.Completion
open Libemq.Runs
open Libemq.ServerErrors

/-- What the server has to say to a request. Only a success has a body. -/
structure Answer (c : Command) where
  status : ProtocolResponseStatus
  body : List UInt8
  success : status = .success → BodySize (finish c) body.length
  refusal : status ≠ .success → body = []

def Answer.header {c : Command} (answer : Answer c) : ProtocolResponseHeader where
  magic := emqProtocolRes
  cmd := (request c).command.code
  status := answer.status.code
  bodylen := UInt32.ofNat answer.body.length

def Answer.bytes {c : Command} (answer : Answer c) : List UInt8 :=
  answer.header.bytes ++ answer.body

/-- The server got the whole request, and its noack byte does not forbid the answer:
with the byte set, an answer without a body is not sent. -/
def Answered (k : Kernel) (c : Command) (answer : Answer c) (w : World) : Prop :=
  (exec k c w).state.output = w.output ++ frame c w.client.noack ∧
    ((ProtocolRequestHeader.parse (frame c w.client.noack)).noack = 1 → answer.body ≠ [])

instance (k : Kernel) (c : Command) (answer : Answer c) (w : World) :
    Decidable (Answered k c answer w) := by
  unfold Answered
  infer_instance

/-- The world in which a call finds its answer behind what was left unread. -/
def arrived (k : Kernel) (c : Command) (answer : Answer c) (w : World) : World :=
  if Answered k c answer w then { w with input := w.input ++ answer.bytes } else w

inductive Action where
  | call (c : Command) (answer : Answer c)
  | noack (enable : Bool)

/-- Every call of the session is made in a world of which `P` holds. -/
def Throughout (k : Kernel) (P : (c : Command) → Answer c → World → Prop) :
    List Action → World → Prop
  | [], _ => True
  | .noack enable :: session, w =>
      Throughout k P session (if enable then emqNoackEnable w else emqNoackDisable w)
  | .call c answer :: session, w =>
      P c answer w ∧ Throughout k P session (exec k c (arrived k c answer w)).state

/-- If the call reads, then its own answer has arrived and is all there is to read. -/
def TakesOwn (k : Kernel) (c : Command) (answer : Answer c) (w : World) : Prop :=
  w.reads < (exec k c (arrived k c answer w)).state.reads →
    Answered k c answer w ∧ w.input = []

/-- Besides, no read of the call meets the end of the stream. -/
def NeverBlocks (k : Kernel) (c : Command) (answer : Answer c) (w : World) : Prop :=
  TakesOwn k c answer w ∧ (exec k c (arrived k c answer w)).state.failures = w.failures

/-- The call is one that goes on to read a response. -/
def Waits (c : Command) (noack : Bool) : Prop :=
  Accepts c ∧ ¬ LengthMisread c noack ∧ Finish.awaits (finish c) noack = true

/-- The call leaves the answer to its request unread: it took the length of the frame
it had sent for a failed write. -/
def Abandons (c : Command) (noack : Bool) : Prop :=
  Accepts c ∧ LengthMisread c noack ∧ noack = false

/-- No call waits behind an abandoned answer, and no call waits with acknowledgements
off for an answer without a body. -/
def Matched : (noack : Bool) → (stale : Prop) → List Action → Prop
  | _, _, [] => True
  | _, stale, .noack enable :: session => Matched enable stale session
  | noack, stale, .call c answer :: session =>
      (Waits c noack → ¬ stale ∧ (noack = true → answer.body ≠ [])) ∧
        Matched noack (stale ∨ Abandons c noack) session

/-- `emq_stat`, which reads the body along with the header, is not refused. -/
def StatGranted : Action → Prop
  | .call .stat answer => answer.status = .success
  | _ => True

theorem frame_noack (c : Command) (noack : Bool) :
    (ProtocolRequestHeader.parse (frame c noack)).noack = 1 ↔ noack = true := by
  rw [frame, wire, Request.bytes, requestBytes, List.append_assoc,
    ProtocolRequestHeader.parse_bytes]
  cases noack <;> simp [emqSetHeaderRequest]

theorem success_of_code {status : ProtocolResponseStatus}
    (h : status.code = ProtocolResponseStatus.success.code) : status = .success := by
  revert h
  cases status <;> decide

section Answers

variable {c : Command} (answer : Answer c)

theorem answer_bodylen : answer.header.bodylen.toNat = answer.body.length := by
  have hlt : answer.body.length < 4294967296 := by
    by_cases hsuccess : answer.status = .success
    · exact (answer.success hsuccess).lt
    · rw [answer.refusal hsuccess]
      decide
  exact UInt32.toNat_ofNat_of_lt' hlt

theorem answer_bytes_length : answer.bytes.length = 8 + answer.body.length := by
  simp [Answer.bytes, ProtocolResponseHeader.bytes]

theorem answer_body_nil (hstatus : Finish.awaits (finish c) true = false) : answer.body = [] := by
  by_cases hsuccess : answer.status = .success
  · have hsized := answer.success hsuccess
    obtain ⟨check, commit, hfinish⟩ := acknowledges hstatus
    rw [hfinish] at hsized
    exact List.eq_nil_of_length_eq_zero hsized
  · exact answer.refusal hsuccess

theorem answer_check (hsuccess : answer.status = .success) :
    Finish.check (finish c) answer.header = if ExpectsOther c then .err else .ok := by
  refine check_ownHeader rfl rfl ?_
  rw [answer_bodylen]
  exact answer.success hsuccess

end Answers

theorem frame_ne_nil (c : Command) (noack : Bool) : frame c noack ≠ [] := by
  intro hnil
  have hlength := congrArg List.length hnil
  rw [frame, wire, Request.bytes, requestBytes, List.length_append, List.length_append,
    ProtocolRequestHeader.bytes, headerBytes_length, List.length_nil] at hlength
  omega

section Calls

variable {k : Kernel} (hk : Kernel.Reliable k) {c : Command} {w : World}
  (hready : Ready w.client)

include hk hready

theorem exec_transmits_iff :
    (exec k c w).state.output = w.output ++ frame c w.client.noack ↔ Accepts c := by
  have hsent : ∀ w1, Issued k c w w1 →
      (w1.output = w.output ++ frame c w.client.noack ↔ Accepts c) := fun w1 hissued =>
    iff_of_true (hissued.output.mpr (not_stalls hk.writes _ _ _)) hissued.accepts
  have houtcome := exec_outcome k c w hready.1
  generalize exec k c w = result at houtcome
  cases houtcome with
  | refused h =>
      refine iff_of_false ?_ h
      intro houtput
      change w.output = w.output ++ _ at houtput
      rw [List.self_eq_append_right] at houtput
      exact frame_ne_nil c _ houtput
  | exhausted size _ hsmall => exact absurd hsmall hready.large
  | unsent n writes failures rest mallocs haccepts _ _ _ hwhole =>
      refine iff_of_true ?_ haccepts
      change w.output ++ List.take n _ = _
      rw [List.take_of_length_le (hwhole hk.writes)]
  | unread w1 dropped reads hissued => exact hsent w1 hissued
  | rejected w1 reads hissued => exact hsent w1 hissued
  | denied w1 reads hissued => exact hsent w1 hissued
  | finished response w2 exit haccepted hbody =>
      obtain ⟨w1, reads, hissued, _, rfl⟩ := haccepted.issued
      cases hbody with
      | done => exact hsent w1 hissued
      | failed => exact hsent w1 hissued
      | unnamed => exact hsent w1 hissued
      | faulted reason w' _ houtput =>
          rw [← hsent w1 hissued]
          change w'.output = _ ↔ _
          rw [houtput]
          rfl

theorem exec_reads_iff : w.reads < (exec k c w).state.reads ↔ Waits c w.client.noack := by
  have hlooks : ∀ w1, Issued k c w w1 → Finish.awaits (finish c) w.client.noack = true →
      Waits c w.client.noack := fun w1 hissued hawaits => by
    cases hissued with
    | intro n writes rest mallocs haccepts _ _ _ hread =>
        rw [misread_iff hk.writes] at hread
        exact ⟨haccepts, hread, hawaits⟩
  have houtcome := exec_outcome k c w hready.1
  generalize exec k c w = result at houtcome
  cases houtcome with
  | refused h => exact iff_of_false (lt_irrefl w.reads) fun hwaits => h hwaits.1
  | exhausted size _ hsmall => exact absurd hsmall hready.large
  | unsent n writes failures rest mallocs haccepts _ _ hcause =>
      rcases hcause with ⟨hfail, _⟩ | ⟨hmisread, _⟩
      · exact absurd hk.writes hfail
      · rw [misread_iff hk.writes] at hmisread
        exact iff_of_false (lt_irrefl w.reads) fun hwaits => hwaits.2.1 hmisread
  | unread w1 dropped reads hissued hawaits hreads =>
      exact iff_of_true hreads (hlooks w1 hissued hawaits)
  | rejected w1 reads hissued hawaits hreads =>
      exact iff_of_true hreads (hlooks w1 hissued hawaits)
  | denied w1 reads hissued hawaits hreads =>
      exact iff_of_true hreads (hlooks w1 hissued hawaits)
  | finished response w2 exit haccepted hbody =>
      cases haccepted with
      | answered w1 reads hissued hawaits hreads =>
          refine iff_of_true ?_ (hlooks w1 hissued hawaits)
          cases hbody with
          | done reply done reads' mallocs failures _ _ hle => exact lt_of_lt_of_le hreads hle
          | failed error dropped reads' mallocs failures hle => exact lt_of_lt_of_le hreads hle
          | unnamed dropped reads' mallocs failures hle => exact lt_of_lt_of_le hreads hle
          | faulted reason w' hle => exact lt_of_lt_of_le hreads hle
      | unanswered _ hissued hawaits =>
          refine iff_of_false ?_ fun hwaits => by
            have := hwaits.2.2
            simp [hawaits] at this
          have hquiet : Finish.awaits (finish c) true = false := by
            cases hnoack : w.client.noack with
            | true => rwa [← hnoack]
            | false => simp [hnoack] at hawaits
          rw [← hissued.reads]
          cases hbody with
          | done reply done reads' mallocs failures _ _ _ _ _ _ _ _ hsame =>
              rw [not_lt]
              exact (hsame hquiet).le
          | failed error dropped reads' mallocs failures _ _ halloc =>
              rw [not_lt]
              exact (halloc hquiet).1.le
          | unnamed dropped reads' mallocs failures _ _ hawaits' =>
              rw [hquiet] at hawaits'
              cases hawaits'
          | faulted reason w' _ _ hawaits' =>
              rw [hquiet] at hawaits'
              cases hawaits'

theorem exec_unwaited (hwaits : ¬ Waits c w.client.noack) :
    ∃ reply w', exec k c w = .returned reply w' ∧ w'.input = w.input ∧
      w'.failures = w.failures := by
  by_cases hlooks : Accepts c ∧ ¬ LengthMisread c w.client.noack
  · have hawaits : Finish.awaits (finish c) w.client.noack = false := by
      rw [← Bool.not_eq_true]
      exact fun hawaits => hwaits ⟨hlooks.1, hlooks.2, hawaits⟩
    have hread : ¬ Misread k w.writes (frame c w.client.noack).length (parts c) := by
      rw [misread_iff hk.writes]
      exact hlooks.2
    obtain ⟨w', hexec, hdone⟩ := unanswered_completes hk hready hlooks.1 hread hawaits
    exact ⟨_, w', hexec, hdone.input, hdone.failures⟩
  · have hissues : ∀ w1, ¬ Issued k c w w1 := by
      intro w1 hissued
      cases hissued with
      | intro n writes rest mallocs haccepts _ _ _ hread =>
          rw [misread_iff hk.writes] at hread
          exact hlooks ⟨haccepts, hread⟩
    have houtcome := exec_outcome k c w hready.1
    generalize exec k c w = result at houtcome
    cases houtcome with
    | refused h => exact ⟨_, _, rfl, rfl, rfl⟩
    | exhausted size _ hsmall => exact absurd hsmall hready.large
    | unsent n writes failures rest mallocs haccepts _ _ hcause =>
        rcases hcause with ⟨hfail, _⟩ | ⟨_, hsame⟩
        · exact absurd hk.writes hfail
        · exact ⟨_, _, rfl, rfl, hsame⟩
    | unread w1 dropped reads hissued => exact absurd hissued (hissues w1)
    | rejected w1 reads hissued => exact absurd hissued (hissues w1)
    | denied w1 reads hissued => exact absurd hissued (hissues w1)
    | finished response w2 exit haccepted =>
        obtain ⟨w1, _, hissued, _, _⟩ := haccepted.issued
        exact absurd hissued (hissues w1)

variable (answer : Answer c) (hinput : w.input = answer.bytes)

include hinput

/-- A call that is refused, or expects another command, takes its whole answer. Only
`emq_stat` looks for more. -/
theorem exec_disappointed (hwaits : Waits c w.client.noack) (hnil : answer.body = [])
    (hnot : answer.status ≠ .success ∨ ExpectsOther c) :
    ∃ reply w', exec k c w = .returned reply w' ∧ w'.input = [] ∧
      (w'.failures = w.failures ↔ (c = .stat → answer.status = .success)) := by
  have hlength : w.input.length = 8 := by
    rw [hinput, answer_bytes_length, hnil]
    rfl
  have hdrained : ∀ n, 8 ≤ n → w.input.drop n = [] := fun n hn =>
    List.drop_eq_nil_of_le (by omega)
  have hhead := (Finish.head_bounds (finish c)).1
  have hnotStat : Finish.head (finish c) ≤ w.input.length →
      (c = .stat → answer.status = .success) := by
    rintro hle rfl
    rw [hlength] at hle
    exact absurd hle (by decide)
  have hparse : ProtocolResponseHeader.parse w.input = answer.header := by
    rw [hinput, Answer.bytes, ProtocolResponseHeader.parse_bytes]
  have houtcome := exec_outcome k c w hready.1
  generalize exec k c w = result at houtcome
  cases houtcome with
  | refused h => exact absurd hwaits.1 h
  | exhausted size _ hsmall => exact absurd hsmall hready.large
  | unsent n writes failures rest mallocs _ _ _ hcause =>
      rcases hcause with ⟨hfail, _⟩ | ⟨hmisread, _⟩
      · exact absurd hk.writes hfail
      · rw [misread_iff hk.writes] at hmisread
        exact absurd hmisread hwaits.2.1
  | unread w1 dropped reads hissued _ _ hend =>
      refine ⟨_, _, rfl, ?_, iff_of_false (Nat.succ_ne_self w.failures) ?_⟩
      · change List.drop dropped w1.input = []
        rw [hissued.input]
        exact List.drop_eq_nil_of_le (hend hk.reads).2
      · have hshort := (hend hk.reads).1
        rw [hlength] at hshort
        have hstat : c = .stat := by
          by_contra hother
          rw [head_eq_eight hother] at hshort
          exact absurd hshort (lt_irrefl 8)
        intro hsuccess
        rcases hnot with hnot | hnot
        · exact hnot (hsuccess hstat)
        · rw [hstat] at hnot
          cases hnot
  | rejected w1 reads hissued _ _ hle =>
      refine ⟨_, _, rfl, ?_, iff_of_true rfl (hnotStat hle)⟩
      change List.drop _ w1.input = []
      rw [hissued.input]
      exact hdrained _ hhead
  | denied w1 reads hissued _ _ hle =>
      refine ⟨_, _, rfl, ?_, iff_of_true rfl (hnotStat hle)⟩
      change List.drop _ w1.input = []
      rw [hissued.input]
      exact hdrained _ hhead
  | finished response w2 exit haccepted hbody =>
      cases haccepted with
      | unanswered _ _ hawaits => simp [hwaits.2.2] at hawaits
      | answered w1 reads hissued _ _ _ hcheck hstatus =>
          rw [hparse] at hcheck hstatus
          have hsuccess := success_of_code hstatus
          rw [answer_check answer hsuccess] at hcheck
          rcases hnot with hnot | hnot
          · exact absurd hsuccess hnot
          · rw [if_pos hnot] at hcheck
            cases hcheck

theorem exec_waited (hwaits : Waits c w.client.noack) :
    ∃ reply w', exec k c w = .returned reply w' ∧ w'.input = [] ∧
      (w'.failures = w.failures ↔ (c = .stat → answer.status = .success)) := by
  by_cases hgood : answer.status = .success ∧ ¬ ExpectsOther c
  · obtain ⟨hsuccess, hown⟩ := hgood
    have hread : ¬ Misread k w.writes (frame c w.client.noack).length (parts c) := by
      rw [misread_iff hk.writes]
      exact hwaits.2.1
    have hfront : w.input = answer.header.bytes ++ answer.body ++ [] := by
      rw [hinput, List.append_nil]
      rfl
    have hcheck := answer_check answer hsuccess
    rw [if_neg hown] at hcheck
    obtain ⟨w', hexec, hdone⟩ := answered_completes hk hready hwaits.1 hread hwaits.2.2 hfront
      hcheck (congrArg ProtocolResponseStatus.code hsuccess) (answer_bodylen answer)
      (answer.success hsuccess)
    exact ⟨_, w', hexec, hdone.input, iff_of_true hdone.failures fun _ => hsuccess⟩
  · have hnot : answer.status ≠ .success ∨ ExpectsOther c := by
      by_contra hboth
      rw [not_or, not_not] at hboth
      exact hgood hboth
    have hnil : answer.body = [] := by
      rcases hnot with hnot | hother
      · exact answer.refusal hnot
      · exact answer_body_nil answer (by cases c <;> first | rfl | cases hother)
    exact exec_disappointed hk hready answer hinput hwaits hnil hnot

end Calls

section Arrived

variable (k : Kernel) {c : Command} (answer : Answer c) (w : World)

theorem arrived_client : (arrived k c answer w).client = w.client := by
  unfold arrived
  split <;> rfl

theorem arrived_reads : (arrived k c answer w).reads = w.reads := by
  unfold arrived
  split <;> rfl

theorem arrived_failures : (arrived k c answer w).failures = w.failures := by
  unfold arrived
  split <;> rfl

end Arrived

theorem statGranted_call {c : Command} (answer : Answer c) :
    StatGranted (.call c answer) ↔ (c = .stat → answer.status = .success) := by
  cases c <;> simp [StatGranted]

theorem waits_stat (noack : Bool) : Waits .stat noack :=
  ⟨by decide, fun h => absurd h.1 (by decide), rfl⟩

theorem statusOnly_of_misread {c : Command} {noack : Bool} (h : LengthMisread c noack) :
    Finish.awaits (finish c) true = false := by
  rw [← Bool.not_eq_true]
  intro hawaits
  have hparts := h.1
  rw [parts_of_awaits hawaits] at hparts
  cases hparts

section Steps

variable {k : Kernel} (hk : Kernel.Reliable k) {c : Command} (answer : Answer c) {w : World}
  (hready : Ready w.client)

include hk hready

theorem answered_iff :
    Answered k c answer w ↔ Accepts c ∧ (w.client.noack = true → answer.body ≠ []) := by
  rw [Answered, exec_transmits_iff hk hready, frame_noack]

theorem takesOwn_iff :
    TakesOwn k c answer w ↔
      (Waits c w.client.noack → w.input = [] ∧ (w.client.noack = true → answer.body ≠ [])) := by
  have hreads := @exec_reads_iff k hk c (arrived k c answer w)
    (by rw [arrived_client]; exact hready)
  rw [arrived_reads, arrived_client] at hreads
  rw [TakesOwn, hreads, answered_iff hk answer hready]
  constructor
  · intro hown hwaits
    obtain ⟨⟨_, hserved⟩, hinput⟩ := hown hwaits
    exact ⟨hinput, hserved⟩
  · intro hown hwaits
    obtain ⟨hinput, hserved⟩ := hown hwaits
    exact ⟨⟨hwaits.1, hserved⟩, hinput⟩

theorem arrived_unwaited (hwaits : ¬ Waits c w.client.noack) :
    (arrived k c answer w).input ≠ [] ↔ w.input ≠ [] ∨ Abandons c w.client.noack := by
  have hanswered := answered_iff hk answer hready
  unfold arrived
  split
  · rename_i hserver
    obtain ⟨haccepts, hserved⟩ := hanswered.mp hserver
    have hbytes : w.input ++ answer.bytes ≠ [] := by
      intro hnil
      have hlength := answer_bytes_length answer
      rw [(List.append_eq_nil_iff.mp hnil).2, List.length_nil] at hlength
      omega
    refine iff_of_true hbytes (.inr ?_)
    have hmisread : LengthMisread c w.client.noack := by
      by_contra hnot
      have hquiet : Finish.awaits (finish c) w.client.noack = false := by
        rw [← Bool.not_eq_true]
        exact fun hawaits => hwaits ⟨haccepts, hnot, hawaits⟩
      cases hnoack : w.client.noack with
      | true =>
          rw [hnoack] at hquiet
          exact hserved hnoack (answer_body_nil answer hquiet)
      | false => simp [hnoack] at hquiet
    refine ⟨haccepts, hmisread, ?_⟩
    rw [← Bool.not_eq_true]
    exact fun hnoack => hserved hnoack (answer_body_nil answer (statusOnly_of_misread hmisread))
  · rename_i hserver
    have hnot : ¬ Abandons c w.client.noack := by
      rintro ⟨haccepts, _, hnoack⟩
      exact hserver (hanswered.mpr ⟨haccepts, by simp [hnoack]⟩)
    simp [hnot]

theorem call_step (hown : Waits c w.client.noack →
      w.input = [] ∧ (w.client.noack = true → answer.body ≠ [])) :
    ∃ reply w', exec k c (arrived k c answer w) = .returned reply w' ∧
      (w'.input ≠ [] ↔ w.input ≠ [] ∨ Abandons c w.client.noack) ∧
      (w'.failures = w.failures ↔ StatGranted (.call c answer)) := by
  have hclient := arrived_client k answer w
  have hready' : Ready (arrived k c answer w).client := by
    rw [hclient]
    exact hready
  rw [statGranted_call, ← arrived_failures k answer w]
  by_cases hwaits : Waits c w.client.noack
  · obtain ⟨hinput, hserved⟩ := hown hwaits
    have hanswered := (answered_iff hk answer hready).mpr ⟨hwaits.1, hserved⟩
    have hfront : (arrived k c answer w).input = answer.bytes := by
      rw [arrived, if_pos hanswered, hinput]
      rfl
    obtain ⟨reply, w', hexec, hempty, hfailures⟩ := exec_waited hk hready' answer hfront
      (by rw [hclient]; exact hwaits)
    refine ⟨reply, w', hexec, iff_of_false (absurd hempty) ?_, hfailures⟩
    rintro (hleft | habandons)
    · exact hleft hinput
    · exact hwaits.2.1 habandons.2.1
  · obtain ⟨reply, w', hexec, hinput, hfailures⟩ := @exec_unwaited k hk c _ hready'
      (by rw [hclient]; exact hwaits)
    refine ⟨reply, w', hexec, ?_, iff_of_true hfailures ?_⟩
    · rw [hinput, arrived_unwaited hk answer hready hwaits]
    · rintro rfl
      exact absurd (waits_stat _) hwaits

end Steps

/-- A property of calls that comes down to taking nothing but its own answer and a
property of the action holds throughout a session iff its actions have that property
and match. -/
theorem throughout_iff {k : Kernel} (hk : Kernel.Reliable k)
    {P : (c : Command) → Answer c → World → Prop} {Q : Action → Prop}
    (hcall : ∀ c answer w, Ready w.client → (P c answer w ↔
      (Waits c w.client.noack → w.input = [] ∧ (w.client.noack = true → answer.body ≠ [])) ∧
        Q (.call c answer)))
    (hnoack : ∀ enable, Q (.noack enable)) (session : List Action) :
    ∀ (w : World) (stale : Prop), Ready w.client → (w.input ≠ [] ↔ stale) →
      (Throughout k P session w ↔
        Matched w.client.noack stale session ∧ ∀ action ∈ session, Q action) := by
  induction session with
  | nil =>
      intro w stale _ _
      simp [Throughout, Matched]
  | cons action session ih =>
      intro w stale hready hstale
      rw [List.forall_mem_cons]
      cases action with
      | noack enable =>
          have hrest := ih (if enable then emqNoackEnable w else emqNoackDisable w) stale
            (by cases enable <;> exact hready) (by cases enable <;> exact hstale)
          have hswitched : (if enable then emqNoackEnable w else emqNoackDisable w).client.noack =
              enable := by
            cases enable <;> rfl
          rw [hswitched] at hrest
          rw [Throughout, Matched, hrest]
          simp [hnoack]
      | call c answer =>
          have hempty : w.input = [] ↔ ¬ stale := by
            rw [← hstale, not_not]
          rw [Throughout, Matched, hcall c answer w hready, ← hempty]
          by_cases hown : Waits c w.client.noack →
              w.input = [] ∧ (w.client.noack = true → answer.body ≠ [])
          · obtain ⟨reply, w', hexec, hleft, _⟩ := call_step hk answer hready hown
            obtain ⟨hready', hsame, _⟩ := exec_returned
              (by rw [arrived_client]; exact hready) hexec
            rw [arrived_client] at hsame
            have hrest := ih w' (stale ∨ Abandons c w.client.noack) hready'
              (by rw [hleft, hstale])
            rw [hsame] at hrest
            rw [hexec, Outcome.state, hrest]
            exact and_and_and_comm
          · exact iff_of_false (fun h => hown h.1.1) (fun h => hown h.1.1)

/-- Over a reliable connection with an empty stream, every call of a session takes
nothing but its own answer iff no call waits with acknowledgements off for an answer
without a body, and none behind an answer that a call abandoned. No call blocks iff,
besides, no `emq_stat` is refused. -/
theorem takes_own_throughout_iff (k : Kernel) (hk : Kernel.Reliable k) (session : List Action)
    (w : World) (hready : Ready w.client) (hinput : w.input = []) :
    (Throughout k (TakesOwn k) session w ↔ Matched w.client.noack False session) ∧
      (Throughout k (NeverBlocks k) session w ↔
        Matched w.client.noack False session ∧ ∀ action ∈ session, StatGranted action) := by
  have hstale : w.input ≠ [] ↔ False := by simp [hinput]
  constructor
  · have hiff := throughout_iff (P := TakesOwn k) (Q := fun _ => True) hk
      (fun c answer w hready => by rw [takesOwn_iff hk answer hready, and_true])
      (fun _ => trivial) session w False hready hstale
    rw [hiff]
    simp
  · refine throughout_iff hk (fun c answer w hready => ?_) (fun _ => trivial) session w False
      hready hstale
    rw [NeverBlocks, takesOwn_iff hk answer hready]
    refine and_congr_right fun hown => ?_
    obtain ⟨reply, w', hexec, _, hfailures⟩ := call_step hk answer hready hown
    rw [hexec, Outcome.state, hfailures]

def noMessage : Answer (.queueGet queueQ) where
  status := .errorNoData
  body := []
  success := fun h => by cases h
  refusal := fun _ => rfl

/-- With acknowledgements off `emq_queue_get` on an empty queue waits for an answer
that is never sent. -/
theorem noMessage_blocks :
    ¬ ∀ (k : Kernel) (session : List Action) (w : World), Kernel.Reliable k → Ready w.client →
      w.input = [] → Throughout k (TakesOwn k) session w := by
  intro h
  have hready : Ready (emqNoackEnable (World.connected [] [])).client := ready_connected [] []
  obtain ⟨hown, _⟩ := h generous [.noack true, .call (.queueGet queueQ) noMessage]
    (World.connected [] []) generous_reliable (ready_connected [] []) rfl
  have hwaits : Waits (.queueGet queueQ) true :=
    ⟨by decide, fun hmisread => absurd hmisread.1 (by decide), rfl⟩
  exact ((takesOwn_iff generous_reliable noMessage hready).mp hown hwaits).2 rfl rfl

def oneMessage : Answer (.queueGet queueQ) where
  status := .success
  body := [1, 0, 0, 0, 0, 0, 0, 0, 7]
  success := fun _ => ⟨by decide, by decide⟩
  refusal := fun h => absurd rfl h

theorem takes_own_throughout_iff_oneMessage :
    Kernel.Reliable generous ∧
      Throughout generous (NeverBlocks generous)
        [.noack true, .call (.queueGet queueQ) oneMessage, .noack false]
        (World.connected [] []) :=
  ⟨generous_reliable, (takes_own_throughout_iff generous generous_reliable
    [.noack true, .call (.queueGet queueQ) oneMessage, .noack false] (World.connected [] [])
    (ready_connected [] []) rfl).2.mpr
    ⟨⟨fun _ => ⟨not_false, fun _ => List.cons_ne_nil _ _⟩, trivial⟩, by simp [StatGranted]⟩⟩

end Libemq.Waiting
