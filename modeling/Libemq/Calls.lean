import Libemq.Responses

namespace Libemq.Calls

open Libemq.CStrings
open Libemq.ExitCode
open Libemq.Client
open Libemq.Network
open Libemq.Protocol
open Libemq.Packet
open Libemq.Commands
open Libemq.Transactions
open Libemq.Responses

def Accepts (c : Command) : Prop := valid c = true ∧ (request c).Accepted

instance (c : Command) : Decidable (Accepts c) := by
  unfold Accepts
  infer_instance

/-- The whole frame of a call: header, body and message. -/
def frame (c : Command) (noack : Bool) : List UInt8 := wire (request c) (parts c) noack

/-- The call returned with its status set to `EMQ_STATUS_OK`. -/
inductive Succeeded : Result Reply → Prop
  | intro (reply : Reply) (w : World) (h : w.client.status = .ok) :
      Succeeded (.returned reply w)

theorem succeeded_iff (reply : Reply) (w : World) :
    Succeeded (.returned reply w) ↔ w.client.status = .ok :=
  ⟨fun ⟨_, _, h⟩ => h, .intro reply w⟩

theorem Succeeded.returned {result : Result Reply} (h : Succeeded result) :
    ∃ reply w, result = .returned reply w ∧ w.client.status = .ok := by
  cases h with
  | intro reply w h => exact ⟨reply, w, rfl, h⟩

instance : (result : Result Reply) → Decidable (Succeeded result)
  | .returned reply w => decidable_of_iff _ (succeeded_iff reply w).symm
  | .fault _ _ => .isFalse fun h => nomatch h

/-- The worlds in which a call goes on once its request is issued. -/
inductive Issued (k : Kernel) (c : Command) (w : World) : World → Prop
  | intro (n writes : Nat) (rest : List UInt8) (mallocs : Nat) (haccepts : Accepts c)
      (hroom : Room w ((request c).bytes w.client.noack).length rest mallocs)
      (hn : n ≤ (frame c w.client.noack).length)
      (hwhole : n = (frame c w.client.noack).length ↔
        ¬ Stalls k w.writes (frame c w.client.noack).length (parts c))
      (hread : ¬ Misread k w.writes (frame c w.client.noack).length (parts c)) :
      Issued k c w (sent (framed (withError .none w) ((request c).bytes w.client.noack) rest
        mallocs) ((frame c w.client.noack).take n) writes w.failures)

/-- The worlds in which a call goes on with its response accepted. A call that
waits for none goes on with an empty one. -/
inductive Accepted (k : Kernel) (c : Command) (w : World) : List UInt8 → World → Prop
  | answered (w1 : World) (reads : Nat) (hissued : Issued k c w w1)
      (hawaits : Finish.awaits (finish c) w.client.noack = true) (hreads : w.reads < reads)
      (henough : Finish.head (finish c) ≤ w.input.length)
      (hcheck : Finish.check (finish c) (.parse w.input) = .ok)
      (hstatus : (ProtocolResponseHeader.parse w.input).status =
        ProtocolResponseStatus.success.code)
      (hdelivers : ∀ counts, Delivers k w.reads (Finish.head (finish c) :: counts) ↔
        Delivers k reads counts) :
      Accepted k c w (w.input.take (Finish.head (finish c)))
        (received w1 (Finish.head (finish c)) reads w.failures)
  | unanswered (w1 : World) (hissued : Issued k c w w1)
      (hawaits : Finish.awaits (finish c) w.client.noack = false) :
      Accepted k c w [] w1

def close (f : Finish) : Exit World Fault Reply → Result Reply
  | .next reply w => .returned reply (setStatus .ok w)
  | .error w => .returned f.failure (setStatus .err w)
  | .fault reason w => .fault reason w

/-- What a call can do when the client has its buffer. -/
inductive ExecOutcome (k : Kernel) (c : Command) (w : World) : Result Reply → Prop
  | refused (h : ¬ Accepts c) :
      ExecOutcome k c w (.returned (finish c).failure (setStatus .err (withError .data w)))
  | exhausted (size : Nat) (haccepts : Accepts c) (hsmall : w.client.size < 168)
      (hmalloc : ¬ Kernel.MallocsOk k) :
      ExecOutcome k c w (.returned (finish c).failure
        (setStatus .err (withError .data (bufferLost w size))))
  | unsent (n writes failures : Nat) (rest : List UInt8) (mallocs : Nat)
      (haccepts : Accepts c)
      (hroom : Room w ((request c).bytes w.client.noack).length rest mallocs)
      (hstall : ¬ Stalls k w.writes (frame c w.client.noack).length (parts c))
      (hcause : (¬ Kernel.WritesOk k ∧ failures = w.failures + 1) ∨
        (Misread k w.writes (frame c w.client.noack).length (parts c) ∧
          failures = w.failures))
      (hwhole : Kernel.WritesOk k → (frame c w.client.noack).length ≤ n) :
      ExecOutcome k c w (.returned (finish c).failure (setStatus .err (withError .write
        (sent (framed w ((request c).bytes w.client.noack) rest mallocs)
          ((frame c w.client.noack).take n) writes failures))))
  | unread (w1 : World) (dropped reads : Nat) (hissued : Issued k c w w1)
      (hawaits : Finish.awaits (finish c) w.client.noack = true) (hreads : w.reads < reads)
      (hend : Kernel.ReadsOk k → w.input.length < Finish.head (finish c) ∧
        w.input.length ≤ dropped) :
      ExecOutcome k c w (.returned (finish c).failure (setStatus .err (withError .read
        (received w1 dropped reads (w.failures + 1)))))
  | rejected (w1 : World) (reads : Nat) (hissued : Issued k c w w1)
      (hawaits : Finish.awaits (finish c) w.client.noack = true) (hreads : w.reads < reads)
      (henough : Finish.head (finish c) ≤ w.input.length)
      (hcheck : Finish.check (finish c) (.parse w.input) = .err) :
      ExecOutcome k c w (.returned (finish c).failure (setStatus .err (withError .response
        (received w1 (Finish.head (finish c)) reads w.failures))))
  | denied (w1 : World) (reads : Nat) (hissued : Issued k c w w1)
      (hawaits : Finish.awaits (finish c) w.client.noack = true) (hreads : w.reads < reads)
      (henough : Finish.head (finish c) ≤ w.input.length)
      (hcheck : Finish.check (finish c) (.parse w.input) = .ok)
      (hstatus : (ProtocolResponseHeader.parse w.input).status ≠
        ProtocolResponseStatus.success.code) :
      ExecOutcome k c w (.returned (finish c).failure (setStatus .err
        (withError (emqGetError (.parse w.input))
          (received w1 (Finish.head (finish c)) reads w.failures))))
  | finished (response : List UInt8) (w2 : World) (exit : Exit World Fault Reply)
      (haccepted : Accepted k c w response w2)
      (hbody : BodyOutcome k (finish c) response
        (ProtocolResponseHeader.parse response).bodylen.toNat w2 exit) :
      ExecOutcome k c w (close (finish c) exit)

theorem finish_commit (c : Command) : Finish.commit (finish c) = commit c := by
  cases c <;> rfl

theorem parts_of_awaits {c : Command} (h : Finish.awaits (finish c) true = true) :
    parts c = none := by
  cases c <;> first | rfl | cases h

theorem not_misread_of_awaits {k : Kernel} {c : Command}
    (h : Finish.awaits (finish c) true = true) (call size : Nat) :
    ¬ Misread k call size (parts c) := by
  rw [parts_of_awaits h]
  exact not_false

theorem head_eq_eight {c : Command} (h : c ≠ .stat) : Finish.head (finish c) = 8 := by
  cases c <;> first | rfl | exact absurd rfl h

theorem commit_fits {c : Command} (h : (request c).Accepted) : Commit.Fits (commit c) := by
  rw [Request.accepted_iff_limits] at h
  cases c with
  | queueSubscribe name flags callback =>
      have := h (name, 64) (by simp [request, Request.command, Request.values,
        ProtocolCommand.layout, stringLimits])
      exact this
  | channelSubscribe name topic callback =>
      have hname := h (name, 64) (by simp [request, Request.command, Request.values,
        ProtocolCommand.layout, stringLimits])
      have htopic := h (topic, 32) (by simp [request, Request.command, Request.values,
        ProtocolCommand.layout, stringLimits])
      exact ⟨hname, htopic⟩
  | channelPsubscribe name pattern callback =>
      have hname := h (name, 64) (by simp [request, Request.command, Request.values,
        ProtocolCommand.layout, stringLimits])
      have hpattern := h (pattern, 32) (by simp [request, Request.command, Request.values,
        ProtocolCommand.layout, stringLimits])
      exact ⟨hname, hpattern⟩
  | _ => trivial

theorem transact_eq (k : Kernel) (c : Command) (w : World) :
    exec k c w = close (finish c)
      ((issueRequest k (valid c) ((request c).build k) (parts c) >>= fun _ =>
        (finish c).run k) (withError .none w)) := by
  rw [exec_eq, transact, Code.body, bind_clearError]
  cases (issueRequest k (valid c) ((request c).build k) (parts c) >>= fun _ =>
    (finish c).run k) (withError .none w) <;> rfl

theorem issued_of_next {k : Kernel} {c : Command} {w w1 : World} (hbuffer : w.client.HasBuffer)
    (h : issueRequest k (valid c) ((request c).build k) (parts c) (withError .none w) =
      .next () w1) : Issued k c w w1 := by
  have houtcome := issueRequest_outcome k (valid c) (request c) (parts c) (withError .none w)
    hbuffer
  rw [h] at houtcome
  generalize hexit : Exit.next () w1 = exit at houtcome
  cases houtcome with
  | short n writes rest mallocs hvalid hwire hroom hn hstall hread =>
      cases hexit
      exact .intro n writes rest mallocs ⟨hvalid, hwire⟩ hroom (Nat.le_of_lt hn)
        ⟨fun heq => absurd heq (Nat.ne_of_lt hn), fun hnot => absurd hstall hnot⟩ hread
  | whole writes rest mallocs hvalid hwire hroom hstall hread =>
      cases hexit
      have := Issued.intro (k := k) (c := c) (w := w)
        (frame c w.client.noack).length writes rest mallocs ⟨hvalid, hwire⟩ hroom (le_refl _)
        ⟨fun _ => hstall, fun _ => rfl⟩ hread
      rwa [List.take_length] at this
  | _ => cases hexit

theorem issued_fits {k : Kernel} {c : Command} {w w1 : World} (h : Issued k c w w1) :
    Commit.Fits (Finish.commit (finish c)) := by
  rw [finish_commit]
  cases h with
  | intro n writes rest mallocs haccepts => exact commit_fits haccepts.2

theorem accepted_of_next {k : Kernel} {c : Command} {w w1 w2 : World} {response : List UInt8}
    (hissued : Issued k c w w1) (hawaits : Finish.awaits (finish c) w.client.noack = true)
    (h : awaitResponse k (Finish.head (finish c)) (Finish.check (finish c)) w1 =
      .next response w2) : Accepted k c w response w2 := by
  have hinput : w1.input = w.input := by cases hissued; rfl
  have hreadsEq : w1.reads = w.reads := by cases hissued; rfl
  have hfailures : w1.failures = w.failures := by cases hissued; rfl
  have houtcome := awaitResponse_outcome k (Finish.head_bounds (finish c))
    (Finish.check (finish c)) w1
  rw [h] at houtcome
  generalize hexit : Exit.next response w2 = exit at houtcome
  cases houtcome with
  | accepted reads hreads henough hcheck hstatus hdelivers =>
      cases hexit
      rw [hinput] at henough hcheck hstatus
      rw [hreadsEq] at hdelivers
      rw [hinput, hfailures]
      exact .answered w1 reads hissued hawaits (by omega) henough hcheck hstatus hdelivers
  | _ => cases hexit

theorem finish_outcome (k : Kernel) (c : Command) (w w1 : World) (hissued : Issued k c w w1) :
    ExecOutcome k c w (close (finish c) ((finish c).run k w1)) := by
  have hinput : w1.input = w.input := by cases hissued; rfl
  have hreadsEq : w1.reads = w.reads := by cases hissued; rfl
  have hfailures : w1.failures = w.failures := by cases hissued; rfl
  have hnoack : w1.client.noack = w.client.noack := by cases hissued; rfl
  have hfits := issued_fits hissued
  rw [Finish.run_eq, hnoack]
  cases hawaits : Finish.awaits (finish c) w.client.noack with
  | false =>
      simp only [Bool.false_eq_true, if_false]
      exact .finished [] w1 _ (.unanswered w1 hissued hawaits) (body_outcome k _ _ _ hfits)
  | true =>
      simp only [if_true]
      have houtcome := awaitResponse_outcome k (Finish.head_bounds (finish c))
        (Finish.check (finish c)) w1
      cases hawait : awaitResponse k (Finish.head (finish c)) (Finish.check (finish c)) w1 with
      | next response w2 =>
          rw [Code.bind_of_next hawait]
          exact .finished _ _ _ (accepted_of_next hissued hawaits hawait)
            (body_outcome k _ _ _ hfits)
      | error s =>
          rw [Code.bind_of_error hawait]
          rw [hawait] at houtcome
          generalize hexit : Exit.error s = exit at houtcome
          cases houtcome with
          | unread dropped reads hreads hend =>
              cases hexit
              rw [hfailures]
              rw [hinput] at hend
              exact .unread w1 dropped reads hissued hawaits (by omega) hend
          | rejected reads hreads henough hcheck =>
              cases hexit
              rw [hfailures]
              rw [hinput] at henough hcheck
              exact .rejected w1 reads hissued hawaits (by omega) henough hcheck
          | denied reads hreads henough hcheck hstatus =>
              cases hexit
              rw [hfailures, hinput]
              rw [hinput] at henough hcheck hstatus
              exact .denied w1 reads hissued hawaits (by omega) henough hcheck hstatus
          | accepted => cases hexit
      | fault reason s => exact absurd hawait (awaitResponse_ne_fault (Finish.head_bounds _))

/-- One spec for every call. -/
theorem exec_outcome (k : Kernel) (c : Command) (w : World) (hbuffer : w.client.HasBuffer) :
    ExecOutcome k c w (exec k c w) := by
  have houtcome := issueRequest_outcome k (valid c) (request c) (parts c) (withError .none w)
    hbuffer
  rw [transact_eq]
  cases hissue : issueRequest k (valid c) ((request c).build k) (parts c) (withError .none w) with
  | next value w1 =>
      rw [Code.bind_of_next hissue]
      exact finish_outcome k c w _ (issued_of_next hbuffer hissue)
  | error s =>
      rw [Code.bind_of_error hissue]
      rw [hissue] at houtcome
      generalize hexit : Exit.error s = exit at houtcome
      cases houtcome with
      | refused h =>
          cases hexit
          refine .refused ?_
          rintro ⟨hvalid, haccepted⟩
          rcases h with h | h
          · simp [hvalid] at h
          · exact h haccepted
      | exhausted size hvalid h hsmall hmalloc =>
          cases hexit
          exact .exhausted size ⟨hvalid, h⟩ hsmall hmalloc
      | failed n writes failures rest mallocs hvalid h hroom hstall hcause hwhole =>
          cases hexit
          exact .unsent n writes failures rest mallocs ⟨hvalid, h⟩ hroom hstall hcause hwhole
      | short => cases hexit
      | whole => cases hexit
  | fault reason s => exact absurd hissue (issueRequest_ne_fault (w := withError .none w) hbuffer)

/-- The response has the header that the call looks for and a status other than
success. -/
def Denied (c : Command) (w : World) : Prop :=
  Accepts c ∧ Finish.awaits (finish c) w.client.noack = true ∧
    Finish.head (finish c) ≤ w.input.length ∧
    Finish.check (finish c) (.parse w.input) = .ok ∧
    (ProtocolResponseHeader.parse w.input).status ≠ ProtocolResponseStatus.success.code

theorem issueRequest_error {k : Kernel} {c : Command} {w s : World}
    (hbuffer : w.client.HasBuffer)
    (h : issueRequest k (valid c) ((request c).build k) (parts c) (withError .none w) =
      .error s) : ∃ error s', s = withError error s' ∧ error ≠ .none := by
  have houtcome := issueRequest_outcome k (valid c) (request c) (parts c) (withError .none w)
    hbuffer
  rw [h] at houtcome
  generalize hexit : Exit.error s = exit at houtcome
  cases houtcome with
  | refused => cases hexit; exact ⟨_, _, rfl, by decide⟩
  | exhausted => cases hexit; exact ⟨_, _, rfl, by decide⟩
  | failed => cases hexit; exact ⟨_, _, rfl, by decide⟩
  | _ => cases hexit

theorem awaitResponse_error {k : Kernel} {c : Command} {w w1 s : World}
    (hissued : Issued k c w w1) (hawaits : Finish.awaits (finish c) w.client.noack = true)
    (h : awaitResponse k (Finish.head (finish c)) (Finish.check (finish c)) w1 = .error s) :
    ∃ error s', s = withError error s' ∧
      (error ≠ .none ∨ (Denied c w ∧ Delivers k w.reads [Finish.head (finish c)] ∧
        error = emqGetError (.parse w.input))) := by
  have hinput : w1.input = w.input := by cases hissued; rfl
  have hreadsEq : w1.reads = w.reads := by cases hissued; rfl
  have haccepts : Accepts c := by cases hissued; assumption
  have houtcome := awaitResponse_outcome k (Finish.head_bounds (finish c))
    (Finish.check (finish c)) w1
  rw [h] at houtcome
  generalize hexit : Exit.error s = exit at houtcome
  cases houtcome with
  | unread => cases hexit; exact ⟨_, _, rfl, .inl (by decide)⟩
  | rejected => cases hexit; exact ⟨_, _, rfl, .inl (by decide)⟩
  | denied reads _ henough hcheck hstatus hdelivers =>
      cases hexit
      rw [hinput] at henough hcheck hstatus ⊢
      rw [hreadsEq] at hdelivers
      exact ⟨_, _, rfl, .inr ⟨⟨haccepts, hawaits, henough, hcheck, hstatus⟩,
        (hdelivers []).mpr (.done _), rfl⟩⟩
  | accepted => cases hexit

/-- A call fails before its response is accepted, or it is the rest that it does with
that response. -/
theorem exec_body (k : Kernel) (c : Command) (w : World) (hbuffer : w.client.HasBuffer) :
    (∃ error s, exec k c w = .returned (finish c).failure (setStatus .err (withError error s)) ∧
        (error ≠ .none ∨ (Denied c w ∧ Delivers k w.reads [Finish.head (finish c)] ∧
          error = emqGetError (.parse w.input)))) ∨
      ∃ response w2, Accepted k c w response w2 ∧
        exec k c w = close (finish c) (Finish.body k (finish c) response w2) := by
  rw [transact_eq]
  cases hissue : issueRequest k (valid c) ((request c).build k) (parts c) (withError .none w) with
  | error s =>
      rw [Code.bind_of_error hissue]
      obtain ⟨error, s', rfl, hloud⟩ := issueRequest_error hbuffer hissue
      exact .inl ⟨error, s', rfl, .inl hloud⟩
  | fault reason s => exact absurd hissue (issueRequest_ne_fault (w := withError .none w) hbuffer)
  | next value w1 =>
      have hissued := issued_of_next hbuffer hissue
      have hnoack : w1.client.noack = w.client.noack := by cases hissued; rfl
      rw [Code.bind_of_next hissue, Finish.run_eq, hnoack]
      cases hawaits : Finish.awaits (finish c) w.client.noack with
      | false => exact .inr ⟨[], w1, .unanswered w1 hissued hawaits, rfl⟩
      | true =>
          simp only [if_true]
          cases hawait : awaitResponse k (Finish.head (finish c)) (Finish.check (finish c)) w1 with
          | error s =>
              rw [Code.bind_of_error hawait]
              obtain ⟨error, s', rfl, htext⟩ := awaitResponse_error hissued hawaits hawait
              exact .inl ⟨error, s', rfl, htext⟩
          | fault reason s => exact absurd hawait (awaitResponse_ne_fault (Finish.head_bounds _))
          | next response w2 =>
              rw [Code.bind_of_next hawait]
              exact .inr ⟨response, w2, accepted_of_next hissued hawaits hawait, rfl⟩

/-- The client owns a request buffer of the default size. No request outgrows it. -/
def Ready (c : EmqClient) : Prop := c.HasBuffer ∧ c.size = emqDefaultRequestSize

theorem Ready.large {c : EmqClient} (h : Ready c) : ¬ c.size < 168 := by
  rw [h.2]
  decide

theorem ready_framed {w : World} (hready : Ready w.client) {noack : Bool} {r : Request}
    {rest : List UInt8} {mallocs : Nat} (hroom : Room w (r.bytes noack).length rest mallocs) :
    Ready (framed w (r.bytes noack) rest mallocs).client ∧ mallocs = w.mallocs := by
  obtain ⟨_, hsize⟩ := hready
  obtain ⟨buffer, _, _, hlength, hmallocs⟩ := hroom (by
    rw [hsize]
    decide)
  refine ⟨⟨⟨_, rfl, ?_⟩, ?_⟩, hmallocs⟩
  · simp [framed]
  · exact hlength.trans hsize

section Issued

variable {k : Kernel} {c : Command} {w w1 : World}

theorem Issued.input (h : Issued k c w w1) : w1.input = w.input := by cases h; rfl

theorem Issued.reads (h : Issued k c w w1) : w1.reads = w.reads := by cases h; rfl

theorem Issued.failures (h : Issued k c w w1) : w1.failures = w.failures := by cases h; rfl

theorem Issued.trace (h : Issued k c w w1) : w1.trace = w.trace := by cases h; rfl

theorem Issued.noack (h : Issued k c w w1) : w1.client.noack = w.client.noack := by cases h; rfl

theorem Issued.queueSubscriptions (h : Issued k c w w1) :
    w1.client.queueSubscriptions = w.client.queueSubscriptions := by cases h; rfl

theorem Issued.channelSubscriptions (h : Issued k c w w1) :
    w1.client.channelSubscriptions = w.client.channelSubscriptions := by cases h; rfl

theorem Issued.accepts (h : Issued k c w w1) : Accepts c := by
  cases h with
  | intro n writes rest mallocs haccepts => exact haccepts

theorem Issued.ready (h : Issued k c w w1) (hready : Ready w.client) :
    Ready w1.client ∧ w1.mallocs = w.mallocs := by
  cases h with
  | intro n writes rest mallocs haccepts hroom =>
      exact ready_framed (w := withError .none w) hready hroom

theorem Issued.output (h : Issued k c w w1) :
    w1.output = w.output ++ frame c w.client.noack ↔
      ¬ Stalls k w.writes (frame c w.client.noack).length (parts c) := by
  cases h with
  | intro n writes rest mallocs haccepts hroom hn hwhole =>
      change w.output ++ (frame c w.client.noack).take n = _ ↔ _
      rw [List.append_cancel_left_eq, ← hwhole]
      constructor
      · intro htake
        have := congrArg List.length htake
        rw [List.length_take] at this
        omega
      · intro heq
        rw [heq, List.take_length]

theorem Accepted.issued {response : List UInt8} {w2 : World} (h : Accepted k c w response w2) :
    ∃ w1 reads, Issued k c w w1 ∧ w.reads ≤ reads ∧
      w2 = received w1
        (if Finish.awaits (finish c) w.client.noack then Finish.head (finish c) else 0)
        reads w.failures := by
  cases h with
  | answered w1 reads hissued hawaits hreads =>
      exact ⟨w1, reads, hissued, Nat.le_of_lt hreads, by rw [if_pos hawaits]⟩
  | unanswered _ hissued hawaits =>
      refine ⟨w2, w2.reads, hissued, hissued.reads.ge, ?_⟩
      rw [hawaits, ← hissued.failures]
      rfl

end Issued

theorem acknowledges {c : Command} (hc : Finish.awaits (finish c) true = false) :
    ∃ check done, finish c = .acknowledge check done := by
  cases hfinish : finish c with
  | acknowledge check done => exact ⟨check, done, rfl⟩
  | _ =>
      rw [hfinish] at hc
      cases hc

theorem exec_returns {k : Kernel} {c : Command} (hc : Finish.awaits (finish c) true = false)
    {w : World} (hready : Ready w.client) : ∃ reply w', exec k c w = .returned reply w' := by
  have houtcome := exec_outcome k c w hready.1
  generalize hresult : exec k c w = result at houtcome
  cases houtcome with
  | exhausted size haccepts hsmall => exact absurd hsmall hready.large
  | finished response w2 exit haccepted hbody =>
      cases hbody with
      | faulted reason w3 hreads houtput hawaits =>
          rw [hc] at hawaits
          cases hawaits
      | _ => exact ⟨_, _, rfl⟩
  | _ => exact ⟨_, _, rfl⟩

theorem exec_returned {k : Kernel} {c : Command} {w : World} (hready : Ready w.client)
    {reply : Reply} {w' : World} (h : exec k c w = .returned reply w') :
    Ready w'.client ∧ w'.client.noack = w.client.noack ∧ w'.trace = w.trace ∧
      ((reply = (finish c).failure ∧ w'.client.status = .err ∧
          w'.client.queueSubscriptions = w.client.queueSubscriptions ∧
          w'.client.channelSubscriptions = w.client.channelSubscriptions) ∨
        (Accepts c ∧ w'.client.status = .ok ∧
          Finish.Successful (finish c) reply ∧
          ∃ done, (done = commit c ∨ done = .nothing) ∧
            (Kernel.MallocsOk k → done = commit c) ∧
            w'.client.queueSubscriptions =
              Commit.queueList done w.client.queueSubscriptions ∧
            w'.client.channelSubscriptions =
              Commit.channelList done w.client.channelSubscriptions)) := by
  have houtcome := exec_outcome k c w hready.1
  rw [h] at houtcome
  generalize hresult : Outcome.returned reply w' = result at houtcome
  cases houtcome with
  | refused =>
      cases hresult
      exact ⟨hready, rfl, rfl, .inl ⟨rfl, rfl, rfl, rfl⟩⟩
  | exhausted size haccepts hsmall => exact absurd hsmall hready.large
  | unsent n writes failures rest mallocs haccepts hroom =>
      cases hresult
      exact ⟨(ready_framed hready hroom).1, rfl, rfl, .inl ⟨rfl, rfl, rfl, rfl⟩⟩
  | unread w1 dropped reads hissued =>
      cases hresult
      exact ⟨(hissued.ready hready).1, hissued.noack, hissued.trace,
        .inl ⟨rfl, rfl, hissued.queueSubscriptions, hissued.channelSubscriptions⟩⟩
  | rejected w1 reads hissued =>
      cases hresult
      exact ⟨(hissued.ready hready).1, hissued.noack, hissued.trace,
        .inl ⟨rfl, rfl, hissued.queueSubscriptions, hissued.channelSubscriptions⟩⟩
  | denied w1 reads hissued =>
      cases hresult
      exact ⟨(hissued.ready hready).1, hissued.noack, hissued.trace,
        .inl ⟨rfl, rfl, hissued.queueSubscriptions, hissued.channelSubscriptions⟩⟩
  | finished response w2 exit haccepted hbody =>
      obtain ⟨w1, reads, hissued, _, hw2⟩ := haccepted.issued
      have hw1 := (hissued.ready hready).1
      subst hw2
      cases hbody with
      | done reply' done reads mallocs failures hsized henough hreads hfailures hcommit hreply
          halloc hall =>
          cases hresult
          refine ⟨hw1, hissued.noack, hissued.trace,
            .inr ⟨hissued.accepts, rfl, hreply, done, ?_, ?_, ?_, ?_⟩⟩
          · rwa [finish_commit] at hcommit
          · intro hok
            rw [← finish_commit]
            exact (hall hok).1
          · rw [← hissued.queueSubscriptions]
            rfl
          · rw [← hissued.channelSubscriptions]
            rfl
      | failed error dropped reads mallocs failures =>
          cases hresult
          exact ⟨hw1, hissued.noack, hissued.trace,
            .inl ⟨rfl, rfl, hissued.queueSubscriptions, hissued.channelSubscriptions⟩⟩
      | unnamed dropped reads mallocs failures =>
          cases hresult
          exact ⟨hw1, hissued.noack, hissued.trace,
            .inl ⟨rfl, rfl, hissued.queueSubscriptions, hissued.channelSubscriptions⟩⟩
      | faulted => cases hresult

/-- What everything in the library respects: failures below it are not forgotten, and
the input is taken from its front. -/
structure Advances (w w' : World) : Prop where
  failures : w.failures ≤ w'.failures
  suffix : w'.input <:+ w.input

theorem Advances.refl (w : World) : Advances w w := ⟨le_refl _, List.suffix_rfl⟩

theorem Advances.trans {w1 w2 w3 : World} (h : Advances w1 w2) (h' : Advances w2 w3) :
    Advances w1 w3 :=
  ⟨h.failures.trans h'.failures, h'.suffix.trans h.suffix⟩

theorem body_advances {k : Kernel} {f : Finish} {response : List UInt8} {bodylen : Nat}
    {w w' : World} {reply : Reply} {exit : Exit World Fault Reply}
    (h : BodyOutcome k f response bodylen w exit) (hclose : close f exit = .returned reply w') :
    Advances w w' := by
  cases h with
  | done reply' done reads mallocs failures hsized henough hreads hfailures =>
      cases hclose
      exact ⟨hfailures, List.drop_suffix _ _⟩
  | failed error dropped reads mallocs failures hreads hfailures =>
      cases hclose
      exact ⟨Nat.le_of_lt hfailures, List.drop_suffix _ _⟩
  | unnamed dropped reads mallocs failures hreads hfailures =>
      cases hclose
      exact ⟨Nat.le_of_lt hfailures, List.drop_suffix _ _⟩
  | faulted => cases hclose

theorem exec_advances {k : Kernel} {c : Command} {w : World} (hready : Ready w.client)
    {reply : Reply} {w' : World} (h : exec k c w = .returned reply w') : Advances w w' := by
  have houtcome := exec_outcome k c w hready.1
  rw [h] at houtcome
  generalize hresult : Outcome.returned reply w' = result at houtcome
  have hissues : ∀ {w1}, Issued k c w w1 → Advances w w1 := fun hissued =>
    ⟨hissued.failures.ge, hissued.input ▸ List.suffix_rfl⟩
  cases houtcome with
  | refused => cases hresult; exact ⟨le_refl _, List.suffix_rfl⟩
  | exhausted size haccepts hsmall => exact absurd hsmall hready.large
  | unsent n writes failures rest mallocs haccepts hroom hstall hcause =>
      cases hresult
      refine ⟨?_, List.suffix_rfl⟩
      change w.failures ≤ failures
      omega
  | unread w1 dropped reads hissued =>
      cases hresult
      exact ⟨Nat.le_succ _, (List.drop_suffix _ _).trans (hissues hissued).suffix⟩
  | rejected w1 reads hissued =>
      cases hresult
      exact ⟨le_refl _, (List.drop_suffix _ _).trans (hissues hissued).suffix⟩
  | denied w1 reads hissued =>
      cases hresult
      exact ⟨le_refl _, (List.drop_suffix _ _).trans (hissues hissued).suffix⟩
  | finished response w2 exit haccepted hbody =>
      obtain ⟨w1, reads, hissued, _, hw2⟩ := haccepted.issued
      have hreceived : Advances w1 w2 := by
        rw [hw2]
        exact ⟨hissued.failures.le, List.drop_suffix _ _⟩
      exact ((hissues hissued).trans hreceived).trans (body_advances hbody hresult.symm)

end Libemq.Calls
