import Libemq.Runs

namespace Libemq.Sending

open Libemq.CStrings
open Libemq.ExitCode
open Libemq.Client
open Libemq.Network
open Libemq.Commands
open Libemq.Transactions
open Libemq.Responses
open Libemq.Calls
open Libemq.Runs

/-- The call went on after sending: it waited for a response, changed a
subscription list or succeeded. -/
def Proceeds (w : World) (result : Result Reply) : Prop :=
  result.state.reads ≠ w.reads ∨
    result.state.client.queueSubscriptions ≠ w.client.queueSubscriptions ∨
    result.state.client.channelSubscriptions ≠ w.client.channelSubscriptions ∨
    Succeeded result

theorem proceeds_of_succeeded {w : World} {result : Result Reply} (h : Succeeded result) :
    Proceeds w result := .inr (.inr (.inr h))

/-- The kernel accepted exactly the frame of the call. -/
def SentWhole (c : Command) (w : World) (result : Result Reply) : Prop :=
  result.state.output = w.output ++ frame c w.client.noack

def OutOfMemory (k : Kernel) (c : Command) (w : World) : Prop :=
  w.client.noack = true ∧
    ∃ size, Commit.allocation (commit c) = some size ∧ k.malloc w.mallocs size = false

/-- The kernel takes a part of the frame without reporting an error, and the
client does not give up for another reason before it looks at a response. -/
def CutShort (k : Kernel) (c : Command) (w : World) : Prop :=
  Accepts c ∧ Stalls k w.writes (frame c w.client.noack).length (parts c) ∧
    ¬ OutOfMemory k c w

theorem allocation_of_awaits {c : Command}
    (h : Finish.awaits (finish c) true = true) : Commit.allocation (commit c) = none := by
  cases c <;> simp_all [finish, Finish.awaits, commit, Commit.allocation]

theorem not_outOfMemory_of_awaits {k : Kernel} {c : Command} {w : World}
    (h : Finish.awaits (finish c) w.client.noack = true) : ¬ OutOfMemory k c w := by
  rintro ⟨hnoack, size, hsize, _⟩
  rw [hnoack] at h
  rw [allocation_of_awaits h] at hsize
  cases hsize

theorem sentWhole_of_issued {k : Kernel} {c : Command} {w w1 : World} {result : Result Reply}
    (hissued : Issued k c w w1) (hmemory : ¬ OutOfMemory k c w)
    (hproceeds : Proceeds w result) (houtput : result.state.output = w1.output) :
    (Proceeds w result → SentWhole c w result) ↔ ¬ CutShort k c w := by
  have hsent : SentWhole c w result ↔
      ¬ Stalls k w.writes (frame c w.client.noack).length (parts c) := by
    rw [SentWhole, houtput]
    exact hissued.output
  constructor
  · rintro hwhole ⟨_, hstall, _⟩
    exact hsent.mp (hwhole hproceeds) hstall
  · intro hcut _
    exact hsent.mpr fun hstall => hcut ⟨hissued.accepts, hstall, hmemory⟩

theorem sentWhole_of_failed {k : Kernel} {c : Command} {w : World} {result : Result Reply}
    (hproceeds : ¬ Proceeds w result) (hcut : ¬ CutShort k c w) :
    (Proceeds w result → SentWhole c w result) ↔ ¬ CutShort k c w :=
  ⟨fun _ => hcut, fun _ h => absurd h hproceeds⟩

/-- A call that proceeds past sending has put its whole frame on the wire, unless
the kernel cut the frame short. -/
theorem proceeds_sentWhole_iff (k : Kernel) (c : Command) (w : World) (hready : Ready w.client) :
    (Proceeds w (exec k c w) → SentWhole c w (exec k c w)) ↔ ¬ CutShort k c w := by
  have houtcome := exec_outcome k c w hready.1
  generalize exec k c w = result at houtcome
  cases houtcome with
  | refused h =>
      refine sentWhole_of_failed ?_ (fun hcut => h hcut.1)
      simp [Proceeds, Outcome.state, succeeded_iff]
  | exhausted size haccepts hsmall => exact absurd hsmall hready.large
  | unsent n writes failures rest mallocs haccepts hroom hstall =>
      refine sentWhole_of_failed ?_ (fun hcut => hstall hcut.2.1)
      simp [Proceeds, Outcome.state, succeeded_iff, sent, framed]
  | unread w1 dropped reads hissued hawaits hreads =>
      exact sentWhole_of_issued hissued (not_outOfMemory_of_awaits hawaits)
        (.inl (Nat.ne_of_gt hreads)) rfl
  | rejected w1 reads hissued hawaits hreads =>
      exact sentWhole_of_issued hissued (not_outOfMemory_of_awaits hawaits)
        (.inl (Nat.ne_of_gt hreads)) rfl
  | denied w1 reads hissued hawaits hreads =>
      exact sentWhole_of_issued hissued (not_outOfMemory_of_awaits hawaits)
        (.inl (Nat.ne_of_gt hreads)) rfl
  | finished response w2 exit haccepted hbody =>
      cases haccepted with
      | answered w1 reads hissued hawaits hreads =>
          have hmemory := not_outOfMemory_of_awaits (k := k) hawaits
          have hlater : ∀ reads', reads ≤ reads' → reads' ≠ w.reads := fun reads' h => by omega
          cases hbody with
          | done reply done reads' mallocs failures hsized henough hreads' =>
              exact sentWhole_of_issued hissued hmemory (.inl (hlater _ hreads')) rfl
          | failed error dropped reads' mallocs failures hreads' =>
              exact sentWhole_of_issued hissued hmemory (.inl (hlater _ hreads')) rfl
          | unnamed dropped reads' mallocs failures hreads' =>
              exact sentWhole_of_issued hissued hmemory (.inl (hlater _ hreads')) rfl
          | faulted reason w' hreads' houtput =>
              exact sentWhole_of_issued hissued hmemory (.inl (hlater _ hreads')) houtput
      | unanswered _ hissued hawaits =>
          have hnoack : w.client.noack = true := by
            by_contra hoff
            rw [Bool.not_eq_true] at hoff
            simp [hoff] at hawaits
          have hmallocs := (hissued.ready hready).2
          rw [hnoack] at hawaits
          cases hbody with
          | done reply done reads' mallocs failures hsized henough hreads' hfailures hcommit
              hreply halloc =>
              refine sentWhole_of_issued hissued ?_
                (proceeds_of_succeeded (.intro _ _ rfl)) rfl
              rintro ⟨_, size, hsize, hfull⟩
              rw [← finish_commit] at hsize
              rw [← hmallocs, halloc size hsize] at hfull
              cases hfull
          | failed error dropped reads' mallocs failures hreads' hfailures halloc =>
              obtain ⟨hsame, size, hsize, hfull⟩ := halloc hawaits
              rw [finish_commit] at hsize
              rw [hmallocs] at hfull
              refine sentWhole_of_failed ?_ (fun hcut => hcut.2.2 ⟨hnoack, size, hsize, hfull⟩)
              simp [Proceeds, Outcome.state, succeeded_iff, close, hsame, hissued.reads,
                hissued.queueSubscriptions, hissued.channelSubscriptions]
          | unnamed dropped reads' mallocs failures hreads' hfailures hanswers =>
              rw [hanswers] at hawaits
              cases hawaits
          | faulted reason w' hreads' houtput hanswers =>
              rw [hanswers] at hawaits
              cases hawaits

def trickling : Kernel where
  read _ n := some n
  write _ n := some n
  writev _ _ := some 1
  interrupts _ := 0
  malloc _ _ := true

def smallPush : Command :=
  .queuePush queueQ ⟨[7], 0, 0, false⟩

def unacknowledged : World := emqNoackEnable (World.connected [] [])

theorem reachable_unacknowledged (k : Kernel) : Reachable k unacknowledged :=
  ⟨[], [], .single (.noackEnable _)⟩

/-- One byte of the 77 is on the wire, and `emq_queue_push` reports success. -/
theorem smallPush_cut :
    ¬ ∀ (k : Kernel) (c : Command) (w : World), Reachable k w →
      Proceeds w (exec k c w) → SentWhole c w (exec k c w) := by
  intro h
  have hsucceeded : Succeeded (exec trickling smallPush unacknowledged) := by
    decide +kernel
  have hwhole := h trickling smallPush unacknowledged (reachable_unacknowledged trickling)
    (proceeds_of_succeeded hsucceeded)
  have hlength : (exec trickling smallPush unacknowledged).state.output.length = 1 := by
    decide +kernel
  have hframe : (unacknowledged.output ++ frame smallPush true).length = 77 := by
    decide +kernel
  rw [SentWhole] at hwhole
  rw [hwhole] at hlength
  exact absurd (hframe.symm.trans hlength) (by decide)

theorem proceeds_sentWhole_iff_smallPush :
    Ready unacknowledged.client ∧
      ((Proceeds unacknowledged (exec trickling smallPush unacknowledged) →
        SentWhole smallPush unacknowledged (exec trickling smallPush unacknowledged)) ↔
        ¬ CutShort trickling smallPush unacknowledged) :=
  ⟨ready_connected [] [],
    proceeds_sentWhole_iff trickling smallPush unacknowledged (ready_connected [] [])⟩

end Libemq.Sending
