import Libemq.Events
import Mathlib.Data.List.Chain
import Mathlib.Logic.Relation

/-!
The runs of an application: calls, noack switches and the iterations of
`emq_process`, in whatever order the application and its callbacks make them.
-/

namespace Libemq.Runs

open Libemq.CStrings
open Libemq.ExitCode
open Libemq.Client
open Libemq.Network
open Libemq.Commands
open Libemq.Transactions
open Libemq.Responses
open Libemq.Calls
open Libemq.Events

section Invariants

variable {σ : Type} {R : σ → σ → Prop} {P Q : σ → Prop}

theorem of_steps (hstep : ∀ {s s'}, P s → R s s' → P s') {s s' : σ}
    (h : Relation.ReflTransGen R s s') (hs : P s) : P s' := by
  induction h with
  | refl => exact hs
  | tail _ hlast ih => exact hstep ih hlast

/-- A property that steps preserve as long as `Q` holds is there in all states of a
run in which `Q` always holds. -/
theorem of_guarded_run (hstep : ∀ {s s'}, P s → Q s → R s s' → P s') {s : σ} {run : List σ}
    (h : (s :: run).IsChain R) (hs : P s) (hguard : ∀ s' ∈ s :: run, Q s') :
    ∀ s' ∈ s :: run, P s' := by
  induction run generalizing s with
  | nil => simpa using hs
  | cons s1 run ih =>
      obtain ⟨hfirst, hrest⟩ := List.isChain_cons_cons.mp h
      obtain ⟨hnow, hlater⟩ := List.forall_mem_cons.mp hguard
      exact List.forall_mem_cons.mpr ⟨hs, ih hrest (hstep hs hnow hfirst) hlater⟩

theorem of_run (hstep : ∀ {s s'}, P s → R s s' → P s') {s : σ} {run : List σ}
    (h : (s :: run).IsChain R) (hs : P s) : ∀ s' ∈ s :: run, P s' :=
  of_guarded_run (Q := fun _ => True) (fun hp _ hr => hstep hp hr) h hs fun _ _ => trivial

end Invariants

def invoked (delivery : Delivery) (w : World) : World :=
  { w with trace := w.trace ++ [.invoked delivery.1 delivery.2] }

/-- What can happen to a connection between two points at which the application
has control. The steps of `emq_process` are its start, an event handed to a
callback, and its two ways to return. -/
inductive Step (k : Kernel) : World → World → Prop
  | issue (c : Command) (reply : Reply) {w w' : World} (h : issue k c w = .returned reply w') :
      Step k w w'
  | noackEnable (w : World) : Step k w (emqNoackEnable w)
  | noackDisable (w : World) : Step k w (emqNoackDisable w)
  | processStart (w : World) : Step k w (withError .none w)
  | processEvent (delivery : Delivery) {w w' : World}
      (h : receiveEvent k w = .next delivery w') : Step k w (invoked delivery w')
  | processFailed {w w' : World} (h : receiveEvent k w = .error w') :
      Step k w (setStatus .err w')
  | processDone (w : World) : Step k w (setStatus .ok w)

abbrev Steps (k : Kernel) : World → World → Prop := Relation.ReflTransGen (Step k)

/-- A connection that was set up and used in some way. -/
def Reachable (k : Kernel) (w : World) : Prop :=
  ∃ heap input, Steps k (World.connected heap input) w

/-- The callbacks act on the connection through the library only. -/
def UseLibrary (k : Kernel) (callbacks : Callbacks) : Prop :=
  ∀ f args w ret w', callbacks f args w = .returned ret w' → Steps k w w'

theorem Reachable.step {k : Kernel} {w w' : World} (h : Reachable k w) (hstep : Step k w w') :
    Reachable k w' := by
  obtain ⟨heap, input, hsteps⟩ := h
  exact ⟨heap, input, hsteps.tail hstep⟩

theorem ready_connected (heap input : List UInt8) :
    Ready (World.connected heap input).client := by
  refine ⟨⟨_, rfl, ?_⟩, rfl⟩
  simp only [World.connected, emqClientInit, List.length_append, List.length_take,
    List.length_replicate]
  omega

theorem receiveEvent_client {k : Kernel} {w w' : World} {delivery : Delivery}
    (h : receiveEvent k w = .next delivery w') :
    w'.client = w.client ∧ w'.trace = w.trace ∧ w'.output = w.output ∧
      w'.failures = w.failures := by
  have houtcome := receiveEvent_outcome k w
  rw [h] at houtcome
  generalize hexit : Exit.next delivery w' = exit at houtcome
  cases houtcome with
  | complete => cases hexit; exact ⟨rfl, rfl, rfl, rfl⟩
  | _ => cases hexit

theorem receiveEvent_error {k : Kernel} {w w' : World} (h : receiveEvent k w = .error w') :
    (∃ text, w'.client = { w.client with error := text }) ∧ w'.trace = w.trace ∧
      w'.output = w.output ∧ w.failures ≤ w'.failures := by
  have houtcome := receiveEvent_outcome k w
  rw [h] at houtcome
  generalize hexit : Exit.error w' = exit at houtcome
  cases houtcome with
  | unread => cases hexit; exact ⟨⟨_, rfl⟩, rfl, rfl, Nat.le_succ _⟩
  | malformed => cases hexit; exact ⟨⟨_, rfl⟩, rfl, rfl, le_refl _⟩
  | unregistered => cases hexit; exact ⟨⟨_, rfl⟩, rfl, rfl, le_refl _⟩
  | truncated error dropped reads mallocs failures hreads hheader hfailures =>
      cases hexit
      exact ⟨⟨_, rfl⟩, rfl, rfl, Nat.le_of_lt hfailures⟩
  | _ => cases hexit

theorem issue_returned {k : Kernel} {c : Command} {w w' : World} {reply : Reply}
    (h : issue k c w = .returned reply w') :
    ∃ s, exec k c w = .returned reply s ∧
      w' = { s with trace := s.trace ++ [.issued c reply] } := by
  unfold Commands.issue at h
  cases hexec : exec k c w with
  | fault reason s => simp [hexec] at h
  | returned r s =>
      simp only [hexec, Outcome.returned.injEq] at h
      obtain ⟨rfl, rfl⟩ := h
      exact ⟨s, rfl, rfl⟩

theorem Step.ready {k : Kernel} {w w' : World} (h : Step k w w') (hready : Ready w.client) :
    Ready w'.client := by
  cases h with
  | issue c reply h =>
      obtain ⟨s, hexec, rfl⟩ := issue_returned h
      exact (exec_returned hready hexec).1
  | noackEnable => exact hready
  | noackDisable => exact hready
  | processStart => exact hready
  | processEvent delivery h => simpa [invoked, (receiveEvent_client h).1] using hready
  | processFailed h =>
      obtain ⟨⟨text, hclient⟩, _⟩ := receiveEvent_error h
      rw [setStatus_client, hclient]
      exact hready
  | processDone => exact hready

theorem receiveEvent_advances {k : Kernel} {w : World} :
    match receiveEvent k w with
    | .next _ w' => Advances w w'
    | .error w' => Advances w w'
    | .fault _ _ => True := by
  have houtcome := receiveEvent_outcome k w
  generalize receiveEvent k w = exit at houtcome
  cases houtcome with
  | unread => exact ⟨Nat.le_succ _, List.drop_suffix _ _⟩
  | truncated error dropped reads mallocs failures hreads hheader hfailures =>
      exact ⟨Nat.le_of_lt hfailures, List.drop_suffix _ _⟩
  | faulted => trivial
  | _ => exact ⟨le_refl _, List.drop_suffix _ _⟩

theorem Step.advances {k : Kernel} {w w' : World} (h : Step k w w') (hready : Ready w.client) :
    Advances w w' := by
  have hevent := receiveEvent_advances (k := k) (w := w)
  cases h with
  | issue c reply h =>
      obtain ⟨s, hexec, rfl⟩ := issue_returned h
      obtain ⟨hfailures, hsuffix⟩ := exec_advances hready hexec
      exact ⟨hfailures, hsuffix⟩
  | noackEnable => exact ⟨le_refl _, List.suffix_rfl⟩
  | noackDisable => exact ⟨le_refl _, List.suffix_rfl⟩
  | processStart => exact ⟨le_refl _, List.suffix_rfl⟩
  | processEvent delivery h =>
      rw [h] at hevent
      exact ⟨hevent.failures, hevent.suffix⟩
  | processFailed h =>
      rw [h] at hevent
      exact ⟨hevent.failures, hevent.suffix⟩
  | processDone => exact ⟨le_refl _, List.suffix_rfl⟩

theorem Steps.ready {k : Kernel} {w w' : World} (h : Steps k w w') (hready : Ready w.client) :
    Ready w'.client :=
  of_steps (P := fun w => Ready w.client) (fun hready hstep => hstep.ready hready) h
    hready

theorem Steps.advances {k : Kernel} {w w' : World} (h : Steps k w w')
    (hready : Ready w.client) : Advances w w' := by
  induction h with
  | refl => exact .refl w
  | tail hsteps hstep ih => exact ih.trans (hstep.advances (Steps.ready hsteps hready))

theorem Reachable.ready {k : Kernel} {w : World} (h : Reachable k w) : Ready w.client := by
  obtain ⟨heap, input, hsteps⟩ := h
  exact Steps.ready hsteps (ready_connected heap input)

/-- A property that depends on the lists of the client and the trace only, and that calls
and invocations of callbacks keep. -/
structure Kept (k : Kernel) (P : World → Prop) : Prop where
  congr : ∀ {w w'}, w'.client.queueSubscriptions = w.client.queueSubscriptions →
    w'.client.channelSubscriptions = w.client.channelSubscriptions → w'.trace = w.trace →
    P w → P w'
  invoked : ∀ {w} delivery, P w → P (invoked delivery w)
  issue : ∀ {c reply w w'}, Ready w.client → issue k c w = .returned reply w' → P w → P w'

theorem Kept.step {k : Kernel} {P : World → Prop} (hP : Kept k P) {w w' : World}
    (h : Step k w w') (hready : Ready w.client) (hw : P w) : P w' := by
  cases h with
  | issue c reply h => exact hP.issue hready h hw
  | processEvent delivery h =>
      obtain ⟨hclient, htrace, _⟩ := receiveEvent_client h
      exact hP.invoked delivery (hP.congr (by rw [hclient]) (by rw [hclient]) htrace hw)
  | processFailed h =>
      obtain ⟨⟨text, hclient⟩, htrace, _⟩ := receiveEvent_error h
      exact hP.congr (by rw [setStatus_client, hclient]) (by rw [setStatus_client, hclient])
        (by rw [setStatus_trace, htrace]) hw
  | _ => exact hP.congr (w := w) rfl rfl rfl hw

theorem Kept.of_reachable {k : Kernel} {P : World → Prop} (hP : Kept k P)
    (hinit : ∀ heap input, P (World.connected heap input)) {w : World} (h : Reachable k w) :
    P w := by
  obtain ⟨heap, input, hsteps⟩ := h
  exact (of_steps (P := fun w => Ready w.client ∧ P w)
    (fun hw hstep => ⟨hstep.ready hw.1, hP.step hstep hw.1 hw.2⟩) hsteps
    ⟨ready_connected heap input, hinit heap input⟩).2

abbrev Ledger := List EmqQueueSubscription → List EmqChannelSubscription → List TraceEvent → Prop

abbrev Ledger.Of (P : Ledger) (w : World) : Prop :=
  P w.client.queueSubscriptions w.client.channelSubscriptions w.trace

/-- The property holds at first and is kept by calls that succeed. Nothing else changes the
lists, and nothing is taken from the trace. -/
structure Recorded (P : Ledger) : Prop where
  init : P [] [] []
  append : ∀ {queues channels trace}, P queues channels trace → ∀ events,
    P queues channels (trace ++ events)
  commit : ∀ {c reply queues channels trace}, Accepts c → Finish.Successful (finish c) reply →
    P queues channels trace → P (Commit.queueList (commit c) queues)
      (Commit.channelList (commit c) channels) (trace ++ [.issued c reply])

theorem Recorded.issue {P : Ledger} (hP : Recorded P) {k : Kernel} {c : Command} {w w' : World}
    {reply : Reply} (hready : Ready w.client) (h : issue k c w = .returned reply w')
    (hw : P.Of w) : P.Of w' := by
  obtain ⟨s, hexec, rfl⟩ := issue_returned h
  obtain ⟨_, _, htrace, hcases⟩ := exec_returned hready hexec
  change P s.client.queueSubscriptions s.client.channelSubscriptions
    (s.trace ++ [.issued c reply])
  rw [htrace]
  rcases hcases with ⟨_, _, hqueues, hchannels⟩ |
    ⟨haccepts, _, hreply, done, hdone, _, hqueues, hchannels⟩
  · rw [hqueues, hchannels]
    exact hP.append hw _
  · rw [hqueues, hchannels]
    rcases hdone with rfl | rfl
    · exact hP.commit haccepts hreply hw
    · exact hP.append hw _

theorem Recorded.kept {P : Ledger} (hP : Recorded P) (k : Kernel) : Kept k P.Of where
  congr := by
    intro w w' hqueues hchannels htrace hw
    rw [Ledger.Of, hqueues, hchannels, htrace]
    exact hw
  invoked _ hw := hP.append hw _
  issue hready h hw := hP.issue hready h hw

theorem Recorded.of_reachable {P : Ledger} (hP : Recorded P) {k : Kernel} {w : World}
    (h : Reachable k w) : P.Of w :=
  (hP.kept k).of_reachable (fun _ _ => hP.init) h

/-- One turn of the loop: an event was delivered and the loop goes on. -/
structure Turn (k : Kernel) (callbacks : Callbacks) (w w' : World) : Prop where
  active : ¬ Idle w.client
  goes_on : ∃ delivery s ret, receiveEvent k w = .next delivery s ∧
    callbacks delivery.1 delivery.2 (invoked delivery s) = .returned ret w' ∧
    ¬ (ret ≠ 0 ∧ w'.client.queueSubscriptions.length = 0)

def turned (k : Kernel) (callbacks : Callbacks) (w : World) : World :=
  match receiveEvent k w with
  | .next delivery s => (callbacks delivery.1 delivery.2 (invoked delivery s)).state
  | exit => exit.state

theorem Turn.eq_turned {k : Kernel} {callbacks : Callbacks} {w w' : World}
    (h : Turn k callbacks w w') : w' = turned k callbacks w := by
  obtain ⟨delivery, s, ret, hreceive, hcallback, _⟩ := h.goes_on
  simp only [turned, hreceive, hcallback, Outcome.state]

theorem turn_unique {k : Kernel} {callbacks : Callbacks} {w w1 w2 : World}
    (h1 : Turn k callbacks w w1) (h2 : Turn k callbacks w w2) : w1 = w2 :=
  h1.eq_turned.trans h2.eq_turned.symm

/-- The worlds in which the loop that starts here begins an iteration. -/
abbrev LoopHead (k : Kernel) (callbacks : Callbacks) : World → World → Prop :=
  Relation.ReflTransGen (Turn k callbacks)

theorem invoke_returned {callbacks : Callbacks} {delivery : Delivery} {w w' : World} {ret : Int}
    (h : callbacks delivery.1 delivery.2 (invoked delivery w) = .returned ret w') :
    invoke callbacks delivery w = .next ret w' := by
  unfold invoked at h
  simp [invoke, h]

theorem invoke_fault {callbacks : Callbacks} {delivery : Delivery} {w w' : World}
    {reason : Fault}
    (h : callbacks delivery.1 delivery.2 (invoked delivery w) = .fault reason w') :
    invoke callbacks delivery w = .fault reason w' := by
  unfold invoked at h
  simp [invoke, h]

theorem emqProcessLoop_turn {k : Kernel} {callbacks : Callbacks} {w w' : World}
    (h : Turn k callbacks w w') (fuel : Nat) :
    emqProcessLoop k callbacks (fuel + 1) w = emqProcessLoop k callbacks fuel w' := by
  obtain ⟨delivery, s, ret, hreceive, hcallback, hgo⟩ := h.goes_on
  rw [emqProcessLoop_succ, if_neg h.active, Code.bind_of_next hreceive,
    Code.bind_of_next (invoke_returned hcallback), Code.bind_reads, if_neg hgo]

/-- What the loop can do with its next iteration. -/
inductive IterationOutcome (k : Kernel) (callbacks : Callbacks) (fuel : Nat) (w : World) :
    Exit World Fault Unit → Prop
  | idle (h : Idle w.client) : IterationOutcome k callbacks fuel w (.next () w)
  | refused (w' : World) (hactive : ¬ Idle w.client) (h : receiveEvent k w = .error w') :
      IterationOutcome k callbacks fuel w (.error w')
  | faulted (reason : Fault) (w' : World) :
      IterationOutcome k callbacks fuel w (.fault reason w')
  | stopped (delivery : Delivery) (s w' : World) (ret : Int) (hactive : ¬ Idle w.client)
      (h : receiveEvent k w = .next delivery s)
      (hcallback : callbacks delivery.1 delivery.2 (invoked delivery s) = .returned ret w')
      (hstop : ret ≠ 0 ∧ w'.client.queueSubscriptions.length = 0) :
      IterationOutcome k callbacks fuel w (.next () w')
  | turned (s : World) (hturn : Turn k callbacks w s) :
      IterationOutcome k callbacks fuel w (emqProcessLoop k callbacks fuel s)

theorem emqProcessLoop_outcome (k : Kernel) (callbacks : Callbacks) (fuel : Nat) (w : World) :
    IterationOutcome k callbacks fuel w (emqProcessLoop k callbacks (fuel + 1) w) := by
  rw [emqProcessLoop_succ]
  split
  · exact .idle ‹_›
  · rename_i hactive
    cases hreceive : receiveEvent k w with
    | error s =>
        rw [Code.bind_of_error hreceive]
        exact .refused s hactive hreceive
    | fault reason s =>
        rw [Code.bind_of_fault hreceive]
        exact .faulted reason s
    | next delivery s =>
        rw [Code.bind_of_next hreceive]
        cases hcallback : callbacks delivery.1 delivery.2 (invoked delivery s) with
        | fault reason s' =>
            rw [Code.bind_of_fault (invoke_fault hcallback)]
            exact .faulted reason s'
        | returned ret s' =>
            rw [Code.bind_of_next (invoke_returned hcallback), Code.bind_reads]
            split
            · exact .stopped delivery s s' ret hactive hreceive hcallback ‹_›
            · exact .turned s' ⟨hactive, delivery, s, ret, hreceive, hcallback, ‹_›⟩

theorem emqProcess_eq (k : Kernel) (callbacks : Callbacks) (w : World) :
    emqProcess k callbacks w =
      match emqProcessLoop k callbacks (w.input.length + 1) (withError .none w) with
      | .next _ s => .returned .ok (setStatus .ok s)
      | .error s => .returned .err (setStatus .err s)
      | .fault reason s => .fault reason s := by
  rw [emqProcess, Code.body, bind_clearError, Code.bind_reads, withError_input]
  cases hloop : emqProcessLoop k callbacks (w.input.length + 1) (withError .none w) with
  | next value s => rw [Code.bind_of_next hloop]; rfl
  | error s => rw [Code.bind_of_error hloop]
  | fault reason s => rw [Code.bind_of_fault hloop]

theorem emqProcessLoop_error {k : Kernel} {callbacks : Callbacks} (fuel : Nat) :
    ∀ w w' : World, emqProcessLoop k callbacks fuel w = .error w' →
      ∃ w1, LoopHead k callbacks w w1 ∧ ¬ Idle w1.client ∧ receiveEvent k w1 = .error w' := by
  induction fuel with
  | zero =>
      intro w w' h
      simp [emqProcessLoop] at h
  | succ fuel ih =>
      intro w w' h
      have houtcome := emqProcessLoop_outcome k callbacks fuel w
      rw [h] at houtcome
      generalize hexit : Exit.error w' = exit at houtcome
      cases houtcome with
      | idle => cases hexit
      | faulted => cases hexit
      | stopped => cases hexit
      | refused s hactive hreceive =>
          cases hexit
          exact ⟨w, .refl, hactive, hreceive⟩
      | turned s hturn =>
          obtain ⟨w1, hhead, hactive, hreceive⟩ := ih s w' hexit.symm
          exact ⟨w1, .head hturn hhead, hactive, hreceive⟩

theorem emqProcess_err {k : Kernel} {callbacks : Callbacks} {w w' : World}
    (h : emqProcess k callbacks w = .returned .err w') :
    ∃ w1 s, LoopHead k callbacks (withError .none w) w1 ∧ ¬ Idle w1.client ∧
      receiveEvent k w1 = .error s ∧ w' = setStatus .err s := by
  rw [emqProcess_eq] at h
  cases hloop : emqProcessLoop k callbacks (w.input.length + 1) (withError .none w) with
  | next value s =>
      rw [hloop] at h
      cases h
  | fault reason s =>
      rw [hloop] at h
      cases h
  | error s =>
      rw [hloop] at h
      cases h
      obtain ⟨w1, hhead, hactive, hreceive⟩ := emqProcessLoop_error _ _ _ hloop
      exact ⟨w1, s, hhead, hactive, hreceive, rfl⟩

theorem Turn.steps {k : Kernel} {callbacks : Callbacks} (huse : UseLibrary k callbacks)
    {w w' : World} (h : Turn k callbacks w w') : Steps k w w' := by
  obtain ⟨delivery, s, ret, hreceive, hcallback, _⟩ := h.goes_on
  exact .head (.processEvent delivery hreceive) (huse _ _ _ _ _ hcallback)

theorem LoopHead.steps {k : Kernel} {callbacks : Callbacks} (huse : UseLibrary k callbacks)
    {w w' : World} (h : LoopHead k callbacks w w') : Steps k w w' := by
  induction h with
  | refl => exact .refl
  | tail _ hturn ih => exact ih.trans (hturn.steps huse)

theorem emqProcessLoop_steps {k : Kernel} {callbacks : Callbacks}
    (huse : UseLibrary k callbacks) (fuel : Nat) :
    ∀ w : World,
      (∀ value w', emqProcessLoop k callbacks fuel w = .next value w' → Steps k w w') ∧
      (∀ w', emqProcessLoop k callbacks fuel w = .error w' →
        Steps k w (setStatus .err w')) := by
  induction fuel with
  | zero =>
      intro w
      constructor <;> intros <;> simp_all [emqProcessLoop]
  | succ fuel ih =>
      intro w
      have houtcome := emqProcessLoop_outcome k callbacks fuel w
      generalize emqProcessLoop k callbacks (fuel + 1) w = exit at houtcome
      cases houtcome with
      | idle h =>
          constructor
          · intro value w' h
            cases h
            exact .refl
          · intro w' h
            cases h
      | refused s hactive hreceive =>
          constructor
          · intro value w' h
            cases h
          · intro w' h
            cases h
            exact .single (.processFailed hreceive)
      | faulted reason s => constructor <;> intros <;> simp_all
      | stopped delivery s s' ret hactive hreceive hcallback hstop =>
          constructor
          · intro value w' h
            cases h
            exact .head (.processEvent delivery hreceive) (huse _ _ _ _ _ hcallback)
          · intro w' h
            cases h
      | turned s hturn =>
          obtain ⟨hnext, herror⟩ := ih s
          exact ⟨fun value w' h => (hturn.steps huse).trans (hnext value w' h),
            fun w' h => (hturn.steps huse).trans (herror w' h)⟩

/-- Whatever `emq_process` does with callbacks that use the library, the steps can
do. -/
theorem emqProcess_steps {k : Kernel} {callbacks : Callbacks} (huse : UseLibrary k callbacks)
    {w w' : World} {status : Status} (h : emqProcess k callbacks w = .returned status w') :
    Steps k w w' := by
  have hstart : Steps k w (withError .none w) := .single (.processStart w)
  obtain ⟨hnext, herror⟩ := emqProcessLoop_steps huse (w.input.length + 1) (withError .none w)
  rw [emqProcess_eq] at h
  cases hloop : emqProcessLoop k callbacks (w.input.length + 1) (withError .none w) with
  | next value s =>
      rw [hloop] at h
      cases h
      exact (hstart.trans (hnext value s hloop)).tail (.processDone s)
  | error s =>
      rw [hloop] at h
      cases h
      exact hstart.trans (herror s hloop)
  | fault reason s =>
      rw [hloop] at h
      cases h

def issueAll (k : Kernel) (calls : List Command) (w : World) : World :=
  calls.foldl (fun w c => (issue k c w).state) w

theorem Reachable.issueAll {k : Kernel} {calls : List Command}
    (hcalls : ∀ c ∈ calls, Finish.awaits (finish c) true = false) :
    ∀ {w : World}, Reachable k w → Reachable k (issueAll k calls w) := by
  induction calls with
  | nil => exact id
  | cons c calls ih =>
      intro w h
      obtain ⟨hc, hcalls⟩ := List.forall_mem_cons.mp hcalls
      obtain ⟨reply, s, hexec⟩ := exec_returns (k := k) hc h.ready
      have hissue : issue k c w = .returned reply (issue k c w).state := by
        rw [Commands.issue, hexec]
        rfl
      exact ih hcalls (h.step (.issue c reply hissue))

def queueQ : CString := ⟨[113], by decide⟩

def channelC : CString := ⟨[99], by decide⟩

def subscriptionQ : EmqQueueSubscription := ⟨⟨queueQ, by decide⟩, 1⟩

end Libemq.Runs
