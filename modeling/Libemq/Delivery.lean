import Libemq.EventFormat
import Libemq.Framing

namespace Libemq.Delivery

open Libemq.CStrings
open Libemq.ExitCode
open Libemq.Client
open Libemq.Network
open Libemq.Commands
open Libemq.Transactions
open Libemq.Responses
open Libemq.Calls
open Libemq.Events
open Libemq.Runs
open Libemq.EventFormat
open Libemq.Framing

/-- The commands whose only answer is a status. -/
def StatusOnly (c : Command) : Prop := Finish.awaits (finish c) true = false

instance (c : Command) : Decidable (StatusOnly c) := by
  unfold StatusOnly
  infer_instance

/-- What a callback may do without touching the input: issue status-only commands
while acknowledgements are off, and switch these. -/
inductive QuietStep (k : Kernel) : World → World → Prop
  | issue (c : Command) (reply : Reply) {w w' : World} (hc : StatusOnly c)
      (hnoack : w.client.noack = true) (h : issue k c w = .returned reply w') :
      QuietStep k w w'
  | noackEnable (w : World) : QuietStep k w (emqNoackEnable w)
  | noackDisable (w : World) : QuietStep k w (emqNoackDisable w)

abbrev QuietSteps (k : Kernel) : World → World → Prop := Relation.ReflTransGen (QuietStep k)

def told (trace : List TraceEvent) : List CallbackArgs :=
  trace.filterMap fun event =>
    match event with
    | .invoked _ args => some args
    | .issued _ _ => none

theorem exec_input {k : Kernel} (hmallocs : Kernel.MallocsOk k) {c : Command}
    (hc : StatusOnly c) {w : World} (hnoack : w.client.noack = true) (hready : Ready w.client)
    {reply : Reply} {w' : World} (h : exec k c w = .returned reply w') :
    w'.input = w.input := by
  have hawaits : Finish.awaits (finish c) w.client.noack = false := by rwa [hnoack]
  have houtcome := exec_outcome k c w hready.1
  rw [h] at houtcome
  generalize hresult : Outcome.returned reply w' = result at houtcome
  cases houtcome with
  | refused => cases hresult; rfl
  | exhausted size haccepts hsmall => exact absurd hsmall hready.large
  | unsent => cases hresult; rfl
  | unread w1 dropped reads hissued hwaits => simp [hwaits] at hawaits
  | rejected w1 reads hissued hwaits => simp [hwaits] at hawaits
  | denied w1 reads hissued hwaits => simp [hwaits] at hawaits
  | finished response w2 exit haccepted hbody =>
      cases haccepted with
      | answered w1 reads hissued hwaits => simp [hwaits] at hawaits
      | unanswered _ hissued hwaits =>
          have hsize : ∀ n, Finish.size (finish c) n = 0 := by
            intro n
            obtain ⟨check, done, hfinish⟩ := acknowledges hc
            rw [hfinish]
            rfl
          cases hbody with
          | done =>
              cases hresult
              change List.drop _ w2.input = _
              rw [hsize, List.drop_zero, hissued.input]
          | failed error dropped reads mallocs failures hle hlt halloc =>
              obtain ⟨_, size, _, hfull⟩ := halloc hc
              exact absurd hmallocs (not_mallocsOk hfull)
          | unnamed dropped reads mallocs failures hle hlt hwaits =>
              rw [hc] at hwaits
              cases hwaits
          | faulted => cases hresult

theorem quietStep_keeps {k : Kernel} (hmallocs : Kernel.MallocsOk k) {w w' : World}
    (h : QuietStep k w w') (hready : Ready w.client) :
    Ready w'.client ∧ w'.input = w.input ∧ told w'.trace = told w.trace := by
  cases h with
  | issue c reply hc hnoack h =>
      obtain ⟨s, hexec, rfl⟩ := issue_returned h
      obtain ⟨hready', _, htrace, _⟩ := exec_returned hready hexec
      have hinput : s.input = w.input := exec_input hmallocs hc hnoack hready hexec
      refine ⟨hready', hinput, ?_⟩
      change told (s.trace ++ [.issued c reply]) = _
      rw [htrace]
      simp [told]
  | noackEnable => exact ⟨hready, rfl, rfl⟩
  | noackDisable => exact ⟨hready, rfl, rfl⟩

theorem told_invoked (delivery : Delivery) (w : World) :
    told (invoked delivery w).trace = told w.trace ++ [delivery.2] := by
  simp [told, invoked]

theorem receiveEvent_nil {k : Kernel} {w : World} (hinput : w.input = []) :
    ∃ reads, receiveEvent k w = .error (withError .read (received w 0 reads (w.failures + 1))) := by
  rcases readEventHeader_outcome k w with ⟨dropped, reads, _, _, _, hheader⟩ |
    ⟨_, _, henough, _⟩ | ⟨_, _, henough, _⟩
  · refine ⟨reads, ?_⟩
    rw [receiveEvent, Code.bind_of_error hheader]
    simp [received, hinput]
  · simp [hinput] at henough
  · simp [hinput] at henough

def messageQ : Event := .message ⟨charArray 64 queueQ, by decide, by decide⟩ oneByte

def subscribed : World :=
  (issue generous (.queueSubscribe queueQ 0 1)
    (emqNoackEnable (World.connected [] (stream Event.bytes [messageQ, messageQ])))).state

def leave : Callbacks := fun _ _ w =>
  if w.client.noack then
    match issue generous (.queueUnsubscribe queueQ) w with
    | .returned _ w' => .returned 0 w'
    | .fault _ _ => .returned 0 w
  else .returned 0 w

def left : World := turned generous leave (withError .none subscribed)

theorem leave_quiet (callback : CallbackPtr) (args : CallbackArgs) (w : World) :
    ∃ w', QuietSteps generous w w' ∧ leave callback args w = .returned 0 w' := by
  unfold leave
  split
  · rename_i hnoack
    cases hissue : issue generous (.queueUnsubscribe queueQ) w with
    | returned reply w' =>
        exact ⟨w', .single (.issue (.queueUnsubscribe queueQ) reply rfl hnoack hissue), rfl⟩
    | fault reason w' => exact ⟨w, .refl, rfl⟩
  · exact ⟨w, .refl, rfl⟩

theorem idle_left : Idle left.client := by
  constructor <;> decide +kernel

theorem subscribed_head {w1 : World}
    (h : LoopHead generous leave (withError .none subscribed) w1) :
    w1 = withError .none subscribed ∨ w1 = left := by
  cases Relation.ReflTransGen.cases_head h with
  | inl heq => exact .inl heq.symm
  | inr hturns =>
      obtain ⟨s, hturn, hmore⟩ := hturns
      rw [hturn.eq_turned] at hmore
      cases Relation.ReflTransGen.cases_head hmore with
      | inl heq => exact .inr heq.symm
      | inr hturns' =>
          obtain ⟨s', hturn', _⟩ := hturns'
          exact absurd idle_left hturn'.active

theorem ready_subscribed : Ready subscribed.client :=
  (Step.issue _ _ (Outcome.eq_returned_state
    (by decide +kernel : Outcome.result _ = some (.status .ok)))).ready
      (ready_connected [] (stream Event.bytes [messageQ, messageQ]))

end Libemq.Delivery
