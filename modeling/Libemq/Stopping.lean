import Libemq.Consumption
import Libemq.Delivery
import Libemq.Dispatch

namespace Libemq.Stopping

open Libemq.CStrings
open Libemq.ExitCode
open Libemq.Client
open Libemq.Network
open Libemq.Protocol
open Libemq.Commands
open Libemq.Transactions
open Libemq.Responses
open Libemq.Calls
open Libemq.Events
open Libemq.Runs
open Libemq.EventFormat
open Libemq.Framing
open Libemq.Consumption
open Libemq.Delivery
open Libemq.Dispatch
open Libemq.Registry

/-- The loop of an `emq_process` that starts in the first world serves this delivery in
one of its iterations. The callback returns this value and leaves the second world. -/
inductive Serves (k : Kernel) (callbacks : Callbacks) (w : World) (delivery : Delivery)
    (ret : Int) (w' : World) : Prop
  | intro (w1 s : World) (hhead : LoopHead k callbacks (withError .none w) w1)
      (hactive : ¬ Idle w1.client) (hreceive : receiveEvent k w1 = .next delivery s)
      (hcallback : callbacks delivery.1 delivery.2 (invoked delivery s) = .returned ret w')

/-- No iteration begins after this callback. -/
def Ends (ret : Int) (w' : World) : Prop :=
  (ret ≠ 0 ∧ w'.client.queueSubscriptions.length = 0) ∨ Idle w'.client

/-- `emq_process` returns `EMQ_STATUS_OK` right after it has served this delivery. -/
def ServedLast (k : Kernel) (callbacks : Callbacks) (w : World) (delivery : Delivery)
    (w' : World) : Prop :=
  emqProcess k callbacks w = .returned .ok (setStatus .ok w') ∧
    ∃ ret, Serves k callbacks w delivery ret w' ∧ Ends ret w'

def live (type : CallbackType) (c : EmqClient) : Nat :=
  match type with
  | .queue => c.queueSubscriptions.length
  | .channel => c.channelSubscriptions.length

/-- The callback of an event of a channel asks to stop when there is no subscription
to a queue but one to a channel. -/
def StopsChannels (k : Kernel) (callbacks : Callbacks) (w : World) : Prop :=
  ∃ delivery ret w', Serves k callbacks w delivery ret w' ∧
    delivery.2.type = .channel ∧ ret ≠ 0 ∧
    w'.client.queueSubscriptions.length = 0 ∧ w'.client.channelSubscriptions.length ≠ 0

section Fuel

variable {k : Kernel} {callbacks : Callbacks} (huse : UseLibrary k callbacks)

include huse

theorem callback_input {w s w' : World} {delivery : Delivery} {ret : Int}
    (hready : Ready w.client) (hreceive : receiveEvent k w = .next delivery s)
    (hcallback : callbacks delivery.1 delivery.2 (invoked delivery s) = .returned ret w') :
    Ready w'.client ∧ w'.input.length < w.input.length := by
  have hclient := (receiveEvent_client hreceive).1
  have hreadyS : Ready (invoked delivery s).client := by
    change Ready s.client
    rwa [hclient]
  have hsteps := huse _ _ _ _ _ hcallback
  obtain ⟨_, _, hlong, hrest⟩ := took_of_received hreceive
  have hle := (hsteps.advances hreadyS).suffix.length_le
  have hdrop : (invoked delivery s).input.length = s.input.length := rfl
  rw [hdrop, hrest, List.length_drop] at hle
  exact ⟨hsteps.ready hreadyS, by omega⟩

theorem turn_input {w w' : World} (hready : Ready w.client) (h : Turn k callbacks w w') :
    Ready w'.client ∧ w'.input.length < w.input.length := by
  obtain ⟨delivery, s, ret, hreceive, hcallback, _⟩ := h.goes_on
  exact callback_input huse hready hreceive hcallback

theorem loop_reaches {w w1 : World} (hhead : LoopHead k callbacks w w1) :
    Ready w.client → ∀ fuel, w.input.length < fuel → Ready w1.client ∧
      ∃ fuel', w1.input.length < fuel' ∧
        emqProcessLoop k callbacks fuel w = emqProcessLoop k callbacks fuel' w1 := by
  induction hhead using Relation.ReflTransGen.head_induction_on with
  | refl => exact fun hready fuel hfuel => ⟨hready, fuel, hfuel, rfl⟩
  | head hturn _ ih =>
      intro hready fuel hfuel
      obtain ⟨fuel, rfl⟩ : ∃ fuel', fuel = fuel' + 1 := ⟨fuel - 1, by omega⟩
      obtain ⟨hready', hless⟩ := turn_input huse hready hturn
      rw [emqProcessLoop_turn hturn]
      exact ih hready' fuel (by omega)

theorem emqProcess_of_serves {w w' : World} (hready : Ready w.client) {delivery : Delivery}
    {ret : Int} (hserves : Serves k callbacks w delivery ret w') (hends : Ends ret w') :
    emqProcess k callbacks w = .returned .ok (setStatus .ok w') := by
  obtain ⟨w1, s, hhead, hactive, hreceive, hcallback⟩ := hserves
  obtain ⟨hready1, fuel, hfuel, hloop⟩ :=
    loop_reaches huse hhead hready (w.input.length + 1) (Nat.lt_succ_self _)
  obtain ⟨fuel, rfl⟩ : ∃ fuel', fuel = fuel' + 1 := ⟨fuel - 1, by omega⟩
  obtain ⟨_, hless⟩ := callback_input huse hready1 hreceive hcallback
  have hlast : emqProcessLoop k callbacks (fuel + 1) w1 = .next () w' := by
    rw [emqProcessLoop_succ, if_neg hactive, Code.bind_of_next hreceive,
      Code.bind_of_next (invoke_returned hcallback), Code.bind_reads]
    by_cases hstop : ret ≠ 0 ∧ w'.client.queueSubscriptions.length = 0
    · rw [if_pos hstop]
      rfl
    · obtain ⟨fuel, rfl⟩ : ∃ fuel', fuel = fuel' + 1 := ⟨fuel - 1, by omega⟩
      rw [if_neg hstop, emqProcessLoop_succ, if_pos (hends.resolve_left hstop)]
  rw [emqProcess_eq, hloop, hlast]

end Fuel

theorem loop_served {k : Kernel} {callbacks : Callbacks} {w0 : World} (fuel : Nat) :
    ∀ w w' : World, LoopHead k callbacks (withError .none w0) w →
      emqProcessLoop k callbacks fuel w = .next () w' →
      (w' = w ∧ Idle w.client) ∨
        ∃ delivery ret, Serves k callbacks w0 delivery ret w' ∧ Ends ret w' := by
  induction fuel with
  | zero =>
      intro w w' _ h
      simp [emqProcessLoop] at h
  | succ fuel ih =>
      intro w w' hhead h
      have houtcome := emqProcessLoop_outcome k callbacks fuel w
      rw [h] at houtcome
      generalize hexit : Exit.next () w' = exit at houtcome
      cases houtcome with
      | idle hidle =>
          cases hexit
          exact .inl ⟨rfl, hidle⟩
      | refused => cases hexit
      | faulted => cases hexit
      | stopped delivery s w'' ret hactive hreceive hcallback hstop =>
          cases hexit
          exact .inr ⟨delivery, ret, ⟨w, s, hhead, hactive, hreceive, hcallback⟩, .inl hstop⟩
      | turned s hturn =>
          rcases ih s w' (hhead.tail hturn) hexit.symm with ⟨rfl, hidle⟩ | hserved
          · obtain ⟨delivery, s', ret, hreceive, hcallback, _⟩ := hturn.goes_on
            exact .inr ⟨delivery, ret, ⟨w, s', hhead, hturn.active, hreceive, hcallback⟩,
              .inr hidle⟩
          · exact .inr hserved

/-- `emq_process` succeeds at once when nothing is subscribed to, and otherwise right
after a delivery. -/
theorem emqProcess_ok {k : Kernel} {callbacks : Callbacks} {w w' : World}
    (h : emqProcess k callbacks w = .returned .ok w') :
    (Idle w.client ∧ w' = setStatus .ok (withError .none w)) ∨
      ∃ delivery s, ServedLast k callbacks w delivery s ∧ w' = setStatus .ok s := by
  have hprocess := h
  rw [emqProcess_eq] at h
  cases hloop : emqProcessLoop k callbacks (w.input.length + 1) (withError .none w) with
  | error s =>
      rw [hloop] at h
      cases h
  | fault reason s =>
      rw [hloop] at h
      cases h
  | next value s =>
      rw [hloop] at h
      cases h
      rcases loop_served _ _ _ .refl hloop with ⟨rfl, hidle⟩ | ⟨delivery, ret, hserves, hends⟩
      · exact .inl ⟨hidle, rfl⟩
      · exact .inr ⟨delivery, s, ⟨hprocess, ret, hserves, hends⟩, rfl⟩

/-- Whenever `emq_process` succeeds right after a delivery there is no subscription left
of the kind it served, iff no callback of a channel asks to stop while there are
subscriptions to channels and none to queues. -/
theorem emqProcess_stops_idle_iff (k : Kernel) (callbacks : Callbacks)
    (huse : UseLibrary k callbacks) (w : World) (hready : Ready w.client) :
    (∀ delivery w', ServedLast k callbacks w delivery w' →
      live delivery.2.type w'.client = 0) ↔ ¬ StopsChannels k callbacks w := by
  constructor
  · rintro hlive ⟨delivery, ret, w', hserves, htype, hret, hqueues, hchannels⟩
    have hends : Ends ret w' := .inl ⟨hret, hqueues⟩
    have := hlive delivery w'
      ⟨emqProcess_of_serves huse hready hserves hends, ret, hserves, hends⟩
    rw [htype] at this
    exact hchannels this
  · rintro hnever delivery w' ⟨_, ret, hserves, hends⟩
    rcases hends with ⟨hret, hqueues⟩ | ⟨hqueues, hchannels⟩
    · cases htype : delivery.2.type with
      | queue => exact hqueues
      | channel =>
          by_contra hchannels
          exact hnever ⟨delivery, ret, w', hserves, htype, hret, hqueues, hchannels⟩
    · cases delivery.2.type with
      | queue => exact hqueues
      | channel => exact hchannels

def content : Callbacks := fun _ _ w => .returned 1 w

/-- The subscription to a channel is still there when `emq_process` returns after an event
of this channel. -/
theorem channel_left_behind :
    ¬ ∀ (k : Kernel) (callbacks : Callbacks) (w : World) (events : List Event),
      UseLibrary k callbacks → Reachable k w → w.input = stream Event.bytes events →
      (∀ e ∈ events, e.subscriber w.client ≠ none) →
      ∀ delivery w', ServedLast k callbacks w delivery w' →
        live delivery.2.type w'.client = 0 := by
  intro h
  have huse : UseLibrary generous content := fun _ _ _ _ _ h => by
    cases h
    exact .refl
  have hreachable : Reachable generous firstA :=
    ⟨[], eventA.bytes, .tail (.single (.noackEnable _)) step_firstA⟩
  have hactive : ¬ Idle (withError .none firstA).client := by decide +kernel
  have hnext : (receiveEvent generous (withError .none firstA)).isNext = true := by
    decide +kernel
  obtain ⟨delivery, s, hreceive⟩ := Exit.eq_next hnext
  have hinput : firstA.input = eventA.bytes ++ [] := by
    rw [List.append_nil]
    decide +kernel
  have hregistered : ∀ e ∈ [eventA], e.subscriber firstA.client ≠ none := by
    have hone : eventA.subscriber firstA.client = some 1 := by decide +kernel
    simp [hone]
  have hserves : Serves generous content firstA delivery 1 (invoked delivery s) :=
    ⟨_, s, .refl, hactive, hreceive, rfl⟩
  have hclient : (invoked delivery s).client = (withError .none firstA).client :=
    (receiveEvent_client hreceive).1
  have hends : Ends 1 (invoked delivery s) := by
    refine .inl ⟨by decide, ?_⟩
    rw [hclient]
    decide +kernel
  have hlive := h generous content firstA [eventA] huse hreachable
    (by rw [hinput, stream_cons, stream_nil]) hregistered delivery _
    ⟨emqProcess_of_serves huse hreachable.ready hserves hends, 1, hserves, hends⟩
  rw [← withError_input .none firstA] at hinput
  obtain ⟨callback, _, _, _, hdelivery, _⟩ := receiveEvent_delivered hinput hreceive
  rw [hdelivery] at hlive
  change (invoked delivery s).client.channelSubscriptions.length = 0 at hlive
  rw [hclient] at hlive
  exact absurd hlive (by decide +kernel)

theorem QuietStep.step {k : Kernel} {w w' : World} (h : QuietStep k w w') : Step k w w' := by
  cases h with
  | issue c reply _ _ h => exact .issue c reply h
  | noackEnable => exact .noackEnable w
  | noackDisable => exact .noackDisable w

theorem leave_useLibrary : UseLibrary generous leave := by
  intro callback args w ret w' h
  obtain ⟨s, hquiet, hleave⟩ := leave_quiet callback args w
  rw [hleave] at h
  cases h
  exact Relation.ReflTransGen.mono (fun _ _ => QuietStep.step) _ _ hquiet

theorem emqProcess_stops_idle_leave :
    (∃ delivery w', ServedLast generous leave subscribed delivery w') ∧
      ∀ delivery w', ServedLast generous leave subscribed delivery w' →
        live delivery.2.type w'.client = 0 := by
  have hresult : (emqProcess generous leave subscribed).result = some .ok := by decide +kernel
  obtain ⟨w', hprocess⟩ := Outcome.eq_returned hresult
  constructor
  · rcases emqProcess_ok hprocess with ⟨hidle, _⟩ | ⟨delivery, s, hserved, _⟩
    · exact absurd hidle (by decide +kernel)
    · exact ⟨delivery, s, hserved⟩
  · refine (emqProcess_stops_idle_iff generous leave leave_useLibrary subscribed
      ready_subscribed).mpr ?_
    rintro ⟨delivery, ret, s, ⟨w1, s', _, _, _, hcallback⟩, _, hret, _⟩
    obtain ⟨s'', _, hleave⟩ := leave_quiet delivery.1 delivery.2 (invoked delivery s')
    rw [hleave] at hcallback
    cases hcallback
    exact hret rfl

end Libemq.Stopping
