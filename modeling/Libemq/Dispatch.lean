import Libemq.EventFormat
import Libemq.Registry

namespace Libemq.Dispatch

open Libemq.CStrings
open Libemq.ExitCode
open Libemq.Client
open Libemq.Network
open Libemq.Protocol
open Libemq.Commands
open Libemq.Transactions
open Libemq.Responses
open Libemq.Calls
open Libemq.Events
open Libemq.Runs
open Libemq.EventFormat
open Libemq.Registry

/-- The callback was registered for this topic or pattern: the call that does so
returned `EMQ_STATUS_OK`. -/
def Registered (trace : List TraceEvent) (key : Key) (callback : CallbackPtr) : Prop :=
  .issued (subscribeCommand key callback) (.status .ok) ∈ trace

def key : Event → Option Key
  | .notify _ => none
  | .message _ _ => none
  | .publish channel topic _ => some ⟨.topic, channel.str, topic.str⟩
  | .patternPublish channel _ pattern _ => some ⟨.pattern, channel.str, pattern.str⟩

/-- The next thing to arrive is an event for this key, and this callback gets it. -/
def Reaches (k : Kernel) (w : World) (target : Key) (callback : CallbackPtr) : Prop :=
  ∃ e rest args w', key e = some target ∧ w.input = e.bytes ++ rest ∧
    receiveEvent k w = .next (callback, args) w'

def Newest (list : List EmqChannelSubscription) (name : CString)
    (s : EmqChannelSubscription) : Prop :=
  ∃ newer older, list = newer ++ s :: older ∧ s.name.str = name ∧
    ∀ s' ∈ newer, s'.name.str ≠ name

/-- The most recent subscription of the channel is for another topic or pattern, and
its callback was never registered for this one. -/
def Shadowed (w : World) (target : Key) : Prop :=
  ∃ s, Newest w.client.channelSubscriptions target.name s ∧
    ¬ Registered w.trace target s.callback ∧
    ∃ other, other ≠ target ∧ other.name = target.name ∧ Registered w.trace other s.callback

def Traced (w : World) : Prop :=
  ∀ s ∈ w.client.channelSubscriptions, ∃ kind,
    Registered w.trace ⟨kind, s.name.str, s.channel.str⟩ s.callback

theorem Registered.append {trace : List TraceEvent} {target : Key} {callback : CallbackPtr}
    (h : Registered trace target callback) (events : List TraceEvent) :
    Registered (trace ++ events) target callback :=
  List.mem_append_left _ h

theorem mem_channelList {c : Command} (hfits : Commit.Fits (commit c))
    {list : List EmqChannelSubscription} {s : EmqChannelSubscription}
    (h : s ∈ Commit.channelList (commit c) list) :
    s ∈ list ∨ ∃ kind, c = subscribeCommand ⟨kind, s.name.str, s.channel.str⟩ s.callback := by
  cases c with
  | channelSubscribe name topic callback =>
      rcases (mem_subscribed hfits).mp h with ⟨rfl, rfl, rfl⟩ | h
      · exact .inr ⟨.topic, rfl⟩
      · exact .inl h
  | channelPsubscribe name pattern callback =>
      rcases (mem_subscribed hfits).mp h with ⟨rfl, rfl, rfl⟩ | h
      · exact .inr ⟨.pattern, rfl⟩
      · exact .inl h
  | channelUnsubscribe name topic => exact .inl (mem_unsubscribed.mp h).1
  | channelPunsubscribe name pattern => exact .inl (mem_unsubscribed.mp h).1
  | _ => exact .inl h

theorem recorded_traced : Recorded fun _ channels trace => ∀ s ∈ channels, ∃ kind,
    Registered trace ⟨kind, s.name.str, s.channel.str⟩ s.callback where
  init := by simp
  append h events := fun s hs => (h s hs).imp fun _ hkind => hkind.append events
  commit := by
    intro c reply _ channels trace haccepts hreply h s hs
    rcases mem_channelList (commit_fits haccepts.2) hs with hs | ⟨kind, rfl⟩
    · exact (h s hs).imp fun _ hkind => hkind.append _
    · refine ⟨kind, List.mem_append_right _ ?_⟩
      have hok : reply = .status .ok := by cases kind <;> exact hreply
      rw [hok]
      exact List.mem_singleton_self _

theorem traced_of_reachable {k : Kernel} {w : World} (h : Reachable k w) : Traced w :=
  recorded_traced.of_reachable h

theorem newest_iff_find {list : List EmqChannelSubscription} {name : CString}
    {s : EmqChannelSubscription} :
    Newest list name s ↔ list.find? (fun s => s.name.str = name) = some s := by
  rw [List.find?_eq_some_iff_append]
  constructor
  · rintro ⟨newer, older, hlist, hname, hnewer⟩
    exact ⟨decide_eq_true hname, newer, older, hlist, fun s' hs' => by simp [hnewer s' hs']⟩
  · rintro ⟨hname, newer, older, hlist, hnewer⟩
    exact ⟨newer, older, hlist, of_decide_eq_true hname,
      fun s' hs' => by simpa using hnewer s' hs'⟩

theorem newest_of_reaches {k : Kernel} {w : World} {target : Key} {callback : CallbackPtr}
    (h : Reaches k w target callback) :
    ∃ s, Newest w.client.channelSubscriptions target.name s ∧ s.callback = callback := by
  obtain ⟨e, rest, args, w', hkey, hinput, hreceive⟩ := h
  obtain ⟨callback', _, _, hsubscriber, hdelivery, _⟩ := receiveEvent_delivered hinput hreceive
  cases hdelivery
  simp only [newest_iff_find]
  cases e with
  | notify queue => cases hkey
  | message queue payload => cases hkey
  | publish channel topic payload =>
      cases hkey
      exact Option.map_eq_some_iff.mp hsubscriber
  | patternPublish channel topic pattern payload =>
      cases hkey
      exact Option.map_eq_some_iff.mp hsubscriber

/-- An event reaches a callback that was registered for it iff the newest subscription
of its channel does not shadow that. -/
theorem registered_iff {k : Kernel} {w : World} (hreachable : Reachable k w) {target : Key}
    {callback : CallbackPtr} (h : Reaches k w target callback) :
    Registered w.trace target callback ↔ ¬ Shadowed w target := by
  obtain ⟨s, hs, rfl⟩ := newest_of_reaches h
  constructor
  · rintro hregistered ⟨s', hs', hnot, _⟩
    have hsame : s' = s := by
      rw [newest_iff_find] at hs hs'
      exact Option.some.inj (hs'.symm.trans hs)
    rw [hsame] at hnot
    exact hnot hregistered
  · intro hclear
    by_contra hnot
    obtain ⟨newer, older, hlist, hname, _⟩ := id hs
    obtain ⟨kind, hkind⟩ := traced_of_reachable hreachable s (by
      rw [hlist]
      exact List.mem_append_right _ List.mem_cons_self)
    refine hclear ⟨s, hs, hnot, _, ?_, hname, hkind⟩
    rintro rfl
    exact hnot hkind

/-- In every run, the events of channels reach only callbacks that were registered for
their topic or pattern iff none of them arrives while another subscription of its
channel shadows it. -/
theorem events_reach_iff (k : Kernel) (heap input : List UInt8) (run : List World)
    (hrun : (World.connected heap input :: run).IsChain (Step k)) :
    (∀ w ∈ World.connected heap input :: run, ∀ target callback, Reaches k w target callback →
        Registered w.trace target callback) ↔
      ∀ w ∈ World.connected heap input :: run, ∀ target callback, Reaches k w target callback →
        ¬ Shadowed w target := by
  have hreachable := Runs.of_run (P := Reachable k) (fun hw hstep => hw.step hstep) hrun
    ⟨heap, input, .refl⟩
  constructor
  · intro h w hw target callback hreaches
    exact (registered_iff (hreachable w hw) hreaches).mp (h w hw target callback hreaches)
  · intro h w hw target callback hreaches
    exact (registered_iff (hreachable w hw) hreaches).mpr (h w hw target callback hreaches)

def eventA : Event :=
  .publish ⟨charArray 64 topicA.name, by decide, by decide⟩
    ⟨charArray 32 topicA.data, by decide, by decide⟩ oneByte

def awaiting : World := World.connected [] eventA.bytes

def firstA : World := (issue generous (subscribeCommand topicA 1) (emqNoackEnable awaiting)).state

def thenB : World := (issue generous (subscribeCommand topicB 2) firstA).state

theorem step_firstA : Step generous (emqNoackEnable awaiting) firstA :=
  .issue _ _ (Outcome.eq_returned_state
    (by decide +kernel : Outcome.result _ = some (.status .ok)))

theorem step_thenB : Step generous firstA thenB :=
  .issue _ _ (Outcome.eq_returned_state
    (by decide +kernel : Outcome.result _ = some (.status .ok)))

/-- An event of topic `a` reaches the callback of topic `b`. -/
theorem event_strays :
    ¬ ∀ (k : Kernel) (heap input : List UInt8) (run : List World),
      (World.connected heap input :: run).IsChain (Step k) →
      ∀ w ∈ World.connected heap input :: run, ∀ target callback, Reaches k w target callback →
        Registered w.trace target callback := by
  intro h
  have hnext : (receiveEvent generous thenB).isNext = true := by decide +kernel
  obtain ⟨⟨callback, args⟩, w', hreceive⟩ := Exit.eq_next hnext
  have hinput : thenB.input = eventA.bytes ++ [] := by
    rw [List.append_nil]
    decide +kernel
  obtain ⟨callback', _, _, hsubscriber, hdelivery, _⟩ := receiveEvent_delivered hinput hreceive
  cases hdelivery
  have htwo : eventA.subscriber thenB.client = some 2 := by decide +kernel
  rw [htwo] at hsubscriber
  cases hsubscriber
  have hregistered := h generous [] eventA.bytes [emqNoackEnable awaiting, firstA, thenB]
    (by
      simp only [List.isChain_cons_cons]
      exact ⟨.noackEnable _, step_firstA, step_thenB, .singleton _⟩)
    thenB (by simp) topicA 2 ⟨eventA, [], _, w', by decide +kernel, hinput, hreceive⟩
  exact absurd hregistered (by
    unfold Registered
    decide +kernel)

def keyOfArgs (args : CallbackArgs) : Option Key :=
  match args.topic, args.pattern with
  | _, some pattern => some ⟨.pattern, contents args.name, contents pattern⟩
  | some topic, none => some ⟨.topic, contents args.name, contents topic⟩
  | none, none => none

theorem keyOfArgs_args (e : Event) : keyOfArgs e.args = key e := by
  cases e <;> simp [keyOfArgs, Event.args, key] <;> rfl

theorem key_of_reaches {k : Kernel} {w : World} {e : Event} {rest : List UInt8}
    (hinput : w.input = e.bytes ++ rest) {target : Key} {callback : CallbackPtr}
    (h : Reaches k w target callback) : key e = some target := by
  obtain ⟨e', rest', args, w', hkey, hinput', hreceive⟩ := h
  obtain ⟨_, _, _, _, hdelivery, _⟩ := receiveEvent_delivered hinput hreceive
  obtain ⟨_, _, _, _, hdelivery', _⟩ := receiveEvent_delivered hinput' hreceive
  have hargs : e.args = e'.args := (Prod.ext_iff.mp (hdelivery.symm.trans hdelivery')).2
  rw [← keyOfArgs_args, hargs, keyOfArgs_args, hkey]

def accepted : List UInt8 :=
  (ProtocolResponseHeader.mk emqProtocolRes ProtocolCommand.channelSubscribe.code
    ProtocolResponseStatus.success.code 0).bytes

def answering : World := World.connected [] (accepted ++ accepted ++ eventA.bytes)

def firstB : World := (issue generous (subscribeCommand topicB 2) answering).state

def thenA : World := (issue generous (subscribeCommand topicA 1) firstB).state

theorem chain_thenA : (answering :: [firstB, thenA]).IsChain (Step generous) := by
  have hfirst : Step generous answering firstB := .issue _ _ (Outcome.eq_returned_state
    (by decide +kernel : Outcome.result _ = some (.status .ok)))
  have hsecond : Step generous firstB thenA := .issue _ _ (Outcome.eq_returned_state
    (by decide +kernel : Outcome.result _ = some (.status .ok)))
  exact .cons_cons hfirst (.cons_cons hsecond (.singleton _))

theorem not_reaches {k : Kernel} {w : World} (h : (receiveEvent k w).isNext = false) (target : Key)
    (callback : CallbackPtr) : ¬ Reaches k w target callback := by
  rintro ⟨_, _, _, _, _, _, hreceive⟩
  rw [hreceive] at h
  cases h

theorem not_shadowed_thenA {target : Key} {callback : CallbackPtr}
    (h : Reaches generous thenA target callback) : ¬ Shadowed thenA target := by
  rintro ⟨s, hs, hnot, _⟩
  have hinput : thenA.input = eventA.bytes ++ [] := by
    rw [List.append_nil]
    decide +kernel
  have hkey : key eventA = some topicA := by decide +kernel
  obtain rfl := Option.some.inj (hkey.symm.trans (key_of_reaches hinput h))
  have hone : (thenA.client.channelSubscriptions.find? fun s => s.name.str = topicA.name).map
      EmqChannelSubscription.callback = some 1 := by decide +kernel
  rw [newest_iff_find.mp hs] at hone
  obtain hcallback := Option.some.inj hone
  rw [hcallback] at hnot
  exact hnot (by
    unfold Registered
    decide +kernel)

theorem events_reach_iff_thenA :
    thenA.client.channelSubscriptions.map EmqChannelSubscription.callback = [1, 2] ∧
      (receiveEvent generous thenA).isNext = true ∧
      ∀ w ∈ answering :: [firstB, thenA], ∀ target callback, Reaches generous w target callback →
        Registered w.trace target callback := by
  refine ⟨by decide +kernel, by decide +kernel,
    (events_reach_iff generous [] _ [firstB, thenA] chain_thenA).mpr ?_⟩
  simp only [List.forall_mem_cons]
  refine ⟨?_, ?_, ?_, by simp⟩
  · exact fun target callback h => absurd h (not_reaches (by decide +kernel) target callback)
  · exact fun target callback h => absurd h (not_reaches (by decide +kernel) target callback)
  · exact fun target callback h => not_shadowed_thenA h

end Libemq.Dispatch
