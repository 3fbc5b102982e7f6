import Libemq.Delivery
import Libemq.Dispatch

/-!
A client and its server, with requests on the way to the one and events on the way
to the other. The client gives subscriptions up while their events are in flight.
-/

namespace Libemq.InFlight

open Libemq.CStrings
open Libemq.ExitCode
open Libemq.Client
open Libemq.Network
open Libemq.Commands
open Libemq.Transactions
open Libemq.Responses
open Libemq.Calls
open Libemq.Events
open Libemq.Runs
open Libemq.EventFormat
open Libemq.Registry
open Libemq.Framing
open Libemq.Delivery

inductive Target where
  | queue (name : CString)
  | channel (key : Key)
  deriving DecidableEq, Repr

structure Place where
  type : CallbackType
  name : CString
  deriving DecidableEq, Repr

def Target.place : Target → Place
  | .queue name => ⟨.queue, name⟩
  | .channel key => ⟨.channel, key.name⟩

def effect : Command → Option (Bool × Target)
  | .queueSubscribe name _ _ => some (true, .queue name)
  | .queueUnsubscribe name => some (false, .queue name)
  | .channelSubscribe name topic _ => some (true, .channel ⟨.topic, name, topic⟩)
  | .channelPsubscribe name pattern _ => some (true, .channel ⟨.pattern, name, pattern⟩)
  | .channelUnsubscribe name topic => some (false, .channel ⟨.topic, name, topic⟩)
  | .channelPunsubscribe name pattern => some (false, .channel ⟨.pattern, name, pattern⟩)
  | _ => none

/-- What the server serves after it has handled a command. -/
def serve (c : Command) (served : List Target) : List Target :=
  match effect c with
  | some (true, target) => target :: served
  | some (false, target) => served.filter (· ≠ target)
  | none => served

/-- What an event is sent for. -/
def target : Event → Target
  | .notify queue => .queue queue.str
  | .message queue _ => .queue queue.str
  | .publish channel topic _ => .channel ⟨.topic, channel.str, topic.str⟩
  | .patternPublish channel _ pattern _ => .channel ⟨.pattern, channel.str, pattern.str⟩

def place (e : Event) : Place := (target e).place

/-- Who has control on the client's side: the application, `emq_process` or a callback
of it. `failed` is `emq_process` returned with `EMQ_STATUS_ERR`. -/
inductive Mode where
  | application
  | waiting
  | callback
  | failed
  deriving DecidableEq, Repr

/-- A client with its server. The input of the world is what is in flight. -/
structure System where
  mode : Mode
  world : World
  flight : List Event
  requests : List Command
  served : List Target

inductive Action where
  | call (c : Command)
  | process
  | receive
  | fail
  | resume (ret : Int)
  | stop (ret : Int)
  | done
  | handle
  | send (e : Event)

/-- The steps of the two parties. `emq_process` waits until the next event is in
flight. Acknowledgements are off, so a call only sends its request. -/
inductive Step (k : Kernel) : Action → System → System → Prop
  | call {s : System} (c : Command) (reply : Reply) (w : World)
      (hmode : s.mode = .application ∨ s.mode = .callback) (hc : StatusOnly c)
      (h : issue k c s.world = .returned reply w) :
      Step k (.call c) s
        { s with
          world := w
          requests := if reply = .status .ok then s.requests ++ [c] else s.requests }
  | process {s : System} (hmode : s.mode = .application) :
      Step k .process s { s with mode := .waiting, world := withError .none s.world }
  | receive {s : System} (e : Event) (rest : List Event) (delivery : Delivery) (w : World)
      (hmode : s.mode = .waiting) (hactive : ¬ Idle s.world.client)
      (hflight : s.flight = e :: rest) (h : receiveEvent k s.world = .next delivery w) :
      Step k .receive s { s with mode := .callback, world := invoked delivery w, flight := rest }
  | fail {s : System} (e : Event) (rest : List Event) (w : World) (hmode : s.mode = .waiting)
      (hactive : ¬ Idle s.world.client) (hflight : s.flight = e :: rest)
      (h : receiveEvent k s.world = .error w) :
      Step k .fail s { s with mode := .failed, world := setStatus .err w, flight := rest }
  | resume {s : System} (ret : Int) (hmode : s.mode = .callback)
      (hgo : ¬ (ret ≠ 0 ∧ s.world.client.queueSubscriptions.length = 0)) :
      Step k (.resume ret) s { s with mode := .waiting }
  | stop {s : System} (ret : Int) (hmode : s.mode = .callback)
      (hstop : ret ≠ 0 ∧ s.world.client.queueSubscriptions.length = 0) :
      Step k (.stop ret) s { s with mode := .application, world := setStatus .ok s.world }
  | done {s : System} (hmode : s.mode = .waiting) (hidle : Idle s.world.client) :
      Step k .done s { s with mode := .application, world := setStatus .ok s.world }
  | handle {s : System} (c : Command) (rest : List Command) (hrequests : s.requests = c :: rest) :
      Step k .handle s { s with requests := rest, served := serve c s.served }
  | send {s : System} (e : Event) (hserved : target e ∈ s.served) :
      Step k (.send e) s
        { s with
          world := { s.world with input := s.world.input ++ e.bytes }
          flight := s.flight ++ [e] }

/-- The client is about to get an event. -/
def Expects (s : System) (e : Event) : Prop :=
  s.mode = .waiting ∧ ¬ Idle s.world.client ∧ s.flight.head? = some e

/-- `emq_process` did not fail, and the event that it is about to get is delivered. -/
def Healthy (k : Kernel) (s : System) : Prop :=
  s.mode ≠ .failed ∧ ∀ e, Expects s e →
    ∃ callback w, receiveEvent k s.world = .next (callback, e.args) w

/-- What the last successful call about a queue or a channel did: subscribe or
unsubscribe. -/
def lastCall (place : Place) (trace : List TraceEvent) : Option Bool :=
  trace.foldl
    (fun last event =>
      match event with
      | .issued c (.status .ok) =>
          match effect c with
          | some (kind, target) => if target.place = place then some kind else last
          | none => last
      | _ => last)
    none

/-- Nothing is under way between a client with acknowledgements off, however it came to
its subscriptions, and a server that serves no more than was subscribed to. -/
structure Start (k : Kernel) (s : System) : Prop where
  mode : s.mode = .application
  reachable : Reachable k s.world
  noack : s.world.client.noack = true
  input : s.world.input = []
  flight : s.flight = []
  requests : s.requests = []
  served : ∀ target ∈ s.served, lastCall target.place s.world.trace ≠ none

/-- The event that the client is about to get is one of a queue or a channel that it
has given up. -/
def Crossing (s : System) : Prop :=
  ∃ e, Expects s e ∧ lastCall (place e) s.world.trace = some false

def names (c : EmqClient) : CallbackType → List CString
  | .queue => c.queueSubscriptions.map fun s => s.name.str
  | .channel => c.channelSubscriptions.map fun s => s.name.str

def namesAfter (c : Command) (type : CallbackType) (list : List CString) : List CString :=
  match effect c with
  | some (true, target) => if target.place.type = type then target.place.name :: list else list
  | some (false, target) =>
      if target.place.type = type then list.filter (· ≠ target.place.name) else list
  | none => list

theorem map_deleteMatching {α : Type} (field : α → FieldString 64) (name : CString)
    (list : List α) :
    (deleteMatching (fun s => strcmpEq (field s).array name.array) list).map
        (fun s => (field s).str) =
      (list.map fun s => (field s).str).filter (· ≠ name) := by
  rw [deleteMatching_eq_filter, List.filter_map]
  congr 1
  refine List.filter_congr fun s _ => ?_
  have hsame : strcmpEq (field s).array name.array = true ↔ (field s).str = name := by
    rw [FieldString.strcmpEq_array _ name.nul_mem_array, CString.contents_array, eq_comm]
  by_cases h : (field s).str = name
  · simp [h, hsame.mpr h]
  · have hne : strcmpEq (field s).array name.array = false := by
      rw [← Bool.not_eq_true, hsame]
      exact h
    simp [h, hne]

theorem names_commit {c : Command} (hfits : Commit.Fits (commit c)) {w w' : World}
    (hqueue : w'.client.queueSubscriptions =
      Commit.queueList (commit c) w.client.queueSubscriptions)
    (hchannel : w'.client.channelSubscriptions =
      Commit.channelList (commit c) w.client.channelSubscriptions) (type : CallbackType) :
    names w'.client type = namesAfter c type (names w.client type) := by
  have hdeleted := map_deleteMatching EmqQueueSubscription.name
  have hdeleted' := map_deleteMatching EmqChannelSubscription.name
  unfold names
  rw [hqueue, hchannel]
  cases c with
  | queueSubscribe name flags callback =>
      have hfits' : strlen name < 64 := hfits
      cases type <;> simp [commit, Commit.queueList, Commit.channelList, namesAfter, effect,
        Target.place, hfits']
  | channelSubscribe name topic callback =>
      have hfits' : strlen name < 64 ∧ strlen topic < 32 := hfits
      cases type <;> simp [commit, Commit.queueList, Commit.channelList, namesAfter, effect,
        Target.place, hfits']
  | channelPsubscribe name pattern callback =>
      have hfits' : strlen name < 64 ∧ strlen pattern < 32 := hfits
      cases type <;> simp [commit, Commit.queueList, Commit.channelList, namesAfter, effect,
        Target.place, hfits']
  | queueUnsubscribe name =>
      cases type
      · exact hdeleted name _
      · rfl
  | channelUnsubscribe name topic =>
      cases type
      · rfl
      · exact hdeleted' name _
  | channelPunsubscribe name pattern =>
      cases type
      · rfl
      · exact hdeleted' name _
  | _ => cases type <;> rfl

theorem effect_of_not_statusOnly {c : Command} (h : ¬ StatusOnly c) :
    effect c = none ∧ commit c = .nothing := by
  cases c <;> first
    | exact absurd rfl h
    | exact ⟨rfl, rfl⟩

theorem successful_iff {c : Command} (h : StatusOnly c) {reply : Reply} :
    (reply = (finish c).failure → reply ≠ .status .ok) ∧
      (Finish.Successful (finish c) reply → reply = .status .ok) := by
  obtain ⟨check, done, hfinish⟩ := acknowledges h
  rw [hfinish]
  refine ⟨?_, id⟩
  rintro rfl
  simp [Finish.failure]

theorem issue_names {k : Kernel} (hmallocs : Kernel.MallocsOk k) {c : Command} {w w' : World}
    (hready : Ready w.client) {reply : Reply} (h : issue k c w = .returned reply w') :
    ((reply = .status .ok → effect c = none) ∧ names w'.client = names w.client) ∨
      (reply = .status .ok ∧
        ∀ type, names w'.client type = namesAfter c type (names w.client type)) := by
  obtain ⟨s, hexec, rfl⟩ := issue_returned h
  obtain ⟨_, _, _, hcases⟩ := exec_returned hready hexec
  rcases hcases with ⟨hreply, _, hqueue, hchannel⟩ |
    ⟨haccepts, _, hreply, done', _, hdone, hqueue, hchannel⟩
  · refine .inl ⟨fun hok => ?_, ?_⟩
    · by_cases hc : StatusOnly c
      · exact absurd hok ((successful_iff hc).1 hreply)
      · exact (effect_of_not_statusOnly hc).1
    · funext type
      unfold names
      rw [hqueue, hchannel]
  · rw [hdone hmallocs] at hqueue hchannel
    by_cases hc : StatusOnly c
    · exact .inr ⟨(successful_iff hc).2 hreply,
        names_commit (commit_fits haccepts.2) hqueue hchannel⟩
    · obtain ⟨heffect, hcommit⟩ := effect_of_not_statusOnly hc
      rw [hcommit] at hqueue hchannel
      refine .inl ⟨fun _ => heffect, ?_⟩
      funext type
      unfold names
      rw [hqueue, hchannel]
      rfl

theorem mem_namesAfter {c : Command} {list : List CString} {place : Place} :
    place.name ∈ namesAfter c place.type list ↔
      match effect c with
      | some (kind, target) => if target.place = place then kind = true else place.name ∈ list
      | none => place.name ∈ list := by
  unfold namesAfter
  obtain ⟨type, name⟩ := place
  rcases effect c with _ | ⟨kind, target⟩
  · rfl
  · have hplace : target.place = ⟨type, name⟩ ↔
        target.place.type = type ∧ target.place.name = name := by
      rw [Place.mk.injEq]
    cases kind <;> by_cases htype : target.place.type = type <;>
      by_cases hname : target.place.name = name <;>
        simp [hplace, htype, hname, @eq_comm _ name]

theorem lastCall_append (place : Place) (trace : List TraceEvent) (event : TraceEvent) :
    lastCall place (trace ++ [event]) =
      match event with
      | .issued c (.status .ok) =>
          match effect c with
          | some (kind, target) =>
              if target.place = place then some kind else lastCall place trace
          | none => lastCall place trace
      | _ => lastCall place trace := by
  rw [lastCall, List.foldl_append]
  rfl

theorem lastCall_invoked (place : Place) (delivery : Delivery) (w : World) :
    lastCall place (invoked delivery w).trace = lastCall place w.trace :=
  lastCall_append place w.trace (.invoked delivery.1 delivery.2)

theorem lastCall_append_ne_none {place : Place} {trace : List TraceEvent}
    (h : lastCall place trace ≠ none) (event : TraceEvent) :
    lastCall place (trace ++ [event]) ≠ none := by
  rw [lastCall_append]
  split
  · split
    · split
      · simp
      · exact h
    · exact h
  · exact h

/-- The lists of the client agree with its calls. -/
def Listed (w : World) : Prop :=
  ∀ place : Place, place.name ∈ names w.client place.type ↔ lastCall place w.trace = some true

theorem issue_listed {k : Kernel} (hmallocs : Kernel.MallocsOk k) {c : Command} {w w' : World}
    (hready : Ready w.client) {reply : Reply} (h : issue k c w = .returned reply w')
    (hw : Listed w) : Listed w' := by
  have hnames := issue_names hmallocs hready h
  obtain ⟨s, hexec, rfl⟩ := issue_returned h
  obtain ⟨_, _, htrace, _⟩ := exec_returned hready hexec
  intro place
  change place.name ∈ names _ _ ↔ lastCall place (s.trace ++ [.issued c reply]) = some true
  rw [htrace, lastCall_append]
  rcases hnames with ⟨hfail, hsame⟩ | ⟨rfl, hafter⟩
  · rw [hsame, hw]
    split
    · rename_i c' heq
      cases heq
      rw [hfail rfl]
    · rfl
  · rw [hafter, mem_namesAfter]
    simp only
    split
    · split
      · simp
      · exact hw place
    · exact hw place

theorem listed_connected (heap input : List UInt8) : Listed (World.connected heap input) := by
  rintro ⟨type, name⟩
  cases type <;> exact iff_of_false List.not_mem_nil (by simp [lastCall, World.connected])

theorem kept_listed {k : Kernel} (hmallocs : Kernel.MallocsOk k) : Kept k Listed where
  congr := by
    intro w w' hqueues hchannels htrace hw place
    have hnames : names w'.client place.type = names w.client place.type := by
      unfold names
      rw [hqueues, hchannels]
    rw [hnames, htrace]
    exact hw place
  invoked delivery hw place := by
    rw [lastCall_invoked]
    exact hw place
  issue hready h hw := issue_listed hmallocs hready h hw

theorem listed_of_reachable {k : Kernel} (hmallocs : Kernel.MallocsOk k) {w : World}
    (h : Reachable k w) : Listed w :=
  (kept_listed hmallocs).of_reachable listed_connected h

theorem mem_serve {c : Command} {served : List Target} {target : Target}
    (h : target ∈ serve c served) : target ∈ served ∨ effect c = some (true, target) := by
  unfold serve at h
  split at h
  · rename_i other heffect
    rcases List.mem_cons.mp h with rfl | h
    · exact .inr heffect
    · exact .inl h
  · exact .inl (List.mem_of_mem_filter h)
  · exact .inl h

/-- What holds in every state of the two parties: the lists of the client agree with
its calls, the events in flight are its input, and the server knows of no more than
was subscribed to. -/
structure Sound (s : System) : Prop where
  ready : Ready s.world.client
  noack : s.world.client.noack = true
  listed : Listed s.world
  input : s.mode ≠ .failed → s.world.input = stream Event.bytes s.flight
  served : ∀ target ∈ s.served, lastCall target.place s.world.trace ≠ none
  requests : ∀ c ∈ s.requests, ∀ target, effect c = some (true, target) →
    lastCall target.place s.world.trace ≠ none
  flight : ∀ e ∈ s.flight, lastCall (place e) s.world.trace ≠ none

theorem subscriber_ne_none_iff (e : Event) (c : EmqClient) :
    e.subscriber c ≠ none ↔ (place e).name ∈ names c (place e).type := by
  cases e <;>
    simp [Event.subscriber, place, target, Target.place, names]

theorem Start.sound {k : Kernel} (hmallocs : Kernel.MallocsOk k) {s : System}
    (h : Start k s) : Sound s where
  ready := h.reachable.ready
  noack := h.noack
  listed := listed_of_reachable hmallocs h.reachable
  input := fun _ => by rw [h.input, h.flight, stream_nil]
  served := h.served
  requests := by simp [h.requests]
  flight := by simp [h.flight]

theorem call_sound {k : Kernel} (hmallocs : Kernel.MallocsOk k) {s : System} (hs : Sound s)
    {c : Command} (hc : StatusOnly c) {reply : Reply} {w : World}
    (hmode : s.mode ≠ .failed) (h : issue k c s.world = .returned reply w) :
    Sound
      { s with
        world := w
        requests := if reply = .status .ok then s.requests ++ [c] else s.requests } := by
  have hlisted := issue_listed hmallocs hs.ready h hs.listed
  have hquiet := quietStep_keeps hmallocs (.issue c reply hc hs.noack h) hs.ready
  obtain ⟨w1, hexec, rfl⟩ := issue_returned h
  obtain ⟨_, hnoack, htrace, _⟩ := exec_returned hs.ready hexec
  have hknown : ∀ place, lastCall place s.world.trace ≠ none →
      lastCall place (w1.trace ++ [.issued c reply]) ≠ none := by
    intro place hplace
    rw [htrace]
    exact lastCall_append_ne_none hplace _
  refine ⟨hquiet.1, hnoack.trans hs.noack, hlisted, fun _ => hquiet.2.1.trans (hs.input hmode),
    fun target ht => hknown _ (hs.served target ht), ?_, fun e he => hknown _ (hs.flight e he)⟩
  intro c' hc' target heffect
  change lastCall target.place (w1.trace ++ [.issued c reply]) ≠ none
  split at hc'
  · rename_i hok
    rcases List.mem_append.mp hc' with hc' | hc'
    · exact hknown _ (hs.requests c' hc' target heffect)
    · rw [List.mem_singleton.mp hc'] at heffect
      rw [hok, lastCall_append]
      simp [heffect]
  · exact hknown _ (hs.requests c' hc' target heffect)

theorem receive_sound {k : Kernel} {s : System} (hs : Sound s) {e : Event} {rest : List Event}
    {delivery : Delivery} {w : World} (hmode : s.mode = .waiting) (hflight : s.flight = e :: rest)
    (h : receiveEvent k s.world = .next delivery w) :
    Sound { s with mode := .callback, world := invoked delivery w, flight := rest } := by
  have hinput := hs.input (by simp [hmode])
  rw [hflight, stream_cons] at hinput
  obtain ⟨hclient, htrace, _⟩ := receiveEvent_client h
  obtain ⟨_, _, _, _, _, hstate⟩ := receiveEvent_delivered hinput h
  have hlast : ∀ place, lastCall place (invoked delivery w).trace =
      lastCall place s.world.trace := by
    intro place
    rw [lastCall_invoked, htrace]
  have hkept : (invoked delivery w).client = s.world.client := hclient
  refine ⟨by rw [hkept]; exact hs.ready, by rw [hkept]; exact hs.noack, ?_, fun _ => ?_, ?_,
    ?_, ?_⟩
  · intro place
    simp only [hlast, hkept]
    exact hs.listed place
  · change w.input = _
    rw [hstate, consumed_input, hinput, List.drop_left]
  · intro target ht
    rw [hlast]
    exact hs.served target ht
  · intro c hc target heffect
    rw [hlast]
    exact hs.requests c hc target heffect
  · intro e' he'
    rw [hlast]
    exact hs.flight e' (by rw [hflight]; exact List.mem_cons_of_mem _ he')

theorem fail_sound {k : Kernel} {s : System} (hs : Sound s) {e : Event} {rest : List Event}
    {w : World} (hflight : s.flight = e :: rest) (h : receiveEvent k s.world = .error w) :
    Sound { s with mode := .failed, world := setStatus .err w, flight := rest } := by
  obtain ⟨⟨text, hclient⟩, htrace, _⟩ := receiveEvent_error h
  have hkept : (setStatus .err w).client =
      { s.world.client with error := text, status := .err } := by
    rw [setStatus_client, hclient]
  refine ⟨by rw [hkept]; exact hs.ready, by rw [hkept]; exact hs.noack, ?_,
    fun hmode => absurd rfl hmode, ?_, ?_, ?_⟩
  · intro place
    rw [hkept, setStatus_trace, htrace]
    exact hs.listed place
  · rw [setStatus_trace, htrace]
    exact hs.served
  · rw [setStatus_trace, htrace]
    exact hs.requests
  · intro e' he'
    rw [setStatus_trace, htrace]
    exact hs.flight e' (by rw [hflight]; exact List.mem_cons_of_mem _ he')

section Steps

variable {k : Kernel} (hreads : Kernel.ReadsOk k) (hmallocs : Kernel.MallocsOk k)

include hmallocs

theorem step_sound {a : Action} {s s' : System} (hs : Sound s) (h : Step k a s s') :
    Sound s' := by
  cases h with
  | call c reply w hmode hc h =>
      refine call_sound hmallocs hs hc ?_ h
      rcases hmode with hmode | hmode <;> simp [hmode]
  | process hmode =>
      exact ⟨hs.ready, hs.noack, hs.listed, fun _ => hs.input (by simp [hmode]), hs.served,
        hs.requests, hs.flight⟩
  | receive e rest delivery w hmode hactive hflight h =>
      exact receive_sound hs hmode hflight h
  | fail e rest w hmode hactive hflight h => exact fail_sound hs hflight h
  | resume ret hmode hgo =>
      exact ⟨hs.ready, hs.noack, hs.listed, fun _ => hs.input (by simp [hmode]), hs.served,
        hs.requests, hs.flight⟩
  | stop ret hmode hstop =>
      exact ⟨hs.ready, hs.noack, hs.listed, fun _ => hs.input (by simp [hmode]), hs.served,
        hs.requests, hs.flight⟩
  | done hmode hidle =>
      exact ⟨hs.ready, hs.noack, hs.listed, fun _ => hs.input (by simp [hmode]), hs.served,
        hs.requests, hs.flight⟩
  | handle c rest hrequests =>
      refine ⟨hs.ready, hs.noack, hs.listed, hs.input, ?_, ?_, hs.flight⟩
      · intro target ht
        rcases mem_serve ht with ht | heffect
        · exact hs.served target ht
        · exact hs.requests c (by rw [hrequests]; exact List.mem_cons_self) target heffect
      · intro c' hc'
        exact hs.requests c' (by rw [hrequests]; exact List.mem_cons_of_mem _ hc')
  | send e hserved =>
      refine ⟨hs.ready, hs.noack, hs.listed, ?_, hs.served, hs.requests, ?_⟩
      · intro hmode
        change s.world.input ++ e.bytes = _
        rw [hs.input hmode, stream, stream, List.flatMap_append]
        simp
      · intro e' he'
        rcases List.mem_append.mp he' with he' | he'
        · exact hs.flight e' he'
        · rw [List.mem_singleton.mp he']
          exact hs.served _ hserved

include hreads

/-- The event that is about to arrive is received iff its queue or channel is still
subscribed to. -/
theorem receive_iff {s : System} (hs : Sound s) {e : Event} (he : Expects s e) :
    (∃ callback w, receiveEvent k s.world = .next (callback, e.args) w) ↔
      lastCall (place e) s.world.trace ≠ some false := by
  obtain ⟨hmode, _, hhead⟩ := he
  obtain ⟨rest, hflight⟩ := List.head?_eq_some_iff.mp hhead
  have hinput := hs.input (by simp [hmode])
  rw [hflight, stream_cons] at hinput
  have hknown := hs.flight e (by rw [hflight]; exact List.mem_cons_self)
  have hlive : e.subscriber s.world.client ≠ none ↔
      lastCall (place e) s.world.trace = some true :=
    (subscriber_ne_none_iff e s.world.client).trans (hs.listed (place e))
  have hsplit : lastCall (place e) s.world.trace = some true ↔
      lastCall (place e) s.world.trace ≠ some false := by
    cases hlast : lastCall (place e) s.world.trace with
    | none => exact absurd hlast hknown
    | some kind => cases kind <;> simp
  rw [← hsplit, ← hlive]
  rcases receiveEvent_event hreads hmallocs hinput with
    ⟨callback, reads, mallocs, hsome, hreceive⟩ | ⟨reads, hnone, hreceive⟩
  · exact iff_of_true ⟨callback, _, hreceive⟩ (by simp [hsome])
  · refine iff_of_false ?_ (by simp [hnone])
    rintro ⟨callback, w, hnext⟩
    rw [hreceive] at hnext
    cases hnext

/-- An event of what was given up makes `emq_process` fail. -/
theorem fail_of_crossing {s : System} (hs : Sound s) (h : Crossing s) :
    ∃ s', Step k .fail s s' ∧ s'.mode = .failed := by
  obtain ⟨e, hexpects, hlast⟩ := h
  have hnot := (receive_iff hreads hmallocs hs hexpects).not.mpr (by simp [hlast])
  obtain ⟨hmode, hactive, hhead⟩ := hexpects
  obtain ⟨rest, hflight⟩ := List.head?_eq_some_iff.mp hhead
  have hinput := hs.input (by simp [hmode])
  rw [hflight, stream_cons] at hinput
  rcases receiveEvent_event hreads hmallocs hinput with
    ⟨callback, reads, mallocs, _, hreceive⟩ | ⟨reads, _, hreceive⟩
  · exact absurd ⟨callback, _, hreceive⟩ hnot
  · exact ⟨_, .fail e rest _ hmode hactive hflight hreceive, rfl⟩

/-- `emq_process` fails only on the events of what was given up. -/
theorem step_not_failed {a : Action} {s s' : System} (hs : Sound s) (hmode : s.mode ≠ .failed)
    (hclear : ¬ Crossing s) (h : Step k a s s') : s'.mode ≠ .failed := by
  cases h with
  | fail e rest w hwaiting hactive hflight h =>
      have hexpects : Expects s e := ⟨hwaiting, hactive, by rw [hflight]; rfl⟩
      have hnot : lastCall (place e) s.world.trace ≠ some false :=
        fun hlast => hclear ⟨e, hexpects, hlast⟩
      obtain ⟨callback, w', hnext⟩ := (receive_iff hreads hmallocs hs hexpects).mpr hnot
      rw [h] at hnext
      cases hnext
  | call => exact hmode
  | process => simp
  | receive => simp
  | resume => simp
  | stop => simp
  | done => simp
  | handle => exact hmode
  | send => exact hmode

end Steps

abbrev AnyStep (k : Kernel) (s s' : System) : Prop := ∃ a, Step k a s s'

/-- In every run, `emq_process` never fails and delivers each event whose turn comes iff
it never gets to an event of a queue or a channel that the client has given up. -/
theorem run_healthy_iff (k : Kernel) (hreads : Kernel.ReadsOk k) (hmallocs : Kernel.MallocsOk k)
    (start : System) (hstart : Start k start) (run : List System)
    (hrun : (start :: run).IsChain (AnyStep k)) :
    (∀ s ∈ start :: run, Healthy k s) ↔ ∀ s ∈ start :: run, ¬ Crossing s := by
  have hsound := Runs.of_run (P := Sound) (fun hs ⟨_, hstep⟩ => step_sound hmallocs hs hstep)
    hrun (hstart.sound hmallocs)
  constructor
  · rintro hhealthy s hs ⟨e, hexpects, hlast⟩
    exact (receive_iff hreads hmallocs (hsound s hs) hexpects).mp
      ((hhealthy s hs).2 e hexpects) hlast
  · intro hclear s hs
    have hmode := (Runs.of_guarded_run (P := fun s => Sound s ∧ s.mode ≠ .failed)
      (Q := fun s => ¬ Crossing s) (fun hp hq ⟨_, hstep⟩ => ⟨step_sound hmallocs hp.1 hstep,
        step_not_failed hreads hmallocs hp.1 hp.2 hq hstep⟩) hrun
      ⟨hstart.sound hmallocs, by simp [hstart.mode]⟩ hclear s hs).2
    refine ⟨hmode, fun e hexpects => ?_⟩
    exact (receive_iff hreads hmallocs (hsound s hs) hexpects).mpr
      fun hlast => hclear s hs ⟨e, hexpects, hlast⟩

/-- A call gives up nothing of which events are in flight, and the server sends nothing
that the client has given up. -/
def Careful (s : System) : Action → Prop
  | .call c => ∀ target, effect c = some (false, target) → ∀ e ∈ s.flight,
      place e ≠ target.place
  | .send e => lastCall (place e) s.world.trace = some true
  | _ => True

/-- All events in flight are of something that the client has subscribed to. -/
def Wanted (s : System) : Prop :=
  ∀ e ∈ s.flight, lastCall (place e) s.world.trace = some true

theorem step_wanted {k : Kernel} {a : Action} {s s' : System} (hs : Sound s) (hwanted : Wanted s)
    (h : Step k a s s') (hcareful : Careful s a) : Wanted s' := by
  cases h with
  | call c reply w hmode hc h =>
      obtain ⟨w1, hexec, rfl⟩ := issue_returned h
      obtain ⟨_, _, htrace, _⟩ := exec_returned hs.ready hexec
      intro e he
      change lastCall (place e) (w1.trace ++ [.issued c reply]) = some true
      have hlast := hwanted e he
      rw [htrace, lastCall_append]
      split
      · rename_i c' heq
        cases heq
        split
        · rename_i kind target heffect
          split
          · rename_i hplace
            cases kind with
            | true => rfl
            | false => exact absurd hplace.symm (hcareful target heffect e he)
          · exact hlast
        · exact hlast
      · exact hlast
  | process => exact hwanted
  | receive e rest delivery w hmode hactive hflight h =>
      intro e' he'
      change lastCall (place e') (invoked delivery w).trace = some true
      rw [lastCall_invoked, (receiveEvent_client h).2.1]
      exact hwanted e' (by rw [hflight]; exact List.mem_cons_of_mem _ he')
  | fail e rest w hmode hactive hflight h =>
      intro e' he'
      change lastCall (place e') (setStatus .err w).trace = some true
      rw [setStatus_trace, (receiveEvent_error h).2.1]
      exact hwanted e' (by rw [hflight]; exact List.mem_cons_of_mem _ he')
  | resume => exact hwanted
  | stop => exact hwanted
  | done => exact hwanted
  | handle => exact hwanted
  | send e hserved =>
      intro e' he'
      rcases List.mem_append.mp he' with he' | he'
      · exact hwanted e' he'
      · rw [List.mem_singleton.mp he']
        exact hcareful

theorem not_crossing_of_wanted {s : System} (h : Wanted s) : ¬ Crossing s := by
  rintro ⟨e, ⟨_, _, hhead⟩, hlast⟩
  rw [h e (List.mem_of_mem_head? hhead)] at hlast
  cases hlast

theorem careful_run_healthy (k : Kernel) (hreads : Kernel.ReadsOk k)
    (hmallocs : Kernel.MallocsOk k) (start : System) (hstart : Start k start)
    (run : List System)
    (hrun : (start :: run).IsChain fun s s' => ∃ a, Step k a s s' ∧ Careful s a) :
    ∀ s ∈ start :: run, Healthy k s := by
  have hwanted := Runs.of_run (P := fun s => Sound s ∧ Wanted s)
    (fun hp ⟨_, hstep, hcareful⟩ => ⟨step_sound hmallocs hp.1 hstep,
      step_wanted hp.1 hp.2 hstep hcareful⟩) hrun
    ⟨hstart.sound hmallocs, by simp [Wanted, hstart.flight]⟩
  refine (run_healthy_iff k hreads hmallocs start hstart run ?_).mpr
    fun s hs => not_crossing_of_wanted (hwanted s hs).2
  exact hrun.imp fun _ _ ⟨a, hstep, _⟩ => ⟨a, hstep⟩

abbrev Calls (k : Kernel) : World → World → Prop :=
  Relation.ReflTransGen fun w w' => ∃ c reply, StatusOnly c ∧ issue k c w = .returned reply w'

theorem calls_steps {k : Kernel} {w w' : World} (h : Calls k w w') {s : System}
    (hworld : s.world = w) (hmode : s.mode = .callback) :
    ∃ s', Relation.ReflTransGen (AnyStep k) s s' ∧ s'.mode = .callback ∧ s'.world = w' ∧
      s'.flight = s.flight := by
  induction h with
  | refl => exact ⟨s, .refl, hmode, hworld, rfl⟩
  | tail _ hlast ih =>
      obtain ⟨s1, hsteps, hmode1, rfl, hflight1⟩ := ih
      obtain ⟨c, reply, hc, hissue⟩ := hlast
      exact ⟨_, hsteps.tail ⟨.call c, .call c reply _ (.inr hmode1) hc hissue⟩, hmode1, rfl,
        hflight1⟩

/-- The turns of the loop are runs of the client, in which the server does nothing. -/
theorem loopHead_steps {k : Kernel} (hmallocs : Kernel.MallocsOk k) {callbacks : Callbacks}
    (hcalls : ∀ f args w ret w', callbacks f args w = .returned ret w' → Calls k w w')
    {s : System} (hs : Sound s) (hmode : s.mode = .waiting) {w : World}
    (h : LoopHead k callbacks s.world w) :
    ∃ s', Relation.ReflTransGen (AnyStep k) s s' ∧ s'.mode = .waiting ∧ s'.world = w := by
  induction h with
  | refl => exact ⟨s, .refl, hmode, rfl⟩
  | tail _ hturn ih =>
      obtain ⟨s1, hsteps, hmode1, rfl⟩ := ih
      have hs1 := Runs.of_steps (P := Sound)
        (fun hp ⟨_, hstep⟩ => step_sound hmallocs hp hstep) hsteps hs
      obtain ⟨delivery, w1, ret, hreceive, hcallback, hgo⟩ := hturn.goes_on
      have hinput := hs1.input (by simp [hmode1])
      cases hflight : s1.flight with
      | nil =>
          rw [hflight] at hinput
          obtain ⟨_, herror⟩ := receiveEvent_nil (k := k) hinput
          rw [hreceive] at herror
          cases herror
      | cons e rest =>
          have hfirst := Step.receive e rest delivery w1 hmode1 hturn.active hflight hreceive
          let s2 : System :=
            { s1 with mode := .callback, world := invoked delivery w1, flight := rest }
          obtain ⟨s3, hmore, hmode3, rfl, _⟩ :=
            calls_steps (hcalls _ _ _ _ _ hcallback) (rfl : s2.world = _) (rfl : s2.mode = _)
          exact ⟨_, ((hsteps.tail ⟨_, hfirst⟩).trans hmore).tail
            ⟨.resume ret, .resume ret hmode3 hgo⟩, rfl, rfl⟩

def queueR : CString := ⟨[114], by decide⟩

def messageR : Event := .message ⟨charArray 64 queueR, by decide, by decide⟩ oneByte

def System.called (s : System) (c : Command) : System :=
  { s with world := (issue generous c s.world).state, requests := s.requests ++ [c] }

def System.resumed (s : System) : System := { s with mode := .waiting }

def System.received (s : System) : System :=
  match receiveEvent generous s.world with
  | .next delivery w =>
      { s with mode := .callback, world := invoked delivery w, flight := s.flight.tail }
  | _ => s

theorem called_mode (s : System) (c : Command) : (s.called c).mode = s.mode := rfl

theorem called_flight (s : System) (c : Command) : (s.called c).flight = s.flight := rfl

theorem resumed_flight (s : System) : s.resumed.flight = s.flight := rfl

theorem step_resumed {k : Kernel} {s : System} (hmode : s.mode = .callback) :
    Step k (.resume 0) s s.resumed :=
  .resume 0 hmode (by simp)

theorem step_called {s : System} (hmode : s.mode = .application ∨ s.mode = .callback)
    {c : Command} (hc : StatusOnly c)
    (h : (issue generous c s.world).result = some (.status .ok)) :
    Step generous (.call c) s (s.called c) :=
  .call c (.status .ok) _ hmode hc (Outcome.eq_returned_state h)

theorem step_received {s : System} {e : Event} {rest : List Event} (hmode : s.mode = .waiting)
    (hactive : ¬ Idle s.world.client) (hflight : s.flight = e :: rest)
    (h : (receiveEvent generous s.world).isNext = true) :
    Step generous .receive s s.received := by
  obtain ⟨delivery, w, hreceive⟩ := Exit.eq_next h
  rw [System.received, hreceive, hflight]
  exact .receive e rest delivery w hmode hactive hflight hreceive

theorem received_flight {s : System} (h : (receiveEvent generous s.world).isNext = true) :
    s.received.flight = s.flight.tail := by
  obtain ⟨delivery, w, hreceive⟩ := Exit.eq_next h
  rw [System.received, hreceive]

def System.sent (s : System) (e : Event) : System :=
  { s with
    world := { s.world with input := s.world.input ++ e.bytes }
    flight := s.flight ++ [e] }

def System.handled (s : System) (c : Command) (rest : List Command) : System :=
  { s with requests := rest, served := serve c s.served }

def initial : System where
  mode := .application
  world := emqNoackEnable (World.connected [] [])
  flight := []
  requests := []
  served := []

theorem start_initial : Start generous initial where
  mode := rfl
  reachable := ⟨[], [], .single (.noackEnable _)⟩
  noack := rfl
  input := rfl
  flight := rfl
  requests := rfl
  served := fun _ h => nomatch h

def both : System :=
  (initial.called (.queueSubscribe queueQ 0 1)).called (.queueSubscribe queueR 0 1)

def servingQ : System := both.handled (.queueSubscribe queueQ 0 1) [.queueSubscribe queueR 0 1]

def sending : System :=
  ((servingQ.handled (.queueSubscribe queueR 0 1) []).sent messageR).sent messageQ

def waiting : System :=
  { sending with mode := .waiting, world := withError .none sending.world }

def holding : System := waiting.received

def givenUp : System := (holding.called (.queueUnsubscribe queueQ)).resumed

def upToMessage (run : List System) : List System :=
  initial.called (.queueSubscribe queueQ 0 1) :: both :: servingQ ::
    servingQ.handled (.queueSubscribe queueR 0 1) [] ::
    (servingQ.handled (.queueSubscribe queueR 0 1) []).sent messageR :: sending :: waiting ::
    holding :: run

theorem run_computed :
    (issue generous (.queueSubscribe queueQ 0 1) initial.world).result = some (.status .ok) ∧
    (issue generous (.queueSubscribe queueR 0 1)
      (initial.called (.queueSubscribe queueQ 0 1)).world).result = some (.status .ok) ∧
    waiting.world.client.queueSubscriptions.length = 2 ∧
    (receiveEvent generous waiting.world).isNext = true ∧
    holding.mode = .callback ∧
    holding.resumed.world.client.queueSubscriptions.length = 2 ∧
    (issue generous (.queueUnsubscribe queueQ) holding.world).result = some (.status .ok) ∧
    givenUp.world.client.queueSubscriptions.length = 1 ∧
    lastCall (place messageQ) givenUp.world.trace = some false := by
  decide +kernel

theorem waiting_active : ¬ Idle waiting.world.client := by
  rintro ⟨hqueue, _⟩
  obtain ⟨_, _, hlength, _⟩ := run_computed
  rw [hlength] at hqueue
  cases hqueue

theorem upToMessage_steps {run : List System} (h : (holding :: run).IsChain (AnyStep generous)) :
    (initial :: upToMessage run).IsChain (AnyStep generous) := by
  obtain ⟨hfirst, hsecond, _, hreceived, _⟩ := run_computed
  simp only [upToMessage, List.isChain_cons_cons]
  exact ⟨⟨_, step_called (.inl rfl) rfl hfirst⟩, ⟨_, step_called (.inl rfl) rfl hsecond⟩,
    ⟨.handle, .handle _ _ rfl⟩, ⟨.handle, .handle _ _ rfl⟩,
    ⟨.send messageR, .send _ (by decide)⟩, ⟨.send messageQ, .send _ (by decide)⟩,
    ⟨.process, .process rfl⟩,
    ⟨_, step_received rfl waiting_active rfl hreceived⟩, h⟩

theorem holding_mode : holding.mode = .callback := by
  obtain ⟨_, _, _, _, hmode, _⟩ := run_computed
  exact hmode

theorem givenUp_steps : [holding, holding.called (.queueUnsubscribe queueQ), givenUp].IsChain
    (AnyStep generous) := by
  obtain ⟨_, _, _, _, _, _, hgiven, _⟩ := run_computed
  simp only [List.isChain_cons_cons]
  exact ⟨⟨_, step_called (.inr holding_mode) rfl hgiven⟩,
    ⟨_, step_resumed ((called_mode _ _).trans holding_mode)⟩, .singleton _⟩

theorem holding_flight : holding.flight = [messageQ] := by
  obtain ⟨_, _, _, hreceived, _⟩ := run_computed
  exact received_flight hreceived

theorem givenUp_crossing : Crossing givenUp := by
  obtain ⟨_, _, _, _, _, _, _, hlength, hlast⟩ := run_computed
  refine ⟨messageQ, ⟨rfl, ?_, ?_⟩, hlast⟩
  · rintro ⟨hqueue, _⟩
    rw [hlength] at hqueue
    cases hqueue
  · rw [givenUp, resumed_flight, called_flight, holding_flight]
    rfl

/-- The message of the queue that was given up makes `emq_process` fail. -/
theorem givenUp_fails :
    ¬ ∀ (k : Kernel) (start : System) (run : List System), Kernel.ReadsOk k →
      Kernel.MallocsOk k → Start k start → (start :: run).IsChain (AnyStep k) →
      ∀ s ∈ start :: run, Healthy k s := by
  intro h
  have hsound : ∀ s ∈ initial :: upToMessage [holding.called (.queueUnsubscribe queueQ),
      givenUp], Sound s :=
    Runs.of_run (fun hs ⟨_, hstep⟩ => step_sound generous_reliable.mallocs hs hstep)
      (upToMessage_steps givenUp_steps) (start_initial.sound generous_reliable.mallocs)
  obtain ⟨s, hfail, hfailed⟩ := fail_of_crossing generous_reliable.reads
    generous_reliable.mallocs (hsound givenUp (by simp [upToMessage])) givenUp_crossing
  have hrun : [holding, holding.called (.queueUnsubscribe queueQ), givenUp, s].IsChain
      (AnyStep generous) := by
    have hsteps := givenUp_steps
    simp only [List.isChain_cons_cons] at hsteps ⊢
    exact ⟨hsteps.1, hsteps.2.1, ⟨_, hfail⟩, .singleton _⟩
  exact (h generous initial _ generous_reliable.reads generous_reliable.mallocs start_initial
    (upToMessage_steps hrun) s (by simp [upToMessage])).1 hfailed

theorem not_crossing_of_mode {s : System} (h : s.mode ≠ .waiting) : ¬ Crossing s :=
  fun ⟨_, hexpects, _⟩ => h hexpects.1

theorem not_crossing_of_head {s : System} {e : Event} (hhead : s.flight.head? = some e)
    (hlast : lastCall (place e) s.world.trace ≠ some false) : ¬ Crossing s := by
  rintro ⟨e', ⟨_, _, hhead'⟩, hlast'⟩
  rw [hhead] at hhead'
  cases hhead'
  exact hlast hlast'

theorem holding_active : ¬ Idle holding.resumed.world.client := by
  rintro ⟨hqueue, _⟩
  obtain ⟨_, _, _, _, _, hlength, _⟩ := run_computed
  rw [hlength] at hqueue
  cases hqueue

theorem holding_head : holding.resumed.flight.head? = some messageQ := by
  rw [resumed_flight, holding_flight]
  rfl

theorem run_healthy_iff_resumed :
    (initial :: upToMessage [holding.resumed]).IsChain (AnyStep generous) ∧
      Expects holding.resumed messageQ ∧
      ∀ s ∈ initial :: upToMessage [holding.resumed], Healthy generous s := by
  have hchain : (initial :: upToMessage [holding.resumed]).IsChain (AnyStep generous) := by
    refine upToMessage_steps ?_
    simp only [List.isChain_cons_cons]
    exact ⟨⟨_, step_resumed holding_mode⟩, .singleton _⟩
  refine ⟨hchain, ⟨rfl, holding_active, holding_head⟩,
    (run_healthy_iff generous generous_reliable.reads generous_reliable.mallocs initial
      start_initial _ hchain).mpr ?_⟩
  simp only [upToMessage, List.forall_mem_cons]
  refine ⟨not_crossing_of_mode (by decide), not_crossing_of_mode (by decide +kernel),
    not_crossing_of_mode (by decide +kernel), not_crossing_of_mode (by decide +kernel),
    not_crossing_of_mode (by decide +kernel), not_crossing_of_mode (by decide +kernel),
    not_crossing_of_mode (by decide +kernel), not_crossing_of_head rfl (by decide +kernel),
    not_crossing_of_mode (by rw [holding_mode]; decide),
    not_crossing_of_head holding_head (by decide +kernel), by simp⟩

end Libemq.InFlight
