import Libemq.Machines
import Libemq.MessageBounds

namespace Libemq.Reentry

open Libemq.CStrings
open Libemq.ExitCode
open Libemq.Blocks (Memory)
open Libemq.Inventories
open Libemq.Client
open Libemq.Network
open Libemq.Protocol
open Libemq.Commands
open Libemq.Transactions
open Libemq.Responses
open Libemq.Calls
open Libemq.Runs
open Libemq.HeapLists
open Libemq.Connections
open Libemq.Subscriptions
open Libemq.EventFormat
open Libemq.Framing
open Libemq.Delivery (StatusOnly told told_invoked)
open Libemq.Lifetimes (always after_always)
open Libemq.Lockstep (registry)
open Libemq.Events (readArray readPattern readEventHeader Idle)
open Libemq.Machines

variable {α β : Type}

section Lifts

variable {m : Machine} {value : α}

theorem onWorld_next {x : Emq α} {w : World} (h : x m.world = .next value w) :
    onWorld x m = .next value ⟨w, m.mem⟩ := by
  rw [onWorld, h]

theorem inMemory_next {x : Life α} {mem : Memory Resource} (h : x m.mem = some (value, mem)) :
    inMemory x m = .next value ⟨m.world, mem⟩ := by
  rw [inMemory, h]

theorem inMemory_fault {x : Life α} (h : x m.mem = none) : inMemory x m = .fault .memory m := by
  rw [inMemory, h]

end Lifts

/-- The memory holds the subscriptions of the world for this client. -/
def Kept (client : Nat) (m : Machine) : Prop :=
  ∃ place fd rest, place.client = client ∧ Keeps m.mem place fd (registry m.world) ∧
    Stocks m.mem (place.blocks ++ rest)

theorem Kept.congr {client : Nat} {m : Machine} {w : World} (h : Kept client m)
    (hregistry : registry w = registry m.world) : Kept client ⟨w, m.mem⟩ := by
  obtain ⟨place, fd, rest, hclient, hkeeps, hstock⟩ := h
  refine ⟨place, fd, rest, hclient, ?_, hstock⟩
  rw [← hregistry] at hkeeps
  exact hkeeps

theorem Kept.search {client : Nat} {m : Machine} (h : Kept client m) (side : Side)
    (given : List UInt8) :
    (search client side given m.mem = some (none, m.mem) ∧
        (((registry m.world).cells side).find? fun cell => !differs given cell) = none) ∨
      ∃ b cell, search client side given m.mem = some (some b, m.mem) ∧
        m.mem.cells b = some cell ∧
        (((registry m.world).cells side).find? fun cell => !differs given cell) = some cell := by
  obtain ⟨place, fd, rest, rfl, hkeeps, _⟩ := h
  have hsearch := search_eq hkeeps side given
  have hfind :
      ((LinkedLists.values (side.nodes place)).find? (verdict m.mem given)).bind m.mem.cells =
        ((registry m.world).cells side).find? fun cell => !differs given cell :=
    (hkeeps.contents side).find
  cases hfound : (LinkedLists.values (side.nodes place)).find? (verdict m.mem given) with
  | none =>
      rw [hfound] at hsearch hfind
      exact .inl ⟨hsearch, hfind.symm⟩
  | some b =>
      rw [hfound] at hsearch hfind
      obtain ⟨cell, _, hcell⟩ := (hkeeps.contents side).value (List.mem_of_find?_eq_some hfound)
      exact .inr ⟨b, cell, hsearch, hcell, hfind.symm.trans hcell⟩

theorem find_queue (given : List UInt8) (w : World) :
    (((registry w).cells .queues).find? fun cell => !differs given cell) =
      (w.client.queueSubscriptions.find? fun s => strcmpEq s.name.array given).map
        .queueSubscription := by
  rw [Registry.cells, List.find?_map]
  simp only [Function.comp_def, differs, Bool.not_not]
  rfl

theorem find_channel (given : List UInt8) (w : World) :
    (((registry w).cells .channels).find? fun cell => !differs given cell) =
      (w.client.channelSubscriptions.find? fun s => strcmpEq s.name.array given).map
        .channelSubscription := by
  rw [Registry.cells, List.find?_map]
  simp only [Function.comp_def, differs, Bool.not_not]
  rfl

theorem Kept.lengthOf {client : Nat} {m : Machine} (h : Kept client m) (side : Side) :
    lengthOf client side m.mem = some (((registry m.world).cells side).length, m.mem) := by
  obtain ⟨place, fd, rest, rfl, hkeeps, _⟩ := h
  exact lengthOf_spec hkeeps side

/-- The machine does what the world does and leaves its memory as it is. -/
inductive Follows (mem : Memory Resource) (R : α → β → Prop) :
    Exit World Fault α → Exit Machine Violation β → Prop
  | next (value : α) (value' : β) (w : World) (h : R value value') :
      Follows mem R (.next value w) (.next value' ⟨w, mem⟩)
  | error (w : World) : Follows mem R (.error w) (.error ⟨w, mem⟩)
  | fault (reason : Fault) (w : World) :
      Follows mem R (.fault reason w) (.fault (.fault reason) ⟨w, mem⟩)

namespace Follows

theorem onWorld (x : Emq α) (m : Machine) :
    Follows m.mem Eq (x m.world) (Machines.onWorld x m) := by
  rw [Machines.onWorld]
  cases x m.world with
  | next value w => exact .next value value w rfl
  | error w => exact .error w
  | fault reason w => exact .fault reason w

theorem bind {γ δ : Type} {m : Machine} {R : α → β → Prop} {S : γ → δ → Prop} {x : Emq α}
    {y : Reentrant β} {f : α → Emq γ} {g : β → Reentrant δ} (h : Follows m.mem R (x m.world) (y m))
    (hnext : ∀ value value' w, x m.world = .next value w → R value value' →
      Follows m.mem S (f value w) (g value' ⟨w, m.mem⟩)) :
    Follows m.mem S ((x >>= f) m.world) ((y >>= g) m) := by
  generalize hx : x m.world = exit at h
  generalize hy : y m = exit' at h
  cases h with
  | next value value' w hvalue =>
      rw [Code.bind_of_next hx, Code.bind_of_next hy]
      exact hnext value value' w hx hvalue
  | error w =>
      rw [Code.bind_of_error hx, Code.bind_of_error hy]
      exact .error w
  | fault reason w =>
      rw [Code.bind_of_fault hx, Code.bind_of_fault hy]
      exact .fault reason w

theorem read {γ δ : Type} {m : Machine} {S : γ → δ → Prop} {x : Emq (Option α)}
    {f : Option α → Emq (Option γ)} {g : Option α → Reentrant (Option δ)} (hf : f none = pure none)
    (hg : g none = pure none)
    (h : ∀ value w, x m.world = .next (some value) w →
      Follows m.mem (Option.Rel S) (f (some value) w) (g (some value) ⟨w, m.mem⟩)) :
    Follows m.mem (Option.Rel S) ((x >>= f) m.world) ((Machines.onWorld x >>= g) m) := by
  refine (Follows.onWorld x m).bind fun value value' w hx heq => ?_
  subst heq
  cases value with
  | none =>
      rw [hf, hg]
      exact .next none none w .none
  | some value => exact h value w hx

end Follows

/-- The callback of the event, with its name behind the pointer. -/
def Hands (mem : Memory Resource) (delivery : Events.Delivery) (h : Handed) : Prop :=
  ∃ name, h.name.resolve mem = some name ∧ (h.callback, h.args name) = delivery

theorem hand_follows {m : Machine} {b : Nat} {cell : Resource} {callback : CallbackPtr}
    {name : List UInt8} (hcell : m.mem.cells b = some cell)
    (hcallback : callback? cell = some callback) (hname : cell.name? = some name)
    (type : CallbackType) (topic pattern : Option (List UInt8)) (msg : Option EmqMsg) :
    Follows m.mem (Option.Rel (Hands m.mem))
      (.next (some (callback, ⟨type, name, topic, pattern, msg⟩)) m.world)
      (hand b type topic pattern msg m) := by
  have hload : load callback? b m.mem = some (callback, m.mem) := load_eq hcell hcallback
  have hresolve : (CharPtr.name b).resolve m.mem = some name := by
    rw [CharPtr.resolve, hcell]
    exact hname
  rw [hand, Code.bind_of_next (inMemory_next hload)]
  exact .next _ _ _ (.some ⟨name, hresolve, rfl⟩)

section Receiving

variable {k : Kernel} {client : Nat} {m : Machine} (hkept : Kept client m)

include hkept

theorem emqQueueReceive_follows (header : ProtocolEventHeader) :
    Follows m.mem (Option.Rel (Hands m.mem)) (Events.emqQueueReceive k header m.world)
      (emqQueueReceive k client header m) := by
  unfold Events.emqQueueReceive emqQueueReceive
  refine Follows.read rfl rfl fun name w hname => ?_
  obtain ⟨_, _, hclient, _⟩ := MessageBounds.readArray_some (by decide) hname
  have hkept' : Kept client ⟨w, m.mem⟩ := hkept.congr (by rw [registry, registry, hclient])
  simp only [Code.bind_reads]
  rcases hkept'.search .queues name with ⟨hsearch, hfind⟩ | ⟨b, cell, hsearch, hcell, hfind⟩
  · rw [find_queue, Option.map_eq_none_iff] at hfind
    rw [Code.bind_of_next (inMemory_next hsearch), hfind]
    exact .next none none w .none
  · rw [find_queue] at hfind
    obtain ⟨subscription, hfirst, rfl⟩ := Option.map_eq_some_iff.mp hfind
    rw [Code.bind_of_next (inMemory_next hsearch), hfirst]
    simp only
    split
    · refine Follows.read (m := ⟨w, m.mem⟩) rfl rfl fun msg w' _ => ?_
      exact hand_follows (m := ⟨w', m.mem⟩) hcell rfl rfl ..
    · exact hand_follows (m := ⟨w, m.mem⟩) hcell rfl rfl ..

theorem emqChannelReceive_follows (header : ProtocolEventHeader) (extended : Bool) :
    Follows m.mem (Option.Rel (Hands m.mem)) (Events.emqChannelReceive k header extended m.world)
      (emqChannelReceive k client header extended m) := by
  unfold Events.emqChannelReceive emqChannelReceive
  refine Follows.read rfl rfl fun name w hname => ?_
  obtain ⟨_, _, hclient, _⟩ := MessageBounds.readArray_some (by decide) hname
  refine Follows.read (m := ⟨w, m.mem⟩) rfl rfl fun topic w1 htopic => ?_
  obtain ⟨_, _, hclient1, _⟩ := MessageBounds.readArray_some (by decide) htopic
  refine Follows.read (m := ⟨w1, m.mem⟩) rfl rfl fun pattern w2 hpattern => ?_
  obtain ⟨_, hclient2, _⟩ := MessageBounds.readPattern_some hpattern
  have hkept' : Kept client ⟨w2, m.mem⟩ := hkept.congr (by
    rw [registry, registry, hclient2, hclient1, hclient])
  simp only [Code.bind_reads]
  rcases hkept'.search .channels name with ⟨hsearch, hfind⟩ | ⟨b, cell, hsearch, hcell, hfind⟩
  · rw [find_channel, Option.map_eq_none_iff] at hfind
    rw [Code.bind_of_next (inMemory_next hsearch), hfind]
    exact .next none none w2 .none
  · rw [find_channel] at hfind
    obtain ⟨subscription, hfirst, rfl⟩ := Option.map_eq_some_iff.mp hfind
    rw [Code.bind_of_next (inMemory_next hsearch), hfirst]
    simp only
    refine Follows.read (m := ⟨w2, m.mem⟩) rfl rfl fun msg w' _ => ?_
    exact hand_follows (m := ⟨w', m.mem⟩) hcell rfl rfl ..

theorem receiveBody_follows (header : ProtocolEventHeader) :
    Follows m.mem (Option.Rel (Hands m.mem)) (Events.receiveBody k header m.world)
      (receiveBody k client header m) := by
  unfold Events.receiveBody receiveBody
  split
  · exact emqQueueReceive_follows hkept header
  · split
    · exact emqChannelReceive_follows hkept header false
    · exact emqChannelReceive_follows hkept header true

theorem receiveEvent_follows :
    Follows m.mem (Hands m.mem) (Events.receiveEvent k m.world) (receiveEvent k client m) := by
  unfold Events.receiveEvent receiveEvent
  refine (Follows.onWorld _ m).bind fun header header' w hheader heq => ?_
  subst heq
  obtain ⟨_, _, hclient, _⟩ := MessageBounds.readEventHeader_next hheader
  have hkept' : Kept client ⟨w, m.mem⟩ := hkept.congr (by rw [registry, registry, hclient])
  refine (receiveBody_follows (m := ⟨w, m.mem⟩) hkept' header).bind
    fun delivery handed w' _ hhands => ?_
  cases hhands with
  | none => exact .error w'
  | some hhands => exact .next _ _ w' hhands

end Receiving

/-- The strings behind the pointers. -/
abbrev Found (mem : Memory Resource) : List CharPtr → List CString → Prop :=
  List.Forall₂ fun name s => (name.resolve mem).map contents = some s

section Looking

variable {mem : Memory Resource} {call : Call} {c : Command} {name data : CharPtr}
  {found : List CString} {edit : Edit}

theorem Found.one (h : Found mem [name] found) :
    ∃ array, name.resolve mem = some array ∧ found = [contents array] := by
  obtain ⟨s, rest, hname, hrest, rfl⟩ := List.forall₂_cons_left_iff.mp h
  obtain ⟨array, hresolve, rfl⟩ := Option.map_eq_some_iff.mp hname
  obtain rfl := List.forall₂_nil_left_iff.mp hrest
  exact ⟨array, hresolve, rfl⟩

theorem Found.two (h : Found mem [name, data] found) :
    ∃ array bytes, name.resolve mem = some array ∧ data.resolve mem = some bytes ∧
      found = [contents array, contents bytes] := by
  obtain ⟨s, rest, hname, hrest, rfl⟩ := List.forall₂_cons_left_iff.mp h
  obtain ⟨array, hresolve, rfl⟩ := Option.map_eq_some_iff.mp hname
  obtain ⟨bytes, hdata, rfl⟩ := Found.one hrest
  exact ⟨array, bytes, hresolve, hdata, rfl⟩

/-- A request that is not refused was made of the strings behind all pointers. -/
theorem look_accepts {make : List CString → Command} {names : List CharPtr} :
    ∀ {done given : List CString}, look mem make done names = some given →
      Accepts (make given) → ∃ found, given = done ++ found ∧ Found mem names found := by
  induction names with
  | nil =>
      intro done given h _
      obtain rfl := Option.some.inj h
      exact ⟨[], (List.append_nil done).symm, .nil⟩
  | cons name names ih =>
      intro done given h haccepts
      rw [look] at h
      split at h
      · obtain ⟨array, hresolve, hlook⟩ := Option.bind_eq_some_iff.mp h
        obtain ⟨found, rfl, hfound⟩ := ih hlook haccepts
        refine ⟨contents array :: found, by simp, .cons ?_ hfound⟩
        rw [hresolve, Option.map_some]
      · rename_i hrefused
        obtain rfl := Option.some.inj h
        exact absurd haccepts hrefused

theorem Call.statusOnly (h : call.command mem = some c) : StatusOnly c := by
  obtain ⟨given, _, rfl⟩ := Option.map_eq_some_iff.mp h
  cases call with
  | other names make hmake => exact (hmake given).1
  | _ => rfl

theorem Call.commit_nothing (h : call.command mem = some c) (hedit : call.edit = none) :
    commit c = .nothing := by
  obtain ⟨given, _, rfl⟩ := Option.map_eq_some_iff.mp h
  cases call with
  | other names make hmake => exact (hmake given).2
  | _ => cases hedit

theorem Call.parts_none (h : call.command mem = some c) (hedit : call.edit = some edit) :
    parts c = none := by
  obtain ⟨given, _, rfl⟩ := Option.map_eq_some_iff.mp h
  cases call with
  | other => cases hedit
  | _ => rfl

theorem Call.edit_commit (h : call.command mem = some c) (haccepts : Accepts c)
    (hedit : call.edit = some edit) : edit.commit mem = some (commit c) := by
  obtain ⟨given, hlook, rfl⟩ := Option.map_eq_some_iff.mp h
  obtain ⟨_, rfl, hfound⟩ := look_accepts hlook haccepts
  cases call with
  | queueSubscribe name flags callback =>
      cases hedit
      obtain ⟨array, hname, rfl⟩ := Found.one hfound
      rw [Edit.commit, hname]
      rfl
  | queueUnsubscribe name =>
      cases hedit
      obtain ⟨array, hname, rfl⟩ := Found.one hfound
      rw [Edit.commit, hname]
      rfl
  | other => cases hedit
  | _ =>
      cases hedit
      obtain ⟨array, bytes, hname, hdata, rfl⟩ := Found.two hfound
      simp only [Edit.commit, hname, hdata]
      rfl

end Looking

section Calling

variable {k : Kernel} (hk : Kernel.Reliable k) {client : Nat} {m : Machine} {call : Call}

theorem issue_quietly {c : Command} (hstatus : StatusOnly c) {w : World}
    (hready : Ready w.client) (hnoack : w.client.noack = true) (hmallocs : Kernel.MallocsOk k) :
    ∃ reply w', issue k c w = .returned reply w' ∧ Ready w'.client ∧ w'.input = w.input ∧
      told w'.trace = told w.trace ∧
      (reply = .status .err ∧ registry w' = registry w ∨
        Accepts c ∧ reply = .status .ok ∧
          registry w' = Lifetimes.Registry.applied (commit c) (registry w)) := by
  obtain ⟨check, done, hfinish⟩ := acknowledges hstatus
  obtain ⟨reply, s, hexec⟩ := exec_returns (k := k) hstatus hready
  have hissue : issue k c w = .returned reply { s with trace := s.trace ++ [.issued c reply] } := by
    rw [issue, hexec]
  obtain ⟨hready', hinput, htold⟩ := Delivery.quietStep_keeps hmallocs
    (.issue c reply hstatus hnoack hissue) hready
  refine ⟨reply, _, hissue, hready', hinput, htold, ?_⟩
  obtain ⟨_, _, _, hend⟩ := exec_returned hready hexec
  rw [hfinish] at hend
  rcases hend with ⟨hreply, _, hqueues, hchannels⟩ |
    ⟨haccepts, _, hreply, _, _, hcommitted, hqueues, hchannels⟩
  · refine .inl ⟨hreply, ?_⟩
    rw [registry, hqueues, hchannels]
    rfl
  · refine .inr ⟨haccepts, hreply, ?_⟩
    rw [registry, hqueues, hchannels, hcommitted hmallocs]
    rfl

structure Unmoved (client : Nat) (m m' : Machine) : Prop where
  ready : Ready m'.world.client
  kept : Kept client m'
  input : m'.world.input = m.world.input
  told : told m'.world.trace = told m.world.trace

/-- The strings that the call looks at are there, and an unsubscribing call that is not refused
does not free the name that it goes on to compare. -/
def Call.Safe (client : Nat) (mem : Memory Resource) (call : Call) : Prop :=
  ∃ c, call.command mem = some c ∧ (Accepts c → ∀ edit ∈ call.edit, ¬ edit.Dangles client mem)

include hk

theorem Call.run_safe (hready : Ready m.world.client) (hkept : Kept client m)
    (hnoack : m.world.client.noack = true) (hsafe : Call.Safe client m.mem call) :
    ∃ m', call.run k client m = .next () m' ∧ Unmoved client m m' := by
  obtain ⟨c, hcommand, hsafe⟩ := hsafe
  obtain ⟨reply, w, hissue, hready', hinput, htold, hend⟩ :=
    issue_quietly (Call.statusOnly hcommand) hready hnoack hk.mallocs
  unfold Call.run
  rw [hcommand]
  simp only [hissue]
  cases hedit : call.edit with
  | none =>
      have hregistry : registry w = registry m.world := by
        rcases hend with ⟨_, hregistry⟩ | ⟨_, _, hregistry⟩
        · exact hregistry
        · rw [hregistry, Call.commit_nothing hcommand hedit]
          rfl
      exact ⟨_, rfl, hready', hkept.congr hregistry, hinput, htold⟩
  | some edit =>
      rcases hend with ⟨rfl, hregistry⟩ | ⟨haccepts, rfl, hregistry⟩
      · exact ⟨_, rfl, hready', hkept.congr hregistry, hinput, htold⟩
      · obtain ⟨place, fd, rest, rfl, hkeeps, hstock⟩ := hkept
        obtain ⟨mem', place', hrun, hedited⟩ := @Edit.run_spec always _ _ _ _ _ _ _ hkeeps hstock
          (Call.edit_commit hcommand haccepts hedit) (commit_fits haccepts.2)
          (hsafe haccepts edit hedit)
        have hkeeps' := hedited.keeps
        have hstock' := hedited.traded.stock
        rw [after_always, ← hregistry] at hkeeps'
        rw [List.append_assoc] at hstock'
        refine ⟨⟨w, mem'⟩, ?_, hready', ?_, hinput, htold⟩
        · simp only [if_true]
          rw [Code.bind_of_next (inMemory_next (m := ⟨w, m.mem⟩) hrun)]
          rfl
        · exact ⟨place', fd, _, hedited.client, hkeeps', hstock'⟩

theorem Call.run_dangling (hready : Ready m.world.client) (hkept : Kept client m)
    (hnoack : m.world.client.noack = true) (hnotSafe : ¬ Call.Safe client m.mem call) :
    ∃ m', call.run k client m = .fault .memory m' := by
  unfold Call.run
  cases hcommand : call.command m.mem with
  | none => exact ⟨m, rfl⟩
  | some c =>
      obtain ⟨haccepts, edit, hedit, hdangles⟩ :
          Accepts c ∧ ∃ edit ∈ call.edit, edit.Dangles client m.mem := by
        by_contra hnone
        refine hnotSafe ⟨c, hcommand, fun haccepts edit hedit hdangles => ?_⟩
        exact hnone ⟨haccepts, edit, hedit, hdangles⟩
      have hedit : call.edit = some edit := hedit
      have hparts := Call.parts_none hcommand hedit
      have hquiet : Finish.awaits (finish c) m.world.client.noack = false := by
        rw [hnoack]
        exact Call.statusOnly hcommand
      obtain ⟨s, hexec, _⟩ := Completion.unanswered_completes hk hready haccepts
        (by rw [hparts]; exact id) hquiet
      obtain ⟨w, hissue⟩ : ∃ w, issue k c m.world = .returned (.status .ok) w :=
        ⟨_, by rw [issue, hexec]⟩
      obtain ⟨place, fd, rest, rfl, hkeeps, hstock⟩ := hkept
      have hrun : edit.run always place.client m.mem = none :=
        Edit.run_dangling hkeeps hstock hdangles
      simp only [hissue, hedit, if_true]
      exact ⟨_, Code.bind_of_fault (inMemory_fault (m := ⟨w, m.mem⟩) hrun) _⟩

def Muted (m : Machine) : Move → Prop
  | .call _ => m.world.client.noack = true
  | _ => True

def Careful (client : Nat) (m : Machine) : Move → Prop
  | .call made => Call.Safe client m.mem made
  | _ => True

/-- Each move meets the condition when its turn comes. -/
def Throughout (k : Kernel) (client : Nat) (P : Machine → Move → Prop) :
    List Move → Machine → Prop
  | [], _ => True
  | move :: moves, m =>
      P m move ∧ ∀ m', move.run k client m = .next () m' → Throughout k client P moves m'

omit hk in
theorem Unmoved.trans {m1 m2 : Machine} (h : Unmoved client m m1) (h' : Unmoved client m1 m2) :
    Unmoved client m m2 where
  ready := h'.ready
  kept := h'.kept
  input := h'.input.trans h.input
  told := h'.told.trans h.told

theorem Move.run_course {move : Move} (hready : Ready m.world.client) (hkept : Kept client m)
    (hmuted : Muted m move) :
    (Careful client m move ∧ ∃ m', move.run k client m = .next () m' ∧ Unmoved client m m') ∨
      (¬ Careful client m move ∧ ∃ m', move.run k client m = .fault .memory m') := by
  cases move with
  | call made =>
      by_cases hsafe : Call.Safe client m.mem made
      · exact .inl ⟨hsafe, Call.run_safe hk hready hkept hmuted hsafe⟩
      · exact .inr ⟨hsafe, Call.run_dangling hk hready hkept hmuted hsafe⟩
  | noackEnable => exact .inl ⟨trivial, _, rfl, hready, hkept.congr rfl, rfl, rfl⟩
  | noackDisable => exact .inl ⟨trivial, _, rfl, hready, hkept.congr rfl, rfl, rfl⟩

/-- Careful moves come to their end, and the first careless one is undefined. -/
theorem runMoves_course (moves : List Move) :
    ∀ {m : Machine}, Ready m.world.client → Kept client m → Throughout k client Muted moves m →
      (Throughout k client (Careful client) moves m ∧
        ∃ m', runMoves k client moves m = .next () m' ∧ Unmoved client m m') ∨
      (¬ Throughout k client (Careful client) moves m ∧
        ∃ m', runMoves k client moves m = .fault .memory m') := by
  induction moves with
  | nil =>
      intro m hready hkept _
      exact .inl ⟨trivial, m, rfl, hready, hkept, rfl, rfl⟩
  | cons move moves ih =>
      intro m hready hkept hmuted
      rcases Move.run_course hk hready hkept hmuted.1 with
        ⟨hcareful, m1, hrun, hunmoved⟩ | ⟨hcareless, m1, hrun⟩
      · have hcourse := ih hunmoved.ready hunmoved.kept (hmuted.2 m1 hrun)
        have hmoves : runMoves k client (move :: moves) m = runMoves k client moves m1 :=
          Code.bind_of_next hrun _
        have hthroughout : Throughout k client (Careful client) (move :: moves) m ↔
            Throughout k client (Careful client) moves m1 := by
          refine ⟨fun h => h.2 m1 hrun, fun h => ⟨hcareful, fun m2 hrun2 => ?_⟩⟩
          rw [hrun] at hrun2
          cases hrun2
          exact h
        rw [hmoves, hthroughout]
        rcases hcourse with ⟨hmore, m', hrest, hunmoved'⟩ | hfault
        · exact .inl ⟨hmore, m', hrest, hunmoved.trans hunmoved'⟩
        · exact .inr hfault
      · exact .inr ⟨fun h => hcareless h.1, m1, Code.bind_of_fault hrun _⟩

end Calling

section Looping

variable {k : Kernel} {client : Nat} {behaviour : Behaviour} {m : Machine}

theorem isIdle_next (hkept : Kept client m) :
    isIdle client m = .next (decide (Idle m.world.client)) m := by
  have hqueues : lengthOf client .queues m.mem =
      some (m.world.client.queueSubscriptions.length, m.mem) := by
    rw [hkept.lengthOf, Registry.cells, List.length_map]
    rfl
  have hchannels : lengthOf client .channels m.mem =
      some (m.world.client.channelSubscriptions.length, m.mem) := by
    rw [hkept.lengthOf, Registry.cells, List.length_map]
    rfl
  rw [isIdle, Code.bind_of_next (inMemory_next hqueues)]
  by_cases hlength : m.world.client.queueSubscriptions.length = 0
  · rw [if_pos hlength, Code.bind_of_next (inMemory_next hchannels)]
    simp only [Idle, hlength, true_and]
    rfl
  · rw [if_neg hlength]
    simp only [Idle, hlength, false_and]
    rfl

theorem dispatch_eq (header : ProtocolEventHeader) :
    dispatch k client behaviour header =
      receiveBody k client header >>= deliver k client behaviour := by
  unfold dispatch receiveBody
  split
  · rfl
  · split <;> rfl

theorem emqProcessLoop_idle (hkept : Kept client m) (hidle : Idle m.world.client) (fuel : Nat) :
    emqProcessLoop k client behaviour (fuel + 1) m = .next () m := by
  rw [emqProcessLoop, Code.bind_of_next (isIdle_next hkept), decide_eq_true hidle, if_pos rfl]
  rfl

theorem emqProcessLoop_active (hkept : Kept client m) (hactive : ¬ Idle m.world.client)
    (fuel : Nat) : emqProcessLoop k client behaviour (fuel + 1) m =
      (receiveEvent k client >>= fun h => deliver k client behaviour (some h) >>= fun status =>
        if status = 1 then pure ()
        else if status = -1 then Code.raise
        else emqProcessLoop k client behaviour fuel) m := by
  rw [emqProcessLoop, Code.bind_of_next (isIdle_next hkept), decide_eq_false hactive,
    if_neg Bool.false_ne_true, receiveEvent, Code.bind_bind]
  cases hheader : onWorld (readEventHeader k) m with
  | error s => rw [Code.bind_of_error hheader, Code.bind_of_error hheader]
  | fault reason s => rw [Code.bind_of_fault hheader, Code.bind_of_fault hheader]
  | next header s =>
      rw [Code.bind_of_next hheader, Code.bind_of_next hheader, dispatch_eq, Code.bind_bind,
        Code.bind_bind]
      cases hbody : receiveBody k client header s with
      | error s' => rw [Code.bind_of_error hbody, Code.bind_of_error hbody]
      | fault reason s' => rw [Code.bind_of_fault hbody, Code.bind_of_fault hbody]
      | next handed s' =>
          rw [Code.bind_of_next hbody, Code.bind_of_next hbody]
          cases handed with
          | none => rfl
          | some h => rfl

/-- The loop passes control to a callback, and this is the state in which it gets it. -/
structure Gives (k : Kernel) (client : Nat) (m : Machine) (h : Handed) (m' : Machine) : Prop where
  active : ¬ Idle m.world.client
  received : ∃ s name, receiveEvent k client m = .next h s ∧ h.name.resolve s.mem = some name ∧
    m' = s.give h name

/-- The callback returns zero. -/
def Turn (k : Kernel) (client : Nat) (behaviour : Behaviour) (m m' : Machine) : Prop :=
  ∃ h m1, Gives k client m h m1 ∧ (behaviour h m1).2 = 0 ∧
    runMoves k client (behaviour h m1).1 m1 = .next () m'

abbrev Heads (k : Kernel) (client : Nat) (behaviour : Behaviour) : Machine → Machine → Prop :=
  Relation.ReflTransGen (Turn k client behaviour)

/-- Whenever the loop is ready for an event, one of the subscriptions has the name of the event
that arrives, and the callbacks return zero and make calls only while acknowledgements are off. -/
structure Attended (k : Kernel) (client : Nat) (behaviour : Behaviour) (m : Machine) : Prop where
  registered : ∀ m1, Heads k client behaviour m m1 → ¬ Idle m1.world.client →
    ∀ (e : Event) rest, m1.world.input = e.bytes ++ rest → e.subscriber m1.world.client ≠ none
  quiet : ∀ m1, Heads k client behaviour m m1 → ∀ h m2, Gives k client m1 h m2 →
    Throughout k client Muted (behaviour h m2).1 m2 ∧ (behaviour h m2).2 = 0

/-- Every callback that gets control makes careful calls only. -/
def AllCareful (k : Kernel) (client : Nat) (behaviour : Behaviour) (m : Machine) : Prop :=
  ∀ m1, Heads k client behaviour m m1 → ∀ h m2, Gives k client m1 h m2 →
    Throughout k client (Careful client) (behaviour h m2).1 m2

theorem Gives.unique {h h' : Handed} {m1 m2 : Machine} (hgives : Gives k client m h m1)
    (hgives' : Gives k client m h' m2) : h' = h ∧ m2 = m1 := by
  obtain ⟨s, name, hreceive, hname, rfl⟩ := hgives.received
  obtain ⟨s', name', hreceive', hname', rfl⟩ := hgives'.received
  rw [hreceive] at hreceive'
  cases hreceive'
  rw [hname] at hname'
  cases hname'
  exact ⟨rfl, rfl⟩

theorem Turn.unique {m1 m2 : Machine} (hturn : Turn k client behaviour m m1)
    (hturn' : Turn k client behaviour m m2) : m2 = m1 := by
  obtain ⟨h, s, hgives, _, hmoves⟩ := hturn
  obtain ⟨h', s', hgives', _, hmoves'⟩ := hturn'
  obtain ⟨rfl, rfl⟩ := hgives.unique hgives'
  rw [hmoves] at hmoves'
  cases hmoves'
  rfl

theorem Attended.turn {m1 : Machine} (hattended : Attended k client behaviour m)
    (hturn : Turn k client behaviour m m1) : Attended k client behaviour m1 where
  registered := fun m2 hhead => hattended.registered m2 (.head hturn hhead)
  quiet := fun m2 hhead => hattended.quiet m2 (.head hturn hhead)

theorem allCareful_turn {h : Handed} {m1 m2 : Machine} (hgives : Gives k client m h m1)
    (hturn : Turn k client behaviour m m2) :
    AllCareful k client behaviour m ↔
      Throughout k client (Careful client) (behaviour h m1).1 m1 ∧
        AllCareful k client behaviour m2 := by
  constructor
  · intro hcareful
    exact ⟨hcareful m .refl h m1 hgives, fun m3 hhead => hcareful m3 (.head hturn hhead)⟩
  · rintro ⟨hfirst, hcareful⟩ m3 hhead h' m4 hgives'
    rcases Relation.ReflTransGen.cases_head hhead with rfl | ⟨m5, hturn', hhead'⟩
    · obtain ⟨rfl, rfl⟩ := hgives.unique hgives'
      exact hfirst
    · obtain rfl := hturn.unique hturn'
      exact hcareful m3 hhead' h' m4 hgives'

section Delivering

variable {h : Handed} {s s' : Machine} {name : List UInt8}
  (hname : h.name.resolve s.mem = some name)

include hname

theorem invoke_eq : invoke k client behaviour h s =
    (runMoves k client (behaviour h (s.give h name)).1 >>= fun _ =>
      pure (behaviour h (s.give h name)).2) (s.give h name) := by
  rw [invoke, Code.bind_of_next (inMemory_next (CharPtr.read_eq hname)), Code.bind_modify,
    Code.bind_reads]

theorem deliver_zero
    (hmoves : runMoves k client (behaviour h (s.give h name)).1 (s.give h name) = .next () s')
    (hzero : (behaviour h (s.give h name)).2 = 0) {f : Int → Reentrant Unit} :
    (deliver k client behaviour (some h) >>= f) s = f 0 s' := by
  have hinvoke : invoke k client behaviour h s = .next 0 s' := by
    rw [invoke_eq hname, Code.bind_of_next hmoves, hzero]
    rfl
  rw [deliver, Code.bind_bind, Code.bind_of_next hinvoke]
  rfl

theorem deliver_fault {reason : Violation}
    (hmoves : runMoves k client (behaviour h (s.give h name)).1 (s.give h name) =
      .fault reason s') :
    deliver k client behaviour (some h) s = .fault reason s' := by
  have hinvoke : invoke k client behaviour h s = .fault reason s' := by
    rw [invoke_eq hname, Code.bind_of_fault hmoves]
  exact Code.bind_of_fault hinvoke _

end Delivering

section Stream

variable (hk : Kernel.Reliable k)

include hk

/-- An attended event is handed to a callback that is told of it. -/
theorem gives_of_event (hattended : Attended k client behaviour m) (hkept : Kept client m)
    (hactive : ¬ Idle m.world.client) {e : Event} {rest : List UInt8}
    (hinput : m.world.input = e.bytes ++ rest) :
    ∃ h s name, receiveEvent k client m = .next h s ∧ h.name.resolve s.mem = some name ∧
      Gives k client m h (s.give h name) ∧ (s.give h name).world.client = m.world.client ∧
      Kept client (s.give h name) ∧ (s.give h name).world.input = rest ∧
      told (s.give h name).world.trace = told m.world.trace ++ [e.args] := by
  have hregistered := hattended.registered m .refl hactive e rest hinput
  have hfollows := receiveEvent_follows (k := k) hkept
  rcases receiveEvent_event hk.reads hk.mallocs hinput with
    ⟨callback, reads, mallocs, _, hreceive⟩ | ⟨reads, hnone, _⟩
  · rw [hreceive] at hfollows
    generalize hhanded : receiveEvent k client m = exit at hfollows
    cases hfollows with
    | next _ h w hhands =>
        obtain ⟨name, hname, hdelivery⟩ := hhands
        refine ⟨h, _, name, rfl, hname, ⟨hactive, _, name, hhanded, hname, rfl⟩, rfl,
          hkept.congr rfl, ?_, ?_⟩
        · change List.drop _ m.world.input = rest
          rw [hinput, List.drop_left]
        · change told (invoked (h.callback, h.args name) _).trace = _
          rw [hdelivery, told_invoked]
          rfl
  · exact absurd hnone hregistered

omit hk in
theorem allCareful_of_stuck (hstuck : ∀ h m1, ¬ Gives k client m h m1) :
    AllCareful k client behaviour m := by
  intro m1 hhead h m2 hgives
  rcases Relation.ReflTransGen.cases_head hhead with rfl | ⟨_, ⟨h', s, hgives', _⟩, _⟩
  · exact absurd hgives (hstuck h m2)
  · exact absurd hgives' (hstuck h' s)

omit hk in
theorem receiveEvent_end (hkept : Kept client m) (hinput : m.world.input = []) :
    ∃ reads, receiveEvent k client m =
      .error ⟨withError .read (received m.world 0 reads (m.world.failures + 1)), m.mem⟩ := by
  obtain ⟨reads, hreceive⟩ := Delivery.receiveEvent_nil (k := k) hinput
  have hfollows := receiveEvent_follows (k := k) hkept
  rw [hreceive] at hfollows
  generalize receiveEvent k client m = exit at hfollows
  cases hfollows
  exact ⟨reads, rfl⟩

/-- How the loop ends in `m1`, with the first `n` events delivered: nothing is subscribed to
any more, or the stream is at its end. -/
def Ends (k : Kernel) (client : Nat) (behaviour : Behaviour) (events : List Event) (m : Machine)
    (exit : Exit Machine Violation Unit) (n : Nat) (m1 : Machine) : Prop :=
  n ≤ events.length ∧ Heads k client behaviour m m1 ∧
    told m1.world.trace = told m.world.trace ++ (events.take n).map Event.args ∧
    m1.world.input = stream Event.bytes (events.drop n) ∧
    ((Idle m1.world.client ∧ exit = .next () m1) ∨
      (¬ Idle m1.world.client ∧ n = events.length ∧ ∃ reads, exit = .error
        ⟨withError .read (received m1.world 0 reads (m1.world.failures + 1)), m1.mem⟩))

omit hk in
theorem Ends.turn {e : Event} {events : List Event} {m1 m2 : Machine} {n : Nat}
    {exit : Exit Machine Violation Unit} (hturn : Turn k client behaviour m m1)
    (htold : told m1.world.trace = told m.world.trace ++ [e.args])
    (h : Ends k client behaviour events m1 exit n m2) :
    Ends k client behaviour (e :: events) m exit (n + 1) m2 := by
  obtain ⟨hn, hhead, htold', hinput, hexit⟩ := h
  refine ⟨by simpa using hn, .head hturn hhead, ?_, hinput, by simpa using hexit⟩
  rw [htold', htold]
  simp

omit hk in
theorem Ends.idle {events : List Event} (hidle : Idle m.world.client)
    (hinput : m.world.input = stream Event.bytes events) :
    Ends k client behaviour events m (.next () m) 0 m :=
  ⟨Nat.zero_le _, .refl, by simp, hinput, .inl ⟨hidle, rfl⟩⟩

/-- The loop over a stream of events hands them over one by one, unless a callback is
careless. -/
theorem loop_course (events : List Event) :
    ∀ (fuel : Nat) {m : Machine}, events.length < fuel → Attended k client behaviour m →
      Ready m.world.client → Kept client m → m.world.input = stream Event.bytes events →
      (AllCareful k client behaviour m ∧ ∃ n m1, Ends k client behaviour events m
        (emqProcessLoop k client behaviour fuel m) n m1) ∨
      (¬ AllCareful k client behaviour m ∧
        ∃ m', emqProcessLoop k client behaviour fuel m = .fault .memory m') := by
  induction events with
  | nil =>
      intro fuel m hfuel hattended hready hkept hinput
      obtain ⟨fuel, rfl⟩ := Nat.exists_eq_add_of_lt hfuel
      by_cases hidle : Idle m.world.client
      · rw [emqProcessLoop_idle hkept hidle]
        exact .inl ⟨allCareful_of_stuck fun h m1 hgives => hgives.active hidle, 0, m,
          .idle hidle hinput⟩
      · obtain ⟨reads, hreceive⟩ := receiveEvent_end (k := k) hkept hinput
        rw [emqProcessLoop_active hkept hidle, Code.bind_of_error hreceive]
        refine .inl ⟨allCareful_of_stuck fun h m1 hgives => ?_, 0, m, Nat.zero_le _, .refl,
          by simp, hinput, .inr ⟨hidle, rfl, reads, rfl⟩⟩
        obtain ⟨s, name, hreceive', _⟩ := hgives.received
        rw [hreceive] at hreceive'
        cases hreceive'
  | cons e events ih =>
      intro fuel m hfuel hattended hready hkept hinput
      obtain ⟨fuel, rfl⟩ : ∃ fuel', fuel = fuel' + 1 := ⟨fuel - 1, by omega⟩
      by_cases hidle : Idle m.world.client
      · rw [emqProcessLoop_idle hkept hidle]
        exact .inl ⟨allCareful_of_stuck fun h m1 hgives => hgives.active hidle, 0, m,
          .idle hidle hinput⟩
      · obtain ⟨h, s, name, hreceive, hname, hgives, hclient, hkept1, hinput1, htold1⟩ :=
          gives_of_event hk hattended hkept hidle hinput
        obtain ⟨hmuted, hzero⟩ := hattended.quiet m .refl h _ hgives
        have hready1 : Ready (s.give h name).world.client := by rwa [hclient]
        rw [emqProcessLoop_active hkept hidle, Code.bind_of_next hreceive]
        rcases runMoves_course hk _ hready1 hkept1 hmuted with
          ⟨hcareful, m2, hmoves, hunmoved⟩ | ⟨hcareless, m2, hmoves⟩
        · have hturn : Turn k client behaviour m m2 := ⟨h, _, hgives, hzero, hmoves⟩
          have hloop := ih fuel (by simpa using hfuel) (hattended.turn hturn) hunmoved.ready
            hunmoved.kept (hunmoved.input.trans hinput1)
          rw [deliver_zero hname hmoves hzero, allCareful_turn hgives hturn]
          rcases hloop with ⟨hmore, n, m3, hends⟩ | ⟨hless, m', hfault⟩
          · exact .inl ⟨⟨hcareful, hmore⟩, n + 1, m3,
              hends.turn hturn (hunmoved.told.trans htold1)⟩
          · exact .inr ⟨fun hboth => hless hboth.2, m', hfault⟩
        · refine .inr ⟨fun hall => hcareless (hall m .refl h _ hgives), m2, ?_⟩
          exact Code.bind_of_fault (deliver_fault hname hmoves) _

end Stream

def cleared (m : Machine) : Machine := { m with world := withError .none m.world }

theorem emqProcess_eq (k : Kernel) (client : Nat) (behaviour : Behaviour) (m : Machine) :
    emqProcess k client behaviour m =
      match emqProcessLoop k client behaviour (m.world.input.length + 1) (cleared m) with
      | .next _ s => .returned .ok (setStatus .ok s)
      | .error s => .returned .err (setStatus .err s)
      | .fault reason s => .fault reason s := by
  have hclear : onWorld clearError m = .next () (cleared m) := onWorld_next (clearError_apply _)
  have hinput : (cleared m).world.input = m.world.input := withError_input ..
  rw [emqProcess, Code.body, Code.bind_of_next hclear, Code.bind_reads, hinput]
  cases hloop : emqProcessLoop k client behaviour (m.world.input.length + 1) (cleared m) with
  | next value s =>
      rw [Code.bind_of_next hloop]
      rfl
  | error s => rw [Code.bind_of_error hloop]
  | fault reason s => rw [Code.bind_of_fault hloop]

/-- Over a stream of events that are attended to, `emq_process` delivers them in the order of
the stream, each to one callback with its own name, topic, pattern and data, until nothing is
subscribed to or the stream ends, iff all callbacks make careful calls only. -/
theorem emqProcess_delivers_iff (k : Kernel) (hk : Kernel.Reliable k) (client : Nat)
    (behaviour : Behaviour) (m : Machine) (hready : Ready m.world.client) (hkept : Kept client m)
    (events : List Event) (hinput : m.world.input = stream Event.bytes events)
    (hattended : Attended k client behaviour (cleared m)) :
    (∃ n status m', n ≤ events.length ∧ emqProcess k client behaviour m = .returned status m' ∧
        told m'.world.trace = told m.world.trace ++ (events.take n).map Event.args ∧
        m'.world.input = stream Event.bytes (events.drop n) ∧
        ((status = .ok ∧ ∃ m1, Heads k client behaviour (cleared m) m1 ∧
            Idle m1.world.client ∧ m' = setStatus .ok m1) ∨
          (status = .err ∧ n = events.length ∧ ¬ Idle m'.world.client ∧
            m'.world.client.error = emqErrorArray .read))) ↔
      AllCareful k client behaviour (cleared m) := by
  have hfuel : events.length < m.world.input.length + 1 := by
    rw [hinput]
    exact Nat.lt_succ_of_le (length_le_stream Event.bytes (fun e => by
      rw [e.bytes_length]
      omega) events)
  rw [emqProcess_eq]
  rcases loop_course hk events _ hfuel hattended hready (hkept.congr rfl) hinput with
    ⟨hcareful, n, m1, hn, hhead, htold, hinput1, hend⟩ | ⟨hcareless, m1, hfault⟩
  · refine iff_of_true ?_ hcareful
    rcases hend with ⟨hidle, hloop⟩ | ⟨hactive, hall, reads, hloop⟩
    · exact ⟨n, .ok, setStatus .ok m1, hn, by rw [hloop], htold, hinput1,
        .inl ⟨rfl, m1, hhead, hidle, rfl⟩⟩
    · exact ⟨n, .err, setStatus .err
          ⟨withError .read (received m1.world 0 reads (m1.world.failures + 1)), m1.mem⟩, hn,
        by rw [hloop], htold, hinput1, .inr ⟨rfl, hall, hactive, rfl⟩⟩
  · refine iff_of_false ?_ hcareless
    rintro ⟨n, status, m', _, hreturned, _⟩
    rw [hfault] at hreturned
    cases hreturned

theorem registered_of_subscriber {w : World} (h : Events.subscriber (.parse w.input) w.client
    ((w.input.drop 8).take 64) ≠ none) (e : Event) (rest : List UInt8)
    (hinput : w.input = e.bytes ++ rest) : e.subscriber w.client ≠ none := by
  intro hnone
  rw [hinput, e.parse_bytes, e.take_name, e.subscriber_header, hnone] at h
  exact h rfl

def turned (k : Kernel) (client : Nat) (behaviour : Behaviour) : Reentrant Unit := do
  let h ← receiveEvent k client
  let _ ← invoke k client behaviour h

theorem Turn.turned {m' : Machine} (hturn : Turn k client behaviour m m') :
    turned k client behaviour m = .next () m' := by
  obtain ⟨h, _, ⟨_, s, name, hreceive, hname, rfl⟩, _, hmoves⟩ := hturn
  have hinvoke : invoke k client behaviour h s =
      .next (behaviour h (s.give h name)).2 m' := by
    rw [invoke_eq hname, Code.bind_of_next hmoves]
    rfl
  rw [Reentry.turned, Code.bind_of_next hreceive, Code.bind_of_next hinvoke]
  rfl

end Looping

def queueG : CString := ⟨[103], by decide⟩

def queueH : CString := ⟨[104], by decide⟩

def notifyG : Event := .notify ⟨charArray 64 queueG, by decide, by decide⟩

def notifyH : Event := .notify ⟨charArray 64 queueH, by decide, by decide⟩

def connected : Machine where
  world := emqNoackEnable (World.connected [] (stream Event.bytes [notifyH, notifyG]))
  mem := ((Transport.tcp.connect always ⟨true, true, true, true, true⟩ .empty).map
    Prod.snd).getD .empty

def subscribedG : Machine :=
  (Call.run generous 0 (.queueSubscribe (.string queueG) 0 1) connected).state

def subscribedH : Machine :=
  (Call.run generous 0 (.queueSubscribe (.string queueH) 0 2) subscribedG).state

theorem kept_connected : Kept 0 connected := by
  obtain ⟨mem, fd, hconnect, _, hconnected, hstock⟩ := first_connection
  have hmem : connected.mem = mem := by
    rw [connected, hconnect]
    rfl
  rw [← hmem] at hconnected hstock
  exact ⟨site .empty, some fd, _, rfl, Lifetimes.keeps_site hconnected, hstock⟩

theorem eq_next_state {x : Reentrant Unit} {m : Machine} (h : (x m).isNext = true) :
    x m = .next () (x m).state := by
  obtain ⟨value, m', hx⟩ := Exit.eq_next h
  rw [hx]
  rfl

theorem Call.run_next {k : Kernel} (hk : Kernel.Reliable k) {client : Nat} {m m' : Machine}
    {call : Call} (hready : Ready m.world.client) (hkept : Kept client m)
    (hnoack : m.world.client.noack = true) (h : call.run k client m = .next () m') :
    Unmoved client m m' := by
  by_cases hsafe : Call.Safe client m.mem call
  · obtain ⟨m1, hrun, hunmoved⟩ := Call.run_safe hk hready hkept hnoack hsafe
    rw [h] at hrun
    cases hrun
    exact hunmoved
  · obtain ⟨m1, hrun⟩ := Call.run_dangling hk hready hkept hnoack hsafe
    rw [h] at hrun
    cases hrun

theorem unmoved_subscribedG : Unmoved 0 connected subscribedG :=
  Call.run_next generous_reliable (ready_connected [] (stream Event.bytes [notifyH, notifyG]))
    kept_connected rfl
    (eq_next_state (by decide +kernel))

theorem unmoved_subscribedH : Unmoved 0 subscribedG subscribedH :=
  Call.run_next generous_reliable unmoved_subscribedG.ready unmoved_subscribedG.kept
    (by decide +kernel) (eq_next_state (by decide +kernel))

def leaveBy (pointer : Handed → Machine → Option CharPtr) : Behaviour := fun h m =>
  (if m.world.client.noack then
    (pointer h m).toList.map fun name => .call (.queueUnsubscribe name)
  else [], 0)

/-- The name that it was handed. -/
def leave : Behaviour := leaveBy fun h _ => some h.name

def leaveByCopy : Behaviour :=
  leaveBy fun h m => (h.name.resolve m.mem).map fun name => .string (contents name)

theorem leaveBy_quiet (pointer : Handed → Machine → Option CharPtr) (h : Handed) (m : Machine) :
    Throughout generous 0 Muted (leaveBy pointer h m).1 m ∧ (leaveBy pointer h m).2 = 0 := by
  refine ⟨?_, rfl⟩
  rw [leaveBy]
  split
  · rename_i hnoack
    cases pointer h m with
    | none => trivial
    | some name => exact ⟨hnoack, fun _ _ => trivial⟩
  · trivial

abbrev Awaited (m : Machine) : Prop :=
  Events.subscriber (.parse m.world.input) m.world.client ((m.world.input.drop 8).take 64) ≠ none

theorem attended_leave : Attended generous 0 leave (cleared subscribedH) where
  registered := by
    intro m1 hhead _ e rest hinput
    have hstuck : (turned generous 0 leave (cleared subscribedH)).isNext = false := by
      decide +kernel
    have hawaited : Awaited (cleared subscribedH) := by decide +kernel
    rcases Relation.ReflTransGen.cases_head hhead with rfl | ⟨m2, hturn, _⟩
    · exact registered_of_subscriber hawaited e rest hinput
    · rw [hturn.turned] at hstuck
      cases hstuck
  quiet := fun _ _ h m _ => leaveBy_quiet _ h m

/-- An event of a queue arrives whose subscription has another one behind it. The callback
unsubscribes with the name that it was handed, and that name is freed before it is compared
with the other one. -/
theorem emqProcess_delivers_leave :
    Ready subscribedH.world.client ∧ Kept 0 subscribedH ∧
      subscribedH.world.input = stream Event.bytes [notifyH, notifyG] ∧
      Attended generous 0 leave (cleared subscribedH) ∧
      ¬ ∃ status m', emqProcess generous 0 leave subscribedH = .returned status m' := by
  refine ⟨unmoved_subscribedH.ready, unmoved_subscribedH.kept,
    unmoved_subscribedH.input.trans unmoved_subscribedG.input, attended_leave, ?_⟩
  rintro ⟨status, m', hreturned⟩
  have hnone : (emqProcess generous 0 leave subscribedH).result = none := by decide +kernel
  rw [hreturned] at hnone
  cases hnone

def leftH : Machine := (turned generous 0 leaveByCopy (cleared subscribedH)).state

def leftBoth : Machine := (turned generous 0 leaveByCopy leftH).state

theorem attended_leaveByCopy : Attended generous 0 leaveByCopy (cleared subscribedH) where
  registered := by
    intro m1 hhead hactive e rest hinput
    have hfirst : Awaited (cleared subscribedH) := by decide +kernel
    have hsecond : Awaited leftH := by decide +kernel
    have hidle : Idle leftBoth.world.client := by
      constructor <;> decide +kernel
    rcases Relation.ReflTransGen.cases_head hhead with rfl | ⟨m2, hturn, hhead⟩
    · exact registered_of_subscriber hfirst e rest hinput
    obtain rfl : leftH = m2 := by rw [leftH, hturn.turned]; rfl
    rcases Relation.ReflTransGen.cases_head hhead with rfl | ⟨m3, hturn', hhead⟩
    · exact registered_of_subscriber hsecond e rest hinput
    obtain rfl : leftBoth = m3 := by rw [leftBoth, hturn'.turned]; rfl
    rcases Relation.ReflTransGen.cases_head hhead with rfl | ⟨m4, hturn'', _⟩
    · exact absurd hidle hactive
    · obtain ⟨_, _, hgives, _⟩ := hturn''
      exact absurd hidle hgives.active
  quiet := fun _ _ h m _ => leaveBy_quiet _ h m

theorem emqProcess_delivers_iff_copy :
    (emqProcess generous 0 leaveByCopy subscribedH).result = some .ok ∧
      ((∃ n status m', n ≤ [notifyH, notifyG].length ∧
          emqProcess generous 0 leaveByCopy subscribedH = .returned status m' ∧
          told m'.world.trace =
            told subscribedH.world.trace ++ ([notifyH, notifyG].take n).map Event.args ∧
          m'.world.input = stream Event.bytes ([notifyH, notifyG].drop n) ∧
          ((status = .ok ∧ ∃ m1, Heads generous 0 leaveByCopy (cleared subscribedH) m1 ∧
              Idle m1.world.client ∧ m' = setStatus .ok m1) ∨
            (status = .err ∧ n = [notifyH, notifyG].length ∧ ¬ Idle m'.world.client ∧
              m'.world.client.error = emqErrorArray .read))) ↔
        AllCareful generous 0 leaveByCopy (cleared subscribedH)) :=
  ⟨by decide +kernel, emqProcess_delivers_iff generous generous_reliable 0 leaveByCopy subscribedH
    unmoved_subscribedH.ready unmoved_subscribedH.kept [notifyH, notifyG]
    (unmoved_subscribedH.input.trans unmoved_subscribedG.input) attended_leaveByCopy⟩

end Libemq.Reentry
