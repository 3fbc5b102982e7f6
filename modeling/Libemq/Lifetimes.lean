import Libemq.RecordLists
import Libemq.Runs

/-!
What applications get from the library and give back, in all runs and over any number of
connections.
-/

namespace Libemq.Lifetimes

open Libemq.CStrings
open Libemq.Blocks (Memory)
open Libemq.Inventories
open Libemq.Client
open Libemq.Commands
open Libemq.Responses
open Libemq.Transactions (finish)
open Libemq.Calls (Accepts)
open Libemq.LinkedLists
open Libemq.HeapLists
open Libemq.Connections
open Libemq.Subscriptions
open Libemq.RecordLists

/-- What an application does: it connects and disconnects, and its calls change subscriptions
and return lists, which it releases. `emq_process` looks for the subscription of an event and
invokes the callback, from which it resumes after whatever the callback did. Whether memory is
granted can differ from act to act. -/
inductive Act where
  | connect (transport : Transport) (grants : Nat → Nat → Bool) (attempt : Attempt)
  | disconnect (client : Option Nat)
  | edit (grants : Nat → Nat → Bool) (client : Nat) (edit : Edit)
  | event (client : Nat) (side : Side) (name : List UInt8)
  | resume (client : Nat)
  | fetch (grants : Nat → Nat → Bool) (kind : RecordKind) (bodylen : Nat)
      (received : Option (List UInt8))
  | release (list : Nat)

/-- The clients and the lists that the application has, and the clients whose `emq_process`
waits for a callback, the innermost first. The rest keeps book: which subscriptions and records
the clients and lists should hold, and what nobody can give back. -/
structure State where
  mem : Memory Resource
  clients : List (Nat × Registry)
  lists : List (Nat × List Record)
  processing : List Nat
  lost : List Nat

namespace State

def start : State := ⟨.empty, [], [], [], []⟩

def commit (s : State) (edit : Edit) : Commit := (edit.commit s.mem).getD .nothing

/-- What is in use after an act, and in no hands. -/
def lostBy (s : State) : Act → List Nat
  | .connect _ grants attempt => attemptLost grants s.mem.calls attempt
  | .edit grants _ edit => strays grants s.mem.calls (s.commit edit)
  | .fetch grants kind bodylen received =>
      lostRecords grants kind bodylen received s.mem.calls
  | _ => []

end State

/-- Nothing stands for undefined behaviour. The strings of a call are read for its request
before its lists are changed. -/
def perform (act : Act) (s : State) : Option State :=
  match act with
  | .connect transport grants attempt =>
      (transport.connect grants attempt s.mem).map fun made =>
        { s with
          mem := made.2
          clients := made.1.toList.map (fun client => (client, ⟨[], []⟩)) ++ s.clients
          lost := s.lostBy act ++ s.lost }
  | .disconnect client =>
      (emqDisconnect client s.mem).map fun made =>
        { s with mem := made.2, clients := s.clients.filter fun c => some c.1 ≠ client }
  | .edit grants client edit =>
      ((edit.commit s.mem).bind fun _ => edit.run grants client s.mem).map fun made =>
        { s with
          mem := made.2
          clients := s.clients.map fun c =>
            if c.1 = client then (c.1, c.2.after grants s.mem.calls (s.commit edit)) else c
          lost := s.lostBy act ++ s.lost }
  | .event client side name =>
      (turn client side name s.mem).map fun made =>
        { s with
          mem := made.2
          processing := made.1.toList.map (fun _ => client) ++ s.processing }
  | .resume client =>
      (lengthOf client .queues s.mem).map fun made =>
        { s with mem := made.2, processing := s.processing.tail }
  | .fetch grants kind bodylen received =>
      (readRecords grants kind bodylen received s.mem).map fun made =>
        { s with
          mem := made.2
          lists := made.1.toList.map
            (fun l => (l, fetched grants kind bodylen received s.mem.calls)) ++ s.lists
          lost := s.lostBy act ++ s.lost }
  | .release list =>
      (emqListRelease list s.mem).map fun made =>
        { s with mem := made.2, lists := s.lists.filter fun l => l.1 ≠ list }

/-- Clients and lists are used until they are given back, but `emq_process` resumes without
asking. A string that does not fit was refused with the request. The body of a response is as
long as its header says. -/
def Allowed (s : State) : Act → Prop
  | .connect .. => True
  | .disconnect client => ∀ c ∈ client, c ∈ s.clients.map Prod.fst
  | .edit _ client edit => client ∈ s.clients.map Prod.fst ∧
      ∀ c, edit.commit s.mem = some c → Commit.Fits c
  | .event client _ _ => client ∈ s.clients.map Prod.fst
  | .resume client => s.processing.head? = some client
  | .fetch _ _ bodylen received =>
      ∀ body ∈ received, body.length = bodylen ∧ bodylen < 4294967296
  | .release list => list ∈ s.lists.map Prod.fst

/-- What an application can do, each time with the state before it, and what comes of it. -/
inductive Run : List (State × Act) → Option State → Prop
  | start : Run [] (some .start)
  | act {history : List (State × Act)} {s : State} (hrun : Run history (some s)) {act : Act}
      (hallowed : Allowed s act) : Run (history ++ [(s, act)]) (perform act s)

/-- A list of a client that is set up is refused. A call is given the name of a subscription
that is no more. A callback passes the name that it was given to a call that frees it and then
compares further names with it. A callback disconnects the client that it was invoked for. The
last record of a response is cut short. -/
def Undefined (s : State) : Act → Prop
  | .connect _ grants _ => Broken grants s.mem.calls
  | .edit _ client edit => edit.commit s.mem = none ∨ edit.Dangles client s.mem
  | .resume client => client ∉ s.clients.map Prod.fst
  | .fetch grants kind bodylen received =>
      completed grants kind bodylen received s.mem.calls = true ∧ ¬ kind.size ∣ bodylen
  | _ => False

structure Connection where
  place : Site
  fd : Nat
  registry : Registry

structure Returned where
  list : Nat
  nodes : List (Nat × Nat)
  records : List Record

def Connection.holding (c : Connection) : Holding Resource where
  blocks := c.place.blocks ++ [c.fd]
  holds mem := Keeps mem c.place (some c.fd) c.registry ∧ mem.cells c.fd = some .socket
  frame hsame hholds :=
    ⟨hholds.1.congr fun b hb => hsame b (List.mem_append_left _ hb),
      (hsame c.fd (by simp)).trans hholds.2⟩

def Returned.holding (r : Returned) : Holding Resource where
  blocks := owned r.list r.nodes
  holds mem := Lists mem r.list r.nodes r.records
  frame hsame hholds := hholds.congr hsame

abbrev holdings (connections : List Connection) (returned : List Returned) :
    List (Holding Resource) :=
  connections.map Connection.holding ++ returned.map Returned.holding

/-- All that is in use belongs to these connections and these lists, or is lost. -/
structure Accounted (s : State) (connections : List Connection) (returned : List Returned) :
    Prop where
  clients : s.clients = connections.map fun c => (c.place.client, c.registry)
  lists : s.lists = returned.map fun r => (r.list, r.records)
  held : Held s.mem (holdings connections returned) s.lost

section Keyed

variable {α : Type} {front back : List (Nat × α)} {key : Nat} {value : α}

theorem map_keyed (hkeys : ∀ x ∈ front ++ back, x.1 ≠ key) (f : α → α) :
    (front ++ (key, value) :: back).map (fun x => if x.1 = key then (x.1, f x.2) else x) =
      front ++ (key, f value) :: back := by
  have hsame : ∀ part : List (Nat × α), part ⊆ front ++ back →
      part.map (fun x => if x.1 = key then (x.1, f x.2) else x) = part := fun part hpart =>
    (List.map_congr_left fun x hx => if_neg (hkeys x (hpart hx))).trans (List.map_id _)
  rw [List.map_append, List.map_cons, if_pos rfl, hsame front (List.subset_append_left ..),
    hsame back (List.subset_append_right ..)]

theorem filter_keyed (hkeys : ∀ x ∈ front ++ back, x.1 ≠ key) :
    (front ++ (key, value) :: back).filter (fun x => x.1 ≠ key) = front ++ back := by
  have hsame : ∀ part : List (Nat × α), part ⊆ front ++ back →
      part.filter (fun x => x.1 ≠ key) = part := fun part hpart =>
    List.filter_eq_self.mpr fun x hx => decide_eq_true (hkeys x (hpart hx))
  rw [List.filter_append, List.filter_cons_of_neg (by simp),
    hsame front (List.subset_append_left ..), hsame back (List.subset_append_right ..)]

end Keyed

section Focus

variable {s : State} {connections front back : List Connection} {c : Connection}
  {returned before after : List Returned} {r : Returned}

theorem holdings_connection :
    (holdings (front ++ c :: back) returned).Perm
      (c.holding :: holdings (front ++ back) returned) := by
  rw [holdings, holdings, List.map_append, List.map_append, List.map_cons]
  exact List.perm_middle.append_right _

theorem holdings_returned :
    (holdings connections (before ++ r :: after)).Perm
      (r.holding :: holdings connections (before ++ after)) := by
  rw [holdings, holdings, List.map_append, List.map_append, List.map_cons, ← List.append_assoc,
    ← List.append_assoc]
  exact List.perm_middle

theorem Accounted.connection (h : Accounted s connections returned) {client : Nat}
    (hclient : client ∈ s.clients.map Prod.fst) :
    ∃ front c back, connections = front ++ c :: back ∧ c.place.client = client := by
  rw [h.clients, List.map_map] at hclient
  obtain ⟨c, hc, rfl⟩ := List.mem_map.mp hclient
  obtain ⟨front, back, rfl⟩ := List.append_of_mem hc
  exact ⟨front, c, back, rfl, rfl⟩

theorem Accounted.list (h : Accounted s connections returned) {l : Nat}
    (hl : l ∈ s.lists.map Prod.fst) :
    ∃ before r after, returned = before ++ r :: after ∧ r.list = l := by
  rw [h.lists, List.map_map] at hl
  obtain ⟨r, hr, rfl⟩ := List.mem_map.mp hl
  obtain ⟨before, after, rfl⟩ := List.append_of_mem hr
  exact ⟨before, r, after, rfl, rfl⟩

theorem Accounted.other_clients (h : Accounted s (front ++ c :: back) returned) :
    ∀ x ∈ front.map (fun c => (c.place.client, c.registry)) ++
      back.map (fun c => (c.place.client, c.registry)), x.1 ≠ c.place.client := by
  rw [← List.map_append]
  intro x hx heq
  obtain ⟨c', hc', rfl⟩ := List.mem_map.mp hx
  refine (h.held.perm holdings_connection).apart (b := c.place.client) ?_ c'.holding
    (List.mem_append_left _ (List.mem_map_of_mem hc')) ?_
  · exact List.mem_append_left _ List.mem_cons_self
  · rw [← heq]
    exact List.mem_append_left _ List.mem_cons_self

theorem Accounted.other_lists (h : Accounted s connections (before ++ r :: after)) :
    ∀ x ∈ before.map (fun r => (r.list, r.records)) ++ after.map (fun r => (r.list, r.records)),
      x.1 ≠ r.list := by
  rw [← List.map_append]
  intro x hx heq
  obtain ⟨r', hr', rfl⟩ := List.mem_map.mp hx
  refine (h.held.perm holdings_returned).apart (b := r.list) List.mem_cons_self r'.holding
    (List.mem_append_right _ (List.mem_map_of_mem hr')) ?_
  rw [← heq]
  exact List.mem_cons_self

end Focus

/-- A client that was disconnected. Nothing else gets its memory. -/
def Gone (s : State) (client : Nat) : Prop := client < s.mem.calls ∧ s.mem.cells client = none

def Waiting (s : State) : Prop :=
  ∀ client ∈ s.processing, client ∈ s.clients.map Prod.fst ∨ Gone s client

/-- What an act leaves. -/
structure Follows (s s' : State) : Prop where
  accounted : ∃ connections returned, Accounted s' connections returned
  later : Later s.mem s'.mem
  clients : ∀ client ∈ s.clients.map Prod.fst, client ∈ s'.clients.map Prod.fst ∨ Gone s' client
  processing : ∀ client ∈ s'.processing, client ∈ s.processing ∨ client ∈ s.clients.map Prod.fst

/-- What comes of an act is known from the state before it. -/
structure Conforms (s : State) (act : Act) : Prop where
  undefined : Undefined s act → perform act s = none
  defined : ¬ Undefined s act → ∃ s', perform act s = some s' ∧ Follows s s'

section Acts

variable {s : State} {connections : List Connection} {returned : List Returned}

theorem keeps_site {mem mem' : Memory Resource} {fd : Nat}
    (hconnected : Connected mem' (site mem) fd) : Keeps mem' (site mem) (some fd) ⟨[], []⟩ where
  attached := hconnected.attached
  contents side := by cases side <;> rfl

theorem Accounted.connect (h : Accounted s connections returned) (transport : Transport)
    (grants : Nat → Nat → Bool) (attempt : Attempt) :
    Conforms s (.connect transport grants attempt) := by
  have houtcome := @connect_outcome grants _ _ transport attempt h.held.stock
  generalize hresult : transport.connect grants attempt s.mem = result at houtcome
  cases houtcome with
  | connected mem' fd hbroken hlost hconnected htraded =>
      refine ⟨fun hundefined => absurd hundefined hbroken, fun _ => ?_⟩
      rw [perform, hresult]
      refine ⟨_, rfl, ⟨⟨site s.mem, fd, ⟨[], []⟩⟩ :: connections, returned, ?_, h.lists, ?_⟩,
        htraded.later, fun client hclient => .inl ?_, fun _ => .inl⟩
      · simp only [h.clients]
        rfl
      · simp only [State.lostBy, hlost]
        refine Held.trade h.held.each ?_ ⟨keeps_site hconnected, hconnected.socket⟩
        rw [List.append_nil]
        exact htraded
      · rw [List.map_append]
        exact List.mem_append_right _ hclient
  | refused mem' hbroken htraded =>
      refine ⟨fun hundefined => absurd hundefined hbroken, fun _ => ?_⟩
      rw [perform, hresult]
      exact ⟨_, rfl, ⟨connections, returned, h.clients, h.lists, Held.keep h.held.each htraded⟩,
        htraded.later, fun _ => .inl, fun _ => .inl⟩
  | undefined hbroken =>
      refine ⟨fun _ => ?_, fun hdefined => absurd hbroken hdefined⟩
      rw [perform, hresult]
      rfl

theorem Accounted.disconnect (h : Accounted s connections returned) {client : Option Nat}
    (hallowed : Allowed s (.disconnect client)) : Conforms s (.disconnect client) := by
  refine ⟨False.elim, fun _ => ?_⟩
  cases client with
  | none =>
      have hall : (s.clients.filter fun c => some c.1 ≠ none) = s.clients := by simp
      refine ⟨_, rfl, ⟨connections, returned, hall.trans h.clients, h.lists, h.held⟩, .refl _,
        fun client hclient => .inl ?_, fun _ => .inl⟩
      simp only [hall]
      exact hclient
  | some client =>
      obtain ⟨front, c, back, rfl, rfl⟩ := h.connection (hallowed client rfl)
      have hheld := h.held.perm holdings_connection
      have hstock := hheld.first
      rw [Connection.holding, List.append_assoc] at hstock
      obtain ⟨hkeeps, hsocket⟩ := hheld.each c.holding List.mem_cons_self
      obtain ⟨mem', hrun, htraded⟩ := emqDisconnect_spec ⟨hkeeps.attached, hsocket⟩ hstock
      have hkeys := @filter_keyed _ _ _ _ c.registry h.other_clients
      rw [perform, hrun]
      refine ⟨_, rfl, ⟨front ++ back, returned, ?_, h.lists,
        Held.keep (fun o ho => hheld.each o (List.mem_cons_of_mem _ ho)) htraded⟩, htraded.later,
        fun client hclient => ?_, fun _ => .inl⟩
      · simp only [h.clients, List.map_append, List.map_cons, ne_eq, Option.some.injEq] at hkeys ⊢
        exact hkeys
      · by_cases heq : client = c.place.client
        · right
          subst heq
          have hused : c.place.client ∈ c.place.blocks := List.mem_cons_self
          refine ⟨Nat.lt_of_lt_of_le (hstock.sane.lt_calls ((hstock.used _).mpr
            (List.mem_append_left _ hused))) htraded.later.calls, ?_⟩
          by_contra hne
          refine (List.nodup_append.mp hstock.nodup).2.2 _ hused _ (List.mem_append_right _ ?_) rfl
          exact (htraded.stock.used _).mp hne
        · left
          obtain ⟨x, hx, rfl⟩ := List.mem_map.mp hclient
          exact List.mem_map_of_mem (List.mem_filter.mpr ⟨hx, by simpa using heq⟩)

theorem Accounted.release (h : Accounted s connections returned) {l : Nat}
    (hallowed : Allowed s (.release l)) : Conforms s (.release l) := by
  refine ⟨False.elim, fun _ => ?_⟩
  obtain ⟨before, r, after, rfl, rfl⟩ := h.list hallowed
  have hheld := h.held.perm holdings_returned
  have hlists : Lists s.mem r.list r.nodes r.records := hheld.each r.holding List.mem_cons_self
  obtain ⟨mem', hrun, _, htraded⟩ :=
    emqListRelease_chain (fun _ => rfl) hheld.first hlists.1 hlists.freeable
  rw [perform, hrun]
  refine ⟨_, rfl, ⟨connections, before ++ after, h.clients, ?_,
    Held.keep (fun o ho => hheld.each o (List.mem_cons_of_mem _ ho)) htraded⟩, htraded.later,
    fun _ => .inl, fun _ => .inl⟩
  have hkeys := @filter_keyed _ _ _ _ r.records h.other_lists
  simp only [h.lists, List.map_append, List.map_cons] at hkeys ⊢
  exact hkeys

theorem Accounted.edit (h : Accounted s connections returned) {grants : Nat → Nat → Bool}
    {client : Nat} {edit : Edit} (hallowed : Allowed s (.edit grants client edit)) :
    Conforms s (.edit grants client edit) := by
  obtain ⟨hclient, hfits⟩ := hallowed
  obtain ⟨front, c, back, rfl, rfl⟩ := h.connection hclient
  have hheld := h.held.perm holdings_connection
  have hstock := hheld.first
  rw [Connection.holding, List.append_assoc] at hstock
  obtain ⟨hkeeps, hsocket⟩ := hheld.each c.holding List.mem_cons_self
  refine ⟨fun hundefined => ?_, fun hdefined => ?_⟩
  · rw [perform]
    rcases hundefined with hunread | hdangles
    · rw [hunread]
      rfl
    · rw [Edit.run_dangling hkeeps hstock hdangles, Option.bind_fun_none]
      rfl
  · obtain ⟨hread, hsafe⟩ := not_or.mp hdefined
    obtain ⟨commit, hcommit⟩ := Option.ne_none_iff_exists'.mp hread
    obtain ⟨mem', place', hrun, hedited⟩ :=
      @Edit.run_spec grants _ _ _ _ _ _ _ hkeeps hstock hcommit (hfits commit hcommit) hsafe
    have hvalue : s.commit edit = commit := by rw [State.commit, hcommit, Option.getD_some]
    rw [perform, hcommit, Option.bind_some, hrun]
    refine ⟨_, rfl, ⟨front ++ ⟨place', c.fd, c.registry.after grants s.mem.calls commit⟩ :: back,
      returned, ?_, h.lists, Held.perm ?_ holdings_connection.symm⟩, hedited.traded.later,
      fun client hclient => .inl ?_, fun _ => .inl⟩
    · have hkeys := @map_keyed _ _ _ _ c.registry h.other_clients
        fun r => r.after grants s.mem.calls commit
      simp only [h.clients, List.map_append, List.map_cons, hvalue, hedited.client] at hkeys ⊢
      exact hkeys
    · simp only [State.lostBy, hvalue]
      refine Held.trade (fun o ho => hheld.each o (List.mem_cons_of_mem _ ho)) ?_
        ⟨hedited.keeps, (hedited.traded.frame c.fd List.mem_cons_self).trans hsocket⟩
      -- The socket is among what the edit leaves alone.
      have htraded : Traded s.mem mem' (place'.blocks ++ strays grants s.mem.calls commit)
        ([c.fd] ++ (List.flatMap Holding.blocks (holdings (front ++ back) returned) ++ s.lost)) :=
        hedited.traded
      refine htraded.widen.perm ?_
      rw [Connection.holding, List.append_assoc, List.append_assoc]
      exact List.perm_append_comm.append_left _
    · obtain ⟨x, hx, rfl⟩ := List.mem_map.mp hclient
      rw [List.map_map]
      refine List.mem_map.mpr ⟨x, hx, ?_⟩
      rw [Function.comp_apply]
      split <;> rfl

theorem Accounted.event (h : Accounted s connections returned) {client : Nat} {side : Side}
    {name : List UInt8} (hallowed : Allowed s (.event client side name)) :
    Conforms s (.event client side name) := by
  refine ⟨False.elim, fun _ => ?_⟩
  have hclient : client ∈ s.clients.map Prod.fst := hallowed
  obtain ⟨front, c, back, rfl, rfl⟩ := h.connection hallowed
  have hkeeps := ((h.held.perm holdings_connection).each c.holding List.mem_cons_self).1
  obtain ⟨found, hrun, _⟩ := turn_spec hkeeps side name
  rw [perform, hrun]
  refine ⟨_, rfl, ⟨_, _, h.clients, h.lists, h.held⟩, .refl _, fun _ => .inl,
    fun waiting hwaiting => (List.mem_append.mp hwaiting).symm.imp_right fun hnew => ?_⟩
  obtain ⟨_, _, rfl⟩ := List.mem_map.mp hnew
  exact hclient

theorem Accounted.resume (h : Accounted s connections returned) (hwaiting : Waiting s)
    {client : Nat} (hallowed : Allowed s (.resume client)) : Conforms s (.resume client) := by
  refine ⟨fun hundefined => ?_, fun hdefined => ?_⟩
  · have hgone := (hwaiting client (List.mem_of_mem_head? hallowed)).resolve_left hundefined
    rw [perform, lengthOf_gone hgone.2]
    rfl
  · obtain ⟨front, c, back, rfl, rfl⟩ := h.connection (not_not.mp hdefined)
    have hkeeps := ((h.held.perm holdings_connection).each c.holding List.mem_cons_self).1
    rw [perform, lengthOf_spec hkeeps]
    exact ⟨_, rfl, ⟨_, _, h.clients, h.lists, h.held⟩, .refl _, fun _ => .inl,
      fun _ hmem => .inl (List.mem_of_mem_tail hmem)⟩

theorem Accounted.fetch (h : Accounted s connections returned) {grants : Nat → Nat → Bool}
    {kind : RecordKind} {bodylen : Nat} {received : Option (List UInt8)}
    (hallowed : Allowed s (.fetch grants kind bodylen received)) :
    Conforms s (.fetch grants kind bodylen received) := by
  have houtcome := @readRecords_spec grants kind bodylen received _ _ h.held.stock hallowed
  generalize hresult : readRecords grants kind bodylen received s.mem = result at houtcome
  cases houtcome with
  | listed mem' l nodes hwhole hcompleted hlists htraded =>
      refine ⟨fun hundefined => absurd hwhole hundefined.2, fun _ => ?_⟩
      have hnew : (Returned.holding ⟨l, nodes,
        fetched grants kind bodylen received s.mem.calls⟩).holds mem' := hlists
      rw [perform, hresult]
      refine ⟨_, rfl, ⟨connections,
        ⟨l, nodes, fetched grants kind bodylen received s.mem.calls⟩ :: returned, h.clients, ?_,
        Held.perm (Held.trade h.held.each htraded hnew) List.perm_middle.symm⟩, htraded.later,
        fun _ => .inl, fun _ => .inl⟩
      simp only [h.lists]
      rfl
  | refused mem' hcompleted htraded =>
      refine ⟨fun hundefined => ?_, fun _ => ?_⟩
      · rw [hundefined.1] at hcompleted
        cases hcompleted
      · rw [perform, hresult]
        exact ⟨_, rfl, ⟨connections, returned, h.clients, h.lists,
          Held.keep h.held.each htraded⟩, htraded.later, fun _ => .inl, fun _ => .inl⟩
  | overrun hwhole hcompleted =>
      refine ⟨fun _ => ?_, fun hdefined => absurd ⟨hcompleted, hwhole⟩ hdefined⟩
      rw [perform, hresult]
      rfl

theorem Accounted.conforms (h : Accounted s connections returned) (hwaiting : Waiting s)
    {act : Act} (hallowed : Allowed s act) : Conforms s act := by
  cases act with
  | connect transport grants attempt => exact h.connect transport grants attempt
  | disconnect client => exact h.disconnect hallowed
  | edit grants client edit => exact h.edit hallowed
  | event client side name => exact h.event hallowed
  | resume client => exact h.resume hwaiting hallowed
  | fetch grants kind bodylen received => exact h.fetch hallowed
  | release list => exact h.release hallowed

theorem Follows.waiting {s' : State} (h : Follows s s') (hwaiting : Waiting s) : Waiting s' := by
  intro client hmem
  rcases h.processing client hmem with hold | hnew
  · rcases hwaiting client hold with hlive | hgone
    · exact h.clients client hlive
    · exact .inr ⟨Nat.lt_of_lt_of_le hgone.1 h.later.calls, h.later.gone client hgone.1 hgone.2⟩
  · exact h.clients client hnew

end Acts

/-- What the step left in no hands. -/
def LostIn (history : List (State × Act)) (b : Nat) : Prop :=
  ∃ step ∈ history, b ∈ step.1.lostBy step.2

section Runs

variable {history : List (State × Act)} {s s' : State} {act : Act}

theorem Run.next (hrun : Run history (some s)) (hallowed : Allowed s act)
    (hperform : perform act s = some s') : Run (history ++ [(s, act)]) (some s') :=
  hperform ▸ .act hrun hallowed

theorem lost_perform (h : perform act s = some s') : s'.lost = s.lostBy act ++ s.lost := by
  cases act with
  | _ =>
      obtain ⟨made, _, rfl⟩ := Option.map_eq_some_iff.mp h
      rfl

/-- What holds after every run. -/
structure Inv (history : List (State × Act)) (s : State) : Prop where
  accounted : ∃ connections returned, Accounted s connections returned
  waiting : Waiting s
  lost : ∀ b, b ∈ s.lost ↔ LostIn history b

theorem Inv.conforms (h : Inv history s) (hallowed : Allowed s act) : Conforms s act := by
  obtain ⟨connections, returned, haccounted⟩ := h.accounted
  exact haccounted.conforms h.waiting hallowed

theorem Inv.next (h : Inv history s) (hallowed : Allowed s act)
    (hperform : perform act s = some s') : Inv (history ++ [(s, act)]) s' := by
  have hconforms := h.conforms hallowed
  have hdefined : ¬ Undefined s act := by
    intro hundefined
    rw [hconforms.undefined hundefined] at hperform
    cases hperform
  obtain ⟨s1, hperform1, hfollows⟩ := hconforms.defined hdefined
  obtain rfl := Option.some.inj (hperform1.symm.trans hperform)
  refine ⟨hfollows.accounted, hfollows.waiting h.waiting, fun b => ?_⟩
  rw [lost_perform hperform, List.mem_append, h.lost]
  simp only [LostIn, List.mem_append, List.mem_singleton, or_and_right, exists_or, exists_eq_left]
  exact or_comm

theorem Run.inv {result : Option State} (hrun : Run history result) :
    ∀ s, result = some s → Inv history s := by
  induction hrun with
  | start =>
      rintro s hs
      cases hs
      exact ⟨⟨[], [], rfl, rfl, .empty⟩, by simp [Waiting, State.start],
        by simp [State.start, LostIn]⟩
  | act hrun hallowed ih => exact fun s hperform => (ih _ rfl).next hallowed hperform

/-- Nothing is in use any more but what was lost. -/
theorem Accounted.closed {connections : List Connection} {returned : List Returned}
    (h : Accounted s connections returned) (hclients : s.clients = []) (hlists : s.lists = []) :
    Stocks s.mem s.lost := by
  rw [h.clients] at hclients
  rw [h.lists] at hlists
  obtain rfl := List.map_eq_nil_iff.mp hclients
  obtain rfl := List.map_eq_nil_iff.mp hlists
  exact h.held.stock

end Runs

def closing (s : State) : List Act :=
  s.clients.map (fun c => .disconnect (some c.1)) ++ s.lists.map fun l => .release l.1

section Closing

variable {s s' : State} {connections : List Connection} {returned : List Returned}

theorem Accounted.split_clients (h : Accounted s connections returned) {client : Nat}
    (hclient : client ∈ s.clients.map Prod.fst) :
    ∃ front value back, s.clients = front ++ (client, value) :: back ∧
      ∀ x ∈ front ++ back, x.1 ≠ client := by
  obtain ⟨front, c, back, rfl, rfl⟩ := h.connection hclient
  exact ⟨_, _, _, by rw [h.clients, List.map_append, List.map_cons], h.other_clients⟩

theorem Accounted.split_lists (h : Accounted s connections returned) {l : Nat}
    (hl : l ∈ s.lists.map Prod.fst) :
    ∃ before value after, s.lists = before ++ (l, value) :: after ∧
      ∀ x ∈ before ++ after, x.1 ≠ l := by
  obtain ⟨before, r, after, rfl, rfl⟩ := h.list hl
  exact ⟨_, _, _, by rw [h.lists, List.map_append, List.map_cons], h.other_lists⟩

/-- One of these acts leaves all others to do. -/
theorem Accounted.close (h : Accounted s connections returned) {act : Act}
    (hact : act ∈ closing s) :
    Allowed s act ∧ ∃ s', perform act s = some s' ∧ (closing s).Perm (act :: closing s') ∧
      s'.lost = s.lost := by
  rcases List.mem_append.mp hact with hact | hact
  · obtain ⟨⟨client, registry⟩, hmem, rfl⟩ := List.mem_map.mp hact
    have hclient : client ∈ s.clients.map Prod.fst := List.mem_map_of_mem hmem
    have hallowed : Allowed s (.disconnect (some client)) := by
      rintro c hc
      obtain rfl := Option.some.inj hc
      exact hclient
    obtain ⟨s', hperform, _⟩ := (h.disconnect hallowed).defined id
    obtain ⟨front, value, back, hsplit, hkeys⟩ := h.split_clients hclient
    refine ⟨hallowed, s', hperform, ?_, lost_perform hperform⟩
    obtain ⟨made, _, rfl⟩ := Option.map_eq_some_iff.mp hperform
    have hfilter := @filter_keyed _ _ _ _ value hkeys
    simp only [closing, hsplit, ne_eq, Option.some.injEq] at hfilter ⊢
    rw [hfilter, List.map_append, List.map_append, List.map_cons]
    exact List.perm_middle.append_right _
  · obtain ⟨⟨l, records⟩, hmem, rfl⟩ := List.mem_map.mp hact
    have hl : l ∈ s.lists.map Prod.fst := List.mem_map_of_mem hmem
    obtain ⟨s', hperform, _⟩ := (h.release hl).defined id
    obtain ⟨before, value, after, hsplit, hkeys⟩ := h.split_lists hl
    refine ⟨hl, s', hperform, ?_, lost_perform hperform⟩
    obtain ⟨made, _, rfl⟩ := Option.map_eq_some_iff.mp hperform
    simp only [closing, hsplit, filter_keyed hkeys]
    rw [List.map_append, List.map_append, List.map_cons, ← List.append_assoc,
      ← List.append_assoc]
    exact List.perm_middle

theorem close_all {acts : List Act} : ∀ {history : List (State × Act)} {s : State},
    Run history (some s) → acts.Perm (closing s) →
    ∃ more s', Run (history ++ more) (some s') ∧ more.map Prod.snd = acts ∧
      s'.clients = [] ∧ s'.lists = [] ∧ s'.lost = s.lost := by
  induction acts with
  | nil =>
      intro history s hrun hperm
      obtain ⟨hclients, hlists⟩ := List.append_eq_nil_iff.mp hperm.nil_eq.symm
      refine ⟨[], s, ?_, rfl, List.map_eq_nil_iff.mp hclients, List.map_eq_nil_iff.mp hlists, rfl⟩
      rw [List.append_nil]
      exact hrun
  | cons act acts ih =>
      intro history s hrun hperm
      obtain ⟨connections, returned, haccounted⟩ := (hrun.inv s rfl).accounted
      obtain ⟨hallowed, s1, hperform, hrest, hlost⟩ :=
        haccounted.close (hperm.mem_iff.mp List.mem_cons_self)
      obtain ⟨more, s', hrun', hmore, hclients, hlists, hlost'⟩ :=
        ih (hrun.next hallowed hperform) (hperm.trans hrest).cons_inv
      refine ⟨(s, act) :: more, s', ?_, ?_, hclients, hlists, hlost'.trans hlost⟩
      · rw [List.append_assoc] at hrun'
        exact hrun'
      · rw [List.map_cons, hmore]

end Closing

/-- The books are right about every client and every list. What is in a list is linked in both
directions between its head and its tail, and counted by its length. -/
structure Agrees (s : State) : Prop where
  subscriptions : ∀ client registry, (client, registry) ∈ s.clients → ∀ side, ∃ c l nodes,
    s.mem.cells client = some (.client c) ∧ side.member c = some l ∧ Chain s.mem l true nodes ∧
      subscriptions client side s.mem = some (values nodes, s.mem) ∧
      (values nodes).map s.mem.cells = (registry.cells side).map some
  events : ∀ client registry, (client, registry) ∈ s.clients → ∀ side name, ∃ found,
    search client side name s.mem = some (found, s.mem) ∧
      found.bind s.mem.cells = (registry.cells side).find? fun cell => !differs name cell
  lists : ∀ l records, (l, records) ∈ s.lists → ∃ nodes, Chain s.mem l true nodes ∧
    emqListValues l s.mem = some (values nodes, s.mem) ∧
      (values nodes).map s.mem.cells = records.map fun record => some (.record record)

theorem contents_values {mem : Memory Resource} {nodes : List (Nat × Nat)} {held : List Resource}
    (h : Contents mem nodes held) : (values nodes).map mem.cells = held.map some := by
  rw [values, List.map_map]
  exact h

theorem Accounted.agrees {s : State} {connections : List Connection} {returned : List Returned}
    (h : Accounted s connections returned) : Agrees s := by
  have hkeeps : ∀ client registry, (client, registry) ∈ s.clients →
      ∃ place fd, place.client = client ∧ Keeps s.mem place fd registry := by
    intro client registry hmem
    rw [h.clients] at hmem
    obtain ⟨c, hc, heq⟩ := List.mem_map.mp hmem
    cases heq
    exact ⟨_, _, rfl, (h.held.each c.holding
      (List.mem_append_left _ (List.mem_map_of_mem hc))).1⟩
  refine ⟨fun client registry hmem side => ?_, fun client registry hmem side name => ?_,
    fun l records hmem => ?_⟩
  · obtain ⟨place, fd, rfl, hkeeps⟩ := hkeeps client registry hmem
    obtain ⟨c, hclient, hmember⟩ := Attached.member hkeeps.attached side
    exact ⟨c, _, _, hclient, hmember, Attached.chain hkeeps.attached side,
      subscriptions_eq hkeeps.attached side, contents_values (hkeeps.contents side)⟩
  · obtain ⟨place, fd, rfl, hkeeps⟩ := hkeeps client registry hmem
    exact search_spec hkeeps side name
  · rw [h.lists] at hmem
    obtain ⟨r, hr, heq⟩ := List.mem_map.mp hmem
    cases heq
    have hlists : Lists s.mem r.list r.nodes r.records := h.held.each r.holding
      (List.mem_append_right _ (List.mem_map_of_mem hr))
    refine ⟨_, hlists.1, emqListValues_chain hlists.1, ?_⟩
    rw [contents_values hlists.2, List.map_map]
    rfl

abbrev always : Nat → Nat → Bool := fun _ _ => true

/-- The edit that a call makes, with strings of the application. -/
def editOf : Commit → Option Edit
  | .nothing => none
  | .subscribeQueue name callback => some (.subscribeQueue (.string name) callback)
  | .subscribeChannel name data callback =>
      some (.subscribeChannel (.string name) (.string data) callback)
  | .unsubscribeQueue name => some (.unsubscribeQueue (.string name))
  | .unsubscribeChannel name => some (.unsubscribeChannel (.string name))

def Registry.applied (commit : Commit) (r : Registry) : Registry :=
  ⟨Commit.queueList commit r.queues, Commit.channelList commit r.channels⟩

section Calls

variable {commit : Commit} {edit : Edit} {client : Nat} {mem : Memory Resource} {r : Registry}

theorem editOf_commit (h : editOf commit = some edit) : edit.commit mem = some commit := by
  cases commit with
  | nothing => cases h
  | _ =>
      cases h
      simp [Edit.commit, CharPtr.resolve, CString.contents_array]

theorem editOf_fits (h : editOf commit = some edit) (hfits : Commit.Fits commit) :
    ∀ c, edit.commit mem = some c → Commit.Fits c := by
  intro c hc
  obtain rfl := Option.some.inj ((editOf_commit h).symm.trans hc)
  exact hfits

theorem editOf_safe (h : editOf commit = some edit) : ¬ edit.Dangles client mem := by
  cases commit with
  | nothing => cases h
  | _ =>
      cases h
      exact id

theorem applied_of_editOf_none (h : editOf commit = none) : Registry.applied commit r = r := by
  cases commit with
  | nothing => rfl
  | _ => cases h

theorem after_always (call : Nat) : r.after always call commit = Registry.applied commit r := by
  have hcreated : created always call commit = true := by
    cases commit <;> rfl
  have hlisted : listed always call commit = true := by
    cases commit <;> rfl
  rw [Registry.after, hcreated, hlisted]
  rfl

def actOf (call : Command × Reply) : Option Act :=
  (editOf (Transactions.commit call.1)).map (.edit always 0)

/-- From a first connection on, the run makes calls of the trace in their order, each of which
succeeded there. It gets to such subscriptions. -/
structure Realizes (trace : List TraceEvent) (r : Registry) (history : List (State × Act))
    (s : State) : Prop where
  run : Run history (some s)
  calls : ∃ calls : List (Command × Reply),
    (calls.map fun call => .issued call.1 call.2).Sublist trace ∧
      (∀ call ∈ calls, Accepts call.1 ∧ Finish.Successful (finish call.1) call.2) ∧
      history.map Prod.snd = .connect .tcp always ⟨true, true, true, true, true⟩ ::
        calls.filterMap actOf
  clients : s.clients = [(0, r)]

abbrev Realized (r : Registry) (trace : List TraceEvent) : Prop :=
  ∃ history s, Realizes trace r history s

theorem realized_first : Realized ⟨[], []⟩ [] := by
  have hallowed : Allowed .start (.connect .tcp always ⟨true, true, true, true, true⟩) := trivial
  obtain ⟨s, hperform, hclients⟩ : ∃ s,
      perform (.connect .tcp always ⟨true, true, true, true, true⟩) .start = some s ∧
        s.clients = [(0, ⟨[], []⟩)] := ⟨_, rfl, rfl⟩
  exact ⟨_, s, Run.start.next hallowed hperform,
    ⟨[], List.Sublist.refl _, List.forall_mem_nil _, rfl⟩, hclients⟩

theorem Realized.append {trace : List TraceEvent} (h : Realized r trace)
    (events : List TraceEvent) : Realized r (trace ++ events) := by
  obtain ⟨history, s, hrun, ⟨calls, hcalls, hsucceeded, hacts⟩, hclients⟩ := h
  exact ⟨history, s, hrun, ⟨calls, hcalls.trans (List.sublist_append_left ..), hsucceeded, hacts⟩,
    hclients⟩

theorem Realized.call {trace : List TraceEvent} {c : Command} {reply : Reply}
    (haccepts : Accepts c) (hsuccessful : Finish.Successful (finish c) reply)
    (h : Realized r trace) :
    Realized (Registry.applied (Transactions.commit c) r) (trace ++ [.issued c reply]) := by
  obtain ⟨history, s, hrun, ⟨calls, hcalls, hsucceeded, hacts⟩, hclients⟩ := h
  have hcalls' : ((calls ++ [(c, reply)]).map fun call => TraceEvent.issued call.1 call.2).Sublist
      (trace ++ [.issued c reply]) := by
    rw [List.map_append]
    exact hcalls.append (List.Sublist.refl _)
  have hsucceeded' : ∀ call ∈ calls ++ [(c, reply)],
      Accepts call.1 ∧ Finish.Successful (finish call.1) call.2 := by
    intro call hcall
    rcases List.mem_append.mp hcall with hcall | hcall
    · exact hsucceeded call hcall
    · obtain rfl := List.mem_singleton.mp hcall
      exact ⟨haccepts, hsuccessful⟩
  cases hedit : editOf (Transactions.commit c) with
  | none =>
      have hact : actOf (c, reply) = none := by rw [actOf, hedit, Option.map_none]
      rw [applied_of_editOf_none hedit]
      refine ⟨history, s, hrun, ⟨_, hcalls', hsucceeded', ?_⟩, hclients⟩
      rw [List.filterMap_append, List.filterMap_cons_none hact, List.filterMap_nil,
        List.append_nil]
      exact hacts
  | some edit =>
      have hact : actOf (c, reply) = some (.edit always 0 edit) := by
        rw [actOf, hedit, Option.map_some]
      have hallowed : Allowed s (.edit always 0 edit) :=
        ⟨by simp [hclients], editOf_fits hedit (Libemq.Calls.commit_fits haccepts.2)⟩
      have hsafe : ¬ Undefined s (.edit always 0 edit) := by
        rintro (hunread | hdangles)
        · rw [editOf_commit hedit] at hunread
          cases hunread
        · exact editOf_safe hedit hdangles
      obtain ⟨s', hperform, _⟩ := ((hrun.inv s rfl).conforms hallowed).defined hsafe
      refine ⟨_, s', hrun.next hallowed hperform, ⟨_, hcalls', hsucceeded', ?_⟩, ?_⟩
      · rw [List.filterMap_append, List.filterMap_cons_some hact, List.filterMap_nil,
          List.map_append, hacts]
        rfl
      · obtain ⟨made, _, rfl⟩ := Option.map_eq_some_iff.mp hperform
        have hcommit : s.commit edit = Transactions.commit c := by
          rw [State.commit, editOf_commit hedit, Option.getD_some]
        simp only [hclients, List.map_cons, List.map_nil, if_true, hcommit, after_always]

theorem recorded_realized :
    Runs.Recorded fun queues channels trace => Realized ⟨queues, channels⟩ trace where
  init := realized_first
  append h events := h.append events
  commit haccepts hsuccessful h := h.call haccepts hsuccessful

end Calls

/-- Two queues are subscribed to, a third subscription gets no node, and one user is listed. -/
def session : List Act :=
  [.connect .tcp always ⟨true, true, true, true, true⟩,
    .edit always 0 (.subscribeQueue (.string ⟨[120], by decide⟩) 1),
    .edit always 0 (.subscribeQueue (.string ⟨[121], by decide⟩) 2),
    .edit (fun _ size => size != 24) 0 (.subscribeQueue (.string ⟨[122], by decide⟩) 3),
    .fetch always .users 72 (some (List.replicate 72 65))]

def stepped (n : Nat) : State :=
  (session.take n).foldl (fun s act => (perform act s).getD s) .start

def taken : List (State × Act) := (List.range 5).zipWith (fun n act => (stepped n, act)) session

theorem fits_subscribe {name : CString} {callback : CallbackPtr} {mem : Memory Resource}
    (hname : strlen name < 64) :
    ∀ c, (Edit.subscribeQueue (.string name) callback).commit mem = some c → Commit.Fits c :=
  @editOf_fits (.subscribeQueue name callback) _ mem rfl hname

theorem run_session : Run taken (some (stepped 5)) := by
  have hconnected : Run (taken.take 1) (some (stepped 1)) :=
    @Run.next [] .start _ (session.get ⟨0, by decide⟩) .start trivial rfl
  have hfirst : Run (taken.take 2) (some (stepped 2)) :=
    hconnected.next ⟨by decide, fits_subscribe (by decide)⟩ rfl
  have hsecond : Run (taken.take 3) (some (stepped 3)) :=
    hfirst.next ⟨by decide, fits_subscribe (by decide)⟩ rfl
  have hthird : Run (taken.take 4) (some (stepped 4)) :=
    hsecond.next ⟨by decide, fits_subscribe (by decide)⟩ rfl
  refine hthird.next (fun body hbody => ?_) rfl
  obtain rfl := Option.some.inj hbody
  decide

/-- In every run, an act that keeps to the rules of the library is undefined in five cases
only. -/
theorem undefined_iff {history : List (State × Act)} {s : State} {act : Act}
    (hrun : Run history (some s)) (hallowed : Allowed s act) :
    perform act s = none ↔ Undefined s act := by
  have hconforms := (hrun.inv s rfl).conforms hallowed
  refine ⟨fun hnone => ?_, hconforms.undefined⟩
  by_contra hdefined
  obtain ⟨s', hperform, _⟩ := hconforms.defined hdefined
  rw [hnone] at hperform
  cases hperform

/-- A callback unsubscribes with the name that it was given, and there is one more subscription. -/
theorem undefined_iff_dangling :
    perform (.edit always 0 (.unsubscribeQueue (.name 7))) (stepped 5) = none := by
  have hallowed : Allowed (stepped 5) (.edit always 0 (.unsubscribeQueue (.name 7))) := by
    refine ⟨by decide, fun c hcommit => ?_⟩
    rw [Edit.commit] at hcommit
    obtain ⟨_, _, rfl⟩ := Option.map_eq_some_iff.mp hcommit
    trivial
  refine (undefined_iff run_session hallowed).mpr (.inr ?_)
  show 7 ∈ earlier 0 .queues (stepped 5).mem
  decide

/-- From wherever a run has come, the application can give back all that it has in any order,
and then everything that was acquired on the way was given back exactly once, but for what an
act left in no hands. -/
theorem given_back_once {history : List (State × Act)} {s : State} (hrun : Run history (some s))
    {acts : List Act} (hperm : acts.Perm (closing s)) :
    ∃ more s', Run (history ++ more) (some s') ∧ more.map Prod.snd = acts ∧
      (∀ b, LostIn history b → b ∈ s'.mem.allocated) ∧
      ∀ b ∈ s'.mem.allocated, s'.mem.frees.count (.block b) ≤ 1 ∧
        (s'.mem.frees.count (.block b) = 0 ↔ LostIn history b) := by
  obtain ⟨more, s', hrun', hmore, hclients, hlists, hlost⟩ := close_all hrun hperm
  obtain ⟨connections, returned, haccounted⟩ := (hrun'.inv s' rfl).accounted
  have hbook : ∀ b, b ∈ s'.lost ↔ LostIn history b := by
    rw [hlost]
    exact (hrun.inv s rfl).lost
  have hstock := haccounted.closed hclients hlists
  refine ⟨more, s', hrun', hmore, fun b hb => ?_, fun b hb => ?_⟩
  · exact hstock.sane.used b ((hstock.used b).mpr ((hbook b).mpr hb))
  · rw [hstock.count_frees hb, ← hbook]
    by_cases hmem : b ∈ s'.lost
    · simp [hmem]
    · simp [hmem]

theorem given_back_once_session : ∃ more s', Run (taken ++ more) (some s') ∧
    more.map Prod.snd = [.release 12, .disconnect (some 0)] ∧
    (∀ b, LostIn taken b → b ∈ s'.mem.allocated) ∧
    ∀ b ∈ s'.mem.allocated, s'.mem.frees.count (.block b) ≤ 1 ∧
      (s'.mem.frees.count (.block b) = 0 ↔ LostIn taken b) :=
  given_back_once run_session (.swap _ _ [])

/-- In every run, following the pointers from a client or from a list leads to what the calls
have made of it, and the search for the subscription of an event finds the first one of its
name. -/
theorem memory_agrees {history : List (State × Act)} {s : State} (hrun : Run history (some s)) :
    Agrees s := by
  obtain ⟨connections, returned, haccounted⟩ := (hrun.inv s rfl).accounted
  exact haccounted.agrees

theorem memory_agrees_session : Agrees (stepped 5) := memory_agrees run_session

/-- Whatever an application does, some of its calls that succeeded lead to the subscriptions of
its client in memory, too, and then the search in memory for the subscription of an event finds
the one that the client has. -/
theorem memory_realizes {k : Kernel} {w : World} (h : Runs.Reachable k w) :
    ∃ history s, Realizes w.trace ⟨w.client.queueSubscriptions, w.client.channelSubscriptions⟩
        history s ∧
      (∀ name, ∃ found, search 0 .queues name s.mem = some (found, s.mem) ∧
        found.bind s.mem.cells = (w.client.queueSubscriptions.find? fun q =>
          strcmpEq q.name.array name).map .queueSubscription) ∧
      ∀ name, ∃ found, search 0 .channels name s.mem = some (found, s.mem) ∧
        found.bind s.mem.cells = (w.client.channelSubscriptions.find? fun c =>
          strcmpEq c.name.array name).map .channelSubscription := by
  obtain ⟨history, s, hrealizes⟩ := recorded_realized.of_reachable h
  obtain ⟨connections, returned, haccounted⟩ := (hrealizes.run.inv s rfl).accounted
  have hevents := haccounted.agrees.events 0 _ (by
    rw [hrealizes.clients]
    exact List.mem_cons_self)
  refine ⟨history, s, hrealizes, fun name => ?_, fun name => ?_⟩
  · obtain ⟨found, hsearch, hfound⟩ := hevents .queues name
    refine ⟨found, hsearch, hfound.trans ?_⟩
    rw [Registry.cells, List.find?_map]
    simp only [Function.comp_def, differs, Bool.not_not]
    rfl
  · obtain ⟨found, hsearch, hfound⟩ := hevents .channels name
    refine ⟨found, hsearch, hfound.trans ?_⟩
    rw [Registry.cells, List.find?_map]
    simp only [Function.comp_def, differs, Bool.not_not]
    rfl

def moves : List Command :=
  [.queueSubscribe ⟨[101], by decide⟩ 0 4, .queueSubscribe ⟨[102], by decide⟩ 0 5,
    .queueUnsubscribe ⟨[101], by decide⟩]

def moved : World := Runs.issueAll Network.generous moves (emqNoackEnable (World.connected [] []))

theorem reachable_moved : Runs.Reachable Network.generous moved := by
  have henabled : Runs.Reachable Network.generous (emqNoackEnable (World.connected [] [])) :=
    ⟨[], [], .single (.noackEnable _)⟩
  exact henabled.issueAll (by decide)

/-- One of the two subscriptions is left, in memory as well. -/
theorem memory_realizes_moved :
    moved.client.queueSubscriptions.map EmqQueueSubscription.callback = [5] ∧
      ∃ history s, Realizes moved.trace ⟨moved.client.queueSubscriptions,
          moved.client.channelSubscriptions⟩ history s ∧
        (∀ name, ∃ found, search 0 .queues name s.mem = some (found, s.mem) ∧
          found.bind s.mem.cells = (moved.client.queueSubscriptions.find? fun q =>
            strcmpEq q.name.array name).map .queueSubscription) ∧
        ∀ name, ∃ found, search 0 .channels name s.mem = some (found, s.mem) ∧
          found.bind s.mem.cells = (moved.client.channelSubscriptions.find? fun c =>
            strcmpEq c.name.array name).map .channelSubscription :=
  ⟨by decide +kernel, memory_realizes reachable_moved⟩

end Libemq.Lifetimes
