import Libemq.Connections
import Libemq.Responses

/-!
The subscriptions of a client in memory. The string that a call is given can be the name that
a callback was handed, which is in a subscription itself.
-/

namespace Libemq.Subscriptions

open Libemq.CStrings
open Libemq.Blocks (Memory)
open Libemq.Inventories
open Libemq.Client
open Libemq.Commands
open Libemq.Responses
open Libemq.LinkedLists
open Libemq.HeapLists
open Libemq.Connections

/-- A `const char *`: a string of the application, or the name of the subscription at an
address. -/
inductive CharPtr where
  | string (s : CString)
  | name (subscription : Nat)
  deriving DecidableEq, Repr

def CharPtr.read : CharPtr → Life (List UInt8)
  | .string s => pure s.array
  | .name subscription => load Resource.name? subscription

def emptyString : CString := ⟨[], by decide⟩

def zeroQueueSubscription : EmqQueueSubscription := ⟨⟨emptyString, by decide⟩, 0⟩

def zeroChannelSubscription : EmqChannelSubscription :=
  ⟨⟨emptyString, by decide⟩, ⟨emptyString, by decide⟩, 0⟩

/-- `emq_queue_subscription_create`. A name that does not fit is copied beyond the array. -/
def emqQueueSubscriptionCreate (grants : Nat → Nat → Bool) (name : CharPtr)
    (callback : CallbackPtr) : Life (Option Nat) := do
  match ← acquire grants 72 (.queueSubscription zeroQueueSubscription) with
  | none => pure none
  | some subscription => do
      let name ← name.read
      if h : strlen (contents name) < 64 then do
        store subscription (.queueSubscription ⟨⟨contents name, h⟩, callback⟩)
        pure (some subscription)
      else failure

def emqChannelSubscriptionCreate (grants : Nat → Nat → Bool) (name data : CharPtr)
    (callback : CallbackPtr) : Life (Option Nat) := do
  match ← acquire grants 104 (.channelSubscription zeroChannelSubscription) with
  | none => pure none
  | some subscription => do
      let name ← name.read
      let data ← data.read
      if h : strlen (contents name) < 64 ∧ strlen (contents data) < 32 then do
        store subscription
          (.channelSubscription (channelSubscription (contents name) (contents data) callback h))
        pure (some subscription)
      else failure

/-- One of the two lists of a client. -/
inductive Side where
  | queues
  | channels
  deriving DecidableEq, Repr

def Side.member : Side → ClientCell → Option Nat
  | .queues, c => c.queueSubscriptions
  | .channels, c => c.channelSubscriptions

/-- How a subscribing call ends once its request is acknowledged. The result of
`emq_list_add_value` is not looked at. -/
def subscribe (grants : Nat → Nat → Bool) (client : Nat) (side : Side)
    (create : Life (Option Nat)) : Life Status := do
  match ← create with
  | none => pure .err
  | some subscription => do
      let c ← load Resource.client? client
      let l ← deref (side.member c)
      let _ ← emqListAddValue grants l subscription
      pure .ok

def sameName (name : CharPtr) (subscription : Nat) : Life Bool := do
  let stored ← load Resource.name? subscription
  let given ← name.read
  pure (strcmpEq stored given)

/-- How an unsubscribing call ends once its request is acknowledged. -/
def unsubscribe (client : Nat) (side : Side) (name : CharPtr) : Life Status := do
  let c ← load Resource.client? client
  let l ← deref (side.member c)
  let (list, _) ← load Resource.list? l
  deleteLoop (sameName name) l (list.length + 1) list.head
  pure .ok

/-- What a call does to the lists of its client. -/
inductive Edit where
  | subscribeQueue (name : CharPtr) (callback : CallbackPtr)
  | subscribeChannel (name data : CharPtr) (callback : CallbackPtr)
  | unsubscribeQueue (name : CharPtr)
  | unsubscribeChannel (name : CharPtr)
  deriving DecidableEq, Repr

def Edit.run (grants : Nat → Nat → Bool) (client : Nat) : Edit → Life Status
  | .subscribeQueue name callback =>
      subscribe grants client .queues (emqQueueSubscriptionCreate grants name callback)
  | .subscribeChannel name data callback =>
      subscribe grants client .channels (emqChannelSubscriptionCreate grants name data callback)
  | .unsubscribeQueue name => unsubscribe client .queues name
  | .unsubscribeChannel name => unsubscribe client .channels name

def searchLoop (name : List UInt8) : (fuel : Nat) → (iter : Option Nat) → Life (Option Nat)
  | 0, _ => failure
  | _ + 1, none => pure none
  | fuel + 1, some current => do
      let node ← load Resource.node? current
      let stored ← load Resource.name? node.value
      if strcmpEq stored name then pure (some node.value)
      else searchLoop name fuel node.next

/-- The subscription that an event goes to. -/
def search (client : Nat) (side : Side) (name : List UInt8) : Life (Option Nat) := do
  let c ← load Resource.client? client
  let l ← deref (side.member c)
  let (list, _) ← load Resource.list? l
  searchLoop name (list.length + 1) list.head

def lengthOf (client : Nat) (side : Side) : Life Nat := do
  let c ← load Resource.client? client
  let l ← deref (side.member c)
  let (list, _) ← load Resource.list? l
  pure list.length

def turn (client : Nat) (side : Side) (name : List UInt8) : Life (Option Nat) := do
  let queues ← lengthOf client .queues
  if queues = 0 then do
    let channels ← lengthOf client .channels
    if channels = 0 then pure none else search client side name
  else search client side name

def subscriptions (client : Nat) (side : Side) : Life (List Nat) := do
  let c ← load Resource.client? client
  let l ← deref (side.member c)
  emqListValues l

def earlier (client : Nat) (side : Side) (mem : Memory Resource) : List Nat :=
  ((subscriptions client side mem).map fun result => result.1.dropLast).getD []

/-- The call is given a name that its loop frees while there is more to compare. -/
def Edit.Dangles (client : Nat) (mem : Memory Resource) : Edit → Prop
  | .unsubscribeQueue (.name b) => b ∈ earlier client .queues mem
  | .unsubscribeChannel (.name b) => b ∈ earlier client .channels mem
  | _ => False

namespace Side

def list : Side → Site → Nat
  | .queues, place => place.queues
  | .channels, place => place.channels

def nodes : Side → Site → List (Nat × Nat)
  | .queues, place => place.queueNodes
  | .channels, place => place.channelNodes

def others : Side → Site → List Nat
  | .queues, place => place.client :: place.request :: owned place.channels place.channelNodes
  | .channels, place => place.client :: place.request :: owned place.queues place.queueNodes

def withNodes : Side → Site → List (Nat × Nat) → Site
  | .queues, place, nodes => { place with queueNodes := nodes }
  | .channels, place, nodes => { place with channelNodes := nodes }

end Side

/-- The values of some nodes hold these. -/
def Contents (mem : Memory Resource) (nodes : List (Nat × Nat)) (held : List Resource) : Prop :=
  nodes.map (fun node => mem.cells node.2) = held.map some

/-- The subscriptions of a client, in iteration order. -/
structure Registry where
  queues : List EmqQueueSubscription
  channels : List EmqChannelSubscription
  deriving DecidableEq, Repr

def Registry.cells (r : Registry) : Side → List Resource
  | .queues => r.queues.map .queueSubscription
  | .channels => r.channels.map .channelSubscription

/-- A client whose lists hold these subscriptions. -/
structure Keeps (mem : Memory Resource) (place : Site) (fd : Option Nat) (r : Registry) :
    Prop where
  attached : Attached mem place fd
  contents : ∀ side : Side, Contents mem (side.nodes place) (r.cells side)

section Sides

variable {mem mem' : Memory Resource} {place : Site} {fd : Option Nat} {rest : List Nat}
  {nodes : List (Nat × Nat)} {held : List Resource} {r : Registry} {side : Side}

theorem Side.blocks_perm (side : Side) (place : Site) :
    place.blocks.Perm (owned (side.list place) (side.nodes place) ++ side.others place) := by
  cases side with
  | queues => exact (List.perm_middle.symm.cons _).trans List.perm_middle.symm
  | channels =>
      refine ((List.perm_append_comm.cons _).cons _).trans ?_
      exact (List.perm_middle.symm.cons _).trans List.perm_middle.symm

theorem Attached.chain (hattached : Attached mem place fd) (side : Side) :
    Chain mem (side.list place) true (side.nodes place) := by
  cases side with
  | queues => exact hattached.queues
  | channels => exact hattached.channels

theorem Attached.member (hattached : Attached mem place fd) (side : Side) :
    ∃ c, mem.cells place.client = some (.client c) ∧ side.member c = some (side.list place) := by
  refine ⟨_, hattached.client, ?_⟩
  cases side <;> rfl

theorem Attached.withNodes (hattached : Attached mem place fd)
    (htraded : Traded mem mem' (owned (side.list place) nodes) (side.others place ++ rest))
    (hchain : Chain mem' (side.list place) true nodes) (hfreeable : Freeable mem' nodes) :
    Attached mem' (side.withNodes place nodes) fd ∧
      Traded mem mem' (side.withNodes place nodes).blocks rest := by
  have hother : ∀ b ∈ side.others place, mem'.cells b = mem.cells b :=
    fun b hb => htraded.frame b (List.mem_append_left _ hb)
  cases side with
  | queues =>
      have hchannels : ∀ b ∈ owned place.channels place.channelNodes,
          mem'.cells b = mem.cells b :=
        fun b hb => hother b (List.mem_cons_of_mem _ (List.mem_cons_of_mem _ hb))
      refine ⟨⟨?_, ?_, hchain, hattached.channels.congr fun b hb =>
        hchannels b (List.cons_subset_cons _ (pointers_subset _) hb), hfreeable, fun v hv => ?_⟩,
        htraded.widen.perm (Side.blocks_perm .queues { place with queueNodes := nodes }).symm⟩
      · exact (hother _ List.mem_cons_self).trans hattached.client
      · exact (hother _ (List.mem_cons_of_mem _ List.mem_cons_self)).trans hattached.request
      · rw [hchannels v (List.mem_cons_of_mem _ (values_subset _ hv))]
        exact hattached.channelValues v hv
  | channels =>
      have hqueues : ∀ b ∈ owned place.queues place.queueNodes, mem'.cells b = mem.cells b :=
        fun b hb => hother b (List.mem_cons_of_mem _ (List.mem_cons_of_mem _ hb))
      refine ⟨⟨?_, ?_, hattached.queues.congr fun b hb =>
        hqueues b (List.cons_subset_cons _ (pointers_subset _) hb), hchain, fun v hv => ?_,
        hfreeable⟩,
        htraded.widen.perm (Side.blocks_perm .channels { place with channelNodes := nodes }).symm⟩
      · exact (hother _ List.mem_cons_self).trans hattached.client
      · exact (hother _ (List.mem_cons_of_mem _ List.mem_cons_self)).trans hattached.request
      · rw [hqueues v (List.mem_cons_of_mem _ (values_subset _ hv))]
        exact hattached.queueValues v hv

theorem Contents.congr (hcontents : Contents mem nodes held)
    (hsame : ∀ v ∈ values nodes, mem'.cells v = mem.cells v) : Contents mem' nodes held := by
  refine Eq.trans (List.map_congr_left fun node hnode => ?_) hcontents
  exact hsame _ (List.mem_map_of_mem hnode)

theorem Contents.cons {p v : Nat} {cell : Resource} (hcell : mem.cells v = some cell)
    (hcontents : Contents mem nodes held) : Contents mem ((p, v) :: nodes) (cell :: held) := by
  rw [Contents, List.map_cons, List.map_cons, hcell, hcontents]

theorem Contents.value (hcontents : Contents mem nodes held) {v : Nat} (hv : v ∈ values nodes) :
    ∃ cell ∈ held, mem.cells v = some cell := by
  obtain ⟨node, hnode, rfl⟩ := List.mem_map.mp hv
  have hmem : mem.cells node.2 ∈ held.map some := by
    rw [← hcontents]
    exact List.mem_map_of_mem (f := fun node : Nat × Nat => mem.cells node.2) hnode
  obtain ⟨cell, hcell, heq⟩ := List.mem_map.mp hmem
  exact ⟨cell, hcell, heq.symm⟩

theorem Registry.named {cell : Resource} (hcell : cell ∈ r.cells side) :
    ∃ width, ∃ field : FieldString width, cell.name? = some field.array ∧
      cell.block? = some () := by
  cases side with
  | queues =>
      obtain ⟨s, _, rfl⟩ := List.mem_map.mp hcell
      exact ⟨_, s.name, rfl, rfl⟩
  | channels =>
      obtain ⟨s, _, rfl⟩ := List.mem_map.mp hcell
      exact ⟨_, s.name, rfl, rfl⟩

theorem freeable_of_contents (hcontents : Contents mem nodes (r.cells side)) :
    Freeable mem nodes := by
  intro v hv
  obtain ⟨cell, hmem, hcell⟩ := hcontents.value hv
  obtain ⟨_, _, _, hblock⟩ := Registry.named hmem
  exact ⟨cell, hcell, hblock⟩

theorem values_subset_blocks (side : Side) (place : Site) :
    values (side.nodes place) ⊆ place.blocks := fun _ hv =>
  (Side.blocks_perm side place).mem_iff.mpr
    (List.mem_append_left _ (List.mem_cons_of_mem _ (values_subset _ hv)))

theorem Keeps.congr (hkeeps : Keeps mem place fd r)
    (hsame : ∀ b ∈ place.blocks, mem'.cells b = mem.cells b) : Keeps mem' place fd r where
  attached := hkeeps.attached.extends hsame
  contents side := (hkeeps.contents side).congr fun v hv =>
    hsame v (values_subset_blocks side place hv)

theorem Keeps.withNodes (hkeeps : Keeps mem place fd r) {r' : Registry}
    (htraded : Traded mem mem' (owned (side.list place) nodes) (side.others place ++ rest))
    (hchain : Chain mem' (side.list place) true nodes)
    (hcontents : Contents mem' nodes (r'.cells side))
    (hother : ∀ side', side' ≠ side → r'.cells side' = r.cells side') :
    Keeps mem' (side.withNodes place nodes) fd r' ∧
      Traded mem mem' (side.withNodes place nodes).blocks rest := by
  obtain ⟨hattached, htraded'⟩ :=
    Attached.withNodes hkeeps.attached htraded hchain (freeable_of_contents hcontents)
  refine ⟨⟨hattached, fun side' => ?_⟩, htraded'⟩
  by_cases hside : side' = side
  · subst hside
    cases side' <;> exact hcontents
  · rw [hother side' hside]
    have hnodes : side'.nodes (side.withNodes place nodes) = side'.nodes place := by
      cases side <;> cases side' <;> first | rfl | exact absurd rfl hside
    have hinside : owned (side'.list place) (side'.nodes place) ⊆ side.others place := by
      cases side <;> cases side' <;>
        first
        | exact absurd rfl hside
        | exact fun b hb => List.mem_cons_of_mem _ (List.mem_cons_of_mem _ hb)
    rw [hnodes]
    refine (hkeeps.contents side').congr fun v hv => htraded.frame v ?_
    exact List.mem_append_left _ (hinside (List.mem_cons_of_mem _ (values_subset _ hv)))

end Sides

/-- The array that a pointer leads to. -/
def CharPtr.resolve (mem : Memory Resource) : CharPtr → Option (List UInt8)
  | .string s => some s.array
  | .name subscription => (mem.cells subscription).bind Resource.name?

/-- What the call does to the lists, with its strings. -/
def Edit.commit (mem : Memory Resource) : Edit → Option Commit
  | .subscribeQueue name callback =>
      (name.resolve mem).map fun name => .subscribeQueue (contents name) callback
  | .subscribeChannel name data callback => do
      let name ← name.resolve mem
      let data ← data.resolve mem
      some (.subscribeChannel (contents name) (contents data) callback)
  | .unsubscribeQueue name =>
      (name.resolve mem).map fun name => .unsubscribeQueue (contents name)
  | .unsubscribeChannel name =>
      (name.resolve mem).map fun name => .unsubscribeChannel (contents name)

section Creating

variable {grants : Nat → Nat → Bool} {mem mem' : Memory Resource} {place : Site} {fd : Option Nat}
  {rest : List Nat} {r : Registry} {side : Side} {name data : CharPtr} {array : List UInt8}

theorem CharPtr.read_eq (hname : name.resolve mem = some array) :
    name.read mem = some (array, mem) := by
  cases name with
  | string s =>
      cases hname
      rfl
  | name subscription =>
      have hstored : (mem.cells subscription).bind Resource.name? = some array := hname
      rw [CharPtr.read, load, hstored, Option.map_some]

theorem CharPtr.resolve_congr (hname : name.resolve mem = some array)
    (hsame : ∀ b, mem.cells b ≠ none → mem'.cells b = mem.cells b) :
    name.resolve mem' = some array := by
  cases name with
  | string s => exact hname
  | name subscription =>
      rw [CharPtr.resolve, hsame subscription, ← CharPtr.resolve, hname]
      intro hnone
      rw [CharPtr.resolve, hnone] at hname
      cases hname

structure Created (mem mem' : Memory Resource) (fresh : Resource) (old rest : List Nat) :
    Prop where
  calls : mem'.calls = mem.calls + 1
  cell : mem'.cells mem.calls = some fresh
  traded : Traded mem mem' (mem.calls :: old) rest
  same : ∀ b ∈ old, mem'.cells b = mem.cells b

theorem created_stored {old : List Nat} {fresh : Resource} (hstock : Stocks mem (old ++ rest))
    (blank : Resource) :
    Created mem (stored mem.calls fresh (mem.alloc blank)) fresh old rest where
  calls := rfl
  cell := stored_cells_self
  traded := (Traded.alloc hstock blank).trans
    (.stored (Traded.alloc hstock blank).stock List.mem_cons_self)
  same b hb := by
    have hne : b ≠ mem.calls := by
      rintro rfl
      exact hstock.fresh (List.mem_append_left _ hb)
    rw [stored_cells_of_ne hne, Memory.alloc_cells_of_ne hne]

theorem resolve_alloc (hsane : mem.Sane) (hname : name.resolve mem = some array)
    (blank : Resource) : name.resolve (mem.alloc blank) = some array :=
  CharPtr.resolve_congr hname (hsane.extends_alloc blank)

theorem emqQueueSubscriptionCreate_granted {old : List Nat} (callback : CallbackPtr)
    (hgrant : grants mem.calls 72 = true) (hname : name.resolve mem = some array)
    (hfits : strlen (contents array) < 64) (hstock : Stocks mem (old ++ rest)) :
    ∃ mem', emqQueueSubscriptionCreate grants name callback mem = some (some mem.calls, mem') ∧
      Created mem mem' (.queueSubscription ⟨⟨contents array, hfits⟩, callback⟩) old rest := by
  refine ⟨_, ?_, created_stored hstock (.queueSubscription zeroQueueSubscription)⟩
  · rw [emqQueueSubscriptionCreate, bind_of_some (acquire_granted hgrant)]
    simp only
    rw [bind_of_some (CharPtr.read_eq (resolve_alloc hstock.sane hname _)), dif_pos hfits,
      bind_of_some (store_used Memory.alloc_cells_self), pure_apply]

theorem emqChannelSubscriptionCreate_granted {old : List Nat} {bytes : List UInt8}
    (callback : CallbackPtr) (hgrant : grants mem.calls 104 = true)
    (hname : name.resolve mem = some array) (hdata : data.resolve mem = some bytes)
    (hfits : strlen (contents array) < 64 ∧ strlen (contents bytes) < 32)
    (hstock : Stocks mem (old ++ rest)) :
    ∃ mem', emqChannelSubscriptionCreate grants name data callback mem =
        some (some mem.calls, mem') ∧
      Created mem mem' (.channelSubscription
        (channelSubscription (contents array) (contents bytes) callback hfits)) old rest := by
  refine ⟨_, ?_, created_stored hstock (.channelSubscription zeroChannelSubscription)⟩
  · rw [emqChannelSubscriptionCreate, bind_of_some (acquire_granted hgrant)]
    simp only
    rw [bind_of_some (CharPtr.read_eq (resolve_alloc hstock.sane hname _)),
      bind_of_some (CharPtr.read_eq (resolve_alloc hstock.sane hdata _)), dif_pos hfits,
      bind_of_some (store_used Memory.alloc_cells_self), pure_apply]

theorem emqQueueSubscriptionCreate_refused (callback : CallbackPtr)
    (hgrant : grants mem.calls 72 = false) :
    emqQueueSubscriptionCreate grants name callback mem = some (none, mem.refuse) := by
  rw [emqQueueSubscriptionCreate, bind_of_some (acquire_refused hgrant)]
  rfl

theorem emqChannelSubscriptionCreate_refused (callback : CallbackPtr)
    (hgrant : grants mem.calls 104 = false) :
    emqChannelSubscriptionCreate grants name data callback mem = some (none, mem.refuse) := by
  rw [emqChannelSubscriptionCreate, bind_of_some (acquire_refused hgrant)]
  rfl

theorem load_list (hattached : Attached mem place fd) (side : Side) :
    ∃ c, load Resource.client? place.client mem = some (c, mem) ∧
      deref (side.member c) mem = some (side.list place, mem) := by
  obtain ⟨c, hclient, hmember⟩ := Attached.member hattached side
  refine ⟨c, load_client hclient, ?_⟩
  rw [hmember]
  rfl

theorem subscribe_refused {create : Life (Option Nat)} (hcreate : create mem = some (none, mem')) :
    subscribe grants place.client side create mem = some (.err, mem') := by
  rw [subscribe, bind_of_some hcreate]
  rfl

theorem subscribe_lost {create : Life (Option Nat)} {cell : Resource}
    (hgrant : grants (mem.calls + 1) 24 = false)
    (hcreate : create mem = some (some mem.calls, mem'))
    (hcreated : Created mem mem' cell place.blocks rest) (hkeeps : Keeps mem place fd r) :
    subscribe grants place.client side create mem = some (.ok, mem'.refuse) ∧
      Keeps mem'.refuse place fd r ∧ Traded mem mem'.refuse (place.blocks ++ [mem.calls]) rest := by
  have hkeeps' := hkeeps.congr hcreated.same
  obtain ⟨c, hload, hlist⟩ := load_list hkeeps'.attached side
  have hrefused : emqListAddValue grants (side.list place) mem.calls mem' =
      some (.err, mem'.refuse) := by
    refine emqListAddValue_refused ?_
    rw [hcreated.calls]
    exact hgrant
  refine ⟨?_, hkeeps'.congr fun _ _ => rfl, ?_⟩
  · rw [subscribe, bind_of_some hcreate]
    simp only
    rw [bind_of_some hload, bind_of_some hlist, bind_of_some hrefused, pure_apply]
  · exact (hcreated.traded.trans (.refuse hcreated.traded.stock)).perm
      (List.perm_append_singleton _ _).symm

theorem subscribe_added {create : Life (Option Nat)} {cell : Resource} {r' : Registry}
    (hgrant : grants (mem.calls + 1) 24 = true)
    (hcreate : create mem = some (some mem.calls, mem'))
    (hcreated : Created mem mem' cell place.blocks rest) (hkeeps : Keeps mem place fd r)
    (hside : r'.cells side = cell :: r.cells side)
    (hother : ∀ side', side' ≠ side → r'.cells side' = r.cells side') :
    ∃ mem1 place', subscribe grants place.client side create mem = some (.ok, mem1) ∧
      place'.client = place.client ∧ Keeps mem1 place' fd r' ∧
      Traded mem mem1 place'.blocks rest := by
  have hkeeps' := hkeeps.congr hcreated.same
  obtain ⟨c, hload, hlist⟩ := load_list hkeeps'.attached side
  have hstock : Stocks mem' (mem.calls :: owned (side.list place) (side.nodes place) ++
      (side.others place ++ rest)) := by
    refine hcreated.traded.stock.perm ?_
    rw [List.cons_append, List.cons_append, ← List.append_assoc]
    exact ((Side.blocks_perm side place).append_right rest).cons _
  rw [← hcreated.calls] at hgrant
  obtain ⟨mem1, hadd, _, htraded, hchain, hvalues⟩ :=
    emqListAddValue_granted hgrant hstock (Attached.chain hkeeps'.attached side)
  have hcontents : Contents mem1 ((mem'.calls, mem.calls) :: side.nodes place)
      (r'.cells side) := by
    rw [hside]
    refine .cons ?_ ((hkeeps'.contents side).congr fun v hv =>
      hvalues v (List.mem_cons_of_mem _ hv))
    rw [hvalues _ List.mem_cons_self, hcreated.cell]
  obtain ⟨hkeeps1, htraded1⟩ := hkeeps'.withNodes htraded hchain hcontents hother
  refine ⟨mem1, side.withNodes place ((mem'.calls, mem.calls) :: side.nodes place), ?_, ?_,
    hkeeps1, hcreated.traded.trans htraded1⟩
  · rw [subscribe, bind_of_some hcreate]
    simp only
    rw [bind_of_some hload, bind_of_some hlist, bind_of_some hadd, pure_apply]
  · cases side <;> rfl

end Creating

def differs (given : List UInt8) (cell : Resource) : Bool :=
  !strcmpEq (cell.name?.getD []) given

section Unsubscribing

variable {mem mem' : Memory Resource} {place : Site} {fd : Option Nat} {rest watched : List Nat}
  {nodes front : List (Nat × Nat)} {held : List Resource} {r r' : Registry} {side : Side}
  {name : CharPtr} {given array : List UInt8} {p b v : Nat}

def verdict (mem : Memory Resource) (given : List UInt8) (v : Nat) : Bool :=
  strcmpEq (((mem.cells v).bind Resource.name?).getD []) given

theorem sameName_eq (hvalue : (mem.cells v).bind Resource.name? = some array)
    (hname : name.resolve mem = some given) :
    sameName name v mem = some (strcmpEq array given, mem) := by
  have hload : load Resource.name? v mem = some (array, mem) := by
    rw [load, hvalue, Option.map_some]
  rw [sameName, bind_of_some hload, bind_of_some (CharPtr.read_eq hname), pure_apply]

def Named (mem : Memory Resource) (nodes : List (Nat × Nat)) : Prop :=
  ∀ v ∈ values nodes, ∃ width, ∃ field : FieldString width,
    (mem.cells v).bind Resource.name? = some field.array

theorem named_of_contents (hcontents : Contents mem nodes (r.cells side)) : Named mem nodes := by
  intro v hv
  obtain ⟨cell, hmem, hcell⟩ := hcontents.value hv
  obtain ⟨width, field, hname, _⟩ := Registry.named hmem
  refine ⟨width, field, ?_⟩
  rw [hcell, Option.bind_some, hname]

theorem decides_of_resolve (hnamed : Named mem front)
    (hname : ∀ mem', (∀ b ∈ watched, mem'.cells b = mem.cells b) → ∀ v ∈ values front,
      mem'.cells v = mem.cells v → name.resolve mem' = some given) :
    Decides (sameName name) (verdict mem given) mem front watched := by
  intro mem' hwatched v hv hsame
  obtain ⟨width, field, harray⟩ := hnamed v hv
  rw [← hsame] at harray
  rw [sameName_eq harray (hname mem' hwatched v hv hsame), verdict, ← hsame, harray]
  rfl

theorem Contents.spared (hcontents : Contents mem nodes held) :
    Contents mem (spared (verdict mem given) nodes) (held.filter (differs given)) := by
  induction nodes generalizing held with
  | nil =>
      cases held with
      | nil => rfl
      | cons cell held => cases hcontents
  | cons node nodes ih =>
      cases held with
      | nil => cases hcontents
      | cons cell held =>
          obtain ⟨hcell, hrest⟩ : mem.cells node.2 = some cell ∧ Contents mem nodes held :=
            List.cons.inj hcontents
          have hverdict : (!verdict mem given node.2) = differs given cell := by
            rw [verdict, hcell, Option.bind_some, differs]
          rw [HeapLists.spared, List.filter_cons, List.filter_cons, hverdict]
          cases differs given cell with
          | true => exact .cons hcell (ih hrest)
          | false => exact ih hrest

theorem nul_mem_field {width : Nat} (field : FieldString width) : (0 : UInt8) ∈ field.array := by
  rw [FieldString.array_eq]
  exact List.mem_append_left _ field.str.nul_mem_array

theorem strcmpEq_self {width : Nat} (field : FieldString width) :
    strcmpEq field.array field.array = true :=
  (field.strcmpEq_array (nul_mem_field field)).mpr (contents_charArray field.fits)

theorem verdict_congr (hsame : mem'.cells v = mem.cells v) :
    verdict mem' given v = verdict mem given v := by
  rw [verdict, verdict, hsame]

variable {l : Nat}

theorem deleteLoop_safe (hstock : Stocks mem (owned l nodes ++ rest))
    (hchain : Chain mem l true nodes) (hnamed : Named mem nodes) (hfreeable : Freeable mem nodes)
    (hname : name.resolve mem = some given)
    (hsafe : ∀ b, name = .name b → b ∈ rest ∨ ∃ front p, nodes = front ++ [(p, b)]) :
    ∃ mem', deleteLoop (sameName name) l (nodes.length + 1) (pointers nodes).head? mem =
        some ((), mem') ∧
      Traded mem mem' (owned l (spared (verdict mem given) nodes)) rest ∧
      Chain mem' l true (spared (verdict mem given) nodes) ∧
      ∀ v ∈ values (spared (verdict mem given) nodes), mem'.cells v = mem.cells v := by
  by_cases houtside : ∀ b, name = .name b → b ∈ rest
  · have hdecides : Decides (sameName name) (verdict mem given) mem nodes ([] ++ rest) := by
      refine decides_of_resolve hnamed fun mem' hwatched _ _ _ => ?_
      cases name with
      | string s => exact hname
      | name b => rw [CharPtr.resolve, hwatched b (houtside b rfl), ← CharPtr.resolve, hname]
    have hstock' : Stocks mem (owned l ([] ++ (nodes ++ [])) ++ rest) := by simpa using hstock
    have hchain' : Chain mem l true ([] ++ (nodes ++ [])) := by simpa using hchain
    obtain ⟨mem', hloop, _, htraded, hchain1, hvalues⟩ :=
      deleteLoop_front nodes hstock' hchain' hfreeable hdecides
    rw [List.nil_append, List.append_nil] at htraded hchain1 hvalues
    refine ⟨mem', ?_, htraded, hchain1, hvalues⟩
    rw [Nat.add_comm, ← List.append_nil nodes]
    simpa [deleteLoop] using hloop 1
  · push Not at houtside
    obtain ⟨b, rfl, hb⟩ := houtside
    obtain ⟨front, p, rfl⟩ := (hsafe b rfl).resolve_left hb
    have hfrontNamed : Named mem front := fun v hv => hnamed v (by simp [hv])
    have hfrontFree : Freeable mem front := fun v hv => hfreeable v (by simp [hv])
    have hdecides : Decides (sameName (.name b)) (verdict mem given) mem front
        (values [(p, b)] ++ rest) :=
      decides_of_resolve hfrontNamed fun mem' hwatched _ _ _ => by
        rw [CharPtr.resolve, hwatched b List.mem_cons_self, ← CharPtr.resolve, hname]
    obtain ⟨mem1, hloop1, _, htraded1, hchain1, hvalues1⟩ :=
      @deleteLoop_front _ _ _ _ _ front [] mem hstock hchain hfrontFree hdecides
    rw [List.nil_append] at htraded1 hchain1 hvalues1
    have hb1 : mem1.cells b = mem.cells b := hvalues1 b (by simp)
    have hlastNamed : Named mem1 [(p, b)] := by
      intro v hv
      obtain rfl := List.mem_singleton.mp hv
      rw [hb1]
      exact hnamed v (by simp)
    have hlastFree : Freeable mem1 [(p, b)] := by
      intro v hv
      obtain rfl := List.mem_singleton.mp hv
      rw [hb1]
      exact hfreeable v (by simp)
    have hlast : Decides (sameName (.name b)) (verdict mem1 given) mem1 [(p, b)]
        (values [] ++ rest) :=
      decides_of_resolve hlastNamed fun mem' _ v hv hsame => by
        obtain rfl := List.mem_singleton.mp hv
        rw [CharPtr.resolve, hsame, hb1, ← CharPtr.resolve, hname]
    obtain ⟨mem2, hloop2, _, htraded2, hchain2, hvalues2⟩ :=
      @deleteLoop_front _ _ _ _ [] [(p, b)] (spared (verdict mem given) front) mem1
        htraded1.stock hchain1 hlastFree hlast
    have hspared :
        spared (verdict mem given) front ++ (spared (verdict mem1 given) [(p, b)] ++ []) =
          spared (verdict mem given) (front ++ [(p, b)]) := by
      have hverdict : verdict mem1 given b = verdict mem given b := verdict_congr hb1
      rw [List.append_nil, spared, spared, spared, List.filter_append]
      simp only [List.filter_cons, hverdict, List.filter_nil]
    rw [hspared] at htraded2 hchain2 hvalues2
    refine ⟨mem2, ?_, htraded1.trans htraded2, hchain2, fun v hv => ?_⟩
    · have hfuel : (front ++ [(p, b)]).length + 1 = 2 + front.length := by
        rw [List.length_append, List.length_singleton, Nat.add_comm, Nat.add_comm front.length,
          ← Nat.add_assoc]
      rw [hfuel, hloop1]
      exact hloop2 1
    · refine (hvalues2 v hv).trans (hvalues1 v ?_)
      rw [← hspared] at hv
      rw [values, List.map_append] at hv ⊢
      refine List.mem_append.mpr ((List.mem_append.mp hv).imp_right fun hv => ?_)
      rw [List.append_nil] at hv
      obtain ⟨node, hnode, rfl⟩ := List.mem_map.mp hv
      exact List.mem_map_of_mem (List.mem_filter.mp hnode).1

/-- The loop frees the name that it goes on to compare with. -/
theorem deleteLoop_dangling {next : Nat × Nat} {back : List (Nat × Nat)}
    (hnodes : nodes = front ++ (p, b) :: next :: back)
    (hstock : Stocks mem (owned l nodes ++ rest)) (hchain : Chain mem l true nodes)
    (hnamed : Named mem nodes) (hfreeable : Freeable mem nodes) :
    deleteLoop (sameName (.name b)) l (nodes.length + 1) (pointers nodes).head? mem = none := by
  subst hnodes
  obtain ⟨width, field, hfield⟩ := hnamed b (by simp)
  have hname : (CharPtr.name b).resolve mem = some field.array := hfield
  have hsplit : front ++ (p, b) :: next :: back = [] ++ (front ++ (p, b) :: next :: back) := rfl
  rw [hsplit] at hstock hchain
  have hdecides : Decides (sameName (.name b)) (verdict mem field.array) mem front
      (values ((p, b) :: next :: back) ++ rest) :=
    decides_of_resolve (fun v hv => hnamed v (by simp [hv])) fun mem' hwatched _ _ _ => by
      rw [CharPtr.resolve, hwatched b List.mem_cons_self, ← CharPtr.resolve, hname]
  obtain ⟨mem1, hloop1, _, htraded1, hchain1, hvalues1⟩ :=
    deleteLoop_front front hstock hchain (fun v hv => hfreeable v (by simp [hv])) hdecides
  rw [List.nil_append] at htraded1 hchain1 hvalues1
  have hb1 : mem1.cells b = mem.cells b := hvalues1 b (by simp)
  have hnamed1 : Named mem1 [(p, b)] := by
    intro v hv
    obtain rfl := List.mem_singleton.mp hv
    rw [hb1]
    exact ⟨width, field, hfield⟩
  have hfreeable1 : Freeable mem1 [(p, b)] := by
    intro v hv
    obtain rfl := List.mem_singleton.mp hv
    rw [hb1]
    exact hfreeable v (by simp)
  have hdecides1 : Decides (sameName (.name b)) (verdict mem1 field.array) mem1 [(p, b)]
      (values (next :: back) ++ rest) :=
    decides_of_resolve hnamed1 fun mem' _ v hv hsame => by
      obtain rfl := List.mem_singleton.mp hv
      rw [CharPtr.resolve, hsame, hb1, ← CharPtr.resolve, hname]
  have hverdict : verdict mem1 field.array b = true := by
    rw [verdict, hb1, hfield]
    exact strcmpEq_self field
  obtain ⟨mem2, hloop2, _, htraded2, hchain2, _⟩ :=
    @deleteLoop_front _ _ _ _ (next :: back) [(p, b)] (spared (verdict mem field.array) front) mem1
      htraded1.stock hchain1 hfreeable1 hdecides1
  have hgone : spared (verdict mem1 field.array) [(p, b)] = [] := by simp [spared, hverdict]
  rw [hgone, List.nil_append] at htraded2 hchain2
  -- The name is in no block that is still in use.
  have hunused : mem2.cells b = none := by
    by_contra hused
    have hnot := (List.nodup_cons.mp ((htraded1.stock.perm
      ((owned_perm l p b _ _).append_right rest)).nodup)).1
    exact hnot (List.mem_cons_of_mem _ ((htraded2.stock.used b).mp hused))
  have hfuel : (front ++ (p, b) :: next :: back).length + 1 =
      back.length + 2 + [(p, b)].length + front.length := by
    simp only [List.length_append, List.length_cons, List.length_nil]
    omega
  rw [hfuel, hloop1]
  refine (hloop2 _).trans ?_
  obtain ⟨q, w⟩ := next
  obtain ⟨prev, hnode⟩ := hchain2.node
  have hload : load Resource.node? q mem2 = some (⟨prev, (pointers back).head?, w⟩, mem2) :=
    load_eq hnode rfl
  have hread : sameName (.name b) w mem2 = none := by
    rw [sameName]
    cases hstored : load Resource.name? w mem2 with
    | none => exact bind_of_none hstored
    | some result =>
        obtain ⟨stored, mem3⟩ := result
        obtain ⟨_, _, heq⟩ := Option.map_eq_some_iff.mp hstored
        cases heq
        rw [bind_of_some hstored]
        exact bind_of_none (load_unused hunused)
  simp only [pointers, List.map_cons, List.head?_cons, deleteLoop]
  rw [bind_of_some hload]
  exact bind_of_none hread

theorem mem_blocks : b ∈ blocks nodes ↔ b ∈ pointers nodes ∨ b ∈ values nodes := by
  induction nodes with
  | nil => simp
  | cons node nodes ih =>
      simp only [blocks_cons, List.mem_cons, pointers, values, List.map_cons] at ih ⊢
      rw [ih]
      tauto

theorem named_apart (hchain : Chain mem l true nodes)
    (hb : (mem.cells b).bind Resource.name? = some array) (hvalues : b ∉ values nodes) :
    b ∉ owned l nodes := by
  obtain ⟨list, hlist, hsegment, _, _⟩ := hchain
  intro hmem
  rcases List.mem_cons.mp hmem with rfl | hmem
  · rw [hlist] at hb
    cases hb
  · rcases mem_blocks.mp hmem with hpointer | hvalue
    · obtain ⟨node, hnode⟩ := Option.ne_none_iff_exists'.mp (hsegment.used b hpointer)
      rw [nodesOf_eq_some.mp hnode] at hb
      cases hb
    · exact hvalues hvalue

theorem mem_dropLast_values :
    b ∈ (values nodes).dropLast ↔ ∃ front p next back, nodes = front ++ (p, b) :: next :: back := by
  rw [values, ← List.map_dropLast, List.mem_map]
  constructor
  · rintro ⟨⟨p, b⟩, hnode, rfl⟩
    obtain ⟨front, back, hdrop⟩ := List.append_of_mem hnode
    have hne : nodes ≠ [] := by
      rintro rfl
      cases hnode
    obtain ⟨next, rest, hrest⟩ := List.exists_cons_of_ne_nil
      (List.append_ne_nil_of_right_ne_nil back (List.cons_ne_nil (nodes.getLast hne) []))
    refine ⟨front, p, next, rest, ?_⟩
    rw [← List.dropLast_append_getLast hne, hdrop, List.append_assoc, List.cons_append, hrest]
  · rintro ⟨front, p, next, back, rfl⟩
    refine ⟨(p, b), ?_, rfl⟩
    rw [List.dropLast_append_of_ne_nil (List.cons_ne_nil _ _), List.dropLast_cons_cons]
    exact List.mem_append_right _ List.mem_cons_self

theorem last_of_not_mem_dropLast (h : b ∉ (values nodes).dropLast) (hb : b ∈ values nodes) :
    ∃ front p, nodes = front ++ [(p, b)] := by
  obtain ⟨⟨p, _⟩, hnode, rfl⟩ := List.mem_map.mp hb
  obtain ⟨front, back, rfl⟩ := List.append_of_mem hnode
  cases back with
  | nil => exact ⟨front, p, rfl⟩
  | cons next back => exact absurd (mem_dropLast_values.mpr ⟨front, p, next, back, rfl⟩) h

theorem subscriptions_eq (hattached : Attached mem place fd) (side : Side) :
    subscriptions place.client side mem = some (values (side.nodes place), mem) := by
  obtain ⟨c, hload, hlist⟩ := load_list hattached side
  rw [subscriptions, bind_of_some hload, bind_of_some hlist,
    emqListValues_chain (Attached.chain hattached side)]

theorem earlier_eq (hattached : Attached mem place fd) (side : Side) :
    earlier place.client side mem = (values (side.nodes place)).dropLast := by
  rw [earlier, subscriptions_eq hattached side]
  rfl

theorem unsubscribe_eq (hattached : Attached mem place fd) :
    unsubscribe place.client side name mem =
      (do
        deleteLoop (sameName name) (side.list place) ((side.nodes place).length + 1)
          (pointers (side.nodes place)).head?
        pure Status.ok : Life Status) mem := by
  obtain ⟨c, hload, hlist⟩ := load_list hattached side
  obtain ⟨list, hmembers, hlength, hhead⟩ := (Attached.chain hattached side).head
  rw [unsubscribe, bind_of_some hload, bind_of_some hlist, bind_of_some hmembers]
  simp only
  rw [hlength, hhead]

theorem unsubscribe_safe (hkeeps : Keeps mem place fd r)
    (hstock : Stocks mem (place.blocks ++ rest)) (hname : name.resolve mem = some given)
    (hsafe : ∀ b, name = .name b → b ∉ earlier place.client side mem)
    (hside : r'.cells side = (r.cells side).filter (differs given))
    (hother : ∀ side', side' ≠ side → r'.cells side' = r.cells side') :
    ∃ mem' place', unsubscribe place.client side name mem = some (.ok, mem') ∧
      place'.client = place.client ∧ Keeps mem' place' fd r' ∧
      Traded mem mem' place'.blocks rest := by
  have hchain := Attached.chain hkeeps.attached side
  have hcontents := hkeeps.contents side
  have hearlier := earlier_eq hkeeps.attached side
  have hstock' : Stocks mem (owned (side.list place) (side.nodes place) ++
      (side.others place ++ rest)) := by
    rw [← List.append_assoc]
    exact hstock.perm ((Side.blocks_perm side place).append_right rest)
  obtain ⟨mem', hloop, htraded, hchain', hvalues⟩ := deleteLoop_safe hstock' hchain
    (named_of_contents hcontents) (freeable_of_contents hcontents) hname fun b hb => by
      subst hb
      by_cases hmem : b ∈ values (side.nodes place)
      · exact .inr (last_of_not_mem_dropLast (hearlier ▸ hsafe b rfl) hmem)
      · have hused : b ∈ owned (side.list place) (side.nodes place) ++
            (side.others place ++ rest) := by
          refine (hstock'.used b).mp fun hnone => ?_
          rw [CharPtr.resolve, hnone] at hname
          cases hname
        exact .inl ((List.mem_append.mp hused).resolve_left (named_apart hchain hname hmem))
  have hkept : Contents mem' (spared (verdict mem given) (side.nodes place)) (r'.cells side) := by
    rw [hside]
    exact hcontents.spared.congr hvalues
  obtain ⟨hkeeps', htraded'⟩ := hkeeps.withNodes htraded hchain' hkept hother
  refine ⟨mem', _, ?_, ?_, hkeeps', htraded'⟩
  · rw [unsubscribe_eq hkeeps.attached, bind_of_some hloop, pure_apply]
  · cases side <;> rfl

theorem unsubscribe_dangling (hkeeps : Keeps mem place fd r)
    (hstock : Stocks mem (place.blocks ++ rest)) (hearlier : b ∈ earlier place.client side mem) :
    unsubscribe place.client side (.name b) mem = none := by
  have hcontents := hkeeps.contents side
  have hstock' : Stocks mem (owned (side.list place) (side.nodes place) ++
      (side.others place ++ rest)) := by
    rw [← List.append_assoc]
    exact hstock.perm ((Side.blocks_perm side place).append_right rest)
  rw [earlier_eq hkeeps.attached] at hearlier
  obtain ⟨front, p, next, back, hnodes⟩ := mem_dropLast_values.mp hearlier
  rw [unsubscribe_eq hkeeps.attached]
  exact bind_of_none (deleteLoop_dangling hnodes hstock' (Attached.chain hkeeps.attached side)
    (named_of_contents hcontents) (freeable_of_contents hcontents))

end Unsubscribing

section Edits

variable (grants : Nat → Nat → Bool) (call : Nat)

def created (commit : Commit) : Bool :=
  ((Commit.allocation commit).map fun size => grants call size).getD true

def listed (commit : Commit) : Bool :=
  ((Commit.allocation commit).map fun _ => grants (call + 1) 24).getD true

def strays (commit : Commit) : List Nat :=
  if created grants call commit && !listed grants call commit then [call] else []

def Registry.after (commit : Commit) (r : Registry) : Registry :=
  if created grants call commit && listed grants call commit then
    ⟨Commit.queueList commit r.queues, Commit.channelList commit r.channels⟩
  else r

def statusAfter (commit : Commit) : Status := if created grants call commit then .ok else .err

variable {grants} {mem : Memory Resource} {place : Site} {fd : Option Nat} {rest : List Nat}
  {r : Registry} {edit : Edit} {c : Commit} {name : CharPtr} {given : List UInt8}

theorem strcmpEq_contents {width : Nat} (field : FieldString width) (hgiven : (0 : UInt8) ∈ given) :
    strcmpEq field.array (contents given).array = strcmpEq field.array given := by
  rw [Bool.eq_iff_iff, field.strcmpEq_array (contents given).nul_mem_array,
    field.strcmpEq_array hgiven, CString.contents_array]

theorem nul_mem_resolve (hname : name.resolve mem = some given) : (0 : UInt8) ∈ given := by
  cases name with
  | string s =>
      cases hname
      exact s.nul_mem_array
  | name b =>
      obtain ⟨cell, _, hcell⟩ := Option.bind_eq_some_iff.mp
        (show (mem.cells b).bind Resource.name? = some given from hname)
      cases cell with
      | queueSubscription s =>
          cases hcell
          exact nul_mem_field _
      | channelSubscription s =>
          cases hcell
          exact nul_mem_field _
      | _ => cases hcell

theorem queueCells_unsubscribed (hgiven : (0 : UInt8) ∈ given) (list : List EmqQueueSubscription) :
    (Commit.queueList (.unsubscribeQueue (contents given)) list).map Resource.queueSubscription =
      (list.map Resource.queueSubscription).filter (differs given) := by
  rw [Commit.queueList, deleteMatching_eq_filter, List.filter_map]
  congr 1
  refine List.filter_congr fun s _ => ?_
  rw [strcmpEq_contents s.name hgiven]
  rfl

theorem channelCells_unsubscribed (hgiven : (0 : UInt8) ∈ given)
    (list : List EmqChannelSubscription) :
    (Commit.channelList (.unsubscribeChannel (contents given)) list).map
        Resource.channelSubscription =
      (list.map Resource.channelSubscription).filter (differs given) := by
  rw [Commit.channelList, deleteMatching_eq_filter, List.filter_map]
  congr 1
  refine List.filter_congr fun s _ => ?_
  rw [strcmpEq_contents s.name hgiven]
  rfl

/-- What the edit `c` leaves of a client, with the memory of the subscription that it lost. -/
structure Edited (grants : Nat → Nat → Bool) (mem mem' : Memory Resource) (place place' : Site)
    (fd : Option Nat) (rest : List Nat) (r : Registry) (c : Commit) : Prop where
  client : place'.client = place.client
  keeps : Keeps mem' place' fd (r.after grants mem.calls c)
  traded : Traded mem mem' (place'.blocks ++ strays grants mem.calls c) rest

theorem subscribe_spec {side : Side} {create : Life (Option Nat)} {cell : Resource} {size : Nat}
    (hkeeps : Keeps mem place fd r) (hstock : Stocks mem (place.blocks ++ rest))
    (hsize : Commit.allocation c = some size)
    (hrefused : grants mem.calls size = false → create mem = some (none, mem.refuse))
    (hgranted : grants mem.calls size = true → ∃ mem', create mem = some (some mem.calls, mem') ∧
      Created mem mem' cell place.blocks rest)
    (hside : (Registry.mk (Commit.queueList c r.queues)
      (Commit.channelList c r.channels)).cells side = cell :: r.cells side)
    (hother : ∀ side', side' ≠ side → (Registry.mk (Commit.queueList c r.queues)
      (Commit.channelList c r.channels)).cells side' = r.cells side') :
    ∃ mem' place', subscribe grants place.client side create mem =
        some (statusAfter grants mem.calls c, mem') ∧
      Edited grants mem mem' place place' fd rest r c := by
  have hcreated : created grants mem.calls c = grants mem.calls size := by simp [created, hsize]
  have hlisted : listed grants mem.calls c = grants (mem.calls + 1) 24 := by simp [listed, hsize]
  cases hgrant : grants mem.calls size with
  | false =>
      rw [hgrant] at hcreated
      have hafter : r.after grants mem.calls c = r := by simp [Registry.after, hcreated]
      have hstrays : strays grants mem.calls c = [] := by simp [strays, hcreated]
      refine ⟨mem.refuse, place, ?_, rfl, ?_, ?_⟩
      · rw [statusAfter, hcreated]
        exact subscribe_refused (hrefused hgrant)
      · rw [hafter]
        exact hkeeps.congr fun _ _ => rfl
      · rw [hstrays, List.append_nil]
        exact .refuse hstock
  | true =>
      rw [hgrant] at hcreated
      obtain ⟨mem1, hcreate, hmade⟩ := hgranted hgrant
      have hstatus : statusAfter grants mem.calls c = .ok := by simp [statusAfter, hcreated]
      rw [hstatus]
      cases hnode : grants (mem.calls + 1) 24 with
      | false =>
          rw [hnode] at hlisted
          have hafter : r.after grants mem.calls c = r := by simp [Registry.after, hlisted]
          have hstrays : strays grants mem.calls c = [mem.calls] := by
            simp [strays, hcreated, hlisted]
          obtain ⟨hrun, hkeeps', htraded⟩ :=
            @subscribe_lost grants mem mem1 place fd rest r side create cell hnode hcreate hmade
              hkeeps
          refine ⟨_, place, hrun, rfl, ?_, ?_⟩
          · rw [hafter]
            exact hkeeps'
          · rw [hstrays]
            exact htraded
      | true =>
          rw [hnode] at hlisted
          have hstrays : strays grants mem.calls c = [] := by simp [strays, hlisted]
          obtain ⟨mem2, place', hrun, hclient, hkeeps', htraded⟩ :=
            subscribe_added hnode hcreate hmade hkeeps hside hother
          refine ⟨mem2, place', hrun, hclient, ?_, ?_⟩
          · rw [Registry.after, hcreated, hlisted]
            exact hkeeps'
          · rw [hstrays, List.append_nil]
            exact htraded

theorem unsubscribe_spec {side : Side} (hkeeps : Keeps mem place fd r)
    (hstock : Stocks mem (place.blocks ++ rest)) (hname : name.resolve mem = some given)
    (hsafe : ∀ b, name = .name b → b ∉ earlier place.client side mem)
    (hsize : Commit.allocation c = none)
    (hside : (Registry.mk (Commit.queueList c r.queues)
      (Commit.channelList c r.channels)).cells side = (r.cells side).filter (differs given))
    (hother : ∀ side', side' ≠ side → (Registry.mk (Commit.queueList c r.queues)
      (Commit.channelList c r.channels)).cells side' = r.cells side') :
    ∃ mem' place', unsubscribe place.client side name mem =
        some (statusAfter grants mem.calls c, mem') ∧
      Edited grants mem mem' place place' fd rest r c := by
  have hcreated : created grants mem.calls c = true := by simp [created, hsize]
  have hlisted : listed grants mem.calls c = true := by simp [listed, hsize]
  have hstatus : statusAfter grants mem.calls c = .ok := by simp [statusAfter, hcreated]
  have hstrays : strays grants mem.calls c = [] := by simp [strays, hlisted]
  obtain ⟨mem', place', hrun, hclient, hkeeps', htraded⟩ :=
    unsubscribe_safe hkeeps hstock hname hsafe hside hother
  rw [hstatus]
  refine ⟨mem', place', hrun, hclient, ?_, ?_⟩
  · rw [Registry.after, hcreated, hlisted]
    exact hkeeps'
  · rw [hstrays, List.append_nil]
    exact htraded

/-- An edit whose strings are there and fit does what it should, unless it frees the name that
it goes on to read. -/
theorem Edit.run_spec (hkeeps : Keeps mem place fd r) (hstock : Stocks mem (place.blocks ++ rest))
    (hcommit : edit.commit mem = some c) (hfits : Commit.Fits c)
    (hsafe : ¬ edit.Dangles place.client mem) :
    ∃ mem' place', edit.run grants place.client mem =
        some (statusAfter grants mem.calls c, mem') ∧
      Edited grants mem mem' place place' fd rest r c := by
  cases edit with
  | subscribeQueue name callback =>
      obtain ⟨array, hname, rfl⟩ := Option.map_eq_some_iff.mp hcommit
      refine subscribe_spec hkeeps hstock rfl (emqQueueSubscriptionCreate_refused callback)
        (fun hgrant => emqQueueSubscriptionCreate_granted callback hgrant hname hfits hstock)
        ?_ ?_
      · have hfits' : strlen (contents array) < 64 := hfits
        simp [Registry.cells, Commit.queueList, hfits']
      · rintro (_ | _) hside
        · exact absurd rfl hside
        · rfl
  | subscribeChannel name data callback =>
      obtain ⟨array, hname, hrest⟩ := Option.bind_eq_some_iff.mp hcommit
      obtain ⟨bytes, hdata, heq⟩ := Option.bind_eq_some_iff.mp hrest
      cases heq
      refine subscribe_spec hkeeps hstock rfl (emqChannelSubscriptionCreate_refused callback)
        (fun hgrant =>
          emqChannelSubscriptionCreate_granted callback hgrant hname hdata hfits hstock)
        ?_ ?_
      · have hfits' : strlen (contents array) < 64 ∧ strlen (contents bytes) < 32 := hfits
        rw [Registry.cells, Commit.channelList, dif_pos hfits']
        rfl
      · rintro (_ | _) hside
        · rfl
        · exact absurd rfl hside
  | unsubscribeQueue name =>
      obtain ⟨given, hname, rfl⟩ := Option.map_eq_some_iff.mp hcommit
      refine unsubscribe_spec hkeeps hstock hname ?_ rfl
        (queueCells_unsubscribed (nul_mem_resolve hname) _) ?_
      · rintro b rfl
        exact hsafe
      · rintro (_ | _) hside
        · exact absurd rfl hside
        · rfl
  | unsubscribeChannel name =>
      obtain ⟨given, hname, rfl⟩ := Option.map_eq_some_iff.mp hcommit
      refine unsubscribe_spec hkeeps hstock hname ?_ rfl
        (channelCells_unsubscribed (nul_mem_resolve hname) _) ?_
      · rintro b rfl
        exact hsafe
      · rintro (_ | _) hside
        · rfl
        · exact absurd rfl hside

theorem Edit.run_dangling (hkeeps : Keeps mem place fd r)
    (hstock : Stocks mem (place.blocks ++ rest)) (hdangles : edit.Dangles place.client mem) :
    edit.run grants place.client mem = none := by
  cases edit with
  | unsubscribeQueue name =>
      cases name with
      | string s => exact absurd hdangles id
      | name b => exact unsubscribe_dangling hkeeps hstock hdangles
  | unsubscribeChannel name =>
      cases name with
      | string s => exact absurd hdangles id
      | name b => exact unsubscribe_dangling hkeeps hstock hdangles
  | _ => exact absurd hdangles id

end Edits

section Searching

variable {mem : Memory Resource} {place : Site} {fd : Option Nat} {nodes : List (Nat × Nat)}
  {held : List Resource} {r : Registry} {given : List UInt8}

theorem searchLoop_segment (nodes : List (Nat × Nat)) : ∀ {prev iter last : Option Nat},
    Segment (nodesOf mem.cells) prev iter nodes last none → Named mem nodes →
    searchLoop given (nodes.length + 1) iter mem =
      some ((values nodes).find? (verdict mem given), mem) := by
  induction nodes with
  | nil =>
      intro prev iter last hsegment _
      obtain ⟨_, rfl⟩ := hsegment
      rfl
  | cons node nodes ih =>
      intro prev iter last hsegment hnamed
      obtain ⟨rfl, next, hnode, hrest⟩ := hsegment
      obtain ⟨_, field, hfield⟩ := hnamed node.2 List.mem_cons_self
      have hnodeLoad : load Resource.node? node.1 mem = some (⟨prev, next, node.2⟩, mem) :=
        load_eq (nodesOf_eq_some.mp hnode) rfl
      have hload : load Resource.name? node.2 mem = some (field.array, mem) := by
        rw [load, hfield, Option.map_some]
      have hverdict : verdict mem given node.2 = strcmpEq field.array given := by
        rw [verdict, hfield, Option.getD_some]
      rw [List.length_cons, searchLoop, bind_of_some hnodeLoad]
      simp only
      rw [bind_of_some hload, values, List.map_cons, List.find?_cons, hverdict]
      cases strcmpEq field.array given with
      | true => rfl
      | false => exact ih hrest fun v hv => hnamed v (List.mem_cons_of_mem _ hv)

theorem Contents.find (hcontents : Contents mem nodes held) :
    ((values nodes).find? (verdict mem given)).bind mem.cells =
      held.find? fun cell => !differs given cell := by
  induction nodes generalizing held with
  | nil =>
      cases held with
      | nil => rfl
      | cons cell held => cases hcontents
  | cons node nodes ih =>
      cases held with
      | nil => cases hcontents
      | cons cell held =>
          obtain ⟨hcell, hrest⟩ : mem.cells node.2 = some cell ∧ Contents mem nodes held :=
            List.cons.inj hcontents
          have hverdict : verdict mem given node.2 = !differs given cell := by
            rw [verdict, hcell, Option.bind_some, differs, Bool.not_not]
          rw [values, List.map_cons, List.find?_cons, List.find?_cons, hverdict]
          cases differs given cell with
          | true => exact ih hrest
          | false => exact hcell

theorem search_eq (hkeeps : Keeps mem place fd r) (side : Side) (given : List UInt8) :
    search place.client side given mem =
      some ((values (side.nodes place)).find? (verdict mem given), mem) := by
  obtain ⟨c, hload, hlist⟩ := load_list hkeeps.attached side
  obtain ⟨list, hcell, hsegment, hlength, _⟩ := Attached.chain hkeeps.attached side
  have hmembers : load Resource.list? (side.list place) mem = some ((list, true), mem) :=
    load_eq hcell rfl
  rw [search, bind_of_some hload, bind_of_some hlist, bind_of_some hmembers]
  simp only
  rw [hlength]
  exact searchLoop_segment _ hsegment (named_of_contents (hkeeps.contents side))

/-- The search leads to the first subscription with the name. -/
theorem search_spec (hkeeps : Keeps mem place fd r) (side : Side) (given : List UInt8) :
    ∃ found, search place.client side given mem = some (found, mem) ∧
      found.bind mem.cells = (r.cells side).find? fun cell => !differs given cell :=
  ⟨_, search_eq hkeeps side given, (hkeeps.contents side).find⟩

theorem lengthOf_spec (hkeeps : Keeps mem place fd r) (side : Side) :
    lengthOf place.client side mem = some ((r.cells side).length, mem) := by
  obtain ⟨c, hload, hlist⟩ := load_list hkeeps.attached side
  obtain ⟨list, hmembers, hlength, _⟩ := (Attached.chain hkeeps.attached side).head
  have hcount : (side.nodes place).length = (r.cells side).length := by
    have hcontents : (side.nodes place).map (fun node => mem.cells node.2) =
      (r.cells side).map some := hkeeps.contents side
    simpa using congrArg List.length hcontents
  rw [lengthOf, bind_of_some hload, bind_of_some hlist, bind_of_some hmembers]
  simp only
  rw [hlength, hcount, pure_apply]

theorem lengthOf_gone {client : Nat} (hgone : mem.cells client = none) (side : Side) :
    lengthOf client side mem = none := by
  rw [lengthOf]
  exact bind_of_none (load_unused hgone)

theorem turn_spec (hkeeps : Keeps mem place fd r) (side : Side) (given : List UInt8) :
    ∃ found, turn place.client side given mem = some (found, mem) ∧
      found.bind mem.cells = (r.cells side).find? fun cell => !differs given cell := by
  rw [turn, bind_of_some (lengthOf_spec hkeeps .queues)]
  by_cases hqueues : (r.cells .queues).length = 0
  · rw [if_pos hqueues, bind_of_some (lengthOf_spec hkeeps .channels)]
    by_cases hchannels : (r.cells .channels).length = 0
    · have hnone : r.cells side = [] := by
        cases side with
        | queues => exact List.eq_nil_of_length_eq_zero hqueues
        | channels => exact List.eq_nil_of_length_eq_zero hchannels
      refine ⟨none, ?_, ?_⟩
      · rw [if_pos hchannels, pure_apply]
      · rw [hnone]
        rfl
    · rw [if_neg hchannels]
      exact search_spec hkeeps side given
  · rw [if_neg hqueues]
    exact search_spec hkeeps side given

end Searching

end Libemq.Subscriptions
