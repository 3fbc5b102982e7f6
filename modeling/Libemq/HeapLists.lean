import Libemq.Inventories
import Libemq.Lists

namespace Libemq.HeapLists

open Libemq.CStrings
open Libemq.Blocks (Memory)
open Libemq.Inventories
open Libemq.Client
open Libemq.Commands
open Libemq.LinkedLists
open Libemq.Lists

/-- The members of an `emq_client` that lead to what it owns. Nothing stands for `NULL`, and
for a descriptor that is not one of a socket. -/
structure ClientCell where
  request : Option Nat
  queueSubscriptions : Option Nat
  channelSubscriptions : Option Nat
  fd : Option Nat
  deriving DecidableEq, Repr

/-- What the library gets from the system: blocks of memory, and the descriptor of a socket.
They go by one count. A list comes with whether it has a method for its values; all of these
methods are `free`. -/
inductive Resource where
  | socket
  | client (client : ClientCell)
  | request
  | list (list : EmqList) (free : Bool)
  | node (node : Node Nat)
  | queueSubscription (subscription : EmqQueueSubscription)
  | channelSubscription (subscription : EmqChannelSubscription)
  | buffer (bytes : List UInt8)
  | record (record : Record)

namespace Resource

def list? : Resource → Option (EmqList × Bool)
  | .list members method => some (members, method)
  | _ => none

def node? : Resource → Option (Node Nat)
  | .node links => some links
  | _ => none

def name? : Resource → Option (List UInt8)
  | .queueSubscription stored => some stored.name.array
  | .channelSubscription stored => some stored.name.array
  | _ => none

def buffer? : Resource → Option (List UInt8)
  | .buffer bytes => some bytes
  | _ => none

def client? : Resource → Option ClientCell
  | .client members => some members
  | _ => none

def socket? : Resource → Option Unit
  | .socket => some ()
  | _ => none

def block? : Resource → Option Unit
  | .socket => none
  | _ => some ()

end Resource

abbrev Life := Action Resource

variable {α : Type}

/-- `free`. -/
def free (b : Nat) : Life Unit := do
  let _ ← load Resource.block? b
  discard b

def updateList (l : Nat) (f : EmqList → EmqList) : Life Unit := do
  let (list, free) ← load Resource.list? l
  store l (.list (f list) free)

def emqListInit (grants : Nat → Nat → Bool) : Life (Option Nat) :=
  acquire grants 32 (.list .init false)

def setPrev (p : Nat) (prev : Option Nat) : Life Unit := do
  let node ← load Resource.node? p
  store p (.node { node with prev := prev })

def setNext (p : Nat) (next : Option Nat) : Life Unit := do
  let node ← load Resource.node? p
  store p (.node { node with next := next })

/-- What a fresh node holds before it is filled in, which is not looked at. -/
def blankNode : Node Nat := ⟨none, none, 0⟩

/-- The node gets its value and its place before all others. -/
def linkFirst (l p value : Nat) : Life Unit := do
  let (list, _) ← load Resource.list? l
  if list.length = 0 then do
    updateList l fun list => { list with head := some p, tail := some p }
    store p (.node ⟨none, none, value⟩)
  else
    match list.head with
    | none => failure
    | some head => do
        store p (.node ⟨none, some head, value⟩)
        setPrev head (some p)
        updateList l fun list => { list with head := some p }

def emqListAddValue (grants : Nat → Nat → Bool) (l value : Nat) : Life Status := do
  match ← acquire grants 24 (.node blankNode) with
  | none => pure .err
  | some node => do
      linkFirst l node value
      updateList l fun list => { list with length := list.length + 1 }
      pure .ok

/-- `next` takes the place of the successor of `prev`, or of the head of the list. -/
def linkNext (l : Nat) (prev next : Option Nat) : Life Unit :=
  match prev with
  | some prev => setNext prev next
  | none => updateList l fun list => { list with head := next }

/-- `prev` takes the place of the predecessor of `next`, or of the tail of the list. -/
def linkPrev (l : Nat) (next prev : Option Nat) : Life Unit :=
  match next with
  | some next => setPrev next prev
  | none => updateList l fun list => { list with tail := prev }

def freeValue (l value : Nat) : Life Unit := do
  let (_, method) ← load Resource.list? l
  if method then free value else pure ()

def emqListDeleteNode (l p : Nat) : Life Unit := do
  let node ← load Resource.node? p
  linkNext l node.prev node.next
  linkPrev l node.next node.prev
  freeValue l node.value
  free p
  updateList l fun list => { list with length := list.length - 1 }

def releaseLoop (l : Nat) : (length : Nat) → (current : Option Nat) → Life Unit
  | 0, _ => pure ()
  | _ + 1, none => failure
  | length + 1, some current => do
      let node ← load Resource.node? current
      freeValue l node.value
      free current
      releaseLoop l length node.next

def emqListRelease (l : Nat) : Life Unit := do
  let (list, _) ← load Resource.list? l
  releaseLoop l list.length list.head
  free l

/-- The loop that steps through a list and deletes the nodes whose value is doomed. -/
def deleteLoop (doomed : Nat → Life Bool) (l : Nat) : (fuel : Nat) → (iter : Option Nat) → Life Unit
  | 0, _ => failure
  | _ + 1, none => pure ()
  | fuel + 1, some current => do
      let node ← load Resource.node? current
      if ← doomed node.value then emqListDeleteNode l current
      deleteLoop doomed l fuel node.next

/-- The values that `emq_list_next` leads to, from some node on. -/
def walk : (fuel : Nat) → (iter : Option Nat) → Life (List Nat)
  | 0, _ => failure
  | _ + 1, none => pure []
  | fuel + 1, some current => do
      let node ← load Resource.node? current
      let values ← walk fuel node.next
      pure (node.value :: values)

def emqListValues (l : Nat) : Life (List Nat) := do
  let (list, _) ← load Resource.list? l
  walk (list.length + 1) list.head

/-- The nodes that are in memory, of whatever list. -/
def nodesOf (cells : Nat → Option Resource) : Heap Nat := fun p => (cells p).bind Resource.node?

/-- The list at `l` has these members, and memory holds these nodes. -/
structure View (mem : Memory Resource) (l : Nat) (method : Bool) (list : EmqList) (h : Heap Nat) :
    Prop where
  list : mem.cells l = some (.list list method)
  nodes : nodesOf mem.cells = h

/-- Only the list at `l` and nodes were written to. -/
structure Relinked (l : Nat) (mem mem' : Memory Resource) : Prop where
  reshaped : ∃ cells, mem' = reshape cells mem ∧ ∀ b, cells b = none ↔ mem.cells b = none
  others : ∀ b, b ≠ l → nodesOf mem.cells b = none → mem'.cells b = mem.cells b

section Views

variable {mem mem' : Memory Resource} {l p : Nat} {method : Bool} {list list' : EmqList}
  {h h' : Heap Nat} {node : Node Nat}

theorem nodesOf_eq_some {cells : Nat → Option Resource} :
    nodesOf cells p = some node ↔ cells p = some (.node node) := by
  unfold nodesOf
  cases cells p with
  | none => simp
  | some cell => cases cell <;> simp [Resource.node?]

theorem nodesOf_stored_node :
    nodesOf (stored p (.node node) mem).cells = Heap.store p node (nodesOf mem.cells) := by
  funext q
  by_cases hq : q = p
  · rw [hq, Heap.store_same, nodesOf_eq_some, stored_cells_self]
  · rw [Heap.store_other hq, nodesOf, stored_cells_of_ne hq, nodesOf]

theorem nodesOf_update {cells : Nat → Option Resource} {b : Nat} {cell : Option Resource}
    (hold : nodesOf cells b = none) (hnew : cell.bind Resource.node? = none) :
    nodesOf (Function.update cells b cell) = nodesOf cells := by
  funext q
  by_cases hq : q = b
  · rw [hq, hold, nodesOf, Function.update_self, hnew]
  · rw [nodesOf, Function.update_of_ne hq, nodesOf]

theorem Relinked.trans {mem'' : Memory Resource} (h1 : Relinked l mem mem')
    (h2 : Relinked l mem' mem'') : Relinked l mem mem'' := by
  obtain ⟨⟨cells, rfl, hnone⟩, hothers⟩ := h1
  obtain ⟨⟨cells', rfl, hnone'⟩, hothers'⟩ := h2
  refine ⟨⟨cells', rfl, fun b => (hnone' b).trans (hnone b)⟩, fun b hb hnode => ?_⟩
  have hsame : cells b = mem.cells b := hothers b hb hnode
  refine (hothers' b hb ?_).trans hsame
  change (cells b).bind Resource.node? = none
  rw [hsame]
  exact hnode

theorem Relinked.calls (hrelinked : Relinked l mem mem') : mem'.calls = mem.calls := by
  obtain ⟨_, rfl, _⟩ := hrelinked.reshaped
  rfl

theorem Relinked.same (hrelinked : Relinked l mem mem') {b : Nat} (hb : b ≠ l)
    (hsame : nodesOf mem'.cells b = nodesOf mem.cells b) : mem'.cells b = mem.cells b := by
  cases hnode : nodesOf mem.cells b with
  | none => exact hrelinked.others b hb hnode
  | some node =>
      rw [hnode] at hsame
      rw [nodesOf_eq_some.mp hnode, nodesOf_eq_some.mp hsame]

theorem relinked_stored {cell old : Resource} (hold : mem.cells p = some old)
    (hnode : p = l ∨ nodesOf mem.cells p ≠ none) : Relinked l mem (stored p cell mem) where
  reshaped := by
    refine ⟨_, rfl, fun b => ?_⟩
    by_cases hb : b = p
    · simp [hb, hold]
    · rw [Function.update_of_ne hb]
  others b hb hnone := by
    refine stored_cells_of_ne ?_
    rintro rfl
    exact hnode.elim hb fun hsome => hsome hnone

variable (hview : View mem l method list h)

include hview

theorem View.load_list : load Resource.list? l mem = some ((list, method), mem) :=
  load_eq hview.list rfl

theorem View.load_node (hp : h p = some node) : load Resource.node? p mem = some (node, mem) := by
  rw [← hview.nodes] at hp
  exact load_eq (nodesOf_eq_some.mp hp) rfl

theorem View.notNode : h l = none := by
  rw [← hview.nodes, nodesOf, hview.list]
  rfl

theorem updateList_view (f : EmqList → EmqList) :
    ∃ mem', updateList l f mem = some ((), mem') ∧ View mem' l method (f list) h ∧
      Relinked l mem mem' := by
  refine ⟨stored l (.list (f list) method) mem, ?_, ⟨stored_cells_self, ?_⟩,
    relinked_stored hview.list (.inl rfl)⟩
  · rw [updateList, bind_of_some hview.load_list]
    exact store_used hview.list
  · rw [stored, reshape, nodesOf_update (by rw [hview.nodes, hview.notNode]) rfl, hview.nodes]

theorem store_view (hp : h p ≠ none) (node : Node Nat) :
    ∃ mem', store p (.node node) mem = some ((), mem') ∧
      View mem' l method list (Heap.store p node h) ∧ Relinked l mem mem' := by
  obtain ⟨old, hold⟩ := Option.ne_none_iff_exists'.mp hp
  have hcell : mem.cells p = some (.node old) := nodesOf_eq_some.mp (by rw [hview.nodes, hold])
  have hne : l ≠ p := by
    rintro rfl
    exact hp hview.notNode
  refine ⟨_, store_used hcell, ⟨?_, ?_⟩, relinked_stored hcell (.inr (by rwa [hview.nodes]))⟩
  · rw [stored_cells_of_ne hne, hview.list]
  · rw [nodesOf_stored_node, hview.nodes]

theorem setPrev_view {prev : Option Nat} (hset : h.setPrev p prev = some h') :
    ∃ mem', setPrev p prev mem = some ((), mem') ∧ View mem' l method list h' ∧
      Relinked l mem mem' := by
  obtain ⟨old, hold, rfl⟩ := Option.map_eq_some_iff.mp hset
  obtain ⟨mem', hstore, hview', hrelinked⟩ :=
    store_view hview (p := p) (by simp [hold]) { old with prev := prev }
  refine ⟨mem', ?_, hview', hrelinked⟩
  rw [setPrev, bind_of_some (hview.load_node hold), hstore]

theorem setNext_view {next : Option Nat} (hset : h.setNext p next = some h') :
    ∃ mem', setNext p next mem = some ((), mem') ∧ View mem' l method list h' ∧
      Relinked l mem mem' := by
  obtain ⟨old, hold, rfl⟩ := Option.map_eq_some_iff.mp hset
  obtain ⟨mem', hstore, hview', hrelinked⟩ :=
    store_view hview (p := p) (by simp [hold]) { old with next := next }
  refine ⟨mem', ?_, hview', hrelinked⟩
  rw [setNext, bind_of_some (hview.load_node hold), hstore]

theorem linkNext_view {prev next : Option Nat}
    (hlink : list.linkNext prev next h = some (list', h')) :
    ∃ mem', linkNext l prev next mem = some ((), mem') ∧ View mem' l method list' h' ∧
      Relinked l mem mem' := by
  cases prev with
  | none =>
      cases hlink
      exact updateList_view hview fun list => { list with head := next }
  | some prev =>
      obtain ⟨h1, hset, heq⟩ := Option.map_eq_some_iff.mp hlink
      cases heq
      exact setNext_view hview hset

theorem linkPrev_view {next prev : Option Nat}
    (hlink : list.linkPrev next prev h = some (list', h')) :
    ∃ mem', linkPrev l next prev mem = some ((), mem') ∧ View mem' l method list' h' ∧
      Relinked l mem mem' := by
  cases next with
  | none =>
      cases hlink
      exact updateList_view hview fun list => { list with tail := prev }
  | some next =>
      obtain ⟨h1, hset, heq⟩ := Option.map_eq_some_iff.mp hlink
      cases heq
      exact setPrev_view hview hset

theorem linkFirst_view {value : Nat} (hp : h p ≠ none)
    (hadd : list.addValue p value h = some (list', h')) :
    ∃ mem', linkFirst l p value mem = some ((), mem') ∧
      View mem' l method { list' with length := list.length } h' ∧ Relinked l mem mem' ∧
      list'.length = list.length + 1 := by
  unfold EmqList.addValue at hadd
  rw [linkFirst, bind_of_some hview.load_list]
  simp only
  split at hadd
  · rename_i hempty
    cases hadd
    obtain ⟨mem1, h1, hview1, hr1⟩ := updateList_view hview
      fun list => { list with head := some p, tail := some p }
    obtain ⟨mem2, h2, hview2, hr2⟩ := store_view hview1 hp ⟨none, none, value⟩
    refine ⟨mem2, ?_, hview2, hr1.trans hr2, rfl⟩
    rw [if_pos hempty, bind_of_some h1, h2]
  · rename_i hmore
    rw [if_neg hmore]
    cases hhead : list.head with
    | none => simp [hhead] at hadd
    | some head =>
        simp only [hhead, Option.bind_eq_bind, Option.bind_some] at hadd
        obtain ⟨h2, hset, heq⟩ := Option.bind_eq_some_iff.mp hadd
        cases heq
        obtain ⟨mem1, h1, hview1, hr1⟩ := store_view hview hp ⟨none, some head, value⟩
        obtain ⟨mem2, h2, hview2, hr2⟩ := setPrev_view hview1 hset
        obtain ⟨mem3, h3, hview3, hr3⟩ := updateList_view hview2
          fun list => { list with head := some p }
        refine ⟨mem3, ?_, hview3, (hr1.trans hr2).trans hr3, rfl⟩
        simp only
        rw [bind_of_some h1, bind_of_some h2, h3]

end Views

/-- The list at `l` consists of these nodes, each with the block of its value. -/
def Chain (mem : Memory Resource) (l : Nat) (method : Bool) (nodes : List (Nat × Nat)) : Prop :=
  ∃ list, mem.cells l = some (.list list method) ∧
    Segment (nodesOf mem.cells) none list.head nodes list.tail none ∧
    list.length = nodes.length ∧ (pointers nodes).Nodup

def blocks (nodes : List (Nat × Nat)) : List Nat := nodes.flatMap fun node => [node.1, node.2]

/-- The blocks of a list. -/
abbrev owned (l : Nat) (nodes : List (Nat × Nat)) : List Nat := l :: blocks nodes

section Chains

variable {mem mem' : Memory Resource} {l p v : Nat} {method : Bool} {nodes : List (Nat × Nat)}
  {rest : List Nat} {list : EmqList} {h : Heap Nat}

@[simp] theorem blocks_nil : blocks [] = [] := rfl

@[simp] theorem blocks_cons (node : Nat × Nat) (nodes : List (Nat × Nat)) :
    blocks (node :: nodes) = node.1 :: node.2 :: blocks nodes := rfl

@[simp] theorem blocks_append (front back : List (Nat × Nat)) :
    blocks (front ++ back) = blocks front ++ blocks back := List.flatMap_append

theorem pointers_subset (nodes : List (Nat × Nat)) : pointers nodes ⊆ blocks nodes := by
  intro b hb
  obtain ⟨node, hnode, rfl⟩ := List.mem_map.mp hb
  exact List.mem_flatMap.mpr ⟨node, hnode, List.mem_cons_self⟩

theorem values_subset (nodes : List (Nat × Nat)) : values nodes ⊆ blocks nodes := by
  intro b hb
  obtain ⟨node, hnode, rfl⟩ := List.mem_map.mp hb
  exact List.mem_flatMap.mpr ⟨node, hnode, List.mem_cons_of_mem _ List.mem_cons_self⟩

theorem values_notMem_pointers (hnodup : (blocks nodes).Nodup) :
    ∀ v ∈ values nodes, v ∉ pointers nodes := by
  induction nodes with
  | nil => simp
  | cons node nodes ih =>
      obtain ⟨hp, hnodup⟩ := List.nodup_cons.mp hnodup
      obtain ⟨hv, hnodup⟩ := List.nodup_cons.mp hnodup
      intro v hmem hpointer
      rcases List.mem_cons.mp hmem with rfl | hmem
      · rcases List.mem_cons.mp hpointer with heq | hpointer
        · exact hp (by simp [heq])
        · exact hv (pointers_subset nodes hpointer)
      · rcases List.mem_cons.mp hpointer with heq | hpointer
        · exact hp (heq ▸ List.mem_cons_of_mem _ (values_subset nodes hmem))
        · exact ih hnodup v hmem hpointer

theorem Chain.congr (hchain : Chain mem l method nodes)
    (hsame : ∀ b ∈ l :: pointers nodes, mem'.cells b = mem.cells b) :
    Chain mem' l method nodes := by
  obtain ⟨list, hlist, hsegment, hlength, hnodup⟩ := hchain
  refine ⟨list, (hsame l List.mem_cons_self).trans hlist, hsegment.frame fun p hp => ?_, hlength,
    hnodup⟩
  rw [nodesOf, hsame p (List.mem_cons_of_mem _ hp), nodesOf]

theorem Relinked.traded (hrelinked : Relinked l mem mem')
    (hstock : Stocks mem (owned l nodes ++ rest))
    (hsame : ∀ q ∉ pointers nodes, nodesOf mem'.cells q = nodesOf mem.cells q) :
    Traded mem mem' (owned l nodes) rest ∧ ∀ v ∈ values nodes, mem'.cells v = mem.cells v := by
  have hparts := List.nodup_append.mp hstock.nodup
  obtain ⟨hl, hblocks⟩ := List.nodup_cons.mp hparts.1
  constructor
  · have hframe : ∀ b ∈ rest, mem'.cells b = mem.cells b := by
      intro b hb
      have hapart : ∀ q ∈ owned l nodes, b ≠ q := fun q hq heq => hparts.2.2 q hq b hb heq.symm
      refine hrelinked.same (hapart l List.mem_cons_self) (hsame b fun hp => ?_)
      exact hapart b (List.mem_cons_of_mem _ (pointers_subset nodes hp)) rfl
    obtain ⟨cells, rfl, hnone⟩ := hrelinked.reshaped
    exact .reshape hstock hnone hframe
  · intro v hv
    refine hrelinked.same ?_ (hsame v (values_notMem_pointers hblocks v hv))
    rintro rfl
    exact hl (values_subset nodes hv)

theorem addValue_segment (hsegment : Segment h none list.head nodes list.tail none)
    (hlength : list.length = nodes.length) (hnodup : (pointers nodes).Nodup)
    (hp : p ∉ pointers nodes) (value : Nat) :
    ∃ list' h', list.addValue p value h = some (list', h') ∧
      Segment h' none list'.head ((p, value) :: nodes) list'.tail none ∧
      list'.length = nodes.length + 1 ∧
      ∀ q, q ≠ p → q ∉ pointers nodes → h' q = h q := by
  cases nodes with
  | nil =>
      refine ⟨_, _, if_pos hlength, ⟨rfl, none, Heap.store_same .., rfl, rfl⟩, by simp [hlength],
        fun q hq _ => Heap.store_other hq ..⟩
  | cons first nodes =>
      obtain ⟨head, first⟩ := first
      obtain ⟨hhead, _⟩ := hsegment.step
      obtain ⟨hnot, _⟩ := List.nodup_cons.mp hnodup
      have hstored := hsegment.store_frame hp ⟨none, some head, value⟩
      obtain ⟨h', hset, hother, hsegment'⟩ := hstored.setPrev hnot (some p)
      have hnode : h' p = some ⟨none, some head, value⟩ := by
        rw [hother p fun heq => hp (by simp [heq]), Heap.store_same]
      refine ⟨⟨some p, list.tail, list.length + 1⟩, h', ?_, ?_, by simp [hlength], ?_⟩
      · rw [EmqList.addValue, if_neg (by simp [hlength]), hhead]
        simp [hset]
      · rw [hhead] at hsegment'
        exact ⟨rfl, some head, hnode, hsegment'⟩
      · intro q hq hqold
        rw [hother q fun heq => hqold (by simp [heq]), Heap.store_other hq]

section Adding

variable {grants : Nat → Nat → Bool}

theorem emqListAddValue_refused (hgrant : grants mem.calls 24 = false) :
    emqListAddValue grants l v mem = some (.err, mem.refuse) := by
  rw [emqListAddValue, bind_of_some (acquire_refused hgrant)]
  rfl

theorem emqListAddValue_granted (hgrant : grants mem.calls 24 = true)
    (hstock : Stocks mem (v :: owned l nodes ++ rest)) (hchain : Chain mem l method nodes) :
    ∃ mem', emqListAddValue grants l v mem = some (.ok, mem') ∧ mem'.calls = mem.calls + 1 ∧
      Traded mem mem' (owned l ((mem.calls, v) :: nodes)) rest ∧
      Chain mem' l method ((mem.calls, v) :: nodes) ∧
      ∀ b ∈ v :: values nodes, mem'.cells b = mem.cells b := by
  obtain ⟨list, hlist, hsegment, hlength, hnodup⟩ := hchain
  have hold : ∀ b ∈ v :: owned l nodes ++ rest,
      (mem.alloc (.node blankNode)).cells b = mem.cells b :=
    fun b hb => hstock.sane.extends_alloc _ b ((hstock.used b).mpr hb)
  have hfresh : mem.calls ∉ pointers nodes := fun hmem =>
    hstock.fresh (by simp [pointers_subset nodes hmem])
  have hsegment1 : Segment (nodesOf (mem.alloc (.node blankNode)).cells) none list.head nodes
      list.tail none := by
    refine hsegment.frame fun p hp => ?_
    rw [nodesOf, hold p (by simp [pointers_subset nodes hp]), nodesOf]
  have hview : View (mem.alloc (.node blankNode)) l method list
      (nodesOf (mem.alloc (.node blankNode)).cells) :=
    ⟨(hold l (by simp)).trans hlist, rfl⟩
  obtain ⟨list', h', hadd, hsegment', hlength', hother⟩ :=
    addValue_segment hsegment1 hlength hnodup hfresh v
  obtain ⟨mem1, hfirst, hview1, hr1, hcount⟩ :=
    linkFirst_view hview (nodesOf_eq_some.mpr Memory.alloc_cells_self ▸ Option.some_ne_none _) hadd
  obtain ⟨mem2, hupdate, hview2, hr2⟩ := updateList_view hview1
    fun list => { list with length := list.length + 1 }
  have hr := hr1.trans hr2
  have hperm : (mem.calls :: (v :: owned l nodes)).Perm (owned l ((mem.calls, v) :: nodes)) :=
    ((List.Perm.swap l v _).cons _).trans (.swap l mem.calls _)
  have halloc := (Traded.alloc hstock (.node blankNode)).perm hperm
  obtain ⟨htraded, hvalues⟩ := hr.traded halloc.stock fun q hq => by
    rw [hview2.nodes]
    refine hother q (fun heq => hq ?_) fun hmem => hq (List.mem_cons_of_mem _ hmem)
    exact heq ▸ List.mem_cons_self
  refine ⟨mem2, ?_, hr.calls, halloc.trans htraded, ⟨list', ?_, ?_, hlength', ?_⟩, ?_⟩
  · rw [emqListAddValue, bind_of_some (acquire_granted hgrant)]
    simp only
    rw [bind_of_some hfirst, bind_of_some hupdate]
    rfl
  · rw [hview2.list, ← hcount]
  · rw [hview2.nodes]
    exact hsegment'
  · exact List.nodup_cons.mpr ⟨hfresh, hnodup⟩
  · intro b hb
    refine (hvalues b hb).trans (hold b ?_)
    rcases List.mem_cons.mp hb with rfl | hb
    · simp
    · simp [values_subset nodes hb]

end Adding

theorem deleteNode_segment {front back : List (Nat × Nat)}
    (hsegment : Segment h none list.head (front ++ (p, v) :: back) list.tail none)
    (hnodup : (pointers (front ++ (p, v) :: back)).Nodup) :
    ∃ node list1 h1 list2 h2, h p = some node ∧ node.value = v ∧
      list.linkNext node.prev node.next h = some (list1, h1) ∧
      list1.linkPrev node.next node.prev h1 = some (list2, h2) ∧
      Segment h2 none list2.head (front ++ back) list2.tail none ∧
      list2.length = list.length ∧ ∀ q ∉ pointers (front ++ back), h2 q = h q := by
  obtain ⟨prev, cur, hfront, rfl, next, hnode, hback⟩ := segment_append.mp hsegment
  rw [pointers, List.map_append, List.map_cons, List.nodup_append, List.nodup_cons] at hnodup
  obtain ⟨hfrontNodup, ⟨_, hbackNodup⟩, hdisjoint⟩ := hnodup
  have hapart : ∀ q ∈ pointers front, q ∉ pointers back :=
    fun q hq hq' => hdisjoint q hq q (List.mem_cons_of_mem _ hq') rfl
  obtain ⟨list1, h1, hlink1, htail1, hlength1, hother1, hfront1⟩ :=
    linkNext_segment hfront hfrontNodup next
  have hback1 : Segment h1 (some p) next back list1.tail none := by
    rw [htail1]
    exact hback.frame fun q hq => hother1 q fun hq' => hapart q hq' hq
  obtain ⟨list2, h2, hlink2, hhead2, hlength2, hother2, hback2⟩ :=
    linkPrev_segment hback1 hbackNodup prev
  have hfront2 : Segment h2 none list2.head front prev next := by
    rw [hhead2]
    exact hfront1.frame fun q hq => hother2 q (hapart q hq)
  refine ⟨_, list1, h1, list2, h2, hnode, rfl, hlink1, hlink2,
    segment_append.mpr ⟨prev, next, hfront2, hback2⟩, hlength2.trans hlength1, fun q hq => ?_⟩
  rw [pointers, List.map_append, List.mem_append, not_or] at hq
  rw [hother2 q hq.2, hother1 q hq.1]

theorem free_eq {b : Nat} {cell : Resource} (hcell : mem.cells b = some cell)
    (hblock : cell.block? = some ()) : free b mem = some ((), mem.drop b) := by
  rw [free, bind_of_some (load_eq hcell hblock), discard_used hcell]

theorem owned_perm (l p v : Nat) (front back : List (Nat × Nat)) :
    (owned l (front ++ (p, v) :: back)).Perm (v :: p :: owned l (front ++ back)) := by
  rw [owned, owned, blocks_append, blocks_append, blocks_cons]
  refine ((List.perm_middle.trans (List.perm_middle.cons p)).cons l).trans ?_
  exact (List.Perm.swap p l _).trans (((List.Perm.swap v l _).cons p).trans (.swap v p _))

theorem emqListDeleteNode_chain {front back : List (Nat × Nat)} {cell : Resource}
    (hstock : Stocks mem (owned l (front ++ (p, v) :: back) ++ rest))
    (hchain : Chain mem l true (front ++ (p, v) :: back)) (hcell : mem.cells v = some cell)
    (hblock : cell.block? = some ()) :
    ∃ mem', emqListDeleteNode l p mem = some ((), mem') ∧ mem'.calls = mem.calls ∧
      Traded mem mem' (owned l (front ++ back)) rest ∧ Chain mem' l true (front ++ back) ∧
      ∀ b ∈ values (front ++ back), mem'.cells b = mem.cells b := by
  obtain ⟨list, hlist, hsegment, hlength, hnodup⟩ := hchain
  obtain ⟨node, list1, h1, list2, h2, hnode, hvalue, hlink1, hlink2, hsegment2, hlength2, hother⟩ :=
    deleteNode_segment hsegment hnodup
  have hview : View mem l true list (nodesOf mem.cells) := ⟨hlist, rfl⟩
  obtain ⟨mem1, hrun1, hview1, hr1⟩ := linkNext_view hview hlink1
  obtain ⟨mem2, hrun2, hview2, hr2⟩ := linkPrev_view hview1 hlink2
  have hr := hr1.trans hr2
  obtain ⟨htraded, hvalues⟩ := hr.traded hstock fun q hq => by
    rw [hview2.nodes]
    refine hother q fun hmem => hq ?_
    rw [pointers, List.map_append] at hmem ⊢
    exact List.mem_append.mpr ((List.mem_append.mp hmem).imp_right (List.mem_cons_of_mem _))
  have hcell2 : mem2.cells v = some cell := (hvalues v (by simp)).trans hcell
  have htraded2 := htraded.perm (owned_perm l p v front back)
  have hparts := List.nodup_cons.mp (List.nodup_append.mp htraded2.stock.nodup).1
  have hpl := List.nodup_cons.mp hparts.2
  have hpv : p ≠ v := fun heq => hparts.1 (by simp [heq])
  have hnode2 : (mem2.drop v).cells p = some (.node node) := by
    rw [Memory.drop_cells_of_ne hpv, ← nodesOf_eq_some, hview2.nodes, hother p, hnode]
    intro hmem
    exact hpl.1 (List.mem_cons_of_mem _ (pointers_subset _ hmem))
  have hdropped := (Traded.drop htraded2.stock).trans (.drop (Traded.drop htraded2.stock).stock)
  have hkept : ∀ b ∈ owned l (front ++ back), ((mem2.drop v).drop p).cells b = mem2.cells b := by
    intro b hb
    rw [Memory.drop_cells_of_ne (ne_of_mem_of_not_mem hb hpl.1),
      Memory.drop_cells_of_ne (ne_of_mem_of_not_mem (List.mem_cons_of_mem _ hb) hparts.1)]
  have hview3 : View ((mem2.drop v).drop p) l true list2
      (nodesOf ((mem2.drop v).drop p).cells) :=
    ⟨(hkept l List.mem_cons_self).trans hview2.list, rfl⟩
  obtain ⟨mem4, hrun4, hview4, hr4⟩ := updateList_view hview3
    fun list => { list with length := list.length - 1 }
  obtain ⟨htraded4, hvalues4⟩ := hr4.traded hdropped.stock fun q _ => by rw [hview4.nodes]
  refine ⟨mem4, ?_, ?_, (htraded2.trans hdropped).trans htraded4, ⟨_, hview4.list, ?_, ?_, ?_⟩, ?_⟩
  · rw [emqListDeleteNode, bind_of_some (hview.load_node hnode), bind_of_some hrun1,
      bind_of_some hrun2, hvalue]
    have hfree : freeValue l v mem2 = some ((), mem2.drop v) := by
      rw [freeValue, bind_of_some hview2.load_list]
      exact free_eq hcell2 hblock
    rw [bind_of_some hfree, bind_of_some (free_eq hnode2 rfl), hrun4]
  · rw [hr4.calls]
    exact hr.calls
  · refine Segment.frame hsegment2 fun q hq => ?_
    rw [hview4.nodes, nodesOf, hkept q (List.mem_cons_of_mem _ (pointers_subset _ hq)), ← nodesOf,
      hview2.nodes]
  · simp [hlength2, hlength]
  · rw [pointers, List.map_append, List.map_cons] at hnodup
    rw [pointers, List.map_append]
    exact (List.nodup_cons.mp (List.perm_middle.nodup_iff.mp hnodup)).2
  · intro b hb
    rw [hvalues4 b hb, hkept b (List.mem_cons_of_mem _ (values_subset _ hb))]
    refine hvalues b ?_
    rw [values, List.map_append] at hb ⊢
    exact List.mem_append.mpr ((List.mem_append.mp hb).imp_right (List.mem_cons_of_mem _))

theorem freeValue_eq {cell : Resource} (hlist : mem.cells l = some (.list list true))
    (hcell : mem.cells v = some cell) (hblock : cell.block? = some ()) :
    freeValue l v mem = some ((), mem.drop v) := by
  have hload : load Resource.list? l mem = some ((list, true), mem) := load_eq hlist rfl
  rw [freeValue, bind_of_some hload]
  exact free_eq hcell hblock

def Freeable (mem : Memory Resource) (nodes : List (Nat × Nat)) : Prop :=
  ∀ v ∈ values nodes, ∃ cell, mem.cells v = some cell ∧ cell.block? = some ()

theorem releaseLoop_segment (nodes : List (Nat × Nat)) (hmethod : nodes ≠ [] → method = true) :
    ∀ {mem : Memory Resource} {prev current last : Option Nat},
      mem.cells l = some (.list list method) → Stocks mem (blocks nodes ++ l :: rest) →
      Segment (nodesOf mem.cells) prev current nodes last none → Freeable mem nodes →
      ∃ mem', releaseLoop l nodes.length current mem = some ((), mem') ∧
        mem'.calls = mem.calls ∧ Traded mem mem' [] (l :: rest) := by
  induction nodes with
  | nil =>
      intro mem prev current last _ hstock _ _
      exact ⟨mem, rfl, rfl, .refl hstock⟩
  | cons node nodes ih =>
      intro mem prev current last hlist hstock hsegment hfreeable
      obtain ⟨p, v⟩ := node
      obtain rfl := hmethod (List.cons_ne_nil _ _)
      obtain ⟨cell, hcell, hblock⟩ := hfreeable v (by simp)
      obtain ⟨rfl, n, hnode, hrest⟩ := hsegment
      have hstock1 : Stocks mem (v :: (p :: blocks nodes) ++ l :: rest) :=
        hstock.perm (List.Perm.swap v p _)
      have htraded1 := Traded.drop hstock1
      have htraded := htraded1.trans (Traded.drop htraded1.stock)
      obtain ⟨hv, hnodup1⟩ := List.nodup_cons.mp hstock1.nodup
      obtain ⟨hp, hnodup2⟩ := List.nodup_cons.mp hnodup1
      have hpv : p ≠ v := fun heq => hv (by simp [heq])
      have hkept : ∀ b ∈ blocks nodes ++ l :: rest,
          ((mem.drop v).drop p).cells b = mem.cells b := by
        intro b hb
        rw [Memory.drop_cells_of_ne (ne_of_mem_of_not_mem hb hp),
          Memory.drop_cells_of_ne (ne_of_mem_of_not_mem (List.mem_cons_of_mem _ hb) hv)]
      have hnode1 : (mem.drop v).cells p = some (.node ⟨prev, n, v⟩) := by
        rw [Memory.drop_cells_of_ne hpv, nodesOf_eq_some.mp hnode]
      obtain ⟨mem', hloop, hcalls, htraded'⟩ := ih (fun _ => rfl)
        ((hkept l (by simp)).trans hlist) htraded.stock
        (hrest.frame fun q hq => by
          rw [nodesOf, hkept q (List.mem_append_left _ (pointers_subset _ hq)), nodesOf])
        (fun v' hv' => by
          rw [hkept v' (List.mem_append_left _ (values_subset _ hv'))]
          exact hfreeable v' (List.mem_cons_of_mem _ hv'))
      refine ⟨mem', ?_, hcalls, htraded.trans htraded'⟩
      have hload : load Resource.node? p mem = some (⟨prev, n, v⟩, mem) :=
        load_eq (nodesOf_eq_some.mp hnode) rfl
      rw [List.length_cons, releaseLoop, bind_of_some hload,
        bind_of_some (freeValue_eq hlist hcell hblock), bind_of_some (free_eq hnode1 rfl), hloop]

/-- Nothing is left of a list that is released. -/
theorem emqListRelease_chain (hmethod : nodes ≠ [] → method = true)
    (hstock : Stocks mem (owned l nodes ++ rest)) (hchain : Chain mem l method nodes)
    (hfreeable : Freeable mem nodes) :
    ∃ mem', emqListRelease l mem = some ((), mem') ∧ mem'.calls = mem.calls ∧
      Traded mem mem' [] rest := by
  obtain ⟨list, hlist, hsegment, hlength, _⟩ := hchain
  obtain ⟨mem1, hloop, hcalls, htraded⟩ := releaseLoop_segment nodes hmethod hlist
    (hstock.perm List.perm_middle.symm) hsegment hfreeable
  have hload : load Resource.list? l mem = some ((list, method), mem) := load_eq hlist rfl
  have hcell1 : mem1.cells l = some (.list list method) :=
    (htraded.frame l List.mem_cons_self).trans hlist
  have hdrop : Traded mem1 (mem1.drop l) [] rest := Traded.drop htraded.stock
  refine ⟨mem1.drop l, ?_, hcalls, htraded.andThen (List.subset_cons_self l rest) hdrop⟩
  rw [emqListRelease, bind_of_some hload]
  simp only
  rw [hlength, bind_of_some hloop, free_eq hcell1 rfl]

theorem Chain.node {front back : List (Nat × Nat)}
    (hchain : Chain mem l method (front ++ (p, v) :: back)) :
    ∃ prev, mem.cells p = some (.node ⟨prev, (pointers back).head?, v⟩) := by
  obtain ⟨list, _, hsegment, _, _⟩ := hchain
  obtain ⟨prev, cur, _, _, next, hnode, hback⟩ := segment_append.mp hsegment
  have hnext := hback.cur_eq
  rw [Option.or_none] at hnext
  rw [hnext] at hnode
  exact ⟨prev, nodesOf_eq_some.mp hnode⟩

theorem Chain.head (hchain : Chain mem l method nodes) :
    ∃ list, load Resource.list? l mem = some ((list, method), mem) ∧
      list.length = nodes.length ∧ list.head = (pointers nodes).head? := by
  obtain ⟨list, hlist, hsegment, hlength, _⟩ := hchain
  have hhead := hsegment.cur_eq
  rw [Option.or_none] at hhead
  exact ⟨list, load_eq hlist rfl, hlength, hhead⟩

theorem walk_segment (nodes : List (Nat × Nat)) : ∀ {prev iter last : Option Nat},
    Segment (nodesOf mem.cells) prev iter nodes last none →
    walk (nodes.length + 1) iter mem = some (values nodes, mem) := by
  induction nodes with
  | nil =>
      intro prev iter last hsegment
      obtain ⟨_, rfl⟩ := hsegment
      rfl
  | cons node nodes ih =>
      intro prev iter last hsegment
      obtain ⟨rfl, next, hnode, hrest⟩ := hsegment
      have hload : load Resource.node? node.1 mem = some (⟨prev, next, node.2⟩, mem) :=
        load_eq (nodesOf_eq_some.mp hnode) rfl
      rw [List.length_cons, walk, bind_of_some hload, bind_of_some (ih hrest), pure_apply]
      rfl

theorem emqListValues_chain (hchain : Chain mem l method nodes) :
    emqListValues l mem = some (values nodes, mem) := by
  obtain ⟨list, hlist, hsegment, hlength, _⟩ := hchain
  have hload : load Resource.list? l mem = some ((list, method), mem) := load_eq hlist rfl
  rw [emqListValues, bind_of_some hload]
  simp only
  rw [hlength]
  exact walk_segment nodes hsegment

/-- What the loop leaves of some nodes. -/
abbrev spared (verdict : Nat → Bool) (nodes : List (Nat × Nat)) : List (Nat × Nat) :=
  nodes.filter fun node => !verdict node.2

/-- Whether a value is doomed depends on memory that the loop does not free before it has
come to the end of these nodes. -/
def Decides (doomed : Nat → Life Bool) (verdict : Nat → Bool) (mem : Memory Resource)
    (front : List (Nat × Nat)) (watched : List Nat) : Prop :=
  ∀ mem', (∀ b ∈ watched, mem'.cells b = mem.cells b) → ∀ v ∈ values front,
    mem'.cells v = mem.cells v → doomed v mem' = some (verdict v, mem')

/-- The loop comes to the end of some nodes. -/
theorem deleteLoop_front {doomed : Nat → Life Bool} {verdict : Nat → Bool}
    {tail : List (Nat × Nat)} (front : List (Nat × Nat)) :
    ∀ {kept : List (Nat × Nat)} {mem : Memory Resource},
      Stocks mem (owned l (kept ++ (front ++ tail)) ++ rest) →
      Chain mem l true (kept ++ (front ++ tail)) → Freeable mem front →
      Decides doomed verdict mem front (values tail ++ rest) →
      ∃ mem', (∀ fuel, deleteLoop doomed l (fuel + front.length) (pointers (front ++ tail)).head?
            mem = deleteLoop doomed l fuel (pointers tail).head? mem') ∧
        mem'.calls = mem.calls ∧
        Traded mem mem' (owned l (kept ++ (spared verdict front ++ tail))) rest ∧
        Chain mem' l true (kept ++ (spared verdict front ++ tail)) ∧
        ∀ b ∈ values (kept ++ (spared verdict front ++ tail)), mem'.cells b = mem.cells b := by
  induction front with
  | nil =>
      intro kept mem hstock hchain _ _
      exact ⟨mem, fun _ => rfl, rfl, .refl hstock, hchain, fun _ _ => rfl⟩
  | cons node front ih =>
      intro kept mem hstock hchain hfreeable hdecides
      obtain ⟨p, v⟩ := node
      have hsplit : (p, v) :: front ++ tail = (p, v) :: (front ++ tail) := rfl
      rw [hsplit] at hstock hchain
      obtain ⟨prev, hnode⟩ := hchain.node
      obtain ⟨cell, hcell, hblock⟩ := hfreeable v (by simp)
      have hload : load Resource.node? p mem =
          some (⟨prev, (pointers (front ++ tail)).head?, v⟩, mem) := load_eq hnode rfl
      have hdoomed := hdecides mem (fun _ _ => rfl) v (by simp) rfl
      cases hverdict : verdict v with
      | true =>
          rw [hverdict] at hdoomed
          obtain ⟨mem1, hdelete, hcalls1, htraded1, hchain1, hvalues1⟩ :=
            emqListDeleteNode_chain hstock hchain hcell hblock
          have hfront1 : ∀ b ∈ values front ++ values tail, mem1.cells b = mem.cells b := by
            intro b hb
            refine hvalues1 b ?_
            rw [values, List.map_append, List.map_append]
            exact List.mem_append_right _ hb
          obtain ⟨mem2, hloop, hcalls2, htraded2, hchain2, hvalues2⟩ :=
            ih htraded1.stock hchain1
              (fun v' hv' => by
                rw [hfront1 v' (List.mem_append_left _ hv')]
                exact hfreeable v' (List.mem_cons_of_mem _ hv'))
              (fun mem' hwatched v' hv' hsame => by
                refine hdecides mem' (fun b hb => ?_) v' (List.mem_cons_of_mem _ hv') ?_
                · refine (hwatched b hb).trans ?_
                  rcases List.mem_append.mp hb with hb | hb
                  · exact hfront1 b (List.mem_append_right _ hb)
                  · exact htraded1.frame b hb
                · exact hsame.trans (hfront1 v' (List.mem_append_left _ hv')))
          have hspared : spared verdict ((p, v) :: front) = spared verdict front := by
            simp [spared, hverdict]
          rw [hspared]
          refine ⟨mem2, fun fuel => ?_, hcalls2.trans hcalls1, htraded1.trans htraded2, hchain2,
            fun b hb => ?_⟩
          · rw [List.length_cons, ← Nat.add_assoc]
            simp only [List.cons_append, pointers, List.map_cons, List.head?_cons, deleteLoop]
            rw [bind_of_some hload, bind_of_some hdoomed]
            simp only [if_true]
            rw [bind_of_some hdelete]
            exact hloop fuel
          · refine (hvalues2 b hb).trans (hvalues1 b ?_)
            rw [values, List.map_append, List.map_append] at hb ⊢
            refine List.mem_append.mpr ((List.mem_append.mp hb).imp_right fun hb => ?_)
            refine List.mem_append.mpr ((List.mem_append.mp hb).imp_left fun hb => ?_)
            obtain ⟨node, hnode, rfl⟩ := List.mem_map.mp hb
            exact List.mem_map_of_mem (List.mem_filter.mp hnode).1
      | false =>
          rw [hverdict] at hdoomed
          have hshift : kept ++ (p, v) :: (front ++ tail) =
              (kept ++ [(p, v)]) ++ (front ++ tail) := by simp
          rw [hshift] at hstock hchain
          obtain ⟨mem2, hloop, hcalls2, htraded2, hchain2, hvalues2⟩ := ih hstock hchain
            (fun v' hv' => hfreeable v' (List.mem_cons_of_mem _ hv'))
            (fun mem' hwatched v' hv' => hdecides mem' hwatched v' (List.mem_cons_of_mem _ hv'))
          have hspared : (kept ++ [(p, v)]) ++ (spared verdict front ++ tail) =
              kept ++ (spared verdict ((p, v) :: front) ++ tail) := by
            simp [spared, hverdict]
          rw [hspared] at htraded2 hchain2 hvalues2
          refine ⟨mem2, fun fuel => ?_, hcalls2, htraded2, hchain2, hvalues2⟩
          rw [List.length_cons, ← Nat.add_assoc]
          simp only [List.cons_append, pointers, List.map_cons, List.head?_cons, deleteLoop]
          rw [bind_of_some hload, bind_of_some hdoomed]
          exact hloop fuel

end Chains

end Libemq.HeapLists
