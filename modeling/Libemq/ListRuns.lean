import Libemq.Lists

namespace Libemq.ListRuns

open Libemq.LinkedLists
open Libemq.Lists

variable {α : Type}

/-- What a fresh list and its memory can become by insertions, with a node wherever `malloc`
finds memory, and by deletions of nodes that are in the list. Nothing stands for a use of an
invalid pointer. -/
inductive Run : Option (EmqList × Heap α) → Prop
  | init : Run (some (.init, fun _ => none))
  | add {list : EmqList} {h : Heap α} (hrun : Run (some (list, h))) (value : α) {node : Pointer}
      (hfresh : h node = none) : Run (list.addValue node value h)
  | delete {list : EmqList} {h : Heap α} (hrun : Run (some (list, h))) {node : Pointer}
      (hnode : Linked h list.head node) : Run (list.deleteNode node h)

/-- The links lead through these nodes from `head` to `tail`, and through the same nodes
back. -/
structure Shape (list : EmqList) (h : Heap α) (nodes : List (Pointer × α)) : Prop where
  forward : walk Node.next h list.length list.head = some nodes
  backward : walk Node.prev h list.length list.tail = some nodes.reverse
  length : nodes.length = list.length
  distinct : (pointers nodes).Nodup
  head : list.head = (pointers nodes).head?
  tail : list.tail = (pointers nodes).getLast?
  head_prev : ∀ p ∈ list.head, (h p).map Node.prev = some none
  tail_next : ∀ p ∈ list.tail, (h p).map Node.next = some none
  head_null : list.head = none ↔ list.length = 0
  tail_null : list.tail = none ↔ list.length = 0

/-- With any bound on its turns that is above the length, the loop ends after it came to each
of the nodes, and leaves those whose value does not match. -/
def Sweeps (doomed : α → Bool) (list : EmqList) (h : Heap α) (nodes : List (Pointer × α)) :
    Prop :=
  ∃ list' h', list.deleteMatching doomed h = some (list', h') ∧
    (∀ fuel, list.length < fuel →
      EmqList.sweep doomed fuel list.rewind list h = some (nodes, list', h')) ∧
    Shape list' h' (nodes.filter fun node => !doomed node.2)

/-- `emq_list_release` frees these nodes, once each, and, when the list has a method for it,
the value of each. No node is left. -/
def Frees (free : Bool) (list : EmqList) (h : Heap α) (nodes : List (Pointer × α)) : Prop :=
  ∃ released, list.release free h = some (released, fun _ => none) ∧
    released.filterMap EmqList.Released.node? = pointers nodes ∧
    released.filterMap EmqList.Released.value? = (if free then values nodes else []) ∧
    released.getLast? = some .list

variable {list : EmqList} {h : Heap α} {nodes : List (Pointer × α)}

theorem shape_of_represents (hlist : Represents list h nodes) : Shape list h nodes := by
  have hhead := hlist.segment.cur_eq
  rw [Option.or_none] at hhead
  have htail := hlist.segment.last_eq
  have hempty : list.length = 0 ↔ nodes = [] := by rw [hlist.length, List.length_eq_zero_iff]
  refine
    { forward := by rw [hlist.length, hlist.segment.walk_next]
      backward := by rw [hlist.length, hlist.segment.walk_prev]
      length := hlist.length.symm
      distinct := hlist.nodup
      head := hhead
      tail := htail
      head_prev := fun p hp => ?_
      tail_next := fun p hp => ?_
      head_null := by rw [hhead, hempty]; simp
      tail_null := by rw [htail, hempty]; simp }
  · cases nodes with
    | nil => simp [hhead] at hp
    | cons node nodes =>
        obtain ⟨q, value⟩ := node
        obtain ⟨hcur, n, hnode, _⟩ := hlist.segment
        obtain rfl : q = p := Option.some.inj (hcur.symm.trans hp)
        rw [hnode]
        rfl
  · rcases List.eq_nil_or_concat' nodes with rfl | ⟨nodes, ⟨q, value⟩, rfl⟩
    · simp [htail] at hp
    · obtain ⟨m, n, _, _, n', hnode, hlast, rfl⟩ := segment_append.mp hlist.segment
      obtain rfl : p = q := Option.some.inj (hp.symm.trans hlast)
      rw [hnode]
      rfl

theorem sweeps_of_represents (hlist : Represents list h nodes) (doomed : α → Bool) :
    Sweeps doomed list h nodes := by
  have hhead := hlist.segment.cur_eq
  rw [Option.or_none] at hhead
  obtain ⟨list', h', hlist', hsweep⟩ := sweep_represents doomed nodes [] list h hlist
  rw [← hlist.length, ← hhead] at hsweep
  refine ⟨list', h', ?_, hsweep, shape_of_represents hlist'⟩
  rw [EmqList.deleteMatching, deleteLoop_eq_sweep, EmqList.rewind,
    hsweep _ (Nat.lt_succ_self _)]
  rfl

theorem releases_nodes (free : Bool) (nodes : List (Pointer × α)) :
    (releases free nodes).filterMap EmqList.Released.node? = pointers nodes := by
  induction nodes with
  | nil => rfl
  | cons node nodes ih =>
      rw [releases, List.flatMap_cons, List.append_assoc, ← releases, List.filterMap_append, ih]
      cases free <;> rfl

theorem releases_values (free : Bool) (nodes : List (Pointer × α)) :
    (releases free nodes).filterMap EmqList.Released.value? =
      if free then values nodes else [] := by
  induction nodes with
  | nil => cases free <;> rfl
  | cons node nodes ih =>
      rw [releases, List.flatMap_cons, List.append_assoc, ← releases, List.filterMap_append, ih]
      cases free <;> rfl

theorem frees_of_represents (hlist : Represents list h nodes) (free : Bool) :
    Frees free list h nodes := by
  refine ⟨releases free nodes, release_represents hlist free, releases_nodes free nodes,
    releases_values free nodes, ?_⟩
  rw [releases, List.getLast?_append]
  rfl

theorem Run.represents {result : Option (EmqList × Heap α)} (hrun : Run result) :
    ∃ list h nodes, result = some (list, h) ∧ Represents list h nodes := by
  induction hrun with
  | init => exact ⟨_, _, _, rfl, represents_init⟩
  | add _ value hfresh ih =>
      obtain ⟨list, h, nodes, heq, hlist⟩ := ih
      cases heq
      obtain ⟨list', h', hadd, hlist'⟩ :=
        addValue_represents hlist (fun hmem => hlist.segment.used _ hmem hfresh) value
      exact ⟨list', h', _, hadd, hlist'⟩
  | delete _ hnode ih =>
      obtain ⟨list, h, nodes, heq, hlist⟩ := ih
      cases heq
      obtain ⟨⟨node, value⟩, hmem, rfl⟩ := List.mem_map.mp (hnode.mem hlist.segment)
      obtain ⟨front, back, rfl⟩ := List.append_of_mem hmem
      obtain ⟨list', h', hdelete, hlist'⟩ := deleteNode_represents hlist
      exact ⟨list', h', _, hdelete, hlist'⟩

/-- Every run keeps the shape of the list, and so at each of its states the loop that deletes
leaves the right nodes and a release frees everything. -/
theorem run_keeps_shape {result : Option (EmqList × Heap α)} (hrun : Run result) :
    ∃ list h nodes, result = some (list, h) ∧ Shape list h nodes ∧
      (∀ doomed, Sweeps doomed list h nodes) ∧ ∀ free, Frees free list h nodes := by
  obtain ⟨list, h, nodes, hresult, hlist⟩ := hrun.represents
  exact ⟨list, h, nodes, hresult, shape_of_represents hlist, sweeps_of_represents hlist,
    frees_of_represents hlist⟩

def oneNode : EmqList × Heap Nat :=
  (⟨some 3, some 3, 1⟩, Heap.store 3 ⟨none, none, 7⟩ fun _ => none)

theorem run_oneNode : Run (some oneNode) := .add .init 7 rfl

theorem run_keeps_shape_two :
    ∃ list h nodes, oneNode.1.addValue 5 8 oneNode.2 = some (list, h) ∧ Shape list h nodes ∧
      (∀ doomed, Sweeps doomed list h nodes) ∧ ∀ free, Frees free list h nodes :=
  run_keeps_shape (.add run_oneNode 8 rfl)

end Libemq.ListRuns
