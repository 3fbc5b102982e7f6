import Libemq.Commands
import Libemq.LinkedLists
import Mathlib.Data.Fintype.EquivFin
import Mathlib.Data.List.Induction

/-!
`emq_list` with its nodes and pointers, and that it stands for the list of its values
that the other functions are modelled with.
-/

namespace Libemq.Lists

open Libemq.ExitCode
open Libemq.Client
open Libemq.Commands
open Libemq.LinkedLists

/-- `emq_list`. -/
structure EmqList where
  head : Option Pointer
  tail : Option Pointer
  length : Nat
  deriving DecidableEq, Repr

namespace EmqList

variable {α : Type}

def init : EmqList := ⟨none, none, 0⟩

/-- `emq_list_add_value` with the node that `malloc` returned. Nothing stands for a read
or a write through an invalid pointer, here and below. -/
def addValue (list : EmqList) (node : Pointer) (value : α) (h : Heap α) :
    Option (EmqList × Heap α) :=
  if list.length = 0 then
    some (⟨some node, some node, list.length + 1⟩, h.store node ⟨none, none, value⟩)
  else do
    let head ← list.head
    let h ← (h.store node ⟨none, some head, value⟩).setPrev head (some node)
    some (⟨some node, list.tail, list.length + 1⟩, h)

/-- `next` takes the place of the successor of `prev`, or of the head of the list. -/
def linkNext (list : EmqList) (prev next : Option Pointer) (h : Heap α) :
    Option (EmqList × Heap α) :=
  match prev with
  | some prev => (h.setNext prev next).map fun h => (list, h)
  | none => some ({ list with head := next }, h)

/-- `prev` takes the place of the predecessor of `next`, or of the tail of the list. -/
def linkPrev (list : EmqList) (next prev : Option Pointer) (h : Heap α) :
    Option (EmqList × Heap α) :=
  match next with
  | some next => (h.setPrev next prev).map fun h => (list, h)
  | none => some ({ list with tail := prev }, h)

/-- `emq_list_delete_node`. The value is freed with the node. -/
def deleteNode (list : EmqList) (node : Pointer) (h : Heap α) : Option (EmqList × Heap α) := do
  let doomed ← h node
  let (list, h) ← list.linkNext doomed.prev doomed.next h
  let (list, h) ← list.linkPrev doomed.next doomed.prev h
  some ({ list with length := list.length - 1 }, h.free node)

/-- `emq_list_rewind`. The iterator is its member `next`. -/
def rewind (list : EmqList) : Option Pointer := list.head

/-- `emq_list_next`: the current node, and the iterator after it. -/
def next (iter : Option Pointer) (h : Heap α) :
    Option (Option (Pointer × α) × Option Pointer) :=
  match iter with
  | none => some (none, none)
  | some current => (h current).map fun node => (some (current, node.value), node.next)

/-- The loop that steps through a list and deletes the nodes whose value matches. -/
def deleteLoop (doomed : α → Bool) :
    (fuel : Nat) → (iter : Option Pointer) → (list : EmqList) → (h : Heap α) →
      Option (EmqList × Heap α)
  | 0, _, _, _ => none
  | fuel + 1, iter, list, h => do
      let (current, iter) ← next iter h
      match current with
      | none => some (list, h)
      | some (node, value) =>
          let (list, h) ← if doomed value then list.deleteNode node h else some (list, h)
          deleteLoop doomed fuel iter list h

def deleteMatching (doomed : α → Bool) (list : EmqList) (h : Heap α) :
    Option (EmqList × Heap α) :=
  deleteLoop doomed (list.length + 1) list.rewind list h

/-- `deleteLoop` with the nodes it comes to. -/
def sweep (doomed : α → Bool) :
    (fuel : Nat) → (iter : Option Pointer) → (list : EmqList) → (h : Heap α) →
      Option (List (Pointer × α) × EmqList × Heap α)
  | 0, _, _, _ => none
  | fuel + 1, iter, list, h => do
      let (current, iter) ← next iter h
      match current with
      | none => some ([], list, h)
      | some (node, value) =>
          let (list, h) ← if doomed value then list.deleteNode node h else some (list, h)
          let (visited, list, h) ← sweep doomed fuel iter list h
          some ((node, value) :: visited, list, h)

/-- What `emq_list_release` gives back, in its order. -/
inductive Released (α : Type) where
  | value (value : α)
  | node (p : Pointer)
  | list
  deriving DecidableEq, Repr

def Released.node? : Released α → Option Pointer
  | .node p => some p
  | _ => none

def Released.value? : Released α → Option α
  | .value freed => some freed
  | _ => none

def releaseLoop (free : Bool) :
    (length : Nat) → (current : Option Pointer) → (h : Heap α) →
      Option (List (Released α) × Heap α)
  | 0, _, h => some ([], h)
  | length + 1, current, h => do
      let current ← current
      let node ← h current
      let (released, h) ← releaseLoop free length node.next (h.free current)
      some ((if free then [.value node.value] else []) ++ .node current :: released, h)

/-- `emq_list_release`; `free` says whether the list has a method for its values. -/
def release (free : Bool) (list : EmqList) (h : Heap α) :
    Option (List (Released α) × Heap α) := do
  let (released, h) ← releaseLoop free list.length list.head h
  some (released ++ [.list], h)

/-- The values that calls of `emq_list_next` return up to the first `NULL`, when this is
among so many calls. -/
def iterate (h : Heap α) : (calls : Nat) → (iter : Option Pointer) → Option (List α)
  | 0, _ => none
  | calls + 1, iter => do
      let (current, iter) ← next iter h
      match current with
      | none => some []
      | some (_, value) => (iterate h calls iter).map fun values => value :: values

end EmqList

/-- The list consists of these nodes, and no other memory is in use for nodes. -/
structure Represents (list : EmqList) {α : Type} (h : Heap α) (nodes : List (Pointer × α)) :
    Prop where
  segment : Segment h none list.head nodes list.tail none
  length : list.length = nodes.length
  nodup : (pointers nodes).Nodup
  unused : ∀ p ∉ pointers nodes, h p = none

/-- The list holds these values, in iteration order. -/
def Holds (list : EmqList) {α : Type} (h : Heap α) (held : List α) : Prop :=
  ∃ nodes, Represents list h nodes ∧ values nodes = held

variable {α : Type} {list : EmqList} {h : Heap α}

theorem represents_init : Represents .init (fun _ => none : Heap α) [] :=
  ⟨⟨rfl, rfl⟩, rfl, List.nodup_nil, fun _ _ => rfl⟩

theorem holds_init : Holds .init (fun _ => none : Heap α) [] := ⟨[], represents_init, rfl⟩

theorem addValue_represents {nodes : List (Pointer × α)} (hlist : Represents list h nodes)
    {node : Pointer} (hfresh : node ∉ pointers nodes) (value : α) :
    ∃ list' h', list.addValue node value h = some (list', h') ∧
      Represents list' h' ((node, value) :: nodes) := by
  obtain ⟨hsegment, hlength, hnodup, hunused⟩ := hlist
  cases nodes with
  | nil =>
      refine ⟨_, _, if_pos hlength, ⟨rfl, none, Heap.store_same .., rfl, rfl⟩, ?_, ?_, ?_⟩
      · simp [hlength]
      · simp
      · intro q hq
        rw [Heap.store_other (by simpa using hq)]
        exact hunused q (by simp)
  | cons first nodes =>
      obtain ⟨p, first⟩ := first
      obtain ⟨hhead, _⟩ := hsegment.step
      obtain ⟨hne, hp⟩ := List.nodup_cons.mp hnodup
      have hstored := hsegment.store_frame hfresh ⟨none, some p, value⟩
      obtain ⟨h', hset, hother, hsegment'⟩ := hstored.setPrev hne (some node)
      have hnode : h' node = some ⟨none, some p, value⟩ := by
        rw [hother node fun heq => hfresh (by simp [heq]), Heap.store_same]
      refine ⟨⟨some node, list.tail, list.length + 1⟩, h', ?_, ?_, ?_, ?_, ?_⟩
      · rw [EmqList.addValue, if_neg (by simp [hlength]), hhead]
        simp [hset]
      · rw [hhead] at hsegment'
        exact ⟨rfl, some p, hnode, hsegment'⟩
      · simp [hlength]
      · exact List.nodup_cons.mpr ⟨hfresh, hnodup⟩
      · intro q hq
        obtain ⟨hqnode, hqold⟩ := not_or.mp (fun hor => hq (List.mem_cons.mpr hor))
        rw [hother q fun heq => hqold (by simp [heq]), Heap.store_other hqnode]
        exact hunused q hqold

theorem linkNext_segment {front : List (Pointer × α)} {prev cur : Option Pointer}
    (hfront : Segment h none list.head front prev cur) (hnodup : (pointers front).Nodup)
    (next : Option Pointer) :
    ∃ list' h', list.linkNext prev next h = some (list', h') ∧ list'.tail = list.tail ∧
      list'.length = list.length ∧ (∀ q ∉ pointers front, h' q = h q) ∧
      Segment h' none list'.head front prev next := by
  rcases List.eq_nil_or_concat' front with rfl | ⟨front, ⟨p, value⟩, rfl⟩
  · obtain ⟨rfl, _⟩ := hfront
    exact ⟨{ list with head := next }, h, rfl, rfl, rfl, fun _ _ => rfl, rfl, rfl⟩
  · have hp : p ∉ pointers front := by
      rw [pointers, List.map_append] at hnodup
      exact fun hmem => (List.nodup_append.mp hnodup).2.2 p hmem p (by simp) rfl
    obtain ⟨rfl, h', hset, hother, hsegment⟩ := hfront.setNext hp next
    refine ⟨list, h', by simp [EmqList.linkNext, hset], rfl, rfl, fun q hq => hother q ?_,
      hsegment⟩
    rintro rfl
    exact hq (by simp)

theorem linkPrev_segment {back : List (Pointer × α)} {prev cur : Option Pointer}
    (hback : Segment h prev cur back list.tail none) (hnodup : (pointers back).Nodup)
    (prev' : Option Pointer) :
    ∃ list' h', list.linkPrev cur prev' h = some (list', h') ∧ list'.head = list.head ∧
      list'.length = list.length ∧ (∀ q ∉ pointers back, h' q = h q) ∧
      Segment h' prev' cur back list'.tail none := by
  cases back with
  | nil =>
      obtain ⟨_, rfl⟩ := hback
      exact ⟨{ list with tail := prev' }, h, rfl, rfl, rfl, fun _ _ => rfl, rfl, rfl⟩
  | cons node back =>
      obtain ⟨p, value⟩ := node
      obtain ⟨hp, _⟩ := List.nodup_cons.mp hnodup
      obtain ⟨rfl, _⟩ := hback.step
      obtain ⟨h', hset, hother, hsegment⟩ := hback.setPrev hp prev'
      refine ⟨list, h', by simp [EmqList.linkPrev, hset], rfl, rfl, fun q hq => hother q ?_,
        hsegment⟩
      rintro rfl
      exact hq (by simp)

theorem deleteNode_represents {front back : List (Pointer × α)} {node : Pointer} {value : α}
    (hlist : Represents list h (front ++ (node, value) :: back)) :
    ∃ list' h', list.deleteNode node h = some (list', h') ∧
      Represents list' h' (front ++ back) := by
  obtain ⟨hsegment, hlength, hnodup, hunused⟩ := hlist
  obtain ⟨prev, cur, hfront, rfl, next, hnode, hback⟩ := segment_append.mp hsegment
  rw [pointers, List.map_append, List.map_cons, List.nodup_append, List.nodup_cons] at hnodup
  obtain ⟨hfrontNodup, ⟨hnotBack, hbackNodup⟩, hdisjoint⟩ := hnodup
  have hnotFront : node ∉ pointers front := fun hmem => hdisjoint node hmem node (by simp) rfl
  have hapart : ∀ q ∈ pointers front, q ∉ pointers back :=
    fun q hq hq' => hdisjoint q hq q (List.mem_cons_of_mem _ hq') rfl
  obtain ⟨list1, h1, hlink1, htail1, hlength1, hother1, hfront1⟩ :=
    linkNext_segment hfront hfrontNodup next
  have hback1 : Segment h1 (some node) next back list1.tail none := by
    rw [htail1]
    exact hback.frame fun q hq => hother1 q fun hq' => hapart q hq' hq
  obtain ⟨list2, h2, hlink2, hhead2, hlength2, hother2, hback2⟩ :=
    linkPrev_segment hback1 hbackNodup prev
  have hfront2 : Segment h2 none list2.head front prev next := by
    rw [hhead2]
    exact hfront1.frame fun q hq => hother2 q (hapart q hq)
  refine ⟨{ list2 with length := list2.length - 1 }, h2.free node, ?_, ?_, ?_, ?_, ?_⟩
  · simp [EmqList.deleteNode, hnode, hlink1, hlink2]
  · exact segment_append.mpr ⟨prev, next, hfront2.free_frame hnotFront,
      hback2.free_frame hnotBack⟩
  · simp [hlength1, hlength2, hlength]
  · rw [pointers, List.map_append, List.nodup_append]
    exact ⟨hfrontNodup, hbackNodup, fun a ha b hb heq => hapart a ha (heq ▸ hb)⟩
  · intro q hq
    rw [pointers, List.map_append, List.mem_append, not_or] at hq
    by_cases hqnode : q = node
    · rw [hqnode, Heap.free_same]
    · rw [Heap.free_other hqnode, hother2 q hq.2, hother1 q hq.1]
      exact hunused q (by simpa [hqnode] using hq)

theorem next_represents {iter prev last next : Option Pointer} {nodes : List (Pointer × α)}
    (hsegment : Segment h prev iter nodes last next) (hnext : next = none) :
    EmqList.next iter h = some (nodes.head?, (pointers nodes.tail).head?) := by
  cases nodes with
  | nil =>
      obtain ⟨_, rfl⟩ := hsegment
      rw [hnext]
      rfl
  | cons node nodes =>
      obtain ⟨p, value⟩ := node
      obtain ⟨rfl, node, hnode, rfl, hrest⟩ := hsegment.step
      have hiter := hrest.cur_eq
      rw [hnext, Option.or_none] at hiter
      simp [EmqList.next, hnode, hiter]

theorem deleteLoop_eq_sweep (doomed : α → Bool) (fuel : Nat) :
    ∀ (iter : Option Pointer) (list : EmqList) (h : Heap α),
      EmqList.deleteLoop doomed fuel iter list h =
        (EmqList.sweep doomed fuel iter list h).map Prod.snd := by
  induction fuel with
  | zero => intro iter list h; rfl
  | succ fuel ih =>
      intro iter list h
      have hgoesOn : ∀ (node : Pointer × α) (iter : Option Pointer) (list : EmqList)
          (h : Heap α), EmqList.deleteLoop doomed fuel iter list h =
            ((EmqList.sweep doomed fuel iter list h).bind fun swept =>
              some (node :: swept.1, swept.2)).map Prod.snd := by
        intro node iter list h
        rw [ih]
        cases EmqList.sweep doomed fuel iter list h <;> rfl
      simp only [EmqList.deleteLoop, EmqList.sweep, Option.bind_eq_bind]
      cases EmqList.next iter h with
      | none => rfl
      | some turn =>
          obtain ⟨_ | ⟨node, value⟩, iter⟩ := turn
          · rfl
          · by_cases hdoomed : doomed value
            · simp only [Option.bind_some, if_pos hdoomed]
              cases list.deleteNode node h with
              | none => rfl
              | some left => exact hgoesOn ..
            · simp only [Option.bind_some, if_neg hdoomed]
              exact hgoesOn ..

/-- A loop that deletes while it iterates comes to every node once, and keeps the nodes whose
value does not match. -/
theorem sweep_represents (doomed : α → Bool) (rest : List (Pointer × α)) :
    ∀ (kept : List (Pointer × α)) (list : EmqList) (h : Heap α),
      Represents list h (kept ++ rest) →
      ∃ list' h', Represents list' h' (kept ++ rest.filter fun node => !doomed node.2) ∧
        ∀ fuel, rest.length < fuel →
          EmqList.sweep doomed fuel (pointers rest).head? list h = some (rest, list', h') := by
  induction rest with
  | nil =>
      intro kept list h hlist
      refine ⟨list, h, hlist, fun fuel hfuel => ?_⟩
      obtain ⟨fuel, rfl⟩ := Nat.exists_eq_add_of_lt hfuel
      rfl
  | cons node rest ih =>
      intro kept list h hlist
      obtain ⟨p, value⟩ := node
      obtain ⟨prev, cur, _, hrest⟩ := segment_append.mp hlist.segment
      have hnext := next_represents hrest rfl
      rw [hrest.step.1] at hnext
      by_cases hdoomed : doomed value
      · obtain ⟨list1, h1, hdelete, hlist1⟩ := deleteNode_represents hlist
        obtain ⟨list2, h2, hlist2, hsweep⟩ := ih kept list1 h1 hlist1
        refine ⟨list2, h2, by simpa [hdoomed] using hlist2, fun fuel hfuel => ?_⟩
        obtain ⟨fuel, rfl⟩ : ∃ fuel', fuel = fuel' + 1 := ⟨fuel - 1, by omega⟩
        have hloop := hsweep fuel (Nat.lt_of_succ_lt_succ hfuel)
        change EmqList.sweep doomed (fuel + 1) (some p) list h = _
        simp only [EmqList.sweep, hnext, List.head?_cons, List.tail_cons, Option.bind_eq_bind,
          Option.bind_some, if_pos hdoomed, hdelete, hloop]
      · obtain ⟨list2, h2, hlist2, hsweep⟩ :=
          ih (kept ++ [(p, value)]) list h (by simpa using hlist)
        refine ⟨list2, h2, by simpa [hdoomed] using hlist2, fun fuel hfuel => ?_⟩
        obtain ⟨fuel, rfl⟩ : ∃ fuel', fuel = fuel' + 1 := ⟨fuel - 1, by omega⟩
        have hloop := hsweep fuel (Nat.lt_of_succ_lt_succ hfuel)
        change EmqList.sweep doomed (fuel + 1) (some p) list h = _
        simp only [EmqList.sweep, hnext, List.head?_cons, List.tail_cons, Option.bind_eq_bind,
          Option.bind_some, if_neg hdoomed, hloop]

def releases (free : Bool) (nodes : List (Pointer × α)) : List (EmqList.Released α) :=
  (nodes.flatMap fun node => (if free then [.value node.2] else []) ++ [.node node.1]) ++ [.list]

theorem releaseLoop_segment (free : Bool) (nodes : List (Pointer × α)) :
    ∀ {h : Heap α} {prev cur last next : Option Pointer},
      Segment h prev cur nodes last next → (pointers nodes).Nodup →
      ∃ h', EmqList.releaseLoop free nodes.length cur h =
          some (nodes.flatMap fun node =>
            (if free then [.value node.2] else []) ++ [.node node.1], h') ∧
        (∀ p ∈ pointers nodes, h' p = none) ∧ ∀ p ∉ pointers nodes, h' p = h p := by
  induction nodes with
  | nil => exact fun _ _ => ⟨_, rfl, by simp, fun _ _ => rfl⟩
  | cons node nodes ih =>
      intro h prev cur last next hsegment hnodup
      obtain ⟨p, value⟩ := node
      obtain ⟨hp, hnodup⟩ := List.nodup_cons.mp hnodup
      obtain ⟨rfl, n, hnode, hrest⟩ := hsegment
      obtain ⟨h', hloop, hfreed, hother⟩ := ih (hrest.free_frame hp) hnodup
      refine ⟨h', ?_, fun q hq => ?_, fun q hq => ?_⟩
      · simp [EmqList.releaseLoop, hnode, hloop]
      · rcases List.mem_cons.mp hq with rfl | hq
        · rw [hother _ hp, Heap.free_same]
        · exact hfreed q hq
      · obtain ⟨hqp, hq⟩ := not_or.mp fun hor => hq (List.mem_cons.mpr hor)
        rw [hother q hq, Heap.free_other hqp]

/-- Nothing is left of a list that is released. -/
theorem release_represents {nodes : List (Pointer × α)} (hlist : Represents list h nodes)
    (free : Bool) : list.release free h = some (releases free nodes, fun _ => none) := by
  obtain ⟨h', hloop, hfreed, hother⟩ :=
    releaseLoop_segment free nodes hlist.segment hlist.nodup
  have hempty : h' = fun _ => none := by
    funext p
    by_cases hp : p ∈ pointers nodes
    · exact hfreed p hp
    · rw [hother p hp, hlist.unused p hp]
  rw [EmqList.release, hlist.length, hloop, hempty]
  rfl

theorem iterate_segment (nodes : List (Pointer × α)) :
    ∀ {prev iter last : Option Pointer}, Segment h prev iter nodes last none →
      (∀ calls, nodes.length < calls → EmqList.iterate h calls iter = some (values nodes)) ∧
        EmqList.iterate h nodes.length iter = none := by
  induction nodes with
  | nil =>
      rintro prev iter last ⟨_, rfl⟩
      refine ⟨fun calls hcalls => ?_, rfl⟩
      obtain ⟨calls, rfl⟩ := Nat.exists_eq_add_of_lt hcalls
      rfl
  | cons node nodes ih =>
      intro prev iter last hsegment
      obtain ⟨p, value⟩ := node
      have hnext := next_represents hsegment rfl
      obtain ⟨rfl, node, _, _, hrest⟩ := hsegment.step
      have hiter := hrest.cur_eq
      rw [Option.or_none] at hiter
      rw [hiter] at hrest
      obtain ⟨henough, hshort⟩ := ih hrest
      constructor
      · intro calls hcalls
        obtain ⟨calls, rfl⟩ : ∃ calls', calls = calls' + 1 := ⟨calls - 1, by omega⟩
        simp only [List.length_cons] at hcalls
        simp only [EmqList.iterate, hnext, List.head?_cons, List.tail_cons,
          Option.bind_eq_bind, Option.bind_some, henough calls (by omega), Option.map_some]
        rfl
      · simp only [List.length_cons, EmqList.iterate, hnext, List.head?_cons, List.tail_cons,
          Option.bind_eq_bind, Option.bind_some, hshort, Option.map_none]

theorem addValue_holds {held : List α} (hlist : Holds list h held) {node : Pointer}
    (hfresh : h node = none) (value : α) :
    ∃ list' h', list.addValue node value h = some (list', h') ∧
      Holds list' h' (value :: held) := by
  obtain ⟨nodes, hnodes, rfl⟩ := hlist
  obtain ⟨list', h', hadd, hnodes'⟩ :=
    addValue_represents hnodes (fun hmem => hnodes.segment.used node hmem hfresh) value
  exact ⟨list', h', hadd, _, hnodes', rfl⟩

theorem deleteMatching_holds {held : List α} (hlist : Holds list h held) (doomed : α → Bool) :
    ∃ list' h', list.deleteMatching doomed h = some (list', h') ∧
      Holds list' h' (deleteMatching doomed held) := by
  obtain ⟨nodes, hnodes, rfl⟩ := hlist
  have hhead := hnodes.segment.cur_eq
  rw [Option.or_none] at hhead
  obtain ⟨list', h', hnodes', hsweep⟩ := sweep_represents doomed nodes [] list h hnodes
  refine ⟨list', h', ?_, _, hnodes', ?_⟩
  · rw [EmqList.deleteMatching, EmqList.rewind, hhead, deleteLoop_eq_sweep,
      hsweep _ (by rw [hnodes.length]; omega)]
    rfl
  · rw [deleteMatching_eq_filter, List.nil_append, values, values, List.filter_map]
    rfl

theorem iterate_holds {held : List α} (hlist : Holds list h held) :
    list.length = held.length ∧
      EmqList.iterate h (held.length + 1) list.rewind = some held ∧
      EmqList.iterate h held.length list.rewind = none := by
  obtain ⟨nodes, hnodes, rfl⟩ := hlist
  obtain ⟨henough, hshort⟩ := iterate_segment nodes hnodes.segment
  have hlength : (values nodes).length = nodes.length := List.length_map ..
  rw [hlength]
  exact ⟨hnodes.length, henough _ (Nat.lt_succ_self _), hshort⟩

inductive Edit (α : Type) where
  | add (value : α)
  | delete (doomed : α → Bool)

def Edit.apply : Edit α → List α → List α
  | .add value, held => value :: held
  | .delete doomed, held => Commands.deleteMatching doomed held

def edited (edits : List (Edit α)) : List α := edits.foldl (fun held edit => edit.apply held) []

/-- What a fresh list and its memory can be after these changes. New nodes are wherever
`malloc` finds memory that is not in use. -/
inductive Edited : List (Edit α) → Option (EmqList × Heap α) → Prop
  | init : Edited [] (some (.init, fun _ => none))
  | add {edits : List (Edit α)} {list : EmqList} {h : Heap α}
      (hedits : Edited edits (some (list, h))) (value : α) {node : Pointer}
      (hfresh : h node = none) : Edited (edits ++ [.add value]) (list.addValue node value h)
  | delete {edits : List (Edit α)} {list : EmqList} {h : Heap α}
      (hedits : Edited edits (some (list, h))) (doomed : α → Bool) :
      Edited (edits ++ [.delete doomed]) (list.deleteMatching doomed h)

theorem edited_append (edits : List (Edit α)) (edit : Edit α) :
    edited (edits ++ [edit]) = edit.apply (edited edits) := by
  simp [edited]

/-- No change reads or writes through an invalid pointer, and the list holds the values
it should. -/
theorem Edited.holds {edits : List (Edit α)} {result : Option (EmqList × Heap α)}
    (hedited : Edited edits result) :
    ∃ list h, result = some (list, h) ∧ Holds list h (edited edits) := by
  induction hedited with
  | init => exact ⟨_, _, rfl, holds_init⟩
  | add _ value hfresh ih =>
      obtain ⟨list, h, heq, hlist⟩ := ih
      cases heq
      rw [edited_append]
      exact addValue_holds hlist hfresh value
  | delete _ doomed ih =>
      obtain ⟨list, h, heq, hlist⟩ := ih
      cases heq
      rw [edited_append]
      exact deleteMatching_holds hlist doomed

theorem exists_unused {held : List α} (hlist : Holds list h held) : ∃ node, h node = none := by
  obtain ⟨nodes, hnodes, _⟩ := hlist
  obtain ⟨node, hnode⟩ := Infinite.exists_notMem_finset (pointers nodes).toFinset
  exact ⟨node, hnodes.unused node (by simpa using hnode)⟩

theorem exists_edited (edits : List (Edit α)) : ∃ result, Edited edits result := by
  induction edits using List.reverseRecOn with
  | nil => exact ⟨_, .init⟩
  | append_singleton edits edit ih =>
      obtain ⟨result, hedited⟩ := ih
      obtain ⟨list, h, rfl, hlist⟩ := hedited.holds
      cases edit with
      | add value =>
          obtain ⟨node, hfresh⟩ := exists_unused hlist
          exact ⟨_, hedited.add value hfresh⟩
      | delete doomed => exact ⟨_, hedited.delete doomed⟩

/-- The function that the calls are modelled with adds the value that the list gets. -/
theorem emqListAddValue_refines {k : Kernel} {held held' : List α} {value : α} {w w' : World}
    (h' : emqListAddValue k held value w = .next (.ok, held') w') (hlist : Holds list h held)
    {node : Pointer} (hfresh : h node = none) :
    ∃ list' heap', list.addValue node value h = some (list', heap') ∧ Holds list' heap' held' := by
  have hheld : held' = value :: held := by
    unfold emqListAddValue at h'
    cases hmalloc : k.malloc w.mallocs 24 with
    | true =>
        rw [Code.bind_of_next (malloc_granted hmalloc)] at h'
        cases h'
        rfl
    | false =>
        rw [Code.bind_of_next (malloc_refused hmalloc)] at h'
        cases h'
  rw [hheld]
  exact addValue_holds hlist hfresh value

end Libemq.Lists
