import Mathlib.Logic.Function.Basic
import Mathlib.Data.List.Nodup
import Mathlib.Data.List.Induction

namespace Libemq.LinkedLists

abbrev Pointer := Nat

structure Node (α : Type) where
  prev : Option Pointer
  next : Option Pointer
  value : α

/-- Where a node is and what it holds. Nothing stands for memory that is not in use. -/
abbrev Heap (α : Type) := Pointer → Option (Node α)

variable {α : Type}

namespace Heap

def store (p : Pointer) (node : Node α) (h : Heap α) : Heap α := Function.update h p (some node)

def free (p : Pointer) (h : Heap α) : Heap α := Function.update h p none

def setNext (p : Pointer) (next : Option Pointer) (h : Heap α) : Option (Heap α) :=
  (h p).map fun node => store p { node with next := next } h

def setPrev (p : Pointer) (prev : Option Pointer) (h : Heap α) : Option (Heap α) :=
  (h p).map fun node => store p { node with prev := prev } h

theorem store_same (p : Pointer) (node : Node α) (h : Heap α) : store p node h p = some node :=
  Function.update_self ..

theorem store_other {p q : Pointer} (hne : q ≠ p) (node : Node α) (h : Heap α) :
    store p node h q = h q :=
  Function.update_of_ne hne ..

theorem free_same (p : Pointer) (h : Heap α) : free p h p = none := Function.update_self ..

theorem free_other {p q : Pointer} (hne : q ≠ p) (h : Heap α) : free p h q = h q :=
  Function.update_of_ne hne ..

end Heap

/-- From `cur`, whose predecessor is `prev`, the links lead through these nodes in both
directions, up to `last`, whose successor is `next`. -/
def Segment (h : Heap α) : (prev cur : Option Pointer) → List (Pointer × α) →
    (last next : Option Pointer) → Prop
  | prev, cur, [], last, next => last = prev ∧ next = cur
  | prev, cur, (p, value) :: nodes, last, next =>
      cur = some p ∧ ∃ n, h p = some ⟨prev, n, value⟩ ∧ Segment h (some p) n nodes last next

abbrev pointers (nodes : List (Pointer × α)) : List Pointer := nodes.map Prod.fst

abbrev values (nodes : List (Pointer × α)) : List α := nodes.map Prod.snd

variable {h h' : Heap α} {prev cur last next : Option Pointer} {nodes : List (Pointer × α)}

theorem segment_append {front back : List (Pointer × α)} :
    Segment h prev cur (front ++ back) last next ↔
      ∃ m n, Segment h prev cur front m n ∧ Segment h m n back last next := by
  induction front generalizing prev cur with
  | nil =>
      constructor
      · intro hback
        exact ⟨prev, cur, ⟨rfl, rfl⟩, hback⟩
      · rintro ⟨m, n, ⟨rfl, rfl⟩, hback⟩
        exact hback
  | cons node front ih =>
      obtain ⟨p, value⟩ := node
      constructor
      · rintro ⟨hcur, n, hnode, hrest⟩
        obtain ⟨m, n', hfront, hback⟩ := ih.mp hrest
        exact ⟨m, n', ⟨hcur, n, hnode, hfront⟩, hback⟩
      · rintro ⟨m, n', ⟨hcur, n, hnode, hfront⟩, hback⟩
        exact ⟨hcur, n, hnode, ih.mpr ⟨m, n', hfront, hback⟩⟩

/-- A segment does not depend on memory outside of it. -/
theorem Segment.frame (hsegment : Segment h prev cur nodes last next)
    (hsame : ∀ p ∈ pointers nodes, h' p = h p) : Segment h' prev cur nodes last next := by
  induction nodes generalizing prev cur with
  | nil => exact hsegment
  | cons node nodes ih =>
      obtain ⟨p, value⟩ := node
      obtain ⟨hcur, n, hnode, hrest⟩ := hsegment
      refine ⟨hcur, n, ?_, ih hrest fun q hq => hsame q (List.mem_cons_of_mem p hq)⟩
      rw [hsame p List.mem_cons_self, hnode]

theorem Segment.store_frame (hsegment : Segment h prev cur nodes last next) {p : Pointer}
    (hp : p ∉ pointers nodes) (node : Node α) :
    Segment (h.store p node) prev cur nodes last next :=
  hsegment.frame fun _ hq => Heap.store_other (ne_of_mem_of_not_mem hq hp) node h

theorem Segment.free_frame (hsegment : Segment h prev cur nodes last next) {p : Pointer}
    (hp : p ∉ pointers nodes) : Segment (h.free p) prev cur nodes last next :=
  hsegment.frame fun _ hq => Heap.free_other (ne_of_mem_of_not_mem hq hp) h

theorem Segment.setPrev {p : Pointer} {value : α}
    (hsegment : Segment h prev cur ((p, value) :: nodes) last next)
    (hp : p ∉ pointers nodes) (prev' : Option Pointer) :
    ∃ h', h.setPrev p prev' = some h' ∧ (∀ q, q ≠ p → h' q = h q) ∧
      Segment h' prev' cur ((p, value) :: nodes) last next := by
  obtain ⟨hcur, n, hnode, hrest⟩ := hsegment
  refine ⟨_, by rw [Heap.setPrev, hnode]; rfl, fun q hq => Heap.store_other hq _ h, hcur, n,
    Heap.store_same .., hrest.store_frame hp _⟩

theorem Segment.setNext {p : Pointer} {value : α}
    (hsegment : Segment h prev cur (nodes ++ [(p, value)]) last next)
    (hp : p ∉ pointers nodes) (next' : Option Pointer) :
    last = some p ∧ ∃ h', h.setNext p next' = some h' ∧ (∀ q, q ≠ p → h' q = h q) ∧
      Segment h' prev cur (nodes ++ [(p, value)]) last next' := by
  obtain ⟨m, n, hfront, hcur, n', hnode, rfl, rfl⟩ := segment_append.mp hsegment
  refine ⟨rfl, _, by rw [Heap.setNext, hnode]; rfl, fun q hq => Heap.store_other hq _ h, ?_⟩
  exact segment_append.mpr ⟨m, n, hfront.store_frame hp _, hcur, next', Heap.store_same .., rfl,
    rfl⟩

theorem Segment.cur_eq (hsegment : Segment h prev cur nodes last next) :
    cur = ((pointers nodes).head?).or next := by
  cases nodes with
  | nil => exact hsegment.2.symm
  | cons node nodes => exact hsegment.1

theorem Segment.step {p : Pointer} {value : α}
    (hsegment : Segment h prev cur ((p, value) :: nodes) last next) :
    cur = some p ∧ ∃ node, h p = some node ∧ node.value = value ∧
      Segment h cur node.next nodes last next := by
  obtain ⟨rfl, n, hnode, hrest⟩ := hsegment
  exact ⟨rfl, _, hnode, rfl, hrest⟩

theorem Segment.used (hsegment : Segment h prev cur nodes last next) :
    ∀ p ∈ pointers nodes, h p ≠ none := by
  induction nodes generalizing prev cur with
  | nil => simp
  | cons node nodes ih =>
      obtain ⟨p, value⟩ := node
      obtain ⟨rfl, node, hnode, _, hrest⟩ := hsegment.step
      intro q hq
      rcases List.mem_cons.mp hq with rfl | hq
      · simp [hnode]
      · exact ih hrest q hq

/-- The nodes on the way from a pointer to `NULL` along some link, when there are at most so
many. Nothing stands for a longer way and for a look at memory that is not in use. -/
def walk (link : Node α → Option Pointer) (h : Heap α) :
    (most : Nat) → Option Pointer → Option (List (Pointer × α))
  | _, none => some []
  | 0, some _ => none
  | most + 1, some p => do
      let node ← h p
      let nodes ← walk link h most (link node)
      some ((p, node.value) :: nodes)

/-- A node that is found by following `next`. -/
inductive Linked (h : Heap α) : Option Pointer → Pointer → Prop
  | here (p : Pointer) : Linked h (some p) p
  | later {p q : Pointer} {node : Node α} (hnode : h p = some node)
      (hlater : Linked h node.next q) : Linked h (some p) q

theorem Segment.walk_next (hsegment : Segment h prev cur nodes last none) :
    walk Node.next h nodes.length cur = some nodes := by
  induction nodes generalizing prev cur with
  | nil =>
      obtain ⟨_, rfl⟩ := hsegment
      rfl
  | cons node nodes ih =>
      obtain ⟨p, value⟩ := node
      obtain ⟨rfl, n, hnode, hrest⟩ := hsegment
      simp only [List.length_cons, walk, hnode, ih hrest, Option.bind_eq_bind, Option.bind_some]

/-- From its end, a segment is walked along `prev` in the other order. -/
theorem Segment.walk_prev (hsegment : Segment h none cur nodes last next) :
    walk Node.prev h nodes.length last = some nodes.reverse := by
  induction nodes using List.reverseRecOn generalizing last next with
  | nil =>
      obtain ⟨rfl, _⟩ := hsegment
      rfl
  | append_singleton nodes node ih =>
      obtain ⟨p, value⟩ := node
      obtain ⟨m, n, hfront, rfl, _, hnode, rfl, rfl⟩ := segment_append.mp hsegment
      simp only [List.length_append, List.length_singleton, walk, hnode, ih hfront,
        Option.bind_eq_bind, Option.bind_some, List.reverse_append, List.reverse_singleton,
        List.singleton_append]

theorem Segment.last_eq (hsegment : Segment h none cur nodes last next) :
    last = (pointers nodes).getLast? := by
  rcases List.eq_nil_or_concat' nodes with rfl | ⟨nodes, ⟨p, value⟩, rfl⟩
  · exact hsegment.1
  · obtain ⟨m, n, _, rfl, _, _, rfl, _⟩ := segment_append.mp hsegment
    simp

theorem Linked.mem {q : Pointer} (hlinked : Linked h cur q)
    (hsegment : Segment h prev cur nodes last none) : q ∈ pointers nodes := by
  induction hlinked generalizing prev nodes with
  | here p =>
      cases nodes with
      | nil => cases hsegment.2
      | cons node nodes =>
          rw [Option.some.inj hsegment.1]
          exact List.mem_cons_self
  | @later p q node hnode _ ih =>
      cases nodes with
      | nil => cases hsegment.2
      | cons first nodes =>
          obtain ⟨hp, node', hnode', _, hrest⟩ := hsegment.step
          rw [Option.some.inj hp] at hnode
          obtain rfl : node = node' := Option.some.inj (hnode.symm.trans hnode')
          exact List.mem_cons_of_mem _ (ih hrest)

end Libemq.LinkedLists
