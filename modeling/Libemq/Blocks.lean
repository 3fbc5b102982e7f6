import Mathlib.Logic.Function.Basic
import Mathlib.Data.List.Nodup

namespace Libemq.Blocks

/-- The address of a block, which goes by the allocation it comes from, or of memory that was
not allocated here. -/
inductive Pointer where
  | block (b : Nat)
  | foreign (c : Nat)
  deriving DecidableEq, Repr

/-- `calls` counts the allocations with those that were refused. A cell that is nothing is not
in use. -/
structure Memory (κ : Type) where
  calls : Nat
  cells : Nat → Option κ
  allocated : List Nat
  frees : List Pointer

namespace Memory

variable {κ : Type}

def empty : Memory κ := ⟨0, fun _ => none, [], []⟩

def refuse (mem : Memory κ) : Memory κ := { mem with calls := mem.calls + 1 }

/-- The new block is `mem.calls`. -/
def alloc (cell : κ) (mem : Memory κ) : Memory κ where
  calls := mem.calls + 1
  cells := Function.update mem.cells mem.calls (some cell)
  allocated := mem.calls :: mem.allocated
  frees := mem.frees

/-- Nothing stands for a write to a block that is not in use. -/
def store (b : Nat) (cell : κ) (mem : Memory κ) : Option (Memory κ) :=
  (mem.cells b).map fun _ => { mem with cells := Function.update mem.cells b (some cell) }

def drop (b : Nat) (mem : Memory κ) : Memory κ :=
  { mem with
    cells := Function.update mem.cells b none
    frees := mem.frees ++ [.block b] }

/-- Nothing stands for a block that is freed when it is not in use. -/
def free (p : Pointer) (mem : Memory κ) : Option (Memory κ) :=
  match p with
  | .block b => (mem.cells b).map fun _ => mem.drop b
  | .foreign c => some { mem with frees := mem.frees ++ [.foreign c] }

variable {mem : Memory κ} {b : Nat} {cell cell' : κ}

@[simp] theorem alloc_cells_self : (mem.alloc cell).cells mem.calls = some cell :=
  Function.update_self ..

theorem alloc_cells_of_ne (h : b ≠ mem.calls) : (mem.alloc cell).cells b = mem.cells b :=
  Function.update_of_ne h ..

@[simp] theorem alloc_calls : (mem.alloc cell).calls = mem.calls + 1 := rfl

@[simp] theorem refuse_cells : mem.refuse.cells = mem.cells := rfl

@[simp] theorem drop_cells_self : (mem.drop b).cells b = none := Function.update_self ..

theorem drop_cells_of_ne {b' : Nat} (h : b' ≠ b) : (mem.drop b).cells b' = mem.cells b' :=
  Function.update_of_ne h ..

theorem used_of_drop {b' : Nat} (h : (mem.drop b').cells b ≠ none) :
    b ≠ b' ∧ mem.cells b ≠ none := by
  have hne : b ≠ b' := by
    rintro rfl
    exact h drop_cells_self
  rw [drop_cells_of_ne hne] at h
  exact ⟨hne, h⟩

@[simp] theorem store_alloc : (mem.alloc cell).store mem.calls cell' = some (mem.alloc cell') := by
  simp [store, alloc]

theorem store_alloc_of_ne (h : b ≠ mem.calls) :
    (mem.alloc cell).store b cell' = (mem.store b cell').map (alloc cell) := by
  rw [store, store, alloc_cells_of_ne h, Option.map_map]
  congr 1
  funext _
  simp [alloc, Function.update_comm h]

theorem store_eq (h : mem.cells b = some cell) (cell' : κ) :
    mem.store b cell' = some { mem with cells := Function.update mem.cells b (some cell') } := by
  rw [store, h]
  rfl

theorem free_block_eq (h : mem.cells b = some cell) : mem.free (.block b) = some (mem.drop b) := by
  rw [free, h]
  rfl

/-- What was in use is as it was. -/
def Extends (mem mem' : Memory κ) : Prop := ∀ b, mem.cells b ≠ none → mem'.cells b = mem.cells b

theorem Extends.cells {mem' : Memory κ} (h : Extends mem mem') (hb : mem.cells b = some cell) :
    mem'.cells b = some cell := by
  rw [h b (by simp [hb]), hb]

theorem Extends.trans {mem1 mem2 : Memory κ} (h : Extends mem mem1) (h' : Extends mem1 mem2) :
    Extends mem mem2 := by
  intro b hb
  rw [h' b (by rwa [h b hb]), h b hb]

/-- Blocks are allocated once, and they are in use until they are freed, which happens once
as well. -/
structure Sane (mem : Memory κ) : Prop where
  below : ∀ b ∈ mem.allocated, b < mem.calls
  allocated : mem.allocated.Nodup
  used : ∀ b, mem.cells b ≠ none → b ∈ mem.allocated
  frees : mem.frees.Nodup
  freed : ∀ p, p ∈ mem.frees ↔ ∃ b ∈ mem.allocated, p = .block b ∧ mem.cells b = none

namespace Sane

theorem empty : Sane (empty : Memory κ) where
  below := by simp [Memory.empty]
  allocated := List.nodup_nil
  used b h := absurd rfl h
  frees := List.nodup_nil
  freed p := by simp [Memory.empty]

variable (h : Sane mem)

include h

theorem lt_calls (hb : mem.cells b ≠ none) : b < mem.calls := h.below b (h.used b hb)

theorem fresh (hb : mem.calls ≤ b) : mem.cells b = none := by
  by_contra hused
  exact absurd (h.lt_calls hused) (Nat.not_lt.mpr hb)

theorem refuse : Sane mem.refuse where
  below b hb := Nat.lt_succ_of_lt (h.below b hb)
  allocated := h.allocated
  used := h.used
  frees := h.frees
  freed := h.freed

theorem alloc (cell : κ) : Sane (mem.alloc cell) where
  below b hb := by
    rcases List.mem_cons.mp hb with rfl | hb
    · exact Nat.lt_succ_self _
    · exact Nat.lt_succ_of_lt (h.below b hb)
  allocated := List.nodup_cons.mpr ⟨fun hmem => Nat.lt_irrefl _ (h.below _ hmem), h.allocated⟩
  used b hb := by
    by_cases hnew : b = mem.calls
    · rw [hnew]
      exact List.mem_cons_self
    · rw [alloc_cells_of_ne hnew] at hb
      exact List.mem_cons_of_mem _ (h.used b hb)
  frees := h.frees
  freed p := by
    rw [show (mem.alloc cell).frees = mem.frees from rfl, h.freed]
    constructor
    · rintro ⟨b, hb, rfl, hcell⟩
      refine ⟨b, List.mem_cons_of_mem _ hb, rfl, ?_⟩
      rw [alloc_cells_of_ne (Nat.ne_of_lt (h.below b hb)), hcell]
    · rintro ⟨b, hb, rfl, hcell⟩
      rcases List.mem_cons.mp hb with rfl | hb
      · rw [alloc_cells_self] at hcell
        cases hcell
      · rw [alloc_cells_of_ne (Nat.ne_of_lt (h.below b hb))] at hcell
        exact ⟨b, hb, rfl, hcell⟩

theorem store {mem' : Memory κ} (hstore : mem.store b cell = some mem') : Sane mem' := by
  obtain ⟨old, hold, rfl⟩ := Option.map_eq_some_iff.mp hstore
  have hnone : ∀ b', Function.update mem.cells b (some cell) b' = none ↔
      mem.cells b' = none := by
    intro b'
    by_cases heq : b' = b
    · simp [heq, hold]
    · rw [Function.update_of_ne heq]
  exact
    { below := h.below
      allocated := h.allocated
      used := fun b' hb' => h.used b' fun hcell => hb' ((hnone b').mpr hcell)
      frees := h.frees
      freed := by simpa only [hnone] using h.freed }

theorem drop (hb : mem.cells b = some cell) : Sane (mem.drop b) where
  below := h.below
  allocated := h.allocated
  used b' hb' := by
    by_cases heq : b' = b
    · rw [heq, drop_cells_self] at hb'
      exact absurd rfl hb'
    · rw [drop_cells_of_ne heq] at hb'
      exact h.used b' hb'
  frees := by
    refine List.nodup_append.mpr ⟨h.frees, List.nodup_singleton _, ?_⟩
    rintro p hp q hq rfl
    obtain ⟨b', _, heq, hcell⟩ := (h.freed p).mp hp
    cases heq.symm.trans (List.mem_singleton.mp hq)
    rw [hb] at hcell
    cases hcell
  freed p := by
    rw [show (mem.drop b).frees = mem.frees ++ [.block b] from rfl, List.mem_append, h.freed,
      List.mem_singleton]
    constructor
    · rintro (⟨b', hb', rfl, hcell⟩ | rfl)
      · refine ⟨b', hb', rfl, ?_⟩
        by_cases heq : b' = b
        · rw [heq, drop_cells_self]
        · rw [drop_cells_of_ne heq, hcell]
      · exact ⟨b, h.used b (by simp [hb]), rfl, drop_cells_self⟩
    · rintro ⟨b', hb', rfl, hcell⟩
      by_cases heq : b' = b
      · exact .inr (by rw [heq])
      · rw [drop_cells_of_ne heq] at hcell
        exact .inl ⟨b', hb', rfl, hcell⟩

theorem count_frees (hb : b ∈ mem.allocated) :
    mem.frees.count (.block b) = 1 ↔ mem.cells b = none := by
  rw [h.frees.count, ite_eq_left_iff, h.freed]
  constructor
  · intro hone
    by_contra hused
    refine absurd (hone ?_) (by decide)
    rintro ⟨b', _, heq, hcell⟩
    cases heq
    exact hused hcell
  · exact fun hcell hnot => absurd ⟨b, hb, rfl, hcell⟩ hnot

theorem block_notMem (hb : mem.cells b ≠ none) : .block b ∉ mem.frees := by
  intro hmem
  obtain ⟨b', _, heq, hcell⟩ := (h.freed _).mp hmem
  cases heq
  exact hb hcell

theorem foreign_notMem (c : Nat) : .foreign c ∉ mem.frees := by
  intro hmem
  obtain ⟨b, _, heq, _⟩ := (h.freed _).mp hmem
  cases heq

theorem extends_alloc (cell : κ) : Extends mem (mem.alloc cell) :=
  fun _ hb => alloc_cells_of_ne (Nat.ne_of_lt (h.lt_calls hb))

end Sane

end Memory

end Libemq.Blocks
