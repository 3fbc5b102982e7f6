import Libemq.Blocks
import Mathlib.Data.List.Perm.Basic

namespace Libemq.Inventories

open Libemq.Blocks

variable {κ α β : Type}

/-- The blocks in use are these, each of them listed once. -/
structure Stocks (mem : Memory κ) (stock : List Nat) : Prop where
  sane : mem.Sane
  nodup : stock.Nodup
  used : ∀ b, mem.cells b ≠ none ↔ b ∈ stock

/-- What was freed before stays so, since no block is given out a second time. -/
structure Later (mem mem' : Memory κ) : Prop where
  calls : mem.calls ≤ mem'.calls
  gone : ∀ b < mem.calls, mem.cells b = none → mem'.cells b = none

/-- The blocks in use are now `new` and `rest`, and those of `rest` are as they were. -/
structure Traded (mem mem' : Memory κ) (new rest : List Nat) : Prop where
  stock : Stocks mem' (new ++ rest)
  frame : ∀ b ∈ rest, mem'.cells b = mem.cells b
  later : Later mem mem'

def reshape (cells : Nat → Option κ) (mem : Memory κ) : Memory κ := { mem with cells := cells }

variable {mem mem' : Memory κ} {stock stock' new old rest : List Nat} {b : Nat} {cell : κ}

namespace Stocks

theorem empty : Stocks (Memory.empty : Memory κ) [] where
  sane := .empty
  nodup := List.nodup_nil
  used b := by simp [Memory.empty]

theorem perm (h : Stocks mem stock) (hperm : stock.Perm stock') : Stocks mem stock' where
  sane := h.sane
  nodup := hperm.nodup_iff.mp h.nodup
  used b := (h.used b).trans hperm.mem_iff

variable (h : Stocks mem stock)

include h

theorem occupied (hb : b ∈ stock) : ∃ cell, mem.cells b = some cell :=
  Option.ne_none_iff_exists'.mp ((h.used b).mpr hb)

theorem fresh : mem.calls ∉ stock :=
  fun hmem => absurd (h.sane.lt_calls ((h.used _).mpr hmem)) (Nat.lt_irrefl _)

theorem refuse : Stocks mem.refuse stock where
  sane := h.sane.refuse
  nodup := h.nodup
  used := h.used

theorem alloc (cell : κ) : Stocks (mem.alloc cell) (mem.calls :: stock) where
  sane := h.sane.alloc cell
  nodup := List.nodup_cons.mpr ⟨h.fresh, h.nodup⟩
  used b := by
    by_cases hnew : b = mem.calls
    · simp [hnew]
    · rw [Memory.alloc_cells_of_ne hnew, h.used, List.mem_cons, or_iff_right hnew]

theorem reshape {cells : Nat → Option κ} (hnone : ∀ b, cells b = none ↔ mem.cells b = none) :
    Stocks (reshape cells mem) stock where
  sane :=
    { below := h.sane.below
      allocated := h.sane.allocated
      used := fun b hb => h.sane.used b fun hcell => hb ((hnone b).mpr hcell)
      frees := h.sane.frees
      freed := by simpa only [Inventories.reshape, hnone] using h.sane.freed }
  nodup := h.nodup
  used b := (not_congr (hnone b)).trans (h.used b)

/-- What was allocated was freed once, unless it is in use. -/
theorem count_frees (hb : b ∈ mem.allocated) :
    mem.frees.count (.block b) = if b ∈ stock then 0 else 1 := by
  split
  · rename_i hmem
    exact List.count_eq_zero.mpr (h.sane.block_notMem ((h.used b).mpr hmem))
  · rename_i hmem
    refine (h.sane.count_frees hb).mpr ?_
    by_contra hused
    exact hmem ((h.used b).mp hused)

end Stocks

theorem Stocks.drop (h : Stocks mem (b :: stock)) : Stocks (mem.drop b) stock where
  sane := by
    obtain ⟨cell, hcell⟩ := h.occupied List.mem_cons_self
    exact h.sane.drop hcell
  nodup := h.nodup.of_cons
  used b' := by
    by_cases heq : b' = b
    · rw [heq, Memory.drop_cells_self]
      exact iff_of_false (fun hne => hne rfl) (List.nodup_cons.mp h.nodup).1
    · rw [Memory.drop_cells_of_ne heq, h.used, List.mem_cons, or_iff_right heq]

theorem Later.refl (mem : Memory κ) : Later mem mem := ⟨Nat.le_refl _, fun _ _ => id⟩

theorem Later.trans {mem'' : Memory κ} (h : Later mem mem') (h' : Later mem' mem'') :
    Later mem mem'' :=
  ⟨Nat.le_trans h.calls h'.calls, fun b hb hnone =>
    h'.gone b (Nat.lt_of_lt_of_le hb h.calls) (h.gone b hb hnone)⟩

namespace Traded

theorem refl (h : Stocks mem (new ++ rest)) : Traded mem mem new rest where
  stock := h
  frame _ _ := rfl
  later := .refl mem

/-- What was left alone before can be traded later. -/
theorem andThen {mem'' : Memory κ} {kept : List Nat} (h : Traded mem mem' old kept)
    (hsubset : rest ⊆ kept) (h' : Traded mem' mem'' new rest) : Traded mem mem'' new rest where
  stock := h'.stock
  frame b hb := (h'.frame b hb).trans (h.frame b (hsubset hb))
  later := h.later.trans h'.later

theorem trans {mem'' : Memory κ} (h : Traded mem mem' old rest)
    (h' : Traded mem' mem'' new rest) : Traded mem mem'' new rest :=
  h.andThen (List.Subset.refl rest) h'

theorem perm (h : Traded mem mem' new rest) {new' : List Nat} (hperm : new.Perm new') :
    Traded mem mem' new' rest where
  stock := h.stock.perm (hperm.append_right rest)
  frame := h.frame
  later := h.later

theorem widen {kept : List Nat} (h : Traded mem mem' new (kept ++ rest)) :
    Traded mem mem' (new ++ kept) rest where
  stock := by
    rw [List.append_assoc]
    exact h.stock
  frame b hb := h.frame b (List.mem_append_right _ hb)
  later := h.later

theorem refuse (h : Stocks mem (new ++ rest)) : Traded mem mem.refuse new rest where
  stock := h.refuse
  frame _ _ := rfl
  later := ⟨Nat.le_succ _, fun _ _ => id⟩

theorem alloc (h : Stocks mem (old ++ rest)) (cell : κ) :
    Traded mem (mem.alloc cell) (mem.calls :: old) rest where
  stock := h.alloc cell
  frame b hb := h.sane.extends_alloc cell b ((h.used b).mpr (List.mem_append_right _ hb))
  later := by
    refine ⟨Nat.le_succ _, fun b hb hnone => ?_⟩
    rw [Memory.alloc_cells_of_ne (Nat.ne_of_lt hb), hnone]

theorem drop (h : Stocks mem (b :: new ++ rest)) : Traded mem (mem.drop b) new rest where
  stock := h.drop
  frame b' hb' := by
    refine Memory.drop_cells_of_ne ?_
    rintro rfl
    exact (List.nodup_cons.mp h.nodup).1 (List.mem_append_right _ hb')
  later := by
    refine ⟨Nat.le_refl _, fun b' _ hnone => ?_⟩
    by_cases heq : b' = b
    · rw [heq, Memory.drop_cells_self]
    · rw [Memory.drop_cells_of_ne heq, hnone]

theorem reshape (h : Stocks mem (new ++ rest)) {cells : Nat → Option κ}
    (hnone : ∀ b, cells b = none ↔ mem.cells b = none)
    (hsame : ∀ b ∈ rest, cells b = mem.cells b) :
    Traded mem (reshape cells mem) new rest where
  stock := h.reshape hnone
  frame := hsame
  later := ⟨Nat.le_refl _, fun b _ => (hnone b).mpr⟩

end Traded

theorem Stocks.eq_nil (h : Stocks mem (new ++ rest)) (h' : Stocks mem rest) : new = [] := by
  cases new with
  | nil => rfl
  | cons b new =>
      have hmem : b ∈ rest := (h'.used b).mp ((h.used b).mpr List.mem_cons_self)
      exact absurd (List.mem_append_right _ hmem) (List.nodup_cons.mp h.nodup).1

/-- Something that occupies blocks and says what has to be in them. -/
structure Holding (κ : Type) where
  blocks : List Nat
  holds : Memory κ → Prop
  frame : ∀ {mem mem'}, (∀ b ∈ blocks, mem'.cells b = mem.cells b) → holds mem → holds mem'

/-- All that is held, each on blocks of its own, and blocks that nobody looks after. -/
structure Held (mem : Memory κ) (all : List (Holding κ)) (lost : List Nat) : Prop where
  stock : Stocks mem (all.flatMap Holding.blocks ++ lost)
  each : ∀ h ∈ all, h.holds mem

section Holdings

variable {all all' others : List (Holding κ)} {h h' : Holding κ} {lost more : List Nat}

theorem Held.empty : Held (Memory.empty : Memory κ) [] [] := ⟨.empty, by simp⟩

theorem Held.perm (hheld : Held mem all lost) (hperm : all.Perm all') : Held mem all' lost where
  stock := hheld.stock.perm ((hperm.flatMap_right _).append_right lost)
  each h hmem := hheld.each h (hperm.mem_iff.mpr hmem)

theorem Held.first (hheld : Held mem (h :: others) lost) :
    Stocks mem (h.blocks ++ (others.flatMap Holding.blocks ++ lost)) := by
  rw [← List.append_assoc]
  exact hheld.stock

theorem Held.apart (hheld : Held mem (h :: others) lost) {b : Nat} (hb : b ∈ h.blocks) :
    ∀ h' ∈ others, b ∉ h'.blocks := by
  intro h' hmem hb'
  refine (List.nodup_append.mp hheld.first.nodup).2.2 b hb b ?_ rfl
  exact List.mem_append_left _ (List.mem_flatMap.mpr ⟨h', hmem, hb'⟩)

/-- The others keep what they hold while blocks besides theirs are traded. -/
theorem Held.keep (heach : ∀ h ∈ others, h.holds mem)
    (htraded : Traded mem mem' more (others.flatMap Holding.blocks ++ lost)) :
    Held mem' others (more ++ lost) where
  stock := by
    refine htraded.stock.perm ?_
    rw [← List.append_assoc, ← List.append_assoc]
    exact List.perm_append_comm.append_right lost
  each h hmem := h.frame (fun b hb => htraded.frame b
    (List.mem_append_left _ (List.mem_flatMap.mpr ⟨h, hmem, hb⟩))) (heach h hmem)

theorem Held.trade (heach : ∀ h ∈ others, h.holds mem)
    (htraded : Traded mem mem' (h'.blocks ++ more) (others.flatMap Holding.blocks ++ lost))
    (hholds : h'.holds mem') : Held mem' (h' :: others) (more ++ lost) where
  stock := by
    rw [List.flatMap_cons, List.append_assoc]
    refine htraded.stock.perm ?_
    rw [List.append_assoc]
    refine List.Perm.append_left _ ?_
    rw [← List.append_assoc, ← List.append_assoc]
    exact List.perm_append_comm.append_right lost
  each h hmem := by
    rcases List.mem_cons.mp hmem with rfl | hmem
    · exact hholds
    · exact h.frame (fun b hb => htraded.frame b
        (List.mem_append_left _ (List.mem_flatMap.mpr ⟨h, hmem, hb⟩))) (heach h hmem)

end Holdings

/-- Code that uses memory. Nothing stands for undefined behaviour. -/
abbrev Action (κ α : Type) := StateT (Memory κ) Option α

/-- `malloc`. A block that is granted holds `fresh` at first. -/
def acquire (grants : (call size : Nat) → Bool) (size : Nat) (fresh : κ) : Action κ (Option Nat) :=
  fun mem =>
    if grants mem.calls size then some (some mem.calls, mem.alloc fresh)
    else some (none, mem.refuse)

def load (kind : κ → Option α) (b : Nat) : Action κ α := fun mem =>
  ((mem.cells b).bind kind).map fun value => (value, mem)

def store (b : Nat) (cell : κ) : Action κ Unit := fun mem =>
  (mem.store b cell).map fun mem => ((), mem)

def discard (b : Nat) : Action κ Unit := fun mem =>
  (mem.free (.block b)).map fun mem => ((), mem)

theorem bind_of_some {x : Action κ α} {f : α → Action κ β} {value : α}
    (h : x mem = some (value, mem')) : (x >>= f) mem = f value mem' := by
  change (x mem).bind _ = _
  rw [h]
  rfl

theorem bind_of_none {x : Action κ α} {f : α → Action κ β} (h : x mem = none) :
    (x >>= f) mem = none := by
  change (x mem).bind _ = _
  rw [h]
  rfl

@[simp] theorem pure_apply (value : α) (mem : Memory κ) :
    (pure value : Action κ α) mem = some (value, mem) := rfl

section Code

variable {grants : Nat → Nat → Bool} {size : Nat} {fresh : κ} {kind : κ → Option α} {value : α}

theorem acquire_granted (h : grants mem.calls size = true) :
    acquire grants size fresh mem = some (some mem.calls, mem.alloc fresh) := if_pos h

theorem acquire_refused (h : grants mem.calls size = false) :
    acquire grants size fresh mem = some (none, mem.refuse) := if_neg (by simp [h])

theorem load_eq (hcell : mem.cells b = some cell) (hkind : kind cell = some value) :
    load kind b mem = some (value, mem) := by
  simp [load, hcell, hkind]

theorem load_unused (hcell : mem.cells b = none) : load kind b mem = none := by
  simp [load, hcell]

def stored (b : Nat) (cell : κ) (mem : Memory κ) : Memory κ :=
  reshape (Function.update mem.cells b (some cell)) mem

@[simp] theorem stored_cells_self : (stored b cell mem).cells b = some cell :=
  Function.update_self ..

theorem stored_cells_of_ne {b' : Nat} (h : b' ≠ b) :
    (stored b cell mem).cells b' = mem.cells b' := Function.update_of_ne h ..

theorem store_used {old : κ} (h : mem.cells b = some old) :
    store b cell mem = some ((), stored b cell mem) := by
  rw [store, Memory.store_eq h]
  rfl

theorem Traded.stored (h : Stocks mem (new ++ rest)) (hb : b ∈ new) :
    Traded mem (stored b cell mem) new rest := by
  obtain ⟨old, hold⟩ := h.occupied (List.mem_append_left _ hb)
  refine .reshape h (fun b' => ?_) fun b' hb' => Function.update_of_ne ?_ ..
  · by_cases heq : b' = b
    · simp [heq, hold]
    · rw [Function.update_of_ne heq]
  · rintro rfl
    exact (List.nodup_append.mp h.nodup).2.2 _ hb _ hb' rfl

theorem discard_used (h : mem.cells b = some cell) : discard b mem = some ((), mem.drop b) := by
  rw [discard, Memory.free_block_eq h]
  rfl

end Code

end Libemq.Inventories
