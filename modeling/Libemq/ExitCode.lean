import Mathlib.Logic.Basic

/-!
Imperative code with one shared error label. A stretch of code over a state
falls through with a value, jumps to the error label, or has undefined
behaviour; the state reached is kept in all three cases.
-/

namespace Libemq.ExitCode

/-- How a stretch of code ends. -/
inductive Exit (σ φ α : Type) where
  | next (value : α) (state : σ)
  | error (state : σ)
  | fault (reason : φ) (state : σ)

/-- Code over states `σ` that can have undefined behaviour of kind `φ`. -/
def Code (σ φ α : Type) : Type := σ → Exit σ φ α

/-- How a whole function ends. -/
inductive Outcome (σ φ ρ : Type) where
  | returned (result : ρ) (state : σ)
  | fault (reason : φ) (state : σ)
  deriving Repr

variable {σ φ α β ρ : Type}

def Outcome.state : Outcome σ φ ρ → σ
  | .returned _ state => state
  | .fault _ state => state

def Outcome.result : Outcome σ φ ρ → Option ρ
  | .returned result _ => some result
  | .fault _ _ => none

theorem Outcome.eq_returned {outcome : Outcome σ φ ρ} {result : ρ}
    (h : outcome.result = some result) : ∃ state, outcome = .returned result state := by
  cases outcome with
  | returned result' state =>
      cases h
      exact ⟨state, rfl⟩
  | fault reason state => cases h

theorem Outcome.eq_returned_state {outcome : Outcome σ φ ρ} {result : ρ}
    (h : outcome.result = some result) : outcome = .returned result outcome.state := by
  obtain ⟨state, rfl⟩ := Outcome.eq_returned h
  rfl

def Exit.state : Exit σ φ α → σ
  | .next _ state => state
  | .error state => state
  | .fault _ state => state

def Exit.isNext : Exit σ φ α → Bool
  | .next _ _ => true
  | _ => false

theorem Exit.eq_next {exit : Exit σ φ α} (h : exit.isNext = true) :
    ∃ value state, exit = .next value state := by
  cases exit with
  | next value state => exact ⟨value, state, rfl⟩
  | error state => cases h
  | fault reason state => cases h

namespace Code

def pure (value : α) : Code σ φ α := fun s => .next value s

def bind (x : Code σ φ α) (f : α → Code σ φ β) : Code σ φ β := fun s =>
  match x s with
  | .next value s' => f value s'
  | .error s' => .error s'
  | .fault reason s' => .fault reason s'

instance : Monad (Code σ φ) where
  pure := Code.pure
  bind := Code.bind

/-- Jump to the error label. -/
def raise : Code σ φ α := fun s => .error s

def undefined (reason : φ) : Code σ φ α := fun s => .fault reason s

def reads (f : σ → α) : Code σ φ α := fun s => .next (f s) s

def modify (f : σ → σ) : Code σ φ Unit := fun s => .next () (f s)

/-- A function body whose error label stores a status and returns `failure`. -/
def body (onReturn onError : σ → σ) (failure : ρ) (x : Code σ φ ρ) : σ → Outcome σ φ ρ :=
  fun s =>
    match x s with
    | .next result s' => .returned result (onReturn s')
    | .error s' => .returned failure (onError s')
    | .fault reason s' => .fault reason s'

@[simp] theorem pure_apply (value : α) (s : σ) :
    (Pure.pure value : Code σ φ α) s = .next value s := rfl

@[simp] theorem raise_apply (s : σ) : (raise : Code σ φ α) s = .error s := rfl

@[simp] theorem undefined_apply (reason : φ) (s : σ) :
    (undefined reason : Code σ φ α) s = .fault reason s := rfl

@[simp] theorem reads_apply (f : σ → α) (s : σ) :
    (reads f : Code σ φ α) s = .next (f s) s := rfl

@[simp] theorem modify_apply (f : σ → σ) (s : σ) :
    (modify f : Code σ φ Unit) s = .next () (f s) := rfl

theorem bind_of_next {x : Code σ φ α} {s s' : σ} {value : α} (h : x s = .next value s')
    (f : α → Code σ φ β) : (x >>= f) s = f value s' := by
  change Code.bind x f s = _
  simp [Code.bind, h]

theorem bind_of_error {x : Code σ φ α} {s s' : σ} (h : x s = .error s')
    (f : α → Code σ φ β) : (x >>= f) s = .error s' := by
  change Code.bind x f s = _
  simp [Code.bind, h]

theorem bind_of_fault {x : Code σ φ α} {s s' : σ} {reason : φ} (h : x s = .fault reason s')
    (f : α → Code σ φ β) : (x >>= f) s = .fault reason s' := by
  change Code.bind x f s = _
  simp [Code.bind, h]

@[simp] theorem bind_raise (f : α → Code σ φ β) (s : σ) :
    ((raise : Code σ φ α) >>= f) s = .error s := rfl

@[simp] theorem bind_reads (g : σ → α) (f : α → Code σ φ β) (s : σ) :
    ((reads g : Code σ φ α) >>= f) s = f (g s) s := rfl

@[simp] theorem bind_modify (g : σ → σ) (f : Unit → Code σ φ β) (s : σ) :
    ((modify g : Code σ φ Unit) >>= f) s = f () (g s) := rfl

@[simp] theorem bind_undefined (reason : φ) (f : α → Code σ φ β) (s : σ) :
    ((undefined reason : Code σ φ α) >>= f) s = .fault reason s := rfl

@[simp] theorem pure_bind (value : α) (f : α → Code σ φ β) :
    (Pure.pure value : Code σ φ α) >>= f = f value := rfl

theorem bind_bind (x : Code σ φ α) {γ : Type} (f : α → Code σ φ β) (g : β → Code σ φ γ) :
    (x >>= f) >>= g = x >>= fun value => f value >>= g := by
  funext s
  cases h : x s with
  | next value s' =>
      rw [bind_of_next h]
      cases h' : f value s' with
      | next value' s'' => rw [bind_of_next (bind_of_next h f ▸ h'), bind_of_next h']
      | error s'' => rw [bind_of_error (bind_of_next h f ▸ h'), bind_of_error h']
      | fault reason s'' => rw [bind_of_fault (bind_of_next h f ▸ h'), bind_of_fault h']
  | error s' => rw [bind_of_error h, bind_of_error (bind_of_error h f)]
  | fault reason s' => rw [bind_of_fault h, bind_of_fault (bind_of_fault h f)]

end Code

end Libemq.ExitCode
