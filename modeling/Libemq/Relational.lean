import Libemq.ExitCode

namespace Libemq.Relational

open Libemq.ExitCode

variable {σ τ φ α β ρ : Type} {R : σ → τ → Prop}

inductive SameExit (R : σ → τ → Prop) : Exit σ φ α → Exit τ φ α → Prop
  | next (value : α) {s : σ} {t : τ} (h : R s t) : SameExit R (.next value s) (.next value t)
  | error {s : σ} {t : τ} (h : R s t) : SameExit R (.error s) (.error t)
  | fault (reason : φ) (s : σ) (t : τ) : SameExit R (.fault reason s) (.fault reason t)

/-- The functions return the same from related states, or both have undefined
behaviour of one kind. -/
inductive SameOutcome (R : σ → τ → Prop) : Outcome σ φ ρ → Outcome τ φ ρ → Prop
  | returned (result : ρ) {s : σ} {t : τ} (h : R s t) :
      SameOutcome R (.returned result s) (.returned result t)
  | fault (reason : φ) (s : σ) (t : τ) : SameOutcome R (.fault reason s) (.fault reason t)

def Agree (R : σ → τ → Prop) (x : Code σ φ α) (y : Code τ φ α) : Prop :=
  ∀ s t, R s t → SameExit R (x s) (y t)

theorem agree_pure (value : α) :
    Agree R (pure value : Code σ φ α) (pure value : Code τ φ α) :=
  fun _ _ h => .next value h

theorem agree_raise : Agree R (Code.raise : Code σ φ α) (Code.raise : Code τ φ α) :=
  fun _ _ h => .error h

theorem agree_undefined (reason : φ) :
    Agree R (Code.undefined reason : Code σ φ α) (Code.undefined reason : Code τ φ α) :=
  fun s t _ => .fault reason s t

theorem agree_reads {f : σ → α} {g : τ → α} (h : ∀ s t, R s t → f s = g t) :
    Agree R (Code.reads f : Code σ φ α) (Code.reads g : Code τ φ α) := by
  intro s t hR
  rw [Code.reads_apply, Code.reads_apply, h s t hR]
  exact .next (g t) hR

theorem agree_modify {f : σ → σ} {g : τ → τ} (h : ∀ s t, R s t → R (f s) (g t)) :
    Agree R (Code.modify f : Code σ φ Unit) (Code.modify g : Code τ φ Unit) :=
  fun s t hR => .next () (h s t hR)

theorem Agree.bind {x : Code σ φ α} {y : Code τ φ α} {f : α → Code σ φ β} {g : α → Code τ φ β}
    (hxy : Agree R x y) (hfg : ∀ value, Agree R (f value) (g value)) :
    Agree R (x >>= f) (y >>= g) := by
  intro s t hR
  have hexit := hxy s t hR
  generalize hx : x s = exit at hexit
  generalize hy : y t = exit' at hexit
  cases hexit with
  | next value h =>
      rw [Code.bind_of_next hx, Code.bind_of_next hy]
      exact hfg value _ _ h
  | error h =>
      rw [Code.bind_of_error hx, Code.bind_of_error hy]
      exact .error h
  | fault reason s' t' =>
      rw [Code.bind_of_fault hx, Code.bind_of_fault hy]
      exact .fault reason s' t'

theorem agree_ite {c : Prop} [Decidable c] {x x' : Code σ φ α} {y y' : Code τ φ α}
    (hx : Agree R x y) (hy : Agree R x' y') :
    Agree R (if c then x else x') (if c then y else y') := by
  split
  · exact hx
  · exact hy

theorem agree_body {onReturn onError : σ → σ} {onReturn' onError' : τ → τ} (failure : ρ)
    {x : Code σ φ ρ} {y : Code τ φ ρ} (hxy : Agree R x y)
    (hreturn : ∀ s t, R s t → R (onReturn s) (onReturn' t))
    (herror : ∀ s t, R s t → R (onError s) (onError' t)) {s : σ} {t : τ} (hR : R s t) :
    SameOutcome R (Code.body onReturn onError failure x s)
      (Code.body onReturn' onError' failure y t) := by
  have hexit := hxy s t hR
  unfold Code.body
  generalize x s = exit at hexit
  generalize y t = exit' at hexit
  cases hexit with
  | next value h => exact .returned value (hreturn _ _ h)
  | error h => exact .returned failure (herror _ _ h)
  | fault reason s' t' => exact .fault reason s' t'

end Libemq.Relational
