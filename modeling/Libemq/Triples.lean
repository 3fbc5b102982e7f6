import Libemq.ExitCode

namespace Libemq.Triples

open Libemq.ExitCode

variable {σ φ α β : Type} {P P' : σ → Prop} {Q Q' : α → σ → Prop} {E E' : σ → Prop}

/-- Started in `P`, the code falls through in `Q` and jumps to its error label in `E`. -/
structure Triple (P : σ → Prop) (x : Code σ φ α) (Q : α → σ → Prop) (E : σ → Prop) : Prop where
  next : ∀ {s s' value}, P s → x s = .next value s' → Q value s'
  error : ∀ {s s'}, P s → x s = .error s' → E s'

def Meets (Q : α → σ → Prop) (E : σ → Prop) : Exit σ φ α → Prop
  | .next value s => Q value s
  | .error s => E s
  | .fault _ _ => True

theorem triple_of_exit {x : Code σ φ α} (h : ∀ s, P s → Meets Q E (x s)) : Triple P x Q E where
  next {s _ _} hs hx := by
    have hmeets := h s hs
    rwa [hx] at hmeets
  error {s _} hs hx := by
    have hmeets := h s hs
    rwa [hx] at hmeets

theorem Triple.weaken {x : Code σ φ α} (h : Triple P x Q E) (hpre : ∀ s, P' s → P s)
    (hpost : ∀ value s, Q value s → Q' value s) (herror : ∀ s, E s → E' s) :
    Triple P' x Q' E' where
  next hs hx := hpost _ _ (h.next (hpre _ hs) hx)
  error hs hx := herror _ (h.error (hpre _ hs) hx)

theorem triple_pure {value : α} (h : ∀ s, P s → Q value s) :
    Triple P (pure value : Code σ φ α) Q E where
  next hs hx := by
    cases hx
    exact h _ hs
  error _ hx := by cases hx

theorem triple_raise (h : ∀ s, P s → E s) : Triple P (Code.raise : Code σ φ α) Q E where
  next _ hx := by cases hx
  error hs hx := by
    cases hx
    exact h _ hs

theorem triple_undefined {reason : φ} :
    Triple P (Code.undefined reason : Code σ φ α) Q E where
  next _ hx := by cases hx
  error _ hx := by cases hx

theorem triple_reads {f : σ → α} (h : ∀ s, P s → Q (f s) s) :
    Triple P (Code.reads f : Code σ φ α) Q E where
  next hs hx := by
    cases hx
    exact h _ hs
  error _ hx := by cases hx

theorem Triple.bind {x : Code σ φ α} {f : α → Code σ φ β} {R : β → σ → Prop}
    (hx : Triple P x Q E) (hf : ∀ value, Triple (Q value) (f value) R E) :
    Triple P (x >>= f) R E where
  next {s _ _} hs hrun := by
    cases h : x s with
    | next value s' =>
        rw [Code.bind_of_next h] at hrun
        exact (hf value).next (hx.next hs h) hrun
    | error s' =>
        rw [Code.bind_of_error h] at hrun
        cases hrun
    | fault reason s' =>
        rw [Code.bind_of_fault h] at hrun
        cases hrun
  error {s _} hs hrun := by
    cases h : x s with
    | next value s' =>
        rw [Code.bind_of_next h] at hrun
        exact (hf value).error (hx.next hs h) hrun
    | error s' =>
        rw [Code.bind_of_error h] at hrun
        cases hrun
        exact hx.error hs h
    | fault reason s' =>
        rw [Code.bind_of_fault h] at hrun
        cases hrun

theorem triple_ite {c : Prop} [Decidable c] {x y : Code σ φ α} (hx : c → Triple P x Q E)
    (hy : ¬ c → Triple P y Q E) : Triple P (if c then x else y) Q E := by
  split
  · exact hx ‹_›
  · exact hy ‹_›

end Libemq.Triples
