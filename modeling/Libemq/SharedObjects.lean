import Mathlib.Logic.Relation
import Mathlib.Logic.Function.Basic

/-!
Parties that share an object. Each of them has its own queue of calls to the object. A call
whose result is known beforehand returns as soon as it is in the queue, any other when it
was served. In whatever order the queues are served, the parties see the results of one
sequential run.
-/

namespace Libemq.SharedObjects

structure SharedObject (σ κ ρ : Type) where
  serve : σ → κ → σ × ρ
  known : κ → Option ρ
  serve_known : ∀ {c r}, known c = some r → ∀ s, (serve s c).2 = r

/-- What a party has sent and not been served, the call in which it waits, the result that
is there for it, and the calls that returned to it. -/
structure Party (κ ρ : Type) where
  queue : List κ
  waiting : Option κ
  answer : Option ρ
  history : List (κ × ρ)

def Party.new {κ ρ : Type} : Party κ ρ := ⟨[], none, none, []⟩

/-- The object with all of its parties. -/
structure Shared (ι σ κ ρ : Type) where
  object : σ
  parties : ι → Party κ ρ

variable {ι σ κ ρ : Type}

namespace SharedObject

variable (o : SharedObject σ κ ρ)

def after (s : σ) (order : List (ι × κ)) : σ := order.foldl (fun s call => (o.serve s call.2).1) s

def results : σ → List (ι × κ) → List (ι × κ × ρ)
  | _, [] => []
  | s, (i, c) :: order => (i, c, (o.serve s c).2) :: results (o.serve s c).1 order

theorem after_append (s : σ) (order order' : List (ι × κ)) :
    o.after s (order ++ order') = o.after (o.after s order) order' := List.foldl_append

theorem results_append (order order' : List (ι × κ)) : ∀ s,
    o.results s (order ++ order') = o.results s order ++ o.results (o.after s order) order' := by
  induction order with
  | nil => exact fun _ => rfl
  | cons call order ih =>
      intro s
      obtain ⟨i, c⟩ := call
      rw [List.cons_append, results, results, ih]
      rfl

variable [DecidableEq ι]

def seen (i : ι) (s : σ) (order : List (ι × κ)) : List (κ × ρ) :=
  ((o.results s order).filter fun result => result.1 = i).map Prod.snd

theorem seen_append (i : ι) (s : σ) (order order' : List (ι × κ)) :
    o.seen i s (order ++ order') = o.seen i s order ++ o.seen i (o.after s order) order' := by
  rw [seen, results_append, List.filter_append, List.map_append]
  rfl

theorem seen_own (i : ι) (s : σ) (c : κ) : o.seen i s [(i, c)] = [(c, (o.serve s c).2)] := by
  simp [seen, results]

theorem seen_other {i j : ι} (h : j ≠ i) (s : σ) (c : κ) : o.seen i s [(j, c)] = [] := by
  simp [seen, results, h]

end SharedObject

variable [DecidableEq ι] (o : SharedObject σ κ ρ)

def put (w : Shared ι σ κ ρ) (i : ι) (party : Party κ ρ) : Shared ι σ κ ρ :=
  { w with parties := Function.update w.parties i party }

/-- What a party can do by itself. -/
inductive Party.Step : Party κ ρ → Party κ ρ → Prop
  | post {p : Party κ ρ} (c : κ) (r : ρ) (hknown : o.known c = some r)
      (hfree : p.waiting = none) :
      Party.Step p { p with queue := p.queue ++ [c], history := p.history ++ [(c, r)] }
  | ask {p : Party κ ρ} (c : κ) (hknown : o.known c = none) (hfree : p.waiting = none) :
      Party.Step p { p with queue := p.queue ++ [c], waiting := some c }
  | take {p : Party κ ρ} (c : κ) (r : ρ) (hwaiting : p.waiting = some c)
      (hanswer : p.answer = some r) :
      Party.Step p
        { p with waiting := none, answer := none, history := p.history ++ [(c, r)] }

/-- A party when its next call was served with this result. -/
def Party.served (p : Party κ ρ) (c : κ) (queue : List κ) (r : ρ) : Party κ ρ :=
  { p with queue := queue, answer := if (o.known c).isSome then p.answer else some r }

inductive Step : Shared ι σ κ ρ → Shared ι σ κ ρ → Prop
  | party {w : Shared ι σ κ ρ} (i : ι) {p : Party κ ρ} (h : Party.Step o (w.parties i) p) :
      Step w (put w i p)
  | serve {w : Shared ι σ κ ρ} (i : ι) (c : κ) (queue : List κ)
      (hqueue : (w.parties i).queue = c :: queue) :
      Step w (put { w with object := (o.serve w.object c).1 } i
        ((w.parties i).served o c queue (o.serve w.object c).2))

abbrev Steps : Shared ι σ κ ρ → Shared ι σ κ ρ → Prop := Relation.ReflTransGen (Step o)

def Shared.new (s : σ) : Shared ι σ κ ρ := ⟨s, fun _ => .new⟩

/-- All of these calls have results that are known beforehand, and these are they. -/
def Posted (posted : List (κ × ρ)) : Prop := ∀ call ∈ posted, o.known call.1 = some call.2

/-- How far a party is that has seen these results. -/
inductive Follows : Party κ ρ → List (κ × ρ) → Prop
  | free (posted done : List (κ × ρ)) (hposted : Posted o posted) :
      Follows ⟨posted.map Prod.fst, none, none, done ++ posted⟩ done
  | asked (posted done : List (κ × ρ)) (c : κ) (hposted : Posted o posted)
      (hknown : o.known c = none) :
      Follows ⟨posted.map Prod.fst ++ [c], some c, none, done ++ posted⟩ done
  | answered (history : List (κ × ρ)) (c : κ) (r : ρ) :
      Follows ⟨[], some c, some r, history⟩ (history ++ [(c, r)])

/-- The object is behind a sequential run, and every party follows it. -/
def Sequential (s : σ) (w : Shared ι σ κ ρ) (order : List (ι × κ)) : Prop :=
  w.object = o.after s order ∧ ∀ i, Follows o (w.parties i) (o.seen i s order)

variable {o}

theorem Posted.append {posted : List (κ × ρ)} (h : Posted o posted) {c : κ} {r : ρ}
    (hknown : o.known c = some r) : Posted o (posted ++ [(c, r)]) :=
  List.forall_mem_append.mpr ⟨h, List.forall_mem_singleton.mpr hknown⟩

theorem Follows.step {p p' : Party κ ρ} {done : List (κ × ρ)} (h : Follows o p done)
    (hstep : Party.Step o p p') : Follows o p' done := by
  cases hstep with
  | post c r hknown hfree =>
      cases h with
      | free posted _ hposted =>
          have := Follows.free (posted ++ [(c, r)]) done (hposted.append hknown)
          rw [List.map_append, ← List.append_assoc] at this
          exact this
      | asked => cases hfree
      | answered => cases hfree
  | ask c hknown hfree =>
      cases h with
      | free posted _ hposted => exact .asked posted done c hposted hknown
      | asked => cases hfree
      | answered => cases hfree
  | take c r hwaiting hanswer =>
      cases h with
      | free => cases hwaiting
      | asked => cases hanswer
      | answered history c' r' =>
          cases hwaiting
          cases hanswer
          have := Follows.free (o := o) [] (history ++ [(c, r)]) (List.forall_mem_nil _)
          rwa [List.append_nil] at this

theorem Follows.serve {p : Party κ ρ} {done : List (κ × ρ)} (h : Follows o p done) {c : κ}
    {queue : List κ} (hqueue : p.queue = c :: queue) (s : σ) :
    Follows o (p.served o c queue (o.serve s c).2) (done ++ [(c, (o.serve s c).2)]) := by
  cases h with
  | free posted _ hposted =>
      cases posted with
      | nil => cases hqueue
      | cons call posted =>
          obtain ⟨hknown, hrest⟩ := List.forall_mem_cons.mp hposted
          cases hqueue
          have := Follows.free posted (done ++ [call]) hrest
          rw [List.append_assoc] at this
          rw [o.serve_known hknown s, Party.served, hknown]
          exact this
  | asked posted _ c' hposted hknown' =>
      cases posted with
      | nil =>
          cases hqueue
          rw [Party.served, hknown', List.append_nil]
          exact .answered done c (o.serve s c).2
      | cons call posted =>
          obtain ⟨hknown, hrest⟩ := List.forall_mem_cons.mp hposted
          cases hqueue
          have := Follows.asked posted (done ++ [call]) c' hrest hknown'
          rw [List.append_assoc] at this
          rw [o.serve_known hknown s, Party.served, hknown]
          exact this
  | answered => cases hqueue

theorem Sequential.step {s : σ} {w w' : Shared ι σ κ ρ} {order : List (ι × κ)}
    (h : Sequential o s w order) (hstep : Step o w w') :
    ∃ more, Sequential o s w' (order ++ more) := by
  obtain ⟨hobject, hparties⟩ := h
  cases hstep with
  | party i hown =>
      refine ⟨[], ?_⟩
      rw [List.append_nil]
      refine ⟨hobject, fun j => ?_⟩
      by_cases hj : j = i
      · subst hj
        simpa [put] using (hparties j).step hown
      · simpa [put, hj] using hparties j
  | serve i c queue hqueue =>
      refine ⟨[(i, c)], ?_, fun j => ?_⟩
      · rw [o.after_append, ← hobject]
        rfl
      · rw [o.seen_append, ← hobject]
        by_cases hj : j = i
        · subst hj
          rw [o.seen_own]
          simpa [put] using (hparties j).serve hqueue w.object
        · rw [o.seen_other fun h => hj h.symm, List.append_nil]
          simpa [put, hj] using hparties j

/-- Whatever the interleaving, there is a sequential run that explains what every party has
seen. -/
theorem Sequential.steps {s : σ} {w w' : Shared ι σ κ ρ} {order : List (ι × κ)}
    (h : Sequential o s w order) (hsteps : Steps o w w') :
    ∃ order', Sequential o s w' order' := by
  induction hsteps with
  | refl => exact ⟨order, h⟩
  | tail _ hstep ih =>
      obtain ⟨order1, hw⟩ := ih
      obtain ⟨more, hw'⟩ := hw.step hstep
      exact ⟨order1 ++ more, hw'⟩

theorem sequential_new (s : σ) : Sequential o s (Shared.new s : Shared ι σ κ ρ) [] :=
  ⟨rfl, fun _ => .free [] [] (List.forall_mem_nil _)⟩

/-- A call whose result is not known beforehand is the last that its party has sent. -/
theorem Follows.unknown {p : Party κ ρ} {done : List (κ × ρ)} (h : Follows o p done) {c : κ}
    {queue : List κ} (hqueue : p.queue = c :: queue) (hknown : o.known c = none) :
    p.waiting = some c ∧ p.answer = none ∧ queue = [] := by
  cases h with
  | free posted _ hposted =>
      cases posted with
      | nil => cases hqueue
      | cons call posted =>
          cases hqueue
          rw [hposted call List.mem_cons_self] at hknown
          cases hknown
  | asked posted _ c' hposted _ =>
      cases posted with
      | nil =>
          cases hqueue
          exact ⟨rfl, rfl, rfl⟩
      | cons call posted =>
          cases hqueue
          rw [hposted call List.mem_cons_self] at hknown
          cases hknown
  | answered => cases hqueue

end Libemq.SharedObjects
