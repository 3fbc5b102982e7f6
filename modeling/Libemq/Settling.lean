import Libemq.Consistency
import Mathlib.Algebra.BigOperators.Group.Finset.Basic
import Mathlib.Algebra.Order.BigOperators.Group.Finset
import Mathlib.Data.Fintype.Basic

namespace Libemq.Settling

open Libemq.ExitCode
open Libemq.Client
open Libemq.Network
open Libemq.Protocol
open Libemq.Packet
open Libemq.Commands
open Libemq.Transactions
open Libemq.Responses
open Libemq.Calls
open Libemq.Completion
open Libemq.Runs
open Libemq.ServerErrors
open Libemq.Waiting
open Libemq.Framing
open Libemq.Codecs
open Libemq.CallStream
open Libemq.Halves
open Libemq.SharedObjects
open Libemq.Brokers
open Libemq.Consistency

/-- The call can come back with this reply. -/
def Returns (k : Kernel) (conn : Connection) (c : Command) (reply : Reply) : Prop :=
  ∃ w, conclude k c conn.world = .returned reply w ∧ w.failures = conn.world.failures

/-- The application has seen these results. It may still be in the last of these calls,
which can come back if it has a result, and with no other. -/
def Concludes (k : Kernel) (conn : Connection)
    (results : List ((Command × Bool) × Option Reply)) : Prop :=
  (conn.pending = none ∧ results.flatMap event = conn.world.trace) ∨
    ∃ c history outcome, conn.pending = some c ∧
      results = history ++ [((c, conn.world.client.noack), outcome)] ∧
      history.flatMap event = conn.world.trace ∧
      ∀ reply, Returns k conn c reply ↔ outcome = some reply

section Connections

variable {k : Kernel} (hk : Kernel.Reliable k) {σ : Type} {b : Broker σ} {conn : Connection}
  {p : Party (Command × Bool) (Option Reply)}

theorem stream_eq_nil {calls : List Call} (h : stream Call.bytes calls = []) : calls = [] := by
  have hlength := length_le_stream Call.bytes callCodec.one_le_encode_length calls
  rw [h] at hlength
  exact List.eq_nil_of_length_eq_zero (Nat.le_zero.mp hlength)

/-- All calls that are left were refused by the client. -/
theorem left_refused (h : Represents k conn p) (hsettled : Settled conn) :
    ∀ call ∈ p.queue, ¬ Accepts call.1 := by
  obtain ⟨calls, hcalls, hcarried⟩ := h.carries
  rw [hsettled.inbox, hsettled.requests] at hcalls
  rw [stream_eq_nil hcalls.symm] at hcarried
  intro call hmem haccepts
  have hnil := List.flatMap_eq_nil_iff.mp hcarried.symm call hmem
  rw [carried, if_pos haccepts] at hnil
  cases hnil

include hk

theorem returns_iff {c : Command} (hunder : Underway k c conn.world)
    (hawaits : Finish.awaits (finish c) conn.world.client.noack = true) (answer : Answer c)
    (hinput : conn.world.input =
      if conn.world.client.noack = true ∧ answer.body = [] then [] else answer.bytes)
    (reply : Reply) :
    Returns k conn c reply ↔
      (if Blocks answer conn.world.client.noack then none else some (replyOf answer)) =
        some reply := by
  constructor
  · rintro ⟨w, hreturn, hfailures⟩
    rw [← List.append_nil conn.world.input] at hinput
    obtain ⟨-, -, hreturns, hreply⟩ := taken hk hunder hawaits answer hinput hreturn hfailures
    rw [if_neg hreturns, hreply]
  · intro houtcome
    split at houtcome
    · cases houtcome
    · rename_i hreturns
      cases houtcome
      rw [if_neg fun hsilent => hreturns (.inl hsilent)] at hinput
      obtain ⟨reply, w, hreturn, hfailures⟩ := hunder.whole hk hawaits answer hinput
        fun hstat => by
          by_contra hrefused
          exact hreturns (.inr ⟨hstat, hrefused⟩)
      rw [← List.append_nil conn.world.input] at hinput
      obtain ⟨-, -, -, hreply⟩ := hunder.front hk hawaits answer hinput hreturn hfailures
      rw [← hreply]
      exact ⟨w, hreturn, hfailures⟩

theorem returns_unawaited {c : Command} (hunder : Underway k c conn.world)
    (hawaits : Finish.awaits (finish c) conn.world.client.noack = false) (reply : Reply) :
    Returns k conn c reply ↔ reply = .status .ok := by
  obtain ⟨w, hreturn, _, hfailures⟩ := hunder.unawaited hk hawaits
  constructor
  · rintro ⟨w', hreturn', _⟩
    rw [hreturn] at hreturn'
    cases hreturn'
    rfl
  · rintro rfl
    exact ⟨w, hreturn, hfailures⟩

theorem concludes (h : Represents k conn p) (hsettled : Settled conn)
    {done : List ((Command × Bool) × Option Reply)} (hfollows : Follows b.object p done)
    (hqueue : p.queue = []) : Concludes k conn done := by
  obtain ⟨_, _, hphase⟩ := h
  cases hfollows with
  | free posted _ _ =>
      rw [List.map_eq_nil_iff.mp hqueue, List.append_nil] at hphase
      cases hphase with
      | idle _ hpending hevents => exact .inl ⟨hpending, hevents⟩
      | posted _ before c hpending hunder hawaits hhistory hevents =>
          refine .inr ⟨c, before, some (.status .ok), hpending, hhistory, hevents, ?_⟩
          intro reply
          rw [returns_unawaited hk hunder hawaits, Option.some_inj, eq_comm]
  | asked => exact absurd hqueue (List.append_ne_nil_of_right_ne_nil _ (List.cons_ne_nil _ _))
  | answered history call r =>
      cases hphase with
      | answered _ c answer hpending hunder hawaits hevents hinput =>
          rw [hsettled.responses, List.append_nil] at hinput
          exact .inr ⟨c, history, _, hpending, rfl, hevents,
            returns_iff hk hunder hawaits answer hinput⟩

theorem settled_of_answered (h : Represents k conn p)
    {done : List ((Command × Bool) × Option Reply)} (hfollows : Follows b.object p done)
    {c : Command} (hpending : conn.pending = some c)
    (hawaits : Finish.awaits (finish c) conn.world.client.noack = true) {reply : Reply} {w : World}
    (hreturn : conclude k c conn.world = .returned reply w)
    (hfailures : w.failures = conn.world.failures) :
    Settled conn ∧ w.input = [] ∧ done.flatMap event = w.trace ++ [.issued c reply] := by
  obtain ⟨_, ⟨calls, hcalls, hcarried⟩, hphase⟩ := h
  cases hfollows with
  | free =>
      cases hphase with
      | idle _ hidle =>
          rw [hpending] at hidle
          cases hidle
      | posted _ _ c' hpending' _ hquiet =>
          rw [hpending] at hpending'
          cases hpending'
          rw [hawaits] at hquiet
          cases hquiet
  | asked =>
      cases hphase with
      | asked _ c' hpending' hunder _ _ hinput =>
          rw [hpending] at hpending'
          cases hpending'
          exact absurd hfailures (unanswered_waits hk hunder hawaits
            (List.append_eq_nil_iff.mp hinput).1 hreturn)
  | answered history call r =>
      cases hphase with
      | answered _ c' answer hpending' hunder _ hevents hinput =>
          rw [hpending] at hpending'
          cases hpending'
          have hqueue := List.map_eq_nil_iff.mp hcarried
          rw [hqueue] at hcalls
          obtain ⟨hinbox, hrequests⟩ := List.append_eq_nil_iff.mp hcalls
          obtain ⟨-, -, htrace⟩ := hunder.returned hreturn
          obtain ⟨hnil, hempty, hreturns, hreply⟩ :=
            taken hk hunder hawaits answer hinput hreturn hfailures
          refine ⟨⟨hrequests, hinbox, hnil⟩, hempty, ?_⟩
          rw [List.flatMap_append, hevents, htrace, if_neg hreturns, hreply]
          rfl

end Connections

section Systems

variable {ι σ : Type} [DecidableEq ι] {b : Broker σ}

abbrev Transits (b : Broker σ) : System ι σ → System ι σ → Prop :=
  Relation.ReflTransGen (Transit b)

theorem flush_steps (parties : List ι) :
    ∀ w : Shared ι σ (Command × Bool) (Option Reply),
      (∀ i, ∀ call ∈ (w.parties i).queue, ¬ Accepts call.1) →
      ∃ w', SharedObjects.Steps b.object w w' ∧ w'.object = w.object ∧
        ∀ i, w'.parties i = if i ∈ parties then left (w.parties i) [] else w.parties i := by
  induction parties with
  | nil => exact fun w _ => ⟨w, .refl, rfl, fun _ => rfl⟩
  | cons j parties ih =>
      intro w hrefused
      have hskip := skip_steps (b := b) j (w.parties j).queue [] (hrefused j) w
        (List.append_nil _).symm
      obtain ⟨w', hsteps, hobject, hparties⟩ := ih (put w j (left (w.parties j) [])) (by
        intro i
        by_cases hi : i = j
        · rw [hi, put_self]
          exact List.forall_mem_nil _
        · rw [put_other i hi]
          exact hrefused i)
      refine ⟨w', hskip.trans hsteps, hobject, fun i => ?_⟩
      rw [hparties]
      by_cases hi : i = j
      · rw [hi, put_self]
        simp [left]
      · rw [put_other i hi]
        simp [hi]

/-- When nothing is under way, the server is as after a sequential run whose results are
what the applications have seen. A client is in a call at most that is its last in this run,
and comes back from it with its result there, if it has one. -/
theorem settled_concludes [Fintype ι] (k : ι → Kernel) (hk : ∀ i, Kernel.Reliable (k i))
    (b : Broker σ) (s : σ) (sys : System ι σ) (h : Reachable k b s sys)
    (hsettled : ∀ i, Settled (sys.connections i)) :
    ∃ order, sys.broker = b.object.after s order ∧
      ∀ i, Concludes (k i) (sys.connections i) (b.object.seen i s order) := by
  obtain ⟨w, order, hw, hobject, hrepresents⟩ := simulates_of_reachable hk h
  obtain ⟨w', hsteps, hsame, hparties⟩ := flush_steps (b := b) Finset.univ.toList w
    fun i => left_refused (hrepresents i) (hsettled i)
  obtain ⟨order', hw'⟩ := hw.steps hsteps
  refine ⟨order', hobject.symm.trans (hsame.symm.trans hw'.1), fun i => ?_⟩
  have hparty : w'.parties i = left (w.parties i) [] := by
    rw [hparties, if_pos (Finset.mem_toList.mpr (Finset.mem_univ i))]
  have hfollows := hw'.2 i
  rw [hparty] at hfollows
  have hleft : Represents (k i) (sys.connections i) (left (w.parties i) []) := by
    refine ⟨(hrepresents i).ready, ⟨[], ?_, rfl⟩, (hrepresents i).phase⟩
    rw [(hsettled i).inbox, (hsettled i).requests]
    rfl
  exact concludes (hk i) hleft (hsettled i) hfollows rfl

theorem settled_answered (i : Bool) : Settled ((after answered).connections i) := by
  have hrequests : ∀ i, ((after answered).connections i).requests = [] := by decide +kernel
  have hinbox : ∀ i, ((after answered).connections i).inbox = [] := by decide +kernel
  have hresponses : ∀ i, ((after answered).connections i).responses = [] := by decide +kernel
  exact ⟨hrequests i, hinbox i, hresponses i⟩

theorem settled_concludes_answered :
    (∀ i, ((after answered).connections i).pending ≠ none) ∧
      ∃ order, (after answered).broker = tally.object.after 0 order ∧
        ∀ i, Concludes generous ((after answered).connections i)
          (tally.object.seen i 0 order) :=
  ⟨by decide +kernel, settled_concludes (fun _ => generous) (fun _ => generous_reliable) tally 0 _
    reachable_answered settled_answered⟩

def Connection.left (conn : Connection) : Nat × Nat × Nat :=
  (conn.requests.length, conn.inbox.length, conn.responses.length)

/-- Fewer bytes are left, or as many but nearer to the client. -/
abbrev Nearer : Nat × Nat × Nat → Nat × Nat × Nat → Prop :=
  Prod.Lex (· < ·) (Prod.Lex (· < ·) (· < ·))

def remaining [Fintype ι] (sys : System ι σ) : Nat × Nat × Nat :=
  ∑ i, Connection.left (sys.connections i)

theorem remaining_connect [Fintype ι] (sys : System ι σ) (broker : σ) (i : ι) (conn : Connection) :
    remaining (connect { sys with broker := broker } i conn) +
        Connection.left (sys.connections i) =
      remaining sys + Connection.left conn := by
  have hothers : ∀ sys' : System ι σ, (∀ j ≠ i, sys'.connections j = sys.connections j) →
      remaining sys' = Connection.left (sys'.connections i) +
        ∑ j ∈ Finset.univ.erase i, Connection.left (sys.connections j) := by
    intro sys' hsame
    rw [remaining, ← Finset.add_sum_erase _ _ (Finset.mem_univ i)]
    refine congrArg _ (Finset.sum_congr rfl fun j hj => ?_)
    rw [hsame j (Finset.ne_of_mem_erase hj)]
  rw [hothers sys fun _ _ => rfl, hothers _ fun j hj => by simp [connect, hj]]
  simp only [connect, Function.update_self]
  rw [add_right_comm, add_comm (Connection.left conn), add_right_comm]

theorem remaining_nearer [Fintype ι] {sys : System ι σ} {broker : σ} {i : ι} {conn : Connection}
    (h : Nearer (Connection.left conn) (Connection.left (sys.connections i))) :
    Nearer (remaining (connect { sys with broker := broker } i conn)) (remaining sys) := by
  have hsum := remaining_connect sys broker i conn
  generalize Connection.left conn = x at h hsum
  generalize Connection.left (sys.connections i) = y at h hsum
  obtain ⟨hrequests, hrest⟩ := Prod.ext_iff.mp hsum
  obtain ⟨hinbox, hresponses⟩ := Prod.ext_iff.mp hrest
  simp only [Prod.fst_add, Prod.snd_add] at hrequests hinbox hresponses
  rw [Nearer, Prod.lex_iff, Prod.lex_iff] at h ⊢
  omega

theorem Transit.remaining [Fintype ι] {sys sys' : System ι σ} (h : Transit b sys sys') :
    Nearer (Settling.remaining sys') (Settling.remaining sys) := by
  cases h with
  | arrive i n hpos hle =>
      refine remaining_nearer (Prod.lex_iff.mpr (.inl ?_))
      change ((sys.connections i).requests.drop n).length < (sys.connections i).requests.length
      rw [List.length_drop]
      omega
  | serve i call rest hparse =>
      exact remaining_nearer (.right _ (.left _ _ (Call.parse_shortens hparse)))
  | deliver i n hpos hle =>
      refine remaining_nearer (.right _ (.right _ ?_))
      change ((sys.connections i).responses.drop n).length < (sys.connections i).responses.length
      rw [List.length_drop]
      omega

theorem transit_wellFounded [Fintype ι] :
    WellFounded fun sys' sys : System ι σ => Transit b sys sys' := by
  have hnearer : WellFounded Nearer :=
    (Prod.lex Nat.lt_wfRel (Prod.lex Nat.lt_wfRel Nat.lt_wfRel)).wf
  exact Subrelation.wf (fun h => Transit.remaining h) (InvImage.wf remaining hnearer)

/-- Where nothing can happen without the clients, nothing is under way. -/
theorem settled_of_final {k : ι → Kernel} {s : σ} {sys : System ι σ}
    (h : Simulates k b s sys) (hfinal : ∀ sys', ¬ Transit b sys sys') (i : ι) :
    Settled (sys.connections i) := by
  obtain ⟨w, order, -, -, hrepresents⟩ := h
  have hrequests : (sys.connections i).requests = [] := by
    by_contra hne
    exact hfinal _ (.arrive i _ (List.length_pos_iff.mpr hne) (le_refl _))
  have hresponses : (sys.connections i).responses = [] := by
    by_contra hne
    exact hfinal _ (.deliver i _ (List.length_pos_iff.mpr hne) (le_refl _))
  refine ⟨hrequests, ?_, hresponses⟩
  obtain ⟨calls, hcalls, -⟩ := (hrepresents i).carries
  rw [hrequests, List.append_nil] at hcalls
  cases calls with
  | nil => exact hcalls
  | cons call calls =>
      rw [stream_cons] at hcalls
      refine absurd (Transit.serve i call (stream Call.bytes calls) ?_) (hfinal _)
      rw [hcalls, Call.parse_bytes]

theorem Transits.simulates {k : ι → Kernel} {s : σ} {sys sys' : System ι σ}
    (h : Simulates k b s sys) (htransits : Transits b sys sys') : Simulates k b s sys' :=
  Runs.of_steps (P := Simulates k b s) (fun h htransit => h.transit htransit) htransits h

/-- The bytes cannot get on for ever, and where they cannot get on any more, nothing is under
way. -/
theorem settles [Fintype ι] (k : ι → Kernel) (hk : ∀ i, Kernel.Reliable (k i)) (b : Broker σ)
    (s : σ) (sys : System ι σ) (h : Reachable k b s sys) :
    (WellFounded fun sys' sys : System ι σ => Transit b sys sys') ∧
      ∀ sys', Transits b sys sys' → (∀ sys'', ¬ Transit b sys' sys'') →
        ∀ i, Settled (sys'.connections i) :=
  ⟨transit_wellFounded, fun _ htransits hfinal => settled_of_final
    (Transits.simulates (simulates_of_reachable hk h) htransits) hfinal⟩

/-- A request of the first client is cut in two, and that of the second is under way. -/
theorem settles_sending :
    ((after sending).connections true).inbox.length = 50 ∧
      ((after sending).connections true).requests.length = 42 ∧
      ((after sending).connections false).requests ≠ [] ∧
      (WellFounded fun sys' sys : System Bool Nat => Transit tally sys sys') ∧
      ∀ sys', Transits tally (after sending) sys' → (∀ sys'', ¬ Transit tally sys' sys'') →
        ∀ i, Settled (sys'.connections i) :=
  ⟨by decide +kernel, by decide +kernel, by decide +kernel,
    settles (fun _ => generous) (fun _ => generous_reliable) tally 0 _ reachable_sending⟩

/-- An answer that a client takes tells it that the server has served all of its calls, those
before it that did not wait for an answer as well. -/
theorem answer_is_barrier (k : ι → Kernel) (hk : ∀ i, Kernel.Reliable (k i)) (b : Broker σ)
    (s : σ) (sys : System ι σ) (h : Reachable k b s sys) (i : ι) (c : Command)
    (hpending : (sys.connections i).pending = some c)
    (hawaits : Finish.awaits (finish c) (sys.connections i).world.client.noack = true)
    (conn : Connection) (hmove : Move (k i) (sys.connections i) conn) :
    Settled conn ∧ conn.world.input = [] ∧
      ∃ order, sys.broker = b.object.after s order ∧
        (b.object.seen i s order).flatMap event = conn.world.trace := by
  obtain ⟨w, order, hw, hobject, hrepresents⟩ := simulates_of_reachable hk h
  cases hmove with
  | refuse _ _ hidle => rw [hpending] at hidle; cases hidle
  | start _ _ hidle => rw [hpending] at hidle; cases hidle
  | noack _ hidle => rw [hpending] at hidle; cases hidle
  | finish c' reply w' hpending' hreturn hfailures =>
      rw [hpending] at hpending'
      cases hpending'
      obtain ⟨hsettled, hinput, hevents⟩ := settled_of_answered (hk i) (hrepresents i) (hw.2 i)
        hpending hawaits hreturn hfailures
      exact ⟨⟨hsettled.requests, hsettled.inbox, hsettled.responses⟩, hinput, order,
        hobject.symm.trans hw.1, hevents⟩

def resumed : Connection :=
  { (after answered).connections true with
    world := returned .ping (.status .ok)
      (conclude generous .ping ((after answered).connections true).world).state
    pending := none }

theorem move_resumed : Move generous ((after answered).connections true) resumed :=
  .finish .ping (.status .ok) _ (by decide +kernel)
    (Outcome.eq_returned_state (by decide +kernel)) (by decide +kernel)

theorem answer_is_barrier_answered :
    resumed.world.trace = [.issued (.queueCreate queueQ 1 1 0) (.status .ok),
        .issued .ping (.status .ok)] ∧
      Settled resumed ∧ resumed.world.input = [] ∧
      ∃ order, (after answered).broker = tally.object.after 0 order ∧
        (tally.object.seen true 0 order).flatMap event = resumed.world.trace :=
  ⟨by decide +kernel, answer_is_barrier (fun _ => generous) (fun _ => generous_reliable) tally 0 _
    reachable_answered true .ping (by decide +kernel) (by decide +kernel) resumed move_resumed⟩

end Systems

end Libemq.Settling
