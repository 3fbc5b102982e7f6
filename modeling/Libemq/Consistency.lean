import Libemq.Brokers

namespace Libemq.Consistency

open Libemq.ExitCode
open Libemq.Client
open Libemq.Network
open Libemq.Protocol
open Libemq.Packet
open Libemq.Commands
open Libemq.Transactions
open Libemq.Responses
open Libemq.Calls
open Libemq.Completion
open Libemq.Runs
open Libemq.ServerErrors
open Libemq.Waiting
open Libemq.Framing
open Libemq.Codecs
open Libemq.CallStream
open Libemq.Halves
open Libemq.SharedObjects
open Libemq.Brokers

def carried (call : Command × Bool) : List (Bool × Request × List UInt8) :=
  if Accepts call.1 then [(call.2, request call.1, payload call.1)] else []

def carriedBy (call : Call) : Bool × Request × List UInt8 :=
  (call.noack, call.request, call.payload)

def event : (Command × Bool) × Option Reply → List TraceEvent
  | ((c, _), some reply) => [.issued c reply]
  | (_, none) => []

/-- The bytes on their way to the server are these calls. -/
def Carries (conn : Connection) (queue : List (Command × Bool)) : Prop :=
  ∃ calls, conn.inbox ++ conn.requests = stream Call.bytes calls ∧
    calls.map carriedBy = queue.flatMap carried

/-- What a connection has to do with a party that shares the server as an object. -/
inductive Phase (k : Kernel) (conn : Connection) :
    Option (Command × Bool) → Option (Option Reply) →
      List ((Command × Bool) × Option Reply) → Prop
  | idle (history : List ((Command × Bool) × Option Reply)) (hpending : conn.pending = none)
      (hevents : history.flatMap event = conn.world.trace)
      (hinput : conn.world.input ++ conn.responses = []) : Phase k conn none none history
  | posted (history before : List ((Command × Bool) × Option Reply)) (c : Command)
      (hpending : conn.pending = some c) (hunder : Underway k c conn.world)
      (hawaits : Finish.awaits (finish c) conn.world.client.noack = false)
      (hhistory : history = before ++ [((c, conn.world.client.noack), some (.status .ok))])
      (hevents : before.flatMap event = conn.world.trace)
      (hinput : conn.world.input ++ conn.responses = []) : Phase k conn none none history
  | asked (history : List ((Command × Bool) × Option Reply)) (c : Command)
      (hpending : conn.pending = some c) (hunder : Underway k c conn.world)
      (hawaits : Finish.awaits (finish c) conn.world.client.noack = true)
      (hevents : history.flatMap event = conn.world.trace)
      (hinput : conn.world.input ++ conn.responses = []) :
      Phase k conn (some (c, conn.world.client.noack)) none history
  | answered (history : List ((Command × Bool) × Option Reply)) (c : Command)
      (answer : Answer c) (hpending : conn.pending = some c)
      (hunder : Underway k c conn.world)
      (hawaits : Finish.awaits (finish c) conn.world.client.noack = true)
      (hevents : history.flatMap event = conn.world.trace)
      (hinput : conn.world.input ++ conn.responses =
        if conn.world.client.noack = true ∧ answer.body = [] then [] else answer.bytes) :
      Phase k conn (some (c, conn.world.client.noack))
        (some (if Blocks answer conn.world.client.noack then none else some (replyOf answer)))
        history

structure Represents (k : Kernel) (conn : Connection)
    (p : Party (Command × Bool) (Option Reply)) : Prop where
  ready : Ready conn.world.client
  carries : Carries conn p.queue
  phase : Phase k conn p.waiting p.answer p.history

section Moves

variable {k : Kernel} (hk : Kernel.Reliable k) {σ : Type} {b : Broker σ} {conn : Connection}
  {p : Party (Command × Bool) (Option Reply)}

theorem Carries.append {queue : List (Command × Bool)} (h : Carries conn queue) {c : Command}
    (noack : Bool) (haccepts : Accepts c) (hcompact : Compact c) (world : World)
    (pending : Option Command) :
    Carries
      { conn with
        world := world
        pending := pending
        requests := conn.requests ++ frame c noack } (queue ++ [(c, noack)]) := by
  obtain ⟨calls, hcalls, hqueue⟩ := h
  refine ⟨calls ++ [.of c noack haccepts hcompact], ?_, ?_⟩
  · change conn.inbox ++ (conn.requests ++ frame c noack) = _
    rw [← List.append_assoc, hcalls, stream, stream, List.flatMap_append]
    simp [Call.of, Call.bytes, frame_eq]
  · rw [List.map_append, List.flatMap_append, hqueue]
    simp [carriedBy, Call.of, carried, haccepts]

theorem Carries.skip {queue : List (Command × Bool)} (h : Carries conn queue) {c : Command}
    {noack : Bool} (hnot : ¬ Accepts c) : Carries conn (queue ++ [(c, noack)]) := by
  obtain ⟨calls, hcalls, hqueue⟩ := h
  refine ⟨calls, hcalls, ?_⟩
  rw [List.flatMap_append, hqueue]
  simp [carried, hnot]

include hk

theorem Represents.refused (h : Represents k conn p) {c : Command} {w : World}
    (hidle : conn.pending = none) (hshort : Short c conn.world.client.noack)
    (hstart : start k c conn.world = .error w) :
    ∃ p', Party.Step b.object p p' ∧ Represents k
      { conn with
        world := returned c (finish c).failure (setStatus .err w)
        requests := conn.requests ++ written conn.world w } p' := by
  obtain ⟨hready, hcarries, hphase⟩ := h
  have hnot : ¬ Accepts c := by
    intro haccepts
    obtain ⟨w1, hnext, _⟩ := start_accepted hready hk haccepts hshort.2
    rw [hstart] at hnext
    cases hnext
  have hknown : b.object.known (c, conn.world.client.noack) = some (some (finish c).failure) :=
    if_neg hnot
  rw [start_refused hready hnot] at hstart
  cases hstart
  have hwritten : written conn.world (withError .data (withError .none conn.world)) = [] :=
    List.drop_length
  obtain ⟨queue, waiting, answer, history⟩ := p
  cases hphase with
  | idle _ _ hevents hinput =>
      refine ⟨_, .post (c, conn.world.client.noack) (some (finish c).failure) hknown rfl, ?_⟩
      refine ⟨hready, ?_, .idle _ hidle ?_ hinput⟩
      · rw [hwritten, List.append_nil]
        exact hcarries.skip hnot
      · rw [List.flatMap_append, hevents]
        rfl
  | posted _ _ _ hpending => rw [hidle] at hpending; cases hpending
  | asked _ _ hpending => rw [hidle] at hpending; cases hpending
  | answered _ _ _ hpending => rw [hidle] at hpending; cases hpending

theorem Represents.started (h : Represents k conn p) {c : Command} {w : World}
    (hidle : conn.pending = none) (hshort : Short c conn.world.client.noack)
    (hstart : start k c conn.world = .next () w) :
    ∃ p', Party.Step b.object p p' ∧ Represents k
      { conn with
        world := w
        pending := some c
        requests := conn.requests ++ written conn.world w } p' := by
  obtain ⟨hready, hcarries, hphase⟩ := h
  have hissued := start_issued hready hstart
  have haccepts := hissued.accepts
  have hready' := (hissued.ready hready).1
  have hwritten : written conn.world w = frame c conn.world.client.noack := by
    rw [written, hissued.output.mpr (not_stalls hk.writes _ _ _), List.drop_left]
  have hunder : Underway k c w := ⟨conn.world, hready, hstart⟩
  obtain ⟨queue, waiting, answer, history⟩ := p
  cases hphase with
  | idle _ _ hevents hinput =>
      rw [← hissued.input] at hinput
      rw [← hissued.trace] at hevents
      have hcarries' := hcarries.append conn.world.client.noack haccepts hshort.1 w (some c)
      rw [hwritten]
      cases hawaits : Finish.awaits (finish c) conn.world.client.noack with
      | false =>
          have hknown : b.object.known (c, conn.world.client.noack) =
              some (some (.status .ok)) := by
            simp [Broker.object, haccepts, hawaits]
          refine ⟨_, .post (c, conn.world.client.noack) (some (.status .ok)) hknown rfl, hready',
            hcarries', .posted _ history c rfl hunder ?_ ?_ hevents hinput⟩
          · rw [hissued.noack]
            exact hawaits
          · rw [hissued.noack]
      | true =>
          have hknown : b.object.known (c, conn.world.client.noack) = none := by
            simp [Broker.object, haccepts, hawaits]
          have hphase : Phase k
              { conn with
                world := w
                pending := some c
                requests := conn.requests ++ frame c conn.world.client.noack }
              (some (c, w.client.noack)) none history :=
            .asked history c rfl hunder (by rw [← hawaits]; exact congrArg _ hissued.noack)
              hevents hinput
          rw [show w.client.noack = conn.world.client.noack from hissued.noack] at hphase
          exact ⟨_, .ask (c, conn.world.client.noack) hknown rfl, hready', hcarries', hphase⟩
  | posted _ _ _ hpending => rw [hidle] at hpending; cases hpending
  | asked _ _ hpending => rw [hidle] at hpending; cases hpending
  | answered _ _ _ hpending => rw [hidle] at hpending; cases hpending

omit hk in
theorem Represents.switched (h : Represents k conn p) (hidle : conn.pending = none)
    (enable : Bool) :
    Represents k
      { conn with
        world := if enable then emqNoackEnable conn.world else emqNoackDisable conn.world } p := by
  obtain ⟨hready, hcarries, hphase⟩ := h
  obtain ⟨queue, waiting, answer, history⟩ := p
  cases hphase with
  | idle _ _ hevents hinput =>
      refine ⟨?_, hcarries, .idle _ hidle ?_ ?_⟩
      · cases enable <;> exact hready
      · cases enable <;> exact hevents
      · cases enable <;> exact hinput
  | posted _ _ _ hpending => rw [hidle] at hpending; cases hpending
  | asked _ _ hpending => rw [hidle] at hpending; cases hpending
  | answered _ _ _ hpending => rw [hidle] at hpending; cases hpending

omit b in
theorem unanswered_waits {c : Command} {w : World} (hunder : Underway k c w)
    (hawaits : Finish.awaits (finish c) w.client.noack = true) (hinput : w.input = [])
    {reply : Reply} {w' : World} (hreturn : conclude k c w = .returned reply w') :
    w'.failures ≠ w.failures := by
  intro hfailures
  let refusal : Answer c := ⟨.errorNoData, [], fun h => (by cases h), fun _ => rfl⟩
  have hfront : w.input ++ refusal.bytes = refusal.bytes := by
    rw [hinput, List.nil_append]
  obtain ⟨hnil, _⟩ := hunder.front hk hawaits refusal hfront hreturn hfailures
  have hlength := answer_bytes_length refusal
  rw [hnil] at hlength
  cases hlength

omit b in
/-- A call comes back with its answer only, and does not come back when it is given none. -/
theorem taken {c : Command} {w : World} (hunder : Underway k c w)
    (hawaits : Finish.awaits (finish c) w.client.noack = true) (answer : Answer c)
    {more : List UInt8}
    (hinput : w.input ++ more =
      if w.client.noack = true ∧ answer.body = [] then [] else answer.bytes)
    {reply : Reply} {w' : World} (hreturn : conclude k c w = .returned reply w')
    (hfailures : w'.failures = w.failures) :
    more = [] ∧ w'.input = [] ∧ ¬ Blocks answer w.client.noack ∧ reply = replyOf answer := by
  split at hinput
  · exact absurd hfailures (unanswered_waits hk hunder hawaits
      (List.append_eq_nil_iff.mp hinput).1 hreturn)
  · rename_i hspoken
    obtain ⟨hnil, hempty, hgranted, hreply⟩ :=
      hunder.front hk hawaits answer hinput hreturn hfailures
    refine ⟨hnil, hempty, ?_, hreply⟩
    rintro (hsilent | ⟨hstat, hrefused⟩)
    · exact hspoken hsilent
    · exact hrefused (hgranted hstat)

theorem Represents.finished (h : Represents k conn p) {c : Command} {reply : Reply} {w : World}
    (hpending : conn.pending = some c) (hreturn : conclude k c conn.world = .returned reply w)
    (henough : w.failures = conn.world.failures) :
    ∃ p', (p' = p ∨ Party.Step b.object p p') ∧
      Represents k { conn with world := returned c reply w, pending := none } p' := by
  obtain ⟨hready, hcarries, hphase⟩ := h
  obtain ⟨queue, waiting, answer, history⟩ := p
  cases hphase with
  | idle _ hidle => rw [hpending] at hidle; cases hidle
  | posted _ before c' hpending' hunder hawaits hhistory hevents hinput =>
      rw [hpending] at hpending'
      cases hpending'
      obtain ⟨hready', _, htrace⟩ := hunder.returned hreturn
      obtain ⟨w', hreturn', hsame, _⟩ := hunder.unawaited hk hawaits
      rw [hreturn] at hreturn'
      cases hreturn'
      refine ⟨_, .inl rfl, hready', hcarries, .idle _ rfl ?_ ?_⟩
      · rw [hhistory, List.flatMap_append, hevents, ← htrace]
        rfl
      · rw [← hsame] at hinput
        exact hinput
  | asked _ c' hpending' hunder hawaits _ hinput =>
      rw [hpending] at hpending'
      cases hpending'
      exact absurd henough (unanswered_waits hk hunder hawaits
        (List.append_eq_nil_iff.mp hinput).1 hreturn)
  | answered _ c' answer hpending' hunder hawaits hevents hinput =>
      rw [hpending] at hpending'
      cases hpending'
      obtain ⟨hready', _, htrace⟩ := hunder.returned hreturn
      obtain ⟨hnil, hempty, hreturns, hreply⟩ :=
        taken hk hunder hawaits answer hinput hreturn henough
      rw [if_neg hreturns, ← hreply]
      refine ⟨_, .inr (.take (c, conn.world.client.noack) (some reply) rfl rfl), hready',
        hcarries, .idle _ rfl ?_ ?_⟩
      · rw [List.flatMap_append, hevents, ← htrace]
        rfl
      · change w.input ++ conn.responses = []
        rw [hempty, hnil]
        rfl

theorem Represents.moved (h : Represents k conn p) {conn' : Connection}
    (hmove : Move k conn conn') :
    ∃ p', (p' = p ∨ Party.Step b.object p p') ∧ Represents k conn' p' := by
  cases hmove with
  | refuse c w hidle hshort hstart =>
      obtain ⟨p', hstep, h'⟩ := h.refused hk (b := b) hidle hshort hstart
      exact ⟨p', .inr hstep, h'⟩
  | start c w hidle hshort hstart =>
      obtain ⟨p', hstep, h'⟩ := h.started hk (b := b) hidle hshort hstart
      exact ⟨p', .inr hstep, h'⟩
  | finish c reply w hpending hreturn henough => exact h.finished hk hpending hreturn henough
  | noack enable hidle => exact ⟨p, .inl rfl, h.switched hidle enable⟩

end Moves

section Transits

variable {k : Kernel} {σ : Type} {b : Broker σ} {conn : Connection}
  {p : Party (Command × Bool) (Option Reply)}

theorem Phase.transit {waiting : Option (Command × Bool)} {answer : Option (Option Reply)}
    {history : List ((Command × Bool) × Option Reply)} (h : Phase k conn waiting answer history)
    {input requests inbox responses : List UInt8}
    (hsame : input ++ responses = conn.world.input ++ conn.responses) :
    Phase k ⟨{ conn.world with input := input }, conn.pending, requests, inbox, responses⟩
      waiting answer history := by
  cases h with
  | idle _ hpending hevents hinput => exact .idle _ hpending hevents (hsame.trans hinput)
  | posted _ before c hpending hunder hawaits hhistory hevents hinput =>
      exact .posted _ before c hpending (hunder.input input) hawaits hhistory hevents
        (hsame.trans hinput)
  | asked _ c hpending hunder hawaits hevents hinput =>
      exact .asked _ c hpending (hunder.input input) hawaits hevents (hsame.trans hinput)
  | answered _ c answer hpending hunder hawaits hevents hinput =>
      exact .answered _ c answer hpending (hunder.input input) hawaits hevents
        (hsame.trans hinput)

theorem Represents.arrived (h : Represents k conn p) (n : Nat) :
    Represents k
      { conn with
        requests := conn.requests.drop n
        inbox := conn.inbox ++ conn.requests.take n } p := by
  obtain ⟨hready, ⟨calls, hcalls, hqueue⟩, hphase⟩ := h
  refine ⟨hready, ⟨calls, ?_, hqueue⟩, hphase.transit rfl⟩
  change conn.inbox ++ conn.requests.take n ++ conn.requests.drop n = _
  rw [List.append_assoc, List.take_append_drop, hcalls]

theorem Represents.delivered (h : Represents k conn p) (n : Nat) :
    Represents k
      { conn with
        responses := conn.responses.drop n
        world := { conn.world with input := conn.world.input ++ conn.responses.take n } } p := by
  obtain ⟨hready, hcarries, hphase⟩ := h
  refine ⟨hready, hcarries, hphase.transit ?_⟩
  rw [List.append_assoc, List.take_append_drop]

theorem exists_next {queue : List (Command × Bool)} {x : Bool × Request × List UInt8}
    {xs : List (Bool × Request × List UInt8)} (h : queue.flatMap carried = x :: xs) :
    ∃ refused call rest, queue = refused ++ call :: rest ∧
      (∀ call ∈ refused, ¬ Accepts call.1) ∧ Accepts call.1 ∧
        x = (call.2, request call.1, payload call.1) ∧ rest.flatMap carried = xs := by
  induction queue with
  | nil => cases h
  | cons call queue ih =>
      by_cases haccepts : Accepts call.1
      · rw [List.flatMap_cons, carried, if_pos haccepts] at h
        cases h
        exact ⟨[], call, queue, rfl, List.forall_mem_nil _, haccepts, rfl, rfl⟩
      · rw [List.flatMap_cons, carried, if_neg haccepts, List.nil_append] at h
        obtain ⟨refused, next, rest, rfl, hrefused, hnext⟩ := ih h
        exact ⟨call :: refused, next, rest, rfl,
          List.forall_mem_cons.mpr ⟨haccepts, hrefused⟩, hnext⟩

theorem respond_eq (s : σ) {call : Call} {c : Command} {noack : Bool}
    (hcall : carriedBy call = (noack, request c, payload c)) :
    b.respond s call =
      if noack = true ∧ (b.answer s c).body = [] then [] else (b.answer s c).bytes := by
  obtain ⟨noack', r, message, haccepted, hannounced, hfits⟩ := call
  cases hcall
  rfl

theorem respond_unawaited (s : σ) {call : Call} {c : Command} {noack : Bool}
    (hcall : carriedBy call = (noack, request c, payload c))
    (hawaits : Finish.awaits (finish c) noack = false) : b.respond s call = [] := by
  have hnoack : noack = true := by
    cases noack with
    | true => rfl
    | false => simp at hawaits
  rw [hnoack] at hawaits
  rw [respond_eq s hcall, if_pos ⟨hnoack, answer_body_nil _ hawaits⟩]

theorem serve_eq (s : σ) {call : Call} {c : Command} {noack : Bool} (haccepts : Accepts c)
    (hcall : carriedBy call = (noack, request c, payload c)) :
    (b.object.serve s (c, noack)).1 = b.next s call := by
  have hrequest : call.request = request c := congrArg (fun x => x.2.1) hcall
  have hpayload : call.payload = payload c := congrArg (fun x => x.2.2) hcall
  rw [Broker.next, hrequest, hpayload]
  exact congrArg Prod.fst (if_pos haccepts)

variable {done : List ((Command × Bool) × Option Reply)}

theorem Represents.served (h : Represents k conn p) (hfollows : Follows b.object p done)
    {call : Call} {rest : List UInt8} (hparse : Call.parse conn.inbox = some (call, rest))
    {c : Command} {noack : Bool} {queue : List (Command × Bool)}
    (hqueue : p.queue = (c, noack) :: queue) (haccepts : Accepts c)
    (hcall : carriedBy call = (noack, request c, payload c)) (s : σ) :
    Represents k
      { conn with
        inbox := rest
        responses := conn.responses ++ b.respond s call }
      (p.served b.object (c, noack) queue (b.object.serve s (c, noack)).2) := by
  obtain ⟨hready, ⟨calls, hcalls, hcarried⟩, hphase⟩ := h
  obtain ⟨calls', rfl, hrest⟩ := callCodec.decode_front hcalls hparse
  refine ⟨hready, ⟨calls', hrest, ?_⟩, ?_⟩
  · rw [hqueue, List.flatMap_cons, carried, if_pos haccepts, List.map_cons, hcall] at hcarried
    exact List.tail_eq_of_cons_eq hcarried
  · cases hawaits : Finish.awaits (finish c) noack with
    | false =>
        have hknown : (b.object.known (c, noack)).isSome = true := by
          simp [Broker.object, haccepts, hawaits]
        rw [Party.served, if_pos hknown, respond_unawaited s hcall hawaits, List.append_nil]
        exact hphase.transit rfl
    | true =>
        have hknown : b.object.known (c, noack) = none := by
          simp [Broker.object, haccepts, hawaits]
        obtain ⟨hwaiting, hanswer, -⟩ := hfollows.unknown hqueue hknown
        rw [hwaiting, hanswer] at hphase
        rw [Party.served, hknown, respond_eq s hcall]
        simp only [Option.isSome_none, Bool.false_eq_true, if_false, hwaiting]
        generalize hsome : some (c, noack) = waiting at hphase
        cases hphase with
        | idle => cases hsome
        | posted => cases hsome
        | asked _ c' hpending hunder hawaits' hevents hinput =>
            cases hsome
            have hserve : (b.object.serve s (c, conn.world.client.noack)).2 =
                if Blocks (b.answer s c) conn.world.client.noack then none
                else some (replyOf (b.answer s c)) := by
              simp only [Broker.object, if_pos haccepts, hawaits', if_true]
            rw [hserve]
            refine .answered _ c (b.answer s c) hpending hunder hawaits' hevents ?_
            change conn.world.input ++ (conn.responses ++ _) = _
            rw [← List.append_assoc, hinput, List.nil_append]

/-- The application has seen these results, up to a call that it is still in. -/
def Explains (conn : Connection) (results : List ((Command × Bool) × Option Reply)) : Prop :=
  results.flatMap event = conn.world.trace ∨
    ∃ c reply, conn.pending = some c ∧
      results.flatMap event = conn.world.trace ++ [.issued c reply]

theorem Represents.explains (h : Represents k conn p) (hfollows : Follows b.object p done) :
    ∃ posted asked, Posted b.object posted ∧ Explains conn (done ++ posted) ∧
      Carries conn (posted.map Prod.fst ++ asked) ∧
        (asked = [] ∨ ∃ c, conn.pending = some c ∧ asked = [(c, conn.world.client.noack)]) := by
  obtain ⟨_, hcarries, hphase⟩ := h
  cases hfollows with
  | free posted _ hposted =>
      refine ⟨posted, [], hposted, ?_, by rwa [List.append_nil], .inl rfl⟩
      cases hphase with
      | idle _ _ hevents => exact .inl hevents
      | posted _ before c hpending _ _ hhistory hevents =>
          refine .inr ⟨c, .status .ok, hpending, ?_⟩
          rw [show done ++ posted = _ from hhistory, List.flatMap_append, hevents]
          rfl
  | asked posted _ call hposted =>
      cases hphase with
      | asked _ c hpending _ _ hevents =>
          exact ⟨posted, [(c, _)], hposted, .inl hevents, hcarries, .inr ⟨c, hpending, rfl⟩⟩
  | answered history call r =>
      refine ⟨[], [], List.forall_mem_nil _, ?_, hcarries, .inl rfl⟩
      rw [List.append_nil, Explains, List.flatMap_append, List.flatMap_singleton]
      cases hphase with
      | answered _ c answer hpending _ _ hevents =>
          rw [hevents]
          split
          · exact .inl (List.append_nil _)
          · exact .inr ⟨c, _, hpending, rfl⟩

end Transits

section Systems

variable {ι σ : Type} [DecidableEq ι] {b : Broker σ}

/-- A party of whose calls these are left. -/
def left (p : Party (Command × Bool) (Option Reply)) (queue : List (Command × Bool)) :
    Party (Command × Bool) (Option Reply) :=
  { p with queue := queue }

/-- Calls that the clients refuse are served without the server. -/
theorem skip_steps (i : ι) (refused rest : List (Command × Bool))
    (hrefused : ∀ call ∈ refused, ¬ Accepts call.1) :
    ∀ w : Shared ι σ (Command × Bool) (Option Reply), (w.parties i).queue = refused ++ rest →
      Steps b.object w (put w i (left (w.parties i) rest)) := by
  induction refused with
  | nil =>
      intro w hqueue
      have hsame : put w i (left (w.parties i) rest) = w := by
        rw [List.nil_append] at hqueue
        rw [put, left, ← hqueue, Function.update_eq_self]
      rw [hsame]
  | cons call refused ih =>
      intro w hqueue
      obtain ⟨hcall, hothers⟩ := List.forall_mem_cons.mp hrefused
      have hserve := SharedObjects.Step.serve (o := b.object) i call (refused ++ rest) hqueue
      have hknown : (b.object.known call).isSome = true := by
        simp [Broker.object, hcall]
      have hobject : (b.object.serve w.object call).1 = w.object := by
        simp [Broker.object, hcall]
      rw [Party.served, if_pos hknown, hobject] at hserve
      have hrest := ih hothers (put w i (left (w.parties i) (refused ++ rest)))
        (by simp [put, left])
      refine .head hserve ?_
      simpa [put, left] using hrest

/-- The server and its clients behave like an object and its parties. -/
def Simulates (k : ι → Kernel) (b : Broker σ) (s : σ) (sys : System ι σ) : Prop :=
  ∃ w order, Sequential b.object s w order ∧ w.object = sys.broker ∧
    ∀ i, Represents (k i) (sys.connections i) (w.parties i)

theorem Simulates.connect {k : ι → Kernel} {s : σ} {sys : System ι σ}
    {w w' : Shared ι σ (Command × Bool) (Option Reply)} {order : List (ι × Command × Bool)}
    (hw : Sequential b.object s w order)
    (hrepresents : ∀ i, Represents (k i) (sys.connections i) (w.parties i)) {i : ι}
    (hsteps : Steps b.object w w') {broker : σ} (hbroker : w'.object = broker)
    {conn : Connection} (hothers : ∀ j ≠ i, w'.parties j = w.parties j)
    (hconn : Represents (k i) conn (w'.parties i)) :
    Simulates k b s (connect { sys with broker := broker } i conn) := by
  obtain ⟨order', hw'⟩ := hw.steps hsteps
  refine ⟨w', order', hw', hbroker, fun j => ?_⟩
  by_cases hj : j = i
  · subst hj
    simpa [Brokers.connect] using hconn
  · simpa [Brokers.connect, hj, hothers j hj] using hrepresents j

theorem put_other {w : Shared ι σ (Command × Bool) (Option Reply)} {i : ι}
    {p : Party (Command × Bool) (Option Reply)} (j : ι) (hj : j ≠ i) :
    (put w i p).parties j = w.parties j := by
  simp [put, hj]

theorem put_self {w : Shared ι σ (Command × Bool) (Option Reply)} {i : ι}
    {p : Party (Command × Bool) (Option Reply)} : (put w i p).parties i = p := by
  simp [put]

variable {k : ι → Kernel} (hk : ∀ i, Kernel.Reliable (k i)) {s : σ} {sys sys' : System ι σ}

theorem Simulates.transit (h : Simulates k b s sys) (htransit : Transit b sys sys') :
    Simulates k b s sys' := by
  obtain ⟨w, order, hw, hobject, hrepresents⟩ := h
  cases htransit with
  | arrive i n =>
      exact .connect hw hrepresents .refl hobject (fun _ _ => rfl) ((hrepresents i).arrived n)
  | deliver i n =>
      exact .connect hw hrepresents .refl hobject (fun _ _ => rfl) ((hrepresents i).delivered n)
  | serve i call rest hparse =>
      obtain ⟨hready, ⟨calls, hcalls, hcarried⟩, hphase⟩ := hrepresents i
      obtain ⟨calls', rfl, -⟩ := callCodec.decode_front hcalls hparse
      obtain ⟨refused, ⟨c, noack⟩, queue, hqueue, hrefused, haccepts, hcall, hrest⟩ :=
        exists_next hcarried.symm
      have hskip := skip_steps (b := b) i refused ((c, noack) :: queue) hrefused w hqueue
      obtain ⟨order', hw'⟩ := hw.steps hskip
      have hskipped : Represents (k i) (sys.connections i)
          (left (w.parties i) ((c, noack) :: queue)) := by
        refine ⟨hready, ⟨call :: calls', hcalls, ?_⟩, hphase⟩
        rw [left, List.flatMap_cons, carried, if_pos haccepts, hrest, List.map_cons, hcall]
        rfl
      have hfollows := hw'.2 i
      rw [put_self] at hfollows
      have hserve := SharedObjects.Step.serve (o := b.object)
        (w := put w i (left (w.parties i) ((c, noack) :: queue))) i (c, noack) queue
        (by rw [put_self, left])
      have hnext : (b.object.serve w.object (c, noack)).1 = b.next sys.broker call := by
        rw [hobject]
        exact serve_eq sys.broker haccepts hcall
      refine .connect hw hrepresents (hskip.tail hserve) hnext (fun j hj => ?_) ?_
      · rw [put_other j hj]
        exact put_other j hj
      · rw [put_self, put_self]
        have := hskipped.served hfollows hparse rfl haccepts hcall w.object
        rw [hobject] at this
        rw [← hobject] at this ⊢
        exact this

include hk

theorem Simulates.step (h : Simulates k b s sys) (hstep : Brokers.Step k b sys sys') :
    Simulates k b s sys' := by
  cases hstep with
  | transit htransit => exact h.transit htransit
  | move i hmove =>
      obtain ⟨w, order, hw, hobject, hrepresents⟩ := h
      obtain ⟨p, hp, hconn⟩ := (hrepresents i).moved (hk i) (b := b) hmove
      rcases hp with rfl | hp
      · exact .connect hw hrepresents .refl hobject (fun _ _ => rfl) hconn
      · refine .connect hw hrepresents (.single (.party i hp)) hobject put_other ?_
        rw [put_self]
        exact hconn

theorem simulates_of_reachable (h : Reachable k b s sys) : Simulates k b s sys := by
  obtain ⟨heap, hsteps⟩ := h
  refine Runs.of_steps (P := Simulates k b s) (fun h hstep => h.step hk hstep) hsteps ?_
  refine ⟨Shared.new s, [], sequential_new s, rfl, fun i => ⟨ready_connected _ _, ?_, ?_⟩⟩
  · exact ⟨[], rfl, rfl⟩
  · exact .idle [] rfl rfl rfl

end Systems

/-- Whatever the clients do and however the bytes get on, the server is as after one
sequential run of calls. Every application has seen the results of its own calls in that
run, in their order, and besides those of calls that return before they are served. These
are still under way, each of them once and in their order, and with them at most the call
that the application waits for. -/
theorem sequentially_consistent {ι σ : Type} [DecidableEq ι] (k : ι → Kernel)
    (hk : ∀ i, Kernel.Reliable (k i))
    (b : Broker σ) (s : σ) (sys : System ι σ) (h : Reachable k b s sys) :
    ∃ order, sys.broker = b.object.after s order ∧
      ∀ i, ∃ posted asked, Posted b.object posted ∧
        Explains (sys.connections i) (b.object.seen i s order ++ posted) ∧
        Carries (sys.connections i) (posted.map Prod.fst ++ asked) ∧
        (asked = [] ∨ ∃ c, (sys.connections i).pending = some c ∧
          asked = [(c, (sys.connections i).world.client.noack)]) := by
  obtain ⟨w, order, hw, hobject, hrepresents⟩ := simulates_of_reachable hk h
  exact ⟨order, hobject.symm.trans hw.1, fun i => (hrepresents i).explains (hw.2 i)⟩

theorem sequentially_consistent_answering :
    (after answering).broker = 3 ∧
      ((after answering).connections true).world.trace =
        [.issued (.queueCreate queueQ 1 1 0) (.status .ok)] ∧
      ((after answering).connections true).pending = some .ping ∧
      ((after answering).connections false).pending = some (.save 0) ∧
      ∃ order, (after answering).broker = tally.object.after 0 order ∧
        ∀ i, ∃ posted asked, Posted tally.object posted ∧
          Explains ((after answering).connections i) (tally.object.seen i 0 order ++ posted) ∧
          Carries ((after answering).connections i) (posted.map Prod.fst ++ asked) ∧
          (asked = [] ∨ ∃ c, ((after answering).connections i).pending = some c ∧
            asked = [(c, ((after answering).connections i).world.client.noack)]) :=
  ⟨by decide +kernel, by decide +kernel, by decide +kernel, by decide +kernel,
    sequentially_consistent (fun _ => generous) (fun _ => generous_reliable) tally 0 _
      reachable_answering⟩

end Libemq.Consistency
