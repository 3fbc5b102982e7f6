import Libemq.Halves
import Libemq.SharedObjects

/-!
Any number of clients and one server, with the bytes between them under way in both
directions. The server takes requests from its connections in whatever order, and answers
unless a request asks it not to.
-/

namespace Libemq.Brokers

open Libemq.ExitCode
open Libemq.Client
open Libemq.Network
open Libemq.Protocol
open Libemq.Packet
open Libemq.Commands
open Libemq.Transactions
open Libemq.Responses
open Libemq.Calls
open Libemq.Completion
open Libemq.Runs
open Libemq.ServerErrors
open Libemq.Waiting
open Libemq.Framing
open Libemq.Codecs
open Libemq.CallStream
open Libemq.Halves
open Libemq.SharedObjects

/-- A server of any kind: what becomes of it with a request and its message, and what it
says. -/
structure Broker (σ : Type) where
  serve : σ → Request → List UInt8 → σ
  status : σ → Request → List UInt8 → ProtocolResponseStatus
  body : σ → Request → List UInt8 → List UInt8
  success : ∀ s c, status s (request c) (payload c) = .success →
    BodySize (finish c) (body s (request c) (payload c)).length
  refusal : ∀ s r p, status s r p ≠ .success → body s r p = []

namespace Broker

variable {σ : Type} (b : Broker σ)

def answer (s : σ) (c : Command) : Answer c where
  status := b.status s (request c) (payload c)
  body := b.body s (request c) (payload c)
  success := b.success s c
  refusal := b.refusal s _ _

def next (s : σ) (call : Call) : σ := b.serve s call.request call.payload

/-- What the server sends back. An answer without a body is not sent to a request with its
noack byte set. -/
def respond (s : σ) (call : Call) : List UInt8 :=
  let body := b.body s call.request call.payload
  if call.noack = true ∧ body = [] then []
  else
    ProtocolResponseHeader.bytes
      { magic := emqProtocolRes
        cmd := call.request.command.code
        status := (b.status s call.request call.payload).code
        bodylen := UInt32.ofNat body.length } ++ body

/-- The server as an object whose calls are made at once, with the result `none` for a call
that does not return. -/
def object : SharedObject σ (Command × Bool) (Option Reply) where
  serve s call :=
    if Accepts call.1 then
      (b.serve s (request call.1) (payload call.1),
        if Finish.awaits (finish call.1) call.2 then
          if Blocks (b.answer s call.1) call.2 then none else some (replyOf (b.answer s call.1))
        else some (.status .ok))
    else (s, some (finish call.1).failure)
  known call :=
    if Accepts call.1 then
      if Finish.awaits (finish call.1) call.2 then none else some (some (.status .ok))
    else some (some (finish call.1).failure)
  serve_known := by
    intro call r h s
    split at h
    · rename_i haccepts
      rw [if_pos haccepts]
      split at h
      · cases h
      · rename_i hawaits
        cases h
        exact if_neg hawaits
    · rename_i haccepts
      cases h
      rw [if_neg haccepts]

end Broker

/-- A client with its connection: the call that it is in, the bytes under way to the server,
those that the server has and did not serve yet, and the bytes under way to the client. -/
structure Connection where
  world : World
  pending : Option Command
  requests : List UInt8
  inbox : List UInt8
  responses : List UInt8

structure System (ι σ : Type) where
  broker : σ
  connections : ι → Connection

def Connection.new (heap : List UInt8) : Connection where
  world := World.connected heap []
  pending := none
  requests := []
  inbox := []
  responses := []

def System.new {ι σ : Type} (s : σ) (heap : ι → List UInt8) : System ι σ :=
  ⟨s, fun i => .new (heap i)⟩

/-- There is nothing under way, and nothing that the server has yet to serve. -/
structure Settled (conn : Connection) : Prop where
  requests : conn.requests = []
  inbox : conn.inbox = []
  responses : conn.responses = []

def returned (c : Command) (reply : Reply) (w : World) : World :=
  { w with trace := w.trace ++ [.issued c reply] }

def written (w w' : World) : List UInt8 := w'.output.drop w.output.length

/-- A message is short enough for the header, and its frame for the result of `writev`. -/
def Short (c : Command) (noack : Bool) : Prop := Compact c ∧ ¬ LengthMisread c noack

/-- What a client does. It comes back from a call when no read of it meets the end of what
has come in. -/
inductive Move (k : Kernel) : Connection → Connection → Prop
  | refuse {conn : Connection} (c : Command) (w : World) (hidle : conn.pending = none)
      (hshort : Short c conn.world.client.noack) (h : start k c conn.world = .error w) :
      Move k conn
        { conn with
          world := returned c (finish c).failure (setStatus .err w)
          requests := conn.requests ++ written conn.world w }
  | start {conn : Connection} (c : Command) (w : World) (hidle : conn.pending = none)
      (hshort : Short c conn.world.client.noack) (h : start k c conn.world = .next () w) :
      Move k conn
        { conn with
          world := w
          pending := some c
          requests := conn.requests ++ written conn.world w }
  | finish {conn : Connection} (c : Command) (reply : Reply) (w : World)
      (hpending : conn.pending = some c) (h : conclude k c conn.world = .returned reply w)
      (henough : w.failures = conn.world.failures) :
      Move k conn { conn with world := returned c reply w, pending := none }
  | noack {conn : Connection} (enable : Bool) (hidle : conn.pending = none) :
      Move k conn
        { conn with
          world := if enable then emqNoackEnable conn.world else emqNoackDisable conn.world }

variable {ι σ : Type} [DecidableEq ι]

def connect (sys : System ι σ) (i : ι) (conn : Connection) : System ι σ :=
  { sys with connections := Function.update sys.connections i conn }

/-- What happens without the clients: bytes get on, and the server serves a request that is
there as a whole. -/
inductive Transit (b : Broker σ) : System ι σ → System ι σ → Prop
  | arrive {sys : System ι σ} (i : ι) (n : Nat) (hpos : 0 < n)
      (hle : n ≤ (sys.connections i).requests.length) :
      Transit b sys (connect sys i
        { sys.connections i with
          requests := (sys.connections i).requests.drop n
          inbox := (sys.connections i).inbox ++ (sys.connections i).requests.take n })
  | serve {sys : System ι σ} (i : ι) (call : Call) (rest : List UInt8)
      (h : Call.parse (sys.connections i).inbox = some (call, rest)) :
      Transit b sys (connect { sys with broker := b.next sys.broker call } i
        { sys.connections i with
          inbox := rest
          responses := (sys.connections i).responses ++ b.respond sys.broker call })
  | deliver {sys : System ι σ} (i : ι) (n : Nat) (hpos : 0 < n)
      (hle : n ≤ (sys.connections i).responses.length) :
      Transit b sys (connect sys i
        { sys.connections i with
          responses := (sys.connections i).responses.drop n
          world :=
            { (sys.connections i).world with
              input := (sys.connections i).world.input ++
                (sys.connections i).responses.take n } })

inductive Step (k : ι → Kernel) (b : Broker σ) : System ι σ → System ι σ → Prop
  | move {sys : System ι σ} (i : ι) {conn : Connection}
      (h : Move (k i) (sys.connections i) conn) : Step k b sys (connect sys i conn)
  | transit {sys sys' : System ι σ} (h : Transit b sys sys') : Step k b sys sys'

/-- A state in which clients that were just connected and their server can get. -/
def Reachable (k : ι → Kernel) (b : Broker σ) (s : σ) (sys : System ι σ) : Prop :=
  ∃ heap, Relation.ReflTransGen (Step k b) (System.new s heap) sys

instance (c : Command) (noack : Bool) : Decidable (Short c noack) := by
  unfold Short LengthMisread
  infer_instance

inductive Act (ι : Type) where
  | noack (i : ι) (enable : Bool)
  | call (i : ι) (c : Command)
  | finish (i : ι)
  | arrive (i : ι) (n : Nat)
  | serve (i : ι)
  | deliver (i : ι) (n : Nat)

/-- The step, if it can be made. A call that the client refuses is not one of them. -/
def Act.run (k : ι → Kernel) (b : Broker σ) (sys : System ι σ) : Act ι → Option (System ι σ)
  | .noack i enable =>
      let conn := sys.connections i
      if conn.pending = none then
        some (connect sys i
          { conn with
            world := if enable then emqNoackEnable conn.world else emqNoackDisable conn.world })
      else none
  | .call i c =>
      let conn := sys.connections i
      if conn.pending = none ∧ Short c conn.world.client.noack then
        match start (k i) c conn.world with
        | .next () w =>
            some (connect sys i
              { conn with
                world := w
                pending := some c
                requests := conn.requests ++ written conn.world w })
        | _ => none
      else none
  | .finish i =>
      let conn := sys.connections i
      conn.pending.bind fun c =>
        match conclude (k i) c conn.world with
        | .returned reply w =>
            if w.failures = conn.world.failures then
              some (connect sys i { conn with world := returned c reply w, pending := none })
            else none
        | .fault _ _ => none
  | .arrive i n =>
      let conn := sys.connections i
      if 0 < n ∧ n ≤ conn.requests.length then
        some (connect sys i
          { conn with
            requests := conn.requests.drop n
            inbox := conn.inbox ++ conn.requests.take n })
      else none
  | .serve i =>
      let conn := sys.connections i
      (Call.parse conn.inbox).map fun (request, rest) =>
        connect { sys with broker := b.next sys.broker request } i
          { conn with
            inbox := rest
            responses := conn.responses ++ b.respond sys.broker request }
  | .deliver i n =>
      let conn := sys.connections i
      if 0 < n ∧ n ≤ conn.responses.length then
        some (connect sys i
          { conn with
            responses := conn.responses.drop n
            world := { conn.world with input := conn.world.input ++ conn.responses.take n } })
      else none

theorem Act.run_step {k : ι → Kernel} {b : Broker σ} {sys sys' : System ι σ} {act : Act ι}
    (h : act.run k b sys = some sys') : Step k b sys sys' := by
  cases act with
  | noack i enable =>
      obtain ⟨hidle, heq⟩ := Option.ite_none_right_eq_some.mp h
      cases heq
      exact .move i (.noack enable hidle)
  | call i c =>
      obtain ⟨⟨hidle, hshort⟩, heq⟩ := Option.ite_none_right_eq_some.mp h
      cases hstart : start (k i) c (sys.connections i).world with
      | next value w =>
          rw [hstart] at heq
          cases heq
          exact .move i (.start c w hidle hshort hstart)
      | error w => rw [hstart] at heq; cases heq
      | fault reason w => rw [hstart] at heq; cases heq
  | finish i =>
      obtain ⟨c, hpending, heq⟩ := Option.bind_eq_some_iff.mp h
      cases hreturn : conclude (k i) c (sys.connections i).world with
      | returned reply w =>
          rw [hreturn] at heq
          obtain ⟨hfailures, heq⟩ := Option.ite_none_right_eq_some.mp heq
          cases heq
          exact .move i (.finish c reply w hpending hreturn hfailures)
      | fault reason w => rw [hreturn] at heq; cases heq
  | arrive i n =>
      obtain ⟨⟨hpos, hle⟩, heq⟩ := Option.ite_none_right_eq_some.mp h
      cases heq
      exact .transit (.arrive i n hpos hle)
  | serve i =>
      obtain ⟨⟨call, rest⟩, hparse, heq⟩ := Option.map_eq_some_iff.mp h
      cases heq
      exact .transit (.serve i call rest hparse)
  | deliver i n =>
      obtain ⟨⟨hpos, hle⟩, heq⟩ := Option.ite_none_right_eq_some.mp h
      cases heq
      exact .transit (.deliver i n hpos hle)

def runActs (k : ι → Kernel) (b : Broker σ) (sys : System ι σ) (acts : List (Act ι)) :
    Option (System ι σ) :=
  acts.foldlM (fun sys act => act.run k b sys) sys

theorem steps_of_runActs {k : ι → Kernel} {b : Broker σ} {acts : List (Act ι)} :
    ∀ {sys sys' : System ι σ}, runActs k b sys acts = some sys' →
      Relation.ReflTransGen (Step k b) sys sys' := by
  induction acts with
  | nil =>
      intro sys sys' h
      obtain rfl := Option.some.inj h
      exact .refl
  | cons act acts ih =>
      intro sys sys' h
      obtain ⟨s, hact, hrest⟩ := Option.bind_eq_some_iff.mp h
      exact .head (Act.run_step hact) (ih hrest)

/-- A server that counts what it serves. It grants `ping` and refuses anything else. -/
def tally : Broker Nat where
  serve n _ _ := n + 1
  status _ r _ := if r = .ping then .success else .errorAccess
  body _ _ _ := []
  success s c h := by cases c <;> first | rfl | cases h
  refusal _ _ _ _ := rfl

def after (acts : List (Act Bool)) : System Bool Nat :=
  (runActs (fun _ => generous) tally (System.new 0 fun _ => []) acts).getD
    (System.new 0 fun _ => [])

theorem reachable_after {acts : List (Act Bool)}
    (h : (runActs (fun _ => generous) tally (System.new 0 fun _ => []) acts).isSome = true) :
    Reachable (fun _ => generous) tally 0 (after acts) := by
  obtain ⟨sys, hrun⟩ := Option.isSome_iff_exists.mp h
  refine ⟨fun _ => [], ?_⟩
  rw [after, hrun, Option.getD_some]
  exact steps_of_runActs hrun

/-- The first client creates a queue under noack and then sends `ping`, and the second one asks
to save. Of the two requests of the first client, a piece has come in. -/
def sending : List (Act Bool) :=
  [.noack true true, .call true (.queueCreate queueQ 1 1 0), .finish true, .noack true false,
    .call true .ping, .call false (.save 0), .arrive true 50]

/-- The request of the second client is served between these two, and a piece of its answer
gets on. -/
def answering : List (Act Bool) :=
  sending ++ [.arrive true 42, .serve true, .arrive false 9, .serve false, .serve true,
    .deliver false 3]

/-- All answers have come in. -/
def answered : List (Act Bool) := answering ++ [.deliver false 5, .deliver true 8]

theorem reachable_sending : Reachable (fun _ => generous) tally 0 (after sending) :=
  reachable_after (by decide +kernel)

theorem reachable_answering : Reachable (fun _ => generous) tally 0 (after answering) :=
  reachable_after (by decide +kernel)

theorem reachable_answered : Reachable (fun _ => generous) tally 0 (after answered) :=
  reachable_after (by decide +kernel)

end Libemq.Brokers
