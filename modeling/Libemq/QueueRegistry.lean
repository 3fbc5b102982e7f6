import Libemq.Lists
import Libemq.Runs

namespace Libemq.QueueRegistry

open Libemq.CStrings
open Libemq.ExitCode
open Libemq.Client
open Libemq.Network
open Libemq.Protocol
open Libemq.Packet
open Libemq.Commands
open Libemq.LinkedLists
open Libemq.Lists
open Libemq.Transactions
open Libemq.Responses
open Libemq.Calls
open Libemq.Events
open Libemq.Runs

abbrev Entry := CString × CallbackPtr

def specify : TraceEvent → List Entry → List Entry
  | .issued (.queueSubscribe name _ callback) (.status .ok), entries => (name, callback) :: entries
  | .issued (.queueUnsubscribe name) (.status .ok), entries =>
      entries.filter fun entry => decide (entry.1 ≠ name)
  | _, entries => entries

/-- The reference list after this history. -/
def reference (trace : List TraceEvent) : List Entry :=
  trace.foldl (fun entries event => specify event entries) []

/-- The change of `client->queue_subscriptions` that goes with a call that returns. -/
def edit : TraceEvent → Option (Edit EmqQueueSubscription)
  | .issued (.queueSubscribe name _ callback) (.status .ok) =>
      if h : strlen name < 64 then some (.add ⟨⟨name, h⟩, callback⟩) else none
  | .issued (.queueUnsubscribe name) (.status .ok) =>
      some (.delete fun s => strcmpEq s.name.array name.array)
  | _ => none

def edits (trace : List TraceEvent) : List (Edit EmqQueueSubscription) := trace.filterMap edit

def entry (s : EmqQueueSubscription) : Entry := (s.name.str, s.callback)

/-- A subscribing or unsubscribing call of a queue that returned `EMQ_STATUS_OK`. -/
def Registers : TraceEvent → Prop
  | .issued (.queueSubscribe ..) (.status .ok) => True
  | .issued (.queueUnsubscribe _) (.status .ok) => True
  | _ => False

/-- What the registry is to its specification after some history. -/
structure Refines (k : Kernel) (w : World) : Prop where
  /-- Wherever the nodes of the list are, iterating it yields the reference list. -/
  iterates : ∀ result, Edited (edits w.trace) result → ∃ list h, result = some (list, h) ∧
    ∃ held, EmqList.iterate h (list.length + 1) list.rewind = some held ∧
      held = w.client.queueSubscriptions ∧ held.map entry = reference w.trace
  /-- Nothing but a successful call of the two changes it. -/
  unchanged : ∀ w', Step k w w' →
    (∀ c reply, issue k c w = .returned reply w' → ¬ Registers (.issued c reply)) →
    w'.client.queueSubscriptions = w.client.queueSubscriptions
  /-- A message goes to the newest entry of its queue. -/
  selects : ∀ header delivery w', header.cmd = ProtocolCommand.queueSubscribe.code →
    0 ∈ w.input.take 64 → emqQueueReceive k header w = .next (some delivery) w' →
    ∃ callback, (reference w.trace).find? (fun e => decide (e.1 = contents (w.input.take 64))) =
        some (contents (w.input.take 64), callback) ∧
      delivery.1 = callback ∧
      delivery.2.name = charArray 64 (contents (w.input.take 64))
  /-- No entry is found iff the reference list has none. -/
  reports : ∀ header, header.cmd = ProtocolCommand.queueSubscribe.code →
    64 ≤ w.input.length → 0 ∈ w.input.take 64 → Kernel.ReadsOk k →
    ((∃ reads, emqQueueReceive k header w = .next none (received w 64 reads w.failures)) ↔
      ∀ e ∈ reference w.trace, e.1 ≠ contents (w.input.take 64))

theorem doomed_iff (s : EmqQueueSubscription) (name : CString) :
    strcmpEq s.name.array name.array = true ↔ s.name.str = name := by
  rw [FieldString.strcmpEq_array _ name.nul_mem_array, CString.contents_array, eq_comm]

theorem reference_append (trace : List TraceEvent) (event : TraceEvent) :
    reference (trace ++ [event]) = specify event (reference trace) := by
  simp [reference]

theorem edits_append (trace : List TraceEvent) (event : TraceEvent) :
    edits (trace ++ [event]) = edits trace ++ (edit event).toList := by
  simp only [edits, List.filterMap_append, List.filterMap_cons, List.filterMap_nil]
  cases edit event <;> rfl

theorem edit_of_not_registers {event : TraceEvent} (h : ¬ Registers event) :
    edit event = none ∧ ∀ entries, specify event entries = entries := by
  unfold Registers at h
  unfold edit specify
  split at h
  · exact absurd trivial h
  · exact absurd trivial h
  · rename_i hsubscribe hunsubscribe
    refine ⟨rfl, fun entries => ?_⟩
    split
    · exact absurd rfl (hsubscribe _ _ _)
    · exact absurd rfl (hunsubscribe _)
    · rfl

theorem not_registers_failure (c : Command) : ¬ Registers (.issued c (finish c).failure) := by
  cases c <;> exact not_false

theorem not_registers_invoked (callback : CallbackPtr) (args : CallbackArgs) :
    ¬ Registers (.invoked callback args) := not_false

theorem queueList_commit {c : Command} {reply : Reply}
    (hreply : Finish.Successful (finish c) reply) (haccepts : Accepts c)
    (list : List EmqQueueSubscription) :
    Commit.queueList (commit c) list =
        (match edit (.issued c reply) with
          | some change => change.apply list
          | none => list) ∧
      (Commit.queueList (commit c) list).map entry =
        specify (.issued c reply) (list.map entry) := by
  have hfits := commit_fits haccepts.2
  cases c with
  | queueSubscribe name flags callback =>
      have hok : reply = .status .ok := hreply
      have hname : strlen name < 64 := hfits
      subst hok
      simp [commit, Commit.queueList, edit, hname, Edit.apply, specify, entry]
  | queueUnsubscribe name =>
      have hok : reply = .status .ok := hreply
      subst hok
      refine ⟨rfl, ?_⟩
      simp only [commit, Commit.queueList, deleteMatching_eq_filter, specify, List.filter_map]
      congr 1
      apply List.filter_congr
      intro s _
      rw [Bool.eq_iff_iff, Bool.not_eq_true', ← Bool.not_eq_true, doomed_iff]
      exact decide_eq_true_iff.symm
  | _ => exact ⟨rfl, rfl⟩

theorem edits_append_silent {event : TraceEvent} (h : ¬ Registers event)
    (trace : List TraceEvent) :
    edits (trace ++ [event]) = edits trace ∧ reference (trace ++ [event]) = reference trace := by
  obtain ⟨hedit, hspecify⟩ := edit_of_not_registers h
  rw [edits_append, reference_append, hedit, hspecify]
  exact ⟨List.append_nil _, rfl⟩

/-- The list is what its history says. -/
def Recounted (w : World) : Prop :=
  w.client.queueSubscriptions = edited (edits w.trace) ∧
    w.client.queueSubscriptions.map entry = reference w.trace

theorem issue_recounted {k : Kernel} (hmallocs : Kernel.MallocsOk k) {c : Command}
    {reply : Reply} {w w' : World} (hready : Ready w.client)
    (h : issue k c w = .returned reply w') (hw : Recounted w) : Recounted w' := by
  obtain ⟨hlist, hentries⟩ := hw
  obtain ⟨s, hexec, rfl⟩ := issue_returned h
  obtain ⟨_, _, htrace, hcases⟩ := exec_returned hready hexec
  simp only [Recounted, htrace]
  rcases hcases with ⟨rfl, _, hsame, _⟩ | ⟨haccepts, _, hreply, done, _, hdone, hsame, _⟩
  · obtain ⟨hedits, hreference⟩ := edits_append_silent (not_registers_failure c) w.trace
    rw [hedits, hreference, hsame]
    exact ⟨hlist, hentries⟩
  · obtain ⟨hedit, hspecify⟩ := queueList_commit hreply haccepts w.client.queueSubscriptions
    rw [hdone hmallocs] at hsame
    rw [hsame, edits_append, reference_append, ← hentries]
    refine ⟨?_, hspecify⟩
    rw [hedit, hlist]
    cases edit (.issued c reply) with
    | none => simp
    | some change => exact (edited_append _ change).symm

theorem kept_recounted {k : Kernel} (hmallocs : Kernel.MallocsOk k) : Kept k Recounted where
  congr := by
    intro w w' hqueues _ htrace hw
    rw [Recounted, hqueues, htrace]
    exact hw
  invoked := by
    rintro w delivery ⟨hlist, hentries⟩
    obtain ⟨hedits, hreference⟩ :=
      edits_append_silent (not_registers_invoked delivery.1 delivery.2) w.trace
    refine ⟨?_, ?_⟩
    · exact hlist.trans (congrArg edited hedits.symm)
    · exact hentries.trans hreference.symm
  issue hready h hw := issue_recounted hmallocs hready h hw

theorem recounted_of_reachable {k : Kernel} (hmallocs : Kernel.MallocsOk k) {w : World}
    (hreachable : Reachable k w) : Recounted w :=
  (kept_recounted hmallocs).of_reachable (fun _ _ => ⟨rfl, rfl⟩) hreachable

theorem find_entry (list : List EmqQueueSubscription) {array : List UInt8}
    (hnul : (0 : UInt8) ∈ array) :
    (list.find? fun s => strcmpEq s.name.array array).map entry =
      (list.map entry).find? fun e => decide (e.1 = contents array) := by
  rw [List.find?_map]
  congr 2
  funext s
  rw [Bool.eq_iff_iff, FieldString.strcmpEq_array _ hnul, eq_comm]
  exact decide_eq_true_iff.symm

theorem emqQueueReceive_unregistered {k : Kernel} (hreads : Kernel.ReadsOk k)
    (header : ProtocolEventHeader) {w : World} (hlong : 64 ≤ w.input.length)
    (hnone : (w.client.queueSubscriptions.find? fun s =>
      strcmpEq s.name.array (w.input.take 64)) = none) :
    ∃ reads, emqQueueReceive k header w = .next none (received w 64 reads w.failures) := by
  have houtcome := @readArray_outcome k 64 (by decide) w
  unfold emqQueueReceive
  generalize hread : readArray k 64 w = exit at houtcome
  cases houtcome with
  | failed dropped reads _ hend =>
      have := hend hreads
      omega
  | whole reads =>
      refine ⟨reads, ?_⟩
      rw [Code.bind_of_next hread]
      simp only [Code.bind_reads, received_client, hnone, Code.pure_apply]

theorem unchanged_of_not_registers {k : Kernel} (hmallocs : Kernel.MallocsOk k) {w w' : World}
    (hready : Ready w.client) (hstep : Step k w w')
    (hnot : ∀ c reply, issue k c w = .returned reply w' → ¬ Registers (.issued c reply)) :
    w'.client.queueSubscriptions = w.client.queueSubscriptions := by
  cases hstep with
  | issue c reply h =>
      obtain ⟨s, hexec, rfl⟩ := issue_returned h
      obtain ⟨_, _, _, hcases⟩ := exec_returned hready hexec
      rcases hcases with ⟨_, _, hsame, _⟩ | ⟨haccepts, _, hreply, done, _, hdone, hsame, _⟩
      · exact hsame
      · obtain ⟨hedit, _⟩ := edit_of_not_registers (hnot c reply h)
        have hcommit := (queueList_commit hreply haccepts w.client.queueSubscriptions).1
        rw [hedit, ← hdone hmallocs, ← hsame] at hcommit
        exact hcommit
  | processEvent delivery h => rw [invoked, (receiveEvent_client h).1]
  | processFailed h =>
      obtain ⟨⟨text, hclient⟩, _⟩ := receiveEvent_error h
      rw [setStatus_client, hclient]
  | _ => rfl

section Lookup

variable {w : World} (hentries : w.client.queueSubscriptions.map entry = reference w.trace)
  {header : ProtocolEventHeader} (hcmd : header.cmd = ProtocolCommand.queueSubscribe.code)

include hentries hcmd

/-- The subscriber of a queue is the newest entry of the reference list. -/
theorem subscriber_reference {array : List UInt8} (hnul : (0 : UInt8) ∈ array) :
    subscriber header w.client array =
      ((reference w.trace).find? fun e => decide (e.1 = contents array)).map fun e =>
        (e.2, charArray 64 e.1) := by
  rw [subscriber, if_pos hcmd, ← hentries, ← find_entry _ hnul, Option.map_map]
  rfl

theorem selects_newest {k : Kernel} {delivery : Delivery} {w' : World}
    (hnul : 0 ∈ w.input.take 64)
    (hreceive : emqQueueReceive k header w = .next (some delivery) w') :
    ∃ callback, (reference w.trace).find? (fun e => decide (e.1 = contents (w.input.take 64))) =
        some (contents (w.input.take 64), callback) ∧
      delivery.1 = callback ∧ delivery.2.name = charArray 64 (contents (w.input.take 64)) := by
  have houtcome := emqQueueReceive_outcome k header hcmd w
  rw [hreceive] at houtcome
  generalize hexit : Exit.next (some delivery) w' = exit at houtcome
  cases houtcome with
  | complete callback name reads mallocs hreads hsome =>
      cases hexit
      rw [subscriber_reference hentries hcmd hnul, Option.map_eq_some_iff] at hsome
      obtain ⟨⟨found, callback'⟩, hfind, heq⟩ := hsome
      cases heq
      have hname : found = contents (w.input.take 64) := by
        simpa using List.find?_some hfind
      subst hname
      exact ⟨_, hfind, rfl, by rw [eventArgs, if_pos hcmd]⟩
  | _ => cases hexit

theorem reports_missing {k : Kernel} (hlong : 64 ≤ w.input.length) (hnul : 0 ∈ w.input.take 64)
    (hreads : Kernel.ReadsOk k) :
    (∃ reads, emqQueueReceive k header w = .next none (received w 64 reads w.failures)) ↔
      ∀ e ∈ reference w.trace, e.1 ≠ contents (w.input.take 64) := by
  have hfind : subscriber header w.client (w.input.take 64) = none ↔
      ∀ e ∈ reference w.trace, e.1 ≠ contents (w.input.take 64) := by
    rw [subscriber_reference hentries hcmd hnul, Option.map_eq_none_iff, List.find?_eq_none]
    simp
  rw [← hfind]
  constructor
  · rintro ⟨reads, hreceive⟩
    have houtcome := emqQueueReceive_outcome k header hcmd w
    rw [hreceive] at houtcome
    generalize hexit : Exit.next none (received w 64 reads w.failures) = exit at houtcome
    cases houtcome with
    | unregistered _ _ _ hnone => exact hnone
    | truncated error dropped reads' mallocs failures _ hfailures =>
        have hstate := congrArg World.failures (Exit.next.inj hexit).2
        change w.failures = failures at hstate
        omega
    | _ => cases hexit
  · intro hnone
    rw [subscriber, if_pos hcmd, Option.map_eq_none_iff] at hnone
    exact emqQueueReceive_unregistered hreads header hlong hnone

end Lookup

/-- The registry refines its specification in every state that a run reaches. -/
theorem queue_registry_refines (k : Kernel) (hmallocs : Kernel.MallocsOk k) (w : World)
    (hreachable : Reachable k w) : Refines k w := by
  obtain ⟨hlist, hentries⟩ := recounted_of_reachable hmallocs hreachable
  constructor
  · intro result hedited
    obtain ⟨list, h, rfl, hholds⟩ := hedited.holds
    rw [← hlist] at hholds
    obtain ⟨hlength, hiterate, _⟩ := iterate_holds hholds
    exact ⟨list, h, rfl, _, by rw [hlength, hiterate], rfl, hentries⟩
  · intro w' hstep hnot
    exact unchanged_of_not_registers hmallocs hreachable.ready hstep hnot
  · intro header delivery w' hcmd hnul hreceive
    exact selects_newest hentries hcmd hnul hreceive
  · intro header hcmd hlong hnul hreads
    exact reports_missing hentries hcmd hlong hnul hreads

def subscribedTwice : World :=
  (issue generous (.queueSubscribe queueQ 0 2)
    (issue generous (.queueSubscribe queueQ 0 1)
      (emqNoackEnable (World.connected [] []))).state).state

theorem queue_registry_refines_twice :
    reference subscribedTwice.trace = [(queueQ, 2), (queueQ, 1)] ∧
      Refines generous subscribedTwice := by
  refine ⟨by decide +kernel, queue_registry_refines generous generous_reliable.mallocs _
    ⟨[], [], ?_⟩⟩
  refine .tail (.tail (.single (.noackEnable _))
    (.issue (.queueSubscribe queueQ 0 1) (.status .ok) (Outcome.eq_returned_state ?_)))
    (.issue (.queueSubscribe queueQ 0 2) (.status .ok) (Outcome.eq_returned_state ?_))
  · decide +kernel
  · decide +kernel

end Libemq.QueueRegistry
