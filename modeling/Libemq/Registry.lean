import Libemq.Runs
import Mathlib.Data.Set.Basic

namespace Libemq.Registry

open Libemq.CStrings
open Libemq.ExitCode
open Libemq.Client
open Libemq.Network
open Libemq.Commands
open Libemq.Transactions
open Libemq.Responses
open Libemq.Calls
open Libemq.Runs

inductive Kind where
  | topic
  | pattern
  deriving DecidableEq, Repr

/-- A subscription as the application means it. -/
structure Key where
  kind : Kind
  name : CString
  data : CString
  deriving DecidableEq, Repr

/-- The four calls, and the switch for acknowledgements. -/
inductive Operation where
  | subscribe (key : Key) (callback : CallbackPtr)
  | unsubscribe (key : Key)
  | noack (enabled : Bool)
  deriving DecidableEq, Repr

/-- What a successful call does to the keys. -/
def Operation.specify : Operation → Set Key → Set Key
  | .subscribe key _, keys => insert key keys
  | .unsubscribe key, keys => keys \ {key}
  | .noack _, keys => keys

def subscribeCommand (key : Key) (callback : CallbackPtr) : Command :=
  match key.kind with
  | .topic => .channelSubscribe key.name key.data callback
  | .pattern => .channelPsubscribe key.name key.data callback

def unsubscribeCommand (key : Key) : Command :=
  match key.kind with
  | .topic => .channelUnsubscribe key.name key.data
  | .pattern => .channelPunsubscribe key.name key.data

/-- The world after a call and whether the call returned `EMQ_STATUS_OK`. -/
def call (k : Kernel) (c : Command) (w : World) : World × Bool :=
  match exec k c w with
  | .returned reply w' => (w', reply = .status .ok)
  | .fault _ w' => (w', false)

def Operation.run (k : Kernel) : Operation → World → World × Bool
  | .subscribe key callback, w => call k (subscribeCommand key callback) w
  | .unsubscribe key, w => call k (unsubscribeCommand key) w
  | .noack enabled, w => (if enabled then emqNoackEnable w else emqNoackDisable w, false)

/-- The keys after an operation: a call that fails changes nothing. -/
def Operation.next (k : Kernel) (op : Operation) (w : World) (keys : Set Key) : Set Key :=
  if (op.run k w).2 then op.specify keys else keys

/-- The list holds the topics and patterns of exactly these keys. -/
def Holds (list : List EmqChannelSubscription) (keys : Set Key) : Prop :=
  ∀ name data, (∃ s ∈ list, s.name.str = name ∧ s.channel.str = data) ↔
    ∃ kind, (⟨kind, name, data⟩ : Key) ∈ keys

/-- Along the whole run the list holds exactly the keys of the registry, and a call
that fails leaves the list as it was. -/
def Refines (k : Kernel) : List Operation → World → Set Key → Prop
  | [], w, keys => Holds w.client.channelSubscriptions keys
  | op :: ops, w, keys =>
      Holds w.client.channelSubscriptions keys ∧
        ((op.run k w).2 = false →
          (op.run k w).1.client.channelSubscriptions = w.client.channelSubscriptions) ∧
        Refines k ops (op.run k w).1 (op.next k w keys)

/-- Whenever a call ends a subscription of a channel, it is the only one of that
channel. -/
def Separate (k : Kernel) : List Operation → World → Set Key → Prop
  | [], _, _ => True
  | op :: ops, w, keys =>
      (∀ key, op = .unsubscribe key → (op.run k w).2 = true →
        ∀ other ∈ keys, other.name = key.name → other = key) ∧
        Separate k ops (op.run k w).1 (op.next k w keys)

theorem mem_unsubscribed {name : CString} {list : List EmqChannelSubscription}
    {s : EmqChannelSubscription} :
    s ∈ Commit.channelList (.unsubscribeChannel name) list ↔ s ∈ list ∧ s.name.str ≠ name := by
  rw [Commit.channelList, deleteMatching_eq_filter, List.mem_filter, Bool.not_eq_eq_eq_not,
    Bool.not_true, ← Bool.not_eq_true, FieldString.strcmpEq_array _ name.nul_mem_array,
    CString.contents_array, eq_comm]

theorem mem_subscribed {name data : CString} {callback : CallbackPtr}
    (hfits : Commit.Fits (.subscribeChannel name data callback))
    {list : List EmqChannelSubscription} {s : EmqChannelSubscription} :
    s ∈ Commit.channelList (.subscribeChannel name data callback) list ↔
      (s.name.str = name ∧ s.channel.str = data ∧ s.callback = callback) ∨ s ∈ list := by
  have hfits' : strlen name < 64 ∧ strlen data < 32 := hfits
  rw [Commit.channelList, dif_pos hfits', List.mem_cons]
  refine or_congr_left ⟨?_, ?_⟩
  · rintro rfl
    exact ⟨rfl, rfl, rfl⟩
  · obtain ⟨⟨str, hstr⟩, ⟨channel, hchannel⟩, callback'⟩ := s
    rintro ⟨rfl, rfl, rfl⟩
    rfl

theorem call_outcome {k : Kernel} (hmalloc : Kernel.MallocsOk k) {c : Command}
    (hc : Finish.awaits (finish c) true = false) {w : World} (hready : Ready w.client) :
    Ready (call k c w).1.client ∧
      ((call k c w).2 = false →
        (call k c w).1.client.channelSubscriptions = w.client.channelSubscriptions) ∧
      ((call k c w).2 = true → Accepts c ∧
        (call k c w).1.client.channelSubscriptions =
          Commit.channelList (commit c) w.client.channelSubscriptions) := by
  obtain ⟨reply, w', h⟩ := exec_returns (k := k) hc hready
  obtain ⟨hready', _, _, hcases⟩ := exec_returned hready h
  obtain ⟨check, done, hfinish⟩ := acknowledges hc
  rw [call, h]
  refine ⟨hready', fun hnot => ?_, fun hok => ?_⟩
  · rcases hcases with ⟨_, _, _, hlist⟩ | ⟨_, _, hreply, _⟩
    · exact hlist
    · rw [hfinish] at hreply
      have hok : reply = .status .ok := hreply
      exact absurd hok (of_decide_eq_false hnot)
  · rcases hcases with ⟨hreply, _⟩ | ⟨haccepts, _, _, done, _, hdone, _, hlist⟩
    · rw [hfinish] at hreply
      exact absurd (hreply.symm.trans (of_decide_eq_true hok)) (by simp [Finish.failure])
    · rw [hdone hmalloc] at hlist
      exact ⟨haccepts, hlist⟩

theorem holds_subscribed {key : Key} {callback : CallbackPtr}
    (hfits : Commit.Fits (commit (subscribeCommand key callback)))
    {list : List EmqChannelSubscription} {keys : Set Key} (h : Holds list keys) :
    Holds (Commit.channelList (commit (subscribeCommand key callback)) list)
      (insert key keys) := by
  intro name data
  obtain ⟨kind, name', data'⟩ := key
  have hcommit : commit (subscribeCommand ⟨kind, name', data'⟩ callback) =
      .subscribeChannel name' data' callback := by cases kind <;> rfl
  rw [hcommit] at hfits ⊢
  constructor
  · rintro ⟨s, hs, hname, hdata⟩
    rcases (mem_subscribed hfits).mp hs with ⟨hname', hdata', _⟩ | hs
    · exact ⟨kind, Set.mem_insert_iff.mpr (.inl (by rw [← hname, ← hdata, hname', hdata']))⟩
    · obtain ⟨kind', hmem⟩ := (h name data).mp ⟨s, hs, hname, hdata⟩
      exact ⟨kind', Set.mem_insert_of_mem _ hmem⟩
  · rintro ⟨kind', hmem⟩
    rcases Set.mem_insert_iff.mp hmem with hkey | hmem
    · cases hkey
      exact ⟨⟨⟨name, hfits.1⟩, ⟨data, hfits.2⟩, callback⟩,
        (mem_subscribed hfits).mpr (.inl ⟨rfl, rfl, rfl⟩), rfl, rfl⟩
    · obtain ⟨s, hs, hname, hdata⟩ := (h name data).mpr ⟨kind', hmem⟩
      exact ⟨s, (mem_subscribed hfits).mpr (.inr hs), hname, hdata⟩

/-- After an unsubscribing call the list holds what the registry does iff no other
subscription of the channel was there. -/
theorem holds_unsubscribed_iff {key : Key} {list : List EmqChannelSubscription}
    {keys : Set Key} (h : Holds list keys) :
    Holds (Commit.channelList (commit (unsubscribeCommand key)) list) (keys \ {key}) ↔
      ∀ other ∈ keys, other.name = key.name → other = key := by
  have hcommit : commit (unsubscribeCommand key) = .unsubscribeChannel key.name := by
    unfold unsubscribeCommand
    cases key.kind <;> rfl
  rw [hcommit]
  constructor
  · intro hafter other hother hname
    by_contra hne
    obtain ⟨s, hs, hs', _⟩ := (hafter other.name other.data).mpr ⟨other.kind, hother, hne⟩
    exact (mem_unsubscribed.mp hs).2 (hs'.trans hname)
  · intro halone name data
    constructor
    · rintro ⟨s, hs, rfl, rfl⟩
      obtain ⟨hs, hother⟩ := mem_unsubscribed.mp hs
      obtain ⟨kind, hmem⟩ := (h s.name.str s.channel.str).mp ⟨s, hs, rfl, rfl⟩
      exact ⟨kind, hmem, fun heq => hother (by rw [← heq])⟩
    · rintro ⟨kind, hmem, hne⟩
      obtain ⟨s, hs, hname, hdata⟩ := (h name data).mpr ⟨kind, hmem⟩
      refine ⟨s, mem_unsubscribed.mpr ⟨hs, fun heq => ?_⟩, hname, hdata⟩
      exact hne (halone _ hmem (hname.symm.trans heq))

section Runs

variable {k : Kernel} (hmalloc : Kernel.MallocsOk k) {w : World} (hready : Ready w.client)
  {keys : Set Key} (h : Holds w.client.channelSubscriptions keys)

include hmalloc hready

theorem run_ready (op : Operation) : Ready (op.run k w).1.client := by
  cases op with
  | subscribe key callback =>
      exact (call_outcome hmalloc (by unfold subscribeCommand; cases key.kind <;> rfl) hready).1
  | unsubscribe key =>
      exact (call_outcome hmalloc (by unfold unsubscribeCommand; cases key.kind <;> rfl)
        hready).1
  | noack enabled => cases enabled <;> exact hready

theorem run_failed (op : Operation) (hfail : (op.run k w).2 = false) :
    (op.run k w).1.client.channelSubscriptions = w.client.channelSubscriptions := by
  cases op with
  | subscribe key callback =>
      exact (call_outcome hmalloc (by unfold subscribeCommand; cases key.kind <;> rfl)
        hready).2.1 hfail
  | unsubscribe key =>
      exact (call_outcome hmalloc (by unfold unsubscribeCommand; cases key.kind <;> rfl)
        hready).2.1 hfail
  | noack enabled => cases enabled <;> rfl

include h

/-- One operation keeps the list and the registry together iff it ends no more than
it is asked to. -/
theorem next_holds_iff (op : Operation) :
    Holds (op.run k w).1.client.channelSubscriptions (op.next k w keys) ↔
      ∀ key, op = .unsubscribe key → (op.run k w).2 = true →
        ∀ other ∈ keys, other.name = key.name → other = key := by
  unfold Operation.next
  cases hok : (op.run k w).2 with
  | false =>
      rw [run_failed hmalloc hready op hok]
      simpa using h
  | true =>
      cases op with
      | noack enabled => cases hok
      | subscribe key callback =>
          have hawaits : Finish.awaits (finish (subscribeCommand key callback)) true = false := by
            unfold subscribeCommand
            cases key.kind <;> rfl
          obtain ⟨haccepts, hlist⟩ := (call_outcome hmalloc hawaits hready).2.2 hok
          simp only [Operation.run, if_true, Operation.specify, hlist]
          exact iff_of_true (holds_subscribed (commit_fits haccepts.2) h) (by simp)
      | unsubscribe key =>
          have hawaits : Finish.awaits (finish (unsubscribeCommand key)) true = false := by
            unfold unsubscribeCommand
            cases key.kind <;> rfl
          obtain ⟨_, hlist⟩ := (call_outcome hmalloc hawaits hready).2.2 hok
          simp only [Operation.run, if_true, Operation.specify, hlist]
          rw [holds_unsubscribed_iff h]
          simp

theorem refines_iff (ops : List Operation) : Refines k ops w keys ↔ Separate k ops w keys := by
  induction ops generalizing w keys with
  | nil => exact iff_of_true h trivial
  | cons op ops ih =>
      have hready' := run_ready hmalloc hready op
      have hnext := next_holds_iff hmalloc hready h op
      constructor
      · rintro ⟨_, _, hrest⟩
        have hafter : Holds (op.run k w).1.client.channelSubscriptions (op.next k w keys) := by
          cases ops with
          | nil => exact hrest
          | cons op' ops => exact hrest.1
        exact ⟨hnext.mp hafter, (ih hready' hafter).mp hrest⟩
      · rintro ⟨halone, hrest⟩
        exact ⟨h, run_failed hmalloc hready op, (ih hready' (hnext.mpr halone)).mpr hrest⟩

end Runs

/-- From a new connection on, the list refines the registry iff every call that ends a
subscription ends the only one of its channel. -/
theorem registry_refines_iff (k : Kernel) (hmalloc : Kernel.MallocsOk k)
    (heap input : List UInt8) (ops : List Operation) :
    Refines k ops (World.connected heap input) ∅ ↔
      Separate k ops (World.connected heap input) ∅ :=
  refines_iff hmalloc (ready_connected heap input)
    (fun name data => by simp [World.connected, emqClientInit]) ops

/-- The operation subscribes to one of these keys, or it ends one whose channel has no other. -/
def Operation.Within (all : Set Key) : Operation → Prop
  | .subscribe key _ => key ∈ all
  | .unsubscribe key => ∀ other ∈ all, other.name = key.name → other = key
  | .noack _ => True

theorem separate_within {k : Kernel} {all : Set Key} {ops : List Operation}
    (hops : ∀ op ∈ ops, op.Within all) {w : World} {keys : Set Key} (hkeys : keys ⊆ all) :
    Separate k ops w keys := by
  induction ops generalizing w keys with
  | nil => trivial
  | cons op ops ih =>
      obtain ⟨hwithin, hops⟩ := List.forall_mem_cons.mp hops
      refine ⟨?_, ih hops ?_⟩
      · rintro key rfl _ other hother hname
        exact hwithin other (hkeys hother) hname
      · unfold Operation.next
        split
        · cases op with
          | subscribe key callback => exact Set.insert_subset hwithin hkeys
          | unsubscribe key => exact Set.sdiff_subset.trans hkeys
          | noack enabled => exact hkeys
        · exact hkeys

def topicA : Key := ⟨.topic, channelC, ⟨[97], by decide⟩⟩

def topicB : Key := ⟨.topic, channelC, ⟨[98], by decide⟩⟩

def topicD : Key := ⟨.topic, ⟨[100], by decide⟩, topicA.data⟩

/-- Ending the subscription of one topic loses the other. -/
theorem unsubscribe_loses :
    ¬ ∀ (k : Kernel) (heap input : List UInt8) (ops : List Operation), Kernel.MallocsOk k →
      Refines k ops (World.connected heap input) ∅ := by
  intro h
  obtain ⟨_, _, _, halone, _⟩ := (refines_iff generous_reliable.mallocs (ready_connected [] [])
    (fun name data => by simp [World.connected, emqClientInit]) _).mp
    (h generous [] [] [.noack true, .subscribe topicA 1, .subscribe topicB 1,
      .unsubscribe topicA] generous_reliable.mallocs)
  refine absurd (halone topicA rfl (by decide +kernel) topicB ?_ rfl) (by decide)
  rw [Operation.next, if_pos (by decide +kernel)]
  exact Set.mem_insert _ _

def giveUpD : List Operation :=
  [.noack true, .subscribe topicA 1, .subscribe topicB 2, .subscribe topicD 3,
    .unsubscribe topicD]

theorem registry_refines_iff_topicD :
    (giveUpD.foldl (fun w op => (op.run generous w).1)
        (World.connected [] [])).client.channelSubscriptions.map
          EmqChannelSubscription.callback = [2, 1] ∧
      Kernel.MallocsOk generous ∧ Refines generous giveUpD (World.connected [] []) ∅ := by
  have hwithin : ∀ op ∈ giveUpD, Operation.Within {topicA, topicB, topicD} op := by
    simp only [giveUpD, List.forall_mem_cons, Operation.Within]
    refine ⟨trivial, by simp, by simp, by simp, ?_, by simp⟩
    rintro other (rfl | rfl | rfl) hname
    · exact absurd hname (by decide)
    · exact absurd hname (by decide)
    · rfl
  exact ⟨by decide +kernel, generous_reliable.mallocs,
    (registry_refines_iff generous generous_reliable.mallocs [] [] giveUpD).mpr
      (separate_within hwithin (Set.empty_subset _))⟩

end Libemq.Registry
