import Libemq.Dispatch

namespace Libemq.StoredNames

open Libemq.CStrings
open Libemq.ExitCode
open Libemq.Client
open Libemq.Network
open Libemq.Commands
open Libemq.Transactions
open Libemq.Responses
open Libemq.Calls
open Libemq.Runs
open Libemq.Registry
open Libemq.Dispatch

/-- The array is what the copy of a string into a zero-filled `char[width]` leaves. The copy
ends within it, and so the string is there with its terminator. -/
structure Stores (width : Nat) (array : List UInt8) (s : CString) : Prop where
  copied : memcpy (List.replicate width 0) s.array = some array
  length : array.length = width
  terminated : s.array <+: array

/-- A comparison with the stored string reads inside both arrays only, and tells whether the
other one begins with the string and its terminator. -/
def Compares (array : List UInt8) (s : CString) (other : List UInt8) : Prop :=
  ∃ order, strcmp array other = some order ∧ (order = 0 ↔ s.array <+: other)

/-- The search for the subscription of an event, in `emq_queue_process` and in
`emq_channel_process`, with the reads of `strcmp`. -/
def search {α : Type} (array : α → List UInt8) (name : List UInt8) : List α → Option (Option α)
  | [] => some none
  | value :: list => do
      let order ← strcmp (array value) name
      if order = 0 then some (some value) else search array name list

structure QueueStored (trace : List TraceEvent) (s : EmqQueueSubscription) (name : CString) :
    Prop where
  asked : ∃ flags, .issued (.queueSubscribe name flags s.callback) (.status .ok) ∈ trace
  name : Stores 64 s.name.array name

structure ChannelStored (trace : List TraceEvent) (s : EmqChannelSubscription) (key : Key) :
    Prop where
  asked : Registered trace key s.callback
  name : Stores 64 s.name.array key.name
  data : Stores 32 s.channel.array key.data

def subscribes : Command → Bool
  | .queueSubscribe .. | .channelSubscribe .. | .channelPsubscribe .. => true
  | _ => false

/-- No subscribing call copies a string beyond an array, what is stored is what a caller
gave, and the lookups of events for any `char[64]` stay within the arrays. -/
structure NamesSafe (k : Kernel) (w : World) : Prop where
  copies : ∀ c, subscribes c = true → ∃ reply w', exec k c w = .returned reply w' ∧
    (w'.client.status = .ok → Commit.Fits (commit c))
  queues : ∀ s ∈ w.client.queueSubscriptions, ∃ name, QueueStored w.trace s name ∧
    ∀ other, other.length = 64 → Compares s.name.array name other
  channels : ∀ s ∈ w.client.channelSubscriptions, ∃ key, ChannelStored w.trace s key ∧
    ∀ other, other.length = 64 → Compares s.name.array key.name other
  queueSearch : ∀ name, name.length = 64 →
    search (fun s => s.name.array) name w.client.queueSubscriptions =
      some (w.client.queueSubscriptions.find? fun s => strcmpEq s.name.array name)
  channelSearch : ∀ name, name.length = 64 →
    search (fun s => s.name.array) name w.client.channelSubscriptions =
      some (w.client.channelSubscriptions.find? fun s => strcmpEq s.name.array name)

section Fields

variable {width : Nat}

theorem stores_array (field : FieldString width) : Stores width field.array field.str := by
  refine ⟨?_, field.array_length, ?_⟩
  · rw [memcpy_array, if_pos field.fits]
    rfl
  · rw [field.array_eq]
    exact List.prefix_append _ _

theorem compares_array (field : FieldString width) {other : List UInt8}
    (hother : other.length = width) : Compares field.array field.str other := by
  rw [FieldString.array, charArray_eq field.fits]
  exact strcmp_stored field.str.noNul _ (hother.symm ▸ field.fits)

theorem strcmpEq_of_compares {field : FieldString width} {other : List UInt8} {order : Int}
    (h : order = 0 ↔ field.str.array <+: other) :
    strcmpEq field.array other = true ↔ order = 0 := by
  rw [FieldString.array, charArray_eq field.fits, strcmpEq_iff_prefix field.str.noNul]
  exact h.symm

theorem search_eq {α : Type} (field : α → FieldString width) {name : List UInt8}
    (hname : name.length = width) (list : List α) :
    search (fun value => (field value).array) name list =
      some (list.find? fun value => strcmpEq (field value).array name) := by
  induction list with
  | nil => rfl
  | cons value list ih =>
      obtain ⟨order, hstrcmp, horder⟩ := compares_array (field value) hname
      have htest := strcmpEq_of_compares horder
      simp only [search, hstrcmp, Option.bind_eq_bind, Option.bind_some, List.find?_cons]
      by_cases hzero : order = 0
      · rw [if_pos hzero, htest.mpr hzero]
      · rw [if_neg hzero, ih, Bool.eq_false_iff.mpr fun heq => hzero (htest.mp heq)]

end Fields

theorem mem_queueList {c : Command} (hfits : Commit.Fits (commit c))
    {list : List EmqQueueSubscription} {s : EmqQueueSubscription}
    (h : s ∈ Commit.queueList (commit c) list) :
    s ∈ list ∨ ∃ flags, c = .queueSubscribe s.name.str flags s.callback := by
  cases c with
  | queueSubscribe name flags callback =>
      have hfits' : strlen name < 64 := hfits
      rw [commit, Commit.queueList, dif_pos hfits', List.mem_cons] at h
      rcases h with rfl | h
      · exact .inr ⟨flags, rfl⟩
      · exact .inl h
  | queueUnsubscribe name =>
      rw [commit, Commit.queueList, deleteMatching_eq_filter] at h
      exact .inl (List.mem_filter.mp h).1
  | _ => exact .inl h

theorem recorded_queues : Recorded fun queues _ trace => ∀ s ∈ queues,
    ∃ flags, .issued (.queueSubscribe s.name.str flags s.callback) (.status .ok) ∈ trace where
  init := by simp
  append h events := fun s hs => (h s hs).imp fun _ hasked => List.mem_append_left _ hasked
  commit := by
    intro c reply queues _ trace haccepts hreply h s hs
    rcases mem_queueList (commit_fits haccepts.2) hs with hs | ⟨flags, rfl⟩
    · exact (h s hs).imp fun _ hasked => List.mem_append_left _ hasked
    · refine ⟨flags, List.mem_append_right _ ?_⟩
      have hok : reply = .status .ok := hreply
      rw [hok]
      exact List.mem_singleton_self _

/-- The copies of a subscribing call come after the checks of its request. -/
theorem copies_fit {k : Kernel} {c : Command} (hc : subscribes c = true) {w : World}
    (hready : Ready w.client) :
    ∃ reply w', exec k c w = .returned reply w' ∧
      (w'.client.status = .ok → Commit.Fits (commit c)) := by
  have hawaits : Finish.awaits (finish c) true = false := by
    cases c with
    | queueSubscribe | channelSubscribe | channelPsubscribe => rfl
    | _ => cases hc
  obtain ⟨reply, w', hexec⟩ := exec_returns (k := k) hawaits hready
  refine ⟨reply, w', hexec, fun hok => ?_⟩
  obtain ⟨_, _, _, ⟨_, herr, _⟩ | ⟨haccepts, _⟩⟩ := exec_returned hready hexec
  · rw [hok] at herr
    cases herr
  · exact commit_fits haccepts.2

/-- In every run, the stored names are those that the callers gave, each with its terminator
in its array, and the lookup of an event is safe whatever name it carries. -/
theorem stored_names_safe {k : Kernel} {w : World} (h : Reachable k w) : NamesSafe k w where
  copies _ hc := copies_fit hc h.ready
  queues s hs := by
    refine ⟨s.name.str, ⟨?_, stores_array s.name⟩, fun other hother => ?_⟩
    · exact recorded_queues.of_reachable h s hs
    · exact compares_array s.name hother
  channels s hs := by
    obtain ⟨kind, hasked⟩ := traced_of_reachable h s hs
    refine ⟨_, ⟨hasked, stores_array s.name, stores_array s.channel⟩, fun other hother => ?_⟩
    exact compares_array s.name hother
  queueSearch _ hname := search_eq (fun s : EmqQueueSubscription => s.name) hname _
  channelSearch _ hname := search_eq (fun s : EmqChannelSubscription => s.name) hname _

theorem stored_names_safe_firstA :
    firstA.client.channelSubscriptions.map EmqChannelSubscription.callback = [1] ∧
      NamesSafe generous firstA :=
  ⟨by decide +kernel,
    stored_names_safe ⟨[], eventA.bytes, .tail (.single (.noackEnable _)) step_firstA⟩⟩

end Libemq.StoredNames
