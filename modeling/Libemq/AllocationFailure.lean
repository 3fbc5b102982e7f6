import Libemq.ErrorTexts
import Libemq.ListBounds

namespace Libemq.AllocationFailure

open Libemq.CStrings
open Libemq.ExitCode
open Libemq.Client
open Libemq.Network
open Libemq.Protocol
open Libemq.Packet
open Libemq.Commands
open Libemq.Transactions
open Libemq.Responses
open Libemq.Calls
open Libemq.Completion
open Libemq.Runs
open Libemq.ListBounds
open Libemq.MessageBounds
open Libemq.ErrorTexts

def RecordsGranted (malloc : Nat → Nat → Bool) (kind : RecordKind) (call n : Nat) : Prop :=
  ∀ j, j * kind.size < n → malloc (call + 2 * j) kind.size = true

def NodesGranted (malloc : Nat → Nat → Bool) (kind : RecordKind) (call n : Nat) : Prop :=
  ∀ j, j * kind.size < n → malloc (call + 2 * j + 1) 24 = true

/-- A list function does right by a body of this length. Its buffer is refused, or the
reader cannot count it and meets the end of the stream in time; or it is cut off, its list
or a record is refused, or it is a whole number of records and no list node is refused. -/
def ListSpared (malloc : Nat → Nat → Bool) (call : Nat) (kind : RecordKind)
    (bodylen arriving : Nat) : Prop :=
  malloc call bodylen = false ∨
    if bodylen ≤ intMax then
      arriving < bodylen ∨ malloc (call + 1) 32 = false ∨
        ¬ RecordsGranted malloc kind (call + 2) bodylen ∨
        (kind.size ∣ bodylen ∧ NodesGranted malloc kind (call + 2) bodylen)
    else arriving + 2147483648 ≤ bodylen

theorem forall_turns_iff {P : Nat → Prop} {size n : Nat} (hn : 0 < n) :
    (∀ j, j * size < n → P j) ↔ P 0 ∧ ∀ j, j * size < n - size → P (j + 1) := by
  constructor
  · intro h
    refine ⟨h 0 (by omega), fun j hj => h (j + 1) ?_⟩
    rw [Nat.add_mul]
    omega
  · rintro ⟨hzero, hsucc⟩ j hj
    cases j with
    | zero => exact hzero
    | succ j =>
        refine hsucc j ?_
        rw [Nat.add_mul] at hj
        omega

section Turns

variable {malloc : Nat → Nat → Bool} {kind : RecordKind} {call n : Nat}

theorem recordsGranted_none (hn : n = 0) : RecordsGranted malloc kind call n := by
  intro j hj
  omega

theorem nodesGranted_none (hn : n = 0) : NodesGranted malloc kind call n := by
  intro j hj
  omega

theorem recordsGranted_step (hn : 0 < n) :
    RecordsGranted malloc kind call n ↔
      malloc call kind.size = true ∧ RecordsGranted malloc kind (call + 2) (n - kind.size) := by
  unfold RecordsGranted
  rw [forall_turns_iff hn]
  refine and_congr_right fun _ => forall₂_congr fun j _ => ?_
  rw [show call + 2 * (j + 1) = call + 2 + 2 * j by omega]

theorem nodesGranted_step (hn : 0 < n) :
    NodesGranted malloc kind call n ↔
      malloc (call + 1) 24 = true ∧ NodesGranted malloc kind (call + 2) (n - kind.size) := by
  unfold NodesGranted
  rw [forall_turns_iff hn]
  refine and_congr_right fun _ => forall₂_congr fun j _ => ?_
  rw [show call + 2 * (j + 1) + 1 = call + 2 + 2 * j + 1 by omega]

end Turns

inductive LoopAllocations (k : Kernel) (kind : RecordKind) (buffer : List UInt8) (i : Nat)
    (list : List Record) (w : World) : Exit World Fault (List Record) → Prop
  | listed (list' : List Record) (w' : World)
      (hrecords : RecordsGranted k.malloc kind w.mallocs (buffer.length - i))
      (hsize : kind.size ∣ buffer.length - i)
      (hsublist : list'.Sublist ((recordsFrom kind buffer i).reverse ++ list))
      (hnodes : NodesGranted k.malloc kind w.mallocs (buffer.length - i) →
        list' = (recordsFrom kind buffer i).reverse ++ list)
      (hshort : ¬ NodesGranted k.malloc kind w.mallocs (buffer.length - i) →
        list'.length < (recordsFrom kind buffer i).length + list.length) :
      LoopAllocations k kind buffer i list w (.next list' w')
  | exhausted (w' : World)
      (hrecords : ¬ RecordsGranted k.malloc kind w.mallocs (buffer.length - i)) :
      LoopAllocations k kind buffer i list w (.error (withError .alloc w'))
  | overrun (reason : Fault) (w' : World)
      (hrecords : RecordsGranted k.malloc kind w.mallocs (buffer.length - i))
      (hsize : ¬ kind.size ∣ buffer.length - i) :
      LoopAllocations k kind buffer i list w (.fault reason w')

theorem LoopAllocations.turn {k : Kernel} {kind : RecordKind} {buffer : List UInt8} {i : Nat}
    {list list1 : List Record} {w w1 : World} {exit : Exit World Fault (List Record)}
    (h : LoopAllocations k kind buffer (i + kind.size) list1 w1 exit)
    (hroom : i + kind.size ≤ buffer.length) (hfirst : k.malloc w.mallocs kind.size = true)
    (hmallocs : w1.mallocs = w.mallocs + 2)
    (hlist1 : list1 = if k.malloc (w.mallocs + 1) 24 = true
      then kind.decode ((buffer.drop i).take kind.size) :: list else list) :
    LoopAllocations k kind buffer i list w exit := by
  subst hlist1
  have hpos := RecordKind.size_pos kind
  have hrest : buffer.length - (i + kind.size) = buffer.length - i - kind.size := by omega
  have hmore : 0 < buffer.length - i := by omega
  have hrecords := @recordsGranted_step k.malloc kind w.mallocs _ hmore
  have hnodes := @nodesGranted_step k.malloc kind w.mallocs _ hmore
  rw [← hmallocs, ← hrest] at hrecords hnodes
  have hdvd : kind.size ∣ buffer.length - i ↔ kind.size ∣ buffer.length - (i + kind.size) := by
    have hsum : buffer.length - i = buffer.length - (i + kind.size) + kind.size := by omega
    rw [hsum]
    exact Nat.dvd_add_self_right
  have hlist := recordsFrom_step hroom
  cases h with
  | listed list' w' hgranted hsize hsublist hwhole hshort =>
      refine .listed list' w' (hrecords.mpr ⟨hfirst, hgranted⟩) (hdvd.mpr hsize) ?_ ?_ ?_
      · rw [hlist, List.reverse_cons, List.append_assoc]
        refine hsublist.trans (List.Sublist.append_left ?_ _)
        split
        · exact List.Sublist.refl _
        · exact List.sublist_cons_self _ _
      · intro hall
        obtain ⟨hnode, hlater⟩ := hnodes.mp hall
        rw [hwhole hlater, if_pos hnode, hlist]
        simp
      · intro hnot
        rw [hlist, List.length_cons]
        by_cases hnode : k.malloc (w.mallocs + 1) 24 = true
        · have hlater := hshort fun hlater => hnot (hnodes.mpr ⟨hnode, hlater⟩)
          rw [if_pos hnode, List.length_cons] at hlater
          omega
        · rw [if_neg hnode] at hwhole hshort
          by_cases hlater : NodesGranted k.malloc kind w1.mallocs
              (buffer.length - (i + kind.size))
          · rw [hwhole hlater, List.length_append, List.length_reverse]
            omega
          · have := hshort hlater
            omega
  | exhausted w' hrefused =>
      exact .exhausted w' fun hall => hrefused (hrecords.mp hall).2
  | overrun reason w' hgranted hsize =>
      exact .overrun reason w' (hrecords.mpr ⟨hfirst, hgranted⟩) fun h => hsize (hdvd.mp h)

theorem recordLoop_allocations (k : Kernel) (kind : RecordKind) (buffer : List UInt8)
    (hbuffer : buffer.length ≤ intMax) (fuel : Nat) :
    ∀ (i : Nat) (list : List Record) (w : World), i ≤ buffer.length →
      buffer.length - i < fuel →
      LoopAllocations k kind buffer i list w
        (recordLoop k kind buffer buffer.length fuel i list w) := by
  induction fuel with
  | zero =>
      intro i list w _ hfuel
      omega
  | succ fuel ih =>
      intro i list w hi hfuel
      have hpos := RecordKind.size_pos kind
      unfold intMax at hbuffer
      by_cases hmore : i < buffer.length
      · have hleft : 0 < buffer.length - i := by omega
        simp only [recordLoop, hmore, if_true]
        rw [Code.bind_of_next (malloc_apply ..)]
        cases hfirst : k.malloc w.mallocs kind.size with
        | false =>
            simp only [Bool.false_eq_true, if_false, failWith_apply]
            refine .exhausted _ fun hall => ?_
            rw [((recordsGranted_step hleft).mp hall).1] at hfirst
            cases hfirst
        | true =>
            simp only [if_true]
            by_cases hroom : i + kind.size ≤ buffer.length
            · have hwrap : (i + kind.size) % 4294967296 = i + kind.size :=
                Nat.mod_eq_of_lt (by omega)
              simp only [hroom, if_true, hwrap]
              rw [Code.bind_of_next (emqListAddValue_apply ..)]
              generalize hadded : (if k.malloc _ 24 = true then _ else _) = added
              refine (ih (i + kind.size) added.2 _ hroom (by omega)).turn hroom hfirst rfl ?_
              rw [← hadded, apply_ite Prod.snd]
              rfl
            · simp only [hroom, if_false, Code.undefined_apply]
              refine .overrun _ _ ?_ ?_
              · rw [recordsGranted_step hleft]
                exact ⟨hfirst, recordsGranted_none (by omega)⟩
              · intro hdvd
                have := Nat.le_of_dvd hleft hdvd
                omega
      · have hzero : buffer.length - i = 0 := by omega
        simp only [recordLoop, hmore, if_false, Code.pure_apply]
        refine .listed list w (recordsGranted_none hzero) (by simp [hzero])
          (List.sublist_append_right _ _) ?_ ?_
        · intro _
          simp [@recordsFrom_of_done kind _ _ (not_lt.mp hmore)]
        · intro hnot
          exact absurd (nodesGranted_none hzero) hnot

inductive ReadAllocations (k : Kernel) (kind : RecordKind) (bodylen : Nat) (w : World) :
    Exit World Fault Reply → Prop
  | listed (list : List Record) (w' : World)
      (hsized : Finish.WellSized (.records kind) bodylen) (henough : bodylen ≤ w.input.length)
      (hsublist : list.Sublist (recordsFrom kind (w.input.take bodylen) 0).reverse)
      (hwhole : list.Perm (recordsFrom kind (w.input.take bodylen) 0) ↔
        ListSpared k.malloc w.mallocs kind bodylen w.input.length) :
      ReadAllocations k kind bodylen w (.next (.list (some list)) w')
  | failed (error : EmqError) (w' : World) (hloud : error ≠ .none)
      (hspared : Kernel.ReadsOk k →
        ListSpared k.malloc w.mallocs kind bodylen w.input.length) :
      ReadAllocations k kind bodylen w (.error (withError error w'))
  | faulted (reason : Fault) (w' : World)
      (hnot : ¬ ListSpared k.malloc w.mallocs kind bodylen w.input.length) :
      ReadAllocations k kind bodylen w (.fault reason w')

theorem listSpared_counted {malloc : Nat → Nat → Bool} {call : Nat} {kind : RecordKind}
    {bodylen arriving : Nat} (hle : bodylen ≤ intMax) (hbuffer : malloc call bodylen = true) :
    ListSpared malloc call kind bodylen arriving ↔
      arriving < bodylen ∨ malloc (call + 1) 32 = false ∨
        ¬ RecordsGranted malloc kind (call + 2) bodylen ∨
        (kind.size ∣ bodylen ∧ NodesGranted malloc kind (call + 2) bodylen) := by
  rw [ListSpared, if_pos hle, hbuffer]
  simp

theorem listSpared_granted {malloc : Nat → Nat → Bool} {call : Nat} {kind : RecordKind}
    {bodylen arriving : Nat} (hle : bodylen ≤ intMax) (hbuffer : malloc call bodylen = true)
    (henough : bodylen ≤ arriving) (hlist : malloc (call + 1) 32 = true)
    (hrecords : RecordsGranted malloc kind (call + 2) bodylen) :
    ListSpared malloc call kind bodylen arriving ↔
      kind.size ∣ bodylen ∧ NodesGranted malloc kind (call + 2) bodylen := by
  rw [listSpared_counted hle hbuffer]
  constructor
  · rintro (hcut | hnone | hrefused | hnodes)
    · omega
    · rw [hlist] at hnone
      cases hnone
    · exact absurd hrecords hrefused
    · exact hnodes
  · intro hnodes
    exact .inr (.inr (.inr hnodes))

theorem loop_allocations (k : Kernel) (kind : RecordKind) {bodylen : Nat}
    (hle : bodylen ≤ intMax) {w w2 : World} (henough : bodylen ≤ w.input.length)
    (hbuffer : k.malloc w.mallocs bodylen = true) (hlist : k.malloc (w.mallocs + 1) 32 = true)
    (hmallocs : w2.mallocs = w.mallocs + 2) :
    ReadAllocations k kind bodylen w
      ((recordLoop k kind (w.input.take bodylen) bodylen (bodylen + 1) 0 [] >>= fun list =>
        pure (.list (some list))) w2) := by
  have hlength : (w.input.take bodylen).length = bodylen := by
    rw [List.length_take, Nat.min_eq_left henough]
  have hspared : RecordsGranted k.malloc kind (w.mallocs + 2) bodylen →
      (ListSpared k.malloc w.mallocs kind bodylen w.input.length ↔
        kind.size ∣ bodylen ∧ NodesGranted k.malloc kind (w.mallocs + 2) bodylen) :=
    listSpared_granted hle hbuffer henough hlist
  have hloop := recordLoop_allocations k kind (w.input.take bodylen) (by rwa [hlength])
    (bodylen + 1) 0 [] w2 (Nat.zero_le _) (by omega)
  rw [hlength] at hloop
  generalize hrun : recordLoop k kind _ _ _ _ _ w2 = exit at hloop
  cases hloop with
  | listed list w' hrecords hsize hsublist hnodes hshort =>
      rw [hlength, Nat.sub_zero, hmallocs] at hrecords hnodes hshort
      rw [hlength, Nat.sub_zero] at hsize
      rw [Code.bind_of_next hrun]
      rw [List.append_nil] at hsublist
      refine .listed list w' ⟨hle, hsize⟩ henough hsublist ?_
      rw [hspared hrecords]
      constructor
      · intro hperm
        refine ⟨hsize, ?_⟩
        by_contra hnot
        have := hshort hnot
        rw [hperm.length_eq, List.length_nil] at this
        omega
      · rintro ⟨_, hall⟩
        rw [hnodes hall, List.append_nil]
        exact List.reverse_perm _
  | exhausted w' hrecords =>
      rw [hlength, Nat.sub_zero, hmallocs] at hrecords
      rw [Code.bind_of_error hrun]
      exact .failed .alloc w' (by decide) fun _ =>
        (listSpared_counted hle hbuffer).mpr (.inr (.inr (.inl hrecords)))
  | overrun reason w' hrecords hsize =>
      rw [hlength, Nat.sub_zero, hmallocs] at hrecords
      rw [hlength, Nat.sub_zero] at hsize
      rw [Code.bind_of_fault hrun]
      refine .faulted reason w' ?_
      rw [hspared hrecords]
      exact fun hall => hsize hall.1

theorem counted_allocations (k : Kernel) (kind : RecordKind) {bodylen : Nat}
    (hle : bodylen ≤ intMax) (w : World) :
    ReadAllocations k kind bodylen w (readRecords k kind bodylen w) := by
  unfold readRecords
  rw [Code.bind_of_next (malloc_apply ..), toInt_natCast hle]
  cases hfirst : k.malloc w.mallocs bodylen with
  | false =>
      simp only [Bool.false_eq_true, if_false, failWith_apply]
      exact .failed .alloc _ (by decide) fun _ => .inl hfirst
  | true =>
      simp only [if_true]
      generalize hw : consumed w 0 w.reads (w.mallocs + 1) _ = w1
      have hinput : w1.input = w.input := by
        rw [← hw]
        rfl
      have hmallocs : w1.mallocs = w.mallocs + 1 := by
        rw [← hw]
        rfl
      have houtcome := emqClientRead_outcome k hle w1
      generalize hread : emqClientRead k bodylen w1 = exit at houtcome
      cases houtcome with
      | failed dropped reads _ hend =>
          rw [Code.bind_of_next hread]
          refine .failed .read _ (by decide) fun hok =>
            (listSpared_counted hle hfirst).mpr (.inl ?_)
          rw [← hinput]
          exact (hend hok).1
      | whole reads henough =>
          rw [Code.bind_of_next hread]
          simp only [List.nil_append]
          rw [Code.bind_of_next (malloc_apply ..)]
          simp only [received_mallocs, hmallocs]
          rw [hinput] at henough ⊢
          cases hsecond : k.malloc (w.mallocs + 1) 32 with
          | false =>
              simp only [Bool.false_eq_true, if_false, failWith_apply]
              exact .failed .alloc _ (by decide) fun _ =>
                (listSpared_counted hle hfirst).mpr (.inr (.inl hsecond))
          | true =>
              simp only [if_true]
              exact loop_allocations k kind hle henough hfirst hsecond rfl

theorem overlong_allocations (k : Kernel) (kind : RecordKind) {bodylen : Nat}
    (hlow : intMax < bodylen) (hhigh : bodylen < 4294967296) (w : World) :
    ReadAllocations k kind bodylen w (readRecords k kind bodylen w) := by
  have htoInt := toInt_of_overlong hlow hhigh
  unfold readRecords
  rw [Code.bind_of_next (malloc_apply ..)]
  cases hfirst : k.malloc w.mallocs bodylen with
  | false =>
      simp only [Bool.false_eq_true, if_false, failWith_apply]
      exact .failed .alloc _ (by decide) fun _ => .inl hfirst
  | true =>
      simp only [if_true]
      generalize hw : consumed w 0 w.reads (w.mallocs + 1) _ = w1
      have hinput : w1.input = w.input := by
        rw [← hw]
        rfl
      have hspared : ListSpared k.malloc w.mallocs kind bodylen w.input.length ↔
          (w.input.length : Int) ≤ toInt bodylen - intMin := by
        rw [ListSpared, if_neg (not_le.mpr hlow), hfirst, htoInt]
        unfold intMin
        simp only [Bool.true_eq_false, false_or]
        omega
      have houtcome := emqClientRead_overlong k (by omega) (intMin_le_toInt bodylen) w1
      rw [← hinput] at hspared
      generalize hread : emqClientRead k (toInt bodylen) w1 = exit at houtcome
      cases houtcome with
      | failed dropped reads _ hend =>
          rw [Code.bind_of_next hread]
          refine .failed .read _ (by decide) fun hok => ?_
          rw [← hinput]
          exact hspared.mpr (hend hok).1
      | overflow dropped reads _ hmore =>
          rw [Code.bind_of_fault hread]
          refine .faulted _ _ ?_
          rw [← hinput, hspared]
          exact not_le.mpr hmore

theorem readRecords_allocations (k : Kernel) (kind : RecordKind) {bodylen : Nat}
    (hbodylen : bodylen < 4294967296) (w : World) :
    ReadAllocations k kind bodylen w (readRecords k kind bodylen w) := by
  by_cases hle : bodylen ≤ intMax
  · exact counted_allocations k kind hle w
  · exact overlong_allocations k kind (not_le.mp hle) hbodylen w

inductive CommitAllocations (k : Kernel) (commit : Commit) (size : Nat) (w : World) :
    Exit World Fault Unit → Prop
  | entered (w' : World) (hnode : k.malloc (w.mallocs + 1) 24 = true)
      (hclient : w'.client = (Commit.applied commit w).client) :
      CommitAllocations k commit size w (.next () w')
  | lost (w' : World) (halloc : k.malloc w.mallocs size = true)
      (hnode : k.malloc (w.mallocs + 1) 24 = false) (hclient : w'.client = w.client) :
      CommitAllocations k commit size w (.next () w')
  | exhausted (w' : World) (halloc : k.malloc w.mallocs size = false) :
      CommitAllocations k commit size w (.error (withError .alloc w'))

theorem commit_allocations (k : Kernel) {commit : Commit} {size : Nat}
    (hfits : Commit.Fits commit) (hsize : Commit.allocation commit = some size) (w : World) :
    CommitAllocations k commit size w (commit.run k w) := by
  cases commit with
  | subscribeQueue name callback =>
      cases hsize
      simp only [Commit.Fits] at hfits
      simp only [Commit.run]
      rw [Code.bind_of_next (emqQueueSubscriptionCreate_apply k hfits callback w)]
      cases hfirst : k.malloc w.mallocs 72 with
      | false => exact .exhausted _ hfirst
      | true =>
          simp only [if_true]
          rw [Code.bind_reads, Code.bind_of_next (emqListAddValue_apply ..)]
          cases hsecond : k.malloc (w.mallocs + 1) 24 with
          | false =>
              simp only [consumed_mallocs, hsecond, Bool.false_eq_true, if_false]
              exact .lost _ hfirst hsecond rfl
          | true =>
              simp only [consumed_mallocs, hsecond, if_true]
              refine .entered _ hsecond ?_
              simp [Commit.applied, Commit.queueList, Commit.channelList, hfits]
  | subscribeChannel name data callback =>
      cases hsize
      simp only [Commit.Fits] at hfits
      simp only [Commit.run]
      rw [Code.bind_of_next (emqChannelSubscriptionCreate_apply k hfits callback w)]
      cases hfirst : k.malloc w.mallocs 104 with
      | false => exact .exhausted _ hfirst
      | true =>
          simp only [if_true]
          rw [Code.bind_reads, Code.bind_of_next (emqListAddValue_apply ..)]
          cases hsecond : k.malloc (w.mallocs + 1) 24 with
          | false =>
              simp only [consumed_mallocs, hsecond, Bool.false_eq_true, if_false]
              exact .lost _ hfirst hsecond rfl
          | true =>
              simp only [consumed_mallocs, hsecond, if_true]
              refine .entered _ hsecond ?_
              simp [Commit.applied, Commit.queueList, Commit.channelList, hfits]
  | nothing => cases hsize
  | unsubscribeQueue name => cases hsize
  | unsubscribeChannel name => cases hsize

def Allocates : Command → Bool
  | .userList | .queueList | .routeList | .routeKeys .. | .channelList => true
  | .queueSubscribe .. | .channelSubscribe .. | .channelPsubscribe .. => true
  | _ => false

def Subscribed (c : Command) (before after : EmqClient) : Prop :=
  match c with
  | .queueSubscribe name _ callback =>
      ∃ s : EmqQueueSubscription, s.name.str = name ∧ s.callback = callback ∧
        after.queueSubscriptions = s :: before.queueSubscriptions
  | .channelSubscribe name data callback | .channelPsubscribe name data callback =>
      ∃ s : EmqChannelSubscription, s.name.str = name ∧ s.channel.str = data ∧
        s.callback = callback ∧ after.channelSubscriptions = s :: before.channelSubscriptions
  | _ => False

/-- The call gave back every record of the body, or stored its subscription. -/
inductive Complete (c : Command) (w : World) : Reply → World → Prop
  | list (kind : RecordKind) (records : List Record) (w' : World)
      (hc : finish c = .records kind)
      (hrecords : records.Perm (recordsFrom kind ((w.input.drop 8).take
        (ProtocolResponseHeader.parse w.input).bodylen.toNat) 0)) :
      Complete c w (.list (some records)) w'
  | subscription (w' : World) (hsubscribed : Subscribed c w.client w'.client) :
      Complete c w (.status .ok) w'

/-- The call failed, says so and left the lists of the client alone. -/
structure Undone (c : Command) (w : World) (reply : Reply) (w' : World) : Prop where
  failure : reply = (finish c).failure
  status : w'.client.status = .err
  error : Loud w'
  queues : w'.client.queueSubscriptions = w.client.queueSubscriptions
  channels : w'.client.channelSubscriptions = w.client.channelSubscriptions

def AllOrNothing (k : Kernel) (c : Command) (w : World) : Prop :=
  ∃ reply w', exec k c w = .returned reply w' ∧ (Complete c w reply w' ∨ Undone c w reply w')

/-- The call has nothing to fail of but memory and the body of its response. -/
def Favourable (c : Command) (w : World) : Prop :=
  Accepts c ∧ (Finish.awaits (finish c) w.client.noack = true → Answered c w)

/-- The response is not one whose error has no text. If the call succeeds at the server,
then a list function does right by the body, and a subscribing call that gets the memory
for its subscription gets that for the list node as well. -/
def Spared (malloc : Nat → Nat → Bool) (c : Command) (w : World) : Prop :=
  ¬ Unmapped c w ∧ (Favourable c w →
    (∀ kind, finish c = .records kind → ListSpared malloc w.mallocs kind
      (ProtocolResponseHeader.parse w.input).bodylen.toNat (w.input.length - 8)) ∧
    ∀ size, Commit.allocation (commit c) = some size → malloc w.mallocs size = true →
      malloc (w.mallocs + 1) 24 = true)

theorem finish_of_allocates {c : Command} (hc : Allocates c = true) :
    (∃ kind, finish c = .records kind ∧ Commit.allocation (commit c) = none) ∨
      ∃ check size, finish c = .acknowledge check (commit c) ∧
        Commit.allocation (commit c) = some size := by
  cases c <;> first
    | exact .inl ⟨_, rfl, rfl⟩
    | exact .inr ⟨_, _, rfl, rfl⟩
    | cases hc

theorem parts_of_allocates {c : Command} (hc : Allocates c = true) : parts c = none := by
  cases c <;> first | rfl | cases hc

theorem not_misread_of_allocates {k : Kernel} {c : Command} (hc : Allocates c = true)
    {writes length : Nat} : ¬ Misread k writes length (parts c) := by
  rw [parts_of_allocates hc]
  exact not_false

theorem subscribed_of_applied {c : Command} {before : EmqClient} {w after : World} {size : Nat}
    (hfits : Commit.Fits (commit c)) (hsize : Commit.allocation (commit c) = some size)
    (hqueues : w.client.queueSubscriptions = before.queueSubscriptions)
    (hchannels : w.client.channelSubscriptions = before.channelSubscriptions)
    (hclient : after.client = (Commit.applied (commit c) w).client) :
    Subscribed c before (setStatus .ok after).client := by
  have hqueue : (setStatus .ok after).client.queueSubscriptions =
      (Commit.applied (commit c) w).client.queueSubscriptions := by
    rw [setStatus_client, hclient]
  have hchannel : (setStatus .ok after).client.channelSubscriptions =
      (Commit.applied (commit c) w).client.channelSubscriptions := by
    rw [setStatus_client, hclient]
  cases c with
  | queueSubscribe name flags callback =>
      refine ⟨⟨⟨name, hfits⟩, callback⟩, rfl, rfl, ?_⟩
      rw [hqueue, ← hqueues]
      exact dif_pos hfits
  | channelSubscribe name data callback =>
      refine ⟨channelSubscription name data callback hfits, rfl, rfl, rfl, ?_⟩
      rw [hchannel, ← hchannels]
      exact dif_pos hfits
  | channelPsubscribe name data callback =>
      refine ⟨channelSubscription name data callback hfits, rfl, rfl, rfl, ?_⟩
      rw [hchannel, ← hchannels]
      exact dif_pos hfits
  | _ => cases hsize

theorem not_subscribed {c : Command} {before after : EmqClient}
    (hqueues : after.queueSubscriptions = before.queueSubscriptions)
    (hchannels : after.channelSubscriptions = before.channelSubscriptions) :
    ¬ Subscribed c before after := by
  intro h
  cases c with
  | queueSubscribe name flags callback =>
      obtain ⟨s, _, _, hlist⟩ := h
      rw [hqueues] at hlist
      exact List.cons_ne_self s _ hlist.symm
  | channelSubscribe name data callback =>
      obtain ⟨s, _, _, _, hlist⟩ := h
      rw [hchannels] at hlist
      exact List.cons_ne_self s _ hlist.symm
  | channelPsubscribe name data callback =>
      obtain ⟨s, _, _, _, hlist⟩ := h
      rw [hchannels] at hlist
      exact List.cons_ne_self s _ hlist.symm
  | _ => exact h

theorem not_complete_failure {c : Command} (hc : Allocates c = true) {w w' : World} :
    ¬ Complete c w (finish c).failure w' := by
  intro h
  generalize hreply : (finish c).failure = reply at h
  cases h with
  | list kind records _ hfinish =>
      rw [hfinish] at hreply
      cases hreply
  | subscription =>
      rcases finish_of_allocates hc with ⟨kind, hfinish, _⟩ | ⟨check, size, hfinish, _⟩
      · rw [hfinish] at hreply
        cases hreply
      · rw [hfinish] at hreply
        cases hreply

section Calls

variable {k : Kernel} {c : Command} {w : World} (hready : Ready w.client)

include hready

theorem undone_of_returned {error : EmqError} {s : World} (hloud : error ≠ .none)
    (h : exec k c w = .returned (finish c).failure (setStatus .err (withError error s))) :
    Undone c w (finish c).failure (setStatus .err (withError error s)) := by
  obtain ⟨_, _, _, ⟨_, _, hqueues, hchannels⟩ | ⟨_, hok, _⟩⟩ := exec_returned hready h
  · exact ⟨rfl, rfl, loud_withError hloud s, hqueues, hchannels⟩
  · cases hok

theorem accepted_start {response : List UInt8} {w2 : World} (h : Accepted k c w response w2) :
    Favourable c w ∧ w2.mallocs = w.mallocs ∧
      w2.client.queueSubscriptions = w.client.queueSubscriptions ∧
      w2.client.channelSubscriptions = w.client.channelSubscriptions := by
  cases h with
  | answered w1 reads hissued hawaits hreads henough hcheck hstatus =>
      exact ⟨⟨hissued.accepts, fun _ => ⟨hissued.accepts, henough, hcheck, hstatus⟩⟩,
        (hissued.ready hready).2, hissued.queueSubscriptions, hissued.channelSubscriptions⟩
  | unanswered _ hissued hawaits =>
      refine ⟨⟨hissued.accepts, fun hwaits => ?_⟩, (hissued.ready hready).2,
        hissued.queueSubscriptions, hissued.channelSubscriptions⟩
      rw [hawaits] at hwaits
      cases hwaits

omit hready in
theorem accepted_records {kind : RecordKind} (hc : finish c = .records kind)
    {response : List UInt8} {w2 : World} (h : Accepted k c w response w2) :
    w2.input = w.input.drop 8 ∧
      Finish.body k (finish c) response w2 =
        readRecords k kind (ProtocolResponseHeader.parse w.input).bodylen.toNat w2 := by
  have hhead : Finish.head (finish c) = 8 := by rw [hc]; rfl
  cases h with
  | unanswered _ hissued hawaits =>
      rw [hc] at hawaits
      cases hawaits
  | answered w1 reads hissued =>
      refine ⟨?_, ?_⟩
      · rw [received_input, hissued.input, hhead]
      · rw [hc, Finish.body, parse_take (Finish.head_bounds _).1]

theorem exec_favourable (hwrites : Kernel.WritesOk k) (hreads : Kernel.ReadsOk k)
    (hread : ¬ Misread k w.writes (frame c w.client.noack).length (parts c))
    (h : Favourable c w) :
    ∃ response w2, Accepted k c w response w2 ∧
      exec k c w = close (finish c) (Finish.body k (finish c) response w2) := by
  obtain ⟨haccepts, hanswered⟩ := h
  cases hawaits : Finish.awaits (finish c) w.client.noack with
  | true =>
      obtain ⟨_, henough, hcheck, hstatus⟩ := hanswered hawaits
      obtain ⟨w2, haccepted, _, hexec⟩ := answered_body hwrites hready haccepts hread
        (hreads.delivers [_] _) hawaits henough hcheck hstatus
      exact ⟨_, w2, haccepted, hexec⟩
  | false =>
      obtain ⟨w1, hissue, hissued⟩ := issueRequest_next hwrites hready haccepts hread
      refine ⟨[], w1, .unanswered w1 hissued hawaits, ?_⟩
      rw [transact_eq, Code.bind_of_next hissue, Finish.run_eq, hissued.noack, hawaits]
      rfl

theorem exec_denied (hwrites : Kernel.WritesOk k) (hreads : Kernel.ReadsOk k)
    (hread : ¬ Misread k w.writes (frame c w.client.noack).length (parts c))
    (h : Denied c w) :
    ∃ s, exec k c w = .returned (finish c).failure
      (setStatus .err (withError (emqGetError (.parse w.input)) s)) := by
  obtain ⟨haccepts, hawaits, henough, hcheck, hstatus⟩ := h
  obtain ⟨w1, hissue, hissued⟩ := issueRequest_next hwrites hready haccepts hread
  have houtcome := awaitResponse_outcome k (Finish.head_bounds (finish c))
    (Finish.check (finish c)) w1
  rw [transact_eq, Code.bind_of_next hissue, Finish.run_eq, hissued.noack, hawaits, if_pos rfl]
  generalize hawait : awaitResponse k _ _ w1 = exit at houtcome
  rw [← hissued.input] at henough hcheck hstatus ⊢
  cases houtcome with
  | unread dropped reads _ hend => exact absurd henough (not_le.mpr (hend hreads).1)
  | rejected reads _ _ herr =>
      rw [hcheck] at herr
      cases herr
  | accepted reads _ _ _ hsuccess => exact absurd hsuccess hstatus
  | denied reads =>
      rw [Code.bind_of_error hawait]
      exact ⟨_, rfl⟩

/-- A call does all or nothing if it is spared. -/
theorem allOrNothing_of_spared (hc : Allocates c = true) (h : Spared k.malloc c w) :
    AllOrNothing k c w := by
  obtain ⟨hmapped, hbody⟩ := h
  rcases exec_body k c w hready.1 with ⟨error, s, hexec, htext⟩ |
    ⟨response, w2, haccepted, hexec⟩
  · refine ⟨_, _, hexec, .inr (undone_of_returned hready ?_ hexec)⟩
    rcases htext with hloud | ⟨hdenied, _, rfl⟩
    · exact hloud
    · exact fun hnone => hmapped ⟨hdenied, hnone⟩
  · obtain ⟨hfavourable, hmallocs, hqueues, hchannels⟩ := accepted_start hready haccepted
    obtain ⟨hlists, hcommits⟩ := hbody hfavourable
    rcases finish_of_allocates hc with ⟨kind, hfinish, _⟩ | ⟨check, size, hfinish, hsize⟩
    · obtain ⟨hinput, hbody⟩ := accepted_records hfinish haccepted
      have hspared := hlists kind hfinish
      have houtcome := readRecords_allocations k kind
        (ProtocolResponseHeader.parse w.input).bodylen.toNat_lt w2
      rw [hbody] at hexec
      generalize readRecords k kind _ w2 = exit at houtcome hexec
      cases houtcome with
      | listed list w' _ _ _ hwhole =>
          refine ⟨_, _, hexec, .inl (.list kind list _ hfinish ?_)⟩
          rw [hmallocs, hinput, List.length_drop] at hwhole
          exact hwhole.mpr hspared
      | failed error w' hloud =>
          exact ⟨_, _, hexec, .inr (undone_of_returned hready hloud hexec)⟩
      | faulted reason w' hnot =>
          rw [hmallocs, hinput, List.length_drop] at hnot
          exact absurd hspared hnot
    · obtain ⟨w1, _, hissued, _, _⟩ := haccepted.issued
      have hfits := commit_fits hissued.accepts.2
      have houtcome := commit_allocations k hfits hsize w2
      rw [hfinish, Finish.body] at hexec
      generalize hrun : (commit c).run k w2 = exit at houtcome
      cases houtcome with
      | entered w' hnode hclient =>
          rw [Code.bind_of_next hrun] at hexec
          exact ⟨_, _, hexec, .inl (.subscription _
            (subscribed_of_applied hfits hsize hqueues hchannels hclient))⟩
      | lost w' halloc hnode =>
          rw [hmallocs] at halloc hnode
          rw [hcommits size hsize halloc] at hnode
          cases hnode
      | exhausted w' =>
          rw [Code.bind_of_error hrun, ← hfinish] at hexec
          exact ⟨_, _, hexec, .inr (undone_of_returned hready (by decide) hexec)⟩

section Converse

variable (hc : Allocates c = true) (hwrites : Kernel.WritesOk k) (hreads : Kernel.ReadsOk k)
  (h : AllOrNothing k c w)

include hc hwrites hreads h

theorem not_unmapped_of_allOrNothing : ¬ Unmapped c w := by
  rintro ⟨hdenied, hnone⟩
  obtain ⟨reply, w', hexec, hresult⟩ := h
  obtain ⟨s, hfails⟩ := exec_denied hready hwrites hreads (not_misread_of_allocates hc) hdenied
  rw [hexec, hnone] at hfails
  cases hfails
  rcases hresult with hcomplete | hundone
  · exact not_complete_failure hc hcomplete
  · exact hundone.error rfl

/-- A list function that does all or nothing does right by the body. -/
theorem listSpared_of_allOrNothing (hfavourable : Favourable c w) {kind : RecordKind}
    (hfinish : finish c = .records kind) :
    ListSpared k.malloc w.mallocs kind (ProtocolResponseHeader.parse w.input).bodylen.toNat
      (w.input.length - 8) := by
  obtain ⟨reply, w', hexec, hresult⟩ := h
  obtain ⟨response, w2, haccepted, hexec'⟩ := exec_favourable hready hwrites hreads
    (not_misread_of_allocates hc) hfavourable
  obtain ⟨_, hmallocs, _⟩ := accepted_start hready haccepted
  obtain ⟨hinput, hbody⟩ := accepted_records hfinish haccepted
  have houtcome := readRecords_allocations k kind
    (ProtocolResponseHeader.parse w.input).bodylen.toNat_lt w2
  rw [hexec, hbody] at hexec'
  generalize readRecords k kind _ w2 = exit at houtcome hexec'
  cases houtcome with
  | listed list w3 _ _ _ hwhole =>
      cases hexec'
      rw [hmallocs, hinput, List.length_drop] at hwhole
      rcases hresult with hcomplete | hundone
      · cases hcomplete with
        | list kind' _ _ hfinish' hrecords =>
            rw [hfinish] at hfinish'
            cases hfinish'
            exact hwhole.mp hrecords
      · have hfailure := hundone.failure
        rw [hfinish] at hfailure
        cases hfailure
  | failed error w3 _ hspared =>
      rw [hmallocs, hinput, List.length_drop] at hspared
      exact hspared hreads
  | faulted => cases hexec'

theorem node_granted_of_allOrNothing (hfavourable : Favourable c w) {size : Nat}
    (hsize : Commit.allocation (commit c) = some size) (halloc : k.malloc w.mallocs size = true) :
    k.malloc (w.mallocs + 1) 24 = true := by
  obtain ⟨reply, w', hexec, hresult⟩ := h
  obtain ⟨response, w2, haccepted, hexec'⟩ := exec_favourable hready hwrites hreads
    (not_misread_of_allocates hc) hfavourable
  obtain ⟨_, hmallocs, hqueues, hchannels⟩ := accepted_start hready haccepted
  have houtcome := commit_allocations k (commit_fits hfavourable.1.2) hsize w2
  rcases finish_of_allocates hc with ⟨_, _, hnone⟩ | ⟨check, _, hfinish, _⟩
  · rw [hsize] at hnone
    cases hnone
  rw [hexec, hfinish, Finish.body] at hexec'
  generalize hrun : (commit c).run k w2 = exit at houtcome
  cases houtcome with
  | entered w3 hnode =>
      rw [hmallocs] at hnode
      exact hnode
  | exhausted w3 hrefused =>
      rw [hmallocs, halloc] at hrefused
      cases hrefused
  | lost w3 _ _ hclient =>
      rw [Code.bind_of_next hrun] at hexec'
      cases hexec'
      rcases hresult with hcomplete | hundone
      · cases hcomplete with
        | subscription _ hsubscribed =>
            refine absurd hsubscribed (not_subscribed ?_ ?_)
            · rw [← hqueues, ← hclient]
              rfl
            · rw [← hchannels, ← hclient]
              rfl
      · cases hundone.status

theorem spared_of_allOrNothing : Spared k.malloc c w := by
  refine ⟨not_unmapped_of_allOrNothing hready hc hwrites hreads h, fun hfavourable => ⟨?_, ?_⟩⟩
  · intro kind hfinish
    exact listSpared_of_allOrNothing hready hc hwrites hreads h hfavourable hfinish
  · intro size hsize halloc
    exact node_granted_of_allOrNothing hready hc hwrites hreads h hfavourable hsize halloc

end Converse

end Calls

/-- With every pattern of granted and refused allocations, whatever the kernel does with
the reads and the writes, a call does all or nothing iff it is spared. -/
theorem all_or_nothing_iff (malloc : Nat → Nat → Bool) (c : Command)
    (hc : Allocates c = true) (w : World) (hready : Ready w.client) :
    (∀ k, k.malloc = malloc → AllOrNothing k c w) ↔ Spared malloc c w := by
  constructor
  · intro h
    exact spared_of_allOrNothing hready hc (allocating_writes malloc) (allocating_reads malloc)
      (h (allocating malloc) rfl)
  · rintro h k rfl
    exact allOrNothing_of_spared hready hc h

def acknowledging : World :=
  World.connected [] (ProtocolResponseHeader.bytes
    ⟨emqProtocolRes, ProtocolCommand.queueSubscribe.code, ProtocolResponseStatus.success.code, 0⟩)

/-- The list node of the subscription is refused, and the call reports success. -/
theorem subscription_lost :
    ¬ ∀ (k : Kernel) (c : Command) (w : World), Allocates c = true → Reachable k w →
      AllOrNothing k c w := by
  intro h
  let k := allocating fun call _ => decide (call ≠ 1)
  obtain ⟨reply, w', hexec, hresult⟩ := h k (.queueSubscribe queueQ 0 1) acknowledging rfl
    ⟨[], _, .refl⟩
  have hstate : (exec k (.queueSubscribe queueQ 0 1) acknowledging).state.client.status = .ok ∧
      (exec k (.queueSubscribe queueQ 0 1) acknowledging).state.client.queueSubscriptions =
        [] := by
    decide +kernel
  rw [hexec] at hstate
  obtain ⟨hstatus, hlist⟩ := hstate
  rcases hresult with hcomplete | hundone
  · cases hcomplete with
    | list kind records _ hfinish => cases hfinish
    | subscription _ hsubscribed =>
        obtain ⟨s, _, _, hqueues⟩ := hsubscribed
        have hnil : w'.client.queueSubscriptions = [] := hlist
        rw [hnil] at hqueues
        cases hqueues
  · rw [Outcome.state, hundone.status] at hstatus
    cases hstatus

theorem all_or_nothing_iff_refused :
    AllOrNothing (allocating fun call _ => decide (call < 2)) .userList
      (listed 72 (List.replicate 72 0)) := by
  have hsuccess : (ProtocolResponseHeader.parse (listed 72 (List.replicate 72 0)).input).status =
      ProtocolResponseStatus.success.code := by decide
  have hbodylen : (ProtocolResponseHeader.parse
      (listed 72 (List.replicate 72 0)).input).bodylen.toNat = 72 := by decide
  refine (all_or_nothing_iff (fun call _ => decide (call < 2)) .userList rfl
    (listed 72 (List.replicate 72 0)) (ready_connected _ _)).mpr ⟨?_, fun _ => ⟨?_, ?_⟩⟩ _ rfl
  · rintro ⟨⟨_, _, _, _, hdenied⟩, _⟩
    exact hdenied hsuccess
  · intro kind hkind
    cases hkind
    rw [hbodylen]
    refine .inr ?_
    rw [if_pos (by decide)]
    refine .inr (.inr (.inl fun hgranted => ?_))
    have := hgranted 0 (by decide)
    cases this
  · intro size hsize
    cases hsize

end Libemq.AllocationFailure
