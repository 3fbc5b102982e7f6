import Libemq.Completion
import Libemq.Runs

namespace Libemq.ListBounds

open Libemq.ExitCode
open Libemq.Client
open Libemq.Network
open Libemq.Protocol
open Libemq.Commands
open Libemq.Transactions
open Libemq.Responses
open Libemq.Calls
open Libemq.Completion
open Libemq.Runs

/-- A list function returns, and without a list unless the body is a whole number of
records that the count of the reader can hold. -/
def Contained (k : Kernel) (c : Command) (kind : RecordKind) (bodylen : Nat) (w : World) : Prop :=
  ∃ reply w', exec k c w = .returned reply w' ∧
    (¬ Finish.WellSized (.records kind) bodylen →
      reply = .list none ∧ w'.client.status = .err)

/-- A body that the reader can count is a whole number of records or is cut off. Of
one that it cannot count, no more arrives than what its negative count still leaves
room for. -/
def Bounded (kind : RecordKind) (bodylen arriving : Nat) : Prop :=
  if bodylen ≤ intMax then kind.size ∣ bodylen ∨ arriving < bodylen
  else arriving + 2147483648 ≤ bodylen

instance (kind : RecordKind) (bodylen arriving : Nat) :
    Decidable (Bounded kind bodylen arriving) := by
  unfold Bounded
  infer_instance

/-- What a list function can do with the body of its response. -/
inductive RecordsOutcome (k : Kernel) (kind : RecordKind) (bodylen : Nat) (w : World) :
    Exit World Fault Reply → Prop
  | listed (records : List Record) (w' : World)
      (hsized : Finish.WellSized (.records kind) bodylen) :
      RecordsOutcome k kind bodylen w (.next (.list (some records)) w')
  | failed (w' : World)
      (hbounded : Kernel.ReadsOk k → Kernel.MallocsOk k → Bounded kind bodylen w.input.length) :
      RecordsOutcome k kind bodylen w (.error w')
  | faulted (reason : Fault) (w' : World) (hbounded : ¬ Bounded kind bodylen w.input.length) :
      RecordsOutcome k kind bodylen w (.fault reason w')

theorem bounded_overlong {kind : RecordKind} {bodylen arriving : Nat} (hlow : intMax < bodylen)
    (hhigh : bodylen < 4294967296) :
    Bounded kind bodylen arriving ↔ (arriving : Int) ≤ toInt bodylen - intMin := by
  rw [Bounded, if_neg (not_le.mpr hlow), toInt_of_overlong hlow hhigh]
  unfold intMin
  omega

theorem readRecords_bounded (k : Kernel) (kind : RecordKind) {bodylen : Nat}
    (hbodylen : bodylen < 4294967296) (w : World) :
    RecordsOutcome k kind bodylen w (readRecords k kind bodylen w) := by
  have houtcome := readRecords_outcome k kind hbodylen w
  generalize readRecords k kind bodylen w = exit at houtcome
  cases houtcome with
  | listed list reads mallocs failures hsized => exact .listed list _ hsized
  | failed error dropped reads mallocs failures _ _ hend =>
      refine .failed _ fun hok hmalloc => ?_
      obtain ⟨hshort, hroom⟩ := hend hok hmalloc
      by_cases hle : bodylen ≤ intMax
      · rw [Bounded, if_pos hle]
        exact .inr hshort
      · exact (bounded_overlong (not_le.mp hle) hbodylen).mpr (hroom (not_le.mp hle))
  | faulted reason w' _ _ hcounted hmore =>
      refine .faulted reason w' fun hbounded => ?_
      by_cases hle : bodylen ≤ intMax
      · obtain ⟨henough, hnot⟩ := hcounted hle
        rw [Bounded, if_pos hle] at hbounded
        rcases hbounded with hdvd | hshort
        · exact hnot hdvd
        · exact absurd henough (not_le.mpr hshort)
      · have hroom := (bounded_overlong (not_le.mp hle) hbodylen).mp hbounded
        exact absurd (hmore (not_le.mp hle)) (not_lt.mpr hroom)

section Response

variable {c : Command} {kind : RecordKind} (hc : finish c = .records kind) {w : World}
  {header : ProtocolResponseHeader} {rest : List UInt8} (hinput : w.input = header.bytes ++ rest)

include hc hinput

theorem accepted_bounded {k : Kernel} {response : List UInt8} {w2 : World}
    (haccepted : Accepted k c w response w2) :
    w2.input = rest ∧ RecordsOutcome k kind header.bodylen.toNat w2
      (Finish.body k (finish c) response w2) := by
  cases haccepted with
  | unanswered _ _ hnot =>
      rw [hc] at hnot
      cases hnot
  | answered w1 reads hissued =>
      have hhead : Finish.head (finish c) = 8 := by rw [hc]; rfl
      refine ⟨?_, ?_⟩
      · rw [received_input, hissued.input, hhead, hinput]
        exact List.drop_left' rfl
      · rw [hc, Finish.body, parse_take (Finish.head_bounds _).1, hinput,
          ProtocolResponseHeader.parse_bytes]
        exact readRecords_bounded k kind header.bodylen.toNat_lt _

/-- A body that is not bounded is overrun when nothing fails. -/
theorem bounded_of_contained (hready : Ready w.client)
    (hcheck : Finish.check (finish c) header = .ok)
    (hstatus : header.status = ProtocolResponseStatus.success.code) (haccepts : Accepts c)
    (h : Contained generous c kind header.bodylen.toNat w) :
    Bounded kind header.bodylen.toNat rest.length := by
  have hparse : ProtocolResponseHeader.parse w.input = header := by
    rw [hinput, ProtocolResponseHeader.parse_bytes]
  have henough : Finish.head (finish c) ≤ w.input.length := by
    rw [hc, hinput, List.length_append]
    exact Nat.le_add_right ..
  have hawaits : Finish.awaits (finish c) w.client.noack = true := by rw [hc]; rfl
  by_contra hbounded
  obtain ⟨reply, w', hreturned, hfails⟩ := h
  obtain ⟨w2, haccepted, _, hexec⟩ := answered_body generous_reliable.writes hready
    haccepts (not_misread_of_awaits (by rw [hc]; rfl) _ _)
    (generous_reliable.reads.delivers [_] _) hawaits henough (by rwa [hparse]) (by rwa [hparse])
  obtain ⟨hinput2, houtcome⟩ := accepted_bounded hc hinput haccepted
  rw [hexec] at hreturned
  generalize Finish.body generous (finish c) _ w2 = exit at houtcome hreturned
  cases houtcome with
  | listed records w3 hsized =>
      refine hbounded ?_
      rw [Bounded, if_pos hsized.1]
      exact .inl hsized.2
  | failed w3 hcause =>
      rw [hinput2] at hcause
      exact hbounded (hcause generous_reliable.reads generous_reliable.mallocs)
  | faulted => cases hreturned

end Response

/-- A list function stays inside the body of a successful response, whatever the kernel
and the allocator do, iff that body is bounded. -/
theorem lists_contained_iff (c : Command) (kind : RecordKind) (hc : finish c = .records kind)
    (w : World) (hready : Ready w.client) (header : ProtocolResponseHeader) (rest : List UInt8)
    (hinput : w.input = header.bytes ++ rest)
    (hcheck : Finish.check (finish c) header = .ok)
    (hstatus : header.status = ProtocolResponseStatus.success.code) :
    (∀ k, Contained k c kind header.bodylen.toNat w) ↔
      (Accepts c → Bounded kind header.bodylen.toNat rest.length) := by
  constructor
  · intro h haccepts
    exact bounded_of_contained hc hinput hready hcheck hstatus haccepts (h generous)
  · intro h k
    rcases exec_body k c w hready.1 with ⟨_, _, hexec, _⟩ | ⟨response, w2, haccepted, hexec⟩
    · refine ⟨_, _, hexec, fun _ => ⟨?_, rfl⟩⟩
      rw [hc]
      rfl
    · obtain ⟨hinput2, houtcome⟩ := accepted_bounded hc hinput haccepted
      obtain ⟨w1, _, hissued, _⟩ := haccepted.issued
      generalize Finish.body k (finish c) response w2 = exit at houtcome hexec
      cases houtcome with
      | listed records w3 hsized => exact ⟨_, _, hexec, fun hnot => absurd hsized hnot⟩
      | failed w3 =>
          refine ⟨_, _, hexec, fun _ => ⟨?_, rfl⟩⟩
          rw [hc]
          rfl
      | faulted reason w3 hbounded =>
          rw [hinput2] at hbounded
          exact absurd (h hissued.accepts) hbounded

def usersHeader (bodylen : UInt32) : ProtocolResponseHeader :=
  ⟨emqProtocolRes, ProtocolCommand.userList.code, ProtocolResponseStatus.success.code, bodylen⟩

def listed (bodylen : UInt32) (body : List UInt8) : World :=
  World.connected [] ((usersHeader bodylen).bytes ++ body)

/-- A body of one byte: the first record is copied from beyond its end. -/
theorem short_record_overruns :
    ¬ ∀ (k : Kernel) (c : Command) (kind : RecordKind) (w : World)
      (header : ProtocolResponseHeader) (body : List UInt8), finish c = .records kind →
      Reachable k w → w.input = header.bytes ++ body → body.length = header.bodylen.toNat →
      Finish.check (finish c) header = .ok →
      header.status = ProtocolResponseStatus.success.code →
      Contained k c kind header.bodylen.toNat w := by
  intro h
  obtain ⟨reply, w', hexec, _⟩ := h generous .userList .users (listed 1 [0]) (usersHeader 1) [0]
    rfl ⟨[], _, .refl⟩ rfl (by decide) (by decide) (by decide)
  have hfaults : (exec generous .userList (listed 1 [0])).result = none := by decide +kernel
  rw [hexec] at hfaults
  cases hfaults

def twoUsers : World := listed 144 (List.replicate 144 65)

theorem lists_contained_iff_whole :
    (exec generous .userList twoUsers).result =
        some (.list (some (List.replicate 2 (RecordKind.users.decode (List.replicate 72 65))))) ∧
      ∀ k, Contained k .userList .users 144 twoUsers :=
  ⟨by decide +kernel, (lists_contained_iff .userList .users rfl twoUsers (ready_connected _ _)
    (usersHeader 144) _ rfl (by decide) (by decide)).mpr fun _ => by decide⟩

end Libemq.ListBounds
