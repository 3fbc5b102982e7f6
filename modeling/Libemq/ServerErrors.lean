import Libemq.Completion
import Libemq.Runs

namespace Libemq.ServerErrors

open Libemq.CStrings
open Libemq.ExitCode
open Libemq.Client
open Libemq.Network
open Libemq.Protocol
open Libemq.Packet
open Libemq.Commands
open Libemq.Transactions
open Libemq.Responses
open Libemq.Calls
open Libemq.Completion
open Libemq.Runs

def errorHeader (c : Command) (status : ProtocolResponseStatus) : ProtocolResponseHeader where
  magic := emqProtocolRes
  cmd := (request c).command.code
  status := status.code
  bodylen := 0

/-- `emq_get_error` has a text for the status. -/
def Named (status : ProtocolResponseStatus) : Prop :=
  ∀ magic cmd bodylen, emqErrorArray (emqGetError ⟨magic, cmd, status.code, bodylen⟩) ≠ ""

/-- The call failed with the text of the server's error, took the eight bytes of
the response and nothing more, and changed no list and no output argument. -/
def ReportsError (c : Command) (status : ProtocolResponseStatus) (w : World)
    (rest : List UInt8) (result : Result Reply) : Prop :=
  ∃ w', result = .returned (finish c).failure w' ∧ w'.client.status = .err ∧
    w'.client.error = emqErrorArray (emqGetError (errorHeader c status)) ∧ w'.input = rest ∧
    w'.client.queueSubscriptions = w.client.queueSubscriptions ∧
    w'.client.channelSubscriptions = w.client.channelSubscriptions

/-- The calls that require or read the body of a success before they look at the
status. -/
def RequiresBody : Command → Bool
  | .stat | .queueExist _ | .queueSize _ | .routeExist _ | .channelExist _ => true
  | _ => false

def ExpectsOther : Command → Bool
  | .channelPunsubscribe .. => true
  | _ => false

/-- The length of a frame with a message reads as `-1` in an `int`. -/
def LengthMisread (c : Command) (noack : Bool) : Prop :=
  (parts c).isSome ∧ toInt (frame c noack).length = -1

theorem misread_iff {k : Kernel} (hwrites : Kernel.WritesOk k) (c : Command) (call : Nat)
    (noack : Bool) :
    Misread k call (frame c noack).length (parts c) ↔ LengthMisread c noack := by
  unfold LengthMisread
  cases parts c with
  | none => simp [Misread]
  | some parts =>
      obtain ⟨m, hle, hm⟩ := hwrites.writev (call + k.interrupts call) (frame c noack).length
      simp [Misread, writevResult, hm, Nat.min_eq_right hle]

theorem check_errorHeader (c : Command) (status : ProtocolResponseStatus) :
    Finish.check (finish c) (errorHeader c status) =
      if RequiresBody c ∨ ExpectsOther c then .err else .ok := by
  cases c <;> rfl

/-- The header of a success passes the check of its call, unless the call expects
another. -/
theorem check_ownHeader {c : Command} {header : ProtocolResponseHeader}
    (hmagic : header.magic = emqProtocolRes) (hcmd : header.cmd = (request c).command.code)
    (hsize : BodySize (finish c) header.bodylen.toNat) :
    Finish.check (finish c) header = if ExpectsOther c then .err else .ok := by
  have hbodylen : header.bodylen = UInt32.ofNat header.bodylen.toNat :=
    UInt32.ofNat_toNat.symm
  generalize header.bodylen.toNat = n at hsize hbodylen
  cases c <;>
    simp_all [finish, BodySize, Finish.check, emqCheckResponseHeader,
      emqCheckResponseHeaderMini, request, Request.command, ExpectsOther,
      ProtocolCommand.code_inj, RecordKind.command]

theorem named_texts {status : ProtocolResponseStatus} (hnamed : Named status) (c : Command) :
    status.code ≠ ProtocolResponseStatus.success.code ∧
      ∀ error ∈ [EmqError.data, .write, .read, .response],
        emqErrorArray error ≠ emqErrorArray (emqGetError (errorHeader c status)) := by
  have htext := hnamed 0 0 0
  change status.code ≠ _ ∧ ∀ error ∈ [EmqError.data, .write, .read, .response],
    emqErrorArray error ≠ emqErrorArray (emqGetError ⟨0, 0, status.code, 0⟩)
  revert htext
  cases status <;> decide

theorem errorHeader_input {c : Command} {status : ProtocolResponseStatus} {w : World}
    {rest : List UInt8} (hinput : w.input = (errorHeader c status).bytes ++ rest) :
    ProtocolResponseHeader.parse w.input = errorHeader c status ∧ 8 ≤ w.input.length ∧
      w.input.drop 8 = rest := by
  have hlength : (errorHeader c status).bytes.length = 8 := headerBytes_length ..
  refine ⟨?_, ?_, ?_⟩
  · rw [hinput, ProtocolResponseHeader.parse_bytes]
  · rw [hinput, List.length_append]
    omega
  · rw [hinput, ← hlength, List.drop_left]

theorem not_reportsError {c : Command} {status : ProtocolResponseStatus} {w w' : World}
    {rest : List UInt8} {reply : Reply} {error : EmqError}
    (htext : w'.client.error = emqErrorArray error)
    (hne : emqErrorArray error ≠ emqErrorArray (emqGetError (errorHeader c status))) :
    ¬ ReportsError c status w rest (.returned reply w') := by
  rintro ⟨_, hresult, _, herror, _⟩
  cases hresult
  exact hne (htext.symm.trans herror)

/-- A command of an acknowledging client reports the server's error, unless it looks
for the body of a success or the response of another command first, or takes the
length of its own frame for a failed write. -/
theorem reportsError_iff (k : Kernel) (hreads : Kernel.ReadsOk k) (hwrites : Kernel.WritesOk k)
    (c : Command) (haccepts : Accepts c) (status : ProtocolResponseStatus)
    (hnamed : Named status) (w : World) (hready : Ready w.client)
    (hnoack : w.client.noack = false) (rest : List UInt8)
    (hinput : w.input = (errorHeader c status).bytes ++ rest) :
    ReportsError c status w rest (exec k c w) ↔
      ¬ RequiresBody c ∧ ¬ ExpectsOther c ∧ ¬ LengthMisread c false := by
  obtain ⟨hdenied, htexts⟩ := named_texts hnamed c
  obtain ⟨hparse, henough, hrest⟩ := errorHeader_input hinput
  have hcheck := check_errorHeader c status
  have hmisread := misread_iff hwrites c w.writes w.client.noack
  rw [← hparse] at hcheck
  have houtcome := exec_outcome k c w hready.1
  generalize exec k c w = result at houtcome
  cases houtcome with
  | refused h => exact absurd haccepts h
  | exhausted size haccepts hsmall => exact absurd hsmall hready.large
  | unsent n writes failures rest' mallocs _ hroom hstall hcause =>
      rcases hcause with ⟨hfail, _⟩ | ⟨hlength, _⟩
      · exact absurd hwrites hfail
      · rw [hmisread, hnoack] at hlength
        refine iff_of_false (not_reportsError rfl (htexts .write (by simp))) ?_
        rintro ⟨_, _, hnot⟩
        exact hnot hlength
  | unread w1 dropped reads hissued hawaits hlt hend =>
      refine iff_of_false (not_reportsError rfl (htexts .read (by simp))) ?_
      rintro ⟨hbody, _, _⟩
      have hshort := (hend hreads).1
      have hhead := head_eq_eight (c := c) (by
        rintro rfl
        exact hbody rfl)
      omega
  | rejected w1 reads hissued hawaits hlt hlong herr =>
      refine iff_of_false (not_reportsError rfl (htexts .response (by simp))) ?_
      rintro ⟨hbody, hother, _⟩
      rw [hcheck, if_neg (by tauto)] at herr
      cases herr
  | denied w1 reads hissued hawaits hlt hlong hok hstatus =>
      have hexpected : ¬ RequiresBody c ∧ ¬ ExpectsOther c := by
        by_contra hnot
        rw [hcheck, if_pos (by tauto)] at hok
        cases hok
      have hhead := head_eq_eight (c := c) (by
        rintro rfl
        exact hexpected.1 rfl)
      have hlength : ¬ LengthMisread c false := by
        rw [← hnoack, ← hmisread]
        cases hissued with
        | intro n writes rest' mallocs _ hroom hn hwhole hread => exact hread
      refine iff_of_true ⟨_, rfl, rfl, ?_, ?_, hissued.queueSubscriptions,
        hissued.channelSubscriptions⟩ ⟨hexpected.1, hexpected.2, hlength⟩
      · rw [← hparse]
        rfl
      · rw [← hrest, hhead, ← hissued.input]
        rfl
  | finished response w2 exit haccepted hbody =>
      cases haccepted with
      | answered w1 reads hissued hawaits hlt hlong hok hstatus =>
          rw [hparse] at hstatus
          exact absurd hstatus hdenied
      | unanswered _ hissued hawaits =>
          simp [hnoack] at hawaits

def existQuery : Command := .queueExist queueQ

def refusedWorld : World :=
  World.connected [] (errorHeader existQuery .errorAccess).bytes

theorem named_errorAccess : Named .errorAccess := by
  intro _ _ _
  change emqErrorArray .access ≠ ""
  decide

/-- The query expects a body of four bytes and calls the refusal a bad response. -/
theorem existQuery_mislabels :
    ¬ ∀ (k : Kernel) (c : Command) (status : ProtocolResponseStatus) (w : World)
      (rest : List UInt8), Kernel.ReadsOk k → Kernel.WritesOk k → Accepts c → Named status →
      Ready w.client → w.client.noack = false →
      w.input = (errorHeader c status).bytes ++ rest →
      ReportsError c status w rest (exec k c w) := by
  intro h
  obtain ⟨w', hresult, _, htext, _⟩ := h generous existQuery .errorAccess refusedWorld []
    generous_reliable.reads generous_reliable.writes (by decide) named_errorAccess
    (ready_connected _ _) rfl (by simp [refusedWorld, World.connected])
  have hstate : (exec generous existQuery refusedWorld).state.client.error =
      "Response error" := by
    decide +kernel
  rw [hresult] at hstate
  exact absurd (hstate.symm.trans htext) (by decide)

theorem reportsError_iff_ping :
    Accepts .ping ∧ ReportsError .ping .errorAccess
      (World.connected [] (errorHeader .ping .errorAccess).bytes) []
      (exec generous .ping (World.connected [] (errorHeader .ping .errorAccess).bytes)) :=
  ⟨by decide, (reportsError_iff generous generous_reliable.reads generous_reliable.writes .ping
    (by decide) .errorAccess named_errorAccess
    (World.connected [] (errorHeader .ping .errorAccess).bytes) (ready_connected _ _) rfl []
    (by simp [World.connected])).mpr
      ⟨by decide, by decide, fun h => by simp [LengthMisread, parts] at h⟩⟩

end Libemq.ServerErrors
