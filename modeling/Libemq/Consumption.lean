import Libemq.Runs

namespace Libemq.Consumption

open Libemq.CStrings
open Libemq.ExitCode
open Libemq.Client
open Libemq.Network
open Libemq.Protocol
open Libemq.Packet
open Libemq.Commands
open Libemq.Transactions
open Libemq.Responses
open Libemq.Calls
open Libemq.Events
open Libemq.Runs

/-- Exactly the first so many bytes of the input were taken. -/
def Took (n : Nat) (w w' : World) : Prop := n ≤ w.input.length ∧ w'.input = w.input.drop n

theorem took_iff {n m : Nat} {w w' : World} (h : Took n w w') : Took m w w' ↔ m = n := by
  obtain ⟨hn, hinput⟩ := h
  constructor
  · rintro ⟨hm, hinput'⟩
    have hlength := congrArg List.length (hinput'.symm.trans hinput)
    simp only [List.length_drop] at hlength
    omega
  · rintro rfl
    exact ⟨hn, hinput⟩

/-- The call that accepts a response of any length and reads no body. -/
def IgnoresLength : Command → Bool
  | .queueConfirm .. => true
  | _ => false

def IsQueueNotify (header : ProtocolEventHeader) : Prop :=
  header.cmd = ProtocolCommand.queueSubscribe.code ∧ header.type = emqProtocolEventNotify

theorem check_ok_iff {cmd : ProtocolCommand} {bodylen : UInt32}
    {header : ProtocolResponseHeader} :
    emqCheckResponseHeader cmd bodylen header = .ok ↔
      header.magic = emqProtocolRes ∧ header.cmd = cmd.code ∧ header.bodylen = bodylen := by
  unfold emqCheckResponseHeader
  split
  · rename_i h
    simp only [reduceCtorEq, false_iff]
    tauto
  · rename_i h
    simp only [true_iff]
    tauto

theorem size_of_accepted {c : Command} {header : ProtocolResponseHeader}
    (hcheck : Finish.check (finish c) header = .ok) :
    8 + header.bodylen.toNat =
        Finish.head (finish c) + Finish.size (finish c) header.bodylen.toNat ↔
      (IgnoresLength c → header.bodylen.toNat = 0) := by
  cases c <;>
    simp only [finish, Finish.check, check_ok_iff, Finish.head, Finish.size,
      IgnoresLength] at hcheck ⊢ <;>
    simp [hcheck]

theorem took_of_succeeded {k : Kernel} {c : Command} {w : World} (hready : Ready w.client)
    (hnoack : w.client.noack = false) {reply : Reply} {w' : World}
    (h : exec k c w = .returned reply w') (hok : w'.client.status = .ok) :
    Finish.check (finish c) (.parse w.input) = .ok ∧
      Took (Finish.head (finish c) + Finish.size (finish c)
        (ProtocolResponseHeader.parse w.input).bodylen.toNat) w w' := by
  have houtcome := exec_outcome k c w hready.1
  rw [h] at houtcome
  generalize hresult : Outcome.returned reply w' = result at houtcome
  cases houtcome with
  | finished response w2 exit haccepted hbody =>
      cases haccepted with
      | unanswered _ hissued hawaits => simp [hnoack] at hawaits
      | answered w1 reads hissued hawaits hlt hlong hcheck hstatus =>
          rw [parse_take (Finish.head_bounds _).1] at hbody
          cases hbody with
          | done reply' done reads' mallocs failures hsized henough =>
              cases hresult
              simp only [received_input, hissued.input, List.length_drop] at henough
              refine ⟨hcheck, by omega, ?_⟩
              rw [← hissued.input]
              simp [Commit.applied]
          | failed => cases hresult; cases hok
          | unnamed => cases hresult; cases hok
          | faulted => cases hresult
  | _ => cases hresult; cases hok

theorem took_of_received {k : Kernel} {w w' : World} {delivery : Delivery}
    (h : receiveEvent k w = .next delivery w') :
    WellFormed (.parse w.input) ∧ messageSize (.parse w.input) ≤ intMax ∧
      Took (8 + prefixSize (.parse w.input) + messageSize (.parse w.input)) w w' := by
  have houtcome := receiveEvent_outcome k w
  rw [h] at houtcome
  generalize hexit : Exit.next delivery w' = exit at houtcome
  cases houtcome with
  | complete callback name reads mallocs hreads hheader hsome henough hle =>
      cases hexit
      exact ⟨hheader, hle, henough, rfl⟩
  | _ => cases hexit

theorem size_of_event {header : ProtocolEventHeader} (hheader : WellFormed header)
    (hle : messageSize header ≤ intMax) :
    8 + header.bodylen.toNat = 8 + prefixSize header + messageSize header ↔
      (IsQueueNotify header → header.bodylen.toNat = 64) := by
  have hlt := header.bodylen.toNat_lt
  have harrays := prefixSize_le header
  by_cases hmessage : hasMessage header
  · have hnot : ¬ IsQueueNotify header := by
      rintro ⟨hcmd, htype⟩
      rw [hmessage hcmd] at htype
      exact absurd htype (by decide)
    refine iff_of_true ?_ (fun h => absurd h hnot)
    rw [messageSize, if_pos hmessage] at hle ⊢
    unfold intMax at hle
    omega
  · have hqueue : header.cmd = ProtocolCommand.queueSubscribe.code := by
      by_contra hcmd
      exact hmessage fun h => absurd h hcmd
    have hnotify : IsQueueNotify header := by
      refine ⟨hqueue, ?_⟩
      by_contra htype
      obtain ⟨hcheck, _⟩ := hheader
      rw [emqCheckEventHeader, if_pos] at hcheck
      · cases hcheck
      · exact .inr ⟨htype, fun h => hmessage fun _ => h⟩
    rw [messageSize, if_neg hmessage, prefixSize, if_pos hqueue]
    constructor
    · intro h _
      omega
    · intro h
      have := h hnotify
      omega

/-- A successful call took exactly the frame whose header it accepted, unless it is
`emq_queue_confirm` and that frame has a body; and a delivered event took exactly its
frame, unless it is a queue notification of another length. -/
theorem success_took_frame_iff (k : Kernel) :
    (∀ (c : Command) (w w' : World) (reply : Reply), Ready w.client →
      w.client.noack = false → exec k c w = .returned reply w' → w'.client.status = .ok →
      (Took (8 + (ProtocolResponseHeader.parse w.input).bodylen.toNat) w w' ↔
        (IgnoresLength c → (ProtocolResponseHeader.parse w.input).bodylen.toNat = 0))) ∧
    ∀ (w w' : World) (delivery : Delivery),
      receiveEvent k w = .next delivery w' →
      (Took (8 + (ProtocolEventHeader.parse w.input).bodylen.toNat) w w' ↔
        (IsQueueNotify (.parse w.input) →
          (ProtocolEventHeader.parse w.input).bodylen.toNat = 64)) := by
  constructor
  · intro c w w' reply hready hnoack h hok
    obtain ⟨hcheck, htook⟩ := took_of_succeeded hready hnoack h hok
    rw [took_iff htook]
    exact size_of_accepted hcheck
  · intro w w' delivery h
    obtain ⟨hheader, hle, htook⟩ := took_of_received h
    rw [took_iff htook]
    exact size_of_event hheader hle

def confirm : Command := .queueConfirm queueQ 0

def overfull : ProtocolResponseHeader where
  magic := emqProtocolRes
  cmd := ProtocolCommand.queueConfirm.code
  status := ProtocolResponseStatus.success.code
  bodylen := 1

/-- The byte of the body stays in the input of a successful `emq_queue_confirm`. -/
theorem confirm_leaves_body :
    ¬ ((∀ (k : Kernel) (c : Command) (w w' : World) (reply : Reply), Ready w.client →
      w.client.noack = false → exec k c w = .returned reply w' → w'.client.status = .ok →
      (ProtocolResponseHeader.parse w.input).bodylen.toNat ≤ intMax →
      Took (8 + (ProtocolResponseHeader.parse w.input).bodylen.toNat) w w') ∧
    ∀ (k : Kernel) (w w' : World) (delivery : Delivery),
      receiveEvent k w = .next delivery w' →
      Took (8 + (ProtocolEventHeader.parse w.input).bodylen.toNat) w w') := by
  rintro ⟨h, _⟩
  have hsucceeded : Succeeded (exec generous confirm
      (World.connected [] (overfull.bytes ++ [0]))) := by
    decide +kernel
  have hleft : (exec generous confirm
      (World.connected [] (overfull.bytes ++ [0]))).state.input = [0] := by
    decide +kernel
  obtain ⟨reply, w', hexec, hok⟩ := hsucceeded.returned
  have htook := h generous confirm _ w' reply (ready_connected _ _) rfl hexec hok (by decide)
  rw [hexec] at hleft
  exact absurd (hleft.symm.trans htook.2) (by decide)

def pong : World :=
  World.connected [] (ProtocolResponseHeader.mk emqProtocolRes ProtocolCommand.ping.code
    ProtocolResponseStatus.success.code 0).bytes

def notified : World :=
  { World.connected [] ((ProtocolEventHeader.mk emqProtocolEvent
      ProtocolCommand.queueSubscribe.code emqProtocolEventNotify 64).bytes ++
        charArray 64 queueQ) with
    client := { emqClientInit [] with queueSubscriptions := [subscriptionQ] } }

theorem success_took_frame_iff_ping :
    (∃ reply w', exec generous .ping pong = .returned reply w' ∧
      Took (8 + (ProtocolResponseHeader.parse pong.input).bodylen.toNat) pong w') ∧
    ∃ delivery w', receiveEvent generous notified = .next delivery w' ∧
      Took (8 + (ProtocolEventHeader.parse notified.input).bodylen.toNat) notified w' := by
  constructor
  · have hsucceeded : Succeeded (exec generous .ping pong) := by decide +kernel
    obtain ⟨reply, w', hexec, hok⟩ := hsucceeded.returned
    exact ⟨reply, w', hexec, ((success_took_frame_iff generous).1 .ping pong w' reply
      (ready_connected _ _) rfl hexec hok).mpr (fun h => by cases h)⟩
  · have hnext : (receiveEvent generous notified).isNext = true := by decide +kernel
    obtain ⟨delivery, w', hreceive⟩ := Exit.eq_next hnext
    exact ⟨delivery, w', hreceive, ((success_took_frame_iff generous).2 notified w' delivery
      hreceive).mpr (fun _ => by decide +kernel)⟩

end Libemq.Consumption
